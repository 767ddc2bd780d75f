import Monomorph.Proofs.Components
import Monomorph.Proofs.Stability

/-!
What the expansion graph records. A request that an instance makes leaves an edge to the instance
it leads to, whether that one is new or was there before. It does so if the instance that makes the
request is there once the request is carried out, which may be by this request. Nothing else leaves
an edge, and no edge is left twice. So the graph shows the successful requests of instances and
nothing more. A request that is repeated leaves the edge it could not leave the first time, if the
instance that makes it has come since, and otherwise nothing.
-/

namespace Monomorph

namespace Graph

variable {graph : Graph} {source target : Nat}

theorem mem_children : target ∈ graph.children source ↔ (source, target) ∈ graph.edges := by
  rw [children, (ascending_perm _).mem_iff, mem_targets]

/-- Where no edge is there twice, no child is listed twice. -/
theorem children_sorted (distinct : graph.edges.Nodup) (source : Nat) :
    (graph.children source).Pairwise (· < ·) := by
  apply ascending_sorted
  refine List.Nodup.map_on ?_ (distinct.filter _)
  intro edge member other member' same
  have out : edge.1 = source := by simpa using (List.mem_filter.mp member).2
  have out' : other.1 = source := by simpa using (List.mem_filter.mp member').2
  exact Prod.ext (out.trans out'.symm) same

theorem addEdge_of_absent (absent : graph.order ≤ source) : graph.addEdge source target = graph :=
  if_neg fun present => absurd present.1 (Nat.not_lt_of_le absent)

end Graph

namespace InstanceTable

section Links

variable {table : InstanceTable} {parent : Option Nat} {child : Nat}

theorem mem_edges_linkParent (source target : Nat) :
    (source, target) ∈ (table.linkParent parent child).expansion.edges ↔
      (source, target) ∈ table.expansion.edges ∨
        parent = some source ∧ child = target ∧
          source < table.expansion.order ∧ child < table.expansion.order := by
  cases parent with
  | none => simp [linkParent]
  | some parent =>
    rw [linkParent, addExpansion, Graph.mem_edges_addEdge, Prod.mk.injEq, Option.some.injEq]
    constructor
    · rintro (old | ⟨⟨rfl, rfl⟩, below⟩)
      · exact Or.inl old
      · exact Or.inr ⟨rfl, rfl, below⟩
    · rintro (old | ⟨rfl, rfl, below⟩)
      · exact Or.inl old
      · exact Or.inr ⟨⟨rfl, rfl⟩, below⟩

/-- There is nothing to note exactly if the edge is there or cannot be. -/
theorem linkParent_eq_self_iff (inside : child < table.expansion.order) :
    table.linkParent parent child = table ↔
      ∀ source, parent = some source → source < table.expansion.order →
        (source, child) ∈ table.expansion.edges := by
  constructor
  · intro same source asked below
    have noted : (source, child) ∈ (table.linkParent parent child).expansion.edges :=
      (mem_edges_linkParent source child).mpr (Or.inr ⟨asked, rfl, below, inside⟩)
    rwa [same] at noted
  · intro linked
    cases parent with
    | none => rfl
    | some source =>
      have same : table.expansion.addEdge source child = table.expansion := by
        by_cases below : source < table.expansion.order
        · exact Graph.addEdge_of_mem (linked source rfl below)
        · exact Graph.addEdge_of_absent (Nat.le_of_not_lt below)
      rw [linkParent, addExpansion, same]

theorem linkParent_of_missing {source : Nat} (below : source < table.expansion.order)
    (inside : child < table.expansion.order)
    (missing : (source, child) ∉ table.expansion.edges) :
    table.linkParent (some source) child =
      { table with expansion.edges := table.expansion.edges ++ [(source, child)] } := by
  rw [linkParent, addExpansion, Graph.addEdge, if_pos ⟨below, inside, missing⟩]

end Links

/-- A request leaves an edge from the instance that makes it to the one it leads to, and no
other. -/
theorem mem_edges_request {table : InstanceTable} (coherent : table.Coherent) (catalog : Catalog)
    (traits : TraitAuthority) (request : Request) (parent child : Nat) :
    (parent, child) ∈ (table.request catalog traits request).2.expansion.edges ↔
      (parent, child) ∈ table.expansion.edges ∨
        request.parent = some parent ∧
          (table.request catalog traits request).1.answer = .ok child ∧
            parent < (table.request catalog traits request).2.size := by
  rcases table.request_cases catalog traits request with
    ⟨fault, same⟩ | ⟨_, ⟨id, known, same⟩ | ⟨_, _, same⟩⟩
  · rw [same]
    simp [record]
  · obtain ⟨_, there, _⟩ := (coherent.interned?_eq_some_iff _ _ _).mp known
    have inside : id < table.size := (List.getElem?_eq_some_iff.mp there).1
    rw [same, mem_edges_linkParent, coherent.nodes]
    simp [inside]
  · rw [same, mem_edges_linkParent, expansion_push, Graph.edges_addNode, Graph.order_addNode,
      coherent.nodes]
    simp

end InstanceTable

namespace CompilationUnit

/-- The request that a change makes, with the arguments that it fills in. -/
def requested (unit : CompilationUnit) : Change → Option Request
  | .request request => some request
  | .requestWithDefaults request => some (request.withDefaults unit.catalog)
  | _ => none

/-- The change is a request by `parent` that leads to `child`, and `parent` is there once it is
carried out. -/
def Nests (unit : CompilationUnit) (change : Change) (parent child : Nat) : Prop :=
  (∃ request, unit.requested change = some request ∧ request.parent = some parent ∧
    (unit.request request).1.answer = .ok child) ∧
  parent < (unit.after change).instances.length

section Edges

variable {unit : CompilationUnit} {change : Change}

theorem after_requested {request : Request} (made : unit.requested change = some request) :
    unit.after change = (unit.request request).2 := by
  cases change with
  | request request => cases made; rfl
  | requestWithDefaults request => cases made; rfl
  | _ => cases made

theorem ne_merge_of_requested {request : Request} (made : unit.requested change = some request)
    (other : CompilationUnit) : change ≠ .merge other := by
  rintro rfl
  cases made

theorem edges_of_unrequested (unmade : unit.requested change = none)
    (alone : ∀ other, change ≠ .merge other) :
    (unit.after change).table.expansion = unit.table.expansion := by
  cases change with
  | register shared =>
    change (unit.register shared).2.table.expansion = unit.table.expansion
    unfold register
    split <;> rfl
  | request request => cases unmade
  | requestWithDefaults request => cases unmade
  | sweep =>
    change unit.sweep.2.table.expansion = unit.table.expansion
    rw [table_sweep_eq, InstanceTable.markAll_eq]
  | takeArtifacts => rfl
  | takeFaults => rfl
  | merge other => exact absurd rfl (alone other)

theorem mem_edges_after (coherent : unit.table.Coherent) (alone : ∀ other, change ≠ .merge other)
    (parent child : Nat) :
    (parent, child) ∈ (unit.after change).table.expansion.edges ↔
      (parent, child) ∈ unit.table.expansion.edges ∨ unit.Nests change parent child := by
  unfold Nests
  cases made : unit.requested change with
  | none => simp [edges_of_unrequested made alone]
  | some request =>
    rw [after_requested made]
    have edges := InstanceTable.mem_edges_request coherent unit.catalog unit.traits request parent
      child
    refine edges.trans (or_congr Iff.rfl ?_)
    simp only [Option.some.injEq, exists_eq_left', and_assoc]
    rfl

/-- An edge that is there after a run was there before it or was left by one of its changes. -/
theorem mem_edges_afterAll (reached : unit.Reachable) {changes : List Change}
    (alone : ∀ other, Change.merge other ∉ changes) (parent child : Nat) :
    (parent, child) ∈ (unit.afterAll changes).table.expansion.edges ↔
      (parent, child) ∈ unit.table.expansion.edges ∨
        ∃ earlier change later, changes = earlier ++ change :: later ∧
          (unit.afterAll earlier).Nests change parent child := by
  induction changes generalizing unit with
  | nil => simp [afterAll]
  | cons change rest ih =>
    obtain ⟨here, rests⟩ := alone_cons.mp alone
    have next : (unit.after change).Reachable :=
      reached.change change fun other same => absurd same (here other)
    change _ ∈ ((unit.after change).afterAll rest).table.expansion.edges ↔ _
    rw [ih next rests, mem_edges_after reached.coherent here, or_assoc]
    refine or_congr Iff.rfl ⟨?_, ?_⟩
    · rintro (nests | ⟨earlier, made, later, rfl, nests⟩)
      · exact ⟨[], change, rest, rfl, nests⟩
      · exact ⟨change :: earlier, made, later, rfl, nests⟩
    · rintro ⟨earlier, made, later, split, nests⟩
      cases earlier with
      | nil =>
        cases split
        exact Or.inl nests
      | cons first earlier =>
        cases split
        exact Or.inr ⟨earlier, made, later, rfl, nests⟩

end Edges

/-- The unit with one more edge. -/
def withEdge (unit : CompilationUnit) (parent child : Nat) : CompilationUnit :=
  { unit with table.expansion.edges := unit.table.expansion.edges ++ [(parent, child)] }

section Repetition

variable {unit later : CompilationUnit} {change : Change} {request : Request}

/-- A change makes the same request at a later time. -/
theorem requested_of_evolves (made : unit.requested change = some request) {shared : SharedGeneric}
    (known : unit.catalog.find? request.generic = some shared) (evolves : unit.Evolves later) :
    later.requested change = some request := by
  cases change with
  | request request => exact made
  | requestWithDefaults given =>
    obtain rfl : given.withDefaults unit.catalog = request := Option.some.inj made
    rw [Request.generic_withDefaults] at known
    have same : given.withDefaults later.catalog = given.withDefaults unit.catalog := by
      simp only [Request.withDefaults, Catalog.generic?, known, evolves.declared _ _ known]
    exact congrArg some same
  | _ => cases made

section Later

variable {child : Nat} {changes : List Change} (reached : unit.Reachable)
  (made : unit.requested change = some request)
  (served : (unit.request request).1.answer = .ok child) (lawful : Lawful (change :: changes))

include reached made served lawful

/-- What a request led to is there at any later time. -/
theorem settled_later :
    (unit.afterAll (change :: changes)).Settled request.generic request.arguments child := by
  obtain ⟨merged, rests⟩ := lawful_cons.mp lawful
  have settled : (unit.after change).Settled request.generic request.arguments child := by
    rw [after_requested made]
    exact settled_of_answer reached.coherent served
  exact settled.evolves (reached.change change merged).coherent
    ((unit.after change).evolves_afterAll rests)

theorem child_lt_later : child < (unit.afterAll (change :: changes)).table.expansion.order := by
  have coherent := (reached.afterAll lawful).coherent
  have interned := (settled_later reached made served lawful).interned
  obtain ⟨_, there, _⟩ := (coherent.interned?_eq_some_iff _ _ _).mp interned
  rw [coherent.nodes]
  exact (List.getElem?_eq_some_iff.mp there).1

/-- The edge that a request leaves stays. -/
theorem mem_edges_later {parent : Nat} (asked : request.parent = some parent)
    (hosted : parent < (unit.after change).instances.length) :
    (parent, child) ∈ (unit.afterAll (change :: changes)).table.expansion.edges := by
  have left : (parent, child) ∈ (unit.after change).table.expansion.edges :=
    (mem_edges_after reached.coherent (ne_merge_of_requested made) parent child).mpr
      (Or.inr ⟨⟨request, made, asked, served⟩, hosted⟩)
  have evolves := (unit.after change).evolves_afterAll (lawful_cons.mp lawful).2
  exact (InstanceTable.edges_of_steps evolves.steps).subset left

/-- Repeating a request that led to an instance comes to noting again that this one is needed. -/
theorem after_again :
    (unit.afterAll (change :: changes)).after change =
      { unit.afterAll (change :: changes) with
        table := (unit.afterAll (change :: changes)).table.linkParent request.parent child } := by
  obtain ⟨shared, known, _⟩ := (settled_of_answer reached.coherent served).admitted
  have again := requested_of_evolves made known (unit.evolves_afterAll lawful)
  have settled := settled_later reached made served lawful
  rw [after_requested again]
  exact congrArg Prod.snd (settled.request_eq request.span request.parent)

theorem after_again_eq_self_iff :
    (unit.afterAll (change :: changes)).after change = unit.afterAll (change :: changes) ↔
      ∀ parent, request.parent = some parent →
        parent < (unit.afterAll (change :: changes)).instances.length →
          child ∈ (unit.afterAll (change :: changes)).table.children parent := by
  have inside := child_lt_later reached made served lawful
  have nodes := (reached.afterAll lawful).coherent.nodes
  simp only [InstanceTable.children, Graph.mem_children]
  rw [after_again reached made served lawful, instances, ← InstanceTable.size, ← nodes,
    ← InstanceTable.linkParent_eq_self_iff inside]
  refine ⟨congrArg table, fun same => ?_⟩
  rw [same]

/-- Repeating a request adds an edge if the instance that makes it has come since the first time. -/
theorem after_again_of_missing {parent : Nat} (asked : request.parent = some parent)
    (present : parent < (unit.afterAll (change :: changes)).instances.length)
    (missing : child ∉ (unit.afterAll (change :: changes)).table.children parent) :
    (unit.after change).instances.length ≤ parent ∧
      (unit.afterAll (change :: changes)).after change =
        (unit.afterAll (change :: changes)).withEdge parent child := by
  rw [InstanceTable.children, Graph.mem_children] at missing
  constructor
  · by_contra early
    exact missing
      (mem_edges_later reached made served lawful asked (Nat.lt_of_not_le early))
  · have below : parent < (unit.afterAll (change :: changes)).table.expansion.order := by
      rw [(reached.afterAll lawful).coherent.nodes]
      exact present
    rw [after_again reached made served lawful, asked, InstanceTable.linkParent_of_missing below
      (child_lt_later reached made served lawful) missing, withEdge]

end Later

end Repetition

/-- After a run without a merge the children of an instance are listed in ascending order, and they
are the instances that its successful requests led to: those it made while it was there, or that
made it appear. Repeating a request of the run that led to an instance changes nothing exactly if
this one is a child of the instance that makes the request or that one is not there. Otherwise that
one was not there after the first time either, and repeating the request adds the edge and nothing
else. -/
theorem expansion_exact (traits : TraitAuthority) (policy : Policy) {changes : List Change}
    (alone : ∀ other, Change.merge other ∉ changes) :
    let start := empty traits policy
    let unit := start.afterAll changes
    (∀ parent, (unit.table.children parent).Pairwise (· < ·)) ∧
    (∀ parent child, child ∈ unit.table.children parent ↔
      ∃ earlier change later, changes = earlier ++ change :: later ∧
        (start.afterAll earlier).Nests change parent child) ∧
    ∀ earlier change later request child, changes = earlier ++ change :: later →
      (start.afterAll earlier).requested change = some request →
      ((start.afterAll earlier).request request).1.answer = .ok child →
      (unit.after change = unit ↔ ∀ parent, request.parent = some parent →
        parent < unit.instances.length → child ∈ unit.table.children parent) ∧
      ∀ parent, request.parent = some parent → parent < unit.instances.length →
        child ∉ unit.table.children parent →
          (start.afterAll (earlier ++ [change])).instances.length ≤ parent ∧
            unit.after change = unit.withEdge parent child := by
  intro start unit
  have reached : start.Reachable := .empty traits policy
  have steps : start.table.Steps unit.table := start.steps_afterAll changes
  refine ⟨?_, ?_, ?_⟩
  · exact Graph.children_sorted (InstanceTable.nodup_edges_of_steps List.nodup_nil steps)
  · intro parent child
    have edges := mem_edges_afterAll reached alone parent child
    have none : (parent, child) ∉ start.table.expansion.edges := List.not_mem_nil
    rw [InstanceTable.children, Graph.mem_children, edges, or_iff_right none]
  · intro earlier change later request child split made served
    have run : unit = (start.afterAll earlier).afterAll (change :: later) :=
      (congrArg start.afterAll split).trans List.foldl_append
    have first : start.afterAll (earlier ++ [change]) = (start.afterAll earlier).after change :=
      List.foldl_append
    rw [split] at alone
    have before : Lawful earlier := fun other member =>
      absurd (List.mem_append_left _ member) (alone other)
    have since : Lawful (change :: later) := fun other member =>
      absurd (List.mem_append_right _ member) (alone other)
    rw [first, run]
    refine ⟨after_again_eq_self_iff (reached.afterAll before) made served since, ?_⟩
    intro parent asked present missing
    exact after_again_of_missing (reached.afterAll before) made served since asked present missing

section Nestings

/-- Requests of instances for new ones and for old ones, one that makes its own parent appear, one
whose parent is never there, one whose parent comes after it, and one that fails. -/
def nestingHistory : List Change :=
  [.register box, boxOf .int, nestedBox 0 .bool, nestedBox 1 .int, nestedBox 2 .char,
    nestedBox 7 .float, nestedBox 4 .int, .request ⟨"Bix", [], none, some 0⟩, boxOf .void, .sweep]

def nestings : CompilationUnit := (empty .lenient .standard).afterAll nestingHistory

theorem nestings_recorded :
    (∀ other, Change.merge other ∉ nestingHistory) ∧
    2 ∈ nestings.table.children 2 ∧
    (∃ earlier change later, nestingHistory = earlier ++ change :: later ∧
      ((empty .lenient .standard).afterAll earlier).Nests change 2 2) ∧
    3 ∉ nestings.table.children 7 ∧
    (¬ ∃ earlier change later, nestingHistory = earlier ++ change :: later ∧
      ((empty .lenient .standard).afterAll earlier).Nests change 7 3) ∧
    nestings.after (nestedBox 0 .bool) = nestings ∧
    nestings.after (nestedBox 7 .float) = nestings ∧
    nestings.after (nestedBox 4 .int) = nestings.withEdge 4 0 := by
  have alone : ∀ other, Change.merge other ∉ nestingHistory := by
    simp [nestingHistory, boxOf, nestedBox]
  have own : 2 ∈ nestings.table.children 2 := by decide
  have strange : 3 ∉ nestings.table.children 7 := by decide
  obtain ⟨_, recorded, again⟩ := expansion_exact .lenient .standard alone
  refine ⟨alone, own, (recorded 2 2).mp own, strange, mt (recorded 7 3).mpr strange, ?_, ?_, ?_⟩
  · apply (again [.register box, boxOf .int] (nestedBox 0 .bool) _ _ 1 rfl rfl rfl).1.mpr
    rintro parent ⟨⟩ _
    change 1 ∈ nestings.table.children 0
    decide
  · apply (again (nestingHistory.take 5) (nestedBox 7 .float) _ _ 3 rfl rfl rfl).1.mpr
    rintro parent ⟨⟩ present
    exact absurd present (by decide)
  · apply And.right
    apply (again (nestingHistory.take 6) (nestedBox 4 .int) _ _ 0 rfl rfl rfl).2 4 rfl
    · decide
    · decide

/-- A request that is repeated may leave an edge: the instance `5` makes one before it is there,
and the same again when it is. -/
theorem late_parent_linked :
    ¬ ∀ (traits : TraitAuthority) (policy : Policy) (earlier later : List Change) (change : Change)
        (request : Request) (child : Nat),
      (∀ other, Change.merge other ∉ earlier ++ change :: later) →
      ((empty traits policy).afterAll earlier).requested change = some request →
      (((empty traits policy).afterAll earlier).request request).1.answer = .ok child →
      ∀ parent,
        (((empty traits policy).afterAll (earlier ++ change :: later)).after change).table.children
            parent =
          ((empty traits policy).afterAll (earlier ++ change :: later)).table.children parent := by
  intro claim
  have same := claim .lenient .standard [.register box]
    [boxOf .bool, boxOf .char, boxOf .float, boxOf .string, boxOf .void] (nestedBox 5 .int) _ 0
    (by simp [boxOf, nestedBox]) rfl rfl 5
  exact absurd same (by decide)

end Nestings

end CompilationUnit

end Monomorph
