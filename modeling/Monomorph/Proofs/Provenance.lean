import Monomorph.Proofs.Answers
import Monomorph.Proofs.Errands
import Monomorph.Proofs.MergeUnion

/-!
Where instances come from. An instance that another one asked for comes after it, and the other
one has an edge to it. A request sees to that as long as the instance it names as its parent is
there. A merge sees to it too: who asked for an instance is looked up among those taken over
before it, and the edge is carried along with its two ends. Depths are carried over as they are,
so they obey the most generous limit of all units that were merged.
-/

namespace Monomorph

theorem Graph.mem_addEdge_self {graph : Graph} {source target : Nat}
    (below : source < graph.order) (below' : target < graph.order) :
    (source, target) ∈ (graph.addEdge source target).edges :=
  (graph.mem_edges_addEdge source target _).mpr (Or.inr ⟨rfl, below, below'⟩)

theorem Renumbering.apply_concat {renumbering : Renumbering} {last : Option Nat} {id place : Nat}
    (applied : apply (renumbering ++ [last]) id = some place) :
    renumbering.apply id = some place ∨ last = some place := by
  rcases Nat.lt_trichotomy id renumbering.length with below | same | beyond
  · rw [apply_append_left _ _ below] at applied
    exact Or.inl applied
  · rw [same, apply_concat_length] at applied
    exact Or.inr applied
  · have short := lt_length_of_apply _ applied
    rw [List.length_append, List.length_singleton] at short
    omega

namespace InstanceTable

/-- The instance that asked for this one, if there is one, came before it and has an edge to
it. -/
def Attributed (table : InstanceTable) (entry : Instance) : Prop :=
  ∀ parent, entry.requestedBy = some parent →
    parent < entry.id ∧ (parent, entry.id) ∈ table.expansion.edges

/-- Instances are asked for by earlier ones. -/
def Backward (table : InstanceTable) : Prop :=
  ∀ entry ∈ table.instances, ∀ parent, entry.requestedBy = some parent → parent < entry.id

section Attributed

variable {table later : InstanceTable} {entry next : Instance}

theorem Attributed.of_steps (attributed : table.Attributed entry) (steps : table.Steps later)
    (becomes : entry.Becomes next) : later.Attributed next := by
  intro parent asked
  rw [becomes.requestedBy] at asked
  obtain ⟨before, edge⟩ := attributed parent asked
  rw [becomes.id]
  exact ⟨before, (edges_of_steps steps).subset edge⟩

/-- A request by an instance that is there leaves an edge to the instance it enters. -/
theorem attributed_linkParent (coherent : table.Coherent) (id : entry.id = table.size)
    (hosted : ∀ parent, entry.requestedBy = some parent → parent < table.size) :
    ((table.push entry).linkParent entry.requestedBy table.size).Attributed entry := by
  intro parent asked
  have below := hosted parent asked
  rw [asked, id]
  refine ⟨below, Graph.mem_addEdge_self ?_ ?_⟩
  · rw [expansion_push, Graph.order_addNode, coherent.nodes]
    omega
  · rw [expansion_push, Graph.order_addNode, coherent.nodes]
    omega

end Attributed

section Backward

variable {table : InstanceTable} {accepted : String → Bool}

/-- Taking over instances keeps them in order. The places noted so far are places of the table,
and who asked for a new instance is one of them. -/
theorem backward_foldl_adopt {state : InstanceTable × Renumbering} (coherent : state.1.Coherent)
    (backward : state.1.Backward)
    (placed : ∀ id place, state.2.apply id = some place → place < state.1.size)
    (entries : List Instance) : (entries.foldl (adopt accepted) state).1.Backward := by
  induction entries generalizing state with
  | nil => exact backward
  | cons entry rest ih =>
    obtain ⟨table, renumbering⟩ := state
    have next := coherent.of_steps (steps_adopt accepted (table, renumbering) entry)
    rw [List.foldl_cons]
    by_cases taken : accepted entry.generic = true
    · cases known : table.interned? entry.generic entry.arguments with
      | some found =>
        rw [adopt_known renumbering taken known] at next ⊢
        apply ih next backward
        intro id place applied
        rcases Renumbering.apply_concat applied with old | last
        · exact placed id place old
        · cases last
          obtain ⟨_, there, _⟩ := (coherent.interned?_eq_some_iff _ _ _).mp known
          exact (List.getElem?_eq_some_iff.mp there).1
      | none =>
        rw [adopt_new renumbering taken known] at next ⊢
        apply ih next
        · intro found member parent asked
          rw [instances_push, List.mem_append, List.mem_singleton] at member
          rcases member with old | rfl
          · exact backward found old parent asked
          · obtain ⟨source, _, applied⟩ := Option.bind_eq_some_iff.mp asked
            exact placed source parent applied
        · intro id place applied
          rw [size_push]
          rcases Renumbering.apply_concat applied with old | last
          · exact Nat.lt_succ_of_lt (placed id place old)
          · cases last
            exact Nat.lt_succ_self _
    · rw [adopt_refused renumbering taken] at next ⊢
      apply ih next backward
      intro id place applied
      rcases Renumbering.apply_concat applied with old | last
      · exact placed id place old
      · cases last

/-- Marking enters no instance. -/
theorem old_of_markAll {ids : List Nat} {entry : Instance}
    (member : entry ∈ (table.markAll ids).instances) :
    ∃ old ∈ table.instances, old.Becomes entry := by
  obtain ⟨place, there⟩ := List.mem_iff_getElem?.mp member
  change (table.markAll ids).get? place = some entry at there
  rw [get?_markAll] at there
  obtain ⟨old, found, made⟩ := Option.map_eq_some_iff.mp there
  refine ⟨old, List.mem_of_getElem? found, ?_⟩
  rw [← made]
  split
  · exact ⟨rfl, fun _ => rfl⟩
  · exact .refl old

theorem Backward.markAll (backward : table.Backward) (ids : List Nat) :
    (table.markAll ids).Backward := by
  intro entry member parent asked
  obtain ⟨old, listed, becomes⟩ := old_of_markAll member
  rw [becomes.id]
  exact backward old listed parent (becomes.requestedBy.symm.trans asked)

end Backward

end InstanceTable

namespace CompilationUnit

open InstanceTable

/-- If the change is a request made by an instance, that instance is there. -/
def Hosts (unit : CompilationUnit) : Change → Prop
  | .request request | .requestWithDefaults request =>
      ∀ parent, request.parent = some parent → parent < unit.instances.length
  | _ => True

/-- Units that come about by any changes in which requests are made by instances that are there,
each with the greatest limit on the depth among the units it was made from. -/
inductive Traced : CompilationUnit → Nat → Prop
  | empty (traits : TraitAuthority) (policy : Policy) :
      Traced (.empty traits policy) policy.maxDepth
  | change {unit : CompilationUnit} {limit : Nat} (change : Change) : Traced unit limit →
      (∀ other, change ≠ .merge other) → unit.Hosts change → Traced (unit.after change) limit
  | merge {unit other : CompilationUnit} {limit otherLimit : Nat} : Traced unit limit →
      Traced other otherLimit → Traced (unit.merge other) (max limit otherLimit)

/-- Requests along a run are made by instances that are there when they are made. -/
def HostsAll (unit : CompilationUnit) : List Change → Prop
  | [] => True
  | change :: rest => unit.Hosts change ∧ (unit.after change).HostsAll rest

section Traced

variable {unit : CompilationUnit} {limit : Nat}

theorem hosts_of_root {request : Request} (root : request.parent = none) :
    unit.Hosts (.request request) := by
  intro parent asked
  rw [root] at asked
  cases asked

theorem Traced.reachable (traced : unit.Traced limit) : unit.Reachable := by
  induction traced with
  | empty traits policy => exact .empty traits policy
  | change change _ alone _ reached =>
    exact reached.change change fun other same => absurd same (alone other)
  | @merge unit other _ _ _ _ own incoming =>
    apply own.change (.merge other)
    rintro _ ⟨⟩
    exact incoming

theorem Traced.afterAll {changes : List Change} (traced : unit.Traced limit)
    (alone : ∀ other, Change.merge other ∉ changes) (hosted : unit.HostsAll changes) :
    (unit.afterAll changes).Traced limit := by
  induction changes generalizing unit with
  | nil => exact traced
  | cons change rest ih =>
    obtain ⟨here, rests⟩ := alone_cons.mp alone
    exact ih (traced.change change here hosted.1) rests hosted.2

theorem Traced.maxDepth_le (traced : unit.Traced limit) : unit.policy.maxDepth ≤ limit := by
  induction traced with
  | empty traits policy => exact Nat.le_refl _
  | @change unit _ change _ _ _ before =>
    have same : (unit.after change).policy = unit.policy :=
      policy_of_steps (unit.steps_after change)
    exact same ▸ before
  | @merge unit other _ _ _ _ own _ =>
    have same : (unit.merge other).policy = unit.policy := policy_of_steps (unit.steps_merge other)
    exact same ▸ own.trans (Nat.le_max_left _ _)

end Traced

/-- A request of the unit has entered the instance, one step below the one that made it. -/
structure Enters (unit next : CompilationUnit) (entry : Instance) : Prop where
  id : entry.id = unit.table.size
  depth : entry.depth = unit.table.depthBelow entry.requestedBy
  shallow : entry.depth ≤ unit.policy.maxDepth
  hosted : ∀ parent, entry.requestedBy = some parent → parent < unit.table.size
  table : next.table = (unit.table.push entry).linkParent entry.requestedBy unit.table.size

section Origins

variable {unit other : CompilationUnit}

theorem enters_request {request : Request}
    (hosted : ∀ parent, request.parent = some parent → parent < unit.instances.length)
    {entry : Instance} (member : entry ∈ (unit.request request).2.instances) :
    (∃ old ∈ unit.instances, old.Becomes entry) ∨ unit.Enters (unit.request request).2 entry := by
  rcases request_entry member with old | ⟨_, shallow, rfl, table⟩
  · exact Or.inl ⟨entry, old, .refl entry⟩
  · exact Or.inr ⟨rfl, rfl, shallow, hosted, table⟩

/-- Where the instances of a unit come from when no other unit is merged. -/
theorem enters_after {change : Change} (alone : ∀ other, change ≠ .merge other)
    (hosts : unit.Hosts change) {entry : Instance}
    (member : entry ∈ (unit.after change).instances) :
    (∃ old ∈ unit.instances, old.Becomes entry) ∨ unit.Enters (unit.after change) entry := by
  cases change with
  | register shared =>
    change entry ∈ (unit.register shared).2.instances at member
    unfold register at member
    split at member
    · exact Or.inl ⟨entry, member, .refl entry⟩
    · exact Or.inl ⟨entry, member, .refl entry⟩
  | request request => exact enters_request hosts member
  | requestWithDefaults request =>
    apply enters_request _ member
    rw [Request.parent_withDefaults]
    exact hosts
  | sweep =>
    change entry ∈ unit.sweep.2.table.instances at member
    rw [table_sweep_eq] at member
    exact Or.inl (old_of_markAll member)
  | takeArtifacts => exact Or.inl ⟨entry, member, .refl entry⟩
  | takeFaults => exact Or.inl ⟨entry, member, .refl entry⟩
  | merge other => exact absurd rfl (alone other)

variable (own : Consistent unit.catalog unit.table unit.store)
  (incoming : Consistent other.catalog other.table other.store)

include own incoming

theorem backward_merge (backward : unit.table.Backward) : (unit.merge other).table.Backward := by
  have registered : (unit.registering other.catalog.registered).table.Coherent :=
    own.coherent.of_same rfl rfl rfl
  rw [table_merge incoming.distinct, absorbing, absorb_eq]
  apply Backward.markAll
  apply backward_foldl_adopt (show ((unit.registering other.catalog.registered).table,
    ([] : Renumbering)).1.Coherent from registered) backward
  intro id place applied
  cases applied

/-- An instance of a merged unit is one of the unit, or it was carried over with its depth and
with who asked for it. -/
theorem carried_of_mem_merge {later : Instance} (member : later ∈ (unit.merge other).instances) :
    (∃ mine ∈ unit.instances, mine.Becomes later) ∨
    ∃ theirs ∈ other.instances, unit.newPlace other theirs.id = some later.id ∧
      later.depth = theirs.depth ∧ ∀ parent, later.requestedBy = some parent →
        ∃ asker, theirs.requestedBy = some asker ∧ unit.newPlace other asker = some parent := by
  have merged : (unit.merge other).table.Coherent := own.coherent.of_steps (unit.steps_merge other)
  by_cases below : later.id < unit.table.size
  · exact Or.inl (old_of_steps own.coherent (unit.steps_merge other) member below)
  have listed : later.unmarked ∈ (unit.merge other).instances.map Instance.unmarked :=
    List.mem_map_of_mem member
  rw [map_unmarked_merge own incoming, List.mem_append] at listed
  rcases listed with old | new
  · obtain ⟨mine, there, same⟩ := List.mem_map.mp old
    have id := congrArg Instance.id same
    change mine.id = later.id at id
    have within := (List.getElem?_eq_some_iff.mp (own.coherent.get?_id there)).1
    exact absurd (id ▸ within) below
  · obtain ⟨offset, inside, same⟩ := List.mem_mapIdx.mp new
    have newcomer : (unit.newcomers other)[offset] ∈ unit.newcomers other := List.getElem_mem inside
    generalize (unit.newcomers other)[offset] = theirs at same newcomer
    obtain ⟨there, fresh⟩ := List.mem_filter.mp newcomer
    rw [Bool.and_eq_true, decide_eq_true_eq, decide_eq_true_eq] at fresh
    have key := congrArg Instance.key same
    have depth := congrArg Instance.depth same
    have asked := congrArg Instance.requestedBy same
    change theirs.key = later.key at key
    change theirs.depth = later.depth at depth
    change (theirs.requestedBy.bind fun asker =>
      if asker < theirs.id then unit.newPlace other asker else none) = later.requestedBy at asked
    refine Or.inr ⟨theirs, there, ?_, depth.symm, ?_⟩
    · apply (newPlace_eq_some_iff own.coherent).mpr
      exact ⟨theirs, later, incoming.coherent.get?_id there, fresh.1, merged.get?_id member,
        key.symm⟩
    · intro parent requested
      rw [requested] at asked
      obtain ⟨asker, requestedThere, placed⟩ := Option.bind_eq_some_iff.mp asked
      split at placed
      · exact ⟨asker, requestedThere, placed⟩
      · cases placed

end Origins

section Provenance

variable {unit other : CompilationUnit} {limit : Nat}

theorem attributed_after (coherent : unit.table.Coherent) {change : Change}
    (alone : ∀ other, change ≠ .merge other) (hosts : unit.Hosts change)
    (before : ∀ entry ∈ unit.instances, unit.table.Attributed entry) :
    ∀ entry ∈ (unit.after change).instances, (unit.after change).table.Attributed entry := by
  intro entry member
  rcases enters_after alone hosts member with ⟨old, listed, becomes⟩ | enters
  · exact (before old listed).of_steps (unit.steps_after change) becomes
  · rw [enters.table]
    exact attributed_linkParent coherent enters.id enters.hosted

theorem attributed_merge (own : Consistent unit.catalog unit.table unit.store)
    (incoming : Consistent other.catalog other.table other.store)
    (before : ∀ entry ∈ unit.instances, unit.table.Attributed entry)
    (there : ∀ entry ∈ other.instances, other.table.Attributed entry) :
    ∀ later ∈ (unit.merge other).instances, (unit.merge other).table.Attributed later := by
  intro later member
  rcases carried_of_mem_merge own incoming member with
    ⟨mine, listed, becomes⟩ | ⟨theirs, listed, placed, _, asked⟩
  · exact (before mine listed).of_steps (unit.steps_merge other) becomes
  · have backward := backward_merge own incoming fun entry listed parent requested =>
      (before entry listed parent requested).1
    intro parent requested
    refine ⟨backward later member parent requested, ?_⟩
    obtain ⟨asker, requestedThere, moved⟩ := asked parent requested
    apply (mem_edges_merge own incoming _).mpr
    exact Or.inr ⟨_, (there theirs listed asker requestedThere).2, moved, placed⟩

theorem Traced.attributed (traced : unit.Traced limit) :
    ∀ entry ∈ unit.instances, unit.table.Attributed entry := by
  induction traced with
  | empty traits policy => exact nofun
  | change change before alone hosts ih =>
    exact attributed_after before.reachable.coherent alone hosts ih
  | merge own incoming ih ih' =>
    exact attributed_merge own.reachable.consistent incoming.reachable.consistent ih ih'

theorem Traced.depth_le (traced : unit.Traced limit) : ∀ entry ∈ unit.instances,
    entry.depth ≤ limit := by
  induction traced with
  | empty traits policy => exact nofun
  | change change before alone hosts ih =>
    intro entry member
    rcases enters_after alone hosts member with ⟨old, listed, becomes⟩ | enters
    · exact becomes.depth ▸ ih old listed
    · exact enters.shallow.trans before.maxDepth_le
  | merge own incoming ih ih' =>
    intro later member
    rcases carried_of_mem_merge own.reachable.consistent incoming.reachable.consistent member with
      ⟨mine, listed, becomes⟩ | ⟨theirs, listed, _, depth, _⟩
    · exact becomes.depth ▸ (ih mine listed).trans (Nat.le_max_left _ _)
    · exact depth ▸ (ih' theirs listed).trans (Nat.le_max_right _ _)

end Provenance

/-- In every unit whose requests, and those of the units merged on the way, were made by
instances that were there, an instance that another one asked for comes after it and has an edge
from it. No depth exceeds the greatest limit of all the units. -/
theorem provenance_kept {unit : CompilationUnit} {limit : Nat} (traced : unit.Traced limit) :
    (∀ id entry, unit.table.get? id = some entry →
      ∀ parent, entry.requestedBy = some parent →
        parent < id ∧ (∃ asker, unit.table.get? parent = some asker) ∧
          (parent, id) ∈ unit.table.expansion.edges) ∧
    ∀ entry ∈ unit.instances, entry.depth ≤ limit := by
  have coherent := traced.reachable.coherent
  refine ⟨?_, traced.depth_le⟩
  intro id entry found parent asked
  obtain ⟨before, edge⟩ := traced.attributed entry (List.mem_of_getElem? found) parent asked
  rw [coherent.id_eq found] at before edge
  have inside : id < unit.table.size := (List.getElem?_eq_some_iff.mp found).1
  exact ⟨before, ⟨_, List.getElem?_eq_getElem (before.trans inside)⟩, edge⟩

section Crates

/-- A unit like `depot` in which no instance may ask for a new one. -/
def flatDepot : CompilationUnit :=
  (empty .lenient { Policy.standard with maxDepth := 0 }).afterAll depotHistory

theorem traced_flatDepot : flatDepot.Traced 0 := by
  apply (Traced.empty _ { Policy.standard with maxDepth := 0 }).afterAll
  · simp [depotHistory, boxOf]
  · simp [depotHistory, boxOf, HostsAll, Hosts]

theorem traced_delivery : delivery.Traced 128 := by
  apply (Traced.empty _ Policy.standard).afterAll
  · simp [deliveryHistory, boxOf]
  · refine ⟨trivial, trivial, trivial, hosts_of_root rfl, hosts_of_root rfl, hosts_of_root rfl, ?_,
      trivial, trivial⟩
    rintro parent ⟨⟩
    decide

/-- What is carried over keeps its depth, also where the limit would forbid it. -/
theorem flatDepot_provenance :
    (flatDepot.merge delivery).Traced 128 ∧
    (∃ entry, (flatDepot.merge delivery).table.get? 3 = some entry ∧
      entry.requestedBy = some 0 ∧ flatDepot.policy.maxDepth < entry.depth ∧ entry.depth ≤ 128) ∧
    (0, 3) ∈ (flatDepot.merge delivery).table.expansion.edges := by
  have traced : (flatDepot.merge delivery).Traced 128 := traced_flatDepot.merge traced_delivery
  have carried : ∃ entry, (flatDepot.merge delivery).table.get? 3 = some entry ∧
      entry.requestedBy = some 0 ∧ flatDepot.policy.maxDepth < entry.depth :=
    ⟨_, rfl, rfl, by decide⟩
  obtain ⟨entry, found, asked, deep⟩ := carried
  obtain ⟨linked, bounded⟩ := provenance_kept traced
  refine ⟨traced, ⟨entry, found, asked, deep, bounded entry (List.mem_of_getElem? found)⟩, ?_⟩
  exact (linked 3 entry found 0 asked).2.2

end Crates

end CompilationUnit

end Monomorph
