import Monomorph.Proofs.Provenance

/-!
How deep an instance lies. Where no unit is merged, the depth of an instance counts the instances
on the way to it: the one that asked for it, the one that asked for that one, and so on to one that
nobody asked for. The way is finite, since it leads to ever earlier instances, and the limit on the
depth bounds it. So requests that are made one below the other succeed as often as the limit
allows and then fail.
-/

namespace Monomorph

namespace InstanceTable

/-- The way from an instance back to one that nobody asked for: the instance that asked for it,
the one that asked for that one, and so on. -/
inductive Ancestry (table : InstanceTable) : Nat → List Nat → Prop
  | root {id : Nat} {entry : Instance} (found : table.get? id = some entry)
      (unasked : entry.requestedBy = none) : Ancestry table id []
  | asked {id parent : Nat} {entry : Instance} {rest : List Nat}
      (found : table.get? id = some entry) (requested : entry.requestedBy = some parent)
      (above : Ancestry table parent rest) : Ancestry table id (parent :: rest)

/-- The depth of the instance is one more than that of the instance that asked for it. -/
def Measured (table : InstanceTable) (entry : Instance) : Prop :=
  entry.depth = table.depthBelow entry.requestedBy

section Depths

variable {table later : InstanceTable}

theorem Ancestry.unique {id : Nat} {way other : List Nat} (ancestry : table.Ancestry id way)
    (ancestry' : table.Ancestry id other) : other = way := by
  induction ancestry generalizing other with
  | root found unasked =>
    cases ancestry' with
    | root => rfl
    | asked found' requested _ =>
      rw [found] at found'
      cases found'
      rw [unasked] at requested
      cases requested
  | asked found requested _ ih =>
    cases ancestry' with
    | root found' unasked =>
      rw [found] at found'
      cases found'
      rw [requested] at unasked
      cases unasked
    | asked found' requested' above =>
      rw [found] at found'
      cases found'
      rw [requested] at requested'
      cases requested'
      rw [ih above]

theorem depthBelow_none : table.depthBelow none = 0 := rfl

theorem depthBelow_some {parent : Nat} {entry : Instance}
    (found : table.get? parent = some entry) :
    table.depthBelow (some parent) = entry.depth + 1 := by
  simp only [depthBelow, Option.bind_some, found]

/-- An instance that is there does not change its depth. -/
theorem depthBelow_of_steps (steps : table.Steps later) {asked : Option Nat}
    (hosted : ∀ parent, asked = some parent → parent < table.size) :
    later.depthBelow asked = table.depthBelow asked := by
  cases asked with
  | none => rfl
  | some parent =>
    have found := List.getElem?_eq_getElem (hosted parent rfl)
    obtain ⟨next, foundNext, becomes⟩ := grows_of_steps steps parent _ found
    rw [depthBelow_some foundNext, depthBelow_some found, becomes.depth]

theorem Measured.of_steps {entry next : Instance} (measured : table.Measured entry)
    (hosted : ∀ parent, entry.requestedBy = some parent → parent < table.size)
    (steps : table.Steps later) (becomes : entry.Becomes next) : later.Measured next := by
  rw [Measured, becomes.depth, becomes.requestedBy, depthBelow_of_steps steps hosted]
  exact measured

/-- The way back from an instance leads to earlier ones and is as long as the instance is deep. -/
theorem exists_ancestry (coherent : table.Coherent)
    (attributed : ∀ entry ∈ table.instances, table.Attributed entry)
    (measured : ∀ entry ∈ table.instances, table.Measured entry) {id : Nat} {entry : Instance}
    (found : table.get? id = some entry) :
    ∃ way, table.Ancestry id way ∧ (id :: way).Pairwise (· > ·) ∧ entry.depth = way.length := by
  induction id using Nat.strong_induction_on generalizing entry with
  | _ id ih =>
    have member := List.mem_of_getElem? found
    have depth : entry.depth = table.depthBelow entry.requestedBy := measured entry member
    cases asked : entry.requestedBy with
    | none =>
      rw [asked, depthBelow_none] at depth
      exact ⟨[], .root found asked, List.pairwise_singleton _ _, depth⟩
    | some parent =>
      have before := (attributed entry member parent asked).1
      rw [coherent.id_eq found] at before
      have inside : id < table.size := (List.getElem?_eq_some_iff.mp found).1
      have foundParent := List.getElem?_eq_getElem (before.trans inside)
      obtain ⟨rest, above, descending, length⟩ := ih parent before foundParent
      rw [asked, depthBelow_some foundParent, length] at depth
      refine ⟨parent :: rest, .asked found asked above, ?_, depth⟩
      rw [List.pairwise_cons]
      refine ⟨?_, descending⟩
      intro earlier listed
      rcases List.mem_cons.mp listed with rfl | further
      · exact before
      · exact (List.rel_of_pairwise_cons descending further).trans before

end Depths

end InstanceTable

namespace CompilationUnit

open InstanceTable

section Measured

variable {unit : CompilationUnit} {limit : Nat}

theorem measured_after (traced : unit.Traced limit) {change : Change}
    (alone : ∀ other, change ≠ .merge other) (hosts : unit.Hosts change)
    (before : ∀ entry ∈ unit.instances, unit.table.Measured entry) :
    ∀ entry ∈ (unit.after change).instances, (unit.after change).table.Measured entry := by
  intro entry member
  rcases enters_after alone hosts member with ⟨old, listed, becomes⟩ | enters
  · have hosted (parent : Nat) (asked : old.requestedBy = some parent) :
        parent < unit.table.size := by
      have inside :=
        (List.getElem?_eq_some_iff.mp (traced.reachable.coherent.get?_id listed)).1
      exact (traced.attributed old listed parent asked).1.trans inside
    exact (before old listed).of_steps hosted (unit.steps_after change) becomes
  · rw [Measured, depthBelow_of_steps (unit.steps_after change) enters.hosted]
    exact enters.depth

theorem measured_afterAll (traced : unit.Traced limit) {changes : List Change}
    (alone : ∀ other, Change.merge other ∉ changes) (hosted : unit.HostsAll changes)
    (before : ∀ entry ∈ unit.instances, unit.table.Measured entry) :
    ∀ entry ∈ (unit.afterAll changes).instances, (unit.afterAll changes).table.Measured entry := by
  induction changes generalizing unit with
  | nil => exact before
  | cons change rest ih =>
    obtain ⟨here, rests⟩ := alone_cons.mp alone
    exact ih (traced.change change here hosted.1) rests hosted.2
      (measured_after traced here hosted.1 before)

end Measured

section Descents

/-- A request of a chain, and what happens to the unit before it is made. -/
structure Link where
  meanwhile : List Change
  generic : String
  arguments : List Ty
  span : Option Span

namespace Link

def request (link : Link) (parent : Option Nat) : Request :=
  ⟨link.generic, link.arguments, link.span, parent⟩

/-- The fault of a request that would lie too deep. -/
def endless (link : Link) (limit : Nat) : Fault :=
  .endlessExpansion link.generic link.arguments limit (link.span.map Span.extent)

end Link

/-- The answers to a chain of requests, where each is made by the instance that the one before led
to. The first one is made by the given instance or by none. A fault ends the chain. -/
def descend (unit : CompilationUnit) (parent : Option Nat) : List Link → List (Except Fault Nat)
  | [] => []
  | link :: rest =>
      let served := (unit.afterAll link.meanwhile).request (link.request parent)
      match served.1.answer with
      | .ok id => .ok id :: served.2.descend (some id) rest
      | .error fault => [.error fault]

/-- Every request of the chain is without fault when it is made, and there is no instance for it
yet. -/
def Novel (unit : CompilationUnit) (parent : Option Nat) : List Link → Prop
  | [] => True
  | link :: rest =>
      let now := unit.afterAll link.meanwhile
      let served := now.request (link.request parent)
      ((link.request parent).check now.policy now.catalog now.traits).answer = none ∧
        now.table.interned? link.generic link.arguments = none ∧
        match served.1.answer with
        | .ok id => served.2.Novel (some id) rest
        | .error _ => True

section Chains

variable {unit : CompilationUnit} {link : Link} {rest : List Link}

section First

variable {parent : Option Nat} (hosted : ∀ id, parent = some id → id < unit.table.size)
  (novel : unit.Novel parent (link :: rest))

include hosted novel

theorem descend_endless (deep : unit.policy.maxDepth < unit.table.depthBelow parent) :
    unit.descend parent (link :: rest) = [.error (link.endless unit.policy.maxDepth)] := by
  have steps := unit.steps_afterAll link.meanwhile
  have policy : (unit.afterAll link.meanwhile).table.policy = unit.policy := policy_of_steps steps
  obtain ⟨passed, absent, _⟩ := novel
  have tooDeep : (unit.afterAll link.meanwhile).table.policy.maxDepth <
      (unit.afterAll link.meanwhile).table.depthBelow parent := by
    rw [policy, depthBelow_of_steps steps hosted]
    exact deep
  rw [← policy]
  simp only [descend, CompilationUnit.request, request_endless passed absent tooDeep]
  rfl

theorem descend_enters (shallow : unit.table.depthBelow parent ≤ unit.policy.maxDepth) :
    ∃ (id : Nat) (next : CompilationUnit) (entry : Instance),
      next.table.get? id = some entry ∧ entry.depth = unit.table.depthBelow parent ∧
      next.policy = unit.policy ∧ next.Novel (some id) rest ∧
      unit.descend parent (link :: rest) = .ok id :: next.descend (some id) rest := by
  have steps := unit.steps_afterAll link.meanwhile
  have policy : (unit.afterAll link.meanwhile).table.policy = unit.policy := policy_of_steps steps
  have depth := depthBelow_of_steps steps hosted
  obtain ⟨passed, absent, novelRest⟩ := novel
  have fits : (unit.afterAll link.meanwhile).table.depthBelow parent ≤
      (unit.afterAll link.meanwhile).table.policy.maxDepth := by
    rw [policy, depth]
    exact shallow
  have entered := get?_request_new passed absent fits
  have answered : ((unit.afterAll link.meanwhile).request (link.request parent)).1.answer =
      .ok (unit.afterAll link.meanwhile).table.size := by
    simp only [CompilationUnit.request, request_new passed absent fits]
  simp only [answered] at novelRest
  refine ⟨_, ((unit.afterAll link.meanwhile).request (link.request parent)).2, _, entered, depth,
    ?_, novelRest, ?_⟩
  · exact (policy_of_steps (steps_request _ _ _ _)).trans policy
  · simp only [descend, answered]

end First

/-- Below an instance as many requests succeed as the limit leaves room for, and the next fails. -/
theorem descend_below {links : List Link} {parent room : Nat} {entry : Instance}
    (found : unit.table.get? parent = some entry)
    (limit : entry.depth + room = unit.policy.maxDepth) (novel : unit.Novel (some parent) links) :
    ∃ ids : List Nat, ids.length = min links.length room ∧
      unit.descend (some parent) links = ids.map .ok ++
        links[room]?.toList.map fun link => .error (link.endless unit.policy.maxDepth) := by
  induction links generalizing unit parent entry room with
  | nil => exact ⟨[], by simp, by simp [descend]⟩
  | cons link rest ih =>
    have hosted : ∀ id, some parent = some id → id < unit.table.size := by
      rintro _ ⟨⟩
      exact (List.getElem?_eq_some_iff.mp found).1
    have depth := depthBelow_some found
    cases room with
    | zero =>
      have deep : unit.policy.maxDepth < unit.table.depthBelow (some parent) := by omega
      exact ⟨[], by simp, by simp [descend_endless hosted novel deep]⟩
    | succ room =>
      have shallow : unit.table.depthBelow (some parent) ≤ unit.policy.maxDepth := by omega
      obtain ⟨id, next, child, there, childDepth, policy, novelRest, first⟩ :=
        descend_enters hosted novel shallow
      have remaining : child.depth + room = next.policy.maxDepth := by
        rw [policy]
        omega
      obtain ⟨ids, length, answers⟩ := ih there remaining novelRest
      refine ⟨id :: ids, ?_, ?_⟩
      · rw [List.length_cons, List.length_cons, length]
        omega
      · rw [first, answers, policy]
        rfl

theorem descend_root {nested : List Link} (novel : unit.Novel none (link :: nested)) :
    ∃ (first : Nat) (ids : List Nat), ids.length = min nested.length unit.policy.maxDepth ∧
      unit.descend none (link :: nested) = .ok first :: (ids.map .ok ++
        nested[unit.policy.maxDepth]?.toList.map fun link =>
          .error (link.endless unit.policy.maxDepth)) := by
  have unasked : ∀ id, none = some id → id < unit.table.size := nofun
  obtain ⟨first, next, entry, found, depth, policy, novelRest, start⟩ :=
    descend_enters unasked novel (Nat.zero_le _)
  have room : entry.depth + unit.policy.maxDepth = next.policy.maxDepth := by
    rw [depth, depthBelow_none, policy]
    omega
  obtain ⟨ids, length, answers⟩ := descend_below found room novelRest
  refine ⟨first, ids, length, ?_⟩
  rw [start, answers, policy]

end Chains

end Descents

/-- Take any unit that came about without a merge, by requests of instances that were there. From
each of its instances a single way leads back over ever earlier ones to an instance that nobody
asked for; its depth is the length of that way, and the limit bounds it. Of a chain of requests
that starts with a new root, each being without fault and for an instance that is not there yet,
as many succeed below the root as the limit says, and the next one is endless. -/
theorem depth_exact {traits : TraitAuthority} {policy : Policy} {changes : List Change}
    (alone : ∀ other, Change.merge other ∉ changes)
    (hosted : (empty traits policy).HostsAll changes) :
    let unit := (empty traits policy).afterAll changes
    (∀ id entry, unit.table.get? id = some entry →
      (∃ way, (∀ other, unit.table.Ancestry id other ↔ other = way) ∧
        (id :: way).Pairwise (· > ·) ∧ entry.depth = way.length) ∧
      entry.depth ≤ policy.maxDepth) ∧
    ∀ root nested, unit.Novel none (root :: nested) →
      ∃ (first : Nat) (ids : List Nat), ids.length = min nested.length policy.maxDepth ∧
        unit.descend none (root :: nested) = .ok first :: (ids.map .ok ++
          nested[policy.maxDepth]?.toList.map fun link =>
            .error (.endlessExpansion link.generic link.arguments policy.maxDepth
              (link.span.map Span.extent))) := by
  intro unit
  have start := Traced.empty traits policy
  have traced : unit.Traced policy.maxDepth := start.afterAll alone hosted
  have measured : ∀ entry ∈ unit.instances, unit.table.Measured entry :=
    measured_afterAll start alone hosted nofun
  have limit : unit.policy = policy := policy_of_steps (steps_afterAll _ changes)
  constructor
  · intro id entry found
    obtain ⟨way, ancestry, descending, length⟩ :=
      exists_ancestry traced.reachable.coherent traced.attributed measured found
    refine ⟨⟨way, ?_, descending, length⟩, traced.depth_le entry (List.mem_of_getElem? found)⟩
    intro other
    constructor
    · exact ancestry.unique
    · rintro rfl
      exact ancestry
  · intro root nested novel
    rw [← limit]
    exact descend_root novel

section Towers

/-- A type that grows with its height. -/
def tower : Nat → Ty
  | 0 => .prim .int
  | height + 1 => .named "List" [tower height]

def towerHistory : List Change :=
  [.register box, boxOf .char, .request ⟨"Box", [.prim .bool], none, some 0⟩, .sweep]

/-- A unit whose instances lie no deeper than two. -/
def towers : CompilationUnit :=
  (empty .lenient { Policy.standard with maxDepth := 2 }).afterAll towerHistory

/-- A chain of requests for ever larger types, one of them after a sweep. -/
def towerChain : List Link :=
  [⟨[], "Box", [tower 1], none⟩, ⟨[.sweep], "Box", [tower 2], none⟩, ⟨[], "Box", [tower 3], none⟩,
    ⟨[], "Box", [tower 4], none⟩]

theorem towers_measured :
    (∀ other, Change.merge other ∉ towerHistory) ∧
    (empty .lenient { Policy.standard with maxDepth := 2 }).HostsAll towerHistory ∧
    (∃ entry, towers.table.get? 1 = some entry ∧ entry.depth = 1 ∧
      ∃ way, (∀ other, towers.table.Ancestry 1 other ↔ other = way) ∧ way.length = 1) ∧
    towers.Novel none (⟨[], "Box", [tower 0], none⟩ :: towerChain) ∧
    ∃ (first : Nat) (ids : List Nat), ids.length = 2 ∧
      towers.descend none (⟨[], "Box", [tower 0], none⟩ :: towerChain) = .ok first ::
        (ids.map .ok ++ [.error (.endlessExpansion "Box" [tower 3] 2 none)]) := by
  have alone : ∀ other, Change.merge other ∉ towerHistory := by simp [towerHistory, boxOf]
  have hosted : (empty .lenient
      { Policy.standard with maxDepth := 2 }).HostsAll towerHistory := by
    refine ⟨trivial, hosts_of_root rfl, ?_, trivial, trivial⟩
    rintro parent ⟨⟩
    decide
  have novel : towers.Novel none (⟨[], "Box", [tower 0], none⟩ :: towerChain) :=
    ⟨rfl, rfl, rfl, rfl, rfl, rfl, rfl, rfl, trivial⟩
  obtain ⟨ways, chains⟩ := depth_exact alone hosted
  have nested : ∃ entry, towers.table.get? 1 = some entry ∧ entry.depth = 1 := ⟨_, rfl, rfl⟩
  obtain ⟨entry, found, depth⟩ := nested
  obtain ⟨⟨way, only, _, length⟩, _⟩ := ways 1 entry found
  exact ⟨alone, hosted, ⟨entry, found, depth, way, only, length.symm.trans depth⟩, novel,
    chains _ _ novel⟩

end Towers

end CompilationUnit

end Monomorph
