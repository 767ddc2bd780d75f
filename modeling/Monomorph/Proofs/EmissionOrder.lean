import Monomorph.Proofs.Components
import Monomorph.Proofs.Consistency

/-!
The order of emission. The instances are listed in groups, where a group holds the instances
that need each other and comes after the groups it needs. The names of the held artifacts are
listed in the same order. An instance without an artifact leaves no name there, but what is
needed by way of it still comes first.
-/

namespace Monomorph

section Groups

variable {α β : Type}

/-- The one item is in a group that comes before a group with the other. -/
def Ahead (groups : List (List α)) (first second : α) : Prop :=
  ∃ earlier later, [earlier, later].Sublist groups ∧ first ∈ earlier ∧ second ∈ later

theorem ahead_of_lt {groups : List (List α)} {i j : Nat} {earlier later : List α}
    (found : groups[i]? = some earlier) (found' : groups[j]? = some later) (less : i < j)
    {first second : α} (member : first ∈ earlier) (member' : second ∈ later) :
    Ahead groups first second := by
  have before : earlier ∈ groups.take j := by
    apply List.mem_of_getElem?
    rw [List.getElem?_take_of_lt less]
    exact found
  have behind : later ∈ groups.drop j := by
    apply List.mem_of_getElem? (i := 0)
    rw [List.getElem?_drop]
    exact found'
  refine ⟨earlier, later, ?_, member, member'⟩
  rw [← List.take_append_drop j groups]
  exact (List.singleton_sublist.mpr before).append (List.singleton_sublist.mpr behind)

/-- The order survives where items without an image are left out, and groups without items. -/
theorem Ahead.filterMap {groups : List (List α)} {first second : α}
    (ahead : Ahead groups first second) {image : α → Option β} {first' second' : β}
    (shown : image first = some first') (shown' : image second = some second') :
    Ahead ((groups.map (List.filterMap image)).filter fun group => !group.isEmpty)
      first' second' := by
  obtain ⟨earlier, later, listed, member, member'⟩ := ahead
  have there : first' ∈ earlier.filterMap image := List.mem_filterMap.mpr ⟨first, member, shown⟩
  have there' : second' ∈ later.filterMap image := List.mem_filterMap.mpr ⟨second, member', shown'⟩
  refine ⟨earlier.filterMap image, later.filterMap image, ?_, there, there'⟩
  have kept := (listed.map (List.filterMap image)).filter fun group => !group.isEmpty
  have nonempty : [earlier.filterMap image, later.filterMap image].filter
      (fun group => !group.isEmpty) = [earlier.filterMap image, later.filterMap image] := by
    simp [List.ne_nil_of_mem there, List.ne_nil_of_mem there']
  rw [← nonempty]
  exact kept

end Groups

theorem Graph.Settled.ahead {graph : Graph} {closed : List (List Nat)}
    (settled : graph.Settled closed) (distinct : closed.flatten.Nodup) {source target : Nat}
    (listed : source ∈ closed.flatten) (listed' : target ∈ closed.flatten)
    (reaches : graph.Reaches source target) (oneWay : ¬graph.Reaches target source) :
    Ahead closed target source := by
  obtain ⟨component, member, here⟩ := List.mem_flatten.mp listed
  obtain ⟨other, member', here'⟩ := List.mem_flatten.mp listed'
  obtain ⟨i, found⟩ := List.mem_iff_getElem?.mp member
  obtain ⟨j, found'⟩ := List.mem_iff_getElem?.mp member'
  have below := settled.place_le_of_reaches distinct found found' here here' reaches
  apply ahead_of_lt found' found _ here' here
  apply Nat.lt_of_le_of_ne below
  rintro rfl
  rw [found] at found'
  cases found'
  exact oneWay (settled.linked component member target here' source here)

namespace InstanceTable

variable {table : InstanceTable} {policy : Policy}

theorem settled_emissionOrder (reached : (empty policy).Steps table) :
    table.expansion.Settled table.emissionOrder ∧
      table.emissionOrder.flatten.Perm (table.instances.map Instance.id) := by
  have coherent := (Coherent.empty policy).of_steps reached
  have bounded : table.expansion.Bounded := bounded_of_steps (bounded_empty policy) reached
  rw [coherent.ids, ← coherent.nodes]
  exact Graph.components_settled bounded

/-- However a table came about, by requests with or without a parent, sweeps and merges, its
order of emission lists the number of every instance once. Two instances are in one group
exactly if edges lead from each of them to the other, and if an edge leads from one group to
another, the group it leads to comes first. No group is empty, and the numbers in a group
ascend. -/
theorem emission_order_components (reached : (empty policy).Steps table) :
    table.emissionOrder.flatten.Perm (table.instances.map Instance.id) ∧
    (∀ group ∈ table.emissionOrder, group ≠ [] ∧ group.Pairwise (· < ·)) ∧
    (∀ first second, first < table.size → second < table.size →
      ((∃ group ∈ table.emissionOrder, first ∈ group ∧ second ∈ group) ↔
        table.expansion.Reaches first second ∧ table.expansion.Reaches second first)) ∧
    ∀ parent child, (parent, child) ∈ table.expansion.edges →
      (¬∃ group ∈ table.emissionOrder, parent ∈ group ∧ child ∈ group) →
      Ahead table.emissionOrder child parent := by
  have coherent := (Coherent.empty policy).of_steps reached
  have bounded : table.expansion.Bounded := bounded_of_steps (bounded_empty policy) reached
  obtain ⟨settled, all⟩ := settled_emissionOrder reached
  rw [coherent.ids] at all ⊢
  have distinct : table.emissionOrder.flatten.Nodup := all.nodup_iff.mpr List.nodup_range
  have listed (id : Nat) (below : id < table.size) : id ∈ table.emissionOrder.flatten :=
    all.mem_iff.mpr (List.mem_range.mpr below)
  refine ⟨all, ?_, ?_, ?_⟩
  · intro group member
    exact ⟨fun none => settled.nonempty (none ▸ member), settled.sorted group member⟩
  · intro first second below below'
    exact settled.share_iff distinct (listed first below) (listed second below')
  · intro parent child edge apart
    obtain ⟨below, below'⟩ := bounded (parent, child) edge
    rw [coherent.nodes] at below below'
    have there : table.expansion.Reaches parent child := .single edge
    apply settled.ahead distinct (listed parent below) (listed child below') there
    intro back
    apply apart
    exact (settled.share_iff distinct (listed parent below) (listed child below')).mpr
      ⟨there, back⟩

end InstanceTable

namespace CompilationUnit

variable {unit : CompilationUnit}

theorem artifactName?_eq_some_iff (consistent : Consistent unit.catalog unit.table unit.store)
    (id : Nat) (name : String) :
    unit.artifactName? id = some name ↔
      ∃ artifact ∈ unit.artifacts, artifact.instanceId = id ∧ artifact.name = name := by
  rw [artifactName?, Option.map_eq_some_iff]
  constructor
  · rintro ⟨artifact, found, named⟩
    have there := List.find?_some found
    exact ⟨artifact, List.mem_of_find?_eq_some found, beq_iff_eq.mp there, named⟩
  · rintro ⟨artifact, member, there, named⟩
    refine ⟨artifact, ?_, named⟩
    cases search : unit.artifacts.find? fun artifact => artifact.instanceId == id with
    | none => exact absurd (beq_iff_eq.mpr there) (List.find?_eq_none.mp search artifact member)
    | some first =>
      have here : first.instanceId = id := by
        have found := List.find?_some search
        exact beq_iff_eq.mp found
      rw [List.inj_on_of_nodup_map consistent.nodup_instanceIds
        (List.mem_of_find?_eq_some search) member (here.trans there.symm)]

/-- The instances with a held artifact are named by it, each artifact by one of them. -/
theorem filterMap_artifactName? (consistent : Consistent unit.catalog unit.table unit.store) :
    ((unit.instances.map Instance.id).filterMap unit.artifactName?).Perm
      (unit.artifacts.map Artifact.name) := by
  have names : (unit.artifacts.map Artifact.name).Nodup := consistent.kept.nodup_names
  have ids : (unit.instances.map Instance.id).Nodup := by
    rw [instances, consistent.coherent.ids]
    exact List.nodup_range
  rw [List.perm_ext_iff_of_nodup _ names]
  · intro name
    rw [List.mem_filterMap, List.mem_map]
    constructor
    · rintro ⟨id, _, named⟩
      obtain ⟨artifact, member, _, same⟩ := (artifactName?_eq_some_iff consistent id name).mp named
      exact ⟨artifact, member, same⟩
    · rintro ⟨artifact, member, same⟩
      obtain ⟨entry, found, _⟩ := (consistent.fits artifact member).marked
      have id := consistent.coherent.id_eq found
      refine ⟨artifact.instanceId, ?_, ?_⟩
      · exact List.mem_map.mpr ⟨entry, List.mem_of_getElem? found, id⟩
      · exact (artifactName?_eq_some_iff consistent _ name).mpr ⟨artifact, member, rfl, same⟩
  · apply List.Nodup.filterMap _ ids
    intro first second name named named'
    obtain ⟨artifact, member, here, same⟩ :=
      (artifactName?_eq_some_iff consistent first name).mp named
    obtain ⟨other, member', here', same'⟩ :=
      (artifactName?_eq_some_iff consistent second name).mp named'
    rw [← here, ← here', List.inj_on_of_nodup_map names member member' (same.trans same'.symm)]

/-- Code generation sees every held artifact once, in groups none of which is empty. If the
instance of one artifact needs that of another, be it by way of instances without an artifact,
and is not needed by it in turn, then the other one's name is in an earlier group. -/
theorem emission_order_artifacts (reached : unit.Reachable) :
    unit.emissionOrder.flatten.Perm (unit.artifacts.map Artifact.name) ∧
    [] ∉ unit.emissionOrder ∧
    ∀ caller ∈ unit.artifacts, ∀ callee ∈ unit.artifacts,
      unit.table.expansion.Reaches caller.instanceId callee.instanceId →
      ¬unit.table.expansion.Reaches callee.instanceId caller.instanceId →
      Ahead unit.emissionOrder callee.name caller.name := by
  have consistent := reached.consistent
  obtain ⟨policy, steps⟩ := reached.steps
  obtain ⟨settled, all⟩ := InstanceTable.settled_emissionOrder steps
  have distinct : unit.table.emissionOrder.flatten.Nodup := by
    rw [consistent.coherent.ids] at all
    exact all.nodup_iff.mpr List.nodup_range
  have listed (artifact : Artifact) (member : artifact ∈ unit.artifacts) :
      artifact.instanceId ∈ unit.table.emissionOrder.flatten := by
    obtain ⟨entry, found, _⟩ := (consistent.fits artifact member).marked
    have id := consistent.coherent.id_eq found
    exact all.mem_iff.mpr (List.mem_map.mpr ⟨entry, List.mem_of_getElem? found, id⟩)
  have named (artifact : Artifact) (member : artifact ∈ unit.artifacts) :
      unit.artifactName? artifact.instanceId = some artifact.name :=
    (artifactName?_eq_some_iff consistent _ _).mpr ⟨artifact, member, rfl, rfl⟩
  refine ⟨?_, ?_, ?_⟩
  · rw [emissionOrder, List.flatten_filter_not_isEmpty, ← List.filterMap_flatten]
    exact (all.filterMap unit.artifactName?).trans (filterMap_artifactName? consistent)
  · intro empty
    have nonempty := (List.mem_filter.mp empty).2
    cases nonempty
  · intro caller member callee member' needs oneWay
    have ahead := settled.ahead distinct (listed caller member) (listed callee member') needs oneWay
    exact ahead.filterMap (named callee member') (named caller member)

section Chains

def chainHistory : List Change :=
  [.register box, boxOf .int, .sweep, .takeArtifacts, boxOf .bool, nestedBox 1 .int,
    nestedBox 0 .char, nestedBox 1 .float, nestedBox 3 .bool, .sweep]

/-- A unit in which two instances need each other and, by way of one whose artifact was handed
off, a third. -/
def chains : CompilationUnit := (empty .lenient .standard).afterAll chainHistory

theorem reachable_chains : chains.Reachable := by
  apply (Reachable.empty _ _).afterAll
  simp [chainHistory, boxOf, nestedBox]

theorem chains_ordered :
    (∃ policy, (InstanceTable.empty policy).Steps chains.table) ∧
    chains.table.emissionOrder = [[2], [0], [1, 3]] ∧
    (chains.table.expansion.Reaches 1 3 ∧ chains.table.expansion.Reaches 3 1) ∧
    Ahead chains.table.emissionOrder 0 1 := by
  obtain ⟨policy, steps⟩ := reachable_chains.steps
  have order : chains.table.emissionOrder = [[2], [0], [1, 3]] := by decide
  obtain ⟨_, _, shared, ahead⟩ := InstanceTable.emission_order_components steps
  refine ⟨⟨policy, steps⟩, order, ?_, ?_⟩
  · apply (shared 1 3 (by decide) (by decide)).mp
    rw [order]
    decide
  · apply ahead 1 0 (by decide)
    rw [order]
    decide

theorem chains_emitted :
    chains.Reachable ∧
    chains.emissionOrder = [["Box:char"], ["Box:bool", "Box:float"]] ∧
    ∃ caller ∈ chains.artifacts, ∃ callee ∈ chains.artifacts,
      (∀ artifact ∈ chains.artifacts, artifact.instanceId ≠ 0) ∧
      (caller.instanceId, 0) ∈ chains.table.expansion.edges ∧
      (0, callee.instanceId) ∈ chains.table.expansion.edges ∧
      Ahead chains.emissionOrder callee.name caller.name := by
  have held : ∃ caller ∈ chains.artifacts, ∃ callee ∈ chains.artifacts,
      caller.instanceId = 1 ∧ callee.instanceId = 2 := by decide
  have gone : ∀ artifact ∈ chains.artifacts, artifact.instanceId ≠ 0 := by decide
  obtain ⟨caller, member, callee, member', first, second⟩ := held
  have edge : (caller.instanceId, 0) ∈ chains.table.expansion.edges := by
    rw [first]
    decide
  have edge' : (0, callee.instanceId) ∈ chains.table.expansion.edges := by
    rw [second]
    decide
  have oneWay : ¬chains.table.expansion.Reaches callee.instanceId caller.instanceId := by
    rw [first, second]
    intro back
    rcases back.cases_head with same | ⟨next, out, _⟩
    · cases same
    · have none : ∀ edge ∈ chains.table.expansion.edges, edge.1 ≠ 2 := by decide
      exact none (2, next) out rfl
  refine ⟨reachable_chains, by decide, caller, member, callee, member', gone, edge, edge', ?_⟩
  exact (emission_order_artifacts reachable_chains).2.2 caller member callee member'
    ((Relation.ReflTransGen.single edge).tail edge') oneWay

end Chains

end CompilationUnit

end Monomorph
