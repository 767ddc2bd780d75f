import Mathlib.Data.List.Perm.Basic
import Monomorph.Proofs.HandOff
import Monomorph.Proofs.MergeUnion

/-!
The order in which units are merged. Units are compatible if no name stands for different
declarations in them. A merge of compatible units refuses nothing, so it is the union of what
they say: the declarations, the instances with their marks, who needs whom, the artifacts apart
from those whose names are reserved here, and the faults. In which order units are merged then
shows in the numbers of the instances and in nothing that is said without them.
-/

namespace Monomorph

/-- What an instance says apart from its number, the numbers it refers to and its place. -/
def Instance.outline (entry : Instance) : (String × List Ty) × Bool := (entry.key, entry.emitted)

/-- What an artifact says apart from the number of its instance and its place. -/
def Artifact.outline (artifact : Artifact) : String × String × List Ty × Option Ty :=
  (artifact.name, artifact.generic, artifact.arguments, artifact.signature)

namespace CompilationUnit

/-- A name that both units have registered stands for the same declaration in them. -/
def Compatible (unit other : CompilationUnit) : Prop :=
  ∀ mine ∈ unit.catalog.registered, ∀ theirs ∈ other.catalog.registered,
    mine.name = theirs.name → mine = theirs

instance (unit other : CompilationUnit) : Decidable (Compatible unit other) :=
  inferInstanceAs (Decidable (∀ mine ∈ _, ∀ theirs ∈ _, _))

/-- An instance with this key is marked. -/
def Marks (unit : CompilationUnit) (key : String × List Ty) : Prop :=
  ∃ entry ∈ unit.instances, entry.key = key ∧ entry.emitted = true

/-- The edges, between the keys of the instances. -/
def expansionKeys (unit : CompilationUnit) : List ((String × List Ty) × (String × List Ty)) :=
  unit.table.expansion.edges.filterMap fun edge =>
    (unit.table.get? edge.1).bind fun parent =>
      (unit.table.get? edge.2).map fun child => (parent.key, child.key)

theorem mem_expansionKeys (unit : CompilationUnit) (parent child : String × List Ty) :
    (parent, child) ∈ unit.expansionKeys ↔
      ∃ edge ∈ unit.table.expansion.edges, ∃ source target,
        unit.table.get? edge.1 = some source ∧ unit.table.get? edge.2 = some target ∧
          source.key = parent ∧ target.key = child := by
  simp only [expansionKeys, List.mem_filterMap, Option.bind_eq_some_iff, Option.map_eq_some_iff,
    Prod.mk.injEq]
  apply exists_congr
  intro edge
  apply and_congr_right
  intro _
  constructor
  · rintro ⟨source, here, target, there, keys⟩
    exact ⟨source, target, here, there, keys⟩
  · rintro ⟨source, target, here, there, keys⟩
    exact ⟨source, here, target, there, keys⟩

section Outlines

variable {unit : CompilationUnit}

theorem emitted_iff_marks (coherent : unit.table.Coherent) {entry : Instance}
    (member : entry ∈ unit.instances) : entry.emitted = true ↔ unit.Marks entry.key := by
  constructor
  · exact fun emitted => ⟨entry, member, rfl, emitted⟩
  · rintro ⟨other, listed, same, emitted⟩
    rw [← List.inj_on_of_nodup_map coherent.distinct listed member same]
    exact emitted

/-- The outlines of the instances are their keys, each with its mark. -/
theorem mem_outlines (coherent : unit.table.Coherent) (key : String × List Ty) (mark : Bool) :
    (key, mark) ∈ unit.instances.map Instance.outline ↔
      key ∈ unit.instances.map Instance.key ∧ (mark = true ↔ unit.Marks key) := by
  rw [List.mem_map, List.mem_map]
  constructor
  · rintro ⟨entry, member, outline⟩
    obtain ⟨rfl, rfl⟩ := Prod.mk.inj outline
    exact ⟨⟨entry, member, rfl⟩, emitted_iff_marks coherent member⟩
  · rintro ⟨⟨entry, member, rfl⟩, marked⟩
    refine ⟨entry, member, Prod.ext rfl ?_⟩
    rw [Bool.eq_iff_iff, marked]
    exact emitted_iff_marks coherent member

theorem nodup_outlines (coherent : unit.table.Coherent) :
    (unit.instances.map Instance.outline).Nodup := by
  apply List.Nodup.of_map Prod.fst
  rw [List.map_map]
  exact coherent.distinct

theorem nodup_expansionKeys (coherent : unit.table.Coherent)
    (distinct : unit.table.expansion.edges.Nodup) : unit.expansionKeys.Nodup := by
  apply List.Nodup.filterMap _ distinct
  intro first second keys shown shown'
  simp only [Option.mem_def, Option.bind_eq_some_iff, Option.map_eq_some_iff] at shown shown'
  obtain ⟨source, here, target, there, rfl⟩ := shown
  obtain ⟨source', here', target', there', same⟩ := shown'
  obtain ⟨sources, targets⟩ := Prod.mk.inj same
  exact Prod.ext (coherent.place_unique here here' sources.symm)
    (coherent.place_unique there there' targets.symm)

theorem nodup_artifacts (consistent : Consistent unit.catalog unit.table unit.store) :
    (unit.artifacts.map Artifact.outline).Nodup := by
  apply List.Nodup.of_map Prod.fst
  rw [List.map_map]
  exact consistent.kept.nodup_names

end Outlines

section Compatibility

variable {unit other third : CompilationUnit}

theorem Compatible.symm (compatible : Compatible unit other) : Compatible other unit :=
  fun theirs listed mine member same => (compatible mine member theirs listed same.symm).symm

theorem mem_registered_iff (distinct : unit.catalog.names.Nodup) (shared : SharedGeneric) :
    shared ∈ unit.catalog.registered ↔ unit.catalog.find? shared.name = some shared :=
  ⟨Catalog.find?_of_mem distinct, List.mem_of_find?_eq_some⟩

theorem Compatible.accepts (compatible : Compatible unit other) {shared : SharedGeneric}
    (listed : shared ∈ other.catalog.registered) : unit.catalog.accepts shared = true := by
  unfold Catalog.accepts
  cases known : unit.catalog.find? shared.name with
  | none => rfl
  | some existing =>
    have same := compatible existing (List.mem_of_find?_eq_some known) shared listed
      (Catalog.name_of_find? known)
    rw [Option.all_some, decide_eq_true_eq]
    exact same

theorem Compatible.refuses_none (compatible : Compatible unit other) :
    other.catalog.registered.filter (fun shared => !unit.catalog.accepts shared) = [] := by
  rw [List.filter_eq_nil_iff]
  intro shared listed
  simp [compatible.accepts listed]

variable (own : Consistent unit.catalog unit.table unit.store)
  (incoming : Consistent other.catalog other.table other.store)
  (compatible : Compatible unit other)

include incoming compatible

theorem accepted_instance {entry : Instance} (member : entry ∈ other.instances) :
    entry.generic ∈ unit.acceptedNames other := by
  obtain ⟨shared, declared⟩ := incoming.declared entry member
  have listed := List.mem_of_find?_eq_some declared
  apply List.mem_map.mpr
  exact ⟨shared, List.mem_filter.mpr ⟨listed, compatible.accepts listed⟩,
    Catalog.name_of_find? declared⟩

theorem faults_merge_compatible : (unit.merge other).faults = unit.faults ++ other.faults := by
  rw [faults_merge incoming, compatible.refuses_none, List.map_nil, List.append_nil]

include own

theorem mem_registered_merge (shared : SharedGeneric) :
    shared ∈ (unit.merge other).catalog.registered ↔
      shared ∈ unit.catalog.registered ∨ shared ∈ other.catalog.registered := by
  rw [mem_registered_iff (nodup_names_merge incoming.distinct own.distinct),
    mem_registered_iff own.distinct, find?_merge incoming.distinct]
  constructor
  · intro found
    cases known : unit.catalog.find? shared.name with
    | some existing =>
      rw [known] at found
      exact Or.inl found
    | none =>
      rw [known] at found
      exact Or.inr (List.mem_of_find?_eq_some found)
  · rintro (mine | theirs)
    · rw [mine, Option.some_or]
    · cases known : unit.catalog.find? shared.name with
      | some existing =>
        rw [Option.some_or, compatible existing (List.mem_of_find?_eq_some known) shared theirs
          (Catalog.name_of_find? known)]
      | none => exact Catalog.find?_of_mem incoming.distinct theirs

theorem compatible_merge (first : Compatible unit third) (second : Compatible other third) :
    Compatible (unit.merge other) third := by
  intro mine member
  rcases (mem_registered_merge own incoming compatible mine).mp member with old | new
  · exact first mine old
  · exact second mine new

/-- Every instance of the other unit has a place in the merged one. -/
theorem newPlace_isSome {id : Nat} {theirs : Instance}
    (there : other.table.get? id = some theirs) :
    ∃ place later, unit.newPlace other id = some place ∧
      (unit.merge other).table.get? place = some later ∧ later.key = theirs.key := by
  have member : theirs ∈ other.instances := List.mem_of_getElem? there
  have accepted := accepted_instance incoming compatible member
  have merged : (unit.merge other).table.Coherent := own.coherent.of_steps (unit.steps_merge other)
  obtain ⟨place, interned⟩ := Option.isSome_iff_exists.mp
    ((absorbing_renumbering incoming.distinct own.coherent).2 theirs member accepted)
  obtain ⟨later, found, key⟩ := (merged.interned?_eq_some_iff _ _ _).mp interned
  exact ⟨place, later, (newPlace_eq_some_iff own.coherent).mpr
    ⟨theirs, later, there, accepted, found, key⟩, found, key⟩

theorem mem_keys_merge (key : String × List Ty) :
    key ∈ (unit.merge other).instances.map Instance.key ↔
      key ∈ unit.instances.map Instance.key ∨ key ∈ other.instances.map Instance.key := by
  simp only [List.mem_map]
  constructor
  · rintro ⟨found, member, rfl⟩
    rcases mem_instances_merge incoming.distinct member with
      ⟨mine, listed, same⟩ | ⟨theirs, listed, _, same⟩
    · exact Or.inl ⟨mine, listed, same.symm⟩
    · exact Or.inr ⟨theirs, listed, same.symm⟩
  · rintro (⟨mine, listed, rfl⟩ | ⟨theirs, listed, rfl⟩)
    · obtain ⟨later, found, becomes⟩ := InstanceTable.grows_of_steps (unit.steps_merge other)
        mine.id mine (own.coherent.get?_id listed)
      exact ⟨later, List.mem_of_getElem? found, becomes.key⟩
    · obtain ⟨_, later, _, found, same⟩ :=
        newPlace_isSome own incoming compatible (incoming.coherent.get?_id listed)
      exact ⟨later, List.mem_of_getElem? found, same⟩

theorem marks_merge (key : String × List Ty) :
    (unit.merge other).Marks key ↔ unit.Marks key ∨ other.Marks key := by
  constructor
  · rintro ⟨later, member, rfl, emitted⟩
    rcases (emitted_merge_iff own incoming member).mp emitted with
      ⟨mine, listed, same, marked⟩ | ⟨theirs, listed, ⟨_, same⟩, marked⟩
    · exact Or.inl ⟨mine, listed, same, marked⟩
    · exact Or.inr ⟨theirs, listed, same, marked⟩
  · intro either
    have known : key ∈ (unit.merge other).instances.map Instance.key := by
      rw [mem_keys_merge own incoming compatible, List.mem_map, List.mem_map]
      rcases either with ⟨mine, listed, same, _⟩ | ⟨theirs, listed, same, _⟩
      · exact Or.inl ⟨mine, listed, same⟩
      · exact Or.inr ⟨theirs, listed, same⟩
    obtain ⟨later, member, rfl⟩ := List.mem_map.mp known
    refine ⟨later, member, rfl, (emitted_merge_iff own incoming member).mpr ?_⟩
    rcases either with mine | ⟨theirs, listed, same, marked⟩
    · exact Or.inl mine
    · exact Or.inr
        ⟨theirs, listed, ⟨accepted_instance incoming compatible listed, same⟩, marked⟩

theorem mem_expansionKeys_merge (bounded : unit.table.expansion.Bounded)
    (pair : (String × List Ty) × (String × List Ty)) :
    pair ∈ (unit.merge other).expansionKeys ↔
      pair ∈ unit.expansionKeys ∨ pair ∈ other.expansionKeys := by
  obtain ⟨parent, child⟩ := pair
  have grows := InstanceTable.grows_of_steps (unit.steps_merge other)
  simp only [mem_expansionKeys]
  constructor
  · rintro ⟨edge, member, source, target, here, there, rfl, rfl⟩
    rcases (mem_edges_merge own incoming edge).mp member with old | ⟨old, listed, moved, moved'⟩
    · -- The edge is between instances that the unit had before.
      obtain ⟨below, below'⟩ := bounded edge old
      rw [own.coherent.nodes] at below below'
      obtain ⟨laterSource, foundSource, becomes⟩ :=
        grows edge.1 _ (List.getElem?_eq_getElem below)
      obtain ⟨laterTarget, foundTarget, becomes'⟩ :=
        grows edge.2 _ (List.getElem?_eq_getElem below')
      rw [here] at foundSource
      rw [there] at foundTarget
      cases foundSource
      cases foundTarget
      exact Or.inl ⟨edge, old, _, _, List.getElem?_eq_getElem below,
        List.getElem?_eq_getElem below', becomes.key.symm, becomes'.key.symm⟩
    · obtain ⟨theirs, later, found, _, foundLater, key⟩ :=
        (newPlace_eq_some_iff own.coherent).mp moved
      obtain ⟨theirs', later', found', _, foundLater', key'⟩ :=
        (newPlace_eq_some_iff own.coherent).mp moved'
      rw [here] at foundLater
      rw [there] at foundLater'
      cases foundLater
      cases foundLater'
      exact Or.inr ⟨old, listed, theirs, theirs', found, found', key.symm, key'.symm⟩
  · rintro (⟨edge, member, source, target, here, there, rfl, rfl⟩ |
      ⟨edge, member, source, target, here, there, rfl, rfl⟩)
    · obtain ⟨laterSource, foundSource, becomes⟩ := grows edge.1 source here
      obtain ⟨laterTarget, foundTarget, becomes'⟩ := grows edge.2 target there
      exact ⟨edge, (mem_edges_merge own incoming edge).mpr (Or.inl member), laterSource,
        laterTarget, foundSource, foundTarget, becomes.key, becomes'.key⟩
    · obtain ⟨place, later, moved, found, key⟩ :=
        newPlace_isSome own incoming compatible here
      obtain ⟨place', later', moved', found', key'⟩ :=
        newPlace_isSome own incoming compatible there
      refine ⟨(place, place'), ?_, later, later', found, found', key, key'⟩
      exact (mem_edges_merge own incoming _).mpr (Or.inr ⟨edge, member, moved, moved'⟩)

theorem carried_artifact {artifact : Artifact} (member : artifact ∈ other.artifacts) :
    ∃ id, (unit.absorbing other).2.apply artifact.instanceId = some id := by
  obtain ⟨theirs, there, _⟩ := (incoming.fits artifact member).marked
  obtain ⟨place, _, moved, _⟩ := newPlace_isSome own incoming compatible there
  exact ⟨place, (apply_absorbing incoming.distinct own.coherent _).trans moved⟩

theorem mem_artifacts_merge_compatible (outline : String × String × List Ty × Option Ty) :
    outline ∈ (unit.merge other).artifacts.map Artifact.outline ↔
      outline ∈ unit.artifacts.map Artifact.outline ∨
        outline ∈ other.artifacts.map Artifact.outline ∧ outline.1 ∉ unit.store.reserved := by
  simp only [List.mem_map]
  constructor
  · rintro ⟨found, member, rfl⟩
    rcases (mem_artifacts_merge incoming found).mp member with
      old | ⟨theirs, listed, free, id, _, rfl⟩
    · exact Or.inl ⟨found, old, rfl⟩
    · exact Or.inr ⟨⟨theirs, listed, rfl⟩, free⟩
  · rintro (⟨mine, member, rfl⟩ | ⟨⟨theirs, listed, rfl⟩, free⟩)
    · exact ⟨mine, (mem_artifacts_merge incoming mine).mpr (Or.inl member), rfl⟩
    · obtain ⟨id, carried⟩ := carried_artifact own incoming compatible listed
      refine ⟨{ theirs with instanceId := id }, ?_, rfl⟩
      exact (mem_artifacts_merge incoming _).mpr
        (Or.inr ⟨theirs, listed, free, id, carried, rfl⟩)

theorem mem_reserved_merge (name : String) :
    name ∈ (unit.merge other).store.reserved ↔
      name ∈ unit.store.reserved ∨ name ∈ other.artifacts.map Artifact.name := by
  obtain ⟨added, held, reserved⟩ := unit.extends_merge other
  constructor
  · intro member
    rw [reserved, List.mem_append] at member
    rcases member with old | new
    · exact Or.inl old
    · obtain ⟨artifact, listed, rfl⟩ := List.mem_map.mp new
      have now : artifact ∈ (unit.merge other).artifacts := by
        rw [artifacts, held]
        exact List.mem_append_right _ listed
      rcases (mem_artifacts_merge incoming artifact).mp now with
        mine | ⟨theirs, there, _, id, _, rfl⟩
      · exact Or.inl (own.kept.name_reserved mine)
      · exact Or.inr (List.mem_map.mpr ⟨theirs, there, rfl⟩)
  · rintro (mine | theirs)
    · rw [reserved]
      exact List.mem_append_left _ mine
    · by_cases old : name ∈ unit.store.reserved
      · rw [reserved]
        exact List.mem_append_left _ old
      · obtain ⟨artifact, listed, rfl⟩ := List.mem_map.mp theirs
        obtain ⟨id, carried⟩ := carried_artifact own incoming compatible listed
        have now : { artifact with instanceId := id } ∈ (unit.merge other).artifacts :=
          (mem_artifacts_merge incoming _).mpr
            (Or.inr ⟨artifact, listed, old, id, carried, rfl⟩)
        have taken := (consistent_merge own incoming).kept.name_reserved now
        exact taken

omit own in
/-- Artifacts of compatible units that have one name say the same. -/
theorem outline_eq_of_name (own : Consistent unit.catalog unit.table unit.store)
    {mine theirs : Artifact} (member : mine ∈ unit.artifacts) (listed : theirs ∈ other.artifacts)
    (same : mine.name = theirs.name) : mine.outline = theirs.outline := by
  have fits := own.fits mine member
  have fits' := incoming.fits theirs listed
  obtain ⟨generic, arguments⟩ := Symbol.name_inj (fits.named.symm.trans (same.trans fits'.named))
  obtain ⟨shared, known, signature⟩ := fits.signed
  obtain ⟨shared', known', signature'⟩ := fits'.signed
  have declaration : shared = shared' :=
    compatible shared (List.mem_of_find?_eq_some known) shared' (List.mem_of_find?_eq_some known')
      ((Catalog.name_of_find? known).trans (generic.trans (Catalog.name_of_find? known').symm))
  rw [Artifact.outline, Artifact.outline, same, generic, arguments,
    Generic.signs_iff.mp signature, Generic.signs_iff.mp signature', declaration, arguments]

end Compatibility

section Twice

variable {main a b : CompilationUnit} (own : Consistent main.catalog main.table main.store)
  (left : Consistent a.catalog a.table a.store) (right : Consistent b.catalog b.table b.store)
  (first : Compatible main a) (second : Compatible main b) (between : Compatible a b)

include own left right first second between

theorem mem_registered_merge_merge (shared : SharedGeneric) :
    shared ∈ ((main.merge a).merge b).catalog.registered ↔
      shared ∈ main.catalog.registered ∨
        shared ∈ a.catalog.registered ∨ shared ∈ b.catalog.registered := by
  rw [mem_registered_merge (consistent_merge own left) right
      (compatible_merge own left first second between),
    mem_registered_merge own left first, or_assoc]

theorem mem_outlines_merge_merge (key : String × List Ty) (mark : Bool) :
    (key, mark) ∈ ((main.merge a).merge b).instances.map Instance.outline ↔
      (key ∈ main.instances.map Instance.key ∨
        key ∈ a.instances.map Instance.key ∨ key ∈ b.instances.map Instance.key) ∧
      (mark = true ↔ main.Marks key ∨ a.Marks key ∨ b.Marks key) := by
  have merged := consistent_merge own left
  have compatible := compatible_merge own left first second between
  rw [mem_outlines (consistent_merge merged right).coherent,
    mem_keys_merge merged right compatible, mem_keys_merge own left first,
    marks_merge merged right compatible, marks_merge own left first, or_assoc, or_assoc]

theorem mem_expansionKeys_merge_merge (bounded : main.table.expansion.Bounded)
    (pair : (String × List Ty) × (String × List Ty)) :
    pair ∈ ((main.merge a).merge b).expansionKeys ↔
      pair ∈ main.expansionKeys ∨ pair ∈ a.expansionKeys ∨ pair ∈ b.expansionKeys := by
  have still := InstanceTable.bounded_of_steps bounded (main.steps_merge a)
  rw [mem_expansionKeys_merge (consistent_merge own left) right
      (compatible_merge own left first second between) still,
    mem_expansionKeys_merge own left first bounded, or_assoc]

/-- After two merges the artifacts of both units are there, apart from reserved names. -/
theorem mem_artifacts_merge_merge (outline : String × String × List Ty × Option Ty) :
    outline ∈ ((main.merge a).merge b).artifacts.map Artifact.outline ↔
      outline ∈ main.artifacts.map Artifact.outline ∨
        (outline ∈ a.artifacts.map Artifact.outline ∨ outline ∈ b.artifacts.map Artifact.outline) ∧
          outline.1 ∉ main.store.reserved := by
  have merged := consistent_merge own left
  have compatible := compatible_merge own left first second between
  rw [mem_artifacts_merge_compatible merged right compatible,
    mem_artifacts_merge_compatible own left first, mem_reserved_merge own left first, not_or]
  constructor
  · rintro ((mine | ⟨inA, free⟩) | ⟨inB, free, _⟩)
    · exact Or.inl mine
    · exact Or.inr ⟨Or.inl inA, free⟩
    · exact Or.inr ⟨Or.inr inB, free⟩
  · rintro (mine | ⟨inA | inB, free⟩)
    · exact Or.inl (Or.inl mine)
    · exact Or.inl (Or.inr ⟨inA, free⟩)
    · by_cases named : outline.1 ∈ a.artifacts.map Artifact.name
      · -- The first unit has an artifact of this name, and it says the same.
        obtain ⟨artifact, member, same⟩ := List.mem_map.mp named
        obtain ⟨theirs, listed, rfl⟩ := List.mem_map.mp inB
        have equal := outline_eq_of_name right between left member listed same
        exact Or.inl (Or.inr ⟨List.mem_map.mpr ⟨artifact, member, equal⟩, free⟩)
      · exact Or.inr ⟨inB, free, named⟩

end Twice

/-- Merging compatible units in either order gives the same declarations, the same instances
with the same marks, the same edges between them, the same artifacts and the same faults, apart
from the order of each list and the numbers of the instances. -/
theorem merge_order_irrelevant {main a b : CompilationUnit} (reached : main.Reachable)
    (reachedA : a.Reachable) (reachedB : b.Reachable) (first : Compatible main a)
    (second : Compatible main b) (between : Compatible a b) :
    ((main.merge a).merge b).catalog.registered.Perm
      ((main.merge b).merge a).catalog.registered ∧
    (((main.merge a).merge b).instances.map Instance.outline).Perm
      (((main.merge b).merge a).instances.map Instance.outline) ∧
    ((main.merge a).merge b).expansionKeys.Perm ((main.merge b).merge a).expansionKeys ∧
    (((main.merge a).merge b).artifacts.map Artifact.outline).Perm
      (((main.merge b).merge a).artifacts.map Artifact.outline) ∧
    ((main.merge a).merge b).faults.Perm ((main.merge b).merge a).faults := by
  have own := reached.consistent
  have left := reachedA.consistent
  have right := reachedB.consistent
  have thenB := compatible_merge own left first second between
  have thenA := compatible_merge own right second first between.symm
  have ab := consistent_merge (consistent_merge own left) right
  have ba := consistent_merge (consistent_merge own right) left
  obtain ⟨policy, steps⟩ := reached.steps
  have bounded := InstanceTable.bounded_of_steps (InstanceTable.bounded_empty policy) steps
  have simple {u v : CompilationUnit} : ((main.merge u).merge v).table.expansion.edges.Nodup :=
    InstanceTable.nodup_edges_of_steps List.nodup_nil
      ((steps.trans (main.steps_merge u)).trans ((main.merge u).steps_merge v))
  refine ⟨?_, ?_, ?_, ?_, ?_⟩
  · rw [List.perm_ext_iff_of_nodup (.of_map _ ab.distinct) (.of_map _ ba.distinct)]
    intro shared
    rw [mem_registered_merge_merge own left right first second between,
      mem_registered_merge_merge own right left second first between.symm]
    exact or_congr_right or_comm
  · rw [List.perm_ext_iff_of_nodup (nodup_outlines ab.coherent) (nodup_outlines ba.coherent)]
    rintro ⟨key, mark⟩
    rw [mem_outlines_merge_merge own left right first second between,
      mem_outlines_merge_merge own right left second first between.symm]
    exact and_congr (or_congr_right or_comm) (iff_congr Iff.rfl (or_congr_right or_comm))
  · rw [List.perm_ext_iff_of_nodup (nodup_expansionKeys ab.coherent simple)
      (nodup_expansionKeys ba.coherent simple)]
    intro pair
    rw [mem_expansionKeys_merge_merge own left right first second between bounded,
      mem_expansionKeys_merge_merge own right left second first between.symm bounded]
    exact or_congr_right or_comm
  · rw [List.perm_ext_iff_of_nodup (nodup_artifacts ab) (nodup_artifacts ba)]
    intro outline
    rw [mem_artifacts_merge_merge own left right first second between,
      mem_artifacts_merge_merge own right left second first between.symm]
    exact or_congr_right (and_congr_left' or_comm)
  · rw [faults_merge_compatible right thenB, faults_merge_compatible left first,
      faults_merge_compatible left thenA, faults_merge_compatible right second,
      List.append_assoc, List.append_assoc]
    exact List.perm_append_comm.append_left main.faults

section Shelves

def shelfHistory : List Change :=
  [.register crate, .register box, .request ⟨"Crate", [.prim .int], none, none⟩,
    .request ⟨"Box", [.prim .float], none, some 0⟩, .request ⟨"Tray", [], none, none⟩, .sweep]

/-- A unit with a declaration of its own, a fault, and a box needed by a crate. -/
def shelf : CompilationUnit := (empty .lenient .standard).afterAll shelfHistory

def rackHistory : List Change :=
  [.register box, boxOf .float, .request ⟨"Box", [.prim .char], none, some 0⟩,
    .request ⟨"Box", [], none, none⟩, .sweep]

/-- A unit with a fault and an instance that `shelf` has as well. -/
def rack : CompilationUnit := (empty .lenient .standard).afterAll rackHistory

theorem reachable_shelf : shelf.Reachable := by
  apply (Reachable.empty _ _).afterAll
  simp [shelfHistory]

theorem reachable_rack : rack.Reachable := by
  apply (Reachable.empty _ _).afterAll
  simp [rackHistory, boxOf]

theorem shelf_and_rack :
    (boxes.Reachable ∧ shelf.Reachable ∧ rack.Reachable) ∧
    (Compatible boxes shelf ∧ Compatible boxes rack ∧ Compatible shelf rack) ∧
    ((boxes.merge shelf).merge rack).instances ≠ ((boxes.merge rack).merge shelf).instances ∧
    (((boxes.merge shelf).merge rack).instances.map Instance.outline).Perm
      (((boxes.merge rack).merge shelf).instances.map Instance.outline) ∧
    ((boxes.merge shelf).merge rack).artifacts.map Artifact.name =
      ["Box:int", "Crate:int", "Box:float", "Box:char"] ∧
    (((boxes.merge shelf).merge rack).artifacts.map Artifact.outline).Perm
      (((boxes.merge rack).merge shelf).artifacts.map Artifact.outline) ∧
    ((boxes.merge shelf).merge rack).faults =
      [.unknownGeneric "Tray" none, .argumentCount "Box" 1 0 none] := by
  have compatible : Compatible boxes shelf ∧ Compatible boxes rack ∧ Compatible shelf rack := by
    decide
  obtain ⟨first, second, between⟩ := compatible
  obtain ⟨_, instances, _, artifacts, _⟩ := merge_order_irrelevant reachable_boxes reachable_shelf
    reachable_rack first second between
  exact ⟨⟨reachable_boxes, reachable_shelf, reachable_rack⟩, ⟨first, second, between⟩, by decide,
    instances, by decide, artifacts, by decide⟩

end Shelves

end CompilationUnit

end Monomorph
