import Monomorph.Proofs.HandOff
import Monomorph.Proofs.MergeUnion

/-!
No artifact is lost. A mark says that an artifact was made, and a merge takes over the marks of
the other unit but leaves out artifacts whose names are reserved. So a marked instance need not
have an artifact in its unit. It has one somewhere: the unit holds it or has handed it off, or a
unit that was merged in did. What carries the argument is that a reserved name is always the name
of an artifact that is held or was handed off; where a merge leaves an artifact out, that one
takes its place.
-/

namespace Monomorph

/-- The artifact is one for the generic and arguments of the instance, under their symbol. -/
structure Artifact.Serves (artifact : Artifact) (entry : Instance) : Prop where
  name : artifact.name = Symbol.name entry.generic entry.arguments
  generic : artifact.generic = entry.generic
  arguments : artifact.arguments = entry.arguments

def Instance.symbol (entry : Instance) : String := Symbol.name entry.generic entry.arguments

theorem Instance.symbol_eq {entry other : Instance} (same : entry.key = other.key) :
    entry.symbol = other.symbol := by
  obtain ⟨generic, arguments⟩ := Prod.mk.inj same
  rw [symbol, symbol, generic, arguments]

namespace CompilationUnit

/-- A way in which the unit came about, with the artifacts that were handed off on it by the unit
itself and by the units that were merged into it or into those. -/
inductive Delivered : CompilationUnit → List Artifact → Prop
  | empty (traits : TraitAuthority) (policy : Policy) : Delivered (.empty traits policy) []
  | change {unit : CompilationUnit} {gone : List Artifact} (change : Change) :
      Delivered unit gone → (∀ other, change ≠ .merge other) →
      Delivered (unit.after change) (gone ++ unit.handedOff change)
  | merge {unit other : CompilationUnit} {gone theirs : List Artifact} :
      Delivered unit gone → Delivered other theirs →
      Delivered (unit.merge other) (gone ++ theirs)

section Histories

variable {unit other : CompilationUnit} {gone : List Artifact}

theorem Delivered.reachable (delivered : unit.Delivered gone) : unit.Reachable := by
  induction delivered with
  | empty traits policy => exact .empty traits policy
  | change change _ alone own =>
    exact own.change change fun other same => absurd same (alone other)
  | @merge unit other _ _ _ _ own incoming =>
    apply own.change (.merge other)
    rintro merged ⟨⟩
    exact incoming

theorem Reachable.delivered (reached : unit.Reachable) : ∃ gone, unit.Delivered gone := by
  induction reached with
  | empty traits policy => exact ⟨[], .empty traits policy⟩
  | @change unit change _ _ own merged =>
    obtain ⟨gone, delivered⟩ := own
    cases change with
    | merge other =>
      obtain ⟨theirs, incoming⟩ := merged other rfl
      exact ⟨gone ++ theirs, delivered.merge incoming⟩
    | _ => exact ⟨_, delivered.change _ nofun⟩

theorem Delivered.afterAll {changes : List Change} (delivered : unit.Delivered gone)
    (alone : ∀ other, Change.merge other ∉ changes) :
    (unit.afterAll changes).Delivered (gone ++ unit.handedOffAlong changes) := by
  induction changes generalizing unit gone with
  | nil =>
    rw [handedOffAlong, List.append_nil]
    exact delivered
  | cons change rest ih =>
    obtain ⟨here, rests⟩ := alone_cons.mp alone
    rw [handedOffAlong, ← List.append_assoc]
    exact ih (delivered.change change here) rests

end Histories

/-- The names of the artifacts that are held or were handed off. -/
def madeNames (unit : CompilationUnit) (gone : List Artifact) : List String :=
  (unit.artifacts ++ gone).map Artifact.name

/-- Every reserved name and the symbol of every marked instance is the name of an artifact that
is held or was handed off. -/
structure Accounted (unit : CompilationUnit) (gone : List Artifact) : Prop where
  named : ∀ artifact ∈ gone, artifact.name = Symbol.name artifact.generic artifact.arguments
  reserved : ∀ name ∈ unit.store.reserved, name ∈ unit.madeNames gone
  marked : ∀ entry ∈ unit.instances, entry.emitted = true → entry.symbol ∈ unit.madeNames gone

section Steps

variable {unit : CompilationUnit} {gone : List Artifact} {name : String}

theorem mem_madeNames : name ∈ unit.madeNames gone ↔
    name ∈ unit.artifacts.map Artifact.name ∨ name ∈ gone.map Artifact.name := by
  rw [madeNames, List.map_append, List.mem_append]

/-- An artifact that leaves the list of a unit was handed off. -/
theorem madeNames_after (change : Change) (made : name ∈ unit.madeNames gone) :
    name ∈ (unit.after change).madeNames (gone ++ unit.handedOff change) := by
  rw [mem_madeNames, List.map_append, List.mem_append]
  rcases mem_madeNames.mp made with held | before
  · by_cases handed : change = .takeArtifacts
    · subst handed
      exact Or.inr (Or.inr held)
    · obtain ⟨added, extended, _⟩ := unit.extends_after handed
      rw [artifacts, extended, List.map_append, List.mem_append]
      exact Or.inl (Or.inl held)
  · exact Or.inr (Or.inl before)

theorem gained_subset (change : Change) (gained : name ∈ unit.gained change) :
    name ∈ (unit.after change).artifacts.map Artifact.name := by
  rw [CompilationUnit.gained, List.map_drop] at gained
  exact List.mem_of_mem_drop gained

/-- An instance that is marked after a change of the unit on its own was marked before it, or
the change has made an artifact for it. -/
theorem marked_after (own : Consistent unit.catalog unit.table unit.store) {change : Change}
    (alone : ∀ other, change ≠ .merge other) {entry : Instance}
    (member : entry ∈ (unit.after change).instances) (marked : entry.emitted = true) :
    (∃ old ∈ unit.instances, old.key = entry.key ∧ old.emitted = true) ∨
      entry.symbol ∈ (unit.after change).artifacts.map Artifact.name := by
  have requested {request : Request}
      (entered : entry ∈ (unit.table.request unit.catalog unit.traits request).2.instances) :
      ∃ old ∈ unit.instances, old.key = entry.key ∧ old.emitted = true := by
    rcases Consistent.mem_request entered with old | ⟨_, _, unmarked⟩
    · exact ⟨entry, old, rfl, marked⟩
    · rw [unmarked] at marked
      cases marked
  cases change with
  | register shared =>
    change entry ∈ (unit.register shared).2.instances at member
    unfold register at member
    split at member
    · exact Or.inl ⟨entry, member, rfl, marked⟩
    · exact Or.inl ⟨entry, member, rfl, marked⟩
  | request request => exact Or.inl (requested member)
  | requestWithDefaults request => exact Or.inl (requested member)
  | sweep =>
    change entry ∈ unit.sweep.2.table.instances at member
    rw [table_sweep own] at member
    obtain ⟨old, listed, rfl⟩ := List.mem_map.mp member
    cases before : old.emitted with
    | true => exact Or.inl ⟨old, listed, rfl, before⟩
    | false =>
      have waits : old ∈ unit.table.waiting := InstanceTable.mem_waiting.mpr ⟨listed, before⟩
      have held : (unit.after .sweep).artifacts = _ := held_sweep own
      rw [held, List.map_append, List.mem_append, List.map_map]
      exact Or.inr (Or.inr (List.mem_map.mpr ⟨old, waits, rfl⟩))
  | takeArtifacts => exact Or.inl ⟨entry, member, rfl, marked⟩
  | takeFaults => exact Or.inl ⟨entry, member, rfl, marked⟩
  | merge other => exact absurd rfl (alone other)

theorem Accounted.after (accounted : unit.Accounted gone)
    (own : Consistent unit.catalog unit.table unit.store) {change : Change}
    (alone : ∀ other, change ≠ .merge other) :
    (unit.after change).Accounted (gone ++ unit.handedOff change) where
  named := by
    intro artifact member
    rcases List.mem_append.mp member with before | handed
    · exact accounted.named artifact before
    · cases change with
      | takeArtifacts => exact (own.fits artifact handed).named
      | _ => cases handed
  reserved := by
    intro name member
    rw [unit.reserved_after change, List.mem_append] at member
    rcases member with old | new
    · exact madeNames_after change (accounted.reserved name old)
    · exact mem_madeNames.mpr (Or.inl (gained_subset change new))
  marked := by
    intro entry member marked
    rcases marked_after own alone member marked with ⟨old, listed, same, before⟩ | made
    · rw [← Instance.symbol_eq same]
      exact madeNames_after change (accounted.marked old listed before)
    · exact mem_madeNames.mpr (Or.inl made)

end Steps

section Merge

variable {unit other : CompilationUnit} {gone theirs : List Artifact} {name : String}
  (own : Consistent unit.catalog unit.table unit.store)
  (incoming : Consistent other.catalog other.table other.store)

include own incoming

/-- The instance of an artifact is carried over if its generic is accepted. -/
theorem carried_of_accepted {artifact : Artifact} (member : artifact ∈ other.artifacts)
    (accepted : artifact.generic ∈ unit.acceptedNames other) :
    ∃ id, (unit.absorbing other).2.apply artifact.instanceId = some id := by
  obtain ⟨entry, found, _, generic, _⟩ := (incoming.fits artifact member).marked
  rw [← generic] at accepted
  obtain ⟨place, interned⟩ := Option.isSome_iff_exists.mp
    ((absorbing_renumbering incoming.distinct own.coherent).2 entry
      (List.mem_of_getElem? found) accepted)
  refine ⟨place, ?_⟩
  rw [apply_absorbing incoming.distinct own.coherent, newPlace, found, Option.bind_some,
    InstanceTable.placeOf, if_pos (List.contains_iff_mem.mpr accepted)]
  exact interned

/-- An artifact of an accepted generic is held after the merge, unless its name was reserved. -/
theorem name_merge {artifact : Artifact} (member : artifact ∈ other.artifacts)
    (accepted : artifact.generic ∈ unit.acceptedNames other) :
    artifact.name ∈ unit.store.reserved ∨
      artifact.name ∈ (unit.merge other).artifacts.map Artifact.name := by
  by_cases reserved : artifact.name ∈ unit.store.reserved
  · exact Or.inl reserved
  · obtain ⟨id, carried⟩ := carried_of_accepted own incoming member accepted
    have held : { artifact with instanceId := id } ∈ (unit.merge other).artifacts :=
      (mem_artifacts_merge incoming _).mpr (Or.inr ⟨artifact, member, reserved, id, carried, rfl⟩)
    exact Or.inr (List.mem_map.mpr ⟨_, held, rfl⟩)

omit own in
theorem madeNames_merge (made : name ∈ unit.madeNames gone) :
    name ∈ (unit.merge other).madeNames (gone ++ theirs) := by
  rw [mem_madeNames, List.map_append, List.mem_append]
  rcases mem_madeNames.mp made with held | before
  · obtain ⟨artifact, member, rfl⟩ := List.mem_map.mp held
    have still := (mem_artifacts_merge incoming artifact).mpr (Or.inl member)
    exact Or.inl (List.mem_map_of_mem still)
  · exact Or.inr (Or.inl before)

theorem Accounted.merge (accounted : unit.Accounted gone) (there : other.Accounted theirs) :
    (unit.merge other).Accounted (gone ++ theirs) where
  named := by
    intro artifact member
    rcases List.mem_append.mp member with mine | carried
    · exact accounted.named artifact mine
    · exact there.named artifact carried
  reserved := by
    intro name member
    have gains := unit.reserved_after (.merge other)
    change (unit.merge other).store.reserved = _ at gains
    rw [gains, List.mem_append] at member
    rcases member with old | new
    · exact madeNames_merge incoming (accounted.reserved name old)
    · exact mem_madeNames.mpr (Or.inl (gained_subset (.merge other) new))
  marked := by
    intro entry member marked
    rcases (emitted_merge_iff own incoming member).mp marked with
      ⟨mine, listed, same, before⟩ | ⟨source, listed, ⟨accepted, same⟩, before⟩
    · rw [← Instance.symbol_eq same]
      exact madeNames_merge incoming (accounted.marked mine listed before)
    · rw [← Instance.symbol_eq same]
      rcases mem_madeNames.mp (there.marked source listed before) with held | handed
      · obtain ⟨artifact, found, named⟩ := List.mem_map.mp held
        have symbol := (incoming.fits artifact found).named.symm.trans named
        obtain ⟨generic, _⟩ := Symbol.name_inj symbol
        rw [← named]
        rcases name_merge own incoming found (generic ▸ accepted) with reserved | kept
        · exact madeNames_merge incoming (accounted.reserved _ reserved)
        · exact mem_madeNames.mpr (Or.inl kept)
      · rw [mem_madeNames, List.map_append, List.mem_append]
        exact Or.inr (Or.inr handed)

end Merge

theorem Delivered.accounted {unit : CompilationUnit} {gone : List Artifact}
    (delivered : unit.Delivered gone) : unit.Accounted gone := by
  induction delivered with
  | empty traits policy => exact ⟨nofun, nofun, nofun⟩
  | change change before alone accounted => exact accounted.after before.reachable.consistent alone
  | merge before incoming accounted there =>
    exact accounted.merge before.reachable.consistent incoming.reachable.consistent there

/-- However a unit came about, every marked instance has an artifact of its symbol, declaration
and arguments that the unit holds or that was handed off, by this unit or by one that was merged
into it, directly or through others. -/
theorem artifacts_conserved {unit : CompilationUnit} (reached : unit.Reachable) :
    (∃ gone, unit.Delivered gone) ∧
    ∀ gone, unit.Delivered gone → ∀ entry ∈ unit.instances, entry.emitted = true →
      ∃ artifact, (artifact ∈ unit.artifacts ∨ artifact ∈ gone) ∧ artifact.Serves entry := by
  refine ⟨reached.delivered, ?_⟩
  intro gone delivered entry member marked
  have accounted := delivered.accounted
  obtain ⟨artifact, made, named⟩ := List.mem_map.mp (accounted.marked entry member marked)
  have place := List.mem_append.mp made
  have symbol : artifact.name = Symbol.name artifact.generic artifact.arguments := by
    rcases place with held | handed
    · exact (reached.consistent.fits artifact held).named
    · exact accounted.named artifact handed
  obtain ⟨generic, arguments⟩ := Symbol.name_inj (symbol.symm.trans named)
  exact ⟨artifact, place, ⟨named, generic, arguments⟩⟩

section Boxes

def spentHistory : List Change := [.register box, boxOf .char, .sweep, .takeArtifacts]

/-- A unit that has handed off the artifact of its only box. -/
def spentCharBoxes : CompilationUnit := (empty .lenient .standard).afterAll spentHistory

/-- A unit with three marked boxes. It handed off the artifact of the first and holds that of the
third; the second is marked because a unit that was merged in handed its artifact off. -/
def settledBoxes : CompilationUnit := boxes.merge spentCharBoxes

/-- The artifact of a box as the unit that made it knew it. -/
def boxArtifact (primitive : Primitive) : Artifact :=
  ⟨Symbol.name "Box" [.prim primitive], "Box", [.prim primitive], none, 0,
    some (.func [.prim primitive] (.prim primitive))⟩

theorem delivered_settledBoxes :
    settledBoxes.Delivered [boxArtifact .bool, boxArtifact .char] := by
  have start := Delivered.empty .lenient .standard
  have early : ((empty .lenient .standard).afterAll (boxHistory.take 5)).Delivered _ :=
    start.afterAll (by simp [boxHistory, boxOf])
  have held : intBoxes.Delivered _ := start.afterAll (by simp [boxOf])
  have spent : spentCharBoxes.Delivered _ := start.afterAll (by simp [spentHistory, boxOf])
  have all : settledBoxes.Delivered _ := (early.merge held).merge spent
  have gone : [] ++ (empty .lenient .standard).handedOffAlong (boxHistory.take 5) ++
      ([] ++ (empty .lenient .standard).handedOffAlong
        [.register box, boxOf .int, .sweep]) ++
      ([] ++ (empty .lenient .standard).handedOffAlong spentHistory) =
        [boxArtifact .bool, boxArtifact .char] := by decide
  rw [gone] at all
  exact all

theorem settledBoxes_conserved :
    settledBoxes.Reachable ∧ settledBoxes.Delivered [boxArtifact .bool, boxArtifact .char] ∧
    settledBoxes.artifacts.map Artifact.name = ["Box:int"] ∧
    ∃ entry, settledBoxes.table.get? 1 = some entry ∧ entry.emitted = true ∧
      (∀ artifact ∈ settledBoxes.artifacts, ¬artifact.Serves entry) ∧
      ∃ artifact ∈ [boxArtifact .bool, boxArtifact .char], artifact.Serves entry := by
  have delivered := delivered_settledBoxes
  have second : settledBoxes.table.get? 1 =
      some ⟨1, "Box", [.prim .char], true, none, 0, none⟩ := by decide
  have names : settledBoxes.artifacts.map Artifact.name = ["Box:int"] := by decide
  have elsewhere : ∀ artifact ∈ settledBoxes.artifacts,
      ¬artifact.Serves ⟨1, "Box", [.prim .char], true, none, 0, none⟩ := by
    intro artifact member serves
    have listed := List.mem_map_of_mem (f := Artifact.name) member
    rw [names, List.mem_singleton, serves.name] at listed
    exact absurd listed (by decide)
  obtain ⟨artifact, place, serves⟩ := (artifacts_conserved delivered.reachable).2 _ delivered _
    (List.mem_of_getElem? second) rfl
  refine ⟨delivered.reachable, delivered, names, _, second, rfl, elsewhere, artifact, ?_, serves⟩
  rcases place with held | handed
  · exact absurd serves (elsewhere artifact held)
  · exact handed

end Boxes

end CompilationUnit

end Monomorph
