import Monomorph.Proofs.ArtifactLife
import Monomorph.Proofs.Sweep

/-!
What becomes of an artifact that was handed off. A name that a unit's own list ever had stays
reserved there, so its artifact never comes back. A merge takes over the marks of the other
unit and the artifacts it still holds, but not the names it reserved: the artifact of an
instance that is marked because another unit handed its artifact off can come back, with a
later merge of a unit that still holds one.
-/

namespace Monomorph

namespace ArtifactStore

/-- The artifact for the new place of its instance, if the instance was taken over and the name
is not reserved. -/
def carried? (renumbering : Renumbering) (reserved : List String) (artifact : Artifact) :
    Option Artifact :=
  if artifact.name ∈ reserved then none
  else (renumbering.apply artifact.instanceId).map fun id => { artifact with instanceId := id }

theorem carried?_eq_some_iff {renumbering : Renumbering} {reserved : List String}
    {artifact found : Artifact} :
    carried? renumbering reserved artifact = some found ↔
      artifact.name ∉ reserved ∧ ∃ id, renumbering.apply artifact.instanceId = some id ∧
        found = { artifact with instanceId := id } := by
  unfold carried?
  split
  next taken => simp [taken]
  next free =>
    rw [Option.map_eq_some_iff, and_iff_right free]
    simp only [eq_comm (a := found)]

/-- One artifact is taken over or left out, and a name that is new afterwards is its own. -/
theorem held_adopt (renumbering : Renumbering) (store : ArtifactStore) (artifact : Artifact) :
    (store.adopt renumbering artifact).held =
        store.held ++ (carried? renumbering store.reserved artifact).toList ∧
      ∀ name, name ≠ artifact.name →
        (name ∈ (store.adopt renumbering artifact).reserved ↔ name ∈ store.reserved) := by
  rcases store.adopt_cases renumbering artifact with ⟨kept, round⟩ | ⟨id, carried, free, round⟩
  · have refused : carried? renumbering store.reserved artifact = none := by
      unfold carried?
      rcases kept with missing | reserved
      · simp [missing]
      · simp [reserved]
    rw [round, refused]
    exact ⟨(List.append_nil _).symm, fun _ _ => Iff.rfl⟩
  · have taken := carried?_eq_some_iff.mpr ⟨free, id, carried, rfl⟩
    rw [round, taken]
    refine ⟨rfl, ?_⟩
    intro name other
    simp [other]

/-- The artifacts of a list are taken over in their order. That names differ inside the list
keeps them out of each other's way. -/
theorem held_foldl_adopt (renumbering : Renumbering) {artifacts : List Artifact}
    (distinct : (artifacts.map Artifact.name).Nodup) (store : ArtifactStore) :
    (artifacts.foldl (adopt renumbering) store).held =
      store.held ++ artifacts.filterMap (carried? renumbering store.reserved) := by
  induction artifacts generalizing store with
  | nil => simp
  | cons first rest ih =>
    rw [List.map_cons, List.nodup_cons] at distinct
    obtain ⟨held, reserved⟩ := store.held_adopt renumbering first
    have others : rest.filterMap (carried? renumbering (store.adopt renumbering first).reserved) =
        rest.filterMap (carried? renumbering store.reserved) := by
      apply List.filterMap_congr
      intro artifact member
      have other : artifact.name ≠ first.name := fun same =>
        distinct.1 (same ▸ List.mem_map_of_mem member)
      simp only [carried?, reserved artifact.name other]
    rw [List.foldl_cons, ih distinct.2, others, held, List.append_assoc, List.filterMap_cons]
    cases carried? renumbering store.reserved first <;> rfl

end ArtifactStore

namespace CompilationUnit

variable {unit other : CompilationUnit} {id : Nat} {entry : Instance}

/-- The unit holds an artifact for the instance at a place. -/
def HoldsFor (unit : CompilationUnit) (id : Nat) : Prop :=
  ∃ artifact ∈ unit.artifacts, artifact.instanceId = id

theorem artifacts_merge (incoming : Consistent other.catalog other.table other.store) :
    (unit.merge other).artifacts = unit.artifacts ++ other.artifacts.filterMap
      (ArtifactStore.carried? (unit.absorbing other).2 unit.store.reserved) := by
  rw [artifacts, store_merge incoming.distinct]
  exact ArtifactStore.held_foldl_adopt _ incoming.kept.nodup_names unit.store

theorem mem_artifacts_merge (incoming : Consistent other.catalog other.table other.store)
    (found : Artifact) :
    found ∈ (unit.merge other).artifacts ↔
      found ∈ unit.artifacts ∨ ∃ artifact ∈ other.artifacts,
        artifact.name ∉ unit.store.reserved ∧
          ∃ id, (unit.absorbing other).2.apply artifact.instanceId = some id ∧
            found = { artifact with instanceId := id } := by
  rw [artifacts_merge incoming, List.mem_append, List.mem_filterMap]
  simp only [ArtifactStore.carried?_eq_some_iff]

/-- An instance of the other unit is carried to the place of this unit's instance with the same
generic and arguments. -/
theorem carried_iff (own : unit.table.Coherent) (distinct : other.catalog.names.Nodup)
    (found : unit.table.get? id = some entry) {place : Nat} {theirs : Instance}
    (there : other.table.get? place = some theirs) :
    (unit.absorbing other).2.apply place = some id ↔
      theirs.generic ∈ unit.acceptedNames other ∧ theirs.key = entry.key := by
  obtain ⟨later, foundLater, becomes⟩ :=
    InstanceTable.grows_of_steps (unit.steps_merge other) id entry found
  rw [apply_absorbing distinct own, newPlace_eq_some_iff own]
  constructor
  · rintro ⟨same, found, sameThere, accepted, foundHere, key⟩
    rw [there] at sameThere
    cases sameThere
    rw [foundLater] at foundHere
    cases foundHere
    exact ⟨accepted, key.symm.trans becomes.key⟩
  · rintro ⟨accepted, key⟩
    exact ⟨theirs, later, there, accepted, foundLater, becomes.key.trans key.symm⟩

/-- A merge brings an artifact for an instance that has none exactly if the symbol was never
reserved here and the other unit holds an artifact of the same generic and arguments. -/
theorem holdsFor_merge_iff (own : Consistent unit.catalog unit.table unit.store)
    (incoming : Consistent other.catalog other.table other.store)
    (found : unit.table.get? id = some entry) (gone : ¬unit.HoldsFor id) :
    (unit.merge other).HoldsFor id ↔
      Symbol.name entry.generic entry.arguments ∉ unit.store.reserved ∧
        entry.generic ∈ unit.acceptedNames other ∧
          ∃ artifact ∈ other.artifacts,
            artifact.generic = entry.generic ∧ artifact.arguments = entry.arguments := by
  constructor
  · rintro ⟨artifact, member, rfl⟩
    rcases (mem_artifacts_merge incoming artifact).mp member with
      old | ⟨source, listed, free, place, carried, rfl⟩
    · exact absurd ⟨artifact, old, rfl⟩ gone
    · have fits := incoming.fits source listed
      obtain ⟨theirs, there, _, generic, arguments⟩ := fits.marked
      obtain ⟨accepted, key⟩ := (carried_iff own.coherent incoming.distinct found there).mp carried
      have sameGeneric : theirs.generic = entry.generic := congrArg Prod.fst key
      have sameArguments : theirs.arguments = entry.arguments := congrArg Prod.snd key
      refine ⟨?_, sameGeneric ▸ accepted, source, listed, ?_, ?_⟩
      · rw [← sameGeneric, ← sameArguments, generic, arguments, ← fits.named]
        exact free
      · exact generic.symm.trans sameGeneric
      · exact arguments.symm.trans sameArguments
  · rintro ⟨free, accepted, source, listed, generic, arguments⟩
    have fits := incoming.fits source listed
    obtain ⟨theirs, there, _, theirGeneric, theirArguments⟩ := fits.marked
    have key : theirs.key = entry.key :=
      Prod.ext (theirGeneric.trans generic) (theirArguments.trans arguments)
    have carried : (unit.absorbing other).2.apply source.instanceId = some id := by
      apply (carried_iff own.coherent incoming.distinct found there).mpr
      exact ⟨(theirGeneric.trans generic).symm ▸ accepted, key⟩
    refine ⟨{ source with instanceId := id }, ?_, rfl⟩
    apply (mem_artifacts_merge incoming _).mpr
    refine Or.inr ⟨source, listed, ?_, id, carried, rfl⟩
    rw [fits.named, generic, arguments]
    exact free

/-- A sweep makes no artifact for a marked instance. -/
theorem holdsFor_sweep (own : Consistent unit.catalog unit.table unit.store)
    (found : unit.table.get? id = some entry) (marked : entry.emitted = true)
    (gone : ¬unit.HoldsFor id) : ¬unit.sweep.2.HoldsFor id := by
  rintro ⟨artifact, member, there⟩
  rw [held_sweep own, List.mem_append] at member
  rcases member with old | new
  · exact gone ⟨artifact, old, there⟩
  · obtain ⟨waiting, listed, rfl⟩ := List.mem_map.mp new
    obtain ⟨foundWaiting, unmarked⟩ := get?_waiting own waiting listed
    rw [show waiting.id = id from there, found] at foundWaiting
    cases foundWaiting
    rw [marked] at unmarked
    cases unmarked

/-- The one change that can bring an artifact for a marked instance is a merge. -/
theorem merge_of_holdsFor_after (own : Consistent unit.catalog unit.table unit.store)
    (found : unit.table.get? id = some entry) (marked : entry.emitted = true)
    (gone : ¬unit.HoldsFor id) {change : Change} (returned : (unit.after change).HoldsFor id) :
    ∃ other, change = .merge other := by
  cases change with
  | register shared =>
    have store : (unit.after (.register shared)).artifacts = unit.artifacts :=
      congrArg ArtifactStore.held (unit.store_register shared)
    rw [HoldsFor, store] at returned
    exact absurd returned gone
  | request request => exact absurd returned gone
  | requestWithDefaults request => exact absurd returned gone
  | sweep => exact absurd returned (holdsFor_sweep own found marked gone)
  | takeArtifacts =>
    obtain ⟨artifact, member, _⟩ := returned
    cases member
  | takeFaults => exact absurd returned gone
  | merge other => exact ⟨other, rfl⟩

/-- The artifact of an instance stays away along a run if the symbol is reserved here, or if no
unit that is merged on the way holds an artifact of this generic and these arguments. -/
theorem not_holdsFor_afterAll (reached : unit.Reachable)
    (found : unit.table.get? id = some entry) (marked : entry.emitted = true)
    (gone : ¬unit.HoldsFor id) {changes : List Change} (lawful : Lawful changes)
    (guarded : Symbol.name entry.generic entry.arguments ∈ unit.store.reserved ∨
      ∀ other, Change.merge other ∈ changes → ∀ artifact ∈ other.artifacts,
        ¬(artifact.generic = entry.generic ∧ artifact.arguments = entry.arguments)) :
    ¬(unit.afterAll changes).HoldsFor id := by
  induction changes generalizing unit entry with
  | nil => exact gone
  | cons change rest ih =>
    have own := reached.consistent
    have still : ¬(unit.after change).HoldsFor id := by
      intro returned
      obtain ⟨other, rfl⟩ := merge_of_holdsFor_after own found marked gone returned
      have incoming := (lawful other List.mem_cons_self).consistent
      obtain ⟨free, _, artifact, member, same⟩ :=
        (holdsFor_merge_iff own incoming found gone).mp returned
      rcases guarded with reserved | apart
      · exact free reserved
      · exact apart other List.mem_cons_self artifact member same
    obtain ⟨later, foundLater, becomes⟩ :=
      InstanceTable.grows_of_steps (unit.steps_after change) id entry found
    obtain ⟨merged, rests⟩ := lawful_cons.mp lawful
    apply ih (reached.change change merged) foundLater (becomes.marked marked) still rests
    rw [becomes.generic, becomes.arguments]
    rcases guarded with reserved | apart
    · rw [unit.reserved_after change]
      exact Or.inl (List.mem_append_left _ reserved)
    · exact Or.inr fun other member => apart other (List.mem_cons_of_mem _ member)

/-- Consider a marked instance for which a unit holds no artifact. If the unit's own list had
the artifact at some time, it never comes back, and neither does it as long as no unit is
merged that holds one. Exactly the merge of a unit that holds an artifact of the same
declaration and arguments brings it back, where the list never had it. -/
theorem handed_off_artifacts {unit : CompilationUnit} (reached : unit.Reachable) {id : Nat}
    {entry : Instance} (found : unit.table.get? id = some entry) (marked : entry.emitted = true)
    (gone : ∀ artifact ∈ unit.artifacts, artifact.instanceId ≠ id) :
    (∀ changes, Lawful changes →
      (Symbol.name entry.generic entry.arguments ∈ unit.store.reserved ∨
        ∀ other, Change.merge other ∈ changes → ∀ artifact ∈ other.artifacts,
          ¬(artifact.generic = entry.generic ∧ artifact.arguments = entry.arguments)) →
      ∀ artifact ∈ (unit.afterAll changes).artifacts, artifact.instanceId ≠ id) ∧
    (∀ traits policy past, (empty traits policy).afterAll past = unit →
      (Symbol.name entry.generic entry.arguments ∈ unit.store.reserved ↔
        Symbol.name entry.generic entry.arguments ∈ (empty traits policy).gainedAlong past)) ∧
    ∀ other, other.Reachable →
      ((∃ artifact ∈ (unit.merge other).artifacts, artifact.instanceId = id) ↔
        Symbol.name entry.generic entry.arguments ∉ unit.store.reserved ∧
          entry.generic ∈ unit.acceptedNames other ∧
            ∃ artifact ∈ other.artifacts,
              artifact.generic = entry.generic ∧ artifact.arguments = entry.arguments) := by
  have none : ¬unit.HoldsFor id := fun holds => by
    obtain ⟨artifact, member, there⟩ := holds
    exact gone artifact member there
  refine ⟨?_, ?_, ?_⟩
  · intro changes lawful guarded artifact member there
    exact not_holdsFor_afterAll reached found marked none lawful guarded ⟨artifact, member, there⟩
  · intro traits policy past now
    rw [← now, reserved_afterAll]
    rfl
  · intro other otherReached
    exact holdsFor_merge_iff reached.consistent otherReached.consistent found none

section Boxes

/-- A unit whose only artifact was handed off. -/
def spentBoxes : CompilationUnit := intBoxes.after .takeArtifacts

/-- A unit that merged one whose artifact was handed off. -/
def relayBoxes : CompilationUnit :=
  (empty .lenient .standard).afterAll [.register box, .merge spentBoxes]

theorem reachable_relayBoxes : relayBoxes.Reachable := by
  have spent : spentBoxes.Reachable := reachable_intBoxes.change .takeArtifacts nofun
  apply (Reachable.empty _ _).afterAll
  simp [spent]

/-- A unit that holds the artifact that `boxes` has handed off. -/
def boolBoxes : CompilationUnit :=
  (empty .lenient .standard).afterAll [.register box, boxOf .bool, .sweep]

theorem reachable_boolBoxes : boolBoxes.Reachable := by
  apply (Reachable.empty _ _).afterAll
  simp [boxOf]

/-- A unit that handed the artifact off itself does not get it back from one that holds it. -/
theorem boxes_handed_off :
    boxes.Reachable ∧ (∃ entry, boxes.table.get? 0 = some entry ∧ entry.emitted = true ∧
      Symbol.name entry.generic entry.arguments ∈ boxes.store.reserved ∧
      ∃ artifact ∈ boolBoxes.artifacts,
        artifact.generic = entry.generic ∧ artifact.arguments = entry.arguments) ∧
    ∀ artifact ∈ (boxes.afterAll [.merge boolBoxes, .sweep]).artifacts,
      artifact.instanceId ≠ 0 := by
  have spent : ∃ entry, boxes.table.get? 0 = some entry ∧ entry.emitted = true ∧
      Symbol.name entry.generic entry.arguments ∈ boxes.store.reserved ∧
      ∃ artifact ∈ boolBoxes.artifacts,
        artifact.generic = entry.generic ∧ artifact.arguments = entry.arguments :=
    ⟨_, rfl, rfl, by decide, by decide⟩
  have gone : ∀ artifact ∈ boxes.artifacts, artifact.instanceId ≠ 0 := by decide
  have lawful : Lawful [.merge boolBoxes, .sweep] := by simp [reachable_boolBoxes]
  refine ⟨reachable_boxes, spent, ?_⟩
  obtain ⟨entry, found, marked, listed, _⟩ := spent
  exact (handed_off_artifacts reachable_boxes found marked gone).1 _ lawful (Or.inl listed)

/-- A marked instance without an artifact can get one again: the artifact was handed off by a
unit that was merged in, and another unit brings its own. -/
theorem handed_off_can_return :
    ¬∀ unit : CompilationUnit, unit.Reachable → ∀ id entry, unit.table.get? id = some entry →
      entry.emitted = true → (∀ artifact ∈ unit.artifacts, artifact.instanceId ≠ id) →
      ∀ changes, Lawful changes →
        ∀ artifact ∈ (unit.afterAll changes).artifacts, artifact.instanceId ≠ id := by
  intro stays
  have lawful : Lawful [.merge intBoxes] := by simp [reachable_intBoxes]
  have gone : ∀ artifact ∈ relayBoxes.artifacts, artifact.instanceId ≠ 0 := by decide
  have away := stays relayBoxes reachable_relayBoxes 0 _ rfl rfl gone [.merge intBoxes] lawful
  have back : ∃ artifact ∈ (relayBoxes.afterAll [.merge intBoxes]).artifacts,
      artifact.instanceId = 0 := by decide
  obtain ⟨artifact, member, there⟩ := back
  exact away artifact member there

end Boxes

end CompilationUnit

end Monomorph
