import Monomorph.Proofs.Consistency

/-!
The life of the artifact list. The list grows at its end until it is handed off, and a name
that was on it once is never on it again.
-/

namespace Monomorph

namespace ArtifactStore

/-- Artifacts were pushed since, and nothing else happened. -/
def Extends (later store : ArtifactStore) : Prop :=
  ∃ added, later.held = store.held ++ added ∧
    later.reserved = store.reserved ++ added.map Artifact.name

section Extension

variable {store later last : ArtifactStore}

theorem Extends.refl (store : ArtifactStore) : store.Extends store := ⟨[], by simp, by simp⟩

theorem Extends.trans (second : last.Extends later) (first : later.Extends store) :
    last.Extends store := by
  obtain ⟨added, held, reserved⟩ := first
  obtain ⟨more, heldMore, reservedMore⟩ := second
  refine ⟨added ++ more, ?_, ?_⟩
  · rw [heldMore, held, List.append_assoc]
  · rw [reservedMore, reserved, List.append_assoc, List.map_append]

theorem extends_push (store : ArtifactStore) (artifact : Artifact) :
    (store.push artifact).Extends store :=
  ⟨[artifact], rfl, rfl⟩

theorem extends_emit (catalog : Catalog) (state : InstanceTable × ArtifactStore) (id : Nat) :
    (emit catalog state id).2.Extends state.2 := by
  obtain ⟨table, store⟩ := state
  rcases emit_cases catalog table store id with
    ⟨_, round⟩ | ⟨entry, _, ⟨_, round⟩ | ⟨_, round⟩⟩
  · rw [round]
    exact .refl store
  · rw [round]
    exact .refl store
  · rw [round]
    exact extends_push store _

theorem extends_sweep (store : ArtifactStore) (catalog : Catalog) (table : InstanceTable) :
    (store.sweep catalog table).2.2.Extends store :=
  List.foldlRecOn (motive := fun state : InstanceTable × ArtifactStore => state.2.Extends store)
    table.pending (emit catalog) (.refl store)
    fun state before id _ => (extends_emit catalog state id).trans before

theorem extends_adopt (renumbering : Renumbering) (store : ArtifactStore) (artifact : Artifact) :
    (adopt renumbering store artifact).Extends store := by
  rcases store.adopt_cases renumbering artifact with ⟨_, round⟩ | ⟨id, _, _, round⟩
  · rw [round]
    exact .refl store
  · rw [round]
    exact extends_push store _

theorem extends_absorb (store other : ArtifactStore) (renumbering : Renumbering) :
    (store.absorb other renumbering).Extends store :=
  List.foldlRecOn (motive := fun later => later.Extends store) other.held (adopt renumbering)
    (.refl store)
    fun later before artifact _ => (extends_adopt renumbering later artifact).trans before

end Extension

end ArtifactStore

namespace CompilationUnit

section Life

variable (unit : CompilationUnit)

/-- The names that a change adds to the artifact list. -/
def gained (change : Change) : List String :=
  ((unit.after change).artifacts.drop unit.artifacts.length).map Artifact.name

/-- The names added to the artifact list in a sequence of changes, with all repetitions. -/
def gainedAlong (unit : CompilationUnit) : List Change → List String
  | [] => []
  | change :: rest => unit.gained change ++ (unit.after change).gainedAlong rest

theorem store_register (shared : SharedGeneric) :
    (unit.register shared).2.store = unit.store := by
  unfold register
  split <;> rfl

theorem extends_merge (other : CompilationUnit) :
    (unit.merge other).store.Extends unit.store := by
  have registered : (other.catalog.registered.foldl accept (unit, [])).1.store = unit.store :=
    List.foldlRecOn (motive := fun state : CompilationUnit × List String =>
      state.1.store = unit.store) _ accept rfl fun state before shared _ =>
        (congrArg (fun next => next.1.store) (accept_eq state.1 state.2 shared)).trans before
  have absorbed := ArtifactStore.extends_absorb
    (other.catalog.registered.foldl accept (unit, [])).1.store other.store
    ((other.catalog.registered.foldl accept (unit, [])).1.table.absorb other.table
      (other.catalog.registered.foldl accept (unit, [])).2.contains).2
  exact absorbed.trans (registered ▸ .refl _)

/-- Only a hand-off takes anything from the list. -/
theorem extends_after {change : Change} (keeps : change ≠ .takeArtifacts) :
    (unit.after change).store.Extends unit.store := by
  cases change with
  | register shared =>
    change (unit.register shared).2.store.Extends unit.store
    rw [store_register]
    exact .refl _
  | request request => exact .refl _
  | requestWithDefaults request => exact .refl _
  | sweep => exact ArtifactStore.extends_sweep _ _ _
  | takeArtifacts => exact absurd rfl keeps
  | takeFaults => exact .refl _
  | merge other => exact unit.extends_merge other

theorem reserved_after (change : Change) :
    (unit.after change).store.reserved = unit.store.reserved ++ unit.gained change := by
  by_cases handed : change = .takeArtifacts
  · subst handed
    have none : unit.gained .takeArtifacts = [] := congrArg (List.map _) List.drop_nil
    rw [none, List.append_nil]
    rfl
  · obtain ⟨added, held, reserved⟩ := unit.extends_after handed
    rw [reserved, gained, artifacts, artifacts, held, List.drop_left]

/-- The reserved names are those the artifact list ever gained. -/
theorem reserved_afterAll (changes : List Change) :
    (unit.afterAll changes).store.reserved = unit.store.reserved ++ unit.gainedAlong changes := by
  induction changes generalizing unit with
  | nil => exact (List.append_nil _).symm
  | cons change rest ih =>
    change ((unit.after change).afterAll rest).store.reserved = _
    rw [ih, reserved_after, gainedAlong, List.append_assoc]

/-- The artifacts that a change hands off. -/
def handedOff : Change → List Artifact
  | .takeArtifacts => unit.takeArtifacts.1
  | _ => []

/-- The artifacts handed off in a sequence of changes. -/
def handedOffAlong (unit : CompilationUnit) : List Change → List Artifact
  | [] => []
  | change :: rest => unit.handedOff change ++ (unit.after change).handedOffAlong rest

theorem reserved_after_handedOff (change : Change) {gone : List Artifact}
    (parts : unit.store.reserved = (gone ++ unit.artifacts).map Artifact.name) :
    (unit.after change).store.reserved =
      (gone ++ unit.handedOff change ++ (unit.after change).artifacts).map Artifact.name := by
  by_cases handed : change = .takeArtifacts
  · subst handed
    have none : (unit.after .takeArtifacts).artifacts = [] := rfl
    rw [none, List.append_nil]
    exact parts
  · obtain ⟨added, held, reserved⟩ := unit.extends_after handed
    have none : unit.handedOff change = [] := by
      cases change <;> first | rfl | exact absurd rfl handed
    rw [none, List.append_nil, reserved, parts, ← List.map_append, artifacts, artifacts, held,
      List.append_assoc]

/-- The reserved names are those of the artifacts that were handed off and those still held. -/
theorem reserved_afterAll_handedOff (changes : List Change) {gone : List Artifact}
    (parts : unit.store.reserved = (gone ++ unit.artifacts).map Artifact.name) :
    (unit.afterAll changes).store.reserved =
      (gone ++ unit.handedOffAlong changes ++ (unit.afterAll changes).artifacts).map
        Artifact.name := by
  induction changes generalizing unit gone with
  | nil =>
    rw [handedOffAlong, List.append_nil]
    exact parts
  | cons change rest ih =>
    rw [handedOffAlong, ← List.append_assoc]
    exact ih (unit.after change) (unit.reserved_after_handedOff change parts)

end Life

/-- In every unit the held artifacts fit the instances and declarations that are there now,
no two of them have a name or an instance in common, and looking up a name gives the held
artifact of that name. A change adds to the end of the list or hands all of it off, and
whatever the unit's history is, no name was ever added to the list a second time. -/
theorem artifacts_agree {unit : CompilationUnit} (reached : unit.Reachable) :
    (∀ artifact ∈ unit.artifacts, artifact.Fits unit.catalog unit.table) ∧
    (unit.artifacts.map Artifact.name).Nodup ∧
    (unit.artifacts.map Artifact.instanceId).Nodup ∧
    (∀ name, (∀ artifact, unit.store.find? name = some artifact ↔
        artifact ∈ unit.artifacts ∧ artifact.name = name) ∧
      (unit.store.find? name = none ↔ ∀ artifact ∈ unit.artifacts, artifact.name ≠ name)) ∧
    (unit.after .takeArtifacts).artifacts = [] ∧
    (∀ change, change ≠ .takeArtifacts → unit.artifacts <+: (unit.after change).artifacts) ∧
    ∀ traits policy changes, (empty traits policy).afterAll changes = unit →
      ((empty traits policy).gainedAlong changes).Nodup := by
  have consistent := reached.consistent
  have kept := consistent.kept
  refine ⟨consistent.fits, kept.nodup_names, consistent.nodup_instanceIds, ?_, rfl, ?_, ?_⟩
  · intro name
    exact ⟨kept.find?_eq_some_iff name, kept.find?_eq_none_iff name⟩
  · intro change keeps
    obtain ⟨added, held, _⟩ := unit.extends_after keeps
    exact ⟨added, held.symm⟩
  · intro traits policy changes now
    have reserved : unit.store.reserved = (empty traits policy).gainedAlong changes := by
      rw [← now]
      exact (empty traits policy).reserved_afterAll changes
    rw [← reserved]
    exact kept.nodup

theorem boxes_agree :
    boxes.Reachable ∧ (∃ artifact, boxes.artifacts = [artifact] ∧ artifact.instanceId = 2 ∧
      artifact.Fits boxes.catalog boxes.table ∧ boxes.store.find? "Box:int" = some artifact ∧
      artifact.arguments = [.prim .int] ∧
      artifact.signature = some (.func [.prim .int] (.prim .int))) ∧
    boxes.artifacts <+: (boxes.after .sweep).artifacts ∧
    ((empty .lenient .standard).gainedAlong boxHistory).Nodup := by
  obtain ⟨fits, _, _, found, _, extended, gained⟩ := artifacts_agree reachable_boxes
  have held : ∃ artifact, boxes.artifacts = [artifact] ∧ artifact.instanceId = 2 ∧
      artifact.name = "Box:int" ∧ artifact.arguments = [.prim .int] ∧
      artifact.signature = some (.func [.prim .int] (.prim .int)) :=
    ⟨_, rfl, rfl, by decide, rfl, rfl⟩
  obtain ⟨artifact, only, id, name, signed⟩ := held
  have member : artifact ∈ boxes.artifacts := by simp [only]
  refine ⟨reachable_boxes, ⟨artifact, only, id, fits artifact member, ?_, signed⟩, ?_, ?_⟩
  · exact ((found "Box:int").1 artifact).mpr ⟨member, name⟩
  · exact extended .sweep nofun
  · exact gained _ _ boxHistory rfl

end CompilationUnit

end Monomorph
