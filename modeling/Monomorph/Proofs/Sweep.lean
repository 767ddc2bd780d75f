import Monomorph.Proofs.Consistency
import Monomorph.Proofs.UniqueSymbols

/-!
A sweep is exact. An instance that waits for its artifact has a symbol no artifact ever
had, because a reserved name is the symbol of a marked instance and symbols are unique. So
a sweep passes over nothing: it makes the artifact of every waiting instance, in the order
of the instances, and marks them all.
-/

namespace Monomorph

/-- The artifact is made for this instance, by the declaration in the catalog. -/
structure Artifact.Describes (artifact : Artifact) (catalog : Catalog) (entry : Instance) :
    Prop where
  name : artifact.name = Symbol.name entry.generic entry.arguments
  generic : artifact.generic = entry.generic
  arguments : artifact.arguments = entry.arguments
  span : artifact.span = entry.span
  instanceId : artifact.instanceId = entry.id
  signature : ∃ shared, catalog.find? entry.generic = some shared ∧
    shared.generic.Signs entry.arguments artifact.signature

namespace InstanceTable

variable {table : InstanceTable}

/-- The instances that have no artifact yet. -/
def waiting (table : InstanceTable) : List Instance :=
  table.instances.filter fun entry => !entry.emitted

theorem mem_waiting {entry : Instance} :
    entry ∈ table.waiting ↔ entry ∈ table.instances ∧ entry.emitted = false := by
  rw [waiting, List.mem_filter, Bool.not_eq_true']

namespace Coherent

theorem pending_sorted (coherent : table.Coherent) : table.pending.Pairwise (· < ·) := by
  have sublist : table.pending.Sublist (List.range table.size) := by
    rw [← coherent.ids]
    exact List.filter_sublist.map Instance.id
  exact List.pairwise_lt_range.sublist sublist

theorem pending_nodup (coherent : table.Coherent) : table.pending.Nodup :=
  coherent.pending_sorted.imp Nat.ne_of_lt

theorem instances_markAll_pending (coherent : table.Coherent) :
    (table.markAll table.pending).instances =
      table.instances.map fun entry => { entry with emitted := true } := by
  apply List.ext_getElem?
  intro place
  rw [List.getElem?_map]
  change (table.markAll table.pending).get? place = (table.get? place).map _
  rw [get?_markAll]
  cases found : table.get? place with
  | none => rfl
  | some entry =>
    rw [Option.map_some, Option.map_some]
    by_cases listed : place ∈ table.pending
    · rw [if_pos listed]
    · have marked : entry.emitted = true := by
        by_contra unmarked
        have member : entry ∈ table.waiting :=
          mem_waiting.mpr ⟨List.mem_of_getElem? found, Bool.eq_false_iff.mpr unmarked⟩
        exact listed (coherent.id_eq found ▸ List.mem_map_of_mem member)
      rw [if_neg listed, ← marked]

end Coherent

end InstanceTable

namespace Consistent

variable {catalog : Catalog} {table : InstanceTable} {store : ArtifactStore}

/-- The symbol of an instance that has no artifact yet is free. -/
theorem symbol_free (consistent : Consistent catalog table store) {place : Nat} {entry : Instance}
    (found : table.get? place = some entry) (unmarked : entry.emitted = false) :
    Symbol.name entry.generic entry.arguments ∉ store.reserved := by
  intro reserved
  obtain ⟨other, owner, foundOwner, marked, named⟩ := consistent.backed _ reserved
  obtain ⟨generic, arguments⟩ := Symbol.name_inj named
  have same := consistent.coherent.place_unique found foundOwner (Prod.ext generic arguments)
  rw [same, foundOwner] at found
  cases found
  rw [unmarked] at marked
  cases marked

theorem emit_waiting (consistent : Consistent catalog table store) {id : Nat} {entry : Instance}
    (found : table.get? id = some entry) (unmarked : entry.emitted = false) :
    ArtifactStore.emit catalog (table, store) id =
      (table.markEmitted id,
        store.push (entry.artifact catalog (Symbol.name entry.generic entry.arguments))) := by
  rcases ArtifactStore.emit_cases catalog table store id with
    ⟨missing, _⟩ | ⟨other, foundOther, skipped | ⟨_, round⟩⟩
  · rw [missing] at found
    cases found
  · rw [found] at foundOther
    cases foundOther
    exact absurd skipped.1 (consistent.symbol_free found unmarked)
  · rw [found] at foundOther
    cases foundOther
    exact round

/-- The rounds of a sweep over waiting instances each mark one and push its artifact. -/
theorem foldl_emit_waiting (consistent : Consistent catalog table store) {entries : List Instance}
    (distinct : (entries.map Instance.id).Nodup)
    (waiting : ∀ entry ∈ entries, table.get? entry.id = some entry ∧ entry.emitted = false) :
    ((entries.map Instance.id).foldl (ArtifactStore.emit catalog) (table, store)).1 =
        table.markAll (entries.map Instance.id) ∧
      ((entries.map Instance.id).foldl (ArtifactStore.emit catalog) (table, store)).2.held =
        store.held ++ entries.map fun entry =>
          entry.artifact catalog (Symbol.name entry.generic entry.arguments) := by
  induction entries generalizing table store with
  | nil => exact ⟨rfl, (List.append_nil _).symm⟩
  | cons entry rest ih =>
    obtain ⟨found, unmarked⟩ := waiting entry List.mem_cons_self
    have round := consistent.emit_waiting found unmarked
    have next := consistent.emit entry.id
    rw [round] at next
    rw [List.map_cons, List.nodup_cons] at distinct
    -- A round touches its own instance only, so the others wait on.
    have still : ∀ other ∈ rest, (table.markEmitted entry.id).get? other.id = some other ∧
        other.emitted = false := by
      intro other member
      have apart : entry.id ≠ other.id := fun same =>
        distinct.1 (same ▸ List.mem_map_of_mem member)
      rw [InstanceTable.get?_markEmitted, if_neg apart]
      exact waiting other (List.mem_cons_of_mem _ member)
    obtain ⟨marks, held⟩ := ih next distinct.2 still
    rw [List.map_cons, List.foldl_cons, round]
    refine ⟨marks, ?_⟩
    rw [held, ArtifactStore.held_push, List.append_assoc, List.map_cons, List.singleton_append]

theorem describes_artifact (consistent : Consistent catalog table store) {entry : Instance}
    (member : entry ∈ table.instances) :
    (entry.artifact catalog (Symbol.name entry.generic entry.arguments)).Describes catalog
      entry where
  name := rfl
  generic := rfl
  arguments := rfl
  span := rfl
  instanceId := rfl
  signature := consistent.signature_artifact member _

end Consistent

namespace CompilationUnit

section Sweep

variable {unit : CompilationUnit} (consistent : Consistent unit.catalog unit.table unit.store)

include consistent

theorem get?_waiting : ∀ entry ∈ unit.table.waiting,
    unit.table.get? entry.id = some entry ∧ entry.emitted = false := by
  intro entry member
  obtain ⟨listed, unmarked⟩ := InstanceTable.mem_waiting.mp member
  exact ⟨consistent.coherent.get?_id listed, unmarked⟩

theorem held_sweep : unit.sweep.2.artifacts = unit.artifacts ++ unit.table.waiting.map fun entry =>
    entry.artifact unit.catalog (Symbol.name entry.generic entry.arguments) :=
  (consistent.foldl_emit_waiting consistent.coherent.pending_nodup (get?_waiting consistent)).2

theorem made_sweep : unit.sweep.1 = unit.table.waiting.map fun entry =>
    entry.artifact unit.catalog (Symbol.name entry.generic entry.arguments) := by
  have held := held_sweep consistent
  change unit.sweep.2.artifacts.drop unit.artifacts.length = _
  rw [held, List.drop_left]

theorem table_sweep : unit.sweep.2.table =
    { unit.table with
      instances := unit.instances.map fun entry => { entry with emitted := true } } := by
  have marks : unit.sweep.2.table = unit.table.markAll unit.table.pending :=
    (consistent.foldl_emit_waiting consistent.coherent.pending_nodup (get?_waiting consistent)).1
  rw [marks, InstanceTable.markAll_eq, consistent.coherent.instances_markAll_pending]
  rfl

/-- When its turn comes, a waiting instance still waits and its symbol is still free. -/
theorem free_before {before after : List Nat} {id : Nat}
    (turn : unit.table.pending = before ++ id :: after) :
    ∃ entry, (before.foldl (ArtifactStore.emit unit.catalog) (unit.table, unit.store)).1.get? id =
        some entry ∧
      Symbol.name entry.generic entry.arguments ∉
        (before.foldl (ArtifactStore.emit unit.catalog) (unit.table, unit.store)).2.reserved := by
  obtain ⟨done, rest, split, rfl, remaining⟩ := List.map_eq_append_iff.mp turn
  obtain ⟨entry, others, rfl, rfl, _⟩ := List.map_eq_cons_iff.mp remaining
  have nodup := consistent.coherent.pending_nodup
  rw [turn, List.nodup_append] at nodup
  have waiting := get?_waiting consistent
  rw [show unit.table.waiting = _ from split] at waiting
  obtain ⟨found, unmarked⟩ := waiting entry (by simp)
  obtain ⟨marks, _⟩ := consistent.foldl_emit_waiting nodup.1 fun other member =>
    waiting other (List.mem_append_left _ member)
  have still : ((done.map Instance.id).foldl (ArtifactStore.emit unit.catalog)
      (unit.table, unit.store)).1.get? entry.id = some entry := by
    have absent : entry.id ∉ done.map Instance.id := fun member =>
      nodup.2.2 _ member _ List.mem_cons_self rfl
    rw [marks, InstanceTable.get?_markAll, found, Option.map_some, if_neg absent]
  exact ⟨entry, still, (consistent.foldl_emit _).symbol_free still unmarked⟩

end Sweep

/-- In every unit a sweep gives one artifact for each instance that has none, by ascending
number, and in no round is the symbol of the instance reserved already. All instances are
marked afterwards, nothing else in the table has changed, and a second sweep gives nothing. -/
theorem sweep_exact {unit : CompilationUnit} (reached : unit.Reachable) :
    List.Forall₂ (fun artifact entry => artifact.Describes unit.catalog entry) unit.sweep.1
      (unit.instances.filter fun entry => !entry.emitted) ∧
    (unit.sweep.1.map Artifact.instanceId).Pairwise (· < ·) ∧
    (∀ before id after, unit.table.pending = before ++ id :: after →
      ∃ entry,
        (before.foldl (ArtifactStore.emit unit.catalog) (unit.table, unit.store)).1.get? id =
          some entry ∧
        Symbol.name entry.generic entry.arguments ∉
          (before.foldl (ArtifactStore.emit unit.catalog) (unit.table, unit.store)).2.reserved) ∧
    unit.sweep.2.table =
      { unit.table with
        instances := unit.instances.map fun entry => { entry with emitted := true } } ∧
    unit.sweep.2.artifacts = unit.artifacts ++ unit.sweep.1 ∧
    unit.sweep.2.sweep.1 = [] := by
  have consistent := reached.consistent
  have made := made_sweep consistent
  have table := table_sweep consistent
  refine ⟨?_, ?_, fun before id after turn => free_before consistent turn, table, ?_, ?_⟩
  · rw [made, List.forall₂_map_left_iff]
    apply List.forall₂_same.mpr
    intro entry member
    exact consistent.describes_artifact (InstanceTable.mem_waiting.mp member).1
  · rw [made, List.map_map]
    exact consistent.coherent.pending_sorted
  · rw [made]
    exact held_sweep consistent
  · have again : unit.sweep.2.sweep.1 = unit.sweep.2.table.waiting.map _ :=
      made_sweep (consistent.foldl_emit unit.table.pending)
    rw [again, table, InstanceTable.waiting]
    simp

theorem boxes_swept :
    boxes.Reachable ∧ boxes.table.pending = [1] ∧
    (∃ artifact entry, boxes.sweep.1 = [artifact] ∧ boxes.table.get? 1 = some entry ∧
      artifact.Describes boxes.catalog entry ∧ entry.arguments = [.prim .char] ∧
      artifact.signature = some (.func [.prim .char] (.prim .char)) ∧
      Symbol.name entry.generic entry.arguments ∉ boxes.store.reserved) ∧
    boxes.sweep.2.sweep.1 = [] := by
  have pending : boxes.table.pending = [1] := by decide
  have made : ∃ artifact entry, boxes.sweep.1 = [artifact] ∧ boxes.table.get? 1 = some entry ∧
      (boxes.instances.filter fun entry => !entry.emitted) = [entry] ∧
      entry.arguments = [.prim .char] ∧
      artifact.signature = some (.func [.prim .char] (.prim .char)) :=
    ⟨_, _, rfl, rfl, rfl, rfl, rfl⟩
  obtain ⟨artifact, entry, swept, found, waiting, arguments, signature⟩ := made
  obtain ⟨described, _, free, _, _, again⟩ := sweep_exact reachable_boxes
  rw [swept, waiting, List.forall₂_cons] at described
  obtain ⟨other, there, unreserved⟩ := free [] 1 [] pending
  obtain rfl : entry = other := Option.some.inj (found.symm.trans there)
  exact ⟨reachable_boxes, pending,
    ⟨artifact, entry, swept, found, described.1, arguments, signature, unreserved⟩, again⟩

end CompilationUnit

end Monomorph
