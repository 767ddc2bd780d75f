import Mathlib.Logic.Relation
import Monomorph.Proofs.Reachable

/-!
What can happen to an instance table. Every change of a unit affects its table by a
sequence of elementary steps: faults are noted, an edge is added, a new instance enters
at the next place, or an instance is marked. An invariant of tables has to be shown for
these four steps only.
-/

namespace Monomorph

namespace InstanceTable

/-- An elementary change of a table. -/
inductive Step (table : InstanceTable) : InstanceTable → Prop
  | note (faults : List Fault) : Step table { table with faults := faults }
  | link (parent child : Nat) : Step table (table.addExpansion parent child)
  | enter {entry : Instance} (next : entry.id = table.size)
      (fresh : table.interned? entry.generic entry.arguments = none) :
      Step table (table.push entry)
  | mark (id : Nat) : Step table (table.markEmitted id)

abbrev Steps : InstanceTable → InstanceTable → Prop := Relation.ReflTransGen Step

/-- A loop whose rounds are steps on a table is itself a sequence of steps. -/
theorem steps_foldl {α σ : Type} {next : σ → α → σ} (view : σ → InstanceTable)
    (round : ∀ state item, Steps (view state) (view (next state item))) (list : List α)
    (state : σ) : Steps (view state) (view (list.foldl next state)) := by
  induction list generalizing state with
  | nil => exact .refl
  | cons item rest ih => exact (round state item).trans (ih (next state item))

theorem policy_of_steps {table later : InstanceTable} (steps : table.Steps later) :
    later.policy = table.policy := by
  induction steps with
  | refl => rfl
  | tail _ step ih => cases step <;> exact ih

section Marks

def markAll (table : InstanceTable) (ids : List Nat) : InstanceTable :=
  ids.foldl markEmitted table

/-- Marking changes nothing but the instances. -/
theorem markAll_eq (table : InstanceTable) (ids : List Nat) :
    table.markAll ids = { table with instances := (table.markAll ids).instances } := by
  induction ids generalizing table with
  | nil => rfl
  | cons id rest ih => exact ih (table.markEmitted id)

/-- The new places of the instances that were marked where they came from. -/
def absorbedMarks (renumbering : Renumbering) (entries : List Instance) : List Nat :=
  (renumbering.zip entries).filterMap fun pair => if pair.2.emitted then pair.1 else none

theorem markAbsorbed_eq (table : InstanceTable) (renumbering : Renumbering)
    (entries : List Instance) :
    table.markAbsorbed renumbering entries = table.markAll (absorbedMarks renumbering entries) := by
  unfold markAbsorbed absorbedMarks
  induction renumbering.zip entries generalizing table with
  | nil => rfl
  | cons pair rest ih =>
    obtain ⟨place, entry⟩ := pair
    rw [List.foldl_cons, List.filterMap_cons, ih]
    cases place <;> cases entry.emitted <;> rfl

theorem steps_markAll (table : InstanceTable) (ids : List Nat) : Steps table (table.markAll ids) :=
  steps_foldl id (fun _ id => .single (.mark id)) ids table

end Marks

section Requests

variable (table : InstanceTable)

theorem steps_record (fault : Fault) : Steps table (table.record fault) :=
  .single (.note _)

theorem steps_linkParent (parent : Option Nat) (child : Nat) :
    Steps table (table.linkParent parent child) := by
  cases parent with
  | none => exact .refl
  | some parent => exact .single (.link parent child)

theorem steps_settle (request : Request) : Steps table (table.settle request).2 := by
  unfold settle
  split
  next id _ => exact table.steps_linkParent request.parent id
  next absent =>
    dsimp only
    split
    next => exact .head (.enter rfl absent) (steps_linkParent _ request.parent table.size)
    next => exact table.steps_record _

theorem steps_request (catalog : Catalog) (traits : TraitAuthority) (request : Request) :
    Steps table (table.request catalog traits request).2 := by
  unfold InstanceTable.request
  dsimp only
  split
  next fault _ => exact table.steps_record fault
  next => exact table.steps_settle request

end Requests

section Absorption

theorem steps_adopt (accepted : String → Bool) (state : InstanceTable × Renumbering)
    (entry : Instance) : Steps state.1 (adopt accepted state entry).1 := by
  unfold adopt
  dsimp only
  split
  next =>
    split
    next => exact .refl
    next absent => exact .single (.enter rfl absent)
  next => exact .refl

theorem steps_adoptEdge (renumbering : Renumbering) (table : InstanceTable) (edge : Nat × Nat) :
    Steps table (adoptEdge renumbering table edge) := by
  unfold adoptEdge
  split
  next source target _ _ => exact .single (.link source target)
  next => exact .refl

/-- The instances of the other table are taken over first. -/
theorem steps_absorb_adopted (table other : InstanceTable) (accepted : String → Bool) :
    Steps (other.instances.foldl (adopt accepted) (table, [])).1
      (table.absorb other accepted).1 := by
  have linked := steps_foldl id
    (steps_adoptEdge (other.instances.foldl (adopt accepted) (table, [])).2)
    other.expansion.edges (other.instances.foldl (adopt accepted) (table, [])).1
  exact linked.tail (.note _)

theorem steps_absorb (table other : InstanceTable) (accepted : String → Bool) :
    Steps table (table.absorb other accepted).1 := by
  have adopted : Steps table (other.instances.foldl (adopt accepted) (table, [])).1 :=
    steps_foldl Prod.fst (steps_adopt accepted) other.instances (table, [])
  exact adopted.trans (table.steps_absorb_adopted other accepted)

end Absorption

end InstanceTable

/-- What a round of a sweep does: a missing instance is passed over, a present one is marked,
and it gets an artifact unless its symbol is reserved. -/
theorem ArtifactStore.emit_cases (catalog : Catalog) (table : InstanceTable) (store : ArtifactStore)
    (id : Nat) :
    (table.get? id = none ∧ emit catalog (table, store) id = (table, store)) ∨
    ∃ entry, table.get? id = some entry ∧
      (Symbol.name entry.generic entry.arguments ∈ store.reserved ∧
          emit catalog (table, store) id = (table.markEmitted id, store) ∨
        Symbol.name entry.generic entry.arguments ∉ store.reserved ∧
          emit catalog (table, store) id = (table.markEmitted id,
            store.push (entry.artifact catalog (Symbol.name entry.generic entry.arguments)))) := by
  cases found : table.get? id with
  | none => exact Or.inl ⟨rfl, by simp only [emit, found]⟩
  | some entry =>
    refine Or.inr ⟨entry, rfl, ?_⟩
    by_cases reserved : Symbol.name entry.generic entry.arguments ∈ store.reserved
    · exact Or.inl ⟨reserved, by simp only [emit, found, List.contains_iff_mem, if_pos reserved]⟩
    · exact Or.inr ⟨reserved, by simp only [emit, found, List.contains_iff_mem, if_neg reserved]⟩

namespace CompilationUnit

open InstanceTable

variable (unit : CompilationUnit)

theorem steps_register (shared : SharedGeneric) :
    Steps unit.table (unit.register shared).2.table := by
  unfold register
  split
  next => exact .refl
  next fault _ => exact unit.table.steps_record fault

theorem steps_accept (state : CompilationUnit × List String) (shared : SharedGeneric) :
    Steps state.1.table (accept state shared).1.table := by
  have registered := state.1.steps_register shared
  unfold accept
  dsimp only
  split
  next => exact .refl
  next =>
    split
    next outcome => rw [outcome] at registered; exact registered
    next outcome => rw [outcome] at registered; exact registered

theorem steps_merge (other : CompilationUnit) :
    Steps unit.table (unit.merge other).table := by
  have registered : Steps unit.table (other.catalog.registered.foldl accept (unit, [])).1.table :=
    steps_foldl (fun state => state.1.table) steps_accept other.catalog.registered (unit, [])
  have absorbed := registered.trans (steps_absorb _ other.table
    (other.catalog.registered.foldl accept (unit, [])).2.contains)
  refine absorbed.trans ?_
  change Steps _ (markAbsorbed _ _ _)
  rw [markAbsorbed_eq]
  exact steps_markAll _ _

theorem steps_emit (catalog : Catalog) (state : InstanceTable × ArtifactStore) (id : Nat) :
    Steps state.1 (ArtifactStore.emit catalog state id).1 := by
  obtain ⟨table, store⟩ := state
  rcases ArtifactStore.emit_cases catalog table store id with
    ⟨_, round⟩ | ⟨entry, _, ⟨_, round⟩ | ⟨_, round⟩⟩
  · rw [round]
  · rw [round]
    exact .single (.mark id)
  · rw [round]
    exact .single (.mark id)

theorem steps_after (change : Change) : Steps unit.table (unit.after change).table := by
  cases change with
  | register shared => exact unit.steps_register shared
  | request request => exact unit.table.steps_request unit.catalog unit.traits request
  | requestWithDefaults request =>
    exact unit.table.steps_request unit.catalog unit.traits (request.withDefaults unit.catalog)
  | sweep =>
    exact steps_foldl Prod.fst (steps_emit unit.catalog) unit.table.pending (unit.table, unit.store)
  | takeArtifacts => exact .refl
  | takeFaults => exact .single (.note [])
  | merge other => exact unit.steps_merge other

theorem steps_afterAll (changes : List Change) :
    Steps unit.table (unit.afterAll changes).table :=
  steps_foldl CompilationUnit.table steps_after changes unit

/-- Elementary steps lead from an empty table to that of any unit. -/
theorem Reachable.steps {unit : CompilationUnit} (reached : unit.Reachable) :
    ∃ policy, (InstanceTable.empty policy).Steps unit.table := by
  induction reached with
  | empty traits policy => exact ⟨policy, .refl⟩
  | @change unit change _ _ before _ =>
    obtain ⟨policy, steps⟩ := before
    exact ⟨policy, steps.trans (unit.steps_after change)⟩

end CompilationUnit

end Monomorph
