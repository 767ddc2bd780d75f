import Monomorph.Proofs.Interning

/-!
Tables only grow. An instance keeps its place and all it was made with; the one thing
that can happen to it is that it is marked. So what was interned stays interned, and
what an earlier table says about a place the later ones confirm. Edges stay as well.
-/

namespace Monomorph

/-- The same instance at a later time. It may have been marked meanwhile. -/
structure Instance.Becomes (entry later : Instance) : Prop where
  same : later = { entry with emitted := later.emitted }
  marked : entry.emitted = true → later.emitted = true

namespace Instance.Becomes

variable {entry later last : Instance}

theorem refl (entry : Instance) : entry.Becomes entry := ⟨rfl, fun emitted => emitted⟩

theorem trans (first : entry.Becomes later) (second : later.Becomes last) :
    entry.Becomes last where
  same := by
    have final := second.same
    rw [first.same] at final
    exact final
  marked := fun emitted => second.marked (first.marked emitted)

theorem generic (becomes : entry.Becomes later) : later.generic = entry.generic := by
  rw [becomes.same]

theorem arguments (becomes : entry.Becomes later) : later.arguments = entry.arguments := by
  rw [becomes.same]

theorem key (becomes : entry.Becomes later) : later.key = entry.key := by
  rw [becomes.same]
  rfl

theorem id (becomes : entry.Becomes later) : later.id = entry.id := by
  rw [becomes.same]

theorem depth (becomes : entry.Becomes later) : later.depth = entry.depth := by
  rw [becomes.same]

theorem requestedBy (becomes : entry.Becomes later) : later.requestedBy = entry.requestedBy := by
  rw [becomes.same]

end Instance.Becomes

theorem Graph.prefix_edges_addEdge (graph : Graph) (source target : Nat) :
    graph.edges <+: (graph.addEdge source target).edges := by
  unfold addEdge
  split
  next => exact List.prefix_append _ _
  next => exact List.prefix_refl _

namespace InstanceTable

def Grows (table later : InstanceTable) : Prop :=
  ∀ place entry, table.get? place = some entry →
    ∃ next, later.get? place = some next ∧ entry.Becomes next

theorem Grows.refl (table : InstanceTable) : table.Grows table :=
  fun _ entry found => ⟨entry, found, .refl entry⟩

theorem Grows.trans {table later last : InstanceTable} (first : table.Grows later)
    (second : later.Grows last) : table.Grows last := by
  intro place entry found
  obtain ⟨next, foundNext, becomes⟩ := first place entry found
  obtain ⟨final, foundFinal, becomesFinal⟩ := second place next foundNext
  exact ⟨final, foundFinal, becomes.trans becomesFinal⟩

theorem Grows.of_extended {table later : InstanceTable}
    (extended : table.instances <+: later.instances) : table.Grows later := by
  intro place entry found
  obtain ⟨added, instances⟩ := extended
  have below : place < table.instances.length := (List.getElem?_eq_some_iff.mp found).1
  refine ⟨entry, ?_, .refl entry⟩
  rw [get?, ← instances, List.getElem?_append_left below]
  exact found

theorem grows_markEmitted (table : InstanceTable) (id : Nat) :
    table.Grows (table.markEmitted id) := by
  intro place entry found
  rw [get?_markEmitted, found]
  by_cases same : id = place
  · exact ⟨_, if_pos same, ⟨rfl, fun _ => rfl⟩⟩
  · exact ⟨entry, if_neg same, .refl entry⟩

theorem grows_of_step {table next : InstanceTable} (step : table.Step next) : table.Grows next := by
  cases step with
  | note faults => exact .of_extended (List.prefix_refl _)
  | link parent child => exact .of_extended (List.prefix_refl _)
  | enter place fresh => exact .of_extended (List.prefix_append _ _)
  | mark id => exact table.grows_markEmitted id

theorem grows_of_steps {table later : InstanceTable} (steps : table.Steps later) :
    table.Grows later := by
  induction steps with
  | refl => exact .refl table
  | tail _ step ih => exact ih.trans (grows_of_step step)

/-- Once interned, always interned, and at the same place. -/
theorem interned?_of_steps {table later : InstanceTable} (coherent : table.Coherent)
    (steps : table.Steps later) {generic : String} {arguments : List Ty} {place : Nat}
    (interned : table.interned? generic arguments = some place) :
    later.interned? generic arguments = some place := by
  obtain ⟨entry, found, key⟩ := (coherent.interned?_eq_some_iff _ _ _).mp interned
  obtain ⟨next, foundNext, becomes⟩ := grows_of_steps steps place entry found
  have laterCoherent := coherent.of_steps steps
  exact (laterCoherent.interned?_eq_some_iff _ _ _).mpr ⟨next, foundNext, becomes.key.trans key⟩

/-- What stands at a place of the earlier table is an old instance. -/
theorem old_of_steps {table later : InstanceTable} (coherent : table.Coherent)
    (steps : table.Steps later) {entry : Instance} (member : entry ∈ later.instances)
    (below : entry.id < table.size) : ∃ old ∈ table.instances, old.Becomes entry := by
  have found : table.get? entry.id = some table.instances[entry.id] :=
    List.getElem?_eq_getElem below
  obtain ⟨next, foundNext, becomes⟩ := grows_of_steps steps _ _ found
  rw [(coherent.of_steps steps).get?_id member] at foundNext
  cases foundNext
  exact ⟨_, List.getElem_mem below, becomes⟩

/-- No edge is ever removed, and edges keep their order. -/
theorem edges_of_steps {table later : InstanceTable} (steps : table.Steps later) :
    table.expansion.edges <+: later.expansion.edges := by
  induction steps with
  | refl => exact List.prefix_refl _
  | @tail before _ _ step ih =>
    cases step with
    | note faults => exact ih
    | link parent child => exact ih.trans (before.expansion.prefix_edges_addEdge parent child)
    | enter place fresh => exact ih
    | mark id => exact ih

theorem get?_markAll (table : InstanceTable) (ids : List Nat) (place : Nat) :
    (table.markAll ids).get? place =
      (table.get? place).map fun entry =>
        if place ∈ ids then { entry with emitted := true } else entry := by
  induction ids generalizing table with
  | nil => simp [markAll]
  | cons id rest ih =>
    change ((table.markEmitted id).markAll rest).get? place = _
    rw [ih, get?_markEmitted]
    by_cases same : id = place
    · rw [if_pos same, Option.map_map]
      simp [same, Function.comp_def]
    · have other : place ≠ id := fun equal => same equal.symm
      simp [same, other]

end InstanceTable

end Monomorph
