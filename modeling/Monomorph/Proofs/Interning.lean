import Mathlib.Data.List.Find
import Mathlib.Data.List.Nodup
import Monomorph.Proofs.TableSteps

/-!
Interning. A table records its instances three times: in the list itself, in the places
of each generic, and as nodes of the expansion graph. The three agree in every unit, so
looking through the places of one generic is as good as looking through everything, and
a generic with given arguments never gets a second instance.
-/

namespace Monomorph

/-- What an instance is interned by. -/
def Instance.key (entry : Instance) : String × List Ty := (entry.generic, entry.arguments)

/-- The instance as it is after place `id` was marked. -/
def Instance.markedAt (id : Nat) (entry : Instance) : Instance :=
  if entry.id = id then { entry with emitted := true } else entry

section Marking

variable (id : Nat) (entry : Instance)

@[simp] theorem Instance.id_markedAt : (entry.markedAt id).id = entry.id := by
  unfold markedAt
  split <;> rfl

@[simp] theorem Instance.generic_markedAt : (entry.markedAt id).generic = entry.generic := by
  unfold markedAt
  split <;> rfl

@[simp] theorem Instance.key_markedAt : (entry.markedAt id).key = entry.key := by
  unfold markedAt
  split <;> rfl

end Marking

namespace InstanceTable

/-- The three records of the instances agree, and no key is there twice. -/
structure Coherent (table : InstanceTable) : Prop where
  ids : table.instances.map Instance.id = List.range table.size
  distinct : (table.instances.map Instance.key).Nodup
  indexed : ∀ generic, table.placesOf generic =
    (table.instances.filter fun entry => entry.generic == generic).map Instance.id
  nodes : table.expansion.order = table.size

namespace Coherent

variable {table : InstanceTable}

section Lookup

theorem id_eq (coherent : table.Coherent) {place : Nat} {entry : Instance}
    (found : table.get? place = some entry) : entry.id = place := by
  have listed := congrArg (fun ids => ids[place]?) coherent.ids
  have below : place < table.size := (List.getElem?_eq_some_iff.mp found).1
  simp only [List.getElem?_map, show table.instances[place]? = some entry from found,
    Option.map_some, List.getElem?_range below, Option.some.injEq] at listed
  exact listed

theorem get?_id (coherent : table.Coherent) {entry : Instance}
    (member : entry ∈ table.instances) : table.get? entry.id = some entry := by
  obtain ⟨place, found⟩ := List.mem_iff_getElem?.mp member
  rw [coherent.id_eq found]
  exact found

theorem place_unique (coherent : table.Coherent) {i j : Nat} {a b : Instance}
    (foundA : table.get? i = some a) (foundB : table.get? j = some b) (same : a.key = b.key) :
    i = j := by
  have equal : a = b := List.inj_on_of_nodup_map coherent.distinct
    (List.mem_of_getElem? foundA) (List.mem_of_getElem? foundB) same
  rw [← coherent.id_eq foundA, ← coherent.id_eq foundB, equal]

theorem instancesOf_eq (coherent : table.Coherent) (generic : String) :
    table.instancesOf generic =
      table.instances.filter fun entry => entry.generic == generic := by
  rw [instancesOf, coherent.indexed, List.filterMap_map]
  have looked : ∀ entry ∈ table.instances.filter fun entry => entry.generic == generic,
      (table.get? ∘ Instance.id) entry = some entry := fun entry member =>
    coherent.get?_id (List.mem_of_mem_filter member)
  rw [List.filterMap_congr looked, List.filterMap_some]

/-- Looking through the places of one generic finds what looking through all instances does. -/
theorem interned?_eq (coherent : table.Coherent) (generic : String) (arguments : List Ty) :
    table.interned? generic arguments =
      (table.instances.find? fun entry => decide (entry.key = (generic, arguments))).map
        Instance.id := by
  rw [interned?, coherent.indexed, List.find?_map, List.find?_filter]
  congr 1
  apply List.find?_congr
  intro entry member
  simp [coherent.get?_id member, Instance.key]

theorem interned?_eq_some_iff (coherent : table.Coherent) (generic : String)
    (arguments : List Ty) (place : Nat) :
    table.interned? generic arguments = some place ↔
      ∃ entry, table.get? place = some entry ∧ entry.key = (generic, arguments) := by
  rw [coherent.interned?_eq]
  constructor
  · intro found
    obtain ⟨entry, first, rfl⟩ := Option.map_eq_some_iff.mp found
    have key := List.find?_some first
    exact ⟨entry, coherent.get?_id (List.mem_of_find?_eq_some first), of_decide_eq_true key⟩
  · intro present
    obtain ⟨entry, found, key⟩ := present
    cases search : table.instances.find? fun entry => decide (entry.key = (generic, arguments)) with
    | none => simpa [key] using List.find?_eq_none.mp search entry (List.mem_of_getElem? found)
    | some first =>
      have firstKey := List.find?_some search
      have firstFound := coherent.get?_id (List.mem_of_find?_eq_some search)
      rw [Option.map_some, coherent.place_unique firstFound found
        ((of_decide_eq_true firstKey).trans key.symm)]

theorem interned?_eq_none_iff (coherent : table.Coherent) (generic : String)
    (arguments : List Ty) :
    table.interned? generic arguments = none ↔
      ∀ entry ∈ table.instances, entry.key ≠ (generic, arguments) := by
  rw [coherent.interned?_eq, Option.map_eq_none_iff, List.find?_eq_none]
  simp

end Lookup

section Steps

theorem empty (policy : Policy) : (InstanceTable.empty policy).Coherent where
  ids := rfl
  distinct := List.nodup_nil
  indexed _ := rfl
  nodes := rfl

/-- Faults, the policy and the edges of the expansion graph do not matter. -/
theorem of_same (coherent : table.Coherent) {other : InstanceTable}
    (instances : other.instances = table.instances) (places : other.places = table.places)
    (order : other.expansion.order = table.expansion.order) : other.Coherent where
  ids := by rw [size, instances]; exact coherent.ids
  distinct := by rw [instances]; exact coherent.distinct
  indexed generic := by rw [placesOf, places, instances]; exact coherent.indexed generic
  nodes := by rw [order, size, instances]; exact coherent.nodes

theorem push (coherent : table.Coherent) {entry : Instance} (next : entry.id = table.size)
    (fresh : table.interned? entry.generic entry.arguments = none) :
    (table.push entry).Coherent where
  ids := by
    rw [size, instances_push, List.map_append, coherent.ids, List.length_append,
      List.length_singleton, List.range_succ, List.map_singleton, next]
    rfl
  distinct := by
    have absent : entry.key ∉ table.instances.map Instance.key := by
      intro member
      obtain ⟨old, listed, same⟩ := List.mem_map.mp member
      exact (coherent.interned?_eq_none_iff _ _).mp fresh old listed same
    rw [instances_push, List.map_append, List.map_singleton, ← List.concat_eq_append]
    exact List.Nodup.concat absent coherent.distinct
  indexed generic := by
    rw [placesOf_push, instances_push, List.filter_append, List.map_append, coherent.indexed]
    by_cases same : entry.generic = generic
    · simp [same]
    · simp [same]
  nodes := by
    rw [expansion_push, Graph.order_addNode, coherent.nodes, size, size, instances_push,
      List.length_append, List.length_singleton]

theorem instances_markEmitted (coherent : table.Coherent) (id : Nat) :
    (table.markEmitted id).instances = table.instances.map (Instance.markedAt id) := by
  apply List.ext_getElem?
  intro place
  rw [List.getElem?_map]
  change (table.markEmitted id).get? place = (table.get? place).map _
  rw [get?_markEmitted]
  cases found : table.get? place with
  | none => simp
  | some entry =>
    rw [Option.map_some, Option.map_some, Instance.markedAt, coherent.id_eq found]
    by_cases same : id = place
    · rw [if_pos same, if_pos same.symm]
    · rw [if_neg same, if_neg fun equal => same equal.symm]

theorem markEmitted (coherent : table.Coherent) (id : Nat) : (table.markEmitted id).Coherent := by
  have instances := coherent.instances_markEmitted id
  have sizes : (table.markEmitted id).size = table.size := by
    rw [size, instances, List.length_map]
    rfl
  constructor
  · rw [sizes, instances, List.map_map, ← coherent.ids]
    exact List.map_congr_left fun entry _ => Instance.id_markedAt id entry
  · have keys : Instance.key ∘ Instance.markedAt id = Instance.key :=
      funext fun entry => Instance.key_markedAt id entry
    rw [instances, List.map_map, keys]
    exact coherent.distinct
  · intro generic
    change table.placesOf generic = _
    rw [coherent.indexed, instances, List.filter_map, List.map_map]
    simp [Function.comp_def]
  · rw [expansion_markEmitted, sizes]
    exact coherent.nodes

theorem of_step (coherent : table.Coherent) {next : InstanceTable} (step : table.Step next) :
    next.Coherent := by
  cases step with
  | note faults => exact coherent.of_same rfl rfl rfl
  | link parent child => exact coherent.of_same rfl rfl (Graph.order_addEdge _ _ _)
  | enter place fresh => exact coherent.push place fresh
  | mark id => exact coherent.markEmitted id

theorem of_steps (coherent : table.Coherent) {later : InstanceTable} (steps : table.Steps later) :
    later.Coherent := by
  induction steps with
  | refl => exact coherent
  | tail _ step ih => exact ih.of_step step

end Steps

end Coherent

end InstanceTable

namespace CompilationUnit

open InstanceTable

variable {unit : CompilationUnit}

theorem Reachable.coherent (reached : unit.Reachable) : unit.table.Coherent := by
  induction reached with
  | empty traits policy => exact Coherent.empty policy
  | @change unit change _ _ coherent _ => exact coherent.of_steps (unit.steps_after change)

/-- In every unit an instance has the number of its place, no generic has two instances
with the same arguments, and the places kept for a generic are those of its instances in
the order of their creation. So two numbers are equal just when they stand for the same
generic and arguments. -/
theorem instances_interned (reached : unit.Reachable) :
    (∀ (place : Nat) (entry : Instance), unit.instances[place]? = some entry → entry.id = place) ∧
    (unit.instances.map fun entry => (entry.generic, entry.arguments)).Nodup ∧
    (∀ generic, (unit.table.placesOf generic).map unit.table.get? =
        (unit.instances.filter fun entry => entry.generic == generic).map some ∧
      unit.table.instancesOf generic =
        unit.instances.filter fun entry => entry.generic == generic) ∧
    unit.table.expansion.order = unit.instances.length ∧
    ∀ i j a b, unit.table.get? i = some a → unit.table.get? j = some b →
      (i = j ↔ a.generic = b.generic ∧ a.arguments = b.arguments) := by
  have coherent := reached.coherent
  refine ⟨fun place entry found => coherent.id_eq found, coherent.distinct, ?_, coherent.nodes, ?_⟩
  · intro generic
    refine ⟨?_, coherent.instancesOf_eq generic⟩
    rw [coherent.indexed, List.map_map]
    exact List.map_congr_left fun entry member =>
      coherent.get?_id (List.mem_of_mem_filter member)
  · intro i j a b foundA foundB
    constructor
    · intro same
      subst same
      rw [foundA] at foundB
      cases foundB
      exact ⟨rfl, rfl⟩
    · intro same
      exact coherent.place_unique foundA foundB (Prod.ext same.1 same.2)

theorem boxes_interned :
    boxes.Reachable ∧ boxes.instances.map Instance.id = [0, 1, 2] ∧
    boxes.table.instancesOf "Box" = boxes.instances.filter (fun entry => entry.generic == "Box") ∧
    ∃ a b, boxes.table.get? 0 = some a ∧ boxes.table.get? 2 = some b ∧
      (0 = 2 ↔ a.generic = b.generic ∧ a.arguments = b.arguments) := by
  obtain ⟨_, _, listed, _, told⟩ := instances_interned reachable_boxes
  refine ⟨reachable_boxes, by decide, (listed "Box").2, _, _, rfl, rfl, ?_⟩
  exact told 0 2 _ _ rfl rfl

end CompilationUnit

end Monomorph
