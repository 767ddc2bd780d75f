import Monomorph.Proofs.Absorption
import Monomorph.Proofs.Consistency

/-!
A merge is a union. Nothing of the unit moves: what the other unit adds comes behind it, in the
other unit's order, and only where the unit has no such declaration or instance yet. Marks and
edges of the two units are joined, and every conflict leaves a fault between the faults of the
one unit and those of the other.
-/

namespace Monomorph

/-- The instance as it was before any artifact was made for it. -/
def Instance.unmarked (entry : Instance) : Instance := { entry with emitted := false }

namespace Catalog

/-- What a conflict leaves is a fault that points at both declarations. -/
theorem filterMap_conflict? (catalog : Catalog) (incoming : List SharedGeneric) :
    incoming.filterMap catalog.conflict? =
      (incoming.filter fun shared => !catalog.accepts shared).map fun shared =>
        .duplicateGeneric shared.name (shared.generic.span.map Span.extent)
          ((catalog.find? shared.name).bind fun existing =>
            existing.generic.span.map Span.extent) := by
  induction incoming with
  | nil => rfl
  | cons shared rest ih =>
    rw [List.filterMap_cons, ih, List.filter_cons, accepts, conflict?]
    cases known : catalog.find? shared.name with
    | none => rfl
    | some existing =>
      by_cases same : existing = shared
      · simp [same]
      · simp [same, known]

end Catalog

namespace InstanceTable

variable {table other : InstanceTable}

theorem map_unmarked_markAll (table : InstanceTable) (ids : List Nat) :
    (table.markAll ids).instances.map Instance.unmarked =
      table.instances.map Instance.unmarked := by
  apply List.ext_getElem?
  intro place
  rw [List.getElem?_map, List.getElem?_map]
  change ((table.markAll ids).get? place).map _ = (table.get? place).map _
  rw [get?_markAll, Option.map_map]
  congr 1
  funext entry
  change Instance.unmarked (if _ then _ else _) = _
  split <;> rfl

/-- Adopting instances adds no edge and no fault. -/
theorem frame_adopting (table other : InstanceTable) (accepted : String → Bool) :
    (table.adopting other accepted).1.expansion.edges = table.expansion.edges ∧
      (table.adopting other accepted).1.faults = table.faults := by
  apply List.foldlRecOn (motive := fun state : InstanceTable × Renumbering =>
    state.1.expansion.edges = table.expansion.edges ∧ state.1.faults = table.faults)
    other.instances (adopt accepted) ⟨rfl, rfl⟩
  intro state before entry _
  obtain ⟨adopted, renumbering⟩ := state
  by_cases taken : accepted entry.generic = true
  · cases known : adopted.interned? entry.generic entry.arguments with
    | some place =>
      rw [adopt_known renumbering taken known]
      exact before
    | none =>
      rw [adopt_new renumbering taken known]
      exact before
  · rw [adopt_refused renumbering taken]
    exact before

end InstanceTable

namespace CompilationUnit

/-- The instances that the other unit adds: their generic is accepted, and the unit has none
of the same generic and arguments. -/
def newcomers (unit other : CompilationUnit) : List Instance :=
  other.instances.filter fun entry =>
    decide (entry.generic ∈ unit.acceptedNames other) &&
      decide (entry.key ∉ unit.instances.map Instance.key)

/-- What an instance stands for in its unit: the declaration it is of, and its arguments. -/
def meaning (unit : CompilationUnit) (entry : Instance) : Option SharedGeneric × List Ty :=
  (unit.catalog.find? entry.generic, entry.arguments)

/-- Instances mean the same in two units if their keys are equal and name one declaration. -/
theorem meaning_eq_iff {unit later : CompilationUnit} {entry found : Instance}
    {shared : SharedGeneric} (known : unit.catalog.find? entry.generic = some shared) :
    unit.meaning entry = later.meaning found ↔
      later.catalog.find? entry.generic = some shared ∧ entry.key = found.key := by
  constructor
  · intro same
    have here : later.catalog.find? found.generic = some shared :=
      (congrArg Prod.fst same).symm.trans known
    have generic : entry.generic = found.generic :=
      (Catalog.name_of_find? known).symm.trans (Catalog.name_of_find? here)
    have arguments : entry.arguments = found.arguments := congrArg Prod.snd same
    exact ⟨generic ▸ here, Prod.ext generic arguments⟩
  · rintro ⟨here, key⟩
    have generic : entry.generic = found.generic := congrArg Prod.fst key
    have arguments : entry.arguments = found.arguments := congrArg Prod.snd key
    rw [meaning, meaning, known, ← generic, here, arguments]

section Union

variable {unit other : CompilationUnit}
  (own : Consistent unit.catalog unit.table unit.store)
  (incoming : Consistent other.catalog other.table other.store)

include incoming

theorem carried_meaning_iff {theirs later : Instance} (member : theirs ∈ other.instances) :
    other.meaning theirs = (unit.merge other).meaning later ↔
      theirs.generic ∈ unit.acceptedNames other ∧ theirs.key = later.key := by
  obtain ⟨shared, known⟩ := incoming.declared theirs member
  rw [meaning_eq_iff known, mem_acceptedNames_iff incoming.distinct, known]
  simp

include own

theorem own_meaning_iff {mine later : Instance} (member : mine ∈ unit.instances) :
    unit.meaning mine = (unit.merge other).meaning later ↔ mine.key = later.key := by
  obtain ⟨shared, known⟩ := own.declared mine member
  have kept : (unit.merge other).catalog.find? mine.generic = some shared := by
    rw [find?_merge incoming.distinct, known, Option.some_or]
  rw [meaning_eq_iff known]
  exact and_iff_right kept

/-- The instances of the merged unit, apart from their marks. -/
theorem map_unmarked_merge :
    (unit.merge other).instances.map Instance.unmarked =
      unit.instances.map Instance.unmarked ++
        (unit.newcomers other).mapIdx fun offset entry =>
          { entry.unmarked with
            id := unit.table.size + offset
            requestedBy := entry.requestedBy.bind fun parent =>
              if parent < entry.id then unit.newPlace other parent else none } := by
  have registered : (unit.registering other.catalog.registered).table.Coherent :=
    own.coherent.of_same rfl rfl rfl
  have numbered : other.instances.map Instance.id = List.range' 0 other.instances.length := by
    rw [← List.range_eq_range']
    exact incoming.coherent.ids
  have adopted := InstanceTable.instances_foldl_adopt (unit.acceptedNames other).contains
    (show ((unit.registering other.catalog.registered).table,
      ([] : Renumbering)).1.Coherent from registered) numbered incoming.coherent.distinct
  have fresh : (other.instances.filter fun entry =>
      (unit.acceptedNames other).contains entry.generic &&
        (unit.table.interned? entry.generic entry.arguments).isNone) = unit.newcomers other := by
    apply List.filter_congr
    intro entry _
    rw [Bool.eq_iff_iff, Bool.and_eq_true, Bool.and_eq_true, List.contains_iff_mem,
      Option.isNone_iff_eq_none, own.coherent.interned?_eq_none_iff]
    simp [Instance.key, instances]
  have asked (entry : Instance) :
      Renumbering.apply ((unit.absorbing other).2.take entry.id) = fun parent =>
        if parent < entry.id then unit.newPlace other parent else none := by
    funext parent
    rw [Renumbering.apply_take, apply_absorbing incoming.distinct own.coherent]
  have absorbed : (unit.absorbing other).1.instances = unit.instances ++
      (unit.newcomers other).mapIdx fun offset entry =>
        { entry with
          id := unit.table.size + offset
          requestedBy := entry.requestedBy.bind fun parent =>
            if parent < entry.id then unit.newPlace other parent else none } := by
    rw [← fresh]
    simp only [← asked]
    rw [absorbing, InstanceTable.absorb_eq]
    exact adopted
  change (unit.merge other).table.instances.map _ = _
  rw [table_merge incoming.distinct, InstanceTable.map_unmarked_markAll, absorbed, List.map_append,
    List.mapIdx_eq_zipIdx_map, List.map_map, List.mapIdx_eq_zipIdx_map]
  rfl

/-- An instance is marked in the merged unit exactly if one of the two units marked it. -/
theorem emitted_merge_iff {later : Instance} (member : later ∈ (unit.merge other).instances) :
    later.emitted = true ↔
      (∃ mine ∈ unit.instances, mine.key = later.key ∧ mine.emitted = true) ∨
        ∃ theirs ∈ other.instances, (theirs.generic ∈ unit.acceptedNames other ∧
          theirs.key = later.key) ∧ theirs.emitted = true := by
  have steps := unit.steps_merge other
  have merged : (unit.merge other).table.Coherent := own.coherent.of_steps steps
  have found : (unit.merge other).table.get? later.id = some later := merged.get?_id member
  constructor
  · intro emitted
    have made := found
    rw [table_merge incoming.distinct, InstanceTable.get?_markAll] at made
    obtain ⟨before, there, now⟩ := Option.map_eq_some_iff.mp made
    by_cases noted : later.id ∈ InstanceTable.absorbedMarks (unit.absorbing other).2 other.instances
    · rw [(absorbing_renumbering incoming.distinct own.coherent).1,
        InstanceTable.mem_absorbedMarks] at noted
      obtain ⟨theirs, listed, marked, placed⟩ := noted
      have carried : unit.newPlace other theirs.id = some later.id := by
        rw [newPlace, incoming.coherent.get?_id listed]
        exact placed
      obtain ⟨same, here, sameThere, accepted, foundHere, key⟩ :=
        (newPlace_eq_some_iff own.coherent).mp carried
      rw [incoming.coherent.get?_id listed] at sameThere
      cases sameThere
      rw [found] at foundHere
      cases foundHere
      exact Or.inr ⟨theirs, listed, ⟨accepted, key.symm⟩, marked⟩
    · rw [if_neg noted] at now
      subst now
      rcases InstanceTable.mem_absorb (List.mem_of_getElem? there) with
        old | ⟨source, listed, taken, copy⟩
      · exact Or.inl ⟨before, old, rfl, emitted⟩
      · refine Or.inr ⟨source, listed, ⟨List.contains_iff_mem.mp taken, ?_⟩, ?_⟩
        · rw [copy]
          rfl
        · rw [copy] at emitted
          exact emitted
  · rintro (⟨mine, listed, key, marked⟩ | ⟨theirs, listed, ⟨accepted, key⟩, marked⟩)
    · obtain ⟨next, foundNext, becomes⟩ :=
        InstanceTable.grows_of_steps steps mine.id mine (own.coherent.get?_id listed)
      have place := merged.place_unique foundNext found (becomes.key.trans key)
      rw [place, found] at foundNext
      cases foundNext
      exact becomes.marked marked
    · have carried : (unit.merge other).table.placeOf (unit.acceptedNames other).contains theirs =
          some later.id := by
        rw [InstanceTable.placeOf, if_pos (List.contains_iff_mem.mpr accepted)]
        exact (merged.interned?_eq_some_iff _ _ _).mpr ⟨later, found, key.symm⟩
      obtain ⟨same, foundSame, emitted, _⟩ :=
        marked_merge incoming.distinct own.coherent listed marked carried
      rw [found] at foundSame
      cases foundSame
      exact emitted

theorem mem_edges_merge (edge : Nat × Nat) :
    edge ∈ (unit.merge other).table.expansion.edges ↔
      edge ∈ unit.table.expansion.edges ∨ ∃ old ∈ other.table.expansion.edges,
        unit.newPlace other old.1 = some edge.1 ∧ unit.newPlace other old.2 = some edge.2 := by
  have registered : (unit.registering other.catalog.registered).table.Coherent :=
    own.coherent.of_same rfl rfl rfl
  have edges := ((unit.registering other.catalog.registered).table.frame_adopting other.table
    (unit.acceptedNames other).contains).1
  have moved (old : Nat × Nat) : (unit.absorbing other).2.carryEdge old = some edge ↔
      unit.newPlace other old.1 = some edge.1 ∧ unit.newPlace other old.2 = some edge.2 := by
    rw [Renumbering.carryEdge_eq_some_iff, apply_absorbing incoming.distinct own.coherent,
      apply_absorbing incoming.distinct own.coherent]
  simp only [← moved]
  rw [table_merge incoming.distinct, InstanceTable.markAll_eq, absorbing, InstanceTable.absorb_eq]
  change edge ∈ (Graph.addEdges _ _).edges ↔ _
  rw [Graph.mem_edges_addEdges, edges, List.mem_filterMap]
  apply or_congr_right
  constructor
  · exact And.left
  · intro carried
    refine ⟨carried, ?_⟩
    obtain ⟨_, _, movedEdge⟩ := carried
    exact InstanceTable.carried_lt registered movedEdge

omit own in
theorem faults_merge :
    (unit.merge other).faults = unit.faults ++
      (other.catalog.registered.filter fun shared => !unit.catalog.accepts shared).map
        (fun shared => .duplicateGeneric shared.name (shared.generic.span.map Span.extent)
          ((unit.catalog.find? shared.name).bind fun existing =>
            existing.generic.span.map Span.extent)) ++ other.faults := by
  have faults := ((unit.registering other.catalog.registered).table.frame_adopting other.table
    (unit.acceptedNames other).contains).2
  change (unit.merge other).table.faults = _
  rw [table_merge incoming.distinct, InstanceTable.markAll_eq, absorbing, InstanceTable.absorb_eq,
    ← Catalog.filterMap_conflict?]
  change InstanceTable.faults (InstanceTable.adopting _ _ _).1 ++ other.faults = _
  rw [faults]
  rfl

end Union

/-- What a merge makes of two units, where a declaration of the other unit is accepted if its
name is free or names the very same declaration. The unit's declarations and instances keep
their places. Behind them come the other unit's declarations with new names and its new
instances of accepted declarations, each in its order; who asked for an instance is carried
over with it. An instance is marked if the instance of the same declaration and arguments is
marked in either unit. The edges are the unit's and those of the other unit between carried
instances. The faults are the unit's, then one for each conflict, then the other unit's. -/
theorem merge_is_union {unit other : CompilationUnit} (reached : unit.Reachable)
    (otherReached : other.Reachable) :
    (unit.merge other).catalog.registered = unit.catalog.registered ++
      (other.catalog.registered.filter fun shared => (unit.catalog.find? shared.name).isNone) ∧
    (unit.merge other).instances.map Instance.unmarked =
      unit.instances.map Instance.unmarked ++
        (unit.newcomers other).mapIdx (fun offset entry =>
          { entry.unmarked with
            id := unit.instances.length + offset
            requestedBy := entry.requestedBy.bind fun parent =>
              if parent < entry.id then unit.newPlace other parent else none }) ∧
    (∀ later ∈ (unit.merge other).instances, (later.emitted = true ↔
      (∃ mine ∈ unit.instances,
        unit.meaning mine = (unit.merge other).meaning later ∧ mine.emitted = true) ∨
      ∃ theirs ∈ other.instances,
        other.meaning theirs = (unit.merge other).meaning later ∧ theirs.emitted = true)) ∧
    (∀ id place, unit.newPlace other id = some place ↔
      ∃ theirs later, other.table.get? id = some theirs ∧
        theirs.generic ∈ unit.acceptedNames other ∧
        (unit.merge other).table.get? place = some later ∧ later.key = theirs.key) ∧
    (∀ edge, edge ∈ (unit.merge other).table.expansion.edges ↔
      edge ∈ unit.table.expansion.edges ∨ ∃ old ∈ other.table.expansion.edges,
        unit.newPlace other old.1 = some edge.1 ∧ unit.newPlace other old.2 = some edge.2) ∧
    (unit.merge other).faults = unit.faults ++
      (other.catalog.registered.filter fun shared => !unit.catalog.accepts shared).map
        (fun shared => .duplicateGeneric shared.name (shared.generic.span.map Span.extent)
          ((unit.catalog.find? shared.name).bind fun existing =>
            existing.generic.span.map Span.extent)) ++ other.faults := by
  have own := reached.consistent
  have incoming := otherReached.consistent
  refine ⟨?_, map_unmarked_merge own incoming, ?_, ?_, mem_edges_merge own incoming,
    faults_merge incoming⟩
  · rw [merge_eq unit incoming.distinct]
    rfl
  · intro later member
    rw [emitted_merge_iff own incoming member]
    apply or_congr
    · apply exists_congr
      intro mine
      apply and_congr_right
      intro listed
      rw [own_meaning_iff own incoming listed]
    · apply exists_congr
      intro theirs
      apply and_congr_right
      intro listed
      rw [carried_meaning_iff incoming listed]
  · intro id place
    exact newPlace_eq_some_iff own.coherent

section Crates

def unbounded (name : String) : Parameter := ⟨name, [], none, none, none, none⟩

def pair : SharedGeneric :=
  ⟨1, { Generic.bare "Pair" with parameters := [unbounded "A", unbounded "B"] }⟩

/-- A declaration that conflicts with `pair`. -/
def loosePair : SharedGeneric :=
  ⟨2, { Generic.bare "Pair" with parameters := [unbounded "A"], span := some ⟨4, 8⟩ }⟩

def crate : SharedGeneric := ⟨3, { Generic.bare "Crate" with parameters := [unbounded "T"] }⟩

def depotHistory : List Change :=
  [.register box, .register pair, boxOf .int,
    .request ⟨"Pair", [.prim .int, .prim .int], none, none⟩]

def depot : CompilationUnit := (empty .lenient .standard).afterAll depotHistory

def deliveryHistory : List Change :=
  [.register box, .register loosePair, .register crate, boxOf .bool, boxOf .int,
    .request ⟨"Pair", [.prim .int], none, none⟩,
    .request ⟨"Crate", [.prim .int], none, some 1⟩, .sweep]

/-- A unit that shares one declaration with `depot`, conflicts in one and has a new one. -/
def delivery : CompilationUnit := (empty .lenient .standard).afterAll deliveryHistory

theorem reachable_depot : depot.Reachable := by
  apply (Reachable.empty _ _).afterAll
  simp [depotHistory, boxOf]

theorem reachable_delivery : delivery.Reachable := by
  apply (Reachable.empty _ _).afterAll
  simp [deliveryHistory, boxOf]

theorem depot_united :
    depot.Reachable ∧ delivery.Reachable ∧
    (depot.merge delivery).catalog.registered = [box, pair, crate] ∧
    (depot.merge delivery).instances.map Instance.unmarked =
      [⟨0, "Box", [.prim .int], false, none, 0, none⟩,
        ⟨1, "Pair", [.prim .int, .prim .int], false, none, 0, none⟩,
        ⟨2, "Box", [.prim .bool], false, none, 0, none⟩,
        ⟨3, "Crate", [.prim .int], false, none, 1, some 0⟩] ∧
    (0, 3) ∈ (depot.merge delivery).table.expansion.edges ∧
    (depot.merge delivery).faults = [.duplicateGeneric "Pair" (some ⟨4, 4⟩) none] := by
  obtain ⟨registered, instances, _, _, edges, faults⟩ :=
    merge_is_union reachable_depot reachable_delivery
  refine ⟨reachable_depot, reachable_delivery, ?_, ?_, ?_, ?_⟩
  · rw [registered]
    decide
  · rw [instances]
    decide
  · apply (edges (0, 3)).mpr
    exact Or.inr ⟨(1, 3), by decide, by decide, by decide⟩
  · rw [faults]
    decide

end Crates

end CompilationUnit

end Monomorph
