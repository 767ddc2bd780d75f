import Monomorph.Proofs.Growth

/-!
What a merge does to the catalog and to the instances. The merged catalog answers for a
name as the unit did, and as the other unit did where the unit had no answer. Every
instance of an accepted generic is carried to the place where it is interned in the
merged table, and it is marked there if it was marked where it came from.
-/

namespace Monomorph

namespace Catalog

theorem find?_append (catalog : Catalog) (added : List SharedGeneric) (name : String) :
    Catalog.find? ⟨catalog.registered ++ added⟩ name =
      (catalog.find? name).or (Catalog.find? ⟨added⟩ name) :=
  List.find?_append

theorem name_of_find? {catalog : Catalog} {name : String} {shared : SharedGeneric}
    (found : catalog.find? name = some shared) : shared.name = name := by
  have named := List.find?_some found
  exact beq_iff_eq.mp named

theorem find?_eq_none_iff (catalog : Catalog) (name : String) :
    catalog.find? name = none ↔ name ∉ catalog.names := by
  simp [find?, names, List.find?_eq_none]

theorem find?_of_mem {catalog : Catalog} (distinct : catalog.names.Nodup) {shared : SharedGeneric}
    (member : shared ∈ catalog.registered) : catalog.find? shared.name = some shared := by
  cases search : catalog.find? shared.name with
  | none =>
    have absent := (catalog.find?_eq_none_iff shared.name).mp search
    exact absurd (List.mem_map_of_mem member) absent
  | some first =>
    have same := List.inj_on_of_nodup_map distinct (List.mem_of_find?_eq_some search) member
      (name_of_find? search)
    rw [same]

/-- The declaration does not conflict with one of the catalog. -/
def accepts (catalog : Catalog) (shared : SharedGeneric) : Bool :=
  (catalog.find? shared.name).all fun existing => decide (existing = shared)

/-- What is recorded when a declaration conflicts with one of the catalog. -/
def conflict? (catalog : Catalog) (shared : SharedGeneric) : Option Fault :=
  (catalog.find? shared.name).bind fun existing =>
    if existing = shared then none
    else some (.duplicateGeneric shared.name (shared.generic.span.map Span.extent)
      (existing.generic.span.map Span.extent))

/-- The catalog with those declarations of a list whose names were free. -/
def adding (catalog : Catalog) (incoming : List SharedGeneric) : Catalog :=
  ⟨catalog.registered ++ incoming.filter fun shared => (catalog.find? shared.name).isNone⟩

theorem find?_adding (catalog other : Catalog) (name : String) :
    (catalog.adding other.registered).find? name = (catalog.find? name).or (other.find? name) := by
  rw [adding, find?_append]
  cases known : catalog.find? name with
  | some shared => rfl
  | none =>
    simp only [Option.none_or, find?, List.find?_filter]
    apply List.find?_congr
    intro shared _
    by_cases same : shared.name = name
    · simp [same, show List.find? _ catalog.registered = none from known]
    · simp [same]

theorem nodup_names_adding {catalog : Catalog} (distinct : catalog.names.Nodup)
    {incoming : List SharedGeneric} (distinct' : (incoming.map SharedGeneric.name).Nodup) :
    (catalog.adding incoming).names.Nodup := by
  simp only [names, adding, List.map_append]
  rw [List.nodup_append]
  refine ⟨distinct, distinct'.sublist (List.filter_sublist.map _), ?_⟩
  intro name known new added equal
  obtain ⟨shared, member, rfl⟩ := List.mem_map.mp added
  have free := (List.mem_filter.mp member).2
  rw [Option.isNone_iff_eq_none, find?_eq_none_iff] at free
  exact free (equal ▸ known)

theorem find?_adding_of_ne (catalog : Catalog) {shared : SharedGeneric} {name : String}
    (other : name ≠ shared.name) : (catalog.adding [shared]).find? name = catalog.find? name := by
  have apart : Catalog.find? ⟨[shared]⟩ name = none := by
    rw [find?_eq_none_iff]
    simp [names, other]
  rw [show [shared] = Catalog.registered ⟨[shared]⟩ from rfl, find?_adding, apart, Option.or_none]

theorem adding_cons (catalog : Catalog) (shared : SharedGeneric) {rest : List SharedGeneric}
    (other : ∀ next ∈ rest, next.name ≠ shared.name) :
    (catalog.adding [shared]).adding rest = catalog.adding (shared :: rest) := by
  have free : rest.filter (fun next => ((catalog.adding [shared]).find? next.name).isNone) =
      rest.filter fun next => (catalog.find? next.name).isNone :=
    List.filter_congr fun next member => by rw [catalog.find?_adding_of_ne (other next member)]
  rw [adding, free, adding, adding, List.append_assoc, ← List.filter_append, List.singleton_append]

end Catalog

namespace InstanceTable

variable {table : InstanceTable}

section Renumbering

/-- Where an instance of another table is found, if its generic is accepted. -/
def placeOf (table : InstanceTable) (accepted : String → Bool) (entry : Instance) : Option Nat :=
  if accepted entry.generic then table.interned? entry.generic entry.arguments else none

theorem interned?_push_self (coherent : table.Coherent) {entry : Instance}
    (next : entry.id = table.size)
    (fresh : table.interned? entry.generic entry.arguments = none) :
    (table.push entry).interned? entry.generic entry.arguments = some table.size := by
  have pushed : (table.push entry).get? table.size = some entry := by
    rw [get?, instances_push, size, List.getElem?_concat_length]
  exact ((coherent.push next fresh).interned?_eq_some_iff _ _ _).mpr ⟨entry, pushed, rfl⟩

/-- The copy of an instance that a table makes when it takes it over. -/
def copyOf (table : InstanceTable) (renumbering : Renumbering) (entry : Instance) : Instance :=
  { entry with id := table.size, requestedBy := entry.requestedBy.bind renumbering.apply }

section Adopt

variable {accepted : String → Bool} {entry : Instance} (renumbering : Renumbering)

theorem adopt_refused (refused : accepted entry.generic ≠ true) :
    adopt accepted (table, renumbering) entry = (table, renumbering ++ [none]) :=
  if_neg refused

theorem adopt_known (taken : accepted entry.generic = true) {place : Nat}
    (known : table.interned? entry.generic entry.arguments = some place) :
    adopt accepted (table, renumbering) entry = (table, renumbering ++ [some place]) := by
  simp only [adopt, if_pos taken, known]

theorem adopt_new (taken : accepted entry.generic = true)
    (absent : table.interned? entry.generic entry.arguments = none) :
    adopt accepted (table, renumbering) entry =
      (table.push (table.copyOf renumbering entry), renumbering ++ [some table.size]) := by
  simp only [adopt, if_pos taken, absent]
  rfl

/-- The number noted for an instance is its place, and an accepted instance has one. -/
theorem adopt_renumbering (coherent : table.Coherent) (accepted : String → Bool)
    (entry : Instance) :
    (adopt accepted (table, renumbering) entry).2 =
        renumbering ++ [(adopt accepted (table, renumbering) entry).1.placeOf accepted entry] ∧
      (accepted entry.generic = true →
        ((adopt accepted (table, renumbering) entry).1.placeOf accepted entry).isSome) := by
  by_cases taken : accepted entry.generic = true
  · cases known : table.interned? entry.generic entry.arguments with
    | some place =>
      rw [adopt_known renumbering taken known]
      simp [placeOf, taken, known]
    | none =>
      have placed : (table.push (table.copyOf renumbering entry)).interned? entry.generic
          entry.arguments = some table.size := interned?_push_self coherent rfl known
      rw [adopt_new renumbering taken known]
      simp [placeOf, taken, placed]
  · rw [adopt_refused renumbering taken]
    simp [placeOf, taken]

theorem mem_adopt {found : Instance}
    (member : found ∈ (adopt accepted (table, renumbering) entry).1.instances) :
    found ∈ table.instances ∨ accepted entry.generic = true ∧
      found = { entry with id := found.id, requestedBy := found.requestedBy } := by
  by_cases taken : accepted entry.generic = true
  · cases known : table.interned? entry.generic entry.arguments with
    | some place =>
      rw [adopt_known renumbering taken known] at member
      exact Or.inl member
    | none =>
      rw [adopt_new renumbering taken known, instances_push, List.mem_append,
        List.mem_singleton] at member
      rcases member with old | new
      · exact Or.inl old
      · exact Or.inr ⟨taken, by rw [new]; rfl⟩
  · rw [adopt_refused renumbering taken] at member
    exact Or.inl member

end Adopt

/-- A place once found does not change, and refused instances never get one. -/
theorem placeOf_of_steps (coherent : table.Coherent) {later : InstanceTable}
    (steps : table.Steps later) {accepted : String → Bool} {entry : Instance}
    (placed : accepted entry.generic = true → (table.placeOf accepted entry).isSome) :
    later.placeOf accepted entry = table.placeOf accepted entry := by
  by_cases taken : accepted entry.generic = true
  · obtain ⟨place, found⟩ := Option.isSome_iff_exists.mp (placed taken)
    rw [placeOf, if_pos taken] at found
    rw [placeOf, placeOf, if_pos taken, if_pos taken, found]
    exact interned?_of_steps coherent steps found
  · rw [placeOf, placeOf, if_neg taken, if_neg taken]

theorem foldl_adopt_renumbering (accepted : String → Bool) (entries : List Instance)
    {state : InstanceTable × Renumbering} (coherent : state.1.Coherent) :
    (entries.foldl (adopt accepted) state).2 =
        state.2 ++ entries.map ((entries.foldl (adopt accepted) state).1.placeOf accepted) ∧
      ∀ entry ∈ entries, accepted entry.generic = true →
        ((entries.foldl (adopt accepted) state).1.placeOf accepted entry).isSome := by
  induction entries generalizing state with
  | nil => simp
  | cons entry rest ih =>
    have noted := (adopt_renumbering state.2 coherent accepted entry).1
    have placed := (adopt_renumbering state.2 coherent accepted entry).2
    have next := coherent.of_steps (steps_adopt accepted state entry)
    obtain ⟨rests, restsPlaced⟩ := ih next
    have steps := steps_foldl Prod.fst (steps_adopt accepted) rest (adopt accepted state entry)
    -- The rounds that follow do not move the instance just placed.
    have first := placeOf_of_steps next steps placed
    rw [List.foldl_cons]
    constructor
    · rw [rests, show (adopt accepted state entry).2 = _ from noted, List.append_assoc,
        List.singleton_append, List.map_cons, first]
    · intro other member taken
      rcases List.mem_cons.mp member with same | later
      · rw [same, first]
        exact placed (same ▸ taken)
      · exact restsPlaced other later taken

theorem mem_foldl_adopt (accepted : String → Bool) (entries : List Instance)
    (state : InstanceTable × Renumbering) {found : Instance}
    (member : found ∈ (entries.foldl (adopt accepted) state).1.instances) :
    found ∈ state.1.instances ∨ ∃ entry ∈ entries, accepted entry.generic = true ∧
      found = { entry with id := found.id, requestedBy := found.requestedBy } := by
  induction entries generalizing state with
  | nil => exact Or.inl member
  | cons entry rest ih =>
    rcases ih (adopt accepted state entry) member with old | ⟨source, listed, origin⟩
    · rcases mem_adopt state.2 old with older | origin
      · exact Or.inl older
      · exact Or.inr ⟨entry, List.mem_cons_self, origin⟩
    · exact Or.inr ⟨source, List.mem_cons_of_mem _ listed, origin⟩

theorem instances_foldl_adoptEdge (renumbering : Renumbering) (edges : List (Nat × Nat))
    (table : InstanceTable) :
    (edges.foldl (adoptEdge renumbering) table).instances = table.instances := by
  induction edges generalizing table with
  | nil => rfl
  | cons edge rest ih =>
    rw [List.foldl_cons, ih, adoptEdge]
    split <;> rfl

theorem mem_absorb {other : InstanceTable} {accepted : String → Bool} {found : Instance}
    (member : found ∈ (table.absorb other accepted).1.instances) :
    found ∈ table.instances ∨ ∃ entry ∈ other.instances, accepted entry.generic = true ∧
      found = { entry with id := found.id, requestedBy := found.requestedBy } := by
  apply mem_foldl_adopt accepted other.instances (table, [])
  rw [← instances_foldl_adoptEdge _ other.expansion.edges]
  exact member

theorem absorb_renumbering (coherent : table.Coherent) (other : InstanceTable)
    (accepted : String → Bool) :
    (table.absorb other accepted).2 =
        other.instances.map ((table.absorb other accepted).1.placeOf accepted) ∧
      ∀ entry ∈ other.instances, accepted entry.generic = true →
        ((table.absorb other accepted).1.placeOf accepted entry).isSome := by
  obtain ⟨numbers, placed⟩ := foldl_adopt_renumbering accepted other.instances
    (show (table, ([] : Renumbering)).1.Coherent from coherent)
  have adopted : (other.instances.foldl (adopt accepted) (table, [])).1.Coherent :=
    coherent.of_steps (steps_foldl Prod.fst (steps_adopt accepted) other.instances (table, []))
  have kept : ∀ entry ∈ other.instances, (table.absorb other accepted).1.placeOf accepted entry =
      (other.instances.foldl (adopt accepted) (table, [])).1.placeOf accepted entry :=
    fun entry member => placeOf_of_steps adopted (table.steps_absorb_adopted other accepted)
      (placed entry member)
  constructor
  · rw [List.map_congr_left kept]
    exact numbers
  · intro entry member taken
    rw [kept entry member]
    exact placed entry member taken

theorem mem_absorbedMarks {entries : List Instance} {place : Instance → Option Nat} {id : Nat} :
    id ∈ absorbedMarks (entries.map place) entries ↔
      ∃ entry ∈ entries, entry.emitted = true ∧ place entry = some id := by
  have pairs : (entries.map place).zip entries = entries.map fun entry => (place entry, entry) := by
    induction entries with
    | nil => rfl
    | cons entry rest ih => simp [ih]
  rw [absorbedMarks, pairs, List.filterMap_map, List.mem_filterMap]
  simp

end Renumbering

end InstanceTable

namespace CompilationUnit

/-- The names of the other unit's declarations that a merge accepts. -/
def acceptedNames (unit other : CompilationUnit) : List String :=
  (other.catalog.registered.filter unit.catalog.accepts).map SharedGeneric.name

/-- The unit with the declarations of a list, as far as they do not conflict. -/
def registering (unit : CompilationUnit) (incoming : List SharedGeneric) : CompilationUnit :=
  { unit with
    catalog := unit.catalog.adding incoming
    table := { unit.table with
      faults := unit.table.faults ++ incoming.filterMap unit.catalog.conflict? } }

theorem accept_eq (unit : CompilationUnit) (names : List String) (shared : SharedGeneric) :
    accept (unit, names) shared =
      (unit.registering [shared],
        names ++ ([shared].filter unit.catalog.accepts).map SharedGeneric.name) := by
  cases known : unit.catalog.find? shared.name with
  | none =>
    simp [accept, register, Catalog.register, registering, Catalog.adding, Catalog.accepts,
      Catalog.conflict?, known]
  | some existing =>
    by_cases same : existing = shared
    · simp [accept, registering, Catalog.adding, Catalog.accepts, Catalog.conflict?, known, same]
    · simp [accept, register, Catalog.register, InstanceTable.record, registering, Catalog.adding,
        Catalog.accepts, Catalog.conflict?, known, same]

theorem registering_cons (unit : CompilationUnit) (shared : SharedGeneric)
    {rest : List SharedGeneric} (other : ∀ next ∈ rest, next.name ≠ shared.name) :
    (unit.registering [shared]).registering rest = unit.registering (shared :: rest) := by
  have conflicts : rest.filterMap (unit.catalog.adding [shared]).conflict? =
      rest.filterMap unit.catalog.conflict? :=
    List.filterMap_congr fun next member => by
      rw [Catalog.conflict?, Catalog.conflict?,
        unit.catalog.find?_adding_of_ne (other next member)]
  simp only [registering]
  rw [unit.catalog.adding_cons shared other, conflicts, List.append_assoc, ← List.filterMap_append,
    List.singleton_append]

theorem foldl_accept (unit : CompilationUnit) (names : List String) {incoming : List SharedGeneric}
    (distinct : (incoming.map SharedGeneric.name).Nodup) :
    incoming.foldl accept (unit, names) =
      (unit.registering incoming,
        names ++ (incoming.filter unit.catalog.accepts).map SharedGeneric.name) := by
  induction incoming generalizing unit names with
  | nil => simp [registering, Catalog.adding]
  | cons shared rest ih =>
    rw [List.map_cons, List.nodup_cons] at distinct
    have other : ∀ next ∈ rest, next.name ≠ shared.name := fun next member same =>
      distinct.1 (List.mem_map.mpr ⟨next, member, same⟩)
    have judged : rest.filter (unit.registering [shared]).catalog.accepts =
        rest.filter unit.catalog.accepts :=
      List.filter_congr fun next member =>
        congrArg (Option.all _) (unit.catalog.find?_adding_of_ne (other next member))
    rw [List.foldl_cons, accept_eq, ih _ _ distinct.2, registering_cons unit shared other, judged,
      List.append_assoc, ← List.map_append, ← List.filter_append, List.singleton_append]

/-- The unit's table with the other unit's instances, and their new places. -/
def absorbing (unit other : CompilationUnit) : InstanceTable × Renumbering :=
  (unit.registering other.catalog.registered).table.absorb other.table
    (unit.acceptedNames other).contains

theorem merge_eq (unit : CompilationUnit) {other : CompilationUnit}
    (distinct : other.catalog.names.Nodup) :
    unit.merge other =
      { unit.registering other.catalog.registered with
        table := (unit.absorbing other).1.markAbsorbed (unit.absorbing other).2 other.instances
        store := unit.store.absorb other.store (unit.absorbing other).2 } := by
  unfold merge
  rw [foldl_accept unit [] distinct]
  rfl

/-- Where an instance of the other unit is found in the merged one, if it is carried over. -/
def newPlace (unit other : CompilationUnit) (id : Nat) : Option Nat :=
  (other.table.get? id).bind
    ((unit.merge other).table.placeOf (unit.acceptedNames other).contains)

section Merged

variable {unit other : CompilationUnit} (distinct : other.catalog.names.Nodup)

include distinct

theorem find?_merge (name : String) :
    (unit.merge other).catalog.find? name =
      (unit.catalog.find? name).or (other.catalog.find? name) := by
  rw [merge_eq unit distinct]
  exact unit.catalog.find?_adding other.catalog name

theorem nodup_names_merge (own : unit.catalog.names.Nodup) :
    (unit.merge other).catalog.names.Nodup := by
  rw [merge_eq unit distinct]
  exact Catalog.nodup_names_adding own distinct

/-- Both units mean the same declaration by an accepted name. -/
theorem find?_merge_accepted {name : String} (accepted : name ∈ unit.acceptedNames other) :
    ∃ shared, other.catalog.find? name = some shared ∧
      (unit.merge other).catalog.find? name = some shared := by
  obtain ⟨shared, member, rfl⟩ := List.mem_map.mp accepted
  obtain ⟨listed, agrees⟩ := List.mem_filter.mp member
  have found := Catalog.find?_of_mem distinct listed
  refine ⟨shared, found, ?_⟩
  rw [find?_merge distinct, found]
  cases known : unit.catalog.find? shared.name with
  | none => rfl
  | some existing =>
    rw [Catalog.accepts, known, Option.all_some, decide_eq_true_eq] at agrees
    rw [agrees, Option.some_or]

/-- A name is accepted exactly if the other unit and the merged one mean the same by it. -/
theorem mem_acceptedNames_iff (name : String) :
    name ∈ unit.acceptedNames other ↔
      ∃ shared, other.catalog.find? name = some shared ∧
        (unit.merge other).catalog.find? name = some shared := by
  constructor
  · exact find?_merge_accepted distinct
  · rintro ⟨shared, there, here⟩
    rw [find?_merge distinct, there] at here
    have named : shared.name = name := Catalog.name_of_find? there
    apply List.mem_map.mpr
    refine ⟨shared, List.mem_filter.mpr ⟨List.mem_of_find?_eq_some there, ?_⟩, named⟩
    rw [Catalog.accepts, named]
    cases known : unit.catalog.find? name with
    | none => rfl
    | some existing =>
      rw [known, Option.some_or, Option.some.injEq] at here
      rw [here, Option.all_some, decide_eq_true_eq]

theorem store_merge :
    (unit.merge other).store = unit.store.absorb other.store (unit.absorbing other).2 := by
  rw [merge_eq unit distinct]

theorem table_merge :
    (unit.merge other).table = (unit.absorbing other).1.markAll
      (InstanceTable.absorbedMarks (unit.absorbing other).2 other.instances) := by
  rw [merge_eq unit distinct]
  exact InstanceTable.markAbsorbed_eq _ _ _

theorem mem_instances_merge {found : Instance} (member : found ∈ (unit.merge other).instances) :
    (∃ entry ∈ unit.instances, found.key = entry.key) ∨
      ∃ entry ∈ other.instances, entry.generic ∈ unit.acceptedNames other ∧
        found.key = entry.key := by
  obtain ⟨place, there⟩ := List.mem_iff_getElem?.mp member
  change (unit.merge other).table.get? place = some found at there
  rw [table_merge distinct, InstanceTable.get?_markAll] at there
  obtain ⟨entry, absorbed, marked⟩ := Option.map_eq_some_iff.mp there
  have key : found.key = entry.key := by
    rw [← marked]
    split <;> rfl
  rcases InstanceTable.mem_absorb (List.mem_of_getElem? absorbed) with
    old | ⟨source, listed, taken, copy⟩
  · exact Or.inl ⟨entry, old, key⟩
  · refine Or.inr ⟨source, listed, List.contains_iff_mem.mp taken, key.trans ?_⟩
    rw [copy]
    rfl

variable (coherent : unit.table.Coherent)

include coherent

/-- The renumbering leads every accepted instance to the place it has in the merged unit. -/
theorem absorbing_renumbering :
    (unit.absorbing other).2 = other.instances.map
        ((unit.merge other).table.placeOf (unit.acceptedNames other).contains) ∧
      ∀ entry ∈ other.instances, entry.generic ∈ unit.acceptedNames other →
        ((unit.merge other).table.interned? entry.generic entry.arguments).isSome := by
  have registered : (unit.registering other.catalog.registered).table.Coherent :=
    coherent.of_same rfl rfl rfl
  obtain ⟨numbers, placed⟩ := InstanceTable.absorb_renumbering registered other.table
    (unit.acceptedNames other).contains
  have absorbed : (unit.absorbing other).1.Coherent :=
    registered.of_steps (InstanceTable.steps_absorb _ _ _)
  have steps : (unit.absorbing other).1.Steps (unit.merge other).table := by
    rw [table_merge distinct]
    exact InstanceTable.steps_markAll _ _
  have kept : ∀ entry ∈ other.instances,
      (unit.merge other).table.placeOf (unit.acceptedNames other).contains entry =
        (unit.absorbing other).1.placeOf (unit.acceptedNames other).contains entry :=
    fun entry member => InstanceTable.placeOf_of_steps absorbed steps (placed entry member)
  constructor
  · rw [List.map_congr_left kept]
    exact numbers
  · intro entry member accepted
    have taken : (unit.acceptedNames other).contains entry.generic = true :=
      List.contains_iff_mem.mpr accepted
    have place : ((unit.absorbing other).1.placeOf (unit.acceptedNames other).contains
      entry).isSome := placed entry member taken
    rw [← kept entry member, InstanceTable.placeOf, if_pos taken] at place
    exact place

theorem apply_absorbing (id : Nat) :
    (unit.absorbing other).2.apply id = unit.newPlace other id := by
  rw [(absorbing_renumbering distinct coherent).1, Renumbering.apply, List.getElem?_map]
  change ((other.table.get? id).map _).join = (other.table.get? id).bind _
  cases other.table.get? id <;> rfl

omit distinct in
/-- The new place of an instance has an instance of the same generic and arguments. -/
theorem newPlace_eq_some_iff {id place : Nat} :
    unit.newPlace other id = some place ↔
      ∃ theirs later, other.table.get? id = some theirs ∧
        theirs.generic ∈ unit.acceptedNames other ∧
        (unit.merge other).table.get? place = some later ∧ later.key = theirs.key := by
  have merged : (unit.merge other).table.Coherent := coherent.of_steps (unit.steps_merge other)
  rw [newPlace, Option.bind_eq_some_iff]
  apply exists_congr
  intro theirs
  rw [InstanceTable.placeOf, exists_and_left]
  apply and_congr_right
  intro _
  by_cases accepted : theirs.generic ∈ unit.acceptedNames other
  · rw [if_pos (List.contains_iff_mem.mpr accepted), merged.interned?_eq_some_iff]
    simp only [accepted, true_and]
    rfl
  · have refused : ¬(unit.acceptedNames other).contains theirs.generic = true := fun contained =>
      accepted (List.contains_iff_mem.mp contained)
    rw [if_neg refused]
    simp [accepted]

/-- An instance that was marked in either unit is marked in the merged one. -/
theorem marked_merge {entry : Instance} (member : entry ∈ other.instances)
    (marked : entry.emitted = true) {place : Nat}
    (carried : (unit.merge other).table.placeOf (unit.acceptedNames other).contains entry =
      some place) :
    ∃ later, (unit.merge other).table.get? place = some later ∧ later.emitted = true ∧
      later.key = entry.key := by
  have merged : (unit.merge other).table.Coherent := coherent.of_steps (unit.steps_merge other)
  have interned :
      (unit.merge other).table.interned? entry.generic entry.arguments = some place := by
    unfold InstanceTable.placeOf at carried
    split at carried
    · exact carried
    · cases carried
  obtain ⟨later, found, key⟩ := (merged.interned?_eq_some_iff _ _ _).mp interned
  refine ⟨later, found, ?_, key⟩
  have noted : place ∈ InstanceTable.absorbedMarks (unit.absorbing other).2 other.instances := by
    rw [(absorbing_renumbering distinct coherent).1]
    exact InstanceTable.mem_absorbedMarks.mpr ⟨entry, member, marked, carried⟩
  rw [table_merge distinct, InstanceTable.get?_markAll] at found
  obtain ⟨before, _, made⟩ := Option.map_eq_some_iff.mp found
  rw [if_pos noted] at made
  rw [← made]

end Merged

end CompilationUnit

end Monomorph
