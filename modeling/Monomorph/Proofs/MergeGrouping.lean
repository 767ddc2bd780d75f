import Monomorph.Proofs.MergeOrder

/-!
Merging one after another or all at once. A unit may take over two others in turn, or the second
may first be merged into the first; compatible units give the same unit either way. The tables
carry the argument. Taking over a table commutes with each step in which that table itself takes
over another one, so the two ways stay in step while the last table is read. Marks are left out
there, since they are put on afterwards, and come back as the union of what the units marked.
-/

namespace Monomorph

namespace Renumbering

/-- One renumbering after another. -/
def andThen (first second : Renumbering) : Renumbering :=
  first.map fun place => place.bind second.apply

variable {first second : Renumbering}

theorem apply_andThen (first second : Renumbering) :
    (first.andThen second).apply = fun id => (first.apply id).bind second.apply := by
  funext id
  rw [apply, apply, andThen, List.getElem?_map]
  cases first[id]? <;> rfl

theorem andThen_concat (first second : Renumbering) (place : Option Nat) :
    andThen (first ++ [place]) second = first.andThen second ++ [place.bind second.apply] :=
  List.map_append

/-- What is appended to the second renumbering does not matter to places it already had. -/
theorem andThen_append (within : ∀ place, some place ∈ first → place < second.length)
    (more : Renumbering) : first.andThen (second ++ more) = first.andThen second := by
  apply List.map_congr_left
  intro place member
  cases place with
  | none => rfl
  | some place => exact apply_append_left second more (within place member)

theorem mem_of_apply {id place : Nat} (applied : first.apply id = some place) :
    some place ∈ first := by
  rw [apply, Option.join_eq_some_iff] at applied
  exact List.mem_of_getElem? applied

end Renumbering

namespace InstanceTable

/-- Take over a table of which every instance is accepted. -/
def absorbAll (table other : InstanceTable) : InstanceTable × Renumbering :=
  table.absorb other fun _ => true

theorem absorb_eq_absorbAll (table : InstanceTable) {other : InstanceTable}
    {accepted : String → Bool} (taken : ∀ entry ∈ other.instances, accepted entry.generic = true) :
    table.absorb other accepted = table.absorbAll other := by
  have same : table.adopting other accepted = table.adopting other fun _ => true := by
    apply List.foldl_ext
    intro state entry member
    simp only [adopt, taken entry member]
  rw [absorbAll, absorb_eq, absorb_eq, same]

theorem absorbAll_fst (table other : InstanceTable) :
    (table.absorbAll other).1 =
      (other.expansion.edges.foldl (adoptEdge (table.adopting other fun _ => true).2)
        (table.adopting other fun _ => true).1).noting other.faults := rfl

theorem apply_absorbAll {table other : InstanceTable} (coherent : table.Coherent)
    (otherCoherent : other.Coherent) {generic : String} {arguments : List Ty} {id : Nat}
    (known : other.interned? generic arguments = some id) :
    ∃ place, (table.absorbAll other).2.apply id = some place ∧
      (table.absorbAll other).1.interned? generic arguments = some place :=
  apply_interned coherent otherCoherent (fun _ _ => rfl) known

section Relay

/-- What a table and places in it become when the table is taken over. -/
def relay (base : InstanceTable) (state : InstanceTable × Renumbering) :
    InstanceTable × Renumbering :=
  ((base.absorbAll state.1).1, state.2.andThen (base.absorbAll state.1).2)

theorem relay_mk (base middle : InstanceTable) (renumbering : Renumbering) :
    base.relay (middle, renumbering) =
      ((base.absorbAll middle).1, renumbering.andThen (base.absorbAll middle).2) := rfl

/-- The places are places of the table. -/
structure Leads (renumbering : Renumbering) (table : InstanceTable) : Prop where
  coherent : table.Coherent
  bounded : table.expansion.Bounded
  within : ∀ place, some place ∈ renumbering → place < table.size

variable {base middle : InstanceTable} {renumbering : Renumbering} (coherent : base.Coherent)
  (leads : Leads renumbering middle)

include leads in
theorem Leads.adopt (entry : Instance) :
    Leads (adopt (fun _ => true) (middle, renumbering) entry).2
      (InstanceTable.adopt (fun _ => true) (middle, renumbering) entry).1 := by
  have steps := steps_adopt (fun _ => true) (middle, renumbering) entry
  refine ⟨leads.coherent.of_steps steps, bounded_of_steps leads.bounded steps, ?_⟩
  cases known : middle.interned? entry.generic entry.arguments with
  | some seat =>
    obtain ⟨found, there, _⟩ := (leads.coherent.interned?_eq_some_iff _ _ _).mp known
    rw [adopt_known renumbering rfl known]
    intro place member
    rcases List.mem_append.mp member with old | new
    · exact leads.within place old
    · cases List.mem_singleton.mp new
      exact (List.getElem?_eq_some_iff.mp there).1
  | none =>
    rw [adopt_new renumbering rfl known]
    intro place member
    rw [size, instances_push, List.length_append, List.length_singleton]
    rcases List.mem_append.mp member with old | new
    · exact Nat.lt_succ_of_lt (leads.within place old)
    · cases List.mem_singleton.mp new
      exact Nat.lt_succ_self _

include leads in
theorem Leads.addExpansion (parent child : Nat) :
    Leads renumbering (middle.addExpansion parent child) :=
  ⟨leads.coherent.of_steps (.single (.link parent child)), leads.bounded.addEdge parent child,
    leads.within⟩

include coherent leads

theorem Leads.moved {id place : Nat} (applied : renumbering.apply id = some place) :
    ∃ seat, (base.absorbAll middle).2.apply place = some seat := by
  have below := leads.within place (Renumbering.mem_of_apply applied)
  have found : middle.get? place = some middle.instances[place] := List.getElem?_eq_getElem below
  have known := (leads.coherent.interned?_eq_some_iff _ _ _).mpr ⟨_, found, rfl⟩
  obtain ⟨seat, moved, _⟩ := apply_absorbAll coherent leads.coherent known
  exact ⟨seat, moved⟩

/-- Adopting an instance and being taken over can change places. -/
theorem adopt_relay (entry : Instance) :
    adopt (fun _ => true) (base.relay (middle, renumbering)) entry =
      base.relay (adopt (fun _ => true) (middle, renumbering) entry) := by
  cases known : middle.interned? entry.generic entry.arguments with
  | some place =>
    obtain ⟨seat, moved, here⟩ := apply_absorbAll coherent leads.coherent known
    rw [adopt_known renumbering rfl known, relay_mk, adopt_known _ rfl here, relay_mk,
      Renumbering.andThen_concat, Option.bind_some, moved]
  | none =>
    have length : (base.absorbAll middle).2.length = middle.size :=
      length_absorb coherent middle _
    have within : ∀ place, some place ∈ renumbering → place < (base.absorbAll middle).2.length := by
      rw [length]
      exact leads.within
    have pushed : base.absorbAll (middle.push (middle.copyOf renumbering entry)) =
        adopt (fun _ => true) ((base.absorbAll middle).1, (base.absorbAll middle).2)
          (middle.copyOf renumbering entry) :=
      absorb_push coherent leads.coherent leads.bounded _
    -- The copy is renumbered twice on its way, the instance itself once by both renumberings.
    have twice : (base.absorbAll middle).1.copyOf (base.absorbAll middle).2
        (middle.copyOf renumbering entry) =
          (base.absorbAll middle).1.copyOf (renumbering.andThen (base.absorbAll middle).2) entry := by
      simp only [copyOf, Renumbering.apply_andThen, Option.bind_assoc]
    have last (seat : Option Nat) :
        Renumbering.apply ((base.absorbAll middle).2 ++ [seat]) middle.size = seat := by
      rw [← length]
      exact Renumbering.apply_concat_length _ seat
    rw [adopt_new renumbering rfl known, relay_mk, relay_mk, pushed, Renumbering.andThen_concat]
    cases here : (base.absorbAll middle).1.interned? entry.generic entry.arguments with
    | some seat =>
      have copied : (base.absorbAll middle).1.interned? (middle.copyOf renumbering entry).generic
        (middle.copyOf renumbering entry).arguments = some seat := here
      rw [adopt_known _ rfl here, adopt_known _ rfl copied, Renumbering.andThen_append within,
        Option.bind_some, last]
    | none =>
      have copied : (base.absorbAll middle).1.interned? (middle.copyOf renumbering entry).generic
        (middle.copyOf renumbering entry).arguments = none := here
      rw [adopt_new _ rfl here, adopt_new _ rfl copied, Renumbering.andThen_append within,
        Option.bind_some, last, twice]

theorem foldl_adopt_relay (entries : List Instance) :
    entries.foldl (adopt fun _ => true) (base.relay (middle, renumbering)) =
        base.relay (entries.foldl (adopt fun _ => true) (middle, renumbering)) ∧
      Leads (entries.foldl (adopt fun _ => true) (middle, renumbering)).2
        (entries.foldl (adopt fun _ => true) (middle, renumbering)).1 := by
  induction entries generalizing middle renumbering with
  | nil => exact ⟨rfl, leads⟩
  | cons entry rest ih =>
    rw [List.foldl_cons, List.foldl_cons, adopt_relay coherent leads entry]
    exact ih (leads.adopt entry)

/-- An edge is taken over along both renumberings. -/
theorem adoptEdge_relay (edge : Nat × Nat) :
    base.absorbAll (adoptEdge renumbering middle edge) =
        (adoptEdge (renumbering.andThen (base.absorbAll middle).2) (base.absorbAll middle).1 edge,
          (base.absorbAll middle).2) ∧
      Leads renumbering (adoptEdge renumbering middle edge) := by
  simp only [adoptEdge, Renumbering.apply_andThen]
  cases source : renumbering.apply edge.1 with
  | none => exact ⟨rfl, leads⟩
  | some parent =>
    cases target : renumbering.apply edge.2 with
    | none =>
      simp only [Option.bind_none, Option.bind_some]
      exact ⟨by cases (base.absorbAll middle).2.apply parent <;> rfl, leads⟩
    | some child =>
      obtain ⟨newParent, here⟩ := leads.moved coherent source
      obtain ⟨newChild, there⟩ := leads.moved coherent target
      simp only [Option.bind_some, here, there]
      exact ⟨absorb_addExpansion coherent leads.coherent here there,
        leads.addExpansion parent child⟩

theorem foldl_adoptEdge_relay (edges : List (Nat × Nat)) :
    base.absorbAll (edges.foldl (adoptEdge renumbering) middle) =
      (edges.foldl (adoptEdge (renumbering.andThen (base.absorbAll middle).2))
        (base.absorbAll middle).1, (base.absorbAll middle).2) := by
  induction edges generalizing middle with
  | nil => rfl
  | cons edge rest ih =>
    obtain ⟨round, next⟩ := adoptEdge_relay coherent leads edge
    rw [List.foldl_cons, ih next, round, List.foldl_cons]

omit leads in
/-- Taking over a table that took over another one is taking over the two in turn. -/
theorem absorbAll_absorbAll (middleCoherent : middle.Coherent)
    (bounded : middle.expansion.Bounded) (last : InstanceTable) :
    (base.absorbAll (middle.absorbAll last).1).1 =
      ((base.absorbAll middle).1.absorbAll last).1 := by
  have start : Leads [] middle := ⟨middleCoherent, bounded, nofun⟩
  obtain ⟨adopted, leads⟩ := foldl_adopt_relay coherent start last.instances
  have linked := foldl_adoptEdge_relay coherent leads last.expansion.edges
  have both : (base.absorbAll middle).1.adopting last (fun _ => true) =
      base.relay (middle.adopting last fun _ => true) := adopted
  rw [absorbAll_fst middle, absorbAll_fst (base.absorbAll middle).1, both]
  exact (congrArg Prod.fst (absorb_noting last.faults)).trans
    (congrArg (fun state : InstanceTable × Renumbering => state.1.noting last.faults) linked)

end Relay

section Unmarked

/-- The table as it was before any artifact was made. -/
def unmarked (table : InstanceTable) : InstanceTable :=
  { table with instances := table.instances.map Instance.unmarked }

theorem unmarked_push (table : InstanceTable) (entry : Instance) :
    (table.push entry).unmarked = table.unmarked.push entry.unmarked := by
  simp only [unmarked, push, List.map_append]
  rfl

theorem unmarked_markAll (table : InstanceTable) (ids : List Nat) :
    (table.markAll ids).unmarked = table.unmarked := by
  rw [unmarked, map_unmarked_markAll, markAll_eq]
  rfl

theorem adopt_unmarked (state : InstanceTable × Renumbering) (entry : Instance) :
    adopt (fun _ => true) (state.1.unmarked, state.2) entry.unmarked =
      ((adopt (fun _ => true) state entry).1.unmarked, (adopt (fun _ => true) state entry).2) := by
  obtain ⟨table, renumbering⟩ := state
  have still : table.unmarked.interned? entry.unmarked.generic entry.unmarked.arguments =
      table.interned? entry.generic entry.arguments :=
    table.interned?_map_instances Instance.unmarked (fun _ => rfl) entry.generic entry.arguments
  cases known : table.interned? entry.generic entry.arguments with
  | some place =>
    rw [adopt_known renumbering rfl (still.trans known), adopt_known renumbering rfl known]
  | none =>
    have size : table.unmarked.size = table.size := List.length_map _
    rw [adopt_new renumbering rfl (still.trans known), adopt_new renumbering rfl known,
      unmarked_push, copyOf, size]
    rfl

theorem foldl_adopt_unmarked (entries : List Instance) (state : InstanceTable × Renumbering) :
    (entries.map Instance.unmarked).foldl (adopt fun _ => true) (state.1.unmarked, state.2) =
      ((entries.foldl (adopt fun _ => true) state).1.unmarked,
        (entries.foldl (adopt fun _ => true) state).2) := by
  induction entries generalizing state with
  | nil => rfl
  | cons entry rest ih => rw [List.map_cons, List.foldl_cons, adopt_unmarked, ih, List.foldl_cons]

/-- Marks play no part in what is taken over and where it comes. -/
theorem absorbAll_unmarked (table other : InstanceTable) :
    table.unmarked.absorbAll other.unmarked =
      ((table.absorbAll other).1.unmarked, (table.absorbAll other).2) := by
  have adopted : table.unmarked.adopting other.unmarked (fun _ => true) =
      ((table.adopting other fun _ => true).1.unmarked, (table.adopting other fun _ => true).2) :=
    foldl_adopt_unmarked other.instances (table, [])
  rw [absorbAll, absorbAll, absorb_eq, absorb_eq, adopted]
  rfl

end Unmarked

end InstanceTable

namespace Catalog

theorem adding_adding (catalog middle last : Catalog) :
    (catalog.adding middle.registered).adding last.registered =
      catalog.adding (middle.adding last.registered).registered := by
  have free (shared : SharedGeneric) :
      ((catalog.adding middle.registered).find? shared.name).isNone =
        ((catalog.find? shared.name).isNone && (middle.find? shared.name).isNone) := by
    rw [find?_adding]
    cases catalog.find? shared.name <;> rfl
  have last : last.registered.filter (fun shared =>
      ((catalog.adding middle.registered).find? shared.name).isNone) =
        (last.registered.filter fun shared => (middle.find? shared.name).isNone).filter
          fun shared => (catalog.find? shared.name).isNone := by
    simp only [free, List.filter_filter]
  rw [adding, last]
  simp only [adding, List.filter_append, List.append_assoc]

end Catalog

namespace CompilationUnit

section Grouping

variable {unit other : CompilationUnit}

theorem catalog_merge (incoming : Consistent other.catalog other.table other.store) :
    (unit.merge other).catalog = unit.catalog.adding other.catalog.registered := by
  rw [merge_eq unit incoming.distinct]
  rfl

theorem absorbing_compatible (incoming : Consistent other.catalog other.table other.store)
    (compatible : Compatible unit other) :
    unit.absorbing other = unit.table.absorbAll other.table := by
  have calm : (unit.registering other.catalog.registered).table = unit.table := by
    simp only [registering, Catalog.filterMap_conflict?, compatible.refuses_none, List.map_nil,
      List.append_nil]
  rw [absorbing, calm]
  apply InstanceTable.absorb_eq_absorbAll
  intro entry member
  exact List.contains_iff_mem.mpr (accepted_instance incoming compatible member)

theorem unmarked_merge (incoming : Consistent other.catalog other.table other.store)
    (compatible : Compatible unit other) :
    (unit.merge other).table.unmarked = (unit.table.absorbAll other.table).1.unmarked := by
  rw [table_merge incoming.distinct, InstanceTable.unmarked_markAll,
    absorbing_compatible incoming compatible]

/-- A table is known by its unmarked form and the marks on its keys. -/
theorem table_eq_of_unmarked {left right : CompilationUnit} (coherent : left.table.Coherent)
    (coherent' : right.table.Coherent) (same : left.table.unmarked = right.table.unmarked)
    (marks : ∀ key, left.Marks key ↔ right.Marks key) : left.table = right.table := by
  have unmarked : left.table.instances.map Instance.unmarked =
      right.table.instances.map Instance.unmarked := congrArg InstanceTable.instances same
  have instances : left.table.instances = right.table.instances := by
    apply List.ext_getElem
    · simpa using congrArg List.length unmarked
    intro place below below'
    have equal : left.table.instances[place].unmarked = right.table.instances[place].unmarked := by
      have here : (left.table.instances.map Instance.unmarked)[place]? =
          (right.table.instances.map Instance.unmarked)[place]? := by rw [unmarked]
      simpa [below, below'] using here
    have keys := congrArg Instance.key equal
    have key : left.table.instances[place].key = right.table.instances[place].key := keys
    have emitted : left.table.instances[place].emitted = right.table.instances[place].emitted := by
      rw [Bool.eq_iff_iff, emitted_iff_marks coherent (List.getElem_mem below), key, marks,
        emitted_iff_marks coherent' (List.getElem_mem below')]
    calc left.table.instances[place]
      _ = { left.table.instances[place].unmarked with
            emitted := left.table.instances[place].emitted } := rfl
      _ = right.table.instances[place] := by rw [equal, emitted]; rfl
  calc left.table
    _ = { left.table.unmarked with instances := left.table.instances } := rfl
    _ = right.table := by rw [same, instances]; rfl

end Grouping

section Rehoming

/-- The artifact for the place where a table has its generic and arguments, unless its name is
reserved. -/
def rehomed? (table : InstanceTable) (reserved : List String) (artifact : Artifact) :
    Option Artifact :=
  if artifact.name ∈ reserved then none
  else (table.interned? artifact.generic artifact.arguments).map fun id =>
    { artifact with instanceId := id }

variable {unit other : CompilationUnit} (own : Consistent unit.catalog unit.table unit.store)
  (incoming : Consistent other.catalog other.table other.store)
  (compatible : Compatible unit other)

include own incoming compatible

theorem apply_artifact {artifact : Artifact} (member : artifact ∈ other.artifacts) :
    (unit.absorbing other).2.apply artifact.instanceId =
      (unit.merge other).table.interned? artifact.generic artifact.arguments := by
  obtain ⟨theirs, there, _, generic, arguments⟩ := (incoming.fits artifact member).marked
  have accepted := accepted_instance incoming compatible (List.mem_of_getElem? there)
  rw [apply_absorbing incoming.distinct own.coherent, newPlace, there, Option.bind_some,
    InstanceTable.placeOf, if_pos (List.contains_iff_mem.mpr accepted), generic, arguments]

theorem interned_artifact {artifact : Artifact} (member : artifact ∈ other.artifacts) :
    ∃ id, (unit.merge other).table.interned? artifact.generic artifact.arguments = some id := by
  obtain ⟨id, carried⟩ := carried_artifact own incoming compatible member
  exact ⟨id, (apply_artifact own incoming compatible member).symm.trans carried⟩

theorem artifacts_merge_compatible :
    (unit.merge other).artifacts = unit.artifacts ++ other.artifacts.filterMap
      (rehomed? (unit.merge other).table unit.store.reserved) := by
  rw [artifacts_merge incoming]
  congr 1
  apply List.filterMap_congr
  intro artifact member
  rw [ArtifactStore.carried?, apply_artifact own incoming compatible member, rehomed?]

/-- An artifact that was taken over keeps its place when the unit grows. -/
theorem rehomed?_of_steps {later : InstanceTable} (steps : (unit.merge other).table.Steps later)
    (reserved : List String) {artifact : Artifact} (member : artifact ∈ other.artifacts) :
    rehomed? later reserved artifact = rehomed? (unit.merge other).table reserved artifact := by
  obtain ⟨id, interned⟩ := interned_artifact own incoming compatible member
  have merged : (unit.merge other).table.Coherent := own.coherent.of_steps (unit.steps_merge other)
  rw [rehomed?, rehomed?, interned, InstanceTable.interned?_of_steps merged steps interned]

end Rehoming

section Regrouped

variable {main a b : CompilationUnit} (own : Consistent main.catalog main.table main.store)
  (left : Consistent a.catalog a.table a.store) (right : Consistent b.catalog b.table b.store)
  (first : Compatible main a) (second : Compatible main b) (between : Compatible a b)

include left right first second between in
theorem compatible_merge_right : Compatible main (a.merge b) :=
  (compatible_merge left right between first.symm second.symm).symm

include own left right first second between

theorem marks_regrouped (key : String × List Ty) :
    ((main.merge a).merge b).Marks key ↔ (main.merge (a.merge b)).Marks key := by
  rw [marks_merge (consistent_merge own left) right
      (compatible_merge own left first second between),
    marks_merge own left first, or_assoc,
    marks_merge own (consistent_merge left right)
      (compatible_merge_right left right first second between),
    marks_merge left right between]

theorem table_regrouped (bounded : a.table.expansion.Bounded) :
    ((main.merge a).merge b).table = (main.merge (a.merge b)).table := by
  have inTurn := consistent_merge (consistent_merge own left) right
  have atOnce := consistent_merge own (consistent_merge left right)
  apply table_eq_of_unmarked inTurn.coherent atOnce.coherent _
    (marks_regrouped own left right first second between)
  -- What is taken over does not depend on marks, so each merge may be read without them.
  calc ((main.merge a).merge b).table.unmarked
    _ = ((main.merge a).table.unmarked.absorbAll b.table.unmarked).1 := by
        rw [unmarked_merge right (compatible_merge own left first second between),
          InstanceTable.absorbAll_unmarked]
    _ = ((main.table.absorbAll a.table).1.absorbAll b.table).1.unmarked := by
        rw [unmarked_merge left first, InstanceTable.absorbAll_unmarked]
    _ = (main.table.absorbAll (a.table.absorbAll b.table).1).1.unmarked := by
        rw [InstanceTable.absorbAll_absorbAll own.coherent left.coherent bounded]
    _ = (main.table.unmarked.absorbAll (a.merge b).table.unmarked).1 := by
        rw [unmarked_merge right between, InstanceTable.absorbAll_unmarked]
    _ = (main.merge (a.merge b)).table.unmarked := by
        rw [unmarked_merge (consistent_merge left right)
          (compatible_merge_right left right first second between),
          InstanceTable.absorbAll_unmarked]

/-- The artifacts agree as well if the unit in the middle reserves only what it holds. -/
theorem artifacts_regrouped (bounded : a.table.expansion.Bounded)
    (holds : a.store.reserved = a.artifacts.map Artifact.name) :
    ((main.merge a).merge b).artifacts = (main.merge (a.merge b)).artifacts := by
  have thenB := compatible_merge own left first second between
  have merged := consistent_merge own left
  have table := table_regrouped own left right first second between bounded
  have ofA : a.artifacts.filterMap (rehomed? (main.merge a).table main.store.reserved) =
      a.artifacts.filterMap (rehomed? (main.merge (a.merge b)).table main.store.reserved) := by
    apply List.filterMap_congr
    intro artifact member
    have steps := (main.merge a).steps_merge b
    rw [table] at steps
    exact (rehomed?_of_steps own left first steps _ member).symm
  -- A name is refused in turn exactly if it is refused by one of the two units it passes.
  have ofB : b.artifacts.filterMap
      (rehomed? ((main.merge a).merge b).table (main.merge a).store.reserved) =
        (b.artifacts.filterMap (rehomed? (a.merge b).table a.store.reserved)).filterMap
          (rehomed? (main.merge (a.merge b)).table main.store.reserved) := by
    rw [List.filterMap_filterMap]
    apply List.filterMap_congr
    intro artifact member
    obtain ⟨id, interned⟩ := interned_artifact left right between member
    have refused := mem_reserved_merge own left first artifact.name
    rw [← holds] at refused
    by_cases taken : artifact.name ∈ a.store.reserved
    · simp only [rehomed?, refused, taken, or_true, if_true, Option.bind_none]
    · simp only [rehomed?, refused, taken, or_false, if_false, interned, Option.map_some,
        Option.bind_some, table]
  rw [artifacts_merge_compatible merged right thenB, artifacts_merge_compatible own left first,
    artifacts_merge_compatible own (consistent_merge left right)
      (compatible_merge_right left right first second between),
    artifacts_merge_compatible left right between, List.filterMap_append, ← ofA, ← ofB,
    List.append_assoc]

end Regrouped

/-- Merging two units in turn gives the same as merging the second into the first and then the
result, if the three are compatible: the same declarations in the same order, and the same table,
with every instance in its place, its number, depth and mark, who asked for it, the edges in the
order they were added, and the faults. The artifacts are the same in the same order if the unit
in the middle never handed one off; what units merged into it handed off does not matter. -/
theorem merge_associative {main a b : CompilationUnit} (reached : main.Reachable)
    (reachedA : a.Reachable) (reachedB : b.Reachable) (first : Compatible main a)
    (second : Compatible main b) (between : Compatible a b) :
    ((main.merge a).merge b).catalog = (main.merge (a.merge b)).catalog ∧
    ((main.merge a).merge b).table = (main.merge (a.merge b)).table ∧
    ∀ traits policy past, (empty traits policy).afterAll past = a →
      (empty traits policy).handedOffAlong past = [] →
      ((main.merge a).merge b).artifacts = (main.merge (a.merge b)).artifacts := by
  have own := reached.consistent
  have left := reachedA.consistent
  have right := reachedB.consistent
  obtain ⟨_, steps⟩ := reachedA.steps
  have bounded := InstanceTable.bounded_of_steps (InstanceTable.bounded_empty _) steps
  refine ⟨?_, table_regrouped own left right first second between bounded, ?_⟩
  · rw [catalog_merge right, catalog_merge left, catalog_merge (consistent_merge left right),
      catalog_merge right]
    exact Catalog.adding_adding _ _ _
  · intro traits policy past now none
    apply artifacts_regrouped own left right first second between bounded
    have start : (empty traits policy).store.reserved =
        ([] ++ (empty traits policy).artifacts).map Artifact.name := rfl
    have parts := (empty traits policy).reserved_afterAll_handedOff past start
    rw [now, none] at parts
    exact parts

/-- The three units overlap in pairs: `boxes` and `rack` have one instance in common, `shelf` and
`rack` another. Had `shelf` handed its artifacts off, those of the merged units would differ. -/
theorem shelf_then_rack :
    (boxes.Reachable ∧ shelf.Reachable ∧ rack.Reachable) ∧
    (Compatible boxes shelf ∧ Compatible boxes rack ∧ Compatible shelf rack) ∧
    (empty .lenient .standard).handedOffAlong shelfHistory = [] ∧
    ((boxes.merge shelf).merge rack).table.expansion.edges = [(3, 4), (4, 1)] ∧
    ((boxes.merge shelf).merge rack).catalog = (boxes.merge (shelf.merge rack)).catalog ∧
    ((boxes.merge shelf).merge rack).table = (boxes.merge (shelf.merge rack)).table ∧
    ((boxes.merge shelf).merge rack).artifacts = (boxes.merge (shelf.merge rack)).artifacts ∧
    ((boxes.merge (shelf.after .takeArtifacts)).merge rack).artifacts ≠
      (boxes.merge ((shelf.after .takeArtifacts).merge rack)).artifacts := by
  have compatible : Compatible boxes shelf ∧ Compatible boxes rack ∧ Compatible shelf rack := by
    decide
  obtain ⟨first, second, between⟩ := compatible
  obtain ⟨catalog, table, artifacts⟩ := merge_associative reachable_boxes reachable_shelf
    reachable_rack first second between
  exact ⟨⟨reachable_boxes, reachable_shelf, reachable_rack⟩, ⟨first, second, between⟩, rfl,
    by decide, catalog, table, artifacts _ _ shelfHistory rfl rfl, by decide⟩

end CompilationUnit

end Monomorph
