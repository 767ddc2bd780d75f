import Monomorph.Proofs.Answers
import Monomorph.Proofs.Merging
import Monomorph.Proofs.PlainReplacement

/-!
The parts of a unit agree. Held artifacts, their places by name, the reserved names, the
marks of the instances and the catalog are changed by different operations: a hand-off
clears the first two only, and a merge renumbers what an artifact refers to. Still, in
every unit a held artifact says what the unit says about its instance, and a reserved name
is the symbol of a marked instance.
-/

namespace Monomorph

namespace ArtifactStore

/-- Reserved names are reserved once, the held artifacts have the latest of them, and the
places lead to just the held artifacts. -/
structure Kept (store : ArtifactStore) : Prop where
  nodup : store.reserved.Nodup
  latest : store.held.map Artifact.name <:+ store.reserved
  indexed : ∀ name place, store.places.get? name = some place ↔
    (store.held[place]?).map Artifact.name = some name

namespace Kept

variable {store : ArtifactStore}

theorem empty : ArtifactStore.empty.Kept where
  nodup := List.nodup_nil
  latest := List.suffix_refl []
  indexed _ _ := by simp [ArtifactStore.empty]

theorem take (kept : store.Kept) : store.take.2.Kept where
  nodup := kept.nodup
  latest := List.nil_suffix
  indexed _ _ := by simp [ArtifactStore.take]

theorem name_reserved (kept : store.Kept) {artifact : Artifact} (member : artifact ∈ store.held) :
    artifact.name ∈ store.reserved :=
  kept.latest.mem (List.mem_map_of_mem member)

theorem lt_size (kept : store.Kept) {name : String} {place : Nat}
    (listed : store.places.get? name = some place) : place < store.size := by
  obtain ⟨artifact, held, _⟩ := Option.map_eq_some_iff.mp ((kept.indexed _ _).mp listed)
  exact (List.getElem?_eq_some_iff.mp held).1

theorem get?_of_free (kept : store.Kept) {name : String} (free : name ∉ store.reserved) :
    store.places.get? name = none := by
  rw [Option.eq_none_iff_forall_ne_some]
  intro place listed
  obtain ⟨artifact, held, named⟩ := Option.map_eq_some_iff.mp ((kept.indexed _ _).mp listed)
  have reserved := kept.name_reserved (List.mem_of_getElem? held)
  exact free (named ▸ reserved)

theorem push (kept : store.Kept) {artifact : Artifact} (free : artifact.name ∉ store.reserved) :
    (store.push artifact).Kept where
  nodup := by
    rw [reserved_push, ← List.concat_eq_append]
    exact List.Nodup.concat free kept.nodup
  latest := by
    obtain ⟨earlier, reserved⟩ := kept.latest
    refine ⟨earlier, ?_⟩
    rw [held_push, reserved_push, List.map_append, List.map_singleton, ← List.append_assoc,
      reserved]
  indexed name place := by
    change (store.places.insert artifact.name store.size).get? name = some place ↔ _
    rw [OrderedMap.get?_insert, held_push, List.getElem?_append]
    by_cases before : place < store.held.length
    · rw [if_pos before, ← kept.indexed]
      by_cases same : artifact.name = name
      · have other : store.size ≠ place := Nat.ne_of_gt before
        simp [same, other, kept.get?_of_free (same ▸ free)]
      · rw [if_neg same]
    · rw [if_neg before, List.getElem?_singleton]
      have last : place - store.held.length = 0 ↔ store.size = place := by
        rw [size]
        omega
      by_cases same : artifact.name = name
      · simp [same, last]
      · have absent : store.places.get? name ≠ some place := fun listed =>
          before (kept.lt_size listed)
        simp [same, absent]

theorem nodup_names (kept : store.Kept) : (store.held.map Artifact.name).Nodup :=
  kept.nodup.sublist kept.latest.sublist

theorem find?_eq_some_iff (kept : store.Kept) (name : String) (artifact : Artifact) :
    store.find? name = some artifact ↔ artifact ∈ store.held ∧ artifact.name = name := by
  rw [find?, Option.bind_eq_some_iff]
  constructor
  · intro found
    obtain ⟨place, listed, held⟩ := found
    have named := (kept.indexed _ _).mp listed
    rw [held, Option.map_some, Option.some.injEq] at named
    exact ⟨List.mem_of_getElem? held, named⟩
  · intro present
    obtain ⟨place, held⟩ := List.mem_iff_getElem?.mp present.1
    refine ⟨place, (kept.indexed _ _).mpr ?_, held⟩
    rw [held, Option.map_some, present.2]

theorem find?_eq_none_iff (kept : store.Kept) (name : String) :
    store.find? name = none ↔ ∀ artifact ∈ store.held, artifact.name ≠ name := by
  rw [Option.eq_none_iff_forall_ne_some]
  constructor
  · intro absent artifact member named
    exact absent artifact ((kept.find?_eq_some_iff name artifact).mpr ⟨member, named⟩)
  · intro absent artifact found
    obtain ⟨member, named⟩ := (kept.find?_eq_some_iff name artifact).mp found
    exact absent artifact member named

end Kept

/-- An artifact is taken over if its instance was taken over and its name is free. -/
theorem adopt_cases (store : ArtifactStore) (renumbering : Renumbering) (artifact : Artifact) :
    ((renumbering.apply artifact.instanceId = none ∨ artifact.name ∈ store.reserved) ∧
        adopt renumbering store artifact = store) ∨
      ∃ id, renumbering.apply artifact.instanceId = some id ∧ artifact.name ∉ store.reserved ∧
        adopt renumbering store artifact = store.push { artifact with instanceId := id } := by
  cases carried : renumbering.apply artifact.instanceId with
  | none => exact Or.inl ⟨Or.inl rfl, by simp only [adopt, carried]⟩
  | some id =>
    by_cases reserved : artifact.name ∈ store.reserved
    · refine Or.inl ⟨Or.inr reserved, ?_⟩
      simp only [adopt, carried, List.contains_iff_mem, if_pos reserved]
    · refine Or.inr ⟨id, rfl, reserved, ?_⟩
      simp only [adopt, carried, List.contains_iff_mem, if_neg reserved]

end ArtifactStore

namespace Generic

/-- The signature is the declared one with every parameter replaced by its argument, all at once.
There is none where none is declared. -/
def Signs (generic : Generic) (arguments : List Ty) (signature : Option Ty) : Prop :=
  ∃ σ, Assigns generic.parameterNames arguments σ ∧ signature = generic.signature.map (Ty.plain σ)

theorem signs_iff {generic : Generic} {arguments : List Ty} {signature : Option Ty} :
    generic.Signs arguments signature ↔
      signature = generic.signature.map (generic.specialise arguments) := by
  constructor
  · rintro ⟨σ, assigned, signed⟩
    rw [signed, funext (specialise_eq_plain assigned)]
  · intro signed
    refine ⟨_, assigns_iff.mpr rfl, ?_⟩
    rw [signed, funext (specialise_eq_plain (assigns_iff.mpr rfl))]

end Generic

/-- A marked instance has this symbol. -/
def InstanceTable.Backs (table : InstanceTable) (name : String) : Prop :=
  ∃ place entry, table.get? place = some entry ∧ entry.emitted = true ∧
    name = Symbol.name entry.generic entry.arguments

/-- The artifact is that of a marked instance, and its signature is what the declaration
registered now makes of the arguments. -/
structure Artifact.Fits (artifact : Artifact) (catalog : Catalog) (table : InstanceTable) :
    Prop where
  marked : ∃ entry, table.get? artifact.instanceId = some entry ∧ entry.emitted = true ∧
    entry.generic = artifact.generic ∧ entry.arguments = artifact.arguments
  named : artifact.name = Symbol.name artifact.generic artifact.arguments
  signed : ∃ shared, catalog.find? artifact.generic = some shared ∧
    shared.generic.Signs artifact.arguments artifact.signature

/-- What the one catalog declares the other declares too. -/
def Catalog.Includes (later catalog : Catalog) : Prop :=
  ∀ name shared, catalog.find? name = some shared → later.find? name = some shared

theorem Catalog.Includes.refl (catalog : Catalog) : catalog.Includes catalog :=
  fun _ _ found => found

theorem InstanceTable.Backs.mono {table later : InstanceTable} {name : String}
    (backed : table.Backs name) (grows : table.Grows later) : later.Backs name := by
  obtain ⟨place, entry, found, marked, named⟩ := backed
  obtain ⟨next, foundNext, becomes⟩ := grows place entry found
  refine ⟨place, next, foundNext, becomes.marked marked, ?_⟩
  rw [named, becomes.generic, becomes.arguments]

namespace Artifact.Fits

variable {artifact : Artifact} {catalog : Catalog} {table : InstanceTable}

theorem mono (fits : artifact.Fits catalog table) {later : Catalog} {grown : InstanceTable}
    (includes : later.Includes catalog) (grows : table.Grows grown) :
    artifact.Fits later grown where
  marked := by
    obtain ⟨entry, found, marked, generic, arguments⟩ := fits.marked
    obtain ⟨next, foundNext, becomes⟩ := grows _ entry found
    exact ⟨next, foundNext, becomes.marked marked, becomes.generic.trans generic,
      becomes.arguments.trans arguments⟩
  named := fits.named
  signed := by
    obtain ⟨shared, found, signature⟩ := fits.signed
    exact ⟨shared, includes _ shared found, signature⟩

theorem backs (fits : artifact.Fits catalog table) : table.Backs artifact.name := by
  obtain ⟨entry, found, marked, generic, arguments⟩ := fits.marked
  exact ⟨artifact.instanceId, entry, found, marked, by rw [fits.named, generic, arguments]⟩

/-- The artifacts of one instance have one name. -/
theorem name_eq_of_instanceId {other : Artifact} (fits : artifact.Fits catalog table)
    (otherFits : other.Fits catalog table) (same : artifact.instanceId = other.instanceId) :
    artifact.name = other.name := by
  obtain ⟨entry, found, _, generic, arguments⟩ := fits.marked
  obtain ⟨otherEntry, otherFound, _, otherGeneric, otherArguments⟩ := otherFits.marked
  rw [same, otherFound] at found
  cases found
  rw [fits.named, otherFits.named, ← generic, ← arguments, otherGeneric, otherArguments]

end Artifact.Fits

/-- The parts of a unit agree. -/
structure Consistent (catalog : Catalog) (table : InstanceTable) (store : ArtifactStore) :
    Prop where
  distinct : catalog.names.Nodup
  coherent : table.Coherent
  declared : ∀ entry ∈ table.instances, ∃ shared, catalog.find? entry.generic = some shared
  kept : store.Kept
  fits : ∀ artifact ∈ store.held, artifact.Fits catalog table
  backed : ∀ name ∈ store.reserved, table.Backs name

namespace Consistent

variable {catalog : Catalog} {table : InstanceTable} {store : ArtifactStore}

theorem empty (policy : Policy) : Consistent .empty (.empty policy) .empty where
  distinct := List.nodup_nil
  coherent := .empty policy
  declared _ member := by cases member
  kept := .empty
  fits _ member := by cases member
  backed _ member := by cases member

theorem take (consistent : Consistent catalog table store) :
    Consistent catalog table store.take.2 where
  distinct := consistent.distinct
  coherent := consistent.coherent
  declared := consistent.declared
  kept := consistent.kept.take
  fits _ member := by cases member
  backed := consistent.backed

/-- New declarations and steps of the table leave the store as it is. -/
theorem grow (consistent : Consistent catalog table store) {later : Catalog}
    {grown : InstanceTable} (distinct : later.names.Nodup) (includes : later.Includes catalog)
    (steps : table.Steps grown)
    (declared : ∀ entry ∈ grown.instances, ∃ shared, later.find? entry.generic = some shared) :
    Consistent later grown store where
  distinct := distinct
  coherent := consistent.coherent.of_steps steps
  declared := declared
  kept := consistent.kept
  fits artifact member :=
    (consistent.fits artifact member).mono includes (InstanceTable.grows_of_steps steps)
  backed name member := (consistent.backed name member).mono (InstanceTable.grows_of_steps steps)

theorem push (consistent : Consistent catalog table store) {artifact : Artifact}
    (free : artifact.name ∉ store.reserved) (fits : artifact.Fits catalog table) :
    Consistent catalog table (store.push artifact) where
  distinct := consistent.distinct
  coherent := consistent.coherent
  declared := consistent.declared
  kept := consistent.kept.push free
  fits other member := by
    rw [ArtifactStore.held_push, List.mem_append, List.mem_singleton] at member
    rcases member with old | new
    · exact consistent.fits other old
    · exact new ▸ fits
  backed name member := by
    rw [ArtifactStore.reserved_push, List.mem_append, List.mem_singleton] at member
    rcases member with old | new
    · exact consistent.backed name old
    · exact new ▸ fits.backs

theorem nodup_instanceIds (consistent : Consistent catalog table store) :
    (store.held.map Artifact.instanceId).Nodup := by
  apply List.Nodup.map_on
  · intro artifact member other otherMember same
    have named := (consistent.fits artifact member).name_eq_of_instanceId
      (consistent.fits other otherMember) same
    exact List.inj_on_of_nodup_map consistent.kept.nodup_names member otherMember named
  · exact List.Nodup.of_map _ consistent.kept.nodup_names

section Sweep

theorem markEmitted (consistent : Consistent catalog table store) (id : Nat) :
    Consistent catalog (table.markEmitted id) store := by
  apply consistent.grow consistent.distinct (.refl catalog) (.single (.mark id))
  intro entry member
  rw [consistent.coherent.instances_markEmitted] at member
  obtain ⟨before, listed, rfl⟩ := List.mem_map.mp member
  rw [Instance.generic_markedAt]
  exact consistent.declared before listed

theorem signature_artifact (consistent : Consistent catalog table store) {entry : Instance}
    (member : entry ∈ table.instances) (name : String) :
    ∃ shared, catalog.find? entry.generic = some shared ∧
      shared.generic.Signs entry.arguments (entry.artifact catalog name).signature := by
  obtain ⟨shared, declared⟩ := consistent.declared entry member
  refine ⟨shared, declared, Generic.signs_iff.mpr ?_⟩
  simp [Instance.artifact, Catalog.generic?, declared]

theorem fits_artifact (consistent : Consistent catalog table store) {id : Nat} {entry : Instance}
    (found : table.get? id = some entry) :
    (entry.artifact catalog (Symbol.name entry.generic entry.arguments)).Fits catalog
      (table.markEmitted id) where
  marked := by
    have here : (table.markEmitted id).get? id = some { entry with emitted := true } := by
      rw [InstanceTable.get?_markEmitted, if_pos rfl, found, Option.map_some]
    refine ⟨{ entry with emitted := true }, ?_, rfl, rfl, rfl⟩
    rw [← here]
    exact congrArg _ (consistent.coherent.id_eq found)
  named := rfl
  signed := consistent.signature_artifact (List.mem_of_getElem? found) _

theorem emit (consistent : Consistent catalog table store) (id : Nat) :
    Consistent catalog (ArtifactStore.emit catalog (table, store) id).1
      (ArtifactStore.emit catalog (table, store) id).2 := by
  rcases ArtifactStore.emit_cases catalog table store id with
    ⟨_, round⟩ | ⟨entry, found, ⟨_, round⟩ | ⟨free, round⟩⟩
  · rw [round]
    exact consistent
  · rw [round]
    exact consistent.markEmitted id
  · rw [round]
    exact (consistent.markEmitted id).push free (consistent.fits_artifact found)

theorem foldl_emit (consistent : Consistent catalog table store) (ids : List Nat) :
    Consistent catalog (ids.foldl (ArtifactStore.emit catalog) (table, store)).1
      (ids.foldl (ArtifactStore.emit catalog) (table, store)).2 :=
  List.foldlRecOn (motive := fun state : InstanceTable × ArtifactStore =>
    Consistent catalog state.1 state.2) ids _ consistent fun _ before id _ => before.emit id

end Sweep

section Requests

theorem register (consistent : Consistent catalog table store) {shared : SharedGeneric}
    {later : Catalog} (registered : catalog.register shared = .ok later) :
    Consistent later table store := by
  unfold Catalog.register at registered
  split at registered
  next => cases registered
  next free =>
    cases registered
    have includes : Catalog.Includes ⟨catalog.registered ++ [shared]⟩ catalog := by
      intro name found known
      rw [Catalog.find?_append, known, Option.some_or]
    refine consistent.grow ?_ includes .refl ?_
    · rw [Catalog.names, List.map_append, List.map_singleton, ← List.concat_eq_append]
      exact List.Nodup.concat ((catalog.find?_eq_none_iff _).mp free) consistent.distinct
    · intro entry member
      obtain ⟨found, known⟩ := consistent.declared entry member
      exact ⟨found, includes _ found known⟩

/-- A request without a fault names a declaration. -/
theorem declared_of_check {policy : Policy} {traits : TraitAuthority} {request : Request}
    (passed : (request.check policy catalog traits).answer = none) :
    ∃ shared, catalog.find? request.generic = some shared := by
  cases known : catalog.find? request.generic with
  | some shared => exact ⟨shared, rfl⟩
  | none => simp [Request.check, Catalog.generic?, known] at passed

/-- An instance that a request enters is the one it asks for. It was found without fault, and
no artifact was made for it. -/
theorem mem_request {traits : TraitAuthority} {request : Request} {entry : Instance}
    (member : entry ∈ (table.request catalog traits request).2.instances) :
    entry ∈ table.instances ∨ (request.check table.policy catalog traits).answer = none ∧
      entry.key = (request.generic, request.arguments) ∧ entry.emitted = false := by
  rcases InstanceTable.request_entry member with old | ⟨passed, _, rfl, _⟩
  · exact Or.inl old
  · exact Or.inr ⟨passed, rfl, rfl⟩

theorem request (consistent : Consistent catalog table store) (traits : TraitAuthority)
    (request : Request) :
    Consistent catalog (table.request catalog traits request).2 store := by
  apply consistent.grow consistent.distinct (.refl catalog)
    (table.steps_request catalog traits request)
  intro entry member
  rcases mem_request member with old | ⟨passed, new, _⟩
  · exact consistent.declared entry old
  · rw [show entry.generic = request.generic from congrArg Prod.fst new]
    exact declared_of_check passed

end Requests

end Consistent

namespace CompilationUnit

section Merge

variable {unit other : CompilationUnit}

/-- An artifact that is carried over fits in the merged unit under its new number. -/
theorem fits_carried (own : Consistent unit.catalog unit.table unit.store)
    (incoming : Consistent other.catalog other.table other.store) {artifact : Artifact}
    (member : artifact ∈ other.store.held) {id : Nat}
    (carried : (unit.absorbing other).2.apply artifact.instanceId = some id) :
    Artifact.Fits { artifact with instanceId := id } (unit.merge other).catalog
      (unit.merge other).table := by
  have fits := incoming.fits artifact member
  obtain ⟨entry, found, marked, generic, arguments⟩ := fits.marked
  rw [apply_absorbing incoming.distinct own.coherent, newPlace, found, Option.bind_some] at carried
  obtain ⟨later, foundLater, markedLater, key⟩ :=
    marked_merge incoming.distinct own.coherent (List.mem_of_getElem? found) marked carried
  have accepted : entry.generic ∈ unit.acceptedNames other := by
    unfold InstanceTable.placeOf at carried
    split at carried
    next taken => exact List.contains_iff_mem.mp taken
    next => cases carried
  constructor
  · exact ⟨later, foundLater, markedLater, (congrArg Prod.fst key).trans generic,
      (congrArg Prod.snd key).trans arguments⟩
  · exact fits.named
  · -- The name was accepted, so the declaration it was signed by is the one meant here too.
    obtain ⟨shared, known, signature⟩ := fits.signed
    obtain ⟨same, knownThere, knownHere⟩ := find?_merge_accepted incoming.distinct accepted
    rw [generic] at knownThere knownHere
    rw [known] at knownThere
    cases knownThere
    exact ⟨shared, knownHere, signature⟩

theorem consistent_merge (own : Consistent unit.catalog unit.table unit.store)
    (incoming : Consistent other.catalog other.table other.store) :
    Consistent (unit.merge other).catalog (unit.merge other).table (unit.merge other).store := by
  have includes : (unit.merge other).catalog.Includes unit.catalog := by
    intro name shared known
    rw [find?_merge incoming.distinct, known, Option.some_or]
  have declared : ∀ found ∈ (unit.merge other).table.instances,
      ∃ shared, (unit.merge other).catalog.find? found.generic = some shared := by
    intro found member
    rcases mem_instances_merge incoming.distinct member with
      ⟨entry, listed, key⟩ | ⟨entry, listed, accepted, key⟩
    · obtain ⟨shared, known⟩ := own.declared entry listed
      rw [show found.generic = entry.generic from congrArg Prod.fst key]
      exact ⟨shared, includes _ shared known⟩
    · obtain ⟨shared, _, known⟩ := find?_merge_accepted incoming.distinct accepted
      rw [show found.generic = entry.generic from congrArg Prod.fst key]
      exact ⟨shared, known⟩
  have grown : Consistent (unit.merge other).catalog (unit.merge other).table unit.store :=
    own.grow (nodup_names_merge incoming.distinct own.distinct) includes (unit.steps_merge other)
      declared
  -- The store is the unit's own so far; the other unit's artifacts come one by one.
  rw [store_merge incoming.distinct]
  apply List.foldlRecOn (motive := Consistent (unit.merge other).catalog (unit.merge other).table)
    other.store.held _ grown
  intro store before artifact member
  rcases store.adopt_cases (unit.absorbing other).2 artifact with
    ⟨_, round⟩ | ⟨id, carried, free, round⟩
  · rw [round]
    exact before
  · rw [round]
    exact before.push free (fits_carried own incoming member carried)

end Merge

theorem Reachable.consistent {unit : CompilationUnit} (reached : unit.Reachable) :
    Consistent unit.catalog unit.table unit.store := by
  induction reached with
  | empty traits policy => exact .empty policy
  | @change unit change _ _ own merged =>
    cases change with
    | register shared =>
      change Consistent (unit.register shared).2.catalog (unit.register shared).2.table
        (unit.register shared).2.store
      unfold register
      split
      next registered => exact own.register registered
      next fault _ =>
        exact own.grow own.distinct (.refl _) (unit.table.steps_record fault) own.declared
    | request request => exact own.request unit.traits request
    | requestWithDefaults request =>
      exact own.request unit.traits (request.withDefaults unit.catalog)
    | sweep => exact own.foldl_emit unit.table.pending
    | takeArtifacts => exact own.take
    | takeFaults => exact own.grow own.distinct (.refl _) (.single (.note [])) own.declared
    | merge other => exact consistent_merge own (merged other rfl)

end CompilationUnit

end Monomorph
