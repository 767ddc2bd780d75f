import Mathlib.Data.List.Induction
import Monomorph.Proofs.Absorption
import Monomorph.Proofs.Consistency
import Monomorph.Proofs.Errands

/-!
Work that is split off. Requests may be made in a unit of their own, which has the same
declarations, and the unit merged afterwards. What results is what the same requests lead to
in place, except that depths are counted from other roots. The two runs are followed step by
step: at any time the table of the work in place is the one that would result from merging
now, up to the depths.
-/

namespace Monomorph

/-- The instance with nothing said about its depth. -/
def Instance.leveled (entry : Instance) : Instance := { entry with depth := 0 }

namespace InstanceTable

/-- The table with nothing said about depths. -/
def leveled (table : InstanceTable) : InstanceTable :=
  { table with instances := table.instances.map Instance.leveled }

section Leveling

variable (table : InstanceTable)

theorem size_leveled : table.leveled.size = table.size := List.length_map _

theorem interned?_leveled (generic : String) (arguments : List Ty) :
    table.leveled.interned? generic arguments = table.interned? generic arguments :=
  table.interned?_map_instances Instance.leveled (fun _ => rfl) generic arguments

theorem leveled_push (entry : Instance) :
    (table.push entry).leveled = table.leveled.push entry.leveled := by
  simp only [leveled, push, List.map_append]
  rfl

theorem leveled_linkParent (parent : Option Nat) (child : Nat) :
    (table.linkParent parent child).leveled = table.leveled.linkParent parent child := by
  cases parent <;> rfl

end Leveling

section Seating

/-- The place to which a request without a fault leads. -/
def seat (table : InstanceTable) (request : Request) : Nat :=
  (table.interned? request.generic request.arguments).getD table.size

/-- The table after such a request, where a new instance gets the given depth. -/
def seated (table : InstanceTable) (request : Request) (depth : Nat) : InstanceTable :=
  match table.interned? request.generic request.arguments with
  | some id => table.linkParent request.parent id
  | none => (table.push (table.entrant request depth)).linkParent request.parent table.size

variable (table : InstanceTable) (request : Request)

theorem settle_eq (calm : ¬ Outcome.Endless (some (table.settle request).1)) :
    table.settle request =
      (.ok (table.seat request), table.seated request (table.depthBelow request.parent)) := by
  cases known : table.interned? request.generic request.arguments with
  | some id => simp only [settle, seat, seated, known, Option.getD_some]
  | none =>
    by_cases shallow : table.depthBelow request.parent ≤ table.policy.maxDepth
    · simp only [settle, seat, seated, entrant, known, if_pos shallow, Option.getD_none]
    · simp only [settle, known, if_neg shallow] at calm
      exact absurd trivial calm

theorem seat_leveled : table.leveled.seat request = table.seat request := by
  rw [seat, seat, interned?_leveled, size_leveled]

/-- The depth of a new instance is all that the depth decides. -/
theorem leveled_seated (depth : Nat) :
    (table.seated request depth).leveled = table.leveled.seated request 0 := by
  unfold seated
  rw [interned?_leveled]
  cases table.interned? request.generic request.arguments with
  | some id => exact table.leveled_linkParent request.parent id
  | none =>
    dsimp only
    rw [leveled_linkParent, leveled_push, entrant, entrant, size_leveled]
    rfl

end Seating

/-- What holds of a table of accepted instances that no sweep has seen. -/
structure Separate (accepted : String → Bool) (apart : InstanceTable) : Prop where
  coherent : apart.Coherent
  bounded : apart.expansion.Bounded
  taken : ∀ entry ∈ apart.instances, accepted entry.generic = true
  unmarked : ∀ entry ∈ apart.instances, entry.emitted = false

section Following

variable {base apart : InstanceTable} {accepted : String → Bool}

theorem Separate.empty (accepted : String → Bool) (policy : Policy) :
    Separate accepted (.empty policy) where
  coherent := .empty policy
  bounded := nofun
  taken := nofun
  unmarked := nofun

theorem Separate.request (separate : Separate accepted apart) {catalog : Catalog}
    (declared : ∀ name shared, catalog.find? name = some shared → accepted name = true)
    (traits : TraitAuthority) (request : Request) :
    Separate accepted (apart.request catalog traits request).2 where
  coherent := separate.coherent.of_steps (apart.steps_request catalog traits request)
  bounded := bounded_of_steps separate.bounded (apart.steps_request catalog traits request)
  taken := by
    intro entry member
    rcases Consistent.mem_request member with old | ⟨passed, key, _⟩
    · exact separate.taken entry old
    · obtain ⟨shared, known⟩ := Consistent.declared_of_check passed
      rw [show entry.generic = request.generic from congrArg Prod.fst key]
      exact declared _ shared known
  unmarked := by
    intro entry member
    rcases Consistent.mem_request member with old | ⟨_, _, unmarked⟩
    · exact separate.unmarked entry old
    · exact unmarked

theorem absorb_empty (base : InstanceTable) (policy : Policy) (accepted : String → Bool) :
    base.absorb (.empty policy) accepted = (base, []) := by
  rw [absorb_eq]
  simp [adopting, joined, empty, Graph.empty, Graph.addEdges]

theorem absorb_linkParent (coherent : base.Coherent) (apartCoherent : apart.Coherent)
    {request : Request} (anchored : request.Anchored (base.absorb apart accepted).2.apply)
    {child place : Nat} (target : (base.absorb apart accepted).2.apply child = some place) :
    base.absorb (apart.linkParent request.parent child) accepted =
      ((base.absorb apart accepted).1.linkParent
          (request.carried (base.absorb apart accepted).2.apply).parent place,
        (base.absorb apart accepted).2) := by
  unfold Request.carried
  cases asked : request.parent with
  | none => rfl
  | some parent =>
    obtain ⟨newParent, source⟩ := Option.isSome_iff_exists.mp (anchored parent asked)
    rw [Option.bind_some, source]
    exact absorb_addExpansion coherent apartCoherent source target

/-- What is adopted for a new instance is what the carried request would enter. -/
theorem adopt_entrant (apart grown : InstanceTable) (renumbering : Renumbering)
    {request : Request} (taken : accepted request.generic = true) (depth : Nat) :
    ∃ next, adopt accepted (grown, renumbering) (apart.entrant request depth) =
        (next, renumbering ++ [some (grown.seat request)]) ∧
      next.linkParent (request.carried renumbering.apply).parent (grown.seat request) =
        grown.seated (request.carried renumbering.apply) depth := by
  cases known : grown.interned? request.generic request.arguments with
  | some place =>
    refine ⟨grown, ?_, ?_⟩
    · rw [seat, known]
      exact adopt_known renumbering taken known
    · simp only [seat, seated, Request.carried, known, Option.getD_some]
  | none =>
    refine ⟨grown.push (grown.entrant (request.carried renumbering.apply) depth), ?_, ?_⟩
    · rw [seat, known]
      exact adopt_new renumbering taken known
    · simp only [seat, seated, entrant, Request.carried, known, Option.getD_none]

/-- A request apart, followed by the merge, does what the carried request does after it. -/
theorem absorb_seated (coherent : base.Coherent) (separate : Separate accepted apart)
    {request : Request} (taken : accepted request.generic = true)
    (anchored : request.Anchored (base.absorb apart accepted).2.apply) (depth : Nat) :
    (base.absorb (apart.seated request depth) accepted).1 =
        (base.absorb apart accepted).1.seated
          (request.carried (base.absorb apart accepted).2.apply) depth ∧
      (∀ id place, (base.absorb apart accepted).2.apply id = some place →
        (base.absorb (apart.seated request depth) accepted).2.apply id = some place) ∧
      (base.absorb (apart.seated request depth) accepted).2.apply (apart.seat request) =
        some ((base.absorb apart accepted).1.seat request) := by
  cases known : apart.interned? request.generic request.arguments with
  | some id =>
    obtain ⟨place, moved, here⟩ :=
      apply_interned coherent separate.coherent separate.taken known
    have linked := absorb_linkParent coherent separate.coherent anchored moved
    simp only [seat, seated, Request.carried, known, here, Option.getD_some] at linked ⊢
    rw [linked]
    exact ⟨rfl, fun _ _ carried => carried, moved⟩
  | none =>
    obtain ⟨next, adopted, linked⟩ := adopt_entrant apart (base.absorb apart accepted).1
      (base.absorb apart accepted).2 taken depth
    have pushed : base.absorb (apart.push (apart.entrant request depth)) accepted = _ :=
      (absorb_push coherent separate.coherent separate.bounded _).trans adopted
    have length := length_absorb coherent apart accepted
    have longer (id place : Nat) (carried : (base.absorb apart accepted).2.apply id = some place) :
        (base.absorb (apart.push (apart.entrant request depth)) accepted).2.apply id =
          some place := by
      rw [pushed, Renumbering.apply_append_left _ _ (Renumbering.lt_length_of_apply _ carried)]
      exact carried
    have moved : (base.absorb (apart.push (apart.entrant request depth)) accepted).2.apply
        apart.size = some ((base.absorb apart accepted).1.seat request) := by
      rw [pushed, ← length]
      exact Renumbering.apply_concat_length _ _
    obtain ⟨still, same⟩ := anchored.mono longer
    have parent := absorb_linkParent coherent (separate.coherent.push rfl known) still moved
    have seated : apart.seated request depth =
        (apart.push (apart.entrant request depth)).linkParent request.parent apart.size := by
      simp only [InstanceTable.seated, known]
    have seat : apart.seat request = apart.size := by
      rw [InstanceTable.seat, known, Option.getD_none]
    rw [seated, seat, parent, same]
    refine ⟨?_, longer, moved⟩
    rw [← linked, pushed]

/-- A request is judged alike in both places, and its effects correspond. -/
theorem follow_request (coherent : base.Coherent) (separate : Separate accepted apart)
    {inPlace : InstanceTable} (same : inPlace.leveled = (base.absorb apart accepted).1.leveled)
    (policy : inPlace.policy = apart.policy) {catalog other : Catalog}
    (lookup : ∀ name, other.generic? name = catalog.generic? name)
    (declared : ∀ name shared, catalog.find? name = some shared → accepted name = true)
    (traits : TraitAuthority) {request : Request}
    (anchored : request.Anchored (base.absorb apart accepted).2.apply)
    (calm : ¬ Outcome.Endless (some (apart.request catalog traits request).1.answer))
    (calmHere : ¬ Outcome.Endless (some (inPlace.request other traits
      (request.carried (base.absorb apart accepted).2.apply)).1.answer)) :
    (inPlace.request other traits
        (request.carried (base.absorb apart accepted).2.apply)).2.leveled =
        (base.absorb (apart.request catalog traits request).2 accepted).1.leveled ∧
      (∀ id place, (base.absorb apart accepted).2.apply id = some place →
        (base.absorb (apart.request catalog traits request).2 accepted).2.apply id = some place) ∧
      Outcome.Matches (base.absorb (apart.request catalog traits request).2 accepted).2.apply
        (some (apart.request catalog traits request).1.answer)
        (some (inPlace.request other traits
          (request.carried (base.absorb apart accepted).2.apply)).1.answer) := by
  have verdict : (request.carried (base.absorb apart accepted).2.apply).check inPlace.policy other
      traits = request.check apart.policy catalog traits := by
    rw [policy, Request.check, Request.check,
      show other.generic? (request.carried _).generic = _ from lookup request.generic]
    rfl
  simp only [InstanceTable.request, verdict] at calm calmHere ⊢
  cases judged : (request.check apart.policy catalog traits).answer with
  | some fault =>
    simp only [absorb_record]
    refine ⟨?_, fun _ _ carried => carried, .fault fault⟩
    exact congrArg (InstanceTable.record · fault) same
  | none =>
    simp only [judged] at calm calmHere
    obtain ⟨shared, known⟩ := Consistent.declared_of_check judged
    have taken : accepted request.generic = true := declared _ shared known
    obtain ⟨seated, longer, moved⟩ := absorb_seated coherent separate taken anchored
      (apart.depthBelow request.parent)
    simp only [settle_eq _ _ calm, settle_eq _ _ calmHere]
    refine ⟨?_, longer, .found ?_⟩
    · rw [seated, leveled_seated, leveled_seated, same]
    · rw [moved, ← seat_leveled, ← same, seat_leveled]
      rfl

end Following

end InstanceTable

namespace CompilationUnit

/-- The unit with nothing said about depths. -/
def leveled (unit : CompilationUnit) : CompilationUnit := { unit with table := unit.table.leveled }

/-- Two runs of the same work, one apart and one in place, after the same errands. -/
structure Mirrors (main : CompilationUnit) (accepted : String → Bool)
    (apart inPlace : CompilationUnit × List Outcome) : Prop where
  traits : inPlace.1.traits = apart.1.traits
  policy : inPlace.1.policy = apart.1.policy
  lookup : ∀ name, inPlace.1.catalog.generic? name = apart.1.catalog.generic? name
  declared : ∀ name shared, apart.1.catalog.find? name = some shared → accepted name = true
  separate : apart.1.table.Separate accepted
  same : inPlace.1.table.leveled = (main.table.absorb apart.1.table accepted).1.leveled
  outcomes : List.Forall₂
    (Outcome.Matches (main.table.absorb apart.1.table accepted).2.apply) apart.2 inPlace.2

section Mirrors

variable {main : CompilationUnit} {accepted : String → Bool}

theorem Mirrors.step {apart inPlace : CompilationUnit × List Outcome}
    (coherent : main.table.Coherent) (mirrors : Mirrors main accepted apart inPlace)
    (errand : Errand) (calm : ∀ outcome ∈ (workStep apart errand).2, ¬ outcome.Endless)
    (calmHere : ∀ outcome ∈ (workStep inPlace errand).2, ¬ outcome.Endless) :
    Mirrors main accepted (workStep apart errand) (workStep inPlace errand) := by
  obtain ⟨translated, anchored⟩ := errand.request?_matches mirrors.lookup mirrors.outcomes
  cases made : errand.request? apart.1.catalog apart.2 with
  | none =>
    rw [made, Option.map_none] at translated
    rw [workStep_of_none made, workStep_of_none translated]
    exact { mirrors with outcomes := List.rel_append mirrors.outcomes (.cons .unmade .nil) }
  | some request =>
    have requested (wanted : Request) : inPlace.1.request wanted =
        ((inPlace.1.table.request inPlace.1.catalog apart.1.traits wanted).1,
          { inPlace.1 with
            table := (inPlace.1.table.request inPlace.1.catalog apart.1.traits wanted).2 }) := by
      simp only [CompilationUnit.request, mirrors.traits]
    rw [made, Option.map_some] at translated
    rw [workStep_of_some made] at calm ⊢
    rw [workStep_of_some translated, requested] at calmHere ⊢
    have quiet := calm _ List.mem_concat_self
    have quietHere := calmHere _ List.mem_concat_self
    have steps := apart.1.table.steps_request apart.1.catalog apart.1.traits request
    have stepsHere := inPlace.1.table.steps_request inPlace.1.catalog apart.1.traits
      (request.carried (main.table.absorb apart.1.table accepted).2.apply)
    obtain ⟨same, longer, answered⟩ := InstanceTable.follow_request coherent mirrors.separate
      mirrors.same mirrors.policy mirrors.lookup mirrors.declared apart.1.traits
      (anchored request made) quiet quietHere
    exact {
      traits := mirrors.traits
      policy := calc
        _ = inPlace.1.policy := InstanceTable.policy_of_steps stepsHere
        _ = apart.1.policy := mirrors.policy
        _ = _ := (InstanceTable.policy_of_steps steps).symm
      lookup := mirrors.lookup
      declared := mirrors.declared
      separate := mirrors.separate.request mirrors.declared apart.1.traits request
      same := same
      outcomes := List.rel_append
        (mirrors.outcomes.imp fun _ _ matched => matched.mono longer) (.cons answered .nil) }

theorem Mirrors.work {apart : CompilationUnit} (coherent : main.table.Coherent)
    (start : Mirrors main accepted (apart, []) (main, [])) (errands : List Errand)
    (calm : ∀ outcome ∈ (apart.work errands).2, ¬ outcome.Endless)
    (calmHere : ∀ outcome ∈ (main.work errands).2, ¬ outcome.Endless) :
    Mirrors main accepted (apart.work errands) (main.work errands) := by
  induction errands using List.reverseRecOn with
  | nil => exact start
  | append_singleton errands errand ih =>
    rw [work_concat] at calm calmHere ⊢
    rw [work_concat]
    apply Mirrors.step coherent _ errand calm calmHere
    apply ih
    · intro outcome member
      exact calm outcome (List.mem_append_left _ member)
    · intro outcome member
      exact calmHere outcome (List.mem_append_left _ member)

end Mirrors

section Seeding

/-- A new unit that has the declarations of a list, under the same traits and policy. -/
def sibling (unit : CompilationUnit) (seed : List SharedGeneric) : CompilationUnit :=
  (empty unit.traits unit.policy).afterAll (seed.map .register)

theorem afterAll_register (unit : CompilationUnit) {seed : List SharedGeneric}
    (distinct : (unit.catalog.names ++ seed.map SharedGeneric.name).Nodup) :
    unit.afterAll (seed.map .register) =
      { unit with catalog := ⟨unit.catalog.registered ++ seed⟩ } := by
  induction seed generalizing unit with
  | nil => simp [afterAll]
  | cons shared rest ih =>
    have free : unit.catalog.find? shared.name = none := by
      rw [Catalog.find?_eq_none_iff]
      intro taken
      exact List.disjoint_of_nodup_append distinct taken List.mem_cons_self
    have registered : unit.after (.register shared) =
        { unit with catalog := ⟨unit.catalog.registered ++ [shared]⟩ } := by
      simp only [after, register, Catalog.register, free]
    change (unit.after (.register shared)).afterAll (rest.map .register) = _
    rw [registered, ih]
    · rw [List.append_assoc, List.singleton_append]
    · simpa [Catalog.names] using distinct

variable {main : CompilationUnit} {seed : List SharedGeneric}

theorem sibling_eq (distinct : (seed.map SharedGeneric.name).Nodup) :
    main.sibling seed = ⟨main.traits, ⟨seed⟩, .empty main.policy, .empty⟩ :=
  afterAll_register (empty main.traits main.policy) distinct

/-- The order of the declarations does not matter to a name's meaning. -/
theorem find?_seed (distinct : main.catalog.names.Nodup)
    (seeded : seed.Perm main.catalog.registered) (name : String) :
    Catalog.find? ⟨seed⟩ name = main.catalog.find? name := by
  have names : (seed.map SharedGeneric.name).Perm main.catalog.names := seeded.map _
  cases known : main.catalog.find? name with
  | none =>
    rw [Catalog.find?_eq_none_iff] at known ⊢
    exact fun listed => known (names.mem_iff.mp listed)
  | some shared =>
    have member : shared ∈ seed := seeded.mem_iff.mpr (List.mem_of_find?_eq_some known)
    have found : Catalog.find? ⟨seed⟩ shared.name = some shared :=
      Catalog.find?_of_mem (names.nodup_iff.mpr distinct) member
    rw [← found, Catalog.name_of_find? known]

/-- Before any errand the two runs agree. -/
theorem mirrors_sibling (distinct : main.catalog.names.Nodup)
    (seeded : seed.Perm main.catalog.registered) :
    Mirrors main (main.acceptedNames (main.sibling seed)).contains
      (main.sibling seed, []) (main, []) := by
  have names : (CompilationUnit.mk main.traits ⟨seed⟩ (.empty main.policy)
      .empty).catalog.names.Nodup :=
    (seeded.map SharedGeneric.name).nodup_iff.mpr distinct
  rw [sibling_eq names]
  exact {
    traits := rfl
    policy := rfl
    lookup := by
      intro name
      rw [Catalog.generic?, Catalog.generic?, find?_seed distinct seeded]
    declared := by
      intro name shared found
      have known : main.catalog.find? name = some shared :=
        (find?_seed distinct seeded name).symm.trans found
      rw [List.contains_iff_mem, mem_acceptedNames_iff names]
      refine ⟨shared, found, ?_⟩
      rw [find?_merge names, known, Option.some_or]
    separate := .empty _ _
    same := by rw [InstanceTable.absorb_empty]
    outcomes := .nil }

/-- Merging a unit without declarations, marks and artifacts of its own adds its instances. -/
theorem merge_separate {other : CompilationUnit} (distinct : other.catalog.names.Nodup)
    (shared : ∀ declaration ∈ other.catalog.registered,
      main.catalog.find? declaration.name = some declaration)
    (unmarked : ∀ entry ∈ other.instances, entry.emitted = false)
    (idle : other.artifacts = []) :
    main.absorbing other =
        main.table.absorb other.table (main.acceptedNames other).contains ∧
      main.merge other = { main with table := (main.absorbing other).1 } := by
  have registered : main.registering other.catalog.registered = main := by
    have none : other.catalog.registered.filter
        (fun declaration => (main.catalog.find? declaration.name).isNone) = [] := by
      rw [List.filter_eq_nil_iff]
      intro declaration member
      simp [shared declaration member]
    have clean : other.catalog.registered.filterMap main.catalog.conflict? = [] := by
      rw [List.filterMap_eq_nil_iff]
      intro declaration member
      simp [Catalog.conflict?, shared declaration member]
    simp [registering, Catalog.adding, none, clean]
  have marks : InstanceTable.absorbedMarks (main.absorbing other).2 other.instances = [] := by
    rw [InstanceTable.absorbedMarks, List.filterMap_eq_nil_iff]
    rintro ⟨place, entry⟩ member
    simp [unmarked entry (List.of_mem_zip member).2]
  constructor
  · rw [absorbing, registered]
  · rw [merge_eq main distinct, InstanceTable.markAbsorbed_eq, marks, registered,
      ArtifactStore.absorb, show other.store.held = [] from idle]
    rfl

end Seeding

/-- Splitting work off makes no difference. A new unit gets all declarations of `main` by
registering them, in any order; errands are carried out there, and the unit is merged. Then
everything but the depths is as if `main` had carried out the errands itself: declarations,
instances with their places, edges and faults in their order, and artifacts. Every errand had
the same outcome in both places, where an instance stands for the one it was merged into. Only
errands that exceed the limit on depths are left out. -/
theorem split_work_merges {main : CompilationUnit} (reached : main.Reachable)
    {seed : List SharedGeneric} (seeded : seed.Perm main.catalog.registered)
    (errands : List Errand)
    (calm : ∀ outcome ∈ ((main.sibling seed).work errands).2, ¬ outcome.Endless)
    (calmHere : ∀ outcome ∈ (main.work errands).2, ¬ outcome.Endless) :
    (main.merge ((main.sibling seed).work errands).1).leveled = (main.work errands).1.leveled ∧
      List.Forall₂ (Outcome.Matches (main.newPlace ((main.sibling seed).work errands).1))
        ((main.sibling seed).work errands).2 (main.work errands).2 := by
  have own := reached.consistent
  have names : (seed.map SharedGeneric.name).Nodup :=
    (seeded.map SharedGeneric.name).nodup_iff.mpr own.distinct
  have mirrors := (mirrors_sibling own.distinct seeded).work own.coherent errands calm calmHere
  -- The unit apart still has the declarations it was given and no artifact.
  have frame := (main.sibling seed).work_frame errands
  have registered : ((main.sibling seed).work errands).1.catalog = ⟨seed⟩ := by
    rw [frame, sibling_eq names]
  have idle : ((main.sibling seed).work errands).1.artifacts = [] := by
    rw [frame, sibling_eq names]
    rfl
  have accepted : main.acceptedNames (main.sibling seed) =
      main.acceptedNames ((main.sibling seed).work errands).1 := by
    rw [acceptedNames, acceptedNames, registered, sibling_eq names]
  rw [accepted] at mirrors
  have distinct : ((main.sibling seed).work errands).1.catalog.names.Nodup := by
    rw [registered]
    exact names
  have shared : ∀ declaration ∈ ((main.sibling seed).work errands).1.catalog.registered,
      main.catalog.find? declaration.name = some declaration := by
    rw [registered]
    intro declaration member
    exact Catalog.find?_of_mem own.distinct (seeded.mem_iff.mp member)
  obtain ⟨absorbed, merged⟩ := merge_separate distinct shared mirrors.separate.unmarked idle
  constructor
  · rw [merged, absorbed, main.work_frame errands]
    exact congrArg (fun table => { main with table := table }) mirrors.same.symm
  · apply mirrors.outcomes.imp
    intro outcome other matched
    apply matched.mono
    intro id place carried
    rw [← apply_absorbing distinct own.coherent, absorbed]
    exact carried

/-- Errands that find an instance, enter one, find another from within it, and fail. -/
def boxErrands : List Errand :=
  [.plain "Box" [.prim .int] none, .withDefaults "Box" [.prim .float] none,
    .nested 1 "Box" [.prim .bool] none, .plain "Crate" [] none, .nested 3 "Box" [.prim .int] none]

theorem boxes_split :
    boxes.Reachable ∧ [box].Perm boxes.catalog.registered ∧
    ((boxes.sibling [box]).work boxErrands).2 = [some (.ok 0), some (.ok 1), some (.ok 2),
      some (.error (.unknownGeneric "Crate" none)), none] ∧
    (boxes.work boxErrands).2 = [some (.ok 2), some (.ok 3), some (.ok 0),
      some (.error (.unknownGeneric "Crate" none)), none] ∧
    (boxes.merge ((boxes.sibling [box]).work boxErrands).1).leveled =
      (boxes.work boxErrands).1.leveled ∧
    (boxes.work boxErrands).1.table.expansion.edges = [(3, 0)] := by
  have apart : ((boxes.sibling [box]).work boxErrands).2 = [some (.ok 0), some (.ok 1),
    some (.ok 2), some (.error (.unknownGeneric "Crate" none)), none] := rfl
  have here : (boxes.work boxErrands).2 = [some (.ok 2), some (.ok 3), some (.ok 0),
    some (.error (.unknownGeneric "Crate" none)), none] := rfl
  have seeded : [box].Perm boxes.catalog.registered := .refl _
  refine ⟨reachable_boxes, seeded, apart, here, ?_, by decide⟩
  apply (split_work_merges reachable_boxes seeded boxErrands ?_ ?_).1
  · rw [apart]
    simp [Outcome.Endless]
  · rw [here]
    simp [Outcome.Endless]

end CompilationUnit

end Monomorph
