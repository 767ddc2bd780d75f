import Monomorph.Proofs.Sweep
import Monomorph.Proofs.Verdicts

/-!
Every instance is valid by the declaration that is registered now. What a request has to
satisfy is `Generic.Admits`, which does not mention where the request was made or in which
order it was judged. Declarations are never replaced, and a merge carries an instance over
only where both units mean the same declaration, so what was admitted once is admitted by
the unit it is found in. Where all units have the same traits and policy, asking for an
instance again leads to it and changes nothing.
-/

namespace Monomorph

/-- The arguments are valid for the generic. -/
structure Generic.Admits (generic : Generic) (policy : Policy) (traits : TraitAuthority)
    (arguments : List Ty) : Prop where
  count : arguments.length = generic.arity
  shapes : ∀ pair ∈ generic.parameters.zip arguments,
    Request.rejection policy pair.1 pair.2 = none
  bounds : ∀ pair ∈ generic.parameters.zip arguments, ∀ bound ∈ pair.1.bounds,
    traits.satisfies pair.2 [bound] = true
  clauses : ∀ clause ∈ generic.clauses, ∀ trait ∈ clause.traits,
    traits.implements (generic.specialise arguments clause.subject) trait = true

namespace Request

variable {policy : Policy} {traits : TraitAuthority} {request : Request} {generic : Generic}
  {σ : String → Option Ty}

theorem granted_iff (assigned : Assigns generic.parameterNames request.arguments σ) :
    (∀ requirement ∈ request.requirements σ generic, requirement.granted traits = true) ↔
      (∀ pair ∈ generic.parameters.zip request.arguments, ∀ bound ∈ pair.1.bounds,
        traits.satisfies pair.2 [bound] = true) ∧
      ∀ clause ∈ generic.clauses, ∀ trait ∈ clause.traits,
        traits.implements (generic.specialise request.arguments clause.subject) trait = true := by
  simp only [requirements, List.forall_mem_append, List.forall_mem_flatMap, boundRequirements,
    clauseRequirements, List.forall_mem_map, Requirement.granted,
    Generic.specialise_eq_plain assigned]

/-- A request has no fault exactly if it names a declaration that admits its arguments. -/
theorem answer_check_eq_none_iff (catalog : Catalog) :
    (request.check policy catalog traits).answer = none ↔
      ∃ shared, catalog.find? request.generic = some shared ∧
        shared.generic.Admits policy traits request.arguments := by
  constructor
  · intro passed
    obtain ⟨verdict, asked, judged⟩ := exists_judges policy catalog traits request
    rw [judged.sound] at passed
    obtain rfl : verdict = none := passed
    cases judged with
    | passed shaped granted =>
      obtain ⟨shared, known, rfl⟩ := Option.map_eq_some_iff.mp shaped.known
      obtain ⟨bounds, clauses⟩ := (granted_iff shaped.assigned).mp granted
      have shapes := fun pair member => accepts_iff.mp (shaped.accepted pair member)
      exact ⟨shared, known, ⟨shaped.count, shapes, bounds, clauses⟩⟩
  · rintro ⟨shared, known, admits⟩
    have shaped : request.Shaped (positional shared.generic.parameterNames request.arguments)
        policy catalog shared.generic :=
      ⟨by rw [Catalog.generic?, known, Option.map_some], admits.count,
        fun pair member => accepts_iff.mpr (admits.shapes pair member), assigns_iff.mpr rfl⟩
    have granted := (granted_iff shaped.assigned).mpr ⟨admits.bounds, admits.clauses⟩
    rw [(Judges.passed shaped granted).sound]

end Request

namespace CompilationUnit

/-- Units that come about as reachable ones do, where the traits and policy of every unit on
the way are allowed. -/
inductive ReachableWithin (allowed : TraitAuthority → Policy → Prop) : CompilationUnit → Prop
  | empty {traits : TraitAuthority} {policy : Policy} :
      allowed traits policy → ReachableWithin allowed (.empty traits policy)
  | change {unit : CompilationUnit} (change : Change) : ReachableWithin allowed unit →
      (∀ other, change = .merge other → ReachableWithin allowed other) →
      ReachableWithin allowed (unit.after change)

variable {unit other : CompilationUnit} {allowed : TraitAuthority → Policy → Prop}

theorem ReachableWithin.reachable (reached : unit.ReachableWithin allowed) : unit.Reachable := by
  induction reached with
  | empty _ => exact .empty _ _
  | change change _ _ own merged => exact own.change change merged

theorem Reachable.within (reached : unit.Reachable) :
    unit.ReachableWithin fun _ _ => True := by
  induction reached with
  | empty traits policy => exact .empty trivial
  | change change _ _ own merged => exact own.change change merged

theorem ReachableWithin.afterAll {changes : List Change} (reached : unit.ReachableWithin allowed)
    (merged : ∀ other, Change.merge other ∈ changes → other.ReachableWithin allowed) :
    (unit.afterAll changes).ReachableWithin allowed := by
  induction changes generalizing unit with
  | nil => exact reached
  | cons change rest ih =>
    have next : (unit.after change).ReachableWithin allowed :=
      reached.change change fun other same => merged other (same ▸ List.mem_cons_self)
    exact ih next fun other member => merged other (List.mem_cons_of_mem _ member)

section Frame

variable (unit)

theorem policy_after (change : Change) : (unit.after change).policy = unit.policy :=
  InstanceTable.policy_of_steps (unit.steps_after change)

theorem traits_after (change : Change) : (unit.after change).traits = unit.traits := by
  cases change with
  | register shared =>
    change (unit.register shared).2.traits = unit.traits
    unfold register
    split <;> rfl
  | merge other =>
    exact List.foldlRecOn (motive := fun state : CompilationUnit × List String =>
      state.1.traits = unit.traits) other.catalog.registered accept rfl
      fun state before shared _ =>
        (congrArg (fun next => next.1.traits) (accept_eq state.1 state.2 shared)).trans before
  | _ => rfl

end Frame

/-- A declaration once registered stays registered. -/
theorem includes_after {change : Change}
    (merged : ∀ other, change = .merge other → other.catalog.names.Nodup) :
    (unit.after change).catalog.Includes unit.catalog := by
  cases change with
  | register shared =>
    intro name found known
    change (unit.register shared).2.catalog.find? name = some found
    unfold register Catalog.register
    cases unit.catalog.find? shared.name with
    | some existing => exact known
    | none =>
      change Catalog.find? ⟨unit.catalog.registered ++ [shared]⟩ name = some found
      rw [Catalog.find?_append, known, Option.some_or]
  | merge other =>
    intro name found known
    change (unit.merge other).catalog.find? name = some found
    rw [find?_merge (merged other rfl), known, Option.some_or]
  | _ => exact .refl _

/-- Where the instances of a unit come from: they were there before, or a request was found
without fault by the unit as it is, or a merge accepted their generic. -/
theorem origin_after (own : Consistent unit.catalog unit.table unit.store) {change : Change}
    (merged : ∀ other, change = .merge other → other.catalog.names.Nodup) {found : Instance}
    (member : found ∈ (unit.after change).instances) :
    (∃ entry ∈ unit.instances, found.key = entry.key) ∨
    (∃ shared, unit.catalog.find? found.generic = some shared ∧
      shared.generic.Admits unit.policy unit.traits found.arguments) ∨
    ∃ other, change = .merge other ∧ ∃ entry ∈ other.instances,
      entry.generic ∈ unit.acceptedNames other ∧ found.key = entry.key := by
  have requested {request : Request}
      (entered : found ∈ (unit.table.request unit.catalog unit.traits request).2.instances) :
      (∃ entry ∈ unit.instances, found.key = entry.key) ∨
      ∃ shared, unit.catalog.find? found.generic = some shared ∧
        shared.generic.Admits unit.policy unit.traits found.arguments := by
    rcases Consistent.mem_request entered with old | ⟨passed, key, _⟩
    · exact Or.inl ⟨found, old, rfl⟩
    · rw [show found.generic = request.generic from congrArg Prod.fst key,
        show found.arguments = request.arguments from congrArg Prod.snd key]
      exact Or.inr ((Request.answer_check_eq_none_iff unit.catalog).mp passed)
  cases change with
  | register shared =>
    change found ∈ (unit.register shared).2.instances at member
    unfold register at member
    split at member
    · exact Or.inl ⟨found, member, rfl⟩
    · exact Or.inl ⟨found, member, rfl⟩
  | request request =>
    rcases requested member with old | new
    · exact Or.inl old
    · exact Or.inr (Or.inl new)
  | requestWithDefaults request =>
    rcases requested member with old | new
    · exact Or.inl old
    · exact Or.inr (Or.inl new)
  | sweep =>
    change found ∈ unit.sweep.2.table.instances at member
    rw [table_sweep own] at member
    obtain ⟨entry, listed, rfl⟩ := List.mem_map.mp member
    exact Or.inl ⟨entry, listed, rfl⟩
  | takeArtifacts => exact Or.inl ⟨found, member, rfl⟩
  | takeFaults => exact Or.inl ⟨found, member, rfl⟩
  | merge other =>
    rcases mem_instances_merge (merged other rfl) member with old | carried
    · exact Or.inl old
    · exact Or.inr (Or.inr ⟨other, rfl, carried⟩)

/-- The declaration registered now admits the instance, by allowed traits and policy. -/
def AdmitsWithin (allowed : TraitAuthority → Policy → Prop) (unit : CompilationUnit)
    (entry : Instance) : Prop :=
  ∃ shared, unit.catalog.find? entry.generic = some shared ∧
    ∃ traits policy, allowed traits policy ∧ shared.generic.Admits policy traits entry.arguments

theorem AdmitsWithin.of_key {entry found : Instance} (admits : unit.AdmitsWithin allowed entry)
    (key : found.key = entry.key) : unit.AdmitsWithin allowed found := by
  obtain ⟨shared, known, traits, policy, permitted, valid⟩ := admits
  have generic : found.generic = entry.generic := congrArg Prod.fst key
  have arguments : found.arguments = entry.arguments := congrArg Prod.snd key
  exact ⟨shared, generic ▸ known, traits, policy, permitted, arguments ▸ valid⟩

/-- What admits an instance is known by the declaration alone. -/
theorem AdmitsWithin.of_declaration {later : CompilationUnit} {entry : Instance}
    (admits : unit.AdmitsWithin allowed entry)
    (same : ∀ shared, unit.catalog.find? entry.generic = some shared →
      later.catalog.find? entry.generic = some shared) : later.AdmitsWithin allowed entry := by
  obtain ⟨shared, known, valid⟩ := admits
  exact ⟨shared, same shared known, valid⟩

theorem admitted_after (own : Consistent unit.catalog unit.table unit.store)
    (permitted : allowed unit.traits unit.policy) {change : Change}
    (merged : ∀ other, change = .merge other → other.catalog.names.Nodup)
    (before : ∀ entry ∈ unit.instances, unit.AdmitsWithin allowed entry)
    (carried : ∀ other, change = .merge other →
      ∀ entry ∈ other.instances, other.AdmitsWithin allowed entry) :
    ∀ found ∈ (unit.after change).instances, (unit.after change).AdmitsWithin allowed found := by
  intro found member
  have includes : (unit.after change).catalog.Includes unit.catalog := includes_after merged
  rcases origin_after own merged member with
    ⟨entry, listed, key⟩ | ⟨shared, known, valid⟩ | ⟨other, rfl, entry, listed, accepted, key⟩
  · exact ((before entry listed).of_declaration fun shared known =>
      includes _ shared known).of_key key
  · exact ⟨shared, includes _ shared known, unit.traits, unit.policy, permitted, valid⟩
  · -- Both units mean the same declaration by the name of a carried instance.
    obtain ⟨shared, there, here⟩ := find?_merge_accepted (merged other rfl) accepted
    refine ((carried other rfl entry listed).of_declaration fun declared known => ?_).of_key key
    rw [there] at known
    cases known
    exact here

theorem ReachableWithin.admitted (reached : unit.ReachableWithin allowed) :
    allowed unit.traits unit.policy ∧
      ∀ entry ∈ unit.instances, unit.AdmitsWithin allowed entry := by
  induction reached with
  | empty permitted =>
    refine ⟨permitted, ?_⟩
    intro entry member
    cases member
  | @change unit change before others own merged =>
    refine ⟨?_, ?_⟩
    · rw [traits_after, policy_after]
      exact own.1
    · exact admitted_after before.reachable.consistent own.1
        (fun other same => (others other same).reachable.consistent.distinct) own.2
        fun other same => (merged other same).2

/-- A request for an instance that is there leads to it and changes nothing. -/
theorem request_again (coherent : unit.table.Coherent) {entry : Instance}
    (member : entry ∈ unit.instances) {shared : SharedGeneric}
    (known : unit.catalog.find? entry.generic = some shared)
    (valid : shared.generic.Admits unit.policy unit.traits entry.arguments) (span : Option Span) :
    (unit.request ⟨entry.generic, entry.arguments, span, none⟩).1.answer = .ok entry.id ∧
      (unit.request ⟨entry.generic, entry.arguments, span, none⟩).2 = unit := by
  have passed : (Request.check unit.table.policy unit.catalog unit.traits
      ⟨entry.generic, entry.arguments, span, none⟩).answer = none :=
    (Request.answer_check_eq_none_iff unit.catalog).mpr ⟨shared, known, valid⟩
  have interned : unit.table.interned? entry.generic entry.arguments = some entry.id :=
    (coherent.interned?_eq_some_iff _ _ _).mpr ⟨entry, coherent.get?_id member, rfl⟩
  have settled : unit.table.settle ⟨entry.generic, entry.arguments, span, none⟩ =
      (.ok entry.id, unit.table) := by
    simp only [InstanceTable.settle, interned, InstanceTable.linkParent]
  simp only [request, InstanceTable.request, passed, settled]
  exact ⟨trivial, trivial⟩

/-- In every unit each instance is of a declaration that is registered and takes as many
arguments. If all units it was made from have the same traits and policy, a request for an
instance leads to it, wherever it is made, and the unit stays as it is. What a merge carries
over from another unit is declared there just as it is here. -/
theorem instances_admitted {unit : CompilationUnit} (reached : unit.Reachable) :
    (∀ entry ∈ unit.instances, ∃ shared, unit.catalog.find? entry.generic = some shared ∧
      entry.arguments.length = shared.generic.arity) ∧
    (∀ traits policy,
      unit.ReachableWithin (fun otherTraits otherPolicy =>
        otherTraits = traits ∧ otherPolicy = policy) →
      ∀ entry ∈ unit.instances, ∀ span,
        (unit.request ⟨entry.generic, entry.arguments, span, none⟩).1.answer = .ok entry.id ∧
        (unit.request ⟨entry.generic, entry.arguments, span, none⟩).2 = unit) ∧
    ∀ other, other.Reachable → ∀ entry ∈ (unit.merge other).instances,
      (∃ own ∈ unit.instances, entry.key = own.key) ∨
      ∃ theirs ∈ other.instances, entry.key = theirs.key ∧
        other.catalog.find? entry.generic = (unit.merge other).catalog.find? entry.generic := by
  refine ⟨?_, ?_, ?_⟩
  · intro entry member
    obtain ⟨shared, known, _, _, _, valid⟩ := reached.within.admitted.2 entry member
    exact ⟨shared, known, valid.count⟩
  · intro traits policy uniform entry member span
    obtain ⟨⟨ownTraits, ownPolicy⟩, admitted⟩ := uniform.admitted
    obtain ⟨shared, known, _, _, ⟨rfl, rfl⟩, valid⟩ := admitted entry member
    rw [← ownTraits, ← ownPolicy] at valid
    exact request_again reached.coherent member known valid span
  · intro other otherReached entry member
    have distinct := otherReached.consistent.distinct
    rcases mem_instances_merge distinct member with old | ⟨theirs, listed, accepted, key⟩
    · exact Or.inl old
    · obtain ⟨shared, there, here⟩ := find?_merge_accepted distinct accepted
      refine Or.inr ⟨theirs, listed, key, ?_⟩
      rw [show entry.generic = theirs.generic from congrArg Prod.fst key, there, here]

theorem boxes_admitted :
    boxes.ReachableWithin (fun traits policy => traits = .lenient ∧ policy = .standard) ∧
    (∃ entry, boxes.instances[2]? = some entry ∧
      boxes.catalog.find? entry.generic = some box ∧ entry.arguments.length = 1 ∧
      (boxes.request ⟨entry.generic, entry.arguments, some ⟨3, 7⟩, none⟩).1.answer = .ok 2 ∧
      (boxes.request ⟨entry.generic, entry.arguments, some ⟨3, 7⟩, none⟩).2 = boxes) := by
  have uniform : intBoxes.ReachableWithin
      (fun traits policy => traits = .lenient ∧ policy = .standard) := by
    apply ReachableWithin.afterAll (.empty ⟨rfl, rfl⟩)
    intro other member
    simp [boxOf] at member
  have all : boxes.ReachableWithin
      (fun traits policy => traits = .lenient ∧ policy = .standard) := by
    apply ReachableWithin.afterAll (.empty ⟨rfl, rfl⟩)
    intro other member
    have same : other = intBoxes := by simpa [boxHistory, boxOf] using member
    exact same ▸ uniform
  have again := (instances_admitted reachable_boxes).2.1 _ _ all
  have third : ∃ entry, boxes.instances[2]? = some entry ∧
      boxes.catalog.find? entry.generic = some box ∧ entry.arguments.length = 1 ∧ entry.id = 2 :=
    ⟨_, rfl, rfl, rfl, rfl⟩
  obtain ⟨entry, found, known, count, id⟩ := third
  have member : entry ∈ boxes.instances := List.mem_of_getElem? found
  obtain ⟨answer, unchanged⟩ := again entry member (some ⟨3, 7⟩)
  exact ⟨all, entry, found, known, count, id ▸ answer, unchanged⟩

end CompilationUnit

end Monomorph
