import Monomorph.Proofs.Admission
import Monomorph.Proofs.Answers

/-!
A request that succeeded once succeeds ever after, and with the same instance. What it takes to
succeed again is that the declaration admits the arguments and that they are interned; neither
is ever lost, since a unit keeps its traits, its policy, its declarations and the places of its
instances. Where an instance is found nothing is said about depth, so it does not matter who
repeats the request.
-/

namespace Monomorph

namespace Catalog

theorem Includes.trans {catalog later last : Catalog} (second : last.Includes later)
    (first : later.Includes catalog) : last.Includes catalog :=
  fun name shared known => second name shared (first name shared known)

end Catalog

namespace Request

variable {catalog : Catalog} {request : Request} {shared : SharedGeneric}

theorem generic_withDefaults (catalog : Catalog) (request : Request) :
    (request.withDefaults catalog).generic = request.generic := by
  unfold withDefaults
  split <;> rfl

/-- A request with all its arguments has none to fill in. -/
theorem withDefaults_of_count (known : catalog.find? request.generic = some shared)
    (count : request.arguments.length = shared.generic.arity) :
    request.withDefaults catalog = request := by
  have none : shared.generic.parameters.drop request.arguments.length = [] := by
    rw [count]
    exact List.drop_length
  simp only [withDefaults, Catalog.generic?, known, Option.map_some, none, fillDefaults]

/-- The arguments that are filled in are known by the declaration alone. -/
theorem withDefaults_again {later : Catalog} (includes : later.Includes catalog)
    (known : catalog.find? request.generic = some shared) (span : Option Span)
    (parent : Option Nat) :
    withDefaults later ⟨request.generic, request.arguments, span, parent⟩ =
      ⟨request.generic, (request.withDefaults catalog).arguments, span, parent⟩ := by
  simp only [withDefaults, Catalog.generic?, known, includes _ _ known, Option.map_some]

end Request

namespace CompilationUnit

/-- The same unit at a later time. -/
structure Evolves (unit later : CompilationUnit) : Prop where
  traits : later.traits = unit.traits
  policy : later.policy = unit.policy
  declared : later.catalog.Includes unit.catalog
  steps : unit.table.Steps later.table

theorem evolves_after (unit : CompilationUnit) {change : Change}
    (merged : ∀ other, change = .merge other → other.Reachable) :
    unit.Evolves (unit.after change) where
  traits := unit.traits_after change
  policy := unit.policy_after change
  declared := includes_after fun other same => (merged other same).consistent.distinct
  steps := unit.steps_after change

theorem evolves_afterAll (unit : CompilationUnit) {changes : List Change}
    (lawful : Lawful changes) : unit.Evolves (unit.afterAll changes) := by
  induction changes generalizing unit with
  | nil => exact ⟨rfl, rfl, .refl _, .refl⟩
  | cons change rest ih =>
    obtain ⟨merged, rests⟩ := lawful_cons.mp lawful
    have first := unit.evolves_after merged
    have second := ih (unit.after change) rests
    exact {
      traits := second.traits.trans first.traits
      policy := second.policy.trans first.policy
      declared := second.declared.trans first.declared
      steps := first.steps.trans second.steps }

/-- A request for the generic with these arguments was answered with the instance. -/
structure Settled (unit : CompilationUnit) (generic : String) (arguments : List Ty) (id : Nat) :
    Prop where
  admitted : ∃ shared, unit.catalog.find? generic = some shared ∧
    shared.generic.Admits unit.policy unit.traits arguments
  interned : unit.table.interned? generic arguments = some id

/-- The call leads to the instance and enters none. -/
def Finds (unit : CompilationUnit) (id : Nat)
    (call : Inquiry TraitQuestion (Except Fault Nat) × CompilationUnit) : Prop :=
  call.1.answer = .ok id ∧ call.2.instances = unit.instances

section Settled

variable {unit later : CompilationUnit} {generic : String} {arguments : List Ty} {id : Nat}

theorem settled_of_answer (coherent : unit.table.Coherent) {request : Request}
    (served : (unit.request request).1.answer = .ok id) :
    (unit.request request).2.Settled request.generic request.arguments id := by
  unfold CompilationUnit.request at served ⊢
  rcases unit.table.request_cases unit.catalog unit.traits request with
    ⟨fault, same⟩ | ⟨passed, ⟨place, known, same⟩ | ⟨absent, _, same⟩⟩
  · rw [same] at served
    cases served
  · rw [same] at served ⊢
    cases served
    refine ⟨?_, (InstanceTable.interned?_linkParent _ _ _ _ _).trans known⟩
    cases request.parent <;> exact (Request.answer_check_eq_none_iff unit.catalog).mp passed
  · rw [same] at served ⊢
    cases served
    refine ⟨?_, (InstanceTable.interned?_linkParent _ _ _ _ _).trans ?_⟩
    · cases request.parent <;> exact (Request.answer_check_eq_none_iff unit.catalog).mp passed
    · exact InstanceTable.interned?_push_self coherent rfl absent

theorem Settled.evolves (settled : unit.Settled generic arguments id)
    (coherent : unit.table.Coherent) (evolves : unit.Evolves later) :
    later.Settled generic arguments id where
  admitted := by
    obtain ⟨shared, known, admits⟩ := settled.admitted
    refine ⟨shared, evolves.declared _ shared known, ?_⟩
    rw [evolves.policy, evolves.traits]
    exact admits
  interned := InstanceTable.interned?_of_steps coherent evolves.steps settled.interned

theorem Settled.request_eq (settled : unit.Settled generic arguments id) (span : Option Span)
    (parent : Option Nat) :
    unit.request ⟨generic, arguments, span, parent⟩ =
      (⟨.ok id, (Request.check unit.policy unit.catalog unit.traits
          ⟨generic, arguments, span, parent⟩).asked⟩,
        { unit with table := unit.table.linkParent parent id }) := by
  have passed : (Request.check unit.table.policy unit.catalog unit.traits
      ⟨generic, arguments, span, parent⟩).answer = none :=
    (Request.answer_check_eq_none_iff unit.catalog).mpr settled.admitted
  unfold CompilationUnit.request
  rw [InstanceTable.request_known passed settled.interned]
  rfl

theorem Settled.finds (settled : unit.Settled generic arguments id) (span : Option Span)
    (parent : Option Nat) : unit.Finds id (unit.request ⟨generic, arguments, span, parent⟩) := by
  rw [settled.request_eq]
  exact ⟨rfl, InstanceTable.instances_linkParent _ _ _⟩

end Settled

/-- Once a request was answered with an instance, the same generic and arguments lead to that
instance after whatever happens to the unit, for any span and with any parent or none, and no
instance is entered. The arguments of the first request are complete, so it may be repeated as
one that leaves arguments to the defaults; a request that did so may be repeated as it was. -/
theorem requests_stable {unit : CompilationUnit} (reached : unit.Reachable) (request : Request)
    (id : Nat) {changes : List Change} (lawful : Lawful changes) (span : Option Span)
    (parent : Option Nat) :
    ((unit.request request).1.answer = .ok id →
      let later := (unit.request request).2.afterAll changes
      let again : Request := ⟨request.generic, request.arguments, span, parent⟩
      later.Finds id (later.request again) ∧ later.Finds id (later.requestWithDefaults again)) ∧
    ((unit.requestWithDefaults request).1.answer = .ok id →
      let later := (unit.requestWithDefaults request).2.afterAll changes
      let again : Request := ⟨request.generic, request.arguments, span, parent⟩
      later.Finds id (later.requestWithDefaults again)) := by
  constructor
  · intro served later again
    have settled := settled_of_answer reached.coherent served
    have now : later.Settled request.generic request.arguments id :=
      settled.evolves (reached.change (.request request) nofun).coherent
        (evolves_afterAll _ lawful)
    obtain ⟨shared, known, admits⟩ := now.admitted
    have complete : again.withDefaults later.catalog = again :=
      Request.withDefaults_of_count known admits.count
    refine ⟨now.finds span parent, ?_⟩
    rw [requestWithDefaults, complete]
    exact now.finds span parent
  · intro served later again
    have settled := settled_of_answer reached.coherent served
    rw [Request.generic_withDefaults] at settled
    have evolves : Evolves _ later := evolves_afterAll _ lawful
    have now : later.Settled request.generic (request.withDefaults unit.catalog).arguments id :=
      settled.evolves (reached.change (.requestWithDefaults request) nofun).coherent evolves
    obtain ⟨shared, known, _⟩ := settled.admitted
    have completed : again.withDefaults later.catalog = _ :=
      Request.withDefaults_again evolves.declared known span parent
    rw [requestWithDefaults, completed]
    exact now.finds span parent

section Reels

/-- A generic whose second parameter has a default that mentions the first. -/
def reel : SharedGeneric :=
  ⟨4, { Generic.bare "Reel" with
    parameters := [⟨"T", [], none, none, none, none⟩,
      ⟨"U", [], some (.named "List" [.param "T"]), none, none, none⟩] }⟩

/-- A unit in which no instance may ask for a new one. -/
def reels : CompilationUnit :=
  (empty .lenient { Policy.standard with maxDepth := 0 }).afterAll
    [.register box, .register reel, boxOf .char]

theorem reachable_reels : reels.Reachable := by
  apply (Reachable.empty _ _).afterAll
  simp [boxOf]

def reelChanges : List Change :=
  [.register reel, boxOf .bool, .sweep, .takeArtifacts, .takeFaults, .merge boxes]

theorem reels_stable :
    reels.Reachable ∧ Lawful reelChanges ∧
    (reels.request ⟨"Box", [.prim .int], none, none⟩).1.answer = .ok 1 ∧
    (let later := (reels.request ⟨"Box", [.prim .int], none, none⟩).2.afterAll reelChanges
     later.Finds 1 (later.request ⟨"Box", [.prim .int], some ⟨3, 7⟩, some 0⟩)) ∧
    (reels.requestWithDefaults ⟨"Reel", [.prim .int], none, none⟩).1.answer = .ok 1 ∧
    (let later :=
      (reels.requestWithDefaults ⟨"Reel", [.prim .int], none, none⟩).2.afterAll reelChanges
     later.Finds 1 (later.requestWithDefaults ⟨"Reel", [.prim .int], some ⟨3, 7⟩, none⟩)) := by
  have lawful : Lawful reelChanges := by simp [reelChanges, boxOf, reachable_boxes]
  have served : (reels.request ⟨"Box", [.prim .int], none, none⟩).1.answer = .ok 1 := rfl
  have filled : (reels.requestWithDefaults ⟨"Reel", [.prim .int], none, none⟩).1.answer = .ok 1 :=
    rfl
  have plain := (requests_stable reachable_reels ⟨"Box", [.prim .int], none, none⟩ 1 lawful
    (some ⟨3, 7⟩) (some 0)).1 served
  have defaulted := (requests_stable reachable_reels ⟨"Reel", [.prim .int], none, none⟩ 1 lawful
    (some ⟨3, 7⟩) none).2 filled
  exact ⟨reachable_reels, lawful, served, plain.1, filled, defaulted⟩

end Reels

end CompilationUnit

end Monomorph
