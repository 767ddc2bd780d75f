import Mathlib.Data.List.Forall2
import Monomorph.CompilationUnit.Basic

/-!
Pieces of work: requests made one after another, where a request may come from the instance
that an earlier one led to. The instances that requests lead to may be numbered differently
where the same work is done twice; then the earlier outcomes say which instance is meant.
-/

namespace Monomorph

/-- The request as it is made where the instances have other places. -/
def Request.carried (carry : Nat → Option Nat) (request : Request) : Request :=
  { request with parent := request.parent.bind carry }

/-- The instance that makes the request, if there is one, has another place. -/
def Request.Anchored (carry : Nat → Option Nat) (request : Request) : Prop :=
  ∀ parent, request.parent = some parent → (carry parent).isSome

theorem Request.Anchored.mono {carry later : Nat → Option Nat} {request : Request}
    (anchored : request.Anchored carry)
    (longer : ∀ id place, carry id = some place → later id = some place) :
    request.Anchored later ∧ request.carried later = request.carried carry := by
  unfold Anchored carried at *
  cases asked : request.parent with
  | none => exact ⟨nofun, rfl⟩
  | some parent =>
    obtain ⟨place, moved⟩ := Option.isSome_iff_exists.mp (anchored parent asked)
    simp [moved, longer parent place moved]

theorem Request.parent_withDefaults (catalog : Catalog) (request : Request) :
    (request.withDefaults catalog).parent = request.parent := by
  unfold withDefaults
  split <;> rfl

/-- A request of a piece of work. A nested one is made by the instance that an earlier request
of the same work led to. -/
inductive Errand where
  | plain (generic : String) (arguments : List Ty) (span : Option Span)
  | withDefaults (generic : String) (arguments : List Ty) (span : Option Span)
  | nested (earlier : Nat) (generic : String) (arguments : List Ty) (span : Option Span)

/-- The answer to an errand, or nothing for a nested one that no instance could make. -/
abbrev Outcome := Option (Except Fault Nat)

namespace Outcome

def instance? : Outcome → Option Nat
  | some (.ok id) => some id
  | _ => none

/-- The limit on the depth was exceeded. -/
def Endless : Outcome → Prop
  | some (.error (.endlessExpansion _ _ _ _)) => True
  | _ => False

/-- Equal outcomes, up to the places of the instances. -/
inductive Matches (carry : Nat → Option Nat) : Outcome → Outcome → Prop
  | unmade : Matches carry none none
  | fault (fault : Fault) : Matches carry (some (.error fault)) (some (.error fault))
  | found {id place : Nat} (carried : carry id = some place) :
      Matches carry (some (.ok id)) (some (.ok place))

theorem Matches.mono {carry later : Nat → Option Nat}
    (longer : ∀ id place, carry id = some place → later id = some place) {outcome other : Outcome}
    (matched : Matches carry outcome other) : Matches later outcome other := by
  cases matched with
  | unmade => exact .unmade
  | fault fault => exact .fault fault
  | found carried => exact .found (longer _ _ carried)

/-- The instance that an earlier errand led to. -/
def earlier? (outcomes : List Outcome) (earlier : Nat) : Option Nat :=
  outcomes[earlier]?.bind instance?

theorem earlier?_matches {carry : Nat → Option Nat} {outcomes others : List Outcome}
    (matched : List.Forall₂ (Matches carry) outcomes others) (earlier : Nat) :
    earlier? others earlier = (earlier? outcomes earlier).bind carry ∧
      ∀ id, earlier? outcomes earlier = some id → (carry id).isSome := by
  induction matched generalizing earlier with
  | nil => simp [earlier?]
  | cons first rest ih =>
    cases earlier with
    | succ earlier => exact ih earlier
    | zero =>
      cases first with
      | unmade => simp [earlier?, instance?]
      | fault fault => simp [earlier?, instance?]
      | found carried => simp [earlier?, instance?, carried]

end Outcome

namespace Errand

/-- The request that is made for an errand. -/
def request? (catalog : Catalog) (outcomes : List Outcome) : Errand → Option Request
  | plain generic arguments span => some ⟨generic, arguments, span, none⟩
  | withDefaults generic arguments span =>
      some (Request.withDefaults catalog ⟨generic, arguments, span, none⟩)
  | nested earlier generic arguments span =>
      (Outcome.earlier? outcomes earlier).map fun parent =>
        ⟨generic, arguments, span, some parent⟩

/-- Two runs with the same outcomes so far make the same request next. -/
theorem request?_matches {catalog other : Catalog}
    (lookup : ∀ name, other.generic? name = catalog.generic? name)
    {carry : Nat → Option Nat} {outcomes others : List Outcome}
    (matched : List.Forall₂ (Outcome.Matches carry) outcomes others) (errand : Errand) :
    errand.request? other others = (errand.request? catalog outcomes).map (.carried carry) ∧
      ∀ request, errand.request? catalog outcomes = some request → request.Anchored carry := by
  cases errand with
  | plain generic arguments span =>
    refine ⟨rfl, ?_⟩
    rintro request ⟨⟩ parent ⟨⟩
  | withDefaults generic arguments span =>
    have alone := Request.parent_withDefaults catalog ⟨generic, arguments, span, none⟩
    have same : Request.withDefaults other ⟨generic, arguments, span, none⟩ =
        Request.withDefaults catalog ⟨generic, arguments, span, none⟩ := by
      rw [Request.withDefaults, Request.withDefaults, lookup]
    constructor
    · rw [request?, request?, same, Option.map_some, Request.carried, alone]
      exact congrArg (fun parent => some { Request.withDefaults catalog _ with parent }) alone
    · rintro request ⟨⟩ parent asked
      rw [alone] at asked
      cases asked
  | nested earlier generic arguments span =>
    obtain ⟨translated, carried⟩ := Outcome.earlier?_matches matched earlier
    constructor
    · rw [request?, request?, translated]
      cases asked : Outcome.earlier? outcomes earlier with
      | none => rfl
      | some parent =>
        obtain ⟨place, moved⟩ := Option.isSome_iff_exists.mp (carried parent asked)
        simp [Request.carried, moved]
    · intro request made parent asked
      obtain ⟨id, found, rfl⟩ := Option.map_eq_some_iff.mp made
      cases asked
      exact carried parent found

end Errand

namespace CompilationUnit

/-- Carry out an errand, after others that had the given outcomes. -/
def carryOut (unit : CompilationUnit) (outcomes : List Outcome) :
    Errand → Outcome × CompilationUnit
  | .plain generic arguments span =>
      let (outcome, next) := unit.request ⟨generic, arguments, span, none⟩
      (some outcome.answer, next)
  | .withDefaults generic arguments span =>
      let (outcome, next) := unit.requestWithDefaults ⟨generic, arguments, span, none⟩
      (some outcome.answer, next)
  | .nested earlier generic arguments span =>
      match Outcome.earlier? outcomes earlier with
      | none => (none, unit)
      | some parent =>
          let (outcome, next) := unit.request ⟨generic, arguments, span, some parent⟩
          (some outcome.answer, next)

def workStep (state : CompilationUnit × List Outcome) (errand : Errand) :
    CompilationUnit × List Outcome :=
  let (outcome, next) := state.1.carryOut state.2 errand
  (next, state.2 ++ [outcome])

/-- Carry out errands one after another. -/
def work (unit : CompilationUnit) (errands : List Errand) : CompilationUnit × List Outcome :=
  errands.foldl workStep (unit, [])

section Work

theorem workStep_eq (state : CompilationUnit × List Outcome) (errand : Errand) :
    workStep state errand =
      match errand.request? state.1.catalog state.2 with
      | none => (state.1, state.2 ++ [none])
      | some request =>
          ((state.1.request request).2, state.2 ++ [some (state.1.request request).1.answer]) := by
  cases errand with
  | plain generic arguments span => rfl
  | withDefaults generic arguments span => rfl
  | nested earlier generic arguments span =>
    simp only [workStep, carryOut, Errand.request?]
    cases Outcome.earlier? state.2 earlier <;> rfl

theorem workStep_of_none {state : CompilationUnit × List Outcome} {errand : Errand}
    (unmade : errand.request? state.1.catalog state.2 = none) :
    workStep state errand = (state.1, state.2 ++ [none]) := by
  rw [workStep_eq, unmade]

theorem workStep_of_some {state : CompilationUnit × List Outcome} {errand : Errand}
    {request : Request} (made : errand.request? state.1.catalog state.2 = some request) :
    workStep state errand =
      ((state.1.request request).2, state.2 ++ [some (state.1.request request).1.answer]) := by
  rw [workStep_eq, made]

theorem work_concat (unit : CompilationUnit) (errands : List Errand) (errand : Errand) :
    unit.work (errands ++ [errand]) = workStep (unit.work errands) errand :=
  List.foldl_append

/-- Work affects the table only. -/
theorem work_frame (unit : CompilationUnit) (errands : List Errand) :
    (unit.work errands).1 = { unit with table := (unit.work errands).1.table } := by
  apply List.foldlRecOn (motive := fun state : CompilationUnit × List Outcome =>
    state.1 = { unit with table := state.1.table }) errands workStep rfl
  intro state before errand _
  rw [workStep_eq]
  split
  next => exact before
  next request _ =>
    rw [before]
    rfl

end Work

end CompilationUnit

end Monomorph
