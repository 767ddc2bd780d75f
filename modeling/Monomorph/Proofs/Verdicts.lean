import Monomorph.Proofs.Answers
import Monomorph.Proofs.PlainReplacement

/-!
What decides a request. All that the trait authority has to grant for a request is one list: the
bounds of the parameters, then the where clauses with the arguments in place. The checks run
through it up to the first refusal, so the questions put are a piece of this list from its start.
The checks before and after it put no questions. So there are a few cases in a fixed order, and
every request ends in the first of them that applies.
-/

namespace Monomorph

namespace Inquiry

variable {Question α β γ : Type}

theorem andThen_assoc (first : Inquiry Question α) (second : α → Inquiry Question β)
    (third : β → Inquiry Question γ) :
    (first.andThen second).andThen third =
      first.andThen fun answer => (second answer).andThen third := by
  simp only [andThen, List.append_assoc]

variable (look : α → Inquiry Question (Option β))

theorem firstFinding_append (front back : List α) :
    firstFinding (front ++ back) look =
      (firstFinding front look).andThen fun
        | some finding => known (some finding)
        | none => firstFinding back look := by
  induction front with
  | nil => rfl
  | cons item rest ih =>
    rw [List.cons_append, firstFinding, firstFinding, andThen_assoc]
    congr 1
    funext finding
    cases finding with
    | some finding => rfl
    | none => exact ih

theorem firstFinding_map (list : List γ) (item : γ → α) :
    firstFinding (list.map item) look = firstFinding list fun entry => look (item entry) := by
  induction list with
  | nil => rfl
  | cons entry rest ih => rw [List.map_cons, firstFinding, firstFinding, ih]

/-- Looking through lists one after another is looking through what they make together. -/
theorem firstFinding_flatMap (list : List γ) (items : γ → List α) :
    firstFinding (list.flatMap items) look =
      firstFinding list fun entry => firstFinding (items entry) look := by
  induction list with
  | nil => rfl
  | cons entry rest ih =>
    rw [List.flatMap_cons, firstFinding_append, ih]
    rfl

end Inquiry

/-- A question to the trait authority, and the fault that a refusal is. -/
structure Requirement where
  question : TraitQuestion
  fault : Fault

namespace Requirement

variable (traits : TraitAuthority)

/-- The authority has one rule for bounds and another for traits. -/
def granted (requirement : Requirement) : Bool :=
  match requirement.question with
  | .bounds subject bounds => traits.satisfies subject bounds
  | .trait subject trait => traits.implements subject trait

/-- Put the question. -/
def put (requirement : Requirement) : Inquiry TraitQuestion (Option Fault) :=
  Request.demand traits requirement.question requirement.fault

theorem put_eq (requirement : Requirement) :
    requirement.put traits =
      ⟨if requirement.granted traits then none else some requirement.fault,
        [requirement.question]⟩ := by
  obtain ⟨question, fault⟩ := requirement
  cases question <;> rfl

variable {traits}

theorem all_granted {list : List Requirement}
    (granted : ∀ requirement ∈ list, requirement.granted traits = true) :
    Inquiry.firstFinding list (put traits) = ⟨none, list.map question⟩ := by
  induction list with
  | nil => rfl
  | cons requirement rest ih =>
    rw [Inquiry.firstFinding, put_eq, granted _ List.mem_cons_self,
      ih fun other member => granted other (List.mem_cons_of_mem _ member)]
    rfl

/-- The questions go up to the first refusal and not beyond it. -/
theorem first_denied {before after : List Requirement} {requirement : Requirement}
    (granted : ∀ earlier ∈ before, earlier.granted traits = true)
    (denied : requirement.granted traits = false) :
    Inquiry.firstFinding (before ++ requirement :: after) (put traits) =
      ⟨some requirement.fault, (before ++ [requirement]).map question⟩ := by
  rw [Inquiry.firstFinding_append, all_granted granted, Inquiry.firstFinding, put_eq, denied,
    List.map_append]
  rfl

end Requirement

namespace Request

/-- An argument is refused in itself: because it is open, or else because of its kind. -/
inductive Refuses (policy : Policy) (parameter : Parameter) (argument : Ty) : Rejection → Prop
  | openArgument (closedOnly : policy.closedOnly = true) (mentions : argument.references ≠ []) :
      Refuses policy parameter argument .openArgument
  | kindMismatch {expected found : Kind}
      (passed : ¬(policy.closedOnly = true ∧ argument.references ≠ []))
      (kindChecked : policy.kindChecked = true) (declared : parameter.kind = some expected)
      (known : argument.kind? = some found) (different : expected ≠ found) :
      Refuses policy parameter argument (.kindMismatch expected found)

section Refusals

variable {policy : Policy} {parameter : Parameter} {argument : Ty}

theorem refuses_iff {reason : Rejection} :
    Refuses policy parameter argument reason ↔
      rejection policy parameter argument = some reason := by
  constructor
  · intro refused
    cases refused with
    | openArgument closedOnly mentions =>
      simp [rejection, closedOnly, Ty.isOpen_eq_true_iff.mpr mentions]
    | kindMismatch passed kindChecked declared known different =>
      rw [← Ty.isOpen_eq_true_iff] at passed
      simp [rejection, passed, kindChecked, declared, known, different]
  · intro rejected
    unfold rejection at rejected
    split at rejected
    next refused =>
      cases rejected
      rw [Bool.and_eq_true, Ty.isOpen_eq_true_iff] at refused
      exact .openArgument refused.1 refused.2
    next passed =>
      rw [Bool.and_eq_true, Ty.isOpen_eq_true_iff] at passed
      split at rejected
      next kindChecked =>
        split at rejected
        next => cases rejected
        next expected declared =>
          split at rejected
          next => cases rejected
          next found known =>
            split at rejected
            next => cases rejected
            next different =>
              cases rejected
              exact .kindMismatch passed kindChecked declared known different
      next => cases rejected

theorem accepts_iff :
    (∀ reason, ¬Refuses policy parameter argument reason) ↔
      rejection policy parameter argument = none := by
  simp only [Option.eq_none_iff_forall_ne_some, ne_eq, refuses_iff]

end Refusals

section Requirements

variable (request : Request) (σ : String → Option Ty)

def boundRequirements (pair : Parameter × Ty) : List Requirement :=
  pair.1.bounds.map fun bound =>
    ⟨.bounds pair.2 [bound],
      .unmetBound request.generic pair.1.name pair.2 bound.trait (request.placeOr bound.span)⟩

def clauseRequirements (clause : WhereClause) : List Requirement :=
  clause.traits.map fun trait =>
    ⟨.trait (clause.subject.plain σ) trait,
      .unmetClause request.generic (clause.subject.plain σ) trait (request.placeOr clause.span)⟩

/-- What the trait authority has to grant: every bound of every parameter for its argument, then
every trait of every where clause for the subject with its references replaced. -/
def requirements (generic : Generic) : List Requirement :=
  (generic.parameters.zip request.arguments).flatMap request.boundRequirements ++
    generic.clauses.flatMap (request.clauseRequirements σ)

/-- The request names the generic, has as many arguments as the generic has parameters, and no
argument is refused in itself. Each parameter is mapped to its argument. -/
structure Shaped (policy : Policy) (catalog : Catalog) (generic : Generic) : Prop where
  known : catalog.generic? request.generic = some generic
  count : request.arguments.length = generic.arity
  accepted : ∀ pair ∈ generic.parameters.zip request.arguments, ∀ reason,
    ¬Refuses policy pair.1 pair.2 reason
  assigned : Assigns generic.parameterNames request.arguments σ

end Requirements

/-- The fault of a request, if it has one, and the questions it takes to find it: the first case
that applies. -/
inductive Judges (policy : Policy) (catalog : Catalog) (traits : TraitAuthority)
    (request : Request) : Option Fault → List TraitQuestion → Prop
  | unknown (absent : catalog.generic? request.generic = none) :
      Judges policy catalog traits request
        (some (.unknownGeneric request.generic request.place)) []
  | miscounted {generic : Generic} (known : catalog.generic? request.generic = some generic)
      (miscount : request.arguments.length ≠ generic.arity) :
      Judges policy catalog traits request
        (some (.argumentCount request.generic generic.arity request.arguments.length
          request.place)) []
  | invalid {generic : Generic} {before after : List (Parameter × Ty)} {parameter : Parameter}
      {argument : Ty} {reason : Rejection}
      (known : catalog.generic? request.generic = some generic)
      (count : request.arguments.length = generic.arity)
      (turn : generic.parameters.zip request.arguments = before ++ (parameter, argument) :: after)
      (accepted : ∀ pair ∈ before, ∀ reason, ¬Refuses policy pair.1 pair.2 reason)
      (refused : Refuses policy parameter argument reason) :
      Judges policy catalog traits request
        (some (.invalidArgument request.generic parameter.name argument reason request.place)) []
  | unmet {generic : Generic} {σ : String → Option Ty} {before after : List Requirement}
      {requirement : Requirement} (shaped : request.Shaped σ policy catalog generic)
      (turn : request.requirements σ generic = before ++ requirement :: after)
      (granted : ∀ earlier ∈ before, earlier.granted traits = true)
      (denied : requirement.granted traits = false) :
      Judges policy catalog traits request (some requirement.fault)
        ((before ++ [requirement]).map Requirement.question)
  | passed {generic : Generic} {σ : String → Option Ty}
      (shaped : request.Shaped σ policy catalog generic)
      (granted : ∀ requirement ∈ request.requirements σ generic,
        requirement.granted traits = true) :
      Judges policy catalog traits request none
        ((request.requirements σ generic).map Requirement.question)

section Checking

variable {policy : Policy} {catalog : Catalog} {traits : TraitAuthority} {request : Request}
  {generic : Generic} {σ : String → Option Ty} {verdict : Option Fault}
  {asked : List TraitQuestion}

/-- The check of a request that is in shape runs through one list of requirements. -/
theorem check_shaped (shaped : request.Shaped σ policy catalog generic) :
    request.check policy catalog traits =
      .firstFinding (request.requirements σ generic) (Requirement.put traits) := by
  have accepted : (generic.parameters.zip request.arguments).findSome?
      (checkShape policy request) = none := by
    rw [List.findSome?_eq_none_iff]
    intro pair member
    rw [checkShape, accepts_iff.mp (shaped.accepted pair member), Option.map_none]
  have bounds : Inquiry.firstFinding (generic.parameters.zip request.arguments)
      (checkBounds traits request) =
      .firstFinding ((generic.parameters.zip request.arguments).flatMap request.boundRequirements)
        (Requirement.put traits) := by
    rw [Inquiry.firstFinding_flatMap]
    congr 1
    funext pair
    rw [boundRequirements, Inquiry.firstFinding_map]
    rfl
  have clauses : Inquiry.firstFinding generic.clauses (checkClause traits request generic) =
      .firstFinding (generic.clauses.flatMap (request.clauseRequirements σ))
        (Requirement.put traits) := by
    rw [Inquiry.firstFinding_flatMap]
    congr 1
    funext clause
    rw [clauseRequirements, Inquiry.firstFinding_map, checkClause,
      Generic.specialise_eq_plain shaped.assigned]
    rfl
  rw [requirements, Inquiry.firstFinding_append, ← bounds, ← clauses]
  simp only [check, shaped.known, if_pos shaped.count, checkArguments, accepted]
  congr 1
  funext finding
  cases finding <;> rfl

theorem check_invalid {before after : List (Parameter × Ty)} {pair : Parameter × Ty}
    {reason : Rejection} (known : catalog.generic? request.generic = some generic)
    (count : request.arguments.length = generic.arity)
    (turn : generic.parameters.zip request.arguments = before ++ pair :: after)
    (accepted : ∀ earlier ∈ before, ∀ reason, ¬Refuses policy earlier.1 earlier.2 reason)
    (refused : Refuses policy pair.1 pair.2 reason) :
    request.check policy catalog traits =
      .known (some (.invalidArgument request.generic pair.1.name pair.2 reason request.place)) := by
  have first : (generic.parameters.zip request.arguments).findSome? (checkShape policy request) =
      some (.invalidArgument request.generic pair.1.name pair.2 reason request.place) := by
    refine List.findSome?_eq_some_iff.mpr ⟨before, pair, after, turn, ?_, ?_⟩
    · rw [checkShape, refuses_iff.mp refused, Option.map_some]
    · intro earlier member
      rw [checkShape, accepts_iff.mp (accepted earlier member), Option.map_none]
  simp only [check, known, if_pos count, checkArguments, first]

theorem Judges.sound (judged : request.Judges policy catalog traits verdict asked) :
    request.check policy catalog traits = ⟨verdict, asked⟩ := by
  cases judged with
  | unknown absent =>
    simp only [check, absent]
    rfl
  | miscounted known miscount =>
    simp only [check, known, if_neg miscount]
    rfl
  | invalid known count turn accepted refused =>
    exact check_invalid known count turn accepted refused
  | unmet shaped turn granted denied =>
    rw [check_shaped shaped, turn, Requirement.first_denied granted denied]
  | passed shaped granted => rw [check_shaped shaped, Requirement.all_granted granted]

variable (traits) in
theorem exists_judges_shaped (shaped : request.Shaped σ policy catalog generic) :
    ∃ verdict asked, request.Judges policy catalog traits verdict asked := by
  cases refusal : (request.requirements σ generic).find? fun requirement =>
      !requirement.granted traits with
  | some requirement =>
    obtain ⟨denied, before, after, turn, granted⟩ := List.find?_eq_some_iff_append.mp refusal
    refine ⟨_, _, .unmet shaped turn (fun earlier member => ?_) (by simpa using denied)⟩
    simpa using granted earlier member
  | none => exact ⟨_, _, .passed shaped (by simpa using List.find?_eq_none.mp refusal)⟩

variable (policy catalog traits request)

/-- Some case applies to every request. -/
theorem exists_judges : ∃ verdict asked, request.Judges policy catalog traits verdict asked := by
  cases known : catalog.generic? request.generic with
  | none => exact ⟨_, _, .unknown known⟩
  | some generic =>
    by_cases count : request.arguments.length = generic.arity
    · cases shape : (generic.parameters.zip request.arguments).findSome? fun pair =>
          rejection policy pair.1 pair.2 with
      | some reason =>
        obtain ⟨before, pair, after, turn, rejected, none⟩ := List.findSome?_eq_some_iff.mp shape
        have refused := refuses_iff.mpr rejected
        have accepted := fun earlier member => accepts_iff.mpr (none earlier member)
        exact ⟨_, _, .invalid known count turn accepted refused⟩
      | none =>
        have accepted := fun pair member =>
          accepts_iff.mpr (List.findSome?_eq_none_iff.mp shape pair member)
        exact exists_judges_shaped traits ⟨known, count, accepted, assigns_iff.mpr rfl⟩
    · exact ⟨_, _, .miscounted known count⟩

end Checking

end Request

namespace InstanceTable

/-- The place has an instance with these arguments. -/
def HoldsAt (table : InstanceTable) (arguments : List Ty) (id : Nat) : Prop :=
  ∃ entry, table.get? id = some entry ∧ entry.arguments = arguments

/-- The first place of the generic that has an instance with these arguments. -/
def InternedAt (table : InstanceTable) (generic : String) (arguments : List Ty) (id : Nat) :
    Prop :=
  table.HoldsAt arguments id ∧ ∃ before after, table.placesOf generic = before ++ id :: after ∧
    ∀ other ∈ before, ¬table.HoldsAt arguments other

/-- The parent is there, and one step below it is beyond the greatest depth. -/
def TooDeep (table : InstanceTable) (parent : Option Nat) : Prop :=
  ∃ id entry, parent = some id ∧ table.get? id = some entry ∧
    table.policy.maxDepth < entry.depth + 1

/-- How a request ends and which questions it puts: the first case that applies. -/
inductive Decides (table : InstanceTable) (catalog : Catalog) (traits : TraitAuthority)
    (request : Request) : Except Fault Nat → List TraitQuestion → Prop
  | refused {fault : Fault} {asked : List TraitQuestion}
      (judged : request.Judges table.policy catalog traits (some fault) asked) :
      Decides table catalog traits request (.error fault) asked
  | interned {id : Nat} {asked : List TraitQuestion}
      (judged : request.Judges table.policy catalog traits none asked)
      (there : table.InternedAt request.generic request.arguments id) :
      Decides table catalog traits request (.ok id) asked
  | endless {asked : List TraitQuestion}
      (judged : request.Judges table.policy catalog traits none asked)
      (absent : ∀ id, ¬table.InternedAt request.generic request.arguments id)
      (deep : table.TooDeep request.parent) :
      Decides table catalog traits request
        (.error (.endlessExpansion request.generic request.arguments table.policy.maxDepth
          request.place)) asked
  | entered {asked : List TraitQuestion}
      (judged : request.Judges table.policy catalog traits none asked)
      (absent : ∀ id, ¬table.InternedAt request.generic request.arguments id)
      (shallow : ¬table.TooDeep request.parent) :
      Decides table catalog traits request (.ok table.size) asked

section Conditions

variable {table : InstanceTable} {generic : String} {arguments : List Ty}

theorem internedAt_iff {id : Nat} :
    table.InternedAt generic arguments id ↔ table.interned? generic arguments = some id := by
  have holds (place : Nat) : table.HoldsAt arguments place ↔ ((table.get? place).any fun entry =>
      decide (entry.arguments = arguments)) = true := by
    simp only [Option.any_eq_true, decide_eq_true_eq, HoldsAt]
  simp only [interned?, List.find?_eq_some_iff_append, InternedAt, holds, Bool.not_eq_true,
    Bool.not_eq_eq_eq_not, Bool.not_true]

theorem not_internedAt_iff :
    (∀ id, ¬table.InternedAt generic arguments id) ↔ table.interned? generic arguments = none := by
  simp only [Option.eq_none_iff_forall_ne_some, ne_eq, internedAt_iff]

theorem tooDeep_iff {parent : Option Nat} :
    table.TooDeep parent ↔ table.policy.maxDepth < table.depthBelow parent := by
  cases parent with
  | none => simp [TooDeep, depthBelow]
  | some id => cases found : table.get? id <;> simp [TooDeep, depthBelow, found]

end Conditions

section Deciding

variable {table : InstanceTable} {catalog : Catalog} {traits : TraitAuthority} {request : Request}
  {answer : Except Fault Nat} {asked : List TraitQuestion}

theorem Decides.sound (decided : table.Decides catalog traits request answer asked) :
    (table.request catalog traits request).1 = ⟨answer, asked⟩ := by
  cases decided with
  | refused judged =>
    have checked := judged.sound
    rw [request_refused (congrArg Inquiry.answer checked), checked]
  | interned judged there =>
    have checked := judged.sound
    rw [request_known (congrArg Inquiry.answer checked) (internedAt_iff.mp there), checked]
  | endless judged absent deep =>
    have checked := judged.sound
    rw [request_endless (congrArg Inquiry.answer checked) (not_internedAt_iff.mp absent)
      (tooDeep_iff.mp deep), checked]
  | entered judged absent shallow =>
    have checked := judged.sound
    have fits := Nat.le_of_not_lt (mt tooDeep_iff.mpr shallow)
    rw [request_new (congrArg Inquiry.answer checked) (not_internedAt_iff.mp absent) fits, checked]

variable (table catalog traits request)

theorem exists_decides : ∃ answer asked, table.Decides catalog traits request answer asked := by
  obtain ⟨verdict, asked, judged⟩ := request.exists_judges table.policy catalog traits
  cases verdict with
  | some fault => exact ⟨_, _, .refused judged⟩
  | none =>
    cases there : table.interned? request.generic request.arguments with
    | some id => exact ⟨_, _, .interned judged (internedAt_iff.mpr there)⟩
    | none =>
      have absent := not_internedAt_iff.mpr there
      by_cases deep : table.TooDeep request.parent
      · exact ⟨_, _, .endless judged absent deep⟩
      · exact ⟨_, _, .entered judged absent deep⟩

/-- For every table, catalog, trait authority and request, the answer and the questions put are
those of the first case that applies: the generic is unknown; the number of arguments is wrong;
the first argument refused in itself, for being open or else for its kind; the first requirement
denied, after the questions up to it; and once all are granted, the instance that is there, the
depth exceeded, or a new instance at the next place. -/
theorem request_decided (answer : Except Fault Nat) (asked : List TraitQuestion) :
    (table.request catalog traits request).1 = ⟨answer, asked⟩ ↔
      table.Decides catalog traits request answer asked := by
  refine ⟨fun ended => ?_, Decides.sound⟩
  obtain ⟨answer', asked', decided⟩ := table.exists_decides catalog traits request
  rw [decided.sound] at ended
  cases ended
  exact decided

-- An authority that waves bounds through and has no implementations: the clause is put to it with
-- the argument in place, and it is the clause that is denied.
example :
    let comparable : Bound := ⟨"Ord", none⟩
    let sorted : Generic := { Generic.bare "Sorted" with
      parameters := [⟨"T", [comparable], none, none, none, none⟩]
      clauses := [⟨.named "List" [.param "T"], ["Clone", "Ord"], none⟩] }
    ((empty .standard).request ⟨[⟨0, sorted⟩]⟩ ⟨fun _ _ => true, fun _ _ => false⟩
      ⟨"Sorted", [.prim .int], none, none⟩).1 =
        ⟨.error (.unmetClause "Sorted" (.named "List" [.prim .int]) "Clone" none),
          [.bounds (.prim .int) [comparable], .trait (.named "List" [.prim .int]) "Clone"]⟩ := rfl

end Deciding

end InstanceTable

end Monomorph
