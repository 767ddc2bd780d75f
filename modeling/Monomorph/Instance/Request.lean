import Monomorph.Catalog
import Monomorph.Implementation
import Monomorph.Instance.Basic
import Monomorph.Ty.Params

/-!
Requests for instances. A request is judged by the declaration it names: the number
of arguments, then the arguments themselves, then the bounds of the parameters, then
the where clauses. The first fault decides, and nothing behind it is asked. A request
without a fault leads to the instance that is there already or to a new one.
-/

namespace Monomorph

structure Request where
  generic : String
  arguments : List Ty
  span : Option Span
  /-- The instance whose expansion makes the request. -/
  parent : Option Nat

namespace Request

def place (request : Request) : Option Extent := request.span.map Span.extent

/-- The place of a request, or of what it failed if the request has none. -/
def placeOr (request : Request) (failed : Option Span) : Option Extent :=
  (request.span.or failed).map Span.extent

/-- What is wrong with an argument in itself. That it is open weighs more than its kind. -/
def rejection (policy : Policy) (parameter : Parameter) (argument : Ty) : Option Rejection :=
  if policy.closedOnly && argument.isOpen then some .openArgument
  else if policy.kindChecked then
    match parameter.kind with
    | none => none
    | some expected =>
        match argument.kind? with
        | none => none
        | some found =>
            if expected = found then none else some (.kindMismatch expected found)
  else none

def checkShape (policy : Policy) (request : Request) (pair : Parameter × Ty) : Option Fault :=
  (rejection policy pair.1 pair.2).map fun reason =>
    .invalidArgument request.generic pair.1.name pair.2 reason request.place

/-- Put one question; a refusal is the given fault. -/
def demand (traits : TraitAuthority) (question : TraitQuestion) (fault : Fault) :
    Inquiry TraitQuestion (Option Fault) :=
  (traits.ask question).andThen fun holds => .known (if holds then none else some fault)

def checkBounds (traits : TraitAuthority) (request : Request) (pair : Parameter × Ty) :
    Inquiry TraitQuestion (Option Fault) :=
  .firstFinding pair.1.bounds fun bound =>
    demand traits (.bounds pair.2 [bound])
      (.unmetBound request.generic pair.1.name pair.2 bound.trait (request.placeOr bound.span))

def checkClause (traits : TraitAuthority) (request : Request) (generic : Generic)
    (clause : WhereClause) : Inquiry TraitQuestion (Option Fault) :=
  let subject := generic.specialise request.arguments clause.subject
  .firstFinding clause.traits fun trait =>
    demand traits (.trait subject trait)
      (.unmetClause request.generic subject trait (request.placeOr clause.span))

/-- The first fault of a request with the right number of arguments. -/
def checkArguments (policy : Policy) (traits : TraitAuthority) (request : Request)
    (generic : Generic) : Inquiry TraitQuestion (Option Fault) :=
  let pairs := generic.parameters.zip request.arguments
  match pairs.findSome? (checkShape policy request) with
  | some fault => .known (some fault)
  | none =>
      (Inquiry.firstFinding pairs (checkBounds traits request)).andThen fun
        | some fault => .known (some fault)
        | none => .firstFinding generic.clauses (checkClause traits request generic)

/-- The first fault of a request, and the questions put to find it. -/
def check (policy : Policy) (catalog : Catalog) (traits : TraitAuthority) (request : Request) :
    Inquiry TraitQuestion (Option Fault) :=
  match catalog.generic? request.generic with
  | none => .known (some (.unknownGeneric request.generic request.place))
  | some generic =>
      if request.arguments.length = generic.arity then
        request.checkArguments policy traits generic
      else
        .known (some (.argumentCount request.generic generic.arity request.arguments.length
          request.place))

/-- Arguments from the defaults of the parameters, up to the first without one. A default
may mention the parameters before it. -/
def fillDefaults (names : List String) : List Parameter → List Ty → List Ty
  | [], arguments => arguments
  | parameter :: rest, arguments =>
      match parameter.default with
      | none => arguments
      | some default =>
          fillDefaults names rest
            (arguments ++
              [default.subst (positional (names.take arguments.length) arguments)])

/-- The request with the arguments it leaves out, as far as there are defaults. -/
def withDefaults (catalog : Catalog) (request : Request) : Request :=
  match catalog.generic? request.generic with
  | none => request
  | some generic =>
      { request with
        arguments := fillDefaults generic.parameterNames
          (generic.parameters.drop request.arguments.length) request.arguments }

end Request

namespace InstanceTable

/-- One step below the parent, or none for a request without a parent in the table. -/
def depthBelow (table : InstanceTable) (parent : Option Nat) : Nat :=
  match parent.bind table.get? with
  | none => 0
  | some entry => entry.depth + 1

/-- Carry out a request without a fault. -/
def settle (table : InstanceTable) (request : Request) : Except Fault Nat × InstanceTable :=
  match table.interned? request.generic request.arguments with
  | some id => (.ok id, table.linkParent request.parent id)
  | none =>
      let depth := table.depthBelow request.parent
      if depth ≤ table.policy.maxDepth then
        let id := table.size
        let entry : Instance :=
          ⟨id, request.generic, request.arguments, false, request.span, depth, request.parent⟩
        (.ok id, (table.push entry).linkParent request.parent id)
      else
        let fault := .endlessExpansion request.generic request.arguments table.policy.maxDepth
          request.place
        (.error fault, table.record fault)

/-- Judge a request and carry it out. A fault is recorded and nothing else changes. -/
def request (table : InstanceTable) (catalog : Catalog) (traits : TraitAuthority)
    (request : Request) : Inquiry TraitQuestion (Except Fault Nat) × InstanceTable :=
  let verdict := request.check table.policy catalog traits
  match verdict.answer with
  | some fault => (⟨.error fault, verdict.asked⟩, table.record fault)
  | none =>
      let settled := table.settle request
      (⟨settled.1, verdict.asked⟩, settled.2)

/-- Compare arguments under the variances of their parameters, up to the first refusal. -/
def compareArguments (subtyping : Subtyping) :
    List Parameter → List Ty → List Ty → Inquiry SubtypeQuestion Bool
  | parameter :: parameters, actual :: actuals, expected :: expecteds =>
      (parameter.effectiveVariance.compare subtyping actual expected).both fun _ =>
        compareArguments subtyping parameters actuals expecteds
  | _, _, _ => .known true

/-- May one instance stand where another is expected? Different instances must be of the
same generic, and each pair of arguments must be allowed by its parameter. -/
def substitutable (table : InstanceTable) (catalog : Catalog) (subtyping : Subtyping)
    (actual expected : Nat) : Inquiry SubtypeQuestion Bool :=
  if actual = expected then .known true
  else
    match table.get? actual, table.get? expected with
    | some actual, some expected =>
        if actual.generic = expected.generic then
          match catalog.generic? actual.generic with
          | some generic =>
              compareArguments subtyping generic.parameters actual.arguments expected.arguments
          | none => .known false
        else .known false
    | _, _ => .known false

end InstanceTable

end Monomorph
