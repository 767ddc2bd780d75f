import Monomorph.Fault.Basic
import Monomorph.Generic.Basic

/-!
Declarations are drafted item by item. An item that repeats a parameter or puts a bound
on a parameter that is not there yet is left out and its fault noted; the first fault
is what becomes of the draft.
-/

namespace Monomorph.Generic

inductive Item where
  | parameter (parameter : Parameter)
  /-- One more bound on a parameter drafted before. -/
  | bound (parameter : String) (bound : Bound)
  | clause (clause : WhereClause)
  | signature (signature : Ty)
  | span (span : Span)

/-- Put a bound on the first parameter of the name. -/
def boundFirst (name : String) (bound : Bound) : List Parameter → List Parameter
  | [] => []
  | parameter :: rest =>
      if parameter.name = name then { parameter with bounds := parameter.bounds ++ [bound] } :: rest
      else parameter :: boundFirst name bound rest

def addBound (generic : Generic) (name : String) (bound : Bound) : Generic :=
  { generic with parameters := boundFirst name bound generic.parameters }

/-- A later signature or span takes the place of an earlier one. -/
def addItem (generic : Generic) : Item → Except Fault Generic
  | .parameter parameter =>
      if (generic.parameter? parameter.name).isSome then
        .error (.duplicateParameter generic.name parameter.name (parameter.span.map Span.extent))
      else .ok { generic with parameters := generic.parameters ++ [parameter] }
  | .bound name bound =>
      if (generic.parameter? name).isSome then .ok (generic.addBound name bound)
      else .error (.unknownParameter generic.name name (bound.span.map Span.extent))
  | .clause clause => .ok { generic with clauses := generic.clauses ++ [clause] }
  | .signature signature => .ok { generic with signature := some signature }
  | .span span => .ok { generic with span := some span }

/-- A declaration in the making, and the faults of the items that were left out. -/
structure Draft where
  generic : Generic
  faults : List Fault

namespace Draft

def start (name : String) : Draft := ⟨bare name, []⟩

def add (draft : Draft) (item : Item) : Draft :=
  match draft.generic.addItem item with
  | .ok generic => { draft with generic := generic }
  | .error fault => { draft with faults := draft.faults ++ [fault] }

/-- The declaration, or the first fault if there is one. -/
def finish (draft : Draft) : Except Fault Generic :=
  match draft.faults with
  | [] => .ok draft.generic
  | fault :: _ => .error fault

end Draft

def draft (name : String) (items : List Item) : Except Fault Generic :=
  (items.foldl Draft.add (.start name)).finish

end Monomorph.Generic
