import Monomorph.Kind
import Monomorph.Span
import Monomorph.Ty.Display

/-!
What can go wrong with a declaration or a request. A fault is a value: it is handed
back to the caller and also kept by the unit it happened in. The wording of every
fault is `Fault.message`.
-/

namespace Monomorph

/-- Why an argument is not acceptable for a parameter. -/
inductive Rejection where
  | openArgument
  | kindMismatch (expected found : Kind)
deriving DecidableEq

def Rejection.message : Rejection → String
  | .openArgument => "type arguments must be concrete to be instantiated"
  | .kindMismatch expected found =>
      "expected a type of kind " ++ expected.display ++ ", found kind " ++ found.display

inductive Fault where
  | duplicateGeneric (name : String) (place previous : Option Extent)
  | unknownGeneric (name : String) (place : Option Extent)
  | argumentCount (name : String) (expected actual : Nat) (place : Option Extent)
  | unmetBound (generic parameter : String) (argument : Ty) (trait : String)
      (place : Option Extent)
  /-- The subject is the one with the arguments in place. -/
  | unmetClause (generic : String) (subject : Ty) (trait : String) (place : Option Extent)
  | invalidArgument (generic parameter : String) (argument : Ty) (reason : Rejection)
      (place : Option Extent)
  | endlessExpansion (generic : String) (arguments : List Ty) (limit : Nat)
      (place : Option Extent)
  | duplicateParameter (generic parameter : String) (place : Option Extent)
  | unknownParameter (generic parameter : String) (place : Option Extent)
deriving DecidableEq

namespace Fault

/-- The place a fault points at first. -/
def place : Fault → Option Extent
  | .duplicateGeneric _ place _ => place
  | .unknownGeneric _ place => place
  | .argumentCount _ _ _ place => place
  | .unmetBound _ _ _ _ place => place
  | .unmetClause _ _ _ place => place
  | .invalidArgument _ _ _ _ place => place
  | .endlessExpansion _ _ _ place => place
  | .duplicateParameter _ _ place => place
  | .unknownParameter _ _ place => place

def quoted (text : String) : String := "`" ++ text ++ "`"

def message : Fault → String
  | .duplicateGeneric name _ _ => "Generic " ++ quoted name ++ " is already declared"
  | .unknownGeneric name _ => "Unknown generic " ++ quoted name
  | .argumentCount name expected actual _ =>
      "Wrong number of type arguments for " ++ quoted name ++ ": expected " ++
        toString expected ++ ", got " ++ toString actual
  | .unmetBound generic parameter argument trait _ =>
      "Type " ++ quoted argument.display ++ " does not satisfy bound " ++
        quoted (parameter ++ ": " ++ trait) ++ " of " ++ quoted generic
  | .unmetClause generic subject trait _ =>
      "Where clause " ++ quoted (subject.display ++ ": " ++ trait) ++ " of " ++
        quoted generic ++ " is not satisfied"
  | .invalidArgument generic parameter argument reason _ =>
      "Invalid type argument " ++ quoted argument.display ++ " for parameter " ++
        quoted parameter ++ " of " ++ quoted generic ++ ": " ++ reason.message
  | .endlessExpansion generic _ limit _ =>
      "Instantiating " ++ quoted generic ++ " exceeds the expansion depth limit of " ++
        toString limit
  | .duplicateParameter generic parameter _ =>
      "Generic parameter " ++ quoted parameter ++ " is declared more than once on " ++
        quoted generic
  | .unknownParameter generic parameter _ =>
      quoted generic ++ " has no generic parameter named " ++ quoted parameter

end Fault

end Monomorph
