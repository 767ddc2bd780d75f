import Monomorph.Fault.Basic

/-!
Faults as a compiler reports them: a message with a code, advice where there is
some, and labels on the places concerned.
-/

namespace Monomorph

structure Label where
  text : String
  extent : Extent
deriving DecidableEq

structure Report where
  message : String
  code : String
  help : Option String
  labels : List Label
  /-- The name and text of the file the labels point into, if it is at hand. -/
  source : Option (String × String)
deriving DecidableEq

namespace Fault

def code : Fault → String
  | .duplicateGeneric .. => "kestrel::generics::duplicate_generic"
  | .unknownGeneric .. => "kestrel::generics::unknown_generic"
  | .argumentCount .. => "kestrel::generics::wrong_number_of_type_args"
  | .unmetBound .. => "kestrel::generics::unsatisfied_bound"
  | .unmetClause .. => "kestrel::generics::unsatisfied_where_clause"
  | .invalidArgument .. => "kestrel::generics::invalid_type_arg"
  | .endlessExpansion .. => "kestrel::generics::recursive_instantiation"
  | .duplicateParameter .. => "kestrel::generics::duplicate_parameter"
  | .unknownParameter .. => "kestrel::generics::unknown_parameter"

def help : Fault → Option String
  | .duplicateGeneric .. =>
      some "Rename one of the declarations; generic names are unique per compilation unit"
  | .unknownGeneric name _ => some ("Declare " ++ quoted name ++ " before instantiating it")
  | .argumentCount name expected _ _ =>
      some (quoted name ++ " takes exactly " ++ toString expected ++ " type argument(s)")
  | .unmetBound _ _ argument trait _ =>
      some ("Implement " ++ trait ++ " for " ++ argument.display ++
        ", or pick a different type argument")
  | .unmetClause _ subject trait _ =>
      some ("Implement " ++ trait ++ " for " ++ subject.display)
  | .invalidArgument .. => none
  | .endlessExpansion .. =>
      some "This usually means a generic instantiates itself with ever-growing type arguments"
  | .duplicateParameter .. => none
  | .unknownParameter .. => none

/-- What stands at the place a fault points at first. -/
def caption : Fault → String
  | .duplicateGeneric .. => "redeclared here"
  | .unknownGeneric .. => "not a registered generic"
  | .argumentCount _ expected actual _ =>
      "expected " ++ toString expected ++ " type argument(s), got " ++ toString actual
  | .unmetBound _ _ argument trait _ =>
      quoted argument.display ++ " does not implement " ++ trait
  | .unmetClause generic _ _ _ => "required by a where clause on " ++ quoted generic
  | .invalidArgument _ _ _ reason _ => reason.message
  | .endlessExpansion .. => "expansion does not terminate"
  | .duplicateParameter .. => "duplicate parameter"
  | .unknownParameter .. => "unknown parameter"

/-- One label for each place that is known. -/
def labels (fault : Fault) : List Label :=
  let first := fault.place.toList.map fun extent => ⟨fault.caption, extent⟩
  match fault with
  | .duplicateGeneric _ _ previous =>
      first ++ previous.toList.map fun extent => ⟨"first declared here", extent⟩
  | _ => first

def report (source : Option (String × String)) (fault : Fault) : Report where
  message := fault.message
  code := fault.code
  help := fault.help
  labels := fault.labels
  source := source

end Fault

end Monomorph
