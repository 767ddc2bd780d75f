import Monomorph.Kind
import Monomorph.Span
import Monomorph.Ty.Subst
import Monomorph.Variance

/-!
Generic declarations: a name, parameters with their bounds, where clauses, and the
signature that instances specialise. A declaration that several compilation units
hold in common carries a serial number, which tells it from an equal one declared
elsewhere.
-/

namespace Monomorph

/-- A trait that a parameter's argument must implement. -/
structure Bound where
  trait : String
  span : Option Span
deriving DecidableEq

structure Parameter where
  name : String
  bounds : List Bound
  default : Option Ty
  span : Option Span
  variance : Option Variance
  kind : Option Kind
deriving DecidableEq

def Parameter.effectiveVariance (parameter : Parameter) : Variance :=
  parameter.variance.getD .undeclared

/-- The subject, with the arguments in place of the parameters, must implement every trait. -/
structure WhereClause where
  subject : Ty
  traits : List String
  span : Option Span
deriving DecidableEq

structure Generic where
  name : String
  parameters : List Parameter
  clauses : List WhereClause
  signature : Option Ty
  span : Option Span
deriving DecidableEq

namespace Generic

/-- A declaration that says nothing but its name. -/
def bare (name : String) : Generic := ⟨name, [], [], none, none⟩

def arity (generic : Generic) : Nat := generic.parameters.length

def parameterNames (generic : Generic) : List String := generic.parameters.map Parameter.name

def parameter? (generic : Generic) (name : String) : Option Parameter :=
  generic.parameters.find? fun parameter => parameter.name == name

/-- A type over the parameters, with the arguments in their place. -/
def specialise (generic : Generic) (arguments : List Ty) (ty : Ty) : Ty :=
  ty.subst (positional generic.parameterNames arguments)

end Generic

/-- A declaration as it was registered. Two registrations are the same one when they
agree in serial number and content. -/
structure SharedGeneric where
  serial : Nat
  generic : Generic
deriving DecidableEq

def SharedGeneric.name (shared : SharedGeneric) : String := shared.generic.name

end Monomorph
