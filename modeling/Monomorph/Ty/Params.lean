import Monomorph.Ty.Basic

/-!
The parameter references inside a type. `Ty.references` lists them all from left to
right; `Ty.paramNames` collects each name at its first mention.
-/

namespace Monomorph

namespace Ty

mutual

/-- Every parameter reference in a type: a head comes before its arguments, and a
function's parameters before its result. -/
def references : Ty → List String
  | .prim _ => []
  | .named _ args => referencesAll args
  | .param name => [name]
  | .ctor _ _ => []
  | .app head args => references head ++ referencesAll args
  | .func params result => referencesAll params ++ references result
  | .ptr _ target => references target
  | .array element _ => references element
  | .tuple elements => referencesAll elements

def referencesAll : List Ty → List String
  | [] => []
  | ty :: rest => references ty ++ referencesAll rest

end

mutual

/-- The names collected so far, and behind them those that the type mentions for the first
time. -/
def collectNames : Ty → List String → List String
  | .prim _, names => names
  | .named _ args, names => collectNamesAll args names
  | .param name, names => if name ∈ names then names else names ++ [name]
  | .ctor _ _, names => names
  | .app head args, names => collectNamesAll args (collectNames head names)
  | .func params result, names => collectNames result (collectNamesAll params names)
  | .ptr _ target, names => collectNames target names
  | .array element _, names => collectNames element names
  | .tuple elements, names => collectNamesAll elements names

def collectNamesAll : List Ty → List String → List String
  | [], names => names
  | ty :: rest, names => collectNamesAll rest (collectNames ty names)

end

def paramNames (ty : Ty) : List String := ty.collectNames []

mutual

/-- Whether some parameter reference is left in a type. -/
def isOpen : Ty → Bool
  | .prim _ => false
  | .named _ args => isOpenAny args
  | .param _ => true
  | .ctor _ _ => false
  | .app head args => isOpen head || isOpenAny args
  | .func params result => isOpenAny params || isOpen result
  | .ptr _ target => isOpen target
  | .array element _ => isOpen element
  | .tuple elements => isOpenAny elements

def isOpenAny : List Ty → Bool
  | [] => false
  | ty :: rest => isOpen ty || isOpenAny rest

end

theorem referencesAll_eq_flatMap (list : List Ty) :
    referencesAll list = list.flatMap references := by
  induction list with
  | nil => rfl
  | cons ty rest ih => simp [referencesAll, ih]

theorem isOpenAny_eq_any (list : List Ty) : isOpenAny list = list.any isOpen := by
  induction list with
  | nil => rfl
  | cons ty rest ih => simp [isOpenAny, ih]

end Ty

end Monomorph
