import Monomorph.Inquiry
import Monomorph.Ty.Basic

/-!
Variance of parameter positions. `Variance.compare` decides whether one type may
stand where another is expected. Functions, tuples, pointers and arrays are compared
position by position; any other pair is put to the subtype relation as a whole.
-/

namespace Monomorph

/-- Which pairs of different types are in the subtype relation, as the type checker
sees it. Neither reflexivity nor transitivity is taken for granted. -/
abbrev Subtyping := Ty → Ty → Bool

/-- The relation in which a type has no subtype but itself. -/
def Subtyping.trivial : Subtyping := fun sub sup => decide (sub = sup)

/-- Is `sub` a subtype of `sup`? -/
structure SubtypeQuestion where
  sub : Ty
  sup : Ty
deriving DecidableEq

inductive Variance where
  | covariant
  | contravariant
  | invariant
  | bivariant
deriving DecidableEq

namespace Variance

/-- The variance of a parameter that declares none. -/
def undeclared : Variance := .invariant

def flip : Variance → Variance
  | .covariant => .contravariant
  | .contravariant => .covariant
  | .invariant => .invariant
  | .bivariant => .bivariant

/-- The variance of a position of variance `inner` inside one of variance `outer`. -/
def compose (outer inner : Variance) : Variance :=
  match outer, inner with
  | .invariant, _ => .invariant
  | _, .invariant => .invariant
  | .bivariant, _ => .bivariant
  | _, .bivariant => .bivariant
  | .covariant, inner => inner
  | .contravariant, inner => inner.flip

def display : Variance → String
  | .covariant => "covariant"
  | .contravariant => "contravariant"
  | .invariant => "invariant"
  | .bivariant => "bivariant"

def askSubtype (subtyping : Subtyping) (sub sup : Ty) : Inquiry SubtypeQuestion Bool :=
  .ask (fun question => subtyping question.sub question.sup) ⟨sub, sup⟩

/-- Compare two types without looking inside them. -/
def compareWhole (subtyping : Subtyping) (variance : Variance) (actual expected : Ty) :
    Inquiry SubtypeQuestion Bool :=
  match variance with
  | .covariant => askSubtype subtyping actual expected
  | .contravariant => askSubtype subtyping expected actual
  | .invariant => .known false
  | .bivariant =>
      (askSubtype subtyping actual expected).either fun _ => askSubtype subtyping expected actual

mutual

/-- May `actual` stand where `expected` is required, in a position of this variance?
A function's parameters flip the variance, the target of a mutable pointer admits only
itself, and every other inner position keeps it. -/
def compare (subtyping : Subtyping) (variance : Variance) (actual expected : Ty) :
    Inquiry SubtypeQuestion Bool :=
  if actual = expected then .known true
  else if variance = .invariant then .known false
  else
    match actual, expected with
    | .func params result, .func params' result' =>
        if params.length = params'.length then
          (compareAll subtyping (variance.compose .contravariant) params params').both fun _ =>
            compare subtyping variance result result'
        else compareWhole subtyping variance (.func params result) (.func params' result')
    | .tuple elements, .tuple elements' =>
        if elements.length = elements'.length then
          compareAll subtyping variance elements elements'
        else compareWhole subtyping variance (.tuple elements) (.tuple elements')
    | .ptr mutable target, .ptr mutable' target' =>
        if mutable = mutable' then
          let inner := if mutable then variance.compose .invariant else variance
          compare subtyping inner target target'
        else compareWhole subtyping variance (.ptr mutable target) (.ptr mutable' target')
    | .array element length, .array element' length' =>
        if length = length' then compare subtyping variance element element'
        else compareWhole subtyping variance (.array element length) (.array element' length')
    | actual, expected => compareWhole subtyping variance actual expected

/-- Compare lists position by position up to the first refusal. -/
def compareAll (subtyping : Subtyping) (variance : Variance) (actual expected : List Ty) :
    Inquiry SubtypeQuestion Bool :=
  match actual, expected with
  | head :: tail, head' :: tail' =>
      (compare subtyping variance head head').both fun _ =>
        compareAll subtyping variance tail tail'
  | _, _ => .known true

end

def allows (subtyping : Subtyping) (variance : Variance) (actual expected : Ty) : Bool :=
  (compare subtyping variance actual expected).answer

end Variance

end Monomorph
