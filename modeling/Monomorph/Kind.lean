import Monomorph.Ty.Basic

/-!
Kinds: `*` for types, arrows for type constructors. The kind of a type is known
unless a parameter reference stands at its head or it has received too many
arguments.
-/

namespace Monomorph

inductive Kind where
  | star
  | arrow (domain codomain : Kind)
deriving DecidableEq

namespace Kind

/-- The kind of a constructor that takes `arity` types. -/
def ofArity : Nat → Kind
  | 0 => .star
  | arity + 1 => .arrow .star (ofArity arity)

/-- How many arguments lead from a kind to `*`. -/
def arity : Kind → Nat
  | .star => 0
  | .arrow _ codomain => codomain.arity + 1

def isStar : Kind → Bool
  | .star => true
  | .arrow _ _ => false

/-- Arrows group to the right, so a domain that is an arrow itself has parentheses. -/
def display : Kind → String
  | .star => "*"
  | .arrow .star codomain => "* -> " ++ codomain.display
  | .arrow (.arrow domain range) codomain =>
      "(" ++ (Kind.arrow domain range).display ++ ") -> " ++ codomain.display

@[simp] theorem arity_ofArity (n : Nat) : (ofArity n).arity = n := by
  induction n with
  | zero => rfl
  | succ n ih => simp [ofArity, arity, ih]

end Kind

/-- The kind of a type, if it is known. A constructor applied to some of its
arguments is a constructor for the others. -/
def Ty.kind? : Ty → Option Kind
  | .param _ => none
  | .ctor _ arity => some (.ofArity arity)
  | .app head args =>
      match head.kind? with
      | none => none
      | some kind =>
          if args.length ≤ kind.arity then some (.ofArity (kind.arity - args.length)) else none
  | .prim _ | .named _ _ | .func _ _ | .ptr _ _ | .array _ _ | .tuple _ => some .star

end Monomorph
