import Monomorph.Ty.Basic

/-!
Replacing parameter references in a type. `Ty.subst?` answers `none` when no
reference was replaced, so a caller can tell an untouched type from one that was
rebuilt; `Ty.subst` is the resulting type in either case.
-/

namespace Monomorph

/-- The list `names` paired with `arguments`: a name stands for the argument at its
first place, if there is one. -/
def positional (names : List String) (arguments : List Ty) (name : String) : Option Ty :=
  (names.idxOf? name).bind fun place => arguments[place]?

/-- Two parts with their edits. There is an edit of the pair when one of the parts has one. -/
def editPair {α β : Type} (a : α) (a' : Option α) (b : β) (b' : Option β) : Option (α × β) :=
  if a'.isNone && b'.isNone then none else some (a'.getD a, b'.getD b)

namespace Ty

/-- Apply a type to arguments. A nominal head takes them up, and an application joins
its own arguments with them, so `Map<string>` applied to `int` is `Map<string, int>`. -/
def applyTo : Ty → List Ty → Ty
  | .ctor name _, args => .named name args
  | .named name received, args => .named name (received ++ args)
  | .app head received, args => applyTo head (received ++ args)
  | head, args => .app head args

mutual

/-- The type with the references that `σ` maps replaced, all at once. An application
is rebuilt with `applyTo` when something inside it was replaced. -/
def subst? (σ : String → Option Ty) : Ty → Option Ty
  | .prim _ => none
  | .named name args => (substAll? σ args).map (.named name)
  | .param name => σ name
  | .ctor _ _ => none
  | .app head args =>
      (editPair head (subst? σ head) args (substAll? σ args)).map fun (head, args) =>
        head.applyTo args
  | .func params result =>
      (editPair params (substAll? σ params) result (subst? σ result)).map fun (params, result) =>
        .func params result
  | .ptr mutable target => (subst? σ target).map (.ptr mutable)
  | .array element length => (subst? σ element).map (.array · length)
  | .tuple elements => (substAll? σ elements).map .tuple

def substAll? (σ : String → Option Ty) : List Ty → Option (List Ty)
  | [] => none
  | ty :: rest =>
      (editPair ty (subst? σ ty) rest (substAll? σ rest)).map fun (ty, rest) => ty :: rest

end

def subst (σ : String → Option Ty) (ty : Ty) : Ty := (ty.subst? σ).getD ty

end Ty

end Monomorph
