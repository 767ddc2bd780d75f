import Monomorph.Generic.Basic
import Monomorph.Proofs.FreeNames

/-!
Replacement without regard to what changes. `Ty.plain` rebuilds every part of a type, also where
nothing in it is replaced, and so has no edits to keep track of. The replacement that tells an
untouched type from a rebuilt one agrees with it: an untouched type is one whose names are not
mapped, the plain replacement gives it back, and any other type comes out the same both ways.

The edits of a list can be made in one pass from left to right that copies nothing before the
first edit. What the pass has put into its copy is at any time the edit of what it has passed.
-/

namespace Monomorph

/-- The argument has the first place of the name. -/
def StandsFor (names : List String) (arguments : List Ty) (name : String) (argument : Ty) : Prop :=
  ∃ place : Nat, names[place]? = some name ∧ (∀ earlier < place, names[earlier]? ≠ some name) ∧
    arguments[place]? = some argument

/-- Every name is mapped to the argument that stands for it, and no other name is mapped. -/
def Assigns (names : List String) (arguments : List Ty) (σ : String → Option Ty) : Prop :=
  ∀ name argument, σ name = some argument ↔ StandsFor names arguments name argument

theorem idxOf?_eq_some_iff_getElem? {names : List String} {name : String} {place : Nat} :
    names.idxOf? name = some place ↔
      names[place]? = some name ∧ ∀ earlier < place, names[earlier]? ≠ some name := by
  rw [List.idxOf?_eq_some_iff]
  constructor
  · rintro ⟨inside, here, before⟩
    refine ⟨here ▸ List.getElem?_eq_getElem inside, ?_⟩
    intro earlier lower there
    rw [List.getElem?_eq_getElem (Nat.lt_trans lower inside)] at there
    exact before earlier lower (Option.some.inj there)
  · rintro ⟨here, before⟩
    obtain ⟨inside, same⟩ := List.getElem?_eq_some_iff.mp here
    refine ⟨inside, same, ?_⟩
    intro earlier lower there
    exact before earlier lower (there ▸ List.getElem?_eq_getElem _)

theorem positional_eq_some_iff {names : List String} {arguments : List Ty} {name : String}
    {argument : Ty} :
    positional names arguments name = some argument ↔ StandsFor names arguments name argument := by
  simp only [positional, Option.bind_eq_some_iff, idxOf?_eq_some_iff_getElem?, StandsFor, and_assoc]

/-- There is one such map. -/
theorem assigns_iff {names : List String} {arguments : List Ty} {σ : String → Option Ty} :
    Assigns names arguments σ ↔ σ = positional names arguments := by
  simp only [Assigns, ← positional_eq_some_iff, ← Option.ext_iff, funext_iff]

namespace Ty

variable (σ : String → Option Ty)

mutual

/-- The type with every part rebuilt and the mapped references replaced, all at once. An
application is joined with its head exactly if it mentions a name that is mapped. -/
def plain : Ty → Ty
  | .prim primitive => .prim primitive
  | .named name args => .named name (plainAll args)
  | .param name => (σ name).getD (.param name)
  | .ctor name arity => .ctor name arity
  | .app head args =>
      if (app head args).touched σ then (plain head).applyTo (plainAll args)
      else .app (plain head) (plainAll args)
  | .func params result => .func (plainAll params) (plain result)
  | .ptr mutable target => .ptr mutable (plain target)
  | .array element length => .array (plain element) length
  | .tuple elements => .tuple (plainAll elements)

def plainAll : List Ty → List Ty
  | [] => []
  | ty :: rest => plain ty :: plainAll rest

end

theorem plainAll_eq_map (list : List Ty) : plainAll σ list = list.map (plain σ) := by
  induction list with
  | nil => rfl
  | cons ty rest ih => rw [plainAll, ih, List.map_cons]

/-- Keeping track of the edits does not change what comes out. -/
theorem subst_eq_plain (ty : Ty) : ty.subst σ = ty.plain σ := by
  have all {list : List Ty} (members : ∀ ty ∈ list, ty.subst σ = ty.plain σ) :
      list.map (subst σ) = plainAll σ list := by
    rw [plainAll_eq_map]
    exact List.map_congr_left members
  induction ty using Ty.induction with
  | prim | ctor => rfl
  | param name => rw [subst_param, plain]
  | named name args parts => rw [subst_named, plain, all parts]
  | app head args first parts =>
    cases rebuilt : (app head args).touched σ with
    | true => rw [subst_app_of_touched rebuilt, plain, if_pos rebuilt, first, all parts]
    | false =>
      obtain ⟨sameHead, sameArgs⟩ := parts_of_untouched rebuilt
      rw [subst_of_untouched rebuilt, plain, if_neg (by simp [rebuilt]), ← first, ← all parts,
        sameHead, sameArgs]
  | func params result parts last => rw [subst_func, plain, all parts, last]
  | ptr mutable target part => rw [subst_ptr, plain, part]
  | array element length part => rw [subst_array, plain, part]
  | tuple elements parts => rw [subst_tuple, plain, all parts]

section Passes

/-- What becomes of a copy of a list at its next member. A first edit makes the copy, of all that
stands before it; once there is a copy, it takes every member, edited or not. -/
def copied (edit : Ty → Option Ty) (before : List Ty) (copy : Option (List Ty)) (ty : Ty) :
    Option (List Ty) :=
  match edit ty with
  | some edited => some (copy.getD before ++ [edited])
  | none => copy.map (· ++ [ty])

/-- The copy at the end of a pass over a list, if there was an edit. -/
def passOver (edit : Ty → Option Ty) (before : List Ty) (copy : Option (List Ty)) :
    List Ty → Option (List Ty)
  | [] => copy
  | ty :: rest => passOver edit (before ++ [ty]) (copied edit before copy ty) rest

theorem substAll?_eq_ite (list : List Ty) :
    substAll? σ list =
      if list.any fun ty => (ty.subst? σ).isSome then some (list.map (subst σ)) else none := by
  rw [← isSome_substAll?, ← getD_substAll?]
  cases substAll? σ list <;> rfl

/-- A copy that is the edit of what was passed is so again behind the next member. -/
theorem copied_substAll? (before : List Ty) (ty : Ty) :
    copied (subst? σ) before (substAll? σ before) ty = substAll? σ (before ++ [ty]) := by
  rw [copied, getD_substAll?, substAll?_eq_ite, substAll?_eq_ite, List.any_append, List.map_append]
  cases edited : ty.subst? σ with
  | some result => simp [edited, subst]
  | none =>
    cases before.any fun ty => (ty.subst? σ).isSome with
    | true => simp [edited, subst]
    | false => simp [edited]

theorem passOver_substAll? (before rest : List Ty) :
    passOver (subst? σ) before (substAll? σ before) rest = substAll? σ (before ++ rest) := by
  induction rest generalizing before with
  | nil => rw [passOver, List.append_nil]
  | cons ty rest ih => rw [passOver, copied_substAll?, ih, List.append_assoc, List.singleton_append]

end Passes

/-- How a replacement that keeps track of its edits goes about a type: there is no edit exactly
if none of the names is mapped, and then the type is kept as it is; an edit is what the plain
replacement by `σ` makes of the type. -/
structure Edits (lookup : String → Option Ty) (mapped : String → Prop) (ty : Ty) : Prop where
  untouched : ty.subst? lookup = none ↔ ∀ name ∈ ty.paramNames, ¬mapped name
  kept : ty.subst? lookup = none → ty.subst lookup = ty
  rebuilt : ∀ result, ty.subst? lookup = some result → result = ty.plain σ

variable {σ}

theorem subst?_eq_none_iff {ty : Ty} :
    ty.subst? σ = none ↔ ∀ name ∈ ty.paramNames, σ name = none := by
  rw [← Option.isNone_iff_eq_none, ← Option.isSome_eq_false_iff, isSome_subst?, touched,
    List.any_eq_false]
  simp only [mem_paramNames, Bool.not_eq_true, Option.isSome_eq_false_iff,
    Option.isNone_iff_eq_none]

theorem edits {mapped : String → Prop} (means : ∀ name, mapped name ↔ (σ name).isSome) (ty : Ty) :
    ty.Edits σ σ mapped where
  untouched := by
    simp only [subst?_eq_none_iff, means, Bool.not_eq_true, Option.isSome_eq_false_iff,
      Option.isNone_iff_eq_none]
  kept := by
    intro none
    rw [subst, none, Option.getD_none]
  rebuilt := by
    intro result edited
    rw [← subst_eq_plain, subst, edited, Option.getD_some]

/-- For every type, list of names and list of arguments, replacing names by the arguments at
their first places leaves the type as it is exactly if no name of the type has its first place
within the arguments, and otherwise gives what the plain replacement by these arguments gives. The
same holds of a substitution and its entries. The edits of a list are those of a pass that makes
its copy at the first edit. -/
theorem edits_agree (ty : Ty) :
    (∀ names arguments, ∃ σ, Assigns names arguments σ ∧
      ty.Edits σ (positional names arguments) fun name =>
        ∃ argument, StandsFor names arguments name argument) ∧
    (∀ τ : Substitution, ∃ σ,
      (∀ name argument, σ name = some argument ↔ (name, argument) ∈ τ.entries) ∧
        ty.Edits σ τ.get? (· ∈ τ.keys)) ∧
    ∀ σ list, passOver (subst? σ) [] none list = substAll? σ list := by
  refine ⟨?_, ?_, ?_⟩
  · intro names arguments
    refine ⟨positional names arguments, assigns_iff.mpr rfl, edits (fun name => ?_) ty⟩
    simp only [Option.isSome_iff_exists, positional_eq_some_iff]
  · intro τ
    refine ⟨τ.get?, fun name argument => τ.get?_eq_some_iff, ?_⟩
    exact edits (fun name => (τ.contains_iff name).symm) ty
  · intro σ list
    exact passOver_substAll? σ [] list

-- The middle member of a list is the only one that changes, and `U` is beyond the arguments.
example : subst? (positional ["T", "U", "T"] [.prim .int])
      (.tuple [.param "U", .ptr true (.param "T"), .app (.ctor "List" 1) [.prim .bool]]) =
    some (.tuple [.param "U", .ptr true (.prim .int), .app (.ctor "List" 1) [.prim .bool]]) := by
  decide

end Ty

/-- With the arguments in the place of the parameters a type is what the plain replacement makes
of it. -/
theorem Generic.specialise_eq_plain {generic : Generic} {arguments : List Ty}
    {σ : String → Option Ty} (assigned : Assigns generic.parameterNames arguments σ) (ty : Ty) :
    generic.specialise arguments ty = ty.plain σ := by
  rw [specialise, ← assigns_iff.mp assigned, Ty.subst_eq_plain]

end Monomorph
