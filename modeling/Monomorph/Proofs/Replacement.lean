import Mathlib.Data.List.Basic
import Monomorph.Ty.Params
import Monomorph.Ty.Subst

/-!
What replacing references makes of a type. A type is rebuilt exactly if it mentions a name that
is mapped, and a rebuilt type has its parts replaced one by one; only an application that is
rebuilt is also joined with its head. Joining is associative and commutes with replacing, so it
does not matter at which step of several an application is joined.
-/

namespace Monomorph

section Pairs

variable {α β : Type} (a : α) (a' : Option α) (b : β) (b' : Option β)

theorem isSome_editPair : (editPair a a' b b').isSome = (a'.isSome || b'.isSome) := by
  cases a' <;> cases b' <;> rfl

theorem getD_editPair : (editPair a a' b b').getD (a, b) = (a'.getD a, b'.getD b) := by
  cases a' <;> cases b' <;> rfl

end Pairs

theorem any_congr_of_mem {α : Type} {list : List α} {p q : α → Bool}
    (same : ∀ item ∈ list, p item = q item) : list.any p = list.any q := by
  calc list.any p
    _ = (list.map p).any id := by rw [List.any_map, Function.id_comp]
    _ = (list.map q).any id := by rw [List.map_congr_left same]
    _ = list.any q := by rw [List.any_map, Function.id_comp]

namespace Ty

-- The proofs below are elaborated side by side: they share these equations, made once here.
attribute [local simp] isOpen references applyTo subst? substAll?

section References

theorem isOpen_eq_any (ty : Ty) : ty.isOpen = ty.references.any fun _ => true := by
  have all {list : List Ty} (members : ∀ ty ∈ list, ty.isOpen = ty.references.any fun _ => true) :
      isOpenAny list = (referencesAll list).any fun _ => true := by
    rw [isOpenAny_eq_any, referencesAll_eq_flatMap, List.any_flatMap]
    exact any_congr_of_mem members
  induction ty using Ty.induction with
  | prim | param | ctor => rfl
  | named name args parts => exact all parts
  | app head args first parts => rw [isOpen, references, first, all parts, List.any_append]
  | func params result parts last => rw [isOpen, references, last, all parts, List.any_append]
  | ptr mutable target part => exact part
  | array element length part => exact part
  | tuple elements parts => exact all parts

theorem isOpen_eq_false_iff {ty : Ty} : ty.isOpen = false ↔ ty.references = [] := by
  rw [isOpen_eq_any]
  cases ty.references <;> simp

theorem isOpen_eq_true_iff {ty : Ty} : ty.isOpen = true ↔ ty.references ≠ [] := by
  rw [← Bool.not_eq_false, isOpen_eq_false_iff]

end References

section Joining

theorem applyTo_append (head : Ty) (first second : List Ty) :
    (head.applyTo first).applyTo second = head.applyTo (first ++ second) := by
  induction head using Ty.induction generalizing first with
  | named name received _ => simp only [applyTo, List.append_assoc]
  | app inner received ih _ => simp only [applyTo, ih, List.append_assoc]
  | _ => rfl

theorem references_applyTo (head : Ty) (args : List Ty) :
    (head.applyTo args).references = head.references ++ args.flatMap references := by
  induction head using Ty.induction generalizing args with
  | ctor name arity => exact referencesAll_eq_flatMap args
  | named name received _ =>
    simp only [applyTo, references, referencesAll_eq_flatMap, List.flatMap_append]
  | app inner received ih _ =>
    simp only [applyTo, references, referencesAll_eq_flatMap, ih, List.flatMap_append,
      List.append_assoc]
  | _ => simp only [applyTo, references, referencesAll_eq_flatMap]

end Joining

variable (σ : String → Option Ty)

/-- The type mentions a name that is mapped. -/
def touched (ty : Ty) : Bool := ty.references.any fun name => (σ name).isSome

section Edits

theorem isSome_substAll? (list : List Ty) :
    (substAll? σ list).isSome = list.any fun ty => (ty.subst? σ).isSome := by
  induction list with
  | nil => rfl
  | cons ty rest ih => rw [substAll?, Option.isSome_map, isSome_editPair, ih, List.any_cons]

theorem getD_substAll? (list : List Ty) : (substAll? σ list).getD list = list.map (subst σ) := by
  induction list with
  | nil => rfl
  | cons ty rest ih =>
    have parts := Option.getD_map (fun pair : Ty × List Ty => pair.1 :: pair.2) (ty, rest)
      (editPair ty (subst? σ ty) rest (substAll? σ rest))
    rw [substAll?, List.map_cons, ← ih]
    exact parts.trans (by rw [getD_editPair]; rfl)

/-- A type is rebuilt exactly if it mentions a name that is mapped. -/
theorem isSome_subst? (ty : Ty) : (ty.subst? σ).isSome = ty.touched σ := by
  have all {list : List Ty} (members : ∀ ty ∈ list, (ty.subst? σ).isSome = ty.touched σ) :
      (substAll? σ list).isSome = (referencesAll list).any fun name => (σ name).isSome := by
    rw [isSome_substAll?, referencesAll_eq_flatMap, List.any_flatMap]
    exact any_congr_of_mem members
  induction ty using Ty.induction with
  | prim | ctor => rfl
  | param name => simp [touched]
  | named name args parts => rw [subst?, Option.isSome_map, all parts, touched, references]
  | app head args first parts =>
    rw [subst?, Option.isSome_map, isSome_editPair, first, all parts, touched, touched, references,
      List.any_append]
  | func params result parts last =>
    rw [subst?, Option.isSome_map, isSome_editPair, last, all parts, touched, touched, references,
      List.any_append]
  | ptr mutable target part => rw [subst?, Option.isSome_map, part, touched, touched, references]
  | array element length part =>
    rw [subst?, Option.isSome_map, part, touched, touched, references]
  | tuple elements parts => rw [subst?, Option.isSome_map, all parts, touched, references]

variable {σ}

theorem subst_of_untouched {ty : Ty} (untouched : ty.touched σ = false) : ty.subst σ = ty := by
  rw [← isSome_subst?, Option.isSome_eq_false_iff, Option.isNone_iff_eq_none] at untouched
  rw [subst, untouched, Option.getD_none]

end Edits

section Parts

@[simp] theorem subst_prim (primitive : Primitive) : (prim primitive).subst σ = .prim primitive :=
  rfl

@[simp] theorem subst_ctor (name : String) (arity : Nat) :
    (ctor name arity).subst σ = .ctor name arity :=
  rfl

theorem subst_param (name : String) : (param name).subst σ = (σ name).getD (.param name) := rfl

@[simp] theorem subst_named (name : String) (args : List Ty) :
    (named name args).subst σ = .named name (args.map (subst σ)) := by
  rw [subst, subst?, Option.getD_map, getD_substAll?]

@[simp] theorem subst_func (params : List Ty) (result : Ty) :
    (func params result).subst σ = .func (params.map (subst σ)) (result.subst σ) := by
  have parts := Option.getD_map (fun pair : List Ty × Ty => Ty.func pair.1 pair.2) (params, result)
    (editPair params (substAll? σ params) result (subst? σ result))
  rw [← getD_substAll?]
  exact parts.trans (by rw [getD_editPair]; rfl)

@[simp] theorem subst_ptr (mutable : Bool) (target : Ty) :
    (ptr mutable target).subst σ = .ptr mutable (target.subst σ) := by
  rw [subst, subst?, Option.getD_map, subst]

@[simp] theorem subst_array (element : Ty) (length : Option Nat) :
    (array element length).subst σ = .array (element.subst σ) length :=
  Option.getD_map (fun element => Ty.array element length) element (subst? σ element)

@[simp] theorem subst_tuple (elements : List Ty) :
    (tuple elements).subst σ = .tuple (elements.map (subst σ)) := by
  rw [subst, subst?, Option.getD_map, getD_substAll?]

variable {σ}

/-- An application is joined with its head where it is rebuilt. -/
theorem subst_app_of_touched {head : Ty} {args : List Ty}
    (rebuilt : (app head args).touched σ = true) :
    (app head args).subst σ = (head.subst σ).applyTo (args.map (subst σ)) := by
  rw [← isSome_subst?, subst?, Option.isSome_map] at rebuilt
  obtain ⟨pair, edited⟩ := Option.isSome_iff_exists.mp rebuilt
  have parts := getD_editPair head (subst? σ head) args (substAll? σ args)
  rw [edited, getD_substAll?, Option.getD_some] at parts
  rw [subst, subst?, edited, parts]
  rfl

end Parts

section Untouched

variable {σ}

theorem map_subst_of_untouched {list : List Ty} (untouched : ∀ ty ∈ list, ty.touched σ = false) :
    list.map (subst σ) = list := by
  rw [List.map_congr_left fun ty member => subst_of_untouched (untouched ty member), List.map_id']

/-- Of an application that is not rebuilt neither the head nor an argument is. -/
theorem parts_of_untouched {head : Ty} {args : List Ty}
    (untouched : (app head args).touched σ = false) :
    head.subst σ = head ∧ args.map (subst σ) = args := by
  rw [touched, references, referencesAll_eq_flatMap, List.any_append, List.any_flatMap,
    Bool.or_eq_false_iff] at untouched
  refine ⟨subst_of_untouched untouched.1, map_subst_of_untouched fun ty member => ?_⟩
  exact Bool.eq_false_iff.mpr (List.any_eq_false.mp untouched.2 ty member)

/-- A head that takes up no arguments may be joined whether or not anything is rebuilt. -/
theorem subst_app_of_free {head : Ty} (free : ∀ args, head.applyTo args = .app head args)
    (args : List Ty) : (app head args).subst σ = (head.subst σ).applyTo (args.map (subst σ)) := by
  cases rebuilt : (app head args).touched σ with
  | true => exact subst_app_of_touched rebuilt
  | false =>
    obtain ⟨sameHead, sameArgs⟩ := parts_of_untouched rebuilt
    rw [subst_of_untouched rebuilt, sameHead, sameArgs, free]

end Untouched

/-- Joining commutes with replacing, whether or not anything is rebuilt by it. -/
theorem subst_applyTo (head : Ty) (args : List Ty) :
    (head.applyTo args).subst σ = (head.subst σ).applyTo (args.map (subst σ)) := by
  induction head using Ty.induction generalizing args with
  | ctor name arity => rw [applyTo, subst_named, subst_ctor, applyTo]
  | named name received _ => rw [applyTo, subst_named, subst_named, applyTo, List.map_append]
  | app inner received ih _ =>
    rw [applyTo, ih, List.map_append]
    cases rebuilt : (app inner received).touched σ with
    | true => rw [subst_app_of_touched rebuilt, applyTo_append]
    | false =>
      obtain ⟨sameHead, sameArgs⟩ := parts_of_untouched rebuilt
      rw [subst_of_untouched rebuilt, sameHead, sameArgs, applyTo]
  | prim | param | func | ptr | array | tuple => exact subst_app_of_free (fun _ => rfl) args

theorem references_subst_app (head : Ty) (args : List Ty) :
    ((app head args).subst σ).references =
      (head.subst σ).references ++ (args.map (subst σ)).flatMap references := by
  cases rebuilt : (app head args).touched σ with
  | true => rw [subst_app_of_touched rebuilt, references_applyTo]
  | false =>
    obtain ⟨sameHead, sameArgs⟩ := parts_of_untouched rebuilt
    rw [subst_of_untouched rebuilt, sameHead, sameArgs, references, referencesAll_eq_flatMap]

/-- What stands in the place of a reference after the replacing. -/
def referencesFor (name : String) : List String := ((param name).subst σ).references

/-- The references of a rebuilt type are those of what took the places of the old ones. -/
theorem references_subst (ty : Ty) :
    (ty.subst σ).references = ty.references.flatMap (referencesFor σ) := by
  have all {list : List Ty} (members : ∀ ty ∈ list,
      (ty.subst σ).references = ty.references.flatMap (referencesFor σ)) :
      (list.map (subst σ)).flatMap references =
        (list.flatMap references).flatMap (referencesFor σ) := by
    rw [List.flatMap_map, List.flatMap_assoc]
    exact List.flatMap_congr members
  induction ty using Ty.induction with
  | prim | ctor => rfl
  | param name => exact (List.flatMap_singleton _ _).symm
  | named name args parts =>
    rw [subst_named, references, references, referencesAll_eq_flatMap, referencesAll_eq_flatMap,
      all parts]
  | app head args first parts =>
    rw [references_subst_app, first, all parts, references, referencesAll_eq_flatMap,
      List.flatMap_append]
  | func params result parts last =>
    rw [subst_func, references, references, referencesAll_eq_flatMap, referencesAll_eq_flatMap,
      last, all parts, List.flatMap_append]
  | ptr mutable target part => rw [subst_ptr, references, references, part]
  | array element length part => rw [subst_array, references, references, part]
  | tuple elements parts =>
    rw [subst_tuple, references, references, referencesAll_eq_flatMap, referencesAll_eq_flatMap,
      all parts]

end Ty

end Monomorph
