import Monomorph.Proofs.Replacement
import Monomorph.Substitution

/-!
Types in which no application is left to be joined with its head. A replacement can put a nominal
type or an application in the place of a head, and joins what it rebuilds, as often as it takes;
what it does not rebuild it leaves as it is, joined or not. So it keeps types normal if what it
puts in is normal, and an application that it rebuilds is joined at its top in any case.
-/

namespace Monomorph

namespace Ty

section Normal

mutual

/-- A type and every type inside it. -/
def parts : Ty → List Ty
  | .prim primitive => [.prim primitive]
  | .named name args => .named name args :: partsAll args
  | .param name => [.param name]
  | .ctor name arity => [.ctor name arity]
  | .app head args => .app head args :: (parts head ++ partsAll args)
  | .func params result => .func params result :: (partsAll params ++ parts result)
  | .ptr mutable target => .ptr mutable target :: parts target
  | .array element length => .array element length :: parts element
  | .tuple elements => .tuple elements :: partsAll elements

def partsAll : List Ty → List Ty
  | [] => []
  | ty :: rest => parts ty ++ partsAll rest

end

/-- An application whose head would take up the arguments: a constructor, a nominal type or an
application. -/
def isUnjoined : Ty → Bool
  | .app (.ctor _ _) _ | .app (.named _ _) _ | .app (.app _ _) _ => true
  | _ => false

/-- No application in the type is unjoined. -/
def Normal (ty : Ty) : Prop := ∀ part ∈ ty.parts, part.isUnjoined = false

instance (ty : Ty) : Decidable ty.Normal :=
  inferInstanceAs (Decidable (∀ part ∈ ty.parts, part.isUnjoined = false))

/-- The types that a type is made of. -/
def children : Ty → List Ty
  | .prim _ | .param _ | .ctor _ _ => []
  | .named _ args => args
  | .app head args => head :: args
  | .func params result => params ++ [result]
  | .ptr _ target => [target]
  | .array element _ => [element]
  | .tuple elements => elements

theorem partsAll_eq_flatMap (list : List Ty) : partsAll list = list.flatMap parts := by
  induction list with
  | nil => rfl
  | cons ty rest ih => rw [partsAll, ih, List.flatMap_cons]

theorem parts_eq (ty : Ty) : ty.parts = ty :: ty.children.flatMap parts := by
  cases ty <;> simp [parts, children, partsAll_eq_flatMap]

theorem normal_iff {ty : Ty} :
    ty.Normal ↔ ty.isUnjoined = false ∧ ∀ child ∈ ty.children, child.Normal := by
  rw [Normal, parts_eq, List.forall_mem_cons, List.forall_mem_flatMap]
  rfl

end Normal

section Joining

/-- Joining goes on until the head takes up nothing more. -/
theorem isUnjoined_applyTo (head : Ty) (args : List Ty) :
    (head.applyTo args).isUnjoined = false := by
  induction head using Ty.induction generalizing args with
  | app inner received ih _ => exact ih (received ++ args)
  | _ => rfl

theorem Normal.applyTo {head : Ty} (normal : head.Normal) {args : List Ty}
    (all : ∀ arg ∈ args, arg.Normal) : (head.applyTo args).Normal := by
  induction head using Ty.induction generalizing args with
  | ctor name arity => exact normal_iff.mpr ⟨rfl, all⟩
  | named name received _ =>
    have before : ∀ arg ∈ received, arg.Normal := (normal_iff.mp normal).2
    exact normal_iff.mpr ⟨rfl, List.forall_mem_append.mpr ⟨before, all⟩⟩
  | app inner received ih _ =>
    obtain ⟨inside, before⟩ := List.forall_mem_cons.mp (normal_iff.mp normal).2
    exact ih inside (List.forall_mem_append.mpr ⟨before, all⟩)
  | prim | param | func | ptr | array | tuple =>
    exact normal_iff.mpr ⟨rfl, List.forall_mem_cons.mpr ⟨normal, all⟩⟩

end Joining

section Replacing

variable {σ : String → Option Ty}

/-- A replacement keeps types normal if it puts in normal ones. -/
theorem Normal.subst (mapped : ∀ name replacement, σ name = some replacement → replacement.Normal)
    {ty : Ty} (normal : ty.Normal) : (ty.subst σ).Normal := by
  have all {list : List Ty} (members : ∀ ty ∈ list, ty.Normal → (ty.subst σ).Normal)
      (normals : ∀ ty ∈ list, ty.Normal) : ∀ ty ∈ list.map (Ty.subst σ), ty.Normal :=
    List.forall_mem_map.mpr fun ty member => members ty member (normals ty member)
  induction ty using Ty.induction with
  | prim | ctor => exact normal
  | param name =>
    rw [subst_param]
    cases found : σ name with
    | none => exact normal
    | some replacement => exact mapped name replacement found
  | named name args parts =>
    rw [subst_named]
    exact normal_iff.mpr ⟨rfl, all parts (normal_iff.mp normal).2⟩
  | app head args first parts =>
    cases rebuilt : (app head args).touched σ with
    | false => rwa [subst_of_untouched rebuilt]
    | true =>
      -- The new head may be one that takes up arguments, though the old one was not.
      obtain ⟨inside, arguments⟩ := List.forall_mem_cons.mp (normal_iff.mp normal).2
      rw [subst_app_of_touched rebuilt]
      exact (first inside).applyTo (all parts arguments)
  | func params result parts last =>
    obtain ⟨parameters, inside⟩ := List.forall_mem_append.mp (normal_iff.mp normal).2
    rw [subst_func]
    refine normal_iff.mpr ⟨rfl, List.forall_mem_append.mpr ⟨all parts parameters, ?_⟩⟩
    exact List.forall_mem_singleton.mpr (last (List.forall_mem_singleton.mp inside))
  | ptr mutable target part =>
    have inside := List.forall_mem_singleton.mp (normal_iff.mp normal).2
    rw [subst_ptr]
    exact normal_iff.mpr ⟨rfl, List.forall_mem_singleton.mpr (part inside)⟩
  | array element length part =>
    have inside := List.forall_mem_singleton.mp (normal_iff.mp normal).2
    rw [subst_array]
    exact normal_iff.mpr ⟨rfl, List.forall_mem_singleton.mpr (part inside)⟩
  | tuple elements parts =>
    rw [subst_tuple]
    exact normal_iff.mpr ⟨rfl, all parts (normal_iff.mp normal).2⟩

/-- An application that is rebuilt is joined at its top, whatever it was before. -/
theorem isUnjoined_of_rebuilt {head result : Ty} {args : List Ty}
    (rebuilt : (app head args).subst? σ = some result) : result.isUnjoined = false := by
  have touched : (app head args).touched σ = true := by
    rw [← isSome_subst?, rebuilt, Option.isSome_some]
  have joined : result = (head.subst σ).applyTo (args.map (Ty.subst σ)) := by
    rw [← subst_app_of_touched touched, Ty.subst, rebuilt, Option.getD_some]
  rw [joined]
  exact isUnjoined_applyTo _ _

end Replacing

end Ty

namespace Substitution

/-- If all types of a substitution are normal, applying it keeps types normal. If an application of
any form is rebuilt by a substitution, normal or not, the result is no application on a
constructor, on a nominal type or on an application. -/
theorem apply_normal (σ : Substitution) :
    ((∀ entry ∈ σ.entries, entry.2.Normal) → ∀ ty : Ty, ty.Normal → (σ.apply ty).Normal) ∧
    ∀ head args result, σ.applied? (.app head args) = some result → result.isUnjoined = false := by
  refine ⟨?_, fun head args result rebuilt => Ty.isUnjoined_of_rebuilt rebuilt⟩
  intro entries ty normal
  refine normal.subst fun name replacement found => ?_
  exact entries (name, replacement) (mem_of_entryAt found)

section Wrappings

/-- One type is an application that is joined with what it is the head of. -/
def wrapping : Substitution :=
  ofParameters ["F", "T"] [.app (.param "M") [.prim .string], .named "List" [.param "U"]]

theorem wrapping_normal :
    (∀ entry ∈ wrapping.entries, entry.2.Normal) ∧
    (Ty.ptr true (.app (.param "F") [.param "T", .ctor "Box" 1])).Normal ∧
    (wrapping.apply (.ptr true (.app (.param "F") [.param "T", .ctor "Box" 1]))).Normal ∧
    wrapping.applied? (.app (.app (.ctor "Map" 2) [.param "T"]) [.app (.ctor "Box" 1) []]) =
      some (.named "Map" [.named "List" [.param "U"], .app (.ctor "Box" 1) []]) ∧
    (Ty.named "Map" [.named "List" [.param "U"], .app (.ctor "Box" 1) []]).isUnjoined = false := by
  obtain ⟨kept, joined⟩ := apply_normal wrapping
  have entries : ∀ entry ∈ wrapping.entries, entry.2.Normal := by decide
  have normal : (Ty.ptr true (.app (.param "F") [.param "T", .ctor "Box" 1])).Normal := by decide
  have rebuilt : wrapping.applied?
      (.app (.app (.ctor "Map" 2) [.param "T"]) [.app (.ctor "Box" 1) []]) =
      some (.named "Map" [.named "List" [.param "U"], .app (.ctor "Box" 1) []]) := by decide
  exact ⟨entries, normal, kept entries _ normal, rebuilt, joined _ _ _ rebuilt⟩

-- The head takes up the arguments one list after the other; what is not rebuilt stays unjoined.
example : wrapping.apply
    (.tuple [.app (.app (.param "F") [.prim .int]) [.param "T"], .app (.ctor "Box" 1) []]) =
    .tuple [.app (.param "M") [.prim .string, .prim .int, .named "List" [.param "U"]],
      .app (.ctor "Box" 1) []] := by
  decide

end Wrappings

end Substitution

end Monomorph
