/-!
The types that generics are declared over and instantiated with. Types contain
lists of types, so equality is decided by a function on pairs of types and its
companion on pairs of lists; `Ty.induction` is the matching induction principle,
with a hypothesis for every member of a list.
-/

namespace Monomorph

inductive Primitive where
  | int
  | float
  | bool
  | char
  | string
  | void
deriving DecidableEq

namespace Primitive

def all : List Primitive := [.int, .float, .bool, .char, .string, .void]

def keyword : Primitive → String
  | .int => "int"
  | .float => "float"
  | .bool => "bool"
  | .char => "char"
  | .string => "string"
  | .void => "void"

def ofKeyword? (word : String) : Option Primitive :=
  all.find? fun primitive => primitive.keyword == word

theorem mem_all (primitive : Primitive) : primitive ∈ all := by
  cases primitive <;> simp [all]

theorem keyword_injective {p q : Primitive} (same : p.keyword = q.keyword) : p = q := by
  revert same
  cases p <;> cases q <;> decide

end Primitive

inductive Ty where
  | prim (primitive : Primitive)
  /-- A nominal type with the arguments it has received so far. -/
  | named (name : String) (args : List Ty)
  /-- A reference to a parameter of the enclosing generic. -/
  | param (name : String)
  /-- A type constructor that has received none of its `arity` arguments. -/
  | ctor (name : String) (arity : Nat)
  /-- An application whose head need not be nominal yet. -/
  | app (head : Ty) (args : List Ty)
  | func (params : List Ty) (result : Ty)
  | ptr (mutable : Bool) (target : Ty)
  /-- A sequence, of known length or not. -/
  | array (element : Ty) (length : Option Nat)
  | tuple (elements : List Ty)

namespace Ty

theorem induction {motive : Ty → Prop}
    (prim : ∀ primitive, motive (.prim primitive))
    (named : ∀ name args, (∀ arg ∈ args, motive arg) → motive (.named name args))
    (param : ∀ name, motive (.param name))
    (ctor : ∀ name arity, motive (.ctor name arity))
    (app : ∀ head args, motive head → (∀ arg ∈ args, motive arg) → motive (.app head args))
    (func : ∀ params result, (∀ param ∈ params, motive param) → motive result →
      motive (.func params result))
    (ptr : ∀ mutable target, motive target → motive (.ptr mutable target))
    (array : ∀ element length, motive element → motive (.array element length))
    (tuple : ∀ elements, (∀ element ∈ elements, motive element) → motive (.tuple elements))
    (ty : Ty) : motive ty :=
  @Ty.rec motive (fun list => ∀ member ∈ list, motive member)
    prim named param ctor app func ptr array tuple
    (fun _ member => nomatch member)
    (fun head tail first rest member place => by
      rcases List.mem_cons.mp place with rfl | place
      · exact first
      · exact rest member place)
    ty

mutual

def same : Ty → Ty → Bool
  | .prim p, .prim q => p == q
  | .named m xs, .named n ys => m == n && sameAll xs ys
  | .param m, .param n => m == n
  | .ctor m j, .ctor n k => m == n && j == k
  | .app g xs, .app h ys => same g h && sameAll xs ys
  | .func ps r, .func qs s => sameAll ps qs && same r s
  | .ptr c t, .ptr d u => c == d && same t u
  | .array t j, .array u k => same t u && j == k
  | .tuple xs, .tuple ys => sameAll xs ys
  | _, _ => false

def sameAll : List Ty → List Ty → Bool
  | [], [] => true
  | x :: xs, y :: ys => same x y && sameAll xs ys
  | _, _ => false

end

mutual

theorem same_refl : (ty : Ty) → same ty ty = true
  | .prim _ => by simp [same]
  | .named _ args => by simp [same, sameAll_refl args]
  | .param _ => by simp [same]
  | .ctor _ _ => by simp [same]
  | .app head args => by simp [same, same_refl head, sameAll_refl args]
  | .func params result => by simp [same, sameAll_refl params, same_refl result]
  | .ptr _ target => by simp [same, same_refl target]
  | .array element _ => by simp [same, same_refl element]
  | .tuple elements => by simp [same, sameAll_refl elements]

theorem sameAll_refl : (list : List Ty) → sameAll list list = true
  | [] => rfl
  | head :: tail => by simp [sameAll, same_refl head, sameAll_refl tail]

end

mutual

theorem eq_of_same : (a b : Ty) → same a b = true → a = b
  | .prim _, b, h => by cases b <;> simp_all [same]
  | .named _ args, b, h => by
      cases b <;> simp only [same, Bool.and_eq_true, beq_iff_eq, reduceCtorEq] at h
      rw [h.1, eq_of_sameAll args _ h.2]
  | .param _, b, h => by cases b <;> simp_all [same]
  | .ctor _ _, b, h => by cases b <;> simp_all [same]
  | .app head args, b, h => by
      cases b <;> simp only [same, Bool.and_eq_true, reduceCtorEq] at h
      rw [eq_of_same head _ h.1, eq_of_sameAll args _ h.2]
  | .func params result, b, h => by
      cases b <;> simp only [same, Bool.and_eq_true, reduceCtorEq] at h
      rw [eq_of_sameAll params _ h.1, eq_of_same result _ h.2]
  | .ptr _ target, b, h => by
      cases b <;> simp only [same, Bool.and_eq_true, beq_iff_eq, reduceCtorEq] at h
      rw [h.1, eq_of_same target _ h.2]
  | .array element _, b, h => by
      cases b <;> simp only [same, Bool.and_eq_true, beq_iff_eq, reduceCtorEq] at h
      rw [eq_of_same element _ h.1, h.2]
  | .tuple elements, b, h => by
      cases b <;> simp only [same, reduceCtorEq] at h
      rw [eq_of_sameAll elements _ h]

theorem eq_of_sameAll : (xs ys : List Ty) → sameAll xs ys = true → xs = ys
  | [], ys, h => by cases ys <;> simp_all [sameAll]
  | x :: xs, ys, h => by
      cases ys <;> simp only [sameAll, Bool.and_eq_true, reduceCtorEq] at h
      rw [eq_of_same x _ h.1, eq_of_sameAll xs _ h.2]

end

theorem same_iff {a b : Ty} : same a b = true ↔ a = b :=
  ⟨eq_of_same a b, fun equal => equal ▸ same_refl a⟩

instance : DecidableEq Ty := fun _ _ => decidable_of_iff _ same_iff

end Ty

end Monomorph
