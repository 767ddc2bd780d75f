import Mathlib.Data.List.Forall2
import Monomorph.Variance

/-!
What a comparison of types says. The shortcuts at its start, that equal types are allowed and
that an invariant position allows nothing else, agree with what looking inside would show. So
types of one form are allowed for each other exactly if their parts are, and any other pair
exactly if the types are equal or the subtype relation says so.
-/

namespace Monomorph

namespace Ty

/-- Functions, tuples, pointers and arrays have positions of their own. -/
def isStructural : Ty → Bool
  | .func _ _ | .tuple _ | .ptr _ _ | .array _ _ => true
  | .prim _ | .named _ _ | .param _ | .ctor _ _ | .app _ _ => false

/-- Types of one form, whose positions correspond. -/
def aligned : Ty → Ty → Bool
  | .func params _, .func params' _ => params.length == params'.length
  | .tuple elements, .tuple elements' => elements.length == elements'.length
  | .ptr mutable _, .ptr mutable' _ => mutable == mutable'
  | .array _ length, .array _ length' => length == length'
  | _, _ => false

theorem isStructural_of_aligned {a b : Ty} (same : a.aligned b = true) :
    a.isStructural = true := by
  cases a with
  | func | tuple | ptr | array => rfl
  | _ => cases same

theorem aligned_self {ty : Ty} (structural : ty.isStructural = true) : ty.aligned ty = true := by
  cases ty with
  | func | tuple | ptr | array => simp [aligned]
  | _ => cases structural

theorem aligned_comm (a b : Ty) : a.aligned b = b.aligned a := by
  cases a <;> cases b <;> simp [aligned, eq_comm]

theorem forall₂_of_members {R : Ty → Ty → Prop} {list list' : List Ty}
    (members : ∀ a ∈ list, ∀ b, R a b) (count : list.length = list'.length) :
    List.Forall₂ R list list' :=
  List.forall₂_iff_zip.mpr ⟨count, fun paired => members _ (List.of_mem_zip paired).1 _⟩

/-- Induction on two types that are taken apart together for as long as they are of one form. -/
theorem lockstep {motive : Ty → Ty → Prop}
    (apart : ∀ a b, a.aligned b = false → motive a b)
    (func : ∀ params params' result result', List.Forall₂ motive params params' →
      motive result result' → motive (.func params result) (.func params' result'))
    (tuple : ∀ elements elements', List.Forall₂ motive elements elements' →
      motive (.tuple elements) (.tuple elements'))
    (ptr : ∀ mutable target target', motive target target' →
      motive (.ptr mutable target) (.ptr mutable target'))
    (array : ∀ length element element', motive element element' →
      motive (.array element length) (.array element' length))
    (a b : Ty) : motive a b := by
  induction a using Ty.induction generalizing b with
  | func params result inputs output =>
    cases b with
    | func params' result' =>
      by_cases count : params.length = params'.length
      · exact func _ _ _ _ (forall₂_of_members inputs count) (output result')
      · exact apart _ _ (beq_false_of_ne count)
    | _ => exact apart _ _ rfl
  | tuple elements parts =>
    cases b with
    | tuple elements' =>
      by_cases count : elements.length = elements'.length
      · exact tuple _ _ (forall₂_of_members parts count)
      · exact apart _ _ (beq_false_of_ne count)
    | _ => exact apart _ _ rfl
  | ptr mutable target part =>
    cases b with
    | ptr mutable' target' =>
      by_cases same : mutable = mutable'
      · subst same
        exact ptr _ _ _ (part target')
      · exact apart _ _ (beq_false_of_ne same)
    | _ => exact apart _ _ rfl
  | array element length part =>
    cases b with
    | array element' length' =>
      by_cases same : length = length'
      · subst same
        exact array _ _ _ (part element')
      · exact apart _ _ (beq_false_of_ne same)
    | _ => exact apart _ _ rfl
  | prim | named | param | ctor | app => exact apart _ _ rfl

end Ty

namespace Variance

section Compositions

theorem compose_contravariant (variance : Variance) :
    variance.compose .contravariant = variance.flip := by
  cases variance <;> rfl

theorem compose_invariant (variance : Variance) : variance.compose .invariant = .invariant := by
  cases variance <;> rfl

end Compositions

variable (subtyping : Subtyping) (variance : Variance)

/-- The variance of the target of a pointer. -/
def inside (mutable : Bool) : Variance := if mutable then .invariant else variance

section Shortcuts

theorem allows_self (ty : Ty) : variance.allows subtyping ty ty = true := by
  unfold allows compare
  rw [if_pos rfl]
  rfl

theorem allows_invariant (actual expected : Ty) :
    invariant.allows subtyping actual expected = true ↔ actual = expected := by
  unfold allows compare
  by_cases same : actual = expected
  · simp [same]
  · simp [same]

variable {subtyping variance}

/-- To know what a comparison says it is enough to know what it says of different types in a
position that is not invariant. -/
theorem allows_iff {actual expected : Ty} {parts : Prop} (equal : actual = expected → parts)
    (exact : variance = .invariant → parts → actual = expected)
    (looked : actual ≠ expected → variance ≠ .invariant →
      (variance.allows subtyping actual expected = true ↔ parts)) :
    variance.allows subtyping actual expected = true ↔ parts := by
  by_cases same : actual = expected
  · subst same
    exact iff_of_true (allows_self _ _ _) (equal rfl)
  · by_cases fixed : variance = .invariant
    · subst fixed
      rw [allows_invariant]
      exact ⟨fun found => absurd found same, exact rfl⟩
    · exact looked same fixed

end Shortcuts

section Lists

/-- The types of two lists are allowed for each other, place by place. -/
abbrev AllowsAll (actuals expecteds : List Ty) : Prop :=
  List.Forall₂ (fun actual expected => variance.allows subtyping actual expected = true)
    actuals expecteds

theorem answer_compareAll {actuals expecteds : List Ty}
    (count : actuals.length = expecteds.length) :
    (compareAll subtyping variance actuals expecteds).answer = true ↔
      variance.AllowsAll subtyping actuals expecteds := by
  induction actuals generalizing expecteds with
  | nil =>
    cases expecteds with
    | nil => simp [compareAll]
    | cons expected rest => cases count
  | cons actual actuals ih =>
    cases expecteds with
    | nil => cases count
    | cons expected expecteds =>
      rw [List.length_cons, List.length_cons, Nat.add_right_cancel_iff] at count
      rw [compareAll, Inquiry.answer_both, Bool.and_eq_true, ih count]
      unfold AllowsAll
      rw [List.forall₂_cons]
      rfl

theorem allowsAll_self (list : List Ty) : variance.AllowsAll subtyping list list :=
  List.forall₂_same.mpr fun ty _ => allows_self subtyping variance ty

theorem allowsAll_invariant (actuals expecteds : List Ty) :
    invariant.AllowsAll subtyping actuals expecteds ↔ actuals = expecteds := by
  unfold AllowsAll
  simp only [allows_invariant, List.forall₂_eq_eq_eq]

end Lists

section Shapes

variable {subtyping variance}

/-- A function is allowed for another if its parameters are, the other way round, and its
result is. -/
theorem allows_func {params params' : List Ty} (result result' : Ty)
    (count : params.length = params'.length) :
    variance.allows subtyping (.func params result) (.func params' result') = true ↔
      variance.flip.AllowsAll subtyping params params' ∧
        variance.allows subtyping result result' = true := by
  apply allows_iff
  · rintro ⟨⟩
    exact ⟨allowsAll_self _ _ _, allows_self _ _ _⟩
  · rintro rfl ⟨inputs, output⟩
    rw [(allowsAll_invariant _ _ _).mp inputs, (allows_invariant _ _ _).mp output]
  · intro different free
    rw [allows, compare, if_neg different, if_neg free, if_pos count, Inquiry.answer_both,
      Bool.and_eq_true, answer_compareAll _ _ count, compose_contravariant]
    rfl

theorem allows_tuple {elements elements' : List Ty}
    (count : elements.length = elements'.length) :
    variance.allows subtyping (.tuple elements) (.tuple elements') = true ↔
      variance.AllowsAll subtyping elements elements' := by
  apply allows_iff
  · rintro ⟨⟩
    exact allowsAll_self _ _ _
  · rintro rfl parts
    rw [(allowsAll_invariant _ _ _).mp parts]
  · intro different free
    rw [allows, compare, if_neg different, if_neg free, if_pos count, answer_compareAll _ _ count]

theorem allows_ptr (mutable : Bool) (target target' : Ty) :
    variance.allows subtyping (.ptr mutable target) (.ptr mutable target') = true ↔
      (variance.inside mutable).allows subtyping target target' = true := by
  apply allows_iff
  · rintro ⟨⟩
    exact allows_self _ _ _
  · rintro rfl part
    have fixed : inside .invariant mutable = .invariant := ite_self _
    rw [fixed] at part
    rw [(allows_invariant _ _ _).mp part]
  · intro different free
    rw [allows, compare, if_neg different, if_neg free, if_pos rfl, compose_invariant]
    rfl

theorem allows_array (element element' : Ty) (length : Option Nat) :
    variance.allows subtyping (.array element length) (.array element' length) = true ↔
      variance.allows subtyping element element' = true := by
  apply allows_iff
  · rintro ⟨⟩
    exact allows_self _ _ _
  · rintro rfl part
    rw [(allows_invariant _ _ _).mp part]
  · intro different free
    rw [allows, compare, if_neg different, if_neg free, if_pos rfl]
    rfl

/-- Types that are not of one form are compared as wholes. -/
theorem allows_apart {actual expected : Ty} (apart : actual.aligned expected = false) :
    variance.allows subtyping actual expected = true ↔
      actual = expected ∨ (compareWhole subtyping variance actual expected).answer = true := by
  apply allows_iff Or.inl
  · rintro rfl (equal | whole)
    · exact equal
    · cases whole
  · intro different free
    have whole : compare subtyping variance actual expected =
        compareWhole subtyping variance actual expected := by
      unfold compare
      rw [if_neg different, if_neg free]
      split
      next => exact if_neg (by simpa [Ty.aligned] using apart)
      next => exact if_neg (by simpa [Ty.aligned] using apart)
      next => exact if_neg (by simpa [Ty.aligned] using apart)
      next => exact if_neg (by simpa [Ty.aligned] using apart)
      next => rfl
    rw [allows, whole, or_iff_right different]

end Shapes

end Variance

end Monomorph
