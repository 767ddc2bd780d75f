import Monomorph.Proofs.Substitutability

/-!
How a comparison depends on the variance. Exchanging the two types amounts to flipping the
variance, and a looser variance allows whatever a tighter one does. Neither law asks anything of
the subtype relation: pairs that are put to it as wholes obey both, and so do types of one form if
their parts do. A function flips the variance for its parameters and a mutable pointer makes it
invariant for its target, so the inductions are for every variance at once.
-/

namespace Monomorph

namespace Variance

variable {subtyping : Subtyping} {variance : Variance}

section Duality

theorem flip_inside (mutable : Bool) :
    (variance.inside mutable).flip = variance.flip.inside mutable := by
  cases mutable with
  | false => rfl
  | true => rfl

theorem whole_flip (actual expected : Ty) :
    (compareWhole subtyping variance.flip expected actual).answer =
      (compareWhole subtyping variance actual expected).answer := by
  cases variance with
  | covariant | contravariant | invariant => rfl
  | bivariant =>
    simp only [flip, compareWhole, Inquiry.answer_either]
    exact Bool.or_comm _ _

theorem allowsAll_flip {list list' : List Ty}
    (parts : List.Forall₂ (fun a b => ∀ variance : Variance,
      variance.allows subtyping a b = true ↔ variance.flip.allows subtyping b a = true)
      list list') :
    variance.AllowsAll subtyping list list' ↔ variance.flip.AllowsAll subtyping list' list := by
  constructor
  · intro forwards
    exact (parts.mp (fun _ _ dual => (dual variance).mp) forwards).flip
  · intro backwards
    exact parts.mp (fun _ _ dual => (dual variance).mpr) (List.Forall₂.flip backwards)

/-- For every subtype relation, variance and pair of types, comparing them gives the answer that
comparing them the other way round gives under the flipped variance. -/
theorem comparison_duality (subtyping : Subtyping) (variance : Variance) (actual expected : Ty) :
    variance.allows subtyping actual expected = variance.flip.allows subtyping expected actual := by
  rw [Bool.eq_iff_iff]
  induction actual, expected using Ty.lockstep generalizing variance with
  | apart actual expected apart =>
    have apart' : expected.aligned actual = false := (expected.aligned_comm actual).trans apart
    rw [allows_apart apart, allows_apart apart', whole_flip, eq_comm]
  | func params params' result result' inputs output =>
    rw [allows_func _ _ inputs.length_eq, allows_func _ _ inputs.length_eq.symm,
      allowsAll_flip inputs, output]
  | tuple elements elements' parts =>
    rw [allows_tuple parts.length_eq, allows_tuple parts.length_eq.symm, allowsAll_flip parts]
  | ptr mutable target target' part => rw [allows_ptr, allows_ptr, part, flip_inside]
  | array length element element' part => rw [allows_array, allows_array, part]

end Duality

section Looseness

/-- The second variance admits in a position whatever the first does. -/
inductive Tighter : Variance → Variance → Prop
  | same (variance : Variance) : Tighter variance variance
  | invariant (variance : Variance) : Tighter .invariant variance
  | bivariant (variance : Variance) : Tighter variance .bivariant

variable {loose : Variance}

theorem Tighter.flip (tighter : Tighter variance loose) : Tighter variance.flip loose.flip := by
  cases tighter with
  | same => exact .same _
  | invariant => exact .invariant _
  | bivariant => exact .bivariant _

theorem Tighter.inside (tighter : Tighter variance loose) (mutable : Bool) :
    Tighter (variance.inside mutable) (loose.inside mutable) := by
  cases mutable with
  | false => exact tighter
  | true => exact .same _

theorem whole_loosen {actual expected : Ty} (tighter : Tighter variance loose)
    (whole : (compareWhole subtyping variance actual expected).answer = true) :
    (compareWhole subtyping loose actual expected).answer = true := by
  cases tighter with
  | same => exact whole
  | invariant => cases whole
  | bivariant =>
    rw [compareWhole, Inquiry.answer_either, Bool.or_eq_true]
    cases variance with
    | covariant => exact Or.inl whole
    | contravariant => exact Or.inr whole
    | invariant => cases whole
    | bivariant => simpa [compareWhole] using whole

theorem allowsAll_loosen {list list' : List Ty} (tighter : Tighter variance loose)
    (parts : List.Forall₂ (fun a b => ∀ {variance loose : Variance}, Tighter variance loose →
      variance.allows subtyping a b = true → loose.allows subtyping a b = true) list list')
    (allowed : variance.AllowsAll subtyping list list') : loose.AllowsAll subtyping list list' :=
  parts.mp (fun _ _ loosen => loosen tighter) allowed

theorem allows_loosen {actual expected : Ty} (tighter : Tighter variance loose)
    (allowed : variance.allows subtyping actual expected = true) :
    loose.allows subtyping actual expected = true := by
  induction actual, expected using Ty.lockstep generalizing variance loose with
  | apart actual expected apart =>
    rw [allows_apart apart] at allowed ⊢
    exact allowed.imp_right (whole_loosen tighter)
  | func params params' result result' inputs output =>
    rw [allows_func _ _ inputs.length_eq] at allowed ⊢
    exact ⟨allowsAll_loosen tighter.flip inputs allowed.1, output tighter allowed.2⟩
  | tuple elements elements' parts =>
    rw [allows_tuple parts.length_eq] at allowed ⊢
    exact allowsAll_loosen tighter parts allowed
  | ptr mutable target target' part =>
    rw [allows_ptr] at allowed ⊢
    exact part (tighter.inside mutable) allowed
  | array length element element' part =>
    rw [allows_array] at allowed ⊢
    exact part tighter allowed

/-- For every subtype relation and pair of types, what is allowed in an invariant position is
allowed in every position, and what is allowed in a covariant or a contravariant position is
allowed in a bivariant one. -/
theorem looser_allows_more (subtyping : Subtyping) (actual expected : Ty) :
    (invariant.allows subtyping actual expected = true →
      ∀ variance : Variance, variance.allows subtyping actual expected = true) ∧
    (covariant.allows subtyping actual expected = true ∨
        contravariant.allows subtyping actual expected = true →
      bivariant.allows subtyping actual expected = true) := by
  refine ⟨?_, ?_⟩
  · intro identical variance
    exact allows_loosen (.invariant variance) identical
  · rintro (forwards | backwards)
    · exact allows_loosen (.bivariant .covariant) forwards
    · exact allows_loosen (.bivariant .contravariant) backwards

section Callbacks

/-- A function that takes a function over pointers, and gives out a pair. -/
def callback (item : Ty) : Ty :=
  .func [.func [.ptr false item] (.prim .bool)] (.tuple [item, .ptr true (.prim .char)])

open CompilationUnit in
theorem callbacks_loosened :
    covariant.allows widening (callback (.prim .int)) (callback number) = true ∧
    contravariant.allows widening (callback (.prim .int)) (callback number) = false ∧
    bivariant.allows widening (callback (.prim .int)) (callback number) = true ∧
    contravariant.allows widening (callback number) (callback (.prim .int)) = true ∧
    bivariant.allows widening (callback number) (callback (.prim .int)) = true ∧
    invariant.allows widening (callback number) (callback number) = true ∧
    contravariant.allows widening (callback number) (callback number) = true := by
  have forwards : covariant.allows widening (callback (.prim .int)) (callback number) = true := by
    decide
  have backwards :
      contravariant.allows widening (callback number) (callback (.prim .int)) = true := by
    decide
  have identical : invariant.allows widening (callback number) (callback number) = true := by
    decide
  exact ⟨forwards, by decide, (looser_allows_more widening _ _).2 (Or.inl forwards), backwards,
    (looser_allows_more widening _ _).2 (Or.inr backwards), identical,
    (looser_allows_more widening _ _).1 identical .contravariant⟩

end Callbacks

end Looseness

end Variance

end Monomorph
