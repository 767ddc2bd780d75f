import Monomorph.Proofs.Substitutability

/-!
Comparison without subtyping. Where a type has no subtype but itself, every variance allows a
type for itself only: looking inside ends in pairs of types that are asked about as wholes, and
these must be equal. So an instance may stand for another only if their arguments are equal
throughout, and interning leaves no two such instances.
-/

namespace Monomorph

namespace Variance

variable {variance : Variance} {a b : Ty}

theorem eq_of_whole (whole : (compareWhole .trivial variance a b).answer = true) : a = b := by
  cases variance with
  | covariant => exact of_decide_eq_true whole
  | contravariant => exact (of_decide_eq_true whole).symm
  | invariant => cases whole
  | bivariant =>
    rw [compareWhole, Inquiry.answer_either, Bool.or_eq_true] at whole
    rcases whole with forwards | backwards
    · exact of_decide_eq_true forwards
    · exact (of_decide_eq_true backwards).symm

theorem eq_of_apart (apart : a.aligned b = false)
    (allowed : variance.allows .trivial a b = true) : a = b := by
  rcases (allows_apart apart).mp allowed with equal | whole
  · exact equal
  · exact eq_of_whole whole

theorem eq_of_allowsAll {first second : List Ty}
    (parts : List.Forall₂ (fun a b => ∀ {variance : Variance},
      variance.allows .trivial a b = true → a = b) first second)
    (allowed : variance.AllowsAll .trivial first second) : first = second := by
  rw [← List.forall₂_eq_eq_eq]
  exact parts.mp (fun _ _ equal here => equal here) allowed

/-- The induction is for every variance at once, since functions and pointers change it. -/
theorem eq_of_allows (allowed : variance.allows .trivial a b = true) : a = b := by
  induction a, b using Ty.lockstep generalizing variance with
  | apart a b apart => exact eq_of_apart apart allowed
  | func params params' result result' inputs output =>
    obtain ⟨ins, out⟩ := (allows_func _ _ inputs.length_eq).mp allowed
    rw [eq_of_allowsAll inputs ins, output out]
  | tuple elements elements' parts =>
    rw [eq_of_allowsAll parts ((allows_tuple parts.length_eq).mp allowed)]
  | ptr mutable target target' part => rw [part ((allows_ptr _ _ _).mp allowed)]
  | array length element element' part => rw [part ((allows_array _ _ _).mp allowed)]

theorem allows_trivial_iff : variance.allows .trivial a b = true ↔ a = b := by
  refine ⟨eq_of_allows, ?_⟩
  rintro rfl
  exact allows_self .trivial variance a

end Variance

namespace InstanceTable

/-- Every argument is compared, as there are as many parameters. -/
theorem eq_of_compareArguments {parameters : List Parameter} {actuals expecteds : List Ty}
    (count : actuals.length = parameters.length) (count' : expecteds.length = parameters.length)
    (allowed : (compareArguments .trivial parameters actuals expecteds).answer = true) :
    actuals = expecteds := by
  induction parameters generalizing actuals expecteds with
  | nil => rw [List.length_eq_zero_iff.mp count, List.length_eq_zero_iff.mp count']
  | cons parameter parameters ih =>
    cases actuals with
    | nil => cases count
    | cons actual actuals =>
      cases expecteds with
      | nil => cases count'
      | cons expected expecteds =>
        rw [compareArguments, Inquiry.answer_both, Bool.and_eq_true] at allowed
        rw [Variance.eq_of_allows allowed.1,
          ih (Nat.succ.inj count) (Nat.succ.inj count') allowed.2]

end InstanceTable

namespace CompilationUnit

theorem eq_of_substitutable {unit : CompilationUnit} (reached : unit.Reachable) {a b : Nat}
    (allowed : (unit.substitutable .trivial a b).answer = true) : a = b := by
  rcases InstanceTable.substitutable_iff.mp allowed with
    equal | ⟨mine, theirs, generic, foundMine, foundTheirs, same, declared, compared⟩
  · exact equal
  · have count {entry : Instance} {id : Nat} (found : unit.table.get? id = some entry)
        (known : unit.catalog.generic? entry.generic = some generic) :
        entry.arguments.length = generic.parameters.length := by
      obtain ⟨shared, listed, _, _, _, valid⟩ :=
        reached.within.admitted.2 entry (List.mem_of_getElem? found)
      rw [Catalog.generic?, listed] at known
      cases known
      exact valid.count
    have arguments := InstanceTable.eq_of_compareArguments (count foundMine declared)
      (count foundTheirs (same ▸ declared)) compared
    exact reached.coherent.place_unique foundMine foundTheirs (Prod.ext same arguments)

/-- In every unit, whatever the variances of its generics, where no type has a subtype but
itself a number may stand for another only if the two are equal. This is so because every
variance then allows a type for itself only. -/
theorem substitutable_only_same {unit : CompilationUnit} (reached : unit.Reachable) :
    (∀ a b, (unit.substitutable .trivial a b).answer = true ↔ a = b) ∧
    ∀ (variance : Variance) (s t : Ty), variance.allows .trivial s t = true ↔ s = t := by
  refine ⟨?_, ?_⟩
  · intro a b
    refine ⟨eq_of_substitutable reached, ?_⟩
    intro same
    exact InstanceTable.substitutable_iff.mpr (Or.inl same)
  · intro variance s t
    exact Variance.allows_trivial_iff

section Bags

/-- A generic with a bivariant parameter. -/
def bag : SharedGeneric :=
  ⟨6, { Generic.bare "Bag" with
    parameters := [⟨"T", [], none, none, some .bivariant, none⟩] }⟩

def bagOf (input output : Ty) : Change := .request ⟨"Bag", [.func [input] output], none, none⟩

def numberBags : CompilationUnit :=
  (empty .lenient .standard).afterAll [.register bag, bagOf number number]

/-- Two bags, one of which came by a merge. -/
def bags : CompilationUnit :=
  (empty .lenient .standard).afterAll
    [.register bag, bagOf (.prim .int) (.prim .int), .merge numberBags]

theorem reachable_bags : bags.Reachable := by
  have merged : numberBags.Reachable := by
    apply (Reachable.empty _ _).afterAll
    simp [bagOf]
  apply (Reachable.empty _ _).afterAll
  simp [bagOf, merged]

/-- Either bag may stand for the other where integers are numbers, but not without subtyping. -/
theorem bags_only_same :
    bags.Reachable ∧ bags.instances.length = 2 ∧
    (bags.substitutable widening 0 1).answer = true ∧
    (bags.substitutable widening 1 0).answer = true ∧
    (bags.substitutable .trivial 0 1).answer = false ∧
    (bags.substitutable .trivial 1 1).answer = true ∧
    (bags.substitutable .trivial 5 5).answer = true ∧
    (bags.substitutable .trivial 1 5).answer = false := by
  obtain ⟨same, _⟩ := substitutable_only_same reachable_bags
  have apart {a b : Nat} (different : a ≠ b) : (bags.substitutable .trivial a b).answer = false :=
    Bool.eq_false_iff.mpr fun allowed => different ((same a b).mp allowed)
  exact ⟨reachable_bags, by decide, by decide, by decide, apart (by decide), (same 1 1).mpr rfl,
    (same 5 5).mpr rfl, apart (by decide)⟩

end Bags

end CompilationUnit

end Monomorph
