import Monomorph.Proofs.Admission
import Monomorph.Proofs.Comparison

/-!
When one instance may stand for another. What stands for something that stands for a third
should stand for the third. This needs a subtype relation that is transitive and leaves
functions, tuples, pointers and arrays to the comparison, and no parameter may be bivariant.
Then a type of one of these forms is allowed for types of its own form only, so transitivity
passes from the parts to the whole, and from the arguments to the instances.
-/

namespace Monomorph

namespace Subtyping

def Transitive (subtyping : Subtyping) : Prop :=
  ∀ a b c, subtyping a b = true → subtyping b c = true → subtyping a c = true

/-- The relation says no to functions, tuples, pointers and arrays on either side. -/
def Nominal (subtyping : Subtyping) : Prop :=
  ∀ sub sup, sub.isStructural = true ∨ sup.isStructural = true → subtyping sub sup = false

theorem Nominal.flat {subtyping : Subtyping} (nominal : subtyping.Nominal) {sub sup : Ty}
    (related : subtyping sub sup = true) :
    sub.isStructural = false ∧ sup.isStructural = false := by
  have neither : ¬(sub.isStructural = true ∨ sup.isStructural = true) := by
    intro structural
    rw [nominal sub sup structural] at related
    cases related
  simpa only [not_or, Bool.not_eq_true] using neither

end Subtyping

namespace Variance

variable {subtyping : Subtyping} {variance : Variance} {a b c : Ty}

section Inversion

variable (nominal : subtyping.Nominal)

include nominal

theorem flat_of_whole (whole : (compareWhole subtyping variance a b).answer = true) :
    a.isStructural = false ∧ b.isStructural = false := by
  cases variance with
  | covariant => exact nominal.flat whole
  | contravariant => exact (nominal.flat whole).symm
  | invariant => cases whole
  | bivariant =>
    rw [compareWhole, Inquiry.answer_either, Bool.or_eq_true] at whole
    rcases whole with forwards | backwards
    · exact nominal.flat forwards
    · exact (nominal.flat backwards).symm

/-- A type with positions is allowed only where there are the same positions. -/
theorem aligned_of_allows (structural : a.isStructural = true)
    (allowed : variance.allows subtyping a b = true) : a.aligned b = true := by
  by_contra apart
  rcases (allows_apart (Bool.eq_false_iff.mpr apart)).mp allowed with rfl | whole
  · exact apart (Ty.aligned_self structural)
  · rw [(flat_of_whole nominal whole).1] at structural
    cases structural

theorem allows_func_iff {params : List Ty} {result : Ty} :
    variance.allows subtyping (.func params result) b = true ↔
      ∃ params' result', b = .func params' result' ∧
        variance.flip.AllowsAll subtyping params params' ∧
          variance.allows subtyping result result' = true := by
  constructor
  · intro allowed
    have same := aligned_of_allows nominal rfl allowed
    cases b with
    | func params' result' =>
      exact ⟨params', result', rfl, (allows_func _ _ (beq_iff_eq.mp same)).mp allowed⟩
    | _ => cases same
  · rintro ⟨params', result', rfl, parts⟩
    exact (allows_func _ _ parts.1.length_eq).mpr parts

theorem allows_tuple_iff {elements : List Ty} :
    variance.allows subtyping (.tuple elements) b = true ↔
      ∃ elements', b = .tuple elements' ∧ variance.AllowsAll subtyping elements elements' := by
  constructor
  · intro allowed
    have same := aligned_of_allows nominal rfl allowed
    cases b with
    | tuple elements' =>
      exact ⟨elements', rfl, (allows_tuple (beq_iff_eq.mp same)).mp allowed⟩
    | _ => cases same
  · rintro ⟨elements', rfl, parts⟩
    exact (allows_tuple parts.length_eq).mpr parts

theorem allows_ptr_iff {mutable : Bool} {target : Ty} :
    variance.allows subtyping (.ptr mutable target) b = true ↔
      ∃ target', b = .ptr mutable target' ∧
        (variance.inside mutable).allows subtyping target target' = true := by
  constructor
  · intro allowed
    have same := aligned_of_allows nominal rfl allowed
    cases b with
    | ptr mutable' target' =>
      obtain rfl : mutable = mutable' := beq_iff_eq.mp same
      exact ⟨target', rfl, (allows_ptr _ _ _).mp allowed⟩
    | _ => cases same
  · rintro ⟨target', rfl, part⟩
    exact (allows_ptr _ _ _).mpr part

theorem allows_array_iff {element : Ty} {length : Option Nat} :
    variance.allows subtyping (.array element length) b = true ↔
      ∃ element', b = .array element' length ∧
        variance.allows subtyping element element' = true := by
  constructor
  · intro allowed
    have same := aligned_of_allows nominal rfl allowed
    cases b with
    | array element' length' =>
      obtain rfl : length = length' := beq_iff_eq.mp same
      exact ⟨element', rfl, (allows_array _ _ _).mp allowed⟩
    | _ => cases same
  · rintro ⟨element', rfl, part⟩
    exact (allows_array _ _ _).mpr part

/-- A type without positions is allowed for itself and for what the relation puts it below. -/
theorem allows_flat_iff (flat : a.isStructural = false) :
    variance.allows subtyping a b = true ↔
      a = b ∨ b.isStructural = false ∧ (compareWhole subtyping variance a b).answer = true := by
  have apart : a.aligned b = false := by
    rw [Bool.eq_false_iff]
    intro same
    rw [Ty.isStructural_of_aligned same] at flat
    cases flat
  rw [allows_apart apart]
  apply or_congr_right
  exact ⟨fun whole => ⟨(flat_of_whole nominal whole).2, whole⟩, And.right⟩

end Inversion

section Transitivity

theorem flip_ne_bivariant (directed : variance ≠ .bivariant) : variance.flip ≠ .bivariant := by
  cases variance with
  | bivariant => exact directed
  | _ => nofun

theorem inside_ne_bivariant (directed : variance ≠ .bivariant) (mutable : Bool) :
    variance.inside mutable ≠ .bivariant := by
  cases mutable with
  | false => exact directed
  | true => nofun

theorem whole_trans (transitive : subtyping.Transitive) (directed : variance ≠ .bivariant)
    (first : (compareWhole subtyping variance a b).answer = true)
    (second : (compareWhole subtyping variance b c).answer = true) :
    (compareWhole subtyping variance a c).answer = true := by
  cases variance with
  | covariant => exact transitive a b c first second
  | contravariant => exact transitive c b a second first
  | invariant => cases first
  | bivariant => exact absurd rfl directed

theorem allowsAll_trans {first second third : List Ty}
    (step : ∀ a ∈ first, ∀ b c, variance.allows subtyping a b = true →
      variance.allows subtyping b c = true → variance.allows subtyping a c = true)
    (left : variance.AllowsAll subtyping first second)
    (right : variance.AllowsAll subtyping second third) :
    variance.AllowsAll subtyping first third := by
  induction left generalizing third with
  | nil => exact right
  | cons here _ ih =>
    cases right with
    | cons there rest =>
      refine .cons (step _ List.mem_cons_self _ _ here there) (ih ?_ rest)
      exact fun a member => step a (List.mem_cons_of_mem _ member)

variable (transitive : subtyping.Transitive) (nominal : subtyping.Nominal)

include transitive nominal

theorem allows_trans_flat (directed : variance ≠ .bivariant) (flat : a.isStructural = false)
    (first : variance.allows subtyping a b = true)
    (second : variance.allows subtyping b c = true) : variance.allows subtyping a c = true := by
  rcases (allows_flat_iff nominal flat).mp first with rfl | ⟨flat', whole⟩
  · exact second
  · rcases (allows_flat_iff nominal flat').mp second with rfl | ⟨flat'', whole'⟩
    · exact first
    · have joined := whole_trans transitive directed whole whole'
      exact (allows_flat_iff nominal flat).mpr (Or.inr ⟨flat'', joined⟩)

/-- Outside bivariant positions, what is allowed for something is allowed wherever that is. The
parameters of a function are compared the other way round, so the induction on the first type is
for every variance and every two further types at once. -/
theorem allows_trans (directed : variance ≠ .bivariant)
    (first : variance.allows subtyping a b = true)
    (second : variance.allows subtyping b c = true) : variance.allows subtyping a c = true := by
  induction a using Ty.induction generalizing variance b c with
  | func params result inputs output =>
    obtain ⟨params', result', rfl, ins, out⟩ := (allows_func_iff nominal).mp first
    obtain ⟨params'', result'', rfl, ins', out'⟩ := (allows_func_iff nominal).mp second
    refine (allows_func_iff nominal).mpr ⟨params'', result'', rfl, ?_, output directed out out'⟩
    exact allowsAll_trans (fun param member _ _ =>
      inputs param member (flip_ne_bivariant directed)) ins ins'
  | tuple elements parts =>
    obtain ⟨elements', rfl, each⟩ := (allows_tuple_iff nominal).mp first
    obtain ⟨elements'', rfl, each'⟩ := (allows_tuple_iff nominal).mp second
    refine (allows_tuple_iff nominal).mpr ⟨elements'', rfl, ?_⟩
    exact allowsAll_trans (fun element member _ _ => parts element member directed) each each'
  | ptr mutable target part =>
    obtain ⟨target', rfl, at'⟩ := (allows_ptr_iff nominal).mp first
    obtain ⟨target'', rfl, at''⟩ := (allows_ptr_iff nominal).mp second
    have joined := part (inside_ne_bivariant directed mutable) at' at''
    exact (allows_ptr_iff nominal).mpr ⟨target'', rfl, joined⟩
  | array element length part =>
    obtain ⟨element', rfl, each⟩ := (allows_array_iff nominal).mp first
    obtain ⟨element'', rfl, each'⟩ := (allows_array_iff nominal).mp second
    exact (allows_array_iff nominal).mpr ⟨element'', rfl, part directed each each'⟩
  | prim | named | param | ctor | app =>
    exact allows_trans_flat transitive nominal directed rfl first second

end Transitivity

end Variance

namespace InstanceTable

variable {subtyping : Subtyping}

/-- Argument lists are compared place by place. The middle list must not be the shorter one, or
the places behind its end would go unseen. -/
theorem compareArguments_trans (transitive : subtyping.Transitive) (nominal : subtyping.Nominal)
    {parameters : List Parameter}
    (directed : ∀ parameter ∈ parameters, parameter.effectiveVariance ≠ .bivariant)
    {first second third : List Ty} (count : second.length = parameters.length)
    (left : (compareArguments subtyping parameters first second).answer = true)
    (right : (compareArguments subtyping parameters second third).answer = true) :
    (compareArguments subtyping parameters first third).answer = true := by
  induction parameters generalizing first second third with
  | nil => rfl
  | cons parameter parameters ih =>
    cases second with
    | nil => cases count
    | cons b second =>
      cases first with
      | nil => rfl
      | cons a first =>
        cases third with
        | nil => rfl
        | cons c third =>
          rw [compareArguments, Inquiry.answer_both, Bool.and_eq_true] at left right ⊢
          have here := Variance.allows_trans transitive nominal
            (directed parameter List.mem_cons_self) left.1 right.1
          refine ⟨here, ih ?_ (Nat.succ.inj count) left.2 right.2⟩
          exact fun other member => directed other (List.mem_cons_of_mem _ member)

theorem substitutable_iff {table : InstanceTable} {catalog : Catalog} {actual expected : Nat} :
    (table.substitutable catalog subtyping actual expected).answer = true ↔
      actual = expected ∨ ∃ mine theirs generic, table.get? actual = some mine ∧
        table.get? expected = some theirs ∧ mine.generic = theirs.generic ∧
        catalog.generic? mine.generic = some generic ∧
        (compareArguments subtyping generic.parameters mine.arguments
          theirs.arguments).answer = true := by
  unfold substitutable
  by_cases same : actual = expected
  · simp [same]
  · rw [if_neg same, or_iff_right same]
    cases here : table.get? actual with
    | none => simp
    | some mine =>
      cases there : table.get? expected with
      | none => simp
      | some theirs =>
        by_cases alike : mine.generic = theirs.generic
        · cases declared : catalog.generic? theirs.generic <;> simp [alike, declared]
        · simp [alike]

end InstanceTable

namespace CompilationUnit

/-- No parameter of a registered generic is declared bivariant. -/
def Directed (unit : CompilationUnit) : Prop :=
  ∀ shared ∈ unit.catalog.registered, ∀ parameter ∈ shared.generic.parameters,
    parameter.variance ≠ some .bivariant

theorem Directed.effectiveVariance {unit : CompilationUnit} (directed : unit.Directed)
    {shared : SharedGeneric} (member : shared ∈ unit.catalog.registered) :
    ∀ parameter ∈ shared.generic.parameters, parameter.effectiveVariance ≠ .bivariant := by
  intro parameter listed
  have declared := directed shared member parameter listed
  unfold Parameter.effectiveVariance
  cases variance : parameter.variance with
  | none => nofun
  | some variance =>
    intro bivariant
    exact declared (variance.trans (congrArg some bivariant))

theorem substitutable_trans {unit : CompilationUnit} (reached : unit.Reachable)
    (directed : unit.Directed) {subtyping : Subtyping} (transitive : subtyping.Transitive)
    (nominal : subtyping.Nominal) {a b c : Nat}
    (first : (unit.substitutable subtyping a b).answer = true)
    (second : (unit.substitutable subtyping b c).answer = true) :
    (unit.substitutable subtyping a c).answer = true := by
  rcases InstanceTable.substitutable_iff.mp first with
    rfl | ⟨x, y, generic, foundX, foundY, same, declared, left⟩
  · exact second
  · rcases InstanceTable.substitutable_iff.mp second with
      rfl | ⟨y', z, generic', foundY', foundZ, same', declared', right⟩
    · exact first
    · rw [foundY] at foundY'
      cases foundY'
      rw [← same, declared] at declared'
      cases declared'
      -- The instance in the middle has as many arguments as the declaration has parameters.
      obtain ⟨shared, known, _, _, _, valid⟩ :=
        reached.within.admitted.2 y (List.mem_of_getElem? foundY)
      rw [Catalog.generic?, same, known] at declared
      cases declared
      have joined := InstanceTable.compareArguments_trans transitive nominal
        (directed.effectiveVariance (List.mem_of_find?_eq_some known)) valid.count left right
      refine InstanceTable.substitutable_iff.mpr (Or.inr ⟨x, z, shared.generic, foundX, foundZ,
        same.trans same', ?_, joined⟩)
      rw [Catalog.generic?, same, known, Option.map_some]

/-- In every unit without bivariant parameters, and for every transitive subtype relation that
leaves functions, tuples, pointers and arrays alone, any number may stand for itself, and what
may stand for a number may stand wherever that one may. This is so because covariant and
contravariant positions compare types transitively. -/
theorem substitution_preorder {unit : CompilationUnit} (reached : unit.Reachable)
    (directed : unit.Directed) {subtyping : Subtyping} (transitive : subtyping.Transitive)
    (nominal : subtyping.Nominal) :
    (∀ id, (unit.substitutable subtyping id id).answer = true) ∧
    (∀ a b c, (unit.substitutable subtyping a b).answer = true →
      (unit.substitutable subtyping b c).answer = true →
      (unit.substitutable subtyping a c).answer = true) ∧
    ∀ variance : Variance, variance = .covariant ∨ variance = .contravariant → ∀ a b c,
      variance.allows subtyping a b = true → variance.allows subtyping b c = true →
      variance.allows subtyping a c = true := by
  refine ⟨?_, ?_, ?_⟩
  · intro id
    exact InstanceTable.substitutable_iff.mpr (Or.inl rfl)
  · intro a b c first second
    exact substitutable_trans reached directed transitive nominal first second
  · intro variance either a b c first second
    have directed : variance ≠ .bivariant := by
      rcases either with rfl | rfl
      · nofun
      · nofun
    exact Variance.allows_trans transitive nominal directed first second

section Channels

def number : Ty := .named "Number" []

def anything : Ty := .named "Any" []

/-- How far up a chain of three types a type is. -/
def height : Ty → Option Nat
  | .prim .int => some 0
  | .named name [] => if name = "Number" then some 1 else if name = "Any" then some 2 else none
  | _ => none

/-- Integers are numbers, and numbers are of the last type. -/
def widening : Subtyping := fun sub sup =>
  (height sub).any fun low => (height sup).any fun high => decide (low < high)

theorem transitive_widening : widening.Transitive := by
  intro a b c first second
  simp only [widening, Option.any_eq_true, decide_eq_true_eq] at first second ⊢
  obtain ⟨low, atA, middle, atB, below⟩ := first
  obtain ⟨middle', atB', high, atC, below'⟩ := second
  rw [atB] at atB'
  cases atB'
  exact ⟨low, atA, high, atC, by omega⟩

theorem nominal_widening : widening.Nominal := by
  have none {ty : Ty} (structural : ty.isStructural = true) : height ty = none := by
    cases ty with
    | func | tuple | ptr | array => rfl
    | _ => cases structural
  intro sub sup structural
  rcases structural with left | right
  · simp [widening, none left]
  · cases below : height sub <;> simp [widening, none right, below]

/-- A generic that takes its first argument in and gives its second one out. -/
def channel : SharedGeneric :=
  ⟨5, { Generic.bare "Channel" with
    parameters := [⟨"In", [], none, none, some .contravariant, none⟩,
      ⟨"Out", [], none, none, some .covariant, none⟩] }⟩

def channelOf (input output : Ty) : Change :=
  .request ⟨"Channel", [input, .func [input] output], none, none⟩

def wideChannels : CompilationUnit :=
  (empty .lenient .standard).afterAll
    [.register channel, channelOf number number, channelOf (.prim .int) anything]

/-- Three channels, two of which came by a merge. -/
def channels : CompilationUnit :=
  (empty .lenient .standard).afterAll
    [.register channel, channelOf anything (.prim .int), .merge wideChannels]

theorem reachable_channels : channels.Reachable := by
  have wide : wideChannels.Reachable := by
    apply (Reachable.empty _ _).afterAll
    simp [channelOf]
  apply (Reachable.empty _ _).afterAll
  simp [channelOf, wide]

theorem channels_preordered :
    channels.Reachable ∧ channels.Directed ∧ widening.Transitive ∧ widening.Nominal ∧
    (channels.substitutable widening 0 1).answer = true ∧
    (channels.substitutable widening 1 2).answer = true ∧
    (channels.substitutable widening 0 2).answer = true ∧
    (channels.substitutable widening 2 0).answer = false ∧
    (channels.substitutable widening 7 7).answer = true := by
  have directed : channels.Directed := by
    unfold Directed
    decide
  have first : (channels.substitutable widening 0 1).answer = true := by decide
  have second : (channels.substitutable widening 1 2).answer = true := by decide
  obtain ⟨reflexive, transitive, _⟩ :=
    substitution_preorder reachable_channels directed transitive_widening nominal_widening
  exact ⟨reachable_channels, directed, transitive_widening, nominal_widening, first, second,
    transitive 0 1 2 first second, by decide, reflexive 7⟩

end Channels

end CompilationUnit

end Monomorph
