import Monomorph.Proofs.Replacement
import Monomorph.Proofs.Stability
import Monomorph.Substitution

/-!
Kinds of types, before and after a replacement, and kinds of accepted arguments. A type is a
number of applications on a root, and its kind is that of the root with the arguments taken off,
in however many lists they are given; it is unknown if the root is a reference, or if there are
more arguments than the root takes.

A replacement joins an application with its nominal root, and a nominal type is of kind `*`
however many arguments it lacks. So a known kind stays known, but a constructor that has received
some of its arguments is no constructor any more once something in them is replaced.

An argument of unknown kind is not refused for it. Where open arguments are refused, these are
the arguments that have received too many arguments themselves.
-/

namespace Monomorph

namespace Kind

/-- The kind that is left when a number of arguments is taken at once. -/
def taking (count : Nat) (kind : Kind) : Option Kind :=
  if count ≤ kind.arity then some (.ofArity (kind.arity - count)) else none

/-- Arguments may be taken one part after the other. What is left in between is a kind again, and
it takes the second part exactly if there was room for both. -/
theorem bind_taking (known : Option Kind) (first second : Nat) :
    (known.bind (taking first)).bind (taking second) = known.bind (taking (first + second)) := by
  cases known with
  | none => rfl
  | some kind =>
    rw [Option.bind_some, Option.bind_some]
    by_cases fits : first ≤ kind.arity
    · simp only [taking, if_pos fits, Option.bind_some, arity_ofArity, Nat.sub_sub,
        Nat.le_sub_iff_add_le' fits]
    · have more : ¬first + second ≤ kind.arity := by omega
      simp only [taking, if_neg fits, if_neg more, Option.bind_none]

end Kind

namespace Ty

section Spines

/-- An application has a known kind if its head has one that takes its arguments. -/
theorem kind?_app_eq_some_iff {head : Ty} {args : List Ty} {kind : Kind} :
    (app head args).kind? = some kind ↔
      ∃ headKind, head.kind? = some headKind ∧ args.length ≤ headKind.arity ∧
        .ofArity (headKind.arity - args.length) = kind := by
  rw [kind?]
  cases head.kind? with
  | none => simp
  | some headKind => simp

theorem kind?_app (head : Ty) (args : List Ty) :
    (app head args).kind? = head.kind?.bind (Kind.taking args.length) := by
  rw [kind?]
  cases head.kind? <;> rfl

/-- What the applications of a type are made on. -/
def root : Ty → Ty
  | .app head _ => head.root
  | ty => ty

/-- How many arguments the applications of a type give to its root. -/
def received : Ty → Nat
  | .app head args => head.received + args.length
  | _ => 0

theorem kind?_eq_root (ty : Ty) :
    ty.kind? = ty.root.kind?.bind fun kind =>
      if ty.received ≤ kind.arity then some (.ofArity (kind.arity - ty.received)) else none := by
  change ty.kind? = ty.root.kind?.bind (Kind.taking ty.received)
  induction ty using Ty.induction with
  | app head args ih _ => rw [kind?_app, ih, Kind.bind_taking, root, received]
  | ctor name arity => simp [root, received, kind?, Kind.taking]
  | _ => rfl

/-- The root has received more arguments than its kind takes. -/
def Overapplied (ty : Ty) : Prop := ∃ kind, ty.root.kind? = some kind ∧ kind.arity < ty.received

theorem exists_kind_root {ty : Ty} (closed : ty.isOpen = false) :
    ∃ kind, ty.root.kind? = some kind := by
  induction ty using Ty.induction with
  | param name => cases closed
  | app head args ih _ => exact ih (Bool.or_eq_false_iff.mp closed).1
  | _ => exact ⟨_, rfl⟩

/-- Of a closed type the kind is unknown only for the number of arguments. -/
theorem kind?_eq_none_iff {ty : Ty} (closed : ty.isOpen = false) :
    ty.kind? = none ↔ ty.Overapplied := by
  obtain ⟨kind, found⟩ := exists_kind_root closed
  rw [kind?_eq_root, Overapplied, found, Option.bind_some]
  by_cases fits : ty.received ≤ kind.arity
  · simp [fits]
  · simp [fits, Nat.lt_of_not_le fits]

/-- A type applied to one list of arguments after another. -/
def spine (head : Ty) (lists : List (List Ty)) : Ty := lists.foldl app head

/-- A kind that is known has no arrows but those it takes its arguments by. -/
theorem kind?_eq_ofArity {ty : Ty} {kind : Kind} (known : ty.kind? = some kind) :
    kind = .ofArity kind.arity := by
  cases ty with
  | param name => cases known
  | ctor name arity =>
    cases known
    rw [Kind.arity_ofArity]
  | app head args =>
    obtain ⟨headKind, _, _, rfl⟩ := kind?_app_eq_some_iff.mp known
    rw [Kind.arity_ofArity]
  | prim | named | func | ptr | array | tuple =>
    cases known
    rfl

theorem bind_taking_zero (ty : Ty) : ty.kind?.bind (Kind.taking 0) = ty.kind? := by
  cases known : ty.kind? with
  | none => rfl
  | some kind => simp [Kind.taking, ← kind?_eq_ofArity known]

theorem kind?_spine (head : Ty) (lists : List (List Ty)) :
    (head.spine lists).kind? = head.kind?.bind (Kind.taking lists.flatten.length) := by
  induction lists generalizing head with
  | nil => exact (bind_taking_zero head).symm
  | cons first rest ih =>
    calc ((app head first).spine rest).kind?
      _ = (app head first).kind?.bind (Kind.taking rest.flatten.length) := ih _
      _ = head.kind?.bind (Kind.taking (first.length + rest.flatten.length)) := by
        rw [kind?_app, Kind.bind_taking]
      _ = head.kind?.bind (Kind.taking (first :: rest).flatten.length) := by
        rw [List.flatten_cons, List.length_append]

/-- For every type and every sequence of argument lists, some of which may be empty, the kind of the
type applied to the lists in turn is known exactly if that of the type is and takes as many
arguments as there are in all; it is then the kind of a constructor for those that are left. So
all the lists may as well be given at once, and only the number of the arguments matters. Every
kind that is known is that of a constructor. -/
theorem spine_kinds (head : Ty) :
    (∀ lists, (head.spine lists).kind? = head.kind?.bind fun kind =>
      if lists.flatten.length ≤ kind.arity then
        some (.ofArity (kind.arity - lists.flatten.length))
      else none) ∧
    (∀ lists, (head.spine lists).kind? = (app head lists.flatten).kind?) ∧
    (∀ lists others, lists.flatten.length = others.flatten.length →
      (head.spine lists).kind? = (head.spine others).kind?) ∧
    ∀ kind, head.kind? = some kind → kind = .ofArity kind.arity := by
  refine ⟨kind?_spine head, ?_, ?_, fun kind => kind?_eq_ofArity⟩
  · intro lists
    rw [kind?_spine, kind?_app]
  · intro lists others same
    rw [kind?_spine, kind?_spine, same]

/-- A constructor of three arguments that is given two of them, and one that is given four. -/
theorem triple_spines :
    ((ctor "Triple" 3).spine [[.prim .int], [], [.prim .bool]]).kind? = some (.ofArity 1) ∧
    ((ctor "Triple" 3).spine [[.prim .int], [], [.prim .bool]]).kind? =
      ((ctor "Triple" 3).spine [[.param "T", .param "U"]]).kind? ∧
    ((ctor "Triple" 3).spine [[.prim .int], [.prim .bool, .prim .int], [.prim .char], []]).kind? =
      none ∧
    Kind.ofArity 3 = .ofArity (Kind.ofArity 3).arity := by
  obtain ⟨inTurn, _, counted, known⟩ := spine_kinds (ctor "Triple" 3)
  exact ⟨(inTurn _).trans rfl, counted _ _ rfl, (inTurn _).trans rfl, known _ rfl⟩

end Spines

section Replacing

variable (σ : String → Option Ty)

/-- Joining takes up all arguments at once, so nothing is left of the kind of the head. -/
theorem kind?_subst_applyTo {head : Ty} {kind : Kind} (known : head.kind? = some kind)
    {args : List Ty} (fits : args.length ≤ kind.arity) :
    ((head.applyTo args).subst σ).kind? = some .star := by
  induction head using Ty.induction generalizing args kind with
  | ctor name arity => rw [applyTo, subst_named, kind?]
  | named name received _ => rw [applyTo, subst_named, kind?]
  | param name => cases known
  | app inner received ih _ =>
    obtain ⟨innerKind, innerKnown, before, rfl⟩ := kind?_app_eq_some_iff.mp known
    rw [Kind.arity_ofArity] at fits
    rw [applyTo]
    refine ih innerKnown ?_
    rw [List.length_append]
    omega
  | prim | func | ptr | array | tuple =>
    -- A head that is neither nominal nor an application takes no arguments, so there are none.
    cases known
    obtain rfl : args = [] := List.length_eq_zero_iff.mp (Nat.le_zero.mp fits)
    rw [subst_applyTo]
    simp [applyTo, kind?, Kind.arity, Kind.ofArity]

/-- A type of known kind is of kind `*` once something in it is replaced. -/
theorem kind?_subst {ty : Ty} {kind : Kind} (known : ty.kind? = some kind) :
    (ty.subst σ).kind? = some (if ty.touched σ then .star else kind) := by
  cases rebuilt : ty.touched σ with
  | false => rw [subst_of_untouched rebuilt, known, if_neg (by simp)]
  | true =>
    rw [if_pos rfl]
    cases ty with
    | param name => cases known
    | ctor name arity => cases rebuilt
    | app head args =>
      obtain ⟨headKind, headKnown, fits, _⟩ := kind?_app_eq_some_iff.mp known
      rw [subst_app_of_touched rebuilt, ← subst_applyTo]
      exact kind?_subst_applyTo σ headKnown fits
    | prim | named | func | ptr | array | tuple => simp [kind?]

end Replacing

end Ty

namespace Request

variable {policy : Policy} {parameter : Parameter} {argument : Ty} {expected found : Kind}

/-- A closed argument of known kind is judged by that kind. -/
theorem rejection_of_known (kindChecked : policy.kindChecked = true)
    (declared : parameter.kind = some expected) (closed : argument.isOpen = false)
    (known : argument.kind? = some found) :
    rejection policy parameter argument = none ↔ expected = found := by
  simp [rejection, kindChecked, declared, closed, known]

/-- Where open arguments are refused and kinds are checked, an argument is accepted exactly if it
is closed and has the kind that is declared, if one is, or else is given too many arguments. -/
theorem rejection_eq_none_iff (closedOnly : policy.closedOnly = true)
    (kindChecked : policy.kindChecked = true) :
    rejection policy parameter argument = none ↔
      argument.isOpen = false ∧ ∀ kind, parameter.kind = some kind →
        argument.kind? = some kind ∨ argument.Overapplied := by
  cases isOpen : argument.isOpen with
  | true => simp [rejection, closedOnly, isOpen]
  | false =>
    rw [← Ty.kind?_eq_none_iff isOpen]
    cases declared : parameter.kind with
    | none => simp [rejection, kindChecked, isOpen, declared]
    | some expected =>
      cases known : argument.kind? with
      | none => simp [rejection, kindChecked, isOpen, declared, known]
      | some found =>
        rw [rejection_of_known kindChecked declared isOpen known]
        simp [eq_comm]

end Request

namespace Substitution

/-- A known kind stays known whatever is replaced in the type. It is kept if nothing is replaced
or if it is `*`, and otherwise lost: what comes out is of kind `*`. So where kinds are checked, a
closed type that comes of one of known kind by replacing, as a default does, passes for that kind
if nothing was replaced in it, and for `*` if something was. -/
theorem known_kinds {ty : Ty} {kind : Kind} (known : ty.kind? = some kind) :
    (∀ σ : Substitution,
      (σ.apply ty).kind? = some (if (σ.applied? ty).isSome then .star else kind) ∧
      ((σ.apply ty).kind? = some kind ↔ σ.applied? ty = none ∨ kind = .star)) ∧
    ∀ names arguments policy parameter expected, policy.kindChecked = true →
      parameter.kind = some expected → (ty.subst (positional names arguments)).isOpen = false →
      (Request.rejection policy parameter (ty.subst (positional names arguments)) = none ↔
        expected = if (ty.subst? (positional names arguments)).isSome then .star else kind) := by
  have after (σ : String → Option Ty) :
      (ty.subst σ).kind? = some (if (ty.subst? σ).isSome then .star else kind) := by
    rw [Ty.kind?_subst σ known, Ty.isSome_subst?]
  refine ⟨?_, ?_⟩
  · intro σ
    refine ⟨after σ.get?, ?_⟩
    rw [apply, after σ.get?, applied?]
    cases ty.subst? σ.get? with
    | none => simp
    | some result => simp [eq_comm]
  · intro names arguments policy parameter expected kindChecked declared closed
    exact Request.rejection_of_known kindChecked declared closed (after _)

/-- A constructor of two arguments that has received one. -/
def mapFrom (key : Ty) : Ty := .app (.ctor "Map" 2) [key]

theorem mapFrom_kinds :
    (mapFrom (.param "T")).kind? = some (.ofArity 1) ∧
    ((ofParameters ["T"] [.prim .string]).apply (mapFrom (.param "T"))).kind? = some .star ∧
    ((ofParameters ["U"] [.prim .string]).apply (mapFrom (.param "T"))).kind? =
      some (.ofArity 1) ∧
    Request.rejection .standard ⟨"F", [], none, none, none, some .star⟩
      ((mapFrom (.param "T")).subst (positional ["T"] [.prim .string])) = none := by
  have known : (mapFrom (.param "T")).kind? = some (.ofArity 1) := rfl
  obtain ⟨mapped, placed⟩ := known_kinds known
  refine ⟨known, (mapped _).1.trans rfl, (mapped _).2.mpr (Or.inl rfl), ?_⟩
  exact (placed _ _ _ _ _ rfl rfl rfl).mpr rfl

/-- A generic over a type constructor that has a default in terms of an earlier parameter. -/
def wrap : SharedGeneric :=
  ⟨8, { Generic.bare "Wrap" with
    parameters := [⟨"T", [], none, none, none, none⟩,
      ⟨"F", [], some (mapFrom (.param "T")), none, none, some (.ofArity 1)⟩] }⟩

/-- The default has the declared kind, and so has what it means for the given argument if that is
written out; filled in from the default it is refused for its kind. -/
theorem default_loses_kind :
    (mapFrom (.param "T")).kind? = some (.ofArity 1) ∧
    ((ofParameters ["T"] [.prim .string]).apply (mapFrom (.param "T"))).kind? = some .star ∧
    ((InstanceTable.empty .standard).request ⟨[wrap]⟩ .lenient
      ⟨"Wrap", [.prim .string, mapFrom (.prim .string)], none, none⟩).1.answer = .ok 0 ∧
    ((InstanceTable.empty .standard).request ⟨[wrap]⟩ .lenient
      (Request.withDefaults ⟨[wrap]⟩ ⟨"Wrap", [.prim .string], none, none⟩)).1.answer =
      .error (.invalidArgument "Wrap" "F" (.named "Map" [.prim .string])
        (.kindMismatch (.ofArity 1) .star) none) :=
  ⟨rfl, rfl, rfl, rfl⟩

end Substitution

namespace InstanceTable

open Substitution (mapFrom)

variable {table : InstanceTable} {catalog : Catalog} {traits : TraitAuthority} {request : Request}

/-- A request that is answered was without a fault, and its arguments are those of the instance
that it leads to. -/
theorem entry_of_answer {id : Nat}
    (served : (table.request catalog traits request).1.answer = .ok id) :
    (request.check table.policy catalog traits).answer = none ∧
      ∃ entry, (table.request catalog traits request).2.get? id = some entry ∧
        entry.arguments = request.arguments := by
  rcases table.request_cases catalog traits request with
    ⟨fault, same⟩ | ⟨passed, ⟨place, known, same⟩ | ⟨absent, shallow, same⟩⟩
  · rw [same] at served
    cases served
  · rw [same] at served ⊢
    cases served
    obtain ⟨entry, found, arguments⟩ := (internedAt_iff.mpr known).1
    refine ⟨passed, entry, ?_, arguments⟩
    rw [get?, instances_linkParent]
    exact found
  · have new := get?_request_new passed absent shallow
    rw [same] at served
    cases served
    exact ⟨passed, _, new, rfl⟩

/-- The instance has an argument for each parameter of the generic. Where a parameter declares a
kind, its argument has that kind, or its kind is unknown because it is given too many arguments. -/
def KindedAt (table : InstanceTable) (generic : Generic) (id : Nat) : Prop :=
  ∃ entry, table.get? id = some entry ∧ entry.arguments.length = generic.arity ∧
    ∀ pair ∈ generic.parameters.zip entry.arguments, ∀ kind, pair.1.kind = some kind →
      pair.2.kind? = some kind ∨ pair.2.kind? = none ∧ pair.2.Overapplied

theorem kindedAt_of_answer (closedOnly : table.policy.closedOnly = true)
    (kindChecked : table.policy.kindChecked = true) {id : Nat}
    (served : (table.request catalog traits request).1.answer = .ok id) :
    ∃ generic, catalog.generic? request.generic = some generic ∧
      (table.request catalog traits request).2.KindedAt generic id := by
  obtain ⟨passed, entry, found, arguments⟩ := entry_of_answer served
  obtain ⟨shared, known, admits⟩ := (Request.answer_check_eq_none_iff catalog).mp passed
  rw [← arguments] at admits
  refine ⟨shared.generic, by rw [Catalog.generic?, known, Option.map_some], entry, found,
    admits.count, ?_⟩
  intro pair member kind declared
  obtain ⟨closed, kinded⟩ :=
    (Request.rejection_eq_none_iff closedOnly kindChecked).mp (admits.shapes pair member)
  rcases kinded kind declared with same | many
  · exact Or.inl same
  · exact Or.inr ⟨(Ty.kind?_eq_none_iff closed).mpr many, many⟩

/-- Where open arguments are refused and kinds are checked, every request that is answered leads
to an instance whose arguments have the kinds their parameters declare, except for those that
are given too many arguments and so have no kind. It makes no difference whether the request has
a parent and whether arguments of it are filled in from defaults. -/
theorem accepted_kinds (table : InstanceTable) (closedOnly : table.policy.closedOnly = true)
    (kindChecked : table.policy.kindChecked = true) (catalog : Catalog) (traits : TraitAuthority)
    (request : Request) (id : Nat) :
    ((table.request catalog traits request).1.answer = .ok id →
      ∃ generic, catalog.generic? request.generic = some generic ∧
        (table.request catalog traits request).2.KindedAt generic id) ∧
    ((table.request catalog traits (request.withDefaults catalog)).1.answer = .ok id →
      ∃ generic, catalog.generic? request.generic = some generic ∧
        (table.request catalog traits (request.withDefaults catalog)).2.KindedAt generic id) := by
  refine ⟨kindedAt_of_answer closedOnly kindChecked, ?_⟩
  intro served
  rw [← Request.generic_withDefaults catalog request]
  exact kindedAt_of_answer closedOnly kindChecked served

section Functors

/-- A generic over a type constructor, with a default that applies it. -/
def functor : SharedGeneric :=
  ⟨9, { Generic.bare "Functor" with
    parameters := [⟨"F", [], none, none, none, some (.ofArity 1)⟩,
      ⟨"T", [], some (.app (.param "F") [.prim .int]), none, none, some .star⟩] }⟩

theorem functor_kinds :
    ((empty .standard).request ⟨[functor]⟩ .lenient
      (Request.withDefaults ⟨[functor]⟩
        ⟨"Functor", [mapFrom (.prim .string)], none, none⟩)).1.answer = .ok 0 ∧
    ((empty .standard).request ⟨[functor]⟩ .lenient
      (Request.withDefaults ⟨[functor]⟩
        ⟨"Functor", [mapFrom (.prim .string)], none, none⟩)).2.KindedAt functor.generic 0 ∧
    (mapFrom (.prim .string)).kind? = some (.ofArity 1) := by
  have served : ((empty .standard).request ⟨[functor]⟩ .lenient
      (Request.withDefaults ⟨[functor]⟩
        ⟨"Functor", [mapFrom (.prim .string)], none, none⟩)).1.answer = .ok 0 := rfl
  have filled := accepted_kinds (empty .standard) rfl rfl ⟨[functor]⟩ .lenient
    ⟨"Functor", [mapFrom (.prim .string)], none, none⟩ 0
  obtain ⟨generic, known, kinded⟩ := filled.2 served
  cases known
  exact ⟨served, kinded, rfl⟩

/-- A constructor of one argument that is given two. -/
def crammedList : Ty := .app (.ctor "List" 1) [.prim .int, .prim .bool]

/-- It is accepted where a constructor is declared, though its kind is not that of one. -/
theorem crammedList_accepted :
    Policy.standard.closedOnly = true ∧ Policy.standard.kindChecked = true ∧
    ((empty .standard).request ⟨[functor]⟩ .lenient
      ⟨"Functor", [crammedList, .prim .int], none, none⟩).1.answer = .ok 0 ∧
    (((empty .standard).request ⟨[functor]⟩ .lenient
      ⟨"Functor", [crammedList, .prim .int], none, none⟩).2.get? 0).map Instance.arguments =
      some [crammedList, .prim .int] ∧
    (functor.generic.parameters.map Parameter.kind)[0]? = some (some (.ofArity 1)) ∧
    crammedList.kind? ≠ some (.ofArity 1) :=
  ⟨rfl, rfl, rfl, rfl, rfl, by decide⟩

end Functors

end InstanceTable

end Monomorph
