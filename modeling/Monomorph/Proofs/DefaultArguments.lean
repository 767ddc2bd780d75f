import Monomorph.Proofs.ClosedArtifacts
import Monomorph.Proofs.PlainReplacement

/-!
Requests that leave out arguments. The arguments are filled in one after another, and a default is
read with those before it in place, filled in or given. The completed list can be described without
this order: it starts with the given arguments, and behind them every argument is the default of
its place over the list itself, up to the first place that has no default. One list only is like
that, and it does not matter how many of its arguments were given.
-/

namespace Monomorph

/-- Arguments behind those that the names stand for make no difference. -/
theorem positional_append {names : List String} {arguments : List Ty}
    (enough : names.length ≤ arguments.length) (more : List Ty) :
    positional names (arguments ++ more) = positional names arguments := by
  funext name
  unfold positional
  cases found : names.idxOf? name with
  | none => rfl
  | some place =>
    obtain ⟨inside, _⟩ := List.idxOf?_eq_some_iff.mp found
    exact List.getElem?_append_left (Nat.lt_of_lt_of_le inside enough)

namespace Generic

variable {generic : Generic} {given full : List Ty}

/-- The default of the parameter at a place, if there is a parameter and it has one. -/
def default? (generic : Generic) (place : Nat) : Option Ty :=
  generic.parameters[place]?.bind Parameter.default

/-- The names of the parameters before a place stand for the arguments at their places, and no
other name stands for anything. A name that several parameters have is that of the first. -/
def Earlier (generic : Generic) (arguments : List Ty) (place : Nat) (σ : String → Option Ty) :
    Prop :=
  Assigns (generic.parameterNames.take place) arguments σ

/-- The list starts with the given arguments and goes on with the defaults of the parameters, up
to the first one without a default. In each default the parameters before its own are replaced by
the arguments in the list. -/
structure Completes (generic : Generic) (given full : List Ty) : Prop where
  starts : given <+: full
  filled : ∀ place, given.length ≤ place → place < full.length →
    ∃ default σ, generic.default? place = some default ∧ generic.Earlier full place σ ∧
      full[place]? = some (default.plain σ)
  ends : generic.default? full.length = none

/-- No default mentions its own parameter, a later one or a name that is not a parameter. -/
def LooksBack (generic : Generic) : Prop :=
  ∀ place default, generic.default? place = some default →
    ∀ name ∈ default.paramNames, name ∈ generic.parameterNames.take place

/-- What a default becomes is up to the arguments before its place. -/
theorem Earlier.plain_eq {place : Nat} {σ : String → Option Ty}
    (earlier : generic.Earlier full place σ) (starts : given <+: full)
    (enough : place ≤ given.length) (default : Ty) :
    default.plain σ =
      default.subst (positional (generic.parameterNames.take place) given) := by
  obtain ⟨more, rfl⟩ := starts
  rw [← Ty.subst_eq_plain, assigns_iff.mp earlier,
    positional_append (Nat.le_trans (List.length_take_le _ _) enough)]

section Filling

/-- The arguments with those filled in that have a default. -/
def completed (generic : Generic) (given : List Ty) : List Ty :=
  Request.fillDefaults generic.parameterNames (generic.parameters.drop given.length) given

/-- The default of the next argument, over the arguments so far. -/
def filling (generic : Generic) (given : List Ty) (default : Ty) : Ty :=
  default.subst (positional (generic.parameterNames.take given.length) given)

theorem completed_stop (last : generic.default? given.length = none) :
    generic.completed given = given := by
  rw [completed]
  cases rest : generic.parameters.drop given.length with
  | nil => rfl
  | cons parameter rest' =>
    have here : generic.parameters[given.length]? = some parameter := by
      rw [← List.head?_drop, rest, List.head?_cons]
    rw [default?, here, Option.bind_some] at last
    rw [Request.fillDefaults, last]

theorem completed_step {default : Ty} (next : generic.default? given.length = some default) :
    generic.completed given = generic.completed (given ++ [generic.filling given default]) := by
  obtain ⟨parameter, here, declared⟩ := Option.bind_eq_some_iff.mp next
  obtain ⟨inside, same⟩ := List.getElem?_eq_some_iff.mp here
  rw [completed, List.drop_eq_getElem_cons inside, same, Request.fillDefaults, declared, completed,
    List.length_append, List.length_singleton]
  rfl

theorem completes_stop (last : generic.default? given.length = none) :
    generic.Completes given full ↔ full = given := by
  constructor
  · intro completes
    obtain ⟨more, rfl⟩ := completes.starts
    cases more with
    | nil => exact List.append_nil given
    | cons next more =>
      obtain ⟨default, _, declared, _⟩ := completes.filled given.length (Nat.le_refl _) (by simp)
      rw [last] at declared
      cases declared
  · rintro rfl
    exact ⟨List.prefix_refl full, fun _ low high => absurd high (Nat.not_lt.mpr low), last⟩

/-- Arguments that would be filled in may be given as well. -/
theorem Completes.extend (completes : generic.Completes given full) {longer : List Ty}
    (more : given <+: longer) (starts : longer <+: full) : generic.Completes longer full where
  starts := starts
  filled := fun place low => completes.filled place (Nat.le_trans more.length_le low)
  ends := completes.ends

/-- A complete list has the filled-in argument behind the given ones. -/
theorem Completes.next (completes : generic.Completes given full) {default : Ty}
    (next : generic.default? given.length = some default) :
    given ++ [generic.filling given default] <+: full := by
  obtain ⟨more, rfl⟩ := completes.starts
  cases more with
  | nil =>
    have last := completes.ends
    rw [List.append_nil, next] at last
    cases last
  | cons argument more =>
    obtain ⟨default', σ, declared, earlier, here⟩ :=
      completes.filled given.length (Nat.le_refl _) (by simp)
    rw [next] at declared
    cases declared
    rw [earlier.plain_eq completes.starts (Nat.le_refl _)] at here
    have filled : argument = generic.filling given default := by simpa [filling] using here
    refine ⟨more, ?_⟩
    rw [filled, List.append_assoc, List.singleton_append]

/-- The next argument may be filled in before the others. -/
theorem completes_step {default : Ty} (next : generic.default? given.length = some default) :
    generic.Completes given full ↔
      generic.Completes (given ++ [generic.filling given default]) full := by
  constructor
  · intro completes
    exact completes.extend (List.prefix_append _ _) (completes.next next)
  · intro completes
    have starts : given <+: full := (List.prefix_append _ _).trans completes.starts
    refine ⟨starts, ?_, completes.ends⟩
    intro place low high
    rcases Nat.eq_or_lt_of_le low with rfl | above
    · have earlier : generic.Earlier full given.length
          (positional (generic.parameterNames.take given.length) full) :=
        assigns_iff.mpr rfl
      refine ⟨default, _, next, earlier, ?_⟩
      rw [earlier.plain_eq starts (Nat.le_refl _)]
      obtain ⟨more, rfl⟩ := completes.starts
      simp [filling]
    · refine completes.filled place ?_ high
      rw [List.length_append, List.length_singleton]
      exact above

/-- Filling in the arguments one after another gives the one list that is complete. -/
theorem completes_iff {given full : List Ty} :
    generic.Completes given full ↔ full = generic.completed given := by
  cases next : generic.default? given.length with
  | none => rw [completes_stop next, completed_stop next]
  | some default =>
    -- Beyond the parameters there are no defaults, so the places that are left get fewer.
    have inside : given.length < generic.arity := by
      obtain ⟨parameter, here, _⟩ := Option.bind_eq_some_iff.mp next
      exact (List.getElem?_eq_some_iff.mp here).1
    rw [completes_step next, completed_step next]
    exact completes_iff
termination_by generic.arity - given.length
decreasing_by
  rw [List.length_append, List.length_singleton]
  omega

end Filling

section Closing

/-- If the defaults look back, what is filled in over closed arguments is closed too. -/
theorem Completes.closed (completes : generic.Completes given full)
    (closed : ∀ argument ∈ given, argument.references = []) (looksBack : generic.LooksBack) :
    ∀ argument ∈ full, argument.references = [] := by
  -- The argument at a place is closed because those before it are.
  have upTo (count : Nat) (within : count ≤ full.length) :
      ∀ argument ∈ full.take count, argument.references = [] := by
    induction count with
    | zero => simp
    | succ place ih =>
      have before := ih (Nat.le_of_lt within)
      rw [List.take_succ_eq_append_getElem within, List.forall_mem_append,
        List.forall_mem_singleton]
      refine ⟨before, ?_⟩
      rcases Nat.lt_or_ge place given.length with early | late
      · have same : given[place] = full[place] := completes.starts.getElem early
        exact closed _ (same ▸ List.getElem_mem early)
      · obtain ⟨default, σ, declared, earlier, here⟩ := completes.filled place late within
        have count : (full.take place).length = place :=
          List.length_take_of_le (Nat.le_of_lt within)
        rw [earlier.plain_eq (List.take_prefix place full) (Nat.le_of_eq count.symm)] at here
        obtain ⟨_, filled⟩ := List.getElem?_eq_some_iff.mp here
        rw [filled]
        refine references_positional ?_ before fun name mention => ?_
        · rw [count]
          exact List.length_take_le _ _
        · exact looksBack place default declared name (Ty.mem_paramNames.mpr mention)
  simpa using upTo full.length (Nat.le_refl _)

end Closing

end Generic

namespace CompilationUnit

theorem requestWithDefaults_eq (unit : CompilationUnit) (request : Request) {generic : Generic}
    (known : unit.catalog.generic? request.generic = some generic) :
    unit.requestWithDefaults request =
      unit.request { request with arguments := generic.completed request.arguments } := by
  rw [requestWithDefaults, Request.withDefaults, known]
  rfl

/-- For every registered declaration and every list of arguments there is one list that completes
them, and a request that may leave out arguments has the outcome of the request with this list, in
what it answers and asks and in the unit it leaves. It has the same outcome if more of the list is
given. If the given arguments are closed and each default mentions earlier parameters only, all of
the list is closed. -/
theorem defaults_completed (unit : CompilationUnit) (request : Request) {generic : Generic}
    (known : unit.catalog.generic? request.generic = some generic) :
    ∃ full, (∀ list, generic.Completes request.arguments list ↔ list = full) ∧
      unit.requestWithDefaults request = unit.request { request with arguments := full } ∧
      (∀ count, request.arguments.length ≤ count → count ≤ full.length →
        unit.requestWithDefaults { request with arguments := full.take count } =
          unit.requestWithDefaults request) ∧
      ((∀ argument ∈ request.arguments, argument.references = []) → generic.LooksBack →
        ∀ argument ∈ full, argument.references = []) := by
  have completes := Generic.completes_iff.mpr (Eq.refl (generic.completed request.arguments))
  refine ⟨_, fun list => Generic.completes_iff, unit.requestWithDefaults_eq request known, ?_,
    completes.closed⟩
  intro count low _
  have given : request.arguments <+: (generic.completed request.arguments).take count :=
    List.prefix_take_iff.mpr ⟨completes.starts, low⟩
  have same := Generic.completes_iff.mp (completes.extend given (List.take_prefix _ _))
  have shorter := unit.requestWithDefaults_eq
    { request with arguments := (generic.completed request.arguments).take count } known
  rw [shorter, ← same, unit.requestWithDefaults_eq request known]

section Dictionaries

/-- A generic whose defaults mention the parameters before them, also those with a default. -/
def dictionary : SharedGeneric :=
  ⟨10, { Generic.bare "Dictionary" with
    parameters := [⟨"K", [], none, none, none, none⟩,
      ⟨"V", [], some (.app (.ctor "List" 1) [.param "K"]), none, none, none⟩,
      ⟨"S", [], some (.named "Map" [.param "K", .param "V"]), none, none, none⟩] }⟩

def dictionaries : CompilationUnit :=
  (empty .lenient .standard).afterAll [.register dictionary]

def dictionaryOf (arguments : List Ty) : Request := ⟨"Dictionary", arguments, none, none⟩

def ints : Ty := .named "List" [.prim .int]

def intIndex : List Ty := [.prim .int, ints, .named "Map" [.prim .int, ints]]

theorem looksBack_dictionary : dictionary.generic.LooksBack := by
  intro place default declared
  match place with
  | 0 => cases declared
  | 1 | 2 =>
    cases declared
    decide
  | _ + 3 => cases declared

theorem completes_dictionary : dictionary.generic.Completes [.prim .int] intIndex where
  starts := by decide
  filled := by
    intro place low high
    have inside : place < 3 := high
    match place with
    | 0 => cases low
    | 1 | 2 => exact ⟨_, _, rfl, assigns_iff.mpr rfl, by decide⟩
    | _ + 3 => omega
  ends := rfl

theorem dictionaries_completed :
    dictionaries.catalog.generic? "Dictionary" = some dictionary.generic ∧
    dictionaries.requestWithDefaults (dictionaryOf [.prim .int]) =
      dictionaries.request (dictionaryOf intIndex) ∧
    (dictionaries.request (dictionaryOf intIndex)).1.answer = .ok 0 ∧
    dictionaries.requestWithDefaults (dictionaryOf [.prim .int, ints]) =
      dictionaries.requestWithDefaults (dictionaryOf [.prim .int]) ∧
    dictionary.generic.LooksBack ∧ ∀ argument ∈ intIndex, argument.references = [] := by
  have known : dictionaries.catalog.generic? "Dictionary" = some dictionary.generic := rfl
  obtain ⟨full, complete, same, shorter, closed⟩ :=
    defaults_completed dictionaries (dictionaryOf [.prim .int]) known
  obtain rfl := (complete intIndex).mp completes_dictionary
  exact ⟨known, same, rfl, shorter 2 (by decide) (by decide), looksBack_dictionary,
    closed (by decide) looksBack_dictionary⟩

end Dictionaries

end CompilationUnit

end Monomorph
