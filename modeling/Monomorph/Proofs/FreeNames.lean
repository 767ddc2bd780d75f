import Monomorph.Proofs.Replacement
import Monomorph.Substitution

/-!
The parameter names of a type after a replacement. The names of a type are collected on the way
through it, and what is collected at any time are the first mentions among the references passed.
The references of the new type are those of what took the places of the old ones, from left to
right. To keep the first mention of each name one may start with the names instead of the
references, on the inside and on the outside: what a second mention of a name brings in was brought
in by the first.
-/

namespace Monomorph

section Mentions

/-- The list without the later mentions of a value it already holds. -/
def firstMentions : List String → List String
  | [] => []
  | name :: rest => name :: (firstMentions rest).filter (· != name)

theorem mem_firstMentions {name : String} {list : List String} :
    name ∈ firstMentions list ↔ name ∈ list := by
  induction list with
  | nil => rfl
  | cons first rest ih =>
    by_cases same : name = first
    · simp [firstMentions, same]
    · simp [firstMentions, same, ih]

/-- Names may be left out before or after the later mentions are. -/
theorem firstMentions_filter (keep : String → Bool) (list : List String) :
    firstMentions (list.filter keep) = (firstMentions list).filter keep := by
  induction list with
  | nil => rfl
  | cons name rest ih =>
    cases kept : keep name with
    | true =>
      rw [List.filter_cons_of_pos kept, firstMentions, firstMentions, List.filter_cons_of_pos kept,
        ih, List.filter_comm]
    | false =>
      have redundant : ((firstMentions rest).filter (· != name)).filter keep =
          (firstMentions rest).filter keep := by
        rw [List.filter_filter]
        refine List.filter_congr fun other _ => ?_
        by_cases same : other = name
        · simp [same, kept]
        · simp [same]
      rw [List.filter_cons_of_neg (by simp [kept]), firstMentions,
        List.filter_cons_of_neg (by simp [kept]), redundant, ih]

theorem firstMentions_append (first second : List String) :
    firstMentions (first ++ second) =
      firstMentions first ++ (firstMentions second).filter fun name => !first.contains name := by
  induction first with
  | nil => simp [firstMentions]
  | cons name rest ih =>
    rw [List.cons_append, firstMentions, firstMentions, ih, List.filter_append, List.filter_filter,
      List.cons_append]
    congr 2
    refine List.filter_congr fun other _ => ?_
    rw [List.contains_cons, Bool.not_or]
    rfl

theorem firstMentions_firstMentions (list : List String) :
    firstMentions (firstMentions list) = firstMentions list := by
  induction list with
  | nil => rfl
  | cons name rest ih =>
    rw [firstMentions, firstMentions, firstMentions_filter, ih, List.filter_filter]
    simp only [Bool.and_self]

/-- A name that brings in nothing may be left out. -/
theorem flatMap_filter_ne {name : String} {part : String → List String} (nothing : part name = [])
    (list : List String) : (list.filter (· != name)).flatMap part = list.flatMap part := by
  induction list with
  | nil => rfl
  | cons other rest ih =>
    by_cases same : other = name
    · rw [List.filter_cons_of_neg (by simp [same]), List.flatMap_cons, same, nothing, ih,
        List.nil_append]
    · rw [List.filter_cons_of_pos (by simp [same]), List.flatMap_cons, List.flatMap_cons, ih]

/-- It is enough to put the first mentions of something in the place of the first mention of
each name. -/
theorem firstMentions_flatMap (part : String → List String) (list : List String) :
    firstMentions (list.flatMap part) =
      firstMentions ((firstMentions list).flatMap fun name => firstMentions (part name)) := by
  induction list with
  | nil => rfl
  | cons name rest ih =>
    -- Behind the first mention of the name a later one brings in nothing.
    have brought : ((firstMentions (part name)).filter fun other =>
        !(part name).contains other) = [] := by
      rw [List.filter_eq_nil_iff]
      intro other member
      simpa using mem_firstMentions.mp member
    have again : (firstMentions (part name)).contains = (part name).contains := by
      funext other
      simp [mem_firstMentions]
    rw [List.flatMap_cons, firstMentions_append, firstMentions, List.flatMap_cons,
      firstMentions_append, firstMentions_firstMentions, again, ih, ← firstMentions_filter,
      ← firstMentions_filter, List.filter_flatMap, List.filter_flatMap,
      flatMap_filter_ne brought]

theorem firstMentions_eq_eraseDups (list : List String) : firstMentions list = list.eraseDups := by
  match list with
  | [] => rfl
  | name :: rest =>
    rw [firstMentions, List.eraseDups_cons, ← firstMentions_filter, firstMentions_eq_eraseDups]
    rfl
termination_by list.length
decreasing_by exact Nat.lt_succ_of_le (List.length_filter_le _ _)

end Mentions

namespace Ty

section Collecting

theorem firstMentions_concat (seen : List String) (name : String) :
    firstMentions (seen ++ [name]) =
      if name ∈ firstMentions seen then firstMentions seen else firstMentions seen ++ [name] := by
  rw [firstMentions_append]
  by_cases known : name ∈ seen
  · simp [firstMentions, mem_firstMentions, known]
  · simp [firstMentions, mem_firstMentions, known]

theorem collectNamesAll_firstMentions {list : List Ty}
    (members : ∀ ty ∈ list, ∀ seen,
      ty.collectNames (firstMentions seen) = firstMentions (seen ++ ty.references))
    (seen : List String) :
    collectNamesAll list (firstMentions seen) = firstMentions (seen ++ referencesAll list) := by
  induction list generalizing seen with
  | nil => rw [collectNamesAll, referencesAll, List.append_nil]
  | cons ty rest ih =>
    rw [collectNamesAll, members ty List.mem_cons_self,
      ih fun other member => members other (List.mem_cons_of_mem _ member), referencesAll,
      List.append_assoc]

/-- Behind a type the first mentions of its references are collected too. -/
theorem collectNames_firstMentions (ty : Ty) (seen : List String) :
    ty.collectNames (firstMentions seen) = firstMentions (seen ++ ty.references) := by
  induction ty using Ty.induction generalizing seen with
  | prim | ctor => rw [collectNames, references, List.append_nil]
  | param name => rw [collectNames, references, firstMentions_concat]
  | named name args parts =>
    rw [collectNames, references, collectNamesAll_firstMentions parts]
  | app head args first parts =>
    rw [collectNames, references, first, collectNamesAll_firstMentions parts, List.append_assoc]
  | func params result parts last =>
    rw [collectNames, references, collectNamesAll_firstMentions parts, last, List.append_assoc]
  | ptr mutable target part => rw [collectNames, references, part]
  | array element length part => rw [collectNames, references, part]
  | tuple elements parts =>
    rw [collectNames, references, collectNamesAll_firstMentions parts]

theorem paramNames_eq (ty : Ty) : ty.paramNames = firstMentions ty.references :=
  ty.collectNames_firstMentions []

end Collecting

theorem mem_paramNames {ty : Ty} {name : String} : name ∈ ty.paramNames ↔ name ∈ ty.references := by
  rw [paramNames_eq, mem_firstMentions]

theorem paramNames_eq_nil_iff {ty : Ty} : ty.paramNames = [] ↔ ty.references = [] := by
  simp only [List.eq_nil_iff_forall_not_mem, mem_paramNames]

/-- The names that stand in the place of a name after the replacing: those of what it is mapped
to, or the name itself. -/
def namesFor (σ : String → Option Ty) (name : String) : List String :=
  match σ name with
  | some replacement => replacement.paramNames
  | none => [name]

theorem firstMentions_referencesFor (σ : String → Option Ty) (name : String) :
    firstMentions (referencesFor σ name) = namesFor σ name := by
  rw [referencesFor, subst_param, namesFor]
  cases σ name with
  | some replacement => exact (paramNames_eq replacement).symm
  | none => rfl

theorem paramNames_subst (σ : String → Option Ty) (ty : Ty) :
    (ty.subst σ).paramNames = (ty.paramNames.flatMap (namesFor σ)).eraseDups := by
  calc (ty.subst σ).paramNames
    _ = firstMentions (ty.references.flatMap (referencesFor σ)) := by
      rw [paramNames_eq, references_subst]
    _ = firstMentions (ty.paramNames.flatMap fun name => firstMentions (referencesFor σ name)) := by
      rw [paramNames_eq, firstMentions_flatMap]
    _ = (ty.paramNames.flatMap (namesFor σ)).eraseDups := by
      simp only [firstMentions_referencesFor]
      exact firstMentions_eq_eraseDups _

theorem isOpen_iff {ty : Ty} : ty.isOpen = true ↔ ty.paramNames ≠ [] := by
  rw [isOpen_eq_true_iff, ne_eq, ne_eq, paramNames_eq_nil_iff]

end Ty

/-- For every substitution and every type, the parameter names of the type it makes are those of
the type in their order, each with the names of its replacement in its place if it is mapped,
and of a name that comes several times only the first is kept. A type is open exactly if it has
such names. -/
theorem Substitution.paramNames_apply (σ : Substitution) (ty : Ty) :
    (σ.apply ty).paramNames = (ty.paramNames.flatMap (Ty.namesFor σ.get?)).eraseDups ∧
    (ty.isOpen = true ↔ ty.paramNames ≠ []) :=
  ⟨ty.paramNames_subst σ.get?, Ty.isOpen_iff⟩

-- The head brings its own arguments in front of the others, and `U` comes twice.
example : ((Substitution.ofParameters ["F", "T"]
      [.app (.param "G") [.param "U", .param "T"], .tuple [.param "V", .param "U"]]).apply
    (.app (.param "F") [.param "W", .param "T"])).paramNames = ["G", "U", "T", "W", "V"] := by
  decide

end Monomorph
