import Monomorph.Proofs.Replacement
import Monomorph.Substitution

/-!
Composition of substitutions. One step with the composition gives what two steps give one after
the other. The two ways join an application with its head at different times: one step joins it
when anything in it is replaced, two steps join it at the first step that replaces something in
it and then go on with the joined type. The results agree because joining commutes with
replacing.

So composition is associative, also in the order of the entries: either way the names of the first
substitution come first, then those the second adds, then those the third adds.
-/

namespace Monomorph

namespace Ty

/-- What two steps make of a name, as one step. -/
def inTurn (σ τ : String → Option Ty) (name : String) : Option Ty :=
  ((σ name).map (subst τ)).or (τ name)

variable (σ τ : String → Option Ty)

/-- One step rebuilds a type exactly if the first step does or the second does after it. -/
theorem touched_inTurn (ty : Ty) :
    ty.touched (inTurn σ τ) = (ty.touched σ || (ty.subst σ).touched τ) := by
  have name (name : String) : (inTurn σ τ name).isSome =
      ((σ name).isSome || (referencesFor σ name).any fun inner => (τ inner).isSome) := by
    cases mapped : σ name with
    | some replacement => simp [inTurn, mapped]
    | none => simp [inTurn, mapped, referencesFor, subst_param, references]
  rw [Bool.eq_iff_iff, Bool.or_eq_true]
  simp only [touched, references_subst, List.any_flatMap, List.any_eq_true, name, Bool.or_eq_true,
    and_or_left, exists_or]

theorem subst_inTurn (ty : Ty) : ty.subst (inTurn σ τ) = (ty.subst σ).subst τ := by
  have all {list : List Ty}
      (members : ∀ ty ∈ list, ty.subst (inTurn σ τ) = (ty.subst σ).subst τ) :
      list.map (subst (inTurn σ τ)) = (list.map (subst σ)).map (subst τ) := by
    rw [List.map_map]
    exact List.map_congr_left members
  induction ty using Ty.induction with
  | prim | ctor => rfl
  | param name =>
    rw [subst_param, subst_param, inTurn]
    cases σ name with
    | some replacement => rfl
    | none => rfl
  | named name args parts => rw [subst_named, subst_named, subst_named, all parts]
  | app head args first parts =>
    have either := touched_inTurn σ τ (app head args)
    cases rebuilt : (app head args).touched σ with
    | true =>
      rw [rebuilt, Bool.true_or] at either
      rw [subst_app_of_touched either, subst_app_of_touched rebuilt, subst_applyTo, first,
        all parts]
    | false =>
      -- The first step leaves the application as it is, so all is up to the second one.
      obtain ⟨sameHead, sameArgs⟩ := parts_of_untouched rebuilt
      rw [rebuilt, Bool.false_or, subst_of_untouched rebuilt] at either
      rw [subst_of_untouched rebuilt]
      cases later : (app head args).touched τ with
      | true =>
        rw [subst_app_of_touched (either.trans later), subst_app_of_touched later, first,
          all parts, sameHead, sameArgs]
      | false => rw [subst_of_untouched (either.trans later), subst_of_untouched later]
  | func params result parts last => rw [subst_func, subst_func, subst_func, all parts, last]
  | ptr mutable target part => rw [subst_ptr, subst_ptr, subst_ptr, part]
  | array element length part => rw [subst_array, subst_array, subst_array, part]
  | tuple elements parts => rw [subst_tuple, subst_tuple, subst_tuple, all parts]

end Ty

namespace Substitution

section Laws

variable (σ τ : Substitution)

/-- Entries with a substitution applied to their types. -/
def mapped (entries : List (String × Ty)) : List (String × Ty) :=
  entries.map fun entry => (entry.1, σ.apply entry.2)

/-- The entries under names that a substitution leaves alone. -/
def outside (entries : List (String × Ty)) : List (String × Ty) :=
  entries.filter fun entry => !σ.contains entry.1

theorem contains_addEntry (entry : String × Ty) (name : String) :
    (σ.addEntry entry).contains name = (σ.contains name || decide (entry.1 = name)) := by
  rw [addEntry]
  split
  next there =>
    by_cases same : entry.1 = name
    · simp [← same, there]
    · simp [same]
  next =>
    rw [OrderedMap.contains, OrderedMap.get?_insert]
    by_cases same : entry.1 = name
    · simp [same]
    · simp [same, OrderedMap.contains]

/-- Of entries under distinct names those are added whose names are not set. -/
theorem entries_foldl_addEntry {entries : List (String × Ty)}
    (distinct : (entries.map Prod.fst).Nodup) :
    (entries.foldl addEntry σ).entries = σ.entries ++ σ.outside entries := by
  induction entries generalizing σ with
  | nil => exact (List.append_nil _).symm
  | cons entry rest ih =>
    rw [List.map_cons, List.nodup_cons] at distinct
    -- The names behind the entry are other ones, so it makes no difference to them.
    have others : (σ.addEntry entry).outside rest = σ.outside rest := by
      refine List.filter_congr fun other member => ?_
      have apart : entry.1 ≠ other.1 := fun same =>
        distinct.1 (same ▸ List.mem_map_of_mem member)
      rw [contains_addEntry, decide_eq_false apart, Bool.or_false]
    rw [List.foldl_cons, ih _ distinct.2, others, outside, outside]
    cases there : σ.contains entry.1 with
    | true => rw [addEntry, if_pos there, List.filter_cons_of_neg (by simp [there])]
    | false =>
      have absent : entry.1 ∉ σ.keys := fun member =>
        Bool.eq_false_iff.mp there ((σ.contains_iff entry.1).mpr member)
      have added : (σ.insert entry.1 entry.2).entries = σ.entries ++ [entry] :=
        setEntry_of_absent _ absent
      rw [addEntry, if_neg (by simp [there]), added, List.filter_cons_of_pos (by simp [there]),
        List.append_assoc, List.singleton_append]

theorem outside_congr {σ τ : Substitution} (same : σ.keys = τ.keys)
    (entries : List (String × Ty)) : σ.outside entries = τ.outside entries := by
  refine List.filter_congr fun entry _ => congrArg (!·) ?_
  rw [Bool.eq_iff_iff, OrderedMap.contains_iff, OrderedMap.contains_iff, same]

/-- The two loops of a composition put the mapped entries first and behind them those that are
left of the other substitution. -/
theorem entries_compose : (σ.compose τ).entries = τ.mapped σ.entries ++ σ.outside τ.entries := by
  have first : (σ.entries.foldl (fun result entry => result.insert entry.1 (apply τ entry.2))
      (∅ : Substitution)).entries = τ.mapped σ.entries :=
    OrderedMap.entries_foldl_insert τ.apply ∅ σ.nodup_keys fun _ _ => List.not_mem_nil
  have names : (σ.entries.foldl (fun result entry => result.insert entry.1 (apply τ entry.2))
      (∅ : Substitution)).keys = σ.keys := by
    rw [OrderedMap.keys, first, mapped, List.map_map]
    rfl
  rw [compose, entries_foldl_addEntry _ τ.nodup_keys, first, outside_congr names]

theorem get?_compose : (σ.compose τ).get? = Ty.inTurn σ.get? τ.get? := by
  funext name
  rw [OrderedMap.get?, entries_compose, entryAt_append, mapped, entryAt_map, outside,
    entryAt_filter fun name => !σ.contains name, Ty.inTurn]
  change Option.or ((σ.get? name).map _) _ = _
  cases mapped : σ.get? name with
  | some ty => rfl
  | none =>
    rw [OrderedMap.contains, mapped]
    rfl

theorem apply_compose (ty : Ty) : (σ.compose τ).apply ty = τ.apply (σ.apply ty) := by
  rw [apply, get?_compose, Ty.subst_inTurn]
  rfl

/-- For every two substitutions and every type, applying their composition gives the type that
applying the first and then the second gives, and the type counts as rebuilt exactly if one of
the two rebuilds it. -/
theorem compose_sequential (σ τ : Substitution) (ty : Ty) :
    (σ.compose τ).apply ty = τ.apply (σ.apply ty) ∧
    (((σ.compose τ).applied? ty).isSome = true ↔
      (σ.applied? ty).isSome = true ∨ (τ.applied? (σ.apply ty)).isSome = true) := by
  refine ⟨apply_compose σ τ ty, ?_⟩
  rw [applied?, applied?, applied?, Ty.isSome_subst?, Ty.isSome_subst?, Ty.isSome_subst?,
    get?_compose, Ty.touched_inTurn, Bool.or_eq_true]
  rfl

theorem mapped_append (first second : List (String × Ty)) :
    σ.mapped (first ++ second) = σ.mapped first ++ σ.mapped second :=
  List.map_append

theorem outside_append (first second : List (String × Ty)) :
    σ.outside (first ++ second) = σ.outside first ++ σ.outside second :=
  List.filter_append _ _

theorem contains_compose (name : String) :
    (σ.compose τ).contains name = (σ.contains name || τ.contains name) := by
  simp only [OrderedMap.contains, get?_compose, Ty.inTurn, Option.isSome_or, Option.isSome_map]

theorem mapped_compose (entries : List (String × Ty)) :
    (σ.compose τ).mapped entries = τ.mapped (σ.mapped entries) := by
  simp only [mapped, List.map_map, Function.comp_def, apply_compose]

theorem outside_compose (entries : List (String × Ty)) :
    (σ.compose τ).outside entries = σ.outside (τ.outside entries) := by
  simp only [outside, List.filter_filter, contains_compose, Bool.not_or]

/-- Names stay as they are where a substitution is applied to the types. -/
theorem outside_mapped (entries : List (String × Ty)) :
    σ.outside (τ.mapped entries) = τ.mapped (σ.outside entries) :=
  List.filter_map

theorem mapped_empty (entries : List (String × Ty)) :
    (∅ : Substitution).mapped entries = entries := by
  have unchanged (ty : Ty) : (∅ : Substitution).apply ty = ty := by
    apply Ty.subst_of_untouched
    simp [Ty.touched]
  simp only [mapped, unchanged, Prod.eta, List.map_id']

theorem outside_empty (entries : List (String × Ty)) :
    (∅ : Substitution).outside entries = entries := by
  simp [outside, OrderedMap.contains]

/-- Composing three substitutions one way or the other gives the same entries in the same order.
Composing a substitution with the empty one, on either side, gives back its entries in their
order. -/
theorem composition_monoid (σ τ υ : Substitution) :
    ((σ.compose τ).compose υ).entries = (σ.compose (τ.compose υ)).entries ∧
    (σ.compose ∅).entries = σ.entries ∧ ((∅ : Substitution).compose σ).entries = σ.entries := by
  refine ⟨?_, ?_, ?_⟩
  · calc ((σ.compose τ).compose υ).entries
      _ = υ.mapped (τ.mapped σ.entries) ++ υ.mapped (σ.outside τ.entries) ++
            (σ.compose τ).outside υ.entries := by
        rw [entries_compose, entries_compose, mapped_append]
      -- Mapping the types keeps the names, so names may be left out before it or after it.
      _ = (τ.compose υ).mapped σ.entries ++ σ.outside (υ.mapped τ.entries) ++
            σ.outside (τ.outside υ.entries) := by
        rw [mapped_compose, outside_compose, outside_mapped]
      _ = (σ.compose (τ.compose υ)).entries := by
        rw [entries_compose, entries_compose, outside_append, List.append_assoc]
  · rw [entries_compose, mapped_empty]
    exact List.append_nil _
  · rw [entries_compose, outside_empty]
    rfl

-- `T` and `U` are mapped twice: the earlier substitution gives them their types and places.
example :
    let first := ofParameters ["T"] [.named "List" [.param "U"]]
    let second := ofParameters ["U", "T"] [.param "V", .prim .int]
    let third := ofParameters ["V", "U"] [.prim .bool, .prim .char]
    ((first.compose second).compose third).entries =
      [("T", .named "List" [.prim .bool]), ("U", .prim .bool), ("V", .prim .bool)] := by
  decide

end Laws

end Substitution

end Monomorph
