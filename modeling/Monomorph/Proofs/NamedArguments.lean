import Monomorph.Proofs.Drafting
import Monomorph.Substitution

/-!
Arguments that are found by place and arguments that are found by name. A name stands for the
argument at its first place in a list of names; in a substitution made of the same two lists it
stands for the argument it was paired with last. Pairing stops where one of the lists ends, and
beyond that end no name has an argument by place either. So the two ways of replacing differ only
over a name that is in the list twice, and a drafted declaration has no such parameter.
-/

namespace Monomorph

/-- The first of the pairs under a name has the argument at the first place of the name. -/
theorem entryAt_zip (names : List String) (arguments : List Ty) (name : String) :
    entryAt name (names.zip arguments) = positional names arguments name := by
  induction names generalizing arguments with
  | nil => rfl
  | cons first rest ih =>
    rw [positional, List.idxOf?_cons]
    cases arguments with
    | nil => simp [entryAt]
    | cons argument others =>
      rw [List.zip_cons_cons, entryAt, ih, positional]
      by_cases here : first = name
      · simp [here]
      · simp only [if_neg here, beq_iff_eq, Option.bind_map]
        rfl

namespace Substitution

/-- The names that are paired are the first ones, as many as there are arguments. -/
theorem nodup_map_fst_zip {names : List String} (distinct : names.Nodup) (arguments : List Ty) :
    ((names.zip arguments).map Prod.fst).Nodup := by
  rw [List.zip_eq_zip_take_min, List.map_fst_zip (by simp)]
  exact distinct.sublist (List.take_sublist _ _)

theorem get?_ofParameters {names : List String} (distinct : names.Nodup) (arguments : List Ty) :
    (ofParameters names arguments).get? = positional names arguments := by
  funext name
  calc (ofParameters names arguments).get? name
    _ = entryAt name (names.zip arguments).reverse := OrderedMap.get?_ofList _ _
    _ = entryAt name (names.zip arguments) := entryAt_reverse (nodup_map_fst_zip distinct _) name
    _ = positional names arguments name := entryAt_zip names arguments name

/-- If the names are distinct, replacing them by the arguments at their places and applying the
substitution that pairs the two lists rebuild the same types and give the same results, however
many arguments there are. This is so for the parameters of every declaration that was drafted. -/
theorem places_agree_with_names :
    (∀ names : List String, names.Nodup → ∀ arguments ty,
      ty.subst? (positional names arguments) = (ofParameters names arguments).applied? ty ∧
      ty.subst (positional names arguments) = (ofParameters names arguments).apply ty) ∧
    ∀ name items generic, Generic.draft name items = .ok generic → ∀ arguments ty,
      ty.subst? (positional generic.parameterNames arguments) =
        (ofParameters generic.parameterNames arguments).applied? ty ∧
      generic.specialise arguments ty =
        (ofParameters generic.parameterNames arguments).apply ty := by
  have agree {names : List String} (distinct : names.Nodup) (arguments : List Ty) (ty : Ty) :
      ty.subst? (positional names arguments) = (ofParameters names arguments).applied? ty ∧
      ty.subst (positional names arguments) = (ofParameters names arguments).apply ty := by
    rw [applied?, apply, get?_ofParameters distinct]
    exact ⟨rfl, rfl⟩
  refine ⟨fun names distinct => agree distinct, ?_⟩
  intro name items generic drafted
  obtain ⟨orderly, rfl⟩ := (Generic.draft_eq_ok_iff name items generic).mp drafted
  apply agree
  rw [Generic.parameterNames_assembled]
  exact Generic.nodup_drafted orderly

theorem maps_agree :
    ["K", "V", "S"].Nodup ∧
    Ty.subst? (positional ["K", "V", "S"] [.prim .int, .param "K"])
      (.app (.param "S") [.param "K", .param "V"]) =
      (ofParameters ["K", "V", "S"] [.prim .int, .param "K"]).applied?
        (.app (.param "S") [.param "K", .param "V"]) ∧
    Generic.draft "Map" Generic.mapItems = .ok Generic.mapGeneric ∧
    Generic.mapGeneric.specialise [.prim .int, .prim .bool, .prim .char] (.param "V") =
      (ofParameters ["K", "V"] [.prim .int, .prim .bool, .prim .char]).apply (.param "V") := by
  obtain ⟨listed, declared⟩ := places_agree_with_names
  have distinct : ["K", "V", "S"].Nodup := by decide
  have drafted : Generic.draft "Map" Generic.mapItems = .ok Generic.mapGeneric := rfl
  exact ⟨distinct, (listed _ distinct _ _).1, drafted, (declared _ _ _ drafted _ _).2⟩

-- Over a repeated name the two ways differ: the first place counts, or the last pair.
example : (Ty.param "T").subst (positional ["T", "T"] [.prim .int, .prim .bool]) = .prim .int ∧
    (ofParameters ["T", "T"] [.prim .int, .prim .bool]).apply (.param "T") = .prim .bool := by
  decide

end Substitution

end Monomorph
