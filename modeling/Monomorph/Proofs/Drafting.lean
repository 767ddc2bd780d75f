import Mathlib.Data.List.Infix
import Mathlib.Data.List.Nodup
import Monomorph.Generic.Draft

/-!
Which drafts succeed and what comes of them. The order of the items matters in two ways only: a
parameter must not come a second time, and a bound must not come before its parameter. The first
item that breaks this is the one a draft fails at, whatever comes behind it. Where no item does,
the declaration can be read off the items kind by kind.
-/

namespace Monomorph.Generic

namespace Item

@[simp]
def parameter? : Item → Option Parameter
  | .parameter added => some added
  | _ => none

@[simp]
def boundOn? (name : String) : Item → Option Bound
  | .bound target added => if target = name then some added else none
  | _ => none

@[simp]
def clause? : Item → Option WhereClause
  | .clause added => some added
  | _ => none

@[simp]
def signature? : Item → Option Ty
  | .signature given => some given
  | _ => none

@[simp]
def span? : Item → Option Span
  | .span given => some given
  | _ => none

end Item

/-- The names of the parameters among the items. -/
def drafted (items : List Item) : List String :=
  (items.filterMap Item.parameter?).map Parameter.name

/-- Behind the earlier items this one repeats a parameter, or it puts a bound on one that is not
there. -/
def Item.Misplaced (earlier : List Item) : Item → Prop
  | .parameter added => added.name ∈ drafted earlier
  | .bound target _ => target ∉ drafted earlier
  | _ => False

/-- The fault of a draft that fails at the item. -/
def Item.fault? (generic : String) : Item → Option Fault
  | .parameter added =>
      some (.duplicateParameter generic added.name (added.span.map Span.extent))
  | .bound target added => some (.unknownParameter generic target (added.span.map Span.extent))
  | _ => none

/-- Every item is in its place behind those before it. -/
def Orderly (items : List Item) : Prop :=
  ∀ earlier item, earlier ++ [item] <+: items → ¬ item.Misplaced earlier

/-- The first item that is not in its place, and those before it. -/
structure Stumbles (items earlier : List Item) (item : Item) : Prop where
  starts : earlier ++ [item] <+: items
  orderly : Orderly earlier
  misplaced : item.Misplaced earlier

/-- The parameter with its own bounds and those that the items put on it. -/
def bounded (items : List Item) (parameter : Parameter) : Parameter :=
  { parameter with
    bounds := parameter.bounds ++ items.filterMap (Item.boundOn? parameter.name) }

/-- The declaration that the items describe: the parameters with all their bounds and the clauses,
both in the order they come in, and the last signature and span. -/
def assembled (name : String) (items : List Item) : Generic where
  name := name
  parameters := (items.filterMap Item.parameter?).map (bounded items)
  clauses := items.filterMap Item.clause?
  signature := (items.filterMap Item.signature?).getLast?
  span := (items.filterMap Item.span?).getLast?

section Orderly

variable {items earlier other : List Item} {item next : Item}

theorem orderly_nil : Orderly [] := by
  intro earlier item starts
  simp at starts

theorem orderly_concat : Orderly (items ++ [item]) ↔ Orderly items ∧ ¬ item.Misplaced items := by
  constructor
  · intro orderly
    refine ⟨?_, orderly items item (List.prefix_refl _)⟩
    intro earlier next starts
    exact orderly earlier next (starts.trans (List.prefix_append _ _))
  · rintro ⟨orderly, placed⟩ earlier next starts
    rcases List.prefix_concat_iff.mp starts with same | inside
    · obtain ⟨rfl, rfl⟩ := List.append_inj' same rfl |>.imp_right List.singleton_inj.mp
      exact placed
    · exact orderly earlier next inside

theorem Stumbles.eq_of_prefix (stumbles : Stumbles items earlier item)
    (stumbles' : Stumbles items other next) (before : earlier ++ [item] <+: other ++ [next]) :
    earlier = other ∧ item = next := by
  rcases List.prefix_concat_iff.mp before with same | inside
  · exact (List.append_inj' same rfl).imp_right List.singleton_inj.mp
  · exact absurd stumbles.misplaced (stumbles'.orderly _ _ inside)

theorem Stumbles.unique (stumbles : Stumbles items earlier item)
    (stumbles' : Stumbles items other next) : earlier = other ∧ item = next := by
  -- Of two items in the list one comes first, and nothing before the other is misplaced.
  rcases List.prefix_or_prefix_of_prefix stumbles.starts stumbles'.starts with before | behind
  · exact stumbles.eq_of_prefix stumbles' before
  · exact (stumbles'.eq_of_prefix stumbles behind).imp Eq.symm Eq.symm

theorem drafted_parameter (added : Parameter) :
    drafted (items ++ [.parameter added]) = drafted items ++ [added.name] := by
  simp [drafted]

theorem drafted_of_other (other : item.parameter? = none) :
    drafted (items ++ [item]) = drafted items := by
  rw [drafted, List.filterMap_append, List.filterMap_cons_none other, List.filterMap_nil,
    List.append_nil, drafted]

theorem nodup_drafted (orderly : Orderly items) : (drafted items).Nodup := by
  induction items using List.reverseRecOn with
  | nil => exact List.nodup_nil
  | append_singleton items item ih =>
    obtain ⟨before, placed⟩ := orderly_concat.mp orderly
    cases item with
    | parameter added =>
      rw [drafted_parameter]
      exact List.concat_eq_append ▸ List.Nodup.concat placed (ih before)
    | _ =>
      rw [drafted_of_other rfl]
      exact ih before

/-- Bounds are put on parameters that are there. -/
theorem boundOn?_of_absent {name : String} (orderly : Orderly items)
    (absent : name ∉ drafted items) : items.filterMap (Item.boundOn? name) = [] := by
  induction items using List.reverseRecOn with
  | nil => rfl
  | append_singleton items item ih =>
    obtain ⟨before, placed⟩ := orderly_concat.mp orderly
    rw [List.filterMap_append]
    cases item with
    | parameter added =>
      rw [drafted_parameter, List.mem_append, not_or] at absent
      rw [ih before absent.1]
      rfl
    | bound target added =>
      rw [drafted_of_other rfl] at absent
      have apart : target ≠ name := fun same => placed (same ▸ absent)
      rw [ih before absent]
      simp [apart]
    | _ =>
      rw [drafted_of_other rfl] at absent
      rw [ih before absent]
      rfl

end Orderly

section Items

variable (name : String) {items : List Item} {item : Item}

theorem bounded_bound (items : List Item) (target : String) (added : Bound)
    (parameter : Parameter) :
    bounded (items ++ [.bound target added]) parameter =
      if (bounded items parameter).name = target then
        { bounded items parameter with bounds := (bounded items parameter).bounds ++ [added] }
      else bounded items parameter := by
  by_cases same : parameter.name = target
  · simp [bounded, same]
  · have apart : target ≠ parameter.name := fun equal => same equal.symm
    simp [bounded, same, apart]

theorem bounded_of_other (other : ∀ name, item.boundOn? name = none) :
    bounded (items ++ [item]) = bounded items := by
  funext parameter
  rw [bounded, List.filterMap_append, List.filterMap_cons_none (other _), List.filterMap_nil,
    List.append_nil, bounded]

theorem bounded_fresh {added : Parameter} (orderly : Orderly items)
    (fresh : added.name ∉ drafted items) : bounded items added = added := by
  simp [bounded, boundOn?_of_absent orderly fresh]

/-- Where the names are distinct, the first parameter of a name is the only one. -/
theorem boundFirst_eq_map {parameters : List Parameter} (target : String) (added : Bound)
    (distinct : (parameters.map Parameter.name).Nodup) :
    boundFirst target added parameters = parameters.map fun parameter =>
      if parameter.name = target then { parameter with bounds := parameter.bounds ++ [added] }
      else parameter := by
  induction parameters with
  | nil => rfl
  | cons parameter rest ih =>
    rw [List.map_cons, List.nodup_cons] at distinct
    rw [boundFirst, List.map_cons]
    by_cases here : parameter.name = target
    · have others : (rest.map fun parameter =>
          if parameter.name = target then { parameter with bounds := parameter.bounds ++ [added] }
          else parameter) = rest := by
        refine (List.map_congr_left fun other member => ?_).trans (List.map_id rest)
        have apart : other.name ≠ target := fun same =>
          distinct.1 (here.trans same.symm ▸ List.mem_map_of_mem member)
        exact if_neg apart
      rw [if_pos here, if_pos here, others]
    · rw [if_neg here, if_neg here, ih distinct.2]

/-- What one more item does to the declaration. -/
theorem assembled_concat :
    assembled name (items ++ [item]) =
      { name := name
        parameters :=
          (items.filterMap Item.parameter? ++ item.parameter?.toList).map
            (bounded (items ++ [item]))
        clauses := (assembled name items).clauses ++ item.clause?.toList
        signature := item.signature?.or (assembled name items).signature
        span := item.span?.or (assembled name items).span } := by
  cases item <;> simp [assembled]

theorem parameterNames_assembled : (assembled name items).parameterNames = drafted items := by
  simp [parameterNames, assembled, drafted, bounded]

theorem isSome_parameter?_assembled (wanted : String) :
    ((assembled name items).parameter? wanted).isSome = true ↔ wanted ∈ drafted items := by
  rw [← parameterNames_assembled name, parameter?, List.find?_isSome, parameterNames]
  simp

/-- An item in its place is taken up into the declaration. -/
theorem addItem_placed (orderly : Orderly items) (placed : ¬ item.Misplaced items) :
    (assembled name items).addItem item = .ok (assembled name (items ++ [item])) := by
  rw [assembled_concat]
  cases item with
  | parameter added =>
    have fresh := mt (isSome_parameter?_assembled name added.name).mp placed
    rw [addItem, if_neg fresh, bounded_of_other fun _ => rfl]
    simp [assembled, bounded_fresh orderly placed]
  | bound target added =>
    have there := (isSome_parameter?_assembled name target).mpr (not_not.mp placed)
    have distinct : ((assembled name items).parameters.map Parameter.name).Nodup := by
      rw [← parameterNames, parameterNames_assembled]
      exact nodup_drafted orderly
    rw [addItem, if_pos there, addBound, boundFirst_eq_map target added distinct,
      funext (bounded_bound items target added)]
    simp [assembled]
  | clause added =>
    rw [addItem, bounded_of_other fun _ => rfl]
    simp [assembled]
  | signature given =>
    rw [addItem, bounded_of_other fun _ => rfl]
    simp [assembled]
  | span given =>
    rw [addItem, bounded_of_other fun _ => rfl]
    simp [assembled]

theorem addItem_misplaced (misplaced : item.Misplaced items) :
    ∃ fault, item.fault? name = some fault ∧
      (assembled name items).addItem item = .error fault := by
  cases item with
  | parameter added =>
    have there := (isSome_parameter?_assembled name added.name).mpr misplaced
    exact ⟨_, rfl, if_pos there⟩
  | bound target added =>
    have absent := mt (isSome_parameter?_assembled name target).mp misplaced
    exact ⟨_, rfl, if_neg absent⟩
  | _ => exact misplaced.elim

namespace Draft

variable {draft : Draft} {fault : Fault}

/-- The first fault stays the first. -/
theorem finish_add (failed : draft.finish = .error fault) (item : Item) :
    (draft.add item).finish = .error fault := by
  obtain ⟨generic, faults⟩ := draft
  cases faults with
  | nil => cases failed
  | cons first rest =>
    rw [add]
    cases generic.addItem item with
    | ok next => exact failed
    | error later => exact failed

theorem finish_foldl_add (failed : draft.finish = .error fault) (items : List Item) :
    (items.foldl add draft).finish = .error fault := by
  induction items generalizing draft with
  | nil => exact failed
  | cons item rest ih => exact ih (finish_add failed item)

end Draft

/-- A draft goes on while the items are in their places and fails at the first that is not. -/
theorem foldl_add_cases (orderly : Orderly items) (rest : List Item) :
    Orderly (items ++ rest) ∧
      rest.foldl Draft.add ⟨assembled name items, []⟩ = ⟨assembled name (items ++ rest), []⟩ ∨
    ∃ earlier item fault, Stumbles (items ++ rest) earlier item ∧ item.fault? name = some fault ∧
      (rest.foldl Draft.add ⟨assembled name items, []⟩).finish = .error fault := by
  induction rest generalizing items with
  | nil =>
    rw [List.append_nil]
    exact Or.inl ⟨orderly, rfl⟩
  | cons item rest ih =>
    rw [List.foldl_cons, Draft.add]
    by_cases misplaced : item.Misplaced items
    · obtain ⟨fault, same, refused⟩ := addItem_misplaced name misplaced
      have starts : items ++ [item] <+: items ++ item :: rest := ⟨rest, List.append_assoc _ _ _⟩
      refine Or.inr ⟨items, item, fault, ⟨starts, orderly, misplaced⟩, same, ?_⟩
      rw [refused]
      exact Draft.finish_foldl_add rfl rest
    · have next := ih (orderly_concat.mpr ⟨orderly, misplaced⟩)
      rw [List.append_assoc, List.singleton_append] at next
      rw [addItem_placed name orderly misplaced]
      exact next

end Items

section Drafts

variable (name : String) (items : List Item)

theorem draft_cases :
    Orderly items ∧ draft name items = .ok (assembled name items) ∨
    ∃ earlier item fault, Stumbles items earlier item ∧ item.fault? name = some fault ∧
      draft name items = .error fault := by
  rcases foldl_add_cases name orderly_nil items with ⟨orderly, finished⟩ | failed
  · exact Or.inl ⟨orderly, congrArg Draft.finish finished⟩
  · exact Or.inr failed

theorem draft_eq_ok_iff (generic : Generic) :
    draft name items = .ok generic ↔ Orderly items ∧ generic = assembled name items := by
  rcases draft_cases name items with ⟨orderly, succeeded⟩ | ⟨earlier, item, _, stumbles, _, failed⟩
  · rw [succeeded, Except.ok.injEq]
    exact ⟨fun same => ⟨orderly, same.symm⟩, fun parts => parts.2.symm⟩
  · rw [failed]
    have broken : ¬ Orderly items := fun orderly =>
      orderly earlier item stumbles.starts stumbles.misplaced
    exact ⟨fun same => (nomatch same), fun parts => absurd parts.1 broken⟩

theorem draft_eq_error_iff (fault : Fault) :
    draft name items = .error fault ↔
      ∃ earlier item, Stumbles items earlier item ∧ item.fault? name = some fault := by
  rcases draft_cases name items with
    ⟨orderly, succeeded⟩ | ⟨earlier, item, first, stumbles, own, failed⟩
  · rw [succeeded]
    constructor
    · exact fun same => nomatch same
    · rintro ⟨earlier, item, stumbles, _⟩
      exact absurd stumbles.misplaced (orderly earlier item stumbles.starts)
  · rw [failed, Except.error.injEq]
    constructor
    · rintro rfl
      exact ⟨earlier, item, stumbles, own⟩
    · rintro ⟨_, _, stumbles', own'⟩
      obtain ⟨_, rfl⟩ := stumbles.unique stumbles'
      exact Option.some.inj (own.symm.trans own')

theorem draft_fails_iff :
    (∃ fault, draft name items = .error fault) ↔
      ∃ earlier item, earlier ++ [item] <+: items ∧ item.Misplaced earlier := by
  constructor
  · rintro ⟨fault, failed⟩
    obtain ⟨earlier, item, stumbles, _⟩ := (draft_eq_error_iff name items fault).mp failed
    exact ⟨earlier, item, stumbles.starts, stumbles.misplaced⟩
  · rintro ⟨earlier, item, starts, misplaced⟩
    rcases draft_cases name items with ⟨orderly, _⟩ | ⟨_, _, fault, _, _, failed⟩
    · exact absurd misplaced (orderly earlier item starts)
    · exact ⟨fault, failed⟩

end Drafts

/-- A draft fails exactly if one of its items repeats a parameter or puts a bound on one that is not
there yet, and its fault is that of the first such item. Otherwise it gives the declaration that
the items describe, in which no two parameters have the same name. -/
theorem draft_exact (name : String) (items : List Item) :
    ((∃ fault, draft name items = .error fault) ↔
      ∃ earlier item, earlier ++ [item] <+: items ∧ item.Misplaced earlier) ∧
    (∀ fault, draft name items = .error fault ↔
      ∃ earlier item, Stumbles items earlier item ∧ item.fault? name = some fault) ∧
    (∀ generic, draft name items = .ok generic ↔
      Orderly items ∧ generic = assembled name items) ∧
    ∀ generic, draft name items = .ok generic → generic.parameterNames.Nodup := by
  refine ⟨draft_fails_iff name items, draft_eq_error_iff name items, draft_eq_ok_iff name items, ?_⟩
  intro generic succeeded
  obtain ⟨orderly, rfl⟩ := (draft_eq_ok_iff name items generic).mp succeeded
  rw [parameterNames_assembled]
  exact nodup_drafted orderly

section Maps

def hashed : Parameter := ⟨"K", [⟨"Hash", none⟩], none, none, none, none⟩

def stored : Parameter := ⟨"V", [], none, some ⟨7, 8⟩, none, none⟩

def cloned : WhereClause := ⟨.param "V", ["Clone"], none⟩

/-- A bound that comes behind another parameter, and a second signature. -/
def mapItems : List Item :=
  [.signature (.param "K"), .parameter hashed, .parameter stored, .clause cloned,
    .bound "K" ⟨"Eq", none⟩, .span ⟨0, 9⟩, .signature (.named "Map" [.param "K", .param "V"])]

def mapGeneric : Generic where
  name := "Map"
  parameters := [{ hashed with bounds := [⟨"Hash", none⟩, ⟨"Eq", none⟩] }, stored]
  clauses := [cloned]
  signature := some (.named "Map" [.param "K", .param "V"])
  span := some ⟨0, 9⟩

/-- The bound on `V` comes too early. The repeated `K` comes behind it. -/
def hastyItems : List Item :=
  [.parameter hashed, .bound "V" ⟨"Eq", some ⟨3, 5⟩⟩, .parameter stored, .parameter hashed]

theorem stumbles_hastyItems :
    Stumbles hastyItems [.parameter hashed] (.bound "V" ⟨"Eq", some ⟨3, 5⟩⟩) where
  starts := ⟨_, rfl⟩
  orderly := orderly_concat.mpr ⟨orderly_nil, List.not_mem_nil⟩
  misplaced := by
    change "V" ∉ ["K"]
    decide

theorem maps_drafted :
    Orderly mapItems ∧ draft "Map" mapItems = .ok mapGeneric ∧
    mapGeneric.parameterNames.Nodup ∧
    draft "Map" hastyItems = .error (.unknownParameter "Map" "V" (some ⟨3, 2⟩)) := by
  obtain ⟨_, _, succeeds, distinct⟩ := draft_exact "Map" mapItems
  obtain ⟨_, fails, _⟩ := draft_exact "Map" hastyItems
  have drafted : draft "Map" mapItems = .ok mapGeneric := rfl
  exact ⟨((succeeds mapGeneric).mp drafted).1, drafted, distinct mapGeneric drafted,
    (fails _).mpr ⟨_, _, stumbles_hastyItems, rfl⟩⟩

end Maps

end Monomorph.Generic
