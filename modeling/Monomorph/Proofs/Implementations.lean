import Mathlib.Data.Finset.Card
import Mathlib.Data.Set.Finite.Basic
import Monomorph.Implementation

/-!
What a table of implementations answers. It answers what can be derived from the entries it was
made from: entries for one type add up, and of the entries for a constructor and a trait the last
one decides about all applications of the constructor. So an entry can take back an answer in one
way only, as a conditional entry for a constructor behind an unconditional one. It takes back the
answers for those applications of the constructor that have no entry of their own and an argument
without the trait, and for what rests on them by way of conditional entries.
-/

namespace Monomorph

namespace OrderedMap

variable {α β γ : Type} (map : OrderedMap α (OrderedMap β γ))

/-- The pairs of keys that a map of maps has a value under. -/
def keysIn : List (α × β) :=
  map.entries.flatMap fun entry => entry.2.keys.map fun inner => (entry.1, inner)

theorem length_keysIn : map.keysIn.length = map.sizeIn := by
  unfold keysIn sizeIn
  induction map.entries with
  | nil => rfl
  | cons entry rest ih =>
    rw [List.flatMap_cons, List.length_append, ih, List.length_map, keys, List.length_map,
      List.foldr_cons, size]

theorem nodup_keysIn : map.keysIn.Nodup := by
  rw [keysIn, List.nodup_flatMap]
  refine ⟨?_, ?_⟩
  · intro entry _
    exact entry.2.nodup_keys.map fun _ _ same => congrArg Prod.snd same
  · refine (List.pairwise_map.mp map.nodup_keys).imp fun apart => ?_
    simp only [Function.onFun, List.disjoint_left, List.mem_map]
    rintro pair ⟨_, _, rfl⟩ ⟨_, _, same⟩
    exact apart (congrArg Prod.fst same).symm

variable [DecidableEq α] [DecidableEq β]

theorem mem_keysIn {outer : α} {inner : β} :
    (outer, inner) ∈ map.keysIn ↔ (map.getIn? outer inner).isSome = true := by
  rw [keysIn, List.mem_flatMap, getIn?, Option.isSome_bind, Option.any_eq_true]
  constructor
  · rintro ⟨⟨_, values⟩, member, listed⟩
    obtain ⟨_, there, ⟨⟩⟩ := List.mem_map.mp listed
    exact ⟨values, map.get?_eq_some_iff.mpr member, (values.contains_iff inner).mpr there⟩
  · rintro ⟨values, found, there⟩
    refine ⟨(outer, values), map.get?_eq_some_iff.mp found, ?_⟩
    exact List.mem_map_of_mem ((values.contains_iff inner).mp there)

/-- A map of maps has as many values as there are pairs of keys. -/
theorem sizeIn_eq_card {pairs : List (α × β)}
    (same : ∀ outer inner, (map.getIn? outer inner).isSome = true ↔ (outer, inner) ∈ pairs) :
    map.sizeIn = pairs.toFinset.card := by
  rw [← length_keysIn, ← List.toFinset_card_of_nodup map.nodup_keysIn]
  congr 1
  ext ⟨outer, inner⟩
  rw [List.mem_toFinset, List.mem_toFinset, mem_keysIn, same]

end OrderedMap

namespace ImplEntry

/-- The type and the trait of an entry for one type. -/
def pair? : ImplEntry → Option (Ty × String)
  | .exact subject trait => some (subject, trait)
  | .constructor _ _ _ => none

/-- The constructor and the trait of an entry for all its applications. -/
def key? : ImplEntry → Option (String × String)
  | .exact _ _ => none
  | .constructor name trait _ => some (name, trait)

theorem pair?_eq_some_iff {entry : ImplEntry} {pair : Ty × String} :
    entry.pair? = some pair ↔ entry = .exact pair.1 pair.2 := by
  obtain ⟨subject, trait⟩ := pair
  cases entry <;> simp [pair?]

theorem key?_eq_some_iff {entry : ImplEntry} {key : String × String} :
    entry.key? = some key ↔ ∃ reach, entry = .constructor key.1 key.2 reach := by
  obtain ⟨name, trait⟩ := key
  cases entry <;> simp [key?]

end ImplEntry

/-- The last of the entries for the constructor and the trait says how far it reaches. -/
def Prevails (entries : List ImplEntry) (name trait : String) (reach : Reach) : Prop :=
  ∃ earlier later, entries = earlier ++ .constructor name trait reach :: later ∧
    ∀ other, .constructor name trait other ∉ later

/-- What follows from the entries. -/
inductive Derivable (entries : List ImplEntry) (trait : String) : Ty → Prop
  | exact {subject : Ty} (recorded : .exact subject trait ∈ entries) :
      Derivable entries trait subject
  | always {name : String} {args : List Ty} (last : Prevails entries name trait .always) :
      Derivable entries trait (.named name args)
  | whenArguments {name : String} {args : List Ty}
      (last : Prevails entries name trait .whenArguments)
      (each : ∀ arg ∈ args, Derivable entries trait arg) :
      Derivable entries trait (.named name args)

theorem prevails_concat {entries : List ImplEntry} {entry : ImplEntry} {name trait : String}
    {reach : Reach} :
    Prevails (entries ++ [entry]) name trait reach ↔
      entry = .constructor name trait reach ∨
        Prevails entries name trait reach ∧ entry.key? ≠ some (name, trait) := by
  constructor
  · rintro ⟨earlier, later, split, last⟩
    rcases List.eq_nil_or_concat later with rfl | ⟨between, final, rfl⟩
    · exact Or.inl (List.singleton_inj.mp (List.append_inj_right' split rfl))
    · rw [List.concat_eq_append, ← List.cons_append, ← List.append_assoc] at split
      obtain ⟨front, back⟩ := List.append_inj' split rfl
      cases back
      refine Or.inr ⟨⟨earlier, between, front, ?_⟩, ?_⟩
      · intro other member
        exact last other (by simp [member])
      · intro same
        obtain ⟨other, rfl⟩ := ImplEntry.key?_eq_some_iff.mp same
        exact last other (by simp)
  · rintro (rfl | ⟨⟨earlier, later, rfl, last⟩, apart⟩)
    · exact ⟨entries, [], rfl, nofun⟩
    · refine ⟨earlier, later ++ [entry], by simp, ?_⟩
      intro other member
      rcases List.mem_append.mp member with inside | final
      · exact last other inside
      · rw [← List.mem_singleton.mp final] at apart
        exact apart rfl

/-- Where the last entry for a constructor is not unconditional after a further one, it is
conditional, and either it was so before or the further one made it so. -/
theorem Prevails.concat {entries : List ImplEntry} {entry : ImplEntry} {name trait : String}
    {reach : Reach} (last : Prevails entries name trait reach)
    (bounded : ¬Prevails (entries ++ [entry]) name trait .always) :
    Prevails (entries ++ [entry]) name trait .whenArguments ∧
      (reach = .whenArguments ∨ entry = .constructor name trait .whenArguments) := by
  by_cases same : entry.key? = some (name, trait)
  · obtain ⟨other, made⟩ := ImplEntry.key?_eq_some_iff.mp same
    have now : Prevails (entries ++ [entry]) name trait other := prevails_concat.mpr (Or.inl made)
    cases other with
    | always => exact absurd now bounded
    | whenArguments => exact ⟨now, Or.inr made⟩
  · have now := prevails_concat.mpr (Or.inr ⟨last, same⟩)
    cases reach with
    | always => exact absurd now bounded
    | whenArguments => exact ⟨now, Or.inl rfl⟩

namespace ImplTable

section Entries

variable (table : ImplTable) (entries : List ImplEntry) (entry : ImplEntry)

theorem ofEntries_concat : ofEntries (entries ++ [entry]) = (ofEntries entries).add entry :=
  List.foldl_append

theorem records_add (subject : Ty) (trait : String) :
    (table.add entry).records subject trait = true ↔
      table.records subject trait = true ∨ entry = .exact subject trait := by
  cases entry with
  | exact own other =>
    rw [records, add, OrderedMap.getIn?_insertIn, ImplEntry.exact.injEq]
    split
    next same => simp [same]
    next apart => simp [apart, records]
  | constructor name trait reach => simp [add, records]

theorem slot_add (name trait : String) (reach : Reach) :
    (table.add entry).constructors.getIn? name trait = some reach ↔
      entry = .constructor name trait reach ∨
        table.constructors.getIn? name trait = some reach ∧ entry.key? ≠ some (name, trait) := by
  cases entry with
  | exact subject other => simp [add, ImplEntry.key?]
  | constructor own other mode =>
    rw [add, OrderedMap.getIn?_insertIn, ImplEntry.key?]
    by_cases same : own = name ∧ other = trait
    · simp [same]
    · have apart : ImplEntry.constructor own other mode ≠ .constructor name trait reach := by
        rintro ⟨⟩
        exact same ⟨rfl, rfl⟩
      simp [same, apart]

theorem records_ofEntries (subject : Ty) (trait : String) :
    (ofEntries entries).records subject trait = true ↔ .exact subject trait ∈ entries := by
  induction entries using List.reverseRecOn with
  | nil => simp [ofEntries, empty, records]
  | append_singleton entries entry ih =>
    rw [ofEntries_concat, records_add, ih, List.mem_append, List.mem_singleton, eq_comm]

/-- A constructor's slot holds what the last entry for it said. -/
theorem slot_ofEntries (name trait : String) (reach : Reach) :
    (ofEntries entries).constructors.getIn? name trait = some reach ↔
      Prevails entries name trait reach := by
  induction entries using List.reverseRecOn with
  | nil => simp [ofEntries, empty, Prevails]
  | append_singleton entries entry ih => rw [ofEntries_concat, slot_add, prevails_concat, ih]

theorem slotted_ofEntries (name trait : String) :
    ((ofEntries entries).constructors.getIn? name trait).isSome = true ↔
      (name, trait) ∈ entries.filterMap ImplEntry.key? := by
  induction entries using List.reverseRecOn with
  | nil => simp [ofEntries, empty]
  | append_singleton entries entry ih =>
    rw [List.filterMap_append, List.mem_append, ← ih, ofEntries_concat, Option.isSome_iff_exists,
      Option.isSome_iff_exists]
    simp only [slot_add, List.mem_filterMap, List.mem_singleton, exists_eq_left]
    by_cases same : entry.key? = some (name, trait)
    · simp [same, ImplEntry.key?_eq_some_iff.mp same]
    · have other (reach : Reach) : entry ≠ .constructor name trait reach := fun made =>
        same (ImplEntry.key?_eq_some_iff.mpr ⟨reach, made⟩)
      simp [same, other]

end Entries

section Answers

variable (table : ImplTable) (trait : String)

theorem implementsAll_iff (list : List Ty) :
    table.implementsAll trait list = true ↔
      ∀ subject ∈ list, table.implements trait subject = true := by
  induction list with
  | nil => simp [implementsAll]
  | cons subject rest ih => simp [implementsAll, ih]

/-- A type has an entry of its own, or it is nominal and its constructor's entry applies. -/
theorem implements_iff (subject : Ty) :
    table.implements trait subject = true ↔
      table.records subject trait = true ∨
        ∃ name args, subject = .named name args ∧
          (table.constructors.getIn? name trait = some .always ∨
            table.constructors.getIn? name trait = some .whenArguments ∧
              ∀ arg ∈ args, table.implements trait arg = true) := by
  cases subject with
  | named name args =>
    cases slot : table.constructors.getIn? name trait with
    | none => simp [implements, slot]
    | some reach => cases reach <;> simp [implements, slot, implementsAll_iff]
  | _ => simp [implements]

/-- The same in terms of the entries. -/
theorem implements_ofEntries_iff {entries : List ImplEntry} {trait : String} {subject : Ty} :
    (ofEntries entries).implements trait subject = true ↔
      .exact subject trait ∈ entries ∨
        ∃ name args, subject = .named name args ∧
          (Prevails entries name trait .always ∨ Prevails entries name trait .whenArguments ∧
            ∀ arg ∈ args, (ofEntries entries).implements trait arg = true) := by
  rw [implements_iff, records_ofEntries]
  simp only [slot_ofEntries]

end Answers

section Derivations

variable {entries : List ImplEntry}

theorem derivable_of_implements {trait : String} {subject : Ty}
    (holds : (ofEntries entries).implements trait subject = true) :
    Derivable entries trait subject := by
  induction subject using Ty.induction with
  | named name args ih =>
    rcases implements_ofEntries_iff.mp holds with recorded | ⟨_, _, ⟨⟩, last | ⟨last, each⟩⟩
    · exact .exact recorded
    · exact .always last
    · exact .whenArguments last fun arg member => ih arg member (each arg member)
  | _ =>
    rcases implements_ofEntries_iff.mp holds with recorded | ⟨_, _, ⟨⟩, _⟩
    exact .exact recorded

theorem implements_of_derivable {trait : String} {subject : Ty}
    (derivable : Derivable entries trait subject) :
    (ofEntries entries).implements trait subject = true := by
  induction derivable with
  | exact recorded => exact implements_ofEntries_iff.mpr (Or.inl recorded)
  | always last => exact implements_ofEntries_iff.mpr (Or.inr ⟨_, _, rfl, Or.inl last⟩)
  | whenArguments last _ ih =>
    exact implements_ofEntries_iff.mpr (Or.inr ⟨_, _, rfl, Or.inr ⟨last, ih⟩⟩)

theorem implements_eq_false_iff {trait : String} {subject : Ty} :
    (ofEntries entries).implements trait subject = false ↔ ¬Derivable entries trait subject := by
  rw [Bool.eq_false_iff]
  exact not_congr ⟨derivable_of_implements, implements_of_derivable⟩

end Derivations

/-- A table answers yes exactly to what can be derived from the entries it was made from. It counts
every type with a trait and every constructor with a trait once. -/
theorem answers_derivable (entries : List ImplEntry) :
    (∀ subject trait, (ofEntries entries).implements trait subject = true ↔
      Derivable entries trait subject) ∧
    (ofEntries entries).count =
      (entries.filterMap ImplEntry.pair?).toFinset.card +
        (entries.filterMap ImplEntry.key?).toFinset.card := by
  constructor
  · intro subject trait
    exact ⟨derivable_of_implements, implements_of_derivable⟩
  · have exact (subject : Ty) (trait : String) :
        ((ofEntries entries).exact.getIn? subject trait).isSome = true ↔
          (subject, trait) ∈ entries.filterMap ImplEntry.pair? := by
      rw [← records, records_ofEntries]
      simp [ImplEntry.pair?_eq_some_iff]
    rw [count, OrderedMap.sizeIn_eq_card _ exact,
      OrderedMap.sizeIn_eq_card _ (slotted_ofEntries entries)]

section Withdrawal

variable {entries : List ImplEntry} {entry : ImplEntry} {name trait : String} {subject : Ty}

/-- The types that lose the trait where a conditional entry for the constructor takes the place of
an unconditional one. None of them has an entry of its own. An application of the constructor loses
the trait if one of its arguments is without it afterwards, and an application of a conditional
constructor if one of its arguments loses it. -/
inductive Withdrawn (entries : List ImplEntry) (name trait : String) : Ty → Prop
  | refused {args : List Ty} {arg : Ty} (unrecorded : .exact (.named name args) trait ∉ entries)
      (member : arg ∈ args)
      (without : ¬Derivable (entries ++ [.constructor name trait .whenArguments]) trait arg) :
      Withdrawn entries name trait (.named name args)
  | inherited {other : String} {args : List Ty} {arg : Ty}
      (unrecorded : .exact (.named other args) trait ∉ entries)
      (conditional : Prevails entries other trait .whenArguments) (member : arg ∈ args)
      (withdrawn : Withdrawn entries name trait arg) :
      Withdrawn entries name trait (.named other args)

theorem prevails_unique {reach other : Reach} (last : Prevails entries name trait reach)
    (last' : Prevails entries name trait other) : reach = other := by
  rw [← slot_ofEntries] at last last'
  exact Option.some.inj (last.symm.trans last')

/-- A nominal type that has no entry of its own and goes by its arguments is without the trait
exactly if one of them is. -/
theorem conditional_eq_false_iff {args : List Ty}
    (unrecorded : .exact (.named name args) trait ∉ entries)
    (conditional : Prevails entries name trait .whenArguments) :
    (ofEntries entries).implements trait (.named name args) = false ↔
      ∃ arg ∈ args, (ofEntries entries).implements trait arg = false := by
  have each : (ofEntries entries).implements trait (.named name args) = true ↔
      ∀ arg ∈ args, (ofEntries entries).implements trait arg = true := by
    rw [implements_ofEntries_iff]
    constructor
    · rintro (recorded | ⟨_, _, ⟨⟩, always | ⟨_, each⟩⟩)
      · exact absurd recorded unrecorded
      · cases prevails_unique conditional always
      · exact each
    · intro each
      exact Or.inr ⟨name, args, rfl, Or.inr ⟨conditional, each⟩⟩
  simp [← Bool.not_eq_true, each]

theorem Withdrawn.lost (last : Prevails entries name trait .always)
    (withdrawn : Withdrawn entries name trait subject) :
    (ofEntries (entries ++ [.constructor name trait .whenArguments])).implements trait subject =
      false := by
  induction withdrawn with
  | refused unrecorded member without =>
    have now : Prevails (entries ++ [.constructor name trait .whenArguments]) name trait
        .whenArguments :=
      prevails_concat.mpr (Or.inl rfl)
    exact (conditional_eq_false_iff (by simpa using unrecorded) now).mpr
      ⟨_, member, implements_eq_false_iff.mpr without⟩
  | @inherited other args arg unrecorded conditional member _ ih =>
    -- The new entry is for the constructor with an unconditional one, which is not this one.
    have apart : other ≠ name := by
      rintro rfl
      cases prevails_unique conditional last
    have now : Prevails (entries ++ [.constructor name trait .whenArguments]) other trait
        .whenArguments :=
      prevails_concat.mpr (Or.inr ⟨conditional, by simpa [ImplEntry.key?] using apart.symm⟩)
    exact (conditional_eq_false_iff (by simpa using unrecorded) now).mpr ⟨_, member, ih⟩

/-- An entry that takes back an answer is a conditional one in the place of an unconditional one. -/
theorem withdrawn_of_lost (held : (ofEntries entries).implements trait subject = true)
    (lost : (ofEntries (entries ++ [entry])).implements trait subject = false) :
    ∃ name, entry = .constructor name trait .whenArguments ∧
      Prevails entries name trait .always ∧ Withdrawn entries name trait subject := by
  induction subject using Ty.induction with
  | named own args ih =>
    have denied := mt implements_ofEntries_iff.mpr (Bool.eq_false_iff.mp lost)
    obtain ⟨unrecorded, unreached⟩ := not_or.mp denied
    have before : .exact (.named own args) trait ∉ entries := fun recorded =>
      unrecorded (List.mem_append_left _ recorded)
    have bounded : ¬Prevails (entries ++ [entry]) own trait .always := fun always =>
      unreached ⟨own, args, rfl, Or.inl always⟩
    rcases implements_ofEntries_iff.mp held with recorded | ⟨_, _, ⟨⟩, last | ⟨last, each⟩⟩
    · exact absurd recorded before
    · obtain ⟨now, always | made⟩ := last.concat bounded
      · cases always
      · obtain ⟨arg, member, without⟩ := (conditional_eq_false_iff unrecorded now).mp lost
        subst made
        exact ⟨own, rfl, last, .refused before member (implements_eq_false_iff.mp without)⟩
    · obtain ⟨now, _⟩ := last.concat bounded
      obtain ⟨arg, member, without⟩ := (conditional_eq_false_iff unrecorded now).mp lost
      obtain ⟨name, made, replaced, withdrawn⟩ := ih arg member (each arg member) without
      exact ⟨name, made, replaced, .inherited before last member withdrawn⟩
  | _ =>
    rcases implements_ofEntries_iff.mp held with recorded | ⟨_, _, ⟨⟩, _⟩
    have kept := implements_ofEntries_iff.mpr (Or.inl (List.mem_append_left [entry] recorded))
    exact absurd kept (Bool.eq_false_iff.mp lost)

/-- There are entries for finitely many types only. -/
theorem exists_unrecorded (entries : List ImplEntry) (name trait : String) :
    ∃ arity, .exact (.ctor name arity) trait ∉ entries ∧
      .exact (.named name [.ctor name arity]) trait ∉ entries := by
  have recorded : {entry | entry ∈ entries}.Finite := entries.finite_toSet
  have bare : {arity | .exact (.ctor name arity) trait ∈ entries}.Finite :=
    recorded.preimage fun _ _ _ _ same => by simpa using same
  have applied : {arity | .exact (.named name [.ctor name arity]) trait ∈ entries}.Finite :=
    recorded.preimage fun _ _ _ _ same => by simpa using same
  obtain ⟨arity, outside⟩ := (bare.union applied).infinite_compl.nonempty
  exact ⟨arity, fun found => outside (Or.inl found), fun found => outside (Or.inr found)⟩

/-- A conditional entry in the place of an unconditional one takes an answer back. -/
theorem exists_withdrawn (last : Prevails entries name trait .always) :
    ∃ subject, (ofEntries entries).implements trait subject = true ∧
      (ofEntries (entries ++ [.constructor name trait .whenArguments])).implements trait subject =
        false := by
  obtain ⟨arity, bare, applied⟩ := exists_unrecorded entries name trait
  have without : ¬Derivable (entries ++ [.constructor name trait .whenArguments]) trait
      (.ctor name arity) := by
    rintro ⟨recorded⟩
    exact bare (by simpa using recorded)
  refine ⟨.named name [.ctor name arity], ?_, ?_⟩
  · exact implements_ofEntries_iff.mpr (Or.inr ⟨_, _, rfl, Or.inl last⟩)
  · exact Withdrawn.lost last (.refused applied (List.mem_singleton_self _) without)

end Withdrawal

/-- An answer that a table gives is taken back by a further entry exactly if the entry is a
conditional one for a constructor whose last entry for the trait is unconditional, and the type is
one of those that lose the trait by that. Such an entry always takes an answer back. -/
theorem entries_keep_answers (entries : List ImplEntry) (entry : ImplEntry) :
    let before := ofEntries entries
    let after := ofEntries (entries ++ [entry])
    (∀ subject trait, before.implements trait subject = true →
      (after.implements trait subject = false ↔
        ∃ name, entry = .constructor name trait .whenArguments ∧
          Prevails entries name trait .always ∧ Withdrawn entries name trait subject)) ∧
    ∀ name trait, entry = .constructor name trait .whenArguments →
      Prevails entries name trait .always →
        ∃ subject, before.implements trait subject = true ∧
          after.implements trait subject = false := by
  intro before after
  constructor
  · intro subject trait held
    refine ⟨withdrawn_of_lost held, ?_⟩
    rintro ⟨name, rfl, last, withdrawn⟩
    exact withdrawn.lost last
  · rintro name trait rfl last
    exact exists_withdrawn last

section Lists

/-- Lists are printable whatever they hold, and so are trees; boxes are if what they hold is. -/
def printableLists : List ImplEntry :=
  [.constructor "List" "Printable" .always, .exact (.prim .int) "Printable",
    .constructor "Tree" "Printable" .always, .constructor "Box" "Printable" .whenArguments,
    .exact (.named "List" [.prim .char]) "Printable"]

/-- Lists are printable only if what they hold is. -/
def printableItems : ImplEntry := .constructor "List" "Printable" .whenArguments

theorem prevails_printableLists : Prevails printableLists "List" "Printable" .always :=
  ⟨[], _, rfl, by simp⟩

theorem withdrawn_boolLists :
    Withdrawn printableLists "List" "Printable" (.named "List" [.prim .bool]) :=
  .refused (by simp [printableLists]) (List.mem_singleton_self _)
    (implements_eq_false_iff.mp (by decide))

theorem lists_keep_answers :
    (ofEntries (printableLists ++ [printableItems])).implements "Printable"
      (.named "Box" [.named "List" [.prim .bool]]) = false ∧
    (∀ subject ∈ [Ty.named "List" [.prim .char], .named "Tree" [.named "List" [.prim .bool]],
        .named "Box" [.named "List" [.prim .int]]],
      (ofEntries printableLists).implements "Printable" subject = true ∧
        ¬ Withdrawn printableLists "List" "Printable" subject) ∧
    ∃ subject, (ofEntries printableLists).implements "Printable" subject = true ∧
      (ofEntries (printableLists ++ [printableItems])).implements "Printable" subject = false := by
  obtain ⟨kept, withdrawn⟩ := entries_keep_answers printableLists printableItems
  have boxes : Withdrawn printableLists "List" "Printable"
      (.named "Box" [.named "List" [.prim .bool]]) :=
    .inherited (by simp [printableLists]) ((slot_ofEntries _ _ _ _).mp rfl)
      (List.mem_singleton_self _) withdrawn_boolLists
  refine ⟨?_, ?_, withdrawn "List" "Printable" rfl prevails_printableLists⟩
  · exact (kept _ _ (by decide)).mpr ⟨"List", rfl, prevails_printableLists, boxes⟩
  · intro subject listed
    have answers : ∀ subject ∈ [Ty.named "List" [.prim .char],
        .named "Tree" [.named "List" [.prim .bool]], .named "Box" [.named "List" [.prim .int]]],
        (ofEntries printableLists).implements "Printable" subject = true ∧
          (ofEntries (printableLists ++ [printableItems])).implements "Printable" subject =
            true := by
      decide
    obtain ⟨held, still⟩ := answers subject listed
    refine ⟨held, fun lost => ?_⟩
    have gone := (kept _ _ held).mpr ⟨"List", rfl, prevails_printableLists, lost⟩
    rw [still] at gone
    cases gone

/-- A table that calls all lists printable does not do so any more after one more entry. -/
theorem float_lists_withdrawn :
    ¬ ∀ (entries : List ImplEntry) (entry : ImplEntry) (subject : Ty) (trait : String),
      (ofEntries entries).implements trait subject = true →
        (ofEntries (entries ++ [entry])).implements trait subject = true := by
  intro keeps
  have kept := keeps printableLists printableItems (.named "List" [.prim .float]) "Printable"
    (by decide)
  exact absurd kept (by decide)

end Lists

end ImplTable

end Monomorph
