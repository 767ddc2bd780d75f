/-!
Finite maps that remember the order in which their keys first came. Setting a key
again changes its value and keeps its place.
-/

namespace Monomorph

section Entries

variable {α β : Type} [DecidableEq α]

/-- The value a list of entries has at a key. -/
def entryAt (key : α) : List (α × β) → Option β
  | [] => none
  | entry :: rest => if entry.1 = key then some entry.2 else entryAt key rest

/-- Set a key in place, or at the end if it is new. -/
def setEntry (key : α) (value : β) : List (α × β) → List (α × β)
  | [] => [(key, value)]
  | entry :: rest =>
      if entry.1 = key then (key, value) :: rest else entry :: setEntry key value rest

theorem map_fst_setEntry (key : α) (value : β) (entries : List (α × β)) :
    (setEntry key value entries).map Prod.fst =
      if key ∈ entries.map Prod.fst then entries.map Prod.fst
      else entries.map Prod.fst ++ [key] := by
  induction entries with
  | nil => simp [setEntry]
  | cons entry rest ih =>
    by_cases here : entry.1 = key
    · simp [setEntry, here]
    · have other : key ≠ entry.1 := fun equal => here equal.symm
      simp only [setEntry, if_neg here, List.map_cons, ih, List.mem_cons, other, false_or]
      split <;> simp

theorem setEntry_of_absent {key : α} (value : β) {entries : List (α × β)}
    (absent : key ∉ entries.map Prod.fst) :
    setEntry key value entries = entries ++ [(key, value)] := by
  induction entries with
  | nil => rfl
  | cons entry rest ih =>
    rw [List.map_cons, List.mem_cons, not_or] at absent
    rw [setEntry, if_neg fun same => absent.1 same.symm, ih absent.2, List.cons_append]

theorem nodup_setEntry (key : α) (value : β) {entries : List (α × β)}
    (distinct : (entries.map Prod.fst).Nodup) :
    ((setEntry key value entries).map Prod.fst).Nodup := by
  rw [map_fst_setEntry]
  split
  next => exact distinct
  next absent =>
    rw [List.nodup_append]
    refine ⟨distinct, by simp, ?_⟩
    intro a member b single
    rw [List.mem_singleton.mp single]
    exact fun equal => absent (equal ▸ member)

theorem entryAt_setEntry (key other : α) (value : β) (entries : List (α × β)) :
    entryAt other (setEntry key value entries) =
      if key = other then some value else entryAt other entries := by
  induction entries with
  | nil => simp [setEntry, entryAt]
  | cons entry rest ih =>
    by_cases here : entry.1 = key
    · by_cases equal : key = other
      · simp [setEntry, entryAt, here, equal]
      · simp [setEntry, entryAt, here, equal]
    · simp only [setEntry, if_neg here, entryAt, ih]
      by_cases equal : key = other
      · have apart : entry.1 ≠ other := fun h => here (h.trans equal.symm)
        simp [equal, apart]
      · simp [equal]

theorem entryAt_eq_none_iff (key : α) (entries : List (α × β)) :
    entryAt key entries = none ↔ key ∉ entries.map Prod.fst := by
  induction entries with
  | nil => simp [entryAt]
  | cons entry rest ih =>
    by_cases here : entry.1 = key
    · simp [entryAt, here]
    · have other : key ≠ entry.1 := fun equal => here equal.symm
      simp only [entryAt, if_neg here, ih, List.map_cons, List.mem_cons, other, false_or]

theorem entryAt_append (key : α) (first second : List (α × β)) :
    entryAt key (first ++ second) = (entryAt key first).or (entryAt key second) := by
  induction first with
  | nil => rfl
  | cons entry rest ih =>
    rw [List.cons_append, entryAt, entryAt, ih]
    split <;> rfl

theorem entryAt_map {γ : Type} (f : β → γ) (key : α) (entries : List (α × β)) :
    entryAt key (entries.map fun entry => (entry.1, f entry.2)) = (entryAt key entries).map f := by
  induction entries with
  | nil => rfl
  | cons entry rest ih =>
    rw [List.map_cons, entryAt, entryAt, ih]
    split <;> rfl

theorem entryAt_filter (keep : α → Bool) (key : α) (entries : List (α × β)) :
    entryAt key (entries.filter fun entry => keep entry.1) =
      if keep key then entryAt key entries else none := by
  induction entries with
  | nil => simp [entryAt]
  | cons entry rest ih =>
    by_cases here : entry.1 = key
    · cases kept : keep key with
      | true => simp [here, kept, entryAt]
      | false => simp [here, kept, ih]
    · cases kept : keep entry.1 with
      | true => simp [here, kept, entryAt, ih]
      | false => simp [here, kept, entryAt, ih]

theorem mem_of_entryAt {key : α} {value : β} {entries : List (α × β)}
    (found : entryAt key entries = some value) : (key, value) ∈ entries := by
  induction entries with
  | nil => cases found
  | cons entry rest ih =>
    rw [entryAt] at found
    split at found
    next here =>
      cases found
      exact here ▸ List.mem_cons_self
    next => exact List.mem_cons_of_mem _ (ih found)

theorem entryAt_eq_some_iff {entries : List (α × β)} (distinct : (entries.map Prod.fst).Nodup)
    {key : α} {value : β} : entryAt key entries = some value ↔ (key, value) ∈ entries := by
  refine ⟨mem_of_entryAt, fun member => ?_⟩
  induction entries with
  | nil => cases member
  | cons entry rest ih =>
    rw [List.map_cons, List.nodup_cons] at distinct
    rcases List.mem_cons.mp member with rfl | later
    · rw [entryAt, if_pos rfl]
    · have apart : entry.1 ≠ key := fun same => distinct.1 (same ▸ List.mem_map_of_mem later)
      rw [entryAt, if_neg apart, ih distinct.2 later]

/-- Where the keys are distinct, the order of the entries makes no difference. -/
theorem entryAt_reverse {entries : List (α × β)} (distinct : (entries.map Prod.fst).Nodup)
    (key : α) : entryAt key entries.reverse = entryAt key entries := by
  induction entries with
  | nil => rfl
  | cons entry rest ih =>
    rw [List.map_cons, List.nodup_cons] at distinct
    rw [List.reverse_cons, entryAt_append, ih distinct.2, entryAt, entryAt, entryAt]
    by_cases here : entry.1 = key
    · rw [if_pos here, if_pos here, (entryAt_eq_none_iff key rest).mpr (here ▸ distinct.1)]
      rfl
    · rw [if_neg here, if_neg here, Option.or_none]

end Entries

structure OrderedMap (α β : Type) where
  entries : List (α × β)
  nodup_keys : (entries.map Prod.fst).Nodup

namespace OrderedMap

variable {α β : Type}

def empty : OrderedMap α β := ⟨[], by simp⟩

instance : EmptyCollection (OrderedMap α β) := ⟨empty⟩

instance : Inhabited (OrderedMap α β) := ⟨empty⟩

def keys (map : OrderedMap α β) : List α := map.entries.map Prod.fst

def size (map : OrderedMap α β) : Nat := map.entries.length

def isEmpty (map : OrderedMap α β) : Bool := map.entries.isEmpty

theorem ext {m n : OrderedMap α β} (same : m.entries = n.entries) : m = n := by
  cases m
  cases n
  simp_all

@[simp] theorem entries_empty : (∅ : OrderedMap α β).entries = [] := rfl

variable [DecidableEq α]

def get? (map : OrderedMap α β) (key : α) : Option β := entryAt key map.entries

def contains (map : OrderedMap α β) (key : α) : Bool := (map.get? key).isSome

def insert (map : OrderedMap α β) (key : α) (value : β) : OrderedMap α β :=
  ⟨setEntry key value map.entries, nodup_setEntry key value map.nodup_keys⟩

def erase (map : OrderedMap α β) (key : α) : OrderedMap α β where
  entries := map.entries.filter fun entry => decide (entry.1 ≠ key)
  nodup_keys := map.nodup_keys.sublist (List.filter_sublist.map Prod.fst)

/-- Later entries of the list win, and each key has the place of its first mention. -/
def ofList (list : List (α × β)) : OrderedMap α β :=
  list.foldl (fun map entry => map.insert entry.1 entry.2) ∅

@[simp] theorem get?_empty (key : α) : (∅ : OrderedMap α β).get? key = none := rfl

theorem contains_iff (map : OrderedMap α β) (key : α) :
    map.contains key = true ↔ key ∈ map.keys := by
  rw [contains, ← Option.not_isNone, Bool.not_eq_true', ← Bool.not_eq_true,
    Option.isNone_iff_eq_none, get?, entryAt_eq_none_iff, Classical.not_not]
  rfl

theorem get?_eq_some_iff (map : OrderedMap α β) {key : α} {value : β} :
    map.get? key = some value ↔ (key, value) ∈ map.entries :=
  entryAt_eq_some_iff map.nodup_keys

theorem get?_insert (map : OrderedMap α β) (key other : α) (value : β) :
    (map.insert key value).get? other = if key = other then some value else map.get? other :=
  entryAt_setEntry key other value map.entries

theorem get?_foldl_insert (map : OrderedMap α β) (list : List (α × β)) (key : α) :
    (list.foldl (fun map entry => map.insert entry.1 entry.2) map).get? key =
      (entryAt key list.reverse).or (map.get? key) := by
  induction list generalizing map with
  | nil => rfl
  | cons entry rest ih =>
    rw [List.foldl_cons, ih, get?_insert, List.reverse_cons, entryAt_append, entryAt, entryAt]
    split
    next => rw [Option.or_assoc, Option.some_or]
    next => rw [Option.or_none]

/-- The last entry of the list under a key is the one that counts. -/
theorem get?_ofList (list : List (α × β)) (key : α) :
    (ofList list).get? key = entryAt key list.reverse := by
  rw [ofList, get?_foldl_insert, get?_empty, Option.or_none]

theorem keys_insert (map : OrderedMap α β) (key : α) (value : β) :
    (map.insert key value).keys = if key ∈ map.keys then map.keys else map.keys ++ [key] :=
  map_fst_setEntry key value map.entries

/-- Setting new keys one after another adds the entries at the end. -/
theorem entries_foldl_insert {γ : Type} (f : γ → β) (map : OrderedMap α β) {list : List (α × γ)}
    (distinct : (list.map Prod.fst).Nodup) (fresh : ∀ entry ∈ list, entry.1 ∉ map.keys) :
    (list.foldl (fun map entry => map.insert entry.1 (f entry.2)) map).entries =
      map.entries ++ list.map fun entry => (entry.1, f entry.2) := by
  induction list generalizing map with
  | nil => rw [List.foldl_nil, List.map_nil, List.append_nil]
  | cons entry rest ih =>
    have absent := fresh entry List.mem_cons_self
    rw [List.map_cons, List.nodup_cons] at distinct
    have still : ∀ other ∈ rest, other.1 ∉ (map.insert entry.1 (f entry.2)).keys := by
      intro other member
      rw [keys_insert, if_neg absent, List.mem_append, List.mem_singleton, not_or]
      refine ⟨fresh other (List.mem_cons_of_mem _ member), ?_⟩
      intro same
      exact distinct.1 (same ▸ List.mem_map_of_mem member)
    have added : (map.insert entry.1 (f entry.2)).entries =
        map.entries ++ [(entry.1, f entry.2)] :=
      setEntry_of_absent _ absent
    rw [List.foldl_cons, ih _ distinct.2 still, added, List.append_assoc, List.map_cons,
      List.singleton_append]

section Nested

variable {γ : Type} [DecidableEq β]

/-- The value under two keys in a map of maps. -/
def getIn? (map : OrderedMap α (OrderedMap β γ)) (outer : α) (inner : β) : Option γ :=
  (map.get? outer).bind fun values => values.get? inner

/-- Set the value under two keys. Where there is no map under the first key yet, one is made. -/
def insertIn (map : OrderedMap α (OrderedMap β γ)) (outer : α) (inner : β) (value : γ) :
    OrderedMap α (OrderedMap β γ) :=
  map.insert outer (((map.get? outer).getD ∅).insert inner value)

/-- The number of values in a map of maps. -/
def sizeIn (map : OrderedMap α (OrderedMap β γ)) : Nat :=
  map.entries.foldr (fun entry total => entry.2.size + total) 0

@[simp] theorem getIn?_empty (outer : α) (inner : β) :
    (∅ : OrderedMap α (OrderedMap β γ)).getIn? outer inner = none := rfl

theorem getIn?_insertIn (map : OrderedMap α (OrderedMap β γ)) (outer other : α)
    (inner other' : β) (value : γ) :
    (map.insertIn outer inner value).getIn? other other' =
      if outer = other ∧ inner = other' then some value else map.getIn? other other' := by
  rw [getIn?, insertIn, get?_insert, getIn?]
  by_cases same : outer = other
  · rw [if_pos same, Option.bind_some, get?_insert, same]
    cases map.get? other <;> simp
  · rw [if_neg same, if_neg fun both => same both.1]

end Nested

end OrderedMap

end Monomorph
