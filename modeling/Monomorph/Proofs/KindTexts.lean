import Monomorph.Proofs.Verdicts

/-!
The texts of kinds. A text is read from the left: a star or an opening bracket, and behind it an
arrow or nothing. A domain that is an arrow itself is read up to the bracket that closes it, and a
codomain has no bracket but goes on to the end of the whole text. Behind a whole text there may be
a bracket or a comma, but never a blank, and a text that goes on does so with a blank; so it can
be told where a text ends, and no two kinds have the same one.

A message that tells a kind from the one that was expected therefore shows two different texts,
and both kinds can be read off it.
-/

namespace Monomorph

namespace Kind

section Texts

/-- What stands between a domain and a codomain. -/
def arrowText : List Char := [' ', '-', '>', ' ']

/-- The text of a kind as a domain. -/
def domainText : Kind → List Char
  | .star => ['*']
  | .arrow domain codomain => '(' :: ((arrow domain codomain).display.toList ++ [')'])

theorem toList_display_arrow (domain codomain : Kind) :
    (arrow domain codomain).display.toList =
      domain.domainText ++ (arrowText ++ codomain.display.toList) := by
  cases domain <;> simp [display, domainText, arrowText]

/-- The text can stand behind that of a whole kind. A blank would begin an arrow. -/
def Stops (text : List Char) : Prop := ' ' ∉ text.head?

theorem stops_nil : Stops [] := by
  simp [Stops]

theorem stops_cons {c : Char} (visible : c ≠ ' ') (rest : List Char) : Stops (c :: rest) := by
  simpa [Stops] using visible

theorem star_append_ne {r : List Char} (endR : Stops r) (domain codomain : Kind) (s : List Char) :
    star.display.toList ++ r ≠ (arrow domain codomain).display.toList ++ s := by
  intro same
  rw [toList_display_arrow, List.append_assoc] at same
  cases domain with
  | star =>
    have goesOn : r = arrowText ++ codomain.display.toList ++ s := (List.cons.inj same).2
    rw [goesOn] at endR
    exact endR rfl
  | arrow domain range => cases (List.cons.inj same).1

/-- The text of the kind can be told from every other one, and so can its end. -/
def Legible (kind : Kind) : Prop :=
  ∀ {other : Kind} {r s : List Char}, Stops r → Stops s →
    kind.display.toList ++ r = other.display.toList ++ s → kind = other ∧ r = s

/-- A domain ends with its star or its bracket, whatever stands behind it. -/
theorem Legible.domainText_append_inj {kind other : Kind} (legible : kind.Legible)
    {r s : List Char} (same : kind.domainText ++ r = other.domainText ++ s) :
    kind = other ∧ r = s := by
  cases kind with
  | star =>
    cases other with
    | star => exact ⟨rfl, (List.cons.inj same).2⟩
    | arrow domain codomain => cases (List.cons.inj same).1
  | arrow domain codomain =>
    cases other with
    | star => cases (List.cons.inj same).1
    | arrow domain' codomain' =>
      have bracket (rest : List Char) : Stops (')' :: rest) := stops_cons (by decide) rest
      simp only [domainText, List.cons_append, List.append_assoc, List.nil_append] at same
      obtain ⟨kinds, closed⟩ := legible (bracket r) (bracket s) (List.cons.inj same).2
      exact ⟨kinds, (List.cons.inj closed).2⟩

theorem legible (kind : Kind) : kind.Legible := by
  induction kind with
  | star =>
    intro other r s endR _ same
    cases other with
    | star => exact ⟨rfl, (List.cons.inj same).2⟩
    | arrow domain codomain => exact absurd same (star_append_ne endR domain codomain s)
  | arrow domain codomain ihDomain ihCodomain =>
    intro other r s endR endS same
    cases other with
    | star => exact absurd same.symm (star_append_ne endS domain codomain r)
    | arrow domain' codomain' =>
      simp only [toList_display_arrow, List.append_assoc] at same
      obtain ⟨domains, behind⟩ := ihDomain.domainText_append_inj same
      -- The codomain has no bracket: its text ends where the whole text does.
      obtain ⟨codomains, rests⟩ := ihCodomain endR endS (List.append_cancel_left behind)
      exact ⟨by rw [domains, codomains], rests⟩

theorem display_inj {kind other : Kind} : kind.display = other.display ↔ kind = other := by
  refine ⟨fun same => ?_, congrArg display⟩
  exact (legible kind stops_nil stops_nil (by rw [same])).1

end Texts

end Kind

namespace Rejection

theorem toList_message (expected found : Kind) :
    (kindMismatch expected found).message.toList = "expected a type of kind ".toList ++
      (expected.display.toList ++ (", found kind ".toList ++ found.display.toList)) := by
  change ("expected a type of kind " ++ expected.display ++ ", found kind " ++
    found.display).toList = _
  simp only [String.toList_append, List.append_assoc]

/-- Both kinds of a mismatch can be read off its message. -/
theorem message_kindMismatch_inj {expected found expected' found' : Kind} :
    (kindMismatch expected found).message = (kindMismatch expected' found').message ↔
      expected = expected' ∧ found = found' := by
  refine ⟨fun same => ?_, fun same => by rw [same.1, same.2]⟩
  have texts := congrArg String.toList same
  rw [toList_message, toList_message] at texts
  have comma (rest : List Char) : Kind.Stops (", found kind ".toList ++ rest) :=
    Kind.stops_cons (by decide) _
  obtain ⟨first, behind⟩ :=
    expected.legible (comma _) (comma _) (List.append_cancel_left texts)
  exact ⟨first, Kind.display_inj.mp (String.toList_inj.mp (List.append_cancel_left behind))⟩

end Rejection

namespace Request

/-- A requirement that is denied is not a matter of an argument in itself. -/
theorem fault_ne_invalidArgument {request : Request} {generic : Generic}
    {σ : String → Option Ty} {requirement : Requirement}
    (member : requirement ∈ request.requirements σ generic)
    (name parameter : String) (argument : Ty) (reason : Rejection) (place : Option Extent) :
    requirement.fault ≠ .invalidArgument name parameter argument reason place := by
  intro same
  rw [requirements, List.mem_append, List.mem_flatMap, List.mem_flatMap] at member
  rcases member with ⟨pair, _, bounds⟩ | ⟨clause, _, traits⟩
  · obtain ⟨bound, _, rfl⟩ := List.mem_map.mp bounds
    cases same
  · obtain ⟨trait, _, rfl⟩ := List.mem_map.mp traits
    cases same

end Request

namespace InstanceTable

/-- A request that fails for an argument in itself has an argument that is refused so. -/
theorem refuses_of_answer {table : InstanceTable} {catalog : Catalog} {traits : TraitAuthority}
    {request : Request} {name parameter : String} {argument : Ty} {reason : Rejection}
    {place : Option Extent} (answered : (table.request catalog traits request).1.answer =
      .error (.invalidArgument name parameter argument reason place)) :
    ∃ declared, Request.Refuses table.policy declared argument reason := by
  obtain ⟨answer, asked, decided⟩ := table.exists_decides catalog traits request
  rw [decided.sound] at answered
  cases decided with
  | refused judged =>
    cases judged with
    | invalid _ _ _ _ refused =>
      cases answered
      exact ⟨_, refused⟩
    | unmet shaped turn _ _ =>
      have member : _ ∈ request.requirements _ _ :=
        turn ▸ List.mem_append_right _ List.mem_cons_self
      exact absurd (Except.error.inj answered) (Request.fault_ne_invalidArgument member _ _ _ _ _)
    | _ => cases answered
  | _ => cases answered

end InstanceTable

namespace Kind

/-- The texts of two kinds are equal exactly if the kinds are, however their arrows are nested. So
the message of a mismatch determines both its kinds, and a request that is refused for the kind of
an argument is answered with two kinds that have different texts. -/
theorem displays_unambiguous :
    (∀ kind other : Kind, kind.display = other.display ↔ kind = other) ∧
    (∀ expected found expected' found', (Rejection.kindMismatch expected found).message =
      (Rejection.kindMismatch expected' found').message ↔
        expected = expected' ∧ found = found') ∧
    ∀ (table : InstanceTable) catalog traits request name parameter argument expected found place,
      (table.request catalog traits request).1.answer =
        .error (.invalidArgument name parameter argument (.kindMismatch expected found) place) →
      expected.display ≠ found.display := by
  refine ⟨fun _ _ => display_inj, fun _ _ _ _ => Rejection.message_kindMismatch_inj, ?_⟩
  intro table catalog traits request name parameter argument expected found place answered
  obtain ⟨declared, refused⟩ := InstanceTable.refuses_of_answer answered
  cases refused with
  | kindMismatch _ _ _ _ different => exact mt display_inj.mp different

/-- A generic over what takes a type constructor. -/
def lifting : SharedGeneric :=
  ⟨11, { Generic.bare "Lift" with
    parameters := [⟨"M", [], none, none, none, some (.arrow (.ofArity 1) .star)⟩] }⟩

theorem lifting_displays :
    ((InstanceTable.empty .standard).request ⟨[lifting]⟩ .lenient
      ⟨"Lift", [.ctor "Pair" 2], none, none⟩).1.answer =
      .error (.invalidArgument "Lift" "M" (.ctor "Pair" 2)
        (.kindMismatch (.arrow (.ofArity 1) .star) (.ofArity 2)) none) ∧
    (Kind.arrow (.ofArity 1) .star).display ≠ (Kind.ofArity 2).display := by
  have answered : ((InstanceTable.empty .standard).request ⟨[lifting]⟩ .lenient
      ⟨"Lift", [.ctor "Pair" 2], none, none⟩).1.answer =
      .error (.invalidArgument "Lift" "M" (.ctor "Pair" 2)
        (.kindMismatch (.arrow (.ofArity 1) .star) (.ofArity 2)) none) := rfl
  obtain ⟨_, _, apart⟩ := displays_unambiguous
  exact ⟨answered, apart _ _ _ _ _ _ _ _ _ _ answered⟩

end Kind

end Monomorph
