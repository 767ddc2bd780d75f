import Monomorph.Proofs.Answers
import Monomorph.Proofs.Growth

/-!
What is entered stays. Along every run of a unit an instance keeps its place and all that it was
entered with, and an edge keeps its place among the edges. The mark of an instance is the one
thing that changes, it is set once and for good, and it is a sweep or a merge that sets it.
-/

namespace Monomorph

/-- A mark that is not what it was has been set. -/
theorem Instance.Becomes.turned {entry later : Instance} (becomes : entry.Becomes later)
    (changed : entry.emitted ≠ later.emitted) :
    entry.emitted = false ∧ later.emitted = true := by
  cases before : entry.emitted with
  | true => exact absurd (before.trans (becomes.marked before).symm) changed
  | false =>
    rw [before] at changed
    exact ⟨rfl, Bool.eq_true_of_not_eq_false changed.symm⟩

namespace CompilationUnit

/-- Sweeps and merges are the changes that can mark instances. -/
def Change.mayMark : Change → Bool
  | .sweep | .merge _ => true
  | .register _ | .request _ | .requestWithDefaults _ | .takeArtifacts | .takeFaults => false

theorem Change.mayMark_iff (change : Change) :
    change.mayMark = true ↔ change = .sweep ∨ ∃ other, change = .merge other := by
  cases change <;> simp [mayMark]

variable {unit : CompilationUnit}

theorem prefix_request (request : Request) :
    unit.instances <+: (unit.request request).2.instances := by
  unfold CompilationUnit.request instances
  rcases unit.table.request_cases unit.catalog unit.traits request with
    ⟨fault, same⟩ | ⟨_, ⟨id, _, same⟩ | ⟨_, _, same⟩⟩
  · rw [same]
    exact List.prefix_refl _
  · rw [same]
    exact ⟨[], (List.append_nil _).trans (InstanceTable.instances_linkParent _ _ _).symm⟩
  · rw [same, InstanceTable.instances_linkParent]
    exact List.prefix_append _ _

/-- Other changes leave the list of instances as it is, marks included, and add to its end. -/
theorem prefix_after {change : Change} (unmarking : change.mayMark = false) :
    unit.instances <+: (unit.after change).instances := by
  cases change with
  | register shared =>
    change unit.instances <+: (unit.register shared).2.instances
    unfold register
    split
    next => exact List.prefix_refl _
    next => exact List.prefix_refl _
  | request request => exact prefix_request request
  | requestWithDefaults request => exact prefix_request (request.withDefaults unit.catalog)
  | takeArtifacts => exact List.prefix_refl _
  | takeFaults => exact List.prefix_refl _
  | sweep => cases unmarking
  | merge other => cases unmarking

variable {id : Nat} {entry later : Instance}

theorem mayMark_of_marked {change : Change} (found : unit.table.get? id = some entry)
    (foundLater : (unit.after change).table.get? id = some later)
    (unmarked : entry.emitted = false) (marked : later.emitted = true) :
    change.mayMark = true := by
  by_contra cannot
  have extended : unit.instances <+: (unit.after change).instances :=
    prefix_after (Bool.eq_false_iff.mpr cannot)
  obtain ⟨added, instances⟩ := extended
  have below : id < unit.instances.length := (List.getElem?_eq_some_iff.mp found).1
  have kept : (unit.after change).table.get? id = some entry := by
    change (unit.after change).instances[id]? = some entry
    rw [← instances, List.getElem?_append_left below]
    exact found
  rw [kept] at foundLater
  cases foundLater
  rw [unmarked] at marked
  cases marked

/-- The instance at a place is unmarked before the change and marked after it. -/
def MarkedBy (unit : CompilationUnit) (id : Nat) (change : Change) : Prop :=
  (∃ before, unit.table.get? id = some before ∧ before.emitted = false) ∧
    ∃ after, (unit.after change).table.get? id = some after ∧ after.emitted = true

/-- A mark that is set along a run is set by one of its changes. -/
theorem markedBy_of_afterAll {changes : List Change} (found : unit.table.get? id = some entry)
    (foundLater : (unit.afterAll changes).table.get? id = some later)
    (unmarked : entry.emitted = false) (marked : later.emitted = true) :
    ∃ before change rest, changes = before ++ change :: rest ∧ change.mayMark = true ∧
      (unit.afterAll before).MarkedBy id change := by
  induction changes generalizing unit entry with
  | nil =>
    change unit.table.get? id = some later at foundLater
    rw [found] at foundLater
    cases foundLater
    rw [unmarked] at marked
    cases marked
  | cons change rest ih =>
    obtain ⟨next, foundNext, _⟩ :=
      InstanceTable.grows_of_steps (unit.steps_after change) id entry found
    cases now : next.emitted with
    | true =>
      refine ⟨[], change, rest, rfl, mayMark_of_marked found foundNext unmarked now, ?_⟩
      exact ⟨⟨entry, found, unmarked⟩, next, foundNext, now⟩
    | false =>
      obtain ⟨before, setter, others, split, may, set⟩ := ih foundNext foundLater now
      exact ⟨change :: before, setter, others, congrArg (change :: ·) split, may, set⟩

/-- Whatever happens to a unit, an instance stays at its place with all its data, and its mark is
never removed; only a sweep or a merge sets it. Edges stay in the order they were added in. The
same holds along every run, where a mark that was set was set by one sweep or merge of the run. -/
theorem instances_permanent (unit : CompilationUnit) :
    (∀ change id entry, unit.table.get? id = some entry →
      ∃ later, (unit.after change).table.get? id = some later ∧
        later = { entry with emitted := later.emitted } ∧
        (entry.emitted = true → later.emitted = true) ∧
        (entry.emitted ≠ later.emitted → change = .sweep ∨ ∃ other, change = .merge other)) ∧
    (∀ change, unit.table.expansion.edges <+: (unit.after change).table.expansion.edges) ∧
    ∀ changes, unit.table.expansion.edges <+: (unit.afterAll changes).table.expansion.edges ∧
      ∀ id entry, unit.table.get? id = some entry →
        ∃ later, (unit.afterAll changes).table.get? id = some later ∧
          later = { entry with emitted := later.emitted } ∧
          (entry.emitted = true → later.emitted = true) ∧
          (entry.emitted ≠ later.emitted → ∃ before change rest,
            changes = before ++ change :: rest ∧
            (change = .sweep ∨ ∃ other, change = .merge other) ∧
            (unit.afterAll before).MarkedBy id change) := by
  refine ⟨?_, ?_, ?_⟩
  · intro change id entry found
    obtain ⟨later, foundLater, becomes⟩ :=
      InstanceTable.grows_of_steps (unit.steps_after change) id entry found
    refine ⟨later, foundLater, becomes.same, becomes.marked, ?_⟩
    intro changed
    obtain ⟨unmarked, marked⟩ := becomes.turned changed
    exact change.mayMark_iff.mp (mayMark_of_marked found foundLater unmarked marked)
  · intro change
    exact InstanceTable.edges_of_steps (unit.steps_after change)
  · intro changes
    refine ⟨InstanceTable.edges_of_steps (unit.steps_afterAll changes), ?_⟩
    intro id entry found
    obtain ⟨later, foundLater, becomes⟩ :=
      InstanceTable.grows_of_steps (unit.steps_afterAll changes) id entry found
    refine ⟨later, foundLater, becomes.same, becomes.marked, ?_⟩
    intro changed
    obtain ⟨unmarked, marked⟩ := becomes.turned changed
    obtain ⟨before, change, rest, split, may, set⟩ :=
      markedBy_of_afterAll found foundLater unmarked marked
    exact ⟨before, change, rest, split, change.mayMark_iff.mp may, set⟩

section Boxes

/-- A box that was asked for on its own, and waits for its artifact. -/
def rootBox : CompilationUnit :=
  (empty .lenient .standard).afterAll
    [.register box, .request ⟨"Box", [.prim .int], some ⟨3, 7⟩, none⟩]

/-- The same box asked for elsewhere and by another one, with its artifact made. -/
def innerBox : CompilationUnit :=
  (empty .lenient .standard).afterAll
    [.register box, boxOf .bool, .request ⟨"Box", [.prim .int], some ⟨8, 9⟩, some 0⟩, .sweep]

/-- A merge sets the mark, and what the other unit says apart from it does not count. -/
theorem rootBox_permanent :
    innerBox.table.get? 1 = some ⟨1, "Box", [.prim .int], true, some ⟨8, 9⟩, 1, some 0⟩ ∧
    rootBox.table.get? 0 = some ⟨0, "Box", [.prim .int], false, some ⟨3, 7⟩, 0, none⟩ ∧
    (rootBox.after (.merge innerBox)).table.get? 0 =
      some ⟨0, "Box", [.prim .int], true, some ⟨3, 7⟩, 0, none⟩ ∧
    rootBox.table.expansion.edges <+:
      (rootBox.afterAll [.merge innerBox, .takeArtifacts]).table.expansion.edges := by
  have found : rootBox.table.get? 0 =
      some ⟨0, "Box", [.prim .int], false, some ⟨3, 7⟩, 0, none⟩ := by decide
  obtain ⟨step, _, run⟩ := instances_permanent rootBox
  obtain ⟨later, foundLater, same, _⟩ := step (.merge innerBox) 0 _ found
  have marked : (rootBox.after (.merge innerBox)).table.get? 0 |>.any Instance.emitted := by
    decide
  rw [foundLater, Option.any_some] at marked
  rw [marked] at same
  exact ⟨by decide, found, foundLater.trans (congrArg some same), (run _).1⟩

end Boxes

end CompilationUnit

end Monomorph
