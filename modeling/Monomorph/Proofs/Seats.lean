import Monomorph.Proofs.Reachable
import Monomorph.Workspace

/-!
The units of a workspace. Whatever commands a workspace carries out, every unit in it came
about by changes of an empty one, so what holds of all reachable units holds there.
-/

namespace Monomorph

theorem OrderedMap.get?_erase {α β : Type} [DecidableEq α] (map : OrderedMap α β)
    (key other : α) :
    (map.erase key).get? other = if key = other then none else map.get? other := by
  change entryAt other (map.entries.filter _) = _
  rw [entryAt_filter fun name => decide (name ≠ key)]
  by_cases same : key = other
  · rw [if_pos same, if_neg (by simp [same])]
  · rw [if_neg same, if_pos (by simpa using Ne.symm same)]
    rfl

namespace Workspace

open CompilationUnit

variable {workspace : Workspace}

/-- Every unit of the workspace can be reached from an empty one. -/
def AllReachable (workspace : Workspace) : Prop :=
  ∀ name seat, workspace.seats.get? name = some seat → seat.unit.Reachable

theorem AllReachable.setSeat (all : workspace.AllReachable) (name : String) {seat : Seat}
    (reached : seat.unit.Reachable) : (workspace.setSeat name seat).AllReachable := by
  intro other found there
  change (workspace.seats.insert name seat).get? other = some found at there
  rw [OrderedMap.get?_insert] at there
  split at there
  next =>
    cases there
    exact reached
  next => exact all other found there

theorem allReachable_start (name : String) (traits : TraitAuthority) (policy : Policy) :
    (start name traits policy).AllReachable := by
  have none : AllReachable ⟨.empty, 0⟩ := by
    intro other seat found
    cases found
  exact none.setSeat name (.empty traits policy)

theorem reachable_perform {unit : CompilationUnit} (reached : unit.Reachable) (action : Action) :
    (action.perform unit).2.Reachable := by
  cases action with
  | request request => exact reached.change (.request request) nofun
  | requestWithDefaults request => exact reached.change (.requestWithDefaults request) nofun
  | sweep => exact reached.change .sweep nofun
  | takeArtifacts => exact reached.change .takeArtifacts nofun
  | takeFaults => exact reached.change .takeFaults nofun

theorem AllReachable.registerIn (all : workspace.AllReachable) (name : String) {seat : Seat}
    (reached : seat.unit.Reachable) (shared : SharedGeneric) :
    (workspace.registerIn name seat shared).2.AllReachable :=
  all.setSeat name (reached.change (.register shared) nofun)

theorem AllReachable.mergeInto (all : workspace.AllReachable) (name : String) {seat : Seat}
    (reached : seat.unit.Reachable) (other : String) :
    (workspace.mergeInto name seat other).2.AllReachable := by
  unfold Workspace.mergeInto
  split
  next => exact all
  next =>
    split
    next => exact all
    next otherSeat found =>
      split
      next =>
        have left : AllReachable { workspace with seats := workspace.seats.erase other } := by
          intro third seat there
          change (workspace.seats.erase other).get? third = some seat at there
          rw [OrderedMap.get?_erase] at there
          split at there
          next => cases there
          next => exact all third seat there
        apply left.setSeat name
        apply reached.change (.merge otherSeat.unit)
        intro merged same
        cases same
        exact all other otherSeat found
      next => exact all

theorem AllReachable.step (all : workspace.AllReachable) (name : String) (command : Command) :
    (workspace.step name command).2.AllReachable := by
  unfold Workspace.step
  split
  next _ traits policy => exact all.setSeat name (.empty traits policy)
  next => exact all
  next => exact all
  next action seat found => exact all.setSeat name (reachable_perform (all name seat found) action)
  next seat found =>
    split
    next => exact all
    next =>
      have numbered : AllReachable { workspace with nextSerial := workspace.nextSerial + 1 } := all
      exact numbered.registerIn name (all name seat found) _
  next seat found =>
    split
    next => exact all
    next =>
      split
      next => exact all
      next shared _ => exact all.registerIn name (all name seat found) shared
  next => exact all
  next other seat found => exact all.mergeInto name (all name seat found) other
  next seat found => exact all.setSeat name (all name seat found)
  next seat found => exact all.setSeat name (all name seat found)

/-- The units of a workspace are reachable after any sequence of commands. -/
theorem allReachable_run (first : String) (traits : TraitAuthority) (policy : Policy)
    (commands : List (String × Command)) :
    (commands.foldl (fun workspace command => (workspace.step command.1 command.2).2)
      (start first traits policy)).AllReachable :=
  List.foldlRecOn (motive := AllReachable) commands _ (allReachable_start first traits policy)
    fun _ all command _ => all.step command.1 command.2

end Workspace

end Monomorph
