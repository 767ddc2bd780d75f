import Monomorph.CompilationUnit.Merge
import Monomorph.Generic.Draft
import Monomorph.Reply

/-!
A workspace of named compilation units. Registrations are numbered across the whole
workspace, so a declaration that one unit takes over from another stays recognisable
when the two are merged. A unit may have several holders, and only a unit with one
holder can be merged into another.
-/

namespace Monomorph

structure Seat where
  unit : CompilationUnit
  /-- Holders beyond the first. -/
  extraHandles : Nat

structure Workspace where
  seats : OrderedMap String Seat
  nextSerial : Nat

namespace Workspace

/-- Questions about one unit. -/
inductive Query where
  | policy
  | names
  | lookup (name : String)
  | entry (id : Nat)
  | entries
  | entriesOf (generic : String)
  | substitutable (subtyping : Subtyping) (actual expected : Nat)
  | artifacts
  | artifact (name : String)
  | held
  | emissionOrder
  | emissionIds
  | children (id : Nat)
  | faults
  | hasFaults
  | reports (source : Option (String × String))

def Query.answer (unit : CompilationUnit) : Query → Reply
  | .policy => .policy unit.policy
  | .names => .names unit.catalog.names
  | .lookup name => .generic (unit.catalog.generic? name)
  | .entry id => .entry (unit.table.get? id)
  | .entries => .entries unit.instances
  | .entriesOf generic => .entries (unit.table.instancesOf generic)
  | .substitutable subtyping actual expected =>
      .comparison (unit.substitutable subtyping actual expected)
  | .artifacts => .artifacts unit.artifacts
  | .artifact name => .artifact (unit.store.find? name)
  | .held => .held unit.store.size
  | .emissionOrder => .symbolGroups unit.emissionOrder
  | .emissionIds => .idGroups unit.table.emissionOrder
  | .children id => .ids (unit.table.children id)
  | .faults => .faults unit.faults
  | .hasFaults => .flag (!unit.faults.isEmpty)
  | .reports source => .reports (unit.reports source)

/-- Changes of one unit on its own. -/
inductive Action where
  | request (request : Request)
  | requestWithDefaults (request : Request)
  | sweep
  | takeArtifacts
  | takeFaults

def Action.perform (unit : CompilationUnit) : Action → Reply × CompilationUnit
  | .request wanted =>
      let (outcome, unit) := unit.request wanted
      (.outcome outcome, unit)
  | .requestWithDefaults wanted =>
      let (outcome, unit) := unit.requestWithDefaults wanted
      (.outcome outcome, unit)
  | .sweep =>
      let (made, unit) := unit.sweep
      (.artifacts made, unit)
  | .takeArtifacts =>
      let (taken, unit) := unit.takeArtifacts
      (.artifacts taken, unit)
  | .takeFaults =>
      let (taken, unit) := unit.takeFaults
      (.faults taken, unit)

inductive Command where
  /-- Start over with an empty unit. -/
  | open (traits : TraitAuthority) (policy : Policy)
  | query (query : Query)
  | action (action : Action)
  | register (name : String) (items : List Generic.Item)
  /-- Register the declaration that another unit has under a name. -/
  | share (source name : String)
  /-- Compare the declarations that two units have under a name. -/
  | compare (other name : String)
  | merge (other : String)
  | addHandle
  | dropHandle

/-- A workspace with one empty unit. -/
def start (name : String) (traits : TraitAuthority) (policy : Policy) : Workspace :=
  ⟨OrderedMap.empty.insert name ⟨.empty traits policy, 0⟩, 0⟩

def setSeat (workspace : Workspace) (name : String) (seat : Seat) : Workspace :=
  { workspace with seats := workspace.seats.insert name seat }

/-- Register in a unit of the workspace. -/
def registerIn (workspace : Workspace) (name : String) (seat : Seat) (shared : SharedGeneric) :
    Reply × Workspace :=
  let (outcome, unit) := seat.unit.register shared
  let reply :=
    match outcome with
    | .ok shared => Reply.registered shared.generic
    | .error fault => .fault fault
  (reply, workspace.setSeat name { seat with unit := unit })

def registerNew (workspace : Workspace) (name : String) (seat : Seat) (generic : Generic) :
    Reply × Workspace :=
  let serial := workspace.nextSerial
  { workspace with nextSerial := serial + 1 }.registerIn name seat ⟨serial, generic⟩

def compare (workspace : Workspace) (seat : Seat) (other name : String) : Reply :=
  match workspace.seats.get? other with
  | none => .noUnit
  | some otherSeat =>
      match seat.unit.catalog.find? name, otherSeat.unit.catalog.find? name with
      | some left, some right =>
          .sameness (decide (left = right)) (decide (left.generic = right.generic))
      | _, _ => .noGeneric

/-- A unit is merged into another one, and then it is gone. -/
def mergeInto (workspace : Workspace) (name : String) (seat : Seat) (other : String) :
    Reply × Workspace :=
  if other = name then (.noUnit, workspace)
  else
    match workspace.seats.get? other with
    | none => (.noUnit, workspace)
    | some otherSeat =>
        if otherSeat.extraHandles = 0 then
          let merged := { seat with unit := seat.unit.merge otherSeat.unit }
          (.merged, { workspace with seats := (workspace.seats.erase other).insert name merged })
        else (.stillShared, workspace)

/-- Carry out a command on the unit of the given name. -/
def step (workspace : Workspace) (name : String) (command : Command) : Reply × Workspace :=
  match command, workspace.seats.get? name with
  | .open traits policy, _ => (.done, workspace.setSeat name ⟨.empty traits policy, 0⟩)
  | _, none => (.noUnit, workspace)
  | .query query, some seat => (query.answer seat.unit, workspace)
  | .action action, some seat =>
      let (reply, unit) := action.perform seat.unit
      (reply, workspace.setSeat name { seat with unit := unit })
  | .register generic items, some seat =>
      match Generic.draft generic items with
      | .error fault => (.undrafted fault, workspace)
      | .ok generic => workspace.registerNew name seat generic
  | .share source generic, some seat =>
      match workspace.seats.get? source with
      | none => (.noUnit, workspace)
      | some sourceSeat =>
          match sourceSeat.unit.catalog.find? generic with
          | none => (.noGeneric, workspace)
          | some shared => workspace.registerIn name seat shared
  | .compare other generic, some seat => (workspace.compare seat other generic, workspace)
  | .merge other, some seat => workspace.mergeInto name seat other
  | .addHandle, some seat =>
      let count := seat.extraHandles + 1
      (.handles count, workspace.setSeat name { seat with extraHandles := count })
  | .dropHandle, some seat =>
      let count := seat.extraHandles - 1
      (.handles count, workspace.setSeat name { seat with extraHandles := count })

/-- How many declarations, instances, faults and held artifacts a unit has. -/
def counts? (workspace : Workspace) (name : String) : Option (List Nat) :=
  (workspace.seats.get? name).map fun seat =>
    [seat.unit.catalog.size, seat.unit.table.size, seat.unit.faults.length, seat.unit.store.size]

end Workspace

end Monomorph
