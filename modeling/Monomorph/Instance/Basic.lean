import Monomorph.Fault.Basic
import Monomorph.Graph.Components
import Monomorph.OrderedMap
import Monomorph.Policy.Basic

/-!
Instances of generics and the table that interns them. An instance is known by its
place in the table, and a generic with given arguments has one place only. Beside the
instances the table keeps which of them asked for which, and every fault so far.
-/

namespace Monomorph

/-- A generic with arguments that were found valid for it. -/
structure Instance where
  id : Nat
  generic : String
  arguments : List Ty
  /-- An artifact was made for this instance. It stays so. -/
  emitted : Bool
  span : Option Span
  /-- How many requests lead from a root to this instance. -/
  depth : Nat
  requestedBy : Option Nat
deriving DecidableEq

structure InstanceTable where
  policy : Policy
  instances : List Instance
  /-- The places of each generic's instances. -/
  places : OrderedMap String (List Nat)
  faults : List Fault
  /-- An edge leads from an instance to those its expansion needs. -/
  expansion : Graph

namespace InstanceTable

def empty (policy : Policy) : InstanceTable := ⟨policy, [], ∅, [], .empty⟩

def size (table : InstanceTable) : Nat := table.instances.length

def get? (table : InstanceTable) (id : Nat) : Option Instance := table.instances[id]?

def placesOf (table : InstanceTable) (generic : String) : List Nat :=
  (table.places.get? generic).getD []

/-- The instances of a generic in the order of their creation. -/
def instancesOf (table : InstanceTable) (generic : String) : List Instance :=
  (table.placesOf generic).filterMap table.get?

/-- Where a generic with these arguments is, if it was instantiated before. -/
def interned? (table : InstanceTable) (generic : String) (arguments : List Ty) : Option Nat :=
  (table.placesOf generic).find? fun id =>
    (table.get? id).any fun entry => decide (entry.arguments = arguments)

/-- Enter an instance at the next place. -/
def push (table : InstanceTable) (entry : Instance) : InstanceTable :=
  { table with
    instances := table.instances ++ [entry]
    places := table.places.insert entry.generic (table.placesOf entry.generic ++ [entry.id])
    expansion := table.expansion.addNode }

def addExpansion (table : InstanceTable) (parent child : Nat) : InstanceTable :=
  { table with expansion := table.expansion.addEdge parent child }

/-- Note that the expansion of `parent`, if there is one, needs `child`. -/
def linkParent (table : InstanceTable) (parent : Option Nat) (child : Nat) : InstanceTable :=
  match parent with
  | none => table
  | some parent => table.addExpansion parent child

def record (table : InstanceTable) (fault : Fault) : InstanceTable :=
  { table with faults := table.faults ++ [fault] }

def takeFaults (table : InstanceTable) : List Fault × InstanceTable :=
  (table.faults, { table with faults := [] })

/-- The places of the instances that wait for an artifact, in ascending order. -/
def pending (table : InstanceTable) : List Nat :=
  (table.instances.filter fun entry => !entry.emitted).map Instance.id

def markEmitted (table : InstanceTable) (id : Nat) : InstanceTable :=
  { table with
    instances := table.instances.modify id fun entry => { entry with emitted := true } }

/-- Groups of instances that need each other, each group after those it needs. -/
def emissionOrder (table : InstanceTable) : List (List Nat) := table.expansion.components

def children (table : InstanceTable) (id : Nat) : List Nat := table.expansion.children id

section Views

variable (table : InstanceTable) (entry : Instance) (fault : Fault) (parent child id : Nat)

@[simp] theorem instances_push : (table.push entry).instances = table.instances ++ [entry] := rfl

@[simp] theorem policy_push : (table.push entry).policy = table.policy := rfl

@[simp] theorem faults_push : (table.push entry).faults = table.faults := rfl

@[simp] theorem expansion_push : (table.push entry).expansion = table.expansion.addNode := rfl

theorem placesOf_push (generic : String) :
    (table.push entry).placesOf generic =
      if entry.generic = generic then table.placesOf generic ++ [entry.id]
      else table.placesOf generic := by
  unfold placesOf push
  rw [OrderedMap.get?_insert]
  split
  next same => subst same; rfl
  next => rfl

@[simp] theorem instances_record : (table.record fault).instances = table.instances := rfl

@[simp] theorem faults_record : (table.record fault).faults = table.faults ++ [fault] := rfl

@[simp] theorem instances_addExpansion :
    (table.addExpansion parent child).instances = table.instances := rfl

@[simp] theorem faults_addExpansion :
    (table.addExpansion parent child).faults = table.faults := rfl

@[simp] theorem faults_markEmitted : (table.markEmitted id).faults = table.faults := rfl

@[simp] theorem expansion_markEmitted :
    (table.markEmitted id).expansion = table.expansion := rfl

theorem get?_markEmitted (other : Nat) :
    (table.markEmitted id).get? other =
      if id = other then (table.get? other).map fun entry => { entry with emitted := true }
      else table.get? other := by
  unfold markEmitted get?
  rw [List.getElem?_modify]
  split <;> simp

end Views

end InstanceTable

end Monomorph
