import Monomorph.Artifact
import Monomorph.Fault.Report
import Monomorph.Instance.Request

/-!
A compilation unit: the declarations, instances and artifacts of one piece of a
program, with the trait authority and the policy its requests are judged by. Units do
not affect each other unless one is merged into another.
-/

namespace Monomorph

structure CompilationUnit where
  traits : TraitAuthority
  catalog : Catalog
  table : InstanceTable
  store : ArtifactStore

namespace CompilationUnit

def empty (traits : TraitAuthority) (policy : Policy) : CompilationUnit :=
  ⟨traits, .empty, .empty policy, .empty⟩

def policy (unit : CompilationUnit) : Policy := unit.table.policy

def instances (unit : CompilationUnit) : List Instance := unit.table.instances

def faults (unit : CompilationUnit) : List Fault := unit.table.faults

def artifacts (unit : CompilationUnit) : List Artifact := unit.store.held

/-- Register a declaration. A name that is taken already is a fault, which is recorded. -/
def register (unit : CompilationUnit) (shared : SharedGeneric) :
    Except Fault SharedGeneric × CompilationUnit :=
  match unit.catalog.register shared with
  | .ok catalog => (.ok shared, { unit with catalog := catalog })
  | .error fault => (.error fault, { unit with table := unit.table.record fault })

def request (unit : CompilationUnit) (request : Request) :
    Inquiry TraitQuestion (Except Fault Nat) × CompilationUnit :=
  let (outcome, table) := unit.table.request unit.catalog unit.traits request
  (outcome, { unit with table := table })

/-- A request that may leave out trailing arguments which have a default. -/
def requestWithDefaults (unit : CompilationUnit) (request : Request) :
    Inquiry TraitQuestion (Except Fault Nat) × CompilationUnit :=
  unit.request (request.withDefaults unit.catalog)

def substitutable (unit : CompilationUnit) (subtyping : Subtyping) (actual expected : Nat) :
    Inquiry SubtypeQuestion Bool :=
  unit.table.substitutable unit.catalog subtyping actual expected

/-- Make the artifacts that are missing, and give those of this sweep. -/
def sweep (unit : CompilationUnit) : List Artifact × CompilationUnit :=
  let (made, table, store) := unit.store.sweep unit.catalog unit.table
  (made, { unit with table := table, store := store })

def takeArtifacts (unit : CompilationUnit) : List Artifact × CompilationUnit :=
  let (taken, store) := unit.store.take
  (taken, { unit with store := store })

def takeFaults (unit : CompilationUnit) : List Fault × CompilationUnit :=
  let (taken, table) := unit.table.takeFaults
  (taken, { unit with table := table })

/-- The name of the held artifact of an instance. -/
def artifactName? (unit : CompilationUnit) (id : Nat) : Option String :=
  (unit.artifacts.find? fun artifact => artifact.instanceId == id).map Artifact.name

/-- The names of the held artifacts in groups, each group after those it needs. -/
def emissionOrder (unit : CompilationUnit) : List (List String) :=
  (unit.table.emissionOrder.map fun group => group.filterMap unit.artifactName?).filter
    fun group => !group.isEmpty

def reports (unit : CompilationUnit) (source : Option (String × String)) : List Report :=
  unit.faults.map (Fault.report source)

end CompilationUnit

end Monomorph
