import Monomorph.Catalog
import Monomorph.Instance.Absorb
import Monomorph.Symbol

/-!
Artifacts for code generation: one for each instance, under its symbol. A sweep makes
the artifacts of the instances that have none. Artifacts leave the store when they
are handed off, and their names stay reserved, so none is ever made twice.
-/

namespace Monomorph

structure Artifact where
  name : String
  generic : String
  arguments : List Ty
  span : Option Span
  /-- The instance it was made for. -/
  instanceId : Nat
  /-- The signature of the generic with the arguments in place. -/
  signature : Option Ty
deriving DecidableEq

/-- The artifact of an instance under the name `name`. -/
def Instance.artifact (entry : Instance) (catalog : Catalog) (name : String) : Artifact where
  name := name
  generic := entry.generic
  arguments := entry.arguments
  span := entry.span
  instanceId := entry.id
  signature :=
    (catalog.generic? entry.generic).bind fun generic =>
      generic.signature.map (generic.specialise entry.arguments)

structure ArtifactStore where
  /-- Artifacts that are not handed off yet, oldest first. -/
  held : List Artifact
  /-- The place of each held artifact by its name. -/
  places : OrderedMap String Nat
  /-- Every name an artifact of this store ever had. -/
  reserved : List String

namespace ArtifactStore

def empty : ArtifactStore := ⟨[], ∅, []⟩

def size (store : ArtifactStore) : Nat := store.held.length

def find? (store : ArtifactStore) (name : String) : Option Artifact :=
  (store.places.get? name).bind fun place => store.held[place]?

def push (store : ArtifactStore) (artifact : Artifact) : ArtifactStore where
  held := store.held ++ [artifact]
  places := store.places.insert artifact.name store.size
  reserved := store.reserved ++ [artifact.name]

/-- Hand off every held artifact. -/
def take (store : ArtifactStore) : List Artifact × ArtifactStore :=
  (store.held, { store with held := [], places := ∅ })

/-- Make the artifact of one instance, unless its name is reserved. The instance is marked
either way. -/
def emit (catalog : Catalog) (state : InstanceTable × ArtifactStore) (id : Nat) :
    InstanceTable × ArtifactStore :=
  let (table, store) := state
  match table.get? id with
  | none => state
  | some entry =>
      let name := Symbol.name entry.generic entry.arguments
      let marked := table.markEmitted id
      if store.reserved.contains name then (marked, store)
      else (marked, store.push (entry.artifact catalog name))

/-- Make the artifacts of all instances that wait for one. -/
def sweep (store : ArtifactStore) (catalog : Catalog) (table : InstanceTable) :
    List Artifact × InstanceTable × ArtifactStore :=
  let (marked, filled) := table.pending.foldl (emit catalog) (table, store)
  (filled.held.drop store.size, marked, filled)

/-- Take over one artifact if its instance was taken over and its name is free. -/
def adopt (renumbering : Renumbering) (store : ArtifactStore) (artifact : Artifact) :
    ArtifactStore :=
  match renumbering.apply artifact.instanceId with
  | none => store
  | some id =>
      if store.reserved.contains artifact.name then store
      else store.push { artifact with instanceId := id }

def absorb (store other : ArtifactStore) (renumbering : Renumbering) : ArtifactStore :=
  other.held.foldl (adopt renumbering) store

@[simp] theorem held_push (store : ArtifactStore) (artifact : Artifact) :
    (store.push artifact).held = store.held ++ [artifact] := rfl

@[simp] theorem reserved_push (store : ArtifactStore) (artifact : Artifact) :
    (store.push artifact).reserved = store.reserved ++ [artifact.name] := rfl

@[simp] theorem held_take (store : ArtifactStore) : store.take.2.held = [] := rfl

@[simp] theorem reserved_take (store : ArtifactStore) :
    store.take.2.reserved = store.reserved := rfl

end ArtifactStore

end Monomorph
