import Monomorph.Generic.Draft
import Monomorph.Reply

/-!
A workbench of named catalogs, instance tables and artifact stores that are combined
freely, without the bookkeeping of a compilation unit. A part that is mentioned for
the first time is empty.
-/

namespace Monomorph

structure Workbench where
  catalogs : OrderedMap String Catalog
  tables : OrderedMap String InstanceTable
  stores : OrderedMap String ArtifactStore
  nextSerial : Nat

namespace Workbench

inductive Command where
  | newTable (table : String) (policy : Policy)
  | copyTable (source target : String)
  | copyStore (source target : String)
  | copyCatalog (source target : String)
  | register (catalog name : String) (items : List Generic.Item)
  | share (catalog source name : String)
  | lookup (catalog name : String)
  | contains (catalog name : String)
  | names (catalog : String)
  | request (catalog table : String) (request : Request)
  | requestWithDefaults (catalog table : String) (request : Request)
  | tally (table : String)
  | entries (table : String)
  | entriesOf (table generic : String)
  | faults (table : String)
  | takeFaults (table : String)
  | substitutable (catalog table : String) (subtyping : Subtyping) (actual expected : Nat)
  | emissionIds (table : String)
  | children (table : String) (id : Nat)
  | sweep (store catalog table : String)
  | artifacts (store : String)
  | artifact (store name : String)
  | takeArtifacts (store : String)
  | held (store : String)

def empty : Workbench := ⟨∅, ∅, ∅, 0⟩

def catalog (bench : Workbench) (name : String) : Catalog :=
  (bench.catalogs.get? name).getD .empty

def table (bench : Workbench) (name : String) : InstanceTable :=
  (bench.tables.get? name).getD (.empty .standard)

def store (bench : Workbench) (name : String) : ArtifactStore :=
  (bench.stores.get? name).getD .empty

def setCatalog (bench : Workbench) (name : String) (catalog : Catalog) : Workbench :=
  { bench with catalogs := bench.catalogs.insert name catalog }

def setTable (bench : Workbench) (name : String) (table : InstanceTable) : Workbench :=
  { bench with tables := bench.tables.insert name table }

def setStore (bench : Workbench) (name : String) (store : ArtifactStore) : Workbench :=
  { bench with stores := bench.stores.insert name store }

/-- Here a refused registration is recorded nowhere. -/
def registerIn (bench : Workbench) (catalog : String) (shared : SharedGeneric) :
    Reply × Workbench :=
  match (bench.catalog catalog).register shared with
  | .ok extended => (.registered shared.generic, bench.setCatalog catalog extended)
  | .error fault => (.fault fault, bench)

def requestIn (bench : Workbench) (traits : TraitAuthority) (catalog table : String)
    (request : Request) : Reply × Workbench :=
  let (outcome, settled) := (bench.table table).request (bench.catalog catalog) traits request
  (.outcome outcome, bench.setTable table settled)

/-- Carry out a command; its requests are judged by the given trait authority. -/
def step (bench : Workbench) (traits : TraitAuthority) : Command → Reply × Workbench
  | .newTable table policy => (.policy policy, bench.setTable table (.empty policy))
  | .copyTable source target => (.done, bench.setTable target (bench.table source))
  | .copyStore source target => (.done, bench.setStore target (bench.store source))
  | .copyCatalog source target => (.done, bench.setCatalog target (bench.catalog source))
  | .register catalog name items =>
      match Generic.draft name items with
      | .error fault => (.undrafted fault, bench)
      | .ok generic =>
          let serial := bench.nextSerial
          { bench with nextSerial := serial + 1 }.registerIn catalog ⟨serial, generic⟩
  | .share catalog source name =>
      match (bench.catalog source).find? name with
      | none => (.noGeneric, bench)
      | some shared => bench.registerIn catalog shared
  | .lookup catalog name => (.generic ((bench.catalog catalog).generic? name), bench)
  | .contains catalog name => (.flag ((bench.catalog catalog).find? name).isSome, bench)
  | .names catalog => (.names (bench.catalog catalog).names, bench)
  | .request catalog table request => bench.requestIn traits catalog table request
  | .requestWithDefaults catalog table request =>
      bench.requestIn traits catalog table (request.withDefaults (bench.catalog catalog))
  | .tally table => (.tally (bench.table table).size (bench.table table).faults.length, bench)
  | .entries table => (.entries (bench.table table).instances, bench)
  | .entriesOf table generic => (.entries ((bench.table table).instancesOf generic), bench)
  | .faults table => (.faults (bench.table table).faults, bench)
  | .takeFaults table =>
      let (taken, cleared) := (bench.table table).takeFaults
      (.faults taken, bench.setTable table cleared)
  | .substitutable catalog table subtyping actual expected =>
      (.comparison ((bench.table table).substitutable (bench.catalog catalog) subtyping
        actual expected), bench)
  | .emissionIds table => (.idGroups (bench.table table).emissionOrder, bench)
  | .children table id => (.ids ((bench.table table).children id), bench)
  | .sweep store catalog table =>
      let (made, marked, filled) :=
        (bench.store store).sweep (bench.catalog catalog) (bench.table table)
      (.artifacts made, (bench.setTable table marked).setStore store filled)
  | .artifacts store => (.artifacts (bench.store store).held, bench)
  | .artifact store name => (.artifact ((bench.store store).find? name), bench)
  | .takeArtifacts store =>
      let (taken, cleared) := (bench.store store).take
      (.artifacts taken, bench.setStore store cleared)
  | .held store => (.held (bench.store store).size, bench)

end Workbench

end Monomorph
