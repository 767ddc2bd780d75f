import Monomorph.Instance.Basic

/-!
Taking over the instances of another table. They are interned anew, so an instance
that both tables have is there once; `Renumbering` says which place each instance of
the other table has now.
-/

namespace Monomorph

/-- For each place of the other table the new place, if the instance was taken over. -/
abbrev Renumbering := List (Option Nat)

def Renumbering.apply (renumbering : Renumbering) (id : Nat) : Option Nat :=
  (renumbering[id]?).join

namespace InstanceTable

/-- Take over one instance. The table's own instance is kept where there is one; a new one
keeps its depth and span, and the instance that asked for it is renumbered too. -/
def adopt (accepted : String → Bool) (state : InstanceTable × Renumbering) (entry : Instance) :
    InstanceTable × Renumbering :=
  let (table, renumbering) := state
  if accepted entry.generic then
    match table.interned? entry.generic entry.arguments with
    | some id => (table, renumbering ++ [some id])
    | none =>
        let id := table.size
        let requestedBy := entry.requestedBy.bind renumbering.apply
        (table.push { entry with id := id, requestedBy := requestedBy }, renumbering ++ [some id])
  else (table, renumbering ++ [none])

/-- Take over one edge between instances that were both taken over. -/
def adoptEdge (renumbering : Renumbering) (table : InstanceTable) (edge : Nat × Nat) :
    InstanceTable :=
  match renumbering.apply edge.1, renumbering.apply edge.2 with
  | some source, some target => table.addExpansion source target
  | _, _ => table

/-- Take over the instances of accepted generics with the edges between them, and every
fault. -/
def absorb (table other : InstanceTable) (accepted : String → Bool) :
    InstanceTable × Renumbering :=
  let (adopted, renumbering) := other.instances.foldl (adopt accepted) (table, [])
  let linked := other.expansion.edges.foldl (adoptEdge renumbering) adopted
  ({ linked with faults := linked.faults ++ other.faults }, renumbering)

/-- Mark the instances that were marked in the table they came from. -/
def markAbsorbed (table : InstanceTable) (renumbering : Renumbering) (entries : List Instance) :
    InstanceTable :=
  (renumbering.zip entries).foldl
    (fun table pair =>
      match pair.1 with
      | some id => if pair.2.emitted then table.markEmitted id else table
      | none => table)
    table

end InstanceTable

end Monomorph
