import Monomorph.Graph.Basic

/-!
Strongly connected components in the order in which they can be emitted: every
component comes after those its members lead to.

The nodes are searched in depth, from each node in ascending order, along the edges
out of a node from the newest to the oldest. A node is open from its first visit
until its component is complete. When the search behind a node is over, the nodes
opened since then form a component unless one of them has an edge back to a node
that was open before.
-/

namespace Monomorph.Graph

structure Search where
  /-- Visited nodes whose component is not complete, newest first. -/
  opened : List Nat
  /-- Complete components, in the order of their completion. -/
  closed : List (List Nat)

namespace Search

def start : Search := ⟨[], []⟩

def visited (search : Search) (node : Nat) : Bool :=
  search.opened.contains node || search.closed.any fun component => component.contains node

def openNode (search : Search) (node : Nat) : Search :=
  { search with opened := node :: search.opened }

end Search

/-- Whether an edge leads from one list of nodes into another. -/
def leads (graph : Graph) (sources targets : List Nat) : Bool :=
  sources.any fun source => (graph.targets source).any fun target => targets.contains target

/-- End the visit of `node`, which was opened on top of `older`. -/
def closeNode (graph : Graph) (node : Nat) (older : List Nat) (search : Search) : Search :=
  let fresh := search.opened.takeWhile (fun other => other != node) ++ [node]
  if graph.leads fresh older then search
  else ⟨older, search.closed ++ [ascending fresh]⟩

/-- Visit a node and all that can be reached from it by way of unvisited nodes. Each
step in depth opens a node, so `depth` never has to exceed the number of unvisited
nodes. -/
def visit (graph : Graph) (depth : Nat) (node : Nat) (search : Search) : Search :=
  match depth with
  | 0 => search
  | depth + 1 =>
      if search.visited node then search
      else
        graph.closeNode node search.opened
          ((graph.targets node).reverse.foldl (fun search target => graph.visit depth target search)
            (search.openNode node))

def components (graph : Graph) : List (List Nat) :=
  ((List.range graph.order).foldl (fun search node => graph.visit graph.order node search)
    Search.start).closed

end Monomorph.Graph
