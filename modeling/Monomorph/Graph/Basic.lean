/-!
Directed graphs on the numbers below `order`, which grow by one node or one edge at a
time. Edges keep the order in which they were added, and no edge is there twice.
-/

namespace Monomorph

structure Graph where
  order : Nat
  edges : List (Nat × Nat)

namespace Graph

def empty : Graph := ⟨0, []⟩

def addNode (graph : Graph) : Graph := { graph with order := graph.order + 1 }

/-- An edge between nodes that are not both there is left out. -/
def addEdge (graph : Graph) (source target : Nat) : Graph :=
  if source < graph.order ∧ target < graph.order ∧ (source, target) ∉ graph.edges then
    { graph with edges := graph.edges ++ [(source, target)] }
  else graph

/-- The targets of the edges out of a node, oldest first. -/
def targets (graph : Graph) (source : Nat) : List Nat :=
  (graph.edges.filter fun edge => edge.1 == source).map Prod.snd

/-- Put a node in its place in an ascending list. -/
def insertNode (node : Nat) : List Nat → List Nat
  | [] => [node]
  | other :: rest => if node ≤ other then node :: other :: rest else other :: insertNode node rest

/-- The nodes of a list in ascending order. A node that is listed twice stays listed twice. -/
def ascending (nodes : List Nat) : List Nat := nodes.foldr insertNode []

/-- The targets of the edges out of a node, one for each edge, in ascending order. -/
def children (graph : Graph) (source : Nat) : List Nat := ascending (graph.targets source)

@[simp] theorem order_addNode (graph : Graph) : graph.addNode.order = graph.order + 1 := rfl

@[simp] theorem edges_addNode (graph : Graph) : graph.addNode.edges = graph.edges := rfl

@[simp] theorem order_addEdge (graph : Graph) (source target : Nat) :
    (graph.addEdge source target).order = graph.order := by
  unfold addEdge
  split <;> rfl

theorem mem_edges_addEdge (graph : Graph) (source target : Nat) (edge : Nat × Nat) :
    edge ∈ (graph.addEdge source target).edges ↔
      edge ∈ graph.edges ∨
        edge = (source, target) ∧ source < graph.order ∧ target < graph.order := by
  unfold addEdge
  split
  next added => simp [added.1, added.2.1]
  next kept =>
    constructor
    · exact Or.inl
    · rintro (old | ⟨rfl, below, below'⟩)
      · exact old
      · exact Decidable.byContradiction fun absent => kept ⟨below, below', absent⟩

theorem mem_targets (graph : Graph) (source target : Nat) :
    target ∈ graph.targets source ↔ (source, target) ∈ graph.edges := by
  simp [targets]

end Graph

end Monomorph
