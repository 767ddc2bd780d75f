import Monomorph.Proofs.Merging

/-!
Taking over a table, step by step and in closed form. The instances come first, those that
are new at the next places; then the edges, under the new numbers; then the faults. The same
table results when the other one is taken over as it was and then each later change of it is
repeated here: an instance is adopted, an edge or a fault is added. So a table can be followed
while the table it takes over is still growing.
-/

namespace Monomorph

namespace Graph

/-- Add edges one after another. -/
def addEdges (graph : Graph) (edges : List (Nat × Nat)) : Graph :=
  edges.foldl (fun graph edge => graph.addEdge edge.1 edge.2) graph

/-- Edges join nodes that are there. -/
def Bounded (graph : Graph) : Prop :=
  ∀ edge ∈ graph.edges, edge.1 < graph.order ∧ edge.2 < graph.order

variable {graph : Graph}

theorem Bounded.addNode (bounded : graph.Bounded) : graph.addNode.Bounded := by
  intro edge member
  obtain ⟨source, target⟩ := bounded edge member
  exact ⟨Nat.lt_succ_of_lt source, Nat.lt_succ_of_lt target⟩

theorem Bounded.addEdge (bounded : graph.Bounded) (source target : Nat) :
    (graph.addEdge source target).Bounded := by
  intro edge member
  rw [order_addEdge]
  rcases (graph.mem_edges_addEdge source target edge).mp member with old | ⟨rfl, below⟩
  · exact bounded edge old
  · exact below

theorem nodup_edges_addEdge (distinct : graph.edges.Nodup) (source target : Nat) :
    (graph.addEdge source target).edges.Nodup := by
  unfold addEdge
  split
  next added =>
    rw [← List.concat_eq_append]
    exact List.Nodup.concat added.2.2 distinct
  next => exact distinct

theorem addEdge_of_mem {source target : Nat} (there : (source, target) ∈ graph.edges) :
    graph.addEdge source target = graph := by
  unfold addEdge
  rw [if_neg]
  exact fun added => added.2.2 there

theorem addEdge_addNode {source target : Nat} (below : source < graph.order)
    (below' : target < graph.order) :
    graph.addNode.addEdge source target = (graph.addEdge source target).addNode := by
  have later : source < graph.order + 1 ∧ target < graph.order + 1 := by omega
  unfold addEdge
  by_cases there : (source, target) ∈ graph.edges
  · simp [there]
  · simp [there, below, below', later, addNode]

theorem addEdges_append (edges more : List (Nat × Nat)) :
    graph.addEdges (edges ++ more) = (graph.addEdges edges).addEdges more :=
  List.foldl_append

theorem mem_edges_addEdges (edges : List (Nat × Nat)) (edge : Nat × Nat) :
    edge ∈ (graph.addEdges edges).edges ↔
      edge ∈ graph.edges ∨ edge ∈ edges ∧ edge.1 < graph.order ∧ edge.2 < graph.order := by
  induction edges generalizing graph with
  | nil => simp [addEdges]
  | cons first rest ih =>
    have round : edge ∈ ((graph.addEdge first.1 first.2).addEdges rest).edges ↔ _ := ih
    rw [order_addEdge, mem_edges_addEdge] at round
    rw [show graph.addEdges (first :: rest) = (graph.addEdge first.1 first.2).addEdges rest from rfl,
      round, List.mem_cons, or_assoc, or_and_right]
    apply or_congr_right
    apply or_congr_left
    apply and_congr_right
    rintro rfl
    rfl

/-- A new node does not matter to edges between the old ones. -/
theorem addEdges_addNode {edges : List (Nat × Nat)}
    (below : ∀ edge ∈ edges, edge.1 < graph.order ∧ edge.2 < graph.order) :
    graph.addNode.addEdges edges = (graph.addEdges edges).addNode := by
  induction edges generalizing graph with
  | nil => rfl
  | cons edge rest ih =>
    obtain ⟨source, target⟩ := below edge List.mem_cons_self
    have others : ∀ next ∈ rest, next.1 < (graph.addEdge edge.1 edge.2).order ∧
        next.2 < (graph.addEdge edge.1 edge.2).order := by
      intro next member
      rw [order_addEdge]
      exact below next (List.mem_cons_of_mem _ member)
    change (graph.addNode.addEdge edge.1 edge.2).addEdges rest = _
    rw [addEdge_addNode source target]
    exact ih others

end Graph

/-- The edge between the new places of two instances, if both were taken over. -/
def Renumbering.carryEdge (renumbering : Renumbering) (edge : Nat × Nat) : Option (Nat × Nat) :=
  (renumbering.apply edge.1).bind fun source =>
    (renumbering.apply edge.2).map fun target => (source, target)

namespace Renumbering

variable (renumbering : Renumbering)

theorem carryEdge_eq_some_iff (edge carried : Nat × Nat) :
    renumbering.carryEdge edge = some carried ↔
      renumbering.apply edge.1 = some carried.1 ∧ renumbering.apply edge.2 = some carried.2 := by
  obtain ⟨source, target⟩ := carried
  simp [carryEdge, Option.bind_eq_some_iff]

theorem apply_append_left (more : Renumbering) {id : Nat} (below : id < renumbering.length) :
    apply (renumbering ++ more) id = renumbering.apply id := by
  rw [apply, apply, List.getElem?_append_left below]

theorem apply_concat_length (place : Option Nat) :
    apply (renumbering ++ [place]) renumbering.length = place := by
  rw [apply, List.getElem?_concat_length]
  rfl

theorem apply_take (count id : Nat) :
    apply (renumbering.take count) id = if id < count then renumbering.apply id else none := by
  rw [apply, apply, List.getElem?_take]
  split <;> rfl

theorem lt_length_of_apply {id place : Nat} (applied : renumbering.apply id = some place) :
    id < renumbering.length := by
  by_contra beyond
  rw [apply, List.getElem?_eq_none (Nat.le_of_not_lt beyond)] at applied
  cases applied

end Renumbering

namespace InstanceTable

variable {table other : InstanceTable} {accepted : String → Bool}

theorem bounded_of_steps {later : InstanceTable} (bounded : table.expansion.Bounded)
    (steps : table.Steps later) : later.expansion.Bounded := by
  induction steps with
  | refl => exact bounded
  | tail _ step before =>
    cases step with
    | note faults => exact before
    | link parent child => exact before.addEdge parent child
    | enter place fresh => exact before.addNode
    | mark id => exact before

theorem bounded_empty (policy : Policy) : (empty policy).expansion.Bounded := nofun

theorem nodup_edges_of_steps {later : InstanceTable} (distinct : table.expansion.edges.Nodup)
    (steps : table.Steps later) : later.expansion.edges.Nodup := by
  induction steps with
  | refl => exact distinct
  | tail _ step before =>
    cases step with
    | note faults => exact before
    | link parent child => exact Graph.nodup_edges_addEdge before parent child
    | enter place fresh => exact before
    | mark id => exact before

/-- Only the arguments of the instances matter to where they are found. -/
theorem interned?_map_instances (table : InstanceTable) (view : Instance → Instance)
    (same : ∀ entry, (view entry).arguments = entry.arguments) (generic : String)
    (arguments : List Ty) :
    interned? { table with instances := table.instances.map view } generic arguments =
      table.interned? generic arguments := by
  unfold interned?
  congr 1
  funext id
  change ((table.instances.map view)[id]?).any _ = (table.instances[id]?).any _
  rw [List.getElem?_map]
  cases table.instances[id]? with
  | none => rfl
  | some entry => exact congrArg (fun found => decide (found = arguments)) (same entry)

theorem foldl_adoptEdge (renumbering : Renumbering) (edges : List (Nat × Nat))
    (table : InstanceTable) :
    edges.foldl (adoptEdge renumbering) table =
      { table with
        expansion := table.expansion.addEdges (edges.filterMap renumbering.carryEdge) } := by
  induction edges generalizing table with
  | nil => rfl
  | cons edge rest ih =>
    rw [List.foldl_cons, ih, List.filterMap_cons, adoptEdge, Renumbering.carryEdge]
    cases renumbering.apply edge.1 with
    | none => rfl
    | some source =>
      cases renumbering.apply edge.2 with
      | none => rfl
      | some target => rfl

theorem interned?_push_of_ne (coherent : table.Coherent) {entry : Instance}
    (next : entry.id = table.size)
    (fresh : table.interned? entry.generic entry.arguments = none) {generic : String}
    {arguments : List Ty} (apart : entry.key ≠ (generic, arguments)) :
    (table.push entry).interned? generic arguments = table.interned? generic arguments := by
  rw [(coherent.push next fresh).interned?_eq, coherent.interned?_eq, instances_push,
    List.find?_append]
  simp [apart]

/-- Among numbered instances with different keys, those that are accepted and new get the next
places, in their order. Who asked for an instance is looked up among the instances before it. -/
theorem instances_foldl_adopt (accepted : String → Bool) {entries : List Instance}
    {state : InstanceTable × Renumbering} (coherent : state.1.Coherent)
    (numbered : entries.map Instance.id = List.range' state.2.length entries.length)
    (distinct : (entries.map Instance.key).Nodup) :
    (entries.foldl (adopt accepted) state).1.instances =
      state.1.instances ++
        (entries.filter fun entry => accepted entry.generic &&
          (state.1.interned? entry.generic entry.arguments).isNone).mapIdx fun offset entry =>
            { entry with
              id := state.1.size + offset
              requestedBy := entry.requestedBy.bind
                (Renumbering.apply ((entries.foldl (adopt accepted) state).2.take entry.id)) } := by
  induction entries generalizing state with
  | nil => simp
  | cons entry rest ih =>
    obtain ⟨table, renumbering⟩ := state
    have next := coherent.of_steps (steps_adopt accepted (table, renumbering) entry)
    rw [List.map_cons, List.length_cons, List.range'_succ, List.cons.injEq] at numbered
    rw [List.map_cons, List.nodup_cons] at distinct
    rw [List.foldl_cons]
    by_cases taken : accepted entry.generic = true
    · cases known : table.interned? entry.generic entry.arguments with
      | some place =>
        rw [adopt_known renumbering taken known] at next ⊢
        rw [ih next (by simpa using numbered.2) distinct.2]
        simp [taken, known]
      | none =>
        have others : ∀ later ∈ rest,
            (table.push (table.copyOf renumbering entry)).interned? later.generic later.arguments =
              table.interned? later.generic later.arguments := by
          intro later member
          have absent : table.interned? (table.copyOf renumbering entry).generic
              (table.copyOf renumbering entry).arguments = none := known
          apply interned?_push_of_ne coherent rfl absent
          exact fun same => distinct.1 (same ▸ List.mem_map_of_mem member)
        rw [adopt_new renumbering taken known] at next ⊢
        -- What was noted before the instance is a beginning of what is noted in the end.
        have before : (rest.foldl (adopt accepted) (table.push (table.copyOf renumbering entry),
            renumbering ++ [some table.size])).2.take entry.id = renumbering := by
          rw [(foldl_adopt_renumbering accepted rest next).1, numbered.1, List.append_assoc,
            List.take_left]
        have fresh : rest.filter (fun later => accepted later.generic &&
            ((table.push (table.copyOf renumbering entry)).interned? later.generic
              later.arguments).isNone) =
            rest.filter fun later => accepted later.generic &&
              (table.interned? later.generic later.arguments).isNone :=
          List.filter_congr fun later member => by rw [others later member]
        have size : (table.push (table.copyOf renumbering entry)).size = table.size + 1 := by
          rw [InstanceTable.size, instances_push, List.length_append]
          rfl
        rw [ih next (by simpa using numbered.2) distinct.2, fresh, size, instances_push,
          List.append_assoc, List.singleton_append,
          List.filter_cons_of_pos (by simp [taken, known]), List.mapIdx_cons, before]
        have shift (offset : Nat) : table.size + 1 + offset = table.size + (offset + 1) := by omega
        simp only [shift]
        rfl
    · rw [adopt_refused renumbering taken] at next ⊢
      rw [ih next (by simpa using numbered.2) distinct.2]
      simp [taken]

/-- The table with more edges and faults. -/
def joined (table : InstanceTable) (edges : List (Nat × Nat)) (faults : List Fault) :
    InstanceTable :=
  { table with
    expansion := table.expansion.addEdges edges
    faults := table.faults ++ faults }

/-- Edges between instances that are there do not matter to an instance that is adopted. -/
theorem adopt_joined {edges : List (Nat × Nat)} (faults : List Fault) (renumbering : Renumbering)
    (below : ∀ edge ∈ edges, edge.1 < table.expansion.order ∧ edge.2 < table.expansion.order)
    (entry : Instance) :
    adopt accepted (table.joined edges faults, renumbering) entry =
      ((adopt accepted (table, renumbering) entry).1.joined edges faults,
        (adopt accepted (table, renumbering) entry).2) := by
  by_cases taken : accepted entry.generic = true
  · cases known : table.interned? entry.generic entry.arguments with
    | some place =>
      have still : (table.joined edges faults).interned? entry.generic entry.arguments =
        some place := known
      rw [adopt_known renumbering taken known, adopt_known renumbering taken still]
    | none =>
      have still : (table.joined edges faults).interned? entry.generic entry.arguments =
        none := known
      rw [adopt_new renumbering taken known, adopt_new renumbering taken still]
      simp only [joined, expansion_push, Graph.addEdges_addNode below]
      rfl
  · rw [adopt_refused renumbering taken, adopt_refused renumbering taken]

section Adopted

/-- The table with the instances of another one, before any edge is taken over. -/
def adopting (table other : InstanceTable) (accepted : String → Bool) :
    InstanceTable × Renumbering :=
  other.instances.foldl (adopt accepted) (table, [])

theorem absorb_eq (table other : InstanceTable) (accepted : String → Bool) :
    table.absorb other accepted =
      ((table.adopting other accepted).1.joined
          (other.expansion.edges.filterMap (table.adopting other accepted).2.carryEdge)
          other.faults,
        (table.adopting other accepted).2) := by
  simp only [absorb, foldl_adoptEdge]
  rfl

theorem coherent_adopting (coherent : table.Coherent) (other : InstanceTable)
    (accepted : String → Bool) : (table.adopting other accepted).1.Coherent :=
  coherent.of_steps (steps_foldl Prod.fst (steps_adopt accepted) other.instances (table, []))

theorem renumbering_adopting (coherent : table.Coherent) (other : InstanceTable)
    (accepted : String → Bool) :
    (table.adopting other accepted).2 =
      other.instances.map ((table.adopting other accepted).1.placeOf accepted) :=
  (foldl_adopt_renumbering accepted other.instances
    (show (table, ([] : Renumbering)).1.Coherent from coherent)).1

theorem length_adopting (coherent : table.Coherent) (other : InstanceTable)
    (accepted : String → Bool) : (table.adopting other accepted).2.length = other.size := by
  rw [renumbering_adopting coherent, List.length_map]
  rfl

/-- A new place is a place of the table. -/
theorem apply_adopting_lt (coherent : table.Coherent) {id place : Nat}
    (applied : (table.adopting other accepted).2.apply id = some place) :
    place < (table.adopting other accepted).1.expansion.order := by
  have adopted := coherent_adopting coherent other accepted
  rw [renumbering_adopting coherent, Renumbering.apply, List.getElem?_map,
    Option.join_eq_some_iff, Option.map_eq_some_iff] at applied
  obtain ⟨entry, _, placed⟩ := applied
  unfold placeOf at placed
  split at placed
  next =>
    obtain ⟨found, there, _⟩ := (adopted.interned?_eq_some_iff _ _ _).mp placed
    rw [adopted.nodes]
    exact (List.getElem?_eq_some_iff.mp there).1
  next => cases placed

theorem carried_lt (coherent : table.Coherent) {edge carried : Nat × Nat}
    (moved : (table.adopting other accepted).2.carryEdge edge = some carried) :
    carried.1 < (table.adopting other accepted).1.expansion.order ∧
      carried.2 < (table.adopting other accepted).1.expansion.order := by
  obtain ⟨source, target⟩ := (Renumbering.carryEdge_eq_some_iff _ edge carried).mp moved
  exact ⟨apply_adopting_lt coherent source, apply_adopting_lt coherent target⟩

end Adopted

section Following

/-- The table with more faults. -/
def noting (table : InstanceTable) (faults : List Fault) : InstanceTable :=
  { table with faults := table.faults ++ faults }

/-- Faults that the other table gets come after all others. -/
theorem absorb_noting (faults : List Fault) :
    table.absorb (other.noting faults) accepted =
      ((table.absorb other accepted).1.noting faults, (table.absorb other accepted).2) := by
  rw [absorb_eq, absorb_eq]
  simp only [noting, adopting, joined, List.append_assoc]

theorem absorb_record (fault : Fault) :
    table.absorb (other.record fault) accepted =
      ((table.absorb other accepted).1.record fault, (table.absorb other accepted).2) :=
  absorb_noting [fault]

/-- An edge that the other table gets is taken over as the edge between the new places. -/
theorem absorb_addExpansion (coherent : table.Coherent) (otherCoherent : other.Coherent)
    {parent child newParent newChild : Nat}
    (source : (table.absorb other accepted).2.apply parent = some newParent)
    (target : (table.absorb other accepted).2.apply child = some newChild) :
    table.absorb (other.addExpansion parent child) accepted =
      ((table.absorb other accepted).1.addExpansion newParent newChild,
        (table.absorb other accepted).2) := by
  rw [absorb_eq] at source target
  have moved : (table.adopting other accepted).2.carryEdge (parent, child) =
      some (newParent, newChild) :=
    (Renumbering.carryEdge_eq_some_iff _ _ _).mpr ⟨source, target⟩
  by_cases there : (parent, child) ∈ other.expansion.edges
  · -- The other table has the edge already, so this one has it between the new places.
    have carried : (newParent, newChild) ∈ (table.absorb other accepted).1.expansion.edges := by
      rw [absorb_eq]
      apply (Graph.mem_edges_addEdges _ _).mpr
      exact Or.inr ⟨List.mem_filterMap.mpr ⟨_, there, moved⟩, carried_lt coherent moved⟩
    rw [addExpansion, Graph.addEdge_of_mem there, addExpansion, Graph.addEdge_of_mem carried]
  · have below : parent < other.expansion.order ∧ child < other.expansion.order := by
      rw [otherCoherent.nodes, ← length_adopting coherent other accepted]
      exact ⟨Renumbering.lt_length_of_apply _ source, Renumbering.lt_length_of_apply _ target⟩
    have edges : (other.addExpansion parent child).expansion.edges =
        other.expansion.edges ++ [(parent, child)] := by
      simp only [addExpansion, Graph.addEdge, below, there, not_false_eq_true, and_self, if_true]
    have same : table.adopting (other.addExpansion parent child) accepted =
        table.adopting other accepted := rfl
    rw [absorb_eq, absorb_eq, same, edges, List.filterMap_append, List.filterMap_cons, moved]
    simp only [joined, List.filterMap_nil, Graph.addEdges_append]
    rfl

/-- An instance that the other table gets is adopted as if it came after all the rest. -/
theorem absorb_push (coherent : table.Coherent) (otherCoherent : other.Coherent)
    (bounded : other.expansion.Bounded) (entry : Instance) :
    table.absorb (other.push entry) accepted =
      adopt accepted (table.absorb other accepted) entry := by
  have last : table.adopting (other.push entry) accepted =
      adopt accepted (table.adopting other accepted) entry := by
    unfold adopting
    rw [instances_push, List.foldl_append]
    rfl
  have carried : ∀ edge ∈ other.expansion.edges.filterMap
      (table.adopting other accepted).2.carryEdge,
      edge.1 < (table.adopting other accepted).1.expansion.order ∧
        edge.2 < (table.adopting other accepted).1.expansion.order := by
    intro edge member
    obtain ⟨_, _, moved⟩ := List.mem_filterMap.mp member
    exact carried_lt coherent moved
  -- The edges are between older instances, so a longer renumbering carries them the same way.
  have edges : other.expansion.edges.filterMap
      (adopt accepted (table.adopting other accepted) entry).2.carryEdge =
        other.expansion.edges.filterMap (table.adopting other accepted).2.carryEdge := by
    have longer := (adopt_renumbering (table.adopting other accepted).2
      (coherent_adopting coherent other accepted) accepted entry).1
    apply List.filterMap_congr
    intro edge member
    have below := bounded edge member
    rw [otherCoherent.nodes, ← length_adopting coherent other accepted] at below
    rw [Renumbering.carryEdge, Renumbering.carryEdge,
      show (adopt accepted (table.adopting other accepted) entry).2 = _ from longer,
      Renumbering.apply_append_left _ _ below.1, Renumbering.apply_append_left _ _ below.2]
  rw [absorb_eq, absorb_eq, last, adopt_joined other.faults _ carried entry]
  change ((adopt accepted (table.adopting other accepted) entry).1.joined
    (other.expansion.edges.filterMap _) other.faults, _) = _
  rw [edges]

/-- An instance of an accepted table is found at its new place. -/
theorem apply_interned (coherent : table.Coherent) (otherCoherent : other.Coherent)
    (taken : ∀ entry ∈ other.instances, accepted entry.generic = true) {generic : String}
    {arguments : List Ty} {id : Nat} (known : other.interned? generic arguments = some id) :
    ∃ place, (table.absorb other accepted).2.apply id = some place ∧
      (table.absorb other accepted).1.interned? generic arguments = some place := by
  obtain ⟨entry, found, key⟩ := (otherCoherent.interned?_eq_some_iff _ _ _).mp known
  have member : entry ∈ other.instances := List.mem_of_getElem? found
  obtain ⟨numbers, placed⟩ := absorb_renumbering coherent other accepted
  obtain ⟨place, here⟩ := Option.isSome_iff_exists.mp (placed entry member (taken entry member))
  refine ⟨place, ?_, ?_⟩
  · rw [numbers, Renumbering.apply, List.getElem?_map,
      show other.instances[id]? = some entry from found, Option.map_some, here]
    rfl
  · rw [placeOf, if_pos (taken entry member)] at here
    rw [← here, show entry.generic = generic from congrArg Prod.fst key,
      show entry.arguments = arguments from congrArg Prod.snd key]

theorem length_absorb (coherent : table.Coherent) (other : InstanceTable)
    (accepted : String → Bool) : (table.absorb other accepted).2.length = other.size := by
  rw [(absorb_renumbering coherent other accepted).1, List.length_map]
  rfl

end Following

end InstanceTable

end Monomorph
