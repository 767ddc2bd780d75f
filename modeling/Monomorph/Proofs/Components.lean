import Mathlib.Data.List.Infix
import Mathlib.Data.List.Nodup
import Mathlib.Data.List.Perm.Subperm
import Mathlib.Data.List.Sort
import Monomorph.Proofs.Absorption

/-!
The search in depth finds the strongly connected components and lists each of them after
those its members lead to.

Nothing is recorded about how far back an open node leads. What takes its place is a fact about
any two states of the search: a node that was opened in between and is still open leads to one
that was open before. So a visit that leaves no edge to older nodes has closed a component, and
a visit on top of nothing leaves nothing open.
-/

namespace Monomorph.Graph

/-- A number of edges, possibly none, leads from one node to another. -/
abbrev Reaches (graph : Graph) : Nat → Nat → Prop :=
  Relation.ReflTransGen fun source target => (source, target) ∈ graph.edges

variable {graph : Graph}

section Ascending

theorem insertNode_eq_orderedInsert (node : Nat) (nodes : List Nat) :
    insertNode node nodes = nodes.orderedInsert (· ≤ ·) node := by
  induction nodes with
  | nil => rfl
  | cons other rest ih => rw [insertNode, List.orderedInsert_cons, ih]

theorem ascending_eq_insertionSort (nodes : List Nat) :
    ascending nodes = nodes.insertionSort (· ≤ ·) := by
  induction nodes with
  | nil => rfl
  | cons node rest ih =>
    rw [List.insertionSort_cons, ← ih, ← insertNode_eq_orderedInsert]
    rfl

theorem ascending_perm (nodes : List Nat) : (ascending nodes).Perm nodes := by
  rw [ascending_eq_insertionSort]
  exact List.perm_insertionSort _ nodes

/-- Nodes that are listed once are sorted strictly. -/
theorem ascending_sorted {nodes : List Nat} (distinct : nodes.Nodup) :
    (ascending nodes).Pairwise (· < ·) := by
  have sorted : (ascending nodes).Pairwise (· ≤ ·) := by
    rw [ascending_eq_insertionSort]
    exact List.pairwise_insertionSort _ nodes
  have apart : (ascending nodes).Nodup := (ascending_perm nodes).nodup_iff.mpr distinct
  exact (sorted.and apart).imp fun both => Nat.lt_of_le_of_ne both.1 both.2

end Ascending

theorem leads_iff (graph : Graph) (sources targets : List Nat) :
    graph.leads sources targets = true ↔
      ∃ source ∈ sources, ∃ target ∈ targets, (source, target) ∈ graph.edges := by
  simp [leads, mem_targets, and_comm]

/-- Complete components: each is connected in itself, and edges out of it lead to it or to
components before it. -/
structure Settled (graph : Graph) (closed : List (List Nat)) : Prop where
  nonempty : [] ∉ closed
  sorted : ∀ component ∈ closed, component.Pairwise (· < ·)
  linked : ∀ component ∈ closed, ∀ first ∈ component, ∀ second ∈ component,
    graph.Reaches first second
  ordered : ∀ {place : Nat} {component : List Nat}, closed[place]? = some component →
    ∀ source ∈ component, ∀ target, (source, target) ∈ graph.edges →
      ∃ earlier ≤ place, ∃ other, closed[earlier]? = some other ∧ target ∈ other

namespace Settled

variable {closed : List (List Nat)}

theorem empty (graph : Graph) : graph.Settled [] where
  nonempty := List.not_mem_nil
  sorted _ member := by cases member
  linked _ member := by cases member
  ordered found := by cases found

theorem concat (settled : graph.Settled closed) {component : List Nat} (nonempty : component ≠ [])
    (sorted : component.Pairwise (· < ·))
    (linked : ∀ first ∈ component, ∀ second ∈ component, graph.Reaches first second)
    (confined : ∀ source ∈ component, ∀ target, (source, target) ∈ graph.edges →
      target ∈ component ∨ target ∈ closed.flatten) :
    graph.Settled (closed ++ [component]) where
  nonempty := by simp [settled.nonempty, nonempty.symm]
  sorted := List.forall_mem_append.mpr ⟨settled.sorted, List.forall_mem_singleton.mpr sorted⟩
  linked := List.forall_mem_append.mpr ⟨settled.linked, List.forall_mem_singleton.mpr linked⟩
  ordered := by
    intro place other found source member target edge
    have still {earlier : Nat} {older : List Nat} (known : closed[earlier]? = some older) :
        (closed ++ [component])[earlier]? = some older := by
      rw [List.getElem?_append_left (List.getElem?_eq_some_iff.mp known).1, known]
    rcases Nat.lt_or_ge place closed.length with before | beyond
    · rw [List.getElem?_append_left before] at found
      obtain ⟨earlier, below, older, known, there⟩ :=
        settled.ordered found source member target edge
      exact ⟨earlier, below, older, still known, there⟩
    · have same : other = component := by
        rw [List.getElem?_append_right beyond] at found
        exact List.mem_singleton.mp (List.mem_of_getElem? found)
      rw [same] at found member
      rcases confined source member target edge with inside | outside
      · exact ⟨place, Nat.le_refl place, component, found, inside⟩
      · obtain ⟨older, listed, there⟩ := List.mem_flatten.mp outside
        obtain ⟨earlier, known⟩ := List.mem_iff_getElem?.mp listed
        have below : earlier < closed.length := (List.getElem?_eq_some_iff.mp known).1
        exact ⟨earlier, by omega, older, still known, there⟩

/-- Whatever a node reaches stands in its component or before it. -/
theorem place_le (settled : graph.Settled closed) {place : Nat} {component : List Nat}
    (found : closed[place]? = some component) {source target : Nat} (member : source ∈ component)
    (reaches : graph.Reaches source target) :
    ∃ earlier ≤ place, ∃ other, closed[earlier]? = some other ∧ target ∈ other := by
  induction reaches with
  | refl => exact ⟨place, Nat.le_refl place, component, found, member⟩
  | tail _ edge before =>
    obtain ⟨middle, below, other, known, there⟩ := before
    obtain ⟨earlier, below', last, knownLast, thereLast⟩ :=
      settled.ordered known _ there _ edge
    exact ⟨earlier, Nat.le_trans below' below, last, knownLast, thereLast⟩

theorem flatten_closed (settled : graph.Settled closed) {source target : Nat}
    (member : source ∈ closed.flatten) (edge : (source, target) ∈ graph.edges) :
    target ∈ closed.flatten := by
  obtain ⟨component, listed, there⟩ := List.mem_flatten.mp member
  obtain ⟨place, found⟩ := List.mem_iff_getElem?.mp listed
  obtain ⟨_, _, other, known, here⟩ := settled.ordered found source there target edge
  exact List.mem_flatten.mpr ⟨other, List.mem_of_getElem? known, here⟩

section Reading

variable (settled : graph.Settled closed) (distinct : closed.flatten.Nodup)

include distinct in
theorem place_eq {i j : Nat} {first second : List Nat} (foundFirst : closed[i]? = some first)
    (foundSecond : closed[j]? = some second) {node : Nat} (inFirst : node ∈ first)
    (inSecond : node ∈ second) : i = j := by
  have apart := List.pairwise_iff_getElem.mp (List.nodup_flatten.mp distinct).2
  obtain ⟨below, rfl⟩ := List.getElem?_eq_some_iff.mp foundFirst
  obtain ⟨below', rfl⟩ := List.getElem?_eq_some_iff.mp foundSecond
  rcases Nat.lt_trichotomy i j with less | same | greater
  · exact (apart i j below below' less inFirst inSecond).elim
  · exact same
  · exact (apart j i below' below greater inSecond inFirst).elim

include settled distinct

theorem place_le_of_reaches {i j : Nat} {first second : List Nat}
    (foundFirst : closed[i]? = some first) (foundSecond : closed[j]? = some second)
    {source target : Nat} (inFirst : source ∈ first) (inSecond : target ∈ second)
    (reaches : graph.Reaches source target) : j ≤ i := by
  obtain ⟨earlier, below, other, known, there⟩ := settled.place_le foundFirst inFirst reaches
  rw [place_eq distinct foundSecond known inSecond there]
  exact below

/-- Nodes share a component exactly if they reach each other. -/
theorem share_iff {first second : Nat} (listed : first ∈ closed.flatten)
    (listed' : second ∈ closed.flatten) :
    (∃ component ∈ closed, first ∈ component ∧ second ∈ component) ↔
      graph.Reaches first second ∧ graph.Reaches second first := by
  constructor
  · rintro ⟨component, member, here, here'⟩
    exact ⟨settled.linked component member first here second here',
      settled.linked component member second here' first here⟩
  · rintro ⟨there, back⟩
    obtain ⟨component, member, here⟩ := List.mem_flatten.mp listed
    obtain ⟨other, member', here'⟩ := List.mem_flatten.mp listed'
    obtain ⟨i, found⟩ := List.mem_iff_getElem?.mp member
    obtain ⟨j, found'⟩ := List.mem_iff_getElem?.mp member'
    have same : i = j := Nat.le_antisymm
      (settled.place_le_of_reaches distinct found' found here' here back)
      (settled.place_le_of_reaches distinct found found' here here' there)
    rw [same, found'] at found
    cases found
    exact ⟨component, member, here, here'⟩

end Reading

end Settled

namespace Search

/-- The visited nodes. -/
def seen (search : Search) : List Nat := search.opened ++ search.closed.flatten

theorem visited_iff (search : Search) (node : Nat) :
    search.visited node = true ↔ node ∈ search.seen := by
  simp [visited, seen]

@[simp] theorem seen_openNode (search : Search) (node : Nat) :
    (search.openNode node).seen = node :: search.seen := rfl

end Search

/-- No node is visited twice, and what is closed are complete components. -/
structure Sound (graph : Graph) (search : Search) : Prop where
  distinct : search.seen.Nodup
  bounded : ∀ node ∈ search.seen, node < graph.order
  settled : graph.Settled search.closed

/-- The search has gone on from some nodes: they are visited, and so are the targets of every
node visited since. What was opened since and is still open is reached from these nodes and
reaches a node that was open before. -/
structure Advances (graph : Graph) (roots : List Nat) (search later : Search) : Prop where
  sound : graph.Sound later
  visited : ∀ root ∈ roots, root ∈ later.seen
  opened : search.opened <:+ later.opened
  closed : search.closed <+: later.closed
  found : ∀ node ∈ later.opened, node ∉ search.opened → ∃ root ∈ roots, graph.Reaches root node
  anchored : ∀ node ∈ later.opened, node ∉ search.opened →
    ∃ older ∈ search.opened, graph.Reaches node older
  explored : ∀ node ∈ later.seen, node ∉ search.seen →
    ∀ target, (node, target) ∈ graph.edges → target ∈ later.seen

namespace Advances

variable {roots more : List Nat} {search later last : Search}

theorem seen_subset (advances : graph.Advances roots search later) :
    search.seen ⊆ later.seen := by
  intro node member
  rcases List.mem_append.mp member with opened | closed
  · exact List.mem_append_left _ (advances.opened.mem opened)
  · exact List.mem_append_right _ (advances.closed.flatten.mem closed)

theorem refl (sound : graph.Sound search) (visited : ∀ root ∈ roots, root ∈ search.seen) :
    graph.Advances roots search search where
  sound := sound
  visited := visited
  opened := List.suffix_refl _
  closed := List.prefix_refl _
  found _ member absent := absurd member absent
  anchored _ member absent := absurd member absent
  explored _ member absent := absurd member absent

theorem trans (first : graph.Advances roots search later)
    (second : graph.Advances more later last) : graph.Advances (roots ++ more) search last where
  sound := second.sound
  visited root member := by
    rcases List.mem_append.mp member with old | new
    · exact second.seen_subset (first.visited root old)
    · exact second.visited root new
  opened := first.opened.trans second.opened
  closed := first.closed.trans second.closed
  found node member absent := by
    by_cases before : node ∈ later.opened
    · obtain ⟨root, listed, reaches⟩ := first.found node before absent
      exact ⟨root, List.mem_append_left _ listed, reaches⟩
    · obtain ⟨root, listed, reaches⟩ := second.found node member before
      exact ⟨root, List.mem_append_right _ listed, reaches⟩
  anchored node member absent := by
    by_cases before : node ∈ later.opened
    · exact first.anchored node before absent
    · obtain ⟨middle, there, reaches⟩ := second.anchored node member before
      by_cases old : middle ∈ search.opened
      · exact ⟨middle, old, reaches⟩
      · obtain ⟨older, here, reachesOlder⟩ := first.anchored middle there old
        exact ⟨older, here, reaches.trans reachesOlder⟩
  explored node member absent target edge := by
    by_cases before : node ∈ later.seen
    · exact second.seen_subset (first.explored node before absent target edge)
    · exact second.explored node member before target edge

end Advances

/-- Unless all nodes are visited, the depth is not used up. -/
theorem Sound.mem_seen_of_full {search : Search} (sound : graph.Sound search)
    (full : graph.order ≤ search.seen.length) {node : Nat} (below : node < graph.order) :
    node ∈ search.seen := by
  have within : search.seen ⊆ List.range graph.order := fun node member =>
    List.mem_range.mpr (sound.bounded node member)
  have all : search.seen.Perm (List.range graph.order) :=
    (List.subperm_of_subset sound.distinct within).perm_of_length_le (by simpa using full)
  exact all.mem_iff.mpr (List.mem_range.mpr below)

/-- The open nodes since a node, with that node: it reaches them, and from each of them the way
leads back to it or to older ones. -/
structure Block (graph : Graph) (node : Nat) (block : List Nat) (search later : Search) :
    Prop where
  stack : later.opened = block ++ search.opened
  start : node ∈ block
  reached : ∀ member ∈ block, graph.Reaches node member
  returns : ∀ member ∈ block,
    graph.Reaches member node ∨ ∃ older ∈ search.opened, graph.Reaches member older
  explored : ∀ member ∈ block, ∀ target, (member, target) ∈ graph.edges → target ∈ later.seen

section Closing

variable {search later : Search} {node : Nat}

/-- What a visit has opened when all targets of its node are visited. -/
theorem Advances.blocked
    (advances : graph.Advances (graph.targets node).reverse (search.openNode node) later) :
    graph.Block node (later.opened.takeWhile (fun other => other != node) ++ [node]) search
      later := by
  obtain ⟨fresh, stack⟩ := advances.opened
  change fresh ++ node :: search.opened = later.opened at stack
  have distinct : (fresh ++ node :: search.opened).Nodup := by
    rw [stack]
    exact advances.sound.distinct.of_append_left
  have other (newer : Nat) (member : newer ∈ fresh) : newer ∉ node :: search.opened :=
    List.disjoint_of_nodup_append distinct member
  have fresh_eq : later.opened.takeWhile (fun other => other != node) = fresh := by
    have apart : ∀ newer ∈ fresh, (newer != node) = true := fun newer member =>
      bne_iff_ne.mpr fun same => other newer member (same ▸ List.mem_cons_self)
    rw [← stack, List.takeWhile_append_of_pos apart]
    simp
  have opened (newer : Nat) (member : newer ∈ fresh) : newer ∈ later.opened :=
    stack ▸ List.mem_append_left _ member
  rw [fresh_eq]
  constructor
  · rw [← stack, List.append_assoc, List.singleton_append]
  · exact List.mem_concat_self
  · intro member listed
    rcases List.mem_append.mp listed with newer | same
    · obtain ⟨root, target, reaches⟩ := advances.found member (opened member newer)
        (other member newer)
      have edge := (graph.mem_targets node root).mp (List.mem_reverse.mp target)
      exact reaches.head edge
    · rw [List.mem_singleton.mp same]
  · intro member listed
    rcases List.mem_append.mp listed with newer | same
    · obtain ⟨older, there, reaches⟩ := advances.anchored member (opened member newer)
        (other member newer)
      rcases List.mem_cons.mp there with back | behind
      · exact Or.inl (back ▸ reaches)
      · exact Or.inr ⟨older, behind, reaches⟩
    · rw [List.mem_singleton.mp same]
      exact Or.inl .refl
  · intro member listed target edge
    rcases List.mem_append.mp listed with newer | same
    · apply advances.explored member (List.mem_append_left _ (opened member newer)) _ target edge
      intro before
      rcases List.mem_append.mp before with stacked | closed
      · exact other member newer stacked
      · exact List.disjoint_of_nodup_append advances.sound.distinct (opened member newer)
          (advances.closed.flatten.mem closed)
    · apply advances.visited
      rw [List.mem_reverse, mem_targets, ← List.mem_singleton.mp same]
      exact edge

variable {block : List Nat}

/-- An edge to an older node leaves the block open, and every node of it reaches that one. -/
theorem Block.anchored (blocked : graph.Block node block search later) {source older : Nat}
    (member : source ∈ block) (old : older ∈ search.opened)
    (edge : (source, older) ∈ graph.edges) :
    ∀ other ∈ block, ∃ older ∈ search.opened, graph.Reaches other older := by
  intro other listed
  rcases blocked.returns other listed with back | behind
  · exact ⟨older, old, (back.trans (blocked.reached source member)).tail edge⟩
  · exact behind

/-- Without an edge to an older node, no way leads out of the block except to components. -/
theorem Block.confined (blocked : graph.Block node block search later)
    (settled : graph.Settled later.closed)
    (apart : ∀ source ∈ block, ∀ older ∈ search.opened, (source, older) ∉ graph.edges)
    {source target : Nat} (member : source ∈ block) (reaches : graph.Reaches source target) :
    target ∈ block ∨ target ∈ later.closed.flatten := by
  induction reaches with
  | refl => exact Or.inl member
  | @tail middle target _ edge before =>
    rcases before with inside | outside
    · have seen := blocked.explored middle inside target edge
      rw [Search.seen, blocked.stack, List.mem_append, List.mem_append] at seen
      rcases seen with (within | older) | closed
      · exact Or.inl within
      · exact absurd edge (apart middle inside target older)
      · exact Or.inr closed
    · exact Or.inr (settled.flatten_closed outside edge)

theorem Block.linked (blocked : graph.Block node block search later) (sound : graph.Sound later)
    (apart : ∀ source ∈ block, ∀ older ∈ search.opened, (source, older) ∉ graph.edges) :
    ∀ first ∈ block, ∀ second ∈ block, graph.Reaches first second := by
  have back : ∀ member ∈ block, graph.Reaches member node := by
    intro member listed
    rcases blocked.returns member listed with back | ⟨older, old, reaches⟩
    · exact back
    · -- The older node would be in the block or closed, and it is open below the block.
      have distinct := sound.distinct
      rw [Search.seen, blocked.stack] at distinct
      rcases blocked.confined sound.settled apart listed reaches with inside | closed
      · exact absurd old (List.disjoint_of_nodup_append distinct.of_append_left inside)
      · exact absurd closed
          (List.disjoint_of_nodup_append distinct (List.mem_append_right _ old))
  intro first member second listed
  exact (back first member).trans (blocked.reached second listed)

open scoped List in
/-- The block becomes a component. -/
theorem Block.close (blocked : graph.Block node block search later) (sound : graph.Sound later)
    (apart : ∀ source ∈ block, ∀ older ∈ search.opened, (source, older) ∉ graph.edges) :
    graph.Sound ⟨search.opened, later.closed ++ [ascending block]⟩ ∧
      (Search.mk search.opened (later.closed ++ [ascending block])).seen.Perm
        later.seen := by
  have distinct := sound.distinct
  rw [Search.seen, blocked.stack] at distinct
  have same : (ascending block).Perm block := ascending_perm block
  have moved : (Search.mk search.opened (later.closed ++ [ascending block])).seen.Perm
      later.seen := by
    rw [Search.seen, Search.seen, blocked.stack, List.flatten_append, List.flatten_singleton]
    calc
      _ = search.opened ++ later.closed.flatten ++ ascending block :=
        (List.append_assoc _ _ _).symm
      _ ~ search.opened ++ later.closed.flatten ++ block := same.append_left _
      _ ~ block ++ (search.opened ++ later.closed.flatten) := List.perm_append_comm
      _ = _ := (List.append_assoc _ _ _).symm
  have linked := blocked.linked sound apart
  refine ⟨⟨moved.nodup_iff.mpr sound.distinct, ?_, ?_⟩, moved⟩
  · intro member listed
    exact sound.bounded member (moved.mem_iff.mp listed)
  · apply sound.settled.concat
    · exact List.ne_nil_of_mem (same.mem_iff.mpr blocked.start)
    · exact ascending_sorted distinct.of_append_left.of_append_left
    · intro first member second listed
      exact linked first (same.mem_iff.mp member) second (same.mem_iff.mp listed)
    · intro source member target edge
      rw [same.mem_iff] at member ⊢
      exact blocked.confined sound.settled apart member (.single edge)

theorem advances_closeNode
    (advances : graph.Advances (graph.targets node).reverse (search.openNode node) later) :
    graph.Advances [node] search (graph.closeNode node search.opened later) := by
  have blocked := advances.blocked
  have seen : node ∈ later.seen := advances.seen_subset List.mem_cons_self
  have explored : ∀ member ∈ later.seen, member ∉ search.seen →
      ∀ target, (member, target) ∈ graph.edges → target ∈ later.seen := by
    intro member listed absent target edge
    by_cases same : member = node
    · exact blocked.explored node blocked.start target (same ▸ edge)
    · exact advances.explored member listed (by simp [same, absent]) target edge
  unfold closeNode
  dsimp only
  split
  next leading =>
    obtain ⟨source, member, older, old, edge⟩ := (graph.leads_iff _ _).mp leading
    have inBlock (other : Nat) (listed : other ∈ later.opened) (absent : other ∉ search.opened) :
        other ∈ later.opened.takeWhile (fun other => other != node) ++ [node] := by
      rw [blocked.stack, List.mem_append] at listed
      exact listed.resolve_right absent
    exact {
      sound := advances.sound
      visited := List.forall_mem_singleton.mpr seen
      opened := ⟨_, blocked.stack.symm⟩
      closed := advances.closed
      found := fun other listed absent =>
        ⟨node, List.mem_singleton_self node, blocked.reached other (inBlock other listed absent)⟩
      anchored := fun other listed absent =>
        blocked.anchored member old edge other (inBlock other listed absent)
      explored := explored }
  next quiet =>
    have apart : ∀ source ∈ later.opened.takeWhile (fun other => other != node) ++ [node],
        ∀ older ∈ search.opened, (source, older) ∉ graph.edges :=
      fun source member older old edge =>
        quiet ((graph.leads_iff _ _).mpr ⟨source, member, older, old, edge⟩)
    obtain ⟨sound, moved⟩ := blocked.close advances.sound apart
    exact {
      sound := sound
      visited := List.forall_mem_singleton.mpr (moved.mem_iff.mpr seen)
      opened := List.suffix_refl _
      closed := advances.closed.trans (List.prefix_append _ _)
      found := fun _ listed absent => absurd listed absent
      anchored := fun _ listed absent => absurd listed absent
      explored := fun other listed absent target edge =>
        moved.mem_iff.mpr (explored other (moved.mem_iff.mp listed) absent target edge) }

end Closing

section Visiting

/-- A depth is enough if it covers the nodes that are not visited. -/
theorem advances_foldl {depth : Nat} {nodes : List Nat} {search : Search}
    (step : ∀ node ∈ nodes, ∀ search, graph.Sound search →
      graph.order ≤ depth + search.seen.length →
        graph.Advances [node] search (graph.visit depth node search))
    (sound : graph.Sound search) (enough : graph.order ≤ depth + search.seen.length) :
    graph.Advances nodes search
      (nodes.foldl (fun search node => graph.visit depth node search) search) := by
  induction nodes generalizing search with
  | nil => exact .refl sound nofun
  | cons node rest ih =>
    have first := step node List.mem_cons_self search sound enough
    have more : search.seen.length ≤ (graph.visit depth node search).seen.length :=
      (List.subperm_of_subset sound.distinct first.seen_subset).length_le
    exact first.trans (ih (fun next member => step next (List.mem_cons_of_mem _ member))
      first.sound (by omega))

theorem advances_visit (bounded : graph.Bounded) (depth : Nat) {node : Nat}
    (below : node < graph.order) {search : Search} (sound : graph.Sound search)
    (enough : graph.order ≤ depth + search.seen.length) :
    graph.Advances [node] search (graph.visit depth node search) := by
  induction depth generalizing node search with
  | zero =>
    have seen := sound.mem_seen_of_full (by omega) below
    exact .refl sound (List.forall_mem_singleton.mpr seen)
  | succ depth ih =>
    unfold visit
    split
    next visited =>
      exact .refl sound (List.forall_mem_singleton.mpr ((search.visited_iff node).mp visited))
    next unvisited =>
      have new : node ∉ search.seen := fun member =>
        unvisited ((search.visited_iff node).mpr member)
      have opened : graph.Sound (search.openNode node) := by
        refine ⟨List.nodup_cons.mpr ⟨new, sound.distinct⟩, ?_, sound.settled⟩
        exact List.forall_mem_cons.mpr ⟨below, sound.bounded⟩
      apply advances_closeNode
      apply advances_foldl _ opened
      · rw [Search.seen_openNode, List.length_cons]
        omega
      · intro target member later soundLater enoughLater
        have edge := (graph.mem_targets node target).mp (List.mem_reverse.mp member)
        exact ih (bounded _ edge).2 soundLater enoughLater

/-- Every node is in one component, and every component comes after those it leads to. -/
theorem components_settled (bounded : graph.Bounded) :
    graph.Settled graph.components ∧ graph.components.flatten.Perm (List.range graph.order) := by
  have start : graph.Sound Search.start := ⟨List.nodup_nil, nofun, .empty graph⟩
  have done : graph.Advances (List.range graph.order) Search.start
      ((List.range graph.order).foldl (fun search node => graph.visit graph.order node search)
        Search.start) := by
    apply advances_foldl _ start (Nat.le_add_right _ _)
    intro node member search sound enough
    exact advances_visit bounded graph.order (List.mem_range.mp member) sound enough
  -- Nothing was open before, so nothing is left open.
  have none : ((List.range graph.order).foldl
      (fun search node => graph.visit graph.order node search) Search.start).opened = [] := by
    rw [List.eq_nil_iff_forall_not_mem]
    intro node member
    obtain ⟨older, absurdity, _⟩ := done.anchored node member List.not_mem_nil
    cases absurdity
  have seen : ((List.range graph.order).foldl
      (fun search node => graph.visit graph.order node search) Search.start).seen =
        graph.components.flatten := by
    rw [Search.seen, none]
    rfl
  refine ⟨done.sound.settled, ?_⟩
  rw [← seen, List.perm_ext_iff_of_nodup done.sound.distinct List.nodup_range]
  intro node
  exact ⟨fun member => List.mem_range.mpr (done.sound.bounded node member), done.visited node⟩

end Visiting

end Monomorph.Graph
