import Monomorph.Proofs.TableSteps

/-!
What a call answers and what it leaves behind. A request ends in one of four ways: a check
refuses it, it leads to an instance that is there, it enters a new one, or the new one would lie
too deep. A call that answers with a fault has changed nothing but the list of faults, where its
fault comes last; any other call leaves the list alone. So the faults that were taken along a run
and those that are listed at its end are the ones its calls answered with.
-/

namespace Monomorph

namespace InstanceTable

/-- The instance that a request without a fault enters, if there is none yet. -/
def entrant (table : InstanceTable) (request : Request) (depth : Nat) : Instance :=
  ⟨table.size, request.generic, request.arguments, false, request.span, depth, request.parent⟩

section Links

variable (table : InstanceTable) (parent : Option Nat) (child : Nat)

@[simp] theorem instances_linkParent :
    (table.linkParent parent child).instances = table.instances := by
  cases parent <;> rfl

@[simp] theorem size_linkParent : (table.linkParent parent child).size = table.size := by
  rw [size, instances_linkParent, size]

@[simp] theorem size_push (entry : Instance) : (table.push entry).size = table.size + 1 := by
  rw [size, instances_push, List.length_append, List.length_singleton, size]

@[simp] theorem faults_linkParent : (table.linkParent parent child).faults = table.faults := by
  cases parent <;> rfl

@[simp] theorem interned?_linkParent (generic : String) (arguments : List Ty) :
    (table.linkParent parent child).interned? generic arguments =
      table.interned? generic arguments := by
  cases parent <;> rfl

end Links

section Requests

variable {table : InstanceTable} {catalog : Catalog} {traits : TraitAuthority} {request : Request}

theorem request_refused {fault : Fault}
    (refused : (request.check table.policy catalog traits).answer = some fault) :
    table.request catalog traits request =
      (⟨.error fault, (request.check table.policy catalog traits).asked⟩, table.record fault) := by
  simp only [InstanceTable.request, refused]

section Passed

variable (passed : (request.check table.policy catalog traits).answer = none)

include passed

theorem request_known {id : Nat}
    (known : table.interned? request.generic request.arguments = some id) :
    table.request catalog traits request =
      (⟨.ok id, (request.check table.policy catalog traits).asked⟩,
        table.linkParent request.parent id) := by
  simp only [InstanceTable.request, passed, settle, known]

variable (absent : table.interned? request.generic request.arguments = none)

include absent

theorem request_new (shallow : table.depthBelow request.parent ≤ table.policy.maxDepth) :
    table.request catalog traits request =
      (⟨.ok table.size, (request.check table.policy catalog traits).asked⟩,
        (table.push (table.entrant request (table.depthBelow request.parent))).linkParent
          request.parent table.size) := by
  simp only [InstanceTable.request, passed, settle, absent, if_pos shallow, entrant]

theorem request_endless (deep : table.policy.maxDepth < table.depthBelow request.parent) :
    table.request catalog traits request =
      (⟨.error (.endlessExpansion request.generic request.arguments table.policy.maxDepth
          request.place), (request.check table.policy catalog traits).asked⟩,
        table.record (.endlessExpansion request.generic request.arguments table.policy.maxDepth
          request.place)) := by
  simp only [InstanceTable.request, passed, settle, absent, if_neg (Nat.not_le_of_lt deep)]

theorem get?_request_new (shallow : table.depthBelow request.parent ≤ table.policy.maxDepth) :
    (table.request catalog traits request).2.get? table.size =
      some (table.entrant request (table.depthBelow request.parent)) := by
  rw [request_new passed absent shallow, get?, instances_linkParent, instances_push, size]
  exact List.getElem?_concat_length

end Passed

variable (table catalog traits request)

/-- A request fails and leaves its fault, or it is without fault and leads to an instance that
is there or to a new one that does not lie too deep. -/
theorem request_cases :
    (∃ fault, table.request catalog traits request =
      (⟨.error fault, (request.check table.policy catalog traits).asked⟩, table.record fault)) ∨
    (request.check table.policy catalog traits).answer = none ∧
      ((∃ id, table.interned? request.generic request.arguments = some id ∧
          table.request catalog traits request =
            (⟨.ok id, (request.check table.policy catalog traits).asked⟩,
              table.linkParent request.parent id)) ∨
        table.interned? request.generic request.arguments = none ∧
          table.depthBelow request.parent ≤ table.policy.maxDepth ∧
          table.request catalog traits request =
            (⟨.ok table.size, (request.check table.policy catalog traits).asked⟩,
              (table.push (table.entrant request (table.depthBelow request.parent))).linkParent
                request.parent table.size)) := by
  cases judged : (request.check table.policy catalog traits).answer with
  | some fault => exact Or.inl ⟨fault, request_refused judged⟩
  | none =>
    cases known : table.interned? request.generic request.arguments with
    | some id => exact Or.inr ⟨rfl, Or.inl ⟨id, rfl, request_known judged known⟩⟩
    | none =>
      by_cases shallow : table.depthBelow request.parent ≤ table.policy.maxDepth
      · exact Or.inr ⟨rfl, Or.inr ⟨rfl, shallow, request_new judged known shallow⟩⟩
      · exact Or.inl ⟨_, request_endless judged known (Nat.lt_of_not_le shallow)⟩

variable {table catalog traits request}

/-- An instance that a request enters is the one it asks for, one step below its parent. -/
theorem request_entry {entry : Instance}
    (member : entry ∈ (table.request catalog traits request).2.instances) :
    entry ∈ table.instances ∨
      (request.check table.policy catalog traits).answer = none ∧
        table.depthBelow request.parent ≤ table.policy.maxDepth ∧
        entry = table.entrant request (table.depthBelow request.parent) ∧
        (table.request catalog traits request).2 =
          (table.push entry).linkParent request.parent table.size := by
  rcases table.request_cases catalog traits request with
    ⟨fault, same⟩ | ⟨passed, ⟨id, _, same⟩ | ⟨_, shallow, same⟩⟩
  · rw [same] at member
    exact Or.inl member
  · rw [same, instances_linkParent] at member
    exact Or.inl member
  · rw [same] at member ⊢
    rw [instances_linkParent, instances_push, List.mem_append, List.mem_singleton] at member
    rcases member with old | rfl
    · exact Or.inl old
    · exact Or.inr ⟨passed, shallow, rfl, rfl⟩

end Requests

end InstanceTable

namespace CompilationUnit

/-- A sweep does nothing to the table but mark instances. -/
theorem table_sweep_eq (unit : CompilationUnit) :
    unit.sweep.2.table = unit.table.markAll unit.table.pending := by
  have round (state : InstanceTable × ArtifactStore) (id : Nat) :
      state.1.markEmitted id = (ArtifactStore.emit unit.catalog state id).1 := by
    obtain ⟨table, store⟩ := state
    rcases ArtifactStore.emit_cases unit.catalog table store id with
      ⟨missing, emitted⟩ | ⟨entry, _, ⟨_, emitted⟩ | ⟨_, emitted⟩⟩
    · have beyond : table.instances.length ≤ id := List.getElem?_eq_none_iff.mp missing
      rw [emitted, InstanceTable.markEmitted, List.modify_eq_self beyond]
    · rw [emitted]
    · rw [emitted]
  exact (List.foldl_hom Prod.fst round).symm

section Calls

/-- What a call leaves of a unit: a fault is put behind those listed and all else stays as it
was; without a fault the list stays as it was. -/
def Leaves {α : Type} (unit : CompilationUnit) (answer : Except Fault α) (next : CompilationUnit) :
    Prop :=
  match answer with
  | .ok _ => next.faults = unit.faults
  | .error fault =>
      next = { unit with table := { unit.table with faults := unit.faults ++ [fault] } }

variable (unit : CompilationUnit)

theorem leaves_register (shared : SharedGeneric) :
    unit.Leaves (unit.register shared).1 (unit.register shared).2 := by
  unfold register
  cases unit.catalog.register shared with
  | ok catalog => rfl
  | error fault => rfl

theorem leaves_request (request : Request) :
    unit.Leaves (unit.request request).1.answer (unit.request request).2 := by
  unfold CompilationUnit.request
  rcases unit.table.request_cases unit.catalog unit.traits request with
    ⟨fault, same⟩ | ⟨_, ⟨id, _, same⟩ | ⟨_, _, same⟩⟩
  · rw [same]
    rfl
  · rw [same]
    exact InstanceTable.faults_linkParent _ _ _
  · rw [same]
    exact InstanceTable.faults_linkParent _ _ _

end Calls

section Runs

/-- The fault of a call that failed. -/
def faultOf {α : Type} : Except Fault α → List Fault
  | .ok _ => []
  | .error fault => [fault]

variable (unit : CompilationUnit)

/-- The fault that a change answers with. -/
def answered : Change → List Fault
  | .register shared => faultOf (unit.register shared).1
  | .request request => faultOf (unit.request request).1.answer
  | .requestWithDefaults request => faultOf (unit.requestWithDefaults request).1.answer
  | _ => []

/-- The faults that a change takes from the list. -/
def taken : Change → List Fault
  | .takeFaults => unit.takeFaults.1
  | _ => []

/-- The faults that the changes of a run answer with, in the order of the changes. -/
def answeredAlong (unit : CompilationUnit) : List Change → List Fault
  | [] => []
  | change :: rest => unit.answered change ++ (unit.after change).answeredAlong rest

/-- The faults that are taken along a run. -/
def takenAlong (unit : CompilationUnit) : List Change → List Fault
  | [] => []
  | change :: rest => unit.taken change ++ (unit.after change).takenAlong rest

theorem alone_cons {change : Change} {rest : List Change} :
    (∀ other, Change.merge other ∉ change :: rest) ↔
      (∀ other, change ≠ .merge other) ∧ ∀ other, Change.merge other ∉ rest := by
  simp only [List.mem_cons, not_or, forall_and, ne_eq, eq_comm]

theorem faults_of_leaves {α : Type} {answer : Except Fault α} {next : CompilationUnit}
    (leaves : unit.Leaves answer next) : next.faults = unit.faults ++ faultOf answer := by
  cases answer with
  | ok value =>
    rw [faultOf, List.append_nil]
    exact leaves
  | error fault =>
    rw [show next = _ from leaves]
    rfl

/-- The faults listed before a change and the one it answers with are taken by it or listed
after it. -/
theorem faults_after {change : Change} (alone : ∀ other, change ≠ .merge other) :
    unit.taken change ++ (unit.after change).faults = unit.faults ++ unit.answered change := by
  cases change with
  | register shared => exact unit.faults_of_leaves (unit.leaves_register shared)
  | request request => exact unit.faults_of_leaves (unit.leaves_request request)
  | requestWithDefaults request => exact unit.faults_of_leaves (unit.leaves_request _)
  | sweep =>
    have kept : unit.sweep.2.faults = unit.faults := by
      rw [faults, table_sweep_eq, InstanceTable.markAll_eq]
      rfl
    exact kept.trans (List.append_nil _).symm
  | takeArtifacts => exact (List.append_nil _).symm
  | takeFaults => rfl
  | merge other => exact absurd rfl (alone other)

theorem faults_afterAll {changes : List Change} (alone : ∀ other, Change.merge other ∉ changes) :
    unit.takenAlong changes ++ (unit.afterAll changes).faults =
      unit.faults ++ unit.answeredAlong changes := by
  induction changes generalizing unit with
  | nil => exact (List.append_nil _).symm
  | cons change rest ih =>
    obtain ⟨here, rests⟩ := alone_cons.mp alone
    have later := ih (unit.after change) rests
    calc unit.takenAlong (change :: rest) ++ (unit.afterAll (change :: rest)).faults
      _ = unit.taken change ++ ((unit.after change).takenAlong rest ++
            ((unit.after change).afterAll rest).faults) := List.append_assoc _ _ _
      _ = unit.taken change ++ (unit.after change).faults ++
            (unit.after change).answeredAlong rest := by rw [later, List.append_assoc]
      _ = unit.faults ++ unit.answeredAlong (change :: rest) := by
        rw [unit.faults_after here, List.append_assoc]
        rfl

end Runs

/-- A registration or request that fails leaves its fault at the end of the list and everything
else as it was; one that succeeds leaves the list as it was. So after any run without a merge the
faults that were taken, followed by those that are listed, are the faults that the calls answered
with, each once and in their order. -/
theorem failures_recorded (unit : CompilationUnit) :
    (∀ shared, unit.Leaves (unit.register shared).1 (unit.register shared).2) ∧
    (∀ request, unit.Leaves (unit.request request).1.answer (unit.request request).2) ∧
    (∀ request, unit.Leaves (unit.requestWithDefaults request).1.answer
      (unit.requestWithDefaults request).2) ∧
    ∀ traits policy changes, (∀ other, Change.merge other ∉ changes) →
      (empty traits policy).takenAlong changes ++ ((empty traits policy).afterAll changes).faults =
        (empty traits policy).answeredAlong changes := by
  refine ⟨unit.leaves_register, unit.leaves_request, ?_, ?_⟩
  · intro request
    exact unit.leaves_request (request.withDefaults unit.catalog)
  · intro traits policy changes alone
    exact (empty traits policy).faults_afterAll alone

/-- Faults of every call, some of them taken on the way. -/
def faultyHistory : List Change :=
  [.register box, .register box, .request ⟨"Bix", [], some ⟨3, 6⟩, none⟩, boxOf .int, .takeFaults,
    .requestWithDefaults ⟨"Box", [], none, none⟩, .sweep,
    .request ⟨"Box", [.param "T"], none, some 0⟩]

theorem faulty_recorded :
    (∀ other, Change.merge other ∉ faultyHistory) ∧
    (empty .lenient .standard).answeredAlong faultyHistory =
      [.duplicateGeneric "Box" none none, .unknownGeneric "Bix" (some ⟨3, 3⟩),
        .argumentCount "Box" 1 0 none,
        .invalidArgument "Box" "T" (.param "T") .openArgument none] ∧
    (empty .lenient .standard).takenAlong faultyHistory ++
      ((empty .lenient .standard).afterAll faultyHistory).faults =
        (empty .lenient .standard).answeredAlong faultyHistory ∧
    boxes.Leaves (boxes.register box).1 (boxes.register box).2 ∧
    (boxes.register box).1 = .error (.duplicateGeneric "Box" none none) := by
  have alone : ∀ other, Change.merge other ∉ faultyHistory := by simp [faultyHistory, boxOf]
  obtain ⟨registered, _, _, run⟩ := failures_recorded boxes
  exact ⟨alone, by decide, run _ _ _ alone, registered box, rfl⟩

end CompilationUnit

end Monomorph
