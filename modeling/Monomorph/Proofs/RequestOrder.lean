import Monomorph.Proofs.Errands
import Monomorph.Proofs.MergeOrder
import Monomorph.Proofs.Seats
import Monomorph.Proofs.Stability

/-!
The order of requests that come from no instance. Holders of a shared unit make their requests
one after another, and nobody decides who comes first. A request is judged by the declarations,
the traits and the policy, none of which a request changes, and without a parent it cannot lie
too deep. So every order of the same requests has the same faults and leads to the same
instances, which may only be numbered differently.
-/

namespace Monomorph

/-- A request that comes from no instance, as it stands or with arguments left to the defaults. -/
inductive Call where
  | plain (generic : String) (arguments : List Ty) (span : Option Span)
  | withDefaults (generic : String) (arguments : List Ty) (span : Option Span)

namespace Call

def action : Call → Workspace.Action
  | plain generic arguments span => .request ⟨generic, arguments, span, none⟩
  | withDefaults generic arguments span => .requestWithDefaults ⟨generic, arguments, span, none⟩

/-- The request that is made, with the defaults filled in. -/
def request (catalog : Catalog) : Call → Request
  | plain generic arguments span => ⟨generic, arguments, span, none⟩
  | withDefaults generic arguments span =>
      Request.withDefaults catalog ⟨generic, arguments, span, none⟩

theorem parent_request (catalog : Catalog) (call : Call) :
    (call.request catalog).parent = none := by
  cases call with
  | plain generic arguments span => rfl
  | withDefaults generic arguments span => exact Request.parent_withDefaults catalog _

end Call

namespace CompilationUnit

/-- What is found about a call before the instances are looked at. -/
def judged (unit : CompilationUnit) (call : Call) : Inquiry TraitQuestion (Option Fault) :=
  (call.request unit.catalog).check unit.policy unit.catalog unit.traits

/-- The generic and the arguments that a call asks for. -/
def keyOf (unit : CompilationUnit) (call : Call) : String × List Ty :=
  ((call.request unit.catalog).generic, (call.request unit.catalog).arguments)

/-- Where the instance is that a call asks for. -/
def known? (unit : CompilationUnit) (call : Call) : Option Nat :=
  unit.table.interned? (unit.keyOf call).1 (unit.keyOf call).2

def call (unit : CompilationUnit) (call : Call) :
    Inquiry TraitQuestion (Except Fault Nat) × CompilationUnit :=
  unit.request (call.request unit.catalog)

def callAll (unit : CompilationUnit) (calls : List Call) : CompilationUnit :=
  calls.foldl (fun unit call => (unit.call call).2) unit

section Answers

variable {unit : CompilationUnit} {call : Call}

theorem perform_action (unit : CompilationUnit) (call : Call) :
    call.action.perform unit = (.outcome (unit.call call).1, (unit.call call).2) := by
  cases call <;> rfl

theorem call_refused {fault : Fault} (refused : (unit.judged call).answer = some fault) :
    unit.call call = (⟨.error fault, (unit.judged call).asked⟩,
      { unit with table := unit.table.record fault }) := by
  unfold CompilationUnit.call CompilationUnit.request
  rw [InstanceTable.request_refused refused]
  rfl

theorem call_known (passed : (unit.judged call).answer = none) {id : Nat}
    (known : unit.known? call = some id) :
    unit.call call = (⟨.ok id, (unit.judged call).asked⟩, unit) := by
  unfold CompilationUnit.call CompilationUnit.request
  rw [InstanceTable.request_known passed known, Call.parent_request]
  rfl

theorem call_new (passed : (unit.judged call).answer = none) (absent : unit.known? call = none) :
    unit.call call = (⟨.ok unit.table.size, (unit.judged call).asked⟩,
      { unit with table :=
          unit.table.push (unit.table.entrant (call.request unit.catalog) 0) }) := by
  have root : unit.table.depthBelow (call.request unit.catalog).parent = 0 := by
    rw [Call.parent_request]
    rfl
  unfold CompilationUnit.call CompilationUnit.request
  rw [InstanceTable.request_new passed absent (root ▸ Nat.zero_le _), root, Call.parent_request]
  rfl

/-- What the answer says is so in this unit: the call is refused, or its instance is there. -/
def Answered (unit : CompilationUnit) (call : Call) : Except Fault Nat → Prop
  | .error fault => (unit.judged call).answer = some fault
  | .ok id => (unit.judged call).answer = none ∧ unit.known? call = some id

theorem answered_call (coherent : unit.table.Coherent) :
    (unit.call call).2.Answered call (unit.call call).1.answer := by
  cases judged : (unit.judged call).answer with
  | some fault =>
    rw [call_refused judged]
    exact judged
  | none =>
    cases known : unit.known? call with
    | some id =>
      rw [call_known judged known]
      exact ⟨judged, known⟩
    | none =>
      rw [call_new judged known]
      exact ⟨judged, InstanceTable.interned?_push_self coherent rfl known⟩

theorem Answered.ok_iff {answer : Except Fault Nat} (answered : unit.Answered call answer) :
    (∃ id, answer = .ok id) ↔ (unit.judged call).answer = none := by
  cases answer with
  | error fault =>
    rw [show (unit.judged call).answer = some fault from answered]
    exact iff_of_false nofun nofun
  | ok id => exact iff_of_true ⟨id, rfl⟩ answered.1

theorem Answered.error_iff {answer : Except Fault Nat} (answered : unit.Answered call answer)
    (fault : Fault) : answer = .error fault ↔ (unit.judged call).answer = some fault := by
  cases answer with
  | error found =>
    rw [show (unit.judged call).answer = some found from answered, Except.error.injEq,
      Option.some.injEq]
  | ok id =>
    rw [answered.1]
    exact iff_of_false nofun nofun

/-- Two calls have one instance exactly if they ask for the same. -/
theorem Answered.id_eq_iff (coherent : unit.table.Coherent) {other : Call} {id id' : Nat}
    (here : unit.Answered call (.ok id)) (there : unit.Answered other (.ok id')) :
    id = id' ↔ unit.keyOf call = unit.keyOf other := by
  obtain ⟨entry, found, key⟩ := (coherent.interned?_eq_some_iff _ _ _).mp here.2
  obtain ⟨entry', found', key'⟩ := (coherent.interned?_eq_some_iff _ _ _).mp there.2
  constructor
  · rintro rfl
    rw [found, Option.some.injEq] at found'
    exact key.symm.trans ((congrArg Instance.key found').trans key')
  · intro same
    exact coherent.place_unique found found' (key.trans (same.trans key'.symm))

end Answers

/-- The faults found about calls. -/
def refusals (unit : CompilationUnit) (calls : List Call) : List Fault :=
  calls.filterMap fun call => (unit.judged call).answer

/-- What is asked for by the calls about which no fault is found. -/
def admitted (unit : CompilationUnit) (calls : List Call) : List (String × List Ty) :=
  (calls.filter fun call => (unit.judged call).answer.isNone).map unit.keyOf

/-- The unit `now` came about from `start` by these calls. Each fault found about them is listed,
and the others have their instances. -/
structure Served (start : CompilationUnit) (calls : List Call) (now : CompilationUnit) : Prop where
  traits : now.traits = start.traits
  catalog : now.catalog = start.catalog
  steps : start.table.Steps now.table
  faults : now.faults = start.faults ++ start.refusals calls
  keys : ∀ key, key ∈ now.instances.map Instance.key ↔
    key ∈ start.instances.map Instance.key ∨ key ∈ start.admitted calls
  marks : ∀ key, now.Marks key ↔ start.Marks key

namespace Served

variable {start now : CompilationUnit} {calls : List Call}

theorem refl (start : CompilationUnit) : start.Served [] start where
  traits := rfl
  catalog := rfl
  steps := .refl
  faults := (List.append_nil _).symm
  keys _ := (or_iff_left List.not_mem_nil).symm
  marks _ := Iff.rfl

theorem judged (served : start.Served calls now) (call : Call) :
    now.judged call = start.judged call := by
  have policy : now.policy = start.policy := InstanceTable.policy_of_steps served.steps
  rw [CompilationUnit.judged, CompilationUnit.judged, policy, served.catalog, served.traits]

theorem keyOf (served : start.Served calls now) (call : Call) :
    now.keyOf call = start.keyOf call := by
  rw [CompilationUnit.keyOf, CompilationUnit.keyOf, served.catalog]

theorem refused (served : start.Served calls now) {call : Call} {fault : Fault}
    (verdict : (start.judged call).answer = some fault) :
    start.Served (calls ++ [call]) { now with table := now.table.record fault } where
  traits := served.traits
  catalog := served.catalog
  steps := served.steps.tail (.note _)
  faults := by
    change now.faults ++ [fault] = _
    rw [served.faults, List.append_assoc]
    simp [refusals, verdict]
  keys key := by
    have same : start.admitted (calls ++ [call]) = start.admitted calls := by
      simp [admitted, verdict]
    rw [same]
    exact served.keys key
  marks := served.marks

/-- A call that is not refused adds no fault, and the key that it asks for. -/
theorem passed {next : CompilationUnit} {call : Call} (served : start.Served calls now)
    (verdict : (start.judged call).answer = none) (traits : next.traits = now.traits)
    (catalog : next.catalog = now.catalog) (steps : now.table.Steps next.table)
    (faults : next.faults = now.faults)
    (keys : ∀ key, key ∈ next.instances.map Instance.key ↔
      key ∈ now.instances.map Instance.key ∨ key = now.keyOf call)
    (marks : ∀ key, next.Marks key ↔ now.Marks key) :
    start.Served (calls ++ [call]) next where
  traits := traits.trans served.traits
  catalog := catalog.trans served.catalog
  steps := served.steps.trans steps
  faults := by
    rw [faults, served.faults]
    simp [refusals, verdict]
  keys key := by
    have more : start.admitted (calls ++ [call]) = start.admitted calls ++ [start.keyOf call] := by
      simp [admitted, verdict]
    rw [keys, served.keys, served.keyOf, more, List.mem_append, List.mem_singleton, or_assoc]
  marks key := (marks key).trans (served.marks key)

/-- One more call: it is refused, or its instance is there, or its instance enters unmarked. -/
theorem call (served : start.Served calls now) (coherent : now.table.Coherent) (call : Call) :
    start.Served (calls ++ [call]) (now.call call).2 := by
  have same := congrArg Inquiry.answer (served.judged call)
  cases verdict : (start.judged call).answer with
  | some fault =>
    rw [call_refused (same.trans verdict)]
    exact served.refused verdict
  | none =>
    cases known : now.known? call with
    | some id =>
      obtain ⟨entry, found, asked⟩ := (coherent.interned?_eq_some_iff _ _ _).mp known
      have there : now.keyOf call ∈ now.instances.map Instance.key :=
        List.mem_map.mpr ⟨entry, List.mem_of_getElem? found, asked⟩
      rw [call_known (same.trans verdict) known]
      refine served.passed verdict rfl rfl .refl rfl (fun key => ?_) fun _ => Iff.rfl
      exact (or_iff_left_of_imp fun wanted => wanted ▸ there).symm
    | none =>
      rw [call_new (same.trans verdict) known]
      refine served.passed verdict rfl rfl (.single (.enter rfl known)) rfl (fun key => ?_)
        fun key => ?_
      · change key ∈ List.map Instance.key (now.instances ++ [_]) ↔ _
        rw [List.map_append, List.mem_append]
        exact or_congr_right List.mem_singleton
      · change (∃ entry ∈ now.instances ++ [_], _) ↔ _
        simp [or_and_right, exists_or, InstanceTable.entrant, Marks]

end Served

theorem reachable_call {unit : CompilationUnit} (reached : unit.Reachable) (call : Call) :
    (unit.call call).2.Reachable :=
  reached.change (.request (call.request unit.catalog)) nofun

theorem reachable_callAll {unit : CompilationUnit} (reached : unit.Reachable) (calls : List Call) :
    (unit.callAll calls).Reachable := by
  induction calls generalizing unit with
  | nil => exact reached
  | cons call rest ih => exact ih (reachable_call reached call)

theorem Served.callAll {start now : CompilationUnit} {calls : List Call}
    (served : start.Served calls now) (reached : now.Reachable) (more : List Call) :
    start.Served (calls ++ more) (now.callAll more) := by
  induction more generalizing calls now with
  | nil =>
    rw [List.append_nil]
    exact served
  | cons call rest ih =>
    have next := ih (served.call reached.coherent call) (reachable_call reached call)
    rw [List.append_assoc] at next
    exact next

theorem served_callAll {unit : CompilationUnit} (reached : unit.Reachable) (calls : List Call) :
    unit.Served calls (unit.callAll calls) :=
  (Served.refl unit).callAll reached calls

/-- What was answered once is still so after more calls. -/
theorem Answered.served {start now : CompilationUnit} {calls : List Call} {call : Call}
    {answer : Except Fault Nat} (answered : start.Answered call answer)
    (coherent : start.table.Coherent) (served : start.Served calls now) :
    now.Answered call answer := by
  have same := congrArg Inquiry.answer (served.judged call)
  cases answer with
  | error fault => exact same.trans answered
  | ok id =>
    refine ⟨same.trans answered.1, ?_⟩
    rw [known?, served.keyOf]
    exact InstanceTable.interned?_of_steps coherent served.steps answered.2

/-- What a sweep makes can be read off the outlines of the instances. -/
theorem outlines_sweep {unit : CompilationUnit}
    (consistent : Consistent unit.catalog unit.table unit.store) :
    unit.sweep.1.map Artifact.outline =
      ((unit.instances.map Instance.outline).filter fun outline => !outline.2).map
        fun ((generic, arguments), _) => (Symbol.name generic arguments, generic, arguments,
          (unit.catalog.generic? generic).bind fun declared =>
            declared.signature.map (declared.specialise arguments)) := by
  rw [made_sweep consistent, InstanceTable.waiting, List.filter_map, List.map_map, List.map_map]
  rfl

section Orders

variable {start one two : CompilationUnit} {first second : List Call}

theorem Served.perm_faults (served : start.Served first one) (served' : start.Served second two)
    (same : first.Perm second) : one.faults.Perm two.faults := by
  rw [served.faults, served'.faults]
  exact (same.filterMap _).append_left _

theorem Served.perm_outlines (served : start.Served first one) (served' : start.Served second two)
    (coherent : one.table.Coherent) (coherent' : two.table.Coherent) (same : first.Perm second) :
    (one.instances.map Instance.outline).Perm (two.instances.map Instance.outline) := by
  have asked : (start.admitted first).Perm (start.admitted second) := (same.filter _).map _
  rw [List.perm_ext_iff_of_nodup (nodup_outlines coherent) (nodup_outlines coherent')]
  rintro ⟨key, mark⟩
  rw [mem_outlines coherent, mem_outlines coherent', served.keys, served'.keys, served.marks,
    served'.marks, asked.mem_iff]

end Orders

end CompilationUnit

namespace Workspace

open CompilationUnit

/-- Calls on the unit of the given name, one after another, each with its reply. -/
def turns (workspace : Workspace) (name : String) : List Call → List (Call × Reply) × Workspace
  | [] => ([], workspace)
  | call :: rest =>
      let (reply, next) := workspace.step name (.action call.action)
      let (replies, last) := next.turns name rest
      ((call, reply) :: replies, last)

section Turns

variable {workspace : Workspace} {name : String} {seat : Seat}

theorem get?_setSeat (workspace : Workspace) (name : String) (seat : Seat) :
    (workspace.setSeat name seat).seats.get? name = some seat :=
  (OrderedMap.get?_insert _ _ _ _).trans (if_pos rfl)

theorem step_call (held : workspace.seats.get? name = some seat) (call : Call) :
    workspace.step name (.action call.action) = (.outcome (seat.unit.call call).1,
      workspace.setSeat name { seat with unit := (seat.unit.call call).2 }) := by
  simp only [step, held, perform_action]

theorem calls_turns (workspace : Workspace) (name : String) (calls : List Call) :
    (workspace.turns name calls).1.map Prod.fst = calls := by
  induction calls generalizing workspace with
  | nil => rfl
  | cons call rest ih => exact congrArg (call :: ·) (ih _)

theorem seat_turns (held : workspace.seats.get? name = some seat) (calls : List Call) :
    (workspace.turns name calls).2.seats.get? name =
      some { seat with unit := seat.unit.callAll calls } := by
  induction calls generalizing workspace seat with
  | nil => exact held
  | cons call rest ih =>
    rw [turns, step_call held]
    exact ih (get?_setSeat _ _ _)

/-- Every call has its outcome, and at the end it is still so. -/
theorem answered_turns (held : workspace.seats.get? name = some seat)
    (reached : seat.unit.Reachable) {calls : List Call} {call : Call} {reply : Reply}
    (member : (call, reply) ∈ (workspace.turns name calls).1) :
    ∃ outcome, reply = .outcome outcome ∧
      (seat.unit.callAll calls).Answered call outcome.answer := by
  induction calls generalizing workspace seat with
  | nil => cases member
  | cons first rest ih =>
    have reached' := reachable_call reached first
    rw [turns, step_call held] at member
    rcases List.mem_cons.mp member with same | later
    · cases same
      exact ⟨_, rfl, (answered_call reached.coherent).served reached'.coherent
        (served_callAll reached' rest)⟩
    · have next := get?_setSeat workspace name { seat with unit := (seat.unit.call first).2 }
      obtain ⟨outcome, same, answered⟩ := ih next reached' later
      exact ⟨outcome, same, answered⟩

/-- The call is among these, and it is answered so. -/
def Replies (workspace : Workspace) (name : String) (calls : List Call) (call : Call)
    (answer : Except Fault Nat) : Prop :=
  ∃ asked, (call, .outcome ⟨answer, asked⟩) ∈ (workspace.turns name calls).1

theorem Replies.answered (held : workspace.seats.get? name = some seat)
    (reached : seat.unit.Reachable) {calls : List Call} {call : Call}
    {answer : Except Fault Nat} (replies : workspace.Replies name calls call answer) :
    (seat.unit.callAll calls).Answered call answer := by
  obtain ⟨asked, member⟩ := replies
  obtain ⟨outcome, same, answered⟩ := answered_turns held reached member
  cases same
  exact answered

end Turns

/-- The holders of a unit, however many, make their calls in any two orders. Each call gets an
outcome, and it succeeds in both orders or fails with the same fault in both. Two calls that
succeed share an instance in both orders or in neither. In the end the unit has the same
instances with the same marks and the same faults, and the next sweep makes the same artifacts,
each time up to order and apart from the numbers. -/
theorem call_order_irrelevant {workspace : Workspace} {name : String} {seat : Seat}
    (held : workspace.seats.get? name = some seat) (reached : seat.unit.Reachable)
    {first second : List Call} (same : first.Perm second) :
    ∃ one two : CompilationUnit,
      (workspace.turns name first).2.seats.get? name = some { seat with unit := one } ∧
      (workspace.turns name second).2.seats.get? name = some { seat with unit := two } ∧
      (∀ calls ∈ [first, second], (workspace.turns name calls).1.map Prod.fst = calls ∧
        ∀ turn ∈ (workspace.turns name calls).1, ∃ outcome, turn.2 = .outcome outcome) ∧
      (∀ call answer answer', workspace.Replies name first call answer →
        workspace.Replies name second call answer' →
        ((∃ id, answer = .ok id) ↔ ∃ id, answer' = .ok id) ∧
        ∀ fault, answer = .error fault ↔ answer' = .error fault) ∧
      (∀ call other id number id' number', workspace.Replies name first call (.ok id) →
        workspace.Replies name first other (.ok number) →
        workspace.Replies name second call (.ok id') →
        workspace.Replies name second other (.ok number') → (id = number ↔ id' = number')) ∧
      (one.instances.map Instance.outline).Perm (two.instances.map Instance.outline) ∧
      one.faults.Perm two.faults ∧
      (one.sweep.1.map Artifact.outline).Perm (two.sweep.1.map Artifact.outline) := by
  have served := served_callAll reached first
  have served' := served_callAll reached second
  have one := reachable_callAll reached first
  have two := reachable_callAll reached second
  have outlines := served.perm_outlines served' one.coherent two.coherent same
  refine ⟨_, _, seat_turns held first, seat_turns held second, ?_, ?_, ?_, outlines,
    served.perm_faults served' same, ?_⟩
  · intro calls _
    refine ⟨calls_turns workspace name calls, fun turn member => ?_⟩
    obtain ⟨outcome, reply, _⟩ := answered_turns held reached member
    exact ⟨outcome, reply⟩
  · intro call answer answer' here there
    have judged := (served.judged call).trans (served'.judged call).symm
    have before := here.answered held reached
    have after := there.answered held reached
    refine ⟨?_, fun fault => ?_⟩
    · rw [before.ok_iff, after.ok_iff, judged]
    · rw [before.error_iff, after.error_iff, judged]
  · intro call other id number id' number' here there here' there'
    rw [(here.answered held reached).id_eq_iff one.coherent (there.answered held reached),
      (here'.answered held reached).id_eq_iff two.coherent (there'.answered held reached),
      served.keyOf, served.keyOf, served'.keyOf, served'.keyOf]
  · rw [outlines_sweep one.consistent, outlines_sweep two.consistent, served.catalog,
      served'.catalog]
    exact (outlines.filter _).map _

section Shelves

/-- A workspace whose only unit has three holders. -/
def shelves : Workspace := ⟨OrderedMap.empty.insert "shelf" ⟨reels, 2⟩, 5⟩

/-- A reel whose second argument is left to the default. -/
def reelCall : Call := .withDefaults "Reel" [.prim .bool] none

/-- Two calls ask for the same reel, two are refused, and one asks for what is there already. -/
def shelfCalls : List Call :=
  [reelCall, .plain "Reel" [.prim .bool, .named "List" [.prim .bool]] none,
    .plain "Box" [] (some ⟨3, 4⟩), .plain "Rack" [] none, .plain "Box" [.prim .char] none,
    .plain "Box" [.prim .int] none]

theorem shelfCalls_order_irrelevant :
    shelves.seats.get? "shelf" = some ⟨reels, 2⟩ ∧ reels.Reachable ∧
    shelfCalls.Perm shelfCalls.reverse ∧
    shelves.Replies "shelf" shelfCalls reelCall (.ok 1) ∧
    shelves.Replies "shelf" shelfCalls.reverse reelCall (.ok 2) ∧
    ∃ one two : CompilationUnit,
      (shelves.turns "shelf" shelfCalls).2.seats.get? "shelf" = some ⟨one, 2⟩ ∧
      (shelves.turns "shelf" shelfCalls.reverse).2.seats.get? "shelf" = some ⟨two, 2⟩ ∧
      (one.instances.map Instance.outline).Perm (two.instances.map Instance.outline) ∧
      one.faults.Perm two.faults ∧
      (one.sweep.1.map Artifact.outline).Perm (two.sweep.1.map Artifact.outline) := by
  have held : shelves.seats.get? "shelf" = some ⟨reels, 2⟩ := rfl
  have orders : shelfCalls.Perm shelfCalls.reverse := (List.reverse_perm _).symm
  have second : shelves.Replies "shelf" shelfCalls reelCall (.ok 1) :=
    ⟨_, List.mem_of_getElem? (i := 0) rfl⟩
  have third : shelves.Replies "shelf" shelfCalls.reverse reelCall (.ok 2) :=
    ⟨_, List.mem_of_getElem? (i := 5) rfl⟩
  obtain ⟨one, two, here, there, _, _, _, outlines, faults, made⟩ :=
    call_order_irrelevant held reachable_reels orders
  exact ⟨held, reachable_reels, orders, second, third, one, two, here, there, outlines, faults,
    made⟩

end Shelves

end Workspace

end Monomorph
