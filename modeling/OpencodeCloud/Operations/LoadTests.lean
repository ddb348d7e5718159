/-
# OpencodeCloud.Operations.LoadTests -- the load-test runner, its children and its recovery

`Operations.System` has of a load test what pins an agent. Here is the whole of it: the row of the test, the
rows of its users, the task that runs it, the tasks of its users, `cancel`, and the start-up that follows a
crash. Every transaction is a step of its own, so that a crash can come between any two of them.

The status of a test and the phases of its users are different rows. The runner writes the status first and
ends its users after it, one transaction each, in a `finally`; `recover` does the same, and only for a test
whose status is active. So the phases are right whenever nobody is between these two writes.
-/
import Mathlib
import OpencodeCloud.Library.Machine
import OpencodeCloud.Operations.Store

namespace OpencodeCloud.Operations.LoadTests

open OpencodeCloud.Library OpencodeCloud.Catalog

/-! ## Rows -/

inductive Phase
  | queued | preparing | ready | running
  | succeeded | prepareFailed | failed | timedOut | interrupted | cancelled
  deriving DecidableEq

/-- The phases that the `finally` of the runner, and `recover`, leave as they are. -/
def Phase.terminal : Phase → Bool
  | .queued | .preparing | .ready | .running => false
  | _ => true

/-- The phases that `summarize` counts as failed. -/
def Phase.countsAsFailed : Phase → Bool
  | .prepareFailed | .failed | .timedOut | .interrupted => true
  | _ => false

/-- The preparation of the user is over. -/
def Phase.prepared (p : Phase) : Bool := p = .ready || p.terminal

/-- A row of `load_test_users`, less its times and its limits; `sent` says that it has a `sent_at`. -/
structure User where
  username : String
  agentId : String
  phase : Phase
  error : Option String
  sessionId : Option String
  sent : Bool
  inputTokens : Nat
  outputTokens : Nat
  storageState : StorageState
  deriving DecidableEq

/-- What `LoadTestStore.get` reads: a row of `load_tests` and the rows of its users. -/
structure Report extends LoadTest where
  capacityBlocked : Bool
  users : List User

/-- The counts of `summarize`. -/
structure Summary where
  users : Nat
  prepared : Nat
  submitted : Nat
  succeeded : Nat
  failed : Nat
  cancelled : Nat
  inputTokens : Nat
  outputTokens : Nat
  deriving DecidableEq

def summarize (users : List User) : Summary where
  users := users.length
  prepared := users.countP fun u => u.sessionId.any (· != "")
  submitted := users.countP (·.sent)
  succeeded := users.countP fun u => decide (u.phase = .succeeded)
  failed := users.countP fun u => u.phase.countsAsFailed
  cancelled := users.countP fun u => decide (u.phase = .cancelled)
  inputTokens := (users.map (·.inputTokens)).sum
  outputTokens := (users.map (·.outputTokens)).sum

namespace Report

/-- `update_user`. -/
def updateUser (r : Report) (username : String) (f : User → User) : Report :=
  { r with users := r.users.map fun u => if u.username = username then f u else u }

/-- Every user is in a phase that nothing will change. -/
def Ended (r : Report) : Prop := ∀ u ∈ r.users, u.phase.terminal = true

instance (r : Report) : Decidable r.Ended := by unfold Ended; infer_instance

/-- The users that are not ended. -/
def unended (r : Report) : List String := (r.users.filter (!·.phase.terminal)).map (·.username)

end Report

/-! ## The tasks of the users -/

/-- What ends a task other than its last statement. -/
inductive Raised
  | cancelled
  | error (detail : String)

/-- Why a child stops waiting for its answer. -/
inductive Cause
  | timeout | cancelled
  | failed (code : String)

/-- What a child raises in the end when it was stopped by this. -/
def Cause.raised : Cause → Option Raised
  | .cancelled => some .cancelled
  | _ => none

inductive ChildPc
  /-- it waits for the semaphore, or for the barrier -/
  | starting
  /-- its request is under way -/
  | awaiting
  /-- the session is recorded -/
  | recorded
  /-- it lets the request settle, or aborts the session -/
  | settling (cause : Cause)
  /-- the request has settled -/
  | settled (cause : Cause)
  /-- the `finally` of a generation -/
  | finishing (raised : Option Raised)
  | ended (raised : Option Raised)

structure Child where
  username : String
  pc : ChildPc

/-- The answer to the prompt. -/
structure Answer where
  modelError : Bool
  /-- its text is white space -/
  blank : Bool
  inputTokens : Nat
  outputTokens : Nat

/-- What the next `await`, or the next transaction, of a child comes back with. -/
inductive ChildOutcome
  | go
  | session (sid : String)
  | answer (a : Answer)
  /-- an exception that the child records as its error -/
  | error (code : String)
  | timeout
  | cancelled
  /-- a transaction fails where the child does not catch it -/
  | raised (detail : String)

def ChildOutcome.isCancelled : ChildOutcome → Bool
  | .cancelled => true
  | _ => false

/-- The write of `_record_session`. -/
def recordSession (sid : String) (u : User) : User := { u with sessionId := some sid }

/-- The error of an answer. -/
def Answer.error (a : Answer) : Option String :=
  if a.modelError then some "MODEL_ERROR" else if a.blank then some "EMPTY_RESPONSE" else none

def Answer.record (a : Answer) (u : User) : User :=
  { u with
    phase := if a.error.isSome then .failed else .succeeded
    error := a.error, inputTokens := a.inputTokens, outputTokens := a.outputTokens }

/-- What `_prepare` writes when it gives up. -/
def Cause.prepared : Cause → User → User
  | .cancelled, u => { u with phase := .cancelled, error := some "CANCELLED" }
  | .timeout, u => { u with phase := .prepareFailed, error := some "PREPARE_TIMEOUT" }
  | .failed code, u => { u with phase := .prepareFailed, error := some code }

/-- What `_generate` writes when it gives up. -/
def Cause.generated : Cause → User → User
  | .cancelled, u => { u with phase := .cancelled, error := some "CANCELLED" }
  | .timeout, u => { u with phase := .timedOut, error := some "REQUEST_TIMEOUT" }
  | .failed code, u => { u with phase := .failed, error := some code }

/-- One stretch of `_prepare`: the write, if there is one, and where the child is then. `none` where the
outcome does not belong to the statement. -/
def prepare : ChildPc → ChildOutcome → Option ((User → User) × ChildPc)
  | .starting, .go => some (fun u => { u with phase := .preparing }, .awaiting)
  | .starting, .cancelled => some (id, .ended (some .cancelled))
  | .awaiting, .session sid => some (recordSession sid, .recorded)
  | .awaiting, .error code | .recorded, .error code =>
    some ((Cause.failed code).prepared, .ended none)
  | .awaiting, .timeout => some (id, .settling .timeout)
  | .awaiting, .cancelled => some (id, .settling .cancelled)
  | .recorded, .go => some (fun u => { u with phase := .ready }, .ended none)
  | .settling cause, .session sid => some (recordSession sid, .settled cause)
  | .settling cause, .error _ => some (id, .settled cause)
  -- `except Exception` does not catch a second cancellation
  | .settling _, .cancelled => some (id, .ended (some .cancelled))
  | .settled cause, .go => some (cause.prepared, .ended cause.raised)
  | .starting, .raised e | .awaiting, .raised e | .recorded, .raised e | .settled _, .raised e =>
    some (id, .ended (some (.error e)))
  | _, _ => none

/-- One stretch of `_generate`. -/
def generate : ChildPc → ChildOutcome → Option ((User → User) × ChildPc)
  | .starting, .go => some (fun u => { u with phase := .running, sent := true }, .awaiting)
  | .starting, .cancelled => some (id, .ended (some .cancelled))
  | .starting, .raised e => some (id, .ended (some (.error e)))
  | .awaiting, .answer a => some (a.record, .finishing none)
  | .awaiting, .timeout => some (id, .settling .timeout)
  | .awaiting, .cancelled => some (id, .settling .cancelled)
  | .awaiting, .error code => some (id, .settling (.failed code))
  | .settling cause, .go => some (cause.generated, .finishing cause.raised)
  | .settling _, .cancelled => some (id, .finishing (some .cancelled))
  | .settling _, .raised e => some (id, .finishing (some (.error e)))
  | .finishing raised, .go => some (id, .ended raised)
  | .finishing _, .raised e => some (id, .ended (some (.error e)))
  | _, _ => none

inductive Stage
  /-- the batch of users from here on is prepared -/
  | preparing (offset : Nat)
  | generating

/-- One stretch of a child; it is cancelled only when the others are given up. -/
def stepChild (raised : Option Raised) (pc : ChildPc) (o : ChildOutcome) :
    Stage → Option ((User → User) × ChildPc)
  | .preparing _ => if o.isCancelled && raised.isNone then none else prepare pc o
  | .generating => if o.isCancelled && raised.isNone then none else generate pc o

/-! ## The task of the test -/

inductive Pc
  /-- the task has not run yet -/
  | spawned
  /-- it waits for the lock and the catalog -/
  | waiting
  /-- it waits for the resources of the host, before the batch from `offset` on or before the generation -/
  | sampling (offset : Nat)
  /-- `capacity_check` gives up these users -/
  | blocking (left : List String) (error : String)
  /-- it waits for its children; what it raises when they are through -/
  | joining (stage : Stage) (children : List Child) (raised : Option Raised)
  /-- it leaves the client and the lock -/
  | leaving
  /-- it writes the status of an exception -/
  | settling (raised : Raised)
  /-- the `finally`: these users are still to be ended -/
  | closing (left : List String)

/-- What the next `await`, or the next transaction, of the runner comes back with. -/
inductive Outcome
  | go
  | fetched (agents : Dict String Agent)
  | sampled (verdict : Except String Unit)
  | raised (detail : String)
  | cancelled

/-- What a child has raised. -/
def ChildPc.raised : ChildPc → Option Raised
  | .ended raised => raised
  | _ => none

def ChildPc.hasEnded : ChildPc → Bool
  | .ended _ => true
  | _ => false

/-- The users that have a session. -/
def Report.ready (r : Report) : List String :=
  (r.users.filter fun u => decide (u.phase = .ready)).map (·.username)

/-- The status that a generation leaves. -/
def Report.completion (r : Report) : LoadStatus :=
  if r.users.all fun u => decide (u.phase = .succeeded) then .completed else .completedWithErrors

/-- The status and the error that an exception leaves. -/
def Report.settle (r : Report) : Raised → Report
  | .cancelled => { r with status := if r.cancelRequested then .cancelled else .interrupted }
  | .error detail => { r with status := .failed, error := some detail }

/-- What the `finally` writes for a user. -/
def Report.closingPhase (r : Report) : Phase :=
  if r.cancelRequested || r.capacityBlocked then .cancelled else .interrupted

def spawnAll (usernames : List String) : List Child := usernames.map (⟨·, .starting⟩)

/-- One stretch of `LoadTests.run`, and where the task is then; it has ended where that is `none`. -/
def run (r : Report) : Pc → Outcome → Option (Report × Option Pc)
  | .spawned, .go => some (r, some .waiting)
  -- a coroutine that has not run has no `finally`
  | .spawned, .cancelled => some (r, none)
  | .waiting, .fetched agents =>
    if !r.status.active then some (r, some (.closing r.unended))
    else
      match Store.validateAgents agents r.request.agents with
      | .error e => some (r, some (.settling (.error e.detail)))
      | .ok snapshots =>
        if snapshots.same r.snapshots then
          some ({ r with status := .preparing }, some (.sampling 0))
        else some (r, some (.settling (.error
          "Agent configuration changed before test start; create a new test")))
  | .sampling offset, .sampled (.error e) =>
    some ({ r with capacityBlocked := true },
      some (.blocking ((r.users.drop offset).map (·.username)) e))
  | .sampling offset, .sampled (.ok _) =>
    if offset < r.users.length then
      some (r, some (.joining (.preparing offset)
        (spawnAll (((r.users.drop offset).take 4).map (·.username))) none))
    else if r.ready = [] then
      some ({ r with status := .failed, error := some "No sessions were prepared" }, some .leaving)
    else
      some ({ r with status := .running }, some (.joining .generating (spawnAll r.ready) none))
  | .blocking (username :: left) e, .go =>
    some (r.updateUser username fun u =>
      { u with phase := .prepareFailed, error := some "CAPACITY_BLOCKED" }, some (.blocking left e))
  | .blocking [] e, .go => some (r, some (.settling (.error e)))
  | .joining stage children raised, .go =>
    if children.all (·.pc.hasEnded) then
      match raised, stage with
      | some e, _ => some (r, some (.settling e))
      | none, .preparing offset => some (r, some (.sampling (offset + 4)))
      | none, .generating => some ({ r with status := r.completion }, some .leaving)
    else none
  | .leaving, .go => some (r, some (.closing r.unended))
  | .settling raised, .go => some (r.settle raised, some (.closing r.unended))
  -- the status is not written: its transaction fails, or the handler is cancelled
  | .settling _, .raised _ | .settling .cancelled, .cancelled => some (r, some (.closing r.unended))
  | .closing (username :: left), .go =>
    some (r.updateUser username fun u => { u with phase := r.closingPhase }, some (.closing left))
  | .closing [], .go => some (r, none)
  | .closing _, .raised _ => some (r, none)
  | .waiting, .raised e | .sampling _, .raised e | .blocking _ _, .raised e | .leaving, .raised e =>
    some (r, some (.settling (.error e)))
  | .joining _ children _, .raised e =>
    if children.all (·.pc.hasEnded) then some (r, some (.settling (.error e))) else none
  | .waiting, .cancelled | .sampling _, .cancelled | .leaving, .cancelled =>
    some (r, some (.settling .cancelled))
  | .joining stage children _, .cancelled =>
    some (r, some (.joining stage children (some .cancelled)))
  | _, _ => none

/-! ## The controller -/

inductive Mode
  | up
  /-- `recover` has these tests before it -/
  | recovering (todo : List String)
  /-- `recover` has written the status of a test and has these users of it to end -/
  | ending (rid : String) (left : List String) (todo : List String)

/-- The database and the event loop. -/
structure Controller where
  reports : Dict String Report
  runners : Dict String Pc
  mode : Mode

/-- A new installation. -/
def Controller.initial : Controller := ⟨∅, ∅, .up⟩

inductive Event
  /-- `start`; `held` says that an operation holds a selected agent, `spawned` that the task comes to be -/
  | create (agents : Dict String Agent) (hex : String) (request : LoadRequest) (held spawned : Bool)
  | runner (rid : String) (outcome : Outcome)
  | child (rid : String) (index : Nat) (outcome : ChildOutcome)
  | cancel (rid : String)
  | crash
  /-- the next transaction of `recover` -/
  | recover

/-- The user of a new test with this number. -/
def newUser (hex aid : String) (index : Nat) : User where
  username := "loadtest-" ++ hex ++ "-" ++ toString index
  agentId := aid
  phase := .queued
  error := none
  sessionId := none
  sent := false
  inputTokens := 0
  outputTokens := 0
  storageState := .retained

/-- The users of a new test, in the order of their names. -/
def newUsers (hex : String) (agentIds : List String) : List User :=
  ((agentIds.zipIdx 1).map fun e => newUser hex e.1 e.2).insertionSort fun u v =>
    u.username ≤ v.username

namespace Controller

/-- `LoadTestStore.create`. -/
def create (c : Controller) (agents : Dict String Agent) (hex : String) (request : LoadRequest)
    (held : Bool) : Result (Report × Bool) :=
  match c.reports.entries.find? fun e => e.2.request.requestId == request.requestId with
  | some previous =>
    if previous.2.request != request then
      fail 409 "Request ID was already used with different test parameters"
    else .ok (previous.2, false)
  | none => do
    refuse (c.reports.any fun _ r => r.status.active) 409 "A load test is already active"
    refuse held 409 "An operation holds a selected Agent"
    let snapshots ← Store.validateAgents agents request.agents
    return ({
      id := "lt_" ++ hex, request := request, snapshots := snapshots, status := .queued
      cancelRequested := false, cleanupStatus := .retained, error := none, capacityBlocked := false
      users := newUsers hex (Store.requestedUsers request) }, true)

/-- `LoadTests.start`. -/
def start (c : Controller) (agents : Dict String Agent) (hex : String) (request : LoadRequest)
    (held spawned : Bool) : Option Controller :=
  if ("lt_" ++ hex) ∈ c.reports then none
  else
    match c.create agents hex request held with
    | .ok (r, true) =>
      some { c with
        reports := c.reports.insert r.id r
        runners := if spawned then c.runners.insert r.id .spawned else c.runners }
    | _ => some c

/-- The task of a test goes on. -/
def runner (c : Controller) (rid : String) (outcome : Outcome) : Option Controller := do
  let r ← c.reports.lookup rid
  let pc ← c.runners.lookup rid
  let (r', next) ← run r pc outcome
  return { c with
    reports := c.reports.insert rid r'
    runners := match next with
      | some pc' => c.runners.insert rid pc'
      | none => c.runners.erase rid }

/-- A child goes on. What it raises makes the runner give up the others. -/
def child (c : Controller) (rid : String) (index : Nat) (outcome : ChildOutcome) :
    Option Controller := do
  let r ← c.reports.lookup rid
  let .joining stage children raised ← c.runners.lookup rid | none
  let x ← children[index]?
  let (f, pc) ← stepChild raised x.pc outcome stage
  return { c with
    reports := c.reports.insert rid (r.updateUser x.username f)
    runners := c.runners.insert rid
      (.joining stage (children.set index ⟨x.username, pc⟩) (raised.or pc.raised)) }

/-- `LoadTests.cancel`; the task is cancelled at its next `await`. -/
def cancel (c : Controller) (rid : String) : Option Controller := do
  let r ← c.reports.lookup rid
  if !r.status.active || r.cancelRequested then return c
  let status : LoadStatus := if rid ∈ c.runners then .cancelling else .cancelled
  return { c with reports := c.reports.insert rid { r with status := status, cancelRequested := true } }

/-- The controller comes up again. -/
def crash (c : Controller) : Controller := ⟨c.reports, ∅, .recovering c.reports.keys⟩

/-- `recover` writes of an active test that it was interrupted. -/
def interruptedByRestart (r : Report) : Report :=
  { r with status := .interrupted, error := some "Controller restarted; requests were not replayed" }

/-- The cleanup of a test does not go on. -/
def cleanupInterrupted (r : Report) : Report :=
  if r.cleanupStatus = .cleaning then { r with cleanupStatus := .failed } else r

/-- One transaction of `recover`. -/
def recover (c : Controller) : Option Controller :=
  match c.mode with
  | .up => none
  | .recovering [] => some { c with mode := .up }
  | .recovering (rid :: todo) =>
    match c.reports.lookup rid with
    | none => none
    | some r =>
      if r.status.active then
        some { c with
          reports := c.reports.insert rid (interruptedByRestart r), mode := .ending rid r.unended todo }
      else
        some { c with
          reports := c.reports.insert rid (cleanupInterrupted r), mode := .recovering todo }
  | .ending rid (username :: left) todo =>
    some { c with
      reports := c.reports.modify rid fun r => r.updateUser username fun u =>
        { u with phase := .interrupted, error := some "CONTROLLER_RESTARTED" }
      mode := .ending rid left todo }
  | .ending rid [] todo =>
    some { c with reports := c.reports.modify rid cleanupInterrupted, mode := .recovering todo }

/-- The service answers requests only when it is up. -/
def serving (c : Controller) : Bool :=
  match c.mode with
  | .up => true
  | _ => false

def step (c : Controller) : Event → Option Controller
  | .crash => some c.crash
  | .recover => c.recover
  | .create agents hex request held spawned =>
    if c.serving then c.start agents hex request held spawned else none
  | .runner rid outcome => if c.serving then c.runner rid outcome else none
  | .child rid index outcome => if c.serving then c.child rid index outcome else none
  | .cancel rid => if c.serving then c.cancel rid else none

end Controller

def machine : Machine Controller Event := ⟨Controller.step⟩

/-! ## Summaries -/

/-- A terminal phase is counted in one way. -/
theorem Phase.counted {p : Phase} (h : p.terminal = true) :
    (if decide (p = .succeeded) = true then 1 else 0) + (if p.countsAsFailed = true then 1 else 0) +
      (if decide (p = .cancelled) = true then 1 else 0) = 1 := by
  cases p <;> first | rfl | cases h

/-- **A report of ended users adds up.** -/
theorem summarize_total {users : List User} (h : ∀ u ∈ users, u.phase.terminal = true) :
    (summarize users).succeeded + (summarize users).failed + (summarize users).cancelled =
      (summarize users).users := by
  simp only [summarize]
  induction users with
  | nil => rfl
  | cons u users ih =>
    have hrest := ih fun v hv => h v (List.mem_cons_of_mem _ hv)
    have hone := (h u List.mem_cons_self : u.phase.terminal = true)
    have := Phase.counted hone
    simp only [List.countP_cons, List.length_cons]
    omega

namespace Report

@[simp] theorem updateUser_status (r : Report) (username : String) (f : User → User) :
    (r.updateUser username f).status = r.status := rfl

theorem mem_updateUser {r : Report} {username : String} {f : User → User} {v : User}
    (h : v ∈ (r.updateUser username f).users) :
    ∃ u ∈ r.users, (u.username = username ∧ v = f u) ∨ (u.username ≠ username ∧ v = u) := by
  obtain ⟨u, hu, rfl⟩ := List.mem_map.mp h
  by_cases hname : u.username = username
  · exact ⟨u, hu, Or.inl ⟨hname, if_pos hname⟩⟩
  · exact ⟨u, hu, Or.inr ⟨hname, if_neg hname⟩⟩

theorem usernames_updateUser {r : Report} {username : String} {f : User → User}
    (hf : ∀ u, (f u).username = u.username) :
    (r.updateUser username f).users.map (·.username) = r.users.map (·.username) := by
  rw [updateUser, List.map_map]
  refine List.map_congr_left fun u _ => ?_
  simp only [Function.comp_apply]
  split
  · exact hf u
  · rfl

theorem mem_unended {r : Report} {u : User} (hu : u ∈ r.users) (hp : u.phase.terminal = false) :
    u.username ∈ r.unended :=
  List.mem_map_of_mem (List.mem_filter.mpr ⟨hu, by simp [hp]⟩)

end Report

/-! ## What the rows are like while a task is at a statement -/

/-- How far a user is when the stage is over for it. -/
def Stage.reached : Stage → Phase → Bool
  | .preparing _, p => p.prepared
  | .generating, p => p.terminal

/-- The child has written how its user came out. -/
def Stage.written : Stage → ChildPc → Bool
  | _, .ended none => true
  | .generating, .finishing none => true
  | _, _ => false

/-- The users that are prepared in later batches. -/
def Stage.later (r : Report) : Stage → List String
  | .preparing offset => (r.users.map (·.username)).drop (offset + 4)
  | .generating => []

namespace Report

/-- Whoever is not there yet has its turn later, or a child that has something to write. -/
def Covered (r : Report) (stage : Stage) (children : List Child) : Prop :=
  ∀ u ∈ r.users, stage.reached u.phase = true ∨ u.username ∈ stage.later r ∨
    ∃ x ∈ children, x.username = u.username ∧ stage.written x.pc = false

/-- The users that are not ended are these. -/
def EndedBut (r : Report) (left : List String) : Prop :=
  ∀ u ∈ r.users, u.phase.terminal = true ∨ u.username ∈ left

/-- The status is active, or all users are ended. -/
def Consistent (r : Report) : Prop := r.status.active = true ∨ r.Ended

/-- What the rows are like while the runner is at a statement. -/
def At (r : Report) : Pc → Prop
  | .spawned | .waiting | .blocking .. => r.status.active = true
  | .sampling offset => r.status.active = true ∧
      ∀ u ∈ r.users, u.phase.prepared = true ∨ u.username ∈ (r.users.map (·.username)).drop offset
  | .joining stage children raised => r.status.active = true ∧
      (raised = none → (∀ x ∈ children, x.pc.raised = none) ∧ r.Covered stage children)
  | .leaving => r.Ended
  | .settling _ => r.Consistent
  | .closing left => r.EndedBut left

theorem endedBut_unended (r : Report) : r.EndedBut r.unended := by
  intro u hu
  cases hp : u.phase.terminal with
  | true => exact Or.inl rfl
  | false => exact Or.inr (mem_unended hu hp)

theorem EndedBut.updateUser {r : Report} {username : String} {left : List String} {f : User → User}
    (h : r.EndedBut (username :: left)) (hf : ∀ u, (f u).phase.terminal = true) :
    (r.updateUser username f).EndedBut left := by
  intro v hv
  obtain ⟨u, hu, ⟨-, rfl⟩ | ⟨hname, rfl⟩⟩ := mem_updateUser hv
  · exact Or.inl (hf u)
  · refine (h v hu).imp_right fun hmem => ?_
    exact (List.mem_cons.mp hmem).resolve_left hname

theorem EndedBut.ended {r : Report} (h : r.EndedBut []) : r.Ended := fun u hu =>
  (h u hu).resolve_right List.not_mem_nil

theorem closingPhase_terminal (r : Report) : r.closingPhase.terminal = true := by
  unfold closingPhase
  split <;> rfl

end Report

/-! ## The children -/

/-- **What a step of a child does**: its user keeps the name, and when the child has written how the user
came out, the user is there. -/
theorem prepare_spec {offset : Nat} {pc pc' : ChildPc} {o : ChildOutcome} {f : User → User}
    (h : prepare pc o = some (f, pc')) :
    (∀ u, (f u).username = u.username) ∧
      ((Stage.preparing offset).written pc' = true →
        ((Stage.preparing offset).written pc = true ∧ f = id) ∨
          ∀ u, (Stage.preparing offset).reached (f u).phase = true) := by
  cases pc <;> cases o <;> simp only [prepare, Option.some.injEq, Prod.mk.injEq, reduceCtorEq] at h
  all_goals obtain ⟨rfl, rfl⟩ := h
  case settled.go cause =>
    cases cause <;> simp [Cause.prepared, Cause.raised, Stage.written, Stage.reached, Phase.prepared,
      Phase.terminal]
  all_goals simp [recordSession, Cause.prepared, Stage.written, Stage.reached, Phase.prepared,
    Phase.terminal]

theorem generate_spec {pc pc' : ChildPc} {o : ChildOutcome} {f : User → User}
    (h : generate pc o = some (f, pc')) :
    (∀ u, (f u).username = u.username) ∧
      (Stage.generating.written pc' = true →
        (Stage.generating.written pc = true ∧ f = id) ∨
          ∀ u, Stage.generating.reached (f u).phase = true) := by
  cases pc <;> cases o <;> simp only [generate, Option.some.injEq, Prod.mk.injEq, reduceCtorEq] at h
  all_goals obtain ⟨rfl, rfl⟩ := h
  case awaiting.answer a =>
    refine ⟨fun _ => rfl, fun _ => Or.inr fun u => ?_⟩
    simp only [Answer.record, Stage.reached]
    split <;> rfl
  case settling.go cause =>
    cases cause <;> simp [Cause.generated, Cause.raised, Stage.written, Stage.reached, Phase.terminal]
  case finishing.go raised => cases raised <;> simp [Stage.written]
  all_goals simp [Stage.written]

/-- A child goes on. -/
theorem Report.Covered.child {r : Report} {stage : Stage} {children : List Child} {i : Nat} {x : Child}
    {f : User → User} {pc : ChildPc} (h : r.Covered stage children) (hx : children[i]? = some x)
    (hname : ∀ u, (f u).username = u.username)
    (hwrite : stage.written pc = true →
      (stage.written x.pc = true ∧ f = id) ∨ ∀ u, stage.reached (f u).phase = true) :
    (r.updateUser x.username f).Covered stage (children.set i ⟨x.username, pc⟩) := by
  have hlater : stage.later (r.updateUser x.username f) = stage.later r := by
    cases stage with
    | preparing offset => simp only [Stage.later, usernames_updateUser hname]
    | generating => rfl
  have hi : i < children.length := (List.getElem?_eq_some_iff.mp hx).1
  -- a child other than `x` is still there
  have hother : ∀ u ∈ r.users, (stage.reached u.phase = true ∨ u.username ∈ stage.later r ∨
      ∃ y ∈ children, y.username = u.username ∧ stage.written y.pc = false ∧ y ≠ x) →
      stage.reached u.phase = true ∨ u.username ∈ stage.later r ∨
        ∃ y ∈ children.set i ⟨x.username, pc⟩, y.username = u.username ∧ stage.written y.pc = false := by
    rintro u - (hreached | hlate | ⟨y, hy, hyname, hyopen, hne⟩)
    · exact Or.inl hreached
    · exact Or.inr (Or.inl hlate)
    · obtain ⟨j, hj⟩ := List.mem_iff_getElem?.mp hy
      have hij : i ≠ j := by
        rintro rfl
        exact hne (Option.some.inj (hj.symm.trans hx))
      exact Or.inr (Or.inr ⟨y, List.mem_iff_getElem?.mpr ⟨j, by rwa [List.getElem?_set_ne hij]⟩,
        hyname, hyopen⟩)
  intro v hv
  rw [hlater]
  obtain ⟨u, hu, ⟨hux, rfl⟩ | ⟨hux, rfl⟩⟩ := mem_updateUser hv
  · rw [hname]
    cases hw : stage.written pc with
    | false =>
      exact Or.inr (Or.inr ⟨_, List.mem_set hi _, hux.symm, hw⟩)
    | true =>
      rcases hwrite hw with ⟨hold, rfl⟩ | hreached
      · refine hother u hu ?_
        refine (h u hu).imp_right (Or.imp_right fun ⟨y, hy, hyname, hyopen⟩ => ⟨y, hy, hyname, hyopen, ?_⟩)
        rintro rfl
        rw [hold] at hyopen
        cases hyopen
      · exact Or.inl (hreached u)
  · refine hother v hu ?_
    refine (h v hu).imp_right (Or.imp_right fun ⟨y, hy, hyname, hyopen⟩ => ⟨y, hy, hyname, hyopen, ?_⟩)
    rintro rfl
    exact hux hyname.symm

/-! ## The runner -/

namespace Report

theorem prepared_of_terminal {p : Phase} (h : p.terminal = true) : p.prepared = true := by
  simp [Phase.prepared, h]

/-- A new batch: each of its users has a child. -/
theorem covered_batch {r : Report} {offset : Nat}
    (h : ∀ u ∈ r.users, u.phase.prepared = true ∨
      u.username ∈ (r.users.map (·.username)).drop offset) :
    r.Covered (.preparing offset) (spawnAll (((r.users.drop offset).take 4).map (·.username))) := by
  intro u hu
  rcases h u hu with hp | hlate
  · exact Or.inl hp
  · rw [← List.take_append_drop 4 ((r.users.map (·.username)).drop offset), List.drop_drop] at hlate
    rcases List.mem_append.mp hlate with hnow | hlater
    · refine Or.inr (Or.inr ⟨⟨u.username, .starting⟩, ?_, rfl, rfl⟩)
      refine List.mem_map.mpr ⟨u.username, ?_, rfl⟩
      rwa [List.map_take, List.map_drop]
    · exact Or.inr (Or.inl hlater)

/-- The generation: each user that is ready has a child, and the others are ended. -/
theorem covered_generation {r : Report} (h : ∀ u ∈ r.users, u.phase.prepared = true) :
    r.Covered .generating (spawnAll r.ready) := by
  intro u hu
  by_cases hready : u.phase = .ready
  · refine Or.inr (Or.inr ⟨⟨u.username, .starting⟩, ?_, rfl, rfl⟩)
    refine List.mem_map.mpr ⟨u.username, ?_, rfl⟩
    exact List.mem_map_of_mem (List.mem_filter.mpr ⟨hu, by simp [hready]⟩)
  · have hp := h u hu
    rw [Phase.prepared, Bool.or_eq_true, decide_eq_true_eq] at hp
    exact Or.inl (hp.resolve_left hready)

theorem starting_of_mem_spawnAll {usernames : List String} {x : Child} (h : x ∈ spawnAll usernames) :
    x.pc = .starting := by
  obtain ⟨_, -, rfl⟩ := List.mem_map.mp h
  rfl

/-- When all children have ended and none of them raised, everyone is there. -/
theorem Covered.joined {r : Report} {stage : Stage} {children : List Child}
    (h : r.Covered stage children) (hended : children.all (·.pc.hasEnded) = true)
    (hraised : ∀ x ∈ children, x.pc.raised = none) :
    ∀ u ∈ r.users, stage.reached u.phase = true ∨ u.username ∈ stage.later r := by
  intro u hu
  refine (h u hu).imp_right fun hrest => hrest.resolve_right ?_
  rintro ⟨x, hx, -, hopen⟩
  have hxe := List.all_eq_true.mp hended x hx
  cases hpc : x.pc with
  | ended raised =>
    cases raised with
    | none =>
      rw [hpc] at hopen
      cases stage <;> cases hopen
    | some e =>
      have hnone := hraised x hx
      rw [hpc] at hnone
      cases hnone
  | _ =>
    rw [hpc] at hxe
    cases hxe

end Report

/-- The task is in its `finally` and has users to end. -/
def Pc.endsUsers : Pc → Bool
  | .closing (_ :: _) => true
  | _ => false

def Outcome.isRaised : Outcome → Bool
  | .raised _ => true
  | _ => false

/-- **The step lemma of the runner.** -/
theorem run_at {r r' : Report} {pc : Pc} {o : Outcome} {next : Option Pc}
    (hat : r.At pc) (h : run r pc o = some (r', next))
    (hclose : o.isRaised = true → pc.endsUsers = true → r.status.active = true) :
    match next with
    | some pc' => r'.At pc'
    | none => r'.Consistent := by
  cases pc with
  | spawned =>
    cases o <;> simp only [run, Option.some.injEq, Prod.mk.injEq, reduceCtorEq] at h
    all_goals obtain ⟨rfl, rfl⟩ := h
    · exact hat
    · exact Or.inl hat
  | waiting =>
    have hactive : r.status.active = true := hat
    cases o with
    | fetched agents =>
      simp only [run, hactive, Bool.not_true, Bool.false_eq_true, if_false] at h
      split at h
      · obtain ⟨rfl, rfl⟩ : r = r' ∧ _ = next := by simpa using h
        exact Or.inl hat
      · split at h
        · simp only [Option.some.injEq, Prod.mk.injEq] at h
          obtain ⟨rfl, rfl⟩ := h
          exact ⟨rfl, fun u hu => Or.inr (by simpa using ⟨u, hu, rfl⟩)⟩
        · simp only [Option.some.injEq, Prod.mk.injEq] at h
          obtain ⟨rfl, rfl⟩ := h
          exact Or.inl hat
    | raised | cancelled =>
      simp only [run, Option.some.injEq, Prod.mk.injEq] at h
      obtain ⟨rfl, rfl⟩ := h
      exact Or.inl hat
    | _ => cases h
  | sampling offset =>
    obtain ⟨hactive, hcover⟩ := hat
    cases o with
    | sampled verdict =>
      cases verdict with
      | error e =>
        simp only [run, Option.some.injEq, Prod.mk.injEq] at h
        obtain ⟨rfl, rfl⟩ := h
        exact hactive
      | ok _ =>
        simp only [run] at h
        split at h
        · simp only [Option.some.injEq, Prod.mk.injEq] at h
          obtain ⟨rfl, rfl⟩ := h
          refine ⟨hactive, fun _ => ⟨fun x hx => ?_, Report.covered_batch hcover⟩⟩
          rw [Report.starting_of_mem_spawnAll hx]
          rfl
        · next hlong =>
          -- the batches are through
          have hprepared : ∀ u ∈ r.users, u.phase.prepared = true := by
            intro u hu
            refine (hcover u hu).resolve_right ?_
            rw [List.drop_eq_nil_of_le (by rw [List.length_map]; omega)]
            exact List.not_mem_nil
          split at h
          · next hnone =>
            simp only [Option.some.injEq, Prod.mk.injEq] at h
            obtain ⟨rfl, rfl⟩ := h
            intro u hu
            have hp : decide (u.phase = .ready) = true ∨ u.phase.terminal = true := by
              simpa [Phase.prepared] using hprepared u hu
            refine hp.resolve_left fun hready => ?_
            have hmem : u.username ∈ r.ready := List.mem_map_of_mem (List.mem_filter.mpr ⟨hu, hready⟩)
            rw [hnone] at hmem
            cases hmem
          · simp only [Option.some.injEq, Prod.mk.injEq] at h
            obtain ⟨rfl, rfl⟩ := h
            refine ⟨rfl, fun _ => ⟨fun x hx => ?_, Report.covered_generation hprepared⟩⟩
            rw [Report.starting_of_mem_spawnAll hx]
            rfl
    | raised | cancelled =>
      simp only [run, Option.some.injEq, Prod.mk.injEq] at h
      obtain ⟨rfl, rfl⟩ := h
      exact Or.inl hactive
    | _ => cases h
  | blocking left error =>
    have hactive : r.status.active = true := hat
    cases o with
    | go =>
      cases left <;> simp only [run, Option.some.injEq, Prod.mk.injEq] at h
      all_goals obtain ⟨rfl, rfl⟩ := h
      · exact Or.inl hactive
      · exact hactive
    | raised =>
      simp only [run, Option.some.injEq, Prod.mk.injEq] at h
      obtain ⟨rfl, rfl⟩ := h
      exact Or.inl hactive
    | _ => cases left <;> cases h
  | joining stage children raised =>
    obtain ⟨hactive, hcover⟩ := hat
    cases o with
    | go =>
      simp only [run] at h
      split at h
      · next hended =>
        cases raised with
        | some e =>
          simp only [Option.some.injEq, Prod.mk.injEq] at h
          obtain ⟨rfl, rfl⟩ := h
          exact Or.inl hactive
        | none =>
          have hjoined := (hcover rfl).2.joined hended (hcover rfl).1
          cases stage with
          | preparing offset =>
            simp only [Option.some.injEq, Prod.mk.injEq] at h
            obtain ⟨rfl, rfl⟩ := h
            exact ⟨hactive, hjoined⟩
          | generating =>
            simp only [Option.some.injEq, Prod.mk.injEq] at h
            obtain ⟨rfl, rfl⟩ := h
            exact fun u hu => (hjoined u hu).resolve_right List.not_mem_nil
      · cases h
    | raised e =>
      simp only [run] at h
      split at h
      · simp only [Option.some.injEq, Prod.mk.injEq] at h
        obtain ⟨rfl, rfl⟩ := h
        exact Or.inl hactive
      · cases h
    | cancelled =>
      simp only [run, Option.some.injEq, Prod.mk.injEq] at h
      obtain ⟨rfl, rfl⟩ := h
      exact ⟨hactive, nofun⟩
    | _ => cases h
  | leaving =>
    cases o <;> simp only [run, Option.some.injEq, Prod.mk.injEq, reduceCtorEq] at h
    all_goals obtain ⟨rfl, rfl⟩ := h
    · exact r.endedBut_unended
    · exact Or.inr hat
    · exact Or.inr hat
  | settling raised =>
    cases raised <;> cases o <;>
      simp only [run, Option.some.injEq, Prod.mk.injEq, reduceCtorEq] at h
    all_goals obtain ⟨rfl, rfl⟩ := h
    all_goals exact r.endedBut_unended
  | closing left =>
    cases left with
    | nil =>
      have hended : r.Ended := Report.EndedBut.ended hat
      cases o <;> simp only [run, Option.some.injEq, Prod.mk.injEq, reduceCtorEq] at h
      all_goals obtain ⟨rfl, rfl⟩ := h
      all_goals exact Or.inr hended
    | cons username left =>
      cases o with
      | go =>
        simp only [run, Option.some.injEq, Prod.mk.injEq] at h
        obtain ⟨rfl, rfl⟩ := h
        exact Report.EndedBut.updateUser hat fun _ => r.closingPhase_terminal
      | raised e =>
        simp only [run, Option.some.injEq, Prod.mk.injEq] at h
        obtain ⟨rfl, rfl⟩ := h
        exact Or.inl (hclose rfl rfl)
      | _ => cases h

/-! ## The controller -/

namespace Controller

/-- What the rows of a test are like in a state of the controller. -/
def Fits (c : Controller) (rid : String) (r : Report) : Prop :=
  match c.mode with
  | .up =>
    match c.runners.lookup rid with
    | some pc => r.At pc
    | none => r.Consistent
  | .recovering _ => r.Consistent
  | .ending rid' left _ => if rid = rid' then r.EndedBut left else r.Consistent

structure Invariant (c : Controller) : Prop where
  fits : ∀ rid r, c.reports.lookup rid = some r → c.Fits rid r
  owned : ∀ rid, rid ∈ c.runners → rid ∈ c.reports
  stopped : c.serving = false → c.runners = ∅

/-- `recover` has users to end. -/
def endsUsers (c : Controller) : Bool :=
  match c.mode with
  | .ending _ (_ :: _) _ => true
  | _ => false

/-- Nothing is cut off between a final status and the end of the last user: the controller does not
crash there, no write of the `finally` fails there, and a test that is cancelled when it is active but
has no task has no user to end. -/
def Uninterrupted (c : Controller) : Event → Prop
  | .crash => c.endsUsers = false ∧ c.reports.all fun rid r =>
      r.status.active || !(c.runners.lookup rid).any (·.endsUsers)
  | .runner rid outcome => outcome.isRaised = true → (c.runners.lookup rid).any (·.endsUsers) = true →
      (c.reports.lookup rid).any (·.status.active) = true
  | .cancel rid => rid ∉ c.runners → ∀ r ∈ c.reports.lookup rid,
      r.status.active = true → r.cancelRequested = false → r.Ended
  | _ => True

instance (c : Controller) : DecidablePred c.Uninterrupted
  | .crash => inferInstanceAs (Decidable (_ ∧ _))
  | .runner .. => inferInstanceAs (Decidable (_ → _))
  | .cancel rid => inferInstanceAs (Decidable (_ → ∀ r ∈ c.reports.lookup rid, _))
  | .create .. | .child .. | .recover => inferInstanceAs (Decidable True)

theorem invariant_initial : initial.Invariant where
  fits := nofun
  owned := nofun
  stopped := nofun

theorem up_of_serving {c : Controller} (h : c.serving = true) : c.mode = .up := by
  unfold serving at h
  split at h
  · assumption
  · cases h

theorem fits_up {c : Controller} {rid : String} {r : Report} (hup : c.mode = .up) :
    c.Fits rid r ↔
      match c.runners.lookup rid with
      | some pc => r.At pc
      | none => r.Consistent := by
  simp only [Fits, hup]

/-- A task that is stopped at any statement but those of the `finally` leaves consistent rows. -/
theorem consistent_of_at {r : Report} {pc : Pc} (h : r.At pc)
    (hclosing : pc.endsUsers = true → r.status.active = true) :
    r.Consistent := by
  cases pc with
  | spawned | waiting | blocking => exact Or.inl h
  | sampling | joining => exact Or.inl h.1
  | leaving => exact Or.inr h
  | settling => exact h
  | closing left =>
    cases left with
    | nil => exact Or.inr (Report.EndedBut.ended h)
    | cons username left => exact Or.inl (hclosing rfl)

/-- One test and its task change. -/
theorem Invariant.update {c : Controller} (hc : c.Invariant) (hup : c.mode = .up) {rid : String}
    {r' : Report} {runners : Dict String Pc}
    (hother : ∀ rid', rid' ≠ rid → runners.lookup rid' = c.runners.lookup rid')
    (hfits : match runners.lookup rid with
      | some pc => r'.At pc
      | none => r'.Consistent) :
    Invariant { c with reports := c.reports.insert rid r', runners := runners } where
  fits := by
    intro rid' r hlook
    rw [fits_up (c := { c with reports := c.reports.insert rid r', runners := runners }) hup]
    rcases Dict.lookup_insert_cases hlook with ⟨rfl, rfl⟩ | ⟨hne, hold⟩
    · exact hfits
    · have := (fits_up hup).mp (hc.fits rid' r hold)
      simp only [hother rid' hne]
      exact this
  owned := by
    intro rid' hmem
    by_cases hrid : rid' = rid
    · subst hrid
      exact AList.mem_insert _ |>.mpr (Or.inl rfl)
    · refine AList.mem_insert _ |>.mpr (Or.inr (hc.owned rid' ?_))
      rw [← AList.lookup_isSome] at hmem ⊢
      rwa [← hother rid' hrid]
  stopped := by
    intro hserving
    simp [serving, hup] at hserving

/-- A test that is created is queued. -/
theorem create_eq_ok {c : Controller} {agents : Dict String Agent} {hex : String}
    {request : LoadRequest} {held : Bool} {r : Report}
    (h : c.create agents hex request held = .ok (r, true)) :
    r.id = "lt_" ++ hex ∧ r.status = .queued := by
  unfold create at h
  split at h
  · split at h <;> cases h
  · simp only [bind_eq_ok, refuse_eq_ok] at h
    obtain ⟨_, -, _, -, snapshots, -, hr⟩ := h
    cases hr
    exact ⟨rfl, rfl⟩

theorem invariant_start {c c' : Controller} {agents : Dict String Agent} {hex : String}
    {request : LoadRequest} {held spawned : Bool} (hc : c.Invariant) (hup : c.mode = .up)
    (h : c.start agents hex request held spawned = some c') : c'.Invariant := by
  unfold start at h
  split at h
  · cases h
  next hfresh =>
  split at h
  · next r hcreate =>
    obtain ⟨hid, hqueued⟩ := create_eq_ok hcreate
    obtain rfl := Option.some.inj h
    have hactive : r.status.active = true := by rw [hqueued]; rfl
    rw [← hid] at hfresh
    have hidle : c.runners.lookup r.id = none :=
      AList.lookup_eq_none.mpr fun hmem => hfresh (hc.owned r.id hmem)
    cases spawned with
    | true =>
      refine hc.update hup (fun rid' hne => AList.lookup_insert_ne hne) ?_
      rw [if_pos rfl, AList.lookup_insert]
      exact hactive
    | false =>
      refine hc.update hup (fun _ _ => rfl) ?_
      simp only [Bool.false_eq_true, if_false, hidle]
      exact Or.inl hactive
  · obtain rfl := Option.some.inj h
    exact hc

theorem invariant_runner {c c' : Controller} {rid : String} {o : Outcome} (hc : c.Invariant)
    (hup : c.mode = .up) (hU : c.Uninterrupted (.runner rid o)) (h : c.runner rid o = some c') :
    c'.Invariant := by
  simp only [runner, Option.bind_eq_bind, Option.bind_eq_some_iff, Prod.exists] at h
  obtain ⟨r, hr, pc, hpc, r', next, hrun, h⟩ := h
  obtain rfl := Option.some.inj h
  have hat : r.At pc := by
    have := (fits_up hup).mp (hc.fits rid r hr)
    rwa [hpc] at this
  have hnext := run_at hat hrun fun hfails hends => by
    simpa [hr] using hU hfails (by simpa [hpc] using hends)
  cases next with
  | some pc' =>
    refine hc.update hup (fun rid' hne => AList.lookup_insert_ne hne) ?_
    rw [AList.lookup_insert]
    exact hnext
  | none =>
    refine hc.update hup (fun rid' hne => AList.lookup_erase_ne hne) ?_
    rw [AList.lookup_erase]
    exact hnext

/-- A step of a child keeps what the runner relies on. -/
theorem invariant_child {c c' : Controller} {rid : String} {i : Nat} {o : ChildOutcome}
    (hc : c.Invariant) (hup : c.mode = .up) (h : c.child rid i o = some c') : c'.Invariant := by
  simp only [child, Option.bind_eq_bind, Option.bind_eq_some_iff] at h
  obtain ⟨r, hr, pc, hpc, h⟩ := h
  have hat : r.At pc := by
    have := (fits_up hup).mp (hc.fits rid r hr)
    rwa [hpc] at this
  cases pc with
  | joining stage children raised =>
    obtain ⟨hactive, hcover⟩ := hat
    simp only [Option.bind_eq_some_iff, Prod.exists] at h
    obtain ⟨x, hx, f, pc', hstep, h⟩ := h
    obtain rfl := Option.some.inj h
    have hspec : (∀ u, (f u).username = u.username) ∧ (stage.written pc' = true →
        (stage.written x.pc = true ∧ f = id) ∨ ∀ u, stage.reached (f u).phase = true) := by
      cases stage <;> simp only [stepChild] at hstep <;> split at hstep
      · cases hstep
      · exact prepare_spec hstep
      · cases hstep
      · exact generate_spec hstep
    refine hc.update hup (fun rid' hne => AList.lookup_insert_ne hne) ?_
    rw [AList.lookup_insert]
    refine ⟨hactive, fun hquiet => ?_⟩
    rw [Option.or_eq_none_iff] at hquiet
    obtain ⟨hraised, hcovered⟩ := hcover hquiet.1
    refine ⟨fun y hy => ?_, hcovered.child hx hspec.1 hspec.2⟩
    rcases List.mem_or_eq_of_mem_set hy with hold | rfl
    · exact hraised y hold
    · exact hquiet.2
  | _ => cases h

/-- A request to cancel leaves the rows as the task expects them. -/
theorem at_cancelling {r : Report} {pc : Pc} (h : r.At pc) :
    Report.At { r with status := .cancelling, cancelRequested := true } pc := by
  cases pc with
  | spawned | waiting | blocking => rfl
  | sampling | joining => exact ⟨rfl, h.2⟩
  | leaving | closing => exact h
  | settling => exact Or.inl rfl

theorem invariant_cancel {c c' : Controller} {rid : String} (hc : c.Invariant) (hup : c.mode = .up)
    (hU : c.Uninterrupted (.cancel rid)) (h : c.cancel rid = some c') : c'.Invariant := by
  simp only [cancel, Option.bind_eq_bind, Option.bind_eq_some_iff] at h
  obtain ⟨r, hr, h⟩ := h
  split at h
  · obtain rfl := Option.some.inj h
    exact hc
  next hgo =>
  obtain rfl := Option.some.inj h
  simp only [Bool.or_eq_true, Bool.not_eq_eq_eq_not, Bool.not_true, not_or, Bool.not_eq_false,
    Bool.not_eq_true] at hgo
  obtain ⟨hactive, hfirst⟩ := hgo
  have hfits := (fits_up hup).mp (hc.fits rid r hr)
  refine hc.update hup (fun _ _ => rfl) ?_
  cases hpc : c.runners.lookup rid with
  | none =>
    have hidle : rid ∉ c.runners := AList.lookup_eq_none.mp hpc
    exact Or.inr (hU hidle r hr hactive hfirst)
  | some pc =>
    have hrun : rid ∈ c.runners := AList.lookup_isSome.mp (by rw [hpc]; rfl)
    rw [hpc] at hfits
    rw [if_pos hrun]
    exact at_cancelling hfits

theorem invariant_crash {c : Controller} (hc : c.Invariant) (hU : c.Uninterrupted .crash) :
    c.crash.Invariant where
  fits := by
    intro rid r hr
    have hfits := hc.fits rid r hr
    obtain ⟨hrecover, hrunner⟩ := hU
    unfold Fits at hfits
    split at hfits
    · split at hfits
      · next hpc =>
        refine consistent_of_at hfits fun hends => ?_
        simpa [hpc, hends] using Dict.all_eq_true.mp hrunner rid r hr
      · exact hfits
    · exact hfits
    · next rid' left todo hmode =>
      split at hfits
      · cases left with
        | nil => exact Or.inr (Report.EndedBut.ended hfits)
        | cons username left =>
          rw [endsUsers, hmode] at hrecover
          cases hrecover
      · exact hfits
  owned := nofun
  stopped := fun _ => rfl

theorem consistent_cleanupInterrupted {r : Report} (h : r.Consistent) :
    (cleanupInterrupted r).Consistent := by
  unfold cleanupInterrupted
  split
  · exact h
  · exact h

theorem invariant_recover {c c' : Controller} (hc : c.Invariant) (h : c.recover = some c') :
    c'.Invariant := by
  have hidle : c.mode ≠ .up → c.runners = ∅ := by
    intro hdown
    refine hc.stopped ?_
    cases hmode : c.mode with
    | up => exact absurd hmode hdown
    | _ => simp [serving, hmode]
  have hfits : ∀ rid r, c.reports.lookup rid = some r → c.Fits rid r := hc.fits
  unfold recover at h
  split at h
  · cases h
  · -- `recover` is through
    next hmode =>
    obtain rfl := Option.some.inj h
    have hempty := hidle (by rw [hmode]; exact nofun)
    refine ⟨fun rid r hr => ?_, hc.owned, nofun⟩
    have hr' := hfits rid r hr
    simp only [Fits, hmode] at hr'
    rw [fits_up (c := { c with mode := .up }) rfl]
    simp only [hempty, AList.lookup_empty]
    exact hr'
  · next rid todo hmode =>
    have hempty := hidle (by rw [hmode]; exact nofun)
    split at h
    · cases h
    next r hr =>
    split at h
    · obtain rfl := Option.some.inj h
      refine ⟨fun rid' r' hr' => ?_, ?_, fun _ => hempty⟩
      · simp only [Fits]
        rcases Dict.lookup_insert_cases hr' with ⟨rfl, rfl⟩ | ⟨hne, hold⟩
        · rw [if_pos rfl]
          exact r.endedBut_unended
        · have := hfits rid' r' hold
          simp only [Fits, hmode] at this
          rw [if_neg hne]
          exact this
      · simp [hempty]
    · obtain rfl := Option.some.inj h
      refine ⟨fun rid' r' hr' => ?_, ?_, fun _ => hempty⟩
      · simp only [Fits]
        rcases Dict.lookup_insert_cases hr' with ⟨rfl, rfl⟩ | ⟨hne, hold⟩
        · have := hfits rid' r hr
          simp only [Fits, hmode] at this
          exact consistent_cleanupInterrupted this
        · have := hfits rid' r' hold
          simp only [Fits, hmode] at this
          exact this
      · simp [hempty]
  · next rid username left todo hmode =>
    have hempty := hidle (by rw [hmode]; exact nofun)
    obtain rfl := Option.some.inj h
    refine ⟨fun rid' r' hr' => ?_, ?_, fun _ => hempty⟩
    · simp only [Fits]
      rcases Dict.lookup_modify_cases hr' with ⟨rfl, r, hr, rfl⟩ | ⟨hne, hold⟩
      · have := hfits rid' r hr
        simp only [Fits, hmode, if_true] at this
        rw [if_pos rfl]
        exact this.updateUser fun _ => rfl
      · have := hfits rid' r' hold
        simp only [Fits, hmode, if_neg hne] at this
        rw [if_neg hne]
        exact this
    · simp [hempty]
  · next rid todo hmode =>
    have hempty := hidle (by rw [hmode]; exact nofun)
    obtain rfl := Option.some.inj h
    refine ⟨fun rid' r' hr' => ?_, ?_, fun _ => hempty⟩
    · simp only [Fits]
      rcases Dict.lookup_modify_cases hr' with ⟨rfl, r, hr, rfl⟩ | ⟨hne, hold⟩
      · have := hfits rid' r hr
        simp only [Fits, hmode, if_true] at this
        exact consistent_cleanupInterrupted (Or.inr this.ended)
      · have := hfits rid' r' hold
        simp only [Fits, hmode, if_neg hne] at this
        exact this
    · simp [hempty]

/-- **The step lemma.** -/
theorem invariant_step {c c' : Controller} {e : Event} (hc : c.Invariant) (hU : c.Uninterrupted e)
    (h : machine.step c e = some c') : c'.Invariant := by
  simp only [machine, step] at h
  cases e with
  | crash =>
    obtain rfl := Option.some.inj h
    exact invariant_crash hc hU
  | recover => exact invariant_recover hc h
  | create agents hex request held spawned =>
    simp only [Option.ite_none_right_eq_some] at h
    exact invariant_start hc (up_of_serving h.1) h.2
  | runner rid o =>
    simp only [Option.ite_none_right_eq_some] at h
    exact invariant_runner hc (up_of_serving h.1) hU h.2
  | child rid i o =>
    simp only [Option.ite_none_right_eq_some] at h
    exact invariant_child hc (up_of_serving h.1) h.2
  | cancel rid =>
    simp only [Option.ite_none_right_eq_some] at h
    exact invariant_cancel hc (up_of_serving h.1) hU h.2

end Controller

/-! ## The report of a test that is over -/

/-- A test that is over and has no task any more has only ended users, and its summary adds up. -/
def Settled (c : Controller) : Prop :=
  c.serving = true → ∀ rid r, c.reports.lookup rid = some r → rid ∉ c.runners →
    r.status.active = false → r.Ended ∧
      (summarize r.users).succeeded + (summarize r.users).failed + (summarize r.users).cancelled =
        (summarize r.users).users

theorem Controller.Invariant.settled {c : Controller} (hc : c.Invariant) : Settled c := by
  intro hserving rid r hr hidle hover
  have hfits := (Controller.fits_up (Controller.up_of_serving hserving)).mp (hc.fits rid r hr)
  rw [AList.lookup_eq_none.mpr hidle] at hfits
  have hended : r.Ended := hfits.resolve_left (by rw [hover]; exact nofun)
  exact ⟨hended, summarize_total hended⟩

/-- **The reports of tests that are over are complete** in every state of a run in which nothing comes
between a final status and the end of the last user. -/
theorem settled_of_uninterrupted {events : List Event}
    (h : machine.Along Controller.Uninterrupted Controller.initial events) :
    machine.Throughout Settled Controller.initial events :=
  (machine.throughout_of_along (fun _ _ _ hc hU hstep => Controller.invariant_step hc hU hstep)
    Controller.invariant_initial h).imp _ fun _ hc => hc.settled

/-- One published agent. -/
def oneAgent : Dict String Agent :=
  let config : AgentConfig := ⟨"Agent", "", true, "", ["m"], "m", none, none, none, []⟩
  AList.singleton "a" ⟨"a", config, [⟨1, config, ∅⟩], some 1, .active⟩

/-- A test of two users. -/
def twoUsers : LoadRequest := ⟨"request-1", [⟨"a", 2, 1, 1024⟩], 180, 120⟩

/-- Two sessions are prepared. -/
def preparation : List Event :=
  [.create oneAgent "1" twoUsers false true, .runner "lt_1" .go, .runner "lt_1" (.fetched oneAgent),
    .runner "lt_1" (.sampled (.ok ())),
    .child "lt_1" 0 .go, .child "lt_1" 1 .go, .child "lt_1" 1 (.session "ses_2"),
    .child "lt_1" 0 (.session "ses_1"), .child "lt_1" 0 .go, .child "lt_1" 1 .go,
    .runner "lt_1" .go]

/-- The controller crashes while one answer is under way, and recovers. -/
def crashWhileRunning : List Event :=
  preparation ++ [.runner "lt_1" (.sampled (.ok ())), .child "lt_1" 0 .go, .child "lt_1" 1 .go,
    .child "lt_1" 0 (.answer ⟨false, false, 9, 5⟩), .child "lt_1" 0 .go, .crash, .recover, .recover,
    .recover, .recover]

/-- The test ends as interrupted; one of its users has succeeded, the other one is interrupted. -/
theorem settled_of_uninterrupted_crash :
    machine.Throughout Settled Controller.initial crashWhileRunning ∧
      (machine.run Controller.initial crashWhileRunning).any (fun c =>
        c.serving && (c.reports.lookup "lt_1").any fun r =>
          decide (r.status = .interrupted ∧ r.users.map (·.phase) = [.succeeded, .interrupted])) =
        true :=
  ⟨settled_of_uninterrupted (by decide +kernel), by decide +kernel⟩

/-- The capacity of the host is not enough for the generation: the test fails, and the controller crashes
before it has ended the users, whose sessions are ready. -/
def crashInFinally : List Event :=
  preparation ++ [.runner "lt_1" (.sampled (.error "HTTPException")), .runner "lt_1" .go,
    .runner "lt_1" .go, .crash, .recover, .recover]

/-- **A crash in the `finally` leaves a failed test with users that are never ended**: `recover` passes over a
test that is not active. -/
theorem unended_after_crash :
    ¬∀ events, machine.Throughout Settled Controller.initial events := by
  intro h
  have bad : (machine.run Controller.initial crashInFinally).all (fun c =>
      !(c.serving && decide (c.runners.lookup "lt_1" = none) && (c.reports.lookup "lt_1").any fun r =>
        !r.status.active && decide (r.users.map (·.phase) = [.ready, .ready]))) = false := by
    decide +kernel
  obtain ⟨c, hrun, hbad⟩ := machine.exists_run_of_all_eq_false bad
  simp only [Bool.not_eq_false', Bool.and_eq_true, decide_eq_true_eq, Option.any_eq_true,
    Bool.not_eq_true'] at hbad
  obtain ⟨⟨hserving, hidle⟩, r, hr, hover, hphases⟩ := hbad
  obtain ⟨hended, -⟩ := (h crashInFinally).last machine hrun hserving "lt_1" r hr
    (AList.lookup_eq_none.mp hidle) hover
  cases husers : r.users with
  | nil =>
    rw [husers] at hphases
    cases hphases
  | cons u users =>
    rw [husers] at hphases
    have hu := hended u (by rw [husers]; exact List.mem_cons_self)
    rw [List.map_cons, List.cons.injEq] at hphases
    rw [hphases.1] at hu
    cases hu

end OpencodeCloud.Operations.LoadTests
