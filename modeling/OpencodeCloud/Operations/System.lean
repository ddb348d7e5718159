/-
# OpencodeCloud.Operations.System -- the operations service as a machine

The state is the database, the tasks of the event loop (workers, reconciliations, load-test runners)
and the cleanups under way. An input is one atomic step of the service: a request that arrives, one
write of a task, the answer to a call of a task, the cancellation of a task at an `await`, a restart.
Answers are inputs too, so this machine allows the other services and the network to behave in any
way at all; `OpencodeCloud.Platform` connects it to models of them.

A refused request leaves the state as it is; an input that cannot occur (an answer nobody awaits, an
identifier that is not fresh) is not enabled.
-/
import OpencodeCloud.Library.Machine
import OpencodeCloud.Operations.Worker
import OpencodeCloud.Operations.Reconciler

namespace OpencodeCloud.Operations

open OpencodeCloud.Library OpencodeCloud.Catalog

/-! ## The load-test runner -/

inductive LoadPc where
  | waiting | preparing | generating | ended
  deriving Repr, DecidableEq

/-- What an `await` of `LoadTests.run` comes back with. -/
inductive LoadOutcome where
  | fetched (agents : Dict String Agent)
  | prepared (ready : Bool)
  | generated (allSucceeded : Bool)
  | raised (error : String)
  | cancelled

/-- The status that a finished generation leaves. -/
def completion (allSucceeded : Bool) : LoadStatus :=
  if allSucceeded then .completed else .completedWithErrors

/-- One stretch of `LoadTests.run`: from the end of an `await` to the next one. `none` where the
outcome does not belong to the statement. -/
def loadRun (s : Store) (rid : String) (test : LoadTest) :
    LoadPc → LoadOutcome → Option (Store × LoadPc)
  | .waiting, .fetched agents =>
    if !test.status.active then some (s, .ended)
    else
      match Store.validateAgents agents test.request.agents with
      | .error e =>
        some (s.updateLoadTest rid fun r => { r with status := .failed, error := some e.detail },
          .ended)
      | .ok snapshots =>
        if snapshots.entries.isPerm test.snapshots.entries then
          some (s.updateLoadTest rid fun r => { r with status := .preparing }, .preparing)
        else
          some (s.updateLoadTest rid fun r =>
            { r with
              status := .failed
              error := some "Agent configuration changed before test start; create a new test" },
            .ended)
  | .preparing, .prepared true =>
    some (s.updateLoadTest rid fun r => { r with status := .running }, .generating)
  | .preparing, .prepared false =>
    some (s.updateLoadTest rid fun r =>
      { r with status := .failed, error := some "No sessions were prepared" }, .ended)
  | .generating, .generated allSucceeded =>
    some (s.updateLoadTest rid fun r => { r with status := completion allSucceeded }, .ended)
  | .ended, _ => none
  | _, .raised error =>
    some (s.updateLoadTest rid fun r => { r with status := .failed, error := some error }, .ended)
  | _, .cancelled =>
    some (s.updateLoadTest rid fun r =>
      { r with status := if r.cancelRequested then .cancelled else .interrupted }, .ended)
  | _, _ => none

/-! ## The machine -/

structure System where
  store : Store
  workers : Dict Nat Worker
  reconcilers : Dict Nat Reconciler
  loadRunners : Dict String LoadPc
  cleaners : List String
  nextTask : Nat

/-- A new installation. -/
def System.initial : System := ⟨Store.empty, ∅, ∅, ∅, [], 0⟩

inductive Event where
  | submit (jid fallback : String) (kind : Kind) (target scope : String) (payload : Payload)
      (before : Option SandboxBefore)
  | work (task : Nat) (raises : Bool)
  | reply (task : Nat) (answer : Reply)
  | stop (task : Nat)
  | cancel (jid : String)
  | retry (jid : String) (payload : Payload) (executionId : String)
  | reconcile (jid requestId : String)
  | reconcileWork (task : Nat) (raises : Bool)
  | reconcileReply (task : Nat) (answer : Reply)
  | restart
  | createLoadTest (agents : Dict String Agent) (hex : String) (request : LoadRequest)
  | loadStep (rid : String) (outcome : LoadOutcome)
  | cancelLoadTest (rid : String)
  | cleanupLoadTest (rid confirmation : String)
  | cleanedUser (rid username : String)
  | cleanupEnd (rid : String) (succeeded : Bool)

/-- The targets and scopes that the routes pass to `Store.submit`. A job other than a publication is
admitted only after `operation-check`, which the catalog answers with 404 for every identifier that
`identifier` rejects, `*` among them; the scope of a sandbox job is the agent of a registered
sandbox. -/
def admissible (kind : Kind) (target scope : String) : Bool :=
  match kind with
  | .modelsApply => target == everyAgent && scope == target
  | .agentApply => scope == target
  | _ => scope != everyAgent && (kind.isSandbox || scope == target)

namespace System

/-- `runtime.spawn`. -/
def spawn (sys : System) (job : Job) : System :=
  { sys with
    workers := sys.workers.insert sys.nextTask (Worker.spawned job)
    nextTask := sys.nextTask + 1 }

def spawnAll (sys : System) (jobs : List Job) : System := jobs.foldl spawn sys

/-- Put back a task and the database after one of its steps. -/
def withWorker (sys : System) (task : Nat) (r : Store × Worker) : System :=
  { sys with store := r.1, workers := sys.workers.insert task r.2 }

def withReconciler (sys : System) (task : Nat) (r : Store × Reconciler) : System :=
  { sys with store := r.1, reconcilers := sys.reconcilers.insert task r.2 }

/-- The submission of an operation. -/
def submit (sys : System) (jid fallback : String) (kind : Kind) (target scope : String)
    (payload : Payload) (before : Option SandboxBefore) : Option System :=
  if jid ∈ sys.store.jobs ∨ admissible kind target scope = false then none
  else
    match sys.store.submit jid fallback kind target scope payload before with
    | .ok (s, job, true) => some ({ sys with store := s }.spawn job)
    | _ => some sys

/-- `cancel(jid)`. -/
def cancel (sys : System) (jid : String) : Option System :=
  match sys.store.jobs.lookup jid with
  | none => some sys
  | some job =>
    if !job.status.cancellable || job.kind == .agentDelete then some sys
    else
      match sys.store.transition jid Status.cancellable fun j => { j with status := .cancelled } with
      | .ok s => some { sys with store := s }
      | .error _ => some sys

/-- The confirmed retry of a deletion. -/
def retry (sys : System) (jid : String) (payload : Payload) (executionId : String) :
    Option System :=
  match sys.store.retryDeletion jid payload executionId with
  | .ok (s, job, true) => some ({ sys with store := s }.spawn job)
  | _ => some sys

/-- A request to reconcile a job. -/
def reconcile (sys : System) (jid requestId : String) : Option System :=
  match Reconciler.begin sys.store jid requestId with
  | .ok (some t) =>
    some { sys with
      reconcilers := sys.reconcilers.insert sys.nextTask t
      nextTask := sys.nextTask + 1 }
  | _ => some sys

/-- The process ends, with every task, and starts again; jobs that were still queued are run. -/
def restart (sys : System) : System :=
  let s := sys.store.restart
  let sys : System := { sys with
    store := s, workers := ∅, reconcilers := ∅, loadRunners := ∅, cleaners := [] }
  sys.spawnAll ((s.jobs.filter fun _ j => j.status == .queued).entries.map (·.2))

/-- `LoadTests.start`. -/
def createLoadTest (sys : System) (agents : Dict String Agent) (hex : String)
    (request : LoadRequest) : Option System :=
  if ("lt_" ++ hex) ∈ sys.store.loadTests then none
  else
    match sys.store.createLoadTest agents hex request with
    | .ok (s, rid, true) =>
      some { sys with store := s, loadRunners := sys.loadRunners.insert rid .waiting }
    | _ => some sys

/-- Whether the runner of a test has not finished. -/
def running (sys : System) (rid : String) : Bool :=
  match sys.loadRunners.lookup rid with
  | some pc => pc != .ended
  | none => false

def loadStep (sys : System) (rid : String) (outcome : LoadOutcome) : Option System := do
  let test ← sys.store.loadTests.lookup rid
  let pc ← sys.loadRunners.lookup rid
  let (s, next) ← loadRun sys.store rid test pc outcome
  return { sys with store := s, loadRunners := sys.loadRunners.insert rid next }

/-- `LoadTests.cancel`. The task is cancelled at its next `await`; without a task the test ends at
once. -/
def cancelLoadTest (sys : System) (rid : String) : Option System :=
  match sys.store.loadTests.lookup rid with
  | none => some sys
  | some test =>
    if !test.status.active || test.cancelRequested then some sys
    else
      let status : LoadStatus := if sys.running rid then .cancelling else .cancelled
      some { sys with
        store := sys.store.updateLoadTest rid fun r =>
          { r with status := status, cancelRequested := true } }

/-- The users of a test that still have data are marked as being cleaned up. -/
def markCleaning (s : Store) (rid : String) : Store :=
  { s with
    loadTests := s.loadTests.modify rid fun r => { r with cleanupStatus := .cleaning }
    loadTestUsers := s.loadTestUsers.mapValues fun u =>
      if u.runId == rid && u.state != .cleaned then { u with state := .cleaning } else u }

/-- `LoadTests.cleanup`. -/
def cleanupLoadTest (sys : System) (rid confirmation : String) : Option System :=
  match sys.store.loadTests.lookup rid with
  | none => some sys
  | some test =>
    if confirmation != rid || test.status.active || sys.running rid then some sys
    else if test.cleanupStatus == .cleaning || test.cleanupStatus == .cleaned then some sys
    else some { sys with store := markCleaning sys.store rid, cleaners := rid :: sys.cleaners }

/-- One user's data is gone. -/
def cleanedUser (sys : System) (rid username : String) : Option System :=
  if rid ∈ sys.cleaners then some { sys with store := sys.store.updateUser username .cleaned }
  else none

/-- The cleanup task ends. -/
def cleanupEnd (sys : System) (rid : String) (succeeded : Bool) : Option System :=
  if rid ∈ sys.cleaners then
    let status : CleanupStatus := if succeeded then .cleaned else .failed
    some { sys with
      store := sys.store.updateLoadTest rid fun r => { r with cleanupStatus := status }
      cleaners := sys.cleaners.erase rid }
  else none

/-- One write of a worker, where its next statement is one. -/
def work (sys : System) (task : Nat) (raises : Bool) : Option System := do
  let w ← sys.workers.lookup task
  if w.call.isSome ∨ w.pc = .ended then none
  else some (sys.withWorker task (w.work sys.store raises))

/-- The answer to the call of a worker. -/
def reply (sys : System) (task : Nat) (answer : Reply) : Option System := do
  let w ← sys.workers.lookup task
  if w.call.isSome then some (sys.withWorker task (sys.store, w.receive answer)) else none

/-- A worker is cancelled while it awaits an answer. -/
def stop (sys : System) (task : Nat) : Option System := do
  let w ← sys.workers.lookup task
  if w.call.isSome then some (sys.withWorker task (sys.store, w.raise .cancelled)) else none

def reconcileWork (sys : System) (task : Nat) (raises : Bool) : Option System := do
  let t ← sys.reconcilers.lookup task
  if t.call.isSome ∨ t.pc = .ended then none
  else some (sys.withReconciler task (t.work sys.store raises))

def reconcileReply (sys : System) (task : Nat) (answer : Reply) : Option System := do
  let t ← sys.reconcilers.lookup task
  if t.call.isSome then some (sys.withReconciler task (sys.store, t.receive answer)) else none

/-- One step of the service. -/
def step (sys : System) : Event → Option System
  | .submit jid fallback kind target scope payload before =>
    sys.submit jid fallback kind target scope payload before
  | .work task raises => sys.work task raises
  | .reply task answer => sys.reply task answer
  | .stop task => sys.stop task
  | .cancel jid => sys.cancel jid
  | .retry jid payload executionId => sys.retry jid payload executionId
  | .reconcile jid requestId => sys.reconcile jid requestId
  | .reconcileWork task raises => sys.reconcileWork task raises
  | .reconcileReply task answer => sys.reconcileReply task answer
  | .restart => some sys.restart
  | .createLoadTest agents hex request => sys.createLoadTest agents hex request
  | .loadStep rid outcome => sys.loadStep rid outcome
  | .cancelLoadTest rid => sys.cancelLoadTest rid
  | .cleanupLoadTest rid confirmation => sys.cleanupLoadTest rid confirmation
  | .cleanedUser rid username => sys.cleanedUser rid username
  | .cleanupEnd rid succeeded => sys.cleanupEnd rid succeeded

/-! ### Inversion of the steps of tasks -/

@[simp] theorem spawn_store (sys : System) (job : Job) : (sys.spawn job).store = sys.store := rfl

/-- Spawning touches the workers only. -/
theorem spawnAll_frame (sys : System) (jobs : List Job) :
    (sys.spawnAll jobs).store = sys.store ∧ (sys.spawnAll jobs).loadRunners = sys.loadRunners ∧
      (sys.spawnAll jobs).reconcilers = sys.reconcilers := by
  induction jobs generalizing sys with
  | nil => exact ⟨rfl, rfl, rfl⟩
  | cons job jobs ih => exact ih (sys.spawn job)

theorem restart_store (sys : System) : sys.restart.store = sys.store.restart :=
  (spawnAll_frame _ _).1

theorem restart_loadRunners (sys : System) : sys.restart.loadRunners = ∅ :=
  (spawnAll_frame _ _).2.1

/-- Inversion of `work`: the worker, and what its write makes of the database. -/
theorem work_eq_some {sys sys' : System} {task : Nat} {raises : Bool} :
    sys.work task raises = some sys' ↔ ∃ w, sys.workers.lookup task = some w ∧
      w.call = none ∧ w.pc ≠ .ended ∧
      sys' = sys.withWorker task (w.work sys.store raises) := by
  simp only [work, Option.bind_eq_bind, Option.bind_eq_some_iff]
  refine exists_congr fun w => and_congr_right fun _ => ?_
  by_cases hc : w.call.isSome ∨ w.pc = .ended
  · rcases hc with hc | hc
    · simp [hc, Option.isSome_iff_ne_none.mp hc]
    · simp [hc]
  · rw [not_or, Option.not_isSome_iff_eq_none] at hc
    simp [hc, eq_comm]

theorem reply_eq_some {sys sys' : System} {task : Nat} {answer : Reply} :
    sys.reply task answer = some sys' ↔ ∃ w, sys.workers.lookup task = some w ∧
      w.call.isSome = true ∧ sys' = sys.withWorker task (sys.store, w.receive answer) := by
  simp only [reply, Option.bind_eq_bind, Option.bind_eq_some_iff]
  refine exists_congr fun w => and_congr_right fun _ => ?_
  by_cases hc : w.call.isSome = true <;> simp [hc, eq_comm]

theorem stop_eq_some {sys sys' : System} {task : Nat} :
    sys.stop task = some sys' ↔ ∃ w, sys.workers.lookup task = some w ∧
      w.call.isSome = true ∧ sys' = sys.withWorker task (sys.store, w.raise .cancelled) := by
  simp only [stop, Option.bind_eq_bind, Option.bind_eq_some_iff]
  refine exists_congr fun w => and_congr_right fun _ => ?_
  by_cases hc : w.call.isSome = true <;> simp [hc, eq_comm]

theorem reconcileWork_eq_some {sys sys' : System} {task : Nat} {raises : Bool} :
    sys.reconcileWork task raises = some sys' ↔ ∃ t, sys.reconcilers.lookup task = some t ∧
      t.call = none ∧ t.pc ≠ .ended ∧
      sys' = sys.withReconciler task (t.work sys.store raises) := by
  simp only [reconcileWork, Option.bind_eq_bind, Option.bind_eq_some_iff]
  refine exists_congr fun t => and_congr_right fun _ => ?_
  by_cases hc : t.call.isSome ∨ t.pc = .ended
  · rcases hc with hc | hc
    · simp [hc, Option.isSome_iff_ne_none.mp hc]
    · simp [hc]
  · rw [not_or, Option.not_isSome_iff_eq_none] at hc
    simp [hc, eq_comm]

theorem reconcileReply_eq_some {sys sys' : System} {task : Nat} {answer : Reply} :
    sys.reconcileReply task answer = some sys' ↔ ∃ t, sys.reconcilers.lookup task = some t ∧
      t.call.isSome = true ∧
      sys' = sys.withReconciler task (sys.store, t.receive answer) := by
  simp only [reconcileReply, Option.bind_eq_bind, Option.bind_eq_some_iff]
  refine exists_congr fun t => and_congr_right fun _ => ?_
  by_cases hc : t.call.isSome = true <;> simp [hc, eq_comm]

end System

/-- The operations service. -/
def operations : Machine System Event := ⟨System.step⟩

end OpencodeCloud.Operations
