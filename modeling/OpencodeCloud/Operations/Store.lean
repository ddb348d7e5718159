/-
# OpencodeCloud.Operations.Store -- the transactions of the operations database

Each definition is one `BEGIN IMMEDIATE` transaction of `Store` or `LoadTestStore`, so it is one
atomic step of the service. A transaction that fails leaves the database as it was, which is why the
fallible ones return the new store only on success. Fresh identifiers (`uuid4`) are arguments.

The lemmas say what each transaction does to the set of jobs that hold a lease. `AtMostOneMoved` is
the shape they share: all jobs but one keep their scope and status.
-/
import OpencodeCloud.Operations.Job

namespace OpencodeCloud.Operations

open OpencodeCloud.Library OpencodeCloud.Catalog

namespace Store

/-! ## Writing one job -/

/-- `Store.update(jid, **changes)`: no condition on the status. -/
def update (s : Store) (jid : String) (changes : Job → Job) : Store :=
  { s with jobs := s.jobs.modify jid changes }

/-- `Store.transition(jid, allowed, **changes)`: only from an allowed status. -/
def transition (s : Store) (jid : String) (allowed : Status → Bool) (changes : Job → Job) :
    Result Store :=
  match s.jobs.lookup jid with
  | none => fail 404 "Job not found"
  | some job =>
    if allowed job.status then .ok (s.update jid changes) else fail 409 "Job state changed"

/-- The status of a job, if it exists. -/
def statusOf (s : Store) (jid : String) : Option Status := (s.jobs.lookup jid).map (·.status)

/-! ## Admission -/

/-- The load-test check of `submit`: an active test anywhere for `*`, otherwise one with a user on
this agent; a user that is being cleaned up counts too. -/
def pinned (s : Store) (scope : String) : Bool :=
  if scope == everyAgent then s.loadTests.any fun _ r => r.status.active
  else s.loadTestUsers.any fun _ u =>
    u.agentId == scope &&
      match s.loadTests.lookup u.runId with
      | some r => r.status.active || u.state == .cleaning
      | none => false

/-- The lease check of `submit`. -/
def leaseHeld (s : Store) (scope : String) : Bool :=
  s.jobs.any fun _ j =>
    j.status.leaseHolding && (scope == everyAgent || j.scope == scope || j.scope == everyAgent)

/-- The job that was submitted under a request identifier. -/
def byRequest (s : Store) (requestId : String) : Option Job :=
  (s.jobs.entries.find? fun e => e.2.requestId == requestId).map (·.2)

/-- A freshly submitted job. -/
def newJob (jid requestId : String) (kind : Kind) (target scope : String) (payload : Payload)
    (before : Option SandboxBefore) : Job where
  id := jid
  kind := kind
  target := target
  scope := scope
  payload := payload
  requestId := requestId
  status := .queued
  checkpoint := .prepare
  before := before
  originalInput := payload.request
  releaseId := none
  executionId := none
  retryRequestId := none
  attempts := []
  error := none
  applied := false
  compensated := false
  applyAcknowledged := false
  sandboxDeleted := false
  filesDeleted := false
  reconciled := false
  result := none

/-- `Store.submit`: replay the job of the same request, or admit a new one when neither a load test
nor another job holds the scope. -/
def submit (s : Store) (jid fallback : String) (kind : Kind) (target scope : String)
    (payload : Payload) (before : Option SandboxBefore) : Result (Store × Job × Bool) :=
  let requestId := payload.request.requestId.getD fallback
  match s.byRequest requestId with
  | some job =>
    if job.kind != kind || job.target != target || job.payload != payload then
      fail 409 "Request ID already used with different operation"
    else .ok (s, job, false)
  | none => do
    refuse (s.pinned scope) 409 "A load test pins this Agent version"
    refuse (s.leaseHeld scope) 409 "An operation already holds this target"
    let job := newJob jid requestId kind target scope payload before
    return ({ s with jobs := s.jobs.insert jid job }, job, true)

/-- Another job holds an overlapping scope, as `retry_deletion` tests it. -/
def heldByAnother (s : Store) (jid scope : String) : Bool :=
  s.jobs.any fun other j =>
    other != jid && (j.status.leaseHolding && (j.scope == scope || j.scope == everyAgent))

/-- What `retry_deletion` writes into the job. -/
def retried (payload : Payload) (executionId : String) (job : Job) : Job :=
  { job with
    attempts := job.attempts ++ [⟨job.status, job.checkpoint, job.error, job.executionId⟩]
    payload := payload
    retryRequestId := payload.request.requestId
    executionId := some executionId
    status := .queued
    checkpoint := .prepare
    error := none }

/-- `Store.retry_deletion`. -/
def retryDeletion (s : Store) (jid : String) (payload : Payload) (executionId : String) :
    Result (Store × Job × Bool) :=
  match s.jobs.lookup jid with
  | none => fail 404 "Job not found"
  | some job =>
    if job.retryRequestId.isSome && job.retryRequestId == payload.request.requestId then
      if job.payload != payload then fail 409 "Retry request ID reused with different impact"
      else .ok (s, job, false)
    else do
      refuse (job.kind != .agentDelete || !job.status.reconcilable) 409
        "Only interrupted permanent deletion accepts a newly confirmed retry"
      refuse (s.heldByAnother jid job.scope) 409 "Another operation holds this Agent"
      return (s.update jid (retried payload executionId), retried payload executionId job, true)

/-! ## Restart -/

/-- What the start-up code does to a job that was being worked on. -/
def restarted (job : Job) : Job :=
  match job.status with
  | .running | .waiting | .applying =>
    { job with
      status := .needsRecovery
      error := some "Service restarted; inspect checkpoint before retry" }
  | _ => job

/-- `LoadTestStore.recover` on one test. -/
def recovered (r : LoadTest) : LoadTest :=
  let r := if r.status.active then
    { r with
      status := .interrupted
      error := some "Controller restarted; requests were not replayed" }
    else r
  if r.cleanupStatus == .cleaning then { r with cleanupStatus := .failed } else r

/-- The start-up writes of the service: load tests first, then jobs. -/
def restart (s : Store) : Store :=
  { s with jobs := s.jobs.mapValues restarted, loadTests := s.loadTests.mapValues recovered }

/-! ## Load tests -/

/-- The statuses of a job that make `LoadTestStore.create` refuse. The list is the source's: it is
written out there a second time, without `interrupted`. -/
def blocksLoadTest : Status → Bool
  | .queued | .running | .waiting | .applying | .needsRecovery => true
  | _ => false

/-- `validate_agents`: the snapshot of every selected agent, which must be published and enabled. -/
def validateAgents (agents : Dict String Agent) :
    List LoadAgent → Result (Dict String LoadSnapshot)
  | [] => .ok ∅
  | selected :: rest => do
    let unfit := "Select an existing, published and enabled Agent: " ++ selected.agentId
    let some agent := agents.lookup selected.agentId | fail 409 unfit
    let some config := agentConfig agent | fail 409 unfit
    refuse (!config.enabled || agent.lifecycle != .active) 409 unfit
    let snapshots ← validateAgents agents rest
    return snapshots.insert selected.agentId ⟨agent.active, config.defaultModelId⟩

/-- The agent of every user of a request, in the order the users are numbered. -/
def requestedUsers (request : LoadRequest) : List String :=
  request.agents.flatMap fun a => List.replicate a.users a.agentId

/-- Number the users of a test from `index` on and add them. -/
def addUsers (users : Dict String LoadTestUser) (hex : String) :
    Nat → List String → Dict String LoadTestUser
  | _, [] => users
  | index, aid :: rest =>
    let username := "loadtest-" ++ hex ++ "-" ++ toString index
    (addUsers users hex (index + 1) rest).insert username ⟨username, aid, "lt_" ++ hex, .retained⟩

/-- `LoadTestStore.create`; `agents` is the catalog snapshot last fetched and `hex` the new uuid. -/
def createLoadTest (s : Store) (agents : Dict String Agent) (hex : String)
    (request : LoadRequest) : Result (Store × String × Bool) :=
  match s.loadTests.entries.find? fun e => e.2.request.requestId == request.requestId with
  | some previous =>
    if previous.2.request != request then
      fail 409 "Request ID was already used with different test parameters"
    else .ok (s, previous.1, false)
  | none => do
    refuse (s.loadTests.any fun _ r => r.status.active) 409 "A load test is already active"
    refuse
      (s.jobs.any fun _ j => blocksLoadTest j.status &&
        (j.scope == everyAgent || request.agents.any fun a => a.agentId == j.scope))
      409 "An operation holds a selected Agent"
    let snapshots ← validateAgents agents request.agents
    let rid := "lt_" ++ hex
    let test : LoadTest :=
      { id := rid, request := request, snapshots := snapshots, status := .queued,
        cancelRequested := false, cleanupStatus := .retained, error := none }
    return (
      { s with
        loadTests := s.loadTests.insert rid test
        loadTestUsers := addUsers s.loadTestUsers hex 1 (requestedUsers request) },
      rid, true)

/-- `LoadTestStore.update(rid, **values)`. -/
def updateLoadTest (s : Store) (rid : String) (changes : LoadTest → LoadTest) : Store :=
  { s with loadTests := s.loadTests.modify rid changes }

/-- `LoadTestStore.update_user(username, storage_state=...)`. -/
def updateUser (s : Store) (username : String) (state : StorageState) : Store :=
  { s with loadTestUsers := s.loadTestUsers.modify username fun u => { u with state := state } }

end Store

end OpencodeCloud.Operations
