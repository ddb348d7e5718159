/-
# OpencodeCloud.Operations.Job -- jobs, load tests and the operations database

The operations service keeps its jobs and its load tests in one SQLite database and drives every
change of another service from there. This module is the data: the job record with its status and
checkpoint, the load test with its users, and the store that holds them. Timestamps and trace
identifiers are left out.

A job *holds its lease* while its status is one of the six that `Store.submit` tests for.
-/
import OpencodeCloud.Catalog.Document

namespace OpencodeCloud.Operations

open OpencodeCloud.Library OpencodeCloud.Catalog

/-! ## Jobs -/

inductive Status where
  | queued | running | waiting | applying | needsRecovery | interrupted
  | succeeded | failed | cancelled
  deriving Repr, DecidableEq

/-- The statuses under which `Store.submit` and `Store.retry_deletion` count a job as a holder. -/
def Status.leaseHolding : Status → Bool
  | .queued | .running | .waiting | .applying | .needsRecovery | .interrupted => true
  | .succeeded | .failed | .cancelled => false

/-- The statuses from which `checkpoint` may move a job on. -/
def Status.inProgress : Status → Bool
  | .queued | .running | .waiting | .applying => true
  | _ => false

/-- The statuses from which `cancel` may move a job. -/
def Status.cancellable : Status → Bool
  | .queued | .running | .waiting | .cancelled => true
  | _ => false

/-- The statuses that `reconcile` accepts besides `succeeded`. -/
def Status.reconcilable : Status → Bool
  | .needsRecovery | .interrupted | .failed => true
  | _ => false

theorem Status.leaseHolding_of_inProgress {st : Status} (h : st.inProgress = true) :
    st.leaseHolding = true := by
  cases st <;> simp_all [Status.inProgress, Status.leaseHolding]

inductive Checkpoint where
  | prepare | validate | quiesce | apply | verify | commit | cleanupFiles | cleanupCatalog
  | complete
  deriving Repr, DecidableEq

inductive Kind where
  | agentApply | modelsApply
  | sandboxStart | sandboxStop | sandboxRestart | sandboxDestroy | sandboxRecover
  | agentArchive | agentRestore | agentDelete | agentDeleteEmpty
  deriving Repr, DecidableEq

/-- `kind in {"agent.apply", "models.apply"}`. -/
def Kind.isApply : Kind → Bool
  | .agentApply | .modelsApply => true
  | _ => false

/-- `kind.startswith("sandbox.")`. -/
def Kind.isSandbox : Kind → Bool
  | .sandboxStart | .sandboxStop | .sandboxRestart | .sandboxDestroy | .sandboxRecover => true
  | _ => false

/-- What a client sends for an operation. -/
structure Request where
  requestId : Option String
  revision : Option Nat
  version : Option Nat
  previewId : Option String
  confirmation : Option String
  forcePreviewId : Option String
  expectedContainerId : Option String
  expectedActivityGeneration : Option String
  deriving Repr, DecidableEq

/-- What the answers of the services on a deletion say besides their fingerprints. -/
structure ImpactDetail where
  revision : Nat
  lifecycle : Lifecycle
  privateResources : List String
  sandboxes : List String
  sessions : Nat
  files : Nat
  bytes : Nat
  deriving Repr, DecidableEq

/-- The answers of the three services at submission: the fingerprints, and the rest. -/
structure ServiceImpacts where
  catalog : Option String
  sandbox : Option String
  files : Option String
  detail : Option ImpactDetail
  deriving Repr, DecidableEq

/-- The payload of a job: the client's request (also kept as `_input`) and what `submit` adds. -/
structure Payload where
  request : Request
  force : Bool
  serviceImpacts : Option ServiceImpacts
  deriving Repr, DecidableEq

/-- The sandbox as it was before a `sandbox.*` job. -/
structure SandboxBefore where
  containerId : Option String
  activityGeneration : Option String
  status : String
  deriving Repr, DecidableEq

/-- What is kept of an attempt when a deletion is retried. -/
structure Attempt where
  status : Status
  checkpoint : Checkpoint
  error : Option String
  executionId : Option String
  deriving Repr, DecidableEq

/-- The result of a finished job, as far as it is read again. -/
inductive JobResult where
  | version (n : Nat)
  | sandbox (sid : String) (observed : String)
  | deleted
  | other
  deriving Repr, DecidableEq

structure Job where
  id : String
  kind : Kind
  target : String
  scope : String
  payload : Payload
  requestId : String
  status : Status
  checkpoint : Checkpoint
  before : Option SandboxBefore
  originalInput : Request
  releaseId : Option String
  executionId : Option String
  retryRequestId : Option String
  attempts : List Attempt
  error : Option String
  applied : Bool
  compensated : Bool
  applyAcknowledged : Bool
  sandboxDeleted : Bool
  filesDeleted : Bool
  reconciled : Bool
  result : Option JobResult
  deriving Repr, DecidableEq

/-- `job.get("execution_id", job["id"])`. -/
def Job.execution (j : Job) : String := j.executionId.getD j.id

/-- The scope of a job that touches every agent. -/
def everyAgent : String := "*"

/-- Two scopes overlap: the same agent, or one of them is every agent. -/
def overlaps (a b : String) : Bool := a == b || a == everyAgent || b == everyAgent

theorem overlaps_comm (a b : String) : overlaps a b = overlaps b a := by
  simp only [overlaps, Bool.beq_comm (a := a) (b := b), Bool.or_assoc,
    Bool.or_comm (a == everyAgent)]

@[simp] theorem overlaps_self (a : String) : overlaps a a = true := by
  simp [overlaps]

/-! ## Load tests -/

inductive LoadStatus where
  | queued | preparing | running | cancelling
  | completed | completedWithErrors | failed | cancelled | interrupted
  deriving Repr, DecidableEq

/-- The statuses of `ACTIVE`. -/
def LoadStatus.active : LoadStatus → Bool
  | .queued | .preparing | .running | .cancelling => true
  | _ => false

inductive CleanupStatus where
  | retained | cleaning | cleaned | failed
  deriving Repr, DecidableEq

inductive StorageState where
  | retained | cleaning | cleaned
  deriving Repr, DecidableEq

/-- One row of a load request: an agent and how many users drive it. -/
structure LoadAgent where
  agentId : String
  users : Nat
  cpuLimit : Rat
  memoryMb : Nat
  deriving DecidableEq

structure LoadRequest where
  requestId : String
  agents : List LoadAgent
  timeoutSeconds : Nat
  prepareTimeoutSeconds : Nat
  deriving DecidableEq

/-- The version of an agent, and its model, that a test was admitted for. -/
structure LoadSnapshot where
  version : Option Nat
  modelId : String
  deriving Repr, DecidableEq

structure LoadTest where
  id : String
  request : LoadRequest
  snapshots : Dict String LoadSnapshot
  status : LoadStatus
  cancelRequested : Bool
  cleanupStatus : CleanupStatus
  error : Option String
  deriving DecidableEq

structure LoadTestUser where
  username : String
  agentId : String
  runId : String
  state : StorageState
  deriving Repr, DecidableEq

/-! ## The database -/

/-- What an administrator last asked of a sandbox. -/
inductive Desired where
  | running | stopped | onDemand
  deriving Repr, DecidableEq

structure Store where
  jobs : Dict String Job
  loadTests : Dict String LoadTest
  loadTestUsers : Dict String LoadTestUser
  desired : Dict String Desired

/-- The database of a new installation. -/
def Store.empty : Store := ⟨∅, ∅, ∅, ∅⟩

end OpencodeCloud.Operations
