/-
# OpencodeCloud.Operations.Reconciler -- `Workflows.reconcile` as an automaton

An operator asks for a job to be recorded as succeeded when the other services show that it was. The
automaton works on the job as it was read at the start (`job`), takes no lease, and ends without a
write whenever anything raises: only `finish` writes the job.
-/
import OpencodeCloud.Operations.Calls
import OpencodeCloud.Operations.Store

namespace OpencodeCloud.Operations

open OpencodeCloud.Library OpencodeCloud.Catalog

inductive ReconcilePc where
  | readRelease
  | readApplied
  | commit
  | sandboxDetail
  | desiredMark
  | catalogImpact
  | sandboxImpact
  | filesImpact
  | resume
  | finish
  | ended
  deriving Repr, DecidableEq

structure Reconciler where
  job : Job
  requestId : String
  pc : ReconcilePc
  release : Option Release
  result : Option JobResult
  deriving DecidableEq

namespace Reconciler

def goto (t : Reconciler) (pc : ReconcilePc) : Reconciler := { t with pc := pc }

/-- The first statement for a job, or nothing when no evidence of completion can exist. -/
def firstPc (job : Job) : Option ReconcilePc :=
  if job.releaseId.isSome then some .readRelease
  else if job.kind.isSandbox then some .sandboxDetail
  else if job.kind = .agentDelete then some .catalogImpact
  else none

/-- The start of `reconcile`: a finished job is answered at once, a job that is not awaiting
reconciliation is refused. -/
def begin (s : Store) (jid requestId : String) : Result (Option Reconciler) :=
  match s.jobs.lookup jid with
  | none => fail 404 "Job not found"
  | some job =>
    if job.status = .succeeded then .ok none
    else do
      refuse (!job.status.reconcilable) 409 "Job is not awaiting reconciliation"
      match firstPc job with
      | none => fail 409 "No completed execution evidence exists for this job"
      | some pc => return some ⟨job, requestId, pc, none, none⟩

/-- The sandbox status that a finished sandbox job shows. -/
def desiredStatus : Kind → String
  | .sandboxDestroy => "destroyed"
  | .sandboxStop => "stopped"
  | _ => "ready"

/-- The desired state that reconciliation records for a sandbox job. -/
def desiredState : Kind → Desired
  | .sandboxDestroy => .onDemand
  | .sandboxStop => .stopped
  | _ => .running

/-- Whether the observed sandbox is evidence that the job is done. -/
def sandboxDone (job : Job) (status : String) (containerId : Option String) : Bool :=
  status == desiredStatus job.kind &&
    !(job.kind == .sandboxDestroy && containerId.isSome) &&
    !((job.kind == .sandboxRestart || job.kind == .sandboxRecover) &&
      containerId == job.before.bind (·.containerId))

/-- The call whose answer is awaited. -/
def call (t : Reconciler) : Option Call :=
  match t.pc with
  | .readRelease => t.job.releaseId.map .release
  | .readApplied =>
    if t.job.kind = .modelsApply then some .gatewayStatus
    else some (.applicationStatus t.job.target)
  | .commit => t.release.map fun r => .commit r.releaseId
  | .sandboxDetail => some (.sandboxDetail t.job.target)
  | .catalogImpact => some (.catalogImpact t.job.target)
  | .sandboxImpact => some (.sandboxImpact t.job.target)
  | .filesImpact => some (.filesImpact t.job.target)
  | .resume => some (.action t.job.target (.plain .resume (t.requestId ++ ":resume")))
  | .desiredMark | .finish | .ended => none

/-- Whether the answer shows that `r` is what runs. -/
def verifies (t : Reconciler) (r : Release) : Response → Bool
  | .gateway ready rid => t.job.kind == .modelsApply && ready && rid == some r.releaseId
  | .application version verified =>
    t.job.kind != .modelsApply && verified && version == r.version
  | _ => false

/-- Take an answer; everything that raises ends the reconciliation. -/
def receive (t : Reconciler) (reply : Reply) : Reconciler :=
  match t.pc, reply with
  | .readRelease, .ok (.release r) =>
    let t := { t with release := some r }
    if r.committed then { t with result := some (.version r.version), pc := .resume }
    else t.goto .readApplied
  | .readApplied, .ok answer =>
    if (t.release.map fun r => t.verifies r answer) = some true then t.goto .commit
    else t.goto .ended
  | .commit, .ok (.version n) => { t with result := some (.version n), pc := .resume }
  | .commit, .ok _ => { t with result := some .other, pc := .resume }
  | .sandboxDetail, .ok (.sandbox status containerId) =>
    if sandboxDone t.job status containerId then t.goto .desiredMark else t.goto .ended
  | .catalogImpact, .error e => if e.status = 404 then t.goto .sandboxImpact else t.goto .ended
  | .sandboxImpact, .ok (.owned false) => t.goto .filesImpact
  | .filesImpact, .ok (.owned false) => { t with result := some .deleted, pc := .resume }
  | .resume, .ok _ => t.goto .finish
  | _, _ => t.goto .ended

/-- The writes of a reconciliation. -/
def work (s : Store) (t : Reconciler) (raises : Bool) : Store × Reconciler :=
  if raises then (s, t.goto .ended) else
  match t.pc with
  | .desiredMark =>
    ({ s with desired := s.desired.insert t.job.target (desiredState t.job.kind) },
      { t with
        result := some (.sandbox t.job.target (desiredStatus t.job.kind))
        pc := .finish })
  | .finish =>
    (s.update t.job.id fun j =>
      { j with
        status := .succeeded
        checkpoint := .complete
        result := t.result
        reconciled := true }, t.goto .ended)
  | _ => (s, t)

theorem receive_job (t : Reconciler) (reply : Reply) : (t.receive reply).job = t.job := by
  unfold receive
  split
  case h_1 =>
    dsimp only
    split <;> rfl
  all_goals first | rfl | (split <;> rfl)

theorem work_job (s : Store) (t : Reconciler) (raises : Bool) : (t.work s raises).2.job = t.job := by
  unfold work
  split
  · rfl
  · split <;> rfl

end Reconciler

end OpencodeCloud.Operations
