/-
# OpencodeCloud.Operations.Worker -- `Workflows.run` as an automaton

One worker runs one job. Its program counter names the statement it is about to execute: either a
write to the operations database (`Worker.work`) or a call whose answer it awaits (`Worker.call` is
the request, `Worker.receive` takes the answer). Between two of these the source runs without an
`await`, so nothing else can happen there. The flags are the local variables of `run` of the same
names.

An exception goes where Python takes it: `Worker.raise` leaves the `try` body for the compensation,
for the final write of the status, or, on `CancelledError`, for the handler of a stopped worker; a
handler that raises goes on to the `finally` block, and the `finally` block that raises ends the task.
-/
import OpencodeCloud.Operations.Calls
import OpencodeCloud.Operations.Store

namespace OpencodeCloud.Operations

open OpencodeCloud.Library OpencodeCloud.Catalog

/-! ## States of a worker -/

inductive Pc where
  -- the body of the `try`
  | start
  | fetchPrevious
  | obtainRelease
  | validateMark
  | probe
  | quiesceMark
  | quiesce
  | applyMark
  | apply
  | verifyMark
  | verify
  | commitMark
  | commit
  | commitStatus (exc : Exc)
  | sandboxAction
  | deleting
  | delete
  | sandboxDeletedMark
  | cleanupFiles
  | filesDeletedMark
  | archive
  | lifecycle
  | desiredMark
  | finish
  -- `except asyncio.CancelledError`
  | stopped
  | stoppedMark
  -- `except Exception`
  | compensate (exc : Exc)
  | compensateVerify (exc : Exc)
  | settle (exc : Exc)
  -- `finally`
  | leave
  | resume
  | resumeFailed
  | ended
  deriving DecidableEq

/-- The statements of the `try` body: an exception there is handled by `run` itself. -/
def Pc.inBody : Pc → Bool
  | .stopped | .stoppedMark | .compensate _ | .compensateVerify _ | .settle _ => false
  | .leave | .resume | .resumeFailed | .ended => false
  | _ => true

structure Worker where
  job : Job
  pc : Pc
  applied : Bool
  applyStarted : Bool
  quiesceStarted : Bool
  compensated : Bool
  commitStarted : Bool
  commitStateKnown : Bool
  release : Option Release
  previous : Option Bundle
  result : Option JobResult
  deriving DecidableEq

/-- A worker that has just been spawned for `job`. -/
def Worker.spawned (job : Job) : Worker :=
  { job := job, pc := .start, applied := false, applyStarted := false, quiesceStarted := false,
    compensated := false, commitStarted := false, commitStateKnown := false, release := none,
    previous := none, result := none }

namespace Worker

/-- Continue at another statement. -/
def goto (w : Worker) (pc : Pc) : Worker := { w with pc := pc }

/-- `applied and release and (not commit_started or commit_state_known)`, for a job that has
something to go back to. -/
def compensates (w : Worker) : Bool :=
  w.applied && w.release.isSome && (!w.commitStarted || w.commitStateKnown) &&
    (w.job.kind == .modelsApply || w.previous.isSome)

/-- Where an exception takes the worker. -/
def raise (w : Worker) (exc : Exc) : Worker :=
  if w.pc.inBody then
    match exc with
    | .cancelled => w.goto .stopped
    | _ => if w.compensates then w.goto (.compensate exc) else w.goto (.settle exc)
  else
    match w.pc, exc with
    | .compensate _, .cancelled | .compensateVerify _, .cancelled => w.goto .leave
    | .compensate outer, _ | .compensateVerify outer, _ => w.goto (.settle outer)
    | .stopped, _ | .stoppedMark, _ | .settle _, _ => w.goto .leave
    | .resume, .cancelled => w.goto .ended
    | .resume, _ => w.goto .resumeFailed
    | _, _ => w.goto .ended

/-! ## Writes to the operations database -/

/-- `self.checkpoint(jid, name, **values)`: a transition from a status in progress. A job that was
cancelled meanwhile raises `CancelledError`, any other refused transition its own failure. -/
def checkpoint (s : Store) (w : Worker) (values : Job → Job) (next : Worker) : Store × Worker :=
  match s.transition w.job.id Status.inProgress values with
  | .ok s' => (s', next)
  | .error e =>
    if s.statusOf w.job.id = some .cancelled then (s, w.raise .cancelled)
    else (s, w.raise (.http e))

/-- The statement after `checkpoint("prepare")`. -/
def afterStart (w : Worker) : Worker :=
  match w.job.kind with
  | .agentApply => w.goto .fetchPrevious
  | .modelsApply => w.goto .obtainRelease
  | _ => if w.job.kind.isSandbox then w.goto .applyMark else w.goto .quiesceMark

/-- The statement after `checkpoint("apply", status="applying")`. -/
def afterApplyMark (w : Worker) : Worker :=
  let w := { w with applyStarted := true }
  match w.job.kind with
  | .agentApply | .modelsApply => w.goto .apply
  | .agentDelete | .agentDeleteEmpty => w.goto .deleting
  | .agentArchive => w.goto .archive
  | .agentRestore => w.goto .lifecycle
  | _ => w.goto .sandboxAction

/-- The desired state that a sandbox job records, if it records one. -/
def desiredState : Kind → Option Desired
  | .sandboxStop => some .stopped
  | .sandboxDestroy => some .onDemand
  | .sandboxStart | .sandboxRestart => some .running
  | _ => none

/-- The end of the `try` body: record the desired state, then the success. -/
def afterBody (w : Worker) (result : JobResult) : Worker :=
  let w := { w with result := some result }
  if (desiredState w.job.kind).isSome then w.goto .desiredMark else w.goto .finish

/-- The status of a worker that was stopped: `"needs_recovery" if apply_started else
"interrupted"`. -/
def stoppedStatus (w : Worker) : Status :=
  if w.applyStarted then .needsRecovery else .interrupted

/-- The status after an exception. -/
def settledStatus (w : Worker) : Status :=
  if w.applyStarted && !w.compensated then .needsRecovery else .failed

/-- Execute one write to the database. `raises` says that this write fails: it has no effect then
and raises. At a statement that makes no write the worker does not move. -/
def work (s : Store) (w : Worker) (raises : Bool) : Store × Worker :=
  if raises then (s, w.raise .other) else
  match w.pc with
  | .start =>
    w.checkpoint s (fun j => { j with checkpoint := .prepare, status := .running }) w.afterStart
  | .validateMark =>
    w.checkpoint s
      (fun j => { j with checkpoint := .validate, releaseId := w.release.map (·.releaseId) })
      (w.goto .probe)
  | .quiesceMark =>
    w.checkpoint s (fun j => { j with checkpoint := .quiesce, status := .waiting })
      { w with quiesceStarted := true, pc := .quiesce }
  | .applyMark =>
    w.checkpoint s (fun j => { j with checkpoint := .apply, status := .applying }) w.afterApplyMark
  | .verifyMark =>
    w.checkpoint s (fun j => { j with checkpoint := .verify, applyAcknowledged := true })
      (w.goto .verify)
  | .commitMark =>
    w.checkpoint s (fun j => { j with checkpoint := .commit })
      { w with commitStarted := true, pc := .commit }
  | .sandboxDeletedMark =>
    (s.update w.job.id fun j => { j with checkpoint := .cleanupFiles, sandboxDeleted := true },
      w.goto .cleanupFiles)
  | .filesDeletedMark =>
    (s.update w.job.id fun j => { j with checkpoint := .cleanupCatalog, filesDeleted := true },
      w.goto .lifecycle)
  | .desiredMark =>
    match desiredState w.job.kind with
    | some d => ({ s with desired := s.desired.insert w.job.target d }, w.goto .finish)
    | none => (s, w.goto .finish)
  | .finish =>
    (s.update w.job.id fun j =>
      { j with status := .succeeded, checkpoint := .complete, result := w.result }, w.goto .leave)
  | .stopped =>
    -- a transaction of its own: a cancellation may fall between this look and the write
    if s.statusOf w.job.id = some .cancelled then (s, w.goto .leave) else (s, w.goto .stoppedMark)
  | .stoppedMark =>
    (s.update w.job.id fun j =>
      { j with
        status := w.stoppedStatus
        error := some "Worker stopped; inspect checkpoint before retry" }, w.goto .leave)
  | .settle exc =>
    (s.update w.job.id fun j =>
      { j with
        status := w.settledStatus
        error := some exc.detail
        applied := w.applied
        compensated := w.compensated }, w.goto .leave)
  | .leave =>
    if w.quiesceStarted && s.statusOf w.job.id != some .needsRecovery then (s, w.goto .resume)
    else (s, w.goto .ended)
  | .resumeFailed =>
    (s.update w.job.id fun j =>
      { j with
        status := .needsRecovery
        error := some "Unable to release target admission block" }, w.goto .ended)
  | _ => (s, w)

/-! ## Calls -/

/-- The body of an action of this job: `action(job, name, **extra)`. -/
def actionBody (w : Worker) (name : ActionName) : ActionBody :=
  .plain name (w.job.execution ++ name.suffix)

/-- The fingerprints of a deletion. -/
def impacts (w : Worker) : ServiceImpacts :=
  w.job.payload.serviceImpacts.getD ⟨none, none, none, none⟩

/-- The catalog action that ends a lifecycle job. -/
def lifecycleAction : Kind → LifecycleAction
  | .agentArchive => .archive
  | .agentRestore => .restore
  | _ => .delete

/-- The call whose answer the worker awaits, if it awaits one. -/
def call (w : Worker) : Option Call :=
  match w.pc with
  | .fetchPrevious => some (.activeBundle w.job.target)
  | .obtainRelease =>
    match w.job.releaseId with
    | some rid => some (.release rid)
    | none => some (.prepare w.job.kind w.job.target w.job.payload.request)
  | .probe => w.release.map fun r =>
    if w.job.kind = .agentApply then .probes (Package.release r).files else .validateConfig r
  | .quiesce => some (.action w.job.target (w.actionBody .quiesce))
  | .apply => w.release.map fun r =>
    if w.job.kind = .agentApply then
      .action w.job.target { w.actionBody .apply with bundle := some (.release r) }
    else .activate r
  | .verify =>
    if w.job.kind = .agentApply then some (.action w.job.target (w.actionBody .verify))
    else some .gatewayStatus
  | .commit => w.release.map fun r => .commit r.releaseId
  | .commitStatus _ => w.release.map fun r => .release r.releaseId
  | .sandboxAction =>
    some (.sandboxAction w.job.kind w.job.target w.job.execution w.job.payload)
  | .deleting =>
    some (.lifecycle w.job.target .deleting w.job.execution w.impacts.catalog)
  | .delete =>
    some (.action w.job.target
      { w.actionBody .delete with
        emptyOnly := some (w.job.kind == .agentDeleteEmpty)
        expectedFingerprint := w.impacts.sandbox })
  | .cleanupFiles =>
    some (.cleanupFiles w.job.target w.job.execution w.impacts.files
      (w.job.kind == .agentDeleteEmpty))
  | .archive => some (.action w.job.target (w.actionBody .archive))
  | .lifecycle =>
    some (.lifecycle w.job.target (lifecycleAction w.job.kind) w.job.execution
      w.impacts.catalog)
  | .compensate _ =>
    if w.job.kind = .modelsApply then w.release.map fun r => .rollback r.releaseId
    else w.previous.map fun b =>
      .action w.job.target
        { ActionBody.plain .apply (w.job.id ++ ":compensate") with bundle := some (.previous b) }
  | .compensateVerify _ =>
    some (.action w.job.target (.plain .verify (w.job.id ++ ":compensate:verify")))
  | .resume => some (.action w.job.target (w.actionBody .resume))
  | _ => none

/-- The worker after a call that failed. -/
def callFailed (w : Worker) : Reply → Worker
  | .error e => w.raise (.http e)
  | _ => w.raise .other

/-- The worker takes the answer of the call it awaits. An answer of the wrong shape raises, as a
missing key does. -/
def receive (w : Worker) (reply : Reply) : Worker :=
  match w.pc, reply with
  | .fetchPrevious, .ok (.bundle b) => { w with previous := some b, pc := .obtainRelease }
  | .fetchPrevious, .error e =>
    -- an agent without an active configuration has nothing to go back to
    if e.status = 404 then w.goto .obtainRelease else w.raise (.http e)
  | .obtainRelease, .ok (.release r) => { w with release := some r, pc := .validateMark }
  | .probe, .ok _ => w.goto .quiesceMark
  | .quiesce, .ok _ => w.goto .applyMark
  | .apply, .ok _ => { w with applied := true, pc := .verifyMark }
  | .verify, .ok answer =>
    if w.job.kind = .agentApply then w.goto .commitMark
    else
      match answer with
      | .gateway ready rid =>
        if ready && rid == w.release.map (·.releaseId) then w.goto .commitMark
        else w.raise (.http ⟨503, "Applied model gateway version failed verification"⟩)
      | _ => w.raise .other
  | .commit, .ok (.version n) => { w with commitStateKnown := true }.afterBody (.version n)
  | .commit, .ok _ => { w with commitStateKnown := true }.afterBody .other
  | .commit, .error e => w.goto (.commitStatus (.http e))
  | .commitStatus exc, .ok (.release r) =>
    let w := { w with commitStateKnown := true }
    if r.committed then w.afterBody (.version r.version) else w.raise exc
  | .sandboxAction, .ok _ => { w with applied := true }.afterBody .other
  | .deleting, .ok _ => w.goto .delete
  | .delete, .ok _ => w.goto .sandboxDeletedMark
  | .cleanupFiles, .ok _ => w.goto .filesDeletedMark
  | .archive, .ok _ => w.goto .lifecycle
  | .lifecycle, .ok _ => { w with applied := true }.afterBody .other
  | .compensate exc, .ok _ =>
    if w.job.kind = .modelsApply then { w with compensated := true, pc := .settle exc }
    else w.goto (.compensateVerify exc)
  | .compensateVerify exc, .ok _ => { w with compensated := true, pc := .settle exc }
  | .resume, .ok _ => w.goto .ended
  | _, _ => w.callFailed reply

end Worker

end OpencodeCloud.Operations
