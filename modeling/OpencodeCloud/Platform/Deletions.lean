/-
# OpencodeCloud.Platform.Deletions -- the permanent deletion of an agent, and its recovery

A deletion job goes through four services: the agent is marked in the catalog, the sandbox manager removes its
sandboxes and rows, the file service its directories, and the catalog then deletes it and retires its id. Each
service guards its step by a fingerprint of what was previewed and by a journal of its own. Any call may be
cut off in the middle or lose its answer, and every process may stop.

A job that ended badly is **reconciled**, when the agent is gone, or **retried** after a new preview. A
retry has an execution id of its own, so the journals of the services do not hold it up, and new fingerprints,
so what the attempt before has done is no change. In the end all that belongs to the agent is gone
(`deletion_recovers`).

The machine is about one agent and one job; other jobs, administrators and users appear as changes of
the data. Compiled directories, the checks of identifiers and what no step reads of a row are left out.
-/
import Mathlib
import OpencodeCloud.Catalog.Histories
import OpencodeCloud.Operations.Steps
import OpencodeCloud.Platform.System

namespace OpencodeCloud.Platform.Deletions

open OpencodeCloud.Library OpencodeCloud.Catalog OpencodeCloud.Operations

/-! ## §A What belongs to an agent -/

/-- A row of `sandboxes` with what there is of it. -/
structure Sandbox where
  username : String
  /-- its container, and whether the labels are those of the agent and the user -/
  container : Option Bool
  activeRequestLeases : Nat
  /-- `execution` answers `idle` -/
  idle : Bool
  sessions : List String
  deriving DecidableEq

/-- What the sandbox manager has of the agent. -/
structure Sandboxes where
  rows : List Sandbox
  /-- `admission.requests` and `admission.acquiring`, of those that were admitted -/
  inFlight : Nat
  deriving DecidableEq

structure File where
  path : String
  size : Nat
  mtime : Nat
  symlink : Bool
  deriving DecidableEq

/-- The directory of the agent in one root, with its entries. -/
inductive Directory
  | absent
  | symlink
  | present (entries : List File)
  deriving DecidableEq

structure AgentFiles where
  workspace : Directory
  state : Directory
  deriving DecidableEq

/-- A row of `cleanups`. -/
structure Receipt where
  fingerprint : Option String
  emptyOnly : Bool
  finished : Bool
  deriving DecidableEq

/-- The parameters: the catalog, the hashes of the two other services (never empty), the job and the
agent. -/
structure Setting where
  env : Service.Environment
  hashSandboxes : List Sandbox → String
  hashFiles : AgentFiles → String
  hashFiles_ne : ∀ f, hashFiles f ≠ ""
  jid : String
  aid : String
  aid_ne : aid ≠ everyAgent

/-! ## §B Calls that are cut off -/

/-- How much of a call is carried out: all of it, or its first writes. -/
inductive Extent
  | nothing
  /-- only the entry in the journal -/
  | entered
  /-- some of the removals, and no result in the journal -/
  | removals (n : Nat)
  | all
  deriving DecidableEq

/-- The removals that an extent allows. -/
def Extent.allows (extent : Extent) (n : Nat) : Bool :=
  match extent with
  | .removals m => n < m
  | .all => true
  | _ => false

/-! ## §C The sandbox manager -/

/-- `drain` confirms that nothing is going on. -/
def Sandboxes.drained (s : Sandboxes) : Bool := s.inFlight == 0 && s.rows.all (·.idle)

/-- `remove_records` raises at a row. -/
def Sandbox.refuses (r : Sandbox) : Bool := r.activeRequestLeases != 0 || r.container == some false

/-- `remove_records`, from the row with index `n` on: whether it came to its end, and the rows. -/
def removeRecords (extent : Extent) (n : Nat) : List Sandbox → Bool × List Sandbox
  | [] => (true, [])
  | r :: rows =>
    if r.refuses || !extent.allows n then (false, r :: rows)
    else
      ((removeRecords extent (n + 1) rows).1,
        { r with container := none } :: (removeRecords extent (n + 1) rows).2)

/-- The rows are deleted when all the records were removed. -/
def deleteRows (extent : Extent) (rows : List Sandbox) : Bool × List Sandbox :=
  if (removeRecords extent 0 rows).1 && extent.allows rows.length then (true, [])
  else (false, (removeRecords extent 0 rows).2)

section Manager

variable (k : Setting) (d : Document)

/-- What an action does once it is in the journal. -/
def perform (m : Manager) (s : Sandboxes) (body : ActionBody) (extent : Extent) :
    (Manager × Sandboxes) × Result Unit :=
  match body.action with
  | .quiesce | .delete =>
    if body.expectedFingerprint.any (· != k.hashSandboxes s.rows) then
      ((m, s), fail 409 "Deletion impact changed")
    else if !s.drained then
      ((m.block k.aid, s), fail 409 "Could not confirm sandbox idle before operation")
    else if body.action = .delete then
      ((m.block k.aid, { s with rows := (deleteRows extent s.rows).2 }),
        if (deleteRows extent s.rows).1 then .ok () else fail 409 "Sandbox has active leases")
    else ((m.block k.aid, s), .ok ())
  | _ => (((m.perform d none k.aid body).1, s), (m.perform d none k.aid body).2)

/-- `POST /internal/v1/agents/{aid}/actions`. -/
def action (m : Manager) (s : Sandboxes) (body : ActionBody) (extent : Extent) :
    (Manager × Sandboxes) × Reply :=
  match m.commands.lookup body.requestId with
  | some old =>
    ((m, s),
      if ¬ (old.target = k.aid ∧ old.body = body) then .error ⟨409, "Idempotency key reused"⟩
      else if old.finished then .ok .accepted
      else .error ⟨409, "Prior action interrupted; reconcile before retry"⟩)
  | none =>
    let entered := { m with commands := m.commands.insert body.requestId ⟨k.aid, body, false⟩ }
    match extent with
    | .nothing => ((m, s), .raised)
    | .entered => ((entered, s), .raised)
    | _ =>
      let result := perform k d entered s body extent
      match result.2 with
      | .error e => (result.1, .error e)
      | .ok () =>
        if extent = .all then
          (({ result.1.1 with
              commands := result.1.1.commands.insert body.requestId ⟨k.aid, body, true⟩ },
            result.1.2), .ok .accepted)
        else (result.1, .raised)

end Manager

/-! ## §D The file service -/

def Directory.entries : Directory → List File
  | .present entries => entries
  | _ => []

/-- `agent_impact` raises: the directory or something in it is a link. -/
def Directory.linked : Directory → Bool
  | .symlink => true
  | .present entries => entries.any (·.symlink)
  | .absent => false

def AgentFiles.entries (f : AgentFiles) : List File := f.workspace.entries ++ f.state.entries

def AgentFiles.linked (f : AgentFiles) : Bool := f.workspace.linked || f.state.linked

def AgentFiles.gone : AgentFiles := ⟨.absent, .absent⟩

/-- What `agent_impact` answers. -/
structure FilesImpact where
  files : Nat
  bytes : Nat
  fingerprint : String
  deriving DecidableEq

/-- `rmtree` of both directories, file by file. -/
def AgentFiles.remove (extent : Extent) (f : AgentFiles) : AgentFiles :=
  match extent with
  | .removals n =>
    if n < f.workspace.entries.length then
      { f with workspace := .present (f.workspace.entries.drop n) }
    else if n < f.entries.length then
      ⟨.absent, .present (f.state.entries.drop (n - f.workspace.entries.length))⟩
    else .gone
  | .all => .gone
  | _ => f

section Files

variable (k : Setting)

def agentImpact (f : AgentFiles) : Result FilesImpact :=
  if f.linked then fail 409 "Agent data contains a symlink"
  else .ok ⟨f.entries.length, (f.entries.map (·.size)).sum, k.hashFiles f⟩

/-- `cleanup_agent`; the receipt is complete when everything was carried out. -/
def cleanupAgent (receipts : Dict String Receipt) (f : AgentFiles) (authorized : Bool)
    (requestId : String) (fingerprint : Option String) (emptyOnly : Bool) (extent : Extent) :
    (Dict String Receipt × AgentFiles) × Reply :=
  if requestId = "" ∨ 256 < requestId.length then
    ((receipts, f), .error ⟨422, "Cleanup requires a bounded request_id"⟩)
  else
    match receipts.lookup requestId with
    | some receipt =>
      ((receipts, f),
        if receipt.fingerprint ≠ fingerprint ∨ receipt.emptyOnly ≠ emptyOnly then
          .error ⟨409, "Cleanup request_id was reused with different parameters"⟩
        else if receipt.finished then .ok .accepted
        else .error ⟨409, "Cleanup was interrupted; reconcile its result before continuing"⟩)
    | none =>
      if !authorized then ((receipts, f), .error ⟨409, "File operation is not admitted by operations"⟩)
      else
        match agentImpact k f with
        | .error e => ((receipts, f), .error e)
        | .ok impact =>
          if fingerprint.all (· == "") = true ∨ fingerprint ≠ some impact.fingerprint then
            ((receipts, f), .error ⟨409, "Fresh file deletion fingerprint required"⟩)
          else if emptyOnly && impact.files != 0 then
            ((receipts, f), .error ⟨409, "Agent files are not empty"⟩)
          else
            match extent with
            | .nothing => ((receipts, f), .raised)
            | _ =>
              ((receipts.insert requestId ⟨fingerprint, emptyOnly, extent == .all⟩,
                f.remove extent), .ok .accepted)

end Files

/-! ## §E Operations -/

/-- What `deletion_impact` puts together. -/
structure Impact where
  revision : Nat
  lifecycle : Lifecycle
  privateResources : List String
  catalogFingerprint : String
  sandboxes : List String
  sessions : Nat
  sandboxFingerprint : String
  files : FilesImpact
  deriving DecidableEq

/-- The `service_impacts` that go into the job. -/
def Impact.serviceImpacts (i : Impact) : ServiceImpacts where
  catalog := some i.catalogFingerprint
  sandbox := some i.sandboxFingerprint
  files := some i.files.fingerprint
  detail := some
    { revision := i.revision
      lifecycle := i.lifecycle
      privateResources := i.privateResources
      sandboxes := i.sandboxes
      sessions := i.sessions
      files := i.files.files
      bytes := i.files.bytes }

structure System where
  store : Operations.Store
  /-- the previews that have not expired -/
  previews : Dict String Impact
  workers : List Worker
  reconcilers : List Reconciler
  catalog : Service
  manager : Manager
  sandboxes : Sandboxes
  files : AgentFiles
  receipts : Dict String Receipt

/-- How an await of a task ends. -/
inductive Outcome
  /-- the call is carried out and answered; a write succeeds -/
  | fine
  /-- the call fails, though some of it was carried out -/
  | lost (extent : Extent) (raised : Bool)
  /-- the task is cancelled, though some of the call was carried out -/
  | stopped (extent : Extent)
  /-- a write raises -/
  | raises
  deriving DecidableEq

/-- What a client sends with a retry. -/
structure RetryRequest where
  requestId : String
  previewId : String
  confirmation : String
  deriving DecidableEq

/-- The payload of a retry, with the impact found now. -/
def RetryRequest.payload (r : RetryRequest) (i : Impact) : Payload where
  request := ⟨some r.requestId, none, none, some r.previewId, some r.confirmation, none, none, none⟩
  force := false
  serviceImpacts := some i.serviceImpacts

inductive Event
  | work (i : Nat) (x : Outcome)
  | preview (pid : String)
  | expire (pid : String)
  | retry (r : RetryRequest) (executionId : String)
  | reconcile (requestId : String)
  | reconcileWork (i : Nat) (x : Outcome)
  /-- operations stops and starts again -/
  | restart
  | cancel
  /-- other jobs, load tests and desired states -/
  | others (store : Operations.Store)
  /-- an edit of the catalog by somebody else -/
  | edit (catalog : Service)
  /-- what users, health checks and other operations do to the sandboxes -/
  | traffic (sandboxes : Sandboxes)
  | write (files : AgentFiles)
  /-- the actions of other operations -/
  | manage (manager : Manager)

namespace System

variable (k : Setting) (s : System)

def job : Option Job := s.store.jobs.lookup k.jid

def agent : Option Agent := s.catalog.store.data.agents.lookup k.aid

/-- The agent is in the catalog. -/
def present : Bool := (s.agent k).isSome

/-- The id of the agent is retired. -/
def retired : Bool := (s.catalog.store.data.agentTombstones.lookup k.aid).isSome

/-- `admission` and `file_admission` refuse: the deletion is not over. -/
def pending : Bool := (s.job k).any (·.status.leaseHolding)

/-- `cleanup_authorization`. -/
def authorizes (requestId : String) : Bool :=
  s.store.jobs.any fun _ job => job.target == k.aid &&
    (job.kind == .agentDelete || job.kind == .agentDeleteEmpty) &&
    job.execution == requestId && job.status == .applying

/-- `deletion_impact`. -/
def deletionImpact : Result Impact := do
  match s.agent k with
  | none => fail 404 "Agent not found"
  | some a => do
    let files ← agentImpact k s.files
    return {
      revision := s.catalog.store.revision
      lifecycle := a.lifecycle
      privateResources := (privateResources s.catalog.store.data k.aid).keys
      catalogFingerprint := k.env.fingerprint { a with lifecycle := .active }
        (privateResources s.catalog.store.data k.aid)
      sandboxes := s.sandboxes.rows.map (·.username)
      sessions := (s.sandboxes.rows.map (·.sessions.length)).sum
      sandboxFingerprint := k.hashSandboxes s.sandboxes.rows
      files := files }

/-- A request to another service is carried out, as far as the extent says. -/
def carryOut (extent : Extent) : Call → System × Reply
  | .action _ body =>
    let r := action k s.catalog.store.data s.manager s.sandboxes body extent
    ({ s with manager := r.1.1, sandboxes := r.1.2 }, r.2)
  | .cleanupFiles _ requestId fingerprint emptyOnly =>
    let r := cleanupAgent k s.receipts s.files (s.authorizes k requestId) requestId fingerprint
      emptyOnly extent
    ({ s with receipts := r.1.1, files := r.1.2 }, r.2)
  | .sandboxImpact _ => (s, .ok (.owned (!s.sandboxes.rows.isEmpty)))
  | .filesImpact _ => (s, State.replyOf ((agentImpact k s.files).map fun i => .owned (i.files != 0)))
  | c =>
    -- the catalog carries out a request in one transaction
    (if extent = .nothing then s else { s with catalog := State.askCatalog k.env s.catalog "" c },
      State.replyOf (State.catalogAnswer k.env s.catalog "" c))

/-- A task that is at its end is gone. -/
def putWorker (i : Nat) (w : Worker) : System :=
  { s with workers := if w.pc = .ended then s.workers.eraseIdx i else s.workers.set i w }

def putReconciler (i : Nat) (t : Reconciler) : System :=
  { s with reconcilers := if t.pc = .ended then s.reconcilers.eraseIdx i else s.reconcilers.set i t }

def work (i : Nat) (x : Outcome) : Option System := do
  let w ← s.workers[i]?
  match w.call, x with
  | none, .fine => some ({ s with store := (w.work s.store false).1 }.putWorker i (w.work s.store false).2)
  | none, .raises => some (s.putWorker i (w.work s.store true).2)
  | some c, .fine =>
    some ((s.carryOut k .all c).1.putWorker i (w.receive (s.carryOut k .all c).2))
  | some c, .lost extent raised =>
    some ((s.carryOut k extent c).1.putWorker i (w.receive (State.failure raised c)))
  | some c, .stopped extent => some ((s.carryOut k extent c).1.putWorker i (w.raise .cancelled))
  | _, _ => none

def reconcileWork (i : Nat) (x : Outcome) : Option System := do
  let t ← s.reconcilers[i]?
  match t.call, x with
  | none, .fine =>
    some ({ s with store := (t.work s.store false).1 }.putReconciler i (t.work s.store false).2)
  | none, .raises => some (s.putReconciler i (t.work s.store true).2)
  | some c, .fine =>
    some ((s.carryOut k .all c).1.putReconciler i (t.receive (s.carryOut k .all c).2))
  | some c, .lost extent raised =>
    some ((s.carryOut k extent c).1.putReconciler i (t.receive (State.failure raised c)))
  | some c, .stopped extent => some ((s.carryOut k extent c).1.putReconciler i (t.goto .ended))
  | _, _ => none

/-- `retry_deletion`: a refused request changes nothing. -/
def retry (r : RetryRequest) (executionId : String) : System :=
  match s.previews.lookup r.previewId, s.deletionImpact k with
  | some preview, .ok impact =>
    if r.confirmation ≠ k.aid ∨ impact ≠ preview ∨ impact.lifecycle = .active then s
    else
      match s.store.retryDeletion k.jid (r.payload impact) executionId with
      | .ok (store, job, true) =>
        { s with store := store, workers := s.workers ++ [Worker.spawned job] }
      | _ => s
  | _, _ => s

/-- `uuid4().hex` is new to the journals of the services. -/
def fresh (executionId : String) : Bool :=
  executionId.length == 32 && (s.receipts.lookup executionId).isNone &&
    s.manager.commands.all fun key _ => !executionId.toList.isPrefixOf key.toList

/-- `reconcile`: a refused request changes nothing. -/
def reconcile (requestId : String) : System :=
  match Reconciler.begin s.store k.jid requestId with
  | .ok (some t) => { s with reconcilers := s.reconcilers ++ [t] }
  | _ => s

/-- Where this execution of the deletion writes into the journal of the manager. -/
def keys : List String :=
  (s.job k).toList.flatMap fun job =>
    [ActionName.quiesce, .delete, .resume].map fun name => job.execution ++ name.suffix

/-- `cancel`: a refused request changes nothing. -/
def cancel : System :=
  match s.store.transition k.jid Status.cancellable fun j => { j with status := .cancelled } with
  | .ok store => { s with store := store }
  | .error _ => s

/-- Another deletion of the agent may take it out of the catalog, when this one is over. -/
def replaced (t : System) : Bool :=
  !s.pending k && s.sandboxes.rows.isEmpty && s.files == .gone && !t.present k && t.retired k

/-- The manager or operations refuse to acquire a sandbox. -/
def closed : Bool := s.manager.blocked.contains k.aid || s.pending k

/-- Sandboxes are added when both admit, or by a request that was admitted before. -/
def trafficked (t : Sandboxes) : Bool :=
  !s.closed k ||
    t.inFlight ≤ s.sandboxes.inFlight &&
      (s.sandboxes.inFlight != 0 ||
        t.rows.all fun r => s.sandboxes.rows.any fun r' => r.username == r'.username)

/-- The process ends with every task. A job that was being worked on needs recovery then, and one that was
still queued is run. -/
def restart : System :=
  { s with
    store := s.store.restart
    workers := ((s.job k).toList.filter (·.status == .queued)).map Worker.spawned
    reconcilers := [] }

def step : Event → Option System
  | .work i x => s.work k i x
  | .preview pid =>
    match s.deletionImpact k with
    | .ok impact => some { s with previews := s.previews.insert pid impact }
    | .error _ => some s
  | .expire pid => some { s with previews := s.previews.erase pid }
  | .retry r executionId => if s.fresh executionId then some (s.retry k r executionId) else none
  | .reconcile requestId => some (s.reconcile k requestId)
  | .reconcileWork i x => s.reconcileWork k i x
  | .restart => some (s.restart k)
  | .cancel => some (s.cancel k)
  | .others store =>
    if store.jobs.lookup k.jid = s.store.jobs.lookup k.jid then some { s with store := store } else none
  -- only a deletion takes an agent out of the catalog, and a retired id is not given again
  | .edit catalog =>
    let t := { s with catalog := catalog }
    if t.present k = s.present k ∧ t.retired k = s.retired k ∨ s.replaced k t then some t else none
  | .traffic sandboxes =>
    if s.trafficked k sandboxes then some { s with sandboxes := sandboxes } else none
  -- files are written by what runs in a container, or when the file service admits
  | .write files =>
    if !s.pending k || s.sandboxes.rows.any (·.container.isSome) then some { s with files := files }
    else none
  -- other operations have request ids of their own
  | .manage manager =>
    if (s.keys k).all fun key => manager.commands.lookup key == s.manager.commands.lookup key then
      some { s with manager := manager }
    else none

end System

/-- The deletion of an agent. -/
def machine (k : Setting) : Machine System Event := ⟨System.step k⟩

/-! ## §F Submission, and the order of attempts -/

/-- A deletion has just been submitted: it is queued with its worker, the agent is in the catalog, and the
id of the job is new to the journals. -/
structure Submitted (k : Setting) (kind : Kind) (s : System) : Prop where
  job : ∃ job, s.job k = some job ∧ job.id = k.jid ∧ job.kind = kind ∧ job.target = k.aid ∧
    job.scope = k.aid ∧ job.releaseId = none ∧ job.executionId = none ∧ job.status = .queued ∧
    s.workers = [Worker.spawned job]
  reconcilers : s.reconcilers = []
  present : s.present k = true
  retired : s.retired k = false
  fresh : s.fresh k.jid = true

/-- A retry waits for the worker of the attempt before, and nobody writes for an agent that is not in the
catalog any more. -/
def System.Orderly (k : Setting) (s : System) : Event → Prop
  | .retry _ _ => s.workers = []
  | .traffic _ | .write _ => s.present k = true
  | _ => True

/-! ## §G What every run keeps -/

/-- The execution has not asked the manager for the action. -/
def System.unasked (s : System) (execution : String) (name : ActionName) : Prop :=
  s.manager.commands.lookup (execution ++ name.suffix) = none

/-- An execution of the deletion has not removed anything. -/
def System.Untouched (k : Setting) (s : System) (execution : String) : Prop :=
  s.present k = true ∧ s.unasked execution .delete ∧ s.receipts.lookup execution = none

/-- What is so when the worker is at a statement. -/
def System.Stage (k : Setting) (s : System) (job : Job) : Pc → Prop
  | .start | .quiesceMark | .quiesce | .applyMark =>
    job.status.inProgress = true → s.Untouched k job.execution
  | .deleting | .delete => job.status = .applying ∧ s.Untouched k job.execution
  | .sandboxDeletedMark | .cleanupFiles =>
    job.status = .applying ∧ s.present k = true ∧ s.sandboxes = ⟨[], 0⟩ ∧
      s.receipts.lookup job.execution = none
  | .filesDeletedMark | .lifecycle =>
    job.status = .applying ∧ s.present k = true ∧ s.sandboxes = ⟨[], 0⟩ ∧ s.files = .gone
  | .stopped | .stoppedMark | .settle _ | .leave | .resume | .resumeFailed | .ended => True
  | .finish => s.present k = false
  | _ => False

/-- The deletion of this agent. -/
structure Deletes (k : Setting) (job : Job) : Prop where
  id : job.id = k.jid
  kind : job.kind = .agentDelete
  target : job.target = k.aid
  scope : job.scope = k.aid
  releaseId : job.releaseId = none

/-- The worker runs this execution of the job. -/
structure Works (k : Setting) (s : System) (job : Job) (w : Worker) : Prop where
  deletes : Deletes k w.job
  execution : w.job.execution = job.execution
  release : w.release = none
  stage : s.Stage k job w.pc

/-- A reconciliation that has found the agent gone. -/
def foundGone (t : Reconciler) : Bool :=
  match t.pc with
  | .sandboxImpact | .filesImpact | .resume | .finish => true
  | _ => false

/-- The reconciliation is about this deletion. -/
def Looks (k : Setting) (s : System) (t : Reconciler) : Prop :=
  Deletes k t.job ∧ (t.pc = .catalogImpact ∨ foundGone t = true ∧ s.present k = false)

/-- **The invariant of a deletion.** When the agent is gone from the catalog, its id is retired and nothing of
it is left. -/
structure System.Sound (k : Setting) (s : System) (job : Job) : Prop where
  found : s.job k = some job
  deletes : Deletes k job
  queued : job.status = .queued → s.Untouched k job.execution
  retired : s.retired k = !s.present k
  gone : s.present k = false → s.sandboxes.rows = [] ∧ s.files = .gone
  reconcilers : ∀ t ∈ s.reconcilers, Looks k s t

/-- There is at most one worker, and the deletion is sound. -/
def System.Kept (k : Setting) (s : System) : Prop :=
  ∃ job, s.Sound k job ∧ (s.workers = [] ∨ ∃ w, s.workers = [w] ∧ Works k s job w)

/-! ## §H What a call changes -/

section Calls

variable {k : Setting} {s : System} {x : Extent} {job : Job}

theorem suffix_ne_delete {a b : String} {n : ActionName} (h : n = .quiesce ∨ n = .resume) :
    a ++ n.suffix ≠ b ++ ActionName.delete.suffix := by
  intro heq
  have hlast := congrArg (fun s : String => s.toList.reverse.take 2) heq
  rcases h with rfl | rfl <;> simp [ActionName.suffix] at hlast

/-- A call changes nothing of operations, and brings nothing back. -/
structure Frame (s s' : System) : Prop where
  store : s'.store = s.store
  previews : s'.previews = s.previews
  workers : s'.workers = s.workers
  reconcilers : s'.reconcilers = s.reconcilers
  rows : s.sandboxes.rows = [] → s'.sandboxes.rows = []
  files : s.files = .gone → s'.files = .gone

theorem removeRecords_nil (x : Extent) (n : Nat) : removeRecords x n [] = (true, []) := rfl

theorem deleteRows_nil (x : Extent) : (deleteRows x []).2 = [] := by
  unfold deleteRows
  split <;> rfl

theorem remove_gone (x : Extent) : AgentFiles.gone.remove x = .gone := by
  cases x <;> rfl

theorem perform_rows {d : Document} {m : Manager} {b : Sandboxes} {body : ActionBody}
    (h : b.rows = []) : (perform k d m b body x).1.2.rows = [] := by
  unfold perform
  split
  · split
    · exact h
    · split
      · exact h
      · split
        · simp only [h, deleteRows_nil]
        · exact h
  · split
    · exact h
    · split
      · exact h
      · split <;> simp only [h, deleteRows_nil]
  · exact h

theorem action_rows {d : Document} {m : Manager} {b : Sandboxes} {body : ActionBody}
    (h : b.rows = []) : (action k d m b body x).1.2.rows = [] := by
  unfold action
  split
  · exact h
  · split
    · exact h
    · exact h
    · dsimp only
      split
      · exact perform_rows h
      · split <;> exact perform_rows h

theorem cleanupAgent_files {receipts : Dict String Receipt} {f : AgentFiles} {authorized : Bool}
    {requestId : String} {fingerprint : Option String} {emptyOnly : Bool} (h : f = .gone) :
    (cleanupAgent k receipts f authorized requestId fingerprint emptyOnly x).1.2 = .gone := by
  subst h
  unfold cleanupAgent
  split
  · rfl
  · split
    · rfl
    · split
      · rfl
      · split
        · rfl
        · split
          · rfl
          · split
            · rfl
            · split
              · rfl
              · exact remove_gone _

theorem carryOut_frame (c : Call) : Frame s (s.carryOut k x c).1 := by
  unfold System.carryOut
  split
  · exact ⟨rfl, rfl, rfl, rfl, action_rows, fun h => h⟩
  · exact ⟨rfl, rfl, rfl, rfl, fun h => h, cleanupAgent_files⟩
  · exact ⟨rfl, rfl, rfl, rfl, fun h => h, fun h => h⟩
  · exact ⟨rfl, rfl, rfl, rfl, fun h => h, fun h => h⟩
  · dsimp only
    split <;> exact ⟨rfl, rfl, rfl, rfl, fun h => h, fun h => h⟩

end Calls

/-! ### The catalog -/

section Catalog

variable {k : Setting} {s : System} {x : Extent}

theorem lifecycle_deleting {fingerprint : Agent → Dict String Resource → String} {aid : String}
    {requestId expected : Option String} {d d' : Document}
    (h : lifecycle fingerprint aid .deleting requestId expected d = .ok d') :
    ∃ a, d.agents.lookup aid = some a ∧
      d' = { d with agents := d.agents.insert aid { a with lifecycle := .deleting } } := by
  unfold lifecycle at h
  split at h
  · simp [fail] at h
  · next a ha =>
    simp only [bind_eq_ok] at h
    obtain ⟨_, _, h⟩ := h
    exact ⟨a, ha, (Except.ok.inj h).symm⟩

theorem lifecycle_delete {fingerprint : Agent → Dict String Resource → String} {aid : String}
    {requestId expected : Option String} {d d' : Document}
    (h : lifecycle fingerprint aid .delete requestId expected d = .ok d')
    (hpresent : (d.agents.lookup aid).isSome = true) :
    d'.agents.lookup aid = none ∧ (d'.agentTombstones.lookup aid).isSome = true := by
  unfold lifecycle at h
  split at h
  · next hnone => simp [hnone] at hpresent
  · simp only [bind_eq_ok] at h
    obtain ⟨_, _, _, _, h⟩ := h
    obtain rfl := Except.ok.inj h
    exact ⟨AList.lookup_erase _ _, by simp⟩

/-- A lifecycle request is answered, and carried out, or refused. -/
theorem carryOut_lifecycle (aid : String) (a : LifecycleAction) (requestId : String)
    (expected : Option String) :
    (∃ t, s.catalog.handle k.env
        (.lifecycle aid (State.agentAction a) (some requestId) expected none) = .ok t ∧
      s.carryOut k x (.lifecycle aid a requestId expected) =
        (if x = .nothing then s else { s with catalog := t }, .ok .accepted)) ∨
    ∃ e, s.catalog.handle k.env
        (.lifecycle aid (State.agentAction a) (some requestId) expected none) = .error e ∧
      s.carryOut k x (.lifecycle aid a requestId expected) = (s, State.replyOf (.error e)) := by
  unfold System.carryOut
  cases h : s.catalog.handle k.env
      (.lifecycle aid (State.agentAction a) (some requestId) expected none) with
  | ok t =>
    refine Or.inl ⟨t, rfl, ?_⟩
    simp [State.askCatalog, State.catalogCommand, State.catalogAnswer, h, Except.map, State.replyOf]
  | error e =>
    refine Or.inr ⟨e, rfl, ?_⟩
    simp [State.askCatalog, State.catalogCommand, State.catalogAnswer, h, Except.map]

theorem carryOut_catalogImpact (aid : String) :
    s.carryOut k x (.catalogImpact aid) = (s, if (s.catalog.store.data.agents.lookup aid).isSome then
      .ok (.owned true) else .error ⟨404, "Agent not found"⟩) := by
  unfold System.carryOut
  simp only [State.askCatalog, State.catalogCommand, State.catalogAnswer, ite_self]
  split <;> rfl

/-- The agent is still there after `deleting`. -/
theorem carryOut_deleting (requestId : String) (expected : Option String) :
    ∃ c, (s.carryOut k x (.lifecycle k.aid .deleting requestId expected)).1 = { s with catalog := c } ∧
      ({ s with catalog := c } : System).present k = s.present k ∧
      ({ s with catalog := c } : System).retired k = s.retired k := by
  rcases carryOut_lifecycle (k := k) (s := s) (x := x) k.aid .deleting requestId expected with
    ⟨t, ht, h⟩ | ⟨e, _, h⟩
  · rw [h]
    by_cases hx : x = .nothing
    · exact ⟨s.catalog, by rw [if_pos hx], rfl, rfl⟩
    · obtain ⟨a, ha, hdata⟩ := lifecycle_deleting (editing_eq_ok ht)
      refine ⟨t, by rw [if_neg hx], ?_, ?_⟩
      · simp [System.present, System.agent, hdata, ha]
      · simp [System.retired, hdata]
  · exact ⟨s.catalog, by rw [h], rfl, rfl⟩

/-- The agent is gone and retired after `delete`, or nothing has changed. -/
theorem carryOut_delete (requestId : String) (expected : Option String) (hp : s.present k = true) :
    (s.carryOut k x (.lifecycle k.aid .delete requestId expected)).1 = s ∨
    ∃ c, (s.carryOut k x (.lifecycle k.aid .delete requestId expected)).1 = { s with catalog := c } ∧
      ({ s with catalog := c } : System).present k = false ∧
      ({ s with catalog := c } : System).retired k = true := by
  rcases carryOut_lifecycle (k := k) (s := s) (x := x) k.aid .delete requestId expected with
    ⟨t, ht, h⟩ | ⟨e, _, h⟩
  · rw [h]
    by_cases hx : x = .nothing
    · exact Or.inl (if_pos hx)
    · obtain ⟨hgone, hretired⟩ := lifecycle_delete (editing_eq_ok ht) hp
      refine Or.inr ⟨t, if_neg hx, ?_, hretired⟩
      simp [System.present, System.agent, hgone]
  · exact Or.inl (by rw [h])

end Catalog

/-! ### The sandbox manager -/

section Manager

variable {k : Setting} {s : System} {x : Extent} {d : Document} {fault : Option Fault}

/-- The actions of a deletion. -/
def ofDeletion : ActionName → Bool
  | .quiesce | .delete | .resume => true
  | _ => false

theorem perform_commands {m : Manager} {b : Sandboxes} {body : ActionBody}
    (h : ofDeletion body.action = true) :
    (perform k d m b body x).1.1.commands = m.commands := by
  unfold perform
  cases hname : body.action <;> simp only [hname, ofDeletion, Bool.false_eq_true] at h
  case resume => simpa [Manager.perform, hname] using Manager.resume_commands m k.aid
  all_goals
    dsimp only
    split
    · rfl
    · split
      · rfl
      · split <;> rfl

/-- An action enters itself in the journal and leaves the other entries alone. -/
theorem action_commands {m : Manager} {b : Sandboxes} {body : ActionBody} {key : String}
    (h : ofDeletion body.action = true) (hkey : key ≠ body.requestId) :
    (action k d m b body x).1.1.commands.lookup key = m.commands.lookup key := by
  unfold action
  split
  · rfl
  · split
    · rfl
    · exact AList.lookup_insert_ne hkey
    · have hsame := perform_commands (k := k) (d := d) (x := x) (b := b)
        (m := { m with commands := m.commands.insert body.requestId ⟨k.aid, body, false⟩ }) h
      dsimp only
      split
      · rw [hsame]
        exact AList.lookup_insert_ne hkey
      · split
        · rw [AList.lookup_insert_ne hkey, hsame]
          exact AList.lookup_insert_ne hkey
        · rw [hsame]
          exact AList.lookup_insert_ne hkey

/-- A deletion that is acknowledged, and was not asked for before, has removed everything. -/
theorem action_delete {m : Manager} {b : Sandboxes} {body : ActionBody} {r : Response}
    (hname : body.action = .delete) (hnew : m.commands.lookup body.requestId = none)
    (h : (action k d m b body x).2 = .ok r) :
    (action k d m b body x).1.2 = ⟨[], 0⟩ := by
  unfold action at h ⊢
  simp only [hnew] at h ⊢
  cases x with
  | nothing => exact absurd h (by simp)
  | entered => exact absurd h (by simp)
  | removals n =>
    dsimp only at h
    split at h <;> exact absurd h (by simp)
  | all =>
    simp only [perform, hname, if_true] at h ⊢
    split at h
    · exact absurd h (by simp)
    · next hok =>
      dsimp only
      split at hok
      · exact absurd hok (by simp [fail])
      · next hfp =>
        split at hok
        · exact absurd hok (by simp [fail])
        · next hdrained =>
          rw [if_neg hfp, if_neg hdrained]
          have hzero : b.inFlight = 0 := by
            simp only [Sandboxes.drained, Bool.not_eq_true', Bool.not_eq_false,
              Bool.and_eq_true, beq_iff_eq] at hdrained
            exact hdrained.1
          unfold deleteRows at hok ⊢
          split at hok
          · next hall => rw [if_pos hall, hzero]
          · exact absurd hok (by simp [fail])

end Manager

/-! ### The file service -/

section Files

variable {k : Setting} {s : System} {x : Extent}

/-- A cleanup that is acknowledged, and was not asked for before, has removed everything. -/
theorem cleanupAgent_ok {receipts : Dict String Receipt} {f : AgentFiles} {authorized : Bool}
    {requestId : String} {fingerprint : Option String} {emptyOnly : Bool} {r : Response}
    (hnew : receipts.lookup requestId = none)
    (h : (cleanupAgent k receipts f authorized requestId fingerprint emptyOnly .all).2 = .ok r) :
    (cleanupAgent k receipts f authorized requestId fingerprint emptyOnly .all).1.2 = .gone := by
  unfold cleanupAgent at h ⊢
  simp only [hnew] at h ⊢
  split at h
  · exact absurd h (by simp)
  · next h1 =>
    rw [if_neg h1]
    split at h
    · exact absurd h (by simp)
    · next h2 =>
      rw [if_neg h2]
      cases hi : agentImpact k f with
      | error e => simp [hi] at h
      | ok impact =>
        simp only [hi] at h ⊢
        split at h
        · exact absurd h (by simp)
        · next h3 =>
          rw [if_neg h3]
          split at h
          · exact absurd h (by simp)
          · next h4 =>
            rw [if_neg h4]
            rfl

end Files

/-! ## §I What a step keeps -/

section Keeps

variable {k : Setting} {s : System} {x : Extent} {job : Job}

/-- What may change without a word in the invariant. -/
theorem System.Sound.congr {s' : System} (h : s.Sound k job) (hf : Frame s s')
    (hpresent : s'.present k = s.present k) (hretired : s'.retired k = s.retired k)
    (hqueued : job.status = .queued → s'.Untouched k job.execution) : s'.Sound k job where
  found := by rw [System.job, hf.store]; exact h.found
  deletes := h.deletes
  queued := hqueued
  retired := by rw [hretired, hpresent]; exact h.retired
  gone hgone := by
    rw [hpresent] at hgone
    exact ⟨hf.rows (h.gone hgone).1, hf.files (h.gone hgone).2⟩
  reconcilers t ht := by
    rw [hf.reconcilers] at ht
    rw [Looks, hpresent]
    exact h.reconcilers t ht

theorem sound_action (h : s.Sound k job) {aid : String} {body : ActionBody}
    (hname : ofDeletion body.action = true)
    (hkey : job.status = .queued → job.execution ++ ActionName.delete.suffix ≠ body.requestId) :
    (s.carryOut k x (.action aid body)).1.Sound k job := by
  refine h.congr (carryOut_frame _) rfl rfl fun hq => ?_
  obtain ⟨hp, hu, hr⟩ := h.queued hq
  exact ⟨hp, (action_commands hname (hkey hq)).trans hu, hr⟩

theorem sound_cleanupFiles (h : s.Sound k job) (hst : job.status ≠ .queued) (aid requestId : String)
    (fingerprint : Option String) (emptyOnly : Bool) :
    (s.carryOut k x (.cleanupFiles aid requestId fingerprint emptyOnly)).1.Sound k job :=
  h.congr (carryOut_frame _) rfl rfl fun hq => absurd hq hst

theorem sound_deleting (h : s.Sound k job) (hst : job.status ≠ .queued) (requestId : String)
    (expected : Option String) :
    (s.carryOut k x (.lifecycle k.aid .deleting requestId expected)).1.Sound k job := by
  obtain ⟨c, hc, hp, hr⟩ := carryOut_deleting (k := k) (s := s) (x := x) requestId expected
  have hf := carryOut_frame (k := k) (s := s) (x := x) (.lifecycle k.aid .deleting requestId expected)
  rw [hc] at hf ⊢
  exact h.congr hf hp hr fun hq => absurd hq hst

theorem sound_delete (h : s.Sound k job) (hst : job.status ≠ .queued) (hp : s.present k = true)
    (hrows : s.sandboxes.rows = []) (hfiles : s.files = .gone) (requestId : String)
    (expected : Option String) :
    (s.carryOut k x (.lifecycle k.aid .delete requestId expected)).1.Sound k job := by
  rcases carryOut_delete (k := k) (s := s) (x := x) requestId expected hp with hc | ⟨c, hc, hp', hr⟩
  · rw [hc]
    exact h
  · rw [hc]
    exact
      { found := h.found
        deletes := h.deletes
        queued := fun hq => absurd hq hst
        retired := by rw [hr, hp']; rfl
        gone := fun _ => ⟨hrows, hfiles⟩
        reconcilers := fun t ht => ⟨(h.reconcilers t ht).1, (h.reconcilers t ht).2.imp_right
          fun hg => ⟨hg.1, hp'⟩⟩ }

end Keeps

/-! ### The worker -/

section Work

variable {k : Setting} {s s' : System} {x : Extent} {job : Job} {w : Worker}

theorem Works.goto (h : Works k s job w) {pc : Pc} (hstage : s'.Stage k job pc) :
    Works k s' job (w.goto pc) := ⟨h.deletes, h.execution, h.release, hstage⟩

/-- Nothing is compensated, so an exception leads to a statement that relies on nothing. -/
theorem Works.raise (h : Works k s job w) (exc : Exc) : Works k s' job (w.raise exc) := by
  have hcompensates : w.compensates = false := by simp [Worker.compensates, h.release]
  unfold Worker.raise
  split
  · split
    · exact h.goto trivial
    · rw [hcompensates]
      exact h.goto trivial
  · split <;> exact h.goto trivial

theorem Works.callFailed (h : Works k s job w) (reply : Reply) : Works k s' job (w.callFailed reply) := by
  unfold Worker.callFailed
  split <;> exact h.raise _

/-- The worker takes an answer that is not a success. -/
theorem Works.receive_failed (h : Works k s job w) {reply : Reply} (hr : ∀ r, reply ≠ .ok r) : Works k s' job (w.receive reply) := by
  have hstage := h.stage
  suffices heq : w.receive reply = w.callFailed reply by
    rw [heq]
    exact h.callFailed reply
  unfold Worker.receive
  cases hpc : w.pc <;> simp only [hpc, System.Stage] at hstage <;>
    cases reply <;> first | rfl | exact absurd rfl (hr _)

/-- A deletion records no desired state. -/
theorem afterBody_finish {w : Worker} (h : w.job.kind = .agentDelete) (result : JobResult) :
    w.afterBody result = { w with result := some result, pc := .finish } := by
  simp [Worker.afterBody, Worker.desiredState, h, Worker.goto]

/-- **What the worker asks for keeps the invariant.** -/
theorem sound_call (hs : s.Sound k job) (h : Works k s job w) {c : Call} (hc : w.call = some c) :
    (s.carryOut k x c).1.Sound k job := by
  have hstage := h.stage
  have hne : job.status = .applying → job.status ≠ .queued := fun ha => by rw [ha]; decide
  cases hpc : w.pc <;> simp only [hpc, System.Stage] at hstage <;>
    simp only [Worker.call, hpc, Option.some.injEq, reduceCtorEq] at hc <;> subst hc
  case quiesce =>
    exact sound_action hs rfl fun _ heq => suffix_ne_delete (Or.inl rfl) heq.symm
  case deleting =>
    rw [h.deletes.target]
    exact sound_deleting hs (hne hstage.1) _ _
  case delete => exact sound_action hs rfl fun hq => absurd hq (hne hstage.1)
  case cleanupFiles => exact sound_cleanupFiles hs (hne hstage.1) _ _ _ _
  case lifecycle =>
    rw [h.deletes.target, h.deletes.kind]
    exact sound_delete hs (hne hstage.1) hstage.2.1 (by rw [hstage.2.2.1]) hstage.2.2.2 _ _
  case resume => exact sound_action hs rfl fun _ heq => suffix_ne_delete (Or.inr rfl) heq.symm

/-- The answer to a call that was carried out takes the worker to where the next statement can rely on it. -/
theorem Works.receive_fine (h : Works k s job w) {c : Call} (hc : w.call = some c) :
    Works k (s.carryOut k .all c).1 job (w.receive (s.carryOut k .all c).2) := by
  cases hreply : (s.carryOut k .all c).2 with
  | error e => exact h.receive_failed (by simp)
  | raised => exact h.receive_failed (by simp)
  | ok r =>
    have hstage := h.stage
    cases hpc : w.pc <;> simp only [hpc, System.Stage] at hstage <;>
      simp only [Worker.call, hpc, Option.some.injEq, reduceCtorEq] at hc <;> subst hc <;>
      simp only [Worker.receive, hpc]
    case quiesce =>
      refine h.goto fun hprogress => ?_
      obtain ⟨hp, hu, hr⟩ := hstage hprogress
      exact ⟨hp, (action_commands rfl fun heq => suffix_ne_delete (Or.inl rfl) heq.symm).trans hu, hr⟩
    case deleting =>
      obtain ⟨ha, hp, hu, hr⟩ := hstage
      obtain ⟨t, ht, hp', _⟩ := carryOut_deleting (k := k) (s := s) (x := .all) w.job.execution w.impacts.catalog
      rw [h.deletes.target, ht]
      exact h.goto ⟨ha, hp'.trans hp, hu, hr⟩
    case delete =>
      obtain ⟨ha, hp, hu, hr⟩ := hstage
      rw [← h.execution] at hu
      exact h.goto ⟨ha, hp, action_delete rfl hu hreply, hr⟩
    case cleanupFiles =>
      obtain ⟨ha, hp, hrows, hr⟩ := hstage
      rw [← h.execution] at hr
      exact h.goto ⟨ha, hp, hrows, cleanupAgent_ok hr hreply⟩
    case lifecycle =>
      obtain ⟨ha, hp, _, _⟩ := hstage
      rw [afterBody_finish (by exact h.deletes.kind)]
      refine ⟨h.deletes, h.execution, h.release, ?_⟩
      rw [h.deletes.target, h.deletes.kind] at hreply ⊢
      rcases carryOut_lifecycle (k := k) (s := s) (x := .all) k.aid .delete w.job.execution w.impacts.catalog with
        ⟨t, ht, heq⟩ | ⟨e, _, heq⟩
      · have hgone := (lifecycle_delete (editing_eq_ok ht) hp).1
        simp only [Worker.lifecycleAction] at hreply ⊢
        rw [heq]
        simp [System.Stage, System.present, System.agent, hgone]
      · simp only [Worker.lifecycleAction, heq, State.replyOf] at hreply
        split at hreply <;> exact absurd hreply (by simp)
    case resume => exact h.goto trivial

end Work

section Write

variable {k : Setting} {s : System} {job : Job} {w : Worker}

/-- A write to the job keeps the invariant, unless it queues the job again. -/
theorem sound_update (hs : s.Sound k job) (hid : w.job.id = k.jid) {f : Job → Job}
    (hdeletes : Deletes k (f job)) (hexecution : (f job).execution = job.execution)
    (hqueued : (f job).status = .queued → job.status = .queued) :
    ({ s with store := s.store.update w.job.id f } : System).Sound k (f job) where
  found := by
    have hfound : s.store.jobs.lookup k.jid = some job := hs.found
    simp only [System.job, Store.update, hid, Dict.lookup_modify_self, hfound, Option.map_some]
  deletes := hdeletes
  queued hq := by
    rw [hexecution]
    exact hs.queued (hqueued hq)
  retired := hs.retired
  gone := hs.gone
  reconcilers := hs.reconcilers

/-- A checkpoint is passed by a job in progress, or it raises. -/
theorem checkpoint_cases (hs : s.Sound k job) (hid : w.job.id = k.jid) (f : Job → Job) (next : Worker) :
    (job.status.inProgress = true ∧
      w.checkpoint s.store f next = (s.store.update w.job.id f, next)) ∨
    ∃ exc, w.checkpoint s.store f next = (s.store, w.raise exc) := by
  have hfound : s.store.jobs.lookup w.job.id = some job := by
    rw [hid]
    exact hs.found
  unfold Worker.checkpoint Store.transition
  simp only [hfound]
  by_cases hprogress : job.status.inProgress = true
  · exact Or.inl ⟨hprogress, by simp [hprogress]⟩
  · simp only [hprogress, Bool.false_eq_true, if_false, fail]
    split <;> exact Or.inr ⟨_, rfl⟩

/-- **What the worker writes keeps the invariant.** -/
theorem write_kept (hs : s.Sound k job) (h : Works k s job w) (hc : w.call = none) :
    ∃ job', ({ s with store := (w.work s.store false).1 } : System).Sound k job' ∧
      Works k { s with store := (w.work s.store false).1 } job' (w.work s.store false).2 := by
  have hstage := h.stage
  have hid := h.deletes.id
  have hd := hs.deletes
  have passes : ∀ (f : Job → Job) (next : Worker),
      (job.status.inProgress = true → Deletes k (f job) ∧ (f job).execution = job.execution ∧
        (f job).status ≠ .queued ∧
        Works k { s with store := s.store.update w.job.id f } (f job) next) →
      ∃ job', ({ s with store := (w.checkpoint s.store f next).1 } : System).Sound k job' ∧
        Works k { s with store := (w.checkpoint s.store f next).1 } job'
          (w.checkpoint s.store f next).2 := by
    intro f next hnext
    rcases checkpoint_cases hs hid f next with ⟨hprogress, heq⟩ | ⟨exc, heq⟩
    · obtain ⟨hdeletes, hexecution, hst, hworks⟩ := hnext hprogress
      rw [heq]
      exact ⟨f job, sound_update hs hid hdeletes hexecution fun hq => absurd hq hst, hworks⟩
    · rw [heq]
      exact ⟨job, hs, h.raise exc⟩
  cases hpc : w.pc <;> simp only [hpc, System.Stage] at hstage <;>
    simp only [Worker.call, hpc, reduceCtorEq] at hc <;>
    simp only [Worker.work, hpc, Bool.false_eq_true, if_false]
  case start =>
    refine passes _ _ fun hprogress => ⟨⟨hd.id, hd.kind, hd.target, hd.scope, hd.releaseId⟩, rfl, by simp, ?_⟩
    have hafter : w.afterStart = w.goto .quiesceMark := by
      simp [Worker.afterStart, h.deletes.kind, Kind.isSandbox]
    obtain ⟨hp, hu, hr⟩ := hstage hprogress
    rw [hafter]
    exact ⟨h.deletes, h.execution, h.release, fun _ => ⟨hp, hu, hr⟩⟩
  case quiesceMark =>
    refine passes _ _ fun hprogress => ⟨⟨hd.id, hd.kind, hd.target, hd.scope, hd.releaseId⟩, rfl, by simp, ?_⟩
    obtain ⟨hp, hu, hr⟩ := hstage hprogress
    exact ⟨h.deletes, h.execution, h.release, fun _ => ⟨hp, hu, hr⟩⟩
  case applyMark =>
    refine passes _ _ fun hprogress => ⟨⟨hd.id, hd.kind, hd.target, hd.scope, hd.releaseId⟩, rfl, by simp, ?_⟩
    have hafter : w.afterApplyMark = { w with applyStarted := true, pc := .deleting } := by
      simp [Worker.afterApplyMark, h.deletes.kind, Worker.goto]
    obtain ⟨hp, hu, hr⟩ := hstage hprogress
    rw [hafter]
    exact ⟨h.deletes, h.execution, h.release, rfl, hp, hu, hr⟩
  case sandboxDeletedMark =>
    refine ⟨_, sound_update hs hid ⟨hd.id, hd.kind, hd.target, hd.scope, hd.releaseId⟩ rfl fun hq => hq, ?_⟩
    exact ⟨h.deletes, h.execution, h.release, hstage⟩
  case filesDeletedMark =>
    refine ⟨_, sound_update hs hid ⟨hd.id, hd.kind, hd.target, hd.scope, hd.releaseId⟩ rfl fun hq => hq, ?_⟩
    exact ⟨h.deletes, h.execution, h.release, hstage⟩
  case finish | resumeFailed =>
    refine ⟨_, sound_update hs hid ⟨hd.id, hd.kind, hd.target, hd.scope, hd.releaseId⟩ rfl (by simp), ?_⟩
    exact ⟨h.deletes, h.execution, h.release, trivial⟩
  case stoppedMark =>
    refine ⟨_, sound_update hs hid ⟨hd.id, hd.kind, hd.target, hd.scope, hd.releaseId⟩ rfl ?_, ?_⟩
    · intro hq
      simp only [Worker.stoppedStatus] at hq
      split at hq <;> exact absurd hq (by simp)
    · exact ⟨h.deletes, h.execution, h.release, trivial⟩
  case settle =>
    refine ⟨_, sound_update hs hid ⟨hd.id, hd.kind, hd.target, hd.scope, hd.releaseId⟩ rfl ?_, ?_⟩
    · intro hq
      simp only [Worker.settledStatus] at hq
      split at hq <;> exact absurd hq (by simp)
    · exact ⟨h.deletes, h.execution, h.release, trivial⟩
  case stopped | leave =>
    split <;> exact ⟨job, hs, h.deletes, h.execution, h.release, trivial⟩
  case ended =>
    exact ⟨job, hs, h.deletes, h.execution, h.release, by rw [hpc]; trivial⟩

end Write

section Work

variable {k : Setting} {s s' : System} {job : Job} {w : Worker}

/-- The worker moves on. -/
theorem kept_putWorker (hs : s.Sound k job) {w₀ : Worker} (honly : s.workers = [w₀])
    (h : Works k s job w) : (s.putWorker 0 w).Kept k := by
  refine ⟨job, ⟨hs.found, hs.deletes, hs.queued, hs.retired, hs.gone, hs.reconcilers⟩, ?_⟩
  by_cases hend : w.pc = .ended
  · exact Or.inl (by simp [System.putWorker, hend, honly])
  · exact Or.inr ⟨w, by simp [System.putWorker, hend, honly], h.deletes, h.execution, h.release, h.stage⟩

theorem kept_work {i : Nat} {x : Outcome} (hk : s.Kept k) (hstep : s.work k i x = some s') :
    s'.Kept k := by
  obtain ⟨job, hs, hworkers⟩ := hk
  simp only [System.work, Option.bind_eq_bind, Option.bind_eq_some_iff] at hstep
  obtain ⟨w, hw, hstep⟩ := hstep
  obtain ⟨honly, h, rfl⟩ : s.workers = [w] ∧ Works k s job w ∧ i = 0 := by
    rcases hworkers with hnone | ⟨w', honly, hworks⟩
    · simp [hnone] at hw
    · rw [honly, List.getElem?_singleton] at hw
      split at hw
      · next hi =>
        obtain rfl := Option.some.inj hw
        exact ⟨honly, hworks, hi⟩
      · exact absurd hw (by simp)
  have hframe : ∀ (c : Call) (e : Extent), (s.carryOut k e c).1.workers = [w] := fun c e =>
    (carryOut_frame c).workers.trans honly
  split at hstep
  · next hc =>
    obtain rfl := Option.some.inj hstep
    obtain ⟨job', hs', hworks⟩ := write_kept hs h hc
    exact kept_putWorker hs' honly hworks
  · obtain rfl := Option.some.inj hstep
    have heq : (w.work s.store true).2 = w.raise .other := by simp [Worker.work]
    rw [heq]
    exact kept_putWorker hs honly (h.raise _)
  · next hc =>
    obtain rfl := Option.some.inj hstep
    exact kept_putWorker (sound_call hs h hc) (hframe _ _) (h.receive_fine hc)
  · next hc =>
    obtain rfl := Option.some.inj hstep
    refine kept_putWorker (sound_call hs h hc) (hframe _ _) ?_
    refine h.receive_failed fun r => ?_
    unfold State.failure unavailable
    split <;> simp
  · next hc =>
    obtain rfl := Option.some.inj hstep
    exact kept_putWorker (sound_call hs h hc) (hframe _ _) (h.raise _)
  · exact absurd hstep (by simp)

end Work

/-! ### The reconciliations -/

section Reconcile

variable {k : Setting} {s s' : System} {x : Extent} {job : Job} {t : Reconciler}

theorem foundGone_iff : foundGone t = true ↔
    t.pc = .sandboxImpact ∨ t.pc = .filesImpact ∨ t.pc = .resume ∨ t.pc = .finish := by
  unfold foundGone
  cases t.pc <;> simp

theorem mem_putReconciler {i : Nat} {u : Reconciler} (h : u ∈ (s.putReconciler i t).reconcilers) :
    u ∈ s.reconcilers ∨ u = t ∧ t.pc ≠ .ended := by
  simp only [System.putReconciler] at h
  split at h
  · exact Or.inl (List.mem_of_mem_eraseIdx h)
  · next hend => exact (List.mem_or_eq_of_mem_set h).imp_right fun hu => ⟨hu, hend⟩

/-- A resume leaves everything but the manager alone. -/
theorem carryOut_resume (aid : String) (body : ActionBody) (h : body.action = .resume) :
    ∃ m, (s.carryOut k x (.action aid body)).1 = { s with manager := m } ∧
      ∀ key, key ≠ body.requestId → m.commands.lookup key = s.manager.commands.lookup key := by
  refine ⟨(action k s.catalog.store.data s.manager s.sandboxes body x).1.1, ?_,
    fun key hkey => action_commands (by rw [h]; rfl) hkey⟩
  have hsandboxes : (action k s.catalog.store.data s.manager s.sandboxes body x).1.2 = s.sandboxes := by
    unfold action
    split
    · rfl
    · split
      · rfl
      · rfl
      · simp only [perform, h]
        split
        · rfl
        · split <;> rfl
  simp only [System.carryOut, hsandboxes]

/-- What a reconciliation asks for changes nothing that matters to the deletion. -/
theorem reconcile_call (ht : Looks k s t) {c : Call} (hc : t.call = some c) :
    ∃ m, (s.carryOut k x c).1 = { s with manager := m } ∧
      ∀ execution, s.unasked execution .delete →
        ({ s with manager := m } : System).unasked execution .delete := by
  have same : ∀ c : Call, (s.carryOut k x c).1 = s → ∃ m, (s.carryOut k x c).1 = { s with manager := m } ∧
      ∀ execution, s.unasked execution .delete →
        ({ s with manager := m } : System).unasked execution .delete :=
    fun c hsame => ⟨s.manager, hsame, fun _ hu => hu⟩
  rcases ht.2 with hpc | ⟨hfound, _⟩
  · simp only [Reconciler.call, hpc, Option.some.injEq] at hc
    subst hc
    exact same _ (by rw [carryOut_catalogImpact])
  · rcases foundGone_iff.mp hfound with hpc | hpc | hpc | hpc <;>
      simp only [Reconciler.call, hpc, Option.some.injEq, reduceCtorEq] at hc <;> subst hc
    · exact same _ rfl
    · exact same _ rfl
    · obtain ⟨m, hm, hkept⟩ := carryOut_resume (k := k) (s := s) (x := x) t.job.target
        (.plain .resume (t.requestId ++ ":resume")) rfl
      refine ⟨m, hm, fun execution hu => (hkept _ fun heq => ?_).trans hu⟩
      exact suffix_ne_delete (a := t.requestId) (n := .resume) (Or.inr rfl) heq.symm

/-- The state after such a call. -/
theorem sound_manager (hs : s.Sound k job) {m : Manager}
    (hkept : s.unasked job.execution .delete →
      ({ s with manager := m } : System).unasked job.execution .delete) :
    ({ s with manager := m } : System).Sound k job where
  found := hs.found
  deletes := hs.deletes
  queued hq := ⟨(hs.queued hq).1, hkept (hs.queued hq).2.1, (hs.queued hq).2.2⟩
  retired := hs.retired
  gone := hs.gone
  reconcilers := hs.reconcilers

theorem Works.manager {w : Worker} (h : Works k s job w) {m : Manager}
    (hkept : s.unasked job.execution .delete →
      ({ s with manager := m } : System).unasked job.execution .delete) :
    Works k { s with manager := m } job w := by
  refine ⟨h.deletes, h.execution, h.release, ?_⟩
  have hstage := h.stage
  cases hpc : w.pc <;> simp only [hpc, System.Stage] at hstage ⊢
  case start | quiesceMark | quiesce | applyMark =>
    exact fun hprogress => ⟨(hstage hprogress).1, hkept (hstage hprogress).2.1, (hstage hprogress).2.2⟩
  case deleting | delete =>
    exact ⟨hstage.1, hstage.2.1, hkept hstage.2.2.1, hstage.2.2.2⟩
  all_goals exact hstage

/-- A reconciliation goes on only when the agent is gone. -/
theorem Looks.receive (ht : Looks k s t) (reply : Reply)
    (hreply : t.pc = .catalogImpact → ∀ e, reply = .error e → e.status = 404 → s.present k = false) :
    (t.receive reply).pc = .ended ∨ Looks k s (t.receive reply) := by
  obtain ⟨hdeletes, hpc⟩ := ht
  have goesOn : ∀ u : Reconciler, u.job = t.job → foundGone u = true → s.present k = false →
      Looks k s u := fun u hu hfound habsent => ⟨hu ▸ hdeletes, Or.inr ⟨hfound, habsent⟩⟩
  rcases hpc with hpc | ⟨hfound, habsent⟩
  · cases reply with
    | error e =>
      by_cases h404 : e.status = 404
      · refine Or.inr (goesOn _ (Reconciler.receive_job _ _) ?_ (hreply hpc e rfl h404))
        simp [Reconciler.receive, hpc, h404, foundGone, Reconciler.goto]
      · exact Or.inl (by simp [Reconciler.receive, hpc, h404, Reconciler.goto])
    | ok r => exact Or.inl (by simp [Reconciler.receive, hpc, Reconciler.goto])
    | raised => exact Or.inl (by simp [Reconciler.receive, hpc, Reconciler.goto])
  · by_cases hend : (t.receive reply).pc = .ended
    · exact Or.inl hend
    · refine Or.inr (goesOn _ (Reconciler.receive_job _ _) ?_ habsent)
      rcases foundGone_iff.mp hfound with hpc | hpc | hpc | hpc <;>
        simp only [Reconciler.receive, hpc] at hend ⊢
      · split at hend <;> simp_all [foundGone, Reconciler.goto]
      · split at hend <;> simp_all [foundGone, Reconciler.goto]
      · split at hend <;> simp_all [foundGone, Reconciler.goto]
      · exact absurd rfl hend

end Reconcile

section Reconcile

variable {k : Setting} {s s' : System} {job : Job}

/-- The list of reconciliations after one has moved. -/
theorem kept_putReconciler {i : Nat} {t : Reconciler} (hs : s.Sound k job)
    (hworkers : s.workers = [] ∨ ∃ w, s.workers = [w] ∧ Works k s job w)
    (ht : t.pc = .ended ∨ Looks k s t) : (s.putReconciler i t).Kept k := by
  refine ⟨job, ⟨hs.found, hs.deletes, hs.queued, hs.retired, hs.gone, fun u hu => ?_⟩, ?_⟩
  · rcases mem_putReconciler hu with hold | ⟨rfl, hend⟩
    · exact hs.reconcilers u hold
    · exact ht.resolve_left hend
  · exact hworkers.imp_right fun ⟨w, honly, h⟩ =>
      ⟨w, honly, h.deletes, h.execution, h.release, h.stage⟩

/-- The write at the end of a reconciliation: the agent is gone, so no worker has anything left to do. -/
theorem finish_kept {t : Reconciler} (hs : s.Sound k job)
    (hworkers : s.workers = [] ∨ ∃ w, s.workers = [w] ∧ Works k s job w) (ht : Looks k s t)
    (hpc : t.pc = .finish) :
    ∃ job', ({ s with store := (t.work s.store false).1 } : System).Sound k job' ∧
      (s.workers = [] ∨ ∃ w, s.workers = [w] ∧
        Works k { s with store := (t.work s.store false).1 } job' w) := by
  have habsent : s.present k = false := by
    rcases ht.2 with hother | ⟨_, habsent⟩
    · rw [hpc] at hother
      exact absurd hother (by simp)
    · exact habsent
  have hd := hs.deletes
  have hfound : s.store.jobs.lookup k.jid = some job := hs.found
  refine ⟨{ job with status := .succeeded, checkpoint := .complete, result := t.result, reconciled := true },
    ⟨?_, ⟨hd.id, hd.kind, hd.target, hd.scope, hd.releaseId⟩, by simp, hs.retired, hs.gone,
      hs.reconcilers⟩, ?_⟩
  · simp [System.job, Reconciler.work, hpc, Store.update, ht.1.id, hfound]
  · refine hworkers.imp_right ?_
    rintro ⟨w, honly, h⟩
    refine ⟨w, honly, h.deletes, h.execution, h.release, ?_⟩
    have hstage := h.stage
    cases hwpc : w.pc <;> simp only [hwpc, System.Stage, System.Untouched] at hstage ⊢
    case start | quiesceMark | quiesce | applyMark => exact fun hprogress => by simp [Status.inProgress] at hprogress
    case deleting | delete | sandboxDeletedMark | cleanupFiles | filesDeletedMark | lifecycle =>
      exact absurd (hstage.2.1.symm.trans habsent) (by simp)
    case finish => exact hstage

theorem kept_reconcileWork {i : Nat} {x : Outcome} (hk : s.Kept k)
    (hstep : s.reconcileWork k i x = some s') : s'.Kept k := by
  obtain ⟨job, hs, hworkers⟩ := hk
  simp only [System.reconcileWork, Option.bind_eq_bind, Option.bind_eq_some_iff] at hstep
  obtain ⟨t, ht, hstep⟩ := hstep
  have hlooks := hs.reconcilers t (List.mem_of_getElem? ht)
  have hcalled : ∀ (c : Call) (e : Extent) (u : Reconciler), t.call = some c →
      (u.pc = .ended ∨ Looks k s u) → ((s.carryOut k e c).1.putReconciler i u).Kept k := by
    intro c e u hc hu
    obtain ⟨m, hm, hkept⟩ := reconcile_call (x := e) hlooks hc
    rw [hm]
    exact kept_putReconciler (sound_manager hs (hkept _))
      (hworkers.imp_right fun ⟨w, honly, h⟩ => ⟨w, honly, h.manager (hkept _)⟩) hu
  split at hstep
  · next hc =>
    obtain rfl := Option.some.inj hstep
    rcases hlooks.2 with hpc | ⟨hfound, _⟩
    · simp [Reconciler.call, hpc] at hc
    · rcases foundGone_iff.mp hfound with hpc | hpc | hpc | hpc <;>
        simp only [Reconciler.call, hpc, reduceCtorEq] at hc
      obtain ⟨job', hs', hworkers'⟩ := finish_kept hs hworkers hlooks hpc
      exact kept_putReconciler hs' hworkers' (Or.inl (by simp [Reconciler.work, hpc, Reconciler.goto]))
  · obtain rfl := Option.some.inj hstep
    exact kept_putReconciler hs hworkers (Or.inl (by simp [Reconciler.work, Reconciler.goto]))
  · next c hc =>
    obtain rfl := Option.some.inj hstep
    refine hcalled c .all _ hc (hlooks.receive _ fun hpc e hreply _ => ?_)
    simp only [Reconciler.call, hpc, Option.some.injEq] at hc
    subst hc
    rw [carryOut_catalogImpact, hlooks.1.target] at hreply
    dsimp only at hreply
    split at hreply
    · exact absurd hreply (by simp)
    · next hnone => simpa [System.present, System.agent] using hnone
  · next c extent raised hc =>
    obtain rfl := Option.some.inj hstep
    refine hcalled c extent _ hc (hlooks.receive _ fun _ e hreply h404 => ?_)
    unfold State.failure unavailable at hreply
    split at hreply
    · exact absurd hreply (by simp)
    · obtain rfl := Reply.error.inj hreply
      exact absurd h404 (by simp)
  · next c extent hc =>
    obtain rfl := Option.some.inj hstep
    exact hcalled c extent _ hc (Or.inl rfl)
  · exact absurd hstep (by simp)

end Reconcile

/-! ### The other steps -/

section Steps

variable {k : Setting} {s s' : System} {job : Job}

theorem present_of_impact {i : Impact} (h : s.deletionImpact k = .ok i) : s.present k = true := by
  unfold System.deletionImpact at h
  unfold System.present
  split at h
  · exact absurd h (by simp [fail])
  · next a ha =>
    rw [ha]
    rfl

/-- A new execution id is not in the journals. -/
theorem fresh_unasked {executionId : String} (h : s.fresh executionId = true) (name : ActionName) :
    s.unasked executionId name ∧ s.receipts.lookup executionId = none ∧ executionId.length = 32 := by
  simp only [System.fresh, Bool.and_eq_true, beq_iff_eq, Option.isNone_iff_eq_none,
    Dict.all_eq_true, Bool.not_eq_true'] at h
  refine ⟨?_, h.1.2, h.1.1⟩
  unfold System.unasked
  cases hlook : s.manager.commands.lookup (executionId ++ name.suffix) with
  | none => rfl
  | some row =>
    have hprefixed := h.2 _ row hlook
    have hyes : executionId.toList.isPrefixOf (executionId ++ name.suffix).toList = true := by
      rw [String.toList_append, List.isPrefixOf_iff_prefix]
      exact List.prefix_append _ _
    rw [hyes] at hprefixed
    exact absurd hprefixed (by simp)

theorem kept_retry {r : RetryRequest} {executionId : String} (hk : s.Kept k) (hidle : s.workers = [])
    (hfresh : s.fresh executionId = true) : (s.retry k r executionId).Kept k := by
  obtain ⟨job, hs, hworkers⟩ := hk
  unfold System.retry
  split
  · next preview impact _ himpact =>
    split
    · exact ⟨job, hs, hworkers⟩
    · split
      · next store retried hretry =>
        rcases Store.retryDeletion_eq_ok hretry with ⟨hf, _⟩ | ⟨_, old, hold, _, _, _, hjob, hstore⟩
        · exact absurd hf (by simp)
        · have hfound : s.store.jobs.lookup k.jid = some job := hs.found
          obtain rfl : job = old := Option.some.inj (hfound.symm.trans hold)
          have hd := hs.deletes
          have hdeletes : Deletes k retried := by
            rw [hjob]
            exact ⟨hd.id, hd.kind, hd.target, hd.scope, hd.releaseId⟩
          have hexecution : retried.execution = executionId := by rw [hjob]; rfl
          obtain ⟨hunasked, hreceipts, _⟩ := fresh_unasked hfresh .delete
          have huntouched : s.Untouched k retried.execution := by
            rw [hexecution]
            exact ⟨present_of_impact himpact, hunasked, hreceipts⟩
          refine ⟨retried, ⟨?_, hdeletes, fun _ => huntouched, hs.retired, hs.gone, hs.reconcilers⟩, Or.inr
            ⟨Worker.spawned retried, by simp [hidle], hdeletes, rfl, rfl, fun _ => huntouched⟩⟩
          simp [System.job, hstore, Store.update, hfound, hjob]
      · exact ⟨job, hs, hworkers⟩
  · exact ⟨job, hs, hworkers⟩

theorem kept_reconcile {requestId : String} (hk : s.Kept k) : (s.reconcile k requestId).Kept k := by
  obtain ⟨job, hs, hworkers⟩ := hk
  unfold System.reconcile
  split
  · next t ht =>
    refine ⟨job, ⟨hs.found, hs.deletes, hs.queued, hs.retired, hs.gone, fun u hu => ?_⟩, hworkers.imp_right
      fun ⟨w, honly, h⟩ => ⟨w, honly, h.deletes, h.execution, h.release, h.stage⟩⟩
    rcases List.mem_append.mp hu with hold | hnew
    · exact hs.reconcilers u hold
    · obtain rfl := List.mem_singleton.mp hnew
      have hfound : s.store.jobs.lookup k.jid = some job := hs.found
      simp only [Reconciler.begin, hfound] at ht
      split at ht
      · exact absurd ht (by simp)
      · simp only [bind_eq_ok, Reconciler.firstPc, hs.deletes.releaseId, hs.deletes.kind] at ht
        obtain ⟨_, _, ht⟩ := ht
        obtain rfl := Option.some.inj (Except.ok.inj ht)
        exact ⟨hs.deletes, Or.inl rfl⟩
  · exact ⟨job, hs, hworkers⟩

theorem kept_restart (hk : s.Kept k) : (s.restart k).Kept k := by
  obtain ⟨job, hs, -⟩ := hk
  have hd := hs.deletes
  have hrestarted : Deletes k (Store.restarted job) ∧
      (Store.restarted job).execution = job.execution ∧
      ((Store.restarted job).status = .queued → job.status = .queued) := by
    unfold Store.restarted
    split
    · exact ⟨⟨hd.id, hd.kind, hd.target, hd.scope, hd.releaseId⟩, rfl, by simp⟩
    · exact ⟨⟨hd.id, hd.kind, hd.target, hd.scope, hd.releaseId⟩, rfl, by simp⟩
    · exact ⟨⟨hd.id, hd.kind, hd.target, hd.scope, hd.releaseId⟩, rfl, by simp⟩
    · exact ⟨hd, rfl, fun hq => hq⟩
  have hfound : s.store.jobs.lookup k.jid = some job := hs.found
  refine ⟨Store.restarted job, ⟨?_, hrestarted.1, fun hq => ?_, hs.retired, hs.gone, by simp [System.restart]⟩, ?_⟩
  · simp [System.job, System.restart, Store.restart, Dict.lookup_mapValues, hfound]
  · rw [hrestarted.2.1]
    exact hs.queued (hrestarted.2.2 hq)
  · by_cases hq : job.status = .queued
    · have hsame : Store.restarted job = job := by simp [Store.restarted, hq]
      refine Or.inr ⟨Worker.spawned job, ?_, hd, by rw [hsame]; rfl, rfl, fun _ => ?_⟩
      · simp [System.restart, hs.found, hq]
      · rw [hsame]
        exact hs.queued hq
    · exact Or.inl (by simp [System.restart, hs.found, hq])

theorem kept_cancel (hk : s.Kept k) : (s.cancel k).Kept k := by
  obtain ⟨job, hs, hworkers⟩ := hk
  unfold System.cancel
  split
  · next store hstore =>
    obtain ⟨old, hold, hcancellable, rfl⟩ := Store.transition_eq_ok.mp hstore
    have hfound : s.store.jobs.lookup k.jid = some job := hs.found
    obtain rfl : job = old := Option.some.inj (hfound.symm.trans hold)
    have hd := hs.deletes
    refine ⟨{ job with status := .cancelled }, ⟨?_, ⟨hd.id, hd.kind, hd.target, hd.scope, hd.releaseId⟩,
      by simp, hs.retired, hs.gone, hs.reconcilers⟩, hworkers.imp_right
        fun ⟨w, honly, h⟩ => ⟨w, honly, h.deletes, h.execution, h.release, ?_⟩⟩
    · simp [System.job, Store.update, hfound]
    · have hstage := h.stage
      have hne : job.status ≠ .applying := fun ha => by simp [ha, Status.cancellable] at hcancellable
      cases hpc : w.pc <;> simp only [hpc, System.Stage] at hstage ⊢
      case start | quiesceMark | quiesce | applyMark => exact fun hp => by simp [Status.inProgress] at hp
      case deleting | delete | sandboxDeletedMark | cleanupFiles | filesDeletedMark | lifecycle =>
        exact absurd hstage.1 hne
      case finish => exact hstage
  · exact ⟨job, hs, hworkers⟩

end Steps

section Environment

variable {k : Setting} {s s' : System} {job : Job}

/-- The job holds the lease of the agent while it is being worked on. -/
theorem pending_of_applying (hs : s.Sound k job) (h : job.status = .applying) : s.pending k = true := by
  simp [System.pending, hs.found, h, Status.leaseHolding]

theorem kept_edit {c : Service} (hk : s.Kept k)
    (h : ({ s with catalog := c } : System).present k = s.present k ∧
      ({ s with catalog := c } : System).retired k = s.retired k ∨
      s.replaced k { s with catalog := c } = true) : ({ s with catalog := c } : System).Kept k := by
  obtain ⟨job, hs, hworkers⟩ := hk
  rcases h with ⟨hpresent, hretired⟩ | hreplaced
  · refine ⟨job, ⟨hs.found, hs.deletes, fun hq => ⟨hpresent.trans (hs.queued hq).1, (hs.queued hq).2⟩,
      by rw [hpresent, hretired]; exact hs.retired, fun hg => hs.gone (hpresent.symm.trans hg),
      fun t ht => ⟨(hs.reconcilers t ht).1, (hs.reconcilers t ht).2.imp_right fun hg =>
        ⟨hg.1, hpresent.trans hg.2⟩⟩⟩, hworkers.imp_right fun ⟨w, honly, hw⟩ =>
      ⟨w, honly, hw.deletes, hw.execution, hw.release, ?_⟩⟩
    have hstage := hw.stage
    cases hpc : w.pc <;> simp only [hpc, System.Stage] at hstage ⊢
    case start | quiesceMark | quiesce | applyMark =>
      exact fun hp => ⟨hpresent.trans (hstage hp).1, (hstage hp).2⟩
    case deleting | delete => exact ⟨hstage.1, hpresent.trans hstage.2.1, hstage.2.2⟩
    case sandboxDeletedMark | cleanupFiles | filesDeletedMark | lifecycle =>
      exact ⟨hstage.1, hpresent.trans hstage.2.1, hstage.2.2⟩
    case finish => exact hpresent.trans hstage
  · simp only [System.replaced, Bool.and_eq_true, Bool.not_eq_true', List.isEmpty_iff, beq_iff_eq] at hreplaced
    obtain ⟨⟨⟨⟨hover, hrows⟩, hfiles⟩, hgone⟩, hretired⟩ := hreplaced
    -- the job is over, so its worker is past the last statement that relies on the agent
    have hended : job.status.leaseHolding = false := by simpa [System.pending, hs.found] using hover
    refine ⟨job, ⟨hs.found, hs.deletes, fun hq => ?_, by rw [hgone, hretired]; rfl, fun _ => ⟨hrows, hfiles⟩,
      fun t ht => ⟨(hs.reconcilers t ht).1, (hs.reconcilers t ht).2.imp_right fun hg => ⟨hg.1, hgone⟩⟩⟩,
      hworkers.imp_right fun ⟨w, honly, hw⟩ => ⟨w, honly, hw.deletes, hw.execution, hw.release, ?_⟩⟩
    · simp [hq, Status.leaseHolding] at hended
    · have hstage := hw.stage
      cases hpc : w.pc <;> simp only [hpc, System.Stage] at hstage ⊢
      case start | quiesceMark | quiesce | applyMark =>
        intro hp
        rw [Status.leaseHolding_of_inProgress hp] at hended
        exact absurd hended (by simp)
      case deleting | delete | sandboxDeletedMark | cleanupFiles | filesDeletedMark | lifecycle =>
        simp [hstage.1, Status.leaseHolding] at hended
      case finish => exact hgone

theorem kept_traffic {t : Sandboxes} (hk : s.Kept k) (hpresent : s.present k = true)
    (h : s.trafficked k t = true) : ({ s with sandboxes := t } : System).Kept k := by
  obtain ⟨job, hs, hworkers⟩ := hk
  have hempty : job.status = .applying → s.sandboxes = ⟨[], 0⟩ → t = ⟨[], 0⟩ := by
    intro ha hrows
    simp only [System.trafficked, System.closed, pending_of_applying hs ha, hrows] at h
    obtain ⟨rows, inFlight⟩ := t
    cases rows with
    | nil => simpa using h
    | cons r rows => simp at h
  refine ⟨job, ⟨hs.found, hs.deletes, hs.queued, hs.retired, fun hg => ?_, hs.reconcilers⟩,
    hworkers.imp_right fun ⟨w, honly, hw⟩ => ⟨w, honly, hw.deletes, hw.execution, hw.release, ?_⟩⟩
  · exact absurd (hpresent.symm.trans hg) (by simp)
  · have hstage := hw.stage
    cases hpc : w.pc <;> simp only [hpc, System.Stage] at hstage ⊢
    case sandboxDeletedMark | cleanupFiles | filesDeletedMark | lifecycle =>
      exact ⟨hstage.1, hstage.2.1, hempty hstage.1 hstage.2.2.1, hstage.2.2.2⟩
    all_goals exact hstage

theorem kept_write {f : AgentFiles} (hk : s.Kept k) (hpresent : s.present k = true)
    (h : (!s.pending k || s.sandboxes.rows.any (·.container.isSome)) = true) :
    ({ s with files := f } : System).Kept k := by
  obtain ⟨job, hs, hworkers⟩ := hk
  refine ⟨job, ⟨hs.found, hs.deletes, hs.queued, hs.retired, fun hg => ?_, hs.reconcilers⟩,
    hworkers.imp_right fun ⟨w, honly, hw⟩ => ⟨w, honly, hw.deletes, hw.execution, hw.release, ?_⟩⟩
  · exact absurd (hpresent.symm.trans hg) (by simp)
  · have hstage := hw.stage
    cases hpc : w.pc <;> simp only [hpc, System.Stage] at hstage ⊢
    case filesDeletedMark | lifecycle =>
      obtain ⟨ha, _, hrows, _⟩ := hstage
      simp [pending_of_applying hs ha, hrows] at h
    all_goals exact hstage

theorem kept_manage {m : Manager} (hk : s.Kept k)
    (h : ((s.keys k).all fun key => m.commands.lookup key == s.manager.commands.lookup key) = true) :
    ({ s with manager := m } : System).Kept k := by
  obtain ⟨job, hs, hworkers⟩ := hk
  have hkept : s.unasked job.execution .delete →
      ({ s with manager := m } : System).unasked job.execution .delete := by
    intro hu
    have hkey := List.all_eq_true.mp h (job.execution ++ ActionName.delete.suffix)
      (by simp [System.keys, hs.found])
    exact (beq_iff_eq.mp hkey).trans hu
  exact ⟨job, sound_manager hs hkept, hworkers.imp_right fun ⟨w, honly, hw⟩ => ⟨w, honly, hw.manager hkept⟩⟩

/-- **Every orderly step keeps the invariant.** -/
theorem kept_step {e : Event} (hk : s.Kept k) (horderly : s.Orderly k e)
    (hstep : (machine k).step s e = some s') : s'.Kept k := by
  have hframe : ∀ (store : Operations.Store) (previews : Dict String Impact),
      store.jobs.lookup k.jid = s.store.jobs.lookup k.jid →
      ({ s with store := store, previews := previews } : System).Kept k := by
    intro store previews hsame
    obtain ⟨job, hs, hworkers⟩ := hk
    exact ⟨job, ⟨hsame.trans hs.found, hs.deletes, hs.queued, hs.retired, hs.gone, hs.reconcilers⟩,
      hworkers.imp_right fun ⟨w, honly, h⟩ => ⟨w, honly, h.deletes, h.execution, h.release, h.stage⟩⟩
  cases e <;> simp only [machine, System.step] at hstep
  case work i x => exact kept_work hk hstep
  case preview pid =>
    split at hstep
    · obtain rfl := Option.some.inj hstep
      exact hframe s.store _ rfl
    · obtain rfl := Option.some.inj hstep
      exact hk
  case expire pid =>
    obtain rfl := Option.some.inj hstep
    exact hframe s.store _ rfl
  case retry r executionId =>
    split at hstep
    · next hfresh =>
      obtain rfl := Option.some.inj hstep
      exact kept_retry hk horderly hfresh
    · exact absurd hstep (by simp)
  case reconcile requestId =>
    obtain rfl := Option.some.inj hstep
    exact kept_reconcile hk
  case reconcileWork i x => exact kept_reconcileWork hk hstep
  case restart =>
    obtain rfl := Option.some.inj hstep
    exact kept_restart hk
  case cancel =>
    obtain rfl := Option.some.inj hstep
    exact kept_cancel hk
  case others store =>
    split at hstep
    · next hsame =>
      obtain rfl := Option.some.inj hstep
      exact hframe store s.previews hsame
    · exact absurd hstep (by simp)
  case edit c =>
    split at hstep
    · next h =>
      obtain rfl := Option.some.inj hstep
      exact kept_edit hk h
    · exact absurd hstep (by simp)
  case traffic t =>
    split at hstep
    · next h =>
      obtain rfl := Option.some.inj hstep
      exact kept_traffic hk horderly h
    · exact absurd hstep (by simp)
  case write f =>
    split at hstep
    · next h =>
      obtain rfl := Option.some.inj hstep
      exact kept_write hk horderly h
    · exact absurd hstep (by simp)
  case manage m =>
    split at hstep
    · next h =>
      obtain rfl := Option.some.inj hstep
      exact kept_manage hk h
    · exact absurd hstep (by simp)

theorem kept_submitted (h : Submitted k .agentDelete s) : s.Kept k := by
  obtain ⟨job, hfound, hid, hkind, htarget, hscope, hrelease, hexecution, _, hworkers⟩ := h.job
  have hdeletes : Deletes k job := ⟨hid, hkind, htarget, hscope, hrelease⟩
  have heq : job.execution = k.jid := by simp [Job.execution, hexecution, hid]
  obtain ⟨hunasked, hreceipts, _⟩ := fresh_unasked h.fresh .delete
  have huntouched : s.Untouched k job.execution := by
    rw [heq]
    exact ⟨h.present, hunasked, hreceipts⟩
  refine ⟨job, ⟨hfound, hdeletes, fun _ => huntouched, by rw [h.retired, h.present]; rfl, fun hg => ?_, ?_⟩,
    Or.inr ⟨_, hworkers, hdeletes, rfl, rfl, fun _ => huntouched⟩⟩
  · exact absurd (h.present.symm.trans hg) (by simp)
  · simp [h.reconcilers]

/-- Every state of an orderly history. -/
theorem kept_run {es : List Event} (h : Submitted k .agentDelete s)
    (horderly : (machine k).Along (System.Orderly k) s es) (hrun : (machine k).run s es = some s') :
    s'.Kept k :=
  (machine k).run_invariant (fun _ _ _ hk ho hstep => kept_step hk ho hstep) (kept_submitted h) hrun horderly

end Environment

/-! ## §J Recovery -/

/-- The deletion has come to its end. -/
structure System.Recovered (k : Setting) (s : System) : Prop where
  succeeded : ∃ job, s.job k = some job ∧ job.status = .succeeded
  absent : s.present k = false
  retired : s.retired k = true
  sandboxes : s.sandboxes.rows = []
  files : s.files = .gone

/-- Nothing but the deletion itself has to be recovered: no version of the agent is staged, and, while it is in
the catalog, it was not restored, its files have no links, its sandboxes are idle and can be removed, and
nothing else holds its lease. -/
structure System.Ready (k : Setting) (s : System) : Prop where
  unstaged : s.manager.overrides.lookup k.aid = none
  archived : ∀ a, s.agent k = some a → a.lifecycle ≠ .active
  unlinked : s.files.linked = false
  drained : s.sandboxes.drained = true
  removable : ∀ r ∈ s.sandboxes.rows, r.refuses = false
  unheld : s.store.heldByAnother k.jid k.aid = false

/-! ### What is carried out -/

section Carried

variable {k : Setting} {s : System} {d : Document}

theorem resume_ok {m : Manager} (h : m.overrides.lookup k.aid = none) :
    m.resume d none k.aid = ({ m with blocked := m.blocked.filter (· != k.aid) }, .ok ()) := by
  unfold Manager.resume Manager.resumeTargets
  rw [if_neg k.aid_ne]
  simp [h, Manager.each]

/-- An action that was not asked for before is carried out and acknowledged. -/
theorem action_ok {m m' : Manager} {b b' : Sandboxes} {body : ActionBody}
    (hnew : m.commands.lookup body.requestId = none)
    (h : perform k d { m with commands := m.commands.insert body.requestId ⟨k.aid, body, false⟩ } b body .all =
      ((m', b'), .ok ())) :
    action k d m b body .all =
      (({ m' with commands := m'.commands.insert body.requestId ⟨k.aid, body, true⟩ }, b'),
        .ok .accepted) := by
  simp only [action, hnew, h, if_true]

theorem removeRecords_all {rows : List Sandbox} (h : ∀ r ∈ rows, r.refuses = false) (n : Nat) :
    (removeRecords .all n rows).1 = true := by
  induction rows generalizing n with
  | nil => rfl
  | cons r rows ih =>
    have hr : r.refuses = false := h r List.mem_cons_self
    simp only [removeRecords, hr, Extent.allows, Bool.not_true, Bool.or_self, Bool.false_eq_true, if_false]
    exact ih (fun r' hr' => h r' (List.mem_cons_of_mem _ hr')) (n + 1)

theorem deleteRows_all {rows : List Sandbox} (h : ∀ r ∈ rows, r.refuses = false) :
    deleteRows .all rows = (true, []) := by
  simp [deleteRows, removeRecords_all h, Extent.allows]

theorem perform_quiesce {m : Manager} {b : Sandboxes} {key : String} (h : b.drained = true) :
    perform k d m b (.plain .quiesce key) .all = ((m.block k.aid, b), .ok ()) := by
  simp [perform, ActionBody.plain, h]

theorem perform_delete {m : Manager} {b : Sandboxes} {body : ActionBody} (hname : body.action = .delete)
    (hfp : body.expectedFingerprint = some (k.hashSandboxes b.rows)) (h : b.drained = true)
    (hrows : ∀ r ∈ b.rows, r.refuses = false) :
    perform k d m b body .all = ((m.block k.aid, { b with rows := [] }), .ok ()) := by
  simp [perform, hname, hfp, h, deleteRows_all hrows]

theorem cleanupAgent_all {receipts : Dict String Receipt} {f : AgentFiles} {requestId : String}
    (hlength : requestId.length = 32) (hnew : receipts.lookup requestId = none)
    (h : f.linked = false) :
    (cleanupAgent k receipts f true requestId (some (k.hashFiles f)) false .all).1.2 = .gone ∧
      (cleanupAgent k receipts f true requestId (some (k.hashFiles f)) false .all).2 = .ok .accepted := by
  have hbounded : ¬ (requestId = "" ∨ 256 < requestId.length) := by
    rintro (rfl | hlong)
    · exact absurd hlength (by decide)
    · omega
  have hne := k.hashFiles_ne f
  simp [cleanupAgent, hbounded, hnew, agentImpact, h, hne, AgentFiles.remove]

theorem editing_ok {c : Service} {body : Document → Result Document} {d' : Document}
    (h : body c.store.data = .ok d') :
    c.editing none body = .ok { c with store := ⟨c.store.revision + 1, d'⟩ } := by
  simp [Service.editing, Store.edit, h, refuse, bind, Except.bind, pure, Except.pure]

theorem lifecycle_ok (fingerprint : Agent → Dict String Resource → String) (requestId : Option String)
    {aid : String} {a : Agent} (ha : d.agents.lookup aid = some a) :
    lifecycle fingerprint aid .deleting requestId
      (some (fingerprint { a with lifecycle := .active } (privateResources d aid))) d =
      .ok { d with agents := d.agents.insert aid { a with lifecycle := .deleting } } := by
  simp [lifecycle, ha, refuse, bind, Except.bind, pure, Except.pure]

theorem delete_ok (fingerprint : Agent → Dict String Resource → String) (requestId : Option String)
    {aid : String} {a : Agent} (ha : d.agents.lookup aid = some a) (harchived : a.lifecycle ≠ .active) :
    ∃ d', lifecycle fingerprint aid .delete requestId
      (some (fingerprint { a with lifecycle := .active } (privateResources d aid))) d = .ok d' := by
  have hne : (a.lifecycle == .active) = false := by simpa using harchived
  simp [lifecycle, ha, hne, refuse, bind, Except.bind, pure, Except.pure]

end Carried

/-! ### A retry without a fault -/

/-- The catalog will carry out both requests. -/
def System.CatalogAhead (k : Setting) (s : System) (w : Worker) : Prop :=
  ∃ a, s.agent k = some a ∧ a.lifecycle ≠ .active ∧
    w.impacts.catalog = some (k.env.fingerprint { a with lifecycle := .active }
      (privateResources s.catalog.store.data k.aid))

/-- The file service will carry out its request. -/
def System.FilesAhead (k : Setting) (s : System) (execution : String) (w : Worker) : Prop :=
  s.files.linked = false ∧ w.impacts.files = some (k.hashFiles s.files) ∧
    s.receipts.lookup execution = none

/-- The manager will carry out its request. -/
def System.SandboxesAhead (k : Setting) (s : System) (execution : String) (w : Worker) : Prop :=
  s.sandboxes.drained = true ∧ (∀ r ∈ s.sandboxes.rows, r.refuses = false) ∧
    w.impacts.sandbox = some (k.hashSandboxes s.sandboxes.rows) ∧ s.unasked execution .delete

/-- What the statements from this one on find. -/
def System.Ahead (k : Setting) (s : System) (job : Job) (w : Worker) : Pc → Prop
  | .start | .quiesceMark =>
    job.status.inProgress = true ∧ s.CatalogAhead k w ∧ s.FilesAhead k job.execution w ∧
      s.SandboxesAhead k job.execution w ∧ s.unasked job.execution .quiesce
  | .quiesce =>
    w.quiesceStarted = true ∧ job.status.inProgress = true ∧ s.CatalogAhead k w ∧
      s.FilesAhead k job.execution w ∧ s.SandboxesAhead k job.execution w ∧
      s.unasked job.execution .quiesce
  | .applyMark =>
    w.quiesceStarted = true ∧ job.status.inProgress = true ∧ s.CatalogAhead k w ∧
      s.FilesAhead k job.execution w ∧ s.SandboxesAhead k job.execution w
  | .deleting | .delete =>
    w.quiesceStarted = true ∧ job.status = .applying ∧ s.CatalogAhead k w ∧
      s.FilesAhead k job.execution w ∧ s.SandboxesAhead k job.execution w
  | .sandboxDeletedMark | .cleanupFiles =>
    w.quiesceStarted = true ∧ job.status = .applying ∧ s.CatalogAhead k w ∧
      s.FilesAhead k job.execution w ∧ s.sandboxes.rows = []
  | .filesDeletedMark | .lifecycle =>
    w.quiesceStarted = true ∧ s.CatalogAhead k w ∧ s.files = .gone ∧ s.sandboxes.rows = []
  | .finish =>
    w.quiesceStarted = true ∧ s.present k = false ∧ s.retired k = true ∧ s.files = .gone ∧
      s.sandboxes.rows = []
  | .leave =>
    w.quiesceStarted = true ∧ job.status = .succeeded ∧ s.present k = false ∧ s.retired k = true ∧
      s.files = .gone ∧ s.sandboxes.rows = []
  | .resume =>
    job.status = .succeeded ∧ s.present k = false ∧ s.retired k = true ∧ s.files = .gone ∧
      s.sandboxes.rows = []
  | _ => False

/-- A retry that has met no fault. -/
structure System.Attempt (k : Setting) (s : System) (job : Job) (w : Worker) : Prop where
  found : s.job k = some job
  only : s.workers = [w]
  deletes : Deletes k job
  works : Deletes k w.job
  execution : w.job.execution = job.execution
  length : job.execution.length = 32
  unstaged : s.manager.overrides.lookup k.aid = none
  unresumed : s.unasked job.execution .resume
  ahead : s.Ahead k job w w.pc

/-- How many statements are left. -/
def left : Pc → Nat
  | .start => 13
  | .quiesceMark => 12
  | .quiesce => 11
  | .applyMark => 10
  | .deleting => 9
  | .delete => 8
  | .sandboxDeletedMark => 7
  | .cleanupFiles => 6
  | .filesDeletedMark => 5
  | .lifecycle => 4
  | .finish => 3
  | .leave => 2
  | .resume => 1
  | _ => 0

section Attempt

variable {k : Setting} {s : System} {job : Job} {w : Worker}

theorem suffix_ne_resume {a b : String} {name : ActionName} (h : name = .quiesce ∨ name = .delete) :
    a ++ ActionName.resume.suffix ≠ b ++ name.suffix := by
  intro heq
  have hlast := congrArg (fun s : String => s.toList.reverse.take 2) heq
  rcases h with rfl | rfl <;> simp [ActionName.suffix] at hlast

/-- A write of a retry. -/
theorem System.Attempt.write (h : s.Attempt k job w) (hc : w.call = none) {store : Operations.Store}
    {job' : Job} {v : Worker} (heq : w.work s.store false = (store, v))
    (hfound : store.jobs.lookup k.jid = some job') (hjob : v.job = w.job) (hpc : v.pc ≠ .ended)
    (hdeletes : Deletes k job') (hexecution : job'.execution = job.execution)
    (hahead : s.Ahead k job' v v.pc) : ∃ s', s.work k 0 .fine = some s' ∧ s'.Attempt k job' v := by
  refine ⟨{ s with store := store, workers := [v] }, ?_, ?_⟩
  · simp [System.work, h.only, hc, heq, System.putWorker, hpc]
  · exact
      { found := hfound
        only := rfl
        deletes := hdeletes
        works := hjob ▸ h.works
        execution := by rw [hjob, hexecution]; exact h.execution
        length := by rw [hexecution]; exact h.length
        unstaged := h.unstaged
        unresumed := by rw [hexecution]; exact h.unresumed
        ahead := hahead }

theorem System.Attempt.updated (h : s.Attempt k job w) (f : Job → Job) :
    (s.store.update w.job.id f).jobs.lookup k.jid = some (f job) := by
  have hfound : s.store.jobs.lookup k.jid = some job := h.found
  simp [Store.update, h.works.id, hfound]

/-- A call of a retry. -/
theorem System.Attempt.call (h : s.Attempt k job w) {c : Call} (hc : w.call = some c) {s₁ : System} {r : Reply}
    (hout : s.carryOut k .all c = (s₁, r)) {v : Worker} (hreceive : w.receive r = v)
    (hjob : v.job = w.job) (hpc : v.pc ≠ .ended)
    (hunstaged : s₁.manager.overrides.lookup k.aid = none)
    (hunresumed : s₁.unasked job.execution .resume) (hahead : s₁.Ahead k job v v.pc) :
    ∃ s', s.work k 0 .fine = some s' ∧ s'.Attempt k job v := by
  have hframe := carryOut_frame (k := k) (s := s) (x := .all) c
  rw [hout] at hframe
  have hworkers : s₁.workers = [w] := hframe.workers.trans h.only
  have hstore : s₁.store = s.store := hframe.store
  refine ⟨{ s₁ with workers := [v] }, ?_, ?_⟩
  · simp [System.work, h.only, hc, hout, hreceive, System.putWorker, hpc, hworkers]
  · exact
      { found := by rw [← h.found]; simp only [System.job, hstore]
        only := rfl
        deletes := h.deletes
        works := hjob ▸ h.works
        execution := by rw [hjob]; exact h.execution
        length := h.length
        unstaged := hunstaged
        unresumed := hunresumed
        ahead := hahead }

theorem System.Attempt.passes (h : s.Attempt k job w) (hprogress : job.status.inProgress = true) (f : Job → Job)
    (next : Worker) : w.checkpoint s.store f next = (s.store.update w.job.id f, next) := by
  have hfound : s.store.jobs.lookup w.job.id = some job := by
    rw [h.works.id]
    exact h.found
  simp [Worker.checkpoint, Store.transition, hfound, hprogress]

end Attempt

section Attempt

variable {k : Setting} {s : System} {job : Job} {w : Worker}

theorem carryOut_answered {aid requestId : String} {expected : Option String} {a : LifecycleAction}
    {d : Document} (h : lifecycle k.env.fingerprint aid (State.agentAction a) (some requestId) expected
      s.catalog.store.data = .ok d) :
    s.carryOut k .all (.lifecycle aid a requestId expected) =
      ({ s with catalog := { s.catalog with store := ⟨s.catalog.store.revision + 1, d⟩ } }, .ok .accepted) := by
  have hhandle : s.catalog.handle k.env
      (.lifecycle aid (State.agentAction a) (some requestId) expected none) = .ok _ := editing_ok h
  simp [System.carryOut, State.askCatalog, State.catalogCommand, State.catalogAnswer, hhandle,
    Except.map, State.replyOf]

/-- An action of a retry is new to the journal, so it is carried out. -/
theorem carryOut_action (aid : String) (body : ActionBody) {m : Manager} {b : Sandboxes}
    (hname : ofDeletion body.action = true) (hnew : s.manager.commands.lookup body.requestId = none)
    (hperform : perform k s.catalog.store.data
      { s.manager with commands := s.manager.commands.insert body.requestId ⟨k.aid, body, false⟩ }
      s.sandboxes body .all = ((m, b), .ok ())) :
    ∃ m', s.carryOut k .all (.action aid body) = ({ s with manager := m', sandboxes := b }, .ok .accepted) ∧
      m'.overrides = m.overrides ∧
      ∀ key, key ≠ body.requestId → m'.commands.lookup key = s.manager.commands.lookup key := by
  have hact := action_ok hnew hperform
  refine ⟨{ m with commands := m.commands.insert body.requestId ⟨k.aid, body, true⟩ },
    by simp only [System.carryOut, hact], rfl, fun key hkey => ?_⟩
  have hkept := action_commands (k := k) (x := .all) (d := s.catalog.store.data) (m := s.manager)
    (b := s.sandboxes) hname hkey
  rw [hact] at hkept
  exact hkept

/-- **One statement of a retry**: it is carried out, and the next one finds what it needs. -/
theorem System.Attempt.step (h : s.Attempt k job w) :
    ∃ s', s.work k 0 .fine = some s' ∧
      (left w.pc = 1 ∧ s'.Recovered k ∨
        ∃ job' w', s'.Attempt k job' w' ∧ left w'.pc + 1 = left w.pc) := by
  have hahead := h.ahead
  have hd := h.deletes
  have hexecution := h.execution
  cases hpc : w.pc <;> simp only [hpc, System.Ahead] at hahead
  case start =>
    have hafter : w.afterStart = w.goto .quiesceMark := by
      simp [Worker.afterStart, h.works.kind, Kind.isSandbox]
    obtain ⟨s', hstep, hnext⟩ := h.write (by simp [Worker.call, hpc]) (v := w.goto .quiesceMark)
      (by simp only [Worker.work, hpc, hafter]; exact h.passes hahead.1 _ _)
      (h.updated fun j => { j with checkpoint := .prepare, status := .running }) rfl (by simp [Worker.goto])
      ⟨hd.id, hd.kind, hd.target, hd.scope, hd.releaseId⟩ rfl ⟨rfl, hahead.2⟩
    exact ⟨s', hstep, Or.inr ⟨_, _, hnext, rfl⟩⟩
  case quiesceMark =>
    obtain ⟨s', hstep, hnext⟩ := h.write (by simp [Worker.call, hpc])
      (v := { w with quiesceStarted := true, pc := .quiesce })
      (by simp only [Worker.work, hpc]; exact h.passes hahead.1 _ _)
      (h.updated fun j => { j with checkpoint := .quiesce, status := .waiting }) rfl (by simp)
      ⟨hd.id, hd.kind, hd.target, hd.scope, hd.releaseId⟩ rfl ⟨rfl, rfl, hahead.2⟩
    exact ⟨s', hstep, Or.inr ⟨_, _, hnext, rfl⟩⟩
  case quiesce =>
    obtain ⟨hquiesced, hprogress, hcatalog, hfiles, ⟨hdrained, hrows, hfp, hdelete⟩, hunasked⟩ := hahead
    rw [← hexecution] at hunasked
    obtain ⟨m, hout, hoverrides, hkept⟩ := carryOut_action (k := k) w.job.target
      (w.actionBody .quiesce) rfl hunasked (perform_quiesce hdrained)
    obtain ⟨s', hstep, hnext⟩ := h.call (by simp [Worker.call, hpc]) hout
      (v := w.goto .applyMark) (by simp [Worker.receive, hpc]) rfl (by simp [Worker.goto])
      (by rw [hoverrides]; exact h.unstaged)
      ((hkept _ (suffix_ne_resume (Or.inl rfl))).trans h.unresumed)
      ⟨hquiesced, hprogress, hcatalog, hfiles, hdrained, hrows, hfp,
        (hkept _ fun heq => suffix_ne_delete (Or.inl rfl) heq.symm).trans hdelete⟩
    exact ⟨s', hstep, Or.inr ⟨_, _, hnext, rfl⟩⟩
  case applyMark =>
    have hafter : w.afterApplyMark = { w with applyStarted := true, pc := .deleting } := by
      simp [Worker.afterApplyMark, h.works.kind, Worker.goto]
    obtain ⟨s', hstep, hnext⟩ := h.write (by simp [Worker.call, hpc])
      (v := { w with applyStarted := true, pc := .deleting })
      (by simp only [Worker.work, hpc, hafter]; exact h.passes hahead.2.1 _ _)
      (h.updated fun j => { j with checkpoint := .apply, status := .applying }) rfl (by simp)
      ⟨hd.id, hd.kind, hd.target, hd.scope, hd.releaseId⟩ rfl ⟨hahead.1, rfl, hahead.2.2⟩
    exact ⟨s', hstep, Or.inr ⟨_, _, hnext, rfl⟩⟩
  case deleting =>
    obtain ⟨hquiesced, happlying, ⟨a, ha, harchived, hfp⟩, hfiles, hsandboxes⟩ := hahead
    have hdoc := lifecycle_ok k.env.fingerprint (some w.job.execution) ha
    rw [← hfp] at hdoc
    have hout := carryOut_answered (k := k) (s := s) (a := .deleting) hdoc
    obtain ⟨s', hstep, hnext⟩ := h.call (by simp [Worker.call, hpc, h.works.target]) hout
      (v := w.goto .delete) (by simp [Worker.receive, hpc]) rfl (by simp [Worker.goto]) h.unstaged h.unresumed
      ⟨hquiesced, happlying, ⟨{ a with lifecycle := .deleting }, by simp [System.agent], by simp, hfp⟩, hfiles, hsandboxes⟩
    exact ⟨s', hstep, Or.inr ⟨_, _, hnext, rfl⟩⟩
  case delete =>
    obtain ⟨hquiesced, happlying, hcatalog, hfiles, hdrained, hrows, hfp, hunasked⟩ := hahead
    rw [← hexecution] at hunasked
    obtain ⟨m, hout, hoverrides, hkept⟩ := carryOut_action (k := k) w.job.target
      ({ w.actionBody .delete with
        emptyOnly := some (w.job.kind == .agentDeleteEmpty), expectedFingerprint := w.impacts.sandbox })
      rfl hunasked (perform_delete rfl hfp hdrained hrows)
    obtain ⟨s', hstep, hnext⟩ := h.call (by simp [Worker.call, hpc]) hout
      (v := w.goto .sandboxDeletedMark) (by simp [Worker.receive, hpc]) rfl (by simp [Worker.goto])
      (by rw [hoverrides]; exact h.unstaged)
      ((hkept _ (suffix_ne_resume (Or.inr rfl))).trans h.unresumed)
      ⟨hquiesced, happlying, hcatalog, hfiles, rfl⟩
    exact ⟨s', hstep, Or.inr ⟨_, _, hnext, rfl⟩⟩
  case sandboxDeletedMark =>
    obtain ⟨s', hstep, hnext⟩ := h.write (by simp [Worker.call, hpc]) (v := w.goto .cleanupFiles)
      (by simp only [Worker.work, hpc]; rfl)
      (h.updated fun j => { j with checkpoint := .cleanupFiles, sandboxDeleted := true }) rfl (by simp [Worker.goto])
      ⟨hd.id, hd.kind, hd.target, hd.scope, hd.releaseId⟩ rfl hahead
    exact ⟨s', hstep, Or.inr ⟨_, _, hnext, rfl⟩⟩
  case cleanupFiles =>
    obtain ⟨hquiesced, happlying, hcatalog, ⟨hlinked, hfp, hreceipts⟩, hrows⟩ := hahead
    rw [← hexecution] at hreceipts
    have hauthorized : s.authorizes k w.job.execution = true := by
      refine Dict.any_eq_true.mpr ⟨k.jid, job, h.found, ?_⟩
      simp [hd.target, hd.kind, hexecution, happlying]
    have hlength : w.job.execution.length = 32 := by rw [hexecution]; exact h.length
    obtain ⟨hgone, hreply⟩ := cleanupAgent_all (k := k) hlength hreceipts hlinked
    have hempty : (w.job.kind == .agentDeleteEmpty) = false := by simp [h.works.kind]
    obtain ⟨s', hstep, hnext⟩ := h.call
      (c := .cleanupFiles k.aid w.job.execution (some (k.hashFiles s.files)) false)
      (by simp [Worker.call, hpc, hfp, h.works.target, hempty]) rfl
      (v := w.goto .filesDeletedMark) (by simp [Worker.receive, hpc, hauthorized, hreply])
      rfl (by simp [Worker.goto]) h.unstaged h.unresumed
      ⟨hquiesced, hcatalog, by simp [hauthorized, hgone], hrows⟩
    exact ⟨s', hstep, Or.inr ⟨_, _, hnext, rfl⟩⟩
  case filesDeletedMark =>
    obtain ⟨s', hstep, hnext⟩ := h.write (by simp [Worker.call, hpc]) (v := w.goto .lifecycle)
      (by simp only [Worker.work, hpc]; rfl)
      (h.updated fun j => { j with checkpoint := .cleanupCatalog, filesDeleted := true }) rfl (by simp [Worker.goto])
      ⟨hd.id, hd.kind, hd.target, hd.scope, hd.releaseId⟩ rfl hahead
    exact ⟨s', hstep, Or.inr ⟨_, _, hnext, rfl⟩⟩
  case lifecycle =>
    obtain ⟨hquiesced, ⟨a, ha, harchived, hfp⟩, hgone, hrows⟩ := hahead
    obtain ⟨d', hdoc⟩ := delete_ok k.env.fingerprint (some w.job.execution) ha harchived
    rw [← hfp] at hdoc
    have hout := carryOut_answered (k := k) (s := s) (a := .delete) hdoc
    have hpresent : s.present k = true := by simp [System.present, ha]
    obtain ⟨habsent, hretired⟩ := lifecycle_delete hdoc hpresent
    obtain ⟨s', hstep, hnext⟩ := h.call
      (by simp [Worker.call, hpc, h.works.target, h.works.kind, Worker.lifecycleAction]) hout
      (v := { w with applied := true, result := some .other, pc := .finish })
      (by simp [Worker.receive, hpc, Worker.afterBody, Worker.desiredState, h.works.kind, Worker.goto]) rfl
      (by simp) h.unstaged h.unresumed
      ⟨hquiesced, by simp [System.present, System.agent, habsent], hretired, hgone, hrows⟩
    exact ⟨s', hstep, Or.inr ⟨_, _, hnext, rfl⟩⟩
  case finish =>
    obtain ⟨s', hstep, hnext⟩ := h.write (by simp [Worker.call, hpc]) (v := w.goto .leave)
      (by simp only [Worker.work, hpc]; rfl)
      (h.updated fun j => { j with status := .succeeded, checkpoint := .complete, result := w.result }) rfl (by simp [Worker.goto])
      ⟨hd.id, hd.kind, hd.target, hd.scope, hd.releaseId⟩ rfl ⟨hahead.1, rfl, hahead.2⟩
    exact ⟨s', hstep, Or.inr ⟨_, _, hnext, rfl⟩⟩
  case leave =>
    obtain ⟨hquiesced, hsucceeded, hrest⟩ := hahead
    have hfound : s.store.jobs.lookup w.job.id = some job := by
      rw [h.works.id]
      exact h.found
    have hleaves : w.work s.store false = (s.store, w.goto .resume) := by
      simp [Worker.work, hpc, hquiesced, Store.statusOf, hfound, hsucceeded]
    obtain ⟨s', hstep, hnext⟩ := h.write (by simp [Worker.call, hpc]) hleaves h.found rfl
      (by simp [Worker.goto]) hd rfl ⟨hsucceeded, hrest⟩
    exact ⟨s', hstep, Or.inr ⟨_, _, hnext, rfl⟩⟩
  case resume =>
    obtain ⟨hsucceeded, habsent, hretired, hgone, hrows⟩ := hahead
    have hunasked := h.unresumed
    rw [← hexecution] at hunasked
    obtain ⟨m, hout, _, _⟩ := carryOut_action (k := k) w.job.target
      (w.actionBody .resume) rfl hunasked
      (by simp only [perform, Worker.actionBody, ActionBody.plain, Manager.perform]; rw [resume_ok (by exact h.unstaged)])
    refine ⟨{ s with manager := m, workers := [] }, ?_, Or.inl ⟨rfl, ⟨job, h.found, hsucceeded⟩, habsent,
      hretired, hrows, hgone⟩⟩
    simp [System.work, h.only, Worker.call, hpc, hout, Worker.receive, System.putWorker, Worker.goto]

end Attempt

section Recovery

variable {k : Setting} {s : System} {job : Job}

/-- **A whole retry**, by the number of statements that are left. -/
theorem System.Attempt.run {n : Nat} {s : System} {job : Job} {w : Worker} (h : s.Attempt k job w)
    (hn : left w.pc = n) :
    ∃ u, (machine k).run s (List.replicate n (.work 0 .fine)) = some u ∧ u.Recovered k := by
  induction n generalizing s job w with
  | zero =>
    obtain ⟨s', _, ⟨hone, _⟩ | ⟨_, _, _, hleft⟩⟩ := h.step
    · rw [hn] at hone
      exact absurd hone (by simp)
    · rw [hn] at hleft
      exact absurd hleft (by simp)
  | succ n ih =>
    obtain ⟨s', hstep, hnext⟩ := h.step
    have hstep' : (machine k).step s (.work 0 .fine) = some s' := hstep
    rw [List.replicate_succ, (machine k).run_cons hstep']
    rcases hnext with ⟨hone, hdone⟩ | ⟨job', w', hattempt, hleft⟩
    · rw [hn] at hone
      obtain rfl : n = 0 := by omega
      exact ⟨s', rfl, hdone⟩
    · exact ih hattempt (by omega)

/-- The impact of a deletion that nothing stands in the way of. -/
theorem impact_ok (hready : s.Ready k) {a : Agent} (ha : s.agent k = some a) :
    ∃ i, s.deletionImpact k = .ok i ∧ i.lifecycle = a.lifecycle ∧
      i.catalogFingerprint = k.env.fingerprint { a with lifecycle := .active }
        (privateResources s.catalog.store.data k.aid) ∧
      i.sandboxFingerprint = k.hashSandboxes s.sandboxes.rows ∧
      i.files.fingerprint = k.hashFiles s.files := by
  have hfiles : agentImpact k s.files =
      .ok ⟨s.files.entries.length, (s.files.entries.map (·.size)).sum, k.hashFiles s.files⟩ := by
    simp [agentImpact, hready.unlinked]
  have himpact : ∃ i, s.deletionImpact k = .ok i := by
    simp [System.deletionImpact, ha, hfiles, bind, Except.bind, pure, Except.pure]
  obtain ⟨i, hi⟩ := himpact
  refine ⟨i, hi, ?_⟩
  simp only [System.deletionImpact, ha, hfiles, bind, Except.bind, pure, Except.pure] at hi
  obtain rfl := Except.ok.inj hi
  exact ⟨rfl, rfl, rfl, rfl⟩

/-- The store accepts a retry of a deletion that has ended badly. -/
theorem retryDeletion_ok (hs : s.Sound k job) (hready : s.Ready k)
    (hended : job.status.reconcilable = true) (payload : Payload) (executionId : String)
    (hnew : job.retryRequestId ≠ payload.request.requestId) :
    s.store.retryDeletion k.jid payload executionId =
      .ok (s.store.update k.jid (Store.retried payload executionId),
        Store.retried payload executionId job, true) := by
  have hfound : s.store.jobs.lookup k.jid = some job := hs.found
  have hother : (job.retryRequestId == payload.request.requestId) = false := by simpa using hnew
  simp [Store.retryDeletion, hfound, hother, hs.deletes.kind, hended, hs.deletes.scope, hready.unheld,
    refuse, bind, Except.bind, pure, Except.pure]

/-- A retry that nothing stands in the way of is accepted, and what was previewed is what it finds. -/
theorem retry_accepted (hs : s.Sound k job) (hidle : s.workers = []) (hready : s.Ready k)
    (hended : job.status.reconcilable = true) (hpresent : s.present k = true)
    (pid : String) {requestId executionId : String} (hnew : job.retryRequestId ≠ some requestId)
    (hfresh : s.fresh executionId = true) :
    ∃ u job' w, (machine k).run s [.preview pid, .retry ⟨requestId, pid, k.aid⟩ executionId] = some u ∧
      u.Attempt k job' w ∧ left w.pc = 13 := by
  obtain ⟨a, ha⟩ := Option.isSome_iff_exists.mp hpresent
  obtain ⟨i, hi, hlifecycle, hcatalog, hsandbox, hfiles⟩ := impact_ok hready ha
  have harchived := hready.archived a ha
  have hd := hs.deletes
  have hfound : s.store.jobs.lookup k.jid = some job := hs.found
  let r : RetryRequest := ⟨requestId, pid, k.aid⟩
  let job' := Store.retried (r.payload i) executionId job
  let u : System := { s with
    previews := s.previews.insert pid i
    store := s.store.update k.jid (Store.retried (r.payload i) executionId)
    workers := [Worker.spawned job'] }
  have hretry := retryDeletion_ok hs hready hended (r.payload i) executionId hnew
  have hpreview : (machine k).step s (.preview pid) =
      some { s with previews := s.previews.insert pid i } := by
    simp [machine, System.step, hi]
  have haccepted : (machine k).step { s with previews := s.previews.insert pid i } (.retry r executionId) =
      some u := by
    have hi' : ({ s with previews := s.previews.insert pid i } : System).deletionImpact k = .ok i := hi
    have hfresh' : ({ s with previews := s.previews.insert pid i } : System).fresh executionId = true := hfresh
    have hguard : ¬ (r.confirmation ≠ k.aid ∨ i ≠ i ∨ i.lifecycle = .active) := by
      simp [r, hlifecycle, harchived]
    simp only [machine, System.step, hfresh', if_true, System.retry, hi', AList.lookup_insert, r]
    rw [if_neg hguard, hretry]
    simp [hidle, job', r, u]
  obtain ⟨hdelete, hreceipts, hlength⟩ := fresh_unasked hfresh .delete
  refine ⟨u, job', Worker.spawned job', ?_, ?_, rfl⟩
  · rw [(machine k).run_cons hpreview, (machine k).run_cons haccepted]
    rfl
  · have himpacts : (Worker.spawned job').impacts = i.serviceImpacts := rfl
    exact
      { found := by simp [System.job, Store.update, hfound, job', u]
        only := rfl
        deletes := ⟨hd.id, hd.kind, hd.target, hd.scope, hd.releaseId⟩
        works := ⟨hd.id, hd.kind, hd.target, hd.scope, hd.releaseId⟩
        execution := rfl
        length := hlength
        unstaged := hready.unstaged
        unresumed := (fresh_unasked hfresh .resume).1
        ahead := ⟨rfl, ⟨a, ha, harchived, by rw [himpacts, Impact.serviceImpacts, hcatalog]⟩,
          ⟨hready.unlinked, by rw [himpacts, Impact.serviceImpacts, hfiles], hreceipts⟩,
          ⟨hready.drained, hready.removable, by rw [himpacts, Impact.serviceImpacts, hsandbox], hdelete⟩,
          (fresh_unasked hfresh .quiesce).1⟩ }

/-- A call of the reconciliation that began last. -/
theorem reconcile_fine {l : List Reconciler} {t t' : Reconciler} {c : Call} {m : Manager} {r : Reply}
    (hl : s.reconcilers = l ++ [t]) (hc : t.call = some c)
    (hout : s.carryOut k .all c = ({ s with manager := m }, r)) (hreceive : t.receive r = t')
    (hpc : t'.pc ≠ .ended) :
    (machine k).step s (.reconcileWork l.length .fine) =
      some { s with manager := m, reconcilers := l ++ [t'] } := by
  simp [machine, System.step, System.reconcileWork, hl, hc, hout, hreceive, System.putReconciler, hpc]

/-- **A reconciliation** of a deletion whose agent is gone. -/
theorem reconcile_recovers (hs : s.Sound k job) (hstaged : s.manager.overrides.lookup k.aid = none)
    (hended : job.status.reconcilable = true) (habsent : s.present k = false) {requestId : String}
    (hnew : s.manager.commands.lookup (requestId ++ ActionName.resume.suffix) = none) :
    ∃ u, (machine k).run s (.reconcile requestId ::
      List.replicate 5 (.reconcileWork s.reconcilers.length .fine)) = some u ∧ u.Recovered k := by
  have hd := hs.deletes
  have hfound : s.store.jobs.lookup k.jid = some job := hs.found
  obtain ⟨hrows, hfiles⟩ := hs.gone habsent
  let t (pc : ReconcilePc) (result : Option JobResult) : Reconciler := ⟨job, requestId, pc, none, result⟩
  let u (t : Reconciler) : System := { s with reconcilers := s.reconcilers ++ [t] }
  have hstart : (machine k).step s (.reconcile requestId) = some (u (t .catalogImpact none)) := by
    have hne : job.status ≠ .succeeded := fun h => by simp [h, Status.reconcilable] at hended
    simp [machine, System.step, System.reconcile, Reconciler.begin, hfound, hne, hended,
      Reconciler.firstPc, hd.releaseId, hd.kind, Kind.isSandbox, refuse, bind, Except.bind, pure,
      Except.pure, t, u]
  have hcatalog : (machine k).step (u (t .catalogImpact none))
      (.reconcileWork s.reconcilers.length .fine) = some (u (t .sandboxImpact none)) := by
    have hnone : (s.catalog.store.data.agents.lookup job.target).isSome = false := by
      rw [hd.target]
      exact habsent
    exact reconcile_fine (m := s.manager) rfl rfl (carryOut_catalogImpact _)
      (by simp [hnone, Reconciler.receive, Reconciler.goto, t, u]) (by simp [t])
  have hsandboxes : (machine k).step (u (t .sandboxImpact none))
      (.reconcileWork s.reconcilers.length .fine) = some (u (t .filesImpact none)) :=
    reconcile_fine (m := s.manager) rfl rfl rfl
      (by simp [hrows, Reconciler.receive, Reconciler.goto, t, u]) (by simp [t])
  have hfilesImpact : (machine k).step (u (t .filesImpact none))
      (.reconcileWork s.reconcilers.length .fine) = some (u (t .resume (some .deleted))) :=
    reconcile_fine (m := s.manager) rfl rfl rfl
      (by simp [hfiles, agentImpact, AgentFiles.gone, AgentFiles.linked, Directory.linked,
        AgentFiles.entries, Directory.entries, Except.map, State.replyOf, Reconciler.receive, t, u])
      (by simp [t])
  obtain ⟨m, hout, -, -⟩ := carryOut_action (k := k) (s := u (t .resume (some .deleted))) job.target
    (.plain .resume (requestId ++ ActionName.resume.suffix)) rfl hnew
    (by simp only [perform, ActionBody.plain, Manager.perform]; rw [resume_ok (by exact hstaged)])
  have hresume : (machine k).step (u (t .resume (some .deleted)))
      (.reconcileWork s.reconcilers.length .fine) =
      some { u (t .finish (some .deleted)) with manager := m } :=
    reconcile_fine rfl rfl hout rfl (by simp)
  let v : System := { s with
    manager := m
    store := s.store.update job.id fun j =>
      { j with status := .succeeded, checkpoint := .complete, result := some .deleted, reconciled := true } }
  have hfinish : (machine k).step { u (t .finish (some .deleted)) with manager := m }
      (.reconcileWork s.reconcilers.length .fine) = some v := by
    simp [machine, System.step, System.reconcileWork, Reconciler.call, Reconciler.work, Reconciler.goto,
      System.putReconciler, List.eraseIdx_append_of_length_le, t, u, v]
  refine ⟨v, ?_, ⟨{ job with
    status := .succeeded, checkpoint := .complete, result := some .deleted, reconciled := true }, ?_, rfl⟩,
    habsent, ?_, hrows, hfiles⟩
  · rw [(machine k).run_cons hstart]
    simp only [List.replicate]
    rw [(machine k).run_cons hcatalog, (machine k).run_cons hsandboxes, (machine k).run_cons hfilesImpact,
      (machine k).run_cons hresume, (machine k).run_cons hfinish]
    rfl
  · simp [System.job, Store.update, hd.id, hfound, v]
  · exact hs.retired.trans (by rw [habsent]; rfl)

end Recovery

/-! ## §K Two histories -/

/-- What an operator does to recover a job, and the tasks that this starts, without a fault. -/
def Event.recovery : Event → Bool
  | .preview _ | .expire _ | .retry _ _ | .reconcile _ | .work _ .fine | .reconcileWork _ .fine => true
  | _ => false

instance (k : Setting) (s : System) : (e : Event) → Decidable (s.Orderly k e)
  | .retry _ _ => inferInstanceAs (Decidable (s.workers = []))
  | .traffic _ | .write _ => inferInstanceAs (Decidable (s.present k = true))
  | .work _ _ | .preview _ | .expire _ | .reconcile _ | .reconcileWork _ _ | .restart | .cancel | .others _
  | .edit _ | .manage _ => inferInstanceAs (Decidable True)

section Stuck

variable {k : Setting} {s t : System} {job : Job}

/-- A deletion of an empty agent that has ended badly, with nobody at work on it. -/
structure System.Stuck (k : Setting) (s : System) (job : Job) : Prop where
  found : s.job k = some job
  kind : job.kind = .agentDeleteEmpty
  new : job.retryRequestId = none
  releaseId : job.releaseId = none
  ended : job.status.reconcilable = true
  workers : s.workers = []
  reconcilers : s.reconcilers = []

/-- Both ways to recover a job are closed to it. -/
theorem System.Stuck.step (h : s.Stuck k job) {e : Event} (he : e.recovery = true)
    (hstep : (machine k).step s e = some t) : t.Stuck k job := by
  have hfound : s.store.jobs.lookup k.jid = some job := h.found
  cases e <;> simp only [machine, System.step] at hstep
  case preview pid =>
    split at hstep <;> obtain rfl := Option.some.inj hstep
    · exact ⟨h.found, h.kind, h.new, h.releaseId, h.ended, h.workers, h.reconcilers⟩
    · exact h
  case expire pid =>
    obtain rfl := Option.some.inj hstep
    exact ⟨h.found, h.kind, h.new, h.releaseId, h.ended, h.workers, h.reconcilers⟩
  case retry r executionId =>
    split at hstep
    · obtain rfl := Option.some.inj hstep
      suffices hsame : s.retry k r executionId = s by rw [hsame]; exact h
      unfold System.retry
      split
      · next impact _ _ =>
        split
        · rfl
        · have hrefused : ∃ e, s.store.retryDeletion k.jid (r.payload impact) executionId = .error e := by
            simp [Store.retryDeletion, hfound, h.new, h.kind, refuse, fail, bind, Except.bind]
          obtain ⟨e, he⟩ := hrefused
          rw [he]
      · rfl
    · exact absurd hstep (by simp)
  case reconcile requestId =>
    obtain rfl := Option.some.inj hstep
    suffices hsame : s.reconcile k requestId = s by rw [hsame]; exact h
    have hne : job.status ≠ .succeeded := fun hst => by
      have hended := h.ended
      simp [hst, Status.reconcilable] at hended
    have hrefused : ∃ e, Reconciler.begin s.store k.jid requestId = .error e := by
      simp [Reconciler.begin, hfound, hne, h.ended, Reconciler.firstPc, h.releaseId, h.kind, Kind.isSandbox,
        refuse, fail, bind, Except.bind]
    obtain ⟨e, he⟩ := hrefused
    simp only [System.reconcile, he]
  case work i x => simp [System.work, h.workers] at hstep
  case reconcileWork i x => simp [System.reconcileWork, h.reconcilers] at hstep
  all_goals simp [Event.recovery] at he

theorem System.Stuck.not_recovered (h : s.Stuck k job) : ¬ s.Recovered k := by
  rintro ⟨⟨job', hjob', hsucceeded⟩, -⟩
  obtain rfl : job = job' := Option.some.inj (h.found.symm.trans hjob')
  have hended := h.ended
  simp [hsucceeded, Status.reconcilable] at hended

theorem System.Stuck.run (h : s.Stuck k job) {es : List Event} (hes : ∀ e ∈ es, e.recovery = true)
    (hrun : (machine k).run s es = some t) : t.Stuck k job := by
  induction es generalizing s with
  | nil =>
    obtain rfl : s = t := by simpa using hrun
    exact h
  | cons e es ih =>
    obtain ⟨u, hstep, hrest⟩ := (machine k).run_cons_inv hrun
    exact ih (h.step (hes e List.mem_cons_self) hstep) (fun e' he' => hes e' (List.mem_cons_of_mem _ he')) hrest

end Stuck

section Runs

/-- Hashes that tell what is there from what is gone. -/
def plainSetting : Setting where
  env := ⟨plainHost, fun a _ => "catalog of " ++ a.id⟩
  hashSandboxes rows := if rows.isEmpty then "no sandboxes" else "sandboxes"
  hashFiles f := if f = .gone then "no files" else "files"
  hashFiles_ne f := by split <;> decide
  jid := "0123456789abcdef0123456789abcdef"
  aid := "a"
  aid_ne := by decide

/-- The job of a deletion, as it was submitted. -/
def plainJob (kind : Kind) (rows : List Sandbox) (files : AgentFiles) : Job :=
  Store.newJob plainSetting.jid "request-1" kind "a" "a"
    ⟨⟨some "request-1", none, none, some "preview-1", some "a", none, none, none⟩, false,
      some ⟨some "catalog of a", some (plainSetting.hashSandboxes rows), some (plainSetting.hashFiles files),
        some ⟨1, .archived, [], rows.map (·.username), (rows.map (·.sessions.length)).sum,
          files.entries.length, (files.entries.map (·.size)).sum⟩⟩⟩ none

/-- An archived agent, whose deletion has been submitted. -/
def deletable (kind : Kind) (rows : List Sandbox) (files : AgentFiles) : System where
  store := { Store.empty with
    jobs := (∅ : Dict String Job).insert plainSetting.jid (plainJob kind rows files) }
  previews := ∅
  workers := [Worker.spawned (plainJob kind rows files)]
  reconcilers := []
  catalog :=
    let initial := Service.initial "" ""
    { initial with store := { initial.store with data := { initial.store.data with
        agents := (∅ : Dict String Agent).insert "a" ⟨"a", plainAgent "m1" "", [], none, .archived⟩ } } }
  manager := Manager.initial
  sandboxes := ⟨rows, 0⟩
  files := files
  receipts := ∅

theorem deletable_submitted (kind : Kind) (rows : List Sandbox) (files : AgentFiles) :
    Submitted plainSetting kind (deletable kind rows files) where
  job := ⟨plainJob kind rows files, AList.lookup_insert _, rfl, rfl, rfl, rfl, rfl, rfl, rfl, rfl⟩
  reconcilers := rfl
  present := by simp only [System.present, System.agent, deletable]; decide +kernel
  retired := by simp only [System.retired, deletable]; decide +kernel
  fresh := by simp only [System.fresh, deletable]; decide +kernel

/-- An agent with one sandbox and one file. -/
def usedAgent : System :=
  deletable .agentDelete [⟨"u", some true, 0, true, ["session-1"]⟩]
    ⟨.present [⟨"notes.txt", 12, 0, false⟩], .absent⟩

/-- An agent that was never used. -/
def emptyAgent : System := deletable .agentDeleteEmpty [] .gone

/-- The manager removes what there is of sandboxes, and its answer is lost. -/
def lostDeletion : List Event :=
  List.replicate 2 (.work 0 .fine) ++ [.work 0 .fine, .work 0 .fine, .work 0 .fine, .work 0 (.lost .all false)] ++
    List.replicate 2 (.work 0 .fine)

/-- The facts that the recovery asks for, as a test. -/
def System.recoverable (k : Setting) (s : System) (requestId executionId : String) : Bool :=
  (s.job k).any (fun job => job.status.reconcilable && job.retryRequestId != some requestId) &&
    s.workers.isEmpty && (s.manager.overrides.lookup k.aid).isNone &&
    (s.agent k).all (·.lifecycle != .active) && !s.files.linked && s.sandboxes.drained &&
    s.sandboxes.rows.all (!·.refuses) && !s.store.heldByAnother k.jid k.aid && s.present k &&
    s.fresh executionId

theorem recoverable_iff {k : Setting} {s : System} {requestId executionId : String} :
    s.recoverable k requestId executionId = true →
      (∃ job, s.job k = some job ∧ job.status.reconcilable = true ∧ job.retryRequestId ≠ some requestId) ∧
        s.workers = [] ∧ s.Ready k ∧ s.present k = true ∧ s.fresh executionId = true := by
  intro h
  simp only [System.recoverable, Bool.and_eq_true, Option.any_eq_true, bne_iff_ne, ne_eq,
    List.isEmpty_iff, Option.isNone_iff_eq_none, Option.all_eq_true, Bool.not_eq_true', List.all_eq_true] at h
  obtain ⟨⟨⟨⟨⟨⟨⟨⟨⟨⟨job, hjob, hended, hnew⟩, hidle⟩, hstaged⟩, harchived⟩, hunlinked⟩, hdrained⟩,
    hrows⟩, hheld⟩, hpresent⟩, hfresh⟩ := h
  exact ⟨⟨job, hjob, hended, hnew⟩, hidle, ⟨hstaged, harchived, hunlinked, hdrained, hrows, hheld⟩, hpresent, hfresh⟩

end Runs

end OpencodeCloud.Platform.Deletions
