/-
# OpencodeCloud.Platform.Stopping -- stopping a sandbox while native requests come in

A `sandbox.stop` job calls the sandbox manager, and when the manager has answered it records in the
operations database that the sandbox is to be stopped. From then on the admission of the operations service
refuses to give the sandbox to a native request. A request asks for its admission under the lock of the
user, and the answer takes its time.

In between, when the manager has let go of the lock and the desired state is not recorded yet, the sandbox
is stopped and nothing keeps a request from starting it again: the job succeeds over a sandbox that runs
(`stopped_sandbox_runs_again`). **In a run of sound steps the sandbox stays stopped**
(`stopped_sandbox_stays_stopped`): without such a request, without a start that was abandoned earlier and
takes effect later, and when the action finds the container that runs.
-/
import OpencodeCloud.Operations.Tasks
import OpencodeCloud.Operations.Lease
import OpencodeCloud.Sandbox.Idle

namespace OpencodeCloud.Platform.Stopping

open OpencodeCloud.Library OpencodeCloud.Operations
open OpencodeCloud.Catalog (Result fail refuse)
open OpencodeCloud.Sandbox.Backend (Owner SandboxStage SandboxRecord Outcome Effect)

/-! ## Admission -/

/-- `LoadTests.resources_for`: the test of a load-test user. -/
def resourcesFor (s : Store) (aid username : String) : Result (Option String) :=
  if "loadtest-".toList.isPrefixOf username.toList then
    match s.loadTestUsers.lookup username with
    | some u =>
      if u.agentId = aid ∧ u.state = .retained then .ok (some u.runId)
      else fail 409 "Load-test user is unavailable or being cleaned up"
    | none => fail 409 "Load-test user is unavailable or being cleaned up"
  else .ok none

/-- A job that is under way on an Agent, or on every one. -/
def active (aid : String) (j : Job) : Bool :=
  (j.scope == aid || j.scope == everyAgent) && j.status.leaseHolding

/-- `GET /internal/v1/admission`; `sandboxId` is the sandbox id of a user. -/
def admission (sandboxId : Owner → String) (s : Store) (o : Owner) : Result (Option String) := do
  refuse (s.jobs.any fun _ j =>
      active o.1 j && (j.status == .needsRecovery || j.status == .interrupted)) 409
    "An interrupted operation requires reconciliation before execution"
  refuse (s.jobs.any fun _ j => active o.1 j &&
      (j.kind == .agentDelete || j.kind == .agentDeleteEmpty || j.kind == .agentArchive)) 409
    "Agent lifecycle operation pending"
  refuse (s.desired.lookup (sandboxId o) == some .stopped && !(s.jobs.any fun _ j => active o.1 j &&
      (j.target == sandboxId o && (j.kind == .sandboxStart || j.kind == .sandboxRestart)))) 409
    "Sandbox was stopped manually; start it in sandbox management"
  resourcesFor s o.1 o.2

/-! ## The machine -/

structure State where
  store : Store
  /-- the worker of the stop job -/
  worker : Option Worker
  manager : Sandbox.Backend.State
  /-- the task of the manager that carries out the action of the job -/
  action : Option Nat
  /-- admissions on their way to the tasks that have asked for them, with the load test of the user -/
  admitted : List (Nat × Option String)
  /-- history: a job that may start the sandbox again was submitted -/
  reopened : Bool

inductive Event
  | submit (jid fallback : String) (payload : Payload) (before : Option SandboxBefore)
  | reopen (kind : Kind) (jid fallback : String) (payload : Payload) (before : Option SandboxBefore)
  /-- one write of the worker -/
  | work (raises : Bool)
  /-- the request of the worker reaches the manager -/
  | call
  /-- the worker gets an answer, or none -/
  | reply (answer : Reply)
  /-- the worker is cancelled while it awaits the answer -/
  | stop
  | cancel (jid : String)
  /-- the operations service ends and starts again -/
  | restart
  /-- the operations service admits the task `i` of the manager -/
  | accept (i : Nat)
  /-- a native request arrives, a task of the manager goes on, or its surroundings change -/
  | manage (e : Sandbox.Backend.Event)

/-- The jobs after which a sandbox may run again. -/
def reopens : Kind → Bool
  | .sandboxStart | .sandboxRestart | .sandboxDestroy => true
  | _ => false

/-- The user for whom a task of the manager asks for admission. -/
def asks : Sandbox.Backend.Task → Option Owner
  | .request o _ .admission | .request o _ (.acquiring (.admission _)) => some o
  | _ => none

/-- What the manager does besides the action: native requests, and what happens around them. A container
may come to its end by itself, but none is started: its restart policy is `no`. -/
def native : Sandbox.Backend.Event → Bool
  | .sandboxAction _ _ _ | .agentAction _ | .cleanup _ _ => false
  | .container _ status => status != .running
  | _ => true

/-- The call was answered with success. -/
def acknowledges : Reply → Bool
  | .ok _ => true
  | _ => false

namespace State

def initial (image : String) : State :=
  ⟨Store.empty, none, Sandbox.Backend.State.initial image, none, [], false⟩

/-- The action has come to its end with success. -/
def halted (s : State) : Bool :=
  s.action.any fun k =>
    match s.manager.tasks[k]? with
    | some (.sandbox _ _ _ (.over true)) => true
    | _ => false

/-- The worker that is spawned when the service starts: that of the job, if it was still queued. -/
def respawned (store : Store) : Option Worker :=
  ((store.jobs.entries.map (·.2)).find? fun j => j.kind == .sandboxStop && j.status == .queued).map
    Worker.spawned

section Step

variable (sandboxId : Owner → String) (o : Owner)

/-- Submit a job on the sandbox. -/
def submit (s : State) (kind : Kind) (jid fallback : String) (payload : Payload)
    (before : Option SandboxBefore) : Result (Store × Job × Bool) :=
  if jid ∈ s.store.jobs then fail 409 "Job exists"
  else s.store.submit jid fallback kind (sandboxId o) o.1 payload before

/-- A task of the manager goes on: it is admitted only by the operations service. -/
def admits (s : State) : Sandbox.Backend.Event → Bool
  | .step i (.resources l) => s.admitted.contains (i, l)
  | _ => true

/-- The admissions that are still on their way. -/
def pending (s : State) : Sandbox.Backend.Event → List (Nat × Option String)
  | .step i _ => s.admitted.filter (·.1 != i)
  | _ => s.admitted

def step (s : State) : Event → Option State
  | .submit jid fallback payload before =>
    -- there is one stop job
    if s.store.jobs.any fun _ j => j.kind == .sandboxStop then none
    else
      match submit sandboxId o s .sandboxStop jid fallback payload before with
      | .ok (store, job, true) => some { s with store := store, worker := some (Worker.spawned job) }
      | _ => some s
  | .reopen kind jid fallback payload before =>
    if reopens kind then
      match submit sandboxId o s kind jid fallback payload before with
      | .ok (store, _, true) => some { s with store := store, reopened := true }
      | _ => some s
    else none
  | .work raises => do
    let w ← s.worker
    if w.call.isSome ∨ w.pc = .ended then none
    else some { s with store := (w.work s.store raises).1, worker := some (w.work s.store raises).2 }
  | .call => do
    let w ← s.worker
    if w.pc = .sandboxAction ∧ s.action = none then
      let manager ← s.manager.step (.sandboxAction o .stop w.job.payload.force)
      return { s with manager := manager, action := some s.manager.tasks.length }
    else none
  | .reply answer => do
    let w ← s.worker
    -- the action is the only call of the job
    if w.pc = .sandboxAction ∧ (acknowledges answer = true → s.halted = true) then
      some { s with worker := some (w.receive answer) }
    else none
  | .stop => do
    let w ← s.worker
    if w.call.isSome then some { s with worker := some (w.raise .cancelled) } else none
  | .cancel jid =>
    match s.store.transition jid Status.cancellable fun j => { j with status := .cancelled } with
    | .ok store => some { s with store := store }
    | .error _ => some s
  | .restart => some { s with store := s.store.restart, worker := respawned s.store.restart }
  | .accept i => do
    let o' ← (s.manager.tasks[i]?).bind asks
    match admission sandboxId s.store o' with
    | .ok l => return { s with admitted := (i, l) :: s.admitted }
    | .error _ => none
  | .manage e =>
    if native e ∧ admits s e then do
      let manager ← s.manager.step e
      return { s with manager := manager, admitted := pending s e }
    else none

end Step

end State

/-- One sandbox, its stop job, and native requests. -/
def stopping (sandboxId : Owner → String) (o : Owner) : Machine State Event :=
  ⟨State.step sandboxId o⟩

/-! ## The property and the condition -/

/-- The container of the user runs. -/
def runs (m : Sandbox.Backend.State) (o : Owner) : Bool :=
  (m.world.docker.lookup o).any (·.status == .running)

/-- A step of the action after which it may end without a look at the container that runs: the record
that it acts on has the id of another one, or none. -/
def overlooks (m : Sandbox.Backend.State) (o : Owner) (force : Bool) :
    Sandbox.Backend.SandboxStage → Bool
  | .lock => force && (m.world.sandboxes.lookup o).any (·.containerId.isNone) && runs m o
  | .inspect r | .inspectById r _ | .findById r _ | .findByName r | .sessions r =>
    force && r.containerId.isNone && runs m o
  | .statuses r _ => r.containerId.isNone && runs m o
  | .container _ id => (m.world.docker.lookup o).any fun c => c.status == .running && c.id != id
  | _ => false

/-- An abandoned call would start the container. -/
def revives (m : Sandbox.Backend.State) (o : Owner) (k : Nat) : Bool :=
  match m.late[k]? with
  | some (.start o' id) => o' == o && (m.world.find o id).isSome
  | _ => false

namespace State

/-- The stop job has succeeded. -/
def succeeded (sandboxId : Owner → String) (o : Owner) (s : State) : Bool :=
  s.store.jobs.any fun _ j => j.kind == .sandboxStop && j.target == sandboxId o && j.status == .succeeded

/-- **The sandbox stays stopped**: once the job has succeeded, and until another one is submitted that may
start it, no container runs, and nothing that can happen is an acquisition that succeeds. -/
def StaysStopped (sandboxId : Owner → String) (o : Owner) (s : State) : Prop :=
  s.succeeded sandboxId o = true → s.reopened = false →
    runs s.manager o = false ∧ ∀ e, s.manager.grants e ≠ some o

/-- **A sound step**: no request for the sandbox is admitted between the end of the action and the record
of the desired state, no abandoned call starts the container after the end of the action, and the action
does not overlook a container that runs. -/
def Sound (sandboxId : Owner → String) (o : Owner) (s : State) : Event → Prop
  | .accept i =>
    s.halted = true → s.reopened = false → s.succeeded sandboxId o = false →
      (s.manager.tasks[i]?).bind asks = some o → s.store.desired.lookup (sandboxId o) = some .stopped
  | .manage (.late k) => s.halted = true → s.reopened = false → revives s.manager o k = false
  | .manage (.step i _) =>
    s.action = some i →
      match s.manager.tasks[i]? with
      | some (.sandbox _ _ force stage) => overlooks s.manager o force stage = false
      | _ => True
  | _ => True

instance (sandboxId : Owner → String) (o : Owner) (s : State) (e : Event) :
    Decidable (s.Sound sandboxId o e) := by
  cases e with
  | accept i => exact inferInstanceAs (Decidable (_ → _))
  | manage e =>
    cases e with
    | late k => exact inferInstanceAs (Decidable (_ → _))
    | step i x =>
      simp only [Sound]
      split <;> infer_instance
    | _ => exact isTrue trivial
  | _ => exact isTrue trivial

end State

/-! ## The worker of the job -/

theorem update_succeeded {s : Store} {jid : String} {f : Job → Job} {i : String} {j' : Job}
    (h : (s.update jid f).jobs.lookup i = some j') (hs : j'.status = .succeeded)
    (hidentity : ∀ j : Job, j.SameIdentity (f j))
    (hf : ∀ j, (f j).status = .succeeded → j.status = .succeeded) :
    ∃ j, s.jobs.lookup i = some j ∧ j.SameIdentity j' ∧ j.status = .succeeded := by
  rcases Dict.lookup_modify_cases h with ⟨rfl, j, hj, rfl⟩ | ⟨-, hold⟩
  · exact ⟨j, hj, hidentity j, hf j hs⟩
  · exact ⟨j', hold, .refl j', hs⟩

theorem checkpoint_succeeded {s : Store} {w next : Worker} {f : Job → Job} {i : String} {j' : Job}
    (h : (w.checkpoint s f next).1.jobs.lookup i = some j') (hs : j'.status = .succeeded)
    (hidentity : ∀ j : Job, j.SameIdentity (f j))
    (hf : ∀ j, (f j).status = .succeeded → j.status = .succeeded) :
    ∃ j, s.jobs.lookup i = some j ∧ j.SameIdentity j' ∧ j.status = .succeeded := by
  unfold Worker.checkpoint at h
  split at h
  next hok =>
    obtain ⟨j, -, -, rfl⟩ := Store.transition_eq_ok.mp hok
    exact update_succeeded h hs hidentity hf
  next => split at h <;> exact ⟨j', h, .refl j', hs⟩

/-- **A job succeeds by the last write of its worker only.** -/
theorem work_succeeded {s : Store} {w : Worker} {raises : Bool} {i : String} {j' : Job}
    (h : (w.work s raises).1.jobs.lookup i = some j') (hs : j'.status = .succeeded) :
    w.pc = .finish ∨ ∃ j, s.jobs.lookup i = some j ∧ j.SameIdentity j' ∧ j.status = .succeeded := by
  have hsame : s.jobs.lookup i = some j' →
      ∃ j, s.jobs.lookup i = some j ∧ j.SameIdentity j' ∧ j.status = .succeeded :=
    fun h => ⟨j', h, .refl j', hs⟩
  cases raises with
  | true => exact .inr (hsame h)
  | false =>
    cases hpc : w.pc with
    | start | quiesceMark | applyMark =>
      simp only [Worker.work, hpc, Bool.false_eq_true, if_false] at h
      exact .inr (checkpoint_succeeded h hs (fun _ => ⟨rfl, rfl, rfl, rfl⟩) (fun _ hf => by cases hf))
    | validateMark | verifyMark | commitMark =>
      simp only [Worker.work, hpc, Bool.false_eq_true, if_false] at h
      exact .inr (checkpoint_succeeded h hs (fun _ => ⟨rfl, rfl, rfl, rfl⟩) (fun _ hf => hf))
    | sandboxDeletedMark | filesDeletedMark =>
      simp only [Worker.work, hpc, Bool.false_eq_true, if_false] at h
      exact .inr (update_succeeded h hs (fun _ => ⟨rfl, rfl, rfl, rfl⟩) (fun _ hf => hf))
    | finish => exact .inl rfl
    | desiredMark | stopped | leave =>
      simp only [Worker.work, hpc, Bool.false_eq_true, if_false] at h
      split at h <;> exact .inr (hsame h)
    | stoppedMark =>
      simp only [Worker.work, hpc, Bool.false_eq_true, if_false] at h
      refine .inr (update_succeeded h hs (fun _ => ⟨rfl, rfl, rfl, rfl⟩) (fun _ hf => ?_))
      simp only [Worker.stoppedStatus] at hf
      split at hf <;> cases hf
    | settle exc =>
      simp only [Worker.work, hpc, Bool.false_eq_true, if_false] at h
      refine .inr (update_succeeded h hs (fun _ => ⟨rfl, rfl, rfl, rfl⟩) (fun _ hf => ?_))
      simp only [Worker.settledStatus] at hf
      split at hf <;> cases hf
    | resumeFailed =>
      simp only [Worker.work, hpc, Bool.false_eq_true, if_false] at h
      exact .inr (update_succeeded h hs (fun _ => ⟨rfl, rfl, rfl, rfl⟩) (fun _ hf => by cases hf))
    | _ =>
      simp only [Worker.work, hpc, Bool.false_eq_true, if_false] at h
      exact .inr (hsame h)

/-- The statements after the answer of the manager, to the last write. -/
def concludes : Pc → Bool
  | .desiredMark | .finish => true
  | _ => false

theorem raise_concludes (w : Worker) (exc : Exc) : concludes (w.raise exc).pc = false := by
  obtain ⟨pc, h, hpc⟩ := w.raise_eq exc
  rw [h]
  cases pc <;> first | rfl | cases hpc

theorem checkpoint_concludes {s : Store} {w next : Worker} {f : Job → Job}
    (h : concludes next.pc = false) : concludes (w.checkpoint s f next).2.pc = false := by
  rcases Worker.checkpoint_snd s w f next with hn | ⟨exc, hr⟩
  · rwa [hn]
  · rw [hr]
    exact raise_concludes w exc

/-- **What a write does** to the desired states, and when a worker comes to its last one: after the desired
state is recorded. -/
theorem work_desired (s : Store) (w : Worker) (raises : Bool) :
    ((w.work s raises).1.desired = s.desired ∧ concludes (w.work s raises).2.pc = false) ∨
      w.pc = .desiredMark ∧ (w.work s raises).2.pc = .finish ∧
        ∀ d, Worker.desiredState w.job.kind = some d →
          (w.work s raises).1.desired = s.desired.insert w.job.target d := by
  have hcheckpoint : ∀ f next, concludes next.pc = false →
      (w.checkpoint s f next).1.desired = s.desired ∧
        concludes (w.checkpoint s f next).2.pc = false := by
    intro f next hnext
    refine ⟨?_, checkpoint_concludes hnext⟩
    unfold Worker.checkpoint
    split
    next hok =>
      obtain ⟨j, -, -, rfl⟩ := Store.transition_eq_ok.mp hok
      rfl
    next => split <;> rfl
  cases raises with
  | true => exact .inl ⟨rfl, raise_concludes w _⟩
  | false =>
    cases hpc : w.pc with
    | start =>
      simp only [Worker.work, hpc, Bool.false_eq_true, if_false]
      refine .inl (hcheckpoint _ _ ?_)
      obtain ⟨pc, h, rfl | rfl | rfl | rfl⟩ := w.afterStart_eq <;> rw [h] <;> rfl
    | applyMark =>
      simp only [Worker.work, hpc, Bool.false_eq_true, if_false]
      refine .inl (hcheckpoint _ _ ?_)
      obtain ⟨pc, h, rfl | rfl | rfl | rfl | rfl⟩ := w.afterApplyMark_eq <;> rw [h] <;> rfl
    | validateMark | quiesceMark | verifyMark | commitMark =>
      simp only [Worker.work, hpc, Bool.false_eq_true, if_false]
      exact .inl (hcheckpoint _ _ rfl)
    | desiredMark =>
      simp only [Worker.work, hpc, Bool.false_eq_true, if_false]
      split
      next d hd => exact .inr ⟨trivial, rfl, fun d' hd' => by rw [← Option.some.inj (hd.symm.trans hd')]⟩
      next hd => exact .inr ⟨trivial, rfl, fun d' hd' => by rw [hd] at hd'; cases hd'⟩
    | stopped | leave =>
      simp only [Worker.work, hpc, Bool.false_eq_true, if_false]
      split <;> exact .inl ⟨rfl, rfl⟩
    | sandboxDeletedMark | filesDeletedMark | finish | stoppedMark | settle | resumeFailed =>
      simp only [Worker.work, hpc, Bool.false_eq_true, if_false]
      exact .inl ⟨rfl, rfl⟩
    | _ =>
      simp only [Worker.work, hpc, Bool.false_eq_true, if_false]
      exact .inl ⟨trivial, rfl⟩

theorem callFailed_concludes (w : Worker) (answer : Reply) :
    concludes (w.callFailed answer).pc = false := by
  unfold Worker.callFailed
  split <;> exact raise_concludes w _

/-- **What an answer does**: only a success brings the worker to the end of its job, where it records the
desired state first. -/
theorem receive_concludes {w : Worker} {answer : Reply} (hkind : w.job.kind = .sandboxStop)
    (hpc : w.pc = .sandboxAction) :
    (acknowledges answer = true ∧ (w.receive answer).pc = .desiredMark) ∨
      concludes (w.receive answer).pc = false := by
  unfold Worker.receive
  rw [hpc]
  cases answer with
  | ok a => exact .inl ⟨rfl, by simp [Worker.afterBody, hkind, Worker.desiredState, Worker.goto]⟩
  | _ => exact .inr (callFailed_concludes w _)

/-! ## What a step does -/

theorem submit_created {sandboxId : Owner → String} {o : Owner} {s : State} {kind : Kind}
    {jid fallback : String} {payload : Payload} {before : Option SandboxBefore} {store : Store} {job : Job}
    (h : s.submit sandboxId o kind jid fallback payload before = .ok (store, job, true)) :
    job.kind = kind ∧ job.target = sandboxId o ∧ job.status = .queued ∧
      store = { s.store with jobs := s.store.jobs.insert jid job } := by
  unfold State.submit at h
  split at h
  · cases h
  · rcases Store.submit_eq_ok h with ⟨hfalse, -⟩ | ⟨-, -, -, rfl, rfl⟩
    · cases hfalse
    · exact ⟨rfl, rfl, rfl, rfl⟩

/-- **Everything that a step can be.** -/
inductive Moves (sandboxId : Owner → String) (o : Owner) (s : State) : Event → State → Prop
  | nothing (e) : Moves sandboxId o s e s
  | submitted {jid fallback payload before job} : job.kind = .sandboxStop → job.target = sandboxId o →
      job.status = .queued → Moves sandboxId o s (.submit jid fallback payload before)
        { s with
          store := { s.store with jobs := s.store.jobs.insert jid job }
          worker := some (Worker.spawned job) }
  | reopened {kind jid fallback payload before job} : job.kind = kind → job.target = sandboxId o →
      job.status = .queued → reopens kind = true →
      Moves sandboxId o s (.reopen kind jid fallback payload before)
        { s with
          store := { s.store with jobs := s.store.jobs.insert jid job }
          reopened := true }
  | worked {w : Worker} (raises) : s.worker = some w → Moves sandboxId o s (.work raises)
      { s with store := (w.work s.store raises).1, worker := some (w.work s.store raises).2 }
  | called {force} : s.action = none → Moves sandboxId o s .call
      { s with
        manager := { s.manager with tasks := s.manager.tasks ++ [.sandbox o .stop force .lock] }
        action := some s.manager.tasks.length }
  | answered {w : Worker} {answer} : s.worker = some w → w.pc = .sandboxAction →
      (acknowledges answer = true → s.halted = true) →
      Moves sandboxId o s (.reply answer) { s with worker := some (w.receive answer) }
  | stopped {w : Worker} : s.worker = some w →
      Moves sandboxId o s .stop { s with worker := some (w.raise .cancelled) }
  | cancelled (jid) : Moves sandboxId o s (.cancel jid)
      { s with store := s.store.update jid fun j => { j with status := .cancelled } }
  | restarted : Moves sandboxId o s .restart
      { s with store := s.store.restart, worker := State.respawned s.store.restart }
  | admitted {i : Nat} {t : Sandbox.Backend.Task} {o' : Owner} {l} : s.manager.tasks[i]? = some t →
      asks t = some o' → admission sandboxId s.store o' = .ok l →
      Moves sandboxId o s (.accept i) { s with admitted := (i, l) :: s.admitted }
  | managed {e : Sandbox.Backend.Event} {m} : native e = true → s.admits e = true →
      s.manager.step e = some m →
      Moves sandboxId o s (.manage e) { s with manager := m, admitted := s.pending e }

variable {sandboxId : Owner → String} {o : Owner} {s s' : State} {e : Event}

theorem step_moves (h : s.step sandboxId o e = some s') : Moves sandboxId o s e s' := by
  cases e with
  | submit jid fallback payload before =>
    simp only [State.step] at h
    split at h
    · cases h
    · split at h
      next hcreated =>
        obtain rfl := Option.some.inj h
        obtain ⟨hkind, htarget, hstatus, rfl⟩ := submit_created hcreated
        exact .submitted hkind htarget hstatus
      next =>
        obtain rfl := Option.some.inj h
        exact .nothing _
  | reopen kind jid fallback payload before =>
    simp only [State.step] at h
    split at h
    next hreopens =>
      split at h
      next hcreated =>
        obtain rfl := Option.some.inj h
        obtain ⟨hkind, htarget, hstatus, rfl⟩ := submit_created hcreated
        exact .reopened hkind htarget hstatus hreopens
      next =>
        obtain rfl := Option.some.inj h
        exact .nothing _
    next => cases h
  | work raises =>
    simp only [State.step, Option.bind_eq_bind, Option.bind_eq_some_iff] at h
    obtain ⟨w, hw, h⟩ := h
    split at h
    · cases h
    · obtain rfl := Option.some.inj h
      exact .worked raises hw
  | call =>
    simp only [State.step, Option.bind_eq_bind, Option.bind_eq_some_iff] at h
    obtain ⟨w, hw, h⟩ := h
    split at h
    next hguard =>
      simp only [Sandbox.Backend.State.step, Option.bind_some, Option.pure_def] at h
      obtain rfl := Option.some.inj h
      exact .called hguard.2
    next => cases h
  | reply answer =>
    simp only [State.step, Option.bind_eq_bind, Option.bind_eq_some_iff] at h
    obtain ⟨w, hw, h⟩ := h
    split at h
    next hguard =>
      obtain rfl := Option.some.inj h
      exact .answered hw hguard.1 hguard.2
    next => cases h
  | stop =>
    simp only [State.step, Option.bind_eq_bind, Option.bind_eq_some_iff] at h
    obtain ⟨w, hw, h⟩ := h
    split at h
    · obtain rfl := Option.some.inj h
      exact .stopped hw
    · cases h
  | cancel jid =>
    simp only [State.step] at h
    split at h
    next hok =>
      obtain rfl := Option.some.inj h
      obtain ⟨j, -, -, rfl⟩ := Store.transition_eq_ok.mp hok
      exact .cancelled jid
    next =>
      obtain rfl := Option.some.inj h
      exact .nothing _
  | restart =>
    obtain rfl := Option.some.inj h
    exact .restarted
  | accept i =>
    simp only [State.step, Option.bind_eq_bind, Option.bind_eq_some_iff] at h
    obtain ⟨o', ⟨t, ht, hasks⟩, h⟩ := h
    split at h
    next hadmitted =>
      obtain rfl := Option.some.inj h
      exact .admitted ht hasks hadmitted
    next => cases h
  | manage e =>
    simp only [State.step] at h
    split at h
    next hguard =>
      simp only [Option.bind_eq_bind, Option.bind_eq_some_iff] at h
      obtain ⟨m, hm, h⟩ := h
      obtain rfl := Option.some.inj h
      exact .managed hguard.1 hguard.2 hm
    next => cases h

/-! ## The jobs and their worker -/

/-- All jobs are ours: a stop job is on the sandbox, its worker too, and no job of another kind is there
until one is submitted. -/
structure Ours (sandboxId : Owner → String) (o : Owner) (s : State) : Prop where
  kind : s.reopened = false → ∀ jid j, s.store.jobs.lookup jid = some j → j.kind = .sandboxStop
  target : ∀ jid j, s.store.jobs.lookup jid = some j → j.kind = .sandboxStop → j.target = sandboxId o
  worker : ∀ w, s.worker = some w → w.job.kind = .sandboxStop ∧ w.job.target = sandboxId o

theorem Ours.initial (image : String) : Ours sandboxId o (State.initial image) := by
  constructor
  · intro _ jid j hj
    simp [State.initial, Store.empty] at hj
  · intro jid j hj
    simp [State.initial, Store.empty] at hj
  · intro w hw
    cases hw

theorem rewrites_origin {store store' : Store} {jid : String} {f : Job → Job}
    (hrewrites : Store.Rewrites store store' jid f) (hidentity : ∀ j : Job, j.SameIdentity (f j))
    (i : String) (j' : Job) (hj' : store'.jobs.lookup i = some j') :
    ∃ j, store.jobs.lookup i = some j ∧ j.SameIdentity j' := by
  rw [hrewrites i] at hj'
  split at hj'
  next hi =>
    obtain ⟨j, hj, rfl⟩ := Option.map_eq_some_iff.mp hj'
    exact ⟨j, hi ▸ hj, hidentity j⟩
  next => exact ⟨j', hj', .refl j'⟩

theorem restart_origin {store : Store} (i : String) (j' : Job)
    (hj' : store.restart.jobs.lookup i = some j') :
    ∃ j, store.jobs.lookup i = some j ∧ j.SameIdentity j' := by
  simp only [Store.restart, Dict.lookup_mapValues, Option.map_eq_some_iff] at hj'
  obtain ⟨j, hj, rfl⟩ := hj'
  refine ⟨j, hj, ?_⟩
  unfold Store.restarted
  split <;> exact ⟨rfl, rfl, rfl, rfl⟩

/-- Jobs that keep their identity stay ours. -/
theorem Ours.kept (h : Ours sandboxId o s) {store : Store} {worker : Option Worker}
    (hold : ∀ i j', store.jobs.lookup i = some j' →
      ∃ j, s.store.jobs.lookup i = some j ∧ j.SameIdentity j')
    (hworker : ∀ w, worker = some w → w.job.kind = .sandboxStop ∧ w.job.target = sandboxId o) :
    Ours sandboxId o { s with store := store, worker := worker } := by
  constructor
  · intro hreopened i j' hj'
    obtain ⟨j, hj, -, hkind, -⟩ := hold i j' hj'
    exact hkind.trans (h.kind hreopened i j hj)
  · intro i j' hj' hstop
    obtain ⟨j, hj, -, hkind, htarget, -⟩ := hold i j' hj'
    exact htarget.trans (h.target i j hj (hkind.symm.trans hstop))
  · exact hworker

/-- A job that has just been submitted is ours. -/
theorem Ours.insert (h : Ours sandboxId o s) {jid : String} {job : Job} {worker : Option Worker}
    {reopened : Bool} (hkind : reopened = false → s.reopened = false ∧ job.kind = .sandboxStop)
    (htarget : job.target = sandboxId o)
    (hworker : ∀ w, worker = some w → w.job.kind = .sandboxStop ∧ w.job.target = sandboxId o) :
    Ours sandboxId o
      { s with
        store := { s.store with jobs := s.store.jobs.insert jid job }
        worker := worker
        reopened := reopened } := by
  constructor
  · intro hreopened i j hj
    rcases Dict.lookup_insert_cases hj with ⟨-, rfl⟩ | ⟨-, hold⟩
    · exact (hkind hreopened).2
    · exact h.kind (hkind hreopened).1 i j hold
  · intro i j hj hstop
    rcases Dict.lookup_insert_cases hj with ⟨-, rfl⟩ | ⟨-, hold⟩
    · exact htarget
    · exact h.target i j hold hstop
  · exact hworker

/-- A worker that is spawned again is ours. -/
theorem Ours.respawned (h : Ours sandboxId o s) {w : Worker}
    (hw : State.respawned s.store.restart = some w) :
    w.job.kind = .sandboxStop ∧ w.job.target = sandboxId o := by
  obtain ⟨j', hj', rfl⟩ := Option.map_eq_some_iff.mp hw
  obtain ⟨e, he, rfl⟩ := List.mem_map.mp (List.mem_of_find?_eq_some hj')
  have hstop := List.find?_some hj'
  simp only [Bool.and_eq_true, beq_iff_eq] at hstop
  obtain ⟨j, hj, -, hkind, htarget, -⟩ := restart_origin e.1 e.2 (Dict.mem_entries_iff.mp he)
  exact ⟨hstop.1, htarget.trans (h.target e.1 j hj (hkind.symm.trans hstop.1))⟩

/-- **The jobs stay ours.** -/
theorem Ours.step (h : Ours sandboxId o s) (hstep : Moves sandboxId o s e s') :
    Ours sandboxId o s' := by
  cases hstep with
  | nothing => exact h
  | submitted hkind htarget hstatus =>
    refine h.insert (fun hreopened => ⟨hreopened, hkind⟩) htarget fun w hw => ?_
    obtain rfl := Option.some.inj hw
    exact ⟨hkind, htarget⟩
  | reopened hkind htarget hstatus hreopens =>
    exact h.insert (fun hreopened => by cases hreopened) htarget h.worker
  | worked raises hw =>
    obtain ⟨f, hrewrites, hidentity, -⟩ := Worker.work_writes s.store _ raises
    refine h.kept (rewrites_origin hrewrites hidentity) fun w' hw' => ?_
    obtain rfl := Option.some.inj hw'
    rw [(Worker.work_keeps s.store _ raises).job]
    exact h.worker _ hw
  | called hidle => exact ⟨h.kind, h.target, h.worker⟩
  | answered hw hpc hanswer =>
    refine ⟨h.kind, h.target, fun w' hw' => ?_⟩
    obtain rfl := Option.some.inj hw'
    rw [(Worker.receive_keeps _ _).job]
    exact h.worker _ hw
  | stopped hw =>
    refine ⟨h.kind, h.target, fun w' hw' => ?_⟩
    obtain rfl := Option.some.inj hw'
    rw [(Worker.Keeps.raise false _ _).job]
    exact h.worker _ hw
  | cancelled jid =>
    exact h.kept (rewrites_origin (Store.update_rewrites s.store jid fun j => { j with status := .cancelled })
      fun _ => ⟨rfl, rfl, rfl, rfl⟩) h.worker
  | restarted => exact h.kept restart_origin fun w hw => h.respawned hw
  | admitted => exact ⟨h.kind, h.target, h.worker⟩
  | managed => exact ⟨h.kind, h.target, h.worker⟩

/-! ## The action and the requests -/

/-- The stages that a stop comes to. -/
def ofStop : SandboxStage → Bool
  | .admission _ | .destroyById _ _ | .destroyByName _ | .removing _ _ | .acquiring _ => false
  | _ => true

section Stop

variable {m : Sandbox.Backend.State} {force : Bool} {r : SandboxRecord}

theorem findContainer_ofStop : ofStop (Sandbox.Backend.findContainer o .stop r).1 = true := by
  unfold Sandbox.Backend.findContainer
  split
  · rfl
  next h => cases h
  · rfl

theorem act_ofStop (c : Option Sandbox.Backend.Container) :
    ofStop (Sandbox.Backend.act o .stop r c).1 = true := by
  cases c <;> rfl

theorem actOn_ofStop (c : Sandbox.Backend.Container) :
    ofStop (Sandbox.Backend.actOn m o .stop r c).1 = true := by
  unfold Sandbox.Backend.actOn
  split
  · exact act_ofStop (some c)
  · rfl

theorem decideAction_ofStop (x : Sandbox.Backend.Observation) :
    ofStop (Sandbox.Backend.decideAction m o .stop force r x).1 = true := by
  unfold Sandbox.Backend.decideAction
  split
  · rfl
  · exact findContainer_ofStop

theorem findExisting_ofStop : ofStop (Sandbox.Backend.findExisting r) = true := by
  unfold Sandbox.Backend.findExisting
  split <;> rfl

theorem beginExecution_ofStop : ofStop (Sandbox.Backend.beginExecution m o .stop force r).1 = true := by
  unfold Sandbox.Backend.beginExecution
  split
  · exact decideAction_ofStop .busy
  · rfl

/-- A stop goes on as one. -/
theorem advance_ofStop {stage : SandboxStage} {x : Outcome} {n : SandboxStage × List Effect}
    (h : Sandbox.Backend.advanceSandbox m o .stop force stage x = some n) (hstage : ofStop stage = true) :
    ofStop n.1 = true := by
  unfold Sandbox.Backend.advanceSandbox at h
  dsimp only at h
  split at h
  all_goals repeat' split at h
  all_goals first
    | contradiction
    | (obtain rfl := Option.some.inj h
       first
        | rfl
        | exact findExisting_ofStop
        | exact decideAction_ofStop _
        | exact beginExecution_ofStop
        | exact actOn_ofStop _)

/-- A record that names no container is all a stop needs to be done with it. -/
theorem findContainer_over (h : (Sandbox.Backend.findContainer o .stop r).1 = .over true) :
    r.containerId = none := by
  unfold Sandbox.Backend.findContainer at h
  split at h
  · cases h
  next hname => cases hname
  next hnone _ => exact hnone

theorem decideAction_over {x : Sandbox.Backend.Observation}
    (h : (Sandbox.Backend.decideAction m o .stop force r x).1 = .over true) :
    r.containerId = none ∧ (force = true ∨ x = .idle) := by
  unfold Sandbox.Backend.decideAction at h
  split at h
  · cases h
  next hgo =>
    refine ⟨findContainer_over h, ?_⟩
    by_cases hforce : force = true
    · exact .inl hforce
    · refine .inr (by_contra fun hx => hgo ⟨by simpa using hforce, by decide, .inr hx⟩)

theorem settle_idle {c : Sandbox.Backend.Container} (h : Sandbox.Backend.settle m o c = .idle) :
    c.status ≠ .running := by
  intro hrunning
  unfold Sandbox.Backend.settle at h
  rw [hrunning] at h
  split at h <;> cases h

end Stop

theorem not_runs {m : Sandbox.Backend.State} (h : ∀ c, m.world.docker.lookup o = some c → c.status ≠ .running) :
    runs m o = false := by
  unfold runs
  cases hc : m.world.docker.lookup o with
  | none => rfl
  | some c => simpa using h c hc

theorem not_running {m : Sandbox.Backend.State} (h : runs m o = false) {c : Sandbox.Backend.Container}
    (hc : m.world.docker.lookup o = some c) : c.status ≠ .running := by
  simpa [runs, hc] using h

/-- **How a stop ends**: it has stopped its container, or there is none that runs. -/
theorem advance_over {m : Sandbox.Backend.State} {force : Bool} {stage : SandboxStage} {x : Outcome}
    {es : List Effect}
    (h : Sandbox.Backend.advanceSandbox m o .stop force stage x = some (.over true, es))
    (hstage : ofStop stage = true) (hfound : overlooks m o force stage = false) :
    (∃ c, stage = .stopping c ∧ x = .ok) ∨ runs m o = false := by
  have hdecided : ∀ (r : SandboxRecord) y,
      Sandbox.Backend.decideAction m o .stop force r y = (.over true, es) →
        r.containerId = none ∧ (force = true ∨ y = .idle) :=
    fun r y hy => decideAction_over (by rw [hy])
  -- a stage that decides when it was not clear whether the sandbox is idle
  have hforced : ∀ (r : SandboxRecord) y, y ≠ .idle →
      (force && r.containerId.isNone && runs m o) = false →
      Sandbox.Backend.decideAction m o .stop force r y = (.over true, es) → runs m o = false := by
    intro r y hy hfound hdecide
    obtain ⟨hnone, hforce | hidle⟩ := hdecided r y hdecide
    · simpa [hnone, hforce] using hfound
    · exact absurd hidle hy
  -- a stage that has looked at the container
  have hsettled : ∀ (r : SandboxRecord) c, m.world.docker.lookup o = some c →
      (force && r.containerId.isNone && runs m o) = false →
      Sandbox.Backend.decideAction m o .stop force r (Sandbox.Backend.settle m o c) = (.over true, es) →
      runs m o = false := by
    intro r c hc hfound hdecide
    obtain ⟨hnone, hforce | hidle⟩ := hdecided r _ hdecide
    · simpa [hnone, hforce] using hfound
    · refine not_runs fun c' hc' => ?_
      obtain rfl := Option.some.inj (hc.symm.trans hc')
      exact settle_idle hidle
  have hexisting : ∀ r : SandboxRecord,
      some (Sandbox.Backend.findExisting r, ([] : List Effect)) ≠ some (.over true, es) := by
    intro r hr
    unfold Sandbox.Backend.findExisting at hr
    split at hr <;> cases hr
  unfold Sandbox.Backend.advanceSandbox at h
  dsimp only at h
  split at h
  case h_2 =>
    -- the lock is taken
    split at h
    · cases h
    · split at h
      next r hr =>
        have h := Option.some.inj h
        unfold Sandbox.Backend.beginExecution at h
        split at h
        · exact .inr (hforced r .busy (by decide) (by simpa [overlooks, hr] using hfound) h)
        · cases h
      next => cases h
  case h_3 r =>
    split at h
    · cases h
    · exact absurd h (hexisting r)
  case h_4 r id =>
    split at h
    · exact absurd h (hexisting r)
    · split at h
      · exact .inr (hforced r .unknown (by decide) hfound (Option.some.inj h))
      · split at h
        · cases h
        · exact absurd h (hexisting r)
  case h_5 r id =>
    split at h
    next c hfind =>
      exact .inr (hsettled r c (Sandbox.Backend.World.find_eq_some.mp hfind).1 hfound (Option.some.inj h))
    next => cases h
  case h_6 r =>
    split at h
    next c hc => exact .inr (hsettled r c hc hfound (Option.some.inj h))
    next hnone => exact .inr (not_runs fun c hc => by rw [hnone] at hc; cases hc)
  case h_8 r groups directory =>
    split at h
    · split at h
      · have hnone := (hdecided r _ (Option.some.inj h)).1
        exact .inr (by simpa [overlooks, hnone] using hfound)
      · cases h
    · cases h
  case h_9 r | h_10 r id | h_11 r id | h_12 r | h_13 r =>
    exact .inr (hforced r .unknown (by decide) hfound (Option.some.inj h))
  case h_14 r groups =>
    have hnone := (hdecided r _ (Option.some.inj h)).1
    exact .inr (by simpa [overlooks, hnone] using hfound)
  case h_16 r id =>
    split at h
    next c hfind =>
      have h := Option.some.inj h
      unfold Sandbox.Backend.actOn at h
      split at h <;> cases h
    next hname => cases hname
    next hnone _ =>
      refine .inr (not_runs fun c hc hrunning => ?_)
      have hid : c.id = id := by simpa [overlooks, hc, hrunning] using hfound
      rw [Sandbox.Backend.World.find_eq_some.mpr ⟨hc, hid⟩] at hnone
      cases hnone
  case h_19 c => exact .inl ⟨c, rfl, rfl⟩
  case h_15 | h_17 | h_18 | h_20 | h_21 => cases hstage
  case h_1 | h_7 => cases h
  case h_22 => split at h <;> cases h

/-- The tasks of the manager: the action is the stop of the sandbox, the others are native requests. -/
structure Held (o : Owner) (s : State) : Prop where
  exclusive : s.manager.Exclusive
  action : ∀ k, s.action = some k → ∃ force stage,
    s.manager.tasks[k]? = some (.sandbox o .stop force stage) ∧ ofStop stage = true
  others : ∀ i t, s.manager.tasks[i]? = some t → s.action ≠ some i →
    ∃ o' kind stage, t = .request o' kind stage

theorem Held.initial (image : String) : Held o (State.initial image) := by
  constructor
  · exact Sandbox.Backend.State.Exclusive.initial image
  · intro k hk
    cases hk
  · intro i t ht
    simp [State.initial, Sandbox.Backend.State.initial] at ht

/-- What arrives besides the action is a native request. -/
theorem arrives_native {m m' : Sandbox.Backend.State} {e : Sandbox.Backend.Event} (hnative : native e = true)
    (h : m.step e = some m') {i : Nat} {t : Sandbox.Backend.Task} (hnone : m.tasks[i]? = none)
    (ht : m'.tasks[i]? = some t) : ∃ o kind, t = .request o kind .authorize := by
  cases e with
  | request o kind =>
    obtain rfl := Option.some.inj h
    have hlen := List.getElem?_eq_none_iff.mp hnone
    rw [List.getElem?_append_right hlen] at ht
    exact ⟨o, kind, (List.mem_singleton.mp (List.mem_of_getElem? ht))⟩
  | step j x =>
    rcases Sandbox.Backend.State.tasks_step h ht with hold | ⟨-, harrives⟩ | ⟨_, _, _, _, hold, -⟩
    · rw [hnone] at hold
      cases hold
    · obtain ⟨u, u', es, hu, -, -, rfl⟩ := Sandbox.Backend.State.step_task h
      rw [List.getElem?_eq_none (by simpa using List.getElem?_eq_none_iff.mp hnone)] at ht
      cases ht
    · rw [hnone] at hold
      cases hold
  | late k =>
    simp only [Sandbox.Backend.State.step, Option.bind_eq_bind, Option.bind_eq_some_iff,
      Option.pure_def] at h
    obtain ⟨call, -, h⟩ := h
    obtain rfl := Option.some.inj h
    rw [hnone] at ht
    cases ht
  | sandboxAction o name force | agentAction q | cleanup o run => cases hnative
  | publish a d | container o status | sessions o ids | statuses o directory group =>
    obtain rfl := Option.some.inj h
    rw [hnone] at ht
    cases ht

theorem Held.step (h : Held o s) (hstep : Moves sandboxId o s e s') : Held o s' := by
  cases hstep with
  | @called force hidle =>
    have hstep : s.manager.step (.sandboxAction o .stop force) =
        some { s.manager with tasks := s.manager.tasks ++ [.sandbox o .stop force .lock] } := rfl
    constructor
    · exact h.exclusive.step hstep
    · intro k hk
      obtain rfl := Option.some.inj hk
      exact ⟨force, .lock, by simp, rfl⟩
    · intro i t ht hi
      rw [List.getElem?_append] at ht
      split at ht
      · exact h.others i t ht (by rw [hidle]; simp)
      next hlen =>
        obtain ⟨hzero, -⟩ := List.getElem?_eq_some_iff.mp ht
        rw [List.length_singleton] at hzero
        exact absurd (by show some s.manager.tasks.length = some i; congr 1; omega) hi
  | @managed e m hnative hadmits hm =>
    constructor
    · exact h.exclusive.step hm
    · intro k hk
      obtain ⟨force, stage, ht, hstage⟩ := h.action k hk
      rcases Sandbox.Backend.State.task_kept hm ht with hkept | ⟨x, t', es, rfl, hadvance, ht'⟩
      · exact ⟨force, stage, hkept, hstage⟩
      · obtain ⟨n, hn, heq⟩ := Option.map_eq_some_iff.mp hadvance
        obtain ⟨rfl, rfl⟩ := Prod.mk.inj heq
        exact ⟨force, n.1, ht', advance_ofStop hn hstage⟩
    · intro i t' ht' hi
      rcases Sandbox.Backend.State.tasks_step hm ht' with hold | ⟨hnone, -⟩ | ⟨x, t, es, -, ht, hadvance, -⟩
      · exact h.others i t' hold hi
      · obtain ⟨o', kind, rfl⟩ := arrives_native hnative hm hnone ht'
        exact ⟨o', kind, .authorize, rfl⟩
      · obtain ⟨o', kind, stage, rfl⟩ := h.others i t ht hi
        obtain ⟨n, hn, heq⟩ := Option.map_eq_some_iff.mp hadvance
        obtain ⟨rfl, rfl⟩ := Prod.mk.inj heq
        exact ⟨o', kind, n.1, rfl⟩
  | _ => exact ⟨h.exclusive, h.action, h.others⟩

/-! ## How far the job is -/

theorem halted_iff : s.halted = true ↔ ∃ k o' name force, s.action = some k ∧
    s.manager.tasks[k]? = some (.sandbox o' name force (.over true)) := by
  unfold State.halted
  rw [Option.any_eq_true]
  constructor
  · rintro ⟨k, hk, h⟩
    split at h
    next o' name force ht => exact ⟨k, o', name, force, hk, ht⟩
    next => cases h
  · rintro ⟨k, o', name, force, hk, ht⟩
    exact ⟨k, hk, by simp only [ht]⟩

theorem halted_of {k : Nat} {o' : Owner} {name : Sandbox.Backend.SandboxAction} {force : Bool}
    (hk : s.action = some k) (ht : s.manager.tasks[k]? = some (.sandbox o' name force (.over true))) :
    s.halted = true :=
  halted_iff.mpr ⟨k, o', name, force, hk, ht⟩

/-- An action that has come to its end stays there. -/
theorem halted_moves (h : s.halted = true) (hstep : Moves sandboxId o s e s') : s'.halted = true := by
  obtain ⟨k, o', name, force, hk, ht⟩ := halted_iff.mp h
  cases hstep with
  | called hidle =>
    rw [hidle] at hk
    cases hk
  | @managed e m _ _ hm =>
    refine halted_iff.mpr ⟨k, o', name, force, hk, ?_⟩
    rcases Sandbox.Backend.State.task_kept hm ht with hkept | ⟨x, t', es, -, hadvance, -⟩
    · exact hkept
    · cases hadvance
  | _ => exact halted_iff.mpr ⟨k, o', name, force, hk, ht⟩

theorem succeeded_iff : s.succeeded sandboxId o = true ↔ ∃ jid j, s.store.jobs.lookup jid = some j ∧
    j.kind = .sandboxStop ∧ j.target = sandboxId o ∧ j.status = .succeeded := by
  simp only [State.succeeded, Dict.any_eq_true, Bool.and_eq_true, beq_iff_eq, and_assoc]

/-- When no job has succeeded since. -/
theorem succeeded_origin (hold : ∀ i j', s'.store.jobs.lookup i = some j' → j'.status = .succeeded →
      ∃ j, s.store.jobs.lookup i = some j ∧ j.SameIdentity j' ∧ j.status = .succeeded)
    (h : s'.succeeded sandboxId o = true) : s.succeeded sandboxId o = true := by
  obtain ⟨jid, j', hj', hkind', htarget', hstatus'⟩ := succeeded_iff.mp h
  obtain ⟨j, hj, ⟨-, hkind, htarget, -⟩, hstatus⟩ := hold jid j' hj' hstatus'
  exact succeeded_iff.mpr ⟨jid, j, hj, hkind.symm.trans hkind', htarget.symm.trans htarget', hstatus⟩

/-- What the job has reached, the manager and the database have too. -/
structure Progress (sandboxId : Owner → String) (o : Owner) (s : State) : Prop where
  concluding : ∀ w, s.worker = some w → concludes w.pc = true → s.halted = true
  finishing : ∀ w, s.worker = some w → w.pc = .finish →
    s.store.desired.lookup (sandboxId o) = some .stopped
  succeeded : s.succeeded sandboxId o = true →
    s.halted = true ∧ s.store.desired.lookup (sandboxId o) = some .stopped

theorem Progress.initial (image : String) : Progress sandboxId o (State.initial image) := by
  constructor
  · intro w hw
    cases hw
  · intro w hw
    cases hw
  · intro h
    obtain ⟨jid, j, hj, -⟩ := succeeded_iff.mp h
    simp [State.initial, Store.empty] at hj

/-- A worker that is not at its last statements, over jobs of which none has succeeded since. -/
theorem Progress.away (h : Progress sandboxId o s) {store : Store} {worker : Option Worker}
    (haway : ∀ w, worker = some w → concludes w.pc = false)
    (hdesired : store.desired = s.store.desired)
    (hold : ∀ i j', store.jobs.lookup i = some j' → j'.status = .succeeded →
      ∃ j, s.store.jobs.lookup i = some j ∧ j.SameIdentity j' ∧ j.status = .succeeded) :
    Progress sandboxId o { s with store := store, worker := worker } := by
  constructor
  · intro w hw hconcludes
    rw [haway w hw] at hconcludes
    cases hconcludes
  · intro w hw hpc
    have := haway w hw
    rw [hpc] at this
    cases this
  · intro hsucceeded
    obtain ⟨hhalted, hstopped⟩ := h.succeeded (succeeded_origin hold hsucceeded)
    exact ⟨hhalted, by show store.desired.lookup _ = _; rw [hdesired]; exact hstopped⟩

/-- The worker of the job writes. -/
theorem Progress.worked (h : Progress sandboxId o s) (hours : Ours sandboxId o s) {w : Worker}
    (hw : s.worker = some w) (raises : Bool) :
    Progress sandboxId o
      { s with store := (w.work s.store raises).1, worker := some (w.work s.store raises).2 } := by
  obtain ⟨hkind, htarget⟩ := hours.worker w hw
  have hstop : Worker.desiredState w.job.kind = some .stopped := by rw [hkind]; rfl
  have hsucceeded : s.succeeded sandboxId o = true ∨ w.pc = .finish →
      s.halted = true ∧ s.store.desired.lookup (sandboxId o) = some .stopped := by
    rintro (hs | hpc)
    · exact h.succeeded hs
    · exact ⟨h.concluding w hw (by rw [hpc]; rfl), h.finishing w hw hpc⟩
  have hcases : (State.succeeded sandboxId o
      { s with store := (w.work s.store raises).1, worker := some (w.work s.store raises).2 } = true) →
      s.succeeded sandboxId o = true ∨ w.pc = .finish := by
    intro hs
    obtain ⟨jid, j', hj', hkind', htarget', hstatus'⟩ := succeeded_iff.mp hs
    rcases work_succeeded hj' hstatus' with hpc | ⟨j, hj, ⟨-, hk, ht, -⟩, hstatus⟩
    · exact .inr hpc
    · exact .inl (succeeded_iff.mpr ⟨jid, j, hj, hk.symm.trans hkind', ht.symm.trans htarget', hstatus⟩)
  rcases work_desired s.store w raises with ⟨hdesired, haway⟩ | ⟨hpc, hfinish, hinsert⟩
  · constructor
    · intro w' hw' hconcludes
      obtain rfl := Option.some.inj hw'
      rw [haway] at hconcludes
      cases hconcludes
    · intro w' hw' hpc
      obtain rfl := Option.some.inj hw'
      rw [hpc] at haway
      cases haway
    · intro hs
      obtain ⟨hhalted, hstopped⟩ := hsucceeded (hcases hs)
      exact ⟨hhalted, by show (w.work s.store raises).1.desired.lookup _ = _; rw [hdesired]; exact hstopped⟩
  · have hhalted : s.halted = true := h.concluding w hw (by rw [hpc]; rfl)
    have hstopped : (w.work s.store raises).1.desired.lookup (sandboxId o) = some .stopped := by
      rw [hinsert _ hstop, htarget, AList.lookup_insert]
    exact ⟨fun _ _ _ => hhalted, fun _ _ _ => hstopped, fun _ => ⟨hhalted, hstopped⟩⟩

/-- **The job does not run ahead.** -/
theorem Progress.step (h : Progress sandboxId o s) (hours : Ours sandboxId o s)
    (hstep : Moves sandboxId o s e s') : Progress sandboxId o s' := by
  have hinsert : ∀ (jid : String) (job : Job), job.status = .queued →
      ∀ i j', (s.store.jobs.insert jid job).lookup i = some j' → j'.status = .succeeded →
        ∃ j, s.store.jobs.lookup i = some j ∧ j.SameIdentity j' ∧ j.status = .succeeded := by
    intro jid job hqueued i j' hj' hstatus
    rcases Dict.lookup_insert_cases hj' with ⟨-, rfl⟩ | ⟨-, hold⟩
    · rw [hqueued] at hstatus
      cases hstatus
    · exact ⟨j', hold, .refl j', hstatus⟩
  have hhalted : s.halted = true → s'.halted = true := fun h => halted_moves h hstep
  cases hstep with
  | nothing => exact h
  | submitted hkind htarget hstatus =>
    refine h.away (fun w hw => ?_) rfl (hinsert _ _ hstatus)
    obtain rfl := Option.some.inj hw
    rfl
  | reopened hkind htarget hstatus hreopens =>
    exact ⟨h.concluding, h.finishing, fun hsucceeded =>
      h.succeeded (succeeded_origin (hinsert _ _ hstatus) hsucceeded)⟩
  | worked raises hw => exact h.worked hours hw raises
  | called | managed =>
    exact ⟨fun w hw hconcludes => hhalted (h.concluding w hw hconcludes), h.finishing,
      fun hsucceeded => ⟨hhalted (h.succeeded hsucceeded).1, (h.succeeded hsucceeded).2⟩⟩
  | @answered w answer hw hpc hanswer =>
    have hcases := @receive_concludes _ answer (hours.worker w hw).1 hpc
    constructor
    · intro w' hw' hconcludes
      obtain rfl := Option.some.inj hw'
      rcases hcases with ⟨hacknowledged, -⟩ | haway
      · exact hanswer hacknowledged
      · rw [haway] at hconcludes
        cases hconcludes
    · intro w' hw' hfinish
      obtain rfl := Option.some.inj hw'
      rcases hcases with ⟨-, hmark⟩ | haway
      · rw [hmark] at hfinish
        cases hfinish
      · rw [hfinish] at haway
        cases haway
    · exact h.succeeded
  | stopped hw =>
    refine h.away (fun w' hw' => ?_) rfl fun i j' hj' hstatus => ⟨j', hj', .refl j', hstatus⟩
    obtain rfl := Option.some.inj hw'
    exact raise_concludes _ .cancelled
  | cancelled jid =>
    refine ⟨h.concluding, h.finishing, fun hsucceeded => h.succeeded (succeeded_origin ?_ hsucceeded)⟩
    intro i j' hj' hstatus
    exact update_succeeded hj' hstatus (fun _ => ⟨rfl, rfl, rfl, rfl⟩) (fun _ hf => by cases hf)
  | restarted =>
    refine h.away (fun w hw => ?_) rfl fun i j' hj' hstatus => ?_
    · obtain ⟨job, -, rfl⟩ := Option.map_eq_some_iff.mp hw
      rfl
    · simp only [Store.restart, Dict.lookup_mapValues, Option.map_eq_some_iff] at hj'
      obtain ⟨j, hj, rfl⟩ := hj'
      refine ⟨j, hj, ?_⟩
      unfold Store.restarted at hstatus ⊢
      split at hstatus
      · cases hstatus
      · cases hstatus
      · cases hstatus
      · exact ⟨.refl j, hstatus⟩
  | admitted => exact ⟨h.concluding, h.finishing, h.succeeded⟩

/-! ## The stopped sandbox -/

/-- A sandbox that is to be stopped is not given to a request. -/
theorem admission_refused {store : Store} {l : Option String}
    (hstopped : store.desired.lookup (sandboxId o) = some .stopped)
    (hkind : ∀ jid j, store.jobs.lookup jid = some j → j.kind = .sandboxStop) :
    admission sandboxId store o ≠ .ok l := by
  intro h
  have hnone : (store.jobs.any fun _ j => active o.1 j &&
      (j.target == sandboxId o && (j.kind == .sandboxStart || j.kind == .sandboxRestart))) = false := by
    refine Dict.any_eq_false.mpr fun jid j hj => ?_
    rw [hkind jid j hj]
    simp
  unfold admission at h
  rw [hnone, hstopped] at h
  simp only [refuse, bind, Except.bind] at h
  split at h
  · cases h
  · split at h
    · cases h
    · simp [fail] at h

/-- Nothing that the manager is about to do starts the sandbox. -/
structure Quiet (o : Owner) (s : State) : Prop where
  rests : runs s.manager o = false
  acquires : ∀ (i : Nat) kind p, s.manager.tasks[i]? ≠ some (.request o kind (.acquiring p))
  admitted : ∀ i l, (i, l) ∈ s.admitted → (s.manager.tasks[i]?).bind asks ≠ some o

/-- A request that asks for its admission holds the lock of the user. -/
theorem holds_of_asks {t : Sandbox.Backend.Task} (h : asks t = some o) : t.holds = some o := by
  unfold asks at h
  split at h <;> first | exact h | cases h

/-- A task other than the action starts the container in its acquisition only. -/
theorem Held.starts (h : Held o s) {i : Nat} {t : Sandbox.Backend.Task} (ht : s.manager.tasks[i]? = some t)
    {id : Nat} (hcall : t.call = some (.start o id)) :
    ∃ kind p, t = .request o kind (.acquiring p) := by
  by_cases hi : s.action = some i
  · obtain ⟨force, stage, hstop, hstage⟩ := h.action i hi
    obtain rfl := Option.some.inj (ht.symm.trans hstop)
    cases stage <;> first | cases hcall | cases hstage
  · obtain ⟨o', kind, stage, rfl⟩ := h.others i t ht hi
    cases stage with
    | acquiring p =>
      refine ⟨kind, p, ?_⟩
      cases p <;> cases hcall <;> rfl
    | _ => cases hcall

/-- An admission that is still on its way after a step. -/
theorem mem_pending {e : Sandbox.Backend.Event} {i : Nat} {l : Option String} (h : (i, l) ∈ s.pending e) :
    (i, l) ∈ s.admitted ∧ ∀ x, e ≠ .step i x := by
  unfold State.pending at h
  split at h
  next j x =>
    obtain ⟨hmem, hne⟩ := List.mem_filter.mp h
    refine ⟨hmem, fun y heq => ?_⟩
    cases heq
    simp at hne
  next hstep => exact ⟨h, fun x => hstep i x⟩

/-- **A sandbox that rests stays so.** -/
theorem Quiet.step (h : Quiet o s) (hheld : Held o s) (hours : Ours sandboxId o s)
    (hprogress : Progress sandboxId o s) (hhalted : s.halted = true) (hreopened : s.reopened = false)
    (hsound : s.Sound sandboxId o e) (hstep : Moves sandboxId o s e s') : Quiet o s' := by
  cases hstep with
  | called hidle =>
    obtain ⟨k, -, -, -, hk, -⟩ := halted_iff.mp hhalted
    rw [hidle] at hk
    cases hk
  | @admitted i t o' l ht hasks hok =>
    refine ⟨h.rests, h.acquires, fun j l' hmem => ?_⟩
    rcases List.mem_cons.mp hmem with heq | hold
    · obtain ⟨rfl, rfl⟩ := Prod.mk.inj heq
      intro hj
      obtain rfl : o' = o := by
        rw [ht] at hj
        exact Option.some.inj (hasks.symm.trans hj)
      have hstopped : s.store.desired.lookup (sandboxId o') = some .stopped := by
        cases hs : s.succeeded sandboxId o' with
        | true => exact (hprogress.succeeded hs).2
        | false => exact hsound hhalted hreopened hs hj
      exact admission_refused hstopped (hours.kind hreopened) hok
    · exact h.admitted j l' hold
  | @managed e m hnative hadmits hm =>
    constructor
    · refine not_runs fun c hc hrunning => ?_
      rcases Sandbox.Backend.State.running_step hm hc hrunning with ⟨c', hc', hrun⟩ | ⟨id, hstart⟩ | rfl
      · exact not_running h.rests hc' hrun
      · cases e with
        | step i x =>
          simp only [Sandbox.Backend.State.performs] at hstart
          split at hstart
          · obtain ⟨t, ht, hcall⟩ := Option.bind_eq_some_iff.mp hstart
            obtain ⟨kind, p, rfl⟩ := hheld.starts ht hcall
            exact h.acquires i kind p ht
          · cases hstart
        | late k =>
          have hcall : s.manager.late[k]? = some (.start o id) := hstart
          have hrevives : revives s.manager o k = false := hsound hhalted hreopened
          have hnone : s.manager.world.find o id = none := by simpa [revives, hcall] using hrevives
          simp only [Sandbox.Backend.State.step, Option.bind_eq_bind, Option.bind_eq_some_iff,
            Option.pure_def] at hm
          obtain ⟨call, hcall', hm⟩ := hm
          obtain rfl := Option.some.inj hm
          obtain rfl := Option.some.inj (hcall.symm.trans hcall')
          rw [Sandbox.Backend.World.perform, if_neg (by simp [Sandbox.Backend.World.accepts, hnone])] at hc
          exact not_running h.rests hc hrunning
        | _ => cases hstart
      · cases hnative
    · intro i kind p hi
      rcases Sandbox.Backend.State.tasks_step hm hi with hold | ⟨hnone, -⟩ | ⟨x, t, es, rfl, ht, hadvance, -⟩
      · exact h.acquires i kind p hold
      · obtain ⟨o', kind', heq⟩ := arrives_native hnative hm hnone hi
        cases heq
      · obtain ⟨stage, rfl, hmove⟩ := Sandbox.Backend.Task.request_of_advance hadvance
        generalize hn : (Sandbox.Backend.RequestStage.acquiring p, es) = n at hmove
        cases hmove with
        | @admitted l =>
          -- its admission came before the action had ended, and there is none on the way
          have hadmitted : (i, l) ∈ s.admitted := by simpa [State.admits] using hadmits
          exact h.admitted i l hadmitted (by rw [ht]; rfl)
        | acquires => exact h.acquires i kind _ ht
        | finished | closed =>
          have hfst := congrArg Prod.fst hn
          unfold Sandbox.Backend.release at hfst
          split at hfst <;> cases hfst
        | _ => cases hn
    · intro i l hmem hasks
      obtain ⟨hold, hstays⟩ := mem_pending hmem
      obtain ⟨t', ht', hasks⟩ := Option.bind_eq_some_iff.mp hasks
      rcases Sandbox.Backend.State.tasks_step hm ht' with hkept | ⟨hnone, -⟩ | ⟨x, t, es, heq, -⟩
      · exact h.admitted i l hold (by rw [hkept]; exact hasks)
      · obtain ⟨o', kind, rfl⟩ := arrives_native hnative hm hnone ht'
        cases hasks
      · exact hstays x heq
  | _ => exact ⟨h.rests, h.acquires, h.admitted⟩

theorem userLocked_of_over {m : Sandbox.Backend.State} {force : Bool} {x : Outcome} {es : List Effect}
    (h : Sandbox.Backend.advanceSandbox m o .stop force .lock x = some (.over true, es)) :
    m.userLocked o = false := by
  cases x with
  | ok =>
    simp only [Sandbox.Backend.advanceSandbox] at h
    split at h
    · cases h
    next hfree => simpa using hfree
  | _ => cases h

/-- **What a stop leaves**: when it ends it is alone with the sandbox, and the container does not run. -/
theorem Quiet.halts (hheld : Held o s) (hbefore : s.halted = false) (hafter : s'.halted = true)
    (hsound : s.Sound sandboxId o e) (hstep : Moves sandboxId o s e s') : Quiet o s' := by
  obtain ⟨k, o', name, force, hk, hover⟩ := halted_iff.mp hafter
  cases hstep with
  | called hidle =>
    obtain rfl := Option.some.inj hk
    simp at hover
  | @managed e m hnative hadmits hm =>
    obtain ⟨force', stage, ht, hstage⟩ := hheld.action k hk
    rcases Sandbox.Backend.State.tasks_step hm hover with hold | ⟨hnone, -⟩ | ⟨x, t, es, rfl, hk', hadvance, -⟩
    · cases hbefore.symm.trans (halted_of (s := s) hk hold)
    · rw [hnone] at ht
      cases ht
    · obtain rfl := Option.some.inj (ht.symm.trans hk')
      obtain ⟨n, hn, heq⟩ := Option.map_eq_some_iff.mp hadvance
      obtain ⟨-, -, -, hn'⟩ := Sandbox.Backend.Task.sandbox.inj (Prod.mk.inj heq).1
      have hadvance : Sandbox.Backend.advanceSandbox s.manager o .stop force' stage x =
          some (.over true, n.2) := by rw [hn, ← hn']
      -- the user is locked by the action, or by nobody
      have hothers : ∀ (i : Nat) (t : Sandbox.Backend.Task), s.manager.tasks[i]? = some t → i ≠ k →
          t.holds ≠ some o := by
        intro i t hi hne hholds
        cases stage with
        | lock => exact Sandbox.Backend.State.userLocked_eq_false (userLocked_of_over hadvance) hi hholds
        | «over» ok => cases hadvance
        | _ => exact hne (hheld.exclusive.user i k t _ o hi ht hholds rfl)
      have hfree : ∀ (i : Nat) (t' : Sandbox.Backend.Task), m.tasks[i]? = some t' → t'.holds ≠ some o := by
        intro i t' ht'
        by_cases hi : i = k
        · subst hi
          obtain rfl := Option.some.inj (ht'.symm.trans hover)
          simp [Sandbox.Backend.Task.holds]
        · rcases Sandbox.Backend.State.tasks_step hm ht' with hold | ⟨-, harrives⟩ | ⟨y, u, fs, heq, -⟩
          · exact hothers i t' hold hi
          · simp [harrives.holds]
          · cases heq
            exact absurd rfl hi
      refine ⟨not_runs fun c hc hrunning => ?_, fun i kind p hi => hfree i _ hi rfl, fun i l _ hasks => ?_⟩
      · have hfound : overlooks s.manager o force' stage = false := by
          have := hsound hk
          rwa [ht] at this
        rcases advance_over hadvance hstage hfound with ⟨c', rfl, rfl⟩ | hrests
        · obtain ⟨t, t', es, hk', hadvance', haccepts, rfl⟩ := Sandbox.Backend.State.step_task hm
          obtain rfl := Option.some.inj (ht.symm.trans hk')
          simp only [Sandbox.Backend.State.applyAll_frame (fun s => s.world.docker)
            Sandbox.Backend.State.docker_apply, Sandbox.Backend.State.world_conclude] at hc
          have hexited := Sandbox.Backend.World.stopped_perform (haccepts rfl _ rfl) hc
          rw [hexited] at hrunning
          cases hrunning
        · rcases Sandbox.Backend.State.running_step hm hc hrunning with ⟨c', hc', hrun⟩ | ⟨id, hstart⟩ | heq
          · exact not_running hrests hc' hrun
          · simp only [Sandbox.Backend.State.performs] at hstart
            split at hstart
            · obtain ⟨t, ht', hcall⟩ := Option.bind_eq_some_iff.mp hstart
              obtain ⟨kind, p, rfl⟩ := hheld.starts ht' hcall
              rw [ht] at ht'
              cases ht'
            · cases hstart
          · cases heq
      · obtain ⟨t', ht', hasks⟩ := Option.bind_eq_some_iff.mp hasks
        exact hfree i t' ht' (holds_of_asks hasks)
  | _ => cases hbefore.symm.trans (halted_of (s := s) hk hover)

/-! ## Runs -/

/-- What holds in every state of a sound run. -/
structure Stops (sandboxId : Owner → String) (o : Owner) (s : State) : Prop where
  ours : Ours sandboxId o s
  held : Held o s
  progress : Progress sandboxId o s
  quiet : s.halted = true → s.reopened = false → Quiet o s

theorem Stops.initial (image : String) : Stops sandboxId o (State.initial image) :=
  ⟨.initial image, .initial image, .initial image, fun h => by cases h⟩

/-- A job that may start the sandbox is not taken back. -/
theorem reopened_moves (hstep : Moves sandboxId o s e s') (h : s'.reopened = false) :
    s.reopened = false := by
  cases hstep with
  | reopened => cases h
  | _ => exact h

theorem Stops.step (h : Stops sandboxId o s) (hsound : s.Sound sandboxId o e)
    (hstep : Moves sandboxId o s e s') : Stops sandboxId o s' := by
  refine ⟨h.ours.step hstep, h.held.step hstep, h.progress.step h.ours hstep, fun hhalted hreopened => ?_⟩
  have hbefore := reopened_moves hstep hreopened
  cases hs : s.halted with
  | true => exact (h.quiet hs hbefore).step h.held h.ours h.progress hs hbefore hsound hstep
  | false => exact .halts h.held hs hhalted hsound hstep

/-- Where nothing is about to start the sandbox, no acquisition succeeds. -/
theorem Quiet.not_grants (h : Quiet o s) (e : Sandbox.Backend.Event) : s.manager.grants e ≠ some o := by
  intro hgrants
  unfold Sandbox.Backend.State.grants at hgrants
  split at hgrants
  next i x =>
    split at hgrants
    next o' kind p hi =>
      split at hgrants
      · obtain rfl := Option.some.inj hgrants
        exact h.acquires i kind p hi
      · cases hgrants
    next => cases hgrants
  next => cases hgrants

theorem Stops.staysStopped (h : Stops sandboxId o s) : s.StaysStopped sandboxId o := by
  intro hsucceeded hreopened
  have hquiet := h.quiet (h.progress.succeeded hsucceeded).1 hreopened
  exact ⟨hquiet.rests, hquiet.not_grants⟩

/-- **A stopped sandbox stays stopped.** In a run of sound steps, whenever the stop job has succeeded and
no job that may start the sandbox was submitted, its container does not run and no acquisition of it
succeeds. -/
theorem stopped_sandbox_stays_stopped (sandboxId : Owner → String) (o : Owner) (image : String)
    (es : List Event) (h : (stopping sandboxId o).Along (State.Sound sandboxId o) (State.initial image) es) :
    (stopping sandboxId o).Throughout (State.StaysStopped sandboxId o) (State.initial image) es :=
  Machine.Throughout.imp _ (fun _ hs => hs.staysStopped)
    (Machine.throughout_of_along _ (I := Stops sandboxId o)
      (fun _ _ _ hs hsound hstep => hs.step hsound (step_moves hstep)) (.initial image) h)

/-! ## A request in between -/

/-- The events of the manager, each request admitted when it is answered. -/
def managed (es : List Sandbox.Backend.Event) : List Event :=
  es.flatMap fun e =>
    match e with
    | .step i (.resources _) => [.accept i, .manage e]
    | _ => [.manage e]

/-- A stop job on a sandbox that runs, up to its call. -/
def called : List Event :=
  managed (.publish "a" (some ⟨"1", "image"⟩) :: Sandbox.Backend.creating 0 ("a", "u") ++
    Sandbox.Backend.answers 0 [.ok, .ok, .ok, .ok, .ok, .ok, .ok]) ++
  [.submit "j1" "f" (plainPayload "r1") none, .work false, .work false, .call]

/-- The manager stops the sandbox. -/
def halts : List Event :=
  managed (Sandbox.Backend.answers 1 [.ok, .ok, .ok, .ok, .statuses "/workspace", .ok, .ok])

/-- A request that starts the sandbox again. -/
def requested : List Event :=
  managed (.request ("a", "u") .read :: Sandbox.Backend.answers 2
    [.ok, .ok, .ok, .resources none, .ok, .ok, .ok, .ok, .ok, .ok, .ok, .ok, .ok])

/-- The job takes the answer, and records the desired state and its success. -/
def recorded : List Event := [.reply (.ok .accepted), .work false, .work false]

def key (o : Owner) : String := o.1 ++ "/" ++ o.2

/-- **A request between the end of the action and the record of the desired state** starts the sandbox
again. -/
theorem stopped_sandbox_runs_again : ∃ s,
    (stopping key ("a", "u")).run (State.initial "image") (called ++ halts ++ requested ++ recorded) =
      some s ∧ ¬ s.StaysStopped key ("a", "u") := by
  have hrun : ((stopping key ("a", "u")).run (State.initial "image")
      (called ++ halts ++ requested ++ recorded)).all
        (fun s => !(s.succeeded key ("a", "u") && !s.reopened && runs s.manager ("a", "u"))) = false := by
    decide +kernel
  obtain ⟨s, hs, hruns⟩ := Machine.exists_run_of_all_eq_false _ hrun
  simp only [Bool.not_eq_false', Bool.and_eq_true, Bool.not_eq_true'] at hruns
  refine ⟨s, hs, fun hstays => ?_⟩
  have := (hstays hruns.1.1 hruns.1.2).1
  rw [hruns.2] at this
  cases this

/-- Without the request, the job stops the sandbox. -/
theorem recorded_sandbox_stays_stopped :
    ((stopping key ("a", "u")).run (State.initial "image") (called ++ halts ++ recorded)).any
      (fun s => s.succeeded key ("a", "u") && !s.reopened && s.manager.world.docker.keys == [("a", "u")])
      = true ∧
    (stopping key ("a", "u")).Throughout (State.StaysStopped key ("a", "u")) (State.initial "image")
      (called ++ halts ++ recorded) :=
  ⟨by decide +kernel,
    stopped_sandbox_stays_stopped key ("a", "u") "image" _ (by decide +kernel)⟩


end OpencodeCloud.Platform.Stopping
