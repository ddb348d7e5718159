/-
# OpencodeCloud.Operations.Publications -- a publication is run once

The worker of an `agent.apply` or `models.apply` job looks up the release of its job before it prepares
one. It never finds any: such a job is run once, from its submission, or from the restart if it was
still queued then, and it gets a release only after it has left the status `queued` (`firstRun_step`).
-/
import OpencodeCloud.Operations.Tasks

namespace OpencodeCloud.Operations

open OpencodeCloud.Library OpencodeCloud.Catalog

/-! ## §A Where jobs come from -/

/-- What only a retry changes in a job. -/
def Job.SameInput (a b : Job) : Prop :=
  b.requestId = a.requestId ∧ b.originalInput = a.originalInput ∧ b.payload = a.payload ∧
    b.attempts = a.attempts

theorem Job.SameInput.refl (a : Job) : a.SameInput a := ⟨rfl, rfl, rfl, rfl⟩

/-- A job that was there: it does not go back to `queued`, and keeps its release. -/
structure Job.Continues (j j' : Job) : Prop where
  identity : j.SameIdentity j'
  input : j.SameInput j'
  queued : j'.status = .queued → j.status = .queued
  release : j'.releaseId = j.releaseId

theorem Job.Continues.refl (j : Job) : j.Continues j := ⟨.refl j, .refl j, fun h => h, rfl⟩

/-- Where a job comes from in one step. -/
inductive JobOrigin (sys : System) (e : Event) (i : String) (j' : Job) : Prop
  | continued (j : Job) (found : sys.store.jobs.lookup i = some j) (continues : j.Continues j')
  | released (task : Nat) (w : Worker) (j : Job) (event : e = .work task false)
      (running : sys.workers.lookup task = some w) (mark : w.pc = .validateMark)
      (own : i = w.job.id) (found : sys.store.jobs.lookup i = some j) (identity : j.SameIdentity j')
      (input : j.SameInput j') (status : j'.status = j.status)
  | submitted (fallback : String) (kind : Kind) (target scope : String) (payload : Payload)
      (before : Option SandboxBefore) (event : e = .submit i fallback kind target scope payload before)
      (new : sys.store.jobs.lookup i = none)
      (job : j' = Store.newJob i (payload.request.requestId.getD fallback) kind target scope payload before)
  | retried (payload : Payload) (executionId : String) (j : Job)
      (event : e = .retry i payload executionId) (found : sys.store.jobs.lookup i = some j)
      (deletion : j.kind = .agentDelete) (job : j' = Store.retried payload executionId j)

/-- A job after one job was rewritten. -/
theorem origin_of_rewrites {sys : System} {e : Event} {s' : Store} {jid i : String} {f : Job → Job}
    {j' : Job} (h : Store.Rewrites sys.store s' jid f) (hf : ∀ j : Job, j.Continues (f j))
    (hj' : s'.jobs.lookup i = some j') : JobOrigin sys e i j' := by
  rw [h] at hj'
  split at hj'
  · next hi =>
    obtain ⟨j, hj, rfl⟩ := Option.map_eq_some_iff.mp hj'
    exact .continued j (hi ▸ hj) (hf j)
  · exact .continued j' hj' (.refl j')

theorem origin_of_same {sys : System} {e : Event} {s' : Store} {i : String} {j' : Job}
    (h : s'.jobs = sys.store.jobs) (hj' : s'.jobs.lookup i = some j') : JobOrigin sys e i j' :=
  .continued j' (h ▸ hj') (.refl j')

/-- A job after a transition. -/
theorem origin_of_checkpoint {sys : System} {e : Event} {w next : Worker} {f : Job → Job} {i : String}
    {j' : Job} (hf : ∀ j : Job, j.Continues (f j))
    (hj' : (w.checkpoint sys.store f next).1.jobs.lookup i = some j') : JobOrigin sys e i j' := by
  unfold Worker.checkpoint at hj'
  cases ht : sys.store.transition w.job.id Status.inProgress f with
  | error err =>
    simp only [ht] at hj'
    split at hj' <;> exact origin_of_same rfl hj'
  | ok s' =>
    simp only [ht] at hj'
    obtain ⟨_, _, _, rfl⟩ := Store.transition_eq_ok.mp ht
    exact origin_of_rewrites (Store.update_rewrites _ _ _) hf hj'

/-- A job after a write of a worker. -/
theorem origin_of_work {sys : System} {task : Nat} {w : Worker} {raises : Bool} {i : String}
    {j' : Job} (hw : sys.workers.lookup task = some w)
    (hj' : (w.work sys.store raises).1.jobs.lookup i = some j') :
    JobOrigin sys (.work task raises) i j' := by
  cases raises with
  | true => exact origin_of_same rfl hj'
  | false =>
    have update : ∀ f : Job → Job, (∀ j : Job, j.Continues (f j)) →
        (sys.store.update w.job.id f).jobs.lookup i = some j' →
        JobOrigin sys (.work task false) i j' := fun f hf h =>
      origin_of_rewrites (Store.update_rewrites _ _ f) hf h
    cases hpc : w.pc with
    | validateMark =>
      simp only [Worker.work, hpc, Bool.false_eq_true, if_false, Worker.checkpoint] at hj'
      split at hj'
      · next s' hs =>
        obtain ⟨_, _, _, rfl⟩ := Store.transition_eq_ok.mp hs
        rw [Store.update_rewrites] at hj'
        split at hj'
        · next hi =>
          obtain ⟨j, hj, rfl⟩ := Option.map_eq_some_iff.mp hj'
          exact .released task w j rfl hw hpc hi (hi ▸ hj) (.refl j) (.refl j) rfl
        · exact .continued j' hj' (.refl j')
      · split at hj' <;> exact origin_of_same rfl hj'
    | start | quiesceMark | applyMark =>
      simp only [Worker.work, hpc, Bool.false_eq_true, if_false] at hj'
      refine origin_of_checkpoint ?_ hj'
      exact fun j => ⟨.refl j, .refl j, fun h => (by cases h), rfl⟩
    | verifyMark | commitMark =>
      simp only [Worker.work, hpc, Bool.false_eq_true, if_false] at hj'
      refine origin_of_checkpoint ?_ hj'
      exact fun j => ⟨.refl j, .refl j, fun h => h, rfl⟩
    | sandboxDeletedMark | filesDeletedMark =>
      simp only [Worker.work, hpc, Bool.false_eq_true, if_false] at hj'
      refine update _ ?_ hj'
      exact fun j => ⟨.refl j, .refl j, fun h => h, rfl⟩
    | finish | resumeFailed =>
      simp only [Worker.work, hpc, Bool.false_eq_true, if_false] at hj'
      refine update _ ?_ hj'
      exact fun j => ⟨.refl j, .refl j, fun h => (by cases h), rfl⟩
    | settle exc =>
      simp only [Worker.work, hpc, Bool.false_eq_true, if_false] at hj'
      refine update _ ?_ hj'
      refine fun j => ⟨.refl j, .refl j, fun h => absurd h ?_, rfl⟩
      simp only [Worker.settledStatus]
      split <;> simp
    | stoppedMark =>
      simp only [Worker.work, hpc, Bool.false_eq_true, if_false] at hj'
      refine update _ ?_ hj'
      refine fun j => ⟨.refl j, .refl j, fun h => absurd h ?_, rfl⟩
      simp only [Worker.stoppedStatus]
      split <;> simp
    | desiredMark | stopped | leave =>
      simp only [Worker.work, hpc, Bool.false_eq_true, if_false] at hj'
      split at hj' <;> exact origin_of_same rfl hj'
    | _ =>
      simp only [Worker.work, hpc, Bool.false_eq_true, if_false] at hj'
      exact origin_of_same rfl hj'

/-- **Where a job comes from**: it goes on, it gets its release, or it is submitted or retried. -/
theorem System.job_origin {sys sys' : System} {e : Event} (h : sys.step e = some sys') {i : String}
    {j' : Job} (hj' : sys'.store.jobs.lookup i = some j') : JobOrigin sys e i j' := by
  have htasks := step_tasks h
  cases htasks with
  | worker task w w' hfound hmoved _ _ _ =>
    generalize hs : sys'.store = s' at hmoved hj'
    cases hmoved with
    | work raises _ _ => exact origin_of_work hfound hj'
    | reply answer _ => exact origin_of_same rfl hj'
    | stop _ => exact origin_of_same rfl hj'
  | spawned job hspawns _ _ _ =>
    cases hspawns with
    | submitted jid fallback kind target scope payload before hfresh hnew hjobs =>
      rw [hjobs] at hj'
      rcases Dict.lookup_insert_cases hj' with ⟨rfl, rfl⟩ | ⟨_, hold⟩
      · exact .submitted fallback kind target scope payload before rfl hfresh hnew
      · exact .continued j' hold (.refl j')
    | retried jid payload executionId old hold hkind hnew hstore =>
      rw [hstore, Store.update_rewrites] at hj'
      split at hj'
      · next hi =>
        obtain ⟨j, hj, rfl⟩ := Option.map_eq_some_iff.mp hj'
        obtain rfl := Option.some.inj (hold.symm.trans hj)
        exact .retried payload executionId old (hi ▸ rfl) (hi ▸ hold) hkind rfl
      · exact .continued j' hj' (.refl j')
  | reconciler task t t' hfound hmoved _ _ _ =>
    generalize hs : sys'.store = s' at hmoved hj'
    cases hmoved with
    | reply answer _ => exact origin_of_same rfl hj'
    | work raises _ _ =>
      unfold Reconciler.work at hj'
      split at hj'
      · exact origin_of_same rfl hj'
      · split at hj'
        · exact origin_of_same rfl hj'
        · refine origin_of_rewrites (Store.update_rewrites _ _ _) ?_ hj'
          exact fun j => ⟨.refl j, .refl j, fun h => (nomatch h), rfl⟩
        · exact origin_of_same rfl hj'
  | began jid requestId t _ _ hstore _ _ _ => exact origin_of_same (by rw [hstore]) hj'
  | restarted _ hsys =>
    rw [hsys, System.restart_store, Store.restart, Dict.lookup_mapValues] at hj'
    obtain ⟨j, hj, rfl⟩ := Option.map_eq_some_iff.mp hj'
    refine .continued j hj ?_
    unfold Store.restarted
    split
    case h_4 => exact .refl j
    all_goals exact ⟨.refl j, .refl j, fun h => (nomatch h), rfl⟩
  | kept _ hjobs _ _ _ => exact origin_of_same hjobs hj'
  | cancelled jid _ hsys =>
    rw [hsys] at hj'
    refine origin_of_rewrites (Store.update_rewrites _ _ _) ?_ hj'
    exact fun j => ⟨.refl j, .refl j, fun h => (nomatch h), rfl⟩

/-! ## §B The first run of a publication -/

/-- What every state of the service keeps about jobs and their workers. -/
structure FirstRun (sys : System) : Prop where
  /-- a job is stored under its id -/
  ids : ∀ i j, sys.store.jobs.lookup i = some j → j.id = i
  /-- a publication that is still queued has no release -/
  queued : ∀ i j, sys.store.jobs.lookup i = some j → j.status = .queued → j.kind.isApply = true →
    j.releaseId = none
  /-- the job of a worker is stored, with the kind that the worker has read -/
  known : ∀ task w, sys.workers.lookup task = some w →
    ∃ j, sys.store.jobs.lookup w.job.id = some j ∧ j.kind = w.job.kind
  /-- a worker in the body of `run` has left the status `queued` behind -/
  past : ∀ task w, sys.workers.lookup task = some w → w.pc.inBody = true → w.pc ≠ .start →
    ∀ j, sys.store.jobs.lookup w.job.id = some j → j.kind.isApply = true → j.status ≠ .queued
  /-- a worker of a publication has read a job without a release -/
  unreleased : ∀ task w, sys.workers.lookup task = some w → w.job.kind.isApply = true →
    w.job.releaseId = none

theorem JobOrigin.same {sys : System} {e : Event} {i : String} {j' : Job}
    (h : JobOrigin sys e i j') :
    (∃ j, sys.store.jobs.lookup i = some j ∧ j.SameIdentity j') ∨
      sys.store.jobs.lookup i = none ∧ j'.id = i := by
  cases h with
  | continued j hj hc => exact Or.inl ⟨j, hj, hc.identity⟩
  | released task w j _ _ _ _ hj hid _ _ => exact Or.inl ⟨j, hj, hid⟩
  | submitted _ _ _ _ _ _ _ hnew hjob => exact Or.inr ⟨hnew, by rw [hjob]; rfl⟩
  | retried _ _ j _ hj _ hjob => exact Or.inl ⟨j, hj, by rw [hjob]; exact .refl j⟩

/-- No job disappears. -/
theorem System.job_kept {sys sys' : System} {e : Event} (h : sys.step e = some sys') {i : String}
    {j : Job} (hj : sys.store.jobs.lookup i = some j) :
    ∃ j', sys'.store.jobs.lookup i = some j' ∧ j.SameIdentity j' := by
  cases step_jobs h with
  | rewrites jid f hrw hid _ =>
    by_cases hi : i = jid
    · exact ⟨f j, by rw [hrw, if_pos hi, ← hi, hj]; rfl, hid j⟩
    · exact ⟨j, by rw [hrw, if_neg hi]; exact hj, .refl j⟩
  | submitted jid _ _ _ _ _ _ _ hfresh _ _ _ hjobs =>
    have hne : i ≠ jid := by
      rintro rfl
      rw [AList.lookup_eq_none.mpr hfresh] at hj
      exact absurd hj (by simp)
    exact ⟨j, by rw [hjobs, AList.lookup_insert_ne hne]; exact hj, .refl j⟩
  | restarted _ hjobs =>
    refine ⟨Store.restarted j, by rw [hjobs, Dict.lookup_mapValues, hj]; rfl, ?_⟩
    unfold Store.restarted
    split <;> exact .refl j

namespace Worker

/-- An exception leaves the body. -/
theorem raise_body (w : Worker) (exc : Exc) : (w.raise exc).pc.inBody = false := by
  obtain ⟨pc, h, hpc⟩ := raise_eq w exc
  rw [h]
  cases pc <;> first | rfl | exact absurd hpc Bool.false_ne_true

/-- A worker outside the body does not come back to it. -/
theorem work_body {s : Store} {w : Worker} {raises : Bool}
    (h : (w.work s raises).2.pc.inBody = true) : w.pc.inBody = true := by
  cases raises with
  | true => exact absurd h (by simp only [work, if_true, raise_body]; decide)
  | false =>
    cases hpc : w.pc <;> simp only [work, hpc, Bool.false_eq_true, if_false] at h <;> try rfl
    case stopped => split at h <;> exact absurd h Bool.false_ne_true
    case leave => split at h <;> exact absurd h Bool.false_ne_true
    case settle => exact absurd h Bool.false_ne_true
    case resumeFailed => exact absurd h Bool.false_ne_true
    all_goals exact h

theorem receive_body {w : Worker} {reply : Reply} (h : (w.receive reply).pc.inBody = true) :
    w.pc.inBody = true := by
  by_contra hno
  have hfailed : ∀ r, (w.callFailed r).pc.inBody = false := by
    intro r
    unfold callFailed
    split <;> exact raise_body w _
  unfold receive at h
  split at h
  case h_18 => split at h <;> exact absurd h Bool.false_ne_true
  case h_19 => exact absurd h Bool.false_ne_true
  case h_20 => exact absurd h Bool.false_ne_true
  case h_21 => exact absurd h (by rw [hfailed]; decide)
  all_goals exact hno (by simp only [*, Pc.inBody])

/-- The first checkpoint takes the job out of the queue. -/
theorem start_status {s : Store} {w : Worker} (hpc : w.pc = .start)
    (h : (w.work s false).2.pc.inBody = true) {j : Job}
    (hj : (w.work s false).1.jobs.lookup w.job.id = some j) : j.status ≠ .queued := by
  simp only [work, hpc, Bool.false_eq_true, if_false, checkpoint] at h hj
  split at h
  · next s' hs =>
    simp only [hs] at hj
    obtain ⟨j₀, hj₀, _, rfl⟩ := Store.transition_eq_ok.mp hs
    rw [Store.update_rewrites, if_pos rfl, hj₀] at hj
    obtain rfl := Option.some.inj hj
    simp
  · split at h
    · exact absurd h (by rw [raise_body]; decide)
    · exact absurd h (by rw [raise_body]; decide)

end Worker

/-- A worker that moves keeps its job. -/
theorem Worker.Moved.job {s s' : Store} {task : Nat} {w w' : Worker} {e : Event}
    (h : w.Moved s task e s' w') : w'.job = w.job := by
  cases h with
  | work raises _ _ => exact (Worker.work_keeps s w raises).job
  | reply answer _ => exact (Worker.receive_keeps w answer).job
  | stop _ => exact (Worker.Keeps.raise false w .cancelled).job

/-- A worker that is in the body after a move was there before. -/
theorem Worker.Moved.body {s s' : Store} {task : Nat} {w w' : Worker} {e : Event}
    (h : w.Moved s task e s' w') (hin : w'.pc.inBody = true) : w.pc.inBody = true := by
  cases h with
  | work raises _ _ => exact Worker.work_body hin
  | reply answer _ => exact Worker.receive_body hin
  | stop _ => exact absurd hin (by rw [Worker.raise_body]; decide)

/-- The job that a step other than the restart starts a worker for is stored under its id. -/
theorem Spawns.stored {sys : System} {s' : Store} {job : Job} {e : Event}
    (hids : ∀ i j, sys.store.jobs.lookup i = some j → j.id = i) (h : Spawns sys s' job e) :
    s'.jobs.lookup job.id = some job := by
  cases h with
  | submitted jid fallback kind target scope payload before _ hnew hjobs =>
    rw [hjobs, hnew]
    exact AList.lookup_insert _
  | retried jid payload executionId old hold _ hnew hstore =>
    have hid : job.id = jid := by
      rw [hnew]
      exact hids jid old hold
    rw [hstore, hid, Store.update_rewrites, if_pos rfl, hold, hnew]
    rfl

namespace FirstRun

variable {sys sys' : System} {e : Event}

theorem ids_step (h : FirstRun sys) (hstep : sys.step e = some sys') :
    ∀ i j, sys'.store.jobs.lookup i = some j → j.id = i := by
  intro i j' hj'
  rcases (System.job_origin hstep hj').same with ⟨j, hj, hid⟩ | ⟨_, hid⟩
  · exact hid.1.trans (h.ids i j hj)
  · exact hid

theorem queued_step (h : FirstRun sys) (hstep : sys.step e = some sys') :
    ∀ i j, sys'.store.jobs.lookup i = some j → j.status = .queued → j.kind.isApply = true →
      j.releaseId = none := by
  intro i j' hj' hq hkind
  cases System.job_origin hstep hj' with
  | continued j hj hc =>
    rw [hc.release]
    exact h.queued i j hj (hc.queued hq) (hc.identity.2.1 ▸ hkind)
  | released task w j _ hw hpc hown hj hid _ hstatus =>
    -- the worker is past its first checkpoint, so its job is not queued
    have hpast := h.past task w hw (by rw [hpc]; rfl) (by rw [hpc]; simp) j (hown ▸ hj)
      (hid.2.1 ▸ hkind)
    exact absurd (hstatus ▸ hq) hpast
  | submitted _ _ _ _ _ _ _ _ hjob =>
    rw [hjob]
    rfl
  | retried _ _ j _ _ hdel hjob =>
    rw [hjob] at hkind
    change j.kind.isApply = true at hkind
    rw [hdel] at hkind
    exact absurd hkind (by decide)

theorem known_step (h : FirstRun sys) (hstep : sys.step e = some sys') :
    ∀ task w, sys'.workers.lookup task = some w →
      ∃ j, sys'.store.jobs.lookup w.job.id = some j ∧ j.kind = w.job.kind := by
  intro task w' hw'
  have hkept : ∀ w : Worker, (∃ j, sys.store.jobs.lookup w.job.id = some j ∧ j.kind = w.job.kind) →
      ∃ j, sys'.store.jobs.lookup w.job.id = some j ∧ j.kind = w.job.kind := by
    rintro w ⟨j, hj, hkind⟩
    obtain ⟨j', hj', hid⟩ := System.job_kept hstep hj
    exact ⟨j', hj', hid.2.1.trans hkind⟩
  cases System.step_tasks hstep with
  | kept _ _ hworkers _ _ => exact hkept w' (h.known task w' (hworkers ▸ hw'))
  | cancelled _ _ hsys => exact hkept w' (h.known task w' (by rw [hsys] at hw'; exact hw'))
  | worker task' w w'' hfound hmoved hworkers _ _ =>
    rw [hworkers] at hw'
    rcases Dict.lookup_insert_cases hw' with ⟨rfl, rfl⟩ | ⟨_, hold⟩
    · rw [hmoved.job]
      exact hkept w (h.known task w hfound)
    · exact hkept w' (h.known task w' hold)
  | spawned job hspawns hworkers _ _ =>
    rw [hworkers] at hw'
    rcases Dict.lookup_insert_cases hw' with ⟨rfl, rfl⟩ | ⟨_, hold⟩
    · exact ⟨job, hspawns.stored h.ids, rfl⟩
    · exact hkept w' (h.known task w' hold)
  | reconciler _ _ _ _ _ hworkers _ _ => exact hkept w' (h.known task w' (hworkers ▸ hw'))
  | began _ _ _ _ _ _ hworkers _ _ => exact hkept w' (h.known task w' (hworkers ▸ hw'))
  | restarted _ hsys =>
    have hids := ids_step h hstep
    rw [hsys] at hw' hids ⊢
    obtain ⟨jid, job, hjob, _, rfl⟩ := System.restart_lookup hw'
    rw [← System.restart_store] at hjob
    exact ⟨job, by rw [show (Worker.spawned job).job.id = jid from hids jid job hjob]; exact hjob, rfl⟩

theorem past_step (h : FirstRun sys) (hstep : sys.step e = some sys') :
    ∀ task w, sys'.workers.lookup task = some w → w.pc.inBody = true → w.pc ≠ .start →
      ∀ j, sys'.store.jobs.lookup w.job.id = some j → j.kind.isApply = true → j.status ≠ .queued := by
  intro task w' hw' hin hpc j' hj' hkind
  -- the job of a worker that was past its first checkpoint stays out of the queue
  have hpast : ∀ task w, sys.workers.lookup task = some w → w.job = w'.job → w.pc.inBody = true →
      w.pc ≠ .start → j'.status ≠ .queued := by
    intro task w hw hjob hbody hstart hq
    rw [← hjob] at hj'
    cases System.job_origin hstep hj' with
    | continued j hj hc =>
      exact h.past task w hw hbody hstart j hj (hc.identity.2.1 ▸ hkind) (hc.queued hq)
    | released _ _ j _ _ _ _ hj hid _ hstatus =>
      exact h.past task w hw hbody hstart j hj (hid.2.1 ▸ hkind) (hstatus ▸ hq)
    | submitted _ _ _ _ _ _ _ hnew _ =>
      obtain ⟨j, hj, _⟩ := h.known task w hw
      rw [hnew] at hj
      exact absurd hj (by simp)
    | retried _ _ j _ _ hdel hjob =>
      rw [hjob] at hkind
      change j.kind.isApply = true at hkind
      rw [hdel] at hkind
      exact absurd hkind (by decide)
  rcases System.worker_origin hstep hw' with hold | ⟨w, hw, hmoved⟩ | ⟨job, rfl, _⟩
  · exact hpast task w' hold rfl hin hpc
  · by_cases hstart : w.pc = .start
    · generalize hs : sys'.store = s' at hmoved hj'
      cases hmoved with
      | work raises _ _ =>
        cases raises with
        | true => exact absurd hin (by simp [Worker.work, Worker.raise_body])
        | false =>
          rw [(Worker.work_keeps _ w false).job] at hj'
          exact Worker.start_status hstart hin hj'
      | reply answer hcall => simp [Worker.call, hstart] at hcall
      | stop hcall => simp [Worker.call, hstart] at hcall
    · exact hpast task w hw hmoved.job.symm (hmoved.body hin) hstart
  · exact absurd rfl hpc

theorem unreleased_step (h : FirstRun sys) (hstep : sys.step e = some sys') :
    ∀ task w, sys'.workers.lookup task = some w → w.job.kind.isApply = true →
      w.job.releaseId = none := by
  intro task w' hw' hkind
  cases System.step_tasks hstep with
  | kept _ _ hworkers _ _ => exact h.unreleased task w' (hworkers ▸ hw') hkind
  | cancelled _ _ hsys => exact h.unreleased task w' (by rw [hsys] at hw'; exact hw') hkind
  | worker task' w w'' hfound hmoved hworkers _ _ =>
    rw [hworkers] at hw'
    rcases Dict.lookup_insert_cases hw' with ⟨rfl, rfl⟩ | ⟨_, hold⟩
    · rw [hmoved.job] at hkind ⊢
      exact h.unreleased task w hfound hkind
    · exact h.unreleased task w' hold hkind
  | spawned job hspawns hworkers _ _ =>
    rw [hworkers] at hw'
    rcases Dict.lookup_insert_cases hw' with ⟨rfl, rfl⟩ | ⟨_, hold⟩
    · cases hspawns with
      | submitted _ _ _ _ _ _ _ _ hnew _ =>
        rw [hnew]
        rfl
      | retried _ _ _ old _ hdel hnew _ =>
        rw [hnew] at hkind
        rw [show (Worker.spawned (Store.retried _ _ old)).job.kind = old.kind from rfl, hdel] at hkind
        exact absurd hkind (by decide)
    · exact h.unreleased task w' hold hkind
  | reconciler _ _ _ _ _ hworkers _ _ => exact h.unreleased task w' (hworkers ▸ hw') hkind
  | began _ _ _ _ _ _ hworkers _ _ => exact h.unreleased task w' (hworkers ▸ hw') hkind
  | restarted _ hsys =>
    have hqueued := queued_step h hstep
    rw [hsys] at hw' hqueued
    obtain ⟨jid, job, hjob, hq, rfl⟩ := System.restart_lookup hw'
    rw [← System.restart_store] at hjob
    exact hqueued jid job hjob hq hkind

theorem step (h : FirstRun sys) (hstep : sys.step e = some sys') : FirstRun sys' :=
  ⟨ids_step h hstep, queued_step h hstep, known_step h hstep, past_step h hstep,
    unreleased_step h hstep⟩

theorem initial : FirstRun System.initial where
  ids i j hj := by simp [System.initial, Store.empty] at hj
  queued i j hj := by simp [System.initial, Store.empty] at hj
  known task w hw := by simp [System.initial] at hw
  past task w hw := by simp [System.initial] at hw
  unreleased task w hw := by simp [System.initial] at hw

end FirstRun

/-- **A publication is run once**, without a release at its start. -/
theorem first_run {es : List Event} {sys : System}
    (hrun : operations.run System.initial es = some sys) : FirstRun sys :=
  operations.run_always (fun _ _ _ h hstep => h.step hstep) FirstRun.initial hrun

end OpencodeCloud.Operations
