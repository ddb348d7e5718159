/-
# OpencodeCloud.Operations.Steps -- what one step does to the jobs

Every later invariant of the operations service is about the jobs of the database, so what a step can
do to them is said once. `Rewrites s s' jid f` says that `s'` is `s` with `f` applied to one job (and
`f` is the identity where a step leaves the jobs alone); `step_jobs` says that every step rewrites one
job without touching its identity, admits a new one, or is the restart. The lease-holding statuses
are part of the statement: a rewrite makes a job a holder only if it was one before or the step is one
of the two of `TakesBy`.
-/
import OpencodeCloud.Operations.System

namespace OpencodeCloud.Operations

open OpencodeCloud.Library OpencodeCloud.Catalog

/-! ## §A The transactions -/

/-- What no write of the service ever changes in a job. -/
def Job.SameIdentity (a b : Job) : Prop :=
  b.id = a.id ∧ b.kind = a.kind ∧ b.target = a.target ∧ b.scope = a.scope

@[simp] theorem Job.SameIdentity.refl (a : Job) : a.SameIdentity a := ⟨rfl, rfl, rfl, rfl⟩

namespace Store

/-- `s'` has the jobs of `s` with `f` applied to the job `jid`. -/
def Rewrites (s s' : Store) (jid : String) (f : Job → Job) : Prop :=
  ∀ i, s'.jobs.lookup i =
    if i = jid then (s.jobs.lookup jid).map f else s.jobs.lookup i

theorem update_rewrites (s : Store) (jid : String) (f : Job → Job) :
    Rewrites s (s.update jid f) jid f := by
  intro i
  by_cases hi : i = jid
  · subst hi
    simp [update]
  · simp [update, hi]

theorem rewrites_of_jobs_eq {s s' : Store} (jid : String) (h : s'.jobs = s.jobs) :
    Rewrites s s' jid id := by
  intro i
  by_cases hi : i = jid
  · subst hi
    simp [h]
  · simp [h, hi]

theorem transition_eq_ok {s s' : Store} {jid : String} {allowed : Status → Bool} {f : Job → Job} :
    s.transition jid allowed f = .ok s' ↔
      ∃ j, s.jobs.lookup jid = some j ∧ allowed j.status = true ∧ s' = s.update jid f := by
  unfold transition
  cases hj : s.jobs.lookup jid with
  | none => simp [fail]
  | some j =>
    by_cases ha : allowed j.status = true
    · simp only [ha, if_true, Except.ok.injEq, Option.some.injEq]
      constructor
      · rintro rfl
        exact ⟨j, rfl, ha, rfl⟩
      · rintro ⟨_, rfl, _, rfl⟩
        rfl
    · simp [ha, fail]

/-- `submit` admits a job, or replays one and changes nothing. -/
theorem submit_eq_ok {s s' : Store} {jid fallback target scope : String} {kind : Kind}
    {payload : Payload} {before : Option SandboxBefore} {job : Job} {created : Bool}
    (h : s.submit jid fallback kind target scope payload before = .ok (s', job, created)) :
    (created = false ∧ s' = s) ∨
    (created = true ∧ s.pinned scope = false ∧ s.leaseHeld scope = false ∧
      job = newJob jid (payload.request.requestId.getD fallback) kind target scope payload before ∧
      s' = { s with jobs := s.jobs.insert jid job }) := by
  unfold submit at h
  cases hr : s.byRequest (payload.request.requestId.getD fallback) with
  | some old =>
    simp only [hr] at h
    split at h
    · simp [fail] at h
    · simp only [Except.ok.injEq, Prod.mk.injEq] at h
      exact Or.inl ⟨h.2.2.symm, h.1.symm⟩
  | none =>
    simp only [hr, bind_eq_ok, refuse_eq_ok] at h
    obtain ⟨_, hpin, _, hheld, hret⟩ := h
    simp only [pure, Except.pure, Except.ok.injEq, Prod.mk.injEq] at hret
    obtain ⟨rfl, rfl, rfl⟩ := hret
    exact Or.inr ⟨rfl, hpin, hheld, rfl, rfl⟩

/-- `retry_deletion` re-admits a deletion, or replays and changes nothing. -/
theorem retryDeletion_eq_ok {s s' : Store} {jid executionId : String} {payload : Payload}
    {job : Job} {created : Bool}
    (h : s.retryDeletion jid payload executionId = .ok (s', job, created)) :
    (created = false ∧ s' = s) ∨
    (created = true ∧ ∃ old, s.jobs.lookup jid = some old ∧ old.kind = .agentDelete ∧
      old.status.reconcilable = true ∧ s.heldByAnother jid old.scope = false ∧
      job = retried payload executionId old ∧
      s' = s.update jid (retried payload executionId)) := by
  unfold retryDeletion at h
  cases hj : s.jobs.lookup jid with
  | none => simp [hj, fail] at h
  | some old =>
    simp only [hj] at h
    split at h
    · split at h
      · simp [fail] at h
      · simp only [Except.ok.injEq, Prod.mk.injEq] at h
        exact Or.inl ⟨h.2.2.symm, h.1.symm⟩
    · simp only [bind_eq_ok, refuse_eq_ok, Bool.or_eq_false_iff, bne_eq_false_iff_eq,
        Bool.not_eq_false'] at h
      obtain ⟨_, ⟨hkind, hstat⟩, _, hheld, hret⟩ := h
      simp only [pure, Except.pure, Except.ok.injEq, Prod.mk.injEq] at hret
      obtain ⟨rfl, rfl, rfl⟩ := hret
      exact Or.inr ⟨rfl, old, rfl, hkind, hstat, hheld, rfl, rfl⟩

@[simp] theorem restarted_scope (j : Job) : (restarted j).scope = j.scope := by
  unfold restarted
  split <;> rfl

@[simp] theorem restarted_kind (j : Job) : (restarted j).kind = j.kind := by
  unfold restarted
  split <;> rfl

@[simp] theorem restarted_leaseHolding (j : Job) :
    (restarted j).status.leaseHolding = j.status.leaseHolding := by
  unfold restarted
  split <;> simp_all [Status.leaseHolding]

end Store

/-- `LoadTestStore.create` admits a test, or replays one and changes nothing. -/
theorem Store.createLoadTest_eq_ok {s s' : Store} {agents : Dict String Agent} {hex rid : String}
    {request : LoadRequest} {created : Bool}
    (h : s.createLoadTest agents hex request = .ok (s', rid, created)) :
    (created = false ∧ s' = s) ∨
    (created = true ∧ rid = "lt_" ++ hex ∧
      (s.jobs.any fun _ j => blocksLoadTest j.status &&
        (j.scope == everyAgent || request.agents.any fun a => a.agentId == j.scope)) = false ∧
      ∃ test : LoadTest, test.id = rid ∧ test.request = request ∧ test.status = .queued ∧
        s' = { s with
          loadTests := s.loadTests.insert rid test
          loadTestUsers := addUsers s.loadTestUsers hex 1 (requestedUsers request) }) := by
  unfold createLoadTest at h
  split at h
  · split at h
    · simp [fail] at h
    · simp only [Except.ok.injEq, Prod.mk.injEq] at h
      exact Or.inl ⟨h.2.2.symm, h.1.symm⟩
  · simp only [bind_eq_ok, refuse_eq_ok] at h
    obtain ⟨_, _, _, hjobs, snapshots, _, hret⟩ := h
    simp only [pure, Except.pure, Except.ok.injEq, Prod.mk.injEq] at hret
    obtain ⟨rfl, rfl, rfl⟩ := hret
    exact Or.inr ⟨rfl, rfl, hjobs, _, rfl, rfl, rfl, rfl⟩

theorem loadRun_jobs {s s' : Store} {rid : String} {test : LoadTest} {pc next : LoadPc}
    {outcome : LoadOutcome} (h : loadRun s rid test pc outcome = some (s', next)) :
    s'.jobs = s.jobs := by
  unfold loadRun at h
  split at h
  · split at h
    · simp only [Option.some.injEq, Prod.mk.injEq] at h
      rw [← h.1]
    · split at h
      · simp only [Option.some.injEq, Prod.mk.injEq] at h
        rw [← h.1, Store.updateLoadTest]
      · split at h <;> simp only [Option.some.injEq, Prod.mk.injEq] at h <;>
          rw [← h.1, Store.updateLoadTest]
  all_goals
    first
    | (simp only [Option.some.injEq, Prod.mk.injEq] at h
       rw [← h.1, Store.updateLoadTest])
    | simp at h

/-! ## §B The writes of the tasks -/

namespace Worker

/-- The next write of the worker forces its job into a lease-holding status, whatever the status is
now. -/
def retakes (w : Worker) : Bool :=
  match w.pc with
  | .stoppedMark => true
  | .settle _ => w.settledStatus.leaseHolding
  | .resumeFailed => true
  | _ => false

/-- A write that keeps the identity of its job, and makes it a holder only from a holding status or
by `retakes`. -/
def Writes (s : Store) (w : Worker) (s' : Store) (f : Job → Job) : Prop :=
  Store.Rewrites s s' w.job.id f ∧ (∀ j : Job, j.SameIdentity (f j)) ∧
    ∀ j, s.jobs.lookup w.job.id = some j → (f j).status.leaseHolding = true →
      j.status.leaseHolding = true ∨ w.retakes = true

theorem writes_same {s s' : Store} (w : Worker) (h : s'.jobs = s.jobs) : Writes s w s' id :=
  ⟨Store.rewrites_of_jobs_eq _ h, Job.SameIdentity.refl, fun _ _ hh => Or.inl hh⟩

theorem checkpoint_writes {s : Store} {w next : Worker} {f : Job → Job}
    (hid : ∀ j : Job, j.SameIdentity (f j)) : ∃ g, Writes s w (w.checkpoint s f next).1 g := by
  unfold checkpoint
  cases ht : s.transition w.job.id Status.inProgress f with
  | error e =>
    simp only
    split <;> exact ⟨id, writes_same w rfl⟩
  | ok s' =>
    obtain ⟨j, hj, hprog, rfl⟩ := Store.transition_eq_ok.mp ht
    refine ⟨f, Store.update_rewrites s _ f, hid, fun j' hj' _ => ?_⟩
    obtain rfl : j = j' := Option.some.inj (hj.symm.trans hj')
    exact Or.inl (Status.leaseHolding_of_inProgress hprog)

/-- **One write of a worker**, at every statement. -/
theorem work_writes (s : Store) (w : Worker) (raises : Bool) :
    ∃ f, Store.Rewrites s (w.work s raises).1 w.job.id f ∧ (∀ j : Job, j.SameIdentity (f j)) ∧
      ∀ j, s.jobs.lookup w.job.id = some j → (f j).status.leaseHolding = true →
        j.status.leaseHolding = true ∨ (raises = false ∧ w.retakes = true) := by
  cases raises with
  | true => exact ⟨id, Store.rewrites_of_jobs_eq _ rfl, Job.SameIdentity.refl, fun _ _ hh => Or.inl hh⟩
  | false =>
    suffices h : ∃ f, Writes s w (w.work s false).1 f by
      obtain ⟨f, hrw, hid, hst⟩ := h
      exact ⟨f, hrw, hid, fun j hj hh => (hst j hj hh).imp_right fun hr => ⟨rfl, hr⟩⟩
    have update : ∀ f : Job → Job, (∀ j : Job, j.SameIdentity (f j)) →
        (∀ j, (f j).status.leaseHolding = true →
          j.status.leaseHolding = true ∨ w.retakes = true) →
        ∃ g, Writes s w (s.update w.job.id f) g := fun f hid hst =>
      ⟨f, Store.update_rewrites s _ f, hid, fun j _ => hst j⟩
    have identity : ∀ j : Job, j.SameIdentity j := Job.SameIdentity.refl
    cases hpc : w.pc with
    | start | validateMark | quiesceMark | applyMark | verifyMark | commitMark =>
      simp only [work, hpc, Bool.false_eq_true, if_false]
      exact checkpoint_writes fun j => identity j
    | sandboxDeletedMark | filesDeletedMark =>
      simp only [work, hpc, Bool.false_eq_true, if_false]
      exact update _ (fun j => identity j) fun j hh => Or.inl hh
    | desiredMark =>
      simp only [work, hpc, Bool.false_eq_true, if_false]
      split <;> exact ⟨id, writes_same w rfl⟩
    | finish =>
      simp only [work, hpc, Bool.false_eq_true, if_false]
      exact update _ (fun j => identity j) fun j hh => by simp [Status.leaseHolding] at hh
    | stoppedMark =>
      simp only [work, hpc, Bool.false_eq_true, if_false]
      exact update _ (fun j => identity j) fun j _ => Or.inr (by simp [retakes, hpc])
    | settle exc =>
      simp only [work, hpc, Bool.false_eq_true, if_false]
      refine update _ (fun j => identity j) fun j hh => Or.inr ?_
      simpa [retakes, hpc] using hh
    | resumeFailed =>
      simp only [work, hpc, Bool.false_eq_true, if_false]
      exact update _ (fun j => identity j) fun j _ => Or.inr (by simp [retakes, hpc])
    | stopped | leave =>
      simp only [work, hpc, Bool.false_eq_true, if_false]
      split <;> exact ⟨id, writes_same w rfl⟩
    | _ =>
      simp only [work, hpc, Bool.false_eq_true, if_false]
      exact ⟨id, writes_same w rfl⟩

end Worker

/-- A reconciliation never makes a job a holder. -/
theorem Reconciler.work_writes (s : Store) (t : Reconciler) (raises : Bool) :
    ∃ f, Store.Rewrites s (t.work s raises).1 t.job.id f ∧ (∀ j : Job, j.SameIdentity (f j)) ∧
      ∀ j, (f j).status.leaseHolding = true → j.status.leaseHolding = true := by
  have same : ∀ s' : Store, s'.jobs = s.jobs →
      ∃ f, Store.Rewrites s s' t.job.id f ∧ (∀ j : Job, j.SameIdentity (f j)) ∧
        ∀ j, (f j).status.leaseHolding = true → j.status.leaseHolding = true := fun s' h =>
    ⟨id, Store.rewrites_of_jobs_eq _ h, Job.SameIdentity.refl, fun _ hh => hh⟩
  cases raises with
  | true => exact same _ rfl
  | false =>
    cases hpc : t.pc with
    | finish =>
      simp only [work, hpc, Bool.false_eq_true, if_false]
      exact ⟨_, Store.update_rewrites s _ _, fun j => Job.SameIdentity.refl j,
        fun j hh => by simp [Status.leaseHolding] at hh⟩
    | desiredMark =>
      simp only [work, hpc, Bool.false_eq_true, if_false]
      exact same _ rfl
    | _ =>
      simp only [work, hpc, Bool.false_eq_true, if_false]
      exact same _ rfl

/-! ## §C The steps of the service -/

/-- The two rewrites that can make an existing job a holder: the retry of a deletion, and a worker's
write that does not look at the status. -/
inductive TakesBy (sys : System) : Event → String → Job → Prop
  | retry {jid executionId : String} {payload : Payload} {old : Job}
      (deletion : old.kind = .agentDelete) (ended : old.status.reconcilable = true)
      (free : sys.store.heldByAnother jid old.scope = false) :
      TakesBy sys (.retry jid payload executionId) jid old
  | work {task : Nat} {w : Worker} {old : Job} (running : sys.workers.lookup task = some w)
      (retakes : w.retakes = true) : TakesBy sys (.work task false) w.job.id old

/-- What a step does to the jobs. -/
inductive JobsStep (sys : System) (e : Event) (s' : Store) : Prop
  | rewrites (jid : String) (f : Job → Job) (rewrites : Store.Rewrites sys.store s' jid f)
      (identity : ∀ j : Job, j.SameIdentity (f j))
      (holds : ∀ j, sys.store.jobs.lookup jid = some j → (f j).status.leaseHolding = true →
        j.status.leaseHolding = true ∨ TakesBy sys e jid j)
  | submitted (jid fallback : String) (kind : Kind) (target scope : String) (payload : Payload)
      (before : Option SandboxBefore)
      (event : e = .submit jid fallback kind target scope payload before)
      (fresh : jid ∉ sys.store.jobs) (admitted : admissible kind target scope = true)
      (unpinned : sys.store.pinned scope = false) (free : sys.store.leaseHeld scope = false)
      (jobs : s'.jobs = sys.store.jobs.insert jid (Store.newJob jid
        (payload.request.requestId.getD fallback) kind target scope payload before))
  | restarted (event : e = .restart) (jobs : s'.jobs = sys.store.jobs.mapValues Store.restarted)

/-- A step that leaves the jobs alone. -/
theorem JobsStep.same {sys : System} {e : Event} {s' : Store} (h : s'.jobs = sys.store.jobs) :
    JobsStep sys e s' :=
  .rewrites "" id (Store.rewrites_of_jobs_eq _ h) Job.SameIdentity.refl fun _ _ hh => Or.inl hh

namespace System

theorem cancel_jobs {sys sys' : System} {jid : String} (h : sys.cancel jid = some sys') :
    JobsStep sys (.cancel jid) sys'.store := by
  unfold cancel at h
  split at h
  · obtain rfl := Option.some.inj h
    exact .same rfl
  · split at h
    · obtain rfl := Option.some.inj h
      exact .same rfl
    · split at h
      · rename_i s hs
        obtain rfl := Option.some.inj h
        obtain ⟨j, _, _, rfl⟩ := Store.transition_eq_ok.mp hs
        exact .rewrites jid _ (Store.update_rewrites _ _ _) (fun j => Job.SameIdentity.refl j)
          fun j _ hh => by simp [Status.leaseHolding] at hh
      · obtain rfl := Option.some.inj h
        exact .same rfl

/-- **What a step of the service does to the jobs.** -/
theorem step_jobs {sys sys' : System} {e : Event} (h : sys.step e = some sys') :
    JobsStep sys e sys'.store := by
  cases e with
  | submit jid fallback kind target scope payload before =>
    simp only [step, submit] at h
    split at h
    · simp at h
    · rename_i hguard
      rw [not_or, Bool.not_eq_false] at hguard
      split at h
      · rename_i s job hs
        obtain rfl := Option.some.inj h
        rcases Store.submit_eq_ok hs with ⟨hf, _⟩ | ⟨_, hpin, hfree, rfl, rfl⟩
        · simp at hf
        · exact .submitted jid fallback kind target scope payload before rfl hguard.1 hguard.2
            hpin hfree rfl
      · obtain rfl := Option.some.inj h
        exact .same rfl
  | retry jid payload executionId =>
    simp only [step, retry] at h
    split at h
    · rename_i s job hs
      obtain rfl := Option.some.inj h
      rcases Store.retryDeletion_eq_ok hs with ⟨hf, _⟩ | ⟨_, old, hold, hkind, hst, hfree, _, rfl⟩
      · simp at hf
      · refine .rewrites jid _ (Store.update_rewrites _ _ _) (fun j => Job.SameIdentity.refl j)
          fun j hj _ => Or.inr ?_
        obtain rfl : old = j := Option.some.inj (hold.symm.trans hj)
        exact .retry hkind hst hfree
    · obtain rfl := Option.some.inj h
      exact .same rfl
  | work task raises =>
    obtain ⟨w, hw, _, _, rfl⟩ := work_eq_some.mp h
    obtain ⟨f, hrw, hid, hst⟩ := w.work_writes sys.store raises
    refine .rewrites w.job.id f hrw hid fun j hj hh => ?_
    rcases hst j hj hh with hold | ⟨rfl, hret⟩
    · exact Or.inl hold
    · exact Or.inr (.work hw hret)
  | reply task answer =>
    obtain ⟨w, _, _, rfl⟩ := reply_eq_some.mp h
    exact .same rfl
  | stop task =>
    obtain ⟨w, _, _, rfl⟩ := stop_eq_some.mp h
    exact .same rfl
  | cancel jid => exact cancel_jobs h
  | reconcile jid requestId =>
    simp only [step, reconcile] at h
    split at h <;> (obtain rfl := Option.some.inj h; exact .same rfl)
  | reconcileWork task raises =>
    obtain ⟨t, _, _, _, rfl⟩ := reconcileWork_eq_some.mp h
    obtain ⟨f, hrw, hid, hst⟩ := t.work_writes sys.store raises
    exact .rewrites t.job.id f hrw hid fun j _ hh => Or.inl (hst j hh)
  | reconcileReply task answer =>
    obtain ⟨t, _, _, rfl⟩ := reconcileReply_eq_some.mp h
    exact .same rfl
  | restart =>
    obtain rfl := Option.some.inj h
    exact .restarted rfl (by rw [restart_store]; rfl)
  | createLoadTest agents hex request =>
    simp only [step, createLoadTest] at h
    split at h
    · simp at h
    · split at h
      · rename_i s rid hs
        obtain rfl := Option.some.inj h
        rcases Store.createLoadTest_eq_ok hs with ⟨hf, _⟩ | ⟨_, _, _, _, _, _, _, rfl⟩
        · simp at hf
        · exact .same rfl
      · obtain rfl := Option.some.inj h
        exact .same rfl
  | loadStep rid outcome =>
    simp only [step, loadStep, Option.bind_eq_bind, Option.bind_eq_some_iff] at h
    obtain ⟨test, _, pc, _, ⟨s, next⟩, hrun, hret⟩ := h
    obtain rfl := Option.some.inj hret
    exact .same (loadRun_jobs hrun)
  | cancelLoadTest rid =>
    simp only [step, cancelLoadTest] at h
    split at h
    · obtain rfl := Option.some.inj h
      exact .same rfl
    · split at h <;> (obtain rfl := Option.some.inj h; exact .same rfl)
  | cleanupLoadTest rid confirmation =>
    simp only [step, cleanupLoadTest] at h
    split at h
    · obtain rfl := Option.some.inj h
      exact .same rfl
    · split at h
      · obtain rfl := Option.some.inj h
        exact .same rfl
      · split at h <;> (obtain rfl := Option.some.inj h; exact .same rfl)
  | cleanedUser rid username =>
    simp only [step, cleanedUser] at h
    split at h
    · obtain rfl := Option.some.inj h
      exact .same rfl
    · simp at h
  | cleanupEnd rid succeeded =>
    simp only [step, cleanupEnd] at h
    split at h
    · obtain rfl := Option.some.inj h
      exact .same rfl
    · simp at h

end System

/-! ## §D Which jobs come into progress -/

namespace Store

/-- No job comes into progress that was not. -/
def NoneStarts (s s' : Store) : Prop :=
  ∀ i j', s'.jobs.lookup i = some j' → j'.status.inProgress = true →
    ∃ j, s.jobs.lookup i = some j ∧ j.kind = j'.kind ∧ j.status.inProgress = true

theorem NoneStarts.same {s s' : Store} (h : s'.jobs = s.jobs) : NoneStarts s s' :=
  fun _ j' hj hprog => ⟨j', h ▸ hj, rfl, hprog⟩

theorem NoneStarts.update {s : Store} {jid : String} {f : Job → Job} (hkind : ∀ j, (f j).kind = j.kind)
    (hprog : ∀ j, s.jobs.lookup jid = some j → (f j).status.inProgress = true →
      j.status.inProgress = true) : NoneStarts s (s.update jid f) := by
  intro i j' hj hin
  rw [update_rewrites s jid f i] at hj
  split at hj
  · next hi =>
    subst hi
    obtain ⟨j, hold, rfl⟩ := Option.map_eq_some_iff.mp hj
    exact ⟨j, hold, (hkind j).symm, hprog j hold hin⟩
  · exact ⟨j', hj, rfl, hin⟩

theorem noneStarts_checkpoint {s : Store} {w next : Worker} {f : Job → Job}
    (hkind : ∀ j, (f j).kind = j.kind) : NoneStarts s (w.checkpoint s f next).1 := by
  unfold Worker.checkpoint
  cases ht : s.transition w.job.id Status.inProgress f with
  | error e =>
    simp only
    split <;> exact .same rfl
  | ok s' =>
    obtain ⟨j, hj, hprog, rfl⟩ := Store.transition_eq_ok.mp ht
    refine .update hkind fun j' hj' _ => ?_
    obtain rfl : j = j' := Option.some.inj (hj.symm.trans hj')
    exact hprog

theorem noneStarts_work (s : Store) (w : Worker) (raises : Bool) :
    NoneStarts s (w.work s raises).1 := by
  cases raises with
  | true => exact .same rfl
  | false =>
    have settled : ∀ f : Job → Job, (∀ j, (f j).kind = j.kind) →
        (∀ j, (f j).status.inProgress = false) → NoneStarts s (s.update w.job.id f) :=
      fun f hkind hst => .update hkind fun j _ hin => by rw [hst j] at hin; cases hin
    have hstopped : w.stoppedStatus.inProgress = false := by
      unfold Worker.stoppedStatus
      split <;> rfl
    have hsettled : w.settledStatus.inProgress = false := by
      unfold Worker.settledStatus
      split <;> rfl
    cases hpc : w.pc with
    | start | validateMark | quiesceMark | applyMark | verifyMark | commitMark =>
      simp only [Worker.work, hpc, Bool.false_eq_true, if_false]
      exact noneStarts_checkpoint fun j => rfl
    | sandboxDeletedMark | filesDeletedMark =>
      simp only [Worker.work, hpc, Bool.false_eq_true, if_false]
      exact .update (fun j => rfl) fun j _ hin => hin
    | desiredMark =>
      simp only [Worker.work, hpc, Bool.false_eq_true, if_false]
      split <;> exact .same rfl
    | finish =>
      simp only [Worker.work, hpc, Bool.false_eq_true, if_false]
      exact settled _ (fun j => rfl) fun j => rfl
    | stoppedMark =>
      simp only [Worker.work, hpc, Bool.false_eq_true, if_false]
      exact settled _ (fun j => rfl) fun j => hstopped
    | settle exc =>
      simp only [Worker.work, hpc, Bool.false_eq_true, if_false]
      exact settled _ (fun j => rfl) fun j => hsettled
    | resumeFailed =>
      simp only [Worker.work, hpc, Bool.false_eq_true, if_false]
      exact settled _ (fun j => rfl) fun j => rfl
    | stopped | leave =>
      simp only [Worker.work, hpc, Bool.false_eq_true, if_false]
      split <;> exact .same rfl
    | _ =>
      simp only [Worker.work, hpc, Bool.false_eq_true, if_false]
      exact .same rfl

theorem noneStarts_reconcile (s : Store) (t : Reconciler) (raises : Bool) :
    NoneStarts s (t.work s raises).1 := by
  cases raises with
  | true => exact .same rfl
  | false =>
    cases hpc : t.pc with
    | finish =>
      simp only [Reconciler.work, hpc, Bool.false_eq_true, if_false]
      exact .update (fun j => rfl) fun j _ hin => by cases hin
    | _ =>
      simp only [Reconciler.work, hpc, Bool.false_eq_true, if_false]
      exact .same rfl

theorem noneStarts_restart (s : Store) : NoneStarts s s.restart := by
  intro i j' hj hin
  change (s.jobs.mapValues restarted).lookup i = some j' at hj
  rw [Dict.lookup_mapValues, Option.map_eq_some_iff] at hj
  obtain ⟨j, hold, rfl⟩ := hj
  refine ⟨j, hold, (restarted_kind j).symm, ?_⟩
  unfold restarted at hin
  split at hin
  · cases hin
  · cases hin
  · cases hin
  · exact hin

end Store

/-- What brings a job into progress. -/
def Starts (sys : System) (e : Event) (s' : Store) : Prop :=
  ∀ i j', s'.jobs.lookup i = some j' → j'.status.inProgress = true →
    (∃ j, sys.store.jobs.lookup i = some j ∧ j.kind = j'.kind ∧ j.status.inProgress = true) ∨
    (∃ fallback target scope payload before,
      e = .submit i fallback j'.kind target scope payload before ∧ i ∉ sys.store.jobs) ∨
    j'.kind = .agentDelete

theorem Starts.of_none {sys : System} {e : Event} {s' : Store} (h : Store.NoneStarts sys.store s') :
    Starts sys e s' :=
  fun i j' hj hin => .inl (h i j' hj hin)

theorem Starts.same {sys : System} {e : Event} {s' : Store} (h : s'.jobs = sys.store.jobs) :
    Starts sys e s' :=
  .of_none (.same h)

/-- **A job comes into progress** when it is submitted, or when a deletion is retried. -/
theorem System.step_starts {sys sys' : System} {e : Event} (h : sys.step e = some sys') :
    Starts sys e sys'.store := by
  cases e with
  | submit jid fallback kind target scope payload before =>
    simp only [step, submit] at h
    split at h
    · cases h
    · next hguard =>
      split at h
      · next s job hs =>
        obtain rfl := Option.some.inj h
        rcases Store.submit_eq_ok hs with ⟨hf, _⟩ | ⟨_, _, _, rfl, rfl⟩
        · cases hf
        · intro i j' hj hin
          change (sys.store.jobs.insert jid _).lookup i = some j' at hj
          by_cases hi : i = jid
          · subst hi
            rw [AList.lookup_insert, Option.some.injEq] at hj
            subst hj
            exact .inr (.inl ⟨fallback, target, scope, payload, before, rfl, (not_or.mp hguard).1⟩)
          · rw [AList.lookup_insert_ne hi] at hj
            exact .inl ⟨j', hj, rfl, hin⟩
      · obtain rfl := Option.some.inj h
        exact .same rfl
  | retry jid payload executionId =>
    simp only [step, retry] at h
    split at h
    · next s job hs =>
      obtain rfl := Option.some.inj h
      rcases Store.retryDeletion_eq_ok hs with ⟨hf, _⟩ | ⟨_, old, hold, hkind, _, _, _, rfl⟩
      · cases hf
      · intro i j' hj hin
        change (sys.store.update jid _).jobs.lookup i = some j' at hj
        rw [Store.update_rewrites sys.store jid _ i] at hj
        split at hj
        · obtain ⟨j, hsame, rfl⟩ := Option.map_eq_some_iff.mp hj
          obtain rfl := Option.some.inj (hold.symm.trans hsame)
          exact .inr (.inr hkind)
        · exact .inl ⟨j', hj, rfl, hin⟩
    · obtain rfl := Option.some.inj h
      exact .same rfl
  | work task raises =>
    obtain ⟨w, _, _, _, rfl⟩ := work_eq_some.mp h
    exact .of_none (Store.noneStarts_work _ w raises)
  | reply task answer =>
    obtain ⟨w, _, _, rfl⟩ := reply_eq_some.mp h
    exact .same rfl
  | stop task =>
    obtain ⟨w, _, _, rfl⟩ := stop_eq_some.mp h
    exact .same rfl
  | cancel jid =>
    simp only [step, cancel] at h
    split at h
    · obtain rfl := Option.some.inj h
      exact .same rfl
    · split at h
      · obtain rfl := Option.some.inj h
        exact .same rfl
      · split at h
        · next s hs =>
          obtain rfl := Option.some.inj h
          obtain ⟨j, _, _, rfl⟩ := Store.transition_eq_ok.mp hs
          exact .of_none (.update (fun j => rfl) fun j _ hin => by cases hin)
        · obtain rfl := Option.some.inj h
          exact .same rfl
  | reconcile jid requestId =>
    simp only [step, reconcile] at h
    split at h <;> (obtain rfl := Option.some.inj h; exact .same rfl)
  | reconcileWork task raises =>
    obtain ⟨t, _, _, _, rfl⟩ := reconcileWork_eq_some.mp h
    exact .of_none (Store.noneStarts_reconcile _ t raises)
  | reconcileReply task answer =>
    obtain ⟨t, _, _, rfl⟩ := reconcileReply_eq_some.mp h
    exact .same rfl
  | restart =>
    obtain rfl := Option.some.inj h
    rw [restart_store]
    exact .of_none (Store.noneStarts_restart sys.store)
  | createLoadTest agents hex request =>
    simp only [step, createLoadTest] at h
    split at h
    · cases h
    · split at h
      · next s rid hs =>
        obtain rfl := Option.some.inj h
        rcases Store.createLoadTest_eq_ok hs with ⟨hf, _⟩ | ⟨_, _, _, _, _, _, _, rfl⟩
        · cases hf
        · exact .same rfl
      · obtain rfl := Option.some.inj h
        exact .same rfl
  | loadStep rid outcome =>
    simp only [step, loadStep, Option.bind_eq_bind, Option.bind_eq_some_iff] at h
    obtain ⟨test, _, pc, _, ⟨s, next⟩, hrun, hret⟩ := h
    obtain rfl := Option.some.inj hret
    exact .same (loadRun_jobs hrun)
  | cancelLoadTest rid =>
    simp only [step, cancelLoadTest] at h
    split at h
    · obtain rfl := Option.some.inj h
      exact .same rfl
    · split at h <;> (obtain rfl := Option.some.inj h; exact .same rfl)
  | cleanupLoadTest rid confirmation =>
    simp only [step, cleanupLoadTest] at h
    split at h
    · obtain rfl := Option.some.inj h
      exact .same rfl
    · split at h
      · obtain rfl := Option.some.inj h
        exact .same rfl
      · split at h <;> (obtain rfl := Option.some.inj h; exact .same rfl)
  | cleanedUser rid username =>
    simp only [step, cleanedUser] at h
    split at h
    · obtain rfl := Option.some.inj h
      exact .same rfl
    · cases h
  | cleanupEnd rid succeeded =>
    simp only [step, cleanupEnd] at h
    split at h
    · obtain rfl := Option.some.inj h
      exact .same rfl
    · cases h

end OpencodeCloud.Operations
