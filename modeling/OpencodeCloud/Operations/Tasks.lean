/-
# OpencodeCloud.Operations.Tasks -- what one step does to the tasks

`OpencodeCloud.Operations.Steps` says what a step does to the jobs; this module says what it does to the
workers and reconciliations: it moves one of them, starts one, or is the restart, which ends them all
and runs the queued jobs again. What a later module says of "the worker that ..." is derived from where
a worker comes from (`worker_origin`), and from the flags that every worker keeps (`Worker.Flags`).
-/
import OpencodeCloud.Operations.Steps

namespace OpencodeCloud.Operations

open OpencodeCloud.Library OpencodeCloud.Catalog

/-! ## §A The tables of tasks -/

/-- The worker that an event moves. -/
def Event.worker : Event → Option Nat
  | .work task _ | .reply task _ | .stop task => some task
  | _ => none

/-- The reconciliation that an event moves. -/
def Event.reconciler : Event → Option Nat
  | .reconcileWork task _ | .reconcileReply task _ => some task
  | _ => none

/-- How a worker moves. -/
inductive Worker.Moved (s : Store) (task : Nat) (w : Worker) : Event → Store → Worker → Prop
  | work (raises : Bool) (idle : w.call = none) (alive : w.pc ≠ .ended) :
    Worker.Moved s task w (.work task raises) (w.work s raises).1 (w.work s raises).2
  | reply (answer : Reply) (awaits : w.call.isSome = true) :
    Worker.Moved s task w (.reply task answer) s (w.receive answer)
  | stop (awaits : w.call.isSome = true) : Worker.Moved s task w (.stop task) s (w.raise .cancelled)

/-- How a reconciliation moves. -/
inductive Reconciler.Moved (s : Store) (task : Nat) (t : Reconciler) :
    Event → Store → Reconciler → Prop
  | work (raises : Bool) (idle : t.call = none) (alive : t.pc ≠ .ended) :
    Reconciler.Moved s task t (.reconcileWork task raises) (t.work s raises).1 (t.work s raises).2
  | reply (answer : Reply) (awaits : t.call.isSome = true) :
    Reconciler.Moved s task t (.reconcileReply task answer) s (t.receive answer)

/-- The jobs that a step other than the restart starts a worker for. -/
inductive Spawns (sys : System) (s' : Store) (job : Job) : Event → Prop
  | submitted (jid fallback : String) (kind : Kind) (target scope : String) (payload : Payload)
      (before : Option SandboxBefore) (fresh : sys.store.jobs.lookup jid = none)
      (new : job = Store.newJob jid (payload.request.requestId.getD fallback) kind target scope
        payload before)
      (jobs : s'.jobs = sys.store.jobs.insert jid job) :
    Spawns sys s' job (.submit jid fallback kind target scope payload before)
  | retried (jid : String) (payload : Payload) (executionId : String) (old : Job)
      (found : sys.store.jobs.lookup jid = some old) (deletion : old.kind = .agentDelete)
      (new : job = Store.retried payload executionId old)
      (store : s' = sys.store.update jid (Store.retried payload executionId)) :
    Spawns sys s' job (.retry jid payload executionId)

/-- What a step does to the tasks. -/
inductive TasksStep (sys : System) (e : Event) (sys' : System) : Prop
  | kept (running : e ≠ .restart) (jobs : sys'.store.jobs = sys.store.jobs)
      (workers : sys'.workers = sys.workers) (reconcilers : sys'.reconcilers = sys.reconcilers)
      (next : sys'.nextTask = sys.nextTask)
  | cancelled (jid : String) (event : e = .cancel jid)
      (system : sys' = { sys with
        store := sys.store.update jid fun j => { j with status := .cancelled } })
  | worker (task : Nat) (w w' : Worker) (found : sys.workers.lookup task = some w)
      (moved : w.Moved sys.store task e sys'.store w')
      (workers : sys'.workers = sys.workers.insert task w')
      (reconcilers : sys'.reconcilers = sys.reconcilers) (next : sys'.nextTask = sys.nextTask)
  | spawned (job : Job) (spawns : Spawns sys sys'.store job e)
      (workers : sys'.workers = sys.workers.insert sys.nextTask (Worker.spawned job))
      (reconcilers : sys'.reconcilers = sys.reconcilers) (next : sys'.nextTask = sys.nextTask + 1)
  | reconciler (task : Nat) (t t' : Reconciler) (found : sys.reconcilers.lookup task = some t)
      (moved : t.Moved sys.store task e sys'.store t')
      (workers : sys'.workers = sys.workers)
      (reconcilers : sys'.reconcilers = sys.reconcilers.insert task t')
      (next : sys'.nextTask = sys.nextTask)
  | began (jid requestId : String) (t : Reconciler) (event : e = .reconcile jid requestId)
      (begins : Reconciler.begin sys.store jid requestId = .ok (some t))
      (store : sys'.store = sys.store) (workers : sys'.workers = sys.workers)
      (reconcilers : sys'.reconcilers = sys.reconcilers.insert sys.nextTask t)
      (next : sys'.nextTask = sys.nextTask + 1)
  | restarted (event : e = .restart) (system : sys' = sys.restart)

namespace System

/-- A step that leaves the tasks alone. -/
theorem tasksStep_same {sys sys' : System} {e : Event} (running : e ≠ .restart)
    (h : sys'.store.jobs = sys.store.jobs ∧ sys'.workers = sys.workers ∧
      sys'.reconcilers = sys.reconcilers ∧ sys'.nextTask = sys.nextTask) : TasksStep sys e sys' :=
  .kept running h.1 h.2.1 h.2.2.1 h.2.2.2

/-- **What a step of the service does to the tasks.** -/
theorem step_tasks {sys sys' : System} {e : Event} (h : sys.step e = some sys') :
    TasksStep sys e sys' := by
  cases e with
  | submit jid fallback kind target scope payload before =>
    simp only [step, submit] at h
    split at h
    · exact absurd h (by simp)
    · next hfresh =>
      split at h
      · next s job hsub =>
        obtain rfl := Option.some.inj h
        rcases Store.submit_eq_ok hsub with ⟨hc, _⟩ | ⟨_, _, _, hjob, hs⟩
        · exact absurd hc (by decide)
        · rw [not_or] at hfresh
          have hnone : sys.store.jobs.lookup jid = none := AList.lookup_eq_none.mpr hfresh.1
          exact .spawned job (.submitted jid fallback kind target scope payload before hnone hjob
            (by rw [hs]; rfl)) rfl rfl rfl
      · obtain rfl := Option.some.inj h
        exact tasksStep_same (by simp) ⟨rfl, rfl, rfl, rfl⟩
  | retry jid payload executionId =>
    simp only [step, retry] at h
    split at h
    · next s job hretry =>
      obtain rfl := Option.some.inj h
      rcases Store.retryDeletion_eq_ok hretry with ⟨hc, _⟩ | ⟨_, old, hold, hkind, _, _, hjob, hs⟩
      · exact absurd hc (by decide)
      · exact .spawned job (.retried jid payload executionId old hold hkind hjob hs) rfl rfl rfl
    · obtain rfl := Option.some.inj h
      exact tasksStep_same (by simp) ⟨rfl, rfl, rfl, rfl⟩
  | work task raises =>
    obtain ⟨w, hw, hcall, halive, rfl⟩ := work_eq_some.mp h
    exact .worker task w _ hw (.work raises hcall halive) rfl rfl rfl
  | reply task answer =>
    obtain ⟨w, hw, hcall, rfl⟩ := reply_eq_some.mp h
    exact .worker task w _ hw (.reply answer hcall) rfl rfl rfl
  | stop task =>
    obtain ⟨w, hw, hcall, rfl⟩ := stop_eq_some.mp h
    exact .worker task w _ hw (.stop hcall) rfl rfl rfl
  | reconcileWork task raises =>
    obtain ⟨t, ht, hcall, halive, rfl⟩ := reconcileWork_eq_some.mp h
    exact .reconciler task t _ ht (.work raises hcall halive) rfl rfl rfl
  | reconcileReply task answer =>
    obtain ⟨t, ht, hcall, rfl⟩ := reconcileReply_eq_some.mp h
    exact .reconciler task t _ ht (.reply answer hcall) rfl rfl rfl
  | reconcile jid requestId =>
    simp only [step, reconcile] at h
    split at h
    · next t hbegin =>
      obtain rfl := Option.some.inj h
      exact .began jid requestId t rfl hbegin rfl rfl rfl rfl
    · obtain rfl := Option.some.inj h
      exact tasksStep_same (by simp) ⟨rfl, rfl, rfl, rfl⟩
  | restart =>
    obtain rfl := Option.some.inj h
    exact .restarted rfl rfl
  | cancel jid =>
    simp only [step, cancel] at h
    split at h
    · obtain rfl := Option.some.inj h
      exact tasksStep_same (by simp) ⟨rfl, rfl, rfl, rfl⟩
    · split at h
      · obtain rfl := Option.some.inj h
        exact tasksStep_same (by simp) ⟨rfl, rfl, rfl, rfl⟩
      · split at h
        · next s hs =>
          obtain rfl := Option.some.inj h
          obtain ⟨_, _, _, rfl⟩ := Store.transition_eq_ok.mp hs
          exact .cancelled jid rfl rfl
        · obtain rfl := Option.some.inj h
          exact tasksStep_same (by simp) ⟨rfl, rfl, rfl, rfl⟩
  | createLoadTest agents hex request =>
    refine tasksStep_same (by simp) ?_
    simp only [step, createLoadTest] at h
    split at h
    · exact absurd h (by simp)
    · split at h
      · next s rid hcreate =>
        obtain rfl := Option.some.inj h
        rcases Store.createLoadTest_eq_ok hcreate with ⟨_, rfl⟩ | ⟨_, _, _, _, _, _, _, rfl⟩
        · exact ⟨rfl, rfl, rfl, rfl⟩
        · exact ⟨rfl, rfl, rfl, rfl⟩
      · obtain rfl := Option.some.inj h
        exact ⟨rfl, rfl, rfl, rfl⟩
  | loadStep rid outcome =>
    refine tasksStep_same (by simp) ?_
    simp only [step, loadStep, Option.bind_eq_bind, Option.bind_eq_some_iff, Prod.exists] at h
    obtain ⟨_, _, _, _, _, _, hrun, h⟩ := h
    obtain rfl := Option.some.inj h
    exact ⟨loadRun_jobs hrun, rfl, rfl, rfl⟩
  | cancelLoadTest rid =>
    refine tasksStep_same (by simp) ?_
    simp only [step, cancelLoadTest] at h
    split at h
    · obtain rfl := Option.some.inj h
      exact ⟨rfl, rfl, rfl, rfl⟩
    · split at h <;> obtain rfl := Option.some.inj h <;> exact ⟨rfl, rfl, rfl, rfl⟩
  | cleanupLoadTest rid confirmation =>
    refine tasksStep_same (by simp) ?_
    simp only [step, cleanupLoadTest] at h
    split at h
    · obtain rfl := Option.some.inj h
      exact ⟨rfl, rfl, rfl, rfl⟩
    · split at h
      · obtain rfl := Option.some.inj h
        exact ⟨rfl, rfl, rfl, rfl⟩
      · split at h <;> obtain rfl := Option.some.inj h <;> exact ⟨rfl, rfl, rfl, rfl⟩
  | cleanedUser rid username =>
    refine tasksStep_same (by simp) ?_
    simp only [step, cleanedUser] at h
    split at h
    · obtain rfl := Option.some.inj h
      exact ⟨rfl, rfl, rfl, rfl⟩
    · exact absurd h (by simp)
  | cleanupEnd rid succeeded =>
    refine tasksStep_same (by simp) ?_
    simp only [step, cleanupEnd] at h
    split at h
    · obtain rfl := Option.some.inj h
      exact ⟨rfl, rfl, rfl, rfl⟩
    · exact absurd h (by simp)

/-! ## §B The restart -/

/-- Every worker after a series of spawns is an old one or one of the spawned ones. -/
theorem spawnAll_lookup {sys : System} {jobs : List Job} {task : Nat} {w : Worker}
    (h : (sys.spawnAll jobs).workers.lookup task = some w) :
    sys.workers.lookup task = some w ∨ ∃ job ∈ jobs, w = Worker.spawned job := by
  induction jobs generalizing sys with
  | nil => exact Or.inl h
  | cons job jobs ih =>
    rcases @ih (sys.spawn job) h with hold | ⟨job', hmem, rfl⟩
    · rcases Dict.lookup_insert_cases hold with ⟨_, rfl⟩ | ⟨_, hold⟩
      · exact Or.inr ⟨job, List.mem_cons_self, rfl⟩
      · exact Or.inl hold
    · exact Or.inr ⟨job', List.mem_cons_of_mem _ hmem, rfl⟩

/-- After a restart every worker runs a job that was queued. -/
theorem restart_lookup {sys : System} {task : Nat} {w : Worker}
    (h : sys.restart.workers.lookup task = some w) :
    ∃ jid job, sys.store.restart.jobs.lookup jid = some job ∧ job.status = .queued ∧
      w = Worker.spawned job := by
  rcases spawnAll_lookup h with hold | ⟨job, hmem, rfl⟩
  · simp at hold
  · obtain ⟨⟨jid, job'⟩, hentry, rfl⟩ := List.mem_map.mp hmem
    obtain ⟨hlook, hqueued⟩ := Dict.lookup_filter.mp (Dict.mem_entries_iff.mp hentry)
    exact ⟨jid, job', hlook, by simpa using hqueued, rfl⟩

theorem restart_reconcilers (sys : System) : sys.restart.reconcilers = ∅ := (spawnAll_frame _ _).2.2

/-! ## §C Where tasks come from -/

/-- **Where a worker comes from**: it was there, it has moved, or it has been spawned. -/
theorem worker_origin {sys sys' : System} {e : Event} (h : sys.step e = some sys') {task : Nat}
    {w' : Worker} (hw : sys'.workers.lookup task = some w') :
    sys.workers.lookup task = some w' ∨
    (∃ w, sys.workers.lookup task = some w ∧ w.Moved sys.store task e sys'.store w') ∨
    ∃ job, w' = Worker.spawned job ∧ (task = sys.nextTask ∨ e = .restart) := by
  cases step_tasks h with
  | kept _ _ hworkers _ _ => exact Or.inl (hworkers ▸ hw)
  | cancelled _ _ hsys => exact Or.inl (by rw [hsys] at hw; exact hw)
  | worker task' w w'' hfound hmoved hworkers _ _ =>
    rw [hworkers] at hw
    rcases Dict.lookup_insert_cases hw with ⟨rfl, rfl⟩ | ⟨_, hold⟩
    · exact Or.inr (Or.inl ⟨w, hfound, hmoved⟩)
    · exact Or.inl hold
  | spawned job _ hworkers _ _ =>
    rw [hworkers] at hw
    rcases Dict.lookup_insert_cases hw with ⟨rfl, rfl⟩ | ⟨_, hold⟩
    · exact Or.inr (Or.inr ⟨job, rfl, Or.inl rfl⟩)
    · exact Or.inl hold
  | reconciler _ _ _ _ _ hworkers _ _ => exact Or.inl (hworkers ▸ hw)
  | began _ _ _ _ _ _ hworkers _ _ => exact Or.inl (hworkers ▸ hw)
  | restarted hevent hsys =>
    rw [hsys] at hw
    obtain ⟨_, job, _, _, rfl⟩ := restart_lookup hw
    exact Or.inr (Or.inr ⟨job, rfl, Or.inr hevent⟩)

/-- Where a reconciliation comes from: it was there, it has moved, or it has begun. -/
theorem reconciler_origin {sys sys' : System} {e : Event} (h : sys.step e = some sys') {task : Nat}
    {t' : Reconciler} (ht : sys'.reconcilers.lookup task = some t') :
    sys.reconcilers.lookup task = some t' ∨
    (∃ t, sys.reconcilers.lookup task = some t ∧ t.Moved sys.store task e sys'.store t') ∨
    ∃ jid requestId, e = .reconcile jid requestId ∧ task = sys.nextTask ∧
      Reconciler.begin sys.store jid requestId = .ok (some t') := by
  cases step_tasks h with
  | kept _ _ _ hreconcilers _ => exact Or.inl (hreconcilers ▸ ht)
  | cancelled _ _ hsys => exact Or.inl (by rw [hsys] at ht; exact ht)
  | worker _ _ _ _ _ _ hreconcilers _ => exact Or.inl (hreconcilers ▸ ht)
  | spawned _ _ _ hreconcilers _ => exact Or.inl (hreconcilers ▸ ht)
  | reconciler task' t t'' hfound hmoved _ hreconcilers _ =>
    rw [hreconcilers] at ht
    rcases Dict.lookup_insert_cases ht with ⟨rfl, rfl⟩ | ⟨_, hold⟩
    · exact Or.inr (Or.inl ⟨t, hfound, hmoved⟩)
    · exact Or.inl hold
  | began jid requestId t hevent hbegin _ _ hreconcilers _ =>
    rw [hreconcilers] at ht
    rcases Dict.lookup_insert_cases ht with ⟨rfl, rfl⟩ | ⟨_, hold⟩
    · exact Or.inr (Or.inr ⟨jid, requestId, hevent, rfl, hbegin⟩)
    · exact Or.inl hold
  | restarted _ hsys =>
    rw [hsys, restart_reconcilers] at ht
    simp at ht

/-- Where a worker comes from, by the task that the event moves. -/
theorem worker_cases {sys sys' : System} {e : Event} (h : sys.step e = some sys') {task : Nat}
    {w' : Worker} (hw : sys'.workers.lookup task = some w') :
    (∃ w, sys.workers.lookup task = some w ∧ w.Moved sys.store task e sys'.store w') ∨
    (e.worker ≠ some task ∧ e ≠ .restart ∧ sys.workers.lookup task = some w') ∨
    ∃ job, w' = Worker.spawned job ∧ (task = sys.nextTask ∨ e = .restart) := by
  by_cases hrestart : e = .restart
  · subst hrestart
    obtain rfl := Option.some.inj h
    obtain ⟨_, job, _, _, rfl⟩ := restart_lookup hw
    exact Or.inr (Or.inr ⟨job, rfl, Or.inr rfl⟩)
  by_cases hmoves : e.worker = some task
  · refine Or.inl ?_
    have hself : ∀ v : Worker, (sys.workers.insert task v).lookup task = some w' → w' = v :=
      fun v hv => (Option.some.inj (hv.symm.trans (AList.lookup_insert _)))
    cases e <;> simp only [Event.worker, reduceCtorEq, Option.some.injEq] at hmoves
    case work task' raises =>
      subst hmoves
      obtain ⟨w, hfound, hcall, halive, rfl⟩ := work_eq_some.mp h
      rw [hself _ hw]
      exact ⟨w, hfound, .work raises hcall halive⟩
    case reply task' answer =>
      subst hmoves
      obtain ⟨w, hfound, hcall, rfl⟩ := reply_eq_some.mp h
      rw [hself _ hw]
      exact ⟨w, hfound, .reply answer hcall⟩
    case stop task' =>
      subst hmoves
      obtain ⟨w, hfound, hcall, rfl⟩ := stop_eq_some.mp h
      rw [hself _ hw]
      exact ⟨w, hfound, .stop hcall⟩
  · rcases worker_origin h hw with hold | hmoved | hspawned
    · exact Or.inr (Or.inl ⟨hmoves, hrestart, hold⟩)
    · exact Or.inl hmoved
    · exact Or.inr (Or.inr hspawned)

/-- Where a reconciliation comes from, by the task that the event moves. -/
theorem reconciler_cases {sys sys' : System} {e : Event} (h : sys.step e = some sys') {task : Nat}
    {t' : Reconciler} (ht : sys'.reconcilers.lookup task = some t') :
    (∃ t, sys.reconcilers.lookup task = some t ∧ t.Moved sys.store task e sys'.store t') ∨
    (e.reconciler ≠ some task ∧ e ≠ .restart ∧ sys.reconcilers.lookup task = some t') ∨
    ∃ jid requestId, e = .reconcile jid requestId ∧ task = sys.nextTask ∧
      Reconciler.begin sys.store jid requestId = .ok (some t') := by
  by_cases hmoves : e.reconciler = some task
  · refine Or.inl ?_
    have hself : ∀ v : Reconciler, (sys.reconcilers.insert task v).lookup task = some t' → t' = v :=
      fun v hv => (Option.some.inj (hv.symm.trans (AList.lookup_insert _)))
    cases e <;> simp only [Event.reconciler, reduceCtorEq, Option.some.injEq] at hmoves
    case reconcileWork task' raises =>
      subst hmoves
      obtain ⟨t, hfound, hcall, halive, rfl⟩ := reconcileWork_eq_some.mp h
      rw [hself _ ht]
      exact ⟨t, hfound, .work raises hcall halive⟩
    case reconcileReply task' answer =>
      subst hmoves
      obtain ⟨t, hfound, hcall, rfl⟩ := reconcileReply_eq_some.mp h
      rw [hself _ ht]
      exact ⟨t, hfound, .reply answer hcall⟩
  · rcases reconciler_origin h ht with hold | hmoved | ⟨jid, requestId, rfl, htask, hbegin⟩
    · refine Or.inr (Or.inl ⟨hmoves, ?_, hold⟩)
      rintro rfl
      obtain rfl := Option.some.inj h
      rw [restart_reconcilers] at ht
      simp at ht
    · exact Or.inl hmoved
    · exact Or.inr (Or.inr ⟨jid, requestId, rfl, htask, hbegin⟩)

/-- Every task has a number below the next one. -/
structure Numbered (sys : System) : Prop where
  workers : ∀ task w, sys.workers.lookup task = some w → task < sys.nextTask
  reconcilers : ∀ task t, sys.reconcilers.lookup task = some t → task < sys.nextTask

theorem Numbered.spawnAll {sys : System} {jobs : List Job} (h : sys.Numbered) :
    (sys.spawnAll jobs).Numbered := by
  induction jobs generalizing sys with
  | nil => exact h
  | cons job jobs ih =>
    refine @ih (sys.spawn job) ⟨fun task w hw => ?_, fun task t ht => ?_⟩
    · rcases Dict.lookup_insert_cases hw with ⟨rfl, _⟩ | ⟨_, hold⟩
      · exact Nat.lt_succ_self _
      · exact Nat.lt_succ_of_lt (h.workers task w hold)
    · exact Nat.lt_succ_of_lt (h.reconcilers task t ht)

theorem Numbered.step {sys sys' : System} {e : Event} (h : sys.Numbered)
    (hstep : sys.step e = some sys') : sys'.Numbered := by
  cases step_tasks hstep with
  | kept _ _ hworkers hreconcilers hnext =>
    exact ⟨by rw [hworkers, hnext]; exact h.workers, by rw [hreconcilers, hnext]; exact h.reconcilers⟩
  | cancelled _ _ hsys =>
    rw [hsys]
    exact ⟨h.workers, h.reconcilers⟩
  | worker task' w w' hfound _ hworkers hreconcilers hnext =>
    refine ⟨fun task w'' hw => ?_, by rw [hreconcilers, hnext]; exact h.reconcilers⟩
    rw [hworkers] at hw
    rw [hnext]
    rcases Dict.lookup_insert_cases hw with ⟨rfl, _⟩ | ⟨_, hold⟩
    · exact h.workers task w hfound
    · exact h.workers task w'' hold
  | spawned job _ hworkers hreconcilers hnext =>
    refine ⟨fun task w hw => ?_, fun task t ht => ?_⟩
    · rw [hworkers] at hw
      rw [hnext]
      rcases Dict.lookup_insert_cases hw with ⟨rfl, _⟩ | ⟨_, hold⟩
      · exact Nat.lt_succ_self _
      · exact Nat.lt_succ_of_lt (h.workers task w hold)
    · rw [hreconcilers] at ht
      rw [hnext]
      exact Nat.lt_succ_of_lt (h.reconcilers task t ht)
  | reconciler task' t t' hfound _ hworkers hreconcilers hnext =>
    refine ⟨by rw [hworkers, hnext]; exact h.workers, fun task t'' ht => ?_⟩
    rw [hreconcilers] at ht
    rw [hnext]
    rcases Dict.lookup_insert_cases ht with ⟨rfl, _⟩ | ⟨_, hold⟩
    · exact h.reconcilers task t hfound
    · exact h.reconcilers task t'' hold
  | began _ _ t _ _ _ hworkers hreconcilers hnext =>
    refine ⟨fun task w hw => ?_, fun task t' ht => ?_⟩
    · rw [hworkers] at hw
      rw [hnext]
      exact Nat.lt_succ_of_lt (h.workers task w hw)
    · rw [hreconcilers] at ht
      rw [hnext]
      rcases Dict.lookup_insert_cases ht with ⟨rfl, _⟩ | ⟨_, hold⟩
      · exact Nat.lt_succ_self _
      · exact Nat.lt_succ_of_lt (h.reconcilers task t' hold)
  | restarted _ hsys =>
    rw [hsys]
    exact Numbered.spawnAll ⟨fun task w hw => by simp at hw, fun task t ht => by simp at ht⟩

/-- A worker stays where it is, or moves. -/
theorem worker_kept {sys sys' : System} {e : Event} (hn : sys.Numbered)
    (h : sys.step e = some sys') (hrunning : e ≠ .restart) {task : Nat} {w : Worker}
    (hw : sys.workers.lookup task = some w) :
    sys'.workers.lookup task = some w ∨ ∃ w', w.Moved sys.store task e sys'.store w' := by
  cases step_tasks h with
  | kept _ _ hworkers _ _ => exact Or.inl (hworkers ▸ hw)
  | cancelled _ _ hsys => exact Or.inl (by rw [hsys]; exact hw)
  | worker task' w' w'' hfound hmoved hworkers _ _ =>
    by_cases ht : task = task'
    · subst ht
      obtain rfl := Option.some.inj (hw.symm.trans hfound)
      exact Or.inr ⟨w'', hmoved⟩
    · exact Or.inl (by rw [hworkers, AList.lookup_insert_ne ht]; exact hw)
  | spawned job _ hworkers _ _ =>
    have hne : task ≠ sys.nextTask := Nat.ne_of_lt (hn.workers task w hw)
    exact Or.inl (by rw [hworkers, AList.lookup_insert_ne hne]; exact hw)
  | reconciler _ _ _ _ _ hworkers _ _ => exact Or.inl (hworkers ▸ hw)
  | began _ _ _ _ _ _ hworkers _ _ => exact Or.inl (hworkers ▸ hw)
  | restarted hevent _ => exact absurd hevent hrunning

/-- A reconciliation stays where it is, or moves. -/
theorem reconciler_kept {sys sys' : System} {e : Event} (hn : sys.Numbered)
    (h : sys.step e = some sys') (hrunning : e ≠ .restart) {task : Nat} {t : Reconciler}
    (ht : sys.reconcilers.lookup task = some t) :
    sys'.reconcilers.lookup task = some t ∨ ∃ t', t.Moved sys.store task e sys'.store t' := by
  cases step_tasks h with
  | kept _ _ _ hreconcilers _ => exact Or.inl (hreconcilers ▸ ht)
  | cancelled _ _ hsys => exact Or.inl (by rw [hsys]; exact ht)
  | worker _ _ _ _ _ _ hreconcilers _ => exact Or.inl (hreconcilers ▸ ht)
  | spawned _ _ _ hreconcilers _ => exact Or.inl (hreconcilers ▸ ht)
  | reconciler task' t' t'' hfound hmoved _ hreconcilers _ =>
    by_cases htask : task = task'
    · subst htask
      obtain rfl := Option.some.inj (ht.symm.trans hfound)
      exact Or.inr ⟨t'', hmoved⟩
    · exact Or.inl (by rw [hreconcilers, AList.lookup_insert_ne htask]; exact ht)
  | began _ _ _ _ _ _ _ hreconcilers _ =>
    have hne : task ≠ sys.nextTask := Nat.ne_of_lt (hn.reconcilers task t ht)
    exact Or.inl (by rw [hreconcilers, AList.lookup_insert_ne hne]; exact ht)
  | restarted hevent _ => exact absurd hevent hrunning

end System

/-! ## §D What a worker keeps -/

/-- The statements that an exception leads to. -/
def Pc.handler : Pc → Bool
  | .stopped | .stoppedMark | .compensate _ | .settle _ | .leave | .resumeFailed | .ended => true
  | _ => false

namespace Worker

/-- An exception changes nothing but the statement. -/
theorem raise_eq (w : Worker) (exc : Exc) : ∃ pc, w.raise exc = w.goto pc ∧ pc.handler = true := by
  unfold raise
  split
  · split
    · exact ⟨_, rfl, rfl⟩
    · split <;> exact ⟨_, rfl, rfl⟩
  · split <;> exact ⟨_, rfl, rfl⟩

theorem callFailed_eq (w : Worker) (reply : Reply) :
    ∃ pc, w.callFailed reply = w.goto pc ∧ pc.handler = true := by
  unfold callFailed
  split <;> exact raise_eq w _

/-- A checkpoint goes on to the next statement or raises. -/
theorem checkpoint_snd (s : Store) (w : Worker) (f : Job → Job) (next : Worker) :
    (w.checkpoint s f next).2 = next ∨ ∃ exc, (w.checkpoint s f next).2 = w.raise exc := by
  unfold checkpoint
  split
  · exact Or.inl rfl
  · split <;> exact Or.inr ⟨_, rfl⟩

/-- The statement after the body of the `try`. -/
theorem afterBody_eq (w : Worker) (result : JobResult) :
    ∃ pc, w.afterBody result = { w with result := some result, pc := pc } ∧
      (pc = .desiredMark ∨ pc = .finish) := by
  unfold afterBody
  dsimp only
  split
  · exact ⟨_, rfl, Or.inl rfl⟩
  · exact ⟨_, rfl, Or.inr rfl⟩

/-- The first statement after the checkpoint `prepare`. -/
theorem afterStart_eq (w : Worker) : ∃ pc, w.afterStart = w.goto pc ∧
    (pc = .fetchPrevious ∨ pc = .obtainRelease ∨ pc = .applyMark ∨ pc = .quiesceMark) := by
  unfold afterStart
  split
  · exact ⟨_, rfl, by simp⟩
  · exact ⟨_, rfl, by simp⟩
  · split <;> exact ⟨_, rfl, by simp⟩

theorem afterApplyMark_eq (w : Worker) : ∃ pc,
    w.afterApplyMark = { w with applyStarted := true, pc := pc } ∧
    (pc = .apply ∨ pc = .deleting ∨ pc = .archive ∨ pc = .lifecycle ∨ pc = .sandboxAction) := by
  unfold afterApplyMark
  dsimp only
  split <;> exact ⟨_, rfl, by simp⟩

/-! ## §E The quiesced section -/

/-- The flag `quiesce_started` fits the statement. -/
structure Flags (w : Worker) : Prop where
  quiesce : w.pc = .quiesce → w.quiesceStarted = true
  resume : w.pc = .resume → w.quiesceStarted = true

/-- A worker that is at neither of the two statements. -/
theorem Flags.of_pc {w : Worker} (hq : w.pc ≠ .quiesce) (hr : w.pc ≠ .resume) : w.Flags :=
  ⟨fun h => absurd h hq, fun h => absurd h hr⟩

theorem Flags.goto_handler {w : Worker} {pc : Pc} (h : pc.handler = true) : (w.goto pc).Flags := by
  refine Flags.of_pc ?_ ?_ <;> rintro rfl <;> exact absurd h (by decide)

theorem Flags.raise (w : Worker) (exc : Exc) : (w.raise exc).Flags := by
  obtain ⟨pc, h, hpc⟩ := raise_eq w exc
  rw [h]
  exact Flags.goto_handler hpc

/-- What a move keeps of a worker: its job, and its flag unless it enters its quiesced section. -/
structure Keeps (entering : Bool) (w w' : Worker) : Prop where
  flags : w.Flags → w'.Flags
  job : w'.job = w.job
  enters : w'.quiesceStarted = true → w.quiesceStarted = true ∨ (entering = true ∧ w.pc = .quiesceMark)

theorem Keeps.raise (e : Bool) (w : Worker) (exc : Exc) : Keeps e w (w.raise exc) := by
  refine ⟨fun _ => Flags.raise w exc, ?_, ?_⟩ <;> obtain ⟨pc, h, _⟩ := raise_eq w exc <;> rw [h]
  · rfl
  · exact Or.inl

/-- A move to a statement outside the two. -/
theorem Keeps.of_pc {e : Bool} {w w' : Worker} (hq : w'.pc ≠ .quiesce) (hr : w'.pc ≠ .resume)
    (hj : w'.job = w.job) (hs : w'.quiesceStarted = w.quiesceStarted) : Keeps e w w' :=
  ⟨fun _ => Flags.of_pc hq hr, hj, fun h => Or.inl (hs ▸ h)⟩

theorem checkpoint_keeps {e : Bool} {s : Store} {w next : Worker} {f : Job → Job}
    (h : Keeps e w next) : Keeps e w (w.checkpoint s f next).2 := by
  rcases checkpoint_snd s w f next with hn | ⟨exc, hr⟩
  · rw [hn]
    exact h
  · rw [hr]
    exact Keeps.raise e w exc

theorem work_keeps (s : Store) (w : Worker) (raises : Bool) :
    Keeps (!raises) w (w.work s raises).2 := by
  cases raises with
  | true => exact Keeps.raise _ w .other
  | false =>
    cases hpc : w.pc with
    | start =>
      simp only [work, hpc, Bool.false_eq_true, if_false]
      refine checkpoint_keeps ?_
      obtain ⟨pc, h, hpc'⟩ := afterStart_eq w
      rw [h]
      exact Keeps.of_pc (by rintro rfl; simp at hpc') (by rintro rfl; simp at hpc') rfl rfl
    | quiesceMark =>
      simp only [work, hpc, Bool.false_eq_true, if_false]
      exact checkpoint_keeps ⟨fun _ => ⟨fun _ => rfl, fun _ => rfl⟩, rfl, fun _ => Or.inr ⟨rfl, hpc⟩⟩
    | applyMark =>
      simp only [work, hpc, Bool.false_eq_true, if_false]
      refine checkpoint_keeps ?_
      obtain ⟨pc, h, hpc'⟩ := afterApplyMark_eq w
      rw [h]
      exact Keeps.of_pc (by rintro rfl; simp at hpc') (by rintro rfl; simp at hpc') rfl rfl
    | validateMark | verifyMark | commitMark =>
      simp only [work, hpc, Bool.false_eq_true, if_false]
      exact checkpoint_keeps (Keeps.of_pc (by simp [goto]) (by simp [goto]) rfl rfl)
    | leave =>
      simp only [work, hpc, Bool.false_eq_true, if_false]
      split
      · next h =>
        simp only [Bool.and_eq_true] at h
        exact ⟨fun _ => ⟨fun _ => h.1, fun _ => h.1⟩, rfl, Or.inl⟩
      · exact Keeps.of_pc (by simp [goto]) (by simp [goto]) rfl rfl
    | sandboxDeletedMark | filesDeletedMark | finish | stoppedMark | settle | resumeFailed =>
      simp only [work, hpc, Bool.false_eq_true, if_false]
      exact Keeps.of_pc (by simp [goto]) (by simp [goto]) rfl rfl
    | desiredMark | stopped =>
      simp only [work, hpc, Bool.false_eq_true, if_false]
      split <;> exact Keeps.of_pc (by simp [goto]) (by simp [goto]) rfl rfl
    | _ =>
      simp only [work, hpc, Bool.false_eq_true, if_false]
      exact ⟨fun hf => hf, rfl, Or.inl⟩

theorem callFailed_keeps (w : Worker) (reply : Reply) : Keeps false w (w.callFailed reply) := by
  unfold callFailed
  split <;> exact Keeps.raise false w _

theorem afterBody_keeps {w w₀ : Worker} (r : JobResult) (hj : w.job = w₀.job)
    (hs : w.quiesceStarted = w₀.quiesceStarted) : Keeps false w₀ (w.afterBody r) := by
  obtain ⟨pc, h, hpc⟩ := afterBody_eq w r
  rw [h]
  exact Keeps.of_pc (by rintro rfl; simp at hpc) (by rintro rfl; simp at hpc) hj hs

theorem receive_keeps (w : Worker) (reply : Reply) : Keeps false w (w.receive reply) := by
  have hraise : ∀ (w' : Worker) (exc : Exc), w'.job = w.job → w'.quiesceStarted = w.quiesceStarted →
      Keeps false w (w'.raise exc) := by
    intro w' exc hj hs
    have h := Keeps.raise false w' exc
    exact ⟨fun _ => Flags.raise w' exc, h.job.trans hj, fun hq => (h.enters hq).imp (hs ▸ ·) 
      (fun h => absurd h.1 (by decide))⟩
  unfold receive
  split
  all_goals
    first
    | exact Keeps.of_pc (by simp [goto]) (by simp [goto]) rfl rfl
    | exact afterBody_keeps _ rfl rfl
    | exact callFailed_keeps w _
    | skip
  case h_2 =>
    split
    · exact Keeps.of_pc (by simp [goto]) (by simp [goto]) rfl rfl
    · exact hraise w _ rfl rfl
  case h_7 =>
    split
    · exact Keeps.of_pc (by simp [goto]) (by simp [goto]) rfl rfl
    · split
      · split
        · exact Keeps.of_pc (by simp [goto]) (by simp [goto]) rfl rfl
        · exact hraise w _ rfl rfl
      · exact hraise w _ rfl rfl
  case h_11 =>
    dsimp only
    split
    · exact afterBody_keeps _ rfl rfl
    · exact hraise _ _ rfl rfl
  case h_18 =>
    split <;> exact Keeps.of_pc (by simp [goto]) (by simp [goto]) rfl rfl


/-- **A worker that moves keeps its job**, and enters its quiesced section only at the checkpoint. -/
theorem Moved.keeps {s s' : Store} {task : Nat} {w w' : Worker} {e : Event}
    (h : w.Moved s task e s' w') (hf : w.Flags) :
    w'.Flags ∧ w'.job = w.job ∧ (w'.quiesceStarted = true →
      w.quiesceStarted = true ∨ (e = .work task false ∧ w.pc = .quiesceMark)) := by
  cases h with
  | work raises _ _ =>
    obtain ⟨hflags, hjob, henters⟩ := work_keeps s w raises
    refine ⟨hflags hf, hjob, fun hq => (henters hq).imp_right fun ⟨hr, hpc⟩ => ⟨?_, hpc⟩⟩
    rw [Bool.not_eq_true'] at hr
    rw [hr]
  | reply answer _ =>
    obtain ⟨hflags, hjob, henters⟩ := receive_keeps w answer
    exact ⟨hflags hf, hjob, fun hq => (henters hq).imp_right fun h => absurd h.1 (by decide)⟩
  | stop _ =>
    obtain ⟨hflags, hjob, henters⟩ := Keeps.raise false w .cancelled
    exact ⟨hflags hf, hjob, fun hq => (henters hq).imp_right fun h => absurd h.1 (by decide)⟩

theorem spawned_flags (job : Job) : (spawned job).Flags := Flags.of_pc (by simp [spawned])
  (by simp [spawned])

end Worker

end OpencodeCloud.Operations
