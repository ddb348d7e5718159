/-
# OpencodeCloud.Operations.Cancellation -- what is left of a cancelled job

A cancellation is a transition of the job, made beside its runner, which notices it at its next
checkpoint. From there on the job never comes into progress again, so the runner never passes its apply
mark and sends none of the calls that change something (`Over.harmless`). The status is another
matter: the runner looks at it when its task was cancelled, and writes without a look when a call has failed
or when the target cannot be resumed. `cancel_lasts` is the exact result: the status stays as long as
no call of the runner fails; `cancelled_job_fails` is the run with a call that does.
-/
import OpencodeCloud.Operations.Publications

namespace OpencodeCloud.Operations

open OpencodeCloud.Library OpencodeCloud.Catalog

/-! ## §A What a step does to the status of a job -/

namespace Worker

/-- A write of a worker, by what it makes of the status of its job. -/
inductive Marks (w : Worker) (old : Status) : Status → Prop where
  | same : Marks w old old
  | started (here : w.pc = .start) (prog : old.inProgress = true) : Marks w old .running
  | waits (here : w.pc = .quiesceMark) (prog : old.inProgress = true) : Marks w old .waiting
  | applies (here : w.pc = .applyMark) (prog : old.inProgress = true) : Marks w old .applying
  | finished (here : w.pc = .finish) : Marks w old .succeeded
  | stopped (here : w.pc = .stoppedMark) : Marks w old w.stoppedStatus
  | settled (exc : Exc) (here : w.pc = .settle exc) : Marks w old w.settledStatus
  | blocked (here : w.pc = .resumeFailed) : Marks w old .needsRecovery

theorem checkpoint_marks {s : Store} {w next : Worker} {f : Job → Job} {j j' : Job}
    (hj : s.jobs.lookup w.job.id = some j)
    (hj' : (w.checkpoint s f next).1.jobs.lookup w.job.id = some j')
    (hmark : j.status.inProgress = true → w.Marks j.status (f j).status) :
    w.Marks j.status j'.status := by
  unfold checkpoint at hj'
  split at hj'
  · next s' hs =>
    obtain ⟨j₀, hj₀, hprog, rfl⟩ := Store.transition_eq_ok.mp hs
    obtain rfl := Option.some.inj (hj.symm.trans hj₀)
    rw [Store.update_rewrites, if_pos rfl, hj] at hj'
    obtain rfl := Option.some.inj hj'
    exact hmark hprog
  · split at hj' <;> (obtain rfl := Option.some.inj (hj.symm.trans hj'); exact .same)

/-- **What a write does to the status.** -/
theorem work_marks {s : Store} {w : Worker} {raises : Bool} {j j' : Job}
    (hj : s.jobs.lookup w.job.id = some j)
    (hj' : (w.work s raises).1.jobs.lookup w.job.id = some j') : w.Marks j.status j'.status := by
  have hsame : s.jobs.lookup w.job.id = some j' → w.Marks j.status j'.status := by
    intro h
    obtain rfl := Option.some.inj (hj.symm.trans h)
    exact .same
  have hupdate : ∀ f : Job → Job, (s.update w.job.id f).jobs.lookup w.job.id = some j' →
      w.Marks j.status (f j).status → w.Marks j.status j'.status := by
    intro f h hmark
    rw [Store.update_rewrites, if_pos rfl, hj] at h
    obtain rfl := Option.some.inj h
    exact hmark
  cases raises with
  | true => exact hsame hj'
  | false =>
    cases hpc : w.pc with
    | start =>
      simp only [work, hpc, Bool.false_eq_true, if_false] at hj'
      exact checkpoint_marks hj hj' fun hprog => .started hpc hprog
    | quiesceMark =>
      simp only [work, hpc, Bool.false_eq_true, if_false] at hj'
      exact checkpoint_marks hj hj' fun hprog => .waits hpc hprog
    | applyMark =>
      simp only [work, hpc, Bool.false_eq_true, if_false] at hj'
      exact checkpoint_marks hj hj' fun hprog => .applies hpc hprog
    | validateMark | verifyMark | commitMark =>
      simp only [work, hpc, Bool.false_eq_true, if_false] at hj'
      exact checkpoint_marks hj hj' fun _ => .same
    | sandboxDeletedMark | filesDeletedMark =>
      simp only [work, hpc, Bool.false_eq_true, if_false] at hj'
      exact hupdate _ hj' .same
    | finish =>
      simp only [work, hpc, Bool.false_eq_true, if_false] at hj'
      exact hupdate _ hj' (.finished hpc)
    | stoppedMark =>
      simp only [work, hpc, Bool.false_eq_true, if_false] at hj'
      exact hupdate _ hj' (.stopped hpc)
    | settle exc =>
      simp only [work, hpc, Bool.false_eq_true, if_false] at hj'
      exact hupdate _ hj' (.settled exc hpc)
    | resumeFailed =>
      simp only [work, hpc, Bool.false_eq_true, if_false] at hj'
      exact hupdate _ hj' (.blocked hpc)
    | desiredMark | stopped | leave =>
      simp only [work, hpc, Bool.false_eq_true, if_false] at hj'
      split at hj' <;> exact hsame hj'
    | _ =>
      simp only [work, hpc, Bool.false_eq_true, if_false] at hj'
      exact hsame hj'

end Worker

/-- What `cancel` asks of a job before it cancels it. -/
def Store.cancels (s : Store) (jid : String) : Bool :=
  match s.jobs.lookup jid with
  | some j => j.status.cancellable && j.kind != .agentDelete
  | none => false

/-- What a step makes of the status of one job. -/
inductive Becomes (sys : System) (e : Event) (jid : String) (old : Job) : Status → Prop where
  | same : Becomes sys e jid old old.status
  | marked (task : Nat) (w : Worker) (raises : Bool) (st : Status) (event : e = .work task raises)
      (found : sys.workers.lookup task = some w) (own : w.job.id = jid)
      (marks : w.Marks old.status st) : Becomes sys e jid old st
  | reconciled (task : Nat) (t : Reconciler) (found : sys.reconcilers.lookup task = some t)
      (own : t.job.id = jid) : Becomes sys e jid old .succeeded
  | cancelled (event : e = .cancel jid) (accepted : sys.store.cancels jid = true) :
      Becomes sys e jid old .cancelled
  | retried (deletion : old.kind = .agentDelete) (st : Status) : Becomes sys e jid old st
  | restarted (event : e = .restart) : Becomes sys e jid old (Store.restarted old).status

theorem System.cancel_eq_some {sys sys' : System} {jid : String} (h : sys.cancel jid = some sys') :
    (sys.store.cancels jid = false ∧ sys' = sys) ∨ sys.store.cancels jid = true ∧
      sys' = { sys with
        store := sys.store.update jid fun j => { j with status := .cancelled } } := by
  unfold cancel at h
  cases hj : sys.store.jobs.lookup jid with
  | none =>
    rw [hj] at h
    exact .inl ⟨by simp [Store.cancels, hj], (Option.some.inj h).symm⟩
  | some j =>
    simp only [hj] at h
    split at h
    · next hno =>
      refine .inl ⟨?_, (Option.some.inj h).symm⟩
      simp only [Bool.or_eq_true, Bool.not_eq_true', beq_iff_eq] at hno
      rcases hno with hno | hno <;> simp [Store.cancels, hj, hno]
    · next hyes =>
      simp only [Bool.or_eq_true, Bool.not_eq_true', beq_iff_eq, not_or, Bool.not_eq_false] at hyes
      split at h
      · next s hs =>
        obtain ⟨_, _, _, rfl⟩ := Store.transition_eq_ok.mp hs
        exact .inr ⟨by simp [Store.cancels, hj, hyes.1, hyes.2], (Option.some.inj h).symm⟩
      · next hs =>
        simp [Store.transition, hj, hyes.1] at hs

/-- **What a step does to the status of a job.** -/
theorem System.step_becomes {sys sys' : System} {e : Event} (h : sys.step e = some sys') {jid : String}
    {old new : Job} (hold : sys.store.jobs.lookup jid = some old)
    (hnew : sys'.store.jobs.lookup jid = some new) : Becomes sys e jid old new.status := by
  have hsame : sys'.store.jobs = sys.store.jobs → Becomes sys e jid old new.status := by
    intro hjobs
    rw [hjobs, hold] at hnew
    obtain rfl := Option.some.inj hnew
    exact .same
  have hrewrites : ∀ (i : String) (f : Job → Job), Store.Rewrites sys.store sys'.store i f →
      (i = jid → Becomes sys e jid old (f old).status) → Becomes sys e jid old new.status := by
    intro i f hrw hf
    rw [hrw jid] at hnew
    split at hnew
    · next hi =>
      rw [← hi, hold] at hnew
      obtain rfl := Option.some.inj hnew
      exact hf hi.symm
    · obtain rfl := Option.some.inj (hold.symm.trans hnew)
      exact .same
  cases step_tasks h with
  | kept _ hjobs _ _ _ => exact hsame hjobs
  | cancelled i hevent _ =>
    subst hevent
    rcases cancel_eq_some h with ⟨_, rfl⟩ | ⟨haccepted, rfl⟩
    · exact hsame rfl
    · exact hrewrites i _ (Store.update_rewrites _ _ _) fun hi => .cancelled (hi ▸ rfl) (hi ▸ haccepted)
  | worker task w w' hfound hmoved _ _ _ =>
    generalize hs : sys'.store = s' at hmoved hnew
    cases hmoved with
    | work raises _ _ =>
      by_cases hown : w.job.id = jid
      · subst hown
        exact .marked task w raises _ rfl hfound rfl (Worker.work_marks hold hnew)
      · obtain ⟨f, hrw, _, _⟩ := w.work_writes sys.store raises
        exact hrewrites _ f (hs ▸ hrw) fun hi => absurd hi hown
    | reply answer _ => exact hsame (by rw [hs])
    | stop _ => exact hsame (by rw [hs])
  | spawned job hspawns _ _ _ =>
    cases hspawns with
    | submitted i fallback kind target scope payload before hfresh hjob hjobs =>
      have hne : jid ≠ i := by
        rintro rfl
        rw [hold] at hfresh
        cases hfresh
      rw [hjobs, AList.lookup_insert_ne hne, hold] at hnew
      obtain rfl := Option.some.inj hnew
      exact .same
    | retried i payload executionId old' hfound hkind hjob hstore =>
      refine hrewrites i _ (hstore ▸ Store.update_rewrites _ _ _) fun hi => ?_
      rw [hi, hold] at hfound
      obtain rfl := Option.some.inj hfound
      exact .retried hkind _
  | reconciler task t t' hfound hmoved _ _ _ =>
    generalize hs : sys'.store = s' at hmoved hnew
    cases hmoved with
    | reply answer _ => exact hsame (by rw [hs])
    | work raises _ _ =>
      rw [← hs] at hnew
      cases raises with
      | true => exact hsame (by rw [hs]; rfl)
      | false =>
        cases hpc : t.pc with
        | finish =>
          simp only [Reconciler.work, hpc, Bool.false_eq_true, if_false] at hs
          refine hrewrites t.job.id _ (hs ▸ Store.update_rewrites _ _ _) fun hi => ?_
          exact .reconciled task t hfound hi
        | _ =>
          simp only [Reconciler.work, hpc, Bool.false_eq_true, if_false] at hs
          exact hsame (by rw [hs])
  | began _ _ _ _ _ hstore _ _ _ => exact hsame (by rw [hstore])
  | restarted hevent hsys =>
    rw [hsys, System.restart_store] at hnew
    change (sys.store.jobs.mapValues Store.restarted).lookup jid = some new at hnew
    rw [Dict.lookup_mapValues, hold] at hnew
    obtain rfl := Option.some.inj hnew
    exact .restarted hevent


/-! ## §B How far a runner is -/

/-- The statements up to the apply mark. -/
def Pc.opening : Pc → Bool
  | .start | .fetchPrevious | .obtainRelease | .validateMark | .probe | .quiesceMark | .quiesce
  | .applyMark => true
  | _ => false

/-- The statements behind the apply mark, and those that take an application back. -/
def Pc.late : Pc → Bool
  | .compensate _ | .compensateVerify _ => true
  | pc => pc.inBody && !pc.opening

namespace Worker

/-- The flag `apply_started` fits the statement. -/
structure Staged (w : Worker) : Prop where
  early : w.applyStarted = false → w.applied = false ∧ w.pc.late = false
  late : w.applyStarted = true → w.pc.opening = false

theorem spawned_staged (job : Job) : (spawned job).Staged := ⟨fun _ => ⟨rfl, rfl⟩, nofun⟩

theorem raise_late {w : Worker} (happlied : w.applied = false) (exc : Exc) :
    (w.raise exc).pc.late = false := by
  have hcompensates : w.compensates = false := by simp [compensates, happlied]
  unfold raise
  split
  · split
    · rfl
    · rw [hcompensates]
      rfl
  · split <;> rfl

theorem Staged.raise {w : Worker} (h : w.Staged) (exc : Exc) : (w.raise exc).Staged := by
  obtain ⟨pc, hr, hpc⟩ := raise_eq w exc
  have hlate := fun happlied => @raise_late w happlied exc
  rw [hr] at hlate ⊢
  refine ⟨fun hearly => ?_, fun _ => ?_⟩
  · have happlied := (h.early hearly).1
    exact ⟨happlied, hlate happlied⟩
  · cases pc <;> first | rfl | cases hpc

theorem Staged.callFailed {w : Worker} (h : w.Staged) (answer : Reply) :
    (w.callFailed answer).Staged := by
  unfold Worker.callFailed
  split <;> exact h.raise _

/-- A worker that goes on to a statement on the same side of the apply mark. -/
theorem Staged.goto {w : Worker} (h : w.Staged) {pc : Pc} (hlate : pc.late = true → w.pc.late = true)
    (hopening : pc.opening = true → w.pc.opening = true) : (w.goto pc).Staged := by
  refine ⟨fun hearly => ?_, fun hstarted => ?_⟩
  · obtain ⟨happlied, hpc⟩ := h.early hearly
    refine ⟨happlied, ?_⟩
    by_contra hno
    rw [Bool.not_eq_false] at hno
    rw [hlate hno] at hpc
    cases hpc
  · by_contra hno
    rw [Bool.not_eq_false] at hno
    have hpc := h.late hstarted
    rw [hopening hno] at hpc
    cases hpc

theorem checkpoint_staged {s : Store} {w next : Worker} {f : Job → Job} (h : w.Staged)
    (hnext : next.Staged) : (w.checkpoint s f next).2.Staged := by
  rcases checkpoint_snd s w f next with hn | ⟨exc, hr⟩
  · rwa [hn]
  · rw [hr]
    exact h.raise exc

theorem work_staged (s : Store) {w : Worker} (h : w.Staged) (raises : Bool) :
    (w.work s raises).2.Staged := by
  cases raises with
  | true => exact h.raise _
  | false =>
    cases hpc : w.pc with
    | start =>
      simp only [work, hpc, Bool.false_eq_true, if_false]
      refine checkpoint_staged h ?_
      obtain ⟨pc, hnext, rfl | rfl | rfl | rfl⟩ := w.afterStart_eq <;> rw [hnext] <;>
        exact h.goto (fun h => by cases h) fun _ => by rw [hpc]; rfl
    | validateMark =>
      simp only [work, hpc, Bool.false_eq_true, if_false]
      exact checkpoint_staged h (h.goto (fun h => by cases h) fun _ => by rw [hpc]; rfl)
    | quiesceMark =>
      simp only [work, hpc, Bool.false_eq_true, if_false]
      refine checkpoint_staged h ⟨fun hearly => ⟨(h.early hearly).1, rfl⟩, fun hstarted => ?_⟩
      have hopening := h.late hstarted
      rw [hpc] at hopening
      cases hopening
    | applyMark =>
      simp only [work, hpc, Bool.false_eq_true, if_false]
      refine checkpoint_staged h ?_
      obtain ⟨pc, hnext, rfl | rfl | rfl | rfl | rfl⟩ := w.afterApplyMark_eq <;> rw [hnext] <;>
        exact ⟨fun h => (by cases h), fun _ => rfl⟩
    | verifyMark =>
      simp only [work, hpc, Bool.false_eq_true, if_false]
      exact checkpoint_staged h (h.goto (fun _ => by rw [hpc]; rfl) fun h => by cases h)
    | commitMark =>
      simp only [work, hpc, Bool.false_eq_true, if_false]
      refine checkpoint_staged h ⟨fun hearly => ?_, fun _ => rfl⟩
      have hlate := (h.early hearly).2
      rw [hpc] at hlate
      cases hlate
    | sandboxDeletedMark | filesDeletedMark =>
      simp only [work, hpc, Bool.false_eq_true, if_false]
      exact h.goto (fun _ => by rw [hpc]; rfl) fun h => by cases h
    | desiredMark =>
      simp only [work, hpc, Bool.false_eq_true, if_false]
      split <;> exact h.goto (fun _ => by rw [hpc]; rfl) fun h => by cases h
    | stopped | leave =>
      simp only [work, hpc, Bool.false_eq_true, if_false]
      split <;> exact h.goto (fun h => by cases h) fun h => by cases h
    | finish | stoppedMark | settle | resumeFailed =>
      simp only [work, hpc, Bool.false_eq_true, if_false]
      exact h.goto (fun h => by cases h) fun h => by cases h
    | _ =>
      simp only [work, hpc, Bool.false_eq_true, if_false]
      exact h

theorem afterBody_staged {w : Worker} (hstarted : w.applyStarted = true) (result : JobResult) :
    (w.afterBody result).Staged := by
  obtain ⟨pc, hnext, rfl | rfl⟩ := w.afterBody_eq result <;> rw [hnext] <;>
    exact ⟨fun hearly => absurd (hstarted.symm.trans hearly) nofun, fun _ => rfl⟩

theorem Staged.onward {w w' : Worker} (h : w.Staged) (hpc : w.pc.opening = true)
    (happlied : w'.applied = w.applied) (hstarted : w'.applyStarted = w.applyStarted)
    (hpc' : w'.pc.late = false) : w'.Staged := by
  refine ⟨fun hearly => ⟨?_, hpc'⟩, fun hlate => ?_⟩
  · rw [happlied]
    exact (h.early (hstarted ▸ hearly)).1
  · have hopening := h.late (hstarted ▸ hlate)
    rw [hpc] at hopening
    cases hopening

theorem receive_staged {w : Worker} (h : w.Staged) (answer : Reply) : (w.receive answer).Staged := by
  have started : w.pc.late = true → w.applyStarted = true := by
    intro hlate
    by_contra hno
    rw [Bool.not_eq_true] at hno
    rw [(h.early hno).2] at hlate
    cases hlate
  have behind : ∀ w' : Worker, w.pc.late = true → w'.applyStarted = w.applyStarted →
      w'.pc.opening = false → w'.Staged := fun w' hlate hsame hpc =>
    ⟨fun hearly => absurd (hearly.symm.trans (hsame.trans (started hlate))) Bool.false_ne_true,
      fun _ => hpc⟩
  have known : ({ w with commitStateKnown := true } : Worker).Staged := ⟨h.early, h.late⟩
  unfold receive
  split
  next hpc => exact h.onward (by rw [hpc]; rfl) rfl rfl rfl
  next hpc =>
    split
    · exact h.onward (by rw [hpc]; rfl) rfl rfl rfl
    · exact h.raise _
  next hpc => exact h.onward (by rw [hpc]; rfl) rfl rfl rfl
  next hpc => exact h.onward (by rw [hpc]; rfl) rfl rfl rfl
  next hpc => exact h.onward (by rw [hpc]; rfl) rfl rfl rfl
  next hpc => exact behind _ (by rw [hpc]; rfl) rfl rfl
  next hpc =>
    split
    · exact behind _ (by rw [hpc]; rfl) rfl rfl
    · split
      · split
        · exact behind _ (by rw [hpc]; rfl) rfl rfl
        · exact h.raise _
      · exact h.raise _
  next hpc =>
    exact @afterBody_staged { w with commitStateKnown := true } (started (by rw [hpc]; rfl)) _
  next hpc =>
    exact @afterBody_staged { w with commitStateKnown := true } (started (by rw [hpc]; rfl)) _
  next hpc => exact behind _ (by rw [hpc]; rfl) rfl rfl
  next hpc =>
    dsimp only
    split
    · exact @afterBody_staged { w with commitStateKnown := true } (started (by rw [hpc]; rfl)) _
    · exact known.raise _
  next hpc => exact @afterBody_staged { w with applied := true } (started (by rw [hpc]; rfl)) _
  next hpc => exact behind _ (by rw [hpc]; rfl) rfl rfl
  next hpc => exact behind _ (by rw [hpc]; rfl) rfl rfl
  next hpc => exact behind _ (by rw [hpc]; rfl) rfl rfl
  next hpc => exact behind _ (by rw [hpc]; rfl) rfl rfl
  next hpc => exact @afterBody_staged { w with applied := true } (started (by rw [hpc]; rfl)) _
  next hpc =>
    split
    · exact behind _ (by rw [hpc]; rfl) rfl rfl
    · exact behind _ (by rw [hpc]; rfl) rfl rfl
  next hpc => exact behind _ (by rw [hpc]; rfl) rfl rfl
  next hpc => exact h.goto nofun nofun
  next => exact h.callFailed _

end Worker


/-! ## §C One runner for each job -/

namespace System

/-- A job that is no deletion has one runner. -/
def Alone (sys : System) : Prop :=
  ∀ task task' w w', sys.workers.lookup task = some w → sys.workers.lookup task' = some w' →
    w.job.id = w'.job.id → w.job.kind ≠ .agentDelete → task = task'

theorem Alone.spawn {sys : System} {job : Job} (h : sys.Alone)
    (hnew : ∀ task w, sys.workers.lookup task = some w → w.job.kind ≠ .agentDelete →
      w.job.id ≠ job.id)
    (hown : job.kind ≠ .agentDelete → ∀ task w, sys.workers.lookup task = some w →
      w.job.id ≠ job.id) : (sys.spawn job).Alone := by
  intro task task' w w' hw hw' hid hkind
  rcases Dict.lookup_insert_cases hw with ⟨rfl, rfl⟩ | ⟨_, hw⟩
  · rcases Dict.lookup_insert_cases hw' with ⟨rfl, rfl⟩ | ⟨_, hw'⟩
    · rfl
    · exact absurd hid.symm (hown hkind task' w' hw')
  · rcases Dict.lookup_insert_cases hw' with ⟨rfl, rfl⟩ | ⟨_, hw'⟩
    · exact absurd hid (hnew task w hw hkind)
    · exact h task task' w w' hw hw' hid hkind

theorem Alone.spawnAll {sys : System} {jobs : List Job} (h : sys.Alone)
    (hnew : ∀ job ∈ jobs, ∀ task w, sys.workers.lookup task = some w → w.job.id ≠ job.id)
    (hids : (jobs.map (·.id)).Nodup) : (sys.spawnAll jobs).Alone := by
  induction jobs generalizing sys with
  | nil => exact h
  | cons job jobs ih =>
    have hfirst := hnew job List.mem_cons_self
    rw [List.map_cons, List.nodup_cons] at hids
    refine @ih (sys.spawn job) (h.spawn (fun task w hw _ => hfirst task w hw) fun _ => hfirst)
      (fun job' hjob' task w hw => ?_) hids.2
    rcases Dict.lookup_insert_cases hw with ⟨_, rfl⟩ | ⟨_, hw⟩
    · intro hid
      exact hids.1 (hid ▸ List.mem_map_of_mem hjob')
    · exact hnew job' (List.mem_cons_of_mem _ hjob') task w hw

/-- After a restart each queued job is run once. -/
theorem Alone.restart {sys : System} (hids : ∀ i j, sys.store.jobs.lookup i = some j → j.id = i) :
    sys.restart.Alone := by
  refine Alone.spawnAll (fun task task' w w' hw => by simp at hw)
    (fun job _ task w hw => by simp at hw) ?_
  rw [List.map_map]
  set queued := sys.store.restart.jobs.filter fun _ j => j.status == .queued with hqueued
  have hkeys : queued.entries.map ((·.id) ∘ (·.2)) = queued.entries.map Sigma.fst := by
    refine List.map_congr_left fun entry hentry => ?_
    obtain ⟨hjob, _⟩ := Dict.lookup_filter.mp (Dict.mem_entries_iff.mp hentry)
    change (sys.store.jobs.mapValues Store.restarted).lookup entry.1 = some entry.2 at hjob
    rw [Dict.lookup_mapValues, Option.map_eq_some_iff] at hjob
    obtain ⟨j, hj, hrestarted⟩ := hjob
    rw [Function.comp_apply, ← hrestarted]
    refine Eq.trans ?_ (hids entry.1 j hj)
    unfold Store.restarted
    split <;> rfl
  rw [hkeys]
  exact queued.nodupKeys

theorem Alone.step {sys sys' : System} {e : Event} (h : sys.Alone) (hf : FirstRun sys)
    (hstep : sys.step e = some sys') : sys'.Alone := by
  cases step_tasks hstep with
  | kept _ _ hworkers _ _ => intro task task' w w' hw hw'; exact h task task' w w' (hworkers ▸ hw) (hworkers ▸ hw')
  | cancelled _ _ hsys => rw [hsys]; exact h
  | worker i w₀ w₁ hfound hmoved hworkers _ _ =>
    have origin : ∀ task w, sys'.workers.lookup task = some w → ∃ w₂,
        sys.workers.lookup task = some w₂ ∧ w₂.job = w.job := by
      intro task w hw
      rw [hworkers] at hw
      rcases Dict.lookup_insert_cases hw with ⟨rfl, rfl⟩ | ⟨_, hw⟩
      · exact ⟨w₀, hfound, hmoved.job.symm⟩
      · exact ⟨w, hw, rfl⟩
    intro task task' w w' hw hw' hid hkind
    obtain ⟨v, hv, hjob⟩ := origin task w hw
    obtain ⟨v', hv', hjob'⟩ := origin task' w' hw'
    rw [← hjob, ← hjob'] at hid
    rw [← hjob] at hkind
    exact h task task' v v' hv hv' hid hkind
  | spawned job hspawns hworkers _ _ =>
    have hspawn : (sys.spawn job).Alone := by
      cases hspawns with
      | submitted jid fallback kind target scope payload before hfresh hnew _ =>
        have hother : ∀ task w, sys.workers.lookup task = some w → w.job.id ≠ job.id := by
          intro task w hw hid
          obtain ⟨j, hj, _⟩ := hf.known task w hw
          rw [hid, hnew] at hj
          change sys.store.jobs.lookup jid = some j at hj
          rw [hfresh] at hj
          cases hj
        exact h.spawn (fun task w hw _ => hother task w hw) fun _ => hother
      | retried jid payload executionId old hold hdelete hnew _ =>
        refine h.spawn (fun task w hw hkind hid => ?_) fun hkind => absurd ?_ hkind
        · obtain ⟨j, hj, hsame⟩ := hf.known task w hw
          have hjid : job.id = jid := by
            rw [hnew]
            exact hf.ids jid old hold
          rw [hid, hjid, hold] at hj
          obtain rfl := Option.some.inj hj
          exact hkind (hsame.symm.trans hdelete)
        · rw [hnew]
          exact hdelete
    intro task task' w w' hw hw'
    rw [hworkers] at hw hw'
    exact hspawn task task' w w' hw hw'
  | reconciler _ _ _ _ _ hworkers _ _ =>
    intro task task' w w' hw hw'
    exact h task task' w w' (hworkers ▸ hw) (hworkers ▸ hw')
  | began _ _ _ _ _ _ hworkers _ _ =>
    intro task task' w w' hw hw'
    exact h task task' w w' (hworkers ▸ hw) (hworkers ▸ hw')
  | restarted _ hsys =>
    rw [hsys]
    exact Alone.restart hf.ids

end System


/-! ## §D What the runner and the reconciliations find -/

/-- The statuses that end the work on a job. -/
def Status.recorded : Status → Bool
  | .needsRecovery | .interrupted | .succeeded | .failed => true
  | _ => false

theorem Status.not_cancellable {st : Status} (h : st.recorded = true) : st.cancellable = false := by
  cases st <;> first | rfl | cases h

theorem Reconciler.Moved.job {s s' : Store} {task : Nat} {t t' : Reconciler} {e : Event}
    (h : t.Moved s task e s' t') : t'.job = t.job := by
  cases h with
  | work raises _ _ => exact t.work_job s raises
  | reply answer _ => exact t.receive_job answer

theorem Reconciler.begin_eq_ok {s : Store} {jid requestId : String} {t : Reconciler}
    (h : Reconciler.begin s jid requestId = .ok (some t)) :
    s.jobs.lookup jid = some t.job ∧ t.job.status.recorded = true := by
  unfold Reconciler.begin at h
  cases hj : s.jobs.lookup jid with
  | none => simp [hj, fail] at h
  | some j =>
    simp only [hj] at h
    split at h
    · simp at h
    · simp only [bind_eq_ok, refuse_eq_ok] at h
      obtain ⟨_, hstatus, h⟩ := h
      split at h
      · simp [fail] at h
      · obtain rfl := Option.some.inj (Except.ok.inj h)
        refine ⟨rfl, ?_⟩
        rw [Bool.not_eq_false'] at hstatus
        cases hst : j.status <;> simp_all [Status.reconcilable, Status.recorded]

namespace Worker

variable {s s' : Store} {task : Nat} {w w' : Worker} {e : Event}

theorem receive_started (w : Worker) (answer : Reply) :
    (w.receive answer).applyStarted = w.applyStarted := by
  have raised : ∀ (v : Worker) exc, (v.raise exc).applyStarted = v.applyStarted := fun v exc => by
    obtain ⟨pc, h, _⟩ := v.raise_eq exc
    rw [h]
    rfl
  have body : ∀ (v : Worker) result, (v.afterBody result).applyStarted = v.applyStarted :=
    fun v result => by
      obtain ⟨pc, h, _⟩ := v.afterBody_eq result
      rw [h]
  have failed : (w.callFailed answer).applyStarted = w.applyStarted := by
    obtain ⟨pc, h, _⟩ := w.callFailed_eq answer
    rw [h]
    rfl
  unfold receive
  split
  case h_2 => split <;> first | rfl | exact raised _ _
  case h_7 =>
    split
    · rfl
    · split
      · split <;> first | rfl | exact raised _ _
      · exact raised _ _
  case h_8 | h_9 | h_12 | h_17 => exact body _ _
  case h_11 =>
    dsimp only
    split
    · exact body _ _
    · exact raised _ _
  case h_18 => split <;> rfl
  case h_21 => exact failed
  all_goals rfl

/-- **The apply mark** is the only move that sets its flag, and it makes the job an applying one. -/
theorem work_started {raises : Bool} (h : (w.work s raises).2.applyStarted = true) :
    w.applyStarted = true ∨ ∀ j, (w.work s raises).1.jobs.lookup w.job.id = some j →
      j.status = .applying := by
  have raised : ∀ exc, (w.raise exc).applyStarted = w.applyStarted := fun exc => by
    obtain ⟨pc, h, _⟩ := w.raise_eq exc
    rw [h]
    rfl
  have checkpoint : ∀ f next, next.applyStarted = w.applyStarted →
      (w.checkpoint s f next).2.applyStarted = w.applyStarted := fun f next hnext => by
    rcases checkpoint_snd s w f next with hn | ⟨exc, hr⟩
    · rw [hn, hnext]
    · rw [hr, raised]
  cases raises with
  | true => exact .inl ((raised .other).symm.trans h)
  | false =>
    cases hpc : w.pc with
    | start =>
      simp only [work, hpc, Bool.false_eq_true, if_false] at h
      rw [checkpoint _ _ (by obtain ⟨pc, hnext, _⟩ := w.afterStart_eq; rw [hnext]; rfl)] at h
      exact .inl h
    | validateMark | quiesceMark | verifyMark | commitMark =>
      simp only [work, hpc, Bool.false_eq_true, if_false] at h
      exact .inl ((checkpoint _ _ (by rfl)).symm.trans h)
    | applyMark =>
      simp only [work, hpc, Bool.false_eq_true, if_false] at h ⊢
      unfold Worker.checkpoint at h ⊢
      split at h
      · next s' hs =>
        obtain ⟨j₀, hj₀, _, rfl⟩ := Store.transition_eq_ok.mp hs
        refine .inr fun j hj => ?_
        rw [Store.update_rewrites, if_pos rfl, hj₀] at hj
        obtain rfl := Option.some.inj hj
        rfl
      · split at h <;> (rw [raised] at h; exact .inl h)
    | desiredMark | stopped | leave =>
      simp only [work, hpc, Bool.false_eq_true, if_false] at h
      split at h <;> exact .inl h
    | _ =>
      simp only [work, hpc, Bool.false_eq_true, if_false] at h
      exact .inl h

theorem Moved.started (h : w.Moved s task e s' w') (hstarted : w'.applyStarted = true) :
    w.applyStarted = true ∨ ∀ j, s'.jobs.lookup w.job.id = some j → j.status = .applying := by
  cases h with
  | work raises _ _ => exact work_started hstarted
  | reply answer _ => exact .inl ((w.receive_started answer).symm.trans hstarted)
  | stop _ =>
    obtain ⟨pc, h, _⟩ := w.raise_eq .cancelled
    rw [h] at hstarted
    exact .inl hstarted

theorem Moved.staged (h : w.Moved s task e s' w') (hw : w.Staged) : w'.Staged := by
  cases h with
  | work raises _ _ => exact work_staged s hw raises
  | reply answer _ => exact receive_staged hw answer
  | stop _ => exact hw.raise _

/-- A worker behind its apply mark makes its job no cancellable one. -/
theorem Marks.late {old new : Status} (h : w.Marks old new) (hw : w.Staged)
    (hstarted : w.applyStarted = true) (hold : old.cancellable = false) : new.cancellable = false := by
  have hopening := hw.late hstarted
  cases h with
  | same => exact hold
  | started here _ => rw [here] at hopening; cases hopening
  | waits here _ => rw [here] at hopening; cases hopening
  | applies here _ => rw [here] at hopening; cases hopening
  | finished here => rfl
  | stopped here => unfold stoppedStatus; split <;> rfl
  | settled exc here => unfold settledStatus; split <;> rfl
  | blocked here => rfl

/-- A job whose end is recorded stays one. -/
theorem Marks.recorded {old new : Status} (h : w.Marks old new) (hold : old.recorded = true) :
    new.recorded = true := by
  have hprog : old.inProgress = false := by cases old <;> first | rfl | cases hold
  cases h with
  | same => exact hold
  | started here hin => rw [hprog] at hin; cases hin
  | waits here hin => rw [hprog] at hin; cases hin
  | applies here hin => rw [hprog] at hin; cases hin
  | finished here => rfl
  | stopped here => unfold stoppedStatus; split <;> rfl
  | settled exc here => unfold settledStatus; split <;> rfl
  | blocked here => rfl

end Worker


/-! ## §E Along runs -/

/-- What every state of the service keeps about jobs and those who work on them. -/
structure Runners (sys : System) : Prop where
  first : FirstRun sys
  alone : sys.Alone
  staged : ∀ task w, sys.workers.lookup task = some w → w.Staged
  /-- a job that is being applied is not cancelled -/
  applying : ∀ task w j, sys.workers.lookup task = some w → sys.store.jobs.lookup w.job.id = some j →
    j.kind ≠ .agentDelete → w.applyStarted = true → j.status.cancellable = false
  /-- a job that is reconciled had been ended -/
  recorded : ∀ task t, sys.reconcilers.lookup task = some t → ∃ j,
    sys.store.jobs.lookup t.job.id = some j ∧ (j.kind ≠ .agentDelete → j.status.recorded = true)

namespace Runners

variable {sys sys' : System} {e : Event}

theorem initial : Runners System.initial where
  first := FirstRun.initial
  alone task task' w w' hw := by simp [System.initial] at hw
  staged task w hw := by simp [System.initial] at hw
  applying task w j hw := by simp [System.initial] at hw
  recorded task t ht := by simp [System.initial] at ht

theorem cancellable_of_cancels {jid : String} {j : Job} (h : sys.store.cancels jid = true)
    (hj : sys.store.jobs.lookup jid = some j) : j.status.cancellable = true ∧ j.kind ≠ .agentDelete := by
  simpa [Store.cancels, hj] using h

theorem staged_step (h : Runners sys) (hstep : sys.step e = some sys') :
    ∀ task w, sys'.workers.lookup task = some w → w.Staged := by
  intro task w hw
  rcases System.worker_origin hstep hw with hold | ⟨w₀, hw₀, hmoved⟩ | ⟨job, rfl, _⟩
  · exact h.staged task w hold
  · exact hmoved.staged (h.staged task w₀ hw₀)
  · exact Worker.spawned_staged job

/-- What is behind its apply mark stays uncancelled. -/
theorem uncancelled (h : Runners sys) (hstep : sys.step e = some sys') {task : Nat} {w : Worker}
    (hw : sys.workers.lookup task = some w) (hstarted : w.applyStarted = true) {j' : Job}
    (hj' : sys'.store.jobs.lookup w.job.id = some j') (hkind : j'.kind ≠ .agentDelete) :
    j'.status.cancellable = false := by
  obtain ⟨j, hj, hsame⟩ := h.first.known task w hw
  obtain ⟨j'', hj'', hid⟩ := System.job_kept hstep hj
  obtain rfl := Option.some.inj (hj'.symm.trans hj'')
  rw [hid.2.1] at hkind
  have hold := h.applying task w j hw hj hkind hstarted
  have hbecomes := System.step_becomes hstep hj hj'
  generalize j'.status = st at hbecomes ⊢
  cases hbecomes with
  | same => exact hold
  | marked task' w' raises st' hevent hfound hown hmarks =>
    obtain rfl := h.alone task task' w w' hw hfound hown.symm (hsame ▸ hkind)
    obtain rfl := Option.some.inj (hw.symm.trans hfound)
    exact hmarks.late (h.staged task w hw) hstarted hold
  | reconciled _ _ _ _ => rfl
  | cancelled hevent haccepted =>
    rw [(cancellable_of_cancels haccepted hj).1] at hold
    cases hold
  | retried hdelete _ => exact absurd hdelete hkind
  | restarted _ =>
    unfold Store.restarted
    split <;> first | rfl | exact hold

theorem applying_step (h : Runners sys) (hstep : sys.step e = some sys') :
    ∀ task w j, sys'.workers.lookup task = some w → sys'.store.jobs.lookup w.job.id = some j →
      j.kind ≠ .agentDelete → w.applyStarted = true → j.status.cancellable = false := by
  intro task w j hw hj hkind hstarted
  rcases System.worker_origin hstep hw with hold | ⟨w₀, hw₀, hmoved⟩ | ⟨job, rfl, _⟩
  · exact h.uncancelled hstep hold hstarted hj hkind
  · have hjob := hmoved.job
    rw [hjob] at hj
    rcases hmoved.started hstarted with hbefore | happlies
    · exact h.uncancelled hstep hw₀ hbefore hj hkind
    · rw [happlies j hj]
      rfl
  · cases hstarted

theorem recorded_step (h : Runners sys) (hstep : sys.step e = some sys') :
    ∀ task t, sys'.reconcilers.lookup task = some t → ∃ j,
      sys'.store.jobs.lookup t.job.id = some j ∧ (j.kind ≠ .agentDelete → j.status.recorded = true) := by
  intro task t ht
  have hkept : ∀ t₀, sys.reconcilers.lookup task = some t₀ → t₀.job = t.job → ∃ j,
      sys'.store.jobs.lookup t.job.id = some j ∧
        (j.kind ≠ .agentDelete → j.status.recorded = true) := by
    intro t₀ ht₀ hjob
    obtain ⟨j, hj, hold⟩ := h.recorded task t₀ ht₀
    rw [hjob] at hj
    obtain ⟨j', hj', hid⟩ := System.job_kept hstep hj
    refine ⟨j', hj', fun hkind => ?_⟩
    rw [hid.2.1] at hkind
    have hold := hold hkind
    have hbecomes := System.step_becomes hstep hj hj'
    generalize j'.status = st at hbecomes ⊢
    cases hbecomes with
    | same => exact hold
    | marked task' w raises st' hevent hfound hown hmarks => exact hmarks.recorded hold
    | reconciled _ _ _ _ => rfl
    | cancelled hevent haccepted =>
      have hcancellable := (cancellable_of_cancels haccepted hj).1
      rw [Status.not_cancellable hold] at hcancellable
      cases hcancellable
    | retried hdelete _ => exact absurd hdelete hkind
    | restarted _ =>
      unfold Store.restarted
      split <;> first | rfl | exact hold
  rcases System.reconciler_origin hstep ht with hold | ⟨t₀, ht₀, hmoved⟩ | ⟨jid, rid, rfl, _, hbegin⟩
  · exact hkept t hold rfl
  · exact hkept t₀ ht₀ hmoved.job.symm
  · obtain ⟨hj, hstatus⟩ := Reconciler.begin_eq_ok hbegin
    have hid := h.first.ids jid t.job hj
    cases System.step_tasks hstep with
    | began _ _ _ _ _ hstore _ _ _ => exact ⟨t.job, by rw [hstore, hid]; exact hj, fun _ => hstatus⟩
    | kept _ hjobs _ _ _ => exact ⟨t.job, by rw [hjobs, hid]; exact hj, fun _ => hstatus⟩
    | cancelled _ hevent _ => cases hevent
    | worker _ _ _ _ hmoved _ _ _ => cases hmoved
    | spawned _ hspawns _ _ _ => cases hspawns
    | reconciler _ _ _ _ hmoved _ _ _ => cases hmoved
    | restarted hevent _ => cases hevent

theorem step (h : Runners sys) (hstep : sys.step e = some sys') : Runners sys' :=
  ⟨h.first.step hstep, h.alone.step h.first hstep, h.staged_step hstep, h.applying_step hstep,
    h.recorded_step hstep⟩

theorem run {es : List Event} (hrun : operations.run System.initial es = some sys) : Runners sys :=
  operations.run_always (fun _ _ _ h hstep => h.step hstep) initial hrun

end Runners


/-! ## §F After a cancellation -/

/-- The calls that change something behind the other services. -/
def Call.changes : Call → Bool
  | .action _ body => body.action == .apply || body.action == .archive || body.action == .delete
  | .activate _ | .rollback _ | .commit _ | .lifecycle .. | .sandboxAction .. | .cleanupFiles .. => true
  | _ => false

namespace Worker

/-- The next write of the runner does not look at the status. -/
def overwrites (w : Worker) : Bool :=
  match w.pc with
  | .stoppedMark | .settle _ | .resumeFailed => true
  | _ => false

/-- The answers that a runner before its apply mark goes on with. -/
def accepts (w : Worker) (answer : Reply) : Bool :=
  match w.pc, answer with
  | .fetchPrevious, .ok (.bundle _) => true
  | .fetchPrevious, .error e => e.status == 404
  | .obtainRelease, .ok (.release _) => true
  | .probe, .ok _ | .quiesce, .ok _ | .resume, .ok _ => true
  | _, _ => false

theorem call_harmless {w : Worker} (h : w.Staged) (hearly : w.applyStarted = false) {c : Call}
    (hc : w.call = some c) : c.changes = false := by
  have hlate := (h.early hearly).2
  unfold call at hc
  cases hpc : w.pc <;> rw [hpc] at hc hlate <;> cases hlate
  case fetchPrevious | quiesce | resume => obtain rfl := Option.some.inj hc; rfl
  case obtainRelease =>
    simp only at hc
    split at hc <;> (obtain rfl := Option.some.inj hc; rfl)
  case probe =>
    simp only [Option.map_eq_some_iff] at hc
    obtain ⟨r, _, rfl⟩ := hc
    split <;> rfl
  all_goals cases hc

theorem raise_cancelled_overwrites (w : Worker) : (w.raise .cancelled).overwrites = false := by
  unfold raise
  split
  · rfl
  · split <;> rfl

theorem checkpoint_cancelled {s : Store} {w next : Worker} {f : Job → Job}
    (hs : s.statusOf w.job.id = some .cancelled) : (w.checkpoint s f next).2 = w.raise .cancelled := by
  unfold checkpoint
  cases ht : s.transition w.job.id Status.inProgress f with
  | ok s' =>
    obtain ⟨j, hj, hprog, _⟩ := Store.transition_eq_ok.mp ht
    rw [Store.statusOf, hj] at hs
    have hcancelled : j.status = .cancelled := Option.some.inj hs
    rw [hcancelled] at hprog
    cases hprog
  | error e => simp only [hs, if_true]

/-- **The runner of a cancelled job** notices at its next checkpoint, and looks at the status before it
writes. -/
theorem work_cancelled {s : Store} {w : Worker} (hs : s.statusOf w.job.id = some .cancelled)
    (hw : w.Staged) (hearly : w.applyStarted = false) (ho : w.overwrites = false) :
    (w.work s false).2.overwrites = false := by
  have hlate := (hw.early hearly).2
  cases hpc : w.pc with
  | start | validateMark | quiesceMark | applyMark =>
    simp only [work, hpc, Bool.false_eq_true, if_false, checkpoint_cancelled hs]
    exact w.raise_cancelled_overwrites
  | stopped =>
    simp only [work, hpc, Bool.false_eq_true, if_false, hs, if_true]
    rfl
  | leave =>
    simp only [work, hpc, Bool.false_eq_true, if_false]
    split <;> rfl
  | stoppedMark | settle | resumeFailed => simp [overwrites, hpc] at ho
  | fetchPrevious | obtainRelease | probe | quiesce | resume | ended =>
    simp only [work, hpc, Bool.false_eq_true, if_false]
    exact ho
  | _ =>
    rw [hpc] at hlate
    cases hlate

theorem receive_accepted {w : Worker} {answer : Reply} (h : w.accepts answer = true) :
    (w.receive answer).overwrites = false := by
  unfold accepts at h
  split at h
  next hpc => simp [receive, hpc, overwrites]
  next e hpc =>
    rw [beq_iff_eq] at h
    simp [receive, hpc, h, overwrites, goto]
  next hpc => simp [receive, hpc, overwrites]
  next hpc => simp [receive, hpc, overwrites, goto]
  next hpc => simp [receive, hpc, overwrites, goto]
  next hpc => simp [receive, hpc, overwrites, goto]
  next => cases h

/-- A job that has left the progress stays out of it. -/
theorem Marks.quiet {w : Worker} {old new : Status} (h : w.Marks old new) (hold : old.inProgress = false) :
    new.inProgress = false := by
  cases h with
  | same => exact hold
  | started here hin => rw [hold] at hin; cases hin
  | waits here hin => rw [hold] at hin; cases hin
  | applies here hin => rw [hold] at hin; cases hin
  | finished here => rfl
  | stopped here => unfold stoppedStatus; split <;> rfl
  | settled exc here => unfold settledStatus; split <;> rfl
  | blocked here => rfl

end Worker


/-- The runner of the job is about to record its failure. -/
def System.overwrites (sys : System) (jid : String) : Bool :=
  sys.workers.any fun _ w => w.job.id == jid && w.overwrites

/-- The condition on a step: no call of the runner fails, and no operation of its database. -/
def unfailing (jid : String) (sys : System) : Event → Bool
  | .work task raises => (sys.workers.lookup task).all fun w => w.job.id != jid || !raises
  | .reply task answer => (sys.workers.lookup task).all fun w => w.job.id != jid || w.accepts answer
  | _ => true

/-- The job has left the progress, before its apply mark. -/
structure Over (jid : String) (sys : System) : Prop where
  runners : Runners sys
  job : ∃ j, sys.store.jobs.lookup jid = some j ∧ j.kind ≠ .agentDelete ∧ j.status.inProgress = false
  early : ∀ task w, sys.workers.lookup task = some w → w.job.id = jid → w.applyStarted = false

namespace Over

variable {jid : String} {sys sys' : System} {e : Event}

theorem job_step (h : Over jid sys) (hstep : sys.step e = some sys') :
    ∃ j, sys'.store.jobs.lookup jid = some j ∧ j.kind ≠ .agentDelete ∧ j.status.inProgress = false := by
  obtain ⟨j, hj, hkind, hprog⟩ := h.job
  obtain ⟨j', hj', hid⟩ := System.job_kept hstep hj
  refine ⟨j', hj', hid.2.1 ▸ hkind, ?_⟩
  have hbecomes := System.step_becomes hstep hj hj'
  generalize j'.status = st at hbecomes ⊢
  cases hbecomes with
  | same => exact hprog
  | marked _ _ _ _ _ _ _ hmarks => exact hmarks.quiet hprog
  | reconciled _ _ _ _ => rfl
  | cancelled _ _ => rfl
  | retried hdelete _ => exact absurd hdelete hkind
  | restarted _ =>
    unfold Store.restarted
    split <;> first | rfl | exact hprog

theorem step (h : Over jid sys) (hstep : sys.step e = some sys') : Over jid sys' := by
  have hjob := h.job_step hstep
  refine ⟨h.runners.step hstep, hjob, fun task w hw hid => ?_⟩
  rcases System.worker_origin hstep hw with hold | ⟨w₀, hw₀, hmoved⟩ | ⟨job, rfl, _⟩
  · exact h.early task w hold hid
  · rw [hmoved.job] at hid
    by_contra hstarted
    rw [Bool.not_eq_false] at hstarted
    rcases hmoved.started hstarted with hbefore | happlies
    · rw [h.early task w₀ hw₀ hid] at hbefore
      cases hbefore
    · obtain ⟨j, hj, _, hprog⟩ := hjob
      rw [happlies j (hid ▸ hj)] at hprog
      cases hprog
  · rfl

/-- Its runner sends no call that changes something. -/
theorem harmless (h : Over jid sys) {task : Nat} {w : Worker}
    (hw : sys.workers.lookup task = some w) (hid : w.job.id = jid) {c : Call} (hc : w.call = some c) :
    c.changes = false :=
  Worker.call_harmless (h.runners.staged task w hw) (h.early task w hw hid) hc

theorem of_cancel (hr : Runners sys) (hcancels : sys.store.cancels jid = true)
    (hstep : sys.step (.cancel jid) = some sys') :
    Over jid sys' ∧ sys'.store.statusOf jid = some .cancelled := by
  have hr' := hr.step hstep
  rcases System.cancel_eq_some hstep with ⟨hno, _⟩ | ⟨_, rfl⟩
  · rw [hcancels] at hno
    cases hno
  · cases hj : sys.store.jobs.lookup jid with
    | none => simp [Store.cancels, hj] at hcancels
    | some j =>
      obtain ⟨_, hkind⟩ := Runners.cancellable_of_cancels hcancels hj
      have hj' : (sys.store.update jid fun j => { j with status := .cancelled }).jobs.lookup jid =
          some { j with status := .cancelled } := by
        rw [Store.update_rewrites, if_pos rfl, hj]
        rfl
      refine ⟨⟨hr', ⟨_, hj', hkind, rfl⟩, fun task w hw hid => ?_⟩, by simp [Store.statusOf, hj']⟩
      by_contra hstarted
      rw [Bool.not_eq_false] at hstarted
      have hno := hr'.applying task w { j with status := .cancelled } hw (by rw [hid]; exact hj') hkind
        hstarted
      cases hno

end Over

/-- The job is cancelled, and its runner will see that before it writes. -/
structure Lasting (jid : String) (sys : System) : Prop where
  ends : Over jid sys
  status : sys.store.statusOf jid = some .cancelled
  sees : ∀ task w, sys.workers.lookup task = some w → w.job.id = jid → w.overwrites = false

namespace Lasting

variable {jid : String} {sys sys' : System} {e : Event}

theorem no_reconciler (h : Lasting jid sys) {task : Nat} {t : Reconciler}
    (ht : sys.reconcilers.lookup task = some t) : t.job.id ≠ jid := by
  intro hid
  obtain ⟨j, hj, hrecorded⟩ := h.ends.runners.recorded task t ht
  obtain ⟨j', hj', hkind, _⟩ := h.ends.job
  rw [hid, hj'] at hj
  obtain rfl := Option.some.inj hj
  have hstatus := h.status
  rw [Store.statusOf, hj'] at hstatus
  have hcancelled : j'.status = .cancelled := Option.some.inj hstatus
  have hrecorded := hrecorded hkind
  rw [hcancelled] at hrecorded
  cases hrecorded

theorem status_step (h : Lasting jid sys) (hstep : sys.step e = some sys') :
    sys'.store.statusOf jid = some .cancelled := by
  obtain ⟨j, hj, hkind, _⟩ := h.ends.job
  have hstatus := h.status
  rw [Store.statusOf, hj] at hstatus
  have hcancelled : j.status = .cancelled := Option.some.inj hstatus
  obtain ⟨j', hj', _⟩ := System.job_kept hstep hj
  rw [Store.statusOf, hj', Option.map_some, Option.some.injEq]
  have hbecomes := System.step_becomes hstep hj hj'
  generalize j'.status = st at hbecomes ⊢
  cases hbecomes with
  | same => exact hcancelled
  | cancelled _ _ => rfl
  | reconciled task t hfound hown => exact absurd hown (h.no_reconciler hfound)
  | retried hdelete _ => exact absurd hdelete hkind
  | restarted _ =>
    unfold Store.restarted
    rw [hcancelled]
    exact hcancelled
  | marked task w raises _ _ hfound hown hmarks =>
    have hsees := h.sees task w hfound hown
    have hstaged := h.ends.runners.staged task w hfound
    have hlate := (hstaged.early (h.ends.early task w hfound hown)).2
    rw [hcancelled] at hmarks
    cases hmarks with
    | same => rfl
    | started _ hin => cases hin
    | waits _ hin => cases hin
    | applies _ hin => cases hin
    | finished here => rw [here] at hlate; cases hlate
    | stopped here => simp [Worker.overwrites, here] at hsees
    | settled exc here => simp [Worker.overwrites, here] at hsees
    | blocked here => simp [Worker.overwrites, here] at hsees

theorem step (h : Lasting jid sys) (hC : unfailing jid sys e = true)
    (hstep : sys.step e = some sys') : Lasting jid sys' := by
  refine ⟨h.ends.step hstep, h.status_step hstep, fun task w hw hid => ?_⟩
  rcases System.worker_origin hstep hw with hold | ⟨w₀, hw₀, hmoved⟩ | ⟨job, rfl, _⟩
  · exact h.sees task w hold hid
  · rw [hmoved.job] at hid
    generalize hs : sys'.store = s' at hmoved
    cases hmoved with
    | work raises _ _ =>
      have hraises : raises = false := by simpa [unfailing, hw₀, hid] using hC
      subst hraises
      exact Worker.work_cancelled (hid ▸ h.status) (h.ends.runners.staged task w₀ hw₀)
        (h.ends.early task w₀ hw₀ hid) (h.sees task w₀ hw₀ hid)
    | reply answer _ =>
      exact Worker.receive_accepted (by simpa [unfailing, hw₀, hid] using hC)
    | stop _ => exact w₀.raise_cancelled_overwrites
  · rfl

end Lasting

/-- **A cancelled job stays cancelled**, from any reachable state and in every run from there in which no
call of its runner fails and no operation of the runner's database raises, unless the runner was about to
record a failure already; and no reconciliation takes the job up. Whatever fails, the runner sends no call
that changes anything. -/
theorem cancel_lasts {es : List Event} {sys sys' : System} {jid : String}
    (hrun : operations.run System.initial es = some sys) (hcancels : sys.store.cancels jid = true)
    (hstep : operations.step sys (.cancel jid) = some sys') :
    sys'.store.statusOf jid = some .cancelled ∧
    (∀ fs t, operations.run sys' fs = some t → ∀ task w, t.workers.lookup task = some w →
      w.job.id = jid → ∀ c, w.call = some c → c.changes = false) ∧
    (sys'.overwrites jid = false → ∀ fs t, operations.run sys' fs = some t →
      operations.Along (fun s e => unfailing jid s e = true) sys' fs →
      t.store.statusOf jid = some .cancelled ∧
        ∀ task r, t.reconcilers.lookup task = some r → r.job.id ≠ jid) := by
  obtain ⟨hover, hstatus⟩ := Over.of_cancel (Runners.run hrun) hcancels hstep
  refine ⟨hstatus, fun fs t hfs task w hw hid c hc => ?_, fun hsees fs t hfs hC => ?_⟩
  · have ht : Over jid t := operations.run_always (fun _ _ _ h hstep => h.step hstep) hover hfs
    exact ht.harmless hw hid hc
  · have hlasting : Lasting jid sys' := by
      refine ⟨hover, hstatus, fun task w hw hid => ?_⟩
      have hno := Dict.any_eq_false.mp hsees task w hw
      rw [hid] at hno
      simpa using hno
    have ht : Lasting jid t :=
      operations.run_invariant (fun _ _ _ h hC hstep => h.step hC hstep) hlasting hfs hC
    exact ⟨ht.status, fun task r hr => ht.no_reconciler hr⟩


/-- The job of an archival is cancelled while its quiesce is under way. -/
def quiescedRun : List Event :=
  [.submit "j" "r" .agentArchive "a" "a"
      ⟨⟨some "request-1", none, none, none, none, none, none, none⟩, false, none⟩ none,
    .work 0 false, .work 0 false]

/-- The quiesce is answered, the runner notices the cancellation, and releases the Agent. -/
def releasedRun : List Event :=
  [.reply 0 (.ok .accepted), .work 0 false, .work 0 false, .work 0 false, .reply 0 (.ok .accepted)]

theorem releasedRun_stays_cancelled : ∃ sys sys' t,
    operations.run System.initial quiescedRun = some sys ∧
    operations.step sys (.cancel "j") = some sys' ∧ operations.run sys' releasedRun = some t ∧
    t.store.statusOf "j" = some .cancelled ∧ (t.workers.lookup 0).map (·.pc) = some .ended := by
  refine ⟨_, _, _, rfl, rfl, rfl, ?_, rfl⟩
  exact ((@cancel_lasts quiescedRun _ _ "j" rfl (by decide) rfl).2.2 (by decide) releasedRun _ rfl
    (by decide)).1

/-- The quiesce fails after the cancellation was confirmed, and the job is recorded as failed; and where the
quiesce is answered but the Agent cannot be released, the job needs recovery. -/
theorem cancelled_job_fails : ∃ sys sys' t u,
    operations.run System.initial quiescedRun = some sys ∧ sys.store.cancels "j" = true ∧
    operations.step sys (.cancel "j") = some sys' ∧ sys'.store.statusOf "j" = some .cancelled ∧
    operations.run sys' [.reply 0 (unavailable "sandbox_manager"), .work 0 false] = some t ∧
    t.store.statusOf "j" = some .failed ∧
    operations.run sys' (releasedRun.take 4 ++ [.reply 0 (unavailable "sandbox_manager"), .work 0 false]) =
      some u ∧ u.store.statusOf "j" = some .needsRecovery := by
  refine ⟨_, _, _, _, rfl, by decide, rfl, by decide, rfl, by decide, rfl, by decide⟩


end OpencodeCloud.Operations
