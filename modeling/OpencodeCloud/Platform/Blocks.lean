/-
# OpencodeCloud.Platform.Blocks -- who may remove an admission block

A job that quiesces its target relies on the block until its own resume is carried out. The manager
keeps one block for a target, whoever set it, so any resume for the target removes it; and a job gives
its lease up when its status is written, before its resume is sent. The jobs of a target that hold or
may still remove its block form its **section**: those past their checkpoint `quiesce`, those with a
resume on its way, the reconciliations that end in a resume, and those that rely on the block. As long
as a job enters the section of a target only when no other job is in it, the blocks hold
(`blocks_hold`).
-/
import OpencodeCloud.Catalog.References
import OpencodeCloud.Operations.Lease
import OpencodeCloud.Platform.Tasks

namespace OpencodeCloud.Platform

open OpencodeCloud.Library OpencodeCloud.Catalog OpencodeCloud.Operations

/-! ## §A The section of a target -/

/-- The worker has passed its checkpoint `quiesce` and has not ended. -/
def workerInside (w : Worker) : Bool := w.quiesceStarted && w.pc != .ended

/-- The statements of a reconciliation that can still lead to a resume. -/
def mayResume : ReconcilePc → Bool
  | .readRelease | .readApplied | .commit | .catalogImpact | .sandboxImpact | .filesImpact => true
  | .resume => true
  | .sandboxDetail | .desiredMark | .finish | .ended => false

/-- The request is a resume for the target. -/
def Letter.resumes (l : Letter) (target : String) : Bool :=
  match l.call with
  | .action aid body => aid == target && body.action == .resume
  | _ => false

/-- The jobs that hold the block of a target or can still remove it. -/
def State.insiders (p : State) (target : String) : List String :=
  (p.operations.workers.collect fun _ w =>
    if workerInside w && w.job.target == target then some w.job.id else none) ++
  (p.operations.reconcilers.collect fun _ t =>
    if mayResume t.pc && t.job.target == target then some t.job.id else none) ++
  (p.abandoned.filterMap fun l => if l.resumes target then some l.job else none) ++
  p.relies.collect fun jid aid => if aid == target then some jid else none

/-- Membership in the section, by its four reasons. -/
inductive Inside (p : State) (target : String) : String → Prop
  | worker (task : Nat) (w : Worker) (found : p.operations.workers.lookup task = some w)
      (inside : workerInside w = true) (on : w.job.target = target) : Inside p target w.job.id
  | reconciler (task : Nat) (t : Reconciler) (found : p.operations.reconcilers.lookup task = some t)
      (resumes : mayResume t.pc = true) (on : t.job.target = target) : Inside p target t.job.id
  | abandoned (l : Letter) (found : l ∈ p.abandoned) (resumes : l.resumes target = true) :
    Inside p target l.job
  | relies (jid : String) (found : p.relies.lookup jid = some target) : Inside p target jid

theorem mem_insiders_iff {p : State} {target jid : String} :
    jid ∈ p.insiders target ↔ Inside p target jid := by
  simp only [State.insiders, List.mem_append, Dict.mem_collect, List.mem_filterMap,
    Option.ite_none_right_eq_some, Option.some.injEq, Bool.and_eq_true, beq_iff_eq]
  constructor
  · rintro (((⟨task, w, hw, ⟨hin, hon⟩, rfl⟩ | ⟨task, t, ht, ⟨hres, hon⟩, rfl⟩) |
      ⟨l, hl, hres, rfl⟩) | ⟨j, aid, hj, haid, rfl⟩)
    · exact .worker task w hw hin hon
    · exact .reconciler task t ht hres hon
    · exact .abandoned l hl hres
    · exact .relies j (haid ▸ hj)
  · rintro (⟨task, w, hw, hin, hon⟩ | ⟨task, t, ht, hres, hon⟩ | ⟨l, hl, hres⟩ | ⟨_, hj⟩)
    · exact Or.inl (Or.inl (Or.inl ⟨task, w, hw, ⟨hin, hon⟩, rfl⟩))
    · exact Or.inl (Or.inl (Or.inr ⟨task, t, ht, ⟨hres, hon⟩, rfl⟩))
    · exact Or.inl (Or.inr ⟨l, hl, hres, rfl⟩)
    · exact Or.inr ⟨jid, target, hj, rfl, rfl⟩

/-- The target and the job that a step brings into a section. -/
def entering (p : State) : Event → Option (String × String)
  | .operate (.work task false) =>
    (p.operations.workers.lookup task).bind fun w =>
      if w.pc = .quiesceMark then some (w.job.target, w.job.id) else none
  | .operate (.reconcile jid requestId) =>
    match Reconciler.begin p.operations.store jid requestId with
    | .ok (some t) => if mayResume t.pc then some (t.job.target, t.job.id) else none
    | _ => none
  | _ => none

/-- The condition on a step: a job enters the section of its target only when no other job is in it. -/
def entersFreely (p : State) (e : Event) : Bool :=
  match entering p e with
  | some (target, jid) => (p.insiders target).all (· == jid)
  | none => true

/-! ## §B The requests of the section -/

/-- Only the statement `resume` sends a resume, and only `quiesce` a quiesce. -/
theorem worker_action {w : Worker} {target : String} {body : ActionBody}
    (h : w.call = some (.action target body)) :
    target = w.job.target ∧ (body.action = .resume → w.pc = .resume) ∧
      (body.action = .quiesce → w.pc = .quiesce) := by
  cases hpc : w.pc <;> simp only [Worker.call, hpc, reduceCtorEq, Option.some.injEq,
    Call.action.injEq] at h
  case quiesce =>
    obtain ⟨rfl, rfl⟩ := h
    exact ⟨rfl, fun hr => absurd hr (by simp [Worker.actionBody, ActionBody.plain]), fun _ => rfl⟩
  case resume =>
    obtain ⟨rfl, rfl⟩ := h
    exact ⟨rfl, fun _ => rfl, fun hq => absurd hq (by simp [Worker.actionBody, ActionBody.plain])⟩
  case verify =>
    split at h <;> simp only [reduceCtorEq, Option.some.injEq, Call.action.injEq] at h
    obtain ⟨rfl, rfl⟩ := h
    exact ⟨rfl, fun hr => absurd hr (by simp [Worker.actionBody, ActionBody.plain]),
      fun hr => absurd hr (by simp [Worker.actionBody, ActionBody.plain])⟩
  case delete | archive | compensateVerify =>
    obtain ⟨rfl, rfl⟩ := h
    exact ⟨rfl, fun hr => absurd hr (by simp [Worker.actionBody, ActionBody.plain]),
      fun hr => absurd hr (by simp [Worker.actionBody, ActionBody.plain])⟩
  case obtainRelease => split at h <;> simp at h
  case probe =>
    obtain ⟨r, _, h⟩ := Option.map_eq_some_iff.mp h
    split at h <;> simp at h
  case apply =>
    obtain ⟨r, _, h⟩ := Option.map_eq_some_iff.mp h
    split at h <;> simp only [reduceCtorEq, Call.action.injEq] at h
    obtain ⟨rfl, rfl⟩ := h
    exact ⟨rfl, fun hr => absurd hr (by simp [Worker.actionBody, ActionBody.plain]),
      fun hr => absurd hr (by simp [Worker.actionBody, ActionBody.plain])⟩
  case commit | commitStatus => obtain ⟨r, _, h⟩ := Option.map_eq_some_iff.mp h; simp at h
  case compensate =>
    split at h
    · obtain ⟨r, _, h⟩ := Option.map_eq_some_iff.mp h
      simp at h
    · obtain ⟨b, _, h⟩ := Option.map_eq_some_iff.mp h
      simp only [Call.action.injEq] at h
      obtain ⟨rfl, rfl⟩ := h
      exact ⟨rfl, fun hr => absurd hr (by simp [ActionBody.plain]),
        fun hr => absurd hr (by simp [ActionBody.plain])⟩

theorem reconciler_action {t : Reconciler} {target : String} {body : ActionBody}
    (h : t.call = some (.action target body)) :
    target = t.job.target ∧ t.pc = .resume ∧ body.action = .resume := by
  cases hpc : t.pc <;> simp only [Reconciler.call, hpc, reduceCtorEq, Option.some.injEq,
    Call.action.injEq, Option.map_eq_some_iff] at h
  case resume =>
    obtain ⟨rfl, rfl⟩ := h
    exact ⟨rfl, rfl, rfl⟩
  case readApplied => split at h <;> simp at h
  all_goals (obtain ⟨_, _, h⟩ := h; simp at h)

/-- Every worker has its flags. -/
def FlagsKept (p : State) : Prop := ∀ task w, p.operations.workers.lookup task = some w → w.Flags

/-- Who awaits the answer to a resume is in the section. -/
theorem inside_of_letter {p : State} (hf : FlagsKept p) {c : Caller} {l : Letter} {target : String}
    (h : p.letter c = some l) (hres : l.resumes target = true) : Inside p target l.job := by
  unfold Letter.resumes at hres
  split at hres
  · next aid body hcall =>
    simp only [Bool.and_eq_true, beq_iff_eq] at hres
    obtain ⟨rfl, hact⟩ := hres
    rcases letter_eq_some h with ⟨task, w, _, hw, hwc, hjob, _⟩ | ⟨task, t, _, ht, htc, hjob, _⟩
    · rw [hcall] at hwc
      obtain ⟨rfl, hpc, _⟩ := worker_action hwc
      rw [hjob]
      refine .worker task w hw ?_ rfl
      simp [workerInside, (hf task w hw).resume (hpc hact), hpc hact]
    · rw [hcall] at htc
      obtain ⟨rfl, hpc, _⟩ := reconciler_action htc
      rw [hjob]
      exact .reconciler task t ht (by rw [hpc]; rfl) rfl
  · exact absurd hres (by simp)

/-! ## §C What a step does to a section -/

theorem reconciler_moves {s s' : Operations.Store} {task : Nat} {t t' : Reconciler} {e : Operations.Event}
    (h : t.Moved s task e s' t') : t'.job = t.job ∧ (mayResume t'.pc = true → mayResume t.pc = true) := by
  cases h with
  | work raises _ _ =>
    unfold Reconciler.work
    split
    · exact ⟨rfl, fun h => absurd h (by simp [Reconciler.goto, mayResume])⟩
    · split
      · exact ⟨rfl, fun h => absurd h (by simp [mayResume])⟩
      · exact ⟨rfl, fun h => absurd h (by simp [Reconciler.goto, mayResume])⟩
      · exact ⟨rfl, id⟩
  | reply answer _ =>
    refine ⟨?_, fun h => ?_⟩
    · unfold Reconciler.receive
      split <;> (try dsimp only) <;> (try split) <;> rfl
    · cases hpc : t.pc
      -- the statements that lead to no resume lead to each other only
      case sandboxDetail =>
        cases answer with
        | ok r =>
          cases r <;> simp only [Reconciler.receive, hpc] at h
          case sandbox => split at h <;> exact absurd h (by simp [Reconciler.goto, mayResume])
          all_goals exact absurd h (by simp [Reconciler.goto, mayResume])
        | error _ | raised => simp [Reconciler.receive, hpc, Reconciler.goto, mayResume] at h
      case desiredMark | finish | ended =>
        simp [Reconciler.receive, hpc, Reconciler.goto, mayResume] at h
      all_goals rfl

/-- Who relies on a block after a request was carried out relied on it before, or has had its quiesce
acknowledged. -/
theorem relies_after {p : State} {awaited : Bool} {l : Letter} {reply : Reply} {jid target : String}
    (h : (p.reliesAfter awaited l reply).lookup jid = some target) :
    (p.relies.lookup jid = some target ∧
      ∀ r, reply = .ok r → l.resumes target = true → jid ≠ l.job) ∨
    (awaited = true ∧ l.job = jid ∧ ∃ body r, l.call = .action target body ∧
      body.action = .quiesce ∧ p.manager.commands.lookup body.requestId = none ∧ reply = .ok r) := by
  unfold State.reliesAfter at h
  split at h
  · next r =>
    split at h
    · next aid body hcall =>
      split at h
      · next hact =>
        split at h
        · next hnew =>
          simp only [Bool.and_eq_true, Option.isNone_iff_eq_none] at hnew
          rcases Dict.lookup_insert_cases h with ⟨rfl, rfl⟩ | ⟨_, hold⟩
          · exact Or.inr ⟨hnew.1, rfl, body, r, hcall, hact, hnew.2, rfl⟩
          · exact Or.inl ⟨hold, fun _ _ hres => by simp [Letter.resumes, hcall, hact] at hres⟩
        · exact Or.inl ⟨h, fun _ _ hres => by simp [Letter.resumes, hcall, hact] at hres⟩
      · obtain ⟨hne, hold⟩ := Dict.lookup_erase_cases h
        exact Or.inl ⟨hold, fun _ _ _ => hne⟩
      · next hres =>
        refine Or.inl ⟨h, fun _ _ hr => absurd hr ?_⟩
        simpa [Letter.resumes, hcall] using fun _ hact => hres hact
    · next hcall =>
      refine Or.inl ⟨h, fun _ _ hr => ?_⟩
      unfold Letter.resumes at hr
      split at hr
      · next aid body heq => exact absurd heq (hcall aid body)
      · exact absurd hr (by simp)
  · next hok => exact Or.inl ⟨h, fun r hr => absurd hr (hok r)⟩

/-- Where reliance on a block comes from. -/
theorem relies_origin {env : Service.Environment} {p q : State} {e : Event}
    (h : p.step env e = some q) {jid target : String} (hq : q.relies.lookup jid = some target) :
    p.relies.lookup jid = some target ∨
    ∃ c l body, p.letter c = some l ∧ l.job = jid ∧ l.call = .action target body ∧
      body.action = .quiesce := by
  cases State.step_stepped h with
  | operated e sys _ _ => exact Or.inl (by simpa using hq)
  | executed c luck l hl _ _ =>
    rcases relies_after (by simpa using hq) with ⟨hold, _⟩ | ⟨_, hjob, body, r, hcall, hact, _, _⟩
    · exact Or.inl hold
    · exact Or.inr ⟨c, l, body, hl, hjob, hcall, hact⟩
  | answered c reply sys _ _ => exact Or.inl hq
  | lost c raised l sys _ _ => exact Or.inl hq
  | executedLate i luck l _ _ =>
    rcases relies_after (by simpa using hq) with ⟨hold, _⟩ | ⟨hawaited, _⟩
    · exact Or.inl hold
    · exact absurd hawaited (by decide)
  | edited c s _ _ => exact Or.inl hq
  | loaded aid fault => exact Or.inl hq

/-- A worker that moves has not ended. -/
theorem not_ended_of_moved {s s' : Operations.Store} {task : Nat} {w w' : Worker}
    {e : Operations.Event} (h : w.Moved s task e s' w') : w.pc ≠ .ended := by
  intro hpc
  cases h with
  | work _ _ halive => exact halive hpc
  | reply _ hcall => simp [Worker.call, hpc] at hcall
  | stop hcall => simp [Worker.call, hpc] at hcall

/-- **Who is in a section after a step** was in it before, or has entered it. -/
theorem inside_origin {env : Service.Environment} {p q : State} {e : Event} (hf : FlagsKept p)
    (h : p.step env e = some q) {target jid : String} (hin : Inside q target jid) :
    Inside p target jid ∨ entering p e = some (target, jid) := by
  cases hin with
  | worker task w' hfound hinside hon =>
    rcases State.operations_step h with hsame | ⟨e', hstep, hevent⟩
    · exact Or.inl (.worker task w' (hsame ▸ hfound) hinside hon)
    · simp only [workerInside, Bool.and_eq_true, bne_iff_ne] at hinside
      rcases System.worker_origin hstep hfound with hold | ⟨w, hw, hmoved⟩ | ⟨job, rfl, _⟩
      · exact Or.inl (.worker task w' hold (by simp [workerInside, hinside]) hon)
      · obtain ⟨_, hjob, hquiesced⟩ := hmoved.keeps (hf task w hw)
        rw [hjob] at hon ⊢
        rcases hquiesced hinside.1 with hq | ⟨rfl, hpc⟩
        · exact Or.inl (.worker task w hw
            (by simp [workerInside, hq, not_ended_of_moved hmoved]) hon)
        · -- the worker has passed its checkpoint in this step
          rcases hevent with rfl | ⟨c, reply, htakes⟩
          · exact Or.inr (by simp [entering, hw, hpc, hon])
          · exact absurd htakes.symm takes_ne_work
      · exact absurd hinside.1 (by simp [Worker.spawned])
  | reconciler task t' hfound hresumes hon =>
    rcases State.operations_step h with hsame | ⟨e', hstep, hevent⟩
    · exact Or.inl (.reconciler task t' (hsame ▸ hfound) hresumes hon)
    · rcases System.reconciler_origin hstep hfound with hold | ⟨t, ht, hmoved⟩ |
        ⟨jid, requestId, rfl, _, hbegin⟩
      · exact Or.inl (.reconciler task t' hold hresumes hon)
      · obtain ⟨hjob, hres⟩ := reconciler_moves hmoved
        rw [hjob] at hon ⊢
        exact Or.inl (.reconciler task t ht (hres hresumes) hon)
      · rcases hevent with rfl | ⟨c, reply, htakes⟩
        · exact Or.inr (by simp [entering, hbegin, hresumes, hon])
        · exact absurd htakes.symm takes_ne_reconcile
  | abandoned l hfound hresumes =>
    rcases abandoned_origin h hfound with hold | ⟨c, hc⟩
    · exact Or.inl (.abandoned l hold hresumes)
    · exact Or.inl (inside_of_letter hf hc hresumes)
  | relies _ hfound =>
    rcases relies_origin h hfound with hold | ⟨c, l, body, hl, rfl, hcall, hact⟩
    · exact Or.inl (.relies _ hold)
    · rcases letter_eq_some hl with ⟨task, w, _, hw, hwc, hjob, _⟩ | ⟨task, t, _, _, htc, _, _⟩
      · rw [hcall] at hwc
        obtain ⟨rfl, _, hpc⟩ := worker_action hwc
        rw [hjob]
        refine Or.inl (.worker task w hw ?_ rfl)
        simp [workerInside, (hf task w hw).quiesce (hpc hact), hpc hact]
      · rw [hcall] at htc
        obtain ⟨_, _, hres⟩ := reconciler_action htc
        rw [hact] at hres
        exact absurd hres (by decide)

/-! ## §D Runs -/

/-- What a run keeps. -/
structure BlockInv (p : State) : Prop where
  flags : FlagsKept p
  /-- at most one job is in the section of a target -/
  alone : ∀ target i j, Inside p target i → Inside p target j → i = j
  /-- a job that relies on a block finds it there -/
  blocked : ∀ jid target, p.relies.lookup jid = some target → target ∈ p.manager.blocked

theorem flags_step {env : Service.Environment} {p q : State} {e : Event} (hf : FlagsKept p)
    (h : p.step env e = some q) : FlagsKept q := by
  intro task w' hw'
  rcases State.operations_step h with hsame | ⟨e', hstep, _⟩
  · exact hf task w' (hsame ▸ hw')
  · rcases System.worker_origin hstep hw' with hold | ⟨w, hw, hmoved⟩ | ⟨job, rfl, _⟩
    · exact hf task w' hold
    · exact (hmoved.keeps (hf task w hw)).1
    · exact Worker.spawned_flags job

theorem alone_step {env : Service.Environment} {p q : State} {e : Event} (hinv : BlockInv p)
    (hC : entersFreely p e = true) (h : p.step env e = some q) :
    ∀ target i j, Inside q target i → Inside q target j → i = j := by
  intro target i j hi hj
  have hfree : ∀ jid other, entering p e = some (target, jid) → Inside p target other →
      other = jid := by
    intro jid other henter hother
    simp only [entersFreely, henter, List.all_eq_true, beq_iff_eq] at hC
    exact hC other (mem_insiders_iff.mpr hother)
  rcases inside_origin hinv.flags h hi with hi | hi <;>
    rcases inside_origin hinv.flags h hj with hj | hj
  · exact hinv.alone target i j hi hj
  · exact hfree j i hj hi
  · exact (hfree i j hi hj).symm
  · have hpair := Option.some.inj (hi.symm.trans hj)
    exact (Prod.mk.inj hpair).2

/-- The blocks after a request was carried out. -/
theorem blocked_carryOut {env : Service.Environment} {p : State} {luck : Luck} {awaited : Bool}
    {l : Letter} (hinv : BlockInv p) (hl : ∀ target, l.resumes target = true → Inside p target l.job)
    {jid target : String}
    (hq : (p.carryOut env luck awaited l).1.relies.lookup jid = some target) :
    target ∈ (p.carryOut env luck awaited l).1.manager.blocked := by
  rw [State.carryOut_manager]
  rcases relies_after hq with ⟨hold, hresumed⟩ | ⟨_, _, body, r, hcall, hact, hnew, hreply⟩
  · have hin := hinv.blocked jid target hold
    cases hcall : l.call with
    | action aid body =>
      rcases @Manager.action_blocked p.data luck.fault _ aid _ body hin with hkept | ⟨rfl, hact, hok⟩
      · exact hkept
      · -- the resume was sent for the only job of the section, which no longer relies on the block
        have hres : l.resumes target = true := by simp [Letter.resumes, hcall, hact]
        have hok' : (p.perform env luck l.call).2 = .ok .accepted := by rw [hcall]; exact hok
        have hsame := hinv.alone target jid l.job (.relies jid hold) (hl target hres)
        exact absurd hsame (hresumed _ hok' hres)
    | applicationStatus aid =>
      simp only [State.askManager]
      rw [(Manager.applicationStatus_alike _ _).blocked]
      exact hin
    | _ => exact hin
  · rw [hcall] at hreply ⊢
    exact Manager.quiesce_blocks hact hnew hreply

theorem blocked_step {env : Service.Environment} {p q : State} {e : Event} (hinv : BlockInv p)
    (h : p.step env e = some q) :
    ∀ jid target, q.relies.lookup jid = some target → target ∈ q.manager.blocked := by
  intro jid target hq
  cases State.step_stepped h with
  | operated e sys _ _ =>
    obtain ⟨_, hmanager, _, hrelies, _⟩ := p.withdrawn_frame e
    simp only [hrelies, hmanager] at hq ⊢
    exact hinv.blocked jid target hq
  | executed c luck l hl _ _ =>
    exact blocked_carryOut hinv (fun _ hres => inside_of_letter hinv.flags hl hres) hq
  | answered c reply sys _ _ => exact hinv.blocked jid target hq
  | lost c raised l sys _ _ => exact hinv.blocked jid target hq
  | executedLate i luck l hl _ =>
    exact blocked_carryOut hinv (fun _ hres => .abandoned l (List.mem_of_getElem? hl) hres) hq
  | edited c s _ _ => exact hinv.blocked jid target hq
  | loaded aid fault =>
    simp only [State.load, (Manager.load_alike _ _).blocked]
    exact hinv.blocked jid target hq

theorem blockInv_initial (code data : String) : BlockInv (State.initial code data) where
  flags task w hw := by simp [State.initial, System.initial] at hw
  alone target i j hi := by
    cases hi with
    | worker task w hw _ _ => simp [State.initial, System.initial] at hw
    | reconciler task t ht _ _ => simp [State.initial, System.initial] at ht
    | abandoned l hl _ => simp [State.initial] at hl
    | relies _ hj => simp [State.initial] at hj
  blocked jid target hj := by simp [State.initial] at hj

/-- **A block that a job relies on stays**, in every state of every run in which a job enters the
section of a target only when no other job is in it. -/
theorem blocks_hold {env : Service.Environment} {code data : String} {es : List Event}
    (hC : (platform env).Along (fun p e => entersFreely p e = true) (State.initial code data) es) :
    (platform env).Throughout
      (fun p => ∀ jid target, p.relies.lookup jid = some target → target ∈ p.manager.blocked)
      (State.initial code data) es := by
  have hinv : (platform env).Throughout BlockInv (State.initial code data) es :=
    (platform env).throughout_of_along
      (fun p e q hp hC hstep => ⟨flags_step hp.flags hstep, alone_step hp hC hstep,
        blocked_step hp hstep⟩)
      (blockInv_initial code data) hC
  exact hinv.imp (platform env) fun p hp => hp.blocked

/-! ## §E The resume of a cancelled job -/

/-- Nothing happens outside the model. -/
def plainLuck : Luck := ⟨"", none, .ok .accepted⟩

/-- One request of a worker, carried out and answered. -/
def asked (task : Nat) : List Event := [.execute (.worker task) plainLuck, .answer (.worker task)]

/-- A job that archives agent `a` has quiesced it and is cancelled; its worker is about to send the
resume. -/
def cancelledJob : List Event :=
  [.operate (.submit "j1" "r1" .agentArchive "a" "a" (plainPayload "request-1") none),
    .operate (.work 0 false), .operate (.work 0 false)] ++ asked 0 ++
  [.operate (.cancel "j1"), .operate (.work 0 false), .operate (.work 0 false),
    .operate (.work 0 false)]

/-- A second job is admitted for `a` and quiesces it. -/
def successor : List Event :=
  [.operate (.submit "j2" "r2" .agentArchive "a" "a" (plainPayload "request-2") none),
    .operate (.work 1 false), .operate (.work 1 false)] ++ asked 1

/-- Does every job that relies on a block find it? -/
def State.held (p : State) : Bool := p.relies.all fun _ target => p.manager.blocked.contains target

/-- The resume of the cancelled job removes the block of its successor. -/
theorem block_removed_by_cancelled_job : ¬ ∀ (env : Service.Environment) (code data : String)
    (es : List Event) (q : State), (platform env).run (State.initial code data) es = some q →
    ∀ jid target, q.relies.lookup jid = some target → target ∈ q.manager.blocked := by
  intro hall
  have hbad : ((platform plainEnvironment).run (State.initial "" "")
      (cancelledJob ++ successor ++ asked 0)).all State.held = false := by decide
  obtain ⟨q, hrun, hq⟩ := (platform plainEnvironment).exists_run_of_all_eq_false hbad
  have hgood : q.held = true := by
    rw [State.held, Dict.all_eq_true]
    intro jid target hj
    exact List.contains_iff_mem.mpr (hall plainEnvironment "" "" _ q hrun jid target hj)
  rw [hgood] at hq
  exact absurd hq (by decide)

/-- The same two jobs when the resume arrives before the second job quiesces. -/
theorem blocks_hold_when_resumed :
    (platform plainEnvironment).Throughout
      (fun p => ∀ jid target, p.relies.lookup jid = some target → target ∈ p.manager.blocked)
      (State.initial "" "") (cancelledJob ++ asked 0 ++ successor) :=
  blocks_hold (by decide)

end OpencodeCloud.Platform
