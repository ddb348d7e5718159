/-
# OpencodeCloud.Platform.Tasks -- tasks and the answers that wait for them

What one step of the platform does to a worker together with the answer that waits for it
(`worker_cases`), and to a reconciliation (`reconciler_cases`). Only a task that awaits an answer has one
(`Orderly.awaited`), so a task that goes on by itself never finds an answer to an earlier request.
-/
import OpencodeCloud.Operations.Turns
import OpencodeCloud.Platform.Steps

namespace OpencodeCloud.Platform

open OpencodeCloud.Library OpencodeCloud.Catalog OpencodeCloud.Operations

/-! ## §A Requests on their way -/

/-- A request that is awaited, and who awaits it. -/
theorem letter_eq_some {p : State} {c : Caller} {l : Letter} (h : p.letter c = some l) :
    (∃ task w, c = .worker task ∧ p.operations.workers.lookup task = some w ∧
      w.call = some l.call ∧ l.job = w.job.id ∧ l.purpose = workerPurpose w) ∨
    ∃ task t, c = .reconciler task ∧ p.operations.reconcilers.lookup task = some t ∧
      t.call = some l.call ∧ l.job = t.job.id ∧ l.purpose = .reconciliation := by
  cases c with
  | worker task =>
    obtain ⟨w, hw, hl⟩ := Option.bind_eq_some_iff.mp h
    obtain ⟨call, hcall, rfl⟩ := Option.map_eq_some_iff.mp hl
    exact Or.inl ⟨task, w, rfl, hw, hcall, rfl, rfl⟩
  | reconciler task =>
    obtain ⟨t, ht, hl⟩ := Option.bind_eq_some_iff.mp h
    obtain ⟨call, hcall, rfl⟩ := Option.map_eq_some_iff.mp hl
    exact Or.inr ⟨task, t, rfl, ht, hcall, rfl, rfl⟩

theorem mem_withdraw {p : State} {c : Caller} {l : Letter} (h : l ∈ (p.withdraw c).abandoned) :
    l ∈ p.abandoned ∨ p.letter c = some l := by
  simp only [State.withdraw] at h
  split at h
  · exact Or.inl h
  · rcases List.mem_append.mp h with hnew | hold
    · exact Or.inr (Option.mem_toList.mp hnew)
    · exact Or.inl hold

/-- What is abandoned by a restart was awaited. -/
theorem mem_inFlight {p : State} {l : Letter} (h : l ∈ p.inFlight) : ∃ c, p.letter c = some l := by
  simp only [State.inFlight, List.mem_append, Dict.mem_collect] at h
  rcases h with ⟨task, w, hw, hl⟩ | ⟨task, t, ht, hl⟩
  · split at hl
    · exact absurd hl (by simp)
    · exact ⟨.worker task, by simp [State.letter, hw, hl]⟩
  · split at hl
    · exact absurd hl (by simp)
    · exact ⟨.reconciler task, by simp [State.letter, ht, hl]⟩

/-- Where an abandoned request comes from: it was abandoned before, or a caller awaited it. -/
theorem abandoned_origin {env : Service.Environment} {p q : State} {e : Event}
    (h : p.step env e = some q) {l : Letter} (hl : l ∈ q.abandoned) :
    l ∈ p.abandoned ∨ ∃ c, p.letter c = some l := by
  cases State.step_stepped h with
  | operated e sys _ _ =>
    simp only [State.withdrawn] at hl
    split at hl
    · exact (mem_withdraw hl).imp_right fun h => ⟨_, h⟩
    · rcases List.mem_append.mp hl with hnew | hold
      · exact Or.inr (mem_inFlight hnew)
      · exact Or.inl hold
    · exact Or.inl hl
  | executed c luck l' _ _ _ => exact Or.inl (by simpa using hl)
  | answered c reply sys _ _ => exact Or.inl hl
  | lost c raised l' sys _ _ => exact (mem_withdraw hl).imp_right fun h => ⟨_, h⟩
  | executedLate i luck l' _ _ => exact Or.inl (List.mem_of_mem_eraseIdx hl)
  | edited c s _ _ => exact Or.inl hl
  | loaded aid fault => exact Or.inl hl

/-- An answer is not a write. -/
theorem takes_ne_work {c : Caller} {reply : Reply} {task : Nat} {raises : Bool} :
    c.takes reply ≠ .work task raises := by
  cases c <;> simp [Caller.takes]

theorem takes_ne_reconcile {c : Caller} {reply : Reply} {jid requestId : String} :
    c.takes reply ≠ .reconcile jid requestId := by
  cases c <;> simp [Caller.takes]

/-! ## §B Order -/

/-- What every state keeps about the tasks of operations. -/
structure Orderly (p : State) : Prop where
  numbered : p.operations.Numbered
  firstRun : FirstRun p.operations
  phases : ∀ task w, p.operations.workers.lookup task = some w → w.Phases
  /-- who has an answer awaits one -/
  awaited : ∀ c reply, p.answers.lookup c = some reply → ∃ l, p.letter c = some l

namespace Orderly

variable {env : Service.Environment} {p q : State} {e : Event}

/-- A caller that awaits an answer goes on awaiting it, unless the step is about this caller. -/
theorem letter_kept (h : Orderly p) {e' : Operations.Event} {sys : Operations.System}
    (hstep : p.operations.step e' = some sys) (hrunning : e' ≠ .restart) {c : Caller} {l : Letter}
    (hl : p.letter c = some l)
    (hother : match c with
      | .worker task => (∀ reply, e' ≠ .reply task reply) ∧ e' ≠ .stop task
      | .reconciler task => ∀ reply, e' ≠ .reconcileReply task reply) :
    State.letter { p with operations := sys } c = some l := by
  cases c with
  | worker task =>
    obtain ⟨w, hw, hletter⟩ := Option.bind_eq_some_iff.mp hl
    obtain ⟨call, hcall, _⟩ := Option.map_eq_some_iff.mp hletter
    rcases System.worker_kept h.numbered hstep hrunning hw with hkept | ⟨w', hmoved⟩
    · simp [State.letter, hkept, hletter]
    · generalize sys.store = s' at hmoved
      cases hmoved with
      | work raises hidle _ =>
        rw [hidle] at hcall
        exact absurd hcall (by simp)
      | reply reply _ => exact absurd rfl (hother.1 reply)
      | stop _ => exact absurd rfl hother.2
  | reconciler task =>
    obtain ⟨t, ht, hletter⟩ := Option.bind_eq_some_iff.mp hl
    obtain ⟨call, hcall, _⟩ := Option.map_eq_some_iff.mp hletter
    rcases System.reconciler_kept h.numbered hstep hrunning ht with hkept | ⟨t', hmoved⟩
    · simp [State.letter, hkept, hletter]
    · generalize sys.store = s' at hmoved
      cases hmoved with
      | work raises hidle _ =>
        rw [hidle] at hcall
        exact absurd hcall (by simp)
      | reply reply _ => exact absurd rfl (hother reply)

/-- A caller that takes no answer in a step goes on awaiting it. -/
theorem letter_other (h : Orderly p) {c c' : Caller} (hne : c' ≠ c) {reply : Reply}
    {sys : Operations.System} (hstep : p.operations.step (c.takes reply) = some sys) {l : Letter}
    (hl : p.letter c' = some l) : State.letter { p with operations := sys } c' = some l := by
  refine h.letter_kept hstep (by cases c <;> simp [Caller.takes]) hl ?_
  cases c' with
  | worker task =>
    refine ⟨fun reply' heq => hne ?_, by cases c <;> simp [Caller.takes]⟩
    cases c <;> simp_all [Caller.takes]
  | reconciler task =>
    refine fun reply' heq => hne ?_
    cases c <;> simp_all [Caller.takes]

theorem awaited_step (h : Orderly p) (hstep : p.step env e = some q) :
    ∀ c reply, q.answers.lookup c = some reply → ∃ l, q.letter c = some l := by
  intro c reply hreply
  cases State.step_stepped hstep with
  | operated e' sys hi hs =>
    cases e' with
    | restart => simp [State.withdrawn, State.withdrawAll] at hreply
    | stop task =>
      obtain ⟨hne, hold⟩ := Dict.lookup_erase_cases hreply
      obtain ⟨l, hl⟩ := h.awaited c reply hold
      refine ⟨l, h.letter_kept hs (by simp) hl ?_⟩
      cases c with
      | worker task' => exact ⟨by simp, fun heq => hne (by cases heq; rfl)⟩
      | reconciler task' => simp
    | reply _ _ | reconcileReply _ _ => exact absurd hi Bool.false_ne_true
    | _ =>
      obtain ⟨l, hl⟩ := h.awaited c reply hreply
      refine ⟨l, h.letter_kept hs (by simp) hl ?_⟩
      cases c <;> simp
  | executed c' luck l' hl' _ _ =>
    rcases Dict.lookup_insert_cases hreply with ⟨rfl, _⟩ | ⟨_, hold⟩
    · exact ⟨l', by cases c <;> simpa [State.letter] using hl'⟩
    · obtain ⟨l, hl⟩ := h.awaited c reply hold
      exact ⟨l, by cases c <;> simpa [State.letter] using hl⟩
  | answered c' reply' sys _ hs =>
    obtain ⟨hne, hold⟩ := Dict.lookup_erase_cases hreply
    obtain ⟨l, hl⟩ := h.awaited c reply hold
    exact ⟨l, h.letter_other hne hs hl⟩
  | lost c' raised l' sys _ hs =>
    obtain ⟨hne, hold⟩ := Dict.lookup_erase_cases hreply
    obtain ⟨l, hl⟩ := h.awaited c reply hold
    exact ⟨l, h.letter_other hne hs hl⟩
  | executedLate i luck l' _ _ =>
    obtain ⟨l, hl⟩ := h.awaited c reply (by simpa using hreply)
    exact ⟨l, by cases c <;> simpa [State.letter] using hl⟩
  | edited c' s _ _ => exact h.awaited c reply hreply
  | loaded aid fault => exact h.awaited c reply hreply

theorem phases_step (h : Orderly p) (hstep : p.step env e = some q) :
    ∀ task w, q.operations.workers.lookup task = some w → w.Phases := by
  intro task w' hw'
  rcases State.operations_step hstep with hsame | ⟨e', hs, _⟩
  · exact h.phases task w' (hsame ▸ hw')
  · rcases System.worker_origin hs hw' with hold | ⟨w, hw, hmoved⟩ | ⟨job, rfl, _⟩
    · exact h.phases task w' hold
    · rcases hmoved.turn with ⟨_, _, hturn⟩ | ⟨_, hturn⟩
      · exact hturn.phases (h.phases task w hw)
      · exact hturn.phases (h.phases task w hw)
    · exact Worker.spawned_phases job

/-- **Every step keeps the order.** -/
theorem step (h : Orderly p) (hstep : p.step env e = some q) : Orderly q := by
  refine ⟨?_, ?_, h.phases_step hstep, h.awaited_step hstep⟩
  · rcases State.operations_step hstep with hsame | ⟨e', hs, _⟩
    · exact hsame ▸ h.numbered
    · exact h.numbered.step hs
  · rcases State.operations_step hstep with hsame | ⟨e', hs, _⟩
    · exact hsame ▸ h.firstRun
    · exact h.firstRun.step hs

theorem initial (code data : String) : Orderly (State.initial code data) where
  numbered := ⟨fun task w hw => by simp [State.initial, System.initial] at hw,
    fun task t ht => by simp [State.initial, System.initial] at ht⟩
  firstRun := FirstRun.initial
  phases task w hw := by simp [State.initial, System.initial] at hw
  awaited c reply hreply := by simp [State.initial] at hreply

end Orderly

/-! ## §C Where tasks come from -/

/-- What a step of the platform does to a worker and to the answer that waits for it. -/
inductive WorkerStep (env : Service.Environment) (p q : State) (task : Nat) (w' : Worker) :
    Event → Prop
  | kept (e : Event) (found : p.operations.workers.lookup task = some w')
      (answer : q.answers.lookup (.worker task) = p.answers.lookup (.worker task)) :
    WorkerStep env p q task w' e
  /-- the request of the worker is carried out -/
  | executed (luck : Luck) (call : Call) (found : p.operations.workers.lookup task = some w')
      (awaits : w'.call = some call) (waiting : p.answers.lookup (.worker task) = none)
      (new : p.newId luck call = true)
      (catalog : q.catalog = State.askCatalog env p.catalog luck.fresh call)
      (answer : q.answers.lookup (.worker task) = some (p.perform env luck call).2) :
    WorkerStep env p q task w' (.execute (.worker task) luck)
  | worked (w : Worker) (raises : Bool) (found : p.operations.workers.lookup task = some w)
      (idle : w.call = none) (next : w' = (w.work p.operations.store raises).2)
      (store : q.operations.store = (w.work p.operations.store raises).1)
      (answer : q.answers.lookup (.worker task) = none) :
    WorkerStep env p q task w' (.operate (.work task raises))
  | answered (w : Worker) (reply : Reply) (found : p.operations.workers.lookup task = some w)
      (stored : p.answers.lookup (.worker task) = some reply) (next : w' = w.receive reply)
      (answer : q.answers.lookup (.worker task) = none) :
    WorkerStep env p q task w' (.answer (.worker task))
  | lost (w : Worker) (raised : Bool) (call : Call)
      (found : p.operations.workers.lookup task = some w) (awaits : w.call = some call)
      (next : w' = w.receive (State.failure raised call))
      (answer : q.answers.lookup (.worker task) = none) :
    WorkerStep env p q task w' (.lose (.worker task) raised)
  | stopped (w : Worker) (found : p.operations.workers.lookup task = some w)
      (awaits : w.call.isSome = true) (next : w' = w.raise .cancelled)
      (answer : q.answers.lookup (.worker task) = none) :
    WorkerStep env p q task w' (.operate (.stop task))
  | spawned (job : Job) (e : Event) (next : w' = Worker.spawned job)
      (answer : q.answers.lookup (.worker task) = none) : WorkerStep env p q task w' e

/-- What a step of the platform does to a reconciliation and to the answer that waits for it. -/
inductive ReconcilerStep (env : Service.Environment) (p q : State) (task : Nat) (t' : Reconciler) :
    Event → Prop
  | kept (e : Event) (found : p.operations.reconcilers.lookup task = some t')
      (answer : q.answers.lookup (.reconciler task) = p.answers.lookup (.reconciler task)) :
    ReconcilerStep env p q task t' e
  /-- the request of the reconciliation is carried out -/
  | executed (luck : Luck) (call : Call) (found : p.operations.reconcilers.lookup task = some t')
      (awaits : t'.call = some call) (waiting : p.answers.lookup (.reconciler task) = none)
      (catalog : q.catalog = State.askCatalog env p.catalog luck.fresh call)
      (answer : q.answers.lookup (.reconciler task) = some (p.perform env luck call).2) :
    ReconcilerStep env p q task t' (.execute (.reconciler task) luck)
  | worked (t : Reconciler) (raises : Bool) (found : p.operations.reconcilers.lookup task = some t)
      (idle : t.call = none) (next : t' = (t.work p.operations.store raises).2)
      (answer : q.answers.lookup (.reconciler task) = none) :
    ReconcilerStep env p q task t' (.operate (.reconcileWork task raises))
  | answered (t : Reconciler) (reply : Reply) (found : p.operations.reconcilers.lookup task = some t)
      (stored : p.answers.lookup (.reconciler task) = some reply) (next : t' = t.receive reply)
      (answer : q.answers.lookup (.reconciler task) = none) :
    ReconcilerStep env p q task t' (.answer (.reconciler task))
  | lost (t : Reconciler) (raised : Bool) (call : Call)
      (found : p.operations.reconcilers.lookup task = some t)
      (next : t' = t.receive (State.failure raised call))
      (answer : q.answers.lookup (.reconciler task) = none) :
    ReconcilerStep env p q task t' (.lose (.reconciler task) raised)
  | began (jid requestId : String)
      (begins : Reconciler.begin p.operations.store jid requestId = .ok (some t'))
      (answer : q.answers.lookup (.reconciler task) = none) :
    ReconcilerStep env p q task t' (.operate (.reconcile jid requestId))

namespace Orderly

variable {env : Service.Environment} {p q : State} {e : Event}

/-- A task that awaits nothing has no answer. -/
theorem no_answer (h : Orderly p) {c : Caller} (hidle : p.letter c = none) :
    p.answers.lookup c = none := by
  by_contra hsome
  obtain ⟨reply, hreply⟩ := Option.ne_none_iff_exists'.mp hsome
  obtain ⟨l, hl⟩ := h.awaited c reply hreply
  rw [hidle] at hl
  exact absurd hl (by simp)

/-- Nobody awaits an answer under the number of the next task. -/
theorem no_answer_next (h : Orderly p) :
    p.answers.lookup (.worker p.operations.nextTask) = none ∧
      p.answers.lookup (.reconciler p.operations.nextTask) = none := by
  refine ⟨h.no_answer ?_, h.no_answer ?_⟩
  · cases hw : p.operations.workers.lookup p.operations.nextTask with
    | none => simp [State.letter, hw]
    | some w => exact absurd (h.numbered.workers _ w hw) (Nat.lt_irrefl _)
  · cases ht : p.operations.reconcilers.lookup p.operations.nextTask with
    | none => simp [State.letter, ht]
    | some t => exact absurd (h.numbered.reconcilers _ t ht) (Nat.lt_irrefl _)

/-- The answers after a step of operations of its own. -/
theorem withdrawn_answers {e' : Operations.Event} {c : Caller} (hrunning : e' ≠ .restart)
    (hstop : ∀ task, e' = .stop task → c ≠ .worker task) :
    (p.withdrawn e').answers.lookup c = p.answers.lookup c := by
  unfold State.withdrawn
  split
  · next task => exact AList.lookup_erase_ne (hstop task rfl)
  · exact absurd rfl hrunning
  · rfl

/-- **A worker after a step of the platform.** -/
theorem worker_cases (h : Orderly p) (hstep : p.step env e = some q) {task : Nat} {w' : Worker}
    (hw' : q.operations.workers.lookup task = some w') : WorkerStep env p q task w' e := by
  cases State.step_stepped hstep with
  | operated e' sys hi hs =>
    rcases System.worker_cases hs hw' with ⟨w, hw, hmoved⟩ | ⟨hmoves, hrunning, hold⟩ |
      ⟨job, rfl, hnew⟩
    · generalize hstore : sys.store = s' at hmoved
      cases hmoved with
      | work raises hidle _ =>
        exact .worked w raises hw hidle rfl hstore (h.no_answer (by simp [State.letter, hw, workerLetter, hidle]))
      | reply reply _ => exact absurd hi Bool.false_ne_true
      | stop hcall => exact .stopped w hw hcall rfl (AList.lookup_erase _ _)
    · refine .kept _ hold (withdrawn_answers hrunning ?_)
      rintro task' rfl heq
      obtain rfl := Caller.worker.inj heq
      exact hmoves rfl
    · refine .spawned job _ rfl ?_
      rcases hnew with rfl | rfl
      · by_cases hrunning : e' = .restart
        · subst hrunning
          rfl
        · by_cases hstop : e' = .stop p.operations.nextTask
          · subst hstop
            exact AList.lookup_erase _ _
          · rw [show State.answers { p.withdrawn e' with operations := sys } =
              (p.withdrawn e').answers from rfl, withdrawn_answers hrunning]
            · exact h.no_answer_next.1
            · rintro task' rfl heq
              exact hstop (by rw [Caller.worker.inj heq])
      · rfl
  | executed c luck l hl hopen hnew =>
    have hold : p.operations.workers.lookup task = some w' := by simpa using hw'
    by_cases hc : c = .worker task
    · subst hc
      obtain ⟨w, hw, hletter⟩ := Option.bind_eq_some_iff.mp hl
      obtain rfl := Option.some.inj (hold.symm.trans hw)
      obtain ⟨call, hcall, rfl⟩ := Option.map_eq_some_iff.mp hletter
      exact .executed luck call hold hcall hopen hnew (by simp) (AList.lookup_insert _)
    · refine .kept _ hold ?_
      exact AList.lookup_insert_ne fun heq => hc heq.symm
  | answered c reply sys hreply hs =>
    by_cases hc : c = .worker task
    · subst hc
      obtain ⟨w, hw, hcall, rfl⟩ := System.reply_eq_some.mp hs
      have hself : w' = w.receive reply :=
        Option.some.inj (hw'.symm.trans (AList.lookup_insert _))
      exact .answered w reply hw hreply hself (AList.lookup_erase _ _)
    · rcases System.worker_cases hs hw' with ⟨w, hw, hmoved⟩ | ⟨_, _, hold⟩ | ⟨job, rfl, hnew⟩
      · refine absurd ?_ hc
        generalize sys.store = s', hevent : c.takes reply = e' at hmoved
        cases c <;> cases hmoved <;> simp_all [Caller.takes]
      · exact .kept _ hold (AList.lookup_erase_ne (Ne.symm hc))
      · refine .spawned job _ rfl ?_
        rcases hnew with rfl | hrestart
        · exact (AList.lookup_erase_ne (Ne.symm hc)).trans h.no_answer_next.1
        · exact absurd hrestart (by cases c <;> simp [Caller.takes])
  | lost c raised l sys hl hs =>
    by_cases hc : c = .worker task
    · subst hc
      obtain ⟨w, hw, hcall, rfl⟩ := System.reply_eq_some.mp hs
      obtain ⟨w₀, hw₀, hletter⟩ := Option.bind_eq_some_iff.mp hl
      obtain rfl := Option.some.inj (hw.symm.trans hw₀)
      obtain ⟨call, hcall', rfl⟩ := Option.map_eq_some_iff.mp hletter
      have hself : w' = w.receive (State.failure raised call) :=
        Option.some.inj (hw'.symm.trans (AList.lookup_insert _))
      exact .lost w raised call hw hcall' hself (AList.lookup_erase _ _)
    · rcases System.worker_cases hs hw' with ⟨w, hw, hmoved⟩ | ⟨_, _, hold⟩ | ⟨job, rfl, hnew⟩
      · refine absurd ?_ hc
        generalize sys.store = s', hevent : c.takes _ = e' at hmoved
        cases c <;> cases hmoved <;> simp_all [Caller.takes]
      · exact .kept _ hold (AList.lookup_erase_ne (Ne.symm hc))
      · refine .spawned job _ rfl ?_
        rcases hnew with rfl | hrestart
        · exact (AList.lookup_erase_ne (Ne.symm hc)).trans h.no_answer_next.1
        · exact absurd hrestart (by cases c <;> simp [Caller.takes])
  | executedLate i luck l _ _ => exact .kept _ (by simpa using hw') (by simp)
  | edited c s _ _ => exact .kept _ hw' rfl
  | loaded aid fault => exact .kept _ hw' rfl

/-- **A reconciliation after a step of the platform.** -/
theorem reconciler_cases (h : Orderly p) (hstep : p.step env e = some q) {task : Nat}
    {t' : Reconciler} (ht' : q.operations.reconcilers.lookup task = some t') :
    ReconcilerStep env p q task t' e := by
  cases State.step_stepped hstep with
  | operated e' sys hi hs =>
    rcases System.reconciler_cases hs ht' with ⟨t, ht, hmoved⟩ | ⟨hmoves, hrunning, hold⟩ |
      ⟨jid, requestId, rfl, rfl, hbegin⟩
    · generalize hstore : sys.store = s' at hmoved
      cases hmoved with
      | work raises hidle _ =>
        exact .worked t raises ht hidle rfl
          (h.no_answer (by simp [State.letter, ht, reconcilerLetter, hidle]))
      | reply reply _ => exact absurd hi Bool.false_ne_true
    · refine .kept _ hold (withdrawn_answers hrunning ?_)
      rintro task' rfl heq
      exact nomatch heq
    · exact .began jid requestId hbegin h.no_answer_next.2
  | executed c luck l hl hopen hnew =>
    have hold : p.operations.reconcilers.lookup task = some t' := by simpa using ht'
    by_cases hc : c = .reconciler task
    · subst hc
      obtain ⟨t, ht, hletter⟩ := Option.bind_eq_some_iff.mp hl
      obtain rfl := Option.some.inj (hold.symm.trans ht)
      obtain ⟨call, hcall, rfl⟩ := Option.map_eq_some_iff.mp hletter
      exact .executed luck call hold hcall hopen (by simp) (AList.lookup_insert _)
    · refine .kept _ hold ?_
      exact AList.lookup_insert_ne fun heq => hc heq.symm
  | answered c reply sys hreply hs =>
    by_cases hc : c = .reconciler task
    · subst hc
      obtain ⟨t, ht, hcall, rfl⟩ := System.reconcileReply_eq_some.mp hs
      have hself : t' = t.receive reply :=
        Option.some.inj (ht'.symm.trans (AList.lookup_insert _))
      exact .answered t reply ht hreply hself (AList.lookup_erase _ _)
    · rcases System.reconciler_cases hs ht' with ⟨t, ht, hmoved⟩ | ⟨_, _, hold⟩ | ⟨_, _, hevent, _⟩
      · refine absurd ?_ hc
        generalize sys.store = s', hevent : c.takes reply = e' at hmoved
        cases c <;> cases hmoved <;> simp_all [Caller.takes]
      · exact .kept _ hold (AList.lookup_erase_ne (Ne.symm hc))
      · exact absurd hevent takes_ne_reconcile
  | lost c raised l sys hl hs =>
    by_cases hc : c = .reconciler task
    · subst hc
      obtain ⟨t, ht, hcall, rfl⟩ := System.reconcileReply_eq_some.mp hs
      have hself : t' = t.receive (State.failure raised l.call) :=
        Option.some.inj (ht'.symm.trans (AList.lookup_insert _))
      exact .lost t raised l.call ht hself (AList.lookup_erase _ _)
    · rcases System.reconciler_cases hs ht' with ⟨t, ht, hmoved⟩ | ⟨_, _, hold⟩ | ⟨_, _, hevent, _⟩
      · refine absurd ?_ hc
        generalize sys.store = s', hevent : c.takes _ = e' at hmoved
        cases c <;> cases hmoved <;> simp_all [Caller.takes]
      · exact .kept _ hold (AList.lookup_erase_ne (Ne.symm hc))
      · exact absurd hevent takes_ne_reconcile
  | executedLate i luck l _ _ => exact .kept _ (by simpa using ht') (by simp)
  | edited c s _ _ => exact .kept _ ht' rfl
  | loaded aid fault => exact .kept _ ht' rfl

end Orderly

end OpencodeCloud.Platform
