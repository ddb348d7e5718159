/-
# OpencodeCloud.Sandbox.Steps -- what one step of the sandbox manager can do

The invariants of the manager are about few things each: the containers, the locks, the acquisitions, the
counters. Here is, once for each of these, everything that a step can do to it. A container of the new
state was there before or is created by the call that the step carries out (`docker_step`); a lock is
taken only when it is free (`holds_advance`); an acquisition begins at its first await or goes on as
`Acquisition.next` says (`acquisition_advance`).
-/
import OpencodeCloud.Sandbox.Lifecycle

namespace OpencodeCloud.Sandbox.Backend

open OpencodeCloud.Library World

/-! ## Effects leave the rest alone -/

namespace State

@[simp] theorem applyAll_nil (s : State) : s.applyAll [] = s := rfl

@[simp] theorem applyAll_cons (s : State) (e : Effect) (es : List Effect) :
    s.applyAll (e :: es) = (s.apply e).applyAll es := rfl

theorem docker_apply (s : State) (e : Effect) : (s.apply e).world.docker = s.world.docker := by
  cases e with
  | mark o status =>
    simp only [apply, perform]
    split <;> rfl
  | destroyed o imageVersion =>
    simp only [apply, perform]
    split <;> rfl
  | _ => rfl

theorem created_apply (s : State) (e : Effect) : (s.apply e).world.created = s.world.created := by
  cases e with
  | mark o status =>
    simp only [apply, perform]
    split <;> rfl
  | destroyed o imageVersion =>
    simp only [apply, perform]
    split <;> rfl
  | _ => rfl

theorem late_apply (s : State) (e : Effect) : (s.apply e).late = s.late := by cases e <;> rfl

/-- What no effect changes, all effects of a step leave alone. -/
theorem applyAll_frame {α : Type} (f : State → α) (h : ∀ s e, f (s.apply e) = f s) (s : State)
    (es : List Effect) : f (s.applyAll es) = f s := by
  induction es generalizing s with
  | nil => rfl
  | cons e es ih => rw [applyAll_cons, ih, h]

/-- What an effect changes for some effects only. -/
theorem applyAll_frame_of {α : Type} (f : State → α) {es : List Effect}
    (h : ∀ e ∈ es, ∀ s, f (s.apply e) = f s) (s : State) : f (s.applyAll es) = f s := by
  induction es generalizing s with
  | nil => rfl
  | cons e es ih =>
    rw [applyAll_cons, ih (fun e' he' => h e' (List.mem_cons_of_mem _ he')),
      h e List.mem_cons_self]

/-! ## Steps -/

/-- A step of one task. -/
theorem step_task {s s' : State} {i : Nat} {x : Outcome} (h : s.step (.step i x) = some s') :
    ∃ t t' es, s.tasks[i]? = some t ∧ t.advance s x = some (t', es) ∧
      (x.answers = true → ∀ c, t.call = some c → s.world.accepts c = true) ∧
      s' = { (s.conclude t.call x).applyAll es with tasks := s.tasks.set i t' } := by
  simp only [step, Option.bind_eq_bind, Option.bind_eq_some_iff] at h
  obtain ⟨t, ht, h⟩ := h
  split at h
  · cases h
  next hguard =>
    simp only [Option.bind_eq_some_iff, Option.pure_def] at h
    obtain ⟨⟨t', es⟩, hadvance, h⟩ := h
    refine ⟨t, t', es, ht, hadvance, fun hx c hc => ?_, (Option.some.inj h).symm⟩
    by_contra hrefused
    rw [Bool.not_eq_true] at hrefused
    exact hguard (by simp [hx, hc, hrefused])

/-- The call that a step carries out. -/
def performs (s : State) : Event → Option Call
  | .step i x => if x.answers then (s.tasks[i]?).bind Task.call else none
  | .late k => s.late[k]?
  | _ => none

theorem world_conclude (s : State) (call : Option Call) (x : Outcome) :
    (s.conclude call x).world = if x.answers then call.elim s.world s.world.perform else s.world := by
  unfold conclude
  split <;> rfl

/-- **A container after a step** was there before, up to its state, or is created by the step. -/
theorem docker_step {s s' : State} {e : Event} (h : s.step e = some s') {o : Owner} {c : Container}
    (hc : s'.world.docker.lookup o = some c) :
    (∃ c', s.world.docker.lookup o = some c' ∧ c = { c' with status := c.status }) ∨
      ∃ d t, s.performs e = some (.create o d t) ∧ s.world.docker.lookup o = none ∧
        c = s.world.newContainer d t := by
  cases e with
  | step i x =>
    obtain ⟨t, t', es, ht, -, -, rfl⟩ := step_task h
    simp only [applyAll_frame (fun s => s.world.docker) docker_apply, world_conclude] at hc
    split at hc
    next hx =>
      cases hcall : t.call with
      | none =>
        simp only [hcall, Option.elim_none] at hc
        exact .inl ⟨c, hc, rfl⟩
      | some call =>
        simp only [hcall, Option.elim_some] at hc
        rcases docker_perform hc with hold | ⟨d, l, rfl, hnone, rfl⟩
        · exact .inl hold
        · exact .inr ⟨d, l, by simp [performs, hx, ht, hcall], hnone, rfl⟩
    next => exact .inl ⟨c, hc, rfl⟩
  | late k =>
    simp only [step, Option.bind_eq_bind, Option.bind_eq_some_iff, Option.pure_def] at h
    obtain ⟨call, hcall, h⟩ := h
    obtain rfl := Option.some.inj h
    rcases docker_perform hc with hold | ⟨d, l, rfl, hnone, rfl⟩
    · exact .inl hold
    · exact .inr ⟨d, l, hcall, hnone, rfl⟩
  | container o' status =>
    obtain rfl := Option.some.inj h
    rcases Dict.lookup_modify_cases hc with ⟨rfl, c', hc', rfl⟩ | ⟨-, hold⟩
    · exact .inl ⟨c', hc', rfl⟩
    · exact .inl ⟨c, hold, rfl⟩
  | agentAction q =>
    simp only [step] at h
    split at h
    · obtain rfl := Option.some.inj h
      exact .inl ⟨c, hc, rfl⟩
    · cases h
  | request o' kind | sandboxAction o' name force | cleanup o' run | publish a d | sessions o' ids
  | statuses o' directory group =>
    obtain rfl := Option.some.inj h
    exact .inl ⟨c, hc, rfl⟩

/-- **A container that runs after a step** ran before, or is started by the step, or by itself. -/
theorem running_step {s s' : State} {e : Event} (h : s.step e = some s') {o : Owner} {c : Container}
    (hc : s'.world.docker.lookup o = some c) (hrunning : c.status = .running) :
    (∃ c', s.world.docker.lookup o = some c' ∧ c'.status = .running) ∨
      (∃ id, s.performs e = some (.start o id)) ∨ e = .container o .running := by
  cases e with
  | step i x =>
    obtain ⟨t, t', es, ht, -, -, rfl⟩ := step_task h
    simp only [applyAll_frame (fun s => s.world.docker) docker_apply, world_conclude] at hc
    split at hc
    next hx =>
      cases hcall : t.call with
      | none =>
        simp only [hcall, Option.elim_none] at hc
        exact .inl ⟨c, hc, hrunning⟩
      | some call =>
        simp only [hcall, Option.elim_some] at hc
        rcases running_perform hc hrunning with hold | ⟨id, rfl⟩
        · exact .inl hold
        · exact .inr (.inl ⟨id, by simp [performs, hx, ht, hcall]⟩)
    next => exact .inl ⟨c, hc, hrunning⟩
  | late k =>
    simp only [step, Option.bind_eq_bind, Option.bind_eq_some_iff, Option.pure_def] at h
    obtain ⟨call, hcall, h⟩ := h
    obtain rfl := Option.some.inj h
    rcases running_perform hc hrunning with hold | ⟨id, rfl⟩
    · exact .inl hold
    · exact .inr (.inl ⟨id, hcall⟩)
  | container o' status =>
    obtain rfl := Option.some.inj h
    rcases Dict.lookup_modify_cases hc with ⟨rfl, c', hc', rfl⟩ | ⟨-, hold⟩
    · exact .inr (.inr (by rw [← hrunning]))
    · exact .inl ⟨c, hold, hrunning⟩
  | agentAction q =>
    simp only [step] at h
    split at h
    · obtain rfl := Option.some.inj h
      exact .inl ⟨c, hc, hrunning⟩
    · cases h
  | request o' kind | sandboxAction o' name force | cleanup o' run | publish a d | sessions o' ids
  | statuses o' directory group =>
    obtain rfl := Option.some.inj h
    exact .inl ⟨c, hc, hrunning⟩

end State

/-- A task that has just arrived. -/
inductive Task.Arrives : Task → Prop
  | request (o kind) : Arrives (.request o kind .authorize)
  | sandbox (o name force) : Arrives (.sandbox o name force .lock)
  | agent (q) : State.allowed q = true → Arrives (.agent q .lock)
  | cleanup (o run) : Arrives (.cleanup o run .lock)

/-- **A task after a step** is as it was, has just arrived, or took the step. -/
theorem State.tasks_step {s s' : State} {e : Event} (h : s.step e = some s') {j : Nat} {t' : Task}
    (ht' : s'.tasks[j]? = some t') :
    s.tasks[j]? = some t' ∨ (s.tasks[j]? = none ∧ t'.Arrives) ∨
      ∃ x t es, e = .step j x ∧ s.tasks[j]? = some t ∧ t.advance s x = some (t', es) ∧
        s' = { (s.conclude t.call x).applyAll es with tasks := s.tasks.set j t' } := by
  have happend : ∀ t : Task, t.Arrives → (s.tasks ++ [t])[j]? = some t' →
      s.tasks[j]? = some t' ∨ (s.tasks[j]? = none ∧ t'.Arrives) := by
    intro t ht hj
    rcases Nat.lt_trichotomy j s.tasks.length with hlt | rfl | hgt
    · exact .inl (by rwa [List.getElem?_append_left hlt] at hj)
    · simp only [List.getElem?_append_right, le_refl, Nat.sub_self, List.getElem?_cons_zero,
        Option.some.injEq] at hj
      exact .inr ⟨by simp, hj ▸ ht⟩
    · rw [List.getElem?_eq_none (by simp; omega)] at hj
      cases hj
  cases e with
  | step i x =>
    obtain ⟨t, u, es, ht, hadvance, -, rfl⟩ := step_task h
    by_cases hij : i = j
    · subst hij
      rw [List.getElem?_set_self (List.getElem?_eq_some_iff.mp ht).1] at ht'
      obtain rfl := Option.some.inj ht'
      exact .inr (.inr ⟨x, t, es, rfl, ht, hadvance, rfl⟩)
    · rw [List.getElem?_set_ne hij] at ht'
      exact .inl ht'
  | late k =>
    simp only [step, Option.bind_eq_bind, Option.bind_eq_some_iff, Option.pure_def] at h
    obtain ⟨call, -, h⟩ := h
    obtain rfl := Option.some.inj h
    exact .inl ht'
  | agentAction q =>
    simp only [step] at h
    split at h
    next hallowed =>
      obtain rfl := Option.some.inj h
      exact (happend _ (.agent q hallowed) ht').imp_right .inl
    next => cases h
  | request o kind =>
    obtain rfl := Option.some.inj h
    exact (happend _ (.request o kind) ht').imp_right .inl
  | sandboxAction o name force =>
    obtain rfl := Option.some.inj h
    exact (happend _ (.sandbox o name force) ht').imp_right .inl
  | cleanup o run =>
    obtain rfl := Option.some.inj h
    exact (happend _ (.cleanup o run) ht').imp_right .inl
  | publish a d | container o status | sessions o ids | statuses o directory group =>
    obtain rfl := Option.some.inj h
    exact .inl ht'

/-- A task stays as it is, or takes the step. -/
theorem State.task_kept {s s' : State} {e : Event} (h : s.step e = some s') {j : Nat} {t : Task}
    (ht : s.tasks[j]? = some t) :
    s'.tasks[j]? = some t ∨ ∃ x t' es, e = .step j x ∧ t.advance s x = some (t', es) ∧
      s'.tasks[j]? = some t' := by
  have hlt := (List.getElem?_eq_some_iff.mp ht).1
  cases e with
  | step i x =>
    obtain ⟨u, u', es, hu, hadvance, -, rfl⟩ := step_task h
    by_cases hij : i = j
    · subst hij
      obtain rfl := Option.some.inj (ht.symm.trans hu)
      exact .inr ⟨x, u', es, rfl, hadvance, List.getElem?_set_self hlt⟩
    · exact .inl ((List.getElem?_set_ne hij).trans ht)
  | late k =>
    simp only [step, Option.bind_eq_bind, Option.bind_eq_some_iff, Option.pure_def] at h
    obtain ⟨call, -, h⟩ := h
    obtain rfl := Option.some.inj h
    exact .inl ht
  | agentAction q =>
    simp only [step] at h
    split at h
    · obtain rfl := Option.some.inj h
      exact .inl ((List.getElem?_append_left hlt).trans ht)
    · cases h
  | request o kind | sandboxAction o name force | cleanup o run =>
    obtain rfl := Option.some.inj h
    exact .inl ((List.getElem?_append_left hlt).trans ht)
  | publish a d | container o status | sessions o ids | statuses o directory group =>
    obtain rfl := Option.some.inj h
    exact .inl ht

/-- **An abandoned call after a step** was abandoned before, or is the one whose task fails. -/
theorem State.late_step {s s' : State} {e : Event} (h : s.step e = some s') {c : Call}
    (hc : c ∈ s'.late) :
    c ∈ s.late ∨ ∃ i x t, e = .step i x ∧ x.answers = false ∧ s.tasks[i]? = some t ∧
      t.call = some c := by
  cases e with
  | step i x =>
    obtain ⟨t, u, es, ht, -, -, rfl⟩ := step_task h
    simp only [applyAll_frame State.late late_apply, conclude] at hc
    split at hc
    · exact .inl hc
    next hx =>
      rcases List.mem_append.mp hc with hold | hnew
      · exact .inl hold
      · exact .inr ⟨i, x, t, rfl, by simpa using hx, ht, by simpa using hnew⟩
  | late k =>
    simp only [step, Option.bind_eq_bind, Option.bind_eq_some_iff, Option.pure_def] at h
    obtain ⟨call, -, h⟩ := h
    obtain rfl := Option.some.inj h
    exact .inl (List.mem_of_mem_eraseIdx hc)
  | agentAction q =>
    simp only [step] at h
    split at h
    · obtain rfl := Option.some.inj h
      exact .inl hc
    · cases h
  | request o kind | sandboxAction o name force | cleanup o run | publish a d | container o status
  | sessions o ids | statuses o directory group =>
    obtain rfl := Option.some.inj h
    exact .inl hc

/-! ## Where a task goes -/

/-- The acquisition a stage of an action on a sandbox is in. -/
def SandboxStage.acquires : SandboxStage → Option Acquisition
  | .acquiring p => some p
  | _ => none

/-- The acquisition a stage of an action on an Agent is in. -/
def AgentStage.acquires : AgentStage → Option (Verification × Acquisition)
  | .acquiring v p => some (v, p)
  | _ => none

section SandboxActions

variable {s : State} {o : Owner} {name : SandboxAction} {force : Bool} {r : SandboxRecord}
  {p : Acquisition}

theorem act_acquires {c : Option Container} (h : (act o name r c).1.acquires = some p) :
    p = .load := by
  cases name <;> cases c <;> simp_all [act, SandboxStage.acquires]

theorem findContainer_acquires (h : (findContainer o name r).1.acquires = some p) : p = .load := by
  unfold findContainer at h
  split at h
  · simp [SandboxStage.acquires] at h
  · simp [SandboxStage.acquires] at h
  · exact act_acquires h

theorem actOn_acquires {c : Container} (h : (actOn s o name r c).1.acquires = some p) :
    p = .load := by
  unfold actOn at h
  split at h
  · exact act_acquires h
  · simp [SandboxStage.acquires] at h

theorem decideAction_acquires {x : Observation}
    (h : (decideAction s o name force r x).1.acquires = some p) : p = .load := by
  unfold decideAction at h
  split at h
  · simp [SandboxStage.acquires] at h
  · split at h
    all_goals first | exact findContainer_acquires h | simp [SandboxStage.acquires] at h

theorem findExisting_acquires : (findExisting r).acquires = none := by
  unfold findExisting
  split <;> rfl

theorem beginExecution_acquires (h : (beginExecution s o name force r).1.acquires = some p) :
    p = .load := by
  unfold beginExecution at h
  split at h
  · exact decideAction_acquires h
  · simp [SandboxStage.acquires] at h

/-- An action on a sandbox begins its acquisition, or goes on with it. -/
theorem advanceSandbox_acquires {stage : SandboxStage} {x : Outcome}
    {q : SandboxStage × List Effect} (h : advanceSandbox s o name force stage x = some q)
    (hp : q.1.acquires = some p) :
    p = .load ∨ ∃ p₀, stage = .acquiring p₀ ∧ p₀.next s.world (s.load o.1) o x = some p := by
  unfold advanceSandbox at h
  dsimp only at h
  split at h
  all_goals repeat' split at h
  all_goals first
    | contradiction
    | obtain rfl := Option.some.inj h
      first
        | exact .inl (decideAction_acquires hp)
        | exact .inl (findContainer_acquires hp)
        | exact .inl (actOn_acquires hp)
        | exact .inl (act_acquires hp)
        | exact .inl (beginExecution_acquires hp)
        | exact absurd (findExisting_acquires.symm.trans hp) (by simp)
        | (cases hp; done)
        -- the acquisition itself
        | (cases hp; exact .inr ⟨_, rfl, by assumption⟩)

end SandboxActions

section AgentActions

variable {s : State} {q : AgentRequest}

theorem goRemoving_acquires (p : Removal × List Effect) : (goRemoving q p).1.acquires = none := by
  unfold goRemoving
  split
  · rfl
  · split <;> rfl
  · rfl

theorem commitNext_acquires (targets : List String) : (commitNext q targets).1.acquires = none := by
  cases targets <;> rfl

theorem loadNext_acquires (targets : List String) : (loadNext targets).1.acquires = none := by
  cases targets <;> rfl

theorem verifyNext_acquires (v : Verification) (users : List Owner) :
    (verifyNext v users).1.acquires = none := by
  cases users with
  | nil => exact loadNext_acquires v.targets
  | cons user users => rfl

theorem begin_acquires : (begin s q).1.acquires = none := by
  unfold begin
  split
  · exact commitNext_acquires _
  · rfl
  · exact loadNext_acquires _
  · rfl

theorem applyAction_acquires : (applyAction s q).1.acquires = none := by
  unfold applyAction
  split
  · rfl
  · exact goRemoving_acquires _
  · exact goRemoving_acquires _

/-- **Everything that a step of an action on an Agent can be.** -/
inductive AgentMove (s : State) (q : AgentRequest) :
    AgentStage → Outcome → AgentStage × List Effect → Prop
  | begun : s.agentLocked q.agent = false → AgentMove s q .lock .ok (begin s q)
  | drained : drained s q = true → AgentMove s q .drain .ok (applyAction s q)
  | refused {d} : q.name = .apply d →
      AgentMove s q .drain .error (.over false, [.unverify q.agent])
  | removed {p m x} : p.next s none x = some m → AgentMove s q (.removing p) x (goRemoving q m)
  | uncommitted {target targets} : AgentMove s q (.committing target targets) .ok (commitNext q targets)
  | committed {target targets} {staged d : Definition} : s.overrides.lookup target = some staged →
      s.published.lookup target = some d → staged.version = d.version →
      AgentMove s q (.committing target targets) .ok
        ((commitNext q targets).1, .commit target :: (commitNext q targets).2)
  | loaded {target targets d} : s.load target = some d →
      AgentMove s q (.loading target targets) .ok
        (verifyNext ⟨target, d, (target, ""), [], targets, []⟩ ((s.records target none).map Prod.fst))
  | desired {v} : AgentMove s q (.desired v) .ok (.userLock v, [])
  | skipped {v} : AgentMove s q (.desired v) .stopped (verifyNext v v.users)
  | locked {v} : s.userLocked v.user = false →
      AgentMove s q (.userLock v) .ok (.acquiring v .load, [])
  | acquires {v p p' x} : p.next s.world (s.load v.user.1) v.user x = some p' →
      AgentMove s q (.acquiring v p) x (.acquiring v p', [])
  | acquired {v p c x} : p.next s.world (s.load v.user.1) v.user x = some (.done c) →
      AgentMove s q (.acquiring v p) x
        (verifyNext { v with acquired := (v.user, c) :: v.acquired } v.users)
  | failed {stage x} : AgentMove s q stage x (.over false, [])

theorem advanceAgent_move {stage : AgentStage} {x : Outcome} {n : AgentStage × List Effect}
    (h : advanceAgent s q stage x = some n) : AgentMove s q stage x n := by
  unfold advanceAgent at h
  split at h
  case h_4 =>
    split at h
    next hname =>
      obtain rfl := Option.some.inj h
      exact .refused hname
    · obtain rfl := Option.some.inj h
      exact .failed
  case h_5 =>
    obtain ⟨m, hm, rfl⟩ := Option.map_eq_some_iff.mp h
    exact .removed hm
  case h_6 =>
    split at h
    · obtain rfl := Option.some.inj h
      exact .uncommitted
    next hstaged hd =>
      split at h
      next hversion =>
        obtain rfl := Option.some.inj h
        exact .committed hstaged hd hversion
      next => cases h
    · cases h
  all_goals repeat' split at h
  all_goals first
    | contradiction
    | obtain rfl := Option.some.inj h
  · exact .begun (eq_false_of_ne_true ‹_›)
  · exact .drained ‹_›
  · exact .loaded ‹_›
  · exact .desired
  · exact .skipped
  · exact .locked (eq_false_of_ne_true ‹_›)
  · exact .acquired ‹_›
  · exact .failed
  · exact .acquires ‹_›
  · exact .failed

/-- A verification begins an acquisition when the lock of the user is free, or goes on with it. -/
theorem AgentMove.acquiring {stage : AgentStage} {x : Outcome} {n : AgentStage × List Effect}
    {v : Verification} {p : Acquisition} (h : AgentMove s q stage x n)
    (hp : n.1.acquires = some (v, p)) :
    (p = .load ∧ stage = .userLock v ∧ s.userLocked v.user = false) ∨
      ∃ p₀, stage = .acquiring v p₀ ∧ p₀.next s.world (s.load v.user.1) v.user x = some p := by
  cases h with
  | begun => exact absurd (begin_acquires.symm.trans hp) (by simp)
  | drained => exact absurd (applyAction_acquires.symm.trans hp) (by simp)
  | removed => exact absurd ((goRemoving_acquires _).symm.trans hp) (by simp)
  | uncommitted | committed => exact absurd ((commitNext_acquires _).symm.trans hp) (by simp)
  | loaded | skipped | acquired => exact absurd ((verifyNext_acquires _ _).symm.trans hp) (by simp)
  | locked hfree =>
    cases hp
    exact .inl ⟨rfl, rfl, hfree⟩
  | acquires hnext =>
    cases hp
    exact .inr ⟨_, rfl, hnext⟩
  | refused | desired | failed => cases hp

end AgentActions

/-- The stages that are counted as acquiring. -/
def RequestStage.acquires : RequestStage → Bool
  | .check | .lock | .admission | .acquiring _ => true
  | _ => false

/-- **Everything that a step of a native request can be.** -/
inductive RequestMove (s : State) (o : Owner) (kind : RequestKind) :
    RequestStage → Outcome → RequestStage × List Effect → Prop
  | begun : RequestMove s o kind .authorize .ok
      (.check, managementLease kind (.request o.1) ++ [.acquiring o.1])
  | refused {x} : x.answers = false → RequestMove s o kind .authorize x (.over, [])
  | checked : s.blocks o.1 = false → RequestMove s o kind .check .ok (.lock, [])
  | locked : s.userLocked o = false → s.blocks o.1 = false →
      RequestMove s o kind .lock .ok (.admission, [])
  | admitted {loadTest} : s.blocks o.1 = false →
      RequestMove s o kind .admission (.resources loadTest) (.acquiring .load, [])
  | acquires {p p' x} : p.next s.world (s.load o.1) o x = some p' → p' ≠ .raised →
      RequestMove s o kind (.acquiring p) x (.acquiring p', [])
  | granted {p c x} : p.next s.world (s.load o.1) o x = some (.done c) →
      RequestMove s o kind (.acquiring p) x (.leased c, [.lease o, .acquired o.1])
  | failed {stage x} : stage.acquires = true →
      RequestMove s o kind stage x (.over, giveUp o.1 kind)
  | subscribed {c} : kind = .events →
      RequestMove s o kind (.leased c) .ok (.subscribed c, [.subscribe o])
  | finished {c x} : RequestMove s o kind (.leased c) x
      ((release s o).1, managementLease kind (.respond o.1) ++ (release s o).2)
  | closed {c x} : RequestMove s o kind (.subscribed c) x
      ((release s o).1, .unsubscribe o :: (release s o).2)
  | released {x} : RequestMove s o kind .releasing x (.over, [.unlease o])

theorem advanceRequest_move {s : State} {o : Owner} {kind : RequestKind} {stage : RequestStage}
    {x : Outcome} {n : RequestStage × List Effect} (h : advanceRequest s o kind stage x = some n) :
    RequestMove s o kind stage x n := by
  unfold advanceRequest at h
  split at h
  case h_4 =>
    split at h
    · cases h
    next hguard =>
      rw [Bool.or_eq_true, not_or, Bool.not_eq_true, Bool.not_eq_true] at hguard
      obtain rfl := Option.some.inj h
      exact .locked hguard.1 hguard.2
  case h_11 =>
    split at h
    · cases h
    · obtain rfl := Option.some.inj h
      cases stage with
      | check | lock | admission => exact .failed rfl
      | _ => simp_all
  all_goals repeat' split at h
  all_goals first
    | contradiction
    | obtain rfl := Option.some.inj h
  · exact .begun
  · exact .checked (eq_false_of_ne_true ‹_›)
  · exact .admitted (eq_false_of_ne_true ‹_›)
  · exact .granted ‹_›
  · exact .failed rfl
  · exact .acquires ‹_› ‹_›
  · exact .subscribed rfl
  · exact .finished
  · exact .closed
  · exact .released
  · exact .refused (eq_false_of_ne_true ‹_›)

/-- A native request begins its acquisition, or goes on with it. -/
theorem RequestMove.acquiring {s : State} {o : Owner} {kind : RequestKind} {stage : RequestStage}
    {x : Outcome} {n : RequestStage × List Effect} {p : Acquisition}
    (h : RequestMove s o kind stage x n) (hp : n.1 = .acquiring p) :
    (p = .load ∧ stage = .admission ∧ s.blocks o.1 = false) ∨
      ∃ p₀, stage = .acquiring p₀ ∧ p₀.next s.world (s.load o.1) o x = some p := by
  cases h with
  | admitted hfree =>
    cases hp
    exact .inl ⟨rfl, rfl, hfree⟩
  | acquires hnext =>
    cases hp
    exact .inr ⟨_, rfl, hnext⟩
  | finished | closed =>
    unfold release at hp
    split at hp <;> cases hp
  | _ => cases hp

/-- **An acquisition after a step** begins, or goes on from where it was. -/
theorem Task.acquisition_advance {s : State} {t t' : Task} {x : Outcome} {es : List Effect}
    (h : t.advance s x = some (t', es)) {o : Owner} {p : Acquisition}
    (hp : t'.acquisition = some (o, p)) :
    p = .load ∨ ∃ p₀, t.acquisition = some (o, p₀) ∧ p₀.next s.world (s.load o.1) o x = some p := by
  cases t with
  | request o' kind stage =>
    obtain ⟨n, hn, heq⟩ := Option.map_eq_some_iff.mp h
    obtain ⟨rfl, rfl⟩ := Prod.mk.inj heq
    cases hstage : n.1 with
    | acquiring p' =>
      rw [hstage] at hp
      obtain ⟨rfl, rfl⟩ := Prod.mk.inj (Option.some.inj hp)
      rcases (advanceRequest_move hn).acquiring hstage with ⟨rfl, -, -⟩ | ⟨p₀, rfl, hnext⟩
      · exact .inl rfl
      · exact .inr ⟨p₀, rfl, hnext⟩
    | _ => rw [hstage] at hp; cases hp
  | sandbox o' name force stage =>
    obtain ⟨n, hn, heq⟩ := Option.map_eq_some_iff.mp h
    obtain ⟨rfl, rfl⟩ := Prod.mk.inj heq
    cases hstage : n.1 with
    | acquiring p' =>
      rw [hstage] at hp
      obtain ⟨rfl, rfl⟩ := Prod.mk.inj (Option.some.inj hp)
      rcases advanceSandbox_acquires (p := p') hn (by rw [hstage]; rfl) with rfl | ⟨p₀, rfl, hnext⟩
      · exact .inl rfl
      · exact .inr ⟨p₀, rfl, hnext⟩
    | _ => rw [hstage] at hp; cases hp
  | agent q stage =>
    obtain ⟨n, hn, heq⟩ := Option.map_eq_some_iff.mp h
    obtain ⟨rfl, rfl⟩ := Prod.mk.inj heq
    cases hstage : n.1 with
    | acquiring v p' =>
      rw [hstage] at hp
      obtain ⟨rfl, rfl⟩ := Prod.mk.inj (Option.some.inj hp)
      rcases (advanceAgent_move hn).acquiring (v := v) (p := p') (by rw [hstage]; rfl) with
        ⟨rfl, -, -⟩ | ⟨p₀, rfl, hnext⟩
      · exact .inl rfl
      · exact .inr ⟨p₀, rfl, hnext⟩
    | _ => rw [hstage] at hp; cases hp
  | cleanup o' run stage =>
    obtain ⟨n, hn, heq⟩ := Option.map_eq_some_iff.mp h
    obtain ⟨rfl, rfl⟩ := Prod.mk.inj heq
    cases hp

/-! ## What the tasks change -/

theorem mem_act {o : Owner} {name : SandboxAction} {r : SandboxRecord} {c : Option Container}
    {e : Effect} (h : e ∈ (act o name r c).2) :
    e = .mark o .stopped ∨ e = .destroyed o r.imageVersion := by
  cases name <;> cases c <;> simp_all [act]

theorem mem_findContainer {o : Owner} {name : SandboxAction} {r : SandboxRecord} {e : Effect}
    (h : e ∈ (findContainer o name r).2) : e = .mark o .stopped ∨ e = .destroyed o r.imageVersion := by
  unfold findContainer at h
  split at h
  · simp at h
  · simp at h
  · exact mem_act h

theorem mem_actOn {s : State} {o : Owner} {name : SandboxAction} {r : SandboxRecord} {c : Container}
    {e : Effect} (h : e ∈ (actOn s o name r c).2) :
    e = .mark o .stopped ∨ e = .destroyed o r.imageVersion := by
  unfold actOn at h
  split at h
  · exact mem_act h
  · simp at h

theorem mem_decideAction {s : State} {o : Owner} {name : SandboxAction} {force : Bool}
    {r : SandboxRecord} {x : Observation} {e : Effect}
    (h : e ∈ (decideAction s o name force r x).2) :
    e = .mark o .stopped ∨ e = .destroyed o r.imageVersion := by
  unfold decideAction at h
  split at h
  · simp at h
  · split at h
    all_goals first | exact mem_findContainer h | simp at h

theorem mem_beginExecution {s : State} {o : Owner} {name : SandboxAction} {force : Bool}
    {r : SandboxRecord} {e : Effect} (h : e ∈ (beginExecution s o name force r).2) :
    e = .mark o .stopped ∨ e = .destroyed o r.imageVersion := by
  unfold beginExecution at h
  split at h
  · exact mem_decideAction h
  · simp at h

/-- An action on a sandbox changes its record, and nothing else besides its calls. -/
theorem advanceSandbox_effect {s : State} {o : Owner} {name : SandboxAction} {force : Bool}
    {stage : SandboxStage} {x : Outcome} {n : SandboxStage × List Effect}
    (h : advanceSandbox s o name force stage x = some n) {e : Effect} (he : e ∈ n.2) :
    e = .mark o .stopped ∨ ∃ image, e = .destroyed o image := by
  unfold advanceSandbox at h
  dsimp only at h
  split at h
  all_goals repeat' split at h
  all_goals first
    | contradiction
    | obtain rfl := Option.some.inj h
      first
        | exact absurd he List.not_mem_nil
        | exact .inl (List.mem_singleton.mp he)
        | exact (mem_decideAction he).imp_right fun h => ⟨_, h⟩
        | exact (mem_findContainer he).imp_right fun h => ⟨_, h⟩
        | exact (mem_actOn he).imp_right fun h => ⟨_, h⟩
        | exact (mem_act he).imp_right fun h => ⟨_, h⟩
        | exact (mem_beginExecution he).imp_right fun h => ⟨_, h⟩

theorem mem_removeNext {s : State} {todo : List (Owner × SandboxRecord)} {e : Effect}
    (h : e ∈ (removeNext s todo).2) : ∃ o, e = .mark o .missing := by
  induction todo with
  | nil => simp [removeNext] at h
  | cons item todo ih =>
    obtain ⟨o, r⟩ := item
    unfold removeNext at h
    split at h
    · simp at h
    · split at h
      · simp at h
      · rcases List.mem_cons.mp h with rfl | h
        · exact ⟨o, rfl⟩
        · exact ih h

theorem Removal.mem_next {s : State} {loadTest : Option String} {p : Removal} {x : Outcome}
    {n : Removal × List Effect} (h : p.next s loadTest x = some n) {e : Effect} (he : e ∈ n.2) :
    ∃ o, e = .mark o .missing := by
  have hremoved : ∀ o todo, e ∈ (removed s o todo).2 → ∃ o, e = .mark o .missing := by
    intro o todo he
    rcases List.mem_cons.mp he with rfl | he
    · exact ⟨o, rfl⟩
    · exact mem_removeNext he
  unfold Removal.next at h
  split at h
  all_goals repeat' split at h
  all_goals first
    | contradiction
    | obtain rfl := Option.some.inj h
      first
        | exact absurd he List.not_mem_nil
        | exact hremoved _ _ he

/-- **Everything that an action on an Agent can change**, by the stage it leaves. -/
inductive AgentEffect (s : State) (q : AgentRequest) : AgentStage → Effect → Prop
  | mark {stage} (o) : AgentEffect s q stage (.mark o .missing)
  | block : s.agentLocked q.agent = false → AgentEffect s q .lock (.block q.agent)
  | unblock : s.agentLocked q.agent = false → AgentEffect s q .lock (.unblock q.agent)
  | resumed {target targets} : AgentEffect s q (.committing target targets) (.unblock q.agent)
  | committed {target targets} {staged d : Definition} : s.overrides.lookup target = some staged →
      s.published.lookup target = some d → staged.version = d.version →
      AgentEffect s q (.committing target targets) (.commit target)
  | unverified {d} : q.name = .apply d → AgentEffect s q .drain (.unverify q.agent)
  | staged {d} : q.name = .apply d → AgentEffect s q .drain (.stage q.agent d)
  | applied {stage d} : q.name = .apply d → AgentEffect s q stage (.applied q.agent)
  | deleted {stage} : q.name = .delete → AgentEffect s q stage (.deleteAgent q.agent)
  | loaded {target targets} {d : Definition} : s.load target = some d →
      AgentEffect s q (.loading target targets) (.verified target d.version)
  | skipped {v} : AgentEffect s q (.desired v) (.verified v.target v.definition.version)
  | acquired {v p c x} : p.next s.world (s.load v.user.1) v.user x = some (.done c) →
      AgentEffect s q (.acquiring v p) (.verified v.target v.definition.version)

section AgentActions

variable {s : State} {q : AgentRequest} {e : Effect}

theorem goRemoving_effect {stage : AgentStage} {p : Removal × List Effect}
    (hp : ∀ e ∈ p.2, ∃ o, e = .mark o .missing) (h : e ∈ (goRemoving q p).2) :
    AgentEffect s q stage e := by
  have hmark : e ∈ p.2 → AgentEffect s q stage e := by
    intro he
    obtain ⟨o, rfl⟩ := hp e he
    exact .mark o
  unfold goRemoving at h
  split at h
  · exact hmark h
  · split at h
    next hname =>
      rcases List.mem_append.mp h with h | h
      · exact hmark h
      · rw [List.mem_singleton.mp h]
        exact .applied hname
    next hname =>
      rcases List.mem_append.mp h with h | h
      · exact hmark h
      · rw [List.mem_singleton.mp h]
        exact .deleted hname
    next => exact hmark h
  · exact hmark h

theorem mem_commitNext {targets : List String} (h : e ∈ (commitNext q targets).2) :
    e = .unblock q.agent := by
  cases targets with
  | nil => exact List.mem_singleton.mp h
  | cons target targets => simp [commitNext] at h

theorem loadNext_effects (targets : List String) : (loadNext targets).2 = [] := by
  cases targets <;> rfl

theorem mem_verifyNext {v : Verification} {users : List Owner} (h : e ∈ (verifyNext v users).2) :
    e = .verified v.target v.definition.version := by
  cases users with
  | nil => simpa [verifyNext, loadNext_effects] using h
  | cons user users => simp [verifyNext] at h

theorem begin_effect (hfree : s.agentLocked q.agent = false) (h : e ∈ (begin s q).2) :
    AgentEffect s q .lock e := by
  unfold begin at h
  split at h
  · rw [mem_commitNext h]
    exact .unblock hfree
  · rw [List.mem_singleton.mp h]
    exact .unblock hfree
  · simp [loadNext_effects] at h
  · rw [List.mem_singleton.mp h]
    exact .block hfree

theorem applyAction_effect (h : e ∈ (applyAction s q).2) : AgentEffect s q .drain e := by
  unfold applyAction at h
  split at h
  · simp at h
  next d hname =>
    rcases List.mem_cons.mp h with rfl | h
    · exact .unverified hname
    · rcases List.mem_cons.mp h with rfl | h
      · exact .staged hname
      · exact goRemoving_effect (fun e he => mem_removeNext he) h
  next => exact goRemoving_effect (fun e he => mem_removeNext he) h

theorem AgentMove.effect {stage : AgentStage} {x : Outcome} {n : AgentStage × List Effect}
    (h : AgentMove s q stage x n) (he : e ∈ n.2) : AgentEffect s q stage e := by
  cases h with
  | begun hfree => exact begin_effect hfree he
  | drained => exact applyAction_effect he
  | refused hname =>
    rw [List.mem_singleton.mp he]
    exact .unverified hname
  | removed hm => exact goRemoving_effect (fun e he => Removal.mem_next hm he) he
  | uncommitted =>
    rw [mem_commitNext he]
    exact .resumed
  | committed hstaged hd hversion =>
    rcases List.mem_cons.mp he with rfl | he
    · exact .committed hstaged hd hversion
    · rw [mem_commitNext he]
      exact .resumed
  | loaded hload =>
    rw [mem_verifyNext he]
    exact .loaded hload
  | skipped =>
    rw [mem_verifyNext he]
    exact .skipped
  | acquired hnext =>
    rw [mem_verifyNext he]
    exact .acquired hnext
  | desired | locked | acquires | failed => exact absurd he List.not_mem_nil

end AgentActions

/-- A cleanup marks records, and deletes the rows of its user in the end. -/
theorem advanceCleanup_effect {s : State} {o : Owner} {run : String} {stage : CleanupStage}
    {x : Outcome} {n : CleanupStage × List Effect} (h : advanceCleanup s o run stage x = some n)
    {e : Effect} (he : e ∈ n.2) : (∃ o', e = .mark o' .missing) ∨ e = .deleteUser o := by
  have hgo : ∀ p : Removal × List Effect, (∀ e ∈ p.2, ∃ o, e = .mark o .missing) →
      e ∈ (goCleaning o p).2 → (∃ o', e = .mark o' .missing) ∨ e = .deleteUser o := by
    intro p hp he
    unfold goCleaning at he
    split at he
    · exact .inl (hp e he)
    · rcases List.mem_append.mp he with he | he
      · exact .inl (hp e he)
      · exact .inr (List.mem_singleton.mp he)
    · exact .inl (hp e he)
  unfold advanceCleanup at h
  split at h
  case h_4 =>
    obtain ⟨p, hp, rfl⟩ := Option.map_eq_some_iff.mp h
    exact hgo _ (fun e he => Removal.mem_next hp he) he
  all_goals repeat' split at h
  all_goals first
    | contradiction
    | obtain rfl := Option.some.inj h
      first
        | exact absurd he List.not_mem_nil
        | exact hgo _ (fun e he => mem_removeNext he) he

/-! ## Locks -/

/-- Who is in an acquisition holds the lock of the user. -/
theorem Task.holds_of_acquisition {t : Task} {o : Owner} {p : Acquisition}
    (h : t.acquisition = some (o, p)) : t.holds = some o := by
  cases t with
  | request o' kind stage => cases stage <;> simp_all [acquisition, holds]
  | sandbox o' name force stage => cases stage <;> simp_all [acquisition, holds]
  | agent q stage => cases stage <;> simp_all [acquisition, holds]
  | cleanup o' run stage => cases h

/-- A native request comes to its admission from the free lock only. -/
theorem RequestMove.admission {s : State} {o : Owner} {kind : RequestKind} {stage : RequestStage}
    {x : Outcome} {n : RequestStage × List Effect} (h : RequestMove s o kind stage x n)
    (hn : n.1 = .admission) : stage = .lock ∧ s.userLocked o = false ∧ s.blocks o.1 = false := by
  cases h with
  | locked hfree hopen => exact ⟨rfl, hfree, hopen⟩
  | finished | closed =>
    unfold release at hn
    split at hn <;> cases hn
  | _ => cases hn

/-- **A lock of a user is taken only when it is free.** -/
theorem Task.holds_advance {s : State} {t t' : Task} {x : Outcome} {es : List Effect}
    (h : t.advance s x = some (t', es)) {o : Owner} (ho : t'.holds = some o) :
    t.holds = some o ∨ s.userLocked o = false := by
  cases t with
  | request o' kind stage =>
    obtain ⟨n, hn, heq⟩ := Option.map_eq_some_iff.mp h
    obtain ⟨rfl, rfl⟩ := Prod.mk.inj heq
    cases hstage : n.1 with
    | admission =>
      rw [hstage] at ho
      obtain rfl : o' = o := Option.some.inj ho
      exact .inr ((advanceRequest_move hn).admission hstage).2.1
    | acquiring p =>
      rw [hstage] at ho
      obtain rfl : o' = o := Option.some.inj ho
      rcases (advanceRequest_move hn).acquiring hstage with ⟨-, rfl, -⟩ | ⟨p₀, rfl, -⟩
      · exact .inl rfl
      · exact .inl rfl
    | _ => rw [hstage] at ho; cases ho
  | sandbox o' name force stage =>
    obtain ⟨n, hn, heq⟩ := Option.map_eq_some_iff.mp h
    obtain ⟨rfl, rfl⟩ := Prod.mk.inj heq
    obtain rfl : o' = o := by
      cases hstage : n.1 <;> rw [hstage] at ho <;> first | exact Option.some.inj ho | cases ho
    cases stage with
    | lock =>
      cases x with
      | ok =>
        by_cases hlocked : s.userLocked o' = true
        · simp [advanceSandbox, hlocked] at hn
        · exact .inr (eq_false_of_ne_true hlocked)
      | _ =>
        simp only [advanceSandbox] at hn
        split at hn
        · cases hn
        · obtain rfl := Option.some.inj hn
          cases ho
    | «over» ok => simp [advanceSandbox] at hn
    | _ => exact .inl rfl
  | agent q stage =>
    obtain ⟨n, hn, heq⟩ := Option.map_eq_some_iff.mp h
    obtain ⟨rfl, rfl⟩ := Prod.mk.inj heq
    cases hstage : n.1 with
    | acquiring v p =>
      rw [hstage] at ho
      obtain rfl : v.user = o := Option.some.inj ho
      rcases (advanceAgent_move hn).acquiring (v := v) (p := p) (by rw [hstage]; rfl) with
        ⟨-, rfl, hfree⟩ | ⟨p₀, rfl, -⟩
      · exact .inr hfree
      · exact .inl rfl
    | _ => rw [hstage] at ho; cases ho
  | cleanup o' run stage =>
    obtain ⟨n, hn, heq⟩ := Option.map_eq_some_iff.mp h
    obtain ⟨rfl, rfl⟩ := Prod.mk.inj heq
    obtain rfl : o' = o := by
      cases hstage : n.1 <;> rw [hstage] at ho <;> first | exact Option.some.inj ho | cases ho
    cases stage with
    | lock =>
      cases x with
      | ok =>
        by_cases hlocked : s.userLocked o' = true
        · simp [advanceCleanup, hlocked] at hn
        · exact .inr (eq_false_of_ne_true hlocked)
      | _ =>
        simp only [advanceCleanup] at hn
        split at hn
        · cases hn
        · obtain rfl := Option.some.inj hn
          cases ho
    | «over» ok => simp [advanceCleanup] at hn
    | removing p => exact .inl rfl

/-- **A lock of an Agent is taken only when it is free.** -/
theorem Task.holdsAgent_advance {s : State} {t t' : Task} {x : Outcome} {es : List Effect}
    (h : t.advance s x = some (t', es)) {a : String} (ha : t'.holdsAgent = some a) :
    t.holdsAgent = some a ∨ s.agentLocked a = false := by
  cases t with
  | agent q stage =>
    obtain ⟨n, hn, heq⟩ := Option.map_eq_some_iff.mp h
    obtain ⟨rfl, rfl⟩ := Prod.mk.inj heq
    obtain rfl : q.agent = a := by
      cases hstage : n.1 <;> rw [hstage] at ha <;> first | exact Option.some.inj ha | cases ha
    cases stage with
    | lock =>
      cases x with
      | ok =>
        by_cases hlocked : s.agentLocked q.agent = true
        · simp [advanceAgent, hlocked] at hn
        · exact .inr (eq_false_of_ne_true hlocked)
      | _ =>
        simp only [advanceAgent] at hn
        split at hn
        · cases hn
        · obtain rfl := Option.some.inj hn
          cases ha
    | «over» ok => simp [advanceAgent] at hn
    | _ => exact .inl rfl
  | request o kind stage | sandbox o name force stage | cleanup o run stage =>
    obtain ⟨n, hn, heq⟩ := Option.map_eq_some_iff.mp h
    obtain ⟨rfl, rfl⟩ := Prod.mk.inj heq
    cases ha

/-! ## Mutual exclusion -/

theorem Task.Arrives.holds {t : Task} (h : t.Arrives) : t.holds = none := by cases h <;> rfl

theorem Task.Arrives.holdsAgent {t : Task} (h : t.Arrives) : t.holdsAgent = none := by
  cases h <;> rfl

theorem State.userLocked_eq_false {s : State} {o : Owner} (h : s.userLocked o = false) {i : Nat}
    {t : Task} (ht : s.tasks[i]? = some t) : t.holds ≠ some o := by
  intro ho
  have := List.any_eq_false.mp h t (List.mem_of_getElem? ht)
  simp [ho] at this

theorem State.agentLocked_eq_false {s : State} {a : String} (h : s.agentLocked a = false) {i : Nat}
    {t : Task} (ht : s.tasks[i]? = some t) : t.holdsAgent ≠ some a := by
  intro ha
  have := List.any_eq_false.mp h t (List.mem_of_getElem? ht)
  simp [ha] at this

/-- Each lock is held by one task at most. -/
structure State.Exclusive (s : State) : Prop where
  user : ∀ (i j : Nat) (t t' : Task) (o : Owner), s.tasks[i]? = some t → s.tasks[j]? = some t' →
    t.holds = some o → t'.holds = some o → i = j
  agent : ∀ (i j : Nat) (t t' : Task) (a : String), s.tasks[i]? = some t → s.tasks[j]? = some t' →
    t.holdsAgent = some a → t'.holdsAgent = some a → i = j

theorem State.Exclusive.initial (image : String) : (State.initial image).Exclusive :=
  ⟨fun i j t t' o hi => by simp [State.initial] at hi, fun i j t t' a hi => by simp [State.initial] at hi⟩

/-- What a task holds after a step, it held before, or the lock was free. -/
theorem State.holds_step {s s' : State} {e : Event} (h : s.step e = some s') {j : Nat} {t' : Task}
    (ht' : s'.tasks[j]? = some t') {o : Owner} (ho : t'.holds = some o) :
    (∃ t, s.tasks[j]? = some t ∧ t.holds = some o) ∨ (∃ x, e = .step j x) ∧ s.userLocked o = false := by
  rcases tasks_step h ht' with hold | ⟨-, harrives⟩ | ⟨x, t, es, rfl, ht, hadvance, -⟩
  · exact .inl ⟨t', hold, ho⟩
  · rw [harrives.holds] at ho
    cases ho
  · rcases Task.holds_advance hadvance ho with hold | hfree
    · exact .inl ⟨t, ht, hold⟩
    · exact .inr ⟨⟨x, rfl⟩, hfree⟩

theorem State.holdsAgent_step {s s' : State} {e : Event} (h : s.step e = some s') {j : Nat}
    {t' : Task} (ht' : s'.tasks[j]? = some t') {a : String} (ha : t'.holdsAgent = some a) :
    (∃ t, s.tasks[j]? = some t ∧ t.holdsAgent = some a) ∨
      (∃ x, e = .step j x) ∧ s.agentLocked a = false := by
  rcases tasks_step h ht' with hold | ⟨-, harrives⟩ | ⟨x, t, es, rfl, ht, hadvance, -⟩
  · exact .inl ⟨t', hold, ha⟩
  · rw [harrives.holdsAgent] at ha
    cases ha
  · rcases Task.holdsAgent_advance hadvance ha with hold | hfree
    · exact .inl ⟨t, ht, hold⟩
    · exact .inr ⟨⟨x, rfl⟩, hfree⟩

theorem State.Exclusive.step {s s' : State} {e : Event} (h : s.Exclusive) (hstep : s.step e = some s') :
    s'.Exclusive := by
  constructor
  · intro i j t t' o hi hj ht ht'
    rcases holds_step hstep hi ht with ⟨u, hu, hou⟩ | ⟨⟨x, rfl⟩, hfree⟩ <;>
      rcases holds_step hstep hj ht' with ⟨u', hu', hou'⟩ | ⟨⟨x', heq⟩, hfree'⟩
    · exact h.user i j u u' o hu hu' hou hou'
    · exact absurd hou (userLocked_eq_false hfree' hu)
    · exact absurd hou' (userLocked_eq_false hfree hu')
    · cases heq
      rfl
  · intro i j t t' a hi hj ht ht'
    rcases holdsAgent_step hstep hi ht with ⟨u, hu, hou⟩ | ⟨⟨x, rfl⟩, hfree⟩ <;>
      rcases holdsAgent_step hstep hj ht' with ⟨u', hu', hou'⟩ | ⟨⟨x', heq⟩, hfree'⟩
    · exact h.agent i j u u' a hu hu' hou hou'
    · exact absurd hou (agentLocked_eq_false hfree' hu)
    · exact absurd hou' (agentLocked_eq_false hfree hu')
    · cases heq
      rfl

/-! ## One kind of task -/

namespace Task

variable {s : State} {t : Task} {x : Outcome} {es : List Effect}

theorem request_of_advance {o : Owner} {kind : RequestKind} {stage : RequestStage}
    (h : t.advance s x = some (.request o kind stage, es)) :
    ∃ stage₀, t = .request o kind stage₀ ∧ RequestMove s o kind stage₀ x (stage, es) := by
  cases t with
  | request o₀ kind₀ stage₀ =>
    obtain ⟨n, hn, heq⟩ := Option.map_eq_some_iff.mp h
    obtain ⟨heq, rfl⟩ := Prod.mk.inj heq
    cases heq
    exact ⟨stage₀, rfl, advanceRequest_move hn⟩
  | _ =>
    obtain ⟨n, hn, heq⟩ := Option.map_eq_some_iff.mp h
    cases (Prod.mk.inj heq).1

theorem sandbox_of_advance {o : Owner} {name : SandboxAction} {force : Bool} {stage : SandboxStage}
    (h : t.advance s x = some (.sandbox o name force stage, es)) :
    ∃ stage₀, t = .sandbox o name force stage₀ ∧
      advanceSandbox s o name force stage₀ x = some (stage, es) := by
  cases t with
  | sandbox o₀ name₀ force₀ stage₀ =>
    obtain ⟨n, hn, heq⟩ := Option.map_eq_some_iff.mp h
    obtain ⟨heq, rfl⟩ := Prod.mk.inj heq
    cases heq
    exact ⟨stage₀, rfl, hn⟩
  | _ =>
    obtain ⟨n, hn, heq⟩ := Option.map_eq_some_iff.mp h
    cases (Prod.mk.inj heq).1

theorem agent_of_advance {q : AgentRequest} {stage : AgentStage}
    (h : t.advance s x = some (.agent q stage, es)) :
    ∃ stage₀, t = .agent q stage₀ ∧ AgentMove s q stage₀ x (stage, es) := by
  cases t with
  | agent q₀ stage₀ =>
    obtain ⟨n, hn, heq⟩ := Option.map_eq_some_iff.mp h
    obtain ⟨heq, rfl⟩ := Prod.mk.inj heq
    cases heq
    exact ⟨stage₀, rfl, advanceAgent_move hn⟩
  | _ =>
    obtain ⟨n, hn, heq⟩ := Option.map_eq_some_iff.mp h
    cases (Prod.mk.inj heq).1

theorem cleanup_of_advance {o : Owner} {run : String} {stage : CleanupStage}
    (h : t.advance s x = some (.cleanup o run stage, es)) :
    ∃ stage₀, t = .cleanup o run stage₀ ∧ advanceCleanup s o run stage₀ x = some (stage, es) := by
  cases t with
  | cleanup o₀ run₀ stage₀ =>
    obtain ⟨n, hn, heq⟩ := Option.map_eq_some_iff.mp h
    obtain ⟨heq, rfl⟩ := Prod.mk.inj heq
    cases heq
    exact ⟨stage₀, rfl, hn⟩
  | _ =>
    obtain ⟨n, hn, heq⟩ := Option.map_eq_some_iff.mp h
    cases (Prod.mk.inj heq).1

end Task

end OpencodeCloud.Sandbox.Backend
