/-
# OpencodeCloud.Sandbox.Leases -- the four counters of the manager count its requests

The manager keeps four counters in memory: mutating requests and acquisitions by Agent, leases and event
subscriptions by sandbox. Each is changed in several places of `proxy`, `_stream_sse` and `release`, on
success and on every kind of failure. **Each is always the number of requests that are at such a stage**
(`counted_run`): nothing is counted twice and nothing is forgotten, whatever fails or is cancelled.
-/
import OpencodeCloud.Library.Tally
import OpencodeCloud.Sandbox.Steps

namespace OpencodeCloud.Sandbox.Backend

open OpencodeCloud.Library World

/-! ## What a task contributes -/

namespace RequestStage

/-- Counted as a request, if it is a mutating one. -/
def inFlight : RequestStage → Bool
  | .check | .lock | .admission | .acquiring _ | .leased _ => true
  | _ => false

/-- Has a lease. -/
def leases : RequestStage → Bool
  | .leased _ | .subscribed _ | .releasing => true
  | _ => false

/-- Its lease is that of an established event subscription. -/
def subscribes : RequestStage → Bool
  | .subscribed _ => true
  | _ => false

end RequestStage

namespace Task

/-- One, for the requests of an Agent or a user at certain stages. -/
def counts (p : Owner → RequestKind → RequestStage → Bool) : Task → Nat
  | .request o kind stage => if p o kind stage then 1 else 0
  | _ => 0

def countsRequest (a : String) : Task → Nat :=
  counts fun o kind stage => o.1 == a && kind == .mutate && stage.inFlight

def countsAcquiring (a : String) : Task → Nat := counts fun o _ stage => o.1 == a && stage.acquires

def countsLease (o : Owner) : Task → Nat := counts fun o' _ stage => o' == o && stage.leases

def countsSubscriber (o : Owner) : Task → Nat := counts fun o' _ stage => o' == o && stage.subscribes

end Task

/-- The counters are right. -/
structure State.Counted (s : State) : Prop where
  requests : ∀ a, count s.requests a = tally (Task.countsRequest a) s.tasks
  acquiring : ∀ a, count s.acquiring a = tally (Task.countsAcquiring a) s.tasks
  inUse : ∀ o, count s.inUse o = tally (Task.countsLease o) s.tasks
  subscribers : ∀ o, count s.eventSubscribers o = tally (Task.countsSubscriber o) s.tasks

/-! ## What a request changes -/

/-- The effects that change a counter. -/
def Effect.counts : Effect → Bool
  | .request _ | .respond _ | .acquiring _ | .acquired _ | .lease _ | .unlease _ | .subscribe _
  | .unsubscribe _ => true
  | _ => false

/-- A native request changes counters only. -/
theorem RequestMove.effect {s : State} {o : Owner} {kind : RequestKind} {stage : RequestStage}
    {x : Outcome} {n : RequestStage × List Effect} (h : RequestMove s o kind stage x n) {e : Effect}
    (he : e ∈ n.2) : e.counts = true := by
  have hlease : ∀ e', e'.counts = true → e ∈ managementLease kind e' → e.counts = true := by
    intro e' he' hmem
    unfold managementLease at hmem
    split at hmem
    · rw [List.mem_singleton.mp hmem]
      exact he'
    · simp at hmem
  have hrelease : e ∈ (release s o).2 → e.counts = true := by
    intro hmem
    unfold release at hmem
    split at hmem
    · rw [List.mem_singleton.mp hmem]
      rfl
    · simp at hmem
  cases h with
  | begun | failed =>
    rcases List.mem_append.mp he with he | he
    · exact hlease _ rfl he
    · rw [List.mem_singleton.mp he]
      rfl
  | finished =>
    rcases List.mem_append.mp he with he | he
    · exact hlease _ rfl he
    · exact hrelease he
  | closed =>
    rcases List.mem_cons.mp he with rfl | he
    · rfl
    · exact hrelease he
  | granted =>
    rcases List.mem_cons.mp he with rfl | he
    · rfl
    · rw [List.mem_singleton.mp he]
      rfl
  | subscribed | released =>
    rw [List.mem_singleton.mp he]
    rfl
  | refused | checked | locked | admitted | acquires => exact absurd he List.not_mem_nil

section Moves

variable {s t : State} {o : Owner} {kind : RequestKind} {stage : RequestStage} {x : Outcome}
  {n : RequestStage × List Effect} (h : RequestMove s o kind stage x n)

include h

/-- `admission.requests` changes with the stage of the request. -/
theorem RequestMove.requests {a : String}
    (hle : Task.countsRequest a (.request o kind stage) ≤ count t.requests a) :
    count (t.applyAll n.2).requests a + Task.countsRequest a (.request o kind stage) =
      count t.requests a + Task.countsRequest a (.request o kind n.1) := by
  cases h with
  | failed hstage =>
    cases stage <;> cases hstage <;> by_cases ha : o.1 = a <;> cases kind <;>
      simp_all [Task.countsRequest, Task.counts, RequestStage.inFlight, giveUp, managementLease,
        State.apply, count_decrement]
  | finished | closed =>
    unfold release
    split <;> by_cases ha : o.1 = a <;> cases kind <;>
      simp_all [Task.countsRequest, Task.counts, RequestStage.inFlight, managementLease,
        State.apply, count_decrement]
  | _ =>
    by_cases ha : o.1 = a <;> cases kind <;>
      simp_all [Task.countsRequest, Task.counts, RequestStage.inFlight, managementLease,
        State.apply, count_increment]

/-- `admission.acquiring` changes with the stage of the request. -/
theorem RequestMove.acquiringCount {a : String}
    (hle : Task.countsAcquiring a (.request o kind stage) ≤ count t.acquiring a) :
    count (t.applyAll n.2).acquiring a + Task.countsAcquiring a (.request o kind stage) =
      count t.acquiring a + Task.countsAcquiring a (.request o kind n.1) := by
  cases h with
  | failed hstage =>
    cases stage <;> cases hstage <;> by_cases ha : o.1 = a <;> cases kind <;>
      simp_all [Task.countsAcquiring, Task.counts, RequestStage.acquires, giveUp, managementLease,
        State.apply, count_decrement]
  | finished | closed =>
    unfold release
    split <;> by_cases ha : o.1 = a <;> cases kind <;>
      simp_all [Task.countsAcquiring, Task.counts, RequestStage.acquires, managementLease,
        State.apply]
  | granted =>
    by_cases ha : o.1 = a <;>
      simp_all [Task.countsAcquiring, Task.counts, RequestStage.acquires, State.apply,
        count_decrement]
  | _ =>
    by_cases ha : o.1 = a <;> cases kind <;>
      simp_all [Task.countsAcquiring, Task.counts, RequestStage.acquires, managementLease,
        State.apply, count_increment]

/-- `in_use` changes with the stage of the request. -/
theorem RequestMove.inUse {p : Owner}
    (hle : Task.countsLease p (.request o kind stage) ≤ count t.inUse p) :
    count (t.applyAll n.2).inUse p + Task.countsLease p (.request o kind stage) =
      count t.inUse p + Task.countsLease p (.request o kind n.1) := by
  cases h with
  | failed hstage =>
    cases stage <;> cases hstage <;> cases kind <;>
      simp_all [Task.countsLease, Task.counts, RequestStage.leases, giveUp, managementLease,
        State.apply]
  | finished | closed =>
    unfold release
    split <;> by_cases ho : o = p <;> cases kind <;>
      simp_all [Task.countsLease, Task.counts, RequestStage.leases, managementLease, State.apply,
        count_drop]
  | released =>
    by_cases ho : o = p <;>
      simp_all [Task.countsLease, Task.counts, RequestStage.leases, State.apply, count_drop]
  | _ =>
    by_cases ho : o = p <;> cases kind <;>
      simp_all [Task.countsLease, Task.counts, RequestStage.leases, managementLease, State.apply,
        count_increment]

/-- `event_subscribers` changes with the stage of the request. -/
theorem RequestMove.subscribers {p : Owner}
    (hle : Task.countsSubscriber p (.request o kind stage) ≤ count t.eventSubscribers p) :
    count (t.applyAll n.2).eventSubscribers p + Task.countsSubscriber p (.request o kind stage) =
      count t.eventSubscribers p + Task.countsSubscriber p (.request o kind n.1) := by
  cases h with
  | failed hstage =>
    cases stage <;> cases hstage <;> cases kind <;>
      simp_all [Task.countsSubscriber, Task.counts, RequestStage.subscribes, giveUp,
        managementLease, State.apply]
  | finished | closed =>
    unfold release
    split <;> by_cases ho : o = p <;> cases kind <;>
      simp_all [Task.countsSubscriber, Task.counts, RequestStage.subscribes, managementLease,
        State.apply, count_drop]
  | _ =>
    by_cases ho : o = p <;> cases kind <;>
      simp_all [Task.countsSubscriber, Task.counts, RequestStage.subscribes, managementLease,
        State.apply, count_increment]

end Moves

/-! ## The other tasks leave the counters alone -/

/-- None of the effects changes a counter. -/
def Uncounted (es : List Effect) : Prop := ∀ e ∈ es, e.counts = false

theorem Effect.counters_apply {e : Effect} (h : e.counts = false) (s : State) :
    (s.apply e).requests = s.requests ∧ (s.apply e).acquiring = s.acquiring ∧
      (s.apply e).inUse = s.inUse ∧ (s.apply e).eventSubscribers = s.eventSubscribers := by
  cases e <;> first | exact ⟨rfl, rfl, rfl, rfl⟩ | cases h

theorem advanceSandbox_uncounted {s : State} {o : Owner} {name : SandboxAction} {force : Bool}
    {stage : SandboxStage} {x : Outcome} {n : SandboxStage × List Effect}
    (h : advanceSandbox s o name force stage x = some n) : Uncounted n.2 := by
  intro e he
  rcases advanceSandbox_effect h he with rfl | ⟨image, rfl⟩ <;> rfl

theorem advanceAgent_uncounted {s : State} {q : AgentRequest} {stage : AgentStage} {x : Outcome}
    {n : AgentStage × List Effect} (h : advanceAgent s q stage x = some n) : Uncounted n.2 := by
  intro e he
  cases (advanceAgent_move h).effect he <;> rfl

theorem advanceCleanup_uncounted {s : State} {o : Owner} {run : String} {stage : CleanupStage}
    {x : Outcome} {n : CleanupStage × List Effect} (h : advanceCleanup s o run stage x = some n) :
    Uncounted n.2 := by
  intro e he
  rcases advanceCleanup_effect h he with ⟨o', rfl⟩ | rfl <;> rfl

/-! ## Every run -/

theorem State.Counted.initial (image : String) : (State.initial image).Counted :=
  ⟨fun _ => by simp [State.initial], fun _ => by simp [State.initial],
    fun _ => by simp [State.initial], fun _ => by simp [State.initial]⟩

theorem State.counters_conclude (s : State) (call : Option Call) (x : Outcome) :
    (s.conclude call x).requests = s.requests ∧ (s.conclude call x).acquiring = s.acquiring ∧
      (s.conclude call x).inUse = s.inUse ∧
      (s.conclude call x).eventSubscribers = s.eventSubscribers := by
  unfold conclude
  split <;> exact ⟨rfl, rfl, rfl, rfl⟩

/-- A task other than a request takes a step. -/
theorem State.Counted.other {s : State} {i : Nat} {u u' : Task} {es : List Effect} {x : Outcome}
    (h : s.Counted) (hu : s.tasks[i]? = some u) (hes : Uncounted es)
    (hcount : ∀ p, u.counts p = 0) (hcount' : ∀ p, u'.counts p = 0) :
    State.Counted { (s.conclude u.call x).applyAll es with tasks := s.tasks.set i u' } := by
  have htally : ∀ p, tally (Task.counts p) (s.tasks.set i u') = tally (Task.counts p) s.tasks := by
    intro p
    have := tally_set (f := Task.counts p) (y := u') hu
    rw [hcount, hcount'] at this
    omega
  obtain ⟨hr, ha, hl, hs⟩ := s.counters_conclude u.call x
  refine ⟨fun a => ?_, fun a => ?_, fun o => ?_, fun o => ?_⟩
  · rw [applyAll_frame_of State.requests fun e he s => (Effect.counters_apply (hes e he) s).1, hr]
    exact (h.requests a).trans (htally _).symm
  · rw [applyAll_frame_of State.acquiring fun e he s => (Effect.counters_apply (hes e he) s).2.1, ha]
    exact (h.acquiring a).trans (htally _).symm
  · rw [applyAll_frame_of State.inUse fun e he s => (Effect.counters_apply (hes e he) s).2.2.1, hl]
    exact (h.inUse o).trans (htally _).symm
  · rw [applyAll_frame_of State.eventSubscribers
      fun e he s => (Effect.counters_apply (hes e he) s).2.2.2, hs]
    exact (h.subscribers o).trans (htally _).symm

/-- A native request takes a step. -/
theorem State.Counted.request {s : State} {i : Nat} {o : Owner} {kind : RequestKind}
    {stage : RequestStage} {x : Outcome} {n : RequestStage × List Effect} (h : s.Counted)
    (hu : s.tasks[i]? = some (.request o kind stage)) (hn : RequestMove s o kind stage x n)
    (call : Option Call) :
    State.Counted
      { (s.conclude call x).applyAll n.2 with tasks := s.tasks.set i (.request o kind n.1) } := by
  have hmem := List.mem_of_getElem? hu
  obtain ⟨hr, ha, hl, hs⟩ := s.counters_conclude call x
  refine ⟨fun a => ?_, fun a => ?_, fun o' => ?_, fun o' => ?_⟩
  · have hset := tally_set (f := Task.countsRequest a) (y := .request o kind n.1) hu
    have hstep := hn.requests (t := s.conclude call x) (a := a)
      (by rw [hr, h.requests]; exact le_tally hmem)
    rw [hr, h.requests] at hstep
    show count ((s.conclude call x).applyAll n.2).requests a =
      tally (Task.countsRequest a) (s.tasks.set i (.request o kind n.1))
    omega
  · have hset := tally_set (f := Task.countsAcquiring a) (y := .request o kind n.1) hu
    have hstep := hn.acquiringCount (t := s.conclude call x) (a := a)
      (by rw [ha, h.acquiring]; exact le_tally hmem)
    rw [ha, h.acquiring] at hstep
    show count ((s.conclude call x).applyAll n.2).acquiring a =
      tally (Task.countsAcquiring a) (s.tasks.set i (.request o kind n.1))
    omega
  · have hset := tally_set (f := Task.countsLease o') (y := .request o kind n.1) hu
    have hstep := hn.inUse (t := s.conclude call x) (p := o')
      (by rw [hl, h.inUse]; exact le_tally hmem)
    rw [hl, h.inUse] at hstep
    show count ((s.conclude call x).applyAll n.2).inUse o' =
      tally (Task.countsLease o') (s.tasks.set i (.request o kind n.1))
    omega
  · have hset := tally_set (f := Task.countsSubscriber o') (y := .request o kind n.1) hu
    have hstep := hn.subscribers (t := s.conclude call x) (p := o')
      (by rw [hs, h.subscribers]; exact le_tally hmem)
    rw [hs, h.subscribers] at hstep
    show count ((s.conclude call x).applyAll n.2).eventSubscribers o' =
      tally (Task.countsSubscriber o') (s.tasks.set i (.request o kind n.1))
    omega

/-- A new task counts for nothing yet. -/
theorem State.Counted.arrive {s : State} {u : Task} (h : s.Counted) (hu : u.Arrives) :
    State.Counted { s with tasks := s.tasks ++ [u] } := by
  refine ⟨fun a => ?_, fun a => ?_, fun o => ?_, fun o => ?_⟩
  · simpa [tally_append, h.requests a] using by
      cases hu <;> simp [Task.countsRequest, Task.counts, RequestStage.inFlight]
  · simpa [tally_append, h.acquiring a] using by
      cases hu <;> simp [Task.countsAcquiring, Task.counts, RequestStage.acquires]
  · simpa [tally_append, h.inUse o] using by
      cases hu <;> simp [Task.countsLease, Task.counts, RequestStage.leases]
  · simpa [tally_append, h.subscribers o] using by
      cases hu <;> simp [Task.countsSubscriber, Task.counts, RequestStage.subscribes]

theorem State.Counted.step {s s' : State} {e : Event} (h : s.Counted) (hstep : s.step e = some s') :
    s'.Counted := by
  cases e with
  | step i x =>
    obtain ⟨t, t', es, ht, hadvance, -, rfl⟩ := step_task hstep
    cases t with
    | request o kind stage =>
      obtain ⟨n, hn, heq⟩ := Option.map_eq_some_iff.mp hadvance
      obtain ⟨rfl, rfl⟩ := Prod.mk.inj heq
      exact h.request ht (advanceRequest_move hn) _
    | sandbox o name force stage =>
      obtain ⟨n, hn, heq⟩ := Option.map_eq_some_iff.mp hadvance
      obtain ⟨rfl, rfl⟩ := Prod.mk.inj heq
      exact h.other ht (advanceSandbox_uncounted hn) (fun _ => rfl) fun _ => rfl
    | agent q stage =>
      obtain ⟨n, hn, heq⟩ := Option.map_eq_some_iff.mp hadvance
      obtain ⟨rfl, rfl⟩ := Prod.mk.inj heq
      exact h.other ht (advanceAgent_uncounted hn) (fun _ => rfl) fun _ => rfl
    | cleanup o run stage =>
      obtain ⟨n, hn, heq⟩ := Option.map_eq_some_iff.mp hadvance
      obtain ⟨rfl, rfl⟩ := Prod.mk.inj heq
      exact h.other ht (advanceCleanup_uncounted hn) (fun _ => rfl) fun _ => rfl
  | late k =>
    simp only [State.step, Option.bind_eq_bind, Option.bind_eq_some_iff, Option.pure_def] at hstep
    obtain ⟨call, -, hstep⟩ := hstep
    obtain rfl := Option.some.inj hstep
    exact ⟨h.requests, h.acquiring, h.inUse, h.subscribers⟩
  | agentAction q =>
    simp only [State.step] at hstep
    split at hstep
    next hallowed =>
      obtain rfl := Option.some.inj hstep
      exact h.arrive (.agent q hallowed)
    next => cases hstep
  | request o kind =>
    obtain rfl := Option.some.inj hstep
    exact h.arrive (.request o kind)
  | sandboxAction o name force =>
    obtain rfl := Option.some.inj hstep
    exact h.arrive (.sandbox o name force)
  | cleanup o run =>
    obtain rfl := Option.some.inj hstep
    exact h.arrive (.cleanup o run)
  | publish a d | container o status | sessions o ids | statuses o directory group =>
    obtain rfl := Option.some.inj hstep
    exact ⟨h.requests, h.acquiring, h.inUse, h.subscribers⟩

/-- **The counters count the requests, in every run.** -/
theorem counted_run {image : String} {is : List Event} {s : State}
    (h : manager.run (.initial image) is = some s) : s.Counted :=
  manager.run_always (fun _ _ _ hs hstep => hs.step hstep) (State.Counted.initial image) h

/-- A counter at zero: no request is at such a stage. -/
theorem not_of_tally_eq_zero {p : Owner → RequestKind → RequestStage → Bool} {s : State}
    (h : tally (Task.counts p) s.tasks = 0) {i : Nat} {o : Owner} {kind : RequestKind}
    {stage : RequestStage} (ht : s.tasks[i]? = some (.request o kind stage)) :
    p o kind stage = false := by
  have hle := le_tally (f := Task.counts p) (List.mem_of_getElem? ht)
  rw [h] at hle
  by_contra hp
  rw [Bool.not_eq_false] at hp
  simp [Task.counts, hp] at hle

end OpencodeCloud.Sandbox.Backend
