/-
# OpencodeCloud.Operations.Recovery -- automatic recoveries are bounded

`Recovery.tick` in the steps between its calls, next to everything else the operations service does: the
listing and the catalog are read at the start, each sandbox that is not skipped is looked at after a call
of its own, and what is remembered of it (`recovery:<sandbox>`) is changed there. The job is submitted to
the same store that all other jobs go through.

What a tick makes of a sandbox is a note: it was ready, it was unwell, or a recovery was made. The
abstract side is about lists of notes. `Regular` says that every recovery was due by the notes before
it, and from that follow the limits: the recoveries in any window of time (`Regular.window`) and the time
between two of them (`Regular.backoff`). The memory of the code is the summary of the notes
(`Remembers`), so that every run is regular (`recoveries_bounded`).
-/
import Mathlib
import OpencodeCloud.Catalog.Models
import OpencodeCloud.Operations.Steps
import OpencodeCloud.Library.Throttle

namespace OpencodeCloud.Operations.Recovery

open OpencodeCloud.Library OpencodeCloud.Catalog

/-! ## §A The policy and what it means -/

/-- `RecoveryPolicy`, with the bounds of its fields. -/
structure Policy where
  enabled : Bool
  failureThreshold : Nat
  maxAttempts : Nat
  windowSeconds : Nat
  backoffSeconds : List Nat
  stableSeconds : Nat
  agentEnabled : Dict String Bool
  maxParallelRecoveries : Nat
  threshold_bounds : 1 ≤ failureThreshold ∧ failureThreshold ≤ 20
  attempts_bounds : 1 ≤ maxAttempts ∧ maxAttempts ≤ 10
  window_bounds : 60 ≤ windowSeconds ∧ windowSeconds ≤ 86400
  backoff_bounds : 1 ≤ backoffSeconds.length ∧ backoffSeconds.length ≤ 10 ∧
    ∀ v ∈ backoffSeconds, 1 ≤ v ∧ v ≤ 3600
  stable_bounds : 30 ≤ stableSeconds ∧ stableSeconds ≤ 3600
  parallel_bounds : 1 ≤ maxParallelRecoveries ∧ maxParallelRecoveries ≤ 2

/-- `backoff_seconds[min(len(attempts), len(backoff_seconds) - 1)]`. -/
def Policy.backoff (p : Policy) (attempts : Nat) : ℚ :=
  ((p.backoffSeconds[min attempts (p.backoffSeconds.length - 1)]?).getD 0 : Nat)

/-- What a tick makes of a sandbox, and when. -/
inductive Note where
  | ready (t : ℚ)
  /-- unhealthy, or missing -/
  | unwell (t : ℚ)
  /-- a recovery was made -/
  | recovered (t : ℚ)
  deriving DecidableEq

/-- What the notes on a sandbox come to. -/
structure Summary where
  /-- how often it was unwell since it was last ready -/
  unwell : Nat
  /-- when it was first ready since it was last unwell -/
  since : Option ℚ
  /-- the recoveries since it was last ready for `stable_seconds` -/
  recoveries : List ℚ
  /-- no other recovery before this time -/
  due : ℚ

def Summary.empty : Summary := ⟨0, none, [], 0⟩

def Summary.add (p : Policy) (x : Summary) : Note → Summary
  | .ready t =>
    let since := x.since.getD t
    let stable := decide ((p.stableSeconds : ℚ) ≤ t - since)
    ⟨0, some since, if stable then [] else x.recoveries, if stable then 0 else x.due⟩
  | .unwell _ => { x with unwell := x.unwell + 1, since := none }
  | .recovered t =>
    { x with
      recoveries := x.recoveries ++ [t]
      due := t + p.backoff (recent (p.windowSeconds : ℚ) t x.recoveries).length }

def summary (p : Policy) (notes : List Note) : Summary := notes.foldl (Summary.add p) .empty

@[simp] theorem summary_concat (p : Policy) (notes : List Note) (n : Note) :
    summary p (notes ++ [n]) = (summary p notes).add p n := by
  simp [summary]

/-- The times of the recoveries. -/
def times (notes : List Note) : List ℚ :=
  notes.filterMap fun
    | .recovered t => some t
    | _ => none

@[simp] theorem times_append (notes notes' : List Note) :
    times (notes ++ notes') = times notes ++ times notes' :=
  List.filterMap_append ..

/-- Somewhere in the notes the sandbox was ready twice, at least `stable_seconds` apart, and not unwell
in between. -/
def Stable (p : Policy) (notes : List Note) : Prop :=
  ∃ a t₁ b t₂ c, notes = a ++ .ready t₁ :: (b ++ .ready t₂ :: c) ∧
    (p.stableSeconds : ℚ) ≤ t₂ - t₁ ∧ ∀ t, .unwell t ∉ b

/-- A recovery is allowed by the notes before it. -/
structure Summary.Allows (p : Policy) (x : Summary) (t : ℚ) : Prop where
  unready : x.since = none
  threshold : p.failureThreshold ≤ x.unwell
  due : x.due ≤ t
  few : (recent (p.windowSeconds : ℚ) t x.recoveries).length < p.maxAttempts

/-- Every recovery was allowed. -/
def Regular (p : Policy) (notes : List Note) : Prop :=
  ∀ before t after, notes = before ++ .recovered t :: after → (summary p before).Allows p t

section Notes

variable {p : Policy} {notes seg before after : List Note} {t : ℚ}

theorem Regular.nil : Regular p [] := by
  intro before t after h
  simp at h

theorem Regular.concat {n : Note} (h : Regular p notes)
    (hn : ∀ t, n = .recovered t → (summary p notes).Allows p t) : Regular p (notes ++ [n]) := by
  intro before t after hsplit
  rcases List.eq_nil_or_concat after with rfl | ⟨rest, m, rfl⟩
  · obtain ⟨rfl, hlast⟩ := List.append_inj' hsplit rfl
    exact hn t (by simpa using hlast)
  · have hcons : before ++ .recovered t :: rest.concat m = (before ++ .recovered t :: rest) ++ [m] := by
      simp
    rw [hcons] at hsplit
    exact h before t rest (List.append_inj' hsplit rfl).1

theorem Regular.front (h : Regular p (notes ++ seg)) : Regular p notes := by
  intro before t after hsplit
  refine h before t (after ++ seg) ?_
  rw [hsplit]
  simp

theorem Stable.append (h : Stable p seg) (before after : List Note) :
    Stable p (before ++ seg ++ after) := by
  obtain ⟨a, t₁, b, t₂, c, rfl, hlong, hwell⟩ := h
  exact ⟨before ++ a, t₁, b, t₂, c ++ after, by simp, hlong, hwell⟩

theorem stable_of_front (h : Stable p seg) (n : Note) : Stable p (seg ++ [n]) := by
  simpa using h.append [] [n]

/-- **Since when** the sandbox is ready: after a recovery, since a note that came after it. -/
theorem Regular.since (h : Regular p (notes ++ seg)) (hseg : times seg ≠ []) {t₁ : ℚ}
    (hsince : (summary p (notes ++ seg)).since = some t₁) :
    ∃ a b, seg = a ++ .ready t₁ :: b ∧ ∀ t, .unwell t ∉ b := by
  induction seg using List.reverseRecOn generalizing t₁ with
  | nil => exact absurd rfl hseg
  | append_singleton seg n ih =>
    rw [← List.append_assoc] at h hsince
    rw [summary_concat] at hsince
    cases n with
    | unwell t => cases hsince
    | recovered t =>
      have hnone := (h (notes ++ seg) t [] rfl).unready
      rw [Summary.add, hnone] at hsince
      cases hsince
    | ready t =>
      rw [times_append] at hseg
      have hseg' : times seg ≠ [] := by simpa [times] using hseg
      cases hold : (summary p (notes ++ seg)).since with
      | none =>
        simp only [Summary.add, hold, Option.getD_none, Option.some.injEq] at hsince
        subst hsince
        exact ⟨seg, [], by simp, by simp⟩
      | some t₂ =>
        simp only [Summary.add, hold, Option.getD_some, Option.some.injEq] at hsince
        subst hsince
        obtain ⟨a, b, rfl, hwell⟩ := ih h.front hseg' hold
        refine ⟨a, b ++ [.ready t], by simp, fun u hu => ?_⟩
        rcases List.mem_append.mp hu with hu | hu
        · exact hwell u hu
        · simp at hu

/-- A reset after a recovery of the stretch makes the stretch a stable one. -/
theorem Regular.stable_of_reset (h : Regular p (notes ++ seg)) (hseg : times seg ≠ [])
    (hlong : (p.stableSeconds : ℚ) ≤ t - (summary p (notes ++ seg)).since.getD t) :
    Stable p (seg ++ [.ready t]) := by
  cases hsince : (summary p (notes ++ seg)).since with
  | none =>
    rw [hsince, Option.getD_none, sub_self] at hlong
    have hpos : (30 : ℚ) ≤ p.stableSeconds := by exact_mod_cast p.stable_bounds.1
    linarith
  | some t₁ =>
    obtain ⟨a, b, rfl, hwell⟩ := h.since hseg hsince
    rw [hsince, Option.getD_some] at hlong
    exact ⟨a, t₁, b, t, [], by simp, hlong, hwell⟩

/-- **Without a stable stretch** no recovery is forgotten. -/
theorem Regular.recoveries (h : Regular p (notes ++ seg)) (hstable : ¬Stable p seg) :
    ∃ old, (summary p (notes ++ seg)).recoveries = old ++ times seg := by
  induction seg using List.reverseRecOn with
  | nil => exact ⟨(summary p notes).recoveries, by simp [times]⟩
  | append_singleton seg n ih =>
    rw [← List.append_assoc] at h ⊢
    obtain ⟨old, hold⟩ := ih h.front fun hs => hstable (stable_of_front hs n)
    rw [summary_concat]
    cases n with
    | unwell t => exact ⟨old, by simp [Summary.add, hold, times]⟩
    | recovered t => exact ⟨old, by simp [Summary.add, hold, times]⟩
    | ready t =>
      by_cases hlong : (p.stableSeconds : ℚ) ≤ t - (summary p (notes ++ seg)).since.getD t
      · by_cases hseg : times seg = []
        · exact ⟨[], by simp [Summary.add, hlong, times] at hseg ⊢; exact hseg⟩
        · exact absurd (h.front.stable_of_reset hseg hlong) hstable
      · exact ⟨old, by simp [Summary.add, hold, hlong, times]⟩

/-- **The window**: a stretch of the notes without a stable one has at most `max_attempts` recoveries in
every half-open window of `window_seconds`. -/
theorem Regular.window (h : Regular p (notes ++ seg)) (hstable : ¬Stable p seg) (x : ℚ) :
    (times seg).countP (fun t => decide (x ≤ t ∧ t < x + p.windowSeconds)) ≤ p.maxAttempts := by
  have hpaced : Paced (p.windowSeconds : ℚ) p.maxAttempts (times seg) := by
    induction seg using List.reverseRecOn with
    | nil => exact Paced.nil _ _
    | append_singleton seg n ih =>
      rw [← List.append_assoc] at h
      have hfront : ¬Stable p seg := fun hs => hstable (stable_of_front hs n)
      have hpaced := ih h.front hfront
      rw [times_append]
      cases n with
      | unwell t => simpa [times] using hpaced
      | ready t => simpa [times] using hpaced
      | recovered t =>
        refine hpaced.concat (lt_of_le_of_lt ?_ (h (notes ++ seg) t [] rfl).few)
        obtain ⟨old, hold⟩ := h.front.recoveries hfront
        rw [hold]
        exact recent_sublist (List.sublist_append_right old _)
  exact hpaced.countP_le x

theorem stable_of_cons (h : Stable p (.recovered t :: seg)) : Stable p seg := by
  obtain ⟨a, t₁, b, t₂, c, hseg, hlong, hwell⟩ := h
  cases a with
  | nil => cases hseg
  | cons n a =>
    obtain ⟨rfl, rfl⟩ := List.cons.inj hseg
    exact ⟨a, t₁, b, t₂, c, rfl, hlong, hwell⟩

/-- Without a recovery and a stable stretch the next one is due when the last one said. -/
theorem Regular.due_after {t₁ : ℚ} (h : Regular p (before ++ .recovered t₁ :: seg))
    (hnone : times seg = []) (hstable : ¬Stable p seg) :
    (summary p (before ++ .recovered t₁ :: seg)).due =
      t₁ + p.backoff (recent (p.windowSeconds : ℚ) t₁ (summary p before).recoveries).length := by
  induction seg using List.reverseRecOn with
  | nil => simp [summary, Summary.add]
  | append_singleton seg n ih =>
    have hcons : before ++ .recovered t₁ :: (seg ++ [n]) = (before ++ .recovered t₁ :: seg) ++ [n] := by
      simp
    rw [hcons] at h ⊢
    rw [times_append, List.append_eq_nil_iff] at hnone
    have hold := ih h.front hnone.1 fun hs => hstable (stable_of_front hs n)
    rw [summary_concat]
    cases n with
    | unwell t => exact hold
    | recovered t => simp [times] at hnone
    | ready t =>
      by_cases hlong : (p.stableSeconds : ℚ) ≤
          t - (summary p (before ++ .recovered t₁ :: seg)).since.getD t
      · refine absurd (stable_of_cons (t := t₁) ?_) hstable
        rw [← List.cons_append]
        exact h.front.stable_of_reset (by simp [times]) hlong
      · simp only [Summary.add, hlong, decide_false, Bool.false_eq_true, if_false]
        exact hold

/-- **The backoff**: two recoveries one after the other, without a stable stretch in between, are as far
apart as the backoff of the first one says. -/
theorem Regular.backoff {t₁ t₂ : ℚ}
    (h : Regular p (before ++ .recovered t₁ :: (seg ++ .recovered t₂ :: after)))
    (hnone : times seg = []) (hstable : ¬Stable p seg) :
    t₁ + p.backoff (recent (p.windowSeconds : ℚ) t₁ (summary p before).recoveries).length ≤ t₂ := by
  have hdue := (h (before ++ .recovered t₁ :: seg) t₂ after (by simp)).due
  have hfront : Regular p (before ++ .recovered t₁ :: seg) := by
    refine @Regular.front p _ (.recovered t₂ :: after) ?_
    simpa using h
  rw [hfront.due_after hnone hstable] at hdue
  exact hdue

end Notes

/-! ## §B One sandbox in a tick -/

/-- `recovery:<sandbox>`; a key that is not there has its default. -/
structure Memory where
  failures : Nat
  attempts : List ℚ
  nextAttempt : ℚ
  healthySince : Option ℚ
  reason : Option String
  execution : Option String
  containerId : Option String
  activityGeneration : Option String

def Memory.empty : Memory := ⟨0, [], 0, none, none, none, none, none⟩

/-- What the listing says of a sandbox. -/
structure Record where
  agentId : String
  sandboxId : String
  username : String
  containerId : Option String
  status : String

/-- What the call for one sandbox answers. -/
structure Detail where
  execution : Option String
  activityGeneration : Option String

/-- The statuses of a job that keep a tick away from its Agent; `interrupted` is not among them. -/
def holdsTick : Status → Bool
  | .queued | .running | .waiting | .applying | .needsRecovery => true
  | _ => false

/-- The conditions of the first `continue`s. -/
def skipped (p : Policy) (agents : Dict String Lifecycle) (s : Store) (r : Record) : Bool :=
  startsWith r.username "loadtest-" || !present r.containerId ||
    !(p.agentEnabled.lookup r.agentId).getD true ||
    (agents.lookup r.agentId == some .archived || agents.lookup r.agentId == some .deleting) ||
    s.desired.lookup r.sandboxId == some .stopped ||
    (s.desired.lookup r.sandboxId == some .onDemand && !present r.containerId) ||
    s.jobs.any fun _ j => (j.scope == r.agentId || j.scope == everyAgent) && holdsTick j.status

/-- `idle`: now, or when it was last seen ready and nothing has happened since. -/
def idle (m : Memory) (r : Record) (d : Detail) : Bool :=
  d.execution == some "idle" ||
    (m.execution == some "idle" && m.containerId == r.containerId && m.activityGeneration.isSome &&
      m.activityGeneration == d.activityGeneration)

inductive Verdict where
  | keep
  /-- a recovery is to be made; the attempts within the window -/
  | recover (attempts : List ℚ)

/-- What a tick makes of a sandbox up to the submission: the memory, the note and the verdict. -/
def consider (p : Policy) (m : Memory) (r : Record) (d : Detail) (now : ℚ) :
    Memory × Option Note × Verdict :=
  if r.status = "ready" then
    -- `state.get("healthy_since") or now`
    let since := (m.healthySince.filter (· != 0)).getD now
    let m := { m with
      failures := 0
      healthySince := some since
      reason := none
      execution := some (d.execution.getD "unknown")
      containerId := r.containerId
      activityGeneration := d.activityGeneration }
    (if (p.stableSeconds : ℚ) ≤ now - since then { m with attempts := [], nextAttempt := 0 } else m,
      some (.ready now), .keep)
  else if r.status ≠ "unhealthy" ∧ r.status ≠ "missing" then (m, none, .keep)
  else
    let failures := m.failures + 1
    let m' := { m with failures := failures, healthySince := none }
    if failures < p.failureThreshold ∨ now < m.nextAttempt then (m', some (.unwell now), .keep)
    else
      let attempts := recent (p.windowSeconds : ℚ) now m.attempts
      if p.maxAttempts ≤ attempts.length then
        ({ m' with reason := some "Recovery limit reached; manual intervention required" },
          some (.unwell now), .keep)
      else if !idle m r d then
        ({ m' with reason := some "Execution is busy or unknown; automatic restart skipped" },
          some (.unwell now), .keep)
      else (m', some (.unwell now), .recover attempts)

/-- What is remembered after a recovery was made. -/
def Memory.recovered (p : Policy) (m : Memory) (attempts : List ℚ) (now : ℚ) : Memory :=
  { m with
    attempts := attempts ++ [now]
    nextAttempt := now + p.backoff attempts.length
    reason := some "Recovery queued" }

/-! ## §C The service with its recovery loop -/

structure Tick where
  /-- the records that are left -/
  records : List Record
  agents : Dict String Lifecycle
  /-- the recovery jobs that were under way, and those made since -/
  active : List String
  /-- the call for the first record is on its way -/
  asking : Bool

/-- The notes are history: what the ticks made of each sandbox, in order. -/
structure State where
  sys : System
  memory : Dict String Memory
  tick : Option Tick
  clock : ℚ
  notes : Dict String (List Note)
  /-- the clock counts from an epoch in the past -/
  positive : 0 < clock

namespace State

def recollect (s : State) (sid : String) : Memory := (s.memory.lookup sid).getD .empty

def noted (s : State) (sid : String) : List Note := (s.notes.lookup sid).getD []

def initial (start : ℚ) (positive : 0 < start) : State :=
  ⟨System.initial, ∅, none, start, ∅, positive⟩

end State

/-- The recovery jobs that are queued, running, waiting or applying. -/
def recovering (s : Store) : List String :=
  (s.jobs.filter fun _ j => j.kind == .sandboxRecover && j.status.inProgress).keys

inductive Event where
  /-- a tick has its listing and the catalog -/
  | begin (records : List Record) (agents : Dict String Lifecycle)
  /-- the next record: skipped, or asked for -/
  | next
  /-- the answer, the clock, the id of a new job and `time.time_ns()` -/
  | detail (d : Detail) (now : ℚ) (jid : String) (ns : Nat)
  /-- the tick ends: a call failed, or it was cancelled -/
  | abort
  /-- anything else in the service -/
  | service (e : Operations.Event)

/-- The routes submit no recovery. -/
def external : Operations.Event → Bool
  | .submit _ _ kind _ _ _ _ => kind != .sandboxRecover
  | _ => true

section Steps

variable (p : Policy)

/-- The submission of a recovery. -/
def submission (r : Record) (d : Detail) (jid : String) (ns : Nat) : Operations.Event :=
  .submit jid "" .sandboxRecover r.sandboxId r.agentId
    ⟨⟨some ("recovery-" ++ toString ns), none, none, none, none, none, r.containerId,
      d.activityGeneration⟩, false, none⟩ none

namespace State

/-- Remember something of a sandbox, and note it. -/
def remember (s : State) (sid : String) (m : Memory) (ns : List Note) : State :=
  { s with memory := s.memory.insert sid m, notes := s.notes.insert sid (s.noted sid ++ ns) }

def look (s : State) (k : Tick) (r : Record) (rest : List Record) (d : Detail) (now : ℚ)
    (jid : String) (ns : Nat) : Option State :=
  let considered := consider p (s.recollect r.sandboxId) r d now
  let s := s.remember r.sandboxId considered.1 considered.2.1.toList
  let k := { k with records := rest, asking := false }
  match considered.2.2 with
  | .keep => some { s with tick := some k }
  | .recover attempts =>
    if p.maxParallelRecoveries ≤ k.active.length then
      -- `break`
      some { s with tick := none }
    else do
      let sys ← s.sys.step (submission r d jid ns)
      if jid ∈ sys.store.jobs then
        let m := considered.1.recovered p attempts now
        return { s.remember r.sandboxId m [.recovered now] with
          sys := sys
          tick := some { k with active := k.active ++ [jid] } }
      else
        -- refused, or a replay of the same request
        return { s with tick := some k }

def step (s : State) : Event → Option State
  | .begin records agents =>
    if p.enabled && s.tick.isNone then
      some { s with tick := some ⟨records, agents, recovering s.sys.store, false⟩ }
    else none
  | .next => do
    let k ← s.tick
    if k.asking then none
    else
      match k.records with
      | [] => some { s with tick := none }
      | r :: rest =>
        if skipped p k.agents s.sys.store r then some { s with tick := some { k with records := rest } }
        else some { s with tick := some { k with asking := true } }
  | .detail d now jid ns => do
    let k ← s.tick
    if h : s.clock ≤ now then
      match k.asking, k.records with
      | true, r :: rest =>
        look p { s with clock := now, positive := lt_of_lt_of_le s.positive h } k r rest d now jid ns
      | _, _ => none
    else none
  | .abort => if s.tick.isSome then some { s with tick := none } else none
  | .service e => do
    if !external e then none
    else
      let sys ← s.sys.step e
      return { s with
        sys := sys
        tick := match e with
          | .restart => none
          | _ => s.tick }

end State

/-- The service and its loop. -/
def loop : Machine State Event := ⟨State.step p⟩

end Steps

/-! ## §D The memory is the summary of the notes -/

section Memory

variable {p : Policy} {notes : List Note} {m : Memory} {clock now : ℚ} {r : Record} {d : Detail}

/-- What is remembered of a sandbox says what its notes come to, from `clock` on. -/
structure Remembers (p : Policy) (notes : List Note) (m : Memory) (clock : ℚ) : Prop where
  failures : m.failures = (summary p notes).unwell
  since : m.healthySince = (summary p notes).since
  positive : ∀ t, m.healthySince = some t → 0 < t
  attempts : ∀ t, clock ≤ t → recent (p.windowSeconds : ℚ) t m.attempts =
    recent (p.windowSeconds : ℚ) t (summary p notes).recoveries
  due : m.nextAttempt = (summary p notes).due

theorem Remembers.empty : Remembers p [] .empty clock :=
  ⟨rfl, rfl, nofun, fun _ _ => rfl, rfl⟩

theorem Remembers.mono (h : Remembers p notes m clock) (hnow : clock ≤ now) :
    Remembers p notes m now :=
  { h with attempts := fun t ht => h.attempts t (le_trans hnow ht) }

/-- A ready sandbox is remembered as such. -/
theorem Remembers.ready (h : Remembers p notes m clock) (hnow : clock ≤ now) (hpos : 0 < now)
    (hready : r.status = "ready") : (consider p m r d now).2 = (some (.ready now), .keep) ∧
      Remembers p (notes ++ [.ready now]) (consider p m r d now).1 now := by
  have hsince : (m.healthySince.filter (· != 0)).getD now =
      (summary p notes).since.getD now := by
    rw [← h.since]
    cases hs : m.healthySince with
    | none => rfl
    | some t => rw [Option.filter_some, if_pos (by simpa using (h.positive t hs).ne')]
  have hlater : 0 < (summary p notes).since.getD now := by
    rw [← h.since]
    cases hs : m.healthySince with
    | none => exact hpos
    | some t => exact h.positive t hs
  simp only [consider, hready, if_true, hsince, true_and]
  by_cases hlong : (p.stableSeconds : ℚ) ≤ now - (summary p notes).since.getD now
  · simp only [hlong, if_true]
    refine ⟨by simp [Summary.add], by simp [Summary.add], ?_, fun t _ => ?_, ?_⟩
    · rintro t ht
      obtain rfl := Option.some.inj ht
      exact hlater
    · simp [Summary.add, hlong]
    · simp [Summary.add, hlong]
  · simp only [hlong, if_false]
    refine ⟨by simp [Summary.add], by simp [Summary.add], ?_, fun t ht => ?_, ?_⟩
    · rintro t ht
      obtain rfl := Option.some.inj ht
      exact hlater
    · simp [Summary.add, hlong, h.attempts t (le_trans hnow ht)]
    · simp [Summary.add, hlong, h.due]

/-- The memory of an unwell sandbox, whatever reason is given. -/
theorem Remembers.unwell (h : Remembers p notes m clock) (hnow : clock ≤ now)
    (reason : Option String) : Remembers p (notes ++ [.unwell now])
      { m with failures := m.failures + 1, healthySince := none, reason := reason } now := by
  refine ⟨by simp [Summary.add, h.failures], by simp [Summary.add], nofun, fun t ht => ?_, ?_⟩
  · simp [Summary.add, h.attempts t (le_trans hnow ht)]
  · simp [Summary.add, h.due]

/-- **What a tick makes of a sandbox** is remembered and noted, and a recovery is tried only where the
notes allow it. -/
theorem Remembers.consider (h : Remembers p notes m clock) (hnow : clock ≤ now) (hpos : 0 < now) :
    Remembers p (notes ++ (consider p m r d now).2.1.toList) (consider p m r d now).1 now ∧
    (∀ t, .recovered t ∉ (consider p m r d now).2.1.toList) ∧
    ∀ attempts, (consider p m r d now).2.2 = .recover attempts →
      attempts = recent (p.windowSeconds : ℚ) now
        (summary p (notes ++ (consider p m r d now).2.1.toList)).recoveries ∧
      (summary p (notes ++ (consider p m r d now).2.1.toList)).Allows p now := by
  by_cases hready : r.status = "ready"
  · obtain ⟨hverdict, hremembers⟩ := h.ready (d := d) hnow hpos hready
    rw [hverdict]
    exact ⟨hremembers, by simp, nofun⟩
  · unfold Recovery.consider
    rw [if_neg hready]
    split
    · exact ⟨by simpa using h.mono hnow, by simp, nofun⟩
    · simp only
      split
      · exact ⟨h.unwell hnow m.reason, by simp, nofun⟩
      · next hearly =>
        rw [not_or, not_lt, not_lt] at hearly
        split
        · exact ⟨h.unwell hnow _, by simp, nofun⟩
        · next hfew =>
          split
          · exact ⟨h.unwell hnow _, by simp, nofun⟩
          · refine ⟨h.unwell hnow m.reason, by simp, ?_⟩
            rintro attempts hattempts
            obtain rfl := Verdict.recover.inj hattempts
            have hrecent := h.attempts now hnow
            refine ⟨by simpa [Summary.add] using hrecent, ⟨by simp [Summary.add], ?_, ?_, ?_⟩⟩
            · simpa [Summary.add, ← h.failures] using hearly.1
            · simpa [Summary.add, ← h.due] using hearly.2
            · simpa [Summary.add, ← hrecent] using hfew

/-- A recovery is remembered. -/
theorem Remembers.recovered (h : Remembers p notes m now) {attempts : List ℚ}
    (hattempts : attempts = recent (p.windowSeconds : ℚ) now (summary p notes).recoveries) :
    Remembers p (notes ++ [.recovered now]) (m.recovered p attempts now) now := by
  refine ⟨by simp [Summary.add, Memory.recovered, h.failures],
    by simp [Summary.add, Memory.recovered, h.since], h.positive, fun t ht => ?_, ?_⟩
  · simp only [Memory.recovered, summary_concat, Summary.add, recent_append, hattempts,
      recent_recent ht]
  · simp [Summary.add, Memory.recovered, hattempts]

end Memory

/-! ## §E The jobs for recoveries -/

theorem mem_recovering {s : Store} {jid : String} : jid ∈ recovering s ↔
    ∃ j, s.jobs.lookup jid = some j ∧ j.kind = .sandboxRecover ∧ j.status.inProgress = true := by
  rw [recovering, ← AList.mem_keys, ← AList.lookup_isSome, Option.isSome_iff_exists]
  constructor
  · rintro ⟨j, hj⟩
    obtain ⟨hj, hp⟩ := Dict.lookup_filter.mp hj
    rw [Bool.and_eq_true, beq_iff_eq] at hp
    exact ⟨j, hj, hp⟩
  · rintro ⟨j, hj, hkind, hprog⟩
    exact ⟨j, Dict.lookup_filter.mpr ⟨hj, by simp [hkind, hprog]⟩⟩

theorem recovering_length {s : Store} {ids : List String} (h : recovering s ⊆ ids) :
    (recovering s).length ≤ ids.length :=
  (List.subperm_of_subset (s.jobs.filter _).keys_nodup h).length_le

/-- A step of the service that is no submission of a recovery brings none under way. -/
theorem recovering_step {sys sys' : System} {e : Operations.Event} (h : sys.step e = some sys') {i : String}
    (hi : i ∈ recovering sys'.store) : i ∈ recovering sys.store ∨
      ∃ fallback target scope payload before,
        e = .submit i fallback .sandboxRecover target scope payload before := by
  obtain ⟨j', hj', hkind, hprog⟩ := mem_recovering.mp hi
  rcases System.step_starts h i j' hj' hprog with
    ⟨j, hj, hsame, hold⟩ | ⟨fallback, target, scope, payload, before, he, _⟩ | hdelete
  · exact .inl (mem_recovering.mpr ⟨j, hj, hsame.trans hkind, hold⟩)
  · exact .inr ⟨fallback, target, scope, payload, before, hkind ▸ he⟩
  · rw [hkind] at hdelete
    cases hdelete

theorem recovering_external {sys sys' : System} {e : Operations.Event} (h : sys.step e = some sys')
    (he : external e = true) : recovering sys'.store ⊆ recovering sys.store := by
  intro i hi
  rcases recovering_step h hi with hold | ⟨_, _, _, _, _, rfl⟩
  · exact hold
  · simp [external] at he

/-- A job that the step did not find is one that it submitted. -/
theorem kept_external {sys sys' : System} {e : Operations.Event} (h : sys.step e = some sys')
    (he : external e = true) {i : String} {j' : Job} (hj : sys'.store.jobs.lookup i = some j')
    (hkind : j'.kind = .sandboxRecover) : i ∈ sys.store.jobs := by
  cases System.step_jobs h with
  | rewrites jid f hrw hid hst =>
    rw [hrw i] at hj
    split at hj
    · next hi =>
      obtain ⟨j, hold, _⟩ := Option.map_eq_some_iff.mp hj
      rw [← AList.lookup_isSome, hi, hold]
      rfl
    · rw [← AList.lookup_isSome, hj]
      rfl
  | submitted jid fallback kind target scope payload before hevent hfresh hadm hpin hfree hjobs =>
    rw [hjobs] at hj
    by_cases hi : i = jid
    · subst hi hevent
      rw [AList.lookup_insert] at hj
      obtain rfl := Option.some.inj hj
      have hkind : kind = .sandboxRecover := hkind
      simp [external, hkind] at he
    · rw [AList.lookup_insert_ne hi] at hj
      rw [← AList.lookup_isSome, hj]
      rfl
  | restarted hevent hjobs =>
    rw [hjobs, Dict.lookup_mapValues] at hj
    obtain ⟨j, hold, _⟩ := Option.map_eq_some_iff.mp hj
    rw [← AList.lookup_isSome, hold]
    rfl

/-- **The submission** of a recovery: one new job, or none. -/
theorem submission_step {sys sys' : System} {r : Record} {d : Detail} {jid : String} {ns : Nat}
    (h : sys.step (submission r d jid ns) = some sys') : jid ∉ sys.store.jobs ∧
      (sys' = sys ∨ ∃ j, j.kind = .sandboxRecover ∧ j.target = r.sandboxId ∧ j.scope = r.agentId ∧
        sys'.store.jobs = sys.store.jobs.insert jid j) := by
  simp only [submission, System.step, System.submit] at h
  split at h
  · cases h
  · next hguard =>
    refine ⟨(not_or.mp hguard).1, ?_⟩
    split at h
    · next s job hs =>
      obtain rfl := Option.some.inj h
      rcases Store.submit_eq_ok hs with ⟨hf, _⟩ | ⟨_, _, _, rfl, rfl⟩
      · cases hf
      · exact .inr ⟨_, rfl, rfl, rfl, rfl⟩
    · exact .inl (Option.some.inj h).symm

/-! ## §F Every run is regular -/

section Runs

variable {p : Policy}

/-- Whose sandbox it is stands in no way of a recovery. -/
structure Permitted (p : Policy) (agents : Dict String Lifecycle) (r : Record) : Prop where
  user : startsWith r.username "loadtest-" = false
  enabled : p.agentEnabled.lookup r.agentId ≠ some false
  archived : agents.lookup r.agentId ≠ some .archived
  deleting : agents.lookup r.agentId ≠ some .deleting

theorem permitted_of_skipped {agents : Dict String Lifecycle} {s : Store} {r : Record}
    (h : skipped p agents s r = false) : Permitted p agents r := by
  simp only [skipped, Bool.or_eq_false_iff, beq_eq_false_iff_ne, Bool.not_eq_false'] at h
  obtain ⟨⟨⟨⟨⟨⟨huser, _⟩, henabled⟩, harchived, hdeleting⟩, _⟩, _⟩, _⟩ := h
  refine ⟨huser, fun hoff => ?_, harchived, hdeleting⟩
  rw [hoff] at henabled
  cases henabled

namespace State

@[simp] theorem remember_sys (s : State) (sid : String) (m : Memory) (ns : List Note) :
    (s.remember sid m ns).sys = s.sys := rfl

@[simp] theorem remember_tick (s : State) (sid : String) (m : Memory) (ns : List Note) :
    (s.remember sid m ns).tick = s.tick := rfl

@[simp] theorem remember_clock (s : State) (sid : String) (m : Memory) (ns : List Note) :
    (s.remember sid m ns).clock = s.clock := rfl

theorem remember_noted (s : State) (sid sid' : String) (m : Memory) (ns : List Note) :
    (s.remember sid m ns).noted sid' =
      if sid' = sid then s.noted sid ++ ns else s.noted sid' := by
  by_cases hsid : sid' = sid
  · subst hsid
    simp [remember, noted]
  · simp [remember, noted, AList.lookup_insert_ne hsid, hsid]

theorem remember_recall (s : State) (sid sid' : String) (m : Memory) (ns : List Note) :
    (s.remember sid m ns).recollect sid' = if sid' = sid then m else s.recollect sid' := by
  by_cases hsid : sid' = sid
  · subst hsid
    simp [remember, recollect]
  · simp [remember, recollect, AList.lookup_insert_ne hsid, hsid]

theorem remember_twice (s : State) (sid : String) (m m' : Memory) (ns ns' : List Note) :
    ((s.remember sid m ns).remember sid m' ns').noted sid = s.noted sid ++ (ns ++ ns') := by
  rw [remember_noted, if_pos rfl, remember_noted, if_pos rfl, List.append_assoc]

/-- What a tick does with the answer for its first record. -/
inductive Looks (p : Policy) (s : State) (k : Tick) (r : Record) (rest : List Record) (d : Detail)
    (now : ℚ) (jid : String) (ns : Nat) : State → Prop where
  | noted (t : Option Tick)
      (next : ∀ k', t = some k' → k' = { k with records := rest, asking := false }) :
      Looks p s k r rest d now jid ns
        { s.remember r.sandboxId (consider p (s.recollect r.sandboxId) r d now).1
            (consider p (s.recollect r.sandboxId) r d now).2.1.toList with tick := t }
  | recovered (sys : System) (attempts : List ℚ)
      (verdict : (consider p (s.recollect r.sandboxId) r d now).2.2 = .recover attempts)
      (room : k.active.length < p.maxParallelRecoveries)
      (submitted : s.sys.step (submission r d jid ns) = some sys) (created : jid ∈ sys.store.jobs) :
      Looks p s k r rest d now jid ns
        { (s.remember r.sandboxId (consider p (s.recollect r.sandboxId) r d now).1
              (consider p (s.recollect r.sandboxId) r d now).2.1.toList).remember r.sandboxId
            ((consider p (s.recollect r.sandboxId) r d now).1.recovered p attempts now)
            [.recovered now] with
          sys := sys
          tick := some { k with
            records := rest
            asking := false
            active := k.active ++ [jid] } }

theorem look_looks {s s' : State} {k : Tick} {r : Record} {rest : List Record} {d : Detail} {now : ℚ}
    {jid : String} {ns : Nat} (h : look p s k r rest d now jid ns = some s') :
    Looks p s k r rest d now jid ns s' := by
  have hnext : ∀ k', some { k with records := rest, asking := false } = some k' →
      k' = { k with records := rest, asking := false } := fun k' hk => (Option.some.inj hk).symm
  simp only [look] at h
  split at h
  · obtain rfl := Option.some.inj h
    exact .noted _ fun k' hk => hnext k' hk
  · next attempts hverdict =>
    split at h
    · obtain rfl := Option.some.inj h
      exact .noted none nofun
    · next hroom =>
      simp only [remember_sys, Option.bind_eq_bind, Option.bind_eq_some_iff] at h
      obtain ⟨sys, hsys, h⟩ := h
      split at h
      · next hcreated =>
        obtain rfl := Option.some.inj h
        exact .recovered sys attempts hverdict (not_le.mp hroom) hsys hcreated
      · obtain rfl := Option.some.inj h
        exact .noted _ fun k' hk => hnext k' hk

end State

/-- What holds of the service and its loop in every state. -/
structure Sound (p : Policy) (s : State) : Prop where
  regular : ∀ sid, Regular p (s.noted sid)
  remembers : ∀ sid, Remembers p (s.noted sid) (s.recollect sid) s.clock
  few : (recovering s.sys.store).length ≤ p.maxParallelRecoveries
  counted : ∀ k, s.tick = some k →
    k.active.length ≤ p.maxParallelRecoveries ∧ recovering s.sys.store ⊆ k.active
  asked : ∀ k, s.tick = some k → k.asking = true → ∀ r ∈ k.records.head?, Permitted p k.agents r

namespace Sound

variable {s s' : State} {k : Tick} {r : Record} {rest : List Record} {d : Detail} {now : ℚ}
  {jid : String} {ns : Nat} {sid : String} {m : Memory} {notes : List Note}

theorem initial (start : ℚ) (positive : 0 < start) : Sound p (State.initial start positive) :=
  ⟨fun _ => Regular.nil, fun _ => Remembers.empty, Nat.zero_le _, nofun, nofun⟩

theorem retick (h : Sound p s) {t : Option Tick}
    (hcounted : ∀ k, t = some k →
      k.active.length ≤ p.maxParallelRecoveries ∧ recovering s.sys.store ⊆ k.active)
    (hasked : ∀ k, t = some k → k.asking = true → ∀ r ∈ k.records.head?, Permitted p k.agents r) :
    Sound p { s with tick := t } :=
  ⟨h.regular, h.remembers, h.few, hcounted, hasked⟩

theorem later (h : Sound p s) (hnow : s.clock ≤ now) :
    Sound p { s with clock := now, positive := lt_of_lt_of_le s.positive hnow } :=
  ⟨h.regular, fun sid => (h.remembers sid).mono hnow, h.few, h.counted, h.asked⟩

theorem remember (h : Sound p s) (hregular : Regular p (s.noted sid ++ notes))
    (hremembers : Remembers p (s.noted sid ++ notes) m s.clock) :
    Sound p (s.remember sid m notes) := by
  refine ⟨fun sid' => ?_, fun sid' => ?_, h.few, h.counted, h.asked⟩
  · rw [State.remember_noted]
    split
    · exact hregular
    · exact h.regular sid'
  · rw [State.remember_noted, State.remember_recall]
    split
    · exact hremembers
    · exact h.remembers sid'

/-- The answer for a sandbox is noted. -/
theorem consider (h : Sound p s) (r : Record) (d : Detail) :
    Sound p (s.remember r.sandboxId (Recovery.consider p (s.recollect r.sandboxId) r d s.clock).1
      (Recovery.consider p (s.recollect r.sandboxId) r d s.clock).2.1.toList) := by
  obtain ⟨hremembers, hnone, _⟩ :=
    (h.remembers r.sandboxId).consider (r := r) (d := d) (le_refl _) s.positive
  refine h.remember ?_ hremembers
  cases hnote : (Recovery.consider p (s.recollect r.sandboxId) r d s.clock).2.1 with
  | none => simpa using h.regular r.sandboxId
  | some n =>
    rw [hnote] at hnone
    refine (h.regular r.sandboxId).concat fun t ht => ?_
    subst ht
    exact absurd (by simp) (hnone t)

theorem looks (h : Sound p s) (hk : s.tick = some k)
    (hl : State.Looks p s k r rest d s.clock jid ns s') : Sound p s' := by
  obtain ⟨hactive, hsub⟩ := h.counted k hk
  cases hl with
  | noted t hnext =>
    refine (h.consider r d).retick (fun k' hk' => ?_) fun k' hk' hasking => ?_
    · rw [hnext k' hk']
      exact ⟨hactive, hsub⟩
    · rw [hnext k' hk'] at hasking
      cases hasking
  | recovered sys attempts hverdict hroom hsys hcreated =>
    obtain ⟨hremembers, _, hallows⟩ :=
      (h.remembers r.sandboxId).consider (r := r) (d := d) (le_refl _) s.positive
    obtain ⟨hattempts, hallows⟩ := hallows attempts hverdict
    have hnoted := h.consider r d
    have hregular := hnoted.regular r.sandboxId
    rw [State.remember_noted, if_pos rfl] at hregular
    have hmade : Sound p ((s.remember r.sandboxId
          (Recovery.consider p (s.recollect r.sandboxId) r d s.clock).1
          (Recovery.consider p (s.recollect r.sandboxId) r d s.clock).2.1.toList).remember r.sandboxId
        ((Recovery.consider p (s.recollect r.sandboxId) r d s.clock).1.recovered p attempts s.clock)
        [.recovered s.clock]) := by
      refine hnoted.remember ?_ ?_ <;> rw [State.remember_noted, if_pos rfl]
      · refine hregular.concat fun t ht => ?_
        obtain rfl := Note.recovered.inj ht
        exact hallows
      · exact hremembers.recovered hattempts
    have hgrown : recovering sys.store ⊆ k.active ++ [jid] := by
      intro i hi
      rcases recovering_step hsys hi with hold | ⟨_, _, _, _, _, he⟩
      · exact List.mem_append_left _ (hsub hold)
      · simp only [submission, Operations.Event.submit.injEq] at he
        simp [he.1]
    have hlength : (k.active ++ [jid]).length ≤ p.maxParallelRecoveries := by
      simpa [Nat.add_one_le_iff] using hroom
    refine ⟨hmade.regular, hmade.remembers, (recovering_length hgrown).trans hlength, ?_, ?_⟩
    · rintro k' hk'
      obtain rfl := Option.some.inj hk'
      exact ⟨hlength, hgrown⟩
    · rintro k' hk' hasking
      obtain rfl := Option.some.inj hk'
      cases hasking

/-- **One step** keeps it all. -/
theorem step (h : Sound p s) {e : Event} (hs : State.step p s e = some s') : Sound p s' := by
  cases e with
  | begin records agents =>
    simp only [State.step] at hs
    split at hs
    · obtain rfl := Option.some.inj hs
      refine h.retick (fun k hk => ?_) fun k hk hasking => ?_
      · obtain rfl := Option.some.inj hk
        exact ⟨h.few, List.Subset.refl _⟩
      · obtain rfl := Option.some.inj hk
        cases hasking
    · cases hs
  | next =>
    simp only [State.step, Option.bind_eq_bind, Option.bind_eq_some_iff] at hs
    obtain ⟨k, hk, hs⟩ := hs
    split at hs
    · cases hs
    · split at hs
      · obtain rfl := Option.some.inj hs
        exact h.retick nofun nofun
      · next r rest hrecords =>
        split at hs
        · obtain rfl := Option.some.inj hs
          refine h.retick (fun k' hk' => ?_) fun k' hk' hasking => ?_
          · obtain rfl := Option.some.inj hk'
            exact h.counted k hk
          · obtain rfl := Option.some.inj hk'
            contradiction
        · next hskipped =>
          obtain rfl := Option.some.inj hs
          refine h.retick (fun k' hk' => ?_) fun k' hk' _ r' hr' => ?_
          · obtain rfl := Option.some.inj hk'
            exact h.counted k hk
          · obtain rfl := Option.some.inj hk'
            simp only [hrecords, List.head?_cons, Option.mem_def, Option.some.injEq] at hr'
            subst hr'
            exact permitted_of_skipped (Bool.eq_false_iff.mpr hskipped)
  | detail d now jid ns =>
    simp only [State.step, Option.bind_eq_bind, Option.bind_eq_some_iff] at hs
    obtain ⟨k, hk, hs⟩ := hs
    split at hs
    · next hnow =>
      split at hs
      · exact (h.later hnow).looks hk (State.look_looks hs)
      · cases hs
    · cases hs
  | abort =>
    simp only [State.step] at hs
    split at hs
    · obtain rfl := Option.some.inj hs
      exact h.retick nofun nofun
    · cases hs
  | service e =>
    simp only [State.step] at hs
    split at hs
    · cases hs
    · next hexternal =>
      rw [Bool.not_eq_true', Bool.not_eq_false] at hexternal
      simp only [Option.bind_eq_bind, Option.bind_eq_some_iff] at hs
      obtain ⟨sys, hsys, hs⟩ := hs
      have hsub := recovering_external hsys hexternal
      have htick : ∀ k, s'.tick = some k → s.tick = some k := by
        obtain rfl := Option.some.inj hs
        intro k hk
        cases e <;> first | exact hk | cases hk
      obtain rfl := Option.some.inj hs
      refine ⟨h.regular, h.remembers, (recovering_length hsub).trans h.few, fun k hk => ?_,
        fun k hk => h.asked k (htick k hk)⟩
      obtain ⟨hactive, hold⟩ := h.counted k (htick k hk)
      exact ⟨hactive, List.Subset.trans hsub hold⟩

theorem run {start : ℚ} {positive : 0 < start} {es : List Event}
    (h : (loop p).run (State.initial start positive) es = some s) : Sound p s :=
  (loop p).run_always (fun _ _ _ hs hstep => hs.step hstep) (initial start positive) h

end Sound

end Runs

/-! ## §G What the notes and the jobs say -/

def Note.isUnwell : Note → Bool
  | .unwell _ => true
  | _ => false

/-- The failures of the summary are those since the sandbox was last ready. -/
theorem summary_unwell (p : Policy) (notes : List Note) : ∃ a b, notes = a ++ b ∧
    (∀ t, .ready t ∉ b) ∧ b.countP Note.isUnwell = (summary p notes).unwell := by
  induction notes using List.reverseRecOn with
  | nil => exact ⟨[], [], rfl, by simp, rfl⟩
  | append_singleton notes n ih =>
    obtain ⟨a, b, hnotes, hready, hcount⟩ := ih
    rw [summary_concat]
    cases n with
    | ready t => exact ⟨notes ++ [.ready t], [], by simp, by simp, rfl⟩
    | unwell t =>
      refine ⟨a, b ++ [.unwell t], by rw [hnotes, List.append_assoc], by simpa using hready, ?_⟩
      simp [Summary.add, ← hcount, Note.isUnwell]
    | recovered t =>
      refine ⟨a, b ++ [.recovered t], by rw [hnotes, List.append_assoc], by simpa using hready, ?_⟩
      simp [Summary.add, ← hcount, Note.isUnwell]

section Claims

variable {p : Policy}

/-- A job for a recovery is made by a tick, for the record it has asked about. -/
structure Granted (p : Policy) (s s' : State) (j : Job) (k : Tick) (r : Record) (now : ℚ) : Prop where
  tick : s.tick = some k ∧ k.asking = true ∧ k.records.head? = some r
  job : j.target = r.sandboxId ∧ j.scope = r.agentId
  permitted : Permitted p k.agents r
  status : r.status = "unhealthy" ∨ r.status = "missing"
  noted : s'.noted r.sandboxId = s.noted r.sandboxId ++ [.unwell now, .recovered now]
  threshold : ∃ a b, s.noted r.sandboxId ++ [.unwell now] = a ++ b ∧ (∀ t, .ready t ∉ b) ∧
    p.failureThreshold ≤ b.countP Note.isUnwell

theorem consider_recover {m : Memory} {r : Record} {d : Detail} {now : ℚ} {attempts : List ℚ}
    (h : (consider p m r d now).2.2 = .recover attempts) :
    (r.status = "unhealthy" ∨ r.status = "missing") ∧
      (consider p m r d now).2.1 = some (.unwell now) := by
  unfold consider at h ⊢
  split
  · next hready =>
    rw [if_pos hready] at h
    cases h
  · next hready =>
    rw [if_neg hready] at h
    split
    · next hother =>
      rw [if_pos hother] at h
      cases h
    · next hother =>
      refine ⟨by tauto, ?_⟩
      simp only
      split
      · rfl
      · split
        · rfl
        · split <;> rfl

/-- **A job for a recovery** is made by no other step. -/
theorem Sound.granted {s s' : State} (h : Sound p s) {e : Event} (hs : State.step p s e = some s')
    {jid : String} {j : Job} (hj : s'.sys.store.jobs.lookup jid = some j)
    (hkind : j.kind = .sandboxRecover) (hnew : jid ∉ s.sys.store.jobs) :
    ∃ k r now, Granted p s s' j k r now := by
  have hsame : s'.sys = s.sys → ∃ k r now, Granted p s s' j k r now := by
    intro hsys
    rw [hsys] at hj
    refine absurd ?_ hnew
    rw [← AList.lookup_isSome, hj]
    rfl
  cases e with
  | begin records agents =>
    simp only [State.step] at hs
    split at hs
    · exact hsame (by obtain rfl := Option.some.inj hs; rfl)
    · cases hs
  | next =>
    simp only [State.step, Option.bind_eq_bind, Option.bind_eq_some_iff] at hs
    obtain ⟨k, hk, hs⟩ := hs
    split at hs
    · cases hs
    · split at hs
      · exact hsame (by obtain rfl := Option.some.inj hs; rfl)
      · split at hs <;> exact hsame (by obtain rfl := Option.some.inj hs; rfl)
  | abort =>
    simp only [State.step] at hs
    split at hs
    · exact hsame (by obtain rfl := Option.some.inj hs; rfl)
    · cases hs
  | service e =>
    simp only [State.step] at hs
    split at hs
    · cases hs
    · next hexternal =>
      rw [Bool.not_eq_true', Bool.not_eq_false] at hexternal
      simp only [Option.bind_eq_bind, Option.bind_eq_some_iff] at hs
      obtain ⟨sys, hsys, hs⟩ := hs
      obtain rfl := Option.some.inj hs
      exact absurd (kept_external hsys hexternal hj hkind) hnew
  | detail d now jid' ns =>
    simp only [State.step, Option.bind_eq_bind, Option.bind_eq_some_iff] at hs
    obtain ⟨k, hk, hs⟩ := hs
    split at hs
    · next hnow =>
      split at hs
      · next r rest hasking hrecords =>
        have hlater := h.later hnow
        cases State.look_looks hs with
        | noted t hnext => exact hsame rfl
        | recovered sys attempts hverdict hroom hsys hcreated =>
          obtain ⟨hstatus, hnote⟩ := consider_recover hverdict
          have hpos : 0 < now := lt_of_lt_of_le s.positive hnow
          obtain ⟨_, _, hallows⟩ :=
            (hlater.remembers r.sandboxId).consider (r := r) (d := d) (le_refl _) hpos
          obtain ⟨_, hallows⟩ := hallows attempts hverdict
          obtain ⟨hfresh, rfl | ⟨made, hmade, htarget, hscope, hjobs⟩⟩ := submission_step hsys
          · exact absurd hcreated hfresh
          · have hjid : jid = jid' := by
              by_contra hne
              rw [hjobs, AList.lookup_insert_ne hne] at hj
              exact hnew (by rw [← AList.lookup_isSome, hj]; rfl)
            rw [hjobs, hjid, AList.lookup_insert, Option.some.injEq] at hj
            subst hj
            rw [hnote] at hallows ⊢
            obtain ⟨a, b, hnotes, hready, hcount⟩ :=
              summary_unwell p (s.noted r.sandboxId ++ [.unwell now])
            refine ⟨k, r, now, ⟨hk, hasking, by rw [hrecords]; rfl⟩, ⟨htarget, hscope⟩,
              h.asked k hk hasking r (by rw [hrecords]; rfl), hstatus, ?_,
              a, b, hnotes, hready, hcount ▸ hallows.threshold⟩
            exact State.remember_twice s r.sandboxId
              (Recovery.consider p (s.recollect r.sandboxId) r d now).1
              ((Recovery.consider p (s.recollect r.sandboxId) r d now).1.recovered p attempts now)
              [.unwell now] [.recovered now]
      · cases hs
    · cases hs

/-- **Recoveries are bounded**, in every run of the service with its loop. For each sandbox, a stretch of
the notes in which it was not ready for `stable_seconds` has at most `max_attempts` recoveries in every
half-open window of `window_seconds`, and its recoveries are a backoff apart; at most
`max_parallel_recoveries` jobs for recoveries are under way; and each of these jobs is made by a tick, for
a sandbox that is no load test's, whose Agent is neither archived nor being deleted by the catalog that
the tick has read and whose policy is on, after it was found unwell `failure_threshold` times without
being ready in between. -/
theorem recoveries_bounded (p : Policy) (start : ℚ) (positive : 0 < start) (es : List Event)
    (s : State) (h : (loop p).run (State.initial start positive) es = some s) :
    (∀ sid before seg, s.noted sid = before ++ seg → ¬Stable p seg → ∀ x : ℚ,
      (times seg).countP (fun t => decide (x ≤ t ∧ t < x + p.windowSeconds)) ≤ p.maxAttempts) ∧
    (∀ sid before t₁ seg t₂ after,
      s.noted sid = before ++ .recovered t₁ :: (seg ++ .recovered t₂ :: after) →
      times seg = [] → ¬Stable p seg →
      t₁ + p.backoff (recent (p.windowSeconds : ℚ) t₁ (summary p before).recoveries).length ≤ t₂) ∧
    (recovering s.sys.store).length ≤ p.maxParallelRecoveries ∧
    ∀ e s', (loop p).step s e = some s' → ∀ jid j, s'.sys.store.jobs.lookup jid = some j →
      j.kind = .sandboxRecover → jid ∉ s.sys.store.jobs → ∃ k r now, Granted p s s' j k r now := by
  have hsound := Sound.run h
  refine ⟨fun sid before seg hnotes hstable x => ?_,
    fun sid before t₁ seg t₂ after hnotes hnone hstable => ?_, hsound.few,
    fun e s' hs jid j hj hkind hnew => hsound.granted hs hj hkind hnew⟩
  · have hregular := hsound.regular sid
    rw [hnotes] at hregular
    exact hregular.window hstable x
  · have hregular := hsound.regular sid
    rw [hnotes] at hregular
    exact hregular.backoff hnone hstable

end Claims

def samplePolicy : Policy where
  enabled := true
  failureThreshold := 2
  maxAttempts := 1
  windowSeconds := 60
  backoffSeconds := [30]
  stableSeconds := 30
  agentEnabled := ∅
  maxParallelRecoveries := 1
  threshold_bounds := by decide
  attempts_bounds := by decide
  window_bounds := by decide
  backoff_bounds := by decide
  stable_bounds := by decide
  parallel_bounds := by decide

def sampleRecord (status : String) : Record := ⟨"agent", "s", "user", some "c", status⟩

def sampleDetail : Detail := ⟨some "idle", none⟩

def sampleAgents : Dict String Lifecycle := (∅ : Dict String Lifecycle).insert "agent" .active

def sampleTick (status : String) (now : ℚ) (jid : String) (ns : Nat) : List Event :=
  [.begin [sampleRecord status] sampleAgents, .next, .detail sampleDetail now jid ns]

/-- Two recoveries; the limit holds the second one back until the window is over. -/
def sampleRun : List Event :=
  sampleTick "unhealthy" 10 "a" 1 ++ [.next] ++ sampleTick "missing" 20 "b" 2 ++ [.next] ++
    [.service (.cancel "b")] ++ sampleTick "unhealthy" 70 "c" 3 ++ [.next] ++
    sampleTick "unhealthy" 80 "d" 4

theorem sampleRun_bounded : ∃ s, (loop samplePolicy).run (State.initial 1 one_pos) sampleRun = some s ∧
    times (s.noted "s") = [20, 80] ∧ (recovering s.sys.store).length ≤ 1 ∧
    ∀ x : ℚ, (times (s.noted "s")).countP (fun t => decide (x ≤ t ∧ t < x + 60)) ≤ 1 := by
  cases hrun : (loop samplePolicy).run (State.initial 1 one_pos) sampleRun with
  | none => exact absurd hrun (by decide +kernel)
  | some s =>
    obtain ⟨hwindow, _, hfew, _⟩ := recoveries_bounded samplePolicy 1 one_pos sampleRun s hrun
    have hend : ((loop samplePolicy).run (State.initial 1 one_pos) sampleRun).map (fun s => s.noted "s") =
        some [.unwell 10, .unwell 20, .recovered 20, .unwell 70, .unwell 80, .recovered 80] := by
      decide +kernel
    rw [hrun, Option.map_some, Option.some.injEq] at hend
    refine ⟨s, rfl, by rw [hend]; rfl, hfew, hwindow "s" [] (s.noted "s") rfl ?_⟩
    rintro ⟨a, t₁, b, t₂, c, hnotes, _⟩
    rw [hend] at hnotes
    have hready : Note.ready t₁ ∈ a ++ .ready t₁ :: (b ++ .ready t₂ :: c) := by simp
    rw [← hnotes] at hready
    simp at hready

/-- Two failures with another status in between; and the Agent is archived by a job that begins and ends
after the tick has read the catalog. -/
def flappingRun : List Event :=
  sampleTick "unhealthy" 10 "a" 1 ++ [.next] ++ sampleTick "creating" 20 "b" 2 ++
    [.next, .begin [sampleRecord "unhealthy"] sampleAgents] ++
    [.submit "archive" "request" .agentArchive "agent" "agent" ⟨⟨none, none, none, none, none, none, none, none⟩, false, none⟩ none,
      .work 0 false, .work 0 false, .reply 0 (.ok .accepted), .work 0 false,
      .reply 0 (.ok .accepted), .reply 0 (.ok .accepted), .work 0 false].map Event.service ++
    [.next]

/-- What the ticks are told of a sandbox. -/
def listed (sid : String) (es : List Event) : List String :=
  es.flatMap fun
    | .begin records _ => (records.filter fun r => r.sandboxId == sid).map (·.status)
    | _ => []

/-- A recovery without two failures in a row, of a sandbox whose Agent has been archived. -/
theorem flapping_sandbox_recovers :
    samplePolicy.failureThreshold = 2 ∧
    listed "s" flappingRun = ["unhealthy", "creating", "unhealthy"] ∧
    ∃ s s', (loop samplePolicy).run (State.initial 1 one_pos) flappingRun = some s ∧
      (loop samplePolicy).step s (.detail sampleDetail 30 "c" 3) = some s' ∧
      (s.sys.store.jobs.lookup "archive").map (fun j => (j.kind, j.scope, j.status)) =
        some (.agentArchive, "agent", .succeeded) ∧
      recovering s.sys.store = [] ∧ recovering s'.sys.store = ["c"] ∧
      (s'.sys.store.jobs.lookup "c").map (fun j => (j.target, j.scope)) = some ("s", "agent") := by
  refine ⟨rfl, by decide, _, _, rfl, rfl, ?_⟩
  decide +kernel

end OpencodeCloud.Operations.Recovery
