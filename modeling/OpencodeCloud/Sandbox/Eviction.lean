/-
# OpencodeCloud.Sandbox.Eviction -- the health monitor removes what is idle

`HealthMonitor._check_sandbox` runs beside the requests and actions of `Sandbox.Lifecycle`: a `Monitored`
manager is one with a clock, the time stamps of the rows (`last_active_at`) and the checks that are under
way. A check takes the lock of the user, reads the row, loads the definition, looks at the container, probes
it and asks for its sessions; between any two of these the rest of the manager goes on.

No lease is granted under the lock, so once a check has found none there is none up to the end. The row,
though, is read **once**, before the definition is loaded. A request that ends in between writes its time
stamp and gives its lease back, and the check still goes by the old stamp (`evicted_while_active`). Likewise
an Agent may be blocked, or published anew, after the check has looked. When what was read still stands at
the moment of the decision, a container is removed only when it is due (`removed_when_due`).

Left out are the count of failed probes and the status `unhealthy`, which the manager takes for `ready`.
-/
import OpencodeCloud.Sandbox.Idle

namespace OpencodeCloud.Sandbox.Eviction

open OpencodeCloud.Library Backend World

/-! ## Checks -/

/-- `idle_timeout_seconds` of every version of every Agent. -/
structure Config where
  idleTimeout : String → String → Nat

/-- `record`, and when it was read. -/
structure Snapshot where
  row : SandboxRecord
  lastActiveAt : Nat
  readAt : Nat
  deriving DecidableEq

/-- `_check_sandbox` between its awaits. `r` is the row that it read under the lock and `timeout` the idle
timeout of the definition that it loaded. -/
inductive CheckStage
  /-- is the user one of a load test? `snapshot.container_id` may be missing -/
  | asking (hasContainer : Bool)
  | lock
  | reading
  | defining (r : Snapshot)
  /-- the first look at the container, when the row is old enough and there is no lease -/
  | overdue (r : Snapshot) (timeout : Nat)
  /-- the look at the container of a row that says `stopped` -/
  | observing (r : Snapshot) (timeout : Nat)
  | inspecting (r : Snapshot) (timeout : Nat)
  | probing (r : Snapshot) (timeout : Nat)
  /-- `set_health_status(…, "ready")` -/
  | readying (r : Snapshot) (timeout : Nat)
  | touching
  /-- the list of sessions, then the statuses by directory -/
  | listing (r : Snapshot) (timeout : Nat)
  | statuses (r : Snapshot) (timeout : Nat) (groups : List (String × Option Group))
  /-- all sessions are idle: the container, to stop it -/
  | container (r : Snapshot) (groups : List (String × Option Group))
  | stopping (r : Snapshot) (c : Container)
  /-- `_remove_idle_container` -/
  | removing (r : Snapshot) (c : Container)
  | recording (r : Snapshot)
  | over
  deriving DecidableEq

structure Check where
  owner : Owner
  stage : CheckStage
  deriving DecidableEq

/-- The user whose lock a check holds. -/
def Check.holds (c : Check) : Option Owner :=
  match c.stage with
  | .asking _ | .lock | .over => none
  | _ => some c.owner

/-- The user whose container a check is removing. -/
def Check.removes (c : Check) : Option Owner :=
  match c.stage with
  | .removing _ _ => some c.owner
  | _ => none

/-- What an await of a check ends with. -/
inductive CheckOutcome
  | ok
  /-- a load test owns the user -/
  | loadTest
  | statuses (directory : String)
  | error
  /-- an error, but the call has taken effect -/
  | lost
  deriving DecidableEq

/-- `container.status in {"exited", "created", "dead"}`. -/
def settled (c : Container) : Bool :=
  match c.status with
  | .created | .exited | .dead => true
  | _ => false

/-- What the directories say together: every session is idle. -/
def allIdle (groups : List (String × Option Group)) : Bool :=
  groups.all (·.2.isSome) &&
    ((groups.map fun g => g.2.getD []).foldl mergeGroup ∅).all fun _ type => type == some "idle"

/-! ## The monitored manager -/

structure Monitored where
  manager : State
  clock : Nat
  /-- `last_active_at` of the rows of `sandboxes` -/
  lastActiveAt : Owner → Nat
  checks : List Check

namespace Monitored

def initial (sandboxImage : String) : Monitored where
  manager := State.initial sandboxImage
  clock := 0
  lastActiveAt := fun _ => 0
  checks := []

/-- The lock of a user is taken. -/
def locked (s : Monitored) (o : Owner) : Bool :=
  s.manager.userLocked o || s.checks.any fun c => c.holds == some o

/-- `touch_sandbox`. -/
def touch (s : Monitored) (o : Owner) : Monitored :=
  { s with lastActiveAt := Function.update s.lastActiveAt o s.clock }

/-- A change of the containers or rows by a check. -/
def perform (s : Monitored) (call : Call) : Monitored :=
  { s with manager := { s.manager with world := s.manager.world.perform call } }

/-- The container of a row that was read. -/
def containerOf (s : Monitored) (o : Owner) (r : Snapshot) : Option Container :=
  r.row.containerId.bind (s.manager.world.find o)

end Monitored

section Check

variable (k : Config) (s : Monitored) (o : Owner)

/-- After the first look at the container. -/
def goOn (r : Snapshot) (timeout : Nat) : CheckStage :=
  if r.row.status = .stopped then .observing r timeout else .inspecting r timeout

/-- The definition is loaded: `elapsed` is from when the row was read. -/
def defined (r : Snapshot) (timeout : Nat) : CheckStage :=
  if r.lastActiveAt + timeout ≤ r.readAt ∧ count s.manager.inUse o = 0 then .overdue r timeout
  else goOn r timeout

/-- The sandbox is healthy: now for its leases and the time again. -/
def healthy (r : Snapshot) (timeout : Nat) : CheckStage :=
  if count s.manager.inUse o ≠ 0 then .touching
  else if r.lastActiveAt + timeout ≤ s.clock then .listing r timeout
  else .over

/-- One more directory has answered. -/
def answered (r : Snapshot) (timeout : Nat) (groups : List (String × Option Group)) : CheckStage :=
  if groups.all (·.2.isSome) then
    if allIdle groups then .container r groups else .touching
  else .statuses r timeout groups

/-- A check goes on, unless its await fails. -/
def CheckStage.next : CheckStage → CheckOutcome → Option CheckStage
  | .over, _ => none
  | .asking _, .loadTest => some .over
  | .asking hasContainer, .ok =>
    some (if s.manager.blocks o.1 || !hasContainer then .over else .lock)
  | .lock, .ok =>
    if s.locked o then none
    else some (if s.manager.blocks o.1 then .over else .reading)
  | .reading, .ok =>
    match s.manager.world.sandboxes.lookup o with
    | some row =>
      if row.status = .ready ∨ row.status = .stopped then
        some (.defining ⟨row, s.lastActiveAt o, s.clock⟩)
      else some .over
    | none => some .over
  -- the definition that was loaded is that of the registered version, or the check is put off
  | .defining r, .ok =>
    match s.manager.world.agents.lookup o.1 with
    | some d => some (defined s o r (k.idleTimeout o.1 d.version))
    | none => some .over
  | .overdue r timeout, .ok =>
    match s.containerOf o r with
    | some c =>
      if s.manager.world.verifyOwnership o c = false then some .over
      else if settled c then some (.removing r c)
      else some (goOn r timeout)
    | none => some (goOn r timeout)
  | .observing r timeout, .ok =>
    match s.containerOf o r with
    | some c =>
      if s.manager.world.verifyOwnership o c = false ∨ settled c = true then some .over
      else some (.inspecting r timeout)
    | none => some (.inspecting r timeout)
  -- `inspect` reads the row again
  | .inspecting r timeout, .ok =>
    match (s.manager.world.sandboxes.lookup o).bind SandboxRecord.containerId with
    | some id =>
      match s.manager.world.find o id with
      | some c =>
        if s.manager.world.verifyOwnership o c = true ∧ c.status = .running then
          some (.probing r timeout)
        else some .over
      | none => some .over
    | none => some .over
  | .probing r timeout, .ok =>
    some (if r.row.status = .stopped then .readying r timeout else healthy s o r timeout)
  | .readying r timeout, .ok => some (healthy s o r timeout)
  | .touching, .ok => some .over
  | .listing r timeout, .ok =>
    some (.statuses r timeout
      ((directories ((s.manager.sessions.lookup o).getD [])).map (·, none)))
  | .statuses r timeout groups, .statuses directory =>
    if (directory, none) ∈ groups then
      some (answered r timeout
        (readGroup groups directory ((s.manager.statuses.lookup (o, directory)).getD [])))
    else none
  | .container r _, .ok =>
    match s.containerOf o r with
    | some c =>
      if s.manager.world.verifyOwnership o c = false then some .over else some (.stopping r c)
    | none => some .over
  | .stopping r c, .ok =>
    if s.manager.world.accepts (.stop o c.id) then some (.removing r c) else none
  -- `container.remove` without force refuses a container that runs
  | .removing r c, .ok =>
    if (s.manager.world.find o c.id).any settled then some (.recording r) else none
  | .recording r, .ok =>
    if s.manager.world.accepts (.upsertSandbox o none .stopped r.row.imageVersion) then some .over
    else none
  | _, .error | _, .lost => some .over
  | _, _ => none

/-- What was in flight takes effect. -/
def CheckStage.effect : CheckStage → Monitored
  | .readying _ _ => s.perform (.markSandboxStatus o .ready)
  | .touching => s.touch o
  | .stopping _ c => s.perform (.stop o c.id)
  | .removing _ c => if (s.manager.world.find o c.id).any settled then s.perform (.remove o c.id) else s
  | .recording r =>
    -- the row keeps the stamp that was read
    { s.perform (.upsertSandbox o none .stopped r.row.imageVersion) with
      lastActiveAt := Function.update s.lastActiveAt o r.lastActiveAt }
  | _ => s

end Check

/-! ## The time stamps of the manager -/

/-- The row that a call writes, with the time. -/
def stampsCall : Call → Option Owner
  | .upsertSandbox o _ _ _ | .markSandboxStatus o _ => some o
  | _ => none

def stampsEffect : Effect → Option Owner
  | .mark o _ | .destroyed o _ => some o
  | _ => none

/-- `release` of the last lease writes the time, when nothing has done so before (`activity_persisted`, any
other answer here). -/
def stampsTask (x : Outcome) : Task → Option Owner
  | .request o _ .releasing => if x = .ok then some o else none
  | _ => none

/-- The rows that a step of the manager writes, with the time. -/
def stamped (s : State) : Event → List Owner
  | .step i x =>
    match s.tasks[i]? with
    | some t =>
      (if x.answers then t.call.toList.filterMap stampsCall else []) ++
        ((t.advance s x).elim [] fun n => n.2.filterMap stampsEffect) ++ (stampsTask x t).toList
    | none => []
  | .late k => (s.late[k]?).toList.filterMap stampsCall
  | _ => []

/-! ## The machine -/

inductive Tick
  | manager (e : Event)
  /-- the monitor takes up the row of a sandbox -/
  | check (o : Owner) (hasContainer : Bool)
  /-- the await of check `i` ends -/
  | go (i : Nat) (x : CheckOutcome)
  /-- a session is recorded, or a write of the time comes late -/
  | touch (o : Owner)
  /-- the details of a sandbox whose container does not run are asked for -/
  | detail (o : Owner)
  | clock (t : Nat)
  deriving DecidableEq

namespace Monitored

variable (k : Config)

def step (s : Monitored) : Tick → Option Monitored
  | .manager e => do
    let m ← s.manager.step e
    -- a task takes a lock only when no check has it
    if s.checks.any fun c => c.holds.any m.userLocked then none
    else
      return { s with
        manager := m
        lastActiveAt := (stamped s.manager e).foldl
          (fun stamps o => Function.update stamps o s.clock) s.lastActiveAt }
  | .check o hasContainer => some { s with checks := s.checks ++ [⟨o, .asking hasContainer⟩] }
  | .go i x => do
    let c ← s.checks[i]?
    let stage ← c.stage.next k s c.owner x
    let s' := if x = .ok ∨ x = .lost then c.stage.effect s c.owner else s
    return { s' with checks := s.checks.set i ⟨c.owner, stage⟩ }
  | .touch o => some (s.touch o)
  | .detail o =>
    if s.locked o then none
    else
      match s.manager.world.docker.lookup o with
      | some c =>
        if s.manager.world.verifyOwnership o c = true ∧ settled c = true then
          some ((s.perform (.markSandboxStatus o .stopped)).touch o)
        else none
      | none => none
  | .clock t => if s.clock ≤ t then some { s with clock := t } else none

end Monitored

/-- The sandbox manager with its health monitor. -/
def monitored (k : Config) : Machine Monitored Tick := ⟨Monitored.step k⟩

/-! ## When a container may be removed -/

/-- The sandbox on which a lease is granted now. -/
def Monitored.grants (s : Monitored) : Tick → Option Owner
  | .manager e => s.manager.grants e
  | _ => none

/-- Check `i` holds the lock of the user. -/
def Monitored.HeldBy (s : Monitored) (i : Nat) (o : Owner) : Prop :=
  (s.checks[i]?).bind Check.holds = some o

/-- The idle timeout of the registered version has passed since the recorded activity. -/
def Monitored.expired (k : Config) (s : Monitored) (o : Owner) : Bool :=
  (s.manager.world.agents.lookup o.1).any fun d =>
    s.lastActiveAt o + k.idleTimeout o.1 d.version ≤ s.clock

/-- Check `i` was told that every session is idle. -/
def Monitored.toldIdle (s : Monitored) (i : Nat) : Bool :=
  (s.checks[i]?).any fun c =>
    match c.stage with
    | .container _ groups => allIdle groups
    | _ => false

/-- **The container may be removed**: the check holds the lock, there is no lease, the idle timeout has
passed since the recorded activity, the Agent is not blocked, and the container does not run or all sessions
are idle. -/
structure Monitored.Due (k : Config) (s : Monitored) (i : Nat) (o : Owner) : Prop where
  held : s.HeldBy i o
  unused : count s.manager.inUse o = 0
  expired : s.expired k o = true
  unblocked : s.manager.blocks o.1 = false
  idle : s.manager.NotRunning o ∨ s.toldIdle i = true

/-! ## What a check has read still stands -/

/-- Since the row and the definition were read there was no later activity, the Agent was not blocked, and
its registered version has the idle timeout that was read. -/
def Monitored.stands (k : Config) (s : Monitored) (o : Owner) (r : Snapshot) (timeout : Nat) : Bool :=
  s.lastActiveAt o ≤ r.lastActiveAt && !s.manager.blocks o.1 &&
    (s.manager.world.agents.lookup o.1).any fun d => k.idleTimeout o.1 d.version == timeout

/-- **The condition on a step**: when a check decides to remove a container, because it does not run or
because the last directory has said that its sessions are idle, what it has read still stands. -/
def Monitored.current (k : Config) (s : Monitored) : Tick → Bool
  | .go i x =>
    match s.checks[i]?, x with
    | some ⟨o, .overdue r timeout⟩, .ok =>
      !(s.containerOf o r).any settled || s.stands k o r timeout
    | some ⟨o, .statuses r timeout groups⟩, .statuses directory =>
      !allIdle (readGroup groups directory ((s.manager.statuses.lookup (o, directory)).getD [])) ||
        s.stands k o r timeout
    | _, _ => true
  | _ => true

/-! ## Where a check goes -/

namespace CheckStage

/-- Nothing is known at these stages. -/
def plain : CheckStage → Bool
  | .asking _ | .lock | .reading | .observing _ _ | .inspecting _ _ | .probing _ _ | .readying _ _
  | .touching | .over => true
  | _ => false

/-- The check has decided to remove the container. -/
def decided : CheckStage → Bool
  | .container _ _ | .stopping _ _ | .removing _ _ | .recording _ => true
  | _ => false

end CheckStage

/-- **Everything that a step of a check can be.** -/
inductive CheckMove (k : Config) (s : Monitored) (o : Owner) :
    CheckStage → CheckOutcome → CheckStage → Prop
  | read (row) : CheckMove k s o .reading .ok (.defining ⟨row, s.lastActiveAt o, s.clock⟩)
  | expired (r timeout) : r.lastActiveAt + timeout ≤ r.readAt → count s.manager.inUse o = 0 →
      CheckMove k s o (.defining r) .ok (.overdue r timeout)
  | settled (r timeout c) : s.containerOf o r = some c → Eviction.settled c = true →
      CheckMove k s o (.overdue r timeout) .ok (.removing r c)
  | healthy (stage r timeout) : stage.plain = true → count s.manager.inUse o = 0 →
      r.lastActiveAt + timeout ≤ s.clock → CheckMove k s o stage .ok (.listing r timeout)
  | listed (r timeout groups) : CheckMove k s o (.listing r timeout) .ok (.statuses r timeout groups)
  | answered (r timeout groups x groups') :
      CheckMove k s o (.statuses r timeout groups) x (.statuses r timeout groups')
  | idle (r timeout groups directory) :
      allIdle (readGroup groups directory ((s.manager.statuses.lookup (o, directory)).getD [])) = true →
      CheckMove k s o (.statuses r timeout groups) (.statuses directory) (.container r
        (readGroup groups directory ((s.manager.statuses.lookup (o, directory)).getD [])))
  | goes (stage stage') : stage.decided = true → stage'.decided = true →
      CheckMove k s o stage .ok stage'
  | plain (stage x stage') : stage'.plain = true → CheckMove k s o stage x stage'

section Moves

variable {k : Config} {s : Monitored} {o : Owner}

theorem goOn_plain (r : Snapshot) (timeout : Nat) : (goOn r timeout).plain = true := by
  unfold goOn
  split <;> rfl

theorem healthy_move {stage : CheckStage} (hstage : stage.plain = true) (r : Snapshot)
    (timeout : Nat) : CheckMove k s o stage .ok (healthy s o r timeout) := by
  unfold healthy
  split
  · exact .plain _ _ _ rfl
  next hunused =>
    split
    next hold => exact .healthy stage r timeout hstage (not_not.mp hunused) hold
    next => exact .plain _ _ _ rfl

theorem next_move {stage stage' : CheckStage} {x : CheckOutcome}
    (h : stage.next k s o x = some stage') : CheckMove k s o stage x stage' := by
  unfold CheckStage.next at h
  split at h
  case h_1 => cases h
  case h_5 =>
    split at h
    next row hrow =>
      split at h <;> obtain rfl := Option.some.inj h
      · exact .read row
      · exact .plain _ _ _ rfl
    next =>
      obtain rfl := Option.some.inj h
      exact .plain _ _ _ rfl
  case h_6 r =>
    split at h
    next d hd =>
      obtain rfl := Option.some.inj h
      unfold defined
      split
      next hold => exact .expired r _ hold.1 hold.2
      next => exact .plain _ _ _ (goOn_plain r _)
    next =>
      obtain rfl := Option.some.inj h
      exact .plain _ _ _ rfl
  case h_7 r timeout =>
    split at h
    next c hc =>
      split at h
      · obtain rfl := Option.some.inj h
        exact .plain _ _ _ rfl
      · split at h <;> obtain rfl := Option.some.inj h
        next hsettled => exact .settled r timeout c hc hsettled
        next => exact .plain _ _ _ (goOn_plain r timeout)
    next =>
      obtain rfl := Option.some.inj h
      exact .plain _ _ _ (goOn_plain r timeout)
  case h_10 r timeout =>
    obtain rfl := Option.some.inj h
    split
    · exact .plain _ _ _ rfl
    · exact healthy_move rfl r timeout
  case h_11 r timeout =>
    obtain rfl := Option.some.inj h
    exact healthy_move rfl r timeout
  case h_13 r timeout =>
    obtain rfl := Option.some.inj h
    exact .listed r timeout _
  case h_14 r timeout groups directory =>
    split at h
    · obtain rfl := Option.some.inj h
      unfold answered
      split
      · split
        next hidle => exact .idle r timeout groups directory hidle
        next => exact .plain _ _ _ rfl
      · exact .answered r timeout groups _ _
    · cases h
  -- from the decision on, up to the end
  case h_15 =>
    split at h
    · split at h <;> obtain rfl := Option.some.inj h
      · exact .plain _ _ _ rfl
      · exact .goes _ _ rfl rfl
    · obtain rfl := Option.some.inj h
      exact .plain _ _ _ rfl
  case h_16 | h_17 =>
    split at h
    · obtain rfl := Option.some.inj h
      exact .goes _ _ rfl rfl
    · cases h
  -- elsewhere nothing is known
  all_goals repeat' split at h
  all_goals first
    | cases h; done
    | obtain rfl := Option.some.inj h; exact .plain _ _ _ rfl

end Moves

/-! ## No lease comes under the lock of a check -/

/-- Who has a lease after a step had one before, or is granted one now. -/
theorem leases_step {s s' : State} {e : Event} (hstep : s.step e = some s') {j : Nat} {o : Owner}
    {kind : RequestKind} {stage : RequestStage} (ht' : s'.tasks[j]? = some (.request o kind stage))
    (hleases : stage.leases = true) :
    (∃ stage₀, s.tasks[j]? = some (.request o kind stage₀) ∧ stage₀.leases = true) ∨
      s.grants e = some o := by
  rcases State.tasks_step hstep ht' with hold | ⟨-, harrives⟩ | ⟨x, t, es, rfl, ht, hadvance, -⟩
  · exact .inl ⟨stage, hold, hleases⟩
  · cases harrives
    cases hleases
  · obtain ⟨stage₀, rfl, hmove⟩ := Task.request_of_advance hadvance
    cases hmove with
    | granted hnext => exact .inr (by simp only [State.grants, ht, hnext])
    | subscribed | finished | closed => exact .inl ⟨_, ht, rfl⟩
    | begun | refused | checked | locked | admitted | acquires | failed | released => cases hleases

/-- A sandbox without leases has none after a step that grants none on it. -/
theorem unused_step {s s' : State} {e : Event} (h : s.Counted) (hstep : s.step e = some s') {o : Owner}
    (hgrants : s.grants e ≠ some o) (hunused : count s.inUse o = 0) : count s'.inUse o = 0 := by
  rw [(h.step hstep).inUse]
  refine tally_eq_zero fun t' ht' => ?_
  obtain ⟨j, hj⟩ := List.mem_iff_getElem?.mp ht'
  cases t' with
  | request o' kind stage =>
    by_contra hcounts
    obtain ⟨rfl, hleases⟩ : o' = o ∧ stage.leases = true := by
      simpa [Task.countsLease, Task.counts] using hcounts
    rcases leases_step hstep hj hleases with ⟨stage₀, ht, hleases₀⟩ | hgranted
    · have hnone := not_of_tally_eq_zero ((h.inUse o').symm.trans hunused) ht
      simp [hleases₀] at hnone
    · exact hgrants hgranted
  | _ => rfl

/-- A lease is granted under the lock of the user. -/
theorem userLocked_of_grants {s : State} {e : Event} {o : Owner} (h : s.grants e = some o) :
    s.userLocked o = true := by
  unfold State.grants at h
  split at h
  next j x =>
    split at h
    next o' kind p hj =>
      split at h
      · obtain rfl := Option.some.inj h
        exact List.any_eq_true.mpr ⟨_, List.mem_of_getElem? hj, by simp [Task.holds]⟩
      · cases h
    next => cases h
  next => cases h

/-! ## What every reachable state is like -/

/-- A check that is about to look at the container, or asks for the sessions: there is no lease, and the
row that it read is old enough. -/
def Check.Knows (c : Check) (s : Monitored) : Prop :=
  match c.stage with
  | .defining r => r.readAt ≤ s.clock
  | .overdue r timeout | .listing r timeout | .statuses r timeout _ =>
    count s.manager.inUse c.owner = 0 ∧ r.lastActiveAt + timeout ≤ s.clock
  | _ => True

/-- The locks exclude each other, the leases are counted, and the checks know what they know. -/
structure Monitored.Sound (s : Monitored) : Prop where
  exclusive : s.manager.Exclusive
  counted : s.manager.Counted
  apart : ∀ c ∈ s.checks, ∀ o, c.holds = some o → s.manager.userLocked o = false
  knows : ∀ c ∈ s.checks, c.Knows s

theorem Monitored.Sound.initial (image : String) : (Monitored.initial image).Sound where
  exclusive := State.Exclusive.initial image
  counted := State.Counted.initial image
  apart := fun _ hc => absurd hc List.not_mem_nil
  knows := fun _ hc => absurd hc List.not_mem_nil

/-- No lease is granted on a sandbox whose lock a check holds. -/
theorem Monitored.Sound.not_grants {s : Monitored} (h : s.Sound) {c : Check} (hc : c ∈ s.checks)
    {o : Owner} (ho : c.holds = some o) (e : Tick) : s.grants e ≠ some o := by
  intro hgrants
  cases e with
  | manager e =>
    have hlocked := userLocked_of_grants hgrants
    rw [h.apart c hc o ho] at hlocked
    cases hlocked
  | _ => cases hgrants

section Steps

variable {k : Config} {s s' : Monitored}

/-- A call of a check changes the containers, the rows and their stamps only. -/
theorem effect_eq (stage : CheckStage) (o : Owner) : ∃ w stamps,
    stage.effect s o = { s with manager := { s.manager with world := w }, lastActiveAt := stamps } := by
  cases stage with
  | readying | stopping | recording => exact ⟨_, _, rfl⟩
  | touching => exact ⟨s.manager.world, _, rfl⟩
  | removing r c =>
    simp only [CheckStage.effect]
    split
    · exact ⟨_, s.lastActiveAt, rfl⟩
    · exact ⟨s.manager.world, s.lastActiveAt, rfl⟩
  | _ => exact ⟨s.manager.world, s.lastActiveAt, rfl⟩

theorem step_manager {e : Event} (h : s.step k (.manager e) = some s') :
    ∃ m stamps, s.manager.step e = some m ∧
      (∀ c ∈ s.checks, ∀ o, c.holds = some o → m.userLocked o = false) ∧
      s' = { s with manager := m, lastActiveAt := stamps } := by
  simp only [Monitored.step, Option.bind_eq_bind, Option.bind_eq_some_iff] at h
  obtain ⟨m, hm, h⟩ := h
  split at h
  · cases h
  next hfree =>
    refine ⟨m, _, hm, fun c hc o ho => ?_, (Option.some.inj h).symm⟩
    by_contra hlocked
    exact hfree (List.any_eq_true.mpr ⟨c, hc, by simp [ho, hlocked]⟩)

theorem step_go {i : Nat} {x : CheckOutcome} (h : s.step k (.go i x) = some s') :
    ∃ c stage w stamps, s.checks[i]? = some c ∧ c.stage.next k s c.owner x = some stage ∧
      s' = { s with
        manager := { s.manager with world := w }
        lastActiveAt := stamps
        checks := s.checks.set i ⟨c.owner, stage⟩ } ∧
      (c.stage.effect s c.owner = s → w = s.manager.world ∧ stamps = s.lastActiveAt) := by
  simp only [Monitored.step, Option.bind_eq_bind, Option.bind_eq_some_iff, Option.pure_def] at h
  obtain ⟨c, hc, stage, hstage, h⟩ := h
  obtain rfl := Option.some.inj h
  split
  · obtain ⟨w, stamps, heq⟩ := effect_eq (s := s) c.stage c.owner
    refine ⟨c, stage, w, stamps, hc, hstage, by rw [heq], fun hsame => ?_⟩
    rw [hsame] at heq
    exact ⟨(congrArg (·.manager.world) heq).symm, (congrArg (·.lastActiveAt) heq).symm⟩
  · exact ⟨c, stage, s.manager.world, s.lastActiveAt, hc, hstage, rfl, fun _ => ⟨rfl, rfl⟩⟩

/-- The other steps change neither the tasks nor the counters, and no check but a new one. -/
theorem step_other {e : Tick} (h : s.step k e = some s') (hmanager : ∀ e', e ≠ .manager e')
    (hgo : ∀ i x, e ≠ .go i x) : ∃ w stamps t news, s.clock ≤ t ∧
      (∀ c ∈ news, ∃ o hasContainer, c = ⟨o, .asking hasContainer⟩) ∧
      s' = { s with
        manager := { s.manager with world := w }
        clock := t
        lastActiveAt := stamps
        checks := s.checks ++ news } := by
  cases e with
  | manager e' => exact absurd rfl (hmanager e')
  | go i x => exact absurd rfl (hgo i x)
  | check o hasContainer =>
    obtain rfl := Option.some.inj h
    refine ⟨s.manager.world, s.lastActiveAt, s.clock, [⟨o, .asking hasContainer⟩], le_rfl, ?_, rfl⟩
    intro c hc
    exact ⟨o, hasContainer, List.mem_singleton.mp hc⟩
  | touch o =>
    obtain rfl := Option.some.inj h
    refine ⟨s.manager.world, Function.update s.lastActiveAt o s.clock, s.clock, [], le_rfl, by simp, ?_⟩
    rw [List.append_nil]
    rfl
  | detail o =>
    simp only [Monitored.step] at h
    split at h
    · cases h
    · split at h
      · split at h
        · obtain rfl := Option.some.inj h
          refine ⟨s.manager.world.perform (.markSandboxStatus o .stopped),
            Function.update s.lastActiveAt o s.clock, s.clock, [], le_rfl, by simp, ?_⟩
          rw [List.append_nil]
          rfl
        · cases h
      · cases h
  | clock t =>
    simp only [Monitored.step] at h
    split at h
    next hle =>
      obtain rfl := Option.some.inj h
      exact ⟨s.manager.world, s.lastActiveAt, t, [], hle, by simp, by simp⟩
    · cases h

/-- **A check after a step** is as it was, has just been taken up, or took the step. -/
theorem checks_step {e : Tick} (h : s.step k e = some s') {j : Nat} {c' : Check}
    (hc' : s'.checks[j]? = some c') :
    s.checks[j]? = some c' ∨ (∃ o hasContainer, c' = ⟨o, .asking hasContainer⟩) ∨
      ∃ x c stage, e = .go j x ∧ s.checks[j]? = some c ∧ c' = ⟨c.owner, stage⟩ ∧
        c.stage.next k s c.owner x = some stage := by
  by_cases hgo : ∃ i x, e = .go i x
  · obtain ⟨i, x, rfl⟩ := hgo
    obtain ⟨c, stage, w, stamps, hc, hstage, rfl, -⟩ := step_go h
    by_cases hij : i = j
    · subst hij
      rw [List.getElem?_set_self (List.getElem?_eq_some_iff.mp hc).1] at hc'
      exact .inr (.inr ⟨x, c, stage, rfl, hc, (Option.some.inj hc').symm, hstage⟩)
    · rw [List.getElem?_set_ne hij] at hc'
      exact .inl hc'
  · by_cases hmanager : ∃ e', e = .manager e'
    · obtain ⟨e', rfl⟩ := hmanager
      obtain ⟨m, stamps, -, -, rfl⟩ := step_manager h
      exact .inl hc'
    · obtain ⟨w, stamps, t, news, -, hnews, rfl⟩ := step_other h (fun e' he => hmanager ⟨e', he⟩)
        fun i x he => hgo ⟨i, x, he⟩
      rcases Nat.lt_or_ge j s.checks.length with hlt | hge
      · rw [List.getElem?_append_left hlt] at hc'
        exact .inl hc'
      · rw [List.getElem?_append_right hge] at hc'
        exact .inr (.inl (hnews c' (List.mem_of_getElem? hc')))

/-- What a check knows after its step. -/
theorem Check.Knows.next {o : Owner} {stage stage' : CheckStage} {x : CheckOutcome}
    (h : (Check.mk o stage).Knows s) (hmove : CheckMove k s o stage x stage') :
    (Check.mk o stage').Knows s := by
  cases hmove with
  | read row => exact Nat.le_refl s.clock
  | expired r timeout hold hunused => exact ⟨hunused, hold.trans h⟩
  | healthy _ r timeout _ hunused hold => exact ⟨hunused, hold⟩
  | listed | answered => exact h
  | settled | idle => trivial
  | goes _ _ _ hdecided => cases stage' <;> trivial
  | plain _ _ _ hplain => cases stage' <;> trivial

/-- What is known stays so as long as the clock goes on and there is no lease. -/
theorem Check.Knows.mono {c : Check} (h : c.Knows s) (hclock : s.clock ≤ s'.clock)
    (hunused : ∀ o, c.holds = some o → count s.manager.inUse o = 0 → count s'.manager.inUse o = 0) :
    c.Knows s' := by
  obtain ⟨o, stage⟩ := c
  cases stage with
  | defining r => exact Nat.le_trans h hclock
  | overdue r timeout | listing r timeout | statuses r timeout groups =>
    exact ⟨hunused o rfl h.1, h.2.trans hclock⟩
  | _ => trivial

/-- The clock goes on. -/
theorem clock_step {e : Tick} (hstep : s.step k e = some s') : s.clock ≤ s'.clock := by
  cases e with
  | manager e =>
    obtain ⟨m, stamps, -, -, rfl⟩ := step_manager hstep
    exact le_rfl
  | go i x =>
    obtain ⟨c, stage, w, stamps, -, -, rfl, -⟩ := step_go hstep
    exact le_rfl
  | _ =>
    obtain ⟨w, stamps, t, news, hle, -, rfl⟩ := step_other hstep (fun _ h => by cases h)
      fun _ _ h => by cases h
    exact hle

/-- Under the lock of a check no lease comes. -/
theorem Monitored.Sound.unused_step {e : Tick} (h : s.Sound) (hstep : s.step k e = some s') {c : Check}
    (hc : c ∈ s.checks) {o : Owner} (ho : c.holds = some o) (hunused : count s.manager.inUse o = 0) :
    count s'.manager.inUse o = 0 := by
  cases e with
  | manager e =>
    obtain ⟨m, stamps, hm, -, rfl⟩ := step_manager hstep
    exact Eviction.unused_step h.counted hm (h.not_grants hc ho (.manager e)) hunused
  | go i x =>
    obtain ⟨c, stage, w, stamps, -, -, rfl, -⟩ := step_go hstep
    exact hunused
  | _ =>
    obtain ⟨w, stamps, t, news, -, -, rfl⟩ := step_other hstep (fun _ h => by cases h)
      fun _ _ h => by cases h
    exact hunused

/-- A check takes the lock only when no task has it. -/
theorem holds_next {o o' : Owner} {stage stage' : CheckStage} {x : CheckOutcome}
    (hnext : stage.next k s o x = some stage') (ho : (Check.mk o stage').holds = some o') :
    (Check.mk o stage).holds = some o' ∨ s.manager.userLocked o' = false := by
  obtain rfl : o = o' := by
    cases stage' <;> first | exact Option.some.inj ho | cases ho
  cases stage with
  | asking hasContainer =>
    cases x <;> simp only [CheckStage.next] at hnext
    · obtain rfl := Option.some.inj hnext
      split at ho <;> cases ho
    all_goals
      first
        | cases hnext; done
        | obtain rfl := Option.some.inj hnext; cases ho
  | lock =>
    cases x <;> simp only [CheckStage.next] at hnext
    · split at hnext
      · cases hnext
      next hfree =>
        rw [Monitored.locked, Bool.or_eq_true, not_or, Bool.not_eq_true] at hfree
        exact .inr hfree.1
    all_goals
      first
        | cases hnext; done
        | obtain rfl := Option.some.inj hnext; cases ho
  | «over» => cases x <;> cases hnext
  | _ => exact .inl rfl

theorem Monitored.Sound.step {e : Tick} (h : s.Sound) (hstep : s.step k e = some s') : s'.Sound := by
  have hknows : ∀ c ∈ s'.checks, c.Knows s' := by
    intro c' hc'
    obtain ⟨j, hj⟩ := List.mem_iff_getElem?.mp hc'
    rcases checks_step hstep hj with hold | ⟨o, hasContainer, rfl⟩ | ⟨x, c, stage, rfl, hc, rfl, hnext⟩
    · have hmem := List.mem_of_getElem? hold
      exact (h.knows c' hmem).mono (clock_step hstep) fun o ho => h.unused_step hstep hmem ho
    · trivial
    · obtain ⟨_, _, w, stamps, -, -, rfl, -⟩ := step_go hstep
      have hmem := List.mem_of_getElem? hc
      exact (Check.Knows.next (h.knows c hmem) (next_move hnext)).mono le_rfl fun _ _ hunused => hunused
  cases e with
  | manager e =>
    obtain ⟨m, stamps, hm, hfree, rfl⟩ := step_manager hstep
    exact ⟨h.exclusive.step hm, h.counted.step hm, hfree, hknows⟩
  | go i x =>
    obtain ⟨c, stage, w, stamps, hc, hnext, rfl, -⟩ := step_go hstep
    refine ⟨⟨h.exclusive.user, h.exclusive.agent⟩,
      ⟨h.counted.requests, h.counted.acquiring, h.counted.inUse, h.counted.subscribers⟩, ?_, hknows⟩
    intro c' hc' o ho
    rcases List.mem_or_eq_of_mem_set hc' with hold | rfl
    · exact h.apart c' hold o ho
    · rcases holds_next hnext ho with hheld | hfree
      · exact h.apart c (List.mem_of_getElem? hc) o hheld
      · exact hfree
  | _ =>
    obtain ⟨w, stamps, t, news, -, hnews, rfl⟩ := step_other hstep (fun _ h => by cases h)
      fun _ _ h => by cases h
    refine ⟨⟨h.exclusive.user, h.exclusive.agent⟩,
      ⟨h.counted.requests, h.counted.acquiring, h.counted.inUse, h.counted.subscribers⟩, ?_, hknows⟩
    intro c hc o ho
    rcases List.mem_append.mp hc with hold | hnew
    · exact h.apart c hold o ho
    · obtain ⟨o', hasContainer, rfl⟩ := hnews c hnew
      cases ho

end Steps

theorem sound_run {k : Config} {image : String} {is : List Tick} {s : Monitored}
    (h : (monitored k).run (.initial image) is = some s) : s.Sound :=
  (monitored k).run_always (fun _ _ _ hs hstep => hs.step hstep) (Monitored.Sound.initial image) h

/-! ## A container that is removed was due -/

/-- The container was due at a moment; since then the check has held the lock and no lease was granted on
the sandbox. -/
def DueSince (k : Config) (i : Nat) (o : Owner) (s : Monitored) (is : List Tick) : Prop :=
  (monitored k).Since (fun u js => u.Due k i o ∧
    (monitored k).Along (fun w e => w.HeldBy i o ∧ w.grants e ≠ some o) u js) s is

section Decision

variable {k : Config} {s s' : Monitored}

theorem heldBy_of_decided {i : Nat} {o : Owner} {stage : CheckStage}
    (hc : s.checks[i]? = some ⟨o, stage⟩) (hdecided : stage.decided = true) : s.HeldBy i o := by
  rw [Monitored.HeldBy, hc]
  cases stage <;> first | rfl | cases hdecided

/-- What was read is old enough, and stands: the idle timeout has passed. -/
theorem expired_of_stands {o : Owner} {r : Snapshot} {timeout : Nat}
    (hstands : s.stands k o r timeout = true) (hold : r.lastActiveAt + timeout ≤ s.clock) :
    s.expired k o = true ∧ s.manager.blocks o.1 = false := by
  simp only [Monitored.stands, Bool.and_eq_true, decide_eq_true_eq, Bool.not_eq_true', Option.any_eq_true,
    beq_iff_eq] at hstands
  obtain ⟨⟨hactivity, hblocks⟩, d, hd, rfl⟩ := hstands
  refine ⟨?_, hblocks⟩
  simp only [Monitored.expired, Option.any_eq_true, decide_eq_true_eq]
  exact ⟨d, hd, (Nat.add_le_add_right hactivity _).trans hold⟩

/-- A container of the row that does not run is the only one of the user. -/
theorem notRunning_of_settled {o : Owner} {r : Snapshot} {c : Container}
    (hc : s.containerOf o r = some c) (hsettled : settled c = true) : s.manager.NotRunning o := by
  intro c' hc'
  obtain ⟨id, -, hfind⟩ := Option.bind_eq_some_iff.mp hc
  obtain rfl := Option.some.inj ((find_eq_some.mp hfind).1.symm.trans hc')
  cases hstatus : c.status <;> simp_all [settled]

/-- **The step of the decision.** -/
theorem due_of_decision (hsound : s.Sound) {i : Nat} {o : Owner} {stage stage' : CheckStage}
    {x : CheckOutcome} (hstep : s.step k (.go i x) = some s') (hc : s.checks[i]? = some ⟨o, stage⟩)
    (hc' : s'.checks[i]? = some ⟨o, stage'⟩) (hmove : CheckMove k s o stage x stage')
    (hcurrent : s.current k (.go i x) = true) (hbefore : stage.decided = false)
    (hdecided : stage'.decided = true) : s'.Due k i o := by
  have hknows := hsound.knows _ (List.mem_of_getElem? hc)
  obtain ⟨c₀, stage₁, w, stamps, hc₀, -, rfl, hsame⟩ := step_go hstep
  obtain rfl := Option.some.inj (hc.symm.trans hc₀)
  cases hmove with
  | settled r timeout c hfound hsettled =>
    obtain ⟨rfl, rfl⟩ := hsame rfl
    simp only [Monitored.current, hc, hfound, Option.any_some, hsettled, Bool.not_true,
      Bool.false_or] at hcurrent
    obtain ⟨hexpired, hunblocked⟩ := expired_of_stands hcurrent hknows.2
    exact ⟨heldBy_of_decided hc' hdecided, hknows.1, hexpired, hunblocked,
      .inl (notRunning_of_settled hfound hsettled)⟩
  | idle r timeout groups directory hidle =>
    obtain ⟨rfl, rfl⟩ := hsame rfl
    simp only [Monitored.current, hc, hidle, Bool.not_true, Bool.false_or] at hcurrent
    obtain ⟨hexpired, hunblocked⟩ := expired_of_stands hcurrent hknows.2
    refine ⟨heldBy_of_decided hc' hdecided, hknows.1, hexpired, hunblocked, .inr ?_⟩
    rw [Monitored.toldIdle, hc']
    exact hidle
  | goes _ _ hstage => rw [hstage] at hbefore; cases hbefore
  | read | expired | healthy | listed | answered => cases hdecided
  | plain _ _ _ hplain => cases stage' <;> first | cases hdecided; done | cases hplain

/-- The history goes on under the lock. -/
theorem DueSince.snoc {i : Nat} {o : Owner} {t : Monitored} {is : List Tick}
    (h : DueSince k i o s is) (hrun : (monitored k).run s is = some t) (hsound : t.Sound)
    {c : Check} (hc : t.checks[i]? = some c) (ho : c.holds = some o) (e : Tick) :
    DueSince k i o s (is ++ [e]) := by
  refine Machine.Since.snoc (monitored k) h hrun fun u js hjs ⟨hdue, halong⟩ => ⟨hdue, ?_⟩
  refine (monitored k).along_append halong hjs ⟨⟨?_, ?_⟩, fun v _ => trivial⟩
  · rw [Monitored.HeldBy, hc]
    exact ho
  · exact hsound.not_grants (List.mem_of_getElem? hc) ho e

end Decision

/-- The history of every check that has decided to remove a container. -/
theorem dueSince_run {k : Config} {image : String} {is : List Tick} {s : Monitored}
    (hrun : (monitored k).run (.initial image) is = some s)
    (hcurrent : (monitored k).Along (fun w e => w.current k e = true) (.initial image) is)
    {i : Nat} {o : Owner} {stage : CheckStage} (hc : s.checks[i]? = some ⟨o, stage⟩)
    (hdecided : stage.decided = true) : DueSince k i o (.initial image) is := by
  let I : List Tick → Monitored → Prop := fun is s =>
    (monitored k).Along (fun w e => w.current k e = true) (.initial image) is →
      ∀ (i : Nat) o stage, s.checks[i]? = some ⟨o, stage⟩ → stage.decided = true →
        DueSince k i o (.initial image) is
  have hI : I is s := by
    refine (monitored k).run_history (fun _ i o stage hc => by simp [Monitored.initial] at hc) ?_ hrun
    intro is t e u hrun hbefore hstep hcurrent i o stage hc hdecided
    have hbefore := hbefore (Machine.along_prefix (monitored k) hcurrent)
    have hnow := ((monitored k).along_suffix hcurrent hrun).1
    have hsound := sound_run hrun
    rcases checks_step hstep hc with hold | ⟨o', hasContainer, heq⟩ | ⟨x, c, stage', rfl, hold, heq, hnext⟩
    · have hheld := heldBy_of_decided hold hdecided
      rw [Monitored.HeldBy, hold] at hheld
      exact (hbefore i o stage hold hdecided).snoc hrun hsound hold hheld e
    · obtain ⟨rfl, rfl⟩ := Check.mk.inj heq
      cases hdecided
    · obtain ⟨o₀, stage₀⟩ := c
      obtain ⟨rfl, rfl⟩ := Check.mk.inj heq
      cases hstage₀ : stage₀.decided with
      | true =>
        have hheld := heldBy_of_decided hold hstage₀
        rw [Monitored.HeldBy, hold] at hheld
        exact (hbefore i o stage₀ hold hstage₀).snoc hrun hsound hold hheld _
      | false =>
        have hdue := due_of_decision hsound hstep hold hc (next_move hnext) hnow hstage₀ hdecided
        rw [← List.append_nil (is ++ [Tick.go i x])]
        refine (monitored k).since_now [] ?_ ⟨hdue, trivial⟩
        rw [(monitored k).run_append_eq hrun]
        exact (monitored k).run_cons hstep
  exact hI hcurrent i o stage hc hdecided

/-- **A container that is removed was due.** In every run in which what a check has read still stands when
it decides, a check that removes the container of a sandbox has held the lock of the user since a moment at
which there was no lease, the idle timeout had passed since the recorded activity, the Agent was not blocked
and the container did not run or all sessions were idle; and no lease was granted on the sandbox since. -/
theorem removed_when_due {k : Config} {image : String} {is : List Tick} {s : Monitored}
    (hrun : (monitored k).run (.initial image) is = some s)
    (hcurrent : (monitored k).Along (fun w e => w.current k e = true) (.initial image) is)
    {i : Nat} {o : Owner} {c : Check} (hc : s.checks[i]? = some c) (hremoves : c.removes = some o) :
    (monitored k).Since (fun u js => u.Due k i o ∧
      (monitored k).Along (fun w e => w.HeldBy i o ∧ w.grants e ≠ some o) u js) (.initial image) is := by
  obtain ⟨o', stage⟩ := c
  unfold Check.removes at hremoves
  split at hremoves
  next hstage =>
    obtain rfl := Option.some.inj hremoves
    obtain rfl : stage = _ := hstage
    exact dueSince_run hrun hcurrent hc rfl
  next => cases hremoves

/-! ## A check goes by an old time stamp -/

instance (s : Monitored) (i : Nat) (o : Owner) : Decidable (s.HeldBy i o) :=
  inferInstanceAs (Decidable (_ = _))

instance (k : Config) (s : Monitored) (i : Nat) (o : Owner) : Decidable (s.Due k i o) :=
  decidable_of_iff (s.HeldBy i o ∧ count s.manager.inUse o = 0 ∧ s.expired k o = true ∧
      s.manager.blocks o.1 = false ∧ (s.manager.NotRunning o ∨ s.toldIdle i = true))
    ⟨fun ⟨h₁, h₂, h₃, h₄, h₅⟩ => ⟨h₁, h₂, h₃, h₄, h₅⟩,
      fun h => ⟨h.held, h.unused, h.expired, h.unblocked, h.idle⟩⟩

/-- A sandbox may be idle for ten seconds. -/
def tenSeconds : Config := ⟨fun _ _ => 10⟩

/-- All that a check does that finds an idle sandbox, from the definition up to the removal. -/
def evicting (i : Nat) : List Tick :=
  [.ok, .ok, .ok, .ok, .ok, .statuses "/workspace", .statuses "/workspace/sessions/s", .ok, .ok].map (.go i)

/-- After twenty seconds without a request the sandbox is taken up. -/
def forgotten : List Tick :=
  used.map .manager ++ [.clock 20, .check ("a", "u") true] ++ [.ok, .ok, .ok].map (.go 0) ++ evicting 0

theorem forgotten_removed_when_due : ∃ s c, (monitored tenSeconds).run (.initial "image") forgotten = some s ∧
    s.checks[0]? = some c ∧ c.removes = some ("a", "u") ∧
      (monitored tenSeconds).Since (fun u js => u.Due tenSeconds 0 ("a", "u") ∧
        (monitored tenSeconds).Along (fun w e => w.HeldBy 0 ("a", "u") ∧ w.grants e ≠ some ("a", "u")) u js)
        (.initial "image") forgotten := by
  have hremoves : (((monitored tenSeconds).run (.initial "image") forgotten).all fun s =>
      !(s.checks[0]?).any fun c => c.removes == some ("a", "u")) = false := by decide +kernel
  obtain ⟨s, hrun, hs⟩ := (monitored tenSeconds).exists_run_of_all_eq_false hremoves
  simp only [Bool.not_eq_false', Option.any_eq_true, beq_iff_eq] at hs
  obtain ⟨c, hc, hremoves⟩ := hs
  exact ⟨s, c, hrun, hc, hremoves, removed_when_due hrun (by decide +kernel) hc hremoves⟩

/-- A request that was under way for twenty seconds ends when the check has read the row. -/
def ending : List Tick :=
  (used ++ [Event.request ("a", "u") .read] ++
    answers 1 [.ok, .ok, .ok, .resources none, .ok, .ok, .ok, .ok, .ok]).map .manager ++
  [.clock 20, .check ("a", "u") true] ++ [.ok, .ok, .ok].map (.go 0) ++
  (answers 1 [.ok, .ok]).map .manager ++ evicting 0

/-- The check still goes by the time before the request: at no moment was the container due. -/
theorem evicted_while_active : ¬ ∀ (k : Config) image is s (i : Nat) (c : Check) o,
    (monitored k).run (.initial image) is = some s → s.checks[i]? = some c → c.removes = some o →
      (monitored k).Since (fun u js => u.Due k i o ∧
        (monitored k).Along (fun w e => w.HeldBy i o ∧ w.grants e ≠ some o) u js) (.initial image) is := by
  intro hall
  have hremoves : (((monitored tenSeconds).run (.initial "image") ending).all fun s =>
      !(s.checks[0]?).any fun c => c.removes == some ("a", "u")) = false := by decide +kernel
  obtain ⟨s, hrun, hs⟩ := (monitored tenSeconds).exists_run_of_all_eq_false hremoves
  simp only [Bool.not_eq_false', Option.any_eq_true, beq_iff_eq] at hs
  obtain ⟨c, hc, hremoves⟩ := hs
  obtain ⟨js, ks, u, hsplit, hjs, hdue, -⟩ :=
    hall tenSeconds "image" ending s 0 c _ hrun hc hremoves
  -- at no moment, the last one included
  have hnever : (monitored tenSeconds).Along (fun u _ => ¬ u.Due tenSeconds 0 ("a", "u"))
      (.initial "image") (ending ++ [.clock 20]) := by decide +kernel
  rw [hsplit, List.append_assoc] at hnever
  have hrest := (monitored tenSeconds).along_suffix hnever hjs
  cases ks with
  | nil => exact hrest.1 hdue
  | cons e ks => exact hrest.1 hdue

end OpencodeCloud.Sandbox.Eviction
