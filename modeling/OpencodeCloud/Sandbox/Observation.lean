/-
# OpencodeCloud.Sandbox.Observation -- the operations that only look at a sandbox

`last_active_at` of a row is three things: the clock of the idle eviction, the generation by which a client
says what it has seen, and a part of the fingerprint that a deletion is confirmed by. Details, lists, previews,
impacts and the health check read rows; some of them write as well. Three functions write the status of a
row: `mark_sandbox_status` and `upsert_sandbox` set the time too, `set_health_status` leaves it alone.

The rows are those of the registry with all their columns. What Docker, the runtime and the catalog answer is
part of an operation.
-/
import OpencodeCloud.Library.Checks
import OpencodeCloud.Library.Machine
import OpencodeCloud.Sandbox.Docker

namespace OpencodeCloud.Sandbox.Observation

open OpencodeCloud.Library OpencodeCloud.Library.Checked
open OpencodeCloud.Sandbox.Backend (DockerStatus)

/-! ## The registry -/

/-- A time of `utc_now`. -/
abbrev Time : Type := Nat

inductive SandboxStatus
  | creating | ready | unhealthy | failed | stopped | destroyed | missing
  deriving DecidableEq

structure SandboxRecord where
  sandboxId : String
  agentId : String
  username : String
  containerId : Option String
  hostPort : Option Nat
  status : SandboxStatus
  imageVersion : String
  lastActiveAt : Time
  createdAt : Time
  deriving DecidableEq

structure SessionRoute where
  sessionId : String
  sandboxId : String
  agentId : String
  username : String
  workspaceRelpath : String
  createdAt : Time
  lastActiveAt : Time
  deriving DecidableEq

/-- What sessions are doing, as far as the manager knows. -/
inductive Execution
  | idle | busy | unknown
  deriving DecidableEq

/-- A force preview: what the sandbox was like when it was taken. -/
structure Preview where
  expires : Time
  sandboxId : String
  containerId : Option String
  activityGeneration : Time
  sessions : List SessionRoute
  execution : Execution
  deriving DecidableEq

/-- The registry and the memory of the manager, as far as these operations use them. -/
structure Manager where
  /-- the rows of `sandboxes`, in their order -/
  sandboxes : List SandboxRecord
  sessions : List SessionRoute
  /-- the version of the path in `agents` -/
  agents : Dict String String
  inUse : Dict String Nat
  eventSubscribers : Dict String Nat
  requests : Dict String Nat
  acquiring : Dict String Nat
  blocked : List String
  /-- the staged version of an agent -/
  overrides : Dict String String
  verified : Dict String String
  previews : Dict String Preview
  /-- failed health checks in a row -/
  failures : Dict String Nat

namespace Manager

/-- `d.get(key, 0)`. -/
def count (d : Dict String Nat) (key : String) : Nat := (d.lookup key).getD 0

def getSandbox (m : Manager) (agentId username : String) : Option SandboxRecord :=
  m.sandboxes.find? fun r => r.agentId == agentId && r.username == username

/-- Change the rows with this id. -/
def update (m : Manager) (sandboxId : String) (f : SandboxRecord → SandboxRecord) : Manager :=
  { m with sandboxes := m.sandboxes.map fun r => if r.sandboxId = sandboxId then f r else r }

def markSandboxStatus (m : Manager) (sandboxId : String) (status : SandboxStatus) (now : Time) :
    Manager :=
  m.update sandboxId fun r => { r with status := status, lastActiveAt := now }

def touchSandbox (m : Manager) (sandboxId : String) (now : Time) : Manager :=
  m.update sandboxId fun r => { r with lastActiveAt := now }

def setHealthStatus (m : Manager) (sandboxId : String) (status : SandboxStatus) : Manager :=
  m.update sandboxId fun r => { r with status := status }

def listSessionsForSandbox (m : Manager) (sandboxId : String) : List SessionRoute :=
  m.sessions.filter (·.sandboxId == sandboxId)

/-- `by_sid`. -/
def bySid (m : Manager) (sid : String) : Checked SandboxRecord :=
  match m.sandboxes.find? (·.sandboxId == sid) with
  | some r => .ok r
  | none => raise 404 "Sandbox not found"

/-! ## What a sandbox is doing -/

def activeRequestLeases (m : Manager) (sid : String) : Nat :=
  count m.inUse sid - count m.eventSubscribers sid

end Manager

/-- What Docker says of a container. -/
inductive Lookup
  /-- it is not the sandbox's own -/
  | foreign
  /-- Docker's answer is an error -/
  | raises
  | absent
  | found (status : DockerStatus)

/-- The container does not run, and nothing starts it but the manager. -/
def Lookup.stopped : Lookup → Bool
  | .found status => status == .created || status == .exited || status == .dead
  | _ => false

/-- Asking for the container, or verifying that it is the sandbox's own, raises. -/
def Lookup.fails : Lookup → Bool
  | .foreign | .raises => true
  | _ => false

/-- The answers to the status requests of all directories of a sandbox. -/
inductive Statuses
  | failed
  /-- they are no dictionary -/
  | malformed
  /-- the `type` of every session -/
  | listed (types : List (Option String))

/-- What `execution` finds when it asks. -/
structure Inspection where
  /-- the container of the row -/
  endpoint : Lookup
  /-- the container under the row's id or the sandbox's name -/
  existing : Lookup
  statuses : Statuses

/-- `execution(record)`. -/
def Manager.execution (m : Manager) (r : SandboxRecord) (a : Inspection) : Checked Execution :=
  if m.activeRequestLeases r.sandboxId ≠ 0 || Manager.count m.requests r.agentId ≠ 0 ||
      Manager.count m.acquiring r.agentId ≠ 0 then .ok .busy
  else
    match a.endpoint with
    | .foreign => .ok .unknown
    | .raises => .error .other
    | .found .running =>
      match a.statuses with
      | .failed | .malformed => .ok .unknown
      | .listed types =>
        if types.any fun t => t == some "busy" || t == some "retry" then .ok .busy
        else if types.all (· == some "idle") then .ok .idle
        else .ok .unknown
    | _ =>
      match a.existing with
      | .foreign => .ok .unknown
      | .raises => .error .other
      | .absent => .ok .idle
      | existing => .ok (if existing.stopped then .idle else .unknown)

/-! ## The operations -/

/-- What `detail` answers. -/
structure Detail where
  record : SandboxRecord
  execution : Execution
  activityGeneration : Time
  containerState : Option DockerStatus
  sessions : Nat
  activeRequestLeases : Nat
  eventSubscriptions : Nat

/-- What `detail_sid` answers besides: the sessions and the version of the agent. -/
structure DetailSid where
  detail : Detail
  sessions : List (SessionRoute × Execution)
  configurationVersion : Option String

/-- What a deletion of an agent would delete, and the rows that the fingerprint is taken of. -/
structure Impact where
  sandboxes : List String
  sessions : Nat
  fingerprint : List SandboxRecord × List SessionRoute
  deriving DecidableEq

structure ApplicationStatus where
  version : String
  staged : Bool
  verified : Bool
  blocked : Bool

namespace Manager

/-- `detail`: a container that is seen not to run is recorded as stopped. -/
def detail (m : Manager) (agentId username : String) (now : Time) (container : Lookup)
    (a : Inspection) : Checked Detail × Manager :=
  match m.getSandbox agentId username with
  | none => (raise 404 "Sandbox not found", m)
  | some r =>
    let m' := if container.stopped then m.markSandboxStatus r.sandboxId .stopped now else m
    let r' := if container.stopped then (m'.getSandbox agentId username).getD r else r
    let result : Checked Detail := do
      let execution ← match container with
        | .foreign | .raises => .ok .unknown
        | _ => m'.execution r' a
      return {
        record := r'
        execution := execution
        activityGeneration := r'.lastActiveAt
        containerState := match container with | .found status => some status | _ => none
        sessions := (m'.listSessionsForSandbox r'.sandboxId).length
        activeRequestLeases := m'.activeRequestLeases r'.sandboxId
        eventSubscriptions := count m'.eventSubscribers r'.sandboxId }
    (result, m')

/-- `detail_sid`, less the measurements that Docker answers. -/
def detailSid (m : Manager) (sid : String) (now : Time) (container : Lookup) (a : Inspection) :
    Checked DetailSid × Manager :=
  match m.bySid sid with
  | .error e => (.error e, m)
  | .ok r =>
    let (result, m') := m.detail r.agentId r.username now container a
    (result.map fun d => {
      detail := d
      sessions := (m'.listSessionsForSandbox sid).map fun s =>
        (s, if d.execution = .idle then .idle else .unknown)
      configurationVersion := m'.agents.lookup r.agentId }, m')

/-- `list_sandboxes`; `matching` says in which rows the searched text occurs. -/
def listSandboxes (m : Manager) (agentId : Option String) (status : Option SandboxStatus)
    (matching : SandboxRecord → Bool) (offset limit : Nat) : Nat × List SandboxRecord :=
  let items := m.sandboxes.filter fun r =>
    agentId.all (fun a => a == "" || r.agentId == a) && status.all (r.status == ·) && matching r
  (items.length, (items.drop offset).take (min 200 (max 1 limit)))

/-- `force_preview`. -/
def forcePreview (m : Manager) (sid pid : String) (now : Time) (a : Inspection) :
    Checked Preview × Manager :=
  match m.bySid sid with
  | .error e => (.error e, m)
  | .ok r =>
    match m.execution r a with
    | .error e => (.error e, m)
    | .ok execution =>
      let preview : Preview := ⟨now + 300, sid, r.containerId, r.lastActiveAt,
        m.listSessionsForSandbox sid, execution⟩
      (.ok preview, { m with previews := m.previews.insert pid preview })

/-- `impact`, of an agent id that is one. -/
def impact (m : Manager) (aid : String) : Impact :=
  let records := m.sandboxes.filter (·.agentId == aid)
  let sessions := records.flatMap fun r => m.listSessionsForSandbox r.sandboxId
  ⟨records.map (·.sandboxId), sessions.length, (records, sessions)⟩

/-- `application_status`; `definition` is the version that the catalog's bundle has, if it is loaded. -/
def applicationStatus (m : Manager) (aid : String) (definition : Checked String) :
    Checked ApplicationStatus := do
  let version ← definition
  return {
    version := version
    staged := (m.overrides.lookup aid).isSome
    verified := m.verified.lookup aid == some version
    blocked := m.blocked.contains aid || m.blocked.contains "*" }

end Manager

/-! ## The health check -/

/-- What a health check of one sandbox is answered. -/
structure HealthAnswers where
  /-- a load test runs for the user -/
  activeUser : Checked Bool
  now : Time
  /-- the idle timeout of the agent's definition -/
  timeout : Checked Nat
  /-- the container of the row, when an overdue sandbox is checked -/
  overdue : Lookup
  /-- the container of the row, when it is recorded as stopped -/
  stopped : Lookup
  /-- the runtime answers healthy, with the expected version -/
  healthy : Bool
  sessions : Statuses
  /-- the container of the row, before it is stopped -/
  last : Lookup
  /-- stopping and removing succeed -/
  stops : Bool
  removes : Bool

namespace Manager

/-- `_remove_idle_container`. -/
def removeIdleContainer (m : Manager) (r : SandboxRecord) (removes : Bool) : Manager :=
  if removes then
    { m.update r.sandboxId fun row => { row with
        containerId := none, hostPort := none, status := .stopped,
        imageVersion := r.imageVersion, lastActiveAt := r.lastActiveAt } with
      failures := m.failures.erase r.sandboxId }
  else m

/-- The sandbox is idle for as long as its definition allows. -/
def overdue (r : SandboxRecord) (timeout : Nat) (now : Time) : Bool := r.lastActiveAt + timeout ≤ now

/-- What follows a failed probe. -/
def probeFails (m : Manager) (threshold : Nat) (r : SandboxRecord) : Manager :=
  let failed := count m.failures r.sandboxId + 1
  let m' := { m with failures := m.failures.insert r.sandboxId failed }
  if threshold ≤ failed then m'.setHealthStatus r.sandboxId .unhealthy else m'

/-- What follows a successful probe, up to the question whether the sandbox is idle. -/
def probeSucceeds (m : Manager) (r : SandboxRecord) : Manager :=
  let m' := { m with failures := m.failures.erase r.sandboxId }
  if r.status = .unhealthy ∨ r.status = .stopped then m'.setHealthStatus r.sandboxId .ready else m'

/-- The native sessions of an overdue sandbox are asked for; all of them must be idle. -/
def evictIdle (m : Manager) (r : SandboxRecord) (a : HealthAnswers) : Manager :=
  match a.sessions with
  | .failed => m
  | .malformed => m.touchSandbox r.sandboxId a.now
  | .listed types =>
    if types.any (· != some "idle") then m.touchSandbox r.sandboxId a.now
    else
      match a.last with
      | .found _ => if a.stops then m.removeIdleContainer r a.removes else m
      | _ => m

/-- What is done after a successful probe. -/
def afterProbe (m : Manager) (r : SandboxRecord) (timeout : Nat) (a : HealthAnswers) : Manager :=
  if count m.inUse r.sandboxId ≠ 0 then m.touchSandbox r.sandboxId a.now
  else if !overdue r timeout a.now then m
  else m.evictIdle r a

/-- The part of `_check_sandbox` that asks for the container and the runtime. -/
def observe (m : Manager) (threshold : Nat) (r : SandboxRecord) (timeout : Nat) (a : HealthAnswers) :
    Manager :=
  let due := overdue r timeout a.now && count m.inUse r.sandboxId == 0
  if due && a.overdue.fails then m
  else if due && a.overdue.stopped then m.removeIdleContainer r a.removes
  else if r.status == .stopped && a.stopped.fails then m
  else if r.status == .stopped && a.stopped.stopped then
    { m with failures := m.failures.erase r.sandboxId }
  else if !a.healthy then m.probeFails threshold r
  else (m.probeSucceeds r).afterProbe r timeout a

/-- `_check_sandbox`, for a row of the snapshot; `threshold` is `health_failure_threshold`. -/
def checkSandbox (m : Manager) (threshold : Nat) (snapshot : SandboxRecord) (a : HealthAnswers) :
    Manager :=
  match a.activeUser, m.getSandbox snapshot.agentId snapshot.username, a.timeout with
  | .ok false, some r, .ok timeout =>
    if m.blocked.contains snapshot.agentId || m.blocked.contains "*" || snapshot.containerId.isNone ||
        !(r.status == .ready || r.status == .unhealthy || r.status == .stopped) then m
    else m.observe threshold r timeout a
  -- the load runner owns the sandbox, there is none, or an answer was an exception
  | _, _, _ => m

end Manager

/-! ## Sequences of operations -/

inductive Op
  | detail (agentId username : String) (now : Time) (container : Lookup) (a : Inspection)
  | detailSid (sid : String) (now : Time) (container : Lookup) (a : Inspection)
  | list (agentId : Option String) (status : Option SandboxStatus)
      (matching : SandboxRecord → Bool) (offset limit : Nat)
  | forcePreview (sid pid : String) (now : Time) (a : Inspection)
  | impact (aid : String)
  | applicationStatus (aid : String) (definition : Checked String)
  | health (snapshot : SandboxRecord) (a : HealthAnswers)

namespace Manager

def step (threshold : Nat) (m : Manager) : Op → Option Manager
  | .detail agentId username now container a => some (m.detail agentId username now container a).2
  | .detailSid sid now container a => some (m.detailSid sid now container a).2
  | .forcePreview sid pid now a =>
    -- the identifier is new
    if (m.previews.lookup pid).isSome then none else some (m.forcePreview sid pid now a).2
  | .list .. | .impact _ | .applicationStatus .. => some m
  | .health snapshot a => some (m.checkSandbox threshold snapshot a)

end Manager

/-- A manager on which these operations are called. -/
def observation (threshold : Nat) : Machine Manager Op := ⟨Manager.step threshold⟩

/-! ## What they leave alone -/

namespace Manager

/-- The `activity_generation` of a sandbox. -/
def activityGeneration (m : Manager) (sid : String) : Option Time :=
  (m.sandboxes.find? (·.sandboxId == sid)).map (·.lastActiveAt)

/-- The idle clock of a sandbox. -/
def idleFor (m : Manager) (sid : String) (now : Time) : Option Nat :=
  (m.activityGeneration sid).map (now - ·)

/-- The check of a force preview by `sandbox_action`. -/
def validPreview (m : Manager) (sid pid : String) (now : Time) : Bool :=
  match m.previews.lookup pid, m.sandboxes.find? (·.sandboxId == sid) with
  | some preview, some r =>
    preview.sandboxId == sid && now ≤ preview.expires && preview.containerId == r.containerId &&
      preview.activityGeneration == r.lastActiveAt
  | _, _ => false

/-- The statuses of an agent's sandboxes. -/
def statuses (m : Manager) (aid : String) : List SandboxStatus :=
  (m.sandboxes.filter (·.agentId == aid)).map (·.status)

/-- Nothing that `last_active_at` stands for has changed from `m` to `t`; the fingerprint of a deletion,
which is taken of whole rows, has changed only with a status. -/
structure Unmoved (m t : Manager) : Prop where
  generation : ∀ sid, t.activityGeneration sid = m.activityGeneration sid
  idle : ∀ sid now, t.idleFor sid now = m.idleFor sid now
  previews : ∀ sid pid now, m.validPreview sid pid now = true → t.validPreview sid pid now = true
  fingerprint : ∀ aid,
    (t.impact aid).fingerprint = (m.impact aid).fingerprint ↔ t.statuses aid = m.statuses aid

end Manager

/-- The health check comes to a decision about an overdue sandbox, and carries it out: it removes the
container, or counts sessions that are at work as activity. -/
def Manager.decides (r : SandboxRecord) (a : HealthAnswers) : Bool :=
  if a.overdue.fails then false
  else if a.overdue.stopped then a.removes
  else if r.status == .stopped && (a.stopped.fails || a.stopped.stopped) then false
  else
    a.healthy && match a.sessions with
      | .failed => false
      | .malformed => true
      | .listed types =>
        types.any (· != some "idle") || match a.last with
          | .found _ => a.stops && a.removes
          | _ => false

/-- An operation that only looks: a detail sees no stopped container, and a health check is one of a
sandbox without leases that is not overdue, or comes to no decision about it. -/
def Manager.Looks (m : Manager) : Op → Prop
  | .detail _ _ _ container _ | .detailSid _ _ container _ => container.stopped = false
  | .health snapshot a => ∀ r, m.getSandbox snapshot.agentId snapshot.username = some r →
      Manager.count m.inUse r.sandboxId = 0 ∧
        ∀ timeout, a.timeout = .ok timeout → Manager.overdue r timeout a.now = true →
          Manager.decides r a = false
  | _ => True

/-! ## One operation -/

/-- A row without its status. -/
def SandboxRecord.unlabelled (r : SandboxRecord) : SandboxRecord := { r with status := .missing }

/-- The rows are the same but for their statuses, the sessions are the same, and the previews are kept. -/
structure Manager.Same (m t : Manager) : Prop where
  rows : t.sandboxes.map SandboxRecord.unlabelled = m.sandboxes.map SandboxRecord.unlabelled
  sessions : t.sessions = m.sessions
  previews : ∀ pid p, m.previews.lookup pid = some p → t.previews.lookup pid = some p

namespace Manager.Same

variable {m t u : Manager}

theorem refl (m : Manager) : m.Same m := ⟨rfl, rfl, fun _ _ h => h⟩

theorem trans (h : m.Same t) (h' : t.Same u) : m.Same u :=
  ⟨h'.rows.trans h.rows, h'.sessions.trans h.sessions,
    fun pid p hp => h'.previews pid p (h.previews pid p hp)⟩

theorem setHealthStatus (m : Manager) (sid : String) (status : SandboxStatus) :
    m.Same (m.setHealthStatus sid status) := by
  refine ⟨?_, rfl, fun _ _ h => h⟩
  simp only [Manager.setHealthStatus, update, List.map_map]
  refine List.map_congr_left fun r _ => ?_
  simp only [Function.comp]
  split <;> rfl

theorem probeFails (m : Manager) (threshold : Nat) (r : SandboxRecord) :
    m.Same (m.probeFails threshold r) := by
  have hcount : ∀ d, m.Same { m with failures := d } := fun d => ⟨rfl, rfl, fun _ _ h => h⟩
  unfold Manager.probeFails
  dsimp only
  split
  · exact (hcount _).trans (setHealthStatus _ _ _)
  · exact hcount _

theorem probeSucceeds (m : Manager) (r : SandboxRecord) : m.Same (m.probeSucceeds r) := by
  have hcount : ∀ d, m.Same { m with failures := d } := fun d => ⟨rfl, rfl, fun _ _ h => h⟩
  unfold Manager.probeSucceeds
  dsimp only
  split
  · exact (hcount _).trans (setHealthStatus _ _ _)
  · exact hcount _

theorem inUse_probeSucceeds (m : Manager) (r : SandboxRecord) :
    (m.probeSucceeds r).inUse = m.inUse := by
  unfold Manager.probeSucceeds
  dsimp only
  split <;> rfl

/-- The sessions cannot be read, or they are idle and the container is not removed. -/
theorem evictIdle {r : SandboxRecord} {a : HealthAnswers}
    (h : (match a.sessions with
      | .failed => false
      | .malformed => true
      | .listed types =>
        types.any (· != some "idle") || match a.last with
          | .found _ => a.stops && a.removes
          | _ => false) = false) : m.Same (m.evictIdle r a) := by
  unfold Manager.evictIdle
  cases hsessions : a.sessions with
  | failed => exact refl m
  | malformed => simp [hsessions] at h
  | listed types =>
    simp only [hsessions, Bool.or_eq_false_iff] at h
    dsimp only
    rw [h.1, if_neg Bool.false_ne_true]
    cases hlast : a.last with
    | found status =>
      have hlast' := h.2
      rw [hlast] at hlast'
      dsimp only at hlast' ⊢
      cases hstops : a.stops with
      | false => exact refl m
      | true =>
        rw [hstops, Bool.true_and] at hlast'
        simpa [removeIdleContainer, hlast'] using refl m
    | _ => exact refl m

/-- A health check that removes no container and counts no session as activity. -/
theorem observe {threshold : Nat} {r : SandboxRecord} {timeout : Nat} {a : HealthAnswers}
    (hfree : count m.inUse r.sandboxId = 0)
    (hdecides : overdue r timeout a.now = true → decides r a = false) :
    m.Same (m.observe threshold r timeout a) := by
  have hafter : overdue r timeout a.now = false →
      m.Same ((m.probeSucceeds r).afterProbe r timeout a) := by
    intro hearly
    rw [Manager.afterProbe, if_neg (by rw [inUse_probeSucceeds]; exact not_not.mpr hfree), hearly]
    exact probeSucceeds m r
  unfold Manager.observe
  cases hoverdue : overdue r timeout a.now with
  | false =>
    simp only [Bool.false_and, Bool.false_eq_true, if_false]
    split
    · exact refl m
    · split
      · exact ⟨rfl, rfl, fun _ _ h => h⟩
      · split
        · exact probeFails m threshold r
        · exact hafter hoverdue
  | true =>
    have hdecides := hdecides hoverdue
    rw [decides] at hdecides
    simp only [hfree, beq_self_eq_true, Bool.and_self, Bool.true_and]
    cases hfails : a.overdue.fails with
    | true => exact refl m
    | false =>
      rw [hfails, if_neg Bool.false_ne_true] at hdecides
      rw [if_neg Bool.false_ne_true]
      cases hstopped : a.overdue.stopped with
      | true =>
        rw [hstopped, if_pos rfl] at hdecides
        simpa [removeIdleContainer, hdecides] using refl m
      | false =>
        rw [hstopped, if_neg Bool.false_ne_true] at hdecides
        rw [if_neg Bool.false_ne_true]
        split
        · exact refl m
        · next hgone =>
          split
          · exact ⟨rfl, rfl, fun _ _ h => h⟩
          · next hoff =>
            have hruns : (r.status == .stopped && (a.stopped.fails || a.stopped.stopped)) = false := by
              rw [Bool.and_or_distrib_left]
              simp only [Bool.not_eq_true] at hgone hoff
              rw [hgone, hoff]
              rfl
            rw [hruns, if_neg Bool.false_ne_true] at hdecides
            cases hhealthy : a.healthy with
            | false => exact probeFails m threshold r
            | true =>
              rw [hhealthy, Bool.true_and] at hdecides
              rw [Bool.not_true, if_neg Bool.false_ne_true, Manager.afterProbe,
                if_neg (by rw [inUse_probeSucceeds]; exact not_not.mpr hfree), hoverdue,
                Bool.not_true, if_neg Bool.false_ne_true]
              exact (probeSucceeds m r).trans (evictIdle hdecides)

theorem checkSandbox {threshold : Nat} {snapshot : SandboxRecord} {a : HealthAnswers}
    (h : m.Looks (.health snapshot a)) : m.Same (m.checkSandbox threshold snapshot a) := by
  unfold Manager.checkSandbox
  split
  · next r timeout _ hr htimeout =>
    obtain ⟨hfree, hdecides⟩ := h r hr
    split
    · exact refl m
    · exact observe hfree (hdecides timeout htimeout)
  · exact refl m

theorem detail {agentId username : String} {now : Time} {container : Lookup} {a : Inspection}
    (h : container.stopped = false) :
    m.Same (m.detail agentId username now container a).2 := by
  unfold Manager.detail
  split
  · exact refl m
  · simpa [h] using refl m

/-- **What an operation that only looks leaves alone.** -/
theorem step {threshold : Nat} {op : Op} (h : m.Looks op) (hstep : m.step threshold op = some t) :
    m.Same t := by
  cases op with
  | detail agentId username now container a =>
    obtain rfl := Option.some.inj hstep
    exact detail h
  | detailSid sid now container a =>
    obtain rfl := Option.some.inj hstep
    unfold Manager.detailSid
    split
    · exact refl m
    · exact detail h
  | list | impact | applicationStatus =>
    obtain rfl := Option.some.inj hstep
    exact refl m
  | forcePreview sid pid now a =>
    simp only [Manager.step] at hstep
    split at hstep
    · cases hstep
    · next hnew =>
      obtain rfl := Option.some.inj hstep
      unfold Manager.forcePreview
      split
      · exact refl m
      · split
        · exact refl m
        · refine ⟨rfl, rfl, fun pid' p hp => ?_⟩
          have hne : pid' ≠ pid := by
            rintro rfl
            simp [hp] at hnew
          exact (AList.lookup_insert_ne hne).trans hp
  | health snapshot a =>
    obtain rfl := Option.some.inj hstep
    exact checkSandbox h

/-! ## What follows -/

theorem find (h : m.Same t) (sid : String) :
    (t.sandboxes.find? (·.sandboxId == sid)).map SandboxRecord.unlabelled =
      (m.sandboxes.find? (·.sandboxId == sid)).map SandboxRecord.unlabelled := by
  have hmap : ∀ l : List SandboxRecord,
      (l.find? (·.sandboxId == sid)).map SandboxRecord.unlabelled =
        (l.map SandboxRecord.unlabelled).find? (·.sandboxId == sid) := by
    intro l
    rw [List.find?_map]
    rfl
  rw [hmap, hmap, h.rows]

theorem generation (h : m.Same t) (sid : String) :
    t.activityGeneration sid = m.activityGeneration sid := by
  have := congrArg (Option.map (·.lastActiveAt)) (h.find sid)
  simpa [activityGeneration, Option.map_map, Function.comp_def, SandboxRecord.unlabelled] using this

theorem validPreview (h : m.Same t) {sid pid : String} {now : Time}
    (hvalid : m.validPreview sid pid now = true) : t.validPreview sid pid now = true := by
  have hfind := h.find sid
  unfold Manager.validPreview at hvalid ⊢
  cases hp : m.previews.lookup pid with
  | none => simp [hp] at hvalid
  | some preview =>
    rw [h.previews pid preview hp]
    cases hr : m.sandboxes.find? (·.sandboxId == sid) with
    | none => simp [hp, hr] at hvalid
    | some r =>
      rw [hr, Option.map_some] at hfind
      obtain ⟨r', hr', hrow⟩ := Option.map_eq_some_iff.mp hfind
      simp only [hp, hr] at hvalid
      simp only [hr']
      have hcontainer : r'.containerId = r.containerId := congrArg (·.containerId) hrow
      have hactive : r'.lastActiveAt = r.lastActiveAt := congrArg (·.lastActiveAt) hrow
      rw [hcontainer, hactive]
      exact hvalid

/-- Rows that are the same but for their statuses are the same if their statuses are. -/
theorem rows_eq_iff {l l' : List SandboxRecord}
    (h : l.map SandboxRecord.unlabelled = l'.map SandboxRecord.unlabelled) :
    l = l' ↔ l.map (·.status) = l'.map (·.status) := by
  refine ⟨fun heq => heq ▸ rfl, fun hstatus => ?_⟩
  induction l generalizing l' with
  | nil => exact (List.map_eq_nil_iff.mp h.symm).symm
  | cons r l ih =>
    cases l' with
    | nil => cases h
    | cons r' l' =>
      simp only [List.map_cons, List.cons.injEq] at h hstatus
      have hrow : r = r' := by
        obtain ⟨hr, -⟩ := h
        obtain ⟨hs, -⟩ := hstatus
        cases r
        cases r'
        simp only [SandboxRecord.unlabelled, SandboxRecord.mk.injEq] at hr hs ⊢
        tauto
      rw [hrow, ih h.2 hstatus.2]

theorem fingerprint (h : m.Same t) (aid : String) :
    (t.impact aid).fingerprint = (m.impact aid).fingerprint ↔ t.statuses aid = m.statuses aid := by
  have hfilter : ∀ l : List SandboxRecord,
      (l.filter (·.agentId == aid)).map SandboxRecord.unlabelled =
        (l.map SandboxRecord.unlabelled).filter (·.agentId == aid) := by
    intro l
    rw [List.filter_map]
    rfl
  have hrows : (t.sandboxes.filter (·.agentId == aid)).map SandboxRecord.unlabelled =
      (m.sandboxes.filter (·.agentId == aid)).map SandboxRecord.unlabelled := by
    rw [hfilter, hfilter, h.rows]
  refine Iff.trans ⟨fun heq => congrArg Prod.fst heq, fun heq => ?_⟩ (rows_eq_iff hrows)
  have hrecords : t.sandboxes.filter (·.agentId == aid) = m.sandboxes.filter (·.agentId == aid) :=
    heq
  simp only [impact, listSessionsForSandbox, h.sessions, hrecords]

theorem unmoved (h : m.Same t) : m.Unmoved t where
  generation := h.generation
  idle sid now := by rw [idleFor, idleFor, h.generation]
  previews _ _ _ := h.validPreview
  fingerprint := h.fingerprint

end Manager.Same

/-- **Looking is not acting.** From any state, and after any sequence of operations that only look, what
`last_active_at` stands for is unchanged. -/
theorem looking_leaves_activity {threshold : Nat} {m : Manager} {ops : List Op}
    (h : (observation threshold).Along Manager.Looks m ops) :
    (observation threshold).Throughout m.Unmoved m ops := by
  have hsame : (observation threshold).Throughout m.Same m ops :=
    (observation threshold).throughout_of_along
      (fun _ _ _ hs hlooks hstep => Manager.Same.trans hs (.step hlooks hstep)) (.refl m) h
  exact hsame.imp _ fun _ hs => hs.unmoved

/-! ## A sandbox that is checked -/

/-- The row of a sandbox that was active at the beginning of time. -/
def loneRow : SandboxRecord := ⟨"sbx", "code", "alice", some "c1", some 4096, .ready, "1.0", 0, 0⟩

/-- A manager with one sandbox, which has no leases. -/
def loneManager : Manager := ⟨[loneRow], [], ∅, ∅, ∅, ∅, ∅, [], ∅, ∅, ∅, ∅⟩

/-- A check at time 100, of an agent with this idle timeout. -/
def checkAt (timeout : Nat) (healthy : Bool) (types : List (Option String)) : Op :=
  .health loneRow ⟨.ok false, 100, .ok timeout, .found .running, .found .running, healthy,
    .listed types, .found .running, true, true⟩

/-- A check before the sandbox is overdue, one whose probe fails, a preview and a list. -/
theorem looking_leaves_activity_lone :
    (observation 3).Throughout loneManager.Unmoved loneManager
      [checkAt 500 true [], checkAt 10 false [], .forcePreview "sbx" "p1" 7 ⟨.absent, .absent, .failed⟩,
        .list none none (fun _ => true) 0 50] := by
  refine looking_leaves_activity ⟨?_, ?_⟩
  · intro r hr
    obtain rfl := Option.some.inj hr
    refine ⟨rfl, fun timeout htimeout hoverdue => ?_⟩
    obtain rfl := Except.ok.inj htimeout
    exact absurd hoverdue (by decide)
  · intro t ht
    obtain rfl := Option.some.inj ht
    refine ⟨?_, ?_⟩
    · intro r hr
      obtain rfl := Option.some.inj hr
      refine ⟨rfl, fun timeout htimeout _ => ?_⟩
      obtain rfl := Except.ok.inj htimeout
      rfl
    · intro t ht
      obtain rfl := Option.some.inj ht
      refine ⟨trivial, fun t ht => ?_⟩
      obtain rfl := Option.some.inj ht
      exact ⟨trivial, fun _ _ => trivial⟩

/-- A check of an overdue sandbox without leases moves its clock when a session is at work; a check that
fails changes the fingerprint, because it changes the status. -/
theorem checks_move_activity :
    Manager.count loneManager.inUse "sbx" = 0 ∧
    (∃ t, (observation 1).run loneManager [checkAt 10 true [some "busy"]] = some t ∧
      t.activityGeneration "sbx" ≠ loneManager.activityGeneration "sbx") ∧
    ∃ t, (observation 1).run loneManager [checkAt 500 false []] = some t ∧
      (t.impact "code").fingerprint ≠ (loneManager.impact "code").fingerprint := by
  refine ⟨rfl, ⟨_, rfl, by decide⟩, ⟨_, rfl, by decide⟩⟩

end OpencodeCloud.Sandbox.Observation
