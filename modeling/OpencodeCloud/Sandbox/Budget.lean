/-
# OpencodeCloud.Sandbox.Budget -- what a load test may ask of the host

`calculate` adds up what the containers of the host may still claim: every live container and every sandbox,
stopped ones included, with its CPU and memory limit, and with the part of the memory limit it does not use
yet. What is left of the host after that and after the system's reserve is the budget of a snapshot, and
`check_capacity` admits the rows of a request against it.

**An admitted request fits**: its CPU and memory, with all that is counted, stay within what the reserve
leaves (`admitted_within_budget`). A request that is rejected for lack of capacity is told how many users of each
agent would fit, and that number is the largest (`maximum_fits`). Numbers are exact here; the snapshot's rounded figures are for display,
and the two that the decision is made on are rounded down.
-/
import OpencodeCloud.Library.Checks
import OpencodeCloud.Library.Dict
import Mathlib.Algebra.Order.Floor.Ring
import Mathlib.Algebra.Order.BigOperators.Group.List
import Mathlib.Data.Rat.Floor
import Mathlib.Tactic.Linarith

namespace OpencodeCloud.Sandbox.Budget

open OpencodeCloud.Library

/-! ## §A The host and its containers -/

/-- `docker info` -/
structure Info where
  ncpu : ℤ
  memTotal : ℤ
  deriving DecidableEq

/-- `host_sample()` -/
structure HostSample where
  memoryMb : ℚ
  memoryAvailableMb : ℚ
  cpuUsagePercent : ℚ

/-- The statuses of a Docker container. -/
inductive Status
  | created | running | paused | restarting | removing | exited | dead
  deriving DecidableEq

/-- The limits in `HostConfig`; a field that is missing is zero. -/
structure HostConfig where
  nanoCpus : ℤ
  cpuQuota : ℤ
  cpuPeriod : ℤ
  memory : ℤ

structure Container where
  id : String
  status : Status
  labels : Dict String String
  hostConfig : HostConfig
  memoryUsageMb : ℚ

/-- `LoadCapacityConfig` -/
structure Policy where
  reservedCpu : ℚ
  reservedMemoryMb : ℚ
  reserveFraction : ℚ
  maxCpuUsagePercent : ℚ
  deriving DecidableEq

/-- `item["status"] in {"running", "restarting", "paused"}` -/
def Container.live (c : Container) : Bool :=
  c.status == .running || c.status == .restarting || c.status == .paused

/-- `bool(item["labels"].get("cloud.agent_id"))` -/
def Container.sandbox (c : Container) : Bool :=
  match c.labels.lookup "cloud.agent_id" with
  | none => false
  | some agent => agent != ""

namespace HostConfig

/-- The variable `limit_cpu`. -/
def limitCpu (h : HostConfig) : ℚ :=
  let limit : ℚ := h.nanoCpus / 10 ^ 9
  if limit = 0 ∧ 0 < h.cpuQuota ∧ 0 < h.cpuPeriod then h.cpuQuota / h.cpuPeriod else limit

/-- The variable `limit_memory`. -/
def limitMemory (h : HostConfig) : ℚ := h.memory / 1024 ^ 2

end HostConfig

/-! ## §B The budget -/

/-- The variables of the loop over the containers. -/
structure Totals where
  cpu : ℚ
  memory : ℚ
  growth : ℚ
  unknown : List String
  sandboxCount : ℕ
  running : ℕ

/-- One round of the loop. -/
def Totals.add (t : Totals) (c : Container) : Totals :=
  if !c.live && !c.sandbox then t
  else
    let limitCpu := c.hostConfig.limitCpu
    let limitMemory := c.hostConfig.limitMemory
    let usage := if c.live then c.memoryUsageMb else 0
    { cpu := t.cpu + max 0 limitCpu
      memory := t.memory + max 0 limitMemory
      growth := t.growth + max 0 (limitMemory - usage)
      -- unlimited services are covered by the observed usage, unlimited sandboxes block
      unknown := if c.sandbox && (limitCpu ≤ 0 || limitMemory ≤ 0) then t.unknown ++ [c.id] else t.unknown
      sandboxCount := if c.live && c.sandbox then t.sandboxCount + 1 else t.sandboxCount
      running := if c.live then t.running + 1 else t.running }

/-- The loop over the containers. -/
def totals (containers : List Container) : Totals :=
  containers.foldl Totals.add ⟨0, 0, 0, [], 0, 0⟩

/-- `round(x, digits)`: to the nearest, and to an even last digit between two. -/
def roundTo (digits : ℕ) (x : ℚ) : ℚ :=
  let y := x * 10 ^ digits
  let rest := y - ⌊y⌋
  let rounded := if rest < 1 / 2 ∨ (rest = 1 / 2 ∧ ⌊y⌋ % 2 = 0) then ⌊y⌋ else ⌊y⌋ + 1
  rounded / 10 ^ digits

/-- The result of `calculate`, without the constant `known`. -/
structure Snapshot where
  sampledAt : ℚ
  admissionAllowed : Bool
  reasons : List String
  cpuCount : ℤ
  memoryMb : ℚ
  cpuUsagePercent : ℚ
  memoryAvailableMb : ℚ
  allocatedCpu : ℚ
  allocatedMemoryMb : ℚ
  reservedCpu : ℚ
  reservedMemoryMb : ℚ
  remainingCpu : ℚ
  remainingMemoryMb : ℚ
  runningSandboxes : ℕ
  runningContainers : ℕ
  unboundedSandboxes : ℕ
  policy : Policy
  deriving DecidableEq

/-- `info["MemTotal"] / 1024**2` -/
def Info.totalMemory (info : Info) : ℚ := info.memTotal / 1024 ^ 2

/-- The variable `reserved_cpu`. -/
def reservedCpu (info : Info) (policy : Policy) : ℚ :=
  max policy.reservedCpu (info.ncpu * policy.reserveFraction)

/-- The variable `reserved_memory`. -/
def reservedMemory (info : Info) (policy : Policy) : ℚ :=
  max policy.reservedMemoryMb (info.totalMemory * policy.reserveFraction)

section Calculate

variable (info : Info) (host : HostSample) (containers : List Container) (policy : Policy)

/-- The variable `remaining_cpu`. -/
def remainingCpu : ℚ := info.ncpu - reservedCpu info policy - (totals containers).cpu

/-- The variable `remaining_memory`. -/
def remainingMemory : ℚ :=
  min (info.totalMemory - reservedMemory info policy - (totals containers).memory)
    (host.memoryAvailableMb - reservedMemory info policy - (totals containers).growth)

/-- The variable `reasons`. -/
def reasons : List String :=
  (if (totals containers).unknown ≠ [] then ["存在未设置 CPU 或内存上限的沙箱，无法计算可分配预算"] else []) ++
    (if policy.maxCpuUsagePercent ≤ host.cpuUsagePercent then ["服务器 CPU 当前繁忙，请等待负载下降"] else []) ++
    if remainingCpu info containers policy < 0 ∨ remainingMemory info host containers policy < 0 then
      ["当前配额或实际内存已侵占系统预留，请先释放资源"]
    else []

/-- `calculate(info, host, containers, policy)`; `now` is what `time.time()` gives. -/
def calculate (now : ℚ) : Checked Snapshot :=
  if info.ncpu ≤ 0 ∨ info.totalMemory ≤ 0
      ∨ info.totalMemory * (5 / 100) < |info.totalMemory - host.memoryMb| then
    -- `ValueError("Docker daemon and /proc host do not agree")`
    .error .other
  else
    .ok
      { sampledAt := now
        admissionAllowed := (reasons info host containers policy).isEmpty
        reasons := reasons info host containers policy
        cpuCount := info.ncpu
        memoryMb := roundTo 1 info.totalMemory
        cpuUsagePercent := roundTo 1 host.cpuUsagePercent
        memoryAvailableMb := roundTo 1 host.memoryAvailableMb
        allocatedCpu := roundTo 3 (totals containers).cpu
        allocatedMemoryMb := roundTo 1 (totals containers).memory
        reservedCpu := roundTo 3 (reservedCpu info policy)
        reservedMemoryMb := roundTo 1 (reservedMemory info policy)
        remainingCpu := ⌊max 0 (remainingCpu info containers policy) * 1000⌋ / 1000
        remainingMemoryMb := ⌊max 0 (remainingMemory info host containers policy)⌋
        runningSandboxes := (totals containers).sandboxCount
        runningContainers := (totals containers).running
        unboundedSandboxes := (totals containers).unknown.length
        policy := policy }

end Calculate

/-! ## §C Admission -/

/-- What `LoadCapacity.snapshot` answers: a snapshot, or that sampling has failed. -/
inductive Reading
  | unknown
  | known (s : Snapshot)

/-- A requested row; `users` is 1 when it is left out. -/
structure Row where
  agentId : String
  users : Option ℕ
  cpuLimit : ℚ
  memoryMb : ℚ

/-- `a.get("users", 1)` -/
def Row.count (a : Row) : ℕ := a.users.getD 1

/-- `sum(a["cpu_limit"] * a.get("users", 1) for a in agents)` -/
def requestedCpu (agents : List Row) : ℚ := (agents.map fun a => a.cpuLimit * (a.count : ℚ)).sum

/-- `sum(a["memory_mb"] * a.get("users", 1) for a in agents)` -/
def requestedMemory (agents : List Row) : ℚ := (agents.map fun a => a.memoryMb * (a.count : ℚ)).sum

/-- One round of the grouping by agent: the first row of an agent, with the users of all its rows. -/
def addRow : List Row → Row → List Row
  | [], a => [{ a with users := some a.count }]
  | row :: rows, a =>
    if row.agentId = a.agentId then { row with users := some (row.count + a.count) } :: rows
    else row :: addRow rows a

/-- The variable `grouped`. -/
def grouped (agents : List Row) : List Row := agents.foldl addRow []

/-- The variable `maximum` of a group: its users when the other rows keep theirs. -/
def maximum (s : Snapshot) (cpu memory : ℚ) (a : Row) : ℤ :=
  let otherCpu := cpu - a.cpuLimit * (a.count : ℚ)
  let otherMemory := memory - a.memoryMb * (a.count : ℚ)
  max 0 (min ⌊(s.remainingCpu - otherCpu) / a.cpuLimit⌋
    ⌊(s.remainingMemoryMb - otherMemory) / a.memoryMb⌋)

/-- The ways in which `check_capacity` fails. -/
inductive Refusal
  | unavailable
  | blocked (reasons : List String)
  | exceeded (cpu memory remainingCpu remainingMemoryMb : ℚ) (suggestions : List (String × ℤ))
  deriving DecidableEq

/-- The status of the HTTP answer. -/
def Refusal.status : Refusal → ℕ
  | .unavailable => 503
  | .blocked _ => 409
  | .exceeded .. => 409

/-- The text of the HTTP answer; `g` writes a number as the format `g` does. -/
def Refusal.detail (g : ℚ → String) : Refusal → String
  | .unavailable => "服务器资源状态未知或已过期，暂不允许启动压测"
  | .blocked reasons => String.intercalate "；" reasons
  | .exceeded cpu memory remainingCpu remainingMemoryMb suggestions =>
    "压测需要 " ++ g cpu ++ " 核 / " ++ g memory ++ " MiB，当前可分配 " ++ g remainingCpu ++ " 核 / "
      ++ g remainingMemoryMb ++ " MiB。"
      ++ String.intercalate "；"
          (suggestions.map fun m => m.1 ++ " 最多 " ++ toString m.2 ++ " 用户（其他行不变）")

/-- `check_capacity(snapshot, agents)`; `now` is what `time.time()` gives. -/
def checkCapacity (now : ℚ) (snapshot : Reading) (agents : List Row) : Except Refusal Unit :=
  match snapshot with
  | .unknown => .error .unavailable
  | .known s =>
    if 15 < now - s.sampledAt then .error .unavailable
    else if !s.admissionAllowed then .error (.blocked s.reasons)
    else if s.remainingCpu + 1 / 10 ^ 8 < requestedCpu agents
        ∨ s.remainingMemoryMb < requestedMemory agents then
      .error (.exceeded (requestedCpu agents) (requestedMemory agents) s.remainingCpu s.remainingMemoryMb
        ((grouped agents).map fun a =>
          (a.agentId, maximum s (requestedCpu agents) (requestedMemory agents) a)))
    else .ok ()

/-- What an admitted request has passed. -/
theorem checkCapacity_eq_ok {now : ℚ} {s : Snapshot} {agents : List Row} {u : Unit}
    (h : checkCapacity now (.known s) agents = .ok u) :
    s.admissionAllowed = true ∧ requestedCpu agents ≤ s.remainingCpu + 1 / 10 ^ 8 ∧
      requestedMemory agents ≤ s.remainingMemoryMb := by
  unfold checkCapacity at h
  dsimp only at h
  split at h
  · cases h
  · split at h
    · cases h
    · next hallowed =>
      split at h
      · cases h
      · next hfits =>
        push Not at hfits
        exact ⟨by simpa using hallowed, hfits.1, hfits.2⟩

/-! ## §D What the loop adds up -/

/-- The containers that may claim something: the live ones and all sandboxes. -/
def claiming (containers : List Container) : List Container :=
  containers.filter fun c => c.live || c.sandbox

/-- The CPU limit of a container, where it has one. -/
def Container.cpuLimit (c : Container) : Option ℚ :=
  if 0 < c.hostConfig.nanoCpus then some (c.hostConfig.nanoCpus / 10 ^ 9)
  else if c.hostConfig.nanoCpus = 0 ∧ 0 < c.hostConfig.cpuQuota ∧ 0 < c.hostConfig.cpuPeriod then
    some (c.hostConfig.cpuQuota / c.hostConfig.cpuPeriod)
  else none

/-- The memory limit of a container in MiB, where it has one. -/
def Container.memoryLimit (c : Container) : Option ℚ :=
  if 0 < c.hostConfig.memory then some (c.hostConfig.memory / 1024 ^ 2) else none

/-- What a container may still take of its memory limit; one that is stopped uses nothing. -/
def Container.unusedMemory (c : Container) : ℚ :=
  match c.memoryLimit with
  | none => 0
  | some limit => max 0 (limit - if c.live then c.memoryUsageMb else 0)

namespace Container

variable (c : Container)

/-- The CPU limits as the loop reads them. -/
theorem cpuLimit_getD : c.cpuLimit.getD 0 = max 0 c.hostConfig.limitCpu := by
  have hnano : ∀ n : ℤ, ((n : ℚ) / 10 ^ 9 = 0 ↔ n = 0) := fun n => by simp
  unfold cpuLimit HostConfig.limitCpu
  simp only [hnano]
  split
  · next hpos =>
    have hne : c.hostConfig.nanoCpus ≠ 0 := by omega
    rw [if_neg fun h => hne h.1, Option.getD_some, max_eq_right]
    positivity
  · next hpos =>
    split
    · next hquota =>
      rw [Option.getD_some, max_eq_right]
      have hq : (0 : ℚ) < c.hostConfig.cpuQuota := by exact_mod_cast hquota.2.1
      have hp : (0 : ℚ) < c.hostConfig.cpuPeriod := by exact_mod_cast hquota.2.2
      exact (div_pos hq hp).le
    · rw [Option.getD_none, max_eq_left]
      have hn : (c.hostConfig.nanoCpus : ℚ) ≤ 0 := by exact_mod_cast not_lt.mp hpos
      exact div_nonpos_of_nonpos_of_nonneg hn (by positivity)

theorem memoryLimit_getD : c.memoryLimit.getD 0 = max 0 c.hostConfig.limitMemory := by
  unfold memoryLimit HostConfig.limitMemory
  split
  · rw [Option.getD_some, max_eq_right]
    positivity
  · next hpos =>
    have hn : (c.hostConfig.memory : ℚ) ≤ 0 := by exact_mod_cast not_lt.mp hpos
    rw [Option.getD_none, max_eq_left]
    exact div_nonpos_of_nonpos_of_nonneg hn (by positivity)

/-- The loop never counts less than the unused part of the limit. -/
theorem unusedMemory_le :
    c.unusedMemory ≤ max 0 (c.hostConfig.limitMemory - if c.live then c.memoryUsageMb else 0) := by
  unfold unusedMemory memoryLimit HostConfig.limitMemory
  split
  · exact le_max_left _ _
  · next limit hlimit =>
    split at hlimit
    · obtain rfl := Option.some.inj hlimit
      exact le_rfl
    · cases hlimit

/-- A limit is missing exactly where the loop finds none. -/
theorem cpuLimit_isSome (h : 0 < c.hostConfig.limitCpu) : c.cpuLimit.isSome = true := by
  have hget := c.cpuLimit_getD
  rw [max_eq_right h.le] at hget
  cases hlimit : c.cpuLimit with
  | some limit => rfl
  | none =>
    rw [hlimit, Option.getD_none] at hget
    exact absurd hget h.ne

theorem memoryLimit_isSome (h : 0 < c.hostConfig.limitMemory) : c.memoryLimit.isSome = true := by
  have hget := c.memoryLimit_getD
  rw [max_eq_right h.le] at hget
  cases hlimit : c.memoryLimit with
  | some limit => rfl
  | none =>
    rw [hlimit, Option.getD_none] at hget
    exact absurd hget h.ne

end Container

theorem claiming_cons (c : Container) (containers : List Container) : claiming (c :: containers) =
    if (c.live || c.sandbox) = true then c :: claiming containers else claiming containers :=
  List.filter_cons

/-- What one round of the loop adds. -/
theorem Totals.add_eq (t : Totals) (c : Container) :
    (t.add c).cpu = t.cpu + (if c.live || c.sandbox then c.cpuLimit.getD 0 else 0) ∧
      (t.add c).memory = t.memory + (if c.live || c.sandbox then c.memoryLimit.getD 0 else 0) ∧
      t.growth + (if c.live || c.sandbox then c.unusedMemory else 0) ≤ (t.add c).growth ∧
      ((t.add c).unknown = [] → t.unknown = [] ∧
        (c.sandbox = true → c.cpuLimit.isSome = true ∧ c.memoryLimit.isSome = true)) := by
  unfold Totals.add
  by_cases hcounted : (c.live || c.sandbox) = true
  · have hnot : (!c.live && !c.sandbox) = false := by
      cases hlive : c.live <;> cases hsandbox : c.sandbox <;> simp_all
    simp only [hnot, hcounted, Bool.false_eq_true, if_false, if_true, c.cpuLimit_getD, c.memoryLimit_getD,
      true_and]
    refine ⟨add_le_add_right c.unusedMemory_le _, fun hunknown => ?_⟩
    split at hunknown
    · simp at hunknown
    · next hlimited =>
      refine ⟨hunknown, fun hsandbox => ?_⟩
      simp only [hsandbox, Bool.true_and, Bool.or_eq_true, decide_eq_true_eq, not_or, not_le] at hlimited
      exact ⟨c.cpuLimit_isSome hlimited.1, c.memoryLimit_isSome hlimited.2⟩
  · rw [Bool.not_eq_true, Bool.or_eq_false_iff] at hcounted
    simp [hcounted.1, hcounted.2]

/-- The whole loop, from any state of its variables. -/
theorem foldl_add (containers : List Container) (t : Totals) :
    (containers.foldl Totals.add t).cpu
        = t.cpu + ((claiming containers).map fun c => c.cpuLimit.getD 0).sum ∧
      (containers.foldl Totals.add t).memory
        = t.memory + ((claiming containers).map fun c => c.memoryLimit.getD 0).sum ∧
      t.growth + ((claiming containers).map (·.unusedMemory)).sum
        ≤ (containers.foldl Totals.add t).growth ∧
      ((containers.foldl Totals.add t).unknown = [] → t.unknown = [] ∧
        ∀ c ∈ containers, c.sandbox = true → c.cpuLimit.isSome = true ∧ c.memoryLimit.isSome = true) := by
  induction containers generalizing t with
  | nil => simp [claiming]
  | cons c containers ih =>
    obtain ⟨hcpu, hmemory, hgrowth, hunknown⟩ := ih (t.add c)
    obtain ⟨hcpu₁, hmemory₁, hgrowth₁, hunknown₁⟩ := t.add_eq c
    rw [List.foldl_cons]
    refine ⟨?_, ?_, ?_, fun h => ?_⟩
    · rw [hcpu, hcpu₁, claiming_cons]
      split <;> simp [add_assoc]
    · rw [hmemory, hmemory₁, claiming_cons]
      split <;> simp [add_assoc]
    · refine le_trans ?_ hgrowth
      rw [claiming_cons]
      split
      · next hcounted =>
        rw [if_pos hcounted] at hgrowth₁
        rw [List.map_cons, List.sum_cons, ← add_assoc]
        exact add_le_add_left hgrowth₁ _
      · next hcounted =>
        rw [if_neg hcounted, add_zero] at hgrowth₁
        exact add_le_add_left hgrowth₁ _
    · obtain ⟨hmid, hrest⟩ := hunknown h
      obtain ⟨hstart, hhead⟩ := hunknown₁ hmid
      exact ⟨hstart, List.forall_mem_cons.mpr ⟨hhead, hrest⟩⟩

/-! ## §E An admitted request fits -/

/-- Nothing that blocks an admission was found. -/
theorem reasons_isEmpty {info : Info} {host : HostSample} {containers : List Container} {policy : Policy}
    (h : (reasons info host containers policy).isEmpty = true) :
    (totals containers).unknown = [] ∧ host.cpuUsagePercent < policy.maxCpuUsagePercent ∧
      0 ≤ remainingCpu info containers policy ∧ 0 ≤ remainingMemory info host containers policy := by
  rw [List.isEmpty_iff, reasons, List.append_eq_nil_iff, List.append_eq_nil_iff] at h
  obtain ⟨⟨hunknown, hbusy⟩, hleft⟩ := h
  have hnil : ∀ {p : Prop} [Decidable p] {text : String}, (if p then [text] else []) = [] → ¬p := by
    intro p _ text hif hp
    rw [if_pos hp] at hif
    cases hif
  have hleft := hnil hleft
  push Not at hleft
  exact ⟨not_not.mp (hnil hunknown), not_le.mp (hnil hbusy), hleft.1, hleft.2⟩

/-- Rounding down never raises a budget that is not negative. -/
theorem floor_thousandth_le {x : ℚ} (h : 0 ≤ x) : (⌊max 0 x * 1000⌋ : ℚ) / 1000 ≤ x := by
  rw [max_eq_right h, div_le_iff₀ (by norm_num)]
  exact Int.floor_le _

theorem floor_max_le {x : ℚ} (h : 0 ≤ x) : (⌊max 0 x⌋ : ℚ) ≤ x := by
  rw [max_eq_right h]
  exact Int.floor_le x

/-- **An admitted request fits.** Its CPU with the limits of all live containers and all sandboxes is at most
what the reserve leaves of the host, up to the tolerance of the comparison; its memory with their limits is
at most what the reserve leaves, and with the unused part of their limits at most what it leaves of the
available memory. No sandbox is without a limit, and the CPU usage is below the maximum. -/
theorem admitted_within_budget {info : Info} {host : HostSample} {containers : List Container}
    {policy : Policy} {sampled now : ℚ} {s : Snapshot} {agents : List Row}
    (hs : calculate info host containers policy sampled = .ok s)
    (hadmitted : checkCapacity now (.known s) agents = .ok ()) :
    requestedCpu agents + ((claiming containers).map fun c => c.cpuLimit.getD 0).sum
        ≤ info.ncpu - reservedCpu info policy + 1 / 10 ^ 8 ∧
      requestedMemory agents + ((claiming containers).map fun c => c.memoryLimit.getD 0).sum
        ≤ info.totalMemory - reservedMemory info policy ∧
      requestedMemory agents + ((claiming containers).map (·.unusedMemory)).sum
        ≤ host.memoryAvailableMb - reservedMemory info policy ∧
      (∀ c ∈ containers, c.sandbox = true → c.cpuLimit.isSome = true ∧ c.memoryLimit.isSome = true) ∧
      host.cpuUsagePercent < policy.maxCpuUsagePercent := by
  unfold calculate at hs
  split at hs
  · cases hs
  obtain rfl := Except.ok.inj hs
  obtain ⟨hallowed, hcpu, hmemory⟩ := checkCapacity_eq_ok hadmitted
  obtain ⟨hunknown, hbusy, hcpuLeft, hmemoryLeft⟩ := reasons_isEmpty hallowed
  obtain ⟨hcpuSum, hmemorySum, hgrowthSum, hlimited⟩ := foldl_add containers ⟨0, 0, 0, [], 0, 0⟩
  rw [zero_add] at hcpuSum hmemorySum hgrowthSum
  have hcpuTotal := hcpu.trans (add_le_add_left (floor_thousandth_le hcpuLeft) _)
  have hmemoryTotal := hmemory.trans (floor_max_le hmemoryLeft)
  obtain ⟨hquota, havailable⟩ := le_min_iff.mp hmemoryTotal
  rw [remainingCpu, totals, hcpuSum] at hcpuTotal
  rw [totals, hmemorySum] at hquota
  rw [totals] at havailable
  refine ⟨by linarith, by linarith, by linarith, (hlimited hunknown).2, hbusy⟩

/-- The host of the tests: eight cores, 16000 MiB, one sandbox of two cores and 4000 MiB that uses 1000. -/
def testInfo : Info := ⟨8, 16000 * 1024 ^ 2⟩

def testHost : HostSample := ⟨16000, 7000, 20⟩

def testContainers : List Container :=
  [⟨"c1", .running, (∅ : Dict String String).insert "cloud.agent_id" "agent-code",
    ⟨2 * 10 ^ 9, 0, 0, 4000 * 1024 ^ 2⟩, 1000⟩]

/-- The default policy. -/
def defaultPolicy : Policy := ⟨1, 1024, 1 / 10, 90⟩

/-- The snapshot of that host. -/
def testSnapshot : Snapshot where
  sampledAt := 0
  admissionAllowed := true
  reasons := []
  cpuCount := 8
  memoryMb := 16000
  cpuUsagePercent := 20
  memoryAvailableMb := 7000
  allocatedCpu := 2
  allocatedMemoryMb := 4000
  reservedCpu := 1
  reservedMemoryMb := 1600
  remainingCpu := 5
  remainingMemoryMb := 2400
  runningSandboxes := 1
  runningContainers := 1
  unboundedSandboxes := 0
  policy := defaultPolicy

/-- Two users of one core and 1024 MiB each. -/
def testRequest : List Row := [⟨"agent-code", some 2, 1, 1024⟩]

theorem two_users_within_budget :
    requestedCpu testRequest + ((claiming testContainers).map fun c => c.cpuLimit.getD 0).sum
        ≤ testInfo.ncpu - reservedCpu testInfo defaultPolicy + 1 / 10 ^ 8 ∧
      requestedMemory testRequest + ((claiming testContainers).map fun c => c.memoryLimit.getD 0).sum
        ≤ testInfo.totalMemory - reservedMemory testInfo defaultPolicy ∧
      requestedMemory testRequest + ((claiming testContainers).map (·.unusedMemory)).sum
        ≤ testHost.memoryAvailableMb - reservedMemory testInfo defaultPolicy ∧
      (∀ c ∈ testContainers, c.sandbox = true → c.cpuLimit.isSome = true ∧ c.memoryLimit.isSome = true) ∧
      testHost.cpuUsagePercent < defaultPolicy.maxCpuUsagePercent :=
  admitted_within_budget
    (show calculate testInfo testHost testContainers defaultPolicy 0 = .ok testSnapshot by decide +kernel)
    (show checkCapacity 1 (.known testSnapshot) testRequest = .ok () by decide +kernel)

/-! ## §F The suggested numbers of users -/

/-- The limits of the rows of an agent are equal. -/
def Uniform (agents : List Row) : Prop :=
  ∀ a ∈ agents, ∀ b ∈ agents, a.agentId = b.agentId → a.cpuLimit = b.cpuLimit ∧ a.memoryMb = b.memoryMb

/-- The users that an agent is requested for, in all its rows. -/
def usersOf (agents : List Row) (agent : String) : ℕ := ((agents.filter (·.agentId == agent)).map Row.count).sum

/-- A request in which the users of an agent are set, with its limits, and all other rows are unchanged. -/
structure UsersSet (agents : List Row) (agent : String) (users : ℕ) (agents' : List Row) : Prop where
  others : agents'.filter (·.agentId != agent) = agents.filter (·.agentId != agent)
  limits : ∀ a ∈ agents', a.agentId = agent →
    ∃ b ∈ agents, b.agentId = agent ∧ a.cpuLimit = b.cpuLimit ∧ a.memoryMb = b.memoryMb
  users : usersOf agents' agent = users

section Suggestions

variable {agents agents' : List Row} {agent : String} {users : ℕ}

/-- One row with the users, in front of the others. -/
def setUsers (agents : List Row) (agent : String) (users : ℕ) : List Row :=
  ((agents.find? (·.agentId == agent)).map fun a => { a with users := some users }).toList
    ++ agents.filter (·.agentId != agent)

/-- The users of an agent that is requested can be set. -/
theorem setUsers_usersSet (h : ∃ a ∈ agents, a.agentId = agent) (users : ℕ) :
    UsersSet agents agent users (setUsers agents agent users) := by
  obtain ⟨a, hfound⟩ : ∃ a, agents.find? (·.agentId == agent) = some a := by
    refine Option.isSome_iff_exists.1 (List.find?_isSome.2 ?_)
    obtain ⟨a, ha, hid⟩ := h
    exact ⟨a, ha, beq_iff_eq.2 hid⟩
  have hfits := List.find?_some hfound
  have hid : a.agentId = agent := beq_iff_eq.1 hfits
  have hmem := List.mem_of_find?_eq_some hfound
  have hnone : (agents.filter (·.agentId != agent)).filter (·.agentId == agent) = [] := by
    rw [List.filter_eq_nil_iff]
    intro b hb heq
    have hne := (List.mem_filter.1 hb).2
    rw [bne, heq] at hne
    cases hne
  have hset : setUsers agents agent users
      = { a with users := some users } :: agents.filter (·.agentId != agent) := by
    rw [setUsers, hfound]
    rfl
  refine ⟨?_, fun b hb hb' => ?_, ?_⟩
  · rw [hset, List.filter_cons_of_neg (by simp [hid]), List.filter_filter]
    exact List.filter_congr fun b _ => Bool.and_self _
  · rw [hset, List.mem_cons] at hb
    rcases hb with rfl | hb
    · exact ⟨a, hmem, hid, rfl, rfl⟩
    · exact ⟨b, (List.mem_filter.1 hb).1, hb', rfl, rfl⟩
  · rw [usersOf, hset, List.filter_cons_of_pos (by simp [hid]), hnone]
    rfl

/-- A sum over the rows is that over the rows of an agent and that over the others. -/
theorem sum_rows (f : Row → ℚ) (agent : String) (agents : List Row) :
    (agents.map f).sum = ((agents.filter (·.agentId != agent)).map f).sum
      + ((agents.filter (·.agentId == agent)).map f).sum := by
  induction agents with
  | nil => simp
  | cons a agents ih =>
    by_cases ha : a.agentId = agent
    · rw [List.filter_cons_of_neg (by simp [ha]), List.filter_cons_of_pos (by simp [ha]), List.map_cons,
        List.sum_cons, List.map_cons, List.sum_cons, ih]
      ring
    · rw [List.filter_cons_of_pos (by simp [ha]), List.filter_cons_of_neg (by simp [ha]), List.map_cons,
        List.sum_cons, List.map_cons, List.sum_cons, ih]
      ring

/-- What rows of one limit ask for. -/
theorem sum_limit {f : Row → ℚ} {limit : ℚ} {rows : List Row} (h : ∀ a ∈ rows, f a = limit) :
    (rows.map fun a => f a * (a.count : ℚ)).sum = limit * ((rows.map Row.count).sum : ℕ) := by
  induction rows with
  | nil => simp
  | cons a rows ih =>
    rw [List.forall_mem_cons] at h
    rw [List.map_cons, List.sum_cons, List.map_cons, List.sum_cons, ih h.2, h.1]
    push_cast
    ring

/-- What the rows of the other agents ask for. -/
def othersOf (f : Row → ℚ) (agents : List Row) (agent : String) : ℚ :=
  ((agents.filter (·.agentId != agent)).map fun a => f a * (a.count : ℚ)).sum

theorem requested_eq {f : Row → ℚ} {limit : ℚ} (h : ∀ a ∈ agents, a.agentId = agent → f a = limit) :
    (agents.map fun a => f a * (a.count : ℚ)).sum
      = othersOf f agents agent + limit * (usersOf agents agent : ℕ) := by
  have hrows : ∀ a ∈ agents.filter (·.agentId == agent), f a = limit := by
    intro a ha
    obtain ⟨hmem, hid⟩ := List.mem_filter.1 ha
    exact h a hmem (beq_iff_eq.1 hid)
  rw [sum_rows _ agent, othersOf, usersOf, sum_limit hrows]

/-! ### The groups -/

/-- What the groups are when some rows have passed. -/
structure GroupsOf (seen groups : List Row) : Prop where
  count : ∀ g ∈ groups, g.count = usersOf seen g.agentId
  row : ∀ g ∈ groups, ∃ a ∈ seen, a.agentId = g.agentId ∧ a.cpuLimit = g.cpuLimit ∧ a.memoryMb = g.memoryMb
  covers : ∀ a ∈ seen, ∃ g ∈ groups, g.agentId = a.agentId

theorem usersOf_append (agents : List Row) (a : Row) (agent : String) :
    usersOf (agents ++ [a]) agent = usersOf agents agent + if a.agentId = agent then a.count else 0 := by
  unfold usersOf
  by_cases ha : a.agentId = agent
  · simp [List.filter_append, ha]
  · simp [List.filter_append, ha]

theorem usersOf_eq_zero (h : ∀ a ∈ agents, a.agentId ≠ agent) : usersOf agents agent = 0 := by
  have hnone : agents.filter (·.agentId == agent) = [] :=
    List.filter_eq_nil_iff.2 fun a ha heq => h a ha (beq_iff_eq.1 heq)
  rw [usersOf, hnone]
  rfl

/-- The groups after one more row, by the identifiers that they have. -/
theorem mem_addRow {groups : List Row} {a g : Row} (hnodup : (groups.map Row.agentId).Nodup)
    (h : g ∈ addRow groups a) :
    (g ∈ groups ∧ g.agentId ≠ a.agentId)
      ∨ (∃ row ∈ groups, row.agentId = a.agentId ∧ g = { row with users := some (row.count + a.count) })
      ∨ (∀ row ∈ groups, row.agentId ≠ a.agentId) ∧ g = { a with users := some a.count } := by
  induction groups with
  | nil => exact Or.inr (Or.inr ⟨nofun, List.mem_singleton.1 h⟩)
  | cons row rows ih =>
    rw [List.map_cons, List.nodup_cons] at hnodup
    rw [addRow] at h
    split at h
    · rename_i hid
      rcases List.mem_cons.1 h with rfl | h
      · exact Or.inr (Or.inl ⟨row, List.mem_cons_self, hid, rfl⟩)
      · refine Or.inl ⟨List.mem_cons_of_mem _ h, fun heq => hnodup.1 ?_⟩
        exact List.mem_map.2 ⟨g, h, heq.trans hid.symm⟩
    · rename_i hid
      rcases List.mem_cons.1 h with rfl | h
      · exact Or.inl ⟨List.mem_cons_self, hid⟩
      · rcases ih hnodup.2 h with ⟨hmem, hne⟩ | ⟨r, hr, heq, hg⟩ | ⟨hnone, hg⟩
        · exact Or.inl ⟨List.mem_cons_of_mem _ hmem, hne⟩
        · exact Or.inr (Or.inl ⟨r, List.mem_cons_of_mem _ hr, heq, hg⟩)
        · exact Or.inr (Or.inr ⟨List.forall_mem_cons.2 ⟨hid, hnone⟩, hg⟩)

theorem ids_addRow (groups : List Row) (a : Row) :
    (addRow groups a).map Row.agentId
      = if a.agentId ∈ groups.map Row.agentId then groups.map Row.agentId
        else groups.map Row.agentId ++ [a.agentId] := by
  induction groups with
  | nil => rfl
  | cons row rows ih =>
    rw [addRow]
    by_cases hid : row.agentId = a.agentId
    · simp [hid]
    · rw [if_neg hid, List.map_cons, ih]
      by_cases hmem : a.agentId ∈ rows.map Row.agentId
      · simp [hmem]
      · simp [hmem, Ne.symm hid]

/-- One more row. -/
theorem GroupsOf.step {seen groups : List Row} (h : GroupsOf seen groups)
    (hnodup : (groups.map Row.agentId).Nodup) (a : Row) : GroupsOf (seen ++ [a]) (addRow groups a) := by
  refine ⟨fun g hg => ?_, fun g hg => ?_, fun b hb => ?_⟩
  · rw [usersOf_append]
    rcases mem_addRow hnodup hg with ⟨hmem, hne⟩ | ⟨row, hrow, hid, rfl⟩ | ⟨hnone, rfl⟩
    · rw [if_neg (Ne.symm hne), h.count g hmem, Nat.add_zero]
    · rw [if_pos hid.symm, ← h.count row hrow]
      rfl
    · have hzero : usersOf seen a.agentId = 0 := by
        refine usersOf_eq_zero fun b hb heq => ?_
        obtain ⟨g, hg, hgid⟩ := h.covers b hb
        exact hnone g hg (hgid.trans heq)
      rw [if_pos rfl, hzero, Nat.zero_add]
      rfl
  · rcases mem_addRow hnodup hg with ⟨hmem, -⟩ | ⟨row, hrow, -, rfl⟩ | ⟨-, rfl⟩
    · obtain ⟨b, hb, heq⟩ := h.row g hmem
      exact ⟨b, List.mem_append_left _ hb, heq⟩
    · obtain ⟨b, hb, heq⟩ := h.row row hrow
      exact ⟨b, List.mem_append_left _ hb, heq⟩
    · exact ⟨a, List.mem_append_right _ List.mem_cons_self, rfl, rfl, rfl⟩
  · have hin : b.agentId ∈ (addRow groups a).map Row.agentId := by
      rw [ids_addRow]
      rcases List.mem_append.1 hb with hb | hb
      · obtain ⟨g, hg, hgid⟩ := h.covers b hb
        have hmem := List.mem_map_of_mem (f := Row.agentId) hg
        rw [hgid] at hmem
        split
        · exact hmem
        · exact List.mem_append_left _ hmem
      · rw [List.mem_singleton.1 hb]
        split
        · assumption
        · exact List.mem_append_right _ List.mem_cons_self
    exact List.mem_map.1 hin

/-- **The groups of a request.** -/
theorem grouped_groupsOf (agents : List Row) : GroupsOf agents (grouped agents) := by
  have hrun : ∀ rest seen groups : List Row, GroupsOf seen groups → (groups.map Row.agentId).Nodup →
      GroupsOf (seen ++ rest) (rest.foldl addRow groups) := by
    intro rest
    induction rest with
    | nil =>
      intro seen groups h _
      rwa [List.append_nil]
    | cons a rest ih =>
      intro seen groups h hnodup
      have hnext : ((addRow groups a).map Row.agentId).Nodup := by
        rw [ids_addRow]
        split
        · exact hnodup
        · rename_i hnew
          exact List.nodup_append.2 ⟨hnodup, List.nodup_singleton _, fun x hx y hy heq =>
            hnew (List.mem_singleton.1 hy ▸ heq ▸ hx)⟩
      have hrest := ih (seen ++ [a]) (addRow groups a) (h.step hnodup a) hnext
      rwa [List.append_assoc, List.singleton_append] at hrest
  exact hrun agents [] [] ⟨nofun, nofun, nofun⟩ List.nodup_nil

/-! ### The number of users -/

/-- The quotients of the suggestion, for what the others ask for. -/
theorem maximum_spec (s : Snapshot) (cpu memory : ℚ) {g : Row} (hcpu : 0 < g.cpuLimit) (hmemory : 0 < g.memoryMb) :
    0 ≤ maximum s cpu memory g
      ∧ (0 < maximum s cpu memory g →
        (cpu - g.cpuLimit * (g.count : ℚ)) + g.cpuLimit * (maximum s cpu memory g : ℚ) ≤ s.remainingCpu
          ∧ (memory - g.memoryMb * (g.count : ℚ)) + g.memoryMb * (maximum s cpu memory g : ℚ)
            ≤ s.remainingMemoryMb)
      ∧ (s.remainingCpu < (cpu - g.cpuLimit * (g.count : ℚ)) + g.cpuLimit * ((maximum s cpu memory g : ℚ) + 1)
        ∨ s.remainingMemoryMb
          < (memory - g.memoryMb * (g.count : ℚ)) + g.memoryMb * ((maximum s cpu memory g : ℚ) + 1)) := by
  generalize hx : (s.remainingCpu - (cpu - g.cpuLimit * (g.count : ℚ))) / g.cpuLimit = x
  generalize hy : (s.remainingMemoryMb - (memory - g.memoryMb * (g.count : ℚ))) / g.memoryMb = y
  have hmax : maximum s cpu memory g = max 0 (min ⌊x⌋ ⌊y⌋) := by rw [maximum, ← hx, ← hy]
  rw [div_eq_iff hcpu.ne'] at hx
  rw [div_eq_iff hmemory.ne'] at hy
  rw [hmax]
  refine ⟨le_max_left _ _, fun hpos => ?_, ?_⟩
  · have hmin : max 0 (min ⌊x⌋ ⌊y⌋) = min ⌊x⌋ ⌊y⌋ := by omega
    have hlex : ((min ⌊x⌋ ⌊y⌋ : ℤ) : ℚ) ≤ x := le_trans (by exact_mod_cast min_le_left _ _) (Int.floor_le x)
    have hley : ((min ⌊x⌋ ⌊y⌋ : ℤ) : ℚ) ≤ y := le_trans (by exact_mod_cast min_le_right _ _) (Int.floor_le y)
    rw [hmin]
    constructor
    · nlinarith
    · nlinarith
  · have hor : ⌊x⌋ ≤ max 0 (min ⌊x⌋ ⌊y⌋) ∨ ⌊y⌋ ≤ max 0 (min ⌊x⌋ ⌊y⌋) := by omega
    rcases hor with hle | hle
    · refine Or.inl ?_
      have hlt : x < ((max 0 (min ⌊x⌋ ⌊y⌋) : ℤ) : ℚ) + 1 :=
        (Int.lt_floor_add_one x).trans_le (by exact_mod_cast Int.add_le_add_right hle 1)
      nlinarith
    · refine Or.inr ?_
      have hlt : y < ((max 0 (min ⌊x⌋ ⌊y⌋) : ℤ) : ℚ) + 1 :=
        (Int.lt_floor_add_one y).trans_le (by exact_mod_cast Int.add_le_add_right hle 1)
      nlinarith

/-- What a rejection for lack of capacity says. -/
theorem checkCapacity_exceeded {now : ℚ} {s : Snapshot} {cpu memory remainingCpu remainingMemoryMb : ℚ}
    {suggestions : List (String × ℤ)}
    (h : checkCapacity now (.known s) agents
      = .error (.exceeded cpu memory remainingCpu remainingMemoryMb suggestions)) :
    ¬ 15 < now - s.sampledAt ∧ s.admissionAllowed = true
      ∧ suggestions = (grouped agents).map fun a =>
        (a.agentId, maximum s (requestedCpu agents) (requestedMemory agents) a) := by
  unfold checkCapacity at h
  dsimp only at h
  split at h
  · cases h
  · next hfresh =>
    split at h
    · cases h
    · next hallowed =>
      split at h
      · cases h
        exact ⟨hfresh, by simpa using hallowed, rfl⟩
      · cases h

/-- **The suggested number of users is the largest that fits.** When a request is rejected for lack of capacity, each
of its agents is told a number. With that number, unless it is zero, and all other rows as they are, the request
is admitted; with one user more it exceeds what remains of the CPU or of the memory. -/
theorem maximum_fits {now : ℚ} {s : Snapshot} {cpu memory remainingCpu remainingMemoryMb : ℚ}
    {suggestions : List (String × ℤ)} (hpositive : ∀ a ∈ agents, 0 < a.cpuLimit ∧ 0 < a.memoryMb)
    (huniform : Uniform agents)
    (hrejected : checkCapacity now (.known s) agents
      = .error (.exceeded cpu memory remainingCpu remainingMemoryMb suggestions)) :
    (∀ a ∈ agents, ∃ m, (a.agentId, m) ∈ suggestions)
      ∧ ∀ agent m, (agent, m) ∈ suggestions → 0 ≤ m
        ∧ (0 < m → ∀ agents', UsersSet agents agent m.toNat agents' → checkCapacity now (.known s) agents' = .ok ())
        ∧ ∀ agents', UsersSet agents agent (m.toNat + 1) agents' →
          s.remainingCpu < requestedCpu agents' ∨ s.remainingMemoryMb < requestedMemory agents' := by
  obtain ⟨hfresh, hallowed, rfl⟩ := checkCapacity_exceeded hrejected
  have hgroups := grouped_groupsOf agents
  refine ⟨fun a ha => ?_, fun agent m hm => ?_⟩
  · obtain ⟨g, hg, hid⟩ := hgroups.covers a ha
    exact ⟨_, List.mem_map.2 ⟨g, hg, Prod.ext hid rfl⟩⟩
  obtain ⟨g, hg, heq⟩ := List.mem_map.1 hm
  obtain ⟨rfl, rfl⟩ := Prod.mk.inj heq
  obtain ⟨b, hb, hbid, hbcpu, hbmemory⟩ := hgroups.row g hg
  have hcpu : 0 < g.cpuLimit := hbcpu ▸ (hpositive b hb).1
  have hmemory : 0 < g.memoryMb := hbmemory ▸ (hpositive b hb).2
  have hlimits : ∀ a ∈ agents, a.agentId = g.agentId → a.cpuLimit = g.cpuLimit ∧ a.memoryMb = g.memoryMb := by
    intro a ha hid
    rw [← hbcpu, ← hbmemory]
    exact huniform a ha b hb (hid.trans hbid.symm)
  -- what the other rows ask for, in this request and in any with the users of the agent set
  have hothersCpu : requestedCpu agents - g.cpuLimit * (g.count : ℚ) = othersOf Row.cpuLimit agents g.agentId := by
    rw [requestedCpu, requested_eq fun a ha hid => (hlimits a ha hid).1, hgroups.count g hg]
    ring
  have hothersMemory :
      requestedMemory agents - g.memoryMb * (g.count : ℚ) = othersOf Row.memoryMb agents g.agentId := by
    rw [requestedMemory, requested_eq fun a ha hid => (hlimits a ha hid).2, hgroups.count g hg]
    ring
  have hset : ∀ users agents', UsersSet agents g.agentId users agents' →
      requestedCpu agents' = othersOf Row.cpuLimit agents g.agentId + g.cpuLimit * (users : ℚ)
        ∧ requestedMemory agents' = othersOf Row.memoryMb agents g.agentId + g.memoryMb * (users : ℚ) := by
    intro users agents' h
    have hlimits' : ∀ a ∈ agents', a.agentId = g.agentId → a.cpuLimit = g.cpuLimit ∧ a.memoryMb = g.memoryMb := by
      intro a ha hid
      obtain ⟨c, hc, hcid, hccpu, hcmemory⟩ := h.limits a ha hid
      rw [hccpu, hcmemory]
      exact hlimits c hc hcid
    constructor
    · rw [requestedCpu, requested_eq fun a ha hid => (hlimits' a ha hid).1, h.users, othersOf, h.others, othersOf]
    · rw [requestedMemory, requested_eq fun a ha hid => (hlimits' a ha hid).2, h.users, othersOf, h.others, othersOf]
  obtain ⟨hnonneg, hfits, hexceeds⟩ := maximum_spec s (requestedCpu agents) (requestedMemory agents) hcpu hmemory
  rw [hothersCpu, hothersMemory] at hfits hexceeds
  generalize maximum s (requestedCpu agents) (requestedMemory agents) g = m at hnonneg hfits hexceeds ⊢
  obtain ⟨n, rfl⟩ := Int.eq_ofNat_of_zero_le hnonneg
  refine ⟨hnonneg, fun hpos agents' h => ?_, fun agents' h => ?_⟩
  · obtain ⟨hcpu', hmemory'⟩ := hset _ agents' h
    obtain ⟨hfitsCpu, hfitsMemory⟩ := hfits hpos
    have hnot : ¬ (s.remainingCpu + 1 / 10 ^ 8 < requestedCpu agents'
        ∨ s.remainingMemoryMb < requestedMemory agents') := by
      rw [hcpu', hmemory', not_or, not_lt, not_lt]
      refine ⟨?_, ?_⟩
      · refine le_trans ?_ (le_add_of_nonneg_right (by norm_num))
        exact_mod_cast hfitsCpu
      · exact_mod_cast hfitsMemory
    unfold checkCapacity
    dsimp only
    rw [if_neg hfresh, hallowed, if_neg hnot]
    rfl
  · obtain ⟨hcpu', hmemory'⟩ := hset _ agents' h
    rw [hcpu', hmemory']
    exact_mod_cast hexceeds

end Suggestions

/-- Eight users are too many for that host, and two are not. -/
theorem two_users_suggested :
    checkCapacity 1 (.known testSnapshot) (setUsers [⟨"agent-code", some 8, 1, 1024⟩] "agent-code" 2) = .ok () := by
  have hrejected : checkCapacity 1 (.known testSnapshot) [⟨"agent-code", some 8, 1, 1024⟩]
      = .error (.exceeded 8 8192 5 2400 [("agent-code", 2)]) := by
    decide +kernel
  have hpositive : ∀ a ∈ [(⟨"agent-code", some 8, 1, 1024⟩ : Row)], 0 < a.cpuLimit ∧ 0 < a.memoryMb := by
    intro a ha
    rw [List.mem_singleton.1 ha]
    norm_num
  have huniform : Uniform [⟨"agent-code", some 8, 1, 1024⟩] := by
    intro a ha b hb _
    rw [List.mem_singleton.1 ha, List.mem_singleton.1 hb]
    exact ⟨rfl, rfl⟩
  exact ((maximum_fits hpositive huniform hrejected).2 "agent-code" 2 List.mem_cons_self).2.1 (by decide) _
    (setUsers_usersSet ⟨_, List.mem_cons_self, rfl⟩ 2)

end OpencodeCloud.Sandbox.Budget
