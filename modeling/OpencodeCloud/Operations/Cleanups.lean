/-
# OpencodeCloud.Operations.Cleanups -- the cleanup of a load test and its three journals

A cleanup is written down in three places: the status of the test and the storage states of its users, the rows of
the sandbox manager, and the receipts of the file service. The controller calls the other two services user by
user; every call may be lost before or after its effect, and every service may crash between two writes.

The sandbox manager does its part again from wherever it stopped. The file service writes a receipt before
it removes anything and completes it afterwards, and it refuses a request whose receipt is not complete. The
request identifier of a user is made of the test and the user, so a retry meets the receipt of the attempt
before.
-/
import Mathlib.Logic.Function.Basic
import OpencodeCloud.Library.Naming
import OpencodeCloud.Operations.LoadTests

namespace OpencodeCloud.Operations.Cleanups

open OpencodeCloud.Library OpencodeCloud.Catalog OpencodeCloud.Operations.LoadTests

/-! ## The sandbox manager -/

/-- A container; `own` says that its labels are those of the agent and the user. -/
structure Container where
  own : Bool
  loadTest : Option String
  deriving DecidableEq

/-- A row of `sandboxes`. -/
structure SandboxRow where
  container : Option Container
  missing : Bool
  deriving DecidableEq

/-- What the sandbox manager has of a user. -/
structure UserSandbox where
  row : Option SandboxRow
  activeRequestLeases : Nat
  deriving DecidableEq

/-- `remove_records` raises before it removes anything. -/
def UserSandbox.refuses (rid : String) (s : UserSandbox) : Bool :=
  match s.row with
  | none => false
  | some row => s.activeRequestLeases != 0 ||
      match row.container with
      | none => false
      | some c => !c.own || c.loadTest != some rid

/-- The writes of the cleanup of a sandbox, up to some of them: the container is removed, the row is
marked as missing, the row is deleted. -/
def UserSandbox.remove (s : UserSandbox) (steps : Nat) : UserSandbox :=
  { s with
    row := if 3 ≤ steps then none else s.row.map fun row =>
      { row with
        container := if 1 ≤ steps then none else row.container
        missing := row.missing || decide (2 ≤ steps) } }

/-- The cleanup of a sandbox by the manager: whether it succeeds, and what is left. -/
def UserSandbox.cleanup (rid : String) (s : UserSandbox) (steps : Nat) : Bool × UserSandbox :=
  if s.refuses rid then (false, s) else (true, s.remove steps)

/-! ## The file service -/

/-- What a receipt is about. -/
structure CleanupPayload where
  agentId : String
  username : String
  runId : String
  requestId : String
  deriving DecidableEq

/-- A row of `cleanups`; it is finished when it has a result. -/
structure Receipt where
  payload : CleanupPayload
  finished : Bool
  deriving DecidableEq

/-- The directory of a user in one root; `replaced` is a link in its place. -/
inductive Directory
  | absent | present | replaced
  deriving DecidableEq

structure UserFiles where
  workspace : Directory
  state : Directory
  deriving DecidableEq

structure FileService where
  receipts : String → Option Receipt
  files : String → UserFiles

namespace FileService

/-- `FileCoordination.replay`: whether there is a result. -/
def replay (fs : FileService) (payload : CleanupPayload) : Result Bool :=
  if payload.requestId = "" ∨ 256 < payload.requestId.length then
    fail 422 "Cleanup requires a bounded request_id"
  else
    match fs.receipts payload.requestId with
    | none => .ok false
    | some receipt =>
      if receipt.payload ≠ payload then
        fail 409 "Cleanup request_id was reused with different parameters"
      else if !receipt.finished then
        fail 409 "Cleanup was interrupted; reconcile its result before continuing"
      else .ok true

/-- `begin` and `finish`. -/
def record (fs : FileService) (payload : CleanupPayload) (finished : Bool) : FileService :=
  { fs with receipts := Function.update fs.receipts payload.requestId (some ⟨payload, finished⟩) }

/-- The directories of a user are gone, up to some of them; whether that is all. -/
def removeUser (f : UserFiles) (steps : Nat) : Bool × UserFiles :=
  if steps = 0 ∨ f.workspace = .replaced then (false, f)
  else if steps = 1 ∨ f.state = .replaced then (false, { f with workspace := .absent })
  else (true, ⟨.absent, .absent⟩)

/-- `cleanup_user`, up to some of its writes: the receipt, the two directories, the result. -/
def cleanupUser (fs : FileService) (authorized : Bool) (payload : CleanupPayload) (steps : Nat) :
    Bool × FileService :=
  match fs.replay payload with
  | .error _ => (false, fs)
  | .ok true => (true, fs)
  | .ok false =>
    if !authorized ∨ steps = 0 then (false, fs)
    else
      let (all, f) := removeUser (fs.files payload.username) (steps - 1)
      let fs' := { fs.record payload false with
        files := Function.update fs.files payload.username f }
      if all ∧ 4 ≤ steps then (true, fs'.record payload true) else (false, fs')

end FileService

/-! ## The controller -/

/-- A user that is to be cleaned up. -/
structure Target where
  username : String
  agentId : String
  deriving DecidableEq

/-- Where `_cleanup` is. -/
inductive CleanPc
  /-- it waits for the lock -/
  | waiting
  /-- it calls the sandbox manager -/
  | removing (target : Target) (left : List Target)
  /-- it calls the file service -/
  | deleting (target : Target) (left : List Target)
  /-- it writes the user's storage state -/
  | recording (target : Target) (left : List Target)
  /-- it writes that the test is cleaned -/
  | finishing
  /-- it writes that the cleanup failed -/
  | failing
  deriving DecidableEq

inductive TaskOutcome
  /-- the next statement is executed, a call with all of its effects and its answer -/
  | fine
  /-- a call is cut off after some writes of the other service, or its answer is lost -/
  | lost (steps : Nat)
  /-- the next statement raises -/
  | raised

structure System where
  ops : Controller
  cleaners : Dict String CleanPc
  sandboxes : String → UserSandbox
  fileService : FileService

/-- A new installation. -/
def System.initial : System :=
  ⟨Controller.initial, ∅, fun _ => ⟨none, 0⟩, ⟨fun _ => none, fun _ => ⟨.absent, .absent⟩⟩⟩

/-- The next user. -/
def goOn : List Target → CleanPc
  | [] => .finishing
  | target :: left => .removing target left

/-- The users that still have data. -/
def targets (r : Report) : List Target :=
  (r.users.filter fun u => u.storageState != .cleaned).map fun u => ⟨u.username, u.agentId⟩

def requestId (rid username : String) : String := rid ++ ":" ++ username

def payloadOf (rid : String) (t : Target) : CleanupPayload :=
  ⟨t.agentId, t.username, rid, requestId rid t.username⟩

/-- `username.startswith(PREFIX)`. -/
def ownsUser (username : String) : Bool := "loadtest-".toList.isPrefixOf username.toList

/-- `LoadTestStore.user`, among the users of a test. -/
def findUser (r : Report) (agentId username : String) : Option User :=
  r.users.find? fun u => decide (u.username = username ∧ u.agentId = agentId)

/-- The first writes of `cleanup`: the status of the test, and the storage state of its first `k` users. -/
def markCleaning (r : Report) (k : Nat) : Report :=
  { r with
    cleanupStatus := .cleaning
    users := (r.users.take k).map (fun u =>
      if u.storageState = .cleaned then u else { u with storageState := .cleaning }) ++ r.users.drop k }

inductive Event
  /-- everything else the controller does -/
  | ops (e : LoadTests.Event)
  /-- a cleanup is requested; its writes fail after some users where `cut` says so -/
  | cleanup (rid confirmation : String) (cut : Option Nat)
  | task (rid : String) (outcome : TaskOutcome)
  /-- a request of an earlier attempt reaches the file service late -/
  | late (payload : CleanupPayload) (steps : Nat)
  /-- native requests, health checks and administrators change the sandbox of a user -/
  | traffic (username : String) (sandbox : UserSandbox)
  /-- the directories of a user change -/
  | write (username : String) (files : UserFiles)

namespace System

/-- Change the rows of a test. -/
def updateReport (s : System) (rid : String) (f : Report → Report) : System :=
  { s with ops := { s.ops with reports := s.ops.reports.modify rid f } }

/-- `/internal/v1/cleanup-authorization`, for a user of a test. -/
def cleanupAuthorization (s : System) (p : CleanupPayload) : Bool :=
  s.ops.serving &&
    match s.ops.reports.lookup p.runId with
    | none => false
    | some r => decide (r.cleanupStatus = .cleaning) && ownsUser p.username &&
      (findUser r p.agentId p.username).any (fun u => decide (u.storageState = .cleaning)) &&
      decide (p.requestId = requestId p.runId p.username)

/-- The file service is asked to clean a user up. -/
def fileCleanup (s : System) (p : CleanupPayload) (steps : Nat) : Bool × System :=
  let result := s.fileService.cleanupUser (s.cleanupAuthorization p) p steps
  (result.1, { s with fileService := result.2 })

/-- The sandbox manager is asked to clean a user up. -/
def sandboxCleanup (s : System) (rid : String) (t : Target) (steps : Nat) : Bool × System :=
  let result := (s.sandboxes t.username).cleanup rid steps
  (result.1, { s with sandboxes := Function.update s.sandboxes t.username result.2 })

/-- `LoadTests.cleanup`. -/
def cleanup (s : System) (rid confirmation : String) (cut : Option Nat) : Option System :=
  if !s.ops.serving then none
  else
    match s.ops.reports.lookup rid with
    | none => some s
    | some r =>
      if confirmation ≠ rid ∨ r.status.active ∨ rid ∈ s.ops.runners then some s
      else if r.cleanupStatus = .cleaning ∨ r.cleanupStatus = .cleaned then some s
      else
        match cut with
        | some k => some (s.updateReport rid fun r => markCleaning r k)
        | none => some { s.updateReport rid fun r => markCleaning r r.users.length with
            cleaners := s.cleaners.insert rid .waiting }

/-- One stretch of `_cleanup`, and where it is then; it has ended where that is `none`. -/
def clean (s : System) (rid : String) : CleanPc → TaskOutcome → Option (System × Option CleanPc)
  | .waiting, .fine =>
    match s.ops.reports.lookup rid with
    | none => none
    | some r => some (s, some (goOn (targets r)))
  | .removing t left, .fine =>
    let result := s.sandboxCleanup rid t 3
    some (result.2, some (if result.1 then .deleting t left else .failing))
  | .removing t _, .lost steps => some ((s.sandboxCleanup rid t steps).2, some .failing)
  | .deleting t left, .fine =>
    let result := s.fileCleanup (payloadOf rid t) 4
    some (result.2, some (if result.1 then .recording t left else .failing))
  | .deleting t _, .lost steps => some ((s.fileCleanup (payloadOf rid t) steps).2, some .failing)
  | .recording t left, .fine =>
    some (s.updateReport rid fun r =>
      r.updateUser t.username fun u => { u with storageState := .cleaned }, some (goOn left))
  | .finishing, .fine => some (s.updateReport rid fun r => { r with cleanupStatus := .cleaned }, none)
  | .failing, .fine => some (s.updateReport rid fun r => { r with cleanupStatus := .failed }, none)
  | .failing, .raised => some (s, none)
  | .waiting, .raised | .recording .., .raised | .finishing, .raised => some (s, some .failing)
  | _, _ => none

def task (s : System) (rid : String) (outcome : TaskOutcome) : Option System := do
  let pc ← s.cleaners.lookup rid
  let (s', next) ← s.clean rid pc outcome
  return { s' with
    cleaners := match next with
      | some pc' => s'.cleaners.insert rid pc'
      | none => s'.cleaners.erase rid }

def step (s : System) : Event → Option System
  | .ops e => do
    let ops ← s.ops.step e
    -- the tasks of the event loop go with the process
    return { s with ops := ops, cleaners := match e with | .crash => ∅ | _ => s.cleaners }
  | .cleanup rid confirmation cut => s.cleanup rid confirmation cut
  | .task rid outcome => s.task rid outcome
  | .late payload steps => some (s.fileCleanup payload steps).2
  | .traffic username sandbox => some { s with sandboxes := Function.update s.sandboxes username sandbox }
  | .write username files => some { s with
      fileService := { s.fileService with files := Function.update s.fileService.files username files } }

end System

def machine : Machine System Event := ⟨System.step⟩

/-! ## What the runner leaves alone -/

/-- What a cleanup reads of a user. -/
def User.identity (u : User) : String × String × StorageState := (u.username, u.agentId, u.storageState)

/-- The names, the agents and the storage states of the users. -/
def identities (r : Report) : List (String × String × StorageState) := r.users.map User.identity

theorem identities_updateUser {r : Report} {username : String} {f : User → User}
    (hf : ∀ u, User.identity (f u) = User.identity u) :
    identities (r.updateUser username f) = identities r := by
  simp only [identities, Report.updateUser, List.map_map]
  refine List.map_congr_left fun u _ => ?_
  simp only [Function.comp_apply]
  split
  · exact hf u
  · rfl

/-- The rows that a cleanup works with. -/
def SameRows (r r' : Report) : Prop :=
  identities r' = identities r ∧ r'.cleanupStatus = r.cleanupStatus

theorem SameRows.refl (r : Report) : SameRows r r := ⟨rfl, rfl⟩

theorem settle_sameRows (r : Report) (raised : Raised) : SameRows r (r.settle raised) := by
  cases raised <;> exact ⟨rfl, rfl⟩

/-- The runner writes statuses, phases and errors only. -/
theorem run_sameRows {r r' : Report} {pc : Pc} {o : Outcome} {next : Option Pc}
    (h : run r pc o = some (r', next)) : SameRows r r' := by
  have hphase : ∀ username f, (∀ u, User.identity (f u) = User.identity u) →
      SameRows r (r.updateUser username f) := fun _ _ hf => ⟨identities_updateUser hf, rfl⟩
  unfold run at h
  repeat' split at h
  all_goals
    simp only [Option.some.injEq, Prod.mk.injEq, reduceCtorEq] at h
  all_goals obtain ⟨rfl, -⟩ := h
  all_goals
    first
    | exact ⟨rfl, rfl⟩
    | exact settle_sameRows r _
    | exact hphase _ _ fun _ => rfl

/-- Children write phases, errors, sessions and tokens only. -/
theorem stepChild_identity {raised : Option Raised} {pc pc' : ChildPc} {o : ChildOutcome} {stage : Stage}
    {f : User → User} (h : stepChild raised pc o stage = some (f, pc')) (u : User) :
    User.identity (f u) = User.identity u := by
  cases stage <;> simp only [stepChild, Option.ite_none_left_eq_some] at h <;> replace h := h.2
  · cases pc <;> cases o <;> simp only [LoadTests.prepare, Option.some.injEq, Prod.mk.injEq, reduceCtorEq] at h
    all_goals obtain ⟨rfl, -⟩ := h
    case settled.go cause => cases cause <;> rfl
    all_goals rfl
  · cases pc <;> cases o <;> simp only [LoadTests.generate, Option.some.injEq, Prod.mk.injEq, reduceCtorEq] at h
    all_goals obtain ⟨rfl, -⟩ := h
    case settling.go cause => cases cause <;> rfl
    all_goals rfl

/-! ## The controller of the tests -/

/-- The users of a test have names of its own, by which they are told apart. -/
def Named (r : Report) : Prop :=
  (r.users.map (·.username)).Nodup ∧ ∀ u ∈ r.users, ownsUser u.username = true

theorem usernames_eq (r : Report) : r.users.map (·.username) = (identities r).map (·.1) := by
  simp [identities, User.identity]

theorem Named.of_usernames {r r' : Report} (h : Named r)
    (hnames : r'.users.map (·.username) = r.users.map (·.username)) : Named r' := by
  refine ⟨hnames ▸ h.1, fun u hu => ?_⟩
  have hmem : u.username ∈ r.users.map (·.username) := hnames ▸ List.mem_map_of_mem hu
  obtain ⟨v, hv, hname⟩ := List.mem_map.mp hmem
  exact hname ▸ h.2 v hv

theorem named_newUsers (hex : String) (agentIds : List String) :
    ((newUsers hex agentIds).map (·.username)).Nodup ∧
      ∀ u ∈ newUsers hex agentIds, ownsUser u.username = true := by
  have hperm : (newUsers hex agentIds).Perm
      ((agentIds.zipIdx 1).map fun e => newUser hex e.1 e.2) := List.perm_insertionSort _ _
  constructor
  · refine (hperm.map _).nodup_iff.mpr ?_
    rw [List.map_map]
    have hindices : ((agentIds.zipIdx 1).map (·.2)).Nodup := by
      rw [List.zipIdx_map_snd]
      exact List.nodup_range'
    refine (List.pairwise_map.mp hindices).map _ fun e e' hne heq => hne ?_
    exact (numbered_inj.mp heq).2
  · intro u hu
    obtain ⟨e, -, rfl⟩ := List.mem_map.mp (hperm.mem_iff.mp hu)
    simp only [ownsUser, newUser, String.toList_append, List.append_assoc, List.isPrefixOf_iff_prefix]
    exact List.prefix_append _ _

/-- What becomes of the rows of a test in a step of the controller. A test that is over and has no task
stays so. -/
structure Kept (c c' : Controller) (rid : String) (r r' : Report) : Prop where
  same : identities r' = identities r
  cleanup : r'.cleanupStatus = r.cleanupStatus ∨
    r.cleanupStatus = .cleaning ∧ r'.cleanupStatus = .failed
  idle : r.status.active = false → rid ∉ c.runners → r'.status.active = false ∧ rid ∉ c'.runners

theorem Kept.refl {c c' : Controller} {rid : String} (r : Report)
    (h : rid ∉ c.runners → rid ∉ c'.runners) : Kept c c' rid r r :=
  ⟨rfl, Or.inl rfl, fun hover hidle => ⟨hover, h hidle⟩⟩

theorem kept_of_sameRows {c c' : Controller} {rid : String} {r r' : Report} (h : SameRows r r')
    (hrunner : rid ∈ c.runners) : Kept c c' rid r r' :=
  ⟨h.1, Or.inl h.2, fun _ hidle => absurd hrunner hidle⟩

/-- A row that is not this test's is kept. -/
theorem kept_of_ne {c c' : Controller} {rid rid' : String} {r : Report} (hne : rid ≠ rid')
    (h : ∀ rid'', rid'' ≠ rid' → c'.runners.lookup rid'' = c.runners.lookup rid'') :
    Kept c c' rid r r :=
  Kept.refl r fun hidle => by
    rw [← AList.lookup_eq_none] at hidle ⊢
    rw [h rid hne, hidle]

section Step

variable {c c' : Controller} {rid : String} {r' : Report}

theorem runner_rows {rid' : String} {o : Outcome} (h : c.runner rid' o = some c')
    (hr' : c'.reports.lookup rid = some r') :
    ∃ r, c.reports.lookup rid = some r ∧ Kept c c' rid r r' := by
  simp only [Controller.runner, Option.bind_eq_bind, Option.bind_eq_some_iff, Prod.exists] at h
  obtain ⟨r, hr, pc, hpc, r₁, next, hrun, h⟩ := h
  obtain rfl := Option.some.inj h
  rcases Dict.lookup_insert_cases hr' with ⟨rfl, rfl⟩ | ⟨hne, hold⟩
  · exact ⟨r, hr, kept_of_sameRows (run_sameRows hrun) (AList.lookup_isSome.mp (by rw [hpc]; rfl))⟩
  · refine ⟨r', hold, kept_of_ne hne fun rid'' hne' => ?_⟩
    cases next with
    | some pc' => exact AList.lookup_insert_ne hne'
    | none => exact AList.lookup_erase_ne hne'

theorem child_rows {rid' : String} {i : Nat} {o : ChildOutcome} (h : c.child rid' i o = some c')
    (hr' : c'.reports.lookup rid = some r') :
    ∃ r, c.reports.lookup rid = some r ∧ Kept c c' rid r r' := by
  simp only [Controller.child, Option.bind_eq_bind, Option.bind_eq_some_iff] at h
  obtain ⟨r, hr, pc, hpc, h⟩ := h
  cases pc with
  | joining stage children raised =>
    simp only [Option.bind_eq_some_iff, Prod.exists] at h
    obtain ⟨x, hx, f, pc', hstep, h⟩ := h
    obtain rfl := Option.some.inj h
    rcases Dict.lookup_insert_cases hr' with ⟨rfl, rfl⟩ | ⟨hne, hold⟩
    · exact ⟨r, hr, kept_of_sameRows ⟨identities_updateUser (stepChild_identity hstep), rfl⟩
        (AList.lookup_isSome.mp (by rw [hpc]; rfl))⟩
    · exact ⟨r', hold, kept_of_ne hne fun rid'' hne' => AList.lookup_insert_ne hne'⟩
  | _ => cases h

theorem cancel_rows {rid' : String} (h : c.cancel rid' = some c')
    (hr' : c'.reports.lookup rid = some r') :
    ∃ r, c.reports.lookup rid = some r ∧ Kept c c' rid r r' := by
  simp only [Controller.cancel, Option.bind_eq_bind, Option.bind_eq_some_iff] at h
  obtain ⟨r, hr, h⟩ := h
  split at h
  · obtain rfl := Option.some.inj h
    exact ⟨r', hr', Kept.refl r' id⟩
  next hgo =>
  obtain rfl := Option.some.inj h
  rcases Dict.lookup_insert_cases hr' with ⟨rfl, rfl⟩ | ⟨hne, hold⟩
  · refine ⟨r, hr, rfl, Or.inl rfl, fun hover => ?_⟩
    simp [hover] at hgo
  · exact ⟨r', hold, Kept.refl r' id⟩

theorem cleanupInterrupted_rows (r : Report) (h : rid ∉ c.runners → rid ∉ c'.runners) :
    Kept c c' rid r (Controller.cleanupInterrupted r) := by
  unfold Controller.cleanupInterrupted
  split
  · next hcleaning => exact ⟨rfl, Or.inr ⟨hcleaning, rfl⟩, fun hover hidle => ⟨hover, h hidle⟩⟩
  · exact Kept.refl r h

theorem recover_rows (h : c.recover = some c') (hr' : c'.reports.lookup rid = some r') :
    ∃ r, c.reports.lookup rid = some r ∧ Kept c c' rid r r' := by
  unfold Controller.recover at h
  split at h
  · cases h
  · obtain rfl := Option.some.inj h
    exact ⟨r', hr', Kept.refl r' id⟩
  · split at h
    · cases h
    next r hr =>
    split at h
    · next hactive =>
      obtain rfl := Option.some.inj h
      rcases Dict.lookup_insert_cases hr' with ⟨rfl, rfl⟩ | ⟨-, hold⟩
      · exact ⟨r, hr, rfl, Or.inl rfl, fun hover => by rw [hover] at hactive; cases hactive⟩
      · exact ⟨r', hold, Kept.refl r' id⟩
    · obtain rfl := Option.some.inj h
      rcases Dict.lookup_insert_cases hr' with ⟨rfl, rfl⟩ | ⟨-, hold⟩
      · exact ⟨r, hr, cleanupInterrupted_rows r id⟩
      · exact ⟨r', hold, Kept.refl r' id⟩
  · obtain rfl := Option.some.inj h
    rcases Dict.lookup_modify_cases hr' with ⟨rfl, r, hr, rfl⟩ | ⟨-, hold⟩
    · exact ⟨r, hr, identities_updateUser fun _ => rfl, Or.inl rfl, fun hover hidle => ⟨hover, hidle⟩⟩
    · exact ⟨r', hold, Kept.refl r' id⟩
  · obtain rfl := Option.some.inj h
    rcases Dict.lookup_modify_cases hr' with ⟨rfl, r, hr, rfl⟩ | ⟨-, hold⟩
    · exact ⟨r, hr, cleanupInterrupted_rows r id⟩
    · exact ⟨r', hold, Kept.refl r' id⟩

theorem create_rows {agents : Dict String Agent} {hex : String} {request : LoadRequest} {held : Bool}
    {r : Report} (h : c.create agents hex request held = .ok (r, true)) :
    r.cleanupStatus = .retained ∧ Named r := by
  unfold Controller.create at h
  split at h
  · split at h <;> cases h
  · simp only [bind_eq_ok, refuse_eq_ok] at h
    obtain ⟨_, -, _, -, snapshots, -, hr⟩ := h
    cases hr
    exact ⟨rfl, named_newUsers hex _⟩

theorem start_rows {agents : Dict String Agent} {hex : String} {request : LoadRequest}
    {held spawned : Bool} (h : c.start agents hex request held spawned = some c')
    (hr' : c'.reports.lookup rid = some r') :
    (∃ r, c.reports.lookup rid = some r ∧ Kept c c' rid r r') ∨
      (rid ∉ c.reports ∧ r'.cleanupStatus = .retained ∧ Named r') := by
  unfold Controller.start at h
  split at h
  · cases h
  next hfresh =>
  split at h
  · next r hcreate =>
    obtain rfl := Option.some.inj h
    rcases Dict.lookup_insert_cases hr' with ⟨rfl, rfl⟩ | ⟨hne, hold⟩
    · exact Or.inr ⟨(Controller.create_eq_ok hcreate).1 ▸ hfresh, create_rows hcreate⟩
    · refine Or.inl ⟨r', hold, kept_of_ne hne fun rid'' hne' => ?_⟩
      cases spawned with
      | true => exact AList.lookup_insert_ne hne'
      | false => rfl
  · obtain rfl := Option.some.inj h
    exact Or.inl ⟨r', hr', Kept.refl r' id⟩

/-- **What a step of the controller does to the rows of a test**: they are there already and are kept, or
the test is new. -/
theorem step_rows {e : LoadTests.Event} (h : c.step e = some c') (hr' : c'.reports.lookup rid = some r') :
    (∃ r, c.reports.lookup rid = some r ∧ Kept c c' rid r r') ∨
      (rid ∉ c.reports ∧ r'.cleanupStatus = .retained ∧ Named r') := by
  cases e with
  | crash =>
    obtain rfl := Option.some.inj h
    exact Or.inl ⟨r', hr', Kept.refl r' fun _ => nofun⟩
  | recover => exact Or.inl (recover_rows h hr')
  | create agents hex request held spawned =>
    simp only [Controller.step, Option.ite_none_right_eq_some] at h
    exact start_rows h.2 hr'
  | runner rid' o =>
    simp only [Controller.step, Option.ite_none_right_eq_some] at h
    exact Or.inl (runner_rows h.2 hr')
  | child rid' i o =>
    simp only [Controller.step, Option.ite_none_right_eq_some] at h
    exact Or.inl (child_rows h.2 hr')
  | cancel rid' =>
    simp only [Controller.step, Option.ite_none_right_eq_some] at h
    exact Or.inl (cancel_rows h.2 hr')

theorem mem_insert_of_mem {d : Dict String Report} {rid rid' : String} {r : Report} (h : rid ∈ d) :
    rid ∈ d.insert rid' r := (AList.mem_insert _).mpr (Or.inr h)

theorem mem_modify_of_mem {d : Dict String Report} {rid rid' : String} {f : Report → Report}
    (h : rid ∈ d) : rid ∈ d.modify rid' f := by
  unfold Dict.modify
  split
  · exact mem_insert_of_mem h
  · exact h

/-- No row of `load_tests` is deleted. -/
theorem step_reports {e : LoadTests.Event} (h : c.step e = some c') (hrid : rid ∈ c.reports) :
    rid ∈ c'.reports := by
  cases e with
  | crash =>
    obtain rfl := Option.some.inj h
    exact hrid
  | recover =>
    simp only [Controller.step, Controller.recover] at h
    split at h
    · cases h
    · obtain rfl := Option.some.inj h
      exact hrid
    · split at h
      · cases h
      split at h <;> obtain rfl := Option.some.inj h <;> exact mem_insert_of_mem hrid
    all_goals
      obtain rfl := Option.some.inj h
      exact mem_modify_of_mem hrid
  | create agents hex request held spawned =>
    simp only [Controller.step, Option.ite_none_right_eq_some, Controller.start,
      Option.ite_none_left_eq_some] at h
    obtain ⟨-, -, h⟩ := h
    split at h <;> obtain rfl := Option.some.inj h
    · exact mem_insert_of_mem hrid
    · exact hrid
  | runner rid' o =>
    simp only [Controller.step, Option.ite_none_right_eq_some, Controller.runner,
      Option.bind_eq_bind, Option.bind_eq_some_iff, Prod.exists] at h
    obtain ⟨-, r, -, pc, -, r₁, next, -, h⟩ := h
    obtain rfl := Option.some.inj h
    exact mem_insert_of_mem hrid
  | child rid' i o =>
    simp only [Controller.step, Option.ite_none_right_eq_some, Controller.child, Option.bind_eq_bind,
      Option.bind_eq_some_iff] at h
    obtain ⟨-, r, -, pc, -, h⟩ := h
    cases pc with
    | joining stage children raised =>
      simp only [Option.bind_eq_some_iff, Prod.exists] at h
      obtain ⟨x, -, f, pc', -, h⟩ := h
      obtain rfl := Option.some.inj h
      exact mem_insert_of_mem hrid
    | _ => cases h
  | cancel rid' =>
    simp only [Controller.step, Option.ite_none_right_eq_some, Controller.cancel, Option.bind_eq_bind,
      Option.bind_eq_some_iff] at h
    obtain ⟨-, r, -, h⟩ := h
    split at h <;> obtain rfl := Option.some.inj h
    · exact hrid
    · exact mem_insert_of_mem hrid

end Step

/-! ## What holds in every state -/

namespace System

/-- A test that is cleaned up, or was, is over and has no task of its own; its users have names. -/
structure Invariant (s : System) : Prop where
  owned : ∀ rid, rid ∈ s.cleaners → rid ∈ s.ops.reports
  ended : ∀ rid r, s.ops.reports.lookup rid = some r →
    r.cleanupStatus ≠ .retained ∨ rid ∈ s.cleaners →
    r.status.active = false ∧ rid ∉ s.ops.runners
  named : ∀ rid r, s.ops.reports.lookup rid = some r → Named r

theorem invariant_initial : initial.Invariant := ⟨nofun, nofun, nofun⟩

theorem invariant_ops {s : System} {e : LoadTests.Event} {ops : Controller} {cleaners : Dict String CleanPc}
    (hs : s.Invariant) (h : s.ops.step e = some ops) (hc : ∀ rid, rid ∈ cleaners → rid ∈ s.cleaners) :
    Invariant { s with ops := ops, cleaners := cleaners } where
  owned rid hrid := step_reports h (hs.owned rid (hc rid hrid))
  ended rid r' hr' hclean := by
    rcases step_rows h hr' with ⟨r, hr, hkept⟩ | ⟨hfresh, hretained, -⟩
    · obtain ⟨hactive, hidle⟩ : r.status.active = false ∧ rid ∉ s.ops.runners := by
        refine hs.ended rid r hr (hclean.imp (fun hne heq => ?_) (hc rid))
        rcases hkept.cleanup with hsame | ⟨hcleaning, -⟩
        · exact hne (hsame.trans heq)
        · rw [hcleaning] at heq
          cases heq
      exact hkept.idle hactive hidle
    · rcases hclean with hne | hrid
      · exact absurd hretained hne
      · exact absurd (hs.owned rid (hc rid hrid)) hfresh
  named rid r' hr' := by
    rcases step_rows h hr' with ⟨r, hr, hkept⟩ | ⟨-, -, hnamed⟩
    · exact (hs.named rid r hr).of_usernames (by rw [usernames_eq, usernames_eq, hkept.same])
    · exact hnamed

/-- A test that is over is changed, with its task. -/
theorem Invariant.updateReport {s : System} (hs : s.Invariant) {rid : String} {f : Report → Report}
    {cleaners : Dict String CleanPc} (hf : ∀ r, (f r).users.map (·.username) = r.users.map (·.username))
    (hstatus : ∀ r, (f r).status = r.status)
    (hover : ∀ r, s.ops.reports.lookup rid = some r → r.status.active = false ∧ rid ∉ s.ops.runners)
    (hrid : rid ∈ s.ops.reports) (hc : ∀ rid', rid' ∈ cleaners → rid' = rid ∨ rid' ∈ s.cleaners) :
    Invariant { s.updateReport rid f with cleaners := cleaners } where
  owned rid' hmem := by
    rcases hc rid' hmem with rfl | hold
    · exact mem_modify_of_mem hrid
    · exact mem_modify_of_mem (hs.owned rid' hold)
  ended rid' r' hr' hclean := by
    rcases Dict.lookup_modify_cases hr' with ⟨rfl, r, hr, rfl⟩ | ⟨hne, hold⟩
    · rw [hstatus]
      exact hover r hr
    · refine hs.ended rid' r' hold (hclean.imp_right fun hmem => ?_)
      exact (hc rid' hmem).resolve_left hne
  named rid' r' hr' := by
    rcases Dict.lookup_modify_cases hr' with ⟨rfl, r, hr, rfl⟩ | ⟨hne, hold⟩
    · exact (hs.named rid' r hr).of_usernames (hf r)
    · exact hs.named rid' r' hold

/-- Only the tasks change, and what the other services have. -/
theorem Invariant.of_ops {s s' : System} (hs : s.Invariant) (hops : s'.ops = s.ops)
    (hc : ∀ rid, rid ∈ s'.cleaners → rid ∈ s.cleaners) : s'.Invariant where
  owned rid hrid := by
    rw [hops]
    exact hs.owned rid (hc rid hrid)
  ended rid r hr hclean := by
    rw [hops] at hr ⊢
    exact hs.ended rid r hr (hclean.imp_right (hc rid))
  named rid r hr := by
    rw [hops] at hr
    exact hs.named rid r hr

theorem usernames_markCleaning (r : Report) (k : Nat) :
    (markCleaning r k).users.map (·.username) = r.users.map (·.username) := by
  have hmark : ∀ us : List User, (us.map fun u =>
      if u.storageState = .cleaned then u else { u with storageState := .cleaning }).map (·.username) =
        us.map (·.username) := by
    intro us
    rw [List.map_map]
    refine List.map_congr_left fun u _ => ?_
    simp only [Function.comp_apply]
    split <;> rfl
  rw [markCleaning, List.map_append, hmark, ← List.map_append, List.take_append_drop]

theorem invariant_cleanup {s s' : System} {rid confirmation : String} {cut : Option Nat}
    (hs : s.Invariant) (h : s.cleanup rid confirmation cut = some s') : s'.Invariant := by
  unfold cleanup at h
  split at h
  · cases h
  split at h
  · obtain rfl := Option.some.inj h
    exact hs
  next r hr =>
  split at h
  · obtain rfl := Option.some.inj h
    exact hs
  next hgo =>
  split at h
  · obtain rfl := Option.some.inj h
    exact hs
  have hover : ∀ r', s.ops.reports.lookup rid = some r' →
      r'.status.active = false ∧ rid ∉ s.ops.runners := by
    intro r' hr'
    obtain rfl := Option.some.inj (hr.symm.trans hr')
    rw [not_or, not_or] at hgo
    exact ⟨by simpa using hgo.2.1, hgo.2.2⟩
  have hrid : rid ∈ s.ops.reports := AList.lookup_isSome.mp (by rw [hr]; rfl)
  split at h
  · obtain rfl := Option.some.inj h
    exact hs.updateReport (fun r => usernames_markCleaning r _) (fun _ => rfl) hover hrid
      fun rid' hmem => Or.inr hmem
  · obtain rfl := Option.some.inj h
    exact hs.updateReport (fun r => usernames_markCleaning r _) (fun _ => rfl) hover hrid
      fun rid' hmem => (AList.mem_insert _).mp hmem

/-- A stretch of `_cleanup` changes what the other services have, or the rows of its test. -/
theorem clean_ops {s s' : System} {rid : String} {pc : CleanPc} {o : TaskOutcome} {next : Option CleanPc}
    (h : s.clean rid pc o = some (s', next)) :
    s'.cleaners = s.cleaners ∧ (s'.ops = s.ops ∨ ∃ f : Report → Report, s' = s.updateReport rid f ∧
      (∀ r, (f r).users.map (·.username) = r.users.map (·.username)) ∧
      ∀ r, (f r).status = r.status) := by
  cases pc with
  | waiting =>
    cases o with
    | fine =>
      simp only [clean] at h
      split at h
      · cases h
      · cases h
        exact ⟨rfl, Or.inl rfl⟩
    | raised =>
      cases h
      exact ⟨rfl, Or.inl rfl⟩
    | lost => cases h
  | removing t left | deleting t left =>
    cases o with
    | fine | lost =>
      cases h
      exact ⟨rfl, Or.inl rfl⟩
    | raised => cases h
  | recording t left =>
    cases o with
    | fine =>
      cases h
      exact ⟨rfl, Or.inr ⟨_, rfl, fun r => Report.usernames_updateUser fun _ => rfl, fun _ => rfl⟩⟩
    | raised =>
      cases h
      exact ⟨rfl, Or.inl rfl⟩
    | lost => cases h
  | finishing | failing =>
    cases o with
    | fine =>
      cases h
      exact ⟨rfl, Or.inr ⟨_, rfl, fun _ => rfl, fun _ => rfl⟩⟩
    | raised =>
      cases h
      exact ⟨rfl, Or.inl rfl⟩
    | lost => cases h

theorem invariant_task {s s' : System} {rid : String} {o : TaskOutcome} (hs : s.Invariant)
    (h : s.task rid o = some s') : s'.Invariant := by
  simp only [task, Option.bind_eq_bind, Option.bind_eq_some_iff, Prod.exists] at h
  obtain ⟨pc, hpc, s₁, next, hclean, h⟩ := h
  obtain rfl := Option.some.inj h
  have hmem : rid ∈ s.cleaners := AList.lookup_isSome.mp (by rw [hpc]; rfl)
  obtain ⟨hcleaners, hops⟩ := clean_ops hclean
  have hnext : ∀ rid', rid' ∈ (match next with
      | some pc' => s₁.cleaners.insert rid pc'
      | none => s₁.cleaners.erase rid) → rid' ∈ s.cleaners := by
    intro rid' hrid'
    cases next with
    | some pc' =>
      rcases (AList.mem_insert _).mp hrid' with rfl | hold
      · exact hmem
      · exact hcleaners ▸ hold
    | none => exact hcleaners ▸ (AList.mem_erase.mp hrid').2
  rcases hops with hops | ⟨f, rfl, husers, hstatus⟩
  · exact hs.of_ops hops hnext
  · have hrid : rid ∈ s.ops.reports := hs.owned rid hmem
    exact hs.updateReport husers hstatus (fun r hr => hs.ended rid r hr (Or.inr hmem)) hrid
      fun rid' hrid' => Or.inr (hnext rid' hrid')

/-- **The step lemma of the invariant.** -/
theorem invariant_step {s s' : System} {e : Event} (hs : s.Invariant) (h : machine.step s e = some s') :
    s'.Invariant := by
  cases e with
  | ops e =>
    simp only [machine, step, Option.bind_eq_bind, Option.bind_eq_some_iff] at h
    obtain ⟨ops, hstep, h⟩ := h
    obtain rfl := Option.some.inj h
    refine invariant_ops hs hstep fun rid hrid => ?_
    split at hrid
    · exact absurd hrid (AList.notMem_empty rid)
    · exact hrid
  | cleanup rid confirmation cut => exact invariant_cleanup hs h
  | task rid o => exact invariant_task hs h
  | late payload steps | traffic username sandbox | write username files =>
    obtain rfl := Option.some.inj h
    exact hs.of_ops rfl fun _ hmem => hmem

theorem invariant_of_run {s : System} {events : List Event}
    (h : machine.run initial events = some s) : s.Invariant :=
  machine.run_always (fun _ _ _ hs hstep => invariant_step hs hstep) invariant_initial h

end System

/-! ## A retry -/

namespace System

/-- The sandbox manager does its part: no request holds the sandbox, and its container is the test's. -/
def SandboxClear (s : System) (rid : String) (t : Target) : Prop :=
  (s.sandboxes t.username).refuses rid = false

/-- The file service does its part: the request has a result, or it has no receipt and the directories
of the user are not replaced. -/
def FilesClear (s : System) (rid : String) (t : Target) : Prop :=
  match s.fileService.replay (payloadOf rid t) with
  | .error _ => False
  | .ok true => True
  | .ok false => (s.fileService.files t.username).workspace ≠ .replaced ∧
      (s.fileService.files t.username).state ≠ .replaced

instance (s : System) (rid : String) (t : Target) : Decidable (s.SandboxClear rid t) :=
  inferInstanceAs (Decidable (_ = _))

instance (s : System) (rid : String) (t : Target) : Decidable (s.FilesClear rid t) := by
  unfold FilesClear
  split <;> infer_instance

def Ready (s : System) (rid : String) (left : List Target) : Prop :=
  ∀ t ∈ left, s.SandboxClear rid t ∧ s.FilesClear rid t

/-- **No user that still has data is stuck** at the sandbox manager or at the file service. -/
def Clear (s : System) (rid : String) : Prop :=
  ∀ r ∈ s.ops.reports.lookup rid, s.Ready rid (targets r)

instance (s : System) (rid : String) : Decidable (s.Clear rid) :=
  inferInstanceAs (Decidable (∀ r ∈ s.ops.reports.lookup rid, ∀ t ∈ targets r, _ ∧ _))

/-- The cleanup of a test is through. -/
def Cleaned (s : System) (rid : String) : Prop :=
  ∃ r, s.ops.reports.lookup rid = some r ∧ r.cleanupStatus = .cleaned ∧
    ∀ u ∈ r.users, u.storageState = .cleaned

/-- What a cleanup of the test works with is the same: its rows, its task, and what the other services
have of its users. -/
structure SameTest (rid : String) (s s' : System) : Prop where
  serving : s'.ops.serving = s.ops.serving
  report : s'.ops.reports.lookup rid = s.ops.reports.lookup rid
  cleaner : s'.cleaners.lookup rid = s.cleaners.lookup rid
  sandboxes : ∀ r ∈ s.ops.reports.lookup rid, ∀ u ∈ r.users,
    s'.sandboxes u.username = s.sandboxes u.username
  receipts : ∀ r ∈ s.ops.reports.lookup rid, ∀ u ∈ r.users,
    s'.fileService.receipts (requestId rid u.username) =
      s.fileService.receipts (requestId rid u.username)
  files : ∀ r ∈ s.ops.reports.lookup rid, ∀ u ∈ r.users,
    s'.fileService.files u.username = s.fileService.files u.username

/-- A step without a fault for the test: its cleanup goes on, or something else happens elsewhere. -/
def Faultless (rid : String) (s : System) (e : Event) : Prop :=
  e = .task rid .fine ∨ ∀ s' ∈ machine.step s e, SameTest rid s s'

/-! ### The users that are left -/

/-- These users are being cleaned up, and the others are cleaned. -/
structure Rest (r : Report) (left : List Target) : Prop where
  nodup : (left.map (·.username)).Nodup
  user : ∀ t ∈ left, ∃ u ∈ r.users, u.username = t.username ∧ u.agentId = t.agentId ∧
    u.storageState = .cleaning
  other : ∀ u ∈ r.users, u.storageState = .cleaned ∨ u.username ∈ left.map (·.username)

theorem rest_targets {r : Report} (hnamed : Named r) (h : ∀ u ∈ r.users, u.storageState ≠ .retained) :
    Rest r (targets r) where
  nodup := by
    rw [targets, List.map_map]
    exact (List.filter_sublist.map _).nodup hnamed.1
  user := by
    intro t ht
    obtain ⟨u, hu, rfl⟩ := List.mem_map.mp ht
    obtain ⟨hmem, hstate⟩ := List.mem_filter.mp hu
    refine ⟨u, hmem, rfl, rfl, ?_⟩
    have := h u hmem
    cases hs : u.storageState <;> simp_all
  other := by
    intro u hu
    by_cases hstate : u.storageState = .cleaned
    · exact Or.inl hstate
    · refine Or.inr (List.mem_map.mpr ⟨⟨u.username, u.agentId⟩, ?_, rfl⟩)
      exact List.mem_map.mpr ⟨u, List.mem_filter.mpr ⟨hu, by simpa using hstate⟩, rfl⟩

/-- One user is cleaned. -/
theorem Rest.record {r : Report} {t : Target} {left : List Target} (h : Rest r (t :: left)) :
    Rest (r.updateUser t.username fun u => { u with storageState := .cleaned }) left where
  nodup := (List.nodup_cons.mp h.nodup).2
  user := by
    intro t' ht'
    obtain ⟨u, hu, hname, hagent, hstate⟩ := h.user t' (List.mem_cons_of_mem t ht')
    have hne : u.username ≠ t.username := by
      intro heq
      refine (List.nodup_cons.mp h.nodup).1 ?_
      exact List.mem_map.mpr ⟨t', ht', hname.symm.trans heq⟩
    exact ⟨u, List.mem_map.mpr ⟨u, hu, if_neg hne⟩, hname, hagent, hstate⟩
  other := by
    intro v hv
    obtain ⟨u, hu, ⟨-, rfl⟩ | ⟨hne, rfl⟩⟩ := Report.mem_updateUser hv
    · exact Or.inl rfl
    · refine (h.other v hu).imp_right fun hmem => ?_
      exact (List.mem_cons.mp hmem).resolve_left hne

/-! ### The calls -/

theorem requestId_inj {rid a b : String} (h : requestId rid a = requestId rid b) : a = b := by
  have hlist := congrArg String.toList h
  simp only [requestId, String.toList_append, List.append_assoc, List.append_cancel_left_eq] at hlist
  exact String.toList_injective hlist

/-- A request of another user leaves a user alone. -/
theorem cleanupUser_frame (fs : FileService) (authorized : Bool) (p : CleanupPayload) (steps : Nat) :
    (∀ id, id ≠ p.requestId → (fs.cleanupUser authorized p steps).2.receipts id = fs.receipts id) ∧
      ∀ name, name ≠ p.username → (fs.cleanupUser authorized p steps).2.files name = fs.files name := by
  unfold FileService.cleanupUser
  split
  · exact ⟨fun _ _ => rfl, fun _ _ => rfl⟩
  · exact ⟨fun _ _ => rfl, fun _ _ => rfl⟩
  · split
    · exact ⟨fun _ _ => rfl, fun _ _ => rfl⟩
    · dsimp only
      split
      · refine ⟨fun id hne => ?_, fun name hne => Function.update_of_ne hne _ _⟩
        exact (Function.update_of_ne hne _ _).trans (Function.update_of_ne hne _ _)
      · exact ⟨fun id hne => Function.update_of_ne hne _ _,
          fun name hne => Function.update_of_ne hne _ _⟩

/-- A request that is authorized and not cut off succeeds when nothing is in its way. -/
theorem cleanupUser_eq_true {s : System} {rid : String} {t : Target} :
    (s.fileService.cleanupUser true (payloadOf rid t) 4).1 = true ↔ s.FilesClear rid t := by
  unfold FileService.cleanupUser FilesClear
  split
  · simp
  · simp
  · next hfresh =>
    by_cases hw : (s.fileService.files t.username).workspace = .replaced
    · simp [FileService.removeUser, payloadOf, hw]
    · by_cases hst : (s.fileService.files t.username).state = .replaced <;>
        simp [FileService.removeUser, payloadOf, hw, hst]

theorem cleanupAuthorization_eq_true {s : System} {rid : String} {r : Report} {t : Target} {u : User}
    (hserving : s.ops.serving = true) (hr : s.ops.reports.lookup rid = some r) (hnamed : Named r)
    (hcleaning : r.cleanupStatus = .cleaning) (hu : u ∈ r.users) (hname : u.username = t.username)
    (hagent : u.agentId = t.agentId) (hstate : u.storageState = .cleaning) :
    s.cleanupAuthorization (payloadOf rid t) = true := by
  have howns : ownsUser t.username = true := hname ▸ hnamed.2 u hu
  -- the row that is found is this one
  have hfind : findUser r t.agentId t.username = some u := by
    unfold findUser
    cases hf : r.users.find? fun v => decide (v.username = t.username ∧ v.agentId = t.agentId) with
    | none => simpa [hname, hagent] using List.find?_eq_none.mp hf u hu
    | some v =>
      have hv := List.find?_some hf
      have hmem := List.mem_of_find?_eq_some hf
      rw [decide_eq_true_eq] at hv
      rw [List.inj_on_of_nodup_map hnamed.1 hmem hu (hv.1.trans hname.symm)]
  simp only [cleanupAuthorization, hserving, payloadOf, hr, hcleaning, howns, hfind, hstate,
    decide_true, Option.any_some, Bool.and_self]

/-! ### The steps of a retry -/

/-- What a retry knows at each of its statements; `good` says that nothing was in the way of any user when
it began. -/
def Knows (good : Prop) (rid : String) (s : System) (r : Report) : Option CleanPc → Prop
  | some .waiting => r.cleanupStatus = .cleaning ∧ Rest r (targets r) ∧
      (good ↔ s.Ready rid (targets r))
  | some (.removing t left) => r.cleanupStatus = .cleaning ∧ Rest r (t :: left) ∧
      (good ↔ s.Ready rid (t :: left))
  | some (.deleting t left) => r.cleanupStatus = .cleaning ∧ Rest r (t :: left) ∧
      (good ↔ s.FilesClear rid t ∧ s.Ready rid left)
  | some (.recording t left) => r.cleanupStatus = .cleaning ∧ Rest r (t :: left) ∧
      (good ↔ s.Ready rid left)
  | some .finishing => Rest r [] ∧ good
  | some .failing => ¬good
  | none => good ↔ r.cleanupStatus = .cleaned ∧ ∀ u ∈ r.users, u.storageState = .cleaned

/-- The service is up, the rows of the test are there, and the task knows what it knows. -/
def Retrying (good : Prop) (rid : String) (s : System) : Prop :=
  s.ops.serving = true ∧ ∃ r, s.ops.reports.lookup rid = some r ∧ Named r ∧
    Knows good rid s r (s.cleaners.lookup rid)

theorem ready_cons {s : System} {rid : String} {t : Target} {left : List Target} :
    s.Ready rid (t :: left) ↔ s.SandboxClear rid t ∧ s.FilesClear rid t ∧ s.Ready rid left := by
  simp only [Ready, List.forall_mem_cons, and_assoc]

theorem ready_nil {s : System} {rid : String} : s.Ready rid [] ↔ True := by
  simp [Ready]

/-- What a step does not touch of a user. -/
def SameUser (rid : String) (s s' : System) (username : String) : Prop :=
  s'.sandboxes username = s.sandboxes username ∧
    s'.fileService.receipts (requestId rid username) =
      s.fileService.receipts (requestId rid username) ∧
    s'.fileService.files username = s.fileService.files username

theorem filesClear_congr {s s' : System} {rid : String} {t : Target}
    (h : SameUser rid s s' t.username) : s'.FilesClear rid t ↔ s.FilesClear rid t := by
  obtain ⟨-, hreceipt, hfiles⟩ := h
  have hreplay : s'.fileService.replay (payloadOf rid t) = s.fileService.replay (payloadOf rid t) := by
    unfold FileService.replay
    rw [show s'.fileService.receipts (payloadOf rid t).requestId =
      s.fileService.receipts (payloadOf rid t).requestId from hreceipt]
  simp only [FilesClear, hreplay, hfiles]

/-- Users that a step does not touch are as ready as before. -/
theorem ready_congr {s s' : System} {rid : String} {left : List Target}
    (h : ∀ t ∈ left, SameUser rid s s' t.username) : s'.Ready rid left ↔ s.Ready rid left :=
  forall₂_congr fun t ht => by
    rw [filesClear_congr (h t ht), SandboxClear, SandboxClear, (h t ht).1]

/-- What a retry knows when it goes on to the next user. -/
theorem knows_goOn {s : System} {good : Prop} {rid : String} {r : Report} {left : List Target}
    (hcleaning : r.cleanupStatus = .cleaning) (hrest : Rest r left) (hgood : good ↔ s.Ready rid left) :
    Knows good rid s r (some (goOn left)) := by
  cases left with
  | nil => exact ⟨hrest, hgood.mpr (ready_nil.mpr trivial)⟩
  | cons t left => exact ⟨hcleaning, hrest, hgood⟩

theorem sandboxCleanup_fst {s : System} {rid : String} {t : Target} {steps : Nat} :
    (s.sandboxCleanup rid t steps).1 = true ↔ s.SandboxClear rid t := by
  simp only [sandboxCleanup, UserSandbox.cleanup, SandboxClear]
  split
  · next h => simp [h]
  · next h => simpa using h

/-- A user that is not left is not among the ones that are. -/
theorem Rest.ne {r : Report} {t : Target} {left : List Target} (h : Rest r (t :: left)) :
    ∀ t' ∈ left, t'.username ≠ t.username := fun t' ht' heq =>
  (List.nodup_cons.mp h.nodup).1 (List.mem_map.mpr ⟨t', ht', heq⟩)

/-- What a statement that is executed makes of what a retry knows. -/
theorem clean_knows {s s' : System} {good : Prop} {rid : String} {r : Report} {pc : CleanPc}
    {next : Option CleanPc} (hserving : s.ops.serving = true)
    (hr : s.ops.reports.lookup rid = some r) (hnamed : Named r) (hpc : Knows good rid s r (some pc))
    (h : s.clean rid pc .fine = some (s', next)) :
    s'.ops.serving = true ∧
      ∃ r', s'.ops.reports.lookup rid = some r' ∧ Named r' ∧ Knows good rid s' r' next := by
  cases pc with
  | waiting =>
    obtain ⟨hcleaning, hrest, hgood⟩ := hpc
    simp only [clean, hr, Option.some.injEq, Prod.mk.injEq] at h
    obtain ⟨rfl, rfl⟩ := h
    exact ⟨hserving, r, hr, hnamed, knows_goOn hcleaning hrest hgood⟩
  | removing t left =>
    obtain ⟨hcleaning, hrest, hgood⟩ := hpc
    simp only [clean, Option.some.injEq, Prod.mk.injEq] at h
    obtain ⟨rfl, rfl⟩ := h
    refine ⟨hserving, r, hr, hnamed, ?_⟩
    cases hdone : (s.sandboxCleanup rid t 3).1 with
    | false =>
      intro hall
      rw [sandboxCleanup_fst.mpr (ready_cons.mp (hgood.mp hall)).1] at hdone
      cases hdone
    | true =>
      refine ⟨hcleaning, hrest, hgood.trans (ready_cons.trans ?_)⟩
      rw [and_iff_right (sandboxCleanup_fst.mp hdone)]
      refine and_congr_right fun _ => (ready_congr fun t' ht' => ?_).symm
      exact ⟨Function.update_of_ne (hrest.ne t' ht') _ _, rfl, rfl⟩
  | deleting t left =>
    obtain ⟨hcleaning, hrest, hgood⟩ := hpc
    obtain ⟨u, hu, hname, hagent, hstate⟩ := hrest.user t List.mem_cons_self
    have hauth := cleanupAuthorization_eq_true hserving hr hnamed hcleaning hu hname hagent hstate
    simp only [clean, fileCleanup, hauth, Option.some.injEq, Prod.mk.injEq] at h
    obtain ⟨rfl, rfl⟩ := h
    refine ⟨hserving, r, hr, hnamed, ?_⟩
    cases hdone : (s.fileService.cleanupUser true (payloadOf rid t) 4).1 with
    | false =>
      intro hall
      rw [cleanupUser_eq_true.mpr (hgood.mp hall).1] at hdone
      cases hdone
    | true =>
      obtain ⟨hreceipts, hfiles⟩ := cleanupUser_frame s.fileService true (payloadOf rid t) 4
      refine ⟨hcleaning, hrest, hgood.trans ?_⟩
      rw [and_iff_right (cleanupUser_eq_true.mp hdone)]
      refine (ready_congr fun t' ht' => ?_).symm
      exact ⟨rfl, hreceipts _ fun heq => hrest.ne t' ht' (requestId_inj heq),
        hfiles _ (hrest.ne t' ht')⟩
  | recording t left =>
    obtain ⟨hcleaning, hrest, hgood⟩ := hpc
    simp only [clean, Option.some.injEq, Prod.mk.injEq] at h
    obtain ⟨rfl, rfl⟩ := h
    exact ⟨hserving, _, Dict.lookup_modify_self.trans (congrArg (Option.map _) hr),
      hnamed.of_usernames (Report.usernames_updateUser fun _ => rfl),
      knows_goOn hcleaning hrest.record hgood⟩
  | finishing =>
    obtain ⟨hrest, hgood⟩ := hpc
    simp only [clean, Option.some.injEq, Prod.mk.injEq] at h
    obtain ⟨rfl, rfl⟩ := h
    refine ⟨hserving, _, Dict.lookup_modify_self.trans (congrArg (Option.map _) hr), hnamed, ?_⟩
    refine ⟨fun _ => ⟨rfl, fun u hu => ?_⟩, fun _ => hgood⟩
    exact (hrest.other u hu).resolve_right List.not_mem_nil
  | failing =>
    simp only [clean, Option.some.injEq, Prod.mk.injEq] at h
    obtain ⟨rfl, rfl⟩ := h
    refine ⟨hserving, _, Dict.lookup_modify_self.trans (congrArg (Option.map _) hr), hnamed, ?_⟩
    exact ⟨fun hall => absurd hall hpc, fun hcleaned => nomatch hcleaned.1⟩

/-- The cleanup of the test goes on. -/
theorem retrying_fine {s s' : System} {good : Prop} {rid : String} (hs : Retrying good rid s)
    (h : s.task rid .fine = some s') : Retrying good rid s' := by
  obtain ⟨hserving, r, hr, hnamed, hpc⟩ := hs
  simp only [task, Option.bind_eq_bind, Option.bind_eq_some_iff, Prod.exists] at h
  obtain ⟨pc, hcleaner, s₁, next, hclean, h⟩ := h
  obtain rfl := Option.some.inj h
  rw [hcleaner] at hpc
  obtain ⟨hserving', r', hr', hnamed', hknows⟩ := clean_knows hserving hr hnamed hpc hclean
  refine ⟨hserving', r', hr', hnamed', ?_⟩
  cases next with
  | some pc' =>
    rw [AList.lookup_insert]
    cases pc' <;> exact hknows
  | none =>
    rw [AList.lookup_erase]
    exact hknows

/-- Something else happens elsewhere. -/
theorem Retrying.congr {s s' : System} {good : Prop} {rid : String} (hs : Retrying good rid s)
    (h : SameTest rid s s') : Retrying good rid s' := by
  obtain ⟨hserving, r, hr, hnamed, hpc⟩ := hs
  refine ⟨h.serving.trans hserving, r, h.report.trans hr, hnamed, ?_⟩
  rw [h.cleaner]
  have huser : ∀ {left}, Rest r left → ∀ t ∈ left, SameUser rid s s' t.username := by
    intro left hrest t ht
    obtain ⟨u, hu, hname, -, -⟩ := hrest.user t ht
    exact hname ▸ ⟨h.sandboxes r hr u hu, h.receipts r hr u hu, h.files r hr u hu⟩
  cases hcleaner : s.cleaners.lookup rid with
  | none =>
    rw [hcleaner] at hpc
    exact hpc
  | some pc =>
    rw [hcleaner] at hpc
    cases pc with
    | waiting | removing =>
      obtain ⟨hcleaning, hrest, hgood⟩ := hpc
      exact ⟨hcleaning, hrest, hgood.trans (ready_congr (huser hrest)).symm⟩
    | deleting t left =>
      obtain ⟨hcleaning, hrest, hgood⟩ := hpc
      refine ⟨hcleaning, hrest, ?_⟩
      rw [filesClear_congr (huser hrest t List.mem_cons_self),
        ready_congr fun t' ht' => huser hrest t' (List.mem_cons_of_mem t ht')]
      exact hgood
    | recording t left =>
      obtain ⟨hcleaning, hrest, hgood⟩ := hpc
      refine ⟨hcleaning, hrest, ?_⟩
      rw [ready_congr fun t' ht' => huser hrest t' (List.mem_cons_of_mem t ht')]
      exact hgood
    | finishing | failing => exact hpc

/-- **The step lemma of a retry.** -/
theorem retrying_step {s s' : System} {good : Prop} {rid : String} {e : Event}
    (hs : Retrying good rid s) (he : Faultless rid s e) (h : machine.step s e = some s') :
    Retrying good rid s' := by
  rcases he with rfl | hsame
  · exact retrying_fine hs h
  · exact hs.congr (hsame s' h)

/-- How many statements a cleanup has before it at most, once it has read the users. -/
def fuel : CleanPc → Nat
  | .waiting => 0
  | .removing _ left => 3 * left.length + 4
  | .deleting _ left => 3 * left.length + 3
  | .recording _ left => 3 * left.length + 2
  | .finishing | .failing => 1

theorem fuel_goOn_le (left : List Target) : fuel (goOn left) ≤ 3 * left.length + 1 := by
  cases left with
  | nil => exact Nat.le_refl 1
  | cons t left =>
    simp only [goOn, fuel, List.length_cons]
    omega

theorem goOn_ne_waiting (left : List Target) : goOn left ≠ .waiting := by
  cases left <;> exact nofun

/-- A statement that is executed leaves fewer of them. -/
theorem clean_fine_fuel (s : System) (rid : String) {pc : CleanPc} (hpc : pc ≠ .waiting) :
    ∃ s' next, s.clean rid pc .fine = some (s', next) ∧
      ∀ pc' ∈ next, pc' ≠ .waiting ∧ fuel pc' < fuel pc := by
  cases pc with
  | waiting => exact absurd rfl hpc
  | removing t left | deleting t left =>
    refine ⟨_, _, rfl, fun pc' hpc' => ?_⟩
    obtain rfl := Option.some.inj hpc'
    split
    · exact ⟨nofun, by simp only [fuel]; omega⟩
    · exact ⟨nofun, by simp only [fuel]; omega⟩
  | recording t left =>
    refine ⟨_, _, rfl, fun pc' hpc' => ?_⟩
    obtain rfl := Option.some.inj hpc'
    have hless : fuel (goOn left) < 3 * left.length + 2 := by
      have := fuel_goOn_le left
      omega
    exact ⟨goOn_ne_waiting left, hless⟩
  | finishing | failing => exact ⟨_, _, rfl, nofun⟩

/-- A cleanup that has read the users comes to its end when nothing else happens. -/
theorem exists_run_to_end (s : System) (rid : String) {pc : CleanPc}
    (hpc : s.cleaners.lookup rid = some pc) (hne : pc ≠ .waiting) :
    ∃ n t, machine.run s (List.replicate n (.task rid .fine)) = some t ∧ rid ∉ t.cleaners := by
  induction hk : fuel pc using Nat.strong_induction_on generalizing s pc with
  | _ k ih =>
    obtain ⟨s', next, hclean, hnext⟩ := clean_fine_fuel s rid hne
    cases next with
    | none =>
      refine ⟨1, { s' with cleaners := s'.cleaners.erase rid }, ?_, ?_⟩
      · simp [Machine.run, machine, step, task, hpc, hclean]
      · exact fun hmem => (AList.mem_erase.mp hmem).1 rfl
    | some pc' =>
      obtain ⟨hne', hless⟩ := hnext pc' rfl
      obtain ⟨n, t, hrun, hend⟩ := ih (fuel pc') (hk ▸ hless)
        { s' with cleaners := s'.cleaners.insert rid pc' } (AList.lookup_insert _) hne' rfl
      refine ⟨n + 1, t, ?_, hend⟩
      rw [List.replicate_succ, machine.run_cons (t := { s' with
        cleaners := s'.cleaners.insert rid pc' }) (by simp [machine, step, task, hpc, hclean])]
      exact hrun

/-! ### The beginning of a retry -/

theorem targets_markCleaning (r : Report) :
    targets (markCleaning r r.users.length) = targets r ∧
      ∀ u ∈ (markCleaning r r.users.length).users, u.storageState ≠ .retained := by
  simp only [targets, markCleaning, List.take_length, List.drop_length, List.append_nil]
  constructor
  · rw [List.filter_map, List.map_map]
    have hfilter : ((fun u : User => u.storageState != .cleaned) ∘ fun u =>
        if u.storageState = .cleaned then u else { u with storageState := .cleaning }) =
        fun u => u.storageState != .cleaned := by
      funext u
      simp only [Function.comp_apply]
      split
      · rfl
      · next h =>
        rw [bne_iff_ne.mpr h]
        rfl
    rw [hfilter]
    refine List.map_congr_left fun u _ => ?_
    simp only [Function.comp_apply]
    split <;> rfl
  · intro v hv
    obtain ⟨u, -, rfl⟩ := List.mem_map.mp hv
    split
    · next h => simp [h]
    · simp

/-- A cleanup that is requested again begins. -/
theorem cleanup_retry {s : System} {rid : String} {r : Report} (hs : s.Invariant)
    (hup : s.ops.serving = true) (hr : s.ops.reports.lookup rid = some r)
    (hfailed : r.cleanupStatus = .failed) :
    ∃ s₁, s.cleanup rid rid none = some s₁ ∧ s₁.cleaners.lookup rid = some .waiting ∧
      Retrying (s.Clear rid) rid s₁ := by
  obtain ⟨hactive, hidle⟩ := hs.ended rid r hr (Or.inl (by rw [hfailed]; exact nofun))
  obtain ⟨htargets, hmarked⟩ := targets_markCleaning r
  have hnamed : Named (markCleaning r r.users.length) :=
    (hs.named rid r hr).of_usernames (usernames_markCleaning r _)
  refine ⟨{ s.updateReport rid fun r => markCleaning r r.users.length with
    cleaners := s.cleaners.insert rid .waiting }, ?_, AList.lookup_insert _, hup,
    markCleaning r r.users.length, Dict.lookup_modify_self.trans (congrArg (Option.map _) hr),
    hnamed, ?_⟩
  · simp [cleanup, hup, hr, hactive, hidle, hfailed]
  · rw [AList.lookup_insert]
    refine ⟨rfl, rest_targets hnamed hmarked, ?_⟩
    rw [htargets]
    simp only [Clear, hr, Option.mem_def, Option.some.injEq, forall_eq']
    exact (ready_congr fun _ _ => ⟨rfl, rfl, rfl⟩).symm

/-- A retry comes to its end when nothing else happens. -/
theorem retry_ends {s : System} {good : Prop} {rid : String} (hs : Retrying good rid s)
    (hwaiting : s.cleaners.lookup rid = some .waiting) :
    ∃ n t, machine.run s (List.replicate n (.task rid .fine)) = some t ∧ rid ∉ t.cleaners := by
  obtain ⟨-, r, hr, -, -⟩ := hs
  obtain ⟨n, t, hrun, hend⟩ := exists_run_to_end
    { s with cleaners := s.cleaners.insert rid (goOn (targets r)) } rid (AList.lookup_insert _)
    (goOn_ne_waiting _)
  refine ⟨n + 1, t, ?_, hend⟩
  rw [List.replicate_succ, machine.run_cons (t := { s with
    cleaners := s.cleaners.insert rid (goOn (targets r)) })
    (by simp [machine, step, task, hwaiting, clean, hr])]
  exact hrun

/-- A retry alone is faultless. -/
theorem faultless_replicate (rid : String) (n : Nat) (s : System) :
    machine.Along (Faultless rid) s (List.replicate n (.task rid .fine)) := by
  induction n generalizing s with
  | zero => trivial
  | succ n ih => exact ⟨Or.inl rfl, fun t _ => ih t⟩

/-- What a retry comes to. -/
theorem retry_result {s t : System} {good : Prop} {rid : String} {retry : List Event}
    (hs : Retrying good rid s) (hrun : machine.run s retry = some t)
    (hfaultless : machine.Along (Faultless rid) s retry) (hend : rid ∉ t.cleaners) :
    t.Cleaned rid ↔ good := by
  obtain ⟨-, r, hr, -, hknows⟩ :=
    machine.run_invariant (fun _ _ _ h he hstep => retrying_step h he hstep) hs hrun hfaultless
  rw [AList.lookup_eq_none.mpr hend] at hknows
  refine Iff.trans ⟨fun ⟨r', hr', hcleaned⟩ => ?_, fun hcleaned => ⟨r, hr, hcleaned⟩⟩ hknows.symm
  obtain rfl := Option.some.inj (hr.symm.trans hr')
  exact hcleaned

end System

/-- **A failed cleanup is made up for by a retry exactly when no user is stuck.** After any history in which
the cleanup of a test ended as failed, a new request begins a cleanup that comes to an end, and every
faultless one that has come to its end has cleaned the test and all of its users if and only if no user
that still had data was stuck at the sandbox manager or at the file service. -/
theorem retry_cleans_iff {events : List Event} {s : System} {rid : String} {r : Report}
    (hrun : machine.run System.initial events = some s) (hup : s.ops.serving = true)
    (hr : s.ops.reports.lookup rid = some r) (hfailed : r.cleanupStatus = .failed) :
    ∃ s₁, machine.step s (.cleanup rid rid none) = some s₁ ∧
      (∃ n t, machine.run s₁ (List.replicate n (.task rid .fine)) = some t ∧ rid ∉ t.cleaners) ∧
      ∀ retry t, machine.run s₁ retry = some t → machine.Along (System.Faultless rid) s₁ retry →
        rid ∉ t.cleaners → (t.Cleaned rid ↔ s.Clear rid) := by
  obtain ⟨s₁, hcleanup, hwaiting, hretrying⟩ :=
    System.cleanup_retry (System.invariant_of_run hrun) hup hr hfailed
  exact ⟨s₁, hcleanup, System.retry_ends hretrying hwaiting,
    fun retry t hretry hfaultless hend => System.retry_result hretrying hretry hfaultless hend⟩

/-- A test of one user that has ended as failed. -/
def overHistory : List Event :=
  [.create oneAgent "1" ⟨"request-1", [⟨"a", 1, 1, 1024⟩], 180, 120⟩ false true,
    .runner "lt_1" .go, .runner "lt_1" (.raised "ConnectError"), .runner "lt_1" .go,
    .runner "lt_1" .go, .runner "lt_1" .go].map .ops

/-- The sandbox manager crashes when it has removed the container of the user. -/
def sandboxCrash : List Event :=
  overHistory ++
    [.traffic "loadtest-1-1" ⟨some ⟨some ⟨true, some "lt_1"⟩, false⟩, 0⟩,
      .write "loadtest-1-1" ⟨.present, .present⟩, .cleanup "lt_1" "lt_1" none, .task "lt_1" .fine,
      .task "lt_1" (.lost 1), .task "lt_1" .fine]

/-- A test that the retry cleans. -/
theorem retry_cleans_after_sandbox_crash :
    ∃ s, machine.run System.initial sandboxCrash = some s ∧ s.Clear "lt_1" ∧
      ∃ s₁, machine.step s (.cleanup "lt_1" "lt_1" none) = some s₁ ∧
        (∃ n t, machine.run s₁ (List.replicate n (.task "lt_1" .fine)) = some t ∧
          "lt_1" ∉ t.cleaners) ∧
        ∀ retry t, machine.run s₁ retry = some t → machine.Along (System.Faultless "lt_1") s₁ retry →
          "lt_1" ∉ t.cleaners → (t.Cleaned "lt_1" ↔ s.Clear "lt_1") := by
  have test : (machine.run System.initial sandboxCrash).all (fun s =>
      !(s.ops.serving && (s.ops.reports.lookup "lt_1").any (fun r => r.cleanupStatus = .failed) &&
        decide (s.Clear "lt_1"))) = false := by
    decide +kernel
  obtain ⟨s, hrun, hs⟩ := machine.exists_run_of_all_eq_false test
  simp only [Bool.not_eq_false', Bool.and_eq_true, decide_eq_true_eq, Option.any_eq_true] at hs
  obtain ⟨⟨hup, r, hr, hfailed⟩, hclear⟩ := hs
  exact ⟨s, hrun, hclear, retry_cleans_iff hrun hup hr hfailed⟩

/-- The file service crashes when it has written the receipt of the user. -/
def fileCrash : List Event :=
  overHistory ++
    [.write "loadtest-1-1" ⟨.present, .present⟩, .cleanup "lt_1" "lt_1" none, .task "lt_1" .fine,
      .task "lt_1" .fine, .task "lt_1" (.lost 1), .task "lt_1" .fine]

/-- **A crash of the file service between its receipt and its result makes every retry fail.** -/
theorem retry_fails_after_file_crash :
    ¬∀ events s rid r, machine.run System.initial events = some s → s.ops.serving = true →
      s.ops.reports.lookup rid = some r → r.cleanupStatus = .failed →
      ∃ s₁, machine.step s (.cleanup rid rid none) = some s₁ ∧
        ∀ retry t, machine.run s₁ retry = some t → machine.Along (System.Faultless rid) s₁ retry →
          rid ∉ t.cleaners → t.Cleaned rid := by
  intro h
  have test : (machine.run System.initial fileCrash).all (fun s =>
      !(s.ops.serving && (s.ops.reports.lookup "lt_1").any (fun r => r.cleanupStatus = .failed) &&
        !decide (s.Clear "lt_1"))) = false := by
    decide +kernel
  obtain ⟨s, hrun, hs⟩ := machine.exists_run_of_all_eq_false test
  simp only [Bool.not_eq_false', Bool.and_eq_true, decide_eq_true_eq, Option.any_eq_true,
    Bool.not_eq_true', decide_eq_false_iff_not] at hs
  obtain ⟨⟨hup, r, hr, hfailed⟩, hstuck⟩ := hs
  obtain ⟨s₁, hcleanup, hwaiting, hretrying⟩ :=
    System.cleanup_retry (System.invariant_of_run hrun) hup hr hfailed
  obtain ⟨s₁', hstep, hcleans⟩ := h fileCrash s "lt_1" r hrun hup hr hfailed
  obtain rfl : s₁ = s₁' := Option.some.inj (hcleanup.symm.trans hstep)
  obtain ⟨n, t, hretry, hend⟩ := System.retry_ends hretrying hwaiting
  have hfaultless := System.faultless_replicate "lt_1" n s₁
  have hcleaned := hcleans _ t hretry hfaultless hend
  exact hstuck ((System.retry_result hretrying hretry hfaultless hend).mp hcleaned)

end OpencodeCloud.Operations.Cleanups
