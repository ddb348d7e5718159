/-
# OpencodeCloud.Sandbox.Lifecycle -- requests and lifecycle actions over one backend

Everything that acquires, uses, stops or removes the sandboxes of one manager: native requests and event
subscriptions (`proxy`, `_stream_sse`), actions on one sandbox (`sandbox_action`), actions on an Agent
(`action`) and the cleanup of a load-test user. Each is a `Task` that rests at one of its awaits; what it
does from there to the next is one step, since nothing else runs in between. A step has three parts: the
change in flight at the await is carried out, the task goes on, and it changes what the manager keeps in
memory (`Effect`).

**Any await can fail or be cancelled.** The change that was in flight there is then abandoned: it may
still take effect, at any later moment, or never (`late`).

A lock is held by the task that is between taking and leaving it, so the locks are no part of the state.
The journal of requests is `Sandbox.Journal`; the other tests that only refuse a request are failures
here.
-/
import OpencodeCloud.Library.Counter
import OpencodeCloud.Library.Machine
import OpencodeCloud.Sandbox.Acquire

namespace OpencodeCloud.Sandbox.Backend

open OpencodeCloud.Library World

/-! ## Tasks -/

inductive RequestKind
  | read | mutate | events
  deriving DecidableEq

/-- A native request; it has a lease from the end of its acquisition on. -/
inductive RequestStage
  | authorize
  | check
  | lock
  | admission
  | acquiring (p : Acquisition)
  | leased (c : Container)
  /-- an event stream whose headers have arrived -/
  | subscribed (c : Container)
  /-- the last lease of a sandbox is given back -/
  | releasing
  | over
  deriving DecidableEq

inductive SandboxAction
  | start | stop | restart | recover | destroy
  deriving DecidableEq

/-- The sessions of one directory with the type of their status. -/
abbrev Group : Type := List (String × Option String)

instance : LawfulBEq (String × Option Group) := inferInstance

/-- An action on one sandbox; `r` is the record it found under the lock. From `inspect` to `statuses` it
asks whether the sandbox is idle. -/
inductive SandboxStage
  | lock
  | inspect (r : SandboxRecord)
  | inspectById (r : SandboxRecord) (id : Nat)
  | findById (r : SandboxRecord) (id : Nat)
  | findByName (r : SandboxRecord)
  | sessions (r : SandboxRecord)
  | statuses (r : SandboxRecord) (groups : List (String × Option Group))
  | admission (r : SandboxRecord)
  | container (r : SandboxRecord) (id : Nat)
  | destroyById (r : SandboxRecord) (id : Nat)
  | destroyByName (r : SandboxRecord)
  | stopping (c : Container)
  | removing (r : SandboxRecord) (c : Container)
  | acquiring (p : Acquisition)
  | over (ok : Bool)
  deriving DecidableEq

/-- `remove_records`, with the records that are still to come. -/
inductive Removal
  | looking (o : Owner) (id : Nat) (todo : List (Owner × SandboxRecord))
  | discarding (o : Owner) (c : Container) (todo : List (Owner × SandboxRecord))
  | refused
  | done
  deriving DecidableEq

inductive AgentAction
  | quiesce | apply (d : Definition) | verify | resume | archive | restore | delete | restart | stop
  deriving DecidableEq

structure AgentRequest where
  agent : String
  name : AgentAction
  username : Option String
  deriving DecidableEq

/-- A verification: the Agent and its definition, the user in turn, and what is still to come. -/
structure Verification where
  target : String
  definition : Definition
  user : Owner
  users : List Owner
  targets : List String
  acquired : List (Owner × Container)
  deriving DecidableEq

inductive AgentStage
  | lock
  | drain
  | removing (p : Removal)
  | committing (target : String) (targets : List String)
  | loading (target : String) (targets : List String)
  | desired (v : Verification)
  | userLock (v : Verification)
  | acquiring (v : Verification) (p : Acquisition)
  | over (ok : Bool)
  deriving DecidableEq

inductive CleanupStage
  | lock
  | removing (p : Removal)
  | over (ok : Bool)
  deriving DecidableEq

inductive Task
  | request (o : Owner) (kind : RequestKind) (stage : RequestStage)
  | sandbox (o : Owner) (name : SandboxAction) (force : Bool) (stage : SandboxStage)
  | agent (q : AgentRequest) (stage : AgentStage)
  | cleanup (o : Owner) (run : String) (stage : CleanupStage)
  deriving DecidableEq

namespace Task

/-- The acquisition that a task is in. -/
def acquisition : Task → Option (Owner × Acquisition)
  | .request o _ (.acquiring p) | .sandbox o _ _ (.acquiring p) => some (o, p)
  | .agent _ (.acquiring v p) => some (v.user, p)
  | _ => none

/-- The user whose lock a task holds. -/
def holds : Task → Option Owner
  | .request o _ .admission | .request o _ (.acquiring _) => some o
  | .request _ _ _ => none
  | .sandbox _ _ _ .lock | .sandbox _ _ _ (.over _) => none
  | .sandbox o _ _ _ => some o
  | .agent _ (.acquiring v _) => some v.user
  | .agent _ _ => none
  | .cleanup _ _ .lock | .cleanup _ _ (.over _) => none
  | .cleanup o _ (.removing _) => some o

/-- The Agent whose lock a task holds. -/
def holdsAgent : Task → Option String
  | .agent _ .lock | .agent _ (.over _) => none
  | .agent q _ => some q.agent
  | _ => none

/-- The change that is in flight. -/
def call : Task → Option Call
  | .request o _ (.acquiring p) | .sandbox o _ _ (.acquiring p) => p.call o
  | .agent _ (.acquiring v p) => p.call v.user
  | .sandbox o _ _ (.stopping c) => some (.stop o c.id)
  | .sandbox o _ _ (.removing _ c) => some (.remove o c.id)
  | .agent _ (.removing (.discarding o c _)) | .cleanup _ _ (.removing (.discarding o c _)) =>
    some (.remove o c.id)
  | _ => none

end Task

/-! ## The manager -/

structure State where
  world : World
  /-- what the catalog service answers -/
  published : Dict String Definition
  /-- `overrides`: the versions that are staged -/
  overrides : Dict String Definition
  verified : Dict String String
  blocked : List String
  requests : Dict String Nat
  acquiring : Dict String Nat
  inUse : Dict Owner Nat
  eventSubscribers : Dict Owner Nat
  /-- the rows of `sessions`, by sandbox -/
  sessions : Dict Owner (List String)
  /-- what OpenCode answers for a directory of a sandbox -/
  statuses : Dict (Owner × String) Group
  tasks : List Task
  /-- changes that nobody waits for any more -/
  late : List Call
  /-- history: the Agents whose last bundle was staged by an apply that did not come to its end -/
  halfApplied : List String

/-- What a task changes on its way, besides the call it waited for. -/
inductive Effect
  | mark (o : Owner) (status : SandboxStatus)
  | destroyed (o : Owner) (imageVersion : String)
  | request (a : String)
  | respond (a : String)
  | acquiring (a : String)
  | acquired (a : String)
  | lease (o : Owner)
  | unlease (o : Owner)
  | subscribe (o : Owner)
  | unsubscribe (o : Owner)
  | block (a : String)
  | unblock (a : String)
  | unverify (a : String)
  | stage (a : String) (d : Definition)
  | applied (a : String)
  | commit (a : String)
  | verified (a : String) (version : String)
  | deleteAgent (a : String)
  | deleteUser (o : Owner)

namespace State

def initial (sandboxImage : String) : State where
  world := World.initial sandboxImage
  published := ∅
  overrides := ∅
  verified := ∅
  blocked := []
  requests := ∅
  acquiring := ∅
  inUse := ∅
  eventSubscribers := ∅
  sessions := ∅
  statuses := ∅
  tasks := []
  late := []
  halfApplied := []

def apply (s : State) : Effect → State
  | .mark o status => { s with world := s.world.perform (.markSandboxStatus o status) }
  | .destroyed o imageVersion =>
    { s with world := s.world.perform (.upsertSandbox o none .destroyed imageVersion) }
  | .request a => { s with requests := increment s.requests a }
  | .respond a => { s with requests := decrement s.requests a }
  | .acquiring a => { s with acquiring := increment s.acquiring a }
  | .acquired a => { s with acquiring := decrement s.acquiring a }
  | .lease o => { s with inUse := increment s.inUse o }
  | .unlease o => { s with inUse := drop s.inUse o }
  | .subscribe o => { s with eventSubscribers := increment s.eventSubscribers o }
  | .unsubscribe o => { s with eventSubscribers := drop s.eventSubscribers o }
  | .block a => { s with blocked := a :: s.blocked }
  | .unblock a => { s with blocked := s.blocked.filter (· != a) }
  | .unverify a => { s with verified := s.verified.erase a }
  | .stage a d =>
    { s with overrides := s.overrides.insert a d, halfApplied := a :: s.halfApplied }
  | .applied a => { s with halfApplied := s.halfApplied.filter (· != a) }
  | .commit a => { s with overrides := s.overrides.erase a }
  | .verified a version => { s with verified := s.verified.insert a version }
  | .deleteAgent a => { s with world := s.world.deleteAgent a }
  | .deleteUser o => { s with world := s.world.deleteUser o }

def applyAll (s : State) (es : List Effect) : State := es.foldl apply s

/-- `check_acquire_local` raises. -/
def blocks (s : State) (a : String) : Bool := s.blocked.contains a || s.blocked.contains "*"

/-- `agent_catalog.load`. -/
def load (s : State) (a : String) : Option Definition :=
  (s.overrides.lookup a).or (s.published.lookup a)

def userLocked (s : State) (o : Owner) : Bool := s.tasks.any fun t => t.holds == some o

def agentLocked (s : State) (a : String) : Bool := s.tasks.any fun t => t.holdsAgent == some a

/-- `active_request_leases`. -/
def activeRequestLeases (s : State) (o : Owner) : Nat := count s.inUse o - count s.eventSubscribers o

/-- The records of an Agent, of one user if one is given. -/
def records (s : State) (a : String) (username : Option String) : List (Owner × SandboxRecord) :=
  s.world.sandboxes.collect fun o r =>
    if o.1 = a ∧ username.all (· == o.2) = true then some (o, r) else none

/-- `application-status`: the version that is reported as verified. -/
def reportsVerified (s : State) (a : String) : Option String :=
  (s.load a).bind fun d => if s.verified.lookup a = some d.version then some d.version else none

end State

/-! ## Native requests -/

/-- `management.lease`, for a mutating request. -/
def managementLease (kind : RequestKind) (e : Effect) : List Effect :=
  if kind = .mutate then [e] else []

/-- A request that gets no sandbox. -/
def giveUp (a : String) (kind : RequestKind) : List Effect :=
  managementLease kind (.respond a) ++ [.acquired a]

/-- `release`: the last lease waits for its time stamp to be written. -/
def release (s : State) (o : Owner) : RequestStage × List Effect :=
  if count s.inUse o > 1 then (.over, [.unlease o]) else (.releasing, [])

/-- A request goes on. -/
def advanceRequest (s : State) (o : Owner) (kind : RequestKind) :
    RequestStage → Outcome → Option (RequestStage × List Effect)
  | .over, _ => none
  | .authorize, .ok =>
    some (.check, managementLease kind (.request o.1) ++ [.acquiring o.1])
  | .check, .ok => if s.blocks o.1 then none else some (.lock, [])
  -- the block is looked at again under the lock, and after the admission
  | .lock, .ok => if s.userLocked o || s.blocks o.1 then none else some (.admission, [])
  | .admission, .resources _ => if s.blocks o.1 then none else some (.acquiring .load, [])
  | .acquiring p, x =>
    match p.next s.world (s.load o.1) o x with
    | some (.done c) => some (.leased c, [.lease o, .acquired o.1])
    | some .raised => some (.over, giveUp o.1 kind)
    | some p' => some (.acquiring p', [])
    | none => none
  | .leased c, x =>
    match kind, x with
    | .events, .ok => some (.subscribed c, [.subscribe o])
    | _, _ => some ((release s o).1, managementLease kind (.respond o.1) ++ (release s o).2)
  | .subscribed _, _ => some ((release s o).1, .unsubscribe o :: (release s o).2)
  | .releasing, _ => some (.over, [.unlease o])
  | .authorize, x => if x.answers then none else some (.over, [])
  | _, x => if x.answers then none else some (.over, giveUp o.1 kind)

/-! ## Actions on one sandbox -/

inductive Observation
  | busy | idle | unknown
  deriving DecidableEq

def isBusy (type : Option String) : Bool := type == some "busy" || type == some "retry"

/-- One more directory: a session that is busy in one of them stays busy. -/
def mergeGroup (result : Dict String (Option String)) (group : Group) : Dict String (Option String) :=
  group.foldl (fun result session =>
    if isBusy (result.lookup session.1).join then result else result.insert session.1 session.2) result

/-- What the statuses of all sessions say. -/
def observe (result : Dict String (Option String)) : Observation :=
  if result.any fun _ type => isBusy type then .busy
  else if result.all fun _ type => type == some "idle" then .idle
  else .unknown

/-- The directories whose statuses are asked for. -/
def directories (sessions : List String) : List String :=
  ("/workspace" :: sessions.map ("/workspace/sessions/" ++ ·)).eraseDups

section SandboxActions

variable (s : State) (o : Owner) (name : SandboxAction) (force : Bool)

/-- The journal has the request: now for the action itself. -/
def act (r : SandboxRecord) (c : Option Container) : SandboxStage × List Effect :=
  match name, c with
  | .destroy, some c | .restart, some c | .recover, some c => (.removing r c, [])
  | .destroy, none =>
    (.over true, [.destroyed o r.imageVersion])
  | .stop, some c => (.stopping c, [])
  | .stop, none => (.over true, [.mark o .stopped])
  | .start, _ | .restart, none | .recover, none => (.acquiring .load, [])

/-- Look for the container of the record. -/
def findContainer (r : SandboxRecord) : SandboxStage × List Effect :=
  match r.containerId, name with
  | some id, _ => (.container r id, [])
  | none, .destroy => (.destroyByName r, [])
  | none, _ => act o name r none

/-- A container was found: it must be the user's. -/
def actOn (r : SandboxRecord) (c : Container) : SandboxStage × List Effect :=
  if s.world.verifyOwnership o c then act o name r (some c) else (.over false, [])

/-- After the execution state was asked for. -/
def decideAction (r : SandboxRecord) (x : Observation) : SandboxStage × List Effect :=
  if force = false ∧ name ≠ .start ∧ (s.activeRequestLeases o > 0 ∨ x ≠ .idle) then (.over false, [])
  else
    match name with
    | .start | .restart | .recover => (.admission r, [])
    | .stop | .destroy => findContainer o name r

/-- No endpoint: look for a container by the recorded id, then by name. -/
def findExisting (r : SandboxRecord) : SandboxStage :=
  match r.containerId with
  | some id => .findById r id
  | none => .findByName r

/-- What a container that does not run says. -/
def settle (c : Container) : Observation :=
  if s.world.verifyOwnership o c then
    match c.status with
    | .created | .exited | .dead => .idle
    | _ => .unknown
  else .unknown

/-- One more directory has answered. -/
def readGroup (groups : List (String × Option Group)) (directory : String) (group : Group) :
    List (String × Option Group) :=
  groups.map fun g => if g.1 = directory ∧ g.2 = none then (g.1, some group) else g

/-- `execution` begins, with the counters. -/
def beginExecution (r : SandboxRecord) : SandboxStage × List Effect :=
  if s.activeRequestLeases o > 0 ∨ count s.requests o.1 > 0 ∨ count s.acquiring o.1 > 0 then
    decideAction s o name force r .busy
  else (.inspect r, [])

/-- An action on a sandbox goes on. -/
def advanceSandbox : SandboxStage → Outcome → Option (SandboxStage × List Effect)
  | .over _, _ => none
  | .lock, .ok =>
    if s.userLocked o then none
    else
      match s.world.sandboxes.lookup o with
      | some r => some (beginExecution s o name force r)
      | none => some (.over false, [])
  | .inspect r, .ok =>
    match (s.world.sandboxes.lookup o).bind SandboxRecord.containerId with
    | some id => some (.inspectById r id, [])
    | none => some (findExisting r, [])
  | .inspectById r id, .ok =>
    match s.world.find o id with
    | none => some (findExisting r, [])
    | some c =>
      if s.world.verifyOwnership o c = false then some (decideAction s o name force r .unknown)
      else if c.status = .running then some (.sessions r, [])
      else some (findExisting r, [])
  | .findById r id, .ok =>
    match s.world.find o id with
    | some c => some (decideAction s o name force r (settle s o c))
    | none => some (.findByName r, [])
  | .findByName r, .ok =>
    match s.world.docker.lookup o with
    | some c => some (decideAction s o name force r (settle s o c))
    | none => some (decideAction s o name force r .idle)
  | .sessions r, .ok =>
    some (.statuses r ((directories ((s.sessions.lookup o).getD [])).map (·, none)), [])
  | .statuses r groups, .statuses directory =>
    if (directory, none) ∈ groups then
      let groups := readGroup groups directory ((s.statuses.lookup (o, directory)).getD [])
      if groups.all (·.2.isSome) then
        some (decideAction s o name force r
          (observe ((groups.map fun g => g.2.getD []).foldl mergeGroup ∅)))
      else some (.statuses r groups, [])
    else none
  -- `except (httpx.HTTPError, ValueError, SandboxError)`
  | .inspect r, .error | .inspectById r _, .error | .findById r _, .error | .findByName r, .error
  | .sessions r, .error | .statuses r _, .error => some (decideAction s o name force r .unknown)
  | .admission r, .resources _ => some (findContainer o name r)
  | .container r id, .ok =>
    match s.world.find o id, name with
    | some c, _ => some (actOn s o name r c)
    | none, .destroy => some (.destroyById r id, [])
    | none, _ => some (act o name r none)
  | .destroyById r id, .ok =>
    match s.world.find o id with
    | some c => some (actOn s o name r c)
    | none => some (.destroyByName r, [])
  | .destroyByName r, .ok =>
    match s.world.docker.lookup o with
    | some c => some (actOn s o name r c)
    | none => some (act o name r none)
  | .stopping _, .ok => some (.over true, [.mark o .stopped])
  | .removing r _, .ok => some (act o name r none)
  | .acquiring p, x =>
    match p.next s.world (s.load o.1) o x with
    | some (.done _) => some (.over true, [])
    | some .raised => some (.over false, [])
    | some p' => some (.acquiring p', [])
    | none => none
  | _, x => if x.answers then none else some (.over false, [])

end SandboxActions

/-! ## Removing the containers of the records -/

/-- The next record that has the id of a container; a record without one is passed over. -/
def removeNext (s : State) : List (Owner × SandboxRecord) → Removal × List Effect
  | [] => (.done, [])
  | (o, r) :: todo =>
    if s.activeRequestLeases o > 0 then (.refused, [])
    else
      match r.containerId with
      | some id => (.looking o id todo, [])
      | none =>
        ((removeNext s todo).1, .mark o .missing :: (removeNext s todo).2)

/-- A record is done with. -/
def removed (s : State) (o : Owner) (todo : List (Owner × SandboxRecord)) : Removal × List Effect :=
  ((removeNext s todo).1, .mark o .missing :: (removeNext s todo).2)

def Removal.next (s : State) (loadTest : Option String) :
    Removal → Outcome → Option (Removal × List Effect)
  | .looking o id todo, .ok =>
    match s.world.find o id with
    | none => some (removed s o todo)
    | some c =>
      if s.world.verifyOwnership o c = true ∧ (loadTest = none ∨ c.loadTest = loadTest) then
        some (.discarding o c todo, [])
      else some (.refused, [])
  | .discarding o _ todo, .ok => some (removed s o todo)
  | .refused, _ | .done, _ => none
  | _, x => if x.answers then none else some (.refused, [])

/-! ## Actions on an Agent -/

section AgentActions

variable (s : State) (q : AgentRequest)

/-- The removal goes on; at the end of a deletion the rows are deleted. -/
def goRemoving (p : Removal × List Effect) : AgentStage × List Effect :=
  match p.1 with
  | .refused => (.over false, p.2)
  | .done =>
    match q.name with
    | .apply _ => (.over true, p.2 ++ [.applied q.agent])
    | .delete => (.over true, p.2 ++ [.deleteAgent q.agent])
    | _ => (.over true, p.2)
  | p' => (.removing p', p.2)

/-- The Agents that `verify` and `resume` are for. -/
def overridden : List String := s.overrides.keys

/-- The next staged version to commit, then the block is taken away. -/
def commitNext : List String → AgentStage × List Effect
  | [] => (.over true, [.unblock q.agent])
  | target :: targets => (.committing target targets, [])

def loadNext : List String → AgentStage × List Effect
  | [] => (.over true, [])
  | target :: targets => (.loading target targets, [])

/-- The next user of the Agent under verification. -/
def verifyNext (v : Verification) : List Owner → AgentStage × List Effect
  | user :: users => (.desired { v with user := user, users := users }, [])
  | [] =>
    ((loadNext v.targets).1, .verified v.target v.definition.version :: (loadNext v.targets).2)

/-- What an action does when it has its lock. -/
def begin : AgentStage × List Effect :=
  match q.name with
  | .resume =>
    commitNext q (if q.agent = "*" then overridden s
      else if q.agent ∈ overridden s then [q.agent] else [])
  | .restore => (.over true, [.unblock q.agent])
  | .verify => loadNext (if q.agent = "*" then overridden s else [q.agent])
  | _ => (.drain, [.block q.agent])

/-- `admission.requests` and `admission.acquiring` are at zero. -/
def drained : Bool :=
  if q.agent = "*" then total s.requests == 0 && total s.acquiring == 0
  else count s.requests q.agent == 0 && count s.acquiring q.agent == 0

/-- What an action does when the Agent is drained. -/
def applyAction : AgentStage × List Effect :=
  match q.name with
  | .quiesce => (.over true, [])
  | .apply d =>
    let p := goRemoving q (removeNext s (s.records q.agent q.username))
    (p.1, .unverify q.agent :: .stage q.agent d :: p.2)
  | _ => goRemoving q (removeNext s (s.records q.agent q.username))

/-- An action on an Agent goes on. -/
def advanceAgent : AgentStage → Outcome → Option (AgentStage × List Effect)
  | .over _, _ => none
  | .lock, .ok => if s.agentLocked q.agent then none else some (begin s q)
  -- every sandbox has answered that it is idle
  | .drain, .ok => if drained s q then some (applyAction s q) else none
  -- the row of the last verification goes first, then the bundle may be refused
  | .drain, .error =>
    match q.name with
    | .apply _ => some (.over false, [.unverify q.agent])
    | _ => some (.over false, [])
  | .removing p, x => (p.next s none x).map (goRemoving q)
  | .committing target targets, .ok =>
    match s.overrides.lookup target, s.published.lookup target with
    | none, some _ => some (commitNext q targets)
    | some staged, some d =>
      if staged.version = d.version then
        some ((commitNext q targets).1, .commit target :: (commitNext q targets).2)
      else none
    | _, none => none
  | .loading target targets, .ok =>
    match s.load target with
    | some d =>
      some (verifyNext ⟨target, d, (target, ""), [], targets, []⟩
        ((s.records target none).map Prod.fst))
    | none => none
  | .desired v, .ok => some (.userLock v, [])
  | .desired v, .stopped => some (verifyNext v v.users)
  | .userLock v, .ok => if s.userLocked v.user then none else some (.acquiring v .load, [])
  | .acquiring v p, x =>
    match p.next s.world (s.load v.user.1) v.user x with
    | some (.done c) => some (verifyNext { v with acquired := (v.user, c) :: v.acquired } v.users)
    | some .raised => some (.over false, [])
    | some p' => some (.acquiring v p', [])
    | none => none
  | _, x => if x.answers then none else some (.over false, [])

end AgentActions

/-! ## Cleanup of a load-test user -/

/-- The removal goes on; at its end the rows of the user are deleted. -/
def goCleaning (o : Owner) (p : Removal × List Effect) : CleanupStage × List Effect :=
  match p.1 with
  | .refused => (.over false, p.2)
  | .done => (.over true, p.2 ++ [.deleteUser o])
  | p' => (.removing p', p.2)

/-- A cleanup goes on. -/
def advanceCleanup (s : State) (o : Owner) (run : String) :
    CleanupStage → Outcome → Option (CleanupStage × List Effect)
  | .over _, _ => none
  | .lock, .ok =>
    if s.userLocked o then none
    else some (goCleaning o (removeNext s (s.records o.1 (some o.2))))
  | .lock, x => if x.answers then none else some (.over false, [])
  | .removing p, x => (p.next s (some run) x).map (goCleaning o)

/-! ## The machine -/

inductive Event
  | request (o : Owner) (kind : RequestKind)
  | sandboxAction (o : Owner) (name : SandboxAction) (force : Bool)
  | agentAction (q : AgentRequest)
  | cleanup (o : Owner) (run : String)
  /-- the await of task `i` ends -/
  | step (i : Nat) (x : Outcome)
  /-- an abandoned change takes effect -/
  | late (k : Nat)
  /-- the catalog service has another version of an Agent -/
  | publish (a : String) (d : Option Definition)
  /-- a container changes by itself -/
  | container (o : Owner) (status : DockerStatus)
  | sessions (o : Owner) (ids : List String)
  | statuses (o : Owner) (directory : String) (group : Group)
  deriving DecidableEq

/-- A task goes on. -/
def Task.advance (s : State) : Task → Outcome → Option (Task × List Effect)
  | .request o kind stage, x => (advanceRequest s o kind stage x).map fun p => (.request o kind p.1, p.2)
  | .sandbox o name force stage, x =>
    (advanceSandbox s o name force stage x).map fun p => (.sandbox o name force p.1, p.2)
  | .agent q stage, x => (advanceAgent s q stage x).map fun p => (.agent q p.1, p.2)
  | .cleanup o run stage, x => (advanceCleanup s o run stage x).map fun p => (.cleanup o run p.1, p.2)

namespace State

/-- The change in flight is carried out, or abandoned. -/
def conclude (s : State) (call : Option Call) (x : Outcome) : State :=
  if x.answers then { s with world := call.elim s.world s.world.perform }
  else { s with late := s.late ++ call.toList }

/-- Global actions are only these three. -/
def allowed (q : AgentRequest) : Bool :=
  q.agent != "*" || (q.name == .quiesce || q.name == .resume || q.name == .verify)

def step (s : State) : Event → Option State
  | .request o kind => some { s with tasks := s.tasks ++ [.request o kind .authorize] }
  | .sandboxAction o name force => some { s with tasks := s.tasks ++ [.sandbox o name force .lock] }
  | .agentAction q => if allowed q then some { s with tasks := s.tasks ++ [.agent q .lock] } else none
  | .cleanup o run => some { s with tasks := s.tasks ++ [.cleanup o run .lock] }
  | .step i x => do
    let t ← s.tasks[i]?
    if x.answers && !(t.call.all s.world.accepts) then none
    else
      let (t', es) ← t.advance s x
      return { (s.conclude t.call x).applyAll es with tasks := s.tasks.set i t' }
  | .late k => do
    let c ← s.late[k]?
    return { s with world := s.world.perform c, late := s.late.eraseIdx k }
  | .publish a d => some { s with published := d.elim (s.published.erase a) (s.published.insert a) }
  | .container o status =>
    some { s with world := { s.world with docker := s.world.docker.modify o ({ · with status := status }) } }
  | .sessions o ids => some { s with sessions := s.sessions.insert o ids }
  | .statuses o directory group => some { s with statuses := s.statuses.insert (o, directory) group }

end State

/-- The sandbox manager. -/
def manager : Machine State Event := ⟨State.step⟩

end OpencodeCloud.Sandbox.Backend
