/-
# OpencodeCloud.Platform.System -- operations, catalog, sandbox manager and gateway together

The operations service of `OpencodeCloud.Operations.System` with the services it calls and the network
in between. A call is on its way from the moment its task awaits it. The service may carry it out at any
time (`execute`); the task then takes the answer (`answer`), or its call fails before or after the
request was carried out (`lose`). A request whose task no longer waits for it is abandoned, and the
service may still carry it out at any later time (`late`).

Two history variables, which no step reads, say what has happened: for which jobs the manager has
acknowledged a quiesce that they have not resumed (`relies`), and for which releases a compensation was
carried out (`undone`).
-/
import OpencodeCloud.Catalog.Service
import OpencodeCloud.Operations.System
import OpencodeCloud.Platform.Gateway

namespace OpencodeCloud.Platform

open OpencodeCloud.Library OpencodeCloud.Catalog OpencodeCloud.Operations

/-! ## §A Requests on their way -/

/-- Why a request is sent; a compensation names the release that it takes back. -/
inductive Purpose where
  | work
  | compensation (rid : String)
  | reconciliation
  deriving Repr, DecidableEq

/-- A request and the job on whose behalf it is sent. -/
structure Letter where
  job : String
  purpose : Purpose
  call : Call
  deriving DecidableEq

/-- A task that awaits an answer. -/
inductive Caller where
  | worker (task : Nat)
  | reconciler (task : Nat)
  deriving Repr, DecidableEq

/-- The step of operations in which the caller takes an answer. -/
def Caller.takes : Caller → Reply → Operations.Event
  | .worker task, reply => .reply task reply
  | .reconciler task, reply => .reconcileReply task reply

def workerPurpose (w : Worker) : Purpose :=
  match w.pc, w.release with
  | .compensate _, some r => .compensation r.releaseId
  | _, _ => .work

/-- The request that a worker awaits. -/
def workerLetter (w : Worker) : Option Letter := w.call.map fun c => ⟨w.job.id, workerPurpose w, c⟩

/-- The request that a reconciliation awaits. -/
def reconcilerLetter (t : Reconciler) : Option Letter :=
  t.call.map fun c => ⟨t.job.id, .reconciliation, c⟩

/-! ## §B State -/

structure State where
  operations : Operations.System
  catalog : Service
  manager : Manager
  gateway : Gateway
  answers : Dict Caller Reply
  abandoned : List Letter
  /-- the target of each job that relies on a block -/
  relies : Dict String String
  /-- the releases that were taken back -/
  undone : List String

/-- A new installation, with the instructions of the bundled examples. -/
def State.initial (code data : String) : State where
  operations := Operations.System.initial
  catalog := Service.initial code data
  manager := Manager.initial
  gateway := Gateway.initial
  answers := ∅
  abandoned := []
  relies := ∅
  undone := []

/-- The catalog document. -/
abbrev State.data (p : State) : Document := p.catalog.store.data

/-- What a service meets outside the model: a fresh `uuid4`, a fault, and the answer of a service that
is not modelled. -/
structure Luck where
  fresh : String
  fault : Option Fault
  reply : Reply

inductive Event where
  /-- a step of operations that is not an answer -/
  | operate (e : Operations.Event)
  | execute (c : Caller) (luck : Luck)
  | answer (c : Caller)
  | lose (c : Caller) (raised : Bool)
  | late (i : Nat) (luck : Luck)
  /-- an administrator edits the catalog -/
  | edit (c : Command)
  /-- the manager loads an agent for a request of a user -/
  | load (aid : String) (fault : Option Fault)

namespace State

/-- The request that a caller awaits. -/
def letter (p : State) : Caller → Option Letter
  | .worker task => (p.operations.workers.lookup task).bind workerLetter
  | .reconciler task => (p.operations.reconcilers.lookup task).bind reconcilerLetter

/-! ## §C The services -/

/-- An answer: an internal error of a service is not JSON. -/
def replyOf : Result Response → Reply
  | .ok r => .ok r
  | .error e => if e.status = 500 then .raised else .error e

/-- What `prepare` is sent for a job. -/
def prepareRequest (kind : Kind) (target : String) (r : Request) : PrepareRequest where
  kind := if kind = .modelsApply then .models else .agent target
  version := r.version
  revision := r.revision

def agentAction : LifecycleAction → AgentAction
  | .archive => .archive
  | .restore => .restore
  | .deleting => .deleting
  | .delete => .delete

/-- The command of the catalog that a call is, if it edits the catalog. -/
def catalogCommand (fresh : String) : Call → Option Command
  | .prepare kind target request => some (.prepare fresh (prepareRequest kind target request))
  | .commit rid => some (.commit rid)
  | .lifecycle aid action requestId fingerprint =>
    some (.lifecycle aid (agentAction action) (some requestId) fingerprint none)
  | _ => none

/-- The answer of the catalog, before a call is carried out. -/
def catalogAnswer (env : Service.Environment) (s : Service) (fresh : String) : Call → Result Response
  | .activeBundle aid => (activeBundle aid s.store).map .bundle
  | .release rid => (releaseStatus rid s.store).map .release
  | .prepare kind target request =>
    (prepare env.host fresh (prepareRequest kind target request) s.store).map fun x => .release x.2
  | .commit rid => (commit rid s.store).map fun x => .version x.2
  | .lifecycle aid action requestId fingerprint =>
    (s.handle env (.lifecycle aid (agentAction action) (some requestId) fingerprint none)).map
      fun _ => .accepted
  | .catalogImpact aid =>
    if (s.store.data.agents.lookup aid).isSome then .ok (.owned true) else fail 404 "Agent not found"
  | _ => fail 404 "Not Found"

/-- The catalog carries out a call. -/
def askCatalog (env : Service.Environment) (s : Service) (fresh : String) (c : Call) : Service :=
  match catalogCommand fresh c with
  | none => s
  | some command =>
    match s.handle env command with
    | .ok t => t
    | .error _ => s

/-- The manager carries out a call; the catalog is the one that it reads bundles from. -/
def askManager (d : Document) (m : Manager) (fault : Option Fault) : Call → Manager × Reply
  | .action target body => m.action d fault target body
  | .applicationStatus aid => m.applicationStatus d fault aid
  | _ => (m, .raised)

/-- The gateway carries out a call. -/
def askGateway (g : Gateway) (fault : Option Fault) : Call → Gateway × Reply
  | .gatewayStatus => (g, .ok g.status)
  | .validateConfig r => (g, replyOf (Gateway.validate fault r))
  | .activate r =>
    match g.activate fault r with
    | .ok g' => (g', .ok g'.status)
    | .error e => (g, replyOf (.error e))
  | .rollback rid =>
    match g.rollback fault rid with
    | .ok g' => (g', .ok g'.status)
    | .error e => (g, replyOf (.error e))
  | _ => (g, .raised)

/-- The services, by the calls they answer. -/
inductive Destination where
  | catalog | manager | gateway | elsewhere
  deriving Repr, DecidableEq

def destination : Call → Destination
  | .activeBundle _ | .release _ | .prepare _ _ _ | .commit _ => .catalog
  | .lifecycle _ _ _ _ | .catalogImpact _ => .catalog
  | .action _ _ | .applicationStatus _ => .manager
  | .validateConfig _ | .activate _ | .gatewayStatus | .rollback _ => .gateway
  | .probes _ | .sandboxAction _ _ _ _ | .cleanupFiles _ _ _ _ => .elsewhere
  | .sandboxDetail _ | .sandboxImpact _ | .filesImpact _ => .elsewhere

variable (env : Service.Environment)

/-- A request is carried out by the service it was sent to. -/
def perform (p : State) (luck : Luck) (c : Call) : State × Reply :=
  match destination c with
  | .catalog =>
    ({ p with catalog := askCatalog env p.catalog luck.fresh c },
      replyOf (catalogAnswer env p.catalog luck.fresh c))
  | .manager =>
    let r := askManager p.data p.manager luck.fault c
    ({ p with manager := r.1 }, r.2)
  | .gateway =>
    let r := askGateway p.gateway luck.fault c
    ({ p with gateway := r.1 }, r.2)
  | .elsewhere => (p, luck.reply)

/-- A release id comes from `uuid4`, so it is new. -/
def newId (p : State) (luck : Luck) : Call → Bool
  | .prepare _ _ _ => (p.data.releases.lookup luck.fresh).isNone
  | _ => true

/-! ## §D History -/

/-- An acknowledged quiesce makes its job rely on the block, until a resume for the job succeeds. -/
def reliesAfter (p : State) (awaited : Bool) (l : Letter) : Reply → Dict String String
  | .ok _ =>
    match l.call with
    | .action target body =>
      match body.action with
      | .quiesce =>
        -- a replay from the journal does not carry out anything
        if awaited && (p.manager.commands.lookup body.requestId).isNone then
          p.relies.insert l.job target
        else p.relies
      | .resume => p.relies.erase l.job
      | _ => p.relies
    | _ => p.relies
  | _ => p.relies

def undoneAfter (p : State) (l : Letter) : List String :=
  match l.purpose with
  | .compensation rid => rid :: p.undone
  | _ => p.undone

/-- A request is carried out, and its effect on the history noted. -/
def carryOut (p : State) (luck : Luck) (awaited : Bool) (l : Letter) : State × Reply :=
  let r := p.perform env luck l.call
  ({ r.1 with relies := p.reliesAfter awaited l r.2, undone := p.undoneAfter l }, r.2)

/-! ## §E Steps -/

/-- A caller stops waiting: its request, if it was not carried out, is abandoned. -/
def withdraw (p : State) (c : Caller) : State :=
  { p with
    answers := p.answers.erase c
    abandoned :=
      if (p.answers.lookup c).isSome then p.abandoned else (p.letter c).toList ++ p.abandoned }

/-- The requests that are awaited and not carried out. -/
def inFlight (p : State) : List Letter :=
  (p.operations.workers.collect fun task w =>
    if (p.answers.lookup (.worker task)).isSome then none else workerLetter w) ++
  p.operations.reconcilers.collect fun task t =>
    if (p.answers.lookup (.reconciler task)).isSome then none else reconcilerLetter t

/-- Operations stops: nobody waits for anything any more. -/
def withdrawAll (p : State) : State :=
  { p with answers := ∅, abandoned := p.inFlight ++ p.abandoned }

/-- What a step of operations does to the requests on their way. -/
def withdrawn (p : State) : Operations.Event → State
  | .stop task => p.withdraw (.worker task)
  | .restart => p.withdrawAll
  | _ => p

/-- The steps of operations that are not answers. -/
def independent : Operations.Event → Bool
  | .reply _ _ | .reconcileReply _ _ => false
  | _ => true

def operate (p : State) (e : Operations.Event) : Option State :=
  if independent e then (p.operations.step e).map fun sys => { p.withdrawn e with operations := sys }
  else none

def execute (p : State) (c : Caller) (luck : Luck) : Option State := do
  let l ← p.letter c
  if (p.answers.lookup c).isSome || !p.newId luck l.call then none
  else
    let r := p.carryOut env luck true l
    some { r.1 with answers := p.answers.insert c r.2 }

/-- A caller takes the answer to its request. -/
def answer (p : State) (c : Caller) : Option State := do
  let reply ← p.answers.lookup c
  (p.operations.step (c.takes reply)).map fun sys =>
    { p with operations := sys, answers := p.answers.erase c }

/-- The name of the service that a call is sent to. -/
def serviceName : Call → String
  | .cleanupFiles _ _ _ _ | .filesImpact _ => "file_service"
  | c =>
    match destination c with
    | .catalog => "catalog_service"
    | .gateway => "model_gateway"
    | .manager | .elsewhere => "sandbox_manager"

/-- The failure of a call: `httpx` raises, or what comes back is not JSON. -/
def failure (raised : Bool) (c : Call) : Reply :=
  if raised then .raised else unavailable (serviceName c)

def lose (p : State) (c : Caller) (raised : Bool) : Option State := do
  let l ← p.letter c
  (p.operations.step (c.takes (failure raised l.call))).map fun sys =>
    { p.withdraw c with operations := sys }

def late (p : State) (i : Nat) (luck : Luck) : Option State := do
  let l ← p.abandoned[i]?
  if p.newId luck l.call then
    some { (p.carryOut env luck false l).1 with abandoned := p.abandoned.eraseIdx i }
  else none

/-- The commands of administrators; releases and lifecycles are the business of operations. -/
def administrative : Command → Bool
  | .prepare _ _ | .commit _ | .lifecycle _ _ _ _ _ => false
  | _ => true

def edit (p : State) (c : Command) : Option State :=
  if administrative c then
    ((Catalog.catalog env).step p.catalog c).map fun s => { p with catalog := s }
  else none

def load (p : State) (aid : String) (fault : Option Fault) : State :=
  { p with manager := (p.manager.load p.data fault aid).1 }

/-- One step of the platform. -/
def step (p : State) : Event → Option State
  | .operate e => p.operate e
  | .execute c luck => p.execute env c luck
  | .answer c => p.answer c
  | .lose c raised => p.lose c raised
  | .late i luck => p.late env i luck
  | .edit c => p.edit env c
  | .load aid fault => some (p.load aid fault)

end State

/-- The platform. -/
def platform (env : Service.Environment) : Machine State Event := ⟨State.step env⟩

end OpencodeCloud.Platform
