/-
# OpencodeCloud.Router.Handler -- one native request through the sandbox manager

`native_router.proxy`, with `LocalDockerBackend.acquire` and `release` and `_stream_sse` inlined, as
an automaton over the shared counters of the process: `Admission.requests` and `Admission.acquiring`
by agent, `LocalDockerBackend.in_use` and `event_subscribers` by sandbox. A program counter stands for
a stretch of statements between two changes of a counter or two checks of the admission block. Such a
stretch is either left at its end (`advance`) or by an exception or a cancellation inside it
(`Handler.raise`), which goes where the `try` statements around the stretch take it.
-/
import OpencodeCloud.Library.Counter
import OpencodeCloud.Library.Machine
import OpencodeCloud.Library.Tally

namespace OpencodeCloud.Router

open OpencodeCloud.Library

/-! ## Requests -/

inductive Method where
  | get | head | options | delete | post | put | patch
  deriving Repr, DecidableEq

/-- The owner of a sandbox. The code hashes both parts to an id (`sandbox_key`); the hash is taken as
injective. -/
structure Sandbox where
  agentId : String
  username : String
  deriving Repr, DecidableEq

/-- A native request; `path` is `native_path` split at its slashes. -/
structure NativeRequest where
  agentId : String
  username : String
  method : Method
  path : List String
  deriving Repr, DecidableEq

namespace NativeRequest

/-- `path.endswith("/abort")`. -/
def abort (r : NativeRequest) : Bool :=
  match r.path.reverse with
  | last :: _ :: _ => last == "abort"
  | _ => false

/-- The answers to a permission or a question. -/
def response (r : NativeRequest) : Bool :=
  match r.path.reverse with
  | id :: "permissions" :: _ :: _ => id != ""
  | "reply" :: id :: "permission" :: _ :: _ => id != ""
  | "reply" :: id :: "question" :: _ :: _ => id != ""
  | "reject" :: id :: "question" :: _ :: _ => id != ""
  | _ => false

/-- The methods that `authorize` counts as mutations. -/
def mutates : Method → Bool
  | .get | .head | .options | .delete => false
  | .post | .put | .patch => true

/-- What `authorize` returns for an admitted request: whether the router holds a request lease. -/
def mutation (r : NativeRequest) : Bool := mutates r.method && !r.abort && !r.response

/-- The requests that `proxy` hands to `_stream_sse`. -/
def eventStream (r : NativeRequest) : Bool :=
  r.method == .get &&
    match r.path with
    | ["event"] | ["global", "event"] | ["api", "event"] => true
    | ["api", "session", id, "event"] => id != ""
    | _ => false

/-- An event stream holds no request lease. -/
theorem mutation_of_eventStream {r : NativeRequest} (h : r.eventStream = true) :
    r.mutation = false := by
  simp only [eventStream, Bool.and_eq_true, beq_iff_eq] at h
  simp [mutation, h.1, mutates]

/-- The sandbox that `acquire` hands out for the request. -/
def sandbox (r : NativeRequest) : Sandbox := ⟨r.agentId, r.username⟩

end NativeRequest

/-! ## The automaton -/

inductive Pc where
  /-- body, metadata, owner and authorization -/
  | received
  /-- the lease is counted; `bind_request` and the metrics follow -/
  | admitted
  /-- `acquire`: the first check of the admission block, in a thread -/
  | checking
  /-- `acquire`: waiting for the user lock -/
  | locking
  /-- `acquire`: the block was checked again, the resource check is under way -/
  | resources
  /-- `acquire`: the last check is behind, `_acquire_locked` runs -/
  | starting
  /-- `acquire`: the sandbox lease is counted, the metrics follow -/
  | counted
  /-- `acquire` has returned: logging, headers, URL -/
  | acquired
  /-- `_stream_sse`: waiting for the upstream headers -/
  | connecting
  /-- `_stream_sse`: the headers are here, the subscriber is not counted yet -/
  | opening
  /-- `_stream_sse`: the subscriber is counted, the response does not run yet -/
  | subscribed
  /-- the response streams; its cleanup runs when it ends -/
  | streaming
  /-- the `try` of an ordinary request -/
  | plain
  /-- `release` is called -/
  | releasing
  /-- `release` writes the idle timestamp of the last lease -/
  | touching
  | done
  deriving Repr, DecidableEq

structure Handler where
  request : NativeRequest
  pc : Pc
  deriving Repr, DecidableEq

namespace Handler

def goto (h : Handler) (pc : Pc) : Handler := { h with pc := pc }

/-- The stretch between `management.lease(agent_id, True)` and `management.lease(agent_id, False)`. -/
def leased (h : Handler) : Bool :=
  match h.pc with
  | .admitted | .checking | .locking | .resources | .starting | .counted | .acquired
  | .plain => h.request.mutation
  | _ => false

/-- The stretch in which `acquiring` counts the handler. -/
def acquiring (h : Handler) : Bool :=
  match h.pc with
  | .checking | .locking | .resources | .starting | .counted => true
  | _ => false

/-- The stretch in which `in_use` counts the handler. -/
def usesSandbox (h : Handler) : Bool :=
  match h.pc with
  | .counted | .acquired | .connecting | .opening | .subscribed | .streaming | .plain
  | .releasing | .touching => true
  | _ => false

/-- The stretch in which `event_subscribers` counts the handler. -/
def subscribed (h : Handler) : Bool :=
  match h.pc with
  | .subscribed | .streaming => true
  | _ => false

/-- An exception here leaves a count behind: no `try` protects the statement. -/
def exposed (h : Handler) : Bool :=
  match h.pc with
  | .admitted => h.request.mutation
  | .counted | .acquired | .opening | .subscribed => true
  | _ => false

end Handler

/-- The counters of the process and its request handlers. -/
structure Process where
  requests : Dict String Nat
  acquiring : Dict String Nat
  inUse : Dict Sandbox Nat
  eventSubscribers : Dict Sandbox Nat
  handlers : List Handler

/-- A process without requests. -/
def Process.initial : Process := ⟨∅, ∅, ∅, ∅, []⟩

namespace Process

/-- `management.lease(agent_id, True)`, where the request holds a lease. -/
def lease (p : Process) (r : NativeRequest) : Process :=
  if r.mutation then { p with requests := increment p.requests r.agentId } else p

/-- `management.lease(agent_id, False)`, where the request holds a lease. -/
def unlease (p : Process) (r : NativeRequest) : Process :=
  if r.mutation then { p with requests := decrement p.requests r.agentId } else p

/-- `management.acquiring[agent_id] = management.acquiring.get(agent_id, 0) + 1`. -/
def startAcquiring (p : Process) (r : NativeRequest) : Process :=
  { p with acquiring := increment p.acquiring r.agentId }

/-- `management.acquiring[agent_id] -= 1`. -/
def stopAcquiring (p : Process) (r : NativeRequest) : Process :=
  { p with acquiring := decrement p.acquiring r.agentId }

/-- The increment of `in_use` at the end of `acquire`. -/
def take (p : Process) (r : NativeRequest) : Process :=
  { p with inUse := increment p.inUse r.sandbox }

/-- The decrement of `in_use` in `release`. -/
def drop (p : Process) (r : NativeRequest) : Process :=
  { p with inUse := Library.drop p.inUse r.sandbox }

/-- The increment of `event_subscribers`. -/
def subscribe (p : Process) (r : NativeRequest) : Process :=
  { p with eventSubscribers := increment p.eventSubscribers r.sandbox }

/-- The decrement of `event_subscribers`. -/
def unsubscribe (p : Process) (r : NativeRequest) : Process :=
  { p with eventSubscribers := Library.drop p.eventSubscribers r.sandbox }

/-- A handler leaves its stretch at the end: the counters and where it goes. -/
def advance (p : Process) (h : Handler) : Option (Process × Pc) :=
  let r := h.request
  match h.pc with
  | .received => some (p.lease r, .admitted)
  | .admitted => some (p.startAcquiring r, .checking)
  | .checking => some (p, .locking)
  | .locking => some (p, .resources)
  | .resources => some (p, .starting)
  | .starting => some (p.take r, .counted)
  | .counted => some (p.stopAcquiring r, .acquired)
  | .acquired => some (p, if r.eventStream then .connecting else .plain)
  | .connecting => some (p, .opening)
  | .opening => some (p.subscribe r, .subscribed)
  | .subscribed => some (p, .streaming)
  | .streaming => some (p.unsubscribe r, .releasing)
  | .plain => some (p.unlease r, .releasing)
  | .releasing =>
    -- the last lease is kept until the idle timestamp is durable
    if count p.inUse r.sandbox > 1 then some (p.drop r, .done) else some (p, .touching)
  | .touching => some (p.drop r, .done)
  | .done => none

/-- A handler leaves its stretch by an exception or a cancellation. -/
def raise (p : Process) (h : Handler) : Option (Process × Pc) :=
  let r := h.request
  match h.pc with
  | .received => some (p, .done)
  | .admitted => some (p, .done)
  | .checking | .locking | .resources | .starting | .counted =>
    some ((p.unlease r).stopAcquiring r, .done)
  | .acquired => some (p, .done)
  | .connecting => some (p, .releasing)
  | .opening => some (p, .done)
  | .subscribed => some (p, .done)
  | .streaming => some (p.unsubscribe r, .releasing)
  | .plain => some (p.unlease r, .releasing)
  | .releasing => none
  | .touching => some (p.drop r, .done)
  | .done => none

/-- Put back a handler after one of its steps. -/
def withHandler (i : Nat) (h : Handler) (next : Process × Pc) : Process :=
  { next.1 with handlers := next.1.handlers.set i (h.goto next.2) }

end Process

inductive Event where
  | arrive (r : NativeRequest)
  | advance (i : Nat)
  | raise (i : Nat)
  deriving Repr, DecidableEq

/-- One step of the process. -/
def Process.step (p : Process) : Event → Option Process
  | .arrive r => some { p with handlers := p.handlers ++ [⟨r, .received⟩] }
  | .advance i => do
    let h ← p.handlers[i]?
    let next ← p.advance h
    return withHandler i h next
  | .raise i => do
    let h ← p.handlers[i]?
    let next ← p.raise h
    return withHandler i h next

theorem advance_eq_some {p q : Process} {i : Nat} (hstep : p.step (.advance i) = some q) :
    ∃ h, p.handlers[i]? = some h ∧ ∃ next, p.advance h = some next ∧
      q = Process.withHandler i h next := by
  simp only [Process.step, Option.bind_eq_bind, Option.bind_eq_some_iff] at hstep
  obtain ⟨h, hi, next, hadv, hq⟩ := hstep
  exact ⟨h, hi, next, hadv, (Option.some.inj hq).symm⟩

theorem raise_eq_some {p q : Process} {i : Nat} (hstep : p.step (.raise i) = some q) :
    ∃ h, p.handlers[i]? = some h ∧ ∃ next, p.raise h = some next ∧
      q = Process.withHandler i h next := by
  simp only [Process.step, Option.bind_eq_bind, Option.bind_eq_some_iff] at hstep
  obtain ⟨h, hi, next, hraise, hq⟩ := hstep
  exact ⟨h, hi, next, hraise, (Option.some.inj hq).symm⟩

/-- The request handlers of one sandbox manager process. -/
def router : Machine Process Event := ⟨Process.step⟩

end OpencodeCloud.Router
