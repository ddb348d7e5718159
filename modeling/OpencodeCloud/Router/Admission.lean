/-
# OpencodeCloud.Router.Admission -- the admission block and the drain of a sandbox manager

The request handlers of the router beside the lifecycle actions of the sandbox manager. A lifecycle
action other than `resume` and `verify` puts its target into `admission.blocked` and drains it: each
round of `drain` lists the registry, looks at every listed record (`execution`: first the counters,
then the native sessions over HTTP) and is decided on these looks and on the sums of the counters.
`action` holds the lock of its target throughout, so a target has at most one drain and no `resume`
beside it. Native sessions become busy only while the router forwards a request to their sandbox.

The drains of one manager, its registry and its busy sessions move independently of each other and of
the handlers: every event is one stretch of statements without an `await` inside.
-/
import OpencodeCloud.Router.Handler

namespace OpencodeCloud.Router

open OpencodeCloud.Library

/-- The target `*` of an action is every agent. -/
def everyAgent : String := "*"

/-- An action on `target` is about agent `a`. -/
def covers (target a : String) : Bool := target == everyAgent || target == a

/-- A handler that no drain has to wait for: it is not past the last check of the block in `acquire`,
or it serves an event stream whose upstream answered. -/
def Handler.quiet (h : Handler) : Bool :=
  match h.pc with
  | .received | .admitted | .checking | .locking | .resources | .done => true
  | .starting | .counted | .acquired | .connecting | .opening | .plain => false
  | .subscribed | .streaming => true
  | .releasing | .touching => h.request.eventStream

/-- What a round knows of one listed record. -/
inductive Look where
  /-- `execution` has not started -/
  | fresh
  /-- the counters were zero, the native sessions are not read yet -/
  | inspecting
  | idle
  /-- `busy` or `unknown` -/
  | busy
  deriving Repr, DecidableEq

/-- One run of `drain`. -/
structure Drain where
  /-- the looks of the current round, `none` before it has listed the registry -/
  round : Option (Dict Sandbox Look)
  /-- history, not a variable of the code: when the round listed the registry, a request of the target
  was past its last check and worked on a sandbox without a row -/
  missed : Bool

structure Manager where
  process : Process
  /-- `admission.blocked` -/
  blocked : List String
  /-- the sandboxes with a row -/
  registry : List Sandbox
  /-- the sandboxes with a busy native session -/
  busy : List Sandbox
  drains : Dict String Drain
  /-- history: the targets drained with success and not resumed since -/
  quiesced : List String

namespace Manager

/-- `check_acquire_local` raises. -/
def blocks (m : Manager) (a : String) : Bool :=
  m.blocked.contains a || m.blocked.contains everyAgent

/-- What a handler needs to leave its stretch at the end. The checks of `authorize` and of the first
`check_acquire` are followed by a remote call in the same stretch, so they say nothing about its end. -/
def passes (m : Manager) (h : Handler) : Bool :=
  match h.pc with
  | .locking | .resources => !m.blocks h.request.agentId
  | .starting => m.registry.contains h.request.sandbox
  | _ => true

/-- `active_request_leases`. -/
def activeRequestLeases (p : Process) (s : Sandbox) : Nat :=
  count p.inUse s - count p.eventSubscribers s

/-- The first part of `execution`: it does not answer `busy` by the counters. -/
def unleased (p : Process) (s : Sandbox) : Bool :=
  activeRequestLeases p s == 0 && count p.requests s.agentId == 0
    && count p.acquiring s.agentId == 0

/-- The counter of the target, summed up for every agent. -/
def sumOf (c : Dict String Nat) (target : String) : Nat :=
  if target == everyAgent then total c else count c target

/-- `not requests and not acquiring` at the end of a round. -/
def uncounted (p : Process) (target : String) : Bool :=
  sumOf p.requests target == 0 && sumOf p.acquiring target == 0

/-- The records of the target, all to be looked at. -/
def listed (m : Manager) (target : String) : Dict Sandbox Look :=
  Dict.ofKeys .fresh (m.registry.filter fun s => covers target s.agentId)

/-- Some request of the target works on a sandbox without a row. -/
def misses (m : Manager) (target : String) : Bool :=
  m.process.handlers.any fun h =>
    covers target h.request.agentId && !h.quiet && !m.registry.contains h.request.sandbox

/-- Change the round of a drain. -/
def setRound (m : Manager) (target : String) (d : Drain) (r : Dict Sandbox Look) : Manager :=
  { m with drains := m.drains.insert target { d with round := some r } }

end Manager

inductive Action where
  /-- a step of the router -/
  | request (e : Event)
  /-- `_acquire_locked` writes the row of the sandbox -/
  | register (i : Nat)
  /-- a row is written by a health tick, by `verify` or by a sandbox action -/
  | record (s : Sandbox)
  /-- a row is deleted; the container went before it -/
  | forget (s : Sandbox)
  /-- the sessions of a sandbox end, or its container is stopped -/
  | settle (s : Sandbox)
  /-- a session becomes busy through the request that the handler forwards -/
  | occupy (i : Nat)
  /-- a lifecycle action blocks its target and starts to drain it -/
  | block (target : String)
  /-- a round lists the registry -/
  | list (target : String)
  /-- `execution` reads the counters -/
  | check (target : String) (s : Sandbox)
  /-- `execution` reads the native sessions, `known` if they can be read -/
  | inspect (target : String) (s : Sandbox) (known : Bool)
  /-- a round is decided -/
  | decide (target : String)
  /-- the drain ends without success: deadline, error or cancellation -/
  | abandon (target : String)
  /-- `resume` or `restore` -/
  | resume (target : String)
  deriving Repr, DecidableEq

/-- One step of the sandbox manager. -/
def Manager.step (m : Manager) : Action → Option Manager
  | .request (.advance i) => do
    let h ← m.process.handlers[i]?
    guard (m.passes h)
    let p ← m.process.step (.advance i)
    return { m with process := p }
  | .request e => do
    let p ← m.process.step e
    return { m with process := p }
  | .register i => do
    let h ← m.process.handlers[i]?
    guard (h.pc == .starting)
    return { m with registry := h.request.sandbox :: m.registry }
  | .record s => some { m with registry := s :: m.registry }
  | .forget s =>
    some { m with registry := m.registry.filter (· != s), busy := m.busy.filter (· != s) }
  | .settle s => some { m with busy := m.busy.filter (· != s) }
  | .occupy i => do
    let h ← m.process.handlers[i]?
    guard (h.pc == .plain && m.registry.contains h.request.sandbox)
    return { m with busy := h.request.sandbox :: m.busy }
  | .block target => do
    guard (m.drains.lookup target).isNone
    return { m with blocked := target :: m.blocked, drains := m.drains.insert target ⟨none, false⟩ }
  | .list target => do
    let d ← m.drains.lookup target
    guard d.round.isNone
    return { m with drains := m.drains.insert target ⟨some (m.listed target), m.misses target⟩ }
  | .check target s => do
    let d ← m.drains.lookup target
    let r ← d.round
    guard (r.lookup s == some .fresh)
    return m.setRound target d
      (r.insert s (if Manager.unleased m.process s then .inspecting else .busy))
  | .inspect target s known => do
    let d ← m.drains.lookup target
    let r ← d.round
    guard (r.lookup s == some .inspecting)
    return m.setRound target d (r.insert s (if known && !m.busy.contains s then .idle else .busy))
  | .decide target => do
    let d ← m.drains.lookup target
    let r ← d.round
    guard (r.all fun _ look => look == .idle || look == .busy)
    if Manager.uncounted m.process target && r.all fun _ look => look == .idle then
      return { m with drains := m.drains.erase target, quiesced := target :: m.quiesced }
    else
      return { m with drains := m.drains.insert target ⟨none, false⟩ }
  | .abandon target => do
    let _ ← m.drains.lookup target
    return { m with drains := m.drains.erase target }
  | .resume target => do
    guard (m.drains.lookup target).isNone
    return { m with
      blocked := m.blocked.filter (· != target), quiesced := m.quiesced.filter (· != target) }

/-- A sandbox manager with its router. -/
def admission : Machine Manager Action := ⟨Manager.step⟩

/-- A manager that has just started: the blocks of its journal, the rows of its registry with whether a
native session is busy there. -/
def Manager.started (blocked : List String) (rows : List (Sandbox × Bool)) : Manager where
  process := Process.initial
  blocked := blocked
  registry := rows.map Prod.fst
  busy := (rows.filter Prod.snd).map Prod.fst
  drains := ∅
  quiesced := []

end OpencodeCloud.Router
