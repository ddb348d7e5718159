/-
# OpencodeCloud.Router.Streams -- what an event stream leaves behind is undone once

`native_router._stream_sse` in the steps between its awaits. Before the upstream headers two tasks race,
the upstream request and the wait for the client's disconnect. Once the headers are here the stream is
counted in the tracker and in `event_subscribers`, and two `finally` blocks ask for the cleanup, that of
the generator and that of the response; the first one makes the task, both wait for it, and
`_await_cancellation_safe` keeps every cancellation away from it. Next to the streams there are ordinary
requests, which share `in_use` and `LocalDockerBackend.release`.

`streams_clean_up`: each part of the cleanup happens at most once, and once when the response is over;
a stream makes a bounded number of steps and is never stuck; and `event_subscribers` stays below
`in_use`, where the difference counts the leases of all but the counted streams.
-/
import OpencodeCloud.Library.Counter
import OpencodeCloud.Library.Machine
import OpencodeCloud.Library.Tally

namespace OpencodeCloud.Router.Streams

open OpencodeCloud.Library

/-! ## §A One request -/

/-- A `finally` that waits for the cleanup. -/
inductive Side where
  /-- the block before it has not begun -/
  | idle
  | running
  /-- it waits for the cleanup task -/
  | waiting
  | over
  deriving Repr, DecidableEq

/-- The task of `perform_cleanup`. -/
inductive Cleanup where
  | none
  | created
  /-- `upstream.aclose()` -/
  | closing
  /-- `release` writes the idle timestamp of the last lease -/
  | touching
  | done
  deriving Repr, DecidableEq

/-- A stream whose response was made. -/
structure Served where
  response : Side
  generator : Side
  cleanup : Cleanup
  /-- `error is not None`: raised at the end of the task -/
  error : Bool
  deriving Repr, DecidableEq

inductive Phase where
  /-- an ordinary request -/
  | plain
  /-- the upstream request and the wait for the disconnect are on their way -/
  | connecting
  /-- the upstream answered, `asyncio.wait` has not returned -/
  | answered
  /-- `upstream = pending.result()`; the wait for the disconnect is being cancelled -/
  | settling
  | served (s : Served)
  /-- the request is given up; did the upstream answer? -/
  | abandoning (answered : Bool)
  /-- `release` writes the idle timestamp of the last lease, in a task of its own or not -/
  | touching (shielded : Bool)
  | done
  /-- an exception between the headers and the response: nothing undoes what was counted -/
  | lost (counted : Bool)
  deriving Repr, DecidableEq

/-- A request with a lease. The numbers are history, not variables of the code: how often the parts of the
cleanup were done for it. -/
structure Request where
  sandboxId : String
  phase : Phase
  /-- the upstream headers were received -/
  answered : Bool
  /-- calls of `upstream.aclose()` -/
  closes : Nat
  /-- calls of `tracker.closed()` -/
  untracks : Nat
  /-- decrements of `event_subscribers` -/
  unsubscribes : Nat
  /-- calls of `release` -/
  releases : Nat
  deriving Repr, DecidableEq

/-- The counters of the process. -/
structure Shared where
  inUse : Dict String Nat
  eventSubscribers : Dict String Nat
  /-- `SSEConnectionTracker.active` -/
  active : Int

inductive Step where
  /-- the upstream headers are here -/
  | headers
  /-- the upstream request fails, or the client disconnected first -/
  | abandon
  /-- `asyncio.wait` returns, and the client is there -/
  | proceed
  /-- the wait for the disconnect is over: the stream is counted and the response made -/
  | respond
  /-- as before, but the wait raised, or making the response does -/
  | fail (counted : Bool)
  /-- the response asks for the first chunk -/
  | pull
  /-- the generator is exhausted, raises, or is closed -/
  | generatorEnds
  /-- the response was sent, or sending it raises -/
  | responseEnds
  /-- the cleanup task runs for the first time -/
  | cleanupStarts
  /-- `upstream.aclose()` returns or raises -/
  | closed (raises : Bool)
  /-- the idle timestamp is written, or not -/
  | touched (raises : Bool)
  /-- a `finally` has its cleanup -/
  | generatorResumes
  | responseResumes
  /-- `cancel_pending` is over -/
  | abandoned
  /-- the body of an ordinary request is over; its activity may be persisted already -/
  | finish (persisted : Bool)
  /-- the task of the request is cancelled -/
  | cancel
  deriving Repr, DecidableEq

/-- `release` up to its await: the counter, and is the timestamp to be written first? -/
def release (inUse : Dict String Nat) (sandboxId : String) (persisted : Bool) :
    Dict String Nat × Bool :=
  if count inUse sandboxId > 1 || persisted then (drop inUse sandboxId, false) else (inUse, true)

namespace Request

def goto (r : Request) (phase : Phase) : Request := { r with phase := phase }

/-- `cleanup`: the task is made once. -/
def Cleanup.ask : Cleanup → Cleanup
  | .none => .created
  | c => c

/-- The stretch of `perform_cleanup` after `aclose`, up to the await in `release`. -/
def afterClose (c : Shared) (r : Request) (s : Served) (raises : Bool) : Shared × Request :=
  let freed := release c.inUse r.sandboxId false
  let error := s.error || raises || c.active - 1 < 0
  ({ inUse := freed.1
     eventSubscribers := drop c.eventSubscribers r.sandboxId
     active := c.active - 1 },
    { r with
      phase := .served { s with cleanup := if freed.2 then .touching else .done, error := error }
      untracks := r.untracks + 1
      unsubscribes := r.unsubscribes + 1
      releases := r.releases + 1 })

/-- `release` of a request that is no served stream. -/
def free (c : Shared) (r : Request) (persisted shielded : Bool) : Shared × Request :=
  let freed := release c.inUse r.sandboxId persisted
  ({ c with inUse := freed.1 },
    { r with phase := if freed.2 then .touching shielded else .done, releases := r.releases + 1 })

/-- One step of a request. -/
def act (c : Shared) (r : Request) : Step → Option (Shared × Request)
  | .headers =>
    match r.phase with
    | .connecting => some (c, { r with phase := .answered, answered := true })
    -- before `cancel_pending` runs
    | .abandoning false => some (c, { r with phase := .abandoning true, answered := true })
    | _ => none
  | .abandon =>
    match r.phase with
    | .connecting => some (c, r.goto (.abandoning false))
    | .answered => some (c, r.goto (.abandoning true))
    | _ => none
  | .proceed => if r.phase = .answered then some (c, r.goto .settling) else none
  | .respond =>
    if r.phase = .settling then
      some ({ c with
          eventSubscribers := increment c.eventSubscribers r.sandboxId
          active := c.active + 1 },
        r.goto (.served ⟨.running, .idle, .none, false⟩))
    else none
  | .fail counted =>
    if r.phase = .settling then
      some (if counted then { c with
          eventSubscribers := increment c.eventSubscribers r.sandboxId
          active := c.active + 1 } else c, r.goto (.lost counted))
    else none
  | .pull =>
    match r.phase with
    | .served ⟨.running, .idle, cleanup, error⟩ =>
      some (c, r.goto (.served ⟨.running, .running, cleanup, error⟩))
    | _ => none
  | .generatorEnds =>
    match r.phase with
    | .served ⟨response, .running, cleanup, error⟩ =>
      some (c, r.goto (.served ⟨response, .waiting, Cleanup.ask cleanup, error⟩))
    | _ => none
  | .responseEnds =>
    match r.phase with
    | .served ⟨.running, generator, cleanup, error⟩ =>
      some (c, r.goto (.served ⟨.waiting, generator, Cleanup.ask cleanup, error⟩))
    | _ => none
  | .cleanupStarts =>
    match r.phase with
    | .served ⟨response, generator, .created, error⟩ =>
      some (c, { r with
        phase := .served ⟨response, generator, .closing, error⟩
        closes := r.closes + 1 })
    | _ => none
  | .closed raises =>
    match r.phase with
    | .served ⟨response, generator, .closing, error⟩ =>
      some (afterClose c r ⟨response, generator, .closing, error⟩ raises)
    | _ => none
  | .touched raises =>
    match r.phase with
    | .served ⟨response, generator, .touching, error⟩ =>
      some ({ c with inUse := drop c.inUse r.sandboxId },
        r.goto (.served ⟨response, generator, .done, error || raises⟩))
    | .touching _ => some ({ c with inUse := drop c.inUse r.sandboxId }, r.goto .done)
    | _ => none
  | .generatorResumes =>
    match r.phase with
    | .served ⟨response, .waiting, .done, error⟩ =>
      some (c, r.goto (.served ⟨response, .over, .done, error⟩))
    | _ => none
  | .responseResumes =>
    match r.phase with
    | .served ⟨.waiting, generator, .done, error⟩ =>
      some (c, r.goto (.served ⟨.over, generator, .done, error⟩))
    | _ => none
  | .abandoned =>
    match r.phase with
    | .abandoning answered =>
      some (free c { r with closes := r.closes + if answered then 1 else 0 } false true)
    | _ => none
  | .finish persisted => if r.phase = .plain then some (free c r persisted false) else none
  | .cancel =>
    match r.phase with
    | .plain => some (free c r false false)
    | .connecting => some (c, r.goto (.abandoning false))
    | .answered => some (c, r.goto (.abandoning true))
    -- the `finally` swallows it
    | .settling => some (c, r)
    | .served ⟨.running, generator, cleanup, error⟩ =>
      some (c, r.goto (.served ⟨.waiting, generator, Cleanup.ask cleanup, error⟩))
    -- the wait for the cleanup goes on
    | .served s => if s.response = .waiting then some (c, r) else none
    | .abandoning _ | .touching true => some (c, r)
    | .touching false => some ({ c with inUse := drop c.inUse r.sandboxId }, r.goto .done)
    | .done | .lost _ => none

end Request

/-! ## §B All requests -/

structure Hub where
  shared : Shared
  requests : List Request

def Hub.initial : Hub := ⟨⟨∅, ∅, 0⟩, []⟩

inductive Event where
  /-- `acquire` hands out a lease, for an event stream or not -/
  | acquire (sandboxId : String) (stream : Bool)
  | act (i : Nat) (s : Step)
  deriving Repr, DecidableEq

def Hub.step (h : Hub) : Event → Option Hub
  | .acquire sandboxId stream =>
    some ⟨{ h.shared with inUse := increment h.shared.inUse sandboxId },
      h.requests ++ [⟨sandboxId, if stream then .connecting else .plain, false, 0, 0, 0, 0⟩]⟩
  | .act i s => do
    let r ← h.requests[i]?
    let next ← r.act h.shared s
    return ⟨next.1, h.requests.set i next.2⟩

def hub : Machine Hub Event := ⟨Hub.step⟩

/-- `active_request_leases`. -/
def activeRequestLeases (h : Hub) (sandboxId : String) : Nat :=
  count h.shared.inUse sandboxId - count h.shared.eventSubscribers sandboxId

/-! ## §C What a step does -/

/-- The steps that change nothing but where a request is. -/
inductive Goes : Phase → Step → Phase → Prop
  | abandon : Goes .connecting .abandon (.abandoning false)
  | abandonAnswered : Goes .answered .abandon (.abandoning true)
  | proceed : Goes .answered .proceed .settling
  | pull {cleanup error} : Goes (.served ⟨.running, .idle, cleanup, error⟩) .pull
      (.served ⟨.running, .running, cleanup, error⟩)
  | generatorEnds {response cleanup error} : Goes (.served ⟨response, .running, cleanup, error⟩)
      .generatorEnds (.served ⟨response, .waiting, Request.Cleanup.ask cleanup, error⟩)
  | responseEnds {generator cleanup error} : Goes (.served ⟨.running, generator, cleanup, error⟩)
      .responseEnds (.served ⟨.waiting, generator, Request.Cleanup.ask cleanup, error⟩)
  | generatorResumes {response error} : Goes (.served ⟨response, .waiting, .done, error⟩)
      .generatorResumes (.served ⟨response, .over, .done, error⟩)
  | responseResumes {generator error} : Goes (.served ⟨.waiting, generator, .done, error⟩)
      .responseResumes (.served ⟨.over, generator, .done, error⟩)
  | cancelConnecting : Goes .connecting .cancel (.abandoning false)
  | cancelAnswered : Goes .answered .cancel (.abandoning true)
  | cancelServed {generator cleanup error} : Goes (.served ⟨.running, generator, cleanup, error⟩)
      .cancel (.served ⟨.waiting, generator, Request.Cleanup.ask cleanup, error⟩)
  | cancelKept {phase} : Goes phase .cancel phase

/-- What a request and the counters are after a step. -/
inductive Acts (c : Shared) (r : Request) : Step → Shared → Request → Prop
  | goes {s : Step} {phase phase' : Phase} (hphase : r.phase = phase) (h : Goes phase s phase') :
      Acts c r s c (r.goto phase')
  | headers (hphase : r.phase = .connecting) :
      Acts c r .headers c { r with phase := .answered, answered := true }
  | headersLate (hphase : r.phase = .abandoning false) :
      Acts c r .headers c { r with phase := .abandoning true, answered := true }
  | respond (hphase : r.phase = .settling) : Acts c r .respond
      { c with
        eventSubscribers := increment c.eventSubscribers r.sandboxId
        active := c.active + 1 }
      (r.goto (.served ⟨.running, .idle, .none, false⟩))
  | fail (hphase : r.phase = .settling) : Acts c r (.fail false) c (r.goto (.lost false))
  | failCounted (hphase : r.phase = .settling) : Acts c r (.fail true)
      { c with
        eventSubscribers := increment c.eventSubscribers r.sandboxId
        active := c.active + 1 }
      (r.goto (.lost true))
  | cleanupStarts {response generator : Side} {error : Bool}
      (hphase : r.phase = .served ⟨response, generator, .created, error⟩) :
      Acts c r .cleanupStarts c { r with
        phase := .served ⟨response, generator, .closing, error⟩
        closes := r.closes + 1 }
  | closed {response generator : Side} {error : Bool} {raises : Bool}
      (hphase : r.phase = .served ⟨response, generator, .closing, error⟩) :
      Acts c r (.closed raises)
        (Request.afterClose c r ⟨response, generator, .closing, error⟩ raises).1
        (Request.afterClose c r ⟨response, generator, .closing, error⟩ raises).2
  | touched {response generator : Side} {error : Bool} {raises : Bool}
      (hphase : r.phase = .served ⟨response, generator, .touching, error⟩) :
      Acts c r (.touched raises) { c with inUse := drop c.inUse r.sandboxId }
        (r.goto (.served ⟨response, generator, .done, error || raises⟩))
  | released {s : Step} {shielded : Bool} (hphase : r.phase = .touching shielded) :
      Acts c r s { c with inUse := drop c.inUse r.sandboxId } (r.goto .done)
  | abandoned {answered : Bool} (hphase : r.phase = .abandoning answered) :
      Acts c r .abandoned
        (Request.free c { r with closes := r.closes + if answered then 1 else 0 } false true).1
        (Request.free c { r with closes := r.closes + if answered then 1 else 0 } false true).2
  | finish {s : Step} (hphase : r.phase = .plain) (persisted : Bool) :
      Acts c r s (Request.free c r persisted false).1 (Request.free c r persisted false).2

section Inversion

variable {c c' : Shared} {r r' : Request} {s : Step}

theorem acts_of_act (h : r.act c s = some (c', r')) : Acts c r s c' r' := by
  cases s with
  | headers =>
    simp only [Request.act] at h
    split at h
    · next hphase => obtain ⟨rfl, rfl⟩ := Prod.mk.inj (Option.some.inj h); exact .headers hphase
    · next hphase => obtain ⟨rfl, rfl⟩ := Prod.mk.inj (Option.some.inj h); exact .headersLate hphase
    · cases h
  | abandon =>
    simp only [Request.act] at h
    split at h
    · next hphase => obtain ⟨rfl, rfl⟩ := Prod.mk.inj (Option.some.inj h); exact .goes hphase .abandon
    · next hphase =>
      obtain ⟨rfl, rfl⟩ := Prod.mk.inj (Option.some.inj h)
      exact .goes hphase .abandonAnswered
    · cases h
  | proceed =>
    simp only [Request.act] at h
    split at h
    · next hphase => obtain ⟨rfl, rfl⟩ := Prod.mk.inj (Option.some.inj h); exact .goes hphase .proceed
    · cases h
  | respond =>
    simp only [Request.act] at h
    split at h
    · next hphase => obtain ⟨rfl, rfl⟩ := Prod.mk.inj (Option.some.inj h); exact .respond hphase
    · cases h
  | fail counted =>
    simp only [Request.act] at h
    split at h
    · next hphase =>
      obtain ⟨rfl, rfl⟩ := Prod.mk.inj (Option.some.inj h)
      cases counted with
      | false => exact .fail hphase
      | true => exact .failCounted hphase
    · cases h
  | pull =>
    simp only [Request.act] at h
    split at h
    · next hphase => obtain ⟨rfl, rfl⟩ := Prod.mk.inj (Option.some.inj h); exact .goes hphase .pull
    · cases h
  | generatorEnds =>
    simp only [Request.act] at h
    split at h
    · next hphase =>
      obtain ⟨rfl, rfl⟩ := Prod.mk.inj (Option.some.inj h)
      exact .goes hphase .generatorEnds
    · cases h
  | responseEnds =>
    simp only [Request.act] at h
    split at h
    · next hphase =>
      obtain ⟨rfl, rfl⟩ := Prod.mk.inj (Option.some.inj h)
      exact .goes hphase .responseEnds
    · cases h
  | cleanupStarts =>
    simp only [Request.act] at h
    split at h
    · next hphase =>
      obtain ⟨rfl, rfl⟩ := Prod.mk.inj (Option.some.inj h)
      exact .cleanupStarts hphase
    · cases h
  | closed raises =>
    simp only [Request.act] at h
    split at h
    · next hphase =>
      obtain ⟨rfl, rfl⟩ := Prod.mk.inj (Option.some.inj h)
      exact .closed hphase
    · cases h
  | touched raises =>
    simp only [Request.act] at h
    split at h
    · next hphase => obtain ⟨rfl, rfl⟩ := Prod.mk.inj (Option.some.inj h); exact .touched hphase
    · next hphase => obtain ⟨rfl, rfl⟩ := Prod.mk.inj (Option.some.inj h); exact .released hphase
    · cases h
  | generatorResumes =>
    simp only [Request.act] at h
    split at h
    · next hphase =>
      obtain ⟨rfl, rfl⟩ := Prod.mk.inj (Option.some.inj h)
      exact .goes hphase .generatorResumes
    · cases h
  | responseResumes =>
    simp only [Request.act] at h
    split at h
    · next hphase =>
      obtain ⟨rfl, rfl⟩ := Prod.mk.inj (Option.some.inj h)
      exact .goes hphase .responseResumes
    · cases h
  | abandoned =>
    simp only [Request.act] at h
    split at h
    · next hphase =>
      obtain ⟨rfl, rfl⟩ := Prod.mk.inj (Option.some.inj h)
      exact .abandoned hphase
    · cases h
  | finish persisted =>
    simp only [Request.act] at h
    split at h
    · next hphase =>
      obtain ⟨rfl, rfl⟩ := Prod.mk.inj (Option.some.inj h)
      exact .finish hphase persisted
    · cases h
  | cancel =>
    simp only [Request.act] at h
    have hkept : some (c, r) = some (c', r') → Acts c r .cancel c' r' := by
      intro hsome
      obtain ⟨rfl, rfl⟩ := Prod.mk.inj (Option.some.inj hsome)
      exact .goes rfl .cancelKept
    split at h
    · next hphase =>
      obtain ⟨rfl, rfl⟩ := Prod.mk.inj (Option.some.inj h)
      exact .finish hphase false
    · next hphase =>
      obtain ⟨rfl, rfl⟩ := Prod.mk.inj (Option.some.inj h)
      exact .goes hphase .cancelConnecting
    · next hphase =>
      obtain ⟨rfl, rfl⟩ := Prod.mk.inj (Option.some.inj h)
      exact .goes hphase .cancelAnswered
    · exact hkept h
    · next hphase =>
      obtain ⟨rfl, rfl⟩ := Prod.mk.inj (Option.some.inj h)
      exact .goes hphase .cancelServed
    · split at h
      · exact hkept h
      · cases h
    · exact hkept h
    · exact hkept h
    · next hphase =>
      obtain ⟨rfl, rfl⟩ := Prod.mk.inj (Option.some.inj h)
      exact .released hphase
    · cases h
    · cases h

end Inversion

/-! ## §D The counters -/

/-- The request is counted in `in_use`. -/
def Request.holds (r : Request) : Bool :=
  match r.phase with
  | .served s => s.cleanup != .done
  | .done => false
  | _ => true

/-- The request is counted in the tracker and in `event_subscribers`. -/
def Request.counted (r : Request) : Bool :=
  match r.phase with
  | .served s => s.cleanup == .none || s.cleanup == .created || s.cleanup == .closing
  | .lost counted => counted
  | _ => false

/-- The share of a request in a count of the sandbox, if it is in it. -/
def Request.share (r : Request) (counts : Bool) (sandboxId : String) : Nat :=
  if counts = true ∧ r.sandboxId = sandboxId then 1 else 0

theorem Request.counted_le_holds (r : Request) (sandboxId : String) :
    r.share r.counted sandboxId ≤ r.share r.holds sandboxId := by
  have himp : r.counted = true → r.holds = true := by
    unfold Request.counted Request.holds
    cases r.phase with
    | served s => cases h : s.cleanup <;> simp [h]
    | _ => simp
  unfold Request.share
  split
  · next h => rw [if_pos ⟨himp h.1, h.2⟩]
  · exact Nat.zero_le _

/-- The counters follow the request. -/
structure Follows (c c' : Shared) (r r' : Request) : Prop where
  sandboxId : r'.sandboxId = r.sandboxId
  inUse : ∀ id, count c'.inUse id + r.share r.holds id = count c.inUse id + r'.share r'.holds id
  subscribers : ∀ id, count c'.eventSubscribers id + r.share r.counted id =
    count c.eventSubscribers id + r'.share r'.counted id
  active : c'.active + (if r.counted then 1 else 0) = c.active + (if r'.counted then 1 else 0)

section Counters

variable {c c' : Shared} {r r' : Request} {s : Step}

/-- Nothing is counted or uncounted. -/
theorem Follows.same (hid : r'.sandboxId = r.sandboxId) (hholds : r'.holds = r.holds)
    (hcounted : r'.counted = r.counted) : Follows c c r r' := by
  refine ⟨hid, fun id => ?_, fun id => ?_, ?_⟩
  · simp only [Request.share, hid, hholds]
  · simp only [Request.share, hid, hcounted]
  · rw [hcounted]

theorem goes_keeps {phase phase' : Phase} (h : Goes phase s phase') (hphase : r.phase = phase) :
    (r.goto phase').holds = r.holds ∧ (r.goto phase').counted = r.counted := by
  have hask : ∀ cleanup : Cleanup, (Request.Cleanup.ask cleanup != .done) = (cleanup != .done) ∧
      (Request.Cleanup.ask cleanup == .none || Request.Cleanup.ask cleanup == .created ||
        Request.Cleanup.ask cleanup == .closing) =
      (cleanup == .none || cleanup == .created || cleanup == .closing) := by
    intro cleanup
    cases cleanup <;> exact ⟨rfl, rfl⟩
  cases h <;> simp only [Request.holds, Request.counted, Request.goto, hphase, hask, and_self]

/-- What a release does to the count. -/
theorem count_release {inUse : Dict String Nat} {sandboxId : String} {persisted : Bool}
    (h : 1 ≤ count inUse sandboxId) (id : String) :
    count (release inUse sandboxId persisted).1 id +
        (if (release inUse sandboxId persisted).2 = false ∧ sandboxId = id then 1 else 0) =
      count inUse id := by
  unfold release
  split
  · rw [count_drop]
    by_cases hid : sandboxId = id
    · subst hid
      simp only [if_true, and_self]
      omega
    · simp [hid]
  · simp

/-- A lease of its own is there to be given back. -/
theorem one_le_inUse (hholds : r.holds = true) (h : ∀ id, r.share r.holds id ≤ count c.inUse id) :
    1 ≤ count c.inUse r.sandboxId := by
  have := h r.sandboxId
  simpa [Request.share, hholds] using this

theorem free_follows {r₀ : Request} (hholds : r.holds = true) (hcounted : r.counted = false)
    (hid : r₀.sandboxId = r.sandboxId) (hinUse : ∀ id, r.share r.holds id ≤ count c.inUse id)
    (persisted shielded : Bool) :
    Follows c (Request.free c r₀ persisted shielded).1 r (Request.free c r₀ persisted shielded).2 := by
  have hrelease := fun id => 
    @count_release _ _ persisted (one_le_inUse hholds hinUse) id
  have hphase : (Request.free c r₀ persisted shielded).2.holds =
      (release c.inUse r.sandboxId persisted).2 ∧
      (Request.free c r₀ persisted shielded).2.counted = false := by
    simp only [Request.free, hid, Request.holds, Request.counted]
    cases (release c.inUse r.sandboxId persisted).2 <;> exact ⟨rfl, rfl⟩
  refine ⟨hid, fun id => ?_, fun id => ?_, ?_⟩
  · have hfree := hrelease id
    rw [Request.share, Request.share, hholds, hphase.1]
    simp only [Request.free, hid]
    cases hlast : (release c.inUse r.sandboxId persisted).2 <;>
      simp only [hlast, Bool.false_eq_true, reduceCtorEq, false_and, if_false, true_and,
        Nat.add_zero] at hfree ⊢ <;> omega
  · rw [Request.share, Request.share, hphase.2, hcounted]
    simp only [Bool.false_eq_true, false_and, if_false]
    rfl
  · rw [hphase.2, hcounted]
    rfl

/-- **One step**: what the counters gain or lose is what the request is counted for. -/
theorem act_follows (hinUse : ∀ id, r.share r.holds id ≤ count c.inUse id)
    (hsubscribers : ∀ id, r.share r.counted id ≤ count c.eventSubscribers id)
    (h : Acts c r s c' r') : Follows c c' r r' := by
  have hcount : r.holds = true → r.counted = false → ∀ r' : Request, r'.sandboxId = r.sandboxId →
      r'.holds = true → r'.counted = true → Follows c { c with
        eventSubscribers := increment c.eventSubscribers r.sandboxId
        active := c.active + 1 } r r' := by
    intro hholds hcounted r' hid hholds' hcounted'
    refine ⟨hid, fun id => ?_, fun id => ?_, ?_⟩
    · simp only [Request.share, hid, hholds, hholds']
    · simp [Request.share, hid, hcounted, hcounted', count_increment]
    · simp [hcounted, hcounted']
  have hdrop : r.holds = true → r.counted = false → ∀ r' : Request, r'.sandboxId = r.sandboxId →
      r'.holds = false → r'.counted = false →
      Follows c { c with inUse := drop c.inUse r.sandboxId } r r' := by
    intro hholds hcounted r' hid hholds' hcounted'
    have hone := one_le_inUse hholds hinUse
    refine ⟨hid, fun id => ?_, fun id => ?_, ?_⟩
    · simp only [Request.share, hid, hholds, hholds', count_drop]
      by_cases hs : r.sandboxId = id
      · subst hs
        simp
        omega
      · simp [hs]
    · simp [Request.share, hid, hcounted, hcounted']
    · simp [hcounted, hcounted']
  cases h with
  | goes hphase hgoes =>
    obtain ⟨hholds, hcounted⟩ := goes_keeps hgoes hphase
    exact Follows.same rfl hholds hcounted
  | headers hphase =>
    exact Follows.same rfl (by simp [Request.holds, hphase]) (by simp [Request.counted, hphase])
  | headersLate hphase =>
    exact Follows.same rfl (by simp [Request.holds, hphase]) (by simp [Request.counted, hphase])
  | respond hphase =>
    exact hcount (by simp [Request.holds, hphase]) (by simp [Request.counted, hphase]) _ rfl rfl rfl
  | fail hphase =>
    exact Follows.same rfl (by simp [Request.holds, Request.goto, hphase])
      (by simp [Request.counted, Request.goto, hphase])
  | failCounted hphase =>
    exact hcount (by simp [Request.holds, hphase]) (by simp [Request.counted, hphase]) _ rfl rfl rfl
  | cleanupStarts hphase =>
    refine Follows.same rfl ?_ ?_
    · simp only [Request.holds, hphase]
      rfl
    · simp only [Request.counted, hphase]
      rfl
  | @closed response generator error raises hphase =>
    have hholds : r.holds = true := by simp [Request.holds, hphase]
    have hcounted : r.counted = true := by simp [Request.counted, hphase]
    have hone := one_le_inUse hholds hinUse
    have hsub : 1 ≤ count c.eventSubscribers r.sandboxId := by
      have := hsubscribers r.sandboxId
      simpa [Request.share, hcounted] using this
    have hrelease := fun id => @count_release _ _ false hone id
    have hafter : (Request.afterClose c r ⟨response, generator, .closing, error⟩ raises).2.holds =
        (release c.inUse r.sandboxId false).2 ∧
        (Request.afterClose c r ⟨response, generator, .closing, error⟩ raises).2.counted = false := by
      simp only [Request.afterClose, Request.holds, Request.counted]
      cases (release c.inUse r.sandboxId false).2 <;> exact ⟨rfl, rfl⟩
    refine ⟨rfl, fun id => ?_, fun id => ?_, ?_⟩
    · have hfree := hrelease id
      rw [Request.share, Request.share, hholds, hafter.1]
      simp only [Request.afterClose]
      cases hlast : (release c.inUse r.sandboxId false).2 <;>
        simp only [hlast, Bool.false_eq_true, reduceCtorEq, false_and, if_false, true_and,
          Nat.add_zero] at hfree ⊢ <;> omega
    · rw [Request.share, Request.share, hafter.2, hcounted]
      simp only [Request.afterClose, count_drop, true_and, Bool.false_eq_true, false_and, if_false]
      by_cases hs : r.sandboxId = id
      · subst hs
        simp only [if_true]
        omega
      · simp [hs]
    · rw [hafter.2, hcounted]
      simp [Request.afterClose]
  | touched hphase =>
    exact hdrop (by simp [Request.holds, hphase]) (by simp [Request.counted, hphase]) _ rfl rfl rfl
  | released hphase =>
    exact hdrop (by simp [Request.holds, hphase]) (by simp [Request.counted, hphase]) _ rfl rfl rfl
  | abandoned hphase =>
    exact free_follows (by simp [Request.holds, hphase]) (by simp [Request.counted, hphase]) (by rfl)
      hinUse false true
  | finish hphase persisted =>
    exact free_follows (by simp [Request.holds, hphase]) (by simp [Request.counted, hphase]) rfl hinUse
      persisted false

end Counters

/-! ## §E How often the cleanup was done -/

/-- What the history of a request says, where it is. -/
def Request.Exact (r : Request) : Prop :=
  match r.phase with
  | .plain | .connecting | .abandoning false =>
    r.answered = false ∧ r.closes = 0 ∧ r.untracks = 0 ∧ r.unsubscribes = 0 ∧ r.releases = 0
  | .answered | .settling | .lost _ | .abandoning true =>
    r.answered = true ∧ r.closes = 0 ∧ r.untracks = 0 ∧ r.unsubscribes = 0 ∧ r.releases = 0
  | .touching _ | .done =>
    r.closes = (if r.answered then 1 else 0) ∧ r.untracks = 0 ∧ r.unsubscribes = 0 ∧ r.releases = 1
  | .served s =>
    r.answered = true ∧ s.response ≠ .idle ∧
    match s.cleanup with
    | .none => s.response = .running ∧ s.generator ≠ .waiting ∧ s.generator ≠ .over ∧
        r.closes = 0 ∧ r.untracks = 0 ∧ r.unsubscribes = 0 ∧ r.releases = 0
    | .created => s.response ≠ .over ∧ s.generator ≠ .over ∧
        r.closes = 0 ∧ r.untracks = 0 ∧ r.unsubscribes = 0 ∧ r.releases = 0
    | .closing => s.response ≠ .over ∧ s.generator ≠ .over ∧
        r.closes = 1 ∧ r.untracks = 0 ∧ r.unsubscribes = 0 ∧ r.releases = 0
    | .touching => s.response ≠ .over ∧ s.generator ≠ .over ∧
        r.closes = 1 ∧ r.untracks = 1 ∧ r.unsubscribes = 1 ∧ r.releases = 1
    | .done => r.closes = 1 ∧ r.untracks = 1 ∧ r.unsubscribes = 1 ∧ r.releases = 1

/-- The request is over: it was released, or its response is finished; or it was lost. -/
def Request.isOver (r : Request) : Bool :=
  match r.phase with
  | .done | .lost _ => true
  | .served s => s.response == .over
  | _ => false

def Cleanup.rank : Cleanup → Nat
  | .none | .created => 3
  | .closing => 2
  | .touching => 1
  | .done => 0

/-- The steps that a request has before it, at most. -/
def Request.rank (r : Request) : Nat :=
  match r.phase with
  | .plain | .abandoning true => 2
  | .abandoning false => 3
  | .connecting => 11
  | .answered => 10
  | .settling => 9
  | .served s =>
    (match s.response with
      | .running => 2
      | .waiting => 1
      | _ => 0) +
    (match s.generator with
      | .idle => 3
      | .running => 2
      | .waiting => 1
      | .over => 0) +
    s.cleanup.rank
  | .touching _ => 1
  | .done | .lost _ => 0

section Once

variable {c c' : Shared} {r r' : Request} {s : Step}

theorem goes_exact {phase phase' : Phase} (hgoes : Goes phase s phase') (hphase : r.phase = phase)
    (hr : r.Exact) : (r.goto phase').Exact := by
  unfold Request.Exact at hr ⊢
  rw [hphase] at hr
  cases hgoes with
  | @pull cleanup error => cases cleanup <;> simp_all [Request.goto]
  | @generatorEnds response cleanup error =>
    cases cleanup <;> simp_all [Request.goto, Request.Cleanup.ask]
  | @responseEnds generator cleanup error =>
    cases cleanup <;> simp_all [Request.goto, Request.Cleanup.ask]
  | @cancelServed generator cleanup error =>
    cases cleanup <;> simp_all [Request.goto, Request.Cleanup.ask]
  | cancelKept => exact hr
  | _ => simp_all [Request.goto]

/-- A request that is released is over, or writes the timestamp first. -/
theorem free_request (c : Shared) (r₀ : Request) (persisted shielded : Bool) :
    ∃ phase, (phase = .touching shielded ∨ phase = .done) ∧
      (Request.free c r₀ persisted shielded).2 =
        { r₀ with phase := phase, releases := r₀.releases + 1 } := by
  cases h : (release c.inUse r₀.sandboxId persisted).2 with
  | false => exact ⟨.done, .inr rfl, by simp [Request.free, h]⟩
  | true => exact ⟨.touching shielded, .inl rfl, by simp [Request.free, h]⟩

/-- After `aclose` a stream is untracked and unsubscribed, and its release is under way or over. -/
theorem afterClose_request (c : Shared) (r : Request) (s : Served) (raises : Bool) :
    ∃ cleanup error, (cleanup = .touching ∨ cleanup = .done) ∧
      (Request.afterClose c r s raises).2 = { r with
        phase := .served { s with cleanup := cleanup, error := error }
        untracks := r.untracks + 1
        unsubscribes := r.unsubscribes + 1
        releases := r.releases + 1 } := by
  refine ⟨_, s.error || raises || c.active - 1 < 0, ?_, rfl⟩
  cases (release c.inUse r.sandboxId false).2
  · exact .inr rfl
  · exact .inl rfl

theorem free_exact (r₀ : Request) (hcloses : r₀.closes = if r₀.answered then 1 else 0)
    (huntracks : r₀.untracks = 0) (hunsubscribes : r₀.unsubscribes = 0) (hreleases : r₀.releases = 0)
    (persisted shielded : Bool) : (Request.free c r₀ persisted shielded).2.Exact := by
  obtain ⟨phase, hphase, hfree⟩ := free_request c r₀ persisted shielded
  rw [hfree]
  rcases hphase with rfl | rfl <;> exact ⟨hcloses, huntracks, hunsubscribes, by rw [hreleases]⟩

/-- **One step** does a part of the cleanup that was not done before. -/
theorem act_exact (hr : r.Exact) (h : Acts c r s c' r') : r'.Exact := by
  cases h with
  | goes hphase hgoes => exact goes_exact hgoes hphase hr
  | @closed response generator error raises hphase =>
    unfold Request.Exact at hr
    rw [hphase] at hr
    obtain ⟨hanswered, hidle, hresponse, hgenerator, hcloses, huntracks, hunsubscribes, hreleases⟩ := hr
    obtain ⟨cleanup, error', hcleanup, hafter⟩ :=
      afterClose_request c r ⟨response, generator, .closing, error⟩ raises
    rw [hafter]
    rcases hcleanup with rfl | rfl
    · exact ⟨hanswered, hidle, hresponse, hgenerator, hcloses, by rw [huntracks],
        by rw [hunsubscribes], by rw [hreleases]⟩
    · exact ⟨hanswered, hidle, hcloses, by rw [huntracks], by rw [hunsubscribes], by rw [hreleases]⟩
  | @abandoned answered hphase =>
    unfold Request.Exact at hr
    rw [hphase] at hr
    cases answered with
    | false =>
      obtain ⟨hanswered, hcloses, huntracks, hunsubscribes, hreleases⟩ := hr
      exact free_exact { r with closes := r.closes + if false then 1 else 0 }
        (by simp [hanswered, hcloses]) huntracks hunsubscribes hreleases false true
    | true =>
      obtain ⟨hanswered, hcloses, huntracks, hunsubscribes, hreleases⟩ := hr
      exact free_exact { r with closes := r.closes + if true then 1 else 0 }
        (by simp [hanswered, hcloses]) huntracks hunsubscribes hreleases false true
  | finish hphase persisted =>
    unfold Request.Exact at hr
    rw [hphase] at hr
    obtain ⟨hanswered, hcloses, huntracks, hunsubscribes, hreleases⟩ := hr
    exact free_exact r (by simp [hanswered, hcloses]) huntracks hunsubscribes hreleases _ _
  | _ hphase =>
    unfold Request.Exact at hr ⊢
    rw [hphase] at hr
    simp_all [Request.goto]

/-- **One step** brings a request nearer to its end, unless it is a cancellation. -/
theorem act_rank (h : Acts c r s c' r') : r'.rank + (if s = .cancel then 0 else 1) ≤ r.rank := by
  have hask : ∀ cleanup : Cleanup, (Request.Cleanup.ask cleanup).rank = cleanup.rank := by
    intro cleanup
    cases cleanup <;> rfl
  cases h with
  | goes hphase hgoes =>
    cases hgoes with
    | cancelKept => exact Nat.le_of_eq (by rw [← hphase]; rfl)
    | _ => simp only [Request.rank, Request.goto, hphase, hask]; simp; try omega
  | @closed response generator error raises hphase =>
    obtain ⟨cleanup, error', hcleanup, hafter⟩ :=
      afterClose_request c r ⟨response, generator, .closing, error⟩ raises
    rw [hafter]
    rcases hcleanup with rfl | rfl <;> (simp only [Request.rank, hphase, Cleanup.rank]; simp)
  | @abandoned answered hphase =>
    obtain ⟨phase, hfreed, hfree⟩ := free_request c
      { r with closes := r.closes + if answered then 1 else 0 } false true
    rw [hfree]
    cases answered <;> rcases hfreed with rfl | rfl <;> simp [Request.rank, hphase]
  | finish hphase persisted =>
    obtain ⟨phase, hfreed, hfree⟩ := free_request c r persisted false
    rw [hfree]
    rcases hfreed with rfl | rfl <;> simp only [Request.rank, hphase] <;> split <;> omega
  | released hphase =>
    simp only [Request.rank, Request.goto, hphase]
    split <;> omega
  | _ hphase =>
    simp only [Request.rank, Request.goto, hphase, Cleanup.rank]
    simp

/-- **A request is never stuck** before it is over. -/
theorem exists_act (hr : r.Exact) (hover : r.isOver = false) (c : Shared) :
    ∃ s, s ≠ .cancel ∧ (r.act c s).isSome = true := by
  cases hphase : r.phase with
  | plain => exact ⟨.finish false, nofun, by simp [Request.act, hphase]⟩
  | connecting => exact ⟨.headers, nofun, by simp [Request.act, hphase]⟩
  | answered => exact ⟨.proceed, nofun, by simp [Request.act, hphase]⟩
  | settling => exact ⟨.respond, nofun, by simp [Request.act, hphase]⟩
  | abandoning answered => exact ⟨.abandoned, nofun, by simp [Request.act, hphase]⟩
  | touching shielded => exact ⟨.touched false, nofun, by simp [Request.act, hphase]⟩
  | done => simp [Request.isOver, hphase] at hover
  | lost counted => simp [Request.isOver, hphase] at hover
  | served s =>
    obtain ⟨response, generator, cleanup, error⟩ := s
    unfold Request.Exact at hr
    rw [hphase] at hr
    cases response with
    | idle => exact absurd rfl hr.2.1
    | «over» => simp [Request.isOver, hphase] at hover
    | running => exact ⟨.responseEnds, nofun, by simp [Request.act, hphase]⟩
    | waiting =>
      -- the response waits for its cleanup
      cases cleanup with
      | none => exact absurd hr.2.2.1 nofun
      | created => exact ⟨.cleanupStarts, nofun, by simp [Request.act, hphase]⟩
      | closing => exact ⟨.closed false, nofun, by simp [Request.act, hphase]⟩
      | touching => exact ⟨.touched false, nofun, by simp [Request.act, hphase]⟩
      | done => exact ⟨.responseResumes, nofun, by simp [Request.act, hphase]⟩

end Once

/-! ## §F All requests together -/

/-- The counters are the sums over the requests. -/
structure Counted (h : Hub) : Prop where
  inUse : ∀ id, count h.shared.inUse id = tally (fun r => r.share r.holds id) h.requests
  subscribers : ∀ id,
    count h.shared.eventSubscribers id = tally (fun r => r.share r.counted id) h.requests
  active : h.shared.active = tally (fun r => if r.counted then 1 else 0) h.requests
  exact : ∀ r ∈ h.requests, r.Exact

/-- The request has a lease of the sandbox that is not that of a counted stream. -/
def Request.leases (sandboxId : String) (r : Request) : Bool :=
  r.holds && !r.counted && r.sandboxId == sandboxId

/-- The steps of a request that are not cancellations. -/
def Event.advances (i : Nat) : Event → Bool
  | .act j s => j == i && s != .cancel
  | .acquire _ _ => false

/-- How many steps a request has before it. -/
def Hub.rankOf (i : Nat) (h : Hub) : Nat := (h.requests[i]?.map Request.rank).getD 0

section Hubs

variable {h h' : Hub} {e : Event} {i : Nat} {s : Step} {r : Request}

theorem act_inv (hstep : h.step (.act i s) = some h') :
    ∃ r c' r', h.requests[i]? = some r ∧ Acts h.shared r s c' r' ∧
      h' = ⟨c', h.requests.set i r'⟩ := by
  simp only [Hub.step, Option.bind_eq_bind, Option.bind_eq_some_iff] at hstep
  obtain ⟨r, hr, ⟨c', r'⟩, hact, hh'⟩ := hstep
  exact ⟨r, c', r', hr, acts_of_act hact, (Option.some.inj hh').symm⟩

theorem initial_counted : Counted Hub.initial :=
  ⟨fun _ => count_empty _, fun _ => count_empty _, rfl, nofun⟩

/-- **The step lemma.** -/
theorem step_counted (hc : Counted h) (hstep : h.step e = some h') : Counted h' := by
  cases e with
  | acquire sandboxId stream =>
    obtain rfl := Option.some.inj hstep
    have hnew : ∀ phase, phase = .connecting ∨ phase = .plain →
        let r : Request := ⟨sandboxId, phase, false, 0, 0, 0, 0⟩
        r.holds = true ∧ r.counted = false ∧ r.Exact := by
      rintro phase (rfl | rfl) <;> exact ⟨rfl, rfl, rfl, rfl, rfl, rfl, rfl⟩
    have hphase : (if stream then Phase.connecting else Phase.plain) = .connecting ∨
        (if stream then Phase.connecting else Phase.plain) = .plain := by
      cases stream
      · exact .inr rfl
      · exact .inl rfl
    obtain ⟨hholds, hcounted, hexact⟩ := hnew _ hphase
    refine ⟨fun id => ?_, fun id => ?_, ?_, ?_⟩
    · rw [count_increment, hc.inUse, tally_append, tally_cons, tally_nil, Request.share, hholds]
      simp
    · rw [hc.subscribers, tally_append, tally_cons, tally_nil, Request.share, hcounted]
      simp
    · rw [hc.active, tally_append, tally_cons, tally_nil, hcounted]
      simp
    · intro r hr
      rcases List.mem_append.mp hr with hr | hr
      · exact hc.exact r hr
      · obtain rfl := List.mem_singleton.mp hr
        exact hexact
  | act i s =>
    obtain ⟨r, c', r', hr, hacts, rfl⟩ := act_inv hstep
    have hmem : r ∈ h.requests := List.mem_of_getElem? hr
    have hfollows := act_follows
      (fun id => hc.inUse id ▸ le_tally (f := fun r : Request => r.share r.holds id) hmem)
      (fun id => hc.subscribers id ▸ le_tally (f := fun r : Request => r.share r.counted id) hmem)
      hacts
    refine ⟨fun id => ?_, fun id => ?_, ?_, ?_⟩
    · have hset := tally_set (f := fun r : Request => r.share r.holds id) (y := r') hr
      have hone := hfollows.inUse id
      have hall := hc.inUse id
      simp only at hset ⊢
      omega
    · have hset := tally_set (f := fun r : Request => r.share r.counted id) (y := r') hr
      have hone := hfollows.subscribers id
      have hall := hc.subscribers id
      simp only at hset ⊢
      omega
    · have hset := tally_set (f := fun r : Request => if r.counted then 1 else 0) (y := r') hr
      have hone := hfollows.active
      have hall := hc.active
      simp only at hset ⊢
      cases hcounted : r.counted <;> cases hcounted' : r'.counted <;>
        simp only [hcounted, hcounted', Bool.false_eq_true, if_false, if_true] at hone hset ⊢ <;> omega
    · intro q hq
      rcases List.mem_or_eq_of_mem_set hq with hq | rfl
      · exact hc.exact q hq
      · exact act_exact (hc.exact r hmem) hacts

/-- The leases are those of the counted streams and the others. -/
theorem tally_holds (sandboxId : String) (rs : List Request) :
    tally (fun r => r.share r.holds sandboxId) rs =
      tally (fun r => r.share r.counted sandboxId) rs + rs.countP (Request.leases sandboxId) := by
  induction rs with
  | nil => rfl
  | cons r rs ih =>
    have hone : r.share r.holds sandboxId =
        r.share r.counted sandboxId + if Request.leases sandboxId r then 1 else 0 := by
      have hle := r.counted_le_holds sandboxId
      unfold Request.share at hle ⊢
      unfold Request.leases
      generalize r.holds = holds, r.counted = counted at hle ⊢
      by_cases hid : r.sandboxId = sandboxId <;> cases holds <;> cases counted <;> simp_all
    rw [tally_cons, tally_cons, List.countP_cons, ih, hone]
    omega

theorem tally_counted (rs : List Request) :
    tally (fun r => if r.counted then 1 else 0) rs = rs.countP Request.counted := by
  induction rs with
  | nil => rfl
  | cons r rs ih =>
    rw [tally_cons, List.countP_cons, ih]
    omega

theorem rank_le (r : Request) : r.rank ≤ 11 := by
  unfold Request.rank
  split
  case h_7 s _ => cases s.response <;> cases s.generator <;> cases s.cleanup <;> decide
  all_goals decide

/-- **One step** brings the request whose step it is nearer to its end. -/
theorem step_rankOf (hstep : h.step e = some h') (hi : i < h.requests.length) :
    h'.rankOf i + (if e.advances i then 1 else 0) ≤ h.rankOf i ∧ i < h'.requests.length := by
  cases e with
  | acquire sandboxId stream =>
    obtain rfl := Option.some.inj hstep
    refine ⟨?_, by simp; omega⟩
    simp [Hub.rankOf, Event.advances, List.getElem?_append_left hi]
  | act j s =>
    obtain ⟨r, c', r', hr, hacts, rfl⟩ := act_inv hstep
    refine ⟨?_, by simpa using hi⟩
    by_cases hj : j = i
    · subst hj
      have hrank := act_rank hacts
      simp only [Hub.rankOf, List.getElem?_set_self hi, hr, Option.map_some, Option.getD_some,
        Event.advances, beq_self_eq_true, Bool.true_and, bne_iff_ne, ne_eq, ite_not]
      exact hrank
    · simp [Hub.rankOf, List.getElem?_set_ne hj, Event.advances, hj]

theorem run_counted {es : List Event} (hrun : hub.run Hub.initial es = some h) : Counted h :=
  hub.run_always (fun _ _ _ hc hstep => step_counted hc hstep) initial_counted hrun

/-- No part of the cleanup was done twice. -/
theorem exact_le_one (hr : r.Exact) :
    r.closes ≤ 1 ∧ r.untracks ≤ 1 ∧ r.unsubscribes ≤ 1 ∧ r.releases ≤ 1 := by
  unfold Request.Exact at hr
  cases hphase : r.phase with
  | served s =>
    rw [hphase] at hr
    obtain ⟨_, _, hr⟩ := hr
    cases hcleanup : s.cleanup <;> simp [hcleanup] at hr <;> omega
  | abandoning answered => cases answered <;> simp [hphase] at hr <;> omega
  | touching _ =>
    simp only [hphase] at hr
    cases hanswered : r.answered <;> simp [hanswered] at hr <;> omega
  | done =>
    simp only [hphase] at hr
    cases hanswered : r.answered <;> simp [hanswered] at hr <;> omega
  | _ =>
    simp only [hphase] at hr
    omega

end Hubs

/-- **Streams clean up.** In every state of every run `event_subscribers` stays below `in_use`, the
difference counts the leases of all requests but the counted streams, and the tracker counts these. Of
every request each part of the cleanup was done at most once; when the response of a stream is over, each
was done once; a request that was given up was released once, closed its upstream response if there was
one, and was never counted. From there every request takes boundedly many steps, cancellations apart,
and has one to take until it is over. -/
theorem streams_clean_up {es : List Event} {h : Hub} (hrun : hub.run Hub.initial es = some h) :
    (∀ sandboxId,
      count h.shared.eventSubscribers sandboxId ≤ count h.shared.inUse sandboxId ∧
      activeRequestLeases h sandboxId = h.requests.countP (Request.leases sandboxId)) ∧
    h.shared.active = h.requests.countP Request.counted ∧
    ∀ (i : Nat) (r : Request), h.requests[i]? = some r →
      (r.closes ≤ 1 ∧ r.untracks ≤ 1 ∧ r.unsubscribes ≤ 1 ∧ r.releases ≤ 1) ∧
      (∀ s, r.phase = .served s → s.response = .over →
        r.closes = 1 ∧ r.untracks = 1 ∧ r.unsubscribes = 1 ∧ r.releases = 1) ∧
      (r.phase = .done → r.closes = (if r.answered then 1 else 0) ∧ r.untracks = 0 ∧
        r.unsubscribes = 0 ∧ r.releases = 1) ∧
      ∀ (fs : List Event) (t : Hub), hub.run h fs = some t →
        fs.countP (Event.advances i) ≤ 11 ∧
        ∃ r', t.requests[i]? = some r' ∧
          (r'.isOver = false → ∃ s, s ≠ .cancel ∧ (hub.step t (.act i s)).isSome = true) := by
  have hc := run_counted hrun
  refine ⟨fun sandboxId => ?_, ?_, fun i r hr => ?_⟩
  · have hsum := tally_holds sandboxId h.requests
    rw [activeRequestLeases, hc.inUse, hc.subscribers, hsum]
    omega
  · rw [hc.active, tally_counted]
  · have hexact := hc.exact r (List.mem_of_getElem? hr)
    refine ⟨exact_le_one hexact, fun s hphase hover => ?_, fun hphase => ?_, fun fs t hfs => ?_⟩
    · unfold Request.Exact at hexact
      rw [hphase] at hexact
      obtain ⟨_, _, hexact⟩ := hexact
      cases hcleanup : s.cleanup <;> simp [hcleanup, hover] at hexact
      exact hexact
    · unfold Request.Exact at hexact
      rw [hphase] at hexact
      exact hexact
    · have hi : i < h.requests.length := (List.getElem?_eq_some_iff.mp hr).1
      have hdown : ∀ (g : Hub) (e : Event) (g' : Hub), i < g.requests.length → g.step e = some g' →
          g'.rankOf i + (if e.advances i then 1 else 0) ≤ g.rankOf i :=
        fun _ _ _ hi hstep => (step_rankOf hstep hi).1
      have hbound := hub.run_bounded (fun _ _ _ hi hstep => (step_rankOf hstep hi).2) hdown hi hfs
      have hlen : i < t.requests.length :=
        hub.run_always (I := fun g => i < g.requests.length)
          (fun _ _ _ hi hstep => (step_rankOf hstep hi).2) hi hfs
      have hct : Counted t := hub.run_always (fun _ _ _ hc hstep => step_counted hc hstep) hc hfs
      refine ⟨?_, t.requests[i], List.getElem?_eq_getElem hlen, fun hover => ?_⟩
      · have hrank : h.rankOf i ≤ 11 := by
          simp only [Hub.rankOf, hr, Option.map_some, Option.getD_some]
          exact rank_le r
        omega
      · obtain ⟨s, hs, hact⟩ := exists_act (hct.exact _ (List.getElem_mem hlen)) hover t.shared
        obtain ⟨next, hnext⟩ := Option.isSome_iff_exists.mp hact
        exact ⟨s, hs, by simp [hub, Hub.step, List.getElem?_eq_getElem hlen, hnext]⟩


/-- An event stream and an ordinary request; the client goes away, and `aclose` raises. -/
def sampleRun : List Event :=
  [.acquire "a" true, .acquire "a" false, .act 0 .headers, .act 0 .proceed, .act 0 .respond,
    .act 0 .pull, .act 0 .cancel, .act 0 .generatorEnds, .act 0 .cleanupStarts, .act 0 .cancel,
    .act 0 (.closed true), .act 0 .generatorResumes, .act 0 .responseResumes]

theorem sampleRun_cleans_up : ∃ h, hub.run Hub.initial sampleRun = some h ∧
    activeRequestLeases h "a" = h.requests.countP (Request.leases "a") ∧
    h.requests.countP (Request.leases "a") = 1 ∧ h.shared.active = 0 := by
  cases hrun : hub.run Hub.initial sampleRun with
  | none => exact absurd hrun (by decide +kernel)
  | some h =>
    obtain ⟨hactive, htracked, _⟩ := streams_clean_up hrun
    have hend : ((hub.run Hub.initial sampleRun).map fun h =>
        (h.requests.countP (Request.leases "a"), h.requests.countP Request.counted)) = some (1, 0) := by
      decide +kernel
    rw [hrun] at hend
    obtain ⟨hleases, hcounted⟩ := Prod.mk.inj (Option.some.inj hend)
    refine ⟨h, rfl, (hactive "a").2, hleases, ?_⟩
    rw [htracked, hcounted]
    rfl

/-- A stream with its headers counts as an active request until its response is made, and when it is given
up there it was never in the tracker. -/
theorem answered_stream_counts_as_request :
    (∃ h, hub.run Hub.initial [.acquire "a" true, .act 0 .headers] = some h ∧
      activeRequestLeases h "a" = 1 ∧ ∀ r ∈ h.requests, r.phase ≠ .plain) ∧
    ∃ h r, hub.run Hub.initial [.acquire "a" true, .act 0 .headers, .act 0 .abandon, .act 0 .abandoned,
        .act 0 (.touched false)] = some h ∧ h.requests[0]? = some r ∧ r.phase = .done ∧
      r.answered = true ∧ r.untracks = 0 ∧ r.unsubscribes = 0 := by
  refine ⟨⟨_, rfl, by decide, by decide⟩, ⟨_, _, rfl, rfl, by decide, by decide, by decide, by decide⟩⟩


end OpencodeCloud.Router.Streams
