/-
# OpencodeCloud.Router.Drain -- what a successful quiesce guarantees

After a drain of a target has succeeded, and until the target is resumed, no request of the target is
past the last check of the block except event streams, and no native session of the target is busy
(`AtRest`). The argument follows one round of `drain`. A request that is not `quiet` is counted in
`acquiring` or holds a lease that no subscriber explains, so `execution` sees it when it looks at the
sandbox of the request (`not_unleased`); after that look no request can get past the block, and a
session can only end. All this needs the sandbox to be among the looks: the registry is listed first,
and `_acquire_locked` writes the row of a new sandbox later. The exact condition is that no round is
decided whose listing missed the sandbox of a request (`seesAll`).
-/
import OpencodeCloud.Router.Admission
import OpencodeCloud.Router.Balance

namespace OpencodeCloud.Router

open OpencodeCloud.Library

/-! ## §A The counters never fall short -/

/-- Counted in `in_use` and not in `event_subscribers`. -/
def Flags.working (f : Flags) : Bool := f.usesSandbox && !f.subscribed

/-- The counters lose at most the flags that the request loses from `f` to `f'`. -/
structure Within (r : NativeRequest) (p q : Process) (f f' : Flags) : Prop where
  requests : ∀ a, count p.requests a + share f'.leased r.agentId a ≤
    count q.requests a + share f.leased r.agentId a
  acquiring : ∀ a, count p.acquiring a + share f'.acquiring r.agentId a ≤
    count q.acquiring a + share f.acquiring r.agentId a
  subscribers : ∀ s, count p.eventSubscribers s + share f'.subscribed r.sandbox s ≤
    count q.eventSubscribers s + share f.subscribed r.sandbox s
  load : ∀ s, count p.inUse s + count q.eventSubscribers s + share f'.working r.sandbox s ≤
    count q.inUse s + count p.eventSubscribers s + share f.working r.sandbox s
  handlers : q.handlers = p.handlers

/-- A handler subscribes only to a sandbox it uses. -/
theorem Handler.share_working (h : Handler) (s : Sandbox) :
    share h.flags.working h.request.sandbox s + share h.flags.subscribed h.request.sandbox s =
      share h.flags.usesSandbox h.request.sandbox s := by
  obtain ⟨r, current⟩ := h
  cases current <;> simp [flags, Flags.working, usesSandbox, subscribed]

/-- Counters that follow a handler lose nothing. -/
theorem Follows.within {p q : Process} {h : Handler} {pc : Pc}
    (hf : Follows h.request p q h.flags (h.goto pc).flags) :
    Within h.request p q h.flags (h.goto pc).flags where
  requests a := (hf.requests a).symm.le
  acquiring a := (hf.acquiring a).symm.le
  subscribers s := (hf.subscribers s).symm.le
  load s := by
    have h1 := hf.inUse s
    have h2 := hf.subscribers s
    have h3 := h.share_working s
    have h4 : _ = share (h.goto pc).flags.usesSandbox h.request.sandbox s :=
      (h.goto pc).share_working s
    simp only [Handler.goto] at h1 h2 h4 ⊢
    omega
  handlers := hf.handlers

/-- An exception in an unprotected stretch leaves counters that are too high. -/
theorem raise_within {p q : Process} {h : Handler} {pc : Pc} (hp : Holds p h.request h.flags)
    (hstep : p.raise h = some (q, pc)) : Within h.request p q h.flags (h.goto pc).flags := by
  cases hx : h.exposed with
  | false => exact (raise_follows hp hx hstep).within
  | true =>
    obtain ⟨r, current⟩ := h
    cases current
    case counted =>
      obtain ⟨rfl, rfl⟩ := Prod.mk.inj (Option.some.inj hstep)
      have hlease : Follows r p (p.unlease r) ⟨r.mutation, true, true, false⟩
          ⟨false, true, true, false⟩ := unlease_follows hp
      have hboth := hlease.trans (stopAcquiring_follows (hlease.holds hp))
      refine ⟨fun a => (hboth.requests a).symm.le, fun a => (hboth.acquiring a).symm.le,
        fun s => (hboth.subscribers s).symm.le, fun s => ?_, hboth.handlers⟩
      have h1 := hboth.inUse s
      have h2 := hboth.subscribers s
      simp only [Handler.flags, Handler.goto, Flags.working, Handler.usesSandbox,
        Handler.subscribed, share_false, Bool.not_false, Bool.and_true,
        share_true] at h1 h2 ⊢
      omega
    case admitted =>
      obtain ⟨rfl, rfl⟩ := Prod.mk.inj (Option.some.inj hstep)
      exact ⟨fun a => by simp [Handler.flags, Handler.leased, Handler.goto],
        fun a => le_rfl, fun s => le_rfl, fun s => le_rfl, rfl⟩
    case acquired =>
      obtain ⟨rfl, rfl⟩ := Prod.mk.inj (Option.some.inj hstep)
      exact ⟨fun a => by simp [Handler.flags, Handler.leased, Handler.goto], fun a => le_rfl,
        fun s => le_rfl, fun s => by simp [Handler.flags, Handler.goto, Flags.working,
          Handler.usesSandbox], rfl⟩
    case opening =>
      obtain ⟨rfl, rfl⟩ := Prod.mk.inj (Option.some.inj hstep)
      exact ⟨fun a => le_rfl, fun a => le_rfl, fun s => le_rfl, fun s => by
        simp [Handler.flags, Handler.goto, Flags.working, Handler.usesSandbox], rfl⟩
    case subscribed =>
      obtain ⟨rfl, rfl⟩ := Prod.mk.inj (Option.some.inj hstep)
      exact ⟨fun a => le_rfl, fun a => le_rfl, fun s => by
        simp [Handler.flags, Handler.goto, Handler.subscribed], fun s => by
        simp [Handler.flags, Handler.goto, Flags.working, Handler.usesSandbox], rfl⟩
    all_goals simp [Handler.exposed] at hx

/-- What the handler counts for in `in_use[s]` beyond `event_subscribers[s]`. -/
def Handler.workOn (s : Sandbox) (h : Handler) : Nat := share h.flags.working h.request.sandbox s

/-- No counter is below the number of handlers in the stretch it counts. -/
structure Covered (p : Process) : Prop where
  requests : ∀ a, tally (Handler.leaseOn a) p.handlers ≤ count p.requests a
  acquiring : ∀ a, tally (Handler.acquiringOn a) p.handlers ≤ count p.acquiring a
  subscribers : ∀ s, tally (Handler.subscriptionOf s) p.handlers ≤ count p.eventSubscribers s
  load : ∀ s, count p.eventSubscribers s + tally (Handler.workOn s) p.handlers ≤ count p.inUse s

namespace Covered

theorem initial : Covered Process.initial where
  requests a := by simp [Process.initial]
  acquiring a := by simp [Process.initial]
  subscribers s := by simp [Process.initial]
  load s := by simp [Process.initial]

theorem holds {p : Process} (hp : Covered p) {i : Nat} {h : Handler}
    (hi : p.handlers[i]? = some h) : Holds p h.request h.flags where
  requests a :=
    (le_tally (f := Handler.leaseOn a) (List.mem_of_getElem? hi)).trans (hp.requests a)
  acquiring a :=
    (le_tally (f := Handler.acquiringOn a) (List.mem_of_getElem? hi)).trans (hp.acquiring a)
  inUse s := by
    have h1 := le_tally (f := Handler.workOn s) (List.mem_of_getElem? hi)
    have h2 := le_tally (f := Handler.subscriptionOf s) (List.mem_of_getElem? hi)
    have h3 := h.share_working s
    have h4 := hp.load s
    have h5 := hp.subscribers s
    simp only [Handler.workOn, Handler.subscriptionOf] at h1 h2
    omega
  subscribers s :=
    (le_tally (f := Handler.subscriptionOf s) (List.mem_of_getElem? hi)).trans (hp.subscribers s)

theorem withHandler {p q : Process} (hp : Covered p) {i : Nat} {h : Handler} {pc : Pc}
    (hi : p.handlers[i]? = some h) (hw : Within h.request p q h.flags (h.goto pc).flags) :
    Covered (Process.withHandler i h (q, pc)) := by
  have hset : ∀ f : Handler → Nat,
      tally f (p.handlers.set i (h.goto pc)) + f h = tally f p.handlers + f (h.goto pc) :=
    fun f => tally_set hi
  refine ⟨fun a => ?_, fun a => ?_, fun s => ?_, fun s => ?_⟩
  all_goals simp only [Process.withHandler, hw.handlers]
  · have h1 : _ + (h.goto pc).leaseOn a ≤ _ + h.leaseOn a := hw.requests a
    have h2 := hset (Handler.leaseOn a)
    have h3 := hp.requests a
    omega
  · have h1 : _ + (h.goto pc).acquiringOn a ≤ _ + h.acquiringOn a := hw.acquiring a
    have h2 := hset (Handler.acquiringOn a)
    have h3 := hp.acquiring a
    omega
  · have h1 : _ + (h.goto pc).subscriptionOf s ≤ _ + h.subscriptionOf s := hw.subscribers s
    have h2 := hset (Handler.subscriptionOf s)
    have h3 := hp.subscribers s
    omega
  · have h1 : _ + (h.goto pc).workOn s ≤ _ + h.workOn s := hw.load s
    have h2 := hset (Handler.workOn s)
    have h3 := hp.load s
    omega

theorem step {p q : Process} {e : Event} (hp : Covered p) (hstep : p.step e = some q) :
    Covered q := by
  cases e with
  | arrive r =>
    obtain rfl := Option.some.inj hstep
    refine ⟨fun a => ?_, fun a => ?_, fun s => ?_, fun s => ?_⟩
    · simpa [Handler.leaseOn, Handler.flags, Handler.leased] using hp.requests a
    · simpa [Handler.acquiringOn, Handler.flags, Handler.acquiring] using hp.acquiring a
    · simpa [Handler.subscriptionOf, Handler.flags, Handler.subscribed] using hp.subscribers s
    · simpa [Handler.workOn, Handler.flags, Flags.working, Handler.usesSandbox] using hp.load s
  | advance i =>
    obtain ⟨h, hi, next, hadv, rfl⟩ := advance_eq_some hstep
    exact hp.withHandler hi (advance_follows (hp.holds hi) hadv).within
  | raise i =>
    obtain ⟨h, hi, next, hraise, rfl⟩ := raise_eq_some hstep
    exact hp.withHandler hi (raise_within (hp.holds hi) hraise)

/-- `execution` does not find the counters at zero while a request works on the sandbox. -/
theorem not_unleased {p : Process} (hp : Covered p) {h : Handler} (hh : h ∈ p.handlers)
    (hquiet : h.quiet = false) : Manager.unleased p h.request.sandbox = false := by
  have hacq := (le_tally (f := Handler.acquiringOn h.request.agentId) hh).trans
    (hp.acquiring h.request.agentId)
  have hwork := (le_tally (f := Handler.workOn h.request.sandbox) hh)
  have hload := hp.load h.request.sandbox
  by_contra hzero
  simp only [Manager.unleased, Manager.activeRequestLeases, Bool.not_eq_false, Bool.and_eq_true,
    beq_iff_eq] at hzero
  obtain ⟨⟨hleases, -⟩, hacquiring⟩ := hzero
  have hacq0 : h.acquiringOn h.request.agentId = 0 := by
    simp only [NativeRequest.sandbox] at hacquiring
    omega
  have hwork0 : h.workOn h.request.sandbox = 0 := by omega
  obtain ⟨r, current⟩ := h
  cases current
  all_goals simp [Handler.quiet, Handler.acquiringOn, Handler.workOn, Handler.flags,
    Flags.working, Handler.acquiring, Handler.usesSandbox, Handler.subscribed] at hquiet hacq0 hwork0

end Covered

/-! ## §B What a step can do to the requests of a blocked target -/

/-- Only event streams get to `_stream_sse`. -/
def Handler.streams (h : Handler) : Bool :=
  match h.pc with
  | .connecting | .opening | .subscribed | .streaming => h.request.eventStream
  | _ => true

/-- Where a handler of the next state comes from. -/
theorem mem_step_handlers {p q : Process} {e : Event} {h' : Handler} (hstep : p.step e = some q)
    (hh' : h' ∈ q.handlers) :
    h' ∈ p.handlers ∨ h'.pc = .received ∨ ∃ h ∈ p.handlers, ∃ q' pc, h' = h.goto pc ∧
      ((∃ i, e = .advance i ∧ p.handlers[i]? = some h ∧ p.advance h = some (q', pc)) ∨
        p.raise h = some (q', pc)) := by
  cases e with
  | arrive r =>
    obtain rfl := Option.some.inj hstep
    rcases List.mem_append.mp hh' with hold | hnew
    · exact Or.inl hold
    · exact Or.inr (Or.inl (by rw [List.mem_singleton.mp hnew]))
  | advance i =>
    obtain ⟨h, hi, ⟨q', pc⟩, hadv, rfl⟩ := advance_eq_some hstep
    simp only [Process.withHandler, advance_handlers hadv] at hh'
    rcases List.mem_or_eq_of_mem_set hh' with hold | rfl
    · exact Or.inl hold
    · exact Or.inr (Or.inr ⟨h, List.mem_of_getElem? hi, q', pc, rfl, Or.inl ⟨i, rfl, hi, hadv⟩⟩)
  | raise i =>
    obtain ⟨h, hi, ⟨q', pc⟩, hraise, rfl⟩ := raise_eq_some hstep
    simp only [Process.withHandler, (raise_frame hraise).1] at hh'
    rcases List.mem_or_eq_of_mem_set hh' with hold | rfl
    · exact Or.inl hold
    · exact Or.inr (Or.inr ⟨h, List.mem_of_getElem? hi, q', pc, rfl, Or.inr hraise⟩)

/-- An advancing handler keeps `streams`. -/
theorem advance_streams {p q : Process} {h : Handler} {pc : Pc}
    (hs : h.streams = true) (hstep : p.advance h = some (q, pc)) : (h.goto pc).streams = true := by
  obtain ⟨r, current⟩ := h
  cases current
  case releasing =>
    simp only [Process.advance] at hstep
    split at hstep
    all_goals obtain ⟨rfl, rfl⟩ := Prod.mk.inj (Option.some.inj hstep)
    all_goals rfl
  case done => exact absurd hstep (by simp [Process.advance])
  all_goals obtain ⟨rfl, rfl⟩ := Prod.mk.inj (Option.some.inj hstep)
  case acquired =>
    cases he : r.eventStream with
    | false => rfl
    | true => simp [Handler.streams, Handler.goto, he]
  case connecting => exact hs
  case opening => exact hs
  case subscribed => exact hs
  all_goals rfl

/-- An exception takes no handler into `_stream_sse`. -/
theorem raise_streams {p q : Process} {h : Handler} {pc : Pc}
    (hstep : p.raise h = some (q, pc)) : (h.goto pc).streams = true := by
  obtain ⟨r, current⟩ := h
  cases current
  case releasing => exact absurd hstep (by simp [Process.raise])
  case done => exact absurd hstep (by simp [Process.raise])
  all_goals obtain ⟨rfl, rfl⟩ := Prod.mk.inj (Option.some.inj hstep)
  all_goals rfl

/-- A quiet handler stays quiet unless it passes the last check of the block. -/
theorem advance_quiet {p q : Process} {h : Handler} {pc : Pc} (hs : h.streams = true)
    (hq : h.quiet = true) (hblocked : h.pc ≠ .resources) (hstep : p.advance h = some (q, pc)) :
    (h.goto pc).quiet = true := by
  obtain ⟨r, current⟩ := h
  cases current
  case resources => exact absurd rfl hblocked
  case releasing =>
    simp only [Process.advance] at hstep
    split at hstep
    all_goals obtain ⟨rfl, rfl⟩ := Prod.mk.inj (Option.some.inj hstep)
    · rfl
    · exact hq
  case done => exact absurd hstep (by simp [Process.advance])
  all_goals simp only [Handler.quiet, Bool.false_eq_true] at hq
  all_goals obtain ⟨rfl, rfl⟩ := Prod.mk.inj (Option.some.inj hstep)
  case streaming => exact hs
  all_goals rfl

/-- An exception keeps a handler quiet. -/
theorem raise_quiet {p q : Process} {h : Handler} {pc : Pc} (hs : h.streams = true)
    (hq : h.quiet = true) (hstep : p.raise h = some (q, pc)) : (h.goto pc).quiet = true := by
  obtain ⟨r, current⟩ := h
  cases current
  case releasing => exact absurd hstep (by simp [Process.raise])
  case done => exact absurd hstep (by simp [Process.raise])
  all_goals simp only [Handler.quiet, Bool.false_eq_true] at hq
  all_goals obtain ⟨rfl, rfl⟩ := Prod.mk.inj (Option.some.inj hstep)
  case streaming => exact hs
  all_goals rfl

/-- What the router's step needs in a manager. -/
theorem request_eq_some {m m' : Manager} {e : Event} (hstep : m.step (.request e) = some m') :
    ∃ p, m.process.step e = some p ∧ m' = { m with process := p } ∧
      ∀ i h, e = .advance i → m.process.handlers[i]? = some h → m.passes h = true := by
  cases e with
  | advance i =>
    simp only [Manager.step, Option.bind_eq_bind, Option.bind_eq_some_iff] at hstep
    obtain ⟨h, hi, _, hpass, p, hp, hm⟩ := hstep
    refine ⟨p, hp, (Option.some.inj hm).symm, ?_⟩
    rintro j h' ⟨⟩ hj
    obtain rfl := Option.some.inj (hi.symm.trans hj)
    by_contra hn
    simp [guard, hn] at hpass
  | arrive r =>
    simp only [Manager.step, Option.bind_eq_bind, Option.bind_eq_some_iff] at hstep
    obtain ⟨p, hp, hm⟩ := hstep
    exact ⟨p, hp, (Option.some.inj hm).symm, fun _ _ h => by simp at h⟩
  | raise i =>
    simp only [Manager.step, Option.bind_eq_bind, Option.bind_eq_some_iff] at hstep
    obtain ⟨p, hp, hm⟩ := hstep
    exact ⟨p, hp, (Option.some.inj hm).symm, fun _ _ h => by simp at h⟩

theorem blocks_of_mem {m : Manager} {t a : String} (ht : t ∈ m.blocked) (hc : covers t a = true) :
    m.blocks a = true := by
  simp only [covers, Bool.or_eq_true, beq_iff_eq] at hc
  rcases hc with rfl | rfl
  · simp [Manager.blocks, ht]
  · simp [Manager.blocks, ht]

/-- From `m` to `m'` the target only calms down: a request that is not quiet was not quiet before, and
a session that is busy was busy before or serves such a request. -/
structure Calms (t : String) (m m' : Manager) : Prop where
  requests : ∀ h' ∈ m'.process.handlers, covers t h'.request.agentId = true → h'.quiet = false →
    ∃ h ∈ m.process.handlers, h.request = h'.request ∧ h.quiet = false
  sessions : ∀ s ∈ m'.busy, covers t s.agentId = true →
    s ∈ m.busy ∨ ∃ h ∈ m.process.handlers, h.request.sandbox = s ∧ h.quiet = false

/-- A step that touches neither the handlers nor, but for endings, the sessions. -/
theorem Calms.of_frame {t : String} {m m' : Manager} (hp : m'.process = m.process)
    (hb : ∀ s ∈ m'.busy, s ∈ m.busy) : Calms t m m' where
  requests h hh _ hq := ⟨h, hp ▸ hh, rfl, hq⟩
  sessions s hs _ := Or.inl (hb s hs)

/-- A step of the router calms every blocked target. -/
theorem Calms.of_request {t : String} {m m' : Manager} {e : Event}
    (hs : ∀ h ∈ m.process.handlers, h.streams = true) (ht : t ∈ m.blocked)
    (hstep : m.step (.request e) = some m') : Calms t m m' := by
  obtain ⟨p, hp, rfl, hpass⟩ := request_eq_some hstep
  refine ⟨fun h' hh' hc hq => ?_, fun s hs _ => Or.inl hs⟩
  rcases mem_step_handlers hp hh' with hold | hnew | ⟨h, hh, q', pc, rfl, hfrom⟩
  · exact ⟨h', hold, rfl, hq⟩
  · simp [Handler.quiet, hnew] at hq
  · refine ⟨h, hh, rfl, ?_⟩
    by_contra hquiet
    rw [Bool.not_eq_false] at hquiet
    rcases hfrom with ⟨i, rfl, hi, hadv⟩ | hraise
    · have hpassed := hpass i h rfl hi
      have hchecked : h.pc ≠ .resources := by
        intro hpc
        have hb : m.blocks h.request.agentId = true := blocks_of_mem ht hc
        simp [Manager.passes, hpc, hb] at hpassed
      exact absurd (advance_quiet (hs h hh) hquiet hchecked hadv) (by simp [hq])
    · exact absurd (raise_quiet (hs h hh) hquiet hraise) (by simp [hq])

/-! ## §C The invariant of a run -/

/-- What the looks of a round have established: a request that is not quiet works on a sandbox that
is still to be looked at, or was found busy, and no sandbox found idle is busy. -/
structure Seen (m : Manager) (t : String) (r : Dict Sandbox Look) : Prop where
  requests : ∀ h ∈ m.process.handlers, covers t h.request.agentId = true → h.quiet = false →
    r.lookup h.request.sandbox = some .fresh ∨ r.lookup h.request.sandbox = some .busy
  sessions : ∀ s ∈ m.busy, covers t s.agentId = true →
    ∃ look, r.lookup s = some look ∧ look ≠ .idle

/-- Nothing of the target is under way but event streams. -/
structure Rests (m : Manager) (t : String) : Prop where
  requests : ∀ h ∈ m.process.handlers, covers t h.request.agentId = true → h.quiet = true
  sessions : ∀ s ∈ m.busy, covers t s.agentId = false

theorem Seen.calms {t : String} {m m' : Manager} {r : Dict Sandbox Look} (h : Seen m t r)
    (hc : Calms t m m') : Seen m' t r where
  requests h' hh' hcov hq := by
    obtain ⟨h₀, hh₀, hreq, hq₀⟩ := hc.requests h' hh' hcov hq
    rw [← hreq]
    exact h.requests h₀ hh₀ (by rw [hreq]; exact hcov) hq₀
  sessions s hs hcov := by
    rcases hc.sessions s hs hcov with hold | ⟨h₀, hh₀, rfl, hq₀⟩
    · exact h.sessions s hold hcov
    · rcases h.requests h₀ hh₀ hcov hq₀ with hl | hl
      · exact ⟨_, hl, by decide⟩
      · exact ⟨_, hl, by decide⟩

theorem Rests.calms {t : String} {m m' : Manager} (h : Rests m t) (hc : Calms t m m') :
    Rests m' t where
  requests h' hh' hcov := by
    by_contra hq
    rw [Bool.not_eq_true] at hq
    obtain ⟨h₀, hh₀, hreq, hq₀⟩ := hc.requests h' hh' hcov hq
    exact absurd (h.requests h₀ hh₀ (by rw [hreq]; exact hcov)) (by simp [hq₀])
  sessions s hs := by
    by_contra hcov
    rw [Bool.not_eq_false] at hcov
    rcases hc.sessions s hs hcov with hold | ⟨h₀, hh₀, rfl, hq₀⟩
    · exact absurd (h.sessions s hold) (by simp [hcov])
    · exact absurd (h.requests h₀ hh₀ hcov) (by simp [hq₀])

/-- The invariant of the manager. -/
structure Inv (m : Manager) : Prop where
  covered : Covered m.process
  streams : ∀ h ∈ m.process.handlers, h.streams = true
  registered : ∀ s ∈ m.busy, s ∈ m.registry
  drains : ∀ t d, m.drains.lookup t = some d → t ∈ m.blocked
  held : ∀ t ∈ m.quiesced, t ∈ m.blocked
  rounds : ∀ t d r, m.drains.lookup t = some d → d.round = some r → d.missed = false → Seen m t r
  rest : ∀ t ∈ m.quiesced, Rests m t

/-- A round is decided on zero counters only if its listing missed no request. -/
def seesAll (m : Manager) : Action → Prop
  | .decide t =>
    Manager.uncounted m.process t = true → ∀ d ∈ m.drains.lookup t, d.missed = false
  | _ => True

instance (m : Manager) (a : Action) : Decidable (seesAll m a) := by
  cases a <;> unfold seesAll <;> infer_instance

namespace Inv

theorem started (blocked : List String) (rows : List (Sandbox × Bool)) :
    Inv (Manager.started blocked rows) where
  covered := Covered.initial
  streams h hh := by simp [Manager.started, Process.initial] at hh
  registered s hs := by
    obtain ⟨row, hrow, rfl⟩ := List.mem_map.mp hs
    exact List.mem_map.mpr ⟨row, (List.mem_filter.mp hrow).1, rfl⟩
  drains t d ht := by simp [Manager.started] at ht
  held t ht := by simp [Manager.started] at ht
  rounds t d r ht := by simp [Manager.started] at ht
  rest t ht := by simp [Manager.started] at ht

/-- A step that leaves drains, blocks and history alone keeps the invariant if it calms every blocked
target. -/
theorem of_calms {m m' : Manager} (hm : Inv m) (hcov : Covered m'.process)
    (hstreams : ∀ h ∈ m'.process.handlers, h.streams = true)
    (hreg : ∀ s ∈ m'.busy, s ∈ m'.registry) (hb : m'.blocked = m.blocked)
    (hd : m'.drains = m.drains) (hq : m'.quiesced = m.quiesced)
    (hc : ∀ t ∈ m.blocked, Calms t m m') : Inv m' where
  covered := hcov
  streams := hstreams
  registered := hreg
  drains t d ht := by rw [hb]; exact hm.drains t d (hd ▸ ht)
  held t ht := by rw [hb]; exact hm.held t (hq ▸ ht)
  rounds t d r ht hr hmiss :=
    (hm.rounds t d r (hd ▸ ht) hr hmiss).calms (hc t (hm.drains t d (hd ▸ ht)))
  rest t ht := (hm.rest t (hq ▸ ht)).calms (hc t (hm.held t (hq ▸ ht)))

/-- A drain moves on to a round of which the invariant is known. -/
theorem setDrain {m : Manager} (hm : Inv m) {t : String} {d : Drain}
    (ht : t ∈ m.blocked)
    (hround : ∀ r, d.round = some r → d.missed = false → Seen m t r) :
    Inv { m with drains := m.drains.insert t d } := by
  refine { hm with drains := fun t' d' ht' => ?_, rounds := fun t' d' r ht' hr hmiss => ?_,
                   rest := fun t' ht' => (hm.rest t' ht').calms (Calms.of_frame rfl fun _ h => h) }
  · rcases Dict.lookup_insert_cases ht' with ⟨rfl, rfl⟩ | ⟨_, hold⟩
    · exact ht
    · exact hm.drains t' d' hold
  · rcases Dict.lookup_insert_cases ht' with ⟨rfl, rfl⟩ | ⟨_, hold⟩
    · exact (hround r hr hmiss).calms (Calms.of_frame rfl fun _ h => h)
    · exact (hm.rounds t' d' r hold hr hmiss).calms (Calms.of_frame rfl fun _ h => h)

theorem check {m : Manager} (hm : Inv m) {t : String} {s : Sandbox} {d : Drain}
    {r : Dict Sandbox Look} (hd : m.drains.lookup t = some d) (hr : d.round = some r) :
    Inv (m.setRound t d
      (r.insert s (if Manager.unleased m.process s then .inspecting else .busy))) := by
  refine hm.setDrain (hm.drains t d hd) ?_
  rintro r' hr' hmiss
  obtain rfl := Option.some.inj hr'
  have hseen := hm.rounds t d r hd hr hmiss
  refine ⟨fun h hh hcov hq => ?_, fun s' hs hcov => ?_⟩
  · by_cases hs : h.request.sandbox = s
    · have := hm.covered.not_unleased hh hq
      rw [hs] at this
      refine Or.inr ?_
      rw [hs, AList.lookup_insert, this]
      rfl
    · rw [AList.lookup_insert_ne hs]
      exact hseen.requests h hh hcov hq
  · by_cases hs' : s' = s
    · subst hs'
      refine ⟨_, AList.lookup_insert _, ?_⟩
      split
      · decide
      · decide
    · rw [AList.lookup_insert_ne hs']
      exact hseen.sessions s' hs hcov

theorem inspect {m : Manager} (hm : Inv m) {t : String} {s : Sandbox} {known : Bool} {d : Drain}
    {r : Dict Sandbox Look} (hd : m.drains.lookup t = some d) (hr : d.round = some r)
    (hlook : r.lookup s = some .inspecting) :
    Inv (m.setRound t d (r.insert s (if known && !m.busy.contains s then .idle else .busy))) := by
  refine hm.setDrain (hm.drains t d hd) ?_
  rintro r' hr' hmiss
  obtain rfl := Option.some.inj hr'
  have hseen := hm.rounds t d r hd hr hmiss
  refine ⟨fun h hh hcov hq => ?_, fun s' hs hcov => ?_⟩
  · have hold := hseen.requests h hh hcov hq
    have hne : h.request.sandbox ≠ s := by
      rintro hs
      rw [hs, hlook] at hold
      simp at hold
    rw [AList.lookup_insert_ne hne]
    exact hold
  · by_cases hs' : s' = s
    · subst hs'
      exact ⟨_, AList.lookup_insert _, by simp [hs]⟩
    · rw [AList.lookup_insert_ne hs']
      exact hseen.sessions s' hs hcov

/-- A round that lists the registry and misses no request. -/
theorem list {m : Manager} (hm : Inv m) {t : String} {d : Drain} (hd : m.drains.lookup t = some d) :
    Inv { m with drains := m.drains.insert t ⟨some (m.listed t), m.misses t⟩ } := by
  refine hm.setDrain (hm.drains t d hd) ?_
  rintro r hr hmiss
  obtain rfl := Option.some.inj hr
  have hlisted : ∀ s ∈ m.registry, covers t s.agentId = true →
      (m.listed t).lookup s = some .fresh := fun s hs hcov =>
    Dict.lookup_ofKeys.mpr ⟨List.mem_filter.mpr ⟨hs, hcov⟩, rfl⟩
  refine ⟨fun h hh hcov hq => Or.inl (hlisted _ ?_ hcov), fun s hs hcov =>
    ⟨_, hlisted s (hm.registered s hs) hcov, by decide⟩⟩
  simp only [Manager.misses, List.any_eq_false] at hmiss
  have := hmiss h hh
  simpa [hcov, hq] using this

/-- A round that is decided with success. -/
theorem succeed {m : Manager} (hm : Inv m) {t : String} {d : Drain} {r : Dict Sandbox Look}
    (hd : m.drains.lookup t = some d) (hr : d.round = some r) (hmiss : d.missed = false)
    (hidle : (r.all fun _ look => look == .idle) = true) :
    Inv { m with drains := m.drains.erase t, quiesced := t :: m.quiesced } := by
  have hseen := hm.rounds t d r hd hr hmiss
  have hall := Dict.all_eq_true.mp hidle
  have hrest : Rests m t := by
    refine ⟨fun h hh hcov => ?_, fun s hs => ?_⟩
    · by_contra hq
      rw [Bool.not_eq_true] at hq
      rcases hseen.requests h hh hcov hq with hl | hl
      · exact absurd (hall _ _ hl) (by decide)
      · exact absurd (hall _ _ hl) (by decide)
    · by_contra hcov
      rw [Bool.not_eq_false] at hcov
      obtain ⟨look, hl, hne⟩ := hseen.sessions s hs hcov
      exact absurd (beq_iff_eq.mp (hall _ _ hl)) hne
  refine { hm with drains := ?_, held := ?_, rounds := ?_, rest := ?_ }
  · exact fun t' d' ht' => hm.drains t' d' (Dict.lookup_erase_cases ht').2
  · intro t' ht'
    rcases List.mem_cons.mp ht' with rfl | hold
    · exact hm.drains t' d hd
    · exact hm.held t' hold
  · exact fun t' d' r' ht' hr' hmiss' =>
      (hm.rounds t' d' r' (Dict.lookup_erase_cases ht').2 hr' hmiss').calms
        (Calms.of_frame rfl fun _ h => h)
  · intro t' ht'
    rcases List.mem_cons.mp ht' with rfl | hold
    · exact hrest.calms (Calms.of_frame rfl fun _ h => h)
    · exact (hm.rest t' hold).calms (Calms.of_frame rfl fun _ h => h)

/-- The end of a drain without success. -/
theorem abandon {m : Manager} (hm : Inv m) (t : String) :
    Inv { m with drains := m.drains.erase t } :=
  { hm with
    drains := fun t' d' ht' => hm.drains t' d' (Dict.lookup_erase_cases ht').2
    rounds := fun t' d' r' ht' hr' hmiss' =>
      (hm.rounds t' d' r' (Dict.lookup_erase_cases ht').2 hr' hmiss').calms
        (Calms.of_frame rfl fun _ h => h)
    rest := fun t' ht' => (hm.rest t' ht').calms (Calms.of_frame rfl fun _ h => h) }

/-- The block of a target and its first round. -/
theorem block {m : Manager} (hm : Inv m) (t : String) :
    Inv { m with blocked := t :: m.blocked, drains := m.drains.insert t ⟨none, false⟩ } := by
  have hblocked : Inv { m with blocked := t :: m.blocked } :=
    { hm with
      drains := fun t' d' ht' => List.mem_cons_of_mem _ (hm.drains t' d' ht')
      held := fun t' ht' => List.mem_cons_of_mem _ (hm.held t' ht')
      rounds := fun t' d' r' ht' hr' hmiss' =>
        (hm.rounds t' d' r' ht' hr' hmiss').calms (Calms.of_frame rfl fun _ h => h)
      rest := fun t' ht' => (hm.rest t' ht').calms (Calms.of_frame rfl fun _ h => h) }
  exact hblocked.setDrain (by simp) (by simp)

/-- The block is removed when no action holds the lock of the target. -/
theorem resume {m : Manager} (hm : Inv m) {t : String} (ht : m.drains.lookup t = none) :
    Inv { m with
      blocked := m.blocked.filter (· != t), quiesced := m.quiesced.filter (· != t) } := by
  refine { hm with drains := ?_, held := ?_, rounds := ?_, rest := ?_ }
  · intro t' d' ht'
    have hne : t' ≠ t := by
      rintro rfl
      simp [ht] at ht'
    exact List.mem_filter.mpr ⟨hm.drains t' d' ht', by simpa using hne⟩
  · intro t' ht'
    obtain ⟨hq, hne⟩ := List.mem_filter.mp ht'
    exact List.mem_filter.mpr ⟨hm.held t' hq, hne⟩
  · exact fun t' d' r' ht' hr' hmiss' =>
      (hm.rounds t' d' r' ht' hr' hmiss').calms (Calms.of_frame rfl fun _ h => h)
  · exact fun t' ht' => (hm.rest t' (List.mem_filter.mp ht').1).calms
      (Calms.of_frame rfl fun _ h => h)

end Inv

theorem guard_eq_some {p : Prop} [Decidable p] {u : Unit}
    (h : (guard p : Option Unit) = some u) : p := by
  by_contra hn
  simp [guard, hn] at h

/-- **The step lemma.** Every step that decides no round with a missed request keeps the invariant. -/
theorem step_inv {m m' : Manager} {a : Action} (hm : Inv m) (hC : seesAll m a)
    (hstep : m.step a = some m') : Inv m' := by
  cases a with
  | request e =>
    obtain ⟨p, hp, rfl, hpass⟩ := request_eq_some hstep
    refine hm.of_calms (hm.covered.step hp) (fun h' hh' => ?_) hm.registered rfl rfl rfl
      fun t ht => Calms.of_request hm.streams ht hstep
    rcases mem_step_handlers hp hh' with hold | hnew | ⟨h, hh, q', pc, rfl, ⟨i, _, _, hadv⟩ | hraise⟩
    · exact hm.streams h' hold
    · simp [Handler.streams, hnew]
    · exact advance_streams (hm.streams h hh) hadv
    · exact raise_streams hraise
  | register i =>
    simp only [Manager.step, Option.bind_eq_bind, Option.bind_eq_some_iff] at hstep
    obtain ⟨h, _, _, _, hm'⟩ := hstep
    obtain rfl := Option.some.inj hm'
    exact hm.of_calms hm.covered hm.streams
      (fun s hs => List.mem_cons_of_mem _ (hm.registered s hs)) rfl rfl rfl
      fun t _ => Calms.of_frame rfl fun _ h => h
  | record s =>
    obtain rfl := Option.some.inj hstep
    exact hm.of_calms hm.covered hm.streams
      (fun s hs => List.mem_cons_of_mem _ (hm.registered s hs)) rfl rfl rfl
      fun t _ => Calms.of_frame rfl fun _ h => h
  | forget s =>
    obtain rfl := Option.some.inj hstep
    refine hm.of_calms hm.covered hm.streams (fun s' hs' => ?_) rfl rfl rfl
      fun t _ => Calms.of_frame rfl fun _ h => (List.mem_filter.mp h).1
    obtain ⟨hbusy, hne⟩ := List.mem_filter.mp hs'
    exact List.mem_filter.mpr ⟨hm.registered s' hbusy, hne⟩
  | settle s =>
    obtain rfl := Option.some.inj hstep
    exact hm.of_calms hm.covered hm.streams
      (fun s' hs' => hm.registered s' (List.mem_filter.mp hs').1) rfl rfl rfl
      fun t _ => Calms.of_frame rfl fun _ h => (List.mem_filter.mp h).1
  | occupy i =>
    simp only [Manager.step, Option.bind_eq_bind, Option.bind_eq_some_iff] at hstep
    obtain ⟨h, hi, _, hguard, hm'⟩ := hstep
    obtain rfl := Option.some.inj hm'
    have hg := guard_eq_some hguard
    simp only [Bool.and_eq_true, beq_iff_eq, List.contains_iff_mem] at hg
    refine hm.of_calms hm.covered hm.streams (fun s hs => ?_) rfl rfl rfl fun t _ =>
      ⟨fun h hh _ hq => ⟨h, hh, rfl, hq⟩, fun s hs _ => ?_⟩
    · rcases List.mem_cons.mp hs with rfl | hold
      · exact hg.2
      · exact hm.registered s hold
    · rcases List.mem_cons.mp hs with rfl | hold
      · exact Or.inr ⟨h, List.mem_of_getElem? hi, rfl, by simp [Handler.quiet, hg.1]⟩
      · exact Or.inl hold
  | block t =>
    simp only [Manager.step, Option.bind_eq_bind, Option.bind_eq_some_iff] at hstep
    obtain ⟨_, _, hm'⟩ := hstep
    obtain rfl := Option.some.inj hm'
    exact hm.block t
  | list t =>
    simp only [Manager.step, Option.bind_eq_bind, Option.bind_eq_some_iff] at hstep
    obtain ⟨d, hd, _, _, hm'⟩ := hstep
    obtain rfl := Option.some.inj hm'
    exact hm.list hd
  | check t s =>
    simp only [Manager.step, Option.bind_eq_bind, Option.bind_eq_some_iff] at hstep
    obtain ⟨d, hd, r, hr, _, _, hm'⟩ := hstep
    obtain rfl := Option.some.inj hm'
    exact hm.check hd hr
  | inspect t s known =>
    simp only [Manager.step, Option.bind_eq_bind, Option.bind_eq_some_iff] at hstep
    obtain ⟨d, hd, r, hr, _, hguard, hm'⟩ := hstep
    obtain rfl := Option.some.inj hm'
    exact hm.inspect hd hr (beq_iff_eq.mp (guard_eq_some hguard))
  | decide t =>
    simp only [Manager.step, Option.bind_eq_bind, Option.bind_eq_some_iff] at hstep
    obtain ⟨d, hd, r, hr, _, _, hm'⟩ := hstep
    split at hm'
    · next hsuccess =>
      obtain rfl := Option.some.inj hm'
      simp only [Bool.and_eq_true] at hsuccess
      exact hm.succeed hd hr (hC hsuccess.1 d hd) hsuccess.2
    · obtain rfl := Option.some.inj hm'
      exact hm.setDrain (hm.drains t d hd) (by simp)
  | abandon t =>
    simp only [Manager.step, Option.bind_eq_bind, Option.bind_eq_some_iff] at hstep
    obtain ⟨_, _, hm'⟩ := hstep
    obtain rfl := Option.some.inj hm'
    exact hm.abandon t
  | resume t =>
    simp only [Manager.step, Option.bind_eq_bind, Option.bind_eq_some_iff] at hstep
    obtain ⟨_, hguard, hm'⟩ := hstep
    obtain rfl := Option.some.inj hm'
    exact hm.resume (by simpa using guard_eq_some hguard)

/-! ## §D The guarantee of a quiesce -/

/-- No request of the target is at work: `acquire` is not past its last check (so none succeeds), what
holds a lease is an event stream and not a mutation, and no session of a registered sandbox is busy. -/
structure AtRest (m : Manager) (t : String) : Prop where
  acquires : ∀ h ∈ m.process.handlers, covers t h.request.agentId = true →
    h.pc ≠ .starting ∧ h.pc ≠ .counted
  leases : ∀ h ∈ m.process.handlers, covers t h.request.agentId = true → h.usesSandbox = true →
    h.request.eventStream = true ∧ h.request.mutation = false
  sessions : ∀ s ∈ m.registry, covers t s.agentId = true → s ∉ m.busy

theorem Inv.atRest {m : Manager} (hm : Inv m) {t : String} (ht : t ∈ m.quiesced) : AtRest m t where
  acquires h hh hcov := by
    have hq := (hm.rest t ht).requests h hh hcov
    constructor
    · rintro hpc
      simp [Handler.quiet, hpc] at hq
    · rintro hpc
      simp [Handler.quiet, hpc] at hq
  leases h hh hcov huse := by
    have hq := (hm.rest t ht).requests h hh hcov
    have hs := hm.streams h hh
    have he : h.request.eventStream = true := by
      obtain ⟨r, current⟩ := h
      cases current
      all_goals simp only [Handler.quiet, Handler.usesSandbox, Bool.false_eq_true] at hq huse
      case subscribed => exact hs
      case streaming => exact hs
      all_goals exact hq
    exact ⟨he, NativeRequest.mutation_of_eventStream he⟩
  sessions s _ hcov hs := by
    have := (hm.rest t ht).sessions s hs
    simp [hcov] at this

/-- **A successful quiesce keeps its target at rest until it is resumed**, in every run in which no
round is decided on zero counters whose listing missed a request. -/
theorem quiesce_keeps_target_at_rest {blocked : List String} {rows : List (Sandbox × Bool)}
    {as : List Action} (hC : admission.Along seesAll (Manager.started blocked rows) as) :
    admission.Throughout (fun m => ∀ t ∈ m.quiesced, AtRest m t)
      (Manager.started blocked rows) as := by
  have hinv : admission.Throughout Inv (Manager.started blocked rows) as :=
    admission.throughout_of_along (fun _ _ _ hm hc hstep => step_inv hm hc hstep)
      (Inv.started blocked rows) hC
  refine Machine.Throughout.imp admission ?_ hinv
  intro m hm t ht
  exact hm.atRest ht

/-- A prompt that is answered at once and worked on in the background. -/
def prompt : NativeRequest := ⟨"a", "alice", .post, ["session", "ses_1", "prompt_async"]⟩

/-- The sandbox of another agent. -/
def other : Sandbox := ⟨"b", "bob"⟩

/-- A prompt creates its sandbox while `*` is drained: the round has listed the registry before the row
is written and looks at the sandbox of agent `b` only; when the looks are in, the prompt has been
answered and its session is busy. -/
def missedRun : List Action :=
  [.request (.arrive prompt), .request (.advance 0), .request (.advance 0), .request (.advance 0),
    .request (.advance 0), .request (.advance 0), .block "*", .list "*", .check "*" other,
    .register 0, .request (.advance 0), .request (.advance 0), .request (.advance 0), .occupy 0,
    .request (.advance 0), .request (.advance 0), .request (.advance 0), .inspect "*" other true,
    .decide "*"]

/-- A drain of all agents succeeds beside a busy session. -/
theorem quiesce_beside_busy_session :
    ¬ ∀ (blocked : List String) (rows : List (Sandbox × Bool)) (as : List Action) (m : Manager),
      admission.run (Manager.started blocked rows) as = some m →
        ∀ t ∈ m.quiesced, AtRest m t := by
  intro hclaim
  have broken : (admission.run (Manager.started [] [(other, false)]) missedRun).all (fun m =>
      !(m.quiesced.contains "*" && m.registry.contains prompt.sandbox
        && m.busy.contains prompt.sandbox)) = false := by decide
  obtain ⟨m, hrun, hm⟩ := admission.exists_run_of_all_eq_false broken
  simp only [Bool.not_eq_false', Bool.and_eq_true, List.contains_iff_mem] at hm
  obtain ⟨⟨hq, hreg⟩, hbusy⟩ := hm
  exact (hclaim _ _ _ m hrun "*" hq).sessions prompt.sandbox hreg (by decide) hbusy

/-- The same prompt before the drain: the round finds its session busy, the next one finds it idle,
and a second prompt is refused until the target is resumed. -/
def seenRun : List Action :=
  [.request (.arrive prompt), .request (.advance 0), .request (.advance 0), .request (.advance 0),
    .request (.advance 0), .request (.advance 0), .register 0, .request (.advance 0),
    .block "a", .list "a", .check "a" prompt.sandbox, .decide "a", .request (.advance 0),
    .request (.advance 0), .occupy 0, .request (.advance 0), .request (.advance 0),
    .request (.advance 0), .list "a", .check "a" prompt.sandbox, .inspect "a" prompt.sandbox true,
    .decide "a", .settle prompt.sandbox, .list "a", .check "a" prompt.sandbox,
    .inspect "a" prompt.sandbox true, .decide "a", .request (.arrive prompt),
    .request (.advance 1), .request (.advance 1), .request (.advance 1), .request (.raise 1)]

theorem quiesce_keeps_target_at_rest_when_seen :
    (admission.run (Manager.started [] []) seenRun).any (fun m => m.quiesced == ["a"]) = true ∧
      admission.Throughout (fun m => ∀ t ∈ m.quiesced, AtRest m t)
        (Manager.started [] []) seenRun :=
  ⟨by decide, quiesce_keeps_target_at_rest (by decide)⟩

end OpencodeCloud.Router
