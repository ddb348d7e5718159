/-
# OpencodeCloud.Router.Balance -- every lease of a native request is undone exactly once

A counter is right when it equals the number of handlers that are in the stretch it counts
(`Balanced`). Every step keeps that, except an exception or a cancellation in one of the stretches
that no `try` protects (`Handler.exposed`): after the lease is counted and before `acquire` is tried,
after `in_use` is counted and before the `try` of the request, and in `_stream_sse` between the
headers and the running response. Such a step leaves a lease behind for good, so the exact condition
under which every lease is undone exactly once is that none of them happens (`counters_balanced`).
-/
import OpencodeCloud.Router.Handler

namespace OpencodeCloud.Router

open OpencodeCloud.Library

/-! ## §A What one handler counts for -/

/-- The counters that a handler is counted in. -/
structure Flags where
  leased : Bool
  acquiring : Bool
  usesSandbox : Bool
  subscribed : Bool

def Handler.flags (h : Handler) : Flags := ⟨h.leased, h.acquiring, h.usesSandbox, h.subscribed⟩

/-- The share in the entry `k'` of a handler that is counted under `k` if `b`. -/
def share {κ : Type} [DecidableEq κ] (b : Bool) (k k' : κ) : Nat := if b = true ∧ k = k' then 1 else 0

section Share

variable {κ : Type} [DecidableEq κ]

@[simp] theorem share_false (k k' : κ) : share false k k' = 0 := by simp [share]

@[simp] theorem share_true (k k' : κ) : share true k k' = if k = k' then 1 else 0 := by
  simp [share]

end Share

/-- The counters hold at least the share of a request with these flags. -/
structure Holds (p : Process) (r : NativeRequest) (f : Flags) : Prop where
  requests : ∀ a, share f.leased r.agentId a ≤ count p.requests a
  acquiring : ∀ a, share f.acquiring r.agentId a ≤ count p.acquiring a
  inUse : ∀ s, share f.usesSandbox r.sandbox s ≤ count p.inUse s
  subscribers : ∀ s, share f.subscribed r.sandbox s ≤ count p.eventSubscribers s

/-- The counters move from `p` to `q` exactly as the flags of the request move from `f` to `f'`. -/
structure Follows (r : NativeRequest) (p q : Process) (f f' : Flags) : Prop where
  requests : ∀ a, count q.requests a + share f.leased r.agentId a =
    count p.requests a + share f'.leased r.agentId a
  acquiring : ∀ a, count q.acquiring a + share f.acquiring r.agentId a =
    count p.acquiring a + share f'.acquiring r.agentId a
  inUse : ∀ s, count q.inUse s + share f.usesSandbox r.sandbox s =
    count p.inUse s + share f'.usesSandbox r.sandbox s
  subscribers : ∀ s, count q.eventSubscribers s + share f.subscribed r.sandbox s =
    count p.eventSubscribers s + share f'.subscribed r.sandbox s
  clean : Clean p.inUse → Clean q.inUse
  handlers : q.handlers = p.handlers

namespace Follows

variable {r : NativeRequest} {p q u : Process} {f f' f'' : Flags}

theorem refl : Follows r p p f f :=
  ⟨fun _ => rfl, fun _ => rfl, fun _ => rfl, fun _ => rfl, id, rfl⟩

theorem trans (h : Follows r p q f f') (h' : Follows r q u f' f'') : Follows r p u f f'' where
  requests a := by have := h.requests a; have := h'.requests a; omega
  acquiring a := by have := h.acquiring a; have := h'.acquiring a; omega
  inUse s := by have := h.inUse s; have := h'.inUse s; omega
  subscribers s := by have := h.subscribers s; have := h'.subscribers s; omega
  clean hc := h'.clean (h.clean hc)
  handlers := h'.handlers.trans h.handlers

/-- What the counters hold for the request they hold afterwards. -/
theorem holds (h : Follows r p q f f') (hp : Holds p r f) : Holds q r f' where
  requests a := by have := h.requests a; have := hp.requests a; omega
  acquiring a := by have := h.acquiring a; have := hp.acquiring a; omega
  inUse s := by have := h.inUse s; have := hp.inUse s; omega
  subscribers s := by have := h.subscribers s; have := hp.subscribers s; omega

end Follows

/-! ## §B The operations on the counters -/

section Operations

variable {r : NativeRequest} {p : Process} {l a u s : Bool}

theorem lease_follows : Follows r p (p.lease r) ⟨false, a, u, s⟩ ⟨r.mutation, a, u, s⟩ := by
  unfold Process.lease
  split
  · next hm => exact { Follows.refl with requests := fun k => by simp [count_increment, hm] }
  · next hm => rw [Bool.not_eq_true] at hm; rw [hm]; exact Follows.refl

theorem unlease_follows (h : Holds p r ⟨r.mutation, a, u, s⟩) :
    Follows r p (p.unlease r) ⟨r.mutation, a, u, s⟩ ⟨false, a, u, s⟩ := by
  unfold Process.unlease
  split
  · next hm =>
    refine { Follows.refl with requests := fun k => ?_ }
    have := h.requests k
    simp only [hm, share_true] at this
    simp only [count_decrement, hm, share_true, share_false]
    omega
  · next hm => rw [Bool.not_eq_true] at hm; rw [hm]; exact Follows.refl

theorem startAcquiring_follows :
    Follows r p (p.startAcquiring r) ⟨l, false, u, s⟩ ⟨l, true, u, s⟩ :=
  { Follows.refl with acquiring := fun k => by simp [Process.startAcquiring, count_increment] }

theorem stopAcquiring_follows (h : Holds p r ⟨l, true, u, s⟩) :
    Follows r p (p.stopAcquiring r) ⟨l, true, u, s⟩ ⟨l, false, u, s⟩ := by
  refine { Follows.refl with acquiring := fun k => ?_ }
  have := h.acquiring k
  simp only [share_true] at this
  simp only [Process.stopAcquiring, count_decrement, share_true, share_false]
  omega

theorem take_follows : Follows r p (p.take r) ⟨l, a, false, s⟩ ⟨l, a, true, s⟩ :=
  { Follows.refl with
    inUse := fun k => by simp [Process.take, count_increment]
    clean := fun hc => hc.increment _ }

theorem drop_follows (h : Holds p r ⟨l, a, true, s⟩) :
    Follows r p (p.drop r) ⟨l, a, true, s⟩ ⟨l, a, false, s⟩ := by
  refine { Follows.refl with inUse := fun k => ?_, clean := fun hc => hc.drop _ }
  have := h.inUse k
  simp only [share_true] at this
  simp only [Process.drop, count_drop, share_true, share_false]
  omega

theorem subscribe_follows : Follows r p (p.subscribe r) ⟨l, a, u, false⟩ ⟨l, a, u, true⟩ :=
  { Follows.refl with subscribers := fun k => by simp [Process.subscribe, count_increment] }

theorem unsubscribe_follows (h : Holds p r ⟨l, a, u, true⟩) :
    Follows r p (p.unsubscribe r) ⟨l, a, u, true⟩ ⟨l, a, u, false⟩ := by
  refine { Follows.refl with subscribers := fun k => ?_ }
  have := h.subscribers k
  simp only [share_true] at this
  simp only [Process.unsubscribe, count_drop, share_true, share_false]
  omega

theorem unlease_inUse : (p.unlease r).inUse = p.inUse := by
  unfold Process.unlease
  split <;> rfl

end Operations

/-! ## §C One step of one handler -/

/-- The counters follow a handler that leaves its stretch at the end. -/
theorem advance_follows {p q : Process} {h : Handler} {pc : Pc} (hp : Holds p h.request h.flags)
    (hstep : p.advance h = some (q, pc)) : Follows h.request p q h.flags (h.goto pc).flags := by
  obtain ⟨r, current⟩ := h
  cases current
  case releasing =>
    simp only [Process.advance] at hstep
    split at hstep
    all_goals obtain ⟨rfl, rfl⟩ := Prod.mk.inj (Option.some.inj hstep)
    · exact drop_follows hp
    · exact Follows.refl
  case acquired =>
    obtain ⟨rfl, rfl⟩ := Prod.mk.inj (Option.some.inj hstep)
    cases he : r.eventStream with
    | false => exact Follows.refl
    | true =>
      have hm := NativeRequest.mutation_of_eventStream he
      simp only [if_pos, Handler.flags, Handler.leased, Handler.goto, hm]
      exact Follows.refl
  case done => exact absurd hstep (by simp [Process.advance])
  all_goals obtain ⟨rfl, rfl⟩ := Prod.mk.inj (Option.some.inj hstep)
  case received => exact lease_follows
  case admitted => exact startAcquiring_follows
  case starting => exact take_follows
  case counted => exact stopAcquiring_follows hp
  case opening => exact subscribe_follows
  case streaming => exact unsubscribe_follows hp
  case plain => exact unlease_follows hp
  case touching => exact drop_follows hp
  all_goals exact Follows.refl

/-- A step of a handler leaves the list of handlers alone. -/
theorem advance_handlers {p q : Process} {h : Handler} {pc : Pc}
    (hstep : p.advance h = some (q, pc)) : q.handlers = p.handlers := by
  obtain ⟨r, current⟩ := h
  cases current
  case releasing =>
    simp only [Process.advance] at hstep
    split at hstep
    all_goals obtain ⟨rfl, rfl⟩ := Prod.mk.inj (Option.some.inj hstep)
    all_goals rfl
  case done => exact absurd hstep (by simp [Process.advance])
  all_goals obtain ⟨rfl, rfl⟩ := Prod.mk.inj (Option.some.inj hstep)
  case received => exact lease_follows (a := false) (u := false) (s := false) |>.handlers
  case plain => unfold Process.unlease; split <;> rfl
  all_goals rfl

/-- The counters follow a handler that an exception takes out of a protected stretch. -/
theorem raise_follows {p q : Process} {h : Handler} {pc : Pc} (hp : Holds p h.request h.flags)
    (hsafe : h.exposed = false) (hstep : p.raise h = some (q, pc)) :
    Follows h.request p q h.flags (h.goto pc).flags := by
  obtain ⟨r, current⟩ := h
  -- the lease first, then `acquiring`: the order of `except` and `finally`
  have both : ∀ {l' : Flags}, l' = ⟨r.mutation, true, false, false⟩ → Holds p r l' →
      Follows r p ((p.unlease r).stopAcquiring r) l' ⟨false, false, false, false⟩ := by
    rintro l' rfl hp
    have hlease : Follows r p (p.unlease r) ⟨r.mutation, true, false, false⟩
        ⟨false, true, false, false⟩ := unlease_follows hp
    exact hlease.trans (stopAcquiring_follows (hlease.holds hp))
  cases current
  case releasing => exact absurd hstep (by simp [Process.raise])
  case done => exact absurd hstep (by simp [Process.raise])
  case counted => exact absurd hsafe (by simp [Handler.exposed])
  case acquired => exact absurd hsafe (by simp [Handler.exposed])
  case opening => exact absurd hsafe (by simp [Handler.exposed])
  case subscribed => exact absurd hsafe (by simp [Handler.exposed])
  all_goals obtain ⟨rfl, rfl⟩ := Prod.mk.inj (Option.some.inj hstep)
  case admitted =>
    simp only [Handler.exposed] at hsafe
    simp only [Handler.flags, Handler.leased, Handler.goto, hsafe]
    exact Follows.refl
  case checking => exact both rfl hp
  case locking => exact both rfl hp
  case resources => exact both rfl hp
  case starting => exact both rfl hp
  case streaming => exact unsubscribe_follows hp
  case plain => exact unlease_follows hp
  case touching => exact drop_follows hp
  all_goals exact Follows.refl

/-- What an exception leaves alone. -/
theorem raise_frame {p q : Process} {h : Handler} {pc : Pc} (hstep : p.raise h = some (q, pc)) :
    q.handlers = p.handlers ∧ (Clean p.inUse → Clean q.inUse) := by
  obtain ⟨r, current⟩ := h
  have hunlease : (p.unlease r).handlers = p.handlers := by
    unfold Process.unlease
    split <;> rfl
  have hclean : Clean p.inUse → Clean (p.unlease r).inUse := by
    rw [unlease_inUse]
    exact id
  cases current
  case releasing => exact absurd hstep (by simp [Process.raise])
  case done => exact absurd hstep (by simp [Process.raise])
  all_goals obtain ⟨rfl, rfl⟩ := Prod.mk.inj (Option.some.inj hstep)
  case checking => exact ⟨hunlease, hclean⟩
  case locking => exact ⟨hunlease, hclean⟩
  case resources => exact ⟨hunlease, hclean⟩
  case starting => exact ⟨hunlease, hclean⟩
  case counted => exact ⟨hunlease, hclean⟩
  case plain => exact ⟨hunlease, hclean⟩
  case touching => exact ⟨rfl, fun hc => hc.drop _⟩
  all_goals exact ⟨rfl, id⟩

/-- After an exception in an unprotected stretch some counter still counts the handler. -/
theorem raise_exposed_leaks {p q : Process} {h : Handler} {pc : Pc} (hexposed : h.exposed = true)
    (hstep : p.raise h = some (q, pc)) : ¬ Follows h.request p q h.flags (h.goto pc).flags := by
  obtain ⟨r, current⟩ := h
  intro hf
  have hreq := hf.requests r.agentId
  have huse := hf.inUse r.sandbox
  cases current
  case admitted =>
    obtain ⟨rfl, rfl⟩ := Prod.mk.inj (Option.some.inj hstep)
    simp only [Handler.exposed] at hexposed
    simp [Handler.flags, Handler.leased, Handler.goto, hexposed] at hreq
  case counted =>
    obtain ⟨rfl, rfl⟩ := Prod.mk.inj (Option.some.inj hstep)
    simp [Handler.flags, Handler.usesSandbox, Handler.goto, Process.stopAcquiring,
      unlease_inUse] at huse
  case acquired =>
    obtain ⟨rfl, rfl⟩ := Prod.mk.inj (Option.some.inj hstep)
    simp [Handler.flags, Handler.usesSandbox, Handler.goto] at huse
  case opening =>
    obtain ⟨rfl, rfl⟩ := Prod.mk.inj (Option.some.inj hstep)
    simp [Handler.flags, Handler.usesSandbox, Handler.goto] at huse
  case subscribed =>
    obtain ⟨rfl, rfl⟩ := Prod.mk.inj (Option.some.inj hstep)
    simp [Handler.flags, Handler.usesSandbox, Handler.goto] at huse
  all_goals simp [Handler.exposed] at hexposed

/-! ## §D The counters and all handlers -/

namespace Handler

/-- What the handler counts for in `requests[a]`. -/
def leaseOn (a : String) (h : Handler) : Nat := share h.flags.leased h.request.agentId a

/-- What the handler counts for in `acquiring[a]`. -/
def acquiringOn (a : String) (h : Handler) : Nat := share h.flags.acquiring h.request.agentId a

/-- What the handler counts for in `in_use[s]`. -/
def useOf (s : Sandbox) (h : Handler) : Nat := share h.flags.usesSandbox h.request.sandbox s

/-- What the handler counts for in `event_subscribers[s]`. -/
def subscriptionOf (s : Sandbox) (h : Handler) : Nat := share h.flags.subscribed h.request.sandbox s

end Handler

/-- Every counter is the number of handlers in the stretch it counts. -/
structure Balanced (p : Process) : Prop where
  requests : ∀ a, count p.requests a = tally (Handler.leaseOn a) p.handlers
  acquiring : ∀ a, count p.acquiring a = tally (Handler.acquiringOn a) p.handlers
  inUse : ∀ s, count p.inUse s = tally (Handler.useOf s) p.handlers
  subscribers : ∀ s, count p.eventSubscribers s = tally (Handler.subscriptionOf s) p.handlers
  clean : Clean p.inUse

namespace Balanced

theorem initial : Balanced Process.initial where
  requests a := by simp [Process.initial]
  acquiring a := by simp [Process.initial]
  inUse s := by simp [Process.initial]
  subscribers s := by simp [Process.initial]
  clean := clean_empty

theorem holds {p : Process} (hp : Balanced p) {i : Nat} {h : Handler}
    (hi : p.handlers[i]? = some h) : Holds p h.request h.flags where
  requests a := by
    rw [hp.requests]; exact le_tally (f := Handler.leaseOn a) (List.mem_of_getElem? hi)
  acquiring a := by
    rw [hp.acquiring]; exact le_tally (f := Handler.acquiringOn a) (List.mem_of_getElem? hi)
  inUse s := by
    rw [hp.inUse]; exact le_tally (f := Handler.useOf s) (List.mem_of_getElem? hi)
  subscribers s := by
    rw [hp.subscribers]; exact le_tally (f := Handler.subscriptionOf s) (List.mem_of_getElem? hi)

/-- A step of one handler keeps the balance exactly when the counters follow the handler. -/
theorem step_iff {p q : Process} (hp : Balanced p) {i : Nat} {h : Handler} {pc : Pc}
    (hi : p.handlers[i]? = some h) (hh : q.handlers = p.handlers)
    (hc : Clean p.inUse → Clean q.inUse) :
    Balanced (Process.withHandler i h (q, pc)) ↔ Follows h.request p q h.flags (h.goto pc).flags := by
  have hset : ∀ f : Handler → Nat,
      tally f (p.handlers.set i (h.goto pc)) + f h = tally f p.handlers + f (h.goto pc) :=
    fun f => tally_set hi
  constructor
  · intro hb
    have hreq := hb.requests
    have hacq := hb.acquiring
    have huse := hb.inUse
    have hsub := hb.subscribers
    simp only [Process.withHandler, hh] at hreq hacq huse hsub
    refine ⟨fun a => ?_, fun a => ?_, fun s => ?_, fun s => ?_, hc, hh⟩
    · rw [hreq a, hp.requests]; exact hset (Handler.leaseOn a)
    · rw [hacq a, hp.acquiring]; exact hset (Handler.acquiringOn a)
    · rw [huse s, hp.inUse]; exact hset (Handler.useOf s)
    · rw [hsub s, hp.subscribers]; exact hset (Handler.subscriptionOf s)
  · intro hf
    refine ⟨fun a => ?_, fun a => ?_, fun s => ?_, fun s => ?_, hc hp.clean⟩
    all_goals simp only [Process.withHandler, hh]
    · have h1 : _ + h.leaseOn a = _ + (h.goto pc).leaseOn a := hf.requests a
      have h2 := hset (Handler.leaseOn a)
      rw [hp.requests] at h1
      omega
    · have h1 : _ + h.acquiringOn a = _ + (h.goto pc).acquiringOn a := hf.acquiring a
      have h2 := hset (Handler.acquiringOn a)
      rw [hp.acquiring] at h1
      omega
    · have h1 : _ + h.useOf s = _ + (h.goto pc).useOf s := hf.inUse s
      have h2 := hset (Handler.useOf s)
      rw [hp.inUse] at h1
      omega
    · have h1 : _ + h.subscriptionOf s = _ + (h.goto pc).subscriptionOf s := hf.subscribers s
      have h2 := hset (Handler.subscriptionOf s)
      rw [hp.subscribers] at h1
      omega

/-- An arriving request is counted nowhere yet. -/
theorem arrive {p : Process} (hp : Balanced p) (r : NativeRequest) :
    Balanced { p with handlers := p.handlers ++ [⟨r, .received⟩] } where
  requests a := by
    simp [hp.requests, Handler.leaseOn, Handler.flags, Handler.leased]
  acquiring a := by
    simp [hp.acquiring, Handler.acquiringOn, Handler.flags, Handler.acquiring]
  inUse s := by
    simp [hp.inUse, Handler.useOf, Handler.flags, Handler.usesSandbox]
  subscribers s := by
    simp [hp.subscribers, Handler.subscriptionOf, Handler.flags, Handler.subscribed]
  clean := hp.clean

end Balanced

/-! ## §E Runs -/

/-- No exception and no cancellation in an unprotected stretch. -/
def sparesExposed (p : Process) : Event → Prop
  | .raise i => ∀ h ∈ p.handlers[i]?, h.exposed = false
  | _ => True

instance (p : Process) (e : Event) : Decidable (sparesExposed p e) := by
  cases e <;> unfold sparesExposed <;> infer_instance

theorem step_balanced_iff {p q : Process} {e : Event} (hp : Balanced p)
    (hstep : p.step e = some q) : Balanced q ↔ sparesExposed p e := by
  cases e with
  | arrive r =>
    obtain rfl := Option.some.inj hstep
    exact ⟨fun _ => trivial, fun _ => hp.arrive r⟩
  | advance i =>
    obtain ⟨h, hi, ⟨q', pc⟩, hadv, rfl⟩ := advance_eq_some hstep
    have hf := advance_follows (hp.holds hi) hadv
    exact ⟨fun _ => trivial, fun _ => (hp.step_iff hi hf.handlers hf.clean).mpr hf⟩
  | raise i =>
    obtain ⟨h, hi, ⟨q', pc⟩, hraise, rfl⟩ := raise_eq_some hstep
    simp only [sparesExposed, hi, Option.mem_def, Option.some.injEq, forall_eq']
    cases hx : h.exposed with
    | false =>
      have hf := raise_follows (hp.holds hi) hx hraise
      exact ⟨fun _ => rfl, fun _ => (hp.step_iff hi hf.handlers hf.clean).mpr hf⟩
    | true =>
      have hframe := raise_frame hraise
      refine ⟨fun hq => absurd ?_ (raise_exposed_leaks hx hraise), fun h => by simp at h⟩
      exact (hp.step_iff hi hframe.1 hframe.2).mp hq

/-- What a process without requests in flight must look like. -/
def Process.Quiet (p : Process) : Prop :=
  p.inUse = ∅ ∧ (∀ a, count p.requests a = 0) ∧ ∀ a, count p.acquiring a = 0

/-- A balanced process with no request in flight is quiet. -/
theorem Balanced.quiet {p : Process} (hp : Balanced p) (hdone : ∀ h ∈ p.handlers, h.pc = .done) :
    p.Quiet := by
  refine ⟨hp.clean.eq_empty fun s => ?_, fun a => ?_, fun a => ?_⟩
  · rw [hp.inUse]
    exact tally_eq_zero fun h hh => by
      simp [Handler.useOf, Handler.flags, Handler.usesSandbox, hdone h hh]
  · rw [hp.requests]
    exact tally_eq_zero fun h hh => by
      simp [Handler.leaseOn, Handler.flags, Handler.leased, hdone h hh]
  · rw [hp.acquiring]
    exact tally_eq_zero fun h hh => by
      simp [Handler.acquiringOn, Handler.flags, Handler.acquiring, hdone h hh]

/-- **Every lease is undone exactly once, exactly when no exception hits an unprotected stretch.** In
every run, the counters equal the number of handlers in the stretches they count in all states the
run passes if and only if no step of the run is an exception or a cancellation in an unprotected
stretch; and then a state without requests in flight has `in_use` empty and `requests` and
`acquiring` at zero. -/
theorem counters_balanced {es : List Event} {p : Process}
    (hrun : router.run Process.initial es = some p) :
    (router.Throughout Balanced Process.initial es ↔
      router.Along sparesExposed Process.initial es) ∧
    (router.Along sparesExposed Process.initial es →
      router.Throughout (fun p => (∀ h ∈ p.handlers, h.pc = .done) → p.Quiet) Process.initial es) := by
  have hiff : router.Throughout Balanced Process.initial es ↔
      router.Along sparesExposed Process.initial es :=
    router.throughout_iff_along (fun _ _ _ hp hstep => step_balanced_iff hp hstep) Balanced.initial
      hrun
  refine ⟨hiff, fun hC => ?_⟩
  exact Machine.Throughout.imp router (fun _ hp => hp.quiet) (hiff.mpr hC)

/-- A request for the events of the session whose id is a NUL byte; the HTTP client refuses the URL. -/
def invalidUrl : NativeRequest :=
  ⟨"agent", "user", .get, ["api", "session", "\x00", "event"]⟩

/-- The request is admitted and gets its sandbox; `build_request` raises before the `try`. -/
def invalidUrlRun : List Event :=
  [.arrive invalidUrl, .advance 0, .advance 0, .advance 0, .advance 0, .advance 0, .advance 0,
    .advance 0, .raise 0]

/-- After a request whose URL the client refuses, its sandbox stays in use for good. -/
theorem in_use_leaks_on_invalid_url :
    ¬ ∀ (es : List Event) (p : Process), router.run Process.initial es = some p →
      router.Throughout Balanced Process.initial es ∧
      ((∀ h ∈ p.handlers, h.pc = .done) → p.Quiet) := by
  intro hclaim
  have leaked : (router.run Process.initial invalidUrlRun).all (fun p =>
      !(p.handlers.all fun h => h.pc == .done) || p.inUse.entries.isEmpty) = false := by decide
  obtain ⟨p, hrun, hp⟩ := router.exists_run_of_all_eq_false leaked
  simp only [Bool.or_eq_false_iff, Bool.not_eq_false', List.all_eq_true, beq_iff_eq] at hp
  have hquiet := (hclaim invalidUrlRun p hrun).2 hp.1
  rw [hquiet.1] at hp
  exact absurd hp.2 (by decide)

/-- A message that runs to its end beside an event stream that is cancelled while it streams. -/
def servedRun : List Event :=
  [.arrive ⟨"agent", "user", .post, ["session", "ses_1", "message"]⟩,
    .arrive ⟨"agent", "user", .get, ["event"]⟩,
    .advance 0, .advance 1, .advance 0, .advance 1, .advance 0, .advance 0, .advance 0, .advance 0,
    .advance 0, .advance 0, .advance 1, .advance 1, .advance 1, .advance 1, .advance 1, .advance 1,
    .advance 1, .advance 1, .advance 1, .raise 1, .raise 0, .advance 0, .advance 1, .advance 1]

theorem counters_balanced_when_served :
    router.Throughout Balanced Process.initial servedRun := by
  cases hrun : router.run Process.initial servedRun with
  | none => exact absurd hrun (by decide)
  | some p => exact (counters_balanced hrun).1.mpr (by decide)

end OpencodeCloud.Router
