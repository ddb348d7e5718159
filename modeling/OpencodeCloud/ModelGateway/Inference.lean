/-
# OpencodeCloud.ModelGateway.Inference -- a request between two readings of the configuration

`inference` takes the router, waits for the body of the request, and then takes the headers that are
configured for the model out of the active release. Activations and rollbacks run in threads of their
own: each of them stores `previous`, `active` and `router` one after another, and a request can read
between any two of these stores.

So the router and the headers need not be of one release (`headers_of_another_release`). **They are** when
no request takes its router in the middle of an activation and none waits for its body while another
release becomes active (`headers_of_router`).
-/
import OpencodeCloud.Library.Dict
import OpencodeCloud.ModelGateway.Activation

namespace OpencodeCloud.ModelGateway

open OpencodeCloud.Library OpencodeCloud.Library.Checked

/-! ## The headers of a request -/

abbrev Headers : Type := Dict String Json

/-- A value that `{**value}` unpacks. -/
def asHeaders : Json → Checked Headers
  | .object fields => .ok (fields.foldr (fun f d => d.insert f.1 f.2) ∅)
  | _ => .error .other

/-- `state.active["configuration"]["model_list"] if state.active else []`. -/
def modelList (active : Json) : Checked (List Json) :=
  if active.truthy then do
    match ← subscript (← subscript active "configuration") "model_list" with
    | .array entries => return entries
    | _ => .error .other
  else return []

/-- The headers of the first entry of a model. -/
def configuredHeaders (model : String) : List Json → Checked Json
  | [] => .ok (.object [])
  | entry :: entries => do
    if (← subscript entry "model_name").same (.string model) then
      return ((← subscript entry "litellm_params").get? "extra_headers").getD (.object [])
    else configuredHeaders model entries

/-- `c.isalnum()`, for a character of a header. -/
def alphanumeric (c : Char) : Bool :=
  c.isAlphanum || [0xAA, 0xB2, 0xB3, 0xB5, 0xB9, 0xBA, 0xBC, 0xBD, 0xBE].contains c.toNat ||
    (0xC0 ≤ c.toNat && c.toNat ≤ 0xFF && c.toNat != 0xD7 && c.toNat != 0xF7)

/-- A correlation id that is passed on. -/
def passedOn (value : String) : Bool :=
  value != "" && value.length ≤ 128 &&
    value.toList.all fun c => alphanumeric c || "_.:-".toList.contains c

/-- A request whose body has arrived: what `inference` reads of it and of the trace it belongs to. -/
structure Incoming where
  body : Json
  traceId : Option String
  spanId : Option String
  sessionId : Option String
  messageId : Option String

namespace Incoming

/-- `payload["model"]`. -/
def model (r : Incoming) : Checked String :=
  match r.body.get? "model" with
  | some (.string model) => .ok model
  | _ => raise 422 "model is required"

/-- One more header. -/
def addCorrelation (headers : Headers) (name : String) (value : Option String) : Headers :=
  match value.filter passedOn with
  | some v => headers.insert name (.string v)
  | none => headers

/-- The headers that the request sets itself: they go over the configured ones. -/
def ownHeaders (r : Incoming) : Checked Headers := do
  let given := (r.body.get? "extra_headers").getD .null
  let headers ← if given.truthy then asHeaders given else .ok ∅
  let traced : Headers :=
    match r.traceId, r.spanId with
    | some trace, some span =>
      if trace != "" && span != "" then
        headers.insert "traceparent" (.string ("00-" ++ trace ++ "-" ++ span ++ "-01"))
      else headers
    | _, _ => headers
  return addCorrelation (addCorrelation traced "x-cloud-session-id" r.sessionId) "x-cloud-message-id"
    r.messageId

/-- The argument `extra_headers` of the call of the router, if it gets one. -/
def extraHeaders (r : Incoming) (active : Json) : Checked (Option Headers) := do
  let model ← r.model
  let configured ← asHeaders (← configuredHeaders model (← modelList active))
  let headers := (← r.ownHeaders).union configured
  if headers.entries.isEmpty then return (r.body.get? "extra_headers").map fun _ => ∅
  else return some headers

end Incoming

/-! ## Threads and requests -/

inductive Assignment
  | previous (value : Json)
  | active (value : Json)
  | router (value : Router)

/-- An activation or a rollback in its thread. -/
inductive Call
  /-- the new release is persisted -/
  | activating (release : Json) (router : Router)
  | reversing (router : Router)
  | assigning (todo : List Assignment)
  | over

/-- An inference request. -/
inductive Inference
  /-- it has its router and waits for its body -/
  | reading (router : Router)
  /-- the router is called; `active` is what the headers were taken from -/
  | called (router : Router) (active : Json) (headers : Option Headers)
  | refused

/-- The attributes of the gateway, the threads, and the requests. -/
structure Traffic where
  memory : GatewayState
  calls : List Call
  /-- the call for which the lock is held -/
  holder : Option Nat
  requests : List Inference

inductive TrafficEvent
  /-- a call takes the lock, reads the active release and builds its router -/
  | begin (request : Request) (fails : Bool)
  /-- the file is written and the right-hand side of the assignment is read -/
  | load (k : Nat)
  /-- the thread ends with an exception -/
  | fail (k : Nat)
  /-- the next attribute is stored -/
  | store (k : Nat)
  /-- the request for the call is cancelled; its thread goes on -/
  | abandon
  /-- an inference request arrives -/
  | arrive
  | body (i : Nat) (r : Incoming)

namespace GatewayState

def assign (g : GatewayState) : Assignment → GatewayState
  | .previous value => { g with previous := value }
  | .active value => { g with active := value }
  | .router value => { g with router := some value }

/-- The thread of a call, after it has read the state; a call that has nothing to do is over. -/
def begins (g : GatewayState) (fails : Bool) : Request → Call
  | .activate payload =>
    match g.activation fails payload with
    | .ok (some new) => new.router.elim .over (.activating payload)
    | _ => .over
  | .rollback releaseId =>
    match g.reversal fails releaseId with
    | .ok new => new.router.elim .over .reversing
    | .error _ => .over

end GatewayState

namespace Traffic

/-- A service that has just started. -/
def initial (g : GatewayState) : Traffic := ⟨g, [], none, []⟩

/-- What the right-hand side of the assignment evaluates to. -/
def assignments (g : GatewayState) : Call → Option (List Assignment)
  | .activating release router => some [.previous g.active, .active release, .router router]
  | .reversing router => some [.active g.previous, .previous .null, .router router]
  | _ => none

/-- The call is over; if the lock is held for it, it is given back. -/
def finish (t : Traffic) (k : Nat) : Traffic :=
  { t with calls := t.calls.set k .over, holder := if t.holder = some k then none else t.holder }

def step (t : Traffic) : TrafficEvent → Option Traffic
  | .begin request fails =>
    if t.holder.isSome then none
    else
      match t.memory.begins fails request with
      | .over => some t
      | call => some { t with calls := t.calls ++ [call], holder := some t.calls.length }
  | .load k => do
    let todo ← assignments t.memory (← t.calls[k]?)
    return { t with calls := t.calls.set k (.assigning todo) }
  | .fail k =>
    match t.calls[k]? with
    | some (.activating _ _) | some (.reversing _) => some (t.finish k)
    | _ => none
  | .store k =>
    match t.calls[k]? with
    | some (.assigning [a]) => some ({ t with memory := t.memory.assign a }.finish k)
    | some (.assigning (a :: todo)) =>
      some { t with memory := t.memory.assign a, calls := t.calls.set k (.assigning todo) }
    | _ => none
  | .abandon => if t.holder.isSome then some { t with holder := none } else none
  | .arrive =>
    match t.memory.router with
    | some router => some { t with requests := t.requests ++ [.reading router] }
    | none => some { t with requests := t.requests ++ [.refused] }
  | .body i r =>
    match t.requests[i]? with
    | some (.reading router) =>
      match r.extraHeaders t.memory.active with
      | .ok headers =>
        some { t with requests := t.requests.set i (.called router t.memory.active headers) }
      | .error _ => some { t with requests := t.requests.set i .refused }
    | _ => none

end Traffic

/-- The gateway, with its calls in threads. -/
def traffic : Machine Traffic TrafficEvent := ⟨Traffic.step⟩

/-! ## One release -/

/-- The router is the one that is built for this release. -/
def Builds (release : Json) (router : Router) : Prop :=
  ∃ config, release.get? "configuration" = some config ∧ Router.ofConfiguration config = .ok router

theorem Builds.unique {release : Json} {r r' : Router} (h : Builds release r)
    (h' : Builds release r') : r = r' := by
  obtain ⟨config, hconfig, hr⟩ := h
  obtain ⟨config', hconfig', hr'⟩ := h'
  obtain rfl : config = config' := Option.some.inj (hconfig.symm.trans hconfig')
  exact Except.ok.inj (hr.symm.trans hr')

/-- The router a request was called on belongs to the release its headers were taken from. -/
def Inference.SameRelease : Inference → Prop
  | .called router active _ => Builds active router
  | _ => True

def Traffic.SameRelease (t : Traffic) : Prop :=
  ∀ (i : Nat) (q : Inference), t.requests[i]? = some q → q.SameRelease

namespace Assignment

def isActive : Assignment → Bool
  | .active _ => true
  | _ => false

end Assignment

namespace Call

def isOver : Call → Bool
  | .over => true
  | _ => false

/-- The active release is the new one, the router still the old one. -/
def torn : Call → Bool
  | .assigning todo => !todo.any Assignment.isActive
  | _ => false

/-- The next store is that of the active release. -/
def replaces : Call → Bool
  | .assigning (a :: _) => a.isActive
  | _ => false

end Call

def Inference.isReading : Inference → Bool
  | .reading _ => true
  | _ => false

/-- A step that mixes no releases: a call begins when the one before it is over in its thread too, the
active release is replaced while no request waits for its body, and a request takes its router when no
call has replaced the active release and not the router yet. -/
def Traffic.Apart (t : Traffic) : TrafficEvent → Prop
  | .begin _ _ => t.calls.all Call.isOver = true
  | .store k => (t.calls[k]?).any Call.replaces = true → t.requests.all (!·.isReading) = true
  | .arrive => t.calls.all (!·.torn) = true
  | _ => True

instance (t : Traffic) : ∀ e, Decidable (t.Apart e)
  | .begin _ _ => inferInstanceAs (Decidable (_ = true))
  | .store _ => inferInstanceAs (Decidable (_ → _))
  | .arrive => inferInstanceAs (Decidable (_ = true))
  | .load _ | .fail _ | .abandon | .body _ _ => inferInstanceAs (Decidable True)

/-! ## What a call in progress knows -/

/-- A call that is in progress over this memory: what is left to store fits together, and fits what is
stored already. -/
inductive Call.Fits (g : GatewayState) : Call → Prop
  | activating {release : Json} {router : Router} :
      Builds release router → Fits g (.activating release router)
  | reversing {router : Router} : Builds g.previous router → Fits g (.reversing router)
  | activates {previous release : Json} {router : Router} :
      Builds release router → Fits g (.assigning [.previous previous, .active release, .router router])
  | activates' {release : Json} {router : Router} :
      Builds release router → Fits g (.assigning [.active release, .router router])
  | reverts {release : Json} {router : Router} :
      Builds release router → Fits g (.assigning [.active release, .previous .null, .router router])
  | reverts' {router : Router} :
      Builds g.active router → Fits g (.assigning [.previous .null, .router router])
  | last {router : Router} : Builds g.active router → Fits g (.assigning [.router router])
  | over : Fits g .over

/-- The invariant of a gateway whose steps mix no releases. -/
structure Traffic.Coherent (t : Traffic) : Prop where
  /-- One call is in progress at most. -/
  single : ∀ (j k : Nat) (c d : Call), t.calls[j]? = some c → t.calls[k]? = some d →
    c.isOver = false → d.isOver = false → j = k
  fits : ∀ (k : Nat) (c : Call), t.calls[k]? = some c → c.Fits t.memory
  /-- The router is that of the active release, while no call is between the two stores. -/
  built : ∀ router, t.memory.router = some router →
    (∀ (k : Nat) (c : Call), t.calls[k]? = some c → c.torn = false) → Builds t.memory.active router
  reading : ∀ (i : Nat) router, t.requests[i]? = some (.reading router) →
    Builds t.memory.active router
  same : t.SameRelease

namespace Traffic.Coherent

variable {t u : Traffic}

/-- Another call than the one in progress is over. -/
theorem others_over (h : t.Coherent) {k : Nat} {c : Call} (hk : t.calls[k]? = some c)
    (hc : c.isOver = false) {j : Nat} {d : Call} (hj : t.calls[j]? = some d) (hne : j ≠ k) :
    d = .over := by
  cases hd : d.isOver with
  | false => exact absurd (h.single j k d c hj hk hd hc) hne
  | true => cases d <;> first | rfl | simp [Call.isOver] at hd

/-- While the call in progress is not between its two stores, none is. -/
theorem not_torn (h : t.Coherent) {k : Nat} {c : Call} (hk : t.calls[k]? = some c)
    (hc : c.isOver = false) (hwhole : c.torn = false) {j : Nat} {d : Call}
    (hj : t.calls[j]? = some d) : d.torn = false := by
  by_cases hne : j = k
  · subst hne
    obtain rfl : c = d := Option.some.inj (hk.symm.trans hj)
    exact hwhole
  · rw [h.others_over hk hc hj hne]
    rfl

/-- The call in progress makes a step, over a memory that it may have changed. -/
theorem replace (h : t.Coherent) {k : Nat} {c d : Call} {g : GatewayState} {holder : Option Nat}
    (hk : t.calls[k]? = some c) (hc : c.isOver = false) (hd : d.Fits g)
    (hbuilt : ∀ router, g.router = some router → d.torn = false → Builds g.active router)
    (hreading : g.active = t.memory.active ∨ t.requests.all (!·.isReading) = true) :
    Coherent ⟨g, t.calls.set k d, holder, t.requests⟩ := by
  have hlt : k < t.calls.length := (List.getElem?_eq_some_iff.mp hk).1
  have hset : ∀ {j : Nat} {e : Call}, (t.calls.set k d)[j]? = some e →
      (j = k ∧ e = d) ∨ (j ≠ k ∧ e = .over) := by
    intro j e hj
    by_cases hne : j = k
    · subst hne
      rw [List.getElem?_set_self hlt] at hj
      exact .inl ⟨rfl, (Option.some.inj hj).symm⟩
    · rw [List.getElem?_set_ne (Ne.symm hne)] at hj
      exact .inr ⟨hne, h.others_over hk hc hj hne⟩
  refine ⟨?_, ?_, ?_, ?_, h.same⟩
  · intro i j a b hi hj ha hb
    rcases hset hi with ⟨rfl, -⟩ | ⟨-, rfl⟩
    · rcases hset hj with ⟨rfl, -⟩ | ⟨-, rfl⟩
      · rfl
      · cases hb
    · cases ha
  · intro j e hj
    rcases hset hj with ⟨-, rfl⟩ | ⟨-, rfl⟩
    · exact hd
    · exact .over
  · intro router hrouter hwhole
    exact hbuilt router hrouter (hwhole k d (List.getElem?_set_self hlt))
  · intro i router hi
    rcases hreading with hsame | hnone
    · rw [hsame]
      exact h.reading i router hi
    · have := List.all_eq_true.mp hnone _ (List.mem_of_getElem? hi)
      cases this

/-- A call that has begun fits the memory it has read. -/
theorem begins_fits (g : GatewayState) (fails : Bool) (request : Request) :
    (g.begins fails request).Fits g := by
  cases request with
  | activate payload =>
    simp only [GatewayState.begins]
    split
    · next new hnew =>
      obtain ⟨-, hactive, -, config, r, hconfig, hr, hrouter⟩ := GatewayState.activation_eq_some hnew
      rw [hactive] at hconfig
      rw [hrouter]
      exact .activating ⟨config, hconfig, hr⟩
    · exact .over
  | rollback releaseId =>
    simp only [GatewayState.begins]
    split
    · next new hnew =>
      obtain ⟨-, -, hactive, -, config, r, hconfig, hr, hrouter⟩ := GatewayState.reversal_eq_ok hnew
      rw [hactive] at hconfig
      rw [hrouter]
      exact .reversing ⟨config, hconfig, hr⟩
    · exact .over

/-- A new call, when the ones before it are over. -/
theorem append (h : t.Coherent) {d : Call} {holder : Option Nat} (hd : d.Fits t.memory)
    (hall : t.calls.all Call.isOver = true) :
    Coherent ⟨t.memory, t.calls ++ [d], holder, t.requests⟩ := by
  have hold : ∀ {j : Nat} {e : Call}, t.calls[j]? = some e → e.isOver = true :=
    fun hj => List.all_eq_true.mp hall _ (List.mem_of_getElem? hj)
  have hset : ∀ {j : Nat} {e : Call}, (t.calls ++ [d])[j]? = some e →
      t.calls[j]? = some e ∨ (j = t.calls.length ∧ e = d) := by
    intro j e hj
    rw [List.getElem?_append] at hj
    split at hj
    · exact .inl hj
    · next hge =>
      have hlt := (List.getElem?_eq_some_iff.mp hj).1
      simp only [List.length_singleton] at hlt
      have heq : j = t.calls.length := by omega
      subst heq
      simp only [Nat.sub_self, List.getElem?_cons_zero, Option.some.injEq] at hj
      exact .inr ⟨rfl, hj.symm⟩
  refine ⟨?_, ?_, ?_, h.reading, h.same⟩
  · intro i j a b hi hj ha hb
    rcases hset hi with hi | ⟨rfl, -⟩
    · rw [hold hi] at ha
      cases ha
    · rcases hset hj with hj | ⟨rfl, -⟩
      · rw [hold hj] at hb
        cases hb
      · rfl
  · intro j e hj
    rcases hset hj with hj | ⟨-, rfl⟩
    · exact h.fits j e hj
    · exact hd
  · intro router hrouter hwhole
    refine h.built router hrouter fun j e hj => hwhole j e ?_
    rw [List.getElem?_append_left (List.getElem?_eq_some_iff.mp hj).1]
    exact hj

/-- The request makes a step that keeps its releases together. -/
theorem answer (h : t.Coherent) {i : Nat} {q : Inference}
    (hreading : ∀ router, q = .reading router → Builds t.memory.active router)
    (hq : q.SameRelease) : Coherent { t with requests := t.requests.set i q } := by
  have hset : ∀ {j : Nat} {p : Inference}, (t.requests.set i q)[j]? = some p →
      t.requests[j]? = some p ∨ p = q := by
    intro j p hj
    rw [List.getElem?_set] at hj
    split at hj
    · split at hj
      · exact .inr (Option.some.inj hj).symm
      · cases hj
    · exact .inl hj
  refine ⟨h.single, h.fits, h.built, ?_, ?_⟩
  · intro j router hj
    rcases hset hj with hj | hj
    · exact h.reading j router hj
    · exact hreading router hj.symm
  · intro j p hj
    rcases hset hj with hj | rfl
    · exact h.same j p hj
    · exact hq

/-- A request arrives and finds this. -/
theorem arrive (h : t.Coherent) {q : Inference}
    (hreading : ∀ router, q = .reading router → Builds t.memory.active router)
    (hq : q.SameRelease) : Coherent { t with requests := t.requests ++ [q] } := by
  have hset : ∀ {j : Nat} {p : Inference}, (t.requests ++ [q])[j]? = some p →
      t.requests[j]? = some p ∨ p = q := by
    intro j p hj
    rcases List.mem_append.mp (List.mem_of_getElem? hj) with - | hlast
    · rw [List.getElem?_append] at hj
      split at hj
      · exact .inl hj
      · exact .inr (List.mem_singleton.mp (List.mem_of_getElem? hj))
    · exact .inr (List.mem_singleton.mp hlast)
  refine ⟨h.single, h.fits, h.built, ?_, ?_⟩
  · intro j router hj
    rcases hset hj with hj | hj
    · exact h.reading j router hj
    · exact hreading router hj.symm
  · intro j p hj
    rcases hset hj with hj | rfl
    · exact h.same j p hj
    · exact hq

/-- A store of the call in progress. -/
theorem store (h : t.Coherent) {k : Nat} (hC : t.Apart (.store k))
    (hstep : t.step (.store k) = some u) : u.Coherent := by
  simp only [Traffic.step] at hstep
  cases hk : t.calls[k]? with
  | none => simp [hk] at hstep
  | some c =>
    have hfits := h.fits k c hk
    simp only [Traffic.Apart, hk, Option.any_some] at hC
    rw [hk] at hstep
    cases hfits with
    | activating | reversing | «over» => simp at hstep
    | activates hbuilds =>
      obtain rfl := Option.some.inj hstep
      refine h.replace hk rfl (.activates' hbuilds) (fun router hrouter _ => ?_) (.inl rfl)
      exact h.built router hrouter fun j d hj => h.not_torn hk rfl rfl hj
    | activates' hbuilds =>
      obtain rfl := Option.some.inj hstep
      exact h.replace hk rfl (.last hbuilds) (fun _ _ htorn => nomatch htorn) (.inr (hC rfl))
    | reverts hbuilds =>
      obtain rfl := Option.some.inj hstep
      exact h.replace hk rfl (.reverts' hbuilds) (fun _ _ htorn => nomatch htorn) (.inr (hC rfl))
    | reverts' hbuilds =>
      obtain rfl := Option.some.inj hstep
      exact h.replace hk rfl (.last hbuilds) (fun _ _ htorn => nomatch htorn) (.inl rfl)
    | last hbuilds =>
      obtain rfl := Option.some.inj hstep
      refine h.replace hk rfl .over (fun router hrouter _ => ?_) (.inl rfl)
      obtain rfl := Option.some.inj hrouter
      exact hbuilds

/-- **Steps that mix no releases keep the gateway coherent.** -/
theorem step (h : t.Coherent) {e : TrafficEvent} (hC : t.Apart e) (hstep : t.step e = some u) :
    u.Coherent := by
  cases e with
  | begin request fails =>
    simp only [Traffic.step] at hstep
    split at hstep
    · cases hstep
    · split at hstep
      · obtain rfl := Option.some.inj hstep
        exact h
      · next call _ =>
        obtain rfl := Option.some.inj hstep
        exact h.append (begins_fits t.memory fails request) hC
  | load k =>
    simp only [Traffic.step] at hstep
    cases hk : t.calls[k]? with
    | none => simp [hk] at hstep
    | some c =>
      have hfits := h.fits k c hk
      rw [hk] at hstep
      cases hfits with
      | activating hbuilds =>
        obtain rfl := Option.some.inj hstep
        refine h.replace hk rfl (.activates hbuilds) (fun router hrouter _ => ?_) (.inl rfl)
        exact h.built router hrouter fun j d hj => h.not_torn hk rfl rfl hj
      | reversing hbuilds =>
        obtain rfl := Option.some.inj hstep
        refine h.replace hk rfl (.reverts hbuilds) (fun router hrouter _ => ?_) (.inl rfl)
        exact h.built router hrouter fun j d hj => h.not_torn hk rfl rfl hj
      | _ => simp [Traffic.assignments] at hstep
  | fail k =>
    simp only [Traffic.step] at hstep
    split at hstep
    · next hk =>
      obtain rfl := Option.some.inj hstep
      refine h.replace hk rfl .over (fun router hrouter _ => ?_) (.inl rfl)
      exact h.built router hrouter fun j d hj => h.not_torn hk rfl rfl hj
    · next hk =>
      obtain rfl := Option.some.inj hstep
      refine h.replace hk rfl .over (fun router hrouter _ => ?_) (.inl rfl)
      exact h.built router hrouter fun j d hj => h.not_torn hk rfl rfl hj
    · cases hstep
  | store k => exact h.store hC hstep
  | abandon =>
    simp only [Traffic.step] at hstep
    split at hstep
    · obtain rfl := Option.some.inj hstep
      exact ⟨h.single, h.fits, h.built, h.reading, h.same⟩
    · cases hstep
  | arrive =>
    simp only [Traffic.step] at hstep
    split at hstep
    · next router hrouter =>
      obtain rfl := Option.some.inj hstep
      refine h.arrive (fun r hr => ?_) trivial
      obtain rfl : router = r := Inference.reading.inj hr
      refine h.built router hrouter fun j d hj => ?_
      have := List.all_eq_true.mp hC _ (List.mem_of_getElem? hj)
      simpa using this
    · obtain rfl := Option.some.inj hstep
      exact h.arrive nofun trivial
  | body i r =>
    simp only [Traffic.step] at hstep
    split at hstep
    · next router hi =>
      split at hstep
      · obtain rfl := Option.some.inj hstep
        exact h.answer nofun (h.reading i router hi)
      · obtain rfl := Option.some.inj hstep
        exact h.answer nofun trivial
    · cases hstep

/-- A service that has started, with no file or with what the file holds. -/
theorem initial {g : GatewayState} {d : Disk} {fails : Bool} (h : GatewayState.init fails d = .ok g) :
    (Traffic.initial g).Coherent := by
  refine ⟨by simp [Traffic.initial], by simp [Traffic.initial], ?_, by simp [Traffic.initial],
    by simp [Traffic.SameRelease, Traffic.initial]⟩
  intro router hrouter _
  unfold GatewayState.init at h
  split at h
  · obtain rfl := Except.ok.inj h
    cases hrouter
  · cases h
  · simp only [bind_eq_ok, subscript, orRaise_eq_ok, pure_eq_ok] at h
    obtain ⟨active, -, config, hconfig, r, hr, rfl⟩ := h
    obtain rfl : r = router := Option.some.inj hrouter
    exact ⟨config, hconfig, (makeRouter_eq_ok hr).2⟩

end Traffic.Coherent

/-- **The headers are those of the router.** From the start of the service, whatever it finds in its
file, as long as no step mixes two releases, every request is called on the router of the release
that its headers were taken from. -/
theorem headers_of_router {g : GatewayState} {d : Disk} {fails : Bool} {es : List TrafficEvent}
    (h : GatewayState.init fails d = .ok g) (hC : traffic.Along Traffic.Apart (.initial g) es) :
    traffic.Throughout Traffic.SameRelease (.initial g) es :=
  (traffic.throughout_of_along (fun _ _ _ hs hC hstep => Traffic.Coherent.step hs hC hstep)
    (.initial h) hC).imp traffic fun _ hs => hs.same

/-! ## A request between two releases -/

/-- A release with one model, of this team. -/
def releaseOf (team : String) : Json :=
  .object [("release_id", .string team),
    ("configuration", .object [("model_list", .array [.object [("model_name", .string "gpt"),
      ("litellm_params", .object [("model", .string ("openai/" ++ team)),
        ("extra_headers", .object [("x-team", .string team)])])]])])]

/-- A request for the model of these releases. -/
def question : Incoming := ⟨.object [("model", .string "gpt")], none, none, none, none⟩

def activation (k : Nat) (team : String) : List TrafficEvent :=
  [.begin (.activate (releaseOf team)) false, .load k, .store k, .store k, .store k]

/-- Two activations, one after the other, and a request that is answered after each of them. -/
def spacedRun : List TrafficEvent :=
  activation 0 "red" ++ [.arrive, .body 0 question] ++
    activation 1 "blue" ++ [.arrive, .body 1 question]

theorem headers_of_router_spaced :
    traffic.Throughout Traffic.SameRelease (.initial ⟨.null, .null, none⟩) spacedRun :=
  @headers_of_router _ ⟨none, []⟩ false _ rfl (by decide +kernel)

/-- The second activation comes while the request waits for its body. -/
def mixedRun : List TrafficEvent :=
  activation 0 "red" ++ [.arrive] ++ activation 1 "blue" ++ [.body 0 question]

/-- The provider's model of the first deployment. -/
def firstModel : Json → Option String
  | .array (entry :: _) =>
    match (entry.get? "litellm_params").bind (·.get? "model") with
    | some (.string model) => some model
    | _ => none
  | _ => none

/-- The first deployment of the router is that of the release. -/
def Inference.sameFirst : Inference → Bool
  | .called router active _ =>
    firstModel router.modelList ==
      ((active.get? "configuration").bind (·.get? "model_list")).bind firstModel
  | _ => true

theorem Inference.SameRelease.sameFirst {q : Inference} (h : q.SameRelease) : q.sameFirst = true := by
  cases q with
  | called router active headers =>
    obtain ⟨config, hconfig, hrouter⟩ := h
    simp only [Router.ofConfiguration, bind_eq_ok, subscript, orRaise_eq_ok] at hrouter
    obtain ⟨modelList, hlist, hrouter⟩ := hrouter
    split at hrouter
    · obtain rfl := Except.ok.inj hrouter
      simp [Inference.sameFirst, hconfig, hlist]
    · cases hrouter
  | _ => rfl

/-- A request is called on the router of one release with the headers of another. -/
theorem headers_of_another_release :
    ∃ t, traffic.run (.initial ⟨.null, .null, none⟩) mixedRun = some t ∧ ¬t.SameRelease := by
  have hmixed : (traffic.run (.initial ⟨.null, .null, none⟩) mixedRun).all
      (fun t => t.requests.all Inference.sameFirst) = false := by decide +kernel
  obtain ⟨t, hrun, htest⟩ := traffic.exists_run_of_all_eq_false hmixed
  refine ⟨t, hrun, fun hsame => ?_⟩
  have hall : t.requests.all Inference.sameFirst = true := by
    refine List.all_eq_true.mpr fun q hq => ?_
    obtain ⟨i, hi⟩ := List.getElem?_of_mem hq
    exact (hsame i q hi).sameFirst
  rw [hall] at htest
  cases htest

end OpencodeCloud.ModelGateway
