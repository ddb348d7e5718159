/-
# OpencodeCloud.Operations.Submissions -- one job for each request id

`submit` of the operations API, from await to await, for any number of posts beside everything else the
service does. A post looks at the jobs first and compares what the client sent; only then it asks the other
services, and puts what they answer into the payload; and the transaction at its end finds a job of the same
request by its id again, but compares the payload.

Whatever the order, there is one job for a request id, it is started once, and every accepted post names it
(`Sound.accepted`). That no identical post is refused as another operation holds as long as a post that comes
to its transaction late has read the impacts that the job was submitted with (`submissions_idempotent`);
`identical_post_refused` is the run in which the catalog moves on between two posts.
-/
import OpencodeCloud.Operations.Publications
import Mathlib.Algebra.Order.Ring.Rat

namespace OpencodeCloud.Operations.Submissions

open OpencodeCloud.Library OpencodeCloud.Catalog

/-! ## §A The posts -/

/-- What `deletion_impact` puts together. -/
structure DeletionImpact where
  catalog : String
  sandbox : String
  files : String
  detail : ImpactDetail

def DeletionImpact.serviceImpacts (i : DeletionImpact) : ServiceImpacts :=
  ⟨some i.catalog, some i.sandbox, some i.files, some i.detail⟩

/-- `preview:<id>`; its fingerprint is a hash of the impacts. -/
structure DeletePreview where
  agentId : String
  expires : ℚ
  impacts : ServiceImpacts

/-- `force:<id>` -/
structure ForcePreview where
  sandboxId : String
  expires : ℚ

inductive Phase where
  | arrived
  /-- `deletion_impact` is awaited; the preview of a deletion has been read -/
  | impact (preview : Option DeletePreview)
  | detail (payload : Payload)
  | checking (payload : Payload) (scope : String) (before : Option SandboxBefore)
  | ready (payload : Payload) (scope : String) (before : Option SandboxBefore)
  | done (jid : String) (created : Bool)
  /-- an answer of the operations service itself -/
  | refused (e : Failure)
  /-- another service refused, or could not be reached -/
  | failed (e : Failure)
  /-- the process ended -/
  | lost

structure Post where
  kind : Kind
  target : String
  input : Request
  phase : Phase

def differentOperation : Failure := ⟨409, "Request ID already used with different operation"⟩

def staleForce : Failure :=
  ⟨409, "Force operation needs a current preview and exact sandbox ID confirmation"⟩

def staleDeletion : Failure :=
  ⟨409, "Fresh deletion preview and exact Agent ID confirmation required"⟩

/-- `payload.get("force_preview_id")` is there, for a sandbox. -/
def forced (kind : Kind) (input : Request) : Bool :=
  kind.isSandbox && (input.forcePreviewId.filter (· != "")).isSome

def plain (kind : Kind) (input : Request) : Payload := ⟨input, forced kind input, none⟩

/-! ## §B The service with its posts -/

/-- `started` is history: the jobs that `submit` gave to `runtime.spawn`. -/
structure State where
  sys : System
  previews : Dict String DeletePreview
  forces : Dict String ForcePreview
  posts : List Post
  started : List String

inductive Event where
  | post (kind : Kind) (target : String) (input : Request)
  /-- the first statements, to the first await -/
  | look (i : Nat) (now : ℚ)
  | impact (i : Nat) (answer : Result DeletionImpact)
  | detail (i : Nat) (answer : Result (String × SandboxBefore))
  | check (i : Nat) (answer : Result Unit)
  /-- the transaction, with a new id for the job and one for a request without -/
  | admission (i : Nat) (jid fallback : String)
  | preview (pid : String) (p : DeletePreview)
  | force (pid : String) (p : ForcePreview)
  /-- anything else in the service -/
  | service (e : Operations.Event)

/-- What is submitted outside of `submit` is a recovery. -/
def elsewhere : Operations.Event → Bool
  | .submit _ _ kind _ _ _ _ => kind == .sandboxRecover
  | _ => true

namespace State

def initial : State := ⟨System.initial, ∅, ∅, [], []⟩

/-- The post goes on. -/
def put (s : State) (i : Nat) (p : Post) (phase : Phase) : State :=
  { s with posts := s.posts.set i { p with phase := phase } }

/-- The preview that a forced sandbox operation or a deletion names. -/
def forceCurrent (s : State) (p : Post) (now : ℚ) : Bool :=
  (s.forces.lookup (p.input.forcePreviewId.getD "")).any fun preview =>
    preview.sandboxId == p.target && !decide (preview.expires < now) &&
      p.input.confirmation == some p.target

def deletionPreview (s : State) (p : Post) (now : ℚ) : Option DeletePreview :=
  (s.previews.lookup (p.input.previewId.getD "")).filter fun preview =>
    preview.agentId == p.target && !decide (preview.expires < now) &&
      p.input.confirmation == some p.target

/-- To the first await of a post whose request is new. -/
def enter (s : State) (p : Post) (now : ℚ) : Phase :=
  let payload := plain p.kind p.input
  if p.kind.isSandbox then
    if payload.force && !s.forceCurrent p now then .refused staleForce else .detail payload
  else
    match p.kind with
    | .agentDelete =>
      match s.deletionPreview p now with
      | none => .refused staleDeletion
      | some preview => .impact (some preview)
    | .agentDeleteEmpty => .impact none
    | .agentApply | .modelsApply => .ready payload p.target none
    | _ => .checking payload p.target none

/-- The look at the jobs. -/
def look (s : State) (p : Post) (now : ℚ) : Phase :=
  match p.input.requestId.bind s.sys.store.byRequest with
  | some job =>
    if job.kind != p.kind || job.target != p.target || job.originalInput != p.input then
      .refused differentOperation
    else .done job.id false
  | none => s.enter p now

/-- The answer to `deletion_impact`. -/
def withImpact (p : Post) (preview : Option DeletePreview) (current : DeletionImpact) : Phase :=
  let payload := { plain p.kind p.input with serviceImpacts := some current.serviceImpacts }
  match preview with
  | some preview =>
    if current.serviceImpacts ≠ preview.impacts then
      .refused ⟨409, "Deletion impact changed; preview again"⟩
    else if current.detail.lifecycle = .active then
      .refused ⟨409, "Archive the Agent before permanent deletion"⟩
    else .checking payload p.target none
  | none =>
    if !current.detail.sandboxes.isEmpty || current.detail.sessions != 0 || current.detail.files != 0 then
      .refused ⟨409, "Agent has runtime data; archive and use permanent deletion"⟩
    else .checking payload p.target none

def transact (s : State) (i : Nat) (p : Post) (payload : Payload) (scope : String)
    (before : Option SandboxBefore) (jid fallback : String) : Option State :=
  match s.sys.store.submit jid fallback p.kind p.target scope payload before with
  | .error e => some (s.put i p (.refused e))
  | .ok (_, job, false) => some (s.put i p (.done job.id false))
  | .ok (_, job, true) => do
    let sys ← s.sys.step (.submit jid fallback p.kind p.target scope payload before)
    return { s.put i p (.done job.id true) with sys := sys, started := s.started ++ [job.id] }

/-- The end of the process takes the posts along that are not answered. -/
def ended : Phase → Phase
  | .done jid created => .done jid created
  | .refused e => .refused e
  | .failed e => .failed e
  | _ => .lost

def step (s : State) : Event → Option State
  | .post kind target input =>
    if kind = .sandboxRecover then none
    else some { s with posts := s.posts ++ [⟨kind, target, input, .arrived⟩] }
  | .look i now => do
    let p ← s.posts[i]?
    match p.phase with
    | .arrived => some (s.put i p (s.look p now))
    | _ => none
  | .impact i answer => do
    let p ← s.posts[i]?
    match p.phase, answer with
    | .impact _, .error e => some (s.put i p (.failed e))
    | .impact preview, .ok current => some (s.put i p (withImpact p preview current))
    | _, _ => none
  | .detail i answer => do
    let p ← s.posts[i]?
    match p.phase, answer with
    | .detail _, .error e => some (s.put i p (.failed e))
    | .detail payload, .ok (agentId, before) => some (s.put i p (.checking payload agentId (some before)))
    | _, _ => none
  | .check i answer => do
    let p ← s.posts[i]?
    match p.phase, answer with
    | .checking .., .error e => some (s.put i p (.failed e))
    | .checking payload scope before, .ok _ => some (s.put i p (.ready payload scope before))
    | _, _ => none
  | .admission i jid fallback => do
    let p ← s.posts[i]?
    match p.phase with
    | .ready payload scope before => s.transact i p payload scope before jid fallback
    | _ => none
  | .preview pid p => if pid ∈ s.previews then none else some { s with previews := s.previews.insert pid p }
  | .force pid p => some { s with forces := s.forces.insert pid p }
  | .service e => do
    if !elsewhere e then none
    else
      let sys ← s.sys.step e
      return { s with
        sys := sys
        posts := match e with
          | .restart => s.posts.map fun p => { p with phase := ended p.phase }
          | _ => s.posts }

end State

/-- The service and its posts. -/
def api : Machine State Event := ⟨State.step⟩

/-! ## §C What the store makes of a request -/

section Store

variable {s s' : Store} {jid fallback target scope : String} {kind : Kind} {payload : Payload}
  {before : Option SandboxBefore}

theorem byRequest_eq_some {r : String} {job : Job} (h : s.byRequest r = some job) :
    ∃ i, s.jobs.lookup i = some job ∧ job.requestId = r := by
  rw [Store.byRequest, Option.map_eq_some_iff] at h
  obtain ⟨entry, hentry, rfl⟩ := h
  have hr := List.find?_some hentry
  exact ⟨entry.1, Dict.mem_entries_iff.mp (List.mem_of_find?_eq_some hentry), by simpa using hr⟩

theorem byRequest_eq_none {r : String} (h : s.byRequest r = none) {i : String} {j : Job}
    (hj : s.jobs.lookup i = some j) : j.requestId ≠ r := by
  rw [Store.byRequest, Option.map_eq_none_iff, List.find?_eq_none] at h
  have hno := h ⟨i, j⟩ (Dict.mem_entries_iff.mpr hj)
  simpa using hno

/-- A post is refused as another operation by a job of the same request only. -/
theorem submit_eq_error {e : Failure}
    (h : s.submit jid fallback kind target scope payload before = .error e)
    (he : e = differentOperation) : ∃ job,
      s.byRequest (payload.request.requestId.getD fallback) = some job ∧
        ¬(job.kind = kind ∧ job.target = target ∧ job.payload = payload) := by
  unfold Store.submit at h
  cases hr : s.byRequest (payload.request.requestId.getD fallback) with
  | some job =>
    simp only [hr] at h
    split at h
    · next hdifferent =>
      refine ⟨job, rfl, fun hsame => ?_⟩
      simp [hsame] at hdifferent
    · cases h
  | none =>
    -- the two other refusals say something else
    subst he
    cases hpinned : s.pinned scope <;> cases hheld : s.leaseHeld scope <;>
      simp [hr, hpinned, hheld, refuse, fail, bind, Except.bind, pure, Except.pure,
        differentOperation] at h

/-- A replay answers with the job of the same request. -/
theorem submit_replay {job : Job}
    (h : s.submit jid fallback kind target scope payload before = .ok (s', job, false)) :
    s.byRequest (payload.request.requestId.getD fallback) = some job := by
  unfold Store.submit at h
  cases hr : s.byRequest (payload.request.requestId.getD fallback) with
  | some old =>
    simp only [hr] at h
    split at h
    · cases h
    · simp only [Except.ok.injEq, Prod.mk.injEq] at h
      rw [h.2.1]
  | none =>
    simp only [hr, bind_eq_ok, refuse_eq_ok] at h
    obtain ⟨_, _, _, _, hret⟩ := h
    cases hret

/-- A replay is of the same operation. -/
theorem submit_replay_same {job : Job}
    (h : s.submit jid fallback kind target scope payload before = .ok (s', job, false)) :
    job.kind = kind ∧ job.target = target ∧ job.payload = payload := by
  unfold Store.submit at h
  simp only [submit_replay h] at h
  split at h
  · cases h
  · next hsame =>
    simp only [Bool.or_eq_true, bne_iff_ne, ne_eq, not_or, not_not] at hsame
    exact ⟨hsame.1.1, hsame.1.2, hsame.2⟩

/-- A new job is the first of its request. -/
theorem submit_created {job : Job}
    (h : s.submit jid fallback kind target scope payload before = .ok (s', job, true)) :
    s.byRequest (payload.request.requestId.getD fallback) = none := by
  unfold Store.submit at h
  cases hr : s.byRequest (payload.request.requestId.getD fallback) with
  | some old =>
    simp only [hr] at h
    split at h <;> cases h
  | none => rfl

/-- A new job is stored under its id. -/
theorem submit_stores {sys sys' : System} {store : Store} {job : Job}
    (h : sys.store.submit jid fallback kind target scope payload before = .ok (store, job, true))
    (hstep : sys.step (.submit jid fallback kind target scope payload before) = some sys') :
    sys.store.jobs.lookup jid = none ∧ sys'.store.jobs = sys.store.jobs.insert jid job ∧
      job = Store.newJob jid (payload.request.requestId.getD fallback) kind target scope payload before := by
  rcases Store.submit_eq_ok h with ⟨hc, _⟩ | ⟨_, _, _, hjob, hstore⟩
  · exact absurd hc (by decide)
  · simp only [System.step, System.submit] at hstep
    split at hstep
    · cases hstep
    · next hfresh =>
      simp only [h, Option.some.injEq] at hstep
      rw [not_or] at hfresh
      refine ⟨AList.lookup_eq_none.mpr hfresh.1, ?_, hjob⟩
      rw [← hstep, System.spawn_store, hstore]

/-- A job that comes with a step of the service has a request id that no job had. -/
theorem submit_unused {sys sys' : System} {job : Job}
    (hstep : sys.step (.submit jid fallback kind target scope payload before) = some sys')
    (hold : sys.store.jobs.lookup jid = none) (hnew : sys'.store.jobs.lookup jid = some job) :
    sys.store.byRequest (payload.request.requestId.getD fallback) = none := by
  simp only [System.step, System.submit] at hstep
  split at hstep
  · cases hstep
  · split at hstep
    · next hsubmit => exact submit_created hsubmit
    · obtain rfl := Option.some.inj hstep
      rw [hold] at hnew
      cases hnew

end Store

/-! ## §D Where a job and its payload come from -/

/-- Where a job comes from in one step, for its request. -/
inductive JobFrom (sys : System) (e : Operations.Event) (i : String) (j' : Job) : Prop
  | kept (j : Job) (found : sys.store.jobs.lookup i = some j) (identity : j.SameIdentity j')
      (input : j.SameInput j')
  | retried (j : Job) (found : sys.store.jobs.lookup i = some j) (identity : j.SameIdentity j')
      (deletion : j.kind = .agentDelete) (request : j'.requestId = j.requestId)
      (original : j'.originalInput = j.originalInput) (again : j'.attempts ≠ [])
  | submitted (fallback : String) (kind : Kind) (target scope : String) (payload : Payload)
      (before : Option SandboxBefore) (event : e = .submit i fallback kind target scope payload before)
      (new : sys.store.jobs.lookup i = none)
      (unused : sys.store.byRequest (payload.request.requestId.getD fallback) = none)
      (job : j' = Store.newJob i (payload.request.requestId.getD fallback) kind target scope payload before)

theorem job_from {sys sys' : System} {e : Operations.Event} (h : sys.step e = some sys') {i : String}
    {j' : Job} (hj' : sys'.store.jobs.lookup i = some j') : JobFrom sys e i j' := by
  cases System.job_origin h hj' with
  | continued j hj hc => exact .kept j hj hc.identity hc.input
  | released _ _ j _ _ _ _ hj hid hinput _ => exact .kept j hj hid hinput
  | submitted fallback kind target scope payload before he hnew hjob =>
    subst he
    exact .submitted fallback kind target scope payload before rfl hnew (submit_unused h hnew hj') hjob
  | retried payload executionId j he hj hdel hjob =>
    refine .retried j hj ?_ hdel ?_ ?_ ?_ <;> rw [hjob]
    · exact .refl j
    · rfl
    · rfl
    · simp [Store.retried]

/-- A job that was there keeps its request. -/
theorem request_kept {sys sys' : System} {e : Operations.Event} (h : sys.step e = some sys') {i : String}
    {j : Job} (hj : sys.store.jobs.lookup i = some j) :
    ∃ j', sys'.store.jobs.lookup i = some j' ∧ j.SameIdentity j' ∧ j'.requestId = j.requestId ∧
      j'.originalInput = j.originalInput := by
  obtain ⟨j', hj', hid⟩ := System.job_kept h hj
  refine ⟨j', hj', hid, ?_⟩
  cases job_from h hj' with
  | kept j₀ hj₀ _ hinput =>
    obtain rfl := Option.some.inj (hj.symm.trans hj₀)
    exact ⟨hinput.1, hinput.2.1⟩
  | retried j₀ hj₀ _ _ hrequest horiginal _ =>
    obtain rfl := Option.some.inj (hj.symm.trans hj₀)
    exact ⟨hrequest, horiginal⟩
  | submitted _ _ _ _ _ _ _ hnew _ _ =>
    rw [hnew] at hj
    cases hj

/-- What `submit` makes of the input of a post. For a permanent deletion the impacts are those that its
preview has shown; only those of `agent.delete-empty` are read when they are needed. -/
structure Enriched (previews : Dict String DeletePreview) (kind : Kind) (input : Request)
    (payload : Payload) : Prop where
  request : payload.request = input
  force : payload.force = forced kind input
  previewed : kind = .agentDelete → ∃ preview,
    previews.lookup (input.previewId.getD "") = some preview ∧ payload.serviceImpacts = some preview.impacts
  none : kind ≠ .agentDelete → kind ≠ .agentDeleteEmpty → payload.serviceImpacts = none

namespace Enriched

variable {previews previews' : Dict String DeletePreview} {kind : Kind} {input : Request} {a b : Payload}

/-- A preview that was made is not made again. -/
theorem mono (hkeep : ∀ pid p, previews.lookup pid = some p → previews'.lookup pid = some p)
    (h : Enriched previews kind input a) : Enriched previews' kind input a where
  request := h.request
  force := h.force
  previewed hk := by
    obtain ⟨preview, hp, himpacts⟩ := h.previewed hk
    exact ⟨preview, hkeep _ _ hp, himpacts⟩
  none := h.none

/-- **One input makes one payload**, but for the impacts of `agent.delete-empty`. -/
theorem unique (ha : Enriched previews kind input a) (hb : Enriched previews kind input b)
    (h : kind = .agentDeleteEmpty → a.serviceImpacts = b.serviceImpacts) : a = b := by
  have himpacts : a.serviceImpacts = b.serviceImpacts := by
    by_cases hempty : kind = .agentDeleteEmpty
    · exact h hempty
    · by_cases hdelete : kind = .agentDelete
      · obtain ⟨p, hp, hpa⟩ := ha.previewed hdelete
        obtain ⟨q, hq, hqb⟩ := hb.previewed hdelete
        obtain rfl := Option.some.inj (hp.symm.trans hq)
        rw [hpa, hqb]
      · rw [ha.none hdelete hempty, hb.none hdelete hempty]
  cases a
  cases b
  simp only [Payload.mk.injEq]
  exact ⟨ha.request.trans hb.request.symm, ha.force.trans hb.force.symm, himpacts⟩

/-- The payload of a kind that needs no impacts. -/
theorem of_plain (hdelete : kind ≠ .agentDelete) : Enriched previews kind input (plain kind input) where
  request := rfl
  force := rfl
  previewed h := absurd h hdelete
  none _ _ := rfl

end Enriched

/-- What the jobs of every state say of their requests. -/
structure Requests (previews : Dict String DeletePreview) (sys : System) : Prop where
  ids : ∀ i j, sys.store.jobs.lookup i = some j → j.id = i
  unique : ∀ i j i' j', sys.store.jobs.lookup i = some j → sys.store.jobs.lookup i' = some j' →
    j.requestId = j'.requestId → i = i'
  /-- only a permanent deletion is retried -/
  once : ∀ i j, sys.store.jobs.lookup i = some j → j.kind ≠ .agentDelete → j.attempts = []
  enriched : ∀ i j, sys.store.jobs.lookup i = some j → j.kind ≠ .sandboxRecover → j.attempts = [] →
    Enriched previews j.kind j.originalInput j.payload

namespace Requests

variable {previews previews' : Dict String DeletePreview} {sys sys' : System} {e : Operations.Event}

theorem mono (hkeep : ∀ pid p, previews.lookup pid = some p → previews'.lookup pid = some p)
    (h : Requests previews sys) : Requests previews' sys :=
  ⟨h.ids, h.unique, h.once, fun i j hj hk ha => (h.enriched i j hj hk ha).mono hkeep⟩

theorem initial : Requests ∅ System.initial where
  ids i j hj := by simp [System.initial, Store.empty] at hj
  unique i j _ _ hj := by simp [System.initial, Store.empty] at hj
  once i j hj := by simp [System.initial, Store.empty] at hj
  enriched i j hj := by simp [System.initial, Store.empty] at hj

/-- The job that the store finds for a request. -/
theorem byRequest (h : Requests previews sys) {i r : String} {j : Job}
    (hj : sys.store.jobs.lookup i = some j) (hr : j.requestId = r) : sys.store.byRequest r = some j := by
  cases hfound : sys.store.byRequest r with
  | none => exact absurd hr (byRequest_eq_none hfound hj)
  | some j' =>
    obtain ⟨i', hj', hr'⟩ := byRequest_eq_some hfound
    obtain rfl := h.unique i j i' j' hj hj' (hr.trans hr'.symm)
    exact congrArg some (Option.some.inj (hj'.symm.trans hj))

/-- The jobs after a step that submits what `submit` has put together. -/
theorem step (h : Requests previews sys) (hstep : sys.step e = some sys')
    (hpayload : ∀ i fallback kind target scope payload before,
      e = .submit i fallback kind target scope payload before → kind ≠ .sandboxRecover →
        Enriched previews kind payload.request payload) : Requests previews sys' where
  ids i j' hj' := by
    cases job_from hstep hj' with
    | kept j hj hid _ => exact hid.1.trans (h.ids i j hj)
    | retried j hj hid _ _ _ _ => exact hid.1.trans (h.ids i j hj)
    | submitted _ _ _ _ _ _ _ _ _ hjob => rw [hjob]; rfl
  unique i a i' b ha hb hsame := by
    -- a request id that a job has is not the one of a new job
    have hdifferent : ∀ {i i' : String} {a b : Job}, sys'.store.jobs.lookup i = some a →
        sys.store.jobs.lookup i = none → sys'.store.jobs.lookup i' = some b →
        a.requestId = b.requestId → i = i' := by
      intro i i' a b ha hnone hb hsame
      cases job_from hstep ha with
      | kept j hj _ _ => rw [hnone] at hj; cases hj
      | retried j hj _ _ _ _ _ => rw [hnone] at hj; cases hj
      | submitted fallback kind target scope payload before he _ hunused hjob =>
        subst hjob
        have hold : ∀ j, sys.store.jobs.lookup i' = some j → b.requestId ≠ j.requestId := by
          intro j hj hr
          exact byRequest_eq_none hunused hj (hr.symm.trans hsame.symm)
        cases job_from hstep hb with
        | kept j hj _ hinput => exact absurd hinput.1 (hold j hj)
        | retried j hj _ _ hrequest _ _ => exact absurd hrequest (hold j hj)
        | submitted _ _ _ _ _ _ he' _ _ _ =>
          rw [he] at he'
          injection he'
    cases hi : sys.store.jobs.lookup i with
    | none => exact hdifferent ha hi hb hsame
    | some j =>
      cases hi' : sys.store.jobs.lookup i' with
      | none => exact (hdifferent hb hi' ha hsame.symm).symm
      | some j' =>
        obtain ⟨a', ha', _, hra, _⟩ := request_kept hstep hi
        obtain ⟨b', hb', _, hrb, _⟩ := request_kept hstep hi'
        obtain rfl := Option.some.inj (ha.symm.trans ha')
        obtain rfl := Option.some.inj (hb.symm.trans hb')
        exact h.unique i j i' j' hi hi' (by rw [← hra, ← hrb, hsame])
  once i j' hj' hk := by
    cases job_from hstep hj' with
    | kept j hj hid hinput => exact hinput.2.2.2.trans (h.once i j hj (hid.2.1 ▸ hk))
    | retried j hj hid hdel _ _ _ => exact absurd (hid.2.1.trans hdel) hk
    | submitted _ _ _ _ _ _ _ _ _ hjob => rw [hjob]; rfl
  enriched i j' hj' hk hattempts := by
    cases job_from hstep hj' with
    | kept j hj hid hinput =>
      rw [hid.2.1] at hk ⊢
      rw [hinput.2.1, hinput.2.2.1]
      exact h.enriched i j hj hk (hinput.2.2.2.symm.trans hattempts)
    | retried j hj hid hdel _ _ hagain => exact absurd hattempts hagain
    | submitted fallback kind target scope payload before he _ _ hjob =>
      subst hjob
      exact hpayload i fallback kind target scope payload before he hk

end Requests

/-! ## §E What a step does to the posts -/

/-- How a post goes on without a new job. -/
inductive Goes (s : State) (i : Nat) (p : Post) : Event → Phase → Prop
  | looked (now : ℚ) (phase : p.phase = .arrived) : Goes s i p (.look i now) (s.look p now)
  | failed (e : Event) (err : Failure) : Goes s i p e (.failed err)
  | impact (preview : Option DeletePreview) (current : DeletionImpact)
      (phase : p.phase = .impact preview) :
    Goes s i p (.impact i (.ok current)) (State.withImpact p preview current)
  | detail (payload : Payload) (agentId : String) (before : SandboxBefore)
      (phase : p.phase = .detail payload) :
    Goes s i p (.detail i (.ok (agentId, before))) (.checking payload agentId (some before))
  | checked (payload : Payload) (scope : String) (before : Option SandboxBefore)
      (phase : p.phase = .checking payload scope before) :
    Goes s i p (.check i (.ok ())) (.ready payload scope before)
  | refused (jid fallback : String) (payload : Payload) (scope : String)
      (before : Option SandboxBefore) (err : Failure) (phase : p.phase = .ready payload scope before)
      (submit : s.sys.store.submit jid fallback p.kind p.target scope payload before = .error err) :
    Goes s i p (.admission i jid fallback) (.refused err)
  | replayed (jid fallback : String) (payload : Payload) (scope : String)
      (before : Option SandboxBefore) (store : Store) (job : Job)
      (phase : p.phase = .ready payload scope before)
      (submit : s.sys.store.submit jid fallback p.kind p.target scope payload before =
        .ok (store, job, false)) :
    Goes s i p (.admission i jid fallback) (.done job.id false)

/-- What one step does. -/
inductive Stepped (s : State) : Event → State → Prop
  | posted (kind : Kind) (target : String) (input : Request) (client : kind ≠ .sandboxRecover) :
    Stepped s (.post kind target input) { s with posts := s.posts ++ [⟨kind, target, input, .arrived⟩] }
  | goes (e : Event) (i : Nat) (p : Post) (phase : Phase) (found : s.posts[i]? = some p)
      (goes : Goes s i p e phase) : Stepped s e (s.put i p phase)
  | created (i : Nat) (p : Post) (payload : Payload) (scope : String) (before : Option SandboxBefore)
      (jid fallback : String) (store : Store) (job : Job) (sys : System)
      (found : s.posts[i]? = some p) (phase : p.phase = .ready payload scope before)
      (submit : s.sys.store.submit jid fallback p.kind p.target scope payload before =
        .ok (store, job, true))
      (step : s.sys.step (.submit jid fallback p.kind p.target scope payload before) = some sys) :
    Stepped s (.admission i jid fallback)
      { s.put i p (.done job.id true) with sys := sys, started := s.started ++ [job.id] }
  | preview (pid : String) (p : DeletePreview) (fresh : pid ∉ s.previews) :
    Stepped s (.preview pid p) { s with previews := s.previews.insert pid p }
  | force (pid : String) (p : ForcePreview) :
    Stepped s (.force pid p) { s with forces := s.forces.insert pid p }
  | service (e : Operations.Event) (sys : System) (posts : List Post) (other : elsewhere e = true)
      (step : s.sys.step e = some sys)
      (kept : ∀ (i : Nat) q, posts[i]? = some q → ∃ p, s.posts[i]? = some p ∧
        (q = p ∨ q = { p with phase := State.ended p.phase })) :
    Stepped s (.service e) { s with sys := sys, posts := posts }

theorem transact_stepped {s s' : State} {i : Nat} {p : Post} {payload : Payload} {scope : String}
    {before : Option SandboxBefore} {jid fallback : String} (hp : s.posts[i]? = some p)
    (hphase : p.phase = .ready payload scope before)
    (h : s.transact i p payload scope before jid fallback = some s') :
    Stepped s (.admission i jid fallback) s' := by
  unfold State.transact at h
  split at h
  · next err hsubmit =>
    obtain rfl := Option.some.inj h
    exact .goes _ i p _ hp (.refused jid fallback payload scope before err hphase hsubmit)
  · next store job hsubmit =>
    obtain rfl := Option.some.inj h
    exact .goes _ i p _ hp (.replayed jid fallback payload scope before store job hphase hsubmit)
  · next store job hsubmit =>
    simp only [Option.bind_eq_bind, Option.bind_eq_some_iff] at h
    obtain ⟨sys, hstep, h⟩ := h
    obtain rfl := Option.some.inj h
    exact .created i p payload scope before jid fallback store job sys hp hphase hsubmit hstep

/-- **What one step does.** -/
theorem step_stepped {s s' : State} {e : Event} (h : s.step e = some s') : Stepped s e s' := by
  cases e with
  | post kind target input =>
    simp only [State.step] at h
    split at h
    · cases h
    · next hclient =>
      obtain rfl := Option.some.inj h
      exact .posted kind target input hclient
  | preview pid p =>
    simp only [State.step] at h
    split at h
    · cases h
    · next hfresh =>
      obtain rfl := Option.some.inj h
      exact .preview pid p hfresh
  | force pid p =>
    obtain rfl := Option.some.inj h
    exact .force pid p
  | service e =>
    simp only [State.step] at h
    split at h
    · cases h
    · next hother =>
      simp only [Option.bind_eq_bind, Option.bind_eq_some_iff] at h
      obtain ⟨sys, hstep, h⟩ := h
      obtain rfl := Option.some.inj h
      refine .service e sys _ (by simpa using hother) hstep fun i q hq => ?_
      split at hq
      · rw [List.getElem?_map, Option.map_eq_some_iff] at hq
        obtain ⟨p, hp, rfl⟩ := hq
        exact ⟨p, hp, Or.inr rfl⟩
      · exact ⟨q, hq, Or.inl rfl⟩
  | look i now =>
    simp only [State.step, Option.bind_eq_bind, Option.bind_eq_some_iff] at h
    obtain ⟨p, hp, h⟩ := h
    split at h
    · next hphase =>
      obtain rfl := Option.some.inj h
      exact .goes _ i p _ hp (.looked now hphase)
    · cases h
  | impact i answer =>
    simp only [State.step, Option.bind_eq_bind, Option.bind_eq_some_iff] at h
    obtain ⟨p, hp, h⟩ := h
    split at h
    · next _ err _ =>
      obtain rfl := Option.some.inj h
      exact .goes _ i p _ hp (.failed _ err)
    · next preview current hphase =>
      obtain rfl := Option.some.inj h
      exact .goes _ i p _ hp (.impact preview current hphase)
    · cases h
  | detail i answer =>
    simp only [State.step, Option.bind_eq_bind, Option.bind_eq_some_iff] at h
    obtain ⟨p, hp, h⟩ := h
    split at h
    · next err _ =>
      obtain rfl := Option.some.inj h
      exact .goes _ i p _ hp (.failed _ err)
    · next payload agentId before hphase =>
      obtain rfl := Option.some.inj h
      exact .goes _ i p _ hp (.detail payload agentId before hphase)
    · cases h
  | check i answer =>
    simp only [State.step, Option.bind_eq_bind, Option.bind_eq_some_iff] at h
    obtain ⟨p, hp, h⟩ := h
    split at h
    · next err _ =>
      obtain rfl := Option.some.inj h
      exact .goes _ i p _ hp (.failed _ err)
    · next payload scope before _ hphase =>
      obtain rfl := Option.some.inj h
      exact .goes _ i p _ hp (.checked payload scope before hphase)
    · cases h
  | admission i jid fallback =>
    simp only [State.step, Option.bind_eq_bind, Option.bind_eq_some_iff] at h
    obtain ⟨p, hp, h⟩ := h
    split at h
    · next payload scope before hphase => exact transact_stepped hp hphase h
    · cases h

/-! ## §F One job for each request -/

/-- A post on its way has put together what its input asks for. -/
def Post.Prepared (previews : Dict String DeletePreview) (p : Post) : Prop :=
  match p.phase with
  | .impact (some preview) =>
    p.kind = .agentDelete ∧ previews.lookup (p.input.previewId.getD "") = some preview
  | .impact none => p.kind = .agentDeleteEmpty
  | .detail payload | .checking payload _ _ | .ready payload _ _ =>
    Enriched previews p.kind p.input payload
  | _ => True

/-- An accepted post names a job of its request. -/
def Post.Answered (sys : System) (p : Post) : Prop :=
  ∀ jid created, p.phase = .done jid created → ∃ job, sys.store.jobs.lookup jid = some job ∧
    job.kind = p.kind ∧ job.target = p.target ∧ ∀ r, p.input.requestId = some r → job.requestId = r

theorem Post.Prepared.mono {previews previews' : Dict String DeletePreview} {p : Post}
    (hkeep : ∀ pid v, previews.lookup pid = some v → previews'.lookup pid = some v)
    (h : p.Prepared previews) : p.Prepared previews' := by
  unfold Post.Prepared at h ⊢
  split at h
  · exact ⟨h.1, hkeep _ _ h.2⟩
  · exact h
  · exact h.mono hkeep
  · exact h.mono hkeep
  · exact h.mono hkeep
  · trivial

theorem Post.Answered.mono {sys sys' : System} {e : Operations.Event} {p : Post}
    (hstep : sys.step e = some sys') (h : p.Answered sys) : p.Answered sys' := by
  intro jid created hphase
  obtain ⟨job, hjob, hkind, htarget, hr⟩ := h jid created hphase
  obtain ⟨job', hjob', hid, hr', _⟩ := request_kept hstep hjob
  exact ⟨job', hjob', hid.2.1.trans hkind, hid.2.2.1.trans htarget, fun r hreq => hr'.trans (hr r hreq)⟩

section Posts

variable {s : State} {p : Post}

theorem enter_prepared (now : ℚ) : Post.Prepared s.previews { p with phase := s.enter p now } := by
  by_cases hsandbox : p.kind.isSandbox = true
  · simp only [State.enter, if_pos hsandbox]
    split
    · trivial
    · refine Enriched.of_plain fun hdelete => ?_
      rw [hdelete] at hsandbox
      cases hsandbox
  · simp only [State.enter, if_neg hsandbox]
    split
    · next hkind =>
      split
      · trivial
      · next preview hpreview =>
        exact ⟨hkind, (Option.filter_eq_some_iff.mp hpreview).1⟩
    · next hkind => exact hkind
    · next hkind => exact Enriched.of_plain (by rw [hkind]; decide)
    · next hkind => exact Enriched.of_plain (by rw [hkind]; decide)
    · next hdelete _ _ _ => exact Enriched.of_plain hdelete

theorem look_prepared (now : ℚ) : Post.Prepared s.previews { p with phase := s.look p now } := by
  unfold State.look
  split
  · split <;> trivial
  · exact enter_prepared now

/-- The first look answers with the job of the same input. -/
theorem look_done {now : ℚ} {jid : String} {created : Bool} (h : s.look p now = .done jid created) :
    ∃ r job, p.input.requestId = some r ∧ s.sys.store.byRequest r = some job ∧ job.id = jid ∧
      job.kind = p.kind ∧ job.target = p.target ∧ job.originalInput = p.input := by
  unfold State.look at h
  split at h
  · next job hjob =>
    obtain ⟨r, hr, hfound⟩ := Option.bind_eq_some_iff.mp hjob
    split at h
    · cases h
    · next hsame =>
      simp only [Bool.or_eq_true, bne_iff_ne, ne_eq, not_or, not_not] at hsame
      injection h with hid
      exact ⟨r, job, hr, hfound, hid, hsame.1.1, hsame.1.2, hsame.2⟩
  · simp only [State.enter] at h
    split at h
    · split at h <;> cases h
    · split at h
      · split at h <;> cases h
      all_goals cases h

theorem withImpact_prepared {preview : Option DeletePreview} {current : DeletionImpact}
    (hphase : p.phase = .impact preview) (h : p.Prepared s.previews) :
    Post.Prepared s.previews { p with phase := State.withImpact p preview current } := by
  unfold Post.Prepared at h
  rw [hphase] at h
  cases preview with
  | some preview =>
    obtain ⟨hkind, hpreview⟩ := h
    simp only [State.withImpact]
    split
    · trivial
    · next hsame =>
      split
      · trivial
      · refine ⟨rfl, rfl, fun _ => ⟨preview, hpreview, ?_⟩, fun hdelete => absurd hkind hdelete⟩
        rw [not_not.mp hsame]
  | none =>
    simp only [State.withImpact]
    split
    · trivial
    · refine ⟨rfl, rfl, fun hdelete => ?_, fun _ hempty => absurd h hempty⟩
      rw [h] at hdelete
      cases hdelete

theorem withImpact_done {preview : Option DeletePreview} {current : DeletionImpact} {jid : String}
    {created : Bool} : State.withImpact p preview current ≠ .done jid created := by
  unfold State.withImpact
  split
  · split
    · simp
    · split <;> simp
  · split <;> simp

/-- What a post that goes on has put together. -/
theorem Goes.prepared {i : Nat} {e : Event} {phase : Phase} (h : Goes s i p e phase) (hp : p.Prepared s.previews) :
    Post.Prepared s.previews { p with phase := phase } := by
  cases h with
  | looked now _ => exact look_prepared now
  | failed _ _ => trivial
  | impact preview current hphase => exact withImpact_prepared hphase hp
  | detail payload agentId before hphase =>
    unfold Post.Prepared at hp
    rw [hphase] at hp
    exact hp
  | checked payload scope before hphase =>
    unfold Post.Prepared at hp
    rw [hphase] at hp
    exact hp
  | refused => trivial
  | replayed => trivial

/-- A post that is ready has its own request. -/
theorem Post.Prepared.ready {payload : Payload} {scope : String} {before : Option SandboxBefore}
    (h : p.Prepared s.previews) (hphase : p.phase = .ready payload scope before) :
    Enriched s.previews p.kind p.input payload := by
  unfold Post.Prepared at h
  rw [hphase] at h
  exact h

theorem ended_prepared {previews : Dict String DeletePreview} :
    Post.Prepared previews { p with phase := State.ended p.phase } := by
  obtain ⟨kind, target, input, phase⟩ := p
  cases phase <;> trivial

theorem ended_done {jid : String} {created : Bool} {phase : Phase}
    (h : State.ended phase = .done jid created) : phase = .done jid created := by
  cases phase <;> first | exact h | cases h

theorem ended_refused {e : Failure} {phase : Phase} (h : State.ended phase = .refused e) :
    phase = .refused e := by
  cases phase <;> first | exact h | cases h

end Posts

/-- What every state keeps, whatever the order. -/
structure Sound (s : State) : Prop where
  requests : Requests s.previews s.sys
  client : ∀ p ∈ s.posts, p.kind ≠ .sandboxRecover
  prepared : ∀ p ∈ s.posts, p.Prepared s.previews
  answered : ∀ p ∈ s.posts, p.Answered s.sys
  /-- no job is started twice by its submission -/
  once : s.started.Nodup
  /-- the started jobs are those that were posted -/
  started : ∀ jid, jid ∈ s.started ↔
    ∃ job, s.sys.store.jobs.lookup jid = some job ∧ job.kind ≠ .sandboxRecover

theorem mem_put {s : State} {i : Nat} {p q : Post} {phase : Phase} (h : q ∈ (s.put i p phase).posts) :
    q ∈ s.posts ∨ q = { p with phase := phase } :=
  List.mem_or_eq_of_mem_set h

namespace Sound

variable {s s' : State} {e : Event}

theorem initial : Sound State.initial where
  requests := .initial
  client p hp := by cases hp
  prepared p hp := by cases hp
  answered p hp := by cases hp
  once := .nil
  started jid := by simp [State.initial, System.initial, Store.empty]

theorem posted (h : Sound s) {kind : Kind} {target : String} {input : Request}
    (hclient : kind ≠ .sandboxRecover) :
    Sound { s with posts := s.posts ++ [⟨kind, target, input, .arrived⟩] } where
  requests := h.requests
  client p hp := by
    rcases List.mem_append.mp hp with hp | hp
    · exact h.client p hp
    · rw [List.mem_singleton.mp hp]
      exact hclient
  prepared p hp := by
    rcases List.mem_append.mp hp with hp | hp
    · exact h.prepared p hp
    · rw [List.mem_singleton.mp hp]
      trivial
  answered p hp := by
    rcases List.mem_append.mp hp with hp | hp
    · exact h.answered p hp
    · intro jid created hphase
      rw [List.mem_singleton.mp hp] at hphase
      cases hphase
  once := h.once
  started := h.started

/-- The job that answers a post is one of its request. -/
theorem goes_answered (h : Sound s) {i : Nat} {p : Post} {phase : Phase} (hp : s.posts[i]? = some p)
    (hgoes : Goes s i p e phase) : Post.Answered s.sys { p with phase := phase } := by
  have hready := h.prepared p (List.mem_of_getElem? hp)
  intro jid created hphase
  change phase = .done jid created at hphase
  cases hgoes with
  | looked now _ =>
    obtain ⟨r, job, hr, hfound, hid, hkind, htarget, _⟩ := look_done hphase
    obtain ⟨i, hjob, hreq⟩ := byRequest_eq_some hfound
    obtain rfl : i = jid := (h.requests.ids i job hjob).symm.trans hid
    refine ⟨job, hjob, hkind, htarget, fun r' hr' => ?_⟩
    rw [hreq]
    exact Option.some.inj (hr.symm.trans hr')
  | failed | refused => cases hphase
  | impact preview current _ => exact absurd hphase withImpact_done
  | detail | checked => cases hphase
  | replayed jid' fallback payload scope before store job hpc hsubmit =>
    injection hphase with hid
    have hfound := submit_replay hsubmit
    obtain ⟨i, hjob, hreq⟩ := byRequest_eq_some hfound
    obtain rfl : i = jid := (h.requests.ids i job hjob).symm.trans hid
    obtain ⟨hkind, htarget, _⟩ := submit_replay_same hsubmit
    refine ⟨job, hjob, hkind, htarget, fun r hr => ?_⟩
    rw [hreq, (hready.ready hpc).request, hr]
    rfl

theorem goes (h : Sound s) {i : Nat} {p : Post} {phase : Phase} (hp : s.posts[i]? = some p)
    (hgoes : Goes s i p e phase) : Sound (s.put i p phase) where
  requests := h.requests
  client q hq := by
    rcases mem_put hq with hq | rfl
    · exact h.client q hq
    · exact h.client p (List.mem_of_getElem? hp)
  prepared q hq := by
    rcases mem_put hq with hq | rfl
    · exact h.prepared q hq
    · exact hgoes.prepared (h.prepared p (List.mem_of_getElem? hp))
  answered q hq := by
    rcases mem_put hq with hq | rfl
    · exact h.answered q hq
    · exact h.goes_answered hp hgoes
  once := h.once
  started := h.started

/-- A post creates the job of its request. -/
theorem created (h : Sound s) {i : Nat} {p : Post} {payload : Payload} {scope : String}
    {before : Option SandboxBefore} {jid fallback : String} {store : Store} {job : Job} {sys : System}
    (hp : s.posts[i]? = some p) (hphase : p.phase = .ready payload scope before)
    (hsubmit : s.sys.store.submit jid fallback p.kind p.target scope payload before =
      .ok (store, job, true))
    (hstep : s.sys.step (.submit jid fallback p.kind p.target scope payload before) = some sys) :
    Sound { s.put i p (.done job.id true) with sys := sys, started := s.started ++ [job.id] } := by
  have hmem := List.mem_of_getElem? hp
  have hready := (h.prepared p hmem).ready hphase
  obtain ⟨hfresh, hjobs, hjob⟩ := submit_stores hsubmit hstep
  have hid : job.id = jid := by rw [hjob]; rfl
  have hstored : sys.store.jobs.lookup jid = some job := by rw [hjobs, AList.lookup_insert]
  refine ⟨?_, ?_, ?_, ?_, ?_, ?_⟩
  · refine h.requests.step hstep fun _ _ _ _ _ _ _ he hk => ?_
    injection he with _ _ hkind _ _ hpayload _
    subst hkind hpayload
    rw [hready.request]
    exact hready
  · intro q hq
    rcases mem_put hq with hq | rfl
    · exact h.client q hq
    · exact h.client p hmem
  · intro q hq
    rcases mem_put hq with hq | rfl
    · exact h.prepared q hq
    · trivial
  · intro q hq
    rcases mem_put hq with hq | rfl
    · exact (h.answered q hq).mono hstep
    · intro jid' created hdone
      injection hdone with hjid _
      subst hjid
      refine ⟨job, hid ▸ hstored, by rw [hjob]; rfl, by rw [hjob]; rfl, fun r hr => ?_⟩
      change p.input.requestId = some r at hr
      rw [hjob]
      change payload.request.requestId.getD fallback = r
      rw [hready.request, hr]
      rfl
  · -- a job that is started was not there
    refine List.nodup_append.mpr ⟨h.once, List.nodup_singleton _, fun a ha b hb => ?_⟩
    rw [List.mem_singleton.mp hb, hid]
    rintro rfl
    obtain ⟨old, hold, _⟩ := (h.started a).mp ha
    rw [hfresh] at hold
    cases hold
  · intro jid'
    change jid' ∈ s.started ++ [job.id] ↔ ∃ j, sys.store.jobs.lookup jid' = some j ∧ _
    rw [List.mem_append, List.mem_singleton, hid, hjobs]
    by_cases hj : jid' = jid
    · subst hj
      refine ⟨fun _ => ⟨job, AList.lookup_insert _, ?_⟩, fun _ => Or.inr rfl⟩
      rw [hjob]
      exact h.client p hmem
    · rw [AList.lookup_insert_ne hj, ← h.started jid']
      exact ⟨fun ho => ho.resolve_right hj, Or.inl⟩

/-- Another step of the service. -/
theorem service (h : Sound s) {e : Operations.Event} {sys : System} {posts : List Post}
    (hother : elsewhere e = true) (hstep : s.sys.step e = some sys)
    (hkept : ∀ (i : Nat) q, posts[i]? = some q → ∃ p, s.posts[i]? = some p ∧
      (q = p ∨ q = { p with phase := State.ended p.phase })) :
    Sound { s with sys := sys, posts := posts } where
  requests := by
    refine h.requests.step hstep fun i fallback kind target scope payload before he hk => ?_
    subst he
    exact absurd (by simpa [elsewhere] using hother) hk
  client q hq := by
    obtain ⟨i, hi⟩ := List.getElem?_of_mem hq
    obtain ⟨p, hp, rfl | rfl⟩ := hkept i q hi
    · exact h.client q (List.mem_of_getElem? hp)
    · exact h.client p (List.mem_of_getElem? hp)
  prepared q hq := by
    obtain ⟨i, hi⟩ := List.getElem?_of_mem hq
    obtain ⟨p, hp, rfl | rfl⟩ := hkept i q hi
    · exact h.prepared q (List.mem_of_getElem? hp)
    · exact ended_prepared
  answered q hq := by
    obtain ⟨i, hi⟩ := List.getElem?_of_mem hq
    obtain ⟨p, hp, rfl | rfl⟩ := hkept i q hi
    · exact (h.answered q (List.mem_of_getElem? hp)).mono hstep
    · intro jid created hdone
      exact (h.answered p (List.mem_of_getElem? hp)).mono hstep jid created (ended_done hdone)
  once := h.once
  started jid := by
    rw [h.started jid]
    constructor
    · rintro ⟨job, hjob, hk⟩
      obtain ⟨job', hjob', hid, _⟩ := request_kept hstep hjob
      exact ⟨job', hjob', hid.2.1 ▸ hk⟩
    · rintro ⟨job', hjob', hk⟩
      cases job_from hstep hjob' with
      | kept j hj hid _ => exact ⟨j, hj, hid.2.1 ▸ hk⟩
      | retried j hj hid _ _ _ _ => exact ⟨j, hj, hid.2.1 ▸ hk⟩
      | submitted fallback kind target scope payload before he _ _ hjob =>
        subst he hjob
        exact absurd (show kind = .sandboxRecover by simpa [elsewhere] using hother) hk

theorem step (h : Sound s) (hstep : api.step s e = some s') : Sound s' := by
  cases step_stepped hstep with
  | posted kind target input hclient => exact h.posted hclient
  | goes _ i p phase hp hgoes => exact h.goes hp hgoes
  | created i p payload scope before jid fallback store job sys hp hphase hsubmit hsys =>
    exact h.created hp hphase hsubmit hsys
  | preview pid p hfresh =>
    have hkeep : ∀ pid' v, s.previews.lookup pid' = some v →
        (s.previews.insert pid p).lookup pid' = some v := by
      intro pid' v hv
      have hne : pid' ≠ pid := by
        rintro rfl
        rw [AList.lookup_eq_none.mpr hfresh] at hv
        cases hv
      rw [AList.lookup_insert_ne hne]
      exact hv
    exact ⟨h.requests.mono hkeep, h.client, fun p hp => (h.prepared p hp).mono hkeep, h.answered,
      h.once, h.started⟩
  | force pid p => exact ⟨h.requests, h.client, h.prepared, h.answered, h.once, h.started⟩
  | service e sys posts hother hsys hkept => exact h.service hother hsys hkept

end Sound

/-! ## §G The two comparisons -/

/-- The job has come from a post like this one. -/
def Post.Same (p : Post) (job : Job) : Prop :=
  job.kind = p.kind ∧ job.target = p.target ∧ job.originalInput = p.input

instance (p : Post) (job : Job) : Decidable (p.Same job) :=
  inferInstanceAs (Decidable (_ ∧ _ ∧ _))

def Post.Identical (p q : Post) : Prop := p.kind = q.kind ∧ p.target = q.target ∧ p.input = q.input

/-- The job that the store has under the request id of a post. -/
def State.earlier (s : State) (p : Post) : Option Job :=
  p.input.requestId.bind s.sys.store.byRequest

/-- The comparison of the payloads says what the comparison of the inputs says: an `agent.delete-empty` has
read the impacts that its job was submitted with, and a deletion has not been confirmed anew. -/
def comparesLike (p : Post) (payload : Payload) (job : Job) : Bool :=
  match p.kind with
  | .agentDeleteEmpty =>
    job.originalInput != p.input || job.payload.serviceImpacts == payload.serviceImpacts
  | .agentDelete =>
    job.attempts.isEmpty || decide (job.payload = payload) == decide (job.originalInput = p.input)
  | _ => true

/-- A post that comes to its transaction after the job of its request compares like its first look. -/
def agrees (s : State) : Event → Bool
  | .admission i _ _ =>
    match s.posts[i]? with
    | some p =>
      match p.phase, s.earlier p with
      | .ready payload _ _, some job =>
        job.kind != p.kind || job.target != p.target || comparesLike p payload job
      | _, _ => true
    | none => true
  | _ => true

theorem agrees_admission {s : State} {i : Nat} {jid fallback r : String} {p : Post} {payload : Payload}
    {scope : String} {before : Option SandboxBefore} {job : Job}
    (h : agrees s (.admission i jid fallback) = true) (hp : s.posts[i]? = some p)
    (hphase : p.phase = .ready payload scope before) (hr : p.input.requestId = some r)
    (hjob : s.sys.store.byRequest r = some job) (hkind : job.kind = p.kind)
    (htarget : job.target = p.target) : comparesLike p payload job = true := by
  have hearlier : s.earlier p = some job := by rw [State.earlier, hr]; exact hjob
  simp only [agrees, hp, hphase, hearlier] at h
  simpa [hkind, htarget] using h

/-- **The two comparisons agree.** -/
theorem payload_iff_input {s : State} (h : Sound s) {i : String} {p : Post} {payload : Payload}
    {scope : String} {before : Option SandboxBefore} {job : Job} (hp : p ∈ s.posts)
    (hphase : p.phase = .ready payload scope before) (hjob : s.sys.store.jobs.lookup i = some job)
    (hkind : job.kind = p.kind) (hagrees : comparesLike p payload job = true) :
    job.payload = payload ↔ job.originalInput = p.input := by
  have hready := (h.prepared p hp).ready hphase
  by_cases hattempts : job.attempts = []
  · -- nobody has changed the payload of the job since it was submitted
    have hmade := h.requests.enriched i job hjob (hkind ▸ h.client p hp) hattempts
    constructor
    · intro hpayload
      rw [← hmade.request, hpayload, hready.request]
    · intro hinput
      rw [hkind, hinput] at hmade
      refine hmade.unique hready fun hempty => ?_
      simpa [comparesLike, hempty, hinput] using hagrees
  · have hdelete : p.kind = .agentDelete := by
      by_contra hno
      exact hattempts (h.requests.once i job hjob (hkind ▸ hno))
    simpa [comparesLike, hdelete, hattempts] using hagrees

/-- The first look refuses a post for a job of its request from another input. -/
theorem look_different {s : State} {p : Post} {now : ℚ}
    (h : s.look p now = .refused differentOperation) :
    ∃ r job, p.input.requestId = some r ∧ s.sys.store.byRequest r = some job ∧ ¬p.Same job := by
  unfold State.look at h
  split at h
  · next job hjob =>
    obtain ⟨r, hr, hfound⟩ := Option.bind_eq_some_iff.mp hjob
    split at h
    · next hdifferent =>
      refine ⟨r, job, hr, hfound, fun hsame => ?_⟩
      simp [hsame.1, hsame.2.1, hsame.2.2] at hdifferent
    · cases h
  · simp only [State.enter] at h
    split at h
    · split at h
      · simp [staleForce, differentOperation] at h
      · cases h
    · split at h
      · split at h
        · simp [staleDeletion, differentOperation] at h
        · cases h
      all_goals cases h

theorem withImpact_different {p : Post} {preview : Option DeletePreview} {current : DeletionImpact} :
    State.withImpact p preview current ≠ .refused differentOperation := by
  unfold State.withImpact
  split
  · split
    · simp [differentOperation]
    · split <;> simp [differentOperation]
  · split <;> simp [differentOperation]

/-- What the answers to the posts say of their inputs. -/
structure Agreed (s : State) : Prop where
  same : ∀ p ∈ s.posts, ∀ jid created, p.phase = .done jid created → ∀ r, p.input.requestId = some r →
    ∀ job, s.sys.store.jobs.lookup jid = some job → job.originalInput = p.input
  different : ∀ p ∈ s.posts, p.phase = .refused differentOperation → ∀ r, p.input.requestId = some r →
    ∃ i job, s.sys.store.jobs.lookup i = some job ∧ job.requestId = r ∧ ¬p.Same job

namespace Agreed

variable {s s' : State} {e : Event}

theorem initial : Agreed State.initial where
  same p hp := by cases hp
  different p hp := by cases hp

theorem goes (h : Agreed s) (hs : Sound s) (hagrees : agrees s e = true) {i : Nat} {p : Post}
    {phase : Phase} (hp : s.posts[i]? = some p) (hgoes : Goes s i p e phase) : Agreed (s.put i p phase) where
  same q hq jid created hphase r hr job hjob := by
    rcases mem_put hq with hq | rfl
    · exact h.same q hq jid created hphase r hr job hjob
    · change phase = .done jid created at hphase
      change p.input.requestId = some r at hr
      cases hgoes with
      | looked now _ =>
        obtain ⟨_, job', _, hfound, hid, _, _, hinput⟩ := look_done hphase
        obtain ⟨i', hjob', _⟩ := byRequest_eq_some hfound
        obtain rfl : i' = jid := (hs.requests.ids i' job' hjob').symm.trans hid
        obtain rfl := Option.some.inj (hjob'.symm.trans hjob)
        exact hinput
      | failed | refused => cases hphase
      | impact preview current _ => exact absurd hphase withImpact_done
      | detail | checked => cases hphase
      | replayed jid' fallback payload scope before store job' hpc hsubmit =>
        injection hphase with hid
        have hmem := List.mem_of_getElem? hp
        have hfound := submit_replay hsubmit
        rw [((hs.prepared p hmem).ready hpc).request, hr, Option.getD_some] at hfound
        obtain ⟨i', hjob', _⟩ := byRequest_eq_some hfound
        obtain rfl : i' = jid := (hs.requests.ids i' job' hjob').symm.trans hid
        obtain rfl := Option.some.inj (hjob'.symm.trans hjob)
        obtain ⟨hkind, htarget, hpayload⟩ := submit_replay_same hsubmit
        have hlike := agrees_admission hagrees hp hpc hr hfound hkind htarget
        exact (payload_iff_input hs hmem hpc hjob' hkind hlike).mp hpayload
  different q hq hphase r hr := by
    rcases mem_put hq with hq | rfl
    · exact h.different q hq hphase r hr
    · change phase = .refused differentOperation at hphase
      change p.input.requestId = some r at hr
      cases hgoes with
      | looked now _ =>
        obtain ⟨r', job, hr', hfound, hdifferent⟩ := look_different hphase
        obtain rfl := Option.some.inj (hr.symm.trans hr')
        obtain ⟨i', hjob, hreq⟩ := byRequest_eq_some hfound
        exact ⟨i', job, hjob, hreq, hdifferent⟩
      | failed | replayed => cases hphase
      | impact preview current _ => exact absurd hphase withImpact_different
      | detail | checked => cases hphase
      | refused jid fallback payload scope before err hpc hsubmit =>
        injection hphase with herr
        have hmem := List.mem_of_getElem? hp
        obtain ⟨job, hfound, hdifferent⟩ := submit_eq_error hsubmit herr
        rw [((hs.prepared p hmem).ready hpc).request, hr, Option.getD_some] at hfound
        obtain ⟨i', hjob, hreq⟩ := byRequest_eq_some hfound
        refine ⟨i', job, hjob, hreq, fun hsame => hdifferent ⟨hsame.1, hsame.2.1, ?_⟩⟩
        have hlike := agrees_admission hagrees hp hpc hr hfound hsame.1 hsame.2.1
        exact (payload_iff_input hs hmem hpc hjob hsame.1 hlike).mpr hsame.2.2

/-- The jobs of a step of the service keep their inputs. -/
theorem service (h : Agreed s) (hs : Sound s) {e : Operations.Event} {sys : System}
    (hstep : s.sys.step e = some sys) {q : Post} (hq : q ∈ s.posts) :
    (∀ jid created, q.phase = .done jid created → ∀ r, q.input.requestId = some r →
      ∀ job, sys.store.jobs.lookup jid = some job → job.originalInput = q.input) ∧
    (q.phase = .refused differentOperation → ∀ r, q.input.requestId = some r →
      ∃ i job, sys.store.jobs.lookup i = some job ∧ job.requestId = r ∧ ¬q.Same job) := by
  constructor
  · intro jid created hphase r hr job hjob
    obtain ⟨old, hold, _⟩ := hs.answered q hq jid created hphase
    obtain ⟨job', hjob', _, _, horiginal⟩ := request_kept hstep hold
    obtain rfl := Option.some.inj (hjob.symm.trans hjob')
    exact horiginal.trans (h.same q hq jid created hphase r hr old hold)
  · intro hphase r hr
    obtain ⟨i, old, hold, hreq, hdifferent⟩ := h.different q hq hphase r hr
    obtain ⟨job, hjob, hid, hreq', horiginal⟩ := request_kept hstep hold
    refine ⟨i, job, hjob, hreq'.trans hreq, fun hsame => hdifferent ?_⟩
    exact ⟨hid.2.1.symm.trans hsame.1, hid.2.2.1.symm.trans hsame.2.1, horiginal.symm.trans hsame.2.2⟩

end Agreed

namespace Agreed

variable {s s' : State} {e : Event}

theorem created (h : Agreed s) (hs : Sound s) {i : Nat} {p : Post} {payload : Payload} {scope : String}
    {before : Option SandboxBefore} {jid fallback : String} {store : Store} {job : Job} {sys : System}
    (hp : s.posts[i]? = some p) (hphase : p.phase = .ready payload scope before)
    (hsubmit : s.sys.store.submit jid fallback p.kind p.target scope payload before =
      .ok (store, job, true))
    (hstep : s.sys.step (.submit jid fallback p.kind p.target scope payload before) = some sys) :
    Agreed { s.put i p (.done job.id true) with sys := sys, started := s.started ++ [job.id] } where
  same q hq := by
    rcases mem_put hq with hq | rfl
    · exact (h.service hs hstep hq).1
    · intro jid' created hdone r hr job' hjob'
      injection hdone with hjid _
      obtain ⟨_, hjobs, hjob⟩ := submit_stores hsubmit hstep
      have hid : job.id = jid := by rw [hjob]; rfl
      change sys.store.jobs.lookup jid' = some job' at hjob'
      rw [← hjid, hid, hjobs, AList.lookup_insert] at hjob'
      rw [← Option.some.inj hjob', hjob]
      exact ((hs.prepared p (List.mem_of_getElem? hp)).ready hphase).request
  different q hq := by
    rcases mem_put hq with hq | rfl
    · exact (h.service hs hstep hq).2
    · intro hrefused
      cases hrefused

theorem step (h : Agreed s) (hs : Sound s) (hagrees : agrees s e = true) (hstep : api.step s e = some s') :
    Agreed s' := by
  cases step_stepped hstep with
  | posted kind target input hclient =>
    constructor
    · intro p hp jid created hphase
      rcases List.mem_append.mp hp with hp | hp
      · exact h.same p hp jid created hphase
      · rw [List.mem_singleton.mp hp] at hphase
        cases hphase
    · intro p hp hphase
      rcases List.mem_append.mp hp with hp | hp
      · exact h.different p hp hphase
      · rw [List.mem_singleton.mp hp] at hphase
        cases hphase
  | goes _ i p phase hp hgoes => exact h.goes hs hagrees hp hgoes
  | created i p payload scope before jid fallback store job sys hp hphase hsubmit hsys =>
    exact h.created hs hp hphase hsubmit hsys
  | preview | force => exact ⟨h.same, h.different⟩
  | service e sys posts hother hsys hkept =>
    constructor
    · intro q hq jid created hphase
      obtain ⟨i, hi⟩ := List.getElem?_of_mem hq
      obtain ⟨p, hp, rfl | rfl⟩ := hkept i q hi
      · exact (h.service hs hsys (List.mem_of_getElem? hp)).1 jid created hphase
      · refine (h.service hs hsys (List.mem_of_getElem? hp)).1 jid created ?_
        exact ended_done hphase
    · intro q hq hphase
      obtain ⟨i, hi⟩ := List.getElem?_of_mem hq
      obtain ⟨p, hp, rfl | rfl⟩ := hkept i q hi
      · exact (h.service hs hsys (List.mem_of_getElem? hp)).2 hphase
      · refine (h.service hs hsys (List.mem_of_getElem? hp)).2 ?_
        exact ended_refused hphase

end Agreed

/-! ## §H Identical submissions -/

/-- `submit` has come to its own end. -/
def Phase.answered : Phase → Bool
  | .done .. | .refused _ => true
  | _ => false

/-- A post whose job is there already is not stopped by what it reads of the impacts. -/
def unmoved (s : State) : Event → Bool
  | .impact i (.ok current) =>
    match s.posts[i]? with
    | some p =>
      match p.phase, s.earlier p with
      | .impact (some preview), some job =>
        !decide (p.Same job) ||
          (current.serviceImpacts == preview.impacts && current.detail.lifecycle != .active)
      | .impact none, some job =>
        !decide (p.Same job) || (current.detail.sandboxes.isEmpty && current.detail.sessions == 0 &&
          current.detail.files == 0)
      | _, _ => true
    | none => true
  | _ => true

theorem ended_answered {phase : Phase} (h : phase.answered = false) :
    (State.ended phase).answered = false := by
  cases phase <;> first | rfl | exact h

/-- A post that comes to its end after the job of its input is there is answered with this job. -/
def Settles (s : State) (e : Event) : Prop :=
  ∀ t, api.step s e = some t → ∀ (i : Nat) p q, s.posts[i]? = some p → t.posts[i]? = some q →
    p.phase.answered = false → q.phase.answered = true →
    ∀ job, s.earlier p = some job → p.Same job → q.phase = .done job.id false

theorem look_settles {s : State} {p : Post} {now : ℚ} {job : Job} (hearlier : s.earlier p = some job)
    (hsame : p.Same job) : s.look p now = .done job.id false := by
  rw [State.earlier] at hearlier
  simp [State.look, hearlier, hsame.1, hsame.2.1, hsame.2.2]

theorem withImpact_unmoved {s : State} {i : Nat} {p : Post} {preview : Option DeletePreview}
    {current : DeletionImpact} {job : Job} (h : unmoved s (.impact i (.ok current)) = true)
    (hp : s.posts[i]? = some p) (hphase : p.phase = .impact preview)
    (hearlier : s.earlier p = some job) (hsame : p.Same job) :
    (State.withImpact p preview current).answered = false := by
  cases preview with
  | some preview =>
    simp only [unmoved, hp, hphase, hearlier, hsame, decide_true, Bool.not_true, Bool.false_or,
      Bool.and_eq_true, beq_iff_eq, bne_iff_ne, ne_eq] at h
    simp only [State.withImpact, h.1, ne_eq, not_true_eq_false, if_false, h.2]
    rfl
  | none =>
    simp only [unmoved, hp, hphase, hearlier, hsame, decide_true, Bool.not_true, Bool.false_or,
      Bool.and_eq_true, beq_iff_eq] at h
    simp only [State.withImpact, h.1.1, h.1.2, h.2, Bool.not_true, bne_self_eq_false, Bool.or_false,
      Bool.false_eq_true, if_false]
    rfl

theorem goes_settles {s : State} {e : Event} {i : Nat} {p : Post} {phase : Phase} {job : Job} (hs : Sound s)
    (hagrees : agrees s e = true) (hunmoved : unmoved s e = true) (hp : s.posts[i]? = some p)
    (hgoes : Goes s i p e phase) (hanswered : phase.answered = true)
    (hearlier : s.earlier p = some job) (hsame : p.Same job) : phase = .done job.id false := by
  have hmem := List.mem_of_getElem? hp
  obtain ⟨r, hr, hfound⟩ := Option.bind_eq_some_iff.mp hearlier
  have hrequest : ∀ {payload scope before}, p.phase = .ready payload scope before →
      ∀ fallback, payload.request.requestId.getD fallback = r := by
    intro payload scope before hphase fallback
    rw [((hs.prepared p hmem).ready hphase).request, hr, Option.getD_some]
  cases hgoes with
  | looked now _ => exact look_settles hearlier hsame
  | failed | detail | checked => cases hanswered
  | impact preview current hphase =>
    rw [withImpact_unmoved hunmoved hp hphase hearlier hsame] at hanswered
    cases hanswered
  | refused jid fallback payload scope before err hphase hsubmit =>
    -- the store finds the job, and its payload is the one of the post
    obtain ⟨i', hjob, _⟩ := byRequest_eq_some hfound
    have hlike := agrees_admission hagrees hp hphase hr hfound hsame.1 hsame.2.1
    have hpayload := (payload_iff_input hs hmem hphase hjob hsame.1 hlike).mpr hsame.2.2
    rw [Store.submit, hrequest hphase fallback, hfound] at hsubmit
    simp [hsame.1, hsame.2.1, hpayload] at hsubmit
  | replayed jid fallback payload scope before store job' hphase hsubmit =>
    have hjob' := submit_replay hsubmit
    rw [hrequest hphase fallback, hfound] at hjob'
    rw [Option.some.inj hjob']

theorem settles_step {s : State} {e : Event} (hs : Sound s) (hagrees : agrees s e = true)
    (hunmoved : unmoved s e = true) : Settles s e := by
  intro t hstep j p q hp hq hbefore hafter job hearlier hsame
  have hkept : p ≠ q := by
    rintro rfl
    rw [hbefore] at hafter
    cases hafter
  cases step_stepped hstep with
  | posted kind target input hclient =>
    change (s.posts ++ _)[j]? = some q at hq
    rw [List.getElem?_append_left (List.getElem?_eq_some_iff.mp hp).1, hp] at hq
    exact absurd (Option.some.inj hq) hkept
  | goes _ i p' phase hp' hgoes =>
    change (s.posts.set i _)[j]? = some q at hq
    by_cases hi : i = j
    · subst hi
      obtain rfl := Option.some.inj (hp.symm.trans hp')
      rw [List.getElem?_set_self (List.getElem?_eq_some_iff.mp hp).1] at hq
      obtain rfl := Option.some.inj hq
      exact goes_settles hs hagrees hunmoved hp hgoes hafter hearlier hsame
    · rw [List.getElem?_set_ne hi, hp] at hq
      exact absurd (Option.some.inj hq) hkept
  | created i p' payload scope before jid fallback store job' sys hp' hphase hsubmit hsys =>
    change (s.posts.set i _)[j]? = some q at hq
    by_cases hi : i = j
    · subst hi
      obtain rfl := Option.some.inj (hp.symm.trans hp')
      -- the request has a job already, so none is created
      obtain ⟨r, hr, hfound⟩ := Option.bind_eq_some_iff.mp hearlier
      have hnone := submit_created hsubmit
      rw [((hs.prepared p (List.mem_of_getElem? hp)).ready hphase).request, hr, Option.getD_some,
        hfound] at hnone
      cases hnone
    · rw [List.getElem?_set_ne hi, hp] at hq
      exact absurd (Option.some.inj hq) hkept
  | preview | force => exact absurd (Option.some.inj (hp.symm.trans hq)) hkept
  | service e sys posts hother hsys hended =>
    obtain ⟨p', hp', hq' | hq'⟩ := hended j q hq
    · exact absurd ((Option.some.inj (hp.symm.trans hp')).trans hq'.symm) hkept
    · obtain rfl := Option.some.inj (hp.symm.trans hp')
      rw [hq', ended_answered hbefore] at hafter
      cases hafter

variable {es : List Event} {s : State}

theorem sound_run (h : api.run State.initial es = some s) : Sound s :=
  api.run_always (fun _ _ _ hs hstep => hs.step hstep) Sound.initial h

theorem agreed_run (h : api.run State.initial es = some s)
    (hagrees : api.Along (fun s e => agrees s e = true) State.initial es) : Agreed s :=
  (api.run_invariant (C := fun s e => agrees s e = true) (I := fun s => Sound s ∧ Agreed s)
    (fun _ _ _ hs hC hstep => ⟨hs.1.step hstep, hs.2.step hs.1 hC hstep⟩)
    ⟨Sound.initial, Agreed.initial⟩ h hagrees).2

/-- The job of an accepted post is the only one of its request, and it was started once. -/
theorem Sound.accepted (h : Sound s) {p : Post} (hp : p ∈ s.posts) {jid : String} {created : Bool}
    (hdone : p.phase = .done jid created) {r : String} (hr : p.input.requestId = some r) :
    (∃ job, s.sys.store.jobs.lookup jid = some job ∧ job.requestId = r) ∧
      (∀ i job, s.sys.store.jobs.lookup i = some job → job.requestId = r → i = jid) ∧
      s.started.count jid = 1 := by
  obtain ⟨job, hjob, hkind, _, hreq⟩ := h.answered p hp jid created hdone
  refine ⟨⟨job, hjob, hreq r hr⟩, fun i job' hjob' hr' => ?_, ?_⟩
  · exact h.requests.unique i job' jid job hjob' hjob (hr'.trans (hreq r hr).symm)
  · refine List.count_eq_one_of_mem h.once ((h.started jid).mpr ⟨job, hjob, ?_⟩)
    rw [hkind]
    exact h.client p hp

/-- **One job for each request id.** Posts with the same request id are answered with one job, which is the
only one of the request and started once. None of them is refused as a different operation, and none that
comes to its end after the job is there is answered otherwise, as long as the impacts that it has put into
its payload are those of the job. -/
theorem submissions_idempotent (hrun : api.run State.initial es = some s) :
    (∀ p ∈ s.posts, ∀ q ∈ s.posts, p.Identical q → ∀ r, p.input.requestId = some r →
      ∀ jid created jid' created', p.phase = .done jid created → q.phase = .done jid' created' →
        jid' = jid) ∧
    (∀ p ∈ s.posts, ∀ r, p.input.requestId = some r → ∀ jid created, p.phase = .done jid created →
      (∃ job, s.sys.store.jobs.lookup jid = some job ∧ job.requestId = r) ∧
      (∀ i job, s.sys.store.jobs.lookup i = some job → job.requestId = r → i = jid) ∧
      s.started.count jid = 1) ∧
    (api.Along (fun s e => agrees s e = true) State.initial es →
      ∀ p ∈ s.posts, p.phase = .refused differentOperation → ∀ r, p.input.requestId = some r →
        (∃ i job, s.sys.store.jobs.lookup i = some job ∧ job.requestId = r ∧ ¬p.Same job) ∧
        ∀ q ∈ s.posts, p.Identical q → ∀ jid created, q.phase ≠ .done jid created) ∧
    (api.Along (fun s e => agrees s e = true ∧ unmoved s e = true) State.initial es →
      api.Along Settles State.initial es) := by
  have hs := sound_run hrun
  refine ⟨?_, ?_, ?_, ?_⟩
  · intro p hp q hq hsame r hr jid created jid' created' hdone hdone'
    obtain ⟨_, honly, _⟩ := hs.accepted hp hdone hr
    obtain ⟨⟨job, hjob, hreq⟩, _⟩ := hs.accepted hq hdone' (hsame.2.2 ▸ hr)
    exact honly jid' job hjob hreq
  · intro p hp r hr jid created hdone
    exact hs.accepted hp hdone hr
  · intro hagrees p hp hrefused r hr
    have ha := agreed_run hrun hagrees
    obtain ⟨i, job, hjob, hreq, hdifferent⟩ := ha.different p hp hrefused r hr
    refine ⟨⟨i, job, hjob, hreq, hdifferent⟩, fun q hq hsame jid created hdone => hdifferent ?_⟩
    -- the job of the accepted post is the one of the request, and has its input
    have hr' : q.input.requestId = some r := hsame.2.2 ▸ hr
    obtain ⟨_, honly, _⟩ := hs.accepted hq hdone hr'
    obtain rfl := honly i job hjob hreq
    obtain ⟨job', hjob', hkind, htarget, _⟩ := hs.answered q hq i created hdone
    obtain rfl := Option.some.inj (hjob.symm.trans hjob')
    exact ⟨hkind.trans hsame.1.symm, htarget.trans hsame.2.1.symm,
      (ha.same q hq i created hdone r hr' job hjob).trans hsame.2.2.symm⟩
  · intro hC
    exact api.along_of_invariant (C := fun s e => agrees s e = true ∧ unmoved s e = true) (I := Sound)
      (fun _ _ _ h _ hstep => h.step hstep) (fun _ _ h hC => settles_step h hC.1 hC.2) Sound.initial hC

/-! ### Two posts of one request -/

def sampleInput : Request :=
  ⟨some "delete-empty-1", none, none, none, none, none, none, none⟩

def sampleImpact (revision : Nat) : DeletionImpact :=
  ⟨"catalog", "sandbox", "files", ⟨revision, .active, [], [], 0, 0, 0⟩⟩

/-- Two posts look before there is a job, and read the impacts; the first creates the job. -/
def twoPosts (first second : Nat) : List Event :=
  [.post .agentDeleteEmpty "a" sampleInput, .post .agentDeleteEmpty "a" sampleInput, .look 0 0, .look 1 0,
    .impact 0 (.ok (sampleImpact first)), .impact 1 (.ok (sampleImpact second)), .check 0 (.ok ()),
    .check 1 (.ok ()), .admission 0 "j1" "f1", .service (.work 0 false), .admission 1 "j2" "f2"]

def State.phases (s : State) : List (Option (Bool × Option String)) :=
  s.posts.map fun p =>
    match p.phase with
    | .done jid created => some (created, some jid)
    | .refused e => if e = differentOperation then some (false, none) else none
    | _ => none

/-- Two posts that read the same impacts, and a third one that comes later. -/
def threePosts : List Event :=
  twoPosts 1 1 ++ [.post .agentDeleteEmpty "a" sampleInput, .look 2 0]

/-- They are answered with one job. -/
theorem threePosts_idempotent : ∃ s, api.run State.initial threePosts = some s ∧
    s.phases = [some (true, some "j1"), some (false, some "j1"), some (false, some "j1")] ∧
    (∀ p ∈ s.posts, ∀ r, p.input.requestId = some r → ∀ jid created, p.phase = .done jid created →
      s.started.count jid = 1) ∧
    api.Along Settles State.initial threePosts := by
  have hends : (api.run State.initial threePosts).map (·.phases) =
      some [some (true, some "j1"), some (false, some "j1"), some (false, some "j1")] := by decide +kernel
  obtain ⟨s, hrun, hphases⟩ := Option.map_eq_some_iff.mp hends
  obtain ⟨_, hone, _, hsettles⟩ := submissions_idempotent hrun
  refine ⟨s, hrun, hphases, fun p hp r hr jid created hdone => ?_, hsettles (by decide +kernel)⟩
  exact (hone p hp r hr jid created hdone).2.2

/-- **An identical post is refused**: the catalog moves on between the two reads of the impacts, so the second
post has another payload than the job of its own request. -/
theorem identical_post_refused : ∃ s, api.run State.initial (twoPosts 1 2) = some s ∧
    s.phases = [some (true, some "j1"), some (false, none)] ∧
    s.posts.map (fun p => (p.kind, p.target, p.input)) =
      [(.agentDeleteEmpty, "a", sampleInput), (.agentDeleteEmpty, "a", sampleInput)] := by
  have hends : (api.run State.initial (twoPosts 1 2)).map (fun s =>
        (s.phases, s.posts.map fun p => (p.kind, p.target, p.input))) =
      some ([some (true, some "j1"), some (false, none)],
        [(.agentDeleteEmpty, "a", sampleInput), (.agentDeleteEmpty, "a", sampleInput)]) := by decide +kernel
  obtain ⟨s, hrun, hs⟩ := Option.map_eq_some_iff.mp hends
  exact ⟨s, hrun, (Prod.mk.inj hs).1, (Prod.mk.inj hs).2⟩

end OpencodeCloud.Operations.Submissions
