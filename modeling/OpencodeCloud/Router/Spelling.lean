/-
# OpencodeCloud.Router.Spelling -- the path that is authorized and the path that is sent

`native_router.proxy` decides about the percent-decoded path of a request, with checks of its own, with
`Admission.authorize` and with the catalog's `Compiler.authorize`. Then it puts the path into a URL, and
the client that sends the request reads that URL by RFC 3986: the sandbox sees `effectivePath path`.

Every test of the path puts it into a class. A spelling is harmless when the path it is read as is in
the same classes as far as they let something through (`SameClasses`); for every other spelling there
is a state of the platform in which the request is admitted although it would be refused under the path
the sandbox sees (`faithful_iff`).
-/
import OpencodeCloud.Catalog.Authorize
import OpencodeCloud.Library.Checks
import OpencodeCloud.Router.Handler

namespace OpencodeCloud.Router

open OpencodeCloud.Library OpencodeCloud.Library.Uri OpencodeCloud.Library.Checked
open OpencodeCloud.Catalog (Document endsWith isExempt isManaged isMutation isPrompt isWrite)

/-! ## The checks of the router -/

def Method.text : Method → String
  | .get => "GET"
  | .head => "HEAD"
  | .options => "OPTIONS"
  | .delete => "DELETE"
  | .post => "POST"
  | .put => "PUT"
  | .patch => "PATCH"

/-- Paths that the router does not serve. -/
def isHidden (path : List Char) : Bool := path == "doc".toList || "cloud/".toList.isPrefixOf path

/-- Native operations that would move a session to another directory. -/
def isMoving (path : List Char) : Bool :=
  path == "experimental/control-plane/move-session".toList
    || path == "experimental/workspace/warp".toList

/-- A session id: `ses_` and at least one more character. -/
def sessionSegment (segment : Segment) : Option String :=
  if "ses_".toList.isPrefixOf segment && segment.length > 4 then some (String.ofList segment) else none

/-- The group of `^(?:api/)?session/(ses_[^/]+)(?:/|$)`. -/
def sessionOf (path : List Char) : Option String :=
  match segments path with
  | session :: id :: rest =>
    if session = "session".toList then sessionSegment id
    else
      match rest with
      | id' :: _ =>
        if session = "api".toList ∧ id = "session".toList then sessionSegment id' else none
      | [] => none
  | _ => none

/-- A path that an abort or an interrupt has. -/
def isQuiet (path : List Char) : Bool := endsWith path "/abort" || endsWith path "/interrupt"

/-- Agent and user of a session, or of a request. -/
structure Owner where
  agentId : String
  username : String
  deriving DecidableEq

/-- The routing metadata of a request; the empty text stands for what is not given. -/
structure Metadata where
  owner : Owner
  contextSession : String

/-- What the decision depends on besides the request. -/
structure Platform where
  /-- `registry.get_session_route` -/
  sessions : Dict String Owner
  /-- `admission.blocked` -/
  blocked : List String
  /-- the document of the catalog -/
  data : Document

/-- The session a request is about: that of the URL, or else that of its context. -/
def sessionRoute (sessions : Dict String Owner) (session : Option String) (context : String) :
    Checked (Option Owner) :=
  let route := session.bind sessions.lookup
  if context = "" then .ok route
  else
    match sessions.lookup context with
    | none => raise 404 "Unknown session context"
    | some contextual =>
      match route with
      | none => .ok (some contextual)
      | some owner =>
        if session = some context then .ok (some owner)
        else raise 409 "Session context conflicts with URL"

/-- `_resolve_owner`. -/
def resolveOwner (route : Option Owner) (given : Owner) : Checked Owner :=
  match route with
  | some owner => do
    refuse (given.agentId != "" && given.agentId != owner.agentId) 409
      "session Agent route conflicts with request"
    refuse (given.username != "" && given.username != owner.username) 409
      "session user route conflicts with request"
    return owner
  | none => do
    refuse (given.agentId == "" || given.username == "") 400
      "Agent and username routing metadata are required"
    return given

/-- An answer of the catalog, passed on. -/
def passOn {α : Type} : Catalog.Result α → Checked α
  | .ok a => .ok a
  | .error failure => raise failure.status failure.detail

/-- What is decided about a request before its sandbox is acquired: the owner it acts for, whether it
counts as a mutation, and its body. -/
def accept (p : Platform) (method : Method) (path : List Char) (metadata : Metadata)
    (payload : Json) : Checked (Owner × Bool × Json) := do
  refuse (isHidden path) 404 "route not found"
  refuse (isMoving path) 403 "Session directories are managed by the platform"
  let route ← sessionRoute p.sessions (sessionOf path) metadata.contextSession
  let owner ← resolveOwner route metadata.owner
  refuse ((p.blocked.contains owner.agentId || p.blocked.contains "*") && !isQuiet path) 503
    "Agent lifecycle operation in progress"
  let result ← passOn (Catalog.authorize p.data owner.agentId method.text path payload)
  return (owner, result.1, result.2)

/-- The decision is the one about the path that is sent: whoever is admitted would be admitted with it,
for the same owner. -/
def Faithful (method : Method) (path : List Char) : Prop :=
  ∀ (p : Platform) metadata payload r, p.data.Assigned → accept p method path metadata payload = .ok r →
    ∃ r', accept p method (effectivePath path) metadata payload = .ok r' ∧ r'.1 = r.1

/-! ## The classes of a path -/

/-- No request of this method is admitted on the path, whoever makes it. -/
def isWithheld (method : Method) (path : List Char) : Bool :=
  isHidden path || isMoving path || (isWrite method.text && isManaged path)

/-- The path `sent` is in the classes of `path`, as far as a class of `path` lets something through. -/
structure SameClasses (method : Method) (path sent : List Char) : Prop where
  offered : isWithheld method sent = false
  session : sessionOf sent = sessionOf path
  quiet : isQuiet path = true → isQuiet sent = true
  exempt : isMutation method.text = true → isExempt path = true → isExempt sent = true
  prompt : isMutation method.text = true → isPrompt path = true → isPrompt sent = true

theorem passOn_eq_ok {α : Type} {x : Catalog.Result α} {a : α} :
    passOn x = .ok a ↔ x = .ok a := by
  cases x with
  | ok b => simp [passOn]
  | error e => simp [passOn]

/-- **What admits a request** with the given owner. -/
theorem admit_iff {p : Platform} (hdata : p.data.Assigned) {method : Method} {path : List Char}
    {metadata : Metadata} {payload : Json} {owner : Owner} :
    (∃ r, accept p method path metadata payload = .ok r ∧ r.1 = owner) ↔
      isWithheld method path = false ∧
      (∃ route, sessionRoute p.sessions (sessionOf path) metadata.contextSession = .ok route ∧
        resolveOwner route metadata.owner = .ok owner) ∧
      ((p.blocked.contains owner.agentId || p.blocked.contains "*") = true → isQuiet path = true) ∧
      ∃ agent active, p.data.agents.lookup owner.agentId = some agent ∧
        agent.lifecycle ≠ .deleting ∧ Catalog.agentConfig agent = some active ∧
        (isMutation method.text = true → isExempt path = false →
          agent.lifecycle ≠ .archived ∧ active.enabled = true) ∧
        Catalog.ModelFits active (isMutation method.text && isPrompt path) payload := by
  have hauthorize := @Catalog.authorize_iff p.data hdata owner.agentId method.text path payload
  constructor
  · rintro ⟨r, h, rfl⟩
    simp only [accept, bind_eq_ok, refuse_eq_ok, passOn_eq_ok, pure_eq_ok] at h
    obtain ⟨_, hhidden, _, hmoving, route, hroute, o, howner, _, hblocked, result, hresult, rfl⟩ := h
    obtain ⟨agent, active, hagent, hdeleting, hactive, hgenerates, hmanaged, hmodel⟩ :=
      hauthorize.mp ⟨result, hresult⟩
    refine ⟨by simp [isWithheld, hhidden, hmoving, hmanaged], ⟨route, hroute, howner⟩, ?_,
      agent, active, hagent, hdeleting, hactive, hgenerates, hmodel⟩
    intro hb
    rw [hb] at hblocked
    simpa using hblocked
  · rintro ⟨hwithheld, ⟨route, hroute, howner⟩, hblocked, agent, active, hagent, hdeleting, hactive,
      hgenerates, hmodel⟩
    simp only [isWithheld, Bool.or_eq_false_iff] at hwithheld
    obtain ⟨⟨hhidden, hmoving⟩, hmanaged⟩ := hwithheld
    obtain ⟨result, hresult⟩ := hauthorize.mpr
      ⟨agent, active, hagent, hdeleting, hactive, hgenerates, hmanaged, hmodel⟩
    refine ⟨(owner, result.1, result.2), ?_, rfl⟩
    simp only [accept, bind_eq_ok, refuse_eq_ok, passOn_eq_ok, pure_eq_ok]
    refine ⟨(), hhidden, (), hmoving, route, hroute, owner, howner, (), ?_, result, hresult, rfl⟩
    cases hb : p.blocked.contains owner.agentId || p.blocked.contains "*" with
    | false => rfl
    | true => simp [hblocked hb]

/-- Within the same classes the decision is the same. -/
theorem SameClasses.faithful {method : Method} {path : List Char}
    (h : SameClasses method path (effectivePath path)) : Faithful method path := by
  intro p metadata payload r hdata hadmit
  obtain ⟨-, hroute, hblocked, agent, active, hagent, hdeleting, hactive, hgenerates, hmodel⟩ :=
    (admit_iff hdata).mp ⟨r, hadmit, rfl⟩
  refine (admit_iff hdata).mpr ⟨h.offered, h.session ▸ hroute, fun hb => h.quiet (hblocked hb),
    agent, active, hagent, hdeleting, hactive, fun hmutation hexempt => ?_, fun hprompt => ?_⟩
  · refine hgenerates hmutation ?_
    cases he : isExempt path with
    | false => rfl
    | true => exact absurd (h.exempt hmutation he) (by simp [hexempt])
  · refine hmodel fun hp => hprompt ?_
    rw [Bool.and_eq_true] at hp ⊢
    exact ⟨hp.1, h.prompt hp.1 hp.2⟩

/-! ## States that tell two paths apart -/

section Telling

def sampleConfig : Catalog.AgentConfig where
  name := "Agent"
  description := ""
  enabled := true
  instructions := ""
  allowedModelIds := ["model"]
  defaultModelId := "model"
  smallModelId := none
  cpuLimit := none
  memoryMb := none
  bindings := []

/-- An agent with one version, in the given lifecycle. -/
def sampleAgent (lifecycle : Catalog.Lifecycle) : Catalog.Agent where
  id := "agent"
  draft := sampleConfig
  versions := [⟨1, sampleConfig, ∅⟩]
  active := some 1
  lifecycle := lifecycle

def sampleDocument (lifecycle : Catalog.Lifecycle) : Document where
  models := ∅
  resources := ∅
  agents := (∅ : Dict String Catalog.Agent).insert "agent" (sampleAgent lifecycle)
  gatewayVersions := []
  gatewayActive := none
  releases := ∅
  agentTemplates := ∅
  agentTombstones := ∅

theorem sampleDocument_assigned (lifecycle : Catalog.Lifecycle) :
    (sampleDocument lifecycle).Assigned := by
  have hconfig : sampleConfig.Assigned := by
    intro mid hmid
    simpa [Catalog.AgentConfig.modelIds, sampleConfig, Catalog.present] using hmid
  refine ⟨fun aid a ha cfg hcfg => ?_, fun rid r hr => by simp [sampleDocument] at hr⟩
  rcases Dict.lookup_insert_cases ha with ⟨rfl, rfl⟩ | ⟨-, hnone⟩
  · obtain rfl : cfg = sampleConfig := by
      simpa [Catalog.Agent.configs, sampleAgent] using hcfg
    exact hconfig
  · simp at hnone

def sampleOwner : Owner := ⟨"agent", "user"⟩

def nobody : Owner := ⟨"", ""⟩

/-- A platform with the sample agent. -/
def samplePlatform (sessions : Dict String Owner) (blocked : List String)
    (lifecycle : Catalog.Lifecycle) : Platform :=
  ⟨sessions, blocked, sampleDocument lifecycle⟩

/-- What the sample platform admits, for its agent. -/
theorem sample_admit_iff {sessions : Dict String Owner} {blocked : List String}
    {lifecycle : Catalog.Lifecycle} (hlifecycle : lifecycle ≠ .deleting) {method : Method}
    {path : List Char} {given : Owner} {payload : Json} :
    (∃ r, accept (samplePlatform sessions blocked lifecycle) method path ⟨given, ""⟩ payload = .ok r ∧
        r.1 = sampleOwner) ↔
      isWithheld method path = false ∧
      resolveOwner ((sessionOf path).bind sessions.lookup) given = .ok sampleOwner ∧
      ((blocked.contains "agent" || blocked.contains "*") = true → isQuiet path = true) ∧
      (isMutation method.text = true → isExempt path = false → lifecycle ≠ .archived) ∧
      Catalog.ModelFits sampleConfig (isMutation method.text && isPrompt path) payload := by
  have hagent : (samplePlatform sessions blocked lifecycle).data.agents.lookup sampleOwner.agentId
      = some (sampleAgent lifecycle) := AList.lookup_insert _
  have hactive : Catalog.agentConfig (sampleAgent lifecycle) = some sampleConfig := rfl
  rw [admit_iff (sampleDocument_assigned lifecycle)]
  refine and_congr_right fun _ => and_congr ?_ (and_congr_right fun _ => ?_)
  · simp only [sessionRoute, if_true, Except.ok.injEq, exists_eq_left']
    rfl
  · constructor
    · rintro ⟨agent, active, ha, -, hc, hgenerates, hmodel⟩
      obtain rfl := Option.some.inj (hagent.symm.trans ha)
      obtain rfl := Option.some.inj (hactive.symm.trans hc)
      exact ⟨fun hm he => (hgenerates hm he).1, hmodel⟩
    · rintro ⟨hgenerates, hmodel⟩
      exact ⟨sampleAgent lifecycle, sampleConfig, hagent, hlifecycle, hactive,
        fun hm he => ⟨hgenerates hm he, rfl⟩, hmodel⟩

variable {method : Method} {path : List Char}

/-- A request that the sample platform admits on a faithful path is admitted on the path sent. -/
theorem Faithful.sample (h : Faithful method path) (sessions : Dict String Owner)
    (blocked : List String) (given : Owner) (payload : Json) {lifecycle : Catalog.Lifecycle}
    (hlifecycle : lifecycle ≠ .deleting) (hwithheld : isWithheld method path = false)
    (howner : resolveOwner ((sessionOf path).bind sessions.lookup) given = .ok sampleOwner)
    (hblocked : (blocked.contains "agent" || blocked.contains "*") = true → isQuiet path = true)
    (hgenerates : isMutation method.text = true → isExempt path = false → lifecycle ≠ .archived)
    (hmodel : Catalog.ModelFits sampleConfig (isMutation method.text && isPrompt path) payload) :
    isWithheld method (effectivePath path) = false ∧
      resolveOwner ((sessionOf (effectivePath path)).bind sessions.lookup) given
        = .ok sampleOwner ∧
      ((blocked.contains "agent" || blocked.contains "*") = true →
        isQuiet (effectivePath path) = true) ∧
      (isMutation method.text = true → isExempt (effectivePath path) = false →
        lifecycle ≠ .archived) ∧
      Catalog.ModelFits sampleConfig (isMutation method.text && isPrompt (effectivePath path))
        payload := by
  obtain ⟨r, hr, howns⟩ := (sample_admit_iff hlifecycle).mpr
    ⟨hwithheld, howner, hblocked, hgenerates, hmodel⟩
  obtain ⟨r', hr', howns'⟩ := h _ _ _ _ (sampleDocument_assigned lifecycle) hr
  exact (sample_admit_iff hlifecycle).mp ⟨r', hr', howns'.trans howns⟩

/-- An empty body selects no model. -/
theorem modelFits_empty (prompt : Bool) :
    Catalog.ModelFits sampleConfig prompt (.object []) := fun _ => rfl

/-- A session of the sample owner, and one of somebody else's agent. -/
def twoSessions (mine other : String) : Dict String Owner :=
  ((∅ : Dict String Owner).insert other ⟨"other", "user"⟩).insert mine sampleOwner

theorem Faithful.sameSession (h : Faithful method path) (hwithheld : isWithheld method path = false) :
    sessionOf (effectivePath path) = sessionOf path := by
  have hactive : Catalog.Lifecycle.active ≠ .deleting := nofun
  have hplain := fun sessions given howner => h.sample sessions [] given (.object []) hactive
    hwithheld howner (by simp)
    (fun _ _ => nofun) (modelFits_empty _)
  by_contra hne
  cases hpath : sessionOf path with
  | none =>
    cases hsent : sessionOf (effectivePath path) with
    | none => exact hne (hsent.trans hpath.symm)
    | some other =>
      -- what is sent is a session of another agent
      have howner := (hplain ((∅ : Dict String Owner).insert other ⟨"other", "user"⟩)
        sampleOwner (by rw [hpath]; rfl)).2.1
      rw [hsent, Option.bind_some, AList.lookup_insert] at howner
      exact absurd howner (by decide)
  | some mine =>
    have hmine : ∀ given, resolveOwner (some sampleOwner) given = .ok sampleOwner → ∀ other,
        resolveOwner ((sessionOf path).bind (twoSessions mine other).lookup) given
          = .ok sampleOwner := by
      intro given hgiven other
      rwa [hpath, Option.bind_some, twoSessions, AList.lookup_insert]
    cases hsent : sessionOf (effectivePath path) with
    | none =>
      -- without a session nothing says who the owner is
      have howner := (hplain _ nobody (hmine nobody (by decide) mine)).2.1
      rw [hsent, Option.bind_none] at howner
      exact absurd howner (by decide)
    | some other =>
      have hother : other ≠ mine := by
        rintro rfl
        exact hne (hsent.trans hpath.symm)
      have howner := (hplain _ sampleOwner (hmine sampleOwner (by decide) other)).2.1
      rw [hsent, Option.bind_some, twoSessions, AList.lookup_insert_ne hother,
        AList.lookup_insert] at howner
      exact absurd howner (by decide)

/-- **The exact condition.** A method and a path are authorized as they are sent if and only if no
request is admitted on the path at all, or the path sent is in the same classes. -/
theorem faithful_iff (method : Method) (path : List Char) :
    Faithful method path ↔
      isWithheld method path = true ∨ SameClasses method path (effectivePath path) := by
  constructor
  · intro h
    cases hwithheld : isWithheld method path with
    | true => exact .inl rfl
    | false =>
      refine .inr ?_
      have hactive : Catalog.Lifecycle.active ≠ .deleting := nofun
      have harchived : Catalog.Lifecycle.archived ≠ .deleting := nofun
      have hgiven : resolveOwner ((sessionOf path).bind (∅ : Dict String Owner).lookup) sampleOwner
          = .ok sampleOwner := by
        cases sessionOf path <;> rfl
      refine ⟨?_, h.sameSession hwithheld, fun hquiet => ?_, fun hmutation hexempt => ?_,
        fun hmutation hprompt => ?_⟩
      · exact (h.sample _ [] _ (.object []) hactive hwithheld hgiven (by simp)
          (fun _ _ => nofun) (modelFits_empty _)).1
      · -- the agent is blocked
        exact (h.sample _ ["agent"] _ (.object []) hactive hwithheld hgiven
          (fun _ => hquiet) (fun _ _ => nofun) (modelFits_empty _)).2.2.1 (by decide)
      · -- the agent is archived
        have hsent := (h.sample _ [] _ (.object []) harchived hwithheld hgiven
          (by simp) (fun _ he => absurd hexempt (by simp [he])) (modelFits_empty _)).2.2.2.1 hmutation
        cases he : isExempt (effectivePath path) with
        | true => rfl
        | false => exact absurd rfl (hsent he)
      · -- the body names a provider, which only a prompt replaces
        have hfits : Catalog.ModelFits sampleConfig (isMutation method.text && isPrompt path)
            (.object [("providerID", .string "other")]) := by
          intro hneeds
          have := hneeds (by simp [hmutation, hprompt]) rfl
          exact absurd this (by decide)
        have hsent := (h.sample _ [] _ _ hactive hwithheld hgiven (by simp) (fun _ _ => nofun)
          hfits).2.2.2.2
        cases hp : isPrompt (effectivePath path) with
        | true => rfl
        | false =>
          rw [hp, Bool.and_false] at hsent
          exact absurd (hsent nofun) (by decide)
  · rintro (hwithheld | hclasses)
    · intro p metadata payload r hdata hadmit
      have := ((admit_iff hdata).mp ⟨r, hadmit, rfl⟩).1
      rw [hwithheld] at this
      cases this
    · exact hclasses.faithful

/-- In particular a path in normal form is authorized as it is sent. -/
theorem faithful_of_normal {method : Method} {path : List Char} (h : Normal path) :
    Faithful method path := by
  rw [faithful_iff, effectivePath_of_normal h]
  cases hwithheld : isWithheld method path with
  | true => exact .inl rfl
  | false => exact .inr ⟨hwithheld, rfl, id, fun _ => id, fun _ => id⟩

/-- **Two spellings that are let through**: a prompt to an archived agent that ends like an abort, and a
write to the managed configuration behind a dot segment. Under the paths that are sent both would be
refused. -/
theorem spelled_paths_admitted :
    ((accept (samplePlatform ∅ [] .archived) .post "session/ses_1/message?/abort".toList
        ⟨sampleOwner, ""⟩ (.object [])).map (·.1) = .ok sampleOwner ∧
      effectivePath "session/ses_1/message?/abort".toList = "session/ses_1/message".toList ∧
      (accept (samplePlatform ∅ [] .archived) .post "session/ses_1/message".toList
        ⟨sampleOwner, ""⟩ (.object [])).map (·.1)
        = .error (.http 409 "Agent is archived; restore it before generating")) ∧
    ((accept (samplePlatform ∅ [] .active) .patch "x/../config".toList
        ⟨sampleOwner, ""⟩ (.object [])).map (·.1) = .ok sampleOwner ∧
      effectivePath "x/../config".toList = "config".toList ∧
      (accept (samplePlatform ∅ [] .active) .patch "config".toList
        ⟨sampleOwner, ""⟩ (.object [])).map (·.1)
        = .error (.http 403 "Use the versioned management API for configuration changes")) := by
  decide

end Telling

end OpencodeCloud.Router
