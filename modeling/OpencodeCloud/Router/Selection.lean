/-
# OpencodeCloud.Router.Selection -- the models that a forwarded request selects

The body of a native request can name a model in its field `model`, as one text or as an object, and in
the two fields `providerID` and `modelID` next to it. `Compiler.authorize` puts the default model into a
prompt that has no `model`, and then checks *one* selection: the field `model`, or, when that selects
nothing, the two fields. What the sandbox gets is the body after that, provided there was one.

`selections_assigned_iff` says for which admitted requests every selection of the forwarded body is an
assigned model of the gateway, and every prompt without a model carries the default one.
-/
import OpencodeCloud.Catalog.Authorize

namespace OpencodeCloud.Router.Selection

open OpencodeCloud.Library OpencodeCloud.Catalog

/-! ## §A What is forwarded -/

/-- `proxy` with `Admission.authorize`: an absent body is authorized as an empty object, and stays
absent. -/
def forward (data : Document) (agentId method : String) (path : List Char) (body : Option Json) :
    Result (Bool × Option Json) := do
  let (generates, payload) ← authorize data agentId method path (body.getD (.object []))
  return (generates, body.map fun _ => payload)

/-! ## §B Selections -/

/-- The field `model`, when it is a text or an object. -/
def namedModel (body : Json) : Option (Json × Json) := (body.get? "model").bind providerAndModel

/-- `"providerID" in payload or "modelID" in payload`. -/
def hasPair (body : Json) : Bool := (body.get? "providerID").isSome || (body.get? "modelID").isSome

/-- The two fields next to each other; a missing one counts as `None`. -/
def pair (body : Json) : Json × Json :=
  ((body.get? "providerID").getD .null, (body.get? "modelID").getD .null)

/-- The selections that a body carries at its top level. -/
def selections (body : Json) : List (Json × Json) :=
  (namedModel body).toList ++ if hasPair body then [pair body] else []

/-- `payload.get("model")` is true. -/
def hasModel (body : Json) : Bool := ((body.get? "model").getD .null).truthy

/-- What the sandbox gets selects assigned models only, and a prompt without a model selects the default
one. -/
structure SelectsAssigned (active : AgentConfig) (path : List Char) (body forwarded : Option Json) :
    Prop where
  assigned : ∀ sent ∈ forwarded, ∀ s ∈ selections sent, assignedModel active s = true
  default : isPrompt path = true → body.any hasModel = false →
    ∃ sent ∈ forwarded,
      namedModel sent = some (.string gatewayProvider, .string active.defaultModelId)

/-- The condition on the request: a prompt has an object for its body; the two fields, where `model` takes
precedence over them, are of an assigned model as well; and `model` is no empty text or object,
except in a prompt. -/
def fits (active : AgentConfig) (path : List Char) (body : Option Json) : Bool :=
  (!isPrompt path || body.any (·.isObject)) &&
    body.all fun b =>
      (!(hasPair b && (hasModel b || isPrompt path)) || assignedModel active (pair b)) &&
        (isPrompt path || hasModel b || (namedModel b).isNone)

/-! ## §C The check -/

section Check

variable {active : AgentConfig} {b : Json}

theorem get?_none_of_not_object (h : b.isObject = false) (key : String) : b.get? key = none := by
  cases b <;> first | rfl | simp at h

theorem selections_not_object (h : b.isObject = false) : selections b = [] := by
  simp [selections, namedModel, hasPair, get?_none_of_not_object h]

/-- A model that is checked is a text or an object, and assigned. -/
theorem checkModel_model (hobject : b.isObject = true) (hmodel : hasModel b = true)
    (h : checkModel active b = .ok ()) :
    ∃ s, namedModel b = some s ∧ assignedModel active s = true := by
  have hselected : selectedModel b = (b.get? "model").getD .null := by
    have htruthy : ((b.get? "model").getD .null).truthy = true := hmodel
    simp [selectedModel, htruthy]
  have htruthy : (selectedModel b).truthy = true := by rw [hselected]; exact hmodel
  unfold checkModel at h
  rw [hobject, htruthy] at h
  simp only [Bool.and_self, if_true] at h
  cases hget : b.get? "model" with
  | none => simp [hasModel, hget, Json.truthy] at hmodel
  | some m =>
    rw [hselected, hget, Option.getD_some] at h
    cases hp : providerAndModel m with
    | none => simp [hp, fail] at h
    | some s =>
      simp only [hp, refuse_eq_ok, Bool.not_eq_false'] at h
      exact ⟨s, by simp [namedModel, hget, hp], h⟩

/-- The two fields are checked when there is no model. -/
theorem checkModel_pair (hobject : b.isObject = true) (hmodel : hasModel b = false)
    (hpair : hasPair b = true) (h : checkModel active b = .ok ()) : assignedModel active (pair b) = true := by
  have hselected : selectedModel b =
      .object [("providerID", (pair b).1), ("modelID", (pair b).2)] := by
    have hfalsy : ((b.get? "model").getD .null).truthy = false := hmodel
    simp only [hasPair] at hpair
    simp [selectedModel, hfalsy, hpair, pair]
  have htruthy : (selectedModel b).truthy = true := by rw [hselected]; rfl
  have hfields : providerAndModel (.object [("providerID", (pair b).1), ("modelID", (pair b).2)]) =
      some (pair b) := by
    simp [providerAndModel, Json.get?, List.lookup_cons]
  unfold checkModel at h
  rw [hobject, htruthy] at h
  simp only [Bool.and_self, if_true, hselected, hfields, refuse_eq_ok, Bool.not_eq_false'] at h
  exact h

/-- Of a body that names a model, the check leaves the two fields aside. -/
theorem selections_of_model (hobject : b.isObject = true) (hmodel : hasModel b = true)
    (h : checkModel active b = .ok ()) :
    (∀ s ∈ selections b, assignedModel active s = true) ↔
      (hasPair b = true → assignedModel active (pair b) = true) := by
  obtain ⟨s, hs, hassigned⟩ := checkModel_model hobject hmodel h
  simp only [selections, hs, Option.toList_some, List.singleton_append, List.mem_cons, forall_eq_or_imp,
    hassigned, true_and]
  cases hasPair b <;> simp

/-- An empty text or object names no assigned model. -/
theorem not_assigned_of_empty (hmodel : hasModel b = false) {s : Json × Json} (h : namedModel b = some s) :
    assignedModel active s = false := by
  simp only [namedModel, Option.bind_eq_some_iff] at h
  obtain ⟨m, hget, hs⟩ := h
  simp only [hasModel, hget, Option.getD_some] at hmodel
  cases m with
  | string text =>
    have hempty : text = "" := by simpa [Json.truthy] using hmodel
    subst hempty
    obtain rfl := Option.some.inj hs
    rfl
  | object fields =>
    have hempty : fields = [] := by simpa [Json.truthy] using hmodel
    subst hempty
    obtain rfl := Option.some.inj hs
    rfl
  | _ => simp [providerAndModel] at hs

/-- Of a body that names no model, the two fields were checked. -/
theorem selections_of_no_model (hobject : b.isObject = true) (hmodel : hasModel b = false)
    (h : checkModel active b = .ok ()) :
    (∀ s ∈ selections b, assignedModel active s = true) ↔ namedModel b = none := by
  constructor
  · intro hall
    cases hnamed : namedModel b with
    | none => rfl
    | some s =>
      have hyes := hall s (by simp [selections, hnamed])
      rw [not_assigned_of_empty hmodel hnamed] at hyes
      exact absurd hyes (by simp)
  · intro hnone s hs
    simp only [selections, hnone, Option.toList_none, List.nil_append] at hs
    split at hs
    · next hpair =>
      obtain rfl := List.mem_singleton.mp hs
      exact checkModel_pair hobject hmodel hpair h
    · exact absurd hs (by simp)

/-! ## §D The default model -/

/-- The model that `authorize` puts in is the default one, and the rest of the body stays. -/
theorem namedModel_withModel {path : List Char} (hobject : b.isObject = true)
    (hmodel : hasModel b = false) :
    namedModel (withModel active path b) =
        some (.string gatewayProvider, .string active.defaultModelId) ∧
      hasModel (withModel active path b) = true ∧ pair (withModel active path b) = pair b ∧
      hasPair (withModel active path b) = hasPair b := by
  have hfalsy : ((b.get? "model").getD .null).truthy = false := hmodel
  have hset : ∀ v : Json, v.truthy = true → providerAndModel v =
      some (.string gatewayProvider, .string active.defaultModelId) →
      namedModel (b.set "model" v) = some (.string gatewayProvider, .string active.defaultModelId) ∧
        hasModel (b.set "model" v) = true ∧ pair (b.set "model" v) = pair b ∧
        hasPair (b.set "model" v) = hasPair b := by
    intro v hv hp
    have hself : (b.set "model" v).get? "model" = some v := Json.get?_set_self hobject
    have hne : ∀ key, key ≠ "model" → (b.set "model" v).get? key = b.get? key := fun _ h => Json.get?_set_ne h
    refine ⟨by simp [namedModel, hself, hp], by simp [hasModel, hself, hv], ?_, ?_⟩
    · simp [pair, hne "providerID" (by decide), hne "modelID" (by decide)]
    · simp [hasPair, hne "providerID" (by decide), hne "modelID" (by decide)]
  unfold withModel
  rw [hfalsy, if_neg Bool.false_ne_true]
  split
  · refine hset _ (by simp [Json.truthy, gatewayProvider]) ?_
    simp [providerAndModel, gatewayProvider, String.toList_append]
  · exact hset _ rfl rfl

end Check

/-! ## §E The forwarded body -/

theorem promptBody_not_prompt {active : AgentConfig} {method : String} {path : List Char} {b : Json}
    (h : isPrompt path = false) : promptBody active method path b = b := by
  simp [promptBody, h]

section Forward

variable {data : Document} {agentId method : String} {path : List Char} {body : Option Json}
  {agent : Agent} {active : AgentConfig} {r : Bool × Option Json}

/-- What is forwarded of an admitted mutation: its body with a model put in, which was checked. -/
theorem forward_eq_ok (hagent : data.agents.lookup agentId = some agent)
    (hactive : agentConfig agent = some active)
    (h : forward data agentId method path body = .ok r) :
    checkModel active (promptBody active method path (body.getD (.object []))) = .ok () ∧
      r.2 = body.map fun b => promptBody active method path b := by
  simp only [forward, bind_eq_ok] at h
  obtain ⟨x, hx, hr⟩ := h
  simp only [authorize, hagent, hactive, bind_eq_ok, refuse_eq_ok] at hx
  obtain ⟨_, _, _, _, _, _, _, _, _, hcheck, hx⟩ := hx
  obtain rfl := Except.ok.inj hx
  obtain rfl := Except.ok.inj hr
  refine ⟨hcheck, ?_⟩
  cases body <;> rfl

/-- **Which requests select assigned models only.** -/
theorem selections_assigned_iff (hmutation : isMutation method = true)
    (hagent : data.agents.lookup agentId = some agent) (hactive : agentConfig agent = some active)
    (h : forward data agentId method path body = .ok r) :
    SelectsAssigned active path body r.2 ↔ fits active path body = true := by
  obtain ⟨hcheck, hforwarded⟩ := forward_eq_ok hagent hactive h
  rw [hforwarded]
  cases body with
  | none =>
    constructor
    · intro hselects
      cases hprompt : isPrompt path with
      | false => simp [fits, hprompt]
      | true =>
        obtain ⟨sent, hsent, -⟩ := hselects.default hprompt rfl
        exact absurd hsent (by simp)
    · intro hfits
      have hprompt : isPrompt path = false := by simpa [fits] using hfits
      exact ⟨by simp, fun hp => absurd (hprompt.symm.trans hp) (by simp)⟩
  | some b =>
    rw [Option.getD_some] at hcheck
    rw [Option.map_some]
    cases hobject : b.isObject with
    | false =>
      have hsame : promptBody active method path b = b := by simp [promptBody, hobject]
      have hnone := get?_none_of_not_object hobject
      have hfits : fits active path (some b) = !isPrompt path := by
        simp [fits, hobject, hasPair, hasModel, namedModel, hnone, Json.truthy]
      rw [hsame, hfits]
      constructor
      · intro hselects
        cases hprompt : isPrompt path with
        | false => rfl
        | true =>
          obtain ⟨sent, hsent, hdefault⟩ := hselects.default hprompt
            (by simp [hasModel, hnone, Json.truthy])
          obtain rfl := Option.some.inj hsent
          simp [namedModel, hnone] at hdefault
      · intro hprompt
        rw [Bool.not_eq_true'] at hprompt
        refine ⟨?_, fun hp => absurd (hprompt.symm.trans hp) (by simp)⟩
        intro sent hsent s hs
        obtain rfl := Option.some.inj hsent
        rw [selections_not_object hobject] at hs
        exact absurd hs (by simp)
    | true =>
      cases hprompt : isPrompt path with
      | false =>
        have hsame : promptBody active method path b = b := promptBody_not_prompt hprompt
        rw [hsame] at hcheck ⊢
        have hselects : SelectsAssigned active path (some b) (some b) ↔
            ∀ s ∈ selections b, assignedModel active s = true := by
          constructor
          · exact fun hs => hs.assigned b rfl
          · intro hall
            refine ⟨fun sent hsent => ?_, fun hp => absurd (hprompt.symm.trans hp) (by simp)⟩
            obtain rfl := Option.some.inj hsent
            exact hall
        rw [hselects]
        cases hmodel : hasModel b with
        | true =>
          rw [selections_of_model hobject hmodel hcheck]
          cases hpair : hasPair b <;> simp [fits, hprompt, hmodel, hpair]
        | false =>
          rw [selections_of_no_model hobject hmodel hcheck]
          simp [fits, hprompt, hmodel]
      | true =>
        have hwith : promptBody active method path b = withModel active path b := by
          simp [promptBody, hobject, hmutation, hprompt]
        rw [hwith] at hcheck ⊢
        -- after this a model is there, and the two fields are those of the body
        obtain ⟨hobject', hmodel', hpair', hhas', hdefault⟩ :
            (withModel active path b).isObject = true ∧ hasModel (withModel active path b) = true ∧
              pair (withModel active path b) = pair b ∧ hasPair (withModel active path b) = hasPair b ∧
              (hasModel b = false → namedModel (withModel active path b) =
                some (.string gatewayProvider, .string active.defaultModelId)) := by
          cases hmodel : hasModel b with
          | true =>
            have htruthy : ((b.get? "model").getD .null).truthy = true := hmodel
            have hsame : withModel active path b = b := by simp [withModel, htruthy]
            rw [hsame]
            exact ⟨hobject, hmodel, rfl, rfl, fun h => by cases h⟩
          | false =>
            obtain ⟨hnamed, hhas, hpair, hhasPair⟩ := 
              namedModel_withModel (b := b) hobject hmodel
            refine ⟨?_, hhas, hpair, hhasPair, fun _ => hnamed⟩
            unfold withModel
            split
            · exact hobject
            · split <;> rw [Json.isObject_set, hobject]
        have hselects : SelectsAssigned active path (some b) (some (withModel active path b)) ↔
            ∀ s ∈ selections (withModel active path b), assignedModel active s = true := by
          constructor
          · exact fun hs => hs.assigned _ rfl
          · intro hall
            refine ⟨fun sent hsent => ?_, fun _ hnone => ⟨_, rfl, hdefault (by simpa using hnone)⟩⟩
            obtain rfl := Option.some.inj hsent
            exact hall
        rw [hselects, selections_of_model hobject' hmodel' hcheck, hpair', hhas']
        cases hpair : hasPair b <;> simp [fits, hprompt, hobject, hpair]

end Forward

/-! ## §F Two requests -/

/-- The catalog after a release of an agent that has one model. -/
def releasedDocument : Document :=
  (((catalog plainEnvironment).run (Service.initial "" "")
    (publishedModels ++ [.prepare "r1" ⟨.agent "a", none, none⟩, .commit "r1"])).map
      (·.store.data)).getD (Service.initial "" "").store.data

/-- A body that names the assigned model, and another provider in the two fields next to it. -/
def twoSelections : Json :=
  .object [("model", .string "cloud-model-gateway/m1"), ("providerID", .string "openai"),
    ("modelID", .string "gpt-4")]

/-- The agent of the document has a configuration. -/
theorem exists_active : ∃ agent active, releasedDocument.agents.lookup "a" = some agent ∧
    agentConfig agent = some active := by
  have h : ((releasedDocument.agents.lookup "a").bind agentConfig).isSome = true := by decide +kernel
  obtain ⟨active, hactive⟩ := Option.isSome_iff_exists.mp h
  obtain ⟨agent, hagent, hactive⟩ := Option.bind_eq_some_iff.mp hactive
  exact ⟨agent, active, hagent, hactive⟩

/-- The request is admitted. -/
theorem exists_forwarded (path : List Char) (body : Option Json)
    (h : (forward releasedDocument "a" "POST" path body).isOk = true) :
    ∃ r, forward releasedDocument "a" "POST" path body = .ok r := by
  cases hr : forward releasedDocument "a" "POST" path body with
  | error e => rw [hr] at h; exact absurd h Bool.false_ne_true
  | ok r => exact ⟨r, rfl⟩

/-- A session is summarized with another provider's model: the assigned one next to it is what was
checked. -/
theorem forwarded_beside_model : ¬ ∀ (data : Document) (agentId method : String) (path : List Char)
    (body : Option Json) (agent : Agent) (active : AgentConfig) (r : Bool × Option Json),
    isMutation method = true → data.agents.lookup agentId = some agent →
    agentConfig agent = some active → forward data agentId method path body = .ok r →
    SelectsAssigned active path body r.2 := by
  intro hall
  obtain ⟨agent, active, hagent, hactive⟩ := exists_active
  obtain ⟨r, hr⟩ := exists_forwarded "session/ses_1/summarize".toList (some twoSelections)
    (by decide +kernel)
  obtain ⟨-, hforwarded⟩ := forward_eq_ok hagent hactive hr
  have hsame : r.2 = some twoSelections := by
    rw [hforwarded, Option.map_some, promptBody_not_prompt (by decide +kernel)]
  have hselects := hall _ _ _ _ _ agent active r (by decide) hagent hactive hr
  have hpair := hselects.assigned twoSelections hsame (.string "openai", .string "gpt-4")
    (by simp [selections, hasPair, pair, twoSelections, Json.get?, List.lookup_cons])
  exact absurd hpair (by simp [assignedModel, gatewayProvider])

/-- A prompt without a model, to the same agent. -/
theorem prompt_selects_assigned : ∃ agent active r,
    releasedDocument.agents.lookup "a" = some agent ∧ agentConfig agent = some active ∧
      forward releasedDocument "a" "POST" "session/ses_1/message".toList (some (.object [])) = .ok r ∧
      SelectsAssigned active "session/ses_1/message".toList (some (.object [])) r.2 := by
  obtain ⟨agent, active, hagent, hactive⟩ := exists_active
  obtain ⟨r, hr⟩ := exists_forwarded "session/ses_1/message".toList (some (.object []))
    (by decide +kernel)
  exact ⟨agent, active, r, hagent, hactive, hr,
    (selections_assigned_iff (by decide) hagent hactive hr).mpr
    (by simp [fits, hasPair, namedModel, Json.isObject, Json.get?])⟩

end OpencodeCloud.Router.Selection
