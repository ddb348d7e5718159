/-
# OpencodeCloud.Catalog.Authorize -- whether a native request may reach an agent

`Compiler.authorize`: a decision about the method, the percent-decoded path and the JSON body of a
request, on the present document. The path is only ever tested as a text: for equality, a prefix, a
suffix, or a regular expression at its end. `authorize_iff` says what the decision depends on.

`self.blocked` of the compiler is never filled and `data["jobs"]` is emptied by every read, so neither
is in the model.
-/
import OpencodeCloud.Catalog.References
import OpencodeCloud.Library.Json
import OpencodeCloud.Library.Uri

namespace OpencodeCloud.Catalog

open OpencodeCloud.Library OpencodeCloud.Library.Uri

/-! ## Tests of a path -/

/-- `path.endswith(tail)`. -/
def endsWith (path : List Char) (tail : String) : Bool := tail.toList.isSuffixOf path

/-- The segment is one of the words; the `$` after it also matches before a final line break. -/
def isWord (words : List String) (segment : Segment) : Bool :=
  words.any fun word => segment == word.toList || segment == word.toList ++ ['\n']

/-- The answers to a permission or a question:
`/(?:permissions/[^/]+|permission/[^/]+/reply|question/[^/]+/(?:reply|reject))$`. -/
def isResponse (path : List Char) : Bool :=
  match (segments path).reverse with
  | id :: kind :: before :: rest =>
    (kind == "permissions".toList && !id.isEmpty)
      || (!rest.isEmpty && !kind.isEmpty
        && ((before == "permission".toList && isWord ["reply"] id)
          || (before == "question".toList && isWord ["reply", "reject"] id)))
  | _ => false

/-- A prompt: `/session/[^/]+/(message|prompt_async|command|shell)$` in the path after a slash. -/
def isPrompt (path : List Char) : Bool :=
  match (segments path).reverse with
  | verb :: id :: session :: _ =>
    session == "session".toList && !id.isEmpty
      && isWord ["message", "prompt_async", "command", "shell"] verb
  | _ => false

/-- The configuration that only the management API may write. -/
def isManaged (path : List Char) : Bool :=
  path == "config".toList || path == "global/config".toList
    || ["auth/", "mcp/", "provider/"].any fun head => head.toList.isPrefixOf path

/-- `method not in {"GET", "HEAD", "OPTIONS", "DELETE"}`. -/
def isMutation (method : String) : Bool := !(["GET", "HEAD", "OPTIONS", "DELETE"].contains method)

/-- `method not in {"GET", "HEAD", "OPTIONS"}`. -/
def isWrite (method : String) : Bool := !(["GET", "HEAD", "OPTIONS"].contains method)

/-- What an archived or disabled agent still takes: an abort, or an answer. -/
def isExempt (path : List Char) : Bool := endsWith path "/abort" || isResponse path

/-! ## The model of a prompt -/

def gatewayProvider : String := "cloud-model-gateway"

/-- A prompt without a model gets the default one; a command names it in one text. -/
def withModel (cfg : AgentConfig) (path : List Char) (payload : Json) : Json :=
  if ((payload.get? "model").getD .null).truthy then payload
  else if endsWith path "/command" then
    payload.set "model" (.string (gatewayProvider ++ "/" ++ cfg.defaultModelId))
  else
    payload.set "model"
      (.object [("providerID", .string gatewayProvider), ("modelID", .string cfg.defaultModelId)])

/-- The model that a body selects, from its field `model` or from the two fields of the model. -/
def selectedModel (payload : Json) : Json :=
  let model := (payload.get? "model").getD .null
  if !model.truthy && ((payload.get? "providerID").isSome || (payload.get? "modelID").isSome) then
    .object [("providerID", (payload.get? "providerID").getD .null),
      ("modelID", (payload.get? "modelID").getD .null)]
  else model

/-- Provider and model of a selection: `model.partition("/")`, or two fields. -/
def providerAndModel : Json → Option (Json × Json)
  | .string s => some (.string (String.ofList (s.toList.takeWhile (· != '/'))),
      .string (String.ofList ((s.toList.dropWhile (· != '/')).drop 1)))
  | .object fields => some (((Json.object fields).get? "providerID").getD .null,
      ((Json.object fields).get? "modelID").getD .null)
  | _ => none

/-- The selected model is one of the gateway, and assigned to the agent. -/
def assignedModel (cfg : AgentConfig) : Json × Json → Bool
  | (.string provider, .string mid) =>
    provider == gatewayProvider && cfg.allowedModelIds.contains mid
  | _ => false

/-- The body that the sandbox gets: a prompt without a model has the default one put into it. -/
def promptBody (cfg : AgentConfig) (method : String) (path : List Char) (payload : Json) : Json :=
  if payload.isObject && (isMutation method && isPrompt path) then withModel cfg path payload
  else payload

/-- The check of the model; a body that selects none passes. -/
def checkModel (cfg : AgentConfig) (payload : Json) : Result Unit :=
  if payload.isObject && (selectedModel payload).truthy then
    match providerAndModel (selectedModel payload) with
    | none => fail 400 "Invalid model selection"
    | some selection =>
      refuse (!assignedModel cfg selection) 403 "Model is not assigned to this Agent"
  else .ok ()

/-! ## The decision -/

/-- `Compiler.authorize`: whether the request is a mutation, and its body with a model put into it. -/
def authorize (data : Document) (agentId method : String) (path : List Char) (payload : Json) :
    Result (Bool × Json) := do
  match data.agents.lookup agentId with
  | none => fail 404 "Unknown Agent"
  | some agent =>
    refuse (agent.lifecycle == .deleting) 409
      "Agent deletion is pending; inspect the operation result"
    match agentConfig agent with
    | none => fail 409 "Publish this Agent before starting a session"
    | some active =>
      let generates := isMutation method && !isExempt path
      refuse (generates && agent.lifecycle == .archived) 409
        "Agent is archived; restore it before generating"
      refuse (generates && !active.enabled) 409 "Agent is disabled; history remains available"
      refuse (isWrite method && isManaged path) 403
        "Use the versioned management API for configuration changes"
      let payload := promptBody active method path payload
      checkModel active payload
      return (generates, payload)

/-! ## What the decision depends on -/

/-- A prompt without a model passes the check: it gets an assigned one. -/
theorem checkModel_withModel {cfg : AgentConfig} {path : List Char} {payload : Json}
    (hassigned : cfg.Assigned) (hobject : payload.isObject = true)
    (hmodel : ((payload.get? "model").getD .null).truthy = false) :
    checkModel cfg (withModel cfg path payload) = .ok () := by
  have hdefault : cfg.defaultModelId ∈ cfg.allowedModelIds :=
    hassigned _ (by simp [AgentConfig.modelIds])
  cases payload with
  | object fields =>
    have hset : ∀ v : Json, v.truthy = true →
        selectedModel ((Json.object fields).set "model" v) = v := by
      intro v hv
      simp [selectedModel, Json.get?_set, hv]
    unfold withModel
    rw [hmodel, if_neg Bool.false_ne_true]
    split
    · have hsplit : providerAndModel (.string (gatewayProvider ++ "/" ++ cfg.defaultModelId))
          = some (.string gatewayProvider, .string cfg.defaultModelId) := by
        simp [providerAndModel, gatewayProvider, String.toList_append]
      unfold checkModel
      rw [hset _ (by simp [Json.truthy, gatewayProvider]), hsplit]
      simp [assignedModel, hdefault]
    · have hfields : providerAndModel (.object [("providerID", .string gatewayProvider),
          ("modelID", .string cfg.defaultModelId)])
          = some (.string gatewayProvider, .string cfg.defaultModelId) := rfl
      unfold checkModel
      rw [hset _ (by rfl), hfields]
      simp [assignedModel, hdefault]
  | _ => simp [Json.isObject] at hobject

/-- The check of the model, with a model put into a prompt that has none. -/
def ModelFits (cfg : AgentConfig) (prompt : Bool) (payload : Json) : Prop :=
  (prompt = true → payload.isObject = true → ((payload.get? "model").getD .null).truthy = true) →
    checkModel cfg payload = .ok ()

theorem checkModel_promptBody {cfg : AgentConfig} {method : String} {path : List Char}
    {payload : Json} (hassigned : cfg.Assigned) :
    checkModel cfg (promptBody cfg method path payload) = .ok () ↔
      ModelFits cfg (isMutation method && isPrompt path) payload := by
  unfold promptBody ModelFits
  cases hobject : payload.isObject with
  | false =>
    simp [checkModel, hobject]
  | true =>
    cases hprompt : isMutation method && isPrompt path with
    | false => simp
    | true =>
      cases hmodel : ((payload.get? "model").getD .null).truthy with
      | false => simp [checkModel_withModel hassigned hobject hmodel]
      | true => simp [withModel, hmodel]

/-- **What admits a request**: an agent that is active and, for a mutation that is not exempt, neither
archived nor disabled; a path that is not managed, for a write; and an assigned model, if any. -/
theorem authorize_iff {data : Document} (hdata : data.Assigned) {agentId method : String}
    {path : List Char} {payload : Json} :
    (∃ r, authorize data agentId method path payload = .ok r) ↔
      ∃ agent active, data.agents.lookup agentId = some agent ∧ agent.lifecycle ≠ .deleting ∧
        agentConfig agent = some active ∧
        (isMutation method = true → isExempt path = false →
          agent.lifecycle ≠ .archived ∧ active.enabled = true) ∧
        (isWrite method && isManaged path) = false ∧
        ModelFits active (isMutation method && isPrompt path) payload := by
  constructor
  · rintro ⟨r, h⟩
    unfold authorize at h
    split at h
    · simp [fail] at h
    · next agent hagent =>
      simp only [bind_eq_ok, refuse_eq_ok] at h
      obtain ⟨_, hdeleting, h⟩ := h
      split at h
      · simp [fail] at h
      · next active hactive =>
        have hassigned : active.Assigned := hdata.agents agentId agent hagent active
          (mem_configs_of_current (List.mem_cons_of_mem _ (by simp [hactive])))
        simp only [bind_eq_ok, refuse_eq_ok] at h
        obtain ⟨_, harchived, _, henabled, _, hmanaged, _, hmodel, -⟩ := h
        refine ⟨agent, active, hagent, by simpa using hdeleting, hactive, ?_, hmanaged,
          (checkModel_promptBody hassigned).mp hmodel⟩
        intro hmutation hexempt
        simpa [hmutation, hexempt] using And.intro harchived henabled
  · rintro ⟨agent, active, hagent, hdeleting, hactive, hgenerates, hmanaged, hmodel⟩
    have hassigned : active.Assigned := hdata.agents agentId agent hagent active
      (mem_configs_of_current (List.mem_cons_of_mem _ (by simp [hactive])))
    refine ⟨(isMutation method && !isExempt path, promptBody active method path payload), ?_⟩
    unfold authorize
    simp only [hagent, hactive, bind_eq_ok, refuse_eq_ok]
    refine ⟨(), by simpa using hdeleting, (), ?_, (), ?_, (), hmanaged, (),
      (checkModel_promptBody hassigned).mpr hmodel, rfl⟩
    · cases hm : isMutation method <;> cases he : isExempt path <;> simp_all
    · cases hm : isMutation method <;> cases he : isExempt path <;> simp_all

end OpencodeCloud.Catalog
