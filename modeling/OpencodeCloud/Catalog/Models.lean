/-
# OpencodeCloud.Catalog.Models -- model definitions and the gateway configuration

`preserve_secrets`, `validate_model`, `deployment_entries` and `gateway_configuration`, and the three
operations that write models: save, import and delete. A model is a record here; a field that the
sender leaves out has the value that every reader takes for a missing field.
-/
import OpencodeCloud.Catalog.Document

namespace OpencodeCloud.Catalog

open OpencodeCloud.Library

/-- What the catalog service takes from its host: the process environment, the settings, and the URL
parser of the standard library. -/
structure Host where
  environment : Dict String String
  gatewayUrl : String
  image : String
  idleTimeoutSeconds : Nat
  defaultCpu : Nat
  defaultMemoryMb : Nat
  defaultPids : Nat
  /-- the URL has an HTTP(S) scheme and a host name, and no credentials -/
  httpUrl : String → Bool
  /-- and neither a query nor a fragment -/
  endpointUrl : String → Bool

/-! ## Secrets that an editor sends back masked -/

/-- `preserve_secrets` on a text field. -/
def preserve (new old : Option String) : Option String := if new = some MASK then old else new

/-- Not `None` and not empty. -/
def present : Option String → Bool
  | none => false
  | some s => s != ""

/-- `preserve_secrets` on a dictionary of texts. The rule that turns a single key into accounts meets it as
well: a masked `deployments` without an old text becomes a list then, and no text. -/
def preserveAll (new : Dict String (Option String)) (old : Dict String (Option String)) :
    Dict String (Option String) :=
  let previous (k : String) := (old.lookup k).getD none
  new.mapWithKey fun k v =>
    if k == "deployments" && v == some MASK && !present (previous k) && present (previous "api_key") then none
    else preserve v (previous k)

/-- `preserve_secrets` on a parameter. -/
def preserveScalar (new old : Option Scalar) : Option Scalar :=
  if new = some (.text MASK) then old else new

/-- An account that an older single-key model would have had. -/
def ModelDeployment.legacyAccount (id : String) (apiKey : Option String) : ModelDeployment :=
  ⟨id, apiKey, none, none, ∅, true, none, none, none⟩

/-- The accounts that masked credentials are looked up in. -/
def previousDeployments (new old : ModelDefinition) : List ModelDeployment :=
  if !new.deployments.isEmpty && old.deployments.isEmpty && present old.apiKey then
    ModelDeployment.legacyAccount "primary" old.apiKey ::
      (List.range old.additionalBaseUrls.length).map fun i =>
        ModelDeployment.legacyAccount ("extra-" ++ toString (i + 1)) old.apiKey
  else
    old.deployments

/-- `preserve_secrets` on one account: credentials follow the identity of the account. -/
def preserveDeployment (new : ModelDeployment) (old : Option ModelDeployment) : ModelDeployment :=
  { new with
    apiKey := preserve new.apiKey (old.bind (·.apiKey))
    baseUrl := preserve new.baseUrl (old.bind (·.baseUrl))
    upstreamModel := preserve new.upstreamModel (old.bind (·.upstreamModel))
    headers := preserveAll new.headers (old.elim ∅ (·.headers)) }

/-- `preserve_secrets(value, old)` on a model. -/
def preserveModel (new : ModelDefinition) (old : Option ModelDefinition) : ModelDefinition :=
  { new with
    name := preserve new.name (old.bind (·.name))
    upstreamModel := preserve new.upstreamModel (old.bind (·.upstreamModel))
    baseUrl := preserve new.baseUrl (old.bind (·.baseUrl))
    apiKey := preserve new.apiKey (old.bind (·.apiKey))
    headers := preserveAll new.headers (old.elim ∅ (·.headers))
    parameters := new.parameters.mapWithKey fun k v =>
      preserveScalar v (((old.elim ∅ (·.parameters)).lookup k).getD none)
    deployments := new.deployments.map fun d =>
      preserveDeployment d
        -- the last account of an id wins, as in the dictionary that the code builds
        ((old.elim [] (previousDeployments new)).reverse.find? (·.id == d.id)) }

/-! ## The deployment contract -/

/-- `PROVIDERS`. -/
def providerPrefix : Provider → Option String
  | .openaiCompatible => some "openai"
  | .openai => some "openai"
  | .anthropic => some "anthropic"
  | .google => some "gemini"
  | .legacy => none

/-- `value.startswith(head)`. -/
def startsWith (value head : String) : Bool := head.toList.isPrefixOf value.toList

/-- A key that is no real credential. -/
def placeholderKey (key : String) : Bool :=
  key.toList.all Char.isWhitespace || key == MASK || startsWith key "$\x7b" ||
    startsWith key "\x7benv:" || startsWith key "\x7bfile:" || startsWith key "os.environ/"

/-- A `ValueError` of `deployment_entries`. -/
abbrev Checked (α : Type) := Except String α

def reject (bad : Bool) (message : String) : Checked Unit := if bad then .error message else .ok ()

/-- A value that must not be `null`. -/
def required {α : Type} (value : Option α) (message : String) : Checked α :=
  match value with
  | some v => .ok v
  | none => .error message

/-- All values of a dictionary, if none of them is `null`. -/
def textValues (d : Dict String (Option String)) : Bool := d.all fun _ v => v.isSome

section Host

variable (host : Host)

/-- One account of a model; `none` for a disabled one. -/
def deploymentEntry (model : ModelDefinition) (pre upstreamModel : String) (explicit : Bool)
    (requireCredentials : Bool) (index : Nat) (d : ModelDeployment) :
    Checked (Option GatewayEntry) := do
  let upstream := if present d.upstreamModel then d.upstreamModel.getD "" else upstreamModel
  let base ← required (if present d.baseUrl then d.baseUrl else model.baseUrl)
    "Deployment base URL must be text"
  reject (base != "" && !host.endpointUrl base)
    "Deployment URL must be HTTP(S), without credentials, query or fragment"
  let key ← required d.apiKey "Deployment API key must be text"
  reject (!textValues d.headers) "Deployment headers must contain string values"
  reject (d.rpm == some 0) "Deployment rpm must be a positive integer"
  reject (d.tpm == some 0) "Deployment tpm must be a positive integer"
  reject (d.weight.any fun w => w ≤ 0) "Deployment weight must be a positive number"
  if !d.enabled then
    return none
  else
    reject (requireCredentials && placeholderKey key)
      "Configure a real API key for every enabled deployment"
    return some {
      modelName := model.id
      model := pre ++ "/" ++ upstream
      apiKey := key
      apiBase := if base == "" then none else some base
      extraHeaders := d.headers.union model.headers
      parameters := model.parameters
      rpm := d.rpm
      tpm := d.tpm
      weight := d.weight
      id :=
        if explicit then model.id ++ ":" ++ d.id
        else if index == 0 then model.id
        else model.id ++ "-extra-" ++ toString index }

/-- The loop over the accounts, with the ids seen so far. -/
def deploymentLoop (model : ModelDefinition) (pre upstreamModel : String) (explicit : Bool)
    (requireCredentials : Bool) : List String → Nat → List ModelDeployment →
    Checked (List GatewayEntry)
  | _, _, [] => .ok []
  | seen, index, d :: ds => do
    reject (!isIdentifier d.id || seen.contains d.id)
      "Deployment IDs must be unique, using 1-64 letters, digits, hyphens or underscores"
    let entry ← deploymentEntry host model pre upstreamModel explicit requireCredentials index d
    let rest ← deploymentLoop model pre upstreamModel explicit requireCredentials
      (d.id :: seen) (index + 1) ds
    return entry.toList ++ rest

/-- The accounts of a model that has a single key. -/
def impliedDeployments (model : ModelDefinition) : List ModelDeployment :=
  { ModelDeployment.legacyAccount "primary" model.apiKey with baseUrl := model.baseUrl } ::
    model.additionalBaseUrls.mapIdx fun i base =>
      { ModelDeployment.legacyAccount ("extra-" ++ toString (i + 1)) model.apiKey with
        baseUrl := some base }

/-- `deployment_entries(model)`. -/
def deploymentEntries (model : ModelDefinition) (requireCredentials : Bool) :
    Checked (List GatewayEntry) := do
  let pre ← required (providerPrefix model.provider)
    "Managed model requires an ID, provider and upstream model"
  reject (model.id == "" || !present model.upstreamModel)
    "Managed model requires an ID, provider and upstream model"
  reject (model.deployments.length > 32) "Use at most 32 upstream deployments per model"
  reject (!model.deployments.isEmpty && (present model.apiKey || !model.additionalBaseUrls.isEmpty))
    "Use deployments or the single API key/endpoints, not both"
  let explicit := !model.deployments.isEmpty
  let deployments := if explicit then model.deployments else impliedDeployments model
  let entries ← deploymentLoop host model pre (model.upstreamModel.getD "") explicit
    requireCredentials [] 0 deployments
  reject entries.isEmpty "Enable at least one upstream deployment"
  return entries

/-- `except ValueError as error: fail(str(error))`. -/
def orFail {α : Type} : Checked α → Result α
  | .ok a => .ok a
  | .error message => fail 400 message

def modelParameters : List String :=
  ["temperature", "top_p", "max_tokens", "max_completion_tokens", "presence_penalty",
    "frequency_penalty", "seed", "reasoning_effort"]

/-- `validate_model`; the checks on types are in the record. -/
def validateModel (model : ModelDefinition) : Result Unit := do
  identifier model.id
  refuse (!present model.upstreamModel) 400 "Upstream model is required"
  refuse (present model.baseUrl && !host.httpUrl (model.baseUrl.getD "")) 400
    "Model URL must be HTTP(S), without embedded credentials"
  refuse (model.additionalBaseUrls.length > 7) 400
    "At most seven equivalent additional endpoints are supported"
  refuse (model.additionalBaseUrls.any fun base => !host.httpUrl base) 400
    "Additional model URL must be HTTP(S), without embedded credentials"
  refuse (model.parameters.any fun k _ => !modelParameters.contains k) 400
    "Unsupported model parameters"
  refuse (model.parameters.any fun _ v => v.isNone) 400 "Invalid model parameter value"
  refuse (!textValues model.headers) 400 "Headers must be string values"
  refuse (model.context == some 0 || model.output == some 0) 400
    "Model token limits must be positive integers"
  if model.provider ≠ .legacy then
    let _ ← orFail (deploymentEntries host model false)
    return ()
  else
    refuse (!model.deployments.isEmpty) 400
      "Convert the legacy model before adding deployments"

/-! ## The gateway configuration -/

/-- The prefix of a legacy model in the environment. -/
def environmentPrefix (mid : String) : String :=
  String.ofList (mid.toList.map fun c => if c == '-' then '_' else c.toUpper)

/-- `environment[name]`; a missing variable is a `KeyError`. -/
def environmentValue (name : String) : Result String :=
  match host.environment.lookup name with
  | some v => .ok v
  | none => fail 500 name

/-- One of the two entries of a legacy model. -/
def legacyEntry (mid : String) (index : Nat) : Result GatewayEntry := do
  let model ← environmentValue host (environmentPrefix mid ++ "_MODEL")
  let base ← environmentValue host (environmentPrefix mid ++ "_" ++ toString index ++ "_API_BASE")
  let key ← environmentValue host (environmentPrefix mid ++ "_API_KEY")
  return ⟨mid, model, key, some base, ∅, ∅, none, none, none, mid ++ "-" ++ toString index⟩

/-- The entries of one model. -/
def gatewayEntries (requireCredentials : Bool) (model : ModelDefinition) :
    Result (List GatewayEntry) := do
  if !model.enabled then
    return []
  else if model.legacy then
    refuse (host.environment.lookup (environmentPrefix model.id ++ "_MODEL")).isNone 400
      ("Original gateway environment is missing model " ++ model.id)
    let first ← legacyEntry host model.id 1
    let second ← legacyEntry host model.id 2
    return [first, second]
  else
    orFail (deploymentEntries host model requireCredentials)

/-- `gateway_configuration(models, environment)`: the model list; the rest is constant. -/
def gatewayConfiguration (models : Dict String ModelDefinition) (requireCredentials : Bool) :
    Result (List GatewayEntry) := do
  let entries ← models.entries.mapM fun e => gatewayEntries host requireCredentials e.2
  return entries.flatten

/-! ## The operations on models -/

/-- An agent refers to a model in its draft or in its active version. -/
def refersTo (a : Agent) (mid : String) (enabledOnly : Bool) : Bool :=
  (a.draft :: (agentConfig a).toList).any fun cfg =>
    cfg.allowedModelIds.contains mid && (!enabledOnly || cfg.enabled)

/-- `model_references(data, mid)`. -/
def modelReferences (data : Document) (mid : String) (enabledOnly : Bool) : List String :=
  (data.agents.filter fun _ a => refersTo a mid enabledOnly).keys

/-- `", ".join(names)`. -/
def joined (names : List String) : String := String.intercalate ", " names

/-- The body of `save_model`. -/
def saveModel (mid : String) (value : ModelDefinition) (data : Document) : Result Document := do
  let old := data.models.lookup mid
  identifier mid
  let model := { preserveModel value old with id := mid }
  validateModel host model
  refuse (model.provider == .legacy && !(old.any (·.legacy))) 400
    "Legacy models can only be migrated from the existing deployment"
  refuse (!model.enabled && !(modelReferences data mid true).isEmpty) 409
    ("Model is referenced by: " ++ joined (modelReferences data mid true))
  return { data with models := data.models.insert mid model }

/-- One round of the loop of `import_models`. -/
def importModel (replace : Bool) (seen : List String) (item : ModelDefinition) (data : Document) :
    Result Document := do
  identifier item.id
  refuse (seen.contains item.id) 400 "Duplicate imported model ID"
  let old := data.models.lookup item.id
  refuse (old.isSome && !replace) 409 ("Model already exists: " ++ item.id)
  let model := preserveModel item old
  validateModel host model
  refuse (model.legacy || model.provider == .legacy) 400
    "Imported models cannot claim legacy identity"
  refuse (!model.enabled && !(modelReferences data item.id true).isEmpty) 409
    "Replace Agent references before disabling imported models"
  return { data with models := data.models.insert item.id model }

/-- The loop of `import_models`. -/
def importLoop (replace : Bool) : List String → List ModelDefinition → Document → Result Document
  | _, [], data => .ok data
  | seen, item :: items, data => do
    let next ← importModel host replace seen item data
    importLoop replace (item.id :: seen) items next

/-- The body of `import_models`. -/
def importModels (items : List ModelDefinition) (replace : Bool) (data : Document) :
    Result Document := do
  refuse (items.isEmpty || items.length > 100) 400 "Import 1–100 models at a time"
  importLoop host replace [] items data

end Host

/-- The body of `delete_model`. -/
def deleteModel (mid : String) (data : Document) : Result Document := do
  refuse (data.models.lookup mid).isNone 404 "Model not found"
  refuse (!(modelReferences data mid false).isEmpty) 409
    ("Replace model references in these Agents first: " ++ joined (modelReferences data mid false))
  return { data with models := data.models.erase mid }

end OpencodeCloud.Catalog
