/-
# OpencodeCloud.Catalog.Secrets -- masked documents and the edits that come back

The editors only ever see `redact` of a document: what stands under a secret field is a mask. What they
send back goes through `preserve_secrets`, which puts the stored secrets where the masks still are; the
accounts of a model are found by their id. Here a document is the JSON value that it is in the store,
with the validators that decide whether it is accepted.

**Masking and restoring a document gives it back, and the secrets of an edit are those of the account with
the same id, exactly for the documents whose dictionaries of secrets the migration rule leaves alone**
(`secrets_follow_identity`): the rule that turns a single key into accounts is applied at every level, also
to a dictionary of headers in which `deployments` is empty and `api_key` is not.
-/
import OpencodeCloud.Catalog.Resources
import OpencodeCloud.Library.Checks
import OpencodeCloud.Library.Json

namespace OpencodeCloud.Catalog.Secrets

open OpencodeCloud.Library

/-! ## §A Masking -/

/-- `SECRET_FIELDS` -/
def secretFields : List String := ["api_key", "apiKey", "headers", "extra_headers", "environment"]

/-- The mask as a value. -/
def mask : Json := .string MASK

/-- `{n: MASK for n in v} if isinstance(v, dict) else MASK` -/
def masked : Json → Json
  | .object fields => .object (fields.map fun f => (f.1, mask))
  | _ => mask

/-- A field that `redact` masks. -/
def secret (key : String) (value : Json) : Bool := secretFields.contains key && value.truthy

mutual

def redact : Json → Json
  | .object fields => .object (redactFields fields)
  | .array items => .array (redactItems items)
  | j => j

def redactFields : List (String × Json) → List (String × Json)
  | [] => []
  | (key, v) :: rest => (key, if secret key v then masked v else redact v) :: redactFields rest

def redactItems : List Json → List Json
  | [] => []
  | item :: rest => redact item :: redactItems rest

end

/-! ## §B Restoring -/

/-- A `TypeError`. -/
def typeError {α : Type} : Result α := fail 500 "TypeError"

/-- The value can be the key of a dictionary. -/
def hashable (j : Json) : Bool := !j.isArray && !j.isObject

/-- How many values a loop over `j` sees. -/
def enumerated : Option Json → Result Nat
  | none => .ok 0
  | some (.array items) => .ok items.length
  | some (.object fields) => .ok fields.length
  | some (.string s) => .ok s.toList.length
  | some _ => typeError

/-- An account that a single key becomes. -/
def account (id : String) (key : Json) : Json := .object [("id", .string id), ("api_key", key)]

/-- The accounts of a model with a single key. -/
def accounts (key : Json) (extra : Nat) : Json :=
  .array (account "primary" key ::
    (List.range extra).map fun i => account ("extra-" ++ toString (i + 1)) key)

/-- The field is there and counts as true. -/
def given (j : Json) (key : String) : Bool := (j.get? key).any Json.truthy

/-- `old if isinstance(old, dict) else {}` -/
def dictionary (old : Json) : Json := if old.isObject then old else .object []

/-- The old value of a dictionary: accounts that replace a single key get this key. -/
def migrated (new old : Json) : Result Json :=
  if given new "deployments" && !given (dictionary old) "deployments" && given (dictionary old) "api_key" then do
    let extra ← enumerated ((dictionary old).get? "additional_base_urls")
    return (dictionary old).set "deployments"
      (accounts (((dictionary old).get? "api_key").getD .null) extra)
  else .ok (dictionary old)

/-- `item['id']`, for a dictionary that has one -/
def identity (item : Json) : Option Json := item.get? "id"

/-- The dictionaries with an id, in the order of the list. -/
def identified (old : Json) : Result (List Json) :=
  match old with
  | .array items =>
    if (items.filterMap identity).all hashable then .ok (items.filter fun item => (identity item).isSome)
    else typeError
  | .object _ => .ok []
  | .string _ => .ok []
  | _ => if old.truthy then typeError else .ok []

/-- `previous.get(id, {})`, where a later item replaces an earlier one of its id -/
def lookupId (previous : List Json) (id : Json) : Json :=
  (previous.reverse.find? fun item => (identity item).any (·.same id)).getD (.object [])

mutual

def preserveSecrets : Json → Json → Result Json
  | .string s, old => .ok (if s = MASK then old else .string s)
  | .object fields, old => do
    let previous ← migrated (.object fields) old
    let fields' ← preserveFields previous fields
    return .object fields'
  | .array items, old => do
    let previous ← identified old
    let items' ← preserveItems previous items
    return .array items'
  | j, _ => .ok j

def preserveFields (previous : Json) : List (String × Json) → Result (List (String × Json))
  | [] => .ok []
  | (key, v) :: rest => do
    let v' ← preserveSecrets v ((previous.get? key).getD .null)
    let rest' ← preserveFields previous rest
    return (key, v') :: rest'

def preserveItems (previous : List Json) : List Json → Result (List Json)
  | [] => .ok []
  | item :: rest => do
    let item' ← (match identity item with
      | none => .ok item
      | some id => if hashable id then preserveSecrets item (lookupId previous id) else typeError)
    let rest' ← preserveItems previous rest
    return item' :: rest'

end

example : (preserveSecrets (redact (.object [("api_key", .string "k"), ("name", .string "n")]))
    (.object [("name", .string "n"), ("api_key", .string "k")])).toOption.any
      (·.same (.object [("api_key", .string "k"), ("name", .string "n")])) = true := by decide

/-! ## §C The validators -/

/-- A text that is not empty. -/
def nonemptyText (j : Json) : Bool := j.isString && j.truthy

/-- A dictionary of texts. -/
def textMap : Json → Bool
  | .object fields => fields.all fun f => f.2.isString
  | _ => false

/-- `identifier(value)` -/
def checkIdentifier (value : Json) : Result Unit :=
  match value with
  | .string s => identifier s
  | _ => fail 400 "ID must contain 1–64 letters, digits, underscores or hyphens"

/-- The text of a value, for the parser of URLs; another type raises there. -/
def urlText : Json → Result String
  | .string s => .ok s
  | j => if j.truthy then fail 500 "AttributeError" else .ok ""

/-- The keys that are not allowed, sorted. -/
def foreign (allowed : List String) (fields : List (String × Json)) : List String :=
  ((fields.map Prod.fst).filter fun key => !allowed.contains key).mergeSort fun a b => decide (a ≤ b)

def modelFields : List String :=
  ["id", "name", "provider", "upstream_model", "base_url", "additional_base_urls", "api_key",
    "deployments", "headers", "parameters", "context", "output", "enabled", "legacy"]

def deploymentFields : List String :=
  ["id", "api_key", "base_url", "upstream_model", "headers", "enabled", "rpm", "tpm", "weight"]

/-- The text is a provider of managed models. -/
def managedProvider (j : Json) : Bool :=
  match j with
  | .string s => ["openai-compatible", "openai", "anthropic", "google"].contains s
  | _ => false

/-- `model.get(key, default)` -/
def getOr (j : Json) (key : String) (default : Json) : Json := (j.get? key).getD default

/-- `a or b` -/
def orElse (a b : Json) : Json := if a.truthy then a else b

/-- `value.get(key)` -/
def field (j : Json) (key : String) : Json := getOr j key .null

/-- A limit of an account: a positive number, for `rpm` and `tpm` an integer. -/
def limit (key : String) : Json → Bool
  | .null => true
  | .int n => decide (0 < n)
  | .float (.finite x) => key == "weight" && decide (0 < x)
  | _ => false

section Host

variable (host : Host)

/-- One round of the loop of `deployment_entries`: whether the account is enabled. -/
def checkDeployment (model : Json) (seen : List String) (deployment : Json) : Result (String × Bool) := do
  match deployment with
  | .object fields => do
    refuse (fields.any fun f => !deploymentFields.contains f.1) 400 "Unsupported upstream deployment fields"
    match deployment.get? "id" with
    | some (.string did) => do
      refuse (!isIdentifier did || seen.contains did) 400
        "Deployment IDs must be unique, using 1-64 letters, digits, hyphens or underscores"
      match getOr deployment "enabled" (.bool true) with
      | .bool enabled => do
        refuse (!(orElse (field deployment "upstream_model") (field model "upstream_model")).isString) 400
          "Deployment upstream model must be text"
        match orElse (field deployment "base_url") (getOr model "base_url" (.string "")) with
        | .string base => do
          refuse (base != "" && !host.endpointUrl base) 400
            "Deployment URL must be HTTP(S), without credentials, query or fragment"
          refuse (!(getOr deployment "api_key" (.string "")).isString) 400 "Deployment API key must be text"
          refuse (!textMap (getOr deployment "headers" (.object []))) 400
            "Deployment headers must contain string values"
          refuse (!limit "rpm" (field deployment "rpm")) 400 "Deployment rpm must be a positive integer"
          refuse (!limit "tpm" (field deployment "tpm")) 400 "Deployment tpm must be a positive integer"
          refuse (!limit "weight" (field deployment "weight")) 400
            "Deployment weight must be a positive number"
          return (did, enabled)
        | _ => fail 400 "Deployment base URL must be text"
      | _ => fail 400 "Deployment enabled must be a boolean"
    | _ => fail 400 "Deployment IDs must be unique, using 1-64 letters, digits, hyphens or underscores"
  | _ => fail 400 "Unsupported upstream deployment fields"

/-- The loop, with the ids seen so far: whether an account is enabled. -/
def checkDeployments (model : Json) : List String → List Json → Result Bool
  | _, [] => .ok false
  | seen, deployment :: rest => do
    let checked ← checkDeployment host model seen deployment
    let others ← checkDeployments model (checked.1 :: seen) rest
    return checked.2 || others

/-- The accounts of a model that has a single key. -/
def impliedDeployments (model : Json) : List Json :=
  let key := getOr model "api_key" (.string "")
  let implied (id : String) (base : Json) : Json :=
    .object [("id", .string id), ("api_key", key), ("base_url", base)]
  match getOr model "additional_base_urls" (.array []) with
  | .array bases =>
    implied "primary" (getOr model "base_url" (.string "")) ::
      bases.mapIdx fun i base => implied ("extra-" ++ toString (i + 1)) base
  | _ => [implied "primary" (getOr model "base_url" (.string ""))]

/-- `deployment_entries(model)` as a check; a `ValueError` is answered by `fail`. -/
def deploymentEntries (model : Json) : Result Unit := do
  refuse (!managedProvider (field model "provider") || !given model "id" || !given model "upstream_model")
    400 "Managed model requires an ID, provider and upstream model"
  match getOr model "deployments" (.array []) with
  | .array deployments => do
    refuse (decide (deployments.length > 32)) 400 "Use at most 32 upstream deployments per model"
    refuse (!deployments.isEmpty && (given model "api_key" || given model "additional_base_urls")) 400
      "Use deployments or the single API key/endpoints, not both"
    let enabled ← checkDeployments host model []
      (if deployments.isEmpty then impliedDeployments model else deployments)
    refuse (!enabled) 400 "Enable at least one upstream deployment"
  | _ => fail 400 "Use at most 32 upstream deployments per model"

/-- A list of URLs. -/
def checkUrls : List Json → Result Unit
  | [] => .ok ()
  | .string base :: rest => do
    refuse (!host.httpUrl base) 400 "Additional model URL must be HTTP(S), without embedded credentials"
    checkUrls rest
  | _ => fail 400 "Additional endpoints must be URLs"

/-- `isinstance(v, (int, float, str)) and not isinstance(v, bool)` -/
def parameterValue : Json → Bool
  | .int _ => true
  | .float _ => true
  | .string _ => true
  | _ => false

/-- `model[key] is None`, or an integer from 1 on; a boolean is an integer. -/
def tokenLimit : Json → Bool
  | .null => true
  | .int n => decide (1 ≤ n)
  | .bool b => b
  | _ => false

/-- The provider of a model. -/
def checkProvider (provider : Json) : Result Unit := do
  refuse (!hashable provider) 500 "TypeError"
  refuse (!managedProvider provider && !provider.same (.string "legacy")) 400 "Unsupported provider"

/-- The checks on the URLs of a model. -/
def checkModelUrls (model : Json) : Result Unit := do
  if given model "base_url" then
    let url ← urlText (field model "base_url")
    refuse (!host.httpUrl url) 400 "Model URL must be HTTP(S), without embedded credentials"
    checkAlternatives
  else checkAlternatives
where
  checkAlternatives : Result Unit := do
    match getOr model "additional_base_urls" (.array []) with
    | .array alternatives => do
      refuse (decide (alternatives.length > 7)) 400
        "At most seven equivalent additional endpoints are supported"
      checkUrls host alternatives
    | _ => fail 400 "At most seven equivalent additional endpoints are supported"

/-- The checks on the parameters and headers of a model. -/
def checkModelMaps (model : Json) : Result Unit := do
  match getOr model "parameters" (.object []) with
  | .object parameters => do
    refuse (parameters.any fun f => !modelParameters.contains f.1) 400 "Unsupported model parameters"
    refuse (parameters.any fun f => !parameterValue f.2) 400 "Invalid model parameter value"
    refuse (!textMap (getOr model "headers" (.object []))) 400 "Headers must be string values"
  | _ => fail 400 "Unsupported model parameters"

/-- `validate_model` -/
def validateModel (model : Json) : Result Unit := do
  match model with
  | .object fields => do
    checkIdentifier (field model "id")
    refuse (fields.any fun f => !modelFields.contains f.1) 400
      ("Unsupported model fields: " ++ joined (foreign modelFields fields))
    checkProvider (field model "provider")
    refuse (!nonemptyText (field model "upstream_model")) 400 "Upstream model is required"
    checkModelUrls host model
    checkModelMaps model
    refuse (!tokenLimit (field model "context") || !tokenLimit (field model "output")) 400
      "Model token limits must be positive integers"
    if !(field model "provider").same (.string "legacy") then deploymentEntries host model
    else refuse (given model "deployments") 400 "Convert the legacy model before adding deployments"
  | _ => fail 500 "AttributeError"

/-- The value that `save_model` stores, up to the check of its references. -/
def savedModel (mid : String) (value old : Json) : Result Json := do
  let model ← preserveSecrets value old
  identifier mid
  let model := model.set "id" (.string mid)
  validateModel host model
  refuse ((field model "provider").same (.string "legacy") && !given old "legacy") 400
    "Legacy models can only be migrated from the existing deployment"
  return model

def mcpFields : List String :=
  ["type", "url", "headers", "timeout", "enabled", "command", "cwd", "environment", "oauth"]

/-- A dictionary of headers or of environment variables. -/
def checkMcpMap (data : Json) (key : String) : Result Unit :=
  match data.get? key with
  | none => .ok ()
  | some (.object fields) =>
    refuse (fields.any fun f => !f.2.isString || f.1.toList.any fun c => c == '\n' || c == '\r') 400
      "MCP headers/environment must contain string values"
  | some _ => fail 400 "MCP headers/environment must contain string values"

/-- `1 <= timeout <= 120000` of an integer; a boolean is an integer. -/
def timeoutAllowed : Json → Bool
  | .int n => decide (1 ≤ n) && decide (n ≤ 120000)
  | .bool b => b
  | _ => false

/-- `PurePosixPath(cwd)` of a given directory -/
def checkCwd (data : Json) : Result Unit :=
  if given data "cwd" then
    match field data "cwd" with
    | .string cwd => refuse (!workspaceDirectory cwd) 400 "MCP cwd must be under /workspace"
    | _ => typeError
  else .ok ()

/-- A remote server. -/
def checkRemote (data : Json) : Result Json := do
  let url ← urlText (getOr data "url" (.string ""))
  refuse (!host.httpUrl url) 400 "MCP URL must be HTTP(S), without embedded credentials"
  refuse ((data.get? "command").isSome || (data.get? "environment").isSome || (data.get? "cwd").isSome) 400
    "Remote MCP cannot contain command settings"
  return data.set "oauth" (.bool false)

/-- A local server. -/
def checkLocal (data : Json) : Result Json := do
  match data.get? "command" with
  | some (.array (.string executable :: arguments)) => do
    refuse (!nonemptyText (.string executable) || arguments.any fun x => !nonemptyText x) 400
      "MCP command must be a non-empty string array"
    refuse ((data.get? "url").isSome || (data.get? "headers").isSome) 400
      "Local MCP cannot contain remote settings"
    refuse (refusedExecutable executable) 400
      "Use an already installed MCP executable; installers and shell wrappers are unsupported"
    checkCwd data
    return data
  | _ => fail 400 "MCP command must be a non-empty string array"

/-- `data.get("oauth", False) is not False` -/
def oauthGiven (data : Json) : Bool :=
  match getOr data "oauth" (.bool false) with
  | .bool false => false
  | _ => true

/-- `validate_mcp` -/
def validateMcp (data : Json) : Result Json := do
  match data with
  | .object fields => do
    refuse (fields.any fun f => !mcpFields.contains f.1) 400 "Unsupported MCP configuration field"
    refuse (oauthGiven data) 400 "MCP OAuth is not supported"
    refuse (!timeoutAllowed (getOr data "timeout" (.int 10000))) 400 "MCP timeout must be 1–120000 ms"
    checkMcpMap data "headers"
    checkMcpMap data "environment"
    match field data "type" with
    | .string "remote" => checkRemote host data
    | .string "local" => checkLocal data
    | _ => fail 400 "MCP type must be local or remote"
  | _ => fail 500 "AttributeError"

end Host


/-! ## §D What masking and restoring gives back -/

theorem get?_dictionary {old : Json} {key : String} : (dictionary old).get? key = old.get? key := by
  cases old <;> rfl

theorem given_dictionary {old : Json} {key : String} : given (dictionary old) key = given old key := by
  rw [given, get?_dictionary, given]

theorem dictionary_object (fields : List (String × Json)) :
    dictionary (.object fields) = .object fields := rfl

@[simp] theorem truthy_masked {v : Json} (h : v.truthy = true) : (masked v).truthy = true := by
  cases v with
  | object fields =>
    cases fields with
    | nil => cases h
    | cons f rest => rfl
  | _ => rfl

theorem redactFields_isEmpty (fields : List (String × Json)) :
    (redactFields fields).isEmpty = fields.isEmpty := by
  cases fields <;> rfl

theorem redactItems_isEmpty (items : List Json) : (redactItems items).isEmpty = items.isEmpty := by
  cases items <;> rfl

/-- Masking keeps what a condition makes of a value. -/
theorem truthy_redact (j : Json) : (redact j).truthy = j.truthy := by
  cases j with
  | object fields => simp [redact, Json.truthy, redactFields_isEmpty]
  | array items => simp [redact, Json.truthy, redactItems_isEmpty]
  | _ => rfl

/-- What masking makes of a field. -/
def redactField (key : String) (v : Json) : Json := if secret key v then masked v else redact v

theorem lookup_redactFields {fields : List (String × Json)} {key : String} :
    (redactFields fields).lookup key = (fields.lookup key).map (redactField key) := by
  induction fields with
  | nil => rfl
  | cons f rest ih =>
    obtain ⟨key', v⟩ := f
    rw [redactFields, List.lookup_cons, List.lookup_cons, ih]
    by_cases hkey : key = key'
    · subst hkey
      simp [redactField]
    · have hne : (key == key') = false := by simpa using hkey
      simp [hne]

theorem get?_redact {fields : List (String × Json)} {key : String} :
    (redact (.object fields)).get? key = ((Json.object fields).get? key).map (redactField key) := by
  rw [redact]
  exact lookup_redactFields

theorem given_redact {fields : List (String × Json)} {key : String} :
    given (redact (.object fields)) key = given (.object fields) key := by
  rw [given, given, get?_redact]
  cases (Json.object fields).get? key with
  | none => rfl
  | some v =>
    simp only [Option.map_some, Option.any_some, redactField]
    split
    · next hsecret =>
      simp only [secret, Bool.and_eq_true] at hsecret
      rw [truthy_masked hsecret.2, hsecret.2]
    · exact truthy_redact v

/-- What the migration rule does: nothing, or the accounts of a single key are put in. -/
theorem migrated_cases {new old previous : Json} (h : migrated new old = .ok previous) :
    (given old "deployments" = false ∧ given old "api_key" = true ∧
      ∃ extra, enumerated (old.get? "additional_base_urls") = .ok extra ∧
        previous = old.set "deployments" (accounts ((old.get? "api_key").getD .null) extra)) ∨
    previous = dictionary old ∧ (given new "deployments" = false ∨ given old "deployments" = true ∨
      given old "api_key" = false) := by
  unfold migrated at h
  split at h
  · next hcond =>
    simp only [Bool.and_eq_true, Bool.not_eq_true'] at hcond
    obtain ⟨⟨-, hempty⟩, hkey⟩ := hcond
    have hobject : dictionary old = old := by
      cases old with
      | object fields => rfl
      | _ => cases hkey
    rw [hobject] at hempty hkey h
    simp only [bind_eq_ok, pure, Except.pure, Except.ok.injEq] at h
    obtain ⟨extra, hextra, rfl⟩ := h
    exact .inl ⟨hempty, hkey, extra, hextra, rfl⟩
  · next hcond =>
    obtain rfl := Except.ok.inj h
    refine .inr ⟨rfl, ?_⟩
    rw [given_dictionary, given_dictionary] at hcond
    cases hnew : given new "deployments" with
    | false => exact .inl rfl
    | true =>
      cases hold : given old "deployments" with
      | true => exact .inr (.inl rfl)
      | false =>
        refine .inr (.inr ?_)
        simpa [hnew, hold] using hcond

/-- Masking does not change what the migration rule does. -/
theorem migrated_redact {fields : List (String × Json)} {old : Json} :
    migrated (redact (.object fields)) old = migrated (.object fields) old := by
  unfold migrated
  rw [given_redact]

/-- The secrets of a field with masks in it: the dictionary of old values has the values. -/
def HeldSecret (v old : Json) : Prop :=
  match v with
  | .object fields => ∃ previous, migrated (masked v) old = .ok previous ∧
      ∀ f ∈ fields, (previous.get? f.1).getD .null = f.2
  | _ => old = v

mutual

/-- The old value has the secrets of `j` where `j` is masked. -/
def Held : Json → Json → Prop
  | .string s, old => s = MASK → old = .string MASK
  | .object fields, old => ∃ previous, migrated (.object fields) old = .ok previous ∧
      HeldFields previous fields
  | .array items, old => ∃ previous, identified old = .ok previous ∧ HeldItems previous items
  | _, _ => True

def HeldFields (previous : Json) : List (String × Json) → Prop
  | [] => True
  | (key, v) :: rest =>
    (if secret key v then HeldSecret v ((previous.get? key).getD .null)
      else Held v ((previous.get? key).getD .null)) ∧ HeldFields previous rest

def HeldItems (previous : List Json) : List Json → Prop
  | [] => True
  | item :: rest =>
    (match identity item with
      | none => redact item = item
      | some id => hashable id = true ∧ Held item (lookupId previous id)) ∧ HeldItems previous rest

end

theorem preserveFields_masked {previous : Json} {fields fields' : List (String × Json)} :
    preserveFields previous (fields.map fun f => (f.1, mask)) = .ok fields' ↔
      fields' = fields.map fun f => (f.1, (previous.get? f.1).getD .null) := by
  induction fields generalizing fields' with
  | nil => simp [preserveFields, eq_comm]
  | cons f rest ih =>
    simp only [List.map_cons, preserveFields, mask, preserveSecrets, if_pos, bind_eq_ok, Except.ok.injEq,
      exists_eq_left', pure, Except.pure]
    constructor
    · rintro ⟨rest', hrest, rfl⟩
      rw [ih.mp hrest]
    · rintro rfl
      exact ⟨_, ih.mpr rfl, rfl⟩

/-- A masked secret comes back when the old value has it. -/
theorem preserve_masked_iff {v old : Json} : preserveSecrets (masked v) old = .ok v ↔ HeldSecret v old := by
  cases v with
  | object fields =>
    simp only [HeldSecret, masked, preserveSecrets, bind_eq_ok, preserveFields_masked, pure, Except.pure,
      Except.ok.injEq, Json.object.injEq]
    refine exists_congr fun previous => and_congr_right fun _ => ?_
    constructor
    · rintro ⟨_, rfl, heq⟩ f hf
      have hpair := List.map_inj_left.mp (heq.trans (List.map_id fields).symm) f hf
      exact congrArg Prod.snd hpair
    · intro h
      refine ⟨_, rfl, ?_⟩
      conv_rhs => rw [← List.map_id fields]
      exact List.map_congr_left fun f hf => Prod.ext rfl (h f hf)
  | _ => simp [HeldSecret, masked, mask, preserveSecrets]

theorem hashable_redact (j : Json) : hashable (redact j) = hashable j := by
  cases j <;> rfl

theorem redact_of_hashable {j : Json} (h : hashable j = true) : redact j = j := by
  cases j with
  | array items => simp [hashable, Json.isArray] at h
  | object fields => simp [hashable, Json.isObject] at h
  | _ => rfl

theorem identity_redact (item : Json) : identity (redact item) = (identity item).map redact := by
  cases item with
  | object fields =>
    rw [identity, get?_redact]
    rfl
  | _ => rfl

mutual

/-- **A masked value comes back exactly when the old value has its secrets.** -/
theorem preserve_redact_iff : ∀ j old : Json, preserveSecrets (redact j) old = .ok j ↔ Held j old
  | .string s, old => by
    simp only [redact, preserveSecrets, Held, Except.ok.injEq]
    split
    · next hmask => simp [hmask]
    · next hmask => simp [hmask]
  | .object fields, old => by
    have hmigrated : migrated (.object (redactFields fields)) old = migrated (.object fields) old := by
      exact migrated_redact
    simp only [redact, preserveSecrets, Held, bind_eq_ok, pure, Except.pure, Except.ok.injEq,
      Json.object.injEq, exists_eq_right, hmigrated]
    exact exists_congr fun previous => and_congr_right fun _ => preserve_redactFields_iff previous fields
  | .array items, old => by
    simp only [redact, preserveSecrets, Held, bind_eq_ok, pure, Except.pure, Except.ok.injEq,
      Json.array.injEq, exists_eq_right]
    exact exists_congr fun previous => and_congr_right fun _ => preserve_redactItems_iff previous items
  | .null, old => by simp [redact, preserveSecrets, Held]
  | .bool b, old => by simp [redact, preserveSecrets, Held]
  | .int n, old => by simp [redact, preserveSecrets, Held]
  | .float x, old => by simp [redact, preserveSecrets, Held]

theorem preserve_redactFields_iff (previous : Json) : ∀ fields : List (String × Json),
    preserveFields previous (redactFields fields) = .ok fields ↔ HeldFields previous fields
  | [] => by simp [redactFields, preserveFields, HeldFields]
  | (key, v) :: rest => by
    simp only [redactFields, preserveFields, HeldFields, bind_eq_ok, pure, Except.pure, Except.ok.injEq,
      List.cons.injEq, Prod.mk.injEq, true_and]
    rw [← preserve_redactFields_iff previous rest, ← preserve_redact_iff v, ← preserve_masked_iff]
    split
    · constructor
      · rintro ⟨_, hv, _, hrest, rfl, rfl⟩
        exact ⟨hv, hrest⟩
      · rintro ⟨hv, hrest⟩
        exact ⟨v, hv, rest, hrest, rfl, rfl⟩
    · constructor
      · rintro ⟨_, hv, _, hrest, rfl, rfl⟩
        exact ⟨hv, hrest⟩
      · rintro ⟨hv, hrest⟩
        exact ⟨v, hv, rest, hrest, rfl, rfl⟩

theorem preserve_redactItems_iff (previous : List Json) : ∀ items : List Json,
    preserveItems previous (redactItems items) = .ok items ↔ HeldItems previous items
  | [] => by simp [redactItems, preserveItems, HeldItems]
  | item :: rest => by
    simp only [redactItems, preserveItems, HeldItems, bind_eq_ok, pure, Except.pure, Except.ok.injEq,
      List.cons.injEq]
    rw [← preserve_redactItems_iff previous rest, identity_redact]
    cases hid : identity item with
    | none =>
      simp only [Option.map_none, Except.ok.injEq, exists_eq_left']
      constructor
      · rintro ⟨_, hrest, hitem, rfl⟩
        exact ⟨hitem, hrest⟩
      · rintro ⟨hitem, hrest⟩
        exact ⟨rest, hrest, hitem, rfl⟩
    | some id =>
      simp only [Option.map_some, hashable_redact]
      rw [← preserve_redact_iff item]
      split
      · next hhash =>
        rw [redact_of_hashable hhash]
        constructor
        · rintro ⟨_, hitem, _, hrest, rfl, rfl⟩
          exact ⟨⟨hhash, hitem⟩, hrest⟩
        · rintro ⟨⟨_, hitem⟩, hrest⟩
          exact ⟨item, hitem, rest, hrest, rfl, rfl⟩
      · next hhash =>
        simp [typeError, fail, hhash]

end


/-! ## §E Values that are their own old values -/

/-- The migration rule meets this dictionary: `deployments` is empty in it, and `api_key` is not. -/
structure Clash (v : Json) : Prop where
  empty : (v.get? "deployments").any (fun d => !d.truthy) = true
  key : given v "api_key" = true

theorem given_masked {fields : List (String × Json)} {key : String} :
    given (masked (.object fields)) key = ((Json.object fields).get? key).isSome := by
  simp only [given, masked, Json.get?]
  induction fields with
  | nil => rfl
  | cons f rest ih =>
    obtain ⟨key', v⟩ := f
    rw [List.map_cons, List.lookup_cons, List.lookup_cons]
    cases key == key' with
    | false => exact ih
    | true => rfl

/-- The accounts that a single key becomes are a list with something in it. -/
theorem truthy_accounts (key : Json) (extra : Nat) : (accounts key extra).truthy = true := rfl

/-- **A dictionary of secrets comes back from itself** unless the migration rule meets it. -/
theorem heldSecret_self {v : Json} (hproper : v.Proper) : HeldSecret v v ↔ ¬Clash v := by
  cases v with
  | object fields =>
    simp only [HeldSecret]
    constructor
    · rintro ⟨previous, hprevious, hall⟩ ⟨hempty, hkey⟩
      obtain ⟨d, hd, hfalse⟩ := Option.any_eq_true _ _ |>.mp hempty
      have hnew : given (masked (.object fields)) "deployments" = true := by
        rw [given_masked, hd]
        rfl
      have hold : given (.object fields) "deployments" = false := by
        rw [given, hd]
        simpa using hfalse
      obtain ⟨extra, rfl⟩ : ∃ extra, previous = (Json.object fields).set "deployments"
          (accounts (((Json.object fields).get? "api_key").getD .null) extra) := by
        rcases migrated_cases hprevious with ⟨-, -, extra, -, hset⟩ | ⟨-, hoff | hoff | hoff⟩
        · exact ⟨extra, hset⟩
        · exact absurd (hnew.symm.trans hoff) nofun
        · exact absurd (hold.symm.trans hoff) nofun
        · exact absurd (hkey.symm.trans hoff) nofun
      have hfield := hall ("deployments", d) (hproper.get?_eq_some.mp hd)
      rw [Json.get?_set] at hfield
      obtain rfl : _ = d := hfield
      cases hfalse
    · intro hclash
      refine ⟨.object fields, ?_, fun f hf => ?_⟩
      · have hno : (given (masked (.object fields)) "deployments" && !given (.object fields) "deployments" &&
            given (.object fields) "api_key") = false := by
          rw [Bool.eq_false_iff]
          intro hall
          simp only [Bool.and_eq_true, given_masked, Bool.not_eq_true'] at hall
          obtain ⟨⟨hsome, hfalse⟩, hkey⟩ := hall
          obtain ⟨d, hd⟩ := Option.isSome_iff_exists.mp hsome
          refine hclash ⟨?_, hkey⟩
          rw [given, hd] at hfalse
          rw [hd]
          simpa using hfalse
        rw [migrated, dictionary_object, hno]
        rfl
      · rw [hproper.get?_eq_some.mpr hf]
        rfl
  | _ =>
    simp only [HeldSecret, true_iff]
    rintro ⟨hempty, -⟩
    cases hempty

theorem held_of_hashable {v : Json} (h : hashable v = true) : Held v v := by
  cases v with
  | array items => simp [hashable, Json.isArray] at h
  | object fields => simp [hashable, Json.isObject] at h
  | string s =>
    rintro rfl
    rfl
  | _ => trivial

theorem heldFields_iff {previous : Json} {fields : List (String × Json)} :
    HeldFields previous fields ↔ ∀ f ∈ fields,
      if secret f.1 f.2 then HeldSecret f.2 ((previous.get? f.1).getD .null)
      else Held f.2 ((previous.get? f.1).getD .null) := by
  induction fields with
  | nil => simp [HeldFields]
  | cons f rest ih =>
    obtain ⟨key, v⟩ := f
    rw [HeldFields, ih, List.forall_mem_cons]

theorem migrated_self {fields : List (String × Json)} :
    migrated (.object fields) (.object fields) = .ok (.object fields) := by
  unfold migrated
  rw [dictionary_object]
  cases h : given (.object fields) "deployments" <;> simp

/-- What a field of a dictionary must be like to come back. -/
def HeldField (key : String) (v : Json) : Prop := if secret key v then ¬Clash v else Held v v

/-- A dictionary comes back from itself when its fields do. -/
theorem held_object {fields : List (String × Json)} (hproper : (Json.object fields).Proper) :
    Held (.object fields) (.object fields) ↔
      ∀ key v, (Json.object fields).get? key = some v → HeldField key v := by
  simp only [Held, migrated_self, Except.ok.injEq, exists_eq_left', heldFields_iff]
  have hfield : ∀ {key v}, (Json.object fields).get? key = some v →
      ((if secret key v then HeldSecret v (((Json.object fields).get? key).getD .null)
        else Held v (((Json.object fields).get? key).getD .null)) ↔ HeldField key v) := by
    intro key v hv
    rw [hv, Option.getD_some, HeldField, heldSecret_self (hproper.of_get? hv)]
  constructor
  · intro h key v hv
    exact (hfield hv).mp (h (key, v) (hproper.get?_eq_some.mp hv))
  · intro h f hf
    have hv := hproper.get?_eq_some.mpr hf
    exact (hfield hv).mpr (h f.1 f.2 hv)

theorem held_of_falsy {v : Json} (h : v.truthy = false) : Held v v := by
  cases v with
  | array items =>
    cases items with
    | nil => exact ⟨[], rfl, trivial⟩
    | cons item rest => cases h
  | object fields =>
    cases fields with
    | nil => exact ⟨.object [], rfl, trivial⟩
    | cons f rest => cases h
  | string s =>
    rintro rfl
    rfl
  | _ => trivial

theorem heldItems_iff {previous items : List Json} :
    HeldItems previous items ↔ ∀ item ∈ items,
      match identity item with
      | none => redact item = item
      | some id => hashable id = true ∧ Held item (lookupId previous id) := by
  induction items with
  | nil => simp [HeldItems]
  | cons item rest ih => rw [HeldItems, ih, List.forall_mem_cons]

/-- A list of texts comes back. -/
theorem held_texts {items : List Json} (h : ∀ item ∈ items, item.isString = true) :
    Held (.array items) (.array items) := by
  have hnone : ∀ item ∈ items, identity item = none := by
    intro item hitem
    have hstring := h item hitem
    cases item with
    | string s => rfl
    | _ => cases hstring
  refine ⟨items.filter fun item => (identity item).isSome, ?_, heldItems_iff.mpr fun item hitem => ?_⟩
  · have hids : items.filterMap identity = [] := List.filterMap_eq_nil_iff.mpr hnone
    simp [identified, hids]
  · rw [hnone item hitem]
    have hstring := h item hitem
    cases item with
    | string s => rfl
    | _ => cases hstring

/-- The item is a dictionary whose id is a text. -/
def HasId (item : Json) : Prop := ∃ id, identity item = some (.string id)

theorem same_string {id : String} {j : Json} : j.same (.string id) = true ↔ j = .string id := by
  cases j <;> simp [Json.same, Json.sameScalar, Json.number?]

theorem lookupId_of_mem {items : List Json} (hids : ∀ item ∈ items, HasId item)
    (hnodup : (items.map identity).Nodup) {item : Json} {id : String} (hmem : item ∈ items)
    (hid : identity item = some (.string id)) : lookupId items (.string id) = item := by
  have hfound : (items.reverse.find? fun item => (identity item).any (·.same (.string id))) = some item := by
    rw [List.find?_eq_some_iff_append]
    refine ⟨by simp [hid, same_string], ?_⟩
    obtain ⟨front, rest, hsplit⟩ := List.append_of_mem hmem
    refine ⟨rest.reverse, front.reverse, by simp [hsplit], fun other hother => ?_⟩
    have hother := List.mem_reverse.mp hother
    obtain ⟨id', hid'⟩ := hids other (by rw [hsplit]; simp [hother])
    rw [hid', Option.any_some, Bool.not_eq_true', Bool.eq_false_iff]
    intro hsame
    rw [same_string] at hsame
    rw [hsplit, List.map_append, List.map_cons, List.nodup_append] at hnodup
    refine (List.nodup_cons.mp hnodup.2.1).1 ?_
    rw [hid]
    refine List.mem_map.mpr ⟨other, hother, ?_⟩
    rw [hid', hsame]
  rw [lookupId, hfound]
  rfl

theorem lookupId_of_notMem {items : List Json} (hids : ∀ item ∈ items, HasId item) {id : String}
    (hnone : ∀ item ∈ items, identity item ≠ some (.string id)) :
    lookupId items (.string id) = .object [] := by
  have hmissing : (items.reverse.find? fun item => (identity item).any (·.same (.string id))) = none := by
    rw [List.find?_eq_none]
    intro item hitem hsame
    have hitem := List.mem_reverse.mp hitem
    obtain ⟨id', hid'⟩ := hids item hitem
    rw [hid', Option.any_some, same_string] at hsame
    exact hnone item hitem (hid'.trans (congrArg some hsame))
  rw [lookupId, hmissing]
  rfl

/-- The accounts of an accepted model are all found. -/
theorem identified_of_ids {items : List Json} (hids : ∀ item ∈ items, HasId item) :
    identified (.array items) = .ok items := by
  have hhash : (items.filterMap identity).all hashable = true := by
    rw [List.all_eq_true]
    intro id hid
    obtain ⟨item, hitem, hid⟩ := List.mem_filterMap.mp hid
    obtain ⟨text, htext⟩ := hids item hitem
    rw [Option.some.inj (hid.symm.trans htext)]
    rfl
  have hall : items.filter (fun item => (identity item).isSome) = items := by
    rw [List.filter_eq_self]
    intro item hitem
    obtain ⟨text, htext⟩ := hids item hitem
    rw [htext]
    rfl
  simp [identified, hhash, hall]

/-- **A list of accounts with different ids comes back** when each account does. -/
theorem held_accounts {items : List Json} (hids : ∀ item ∈ items, HasId item)
    (hnodup : (items.map identity).Nodup) :
    Held (.array items) (.array items) ↔ ∀ item ∈ items, Held item item := by
  simp only [Held, identified_of_ids hids, Except.ok.injEq, exists_eq_left', heldItems_iff]
  refine forall₂_congr fun item hitem => ?_
  obtain ⟨id, hid⟩ := hids item hitem
  simp only [hid]
  rw [lookupId_of_mem hids hnodup hitem hid]
  exact and_iff_right rfl


/-! ## §F Accepted documents -/

/-- No list and no dictionary, or one with nothing in it. -/
def Plain (v : Json) : Prop := hashable v = true ∨ v.truthy = false

theorem Plain.held {v : Json} (h : Plain v) : Held v v := h.elim held_of_hashable held_of_falsy

theorem Plain.not_clash {v : Json} (h : Plain v) : ¬Clash v := by
  rintro ⟨hempty, -⟩
  cases v with
  | object fields =>
    rcases h with hhash | hfalse
    · cases hhash
    · cases fields with
      | nil => cases hempty
      | cons f rest => cases hfalse
  | _ => cases hempty

/-- What `deployment_entries` has checked of an account. -/
structure CheckedAccount (d : Json) : Prop where
  isObject : d.isObject = true
  keys : ∀ key v, d.get? key = some v → key ∈ deploymentFields
  hasId : HasId d
  plain : ∀ key v, d.get? key = some v → key ≠ "headers" → Plain v
  key : (getOr d "api_key" (.string "")).isString = true
  headers : textMap (getOr d "headers" (.object [])) = true

/-- What `validate_model` has checked of a model. -/
structure CheckedModel (m : Json) : Prop where
  isObject : m.isObject = true
  keys : ∀ key v, m.get? key = some v → key ∈ modelFields
  plain : ∀ key v, m.get? key = some v →
    key ∈ ["id", "provider", "upstream_model", "base_url", "context", "output"] → Plain v
  urls : ∀ v, m.get? "additional_base_urls" = some v →
    ∃ items, v = .array items ∧ ∀ item ∈ items, item.isString = true
  parameters : ∀ v, m.get? "parameters" = some v →
    ∃ fields, v = .object fields ∧ ∀ f ∈ fields, f.1 ∈ modelParameters ∧ Plain f.2
  deployments : ∀ v, m.get? "deployments" = some v → v.truthy = false ∨
    ∃ items, v = .array items ∧ (∀ d ∈ items, CheckedAccount d) ∧ (items.map identity).Nodup

theorem mem_of_get? {fields : List (String × Json)} {key : String} {v : Json}
    (h : (Json.object fields).get? key = some v) : (key, v) ∈ fields := by
  change fields.lookup key = some v at h
  induction fields with
  | nil => cases h
  | cons f rest ih =>
    obtain ⟨key', v'⟩ := f
    rw [List.lookup_cons] at h
    cases hkey : key == key' with
    | false =>
      rw [hkey] at h
      exact List.mem_cons_of_mem _ (ih h)
    | true =>
      rw [hkey] at h
      obtain rfl := beq_iff_eq.mp hkey
      obtain rfl := Option.some.inj h
      exact List.mem_cons_self ..

theorem mem_of_allowed {allowed : List String} {fields : List (String × Json)}
    (h : (fields.any fun f => !allowed.contains f.1) = false) {key : String} {v : Json}
    (hv : (Json.object fields).get? key = some v) : key ∈ allowed := by
  have := List.any_eq_false.mp h (key, v) (mem_of_get? hv)
  simpa using this

theorem field_of_get? {j v : Json} {key : String} (h : j.get? key = some v) (default : Json) :
    getOr j key default = v := by
  rw [getOr, h, Option.getD_some]

theorem plain_of_isString {v : Json} (h : v.isString = true) : Plain v := by
  cases v with
  | string s => exact .inl rfl
  | _ => cases h

/-- The first of two values, when it counts, is the text that the choice is. -/
theorem plain_of_orElse {a b : Json} (h : (orElse a b).isString = true) : Plain a := by
  unfold orElse at h
  split at h
  · exact plain_of_isString h
  · next hfalse => exact .inr (by simpa using hfalse)

theorem plain_of_urlText {v : Json} {s : String} (h : urlText v = .ok s) : Plain v := by
  unfold urlText at h
  split at h
  · exact .inl rfl
  · split at h
    · cases h
    · next hfalse => exact .inr (by simpa using hfalse)

theorem plain_of_limit {key : String} {v : Json} (h : limit key v = true) : Plain v := by
  cases v <;> first | exact .inl rfl | cases h

theorem plain_of_tokenLimit {v : Json} (h : tokenLimit v = true) : Plain v := by
  cases v <;> first | exact .inl rfl | cases h

theorem plain_of_parameterValue {v : Json} (h : parameterValue v = true) : Plain v := by
  cases v <;> first | exact .inl rfl | cases h

section Host

variable {host : Host}

theorem checkDeployment_ok {model d : Json} {seen : List String} {did : String} {enabled : Bool}
    (h : checkDeployment host model seen d = .ok (did, enabled)) :
    CheckedAccount d ∧ identity d = some (.string did) ∧ did ∉ seen := by
  unfold checkDeployment at h
  split at h
  · next fields =>
    simp only [bind_eq_ok, refuse_eq_ok] at h
    obtain ⟨_, hkeys, h⟩ := h
    split at h
    · next did' hid =>
      simp only [bind_eq_ok, refuse_eq_ok, Bool.or_eq_false_iff, List.contains_eq_mem,
        decide_eq_false_iff_not] at h
      obtain ⟨_, ⟨-, hnew⟩, h⟩ := h
      split at h
      · next enabled' henabled =>
        simp only [bind_eq_ok, refuse_eq_ok, Bool.not_eq_false'] at h
        obtain ⟨_, hupstream, h⟩ := h
        split at h
        · next base hbase =>
          simp only [bind_eq_ok, refuse_eq_ok, Bool.not_eq_false'] at h
          obtain ⟨_, -, _, hkey, _, hheaders, _, hrpm, _, htpm, _, hweight, h⟩ := h
          obtain ⟨rfl, -⟩ := Prod.mk.inj (Except.ok.inj h)
          have hallowed : ∀ key v, (Json.object fields).get? key = some v → key ∈ deploymentFields :=
            fun key v hv => mem_of_allowed hkeys hv
          refine ⟨⟨rfl, hallowed, ⟨did', hid⟩, fun key v hv hne => ?_, hkey, hheaders⟩, hid, hnew⟩
          have hmem := hallowed key v hv
          simp only [deploymentFields, List.mem_cons, List.not_mem_nil, or_false] at hmem
          rcases hmem with rfl | rfl | rfl | rfl | rfl | rfl | rfl | rfl | rfl
          · rw [Option.some.inj (hv.symm.trans hid)]
            exact .inl rfl
          · rw [field_of_get? hv] at hkey
            exact plain_of_isString hkey
          · rw [field, field_of_get? hv] at hbase
            exact plain_of_orElse (by rw [hbase]; rfl)
          · rw [field, field_of_get? hv] at hupstream
            exact plain_of_orElse hupstream
          · exact absurd rfl hne
          · rw [field_of_get? hv] at henabled
            rw [henabled]
            exact .inl rfl
          · rw [field, field_of_get? hv] at hrpm
            exact plain_of_limit hrpm
          · rw [field, field_of_get? hv] at htpm
            exact plain_of_limit htpm
          · rw [field, field_of_get? hv] at hweight
            exact plain_of_limit hweight
        · cases h
      · cases h
    · cases h
  · cases h

/-- The accounts of an accepted model have different ids. -/
theorem checkDeployments_ok {model : Json} {seen : List String} {items : List Json} {enabled : Bool}
    (h : checkDeployments host model seen items = .ok enabled) :
    (∀ d ∈ items, CheckedAccount d) ∧ (items.map identity).Nodup ∧
      ∀ d ∈ items, ∀ id ∈ seen, identity d ≠ some (.string id) := by
  induction items generalizing seen enabled with
  | nil => simp
  | cons d rest ih =>
    simp only [checkDeployments, bind_eq_ok] at h
    obtain ⟨⟨did, on⟩, hd, others, hrest, -⟩ := h
    obtain ⟨hchecked, hid, hnew⟩ := checkDeployment_ok hd
    obtain ⟨hall, hnodup, hseen⟩ := ih hrest
    refine ⟨List.forall_mem_cons.mpr ⟨hchecked, hall⟩, ?_, List.forall_mem_cons.mpr ⟨?_, ?_⟩⟩
    · rw [List.map_cons, List.nodup_cons]
      refine ⟨fun hmem => ?_, hnodup⟩
      obtain ⟨e, he, heq⟩ := List.mem_map.mp hmem
      exact hseen e he did (List.mem_cons_self ..) (heq.trans hid)
    · intro id hid' heq
      have := hid.symm.trans heq
      simp only [Option.some.injEq, Json.string.injEq] at this
      subst this
      exact hnew hid'
    · exact fun e he id hid' => hseen e he id (List.mem_cons_of_mem _ hid')

theorem checkUrls_ok {items : List Json} {u : Unit} (h : checkUrls host items = .ok u) :
    ∀ item ∈ items, item.isString = true := by
  induction items with
  | nil => simp
  | cons item rest ih =>
    unfold checkUrls at h
    split at h
    · cases ‹item :: rest = []›
    · next base rest' heq =>
      obtain ⟨rfl, rfl⟩ := List.cons.inj heq
      rw [bind_eq_ok] at h
      obtain ⟨_, _, h⟩ := h
      exact List.forall_mem_cons.mpr ⟨rfl, ih h⟩
    · cases h

theorem deploymentEntries_ok {m : Json} {u : Unit} (h : deploymentEntries host m = .ok u) {v : Json}
    (hv : m.get? "deployments" = some v) :
    ∃ items, v = .array items ∧ (items ≠ [] → (∀ d ∈ items, CheckedAccount d) ∧ (items.map identity).Nodup) := by
  simp only [deploymentEntries, bind_eq_ok, refuse_eq_ok, field_of_get? hv] at h
  obtain ⟨_, -, h⟩ := h
  split at h
  · next items =>
    simp only [bind_eq_ok] at h
    obtain ⟨_, -, _, -, enabled, hchecked, -⟩ := h
    refine ⟨items, rfl, fun hne => ?_⟩
    rw [if_neg (by simpa using hne)] at hchecked
    obtain ⟨hall, hnodup, -⟩ := checkDeployments_ok hchecked
    exact ⟨hall, hnodup⟩
  · cases h

theorem checkModelUrls_ok {m : Json} {u : Unit} (h : checkModelUrls host m = .ok u) :
    (∀ v, m.get? "base_url" = some v → Plain v) ∧ ∀ v, m.get? "additional_base_urls" = some v →
      ∃ items, v = .array items ∧ ∀ item ∈ items, item.isString = true := by
  have halternatives : ∀ {u}, checkModelUrls.checkAlternatives host m = .ok u →
      ∀ v, m.get? "additional_base_urls" = some v →
        ∃ items, v = .array items ∧ ∀ item ∈ items, item.isString = true := by
    intro u h v hv
    unfold checkModelUrls.checkAlternatives at h
    rw [field_of_get? hv] at h
    split at h
    · next items =>
      rw [bind_eq_ok] at h
      obtain ⟨_, -, h⟩ := h
      exact ⟨items, rfl, checkUrls_ok h⟩
    · cases h
  unfold checkModelUrls at h
  split at h
  · simp only [bind_eq_ok] at h
    obtain ⟨url, hurl, _, -, h⟩ := h
    refine ⟨fun v hv => ?_, halternatives h⟩
    rw [field, field_of_get? hv] at hurl
    exact plain_of_urlText hurl
  · next hgiven =>
    refine ⟨fun v hv => .inr ?_, halternatives h⟩
    rw [given, hv] at hgiven
    simpa using hgiven

theorem checkModelMaps_ok {m : Json} {u : Unit} (h : checkModelMaps m = .ok u) {v : Json}
    (hv : m.get? "parameters" = some v) :
    ∃ fields, v = .object fields ∧ ∀ f ∈ fields, f.1 ∈ modelParameters ∧ Plain f.2 := by
  unfold checkModelMaps at h
  rw [field_of_get? hv] at h
  split at h
  · next fields =>
    simp only [bind_eq_ok, refuse_eq_ok] at h
    obtain ⟨_, hkeys, _, hvalues, -⟩ := h
    refine ⟨fields, rfl, fun f hf => ⟨?_, ?_⟩⟩
    · simpa using List.any_eq_false.mp hkeys f hf
    · exact plain_of_parameterValue (by simpa using List.any_eq_false.mp hvalues f hf)
  · cases h

/-- **What `validate_model` accepts.** -/
theorem validateModel_ok {m : Json} {u : Unit} (h : validateModel host m = .ok u) : CheckedModel m := by
  unfold validateModel at h
  split at h
  · next fields =>
    simp only [bind_eq_ok, refuse_eq_ok, Bool.not_eq_false', Bool.or_eq_false_iff] at h
    obtain ⟨_, hid, _, hkeys, _, hprovider, _, hupstream, _, hurls, _, hmaps, _, ⟨hcontext, houtput⟩, h⟩ := h
    obtain ⟨hbase, hadditional⟩ := checkModelUrls_ok hurls
    refine ⟨rfl, fun key v hv => mem_of_allowed hkeys hv, fun key v hv hmem => ?_, hadditional,
      fun v hv => checkModelMaps_ok hmaps hv, fun v hv => ?_⟩
    · simp only [List.mem_cons, List.not_mem_nil, or_false] at hmem
      rcases hmem with rfl | rfl | rfl | rfl | rfl | rfl
      · rw [field, field_of_get? hv] at hid
        cases v with
        | string s => exact .inl rfl
        | _ => cases hid
      · simp only [checkProvider, field, field_of_get? hv, bind_eq_ok, refuse_eq_ok, Bool.not_eq_false'] at hprovider
        obtain ⟨_, hhash, -⟩ := hprovider
        exact .inl hhash
      · simp only [field, field_of_get? hv, nonemptyText, Bool.and_eq_true] at hupstream
        exact plain_of_isString hupstream.1
      · exact hbase v hv
      · rw [field, field_of_get? hv] at hcontext
        exact plain_of_tokenLimit hcontext
      · rw [field, field_of_get? hv] at houtput
        exact plain_of_tokenLimit houtput
    · split at h
      · obtain ⟨items, rfl, hitems⟩ := deploymentEntries_ok h hv
        by_cases hne : items = []
        · subst hne
          exact .inl rfl
        · exact .inr ⟨items, rfl, hitems hne⟩
      · rw [refuse_eq_ok, given, hv] at h
        exact .inl (by simpa using h)
  · cases h

end Host


/-! ## §G The round trip -/

/-- The migration rule leaves the secrets of a model alone, and what stands in the fields that
`validate_model` does not look at comes back. -/
structure Restorable (m : Json) : Prop where
  secrets : ∀ key v, m.get? key = some v → key ∈ secretFields → ¬Clash v
  accounts : ∀ items, m.get? "deployments" = some (.array items) →
    ∀ d ∈ items, ∀ v, d.get? "headers" = some v → ¬Clash v
  unchecked : ∀ key v, m.get? key = some v → key ∈ ["name", "enabled", "legacy"] → Held v v

/-- The same for an MCP server. -/
structure RestorableMcp (m : Json) : Prop where
  secrets : ∀ key v, m.get? key = some v → key ∈ secretFields → ¬Clash v
  unchecked : ∀ v, m.get? "enabled" = some v → Held v v

theorem Plain.heldField {v : Json} (h : Plain v) (key : String) : HeldField key v := by
  unfold HeldField
  split
  · exact h.not_clash
  · exact h.held

/-- A field of secrets comes back when the migration rule leaves it alone. -/
theorem heldField_secret {key : String} {v : Json} (hkey : key ∈ secretFields) :
    HeldField key v ↔ ¬Clash v := by
  have hcontains : secretFields.contains key = true := by simpa using hkey
  unfold HeldField secret
  rw [hcontains, Bool.true_and]
  split
  · rfl
  · next hfalse =>
    have hplain : Plain v := .inr (by simpa using hfalse)
    exact iff_of_true hplain.held hplain.not_clash

theorem heldField_open {key : String} {v : Json} (hkey : key ∉ secretFields) :
    HeldField key v ↔ Held v v := by
  have hcontains : secretFields.contains key = false := by simpa using hkey
  simp [HeldField, secret, hkey]

theorem object_of_isObject {j : Json} (h : j.isObject = true) : ∃ fields, j = .object fields := by
  cases j with
  | object fields => exact ⟨fields, rfl⟩
  | _ => cases h

theorem proper_item {items : List Json} (h : (Json.array items).Proper) : ∀ d ∈ items, d.Proper := by
  rw [Json.Proper] at h
  exact Json.properItems_iff.mp h

theorem proper_value {fields : List (String × Json)} (h : (Json.object fields).Proper) :
    ∀ f ∈ fields, f.2.Proper := by
  rw [Json.Proper] at h
  exact Json.properFields_iff.mp h.2

/-- An account comes back when the migration rule leaves its headers alone. -/
theorem CheckedAccount.held_iff {d : Json} (h : CheckedAccount d) (hproper : d.Proper) :
    Held d d ↔ ∀ v, d.get? "headers" = some v → ¬Clash v := by
  obtain ⟨fields, rfl⟩ := object_of_isObject h.isObject
  rw [held_object hproper]
  constructor
  · intro hall v hv
    exact (heldField_secret (by decide)).mp (hall "headers" v hv)
  · intro hheaders key v hv
    by_cases hkey : key = "headers"
    · subst hkey
      exact (heldField_secret (by decide)).mpr (hheaders v hv)
    · exact (h.plain key v hv hkey).heldField key

/-- Parameters have no secrets. -/
theorem held_parameters {fields : List (String × Json)} (hproper : (Json.object fields).Proper)
    (h : ∀ f ∈ fields, f.1 ∈ modelParameters ∧ Plain f.2) : Held (.object fields) (.object fields) := by
  rw [held_object hproper]
  intro key v hv
  exact (h (key, v) (hproper.get?_eq_some.mp hv)).2.heldField key

/-- **An accepted model comes back from its masked form exactly when the migration rule leaves its secrets
alone.** -/
theorem CheckedModel.restored_iff {m : Json} (h : CheckedModel m) (hproper : m.Proper) :
    preserveSecrets (redact m) m = .ok m ↔ Restorable m := by
  have haccounts : ∀ v, m.get? "deployments" = some v →
      (Held v v ↔ ∀ items, v = .array items → ∀ d ∈ items, ∀ w, d.get? "headers" = some w → ¬Clash w) := by
    intro v hv
    rcases h.deployments v hv with hfalse | ⟨items, rfl, hchecked, hnodup⟩
    · refine iff_of_true (held_of_falsy hfalse) ?_
      rintro items rfl d hd
      rw [Json.truthy, Bool.not_eq_false', List.isEmpty_iff] at hfalse
      rw [hfalse] at hd
      cases hd
    · rw [held_accounts (fun d hd => (hchecked d hd).hasId) hnodup]
      have hitem := proper_item (hproper.of_get? hv)
      constructor
      · rintro hall _ heq d hd
        obtain rfl := Json.array.inj heq
        exact ((hchecked d hd).held_iff (hitem d hd)).mp (hall d hd)
      · intro hall d hd
        exact ((hchecked d hd).held_iff (hitem d hd)).mpr (hall items rfl d hd)
  obtain ⟨fields, rfl⟩ := object_of_isObject h.isObject
  rw [preserve_redact_iff, held_object hproper]
  constructor
  · intro hall
    refine ⟨fun key v hv hkey => (heldField_secret hkey).mp (hall key v hv), fun items hitems => ?_,
      fun key v hv hkey => ?_⟩
    · have hheld := (heldField_open (by decide)).mp (hall "deployments" _ hitems)
      exact (haccounts _ hitems).mp hheld items rfl
    · refine (heldField_open ?_).mp (hall key v hv)
      simp only [List.mem_cons, List.not_mem_nil, or_false] at hkey
      rcases hkey with rfl | rfl | rfl <;> decide
  · rintro ⟨hsecrets, hdeployments, hunchecked⟩ key v hv
    by_cases hsecret : key ∈ secretFields
    · exact (heldField_secret hsecret).mpr (hsecrets key v hv hsecret)
    · rw [heldField_open hsecret]
      have hkey := h.keys key v hv
      by_cases hplain : key ∈ ["id", "provider", "upstream_model", "base_url", "context", "output"]
      · exact (h.plain key v hv hplain).held
      · by_cases hopen : key ∈ ["name", "enabled", "legacy"]
        · exact hunchecked key v hv hopen
        · have hrest : key = "additional_base_urls" ∨ key = "parameters" ∨ key = "deployments" := by
            simp only [modelFields, secretFields, List.mem_cons, List.not_mem_nil, or_false, not_or] at *
            tauto
          rcases hrest with rfl | rfl | rfl
          · obtain ⟨items, rfl, htexts⟩ := h.urls v hv
            exact held_texts htexts
          · obtain ⟨parameters, rfl, hall⟩ := h.parameters v hv
            exact held_parameters (hproper.of_get? hv) hall
          · rw [haccounts v hv]
            rintro items rfl
            exact hdeployments items hv

/-- What `validate_mcp` has checked of what it returns. -/
structure CheckedMcp (m : Json) : Prop where
  isObject : m.isObject = true
  keys : ∀ key v, m.get? key = some v → key ∈ mcpFields
  plain : ∀ key v, m.get? key = some v → key ∈ ["type", "url", "timeout", "cwd", "oauth"] → Plain v
  command : ∀ v, m.get? "command" = some v → ∃ items, v = .array items ∧ ∀ item ∈ items, item.isString = true

theorem CheckedMcp.restored_iff {m : Json} (h : CheckedMcp m) (hproper : m.Proper) :
    preserveSecrets (redact m) m = .ok m ↔ RestorableMcp m := by
  obtain ⟨fields, rfl⟩ := object_of_isObject h.isObject
  rw [preserve_redact_iff, held_object hproper]
  constructor
  · intro hall
    exact ⟨fun key v hv hkey => (heldField_secret hkey).mp (hall key v hv),
      fun v hv => (heldField_open (by decide)).mp (hall "enabled" v hv)⟩
  · rintro ⟨hsecrets, hunchecked⟩ key v hv
    by_cases hsecret : key ∈ secretFields
    · exact (heldField_secret hsecret).mpr (hsecrets key v hv hsecret)
    · rw [heldField_open hsecret]
      have hkey := h.keys key v hv
      by_cases hplain : key ∈ ["type", "url", "timeout", "cwd", "oauth"]
      · exact (h.plain key v hv hplain).held
      · have hrest : key = "enabled" ∨ key = "command" := by
          simp only [mcpFields, secretFields, List.mem_cons, List.not_mem_nil, or_false, not_or] at *
          tauto
        rcases hrest with rfl | rfl
        · exact hunchecked v hv
        · obtain ⟨items, rfl, htexts⟩ := h.command v hv
          exact held_texts htexts

theorem plain_of_timeout {v : Json} (h : timeoutAllowed v = true) : Plain v := by
  cases v <;> first | exact .inl rfl | cases h

theorem plain_of_oauth {data v : Json} (h : oauthGiven data = false) (hv : data.get? "oauth" = some v) :
    v = .bool false := by
  unfold oauthGiven at h
  rw [field_of_get? hv] at h
  split at h
  · rfl
  · cases h

theorem checkMcpMap_ok {data v : Json} {key : String} {u : Unit} (h : checkMcpMap data key = .ok u)
    (hv : data.get? key = some v) : textMap v = true := by
  unfold checkMcpMap at h
  rw [hv] at h
  cases v with
  | object fields =>
    rw [refuse_eq_ok] at h
    rw [textMap, List.all_eq_true]
    intro f hf
    have := List.any_eq_false.mp h f hf
    simp only [Bool.or_eq_true, Bool.not_eq_true', not_or, Bool.not_eq_false] at this
    exact this.1
  | _ => cases h

section Host

variable {host : Host}

theorem checkRemote_ok {fields : List (String × Json)} {m : Json}
    (h : checkRemote host (.object fields) = .ok m)
    (hkeys : ∀ key v, (Json.object fields).get? key = some v → key ∈ mcpFields)
    (htime : ∀ v, (Json.object fields).get? "timeout" = some v → Plain v)
    (htype : ∀ v, (Json.object fields).get? "type" = some v → Plain v) : CheckedMcp m := by
  simp only [checkRemote, bind_eq_ok, refuse_eq_ok, Bool.or_eq_false_iff, Option.isSome_eq_false_iff,
    Option.isNone_iff_eq_none] at h
  obtain ⟨url, hurl, _, -, _, ⟨⟨hcommand, -⟩, hcwd⟩, h⟩ := h
  obtain rfl := Except.ok.inj h
  have hset : ∀ key v, ((Json.object fields).set "oauth" (.bool false)).get? key = some v →
      key = "oauth" ∧ v = .bool false ∨ (Json.object fields).get? key = some v := by
    intro key v hv
    by_cases hkey : key = "oauth"
    · subst hkey
      rw [Json.get?_set] at hv
      exact .inl ⟨rfl, (Option.some.inj hv).symm⟩
    · rw [Json.get?_set_ne hkey] at hv
      exact .inr hv
  refine ⟨Json.isObject_set, fun key v hv => ?_, fun key v hv hkey => ?_, fun v hv => ?_⟩
  · rcases hset key v hv with ⟨rfl, -⟩ | hold
    · decide
    · exact hkeys key v hold
  · rcases hset key v hv with ⟨-, rfl⟩ | hold
    · exact .inl rfl
    · simp only [List.mem_cons, List.not_mem_nil, or_false] at hkey
      rcases hkey with rfl | rfl | rfl | rfl | rfl
      · exact htype v hold
      · rw [field_of_get? hold] at hurl
        exact plain_of_urlText hurl
      · exact htime v hold
      · rw [hcwd] at hold
        cases hold
      · rw [Json.get?_set] at hv
        obtain rfl := Option.some.inj hv
        exact .inl rfl
  · rcases hset "command" v hv with ⟨hne, -⟩ | hold
    · exact absurd hne (by decide)
    · rw [hcommand] at hold
      cases hold

theorem checkLocal_ok {fields : List (String × Json)} {m : Json} (h : checkLocal (.object fields) = .ok m)
    (hkeys : ∀ key v, (Json.object fields).get? key = some v → key ∈ mcpFields)
    (htime : ∀ v, (Json.object fields).get? "timeout" = some v → Plain v)
    (htype : ∀ v, (Json.object fields).get? "type" = some v → Plain v)
    (hoauth : ∀ v, (Json.object fields).get? "oauth" = some v → Plain v) : CheckedMcp m := by
  unfold checkLocal at h
  split at h
  · next executable arguments hcommand =>
    simp only [bind_eq_ok, refuse_eq_ok, Bool.or_eq_false_iff, Option.isSome_eq_false_iff,
      Option.isNone_iff_eq_none] at h
    obtain ⟨_, ⟨-, harguments⟩, _, ⟨hurl, -⟩, _, -, _, hcwd, h⟩ := h
    obtain rfl := Except.ok.inj h
    refine ⟨rfl, hkeys, fun key v hv hkey => ?_, fun v hv => ?_⟩
    · simp only [List.mem_cons, List.not_mem_nil, or_false] at hkey
      rcases hkey with rfl | rfl | rfl | rfl | rfl
      · exact htype v hv
      · rw [hurl] at hv
        cases hv
      · exact htime v hv
      · unfold checkCwd at hcwd
        rw [given, hv, field, field_of_get? hv] at hcwd
        split at hcwd
        · split at hcwd
          · exact .inl rfl
          · cases hcwd
        · next hfalse => exact .inr (by simpa using hfalse)
      · exact hoauth v hv
    · rw [hcommand] at hv
      refine ⟨_, (Option.some.inj hv).symm, List.forall_mem_cons.mpr ⟨rfl, fun item hitem => ?_⟩⟩
      have := List.any_eq_false.mp harguments item hitem
      simp only [nonemptyText, Bool.not_eq_true', Bool.not_eq_false, Bool.and_eq_true] at this
      exact this.1
  · cases h

/-- **What `validate_mcp` accepts.** -/
theorem validateMcp_ok {data m : Json} (h : validateMcp host data = .ok m) : CheckedMcp m := by
  unfold validateMcp at h
  split at h
  · next fields =>
    simp only [bind_eq_ok, refuse_eq_ok, Bool.not_eq_false'] at h
    obtain ⟨_, hkeys, _, hoauth, _, htimeout, _, -, _, -, h⟩ := h
    have hallowed : ∀ key v, (Json.object fields).get? key = some v → key ∈ mcpFields :=
      fun key v hv => mem_of_allowed hkeys hv
    have htime : ∀ v, (Json.object fields).get? "timeout" = some v → Plain v := by
      intro v hv
      rw [field_of_get? hv] at htimeout
      exact plain_of_timeout htimeout
    have htexts : ∀ text v, field (.object fields) "type" = .string text →
        (Json.object fields).get? "type" = some v → Plain v := by
      intro text v htype hv
      rw [field, field_of_get? hv] at htype
      rw [htype]
      exact .inl rfl
    split at h
    · next htype =>
      exact checkRemote_ok h hallowed htime fun v hv => htexts _ v htype hv
    · next htype =>
      exact checkLocal_ok h hallowed htime (fun v hv => htexts _ v htype hv) fun v hv =>
        plain_of_oauth hoauth hv ▸ .inl rfl
    · cases h
  · cases h

end Host


/-! ## §H Edits -/

/-- `j["headers"][n]` -/
def header (j : Json) (n : String) : Option Json := (j.get? "headers").bind (·.get? n)

/-- `d` is the account of the model with this id. -/
def Names (m : Json) (id : String) (d : Json) : Prop :=
  ∃ items, m.get? "deployments" = some (.array items) ∧ d ∈ items ∧ identity d = some (.string id)

/-- The documented migration: the model has a single key, and the id is the one that an endpoint of it
gets as an account. -/
def Migrates (m : Json) (id : String) : Prop :=
  given m "deployments" = false ∧ given m "api_key" = true ∧
    ∃ extra, enumerated (m.get? "additional_base_urls") = .ok extra ∧
      (id = "primary" ∨ ∃ i < extra, id = "extra-" ++ toString (i + 1))

/-- The masked credentials of an account are those of `d`. -/
structure Restored (d item item' : Json) : Prop where
  field : ∀ key, key ≠ "deployments" → item.get? key = some mask →
    item'.get? key = some ((d.get? key).getD .null)
  header : ∀ n w, header d n = some w → header item n = some mask → header item' n = some w

/-- The masked credentials of an account are lost. -/
structure Blank (item item' : Json) : Prop where
  field : ∀ key, key ≠ "deployments" → item.get? key = some mask → item'.get? key = some .null
  header : ∀ n, header item n = some mask → header item' n = some .null

/-- What becomes of an account of an edit: its masked credentials are those of the stored account with the
same id, and when there is none they are lost. -/
def AccountSafe (m item item' : Json) : Prop :=
  ∀ id, identity item = some (.string id) →
    (∀ d, Names m id d → Restored d item item') ∧
    (Migrates m id → item.get? "api_key" = some mask → item'.get? "api_key" = m.get? "api_key") ∧
    ((∀ d, ¬Names m id d) → ¬Migrates m id → Blank item item')

/-- The accounts of an edit, one by one. -/
def EditSafe (m new v : Json) : Prop :=
  ∀ items, new.get? "deployments" = some (.array items) →
    ∃ items', v.get? "deployments" = some (.array items') ∧ List.Forall₂ (AccountSafe m) items items'

theorem lookup_preserveFields {previous : Json} {fields fields' : List (String × Json)}
    (h : preserveFields previous fields = .ok fields') {key : String} {v : Json}
    (hv : fields.lookup key = some v) :
    ∃ v', fields'.lookup key = some v' ∧ preserveSecrets v ((previous.get? key).getD .null) = .ok v' := by
  induction fields generalizing fields' with
  | nil => cases hv
  | cons f rest ih =>
    obtain ⟨key', w⟩ := f
    simp only [preserveFields, bind_eq_ok, pure, Except.pure, Except.ok.injEq] at h
    obtain ⟨w', hw, rest', hrest, rfl⟩ := h
    rw [List.lookup_cons] at hv ⊢
    cases hkey : key == key' with
    | false =>
      rw [hkey] at hv
      exact ih hrest hv
    | true =>
      rw [hkey] at hv
      obtain rfl := Option.some.inj hv
      obtain rfl := beq_iff_eq.mp hkey
      exact ⟨w', rfl, hw⟩

theorem object_of_get? {j v : Json} {key : String} (h : j.get? key = some v) : ∃ fields, j = .object fields := by
  cases j with
  | object fields => exact ⟨fields, rfl⟩
  | _ => cases h

/-- What restoring a dictionary makes of one of its fields. -/
theorem preserve_get? {new old v x : Json} {key : String} (h : preserveSecrets new old = .ok v)
    (hx : new.get? key = some x) :
    ∃ previous x', migrated new old = .ok previous ∧ v.get? key = some x' ∧
      preserveSecrets x ((previous.get? key).getD .null) = .ok x' := by
  obtain ⟨fields, rfl⟩ := object_of_get? hx
  simp only [preserveSecrets, bind_eq_ok, pure, Except.pure, Except.ok.injEq] at h
  obtain ⟨previous, hprevious, fields', hfields, rfl⟩ := h
  obtain ⟨x', hx', hpreserved⟩ := lookup_preserveFields hfields hx
  exact ⟨previous, x', hprevious, hx', hpreserved⟩

/-- The migration rule changes the accounts only. -/
theorem migrated_get? {new old previous : Json} (h : migrated new old = .ok previous) {key : String}
    (hkey : key ≠ "deployments") : previous.get? key = old.get? key := by
  rcases migrated_cases h with ⟨-, -, _, -, rfl⟩ | ⟨rfl, -⟩
  · exact Json.get?_set_ne hkey
  · exact get?_dictionary

/-- The migration rule does not apply. -/
theorem migrated_off {new old previous : Json} (h : migrated new old = .ok previous)
    (hoff : given old "deployments" = true ∨ given old "api_key" = false) {key : String} :
    previous.get? key = old.get? key := by
  rcases migrated_cases h with ⟨hempty, hkey, -⟩ | ⟨rfl, -⟩
  · rcases hoff with hgiven | hnone
    · exact absurd (hempty.symm.trans hgiven) nofun
    · exact absurd (hkey.symm.trans hnone) nofun
  · exact get?_dictionary

theorem preserve_mask {old v : Json} (h : preserveSecrets mask old = .ok v) : v = old := by
  simpa [mask, preserveSecrets, eq_comm] using h

/-- A masked field of a restored dictionary. -/
theorem preserve_field {new old v : Json} (h : preserveSecrets new old = .ok v) {key : String}
    (hkey : key ≠ "deployments") (hmask : new.get? key = some mask) :
    v.get? key = some ((old.get? key).getD .null) := by
  obtain ⟨previous, x', hprevious, hx', hpreserved⟩ := preserve_get? h hmask
  rw [hx', preserve_mask hpreserved, migrated_get? hprevious hkey]

/-- A masked header that the old account has, unless the migration rule meets the headers. -/
theorem preserve_header {item d item' : Json} (h : preserveSecrets item d = .ok item')
    (hclash : ∀ v, d.get? "headers" = some v → ¬Clash v) {n : String} {w : Json}
    (hw : header d n = some w) (hmask : header item n = some mask) : header item' n = some w := by
  obtain ⟨headers, hheaders, hn⟩ := Option.bind_eq_some_iff.mp hmask
  obtain ⟨old, hold, hwold⟩ := Option.bind_eq_some_iff.mp hw
  obtain ⟨previous, x', hprevious, hx', hpreserved⟩ := preserve_get? h hheaders
  rw [migrated_get? hprevious (by decide), hold, Option.getD_some] at hpreserved
  rw [header, hx', Option.bind_some]
  obtain ⟨previous', y, hprevious', hy, hmasked⟩ := preserve_get? hpreserved hn
  rw [hy, preserve_mask hmasked]
  by_cases hne : n = "deployments"
  · subst hne
    have hoff : given old "deployments" = true ∨ given old "api_key" = false := by
      by_contra hboth
      simp only [not_or, Bool.not_eq_true, Bool.not_eq_false] at hboth
      refine hclash old hold ⟨?_, hboth.2⟩
      have hfalse := hboth.1
      rw [given, hwold] at hfalse
      rw [hwold]
      simpa using hfalse
    rw [migrated_off hprevious' hoff, hwold]
    rfl
  · rw [migrated_get? hprevious' hne, hwold]
    rfl

/-- A masked header of an account without old headers. -/
theorem preserve_new_header {item d item' : Json} (h : preserveSecrets item d = .ok item')
    (hnone : d.get? "headers" = none) {n : String} (hmask : header item n = some mask) :
    header item' n = some .null := by
  obtain ⟨headers, hheaders, hn⟩ := Option.bind_eq_some_iff.mp hmask
  obtain ⟨previous, x', hprevious, hx', hpreserved⟩ := preserve_get? h hheaders
  rw [migrated_get? hprevious (by decide), hnone, Option.getD_none] at hpreserved
  rw [header, hx', Option.bind_some]
  obtain ⟨previous', y, hprevious', hy, hmasked⟩ := preserve_get? hpreserved hn
  rw [hy, preserve_mask hmasked, migrated_off hprevious' (.inr rfl)]
  rfl

theorem preserveItems_ok {previous items items' : List Json}
    (h : preserveItems previous items = .ok items') :
    List.Forall₂ (fun item item' => ∀ id, identity item = some (.string id) →
      preserveSecrets item (lookupId previous (.string id)) = .ok item') items items' := by
  induction items generalizing items' with
  | nil =>
    obtain rfl := Except.ok.inj h
    exact .nil
  | cons item rest ih =>
    simp only [preserveItems, bind_eq_ok, pure, Except.pure, Except.ok.injEq] at h
    obtain ⟨item', hitem, rest', hrest, rfl⟩ := h
    refine .cons (fun id hid => ?_) (ih hrest)
    rw [hid] at hitem
    exact hitem


theorem identified_of_falsy {old : Json} (h : old.truthy = false) : identified old = .ok [] := by
  cases old with
  | array items =>
    cases items with
    | nil => rfl
    | cons item rest => cases h
  | object fields => rfl
  | string s => rfl
  | _ => simp [identified, h]

theorem lookupId_nil (id : Json) : lookupId [] id = .object [] := rfl

/-- Without an old account the masked credentials are lost. -/
theorem blank_of_preserve {item item' : Json} (h : preserveSecrets item (.object []) = .ok item') :
    Blank item item' :=
  ⟨fun _ hkey hmask => preserve_field h hkey hmask, fun _ hmask => preserve_new_header h rfl hmask⟩

/-- The accounts that a single key becomes. -/
def accountList (key : Json) (extra : Nat) : List Json :=
  account "primary" key :: (List.range extra).map fun i => account ("extra-" ++ toString (i + 1)) key

theorem mem_accountList {key d : Json} {extra : Nat} : d ∈ accountList key extra ↔
    ∃ id, d = account id key ∧ (id = "primary" ∨ ∃ i < extra, id = "extra-" ++ toString (i + 1)) := by
  simp only [accountList, List.mem_cons, List.mem_map, List.mem_range]
  constructor
  · rintro (rfl | ⟨i, hi, rfl⟩)
    · exact ⟨_, rfl, .inl rfl⟩
    · exact ⟨_, rfl, .inr ⟨i, hi, rfl⟩⟩
  · rintro ⟨id, rfl, rfl | ⟨i, hi, rfl⟩⟩
    · exact .inl rfl
    · exact .inr ⟨i, hi, rfl⟩

/-- What an id of a migrated account gives. -/
theorem lookupId_accountList {key : Json} {extra : Nat} {id : String}
    (hid : id = "primary" ∨ ∃ i < extra, id = "extra-" ++ toString (i + 1)) :
    (lookupId (accountList key extra) (.string id)).get? "api_key" = some key := by
  have hmem : account id key ∈ accountList key extra := mem_accountList.mpr ⟨id, rfl, hid⟩
  rw [lookupId]
  cases hfound : (accountList key extra).reverse.find?
      (fun item => (identity item).any (·.same (.string id))) with
  | none =>
    have hnot := List.find?_eq_none.mp hfound _ (List.mem_reverse.mpr hmem)
    exact absurd (by simp [identity, account, Json.get?, same_string]) hnot
  | some d =>
    obtain ⟨id', rfl, -⟩ := mem_accountList.mp (List.mem_reverse.mp (List.mem_of_find?_eq_some hfound))
    rfl

/-- **Each masked credential of an edit is the one of the account with the same id.** -/
theorem edit_safe {m new v : Json} (h : CheckedModel m) (hrestorable : Restorable m)
    (hv : preserveSecrets new m = .ok v) : EditSafe m new v := by
  intro items hitems
  obtain ⟨previous, x', hprevious, hx', hpreserved⟩ := preserve_get? hv hitems
  simp only [preserveSecrets, bind_eq_ok, pure, Except.pure, Except.ok.injEq] at hpreserved
  obtain ⟨known, hknown, items', hrestored, rfl⟩ := hpreserved
  refine ⟨items', hx', ?_⟩
  cases hgiven : given m "deployments" with
  | true =>
    obtain ⟨value, hvalue, htruthy⟩ := Option.any_eq_true _ _ |>.mp hgiven
    rcases h.deployments value hvalue with hfalse | ⟨ds, rfl, hchecked, hnodup⟩
    · exact absurd (htruthy.symm.trans hfalse) nofun
    have hids : ∀ d ∈ ds, HasId d := fun d hd => (hchecked d hd).hasId
    rw [migrated_off hprevious (.inl hgiven), hvalue, Option.getD_some, identified_of_ids hids] at hknown
    obtain rfl := Except.ok.inj hknown
    refine (preserveItems_ok hrestored).imp fun item item' hitem id hid => ⟨?_, ?_, ?_⟩
    · rintro d ⟨ds', hds', hd, hdid⟩
      obtain rfl : ds = ds' := Json.array.inj (Option.some.inj (hvalue.symm.trans hds'))
      have hold := hitem id hid
      rw [lookupId_of_mem hids hnodup hd hdid] at hold
      exact ⟨fun key hkey hmask => preserve_field hold hkey hmask,
        fun n w hw hmask => preserve_header hold (hrestorable.accounts ds hvalue d hd) hw hmask⟩
    · rintro ⟨hoff, -⟩
      exact absurd (hgiven.symm.trans hoff) nofun
    · intro hnone _
      have hold := hitem id hid
      rw [lookupId_of_notMem hids fun d hd hdid => hnone d ⟨ds, hvalue, hd, hdid⟩] at hold
      exact blank_of_preserve hold
  | false =>
    have hnames : ∀ id d, ¬Names m id d := by
      rintro id d ⟨ds, hds, hd, -⟩
      rw [given, hds] at hgiven
      cases ds with
      | nil => cases hd
      | cons _ _ => cases hgiven
    rcases migrated_cases hprevious with ⟨-, hkey, extra, hextra, rfl⟩ | ⟨rfl, hoff⟩
    · -- the single key of the model goes to the accounts that the rule names
      obtain ⟨key, hapi, -⟩ := Option.any_eq_true _ _ |>.mp hkey
      have haccounts : identified (.array (accountList key extra)) = .ok (accountList key extra) := by
        refine identified_of_ids fun d hd => ?_
        obtain ⟨id, rfl, -⟩ := mem_accountList.mp hd
        exact ⟨id, rfl⟩
      rw [Json.get?_set_self h.isObject, Option.getD_some, hapi, Option.getD_some] at hknown
      obtain rfl := Except.ok.inj (haccounts.symm.trans hknown)
      refine (preserveItems_ok hrestored).imp fun item item' hitem id hid =>
        ⟨fun d hd => absurd hd (hnames id d), ?_, ?_⟩
      · rintro ⟨-, -, extra', hextra', hid'⟩ hmask
        obtain rfl := Except.ok.inj (hextra.symm.trans hextra')
        rw [preserve_field (hitem id hid) (by decide) hmask, lookupId_accountList hid', hapi]
        rfl
      · intro _ hnot
        have hold := hitem id hid
        rw [lookupId_of_notMem] at hold
        · exact blank_of_preserve hold
        · intro d hd
          obtain ⟨id', rfl, -⟩ := mem_accountList.mp hd
          exact ⟨id', rfl⟩
        · intro d hd hdid
          obtain ⟨id', rfl, hid'⟩ := mem_accountList.mp hd
          obtain rfl : id' = id := by simpa [identity, account, Json.get?] using hdid
          exact hnot ⟨hgiven, hkey, extra, hextra, hid'⟩
    · rw [get?_dictionary] at hknown
      have hempty : known = [] := by
        cases hvalue : m.get? "deployments" with
        | none =>
          rw [hvalue] at hknown
          exact (Except.ok.inj hknown).symm
        | some value =>
          rw [given, hvalue] at hgiven
          rw [hvalue, Option.getD_some, identified_of_falsy hgiven] at hknown
          exact (Except.ok.inj hknown).symm
      subst hempty
      have hnokey : items = [] ∨ given m "api_key" = false := by
        rcases hoff with hnew | hold | hkey
        · rw [given, hitems] at hnew
          exact .inl (by simpa [Json.truthy] using hnew)
        · exact absurd (hold.symm.trans hgiven) nofun
        · exact .inr hkey
      rcases hnokey with rfl | hnokey
      · obtain rfl := Except.ok.inj hrestored
        exact .nil
      · refine (preserveItems_ok hrestored).imp fun item item' hitem id hid =>
          ⟨fun d hd => absurd hd (hnames id d), ?_, fun _ _ => ?_⟩
        · rintro ⟨-, hkey, -⟩
          exact absurd (hkey.symm.trans hnokey) nofun
        · have hold := hitem id hid
          rw [lookupId_nil] at hold
          exact blank_of_preserve hold

/-- Some credential of the account is masked. -/
def Masked (item : Json) : Prop :=
  item.get? "api_key" = some mask ∨ item.get? "headers" = some mask ∨ ∃ n, header item n = some mask

section Host

variable {host : Host}

/-- **An account without its credentials is refused.** -/
theorem Blank.refused {item item' : Json} (h : Blank item item') (hmasked : Masked item) :
    ¬CheckedAccount item' := by
  intro hchecked
  rcases hmasked with hkey | hheaders | ⟨n, hn⟩
  · have hstring := hchecked.key
    rw [field_of_get? (h.field "api_key" (by decide) hkey)] at hstring
    cases hstring
  · have htexts := hchecked.headers
    rw [field_of_get? (h.field "headers" (by decide) hheaders)] at htexts
    cases htexts
  · obtain ⟨headers, hheaders, hnull⟩ := Option.bind_eq_some_iff.mp (h.header n hn)
    have htexts := hchecked.headers
    rw [field_of_get? hheaders] at htexts
    obtain ⟨fields, rfl⟩ := object_of_get? hnull
    rw [textMap, List.all_eq_true] at htexts
    have hstring := htexts _ (mem_of_get? hnull)
    cases hstring

/-- **A masked credential of a new account makes the save fail.** -/
theorem new_account_refused {m new item : Json} {mid id : String} {items : List Json}
    (h : CheckedModel m) (hrestorable : Restorable m)
    (hitems : new.get? "deployments" = some (.array items)) (hitem : item ∈ items)
    (hid : identity item = some (.string id)) (hnone : ∀ d, ¬Names m id d) (hmigrates : ¬Migrates m id)
    (hmasked : Masked item) (v : Json) : savedModel host mid new m ≠ .ok v := by
  intro hsaved
  simp only [savedModel, bind_eq_ok, refuse_eq_ok] at hsaved
  obtain ⟨w, hw, _, -, _, hvalid, -⟩ := hsaved
  obtain ⟨items', hitems', hall⟩ := edit_safe h hrestorable hw items hitems
  obtain ⟨item', hmem, hsafe⟩ := exists_of_forall₂ hall hitem
  have hblank := (hsafe id hid).2.2 hnone hmigrates
  refine hblank.refused hmasked ?_
  have hvalue : (w.set "id" (.string mid)).get? "deployments" = some (.array items') := by
    rw [Json.get?_set_ne (by decide)]
    exact hitems'
  rcases (validateModel_ok hvalid).deployments _ hvalue with hfalse | ⟨ds, heq, hchecked, -⟩
  · rw [Json.truthy, Bool.not_eq_false', List.isEmpty_iff] at hfalse
    rw [hfalse] at hmem
    cases hmem
  · obtain rfl := Json.array.inj heq
    exact hchecked _ hmem

end Host


/-! ## §I Secrets follow identity -/

/-- The secrets of a model stay with the accounts they belong to. -/
structure SecretsKept (host : Host) (m : Json) : Prop where
  /-- what is masked and sent back is what was there -/
  roundTrip : preserveSecrets (redact m) m = .ok m
  /-- the masked credentials of an edit are those of the account with the same id, or lost -/
  edits : ∀ new v, preserveSecrets new m = .ok v → EditSafe m new v
  /-- and an edit that loses one is not saved -/
  refused : ∀ (new item : Json) (items : List Json) (mid id : String),
    new.get? "deployments" = some (.array items) → item ∈ items → identity item = some (.string id) →
    (∀ d, ¬Names m id d) → ¬Migrates m id → Masked item → ∀ v, savedModel host mid new m ≠ .ok v

/-- **Secrets follow identity.** An accepted model comes back from its masked form, every masked credential
of an edit is the one of the stored account with the same id and of no other, and a masked credential of a
new account makes the save fail: all this holds exactly when the migration rule leaves the model's
dictionaries of secrets alone (and what stands in the fields that are not checked comes back). The same for
the round trip of an MCP server. -/
theorem secrets_follow_identity (host : Host) :
    (∀ m : Json, m.Proper → validateModel host m = .ok () → (SecretsKept host m ↔ Restorable m)) ∧
      ∀ data m : Json, validateMcp host data = .ok m → m.Proper →
        (preserveSecrets (redact m) m = .ok m ↔ RestorableMcp m) := by
  refine ⟨fun m hproper hvalid => ?_, fun data m hvalid hproper => (validateMcp_ok hvalid).restored_iff hproper⟩
  have hchecked := validateModel_ok hvalid
  constructor
  · intro hkept
    exact (hchecked.restored_iff hproper).mp hkept.roundTrip
  · intro hrestorable
    refine ⟨(hchecked.restored_iff hproper).mpr hrestorable, fun new v hv => edit_safe hchecked hrestorable hv, ?_⟩
    intro new item items mid id hitems hitem hid hnone hmigrates hmasked v
    exact new_account_refused hchecked hrestorable hitems hitem hid hnone hmigrates hmasked v

/-- A host that takes every URL. -/
def openHost : Host := ⟨∅, "http://gateway", "image", 900, 1, 512, 256, fun _ => true, fun _ => true⟩

/-- A model with one account that has two headers. -/
def modelWith (deployments apiKey : String) : Json :=
  .object [("id", .string "m"), ("provider", .string "openai"), ("upstream_model", .string "gpt"),
    ("deployments", .array [.object [("id", .string "a"), ("api_key", .string "k"),
      ("headers", .object [("deployments", .string deployments), ("api_key", .string apiKey)])]])]

/-- A local MCP server with two variables. -/
def serverWith (deployments apiKey : String) : Json :=
  .object [("type", .string "local"), ("command", .array [.string "server"]),
    ("environment", .object [("deployments", .string deployments), ("api_key", .string apiKey)])]

theorem modelWith_kept : SecretsKept openHost (modelWith "eu" "k2") ∧
    preserveSecrets (redact (serverWith "eu" "k2")) (serverWith "eu" "k2") = .ok (serverWith "eu" "k2") := by
  obtain ⟨hmodel, hserver⟩ := secrets_follow_identity openHost
  have hplain : ¬Clash (.object [("deployments", .string "eu"), ("api_key", .string "k2")]) := by
    rintro ⟨hempty, -⟩
    exact absurd hempty (by decide)
  refine ⟨(hmodel _ (by simp [modelWith, Json.Proper, Json.ProperFields, Json.ProperItems]) rfl).mpr
    ⟨fun key v hv hkey => ?_, fun items hitems d hd v hv => ?_, fun key v hv hkey => ?_⟩,
    (hserver (serverWith "eu" "k2") _ rfl (by simp [serverWith, Json.Proper, Json.ProperFields, Json.ProperItems])).mpr
      ⟨fun key v hv hkey => ?_, fun v hv => by cases hv⟩⟩
  · simp only [secretFields, List.mem_cons, List.not_mem_nil, or_false] at hkey
    rcases hkey with rfl | rfl | rfl | rfl | rfl <;> cases hv
  · obtain rfl := Json.array.inj (Option.some.inj hitems)
    obtain rfl := List.mem_singleton.mp hd
    obtain rfl := Option.some.inj hv
    exact hplain
  · simp only [List.mem_cons, List.not_mem_nil, or_false] at hkey
    rcases hkey with rfl | rfl | rfl <;> cases hv
  · simp only [secretFields, List.mem_cons, List.not_mem_nil, or_false] at hkey
    rcases hkey with rfl | rfl | rfl | rfl | rfl
    · cases hv
    · cases hv
    · cases hv
    · cases hv
    · obtain rfl := Option.some.inj hv
      exact hplain

/-- **Headers are taken for a model with a single key.** The account has an empty header `deployments` and a
header `api_key`: masked and sent back, the first one becomes a list of accounts, and the unchanged model is
refused. -/
theorem headers_taken_for_model :
    validateModel openHost (modelWith "" "k2") = .ok () ∧
      preserveSecrets (redact (modelWith "" "k2")) (modelWith "" "k2") ≠ .ok (modelWith "" "k2") ∧
      savedModel openHost "m" (redact (modelWith "" "k2")) (modelWith "" "k2") =
        .error ⟨400, "Deployment headers must contain string values"⟩ ∧
      validateMcp openHost (serverWith "" "k2") = .ok (serverWith "" "k2") ∧
      preserveSecrets (redact (serverWith "" "k2")) (serverWith "" "k2") ≠ .ok (serverWith "" "k2") := by
  have hdiffers : ∀ m v : Json, (preserveSecrets (redact m) m).toOption.any (·.same v) = false →
      v.same v = true → preserveSecrets (redact m) m ≠ .ok v := by
    intro m v hfalse hsame h
    rw [h, Except.toOption, Option.any_some, hsame] at hfalse
    cases hfalse
  exact ⟨rfl, hdiffers _ _ (by decide +kernel) (by decide +kernel), rfl, rfl,
    hdiffers _ _ (by decide +kernel) (by decide +kernel)⟩

end OpencodeCloud.Catalog.Secrets
