/-
# OpencodeCloud.Catalog.Document -- the catalog document

The catalog service keeps one JSON document in one SQLite row, next to a revision counter
(`ManagementStore`). This module is its data: models, resources with their immutable published
versions, agents with a draft and their committed versions, gateway versions, prepared releases,
templates and tombstones. Timestamps are left out: nothing modelled reads them.

A compiled agent directory (`compiled/<uuid>/<agent>`) is written once and only ever read again, so a
version and a release carry the file map itself where the source carries the path to it. File
contents are kept structured: two maps differ in Lean exactly where the written bytes differ.
-/
import OpencodeCloud.Library.Dict

namespace OpencodeCloud.Catalog

open OpencodeCloud.Library

/-! ## Failures -/

/-- An `HTTPException`: status code and detail. -/
structure Failure where
  status : Nat
  detail : String
  deriving Repr, DecidableEq

/-- A request either fails with an HTTP error or returns a value. -/
abbrev Result (α : Type) := Except Failure α

/-- `fail(message, status)`. -/
def fail {α : Type} (status : Nat) (message : String) : Result α := .error ⟨status, message⟩

/-- The guard shape `if bad: fail(message, status)`. -/
def refuse (bad : Bool) (status : Nat) (message : String) : Result Unit :=
  if bad then fail status message else .ok ()

@[simp] theorem refuse_eq_ok {bad : Bool} {status : Nat} {message : String} {u : Unit} :
    refuse bad status message = .ok u ↔ bad = false := by
  cases bad <;> simp [refuse, fail]

/-- What a successful sequence of two checks says of each of them. -/
theorem bind_eq_ok {α β : Type} {x : Result α} {f : α → Result β} {b : β} :
    (x >>= f) = .ok b ↔ ∃ a, x = .ok a ∧ f a = .ok b := by
  cases x with
  | error e => simp [bind, Except.bind]
  | ok a => simp [bind, Except.bind]

/-- What a failed sequence of two checks says of them. -/
theorem bind_eq_error {α β : Type} {x : Result α} {f : α → Result β} {e : Failure} :
    (x >>= f) = .error e ↔ x = .error e ∨ ∃ a, x = .ok a ∧ f a = .error e := by
  cases x with
  | error e' => simp [bind, Except.bind]
  | ok a => simp [bind, Except.bind]

/-- A guard fails with its own status. -/
theorem refuse_status {bad : Bool} {status : Nat} {message : String} {e : Failure}
    (h : refuse bad status message = .error e) : e.status = status := by
  cases bad with
  | false => cases h
  | true =>
    obtain rfl := Except.error.inj h
    rfl

/-- A letter, a digit, and for the tail also `_` and `-`. -/
def identifierHead (c : Char) : Bool := c.isAlpha || c.isDigit
def identifierTail (c : Char) : Bool := identifierHead c || c == '_' || c == '-'

/-- The full match of `[a-zA-Z0-9][a-zA-Z0-9_-]{0,63}`. -/
def isIdentifier (value : String) : Bool :=
  match value.toList with
  | [] => false
  | c :: cs => identifierHead c && cs.length ≤ 63 && cs.all identifierTail

def identifier (value : String) : Result Unit :=
  refuse (!isIdentifier value) 400 "ID must contain 1–64 letters, digits, underscores or hyphens"

/-! ## Models -/

/-- The redaction mark that an editor sends back for an unchanged secret. -/
def MASK : String := "••••"

inductive Provider where
  | openaiCompatible | openai | anthropic | google | legacy
  deriving Repr, DecidableEq

/-- A model parameter value. -/
inductive Scalar where
  | int (n : Int)
  | number (q : Rat)
  | text (s : String)
  deriving DecidableEq

structure ModelDeployment where
  id : String
  apiKey : Option String
  baseUrl : Option String
  upstreamModel : Option String
  headers : Dict String (Option String)
  enabled : Bool
  rpm : Option Nat
  tpm : Option Nat
  weight : Option Rat
  deriving DecidableEq

/-- A model as stored; `none` is a JSON `null`, which a mask without an old value leaves behind. -/
structure ModelDefinition where
  id : String
  name : Option String
  provider : Provider
  upstreamModel : Option String
  baseUrl : Option String
  additionalBaseUrls : List String
  apiKey : Option String
  deployments : List ModelDeployment
  headers : Dict String (Option String)
  parameters : Dict String (Option Scalar)
  context : Option Nat
  output : Option Nat
  enabled : Bool
  legacy : Bool
  deriving DecidableEq

/-- The models of a dictionary that are enabled. -/
def enabledModel (models : Dict String ModelDefinition) (mid : String) : Bool :=
  match models.lookup mid with
  | some m => m.enabled
  | none => false

/-! ## Resources -/

inductive ResourceKind where
  | skill | mcp | hook
  deriving Repr, DecidableEq

inductive McpTransport where
  | remoteServer (url : String) (headers : Dict String (Option String))
  | localServer (command : List String) (cwd : Option String) (environment : Dict String (Option String))
  deriving DecidableEq

structure McpConfig where
  transport : McpTransport
  timeout : Option Nat
  enabled : Option Bool
  deriving DecidableEq

inductive ResourceData where
  | skill (name description : String)
  | mcp (config : McpConfig)
  | hook (entry : String) (sources : Dict String String)
  deriving DecidableEq

/-- `data.get("name", default)`: only a skill's data carries its own name. -/
def ResourceData.nameOr : ResourceData → String → String
  | .skill name _, _ => name
  | .mcp _, other => other
  | .hook _ _, other => other

/-- The editable content of a resource: its data and its files, by blob digest. -/
structure ResourceDraft where
  data : ResourceData
  files : Dict String String
  deriving DecidableEq

/-- A published version: a draft frozen under a number. -/
structure ResourceVersion extends ResourceDraft where
  version : Nat
  deriving DecidableEq

structure Resource where
  id : String
  name : String
  kind : ResourceKind
  owner : Option String
  archived : Bool
  draft : ResourceDraft
  versions : List ResourceVersion
  deriving DecidableEq

/-! ## Agent configurations and compiled bundles -/

structure Binding where
  id : String
  version : Nat
  deriving Repr, DecidableEq

structure AgentConfig where
  name : String
  description : String
  enabled : Bool
  instructions : String
  allowedModelIds : List String
  defaultModelId : String
  smallModelId : Option String
  cpuLimit : Option Nat
  memoryMb : Option Nat
  bindings : List Binding
  deriving Repr, DecidableEq

/-- One model entry of the generated `opencode.json`. -/
structure OpencodeModel where
  name : Option String
  limit : Option (Nat × Nat)
  deriving DecidableEq

/-- The generated part of `opencode.json`; the constant part is left out. -/
structure Opencode where
  plugin : List String
  mcp : Dict String McpConfig
  model : String
  smallModel : Option String
  baseUrl : String
  apiKey : String
  models : Dict String OpencodeModel
  deriving DecidableEq

/-- One line of the `sources` list of `effective.json`. -/
structure Source where
  id : String
  owner : Option String
  kind : ResourceKind
  name : String
  version : Nat
  path : String
  deriving DecidableEq

structure ResourceLimits where
  cpuLimit : Nat
  memoryMb : Nat
  pidsLimit : Nat
  deriving DecidableEq

structure AgentCfg where
  id : String
  displayName : String
  image : String
  idleTimeoutSeconds : Nat
  resources : ResourceLimits
  default : String
  allowed : List String
  deriving DecidableEq

/-- The contents of a compiled file. -/
inductive FileContent where
  | text (s : String)
  | asset (name : String)
  | blob (digest : String)
  | opencode (o : Opencode)
  | agentCfg (c : AgentCfg)
  | effective (version : Nat) (sources : List Source) (config : Opencode)
  deriving DecidableEq

/-- A file map: relative path to contents. -/
abbrev Files := Dict String FileContent

/-! ## Agents, gateway versions, releases -/

/-- A committed version of an agent. -/
structure AgentVersion where
  version : Nat
  config : AgentConfig
  files : Files
  deriving DecidableEq

inductive Lifecycle where
  | active | archived | deleting
  deriving Repr, DecidableEq

structure Agent where
  id : String
  draft : AgentConfig
  versions : List AgentVersion
  active : Option Nat
  lifecycle : Lifecycle
  deriving DecidableEq

structure GatewayVersion where
  version : Nat
  models : Dict String ModelDefinition
  deriving DecidableEq

/-- One entry of the gateway's `model_list`. -/
structure GatewayEntry where
  modelName : String
  model : String
  apiKey : String
  apiBase : Option String
  extraHeaders : Dict String (Option String)
  parameters : Dict String (Option Scalar)
  rpm : Option Nat
  tpm : Option Nat
  weight : Option Rat
  id : String
  deriving DecidableEq

/-- What a release carries besides its identity. -/
inductive ReleaseContent where
  | models (models : Dict String ModelDefinition) (configuration : List GatewayEntry)
  | agent (config : AgentConfig) (files : Files)
  deriving DecidableEq

/-- A prepared release. -/
structure Release where
  releaseId : String
  target : String
  version : Nat
  revision : Nat
  oldActive : Option Nat
  content : ReleaseContent
  committed : Bool
  deriving DecidableEq

/-- The answer of `/agents/{aid}/bundle`: the active version of an agent. -/
structure Bundle where
  agentId : String
  version : Nat
  config : AgentConfig
  files : Files
  deriving DecidableEq

structure AgentTemplate where
  id : String
  name : String
  config : AgentConfig
  imported : Bool
  sourceId : Option String
  lastRestored : Option String
  deriving Repr, DecidableEq

/-- What is left of a deleted agent: the request that deleted it. -/
structure Tombstone where
  requestId : Option String
  deriving Repr, DecidableEq

/-! ## The document and its store -/

structure Document where
  models : Dict String ModelDefinition
  resources : Dict String Resource
  agents : Dict String Agent
  gatewayVersions : List GatewayVersion
  gatewayActive : Option Nat
  releases : Dict String Release
  agentTemplates : Dict String AgentTemplate
  agentTombstones : Dict String Tombstone

/-- The single catalog row: the document and the revision that every edit increments. -/
structure Store where
  revision : Nat
  data : Document

/-- `edit(expected)`: run `body` on the document under the write lock; the document and the next
revision are written only when the body does not fail. -/
def Store.edit {α : Type} (s : Store) (expected : Option Nat)
    (body : Document → Result (Document × α)) : Result (Store × α) := do
  refuse (expected.any (· != s.revision)) 409 "Configuration changed; reload before saving"
  let (data, value) ← body s.data
  return (⟨s.revision + 1, data⟩, value)

/-- `next((v for v in versions if v["version"] == number), None)`. -/
def agentVersion (a : Agent) (number : Nat) : Option AgentVersion :=
  a.versions.find? fun v => v.version == number

/-- The active version of an agent, if it has one. -/
def activeVersion (a : Agent) : Option AgentVersion :=
  a.active.bind (agentVersion a)

/-- `agent_config(agent)`: the configuration of the active version. -/
def agentConfig (a : Agent) : Option AgentConfig := (activeVersion a).map (·.config)

/-- The gateway version with the given number. -/
def gatewayVersion (data : Document) (number : Nat) : Option GatewayVersion :=
  data.gatewayVersions.find? fun v => v.version == number

/-- The active gateway version, if there is one. -/
def activeGateway (data : Document) : Option GatewayVersion :=
  data.gatewayActive.bind (gatewayVersion data)

end OpencodeCloud.Catalog
