/-
# OpencodeCloud.Catalog.Agents -- agent drafts, templates and the agent lifecycle

`validate_agent` and the operations that write an agent: saving a draft, changing its bindings, copying
an agent with its private resources, restoring a template, and the lifecycle with permanent deletion.
Every draft that is stored has passed `validate_agent` on the document it is stored in.
-/
import OpencodeCloud.Catalog.Resources

namespace OpencodeCloud.Catalog

open OpencodeCloud.Library

/-! ## Validation -/

/-- `resource_version(data, rid, version)`. -/
def resourceVersion (data : Document) (rid : String) (version : Nat) :
    Result (Resource × ResourceVersion) :=
  match data.resources.lookup rid with
  | none => fail 404 "Resource not found"
  | some r =>
    match r.versions.find? (·.version == version) with
    | none => fail 404 "Published resource version not found"
    | some v => .ok (r, v)

/-- The loop of `validate_agent` over the bindings, with the runtime names and ids seen so far. -/
def validateBindings (data : Document) (aid : String) :
    List (ResourceKind × String) → List String → List Binding → Result Unit
  | _, _, [] => .ok ()
  | names, ids, b :: bs => do
    let (r, v) ← resourceVersion data b.id b.version
    refuse (r.owner != none && r.owner != some aid) 403
      "Cannot bind another Agent’s private resource"
    let name := v.data.nameOr r.name
    refuse (names.contains (r.kind, name) || ids.contains r.id) 400
      "Duplicate resource binding or runtime name"
    validateBindings data aid ((r.kind, name) :: names) (r.id :: ids) bs

/-- A model is there, and enabled where the agent is. -/
def modelAvailable (data : Document) (cfg : AgentConfig) (mid : String) : Bool :=
  match data.models.lookup mid with
  | none => false
  | some m => !cfg.enabled || m.enabled

/-- `validate_agent(data, aid, cfg)`. -/
def validateAgent (data : Document) (aid : String) (cfg : AgentConfig) : Result Unit := do
  refuse (cfg.cpuLimit.any fun n => !([1, 2, 4, 8].contains n)) 400
    "cpu_limit must be one of (1, 2, 4, 8), or null for server default"
  refuse (cfg.memoryMb.any fun n => !([1024, 2048, 4096, 8192].contains n)) 400
    "memory_mb must be one of (1024, 2048, 4096, 8192), or null for server default"
  refuse (cfg.allowedModelIds.isEmpty || !decide cfg.allowedModelIds.Nodup) 400
    "Choose one or more unique models"
  refuse (cfg.allowedModelIds.any fun mid => !modelAvailable data cfg mid) 400
    ("Agent references an unavailable model: " ++
      (cfg.allowedModelIds.find? fun mid => !modelAvailable data cfg mid).getD "")
  refuse (!cfg.allowedModelIds.contains cfg.defaultModelId
      || (present cfg.smallModelId && !cfg.allowedModelIds.contains (cfg.smallModelId.getD ""))) 400
    "Default and small models must be assigned to this Agent"
  validateBindings data aid [] [] cfg.bindings
  refuse (cfg.instructions.length > 200000) 400 "Agent instructions are too large"

/-- The bounds of the request schema `AgentDefinition`. -/
def agentDefinition (cfg : AgentConfig) : Bool :=
  cfg.name != "" && cfg.name.length ≤ 200 && cfg.description.length ≤ 4000 &&
    cfg.instructions.length ≤ 200000 && !cfg.allowedModelIds.isEmpty &&
    cfg.allowedModelIds.all isIdentifier && isIdentifier cfg.defaultModelId &&
    cfg.smallModelId.all isIdentifier && (cfg.cpuLimit.all [1, 2, 4, 8].contains) &&
    (cfg.memoryMb.all [1024, 2048, 4096, 8192].contains) &&
    cfg.bindings.all fun b => isIdentifier b.id && 0 < b.version

/-! ## Drafts -/

/-- An agent without versions. -/
def newAgent (aid : String) (draft : AgentConfig) : Agent := ⟨aid, draft, [], none, .active⟩

/-- Store a draft under an agent, old or new. -/
def putDraft (aid : String) (draft : AgentConfig) (data : Document) : Document :=
  match data.agents.lookup aid with
  | some a => { data with agents := data.agents.insert aid { a with draft := draft } }
  | none => { data with agents := data.agents.insert aid (newAgent aid draft) }

/-- The agent is being deleted. -/
def deleting (data : Document) (aid : String) : Bool :=
  (data.agents.lookup aid).any (·.lifecycle == .deleting)

/-- The body of `save_agent` without a source. Jobs live in the operations service, so the loop over
`data["jobs"]` never finds one. -/
def saveAgent (aid : String) (value : AgentConfig) (data : Document) : Result Document := do
  identifier aid
  refuse (data.agentTombstones.lookup aid).isSome 409
    "This Agent ID was retired; choose a new ID"
  refuse (deleting data aid) 409 "Agent deletion is in progress"
  validateAgent data aid value
  return putDraft aid value data

/-- The loop of a copy over the bindings: private resources of the source are copied under fresh ids. -/
def copyBindings (source aid : String) :
    List String → List Binding → Document → Result (List Binding × Document)
  | _, [], data => .ok ([], data)
  | ids, b :: bs, data =>
    match data.resources.lookup b.id with
    | none => fail 500 b.id
    | some r =>
      if r.owner = some source then
        match ids with
        | [] => fail 500 "uuid4"
        | id :: ids => do
          let copied := { r with id := id, owner := some aid }
          let (rest, next) ← copyBindings source aid ids bs
            { data with resources := data.resources.insert id copied }
          return ({ b with id := id } :: rest, next)
      else do
        let (rest, next) ← copyBindings source aid ids bs data
        return (b :: rest, next)

/-- The body of `save_agent` with a source; `ids` are the fresh ids that `uuid4` yields. -/
def copyAgent (source aid : String) (ids : List String) (data : Document) : Result Document := do
  identifier aid
  refuse (data.agentTombstones.lookup aid).isSome 409
    "This Agent ID was retired; choose a new ID"
  refuse (deleting data aid || deleting data source) 409 "Agent deletion is in progress"
  match data.agents.lookup source with
  | none => fail 409 "Invalid copy source or destination"
  | some original =>
    refuse (data.agents.lookup aid).isSome 409 "Invalid copy source or destination"
    let (bindings, next) ← copyBindings source aid ids original.draft.bindings data
    let value := { original.draft with name := aid, bindings := bindings }
    validateAgent next aid value
    return putDraft aid value next

/-- What `PUT /bindings` may change of a draft. -/
structure BindingWrite where
  bindings : Option (List Binding)
  allowedModelIds : Option (List String)
  defaultModelId : Option String
  smallModelId : Option (Option String)
  deriving DecidableEq

/-- The draft that `PUT /bindings` sends to `save_agent`. -/
def BindingWrite.apply (w : BindingWrite) (draft : AgentConfig) : AgentConfig :=
  { draft with
    bindings := w.bindings.getD draft.bindings
    allowedModelIds := w.allowedModelIds.getD draft.allowedModelIds
    defaultModelId := w.defaultModelId.getD draft.defaultModelId
    smallModelId := w.smallModelId.getD draft.smallModelId }

/-! ## Templates -/

/-- One binding of a restored template. -/
def restoreBinding (imported : Bool) (resources : Dict String Binding) (b : Binding) : Binding :=
  match resources.lookup b.id with
  | some selected => selected
  | none => if imported then { b with version := 1 } else b

/-- The configuration of a restored template. -/
def restoredConfig (t : AgentTemplate) (models : Dict String String)
    (resources : Dict String Binding) : AgentConfig :=
  let mapped := fun mid => (models.lookup mid).getD mid
  { t.config with
    allowedModelIds := t.config.allowedModelIds.map mapped
    defaultModelId := mapped t.config.defaultModelId
    smallModelId :=
      if present t.config.smallModelId then t.config.smallModelId.map mapped
      else t.config.smallModelId
    bindings := t.config.bindings.map (restoreBinding t.imported resources) }

/-- The body of `AgentTemplates.restore`. -/
def restoreTemplate (tid aid : String) (models : Dict String String)
    (resources : Dict String Binding) (data : Document) : Result Document := do
  identifier aid
  match data.agentTemplates.lookup tid with
  | none => fail 404 "Agent template not found"
  | some t =>
    refuse ((data.agents.lookup aid).isSome || (data.agentTombstones.lookup aid).isSome) 409
      "Choose an unused Agent ID"
    let cfg := restoredConfig t models resources
    refuse (!agentDefinition cfg) 500 "ValidationError"
    validateAgent data aid cfg
    return { putDraft aid cfg data with
      agentTemplates := data.agentTemplates.insert tid { t with lastRestored := some aid } }

/-! ## Lifecycle -/

inductive AgentAction where
  | archive | restore | deleting | delete
  deriving Repr, DecidableEq

/-- The resources that an agent owns. -/
def privateResources (data : Document) (aid : String) : Dict String Resource :=
  data.resources.filter fun _ r => r.owner == some aid

/-- The body of `lifecycle`; `fingerprint` is the hash of an agent and its private resources. -/
def lifecycle (fingerprint : Agent → Dict String Resource → String) (aid : String)
    (action : AgentAction) (requestId : Option String) (expectedFingerprint : Option String)
    (data : Document) : Result Document := do
  match data.agents.lookup aid with
  | none =>
    -- a repeated deletion is answered without an edit of its own
    if action = .delete ∧ ((data.agentTombstones.lookup aid).bind (·.requestId)) = requestId then
      return data
    else
      fail 404 "Agent not found"
  | some a =>
    refuse (expectedFingerprint.any fun e =>
        e != "" && fingerprint { a with lifecycle := .active } (privateResources data aid) != e) 409
      "Catalog deletion impact changed"
    match action with
    | .delete =>
      refuse (a.lifecycle == .active) 409 "Archive the Agent before permanent deletion"
      return { data with
        resources := data.resources.filter fun _ r => r.owner != some aid
        agents := data.agents.erase aid
        agentTombstones := data.agentTombstones.insert aid ⟨requestId⟩ }
    | .archive =>
      return { data with agents := data.agents.insert aid { a with lifecycle := .archived } }
    | .restore =>
      return { data with agents := data.agents.insert aid { a with lifecycle := .active } }
    | .deleting =>
      return { data with agents := data.agents.insert aid { a with lifecycle := .deleting } }

end OpencodeCloud.Catalog
