/-
# OpencodeCloud.Catalog.Transfers -- committing an import

An upload is parsed and checked by `Transfers.preview`, which stores the result beside the catalog
document; `Transfers.commit` then writes the selected entries into the catalog in one transaction, as
drafts only, together with the agent templates of the upload. A preview is committed at most once.
-/
import OpencodeCloud.Catalog.Agents

namespace OpencodeCloud.Catalog

open OpencodeCloud.Library

/-! ## Previews -/

inductive EntryContent where
  | model (m : ModelDefinition)
  | resource (data : ResourceData) (files : Dict String String)
  deriving DecidableEq

structure ImportEntry where
  key : String
  id : String
  name : String
  content : EntryContent
  /-- `validate` found an error -/
  invalid : Bool
  deriving DecidableEq

structure Selection where
  key : String
  targetId : String
  replace : Bool
  deriving Repr, DecidableEq

/-- A row of `resource_imports`; `committed` holds the selections of its commit. -/
structure Import where
  revision : Nat
  items : List ImportEntry
  templates : List AgentTemplate
  committed : Option (List Selection)
  deriving DecidableEq

/-! ## Entries -/

/-- A usable credential. -/
def credential (key : Option String) : Bool := present key && key != some MASK

/-- `has_credentials(model)`. -/
def hasCredentials (m : ModelDefinition) : Bool :=
  if m.deployments.isEmpty then
    credential m.apiKey
  else
    let enabled := m.deployments.filter (·.enabled)
    !enabled.isEmpty && enabled.all fun d => credential d.apiKey

/-- The model that an entry becomes: without credentials it is disabled. -/
def importedModel (target : String) (entry : ModelDefinition) (old : Option ModelDefinition) :
    ModelDefinition :=
  let m := preserveModel entry old
  let m := { m with
    id := target
    apiKey := some (m.apiKey.getD "")
    deployments := m.deployments.map fun d => { d with apiKey := some (d.apiKey.getD "") } }
  if hasCredentials m then m else { m with enabled := false }

/-- `null` headers become empty. -/
def filled (d : Dict String (Option String)) : Dict String (Option String) :=
  d.mapValues fun v => some (v.getD "")

/-- The server that an entry becomes: with missing secrets it is disabled. -/
def importedMcp (config : McpConfig) : McpConfig :=
  let (missing, transport) := match config.transport with
    | .remoteServer url headers => (!textValues headers, McpTransport.remoteServer url (filled headers))
    | .localServer command cwd environment =>
      (!textValues environment, McpTransport.localServer command cwd (filled environment))
  { config with transport := transport, enabled := if missing then some false else config.enabled }

/-- The draft that an entry becomes. -/
def importedDraft (host : Host) (data : ResourceData) (files : Dict String String)
    (old : Option Resource) : Result ResourceDraft :=
  match data with
  | .mcp config => do
    let checked ← validateMcp host (importedMcp (preserveMcp config (old.map (·.draft.data))))
    return ⟨.mcp checked, files.mapValues blob⟩
  | other => .ok ⟨other, files.mapValues blob⟩

/-- Whether a selection is about a model, and its destination. -/
def Selection.identity (items : List ImportEntry) (s : Selection) : Bool × String :=
  (match items.reverse.find? (·.key == s.key) with
    | some ⟨_, _, _, .model _, _⟩ => true
    | _ => false, s.targetId)

/-- One round of the loop over the selections, with the destinations seen so far. -/
def commitSelection (host : Host) (items : List ImportEntry) (seen : List (Bool × String))
    (s : Selection) (data : Document) : Result Document := do
  match items.reverse.find? (·.key == s.key) with
  | none => fail 400 "Cannot import an invalid resource"
  | some entry =>
    refuse entry.invalid 400 "Cannot import an invalid resource"
    identifier s.targetId
    refuse (seen.contains (s.identity items)) 400 "Duplicate destination ID"
    match entry.content with
    | .model m =>
      let old := data.models.lookup s.targetId
      refuse (old.isSome && !s.replace) 409
        "Destination exists; rename or explicitly replace its draft"
      let model := importedModel s.targetId m old
      validateModel host model
      refuse (old.isSome && !model.enabled && !(modelReferences data s.targetId false).isEmpty) 409
        "Replace Agent model references before disabling this model"
      return { data with models := data.models.insert s.targetId model }
    | .resource content files =>
      let old := data.resources.lookup s.targetId
      refuse (old.isSome && !s.replace) 409
        "Destination exists; rename or explicitly replace its draft"
      refuse (old.any fun r => r.kind != content.kind || present r.owner) 409
        "Cannot replace a different resource type or an Agent private resource"
      let draft ← importedDraft host content files old
      let saved := match old with
        | some r => { r with name := entry.name, draft := draft }
        | none => ⟨s.targetId, entry.name, content.kind, none, false, draft, []⟩
      return { data with resources := data.resources.insert s.targetId saved }

/-- The loop over the selections. -/
def commitLoop (host : Host) (items : List ImportEntry) :
    List (Bool × String) → List Selection → Document → Result Document
  | _, [], data => .ok data
  | seen, s :: ss, data => do
    let next ← commitSelection host items seen s data
    commitLoop host items (s.identity items :: seen) ss next

/-! ## Templates -/

/-- Where the selections put the entry with this kind and id. -/
def mappedId (items : List ImportEntry) (selections : List Selection) (model : Bool)
    (id : String) : String :=
  let hit := selections.reverse.find? fun s =>
    match items.reverse.find? (·.key == s.key) with
    | some entry => (match entry.content with
        | .model _ => model
        | .resource _ _ => !model) && entry.id == id
    | none => false
  (hit.map (·.targetId)).getD id

/-- `remap_template` and the identity of the stored template. -/
def importedTemplate (items : List ImportEntry) (selections : List Selection) (tid : String)
    (t : AgentTemplate) : AgentTemplate :=
  let mapped := mappedId items selections true
  { t with
    id := tid
    sourceId := some t.id
    imported := true
    config := { t.config with
      defaultModelId := mapped t.config.defaultModelId
      smallModelId :=
        if present t.config.smallModelId then t.config.smallModelId.map mapped
        else t.config.smallModelId
      allowedModelIds := t.config.allowedModelIds.map mapped
      bindings := t.config.bindings.map fun b =>
        { b with id := mappedId items selections false b.id } } }

/-- Add the templates of an upload under fresh ids. -/
def addTemplates (items : List ImportEntry) (selections : List Selection) :
    List (String × AgentTemplate) → Document → Document
  | [], data => data
  | (tid, t) :: rest, data =>
    addTemplates items selections rest { data with
      agentTemplates := data.agentTemplates.insert tid (importedTemplate items selections tid t) }

/-- The document that `commit` writes; `ids` are the fresh template ids. -/
def commitImport (host : Host) (i : Import) (selections : List Selection) (ids : List String)
    (data : Document) : Result Document := do
  refuse selections.isEmpty 400 "Select at least one resource"
  let next ← commitLoop host i.items [] selections data
  return addTemplates i.items selections (ids.zip i.templates) next

end OpencodeCloud.Catalog
