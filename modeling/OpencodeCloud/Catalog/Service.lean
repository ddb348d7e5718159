/-
# OpencodeCloud.Catalog.Service -- the catalog service as a machine

The state is the catalog row and the table of import previews; a command is one request to the service.
Every request edits the row in one transaction or fails and leaves it alone, so a run is a list of
commands in the order of their transactions. The ids that `uuid4` yields come with the command and have
to be new.
-/
import OpencodeCloud.Catalog.Release
import OpencodeCloud.Catalog.Transfers
import OpencodeCloud.Library.Machine

namespace OpencodeCloud.Catalog

open OpencodeCloud.Library

structure Service where
  store : Store
  imports : Dict String Import

inductive Command where
  | saveModel (mid : String) (value : ModelDefinition) (revision : Option Nat)
  | importModels (items : List ModelDefinition) (replace : Bool) (revision : Option Nat)
  | deleteModel (mid : String) (revision : Option Nat)
  | saveAgent (aid : String) (value : AgentConfig) (revision : Option Nat)
  /-- `draft` is the draft that the request read before it saved the changed one -/
  | saveBindings (aid : String) (draft : AgentConfig) (write : BindingWrite) (revision : Option Nat)
  | copyAgent (source aid : String) (ids : List String) (revision : Option Nat)
  | saveResource (rid : String) (value : ResourceValue) (revision : Option Nat)
  | uploadSkill (rid name description : String) (blobs : Dict String String) (owner : Option String)
      (revision : Option Nat)
  | publish (rid : String) (original : ResourceDraft) (compiled : Option (Dict String String))
  | copyResource (source rid : String) (owner : Option String) (revision : Option Nat)
  | resourceLifecycle (rid : String) (action : ResourceAction) (revision : Option Nat)
  | restoreTemplate (tid aid : String) (models : Dict String String) (resources : Dict String Binding)
  | importPreview (id : String) (items : List ImportEntry) (templates : List AgentTemplate)
  | importExpire (id : String)
  | importCommit (id : String) (selections : List Selection) (ids : List String)
  | lifecycle (aid : String) (action : AgentAction) (requestId fingerprint : Option String)
      (revision : Option Nat)
  | prepare (rid : String) (request : PrepareRequest)
  | commit (rid : String)

/-- The ids that a command brings along are new. -/
def Command.fresh (d : Document) : Command → Bool
  | .copyAgent _ _ ids _ => decide ids.Nodup && ids.all fun id => (d.resources.lookup id).isNone
  | .prepare rid _ => (d.releases.lookup rid).isNone
  | _ => true

namespace Service

/-- Run the body of an edit that returns nothing. -/
def editing (s : Service) (expected : Option Nat) (body : Document → Result Document) :
    Result Service := do
  let (store, _) ← s.store.edit expected fun d => do
    let d' ← body d
    return (d', ())
  return { s with store := store }

/-- `Transfers.commit`: a preview is committed once, at the revision it was made for. -/
def commitPreview (host : Host) (s : Service) (id : String) (selections : List Selection)
    (ids : List String) : Result Service := do
  match s.imports.lookup id with
  | none => fail 409 "Import preview expired; select the source again"
  | some i =>
    match i.committed with
    | some previous =>
      refuse (previous != selections) 409
        "This preview was already committed with different selections"
      return s
    | none =>
      refuse (i.revision != s.store.revision) 409
        "Resource catalog changed; preview again before importing"
      let data ← commitImport host i selections ids s.store.data
      return ⟨⟨s.store.revision + 1, data⟩,
        s.imports.insert id { i with committed := some selections }⟩

/-- The parameters of the machine: the host and the fingerprint of a deletion. -/
structure Environment where
  host : Host
  fingerprint : Agent → Dict String Resource → String

/-- Answer one request. -/
def handle (env : Environment) (s : Service) : Command → Result Service
  | .saveModel mid value revision => s.editing revision (saveModel env.host mid value)
  | .importModels items replace revision =>
    s.editing revision (importModels env.host items replace)
  | .deleteModel mid revision => s.editing revision (deleteModel mid)
  | .saveAgent aid value revision => s.editing revision (saveAgent aid value)
  | .saveBindings aid draft write revision =>
    s.editing revision (saveAgent aid (write.apply draft))
  | .copyAgent source aid ids revision => s.editing revision (copyAgent source aid ids)
  | .saveResource rid value revision => s.editing revision (saveResource env.host rid value)
  | .uploadSkill rid name description blobs owner revision =>
    s.editing revision (uploadSkill rid name description blobs owner)
  | .publish rid original compiled =>
    s.editing none fun d => do
      let (d', _) ← publish rid original compiled d
      return d'
  | .copyResource source rid owner revision => s.editing revision (copyResource source rid owner)
  | .resourceLifecycle rid action revision => s.editing revision (resourceLifecycle rid action)
  | .restoreTemplate tid aid models resources =>
    s.editing none (restoreTemplate tid aid models resources)
  | .importPreview id items templates =>
    .ok { s with imports := s.imports.insert id ⟨s.store.revision, items, templates, none⟩ }
  | .importExpire id => .ok { s with imports := s.imports.erase id }
  | .importCommit id selections ids => s.commitPreview env.host id selections ids
  | .lifecycle aid action requestId fingerprint revision =>
    s.editing revision (Catalog.lifecycle env.fingerprint aid action requestId fingerprint)
  | .prepare rid request => do
    let (store, _) ← Catalog.prepare env.host rid request s.store
    return { s with store := store }
  | .commit rid => do
    let (store, _) ← Catalog.commit rid s.store
    return { s with store := store }

/-- One request: a failed one leaves the state alone. -/
def step (env : Environment) (s : Service) (c : Command) : Option Service :=
  if c.fresh s.store.data then
    match s.handle env c with
    | .ok t => some t
    | .error _ => some s
  else
    none

/-- The template of a bundled example. -/
def exampleTemplate (kind name label model instructions : String) : AgentTemplate where
  id := "example-" ++ kind
  name := label
  config := ⟨name, "可编辑的内置示例，恢复后需要发布。", true, instructions, [model], model, none, none, none, []⟩
  imported := false
  sourceId := none
  lastRestored := none

/-- The bootstrapped store, with the instructions of the two bundled examples. -/
def initial (code data : String) : Service where
  store := {
    revision := 2
    data := {
      models := ∅
      resources := ∅
      agents := ∅
      gatewayVersions := []
      gatewayActive := none
      releases := ∅
      agentTemplates :=
        (∅ : Dict String AgentTemplate).insert "example-code"
            (exampleTemplate "code" "Code" "Code 示例" "glm" code)
          |>.insert "example-data" (exampleTemplate "data" "Data" "Data 示例" "minimax" data)
      agentTombstones := ∅ } }
  imports := ∅

end Service

/-- The catalog service. -/
def catalog (env : Service.Environment) : Machine Service Command := ⟨Service.step env⟩

end OpencodeCloud.Catalog
