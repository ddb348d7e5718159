/-
# OpencodeCloud.Catalog.Resources -- skills, MCP servers and hooks

The operations on resources: saving a draft, uploading a skill, publishing a version, copying, and the
lifecycle with its guarded deletion; with the path and MCP validation they rest on. Published versions
are only ever appended.
-/
import Mathlib
import OpencodeCloud.Catalog.Models

namespace OpencodeCloud.Catalog

open OpencodeCloud.Library

/-! ## Paths -/

/-- The components of `PurePosixPath(value)`, without the root. -/
def pathParts (value : String) : List String :=
  ((value.toList.splitOn '/').map String.ofList).filter fun p => p != "" && p != "."

/-- `path.is_absolute()`. -/
def isAbsolute (value : String) : Bool := startsWith value "/"

/-- `relative_file(value)`. -/
def relativeFile (value : Option String) : Result String := do
  let path ← match value with
    | some v => .ok v
    | none => fail 400 "Invalid resource file path"
  refuse (path.toList.any fun c => c == '\\' || c == ':' || c == Char.ofNat 0) 400
    "Invalid resource file path"
  refuse (isAbsolute path
      || (path.toList.splitOn '/').any (fun p => p == ['.', '.'] || p == ['.'])
      || (pathParts path).isEmpty) 400
    "Resource file escapes root"
  return String.intercalate "/" (pathParts path)

/-- The file name has one of the suffixes of hook sources. -/
def hookSource (path : String) : Bool :=
  [".js", ".mjs", ".ts"].any fun suffix =>
    suffix.toList.isSuffixOf path.toList && suffix.length < ((pathParts path).getLast?.getD "").length

/-! ## MCP servers -/

/-- `PurePosixPath(command[0]).name` is one of the refused programs. -/
def refusedExecutable (command : String) : Bool :=
  ["npx", "npm", "pnpm", "yarn", "uvx", "pip", "pip3", "bash", "sh", "cmd", "powershell"].contains
    ((pathParts command).getLast?.getD "")

/-- `PurePosixPath(cwd).is_relative_to("/workspace")` without `..`. -/
def workspaceDirectory (cwd : String) : Bool :=
  isAbsolute cwd && (pathParts cwd).head? == some "workspace" && !(pathParts cwd).contains ".."

/-- Keys without line breaks, values that are not `null`. -/
def textHeaders (d : Dict String (Option String)) : Bool :=
  d.all fun k v => v.isSome && !(k.toList.any fun c => c == '\n' || c == '\r')

/-- `validate_mcp`; the checks on types and on foreign fields are in the record. -/
def validateMcp (host : Host) (config : McpConfig) : Result McpConfig := do
  refuse (config.timeout.any fun t => t == 0 || t > 120000) 400 "MCP timeout must be 1–120000 ms"
  match config.transport with
  | .remoteServer url headers =>
    refuse (!textHeaders headers) 400 "MCP headers/environment must contain string values"
    refuse (!host.httpUrl url) 400 "MCP URL must be HTTP(S), without embedded credentials"
    return config
  | .localServer command cwd environment =>
    refuse (!textHeaders environment) 400 "MCP headers/environment must contain string values"
    refuse (command.isEmpty || command.any (· == "")) 400
      "MCP command must be a non-empty string array"
    refuse (refusedExecutable (command.head?.getD "")) 400
      "Use an already installed MCP executable; installers and shell wrappers are unsupported"
    refuse (present cwd && !workspaceDirectory (cwd.getD "")) 400 "MCP cwd must be under /workspace"
    return config

/-! ## Drafts -/

/-- `preserve_secrets` on a transport; a field of the other transport has no old value. -/
def preserveTransport (new : McpTransport) (old : Option McpTransport) : McpTransport :=
  match new, old with
  | .remoteServer url headers, some (.remoteServer oldUrl oldHeaders) =>
    .remoteServer ((preserve (some url) (some oldUrl)).getD "") (preserveAll headers oldHeaders)
  | .remoteServer url headers, _ =>
    .remoteServer ((preserve (some url) none).getD "") (preserveAll headers ∅)
  | .localServer command cwd environment, some (.localServer _ oldCwd oldEnvironment) =>
    .localServer command (preserve cwd oldCwd) (preserveAll environment oldEnvironment)
  | .localServer command cwd environment, _ =>
    .localServer command (preserve cwd none) (preserveAll environment ∅)

/-- `preserve_secrets` on the data of an MCP server. -/
def preserveMcp (new : McpConfig) (old : Option ResourceData) : McpConfig :=
  { new with
    transport := preserveTransport new.transport
      (match old with
        | some (.mcp config) => some config.transport
        | _ => none) }

/-- What an editor sends for a resource; a hook without `sources` is sent as its one source. -/
structure ResourceValue where
  kind : ResourceKind
  name : String
  owner : Option String
  archived : Bool
  data : ResourceData
  deriving DecidableEq

/-- The digest under which content is stored; SHA-256 is taken as injective, so the content stands for
its digest. -/
def blob (content : String) : String := content

/-- The files of a hook: `{relative_file(p): blob(s)}`. -/
def hookFiles : List (String × String) → Result (Dict String String)
  | [] => .ok ∅
  | (path, source) :: rest => do
    let name ← relativeFile (some path)
    let files ← hookFiles rest
    -- a later path that normalizes to the same name wins
    return if (files.lookup name).isSome then files else files.insert name (blob source)

/-- The draft of a hook from its entry and sources. -/
def hookDraft (entry : String) (sources : Dict String String) : Result ResourceDraft := do
  let name ← relativeFile (some entry)
  refuse (!hookSource name || (sources.lookup name).isNone) 400
    "Hook entry must be a JS/MJS/TS source file"
  refuse (sources.keys.length > 50
      || (sources.entries.map fun e => e.2.length).sum > 1024 * 1024) 400
    "Hook source limit exceeded"
  let files ← hookFiles (sources.entries.map fun e => (e.1, e.2))
  return ⟨.hook name sources, files⟩

/-- The new draft in `save_resource`. -/
def resourceDraft (host : Host) (value : ResourceValue) (old : Option Resource) :
    Result ResourceDraft :=
  let oldData := old.map (·.draft.data)
  match value.data with
  | .mcp config => do
    let checked ← validateMcp host (preserveMcp config oldData)
    return ⟨.mcp checked, old.elim ∅ (·.draft.files)⟩
  | .hook entry sources =>
    let oldSources := match oldData with
      | some (.hook _ s) => s
      | _ => ∅
    let oldEntry := match oldData with
      | some (.hook e _) => some e
      | _ => none
    match preserve (some entry) oldEntry with
    | none => fail 400 "Invalid resource file path"
    | some e => hookDraft e
        (sources.mapWithKey fun k s => (preserve (some s) (oldSources.lookup k)).getD "")
  | .skill name description => do
    refuse old.isNone 400 "Create Skill resources using the upload endpoint"
    let oldText := match oldData with
      | some (.skill n d) => some (n, d)
      | _ => none
    return ⟨.skill ((preserve (some name) (oldText.map (·.1))).getD "")
        ((preserve (some description) (oldText.map (·.2))).getD ""),
      old.elim ∅ (·.draft.files)⟩

/-- The owner of a new or changed resource. -/
def checkOwner (data : Document) (owner : Option String) (status : Nat) (unknown : String) :
    Result Unit :=
  match owner with
  | none => .ok ()
  | some aid => do
    refuse (data.agents.lookup aid).isNone status unknown
    refuse ((data.agents.lookup aid).any (·.lifecycle == .deleting)) 409
      "Agent deletion is in progress"

/-- `value.get("owner") or None`. -/
def ownerOf (owner : Option String) : Option String := if present owner then owner else none

/-- The kind that the data of a resource belongs to. -/
def ResourceData.kind : ResourceData → ResourceKind
  | .skill _ _ => .skill
  | .mcp _ => .mcp
  | .hook _ _ => .hook

/-- The body of `save_resource`. -/
def saveResource (host : Host) (rid : String) (value : ResourceValue) (data : Document) :
    Result Document := do
  identifier rid
  let old := data.resources.lookup rid
  refuse (value.kind != value.data.kind) 400 "Invalid resource kind"
  let owner := ownerOf value.owner
  checkOwner data owner 400 "Owner Agent does not exist"
  refuse (old.any fun r => r.kind != value.kind || r.owner != owner) 400
    "Resource kind and ownership are immutable"
  identifier value.name
  let draft ← resourceDraft host value old
  let saved := match old with
    | some r => { r with name := value.name, archived := value.archived, draft := draft }
    | none => ⟨rid, value.name, value.kind, owner, false, draft, []⟩
  return { data with resources := data.resources.insert rid saved }

/-- The body of `upload_skill`, once the archive is unpacked into its metadata and blobs. -/
def uploadSkill (rid name description : String) (blobs : Dict String String)
    (owner : Option String) (data : Document) : Result Document := do
  identifier rid
  let old := data.resources.lookup rid
  checkOwner data (ownerOf owner) 400 "Unknown owner"
  refuse (old.any fun r => r.kind != .skill || r.owner != ownerOf owner) 400
    "Resource kind and owner cannot change"
  let draft : ResourceDraft := ⟨.skill name description, blobs⟩
  let saved := match old with
    | some r => { r with name := name, draft := draft }
    | none => ⟨rid, name, .skill, ownerOf owner, false, draft, []⟩
  return { data with resources := data.resources.insert rid saved }

/-! ## Publication, copies, lifecycle -/

/-- The last part of `publish`: `compiled` is what the remote validation of a hook made of its files,
or nothing for the other kinds. -/
def publish (rid : String) (original : ResourceDraft) (compiled : Option (Dict String String))
    (data : Document) : Result (Document × Nat) := do
  match data.resources.lookup rid with
  | none => fail 409 "Draft changed during validation"
  | some r =>
    refuse (r.archived || r.draft != original) 409 "Draft changed during validation"
    let checked := { original with files := compiled.getD original.files }
    let number := r.versions.length + 1
    let published := { r with versions := r.versions ++ [⟨checked, number⟩] }
    return ({ data with resources := data.resources.insert rid published }, number)

/-- The body of `copy_resource`. -/
def copyResource (source rid : String) (owner : Option String) (data : Document) :
    Result Document := do
  identifier rid
  let owner := ownerOf owner
  match data.resources.lookup source with
  | none => fail 409 "Invalid source or duplicate destination"
  | some r =>
    refuse (data.resources.lookup rid).isSome 409 "Invalid source or duplicate destination"
    refuse (owner.any fun aid => (data.agents.lookup aid).isNone) 404 "Unknown owner Agent"
    return { data with
      resources := data.resources.insert rid { r with id := rid, owner := owner, archived := false } }

inductive ResourceAction where
  | archive | restore | delete
  deriving Repr, DecidableEq

/-- A configuration binds a resource. -/
def AgentConfig.binds (cfg : AgentConfig) (rid : String) : Bool := cfg.bindings.any (·.id == rid)

/-- The draft and the committed versions of an agent. -/
def Agent.configs (a : Agent) : List AgentConfig := a.draft :: a.versions.map (·.config)

/-- Who refers to a resource: agents by draft or version, templates. -/
def resourceReferences (data : Document) (rid : String) : List String :=
  ((data.agents.filter fun _ a => a.configs.any (·.binds rid)).keys.map ("Agent " ++ ·)) ++
    ((data.agentTemplates.filter fun _ t => t.config.binds rid).keys.map ("模板 " ++ ·))

/-- The body of `resource_lifecycle`. -/
def resourceLifecycle (rid : String) (action : ResourceAction) (data : Document) :
    Result Document := do
  match data.resources.lookup rid with
  | none => fail 404 "Resource not found"
  | some r =>
    match action with
    | .archive => return { data with resources := data.resources.insert rid { r with archived := true } }
    | .restore => return { data with resources := data.resources.insert rid { r with archived := false } }
    | .delete =>
      refuse (!r.archived) 409 "请先归档资源，再永久删除"
      refuse (!(resourceReferences data rid).isEmpty) 409
        ("资源仍被草稿、已发布版本或历史版本引用，不能删除：" ++ joined (resourceReferences data rid))
      return { data with resources := data.resources.erase rid }

end OpencodeCloud.Catalog
