/-
# OpencodeCloud.Catalog.Compiler -- from an agent configuration to its file map

`compile_agent`: the validated configuration, the bound resource versions and the model entries become
the files of an agent directory. The directory is new for every compilation, so its contents are the
result; every later reader gets them back unchanged.
-/
import OpencodeCloud.Catalog.Agents

namespace OpencodeCloud.Catalog

open OpencodeCloud.Library

/-! ## The bound resources -/

/-- A local server with a working directory is started through a child process that changes to it. -/
def startIn (cwd : Option String) (command : List String) : List String :=
  if present cwd then
    ["python3", "-c",
      "import os,sys; os.chdir(sys.argv[1]); os.execvp(sys.argv[2],sys.argv[2:])", cwd.getD ""]
      ++ command
  else
    command

/-- An MCP server as OpenCode reads it: without `cwd`. -/
def runtimeMcp (config : McpConfig) : McpConfig :=
  match config.transport with
  | .remoteServer _ _ => config
  | .localServer command cwd environment =>
    { config with transport := .localServer (startIn cwd command) none environment }

/-- What the bindings contribute: plugins, servers, sources and files. -/
structure Linked where
  plugin : List String
  mcp : Dict String McpConfig
  sources : List Source
  files : Files

/-- The directory of a skill or a hook. -/
def resourceDirectory (r : Resource) : String :=
  (if r.kind = .skill then "skills/" else "plugins/") ++ r.id

/-- Copy the files of a version under a directory. -/
def copyFiles (directory : String) (blobs : Dict String String) (files : Files) : Files :=
  blobs.entries.foldl (fun fs e => fs.insert (directory ++ "/" ++ e.1) (.blob e.2)) files

/-- One round of the loop over the bindings. -/
def linkBinding (l : Linked) (r : Resource) (v : ResourceVersion) : Linked :=
  let name := v.data.nameOr r.name
  let source := fun path => Source.mk r.id r.owner r.kind name v.version path
  match v.data with
  | .mcp config =>
    { l with
      mcp := l.mcp.insert name (runtimeMcp config)
      sources := l.sources ++ [source ("mcp." ++ name)] }
  | .skill _ _ =>
    { l with
      files := copyFiles (resourceDirectory r) v.files l.files
      sources := l.sources ++ [source ("/opt/agent/" ++ resourceDirectory r)] }
  | .hook entry _ =>
    { l with
      plugin := l.plugin ++ ["file:///opt/agent/" ++ resourceDirectory r ++ "/" ++ entry]
      files := copyFiles (resourceDirectory r) v.files l.files
      sources := l.sources ++ [source ("/opt/agent/" ++ resourceDirectory r)] }

/-- The loop over the bindings. -/
def linkBindings (data : Document) : List Binding → Linked → Result Linked
  | [], l => .ok l
  | b :: bs, l => do
    let (r, v) ← resourceVersion data b.id b.version
    linkBindings data bs (linkBinding l r v)

/-- The files that every agent has. -/
def baseFiles (cfg : AgentConfig) : Files :=
  ((∅ : Files).insert "global/opencode/.gitignore" (.text "*\n")
    |>.insert "plugins/system-trace.mjs" (.asset "agent-code/plugins/trace.mjs")
    |>.insert "AGENTS.md" (.text cfg.instructions))

/-! ## The generated configuration -/

/-- The model entry of `opencode.json`. -/
def opencodeModel (data : Document) (mid : String) : Result OpencodeModel :=
  match data.models.lookup mid with
  | none => fail 500 mid
  | some m =>
    .ok ⟨m.name, match m.context, m.output with
      | some c, some o => if c = 0 ∨ o = 0 then none else some (c, o)
      | _, _ => none⟩

/-- The `models` dictionary of `opencode.json`. -/
def opencodeModels (data : Document) : List String → Result (Dict String OpencodeModel)
  | [] => .ok ∅
  | mid :: mids => do
    let entry ← opencodeModel data mid
    let rest ← opencodeModels data mids
    return rest.insert mid entry

def masked (d : Dict String (Option String)) : Dict String (Option String) :=
  d.mapValues fun _ => some MASK

/-- `redact` on the secret fields of the generated configuration. -/
def redactOpencode (o : Opencode) : Opencode :=
  { o with
    apiKey := MASK
    mcp := o.mcp.mapValues fun config =>
      { config with
        transport := match config.transport with
          | .remoteServer url headers => .remoteServer url (masked headers)
          | .localServer command cwd environment => .localServer command cwd (masked environment) } }

section Host

variable (host : Host)

/-- The varying part of `opencode.json`. -/
def opencodeConfig (cfg : AgentConfig) (l : Linked) (models : Dict String OpencodeModel) : Opencode where
  plugin := "file:///opt/agent/plugins/system-trace.mjs" :: l.plugin
  mcp := l.mcp
  model := "cloud-model-gateway/" ++ cfg.defaultModelId
  smallModel :=
    if present cfg.smallModelId then cfg.smallModelId.map ("cloud-model-gateway/" ++ ·) else none
  baseUrl := host.gatewayUrl
  apiKey := "\x7benv:MODEL_GATEWAY_TOKEN\x7d"
  models := models

/-- `cfg.get(field) or default`. -/
def limitOr (value : Option Nat) (default : Nat) : Nat :=
  match value with
  | some (n + 1) => n + 1
  | _ => default

/-- The contents of `agent.cfg`. -/
def agentCfg (aid : String) (cfg : AgentConfig) : AgentCfg where
  id := aid
  displayName := cfg.name
  image := host.image
  idleTimeoutSeconds := host.idleTimeoutSeconds
  resources := ⟨limitOr cfg.cpuLimit host.defaultCpu, limitOr cfg.memoryMb host.defaultMemoryMb,
    host.defaultPids⟩
  default := cfg.defaultModelId
  allowed := cfg.allowedModelIds

/-- The last step of the compilation loads the directory: the limits are positive, and every plugin is
a file of the directory, without globs. -/
def loadable (c : AgentCfg) (o : Opencode) (files : Files) : Bool :=
  0 < c.idleTimeoutSeconds && 0 < c.resources.cpuLimit && 0 < c.resources.memoryMb &&
    0 < c.resources.pidsLimit && isIdentifier c.id &&
    o.plugin.all fun p =>
      let relative := String.ofList (p.toList.drop "file:///opt/agent/".length)
      (files.lookup relative).isSome && !(relative.toList.any fun ch => "*?[".toList.contains ch)

/-- `compile_agent(data, aid, cfg, version)`: the files of the new directory. -/
def compileAgent (data : Document) (aid : String) (cfg : AgentConfig) (version : Nat) :
    Result Files := do
  validateAgent data aid cfg
  let l ← linkBindings data cfg.bindings ⟨[], ∅, [], baseFiles cfg⟩
  let models ← opencodeModels data cfg.allowedModelIds
  let o := opencodeConfig host cfg l models
  let c := agentCfg host aid cfg
  let files := l.files.insert "opencode.json" (.opencode o)
    |>.insert "agent.cfg" (.agentCfg c)
    |>.insert "effective.json" (.effective version l.sources (redactOpencode o))
  refuse (!loadable c o files) 500 "AgentDefinitionError"
  return files

end Host

end OpencodeCloud.Catalog
