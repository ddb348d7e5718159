/-
# OpencodeCloud.Catalog.Release -- preparing and committing releases

The two phases of a publication. `prepare` freezes the models or an agent configuration under the next
version number and remembers the active version it saw; `commit` makes the release the active version
if that version is still the active one. In between the release is in `data["releases"]` only, where
no other operation of the catalog looks.
-/
import OpencodeCloud.Catalog.Compiler

namespace OpencodeCloud.Catalog

open OpencodeCloud.Library

/-- What `prepare` is asked for: the models for the gateway, or an agent. `version` selects an older
version instead of the current configuration. -/
inductive PrepareKind where
  | models
  | agent (target : String)
  deriving Repr, DecidableEq

structure PrepareRequest where
  kind : PrepareKind
  version : Option Nat
  revision : Option Nat
  deriving Repr, DecidableEq

/-- A truthy `payload.get("version")`. -/
def PrepareRequest.selected (r : PrepareRequest) : Option Nat := r.version.filter (· != 0)

/-- `set(ids) - {mid for mid, m in models.items() if m.get("enabled", True)}` is empty. -/
def allEnabled (models : Dict String ModelDefinition) (ids : List String) : Bool :=
  ids.all (enabledModel models)

/-- The active configuration is enabled and uses a model that is not enabled in `models`. -/
def modelMissing (models : Dict String ModelDefinition) (a : Agent) : Bool :=
  (agentConfig a).any fun cfg => cfg.enabled && !allEnabled models cfg.allowedModelIds

/-- The agents that a gateway with these models would fail. -/
def modelUsers (data : Document) (models : Dict String ModelDefinition) : List String :=
  (data.agents.filter fun _ a => modelMissing models a).keys

/-- `active_models or {legacy models}`: without an active gateway version, or with one that has no
models, the legacy models count. -/
def availableModels (data : Document) : Dict String ModelDefinition :=
  match activeGateway data with
  | some v => if v.models.entries.isEmpty then data.models.filter fun _ m => m.legacy else v.models
  | none => data.models.filter fun _ m => m.legacy

section Host

variable (host : Host)

/-- The models that `prepare` freezes. -/
def selectedModels (version : Option Nat) (data : Document) :
    Result (Dict String ModelDefinition) :=
  match version with
  | none => .ok data.models
  | some n =>
    match gatewayVersion data n with
    | none => fail 404 "Unknown gateway version"
    | some v => .ok v.models

/-- `prepare` of `models.apply`. -/
def prepareModels (rid : String) (version : Option Nat) (s : Store) : Result Release := do
  let models ← selectedModels version s.data
  refuse (!(modelUsers s.data models).isEmpty) 409
    ("Model is used by " ++ (modelUsers s.data models).head?.getD "")
  let configuration ← gatewayConfiguration host models true
  return ⟨rid, "*", s.data.gatewayVersions.length + 1, s.revision, s.data.gatewayActive,
    .models models configuration, false⟩

/-- The configuration that `prepare` freezes. -/
def selectedConfig (version : Option Nat) (a : Agent) : Result AgentConfig :=
  match version with
  | none => .ok a.draft
  | some n =>
    match agentVersion a n with
    | none => fail 404 "Agent version not found"
    | some v => .ok v.config

/-- `prepare` of `agent.apply`. -/
def prepareAgent (rid target : String) (version : Option Nat) (s : Store) : Result Release := do
  identifier target
  match s.data.agents.lookup target with
  | none => fail 404 "Agent not found"
  | some a =>
    refuse (a.lifecycle == .deleting) 409
      "Finish permanent deletion before applying configuration"
    let cfg ← selectedConfig version a
    refuse (!allEnabled (availableModels s.data) cfg.allowedModelIds) 409
      "Publish selected models to the gateway first"
    let number := a.versions.length + 1
    let files ← compileAgent host s.data target cfg number
    return ⟨rid, target, number, s.revision, a.active, .agent cfg files, false⟩

/-- The release that `prepare` builds from the document it has read. -/
def preparedRelease (rid : String) (request : PrepareRequest) (s : Store) : Result Release :=
  match request.kind with
  | .models => prepareModels host rid request.selected s
  | .agent target => prepareAgent host rid target request.selected s

/-- `POST /releases/prepare`; `rid` is the fresh id of the release. The document is read, compiled and
written under the revision that was read, so nothing happens in between. -/
def prepare (rid : String) (request : PrepareRequest) (s : Store) : Result (Store × Release) := do
  refuse (request.revision.any (· != s.revision)) 409 "Configuration changed; reload"
  let release ← preparedRelease host rid request s
  s.edit (some s.revision) fun data =>
    .ok ({ data with releases := data.releases.insert rid release }, release)

end Host

/-- `GET /releases/{rid}`. -/
def releaseStatus (rid : String) (s : Store) : Result Release :=
  match s.data.releases.lookup rid with
  | none => fail 404 "Release not found"
  | some r => .ok r

/-- Mark a release as committed. -/
def markCommitted (rid : String) (r : Release) (data : Document) : Document :=
  { data with releases := data.releases.insert rid { r with committed := true } }

/-- The body of `commit`. -/
def commitBody (rid : String) (data : Document) : Result (Document × Nat) := do
  match data.releases.lookup rid with
  | none => fail 404 "Release not found"
  | some r =>
    if r.committed then
      return (data, r.version)
    else
      match r.content with
      | .models models _ =>
        refuse (data.gatewayActive != r.oldActive) 409 "Applied version changed"
        return (markCommitted rid r { data with
          gatewayVersions := data.gatewayVersions ++ [⟨r.version, models⟩]
          gatewayActive := some r.version }, r.version)
      | .agent cfg files =>
        match data.agents.lookup r.target with
        | none => fail 500 r.target
        | some a =>
          refuse (a.active != r.oldActive) 409 "Applied version changed"
          return (markCommitted rid r { data with
            agents := data.agents.insert r.target { a with
              versions := a.versions ++ [⟨r.version, cfg, files⟩]
              active := some r.version } }, r.version)

/-- `POST /releases/{rid}/commit`. -/
def commit (rid : String) (s : Store) : Result (Store × Nat) := s.edit none (commitBody rid)

/-- The agent and the configuration that a commit makes active, when the commit is of an agent release
that is accepted now. -/
def acceptedAgent (rid : String) (data : Document) : Option (String × AgentConfig) :=
  match data.releases.lookup rid with
  | none => none
  | some r =>
    match r.committed, r.content, data.agents.lookup r.target with
    | false, .agent cfg _, some a => if a.active = r.oldActive then some (r.target, cfg) else none
    | _, _, _ => none

/-- The models that a commit makes active, when the commit is of a models release that is accepted
now. -/
def acceptedModels (rid : String) (data : Document) : Option (Dict String ModelDefinition) :=
  match data.releases.lookup rid with
  | none => none
  | some r =>
    match r.committed, r.content with
    | false, .models models _ => if data.gatewayActive = r.oldActive then some models else none
    | _, _ => none

/-- `GET /agents/{aid}/bundle`: the files are those that the version was compiled to. -/
def activeBundle (aid : String) (s : Store) : Result Bundle :=
  match (s.data.agents.lookup aid).bind activeVersion with
  | none => fail 404 "Agent has no active configuration"
  | some v => .ok ⟨aid, v.version, v.config, v.files⟩

end OpencodeCloud.Catalog
