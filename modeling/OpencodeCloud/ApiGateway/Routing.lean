/-
# OpencodeCloud.ApiGateway.Routing -- which service a public path goes to

`destination` and the check of `proxy` before it. The path is the percent-decoded one of the request;
the service and the path sent to it are chosen by its prefixes, and then the path becomes part of a URL.
The client that sends the URL reads it by RFC 3986, which changes the path unless it is in normal form.
-/
import OpencodeCloud.Library.Uri

namespace OpencodeCloud.ApiGateway

open OpencodeCloud.Library OpencodeCloud.Library.Uri

/-- The services behind the gateway. -/
inductive Service
  | observability
  | modelGateway
  | fileService
  | operations
  | catalogService
  | sandboxManager
  deriving DecidableEq

/-- `path.startswith(heads)`. -/
def startsWith (path : List Char) (heads : List String) : Bool :=
  heads.any fun head => head.toList.isPrefixOf path

def operationsHeads : List String :=
  ["cloud/operations", "cloud/load-tests", "cloud/admin/load-tests", "cloud/admin/jobs",
    "cloud/admin/sandboxes", "cloud/admin/recovery"]

def catalogHeads : List String :=
  ["cloud/admin", "cloud/agents", "cloud/providers", "cloud/models", "cloud/capabilities"]

def agentActions : List String :=
  ["apply", "rollback", "archive", "restore", "delete", "delete-empty", "delete-preview"]

/-- `re.fullmatch` of `cloud/admin/agents/[^/]+/(…)` with the actions of an Agent. -/
def isAgentAction (path : List Char) : Bool :=
  match segments path with
  | [cloud, admin, agents, agent, action] =>
    cloud == "cloud".toList && admin == "admin".toList && agents == "agents".toList
      && !agent.isEmpty && (agentActions.map String.toList).contains action
  | _ => false

/-- `destination`: the service, and the path it is asked for without the leading slash. -/
def destination (path : List Char) : Service × List Char :=
  if startsWith path ["cloud/logs", "cloud/traces"] then (.observability, path)
  else if startsWith path ["llm/v1/"] then (.modelGateway, path.drop 4)
  else if startsWith path ["cloud/files/"] then (.fileService, path)
  else if startsWith path operationsHeads then (.operations, path)
  else if path == "cloud/admin/models/apply".toList || isAgentAction path then (.operations, path)
  else if startsWith path catalogHeads then (.catalogService, path)
  else (.sandboxManager, path)

/-- What `proxy` forwards; `none` is the answer that the path is not public. -/
def forward (path : List Char) : Option (Service × List Char) :=
  if startsWith path ["internal/", "health/"] then none else some (destination path)

/-- The public path that a path at a service stands for: the model gateway serves without `llm/`. -/
def publicPath : Service → List Char → List Char
  | .modelGateway, path => "llm/".toList ++ path
  | _, path => path

/-! ## Paths in normal form -/

theorem startsWith_singleton {path : List Char} {head : String} :
    startsWith path [head] = true ↔ ∃ rest, path = head.toList ++ rest := by
  simp only [startsWith, List.any_cons, List.any_nil, Bool.or_false, List.isPrefixOf_iff_prefix]
  exact ⟨fun ⟨rest, h⟩ => ⟨rest, h.symm⟩, fun ⟨rest, h⟩ => ⟨rest, h.symm⟩⟩

/-- Only the prefix of the model gateway changes a path. -/
theorem destination_path (path : List Char) :
    ((destination path).2 = path ∧ (destination path).1 ≠ .modelGateway) ∨
      (destination path = (.modelGateway, path.drop 4) ∧ startsWith path ["llm/v1/"] = true) := by
  unfold destination
  split
  · exact .inl ⟨rfl, nofun⟩
  · split
    · next h => exact .inr ⟨rfl, h⟩
    · refine .inl ?_
      split
      · exact ⟨rfl, nofun⟩
      · split
        · exact ⟨rfl, nofun⟩
        · split
          · exact ⟨rfl, nofun⟩
          · split
            · exact ⟨rfl, nofun⟩
            · exact ⟨rfl, nofun⟩

end OpencodeCloud.ApiGateway
