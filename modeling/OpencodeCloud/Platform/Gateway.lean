/-
# OpencodeCloud.Platform.Gateway -- the active configuration of the model gateway

`GatewayState`: one active release, and the one before it for a rollback. A release is activated under
its release id, so unlike the sandbox manager the gateway tells two releases with the same version
number apart.
-/
import OpencodeCloud.Platform.Manager

namespace OpencodeCloud.Platform

open OpencodeCloud.Library OpencodeCloud.Catalog OpencodeCloud.Operations

structure Gateway where
  active : Option Release
  previous : Option Release

/-- A gateway without a configuration. -/
def Gateway.initial : Gateway := ⟨none, none⟩

/-- The checks over the entries of a configuration; `ids` are those seen so far. -/
def validateEntries : List String → List GatewayEntry → Result Unit
  | _, [] => .ok ()
  | ids, e :: es => do
    refuse (e.modelName == "") 422
      "Each deployment requires model_name and litellm_params.model"
    refuse (e.id != "" && ids.contains e.id) 422 "Duplicate deployment id"
    validateEntries (e.id :: ids) es

/-- `validate_release`. -/
def validateRelease (r : Release) : Result Unit := do
  refuse (r.releaseId == "") 422 "release_id is required"
  match r.content with
  | .agent _ _ => fail 422 "configuration.model_list is required"
  | .models _ configuration =>
    refuse (configuration.length > 1000) 422 "Too many model deployments"
    validateEntries [] configuration

namespace Gateway

variable (fault : Option Fault)

/-- Building the router of a configuration; `status` is what the route makes of an exception there. -/
def factory (status : Nat) : Result Unit :=
  if fault = some .deployment then fail status "Model configuration cannot be loaded" else .ok ()

/-- `status`. -/
def status (g : Gateway) : Response :=
  .gateway g.active.isSome (g.active.map (·.releaseId))

/-- `validate`. -/
def validate (r : Release) : Result Response := do
  validateRelease r
  factory fault 422
  return .accepted

/-- `activate`: the same release again changes nothing, another one becomes active. -/
def activate (g : Gateway) (r : Release) : Result Gateway := do
  validateRelease r
  match g.active.filter fun a => a.releaseId == r.releaseId with
  | some a =>
    refuse (a != r) 409 "release_id already identifies different configuration"
    return g
  | none =>
    factory fault 422
    return ⟨some r, g.active⟩

/-- `rollback`: back to the release before, once. -/
def rollback (g : Gateway) (rid : String) : Result Gateway := do
  refuse (g.active.all fun a => a.releaseId != rid) 409 "Active release changed"
  match g.previous with
  | none => fail 409 "No previous release"
  | some r =>
    factory fault 500
    return ⟨some r, none⟩

end Gateway

end OpencodeCloud.Platform
