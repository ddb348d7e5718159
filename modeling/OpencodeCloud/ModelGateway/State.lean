/-
# OpencodeCloud.ModelGateway.State -- activation of a configuration and the file that keeps it

`GatewayState`: the active release, the one before it, and the router built from the active
configuration. Both releases are kept in `active.json`, which is written to a temporary file and then
put in place by one rename.

The file is modelled by **all documents it has held**, newest first: a rename adds one, the first one
is what a reader finds. Everything else that `persist` does goes to the temporary file. Building a router
can fail, and so can every single file operation; the process can also die before any of them.
-/
import OpencodeCloud.Library.Checks
import OpencodeCloud.Library.Json

namespace OpencodeCloud.ModelGateway

open OpencodeCloud.Library OpencodeCloud.Library.Checked

/-! ## Validation -/

/-- `value[key]`. -/
def subscript (value : Json) (key : String) : Checked Json := orRaise (value.get? key)

/-- One entry of `model_list`; `ids` are the identifiers seen so far, the result has this one too. -/
def validateEntry (ids : List String) (entry : Json) : Checked (List String) := do
  refuse (!entry.isObject || !(entry.get? "litellm_params").any Json.isObject
    || !((entry.get? "model_info").getD (.object [])).isObject) 422 "Invalid model deployment"
  let params := (entry.get? "litellm_params").getD (.object [])
  let identifier := (((entry.get? "model_info").getD (.object [])).get? "id").getD .null
  refuse (!(entry.get? "model_name").any Json.truthy || !(params.get? "model").any Json.isString) 422
    "Each deployment requires model_name and litellm_params.model"
  match identifier with
  | .null => return ids
  | .string identifier =>
    refuse (identifier != "" && ids.contains identifier) 422 "Duplicate deployment id"
    return identifier :: ids
  | _ => raise 422 "Deployment id must be a string"

def validateEntries : List String → List Json → Checked Unit
  | _, [] => .ok ()
  | ids, entry :: entries => do
    let ids ← validateEntry ids entry
    validateEntries ids entries

/-- `validate_release`: the release itself when nothing is wrong with it. -/
def validateRelease (payload : Json) : Checked Json := do
  refuse (!(payload.get? "release_id").any fun v => v.isString && v.truthy) 422
    "release_id is required"
  match (payload.get? "configuration").bind (·.get? "model_list") with
  | some (.array modelList) =>
    let config := (payload.get? "configuration").getD (.object [])
    refuse (decide (modelList.length > 1000)) 422 "Too many model deployments"
    refuse (!((config.get? "router_settings").getD (.object [])).isObject) 422
      "router_settings must be an object"
    validateEntries [] modelList
    return payload
  | _ => raise 422 "configuration.model_list is required"

/-! ## The router -/

/-- What a router is built from: its deployments and the settings that are let through. -/
structure Router where
  modelList : Json
  settings : List (String × Json)

def routerSettings : List String :=
  ["routing_strategy", "num_retries", "timeout", "allowed_fails", "cooldown_time",
    "enable_pre_call_checks"]

/-- The arguments that `make_router` gives the router of a configuration. -/
def Router.ofConfiguration (configuration : Json) : Checked Router := do
  let modelList ← subscript configuration "model_list"
  match (configuration.get? "router_settings").getD (.object []) with
  | .object fields => return ⟨modelList, fields.filter fun f => routerSettings.contains f.1⟩
  | _ => .error .other

/-- `make_router`; `fails` when the router's own construction raises. -/
def makeRouter (fails : Bool) (configuration : Json) : Checked Router :=
  if fails then .error .other else Router.ofConfiguration configuration

/-! ## The file -/

/-- The text of a file: a document, or a part of one. -/
inductive Text
  | document (active previous : Json)
  | cut

/-- The temporary file, and every text that `active.json` has held, the present one first. -/
structure Disk where
  temporary : Option Text
  versions : List Text

/-- What `active.json` holds; `none` when there is no such file. -/
def Disk.active (d : Disk) : Option Text := d.versions.head?

/-- The operations of `persist`, one by one. -/
inductive FileOp
  | create
  | chmod
  | dump (active previous : Json)
  | flush
  | sync
  | close
  | replace

def FileOp.apply (d : Disk) : FileOp → Disk
  | .create => { d with temporary := some .cut }
  | .dump active previous => { d with temporary := some (.document active previous) }
  | .replace => ⟨none, d.temporary.toList ++ d.versions⟩
  | .chmod | .flush | .sync | .close => d

/-- What becomes of a call's file operations: the operation with this number raises, or the process
dies before it. -/
inductive Interrupt
  | none
  | fails (op : Nat)
  | crashes (op : Nat)

/-- How a call ends; `died` is no ending that anyone sees. -/
inductive Ending (α : Type)
  | returned (value : α)
  | raised (failure : Exception)
  | died

def persistOps (active previous : Json) : List FileOp :=
  [.create, .chmod, .dump active previous, .flush, .sync, .close, .replace]

/-- The first `n` operations of `persist`. -/
def Disk.after (d : Disk) (active previous : Json) (n : Nat) : Disk :=
  ((persistOps active previous).take n).foldl FileOp.apply d

/-- `persist`. -/
def persist (interrupt : Interrupt) (active previous : Json) (d : Disk) : Ending Unit × Disk :=
  match interrupt with
  | .none => (.returned (), d.after active previous 7)
  | .fails n =>
    if n < 7 then (.raised .other, d.after active previous n)
    else (.returned (), d.after active previous 7)
  | .crashes n => (.died, d.after active previous n)

/-! ## The state in memory -/

/-- `GatewayState`; `null` is `None`. -/
structure GatewayState where
  active : Json
  previous : Json
  router : Option Router

/-- What `status` reports. -/
structure Status where
  ready : Bool
  releaseId : Option Json
  version : Option Json

namespace GatewayState

/-- `GatewayState.__init__`: nothing, or what the file holds. -/
def init (fails : Bool) (d : Disk) : Checked GatewayState :=
  match d.active with
  | none => .ok ⟨.null, .null, none⟩
  | some .cut => .error .other
  | some (.document active previous) => do
    let active ← validateRelease active
    let router ← makeRouter fails (← subscript active "configuration")
    return ⟨active, previous, some router⟩

def status (g : GatewayState) : Status where
  ready := g.router.isSome
  releaseId := if g.active.truthy then g.active.get? "release_id" else none
  version := if g.active.truthy then g.active.get? "version" else none

/-- What a call leaves behind: its ending, the state in memory (when the process lives) and the
disk. -/
structure Outcome where
  ending : Ending Status
  memory : GatewayState
  disk : Disk

/-- Keep a new pair, and when that is done assign it; a failure leaves the memory as it was. -/
def keep (interrupt : Interrupt) (g new : GatewayState) (d : Disk) : Outcome :=
  match persist interrupt new.active new.previous d with
  | (.returned _, d') => ⟨.returned new.status, new, d'⟩
  | (.raised failure, d') => ⟨.raised failure, g, d'⟩
  | (.died, d') => ⟨.died, g, d'⟩

/-- `self.active and self.active["release_id"] == release_id`. -/
def holds (g : GatewayState) (releaseId : Json) : Bool :=
  g.active.truthy && (g.active.get? "release_id").any (·.same releaseId)

/-- What `activate` does before it writes: the state to keep, or none when the release is active. -/
def activation (fails : Bool) (payload : Json) (g : GatewayState) : Checked (Option GatewayState) := do
  let release ← validateRelease payload
  let releaseId ← subscript release "release_id"
  if g.holds releaseId then
    refuse (!g.active.same release) 409 "release_id already identifies different configuration"
    return none
  else
    let router ← makeRouter fails (← subscript release "configuration")
    return some ⟨release, g.active, some router⟩

/-- `activate`. -/
def activate (fails : Bool) (interrupt : Interrupt) (payload : Json) (g : GatewayState) (d : Disk) :
    Outcome :=
  match g.activation fails payload with
  | .error failure => ⟨.raised failure, g, d⟩
  | .ok none => ⟨.returned g.status, g, d⟩
  | .ok (some new) => g.keep interrupt new d

/-- What `rollback` does before it writes: the state to keep. -/
def reversal (fails : Bool) (releaseId : Json) (g : GatewayState) : Checked GatewayState := do
  refuse (!g.holds releaseId) 409 "Active release changed"
  refuse (!g.previous.truthy) 409 "No previous release"
  let router ← makeRouter fails (← subscript g.previous "configuration")
  return ⟨g.previous, .null, some router⟩

/-- `rollback`. -/
def rollback (fails : Bool) (interrupt : Interrupt) (releaseId : Json) (g : GatewayState) (d : Disk) :
    Outcome :=
  match g.reversal fails releaseId with
  | .error failure => ⟨.raised failure, g, d⟩
  | .ok new => g.keep interrupt new d

end GatewayState

/-- The two calls that change the active release. -/
inductive Request
  | activate (payload : Json)
  | rollback (releaseId : Json)

def Request.call (fails : Bool) (interrupt : Interrupt) (g : GatewayState) (d : Disk) :
    Request → GatewayState.Outcome
  | .activate payload => g.activate fails interrupt payload d
  | .rollback releaseId => g.rollback fails interrupt releaseId d

end OpencodeCloud.ModelGateway
