/-
# OpencodeCloud.Operations.Calls -- what operations asks of the other services

The requests that `Workflows.run` and `Workflows.reconcile` send through `Workflows.call`, and the
three ways a call can come back: a JSON answer, an `HTTPException` (the service's own error, or 503
when the network fails), or any other exception (an answer that is not JSON, for instance).
-/
import OpencodeCloud.Operations.Job

namespace OpencodeCloud.Operations

open OpencodeCloud.Library OpencodeCloud.Catalog

/-! ## Requests -/

/-- The lifecycle actions of the sandbox manager. -/
inductive ActionName where
  | quiesce | apply | verify | resume | archive | delete
  deriving Repr, DecidableEq

/-- `":" + action`, the tail of a command identifier. -/
def ActionName.suffix : ActionName → String
  | .quiesce => ":quiesce"
  | .apply => ":apply"
  | .verify => ":verify"
  | .resume => ":resume"
  | .archive => ":archive"
  | .delete => ":delete"

/-- The `bundle` of an apply action: a release, or the bundle of the previous version. -/
inductive Package where
  | release (r : Release)
  | previous (b : Bundle)
  deriving DecidableEq

def Package.version : Package → Nat
  | .release r => r.version
  | .previous b => b.version

/-- `bundle.get("files", {})`: a gateway release carries no files. -/
def Package.files : Package → Files
  | .release r => match r.content with
    | .agent _ files => files
    | .models _ _ => ∅
  | .previous b => b.files

/-- The body of `POST /internal/v1/agents/{aid}/actions`. -/
structure ActionBody where
  action : ActionName
  requestId : String
  bundle : Option Package
  emptyOnly : Option Bool
  expectedFingerprint : Option String
  deriving DecidableEq

/-- An action without extra fields. -/
def ActionBody.plain (action : ActionName) (requestId : String) : ActionBody :=
  ⟨action, requestId, none, none, none⟩

inductive LifecycleAction where
  | archive | restore | deleting | delete
  deriving Repr, DecidableEq

/-- A request to another service. -/
inductive Call where
  | activeBundle (aid : String)
  | release (rid : String)
  | prepare (kind : Kind) (target : String) (request : Request)
  | probes (files : Files)
  | validateConfig (r : Release)
  | action (target : String) (body : ActionBody)
  | activate (r : Release)
  | gatewayStatus
  | rollback (rid : String)
  | commit (rid : String)
  | sandboxAction (kind : Kind) (sid requestId : String) (payload : Payload)
  | lifecycle (aid : String) (action : LifecycleAction) (requestId : String)
      (fingerprint : Option String)
  | cleanupFiles (aid requestId : String) (fingerprint : Option String) (emptyOnly : Bool)
  | applicationStatus (aid : String)
  | sandboxDetail (sid : String)
  | catalogImpact (aid : String)
  | sandboxImpact (aid : String)
  | filesImpact (aid : String)
  deriving DecidableEq

/-! ## Answers -/

inductive Response where
  | bundle (b : Bundle)
  | release (r : Release)
  | version (n : Nat)
  | gateway (ready : Bool) (releaseId : Option String)
  | application (version : Nat) (verified : Bool)
  | sandbox (status : String) (containerId : Option String)
  | owned (any : Bool)
  | accepted
  deriving DecidableEq

/-- How `Workflows.call` ends. -/
inductive Reply where
  | ok (r : Response)
  | error (e : Failure)
  | raised
  deriving DecidableEq

/-- `call` turns every `httpx.HTTPError` into this failure. -/
def unavailable (service : String) : Reply := .error ⟨503, service ++ " unavailable"⟩

/-- An exception inside a workflow. -/
inductive Exc where
  | http (e : Failure)
  | other
  | cancelled
  deriving DecidableEq

/-- `exc.detail if isinstance(exc, HTTPException) else "Operation failed"`. -/
def Exc.detail : Exc → String
  | .http e => e.detail
  | _ => "Operation failed"

end OpencodeCloud.Operations
