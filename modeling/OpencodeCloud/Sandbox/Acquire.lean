/-
# OpencodeCloud.Sandbox.Acquire -- one acquisition, between its awaits

`_acquire_locked` looks a container of the user up, by the id in the record and then by name, and uses
it when it starts and answers; otherwise it creates one. An `Acquisition` says at which await it is and
what it holds in its local variables. `call` is the change that is in flight there, and `next` where the
acquisition goes on, given what the await answers.

Only the errors of Docker, of the sandbox and of the system are handled, and only from the creation on:
any other exception, and a cancellation, leaves everything as it is.
-/
import OpencodeCloud.Sandbox.Docker

namespace OpencodeCloud.Sandbox.Backend

open OpencodeCloud.Library World

/-- What an await ends with. -/
inductive Outcome
  | ok
  /-- the sandbox is ready, at another port than the one recorded -/
  | moved
  /-- admitted, with the resources of a load test if the user is of one -/
  | resources (loadTest : Option String)
  /-- the desired state of the sandbox is `stopped` -/
  | stopped
  /-- the session statuses of one directory -/
  | statuses (directory : String)
  /-- `SandboxNotReadyError` -/
  | notReady
  /-- `DockerException` -/
  | dockerError
  /-- `OSError`, or another `SandboxError` -/
  | error
  /-- any other exception -/
  | raised
  | cancelled
  deriving DecidableEq

/-- The await was answered. -/
def Outcome.answers : Outcome → Bool
  | .ok | .moved | .resources _ | .stopped | .statuses _ => true
  | .notReady | .dockerError | .error | .raised | .cancelled => false

inductive Acquisition
  | load
  | upsertAgent (d : Definition)
  | getRecord (d : Definition)
  | getById (d : Definition) (r : SandboxRecord) (id : Nat)
  | getByName (d : Definition) (r : Option SandboxRecord)
  /-- a container was found that does not run -/
  | start (d : Definition) (r : Option SandboxRecord) (c : Container)
  | reload (d : Definition) (r : Option SandboxRecord) (c : Container)
  | ready (d : Definition) (r : Option SandboxRecord) (c : Container)
  | removeUnfit (d : Definition) (c : Container)
  | creating (d : Definition)
  | admission (d : Definition)
  | create (d : Definition) (loadTest : Option String)
  | startNew (d : Definition) (c : Container)
  | reloadNew (d : Definition) (c : Container)
  | readyNew (d : Definition) (c : Container)
  /-- `_persist` reads the record; `made` is there when the container is a new one -/
  | persist (made : Option Definition) (c : Container)
  | store (made : Option Definition) (c : Container) (image : String)
  /-- the new container is removed again -/
  | undo (d : Definition) (c : Container)
  | fail (d : Definition)
  | done (c : Container)
  | raised
  deriving DecidableEq

namespace Acquisition

/-- The change that is in flight. -/
def call (o : Owner) : Acquisition → Option Call
  | .upsertAgent d => some (.upsertAgent o.1 d)
  | .start _ _ c | .startNew _ c => some (.start o c.id)
  | .removeUnfit _ c | .undo _ c => some (.remove o c.id)
  | .creating d => some (.upsertSandbox o none .creating d.image)
  | .create d loadTest => some (.create o d loadTest)
  | .store _ c image => some (.upsertSandbox o (some c.id) .ready image)
  | .fail d => some (.upsertSandbox o none .failed d.image)
  | _ => none

/-- `except (DockerException, SandboxError, OSError)` around the creation. -/
def handler : Acquisition → Acquisition
  | .admission d | .create d _ => .fail d
  | .startNew d c | .reloadNew d c | .readyNew d c | .persist (some d) c | .store (some d) c _ =>
    .undo d c
  | _ => .raised

/-- A container was found. -/
def found (w : World) (o : Owner) (d : Definition) (r : Option SandboxRecord) (c : Container) :
    Acquisition :=
  if w.verifyOwnership o c then
    if c.status = .running then .ready d r c else .start d r c
  else .raised

/-- The record that a ready sandbox has; it is not written again. -/
def readyRecord (d : Definition) (c : Container) : SandboxRecord := ⟨some c.id, .ready, d.image⟩

/-- Where the acquisition goes on; `catalog` is what the catalog answers when it is asked. -/
def next (w : World) (catalog : Option Definition) (o : Owner) :
    Acquisition → Outcome → Option Acquisition
  | .done _, _ | .raised, _ => none
  | .load, .ok => catalog.map .upsertAgent
  | .upsertAgent d, .ok => some (.getRecord d)
  | .getRecord d, .ok =>
    match w.sandboxes.lookup o with
    | none => some (.getByName d none)
    | some r =>
      match r.containerId with
      | some id => some (.getById d r id)
      | none => some (.getByName d (some r))
  | .getById d r id, .ok =>
    match w.find o id with
    | some c => some (found w o d (some r) c)
    | none => some (.getByName d (some r))
  | .getByName d r, .ok =>
    match w.docker.lookup o with
    | some c => some (found w o d r c)
    | none => some (.creating d)
  | .start d r c, .ok => some (.reload d r c)
  | .reload d r c, .ok => some (.ready d r c)
  | .start d _ c, .dockerError | .reload d _ c, .dockerError | .ready d _ c, .notReady =>
    some (.removeUnfit d c)
  | .ready d r c, .ok =>
    if r = some (readyRecord d c) then some (.done c) else some (.persist none c)
  | .ready _ _ c, .moved => some (.persist none c)
  | .removeUnfit d _, .ok => some (.creating d)
  | .creating d, .ok => some (.admission d)
  | .admission d, .resources loadTest => some (.create d loadTest)
  | .create d loadTest, .ok => some (.startNew d (w.newContainer d loadTest))
  | .startNew d c, .ok => some (.reloadNew d c)
  | .reloadNew d c, .ok => some (.readyNew d c)
  | .readyNew d c, .ok | .readyNew d c, .moved => some (.persist (some d) c)
  | .persist made c, .ok => some (.store made c (w.expectedImage o))
  | .store _ c _, .ok => some (.done c)
  | .undo d _, .ok => some (.fail d)
  | .fail _, .ok => some .raised
  | p, .notReady | p, .dockerError | p, .error => some p.handler
  | _, .raised | _, .cancelled => some .raised
  | _, _ => none

end Acquisition

end OpencodeCloud.Sandbox.Backend
