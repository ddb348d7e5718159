/-
# OpencodeCloud.Sandbox.Docker -- containers, their records, and the calls that change them

What `LocalDockerBackend` works on: the containers that Docker has, under their deterministic names
(`cloud-agent-<key>`, one for each Agent and user), and the rows of the registry that remember them. A
row may hold the id of a container, or none, or an id that Docker no longer knows; nothing but the code
keeps the two together.

A `Call` is a change of either, made in a thread of its own. It is carried out at once when its caller is
answered; a caller that gives up (it fails or is cancelled) may leave the call to take effect later.

Containers that the platform did not create are left out: a foreign one under a name of the platform only
makes calls fail.
-/
import OpencodeCloud.Library.Dict

namespace OpencodeCloud.Sandbox.Backend

open OpencodeCloud.Library

/-- An Agent and a user, the owner of one sandbox. -/
abbrev Owner : Type := String × String

/-- What an acquisition takes from the definition of an Agent: the version its bundle is installed
under, and the image. -/
structure Definition where
  version : String
  image : String
  deriving DecidableEq

/-! ## Containers and records -/

/-- The states Docker reports of a container. -/
inductive DockerStatus
  | created | running | paused | restarting | removing | exited | dead
  deriving DecidableEq

/-- A container of the platform; its name and its other labels are those of its owner. -/
structure Container where
  id : Nat
  /-- the version whose bundle is mounted at `/opt/agent` -/
  bundle : String
  /-- the label `cloud.image_version` -/
  image : String
  /-- the label `cloud.load_test` -/
  loadTest : Option String
  status : DockerStatus
  deriving DecidableEq

inductive SandboxStatus
  | creating | ready | failed | stopped | destroyed | missing
  deriving DecidableEq

/-- A row of `sandboxes`. -/
structure SandboxRecord where
  containerId : Option Nat
  status : SandboxStatus
  imageVersion : String
  deriving DecidableEq

structure World where
  sandboxes : Dict Owner SandboxRecord
  /-- the rows of `agents`: path and image -/
  agents : Dict String Definition
  /-- the containers by name -/
  docker : Dict Owner Container
  /-- how many containers were created so far; the next one takes this id -/
  created : Nat
  /-- `config.sandbox.image` -/
  sandboxImage : String

namespace World

def initial (sandboxImage : String) : World := ⟨∅, ∅, ∅, 0, sandboxImage⟩

/-- `containers.get(id)`, for an id of a container of `o`. -/
def find (w : World) (o : Owner) (id : Nat) : Option Container :=
  (w.docker.lookup o).filter (·.id == id)

/-- The image that is recorded for a user. -/
def expectedImage (w : World) (o : Owner) : String :=
  match w.sandboxes.lookup o with
  | some r => r.imageVersion
  | none => ((w.agents.lookup o.1).map Definition.image).getD w.sandboxImage

/-- `_verify_ownership`: of the labels, only the image can differ. -/
def verifyOwnership (w : World) (o : Owner) (c : Container) : Bool := c.image == w.expectedImage o

/-! ## Calls -/

inductive Call
  | upsertAgent (a : String) (d : Definition)
  | upsertSandbox (o : Owner) (containerId : Option Nat) (status : SandboxStatus) (image : String)
  | markSandboxStatus (o : Owner) (status : SandboxStatus)
  | create (o : Owner) (d : Definition) (loadTest : Option String)
  | start (o : Owner) (id : Nat)
  | stop (o : Owner) (id : Nat)
  | remove (o : Owner) (id : Nat)
  deriving DecidableEq

/-- The container that a call creates. -/
def newContainer (w : World) (d : Definition) (loadTest : Option String) : Container :=
  ⟨w.created, d.version, d.image, loadTest, .created⟩

/-- Whether the call can succeed. A row of `sandboxes` refers to one of `agents`; Docker gives no name
twice; what is started or stopped must be there, while removing what is gone is no error. -/
def accepts (w : World) : Call → Bool
  | .upsertAgent _ _ | .markSandboxStatus _ _ | .remove _ _ => true
  | .upsertSandbox o _ _ _ => (w.agents.lookup o.1).isSome
  | .create o _ _ => (w.docker.lookup o).isNone
  | .start o id | .stop o id => (w.find o id).isSome

/-- Change the state of a container. -/
def setStatus (w : World) (o : Owner) (id : Nat) (status : DockerStatus) : World :=
  match w.find o id with
  | some c => { w with docker := w.docker.insert o { c with status := status } }
  | none => w

/-- What an accepted call does. -/
def execute (w : World) : Call → World
  | .upsertAgent a d => { w with agents := w.agents.insert a d }
  | .upsertSandbox o containerId status image =>
    { w with sandboxes := w.sandboxes.insert o ⟨containerId, status, image⟩ }
  | .markSandboxStatus o status =>
    { w with sandboxes := w.sandboxes.modify o fun r => { r with status := status } }
  | .create o d loadTest =>
    { w with docker := w.docker.insert o (w.newContainer d loadTest), created := w.created + 1 }
  | .start o id => w.setStatus o id .running
  | .stop o id => w.setStatus o id .exited
  | .remove o id =>
    match w.find o id with
    | some _ => { w with docker := w.docker.erase o }
    | none => w

def perform (w : World) (c : Call) : World := if w.accepts c then w.execute c else w

/-- `DELETE FROM sandboxes` and `DELETE FROM agents` for one Agent. -/
def deleteAgent (w : World) (a : String) : World :=
  { w with sandboxes := w.sandboxes.filter fun o _ => o.1 != a, agents := w.agents.erase a }

/-- `DELETE FROM sandboxes` for one user. -/
def deleteUser (w : World) (o : Owner) : World := { w with sandboxes := w.sandboxes.erase o }

/-! ## What a call does to the containers -/

theorem find_eq_some {w : World} {o : Owner} {id : Nat} {c : Container} :
    w.find o id = some c ↔ w.docker.lookup o = some c ∧ c.id = id := by
  simp [find, Option.filter_eq_some_iff]

theorem docker_setStatus {w : World} {o o' : Owner} {id : Nat} {status : DockerStatus}
    {c : Container} (h : (w.setStatus o id status).docker.lookup o' = some c) :
    w.docker.lookup o' = some c ∨
      o' = o ∧ c.id = id ∧ c.status = status ∧
        ∃ c', w.docker.lookup o = some c' ∧ c = { c' with status := status } := by
  unfold setStatus at h
  split at h
  next c' hfind =>
    obtain ⟨hlook, hid⟩ := find_eq_some.mp hfind
    rcases Dict.lookup_insert_cases h with ⟨rfl, rfl⟩ | ⟨-, hold⟩
    · exact .inr ⟨rfl, hid, rfl, c', hlook, rfl⟩
    · exact .inl hold
  next => exact .inl h

/-- **A container after a call** was there before, up to its state, or was just created under a free
name. -/
theorem docker_perform {w : World} {call : Call} {o : Owner} {c : Container}
    (h : (w.perform call).docker.lookup o = some c) :
    (∃ c', w.docker.lookup o = some c' ∧ c = { c' with status := c.status }) ∨
      ∃ d t, call = .create o d t ∧ w.docker.lookup o = none ∧ c = w.newContainer d t := by
  unfold perform at h
  split at h
  next haccepts =>
    cases call with
    | upsertAgent a d => exact .inl ⟨c, h, rfl⟩
    | upsertSandbox o' containerId status image => exact .inl ⟨c, h, rfl⟩
    | markSandboxStatus o' status => exact .inl ⟨c, h, rfl⟩
    | create o' d t =>
      rcases Dict.lookup_insert_cases h with ⟨rfl, rfl⟩ | ⟨-, hold⟩
      · exact .inr ⟨d, t, rfl, by simpa [accepts] using haccepts, rfl⟩
      · exact .inl ⟨c, hold, rfl⟩
    | start o' id | stop o' id =>
      rcases docker_setStatus h with hold | ⟨rfl, -, hstatus, c', hc', heq⟩
      · exact .inl ⟨c, hold, rfl⟩
      · exact .inl ⟨c', hc', by rw [hstatus]; exact heq⟩
    | remove o' id =>
      simp only [execute] at h
      split at h
      · exact .inl ⟨c, (Dict.lookup_erase_cases h).2, rfl⟩
      · exact .inl ⟨c, h, rfl⟩
  next => exact .inl ⟨c, h, rfl⟩

/-- A container that runs after a call ran before, or the call starts it. -/
theorem running_perform {w : World} {call : Call} {o : Owner} {c : Container}
    (h : (w.perform call).docker.lookup o = some c) (hrunning : c.status = .running) :
    (∃ c', w.docker.lookup o = some c' ∧ c'.status = .running) ∨ ∃ id, call = .start o id := by
  unfold perform at h
  split at h
  next =>
    cases call with
    | upsertAgent a d | upsertSandbox o' containerId status image | markSandboxStatus o' status =>
      exact .inl ⟨c, h, hrunning⟩
    | create o' d t =>
      rcases Dict.lookup_insert_cases h with ⟨rfl, rfl⟩ | ⟨-, hold⟩
      · cases hrunning
      · exact .inl ⟨c, hold, hrunning⟩
    | start o' id =>
      rcases docker_setStatus h with hold | ⟨rfl, -⟩
      · exact .inl ⟨c, hold, hrunning⟩
      · exact .inr ⟨id, rfl⟩
    | stop o' id =>
      rcases docker_setStatus h with hold | ⟨-, -, hstatus, -⟩
      · exact .inl ⟨c, hold, hrunning⟩
      · rw [hstatus] at hrunning
        cases hrunning
    | remove o' id =>
      simp only [execute] at h
      split at h
      · exact .inl ⟨c, (Dict.lookup_erase_cases h).2, hrunning⟩
      · exact .inl ⟨c, h, hrunning⟩
  next => exact .inl ⟨c, h, hrunning⟩

/-- What is stopped does not run. -/
theorem stopped_perform {w : World} {o : Owner} {id : Nat} {c : Container}
    (haccepts : w.accepts (.stop o id) = true)
    (h : (w.perform (.stop o id)).docker.lookup o = some c) : c.status = .exited := by
  rw [perform, if_pos haccepts, execute] at h
  obtain ⟨c', hfind⟩ := Option.isSome_iff_exists.mp haccepts
  simp only [setStatus, hfind, AList.lookup_insert, Option.some.injEq] at h
  rw [← h]

/-- What is removed is gone. -/
theorem docker_remove {w : World} {o : Owner} {id : Nat} {c : Container}
    (h : (w.perform (.remove o id)).docker.lookup o = some c) : c.id ≠ id := by
  rintro rfl
  rw [perform, if_pos (by rfl), execute] at h
  split at h
  · simp at h
  next hnone =>
    have := find_eq_some.mpr ⟨h, rfl⟩
    rw [hnone] at this
    cases this

/-- The number of containers only grows. -/
theorem created_le_perform (w : World) (call : Call) : w.created ≤ (w.perform call).created := by
  unfold perform
  split
  next =>
    cases call with
    | create o d t => exact Nat.le_succ w.created
    | upsertAgent a d | upsertSandbox o containerId status image | markSandboxStatus o status => exact le_rfl
    | start o id | stop o id | remove o id =>
      simp only [execute, setStatus]
      split <;> exact le_rfl
  next => exact le_rfl

end World

end OpencodeCloud.Sandbox.Backend
