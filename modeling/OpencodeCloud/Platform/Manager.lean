/-
# OpencodeCloud.Platform.Manager -- the lifecycle actions of the sandbox manager

The part of the sandbox manager that operations drives: the admission blocks, the journal of commands,
the versions that are installed, staged and verified for each agent. Bundles are installed under
`versions/<number>/<agent>` once and never change there (`install`), a staged version overrides the
catalog until `resume` finds that the catalog has committed it, and `verified` records the version that
was running when it was last checked.

The lock of an agent is held over a whole action, so an action is one step. What an action meets
outside this state (sandboxes that do not drain, containers that are leased, a catalog that does not
answer) is a `Fault`: the action fails at that point and keeps what it has done so far.
-/
import OpencodeCloud.Operations.Calls

namespace OpencodeCloud.Platform

open OpencodeCloud.Library OpencodeCloud.Catalog OpencodeCloud.Operations

/-! ## §A State -/

/-- A row of the table `commands`; `finished` says that the row has a result. -/
structure CommandRow where
  target : String
  body : ActionBody
  finished : Bool
  deriving DecidableEq

structure Manager where
  blocked : List String
  commands : Dict String CommandRow
  verified : Dict String Nat
  overrides : Dict String Nat
  installed : Dict (Nat × String) Files

/-- A manager that has done nothing yet. -/
def Manager.initial : Manager := ⟨[], ∅, ∅, ∅, ∅⟩

/-- Where an action can fail for a reason outside the state. -/
inductive Fault where
  | impact | drain | impactAfterDrain | records
  | catalogUnavailable | definition | desiredState
  | deployment
  deriving Repr, DecidableEq

/-- The identifiers of `shared_libs.workspace_paths`. -/
def runtimeTail (c : Char) : Bool := identifierTail c || c == '.'

def runtimeIdentifier (value : String) : Bool :=
  match value.toList with
  | [] => false
  | c :: cs => identifierHead c && cs.length ≤ 127 && cs.all runtimeTail

namespace Manager

variable (d : Document) (fault : Option Fault)

/-! ## §B Bundles -/

/-- `install_bundle`: the directory of a version is written once; afterwards a bundle under the same
number must have the same files. -/
def install (m : Manager) (aid : String) (version : Nat) (files : Files) : Result Manager := do
  refuse (files.entries.length > 2000) 413 "Agent bundle exceeds file limit"
  refuse (files.lookup "agent.cfg").isNone 422 "Agent bundle missing agent.cfg"
  match m.installed.lookup (version, aid) with
  | none => return { m with installed := m.installed.insert (version, aid) files }
  | some current =>
    refuse (!current.same files) 409 "Immutable bundle version already exists with different content"
    return m

/-- `_authoritative`: install the active version of the catalog. -/
def authoritative (m : Manager) (aid : String) : Manager × Result Nat :=
  if fault = some .catalogUnavailable then (m, fail 503 "Catalog bundle unavailable")
  else
    match (d.agents.lookup aid).bind activeVersion with
    | none => (m, fail 404 "Catalog bundle unavailable")
    | some v =>
      match m.install aid v.version v.files with
      | .ok m' => (m', .ok v.version)
      | .error e => (m, .error e)

/-- `_definition`: the checks of an installed definition. -/
def definition (version : Nat) : Result Nat :=
  if fault = some .definition then
    fail 422 "Agent model credential must reference MODEL_GATEWAY_TOKEN"
  else .ok version

/-- `RemoteCatalog.load`: the staged version, or the active version of the catalog. -/
def load (m : Manager) (aid : String) : Manager × Result Nat :=
  match m.overrides.lookup aid with
  | some version => (m, definition fault version)
  | none =>
    match m.authoritative d fault aid with
    | (m, .ok version) => (m, definition fault version)
    | (m, .error e) => (m, .error e)

/-- `RemoteCatalog.commit`: give up the staged version for the catalog's, which must be the same. -/
def commitOverride (m : Manager) (aid : String) : Manager × Result Unit :=
  match m.overrides.lookup aid with
  | none => ((m.load d fault aid).1, (m.load d fault aid).2.map fun _ => ())
  | some staged =>
    match m.authoritative d fault aid with
    | (m, .error e) => (m, .error e)
    | (m, .ok version) =>
      if version ≠ staged then
        (m, fail 409 "Catalog has not committed the staged Agent version")
      else
        match definition fault version with
        | .error e => (m, .error e)
        | .ok _ => ({ m with overrides := m.overrides.erase aid }, .ok ())

/-! ## §C Actions -/

/-- Do something for each target, until one fails. -/
def each (f : Manager → String → Manager × Result Unit) :
    Manager → List String → Manager × Result Unit
  | m, [] => (m, .ok ())
  | m, t :: ts =>
    match f m t with
    | (m, .ok ()) => each f m ts
    | (m, .error e) => (m, .error e)

/-- The staged agents that a resume commits. -/
def resumeTargets (m : Manager) (aid : String) : List String :=
  if aid = everyAgent then m.overrides.keys
  else if (m.overrides.lookup aid).isSome then [aid] else []

/-- `resume`: commit what is staged, then admit again. -/
def resume (m : Manager) (aid : String) : Manager × Result Unit :=
  match each (commitOverride d fault) m (m.resumeTargets aid) with
  | (m, .error e) => (m, .error e)
  | (m, .ok ()) => ({ m with blocked := m.blocked.filter (· != aid) }, .ok ())

/-- The check of one target: its sandboxes are started on the loaded version. -/
def verifyTarget (m : Manager) (target : String) : Manager × Result Unit :=
  match m.load d fault target with
  | (m, .error e) => (m, .error e)
  | (m, .ok version) =>
    if fault = some .desiredState then (m, fail 503 "Cannot verify sandbox desired state")
    else ({ m with verified := m.verified.insert target version }, .ok ())

def verify (m : Manager) (aid : String) : Manager × Result Unit :=
  each (verifyTarget d fault) m (if aid = everyAgent then m.overrides.keys else [aid])

/-- Refuse new requests for `aid`. -/
def block (m : Manager) (aid : String) : Manager := { m with blocked := aid :: m.blocked }

/-- The part of `apply` after the drain: a bundle is installed and staged. -/
def applyBundle (m : Manager) (aid : String) (bundle : Option Package) : Manager × Result Unit :=
  let m := { m with verified := m.verified.erase aid }
  match bundle with
  | none => (m, fail 422 "Agent bundle missing agent.cfg")
  | some p =>
    match m.install aid p.version p.files with
    | .error e => (m, .error e)
    | .ok m =>
      match definition fault p.version with
      | .error e => (m, .error e)
      | .ok _ => ({ m with overrides := m.overrides.insert aid p.version }, .ok ())

/-- The actions that stop traffic: block, drain, and what the action is about. -/
def hold (m : Manager) (aid : String) (body : ActionBody) : Manager × Result Unit :=
  if body.expectedFingerprint.isSome && fault == some .impact then
    (m, fail 409 "Deletion impact changed")
  else
    let m := m.block aid
    if fault = some .drain then (m, fail 409 "Could not confirm sandbox idle before operation")
    else if body.expectedFingerprint.isSome && fault == some .impactAfterDrain then
      (m, fail 409 "Deletion impact changed while draining")
    else
      match if body.action = .apply then m.applyBundle fault aid body.bundle else (m, .ok ()) with
      | (m, .error e) => (m, .error e)
      | (m, .ok ()) =>
        if body.action != .quiesce && fault == some .records then
          (m, fail 409 "Sandbox has active leases")
        else (m, .ok ())

/-- What an action does once it is in the journal. -/
def perform (m : Manager) (aid : String) (body : ActionBody) : Manager × Result Unit :=
  match body.action with
  | .resume => m.resume d fault aid
  | .verify => m.verify d fault aid
  | .quiesce | .apply | .archive | .delete => m.hold fault aid body

/-- `*` is accepted by the actions that make sense for every agent. -/
def globalAction : ActionName → Bool
  | .quiesce | .resume | .verify => true
  | _ => false

/-- The answer of an action. -/
def answer : Result Unit → Reply
  | .ok () => .ok .accepted
  | .error e => .error e

/-- `POST /internal/v1/agents/{aid}/actions`: a finished command is answered from the journal, a new
one is entered there before it is carried out. -/
def action (m : Manager) (aid : String) (body : ActionBody) : Manager × Reply :=
  if aid ≠ everyAgent ∧ runtimeIdentifier aid = false then (m, .raised)
  else if aid = everyAgent ∧ globalAction body.action = false then
    (m, .error ⟨400, "Global action not allowed"⟩)
  else
    match m.commands.lookup body.requestId with
    | some old =>
      if ¬ (old.target = aid ∧ old.body = body) then (m, .error ⟨409, "Idempotency key reused"⟩)
      else if old.finished then (m, .ok .accepted)
      else (m, .error ⟨409, "Prior action interrupted; reconcile before retry"⟩)
    | none =>
      let entered := { m with commands := m.commands.insert body.requestId ⟨aid, body, false⟩ }
      match entered.perform d fault aid body with
      | (m, .error e) => (m, .error e)
      | (m, .ok ()) =>
        ({ m with commands := m.commands.insert body.requestId ⟨aid, body, true⟩ }, .ok .accepted)

/-- `GET /internal/v1/agents/{aid}/application-status`. -/
def applicationStatus (m : Manager) (aid : String) : Manager × Reply :=
  if runtimeIdentifier aid = false then (m, .raised)
  else
    match m.load d fault aid with
    | (m, .error e) => (m, .error e)
    | (m, .ok version) =>
      (m, .ok (.application version (m.verified.lookup aid == some version)))

/-! ## §D What loading leaves alone -/

variable {d fault}

/-- What each target keeps, all targets together keep. -/
theorem each_keeps {f : Manager → String → Manager × Result Unit} {P : Manager → Prop}
    (h : ∀ m t, P m → P (f m t).1) {m : Manager} (ts : List String) (hm : P m) :
    P (each f m ts).1 := by
  induction ts generalizing m with
  | nil => exact hm
  | cons t ts ih =>
    have ht := h m t hm
    simp only [each]
    split
    · next m' hf => exact ih (by rw [hf] at ht; exact ht)
    · next m' e hf =>
      rw [hf] at ht
      exact ht

/-- The same admission blocks and the same journal. -/
structure Alike (m m' : Manager) : Prop where
  blocked : m'.blocked = m.blocked
  commands : m'.commands = m.commands

theorem Alike.refl (m : Manager) : m.Alike m := ⟨rfl, rfl⟩

theorem Alike.trans {m m' m'' : Manager} (h : m.Alike m') (h' : m'.Alike m'') : m.Alike m'' :=
  ⟨h'.blocked.trans h.blocked, h'.commands.trans h.commands⟩

theorem install_alike {m m' : Manager} {aid : String} {version : Nat} {files : Files}
    (h : m.install aid version files = .ok m') : m.Alike m' := by
  simp only [install, bind_eq_ok] at h
  obtain ⟨_, _, _, _, h⟩ := h
  split at h
  · obtain rfl := Except.ok.inj h
    exact ⟨rfl, rfl⟩
  · simp only [bind_eq_ok] at h
    obtain ⟨_, _, h⟩ := h
    obtain rfl := Except.ok.inj h
    exact .refl m

theorem authoritative_alike (m : Manager) (aid : String) :
    m.Alike (m.authoritative d fault aid).1 := by
  unfold authoritative
  split
  · exact .refl m
  · split
    · exact .refl m
    · split
      · next h => exact install_alike h
      · exact .refl m

theorem load_alike (m : Manager) (aid : String) : m.Alike (m.load d fault aid).1 := by
  have h := @authoritative_alike d fault m aid
  unfold load
  split
  · exact .refl m
  · split <;> next heq => rw [heq] at h; exact h

theorem commitOverride_alike (m : Manager) (aid : String) :
    m.Alike (m.commitOverride d fault aid).1 := by
  have h := @authoritative_alike d fault m aid
  unfold commitOverride
  split
  · exact load_alike m aid
  · split
    · next heq => rw [heq] at h; exact h
    · next heq =>
      rw [heq] at h
      split
      · exact h
      · split
        · exact h
        · exact ⟨h.blocked, h.commands⟩

/-- The commits of a resume, before it admits again. -/
theorem commits_alike (m : Manager) (ts : List String) :
    m.Alike (each (commitOverride d fault) m ts).1 :=
  each_keeps (P := fun m' => m.Alike m')
    (fun m' t hm' => hm'.trans (commitOverride_alike m' t)) ts (.refl m)

theorem resume_commands (m : Manager) (aid : String) :
    (m.resume d fault aid).1.commands = m.commands := by
  have h := @commits_alike d fault m (m.resumeTargets aid)
  unfold resume
  split <;> next heq => rw [heq] at h; exact h.commands

theorem verify_alike (m : Manager) (aid : String) : m.Alike (m.verify d fault aid).1 := by
  refine each_keeps (P := fun m' => m.Alike m') (fun m' t hm' => ?_) _ (.refl m)
  have h := @load_alike d fault m' t
  unfold verifyTarget
  split
  · next heq => rw [heq] at h; exact hm'.trans h
  · next heq =>
    rw [heq] at h
    split
    · exact hm'.trans h
    · exact hm'.trans ⟨h.blocked, h.commands⟩

theorem applyBundle_alike (m : Manager) (aid : String) (bundle : Option Package) :
    m.Alike (m.applyBundle fault aid bundle).1 := by
  unfold applyBundle
  dsimp only
  split
  · exact ⟨rfl, rfl⟩
  · split
    · exact ⟨rfl, rfl⟩
    · next h =>
      have hsame := install_alike h
      split <;> exact ⟨hsame.blocked, hsame.commands⟩

/-! ## §E Admission blocks -/

/-- Where the blocks of an action that stops traffic end up. -/
theorem hold_blocked (m : Manager) (aid : String) (body : ActionBody) :
    (m.hold fault aid body).1.blocked = m.blocked ∧ (∃ e, (m.hold fault aid body).2 = .error e) ∨
      (m.hold fault aid body).1.blocked = aid :: m.blocked := by
  unfold hold
  split
  · exact Or.inl ⟨rfl, _, rfl⟩
  · refine Or.inr ?_
    have happly := @applyBundle_alike fault (m.block aid) aid body.bundle
    dsimp only
    split
    · rfl
    · split
      · rfl
      · by_cases ha : body.action = .apply
        · simp only [ha, if_true]
          split
          · next heq => rw [heq] at happly; exact happly.blocked
          · next heq =>
            rw [heq] at happly
            split <;> exact happly.blocked
        · simp only [ha, if_false]
          split <;> rfl

/-- A resume that does not fail removes one block, any other action removes none. -/
theorem perform_blocked {m : Manager} {aid target : String} {body : ActionBody}
    (h : target ∈ m.blocked) :
    target ∈ (m.perform d fault aid body).1.blocked ∨
      target = aid ∧ body.action = .resume ∧ (m.perform d fault aid body).2 = .ok () := by
  unfold perform
  split
  · next hbody =>
    have hkeep := (@commits_alike d fault m (m.resumeTargets aid)).blocked
    unfold resume
    split
    · next heq =>
      rw [heq] at hkeep
      exact Or.inl (hkeep ▸ h)
    · next heq =>
      rw [heq] at hkeep
      by_cases ht : target = aid
      · exact Or.inr ⟨ht, hbody, rfl⟩
      · refine Or.inl ?_
        rw [← hkeep] at h
        simp [h, ht]
  · exact Or.inl (by rw [(verify_alike m aid).blocked]; exact h)
  all_goals
    rcases @hold_blocked fault m aid body with ⟨hsame, _⟩ | hnew
    · exact Or.inl (hsame ▸ h)
    · exact Or.inl (hnew ▸ List.mem_cons_of_mem _ h)

/-- **The blocks after an action.** -/
theorem action_blocked {m : Manager} {aid target : String} {body : ActionBody}
    (h : target ∈ m.blocked) :
    target ∈ (m.action d fault aid body).1.blocked ∨
      target = aid ∧ body.action = .resume ∧ (m.action d fault aid body).2 = .ok .accepted := by
  unfold action
  split
  · exact Or.inl h
  · split
    · exact Or.inl h
    · split
      · split
        · exact Or.inl h
        · split <;> exact Or.inl h
      · dsimp only
        have hperform := @perform_blocked d fault
          { m with commands := m.commands.insert body.requestId ⟨aid, body, false⟩ } aid _ body h
        split
        · next heq =>
          rw [heq] at hperform
          rcases hperform with hin | ⟨_, _, hok⟩
          · exact Or.inl hin
          · exact absurd hok (by simp)
        · next heq =>
          rw [heq] at hperform
          rcases hperform with hin | ⟨ht, hresume, _⟩
          · exact Or.inl hin
          · exact Or.inr ⟨ht, hresume, rfl⟩

/-- A quiesce that is carried out and acknowledged blocks its target. -/
theorem quiesce_blocks {m : Manager} {aid : String} {body : ActionBody} {r : Response}
    (hbody : body.action = .quiesce) (hnew : m.commands.lookup body.requestId = none)
    (h : (m.action d fault aid body).2 = .ok r) : aid ∈ (m.action d fault aid body).1.blocked := by
  unfold action at h ⊢
  split at h
  · exact absurd h (by simp)
  · next h1 =>
    rw [if_neg h1]
    split at h
    · exact absurd h (by simp)
    · next h2 =>
      rw [if_neg h2]
      simp only [hnew] at h ⊢
      have hhold := @hold_blocked fault
        { m with commands := m.commands.insert body.requestId ⟨aid, body, false⟩ } aid body
      simp only [perform, hbody] at h ⊢
      split at h
      · exact absurd h (by simp)
      · next heq =>
        simp only [heq] at hhold ⊢
        rcases hhold with ⟨_, e, he⟩ | hnew
        · exact absurd he (by simp)
        · rw [hnew]
          exact List.mem_cons_self

theorem applicationStatus_alike (m : Manager) (aid : String) :
    m.Alike (m.applicationStatus d fault aid).1 := by
  have h := @load_alike d fault m aid
  unfold applicationStatus
  split
  · exact .refl m
  · split <;> next heq => rw [heq] at h; exact h

/-! ## §F The journal -/

theorem hold_commands (m : Manager) (aid : String) (body : ActionBody) :
    (m.hold fault aid body).1.commands = m.commands := by
  unfold hold
  split
  · rfl
  · have happly := @applyBundle_alike fault (m.block aid) aid body.bundle
    dsimp only
    split
    · rfl
    · split
      · rfl
      · by_cases ha : body.action = .apply
        · simp only [ha, if_true]
          split
          · next heq => rw [heq] at happly; exact happly.commands
          · next heq =>
            rw [heq] at happly
            split <;> exact happly.commands
        · simp only [ha, if_false]
          split <;> rfl

theorem perform_commands (m : Manager) (aid : String) (body : ActionBody) :
    (m.perform d fault aid body).1.commands = m.commands := by
  unfold perform
  split
  · exact resume_commands m aid
  · exact (verify_alike m aid).commands
  all_goals exact hold_commands m aid body

/-- A row of the journal after an action was there before, or is of this action. -/
theorem action_rows {m : Manager} {aid key : String} {body : ActionBody} {row : CommandRow}
    (h : (m.action d fault aid body).1.commands.lookup key = some row) :
    m.commands.lookup key = some row ∨ row.target = aid ∧ row.body = body := by
  unfold action at h
  split at h
  · exact Or.inl h
  · split at h
    · exact Or.inl h
    · split at h
      · split at h
        · exact Or.inl h
        · split at h <;> exact Or.inl h
      · have hperform := @perform_commands d fault
          { m with commands := m.commands.insert body.requestId ⟨aid, body, false⟩ } aid body
        dsimp only at h
        split at h
        · next heq =>
          rw [heq] at hperform
          rw [hperform] at h
          rcases Dict.lookup_insert_cases h with ⟨_, rfl⟩ | ⟨_, hold⟩
          · exact Or.inr ⟨rfl, rfl⟩
          · exact Or.inl hold
        · next heq =>
          rw [heq] at hperform
          dsimp only at hperform
          rcases Dict.lookup_insert_cases h with ⟨_, rfl⟩ | ⟨_, hentered⟩
          · exact Or.inr ⟨rfl, rfl⟩
          · rw [hperform] at hentered
            rcases Dict.lookup_insert_cases hentered with ⟨_, rfl⟩ | ⟨_, hold⟩
            · exact Or.inr ⟨rfl, rfl⟩
            · exact Or.inl hold

end Manager

end OpencodeCloud.Platform
