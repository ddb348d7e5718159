/-
# OpencodeCloud.Sandbox.Mounts -- which bundle the containers mount

A container mounts the bundle directory it was created with, `versions/<version>/agent` at `/opt/agent`. An
acquisition that finds a container looks at its labels and its image, and never at what it mounts; only the
startup does. So that the containers of an Agent all have the version that is staged rests on the apply
having removed every older one.

It need not have: `remounted` is a container that no record names, which the apply passes over and the
verification after it then finds by name. **In a run whose applies are sound, and where an Agent is only
verified after one that came to its end, every container has the verified version**
(`verified_containers_mount_version`).
-/
import OpencodeCloud.Sandbox.Deletion
import OpencodeCloud.Sandbox.Staging

namespace OpencodeCloud.Sandbox.Backend

open OpencodeCloud.Library World

/-! ## What an acquisition holds -/

/-- The versions an acquisition holds: that of its definition, and that of the bundle of its container. -/
def Acquisition.versions : Acquisition → List String
  | .load | .raised | .done _ => []
  | .upsertAgent d | .getRecord d | .getById d _ _ | .getByName d _ | .creating d | .admission d
  | .create d _ | .fail d => [d.version]
  | .start d _ c | .reload d _ c | .ready d _ c | .removeUnfit d c | .startNew d c | .reloadNew d c
  | .readyNew d c | .undo d c => [d.version, c.bundle]
  | .persist made c | .store made c _ => (made.map Definition.version).toList ++ [c.bundle]

theorem Acquisition.versions_found {w : World} {o : Owner} {d : Definition} {r : Option SandboxRecord}
    {c : Container} {v : String} (h : v ∈ (found w o d r c).versions) : v = d.version ∨ v = c.bundle := by
  unfold found at h
  split at h
  · split at h <;> simpa [versions] using h
  · cases h

theorem Acquisition.versions_handler {p : Acquisition} {v : String} (h : v ∈ p.handler.versions) :
    v ∈ p.versions := by
  unfold handler at h
  split at h <;> simp_all [versions]

/-- **What an acquisition comes to hold**, it held before, or it is of the definition it loads, or of a
container that is there. -/
theorem Acquisition.versions_next {w : World} {catalog : Option Definition} {o : Owner}
    {p p' : Acquisition} {x : Outcome} (h : p.next w catalog o x = some p') {v : String}
    (hv : v ∈ p'.versions) :
    v ∈ p.versions ∨ (∃ d, p = .load ∧ x = .ok ∧ catalog = some d ∧ v = d.version) ∨
      ∃ c, w.docker.lookup o = some c ∧ v = c.bundle := by
  unfold next at h
  split at h
  case h_3 =>
    obtain ⟨d, hd, rfl⟩ := Option.map_eq_some_iff.mp h
    exact .inr (.inl ⟨d, rfl, rfl, hd, by simpa [versions] using hv⟩)
  case h_6 =>
    split at h
    next c hfind =>
      obtain rfl := Option.some.inj h
      rcases versions_found hv with rfl | rfl
      · exact .inl (by simp [versions])
      · exact .inr (.inr ⟨c, (find_eq_some.mp hfind).1, rfl⟩)
    next =>
      obtain rfl := Option.some.inj h
      exact .inl hv
  case h_7 =>
    split at h
    next c hc =>
      obtain rfl := Option.some.inj h
      rcases versions_found hv with rfl | rfl
      · exact .inl (by simp [versions])
      · exact .inr (.inr ⟨c, hc, rfl⟩)
    next =>
      obtain rfl := Option.some.inj h
      exact .inl hv
  all_goals repeat' split at h
  -- elsewhere an acquisition only passes on what it holds
  all_goals first
    | contradiction
    | obtain rfl := Option.some.inj h
      refine .inl ?_
      first
        | exact hv
        | exact versions_handler hv
        | cases hv; done
        | simp only [versions, newContainer, Option.map_none, Option.toList_none, List.mem_cons,
            List.not_mem_nil, List.nil_append, or_false] at hv ⊢
          tauto

theorem Acquisition.found_ne_done {w : World} {o : Owner} {d : Definition} {r : Option SandboxRecord}
    {c c' : Container} : found w o d r c ≠ .done c' := by
  unfold found
  split
  · split <;> exact Acquisition.noConfusion
  · exact Acquisition.noConfusion

/-- A container is handed out when it is ready, or its record is written. -/
theorem Acquisition.next_done {w : World} {catalog : Option Definition} {o : Owner} {p : Acquisition}
    {x : Outcome} {c : Container} (h : p.next w catalog o x = some (.done c)) :
    (∃ d r, p = .ready d r c) ∨ ∃ made image, p = .store made c image := by
  have hhandler : p.handler ≠ .done c := by
    unfold handler
    split <;> exact Acquisition.noConfusion
  unfold next at h
  split at h
  case h_3 =>
    obtain ⟨d, -, heq⟩ := Option.map_eq_some_iff.mp h
    cases heq
  all_goals repeat' split at h
  all_goals first
    | contradiction
    | exact absurd (Option.some.inj h) found_ne_done
    | exact absurd (Option.some.inj h) hhandler
    | cases h; done
    | cases h; exact .inl ⟨_, _, rfl⟩
    | cases h; exact .inr ⟨_, _, rfl⟩

theorem Acquisition.versions_done {w : World} {catalog : Option Definition} {o : Owner}
    {p : Acquisition} {x : Outcome} {c : Container} (h : p.next w catalog o x = some (.done c)) :
    c.bundle ∈ p.versions := by
  rcases next_done h with ⟨d, r, rfl⟩ | ⟨made, image, rfl⟩ <;> simp [versions]

theorem Acquisition.versions_of_engaged {p : Acquisition} (h : p.engaged = false) : p.versions = [] := by
  cases p <;> first | rfl | cases h

/-! ## One version for an Agent -/

/-- Every container of an Agent, every acquisition and every creation left over is of one version. -/
structure State.Uniform (s : State) (a version : String) : Prop where
  containers : ∀ o c, s.world.docker.lookup o = some c → o.1 = a → c.bundle = version
  acquisitions : ∀ (i : Nat) (t : Task) o p, s.tasks[i]? = some t → t.acquisition = some (o, p) →
    o.1 = a → ∀ v ∈ p.versions, v = version
  late : ∀ o d l, Call.create o d l ∈ s.late → o.1 = a → d.version = version

/-- An Agent without containers, on whose behalf nothing is on the way, is of any version. -/
theorem State.Still.uniform {s : State} {a : String} (h : s.Still (·.1 = a))
    (hcovered : s.world.Covered (·.1 = a) []) (version : String) : s.Uniform a version := by
  refine ⟨fun o c hc ho => ?_, fun i t o p ht hacq ho v hv => ?_, fun o d l hmem ho => ?_⟩
  · exact absurd (hcovered o c ho hc) List.not_mem_nil
  · rw [Acquisition.versions_of_engaged (h.tasks i t o p ht hacq ho)] at hv
    exact absurd hv List.not_mem_nil
  · exact absurd ho (h.late o d l hmem)

/-- **The version stays**, as long as the catalog gives no other one. -/
theorem State.Uniform.step {s s' : State} {a version : String} (h : s.Uniform a version) {e : Event}
    (hstep : s.step e = some s')
    (hloads : ∀ o d, s.loads e = some o → o.1 = a → s.load a = some d → d.version = version) :
    s'.Uniform a version := by
  refine ⟨fun o c hc ho => ?_, fun j t' o p ht' hacq ho v hv => ?_, fun o d l hlate ho => ?_⟩
  · rcases docker_step hstep hc with ⟨c', hc', heq⟩ | ⟨d, l, hperforms, -, rfl⟩
    · rw [heq]
      exact h.containers o c' hc' ho
    · rcases create_of_performs hperforms with ⟨i, t, ht, hacq⟩ | hlate
      · exact h.acquisitions i t o _ ht hacq ho _ List.mem_cons_self
      · exact h.late o d l hlate ho
  · rcases tasks_step hstep ht' with hold | ⟨-, harrives⟩ | ⟨x, t, es, rfl, ht, hadvance, -⟩
    · exact h.acquisitions j t' o p hold hacq ho v hv
    · cases harrives <;> cases hacq
    · rcases Task.acquisition_advance hadvance hacq with rfl | ⟨p₀, hp₀, hnext⟩
      · exact absurd hv List.not_mem_nil
      · rcases Acquisition.versions_next hnext hv with hold | ⟨d, rfl, rfl, hd, rfl⟩ | ⟨c, hc, rfl⟩
        · exact h.acquisitions j t o p₀ ht hp₀ ho v hold
        · exact hloads o d (by simp [loads, ht, hp₀]) ho (ho ▸ hd)
        · exact h.containers o c hc ho
  · rcases late_step hstep hlate with hold | ⟨i, x, t, -, -, ht, hcall⟩
    · exact h.late o d l hold ho
    · exact h.acquisitions i t o _ ht (Task.acquisition_of_create hcall) ho _ List.mem_cons_self

/-! ## Verifications -/

/-- The verification under way. -/
def AgentStage.verifying : AgentStage → Option Verification
  | .desired w | .userLock w | .acquiring w _ => some w
  | _ => none

def Task.verifying : Task → Option Verification
  | .agent _ stage => stage.verifying
  | _ => none

/-- The Agent whose verification begins now. -/
def State.verifies (s : State) : Event → Option String
  | .step i .ok =>
    match s.tasks[i]? with
    | some (.agent _ (.loading target _)) => some target
    | _ => none
  | _ => none

/-- The verification of one Agent that is concluded by an answer. -/
def AgentStage.concludes (s : State) : AgentStage → Outcome → Option Verification
  | .desired w, .stopped => if w.users = [] then some w else none
  | .acquiring w p, x =>
    match p.next s.world (s.load w.user.1) w.user x with
    | some (.done c) =>
      if w.users = [] then some { w with acquired := (w.user, c) :: w.acquired } else none
    | _ => none
  | _, _ => none

/-- The verification that is concluded now. (One of an Agent without users acquires nothing.) -/
def State.concludes (s : State) : Event → Option Verification
  | .step i x =>
    match s.tasks[i]? with
    | some (.agent _ stage) => stage.concludes s x
    | _ => none
  | _ => none

/-- The container that an acquisition hands out now. -/
def State.hands (s : State) : Event → Option (Owner × Container)
  | .step i x =>
    match (s.tasks[i]?).bind Task.acquisition with
    | some (o, p) =>
      match p.next s.world (s.load o.1) o x with
      | some (.done c) => some (o, c)
      | _ => none
    | none => none
  | _ => none

/-- **The containers mount the version that is verified**: those that a verification has acquired, when it
is concluded, and those that any acquisition hands out, as long as the version is reported as verified. -/
def MountsVersion (s : State) (e : Event) : Prop :=
  (∀ w ∈ s.concludes e, ∀ m ∈ w.acquired, m.2.bundle = w.definition.version) ∧
    ∀ m ∈ s.hands e, ∀ v ∈ s.reportsVerified m.1.1, m.2.bundle = v

/-- What holds of a verification under way. -/
structure State.Verifies (s : State) (w : Verification) : Prop where
  whole : w.target ∉ s.halfApplied
  version : s.version w.target = some w.definition.version
  users : ∀ o ∈ w.user :: w.users, o.1 = w.target
  acquired : ∀ m ∈ w.acquired, m.2.bundle = w.definition.version

/-- A verification goes on: some of its users are done with, and one may have been given a container. -/
structure Verification.Extends (s : State) (stage : AgentStage) (x : Outcome) (w₀ w : Verification) :
    Prop where
  under : stage.verifying = some w₀
  target : w.target = w₀.target
  definition : w.definition = w₀.definition
  users : ∀ o ∈ w.user :: w.users, o ∈ w₀.user :: w₀.users
  acquired : ∀ m ∈ w.acquired, m ∈ w₀.acquired ∨
    ∃ p, stage = .acquiring w₀ p ∧ p.next s.world (s.load w₀.user.1) w₀.user x = some (.done m.2)

theorem verifyNext_verifying {v w : Verification} {users : List Owner}
    (h : (verifyNext v users).1.verifying = some w) :
    ∃ user rest, users = user :: rest ∧ w = { v with user := user, users := rest } := by
  cases users with
  | nil =>
    simp only [verifyNext] at h
    cases htargets : v.targets <;> simp [htargets, loadNext, AgentStage.verifying] at h
  | cons user rest => exact ⟨user, rest, rfl, (Option.some.inj h).symm⟩

theorem goRemoving_verifying {q : AgentRequest} (p : Removal × List Effect) :
    (goRemoving q p).1.verifying = none := by
  unfold goRemoving
  split
  · rfl
  · split <;> rfl
  · rfl

section AgentActions

variable {s : State} {q : AgentRequest}

theorem commitNext_verifying (targets : List String) : (commitNext q targets).1.verifying = none := by
  cases targets <;> rfl

theorem begin_verifying : (begin s q).1.verifying = none := by
  unfold begin
  split
  · exact commitNext_verifying _
  · rfl
  · cases htargets : (if q.agent = "*" then overridden s else [q.agent]) <;> rfl
  · rfl

theorem applyAction_verifying : (applyAction s q).1.verifying = none := by
  unfold applyAction
  split
  · rfl
  · exact goRemoving_verifying _
  · exact goRemoving_verifying _

/-- **How a verification goes on.** It begins with the users of the Agent, or one more user is done with. -/
theorem AgentMove.verifying {stage : AgentStage} {x : Outcome} {n : AgentStage × List Effect}
    {w : Verification} (h : AgentMove s q stage x n) (hw : n.1.verifying = some w) :
    (∃ targets, stage = .loading w.target targets ∧ x = .ok ∧ s.load w.target = some w.definition ∧
        (∀ o ∈ w.user :: w.users, o.1 = w.target) ∧ w.acquired = []) ∨
      ∃ w₀, Verification.Extends s stage x w₀ w := by
  cases h with
  | begun => rw [begin_verifying] at hw; cases hw
  | drained => rw [applyAction_verifying] at hw; cases hw
  | removed => rw [goRemoving_verifying] at hw; cases hw
  | uncommitted | committed => rw [commitNext_verifying] at hw; cases hw
  | loaded hload =>
    obtain ⟨user, rest, husers, rfl⟩ := verifyNext_verifying hw
    refine .inl ⟨_, rfl, rfl, hload, fun o ho => ?_, rfl⟩
    obtain ⟨item, hitem, rfl⟩ := List.mem_map.mp (husers ▸ ho)
    obtain ⟨o, r, -, heq⟩ := Dict.mem_collect.mp hitem
    split at heq
    next hagent =>
      obtain rfl := Option.some.inj heq
      exact hagent.1
    next => cases heq
  | desired =>
    obtain rfl := Option.some.inj hw
    exact .inr ⟨_, rfl, rfl, rfl, fun o ho => ho, fun m hm => .inl hm⟩
  | locked hfree =>
    obtain rfl := Option.some.inj hw
    exact .inr ⟨_, rfl, rfl, rfl, fun o ho => ho, fun m hm => .inl hm⟩
  | acquires hnext =>
    obtain rfl := Option.some.inj hw
    exact .inr ⟨_, rfl, rfl, rfl, fun o ho => ho, fun m hm => .inl hm⟩
  | skipped =>
    obtain ⟨user, rest, husers, rfl⟩ := verifyNext_verifying hw
    exact .inr ⟨_, rfl, rfl, rfl, fun o ho => List.mem_cons_of_mem _ (husers ▸ ho), fun m hm => .inl hm⟩
  | acquired hnext =>
    obtain ⟨user, rest, husers, rfl⟩ := verifyNext_verifying hw
    refine .inr ⟨_, rfl, rfl, rfl, fun o ho => List.mem_cons_of_mem _ (husers ▸ ho), fun m hm => ?_⟩
    rcases List.mem_cons.mp hm with rfl | hm
    · exact .inr ⟨_, rfl, hnext⟩
    · exact .inl hm
  | refused | failed => cases hw

/-- What becomes verified was under verification, or has no users. -/
theorem AgentMove.verified {stage : AgentStage} {x : Outcome} {n : AgentStage × List Effect}
    {a v : String} (h : AgentMove s q stage x n) (he : .verified a v ∈ n.2) :
    (∃ targets, stage = .loading a targets ∧ x = .ok) ∨
      ∃ w, stage.verifying = some w ∧ w.target = a := by
  cases h.effect he with
  | loaded =>
    cases h with
    | loaded => exact .inl ⟨_, rfl, rfl⟩
    | failed => exact absurd he List.not_mem_nil
  | skipped | acquired => exact .inr ⟨_, rfl, rfl⟩

theorem AgentStage.concludes_extends {stage : AgentStage} {x : Outcome} {w : Verification}
    (h : stage.concludes s x = some w) : ∃ w₀, Verification.Extends s stage x w₀ w := by
  unfold concludes at h
  split at h
  · split at h
    · obtain rfl := Option.some.inj h
      exact ⟨_, rfl, rfl, rfl, fun o ho => ho, fun m hm => .inl hm⟩
    · cases h
  · split at h
    next hnext =>
      split at h
      · obtain rfl := Option.some.inj h
        refine ⟨_, rfl, rfl, rfl, fun o ho => ho, fun m hm => ?_⟩
        rcases List.mem_cons.mp hm with rfl | hm
        · exact .inr ⟨_, rfl, hnext⟩
        · exact .inl hm
      · cases h
    next => cases h
  · cases h

end AgentActions

/-- The containers that a verification acquires have its version. -/
theorem Verification.Extends.bundles {s : State} {i : Nat} {q : AgentRequest} {stage : AgentStage}
    {x : Outcome} {w₀ w : Verification} (h : Extends s stage x w₀ w) (hw : s.Verifies w₀)
    (ht : s.tasks[i]? = some (.agent q stage))
    (huniform : s.Uniform w₀.target w₀.definition.version) :
    ∀ m ∈ w.acquired, m.2.bundle = w.definition.version := by
  intro m hm
  rw [h.definition]
  rcases h.acquired m hm with hold | ⟨p, rfl, hnext⟩
  · exact hw.acquired m hold
  · exact huniform.acquisitions i _ w₀.user p ht rfl (hw.users _ List.mem_cons_self) _
      (Acquisition.versions_done hnext)

/-! ## The invariant -/

/-- No container of the Agent, and nothing that could create one or verify it. -/
def State.Unused (s : State) (a : String) : Prop :=
  (s.world.docker.all fun o _ => o.1 != a) = true ∧
    (∀ t ∈ s.tasks, ∀ w ∈ t.acquisition, w.1.1 = a → w.2.engaged = false) ∧
    (∀ c ∈ s.late, ∀ o ∈ c.creates, o.1 ≠ a) ∧ ∀ t ∈ s.tasks, ∀ w ∈ t.verifying, w.target ≠ a

/-- The Agent of which the catalog service gets another version. -/
def Event.publishes : Event → Option String
  | .publish a _ => some a
  | _ => none

instance (s : State) (a : String) : Decidable (s.Unused a) :=
  inferInstanceAs (Decidable (_ ∧ _ ∧ _ ∧ _))

/-- **Sound applies and verifications.** Every apply removes all containers; a bundle is staged while no
verification of the Agent is under way, and one begins only after an apply that came to its end; and the
catalog service has another version only of an Agent that is staged, or not in use. -/
def SoundMount (s : State) (e : Event) : Prop :=
  SoundRemoval AgentAction.isApply s e ∧
    (∀ a ∈ s.stages e, ∀ t ∈ s.tasks, ∀ w ∈ t.verifying, w.target ≠ a) ∧
    (∀ a ∈ s.verifies e, a ∉ s.halfApplied) ∧
    ∀ a ∈ e.publishes, (s.overrides.lookup a).isSome = true ∨ s.Unused a

instance (s : State) (e : Event) : Decidable (SoundMount s e) :=
  inferInstanceAs (Decidable (_ ∧ _ ∧ _ ∧ _))

/-- **The invariant.** An Agent that is not half applied has containers of the served version only, and
only such an Agent is verified or under verification. -/
structure State.Mounted (s : State) : Prop where
  removals : s.Removals AgentAction.isApply
  uniform : ∀ a v, a ∉ s.halfApplied → s.version a = some v → s.Uniform a v
  verified : ∀ a v, s.verified.lookup a = some v → a ∉ s.halfApplied
  verifying : ∀ (i : Nat) (t : Task) w, s.tasks[i]? = some t → t.verifying = some w → s.Verifies w

theorem isApply_removes (name : AgentAction) (h : name.isApply = true) : name.removes = true := by
  cases name <;> first | rfl | cases h

theorem State.Mounted.initial (image : String) : (State.initial image).Mounted :=
  ⟨.initial _ image, fun a v _ hv => by simp [State.version, State.load, State.initial] at hv,
    fun a v hv => by simp [State.initial] at hv, fun i t w ht => by simp [State.initial] at ht⟩


theorem State.drain_of_stages {s : State} {i : Nat} {x : Outcome} {q : AgentRequest} {stage : AgentStage}
    (ht : s.tasks[i]? = some (.agent q stage)) {a : String} (h : s.stages (.step i x) = some a) :
    stage = .drain := by
  unfold stages at h
  split at h
  next heq =>
    obtain ⟨rfl, rfl⟩ := Event.step.inj heq
    rw [ht] at h
    split at h
    next heq =>
      cases heq
      rfl
    next => cases h
  next => cases h

theorem State.Mounted.completed {s s' : State} {e : Event} (h : s.Mounted) (hC : SoundMount s e)
    (hstep : s.step e = some s') {a : String} (ha : s.completes e = some a) : s'.Emptying a [] := by
  unfold completes at ha
  split at ha
  next i x =>
    split at ha
    next q stage ht =>
      split at ha
      next hq =>
        obtain rfl := Option.some.inj ha
        obtain ⟨n, hn, hover⟩ := Option.map_eq_some_iff.mp hq.2
        exact h.removals.succeeded isApply_removes hC.1 hstep ht hq.1 hn hover
      next => cases ha
    next => cases ha
  next => cases ha

/-- An Agent that is not used is of any version, and stays so when the catalog service has another one. -/
theorem State.Unused.uniform {s s' : State} {a : String} {d : Option Definition} (h : s.Unused a)
    (hstep : s.step (.publish a d) = some s') (version : String) : s'.Uniform a version := by
  obtain ⟨hdocker, htasks, hlate, -⟩ := h
  have hstill : s.Still (·.1 = a) :=
    ⟨fun i t o p ht hacq ho => htasks t (List.mem_of_getElem? ht) (o, p) hacq ho,
      fun o d l hmem => hlate _ hmem o rfl⟩
  have hcovered : s.world.Covered (·.1 = a) [] := by
    intro o c ho hc
    have := Dict.all_eq_true.mp hdocker o c hc
    simp [ho] at this
  exact (hstill.step hstep fun o ho => by cases ho).uniform (hstill.covered hstep hcovered) version

/-- Which version is served stays while the Agent is not half applied and something is verified or in use. -/
theorem SoundMount.publish {s : State} {e : Event} (hC : SoundMount s e) {a : String}
    (hused : ¬ s.Unused a) (d : Option Definition) (he : e = .publish a d) :
    (s.overrides.lookup a).isSome = true :=
  (hC.2.2.2 a (by rw [he]; rfl)).resolve_right hused

theorem State.Verifies.not_unused {s : State} {i : Nat} {t : Task} {w : Verification}
    (ht : s.tasks[i]? = some t) (hw : t.verifying = some w) : ¬ s.Unused w.target :=
  fun h => h.2.2.2 t (List.mem_of_getElem? ht) w hw rfl

/-- A verification under way keeps the version it is for. -/
theorem State.Verifies.step {s s' : State} {e : Event} {i : Nat} {t : Task} {w : Verification}
    (h : s.Verifies w) (ht : s.tasks[i]? = some t) (hw : t.verifying = some w) (hC : SoundMount s e)
    (hstep : s.step e = some s') : s'.Verifies w := by
  have hstages : s.stages e ≠ some w.target :=
    fun hstages => hC.2.1 w.target hstages t (List.mem_of_getElem? ht) w hw rfl
  refine ⟨fun hhalf => ?_, ?_, h.users, h.acquired⟩
  · rcases halfApplied_of_step hstep hhalf with hold | hnew
    · exact h.whole hold
    · exact hstages hnew
  · rw [version_step hstep hstages (hC.publish (not_unused ht hw)), h.version]

theorem State.Mounted.uniform_step {s s' : State} {e : Event} (h : s.Mounted) (hC : SoundMount s e)
    (hstep : s.step e = some s') (a v : String) (hwhole : a ∉ s'.halfApplied)
    (hversion : s'.version a = some v) : s'.Uniform a v := by
  by_cases hcompletes : s.completes e = some a
  · have hempty := h.completed hC hstep hcompletes
    exact hempty.still.uniform hempty.covered v
  · have hbefore : a ∉ s.halfApplied := fun hhalf =>
      hwhole (halfApplied_step hstep (.inl hhalf) hcompletes)
    have hstages : s.stages e ≠ some a := fun hstages =>
      hwhole (halfApplied_step hstep (.inr hstages) hcompletes)
    by_cases hunused : e.publishes = some a ∧ s.Unused a
    · obtain ⟨hpublishes, hunused⟩ := hunused
      cases e with
      | publish b d =>
        obtain rfl := Option.some.inj hpublishes
        exact hunused.uniform hstep v
      | _ => cases hpublishes
    · have hsame := version_step hstep hstages fun d he =>
        (hC.2.2.2 a (by rw [he]; rfl)).resolve_right fun hu => hunused ⟨by rw [he]; rfl, hu⟩
      rw [hversion] at hsame
      refine (h.uniform a v hbefore hsame.symm).step hstep fun o d _ _ hd => ?_
      simp only [version, hd, Option.map_some, Option.some.injEq] at hsame
      exact hsame.symm

/-- A verification that begins or goes on. -/
theorem State.Mounted.verifies {s s' : State} {i : Nat} {x : Outcome} {q : AgentRequest}
    {stage : AgentStage} {n : AgentStage × List Effect} {w : Verification} (h : s.Mounted)
    (hC : SoundMount s (.step i x)) (hstep : s.step (.step i x) = some s')
    (ht : s.tasks[i]? = some (.agent q stage)) (hmove : AgentMove s q stage x n)
    (hw : n.1.verifying = some w) : s'.Verifies w := by
  rcases hmove.verifying hw with ⟨targets, rfl, rfl, hload, husers, hacquired⟩ | ⟨w₀, hext⟩
  · have hwhole : w.target ∉ s.halfApplied := hC.2.2.1 w.target (by simp [State.verifies, ht])
    have hstages : s.stages (.step i .ok) ≠ some w.target := by simp [stages, ht]
    refine ⟨fun hhalf => ?_, ?_, husers, by simp [hacquired]⟩
    · exact (halfApplied_of_step hstep hhalf).elim hwhole hstages
    · rw [version_step hstep hstages (fun d he => by cases he), State.version, hload]
      rfl
  · have hunder : (Task.agent q stage).verifying = some w₀ := hext.under
    have hw₀ := h.verifying i _ w₀ ht hunder
    have hafter := hw₀.step ht hunder hC hstep
    have hbundles := hext.bundles hw₀ ht (h.uniform _ _ hw₀.whole hw₀.version)
    refine ⟨hext.target ▸ hafter.whole, ?_, fun o ho => ?_, hbundles⟩
    · rw [hext.target, hext.definition]
      exact hafter.version
    · rw [hext.target]
      exact hafter.users o (hext.users o ho)

theorem State.Mounted.step {s s' : State} {e : Event} (h : s.Mounted) (hC : SoundMount s e)
    (hstep : s.step e = some s') : s'.Mounted := by
  refine ⟨h.removals.step isApply_removes hC.1 hstep, h.uniform_step hC hstep, ?_, ?_⟩
  · intro a v hv hhalf
    rcases verified_of_step hstep hv with ⟨hold, hstages⟩ | ⟨i, x, q, stage, n, rfl, ht, hmove, hmem⟩
    · exact (halfApplied_of_step hstep hhalf).elim (h.verified a v hold) hstages
    · have hbefore : a ∉ s.halfApplied ∧ stage ≠ .drain := by
        rcases hmove.verified hmem with ⟨targets, rfl, rfl⟩ | ⟨w, hw, rfl⟩
        · exact ⟨hC.2.2.1 a (by simp [State.verifies, ht]), AgentStage.noConfusion⟩
        · refine ⟨(h.verifying i _ w ht hw).whole, ?_⟩
          rintro rfl
          cases hw
      exact (halfApplied_of_step hstep hhalf).elim hbefore.1 fun hstages =>
        hbefore.2 (drain_of_stages ht hstages)
  · intro j t' w ht' hw
    rcases tasks_step hstep ht' with hold | ⟨-, harrives⟩ | ⟨x, t, es, rfl, ht, hadvance, -⟩
    · exact (h.verifying j t' w hold hw).step hold hw hC hstep
    · cases harrives <;> cases hw
    · cases t' with
      | agent q stage =>
        obtain ⟨stage₀, rfl, hmove⟩ := Task.agent_of_advance hadvance
        exact h.verifies hC hstep ht hmove hw
      | request | sandbox | cleanup => cases hw

/-! ## Every run -/

theorem State.version_of_reportsVerified {s : State} {a v : String} (h : s.reportsVerified a = some v) :
    s.version a = some v ∧ s.verified.lookup a = some v := by
  unfold reportsVerified at h
  obtain ⟨d, hd, h⟩ := Option.bind_eq_some_iff.mp h
  split at h
  next hverified =>
    obtain rfl := Option.some.inj h
    exact ⟨by simp [version, hd], hverified⟩
  next => cases h

/-- **One step hands out and verifies containers of the right version.** -/
theorem State.Mounted.mountsVersion {s : State} {e : Event} (h : s.Mounted) : MountsVersion s e := by
  constructor
  · intro w hw
    unfold concludes at hw
    split at hw
    next i x =>
      split at hw
      next q stage ht =>
        obtain ⟨w₀, hext⟩ := AgentStage.concludes_extends hw
        have hw₀ := h.verifying i _ w₀ ht hext.under
        exact hext.bundles hw₀ ht (h.uniform _ _ hw₀.whole hw₀.version)
      next => cases hw
    next => cases hw
  · intro m hm v hv
    obtain ⟨hversion, hverified⟩ := version_of_reportsVerified hv
    have huniform := h.uniform m.1.1 v (h.verified m.1.1 v hverified) hversion
    unfold hands at hm
    split at hm
    next i x =>
      split at hm
      next o p hacq =>
        obtain ⟨t, ht, hacq⟩ := Option.bind_eq_some_iff.mp hacq
        split at hm
        next c hnext =>
          obtain rfl := Option.some.inj hm
          exact huniform.acquisitions i t o p ht hacq rfl _ (Acquisition.versions_done hnext)
        next => cases hm
      next => cases hm
    next => cases hm

/-- **What is verified mounts the version that is reported.** In a run whose applies and verifications are
all sound, every container that a verification has acquired, and every container handed out while the
version stays staged or active, mounts the bundle of that version. -/
theorem verified_containers_mount_version {image : String} {is : List Event}
    (hC : manager.Along SoundMount (.initial image) is) :
    manager.Along MountsVersion (.initial image) is :=
  manager.along_of_invariant (I := State.Mounted) (fun _ _ _ h hC hstep => h.step hC hstep)
    (fun _ _ h _ => h.mountsVersion) (.initial image) hC

/-- No record names the container; version 2 is applied, and verified with it. -/
def remounted : List Event :=
  unrecorded ++ [.agentAction ⟨"a", .apply ⟨"2", "image"⟩, none⟩] ++ answers 1 [.ok, .ok] ++
  [.agentAction ⟨"a", .verify, none⟩] ++
  answers 2 [.ok, .ok, .ok, .ok, .ok, .ok, .ok, .ok, .ok, .ok, .ok, .ok]

/-- The verification acquires a container of another version. -/
def Verification.mixed (w : Verification) : Bool :=
  w.acquired.any fun m => m.2.bundle != w.definition.version

theorem verified_container_mounts_earlier_version :
    ¬ ∀ image is, manager.Along MountsVersion (.initial image) is := by
  intro hall
  have hbad : ((manager.run (.initial "image") remounted).all fun s =>
      !(s.concludes (.step 2 .ok)).any Verification.mixed) = false := by decide +kernel
  obtain ⟨s, hrun, hs⟩ := manager.exists_run_of_all_eq_false hbad
  simp only [Bool.not_eq_false', Option.any_eq_true, Verification.mixed, List.any_eq_true,
    bne_iff_ne] at hs
  obtain ⟨w, hw, m, hm, hne⟩ := hs
  have hmounts := manager.along_suffix (hall "image" (remounted ++ [.step 2 .ok])) hrun
  exact hne (hmounts.1.1 w hw m hm)

/-- The sandbox is served, and given back, before version 2 is applied and verified. -/
def reapplied : List Event :=
  [.publish "a" (some ⟨"1", "image"⟩)] ++ creating 0 ("a", "u") ++
  answers 0 [.ok, .ok, .ok, .ok, .ok, .ok, .ok] ++
  [.agentAction ⟨"a", .apply ⟨"2", "image"⟩, none⟩] ++ answers 1 [.ok, .ok, .ok, .ok] ++
  [.agentAction ⟨"a", .verify, none⟩] ++
  answers 2 [.ok, .ok, .ok, .ok, .ok, .ok, .ok, .ok, .ok, .ok, .resources none, .ok, .ok, .ok, .ok, .ok]

theorem reapplied_containers_mount_version :
    ∃ s w, manager.run (.initial "image") reapplied = some s ∧ s.concludes (.step 2 .ok) = some w ∧
      w.acquired ≠ [] ∧ ∀ m ∈ w.acquired, m.2.bundle = w.definition.version := by
  have hgood : ((manager.run (.initial "image") reapplied).all fun s =>
      !(s.concludes (.step 2 .ok)).any fun w => w.acquired != []) = false := by decide +kernel
  obtain ⟨s, hrun, hs⟩ := manager.exists_run_of_all_eq_false hgood
  simp only [Bool.not_eq_false', Option.any_eq_true, bne_iff_ne] at hs
  obtain ⟨w, hw, hne⟩ := hs
  have hsound : manager.Along SoundMount (.initial "image") (reapplied ++ [.step 2 .ok]) := by
    decide +kernel
  have hmounts := manager.along_suffix (verified_containers_mount_version hsound) hrun
  exact ⟨s, w, hrun, hw, hne, hmounts.1.1 w hw⟩

end OpencodeCloud.Sandbox.Backend
