/-
# OpencodeCloud.Sandbox.Staging -- which version is served, staged and verified

The manager serves the version that is staged for an Agent, or else the one of the catalog service. An
apply stages a version and takes the last verification away; a resume commits it, if the catalog service
has the same by then. Here is everything that a step can do to what is staged and what is verified.

Between staging a version and the end of its apply the containers of the Agent may be of either version:
the Agent is **half applied**, and stays so when the apply fails, until another one comes to its end.
-/
import OpencodeCloud.Sandbox.Removal

namespace OpencodeCloud.Sandbox.Backend

open OpencodeCloud.Library World

/-! ## Staging -/

/-- The Agent whose bundle a step stages. -/
def State.stages (s : State) : Event → Option String
  | .step i .ok =>
    match s.tasks[i]? with
    | some (.agent q .drain) => if q.name.isApply then some q.agent else none
    | _ => none
  | _ => none

/-- The Agent whose apply answers with success now. -/
def State.completes (s : State) : Event → Option String
  | .step i x =>
    match s.tasks[i]? with
    | some (.agent q stage) =>
      if q.name.isApply ∧ (advanceAgent s q stage x).map Prod.fst = some (.over true) then some q.agent
      else none
    | _ => none
  | _ => none

section Effects

variable {s : State} {a : String} {es : List Effect}

/-- An Agent stays half applied until its apply is complete. -/
theorem State.mem_halfApplied_applyAll (hes : .applied a ∉ es)
    (h : a ∈ s.halfApplied ∨ ∃ d, .stage a d ∈ es) : a ∈ (s.applyAll es).halfApplied := by
  induction es generalizing s with
  | nil => exact h.resolve_right fun ⟨d, hd⟩ => absurd hd List.not_mem_nil
  | cons e es ih =>
    rw [List.mem_cons, not_or] at hes
    refine ih hes.2 ?_
    rcases h with hold | ⟨d, hd⟩
    · left
      cases e with
      | stage a' d => exact List.mem_cons_of_mem _ hold
      | applied a' => exact List.mem_filter.mpr ⟨hold, by simpa using fun heq => hes.1 (by rw [heq])⟩
      | _ => exact hold
    · rcases List.mem_cons.mp hd with rfl | hd
      · exact .inl List.mem_cons_self
      · exact .inr ⟨d, hd⟩

/-- Only staging makes an Agent half applied. -/
theorem State.halfApplied_of_applyAll (h : a ∈ (s.applyAll es).halfApplied) :
    a ∈ s.halfApplied ∨ ∃ d, .stage a d ∈ es := by
  induction es generalizing s with
  | nil => exact .inl h
  | cons e es ih =>
    rcases ih h with hold | ⟨d, hd⟩
    · cases e with
      | stage a' d =>
        rcases List.mem_cons.mp hold with rfl | hold
        · exact .inr ⟨d, List.mem_cons_self⟩
        · exact .inl hold
      | applied a' => exact .inl (List.mem_filter.mp hold).1
      | _ => exact .inl hold
    · exact .inr ⟨d, List.mem_cons_of_mem _ hd⟩

/-- What is reported as verified was reported before, or has just been verified. -/
theorem State.verified_of_applyAll {v : String} (h : (s.applyAll es).verified.lookup a = some v) :
    (s.verified.lookup a = some v ∧ .unverify a ∉ es) ∨ .verified a v ∈ es := by
  induction es generalizing s with
  | nil => exact .inl ⟨h, List.not_mem_nil⟩
  | cons e es ih =>
    rcases ih h with ⟨hold, hes⟩ | hnew
    · cases e with
      | unverify a' =>
        obtain ⟨hne, hold⟩ := Dict.lookup_erase_cases hold
        exact .inl ⟨hold, by simpa [hes] using hne⟩
      | verified a' v' =>
        rcases Dict.lookup_insert_cases hold with ⟨rfl, rfl⟩ | ⟨-, hold⟩
        · exact .inr List.mem_cons_self
        · exact .inl ⟨hold, by simpa using hes⟩
      | _ => exact .inl ⟨hold, by simpa using hes⟩
    · exact .inr (List.mem_cons_of_mem _ hnew)

theorem State.published_apply (s : State) (e : Effect) : (s.apply e).published = s.published := by
  cases e <;> rfl

/-- What is staged stays so, until it is committed. -/
theorem State.overrides_of_applyAll (hes : ∀ d, .stage a d ∉ es) :
    (s.applyAll es).overrides.lookup a = s.overrides.lookup a ∨
      .commit a ∈ es ∧ (s.applyAll es).overrides.lookup a = none := by
  induction es generalizing s with
  | nil => exact .inl rfl
  | cons e es ih =>
    have hrest := ih (s := s.apply e) fun d hd => hes d (List.mem_cons_of_mem _ hd)
    rcases hrest with hsame | ⟨hcommit, hnone⟩
    · cases e with
      | stage a' d =>
        have hne : a' ≠ a := by
          rintro rfl
          exact hes d List.mem_cons_self
        exact .inl (hsame.trans (AList.lookup_insert_ne hne.symm))
      | commit a' =>
        by_cases heq : a' = a
        · subst heq
          exact .inr ⟨List.mem_cons_self, hsame.trans (AList.lookup_erase _ _)⟩
        · exact .inl (hsame.trans (AList.lookup_erase_ne (Ne.symm heq)))
      | _ => exact .inl hsame
    · exact .inr ⟨List.mem_cons_of_mem _ hcommit, hnone⟩

end Effects

/-- The version that the catalog serves. -/
def State.version (s : State) (a : String) : Option String := (s.load a).map Definition.version

/-! ## What an apply does on its way -/

theorem goRemoving_applied {q : AgentRequest} {p : Removal × List Effect} {a : String}
    (hp : ∀ e ∈ p.2, ∃ o, e = .mark o .missing) (h : .applied a ∈ (goRemoving q p).2) :
    (goRemoving q p).1 = .over true := by
  have hmark : .applied a ∉ p.2 := by
    intro hmem
    obtain ⟨o, heq⟩ := hp _ hmem
    cases heq
  unfold goRemoving at h ⊢
  split at h
  · exact absurd h hmark
  · split <;> rfl
  · exact absurd h hmark

/-- An apply stages its bundle when the Agent is drained, and takes the last verification away. -/
theorem AgentMove.stages {s : State} {q : AgentRequest} {stage : AgentStage} {x : Outcome}
    {n : AgentStage × List Effect} (h : AgentMove s q stage x n) {a : String} {d : Definition}
    (he : .stage a d ∈ n.2) :
    stage = .drain ∧ x = .ok ∧ q.name.isApply = true ∧ q.agent = a ∧ .unverify a ∈ n.2 := by
  cases h.effect he with
  | staged hname =>
    cases h with
    | drained =>
      refine ⟨rfl, rfl, by rw [hname]; rfl, rfl, ?_⟩
      simp [applyAction, hname]
    | refused => simp at he
    | failed => exact absurd he List.not_mem_nil

/-- An apply that is complete answers with success. -/
theorem AgentMove.completes {s : State} {q : AgentRequest} {stage : AgentStage} {x : Outcome}
    {n : AgentStage × List Effect} (h : AgentMove s q stage x n) {a : String}
    (he : .applied a ∈ n.2) : q.name.isApply = true ∧ q.agent = a ∧ n.1 = .over true := by
  cases h.effect he with
  | applied hname =>
    refine ⟨by rw [hname]; rfl, rfl, ?_⟩
    cases h with
    | drained =>
      simp only [applyAction, hname, List.mem_cons, reduceCtorEq, false_or] at he ⊢
      exact goRemoving_applied (fun e he => mem_removeNext he) he
    | removed hm => exact goRemoving_applied (fun e he => Removal.mem_next hm he) he
    | begun =>
      rw [begin_of_removes (by rw [hname]; rfl)] at he
      simp at he
    | refused => simp at he
    | uncommitted => cases mem_commitNext he
    | committed =>
      rcases List.mem_cons.mp he with heq | he
      · cases heq
      · cases mem_commitNext he
    | loaded | skipped | acquired => cases mem_verifyNext he
    | desired | locked | acquires | failed => exact absurd he List.not_mem_nil

namespace State

variable {s s' : State} {e : Event} {a : String}

theorem stages_of_effect {i : Nat} {t t' : Task} {x : Outcome} {es : List Effect}
    (ht : s.tasks[i]? = some t) (hadvance : t.advance s x = some (t', es)) {d : Definition}
    (he : .stage a d ∈ es) : s.stages (.step i x) = some a ∧ .unverify a ∈ es := by
  obtain ⟨q, stage, n, rfl, rfl, hn, rfl⟩ := Task.agent_effect hadvance he rfl
  obtain ⟨rfl, rfl, happly, rfl, hunverify⟩ := (advanceAgent_move hn).stages he
  exact ⟨by simp [stages, ht, happly], hunverify⟩

theorem completes_of_effect {i : Nat} {t t' : Task} {x : Outcome} {es : List Effect}
    (ht : s.tasks[i]? = some t) (hadvance : t.advance s x = some (t', es))
    (he : .applied a ∈ es) : s.completes (.step i x) = some a := by
  obtain ⟨q, stage, n, rfl, rfl, hn, rfl⟩ := Task.agent_effect hadvance he rfl
  obtain ⟨happly, rfl, hover⟩ := (advanceAgent_move hn).completes he
  simp [completes, ht, happly, hn, hover]

/-- A step that stages a bundle has it among its effects. -/
theorem effect_of_stages {i : Nat} {t t' : Task} {x : Outcome} {es : List Effect}
    (ht : s.tasks[i]? = some t) (hadvance : t.advance s x = some (t', es))
    (h : s.stages (.step i x) = some a) : ∃ d, .stage a d ∈ es := by
  unfold stages at h
  split at h
  next heq =>
    cases heq
    rw [ht] at h
    split at h
    next q heq =>
      obtain rfl := Option.some.inj heq
      split at h
      next happly =>
        obtain rfl := Option.some.inj h
        obtain ⟨n, hn, heq⟩ := Option.map_eq_some_iff.mp hadvance
        obtain ⟨rfl, rfl⟩ := Prod.mk.inj heq
        simp only [advanceAgent] at hn
        split at hn
        · obtain rfl := Option.some.inj hn
          unfold applyAction
          cases hname : q.name with
          | apply d => exact ⟨d, List.mem_cons_of_mem _ List.mem_cons_self⟩
          | _ => rw [hname] at happly; cases happly
        · cases hn
      next => cases h
    next => cases h
  next => cases h

@[simp] theorem overrides_conclude (call : Option Call) (x : Outcome) :
    (s.conclude call x).overrides = s.overrides := by
  unfold conclude
  split <;> rfl

@[simp] theorem published_conclude (call : Option Call) (x : Outcome) :
    (s.conclude call x).published = s.published := by
  unfold conclude
  split <;> rfl

@[simp] theorem verified_conclude (call : Option Call) (x : Outcome) :
    (s.conclude call x).verified = s.verified := by
  unfold conclude
  split <;> rfl

@[simp] theorem halfApplied_conclude (call : Option Call) (x : Outcome) :
    (s.conclude call x).halfApplied = s.halfApplied := by
  unfold conclude
  split <;> rfl

/-- Only a task that goes on stages, commits or verifies anything. -/
theorem staging_other (hstep : s.step e = some s') (hother : ∀ i x, e ≠ .step i x) :
    s'.overrides = s.overrides ∧ s'.verified = s.verified ∧ s'.halfApplied = s.halfApplied ∧
      ∀ b, (∀ d, e ≠ .publish b d) → s'.published.lookup b = s.published.lookup b := by
  cases e with
  | step i x => exact absurd rfl (hother i x)
  | late k =>
    simp only [step, Option.bind_eq_bind, Option.bind_eq_some_iff, Option.pure_def] at hstep
    obtain ⟨call, -, hstep⟩ := hstep
    obtain rfl := Option.some.inj hstep
    exact ⟨rfl, rfl, rfl, fun b _ => rfl⟩
  | agentAction q =>
    simp only [step] at hstep
    split at hstep
    · obtain rfl := Option.some.inj hstep
      exact ⟨rfl, rfl, rfl, fun b _ => rfl⟩
    · cases hstep
  | publish a d =>
    obtain rfl := Option.some.inj hstep
    refine ⟨rfl, rfl, rfl, fun b hb => ?_⟩
    have hne : b ≠ a := by
      rintro rfl
      exact hb d rfl
    cases d with
    | none => exact AList.lookup_erase_ne hne
    | some d => exact AList.lookup_insert_ne hne
  | request o kind | sandboxAction o name force | cleanup o run | container o status | sessions o ids
  | statuses o directory group =>
    obtain rfl := Option.some.inj hstep
    exact ⟨rfl, rfl, rfl, fun b _ => rfl⟩

/-- An Agent is half applied from staging on, until the apply is complete. -/
theorem halfApplied_step (hstep : s.step e = some s') (h : a ∈ s.halfApplied ∨ s.stages e = some a)
    (hcompletes : s.completes e ≠ some a) : a ∈ s'.halfApplied := by
  by_cases htask : ∃ i x, e = .step i x
  · obtain ⟨i, x, rfl⟩ := htask
    obtain ⟨t, t', es, ht, hadvance, -, rfl⟩ := step_task hstep
    have hes : .applied a ∉ es := fun he => hcompletes (completes_of_effect ht hadvance he)
    refine mem_halfApplied_applyAll (s := s.conclude t.call x) hes ?_
    rcases h with hold | hstages
    · exact .inl (by rwa [halfApplied_conclude])
    · exact .inr (effect_of_stages ht hadvance hstages)
  · have hother : ∀ i x, e ≠ .step i x := fun i x he => htask ⟨i, x, he⟩
    rw [(staging_other hstep hother).2.2.1]
    refine h.resolve_right fun hstages => ?_
    cases e <;> first | exact absurd rfl (hother _ _) | cases hstages

theorem halfApplied_of_step (hstep : s.step e = some s') (h : a ∈ s'.halfApplied) :
    a ∈ s.halfApplied ∨ s.stages e = some a := by
  by_cases htask : ∃ i x, e = .step i x
  · obtain ⟨i, x, rfl⟩ := htask
    obtain ⟨t, t', es, ht, hadvance, -, rfl⟩ := step_task hstep
    rcases halfApplied_of_applyAll (s := s.conclude t.call x) h with hold | ⟨d, hd⟩
    · exact .inl (by rwa [halfApplied_conclude] at hold)
    · exact .inr (stages_of_effect ht hadvance hd).1
  · rw [(staging_other hstep fun i x he => htask ⟨i, x, he⟩).2.2.1] at h
    exact .inl h

/-- **Which version is served** changes only by staging another one, or when the catalog service has
another one and none is staged. -/
theorem version_step (hstep : s.step e = some s') (hstages : s.stages e ≠ some a)
    (hpublish : ∀ d, e = .publish a d → (s.overrides.lookup a).isSome = true) :
    s'.version a = s.version a := by
  by_cases htask : ∃ i x, e = .step i x
  · obtain ⟨i, x, rfl⟩ := htask
    obtain ⟨t, t', es, ht, hadvance, -, rfl⟩ := step_task hstep
    have hes : ∀ d, .stage a d ∉ es := fun d he => hstages (stages_of_effect ht hadvance he).1
    have hpublished : ((s.conclude t.call x).applyAll es).published = s.published := by
      rw [applyAll_frame State.published published_apply, published_conclude]
    rcases overrides_of_applyAll (s := s.conclude t.call x) hes with hsame | ⟨hcommit, hnone⟩
    · rw [overrides_conclude] at hsame
      simp only [version, load, hpublished, hsame]
    · obtain ⟨q, stage, n, rfl, rfl, hn, rfl⟩ := Task.agent_effect hadvance hcommit rfl
      -- a version is committed only if the catalog service has the same
      cases (advanceAgent_move hn).effect hcommit with
      | committed hstaged hd hversion =>
        simp only [version, load, hpublished, hnone, hstaged, hd, hversion, Option.none_or, Option.some_or,
          Option.map_some]
  · obtain ⟨hoverrides, -, -, hpublished⟩ := staging_other hstep fun i x he => htask ⟨i, x, he⟩
    simp only [version, load, hoverrides]
    by_cases hstaged : (s.overrides.lookup a).isSome = true
    · obtain ⟨d, hd⟩ := Option.isSome_iff_exists.mp hstaged
      simp only [hd, Option.some_or]
    · rw [hpublished a fun d heq => hstaged (hpublish d heq)]

/-- What is reported as verified was verified before, or the verification is concluded now. -/
theorem verified_of_step (hstep : s.step e = some s') {v : String} (h : s'.verified.lookup a = some v) :
    (s.verified.lookup a = some v ∧ s.stages e ≠ some a) ∨
      ∃ (i : Nat) (x : Outcome) (q : AgentRequest) (stage : AgentStage) (n : AgentStage × List Effect),
        e = .step i x ∧ s.tasks[i]? = some (.agent q stage) ∧ AgentMove s q stage x n ∧
          .verified a v ∈ n.2 := by
  by_cases htask : ∃ i x, e = .step i x
  · obtain ⟨i, x, rfl⟩ := htask
    obtain ⟨t, t', es, ht, hadvance, -, rfl⟩ := step_task hstep
    rcases verified_of_applyAll (s := s.conclude t.call x) h with ⟨hold, hes⟩ | hnew
    · rw [verified_conclude] at hold
      refine .inl ⟨hold, fun hstages => ?_⟩
      obtain ⟨d, hd⟩ := effect_of_stages ht hadvance hstages
      exact hes (stages_of_effect ht hadvance hd).2
    · obtain ⟨q, stage, n, rfl, rfl, hn, rfl⟩ := Task.agent_effect hadvance hnew rfl
      exact .inr ⟨i, x, q, stage, n, rfl, ht, advanceAgent_move hn, hnew⟩
  · have hother : ∀ i x, e ≠ .step i x := fun i x he => htask ⟨i, x, he⟩
    rw [(staging_other hstep hother).2.1] at h
    refine .inl ⟨h, fun hstages => ?_⟩
    cases e <;> first | exact absurd rfl (hother _ _) | cases hstages

end State

end OpencodeCloud.Sandbox.Backend
