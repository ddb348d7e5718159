/-
# OpencodeCloud.Catalog.Bindings -- an update of the bindings and the draft it has read

`PUT /agents/{id}/bindings` reads the draft of the agent, changes the fields that it names, and saves the
whole draft in a transaction of its own. In between, anything may happen to the catalog. So the saved draft
is the stored one with the named fields changed exactly if the other fields are still as they were read
(`bindings_change_named_fields`). An update that carries the revision it has read at is refused where this
could fail; without one, a draft that was saved in between is lost (`concurrent_draft_lost`).
-/
import OpencodeCloud.Catalog.References

namespace OpencodeCloud.Catalog.Bindings

open OpencodeCloud.Library

/-! ## §A The service with its updates -/

inductive Phase where
  | arrived
  /-- the draft was read, at a revision -/
  | read (draft : AgentConfig) (revision : Nat)
  | saved
  | failed (e : Failure)

/-- One request. -/
structure Update where
  agentId : String
  write : BindingWrite
  revision : Option Nat
  phase : Phase

structure State where
  service : Service
  updates : List Update

inductive Event where
  | put (agentId : String) (write : BindingWrite) (revision : Option Nat)
  /-- `store.read()` -/
  | read (i : Nat)
  /-- `store.save_agent(agent_id, cfg, payload.get("revision"))` -/
  | save (i : Nat)
  /-- any other request -/
  | other (c : Command)

/-- The updates are requests of their own here. -/
def isBindings : Command → Bool
  | .saveBindings .. => true
  | _ => false

namespace State

def start (service : Service) : State := ⟨service, []⟩

def enter (s : State) (i : Nat) (u : Update) (phase : Phase) : State :=
  { s with updates := s.updates.set i { u with phase := phase } }

/-- The stored draft of an agent. -/
def draft (s : State) (aid : String) : Option AgentConfig :=
  (s.service.store.data.agents.lookup aid).map (·.draft)

def step (env : Service.Environment) (s : State) : Event → Option State
  | .put aid write revision => some { s with updates := s.updates ++ [⟨aid, write, revision, .arrived⟩] }
  | .read i => do
    let u ← s.updates[i]?
    match u.phase with
    | .arrived =>
      match s.draft u.agentId with
      | none => some (s.enter i u (.failed ⟨404, "Agent not found"⟩))
      | some draft => some (s.enter i u (.read draft s.service.store.revision))
    | _ => none
  | .save i => do
    let u ← s.updates[i]?
    match u.phase with
    | .read draft _ =>
      match s.service.handle env (.saveBindings u.agentId draft u.write u.revision) with
      | .error e => some (s.enter i u (.failed e))
      | .ok service => some { s.enter i u .saved with service := service }
    | _ => none
  | .other c => do
    if isBindings c then none
    else
      let service ← s.service.step env c
      return { s with service := service }

end State

/-- The catalog service and the updates under way. -/
def bindings (env : Service.Environment) : Machine State Event := ⟨State.step env⟩

/-! ## §B The fields of an update -/

/-- A draft without the fields that the update names. -/
def others (w : BindingWrite) (draft : AgentConfig) : AgentConfig :=
  { draft with
    bindings := if w.bindings.isSome then [] else draft.bindings
    allowedModelIds := if w.allowedModelIds.isSome then [] else draft.allowedModelIds
    defaultModelId := if w.defaultModelId.isSome then "" else draft.defaultModelId
    smallModelId := if w.smallModelId.isSome then none else draft.smallModelId }

/-- The named fields of the result come from the update, the others from the draft. -/
theorem apply_eq_iff {w : BindingWrite} {a b : AgentConfig} :
    w.apply a = w.apply b ↔ others w a = others w b := by
  obtain ⟨bindings, allowed, default, small⟩ := w
  simp only [BindingWrite.apply, others, AgentConfig.mk.injEq]
  cases bindings <;> cases allowed <;> cases default <;> cases small <;> simp

/-! ## §C What stays true of an agent -/

/-- The agent is there, or its id was retired. -/
def Known (d : Document) (aid : String) : Prop :=
  (d.agents.lookup aid).isSome = true ∨ (d.agentTombstones.lookup aid).isSome = true

theorem Known.insert {d : Document} {aid i : String} {a : Agent} (h : Known d aid) :
    Known { d with agents := d.agents.insert i a } aid := by
  refine h.imp_left fun ha => ?_
  by_cases hi : aid = i
  · rw [hi, AList.lookup_insert]
    rfl
  · rw [AList.lookup_insert_ne hi]
    exact ha

theorem Known.put {d d' : Document} {aid : String} (h : Put d d') (hk : Known d aid) : Known d' aid := by
  cases h with
  | model | resource | template => exact hk
  | draft i cfg _ _ =>
    unfold putDraft
    split <;> exact hk.insert
  | lifecycle i a l _ => exact hk.insert

theorem Known.drop {d d' : Document} {aid : String} (h : Drop d d') (hk : Known d aid) : Known d' aid := by
  cases h with
  | model | resource => exact hk
  | agent i t =>
    by_cases hi : aid = i
    · -- the deletion leaves a tombstone
      refine Or.inr ?_
      change ((d.agentTombstones.insert i t).lookup aid).isSome = true
      rw [hi, AList.lookup_insert]
      rfl
    · refine hk.imp (fun ha => ?_) fun ht => ?_
      · change ((d.agents.erase i).lookup aid).isSome = true
        rw [AList.lookup_erase_ne hi]
        exact ha
      · change ((d.agentTombstones.insert i t).lookup aid).isSome = true
        rw [AList.lookup_insert_ne hi]
        exact ht

/-- No request lets an agent disappear without a trace. -/
theorem Known.effect {env : Service.Environment} {d d' : Document} {c : Command} {aid : String}
    (h : Effect env d c d') (hk : Known d aid) : Known d' aid := by
  cases h with
  | writes _ hw =>
    refine hw.keep (I := fun d => Known d aid) (fun _ _ hw hd => ?_) hk
    exact hw.elim (fun hp => hd.put hp) fun hd' => hd.drop hd'
  | prepared | refused => exact hk
  | committed hc =>
    cases hc with
    | again | models => exact hk
    | agent => exact hk.insert

/-- **Every edit counts**: a request that changes the catalog row raises its revision. -/
theorem handle_revision {env : Service.Environment} {s t : Service} {c : Command}
    (h : s.handle env c = .ok t) : t.store = s.store ∨ t.store.revision = s.store.revision + 1 := by
  have editing : ∀ {expected body}, s.editing expected body = .ok t →
      t.store.revision = s.store.revision + 1 := by
    intro expected body h
    simp only [Service.editing, Store.edit, bind_eq_ok] at h
    obtain ⟨⟨store, _⟩, ⟨_, _, ⟨d, _⟩, _, hstore⟩, h⟩ := h
    obtain ⟨rfl, -⟩ := Prod.mk.inj (Except.ok.inj hstore)
    obtain rfl := Except.ok.inj h
    rfl
  cases c with
  | importPreview | importExpire =>
    obtain rfl := Except.ok.inj h
    exact Or.inl rfl
  | importCommit id selections ids =>
    simp only [Service.handle, Service.commitPreview] at h
    split at h
    · cases h
    · split at h
      · simp only [bind_eq_ok] at h
        obtain ⟨_, _, h⟩ := h
        obtain rfl := Except.ok.inj h
        exact Or.inl rfl
      · simp only [bind_eq_ok] at h
        obtain ⟨_, _, d, _, h⟩ := h
        obtain rfl := Except.ok.inj h
        exact Or.inr rfl
  | prepare rid request =>
    simp only [Service.handle, bind_eq_ok, Prod.exists] at h
    obtain ⟨store, r, hprepare, h⟩ := h
    obtain rfl := Except.ok.inj h
    exact Or.inr (by rw [(prepare_eq_ok hprepare).2.2.2])
  | commit rid =>
    simp only [Service.handle, bind_eq_ok, Prod.exists] at h
    obtain ⟨store, n, hcommit, h⟩ := h
    obtain rfl := Except.ok.inj h
    exact Or.inr (commit_eq_ok hcommit).2
  | _ => exact Or.inr (editing h)

/-- A saved draft is the one that was sent. -/
theorem saveAgent_draft {aid : String} {value : AgentConfig} {d d' : Document}
    (h : saveAgent aid value d = .ok d') : (d'.agents.lookup aid).map (·.draft) = some value ∧
      d.agentTombstones.lookup aid = none := by
  simp only [saveAgent, bind_eq_ok, refuse_eq_ok, Option.isSome_eq_false_iff,
    Option.isNone_iff_eq_none] at h
  obtain ⟨_, _, _, hliving, _, _, _, _, h⟩ := h
  obtain rfl := Except.ok.inj h
  refine ⟨?_, hliving⟩
  unfold putDraft
  split <;> simp [newAgent]

theorem saveAgent_others {aid i : String} {value : AgentConfig} {d d' : Document}
    (h : saveAgent aid value d = .ok d') (hne : i ≠ aid) : d'.agents.lookup i = d.agents.lookup i := by
  simp only [saveAgent, bind_eq_ok] at h
  obtain ⟨_, _, _, _, _, _, _, _, h⟩ := h
  obtain rfl := Except.ok.inj h
  unfold putDraft
  split <;> exact AList.lookup_insert_ne hne


/-! ## §D Updates and other writers -/

variable {env : Service.Environment}

/-- What is known of an update that has read its draft. -/
structure Reading (s : State) (aid : String) (draft : AgentConfig) (revision : Nat) : Prop where
  known : Known s.service.store.data aid
  past : revision ≤ s.service.store.revision
  /-- nothing was written since -/
  current : revision = s.service.store.revision → s.draft aid = some draft

/-- The updates have read what was stored. -/
def Sound (s : State) : Prop :=
  ∀ u ∈ s.updates, ∀ draft revision, u.phase = .read draft revision → Reading s u.agentId draft revision

theorem Reading.moves {s s' : State} {aid : String} {draft : AgentConfig} {revision : Nat}
    (h : Reading s aid draft revision) (hknown : Known s'.service.store.data aid)
    (hmoved : s'.service.store = s.service.store ∨
      s'.service.store.revision = s.service.store.revision + 1) : Reading s' aid draft revision := by
  have hpast := h.past
  rcases hmoved with hsame | hnext
  · refine ⟨hknown, by rw [hsame]; exact hpast, fun hrevision => ?_⟩
    rw [State.draft, hsame]
    exact h.current (by rw [hrevision, hsame])
  · exact ⟨hknown, by omega, fun hrevision => by omega⟩

/-- The updates of a state after one of them has gone on. -/
theorem mem_enter {s : State} {i : Nat} {u v : Update} {phase : Phase}
    (h : v ∈ (s.enter i u phase).updates) : v ∈ s.updates ∨ v = { u with phase := phase } :=
  List.mem_or_eq_of_mem_set h

/-- An update goes on without reading. -/
theorem Sound.enter {s : State} (h : Sound s) {i : Nat} {u : Update} {phase : Phase}
    (hphase : ∀ draft revision, phase = .read draft revision → Reading s u.agentId draft revision) :
    Sound (s.enter i u phase) := by
  intro v hv draft revision hread
  rcases mem_enter hv with hold | rfl
  · have hr := h v hold draft revision hread
    exact ⟨hr.known, hr.past, hr.current⟩
  · have hr := hphase draft revision hread
    exact ⟨hr.known, hr.past, hr.current⟩

/-- The service goes on. -/
theorem Sound.service {s : State} (h : Sound s) {service : Service} {c : Command}
    (heffect : Effect env s.service.store.data c service.store.data)
    (hmoved : service.store = s.service.store ∨
      service.store.revision = s.service.store.revision + 1) : Sound { s with service := service } := by
  intro u hu draft revision hread
  have hr := h u hu draft revision hread
  exact hr.moves (hr.known.effect heffect) hmoved

theorem service_moved {s t : Service} {c : Command} (h : s.step env c = some t) :
    Effect env s.store.data c t.store.data ∧
      (t.store = s.store ∨ t.store.revision = s.store.revision + 1) := by
  refine ⟨step_effect h, ?_⟩
  simp only [Service.step] at h
  split at h
  · split at h
    · next t' hhandle =>
      obtain rfl := Option.some.inj h
      exact handle_revision hhandle
    · obtain rfl := Option.some.inj h
      exact Or.inl rfl
  · cases h

/-- An update that is saved is a request to the service. -/
theorem save_step {s t : Service} {aid : String} {draft : AgentConfig} {w : BindingWrite}
    {revision : Option Nat} (h : s.handle env (.saveBindings aid draft w revision) = .ok t) :
    s.step env (.saveBindings aid draft w revision) = some t := by
  simp [Service.step, Command.fresh, h]

theorem Sound.step {s s' : State} {e : Event} (h : Sound s) (hstep : (bindings env).step s e = some s') :
    Sound s' := by
  cases e with
  | put aid write revision =>
    obtain rfl := Option.some.inj hstep
    intro u hu draft rev hread
    rcases List.mem_append.mp hu with hu | hu
    · have hr := h u hu draft rev hread
      exact ⟨hr.known, hr.past, hr.current⟩
    · rw [List.mem_singleton.mp hu] at hread
      cases hread
  | read i =>
    simp only [bindings, State.step, Option.bind_eq_bind, Option.bind_eq_some_iff] at hstep
    obtain ⟨u, hu, hstep⟩ := hstep
    split at hstep
    · split at hstep
      · obtain rfl := Option.some.inj hstep
        exact h.enter nofun
      · next draft hdraft =>
        obtain rfl := Option.some.inj hstep
        refine h.enter fun draft' revision' hread => ?_
        injection hread with hd hr
        subst hd hr
        obtain ⟨a, ha, _⟩ := Option.map_eq_some_iff.mp hdraft
        exact ⟨Or.inl (by rw [ha]; rfl), le_refl _, fun _ => hdraft⟩
    · cases hstep
  | save i =>
    simp only [bindings, State.step, Option.bind_eq_bind, Option.bind_eq_some_iff] at hstep
    obtain ⟨u, hu, hstep⟩ := hstep
    split at hstep
    · split at hstep
      · obtain rfl := Option.some.inj hstep
        exact h.enter nofun
      · next service hhandle =>
        obtain rfl := Option.some.inj hstep
        obtain ⟨heffect, hmoved⟩ := service_moved (save_step hhandle)
        have hsaved : Sound (s.enter i u .saved) := h.enter nofun
        exact hsaved.service heffect hmoved
    · cases hstep
  | other c =>
    simp only [bindings, State.step] at hstep
    split at hstep
    · cases hstep
    · simp only [Option.bind_eq_bind, Option.bind_eq_some_iff] at hstep
      obtain ⟨service, hservice, hstep⟩ := hstep
      obtain rfl := Option.some.inj hstep
      obtain ⟨heffect, hmoved⟩ := service_moved hservice
      exact h.service heffect hmoved

theorem Sound.start (service : Service) : Sound (State.start service) := by
  intro u hu
  cases hu

/-- **An update changes the fields it names**, in the draft that is stored when it takes effect, exactly if
the other fields are then as it has read them. They are if it carries a revision that was there when it read. -/
theorem bindings_change_named_fields {service : Service} {es : List Event} {s s' : State} {i : Nat}
    {u v : Update} (hrun : (bindings env).run (State.start service) es = some s)
    (hstep : (bindings env).step s (.save i) = some s') (hu : s.updates[i]? = some u)
    (hv : s'.updates[i]? = some v) (hsaved : v.phase = .saved) :
    ∃ draft revision before, u.phase = .read draft revision ∧ s.draft u.agentId = some before ∧
      (s'.draft u.agentId = some (u.write.apply before) ↔ others u.write draft = others u.write before) ∧
      (∀ r, u.revision = some r → r ≤ revision → s'.draft u.agentId = some (u.write.apply before)) ∧
      ∀ aid, aid ≠ u.agentId → s'.draft aid = s.draft aid := by
  have hs : Sound s :=
    (bindings env).run_always (I := Sound) (fun _ _ _ h hstep => h.step hstep) (Sound.start service) hrun
  have hlt := (List.getElem?_eq_some_iff.mp hu).1
  have hset : ∀ phase, (s.updates.set i { u with phase := phase })[i]? = some { u with phase := phase } :=
    fun phase => List.getElem?_set_self hlt
  simp only [bindings, State.step, hu, Option.bind_eq_bind, Option.bind_some] at hstep
  split at hstep
  · next draft revision hread =>
    split at hstep
    · obtain rfl := Option.some.inj hstep
      obtain rfl := Option.some.inj ((hset _).symm.trans hv)
      cases hsaved
    · next service' hhandle =>
      obtain rfl := Option.some.inj hstep
      have hreading := hs u (List.mem_of_getElem? hu) draft revision hread
      have hbody := editing_eq_ok hhandle
      obtain ⟨hafter, hliving⟩ := saveAgent_draft hbody
      -- the agent is there: its id was not retired
      have hthere := hreading.known.resolve_right (by simp [hliving])
      obtain ⟨a, ha⟩ := Option.isSome_iff_exists.mp hthere
      have hbefore : s.draft u.agentId = some a.draft := by rw [State.draft, ha]; rfl
      have hiff : some (u.write.apply draft) = some (u.write.apply a.draft) ↔
          others u.write draft = others u.write a.draft := by
        rw [Option.some.injEq]
        exact apply_eq_iff
      refine ⟨draft, revision, a.draft, hread, hbefore, ?_, fun r hr hle => ?_, fun aid hne => ?_⟩
      · change (service'.store.data.agents.lookup u.agentId).map (·.draft) = _ ↔ _
        rw [hafter]
        exact hiff
      · change (service'.store.data.agents.lookup u.agentId).map (·.draft) = _
        rw [hafter]
        -- the transaction compares the revision with the stored one
        have hexpected : r = s.service.store.revision := by
          simp only [Service.handle, Service.editing, Store.edit, bind_eq_ok, refuse_eq_ok, hr,
            Option.any_some, bne_eq_false_iff_eq] at hhandle
          obtain ⟨_, ⟨_, hrev, _⟩, _⟩ := hhandle
          exact hrev
        have hpast := hreading.past
        have hcurrent := hreading.current (by omega)
        rw [hbefore, Option.some.injEq] at hcurrent
        rw [hcurrent]
      · change (service'.store.data.agents.lookup aid).map _ = (s.service.store.data.agents.lookup aid).map _
        rw [saveAgent_others hbody hne]
  · cases hstep

/-! ### An update beside a save of the whole draft -/

/-- The small model of the agent is set. -/
def smallModel : BindingWrite := ⟨none, none, none, some (some "m1")⟩

/-- The update reads, `between` happens, and the update is saved. -/
def updateRun (revision : Option Nat) (between : List Event) : List Event :=
  publishedModels.map .other ++ [.put "a" smallModel revision, .read 0] ++ between

def sampleStart : State := State.start (Service.initial "" "")

/-- The state before the update is saved, its draft, and the draft afterwards. -/
def outcome (revision : Option Nat) (between : List Event) : Option (AgentConfig × AgentConfig × Bool) := do
  let s ← (bindings plainEnvironment).run sampleStart (updateRun revision between)
  let t ← (bindings plainEnvironment).step s (.save 0)
  let before ← s.draft "a"
  let after ← t.draft "a"
  let u ← t.updates[0]?
  return (before, after, match u.phase with | .saved => true | _ => false)

theorem outcome_eq_some {revision : Option Nat} {between : List Event} {before after : AgentConfig}
    {saved : Bool} (h : outcome revision between = some (before, after, saved)) :
    ∃ s t u v, (bindings plainEnvironment).run sampleStart (updateRun revision between) = some s ∧
      (bindings plainEnvironment).step s (.save 0) = some t ∧ s.updates[0]? = some u ∧
      t.updates[0]? = some v ∧ (saved = true → v.phase = .saved) ∧
      s.draft "a" = some before ∧ t.draft "a" = some after := by
  simp only [outcome, Option.bind_eq_bind, Option.bind_eq_some_iff] at h
  obtain ⟨s, hrun, t, hstep, before', hbefore, after', hafter, v, hv, h⟩ := h
  obtain ⟨rfl, rfl, rfl⟩ := Prod.mk.inj (Option.some.inj h) |>.imp_right Prod.mk.inj
  have hu : ∃ u, s.updates[0]? = some u := by
    simp only [bindings, State.step, Option.bind_eq_bind, Option.bind_eq_some_iff] at hstep
    obtain ⟨u, hu, _⟩ := hstep
    exact ⟨u, hu⟩
  obtain ⟨u, hu⟩ := hu
  refine ⟨s, t, u, v, hrun, hstep, hu, hv, fun hsaved => ?_, hbefore, hafter⟩
  split at hsaved
  · next hphase => exact hphase
  · cases hsaved

/-- Nobody else writes the draft: only the small model changes. -/
theorem small_model_is_set : ∃ s t : State, ∃ u : Update, ∃ draft revision before,
    (bindings plainEnvironment).run sampleStart (updateRun (some 7) []) = some s ∧
      (bindings plainEnvironment).step s (.save 0) = some t ∧ u.phase = .read draft revision ∧
      s.draft u.agentId = some before ∧
      (t.draft u.agentId = some (u.write.apply before) ↔ others u.write draft = others u.write before) ∧
      t.draft "a" = some { plainAgent "m1" "" with smallModelId := some "m1" } := by
  have hends : outcome (some 7) [] =
      some (plainAgent "m1" "", smallModel.apply (plainAgent "m1" ""), true) := by decide
  obtain ⟨s, t, u, v, hrun, hstep, hu, hv, hsaved, _, hafter⟩ := outcome_eq_some hends
  obtain ⟨draft, revision, before, hread, hbefore, hiff, _⟩ :=
    bindings_change_named_fields hrun hstep hu hv (hsaved rfl)
  exact ⟨s, t, u, draft, revision, before, hrun, hstep, hread, hbefore, hiff, hafter⟩

/-- **A saved draft is lost**: new instructions are saved after the update has read the draft, and are gone
when the update, which names the small model only, is saved. -/
theorem concurrent_draft_lost : ∃ s t v,
    (bindings plainEnvironment).run sampleStart
        (updateRun none [.other (.saveAgent "a" (plainAgent "m1" "new") none)]) = some s ∧
      (bindings plainEnvironment).step s (.save 0) = some t ∧
      t.updates[0]? = some v ∧ v.phase = .saved ∧
      s.draft "a" = some (plainAgent "m1" "new") ∧
      t.draft "a" = some { plainAgent "m1" "" with smallModelId := some "m1" } := by
  have hends : outcome none [.other (.saveAgent "a" (plainAgent "m1" "new") none)] =
      some (plainAgent "m1" "new", smallModel.apply (plainAgent "m1" ""), true) := by decide
  obtain ⟨s, t, u, v, hrun, hstep, hu, hv, hsaved, hbefore, hafter⟩ := outcome_eq_some hends
  exact ⟨s, t, v, hrun, hstep, hv, hsaved rfl, hbefore, hafter⟩

end OpencodeCloud.Catalog.Bindings
