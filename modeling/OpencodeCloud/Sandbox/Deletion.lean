/-
# OpencodeCloud.Sandbox.Deletion -- what a deletion leaves behind

An agent delete action, and the cleanup of a load-test user, remove the containers that the records name,
and then the records. When they answer with success, no container of the deleted records should be there,
and the startup after it should find none.

It need not be so: `leftover` is an acquisition whose container does not start and cannot be removed
either, so that the record names none; the deletion passes over the record and deletes it. **In a run whose
removals are all sound, nothing is left** (`deleted_leave_no_container`).
-/
import OpencodeCloud.Sandbox.Removal

namespace OpencodeCloud.Sandbox.Backend

open OpencodeCloud.Library World

/-! ## Cleanups -/

/-- The user whose cleanup begins. -/
def State.cleans (s : State) : Event → Option Owner
  | .step i .ok =>
    match s.tasks[i]? with
    | some (.cleanup o _ .lock) => some o
    | _ => none
  | _ => none

/-- **Sound cleanups.** When a cleanup begins, the record of the user names his container, and no creation
of his is left over. -/
def SoundCleanup (s : State) (e : Event) : Prop :=
  ∀ o ∈ s.cleans e, (∀ c ∈ s.world.docker.lookup o, s.world.names o c = true) ∧
    ∀ c ∈ s.late, ∀ o' ∈ c.creates, o' ≠ o

instance (s : State) (e : Event) : Decidable (SoundCleanup s e) :=
  inferInstanceAs (Decidable (∀ o ∈ s.cleans e, _))

/-- The container of a user who is being cleaned up is still to come. -/
structure State.Cleaning (s : State) (o : Owner) (l : List (Owner × Nat)) : Prop where
  still : s.Still (· = o)
  covered : s.world.Covered (· = o) l

/-- **What holds of every cleanup.** -/
def State.Cleanups (s : State) : Prop :=
  ∀ (i : Nat) o run p, s.tasks[i]? = some (.cleanup o run (.removing p)) → s.Cleaning o p.remaining

/-- Under the lock of a user, nobody else asks the catalog on his behalf. -/
theorem State.Exclusive.not_loads {s : State} (h : s.Exclusive) {i : Nat} {t : Task} {o : Owner}
    (ht : s.tasks[i]? = some t) (hholds : t.holds = some o) (hnone : t.acquisition = none) {e : Event}
    {o' : Owner} (hloads : s.loads e = some o') : o' ≠ o := by
  rintro rfl
  unfold loads at hloads
  split at hloads
  next j =>
    split at hloads
    next o₁ hacq =>
      obtain rfl := Option.some.inj hloads
      obtain ⟨t', ht', hacq⟩ := Option.bind_eq_some_iff.mp hacq
      obtain rfl := h.user i j t t' o₁ ht ht' hholds (Task.holds_of_acquisition hacq)
      obtain rfl := Option.some.inj (ht.symm.trans ht')
      rw [hnone] at hacq
      cases hacq
    next => cases hloads
  next => cases hloads

theorem State.Cleaning.step {s s' : State} {e : Event} {o : Owner} {l : List (Owner × Nat)}
    (h : s.Cleaning o l) (hstep : s.step e = some s') (hloads : ∀ o', s.loads e = some o' → o' ≠ o) :
    s'.Cleaning o l :=
  ⟨h.still.step hstep hloads, h.still.covered hstep h.covered⟩

/-- The record of the user is listed. -/
theorem State.cleaning_of_free {s : State} {i : Nat} {o : Owner} {run : String}
    (ht : s.tasks[i]? = some (.cleanup o run .lock)) (hfree : s.userLocked o = false)
    (hC : SoundCleanup s (.step i .ok)) : s.Cleaning o (ids (s.records o.1 (some o.2))) := by
  obtain ⟨hnames, hlate⟩ := hC o (by simp [cleans, ht])
  refine ⟨⟨fun j t o' p hj hacq ho => ?_, fun o' d l hmem => hlate _ hmem o' rfl⟩, ?_⟩
  · exact absurd (ho ▸ Task.holds_of_acquisition hacq) (userLocked_eq_false hfree hj)
  · rintro o' c rfl hc
    have := hnames c hc
    rw [names, beq_iff_eq] at this
    obtain ⟨r, hr, hid⟩ := Option.bind_eq_some_iff.mp this
    exact List.mem_filterMap.mpr ⟨(o', r), Dict.mem_collect.mpr ⟨o', r, hr, by simp⟩, by simp [hid]⟩

/-- How a cleanup comes to a removal, or to its end. -/
theorem goCleaning_eq {o : Owner} {m : Removal × List Effect} {p : Removal} (h : m.1 = p)
    {stage : CleanupStage} (hgo : (goCleaning o m).1 = stage) :
    (stage = .removing p ∧ p ≠ .refused) ∨ (stage = .over true ∧ p = .done) ∨ stage = .over false := by
  unfold goCleaning at hgo
  split at hgo
  · exact .inr (.inr hgo.symm)
  next hdone => exact .inr (.inl ⟨hgo.symm, h.symm.trans hdone⟩)
  next hrefused _ => exact .inl ⟨by rw [← hgo, h], fun heq => hrefused (h.trans heq)⟩

/-- A cleanup begins with the lock, or goes on with its removal. -/
theorem advanceCleanup_cases {s : State} {o : Owner} {run : String} {stage : CleanupStage} {x : Outcome}
    {n : CleanupStage × List Effect} (h : advanceCleanup s o run stage x = some n) :
    (stage = .lock ∧ x = .ok ∧ s.userLocked o = false ∧
        n = goCleaning o (removeNext s (s.records o.1 (some o.2)))) ∨
      (∃ p m, stage = .removing p ∧ p.next s (some run) x = some m ∧ n = goCleaning o m) ∨
      n = (.over false, []) := by
  unfold advanceCleanup at h
  split at h
  case h_2 =>
    split at h
    · cases h
    · exact .inl ⟨rfl, rfl, eq_false_of_ne_true ‹_›, (Option.some.inj h).symm⟩
  case h_3 =>
    split at h
    · cases h
    · exact .inr (.inr (Option.some.inj h).symm)
  case h_4 =>
    obtain ⟨m, hm, rfl⟩ := Option.map_eq_some_iff.mp h
    exact .inr (.inl ⟨_, m, rfl, hm, rfl⟩)
  case h_1 => cases h

/-- **A cleanup takes a step**: the container is removed now, or is still to come. -/
theorem State.Cleanups.cleaned {s s' : State} {i : Nat} {x : Outcome} {o : Owner} {run : String}
    {stage : CleanupStage} {m : Removal × List Effect} (h : s.Cleanups) (hexclusive : s.Exclusive)
    (hC : SoundCleanup s (.step i x)) (hstep : s.step (.step i x) = some s')
    (ht : s.tasks[i]? = some (.cleanup o run stage)) (hgoes : m.1 ≠ .refused)
    (hmove : (stage = .lock ∧ x = .ok ∧ s.userLocked o = false ∧
        m = removeNext s (s.records o.1 (some o.2))) ∨
      ∃ p, stage = .removing p ∧ p.next s (some run) x = some m) :
    s'.Cleaning o m.1.remaining := by
  rcases hmove with ⟨rfl, rfl, hfree, rfl⟩ | ⟨p, rfl, hm⟩
  · rcases removeNext_remaining s (s.records o.1 (some o.2)) with hrefused | hids
    · exact absurd hrefused hgoes
    · rw [hids]
      exact (cleaning_of_free ht hfree hC).step hstep
        fun o' ho' => by simp [loads, ht, Task.acquisition] at ho'
  · have hbefore := h i o run p ht
    have hloads : ∀ o', s.loads (.step i x) = some o' → o' ≠ o :=
      fun o' ho' => hexclusive.not_loads ht rfl rfl ho'
    refine ⟨hbefore.still.step hstep hloads, ?_⟩
    rcases Removal.covered_next hm hbefore.covered with hrefused | hcovered
    · exact absurd hrefused hgoes
    · intro o' c ho hc
      refine hcovered o' c ho ?_
      obtain ⟨t, t', es, ht', -, -, rfl⟩ := step_task hstep
      obtain rfl := Option.some.inj (ht.symm.trans ht')
      simp only [applyAll_frame (fun s => s.world.docker) docker_apply, world_conclude] at hc
      have hcall : (Task.cleanup o run (.removing p)).call = p.call := by cases p <;> rfl
      rwa [hcall] at hc

theorem State.Cleanups.step {s s' : State} {e : Event} (h : s.Cleanups) (hexclusive : s.Exclusive)
    (hC : SoundCleanup s e) (hstep : s.step e = some s') : s'.Cleanups := by
  intro j o run p ht
  rcases tasks_step hstep ht with hold | ⟨-, harrives⟩ | ⟨x, t, es, rfl, ht₀, hadvance, -⟩
  · exact (h j o run p hold).step hstep fun o' ho' => hexclusive.not_loads hold rfl rfl ho'
  · cases harrives
  · obtain ⟨stage₀, rfl, hn⟩ := Task.cleanup_of_advance hadvance
    rcases advanceCleanup_cases hn with ⟨hlock, hx, hfree, heq⟩ | ⟨p₀, m, hstage, hm, heq⟩ | heq
    · rcases goCleaning_eq rfl (congrArg Prod.fst heq.symm) with ⟨hp, hgoes⟩ | ⟨hp, -⟩ | hp
      · obtain rfl := CleanupStage.removing.inj hp
        exact h.cleaned hexclusive hC hstep ht₀ hgoes (.inl ⟨hlock, hx, hfree, rfl⟩)
      · cases hp
      · cases hp
    · rcases goCleaning_eq rfl (congrArg Prod.fst heq.symm) with ⟨hp, hgoes⟩ | ⟨hp, -⟩ | hp
      · obtain rfl := CleanupStage.removing.inj hp
        exact h.cleaned hexclusive hC hstep ht₀ hgoes (.inr ⟨p₀, hstage, hm⟩)
      · cases hp
      · cases hp
    · cases heq

/-! ## Answers -/

/-- The Agent whose deletion answers with success now. -/
def State.deletes (s : State) : Event → Option String
  | .step i x =>
    match s.tasks[i]? with
    | some (.agent q stage) =>
      if q.name.isDelete ∧ (advanceAgent s q stage x).map Prod.fst = some (.over true) then
        some q.agent
      else none
    | _ => none
  | _ => none

/-- The user whose cleanup answers with success now. -/
def State.cleaned (s : State) : Event → Option Owner
  | .step i x =>
    match s.tasks[i]? with
    | some (.cleanup o run stage) =>
      if (advanceCleanup s o run stage x).map Prod.fst = some (.over true) then some o else none
    | _ => none
  | _ => none

/-- **No container is left** for the records that a step deletes. -/
def NoneLeft (s : State) (e : Event) : Prop :=
  ∀ t ∈ s.step e,
    (∀ a ∈ s.deletes e, ∀ o r, s.world.sandboxes.lookup o = some r → o.1 = a →
        t.world.docker.lookup o = none) ∧
      ∀ o ∈ s.cleaned e, ∀ r, s.world.sandboxes.lookup o = some r → t.world.docker.lookup o = none

/-- All removals of a run are sound. -/
def SoundDeletion (s : State) (e : Event) : Prop :=
  SoundRemoval AgentAction.isDelete s e ∧ SoundCleanup s e

instance (s : State) (e : Event) : Decidable (SoundDeletion s e) :=
  inferInstanceAs (Decidable (_ ∧ _))

/-- The invariant of a run with sound removals. -/
structure State.Deletions (s : State) : Prop where
  removals : s.Removals AgentAction.isDelete
  cleanups : s.Cleanups

theorem isDelete_removes (name : AgentAction) (h : name.isDelete = true) : name.removes = true := by
  cases name <;> first | rfl | cases h

theorem State.Deletions.initial (image : String) : (State.initial image).Deletions :=
  ⟨.initial _ image, fun i o run p h => by simp [State.initial] at h⟩

theorem State.Deletions.step {s s' : State} {e : Event} (h : s.Deletions) (hC : SoundDeletion s e)
    (hstep : s.step e = some s') : s'.Deletions :=
  ⟨h.removals.step isDelete_removes hC.1 hstep, h.cleanups.step h.removals.exclusive hC.2 hstep⟩

/-- A deletion answers: the Agent is empty, and nothing is on the way. -/
theorem State.Deletions.deleted {s s' : State} {e : Event} (h : s.Deletions) (hC : SoundDeletion s e)
    (hstep : s.step e = some s') {a : String} (ha : s.deletes e = some a) : s'.Emptying a [] := by
  unfold deletes at ha
  split at ha
  next i x =>
    split at ha
    next q stage ht =>
      split at ha
      next hq =>
        obtain rfl := Option.some.inj ha
        obtain ⟨n, hn, hover⟩ := Option.map_eq_some_iff.mp hq.2
        exact h.removals.succeeded isDelete_removes hC.1 hstep ht hq.1 hn hover
      next => cases ha
    next => cases ha
  next => cases ha

/-- A cleanup answers: the user has no container. -/
theorem State.Deletions.cleaned {s s' : State} {e : Event} (h : s.Deletions) (hC : SoundDeletion s e)
    (hstep : s.step e = some s') {o : Owner} (ho : s.cleaned e = some o) : s'.Cleaning o [] := by
  unfold State.cleaned at ho
  split at ho
  next i x =>
    split at ho
    next o' run stage ht =>
      split at ho
      next hover =>
        obtain rfl := Option.some.inj ho
        obtain ⟨n, hn, hover⟩ := Option.map_eq_some_iff.mp hover
        rcases advanceCleanup_cases hn with ⟨hlock, hx, hfree, rfl⟩ | ⟨p₀, m, hstage, hm, rfl⟩ | rfl
        · rcases goCleaning_eq rfl hover with ⟨hp, -⟩ | ⟨-, hdone⟩ | hp
          · cases hp
          · have := h.cleanups.cleaned h.removals.exclusive hC.2 hstep ht (by rw [hdone]; simp)
              (.inl ⟨hlock, hx, hfree, rfl⟩)
            rwa [hdone] at this
          · cases hp
        · rcases goCleaning_eq rfl hover with ⟨hp, -⟩ | ⟨-, hdone⟩ | hp
          · cases hp
          · have := h.cleanups.cleaned h.removals.exclusive hC.2 hstep ht (by rw [hdone]; simp)
              (.inr ⟨p₀, hstage, hm⟩)
            rwa [hdone] at this
          · cases hp
        · cases hover
      next => cases ho
    next => cases ho
  next => cases ho

theorem World.Covered.none {w : World} {p : Owner → Prop} (h : w.Covered p []) {o : Owner} (ho : p o) :
    w.docker.lookup o = none := by
  cases hc : w.docker.lookup o with
  | none => rfl
  | some c => exact absurd (h o c ho hc) List.not_mem_nil

theorem State.Deletions.noneLeft {s : State} {e : Event} (h : s.Deletions) (hC : SoundDeletion s e) :
    NoneLeft s e := by
  intro t hstep
  refine ⟨fun a ha o r _ ho => ?_, fun o ho r _ => ?_⟩
  · exact (h.deleted hC hstep ha).covered.none ho
  · exact (h.cleaned hC hstep ho).covered.none rfl

/-! ## Every run -/

/-- Once an Agent is empty and nothing is on the way, it stays so until the catalog serves it again. -/
theorem gone_run {a : String} {s t : State} {is : List Event} (hstill : s.Still (·.1 = a))
    (hcovered : s.world.Covered (·.1 = a) []) (hrun : manager.run s is = some t)
    (hgone : manager.Along (fun w e => ∀ o ∈ w.loads e, o.1 ≠ a) s is) :
    t.world.Covered (·.1 = a) [] := by
  have := manager.run_invariant (C := fun w e => ∀ o ∈ w.loads e, o.1 ≠ a)
    (I := fun w => w.Still (·.1 = a) ∧ w.world.Covered (·.1 = a) [])
    (fun w e u hw hC hstep => ⟨hw.1.step hstep hC, hw.1.covered hstep hw.2⟩) ⟨hstill, hcovered⟩ hrun
    hgone
  exact this.2

/-- **What is deleted leaves no container.** In a run whose removals are all sound, no step that answers a
deletion or a cleanup leaves a container for a record it deletes. And from the answer to a deletion on, as
long as the catalog gives no definition of the Agent, there is no container of his, whenever a startup
looks. -/
theorem deleted_leave_no_container {image : String} {is : List Event} {s : State}
    (hrun : manager.run (.initial image) is = some s)
    (hC : manager.Along SoundDeletion (.initial image) is) :
    manager.Along NoneLeft (.initial image) is ∧
      ∀ is₁ e is₂ u v a, is = is₁ ++ e :: is₂ → manager.run (.initial image) is₁ = some u →
        u.step e = some v → u.deletes e = some a →
        manager.Along (fun w e => ∀ o ∈ w.loads e, o.1 ≠ a) v is₂ →
        ∀ o c, s.world.docker.lookup o = some c → o.1 ≠ a := by
  have keep : ∀ s e t, State.Deletions s → SoundDeletion s e → manager.step s e = some t → t.Deletions :=
    fun s e t h hC hstep => h.step hC hstep
  constructor
  · exact manager.along_of_invariant keep (fun s e h hC => h.noneLeft hC) (.initial image) hC
  · intro is₁ e is₂ u v a his hu hv ha hgone o c hc ho
    subst his
    obtain ⟨u', hu', hrest⟩ := manager.run_append hrun
    obtain rfl := Option.some.inj (hu.symm.trans hu')
    obtain ⟨v', hv', hrest⟩ := manager.run_cons_inv hrest
    obtain rfl := Option.some.inj (hv.symm.trans hv')
    have hbefore := manager.run_invariant keep (.initial image) hu (manager.along_prefix hC)
    have hsound := (manager.along_cons hv' (manager.along_suffix hC hu)).1
    have hempty := hbefore.deleted hsound hv ha
    have hnone := (gone_run hempty.still hempty.covered hrest hgone).none (o := o) ho
    rw [hnone] at hc
    cases hc

/-! ## What no record names -/

/-- The answers that one task gets. -/
def answers (i : Nat) (xs : List Outcome) : List Event := xs.map (.step i)

/-- A request for a new sandbox, up to the creation of its container. -/
def creating (i : Nat) (o : Owner) : List Event :=
  .request o .read :: answers i
    [.ok, .ok, .ok, .resources none, .ok, .ok, .ok, .ok, .ok, .resources none, .ok]

/-- The start of the new container fails, and so does its removal. -/
def unrecorded : List Event :=
  [.publish "a" (some ⟨"1", "image"⟩)] ++ creating 0 ("a", "u") ++
  answers 0 [.dockerError, .dockerError]

/-- Then the Agent is deleted. -/
def leftover : List Event :=
  unrecorded ++ [.agentAction ⟨"a", .delete, none⟩] ++ answers 1 [.ok]

/-- The deletion answers, and the container is there. -/
def State.leaves (s : State) (e : Event) (o : Owner) : Bool :=
  s.deletes e == some o.1 && (s.world.sandboxes.lookup o).isSome &&
    (s.step e).any fun t => (t.world.docker.lookup o).isSome

theorem deleted_leaves_unrecorded_container :
    ¬ ∀ image is, manager.Along NoneLeft (.initial image) is := by
  intro hall
  have hbad : ((manager.run (.initial "image") leftover).all fun s =>
      !s.leaves (.step 1 .ok) ("a", "u")) = false := by decide +kernel
  obtain ⟨s, hrun, hs⟩ := manager.exists_run_of_all_eq_false hbad
  simp only [State.leaves, Bool.not_eq_false', Bool.and_eq_true, beq_iff_eq, Option.isSome_iff_exists,
    Option.any_eq_true] at hs
  obtain ⟨⟨hdeletes, r, hr⟩, t, ht, c, hc⟩ := hs
  have hnone := manager.along_suffix (hall "image" (leftover ++ [.step 1 .ok])) hrun
  rw [(hnone.1 t ht).1 "a" hdeletes ("a", "u") r hr rfl] at hc
  cases hc

/-- The sandbox is served, and given back, before the Agent is deleted. -/
def served : List Event :=
  [.publish "a" (some ⟨"1", "image"⟩)] ++ creating 0 ("a", "u") ++
  answers 0 [.ok, .ok, .ok, .ok, .ok, .ok, .ok] ++ [.agentAction ⟨"a", .delete, none⟩] ++
  answers 1 [.ok, .ok, .ok]

/-- The next answer ends the deletion. -/
theorem served_leaves_no_container : ∃ u v, manager.run (.initial "image") served = some u ∧
    u.step (.step 1 .ok) = some v ∧ u.deletes (.step 1 .ok) = some "a" ∧
      (u.world.docker.lookup ("a", "u")).isSome = true ∧
      ∀ o c, v.world.docker.lookup o = some c → o.1 ≠ "a" := by
  have hgood : ((manager.run (.initial "image") served).all fun u =>
      !(u.deletes (.step 1 .ok) == some "a" && (u.world.docker.lookup ("a", "u")).isSome &&
        (u.step (.step 1 .ok)).isSome)) = false := by decide +kernel
  obtain ⟨u, hu, hdeletes⟩ := manager.exists_run_of_all_eq_false hgood
  simp only [Bool.not_eq_false', Bool.and_eq_true, beq_iff_eq, Option.isSome_iff_exists] at hdeletes
  obtain ⟨⟨hdeletes, c, hc⟩, v, hv⟩ := hdeletes
  have hrun : manager.run (.initial "image") (served ++ [.step 1 .ok]) = some v := by
    rw [manager.run_append_eq hu]
    exact manager.run_cons hv
  have hsound : manager.Along SoundDeletion (.initial "image") (served ++ [.step 1 .ok]) := by
    decide +kernel
  refine ⟨u, v, hu, hv, hdeletes, by simp [hc], ?_⟩
  exact (deleted_leave_no_container hrun hsound).2 served (.step 1 .ok) [] u v "a" rfl hu hv hdeletes
    trivial

end OpencodeCloud.Sandbox.Backend
