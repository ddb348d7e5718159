/-
# OpencodeCloud.Sandbox.Idle -- what is stopped was idle

An action on a sandbox without force stops or removes the container when the sandbox is confirmed idle. It
looks at the counters first, then at the container or at every session directory, and then at the leases
once more, all under the lock of the user.

There need be **no single moment** at which no mutating request of the Agent was in flight and the sandbox
was idle: a request of another user may come in while the sessions are asked (`stopped_while_busy`). What
holds is that the one was so at a moment under the lock, and the other at later ones, and that no lease is
granted from the first moment to the end of the action (`stopped_when_idle`).
-/
import Mathlib.Data.List.Forall2
import OpencodeCloud.Sandbox.Deletion

namespace OpencodeCloud.Sandbox.Backend

open OpencodeCloud.Library World

/-! ## Leases and requests -/

/-- A request does not keep a sandbox busy: its lease, if it has one, is that of an established event
subscription, and it is not a mutating request of the Agent in flight. -/
def Task.free (o : Owner) : Task → Bool
  | .request o' kind stage =>
    !(o' == o && stage.leases && !stage.subscribes) && !(o'.1 == o.1 && kind == .mutate && stage.inFlight)
  | _ => true

/-- No lease but those of event subscriptions, and no mutating request of the Agent in flight. -/
def State.Free (s : State) (o : Owner) : Prop := ∀ t ∈ s.tasks, t.free o = true

instance (s : State) (o : Owner) : Decidable (s.Free o) := inferInstanceAs (Decidable (∀ t ∈ _, _))

theorem Task.countsSubscriber_le (o : Owner) (t : Task) : t.countsSubscriber o ≤ t.countsLease o := by
  cases t with
  | request o' kind stage =>
    cases stage <;> simp [countsSubscriber, countsLease, counts, RequestStage.subscribes,
      RequestStage.leases]
  | _ => exact le_rfl

/-- What the counters say at the beginning of `execution`. -/
theorem State.Counted.free {s : State} (h : s.Counted) {o : Owner} (hleases : s.activeRequestLeases o = 0)
    (hrequests : count s.requests o.1 = 0) : s.Free o := by
  intro t ht
  cases t with
  | request o' kind stage =>
    have hlease : (o' == o && stage.leases && !stage.subscribes) = false := by
      have hle : tally (Task.countsLease o) s.tasks ≤ tally (Task.countsSubscriber o) s.tasks := by
        rw [← h.inUse, ← h.subscribers]
        exact Nat.sub_eq_zero_iff_le.mp hleases
      have heq := eq_of_tally_le (fun t _ => Task.countsSubscriber_le o t) hle ht
      cases stage <;> simp_all [Task.countsLease, Task.countsSubscriber, Task.counts,
        RequestStage.leases, RequestStage.subscribes]
    have hrequest : (o'.1 == o.1 && kind == .mutate && stage.inFlight) = false := by
      obtain ⟨i, hi⟩ := List.mem_iff_getElem?.mp ht
      exact not_of_tally_eq_zero ((h.requests o.1).symm.trans hrequests) hi
    simp only [Task.free, hlease, hrequest, Bool.not_false, Bool.and_self]
  | _ => rfl

/-- The user on whose sandbox a lease is granted now. -/
def State.grants (s : State) : Event → Option Owner
  | .step i x =>
    match s.tasks[i]? with
    | some (.request o _ (.acquiring p)) =>
      match p.next s.world (s.load o.1) o x with
      | some (.done _) => some o
      | _ => none
    | _ => none
  | _ => none

/-- The action on a sandbox that holds the lock of its user. -/
def Task.acts : Task → Option Owner
  | .sandbox o name force stage => (Task.sandbox o name force stage).holds
  | _ => none

theorem Task.holds_of_acts {t : Task} {o : Owner} (h : t.acts = some o) : t.holds = some o := by
  cases t with
  | sandbox o' name force stage => exact h
  | _ => cases h

/-- **No lease is granted under the lock of an action.** -/
theorem State.Exclusive.not_grants {s : State} (h : s.Exclusive) {i : Nat} {t : Task} {o : Owner}
    (ht : s.tasks[i]? = some t) (hacts : t.acts = some o) {e : Event} : s.grants e ≠ some o := by
  intro hgrants
  unfold grants at hgrants
  split at hgrants
  next j x =>
    split at hgrants
    next o' kind p hj =>
      split at hgrants
      · obtain rfl := Option.some.inj hgrants
        obtain rfl := h.user i j t _ o' ht hj (Task.holds_of_acts hacts) rfl
        obtain rfl := Option.some.inj (ht.symm.trans hj)
        cases hacts
      · cases hgrants
    next => cases hgrants
  next => cases hgrants

/-! ## Where an action without force goes -/

/-- Asking whether the sandbox is idle, before its sessions are asked. -/
def SandboxStage.asks : SandboxStage → Bool
  | .inspect _ | .inspectById _ _ | .findById _ _ | .findByName _ | .sessions _ => true
  | _ => false

/-- The sandbox may be stopped. -/
def SandboxStage.decided : SandboxStage → Bool
  | .admission _ | .container _ _ | .destroyById _ _ | .destroyByName _ | .stopping _ | .removing _ _
  | .acquiring _ => true
  | _ => false

/-- There is no container, or one that does not run. -/
def State.NotRunning (s : State) (o : Owner) : Prop :=
  ∀ c ∈ s.world.docker.lookup o, c.status = .created ∨ c.status = .exited ∨ c.status = .dead

instance (s : State) (o : Owner) : Decidable (s.NotRunning o) :=
  inferInstanceAs (Decidable (∀ c ∈ _, _))

/-- **Everything that a step of an action without force can be**, other than a start. -/
inductive IdleMove (s : State) (o : Owner) : SandboxStage → Outcome → SandboxStage → Prop
  | begun (r) : s.activeRequestLeases o = 0 → count s.requests o.1 = 0 → IdleMove s o .lock .ok (.inspect r)
  | asked {stage x stage'} : stage.asks = true → stage'.asks = true → IdleMove s o stage x stage'
  | listed (r) : IdleMove s o (.sessions r) .ok
      (.statuses r ((directories ((s.sessions.lookup o).getD [])).map (·, none)))
  | read (r groups directory) : IdleMove s o (.statuses r groups) (.statuses directory)
      (.statuses r (readGroup groups directory ((s.statuses.lookup (o, directory)).getD [])))
  | found {stage x stage'} : stage.asks = true → s.NotRunning o → stage'.decided = true →
      IdleMove s o stage x stage'
  | observed (r groups directory) {stage'} :
      (readGroup groups directory ((s.statuses.lookup (o, directory)).getD [])).all (·.2.isSome) = true →
      observe (((readGroup groups directory ((s.statuses.lookup (o, directory)).getD [])).map
        fun g => g.2.getD []).foldl mergeGroup ∅) = .idle →
      stage'.decided = true → IdleMove s o (.statuses r groups) (.statuses directory) stage'
  | goes {stage x stage'} : stage.decided = true → stage'.decided = true → IdleMove s o stage x stage'
  | over {stage x} (ok) : IdleMove s o stage x (.over ok)

section SandboxActions

variable {s : State} {o : Owner} {name : SandboxAction} {r : SandboxRecord}

theorem act_decided (c : Option Container) :
    (act o name r c).1.decided = true ∨ ∃ ok, (act o name r c).1 = .over ok := by
  cases name <;> cases c <;> first | exact .inl rfl | exact .inr ⟨_, rfl⟩

theorem findContainer_decided :
    (findContainer o name r).1.decided = true ∨ ∃ ok, (findContainer o name r).1 = .over ok := by
  unfold findContainer
  split
  · exact .inl rfl
  · exact .inl rfl
  · exact act_decided none

theorem actOn_decided (c : Container) :
    (actOn s o name r c).1.decided = true ∨ ∃ ok, (actOn s o name r c).1 = .over ok := by
  unfold actOn
  split
  · exact act_decided (some c)
  · exact .inr ⟨false, rfl⟩

/-- Without force, only an idle sandbox is stopped. -/
theorem decideAction_decided {x : Observation} (hname : name ≠ .start) :
    (decideAction s o name false r x).1.decided = true ∧ x = .idle ∨
      ∃ ok, (decideAction s o name false r x).1 = .over ok := by
  unfold decideAction
  split
  · exact .inr ⟨false, rfl⟩
  next hidle =>
    have hx : x = .idle := by
      by_contra hx
      exact hidle ⟨rfl, hname, .inr hx⟩
    split
    · exact .inl ⟨rfl, hx⟩
    · exact .inl ⟨rfl, hx⟩
    · exact .inl ⟨rfl, hx⟩
    · exact findContainer_decided.imp_left (⟨·, hx⟩)
    · exact findContainer_decided.imp_left (⟨·, hx⟩)

theorem settle_idle {c : Container} (h : settle s o c = .idle) :
    c.status = .created ∨ c.status = .exited ∨ c.status = .dead := by
  unfold settle at h
  split at h
  · cases hstatus : c.status <;> simp_all
  · cases h

theorem State.notRunning_of_settle {c : Container} (hc : s.world.docker.lookup o = some c)
    (h : settle s o c = .idle) : s.NotRunning o := by
  intro c' hc'
  obtain rfl := Option.some.inj (hc.symm.trans hc')
  exact settle_idle h

/-- Asking has come to a result. -/
theorem IdleMove.decide {stage : SandboxStage} {x : Outcome} {y : Observation} (hname : name ≠ .start)
    (hasks : stage.asks = true) (hy : y = .idle → s.NotRunning o) :
    IdleMove s o stage x (decideAction s o name false r y).1 := by
  rcases decideAction_decided (s := s) (o := o) (r := r) (x := y) hname with ⟨hdecided, hidle⟩ | ⟨ok, hok⟩
  · exact .found hasks (hy hidle) hdecided
  · rw [hok]
    exact .over ok

theorem IdleMove.refuse {stage : SandboxStage} {x : Outcome} {y : Observation} (hname : name ≠ .start)
    (hy : y ≠ .idle) : IdleMove s o stage x (decideAction s o name false r y).1 := by
  rcases decideAction_decided (s := s) (o := o) (r := r) (x := y) hname with ⟨-, hidle⟩ | ⟨ok, hok⟩
  · exact absurd hidle hy
  · rw [hok]
    exact .over ok

theorem IdleMove.go {stage stage' : SandboxStage} {x : Outcome} (hstage : stage.decided = true)
    (h : stage'.decided = true ∨ ∃ ok, stage' = .over ok) : IdleMove s o stage x stage' := by
  rcases h with hdecided | ⟨ok, rfl⟩
  · exact .goes hstage hdecided
  · exact .over ok

theorem findExisting_asks (r : SandboxRecord) : (findExisting r).asks = true := by
  unfold findExisting
  split <;> rfl

theorem advanceSandbox_idle {stage : SandboxStage} {x : Outcome} {n : SandboxStage × List Effect}
    (h : advanceSandbox s o name false stage x = some n) (hname : name ≠ .start) :
    IdleMove s o stage x n.1 := by
  unfold advanceSandbox at h
  split at h
  case h_1 => cases h
  case h_2 =>
    split at h
    · cases h
    · split at h
      next r hr =>
        obtain rfl := Option.some.inj h
        unfold beginExecution
        split
        · exact .refuse hname (by decide)
        next hzero =>
          simp only [not_or, Nat.not_lt, Nat.le_zero] at hzero
          exact .begun r hzero.1 hzero.2.1
      next =>
        obtain rfl := Option.some.inj h
        exact .over false
  case h_3 r =>
    split at h <;> obtain rfl := Option.some.inj h
    · exact .asked rfl rfl
    · exact .asked rfl (findExisting_asks r)
  case h_4 r id =>
    split at h
    · obtain rfl := Option.some.inj h
      exact .asked rfl (findExisting_asks r)
    · split at h
      · obtain rfl := Option.some.inj h
        exact .refuse hname (by decide)
      · split at h <;> obtain rfl := Option.some.inj h
        · exact .asked rfl rfl
        · exact .asked rfl (findExisting_asks r)
  case h_5 r id =>
    split at h
    next c hfind =>
      obtain rfl := Option.some.inj h
      exact .decide hname rfl (State.notRunning_of_settle (find_eq_some.mp hfind).1)
    next =>
      obtain rfl := Option.some.inj h
      exact .asked rfl rfl
  case h_6 r =>
    split at h
    next c hc =>
      obtain rfl := Option.some.inj h
      exact .decide hname rfl (State.notRunning_of_settle hc)
    next hnone =>
      obtain rfl := Option.some.inj h
      refine .decide hname rfl fun _ c hc => ?_
      rw [hnone] at hc
      cases hc
  case h_7 r =>
    obtain rfl := Option.some.inj h
    exact .listed r
  case h_8 r groups directory =>
    split at h
    · dsimp only at h
      split at h
      next hall =>
        obtain rfl := Option.some.inj h
        rcases decideAction_decided (s := s) (o := o) (r := r) hname with ⟨hdecided, hidle⟩ | ⟨ok, hok⟩
        · exact .observed r groups directory hall hidle hdecided
        · rw [hok]
          exact .over ok
      next =>
        obtain rfl := Option.some.inj h
        exact .read r groups directory
    · cases h
  case h_15 =>
    obtain rfl := Option.some.inj h
    exact .go rfl findContainer_decided
  case h_16 r id =>
    split at h <;> obtain rfl := Option.some.inj h
    · exact .go rfl (actOn_decided _)
    · exact .goes rfl rfl
    · exact .go rfl (act_decided none)
  case h_17 r id =>
    split at h <;> obtain rfl := Option.some.inj h
    · exact .go rfl (actOn_decided _)
    · exact .goes rfl rfl
  case h_18 r =>
    split at h <;> obtain rfl := Option.some.inj h
    · exact .go rfl (actOn_decided _)
    · exact .go rfl (act_decided none)
  case h_19 =>
    obtain rfl := Option.some.inj h
    exact .over true
  case h_20 r c =>
    obtain rfl := Option.some.inj h
    exact .go rfl (act_decided none)
  case h_21 p =>
    split at h
    · obtain rfl := Option.some.inj h
      exact .over true
    · obtain rfl := Option.some.inj h
      exact .over false
    · obtain rfl := Option.some.inj h
      exact .goes rfl rfl
    · cases h
  case h_22 =>
    split at h
    · cases h
    · obtain rfl := Option.some.inj h
      exact .over false
  -- an error while asking
  all_goals
    obtain rfl := Option.some.inj h
    exact .refuse hname (by decide)

end SandboxActions

/-! ## What an idle observation means -/

/-- A session that was busy in one directory stays busy. -/
theorem isBusy_mergeGroup {result : Dict String (Option String)} {session : String}
    (group : Group) (h : isBusy (result.lookup session).join = true) :
    isBusy ((mergeGroup result group).lookup session).join = true := by
  unfold mergeGroup
  induction group generalizing result with
  | nil => exact h
  | cons entry group ih =>
    rw [List.foldl_cons]
    apply ih
    split
    · exact h
    next hentry =>
      have hne : session ≠ entry.1 := by
        rintro rfl
        exact hentry h
      rwa [AList.lookup_insert_ne hne]

theorem isBusy_of_mem_mergeGroup {result : Dict String (Option String)} {group : Group}
    {entry : String × Option String} (hmem : entry ∈ group) (h : isBusy entry.2 = true) :
    isBusy ((mergeGroup result group).lookup entry.1).join = true := by
  induction group generalizing result with
  | nil => exact absurd hmem List.not_mem_nil
  | cons first group ih =>
    rcases List.mem_cons.mp hmem with rfl | hmem
    · refine isBusy_mergeGroup group ?_
      dsimp only
      split
      · assumption
      · rw [AList.lookup_insert, Option.join_some]
        exact h
    · exact ih hmem

/-- **What idle means**: in no directory was a session busy or retrying. -/
theorem not_busy_of_observe {groups : List Group} (h : observe (groups.foldl mergeGroup ∅) = .idle)
    {group : Group} (hgroup : group ∈ groups) {entry : String × Option String} (hentry : entry ∈ group) :
    isBusy entry.2 = false := by
  have hmerged : ∀ (groups : List Group) (result : Dict String (Option String)),
      (group ∈ groups ∧ isBusy entry.2 = true ∨ isBusy (result.lookup entry.1).join = true) →
        isBusy ((groups.foldl mergeGroup result).lookup entry.1).join = true := by
    intro groups
    induction groups with
    | nil =>
      rintro result (⟨hmem, -⟩ | hbusy)
      · exact absurd hmem List.not_mem_nil
      · exact hbusy
    | cons first groups ih =>
      rintro result (⟨hmem, hbusy⟩ | hbusy)
      · rcases List.mem_cons.mp hmem with rfl | hmem
        · exact ih _ (.inr (isBusy_of_mem_mergeGroup hentry hbusy))
        · exact ih _ (.inl ⟨hmem, hbusy⟩)
      · exact ih _ (.inr (isBusy_mergeGroup first hbusy))
  by_contra hbusy
  rw [Bool.not_eq_false] at hbusy
  have hfound := hmerged groups ∅ (.inl ⟨hgroup, hbusy⟩)
  have hnone : (groups.foldl mergeGroup ∅).any (fun _ type => isBusy type) = false := by
    unfold observe at h
    split at h
    · cases h
    · exact eq_false_of_ne_true ‹_›
  cases hlook : (groups.foldl mergeGroup ∅).lookup entry.1 with
  | none => simp [hlook, isBusy] at hfound
  | some type =>
    rw [hlook, Option.join_some, Dict.any_eq_false.mp hnone _ _ hlook] at hfound
    cases hfound
/-! ## What has happened under the lock -/

/-- Task `i` holds the lock of the user. -/
def State.HeldBy (s : State) (i : Nat) (o : Owner) : Prop := (s.tasks[i]?).bind Task.holds = some o

instance (s : State) (i : Nat) (o : Owner) : Decidable (s.HeldBy i o) :=
  inferInstanceAs (Decidable (_ = _))

/-- The sessions of the user, when they were listed, have their statuses asked, one directory after the
other; `groups` are the answers so far. -/
def Answered (o : Owner) (groups : List (String × Option Group)) (s : State) (is : List Event) : Prop :=
  manager.Since (fun u js => List.Forall₂ (fun directory entry => entry.1 = directory ∧
      ∀ group, entry.2 = some group →
        manager.Since (fun v _ => (v.statuses.lookup (o, directory)).getD [] = group) u js)
    (directories ((u.sessions.lookup o).getD [])) groups) s is

/-- **The sandbox is confirmed idle**: at a moment it had no container that runs, or its sessions were
listed, every directory was asked, and the answers together say that all sessions are idle. -/
def ConfirmedIdle (o : Owner) (s : State) (is : List Event) : Prop :=
  manager.Since (fun u _ => u.NotRunning o) s is ∨
    ∃ groups : List (String × Option Group), Answered o groups s is ∧
      groups.all (·.2.isSome) = true ∧
      observe ((groups.map fun g => g.2.getD []).foldl mergeGroup ∅) = .idle

/-- What an action has found out at a stage. -/
def SandboxStage.evidence (o : Owner) : SandboxStage → State → List Event → Prop
  | .statuses _ groups => Answered o groups
  | stage => fun s is => stage.decided = true → ConfirmedIdle o s is

theorem Answered.snoc {o : Owner} {groups : List (String × Option Group)} {s t : State}
    {is : List Event} (h : Answered o groups s is) (hrun : manager.run s is = some t) (e : Event) :
    Answered o groups s (is ++ [e]) := by
  refine Machine.Since.snoc manager h hrun fun u js hjs hall => ?_
  refine List.Forall₂.imp (fun directory entry hentry => ⟨hentry.1, fun group hgroup => ?_⟩) hall
  exact Machine.Since.snoc manager (hentry.2 group hgroup) hjs fun v ks _ hv => hv

theorem ConfirmedIdle.snoc {o : Owner} {s t : State} {is : List Event} (h : ConfirmedIdle o s is)
    (hrun : manager.run s is = some t) (e : Event) : ConfirmedIdle o s (is ++ [e]) := by
  rcases h with hstopped | ⟨groups, hgroups, hall, hidle⟩
  · exact .inl (Machine.Since.snoc manager hstopped hrun fun u js _ hu => hu)
  · exact .inr ⟨groups, hgroups.snoc hrun e, hall, hidle⟩

/-- One more directory has answered. -/
theorem Answered.read {o : Owner} {groups : List (String × Option Group)} {s t : State}
    {is : List Event} (h : Answered o groups s is) (hrun : manager.run s is = some t) (e : Event)
    (directory : String) :
    Answered o (readGroup groups directory ((t.statuses.lookup (o, directory)).getD [])) s
      (is ++ [e]) := by
  refine Machine.Since.snoc manager h hrun fun u js hjs hall => ?_
  rw [readGroup, List.forall₂_map_right_iff]
  refine List.Forall₂.imp (fun d entry hentry => ?_) hall
  split
  next heq =>
    refine ⟨hentry.1, fun group hgroup => ?_⟩
    obtain rfl := Option.some.inj hgroup
    obtain rfl : directory = d := heq.1.symm.trans hentry.1
    exact manager.since_now [e] hjs rfl
  next =>
    refine ⟨hentry.1, fun group hgroup => ?_⟩
    exact Machine.Since.snoc manager (hentry.2 group hgroup) hjs fun v ks _ hv => hv

theorem SandboxStage.evidence.snoc {o : Owner} {stage : SandboxStage} {s t : State} {is : List Event}
    (h : stage.evidence o s is) (hrun : manager.run s is = some t) (e : Event) :
    stage.evidence o s (is ++ [e]) := by
  cases stage with
  | statuses r groups => exact Answered.snoc h hrun e
  | _ => exact fun hdecided => (h hdecided).snoc hrun e

theorem SandboxStage.evidence_of_decided {o : Owner} {stage : SandboxStage} {s : State}
    {is : List Event} (hdecided : stage.decided = true) (h : ConfirmedIdle o s is) :
    stage.evidence o s is := by
  cases stage with
  | statuses r groups => cases hdecided
  | _ => exact fun _ => h

theorem SandboxStage.confirmed {o : Owner} {stage : SandboxStage} {s : State}
    {is : List Event} (hdecided : stage.decided = true) (h : stage.evidence o s is) :
    ConfirmedIdle o s is := by
  cases stage with
  | statuses r groups => cases hdecided
  | _ => exact h hdecided

/-- **What an action finds out in a step**, it has from the step. -/
theorem IdleMove.evidence {o : Owner} {stage stage' : SandboxStage} {s t : State} {is : List Event}
    {x : Outcome} (h : IdleMove t o stage x stage') (hbefore : stage.evidence o s is)
    (hrun : manager.run s is = some t) (e : Event) (hstage : stage ≠ .lock) :
    stage'.evidence o s (is ++ [e]) := by
  cases h with
  | begun => exact absurd rfl hstage
  | asked _ hasks => 
    cases stage' with
    | statuses => cases hasks
    | _ => first | (intro hdecided; cases hdecided; done) | cases hasks
  | listed r =>
    refine manager.since_now [e] hrun ?_
    rw [List.forall₂_map_right_iff]
    refine List.forall₂_same.mpr fun directory _ => ⟨rfl, fun group hgroup => by cases hgroup⟩
  | read r groups directory => exact Answered.read hbefore hrun e directory
  | found _ hstopped hdecided =>
    exact SandboxStage.evidence_of_decided hdecided (.inl (manager.since_now [e] hrun hstopped))
  | observed r groups directory hall hidle hdecided =>
    exact SandboxStage.evidence_of_decided hdecided
      (.inr ⟨_, Answered.read hbefore hrun e directory, hall, hidle⟩)
  | goes hdecided hdecided' =>
    exact SandboxStage.evidence_of_decided hdecided'
      ((SandboxStage.confirmed hdecided hbefore).snoc hrun e)
  | «over» ok => exact fun hdecided => by cases hdecided

/-- At a moment under the lock the sandbox was free; what an action has found out, it has found out since
then, and it has held the lock all the time. -/
def Acted (i : Nat) (o : Owner) (stage : SandboxStage) (s : State) (is : List Event) : Prop :=
  manager.Since (fun u js => u.HeldBy i o ∧ u.Free o ∧ manager.Along (fun w _ => w.HeldBy i o) u js ∧
    stage.evidence o u js) s is

/-- The action goes on, or another task takes a step. -/
theorem Acted.snoc {i : Nat} {o : Owner} {stage stage' : SandboxStage} {s t : State} {is : List Event}
    (h : Acted i o stage s is) (hrun : manager.run s is = some t) (hheld : t.HeldBy i o) (e : Event)
    (hevidence : ∀ u js, manager.run u js = some t → stage.evidence o u js →
      stage'.evidence o u (js ++ [e])) : Acted i o stage' s (is ++ [e]) := by
  refine Machine.Since.snoc manager h hrun fun u js hjs ⟨hu, hfree, halong, hbefore⟩ => ?_
  refine ⟨hu, hfree, ?_, hevidence u js hjs hbefore⟩
  exact manager.along_append halong hjs ⟨hheld, fun v _ => trivial⟩

theorem State.heldBy {s : State} {i : Nat} {t : Task} {o : Owner} (ht : s.tasks[i]? = some t)
    (hacts : t.acts = some o) : s.HeldBy i o := by
  rw [HeldBy, ht, Option.bind_some]
  exact Task.holds_of_acts hacts

/-- A free sandbox stays so when an action begins on it. -/
theorem State.Free.set {s t : State} {o : Owner} (h : s.Free o) {i : Nat} {u : Task}
    (htasks : t.tasks = s.tasks.set i u) (hu : u.free o = true) : t.Free o := by
  intro v hv
  rw [htasks] at hv
  rcases List.mem_or_eq_of_mem_set hv with hold | rfl
  · exact h v hold
  · exact hu

/-- The history of every action without force, other than a start. -/
theorem acted_run {image : String} {is : List Event} {s : State}
    (hrun : manager.run (.initial image) is = some s) {i : Nat} {o : Owner} {name : SandboxAction}
    {stage : SandboxStage} (ht : s.tasks[i]? = some (.sandbox o name false stage))
    (hname : name ≠ .start) (hacts : (Task.sandbox o name false stage).acts = some o) :
    Acted i o stage (.initial image) is := by
  let I : List Event → State → Prop := fun is s => ∀ (i : Nat) o name stage,
    s.tasks[i]? = some (.sandbox o name false stage) → name ≠ .start →
      (Task.sandbox o name false stage).acts = some o → Acted i o stage (.initial image) is
  have hI : I is s := by
    refine manager.run_history (fun i o name stage ht => by simp [State.initial] at ht) ?_ hrun
    intro is t e t' hrun hbefore hstep i o name stage ht' hname hacts
    rcases State.tasks_step hstep ht' with hold | ⟨-, harrives⟩ | ⟨x, u, es, rfl, ht, hadvance, hs'⟩
    · exact (hbefore i o name stage hold hname hacts).snoc hrun (State.heldBy hold hacts) e
        fun u js hjs hev => hev.snoc hjs e
    · cases harrives
      cases hacts
    · obtain ⟨stage₀, rfl, hn⟩ := Task.sandbox_of_advance hadvance
      have hmove : IdleMove t o stage₀ x stage := advanceSandbox_idle hn hname
      by_cases hlock : stage₀ = .lock
      · subst hlock
        cases hmove with
        | begun r hleases hrequests =>
          have hfree : t'.Free o :=
            ((counted_run hrun).free hleases hrequests).set (by rw [hs']) rfl
          have hheld : t'.HeldBy i o := State.heldBy ht' hacts
          rw [← List.append_nil (is ++ [Event.step i .ok])]
          refine manager.since_now [] ?_ ⟨hheld, hfree, trivial, fun hdecided => by cases hdecided⟩
          rw [manager.run_append_eq hrun]
          exact manager.run_cons hstep
        | «over» ok => cases hacts
        | asked hasks | found hasks | goes hasks => cases hasks
      · have hholds : (Task.sandbox o name false stage₀).acts = some o := by
          cases stage₀ with
          | lock => exact absurd rfl hlock
          | «over» ok => simp [advanceSandbox] at hn
          | _ => rfl
        exact (hbefore i o name stage₀ ht hname hholds).snoc hrun (State.heldBy ht hholds) _
          fun u js hjs hev => hmove.evidence hev hjs _ hlock
  exact hI i o name stage ht hname hacts

/-- The sandbox whose container an action without force, other than a start, is stopping or removing. -/
def Task.stops : Task → Option Owner
  | .sandbox o name false stage =>
    match (Task.sandbox o name false stage).call with
    | some (.stop _ _) | some (.remove _ _) => if name = .start then none else some o
    | _ => none
  | _ => none

theorem Task.stops_decided {t : Task} {o : Owner} (h : t.stops = some o) :
    ∃ name stage, t = .sandbox o name false stage ∧ name ≠ .start ∧ stage.decided = true ∧
      t.acts = some o := by
  unfold stops at h
  split at h
  next o' name stage =>
    split at h
    case h_3 => cases h
    all_goals
      rename_i hcall
      split at h
      · cases h
      next hname =>
        obtain rfl := Option.some.inj h
        refine ⟨name, stage, rfl, hname, ?_⟩
        cases stage <;> first | exact ⟨rfl, rfl⟩ | cases hcall
  next => cases h

/-- **What is stopped was idle.** When an action without force stops or removes the container of a sandbox,
there was a moment since it holds the lock at which no lease was held but those of established event
subscriptions, and no mutating request of the Agent was in flight; since then the sandbox was confirmed
idle; and as long as an action holds the lock of a sandbox, no lease on it is granted. -/
theorem stopped_when_idle {image : String} {is : List Event} {s : State}
    (hrun : manager.run (.initial image) is = some s) :
    (∀ (i : Nat) (t : Task) o, s.tasks[i]? = some t → t.stops = some o →
        manager.Since (fun u js => u.HeldBy i o ∧ u.Free o ∧
          manager.Along (fun w _ => w.HeldBy i o) u js ∧ ConfirmedIdle o u js) (.initial image) is) ∧
      manager.Along (fun w e => ∀ t ∈ w.tasks, ∀ o, t.acts = some o → w.grants e ≠ some o)
        (.initial image) is := by
  constructor
  · intro i t o ht hstops
    obtain ⟨name, stage, rfl, hname, hdecided, hacts⟩ := Task.stops_decided hstops
    refine Machine.Since.imp manager ?_ (acted_run hrun ht hname hacts)
    rintro u js ⟨hheld, hfree, halong, hevidence⟩
    exact ⟨hheld, hfree, halong, SandboxStage.confirmed hdecided hevidence⟩
  · refine manager.along_always (I := State.Exclusive) (fun w e v hw hstep => hw.step hstep)
      (fun w e hw t ht o hacts => ?_) (.initial image) is
    obtain ⟨j, hj⟩ := List.mem_iff_getElem?.mp ht
    exact hw.not_grants hj hacts

/-! ## No single moment -/

/-- All of it at one moment under the lock: the sandbox is free, and it has no container that runs, or all
its sessions are idle. -/
def State.IdleAt (s : State) (i : Nat) (o : Owner) : Prop :=
  s.HeldBy i o ∧ s.Free o ∧
    (s.NotRunning o ∨ ∀ directory ∈ directories ((s.sessions.lookup o).getD []),
      ∀ session ∈ (s.statuses.lookup (o, directory)).getD [], session.2 = some "idle")

instance (s : State) (i : Nat) (o : Owner) : Decidable (s.IdleAt i o) :=
  inferInstanceAs (Decidable (_ ∧ _ ∧ _))

/-- A sandbox that was used, with one session. -/
def used : List Event :=
  [.publish "a" (some ⟨"1", "image"⟩)] ++ creating 0 ("a", "u") ++
  answers 0 [.ok, .ok, .ok, .ok, .ok, .ok, .ok] ++ [.sessions ("a", "u") ["s"]]

/-- The session is busy when the sandbox is to be stopped; before it is asked, a request of another user
comes in, and then it becomes idle. -/
def passing : List Event :=
  used ++ [.statuses ("a", "u") "/workspace" [("s", some "busy")]] ++
  [.sandboxAction ("a", "u") .stop false] ++ answers 1 [.ok, .ok, .ok] ++
  [.request ("a", "v") .mutate] ++ answers 2 [.ok] ++
  [.statuses ("a", "u") "/workspace" [("s", some "idle")]] ++
  answers 1 [.ok, .statuses "/workspace", .statuses "/workspace/sessions/s", .ok]

theorem stopped_while_busy : ¬ ∀ image is s (i : Nat) (t : Task) o,
    manager.run (.initial image) is = some s → s.tasks[i]? = some t → t.stops = some o →
      manager.Since (fun u _ => u.IdleAt i o) (.initial image) is := by
  intro hall
  have hstops : ((manager.run (.initial "image") passing).all fun s =>
      !(s.tasks[1]?).any fun t => t.stops == some ("a", "u")) = false := by decide +kernel
  obtain ⟨s, hrun, hs⟩ := manager.exists_run_of_all_eq_false hstops
  simp only [Bool.not_eq_false', Option.any_eq_true, beq_iff_eq] at hs
  obtain ⟨t, ht, hstops⟩ := hs
  obtain ⟨js, ks, u, hsplit, hjs, hidle⟩ := hall "image" passing s 1 t _ hrun ht hstops
  -- at no moment, the last one included
  have hnever : manager.Along (fun u _ => ¬ u.IdleAt 1 ("a", "u")) (.initial "image")
      (passing ++ [.late 0]) := by decide +kernel
  rw [hsplit, List.append_assoc] at hnever
  have hrest := manager.along_suffix hnever hjs
  cases ks with
  | nil => exact hrest.1 hidle
  | cons e ks => exact hrest.1 hidle

/-- The sandbox is idle all the time. -/
def resting : List Event :=
  used ++ [.sandboxAction ("a", "u") .stop false] ++ answers 1
    [.ok, .ok, .ok, .ok, .statuses "/workspace", .statuses "/workspace/sessions/s", .ok]

theorem resting_stopped_when_idle : ∃ s t, manager.run (.initial "image") resting = some s ∧
    s.tasks[1]? = some t ∧ t.stops = some ("a", "u") ∧
      manager.Since (fun u js => u.HeldBy 1 ("a", "u") ∧ u.Free ("a", "u") ∧
        manager.Along (fun w _ => w.HeldBy 1 ("a", "u")) u js ∧ ConfirmedIdle ("a", "u") u js)
        (.initial "image") resting := by
  have hstops : ((manager.run (.initial "image") resting).all fun s =>
      !(s.tasks[1]?).any fun t => t.stops == some ("a", "u")) = false := by decide +kernel
  obtain ⟨s, hrun, hs⟩ := manager.exists_run_of_all_eq_false hstops
  simp only [Bool.not_eq_false', Option.any_eq_true, beq_iff_eq] at hs
  obtain ⟨t, ht, hstops⟩ := hs
  exact ⟨s, t, hrun, ht, hstops, (stopped_when_idle hrun).1 1 t ("a", "u") ht hstops⟩


end OpencodeCloud.Sandbox.Backend
