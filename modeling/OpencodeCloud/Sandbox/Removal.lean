/-
# OpencodeCloud.Sandbox.Removal -- removing every container of an Agent

Apply, delete and the cleanup of a load-test user remove containers by the ids in the records
(`remove_records`). They look for no container by its name. So they leave behind what no record names: the
container of an acquisition that failed or was cancelled between creating it and writing its id down,
when removing it failed as well.

A removal empties what it is for when, as it lists the records, **they name every container there is**, and
nothing is on the way that could create another one.
-/
import OpencodeCloud.Sandbox.Leases

namespace OpencodeCloud.Sandbox.Backend

open OpencodeCloud.Library World

/-! ## What is still to be removed -/

/-- The containers that the records name. -/
def ids (todo : List (Owner × SandboxRecord)) : List (Owner × Nat) :=
  todo.filterMap fun item => item.2.containerId.map fun id => (item.1, id)

/-- The containers a removal still comes to. -/
def Removal.remaining : Removal → List (Owner × Nat)
  | .looking o id todo => (o, id) :: ids todo
  | .discarding o c todo => (o, c.id) :: ids todo
  | .refused | .done => []

/-- The removal in flight. -/
def Removal.call : Removal → Option Call
  | .discarding o c _ => some (.remove o c.id)
  | _ => none

theorem removeNext_remaining (s : State) (todo : List (Owner × SandboxRecord)) :
    (removeNext s todo).1 = .refused ∨ (removeNext s todo).1.remaining = ids todo := by
  induction todo with
  | nil => exact .inr rfl
  | cons item todo ih =>
    obtain ⟨o, r⟩ := item
    unfold removeNext
    split
    · exact .inl rfl
    · split
      next id hid => exact .inr (by simp [Removal.remaining, ids, hid])
      next hid =>
        rcases ih with hrefused | hids
        · exact .inl hrefused
        · exact .inr (by simp [ids, hid] at hids ⊢; exact hids)

/-- The containers of certain users are all in a list. -/
def World.Covered (w : World) (p : Owner → Prop) (l : List (Owner × Nat)) : Prop :=
  ∀ o c, p o → w.docker.lookup o = some c → (o, c.id) ∈ l

/-- A removal goes on: a container that is not removed now is still to come. -/
theorem Removal.covered_next {s : State} {loadTest : Option String} {r : Removal} {x : Outcome}
    {n : Removal × List Effect} {p : Owner → Prop} (h : r.next s loadTest x = some n)
    (hcovered : s.world.Covered p r.remaining) :
    n.1 = .refused ∨
      (if x.answers then r.call.elim s.world s.world.perform else s.world).Covered p n.1.remaining := by
  unfold Removal.next at h
  split at h
  case h_1 o id todo =>
    split at h
    next hfind =>
      obtain rfl := Option.some.inj h
      rcases removeNext_remaining s todo with hrefused | hids
      · exact .inl hrefused
      · refine .inr fun o' c hp (hc : s.world.docker.lookup o' = some c) => ?_
        simp only [removed, hids]
        rcases List.mem_cons.mp (hcovered o' c hp hc) with heq | hmem
        · obtain ⟨rfl, rfl⟩ := Prod.mk.inj heq
          rw [find_eq_some.mpr ⟨hc, rfl⟩] at hfind
          cases hfind
        · exact hmem
    next c hfind =>
      split at h
      · obtain rfl := Option.some.inj h
        refine .inr fun o' c' hp hc' => ?_
        obtain ⟨-, rfl⟩ := find_eq_some.mp hfind
        exact hcovered o' c' hp hc'
      · obtain rfl := Option.some.inj h
        exact .inl rfl
  case h_2 o c todo =>
    obtain rfl := Option.some.inj h
    rcases removeNext_remaining s todo with hrefused | hids
    · exact .inl hrefused
    · refine .inr fun o' c' hp hc' => ?_
      replace hc' : (s.world.perform (.remove o c.id)).docker.lookup o' = some c' := hc'
      simp only [removed, hids]
      rcases docker_perform hc' with ⟨c'', hc'', heq⟩ | ⟨d, l, hcall, -⟩
      · have hid : c'.id = c''.id := by rw [heq]
        rcases List.mem_cons.mp (hcovered o' c'' hp hc'') with hsame | hmem
        · obtain ⟨rfl, hid'⟩ := Prod.mk.inj hsame
          exact absurd (hid.trans hid') (docker_remove hc')
        · rw [hid]
          exact hmem
      · cases hcall
  all_goals repeat' split at h
  all_goals first
    | contradiction
    | obtain rfl := Option.some.inj h
      exact .inl rfl

/-! ## Nothing is on the way -/

/-- An acquisition that holds a definition, and may create a container. -/
def Acquisition.engaged : Acquisition → Bool
  | .load | .raised | .done _ => false
  | _ => true

/-- No acquisition for certain users is under way, and no creation of theirs is left over. -/
structure State.Still (s : State) (p : Owner → Prop) : Prop where
  tasks : ∀ (i : Nat) (t : Task) o q, s.tasks[i]? = some t → t.acquisition = some (o, q) → p o →
    q.engaged = false
  late : ∀ o d l, Call.create o d l ∈ s.late → ¬ p o

/-- The user whose definition a step gets from the catalog. -/
def State.loads (s : State) : Event → Option Owner
  | .step i .ok =>
    match (s.tasks[i]?).bind Task.acquisition with
    | some (o, .load) => some o
    | _ => none
  | _ => none

theorem Task.acquisition_of_create {t : Task} {o : Owner} {d : Definition} {l : Option String}
    (h : t.call = some (.create o d l)) : t.acquisition = some (o, .create d l) := by
  have hcall : ∀ (p : Acquisition) (o' : Owner), p.call o' = some (.create o d l) →
      o' = o ∧ p = .create d l := by
    intro p o' hp
    cases p <;> simp_all [Acquisition.call]
  cases t with
  | request o' kind stage =>
    cases stage with
    | acquiring p =>
      obtain ⟨rfl, rfl⟩ := hcall p o' h
      rfl
    | _ => cases h
  | sandbox o' name force stage =>
    cases stage with
    | acquiring p =>
      obtain ⟨rfl, rfl⟩ := hcall p o' h
      rfl
    | _ => cases h
  | agent q stage =>
    cases stage with
    | acquiring v p =>
      obtain ⟨heq, rfl⟩ := hcall p v.user h
      rw [← heq]
      rfl
    | removing p => cases p <;> cases h
    | _ => cases h
  | cleanup o' run stage =>
    cases stage with
    | removing p => cases p <;> cases h
    | _ => cases h

/-- What a step creates comes from an acquisition, or is left over. -/
theorem State.create_of_performs {s : State} {e : Event} {o : Owner} {d : Definition}
    {l : Option String} (h : s.performs e = some (.create o d l)) :
    (∃ (i : Nat) (t : Task), s.tasks[i]? = some t ∧ t.acquisition = some (o, .create d l)) ∨
      Call.create o d l ∈ s.late := by
  cases e with
  | step i x =>
    simp only [performs] at h
    split at h
    · obtain ⟨t, ht, hcall⟩ := Option.bind_eq_some_iff.mp h
      exact .inl ⟨i, t, ht, Task.acquisition_of_create hcall⟩
    · cases h
  | late k => exact .inr (List.mem_of_getElem? h)
  | _ => cases h

theorem State.Still.not_creates {s : State} {p : Owner → Prop} (h : s.Still p) {e : Event}
    {o : Owner} {d : Definition} {l : Option String} (hperforms : s.performs e = some (.create o d l)) :
    ¬ p o := by
  intro hp
  rcases create_of_performs hperforms with ⟨i, t, ht, hacq⟩ | hlate
  · exact absurd (h.tasks i t o _ ht hacq hp) (by simp [Acquisition.engaged])
  · exact h.late o d l hlate hp

/-- Where an acquisition that holds nothing goes without the catalog, it holds nothing. -/
theorem Acquisition.engaged_next {w : World} {catalog : Option Definition} {o : Owner}
    {p p' : Acquisition} {x : Outcome} (h : p.next w catalog o x = some p')
    (hp : p.engaged = false) (hload : p = .load → x ≠ .ok) : p'.engaged = false := by
  cases p with
  | load => cases x <;> simp_all [Acquisition.next, handler] <;> (obtain rfl := h; rfl)
  | done c | raised => simp [Acquisition.next] at h
  | _ => cases hp

/-- **Nothing gets on the way** but an acquisition that the catalog gives a definition. -/
theorem State.Still.step {s s' : State} {p : Owner → Prop} (h : s.Still p) {e : Event}
    (hstep : s.step e = some s') (hloads : ∀ o, s.loads e = some o → ¬ p o) : s'.Still p := by
  constructor
  · intro j t' o q ht' hacq hp
    rcases tasks_step hstep ht' with hold | ⟨-, harrives⟩ | ⟨x, t, es, rfl, ht, hadvance, -⟩
    · exact h.tasks j t' o q hold hacq hp
    · cases harrives <;> cases hacq
    · rcases Task.acquisition_advance hadvance hacq with rfl | ⟨q₀, hq₀, hnext⟩
      · rfl
      · refine Acquisition.engaged_next hnext (h.tasks j t o q₀ ht hq₀ hp) ?_
        rintro rfl rfl
        exact hloads o (by simp [loads, ht, hq₀]) hp
  · intro o d l hlate
    rcases late_step hstep hlate with hold | ⟨i, x, t, -, -, ht, hcall⟩
    · exact h.late o d l hold
    · intro hp
      exact absurd (h.tasks i t o _ ht (Task.acquisition_of_create hcall) hp)
        (by simp [Acquisition.engaged])

/-- While nothing is on the way, no container is added. -/
theorem State.Still.covered {s s' : State} {p : Owner → Prop} (h : s.Still p) {e : Event}
    (hstep : s.step e = some s') {l : List (Owner × Nat)} (hcovered : s.world.Covered p l) :
    s'.world.Covered p l := by
  intro o c hp hc
  rcases docker_step hstep hc with ⟨c', hc', heq⟩ | ⟨d, t, hperforms, -, -⟩
  · rw [heq]
    exact hcovered o c' hp hc'
  · exact absurd hp (h.not_creates hperforms)

/-! ## Emptying an Agent -/

def AgentAction.isApply : AgentAction → Bool
  | .apply _ => true
  | _ => false

def AgentAction.isDelete : AgentAction → Bool
  | .delete => true
  | _ => false

/-- The actions that remove containers when the Agent is drained. -/
def AgentAction.removes : AgentAction → Bool
  | .quiesce | .resume | .restore | .verify => false
  | _ => true

section Kind

-- which actions are meant: the applies, or the deletions
variable (kind : AgentAction → Bool)

/-- The Agent whose containers a task is removing. -/
def Task.emptying : Task → Option String
  | .agent q (.removing _) => if kind q.name then some q.agent else none
  | _ => none

/-- The request of an action that lists the records now. -/
def State.lists (s : State) : Event → Option AgentRequest
  | .step i .ok =>
    match s.tasks[i]? with
    | some (.agent q .drain) => if kind q.name then some q else none
    | _ => none
  | _ => none

end Kind

/-- The record of a user names his container. -/
def World.names (w : World) (o : Owner) (c : Container) : Bool :=
  ((w.sandboxes.lookup o).bind SandboxRecord.containerId) == some c.id

/-- The records name every container of an Agent. -/
def State.Remembers (s : State) (a : String) : Prop :=
  (s.world.docker.all fun o c => o.1 != a || s.world.names o c) = true

/-- The user a call creates a container for. -/
def World.Call.creates : Call → Option Owner
  | .create o _ _ => some o
  | _ => none

def Task.isRequest : Task → Bool
  | .request _ _ _ => true
  | _ => false

/-- No action on a sandbox of the Agent and no verification is in an acquisition, and no creation is
left over. (No native request is in one: the counter of acquisitions was at zero.) -/
def State.Quiet (s : State) (a : String) : Prop :=
  (∀ t ∈ s.tasks, t.isRequest = false → ∀ w ∈ t.acquisition, w.1.1 = a → w.2.engaged = false) ∧
    ∀ c ∈ s.late, ∀ o ∈ c.creates, o.1 ≠ a

instance (s : State) (a : String) : Decidable (s.Remembers a) :=
  inferInstanceAs (Decidable (_ = true))

instance (s : State) (a : String) : Decidable (s.Quiet a) :=
  inferInstanceAs (Decidable (_ ∧ _))

/-- **Sound removals.** When such an action lists the records, it is for all users, the records name
every container, and nothing is on the way; and while it removes the containers, the catalog gives no
definition of the Agent to an acquisition. -/
def SoundRemoval (kind : AgentAction → Bool) (s : State) (e : Event) : Prop :=
  (∀ q ∈ s.lists kind e, q.username = none ∧ s.Remembers q.agent ∧ s.Quiet q.agent) ∧
    ∀ o ∈ s.loads e, ∀ t ∈ s.tasks, t.emptying kind ≠ some o.1

instance (kind : AgentAction → Bool) (s : State) (e : Event) : Decidable (SoundRemoval kind s e) :=
  inferInstanceAs (Decidable (_ ∧ _))

theorem State.Remembers.covered {s : State} {a : String} (h : s.Remembers a) :
    s.world.Covered (·.1 = a) (ids (s.records a none)) := by
  intro o c ho hc
  have hnames := Dict.all_eq_true.mp h o c hc
  simp only [Bool.or_eq_true, bne_iff_ne, ne_eq, ho, not_true_eq_false, false_or, names,
    beq_iff_eq] at hnames
  obtain ⟨r, hr, hid⟩ := Option.bind_eq_some_iff.mp hnames
  exact List.mem_filterMap.mpr ⟨(o, r), Dict.mem_collect.mpr ⟨o, r, hr, by simp [ho]⟩, by simp [hid]⟩

/-! ## What only the actions on an Agent change -/

def Effect.ofAgent : Effect → Bool
  | .block _ | .unblock _ | .unverify _ | .stage _ _ | .applied _ | .commit _ | .verified _ _
  | .deleteAgent _ => true
  | _ => false

theorem Task.agent_effect {s : State} {t t' : Task} {x : Outcome} {es : List Effect}
    (h : t.advance s x = some (t', es)) {e : Effect} (he : e ∈ es) (hagent : e.ofAgent = true) :
    ∃ q stage n, t = .agent q stage ∧ t' = .agent q n.1 ∧ advanceAgent s q stage x = some n ∧
      es = n.2 := by
  cases t with
  | request o kind stage =>
    obtain ⟨n, hn, heq⟩ := Option.map_eq_some_iff.mp h
    obtain ⟨rfl, rfl⟩ := Prod.mk.inj heq
    have hcounts := (advanceRequest_move hn).effect he
    cases e <;> first | cases hagent; done | cases hcounts
  | sandbox o name force stage =>
    obtain ⟨n, hn, heq⟩ := Option.map_eq_some_iff.mp h
    obtain ⟨rfl, rfl⟩ := Prod.mk.inj heq
    rcases advanceSandbox_effect hn he with rfl | ⟨image, rfl⟩ <;> cases hagent
  | agent q stage =>
    obtain ⟨n, hn, heq⟩ := Option.map_eq_some_iff.mp h
    obtain ⟨rfl, rfl⟩ := Prod.mk.inj heq
    exact ⟨q, stage, n, rfl, rfl, hn, rfl⟩
  | cleanup o run stage =>
    obtain ⟨n, hn, heq⟩ := Option.map_eq_some_iff.mp h
    obtain ⟨rfl, rfl⟩ := Prod.mk.inj heq
    rcases advanceCleanup_effect hn he with ⟨o', rfl⟩ | rfl <;> cases hagent

/-! ## Blocks -/

theorem State.mem_blocked_apply {s : State} {e : Effect} {a : String} (h : a ∈ s.blocked)
    (he : e ≠ .unblock a) : a ∈ (s.apply e).blocked := by
  cases e with
  | block a' => exact List.mem_cons_of_mem _ h
  | unblock a' =>
    refine List.mem_filter.mpr ⟨h, ?_⟩
    rw [bne_iff_ne]
    rintro rfl
    exact he rfl
  | _ => exact h

theorem State.mem_blocked_applyAll {s : State} {es : List Effect} {a : String} (h : a ∈ s.blocked)
    (hes : .unblock a ∉ es) : a ∈ (s.applyAll es).blocked := by
  induction es generalizing s with
  | nil => exact h
  | cons e es ih =>
    rw [List.mem_cons, not_or] at hes
    exact ih (mem_blocked_apply h (Ne.symm hes.1)) hes.2

theorem State.blocked_conclude (s : State) (call : Option Call) (x : Outcome) :
    (s.conclude call x).blocked = s.blocked := by
  unfold conclude
  split <;> rfl

/-- **A block goes away** only by an action on the Agent that resumes it, under the lock. -/
theorem State.blocked_step {s s' : State} {e : Event} (h : s.step e = some s') {a : String}
    (ha : a ∈ s.blocked) :
    a ∈ s'.blocked ∨ ∃ (i : Nat) (q : AgentRequest) (stage : AgentStage),
      s.tasks[i]? = some (.agent q stage) ∧ q.agent = a ∧
      (stage = .lock ∧ s.agentLocked a = false ∨ ∃ target targets, stage = .committing target targets) := by
  cases e with
  | step i x =>
    obtain ⟨t, t', es, ht, hadvance, -, rfl⟩ := step_task h
    by_cases hes : .unblock a ∈ es
    · obtain ⟨q, stage, n, rfl, rfl, hn, rfl⟩ := Task.agent_effect hadvance hes rfl
      refine .inr ⟨i, q, stage, ht, ?_⟩
      cases (advanceAgent_move hn).effect hes with
      | unblock hfree => exact ⟨rfl, .inl ⟨rfl, hfree⟩⟩
      | resumed => exact ⟨rfl, .inr ⟨_, _, rfl⟩⟩
    · exact .inl (mem_blocked_applyAll (by rw [blocked_conclude]; exact ha) hes)
  | late k =>
    simp only [step, Option.bind_eq_bind, Option.bind_eq_some_iff, Option.pure_def] at h
    obtain ⟨call, -, h⟩ := h
    obtain rfl := Option.some.inj h
    exact .inl ha
  | agentAction q =>
    simp only [step] at h
    split at h
    · obtain rfl := Option.some.inj h
      exact .inl ha
    · cases h
  | request o kind | sandboxAction o name force | cleanup o run | publish a' d | container o status
  | sessions o ids | statuses o directory group =>
    obtain rfl := Option.some.inj h
    exact .inl ha


/-! ## How a task comes to remove -/

/-- A stage in which the Agent is blocked by the action. -/
def AgentStage.blocks : AgentStage → Bool
  | .drain | .removing _ => true
  | _ => false

section AgentActions

variable {s : State} {q : AgentRequest}

theorem commitNext_blocks (targets : List String) : (commitNext q targets).1.blocks = false := by
  cases targets <;> rfl

theorem loadNext_blocks (targets : List String) : (loadNext targets).1.blocks = false := by
  cases targets <;> rfl

theorem verifyNext_blocks (v : Verification) (users : List Owner) :
    (verifyNext v users).1.blocks = false := by
  cases users with
  | nil => exact loadNext_blocks v.targets
  | cons user users => rfl

theorem begin_blocks (h : (begin s q).1.blocks = true) : begin s q = (.drain, [.block q.agent]) := by
  unfold begin at h ⊢
  split at h
  · rw [commitNext_blocks] at h
    cases h
  · cases h
  · rw [loadNext_blocks] at h
    cases h
  · rfl

theorem begin_of_removes (h : q.name.removes = true) : begin s q = (.drain, [.block q.agent]) := by
  unfold begin
  cases hname : q.name <;> first | rfl | (rw [hname] at h; cases h)

theorem goRemoving_removing {m : Removal × List Effect} {p : Removal}
    (h : (goRemoving q m).1 = .removing p) : m.1 = p ∧ p ≠ .refused := by
  unfold goRemoving at h
  split at h
  · cases h
  · split at h <;> cases h
  next hrefused _ =>
    obtain rfl := AgentStage.removing.inj h
    exact ⟨rfl, hrefused⟩

/-- An action comes to block by beginning, or was blocking. -/
theorem AgentMove.blocking {stage : AgentStage} {x : Outcome} {n : AgentStage × List Effect}
    (h : AgentMove s q stage x n) (hn : n.1.blocks = true) :
    n = (.drain, [.block q.agent]) ∨ stage.blocks = true := by
  cases h with
  | begun => exact .inl (begin_blocks hn)
  | drained | removed => exact .inr rfl
  | uncommitted | committed =>
    rw [commitNext_blocks] at hn
    cases hn
  | loaded | skipped | acquired =>
    rw [verifyNext_blocks] at hn
    cases hn
  | refused | desired | locked | acquires | failed => cases hn

/-- A removal begins when the Agent is drained, or goes on. -/
theorem AgentMove.removing {stage : AgentStage} {x : Outcome} {n : AgentStage × List Effect}
    {p : Removal} (h : AgentMove s q stage x n) (hn : n.1 = .removing p) :
    (stage = .drain ∧ x = .ok ∧ Backend.drained s q = true ∧
        (removeNext s (s.records q.agent q.username)).1 = p ∧ p ≠ .refused) ∨
      ∃ p₀ m, stage = .removing p₀ ∧ p₀.next s none x = some m ∧ m.1 = p ∧ p ≠ .refused := by
  have hblocks : n.1.blocks = true := by rw [hn]; rfl
  cases h with
  | begun =>
    rw [begin_blocks hblocks] at hn
    cases hn
  | drained hdrained =>
    refine .inl ⟨rfl, rfl, hdrained, ?_⟩
    unfold applyAction at hn
    split at hn
    · cases hn
    · exact goRemoving_removing hn
    · exact goRemoving_removing hn
  | removed hm => exact .inr ⟨_, _, rfl, hm, goRemoving_removing hn⟩
  | uncommitted | committed =>
    rw [commitNext_blocks] at hblocks
    cases hblocks
  | loaded | skipped | acquired =>
    rw [verifyNext_blocks] at hblocks
    cases hblocks
  | refused | desired | locked | acquires | failed => cases hn

theorem goRemoving_over {m : Removal × List Effect} (h : (goRemoving q m).1 = .over true) :
    m.1 = .done := by
  unfold goRemoving at h
  split at h
  · cases h
  · assumption
  · cases h

/-- A removal answers with success when it is done. -/
theorem AgentMove.succeeds {stage : AgentStage} {x : Outcome} {n : AgentStage × List Effect}
    (h : AgentMove s q stage x n) (hremoves : q.name.removes = true) (hblocks : stage.blocks = true)
    (hn : n.1 = .over true) :
    (stage = .drain ∧ x = .ok ∧ Backend.drained s q = true ∧
        (removeNext s (s.records q.agent q.username)).1 = .done) ∨
      ∃ p₀ m, stage = .removing p₀ ∧ p₀.next s none x = some m ∧ m.1 = .done := by
  cases h with
  | drained hdrained =>
    refine .inl ⟨rfl, rfl, hdrained, ?_⟩
    unfold applyAction at hn
    split at hn
    next hname =>
      rw [hname] at hremoves
      cases hremoves
    · exact goRemoving_over hn
    · exact goRemoving_over hn
  | removed hm => exact .inr ⟨_, _, rfl, hm, goRemoving_over hn⟩
  | refused | failed => cases hn
  | _ => cases hblocks

/-- A removal is drained first, and then it removes, until it is over. -/
theorem AgentMove.stays {stage : AgentStage} {x : Outcome} {n : AgentStage × List Effect}
    (h : AgentMove s q stage x n) (hremoves : q.name.removes = true)
    (hstage : stage = .lock ∨ stage.blocks = true ∨ ∃ ok, stage = .over ok) :
    n.1.blocks = true ∨ ∃ ok, n.1 = .over ok := by
  have hgo : ∀ m, (goRemoving q m).1.blocks = true ∨ ∃ ok, (goRemoving q m).1 = .over ok := by
    intro m
    unfold goRemoving
    split
    · exact .inr ⟨false, rfl⟩
    · split <;> exact .inr ⟨true, rfl⟩
    · exact .inl rfl
  cases h with
  | begun =>
    rw [begin_of_removes hremoves]
    exact .inl rfl
  | drained =>
    unfold applyAction
    split
    · exact .inr ⟨true, rfl⟩
    · exact hgo _
    · exact hgo _
  | removed => exact hgo _
  | refused | failed => exact .inr ⟨false, rfl⟩
  | uncommitted | committed | loaded | desired | skipped | locked | acquires | acquired =>
    rcases hstage with heq | heq | ⟨ok, heq⟩ <;> cases heq

end AgentActions

/-! ## The invariant -/

/-- The containers of an Agent are on their way out: no native request is in an acquisition, nothing else
is on the way, and every container is still to come. -/
structure State.Emptying (s : State) (a : String) (l : List (Owner × Nat)) : Prop where
  requests : ∀ (i : Nat) o kind stage, s.tasks[i]? = some (.request o kind stage) → o.1 = a →
    stage = .check ∨ stage.acquires = false
  still : s.Still (·.1 = a)
  covered : s.world.Covered (·.1 = a) l

/-- **What holds of every removal** of the kind. -/
structure State.Removals (kind : AgentAction → Bool) (s : State) : Prop where
  exclusive : s.Exclusive
  counted : s.Counted
  allowed : ∀ (i : Nat) q stage, s.tasks[i]? = some (.agent q stage) → State.allowed q = true
  blocked : ∀ (i : Nat) q stage, s.tasks[i]? = some (.agent q stage) → stage.blocks = true →
    q.agent ∈ s.blocked
  stages : ∀ (i : Nat) q stage, s.tasks[i]? = some (.agent q stage) → kind q.name = true →
    stage = .lock ∨ stage.blocks = true ∨ ∃ ok, stage = .over ok
  emptying : ∀ (i : Nat) q p, s.tasks[i]? = some (.agent q (.removing p)) → kind q.name = true →
    s.Emptying q.agent p.remaining

theorem State.Removals.initial (kind : AgentAction → Bool) (image : String) :
    (State.initial image).Removals kind :=
  ⟨.initial image, .initial image, fun i q stage h => by simp [State.initial] at h,
    fun i q stage h => by simp [State.initial] at h, fun i q stage h => by simp [State.initial] at h,
    fun i q p h => by simp [State.initial] at h⟩

theorem State.allowed_step {s s' : State} {e : Event} (hstep : s.step e = some s')
    (h : ∀ (i : Nat) q stage, s.tasks[i]? = some (.agent q stage) → State.allowed q = true)
    (j : Nat) (q : AgentRequest) (stage : AgentStage) (ht : s'.tasks[j]? = some (.agent q stage)) :
    State.allowed q = true := by
  rcases tasks_step hstep ht with hold | ⟨-, harrives⟩ | ⟨x, t, es, rfl, ht₀, hadvance, -⟩
  · exact h j q stage hold
  · cases harrives
    assumption
  · obtain ⟨stage₀, rfl, -⟩ := Task.agent_of_advance hadvance
    exact h j q stage₀ ht₀

/-- A task that holds the lock of an Agent rules out that another one lifts the block. -/
theorem State.Exclusive.blocked {s s' : State} {e : Event} (h : s.Exclusive)
    (hstep : s.step e = some s') {i : Nat} {q : AgentRequest} {stage : AgentStage}
    (ht : s.tasks[i]? = some (.agent q stage)) (hblocks : stage.blocks = true)
    (hblocked : q.agent ∈ s.blocked) : q.agent ∈ s'.blocked := by
  have hholds : (Task.agent q stage).holdsAgent = some q.agent := by
    cases stage <;> first | rfl | cases hblocks
  rcases blocked_step hstep hblocked with hkept | ⟨j, q', stage', ht', hq', hlock⟩
  · exact hkept
  · rcases hlock with ⟨-, hfree⟩ | ⟨target, targets, rfl⟩
    · exact absurd hholds (agentLocked_eq_false hfree ht)
    · obtain rfl := h.agent i j _ _ _ ht ht' hholds (by rw [← hq']; rfl)
      obtain rfl := (Task.agent.inj (Option.some.inj (ht.symm.trans ht'))).2
      cases hblocks

/-- Native requests stay out of an Agent that is blocked. -/
theorem State.requests_step {s s' : State} {e : Event} (hstep : s.step e = some s') {a : String}
    (hblocked : a ∈ s.blocked)
    (h : ∀ (i : Nat) o kind stage, s.tasks[i]? = some (.request o kind stage) → o.1 = a →
      stage = .check ∨ stage.acquires = false)
    (i : Nat) (o : Owner) (kind : RequestKind) (stage : RequestStage)
    (ht : s'.tasks[i]? = some (.request o kind stage)) (ho : o.1 = a) :
    stage = .check ∨ stage.acquires = false := by
  have hblocks : s.blocks o.1 = true := by simp [State.blocks, ho, hblocked]
  rcases tasks_step hstep ht with hold | ⟨-, harrives⟩ | ⟨x, t, es, rfl, ht₀, hadvance, -⟩
  · exact h i o kind stage hold ho
  · cases harrives
    exact .inr rfl
  · obtain ⟨stage₀, rfl, hmove⟩ := Task.request_of_advance hadvance
    have hbefore := h i o kind stage₀ ht₀ ho
    generalize hn : (stage, es) = n at hmove
    obtain rfl : n.1 = stage := by rw [← hn]
    cases hmove with
    | begun => exact .inl rfl
    | checked hopen | admitted hopen | locked _ hopen =>
      rw [hblocks] at hopen
      cases hopen
    | acquires => rcases hbefore with hcheck | hout <;> contradiction
    | finished | closed =>
      unfold release
      split <;> exact .inr rfl
    | refused | granted | failed | subscribed | released => exact .inr rfl

/-- An Agent that is being emptied, in a step of another task. -/
theorem State.Emptying.step {s s' : State} {e : Event} {a : String} {l : List (Owner × Nat)}
    (h : s.Emptying a l) (hstep : s.step e = some s') (hblocked : a ∈ s.blocked)
    (hloads : ∀ o, s.loads e = some o → o.1 ≠ a) : s'.Emptying a l :=
  ⟨requests_step hstep hblocked h.requests, h.still.step hstep hloads,
    h.still.covered hstep h.covered⟩

/-- No global action removes anything. -/
theorem State.ne_global {q : AgentRequest} (h : State.allowed q = true)
    (hremoves : q.name.removes = true) : q.agent ≠ "*" := by
  intro heq
  simp only [State.allowed, heq] at h
  cases hname : q.name <;> simp [hname, AgentAction.removes] at h hremoves

section Kind

variable {kind : AgentAction → Bool} (hremoves : ∀ name, kind name = true → name.removes = true)

include hremoves

/-- The records are listed: everything that is there is on the list. -/
theorem State.Removals.listed {s s' : State} {i : Nat} {q : AgentRequest} (h : s.Removals kind)
    (hstep : s.step (.step i .ok) = some s') (ht : s.tasks[i]? = some (.agent q .drain))
    (hkind : kind q.name = true) (hdrained : drained s q = true)
    (hC : SoundRemoval kind s (.step i .ok)) :
    s'.Emptying q.agent (ids (s.records q.agent q.username)) := by
  obtain ⟨husername, hremembers, hquiet⟩ := hC.1 q (by simp [lists, ht, hkind])
  have hzero : count s.acquiring q.agent = 0 := by
    unfold drained at hdrained
    rw [if_neg (State.ne_global (h.allowed i q .drain ht) (hremoves _ hkind)), Bool.and_eq_true] at hdrained
    simpa using hdrained.2
  have houtside : ∀ (i : Nat) o kind stage, s.tasks[i]? = some (.request o kind stage) →
      o.1 = q.agent → stage.acquires = false := by
    intro i o kind stage hi ho
    have := not_of_tally_eq_zero ((h.counted.acquiring q.agent).symm.trans hzero) hi
    simpa [ho] using this
  have hstill : s.Still (·.1 = q.agent) := by
    constructor
    · intro j t o p hj hacq ho
      by_cases hrequest : t.isRequest = true
      · cases t with
        | request o' kind stage =>
          cases stage with
          | acquiring p' =>
            obtain ⟨rfl, rfl⟩ := Prod.mk.inj (Option.some.inj hacq)
            have := houtside j o' kind _ hj ho
            cases this
          | _ => cases hacq
        | _ => cases hrequest
      · exact hquiet.1 t (List.mem_of_getElem? hj) (eq_false_of_ne_true hrequest) (o, p) hacq ho
    · intro o d l hmem
      exact hquiet.2 _ hmem o rfl
  have hblocked := h.blocked i q .drain ht rfl
  have hemptying : s.Emptying q.agent (ids (s.records q.agent q.username)) :=
    ⟨fun j o kind stage hj ho => .inr (houtside j o kind stage hj ho), hstill,
      husername ▸ hremembers.covered⟩
  exact hemptying.step hstep hblocked fun o ho => by simp [loads, ht, Task.acquisition] at ho

/-- **A removal takes a step**: what it does not remove now is still to come. -/
theorem State.Removals.emptied {s s' : State} {i : Nat} {x : Outcome} {q : AgentRequest}
    {stage : AgentStage} {p : Removal} (h : s.Removals kind) (hC : SoundRemoval kind s (.step i x))
    (hstep : s.step (.step i x) = some s') (ht : s.tasks[i]? = some (.agent q stage))
    (hkind : kind q.name = true) (hgoes : p ≠ .refused)
    (hmove : (stage = .drain ∧ x = .ok ∧ drained s q = true ∧
        (removeNext s (s.records q.agent q.username)).1 = p) ∨
      ∃ p₀ m, stage = .removing p₀ ∧ p₀.next s none x = some m ∧ m.1 = p) :
    s'.Emptying q.agent p.remaining := by
  rcases hmove with ⟨rfl, rfl, hdrained, hp⟩ | ⟨p₀, m, rfl, hm, hp⟩
  · rcases removeNext_remaining s (s.records q.agent q.username) with hrefused | hids
    · exact absurd (hp.symm.trans hrefused) hgoes
    · rw [← hp, hids]
      exact h.listed hremoves hstep ht hkind hdrained hC
  · have hbefore := h.emptying i q p₀ ht hkind
    have hblocked := h.blocked i q _ ht rfl
    refine ⟨requests_step hstep hblocked hbefore.requests,
      hbefore.still.step hstep fun o ho heq => ?_, ?_⟩
    · exact hC.2 o ho _ (List.mem_of_getElem? ht) (by simp [Task.emptying, hkind, heq])
    · rcases Removal.covered_next hm hbefore.covered with hrefused | hcovered
      · exact absurd (hp.symm.trans hrefused) hgoes
      · rw [← hp]
        intro o c ho hc
        refine hcovered o c ho ?_
        obtain ⟨t, t', es, ht', -, -, rfl⟩ := step_task hstep
        obtain rfl := Option.some.inj (ht.symm.trans ht')
        simp only [applyAll_frame (fun s => s.world.docker) docker_apply, world_conclude] at hc
        have hcall : (Task.agent q (.removing p₀)).call = p₀.call := by cases p₀ <;> rfl
        rwa [hcall] at hc

theorem State.Removals.step {s s' : State} {e : Event} (h : s.Removals kind)
    (hC : SoundRemoval kind s e) (hstep : s.step e = some s') : s'.Removals kind := by
  refine ⟨h.exclusive.step hstep, h.counted.step hstep, allowed_step hstep h.allowed, ?_, ?_, ?_⟩
  · intro j q stage ht hblocks
    rcases tasks_step hstep ht with hold | ⟨-, harrives⟩ | ⟨x, t, es, rfl, ht₀, hadvance, hs'⟩
    · exact h.exclusive.blocked hstep hold hblocks (h.blocked j q stage hold hblocks)
    · cases harrives
      cases hblocks
    · obtain ⟨stage₀, rfl, hmove⟩ := Task.agent_of_advance hadvance
      rcases hmove.blocking hblocks with heq | hbefore
      · obtain ⟨rfl, rfl⟩ := Prod.mk.inj heq
        rw [hs']
        exact List.mem_cons_self
      · exact h.exclusive.blocked hstep ht₀ hbefore (h.blocked j q stage₀ ht₀ hbefore)
  · intro j q stage ht hkind
    rcases tasks_step hstep ht with hold | ⟨-, harrives⟩ | ⟨x, t, es, rfl, ht₀, hadvance, -⟩
    · exact h.stages j q stage hold hkind
    · cases harrives
      exact .inl rfl
    · obtain ⟨stage₀, rfl, hmove⟩ := Task.agent_of_advance hadvance
      exact .inr (hmove.stays (hremoves _ hkind) (h.stages j q stage₀ ht₀ hkind))
  · intro j q p ht hkind
    rcases tasks_step hstep ht with hold | ⟨-, harrives⟩ | ⟨x, t, es, rfl, ht₀, hadvance, -⟩
    · refine (h.emptying j q p hold hkind).step hstep (h.blocked j q _ hold rfl) fun o ho heq => ?_
      exact hC.2 o ho _ (List.mem_of_getElem? hold) (by simp [Task.emptying, hkind, heq])
    · cases harrives
    · obtain ⟨stage₀, rfl, hmove⟩ := Task.agent_of_advance hadvance
      rcases hmove.removing rfl with ⟨hdrain, hx, hdrained, hp, hgoes⟩ | ⟨p₀, m, hstage, hm, hp, hgoes⟩
      · exact h.emptied hremoves hC hstep ht₀ hkind hgoes (.inl ⟨hdrain, hx, hdrained, hp⟩)
      · exact h.emptied hremoves hC hstep ht₀ hkind hgoes (.inr ⟨p₀, m, hstage, hm, hp⟩)

/-- An action of the kind answers with success: the Agent is empty, and nothing is on the way. -/
theorem State.Removals.succeeded {s s' : State} {i : Nat} {x : Outcome} {q : AgentRequest}
    {stage : AgentStage} {n : AgentStage × List Effect} (h : s.Removals kind)
    (hC : SoundRemoval kind s (.step i x)) (hstep : s.step (.step i x) = some s')
    (ht : s.tasks[i]? = some (.agent q stage)) (hkind : kind q.name = true)
    (hn : advanceAgent s q stage x = some n) (hover : n.1 = .over true) : s'.Emptying q.agent [] := by
  have hmove := advanceAgent_move hn
  rcases h.stages i q stage ht hkind with rfl | hblocks | ⟨ok, rfl⟩
  · cases hmove with
    | begun =>
      rw [begin_of_removes (hremoves _ hkind)] at hover
      cases hover
    | failed => cases hover
  · exact h.emptied hremoves hC hstep ht hkind (p := .done) (by simp)
      (hmove.succeeds (hremoves _ hkind) hblocks hover)
  · simp [advanceAgent] at hn

end Kind

end OpencodeCloud.Sandbox.Backend
