/-
# OpencodeCloud.Operations.Pinning -- load tests and jobs exclude each other

A load test pins the active version of its agents: while it is active no job may hold one of them.
Two transactions test for this, `Store.submit` on the side of jobs and `LoadTestStore.create` on the
side of load tests. `LoadTestStore.create` has its own list of statuses, which lacks `interrupted`;
`Store.retry_deletion`, and a worker that writes `needs_recovery` or `interrupted`, make a job a
holder again without looking at load tests. `load_exclusive` is the result without these three.
-/
import OpencodeCloud.Operations.Lease

namespace OpencodeCloud.Operations

open OpencodeCloud.Library OpencodeCloud.Catalog

/-! ## §A Active tests on a scope -/

namespace Store

/-- No active load test has a user on the agent of a lease-holding job, nor any user at all while a
job holds every agent. -/
def LoadExclusive (s : Store) : Prop :=
  ∀ rid r name u jid j, s.loadTests.lookup rid = some r → r.status.active = true →
    s.loadTestUsers.lookup name = some u → u.runId = rid →
    s.jobs.lookup jid = some j → j.status.leaseHolding = true →
    ¬ (j.scope = u.agentId ∨ j.scope = everyAgent)

/-- The test of a user is active. -/
def activeUser (s : Store) (u : LoadTestUser) : Bool :=
  match s.loadTests.lookup u.runId with
  | some r => r.status.active
  | none => false

/-- An active load test has a user on the scope. -/
def loadOn (s : Store) (scope : String) : Bool :=
  s.loadTestUsers.any fun _ u => (scope == everyAgent || u.agentId == scope) && s.activeUser u

theorem loadOn_eq_true {s : Store} {scope : String} :
    s.loadOn scope = true ↔ ∃ name u, s.loadTestUsers.lookup name = some u ∧
      (scope = everyAgent ∨ u.agentId = scope) ∧ s.activeUser u = true := by
  simp [loadOn, Dict.any_eq_true]

theorem activeUser_eq_true {s : Store} {u : LoadTestUser} :
    s.activeUser u = true ↔ ∃ r, s.loadTests.lookup u.runId = some r ∧ r.status.active = true := by
  unfold activeUser
  cases s.loadTests.lookup u.runId <;> simp

theorem loadExclusive_iff {s : Store} :
    s.LoadExclusive ↔ ∀ jid j, s.jobs.lookup jid = some j → j.status.leaseHolding = true →
      s.loadOn j.scope = false := by
  constructor
  · intro h jid j hj hhold
    rw [← Bool.not_eq_true, loadOn_eq_true]
    rintro ⟨name, u, hu, hscope, hact⟩
    obtain ⟨r, hr, hra⟩ := activeUser_eq_true.mp hact
    exact h u.runId r name u jid j hr hra hu rfl hj hhold (hscope.symm.imp_left Eq.symm)
  · rintro h rid r name u jid j hr hra hu rfl hj hhold hscope
    have hon : s.loadOn j.scope = true := loadOn_eq_true.mpr
      ⟨name, u, hu, hscope.symm.imp_right Eq.symm, activeUser_eq_true.mpr ⟨r, hr, hra⟩⟩
    rw [h jid j hj hhold] at hon
    exact Bool.noConfusion hon

/-- Every test that is active on a scope in `s'` was so in `s`. -/
def LoadsShrink (s s' : Store) : Prop := ∀ scope, s'.loadOn scope = true → s.loadOn scope = true

theorem loadsShrink_of_eq {s s' : Store} (ht : s'.loadTests = s.loadTests)
    (hu : s'.loadTestUsers = s.loadTestUsers) : LoadsShrink s s' := by
  intro scope h
  simpa only [loadOn, activeUser, ht, hu] using h

/-- Loads shrink when no user changes its agent and no test becomes active. -/
theorem loadsShrink_of {s s' : Store}
    (husers : ∀ name u', s'.loadTestUsers.lookup name = some u' →
      ∃ u, s.loadTestUsers.lookup name = some u ∧ u.agentId = u'.agentId ∧ u.runId = u'.runId)
    (htests : ∀ rid r', s'.loadTests.lookup rid = some r' → r'.status.active = true →
      ∃ r, s.loadTests.lookup rid = some r ∧ r.status.active = true) : LoadsShrink s s' := by
  intro scope h
  obtain ⟨name, u', hu', hscope, hact⟩ := loadOn_eq_true.mp h
  obtain ⟨u, hu, hagent, hrun⟩ := husers name u' hu'
  obtain ⟨r', hr', hra'⟩ := activeUser_eq_true.mp hact
  obtain ⟨r, hr, hra⟩ := htests _ r' hr' hra'
  exact loadOn_eq_true.mpr ⟨name, u, hu, by rwa [hagent],
    activeUser_eq_true.mpr ⟨r, by rwa [hrun], hra⟩⟩

/-- A change of one test that does not make it active. -/
theorem updateLoadTest_loadsShrink {s : Store} {rid : String} {f : LoadTest → LoadTest}
    (hf : ∀ r, s.loadTests.lookup rid = some r → (f r).status.active = true →
      r.status.active = true) : LoadsShrink s (s.updateLoadTest rid f) := by
  refine loadsShrink_of (fun name u' hu' => ⟨u', hu', rfl, rfl⟩) fun i r' hr' hra' => ?_
  rcases Dict.lookup_modify_cases hr' with ⟨rfl, r, hr, rfl⟩ | ⟨_, hr⟩
  · exact ⟨r, hr, hf r hr hra'⟩
  · exact ⟨r', hr, hra'⟩

/-- What `submit` tests is enough: an unpinned scope has no active load test. -/
theorem loadOn_of_pinned {s : Store} {scope : String} (h : s.pinned scope = false) :
    s.loadOn scope = false := by
  rw [← Bool.not_eq_true, loadOn_eq_true]
  rintro ⟨name, u, hu, hscope, hact⟩
  obtain ⟨r, hr, hra⟩ := activeUser_eq_true.mp hact
  unfold pinned at h
  split at h
  · have := Dict.any_eq_false.mp h _ r hr
    rw [hra] at this
    exact Bool.noConfusion this
  · rename_i hstar
    obtain rfl : u.agentId = scope := hscope.resolve_left (by simpa using hstar)
    have := Dict.any_eq_false.mp h name u hu
    simp [hr, hra] at this

/-- The users that a new test adds are on its agents and belong to it. -/
theorem lookup_addUsers {users : Dict String LoadTestUser} {hex name : String} {u : LoadTestUser} :
    ∀ {index : Nat} {agents : List String},
      (addUsers users hex index agents).lookup name = some u →
      users.lookup name = some u ∨ (u.agentId ∈ agents ∧ u.runId = "lt_" ++ hex)
  | _, [], h => Or.inl h
  | index, aid :: rest, h => by
    rcases Dict.lookup_insert_cases h with ⟨_, rfl⟩ | ⟨_, hold⟩
    · exact Or.inr ⟨List.mem_cons_self, rfl⟩
    · rcases lookup_addUsers hold with hu | ⟨hmem, hrun⟩
      · exact Or.inl hu
      · exact Or.inr ⟨List.mem_cons_of_mem _ hmem, hrun⟩

theorem mem_requestedUsers {request : LoadRequest} {aid : String}
    (h : aid ∈ requestedUsers request) : ∃ a ∈ request.agents, a.agentId = aid := by
  obtain ⟨a, ha, hmem⟩ := List.mem_flatMap.mp h
  exact ⟨a, ha, (List.eq_of_mem_replicate hmem).symm⟩

end Store

/-! ## §B What a step does to the load tests -/

/-- The load tests, their users and their runners are what they were. -/
def SameLoads (sys sys' : System) : Prop :=
  sys'.store.loadTests = sys.store.loadTests ∧
    sys'.store.loadTestUsers = sys.store.loadTestUsers ∧ sys'.loadRunners = sys.loadRunners

theorem Worker.checkpoint_loads {s : Store} {w next : Worker} {f : Job → Job} :
    (w.checkpoint s f next).1.loadTests = s.loadTests ∧
      (w.checkpoint s f next).1.loadTestUsers = s.loadTestUsers := by
  unfold checkpoint
  split
  · rename_i s' hs
    obtain ⟨_, _, _, rfl⟩ := Store.transition_eq_ok.mp hs
    exact ⟨rfl, rfl⟩
  · split <;> exact ⟨rfl, rfl⟩

/-- A worker does not touch the load tests. -/
theorem Worker.work_loads (s : Store) (w : Worker) (raises : Bool) :
    (w.work s raises).1.loadTests = s.loadTests ∧
      (w.work s raises).1.loadTestUsers = s.loadTestUsers := by
  cases raises with
  | true => exact ⟨rfl, rfl⟩
  | false =>
    cases hpc : w.pc with
    | start | validateMark | quiesceMark | applyMark | verifyMark | commitMark =>
      simp only [work, hpc, Bool.false_eq_true, if_false]
      exact checkpoint_loads
    | desiredMark | stopped | leave =>
      simp only [work, hpc, Bool.false_eq_true, if_false]
      split <;> exact ⟨rfl, rfl⟩
    | sandboxDeletedMark | filesDeletedMark | finish | stoppedMark | settle | resumeFailed =>
      simp only [work, hpc, Bool.false_eq_true, if_false]
      exact ⟨rfl, rfl⟩
    | _ =>
      simp only [work, hpc, Bool.false_eq_true, if_false]
      exact ⟨trivial, trivial⟩

theorem Reconciler.work_loads (s : Store) (t : Reconciler) (raises : Bool) :
    (t.work s raises).1.loadTests = s.loadTests ∧
      (t.work s raises).1.loadTestUsers = s.loadTestUsers := by
  unfold work
  split
  · exact ⟨rfl, rfl⟩
  · split <;> exact ⟨rfl, rfl⟩

/-- The inputs of the load-test side; `restart` belongs to both sides. -/
def Event.onLoads : Event → Bool
  | .restart | .createLoadTest _ _ _ | .loadStep _ _ | .cancelLoadTest _ => true
  | .cleanupLoadTest _ _ | .cleanedUser _ _ | .cleanupEnd _ _ => true
  | _ => false

/-- The job side leaves the load tests alone. -/
theorem step_sameLoads {sys sys' : System} {e : Event} (hside : e.onLoads = false)
    (h : sys.step e = some sys') : SameLoads sys sys' := by
  have same : SameLoads sys sys := ⟨rfl, rfl, rfl⟩
  cases e <;> simp only [Event.onLoads, Bool.true_eq_false] at hside
  case submit jid fallback kind target scope payload before =>
    simp only [System.step, System.submit] at h
    split at h
    · simp at h
    · split at h
      · rename_i s job hs
        obtain rfl := Option.some.inj h
        rcases Store.submit_eq_ok hs with ⟨hf, _⟩ | ⟨_, _, _, _, rfl⟩
        · simp at hf
        · exact ⟨rfl, rfl, rfl⟩
      · obtain rfl := Option.some.inj h
        exact same
  case work task raises =>
    obtain ⟨w, _, _, _, rfl⟩ := System.work_eq_some.mp h
    exact ⟨(w.work_loads _ _).1, (w.work_loads _ _).2, rfl⟩
  case reply task answer =>
    obtain ⟨w, _, _, rfl⟩ := System.reply_eq_some.mp h
    exact ⟨rfl, rfl, rfl⟩
  case stop task =>
    obtain ⟨w, _, _, rfl⟩ := System.stop_eq_some.mp h
    exact ⟨rfl, rfl, rfl⟩
  case cancel jid =>
    simp only [System.step, System.cancel] at h
    split at h
    · obtain rfl := Option.some.inj h
      exact same
    · split at h
      · obtain rfl := Option.some.inj h
        exact same
      · split at h
        · rename_i s hs
          obtain rfl := Option.some.inj h
          obtain ⟨_, _, _, rfl⟩ := Store.transition_eq_ok.mp hs
          exact ⟨rfl, rfl, rfl⟩
        · obtain rfl := Option.some.inj h
          exact same
  case retry jid payload executionId =>
    simp only [System.step, System.retry] at h
    split at h
    · rename_i s job hs
      obtain rfl := Option.some.inj h
      rcases Store.retryDeletion_eq_ok hs with ⟨hf, _⟩ | ⟨_, _, _, _, _, _, _, rfl⟩
      · simp at hf
      · exact ⟨rfl, rfl, rfl⟩
    · obtain rfl := Option.some.inj h
      exact same
  case reconcile jid requestId =>
    simp only [System.step, System.reconcile] at h
    split at h <;> (obtain rfl := Option.some.inj h; exact ⟨rfl, rfl, rfl⟩)
  case reconcileWork task raises =>
    obtain ⟨t, _, _, _, rfl⟩ := System.reconcileWork_eq_some.mp h
    exact ⟨(t.work_loads _ _).1, (t.work_loads _ _).2, rfl⟩
  case reconcileReply task answer =>
    obtain ⟨t, _, _, rfl⟩ := System.reconcileReply_eq_some.mp h
    exact ⟨rfl, rfl, rfl⟩

/-- Users belong to tests of the table, and the test of a runner that has not finished is active. -/
structure LoadsOk (sys : System) : Prop where
  owned : ∀ name u, sys.store.loadTestUsers.lookup name = some u → u.runId ∈ sys.store.loadTests
  runs : ∀ rid pc, sys.loadRunners.lookup rid = some pc → pc ≠ .ended →
    ∃ r, sys.store.loadTests.lookup rid = some r ∧ r.status.active = true

theorem mem_updateLoadTest {s : Store} {rid i : String} {f : LoadTest → LoadTest} :
    i ∈ (s.updateLoadTest rid f).loadTests ↔ i ∈ s.loadTests := by
  rw [← AList.lookup_isSome, ← AList.lookup_isSome]
  by_cases hi : i = rid
  · subst hi
    simp [Store.updateLoadTest]
  · simp [Store.updateLoadTest, hi]

/-- The change of one test, together with its runner. -/
theorem loadsOk_update {sys : System} (hok : LoadsOk sys) {rid : String} {test : LoadTest}
    {f : LoadTest → LoadTest} {runners : Dict String LoadPc} {cleaners : List String}
    (hother : ∀ i pc, i ≠ rid → runners.lookup i = some pc → sys.loadRunners.lookup i = some pc)
    (htest : sys.store.loadTests.lookup rid = some test)
    (hruns : ∀ pc, runners.lookup rid = some pc → pc ≠ .ended → (f test).status.active = true) :
    LoadsOk { sys with
      store := sys.store.updateLoadTest rid f, loadRunners := runners, cleaners := cleaners } := by
  refine ⟨fun name u hu => mem_updateLoadTest.mpr (hok.owned name u hu), fun i pc hpc hne => ?_⟩
  by_cases hi : i = rid
  · subst hi
    exact ⟨f test, by simp [Store.updateLoadTest, htest], hruns pc hpc hne⟩
  · obtain ⟨r, hr, hra⟩ := hok.runs i pc (hother i pc hi hpc) hne
    exact ⟨r, by simpa [Store.updateLoadTest, hi] using hr, hra⟩

/-- What one stretch of the runner writes: nothing, or a change of its own test that makes it active
only where it was, and that leaves it active while the runner goes on. -/
theorem loadRun_writes {s s' : Store} {rid : String} {test : LoadTest} {pc next : LoadPc}
    {outcome : LoadOutcome} (h : loadRun s rid test pc outcome = some (s', next))
    (hact : pc ≠ .waiting → test.status.active = true) :
    (s' = s ∧ next = .ended) ∨
    ∃ f, s' = s.updateLoadTest rid f ∧
      ((f test).status.active = true → test.status.active = true) ∧
      (next ≠ .ended → (f test).status.active = true) := by
  have finished : ∀ st : LoadStatus, st.active = false → ∀ f : LoadTest → LoadTest,
      (f test).status = st → s' = s.updateLoadTest rid f → next = .ended →
      ∃ f, s' = s.updateLoadTest rid f ∧
        ((f test).status.active = true → test.status.active = true) ∧
        (next ≠ .ended → (f test).status.active = true) := by
    intro st hst f hf hs hnext
    exact ⟨f, hs, fun h => by simp [hf, hst] at h, fun h => absurd hnext h⟩
  unfold loadRun at h
  split at h
  · split at h
    · simp only [Option.some.injEq, Prod.mk.injEq] at h
      exact Or.inl ⟨h.1.symm, h.2.symm⟩
    · rename_i hactive
      simp only [Bool.not_eq_true, Bool.not_eq_false'] at hactive
      split at h
      · simp only [Option.some.injEq, Prod.mk.injEq] at h
        exact Or.inr (finished .failed rfl _ rfl h.1.symm h.2.symm)
      · split at h
        · simp only [Option.some.injEq, Prod.mk.injEq] at h
          exact Or.inr ⟨_, h.1.symm, fun _ => hactive, fun _ => rfl⟩
        · simp only [Option.some.injEq, Prod.mk.injEq] at h
          exact Or.inr (finished .failed rfl _ rfl h.1.symm h.2.symm)
  · simp only [Option.some.injEq, Prod.mk.injEq] at h
    exact Or.inr ⟨_, h.1.symm, fun _ => hact (by simp), fun _ => rfl⟩
  · simp only [Option.some.injEq, Prod.mk.injEq] at h
    exact Or.inr (finished .failed rfl _ rfl h.1.symm h.2.symm)
  · rename_i allSucceeded
    simp only [Option.some.injEq, Prod.mk.injEq] at h
    exact Or.inr (finished (completion allSucceeded) (by cases allSucceeded <;> rfl) _ rfl
      h.1.symm h.2.symm)
  · simp at h
  · simp only [Option.some.injEq, Prod.mk.injEq] at h
    exact Or.inr (finished .failed rfl _ rfl h.1.symm h.2.symm)
  · simp only [Option.some.injEq, Prod.mk.injEq] at h
    exact Or.inr (finished (if test.cancelRequested then .cancelled else .interrupted)
      (by split <;> rfl) _ rfl h.1.symm h.2.symm)
  · simp at h

theorem Store.recovered_inactive (r : LoadTest) : (Store.recovered r).status.active = false := by
  unfold Store.recovered
  cases hr : r.status.active <;> simp only [Bool.false_eq_true, if_false, if_true] <;> split <;>
    simp_all [LoadStatus.active]

/-- What a step does to the active tests. -/
inductive LoadsStep (sys : System) (e : Event) (sys' : System) : Prop
  | shrinks (h : Store.LoadsShrink sys.store sys'.store)
  | created (agents : Dict String Agent) (hex : String) (request : LoadRequest)
      (event : e = .createLoadTest agents hex request) (jobs : sys'.store.jobs = sys.store.jobs)
      (unblocked : (sys.store.jobs.any fun _ j => Store.blocksLoadTest j.status &&
        (j.scope == everyAgent || request.agents.any fun a => a.agentId == j.scope)) = false)
      (grown : ∀ scope, sys'.store.loadOn scope = true → sys.store.loadOn scope = true ∨
        scope = everyAgent ∨ ∃ a ∈ request.agents, a.agentId = scope)

theorem restart_loads {sys : System} (hok : LoadsOk sys) :
    LoadsOk sys.restart ∧ Store.LoadsShrink sys.store sys.restart.store := by
  have htests : ∀ i, sys.restart.store.loadTests.lookup i =
      (sys.store.loadTests.lookup i).map Store.recovered := fun i => by
    rw [System.restart_store]
    exact Dict.lookup_mapValues
  have husers : sys.restart.store.loadTestUsers = sys.store.loadTestUsers := by
    rw [System.restart_store]
    rfl
  refine ⟨⟨fun name u hu => ?_, fun rid pc hpc => ?_⟩, Store.loadsShrink_of ?_ ?_⟩
  · rw [husers] at hu
    rw [← AList.lookup_isSome, htests, Option.isSome_map, AList.lookup_isSome]
    exact hok.owned name u hu
  · simp [System.restart_loadRunners] at hpc
  · intro name u hu
    rw [husers] at hu
    exact ⟨u, hu, rfl, rfl⟩
  · intro rid r' hr' hra'
    rw [htests] at hr'
    obtain ⟨r, _, rfl⟩ := Option.map_eq_some_iff.mp hr'
    rw [Store.recovered_inactive] at hra'
    exact Bool.noConfusion hra'

theorem createLoadTest_loads {sys sys' : System} {agents : Dict String Agent} {hex : String}
    {request : LoadRequest} (hok : LoadsOk sys)
    (h : sys.createLoadTest agents hex request = some sys') :
    LoadsOk sys' ∧ LoadsStep sys (.createLoadTest agents hex request) sys' := by
  have same : LoadsOk sys ∧ LoadsStep sys (.createLoadTest agents hex request) sys :=
    ⟨hok, .shrinks fun _ h => h⟩
  unfold System.createLoadTest at h
  split at h
  · simp at h
  rename_i hfresh
  split at h
  swap
  · obtain rfl := Option.some.inj h
    exact same
  rename_i s rid hs
  obtain rfl := Option.some.inj h
  rcases Store.createLoadTest_eq_ok hs with ⟨hf, _⟩ | ⟨_, hrid, hjobs, test, _, _, hstatus, rfl⟩
  · simp at hf
  subst hrid
  refine ⟨⟨fun name u hu => ?_, fun i pc hpc hne => ?_⟩,
    .created agents hex request rfl rfl hjobs fun scope hon => ?_⟩
  · rw [AList.mem_insert]
    rcases Store.lookup_addUsers hu with hold | ⟨_, hrun⟩
    · exact Or.inr (hok.owned name u hold)
    · exact Or.inl hrun
  · rcases Dict.lookup_insert_cases hpc with ⟨rfl, _⟩ | ⟨hi, hold⟩
    · exact ⟨test, by simp, by rw [hstatus]; rfl⟩
    · obtain ⟨r, hr, hra⟩ := hok.runs i pc hold hne
      exact ⟨r, by rwa [AList.lookup_insert_ne hi], hra⟩
  · obtain ⟨name, u, hu, hscope, hact⟩ := Store.loadOn_eq_true.mp hon
    rcases Store.lookup_addUsers hu with hold | ⟨hmem, _⟩
    · -- an old user belongs to an old test, which the new one does not replace
      left
      have hne : u.runId ≠ "lt_" ++ hex := fun heq => hfresh (heq ▸ hok.owned name u hold)
      obtain ⟨r, hr, hra⟩ := Store.activeUser_eq_true.mp hact
      refine Store.loadOn_eq_true.mpr ⟨name, u, hold, hscope,
        Store.activeUser_eq_true.mpr ⟨r, ?_, hra⟩⟩
      rwa [AList.lookup_insert_ne hne] at hr
    · right
      rcases hscope with hstar | hagent
      · exact Or.inl hstar
      · exact Or.inr (hagent ▸ Store.mem_requestedUsers hmem)

/-- A change of one test that keeps its status. -/
theorem cleanupStatus_loads {sys : System} (hok : LoadsOk sys) {e : Event} {rid : String}
    {st : CleanupStatus} {cleaners : List String} :
    let sys' : System := { sys with
      store := sys.store.updateLoadTest rid fun r => { r with cleanupStatus := st }
      cleaners := cleaners }
    LoadsOk sys' ∧ LoadsStep sys e sys' := by
  refine ⟨⟨fun name u hu => mem_updateLoadTest.mpr (hok.owned name u hu), fun i pc hpc hne => ?_⟩,
    .shrinks (Store.updateLoadTest_loadsShrink fun _ _ hra => hra)⟩
  obtain ⟨r, hr, hra⟩ := hok.runs i pc hpc hne
  by_cases hi : i = rid
  · subst hi
    exact ⟨{ r with cleanupStatus := st }, by simp [Store.updateLoadTest, hr], hra⟩
  · exact ⟨r, by simpa [Store.updateLoadTest, hi] using hr, hra⟩

/-- Marking the users of a finished test for cleanup. -/
theorem cleaning_loads {sys : System} (hok : LoadsOk sys) {e : Event} {rid : String}
    {cleaners : List String} :
    let sys' : System := { sys with
      store := System.markCleaning sys.store rid, cleaners := cleaners }
    LoadsOk sys' ∧ LoadsStep sys e sys' := by
  have marked : ∀ name u', (System.markCleaning sys.store rid).loadTestUsers.lookup name = some u' →
      ∃ u, sys.store.loadTestUsers.lookup name = some u ∧ u.agentId = u'.agentId ∧
        u.runId = u'.runId := by
    intro name u' hu'
    simp only [System.markCleaning, Dict.lookup_mapValues] at hu'
    obtain ⟨u, hu, rfl⟩ := Option.map_eq_some_iff.mp hu'
    refine ⟨u, hu, ?_, ?_⟩ <;> split <;> rfl
  obtain ⟨hok', _⟩ : LoadsOk _ ∧ LoadsStep sys e _ := @cleanupStatus_loads sys hok e rid .cleaning cleaners
  refine ⟨⟨fun name u' hu' => ?_, hok'.runs⟩, .shrinks (Store.loadsShrink_of marked ?_)⟩
  · obtain ⟨u, hu, _, hrun⟩ := marked name u' hu'
    have := hok'.owned name u hu
    rwa [hrun] at this
  · intro i r' hr' hra'
    rcases Dict.lookup_modify_cases hr' with ⟨rfl, r, hr, rfl⟩ | ⟨_, hr⟩
    · exact ⟨r, hr, hra'⟩
    · exact ⟨r', hr, hra'⟩

/-- **What a step does to the load tests.** -/
theorem step_loads {sys sys' : System} {e : Event} (hok : LoadsOk sys)
    (h : sys.step e = some sys') : LoadsOk sys' ∧ LoadsStep sys e sys' := by
  have same : ∀ e, LoadsOk sys ∧ LoadsStep sys e sys := fun e => ⟨hok, .shrinks fun _ h => h⟩
  by_cases hside : e.onLoads = false
  · obtain ⟨ht, hu, hr⟩ := step_sameLoads hside h
    refine ⟨⟨fun name u hl => ?_, fun rid pc hl hne => ?_⟩,
      .shrinks (Store.loadsShrink_of_eq ht hu)⟩
    · rw [ht]
      exact hok.owned name u (by rwa [hu] at hl)
    · rw [ht]
      exact hok.runs rid pc (by rwa [hr] at hl) hne
  cases e <;> simp only [Event.onLoads, not_true] at hside
  case restart =>
    obtain rfl := Option.some.inj h
    exact ⟨(restart_loads hok).1, .shrinks (restart_loads hok).2⟩
  case createLoadTest agents hex request => exact createLoadTest_loads hok h
  case loadStep rid outcome =>
    simp only [System.step, System.loadStep, Option.bind_eq_bind, Option.bind_eq_some_iff] at h
    obtain ⟨test, htest, pc, hpc, ⟨s, next⟩, hrun, hret⟩ := h
    obtain rfl := Option.some.inj hret
    have hact : pc ≠ .waiting → test.status.active = true := by
      intro _
      have hne : pc ≠ .ended := by
        rintro rfl
        simp [loadRun] at hrun
      obtain ⟨r, hr, hra⟩ := hok.runs rid pc hpc hne
      rwa [Option.some.inj (htest.symm.trans hr)]
    rcases loadRun_writes hrun hact with ⟨rfl, rfl⟩ | ⟨f, rfl, hf, hnext⟩
    · refine ⟨⟨hok.owned, fun i p hp hne => ?_⟩, .shrinks fun _ h => h⟩
      rcases Dict.lookup_insert_cases hp with ⟨_, rfl⟩ | ⟨_, hold⟩
      · exact absurd rfl hne
      · exact hok.runs i p hold hne
    · refine ⟨loadsOk_update hok (fun i p hi hp => ?_) htest
        fun p hp hne => ?_, .shrinks (Store.updateLoadTest_loadsShrink fun r hr hra => ?_)⟩
      · rwa [AList.lookup_insert_ne hi] at hp
      · rw [AList.lookup_insert, Option.some.injEq] at hp
        exact hnext fun hend => hne (hp.symm.trans hend)
      · obtain rfl : test = r := Option.some.inj (htest.symm.trans hr)
        exact hf hra
  case cancelLoadTest rid =>
    simp only [System.step, System.cancelLoadTest] at h
    split at h
    · obtain rfl := Option.some.inj h
      exact same _
    · rename_i test htest
      split at h
      · obtain rfl := Option.some.inj h
        exact same _
      · rename_i hactive
        simp only [Bool.or_eq_true, Bool.not_eq_true', not_or, Bool.not_eq_false] at hactive
        obtain rfl := Option.some.inj h
        refine ⟨loadsOk_update hok (fun _ _ _ hp => hp) htest fun p hp hne => ?_,
          .shrinks (Store.updateLoadTest_loadsShrink fun r hr _ => ?_)⟩
        · have : sys.running rid = true := by simp [System.running, hp, hne]
          simp [this, LoadStatus.active]
        · obtain rfl : test = r := Option.some.inj (htest.symm.trans hr)
          exact hactive.1
  case cleanupLoadTest rid confirmation =>
    simp only [System.step, System.cleanupLoadTest] at h
    split at h
    · obtain rfl := Option.some.inj h
      exact same _
    · rename_i test htest
      split at h
      · obtain rfl := Option.some.inj h
        exact same _
      · split at h
        · obtain rfl := Option.some.inj h
          exact same _
        · obtain rfl := Option.some.inj h
          exact cleaning_loads hok
  case cleanedUser rid username =>
    simp only [System.step, System.cleanedUser] at h
    split at h
    · obtain rfl := Option.some.inj h
      refine ⟨⟨fun name u hu => ?_, hok.runs⟩, .shrinks (Store.loadsShrink_of (fun name u hu => ?_)
        fun rid r hr hra => ⟨r, hr, hra⟩)⟩
      · rcases Dict.lookup_modify_cases hu with ⟨rfl, u₀, hu₀, rfl⟩ | ⟨_, hold⟩
        · exact hok.owned _ u₀ hu₀
        · exact hok.owned name u hold
      · rcases Dict.lookup_modify_cases hu with ⟨rfl, u₀, hu₀, rfl⟩ | ⟨_, hold⟩
        · exact ⟨u₀, hu₀, rfl, rfl⟩
        · exact ⟨u, hold, rfl, rfl⟩
    · simp at h
  case cleanupEnd rid succeeded =>
    simp only [System.step, System.cleanupEnd] at h
    split at h
    · obtain rfl := Option.some.inj h
      exact cleanupStatus_loads hok
    · simp at h

/-! ## §C Along runs -/

/-- `jid` still holds its lease, or no active load test has a user on its scope. -/
def Store.unpinnedRetake (s : Store) (jid : String) : Bool :=
  match s.jobs.lookup jid with
  | some j => j.status.leaseHolding || !s.loadOn j.scope
  | none => true

/-- The condition on a step: a load test is created while no interrupted job holds one of its agents
or every agent, and a job that is not a holder is retried, or written back into a lease-holding
status by a worker, while no active load test has a user on its scope. -/
def sparesLoads (sys : System) : Event → Bool
  | .createLoadTest _ _ request =>
    !sys.store.jobs.any fun _ j => j.status == .interrupted &&
      (j.scope == everyAgent || request.agents.any fun a => a.agentId == j.scope)
  | .retry jid _ _ => sys.store.unpinnedRetake jid
  | .work task false =>
    match sys.workers.lookup task with
    | some w => !w.retakes || sys.store.unpinnedRetake w.job.id
    | none => true
  | _ => true

/-- What a run keeps. -/
structure LoadInv (sys : System) : Prop where
  exclusive : ∀ jid j, sys.store.jobs.lookup jid = some j → j.status.leaseHolding = true →
    sys.store.loadOn j.scope = false
  loads : LoadsOk sys

/-- The holders after a step, against the load tests before it. -/
theorem holders_spare {sys sys' : System} {e : Event} (h : LoadInv sys)
    (hC : sparesLoads sys e = true) (hstep : sys.step e = some sys') {i : String} {a' : Job}
    (ha' : sys'.store.jobs.lookup i = some a') (hh : a'.status.leaseHolding = true) :
    sys.store.loadOn a'.scope = false := by
  cases sys.step_jobs hstep with
  | rewrites jid f hrw hid hholds =>
    rw [hrw] at ha'
    split at ha'
    · obtain ⟨j, hj, rfl⟩ := Option.map_eq_some_iff.mp ha'
      rw [(hid j).2.2.2]
      have spared : sys.store.unpinnedRetake jid = true → sys.store.loadOn j.scope = false := by
        intro hmay
        simp only [Store.unpinnedRetake, hj, Bool.or_eq_true, Bool.not_eq_true'] at hmay
        exact hmay.elim (h.exclusive jid j hj) id
      rcases hholds j hj hh with hold | ⟨_, _, _⟩ | ⟨hw, hret⟩
      · exact h.exclusive jid j hj hold
      · exact spared hC
      · exact spared (by simpa [sparesLoads, hw, hret] using hC)
    · exact h.exclusive i a' ha' hh
  | submitted jid fallback kind target scope payload before _ _ _ hpin _ hjobs =>
    rw [hjobs] at ha'
    rcases Dict.lookup_insert_cases ha' with ⟨rfl, rfl⟩ | ⟨_, hold⟩
    · exact Store.loadOn_of_pinned hpin
    · exact h.exclusive i a' hold hh
  | restarted _ hjobs =>
    rw [hjobs, Dict.lookup_mapValues] at ha'
    obtain ⟨j, hj, rfl⟩ := Option.map_eq_some_iff.mp ha'
    rw [Store.restarted_scope]
    exact h.exclusive i j hj (by simpa using hh)

/-- One step that meets the condition. -/
theorem loadInv_step {sys sys' : System} {e : Event} (h : LoadInv sys)
    (hC : sparesLoads sys e = true) (hstep : sys.step e = some sys') : LoadInv sys' := by
  obtain ⟨hok, hloads⟩ := step_loads h.loads hstep
  refine ⟨fun i a' ha' hh => ?_, hok⟩
  have before := holders_spare h hC hstep ha' hh
  rw [← Bool.not_eq_true]
  intro hon
  cases hloads with
  | shrinks hs =>
    rw [hs _ hon] at before
    exact Bool.noConfusion before
  | created agents hex request hevent hjobs hunblocked hgrown =>
    subst hevent
    rw [hjobs] at ha'
    -- a holder is either in the list of `create` or interrupted, which the condition excludes
    have hselected : (a'.scope == everyAgent ||
        request.agents.any fun a => a.agentId == a'.scope) = true := by
      rcases hgrown _ hon with hold | hstar | ⟨a, ha, hagent⟩
      · rw [hold] at before
        exact Bool.noConfusion before
      · simp [hstar]
      · simp only [Bool.or_eq_true, List.any_eq_true, beq_iff_eq]
        exact Or.inr ⟨a, ha, hagent⟩
    have hlisted := Dict.any_eq_false.mp hunblocked i a' ha'
    simp only [sparesLoads, Bool.not_eq_true'] at hC
    have hinterrupted := Dict.any_eq_false.mp hC i a' ha'
    simp only [hselected, Bool.and_true] at hlisted hinterrupted
    cases hst : a'.status <;>
      simp_all [Store.blocksLoadTest, Status.leaseHolding]

theorem loadInv_initial : LoadInv System.initial :=
  ⟨fun i j hj => by simp [System.initial, Store.empty] at hj,
    fun name u hu => by simp [System.initial, Store.empty] at hu,
    fun rid pc hpc => by simp [System.initial] at hpc⟩

/-- **Load tests and jobs exclude each other** in every state of every run whose steps meet
`sparesLoads`. -/
theorem load_exclusive {es : List Event} {sys : System}
    (hrun : operations.run System.initial es = some sys)
    (hC : operations.Along (fun sys e => sparesLoads sys e = true) System.initial es) :
    sys.store.LoadExclusive :=
  Store.loadExclusive_iff.mpr
    (operations.run_invariant (I := LoadInv) (fun _ _ _ h hC hstep => loadInv_step h hC hstep)
      loadInv_initial hrun hC).exclusive

/-! ## §D A test beside an interrupted job -/

/-- The test of `LoadExclusive` on the entries, to be evaluated. -/
def Store.loadExclusiveB (s : Store) : Bool :=
  s.jobs.all fun _ j => !j.status.leaseHolding || !s.loadOn j.scope

theorem Store.loadExclusiveB_iff {s : Store} : s.loadExclusiveB = true ↔ s.LoadExclusive := by
  rw [loadExclusive_iff]
  simp only [loadExclusiveB, Dict.all_eq_true, Bool.or_eq_true, Bool.not_eq_true']
  refine forall₃_congr fun jid j _ => ?_
  cases j.status.leaseHolding <;> simp

/-- A catalog with one published agent `a`. -/
def oneAgent : Dict String Agent :=
  let config : AgentConfig :=
    { name := "a", description := "", enabled := true, instructions := "",
      allowedModelIds := ["m"], defaultModelId := "m", smallModelId := none,
      cpuLimit := none, memoryMb := none, bindings := [] }
  AList.singleton "a" ⟨"a", config, [⟨1, config, ∅⟩], some 1, .active⟩

/-- A load request for one user on agent `a`. -/
def oneUser (requestId : String) : LoadRequest := ⟨requestId, [⟨"a", 1, 1, 1024⟩], 180, 120⟩

/-- The service stops while a job on agent `a` waits for its quiesce, so the job is interrupted;
after the restart a load test on `a` is created. -/
def interruptedRun : List Event :=
  [.submit "j1" "r1" .agentArchive "a" "a" (plainPayload "request-1") none,
    .work 0 false, .work 0 false, .stop 0, .work 0 false, .work 0 false, .restart,
    .createLoadTest oneAgent "1" (oneUser "load-0001")]

/-- The interrupted job keeps the lease of agent `a`, and a queued test has a user on it. -/
theorem load_test_beside_interrupted_job :
    ∃ es sys, operations.run System.initial es = some sys ∧ ¬ sys.store.LoadExclusive := by
  have broken : (operations.run System.initial interruptedRun).all
      (fun sys => sys.store.loadExclusiveB) = false := by decide
  obtain ⟨sys, hrun, hb⟩ := operations.exists_run_of_all_eq_false broken
  refine ⟨interruptedRun, sys, hrun, ?_⟩
  rw [← Store.loadExclusiveB_iff, hb]
  exact Bool.false_ne_true

/-- A load test that is created once the job has been cancelled. -/
def cancelledRun : List Event :=
  [.submit "j1" "r1" .agentArchive "a" "a" (plainPayload "request-1") none, .work 0 false,
    .cancel "j1", .createLoadTest oneAgent "1" (oneUser "load-0001")]

/-- `load_exclusive` at a run with a cancelled job and a queued test. -/
theorem load_exclusive_after_cancel :
    ∃ sys, operations.run System.initial cancelledRun = some sys ∧ sys.store.LoadExclusive := by
  have enabled : (operations.run System.initial cancelledRun).all (fun _ => false) = false := by
    decide
  obtain ⟨sys, hrun, _⟩ := operations.exists_run_of_all_eq_false enabled
  exact ⟨sys, hrun, load_exclusive hrun (by decide)⟩

end OpencodeCloud.Operations
