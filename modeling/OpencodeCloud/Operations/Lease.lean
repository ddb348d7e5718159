/-
# OpencodeCloud.Operations.Lease -- the lease of a scope is exclusive

`Store.submit` and `Store.retry_deletion` test, inside one transaction, that no other job holds an
overlapping scope. What can still break the lease is a write that does not test: a worker that ends
its job in `needs_recovery` or `interrupted` although the job had left the lease-holding statuses and
another one was admitted meanwhile. `lease_exclusive` is the exact result, along every run without
such a write; `lease_shared_after_lost_resume` is the run with one.
-/
import OpencodeCloud.Operations.Steps

namespace OpencodeCloud.Operations

open OpencodeCloud.Library OpencodeCloud.Catalog

/-! ## §A Holders -/

namespace Store

/-- For each scope at most one job holds the lease, and the holder of `*` is the only holder. -/
def LeaseExclusive (s : Store) : Prop :=
  (∀ i j a b, s.jobs.lookup i = some a → s.jobs.lookup j = some b →
    a.status.leaseHolding = true → b.status.leaseHolding = true → a.scope = b.scope → i = j) ∧
  (∀ i j a b, s.jobs.lookup i = some a → s.jobs.lookup j = some b →
    a.status.leaseHolding = true → b.status.leaseHolding = true → a.scope = everyAgent → i = j)

/-- No two holders overlap. -/
def NoOverlap (s : Store) : Prop :=
  ∀ i j a b, s.jobs.lookup i = some a → s.jobs.lookup j = some b →
    a.status.leaseHolding = true → b.status.leaseHolding = true →
    overlaps a.scope b.scope = true → i = j

theorem leaseExclusive_iff {s : Store} : s.LeaseExclusive ↔ s.NoOverlap := by
  constructor
  · rintro ⟨hsame, hstar⟩ i j a b ha hb hha hhb hov
    simp only [overlaps, Bool.or_eq_true, beq_iff_eq] at hov
    rcases hov with (h | h) | h
    · exact hsame i j a b ha hb hha hhb h
    · exact hstar i j a b ha hb hha hhb h
    · exact (hstar j i b a hb ha hhb hha h).symm
  · intro h
    refine ⟨fun i j a b ha hb hha hhb heq => ?_, fun i j a b ha hb hha hhb heq => ?_⟩
    · exact h i j a b ha hb hha hhb (by simp [heq])
    · exact h i j a b ha hb hha hhb (by simp [overlaps, heq])

/-- The same test on the entries, to be evaluated. -/
def leaseExclusiveB (s : Store) : Bool :=
  s.jobs.all fun i a => s.jobs.all fun j b =>
    !(a.status.leaseHolding && b.status.leaseHolding && overlaps a.scope b.scope) || i == j

theorem leaseExclusiveB_iff {s : Store} : s.leaseExclusiveB = true ↔ s.LeaseExclusive := by
  rw [leaseExclusive_iff]
  simp only [leaseExclusiveB, Dict.all_eq_true, NoOverlap]
  constructor
  · intro h i j a b ha hb hha hhb hov
    have := h i a ha j b hb
    simpa [hha, hhb, hov] using this
  · intro h i a ha j b hb
    by_cases hold : a.status.leaseHolding = true ∧ b.status.leaseHolding = true ∧
        overlaps a.scope b.scope = true
    · simp [h i j a b ha hb hold.1 hold.2.1 hold.2.2]
    · simp only [not_and, Bool.not_eq_true] at hold
      cases hha : a.status.leaseHolding <;> cases hhb : b.status.leaseHolding <;> simp_all

/-- Another job than `jid` holds a scope that overlaps `scope`. -/
def heldElsewhere (s : Store) (jid scope : String) : Bool :=
  s.jobs.any fun other j => other != jid && (j.status.leaseHolding && overlaps scope j.scope)

theorem heldElsewhere_eq_false {s : Store} {jid scope : String} :
    s.heldElsewhere jid scope = false ↔ ∀ other j, s.jobs.lookup other = some j → other ≠ jid →
      j.status.leaseHolding = true → overlaps scope j.scope = false := by
  simp only [heldElsewhere, Dict.any_eq_false]
  constructor
  · intro h other j hj hne hhold
    simpa [hne, hhold] using h other j hj
  · intro h other j hj
    by_cases hne : other = jid
    · simp [hne]
    · cases hhold : j.status.leaseHolding with
      | false => simp
      | true => simp [h other j hj hne hhold]

theorem heldElsewhere_of_leaseHeld {s : Store} {jid scope : String}
    (h : s.leaseHeld scope = false) : s.heldElsewhere jid scope = false := by
  rw [heldElsewhere_eq_false]
  intro other j hj _ hhold
  have := Dict.any_eq_false.mp h other j hj
  simp only [hhold, Bool.true_and, Bool.or_eq_false_iff, beq_eq_false_iff_ne] at this
  simp [overlaps, this.1.1, this.2, Ne.symm this.1.2]

/-- The test of `retry_deletion` misses nothing when the scope is one agent. -/
theorem heldElsewhere_of_heldByAnother {s : Store} {jid scope : String} (hone : scope ≠ everyAgent)
    (h : s.heldByAnother jid scope = false) : s.heldElsewhere jid scope = false := by
  rw [heldElsewhere_eq_false]
  intro other j hj hne hhold
  have := Dict.any_eq_false.mp h other j hj
  simp only [hhold, Bool.true_and, bne_iff_ne.mpr hne, Bool.or_eq_false_iff,
    beq_eq_false_iff_ne] at this
  simp [overlaps, hone, this.2, Ne.symm this.1]

/-- Exclusivity survives a step after which every holder held before, except one job whose scope
nobody else held. -/
theorem noOverlap_of_holders {s s' : Store} (jid : String) (h : s.NoOverlap)
    (hold : ∀ i a', s'.jobs.lookup i = some a' → a'.status.leaseHolding = true →
      (∃ a, s.jobs.lookup i = some a ∧ a.scope = a'.scope ∧ a.status.leaseHolding = true) ∨
      (i = jid ∧ s.heldElsewhere jid a'.scope = false)) :
    s'.NoOverlap := by
  intro i j a b ha hb hha hhb hov
  by_contra hne
  rcases hold i a ha hha with ⟨a₀, ha₀, hsa, hha₀⟩ | ⟨rfl, hfree⟩
  · rcases hold j b hb hhb with ⟨b₀, hb₀, hsb, hhb₀⟩ | ⟨rfl, hfree⟩
    · exact hne (h i j a₀ b₀ ha₀ hb₀ hha₀ hhb₀ (by rw [hsa, hsb]; exact hov))
    · have := heldElsewhere_eq_false.mp hfree i a₀ ha₀ hne hha₀
      rw [hsa, overlaps_comm, hov] at this
      exact Bool.noConfusion this
  · rcases hold j b hb hhb with ⟨b₀, hb₀, hsb, hhb₀⟩ | ⟨rfl, _⟩
    · have := heldElsewhere_eq_false.mp hfree j b₀ hb₀ (Ne.symm hne) hhb₀
      rw [hsb, hov] at this
      exact Bool.noConfusion this
    · exact hne rfl

/-- Deletions are submitted for one agent. -/
def DeletionsScoped (s : Store) : Prop :=
  ∀ i j, s.jobs.lookup i = some j → j.kind = .agentDelete → j.scope ≠ everyAgent

/-- `jid` still holds its lease, or nobody else holds an overlapping one. -/
def mayRetake (s : Store) (jid : String) : Bool :=
  match s.jobs.lookup jid with
  | some j => j.status.leaseHolding || !s.heldElsewhere jid j.scope
  | none => true

end Store

/-! ## §B Along runs -/

/-- The condition on a step: a worker that writes `needs_recovery` or `interrupted` finds its job in
a lease-holding status, or no other job holding an overlapping scope. Every other step meets it. -/
def keepsLease (sys : System) : Event → Bool
  | .work task false =>
    match sys.workers.lookup task with
    | some w => !w.retakes || sys.store.mayRetake w.job.id
    | none => true
  | _ => true

/-- What a run keeps. -/
structure LeaseInv (s : Store) : Prop where
  noOverlap : s.NoOverlap
  deletions : s.DeletionsScoped

theorem deletionsScoped_step {sys sys' : System} {e : Event} (h : sys.store.DeletionsScoped)
    (hstep : sys.step e = some sys') : sys'.store.DeletionsScoped := by
  intro i j' hj' hkind
  cases sys.step_jobs hstep with
  | rewrites jid f hrw hid _ =>
    rw [hrw] at hj'
    split at hj'
    · obtain ⟨j, hj, rfl⟩ := Option.map_eq_some_iff.mp hj'
      obtain ⟨_, hk, _, hs⟩ := hid j
      rw [hs]
      exact h jid j hj (hk.symm.trans hkind)
    · exact h i j' hj' hkind
  | submitted jid fallback kind target scope payload before _ _ hadm _ _ hjobs =>
    rw [hjobs] at hj'
    rcases Dict.lookup_insert_cases hj' with ⟨rfl, rfl⟩ | ⟨_, hold⟩
    · obtain rfl : kind = .agentDelete := hkind
      simp only [admissible, Bool.and_eq_true, bne_iff_ne] at hadm
      exact hadm.1
    · exact h i j' hold hkind
  | restarted _ hjobs =>
    rw [hjobs, Dict.lookup_mapValues] at hj'
    obtain ⟨j, hj, rfl⟩ := Option.map_eq_some_iff.mp hj'
    rw [Store.restarted_scope]
    exact h i j hj (by rwa [Store.restarted_kind] at hkind)

/-- One step that meets the condition. -/
theorem leaseInv_step {sys sys' : System} {e : Event} (h : LeaseInv sys.store)
    (hC : keepsLease sys e = true) (hstep : sys.step e = some sys') : LeaseInv sys'.store := by
  refine ⟨?_, deletionsScoped_step h.deletions hstep⟩
  cases sys.step_jobs hstep with
  | rewrites jid f hrw hid hholds =>
    refine Store.noOverlap_of_holders jid h.noOverlap fun i a' ha' hh => ?_
    rw [hrw] at ha'
    split at ha'
    · rename_i hi
      subst hi
      obtain ⟨j, hj, rfl⟩ := Option.map_eq_some_iff.mp ha'
      have hscope : (f j).scope = j.scope := (hid j).2.2.2
      rcases hholds j hj hh with hold | ⟨hkind, _, hfree⟩ | ⟨hw, hret⟩
      · exact Or.inl ⟨j, hj, hscope.symm, hold⟩
      · right
        rw [hscope]
        exact ⟨rfl, Store.heldElsewhere_of_heldByAnother (h.deletions i j hj hkind) hfree⟩
      · -- the write of a worker: this is where the condition on the step is used
        simp only [keepsLease, hw, hret, Bool.not_true, Bool.false_or, Store.mayRetake, hj,
          Bool.or_eq_true, Bool.not_eq_true'] at hC
        rcases hC with hold | hfree
        · exact Or.inl ⟨j, hj, hscope.symm, hold⟩
        · exact Or.inr ⟨rfl, by rwa [hscope]⟩
    · exact Or.inl ⟨a', ha', rfl, hh⟩
  | submitted jid fallback kind target scope payload before _ _ _ _ hfree hjobs =>
    refine Store.noOverlap_of_holders jid h.noOverlap fun i a' ha' hh => ?_
    rw [hjobs] at ha'
    rcases Dict.lookup_insert_cases ha' with ⟨rfl, rfl⟩ | ⟨_, hold⟩
    · exact Or.inr ⟨rfl, Store.heldElsewhere_of_leaseHeld hfree⟩
    · exact Or.inl ⟨a', hold, rfl, hh⟩
  | restarted _ hjobs =>
    refine Store.noOverlap_of_holders "" h.noOverlap fun i a' ha' hh => ?_
    rw [hjobs, Dict.lookup_mapValues] at ha'
    obtain ⟨j, hj, rfl⟩ := Option.map_eq_some_iff.mp ha'
    exact Or.inl ⟨j, hj, (Store.restarted_scope j).symm, by simpa using hh⟩

theorem leaseInv_initial : LeaseInv System.initial.store :=
  ⟨fun i j a b ha => by simp [System.initial, Store.empty] at ha,
    fun i j hj => by simp [System.initial, Store.empty] at hj⟩

/-- **The lease is exclusive** in every state of every run in which no worker takes a lease back from
another holder. -/
theorem lease_exclusive {es : List Event} {sys : System}
    (hrun : operations.run System.initial es = some sys)
    (hC : operations.Along (fun sys e => keepsLease sys e = true) System.initial es) :
    sys.store.LeaseExclusive :=
  Store.leaseExclusive_iff.mpr
    (operations.run_invariant (I := fun sys => LeaseInv sys.store)
      (fun _ _ _ h hC hstep => leaseInv_step h hC hstep) leaseInv_initial hrun hC).noOverlap

/-! ## §C The write that shares a lease -/

/-- `retakes` means what it says: the write makes the job a holder. -/
theorem Worker.work_retakes {s : Store} {w : Worker} {j : Job} (hret : w.retakes = true)
    (hj : s.jobs.lookup w.job.id = some j) :
    ∃ j', (w.work s false).1.jobs.lookup w.job.id = some j' ∧ j'.scope = j.scope ∧
      j'.status.leaseHolding = true := by
  have written : ∀ f, (s.update w.job.id f).jobs.lookup w.job.id = some (f j) := fun f => by
    simp [Store.update, hj]
  cases hpc : w.pc <;> simp only [retakes, hpc, Bool.false_eq_true] at hret
  case stoppedMark =>
    simp only [work, hpc, Bool.false_eq_true, if_false]
    refine ⟨_, written _, rfl, ?_⟩
    simp only [stoppedStatus]
    split <;> rfl
  case settle exc =>
    simp only [work, hpc, Bool.false_eq_true, if_false]
    exact ⟨_, written _, rfl, hret⟩
  case resumeFailed =>
    simp only [work, hpc, Bool.false_eq_true, if_false]
    exact ⟨_, written _, rfl, rfl⟩

/-- The condition on steps is exact: a step that fails it leaves two holders behind. -/
theorem retake_shares_lease {sys sys' : System} {task : Nat}
    (hC : keepsLease sys (.work task false) = false)
    (hstep : sys.step (.work task false) = some sys') : ¬ sys'.store.LeaseExclusive := by
  obtain ⟨w, hw, _, _, rfl⟩ := System.work_eq_some.mp hstep
  simp only [keepsLease, hw, Bool.or_eq_false_iff, Bool.not_eq_false'] at hC
  obtain ⟨hret, hmay⟩ := hC
  cases hj : sys.store.jobs.lookup w.job.id with
  | none => simp [Store.mayRetake, hj] at hmay
  | some j =>
    simp only [Store.mayRetake, hj, Bool.or_eq_false_iff, Bool.not_eq_false'] at hmay
    obtain ⟨other, b, hb, hb'⟩ := Dict.any_eq_true.mp hmay.2
    simp only [Bool.and_eq_true, bne_iff_ne] at hb'
    obtain ⟨hne, hhold, hov⟩ := hb'
    obtain ⟨j', hj', hscope, hhold'⟩ := Worker.work_retakes hret hj
    obtain ⟨f, hrw, _, _⟩ := w.work_writes sys.store false
    have hb'' : (w.work sys.store false).1.jobs.lookup other = some b := by
      rw [hrw, if_neg hne]
      exact hb
    intro hex
    exact hne (Store.leaseExclusive_iff.mp hex _ _ _ _ hj' hb'' hhold' hhold
      (by rw [hscope]; exact hov)).symm

/-- The request of an operation without options. -/
def plainPayload (requestId : String) : Payload where
  request := ⟨some requestId, none, none, none, none, none, none, none⟩
  force := false
  serviceImpacts := none

/-- A job archives agent `a` and is recorded as succeeded; before its resume is answered a second
job is admitted for `a`. The resume then fails. -/
def lostResumeRun : List Event :=
  [.submit "j1" "r1" .agentArchive "a" "a" (plainPayload "request-1") none,
    .work 0 false, .work 0 false, .reply 0 (.ok .accepted), .work 0 false,
    .reply 0 (.ok .accepted), .reply 0 (.ok .accepted), .work 0 false, .work 0 false,
    .submit "j2" "r2" .agentApply "a" "a" (plainPayload "request-2") none,
    .reply 0 (unavailable "sandbox_manager"), .work 0 false]

/-- The archived job takes its lease back from the second one: two jobs hold agent `a`. -/
theorem lease_shared_after_lost_resume :
    ∃ es sys, operations.run System.initial es = some sys ∧ ¬ sys.store.LeaseExclusive := by
  have shared : (operations.run System.initial lostResumeRun).all
      (fun sys => sys.store.leaseExclusiveB) = false := by decide
  obtain ⟨sys, hrun, hb⟩ := operations.exists_run_of_all_eq_false shared
  refine ⟨lostResumeRun, sys, hrun, ?_⟩
  rw [← Store.leaseExclusiveB_iff, hb]
  exact Bool.false_ne_true

/-- The same history when the resume is answered. -/
def resumedRun : List Event := lostResumeRun.take 10 ++ [.reply 0 (.ok .accepted)]

/-- `lease_exclusive` at a run with two jobs on one agent. -/
theorem lease_exclusive_when_resumed :
    ∃ sys, operations.run System.initial resumedRun = some sys ∧ sys.store.LeaseExclusive := by
  have enabled : (operations.run System.initial resumedRun).all (fun _ => false) = false := by
    decide
  obtain ⟨sys, hrun, _⟩ := operations.exists_run_of_all_eq_false enabled
  exact ⟨sys, hrun, lease_exclusive hrun (by decide)⟩

end OpencodeCloud.Operations
