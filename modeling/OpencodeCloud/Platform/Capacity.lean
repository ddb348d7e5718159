/-
# OpencodeCloud.Platform.Capacity -- the samples that load tests are admitted on

A load test asks for the capacity of the host before it is admitted, before each batch of its users, and
before it generates. The operations service asks the sandbox manager with a plain GET: `fresh` is an argument
of both `LoadCapacity.snapshot` methods, and the request between them does not carry it. The manager answers
from a sample that is younger than five seconds, or lets the reader join a sampling that is still running.

A decision is based on a sample begun after it asked, and that holds every sandbox its test has created, as
long as neither happens with an older one (`decisions_use_fresh_samples`); `batch_reuses_sample` is the run
in which the second batch is granted on the sample of the first.
-/
import OpencodeCloud.Library.Dict
import OpencodeCloud.Library.Machine
import Mathlib.Algebra.Order.Ring.Rat

namespace OpencodeCloud.Platform.Capacity

open OpencodeCloud.Library

/-! ## §A Samples, readers and tests -/

/-- What a sampling has found; `index` is its place among the samplings. -/
structure Sample where
  index : Nat
  sampledAt : ℚ
  containers : List String

/-- One call of `_sample`, in its thread. -/
inductive Sampling where
  | started
  /-- `containers.list(all=True)` has answered -/
  | listed (containers : List String)
  | done (s : Sample)
  | failed

def Sampling.running : Sampling → Bool
  | .started | .listed _ => true
  | _ => false

/-- Who asks for the capacity. -/
inductive Asker where
  | dashboard
  /-- `admit_start` -/
  | admission
  /-- `capacity_check` of a test -/
  | test (rid : String)
  deriving DecidableEq

inductive Answer where
  /-- the request is on its way -/
  | sent
  /-- `asyncio.wait_for(asyncio.shield(self._task), 8)` -/
  | waiting (k : Nat) (deadline : ℚ)
  | sample (s : Sample)
  /-- `{"known": False, ...}` -/
  | unknown

/-- One request for the capacity. `asked` and `created` are history: how many samplings had begun when it
asked, and what the test had created by then. -/
structure Reader where
  asker : Asker
  asked : Nat
  created : List String
  answer : Answer

inductive Pc where
  | checking (reader : Nat)
  /-- `_join(children)` -/
  | preparing (pending : List String)
  | generating
  | ended

/-- One call of `run`, with the batches to come. -/
structure Test where
  batches : List (List String)
  created : List String
  pc : Pc

/-- `range(0, len(users), 4)` -/
def batches : Nat → List String → List (List String)
  | 0, _ => []
  | _ + 1, [] => []
  | n + 1, users => users.take 4 :: batches n (users.drop 4)

/-! ## §B The two services -/

/-- `containers` are those of the host; `removed` is history. -/
structure State where
  clock : ℚ
  containers : List String
  removed : List String
  samplings : List Sampling
  task : Option Nat
  cached : Option Sample
  readers : List Reader
  tests : Dict String Test

inductive Event where
  | wait (seconds : ℚ)
  | dashboard
  | admission
  | start (rid : String) (users : List String)
  /-- the request of a reader reaches `snapshot` -/
  | serve (i : Nat)
  | list (k : Nat)
  | finish (k : Nat)
  | fails (k : Nat)
  | wake (i : Nat)
  | timeout (i : Nat)
  /-- `check_capacity`; a test that is refused, or whose request fails, has ended -/
  | decide (rid : String) (granted : Bool)
  /-- the sandbox of a user that is being prepared is there -/
  | create (rid user : String)
  | settle (rid user : String)
  | join (rid : String)
  | stop (rid : String)
  /-- any other container comes or goes -/
  | appear (c : String)
  | remove (c : String)

namespace State

def initial : State := ⟨0, [], [], [], none, none, [], ∅⟩

/-- A reader asks. -/
def ask (s : State) (asker : Asker) (created : List String) : State :=
  { s with readers := s.readers ++ [⟨asker, s.samplings.length, created, .sent⟩] }

def answer (s : State) (i : Nat) (r : Reader) (a : Answer) : State :=
  { s with readers := s.readers.set i { r with answer := a } }

def withTest (s : State) (rid : String) (t : Test) : State := { s with tests := s.tests.insert rid t }

/-- `self._cached and time.time() - self._cached["sampled_at"] < 5` -/
def young (s : State) : Option Sample := s.cached.filter fun smp => decide (s.clock - smp.sampledAt < 5)

/-- The sampling that `self._task` still runs. -/
def current (s : State) : Option Nat :=
  s.task.filter fun k => (s.samplings[k]?).any (·.running)

/-- `snapshot()`, to its await. -/
def serve (s : State) (i : Nat) (r : Reader) : State :=
  match s.young with
  | some smp => s.answer i r (.sample smp)
  | none =>
    match s.current with
    | some k => s.answer i r (.waiting k (s.clock + 8))
    | none =>
      { s.answer i r (.waiting s.samplings.length (s.clock + 8)) with
        samplings := s.samplings ++ [.started]
        task := some s.samplings.length }

/-- The test asks before its next batch, or before it generates. -/
def check (s : State) (rid : String) (t : Test) : State :=
  (s.ask (.test rid) t.created).withTest rid { t with pc := .checking s.readers.length }

/-- The answer to a check lets the test go on. -/
def granted (s : State) (rid : String) (t : Test) : State :=
  match t.batches with
  | batch :: rest => s.withTest rid { t with batches := rest, pc := .preparing batch }
  | [] => s.withTest rid { t with pc := .generating }

def step (s : State) : Event → Option State
  | .wait seconds => if 0 ≤ seconds then some { s with clock := s.clock + seconds } else none
  | .dashboard => some (s.ask .dashboard [])
  | .admission => some (s.ask .admission [])
  | .start rid users =>
    if rid ∈ s.tests then none else some (s.check rid ⟨batches users.length users, [], .ended⟩)
  | .serve i => do
    let r ← s.readers[i]?
    match r.answer with
    | .sent => some (s.serve i r)
    | _ => none
  | .list k => do
    match s.samplings[k]? with
    | some .started => some { s with samplings := s.samplings.set k (.listed s.containers) }
    | _ => none
  | .finish k => do
    match s.samplings[k]? with
    | some (.listed containers) =>
      some { s with samplings := s.samplings.set k (.done ⟨k, s.clock, containers⟩) }
    | _ => none
  | .fails k => do
    let sampling ← s.samplings[k]?
    if sampling.running then some { s with samplings := s.samplings.set k .failed } else none
  | .wake i => do
    let r ← s.readers[i]?
    match r.answer with
    | .waiting k _ =>
      match s.samplings[k]? with
      | some (.done smp) => some { s.answer i r (.sample smp) with cached := some smp }
      | some .failed => some { s.answer i r .unknown with cached := none }
      | _ => none
    | _ => none
  | .timeout i => do
    let r ← s.readers[i]?
    match r.answer with
    | .waiting _ deadline =>
      if deadline ≤ s.clock then some { s.answer i r .unknown with cached := none } else none
    | _ => none
  | .decide rid granted => do
    let t ← s.tests.lookup rid
    match t.pc with
    | .checking i => do
      let r ← s.readers[i]?
      match r.answer, granted with
      | .sample _, true => some (s.granted rid t)
      | _, true => none
      | _, false => some (s.withTest rid { t with pc := .ended })
    | _ => none
  | .create rid user => do
    let t ← s.tests.lookup rid
    match t.pc with
    | .preparing pending =>
      if user ∈ pending then
        some { s.withTest rid { t with created := user :: t.created } with
          containers := user :: s.containers }
      else none
    | _ => none
  | .settle rid user => do
    let t ← s.tests.lookup rid
    match t.pc with
    | .preparing pending => some (s.withTest rid { t with pc := .preparing (pending.erase user) })
    | _ => none
  | .join rid => do
    let t ← s.tests.lookup rid
    match t.pc with
    | .preparing [] => some (s.check rid t)
    | _ => none
  | .stop rid => do
    let t ← s.tests.lookup rid
    return s.withTest rid { t with pc := .ended }
  | .appear c => some { s with containers := c :: s.containers }
  | .remove c => some { s with containers := s.containers.filter (· != c), removed := c :: s.removed }

end State

/-- The sampling of the manager and the tests of the operations service. -/
def sampling : Machine State Event := ⟨State.step⟩

/-! ## §C What the samples hold -/

/-- A list of containers holds what a reader's test had created, but for what was removed. -/
def Covers (s : State) (r : Reader) (containers : List String) : Prop :=
  ∀ c ∈ r.created, c ∈ containers ∨ c ∈ s.removed

/-- The sampling holds what the test of an earlier reader had created. -/
def Sampling.Covers (s : State) (r : Reader) : Sampling → Prop
  | .listed containers => Capacity.Covers s r containers
  | .done smp => Capacity.Covers s r smp.containers
  | _ => True

/-- What a reader knows. -/
structure Reader.Sound (s : State) (r : Reader) : Prop where
  asked : r.asked ≤ s.samplings.length
  there : Covers s r s.containers
  /-- the samplings that began after it asked -/
  later : ∀ k x, r.asked ≤ k → s.samplings[k]? = some x → x.Covers s r
  sample : ∀ smp : Sample, r.answer = .sample smp → s.samplings[smp.index]? = some (.done smp)

/-- A decision waits for, or has, a sample that began after it asked. -/
def Reader.Fresh (r : Reader) : Prop :=
  r.asker ≠ .dashboard →
    (∀ k deadline, r.answer = .waiting k deadline → r.asked ≤ k) ∧
      ∀ smp : Sample, r.answer = .sample smp → r.asked ≤ smp.index

/-- What every state keeps. -/
structure Sound (s : State) : Prop where
  readers : ∀ r ∈ s.readers, r.Sound s
  samples : ∀ (k : Nat) (smp : Sample), s.samplings[k]? = some (.done smp) → smp.index = k
  cached : ∀ smp : Sample, s.cached = some smp → s.samplings[smp.index]? = some (.done smp)
  tests : ∀ rid t, s.tests.lookup rid = some t → ∀ c ∈ t.created, c ∈ s.containers ∨ c ∈ s.removed
  /-- a test that waits for its check has created what it had when it asked -/
  checking : ∀ rid t i, s.tests.lookup rid = some t → t.pc = .checking i →
    ∃ r, s.readers[i]? = some r ∧ r.asker = .test rid ∧ r.created = t.created

/-! ## §D What a step keeps -/

/-- Where a sampling comes from. -/
inductive Held (s : State) (k : Nat) : Sampling → Prop
  | kept (x : Sampling) (found : s.samplings[k]? = some x) : Held s k x
  | started : Held s k .started
  | failed : Held s k .failed
  | listed : Held s k (.listed s.containers)
  | done (smp : Sample) (index : smp.index = k)
      (found : s.samplings[k]? = some (.listed smp.containers)) : Held s k (.done smp)

/-- The samplings and the containers go on. -/
structure Grows (s s' : State) : Prop where
  length : s.samplings.length ≤ s'.samplings.length
  there : ∀ c, c ∈ s.containers ∨ c ∈ s.removed → c ∈ s'.containers ∨ c ∈ s'.removed
  removed : ∀ c ∈ s.removed, c ∈ s'.removed
  back : ∀ k x, s'.samplings[k]? = some x → Held s k x
  kept : ∀ (k : Nat) (smp : Sample), s.samplings[k]? = some (.done smp) → s'.samplings[k]? = some (.done smp)

theorem Grows.same {s s' : State} (hs : s'.samplings = s.samplings) (hc : s'.containers = s.containers)
    (hr : s'.removed = s.removed) : Grows s s' := by
  refine ⟨by rw [hs], fun c h => by rw [hc, hr]; exact h, fun c h => by rw [hr]; exact h, ?_, ?_⟩
  · intro k x hx
    rw [hs] at hx
    exact .kept x hx
  · intro k smp hsmp
    rw [hs]
    exact hsmp

/-- One sampling goes on. -/
theorem Grows.set {s : State} {k : Nat} {old x : Sampling} (hk : s.samplings[k]? = some old)
    (hrunning : old.running = true) (hx : Held s k x) :
    Grows s { s with samplings := s.samplings.set k x } := by
  refine ⟨by simp, fun c h => h, fun c h => h, ?_, ?_⟩
  · intro k' x' hx'
    change (s.samplings.set k x)[k']? = some x' at hx'
    by_cases h : k = k'
    · subst h
      rw [List.getElem?_set_self (List.getElem?_eq_some_iff.mp hk).1] at hx'
      obtain rfl := Option.some.inj hx'
      exact hx
    · rw [List.getElem?_set_ne h] at hx'
      exact .kept x' hx'
  · intro k' smp hsmp
    change (s.samplings.set k x)[k']? = some (.done smp)
    have h : k ≠ k' := by
      rintro rfl
      rw [hk] at hsmp
      obtain rfl := Option.some.inj hsmp
      cases hrunning
    rw [List.getElem?_set_ne h]
    exact hsmp

/-- A sampling begins. -/
theorem Grows.append {s : State} {task : Option Nat} :
    Grows s { s with samplings := s.samplings ++ [.started], task := task } := by
  refine ⟨by simp, fun c h => h, fun c h => h, ?_, ?_⟩
  · intro k x hx
    change (s.samplings ++ [.started])[k]? = some x at hx
    by_cases hk : k < s.samplings.length
    · rw [List.getElem?_append_left hk] at hx
      exact .kept x hx
    · rw [List.getElem?_append_right (by omega)] at hx
      have hmem := List.mem_of_getElem? hx
      rw [List.mem_singleton.mp hmem]
      exact .started
  · intro k smp hsmp
    change (s.samplings ++ [.started])[k]? = some (.done smp)
    rw [List.getElem?_append_left (List.getElem?_eq_some_iff.mp hsmp).1]
    exact hsmp

theorem Reader.Sound.grows {s s' : State} {r : Reader} (h : r.Sound s) (hg : Grows s s') : r.Sound s' where
  asked := le_trans h.asked hg.length
  there c hc := hg.there c (h.there c hc)
  later k x hk hx := by
    have hcovers : ∀ {containers : List String}, Covers s r containers → Covers s' r containers :=
      fun hold c hc => (hold c hc).imp_right (hg.removed c)
    have hheld := hg.back k x hx
    cases hheld with
    | kept _ hold =>
      have hlater := h.later k x hk hold
      cases x with
      | listed containers => exact hcovers hlater
      | done smp => exact hcovers hlater
      | started | failed => trivial
    | started | failed => trivial
    | listed => exact hcovers h.there
    | done smp _ hold => exact hcovers (h.later k _ hk hold)
  sample smp hsmp := hg.kept _ smp (h.sample smp hsmp)

namespace Sound

variable {s s' : State}

/-- The readers, the cache and the tests are left alone. -/
theorem frame (h : Sound s) (hg : Grows s s') (hr : s'.readers = s.readers) (hc : s'.cached = s.cached)
    (ht : s'.tests = s.tests) : Sound s' where
  readers r hmem := (h.readers r (hr ▸ hmem)).grows hg
  samples k smp hsmp := by
    cases hg.back k _ hsmp with
    | kept _ hold => exact h.samples k smp hold
    | done _ hindex _ => exact hindex
  cached smp hsmp := hg.kept _ smp (h.cached smp (hc ▸ hsmp))
  tests rid t hlook c hcreated := hg.there c (h.tests rid t (ht ▸ hlook) c hcreated)
  checking rid t i hlook hpc := by
    rw [hr]
    exact h.checking rid t i (ht ▸ hlook) hpc

theorem ask (h : Sound s) {asker : Asker} {created : List String}
    (hcreated : ∀ c ∈ created, c ∈ s.containers ∨ c ∈ s.removed) : Sound (s.ask asker created) where
  readers r hmem := by
    rcases List.mem_append.mp hmem with hold | hnew
    · exact (h.readers r hold).grows (.same rfl rfl rfl)
    · rw [List.mem_singleton.mp hnew]
      refine ⟨le_refl _, hcreated, fun k x hk hx => ?_, fun _ hsmp => by cases hsmp⟩
      exact absurd (List.getElem?_eq_some_iff.mp hx).1 (Nat.not_lt.mpr hk)
  samples := h.samples
  cached := h.cached
  tests := h.tests
  checking rid t i hlook hpc := by
    obtain ⟨r, hr, hrest⟩ := h.checking rid t i hlook hpc
    exact ⟨r, List.getElem?_append_left (List.getElem?_eq_some_iff.mp hr).1 ▸ hr, hrest⟩

theorem answer (h : Sound s) {i : Nat} {r : Reader} {a : Answer} (hr : s.readers[i]? = some r)
    (ha : ∀ smp : Sample, a = .sample smp → s.samplings[smp.index]? = some (.done smp)) :
    Sound (s.answer i r a) where
  readers r' hmem := by
    rcases List.mem_or_eq_of_mem_set hmem with hold | rfl
    · exact (h.readers r' hold).grows (.same rfl rfl rfl)
    · have hs := h.readers r (List.mem_of_getElem? hr)
      exact ⟨hs.asked, hs.there, hs.later, ha⟩
  samples := h.samples
  cached := h.cached
  tests := h.tests
  checking rid t j hlook hpc := by
    obtain ⟨r', hr', hrest⟩ := h.checking rid t j hlook hpc
    change ∃ q, (s.readers.set i _)[j]? = some q ∧ _
    by_cases hi : i = j
    · subst hi
      obtain rfl := Option.some.inj (hr.symm.trans hr')
      exact ⟨_, List.getElem?_set_self (List.getElem?_eq_some_iff.mp hr).1, hrest⟩
    · rw [List.getElem?_set_ne hi]
      exact ⟨r', hr', hrest⟩

theorem withCached (h : Sound s) {cached : Option Sample}
    (hc : ∀ smp : Sample, cached = some smp → s.samplings[smp.index]? = some (.done smp)) :
    Sound { s with cached := cached } :=
  ⟨fun r hr => (h.readers r hr).grows (.same rfl rfl rfl), h.samples, hc, h.tests, h.checking⟩

theorem withTest (h : Sound s) {rid : String} {t : Test}
    (hcreated : ∀ c ∈ t.created, c ∈ s.containers ∨ c ∈ s.removed)
    (hpc : ∀ i, t.pc = .checking i →
      ∃ r, s.readers[i]? = some r ∧ r.asker = .test rid ∧ r.created = t.created) :
    Sound (s.withTest rid t) where
  readers r hr := (h.readers r hr).grows (.same rfl rfl rfl)
  samples := h.samples
  cached := h.cached
  tests rid' t' hlook := by
    rcases Dict.lookup_insert_cases hlook with ⟨_, rfl⟩ | ⟨_, hold⟩
    · exact hcreated
    · exact h.tests rid' t' hold
  checking rid' t' i hlook hpc' := by
    rcases Dict.lookup_insert_cases hlook with ⟨rfl, rfl⟩ | ⟨_, hold⟩
    · exact hpc i hpc'
    · exact h.checking rid' t' i hold hpc'

theorem check (h : Sound s) {rid : String} {t : Test}
    (hcreated : ∀ c ∈ t.created, c ∈ s.containers ∨ c ∈ s.removed) : Sound (s.check rid t) := by
  have hask : Sound (s.ask (.test rid) t.created) := h.ask hcreated
  refine hask.withTest hcreated fun i hi => ?_
  injection hi with hi
  subst hi
  refine ⟨⟨.test rid, s.samplings.length, t.created, .sent⟩, ?_, rfl, rfl⟩
  exact List.getElem?_concat_length

theorem young (h : Sound s) {smp : Sample} (hy : s.young = some smp) :
    s.samplings[smp.index]? = some (.done smp) :=
  h.cached smp (Option.filter_eq_some_iff.mp hy).1

theorem serve (h : Sound s) {i : Nat} {r : Reader} (hr : s.readers[i]? = some r) : Sound (s.serve i r) := by
  unfold State.serve
  split
  · next smp hyoung =>
    refine h.answer hr fun smp' hsmp => ?_
    injection hsmp with hsmp
    subst hsmp
    exact h.young hyoung
  · split
    · exact h.answer hr fun _ hsmp => by cases hsmp
    · exact (h.answer hr fun _ hsmp => by cases hsmp).frame .append rfl rfl rfl

/-- The sampling goes on, in its thread. -/
theorem sampled (h : Sound s) {k : Nat} {old x : Sampling} (hk : s.samplings[k]? = some old)
    (hrunning : old.running = true) (hx : Held s k x) : Sound { s with samplings := s.samplings.set k x } :=
  h.frame (.set hk hrunning hx) rfl rfl rfl

/-- A sandbox of the test is there. -/
theorem created (h : Sound s) {rid user : String} {t : Test} {pending : List String}
    (ht : s.tests.lookup rid = some t) (hpc : t.pc = .preparing pending) :
    Sound { s.withTest rid { t with created := user :: t.created } with
      containers := user :: s.containers } := by
  have hthere : Sound { s with containers := user :: s.containers } :=
    h.frame ⟨le_refl _, fun c hc => hc.imp_left (List.mem_cons_of_mem user), fun c hc => hc,
      fun k x hx => .kept x hx, fun k smp hsmp => hsmp⟩ rfl rfl rfl
  refine hthere.withTest (fun c hc => ?_) fun i hi => ?_
  · rcases List.mem_cons.mp hc with rfl | hold
    · exact .inl (List.mem_cons_self ..)
    · exact (h.tests rid t ht c hold).imp_left (List.mem_cons_of_mem user)
  · exact absurd (hpc.symm.trans hi) (fun hne => by cases hne)

theorem appear (h : Sound s) (c : String) : Sound { s with containers := c :: s.containers } :=
  h.frame ⟨le_refl _, fun _ hc => hc.imp_left (List.mem_cons_of_mem c), fun _ hc => hc,
    fun _ x hx => .kept x hx, fun _ _ hsmp => hsmp⟩ rfl rfl rfl

theorem remove (h : Sound s) (c : String) :
    Sound { s with containers := s.containers.filter (· != c), removed := c :: s.removed } := by
  refine h.frame ⟨le_refl _, fun c' hc => ?_, fun _ hc => List.mem_cons_of_mem c hc,
    fun _ x hx => .kept x hx, fun _ _ hsmp => hsmp⟩ rfl rfl rfl
  by_cases hsame : c' = c
  · exact .inr (hsame ▸ List.mem_cons_self ..)
  · rcases hc with hthere | hremoved
    · exact .inl (List.mem_filter.mpr ⟨hthere, bne_iff_ne.mpr hsame⟩)
    · exact .inr (List.mem_cons_of_mem c hremoved)

/-- A test goes on, and no check of its waits. -/
theorem goesOn (h : Sound s) {rid : String} {t t' : Test} (ht : s.tests.lookup rid = some t)
    (hcreated : t'.created = t.created) (hpc : ∀ i, t'.pc ≠ .checking i) : Sound (s.withTest rid t') := by
  refine h.withTest (fun c hc => ?_) fun i hi => absurd hi (hpc i)
  rw [hcreated] at hc
  exact h.tests rid t ht c hc

theorem granted (h : Sound s) {rid : String} {t : Test} (ht : s.tests.lookup rid = some t) :
    Sound (s.granted rid t) := by
  unfold State.granted
  split
  · exact h.goesOn ht rfl fun i hi => by cases hi
  · exact h.goesOn ht rfl fun i hi => by cases hi

end Sound


/-- **Every step keeps what the readers know.** -/
theorem Sound.step {s s' : State} {e : Event} (h : Sound s) (hstep : s.step e = some s') : Sound s' := by
  cases e with
  | wait seconds =>
    simp only [State.step] at hstep
    split at hstep
    · obtain rfl := Option.some.inj hstep
      exact h.frame (.same rfl rfl rfl) rfl rfl rfl
    · cases hstep
  | dashboard =>
    obtain rfl := Option.some.inj hstep
    exact h.ask nofun
  | admission =>
    obtain rfl := Option.some.inj hstep
    exact h.ask nofun
  | start rid users =>
    simp only [State.step] at hstep
    split at hstep
    · cases hstep
    · obtain rfl := Option.some.inj hstep
      exact h.check nofun
  | serve i =>
    obtain ⟨r, hr, hstep⟩ := Option.bind_eq_some_iff.mp hstep
    split at hstep
    · obtain rfl := Option.some.inj hstep
      exact h.serve hr
    · cases hstep
  | list k =>
    simp only [State.step] at hstep
    split at hstep
    · next hk =>
      obtain rfl := Option.some.inj hstep
      exact h.sampled hk rfl .listed
    · cases hstep
  | finish k =>
    simp only [State.step] at hstep
    split at hstep
    · next containers hk =>
      obtain rfl := Option.some.inj hstep
      exact h.sampled hk rfl (.done _ rfl hk)
    · cases hstep
  | fails k =>
    obtain ⟨x, hk, hstep⟩ := Option.bind_eq_some_iff.mp hstep
    split at hstep
    · next hrunning =>
      obtain rfl := Option.some.inj hstep
      exact h.sampled hk hrunning .failed
    · cases hstep
  | wake i =>
    obtain ⟨r, hr, hstep⟩ := Option.bind_eq_some_iff.mp hstep
    split at hstep
    · next k deadline hwaiting =>
      split at hstep
      · next smp hk =>
        obtain rfl := Option.some.inj hstep
        have hsmp : ∀ smp', some smp = some smp' → s.samplings[smp'.index]? = some (.done smp') := by
          intro smp' hsame
          obtain rfl := Option.some.inj hsame
          rw [h.samples k smp hk]
          exact hk
        exact (h.answer hr fun smp' hsame => hsmp smp' (by injection hsame with hsame; rw [hsame])).withCached
          hsmp
      · obtain rfl := Option.some.inj hstep
        exact (h.answer hr fun _ hsmp => by cases hsmp).withCached fun _ hsmp => by cases hsmp
      · cases hstep
    · cases hstep
  | timeout i =>
    obtain ⟨r, hr, hstep⟩ := Option.bind_eq_some_iff.mp hstep
    split at hstep
    · split at hstep
      · obtain rfl := Option.some.inj hstep
        exact (h.answer hr fun _ hsmp => by cases hsmp).withCached fun _ hsmp => by cases hsmp
      · cases hstep
    · cases hstep
  | decide rid granted =>
    obtain ⟨t, ht, hstep⟩ := Option.bind_eq_some_iff.mp hstep
    split at hstep
    · obtain ⟨r, hr, hstep⟩ := Option.bind_eq_some_iff.mp hstep
      split at hstep
      · obtain rfl := Option.some.inj hstep
        exact h.granted ht
      · cases hstep
      · obtain rfl := Option.some.inj hstep
        exact h.goesOn ht rfl fun i hi => by cases hi
    · cases hstep
  | create rid user =>
    obtain ⟨t, ht, hstep⟩ := Option.bind_eq_some_iff.mp hstep
    split at hstep
    · next pending hpc =>
      split at hstep
      · obtain rfl := Option.some.inj hstep
        exact h.created ht hpc
      · cases hstep
    · cases hstep
  | settle rid user =>
    obtain ⟨t, ht, hstep⟩ := Option.bind_eq_some_iff.mp hstep
    split at hstep
    · obtain rfl := Option.some.inj hstep
      exact h.goesOn ht rfl fun i hi => by cases hi
    · cases hstep
  | join rid =>
    obtain ⟨t, ht, hstep⟩ := Option.bind_eq_some_iff.mp hstep
    split at hstep
    · obtain rfl := Option.some.inj hstep
      exact h.check (h.tests rid t ht)
    · cases hstep
  | stop rid =>
    obtain ⟨t, ht, hstep⟩ := Option.bind_eq_some_iff.mp hstep
    obtain rfl := Option.some.inj hstep
    exact h.goesOn ht rfl fun i hi => by cases hi
  | appear c =>
    obtain rfl := Option.some.inj hstep
    exact h.appear c
  | remove c =>
    obtain rfl := Option.some.inj hstep
    exact h.remove c

theorem sound_initial : Sound .initial where
  readers _ hmem := absurd hmem (List.not_mem_nil)
  samples k smp hsmp := by cases hsmp
  cached smp hsmp := by cases hsmp
  tests rid t ht := by cases ht
  checking rid t i ht := by cases ht


/-! ## §E What the decisions are based on -/

/-- The samples that decisions are based on began after the decisions asked for them. -/
def Fresh (s : State) : Prop :=
  ∀ r ∈ s.readers, r.asker ≠ .dashboard → ∀ smp : Sample, r.answer = .sample smp → r.asked ≤ smp.index

/-- The sample that a check has been given holds every sandbox of the test that has not been removed. -/
def Budgeted (s : State) : Prop :=
  ∀ rid t i r (smp : Sample), s.tests.lookup rid = some t → t.pc = .checking i → s.readers[i]? = some r →
    r.answer = .sample smp → ∀ c ∈ t.created, c ∈ smp.containers ∨ c ∈ s.removed

/-- Every preparation of the batch has settled when a test asks again. -/
def AsksSettled (s : State) (e : Event) : Prop :=
  ∀ s' ∈ s.step e, ∀ r ∈ s'.readers.drop s.readers.length, ∀ rid, r.asker = .test rid →
    rid ∉ s.tests ∨ ∃ t, s.tests.lookup rid = some t ∧ t.pc = .preparing []

/-- A decision's request does not meet a young sample that is older than itself, and is not woken by the
sample of a sampling that it found under way. -/
def State.fresh (s : State) : Event → Bool
  | .serve i =>
    (s.readers[i]?).all fun r => r.asker == .dashboard || s.young.all fun smp => r.asked ≤ smp.index
  | .wake i =>
    (s.readers[i]?).all fun r => r.asker == .dashboard ||
      match r.answer with
      | .waiting k _ => r.asked ≤ k || !((s.samplings[k]?).any fun | .done _ => true | _ => false)
      | _ => true
  | _ => true

/-- What is fresh holds the sandboxes of the test. -/
theorem Sound.budgeted {s : State} (h : Sound s) (hfresh : Fresh s) : Budgeted s := by
  intro rid t i r smp ht hpc hr hsmp c hc
  obtain ⟨r', hr', hasker, hcreated⟩ := h.checking rid t i ht hpc
  obtain rfl := Option.some.inj (hr.symm.trans hr')
  have hmem := List.mem_of_getElem? hr
  have hlater := hfresh r hmem (by rw [hasker]; exact fun hne => by cases hne) smp hsmp
  have hsound := h.readers r hmem
  exact hsound.later smp.index _ hlater (hsound.sample smp hsmp) c (hcreated ▸ hc)

/-- What a step does to the readers. -/
inductive Moved (s s' : State) (e : Event) : Prop
  | same (hr : s'.readers = s.readers) (met : s.fresh e = true)
  | asked (asker : Asker) (created : List String)
      (hr : s'.readers = s.readers ++ [⟨asker, s.samplings.length, created, .sent⟩])
      (met : s.fresh e = true)
      (settled : ∀ rid, asker = .test rid →
        rid ∉ s.tests ∨ ∃ t, s.tests.lookup rid = some t ∧ t.pc = .preparing [])
  | answered (i : Nat) (r : Reader) (a : Answer) (found : s.readers[i]? = some r)
      (hr : s'.readers = s.readers.set i { r with answer := a })
      (met : s.fresh e = true ↔
        (r.asker ≠ .dashboard → ∀ smp : Sample, a = .sample smp → r.asked ≤ smp.index))

namespace Moved

variable {s : State} {e : Event}

/-- A reader is answered without a sample. -/
theorem unanswered {s' : State} {i : Nat} {r : Reader} {a : Answer} (hr : s.readers[i]? = some r)
    (hreaders : s'.readers = s.readers.set i { r with answer := a }) (ha : ∀ smp, a ≠ .sample smp)
    (met : s.fresh e = true) : Moved s s' e :=
  .answered i r a hr hreaders (iff_of_true met fun _ smp hsmp => absurd hsmp (ha smp))

theorem granted {rid : String} {t : Test} (met : s.fresh e = true) : Moved s (s.granted rid t) e := by
  unfold State.granted
  split
  · exact .same rfl met
  · exact .same rfl met

theorem serve {i : Nat} {r : Reader} (hr : s.readers[i]? = some r) :
    Moved s (s.serve i r) (.serve i) := by
  have hcond : s.fresh (.serve i) = true ↔
      (r.asker ≠ .dashboard → ∀ smp ∈ s.young, r.asked ≤ smp.index) := by
    simp only [State.fresh, hr, Option.all_some, Bool.or_eq_true, beq_iff_eq, Option.all_eq_true,
      decide_eq_true_eq]
    exact Decidable.or_iff_not_imp_left
  unfold State.serve
  split
  · next smp hyoung =>
    refine .answered i r _ hr rfl (hcond.trans (imp_congr_right fun _ => ?_))
    constructor
    · intro ha smp' hsmp
      injection hsmp with hsmp
      exact ha smp' (hyoung.trans (congrArg some hsmp))
    · intro ha smp' hsmp
      obtain rfl := Option.some.inj (hyoung.symm.trans hsmp)
      exact ha smp rfl
  · next hyoung =>
    have hmet : s.fresh (.serve i) = true := by
      refine hcond.mpr fun _ smp hsmp => ?_
      rw [hyoung] at hsmp
      cases hsmp
    split
    · exact unanswered hr rfl (fun _ hne => by cases hne) hmet
    · exact unanswered hr rfl (fun _ hne => by cases hne) hmet

/-- A reader is woken by the sample of the sampling it has joined. -/
theorem wake {i k : Nat} {deadline : ℚ} {r : Reader} {smp : Sample} (hsound : Sound s)
    (hr : s.readers[i]? = some r) (hwaiting : r.answer = .waiting k deadline)
    (hk : s.samplings[k]? = some (.done smp)) :
    Moved s { s.answer i r (.sample smp) with cached := some smp } (.wake i) := by
  refine .answered i r _ hr rfl ?_
  simp only [State.fresh, hr, Option.all_some, hwaiting, hk, Option.any_some, Bool.not_true,
    Bool.or_false, Bool.or_eq_true, beq_iff_eq, decide_eq_true_eq]
  rw [← hsound.samples k smp hk, Decidable.or_iff_not_imp_left]
  refine imp_congr_right fun _ => ⟨fun ha smp' hsame => ?_, fun ha => ha smp rfl⟩
  injection hsame with hsame
  exact hsame ▸ ha

end Moved

theorem step_moved {s s' : State} {e : Event} (hsound : Sound s) (hstep : s.step e = some s') :
    Moved s s' e := by
  cases e with
  | serve i =>
    obtain ⟨r, hr, hstep⟩ := Option.bind_eq_some_iff.mp hstep
    split at hstep
    · obtain rfl := Option.some.inj hstep
      exact .serve hr
    · cases hstep
  | wake i =>
    obtain ⟨r, hr, hstep⟩ := Option.bind_eq_some_iff.mp hstep
    split at hstep
    · next k deadline hwaiting =>
      split at hstep
      · next smp hk =>
        obtain rfl := Option.some.inj hstep
        exact .wake hsound hr hwaiting hk
      · next hk =>
        obtain rfl := Option.some.inj hstep
        refine .unanswered hr rfl (fun _ hne => by cases hne) ?_
        simp only [State.fresh, hr, Option.all_some, hwaiting, hk, Option.any_some, Bool.not_false,
          Bool.or_true]
      · cases hstep
    · cases hstep
  | timeout i =>
    obtain ⟨r, hr, hstep⟩ := Option.bind_eq_some_iff.mp hstep
    split at hstep
    · split at hstep
      · obtain rfl := Option.some.inj hstep
        exact .unanswered hr rfl (fun _ hne => by cases hne) rfl
      · cases hstep
    · cases hstep
  | dashboard =>
    obtain rfl := Option.some.inj hstep
    exact .asked .dashboard [] rfl rfl fun rid hne => by cases hne
  | admission =>
    obtain rfl := Option.some.inj hstep
    exact .asked .admission [] rfl rfl fun rid hne => by cases hne
  | start rid users =>
    simp only [State.step] at hstep
    split at hstep
    · cases hstep
    · next hnew =>
      obtain rfl := Option.some.inj hstep
      refine .asked (.test rid) [] rfl rfl fun rid' hsame => ?_
      injection hsame with hsame
      exact .inl (hsame ▸ hnew)
  | join rid =>
    obtain ⟨t, ht, hstep⟩ := Option.bind_eq_some_iff.mp hstep
    split at hstep
    · next hpc =>
      obtain rfl := Option.some.inj hstep
      refine .asked (.test rid) t.created rfl rfl fun rid' hsame => ?_
      injection hsame with hsame
      exact .inr ⟨t, hsame ▸ ht, hpc⟩
    · cases hstep
  | wait seconds =>
    simp only [State.step] at hstep
    split at hstep
    · obtain rfl := Option.some.inj hstep
      exact .same rfl rfl
    · cases hstep
  | list k | finish k =>
    simp only [State.step] at hstep
    split at hstep
    · obtain rfl := Option.some.inj hstep
      exact .same rfl rfl
    · cases hstep
  | fails k =>
    obtain ⟨x, hk, hstep⟩ := Option.bind_eq_some_iff.mp hstep
    split at hstep
    · obtain rfl := Option.some.inj hstep
      exact .same rfl rfl
    · cases hstep
  | decide rid granted =>
    obtain ⟨t, ht, hstep⟩ := Option.bind_eq_some_iff.mp hstep
    split at hstep
    · obtain ⟨r, hr, hstep⟩ := Option.bind_eq_some_iff.mp hstep
      split at hstep
      · obtain rfl := Option.some.inj hstep
        exact .granted rfl
      · cases hstep
      · obtain rfl := Option.some.inj hstep
        exact .same rfl rfl
    · cases hstep
  | create rid user =>
    obtain ⟨t, ht, hstep⟩ := Option.bind_eq_some_iff.mp hstep
    split at hstep
    · split at hstep
      · obtain rfl := Option.some.inj hstep
        exact .same rfl rfl
      · cases hstep
    · cases hstep
  | settle rid user =>
    obtain ⟨t, ht, hstep⟩ := Option.bind_eq_some_iff.mp hstep
    split at hstep
    · obtain rfl := Option.some.inj hstep
      exact .same rfl rfl
    · cases hstep
  | stop rid =>
    obtain ⟨t, ht, hstep⟩ := Option.bind_eq_some_iff.mp hstep
    obtain rfl := Option.some.inj hstep
    exact .same rfl rfl
  | appear c | remove c =>
    obtain rfl := Option.some.inj hstep
    exact .same rfl rfl

/-- **A step keeps the decisions fresh exactly when it meets the condition.** -/
theorem fresh_step {s s' : State} {e : Event} (hsound : Sound s) (h : Fresh s)
    (hstep : s.step e = some s') : Fresh s' ↔ s.fresh e = true := by
  cases step_moved hsound hstep with
  | same hr met => exact iff_of_true (fun r hmem => h r (hr ▸ hmem)) met
  | asked asker created hr met _ =>
    refine iff_of_true (fun r hmem hne smp hsmp => ?_) met
    rw [hr] at hmem
    rcases List.mem_append.mp hmem with hold | hnew
    · exact h r hold hne smp hsmp
    · rw [List.mem_singleton.mp hnew] at hsmp
      cases hsmp
  | answered i r a found hr met =>
    rw [met]
    constructor
    · intro hfresh
      refine hfresh { r with answer := a } ?_
      rw [hr]
      exact List.mem_of_getElem? (List.getElem?_set_self (List.getElem?_eq_some_iff.mp found).1)
    · intro ha r' hmem
      rw [hr] at hmem
      rcases List.mem_or_eq_of_mem_set hmem with hold | rfl
      · exact h r' hold
      · exact ha

theorem asksSettled {s : State} (e : Event) (hsound : Sound s) : AsksSettled s e := by
  intro s' hstep r hmem rid hasker
  cases step_moved hsound hstep with
  | same hr _ => simp [hr] at hmem
  | asked asker created hr _ settled =>
    rw [hr, List.drop_left, List.mem_singleton] at hmem
    rw [hmem] at hasker
    exact settled rid hasker
  | answered i r a _ hr _ =>
    rw [hr, List.drop_eq_nil_of_le (by rw [List.length_set])] at hmem
    cases hmem

/-- **The decisions of a run are based on samples that began after they asked, and that hold every sandbox
of their test, exactly when no step of the run hands them an older one.** A test asks only when its
preparations have settled. -/
theorem decisions_use_fresh_samples {s : State} {es : List Event}
    (hrun : sampling.run .initial es = some s) :
    (sampling.Throughout (fun s => Fresh s ∧ Budgeted s) .initial es ↔
      sampling.Along (fun s e => s.fresh e = true) .initial es) ∧
    sampling.Along AsksSettled .initial es := by
  have hkeep : ∀ s e s', Sound s → sampling.step s e = some s' → Sound s' :=
    fun s e s' h hstep => h.step hstep
  refine ⟨?_, sampling.along_always hkeep (fun s e h => asksSettled e h) sound_initial es⟩
  refine sampling.throughout_iff_along_of_invariant hkeep (fun s e s' h hp hstep => ?_) sound_initial
    ⟨fun r hmem => absurd hmem List.not_mem_nil, fun rid t i r smp ht => by cases ht⟩ hrun
  rw [← fresh_step h hp.1 hstep]
  exact ⟨fun h' => h'.1, fun h' => ⟨h', (h.step hstep).budgeted h'⟩⟩

/-- Five users in two batches: the second check is answered four seconds after the first. -/
def reusing : List Event :=
  [.start "t" ["u1", "u2", "u3", "u4", "u5"], .serve 0, .list 0, .finish 0, .wake 0, .decide "t" true,
    .create "t" "u1", .create "t" "u2", .create "t" "u3", .create "t" "u4", .settle "t" "u1",
    .settle "t" "u2", .settle "t" "u3", .settle "t" "u4", .wait 4, .join "t", .serve 1]

/-- The same run, six seconds after the first. -/
def sampledAgain : List Event :=
  reusing.take 14 ++ [.wait 6, .join "t", .serve 1, .list 1, .finish 1, .wake 1, .decide "t" true]

theorem decisions_of_second_batch : ∃ s, sampling.run .initial sampledAgain = some s ∧
    sampling.Throughout (fun s => Fresh s ∧ Budgeted s) .initial sampledAgain := by
  have hrun : (sampling.run .initial sampledAgain).isSome = true := by decide +kernel
  obtain ⟨s, hs⟩ := Option.isSome_iff_exists.mp hrun
  exact ⟨s, hs, (decisions_use_fresh_samples hs).1.mpr (by decide +kernel)⟩

/-- What the second check of `reusing` is given. -/
def reused (s : State) : Bool :=
  (s.readers[1]?).any fun r =>
    match r.answer with
    | .sample smp =>
      r.asker == .test "t" && decide (smp.index < r.asked) && !smp.containers.contains "u1" &&
        !s.removed.contains "u1" &&
        (s.tests.lookup "t").any fun t => t.created.contains "u1" &&
          match t.pc with
          | .checking i => i == 1
          | _ => false
    | _ => false

/-- The second batch is decided on the sample of the first, which began before and holds none of the four
sandboxes. -/
theorem batch_reuses_sample :
    ∃ s, sampling.run .initial reusing = some s ∧ ¬Fresh s ∧ ¬Budgeted s := by
  have hrun : (sampling.run .initial reusing).all (fun s => !reused s) = false := by decide +kernel
  obtain ⟨s, hs, hold⟩ := sampling.exists_run_of_all_eq_false hrun
  rw [Bool.not_eq_false'] at hold
  obtain ⟨r, hr, hold⟩ := (Option.any_eq_true _ _).mp hold
  split at hold
  · next smp hsmp =>
    simp only [Bool.and_eq_true, Bool.not_eq_true', beq_iff_eq, decide_eq_true_eq,
      List.contains_eq_mem, decide_eq_false_iff_not] at hold
    obtain ⟨⟨⟨⟨hasker, holder⟩, hmissing⟩, hremoved⟩, htest⟩ := hold
    obtain ⟨t, ht, hpc⟩ := (Option.any_eq_true _ _).mp htest
    simp only [Bool.and_eq_true, decide_eq_true_eq] at hpc
    obtain ⟨hcreated, hpc⟩ := hpc
    refine ⟨s, hs, fun hfresh => ?_, fun hbudgeted => ?_⟩
    · have hlater := hfresh r (List.mem_of_getElem? hr) (by rw [hasker]; exact fun hne => by cases hne)
        smp hsmp
      omega
    · split at hpc
      · next i hi =>
        obtain rfl := beq_iff_eq.mp hpc
        exact (hbudgeted "t" t 1 r smp ht hi hr hsmp "u1" hcreated).elim hmissing hremoved
      · cases hpc
  · cases hold

end OpencodeCloud.Platform.Capacity
