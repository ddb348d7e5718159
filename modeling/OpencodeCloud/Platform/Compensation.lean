/-
# OpencodeCloud.Platform.Compensation -- a release is committed or taken back, not both

A job decides to take its release back when the commit was not sent, or when the catalog has answered
that the release is not committed. The answer can be overtaken: a commit whose call has failed may still
be carried out after it, and the handler of exceptions also catches the failure to record a commit that
did succeed. As long as the release that a job may take back is not committed any more, and the
recording does not fail, no release is both committed and taken back (`committed_or_undone`).
-/
import OpencodeCloud.Catalog.Releases
import OpencodeCloud.Platform.Blocks

namespace OpencodeCloud.Platform

open OpencodeCloud.Library OpencodeCloud.Catalog OpencodeCloud.Operations

/-! ## §A Exposed releases -/

/-- The release that a request takes back. -/
def Letter.takesBack (l : Letter) : Option String :=
  match l.purpose with
  | .compensation rid => some rid
  | _ => none

/-- The releases that were taken back or still can be, whatever the catalog says from now on. -/
def State.exposed (p : State) : List String :=
  ((p.operations.workers.collect fun task w => some (w.exposes (p.answers.lookup (.worker task)))).flatten) ++
  p.abandoned.filterMap Letter.takesBack ++ p.undone

/-- Membership in the exposed releases, by its three reasons. -/
inductive Exposed (p : State) (rid : String) : Prop
  | worker (task : Nat) (w : Worker) (found : p.operations.workers.lookup task = some w)
      (exposes : rid ∈ w.exposes (p.answers.lookup (.worker task)))
  | abandoned (l : Letter) (found : l ∈ p.abandoned) (takesBack : l.takesBack = some rid)
  | undone (found : rid ∈ p.undone)

theorem mem_exposed_iff {p : State} {rid : String} : rid ∈ p.exposed ↔ Exposed p rid := by
  simp only [State.exposed, List.mem_append, List.mem_flatten, Dict.mem_collect, List.mem_filterMap,
    Option.some.injEq]
  constructor
  · rintro ((⟨_, ⟨task, w, hw, rfl⟩, hrid⟩ | ⟨l, hl, hrid⟩) | hrid)
    · exact .worker task w hw hrid
    · exact .abandoned l hl hrid
    · exact .undone hrid
  · rintro (⟨task, w, hw, hrid⟩ | ⟨l, hl, hrid⟩ | hrid)
    · exact Or.inl (Or.inl ⟨_, ⟨task, w, hw, rfl⟩, hrid⟩)
    · exact Or.inl (Or.inr ⟨l, hl, hrid⟩)
    · exact Or.inr hrid

/-- The request that a step carries out. -/
def carriedOut (p : State) : Event → Option Letter
  | .execute c _ => p.letter c
  | .late i _ => p.abandoned[i]?
  | _ => none

/-- The step is the failure to record the end of a job that has something to take back. -/
def losesSuccess (p : State) : Event → Bool
  | .operate (.work task true) =>
    (p.operations.workers.lookup task).any fun w => w.pc.closing && w.compensates
  | _ => false

/-- The step commits a release that was taken back or still can be. -/
def commitsExposed (p : State) (e : Event) : Bool :=
  (carriedOut p e).any fun l =>
    match l.call with
    | .commit rid => p.exposed.contains rid
    | _ => false

/-- The condition on a step. -/
def keepsReleases (p : State) (e : Event) : Bool := !losesSuccess p e && !commitsExposed p e

/-! ## §B Where exposed releases come from -/

/-- The answer of the catalog to a query says what the catalog holds. -/
theorem release_answer {env : Service.Environment} {p : State} {luck : Luck} {rid : String}
    {r : Release} (h : (p.perform env luck (.release rid)).2 = .ok (.release r)) :
    p.data.releases.lookup rid = some r := by
  simp only [State.perform, State.destination, State.catalogAnswer, releaseStatus] at h
  cases hr : p.catalog.store.data.releases.lookup rid with
  | none =>
    simp [hr, fail, Except.map, State.replyOf] at h
  | some r' =>
    simp only [hr, Except.map, State.replyOf, Reply.ok.injEq, Response.release.injEq] at h
    rw [h]

/-- The answer to a successful prepare is the new release. -/
theorem prepare_answer {env : Service.Environment} {p : State} {luck : Luck} {kind : Kind}
    {target : String} {request : Request} {r : Release}
    (h : (p.perform env luck (.prepare kind target request)).2 = .ok (.release r)) :
    Prepared env.host p.data r ∧ r.releaseId = luck.fresh ∧
      (State.askCatalog env p.catalog luck.fresh (.prepare kind target request)).store.data =
        { p.data with releases := p.data.releases.insert luck.fresh r } := by
  simp only [State.perform, State.destination, State.catalogAnswer] at h
  cases hp : prepare env.host luck.fresh (State.prepareRequest kind target request)
      p.catalog.store with
  | error e =>
    simp only [hp, Except.map, State.replyOf] at h
    split at h <;> exact absurd h (by simp)
  | ok x =>
    obtain ⟨t, r'⟩ := x
    simp only [hp, Except.map, State.replyOf, Reply.ok.injEq, Response.release.injEq] at h
    obtain ⟨hprepared, hid, _, rfl⟩ := prepare_eq_ok hp
    rw [h] at hprepared hid
    refine ⟨hprepared, hid, ?_⟩
    simp only [State.askCatalog, State.catalogCommand, Service.handle, hp, h, bind, Except.bind, pure,
      Except.pure]

/-- A worker that awaits the answer to a query of its commit. -/
theorem commitStatus_call {w : Worker} {exc : Exc} {call : Call} (hpc : w.pc = .commitStatus exc)
    (hcall : w.call = some call) : ∃ r, w.release = some r ∧ call = .release r.releaseId := by
  simp only [Worker.call, hpc, Option.map_eq_some_iff] at hcall
  obtain ⟨r, hr, rfl⟩ := hcall
  exact ⟨r, hr, rfl⟩

/-- A worker that awaits its release has asked for a new one. -/
theorem obtainRelease_call {p : State} (h : Orderly p) {task : Nat} {w : Worker} {call : Call}
    (hw : p.operations.workers.lookup task = some w) (hpc : w.pc = .obtainRelease)
    (hcall : w.call = some call) :
    call = .prepare w.job.kind w.job.target w.job.payload.request := by
  have hnone := h.firstRun.unreleased task w hw ((h.phases task w hw).publishes (Or.inr hpc))
  simp only [Worker.call, hpc, hnone, Option.some.injEq] at hcall
  exact hcall.symm

/-- What an answer newly exposes is not committed. -/
theorem exposed_of_answer {env : Service.Environment} {p : State} (h : Orderly p) {task : Nat}
    {w : Worker} {luck : Luck} {call : Call} (hw : p.operations.workers.lookup task = some w)
    (hcall : w.call = some call) {rid : String}
    (hrid : rid ∈ w.exposes (some (p.perform env luck call).2)) :
    rid ∈ w.exposes none ∨
      (State.askCatalog env p.catalog luck.fresh call).store.data.committed rid = false := by
  by_cases hr : ∃ r, (p.perform env luck call).2 = .ok (.release r)
  · obtain ⟨r, hr⟩ := hr
    cases hpc : w.pc <;> simp only [Worker.exposes, hpc] at hrid ⊢
    case commitStatus exc =>
      obtain ⟨r₀, hr₀, rfl⟩ := commitStatus_call hpc hcall
      have hlook := release_answer hr
      rw [hr] at hrid
      simp only [Worker.saysUncommitted, Bool.not_eq_true'] at hrid
      split at hrid
      · next hc =>
        refine Or.inr ?_
        simp only [Worker.held, hr₀, Option.map_some, Option.toList_some, List.mem_singleton] at hrid
        subst hrid
        simp [State.askCatalog, State.catalogCommand, Document.committed, hlook, hc]
      · exact absurd hrid List.not_mem_nil
    case obtainRelease =>
      rw [hr] at hrid
      rcases List.mem_append.mp hrid with hnew | hheld
      · refine Or.inr ?_
        obtain rfl := obtainRelease_call h hw hpc hcall
        obtain ⟨hprepared, hid, hdata⟩ := prepare_answer hr
        obtain rfl : rid = luck.fresh := by
          rw [← hid]
          simpa [Worker.answeredRelease] using hnew
        rw [hdata]
        simp [Document.committed, hprepared.uncommitted]
      · exact Or.inl (List.mem_append_right _ hheld)
    all_goals exact Or.inl hrid
  · exact Or.inl (Worker.exposes_mono (fun r heq => hr ⟨r, Option.some.inj heq⟩) hrid)

/-- At the end of its body a worker goes on to a compensation only where the success is lost. -/
theorem closing_work {s : Operations.Store} {w : Worker} {raises : Bool}
    (hclosing : w.pc.closing = true) {exc : Exc} (h : (w.work s raises).2.pc = .compensate exc) :
    raises = true ∧ w.compensates = true := by
  cases raises with
  | true => exact ⟨rfl, (@Worker.raise_compensates _ .other _ (Or.inl h)).2⟩
  | false =>
    cases hpc : w.pc <;> rw [hpc] at hclosing
    case desiredMark =>
      simp only [Worker.work, hpc, Bool.false_eq_true, if_false] at h
      split at h <;> cases h
    case finish =>
      simp only [Worker.work, hpc, Bool.false_eq_true, if_false] at h
      cases h
    all_goals exact absurd hclosing Bool.false_ne_true

/-- A worker that awaits an answer is not at the end of its body. -/
theorem closing_of_call {w : Worker} {call : Call} (h : w.call = some call) :
    w.pc.closing = false := by
  cases hpc : w.pc <;> first
    | rfl
    | (simp [Worker.call, hpc] at h)

theorem letter_takesBack {p : State} {c : Caller} {l : Letter} (h : p.letter c = some l)
    {rid : String} (hback : l.takesBack = some rid) : Exposed p rid := by
  unfold Letter.takesBack at hback
  split at hback
  · next rid' hpurpose =>
    obtain rfl := Option.some.inj hback
    rcases letter_eq_some h with ⟨task, w, _, hw, _, _, hp⟩ | ⟨_, _, _, _, _, _, hp⟩
    · rw [hpurpose, workerPurpose] at hp
      split at hp
      · next exc r hpc hr =>
        obtain rfl := Purpose.compensation.inj hp
        refine .worker task w hw ?_
        simp [Worker.exposes, hpc, Worker.held, hr]
      · cases hp
    · rw [hpurpose] at hp
      cases hp
  · cases hback

/-- Who was taken back after a request was carried out. -/
theorem undone_after {p : State} {l : Letter} {rid : String} (h : rid ∈ p.undoneAfter l) :
    l.takesBack = some rid ∨ rid ∈ p.undone := by
  unfold State.undoneAfter at h
  split at h
  · next rid' hpurpose =>
    rcases List.mem_cons.mp h with rfl | hold
    · exact Or.inl (by rw [Letter.takesBack, hpurpose])
    · exact Or.inr hold
  · exact Or.inr h

/-- **What is exposed after a step** was exposed before, or is not committed. -/
theorem exposed_origin {env : Service.Environment} {p q : State} {e : Event} (h : Orderly p)
    (hC : losesSuccess p e = false) (hstep : p.step env e = some q) {rid : String}
    (hrid : Exposed q rid) : Exposed p rid ∨ q.data.committed rid = false := by
  cases hrid with
  | worker task w' hw' hexposes =>
    cases h.worker_cases hstep hw' with
    | kept _ hold hanswer => exact Or.inl (.worker task w' hold (hanswer ▸ hexposes))
    | executed luck call hold hcall hopen hnew hcatalog hanswer =>
      rw [hanswer] at hexposes
      rcases exposed_of_answer h hold hcall hexposes with hbefore | hopen'
      · exact Or.inl (.worker task w' hold (by rw [hopen]; exact hbefore))
      · refine Or.inr ?_
        simp only [State.data, hcatalog]
        exact hopen'
    | worked w raises hw hidle hnext _ hanswer =>
      rw [hanswer, hnext] at hexposes
      refine Or.inl (.worker task w hw ?_)
      rw [h.no_answer (c := .worker task) (by simp [State.letter, hw, workerLetter, hidle])]
      refine (Worker.work_turn _ w raises).exposes (h.phases task w hw) (fun hclosing exc hpc => ?_) hexposes
      obtain ⟨rfl, hcompensates⟩ := closing_work hclosing hpc
      simp [losesSuccess, hw, hclosing, hcompensates] at hC
    | answered w reply hw hstored hnext hanswer =>
      rw [hanswer, hnext] at hexposes
      refine Or.inl (.worker task w hw ?_)
      obtain ⟨l, hl⟩ := h.awaited _ _ hstored
      obtain ⟨w₀, hw₀, hletter⟩ := Option.bind_eq_some_iff.mp hl
      obtain rfl := Option.some.inj (hw.symm.trans hw₀)
      obtain ⟨call, hcall, _⟩ := Option.map_eq_some_iff.mp hletter
      rw [hstored]
      refine (Worker.receive_turn w reply).exposes (h.phases task w hw) (fun hclosing => ?_) hexposes
      rw [closing_of_call hcall] at hclosing
      exact absurd hclosing (by decide)
    | lost w raised call hw hcall hnext hanswer =>
      rw [hanswer, hnext] at hexposes
      refine Or.inl (.worker task w hw ?_)
      refine Worker.exposes_mono (fun r heq => ?_) ((Worker.receive_turn w _).exposes
        (h.phases task w hw) (fun hclosing => ?_) hexposes)
      · unfold State.failure unavailable at heq
        split at heq <;> exact absurd heq (by simp)
      · rw [closing_of_call hcall] at hclosing
        exact absurd hclosing (by decide)
    | stopped w hw hawaits hnext hanswer =>
      rw [hanswer, hnext] at hexposes
      refine Or.inl (.worker task w hw ?_)
      obtain ⟨call, hcall⟩ := Option.isSome_iff_exists.mp hawaits
      have hturn : w.Turn none (w.raise .cancelled) := .raised none .cancelled
      refine Worker.exposes_mono (a := none) (fun r h => by cases h) (hturn.exposes (h.phases task w hw)
        (fun hclosing => ?_) hexposes)
      rw [closing_of_call hcall] at hclosing
      exact absurd hclosing (by decide)
    | spawned job _ hnext hanswer =>
      rw [hanswer, hnext] at hexposes
      exact absurd hexposes List.not_mem_nil
  | abandoned l hl hback =>
    rcases abandoned_origin hstep hl with hold | ⟨c, hc⟩
    · exact Or.inl (.abandoned l hold hback)
    · exact Or.inl (letter_takesBack hc hback)
  | undone hundone =>
    refine Or.inl ?_
    cases State.step_stepped hstep with
    | operated e sys _ _ =>
      obtain ⟨_, _, _, _, hsame⟩ := p.withdrawn_frame e
      exact .undone (hsame ▸ hundone)
    | executed c luck l hl _ _ =>
      rcases undone_after hundone with hback | hold
      · exact letter_takesBack hl hback
      · exact .undone hold
    | answered c reply sys _ _ => exact .undone hundone
    | lost c raised l sys _ _ => exact .undone hundone
    | executedLate i luck l hl _ =>
      rcases undone_after hundone with hback | hold
      · exact .abandoned l (List.mem_of_getElem? hl) hback
      · exact .undone hold
    | edited c s _ _ => exact .undone hundone
    | loaded aid fault => exact .undone hundone

/-! ## §C Runs -/

/-- The catalog marks a release only when its commit is carried out. -/
theorem committed_origin {env : Service.Environment} {p q : State} {e : Event}
    (h : p.step env e = some q) {rid : String} (hc : q.data.committed rid = true) :
    p.data.committed rid = true ∨ ∃ l, carriedOut p e = some l ∧ l.call = .commit rid := by
  have hcommand : ∀ (fresh : String) (call : Call), State.askCatalog env p.catalog fresh call =
      q.catalog → (∀ kind target request, call = .prepare kind target request →
        p.data.releases.lookup fresh = none) → p.data.committed rid = true ∨ call = .commit rid := by
    intro fresh call hq hnew
    rcases @State.askCatalog_step env _ _ _ hnew with hsame | ⟨command, hcommand, hs⟩
    · rw [hsame] at hq
      exact Or.inl (by rw [State.data, hq]; exact hc)
    · rw [hq] at hs
      refine ((step_effect hs).committed_origin hc).imp_right fun hcommit => ?_
      subst hcommit
      cases call <;> simp only [State.catalogCommand, Option.some.injEq, reduceCtorEq,
        Command.commit.injEq] at hcommand
      rw [hcommand]
  cases State.step_stepped h with
  | operated e sys _ _ =>
    obtain ⟨hcatalog, _⟩ := p.withdrawn_frame e
    simp only [State.data, hcatalog] at hc
    exact Or.inl hc
  | executed c luck l hl _ hnew =>
    exact (hcommand luck.fresh l.call (by simp) (State.newId_prepare hnew)).imp_right
      fun hcall => ⟨l, hl, hcall⟩
  | answered c reply sys _ _ => exact Or.inl hc
  | lost c raised l sys _ _ => exact Or.inl hc
  | executedLate i luck l hl hnew =>
    exact (hcommand luck.fresh l.call (by simp) (State.newId_prepare hnew)).imp_right
      fun hcall => ⟨l, hl, hcall⟩
  | edited c s hadmin hs =>
    refine ((step_effect hs).committed_origin hc).imp_right fun hcommit => ?_
    subst hcommit
    exact absurd hadmin Bool.false_ne_true
  | loaded aid fault => exact Or.inl hc

/-- What a run keeps. -/
structure ReleaseInv (p : State) : Prop where
  orderly : Orderly p
  open' : ∀ rid, Exposed p rid → p.data.committed rid = false

theorem releaseInv_step {env : Service.Environment} {p q : State} {e : Event} (hinv : ReleaseInv p)
    (hC : keepsReleases p e = true) (hstep : p.step env e = some q) : ReleaseInv q := by
  simp only [keepsReleases, Bool.and_eq_true, Bool.not_eq_true'] at hC
  obtain ⟨hsuccess, hcommits⟩ := hC
  refine ⟨hinv.orderly.step hstep, fun rid hrid => ?_⟩
  rcases exposed_origin hinv.orderly hsuccess hstep hrid with hbefore | hopen
  · by_contra hc
    rcases committed_origin hstep (by simpa using hc) with hold | ⟨l, hl, hcall⟩
    · rw [hinv.open' rid hbefore] at hold
      exact absurd hold (by decide)
    · simp only [commitsExposed, hl, Option.any_some, hcall, List.contains_eq_mem,
        decide_eq_false_iff_not] at hcommits
      exact hcommits (mem_exposed_iff.mpr hbefore)
  · exact hopen

theorem releaseInv_initial (code data : String) : ReleaseInv (State.initial code data) where
  orderly := Orderly.initial code data
  open' rid hrid := by
    cases hrid with
    | worker task w hw _ => simp [State.initial, System.initial] at hw
    | abandoned l hl _ => simp [State.initial] at hl
    | undone h => simp [State.initial] at h

/-- **A release that was taken back is not committed**, in every state of every run in which no exposed
release is committed and no success is lost. -/
theorem committed_or_undone {env : Service.Environment} {code data : String} {es : List Event}
    (hC : (platform env).Along (fun p e => keepsReleases p e = true) (State.initial code data) es) :
    (platform env).Throughout (fun p => ∀ rid ∈ p.undone, p.data.committed rid = false)
      (State.initial code data) es := by
  have hinv : (platform env).Throughout ReleaseInv (State.initial code data) es :=
    (platform env).throughout_of_along (fun _ _ _ hp hC hstep => releaseInv_step hp hC hstep)
      (releaseInv_initial code data) hC
  exact hinv.imp (platform env) fun p hp rid hrid => hp.open' rid (.undone hrid)

/-! ## §D A success that is not recorded -/

/-- The local writes of a worker, one after the other. -/
def worked (task n : Nat) : List Event := List.replicate n (.operate (.work task false))

/-- A worker prepares a release under the id `rid`. -/
def prepared (task : Nat) (rid : String) : List Event :=
  [.execute (.worker task) { plainLuck with fresh := rid }, .answer (.worker task)]

/-- A job that publishes the models, up to the acknowledged activation. -/
def activated (task : Nat) (jid rid requestId : String) : List Event :=
  [.operate (.submit jid requestId .modelsApply "*" "*" (plainPayload requestId) none)] ++
  worked task 1 ++ prepared task rid ++ worked task 1 ++ asked task ++ worked task 1 ++ asked task ++
  worked task 1 ++ asked task

/-- The same job up to the acknowledged commit. -/
def acknowledged (task : Nat) (jid rid requestId : String) : List Event :=
  activated task jid rid requestId ++ worked task 1 ++ asked task ++ worked task 1 ++ asked task

/-- The same job to its end. -/
def publication (task : Nat) (jid rid requestId : String) : List Event :=
  acknowledged task jid rid requestId ++ worked task 2 ++ asked task

/-- The second publication is committed, but its success cannot be recorded; the gateway is put back. -/
def unrecorded : List Event :=
  publication 0 "j1" "rel1" "request-1" ++ acknowledged 1 "j2" "rel2" "request-2" ++
  [.operate (.work 1 true)] ++ asked 1

/-- Is every release that was taken back uncommitted? -/
def State.settled (p : State) : Bool := p.undone.all fun rid => !p.data.committed rid

/-- The catalog holds the second release as the active one while its job puts the gateway back. -/
theorem committed_and_undone : ¬ ∀ (env : Service.Environment) (code data : String)
    (es : List Event) (q : State), (platform env).run (State.initial code data) es = some q →
    ∀ rid ∈ q.undone, q.data.committed rid = false := by
  intro hall
  have hbad : ((platform plainEnvironment).run (State.initial "" "") unrecorded).all
      State.settled = false := by decide
  obtain ⟨q, hrun, hq⟩ := (platform plainEnvironment).exists_run_of_all_eq_false hbad
  have hgood : q.settled = true := by
    rw [State.settled, List.all_eq_true]
    intro rid hrid
    rw [hall plainEnvironment "" "" _ q hrun rid hrid]
    rfl
  rw [hgood] at hq
  exact absurd hq (by decide)

/-- A publication whose verification fails before its commit is sent, and is taken back. -/
def unverified : List Event :=
  publication 0 "j1" "rel1" "request-1" ++ activated 1 "j2" "rel2" "request-2" ++ worked 1 1 ++
  [.lose (.worker 1) true] ++ asked 1

theorem committed_or_undone_when_unverified :
    (platform plainEnvironment).Throughout (fun p => ∀ rid ∈ p.undone, p.data.committed rid = false)
      (State.initial "" "") unverified :=
  committed_or_undone (by decide)

end OpencodeCloud.Platform
