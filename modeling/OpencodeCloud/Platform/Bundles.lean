/-
# OpencodeCloud.Platform.Bundles -- one file map for each version number

The sandbox manager creates the directory of a version when the version is applied, and never changes it
again; the catalog counts a version only when its release is committed. A release that was applied and
then taken back leaves its directory behind, and the next publication of the agent gets the same number.
As long as every publication is compiled to the files that already go under its number, and no release is
committed under the number of other files, an agent has one file map for each number (`Bundled`), and no
bundle is refused by the manager.
-/
import OpencodeCloud.Catalog.Editions
import OpencodeCloud.Catalog.References
import OpencodeCloud.Platform.Compensation

namespace OpencodeCloud.Platform

open OpencodeCloud.Library OpencodeCloud.Catalog OpencodeCloud.Operations

/-! ## §A The manager -/

/-- The edition that a package is, for an agent. -/
def packageEdition (target : String) (p : Package) : Edition := ⟨target, p.version, p.files⟩

/-- The refusal of a bundle that differs from the installed one. -/
def immutableBundle : Failure :=
  ⟨409, "Immutable bundle version already exists with different content"⟩

namespace Manager

variable {K : Edition → Prop} {d : Document} {fault : Option Fault}

/-- Every installed version is one of `K`. -/
def Within (K : Edition → Prop) (m : Manager) : Prop :=
  ∀ version aid files, m.installed.lookup (version, aid) = some files → K ⟨aid, version, files⟩

/-- What is installed stays within `K`, and no bundle is refused for its content. -/
def Accepts {α : Type} (K : Edition → Prop) (r : Manager × Result α) : Prop :=
  r.1.Within K ∧ r.2 ≠ .error immutableBundle

/-- The editions of `K` do not contradict each other, and `K` has all that is published. -/
structure Consistent (K : Edition → Prop) (d : Document) : Prop where
  agree : ∀ x y, K x → K y → x.agrees y = true
  published : ∀ x, d.publishes x → K x

theorem install_within {m m' : Manager} {aid : String} {version : Nat} {files : Files}
    (hm : m.Within K) (hx : K ⟨aid, version, files⟩) (h : m.install aid version files = .ok m') :
    m'.Within K := by
  simp only [install, bind_eq_ok] at h
  obtain ⟨_, _, _, _, h⟩ := h
  split at h
  · obtain rfl := Except.ok.inj h
    intro version' aid' files' hlook
    rcases Dict.lookup_insert_cases hlook with ⟨hkey, rfl⟩ | ⟨_, hold⟩
    · obtain ⟨rfl, rfl⟩ := Prod.mk.inj hkey
      exact hx
    · exact hm version' aid' files' hold
  · simp only [bind_eq_ok] at h
    obtain ⟨_, _, h⟩ := h
    obtain rfl := Except.ok.inj h
    exact hm

/-- A bundle that agrees with what is installed is not refused for its content. -/
theorem install_accepts (hK : Consistent K d) {m : Manager} {aid : String} {version : Nat}
    {files : Files} (hm : m.Within K) (hx : K ⟨aid, version, files⟩) :
    m.install aid version files ≠ .error immutableBundle := by
  intro h
  unfold install at h
  by_cases hcount : files.entries.length > 2000
  · simp [hcount, refuse, fail, bind, Except.bind, immutableBundle] at h
  · by_cases hconfig : (files.lookup "agent.cfg").isNone = true
    · simp [hcount, hconfig, refuse, fail, bind, Except.bind, immutableBundle] at h
    · rw [Bool.not_eq_true] at hconfig
      cases hlook : m.installed.lookup (version, aid) with
      | none =>
        simp [hcount, hconfig, hlook, refuse, bind, Except.bind, pure, Except.pure] at h
      | some current =>
        have hsame : current.same files = true :=
          Edition.agrees_iff.mp (hK.agree _ _ (hm version aid current hlook) hx) rfl rfl
        simp [hcount, hconfig, hlook, hsame, refuse, bind, Except.bind, pure, Except.pure] at h

/-- The active version of the catalog is published. -/
theorem publishes_active {aid : String} {v : AgentVersion}
    (h : (d.agents.lookup aid).bind activeVersion = some v) : d.publishes ⟨aid, v.version, v.files⟩ := by
  obtain ⟨a, ha, hactive⟩ := Option.bind_eq_some_iff.mp h
  obtain ⟨n, _, hfind⟩ := Option.bind_eq_some_iff.mp hactive
  exact ⟨a, v, ha, List.mem_of_find?_eq_some hfind, rfl, rfl⟩

theorem authoritative_accepts (hK : Consistent K d) {m : Manager} (hm : m.Within K) (aid : String) :
    Accepts K (m.authoritative d fault aid) := by
  unfold authoritative
  split
  · exact ⟨hm, by simp [fail, immutableBundle]⟩
  · split
    · exact ⟨hm, by simp [fail, immutableBundle]⟩
    · next v hv =>
      have hx : K ⟨aid, v.version, v.files⟩ := hK.published _ (publishes_active hv)
      split
      · next h => exact ⟨install_within hm hx h, by simp⟩
      · next e h =>
        refine ⟨hm, fun he => install_accepts hK hm hx ?_⟩
        rw [h]
        exact congrArg Except.error (Except.error.inj he)

theorem definition_accepts (version : Nat) : definition fault version ≠ .error immutableBundle := by
  unfold definition
  split <;> simp [fail, immutableBundle]

theorem load_accepts (hK : Consistent K d) {m : Manager} (hm : m.Within K) (aid : String) :
    Accepts K (m.load d fault aid) := by
  have h := @authoritative_accepts K d fault hK m hm aid
  unfold load
  split
  · exact ⟨hm, definition_accepts _⟩
  · split
    · next heq =>
      rw [heq] at h
      exact ⟨h.1, definition_accepts _⟩
    · next heq =>
      rw [heq] at h
      exact ⟨h.1, fun he => h.2 (congrArg Except.error (Except.error.inj he))⟩

theorem commitOverride_accepts (hK : Consistent K d) {m : Manager} (hm : m.Within K) (aid : String) :
    Accepts K (m.commitOverride d fault aid) := by
  have hload := @load_accepts K d fault hK m hm aid
  have h := @authoritative_accepts K d fault hK m hm aid
  unfold commitOverride
  split
  · refine ⟨hload.1, fun he => ?_⟩
    cases hl : (m.load d fault aid).2 with
    | ok v => simp [hl, Except.map] at he
    | error e =>
      rw [hl] at he
      exact hload.2 (hl.trans (congrArg Except.error (Except.error.inj he)))
  · split
    · next heq =>
      rw [heq] at h
      exact ⟨h.1, fun he => h.2 (congrArg Except.error (Except.error.inj he))⟩
    · next heq =>
      rw [heq] at h
      split
      · exact ⟨h.1, by simp [fail, immutableBundle]⟩
      · split
        · next e hdef =>
          refine ⟨h.1, fun he => @definition_accepts fault _ (hdef.trans ?_)⟩
          exact congrArg Except.error (Except.error.inj he)
        · exact ⟨h.1, by simp⟩

/-- What each target accepts, all targets together accept. -/
theorem each_accepts {f : Manager → String → Manager × Result Unit}
    (h : ∀ m t, m.Within K → Accepts K (f m t)) {m : Manager} (ts : List String) (hm : m.Within K) :
    Accepts K (each f m ts) := by
  induction ts generalizing m with
  | nil => exact ⟨hm, by simp [each]⟩
  | cons t ts ih =>
    have ht := h m t hm
    simp only [each]
    split
    · next m' hf =>
      rw [hf] at ht
      exact ih ht.1
    · next m' e hf =>
      rw [hf] at ht
      exact ht

theorem resume_accepts (hK : Consistent K d) {m : Manager} (hm : m.Within K) (aid : String) :
    Accepts K (m.resume d fault aid) := by
  have h : Accepts K (each (commitOverride d fault) m (m.resumeTargets aid)) :=
    each_accepts (fun m t hm => commitOverride_accepts hK hm t) _ hm
  unfold resume
  split
  · next heq =>
    rw [heq] at h
    exact h
  · next heq =>
    rw [heq] at h
    exact ⟨h.1, by simp⟩

theorem verify_accepts (hK : Consistent K d) {m : Manager} (hm : m.Within K) (aid : String) :
    Accepts K (m.verify d fault aid) := by
  refine each_accepts (fun m t hm => ?_) _ hm
  have h := @load_accepts K d fault hK m hm t
  unfold verifyTarget
  split
  · next heq =>
    rw [heq] at h
    exact ⟨h.1, fun he => h.2 (congrArg Except.error (Except.error.inj he))⟩
  · next heq =>
    rw [heq] at h
    split
    · exact ⟨h.1, by simp [fail, immutableBundle]⟩
    · exact ⟨h.1, by simp⟩

theorem applyBundle_accepts (hK : Consistent K d) {m : Manager} (hm : m.Within K) {aid : String}
    {bundle : Option Package} (hx : ∀ x, bundle.map (packageEdition aid) = some x → K x) :
    Accepts K (m.applyBundle fault aid bundle) := by
  unfold applyBundle
  dsimp only
  split
  · exact ⟨hm, by simp [fail, immutableBundle]⟩
  · next p =>
    have hp : K ⟨aid, p.version, p.files⟩ := hx _ rfl
    have hm' : ({ m with verified := m.verified.erase aid } : Manager).Within K := hm
    split
    · next e h =>
      refine ⟨hm, fun he => install_accepts hK hm' hp (h.trans ?_)⟩
      exact congrArg Except.error (Except.error.inj he)
    · next h =>
      have hinstalled := install_within hm' hp h
      split
      · next e hdef =>
        refine ⟨hinstalled, fun he => @definition_accepts fault _ (hdef.trans ?_)⟩
        exact congrArg Except.error (Except.error.inj he)
      · exact ⟨hinstalled, by simp⟩

theorem hold_accepts (hK : Consistent K d) {m : Manager} (hm : m.Within K) {aid : String}
    {body : ActionBody} (hx : ∀ x, body.bundle.map (packageEdition aid) = some x → K x) :
    Accepts K (m.hold fault aid body) := by
  unfold hold
  split
  · exact ⟨hm, by simp [fail, immutableBundle]⟩
  · have hblock : (m.block aid).Within K := hm
    have happly := @applyBundle_accepts K d fault hK _ hblock _ _ hx
    dsimp only
    split
    · exact ⟨hblock, by simp [fail, immutableBundle]⟩
    · split
      · exact ⟨hblock, by simp [fail, immutableBundle]⟩
      · by_cases ha : body.action = .apply
        · simp only [ha, if_true]
          split
          · next heq => rw [heq] at happly; exact happly
          · next heq =>
            rw [heq] at happly
            split
            · exact ⟨happly.1, by simp [fail, immutableBundle]⟩
            · exact happly
        · simp only [ha, if_false]
          split
          · exact ⟨hblock, by simp [fail, immutableBundle]⟩
          · exact ⟨hblock, by simp⟩

theorem perform_accepts (hK : Consistent K d) {m : Manager} (hm : m.Within K) {aid : String}
    {body : ActionBody} (hx : ∀ x, body.bundle.map (packageEdition aid) = some x → K x) :
    Accepts K (m.perform d fault aid body) := by
  unfold perform
  split
  · exact resume_accepts hK hm aid
  · exact verify_accepts hK hm aid
  all_goals exact hold_accepts hK hm hx

/-- **An action accepts the bundle it is sent**, and installs only what is in `K`. -/
theorem action_accepts (hK : Consistent K d) {m : Manager} (hm : m.Within K) {aid : String}
    {body : ActionBody} (hx : ∀ x, body.bundle.map (packageEdition aid) = some x → K x) :
    (m.action d fault aid body).1.Within K ∧
      (m.action d fault aid body).2 ≠ .error immutableBundle := by
  unfold action
  split
  · exact ⟨hm, by simp⟩
  · split
    · exact ⟨hm, by simp [immutableBundle]⟩
    · split
      · split
        · exact ⟨hm, by simp [immutableBundle]⟩
        · split
          · exact ⟨hm, by simp⟩
          · exact ⟨hm, by simp [immutableBundle]⟩
      · have hentered : ({ m with
            commands := m.commands.insert body.requestId ⟨aid, body, false⟩ } : Manager).Within K := hm
        have h := @perform_accepts K d fault hK _ hentered _ _ hx
        dsimp only
        split
        · next heq =>
          rw [heq] at h
          exact ⟨h.1, fun he => h.2 (congrArg Except.error (Reply.error.inj he))⟩
        · next heq =>
          rw [heq] at h
          exact ⟨h.1, by simp⟩

theorem applicationStatus_within (hK : Consistent K d) {m : Manager} (hm : m.Within K)
    (aid : String) : (m.applicationStatus d fault aid).1.Within K := by
  have h := @load_accepts K d fault hK m hm aid
  unfold applicationStatus
  split
  · exact hm
  · split <;> next heq => rw [heq] at h; exact h.1

end Manager

/-! ## §B Bundles on their way -/

/-- The edition that an action carries. -/
def bodyEdition (target : String) (body : ActionBody) : Option Edition :=
  body.bundle.map (packageEdition target)

/-- The edition that a request carries to the manager. -/
def Letter.edition (l : Letter) : Option Edition :=
  match l.call with
  | .action target body => bodyEdition target body
  | _ => none

/-- The edition that an action has brought to the manager. -/
def CommandRow.edition (row : CommandRow) : Option Edition := bodyEdition row.target row.body

/-- The statements from which a bundle may still be sent. -/
def sending : Pc → Bool
  | .compensate _ => true
  | pc => pc.inBody

/-- The package in the answer that a worker is about to take. -/
def answeredPackage (pc : Pc) (answer : Option Reply) : Option Package :=
  match pc, answer with
  | .obtainRelease, some (.ok (.release r)) => some (.release r)
  | .fetchPrevious, some (.ok (.bundle b)) => some (.previous b)
  | _, _ => none

/-- Only the publication of an agent sends its release to the manager. -/
def sends (kind : Kind) : Package → Bool
  | .release _ => kind == .agentApply
  | .previous _ => true

/-- What a worker publishes and what it goes back to; `answer` is the answer that it is about to
take. -/
def workerPackages (w : Worker) (answer : Option Reply) : List Package :=
  ((w.release.map Package.release).toList ++ (w.previous.map Package.previous).toList ++
    (answeredPackage w.pc answer).toList).filter (sends w.job.kind)

/-- The editions that a worker may still send to the manager. -/
def workerEditions (w : Worker) (answer : Option Reply) : List Edition :=
  if sending w.pc then (workerPackages w answer).map (packageEdition w.job.target) else []

/-- The editions that the manager was sent, has installed, or may still be sent. -/
def State.editions (p : State) : List Edition :=
  (p.operations.workers.collect fun task w =>
    some (workerEditions w (p.answers.lookup (.worker task)))).flatten ++
  p.abandoned.filterMap Letter.edition ++
  p.manager.commands.collect (fun _ row => row.edition) ++
  p.manager.installed.collect fun k files => some ⟨k.2, k.1, files⟩

/-- Membership in the editions, by its four reasons. -/
inductive Present (p : State) (x : Edition) : Prop
  | worker (task : Nat) (w : Worker) (found : p.operations.workers.lookup task = some w)
      (sends : x ∈ workerEditions w (p.answers.lookup (.worker task)))
  | abandoned (l : Letter) (found : l ∈ p.abandoned) (carries : l.edition = some x)
  | entered (key : String) (row : CommandRow) (found : p.manager.commands.lookup key = some row)
      (carries : row.edition = some x)
  | installed (found : p.manager.installed.lookup (x.version, x.target) = some x.files)

theorem mem_editions_iff {p : State} {x : Edition} : x ∈ p.editions ↔ Present p x := by
  simp only [State.editions, List.mem_append, List.mem_flatten, Dict.mem_collect,
    List.mem_filterMap, Option.some.injEq]
  constructor
  · rintro (((⟨_, ⟨task, w, hw, rfl⟩, hx⟩ | ⟨l, hl, hx⟩) | ⟨key, row, hrow, hx⟩) | ⟨k, files, hk, rfl⟩)
    · exact .worker task w hw hx
    · exact .abandoned l hl hx
    · exact .entered key row hrow hx
    · exact .installed hk
  · intro h
    cases h with
    | worker task w hw hx => exact Or.inl (Or.inl (Or.inl ⟨_, ⟨task, w, hw, rfl⟩, hx⟩))
    | abandoned l hl hx => exact Or.inl (Or.inl (Or.inr ⟨l, hl, hx⟩))
    | entered key row hrow hx => exact Or.inl (Or.inr ⟨key, row, hrow, hx⟩)
    | installed hk => exact Or.inr ⟨(x.version, x.target), x.files, hk, rfl⟩

/-- The edition that a step brings up: the publication that a worker has prepared, or the version that
the catalog commits. -/
def brings (env : Service.Environment) (p : State) : Event → Option Edition
  | .execute c _ =>
    (p.letter c).bind fun l =>
      match l.call with
      | .prepare .agentApply target request =>
        draftEdition env.host p.data target (State.prepareRequest .agentApply target request).selected
      | .commit rid => acceptedEdition rid p.data
      | _ => none
  | .late i _ =>
    p.abandoned[i]?.bind fun l =>
      match l.call with
      | .commit rid => acceptedEdition rid p.data
      | _ => none
  | _ => none

/-- The condition on a step: what it brings up has the files that go under its number. -/
def keepsFiles (env : Service.Environment) (p : State) (e : Event) : Bool :=
  (brings env p e).all fun x => p.editions.all x.agrees

/-! ## §C Where editions come from -/

/-- The editions that a worker may send, one by one. -/
theorem mem_workerEditions {w : Worker} {answer : Option Reply} {x : Edition} :
    x ∈ workerEditions w answer ↔ sending w.pc = true ∧ ∃ k,
      (w.release.map Package.release = some k ∨ w.previous.map Package.previous = some k ∨
        answeredPackage w.pc answer = some k) ∧
      sends w.job.kind k = true ∧ packageEdition w.job.target k = x := by
  unfold workerEditions
  split
  · next h =>
    simp only [workerPackages, List.mem_map, List.mem_filter, List.mem_append, Option.mem_toList,
      h, true_and, or_assoc, and_assoc]
  · next h => simp [h]

/-- What a worker sends is one of its editions. -/
theorem worker_edition {w : Worker} {answer : Option Reply} {target : String} {body : ActionBody}
    (hcall : w.call = some (.action target body)) {x : Edition} (hx : bodyEdition target body = some x) :
    x ∈ workerEditions w answer := by
  rw [mem_workerEditions]
  cases hpc : w.pc <;> simp only [Worker.call, hpc, reduceCtorEq, Option.some.injEq,
    Call.action.injEq] at hcall
  case apply =>
    obtain ⟨r, hr, hcall⟩ := Option.map_eq_some_iff.mp hcall
    split at hcall
    · next hkind =>
      obtain ⟨rfl, rfl⟩ := Call.action.inj hcall
      obtain rfl := Option.some.inj hx
      exact ⟨rfl, .release r, Or.inl (by rw [hr]; rfl), by simp [sends, hkind], rfl⟩
    · cases hcall
  case compensate exc =>
    split at hcall
    · obtain ⟨r, _, hcall⟩ := Option.map_eq_some_iff.mp hcall
      cases hcall
    · obtain ⟨b, hb, hcall⟩ := Option.map_eq_some_iff.mp hcall
      obtain ⟨rfl, rfl⟩ := Call.action.inj hcall
      obtain rfl := Option.some.inj hx
      exact ⟨rfl, .previous b, Or.inr (Or.inl (by rw [hb]; rfl)), rfl, rfl⟩
  case obtainRelease => split at hcall <;> cases hcall
  case probe =>
    obtain ⟨r, _, hcall⟩ := Option.map_eq_some_iff.mp hcall
    split at hcall <;> cases hcall
  case verify =>
    split at hcall
    · obtain ⟨rfl, rfl⟩ := Call.action.inj (Option.some.inj hcall)
      cases hx
    · cases hcall
  case commit | commitStatus =>
    obtain ⟨r, _, hcall⟩ := Option.map_eq_some_iff.mp hcall
    cases hcall
  all_goals
    obtain ⟨rfl, rfl⟩ := hcall
    cases hx

/-- The edition of a request that is awaited is present. -/
theorem letter_present {p : State} {c : Caller} {l : Letter} (h : p.letter c = some l) {x : Edition}
    (hx : l.edition = some x) : Present p x := by
  unfold Letter.edition at hx
  split at hx
  · next target body hcall =>
    rcases letter_eq_some h with ⟨task, w, _, hw, hwc, _, _⟩ | ⟨task, t, _, _, htc, _, _⟩
    · rw [hcall] at hwc
      exact .worker task w hw (worker_edition hwc hx)
    · rw [hcall] at htc
      cases hpc : t.pc <;> simp only [Reconciler.call, hpc, reduceCtorEq, Option.some.injEq,
        Call.action.injEq, Option.map_eq_some_iff] at htc
      case resume =>
        obtain ⟨rfl, rfl⟩ := htc
        cases hx
      case readApplied => split at htc <;> cases htc
      all_goals
        obtain ⟨_, _, htc⟩ := htc
        cases htc
  · cases hx

/-- A worker that may still send a bundle could send it before. -/
theorem turn_sending {w w' : Worker} {answer : Option Reply} (h : w.Turn answer w')
    (hs : sending w'.pc = true) : sending w.pc = true := by
  have hbody : ∀ pc : Pc, pc.inBody = true → sending pc = true := by
    intro pc hpc
    cases pc <;> first | exact hpc | rfl
  have hout : ∀ v : Worker, v.pc.inBody = false → (∀ exc, v.pc ≠ .compensate exc) →
      sending v.pc = false := by
    intro v hv hne
    cases hpc : v.pc with
    | compensate exc => exact absurd hpc (hne exc)
    | _ => rw [hpc] at hv; exact hv
  have hraised : ∀ (v : Worker) (exc : Exc), sending (v.raise exc).pc = true → v.pc.inBody = true := by
    intro v exc hsent
    by_contra hno
    rw [hout _ (Worker.raise_body v exc) fun exc' hpc =>
      hno (@Worker.raise_compensates v exc exc' (Or.inl hpc)).1] at hsent
    exact absurd hsent Bool.false_ne_true
  cases h with
  | idle => exact hs
  | raised _ exc => exact hbody _ (hraised w exc hs)
  | uncommitted exc r here _ => rw [here]; rfl
  | committed _ result here =>
    rcases here with here | ⟨exc, here⟩
    · rw [here]; rfl
    · rw [here]; rfl
  | onward _ _ _ body _ _ => exact hbody _ body
  | outside _ _ _ out compensates _ =>
    rw [hout _ out compensates] at hs
    exact absurd hs Bool.false_ne_true
  | started pc here _ _ _ => rw [here]; rfl
  | fetched b here => rw [here]; rfl
  | unpublished e here => rw [here]; rfl
  | obtained r here => rw [here]; rfl
  | committing here => rw [here]; rfl
  | doubtful e here => rw [here]; rfl

/-- **What a worker sends after a turn** it could send before, or it is in the answer. -/
theorem turn_editions {w w' : Worker} {answer : Option Reply} (h : w.Turn answer w') {x : Edition}
    (hx : x ∈ workerEditions w' none) : x ∈ workerEditions w answer := by
  rw [mem_workerEditions] at hx ⊢
  obtain ⟨hs, k, hk, hsends, rfl⟩ := hx
  refine ⟨turn_sending h hs, k, ?_, h.job ▸ hsends, by rw [h.job]⟩
  rcases hk with hr | hb | ha
  · obtain ⟨r, hhas, rfl⟩ := Option.map_eq_some_iff.mp hr
    rcases h.release hhas with hold | ⟨here, rfl⟩
    · exact Or.inl (by rw [hold]; rfl)
    · exact Or.inr (Or.inr (by rw [here]; rfl))
  · obtain ⟨b, hhas, rfl⟩ := Option.map_eq_some_iff.mp hb
    rcases h.previous hhas with hold | ⟨here, rfl⟩
    · exact Or.inr (Or.inl (by rw [hold]; rfl))
    · exact Or.inr (Or.inr (by rw [here]; rfl))
  · unfold answeredPackage at ha
    split at ha <;> simp_all

/-- An answer adds at most the package in it. -/
theorem editions_of_answer {w : Worker} {a b : Option Reply} {x : Edition}
    (hx : x ∈ workerEditions w a) :
    x ∈ workerEditions w b ∨ ∃ k, answeredPackage w.pc a = some k ∧
      sends w.job.kind k = true ∧ packageEdition w.job.target k = x := by
  rw [mem_workerEditions] at hx
  obtain ⟨hs, k, hk, hsends, hx⟩ := hx
  rcases hk with hr | hb | ha
  · exact Or.inl (mem_workerEditions.mpr ⟨hs, k, Or.inl hr, hsends, hx⟩)
  · exact Or.inl (mem_workerEditions.mpr ⟨hs, k, Or.inr (Or.inl hb), hsends, hx⟩)
  · exact Or.inr ⟨k, ha, hsends, hx⟩

theorem answeredPackage_none (pc : Pc) : answeredPackage pc none = none := by
  unfold answeredPackage
  split <;> simp_all

theorem answeredPackage_failure (pc : Pc) (raised : Bool) (call : Call) :
    answeredPackage pc (some (State.failure raised call)) = none := by
  unfold answeredPackage State.failure unavailable
  cases raised <;> cases pc <;> rfl

/-- The edition of a prepared release is what the draft is compiled to. -/
theorem prepared_brought {env : Service.Environment} {p : State} {luck : Luck} {target : String}
    {request : Request} {r : Release}
    (h : (p.perform env luck (.prepare .agentApply target request)).2 = .ok (.release r)) :
    draftEdition env.host p.data target (State.prepareRequest .agentApply target request).selected =
      some (packageEdition target (.release r)) := by
  simp only [State.perform, State.destination, State.catalogAnswer] at h
  cases hp : prepare env.host luck.fresh (State.prepareRequest .agentApply target request)
      p.catalog.store with
  | error e =>
    simp only [hp, Except.map, State.replyOf] at h
    split at h <;> cases h
  | ok x =>
    obtain ⟨t, r'⟩ := x
    simp only [hp, Except.map, State.replyOf, Reply.ok.injEq, Response.release.injEq] at h
    obtain rfl := h
    obtain ⟨cfg, files, _, hcontent, hdraft⟩ := @prepare_edition env.host luck.fresh target _ _ _ _ rfl hp
    rw [hdraft, packageEdition, Package.version, Package.files, hcontent]

/-- The catalog has it from then on. -/
theorem prepared_compiled {env : Service.Environment} {p : State} {luck : Luck} {target : String}
    {request : Request} {r : Release}
    (h : (p.perform env luck (.prepare .agentApply target request)).2 = .ok (.release r)) :
    (State.askCatalog env p.catalog luck.fresh (.prepare .agentApply target request)).store.data.compiled
      (packageEdition target (.release r)) := by
  obtain ⟨_, _, hdata⟩ := prepare_answer h
  simp only [State.perform, State.destination, State.catalogAnswer] at h
  cases hp : prepare env.host luck.fresh (State.prepareRequest .agentApply target request)
      p.catalog.store with
  | error e =>
    simp only [hp, Except.map, State.replyOf] at h
    split at h <;> cases h
  | ok x =>
    obtain ⟨t, r'⟩ := x
    simp only [hp, Except.map, State.replyOf, Reply.ok.injEq, Response.release.injEq] at h
    obtain rfl := h
    obtain ⟨cfg, files, htarget, hcontent, _⟩ :=
      @prepare_edition env.host luck.fresh target _ _ _ _ rfl hp
    refine ⟨luck.fresh, r', cfg, ?_, htarget, rfl, ?_⟩
    · rw [hdata]
      exact AList.lookup_insert _
    · rw [hcontent, packageEdition, Package.files, hcontent]

/-- The bundle that a worker goes back to is published. -/
theorem fetched_published {env : Service.Environment} {p : State} {luck : Luck} {target : String}
    {b : Bundle} (h : (p.perform env luck (.activeBundle target)).2 = .ok (.bundle b)) :
    p.data.publishes (packageEdition target (.previous b)) := by
  simp only [State.perform, State.destination, State.catalogAnswer, activeBundle] at h
  split at h
  · simp only [fail, Except.map, State.replyOf] at h
    cases h
  · next v hv =>
    simp only [Except.map, State.replyOf, Reply.ok.injEq, Response.bundle.injEq] at h
    obtain rfl := h
    exact Manager.publishes_active hv

/-- What a worker awaits when its answer brings a package. -/
theorem answered_call {p : State} (h : Orderly p) {task : Nat} {w : Worker} {call : Call}
    (hw : p.operations.workers.lookup task = some w) (hcall : w.call = some call)
    {answer : Option Reply} {k : Package} (hk : answeredPackage w.pc answer = some k) :
    (∃ r, k = .release r ∧ answer = some (.ok (.release r)) ∧
      call = .prepare w.job.kind w.job.target w.job.payload.request) ∨
    ∃ b, k = .previous b ∧ answer = some (.ok (.bundle b)) ∧ call = .activeBundle w.job.target := by
  unfold answeredPackage at hk
  split at hk
  · next r hpc =>
    obtain rfl := Option.some.inj hk
    exact Or.inl ⟨r, rfl, rfl, obtainRelease_call h hw hpc hcall⟩
  · next b hpc =>
    obtain rfl := Option.some.inj hk
    simp only [Worker.call, hpc, Option.some.injEq] at hcall
    exact Or.inr ⟨b, rfl, rfl, hcall.symm⟩
  · cases hk

/-! ## §D What a step does -/

/-- An edition that is present or published. -/
def Known (p : State) (x : Edition) : Prop := Present p x ∨ p.data.publishes x

/-- What a run keeps: an agent has one file map for each number. -/
structure Bundled (p : State) : Prop where
  orderly : Orderly p
  numbered : p.data.Numbered
  agree : ∀ x y, Known p x → Known p y → x.agrees y = true

/-- What the catalog publishes after a step was published before, or the step has brought it up. -/
theorem published_origin {env : Service.Environment} {p q : State} {e : Event}
    (h : p.step env e = some q) {x : Edition} (hx : q.data.publishes x) :
    p.data.publishes x ∨ brings env p e = some x ∧ p.data.compiled x := by
  have hcommand : ∀ (fresh : String) (call : Call), State.askCatalog env p.catalog fresh call =
      q.catalog → (∀ kind target request, call = .prepare kind target request →
        p.data.releases.lookup fresh = none) →
      p.data.publishes x ∨ ∃ rid, call = .commit rid ∧ acceptedEdition rid p.data = some x := by
    intro fresh call hq hnew
    rcases @State.askCatalog_step env _ _ _ hnew with hsame | ⟨command, hcommand, hs⟩
    · rw [hsame] at hq
      exact Or.inl (by rw [State.data, hq]; exact hx)
    · rw [hq] at hs
      refine ((step_effect hs).publishes hx).imp_right ?_
      rintro ⟨rid, rfl, haccepted⟩
      cases call <;> simp only [State.catalogCommand, Option.some.injEq, reduceCtorEq,
        Command.commit.injEq] at hcommand
      exact ⟨rid, by rw [hcommand], haccepted⟩
  cases State.step_stepped h with
  | operated e sys _ _ =>
    obtain ⟨hcatalog, _⟩ := p.withdrawn_frame e
    simp only [State.data, hcatalog] at hx
    exact Or.inl hx
  | executed c luck l hl _ hnew =>
    refine (hcommand luck.fresh l.call (by simp) (State.newId_prepare hnew)).imp_right ?_
    rintro ⟨rid, hcall, haccepted⟩
    refine ⟨?_, acceptedEdition_compiled haccepted⟩
    simp only [brings, hl, Option.bind_some, hcall, haccepted]
  | answered c reply sys _ _ => exact Or.inl hx
  | lost c raised l sys _ _ => exact Or.inl hx
  | executedLate i luck l hl hnew =>
    refine (hcommand luck.fresh l.call (by simp) (State.newId_prepare hnew)).imp_right ?_
    rintro ⟨rid, hcall, haccepted⟩
    refine ⟨?_, acceptedEdition_compiled haccepted⟩
    simp only [brings, hl, Option.bind_some, hcall, haccepted]
  | edited c s hadmin hs =>
    refine ((step_effect hs).publishes hx).imp_right ?_
    rintro ⟨rid, rfl, _⟩
    exact absurd hadmin Bool.false_ne_true
  | loaded aid fault => exact Or.inl hx

/-- What a step brings up has the next number of its agent. -/
theorem brings_follows {env : Service.Environment} {p : State} {e : Event} (hn : p.data.Numbered)
    {x : Edition} (h : brings env p e = some x) : p.data.follows x := by
  unfold brings at h
  split at h
  · obtain ⟨l, _, h⟩ := Option.bind_eq_some_iff.mp h
    split at h
    · exact draftEdition_follows h
    · exact acceptedEdition_follows hn h
    · cases h
  · obtain ⟨l, _, h⟩ := Option.bind_eq_some_iff.mp h
    split at h
    · exact acceptedEdition_follows hn h
    · cases h
  · cases h

/-- What an abandoned request carries was present before it was abandoned. -/
theorem abandoned_present {env : Service.Environment} {p q : State} {e : Event}
    (hstep : p.step env e = some q) {l : Letter} (hl : l ∈ q.abandoned) {x : Edition}
    (hx : l.edition = some x) : Present p x := by
  rcases abandoned_origin hstep hl with hold | ⟨c, hc⟩
  · exact .abandoned l hold hx
  · exact letter_present hc hx

/-- The journal after a request whose bundle is present. -/
theorem rows_after {p : State} {l : Letter} (hl : ∀ x, l.edition = some x → Present p x)
    {fault : Option Fault} {key : String} {row : CommandRow}
    (hrow : (State.askManager p.data p.manager fault l.call).1.commands.lookup key = some row)
    {x : Edition} (hx : row.edition = some x) : Present p x := by
  unfold State.askManager at hrow
  split at hrow
  · next target body hcall =>
    rcases Manager.action_rows hrow with hold | ⟨rfl, rfl⟩
    · exact .entered key row hold hx
    · exact hl x (by rw [Letter.edition, hcall]; exact hx)
  · next aid _ =>
    rw [(Manager.applicationStatus_alike _ _).commands] at hrow
    exact .entered key row hrow hx
  · exact .entered key row hrow hx

/-- What an action has brought to the manager was present before. -/
theorem entered_present {env : Service.Environment} {p q : State} {e : Event}
    (hstep : p.step env e = some q) {key : String} {row : CommandRow}
    (hrow : q.manager.commands.lookup key = some row) {x : Edition} (hx : row.edition = some x) :
    Present p x := by
  cases State.step_stepped hstep with
  | operated e sys _ _ =>
    obtain ⟨_, hmanager, _⟩ := p.withdrawn_frame e
    simp only [hmanager] at hrow
    exact .entered key row hrow hx
  | executed c luck l hl _ _ =>
    simp only [State.carryOut_manager] at hrow
    exact rows_after (fun x hx => letter_present hl hx) hrow hx
  | answered c reply sys _ _ => exact .entered key row hrow hx
  | lost c raised l sys _ _ => exact .entered key row hrow hx
  | executedLate i luck l hl _ =>
    simp only [State.carryOut_manager] at hrow
    exact rows_after (fun x hx => .abandoned l (List.mem_of_getElem? hl) hx) hrow hx
  | edited c s _ _ => exact .entered key row hrow hx
  | loaded aid fault =>
    rw [State.load, (Manager.load_alike _ _).commands] at hrow
    exact .entered key row hrow hx

/-- **What a worker may send after a step** was known before, or the step has brought it up. -/
theorem sent_origin {env : Service.Environment} {p q : State} {e : Event} (h : Orderly p)
    (hstep : p.step env e = some q) {task : Nat} {w' : Worker}
    (hw' : q.operations.workers.lookup task = some w') {x : Edition}
    (hx : x ∈ workerEditions w' (q.answers.lookup (.worker task))) :
    Known p x ∨ brings env p e = some x ∧ q.data.compiled x := by
  cases h.worker_cases hstep hw' with
  | kept _ hold hanswer => exact Or.inl (Or.inl (.worker task w' hold (hanswer ▸ hx)))
  | executed luck call hold hcall hopen _ hcatalog hanswer =>
    rw [hanswer] at hx
    rcases editions_of_answer (b := none) hx with hbefore | ⟨k, hk, hsends, rfl⟩
    · exact Or.inl (Or.inl (.worker task w' hold (by rw [hopen]; exact hbefore)))
    · rcases answered_call h hold hcall hk with ⟨r, rfl, hr, rfl⟩ | ⟨b, rfl, hb, rfl⟩
      · have hkind : w'.job.kind = .agentApply := by simpa [sends] using hsends
        rw [hkind] at hr hcall
        refine Or.inr ⟨?_, ?_⟩
        · simp only [brings, State.letter, hold, Option.bind_some, workerLetter, hcall,
            Option.map_some]
          exact prepared_brought (Option.some.inj hr)
        · rw [State.data, hcatalog, hkind]
          exact prepared_compiled (Option.some.inj hr)
      · exact Or.inl (Or.inr (fetched_published (Option.some.inj hb)))
  | worked w raises hw hidle hnext _ hanswer =>
    rw [hanswer, hnext] at hx
    refine Or.inl (Or.inl (.worker task w hw ?_))
    rw [h.no_answer (c := .worker task) (by simp [State.letter, hw, workerLetter, hidle])]
    exact turn_editions (Worker.work_turn _ w raises) hx
  | answered w reply hw hstored hnext hanswer =>
    rw [hanswer, hnext] at hx
    refine Or.inl (Or.inl (.worker task w hw ?_))
    rw [hstored]
    exact turn_editions (Worker.receive_turn w reply) hx
  | lost w raised call hw hcall hnext hanswer =>
    rw [hanswer, hnext] at hx
    refine Or.inl (Or.inl (.worker task w hw ?_))
    rcases editions_of_answer (turn_editions (Worker.receive_turn w _) hx) with hbefore | ⟨k, hk, _⟩
    · exact hbefore
    · rw [answeredPackage_failure] at hk
      cases hk
  | stopped w hw _ hnext hanswer =>
    rw [hanswer, hnext] at hx
    refine Or.inl (Or.inl (.worker task w hw ?_))
    have hturn : w.Turn none (w.raise .cancelled) := .raised none .cancelled
    rcases editions_of_answer (turn_editions hturn hx) with hbefore | ⟨k, hk, _⟩
    · exact hbefore
    · rw [answeredPackage_none] at hk
      cases hk
  | spawned job _ hnext hanswer =>
    rw [hanswer, hnext, mem_workerEditions] at hx
    obtain ⟨_, k, hk, _⟩ := hx
    simp [Worker.spawned, answeredPackage_none] at hk

theorem not_known_initial (code data : String) (x : Edition) :
    ¬ Known (State.initial code data) x := by
  rintro (hpresent | hpublished)
  · cases hpresent with
    | worker task w hw _ => simp [State.initial, System.initial] at hw
    | abandoned l hl _ => simp [State.initial] at hl
    | entered key row hrow _ => simp [State.initial, Manager.initial] at hrow
    | installed hlook => simp [State.initial, Manager.initial] at hlook
  · exact not_publishes_initial code data x hpublished

namespace Bundled

variable {env : Service.Environment} {p q : State} {e : Event}

theorem consistent (h : Bundled p) : Manager.Consistent (Known p) p.data :=
  ⟨h.agree, fun _ => Or.inr⟩

theorem within (p : State) : p.manager.Within (Known p) :=
  fun _ _ _ hlook => Or.inl (.installed hlook)

/-- The manager after a request whose bundle is present. -/
theorem manager_after (h : Bundled p) {l : Letter} (hl : ∀ x, l.edition = some x → Present p x)
    (fault : Option Fault) :
    (State.askManager p.data p.manager fault l.call).1.Within (Known p) := by
  unfold State.askManager
  split
  · next target body hcall =>
    refine (Manager.action_accepts h.consistent (within p) fun x hx => Or.inl (hl x ?_)).1
    rw [Letter.edition, hcall]
    exact hx
  · next aid _ => exact Manager.applicationStatus_within h.consistent (within p) aid
  · exact within p

/-- **What is installed after a step** was known before. -/
theorem installed_origin (h : Bundled p) (hstep : p.step env e = some q) :
    q.manager.Within (Known p) := by
  cases State.step_stepped hstep with
  | operated e sys _ _ =>
    obtain ⟨_, hmanager, _⟩ := p.withdrawn_frame e
    simp only [hmanager]
    exact within p
  | executed c luck l hl _ _ =>
    simp only [State.carryOut_manager]
    exact h.manager_after (fun x hx => letter_present hl hx) luck.fault
  | answered c reply sys _ _ => exact within p
  | lost c raised l sys _ _ => exact within p
  | executedLate i luck l hl _ =>
    simp only [State.carryOut_manager]
    exact h.manager_after (fun x hx => .abandoned l (List.mem_of_getElem? hl) hx) luck.fault
  | edited c s _ _ => exact within p
  | loaded aid fault => exact (Manager.load_accepts h.consistent (within p) aid).1

/-- **What is present after a step** was known before, or the step has brought it up. -/
theorem present_origin (h : Bundled p) (hstep : p.step env e = some q) {x : Edition}
    (hx : Present q x) : Known p x ∨ brings env p e = some x := by
  cases hx with
  | worker task w' hw' hx => exact (sent_origin h.orderly hstep hw' hx).imp_right And.left
  | abandoned l hl hx => exact Or.inl (Or.inl (abandoned_present hstep hl hx))
  | entered key row hrow hx => exact Or.inl (Or.inl (entered_present hstep hrow hx))
  | installed hlook => exact Or.inl (h.installed_origin hstep _ _ _ hlook)

theorem known_origin (h : Bundled p) (hstep : p.step env e = some q) {x : Edition}
    (hx : Known q x) : Known p x ∨ brings env p e = some x := by
  rcases hx with hpresent | hpublished
  · exact h.present_origin hstep hpresent
  · exact (published_origin hstep hpublished).imp Or.inr And.left

/-- What a step brings up agrees with what is known. -/
theorem brings_agrees (h : Bundled p) (hC : keepsFiles env p e = true) {x y : Edition}
    (hx : brings env p e = some x) (hy : Known p y) : x.agrees y = true := by
  rcases hy with hpresent | hpublished
  · simp only [keepsFiles, hx, Option.all_some, List.all_eq_true] at hC
    exact hC y (mem_editions_iff.mpr hpresent)
  · exact h.numbered.agrees (brings_follows h.numbered hx) hpublished

/-- **A step that keeps the files of a number keeps one file map for each number.** -/
theorem step (h : Bundled p) (hC : keepsFiles env p e = true) (hstep : p.step env e = some q) :
    Bundled q := by
  refine ⟨h.orderly.step hstep, ?_, fun x y hx hy => ?_⟩
  · rcases State.catalog_step hstep with hsame | ⟨c, hs⟩
    · rw [State.data, hsame]
      exact h.numbered
    · exact h.numbered.effect (step_effect hs)
  · rcases h.known_origin hstep hx with hx | hx <;> rcases h.known_origin hstep hy with hy | hy
    · exact h.agree x y hx hy
    · exact Edition.agrees_symm (h.brings_agrees hC hy hx)
    · exact h.brings_agrees hC hx hy
    · obtain rfl := Option.some.inj (hx.symm.trans hy)
      exact Edition.agrees_refl x

theorem initial (code data : String) : Bundled (State.initial code data) where
  orderly := Orderly.initial code data
  numbered := Document.Numbered.initial code data
  agree x _ hx := absurd hx (not_known_initial code data x)

end Bundled

/-! ## §E Runs -/

/-- Any two bundles of an agent that reached the manager under one number have the same files. -/
def State.oneFileMap (p : State) : Prop :=
  ∀ key row key' row' k k', p.manager.commands.lookup key = some row →
    p.manager.commands.lookup key' = some row' → row.target = row'.target →
    row.body.bundle = some k → row'.body.bundle = some k' → k.version = k'.version →
    k.files.same k'.files = true

/-- No action on its way to the manager would be refused for the content of its bundle. -/
def State.acceptsBundles (p : State) : Prop :=
  ∀ l, (l ∈ p.abandoned ∨ ∃ c, p.letter c = some l) → ∀ target body fault,
    l.call = .action target body →
    (p.manager.action p.data fault target body).2 ≠ .error immutableBundle

namespace Bundled

variable {p : State}

theorem oneFileMap (h : Bundled p) : p.oneFileMap := by
  intro key row key' row' k k' hrow hrow' htarget hk hk' hversion
  have hx : Present p (packageEdition row.target k) :=
    .entered key row hrow (by rw [CommandRow.edition, bodyEdition, hk]; rfl)
  have hy : Present p (packageEdition row'.target k') :=
    .entered key' row' hrow' (by rw [CommandRow.edition, bodyEdition, hk']; rfl)
  exact Edition.agrees_iff.mp (h.agree _ _ (Or.inl hx) (Or.inl hy)) htarget hversion

theorem acceptsBundles (h : Bundled p) : p.acceptsBundles := by
  intro l hl target body fault hcall
  refine (Manager.action_accepts h.consistent (within p) fun x hx => Or.inl ?_).2
  have hcarries : l.edition = some x := by rw [Letter.edition, hcall]; exact hx
  rcases hl with habandoned | ⟨c, hc⟩
  · exact .abandoned l habandoned hcarries
  · exact letter_present hc hcarries

end Bundled

/-- **One file map for each version number.** In every state of every run in which each publication is
compiled to the files that already go under its number, and no commit is of other files than those that
go under its number, any two bundles that reached the manager under one number of an agent have the same
files, and no action on its way is refused for the content of its bundle. -/
theorem one_file_map {env : Service.Environment} {code data : String} {es : List Event}
    (hC : (platform env).Along (fun p e => keepsFiles env p e = true) (State.initial code data) es) :
    (platform env).Throughout (fun p => p.oneFileMap ∧ p.acceptsBundles)
      (State.initial code data) es := by
  have hinv : (platform env).Throughout Bundled (State.initial code data) es :=
    (platform env).throughout_of_along (fun _ _ _ hp hC hstep => hp.step hC hstep)
      (Bundled.initial code data) hC
  exact hinv.imp (platform env) fun p hp => ⟨hp.oneFileMap, hp.acceptsBundles⟩

/-! ## §F A number that is used again -/

/-- A job that publishes agent `a`, up to the apply that it is about to send. -/
def quiesced (task : Nat) (jid rid requestId : String) : List Event :=
  [.operate (.submit jid requestId .agentApply "a" "a" (plainPayload requestId) none)] ++
  worked task 1 ++ asked task ++ prepared task rid ++ worked task 1 ++ asked task ++ worked task 1 ++
  asked task ++ worked task 1

/-- An administrator gives agent `a` other instructions. -/
def instructed (instructions : String) : List Event :=
  [.edit (.saveAgent "a" (plainAgent "m1" instructions) none)]

/-- The second version of agent `a` is applied, fails its verification, and is taken back. -/
def takenBack : List Event :=
  [.edit (.saveModel "m1" (managedModel "m1") none)] ++ publication 0 "j0" "g1" "request-0" ++
  instructed "first" ++
  quiesced 1 "j1" "r1" "request-1" ++ asked 1 ++ worked 1 1 ++ asked 1 ++ worked 1 1 ++ asked 1 ++
  worked 1 2 ++ asked 1 ++
  instructed "second" ++
  quiesced 2 "j2" "r2" "request-2" ++ asked 2 ++ worked 2 1 ++ [.lose (.worker 2) true] ++ asked 2 ++
  asked 2 ++ worked 2 2 ++ asked 2

/-- The draft is corrected and published again. -/
def corrected : List Event :=
  takenBack ++ instructed "third" ++ quiesced 3 "j3" "r3" "request-3"

/-- The answer of the manager to the apply that a worker is about to send. -/
def State.applyAnswer (p : State) (task : Nat) : Option Reply :=
  (p.letter (.worker task)).bind fun l =>
    match l.call with
    | .action target body => some (p.manager.action p.data none target body).2
    | _ => none

/-- The corrected draft gets the number of the version that was taken back, whose directory is still
there: the manager refuses it. -/
theorem corrected_draft_refused : ¬ ∀ (env : Service.Environment) (code data : String)
    (es : List Event) (q : State), (platform env).run (State.initial code data) es = some q →
    q.oneFileMap ∧ q.acceptsBundles := by
  intro hall
  have hbad : ((platform plainEnvironment).run (State.initial "" "") corrected).all
      (fun p => p.applyAnswer 3 != some (.error immutableBundle)) = false := by decide +kernel
  obtain ⟨q, hrun, hq⟩ := (platform plainEnvironment).exists_run_of_all_eq_false hbad
  have hgood := (hall plainEnvironment "" "" _ q hrun).2
  simp only [bne_eq_false_iff_eq, State.applyAnswer, Option.bind_eq_some_iff] at hq
  obtain ⟨l, hl, hq⟩ := hq
  split at hq
  · next target body hcall =>
    exact hgood l (Or.inr ⟨_, hl⟩) target body none hcall (Option.some.inj hq)
  · cases hq

/-- The same draft is published again. -/
def repeated : List Event := takenBack ++ quiesced 3 "j3" "r3" "request-3" ++ asked 3

theorem one_file_map_when_repeated :
    (platform plainEnvironment).Throughout (fun p => p.oneFileMap ∧ p.acceptsBundles)
      (State.initial "" "") repeated :=
  one_file_map (by decide +kernel)

end OpencodeCloud.Platform
