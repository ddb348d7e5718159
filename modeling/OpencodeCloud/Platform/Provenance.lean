/-
# OpencodeCloud.Platform.Provenance -- where the files and the configurations come from

The catalog compiles the files of an agent when it prepares a release, and everything behind it only
hands them on: a worker takes the package out of the answer of the catalog, the sandbox manager writes
it to the directory of its version, and a request that was given up may do so at any later time. Nothing
on the way makes up a file map or puts one under another number (`Traced`), and what the manager has
written it never changes or removes (`Manager.Leads`). The gateway only ever serves releases as the
catalog prepared them (`Genuine`), so a release id means one configuration there.
-/
import OpencodeCloud.Platform.Bundles

namespace OpencodeCloud.Platform

open OpencodeCloud.Library OpencodeCloud.Catalog OpencodeCloud.Operations

/-! ## §A The directories of the manager -/

/-- The checks that `install_bundle` makes before it writes a directory. -/
def complete (files : Files) : Bool :=
  (files.lookup "agent.cfg").isSome && decide (files.entries.length ≤ 2000)

namespace Manager

variable {K : Edition → Prop} {d : Document} {fault : Option Fault}

/-- There is a directory for the version. -/
def Has (m : Manager) (aid : String) (version : Nat) : Prop :=
  (m.installed.lookup (version, aid)).isSome = true

/-- What the manager has is complete, and it only stages and verifies what it has. -/
structure Ready (m : Manager) : Prop where
  complete : ∀ k files, m.installed.lookup k = some files → complete files = true
  staged : ∀ aid version, m.overrides.lookup aid = some version → m.Has aid version
  verified : ∀ aid version, m.verified.lookup aid = some version → m.Has aid version

/-- Every directory stays as it is. -/
def Keeps (m m' : Manager) : Prop :=
  ∀ k files, m.installed.lookup k = some files → m'.installed.lookup k = some files

/-- What any call does to the directories. -/
structure Leads (K : Edition → Prop) (m m' : Manager) : Prop where
  within : m'.Within K
  ready : m'.Ready
  keeps : m.Keeps m'

theorem Keeps.has {m m' : Manager} (h : m.Keeps m') {aid : String} {version : Nat}
    (hm : m.Has aid version) : m'.Has aid version := by
  obtain ⟨files, hfiles⟩ := Option.isSome_iff_exists.mp hm
  exact Option.isSome_iff_exists.mpr ⟨files, h _ files hfiles⟩

theorem Keeps.trans {m m' m'' : Manager} (h : m.Keeps m') (h' : m'.Keeps m'') : m.Keeps m'' :=
  fun k files hk => h' k files (h k files hk)

namespace Leads

variable {m m' m'' : Manager}

theorem refl (hm : m.Within K) (hr : m.Ready) : Leads K m m := ⟨hm, hr, fun _ _ h => h⟩

theorem trans (h : Leads K m m') (h' : Leads K m' m'') : Leads K m m'' :=
  ⟨h'.within, h'.ready, h.keeps.trans h'.keeps⟩

/-- Staging a version that is there. -/
theorem stage (h : Leads K m m') {aid : String} {version : Nat} (hv : m'.Has aid version) :
    Leads K m { m' with overrides := m'.overrides.insert aid version } := by
  refine ⟨h.within, ⟨h.ready.complete, fun aid' v' hlook => ?_, h.ready.verified⟩, h.keeps⟩
  rcases Dict.lookup_insert_cases hlook with ⟨rfl, rfl⟩ | ⟨_, hold⟩
  · exact hv
  · exact h.ready.staged aid' v' hold

/-- Verifying a version that is there. -/
theorem verify (h : Leads K m m') {aid : String} {version : Nat} (hv : m'.Has aid version) :
    Leads K m { m' with verified := m'.verified.insert aid version } := by
  refine ⟨h.within, ⟨h.ready.complete, h.ready.staged, fun aid' v' hlook => ?_⟩, h.keeps⟩
  rcases Dict.lookup_insert_cases hlook with ⟨rfl, rfl⟩ | ⟨_, hold⟩
  · exact hv
  · exact h.ready.verified aid' v' hold

/-- Giving up a staged version. -/
theorem unstage (h : Leads K m m') (aid : String) :
    Leads K m { m' with overrides := m'.overrides.erase aid } :=
  ⟨h.within, ⟨h.ready.complete, fun aid' v' hlook => h.ready.staged aid' v'
    (Dict.lookup_erase_cases hlook).2, h.ready.verified⟩, h.keeps⟩

/-- Forgetting what was verified. -/
theorem unverify (h : Leads K m m') (aid : String) :
    Leads K m { m' with verified := m'.verified.erase aid } :=
  ⟨h.within, ⟨h.ready.complete, h.ready.staged, fun aid' v' hlook => h.ready.verified aid' v'
    (Dict.lookup_erase_cases hlook).2⟩, h.keeps⟩

/-- The blocks and the journal have no say in this. -/
theorem blocks (h : Leads K m m') (blocked : List String) :
    Leads K m { m' with blocked := blocked } :=
  ⟨h.within, ⟨h.ready.complete, h.ready.staged, h.ready.verified⟩, h.keeps⟩

theorem journal (h : Leads K m m') (commands : Dict String CommandRow) :
    Leads K m { m' with commands := commands } :=
  ⟨h.within, ⟨h.ready.complete, h.ready.staged, h.ready.verified⟩, h.keeps⟩

end Leads

/-- **An installation** writes a directory that was not there, and only a complete one. -/
theorem install_leads {m m' : Manager} {aid : String} {version : Nat} {files : Files}
    (hm : m.Within K) (hr : m.Ready) (hx : K ⟨aid, version, files⟩)
    (h : m.install aid version files = .ok m') : Leads K m m' ∧ m'.Has aid version := by
  have hwithin := install_within hm hx h
  simp only [install, bind_eq_ok] at h
  obtain ⟨_, hcount, _, hconfig, h⟩ := h
  split at h
  · next hnone =>
    obtain rfl := Except.ok.inj h
    have hkeeps : m.Keeps { m with installed := m.installed.insert (version, aid) files } := by
      intro k current hk
      by_cases heq : k = (version, aid)
      · rw [heq, hnone] at hk
        cases hk
      · rw [← hk]
        exact AList.lookup_insert_ne heq
    refine ⟨⟨hwithin, ⟨fun k current hk => ?_, fun aid' v' hlook => ?_, fun aid' v' hlook => ?_⟩,
      hkeeps⟩, ?_⟩
    · rcases Dict.lookup_insert_cases hk with ⟨_, rfl⟩ | ⟨_, hold⟩
      · simp only [refuse_eq_ok, decide_eq_false_iff_not] at hcount hconfig
        simp only [complete, Bool.and_eq_true, decide_eq_true_eq]
        refine ⟨?_, by omega⟩
        rw [← Option.not_isNone, hconfig]
        rfl
      · exact hr.complete k current hold
    · exact hkeeps.has (hr.staged aid' v' hlook)
    · exact hkeeps.has (hr.verified aid' v' hlook)
    · simp [Has]
  · next current hcurrent =>
    simp only [bind_eq_ok] at h
    obtain ⟨_, _, h⟩ := h
    obtain rfl := Except.ok.inj h
    exact ⟨.refl hm hr, Option.isSome_iff_exists.mpr ⟨current, hcurrent⟩⟩

/-- The catalog has published what the manager may read. -/
def Published (K : Edition → Prop) (d : Document) : Prop := ∀ x, d.publishes x → K x

/-- What a call that answers with a version leaves behind. -/
def Serves (K : Edition → Prop) (m : Manager) (aid : String) (r : Manager × Result Nat) : Prop :=
  Leads K m r.1 ∧ ∀ version, r.2 = .ok version → r.1.Has aid version

theorem authoritative_serves (hK : Published K d) {m : Manager} (hm : m.Within K) (hr : m.Ready)
    (aid : String) : Serves K m aid (m.authoritative d fault aid) := by
  unfold authoritative
  split
  · exact ⟨.refl hm hr, fun version h => by simp [fail] at h⟩
  · split
    · exact ⟨.refl hm hr, fun version h => by simp [fail] at h⟩
    · next v hv =>
      split
      · next m' h =>
        obtain ⟨hleads, hhas⟩ := install_leads hm hr (hK _ (publishes_active hv)) h
        exact ⟨hleads, fun version hversion => Except.ok.inj hversion ▸ hhas⟩
      · exact ⟨.refl hm hr, fun version h => by cases h⟩

theorem definition_version {v version : Nat} (h : definition fault v = .ok version) :
    version = v := by
  unfold definition at h
  split at h
  · simp [fail] at h
  · exact (Except.ok.inj h).symm

/-- The version that is loaded is there. -/
theorem load_serves (hK : Published K d) {m : Manager} (hm : m.Within K) (hr : m.Ready)
    (aid : String) : Serves K m aid (m.load d fault aid) := by
  have h := @authoritative_serves K d fault hK m hm hr aid
  unfold load
  split
  · next staged hstaged =>
    exact ⟨.refl hm hr, fun version hv => definition_version hv ▸ hr.staged aid staged hstaged⟩
  · split
    · next m' v heq =>
      rw [heq] at h
      exact ⟨h.1, fun version hv => definition_version hv ▸ h.2 v rfl⟩
    · next heq =>
      rw [heq] at h
      exact ⟨h.1, fun version hv => by cases hv⟩

theorem commitOverride_leads (hK : Published K d) {m : Manager} (hm : m.Within K) (hr : m.Ready)
    (aid : String) : Leads K m (m.commitOverride d fault aid).1 := by
  have h := (@authoritative_serves K d fault hK m hm hr aid).1
  unfold commitOverride
  split
  · exact (load_serves hK hm hr aid).1
  · split
    · next heq => rw [heq] at h; exact h
    · next heq =>
      rw [heq] at h
      split
      · exact h
      · split
        · exact h
        · exact h.unstage aid

/-- What each target does to the directories, all targets together do. -/
theorem each_leads {f : Manager → String → Manager × Result Unit}
    (h : ∀ m t, m.Within K → m.Ready → Leads K m (f m t).1) {m : Manager} (ts : List String)
    (hm : m.Within K) (hr : m.Ready) : Leads K m (each f m ts).1 :=
  each_keeps (P := Leads K m) (fun m' t hm' => hm'.trans (h m' t hm'.within hm'.ready)) ts
    (.refl hm hr)

theorem resume_leads (hK : Published K d) {m : Manager} (hm : m.Within K) (hr : m.Ready)
    (aid : String) : Leads K m (m.resume d fault aid).1 := by
  have h : Leads K m (each (commitOverride d fault) m (m.resumeTargets aid)).1 :=
    each_leads (fun m t hm hr => commitOverride_leads hK hm hr t) _ hm hr
  unfold resume
  split
  · next heq => rw [heq] at h; exact h
  · next heq => rw [heq] at h; exact h.blocks _

theorem verify_leads (hK : Published K d) {m : Manager} (hm : m.Within K) (hr : m.Ready)
    (aid : String) : Leads K m (m.verify d fault aid).1 := by
  refine each_leads (fun m t hm hr => ?_) _ hm hr
  have h := @load_serves K d fault hK m hm hr t
  unfold verifyTarget
  split
  · next heq => rw [heq] at h; exact h.1
  · next v heq =>
    rw [heq] at h
    split
    · exact h.1
    · exact h.1.verify (h.2 v rfl)

theorem applyBundle_leads {m : Manager} (hm : m.Within K) (hr : m.Ready) {aid : String}
    {bundle : Option Package} (hx : ∀ x, bundle.map (packageEdition aid) = some x → K x) :
    Leads K m (m.applyBundle fault aid bundle).1 := by
  have hstart : Leads K m { m with verified := m.verified.erase aid } :=
    (Leads.refl hm hr).unverify aid
  unfold applyBundle
  dsimp only
  split
  · exact hstart
  · split
    · exact hstart
    · next h =>
      obtain ⟨hleads, hhas⟩ := install_leads hstart.within hstart.ready (hx _ rfl) h
      split
      · exact hstart.trans hleads
      · exact (hstart.trans hleads).stage hhas

theorem hold_leads {m : Manager} (hm : m.Within K) (hr : m.Ready) {aid : String} {body : ActionBody}
    (hx : ∀ x, body.bundle.map (packageEdition aid) = some x → K x) :
    Leads K m (m.hold fault aid body).1 := by
  unfold hold
  split
  · exact .refl hm hr
  · have hblock : Leads K m (m.block aid) := (Leads.refl hm hr).blocks _
    have happly := hblock.trans
      (@applyBundle_leads K fault _ hblock.within hblock.ready _ _ hx)
    dsimp only
    split
    · exact hblock
    · split
      · exact hblock
      · by_cases ha : body.action = .apply
        · simp only [ha, if_true]
          split
          · next heq => rw [heq] at happly; exact happly
          · next heq =>
            rw [heq] at happly
            split <;> exact happly
        · simp only [ha, if_false]
          split <;> exact hblock

theorem perform_leads (hK : Published K d) {m : Manager} (hm : m.Within K) (hr : m.Ready)
    {aid : String} {body : ActionBody}
    (hx : ∀ x, body.bundle.map (packageEdition aid) = some x → K x) :
    Leads K m (m.perform d fault aid body).1 := by
  unfold perform
  split
  · exact resume_leads hK hm hr aid
  · exact verify_leads hK hm hr aid
  all_goals exact hold_leads hm hr hx

/-- **What an action does to the directories.** -/
theorem action_leads (hK : Published K d) {m : Manager} (hm : m.Within K) (hr : m.Ready)
    {aid : String} {body : ActionBody}
    (hx : ∀ x, body.bundle.map (packageEdition aid) = some x → K x) :
    Leads K m (m.action d fault aid body).1 := by
  have hstart : Leads K m m := .refl hm hr
  unfold action
  split
  · exact hstart
  · split
    · exact hstart
    · split
      · split
        · exact hstart
        · split <;> exact hstart
      · have hentered := hstart.journal (m.commands.insert body.requestId ⟨aid, body, false⟩)
        have h := hentered.trans
          (@perform_leads K d fault hK _ hentered.within hentered.ready _ _ hx)
        dsimp only
        split
        · next heq => rw [heq] at h; exact h
        · next heq => rw [heq] at h; exact h.journal _

theorem applicationStatus_leads (hK : Published K d) {m : Manager} (hm : m.Within K) (hr : m.Ready)
    (aid : String) : Leads K m (m.applicationStatus d fault aid).1 := by
  have h := (@load_serves K d fault hK m hm hr aid).1
  unfold applicationStatus
  split
  · exact .refl hm hr
  · split <;> next heq => rw [heq] at h; exact h

end Manager

/-! ## §B What a run keeps -/

/-- What a run keeps about the files of agents: all that is known was prepared by the catalog. -/
structure Traced (p : State) : Prop where
  orderly : Orderly p
  compiled : ∀ x, Known p x → p.data.compiled x
  ready : p.manager.Ready

namespace Traced

variable {env : Service.Environment} {p q : State} {e : Event}

/-- The directories after a request whose bundle is present. -/
theorem askManager_leads (h : Traced p) {l : Letter}
    (hl : ∀ x, l.edition = some x → Present p x) (fault : Option Fault) :
    Manager.Leads (Known p) p.manager (State.askManager p.data p.manager fault l.call).1 := by
  have hK : Manager.Published (Known p) p.data := fun _ => Or.inr
  unfold State.askManager
  split
  · next target body hcall =>
    refine Manager.action_leads hK (Bundled.within p) h.ready fun x hx => Or.inl (hl x ?_)
    rw [Letter.edition, hcall]
    exact hx
  · next aid _ => exact Manager.applicationStatus_leads hK (Bundled.within p) h.ready aid
  · exact .refl (Bundled.within p) h.ready

/-- **What a step does to the directories.** -/
theorem manager_leads (h : Traced p) (hstep : p.step env e = some q) :
    Manager.Leads (Known p) p.manager q.manager := by
  have hsame : Manager.Leads (Known p) p.manager p.manager := .refl (Bundled.within p) h.ready
  cases State.step_stepped hstep with
  | operated e sys _ _ =>
    obtain ⟨_, hmanager, _⟩ := p.withdrawn_frame e
    simp only [hmanager]
    exact hsame
  | executed c luck l hl _ _ =>
    simp only [State.carryOut_manager]
    exact h.askManager_leads (fun x hx => letter_present hl hx) luck.fault
  | answered c reply sys _ _ => exact hsame
  | lost c raised l sys _ _ => exact hsame
  | executedLate i luck l hl _ =>
    simp only [State.carryOut_manager]
    exact h.askManager_leads (fun x hx => .abandoned l (List.mem_of_getElem? hl) hx) luck.fault
  | edited c s _ _ => exact hsame
  | loaded aid fault =>
    exact (Manager.load_serves (fun _ => Or.inr) (Bundled.within p) h.ready aid).1

/-- What the catalog has prepared it keeps. -/
theorem compiled_kept (hstep : p.step env e = some q) {x : Edition} (hx : p.data.compiled x) :
    q.data.compiled x := by
  rcases State.catalog_step hstep with hsame | ⟨c, hs⟩
  · rw [State.data, hsame]
    exact hx
  · exact (step_effect hs).compiled hx

/-- **What is known after a step** was known before, or has been prepared by then. -/
theorem known_origin (h : Traced p) (hstep : p.step env e = some q) {x : Edition} (hx : Known q x) :
    Known p x ∨ q.data.compiled x := by
  rcases hx with hpresent | hpublished
  · cases hpresent with
    | worker task w' hw' hx => exact (sent_origin h.orderly hstep hw' hx).imp_right And.right
    | abandoned l hl hx => exact Or.inl (Or.inl (abandoned_present hstep hl hx))
    | entered key row hrow hx => exact Or.inl (Or.inl (entered_present hstep hrow hx))
    | installed hlook => exact Or.inl ((h.manager_leads hstep).within _ _ _ hlook)
  · exact (published_origin hstep hpublished).imp Or.inr fun hx => compiled_kept hstep hx.2

theorem step (h : Traced p) (hstep : p.step env e = some q) : Traced q where
  orderly := h.orderly.step hstep
  compiled x hx := by
    rcases h.known_origin hstep hx with hold | hnew
    · exact compiled_kept hstep (h.compiled x hold)
    · exact hnew
  ready := (h.manager_leads hstep).ready

theorem initial (code data : String) : Traced (State.initial code data) where
  orderly := Orderly.initial code data
  compiled x hx := absurd hx (not_known_initial code data x)
  ready := by
    constructor <;> intro _ _ h <;> simp [State.initial, Manager.initial] at h

/-- In every state of every run. -/
theorem run {code data : String} {es : List Event}
    (hrun : (platform env).run (State.initial code data) es = some q) : Traced q :=
  (platform env).run_always (fun _ _ _ hp hstep => hp.step hstep) (Traced.initial code data) hrun

/-- What is installed stays, for the whole of a run. -/
theorem keeps {es : List Event} (h : Traced p) (hrun : (platform env).run p es = some q) :
    p.manager.Keeps q.manager :=
  ((platform env).run_always (I := fun s => Traced s ∧ p.manager.Keeps s.manager)
    (fun _ _ _ hs hstep => ⟨hs.1.step hstep, hs.2.trans (hs.1.manager_leads hstep).keeps⟩)
    ⟨h, fun _ _ hk => hk⟩ hrun).2

end Traced

/-! ## §C What the catalog has prepared -/

/-- **Every release in the catalog was prepared**, at a moment of the run, as it is now but for its
mark. -/
theorem release_prepared {env : Service.Environment} {code data : String} {es : List Event} {q : State}
    (hrun : (platform env).run (State.initial code data) es = some q) {rid : String} {r : Release}
    (hr : q.data.releases.lookup rid = some r) :
    ∃ r₀, r₀.Remains r ∧ r₀.releaseId = rid ∧
      (platform env).Since (fun p _ => Prepared env.host p.data r₀) (State.initial code data) es := by
  refine (platform env).run_history (I := fun es q => ∀ rid r, q.data.releases.lookup rid = some r →
    ∃ r₀, r₀.Remains r ∧ r₀.releaseId = rid ∧
      (platform env).Since (fun p _ => Prepared env.host p.data r₀) (State.initial code data) es)
    ?_ ?_ hrun rid r hr
  · intro rid r hr
    simp [State.initial, State.data, Service.initial] at hr
  · intro is p e u hp ih hstep rid r hr
    have hlater : ∀ r', p.data.releases.lookup rid = some r' → r'.Remains r →
        ∃ r₀, r₀.Remains r ∧ r₀.releaseId = rid ∧ (platform env).Since
          (fun p _ => Prepared env.host p.data r₀) (State.initial code data) (is ++ [e]) := by
      intro r' hr' hremains
      obtain ⟨r₀, hr₀, hid, hsince⟩ := ih rid r' hr'
      exact ⟨r₀, hr₀.trans hremains, hid, hsince.snoc (platform env) hp fun _ _ _ h => h⟩
    rcases State.catalog_step hstep with hsame | ⟨c, hs⟩
    · rw [State.data, hsame] at hr
      exact hlater r hr (.refl r)
    · rcases (step_effect hs).release_origin hr with ⟨r', hr', hremains⟩ | ⟨_, hprepared, hid⟩
      · exact hlater r' hr' hremains
      · exact ⟨r, .refl r, hid, (platform env).since_now [e] hp hprepared⟩

/-- What is known was compiled, at a moment of the run. -/
theorem Traced.since {env : Service.Environment} {code data : String} {es : List Event} {q : State}
    (h : Traced q) (hrun : (platform env).run (State.initial code data) es = some q) {x : Edition}
    (hx : Known q x) : (platform env).Since (fun p _ => p.data.compilesTo env.host x)
      (State.initial code data) es := by
  obtain ⟨rid, r, cfg, hr, htarget, hversion, hcontent⟩ := h.compiled x hx
  obtain ⟨r₀, hremains, _, hsince⟩ := release_prepared hrun hr
  refine hsince.imp (platform env) fun p _ hprepared => ?_
  rw [hremains] at htarget hversion hcontent
  have hcompiles := Prepared.compilesTo hprepared hcontent
  rw [htarget, hversion] at hcompiles
  exact hcompiles

/-- **The files of an agent come from its configuration.** Whatever the sandbox manager has installed or
was sent, whatever may still be sent to it, and whatever the catalog publishes, was compiled from the
configuration of that agent under that number, at a moment of the run. -/
theorem files_from_configuration {env : Service.Environment} {code data : String} {es : List Event}
    {q : State} (hrun : (platform env).run (State.initial code data) es = some q) {x : Edition}
    (hx : x ∈ q.editions ∨ q.data.publishes x) :
    (platform env).Since (fun p _ => p.data.compilesTo env.host x) (State.initial code data) es :=
  (Traced.run hrun).since hrun (hx.imp_left mem_editions_iff.mp)

theorem files_from_configuration_when_taken_back : ∃ q,
    (platform plainEnvironment).run (State.initial "" "") takenBack = some q ∧ q.editions ≠ [] ∧
    ∀ x ∈ q.editions, (platform plainEnvironment).Since
      (fun p _ => p.data.compilesTo plainEnvironment.host x) (State.initial "" "") takenBack := by
  have hsome : ((platform plainEnvironment).run (State.initial "" "") takenBack).all
      (fun q => q.editions.isEmpty) = false := by decide +kernel
  obtain ⟨q, hrun, hq⟩ := (platform plainEnvironment).exists_run_of_all_eq_false hsome
  refine ⟨q, hrun, fun hnil => ?_, fun x hx => files_from_configuration hrun (Or.inl hx)⟩
  rw [hnil] at hq
  exact Bool.noConfusion hq

/-- **What users get.** When the manager loads an agent, in any state of a run, there is a complete
directory for the version that it answers with, and its files were compiled from the configuration of
that agent under that number, at a moment of the run. -/
theorem loads_compiled {env : Service.Environment} {code data : String} {es : List Event} {p : State}
    (hrun : (platform env).run (State.initial code data) es = some p) {aid : String}
    {fault : Option Fault} {version : Nat}
    (hload : (p.manager.load p.data fault aid).2 = .ok version) :
    ∃ files, (p.load aid fault).manager.installed.lookup (version, aid) = some files ∧
      complete files = true ∧
      (platform env).Since (fun s _ => s.data.compilesTo env.host ⟨aid, version, files⟩)
        (State.initial code data) es := by
  have h := Traced.run hrun
  obtain ⟨hleads, hhas⟩ := @Manager.load_serves (Known p) p.data fault (fun _ => Or.inr) p.manager
    (Bundled.within p) h.ready aid
  obtain ⟨files, hfiles⟩ := Option.isSome_iff_exists.mp (hhas version hload)
  exact ⟨files, hfiles, hleads.ready.complete _ files hfiles,
    h.since hrun (hleads.within _ _ _ hfiles)⟩

/-- After the second version was taken back, agent `a` is loaded with the first. -/
theorem loads_compiled_when_taken_back : ∃ p files,
    (platform plainEnvironment).run (State.initial "" "") takenBack = some p ∧
    (p.load "a" none).manager.installed.lookup (1, "a") = some files ∧
    (platform plainEnvironment).Since
      (fun s _ => s.data.compilesTo plainEnvironment.host ⟨"a", 1, files⟩)
      (State.initial "" "") takenBack := by
  have hloads : ((platform plainEnvironment).run (State.initial "" "") takenBack).all
      (fun p => (p.manager.load p.data none "a").2 != .ok 1) = false := by decide +kernel
  obtain ⟨p, hrun, hp⟩ := (platform plainEnvironment).exists_run_of_all_eq_false hloads
  have hversion : (p.manager.load p.data none "a").2 = .ok 1 := by simpa using hp
  obtain ⟨files, hfiles, _, hsince⟩ := loads_compiled hrun hversion
  exact ⟨p, files, hrun, hfiles, hsince⟩

/-- **A directory is never changed or removed**, and a version that is staged or was verified has
one. -/
theorem directories_kept {env : Service.Environment} {code data : String} {es es' : List Event}
    {p q : State} (hrun : (platform env).run (State.initial code data) es = some p)
    (hrest : (platform env).run p es' = some q) : p.manager.Keeps q.manager ∧ q.manager.Ready := by
  have hp := Traced.run hrun
  refine ⟨hp.keeps hrest, ((platform env).run_always (I := Traced) ?_ hp hrest).ready⟩
  exact fun _ _ _ hs hstep => hs.step hstep

theorem directories_kept_when_taken_back : ∃ p q,
    (platform plainEnvironment).run (State.initial "" "") takenBack = some p ∧
    (platform plainEnvironment).run p (instructed "third" ++ quiesced 3 "j3" "r3" "request-3") = some q ∧
    p.manager.Has "a" 2 ∧ p.manager.Keeps q.manager ∧ q.manager.Ready := by
  have hcomes : ((platform plainEnvironment).run (State.initial "" "") corrected).all
      (fun _ => false) = false := by decide +kernel
  obtain ⟨q, hall, _⟩ := (platform plainEnvironment).exists_run_of_all_eq_false hcomes
  rw [corrected, List.append_assoc] at hall
  obtain ⟨p, hrun, hrest⟩ := (platform plainEnvironment).run_append hall
  have hhas : ((platform plainEnvironment).run (State.initial "" "") takenBack).all
      (fun p => (p.manager.installed.lookup (2, "a")).isSome) = true := by decide +kernel
  rw [hrun] at hhas
  exact ⟨p, q, hrun, hrest, hhas, directories_kept hrun hrest⟩

/-! ## §D What the gateway serves -/

/-- A release as the catalog has prepared it. -/
def Genuine (p : State) (r : Release) : Prop :=
  r.committed = false ∧ ∃ r', p.data.releases.lookup r.releaseId = some r' ∧ r.Remains r'

/-- A release id means one release. -/
theorem Genuine.unique {p : State} {r r' : Release} (h : Genuine p r) (h' : Genuine p r')
    (hid : r.releaseId = r'.releaseId) : r = r' := by
  obtain ⟨hopen, s, hs, hremains⟩ := h
  obtain ⟨hopen', s', hs', hremains'⟩ := h'
  rw [hid] at hs
  obtain rfl := Option.some.inj (hs.symm.trans hs')
  rw [hremains.unmarked hopen, hremains'.unmarked hopen']

/-- A worker has the release, or is about to take it out of the answer. -/
def Carries (w : Worker) (answer : Option Reply) (r : Release) : Prop :=
  w.release = some r ∨ w.pc = .obtainRelease ∧ answer = some (.ok (.release r))

theorem turn_carries {w w' : Worker} {answer : Option Reply} (h : w.Turn answer w') {r : Release}
    (hr : Carries w' none r) : Carries w answer r := by
  rcases hr with hheld | ⟨_, hnone⟩
  · exact h.release hheld
  · cases hnone

/-- Only a worker that has the release activates it. -/
theorem activate_held {p : State} {c : Caller} {l : Letter} (h : p.letter c = some l) {r : Release}
    (hr : l.call = .activate r) :
    ∃ task w, p.operations.workers.lookup task = some w ∧ w.release = some r := by
  rcases letter_eq_some h with ⟨task, w, _, hw, hcall, _, _⟩ | ⟨task, t, _, _, hcall, _, _⟩
  · rw [hr] at hcall
    refine ⟨task, w, hw, ?_⟩
    cases hpc : w.pc <;> simp only [Worker.call, hpc, reduceCtorEq, Option.some.injEq,
      Option.map_eq_some_iff] at hcall
    case apply =>
      obtain ⟨r', hr', hcall⟩ := hcall
      split at hcall
      · cases hcall
      · rw [hr', Call.activate.inj hcall]
    case obtainRelease => split at hcall <;> cases hcall
    case verify => split at hcall <;> cases hcall
    case compensate exc =>
      split at hcall
      · obtain ⟨_, _, hcall⟩ := Option.map_eq_some_iff.mp hcall
        cases hcall
      · obtain ⟨_, _, hcall⟩ := Option.map_eq_some_iff.mp hcall
        cases hcall
    all_goals
      obtain ⟨_, _, hcall⟩ := hcall
      first
        | cases hcall
        | split at hcall <;> cases hcall
  · rw [hr] at hcall
    cases hpc : t.pc <;> simp only [Reconciler.call, hpc, reduceCtorEq, Option.some.injEq,
      Option.map_eq_some_iff] at hcall
    case readApplied => split at hcall <;> cases hcall
    all_goals
      obtain ⟨_, _, hcall⟩ := hcall
      cases hcall

namespace Gateway

variable {fault : Option Fault} {g g' : Gateway}

/-- What is active or would be active again. -/
def Knows (g : Gateway) (r : Release) : Prop := g.active = some r ∨ g.previous = some r

theorem validateRelease_models {r : Release} (h : validateRelease r = .ok ()) :
    ∃ ms configuration, r.content = .models ms configuration := by
  simp only [validateRelease, bind_eq_ok] at h
  obtain ⟨_, _, h⟩ := h
  split at h
  · cases h
  · next ms configuration hcontent => exact ⟨ms, configuration, hcontent⟩

/-- An activation makes the gateway know one more release, with a configuration. -/
theorem activate_knows {r : Release} (h : g.activate fault r = .ok g') {x : Release}
    (hx : g'.Knows x) : g.Knows x ∨ x = r ∧ ∃ ms configuration, r.content = .models ms configuration := by
  simp only [activate, bind_eq_ok] at h
  obtain ⟨_, hvalid, h⟩ := h
  split at h
  · simp only [bind_eq_ok] at h
    obtain ⟨_, _, h⟩ := h
    obtain rfl := Except.ok.inj h
    exact Or.inl hx
  · simp only [bind_eq_ok] at h
    obtain ⟨_, _, h⟩ := h
    obtain rfl := Except.ok.inj h
    rcases hx with hx | hx
    · exact Or.inr ⟨(Option.some.inj hx).symm, validateRelease_models hvalid⟩
    · exact Or.inl (Or.inl hx)

theorem rollback_knows {rid : String} (h : g.rollback fault rid = .ok g') {x : Release}
    (hx : g'.Knows x) : g.Knows x := by
  simp only [rollback, bind_eq_ok] at h
  obtain ⟨_, _, h⟩ := h
  split at h
  · cases h
  · next r hr =>
    simp only [bind_eq_ok] at h
    obtain ⟨_, _, h⟩ := h
    obtain rfl := Except.ok.inj h
    rcases hx with hx | hx
    · exact Or.inr (hr.trans hx)
    · cases hx

/-- The refusal of a release under the id of another one. -/
def otherConfiguration : Failure := ⟨409, "release_id already identifies different configuration"⟩

theorem validateEntries_status {ids : List String} {entries : List GatewayEntry} {e : Failure}
    (h : validateEntries ids entries = .error e) : e.status = 422 := by
  induction entries generalizing ids with
  | nil => cases h
  | cons entry entries ih =>
    simp only [validateEntries, bind_eq_error] at h
    rcases h with hname | ⟨_, _, hid | ⟨_, _, hrest⟩⟩
    · exact refuse_status hname
    · exact refuse_status hid
    · exact ih hrest

theorem validateRelease_status {r : Release} {e : Failure} (h : validateRelease r = .error e) :
    e.status = 422 := by
  simp only [validateRelease, bind_eq_error] at h
  rcases h with hid | ⟨_, _, h⟩
  · exact refuse_status hid
  · split at h
    · obtain rfl := Except.error.inj h
      rfl
    · simp only [bind_eq_error] at h
      rcases h with hmany | ⟨_, _, hentries⟩
      · exact refuse_status hmany
      · exact validateEntries_status hentries

theorem factory_status {status : Nat} {e : Failure} (h : factory fault status = .error e) :
    e.status = status := by
  unfold factory at h
  split at h
  · obtain rfl := Except.error.inj h
    rfl
  · cases h

/-- A release is refused for its id only when another one is active under it. -/
theorem activate_other {r : Release} (h : g.activate fault r = .error otherConfiguration) :
    ∃ a, g.active = some a ∧ a.releaseId = r.releaseId ∧ a ≠ r := by
  simp only [activate, bind_eq_error] at h
  rcases h with hvalid | ⟨_, _, h⟩
  · exact absurd (validateRelease_status hvalid) (by decide)
  · split at h
    · next a ha =>
      obtain ⟨hactive, hid⟩ := Option.filter_eq_some_iff.mp ha
      refine ⟨a, hactive, by simpa using hid, fun heq => ?_⟩
      simp [heq, refuse, bind, Except.bind, pure, Except.pure] at h
    · simp only [bind_eq_error] at h
      rcases h with hfactory | ⟨_, _, hdone⟩
      · exact absurd (factory_status hfactory) (by decide)
      · cases hdone

end Gateway

/-- What a run keeps about releases on their way to the gateway. -/
structure Served (p : State) : Prop where
  orderly : Orderly p
  carried : ∀ task w r, p.operations.workers.lookup task = some w →
    Carries w (p.answers.lookup (.worker task)) r → Genuine p r
  abandoned : ∀ l r, l ∈ p.abandoned → l.call = .activate r → Genuine p r
  served : ∀ r, p.gateway.Knows r →
    Genuine p r ∧ ∃ ms configuration, r.content = .models ms configuration

namespace Served

variable {env : Service.Environment} {p q : State} {e : Event}

/-- A prepared release keeps its id and its content. -/
theorem genuine_kept (hstep : p.step env e = some q) {r : Release} (hr : Genuine p r) :
    Genuine q r := by
  obtain ⟨hopen, r', hlook, hremains⟩ := hr
  rcases State.catalog_step hstep with hsame | ⟨c, hs⟩
  · exact ⟨hopen, r', by rw [State.data, hsame]; exact hlook, hremains⟩
  · obtain ⟨r'', hlook', hremains', _⟩ := (step_effect hs).release_remains hlook
    exact ⟨hopen, r'', hlook', hremains.trans hremains'⟩

/-- What is activated was genuine before. -/
theorem letter_genuine (h : Served p) {c : Caller} {l : Letter} (hl : p.letter c = some l)
    {r : Release} (hr : l.call = .activate r) : Genuine p r := by
  obtain ⟨task, w, hw, hheld⟩ := activate_held hl hr
  exact h.carried task w r hw (Or.inl hheld)

/-- What the gateway knows after a request. -/
theorem askGateway_knows {fault : Option Fault} {call : Call} {g : Gateway} {x : Release}
    (hx : (State.askGateway g fault call).1.Knows x) :
    g.Knows x ∨ call = .activate x ∧ ∃ ms configuration, x.content = .models ms configuration := by
  unfold State.askGateway at hx
  split at hx
  · exact Or.inl hx
  · exact Or.inl hx
  · next r =>
    split at hx
    · next hactivate =>
      rcases Gateway.activate_knows hactivate hx with hold | ⟨rfl, hmodels⟩
      · exact Or.inl hold
      · exact Or.inr ⟨rfl, hmodels⟩
    · exact Or.inl hx
  · split at hx
    · next hrollback => exact Or.inl (Gateway.rollback_knows hrollback hx)
    · exact Or.inl hx
  · exact Or.inl hx

/-- **What the gateway knows after a step** was genuine before. -/
theorem gateway_origin (h : Served p) (hstep : p.step env e = some q) {x : Release}
    (hx : q.gateway.Knows x) :
    Genuine p x ∧ ∃ ms configuration, x.content = .models ms configuration := by
  have hask : ∀ (fault : Option Fault) (l : Letter), (∀ r, l.call = .activate r → Genuine p r) →
      (State.askGateway p.gateway fault l.call).1.Knows x →
      Genuine p x ∧ ∃ ms configuration, x.content = .models ms configuration := by
    intro fault l hl hknows
    rcases askGateway_knows hknows with hold | ⟨hcall, hmodels⟩
    · exact h.served x hold
    · exact ⟨hl x hcall, hmodels⟩
  cases State.step_stepped hstep with
  | operated e sys _ _ =>
    obtain ⟨_, _, hgateway, _⟩ := p.withdrawn_frame e
    simp only [hgateway] at hx
    exact h.served x hx
  | executed c luck l hl _ _ =>
    simp only [State.carryOut_gateway] at hx
    exact hask luck.fault l (fun r hr => h.letter_genuine hl hr) hx
  | answered c reply sys _ _ => exact h.served x hx
  | lost c raised l sys _ _ => exact h.served x hx
  | executedLate i luck l hl _ =>
    simp only [State.carryOut_gateway] at hx
    exact hask luck.fault l (fun r hr => h.abandoned l r (List.mem_of_getElem? hl) hr) hx
  | edited c s _ _ => exact h.served x hx
  | loaded aid fault => exact h.served x hx

/-- **What a worker carries after a step** was genuine before, or is now. -/
theorem carried_origin (h : Served p) (hstep : p.step env e = some q) {task : Nat} {w' : Worker}
    (hw' : q.operations.workers.lookup task = some w') {r : Release}
    (hr : Carries w' (q.answers.lookup (.worker task)) r) : Genuine p r ∨ Genuine q r := by
  cases h.orderly.worker_cases hstep hw' with
  | kept _ hold hanswer =>
    rw [hanswer] at hr
    exact Or.inl (h.carried task w' r hold hr)
  | executed luck call hold hcall _ _ hcatalog hanswer =>
    rcases hr with hheld | ⟨hpc, hreply⟩
    · exact Or.inl (h.carried task w' r hold (Or.inl hheld))
    · obtain rfl := obtainRelease_call h.orderly hold hpc hcall
      rw [hanswer] at hreply
      obtain ⟨hprepared, hid, hdata⟩ := prepare_answer (Option.some.inj hreply)
      refine Or.inr ⟨hprepared.uncommitted, r, ?_, .refl r⟩
      rw [State.data, hcatalog, hdata, hid]
      exact AList.lookup_insert _
  | worked w raises hw hidle hnext _ hanswer =>
    rw [hanswer, hnext] at hr
    refine Or.inl (h.carried task w r hw ?_)
    rw [h.orderly.no_answer (c := .worker task) (by simp [State.letter, hw, workerLetter, hidle])]
    exact turn_carries (Worker.work_turn _ w raises) hr
  | answered w reply hw hstored hnext hanswer =>
    rw [hanswer, hnext] at hr
    refine Or.inl (h.carried task w r hw ?_)
    rw [hstored]
    exact turn_carries (Worker.receive_turn w reply) hr
  | lost w raised call hw hcall hnext hanswer =>
    rw [hanswer, hnext] at hr
    rcases turn_carries (Worker.receive_turn w _) hr with hheld | ⟨_, hreply⟩
    · exact Or.inl (h.carried task w r hw (Or.inl hheld))
    · unfold State.failure unavailable at hreply
      split at hreply <;> cases Option.some.inj hreply
  | stopped w hw _ hnext hanswer =>
    rw [hanswer, hnext] at hr
    have hturn : w.Turn none (w.raise .cancelled) := .raised none .cancelled
    rcases turn_carries hturn hr with hheld | ⟨_, hreply⟩
    · exact Or.inl (h.carried task w r hw (Or.inl hheld))
    · cases hreply
  | spawned job _ hnext hanswer =>
    rw [hnext] at hr
    rcases hr with hheld | ⟨hpc, _⟩
    · cases hheld
    · cases hpc

theorem step (h : Served p) (hstep : p.step env e = some q) : Served q where
  orderly := h.orderly.step hstep
  carried task w r hw hr := by
    rcases h.carried_origin hstep hw hr with hold | hnew
    · exact genuine_kept hstep hold
    · exact hnew
  abandoned l r hl hr := by
    rcases abandoned_origin hstep hl with hold | ⟨c, hc⟩
    · exact genuine_kept hstep (h.abandoned l r hold hr)
    · exact genuine_kept hstep (h.letter_genuine hc hr)
  served r hr := (h.gateway_origin hstep hr).imp_left (genuine_kept hstep)

theorem initial (code data : String) : Served (State.initial code data) where
  orderly := Orderly.initial code data
  carried task w r hw := by simp [State.initial, System.initial] at hw
  abandoned l r hl := by simp [State.initial] at hl
  served r hr := by rcases hr with hr | hr <;> cases hr

/-- A release on its way to the gateway is not refused for its id. -/
theorem accepted (h : Served p) {l : Letter} (hl : l ∈ p.abandoned ∨ ∃ c, p.letter c = some l)
    {r : Release} (hr : l.call = .activate r) (fault : Option Fault) :
    p.gateway.activate fault r ≠ .error Gateway.otherConfiguration := by
  intro hrefused
  obtain ⟨a, hactive, hid, hne⟩ := Gateway.activate_other hrefused
  refine hne (Genuine.unique (h.served a (Or.inl hactive)).1 ?_ hid)
  rcases hl with habandoned | ⟨c, hc⟩
  · exact h.abandoned l r habandoned hr
  · exact h.letter_genuine hc hr

end Served

/-- **The gateway serves what the catalog has prepared.** In every state of every run, the release that is
active, and the one that a rollback goes back to, is a configuration of models exactly as the catalog
prepared it at a moment of the run; and no release on its way to the gateway is refused as a different
configuration under an id that is already active. -/
theorem gateway_serves_prepared {env : Service.Environment} {code data : String} {es : List Event}
    {q : State} (hrun : (platform env).run (State.initial code data) es = some q) :
    (∀ r, q.gateway.Knows r → (∃ ms configuration, r.content = .models ms configuration) ∧
      (platform env).Since (fun p _ => Prepared env.host p.data r) (State.initial code data) es) ∧
    ∀ l, (l ∈ q.abandoned ∨ ∃ c, q.letter c = some l) → ∀ r fault, l.call = .activate r →
      q.gateway.activate fault r ≠ .error Gateway.otherConfiguration := by
  have h : Served q := (platform env).run_always (fun _ _ _ hs hstep => hs.step hstep)
    (Served.initial code data) hrun
  refine ⟨fun r hr => ?_, fun l hl r fault hcall => h.accepted hl hcall fault⟩
  obtain ⟨⟨hopen, r', hlook, hremains⟩, hmodels⟩ := h.served r hr
  obtain ⟨r₀, hr₀, _, hsince⟩ := release_prepared hrun hlook
  refine ⟨hmodels, hsince.imp (platform env) fun p _ hprepared => ?_⟩
  rw [hremains.unmarked hopen, ← hr₀.unmarked hprepared.uncommitted]
  exact hprepared

theorem gateway_serves_prepared_when_published : ∃ q r,
    (platform plainEnvironment).run (State.initial "" "") takenBack = some q ∧
    q.gateway.active = some r ∧ (platform plainEnvironment).Since
      (fun p _ => Prepared plainEnvironment.host p.data r) (State.initial "" "") takenBack := by
  have hactive : ((platform plainEnvironment).run (State.initial "" "") takenBack).all
      (fun q => q.gateway.active.isNone) = false := by decide +kernel
  obtain ⟨q, hrun, hq⟩ := (platform plainEnvironment).exists_run_of_all_eq_false hactive
  obtain ⟨r, hr⟩ := Option.isSome_iff_exists.mp (Option.not_isNone _ ▸ congrArg not hq)
  exact ⟨q, r, hrun, hr, ((gateway_serves_prepared hrun).1 r (Or.inl hr)).2⟩

end OpencodeCloud.Platform
