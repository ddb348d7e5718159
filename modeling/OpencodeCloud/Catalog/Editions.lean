/-
# OpencodeCloud.Catalog.Editions -- which files go under a version number

An edition is the file map of an agent under a version number. The catalog publishes an edition when it
commits a release, always under the next number of the agent (`Document.follows`), so it publishes no
number twice. The number of a release is chosen earlier, when the release is prepared: releases that are
prepared one after the other without a commit in between carry the same number, whatever the draft is
compiled to each time.
-/
import OpencodeCloud.Catalog.Releases

namespace OpencodeCloud.Catalog

open OpencodeCloud.Library

/-! ## §A Editions -/

/-- The file map of an agent under a version number. -/
structure Edition where
  target : String
  version : Nat
  files : Files
  deriving DecidableEq

namespace Edition

variable {x y : Edition}

/-- Under the same number of the same agent, the same files. -/
def agrees (x y : Edition) : Bool :=
  !(x.target == y.target && x.version == y.version) || x.files.same y.files

theorem agrees_iff : x.agrees y = true ↔
    (x.target = y.target → x.version = y.version → x.files.same y.files = true) := by
  simp only [agrees, Bool.or_eq_true, Bool.not_eq_true', Bool.and_eq_false_iff, beq_eq_false_iff_ne]
  constructor
  · rintro ((ht | hv) | hsame) htarget hversion
    · exact absurd htarget ht
    · exact absurd hversion hv
    · exact hsame
  · intro h
    by_cases ht : x.target = y.target
    · by_cases hv : x.version = y.version
      · exact Or.inr (h ht hv)
      · exact Or.inl (Or.inr hv)
    · exact Or.inl (Or.inl ht)

theorem agrees_refl (x : Edition) : x.agrees x = true :=
  agrees_iff.mpr fun _ _ => Dict.same_refl _

theorem agrees_symm (h : x.agrees y = true) : y.agrees x = true :=
  agrees_iff.mpr fun ht hv => Dict.same_symm (agrees_iff.mp h ht.symm hv.symm)

end Edition

/-! ## §B What is published, and what comes next -/

/-- The catalog has committed the edition. -/
def Document.publishes (d : Document) (x : Edition) : Prop :=
  ∃ a v, d.agents.lookup x.target = some a ∧ v ∈ a.versions ∧ x.version = v.version ∧
    x.files = v.files

/-- The edition has the next number of its agent. -/
def Document.follows (d : Document) (x : Edition) : Prop :=
  ∃ a, d.agents.lookup x.target = some a ∧ x.version = a.versions.length + 1

/-- The next number is not published. -/
theorem Document.Numbered.agrees {d : Document} (h : d.Numbered) {x y : Edition} (hx : d.follows x)
    (hy : d.publishes y) : x.agrees y = true := by
  obtain ⟨a, ha, hnext⟩ := hx
  obtain ⟨b, v, hb, hv, hversion, _⟩ := hy
  refine Edition.agrees_iff.mpr fun ht hsame => ?_
  rw [ht] at ha
  obtain rfl := Option.some.inj (ha.symm.trans hb)
  have hle := (h.agents _ a ha).versions.le_length hv
  omega

/-- What the configuration that a publication selects is compiled to, under the next number. -/
def draftEdition (host : Host) (d : Document) (target : String) (version : Option Nat) :
    Option Edition :=
  match d.agents.lookup target with
  | none => none
  | some a =>
    match selectedConfig version a with
    | .error _ => none
    | .ok cfg =>
      match compileAgent host d target cfg (a.versions.length + 1) with
      | .error _ => none
      | .ok files => some ⟨target, a.versions.length + 1, files⟩

/-- The edition that a commit publishes, when the commit is of an agent release that is accepted now. -/
def acceptedEdition (rid : String) (d : Document) : Option Edition :=
  match d.releases.lookup rid with
  | none => none
  | some r =>
    match r.committed, r.content, d.agents.lookup r.target with
    | false, .agent _ files, some a =>
      if a.active = r.oldActive then some ⟨r.target, r.version, files⟩ else none
    | _, _, _ => none

theorem draftEdition_follows {host : Host} {d : Document} {target : String} {version : Option Nat}
    {x : Edition} (h : draftEdition host d target version = some x) : d.follows x := by
  unfold draftEdition at h
  split at h
  · cases h
  · next a ha =>
    split at h
    · cases h
    · split at h
      · cases h
      · obtain rfl := Option.some.inj h
        exact ⟨a, ha, rfl⟩

theorem acceptedEdition_follows {d : Document} (hn : d.Numbered) {rid : String} {x : Edition}
    (h : acceptedEdition rid d = some x) : d.follows x := by
  unfold acceptedEdition at h
  split at h
  · cases h
  · next r hr =>
    split at h
    · next cfg files a _ _ ha =>
      split at h
      · next hactive =>
        obtain rfl := Option.some.inj h
        exact ⟨a, ha, (hn.commit_agent cfg files hr ha hactive).1⟩
      · cases h
    · cases h

/-- A release of an agent is compiled from the configuration that its publication selects. -/
theorem prepareAgent_edition {host : Host} {rid target : String} {version : Option Nat} {s : Store}
    {r : Release} (h : prepareAgent host rid target version s = .ok r) :
    ∃ cfg files, r.target = target ∧ r.content = .agent cfg files ∧
      draftEdition host s.data target version = some ⟨target, r.version, files⟩ := by
  simp only [prepareAgent, bind_eq_ok] at h
  obtain ⟨_, _, h⟩ := h
  split at h
  · cases h
  · next a ha =>
    simp only [bind_eq_ok] at h
    obtain ⟨_, _, cfg, hcfg, _, _, files, hfiles, h⟩ := h
    obtain rfl := Except.ok.inj h
    exact ⟨cfg, files, rfl, rfl, by simp only [draftEdition, ha, hcfg, hfiles]⟩

/-- The same of the whole request. -/
theorem prepare_edition {host : Host} {rid target : String} {request : PrepareRequest} {s t : Store}
    {r : Release} (hkind : request.kind = .agent target)
    (h : prepare host rid request s = .ok (t, r)) :
    ∃ cfg files, r.target = target ∧ r.content = .agent cfg files ∧
      draftEdition host s.data target request.selected = some ⟨target, r.version, files⟩ := by
  simp only [prepare, Store.edit, bind_eq_ok] at h
  obtain ⟨_, _, release, hrelease, _, _, next, hnext, h⟩ := h
  obtain rfl := Except.ok.inj hnext
  obtain ⟨_, rfl⟩ := Prod.mk.inj (Except.ok.inj h)
  simp only [preparedRelease, hkind] at hrelease
  exact prepareAgent_edition hrelease

/-! ## §C Where published editions come from -/

/-- An administrative write publishes nothing. -/
theorem Write.publishes {d d' : Document} (h : Write d d') {x : Edition} (hx : d'.publishes x) :
    d.publishes x := by
  obtain ⟨a, v, ha, hv, hversion, hfiles⟩ := hx
  rcases h with hput | hdrop
  · cases hput with
    | draft aid cfg _ _ =>
      rcases Document.Numbered.putDraft_agents aid cfg d _ a ha with ⟨b, hb, hsame, _⟩ | ⟨hnil, _⟩
      · exact ⟨b, v, hb, hsame ▸ hv, hversion, hfiles⟩
      · rw [hnil] at hv
        exact absurd hv List.not_mem_nil
    | lifecycle aid b l hb =>
      rcases Dict.lookup_insert_cases ha with ⟨heq, rfl⟩ | ⟨_, hold⟩
      · exact ⟨b, v, heq ▸ hb, hv, hversion, hfiles⟩
      · exact ⟨a, v, hold, hv, hversion, hfiles⟩
    | _ => exact ⟨a, v, ha, hv, hversion, hfiles⟩
  · cases hdrop with
    | agent aid t => exact ⟨a, v, (Dict.lookup_erase_cases ha).2, hv, hversion, hfiles⟩
    | _ => exact ⟨a, v, ha, hv, hversion, hfiles⟩

/-- **A published edition was published before, or is the one that an accepted commit publishes.** -/
theorem Effect.publishes {env : Service.Environment} {d d' : Document} {c : Command}
    (h : Effect env d c d') {x : Edition} (hx : d'.publishes x) :
    d.publishes x ∨ ∃ rid, c = .commit rid ∧ acceptedEdition rid d = some x := by
  cases h with
  | refused e _ => exact Or.inl hx
  | prepared rid r _ _ _ => exact Or.inl hx
  | writes _ hw =>
    exact Or.inl (hw.keep (I := fun d' => ∀ x, d'.publishes x → d.publishes x)
      (fun _ _ hstep hbefore x hx => hbefore x (hstep.publishes hx)) (fun _ hx => hx) x hx)
  | @committed rid _ hc =>
    cases hc with
    | again r _ _ => exact Or.inl hx
    | models r ms configuration _ _ _ _ => exact Or.inl hx
    | agent r a cfg files hr hopen hcontent ha hactive =>
      obtain ⟨b, v, hb, hv, hversion, hfiles⟩ := hx
      rcases Dict.lookup_insert_cases hb with ⟨heq, rfl⟩ | ⟨_, hold⟩
      · rcases List.mem_append.mp hv with hbefore | hnew
        · exact Or.inl ⟨a, v, heq ▸ ha, hbefore, hversion, hfiles⟩
        · obtain rfl := List.mem_singleton.mp hnew
          refine Or.inr ⟨rid, rfl, ?_⟩
          simp only [acceptedEdition, hr, hopen, hcontent, ha, hactive, if_true]
          rw [← heq, show r.version = x.version from hversion.symm,
            show files = x.files from hfiles.symm]
      · exact Or.inl ⟨b, v, hold, hv, hversion, hfiles⟩

theorem not_publishes_initial (code data : String) (x : Edition) :
    ¬ (Service.initial code data).store.data.publishes x := by
  rintro ⟨a, v, ha, _⟩
  simp [Service.initial] at ha

/-! ## §D Editions and releases -/

/-- The catalog has prepared the edition: it is the content of a release. -/
def Document.compiled (d : Document) (x : Edition) : Prop :=
  ∃ rid r cfg, d.releases.lookup rid = some r ∧ r.target = x.target ∧ r.version = x.version ∧
    r.content = .agent cfg x.files

/-- What was prepared stays. -/
theorem Effect.compiled {env : Service.Environment} {d d' : Document} {c : Command}
    (h : Effect env d c d') {x : Edition} (hx : d.compiled x) : d'.compiled x := by
  obtain ⟨rid, r, cfg, hr, htarget, hversion, hcontent⟩ := hx
  obtain ⟨r', hr', hremains, _⟩ := h.release_remains hr
  refine ⟨rid, r', cfg, hr', ?_, ?_, ?_⟩
  · rw [hremains]; exact htarget
  · rw [hremains]; exact hversion
  · rw [hremains]; exact hcontent

/-- What an accepted commit publishes was prepared. -/
theorem acceptedEdition_compiled {d : Document} {rid : String} {x : Edition}
    (h : acceptedEdition rid d = some x) : d.compiled x := by
  unfold acceptedEdition at h
  split at h
  · cases h
  · next r hr =>
    split at h
    · next cfg files a _ hcontent _ =>
      split at h
      · obtain rfl := Option.some.inj h
        exact ⟨rid, r, cfg, hr, rfl, rfl, hcontent⟩
      · cases h
    · cases h

/-- The configuration of an agent in `d` is compiled to the edition, under the next number. -/
def Document.compilesTo (d : Document) (host : Host) (x : Edition) : Prop :=
  ∃ a cfg, d.agents.lookup x.target = some a ∧ cfg ∈ a.configs ∧ x.version = a.versions.length + 1 ∧
    compileAgent host d x.target cfg x.version = .ok x.files

/-- A prepared release of an agent is what the agent's configuration was compiled to. -/
theorem Prepared.compilesTo {host : Host} {d : Document} {r : Release} (h : Prepared host d r)
    {cfg : AgentConfig} {files : Files} (hcontent : r.content = .agent cfg files) :
    d.compilesTo host ⟨r.target, r.version, files⟩ := by
  cases h with
  | models => cases hcontent
  | agent rid target revision a cfg' files' found selected available compiled =>
    obtain ⟨rfl, rfl⟩ := ReleaseContent.agent.inj hcontent
    exact ⟨a, _, found, selected, rfl, compiled⟩

end OpencodeCloud.Catalog
