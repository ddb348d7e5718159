/-
# OpencodeCloud.Catalog.References -- bindings and model ids refer to something

A catalog is well referenced when every binding of a draft or of a committed version resolves, and
every model id of a draft or of an active version is a model of the catalog. Every write keeps that:
what is stored was validated, and what is deleted is not referred to. A prepared release is neither a
draft nor a version, so nothing protects what it refers to until it is committed, and `commit` does not
validate it again: a commit keeps the catalog well referenced exactly when the configuration of the
release still resolves (`references_hold`).
-/
import OpencodeCloud.Catalog.Numbering

namespace OpencodeCloud.Catalog

open OpencodeCloud.Library

/-! ## §A References -/

/-- The binding names a resource, one of its published versions, and nobody else's property. -/
def Document.resolves (d : Document) (aid : String) (b : Binding) : Bool :=
  match d.resources.lookup b.id with
  | none => false
  | some r =>
    r.versions.any (·.version == b.version) && (r.owner == none || r.owner == some aid)

/-- All model ids of a configuration. -/
def AgentConfig.modelIds (cfg : AgentConfig) : List String :=
  cfg.allowedModelIds ++ cfg.defaultModelId ::
    (if present cfg.smallModelId then cfg.smallModelId.toList else [])

/-- The model is in the catalog. -/
def Document.hasModel (d : Document) (mid : String) : Bool := (d.models.lookup mid).isSome

/-- The configuration of an agent refers to what is there. -/
def Document.refersWell (d : Document) (aid : String) (cfg : AgentConfig) : Bool :=
  cfg.bindings.all (d.resolves aid) && cfg.modelIds.all d.hasModel

/-- The configurations whose models count: the draft and the active version. -/
def Agent.currentConfigs (a : Agent) : List AgentConfig := a.draft :: (agentConfig a).toList

/-- No draft, no version and no active configuration refers to something that is not there. -/
structure Document.WellReferenced (d : Document) : Prop where
  bindings : ∀ aid a, d.agents.lookup aid = some a →
    ∀ cfg ∈ a.configs, ∀ b ∈ cfg.bindings, d.resolves aid b = true
  models : ∀ aid a, d.agents.lookup aid = some a →
    ∀ cfg ∈ a.currentConfigs, ∀ mid ∈ cfg.modelIds, d.hasModel mid = true

/-- The default and the small model are among the allowed ones. -/
def AgentConfig.Assigned (cfg : AgentConfig) : Prop := ∀ mid ∈ cfg.modelIds, mid ∈ cfg.allowedModelIds

/-- Every configuration of the document, in an agent or in a release, has its models assigned. -/
structure Document.Assigned (d : Document) : Prop where
  agents : ∀ aid a, d.agents.lookup aid = some a → ∀ cfg ∈ a.configs, cfg.Assigned
  releases : ∀ rid r, d.releases.lookup rid = some r →
    ∀ cfg files, r.content = .agent cfg files → cfg.Assigned

theorem resolves_iff {d : Document} {aid : String} {b : Binding} :
    d.resolves aid b = true ↔ ∃ r, d.resources.lookup b.id = some r ∧ r.publishes b.version ∧
      (r.owner = none ∨ r.owner = some aid) := by
  unfold Document.resolves
  split
  · next h => simp [h]
  · next r h => simp [h, Resource.publishes]

/-- The active configuration is one of the configurations of the agent. -/
theorem mem_configs_of_current {a : Agent} {cfg : AgentConfig} (h : cfg ∈ a.currentConfigs) :
    cfg ∈ a.configs := by
  rcases List.mem_cons.mp h with rfl | h
  · exact List.mem_cons_self
  · simp only [agentConfig, Option.mem_toList, Option.map_eq_some_iff] at h
    obtain ⟨v, hv, rfl⟩ := h
    simp only [activeVersion, Option.bind_eq_some_iff] at hv
    obtain ⟨n, _, hv⟩ := hv
    exact List.mem_cons_of_mem _ (List.mem_map_of_mem (List.mem_of_find?_eq_some hv))

/-! ## §B What validation says -/

theorem validateBindings_resolves {d : Document} {aid : String} {bs : List Binding}
    {names : List (ResourceKind × String)} {ids : List String}
    (h : validateBindings d aid names ids bs = .ok ()) : ∀ b ∈ bs, d.resolves aid b = true := by
  induction bs generalizing names ids with
  | nil => simp
  | cons b bs ih =>
    simp only [validateBindings, bind_eq_ok, refuse_eq_ok, Prod.exists] at h
    obtain ⟨r, v, hrv, _, howner, _, _, hrest⟩ := h
    intro b' hb'
    rcases List.mem_cons.mp hb' with rfl | hb'
    · unfold resourceVersion at hrv
      split at hrv
      · exact absurd hrv (by simp [fail])
      · next r' hr' =>
        split at hrv
        · exact absurd hrv (by simp [fail])
        · next v' hv' =>
          obtain ⟨rfl, rfl⟩ := Prod.mk.inj (Except.ok.inj hrv)
          refine resolves_iff.mpr ⟨r', hr', ⟨v', List.mem_of_find?_eq_some hv', ?_⟩, ?_⟩
          · simpa using List.find?_some hv'
          · by_cases hn : r'.owner = none
            · exact Or.inl hn
            · refine Or.inr ?_
              simpa [hn] using howner
    · exact ih hrest b' hb'

/-- What a valid configuration refers to is there. -/
theorem validateAgent_refersWell {d : Document} {aid : String} {cfg : AgentConfig}
    (h : validateAgent d aid cfg = .ok ()) : d.refersWell aid cfg = true ∧ cfg.Assigned := by
  simp only [validateAgent, bind_eq_ok, refuse_eq_ok] at h
  obtain ⟨_, _, _, _, _, _, _, hmodels, _, hassigned, _, hbindings, _⟩ := h
  simp only [Bool.or_eq_false_iff, Bool.not_eq_false', Bool.and_eq_false_iff,
    List.contains_iff_mem] at hassigned
  have hall : cfg.Assigned := by
    intro mid hmid
    simp only [AgentConfig.modelIds, List.mem_append, List.mem_cons] at hmid
    rcases hmid with hmid | rfl | hmid
    · exact hmid
    · exact hassigned.1
    · split at hmid
      · next hsmall =>
        rcases hassigned.2 with hno | hin
        · simp [hsmall] at hno
        · rw [Option.mem_toList] at hmid
          rwa [hmid, Option.getD_some] at hin
      · simp at hmid
  refine ⟨?_, hall⟩
  simp only [Document.refersWell, Bool.and_eq_true, List.all_eq_true]
  refine ⟨validateBindings_resolves hbindings, fun mid hmid => ?_⟩
  have := List.any_eq_false.mp hmodels mid (hall mid hmid)
  unfold modelAvailable at this
  split at this
  · simp at this
  · next m hm => simp [Document.hasModel, hm]

/-! ## §C Writes -/

/-- References that resolve keep resolving when resources keep their owner and versions. -/
theorem resolves_mono {d d' : Document} {aid : String} {b : Binding}
    (hr : ∀ r, d.resources.lookup b.id = some r →
      ∃ r', d'.resources.lookup b.id = some r' ∧ r'.owner = r.owner ∧
        ∀ n, r.publishes n → r'.publishes n)
    (h : d.resolves aid b = true) : d'.resolves aid b = true := by
  obtain ⟨r, hlook, hpub, howner⟩ := resolves_iff.mp h
  obtain ⟨r', hlook', howner', hkeep⟩ := hr r hlook
  exact resolves_iff.mpr ⟨r', hlook', hkeep _ hpub, by rw [howner']; exact howner⟩

/-- The versions and the active pointer determine the active configuration. -/
theorem agentConfig_congr {a a' : Agent} (hv : a'.versions = a.versions)
    (ha : a'.active = a.active) : agentConfig a' = agentConfig a := by
  simp only [agentConfig, activeVersion, agentVersion, ha]
  cases a.active with
  | none => rfl
  | some n => simp [agentVersion, hv]

/-- A configuration of an agent whose draft was replaced. -/
theorem mem_configs_putDraft {d : Document} {aid i : String} {cfg cfg' : AgentConfig} {a' : Agent}
    (h : (putDraft aid cfg d).agents.lookup i = some a') (hcfg : cfg' ∈ a'.configs) :
    (i = aid ∧ cfg' = cfg) ∨ ∃ a, d.agents.lookup i = some a ∧ cfg' ∈ a.configs := by
  rcases putDraft_lookup h with hold | ⟨rfl, hdraft, hversions⟩
  · exact Or.inr ⟨a', hold, hcfg⟩
  · simp only [Agent.configs, hdraft, List.mem_cons] at hcfg
    rcases hcfg with rfl | hcfg
    · exact Or.inl ⟨rfl, rfl⟩
    · rcases hversions with ⟨hnil, _⟩ | ⟨a, ha, hv, _⟩
      · simp [hnil] at hcfg
      · exact Or.inr ⟨a, ha, List.mem_cons_of_mem _ (hv ▸ hcfg)⟩

theorem mem_current_putDraft {d : Document} {aid i : String} {cfg cfg' : AgentConfig} {a' : Agent}
    (h : (putDraft aid cfg d).agents.lookup i = some a') (hcfg : cfg' ∈ a'.currentConfigs) :
    (i = aid ∧ cfg' = cfg) ∨ ∃ a, d.agents.lookup i = some a ∧ cfg' ∈ a.currentConfigs := by
  rcases putDraft_lookup h with hold | ⟨rfl, hdraft, hversions⟩
  · exact Or.inr ⟨a', hold, hcfg⟩
  · simp only [Agent.currentConfigs, hdraft, List.mem_cons] at hcfg
    rcases hcfg with rfl | hcfg
    · exact Or.inl ⟨rfl, rfl⟩
    · rcases hversions with ⟨_, hnone⟩ | ⟨a, ha, hv, hact⟩
      · simp [agentConfig, activeVersion, hnone] at hcfg
      · rw [agentConfig_congr hv hact] at hcfg
        exact Or.inr ⟨a, ha, List.mem_cons_of_mem _ hcfg⟩

/-- A write keeps the catalog well referenced. -/
theorem WellReferenced.write {d d' : Document} (hw : Write d d') (ha : d.Assigned)
    (h : d.WellReferenced) : d'.WellReferenced := by
  rcases hw with hput | hdrop
  · cases hput with
    | model mid m =>
      refine ⟨h.bindings, fun aid a hl cfg hcfg m' hm' => ?_⟩
      have hold := h.models aid a hl cfg hcfg m' hm'
      by_cases hne : m' = mid
      · subst hne
        simp [Document.hasModel]
      · simpa [Document.hasModel, AList.lookup_insert_ne hne] using hold
    | resource rid r hkeeps _ =>
      refine ⟨fun aid a hl cfg hcfg b hb => ?_, h.models⟩
      refine resolves_mono (fun r' hr' => ?_) (h.bindings aid a hl cfg hcfg b hb)
      by_cases hid : b.id = rid
      · rw [hid] at hr' ⊢
        obtain ⟨howner, hfirst⟩ := hkeeps r' hr'
        exact ⟨r, AList.lookup_insert _, howner, fun n ⟨v, hv, hn⟩ => ⟨v, hfirst.subset hv, hn⟩⟩
      · exact ⟨r', by rw [AList.lookup_insert_ne hid]; exact hr', rfl, fun n hn => hn⟩
    | draft aid cfg hvalid _ =>
      obtain ⟨hrefers, _⟩ := validateAgent_refersWell hvalid
      simp only [Document.refersWell, Bool.and_eq_true, List.all_eq_true] at hrefers
      refine ⟨fun i a' hl cfg' hcfg' b hb => ?_, fun i a' hl cfg' hcfg' mid hmid => ?_⟩
      · have hres : (putDraft aid cfg d).resolves i b = d.resolves i b := by
          simp [Document.resolves]
        rw [hres]
        rcases mem_configs_putDraft hl hcfg' with ⟨rfl, rfl⟩ | ⟨a, hl, hold⟩
        · exact hrefers.1 b hb
        · exact h.bindings i a hl cfg' hold b hb
      · have hmod : (putDraft aid cfg d).hasModel mid = d.hasModel mid := by
          simp [Document.hasModel]
        rw [hmod]
        rcases mem_current_putDraft hl hcfg' with ⟨rfl, rfl⟩ | ⟨a, hl, hold⟩
        · exact hrefers.2 mid hmid
        · exact h.models i a hl cfg' hold mid hmid
    | lifecycle aid a l ha =>
      refine ⟨fun i a' hl cfg hcfg b hb => ?_, fun i a' hl cfg hcfg mid hmid => ?_⟩
      · rcases Dict.lookup_insert_cases hl with ⟨rfl, rfl⟩ | ⟨_, hold⟩
        · exact h.bindings i a ha cfg hcfg b hb
        · exact h.bindings i a' hold cfg hcfg b hb
      · rcases Dict.lookup_insert_cases hl with ⟨rfl, rfl⟩ | ⟨_, hold⟩
        · exact h.models i a ha cfg hcfg mid hmid
        · exact h.models i a' hold cfg hcfg mid hmid
    | template tid t => exact ⟨h.bindings, h.models⟩
  · cases hdrop with
    | model mid hunused =>
      refine ⟨h.bindings, fun aid a hl cfg hcfg m' hm' => ?_⟩
      have hold := h.models aid a hl cfg hcfg m' hm'
      have hne : m' ≠ mid := by
        rintro rfl
        have hallowed := ha.agents aid a hl cfg (mem_configs_of_current hcfg) m' hm'
        have hno := List.any_eq_false.mp (hunused aid a hl) cfg hcfg
        simp [hallowed] at hno
      simpa [Document.hasModel, AList.lookup_erase_ne hne] using hold
    | resource rid hunused =>
      refine ⟨fun aid a hl cfg hcfg b hb => ?_, h.models⟩
      refine resolves_mono (fun r' hr' => ?_) (h.bindings aid a hl cfg hcfg b hb)
      have hid : b.id ≠ rid := by
        intro hid
        have hno := List.any_eq_false.mp (hunused aid a hl) cfg hcfg
        exact hno (List.any_eq_true.mpr ⟨b, hb, by simp [hid]⟩)
      exact ⟨r', by rw [AList.lookup_erase_ne hid]; exact hr', rfl, fun n hn => hn⟩
    | agent aid t =>
      refine ⟨fun i a hl cfg hcfg b hb => ?_, fun i a hl cfg hcfg mid hmid => ?_⟩
      · obtain ⟨hne, hl⟩ := Dict.lookup_erase_cases hl
        obtain ⟨r, hr, hpub, howner⟩ := resolves_iff.mp (h.bindings i a hl cfg hcfg b hb)
        refine resolves_iff.mpr ⟨r, Dict.lookup_filter.mpr ⟨hr, ?_⟩, hpub, howner⟩
        -- the resource belongs to nobody or to another agent
        rcases howner with howner | howner
        · simp [howner]
        · simpa [howner] using hne
      · exact h.models i a (Dict.lookup_erase_cases hl).2 cfg hcfg mid hmid

theorem Assigned.write {d d' : Document} (hw : Write d d') (h : d.Assigned) : d'.Assigned := by
  rcases hw with hput | hdrop
  · cases hput with
    | draft aid cfg hvalid _ =>
      refine ⟨fun i a' hl cfg' hcfg' => ?_, fun rid r hr => h.releases rid r (by simpa using hr)⟩
      rcases mem_configs_putDraft hl hcfg' with ⟨rfl, rfl⟩ | ⟨a, hl, hold⟩
      · exact (validateAgent_refersWell hvalid).2
      · exact h.agents i a hl cfg' hold
    | lifecycle aid a l ha =>
      refine ⟨fun i a' hl cfg hcfg => ?_, h.releases⟩
      rcases Dict.lookup_insert_cases hl with ⟨rfl, rfl⟩ | ⟨_, hold⟩
      · exact h.agents i a ha cfg hcfg
      · exact h.agents i a' hold cfg hcfg
    | model mid m => exact ⟨h.agents, h.releases⟩
    | resource rid r _ _ => exact ⟨h.agents, h.releases⟩
    | template tid t => exact ⟨h.agents, h.releases⟩
  · cases hdrop with
    | agent aid t =>
      exact ⟨fun i a hl => h.agents i a (Dict.lookup_erase_cases hl).2, h.releases⟩
    | model mid _ => exact ⟨h.agents, h.releases⟩
    | resource rid _ => exact ⟨h.agents, h.releases⟩

/-! ## §D Releases -/

/-- A prepared configuration was validated. -/
theorem Prepared.assigned {host : Host} {d : Document} {r : Release} (h : Prepared host d r)
    (cfg : AgentConfig) (files : Files) (hr : r.content = .agent cfg files) : cfg.Assigned := by
  cases h with
  | models rid revision ms configuration _ => simp at hr
  | agent rid target revision a cfg' files' _ _ _ hcompiled =>
    simp only [ReleaseContent.agent.injEq] at hr
    obtain ⟨rfl, rfl⟩ := hr
    simp only [compileAgent, bind_eq_ok] at hcompiled
    obtain ⟨_, hvalid, _⟩ := hcompiled
    exact (validateAgent_refersWell hvalid).2

/-- The configurations of an agent after a commit. -/
theorem mem_configs_commit {a : Agent} {v : AgentVersion} {n : Option Nat} {cfg : AgentConfig}
    (h : cfg ∈ Agent.configs { a with versions := a.versions ++ [v], active := n }) :
    cfg = v.config ∨ cfg ∈ a.configs := by
  simp only [Agent.configs, List.map_append, List.map_cons, List.map_nil, List.mem_cons,
    List.mem_append, List.not_mem_nil, or_false] at h
  rcases h with rfl | h | rfl
  · exact Or.inr List.mem_cons_self
  · exact Or.inr (List.mem_cons_of_mem _ h)
  · exact Or.inl rfl

theorem Assigned.markCommitted {d : Document} {rid : String} {r : Release} (h : d.Assigned)
    (hr : d.releases.lookup rid = some r) : (markCommitted rid r d).Assigned := by
  refine ⟨h.agents, fun rid' r' hr' cfg files hcontent => ?_⟩
  rcases Dict.lookup_insert_cases hr' with ⟨rfl, rfl⟩ | ⟨_, hold⟩
  · exact h.releases _ r hr cfg files hcontent
  · exact h.releases rid' r' hold cfg files hcontent

theorem Assigned.effect {env : Service.Environment} {d d' : Document} {c : Command}
    (he : Effect env d c d') (h : d.Assigned) : d'.Assigned := by
  cases he with
  | refused e _ => exact h
  | writes _ hw => exact hw.keep (fun _ _ hstep hd => Assigned.write hstep hd) h
  | prepared rid r _ hr _ =>
    refine ⟨h.agents, fun rid' r' hr' cfg files hcontent => ?_⟩
    rcases Dict.lookup_insert_cases hr' with ⟨rfl, rfl⟩ | ⟨_, hold⟩
    · exact hr.assigned cfg files hcontent
    · exact h.releases rid' r' hold cfg files hcontent
  | committed hc =>
    cases hc with
    | again r _ _ => exact h
    | models r ms configuration hr _ _ _ =>
      exact Assigned.markCommitted (r := r) ⟨h.agents, h.releases⟩ hr
    | agent r a cfg files hr _ hcontent ha _ =>
      refine Assigned.markCommitted (r := r) ⟨fun i a' hl cfg' hcfg' => ?_, h.releases⟩ hr
      rcases Dict.lookup_insert_cases hl with ⟨rfl, rfl⟩ | ⟨_, hold⟩
      · rcases mem_configs_commit hcfg' with hnew | hold
        · rw [hnew]
          exact h.releases _ r hr cfg files hcontent
        · exact h.agents r.target a ha cfg' hold
      · exact h.agents i a' hold cfg' hcfg'

/-- A commit that is accepted must be of a configuration that still resolves. -/
def referencesHold (s : Service) : Command → Prop
  | .commit rid => ∀ x ∈ acceptedAgent rid s.store.data, s.store.data.refersWell x.1 x.2 = true
  | _ => True

instance (s : Service) : (c : Command) → Decidable (referencesHold s c)
  | .commit rid => inferInstanceAs (Decidable
      (∀ x ∈ acceptedAgent rid s.store.data, s.store.data.refersWell x.1 x.2 = true))
  | .saveModel .. | .importModels .. | .deleteModel .. | .saveAgent .. | .saveBindings .. | .copyAgent ..
  | .saveResource .. | .uploadSkill .. | .publish .. | .copyResource .. | .resourceLifecycle ..
  | .restoreTemplate .. | .importPreview .. | .importExpire _ | .importCommit .. | .lifecycle ..
  | .prepare .. => inferInstanceAs (Decidable True)

/-- The bindings and models of the next document are those of `d`. -/
theorem refersWell_congr {d d' : Document} (hres : d'.resources = d.resources)
    (hmod : d'.models = d.models) (aid : String) (cfg : AgentConfig) :
    d'.refersWell aid cfg = d.refersWell aid cfg := by
  have h1 : d'.resolves aid = d.resolves aid := by
    funext b
    simp [Document.resolves, hres]
  have h2 : d'.hasModel = d.hasModel := by
    funext mid
    simp [Document.hasModel, hmod]
  simp [Document.refersWell, h1, h2]

/-- A catalog is well referenced when every configuration that counts refers to what is there. -/
theorem wellReferenced_iff {d : Document} : d.WellReferenced ↔
    ∀ aid a, d.agents.lookup aid = some a →
      (∀ cfg ∈ a.configs, ∀ b ∈ cfg.bindings, d.resolves aid b = true) ∧
      ∀ cfg ∈ a.currentConfigs, ∀ mid ∈ cfg.modelIds, d.hasModel mid = true :=
  ⟨fun h aid a ha => ⟨h.bindings aid a ha, h.models aid a ha⟩,
    fun h => ⟨fun aid a ha => (h aid a ha).1, fun aid a ha => (h aid a ha).2⟩⟩

/-- A commit of an agent release keeps the catalog well referenced exactly when its configuration
refers to what is there. -/
theorem wellReferenced_commit_iff {d : Document} {rid : String} {r : Release} {a : Agent}
    {cfg : AgentConfig} {files : Files} (hn : d.Numbered) (h : d.WellReferenced)
    (hr : d.releases.lookup rid = some r) (ha : d.agents.lookup r.target = some a)
    (hactive : a.active = r.oldActive) :
    (markCommitted rid r { d with
      agents := d.agents.insert r.target { a with
        versions := a.versions ++ [⟨r.version, cfg, files⟩]
        active := some r.version } }).WellReferenced ↔ d.refersWell r.target cfg = true := by
  have hcurrent := (hn.commit_agent cfg files hr ha hactive).2.2
  constructor
  · intro h'
    have hl : (markCommitted rid r { d with
        agents := d.agents.insert r.target { a with
          versions := a.versions ++ [⟨r.version, cfg, files⟩]
          active := some r.version } }).agents.lookup r.target = some { a with
        versions := a.versions ++ [⟨r.version, cfg, files⟩], active := some r.version } :=
      AList.lookup_insert _
    simp only [Document.refersWell, Bool.and_eq_true, List.all_eq_true]
    constructor
    · exact h'.bindings r.target _ hl cfg (by simp [Agent.configs])
    · exact h'.models r.target _ hl cfg (by simp [Agent.currentConfigs, hcurrent])
  · intro hrefers
    simp only [Document.refersWell, Bool.and_eq_true, List.all_eq_true] at hrefers
    refine wellReferenced_iff.mpr fun aid a' hl => ?_
    rcases Dict.lookup_insert_cases hl with ⟨rfl, rfl⟩ | ⟨_, hold⟩
    · refine ⟨fun cfg' hcfg' b hb => ?_, fun cfg' hcfg' mid hmid => ?_⟩
      · rcases mem_configs_commit hcfg' with hnew | hold
        · exact hrefers.1 b (by rw [hnew] at hb; exact hb)
        · exact h.bindings _ a ha cfg' hold b hb
      · simp only [Agent.currentConfigs, hcurrent, Option.toList_some, List.mem_cons,
          List.not_mem_nil, or_false] at hcfg'
        rcases hcfg' with rfl | rfl
        · exact h.models _ a ha _ List.mem_cons_self mid hmid
        · exact hrefers.2 mid hmid
    · exact ⟨h.bindings aid a' hold, h.models aid a' hold⟩

/-- An accepted commit succeeds. -/
theorem commitBody_of_accepted {d : Document} {rid : String} {x : String × AgentConfig}
    (h : acceptedAgent rid d = some x) : ∃ y, commitBody rid d = .ok y := by
  unfold acceptedAgent at h
  split at h
  · simp at h
  · next r hr =>
    split at h
    · next cfg files a hc hcontent ha =>
      split at h
      · next hactive =>
        simp [commitBody, hr, hc, hcontent, ha, hactive, refuse, bind, Except.bind, pure,
          Except.pure]
      · simp at h
    · simp at h

theorem commitBody_of_acceptedModels {d : Document} {rid : String} {ms : Dict String ModelDefinition}
    (h : acceptedModels rid d = some ms) : ∃ y, commitBody rid d = .ok y := by
  unfold acceptedModels at h
  split at h
  · simp at h
  · next r hr =>
    split at h
    · next ms configuration hc hcontent =>
      split at h
      · next hactive =>
        simp [commitBody, hr, hc, hcontent, hactive, refuse, bind, Except.bind, pure, Except.pure]
      · simp at h
    · simp at h

/-- What a request does to a well referenced catalog. -/
theorem effect_wellReferenced_iff {env : Service.Environment} {s : Service} {c : Command}
    {d' : Document} (he : Effect env s.store.data c d') (hn : s.store.data.Numbered)
    (ha : s.store.data.Assigned) (h : s.store.data.WellReferenced) :
    d'.WellReferenced ↔ referencesHold s c := by
  cases he with
  | writes hother hw =>
    have hkeep := hw.keep (I := fun d => d.Assigned ∧ d.WellReferenced)
      (fun _ _ hstep hd => ⟨Assigned.write hstep hd.1, WellReferenced.write hstep hd.1 hd.2⟩) ⟨ha, h⟩
    refine ⟨fun _ => ?_, fun _ => hkeep.2⟩
    cases c
    case commit rid => exact absurd rfl (hother rid)
    all_goals trivial
  | prepared rid r _ _ _ => exact ⟨fun _ => trivial, fun _ => ⟨h.bindings, h.models⟩⟩
  | refused e hbody =>
    refine ⟨fun _ x hx => ?_, fun _ => h⟩
    obtain ⟨y, hy⟩ := commitBody_of_accepted hx
    simp [hy] at hbody
  | committed hc =>
    cases hc with
    | again r hr hcommitted =>
      refine ⟨fun _ x hx => ?_, fun _ => h⟩
      simp [acceptedAgent, hr, hcommitted] at hx
    | models r ms configuration hr hcommitted hcontent _ =>
      refine ⟨fun _ x hx => ?_, fun _ => ⟨h.bindings, h.models⟩⟩
      simp [acceptedAgent, hr, hcommitted, hcontent] at hx
    | agent r a cfg files hr hcommitted hcontent hl hactive =>
      rw [wellReferenced_commit_iff hn h hr hl hactive]
      simp [referencesHold, acceptedAgent, hr, hcommitted, hcontent, hl, hactive]

/-! ## §E Runs -/

theorem Assigned.initial (code data : String) : (Service.initial code data).store.data.Assigned where
  agents aid a ha := by simp [Service.initial] at ha
  releases rid r hr := by simp [Service.initial] at hr

theorem WellReferenced.initial (code data : String) :
    (Service.initial code data).store.data.WellReferenced where
  bindings aid a ha := by simp [Service.initial] at ha
  models aid a ha := by simp [Service.initial] at ha

/-- **Every reference of the catalog resolves, exactly when no commit is of a configuration that no
longer does.** In every run of the catalog service, all states the run passes are well referenced if
and only if every accepted commit of an agent release is of a configuration whose bindings and models
are there at that moment. -/
theorem references_hold {env : Service.Environment} {code data : String} {cs : List Command}
    {t : Service} (hrun : (catalog env).run (Service.initial code data) cs = some t) :
    (catalog env).Throughout (fun s => s.store.data.WellReferenced) (Service.initial code data) cs ↔
      (catalog env).Along referencesHold (Service.initial code data) cs := by
  refine (catalog env).throughout_iff_along_of_invariant
    (I := fun s => s.store.data.Numbered ∧ s.store.data.Assigned) ?_ ?_
    ⟨Document.Numbered.initial code data, Assigned.initial code data⟩
    (WellReferenced.initial code data) hrun
  · intro s c t hs hstep
    have he := step_effect hstep
    exact ⟨hs.1.effect he, Assigned.effect he hs.2⟩
  · intro s c t hs h hstep
    exact effect_wellReferenced_iff (step_effect hstep) hs.1 hs.2 h

/-! ## §F A release that outlives its model -/

/-- A host without legacy models. -/
def plainHost : Host where
  environment := ∅
  gatewayUrl := "http://host.docker.internal:8104/v1"
  image := "opencode-cloud/agent_runtime:1.0.2"
  idleTimeoutSeconds := 1800
  defaultCpu := 2
  defaultMemoryMb := 2048
  defaultPids := 256
  httpUrl := fun url => startsWith url "http://" || startsWith url "https://"
  endpointUrl := fun url => startsWith url "http://" || startsWith url "https://"

/-- The fingerprint plays no part in these runs. -/
def plainEnvironment : Service.Environment := ⟨plainHost, fun _ _ => ""⟩

/-- A managed model with one key. -/
def managedModel (mid : String) : ModelDefinition where
  id := mid
  name := some mid
  provider := .openai
  upstreamModel := some "gpt"
  baseUrl := some ""
  additionalBaseUrls := []
  apiKey := some "sk-1"
  deployments := []
  headers := ∅
  parameters := ∅
  context := none
  output := none
  enabled := true
  legacy := false

/-- An agent with one model and no resources. -/
def plainAgent (mid : String) (instructions : String) : AgentConfig where
  name := "Agent"
  description := ""
  enabled := true
  instructions := instructions
  allowedModelIds := [mid]
  defaultModelId := mid
  smallModelId := none
  cpuLimit := none
  memoryMb := none
  bindings := []

/-- Two published models, and an agent that uses the first. -/
def publishedModels : List Command :=
  [.saveModel "m1" (managedModel "m1") none, .saveModel "m2" (managedModel "m2") none,
    .prepare "g1" ⟨.models, none, none⟩, .commit "g1", .saveAgent "a" (plainAgent "m1" "") none]

/-- A release of the agent is prepared; the draft moves to the other model, the first model is deleted,
and the release is committed. -/
def outlivedRun : List Command :=
  publishedModels ++ [.prepare "r1" ⟨.agent "a", none, none⟩,
    .saveAgent "a" (plainAgent "m2" "") none, .deleteModel "m1" none, .commit "r1"]

/-- Is there a current configuration that uses a model the catalog does not have? -/
def Document.dangling (d : Document) : Bool :=
  d.agents.any fun _ a => a.currentConfigs.any fun cfg =>
    cfg.modelIds.any fun mid => !d.hasModel mid

theorem WellReferenced.not_dangling {d : Document} (h : d.WellReferenced) : d.dangling = false := by
  simp only [Document.dangling, Dict.any_eq_false, List.any_eq_false]
  intro aid a ha cfg hcfg hmissing
  obtain ⟨mid, hmid, hno⟩ := List.any_eq_true.mp hmissing
  rw [h.models aid a ha cfg hcfg mid hmid] at hno
  exact absurd hno (by decide)

/-- A prepared release outlives the model it uses: after its commit the active version of the agent
names a model that was deleted in between. -/
theorem commit_of_outlived_release : ¬ ∀ (env : Service.Environment) (code data : String)
    (cs : List Command) (t : Service),
    (catalog env).run (Service.initial code data) cs = some t → t.store.data.WellReferenced := by
  intro hall
  have hbad : ((catalog plainEnvironment).run (Service.initial "" "") outlivedRun).all
      (fun s => !s.store.data.dangling) = false := by decide
  obtain ⟨t, hrun, ht⟩ := (catalog plainEnvironment).exists_run_of_all_eq_false hbad
  have hgood := WellReferenced.not_dangling (hall plainEnvironment "" "" outlivedRun t hrun)
  rw [hgood] at ht
  exact absurd ht (by decide)

/-- The same release, committed while its model is there. -/
def keptRun : List Command :=
  publishedModels ++ [.prepare "r1" ⟨.agent "a", none, none⟩,
    .saveAgent "a" (plainAgent "m2" "") none, .commit "r1"]

theorem references_hold_when_kept :
    (catalog plainEnvironment).Throughout (fun s => s.store.data.WellReferenced)
      (Service.initial "" "") keptRun := by
  have hruns : ((catalog plainEnvironment).run (Service.initial "" "") keptRun).isSome = true := by
    decide
  obtain ⟨t, hrun⟩ := Option.isSome_iff_exists.mp hruns
  exact (references_hold hrun).mpr (by decide)

end OpencodeCloud.Catalog
