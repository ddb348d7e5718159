/-
# OpencodeCloud.Catalog.Availability -- active agents and the active gateway version

`prepare` checks from both sides that the enabled active agents find their models in the active gateway
version: a models release against the active agents, an agent release against the active models. Both
look at the document they are prepared on, and `commit` looks at nothing but the active number of the
object it replaces. So an agent release and a models release that were prepared side by side are both
let through. A commit keeps the agents served exactly when the check still holds at that moment
(`active_agents_served`).
-/
import OpencodeCloud.Catalog.References

namespace OpencodeCloud.Catalog

open OpencodeCloud.Library

/-! ## §A Served agents -/

/-- Every enabled active configuration finds its models, enabled, in the active gateway version. -/
def Document.Served (d : Document) : Prop :=
  ∀ v, activeGateway d = some v → ∀ aid a, d.agents.lookup aid = some a →
    ∀ cfg, agentConfig a = some cfg → cfg.enabled = true → allEnabled v.models cfg.modelIds = true

theorem allEnabled_allowed {ms : Dict String ModelDefinition} {cfg : AgentConfig}
    (h : allEnabled ms cfg.modelIds = true) : allEnabled ms cfg.allowedModelIds = true := by
  rw [allEnabled, List.all_eq_true] at h ⊢
  exact fun mid hmid => h mid (List.mem_append_left _ hmid)

/-- The allowed models of an assigned configuration are all it uses. -/
theorem allEnabled_modelIds {ms : Dict String ModelDefinition} {cfg : AgentConfig}
    (h : cfg.Assigned) : allEnabled ms cfg.modelIds = allEnabled ms cfg.allowedModelIds := by
  rw [Bool.eq_iff_iff]
  refine ⟨allEnabled_allowed, fun hall => ?_⟩
  rw [allEnabled, List.all_eq_true] at hall ⊢
  exact fun mid hmid => hall mid (h mid hmid)

/-- Nobody is in the list of users when every enabled active configuration is served. -/
theorem modelUsers_eq_nil_iff {d : Document} {ms : Dict String ModelDefinition} :
    modelUsers d ms = [] ↔ ∀ aid a, d.agents.lookup aid = some a →
      ∀ cfg, agentConfig a = some cfg → cfg.enabled = true →
        allEnabled ms cfg.allowedModelIds = true := by
  constructor
  · intro h aid a ha cfg hcfg henabled
    have hno := Dict.eq_false_of_filter_isEmpty (List.isEmpty_iff.mpr h) ha
    simpa [modelMissing, hcfg, henabled] using hno
  · intro h
    refine List.eq_nil_iff_forall_not_mem.mpr fun aid haid => ?_
    rw [modelUsers, ← AList.mem_keys, ← AList.lookup_isSome, Option.isSome_iff_exists] at haid
    obtain ⟨a, ha⟩ := haid
    obtain ⟨hl, hmissing⟩ := Dict.lookup_filter.mp ha
    simp only [modelMissing, Option.any_eq_true, Bool.and_eq_true, Bool.not_eq_true'] at hmissing
    obtain ⟨cfg, hcfg, henabled, hno⟩ := hmissing
    rw [h aid a hl cfg hcfg henabled] at hno
    exact absurd hno (by decide)

/-- The active configuration of an agent is assigned. -/
theorem Assigned.active {d : Document} (h : d.Assigned) {aid : String} {a : Agent}
    {cfg : AgentConfig} (ha : d.agents.lookup aid = some a) (hcfg : agentConfig a = some cfg) :
    cfg.Assigned :=
  h.agents aid a ha cfg (mem_configs_of_current (by simp [Agent.currentConfigs, hcfg]))

/-! ## §B Writes -/

/-- No administrative write publishes anything. -/
structure Frame (d d' : Document) : Prop where
  gateway : activeGateway d' = activeGateway d
  agents : ∀ aid a' cfg, d'.agents.lookup aid = some a' → agentConfig a' = some cfg →
    ∃ a, d.agents.lookup aid = some a ∧ agentConfig a = some cfg

theorem activeGateway_congr {d d' : Document} (hv : d'.gatewayVersions = d.gatewayVersions)
    (ha : d'.gatewayActive = d.gatewayActive) : activeGateway d' = activeGateway d := by
  have hversion : gatewayVersion d' = gatewayVersion d := by
    funext n
    rw [gatewayVersion, gatewayVersion, hv]
  rw [activeGateway, activeGateway, ha, hversion]

theorem Write.frame {d d' : Document} (hw : Write d d') : Frame d d' := by
  rcases hw with hput | hdrop
  · cases hput with
    | draft aid cfg hvalid _ =>
      refine ⟨activeGateway_congr (by simp) (by simp), fun i a' cfg' ha' hcfg' => ?_⟩
      rcases putDraft_lookup ha' with hold | ⟨rfl, _, ⟨_, hnone⟩ | ⟨a, ha, hversions, hactive⟩⟩
      · exact ⟨a', hold, hcfg'⟩
      · simp [agentConfig, activeVersion, hnone] at hcfg'
      · rw [agentConfig_congr hversions hactive] at hcfg'
        exact ⟨a, ha, hcfg'⟩
    | lifecycle aid a l ha =>
      refine ⟨rfl, fun i a' cfg ha' hcfg => ?_⟩
      rcases Dict.lookup_insert_cases ha' with ⟨rfl, rfl⟩ | ⟨_, hold⟩
      · exact ⟨a, ha, hcfg⟩
      · exact ⟨a', hold, hcfg⟩
    | model mid m => exact ⟨rfl, fun _ a' _ ha' hcfg => ⟨a', ha', hcfg⟩⟩
    | resource rid r _ _ => exact ⟨rfl, fun _ a' _ ha' hcfg => ⟨a', ha', hcfg⟩⟩
    | template tid t => exact ⟨rfl, fun _ a' _ ha' hcfg => ⟨a', ha', hcfg⟩⟩
  · cases hdrop with
    | agent aid t =>
      exact ⟨rfl, fun i a' cfg ha' hcfg => ⟨a', (Dict.lookup_erase_cases ha').2, hcfg⟩⟩
    | model mid _ => exact ⟨rfl, fun _ a' _ ha' hcfg => ⟨a', ha', hcfg⟩⟩
    | resource rid _ => exact ⟨rfl, fun _ a' _ ha' hcfg => ⟨a', ha', hcfg⟩⟩

theorem Served.frame {d d' : Document} (hf : Frame d d') (h : d.Served) : d'.Served := by
  intro v hv aid a' ha' cfg hcfg henabled
  obtain ⟨a, ha, hold⟩ := hf.agents aid a' cfg ha' hcfg
  exact h v (hf.gateway ▸ hv) aid a ha cfg hold henabled

/-! ## §C Commits -/

/-- A commit that is accepted must find, at that moment, what was checked when it was prepared. -/
def availabilityHolds (s : Service) : Command → Prop
  | .commit rid =>
    (∀ ms ∈ acceptedModels rid s.store.data, modelUsers s.store.data ms = []) ∧
    ∀ x ∈ acceptedAgent rid s.store.data, x.2.enabled = true →
      ∀ v ∈ activeGateway s.store.data, allEnabled v.models x.2.allowedModelIds = true
  | _ => True

instance (s : Service) : (c : Command) → Decidable (availabilityHolds s c)
  | .commit rid => inferInstanceAs (Decidable
      ((∀ ms ∈ acceptedModels rid s.store.data, modelUsers s.store.data ms = []) ∧
        ∀ x ∈ acceptedAgent rid s.store.data, x.2.enabled = true →
          ∀ v ∈ activeGateway s.store.data, allEnabled v.models x.2.allowedModelIds = true))
  | .saveModel .. | .importModels .. | .deleteModel .. | .saveAgent .. | .saveBindings .. | .copyAgent ..
  | .saveResource .. | .uploadSkill .. | .publish .. | .copyResource .. | .resourceLifecycle ..
  | .restoreTemplate .. | .importPreview .. | .importExpire _ | .importCommit .. | .lifecycle ..
  | .prepare .. => inferInstanceAs (Decidable True)

/-- A models release that is committed serves the agents exactly when it has no missing users. -/
theorem served_commit_models_iff {d : Document} {rid : String} {r : Release}
    {ms : Dict String ModelDefinition} (hn : d.Numbered) (ha : d.Assigned)
    (hr : d.releases.lookup rid = some r) (hactive : d.gatewayActive = r.oldActive) :
    (markCommitted rid r { d with
      gatewayVersions := d.gatewayVersions ++ [⟨r.version, ms⟩]
      gatewayActive := some r.version }).Served ↔ modelUsers d ms = [] := by
  have hgateway := (hn.commit_models ms hr hactive).2
  rw [modelUsers_eq_nil_iff]
  constructor
  · intro h aid a hl cfg hcfg henabled
    rw [← allEnabled_modelIds (Assigned.active ha hl hcfg)]
    exact h _ hgateway aid a hl cfg hcfg henabled
  · intro h v hv aid a hl cfg hcfg henabled
    obtain rfl := Option.some.inj (hgateway.symm.trans hv)
    rw [allEnabled_modelIds (Assigned.active ha hl hcfg)]
    exact h aid a hl cfg hcfg henabled

/-- An agent release that is committed keeps the agents served exactly when its own configuration is
disabled or served. -/
theorem served_commit_agent_iff {d : Document} {rid : String} {r : Release} {a : Agent}
    {cfg : AgentConfig} {files : Files} (hn : d.Numbered) (h : d.Served) (hassigned : cfg.Assigned)
    (hr : d.releases.lookup rid = some r) (ha : d.agents.lookup r.target = some a)
    (hactive : a.active = r.oldActive) :
    (markCommitted rid r { d with
      agents := d.agents.insert r.target { a with
        versions := a.versions ++ [⟨r.version, cfg, files⟩]
        active := some r.version } }).Served ↔
    (cfg.enabled = true → ∀ v ∈ activeGateway d, allEnabled v.models cfg.allowedModelIds = true) := by
  have hcurrent := (hn.commit_agent cfg files hr ha hactive).2.2
  constructor
  · intro h' henabled v hv
    rw [← allEnabled_modelIds hassigned]
    exact h' v hv r.target _ (AList.lookup_insert _) cfg hcurrent henabled
  · intro hserved v hv aid a' hl cfg' hcfg' henabled
    rcases Dict.lookup_insert_cases hl with ⟨rfl, rfl⟩ | ⟨_, hold⟩
    · obtain rfl := Option.some.inj (hcurrent.symm.trans hcfg')
      rw [allEnabled_modelIds hassigned]
      exact hserved henabled v hv
    · exact h v hv aid a' hold cfg' hcfg' henabled

/-- What a request does to a catalog whose active agents are served. -/
theorem effect_served_iff {env : Service.Environment} {s : Service} {c : Command} {d' : Document}
    (he : Effect env s.store.data c d') (hn : s.store.data.Numbered) (ha : s.store.data.Assigned)
    (h : s.store.data.Served) : d'.Served ↔ availabilityHolds s c := by
  cases he with
  | writes hother hw =>
    have hkeep := hw.keep (fun _ _ hstep hd => Served.frame hstep.frame hd) h
    refine ⟨fun _ => ?_, fun _ => hkeep⟩
    cases c
    case commit rid => exact absurd rfl (hother rid)
    all_goals trivial
  | prepared rid r _ _ _ => exact ⟨fun _ => trivial, fun _ => h⟩
  | refused e hbody =>
    refine ⟨fun _ => ⟨fun ms hms => ?_, fun x hx => ?_⟩, fun _ => h⟩
    · obtain ⟨y, hy⟩ := commitBody_of_acceptedModels hms
      simp [hy] at hbody
    · obtain ⟨y, hy⟩ := commitBody_of_accepted hx
      simp [hy] at hbody
  | committed hc =>
    cases hc with
    | again r hr hcommitted =>
      refine ⟨fun _ => ⟨fun ms hms => ?_, fun x hx => ?_⟩, fun _ => h⟩
      · simp [acceptedModels, hr, hcommitted] at hms
      · simp [acceptedAgent, hr, hcommitted] at hx
    | models r ms configuration hr hcommitted hcontent hactive =>
      rw [served_commit_models_iff hn ha hr hactive]
      simp [availabilityHolds, acceptedModels, acceptedAgent, hr, hcommitted, hcontent, hactive]
    | agent r a cfg files hr hcommitted hcontent hl hactive =>
      have hassigned := ha.releases _ r hr cfg files hcontent
      rw [served_commit_agent_iff hn h hassigned hr hl hactive]
      simp [availabilityHolds, acceptedModels, acceptedAgent, hr, hcommitted, hcontent, hl, hactive]

/-! ## §D Runs -/

/-- **Every enabled active agent finds its models in the active gateway version, exactly when every
commit finds what its release was prepared on.** In every run of the catalog service, the active agents
are served in all states the run passes if and only if every accepted commit meets, at that moment, the
availability check of `prepare`: a models release lacks no model of an enabled active agent, an enabled
agent release finds its models in the active gateway version. -/
theorem active_agents_served {env : Service.Environment} {code data : String} {cs : List Command}
    {t : Service} (hrun : (catalog env).run (Service.initial code data) cs = some t) :
    (catalog env).Throughout (fun s => s.store.data.Served) (Service.initial code data) cs ↔
      (catalog env).Along availabilityHolds (Service.initial code data) cs := by
  refine (catalog env).throughout_iff_along_of_invariant
    (I := fun s => s.store.data.Numbered ∧ s.store.data.Assigned) ?_ ?_
    ⟨Document.Numbered.initial code data, Assigned.initial code data⟩ ?_ hrun
  · intro s c t hs hstep
    have he := step_effect hstep
    exact ⟨hs.1.effect he, Assigned.effect he hs.2⟩
  · intro s c t hs h hstep
    exact effect_served_iff (step_effect hstep) hs.1 hs.2 h
  · intro v hv
    simp [Service.initial, activeGateway] at hv

/-! ## §E Two releases side by side -/

/-- A release of the agent is prepared; the draft moves to the other model, the first model is disabled
and a gateway version is prepared; both are committed. -/
def skewedRun : List Command :=
  publishedModels ++ [.prepare "r1" ⟨.agent "a", none, none⟩,
    .saveAgent "a" (plainAgent "m2" "") none,
    .saveModel "m1" { managedModel "m1" with enabled := false } none,
    .prepare "g2" ⟨.models, none, none⟩, .commit "r1", .commit "g2"]

/-- Is there an enabled active agent that misses a model in the active gateway version? -/
def Document.starved (d : Document) : Bool :=
  (activeGateway d).any fun v => !(modelUsers d v.models).isEmpty

theorem Served.not_starved {d : Document} (h : d.Served) : d.starved = false := by
  simp only [Document.starved, Option.any_eq_false, Bool.not_eq_false', List.isEmpty_iff]
  intro v hv
  rw [modelUsers_eq_nil_iff]
  intro aid a hl cfg hcfg henabled
  exact allEnabled_allowed (h v hv aid a hl cfg hcfg henabled)

/-- Both releases are let through: the agent goes live with a model that the gateway version that is
active from then on does not serve. -/
theorem commit_of_skewed_releases : ¬ ∀ (env : Service.Environment) (code data : String)
    (cs : List Command) (t : Service),
    (catalog env).run (Service.initial code data) cs = some t → t.store.data.Served := by
  intro hall
  have hbad : ((catalog plainEnvironment).run (Service.initial "" "") skewedRun).all
      (fun s => !s.store.data.starved) = false := by decide
  obtain ⟨t, hrun, ht⟩ := (catalog plainEnvironment).exists_run_of_all_eq_false hbad
  have hgood := Served.not_starved (hall plainEnvironment "" "" skewedRun t hrun)
  rw [hgood] at ht
  exact absurd ht (by decide)

/-- The same agent release, next to a gateway version that only loses the other model. -/
def servedRun : List Command :=
  publishedModels ++ [.prepare "r1" ⟨.agent "a", none, none⟩,
    .saveModel "m2" { managedModel "m2" with enabled := false } none,
    .prepare "g2" ⟨.models, none, none⟩, .commit "r1", .commit "g2"]

theorem active_agents_served_side_by_side :
    (catalog plainEnvironment).Throughout (fun s => s.store.data.Served)
      (Service.initial "" "") servedRun := by
  have hruns : ((catalog plainEnvironment).run (Service.initial "" "") servedRun).isSome = true := by
    decide
  obtain ⟨t, hrun⟩ := Option.isSome_iff_exists.mp hruns
  exact (active_agents_served hrun).mpr (by decide)

end OpencodeCloud.Catalog
