/-
# OpencodeCloud.Catalog.Numbering -- version numbers of agents and of the gateway

The committed versions of an agent, and of the gateway, carry the numbers 1, 2, 3, … in order, the
active version is the last one, and a release carries the number after the active version it was
prepared on. So a commit that `old_active` lets through appends the next number and makes it the active
version, whatever happened since the release was prepared (`commit_agent`, `commit_models`).
-/
import OpencodeCloud.Catalog.Writes
import OpencodeCloud.Library.Numbering

namespace OpencodeCloud.Catalog

open OpencodeCloud.Library

/-- The numbers of one agent. -/
structure Agent.Numbered (a : Agent) : Prop where
  versions : Library.Numbered AgentVersion.version a.versions
  active : a.active = lastNumber a.versions.length

/-- The numbers of the catalog. -/
structure Document.Numbered (d : Document) : Prop where
  gateway : Library.Numbered GatewayVersion.version d.gatewayVersions
  gatewayActive : d.gatewayActive = lastNumber d.gatewayVersions.length
  agents : ∀ aid a, d.agents.lookup aid = some a → a.Numbered
  releases : ∀ rid r, d.releases.lookup rid = some r →
    ∃ n, r.version = n + 1 ∧ r.oldActive = lastNumber n

namespace Document.Numbered

variable {d d' : Document}

/-- The agents are numbered when each of them comes from an old one with its versions, or is new. -/
theorem agents_of (h : d.Numbered)
    (hd : ∀ aid a', d'.agents.lookup aid = some a' →
      (∃ a, d.agents.lookup aid = some a ∧ a'.versions = a.versions ∧ a'.active = a.active) ∨
      a'.versions = [] ∧ a'.active = none) :
    ∀ aid a', d'.agents.lookup aid = some a' → a'.Numbered := by
  intro aid a' ha'
  rcases hd aid a' ha' with ⟨a, ha, hversions, hactive⟩ | ⟨hversions, hactive⟩
  · obtain ⟨hn, hlast⟩ := h.agents aid a ha
    exact ⟨by rw [hversions]; exact hn, by rw [hversions, hactive]; exact hlast⟩
  · exact ⟨by rw [hversions]; exact Library.Numbered.nil, by rw [hversions, hactive]; rfl⟩

/-- What an agent of the next document has from before. -/
theorem putDraft_agents (aid : String) (cfg : AgentConfig) (d : Document) :
    ∀ i a', (putDraft aid cfg d).agents.lookup i = some a' →
      (∃ a, d.agents.lookup i = some a ∧ a'.versions = a.versions ∧ a'.active = a.active) ∨
      a'.versions = [] ∧ a'.active = none := by
  intro i a' ha'
  rcases putDraft_lookup ha' with hold | ⟨rfl, _, hnew | hold⟩
  · exact Or.inl ⟨a', hold, rfl, rfl⟩
  · exact Or.inr hnew
  · exact Or.inl hold

@[simp] theorem putDraft_models (aid : String) (cfg : AgentConfig) (d : Document) :
    (putDraft aid cfg d).models = d.models := by
  unfold putDraft
  split <;> rfl

@[simp] theorem putDraft_resources (aid : String) (cfg : AgentConfig) (d : Document) :
    (putDraft aid cfg d).resources = d.resources := by
  unfold putDraft
  split <;> rfl

@[simp] theorem putDraft_gatewayVersions (aid : String) (cfg : AgentConfig) (d : Document) :
    (putDraft aid cfg d).gatewayVersions = d.gatewayVersions := by
  unfold putDraft
  split <;> rfl

@[simp] theorem putDraft_gatewayActive (aid : String) (cfg : AgentConfig) (d : Document) :
    (putDraft aid cfg d).gatewayActive = d.gatewayActive := by
  unfold putDraft
  split <;> rfl

@[simp] theorem putDraft_releases (aid : String) (cfg : AgentConfig) (d : Document) :
    (putDraft aid cfg d).releases = d.releases := by
  unfold putDraft
  split <;> rfl

theorem write (hw : Write d d') (h : d.Numbered) : d'.Numbered := by
  rcases hw with hput | hdrop
  · cases hput with
    | draft aid cfg _ _ =>
      exact ⟨by simpa using h.gateway, by simpa using h.gatewayActive,
        h.agents_of (putDraft_agents aid cfg d), by simpa using h.releases⟩
    | lifecycle aid a l ha =>
      refine { h with agents := h.agents_of fun i a' ha' => Or.inl ?_ }
      rcases Dict.lookup_insert_cases ha' with ⟨rfl, rfl⟩ | ⟨_, hold⟩
      · exact ⟨a, ha, rfl, rfl⟩
      · exact ⟨a', hold, rfl, rfl⟩
    | model mid m => exact { h with }
    | resource rid r _ _ => exact { h with }
    | template tid t => exact { h with }
  · cases hdrop with
    | agent aid t =>
      refine { h with agents := h.agents_of fun i a' ha' => Or.inl ?_ }
      exact ⟨a', (Dict.lookup_erase_cases ha').2, rfl, rfl⟩
    | model mid _ => exact { h with }
    | resource rid _ => exact { h with }

/-- A prepared release carries the number after the active version. -/
theorem prepared {host : Host} {r : Release} (hr : Prepared host d r) (h : d.Numbered) :
    ∃ n, r.version = n + 1 ∧ r.oldActive = lastNumber n := by
  cases hr with
  | models rid revision ms configuration _ => exact ⟨_, rfl, h.gatewayActive⟩
  | agent rid target revision a cfg files ha _ _ _ => exact ⟨_, rfl, (h.agents target a ha).active⟩

/-- The number of a release that `old_active` lets through. -/
theorem version_of_active (h : d.Numbered) {rid : String} {r : Release}
    (hr : d.releases.lookup rid = some r) {n : Nat} (hactive : lastNumber n = r.oldActive) :
    r.version = n + 1 := by
  obtain ⟨m, hversion, hold⟩ := h.releases rid r hr
  rw [hversion, lastNumber_injective (hactive.trans hold)]

/-- A committed agent version is appended under the next number and active. -/
theorem commit_agent (h : d.Numbered) {rid : String} {r : Release} {a : Agent} (cfg : AgentConfig)
    (files : Files) (hr : d.releases.lookup rid = some r) (ha : d.agents.lookup r.target = some a)
    (hactive : a.active = r.oldActive) :
    r.version = a.versions.length + 1 ∧
      Agent.Numbered { a with
        versions := a.versions ++ [⟨r.version, cfg, files⟩], active := some r.version } ∧
      agentConfig { a with
        versions := a.versions ++ [⟨r.version, cfg, files⟩], active := some r.version } = some cfg := by
  have ha' := h.agents r.target a ha
  have hversion : r.version = a.versions.length + 1 :=
    h.version_of_active hr (ha'.active.symm.trans hactive)
  refine ⟨hversion, ⟨ha'.versions.append hversion, ?_⟩, ?_⟩
  · simp [hversion, lastNumber_succ]
  · have hfind := ha'.versions.find_append (x := ⟨r.version, cfg, files⟩) hversion
    simp only [agentConfig, activeVersion, Option.bind_some, agentVersion]
    rw [hfind]
    rfl

/-- A committed gateway version is appended under the next number and active. -/
theorem commit_models (h : d.Numbered) {rid : String} {r : Release}
    (ms : Dict String ModelDefinition) (hr : d.releases.lookup rid = some r)
    (hactive : d.gatewayActive = r.oldActive) :
    r.version = d.gatewayVersions.length + 1 ∧
      activeGateway { d with
        gatewayVersions := d.gatewayVersions ++ [⟨r.version, ms⟩]
        gatewayActive := some r.version } = some ⟨r.version, ms⟩ := by
  have hversion : r.version = d.gatewayVersions.length + 1 :=
    h.version_of_active hr (h.gatewayActive.symm.trans hactive)
  refine ⟨hversion, ?_⟩
  have hfind := h.gateway.find_append (x := ⟨r.version, ms⟩) hversion
  simp only [activeGateway, Option.bind_some, gatewayVersion]
  exact hfind

theorem markCommitted {rid : String} {r : Release} (h : d'.Numbered)
    (hr : d'.releases.lookup rid = some r) : (markCommitted rid r d').Numbered := by
  refine { h with releases := fun rid' r' hr' => ?_ }
  rcases Dict.lookup_insert_cases hr' with ⟨rfl, rfl⟩ | ⟨_, hold⟩
  · exact h.releases _ r hr
  · exact h.releases rid' r' hold

theorem committed {rid : String} (hc : Committed d rid d') (h : d.Numbered) : d'.Numbered := by
  cases hc with
  | again r _ _ => exact h
  | models r ms configuration hr _ _ hactive =>
    have hversion := (h.commit_models ms hr hactive).1
    refine markCommitted (r := r) ?_ hr
    exact { h with
      gateway := h.gateway.append hversion
      gatewayActive := by simp [hversion, lastNumber_succ] }
  | agent r a cfg files hr _ _ ha hactive =>
    have hnumbered := (h.commit_agent cfg files hr ha hactive).2.1
    refine markCommitted (r := r) ?_ hr
    refine { h with agents := fun aid a' ha' => ?_ }
    rcases Dict.lookup_insert_cases ha' with ⟨rfl, rfl⟩ | ⟨_, hold⟩
    · exact hnumbered
    · exact h.agents aid a' hold

theorem effect {env : Service.Environment} {c : Command} (he : Effect env d c d') (h : d.Numbered) :
    d'.Numbered := by
  cases he with
  | refused e _ => exact h
  | writes _ hw => exact hw.keep (fun _ _ hstep hd => write hstep hd) h
  | prepared rid r _ hr _ =>
    refine { h with releases := fun rid' r' hr' => ?_ }
    rcases Dict.lookup_insert_cases hr' with ⟨rfl, rfl⟩ | ⟨_, hold⟩
    · exact prepared hr h
    · exact h.releases rid' r' hold
  | committed hc => exact committed hc h

theorem initial (code data : String) : (Service.initial code data).store.data.Numbered where
  gateway := Library.Numbered.nil
  gatewayActive := rfl
  agents aid a ha := by simp [Service.initial] at ha
  releases rid r hr := by simp [Service.initial] at hr

end Document.Numbered

end OpencodeCloud.Catalog
