/-
# OpencodeCloud.Catalog.Histories -- version lists only grow

The versions of agents, resources and of the gateway are numbered 1, 2, 3, … in every state of the
catalog, and the active one is the last (`Document.Ordered`). An operation appends to these lists or
deletes an agent or a resource as a whole, and the id of a deleted agent is retired (`Document.Grows`), so
an entry stays what it was for as long as its agent or resource is there (`versions_ordered`).
-/
import OpencodeCloud.Catalog.References
import OpencodeCloud.Catalog.Releases

namespace OpencodeCloud.Catalog

open OpencodeCloud.Library

/-! ## §A Numbers of resources and retired ids -/

/-- The published versions of every resource are numbered, and a retired id names no agent. -/
structure Document.Filed (d : Document) : Prop where
  resources : ∀ rid r, d.resources.lookup rid = some r →
    Library.Numbered ResourceVersion.version r.versions
  retired : ∀ aid, (d.agentTombstones.lookup aid).isSome = true → d.agents.lookup aid = none

namespace Document.Filed

variable {d d' : Document}

theorem publishedFrom (h : d.Filed) {l : List ResourceVersion} (hl : PublishedFrom d l) :
    Library.Numbered ResourceVersion.version l := by
  cases hl with
  | nil => exact Library.Numbered.nil
  | copied rid r hr => exact h.resources rid r hr
  | published rid r v hr hv => exact (h.resources rid r hr).append hv

@[simp] theorem putDraft_agentTombstones (aid : String) (cfg : AgentConfig) (d : Document) :
    (putDraft aid cfg d).agentTombstones = d.agentTombstones := by
  unfold putDraft
  split <;> rfl

/-- Storing a draft touches no other agent. -/
theorem putDraft_other {aid i : String} (cfg : AgentConfig) (d : Document) (hne : i ≠ aid) :
    (putDraft aid cfg d).agents.lookup i = d.agents.lookup i := by
  unfold putDraft
  split <;> exact AList.lookup_insert_ne hne

theorem write (hw : Write d d') (h : d.Filed) : d'.Filed := by
  rcases hw with hput | hdrop
  · cases hput with
    | model mid m => exact ⟨h.resources, h.retired⟩
    | resource rid r _ hfrom =>
      refine ⟨fun rid' r' hr' => ?_, h.retired⟩
      rcases Dict.lookup_insert_cases hr' with ⟨rfl, rfl⟩ | ⟨_, hold⟩
      · exact h.publishedFrom hfrom
      · exact h.resources rid' r' hold
    | draft aid cfg _ hliving =>
      refine ⟨by simpa using h.resources, fun i hi => ?_⟩
      rw [putDraft_agentTombstones] at hi
      have hne : i ≠ aid := by
        rintro rfl
        rw [hliving] at hi
        exact absurd hi (by decide)
      rw [putDraft_other cfg d hne]
      exact h.retired i hi
    | lifecycle aid a l ha =>
      refine ⟨h.resources, fun i hi => ?_⟩
      have hne : i ≠ aid := by
        rintro rfl
        rw [h.retired i hi] at ha
        exact absurd ha (by simp)
      exact (AList.lookup_insert_ne hne).trans (h.retired i hi)
    | template tid t => exact ⟨h.resources, h.retired⟩
  · cases hdrop with
    | model mid _ => exact ⟨h.resources, h.retired⟩
    | resource rid _ =>
      exact ⟨fun rid' r' hr' => h.resources rid' r' (Dict.lookup_erase_cases hr').2, h.retired⟩
    | agent aid t =>
      refine ⟨fun rid r hr => h.resources rid r (Dict.lookup_filter.mp hr).1, fun i hi => ?_⟩
      by_cases hne : i = aid
      · rw [hne]
        exact AList.lookup_erase aid _
      · rw [AList.lookup_insert_ne hne] at hi
        exact (AList.lookup_erase_ne hne).trans (h.retired i hi)

theorem effect {env : Service.Environment} {c : Command} (he : Effect env d c d') (h : d.Filed) :
    d'.Filed := by
  cases he with
  | refused e _ => exact h
  | writes _ hw => exact hw.keep (fun _ _ hstep hd => write hstep hd) h
  | prepared rid r _ _ _ => exact ⟨h.resources, h.retired⟩
  | committed hc =>
    cases hc with
    | again r _ _ => exact h
    | models r ms configuration _ _ _ _ => exact ⟨h.resources, h.retired⟩
    | agent r a cfg files _ _ _ ha _ =>
      refine ⟨h.resources, fun i hi => ?_⟩
      have hold := h.retired i hi
      have hne : i ≠ r.target := by
        rintro rfl
        rw [ha] at hold
        exact absurd hold (by simp)
      exact (AList.lookup_insert_ne hne).trans hold

theorem initial (code data : String) : (Service.initial code data).store.data.Filed where
  resources rid r hr := by simp [Service.initial] at hr
  retired aid h := by simp [Service.initial] at h

end Document.Filed

/-! ## §B Growth -/

/-- No agent, resource or version is lost. -/
structure Document.Extends (d d' : Document) : Prop where
  gateway : d.gatewayVersions <+: d'.gatewayVersions
  agents : ∀ aid a, d.agents.lookup aid = some a →
    ∃ a', d'.agents.lookup aid = some a' ∧ a.versions <+: a'.versions
  resources : ∀ rid r, d.resources.lookup rid = some r →
    ∃ r', d'.resources.lookup rid = some r' ∧ r.versions <+: r'.versions
  retired : d'.agentTombstones = d.agentTombstones

/-- No version is lost but with its agent or resource; the id of a lost agent is retired. -/
structure Document.Grows (d d' : Document) : Prop where
  gateway : d.gatewayVersions <+: d'.gatewayVersions
  agents : ∀ aid a, d.agents.lookup aid = some a →
    (∃ a', d'.agents.lookup aid = some a' ∧ a.versions <+: a'.versions) ∨
      (d'.agentTombstones.lookup aid).isSome = true
  resources : ∀ rid r, d.resources.lookup rid = some r →
    (∃ r', d'.resources.lookup rid = some r' ∧ r.versions <+: r'.versions) ∨
      d'.resources.lookup rid = none
  retired : ∀ aid, (d.agentTombstones.lookup aid).isSome = true →
    (d'.agentTombstones.lookup aid).isSome = true

namespace Document.Extends

variable {d d' d'' : Document}

theorem refl (d : Document) : d.Extends d :=
  ⟨List.prefix_rfl, fun _ a ha => ⟨a, ha, List.prefix_rfl⟩,
    fun _ r hr => ⟨r, hr, List.prefix_rfl⟩, rfl⟩

theorem trans (h : d.Extends d') (h' : d'.Extends d'') : d.Extends d'' := by
  refine ⟨h.gateway.trans h'.gateway, fun aid a ha => ?_, fun rid r hr => ?_,
    h'.retired.trans h.retired⟩
  · obtain ⟨a', ha', hfirst⟩ := h.agents aid a ha
    obtain ⟨a'', ha'', hfirst'⟩ := h'.agents aid a' ha'
    exact ⟨a'', ha'', hfirst.trans hfirst'⟩
  · obtain ⟨r', hr', hfirst⟩ := h.resources rid r hr
    obtain ⟨r'', hr'', hfirst'⟩ := h'.resources rid r' hr'
    exact ⟨r'', hr'', hfirst.trans hfirst'⟩

theorem grows (h : d.Extends d') : d.Grows d' :=
  ⟨h.gateway, fun aid a ha => Or.inl (h.agents aid a ha),
    fun rid r hr => Or.inl (h.resources rid r hr), fun aid haid => by rw [h.retired]; exact haid⟩

/-- An agent is replaced by one with its versions, and perhaps more. -/
theorem of_agent {aid : String} {a a' : Agent} (ha : d.agents.lookup aid = some a)
    (hfirst : a.versions <+: a'.versions) :
    d.Extends { d with agents := d.agents.insert aid a' } := by
  refine ⟨List.prefix_rfl, fun i b hb => ?_, fun _ r hr => ⟨r, hr, List.prefix_rfl⟩, rfl⟩
  by_cases hi : i = aid
  · subst hi
    obtain rfl := Option.some.inj (ha.symm.trans hb)
    exact ⟨a', AList.lookup_insert _, hfirst⟩
  · exact ⟨b, by rw [AList.lookup_insert_ne hi]; exact hb, List.prefix_rfl⟩

theorem put (h : Put d d') : d.Extends d' := by
  cases h with
  | model mid m => exact { refl d with }
  | resource rid r hkeeps _ =>
    refine { refl d with resources := fun rid' r' hr' => ?_ }
    by_cases hid : rid' = rid
    · subst hid
      exact ⟨r, AList.lookup_insert _, (hkeeps r' hr').2⟩
    · exact ⟨r', by rw [AList.lookup_insert_ne hid]; exact hr', List.prefix_rfl⟩
  | draft aid cfg _ _ =>
    unfold putDraft
    split
    · next a ha => exact of_agent ha List.prefix_rfl
    · next hnone =>
      refine { refl d with agents := fun i b hb => ?_ }
      have hne : i ≠ aid := by
        rintro rfl
        rw [hnone] at hb
        exact absurd hb (by simp)
      exact ⟨b, by rw [AList.lookup_insert_ne hne]; exact hb, List.prefix_rfl⟩
  | lifecycle aid a l ha => exact of_agent ha List.prefix_rfl
  | template tid t => exact { refl d with }

end Document.Extends

namespace Document.Grows

variable {d d' : Document}

theorem drop (h : Drop d d') : d.Grows d' := by
  cases h with
  | model mid _ => exact { (Extends.refl d).grows with }
  | resource rid _ =>
    refine { (Extends.refl d).grows with resources := fun rid' r' hr' => ?_ }
    by_cases hid : rid' = rid
    · exact Or.inr (by rw [hid]; exact AList.lookup_erase rid _)
    · exact Or.inl ⟨r', by rw [AList.lookup_erase_ne hid]; exact hr', List.prefix_rfl⟩
  | agent aid t =>
    refine ⟨List.prefix_rfl, fun i a ha => ?_, fun rid r hr => ?_, fun i hi => ?_⟩
    · by_cases hid : i = aid
      · exact Or.inr (by rw [hid, AList.lookup_insert]; rfl)
      · exact Or.inl ⟨a, by rw [AList.lookup_erase_ne hid]; exact ha, List.prefix_rfl⟩
    · by_cases howner : (r.owner != some aid) = true
      · exact Or.inl ⟨r, Dict.lookup_filter.mpr ⟨hr, howner⟩, List.prefix_rfl⟩
      · refine Or.inr ?_
        cases hr' : (d.resources.filter fun _ r => r.owner != some aid).lookup rid with
        | none => rfl
        | some r' =>
          obtain ⟨hold, howner'⟩ := Dict.lookup_filter.mp hr'
          obtain rfl := Option.some.inj (hr.symm.trans hold)
          exact absurd howner' howner
    · by_cases hid : i = aid
      · rw [hid, AList.lookup_insert]
        rfl
      · rw [AList.lookup_insert_ne hid]
        exact hi

/-- **Every request lets the versions grow.** -/
theorem effect {env : Service.Environment} {c : Command} (he : Effect env d c d') : d.Grows d' := by
  cases he with
  | refused e _ => exact (Extends.refl d).grows
  | writes _ hw =>
    cases hw with
    | puts hputs =>
      refine Extends.grows (hputs.keep (I := fun x => d.Extends x) (fun _ _ hput hx => ?_) (.refl d))
      exact hx.trans (.put hput)
    | drop hdrop => exact drop hdrop
  | prepared rid r _ _ _ => exact { (Extends.refl d).grows with }
  | committed hc =>
    cases hc with
    | again r _ _ => exact (Extends.refl d).grows
    | models r ms configuration _ _ _ _ =>
      exact { (Extends.refl d).grows with gateway := List.prefix_append _ _ }
    | agent r a cfg files _ _ _ ha _ =>
      have hagent : d.Extends { d with agents := d.agents.insert r.target { a with
          versions := a.versions ++ [⟨r.version, cfg, files⟩], active := some r.version } } :=
        .of_agent ha (List.prefix_append _ _)
      exact { hagent.grows with }

end Document.Grows

/-! ## §C Runs -/

/-- The versions are numbered in order, and the active one is the last. -/
structure Document.Ordered (d : Document) : Prop where
  agents : ∀ aid a, d.agents.lookup aid = some a →
    Library.Numbered AgentVersion.version a.versions ∧ a.active = a.versions.getLast?.map (·.version)
  resources : ∀ rid r, d.resources.lookup rid = some r →
    Library.Numbered ResourceVersion.version r.versions
  gateway : Library.Numbered GatewayVersion.version d.gatewayVersions
  gatewayActive : d.gatewayActive = d.gatewayVersions.getLast?.map (·.version)

theorem Document.Ordered.of {d : Document} (hn : d.Numbered) (hf : d.Filed) : d.Ordered where
  agents aid a ha := by
    obtain ⟨hversions, hactive⟩ := hn.agents aid a ha
    exact ⟨hversions, by rw [hversions.getLast, hactive]⟩
  resources := hf.resources
  gateway := hn.gateway
  gatewayActive := by rw [hn.gateway.getLast, hn.gatewayActive]

section Runs

variable {env : Service.Environment} {s t : Service} {cs : List Command}

theorem filed_run (hf : s.store.data.Filed) (hrun : (catalog env).run s cs = some t) :
    t.store.data.Filed :=
  (catalog env).run_always (I := fun x => x.store.data.Filed)
    (fun _ _ _ hx hstep => Document.Filed.effect (step_effect hstep) hx) hf hrun

/-- What a run does to the agents and to the gateway: agents keep their versions or are retired. -/
theorem agents_run (hrun : (catalog env).run s cs = some t) :
    s.store.data.gatewayVersions <+: t.store.data.gatewayVersions ∧
    (∀ aid a, s.store.data.agents.lookup aid = some a →
      (∃ a', t.store.data.agents.lookup aid = some a' ∧ a.versions <+: a'.versions) ∨
        (t.store.data.agentTombstones.lookup aid).isSome = true) ∧
    ∀ aid, (s.store.data.agentTombstones.lookup aid).isSome = true →
      (t.store.data.agentTombstones.lookup aid).isSome = true := by
  induction cs generalizing s with
  | nil =>
    obtain rfl : s = t := by simpa using hrun
    exact ⟨List.prefix_rfl, fun _ a ha => Or.inl ⟨a, ha, List.prefix_rfl⟩, fun _ h => h⟩
  | cons c cs ih =>
    obtain ⟨u, hstep, hrest⟩ := (catalog env).run_cons_inv hrun
    obtain ⟨hgateway, hagents, hretired⟩ := ih hrest
    have hgrows := Document.Grows.effect (step_effect hstep)
    refine ⟨hgrows.gateway.trans hgateway, fun aid a ha => ?_,
      fun aid haid => hretired aid (hgrows.retired aid haid)⟩
    rcases hgrows.agents aid a ha with ⟨a', ha', hfirst⟩ | hgone
    · exact (hagents aid a' ha').imp_left fun ⟨a'', ha'', hfirst'⟩ =>
        ⟨a'', ha'', hfirst.trans hfirst'⟩
    · exact Or.inr (hretired aid hgone)

/-- A resource that is there throughout a run keeps its versions. -/
theorem resource_run (hrun : (catalog env).run s cs = some t) {rid : String} {r r' : Resource}
    (hthere : (catalog env).Throughout (fun x => rid ∈ x.store.data.resources) s cs)
    (hr : s.store.data.resources.lookup rid = some r)
    (hr' : t.store.data.resources.lookup rid = some r') : r.versions <+: r'.versions := by
  induction cs generalizing s r with
  | nil =>
    obtain rfl : s = t := by simpa using hrun
    obtain rfl := Option.some.inj (hr.symm.trans hr')
    exact List.prefix_rfl
  | cons c cs ih =>
    obtain ⟨u, hstep, hrest⟩ := (catalog env).run_cons_inv hrun
    have hnext := hthere.2 u hstep
    rcases (Document.Grows.effect (step_effect hstep)).resources rid r hr with
      ⟨r'', hr'', hfirst⟩ | hgone
    · exact hfirst.trans (ih hrest hnext hr'')
    · exact absurd hnext.start (AList.lookup_eq_none.mp hgone)

/-- **Versions are numbered in order and kept.** In every state of every run of the catalog the versions
of agents, resources and the gateway are numbered from 1 and the active one is the last; in every run
that goes on from there, the gateway, an agent, and a resource that is never deleted in between keep
their entries, and an agent that is gone does not come back. -/
theorem versions_ordered {code data : String}
    (hrun : (catalog env).run (Service.initial code data) cs = some t) :
    t.store.data.Ordered ∧
    ∀ ds u, (catalog env).run t ds = some u →
      t.store.data.gatewayVersions <+: u.store.data.gatewayVersions ∧
      (∀ aid a a', t.store.data.agents.lookup aid = some a →
        u.store.data.agents.lookup aid = some a' → a.versions <+: a'.versions) ∧
      (∀ rid r r', t.store.data.resources.lookup rid = some r →
        u.store.data.resources.lookup rid = some r' →
        (catalog env).Throughout (fun x => rid ∈ x.store.data.resources) t ds →
        r.versions <+: r'.versions) ∧
      ∀ aid ∈ t.store.data.agents, aid ∉ u.store.data.agents →
        ∀ es v, (catalog env).run u es = some v → aid ∉ v.store.data.agents := by
  have hnumbered : t.store.data.Numbered :=
    (catalog env).run_always (I := fun x => x.store.data.Numbered)
      (fun _ _ _ hx hstep => Document.Numbered.effect (step_effect hstep) hx)
      (Document.Numbered.initial code data) hrun
  have hfiled : t.store.data.Filed := filed_run (Document.Filed.initial code data) hrun
  refine ⟨.of hnumbered hfiled, fun ds u hds => ?_⟩
  obtain ⟨hgateway, hagents, _⟩ := agents_run hds
  have hu := filed_run hfiled hds
  refine ⟨hgateway, fun aid a a' ha ha' => ?_, fun rid r r' hr hr' hthere =>
    resource_run hds hthere hr hr', fun aid haid hgone es v hes => ?_⟩
  · rcases hagents aid a ha with ⟨a'', ha'', hfirst⟩ | hretired
    · obtain rfl := Option.some.inj (ha'.symm.trans ha'')
      exact hfirst
    · rw [hu.retired aid hretired] at ha'
      exact absurd ha' (by simp)
  · obtain ⟨a, ha⟩ := Option.isSome_iff_exists.mp (AList.lookup_isSome.mpr haid)
    rcases hagents aid a ha with ⟨a', ha', _⟩ | hretired
    · exact absurd (AList.lookup_isSome.mp (by rw [ha']; rfl)) hgone
    · obtain ⟨_, _, hkept⟩ := agents_run hes
      exact AList.lookup_eq_none.mp ((filed_run hu hes).retired aid (hkept aid hretired))

end Runs

/-- The catalog after a release that is committed while its model is there. -/
theorem versions_ordered_when_kept :
    ∃ t, (catalog plainEnvironment).run (Service.initial "" "") keptRun = some t ∧
      t.store.data.Ordered := by
  have hruns : ((catalog plainEnvironment).run (Service.initial "" "") keptRun).isSome = true := by
    decide
  obtain ⟨t, hrun⟩ := Option.isSome_iff_exists.mp hruns
  exact ⟨t, hrun, (versions_ordered hrun).1⟩

end OpencodeCloud.Catalog
