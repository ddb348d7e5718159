/-
# OpencodeCloud.Catalog.Writes -- what the catalog operations can do to the document

Every administrative operation is a sequence of a few kinds of additions and changes (`Put`) or one
deletion (`Drop`), each with the guard
under which the operations make it: a model is dropped only where no draft and no active version uses
it, a resource only where no draft, version or template binds it, a draft is stored only when it
validates. An invariant of the catalog is therefore proved once for each kind of write and once for
`prepare` and `commit` (`step_writes`), whatever operations there are.
-/
import OpencodeCloud.Catalog.Service
import Mathlib.Logic.Relation

namespace OpencodeCloud.Catalog

open OpencodeCloud.Library

/-! ## §A The kinds of writes -/

/-- A version number is published. -/
def Resource.publishes (r : Resource) (n : Nat) : Prop := ∃ v ∈ r.versions, v.version = n

/-- Where the published versions of a stored resource come from: they are those of a resource that is
there, or none, followed by at most one more under the next number. -/
inductive PublishedFrom (d : Document) : List ResourceVersion → Prop
  | nil : PublishedFrom d []
  | copied (rid : String) (r : Resource) (found : d.resources.lookup rid = some r) :
    PublishedFrom d r.versions
  | published (rid : String) (r : Resource) (v : ResourceVersion)
      (found : d.resources.lookup rid = some r) (next : v.version = r.versions.length + 1) :
    PublishedFrom d (r.versions ++ [v])

/-- A write of an administrative operation that adds or changes something. -/
inductive Put : Document → Document → Prop
  /-- a model is added or replaced -/
  | model (d : Document) (mid : String) (m : ModelDefinition) :
    Put d { d with models := d.models.insert mid m }
  /-- a resource is added or changed; its owner and its published versions stay -/
  | resource (d : Document) (rid : String) (r : Resource)
      (keeps : ∀ old, d.resources.lookup rid = some old →
        r.owner = old.owner ∧ old.versions <+: r.versions)
      (from_ : PublishedFrom d r.versions) :
    Put d { d with resources := d.resources.insert rid r }
  /-- a valid draft is stored, under an id that was not retired -/
  | draft (d : Document) (aid : String) (cfg : AgentConfig)
      (valid : validateAgent d aid cfg = .ok ()) (living : d.agentTombstones.lookup aid = none) :
    Put d (putDraft aid cfg d)
  /-- the lifecycle of an agent changes -/
  | lifecycle (d : Document) (aid : String) (a : Agent) (l : Lifecycle)
      (found : d.agents.lookup aid = some a) :
    Put d { d with agents := d.agents.insert aid { a with lifecycle := l } }
  /-- a template is added or changed -/
  | template (d : Document) (tid : String) (t : AgentTemplate) :
    Put d { d with agentTemplates := d.agentTemplates.insert tid t }

/-- A write of an administrative operation that deletes something. -/
inductive Drop : Document → Document → Prop
  /-- a model that no draft and no active version uses is deleted -/
  | model (d : Document) (mid : String)
      (unused : ∀ aid a, d.agents.lookup aid = some a → refersTo a mid false = false) :
    Drop d { d with models := d.models.erase mid }
  /-- a resource that no draft and no version binds is deleted -/
  | resource (d : Document) (rid : String)
      (unused : ∀ aid a, d.agents.lookup aid = some a → a.configs.any (·.binds rid) = false) :
    Drop d { d with resources := d.resources.erase rid }
  /-- an agent is deleted with the resources it owns, and its id retired -/
  | agent (d : Document) (aid : String) (t : Tombstone) :
    Drop d { d with
      resources := d.resources.filter fun _ r => r.owner != some aid
      agents := d.agents.erase aid
      agentTombstones := d.agentTombstones.insert aid t }

/-- A write of an administrative operation. -/
def Write (d d' : Document) : Prop := Put d d' ∨ Drop d d'

/-- Any number of additions and changes. -/
abbrev Puts : Document → Document → Prop := Relation.ReflTransGen Put

/-- The writes of one operation: additions and changes, or one deletion. -/
inductive Writes : Document → Document → Prop
  | puts {d d' : Document} (h : Puts d d') : Writes d d'
  | drop {d d' : Document} (h : Drop d d') : Writes d d'

/-- What every addition keeps, any number of them keep. -/
theorem Puts.keep {I : Document → Prop} (h : ∀ d d', Put d d' → I d → I d') {d d' : Document}
    (hw : Puts d d') (hd : I d) : I d' := by
  induction hw with
  | refl => exact hd
  | tail _ hstep ih => exact h _ _ hstep ih

/-- What every write keeps, an operation keeps. -/
theorem Writes.keep {I : Document → Prop} (h : ∀ d d', Write d d' → I d → I d') {d d' : Document}
    (hw : Writes d d') (hd : I d) : I d' := by
  cases hw with
  | puts hputs => exact hputs.keep (fun d d' hput => h d d' (Or.inl hput)) hd
  | drop hdrop => exact h _ _ (Or.inr hdrop) hd

/-- Every agent after a draft is stored: the one with the draft, or an old one. -/
theorem putDraft_lookup {d : Document} {aid i : String} {cfg : AgentConfig} {a' : Agent}
    (h : (putDraft aid cfg d).agents.lookup i = some a') :
    d.agents.lookup i = some a' ∨ i = aid ∧ a'.draft = cfg ∧
      ((a'.versions = [] ∧ a'.active = none) ∨ ∃ a, d.agents.lookup aid = some a ∧
        a'.versions = a.versions ∧ a'.active = a.active) := by
  unfold putDraft at h
  split at h
  · next a ha =>
    rcases Dict.lookup_insert_cases h with ⟨rfl, rfl⟩ | ⟨_, hold⟩
    · exact Or.inr ⟨rfl, rfl, Or.inr ⟨a, ha, rfl, rfl⟩⟩
    · exact Or.inl hold
  · rcases Dict.lookup_insert_cases h with ⟨rfl, rfl⟩ | ⟨_, hold⟩
    · exact Or.inr ⟨rfl, rfl, Or.inl ⟨rfl, rfl⟩⟩
    · exact Or.inl hold

/-! ## §B Models -/

section Models

variable {host : Host} {d d' : Document}

theorem saveModel_puts {mid : String} {value : ModelDefinition}
    (h : saveModel host mid value d = .ok d') : Puts d d' := by
  simp only [saveModel, bind_eq_ok] at h
  obtain ⟨_, _, _, _, _, _, _, _, h⟩ := h
  obtain rfl := Except.ok.inj h
  exact .single (.model d mid _)

theorem importModel_puts {replace : Bool} {seen : List String} {item : ModelDefinition}
    (h : importModel host replace seen item d = .ok d') : Puts d d' := by
  simp only [importModel, bind_eq_ok] at h
  obtain ⟨_, _, _, _, _, _, _, _, _, _, _, _, h⟩ := h
  obtain rfl := Except.ok.inj h
  exact .single (.model d _ _)

theorem importLoop_puts {replace : Bool} {items : List ModelDefinition} {seen : List String}
    (h : importLoop host replace seen items d = .ok d') : Puts d d' := by
  induction items generalizing seen d with
  | nil =>
    obtain rfl := Except.ok.inj h
    exact .refl
  | cons item items ih =>
    simp only [importLoop, bind_eq_ok] at h
    obtain ⟨next, hitem, hrest⟩ := h
    exact (importModel_puts hitem).trans (ih hrest)

theorem importModels_puts {items : List ModelDefinition} {replace : Bool}
    (h : importModels host items replace d = .ok d') : Puts d d' := by
  simp only [importModels, bind_eq_ok] at h
  obtain ⟨_, _, h⟩ := h
  exact importLoop_puts h

theorem deleteModel_drop {mid : String} (h : deleteModel mid d = .ok d') : Drop d d' := by
  simp only [deleteModel, bind_eq_ok, refuse_eq_ok, Bool.not_eq_false'] at h
  obtain ⟨_, _, _, hrefs, h⟩ := h
  obtain rfl := Except.ok.inj h
  exact .model d mid fun _ _ ha => Dict.eq_false_of_filter_isEmpty hrefs ha

end Models

/-! ## §C Resources -/

section Resources

variable {host : Host} {d d' : Document}

/-- A resource that is rebuilt from an old one, or new. -/
theorem putResource_puts {rid : String} {r : Resource}
    (h : ∀ old, d.resources.lookup rid = some old →
      r.owner = old.owner ∧ r.versions = old.versions)
    (hnew : d.resources.lookup rid = none → r.versions = []) :
    Puts d { d with resources := d.resources.insert rid r } := by
  refine .single (.resource d rid r (fun old hold => ?_) ?_)
  · obtain ⟨howner, hversions⟩ := h old hold
    exact ⟨howner, hversions ▸ List.prefix_rfl⟩
  · cases hr : d.resources.lookup rid with
    | none =>
      rw [hnew hr]
      exact .nil
    | some old =>
      rw [(h old hr).2]
      exact .copied rid old hr

/-- A resource under a new id, with the versions of another one. -/
theorem copiedResource_puts {source rid : String} {r r' : Resource}
    (hr : d.resources.lookup source = some r) (hnew : d.resources.lookup rid = none)
    (hversions : r'.versions = r.versions) :
    Puts d { d with resources := d.resources.insert rid r' } := by
  refine .single (.resource d rid r' (fun old hold => ?_) ?_)
  · rw [hnew] at hold
    exact absurd hold (by simp)
  · rw [hversions]
    exact .copied source r hr

theorem saveResource_puts {rid : String} {value : ResourceValue}
    (h : saveResource host rid value d = .ok d') : Puts d d' := by
  simp only [saveResource, bind_eq_ok] at h
  obtain ⟨_, _, _, _, _, _, _, _, _, _, draft, _, h⟩ := h
  obtain rfl := Except.ok.inj h
  refine putResource_puts (fun old hold => ?_) fun hnew => ?_
  · rw [hold]
    exact ⟨rfl, rfl⟩
  · rw [hnew]

theorem uploadSkill_puts {rid name description : String} {blobs : Dict String String}
    {owner : Option String} (h : uploadSkill rid name description blobs owner d = .ok d') :
    Puts d d' := by
  simp only [uploadSkill, bind_eq_ok] at h
  obtain ⟨_, _, _, _, _, _, h⟩ := h
  obtain rfl := Except.ok.inj h
  refine putResource_puts (fun old hold => ?_) fun hnew => ?_
  · rw [hold]
    exact ⟨rfl, rfl⟩
  · rw [hnew]

theorem publish_puts {rid : String} {original : ResourceDraft}
    {compiled : Option (Dict String String)} {n : Nat}
    (h : publish rid original compiled d = .ok (d', n)) : Puts d d' := by
  simp only [publish] at h
  split at h
  · exact absurd h (by simp [fail])
  · next r hr =>
    simp only [bind_eq_ok] at h
    obtain ⟨_, _, h⟩ := h
    obtain ⟨rfl, rfl⟩ := Prod.mk.inj (Except.ok.inj h)
    refine .single (.resource d rid _ (fun old hold => ?_) (.published rid r _ hr rfl))
    obtain rfl := Option.some.inj (hr.symm.trans hold)
    exact ⟨rfl, List.prefix_append _ _⟩

theorem copyResource_puts {source rid : String} {owner : Option String}
    (h : copyResource source rid owner d = .ok d') : Puts d d' := by
  simp only [copyResource, bind_eq_ok] at h
  obtain ⟨_, _, h⟩ := h
  split at h
  · exact absurd h (by simp [fail])
  · next r hr =>
    simp only [bind_eq_ok, refuse_eq_ok, Option.isSome_eq_false_iff,
      Option.isNone_iff_eq_none] at h
    obtain ⟨_, hnew, _, _, h⟩ := h
    obtain rfl := Except.ok.inj h
    exact copiedResource_puts hr hnew rfl

theorem resourceLifecycle_writes {rid : String} {action : ResourceAction}
    (h : resourceLifecycle rid action d = .ok d') : Writes d d' := by
  simp only [resourceLifecycle] at h
  split at h
  · exact absurd h (by simp [fail])
  · next r hr =>
    have hkeep : ∀ b, Writes d
        { d with resources := d.resources.insert rid { r with archived := b } } := by
      intro b
      refine .puts (putResource_puts (fun old hold => ?_) fun hnew => ?_)
      · obtain rfl := Option.some.inj (hr.symm.trans hold)
        exact ⟨rfl, rfl⟩
      · rw [hr] at hnew
        exact absurd hnew (by simp)
    cases action with
    | archive =>
      obtain rfl := Except.ok.inj h
      exact hkeep true
    | restore =>
      obtain rfl := Except.ok.inj h
      exact hkeep false
    | delete =>
      simp only [bind_eq_ok, refuse_eq_ok, Bool.not_eq_false'] at h
      obtain ⟨_, _, _, hrefs, h⟩ := h
      obtain rfl := Except.ok.inj h
      simp only [resourceReferences, List.isEmpty_iff, List.append_eq_nil_iff, List.map_eq_nil_iff]
        at hrefs
      exact .drop (.resource d rid fun _ _ ha =>
        Dict.eq_false_of_filter_isEmpty (List.isEmpty_iff.mpr hrefs.1) ha)

end Resources

/-! ## §D Agents -/

section Agents

variable {d d' : Document}

theorem saveAgent_puts {aid : String} {value : AgentConfig}
    (h : saveAgent aid value d = .ok d') : Puts d d' := by
  simp only [saveAgent, bind_eq_ok, refuse_eq_ok, Option.isSome_eq_false_iff,
    Option.isNone_iff_eq_none] at h
  obtain ⟨_, _, _, hliving, _, _, _, hvalid, h⟩ := h
  obtain rfl := Except.ok.inj h
  exact .single (.draft d aid value hvalid hliving)

/-- The resources that a copy makes are new. -/
theorem copyBindings_puts {source aid : String} {bs bs' : List Binding} {ids : List String}
    (hnodup : ids.Nodup) (hnew : ∀ id ∈ ids, d.resources.lookup id = none)
    (h : copyBindings source aid ids bs d = .ok (bs', d')) : Puts d d' := by
  induction bs generalizing ids d bs' with
  | nil =>
    obtain ⟨-, rfl⟩ := Prod.mk.inj (Except.ok.inj h)
    exact .refl
  | cons b bs ih =>
    simp only [copyBindings] at h
    split at h
    · exact absurd h (by simp [fail])
    · next r hr =>
      split at h
      · split at h
        · exact absurd h (by simp [fail])
        · next id rest =>
          simp only [bind_eq_ok, Prod.exists] at h
          obtain ⟨bs'', next, hrest, h⟩ := h
          obtain ⟨-, rfl⟩ := Prod.mk.inj (Except.ok.inj h)
          obtain ⟨hid, hrestNodup⟩ := List.nodup_cons.mp hnodup
          have hcopy : Puts d { d with
              resources := d.resources.insert id { r with id := id, owner := some aid } } :=
            copiedResource_puts hr (hnew id (by simp)) rfl
          refine hcopy.trans (ih hrestNodup (fun id' hid' => ?_) hrest)
          have hne : id' ≠ id := by
            rintro rfl
            exact hid hid'
          rw [AList.lookup_insert_ne hne]
          exact hnew id' (List.mem_cons_of_mem _ hid')
      · simp only [bind_eq_ok, Prod.exists] at h
        obtain ⟨bs'', next, hrest, h⟩ := h
        obtain ⟨-, rfl⟩ := Prod.mk.inj (Except.ok.inj h)
        exact ih hnodup hnew hrest

/-- Copying bindings retires nobody. -/
theorem copyBindings_tombstones {source aid : String} {bs bs' : List Binding} {ids : List String}
    (h : copyBindings source aid ids bs d = .ok (bs', d')) :
    d'.agentTombstones = d.agentTombstones := by
  induction bs generalizing ids d bs' with
  | nil =>
    obtain ⟨-, rfl⟩ := Prod.mk.inj (Except.ok.inj h)
    rfl
  | cons b bs ih =>
    simp only [copyBindings] at h
    split at h
    · exact absurd h (by simp [fail])
    · split at h
      · split at h
        · exact absurd h (by simp [fail])
        · simp only [bind_eq_ok, Prod.exists] at h
          obtain ⟨_, next, hrest, h⟩ := h
          obtain ⟨-, rfl⟩ := Prod.mk.inj (Except.ok.inj h)
          have hnext := ih hrest
          exact hnext
      · simp only [bind_eq_ok, Prod.exists] at h
        obtain ⟨_, next, hrest, h⟩ := h
        obtain ⟨-, rfl⟩ := Prod.mk.inj (Except.ok.inj h)
        exact ih hrest

theorem copyAgent_puts {source aid : String} {ids : List String} (hnodup : ids.Nodup)
    (hnew : ∀ id ∈ ids, d.resources.lookup id = none)
    (h : copyAgent source aid ids d = .ok d') : Puts d d' := by
  simp only [copyAgent, bind_eq_ok, refuse_eq_ok, Option.isSome_eq_false_iff,
    Option.isNone_iff_eq_none] at h
  obtain ⟨_, _, _, hliving, _, _, h⟩ := h
  split at h
  · exact absurd h (by simp [fail])
  · simp only [bind_eq_ok, Prod.exists] at h
    obtain ⟨_, _, bindings, next, hcopy, _, hvalid, h⟩ := h
    obtain rfl := Except.ok.inj h
    have hnext : next.agentTombstones.lookup aid = none := by
      rw [copyBindings_tombstones hcopy]
      exact hliving
    exact (copyBindings_puts hnodup hnew hcopy).tail (.draft next aid _ hvalid hnext)

theorem restoreTemplate_puts {tid aid : String} {models : Dict String String}
    {resources : Dict String Binding} (h : restoreTemplate tid aid models resources d = .ok d') :
    Puts d d' := by
  simp only [restoreTemplate, bind_eq_ok] at h
  obtain ⟨_, _, h⟩ := h
  split at h
  · exact absurd h (by simp [fail])
  · next t ht =>
    simp only [bind_eq_ok, refuse_eq_ok, Bool.or_eq_false_iff, Option.isSome_eq_false_iff,
      Option.isNone_iff_eq_none] at h
    obtain ⟨_, ⟨_, hliving⟩, _, _, _, hvalid, h⟩ := h
    obtain rfl := Except.ok.inj h
    have hput := Put.template (putDraft aid (restoredConfig t models resources) d) tid
      { t with lastRestored := some aid }
    refine (Relation.ReflTransGen.single (.draft d aid _ hvalid hliving)).tail ?_
    unfold putDraft at hput ⊢
    split at hput
    · exact hput
    · exact hput

theorem lifecycle_writes {fingerprint : Agent → Dict String Resource → String} {aid : String}
    {action : AgentAction} {requestId expected : Option String}
    (h : lifecycle fingerprint aid action requestId expected d = .ok d') : Writes d d' := by
  simp only [lifecycle] at h
  split at h
  · split at h
    · obtain rfl := Except.ok.inj h
      exact .puts .refl
    · exact absurd h (by simp [fail])
  · next a ha =>
    simp only [bind_eq_ok] at h
    obtain ⟨_, _, h⟩ := h
    cases action with
    | delete =>
      simp only [bind_eq_ok] at h
      obtain ⟨_, _, h⟩ := h
      obtain rfl := Except.ok.inj h
      exact .drop (.agent d aid _)
    | archive =>
      obtain rfl := Except.ok.inj h
      exact .puts (.single (.lifecycle d aid a _ ha))
    | restore =>
      obtain rfl := Except.ok.inj h
      exact .puts (.single (.lifecycle d aid a _ ha))
    | deleting =>
      obtain rfl := Except.ok.inj h
      exact .puts (.single (.lifecycle d aid a _ ha))

end Agents

/-! ## §E Imports -/

section Imports

variable {host : Host} {items : List ImportEntry} {d d' : Document}

theorem commitSelection_puts {seen : List (Bool × String)} {sel : Selection}
    (h : commitSelection host items seen sel d = .ok d') : Puts d d' := by
  simp only [commitSelection] at h
  split at h
  · exact absurd h (by simp [fail])
  · next entry _ =>
    simp only [bind_eq_ok] at h
    obtain ⟨_, _, _, _, _, _, h⟩ := h
    split at h
    · simp only [bind_eq_ok] at h
      obtain ⟨_, _, _, _, _, _, h⟩ := h
      obtain rfl := Except.ok.inj h
      exact .single (.model d _ _)
    · simp only [bind_eq_ok] at h
      obtain ⟨_, _, _, _, draft, _, h⟩ := h
      obtain rfl := Except.ok.inj h
      refine putResource_puts (fun old hold => ?_) fun hnew => ?_
      · rw [hold]
        exact ⟨rfl, rfl⟩
      · rw [hnew]

theorem commitLoop_puts {sels : List Selection} {seen : List (Bool × String)}
    (h : commitLoop host items seen sels d = .ok d') : Puts d d' := by
  induction sels generalizing seen d with
  | nil =>
    obtain rfl := Except.ok.inj h
    exact .refl
  | cons sel sels ih =>
    simp only [commitLoop, bind_eq_ok] at h
    obtain ⟨next, hsel, hrest⟩ := h
    exact (commitSelection_puts hsel).trans (ih hrest)

theorem addTemplates_puts {selections : List Selection}
    (ts : List (String × AgentTemplate)) (d : Document) :
    Puts d (addTemplates items selections ts d) := by
  induction ts generalizing d with
  | nil => exact .refl
  | cons t ts ih =>
    obtain ⟨tid, t⟩ := t
    exact .head (.template d tid _) (ih _)

theorem commitImport_puts {i : Import} {selections : List Selection} {ids : List String}
    (h : commitImport host i selections ids d = .ok d') : Puts d d' := by
  simp only [commitImport, bind_eq_ok] at h
  obtain ⟨_, _, next, hloop, h⟩ := h
  obtain rfl := Except.ok.inj h
  exact (commitLoop_puts hloop).trans (addTemplates_puts _ _)

end Imports

/-! ## §F Releases -/

/-- What `prepare` has checked of the release it stores. -/
inductive Prepared (host : Host) (d : Document) : Release → Prop
  | models (rid : String) (revision : Nat) (ms : Dict String ModelDefinition)
      (configuration : List GatewayEntry) (unused : modelUsers d ms = []) :
    Prepared host d ⟨rid, "*", d.gatewayVersions.length + 1, revision, d.gatewayActive,
      .models ms configuration, false⟩
  | agent (rid target : String) (revision : Nat) (a : Agent) (cfg : AgentConfig) (files : Files)
      (found : d.agents.lookup target = some a) (selected : cfg ∈ a.configs)
      (available : allEnabled (availableModels d) cfg.allowedModelIds = true)
      (compiled : compileAgent host d target cfg (a.versions.length + 1) = .ok files) :
    Prepared host d ⟨rid, target, a.versions.length + 1, revision, a.active, .agent cfg files, false⟩

theorem selectedConfig_mem {version : Option Nat} {a : Agent} {cfg : AgentConfig}
    (h : selectedConfig version a = .ok cfg) : cfg ∈ a.configs := by
  cases version with
  | none =>
    obtain rfl := Except.ok.inj h
    exact List.mem_cons_self
  | some n =>
    simp only [selectedConfig] at h
    split at h
    · exact absurd h (by simp [fail])
    · next v hv =>
      obtain rfl := Except.ok.inj h
      exact List.mem_cons_of_mem _ (List.mem_map_of_mem (List.mem_of_find?_eq_some hv))

theorem preparedRelease_eq_ok {host : Host} {rid : String} {request : PrepareRequest} {s : Store}
    {r : Release} (h : preparedRelease host rid request s = .ok r) :
    Prepared host s.data r ∧ r.releaseId = rid ∧ r.revision = s.revision := by
  simp only [preparedRelease] at h
  split at h
  · simp only [prepareModels, bind_eq_ok, refuse_eq_ok, Bool.not_eq_false', List.isEmpty_iff] at h
    obtain ⟨ms, _, _, hunused, configuration, _, h⟩ := h
    obtain rfl := Except.ok.inj h
    exact ⟨.models rid s.revision ms configuration hunused, rfl, rfl⟩
  · next target _ =>
    simp only [prepareAgent, bind_eq_ok] at h
    obtain ⟨_, _, h⟩ := h
    split at h
    · exact absurd h (by simp [fail])
    · next a ha =>
      simp only [bind_eq_ok, refuse_eq_ok, Bool.not_eq_false'] at h
      obtain ⟨_, _, cfg, hcfg, _, havailable, files, hfiles, h⟩ := h
      obtain rfl := Except.ok.inj h
      exact ⟨.agent rid target s.revision a cfg files ha (selectedConfig_mem hcfg) havailable hfiles,
        rfl, rfl⟩

theorem prepare_eq_ok {host : Host} {rid : String} {request : PrepareRequest} {s t : Store}
    {r : Release} (h : prepare host rid request s = .ok (t, r)) :
    Prepared host s.data r ∧ r.releaseId = rid ∧ r.revision = s.revision ∧
      t = ⟨s.revision + 1, { s.data with releases := s.data.releases.insert rid r }⟩ := by
  simp only [prepare, Store.edit, bind_eq_ok] at h
  obtain ⟨_, _, release, hrelease, _, _, next, hnext, h⟩ := h
  obtain rfl := Except.ok.inj hnext
  obtain ⟨rfl, rfl⟩ := Prod.mk.inj (Except.ok.inj h)
  obtain ⟨hp, hid, hrev⟩ := preparedRelease_eq_ok hrelease
  exact ⟨hp, hid, hrev, rfl⟩

/-- What `commit` does. -/
inductive Committed (d : Document) (rid : String) : Document → Prop
  /-- it was committed before -/
  | again (r : Release) (found : d.releases.lookup rid = some r) (committed : r.committed = true) :
    Committed d rid d
  | models (r : Release) (ms : Dict String ModelDefinition) (configuration : List GatewayEntry)
      (found : d.releases.lookup rid = some r) (uncommitted : r.committed = false)
      (content : r.content = .models ms configuration) (active : d.gatewayActive = r.oldActive) :
    Committed d rid (markCommitted rid r { d with
      gatewayVersions := d.gatewayVersions ++ [⟨r.version, ms⟩]
      gatewayActive := some r.version })
  | agent (r : Release) (a : Agent) (cfg : AgentConfig) (files : Files)
      (found : d.releases.lookup rid = some r) (uncommitted : r.committed = false)
      (content : r.content = .agent cfg files) (target : d.agents.lookup r.target = some a)
      (active : a.active = r.oldActive) :
    Committed d rid (markCommitted rid r { d with
      agents := d.agents.insert r.target { a with
        versions := a.versions ++ [⟨r.version, cfg, files⟩]
        active := some r.version } })

theorem commitBody_eq_ok {rid : String} {d d' : Document} {n : Nat}
    (h : commitBody rid d = .ok (d', n)) : Committed d rid d' := by
  simp only [commitBody] at h
  split at h
  · exact absurd h (by simp [fail])
  · next r hr =>
    split at h
    · next hc =>
      obtain ⟨rfl, rfl⟩ := Prod.mk.inj (Except.ok.inj h)
      exact .again r hr hc
    · next hc =>
      rw [Bool.not_eq_true] at hc
      split at h
      · next ms configuration hcontent =>
        simp only [bind_eq_ok, refuse_eq_ok, bne_eq_false_iff_eq] at h
        obtain ⟨_, hactive, h⟩ := h
        obtain ⟨rfl, rfl⟩ := Prod.mk.inj (Except.ok.inj h)
        exact .models r ms configuration hr hc hcontent hactive
      · next cfg files hcontent =>
        split at h
        · exact absurd h (by simp [fail])
        · next a ha =>
          simp only [bind_eq_ok, refuse_eq_ok, bne_eq_false_iff_eq] at h
          obtain ⟨_, hactive, h⟩ := h
          obtain ⟨rfl, rfl⟩ := Prod.mk.inj (Except.ok.inj h)
          exact .agent r a cfg files hr hc hcontent ha hactive

theorem commit_eq_ok {rid : String} {s t : Store} {n : Nat} (h : commit rid s = .ok (t, n)) :
    Committed s.data rid t.data ∧ t.revision = s.revision + 1 := by
  simp only [commit, Store.edit, bind_eq_ok] at h
  obtain ⟨_, _, ⟨d, m⟩, hbody, h⟩ := h
  obtain ⟨rfl, rfl⟩ := Prod.mk.inj (Except.ok.inj h)
  exact ⟨commitBody_eq_ok hbody, rfl⟩

/-! ## §G One request -/

/-- What a request can do to the document. -/
inductive Effect (env : Service.Environment) (d : Document) : Command → Document → Prop
  | writes {c : Command} {d' : Document} (other : ∀ rid, c ≠ .commit rid) (h : Writes d d') :
    Effect env d c d'
  | prepared {request : PrepareRequest} (rid : String) (r : Release)
      (fresh : d.releases.lookup rid = none) (h : Prepared env.host d r) (id : r.releaseId = rid) :
    Effect env d (.prepare rid request) { d with releases := d.releases.insert rid r }
  | committed {rid : String} {d' : Document} (h : Committed d rid d') :
    Effect env d (.commit rid) d'
  /-- a commit that fails -/
  | refused {rid : String} (e : Failure) (h : commitBody rid d = .error e) :
    Effect env d (.commit rid) d

theorem editing_eq_ok {s t : Service} {expected : Option Nat} {body : Document → Result Document}
    (h : s.editing expected body = .ok t) : body s.store.data = .ok t.store.data := by
  simp only [Service.editing, Store.edit, bind_eq_ok] at h
  obtain ⟨⟨store, _⟩, ⟨_, _, ⟨d, _⟩, ⟨d', hbody, hd⟩, hstore⟩, h⟩ := h
  obtain ⟨rfl, -⟩ := Prod.mk.inj (Except.ok.inj hd)
  obtain ⟨rfl, -⟩ := Prod.mk.inj (Except.ok.inj hstore)
  obtain rfl := Except.ok.inj h
  exact hbody

theorem commitPreview_puts {host : Host} {s t : Service} {id : String}
    {selections : List Selection} {ids : List String}
    (h : s.commitPreview host id selections ids = .ok t) : Puts s.store.data t.store.data := by
  simp only [Service.commitPreview] at h
  split at h
  · exact absurd h (by simp [fail])
  · split at h
    · simp only [bind_eq_ok] at h
      obtain ⟨_, _, h⟩ := h
      obtain rfl := Except.ok.inj h
      exact .refl
    · simp only [bind_eq_ok] at h
      obtain ⟨_, _, d, hd, h⟩ := h
      obtain rfl := Except.ok.inj h
      exact commitImport_puts hd

theorem commit_eq_error {rid : String} {s : Store} (h : ∀ t n, commit rid s ≠ .ok (t, n)) :
    ∃ e, commitBody rid s.data = .error e := by
  cases hbody : commitBody rid s.data with
  | error e => exact ⟨e, rfl⟩
  | ok x =>
    refine absurd ?_ (h ⟨s.revision + 1, x.1⟩ x.2)
    simp [commit, Store.edit, hbody, refuse, bind, Except.bind, pure, Except.pure]

theorem handle_commit_error {env : Service.Environment} {s : Service} {rid : String} {e : Failure}
    (h : s.handle env (.commit rid) = .error e) : ∀ t n, commit rid s.store ≠ .ok (t, n) := by
  intro t n hok
  simp [Service.handle, hok, bind, Except.bind, pure, Except.pure] at h

/-- **The step lemma of the catalog.** A request is a sequence of writes, a prepare or a commit. -/
theorem step_effect {env : Service.Environment} {s t : Service} {c : Command}
    (h : (catalog env).step s c = some t) : Effect env s.store.data c t.store.data := by
  simp only [catalog, Service.step] at h
  split at h
  · next hfresh =>
    split at h
    · next t' hhandle =>
      obtain rfl := Option.some.inj h
      cases c with
      | saveModel mid value revision => exact .writes (by simp) (.puts (saveModel_puts (editing_eq_ok hhandle)))
      | importModels items replace revision =>
        exact .writes (by simp) (.puts (importModels_puts (editing_eq_ok hhandle)))
      | deleteModel mid revision => exact .writes (by simp) (.drop (deleteModel_drop (editing_eq_ok hhandle)))
      | saveAgent aid value revision => exact .writes (by simp) (.puts (saveAgent_puts (editing_eq_ok hhandle)))
      | saveBindings aid draft write revision =>
        exact .writes (by simp) (.puts (saveAgent_puts (editing_eq_ok hhandle)))
      | copyAgent source aid ids revision =>
        simp only [Command.fresh, Bool.and_eq_true, decide_eq_true_eq, List.all_eq_true,
          Option.isNone_iff_eq_none] at hfresh
        exact .writes (by simp) (.puts (copyAgent_puts hfresh.1 hfresh.2 (editing_eq_ok hhandle)))
      | saveResource rid value revision =>
        exact .writes (by simp) (.puts (saveResource_puts (editing_eq_ok hhandle)))
      | uploadSkill rid name description blobs owner revision =>
        exact .writes (by simp) (.puts (uploadSkill_puts (editing_eq_ok hhandle)))
      | publish rid original compiled =>
        have hbody := editing_eq_ok hhandle
        simp only [bind_eq_ok, Prod.exists] at hbody
        obtain ⟨d', n, hpublish, hd⟩ := hbody
        obtain rfl := Except.ok.inj hd
        exact .writes (by simp) (.puts (publish_puts hpublish))
      | copyResource source rid owner revision =>
        exact .writes (by simp) (.puts (copyResource_puts (editing_eq_ok hhandle)))
      | resourceLifecycle rid action revision =>
        exact .writes (by simp) (resourceLifecycle_writes (editing_eq_ok hhandle))
      | restoreTemplate tid aid models resources =>
        exact .writes (by simp) (.puts (restoreTemplate_puts (editing_eq_ok hhandle)))
      | importPreview id items templates =>
        obtain rfl := Except.ok.inj hhandle
        exact .writes (by simp) (.puts .refl)
      | importExpire id =>
        obtain rfl := Except.ok.inj hhandle
        exact .writes (by simp) (.puts .refl)
      | importCommit id selections ids => exact .writes (by simp) (.puts (commitPreview_puts hhandle))
      | lifecycle aid action requestId fingerprint revision =>
        exact .writes (by simp) (lifecycle_writes (editing_eq_ok hhandle))
      | prepare rid request =>
        simp only [Service.handle, bind_eq_ok, Prod.exists] at hhandle
        obtain ⟨store, r, hprepare, ht⟩ := hhandle
        obtain rfl := Except.ok.inj ht
        obtain ⟨hp, hid, _, rfl⟩ := prepare_eq_ok hprepare
        exact .prepared rid r (by simpa [Command.fresh] using hfresh) hp hid
      | commit rid =>
        simp only [Service.handle, bind_eq_ok, Prod.exists] at hhandle
        obtain ⟨store, n, hcommit, ht⟩ := hhandle
        obtain rfl := Except.ok.inj ht
        exact .committed (commit_eq_ok hcommit).1
    · next e hhandle =>
      obtain rfl := Option.some.inj h
      by_cases hc : ∃ rid, c = .commit rid
      · obtain ⟨rid, rfl⟩ := hc
        obtain ⟨e', he'⟩ := commit_eq_error (handle_commit_error hhandle)
        exact .refused e' he'
      · exact .writes (fun rid hr => hc ⟨rid, hr⟩) (.puts .refl)
  · exact absurd h (by simp)

end OpencodeCloud.Catalog
