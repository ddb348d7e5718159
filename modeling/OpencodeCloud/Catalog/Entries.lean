/-
# OpencodeCloud.Catalog.Entries -- what the gateway configuration of a catalog consists of

The entries of a model all carry its id as their name and its parameters; their identifiers follow one of
three schemes, depending on how the model has its accounts (`entryIds`). A configuration is the entries of
all models, one after another (`gatewayConfiguration_ids`).
-/
import OpencodeCloud.Catalog.Models
import OpencodeCloud.Library.Checks

namespace OpencodeCloud.Catalog

open OpencodeCloud.Library

theorem reject_eq_ok {bad : Bool} {message : String} {u : Unit} :
    reject bad message = .ok u ↔ bad = false := by
  cases bad <;> simp [reject]

theorem required_eq_ok {α : Type} {value : Option α} {message : String} {a : α} :
    required value message = .ok a ↔ value = some a := by
  cases value <;> simp [required]

theorem orFail_eq_ok {α : Type} {x : Checked α} {a : α} : orFail x = .ok a ↔ x = .ok a := by
  cases x <;> simp [orFail, fail]

/-- The models were accepted by `validate_model`. -/
def Validated (host : Host) (models : Dict String ModelDefinition) : Prop :=
  ∀ mid m, models.lookup mid = some m → validateModel host m = .ok ()

/-! ## Identifiers -/

/-- The identifier of the only account of a model, or of one of its additional endpoints. -/
def singleId (mid : String) (index : Nat) : String :=
  if index == 0 then mid else mid ++ "-extra-" ++ toString index

/-- The identifier of an account that the model lists. -/
def accountId (mid did : String) : String := mid ++ ":" ++ did

/-- The identifier of an entry of a legacy model. -/
def legacyId (mid : String) (index : Nat) : String := mid ++ "-" ++ toString index

/-- The identifiers of the entries of a model. -/
def entryIds (m : ModelDefinition) : List String :=
  if !m.enabled then []
  else if m.legacy then [legacyId m.id 1, legacyId m.id 2]
  else if m.deployments.isEmpty then
    (List.range (m.additionalBaseUrls.length + 1)).map (singleId m.id)
  else (m.deployments.filter (·.enabled)).map fun d => accountId m.id d.id

/-! ## The entries of one model -/

section Host

variable {host : Host} {model : ModelDefinition} {pre upstream : String} {explicit rc : Bool}

/-- The entry of an account. -/
structure EntryOf (model : ModelDefinition) (explicit : Bool) (index : Nat) (did : String)
    (e : GatewayEntry) : Prop where
  modelName : e.modelName = model.id
  parameters : e.parameters = model.parameters
  id : e.id = if explicit then accountId model.id did else singleId model.id index

/-- **What becomes of an account**: an entry, if it is enabled. -/
theorem deploymentEntry_eq_ok {index : Nat} {d : ModelDeployment} {o : Option GatewayEntry}
    (h : deploymentEntry host model pre upstream explicit rc index d = .ok o) :
    d.enabled = false ∧ o = none ∨
      d.enabled = true ∧ ∃ e, o = some e ∧ EntryOf model explicit index d.id e := by
  simp only [deploymentEntry, except_bind_eq_ok, reject_eq_ok, required_eq_ok] at h
  obtain ⟨base, -, _, -, key, -, _, -, _, -, _, -, _, -, h⟩ := h
  cases henabled : d.enabled with
  | false =>
    rw [henabled] at h
    exact .inl ⟨rfl, (Except.ok.inj h).symm⟩
  | true =>
    simp only [henabled, Bool.not_true, Bool.false_eq_true, if_false, except_bind_eq_ok] at h
    obtain ⟨_, -, h⟩ := h
    refine .inr ⟨rfl, _, (Except.ok.inj h).symm, rfl, rfl, ?_⟩
    cases explicit <;> rfl

/-- The identifiers of the enabled ones of these accounts, the first of which has this number. -/
def loopIds (mid : String) (explicit : Bool) : Nat → List ModelDeployment → List String
  | _, [] => []
  | index, d :: ds =>
    (if d.enabled then [if explicit then accountId mid d.id else singleId mid index] else []) ++
      loopIds mid explicit (index + 1) ds

/-- Every entry has the model's name and parameters. -/
def OfModel (model : ModelDefinition) (es : List GatewayEntry) : Prop :=
  ∀ e ∈ es, e.modelName = model.id ∧
    (e.parameters = model.parameters ∨ e.parameters = ∅)

/-- **What the loop over the accounts gives**, when it raises nothing. -/
theorem deploymentLoop_eq_ok {seen : List String} {index : Nat} {ds : List ModelDeployment}
    {es : List GatewayEntry}
    (h : deploymentLoop host model pre upstream explicit rc seen index ds = .ok es) :
    (∀ d ∈ ds, isIdentifier d.id = true ∧ d.id ∉ seen) ∧ (ds.map (·.id)).Nodup ∧
      es.map (·.id) = loopIds model.id explicit index ds ∧ OfModel model es := by
  induction ds generalizing seen index es with
  | nil =>
    obtain rfl := Except.ok.inj h
    exact ⟨nofun, List.nodup_nil, rfl, nofun⟩
  | cons d ds ih =>
    simp only [deploymentLoop, except_bind_eq_ok, reject_eq_ok] at h
    obtain ⟨_, hid, o, ho, rest, hrest, h⟩ := h
    obtain rfl := Except.ok.inj h
    obtain ⟨hids, hnodup, hentries, hof⟩ := ih hrest
    simp only [Bool.or_eq_false_iff, Bool.not_eq_false', List.contains_eq_mem,
      decide_eq_false_iff_not] at hid
    have hnew : d.id ∉ ds.map (·.id) := by
      intro hmem
      obtain ⟨d', hd', heq⟩ := List.mem_map.mp hmem
      exact (hids d' hd').2 (heq ▸ List.mem_cons_self)
    refine ⟨?_, List.nodup_cons.mpr ⟨hnew, hnodup⟩, ?_, ?_⟩
    · intro d' hd'
      rcases List.mem_cons.mp hd' with rfl | hd'
      · exact hid
      · exact ⟨(hids d' hd').1, fun hmem => (hids d' hd').2 (List.mem_cons_of_mem _ hmem)⟩
    · rw [List.map_append, hentries, loopIds]
      rcases deploymentEntry_eq_ok ho with ⟨hoff, rfl⟩ | ⟨hon, e, rfl, he⟩
      · simp [hoff]
      · simp [hon, he.id]
    · intro e he
      rcases List.mem_append.mp he with he | he
      · rcases deploymentEntry_eq_ok ho with ⟨-, rfl⟩ | ⟨-, e', rfl, he'⟩
        · simp at he
        · obtain rfl : e = e' := by simpa using he
          exact ⟨he'.modelName, .inl he'.parameters⟩
      · exact hof e he

theorem loopIds_explicit (mid : String) (index : Nat) (ds : List ModelDeployment) :
    loopIds mid true index ds = (ds.filter (·.enabled)).map fun d => accountId mid d.id := by
  induction ds generalizing index with
  | nil => rfl
  | cons d ds ih =>
    rw [loopIds, ih]
    cases hd : d.enabled <;> simp [hd]

theorem loopIds_single (mid : String) (index : Nat) {ds : List ModelDeployment}
    (h : ∀ d ∈ ds, d.enabled = true) :
    loopIds mid false index ds = (List.range' index ds.length).map (singleId mid) := by
  induction ds generalizing index with
  | nil => rfl
  | cons d ds ih =>
    rw [loopIds, ih _ fun d' hd' => h d' (List.mem_cons_of_mem _ hd'), h d List.mem_cons_self,
      List.length_cons, List.range'_succ]
    rfl

theorem impliedDeployments_enabled {d : ModelDeployment} (h : d ∈ impliedDeployments model) :
    d.enabled = true := by
  rcases List.mem_cons.mp h with rfl | h
  · rfl
  · obtain ⟨i, hi, rfl⟩ := List.mem_mapIdx.mp h
    rfl

/-- What a model with accounts of its own has, when its entries are made. -/
structure Accounts (model : ModelDefinition) : Prop where
  named : model.id ≠ ""
  ids : ∀ d ∈ model.deployments, isIdentifier d.id = true
  nodup : (model.deployments.map (·.id)).Nodup

theorem deploymentEntries_eq_ok {es : List GatewayEntry}
    (h : deploymentEntries host model rc = .ok es) :
    Accounts model ∧ OfModel model es ∧
      es.map (·.id) = if model.deployments.isEmpty then
        (List.range (model.additionalBaseUrls.length + 1)).map (singleId model.id)
      else (model.deployments.filter (·.enabled)).map fun d => accountId model.id d.id := by
  simp only [deploymentEntries, except_bind_eq_ok, reject_eq_ok, required_eq_ok] at h
  obtain ⟨pre, -, _, hid, _, -, _, -, es', hloop, _, -, h⟩ := h
  obtain rfl := Except.ok.inj h
  have hnamed : model.id ≠ "" := by
    simp only [Bool.or_eq_false_iff, beq_eq_false_iff_ne] at hid
    exact hid.1
  obtain ⟨hids, hnodup, hentries, hof⟩ := deploymentLoop_eq_ok hloop
  cases hempty : model.deployments.isEmpty with
  | true =>
    rw [hempty] at hids hnodup hentries
    have hnone := List.isEmpty_iff.mp hempty
    refine ⟨⟨hnamed, by simp [hnone], by simp [hnone]⟩, hof, ?_⟩
    rw [hentries]
    simp only [Bool.not_true, Bool.false_eq_true, if_false, if_true]
    rw [loopIds_single model.id 0 fun d hd => impliedDeployments_enabled hd, List.range_eq_range']
    simp [impliedDeployments]
  | false =>
    rw [hempty] at hids hnodup hentries
    refine ⟨⟨hnamed, fun d hd => (hids d hd).1, hnodup⟩, hof, ?_⟩
    rw [hentries]
    exact loopIds_explicit model.id 0 model.deployments

theorem legacyEntry_eq_ok {mid : String} {index : Nat} {e : GatewayEntry}
    (h : legacyEntry host mid index = .ok e) :
    e.modelName = mid ∧ e.parameters = ∅ ∧ e.id = legacyId mid index := by
  simp only [legacyEntry, bind_eq_ok] at h
  obtain ⟨m, -, b, -, k, -, h⟩ := h
  obtain rfl := Except.ok.inj h
  exact ⟨rfl, rfl, rfl⟩

/-- **What a model contributes to the configuration.** -/
theorem gatewayEntries_eq_ok {es : List GatewayEntry} (h : gatewayEntries host rc model = .ok es) :
    es.map (·.id) = entryIds model ∧ OfModel model es ∧
      (model.enabled = true → model.legacy = false → Accounts model) := by
  unfold gatewayEntries at h
  cases henabled : model.enabled with
  | false =>
    rw [henabled] at h
    obtain rfl := Except.ok.inj h
    exact ⟨by simp [entryIds, henabled], nofun, nofun⟩
  | true =>
    cases hlegacy : model.legacy with
    | true =>
      simp only [henabled, hlegacy, Bool.not_true, Bool.false_eq_true, if_false, if_true,
        bind_eq_ok] at h
      obtain ⟨_, -, first, hfirst, second, hsecond, h⟩ := h
      obtain rfl := Except.ok.inj h
      obtain ⟨hname, hparams, hid⟩ := legacyEntry_eq_ok hfirst
      obtain ⟨hname', hparams', hid'⟩ := legacyEntry_eq_ok hsecond
      refine ⟨by simp [entryIds, henabled, hlegacy, hid, hid'], ?_, fun _ h => nomatch h⟩
      intro e he
      rcases List.mem_cons.mp he with rfl | he
      · exact ⟨hname, .inr hparams⟩
      · obtain rfl := List.mem_singleton.mp he
        exact ⟨hname', .inr hparams'⟩
    | false =>
      simp only [henabled, hlegacy, Bool.not_true, Bool.false_eq_true, if_false, orFail_eq_ok] at h
      obtain ⟨haccounts, hof, hids⟩ := deploymentEntries_eq_ok h
      exact ⟨by simpa [entryIds, henabled, hlegacy] using hids, hof, fun _ _ => haccounts⟩

/-! ## The configuration -/

variable {models : Dict String ModelDefinition} {entries : List GatewayEntry}

/-- The configuration is made of the entries of the models, in their order. -/
theorem gatewayConfiguration_eq_ok (h : gatewayConfiguration host models rc = .ok entries) :
    ∃ ess, List.Forall₂ (fun e es => gatewayEntries host rc e.2 = .ok es) models.entries ess ∧
      entries = ess.flatten := by
  simp only [gatewayConfiguration, bind_eq_ok] at h
  obtain ⟨ess, hess, h⟩ := h
  exact ⟨ess, mapM_eq_ok.mp hess, (Except.ok.inj h).symm⟩

/-- An entry of the configuration is one of a model. -/
theorem mem_gatewayConfiguration (h : gatewayConfiguration host models rc = .ok entries)
    {e : GatewayEntry} (he : e ∈ entries) :
    ∃ mid m es, models.lookup mid = some m ∧ gatewayEntries host rc m = .ok es ∧ e ∈ es := by
  obtain ⟨ess, hess, rfl⟩ := gatewayConfiguration_eq_ok h
  obtain ⟨es, hes, hmem⟩ := List.mem_flatten.mp he
  obtain ⟨i, hi⟩ := List.getElem?_of_mem hes
  obtain ⟨hlt, hget⟩ := List.getElem?_eq_some_iff.mp hi
  have hlen := hess.length_eq
  have hlt' : i < models.entries.length := by omega
  have hmodel := (List.forall₂_iff_get.mp hess).2 i hlt' hlt
  simp only [List.get_eq_getElem, hget] at hmodel
  exact ⟨_, _, es, Dict.mem_entries_iff.mp (List.getElem_mem hlt'), hmodel, hmem⟩

/-- The identifiers of the configuration. -/
theorem gatewayConfiguration_ids (h : gatewayConfiguration host models rc = .ok entries) :
    entries.map (·.id) = (models.entries.map fun e => entryIds e.2).flatten := by
  obtain ⟨ess, hess, rfl⟩ := gatewayConfiguration_eq_ok h
  rw [List.map_flatten]
  congr 1
  clear h
  generalize models.entries = l at hess
  induction hess with
  | nil => rfl
  | cons hes _ ih => rw [List.map_cons, List.map_cons, (gatewayEntries_eq_ok hes).1, ih]

end Host

end OpencodeCloud.Catalog
