/-
# OpencodeCloud.Platform.Publishable -- which catalogs the gateway accepts

The models of a catalog are validated one by one; the gateway checks the entries of all of them. The
identifiers of the entries follow three schemes, and only one of them has a separator that no id of a model
contains. So models that are all valid can have entries with one identifier (`clashing_models`): a model
whose id is that of another one with `-extra-1`, `-1` or `-2` behind it.

**That is all that can go wrong**, but for the number of entries (`publishable_iff`).
-/
import Mathlib
import OpencodeCloud.Catalog.Entries
import OpencodeCloud.Catalog.References
import OpencodeCloud.Library.Naming
import OpencodeCloud.Platform.Configuration

namespace OpencodeCloud.Platform

open OpencodeCloud.Library OpencodeCloud.Catalog

/-! ## Clashes -/

/-- How a model has its accounts. -/
inductive AccountKind
  | disabled
  /-- two entries, from the environment of the original deployment -/
  | legacy
  /-- one key, for one endpoint or several -/
  | single
  /-- accounts of its own -/
  | listed
  deriving DecidableEq

def kind (m : ModelDefinition) : AccountKind :=
  if !m.enabled then .disabled
  else if m.legacy then .legacy
  else if m.deployments.isEmpty then .single
  else .listed

theorem kind_listed {m : ModelDefinition} (h : kind m = .listed) :
    m.enabled = true ∧ m.legacy = false := by
  cases henabled : m.enabled with
  | false => simp [kind, henabled] at h
  | true =>
    cases hlegacy : m.legacy with
    | true => simp [kind, henabled, hlegacy] at h
    | false => exact ⟨rfl, rfl⟩

/-- An entry of `a` and one of `b` have one identifier. -/
inductive Clash (a b : ModelDefinition) : Prop
  /-- an additional endpoint of `a` is called like `b` -/
  | endpoint (i : Nat) (ha : kind a = .single) (hb : kind b = .single)
      (hi : i < a.additionalBaseUrls.length) (hid : b.id = a.id ++ "-extra-" ++ toString (i + 1))
  /-- an entry of the legacy model `a` is called like `b` -/
  | legacy (i : Nat) (ha : kind a = .legacy) (hb : kind b = .single) (hi : i = 1 ∨ i = 2)
      (hid : b.id = a.id ++ "-" ++ toString i)
  /-- an entry of the legacy model `a` is called like an additional endpoint of `b` -/
  | legacyEndpoint (ha : kind a = .legacy) (hb : kind b = .single)
      (hurls : b.additionalBaseUrls ≠ []) (hid : a.id = b.id ++ "-extra")

/-- The number of entries of a model. -/
def entryCount (m : ModelDefinition) : Nat :=
  match kind m with
  | .disabled => 0
  | .legacy => 2
  | .single => m.additionalBaseUrls.length + 1
  | .listed => (m.deployments.filter (·.enabled)).length

/-! ## The identifiers of a model -/

/-- The identifiers of a model's entries, by its kind. -/
theorem entryIds_eq (m : ModelDefinition) :
    entryIds m =
      match kind m with
      | .disabled => []
      | .legacy => [legacyId m.id 1, legacyId m.id 2]
      | .single => (List.range (m.additionalBaseUrls.length + 1)).map (singleId m.id)
      | .listed => (m.deployments.filter (·.enabled)).map fun d => accountId m.id d.id := by
  unfold entryIds kind
  split
  · rfl
  · split
    · rfl
    · split <;> rfl

theorem length_entryIds (m : ModelDefinition) : (entryIds m).length = entryCount m := by
  rw [entryIds_eq, entryCount]
  cases kind m <;> simp

theorem singleId_succ (mid : String) (i : Nat) :
    singleId mid (i + 1) = mid ++ "-extra" ++ "-" ++ toString (i + 1) := by
  have hsplit : ("-extra-" : String) = "-extra" ++ "-" := by decide
  simp only [singleId, Nat.add_eq_zero_iff, one_ne_zero, and_false, beq_iff_eq, if_false, hsplit,
    String.append_assoc]

/-- An identifier of a model's entries. -/
inductive IdOf (m : ModelDefinition) : String → Prop
  | legacy (i : Nat) (hkind : kind m = .legacy) (hi : i = 1 ∨ i = 2) :
      IdOf m (m.id ++ "-" ++ toString i)
  | first (hkind : kind m = .single) : IdOf m m.id
  | endpoint (i : Nat) (hkind : kind m = .single) (hi : i < m.additionalBaseUrls.length) :
      IdOf m (m.id ++ "-extra" ++ "-" ++ toString (i + 1))
  | account (d : ModelDeployment) (hkind : kind m = .listed) (hd : d ∈ m.deployments) :
      IdOf m (m.id ++ ":" ++ d.id)

theorem IdOf.of_mem {m : ModelDefinition} {x : String} (h : x ∈ entryIds m) : IdOf m x := by
  rw [entryIds_eq] at h
  split at h
  · cases h
  · next hkind =>
    rcases List.mem_cons.mp h with rfl | h
    · exact .legacy 1 hkind (.inl rfl)
    · obtain rfl := List.mem_singleton.mp h
      exact .legacy 2 hkind (.inr rfl)
  · next hkind =>
    obtain ⟨i, hi, rfl⟩ := List.mem_map.mp h
    rw [List.mem_range] at hi
    cases i with
    | zero => exact .first hkind
    | succ i =>
      rw [singleId_succ]
      exact .endpoint i hkind (by omega)
  · next hkind =>
    obtain ⟨d, hd, rfl⟩ := List.mem_map.mp h
    exact .account d hkind (List.mem_filter.mp hd).1

theorem mem_legacy {m : ModelDefinition} (hkind : kind m = .legacy) {i : Nat} (hi : i = 1 ∨ i = 2) :
    m.id ++ "-" ++ toString i ∈ entryIds m := by
  rw [entryIds_eq, hkind]
  rcases hi with rfl | rfl
  · exact List.mem_cons_self
  · exact List.mem_cons_of_mem _ List.mem_cons_self

theorem mem_single {m : ModelDefinition} (hkind : kind m = .single) {i : Nat}
    (hi : i ≤ m.additionalBaseUrls.length) : singleId m.id i ∈ entryIds m := by
  rw [entryIds_eq, hkind]
  exact List.mem_map_of_mem (List.mem_range.mpr (by omega))

/-- A clash is an identifier in common. -/
theorem Clash.not_disjoint {a b : ModelDefinition} (h : Clash a b) :
    ¬List.Disjoint (entryIds a) (entryIds b) := by
  intro hdisjoint
  cases h with
  | endpoint i ha hb hi hid =>
    have hb' := mem_single hb (Nat.zero_le _)
    have ha' := mem_single ha (i := i + 1) (by omega)
    refine hdisjoint ha' ?_
    have hsame : singleId a.id (i + 1) = singleId b.id 0 := by
      rw [show singleId b.id 0 = b.id from rfl, hid]
      rfl
    rwa [hsame]
  | legacy i ha hb hi hid =>
    have hb' := mem_single hb (Nat.zero_le _)
    rw [show singleId b.id 0 = b.id from rfl, hid] at hb'
    exact hdisjoint (mem_legacy ha hi) hb'
  | legacyEndpoint ha hb hurls hid =>
    have hb' := mem_single hb (i := 1) (List.length_pos_iff.mpr hurls)
    have ha' := mem_legacy ha (.inl rfl)
    rw [singleId_succ, ← hid] at hb'
    exact hdisjoint ha' hb'

/-! ## Identifiers of two models -/

theorem not_colon_of_isIdentifier {s : String} (h : isIdentifier s = true) : ':' ∉ s.toList := by
  have htail : identifierTail ':' = false := by decide
  unfold isIdentifier at h
  split at h
  · cases h
  · next c cs hs =>
    simp only [Bool.and_eq_true, List.all_eq_true] at h
    rw [hs]
    intro hmem
    rcases List.mem_cons.mp hmem with rfl | hmem
    · exact absurd h.1.1 (by decide)
    · rw [h.2 ':' hmem] at htail
      cases htail

/-- What the checks of a model say of its identifiers. -/
structure Named (m : ModelDefinition) : Prop where
  id : isIdentifier m.id = true
  accounts : kind m = .listed → Accounts m

variable {a b m : ModelDefinition}

/-- The identifiers of the accounts that a model lists are the ones with a colon. -/
theorem IdOf.colon_iff {x : String} (hx : IdOf m x) (h : Named m) :
    ':' ∈ x.toList ↔ kind m = .listed := by
  have hid := not_colon_of_isIdentifier h.id
  have hnumber : ∀ n : Nat, ':' ∉ Nat.toDigits 10 n := fun n hmem => by
    have := Nat.isDigit_of_mem_toDigits (by decide) (by decide) hmem
    simp [Char.isDigit] at this
  cases hx with
  | legacy i hkind => simp [String.toList_append, hid, hnumber, hkind]
  | first hkind => simp [hid, hkind]
  | endpoint i hkind => simp [String.toList_append, hid, hnumber, hkind]
  | account d hkind => simp [String.toList_append, hkind]

theorem IdOf.ne_empty {x : String} (hx : IdOf m x) (h : Named m) : x ≠ "" := by
  rintro rfl
  generalize hy : "" = y at hx
  cases hx with
  | first =>
    have hid := h.id
    rw [← hy] at hid
    exact absurd hid (by decide)
  | _ => simp at hy

theorem singleId_injective {mid : String} {i j : Nat} (h : singleId mid i = singleId mid j) :
    i = j := by
  have hlonger : ∀ k, singleId mid (k + 1) ≠ mid := by
    intro k hk
    rw [singleId_succ] at hk
    have hlength := congrArg (fun s => s.toList.length) hk
    simp only [String.toList_append, List.length_append] at hlength
    have hextra : ("-extra" : String).toList.length = 6 := by decide
    omega
  cases i with
  | zero =>
    cases j with
    | zero => rfl
    | succ j => exact absurd h.symm (hlonger j)
  | succ i =>
    cases j with
    | zero => exact absurd h (hlonger i)
    | succ j =>
      rw [singleId_succ, singleId_succ] at h
      exact (numbered_inj.mp h).2

/-- No identifier occurs twice in one model. -/
theorem Named.nodup_entryIds (h : Named m) : (entryIds m).Nodup := by
  rw [entryIds_eq]
  split
  · exact List.nodup_nil
  · refine List.nodup_cons.mpr ⟨fun hmem => ?_, List.nodup_singleton _⟩
    have := (numbered_inj.mp (List.mem_singleton.mp hmem)).2
    omega
  · exact List.nodup_range.map fun i j hij => singleId_injective hij
  · next hkind =>
    have hids : ((m.deployments.filter (·.enabled)).map (·.id)).Nodup :=
      (h.accounts hkind).nodup.sublist (List.filter_sublist.map _)
    have hmap : ((m.deployments.filter (·.enabled)).map fun d => accountId m.id d.id) =
        ((m.deployments.filter (·.enabled)).map (·.id)).map (accountId m.id) := by
      rw [List.map_map]
      rfl
    rw [hmap]
    exact hids.map fun x y hxy => by simpa [accountId] using hxy

/-- **Two models have an identifier in common only by a clash.** -/
theorem Named.disjoint_iff (ha : Named a) (hb : Named b) (hne : a.id ≠ b.id) :
    List.Disjoint (entryIds a) (entryIds b) ↔ ¬Clash a b ∧ ¬Clash b a := by
  have hextra : ∀ s : String, s ++ "-extra-" = s ++ "-extra" ++ "-" := fun s => by
    rw [String.append_assoc]
    rfl
  constructor
  · exact fun h => ⟨fun hc => hc.not_disjoint h, fun hc => hc.not_disjoint (List.disjoint_comm.mp h)⟩
  · rintro ⟨hab, hba⟩ x hxa hxb
    have hia := IdOf.of_mem hxa
    have hib := IdOf.of_mem hxb
    have hlisted := (hia.colon_iff ha).symm.trans (hib.colon_iff hb)
    clear hxa hxb
    generalize hy : x = y at hib
    cases hia with
    | legacy i hka hi =>
      cases hib with
      | legacy j hkb => exact hne (numbered_inj.mp hy).1
      | first hkb => exact hab (.legacy i hka hkb hi hy.symm)
      | endpoint j hkb hj =>
        exact hab (.legacyEndpoint hka hkb (List.ne_nil_of_length_pos (by omega))
          (numbered_inj.mp hy).1)
      | account d hkb => simp [hka, hkb] at hlisted
    | first hka =>
      cases hib with
      | legacy j hkb hj => exact hba (.legacy j hkb hka hj hy)
      | first hkb => exact hne hy
      | endpoint j hkb hj => exact hba (.endpoint j hkb hka hj (hy.trans (by rw [hextra])))
      | account d hkb => simp [hka, hkb] at hlisted
    | endpoint i hka hi =>
      cases hib with
      | legacy j hkb =>
        exact hba (.legacyEndpoint hkb hka (List.ne_nil_of_length_pos (by omega))
          (numbered_inj.mp hy).1.symm)
      | first hkb => exact hab (.endpoint i hka hkb hi (hy.symm.trans (by rw [hextra])))
      | endpoint j hkb hj =>
        refine hne (String.toList_injective ?_)
        have := congrArg String.toList (numbered_inj.mp hy).1
        simpa [String.toList_append] using this
      | account d hkb => simp [hka, hkb] at hlisted
    | account d hka hd =>
      cases hib with
      | account d' hkb hd' =>
        have hcolon := not_colon_of_isIdentifier ((ha.accounts hka).ids d hd)
        have hcolon' := not_colon_of_isIdentifier ((hb.accounts hkb).ids d' hd')
        exact hne (separated_inj (c := ':') hcolon hcolon' hy).1
      | legacy j hkb => simp [hka, hkb] at hlisted
      | first hkb => simp [hka, hkb] at hlisted
      | endpoint j hkb => simp [hka, hkb] at hlisted

/-! ## All models of a catalog -/

/-- The models stand under their own ids. -/
def Keyed (models : Dict String ModelDefinition) : Prop :=
  ∀ mid m, models.lookup mid = some m → m.id = mid

/-- No two models clash. -/
def Unclashing (models : Dict String ModelDefinition) : Prop :=
  ∀ mid m mid' m', models.lookup mid = some m → models.lookup mid' = some m' → ¬Clash m m'

/-- The number of entries of all models. -/
def totalEntries (models : Dict String ModelDefinition) : Nat :=
  (models.entries.map fun e => entryCount e.2).sum

section Configuration

variable {host : Host} {models : Dict String ModelDefinition} {rc : Bool} {entries : List GatewayEntry}

theorem isIdentifier_of_validateModel (h : validateModel host m = .ok ()) :
    isIdentifier m.id = true := by
  simp only [validateModel, identifier, bind_eq_ok, refuse_eq_ok, Bool.not_eq_false'] at h
  exact h.choose_spec.1

/-- The checks of a model that has its entries in the configuration. -/
theorem named_of_configuration (hmodels : Validated host models)
    (hentries : gatewayConfiguration host models rc = .ok entries) {mid : String}
    (hm : models.lookup mid = some m) : Named m := by
  refine ⟨isIdentifier_of_validateModel (hmodels mid m hm), fun hkind => ?_⟩
  obtain ⟨ess, hess, -⟩ := gatewayConfiguration_eq_ok hentries
  obtain ⟨i, hi⟩ := List.getElem?_of_mem (Dict.mem_entries_iff.mpr hm)
  obtain ⟨hlt, hget⟩ := List.getElem?_eq_some_iff.mp hi
  have hes := (List.forall₂_iff_get.mp hess).2 i hlt (hess.length_eq ▸ hlt)
  simp only [List.get_eq_getElem, hget] at hes
  obtain ⟨henabled, hlegacy⟩ := kind_listed hkind
  exact (gatewayEntries_eq_ok hes).2.2 henabled hlegacy

theorem length_configuration (hentries : gatewayConfiguration host models rc = .ok entries) :
    entries.length = totalEntries models := by
  have hids := congrArg List.length (gatewayConfiguration_ids hentries)
  rw [List.length_map, List.length_flatten, List.map_map] at hids
  rw [hids, totalEntries]
  congr 1
  exact List.map_congr_left fun e _ => length_entryIds e.2

/-- The models clash nowhere if and only if no identifier occurs in two of them. -/
theorem unclashing_iff (hkeyed : Keyed models)
    (hnamed : ∀ mid m, models.lookup mid = some m → Named m) :
    (models.entries.map fun e => entryIds e.2).Pairwise List.Disjoint ↔ Unclashing models := by
  rw [List.pairwise_map]
  constructor
  · intro hpairwise mid m mid' m' hm hm' hclash
    by_cases hsame : mid = mid'
    · subst hsame
      obtain rfl := Option.some.inj (hm.symm.trans hm')
      cases hclash with
      | endpoint i _ _ _ hid =>
        have hlength := congrArg (fun s => s.toList.length) hid
        simp [String.toList_append] at hlength
      | legacy i ha hb => simp [ha] at hb
      | legacyEndpoint ha hb => simp [ha] at hb
    · have : Std.Symm fun e e' : Sigma fun _ : String => ModelDefinition =>
          List.Disjoint (entryIds e.2) (entryIds e'.2) := ⟨fun _ _ h => List.disjoint_comm.mp h⟩
      refine hclash.not_disjoint ?_
      refine hpairwise.forall (Dict.mem_entries_iff.mpr hm) (Dict.mem_entries_iff.mpr hm') ?_
      intro heq
      exact hsame (congrArg Sigma.fst heq)
  · intro hunclashing
    refine models.nodupKeys.nodup.pairwise_of_forall_ne fun e he e' he' hne => ?_
    obtain ⟨mid, m⟩ := e
    obtain ⟨mid', m'⟩ := e'
    have hm := Dict.mem_entries_iff.mp he
    have hm' := Dict.mem_entries_iff.mp he'
    have hids : m.id ≠ m'.id := by
      intro hid
      have hmid : mid = mid' := by rw [← hkeyed mid m hm, ← hkeyed mid' m' hm', hid]
      subst hmid
      obtain rfl := Option.some.inj (hm.symm.trans hm')
      exact hne rfl
    exact ((hnamed mid m hm).disjoint_iff (hnamed mid' m' hm') hids).mpr
      ⟨hunclashing mid m mid' m' hm hm', hunclashing mid' m' mid m hm' hm⟩

/-- **Which catalogs can be published.** Of models that were each accepted, and that a configuration is made
of, the gateway accepts the configuration if and only if it has at most a thousand entries and no two of the
models clash. -/
theorem publishable_iff (hkeyed : Keyed models) (hmodels : Validated host models)
    (hentries : gatewayConfiguration host models rc = .ok entries)
    {releaseId : String} (hid : releaseId ≠ "") {version : Nat} :
    ModelGateway.Valid (releaseJson releaseId version entries) ↔
      totalEntries models ≤ 1000 ∧ Unclashing models := by
  have hnamed : ∀ mid m, models.lookup mid = some m → Named m :=
    fun _ _ hm => named_of_configuration hmodels hentries hm
  have hids := gatewayConfiguration_ids hentries
  have hall : ∀ e ∈ models.entries, Named e.2 := fun e he =>
    hnamed e.1 e.2 (Dict.mem_entries_iff.mp he)
  have hidentifiers : identifiers entries = (models.entries.map fun e => entryIds e.2).flatten := by
    rw [identifiers, hids]
    refine List.filter_eq_self.mpr fun x hx => ?_
    obtain ⟨l, hl, hxl⟩ := List.mem_flatten.mp hx
    obtain ⟨e, he, rfl⟩ := List.mem_map.mp hl
    simpa using (IdOf.of_mem hxl).ne_empty (hall e he)
  have hnames : ∀ e ∈ entries, e.modelName ≠ "" := by
    intro e he
    obtain ⟨mid, m, es, hm, hes, hmem⟩ := mem_gatewayConfiguration hentries he
    rw [((gatewayEntries_eq_ok hes).2.1 e hmem).1]
    intro hempty
    have hident := (hnamed mid m hm).id
    rw [hempty] at hident
    exact absurd hident (by decide)
  rw [validateRelease_json hid, length_configuration hentries, hidentifiers, List.nodup_flatten,
    unclashing_iff hkeyed hnamed]
  refine and_congr_right fun _ => ⟨fun h => h.2.2, fun h => ⟨hnames, fun l hl => ?_, h⟩⟩
  obtain ⟨e, he, rfl⟩ := List.mem_map.mp hl
  exact (hall e he).nodup_entryIds

end Configuration

/-! ## Two models -/

/-- A catalog of two models with one key each, the first with one additional endpoint. -/
def pair (a b : String) : Dict String ModelDefinition :=
  ((∅ : Dict String ModelDefinition).insert b (managedModel b)).insert a
    { managedModel a with additionalBaseUrls := ["https://example.com"] }

theorem pair_lookup {a b mid : String} {m : ModelDefinition} (h : (pair a b).lookup mid = some m) :
    mid = a ∧ m = { managedModel a with additionalBaseUrls := ["https://example.com"] } ∨
      mid = b ∧ m = managedModel b := by
  rcases Dict.lookup_insert_cases h with hfirst | ⟨-, hsecond⟩
  · exact .inl hfirst
  · rcases Dict.lookup_insert_cases hsecond with hb | ⟨-, hnone⟩
    · exact .inr hb
    · simp at hnone

theorem pair_keyed (a b : String) : Keyed (pair a b) := by
  intro mid m hm
  rcases pair_lookup hm with ⟨rfl, rfl⟩ | ⟨rfl, rfl⟩ <;> rfl

theorem pair_validated {a b : String}
    (ha : validateModel plainHost
      { managedModel a with additionalBaseUrls := ["https://example.com"] } = .ok ())
    (hb : validateModel plainHost (managedModel b) = .ok ()) :
    Validated plainHost (pair a b) := by
  intro mid m hm
  rcases pair_lookup hm with ⟨rfl, rfl⟩ | ⟨rfl, rfl⟩
  · exact ha
  · exact hb

/-- Two such models clash by their additional endpoints only. -/
theorem pair_unclashing {a b : String} (haa : a ≠ a ++ "-extra-1") (hba : b ≠ a ++ "-extra-1") :
    Unclashing (pair a b) := by
  have hkind : ∀ {mid m}, (pair a b).lookup mid = some m → kind m = .single := by
    intro mid m hm
    rcases pair_lookup hm with ⟨-, rfl⟩ | ⟨-, rfl⟩ <;> rfl
  intro mid m mid' m' hm hm' hclash
  cases hclash with
  | endpoint i _ _ hi hid =>
    rcases pair_lookup hm with ⟨-, rfl⟩ | ⟨-, rfl⟩
    · obtain rfl : i = 0 := by simpa using hi
      rcases pair_lookup hm' with ⟨-, rfl⟩ | ⟨-, rfl⟩
      · exact haa (hid.trans (String.append_assoc ..))
      · exact hba (hid.trans (String.append_assoc ..))
    · simp [managedModel] at hi
  | legacy i ha => simp [hkind hm] at ha
  | legacyEndpoint ha => simp [hkind hm] at ha

/-- An entry of such a model. -/
def singleEntry (mid : String) (base : Option String) (id : String) : GatewayEntry :=
  ⟨mid, "openai/gpt", "sk-1", base, ∅, ∅, none, none, none, id⟩

theorem pair_configuration_mini :
    gatewayConfiguration plainHost (pair "gpt" "gpt-mini") true =
      .ok [singleEntry "gpt" none "gpt", singleEntry "gpt" (some "https://example.com") "gpt-extra-1",
        singleEntry "gpt-mini" none "gpt-mini"] := rfl

/-- The models `gpt` and `gpt-mini` can be published. -/
theorem publishable_iff_mini :
    ModelGateway.Valid (releaseJson "r1" 1 [singleEntry "gpt" none "gpt",
      singleEntry "gpt" (some "https://example.com") "gpt-extra-1",
      singleEntry "gpt-mini" none "gpt-mini"]) := by
  exact (publishable_iff (pair_keyed "gpt" "gpt-mini")
    (pair_validated (by decide +kernel) (by decide +kernel)) pair_configuration_mini
    (by decide)).mpr ⟨by decide +kernel, pair_unclashing (by decide) (by decide)⟩

theorem pair_configuration_extra :
    gatewayConfiguration plainHost (pair "gpt" "gpt-extra-1") true =
      .ok [singleEntry "gpt" none "gpt", singleEntry "gpt" (some "https://example.com") "gpt-extra-1",
        singleEntry "gpt-extra-1" none "gpt-extra-1"] := rfl

/-- The models `gpt` and `gpt-extra-1` are both valid, and cannot be published together. -/
theorem clashing_models :
    Keyed (pair "gpt" "gpt-extra-1") ∧ Validated plainHost (pair "gpt" "gpt-extra-1") ∧
      ∃ entries, gatewayConfiguration plainHost (pair "gpt" "gpt-extra-1") true = .ok entries ∧
        ¬ModelGateway.Valid (releaseJson "r1" 1 entries) := by
  refine ⟨pair_keyed _ _, pair_validated (by decide +kernel) (by decide +kernel), _,
    pair_configuration_extra, fun hvalid => ?_⟩
  have hnodup := ((validateRelease_json (by decide)).mp hvalid).2.2
  exact absurd hnodup (by decide)

end OpencodeCloud.Platform
