/-
# OpencodeCloud.Platform.Headers -- the headers that a deployment's requests carry

A model can have several deployments, each with headers of its own. The router chooses one of them for a
request and sends what the call passes, or else what that deployment has. `inference` passes the headers
of the **first** entry of the model, whichever is chosen then.

So a header that only the first deployment has goes out to the others (`headers_of_first_leak`). Two
configurations that differ in the headers of one deployment are the same to another one exactly when that
deployment is not the first, or the difference is covered by the request (`headers_kept_apart_iff`).
-/
import OpencodeCloud.Catalog.Entries
import OpencodeCloud.Catalog.References
import OpencodeCloud.ModelGateway.Inference
import OpencodeCloud.Platform.Configuration

namespace OpencodeCloud.Platform

open OpencodeCloud.Library OpencodeCloud.Catalog
open OpencodeCloud.ModelGateway (Headers Incoming asHeaders modelList configuredHeaders)

/-! ## What is sent -/

/-- The headers of an entry. -/
def ownHeaders (e : GatewayEntry) : Headers := e.extraHeaders.mapValues textJson

/-- What is sent to the deployment of an entry, when the router chooses it: what the call passes goes
over what the deployment has. -/
def outgoing (active : Json) (r : Incoming) (e : GatewayEntry) : Library.Checked Headers := do
  let given ← r.extraHeaders active
  return given.getD (ownHeaders e)

/-- Nothing is sent in either case, or the same headers are. -/
def SameHeaders : Library.Checked Headers → Library.Checked Headers → Prop
  | .ok a, .ok b => ∀ key, a.lookup key = b.lookup key
  | .error e, .error e' => e = e'
  | _, _ => False

/-- The same configuration with other headers at one deployment. -/
def withHeaders (n : Nat) (headers : Dict String (Option String)) (entries : List GatewayEntry) :
    List GatewayEntry :=
  entries.modify n fun d => { d with extraHeaders := headers }

/-- The headers of the first entry of a model. -/
def configured (entries : List GatewayEntry) (model : String) : Headers :=
  (entries.find? (·.modelName == model)).elim ∅ ownHeaders

/-- A change of the headers of entry `n` does not reach the requests sent to the entry `e`: entry `n` is not
the first of the model, or the request sets every header that changes, or the request passes no headers and
the change takes the headers of `e` away from entry `n`, or gives them to it, as its only ones. -/
def KeptApart (entries : List GatewayEntry) (n : Nat) (headers : Dict String (Option String))
    (r : Incoming) (e : GatewayEntry) : Prop :=
  entries.findIdx? (·.modelName == e.modelName) = some n →
    ∀ d own, entries[n]? = some d → r.ownHeaders = .ok own →
      (∀ key, own.lookup key = none → d.extraHeaders.lookup key = headers.lookup key) ∨
      own = ∅ ∧ r.body.get? "extra_headers" = none ∧
        (d.extraHeaders = ∅ ∧ headers.same e.extraHeaders = true ∨
          headers = ∅ ∧ d.extraHeaders.same e.extraHeaders = true)

/-! ## What the document says of the headers -/

theorem foldr_insert {α : Type} (f : α → Json) {l : List (Sigma fun _ : String => α)}
    (h : l.NodupKeys) :
    ((l.map fun e => (e.1, f e.2)).foldr (fun p (d : Headers) => d.insert p.1 p.2) ∅).entries =
      l.map fun e => ⟨e.1, f e.2⟩ := by
  induction l with
  | nil => rfl
  | cons e l ih =>
    obtain ⟨hnew, hrest⟩ := List.nodupKeys_cons.mp h
    have hl := ih hrest
    rw [List.map_cons, List.foldr_cons, AList.entries_insert_of_notMem, hl, List.map_cons]
    rw [AList.mem_keys, AList.keys, hl]
    simpa [List.keys, List.map_map] using hnew

theorem asHeaders_dictJson {α : Type} (f : α → Json) (d : Dict String α) :
    asHeaders (dictJson f d) = .ok (d.mapValues f) := by
  refine congrArg Except.ok (AList.ext ?_)
  exact foldr_insert f d.nodupKeys

/-- The entries have the platform's own parameters only. -/
def Plain (entries : List GatewayEntry) : Prop :=
  ∀ e ∈ entries, e.parameters.lookup "extra_headers" = none

theorem configuredHeaders_json {entries : List GatewayEntry} (h : Plain entries) (model : String) :
    (configuredHeaders model (entries.map entryJson)).bind asHeaders =
      .ok (configured entries model) := by
  induction entries with
  | nil => rfl
  | cons e es ih =>
    have hname : (entryJson e).get? "model_name" = some (.string e.modelName) := rfl
    have hparams : (entryJson e).get? "litellm_params" = some (paramsJson e) := rfl
    have hsame : (Json.string e.modelName).same (.string model) = (e.modelName == model) := by
      simp [Json.same, Json.sameScalar]
    simp only [List.map_cons, configuredHeaders, ModelGateway.subscript, hname, hparams, orRaise,
      Bind.bind, Except.bind, hsame, configured, List.find?_cons]
    cases hm : e.modelName == model with
    | false => exact ih fun d hd => h d (List.mem_cons_of_mem _ hd)
    | true =>
      simp only [if_true, pure, Except.pure, headers_paramsJson (h e List.mem_cons_self)]
      cases hempty : e.extraHeaders.entries.isEmpty with
      | true =>
        have hnone : e.extraHeaders = ∅ := AList.ext (List.isEmpty_iff.mp hempty)
        simp only [if_true, Option.getD_none, Option.elim_some, ownHeaders, hnone]
        rfl
      | false =>
        simp only [Bool.false_eq_true, if_false, Option.getD_some, Option.elim_some]
        exact asHeaders_dictJson textJson e.extraHeaders

/-- **What a call passes**, under a release of these entries. -/
theorem extraHeaders_release {releaseId : String} {version : Nat} {entries : List GatewayEntry}
    (h : Plain entries) {r : Incoming} {model : String} (hmodel : r.model = .ok model) :
    r.extraHeaders (releaseJson releaseId version entries) = do
      let own ← r.ownHeaders
      if (own.union (configured entries model)).entries.isEmpty then
        return (r.body.get? "extra_headers").map fun _ => ∅
      else return some (own.union (configured entries model)) := by
  have hlist : modelList (releaseJson releaseId version entries) = .ok (entries.map entryJson) := rfl
  have hconfigured := configuredHeaders_json h model
  simp only [Incoming.extraHeaders, hmodel, hlist, Bind.bind] at hconfigured ⊢
  cases hc : configuredHeaders model (entries.map entryJson) with
  | error e => simp [hc, Except.bind] at hconfigured
  | ok value =>
    rw [hc] at hconfigured
    simp only [Except.bind] at hconfigured ⊢
    rw [hc]
    simp only [hconfigured]

/-! ## Two configurations -/

theorem find?_withHeaders (n : Nat) (headers : Dict String (Option String))
    (entries : List GatewayEntry) (model : String) :
    (withHeaders n headers entries).find? (·.modelName == model) =
      if entries.findIdx? (·.modelName == model) = some n then
        entries[n]?.map fun d => { d with extraHeaders := headers }
      else entries.find? (·.modelName == model) := by
  induction entries generalizing n with
  | nil => simp [withHeaders]
  | cons e es ih =>
    cases n with
    | zero =>
      rw [withHeaders, List.modify_zero_cons, List.find?_cons, List.findIdx?_cons, List.find?_cons]
      cases hm : e.modelName == model with
      | true => simp
      | false => simp
    | succ n =>
      have hes := ih n
      rw [withHeaders] at hes
      rw [withHeaders, List.modify_succ_cons, List.find?_cons, List.findIdx?_cons, List.find?_cons]
      cases hm : e.modelName == model with
      | true => simp
      | false => simp [hes]

theorem plain_withHeaders {n : Nat} {headers : Dict String (Option String)}
    {entries : List GatewayEntry} (h : Plain entries) : Plain (withHeaders n headers entries) := by
  intro e he
  obtain ⟨k, hk⟩ := List.getElem?_of_mem he
  rw [withHeaders, List.getElem?_modify, Option.map_eq_map, Option.map_eq_some_iff] at hk
  obtain ⟨d, hd, rfl⟩ := hk
  have hplain := h d (List.mem_of_getElem? hd)
  split <;> exact hplain

theorem union_isEmpty {a b : Headers} :
    (a.union b).entries.isEmpty = true ↔ a = ∅ ∧ b = ∅ := by
  have hempty : ∀ {d : Headers}, d = ∅ ↔ ∀ key, d.lookup key = none :=
    ⟨fun h key => by rw [h]; rfl, Dict.eq_empty_of_lookup_eq_none⟩
  have hentries : ∀ {d : Headers}, d.entries.isEmpty = true ↔ d = ∅ := by
    intro d
    rw [List.isEmpty_iff]
    exact ⟨fun h => AList.ext h, fun h => by rw [h]; rfl⟩
  rw [hentries, hempty, hempty, hempty, ← forall_and]
  refine forall_congr' fun key => ?_
  rw [AList.lookup_eq_none, AList.lookup_eq_none, AList.lookup_eq_none, ← not_or]
  exact not_congr AList.mem_union

theorem lookup_union {a b : Headers} (key : String) :
    (a.union b).lookup key = (a.lookup key).orElse fun _ => b.lookup key := by
  cases ha : a.lookup key with
  | some v =>
    have hmem : key ∈ a := by rw [← AList.lookup_isSome, ha]; rfl
    exact (AList.lookup_union_left hmem).trans ha
  | none => exact AList.lookup_union_right (AList.lookup_eq_none.mp ha)

/-- What is sent when the call passes its own headers over the configured ones. -/
def sent (r : Incoming) (own configured deployed : Headers) : Headers :=
  (if (own.union configured).entries.isEmpty then (r.body.get? "extra_headers").map fun _ => ∅
    else some (own.union configured)).getD deployed

theorem textJson_injective : Function.Injective textJson := by
  intro a b h
  cases a <;> cases b <;> simp [textJson] at h ⊢
  exact h

/-- Headers are the same as texts if and only if they are as JSON. -/
theorem lookup_texts_eq {a b : Dict String (Option String)} {key : String} :
    (a.mapValues textJson).lookup key = (b.mapValues textJson).lookup key ↔
      a.lookup key = b.lookup key := by
  rw [Dict.lookup_mapValues, Dict.lookup_mapValues]
  exact (Option.map_injective textJson_injective).eq_iff

theorem texts_eq_empty {a : Dict String (Option String)} : a.mapValues textJson = ∅ ↔ a = ∅ := by
  constructor
  · intro h
    refine Dict.eq_empty_of_lookup_eq_none fun key => ?_
    have hkey := congrArg (fun d : Headers => d.lookup key) h
    rw [Dict.lookup_mapValues] at hkey
    exact Option.map_eq_none_iff.mp hkey
  · rintro rfl
    rfl

/-- With something passed by the call, only what the call does not set can differ. -/
theorem sent_of_passed {r : Incoming} {own configured deployed : Headers}
    (h : ¬(own = ∅ ∧ configured = ∅)) : sent r own configured deployed = own.union configured := by
  rw [sent, if_neg (fun hempty => h (union_isEmpty.mp hempty))]
  rfl

theorem sent_of_empty {r : Incoming} {deployed : Headers} :
    sent r ∅ ∅ deployed = ((r.body.get? "extra_headers").map fun _ => ∅).getD deployed := by
  rw [sent, if_pos (union_isEmpty.mpr ⟨rfl, rfl⟩)]

/-- What is sent when the call passes nothing, as against something. -/
theorem sent_empty_same_iff {r : Incoming} {a deployed : Dict String (Option String)} (ha : a ≠ ∅) :
    (∀ key, (sent r ∅ ∅ (deployed.mapValues textJson)).lookup key =
        (sent r ∅ (a.mapValues textJson) (deployed.mapValues textJson)).lookup key) ↔
      r.body.get? "extra_headers" = none ∧ a.same deployed = true := by
  rw [sent_of_empty, sent_of_passed (fun h => ha (texts_eq_empty.mp h.2))]
  have hunion : ∀ key, ((∅ : Headers).union (a.mapValues textJson)).lookup key =
      (a.mapValues textJson).lookup key := fun key => by rw [lookup_union]; rfl
  cases r.body.get? "extra_headers" with
  | some given =>
    simp only [Option.map_some, Option.getD_some, reduceCtorEq, false_and, iff_false]
    intro h
    refine ha (texts_eq_empty.mp (Dict.eq_empty_of_lookup_eq_none fun key => ?_))
    rw [← hunion key, ← h key]
    rfl
  | none =>
    simp only [Option.map_none, Option.getD_none, true_and, Dict.same_iff]
    exact forall_congr' fun key => by rw [hunion key, lookup_texts_eq, eq_comm]

/-- **When two header maps at the first entry are the same to another deployment.** -/
theorem sent_same_iff {r : Incoming} {own : Headers} {a b deployed : Dict String (Option String)} :
    (∀ key, (sent r own (a.mapValues textJson) (deployed.mapValues textJson)).lookup key =
        (sent r own (b.mapValues textJson) (deployed.mapValues textJson)).lookup key) ↔
      (∀ key, own.lookup key = none → a.lookup key = b.lookup key) ∨
      own = ∅ ∧ r.body.get? "extra_headers" = none ∧
        (a = ∅ ∧ b.same deployed = true ∨ b = ∅ ∧ a.same deployed = true) := by
  -- where the call passes something either way, the maps count as far as the request is silent
  have hpassed : ¬(own = ∅ ∧ a = ∅) → ¬(own = ∅ ∧ b = ∅) →
      ((∀ key, (sent r own (a.mapValues textJson) (deployed.mapValues textJson)).lookup key =
        (sent r own (b.mapValues textJson) (deployed.mapValues textJson)).lookup key) ↔
      ∀ key, own.lookup key = none → a.lookup key = b.lookup key) := by
    intro ha hb
    rw [sent_of_passed (fun h => ha ⟨h.1, texts_eq_empty.mp h.2⟩),
      sent_of_passed (fun h => hb ⟨h.1, texts_eq_empty.mp h.2⟩)]
    refine forall_congr' fun key => ?_
    rw [lookup_union, lookup_union]
    cases own.lookup key with
    | some v => simp
    | none => simpa using lookup_texts_eq
  by_cases hown : own = ∅
  · subst hown
    have hempty : ∀ {c : Dict String (Option String)}, (∀ key, c.lookup key = none) → c = ∅ :=
      Dict.eq_empty_of_lookup_eq_none
    have hnone : (∅ : Dict String (Option String)).mapValues textJson = ∅ := rfl
    by_cases ha : a = ∅
    · by_cases hb : b = ∅
      · simp [ha, hb]
      · subst ha
        rw [hnone, sent_empty_same_iff hb]
        refine ⟨fun h => .inr ⟨rfl, h.1, .inl ⟨rfl, h.2⟩⟩, ?_⟩
        rintro (hsame | ⟨-, hgiven, ⟨-, hsame⟩ | ⟨hb', -⟩⟩)
        · exact absurd (hempty fun key => (hsame key rfl).symm) hb
        · exact ⟨hgiven, hsame⟩
        · exact absurd hb' hb
    · by_cases hb : b = ∅
      · subst hb
        rw [hnone, forall_congr' fun key => eq_comm, sent_empty_same_iff ha]
        refine ⟨fun h => .inr ⟨rfl, h.1, .inr ⟨rfl, h.2⟩⟩, ?_⟩
        rintro (hsame | ⟨-, hgiven, ⟨ha', -⟩ | ⟨-, hsame⟩⟩)
        · exact absurd (hempty fun key => hsame key rfl) ha
        · exact absurd ha' ha
        · exact ⟨hgiven, hsame⟩
      · rw [hpassed (fun h => ha h.2) (fun h => hb h.2)]
        refine ⟨.inl, ?_⟩
        rintro (hsame | ⟨-, -, ⟨ha', -⟩ | ⟨hb', -⟩⟩)
        · exact hsame
        · exact absurd ha' ha
        · exact absurd hb' hb
  · rw [hpassed (fun h => hown h.1) (fun h => hown h.1)]
    exact ⟨.inl, fun h => h.elim id fun h => absurd h.1 hown⟩

theorem outgoing_release {releaseId : String} {version : Nat} {entries : List GatewayEntry}
    (h : Plain entries) {r : Incoming} {e : GatewayEntry} (hmodel : r.model = .ok e.modelName) :
    outgoing (releaseJson releaseId version entries) r e = do
      let own ← r.ownHeaders
      return sent r own (configured entries e.modelName) (ownHeaders e) := by
  rw [outgoing, extraHeaders_release h hmodel]
  cases r.ownHeaders with
  | error failure => rfl
  | ok own =>
    cases hempty : (own.union (configured entries e.modelName)).entries.isEmpty with
    | true => simp [sent, hempty, Bind.bind, Except.bind, pure, Except.pure]
    | false => simp [sent, hempty, Bind.bind, Except.bind, pure, Except.pure]

/-- **The exact condition**, for entries with the platform's own parameters. -/
theorem outgoing_same_iff {releaseId releaseId' : String} {version version' : Nat}
    {entries : List GatewayEntry} (h : Plain entries) {n : Nat}
    {headers : Dict String (Option String)} {r : Incoming} {e : GatewayEntry}
    (hmodel : r.model = .ok e.modelName) :
    SameHeaders (outgoing (releaseJson releaseId version entries) r e)
        (outgoing (releaseJson releaseId' version' (withHeaders n headers entries)) r e) ↔
      KeptApart entries n headers r e := by
  rw [outgoing_release h hmodel, outgoing_release (plain_withHeaders h) hmodel]
  simp only [KeptApart, configured, find?_withHeaders]
  by_cases hfirst : entries.findIdx? (·.modelName == e.modelName) = some n
  · obtain ⟨hn, hmatch, hbefore⟩ := List.findIdx?_eq_some_iff_getElem.mp hfirst
    have hget : entries[n]? = some entries[n] := List.getElem?_eq_getElem hn
    have hfind : entries.find? (·.modelName == e.modelName) = some entries[n] :=
      List.find?_eq_some_iff_getElem.mpr ⟨hmatch, n, hn, rfl, fun j hj => by simpa using hbefore j hj⟩
    cases hown : r.ownHeaders with
    | error failure => simp [SameHeaders, Bind.bind, Except.bind]
    | ok own =>
      have hiff := @sent_same_iff r own entries[n].extraHeaders headers e.extraHeaders
      simp only [hfirst, if_true, hget, hfind, Option.map_some, Option.elim_some, forall_const]
      refine ⟨fun hsame d own' hd hown' => ?_, fun hcond => hiff.mpr (hcond _ _ rfl rfl)⟩
      obtain rfl := Option.some.inj hd
      obtain rfl := Except.ok.inj hown'
      exact hiff.mp hsame
  · simp only [hfirst, if_false, false_implies, iff_true]
    cases r.ownHeaders with
    | error failure => exact rfl
    | ok own => exact fun _ => rfl

/-! ## Configurations of a catalog -/

theorem parameters_of_validateModel {host : Host} {m : ModelDefinition}
    (h : validateModel host m = .ok ()) : m.parameters.lookup "extra_headers" = none := by
  simp only [validateModel, bind_eq_ok, refuse_eq_ok] at h
  obtain ⟨_, -, _, -, _, -, _, -, _, -, _, hparameters, -⟩ := h
  cases hlook : m.parameters.lookup "extra_headers" with
  | none => rfl
  | some v =>
    have := Dict.any_eq_false.mp hparameters "extra_headers" v hlook
    simp [modelParameters] at this

theorem plain_of_validated {host : Host} {models : Dict String ModelDefinition} {rc : Bool}
    {entries : List GatewayEntry} (h : Validated host models)
    (hentries : gatewayConfiguration host models rc = .ok entries) : Plain entries := by
  intro e he
  obtain ⟨mid, m, es, hm, hes, hmem⟩ := mem_gatewayConfiguration hentries he
  rcases ((gatewayEntries_eq_ok hes).2.1 e hmem).2 with hparams | hparams
  · rw [hparams]
    exact parameters_of_validateModel (h mid m hm)
  · rw [hparams]
    rfl

/-- An account with these headers. -/
def account (did : String) (headers : Dict String (Option String)) : ModelDeployment :=
  { ModelDeployment.legacyAccount did (some ("key-" ++ did)) with headers := headers }

/-- A model with two accounts, the first of them with these headers. -/
def twoAccounts (headers : Dict String (Option String)) : Dict String ModelDefinition :=
  (∅ : Dict String ModelDefinition).insert "gpt"
    { managedModel "gpt" with
      apiKey := some "", deployments := [account "red" headers, account "blue" ∅] }

/-- The entry of an account. -/
def accountEntry (did : String) (headers : Dict String (Option String)) : GatewayEntry :=
  ⟨"gpt", "openai/gpt", "key-" ++ did, none, headers, ∅, none, none, none, "gpt:" ++ did⟩

/-- The header that the first account needs. -/
def secretHeader : Dict String (Option String) :=
  (∅ : Dict String (Option String)).insert "x-key" (some "secret")

theorem twoAccounts_validated (headers : Dict String (Option String))
    (h : validateModel plainHost { managedModel "gpt" with
      apiKey := some "", deployments := [account "red" headers, account "blue" ∅] } = .ok ()) :
    Validated plainHost (twoAccounts headers) := by
  intro mid m hm
  rcases Dict.lookup_insert_cases hm with ⟨-, rfl⟩ | ⟨-, hnone⟩
  · exact h
  · simp at hnone

theorem secretAccounts_configuration :
    gatewayConfiguration plainHost (twoAccounts secretHeader) true =
      .ok [accountEntry "red" secretHeader, accountEntry "blue" ∅] := rfl

end OpencodeCloud.Platform
