/-
# OpencodeCloud.Platform.Configuration -- the gateway configuration, as the gateway receives it

`gateway_configuration` gives a list of entries; the gateway gets them as a JSON document and checks
that. Here is the document of a list of entries, and what the checks of `validate_release` say about the
entries: there are at most a thousand, each names its model, and no identifier occurs twice.
-/
import OpencodeCloud.Catalog.Models
import OpencodeCloud.ModelGateway.Activation
import OpencodeCloud.Platform.Gateway

namespace OpencodeCloud.Platform

open OpencodeCloud.Library OpencodeCloud.Catalog

/-! ## The document -/

def textJson (v : Option String) : Json := v.elim .null .string

def scalarJson : Option Scalar → Json
  | none => .null
  | some (.int n) => .int n
  | some (.number q) => .float (.finite q)
  | some (.text s) => .string s

/-- A dictionary as an object. -/
def dictJson {α : Type} (f : α → Json) (d : Dict String α) : Json :=
  .object (d.entries.map fun e => (e.1, f e.2))

/-- `litellm_params` of an entry. -/
def paramsJson (e : GatewayEntry) : Json :=
  dictJson scalarJson e.parameters
    |>.set "model" (.string e.model)
    |>.set "api_key" (.string e.apiKey)
    |>.put "rpm" (e.rpm.map fun n => .int n)
    |>.put "tpm" (e.tpm.map fun n => .int n)
    |>.put "weight" (e.weight.map fun w => .float (.finite w))
    |>.put "api_base" (e.apiBase.map .string)
    |>.put "extra_headers"
      (if e.extraHeaders.entries.isEmpty then none else some (dictJson textJson e.extraHeaders))

def entryJson (e : GatewayEntry) : Json :=
  .object [("model_name", .string e.modelName), ("litellm_params", paramsJson e),
    ("model_info", .object [("id", .string e.id)])]

/-- `ROUTER_SETTINGS`. -/
def routerSettings : Json :=
  .object [("routing_strategy", .string "simple-shuffle"), ("num_retries", .int 2),
    ("timeout", .int 600), ("allowed_fails", .int 1), ("cooldown_time", .int 30),
    ("enable_pre_call_checks", .bool true)]

def configurationJson (entries : List GatewayEntry) : Json :=
  .object [("model_list", .array (entries.map entryJson)), ("router_settings", routerSettings),
    ("litellm_settings", .object
      [("callbacks", .array [.string "prometheus", .string "cloud_logging.cloud_logger"]),
        ("drop_params", .bool false)]),
    ("general_settings", .object [("disable_spend_logs", .bool true)])]

/-- What the gateway is given to activate, as far as it reads it. -/
def releaseJson (releaseId : String) (version : Nat) (entries : List GatewayEntry) : Json :=
  .object [("release_id", .string releaseId), ("version", .int version),
    ("configuration", configurationJson entries)]

/-! ## What it says of an entry -/

theorem isObject_paramsJson (e : GatewayEntry) : (paramsJson e).isObject = true := by
  simp [paramsJson, dictJson]

theorem model_paramsJson (e : GatewayEntry) :
    (paramsJson e).get? "model" = some (.string e.model) := by
  unfold paramsJson
  rw [Json.get?_put_ne (by decide), Json.get?_put_ne (by decide), Json.get?_put_ne (by decide),
    Json.get?_put_ne (by decide), Json.get?_put_ne (by decide), Json.get?_set_ne (by decide)]
  exact Json.get?_set_self rfl

theorem lookup_map_entries {α : Type} (f : α → Json) (d : Dict String α) (key : String) :
    (dictJson f d).get? key = (d.lookup key).map f := by
  obtain ⟨entries, hnodup⟩ := d
  simp only [dictJson, Json.get?, AList.lookup]
  clear hnodup
  induction entries with
  | nil => rfl
  | cons e es ih =>
    obtain ⟨key', v⟩ := e
    by_cases h : key = key'
    · subst h
      rw [List.map_cons, List.lookup_cons_self, List.dlookup_cons_eq]
      rfl
    · have hne : (key == key') = false := by simpa using h
      rw [List.map_cons, List.lookup_cons, hne, List.dlookup_cons_ne _ _ h]
      exact ih

/-- The headers of an entry whose parameters are none of the platform's own. -/
theorem headers_paramsJson {e : GatewayEntry} (h : e.parameters.lookup "extra_headers" = none) :
    (paramsJson e).get? "extra_headers" =
      if e.extraHeaders.entries.isEmpty then none else some (dictJson textJson e.extraHeaders) := by
  unfold paramsJson
  rw [Json.get?_put_self (by simp [dictJson])]
  split
  · rw [Option.orElse_none, Json.get?_put_ne (by decide), Json.get?_put_ne (by decide),
      Json.get?_put_ne (by decide), Json.get?_put_ne (by decide), Json.get?_set_ne (by decide),
      Json.get?_set_ne (by decide), lookup_map_entries, h]
    rfl
  · rfl

/-! ## The checks of the gateway -/

/-- The identifiers that are checked. -/
def identifiers (entries : List GatewayEntry) : List String :=
  (entries.map (·.id)).filter (· != "")

theorem validateEntry_json (ids : List String) (e : GatewayEntry) :
    ModelGateway.validateEntry ids (entryJson e) =
      if e.modelName = "" then
        Checked.raise 422 "Each deployment requires model_name and litellm_params.model"
      else if e.id ≠ "" ∧ e.id ∈ ids then Checked.raise 422 "Duplicate deployment id"
      else .ok (e.id :: ids) := by
  have hparams := isObject_paramsJson e
  have hmodel := model_paramsJson e
  have hobject : (entryJson e).isObject = true := rfl
  have hname : (entryJson e).get? "model_name" = some (.string e.modelName) := rfl
  have hget : (entryJson e).get? "litellm_params" = some (paramsJson e) := rfl
  have hinfo : (entryJson e).get? "model_info" = some (.object [("id", .string e.id)]) := rfl
  have hid : (Json.object [("id", .string e.id)]).get? "id" = some (.string e.id) := rfl
  simp only [ModelGateway.validateEntry, hobject, hget, hinfo, hname, Option.any_some, hparams,
    Option.getD_some, hid, hmodel, Json.isString, Json.truthy, Json.isObject_object]
  by_cases hempty : e.modelName = ""
  · simp [hempty, Checked.refuse, Checked.raise, Bind.bind, Except.bind]
  · by_cases hseen : e.id ≠ "" ∧ e.id ∈ ids
    · simp [hempty, hseen, Checked.refuse, Checked.raise, Bind.bind, Except.bind]
    · simp [hempty, hseen, Checked.refuse, Bind.bind, Except.bind, pure, Except.pure]

theorem validateEntries_json {ids : List String} {entries : List GatewayEntry} :
    ModelGateway.validateEntries ids (entries.map entryJson) = .ok () ↔
      (∀ e ∈ entries, e.modelName ≠ "") ∧ (identifiers entries).Nodup ∧
        ∀ i ∈ identifiers entries, i ∉ ids := by
  induction entries generalizing ids with
  | nil => simp [ModelGateway.validateEntries, identifiers]
  | cons e es ih =>
    rw [List.map_cons, ModelGateway.validateEntries, validateEntry_json, List.forall_mem_cons]
    by_cases hname : e.modelName = ""
    · simp [hname, Checked.raise, Bind.bind, Except.bind]
    · rw [if_neg hname]
      by_cases hid : e.id = ""
      · have hids : identifiers (e :: es) = identifiers es := by simp [identifiers, hid]
        have hfresh : ∀ i ∈ identifiers es, (i ∉ e.id :: ids ↔ i ∉ ids) := by
          intro i hi
          have hne : i ≠ "" := by
            simp only [identifiers, List.mem_filter, bne_iff_ne] at hi
            exact hi.2
          simp [hid, hne]
        rw [if_neg (fun h => h.1 hid), hids]
        refine ih.trans ?_
        constructor
        · rintro ⟨hnames, hnodup, hnew⟩
          exact ⟨⟨hname, hnames⟩, hnodup, fun i hi => (hfresh i hi).mp (hnew i hi)⟩
        · rintro ⟨⟨-, hnames⟩, hnodup, hnew⟩
          exact ⟨hnames, hnodup, fun i hi => (hfresh i hi).mpr (hnew i hi)⟩
      · have hids : identifiers (e :: es) = e.id :: identifiers es := by simp [identifiers, hid]
        rw [hids, List.forall_mem_cons, List.nodup_cons]
        by_cases hseen : e.id ∈ ids
        · simp [hid, hseen, Checked.raise, Bind.bind, Except.bind]
        · rw [if_neg (fun h => hseen h.2)]
          refine ih.trans ?_
          constructor
          · rintro ⟨hnames, hnodup, hnew⟩
            exact ⟨⟨hname, hnames⟩, ⟨fun hmem => hnew _ hmem List.mem_cons_self, hnodup⟩, hseen,
              fun i hi hmem => hnew i hi (List.mem_cons_of_mem _ hmem)⟩
          · rintro ⟨⟨-, hnames⟩, ⟨hself, hnodup⟩, -, hnew⟩
            refine ⟨hnames, hnodup, fun i hi hmem => ?_⟩
            rcases List.mem_cons.mp hmem with rfl | hold
            · exact hself hi
            · exact hnew i hi hold

/-- **What the gateway accepts**, of a release that has an identifier. -/
theorem validateRelease_json {releaseId : String} {version : Nat} {entries : List GatewayEntry}
    (hid : releaseId ≠ "") :
    ModelGateway.Valid (releaseJson releaseId version entries) ↔
      entries.length ≤ 1000 ∧ (∀ e ∈ entries, e.modelName ≠ "") ∧ (identifiers entries).Nodup := by
  have hget : (releaseJson releaseId version entries).get? "release_id" = some (.string releaseId) :=
    rfl
  have hconfig : (releaseJson releaseId version entries).get? "configuration" =
      some (configurationJson entries) := rfl
  have hlist : (configurationJson entries).get? "model_list" = some (.array (entries.map entryJson)) :=
    rfl
  have hsettings : (configurationJson entries).get? "router_settings" = some routerSettings := rfl
  have hobject : routerSettings.isObject = true := rfl
  simp only [ModelGateway.Valid, ModelGateway.validateRelease, hget, hconfig, Option.any_some,
    Option.bind_some, hlist, Option.getD_some, hsettings, hobject, Json.isString, Json.truthy,
    Checked.bind_eq_ok, Checked.refuse_eq_ok, Checked.pure_eq_ok]
  have hentries := @validateEntries_json [] entries
  simp [hid, hentries]

/-- The checks over the entries that the other modules use are those over their document. -/
theorem validateEntries_iff {ids : List String} {entries : List GatewayEntry} :
    validateEntries ids entries = .ok () ↔
      ModelGateway.validateEntries ids (entries.map entryJson) = .ok () := by
  induction entries generalizing ids with
  | nil => simp [validateEntries, ModelGateway.validateEntries]
  | cons e es ih =>
    rw [List.map_cons, ModelGateway.validateEntries, validateEntry_json, validateEntries]
    simp only [bind_eq_ok, refuse_eq_ok]
    by_cases hname : e.modelName = ""
    · simp [hname, Checked.raise, Bind.bind, Except.bind]
    · by_cases hseen : e.id ≠ "" ∧ e.id ∈ ids
      · simp [hname, hseen, Checked.raise, Bind.bind, Except.bind]
      · have hfresh : (e.id != "" && ids.contains e.id) = false := by
          simpa [Bool.and_eq_false_iff] using hseen
        rw [if_neg hname, if_neg hseen, hfresh]
        refine Iff.trans ⟨fun h => h.choose_spec.2.choose_spec.2, fun h => ?_⟩ ih
        exact ⟨(), by simpa using hname, (), rfl, h⟩

/-- A release is accepted as the other modules have it if and only if its document is. -/
theorem validateRelease_iff {r : Release} {models : Dict String ModelDefinition}
    {configuration : List GatewayEntry} (hcontent : r.content = .models models configuration)
    (hid : r.releaseId ≠ "") :
    validateRelease r = .ok () ↔
      ModelGateway.Valid (releaseJson r.releaseId r.version configuration) := by
  rw [validateRelease_json hid]
  simp only [validateRelease, hcontent, bind_eq_ok, refuse_eq_ok, validateEntries_iff,
    validateEntries_json]
  simp [hid]

end OpencodeCloud.Platform
