/-
# OpencodeCloud.AgentRuntime.PluginEvent -- what the supervisor keeps of a line of output

The supervisor of an agent runtime does not store what the runtime prints. A line that begins with the prefix
of plugin events is parsed, and of its JSON object only identifiers, times and the kind of the event are kept
(`plugin_event`). The line is written by code that the platform does not control.

Whatever is kept is safe (`pluginEvent_safe`), and it depends on the kept fields only
(`pluginEvent_congr`). The parsing itself raises on some lines: the test `action not in {...}` hashes the
field before anything has looked at its type (`pluginEvent_ne_error_iff`).
-/
import OpencodeCloud.Library.Checks
import OpencodeCloud.Library.Json

namespace OpencodeCloud.AgentRuntime

open OpencodeCloud.Library

/-- The bytes of a line or of a read. -/
abbrev Bytes := List UInt8

/-- A dictionary that is written to the log, in the order of its keys. -/
abbrev Record := List (String × Json)

/-- What `json.loads` does with bytes. -/
inductive Loads
  | value (j : Json)
  /-- `UnicodeDecodeError` or `json.JSONDecodeError` -/
  | undecodable
  /-- any other exception, such as the `RecursionError` of a document that nests too deeply -/
  | raised

/-- `@@OPENCODE_CLOUD_EVENT@@` -/
def pluginEventPrefix : Bytes := "@@OPENCODE_CLOUD_EVENT@@".toUTF8.data.toList

/-! ## §A The kept fields -/

/-- `SAFE_ID.fullmatch(item)` -/
def safeId (item : String) : Bool :=
  item.toList.all (fun c => c.isAlpha || c.isDigit || "_.:/-".toList.contains c)
    && 1 ≤ item.length && item.length ≤ 256

/-- `re.fullmatch(r'[0-9a-f]{n}', item) and int(item, 16)` -/
def hexId (n : ℕ) (item : String) : Bool :=
  item.length == n && item.toList.all "0123456789abcdef".toList.contains
    && item.toList.any (· != '0')

/-- The names of the identifiers that need only be safe. -/
def safeNames : List String :=
  ["session_id", "message_id", "logical_model", "part_id", "call_id", "tool"]

/-- Keep a text field that passes a check. -/
def keep (value : Json) (check : String → Bool) (name : String) : Record :=
  match value.get? name with
  | some (.string item) => if check item then [(name, .string item)] else []
  | _ => []

/-- `{'model_dispatch', 'tool_complete', 'tool_error', 'runtime_complete', 'runtime_error'}` -/
def actions : List String :=
  ["model_dispatch", "tool_complete", "tool_error", "runtime_complete", "runtime_error"]

/-- A list or a dictionary cannot be hashed. -/
def hashable : Json → Bool
  | .array _ => false
  | .object _ => false
  | _ => true

/-- The action of an event, where it is one of the known ones; asking a set for a value that cannot be
hashed raises a `TypeError`. -/
def knownAction (value : Json) : Checked (Option String) :=
  let action := (value.get? "action").getD .null
  if !hashable action then .error .other
  else
    match action with
    | .string a => .ok (if actions.contains a then some a else none)
    | _ => .ok none

/-- The dictionary `result` before the times are looked at. -/
def identified (value : Json) (action : String) : Record :=
  [("action", .string action),
      ("event_kind", .string (if action = "model_dispatch" then "instant" else "span"))]
    ++ safeNames.flatMap (keep value safeId)
    ++ keep value (hexId 32) "trace_id"
    ++ keep value (hexId 16) "span_id"
    ++ keep value (hexId 16) "parent_span_id"

/-- The variable `required`. -/
def required (action : String) : List String :=
  if action = "runtime_complete" ∨ action = "runtime_error" then ["span_id", "session_id", "message_id"]
  else ["trace_id", "span_id", "session_id", "message_id", "part_id", "call_id", "tool"]

/-- The fixed error codes. -/
def errorCode (action : String) : Record :=
  if action = "tool_error" then [("error_code", .string "ToolExecutionError")]
  else if action = "runtime_error" then [("error_code", .string "RuntimeExecutionError")]
  else []

/-- The times of an event are integers in range, at most a day apart. -/
def timesValid (start stop : ℤ) : Bool :=
  !(start < 0 || 253402300799999 < stop || !(0 ≤ stop - start && stop - start ≤ 86400000))

section PluginEvent

-- `json.loads`, and the ISO text of a time in milliseconds
variable (loads : Bytes → Loads) (isoformat : ℤ → String)

/-- What is added to an event that spans a time. -/
def timed (value : Json) (action : String) (result : Record) : Option Record :=
  match value.get? "start_time_ms", value.get? "end_time_ms" with
  | some (.int start), some (.int stop) =>
    if !timesValid start stop then none
    else if !((required action).all fun name => result.any (·.1 == name)) then none
    else some (result ++
      [("duration_ms", .int (stop - start)), ("start_time_ms", .int start), ("end_time_ms", .int stop),
        ("timestamp", .string (isoformat stop))] ++ errorCode action)
  | _, _ => none

/-- The line is looked at: it has the prefix and is not too long. -/
def isPluginLine (line : Bytes) : Bool :=
  pluginEventPrefix.isPrefixOf line && line.length ≤ 4096

/-- `plugin_event(line)` -/
def pluginEvent (line : Bytes) : Checked (Option Record) :=
  if !isPluginLine line then .ok none
  else
    match loads (line.drop pluginEventPrefix.length) with
    | .raised => .error .other
    | .undecodable => .ok none
    | .value value =>
      if !value.isObject then .ok none
      else do
        match ← knownAction value with
        | none => return none
        | some action =>
          let result := identified value action
          return if action = "model_dispatch" then some result else timed isoformat value action result

end PluginEvent

/-! ## §B What is kept is safe -/

/-- The keys that a record can have. -/
def recordKeys : List String :=
  ["action", "event_kind"] ++ safeNames ++ ["trace_id"] ++ ["span_id"] ++ ["parent_span_id"] ++
    ["duration_ms", "start_time_ms", "end_time_ms", "timestamp"] ++ ["error_code"]

/-- The fields that a record of an action can have; `times` are the start and the end of its event. -/
inductive Field (isoformat : ℤ → String) (action : String) (times : Option (ℤ × ℤ)) : String × Json → Prop
  | action : Field isoformat action times ("action", .string action)
  | kind : Field isoformat action times
      ("event_kind", .string (if action = "model_dispatch" then "instant" else "span"))
  | id {name item : String} (hname : name ∈ safeNames) (hsafe : safeId item = true) :
      Field isoformat action times (name, .string item)
  | trace {item : String} (hhex : hexId 32 item = true) :
      Field isoformat action times ("trace_id", .string item)
  | span {name item : String} (hname : name = "span_id" ∨ name = "parent_span_id")
      (hhex : hexId 16 item = true) : Field isoformat action times (name, .string item)
  | duration {start stop : ℤ} (htimes : times = some (start, stop)) :
      Field isoformat action times ("duration_ms", .int (stop - start))
  | start {start stop : ℤ} (htimes : times = some (start, stop)) :
      Field isoformat action times ("start_time_ms", .int start)
  | stop {start stop : ℤ} (htimes : times = some (start, stop)) :
      Field isoformat action times ("end_time_ms", .int stop)
  | timestamp {start stop : ℤ} (htimes : times = some (start, stop)) :
      Field isoformat action times ("timestamp", .string (isoformat stop))
  | error {f : String × Json} (hcode : f ∈ errorCode action) : Field isoformat action times f

/-- A record that is safe to write: no key but the known ones, each once, and every value of the kind that
belongs to its key. -/
structure Safe (isoformat : ℤ → String) (r : Record) : Prop where
  keys : ∀ f ∈ r, f.1 ∈ recordKeys
  once : (r.map (·.1)).Nodup
  fields : ∃ action ∈ actions, ∃ times : Option (ℤ × ℤ),
    (∀ start stop, times = some (start, stop) →
      0 ≤ start ∧ stop ≤ 253402300799999 ∧ 0 ≤ stop - start ∧ stop - start ≤ 86400000) ∧
    ∀ f ∈ r, Field isoformat action times f

theorem mem_keep {value : Json} {check : String → Bool} {name : String} {f : String × Json}
    (h : f ∈ keep value check name) : ∃ item, f = (name, .string item) ∧ check item = true := by
  unfold keep at h
  split at h
  · next item _ =>
    split at h
    · next hcheck => exact ⟨item, List.mem_singleton.mp h, hcheck⟩
    · cases h
  · cases h

/-- At most the one key is kept. -/
theorem keys_keep (value : Json) (check : String → Bool) (name : String) :
    ((keep value check name).map (·.1)).Sublist [name] := by
  unfold keep
  split
  · split
    · exact List.Sublist.refl _
    · exact List.nil_sublist _
  · exact List.nil_sublist _

theorem keys_flatMap_keep (value : Json) (check : String → Bool) (names : List String) :
    ((names.flatMap (keep value check)).map (·.1)).Sublist names := by
  induction names with
  | nil => exact List.Sublist.refl _
  | cons name names ih =>
    rw [List.flatMap_cons, List.map_append]
    exact (keys_keep value check name).append ih

theorem keys_errorCode (action : String) : ((errorCode action).map (·.1)).Sublist ["error_code"] := by
  unfold errorCode
  split
  · exact List.Sublist.refl _
  · split
    · exact List.Sublist.refl _
    · exact List.nil_sublist _

/-- The keys before the times are looked at. -/
theorem keys_identified (value : Json) (action : String) :
    ((identified value action).map (·.1)).Sublist
      (["action", "event_kind"] ++ safeNames ++ ["trace_id"] ++ ["span_id"] ++ ["parent_span_id"]) := by
  simp only [identified, List.map_append]
  exact ((((List.Sublist.refl _).append (keys_flatMap_keep value safeId safeNames)).append
    (keys_keep value _ _)).append (keys_keep value _ _)).append (keys_keep value _ _)

theorem fields_identified {isoformat : ℤ → String} {value : Json} {action : String}
    {times : Option (ℤ × ℤ)} {f : String × Json} (h : f ∈ identified value action) :
    Field isoformat action times f := by
  simp only [identified, List.mem_append, List.mem_cons, List.not_mem_nil, or_false, List.mem_flatMap] at h
  rcases h with ((((rfl | rfl) | ⟨name, hname, hkeep⟩) | htrace) | hspan) | hparent
  · exact .action
  · exact .kind
  · obtain ⟨item, rfl, hsafe⟩ := mem_keep hkeep
    exact .id hname hsafe
  · obtain ⟨item, rfl, hhex⟩ := mem_keep htrace
    exact .trace hhex
  · obtain ⟨item, rfl, hhex⟩ := mem_keep hspan
    exact .span (.inl rfl) hhex
  · obtain ⟨item, rfl, hhex⟩ := mem_keep hparent
    exact .span (.inr rfl) hhex

theorem recordKeys_nodup : recordKeys.Nodup := by decide

/-- A record whose keys are among the known ones in their order is safe when its fields are. -/
theorem Safe.of_sublist {isoformat : ℤ → String} {r : Record} {action : String} (times : Option (ℤ × ℤ))
    (hkeys : (r.map (·.1)).Sublist recordKeys) (haction : action ∈ actions)
    (htimes : ∀ start stop, times = some (start, stop) →
      0 ≤ start ∧ stop ≤ 253402300799999 ∧ 0 ≤ stop - start ∧ stop - start ≤ 86400000)
    (hfields : ∀ f ∈ r, Field isoformat action times f) : Safe isoformat r :=
  ⟨fun _ hf => hkeys.subset (List.mem_map_of_mem hf), recordKeys_nodup.sublist hkeys,
    action, haction, times, htimes, hfields⟩

theorem timesValid_iff {start stop : ℤ} : timesValid start stop = true ↔
    0 ≤ start ∧ stop ≤ 253402300799999 ∧ 0 ≤ stop - start ∧ stop - start ≤ 86400000 := by
  simp only [timesValid, Bool.not_eq_true', Bool.or_eq_false_iff, decide_eq_false_iff_not, Int.not_lt,
    Bool.not_eq_false', Bool.and_eq_true, decide_eq_true_eq, and_assoc]

section Results

variable {loads : Bytes → Loads} {isoformat : ℤ → String}

theorem timed_safe {value : Json} {action : String} {r : Record} (haction : action ∈ actions)
    (h : timed isoformat value action (identified value action) = some r) : Safe isoformat r := by
  unfold timed at h
  split at h
  · next start stop _ _ =>
    split at h
    · cases h
    · next hvalid =>
      split at h
      · cases h
      · obtain rfl := Option.some.inj h
        refine Safe.of_sublist (some (start, stop)) ?_ haction (fun s e hse => ?_) fun f hf => ?_
        · simp only [List.map_append]
          exact ((keys_identified value action).append (List.Sublist.refl _)).append (keys_errorCode action)
        · obtain ⟨rfl, rfl⟩ := Prod.mk.inj (Option.some.inj hse)
          rw [Bool.not_eq_true', Bool.not_eq_false] at hvalid
          exact timesValid_iff.mp hvalid
        · simp only [List.mem_append, List.mem_cons, List.not_mem_nil, or_false] at hf
          rcases hf with (hf | rfl | rfl | rfl | rfl) | hf
          · exact fields_identified hf
          · exact .duration rfl
          · exact .start rfl
          · exact .stop rfl
          · exact .timestamp rfl
          · exact .error hf
  · cases h

theorem mem_actions_of_knownAction {value : Json} {action : String}
    (h : knownAction value = .ok (some action)) : action ∈ actions := by
  unfold knownAction at h
  dsimp only at h
  split at h
  · cases h
  · split at h
    · next a _ =>
      split at h
      · next hmem =>
        obtain rfl := Option.some.inj (Except.ok.inj h)
        simpa using hmem
      · cases h
    · cases h

/-- **What is kept of a line is safe.** -/
theorem pluginEvent_safe {line : Bytes} {r : Record} (h : pluginEvent loads isoformat line = .ok (some r)) :
    Safe isoformat r := by
  unfold pluginEvent at h
  split at h
  · cases h
  split at h
  · cases h
  · cases h
  · next value _ =>
    split at h
    · cases h
    · obtain ⟨known, hknown, h⟩ := Checked.bind_eq_ok.mp h
      cases known with
      | none => cases h
      | some action =>
        have haction := mem_actions_of_knownAction hknown
        have h := Except.ok.inj h
        split at h
        · obtain rfl := Option.some.inj h
          refine Safe.of_sublist none ?_ haction nofun fun f hf => fields_identified hf
          exact (keys_identified value action).trans (by decide)
        · exact timed_safe haction h

/-! ## §C The lines that raise -/

/-- The line can be handled: the parser does not give up on it, and the field `action` of an object is no
list and no object. -/
def Harmless (loads : Bytes → Loads) (line : Bytes) : Prop :=
  isPluginLine line = true →
    match loads (line.drop pluginEventPrefix.length) with
    | .raised => False
    | .undecodable => True
    | .value value => value.isObject = true → hashable ((value.get? "action").getD .null) = true

theorem knownAction_ne_error_iff {value : Json} :
    (∃ known, knownAction value = .ok known) ↔ hashable ((value.get? "action").getD .null) = true := by
  unfold knownAction
  dsimp only
  split
  · next h => simpa using h
  · next h =>
    rw [Bool.not_eq_true', Bool.not_eq_false] at h
    refine iff_of_true ?_ h
    split <;> exact ⟨_, rfl⟩

/-- **`plugin_event` returns exactly on the harmless lines.** -/
theorem pluginEvent_ne_error_iff (isoformat : ℤ → String) {line : Bytes} :
    (∃ result, pluginEvent loads isoformat line = .ok result) ↔ Harmless loads line := by
  unfold pluginEvent Harmless
  by_cases hline : isPluginLine line = true
  · simp only [hline, Bool.not_true, Bool.false_eq_true, if_false, forall_const]
    cases loads (line.drop pluginEventPrefix.length) with
    | raised => simp
    | undecodable => simp
    | value value =>
      by_cases hobject : value.isObject = true
      · simp only [hobject, Bool.not_true, Bool.false_eq_true, if_false, forall_const]
        rw [← knownAction_ne_error_iff]
        constructor
        · rintro ⟨result, h⟩
          obtain ⟨known, hknown, -⟩ := Checked.bind_eq_ok.mp h
          exact ⟨known, hknown⟩
        · rintro ⟨known, hknown⟩
          rw [hknown]
          cases known with
          | none => exact ⟨none, rfl⟩
          | some action => exact ⟨_, rfl⟩
      · simp [hobject]
  · simp [hline]

/-! ## §D Other fields make no difference -/

/-- The names of the fields that are looked at. -/
def readNames : List String :=
  ["action", "trace_id", "span_id", "parent_span_id", "start_time_ms", "end_time_ms"] ++ safeNames

theorem identified_congr {value value' : Json} {action : String}
    (h : ∀ name ∈ readNames, value.get? name = value'.get? name) :
    identified value action = identified value' action := by
  have hkeep : ∀ name ∈ readNames, ∀ check, keep value check name = keep value' check name :=
    fun name hname check => by rw [keep, keep, h name hname]
  have hsafe : safeNames.flatMap (keep value safeId) = safeNames.flatMap (keep value' safeId) := by
    rw [List.flatMap_def, List.flatMap_def]
    refine congrArg List.flatten (List.map_congr_left fun name hname => hkeep name ?_ safeId)
    exact List.mem_append_right _ hname
  rw [identified, identified, hsafe, hkeep "trace_id" (by decide), hkeep "span_id" (by decide),
    hkeep "parent_span_id" (by decide)]

/-- **Two lines that differ only in other fields are kept as the same record.** -/
theorem pluginEvent_congr {line line' : Bytes} {value value' : Json}
    (hline : isPluginLine line = isPluginLine line')
    (hloads : loads (line.drop pluginEventPrefix.length) = .value value)
    (hloads' : loads (line'.drop pluginEventPrefix.length) = .value value')
    (hobject : value.isObject = value'.isObject)
    (h : ∀ name ∈ readNames, value.get? name = value'.get? name) :
    pluginEvent loads isoformat line = pluginEvent loads isoformat line' := by
  have haction : knownAction value = knownAction value' := by
    rw [knownAction, knownAction, h "action" (by decide)]
  have htimed : ∀ action result, timed isoformat value action result = timed isoformat value' action result :=
    fun action result => by
      rw [timed, timed, h "start_time_ms" (by decide), h "end_time_ms" (by decide)]
  simp only [pluginEvent, hline, hloads, hloads', hobject, haction, identified_congr h, htimed]

end Results


end OpencodeCloud.AgentRuntime
