/-
# OpencodeCloud.Observability.Aggregate -- spans, their tree and the time of a module

`aggregate` makes spans of the events of a trace: the events with one span identifier are a span, from the first
start to the last end that they tell. Spans refer to their parents, which may be missing, themselves, or
descendants of their own; where the chain of parents has no end, a span is a root.

The events are untyped: `aggregate` raises when it takes a list or a dictionary for a key, or a number that no
float can hold for a duration (`aggregate_ok_iff`).
-/
import Mathlib
import OpencodeCloud.Library.Chains
import OpencodeCloud.Library.Groups
import OpencodeCloud.Library.Intervals
import OpencodeCloud.Library.Keys

namespace OpencodeCloud.Observability

open OpencodeCloud.Library

/-! ## §A Events -/

/-- `event.get(key)` -/
def field (event : Json) (key : String) : Json := (event.get? key).getD .null

/-- What stands outside the module. -/
structure Texts where
  /-- `datetime.fromisoformat` of a text, in UTC: the milliseconds from the earliest time that there is. -/
  instant : String → Option ℚ
  /-- `str` of what is no string. -/
  str : Json → String
  /-- `str.upper` -/
  upper : String → String

variable (texts : Texts)

/-- `str(value)` -/
def Texts.strOf : Json → String
  | .string s => s
  | value => texts.str value

/-- `instant(event.get("timestamp"))` -/
def dateOf (event : Json) : Option ℚ :=
  match field event "timestamp" with
  | .string s => texts.instant s
  | _ => none

/-- `float(n)` raises: rounded to 53 bits the number is no longer below `2 ** 1024`. -/
def tooLarge (n : ℤ) : Bool := 2 ^ 1024 - 2 ^ 970 ≤ n.natAbs

/-- `duration_value(event)`; the number is taken as it is. -/
def durationValue (event : Json) : Checked (Option ℚ) :=
  match field event "duration_ms" with
  | .int n => if tooLarge n then .error .other else .ok (if 0 ≤ n then some n else none)
  | .float (.finite x) => .ok (if 0 ≤ x then some x else none)
  | .float .negativeZero => .ok (some 0)
  | _ => .ok none

/-- `event.get("span_id")`, when it is a text. -/
def spanIdOf (event : Json) : Option String :=
  match field event "span_id" with
  | .string sid => some sid
  | _ => none

/-! ## §B Spans -/

inductive Status
  | error | ok | unknown
  deriving DecidableEq

/-- A span. Times are kept as such, and not as the texts that they are sent as. -/
structure Span where
  spanId : String
  parentSpanId : Json
  module : Json
  name : Json
  startTime : Option ℚ
  endTime : Option ℚ
  durationMs : Option ℚ
  statusCode : Json
  status : Status
  errorCode : Json
  eventCount : ℕ
  events : List Json
  children : List String
  externalParent : Bool
  cycleBroken : Bool
  offsetMs : Option ℚ

/-- The events that tell a time, with it. -/
def datedOf (members : List Json) : List (ℚ × Json) :=
  members.filterMap fun event => (dateOf texts event).map (·, event)

/-- `date - timedelta(milliseconds=duration_ms)`, when there is such a time. -/
def startOf (dated : ℚ × Json) : Checked (Option ℚ) := do
  match ← durationValue dated.2 with
  | none => pure none
  | some duration => pure (if 0 ≤ dated.1 - duration then some (dated.1 - duration) else none)

/-- The event that the parent and the name are taken from: the first of the latest, or the last one when none
tells a time. -/
def latestOf (members : List Json) : Json :=
  match (datedOf texts members).argmax Prod.fst with
  | some latest => latest.2
  | none => members.getLastD .null

/-- `next((e.get(key) for e in reversed(members) if e.get(key)), None)` -/
def lastTruthy (members : List Json) (key : String) : Json :=
  ((members.reverse.map (field · key)).find? Json.truthy).getD .null

/-- `e.get(key) is not None` in place of a condition. -/
def lastGiven (members : List Json) (key : String) : Json :=
  ((members.reverse.map (field · key)).find? fun value => !value.same .null).getD .null

/-- `isinstance(status, (int, float)) and not isinstance(status, bool) and status >= 400` -/
def isFailure : Json → Bool
  | .int n => 400 ≤ n
  | .float (.finite x) => 400 ≤ x
  | _ => false

/-- `bool(error) or …` -/
def failed (members : List Json) : Bool :=
  (lastTruthy members "error_code").truthy || isFailure (lastGiven members "status_code")
    || members.any fun event =>
      ["ERROR", "CRITICAL"].contains (texts.upper (texts.strOf ((event.get? "level").getD (.string ""))))

/-- `a or b` -/
def orElse (a b : Json) : Json := if a.truthy then a else b

/-- The span of the events with an identifier, before the tree is made. -/
def spanOf (group : String × List Json) : Checked Span := do
  let (sid, members) := group
  let dated := datedOf texts members
  let ends := (dated.map Prod.fst).max?
  let starts := (← dated.mapM startOf).reduceOption.min?
  let latest := latestOf texts members
  let status := lastGiven members "status_code"
  pure
    { spanId := sid
      parentSpanId := field latest "parent_span_id"
      module := lastTruthy members "module"
      name := orElse (field latest "stage") (field latest "action")
      startTime := starts
      endTime := ends
      durationMs := ends.bind fun e => starts.map fun s => e - s
      statusCode := status
      status := if failed texts members then .error else if !status.same .null then .ok else .unknown
      errorCode := lastTruthy members "error_code"
      eventCount := members.length
      events := members.mergeSort fun a b =>
        !decide (texts.strOf ((b.get? "timestamp").getD (.string ""))
          < texts.strOf ((a.get? "timestamp").getD (.string "")))
      children := []
      externalParent := false
      cycleBroken := false
      offsetMs := none }

/-! ## §C The tree -/

/-- `by_id.get(key)`, when the key has a hash. -/
def byId (spans : List Span) : Json → Option Span
  | .string sid => spans.find? (·.spanId == sid)
  | _ => none

/-- The identifier of the recorded parent of a span, when that is among the spans. -/
def parentId (spans : List Span) (sid : String) : Option String :=
  (spans.find? (·.spanId == sid)).bind fun span => (byId spans span.parentSpanId).map Span.spanId

def spanIds (spans : List Span) : Finset String := (spans.map Span.spanId).toFinset

theorem byId_mem {spans : List Span} {key : Json} {span : Span} (h : byId spans key = some span) :
    span ∈ spans ∧ key = .string span.spanId := by
  cases key with
  | string sid =>
    have hfound := List.find?_some h
    exact ⟨List.mem_of_find?_eq_some h, by rw [beq_iff_eq.1 hfound]⟩
  | _ => cases h

theorem parentId_mem (spans : List Span) (sid pid : String) (h : parentId spans sid = some pid) :
    pid ∈ spanIds spans := by
  obtain ⟨span, -, hparent⟩ := Option.bind_eq_some_iff.1 h
  obtain ⟨parent, hfound, rfl⟩ := Option.map_eq_some_iff.1 hparent
  exact List.mem_toFinset.2 (List.mem_map_of_mem (byId_mem hfound).1)

/-- The walk along the ancestors of a span comes to a span that it has seen. -/
def cycle (spans : List Span) (span : Span) : Bool :=
  walk (spanIds spans) (parentId_mem spans) {span.spanId} span.spanId

/-- `parent and not cycle`: the span is a child of its parent. -/
def isChild (spans : List Span) (span : Span) : Bool :=
  (byId spans span.parentSpanId).isSome && !cycle spans span

/-- The loop over the spans. It raises when a recorded parent has no hash. -/
def treeOf (spans : List Span) : Checked (List Span × List String) :=
  if spans.all (·.parentSpanId.hashable) then
    .ok (spans.map fun span =>
        { span with
          externalParent := span.parentSpanId.truthy && (byId spans span.parentSpanId).isNone
          cycleBroken := cycle spans span
          children := (spans.filter fun child =>
            isChild spans child && child.parentSpanId.same (.string span.spanId)).map Span.spanId },
      (spans.filter (!isChild spans ·)).map Span.spanId)
  else .error .other

/-! ## §D Modules -/

/-- A span that counts for the time of its module. -/
def rangeOf (span : Span) : Option (Json × (ℚ × ℚ)) :=
  if span.module.truthy then span.startTime.bind fun s => span.endTime.map fun e => (span.module, (s, e)) else none

/-- `sorted(ranges)` -/
def sortedRanges (ranges : List (ℚ × ℚ)) : List (ℚ × ℚ) :=
  ranges.mergeSort fun a b => a.1 < b.1 || a.1 == b.1 && a.2 ≤ b.2

/-- The time of each module, with the module as it came up first. It raises when a module has no hash. -/
def moduleMs (spans : List Span) : Checked (List (Json × ℚ)) :=
  let ranges := spans.filterMap rangeOf
  if ranges.all (·.1.hashable) then
    .ok ((groupsBy (fun range : Json × (ℚ × ℚ) => range.1.key?) ranges).map fun group =>
      ((group.2.head?.map Prod.fst).getD .null, sweep (sortedRanges (group.2.map Prod.snd))))
  else .error .other

/-! ## §E The aggregate -/

structure Aggregate where
  spans : List Span
  roots : List String
  moduleMs : List (Json × ℚ)

/-- `spans.sort(key=lambda s: s["start_time"] or "")`: a span without a start comes first. -/
def sortedSpans (spans : List Span) : List Span :=
  spans.mergeSort fun a b =>
    match a.startTime, b.startTime with
    | none, _ => true
    | some _, none => false
    | some s, some t => s ≤ t

/-- `instant(s["start_time"]) or instant(s["end_time"])` -/
def pointOf (span : Span) : Option ℚ := span.startTime.or span.endTime

/-- `aggregate(events)` -/
def aggregate (events : List Json) : Checked Aggregate := do
  let spans ← (groupsBy spanIdOf events).mapM (spanOf texts)
  let modules ← moduleMs spans
  let (spans, roots) ← treeOf spans
  let spans := sortedSpans spans
  let origin := (spans.filterMap pointOf).min?
  pure
    { spans := spans.map fun span =>
        { span with offsetMs := (pointOf span).bind fun point => origin.map fun origin => point - origin }
      roots := roots
      moduleMs := modules }

variable {texts}

/-! ## §F What raises -/

/-- A float can hold the duration, if it is a number. -/
def sized (event : Json) : Bool :=
  match field event "duration_ms" with
  | .int n => !tooLarge n
  | _ => true

/-- The duration of an event that has one. -/
def duration? (event : Json) : Option ℚ :=
  match field event "duration_ms" with
  | .int n => if 0 ≤ n then some n else none
  | .float (.finite x) => if 0 ≤ x then some x else none
  | .float .negativeZero => some 0
  | _ => none

theorem durationValue_eq (event : Json) :
    durationValue event = if sized event then .ok (duration? event) else .error .other := by
  unfold durationValue sized duration?
  cases field event "duration_ms" with
  | int n => cases h : tooLarge n <;> simp [h]
  | float x => cases x <;> rfl
  | _ => rfl

/-- The start that an event tells. -/
def start? (dated : ℚ × Json) : Option ℚ :=
  (duration? dated.2).bind fun duration => if 0 ≤ dated.1 - duration then some (dated.1 - duration) else none

theorem startOf_eq (dated : ℚ × Json) :
    startOf dated = if sized dated.2 then .ok (start? dated) else .error .other := by
  unfold startOf start?
  rw [durationValue_eq]
  cases sized dated.2 with
  | false => rfl
  | true =>
    cases duration? dated.2 with
    | none => rfl
    | some duration => rfl

theorem mapM_startOf (dated : List (ℚ × Json)) :
    dated.mapM startOf
      = if dated.all fun d => sized d.2 then .ok (dated.map start?) else .error .other := by
  induction dated with
  | nil => rfl
  | cons d dated ih =>
    rw [List.mapM_cons, ih, startOf_eq, List.all_cons]
    cases sized d.2 with
    | false => rfl
    | true =>
      cases dated.all fun d => sized d.2 with
      | false => rfl
      | true => rfl

/-- The first start that the events of a span tell. -/
def firstStart (texts : Texts) (members : List Json) : Option ℚ := ((datedOf texts members).filterMap start?).min?

/-- The last time that the events of a span tell. -/
def lastEnd (texts : Texts) (members : List Json) : Option ℚ := ((datedOf texts members).map Prod.fst).max?

/-- What the span of a group of events has from them. -/
structure Describes (texts : Texts) (group : String × List Json) (span : Span) : Prop where
  spanId : span.spanId = group.1
  parentSpanId : span.parentSpanId = field (latestOf texts group.2) "parent_span_id"
  module : span.module = lastTruthy group.2 "module"
  startTime : span.startTime = firstStart texts group.2
  endTime : span.endTime = lastEnd texts group.2

theorem spanOf_eq_ok {group : String × List Json} :
    (∃ span, spanOf texts group = .ok span) ↔ ∀ d ∈ datedOf texts group.2, sized d.2 = true := by
  unfold spanOf
  simp only [mapM_startOf]
  by_cases h : ∀ d ∈ datedOf texts group.2, sized d.2 = true
  · rw [if_pos (List.all_eq_true.2 h)]
    exact ⟨fun _ => h, fun _ => ⟨_, rfl⟩⟩
  · rw [if_neg (fun hall => h (List.all_eq_true.1 hall))]
    exact ⟨fun ⟨_, hs⟩ => (nomatch hs), fun hall => absurd hall h⟩

theorem spanOf_describes {group : String × List Json} {span : Span} (h : spanOf texts group = .ok span) :
    Describes texts group span := by
  have hsized := spanOf_eq_ok.1 ⟨span, h⟩
  unfold spanOf at h
  simp only [mapM_startOf] at h
  rw [if_pos (List.all_eq_true.2 hsized)] at h
  cases h
  refine ⟨rfl, rfl, rfl, ?_, rfl⟩
  rw [firstStart, List.reduceOption, List.filterMap_map]
  rfl

/-! ## §G What `aggregate` returns -/

/-- The offset is the only thing that the end of `aggregate` adds to the spans of the tree. -/
theorem aggregate_eq_ok {events : List Json} {result : Aggregate} (h : aggregate texts events = .ok result) :
    ∃ spans tree, List.Forall₂ (fun group span => spanOf texts group = .ok span) (groupsBy spanIdOf events) spans
      ∧ moduleMs spans = .ok result.moduleMs ∧ treeOf spans = .ok (tree, result.roots)
      ∧ ∃ offset : Span → Option ℚ,
        result.spans = (sortedSpans tree).map fun span => { span with offsetMs := offset span } := by
  unfold aggregate at h
  obtain ⟨spans, hspans, h⟩ := Checked.bind_eq_ok.1 h
  obtain ⟨modules, hmodules, h⟩ := Checked.bind_eq_ok.1 h
  obtain ⟨⟨tree, roots⟩, htree, h⟩ := Checked.bind_eq_ok.1 h
  cases h
  exact ⟨spans, tree, mapM_eq_ok.1 hspans, hmodules, htree, _, rfl⟩

/-- The events of each span: there is one span for each identifier. -/
theorem spans_of_groups {events : List Json} {spans : List Span}
    (h : List.Forall₂ (fun group span => spanOf texts group = .ok span) (groupsBy spanIdOf events) spans) :
    spans.map Span.spanId = (groupsBy spanIdOf events).map Prod.fst
      ∧ ∀ span ∈ spans,
        Describes texts (span.spanId, events.filter (spanIdOf · == some span.spanId)) span
          ∧ events.filter (spanIdOf · == some span.spanId) ≠ [] := by
  constructor
  · generalize groupsBy spanIdOf events = groups at h
    induction h with
    | nil => rfl
    | cons hs _ ih => rw [List.map_cons, List.map_cons, ih, (spanOf_describes hs).spanId]
  · intro span hspan
    obtain ⟨group, hgroup, hs⟩ : ∃ group ∈ groupsBy spanIdOf events, spanOf texts group = .ok span := by
      generalize groupsBy spanIdOf events = groups at h
      induction h with
      | nil => cases hspan
      | cons hs _ ih =>
        rcases List.mem_cons.1 hspan with rfl | hspan
        · exact ⟨_, List.mem_cons_self, hs⟩
        · obtain ⟨group, hgroup, hs⟩ := ih hspan
          exact ⟨group, List.mem_cons_of_mem _ hgroup, hs⟩
    obtain ⟨sid, members⟩ := group
    obtain ⟨hmembers, hne⟩ := mem_groupsBy.1 hgroup
    have hd := spanOf_describes hs
    have hid : span.spanId = sid := hd.spanId
    rw [hid, ← hmembers]
    exact ⟨hd, hne⟩

/-- The usual types of the fields that `aggregate` takes as keys, and a duration that a float can hold. -/
structure Usual (event : Json) : Prop where
  parent : (field event "parent_span_id").hashable = true
  module : (field event "module").hashable = true
  sized : sized event = true

theorem lastTruthy_of {p : Json → Prop} {members : List Json} {key : String} (hnull : p .null)
    (h : ∀ event ∈ members, p (field event key)) : p (lastTruthy members key) := by
  unfold lastTruthy
  cases hf : (members.reverse.map (field · key)).find? Json.truthy with
  | none => exact hnull
  | some value =>
    obtain ⟨event, hevent, rfl⟩ := List.mem_map.1 (List.mem_of_find?_eq_some hf)
    exact h event (List.mem_reverse.1 hevent)

theorem latestOf_mem {members : List Json} (h : members ≠ []) : latestOf texts members ∈ members := by
  unfold latestOf
  cases hmax : (datedOf texts members).argmax Prod.fst with
  | none =>
    show members.getLastD .null ∈ members
    rw [List.getLastD_eq_getLast?, List.getLast?_eq_getLast_of_ne_nil h]
    exact List.getLast_mem h
  | some latest =>
    obtain ⟨event, hevent, hdate⟩ := List.mem_filterMap.1 (List.argmax_mem hmax)
    obtain ⟨date, -, rfl⟩ := Option.map_eq_some_iff.1 hdate
    exact hevent

theorem rangeOf_module {span : Span} {range : Json × (ℚ × ℚ)} (h : rangeOf span = some range) :
    range.1 = span.module := by
  unfold rangeOf at h
  split at h
  · obtain ⟨s, -, h⟩ := Option.bind_eq_some_iff.1 h
    obtain ⟨e, -, rfl⟩ := Option.map_eq_some_iff.1 h
    rfl
  · cases h

variable (texts) in
/-- **Usual events are aggregated.** -/
theorem aggregate_of_usual {events : List Json} (h : ∀ event ∈ events, Usual event) :
    ∃ result, aggregate texts events = .ok result := by
  have hspan : ∀ group ∈ groupsBy spanIdOf events, ∃ span, spanOf texts group = .ok span := by
    intro group hgroup
    obtain ⟨sid, members⟩ := group
    obtain ⟨rfl, -⟩ := mem_groupsBy.1 hgroup
    refine spanOf_eq_ok.2 fun d hd => ?_
    obtain ⟨event, hevent, hdate⟩ := List.mem_filterMap.1 hd
    obtain ⟨date, -, rfl⟩ := Option.map_eq_some_iff.1 hdate
    exact (h event (List.mem_of_mem_filter hevent)).sized
  obtain ⟨spans, hspans⟩ := exists_mapM_eq_ok.2 hspan
  have hdesc := (spans_of_groups (mapM_eq_ok.1 hspans)).2
  have hmodule : ∃ modules, moduleMs spans = .ok modules := by
    unfold moduleMs
    rw [if_pos]
    · exact ⟨_, rfl⟩
    · refine List.all_eq_true.2 fun range hr => ?_
      obtain ⟨span, hs, hrange⟩ := List.mem_filterMap.1 hr
      obtain ⟨hd, -⟩ := hdesc span hs
      rw [rangeOf_module hrange, hd.module]
      exact lastTruthy_of (p := fun value => value.hashable = true) rfl
        fun event he => (h event (List.mem_of_mem_filter he)).module
  have htree : ∃ tree, treeOf spans = .ok tree := by
    unfold treeOf
    rw [if_pos]
    · exact ⟨_, rfl⟩
    · refine List.all_eq_true.2 fun span hs => ?_
      obtain ⟨hd, hne⟩ := hdesc span hs
      rw [hd.parentSpanId]
      exact (h _ (List.mem_of_mem_filter (latestOf_mem hne))).parent
  obtain ⟨modules, hmodules⟩ := hmodule
  obtain ⟨⟨tree, roots⟩, htree⟩ := htree
  unfold aggregate
  rw [hspans]
  simp only [bind, Except.bind, hmodules, htree]
  exact ⟨_, rfl⟩

/-! ## §H When spans are made -/

/-- No exception is raised for the events of a span: durations of dated events are numbers that a float can hold,
and the recorded parent has a hash. -/
def spanUsable (texts : Texts) (members : List Json) : Bool :=
  ((datedOf texts members).all fun dated => sized dated.2)
    && (field (latestOf texts members) "parent_span_id").hashable

/-- A module with a time has a hash. -/
def rangeUsable (texts : Texts) (members : List Json) : Bool :=
  !((lastTruthy members "module").truthy && (firstStart texts members).isSome && (lastEnd texts members).isSome)
    || (lastTruthy members "module").hashable

theorem Describes.usable_range {group : String × List Json} {span : Span} (h : Describes texts group span) :
    (∀ range, rangeOf span = some range → range.1.hashable = true) ↔ rangeUsable texts group.2 = true := by
  unfold rangeOf rangeUsable
  rw [h.module, h.startTime, h.endTime]
  cases (lastTruthy group.2 "module").truthy with
  | false => simp
  | true =>
    cases firstStart texts group.2 with
    | none => simp
    | some start =>
      cases lastEnd texts group.2 with
      | none => simp
      | some last => simp

variable (texts) in
/-- **Events are aggregated** exactly when no exception is raised for the events of a span. -/
theorem aggregate_ok_iff (events : List Json) :
    (∃ result, aggregate texts events = .ok result) ↔
      ∀ group ∈ groupsBy spanIdOf events, spanUsable texts group.2 = true ∧ rangeUsable texts group.2 = true := by
  have hranges : ∀ spans : List Span, (∃ modules, moduleMs spans = .ok modules) ↔
      ∀ span ∈ spans, ∀ range, rangeOf span = some range → range.1.hashable = true := by
    intro spans
    unfold moduleMs
    simp only
    split
    · rename_i hall
      refine iff_of_true ⟨_, rfl⟩ fun span hspan range hr => ?_
      exact List.all_eq_true.1 hall range (List.mem_filterMap.2 ⟨span, hspan, hr⟩)
    · rename_i hall
      refine iff_of_false nofun fun h => hall (List.all_eq_true.2 fun range hr => ?_)
      obtain ⟨span, hspan, hr⟩ := List.mem_filterMap.1 hr
      exact h span hspan range hr
  constructor
  · rintro ⟨result, hresult⟩ group hgroup
    obtain ⟨spans, tree, hspans, hmodules, htree, -⟩ := aggregate_eq_ok hresult
    obtain ⟨span, hspan, hs⟩ := exists_of_forall₂ hspans hgroup
    have hdesc := spanOf_describes hs
    refine ⟨Bool.and_eq_true_iff.2 ⟨List.all_eq_true.2 (spanOf_eq_ok.1 ⟨span, hs⟩), ?_⟩,
      hdesc.usable_range.1 ((hranges spans).1 ⟨_, hmodules⟩ span hspan)⟩
    unfold treeOf at htree
    split at htree
    · rename_i hall
      rw [← hdesc.parentSpanId]
      exact List.all_eq_true.1 hall span hspan
    · cases htree
  · intro h
    have hone : ∀ group ∈ groupsBy spanIdOf events, ∃ span, spanOf texts group = .ok span := fun group hgroup =>
      spanOf_eq_ok.2 (List.all_eq_true.1 (Bool.and_eq_true_iff.1 (h group hgroup).1).1)
    obtain ⟨spans, hspans⟩ := exists_mapM_eq_ok.2 hone
    have hdesc : ∀ span ∈ spans, ∃ group ∈ groupsBy spanIdOf events, Describes texts group span := fun span hs =>
      (exists_of_mem_mapM hspans hs).imp fun group hg => ⟨hg.1, spanOf_describes hg.2⟩
    obtain ⟨modules, hmodules⟩ := (hranges spans).2 fun span hspan => by
      obtain ⟨group, hgroup, hd⟩ := hdesc span hspan
      exact hd.usable_range.2 (h group hgroup).2
    have htree : (spans.all fun span => span.parentSpanId.hashable) = true := by
      refine List.all_eq_true.2 fun span hspan => ?_
      obtain ⟨group, hgroup, hd⟩ := hdesc span hspan
      rw [hd.parentSpanId]
      exact (Bool.and_eq_true_iff.1 (h group hgroup).1).2
    have htree' : ∃ tree, treeOf spans = .ok tree := ⟨_, if_pos htree⟩
    obtain ⟨tree, htree'⟩ := htree'
    unfold aggregate
    rw [hspans]
    simp only [bind, Except.bind, hmodules, htree']
    exact ⟨_, rfl⟩

theorem sortedSpans_perm (spans : List Span) : (sortedSpans spans).Perm spans := List.mergeSort_perm _ _

/-- The modules of the spans are those of the groups. -/
theorem mem_modules {events : List Json} {result : Aggregate} (h : aggregate texts events = .ok result)
    (module : Json) :
    module ∈ result.spans.map Span.module
      ↔ ∃ group ∈ groupsBy spanIdOf events, lastTruthy group.2 "module" = module := by
  obtain ⟨spans, tree, hspans, -, htree, offset, hresult⟩ := aggregate_eq_ok h
  have hmodules : module ∈ result.spans.map Span.module ↔ module ∈ spans.map Span.module := by
    unfold treeOf at htree
    split at htree
    · obtain ⟨rfl, -⟩ := Prod.mk.inj (Except.ok.inj htree)
      rw [hresult, List.map_map]
      change module ∈ (sortedSpans _).map Span.module ↔ _
      rw [((sortedSpans_perm _).map Span.module).mem_iff, List.map_map]
      rfl
    · cases htree
  rw [hmodules, List.mem_map]
  constructor
  · rintro ⟨span, hspan, rfl⟩
    obtain ⟨group, hgroup, hs⟩ := exists_of_mem_mapM (mapM_eq_ok.2 hspans) hspan
    exact ⟨group, hgroup, (spanOf_describes hs).module.symm⟩
  · rintro ⟨group, hgroup, rfl⟩
    obtain ⟨span, hspan, hs⟩ := exists_of_forall₂ hspans hgroup
    exact ⟨span, hspan, (spanOf_describes hs).module⟩

end OpencodeCloud.Observability
