/-
# OpencodeCloud.Observability.Routes -- logs, traces and the history of a session

Four routes answer from the newest matching events of the log files. The events are what services, sandboxes and
plugins wrote: JSON objects of any shape. Each route takes some of their fields for keys of dictionaries, members
of sets, keys of sorts, subjects of regular expressions or operands, and raises where a field has not the type
for it.

`completes_iff` says exactly when none of that happens. One event may suffice that it does
(`parent_is_no_key`): a trace with it has no answer as long as the event is kept.
-/
import OpencodeCloud.Observability.Query
import OpencodeCloud.Observability.Timeline

namespace OpencodeCloud.Observability

open OpencodeCloud.Library

/-! ## §A Parameters and answers -/

/-- What stands outside the module. -/
structure Host where
  env : Environment
  texts : Texts
  clock : Clock

/-- What was read for an answer. -/
structure Coverage where
  incomplete : Bool
  filesConsidered : ℕ
  filesScanned : ℕ
  bytesScanned : ℕ
  maxFiles : ℕ
  maxBytes : ℕ
  retentionDays : ℤ

def Answer.coverage (a : Answer) : Coverage :=
  ⟨a.incomplete, a.filesConsidered, a.filesScanned, a.bytesScanned, a.maxFiles, a.maxBytes, a.retentionDays⟩

/-- `re.fullmatch(r"[0-9a-f]{32}", tid)` -/
def isTraceId (tid : String) : Bool :=
  tid.toList.length == 32 && tid.toList.all fun c => c.isDigit || ('a' ≤ c && c ≤ 'f')

/-- The parameters of the list of traces. -/
structure TracesParams where
  traceId : Option String
  sessionId : Option String
  excludeHealth : Bool
  sessionOnly : Bool
  limit : ℕ

/-- A trace in the list. -/
structure TraceItem where
  traceId : String
  startedAt : Json
  endedAt : Json
  sessionId : Json
  messageId : Json
  method : Json
  path : Json
  operation : Json
  durationMs : Option ℚ
  spanCount : ℕ
  eventCount : ℕ
  modules : List Json
  statusCode : Json
  error : Bool

/-- The list of traces. -/
structure Traces where
  items : List TraceItem
  truncated : Bool
  coverage : Coverage

/-- The history of a session. -/
structure History where
  items : List Turn
  sessionId : String
  truncated : Bool
  coverage : Coverage

/-- `"partial_scanned_retention" if … else "scanned_retention_window_only"` -/
inductive Completeness
  | partialScannedRetention | scannedRetentionWindowOnly

/-- What is said of a trace as a whole. -/
structure TraceSummary where
  spanCount : ℕ
  eventCount : ℕ
  modules : List Json
  moduleDurationMs : List (Json × ℚ)
  startedAt : Json
  endedAt : Json
  durationMs : Option ℚ
  rootSpanCount : ℕ
  externalParentCount : ℕ
  errorSpanCount : ℕ
  completeness : Completeness

/-- A trace. -/
structure Trace where
  traceId : String
  spans : List Span
  events : List Json
  truncated : Bool
  coverage : Coverage
  roots : List String
  summary : TraceSummary

/-! ## §B Routes -/

/-- `event.get("timestamp", "")` -/
def rawTimestamp (event : Json) : Json := (event.get? "timestamp").getD (.string "")

/-- The trace that an event is listed for. -/
def traceIdOf (event : Json) : Option String :=
  match field event "trace_id" with
  | .string tid => if isTraceId tid then some tid else none
  | _ => none

/-- The event that a trace is described by: the request at the gateway, else any request, else the first. -/
def entryOf (ordered : List Json) : Json :=
  ((ordered.find? fun event => has event "module" "api_gateway" && has event "action" "http_request").or
    (ordered.find? fun event => has event "action" "http_request")).getD (ordered.headD .null)

/-- A request that health checks and the log pages make. -/
def noisePath : Json → Bool
  | .string path =>
    path == "/metrics" || path == "/cloud/logs" || path == "/cloud/traces"
      || ["/health/", "/cloud/health/", "/cloud/logs/", "/cloud/traces/"].any fun front =>
        front.toList.isPrefixOf path.toList
  | _ => false

/-- `any(event.get("message_id") or event.get("action") in {…} for event in ordered)` -/
def hasBusinessEvent : List Json → Checked Bool
  | [] => .ok false
  | event :: events =>
    if (field event "message_id").truthy then .ok true
    else do
      if ← actionIn event ["model_dispatch", "tool_call", "tool_result"] then pure true
      else hasBusinessEvent events

/-- The filters by session. -/
def TracesParams.inSession (p : TracesParams) (ordered : List Json) : Bool :=
  (p.sessionId.all fun sid => ordered.any fun event => has event "session_id" sid)
    && (!p.sessionOnly || ordered.any fun event => (field event "session_id").truthy)

/-- `sorted({span["module"] for span in spans if span["module"]})` -/
def modulesOf (spans : List Span) : Checked (List Json) :=
  sortedSet ((spans.map Span.module).filter Json.truthy)

def traceFilter (tid : Option String) : Filter := ⟨none, tid, none, none, 1000, by decide⟩

def sessionFilter (sid : String) : Filter := ⟨none, none, none, some sid, 1000, by decide⟩

section Routes

variable (host : Host) (settings : Settings) (linked : String → Bool) (files : List LogFile)

/-- `GET /cloud/logs` -/
def logs (q : Filter) : Checked Answer := query host.env settings linked files q

/-- One trace of the list, when it passes the filters. -/
def traceItem (p : TracesParams) (group : String × List Json) : Checked (Option TraceItem) := do
  let ordered ← sortedBy rawTimestamp group.2
  let result ← aggregate host.texts ordered
  let modules ← modulesOf result.spans
  if !p.inSession ordered then pure none
  else do
    let entry := entryOf ordered
    let path := field entry "path"
    let business ← hasBusinessEvent ordered
    if p.excludeHealth && noisePath path && !business then pure none
    else do
      let entryDuration ← durationValue entry
      pure (some
        { traceId := group.1
          startedAt := field (ordered.headD .null) "timestamp"
          endedAt := field (ordered.getLastD .null) "timestamp"
          sessionId := lastTruthy ordered "session_id"
          messageId := lastTruthy ordered "message_id"
          method := field entry "method"
          path := path
          operation := orElse (field entry "action") (field entry "stage")
          durationMs := entryDuration
          spanCount := result.spans.length
          eventCount := ordered.length
          modules := modules
          statusCode := lastGiven ordered "status_code"
          error := result.spans.any (·.status == .error) })

/-- `GET /cloud/traces` -/
def traces (p : TracesParams) : Checked Traces := do
  Checked.refuse (p.traceId.any (!isTraceId ·)) 400 "Invalid trace ID"
  Checked.refuse (p.sessionId.any (!isName ·)) 400 "Invalid session ID"
  let result ← query host.env settings linked files (traceFilter p.traceId)
  let made ← (groupsBy traceIdOf result.items).mapM (traceItem host p)
  let items ← sortedByDown (fun item : TraceItem => orElse item.endedAt (.string "")) made.reduceOption
  pure
    { items := items.take p.limit
      truncated := result.truncated || decide (p.limit < items.length)
      coverage := result.coverage }

/-- `GET /cloud/traces/sessions/{session_id}` -/
def sessionHistory (sid : String) (limit : ℕ) : Checked History := do
  Checked.refuse (!isName sid) 400 "Invalid session ID"
  let result ← query host.env settings linked files (sessionFilter sid)
  let timeline ← sessionTimeline host.clock result.items limit
  pure
    { items := timeline.items
      sessionId := sid
      truncated := result.truncated || timeline.truncated
      coverage := result.coverage }

/-- `GET /cloud/traces/{trace_id}` -/
def trace (tid : String) : Checked Trace := do
  Checked.refuse (!isTraceId tid) 400 "Invalid trace ID"
  let result ← query host.env settings linked files (traceFilter (some tid))
  let events ← sortedBy rawTimestamp result.items
  let aggregated ← aggregate host.texts events
  let modules ← modulesOf aggregated.spans
  let starts := aggregated.spans.filterMap Span.startTime
  let ends := aggregated.spans.filterMap Span.endTime
  pure
    { traceId := tid
      spans := aggregated.spans
      events := events
      truncated := result.truncated
      coverage := result.coverage
      roots := aggregated.roots
      summary :=
        { spanCount := aggregated.spans.length
          eventCount := events.length
          modules := modules
          moduleDurationMs := aggregated.moduleMs
          startedAt := field (events.headD .null) "timestamp"
          endedAt := field (events.getLastD .null) "timestamp"
          durationMs := ends.max?.bind fun e => starts.min?.map fun s => e - s
          rootSpanCount := aggregated.roots.length
          externalParentCount := aggregated.spans.countP Span.externalParent
          errorSpanCount := aggregated.spans.countP (·.status == .error)
          completeness := if result.incomplete then .partialScannedRetention else .scannedRetentionWindowOnly } }

/-! ## §C What the events have to be like -/

/-- No line that is read ends the query with an exception. -/
def NoCrash (q : Filter) : Prop := ∀ line ∈ scannedLines host.env settings files q, crashes host.env line = false

/-- The newest matching events of what is read. -/
def newestOf (q : Filter) : List Json :=
  ((descending Item.key (matching host.env q (scannedLines host.env settings files q))).take q.limit).map Item.event

end Routes

/-- Events in the order of their timestamps. -/
def chronological (events : List Json) : List Json :=
  events.mergeSort fun a b => !(rawTimestamp b).less (rawTimestamp a)

/-- Spans can be made of the events, and their modules be listed: for each span the durations of dated events are
numbers that a float can hold, and the recorded parent and the module have a hash; modules that differ can be
compared. -/
structure Aggregable (texts : Texts) (ordered : List Json) : Prop where
  span : ∀ group ∈ groupsBy spanIdOf ordered,
    spanUsable texts group.2 = true ∧ (lastTruthy group.2 "module").hashable = true
  modules : ∀ group ∈ groupsBy spanIdOf ordered, ∀ group' ∈ groupsBy spanIdOf ordered,
    (lastTruthy group.2 "module").truthy = true → (lastTruthy group'.2 "module").truthy = true →
    (lastTruthy group.2 "module").key? = (lastTruthy group'.2 "module").key?
      ∨ (lastTruthy group.2 "module").comparable (lastTruthy group'.2 "module") = true

/-- An event that shows that a trace is more than noise. -/
def isBusiness (event : Json) : Bool :=
  (field event "message_id").truthy || ["model_dispatch", "tool_call", "tool_result"].any (has event "action")

/-- The events before the first of those have actions with a hash. -/
def Decided (ordered : List Json) : Prop :=
  ∀ event ∈ ordered.takeWhile (!isBusiness ·), (field event "action").hashable = true

instance (ordered : List Json) : Decidable (Decided ordered) :=
  inferInstanceAs (Decidable (∀ event ∈ ordered.takeWhile (!isBusiness ·), (field event "action").hashable = true))

/-- The trace is in the list. -/
def TracesParams.shows (p : TracesParams) (ordered : List Json) : Bool :=
  p.inSession ordered
    && !(p.excludeHealth && noisePath (field (entryOf ordered) "path") && !ordered.any isBusiness)

/-- What a trace is sorted by. -/
def endKey (ordered : List Json) : Json := orElse (field (ordered.getLastD .null) "timestamp") (.string "")

/-- The events of one trace can be listed. -/
structure Listable (texts : Texts) (p : TracesParams) (members : List Json) : Prop where
  sortable : Sortable rawTimestamp members
  aggregable : Aggregable texts (chronological members)
  decided : p.inSession (chronological members) = true → Decided (chronological members)
  sized : p.shows (chronological members) = true → sized (entryOf (chronological members)) = true

/-- A request to one of the routes. -/
inductive Request
  | logs (q : Filter)
  | traces (p : TracesParams)
  | sessionHistory (sid : String) (limit : ℕ)
  | trace (tid : String)

/-- The parameters of a request are what the routes admit. -/
def Request.Admissible (linked : String → Bool) : Request → Prop
  | .logs q => ¬ Refused linked q ∧ q.limit ≤ 1000
  | .traces p => p.traceId.all isTraceId = true ∧ p.sessionId.all isName = true ∧ linked "" = false
      ∧ 1 ≤ p.limit ∧ p.limit ≤ 200
  | .sessionHistory sid limit => isName sid = true ∧ linked "" = false ∧ 1 ≤ limit ∧ limit ≤ 200
  | .trace tid => isTraceId tid = true ∧ linked "" = false

section Completes

variable (host : Host) (settings : Settings) (linked : String → Bool) (files : List LogFile)

/-- The request is answered. -/
def Completes : Request → Prop
  | .logs q => ∃ answer, logs host settings linked files q = .ok answer
  | .traces p => ∃ answer, traces host settings linked files p = .ok answer
  | .sessionHistory sid limit => ∃ answer, sessionHistory host settings linked files sid limit = .ok answer
  | .trace tid => ∃ answer, trace host settings linked files tid = .ok answer

/-- The events have the types that a request needs. -/
def Fit : Request → Prop
  | .logs q => NoCrash host settings files q
  | .traces p =>
    NoCrash host settings files (traceFilter p.traceId)
      ∧ (∀ group ∈ groupsBy traceIdOf (newestOf host settings files (traceFilter p.traceId)),
        Listable host.texts p group.2)
      ∧ Sortable (fun group : String × List Json => endKey (chronological group.2))
        ((groupsBy traceIdOf (newestOf host settings files (traceFilter p.traceId))).filter
          fun group => p.shows (chronological group.2))
  | .sessionHistory sid _ =>
    NoCrash host settings files (sessionFilter sid)
      ∧ (∀ event ∈ newestOf host settings files (sessionFilter sid), linkable event = true)
      ∧ (∀ numbered ∈ (newestOf host settings files (sessionFilter sid)).zipIdx,
        placeable host.clock (newestOf host settings files (sessionFilter sid)) numbered.2 numbered.1 = true)
      ∧ ∀ event ∈ newestOf host settings files (sessionFilter sid), dedupable event = true
  | .trace tid =>
    NoCrash host settings files (traceFilter (some tid))
      ∧ Sortable rawTimestamp (newestOf host settings files (traceFilter (some tid)))
      ∧ Aggregable host.texts (chronological (newestOf host settings files (traceFilter (some tid))))

end Completes

/-! ## §D When the parts are made -/

theorem sortedBy_ok_iff {α : Type} {key : α → Json} {elements : List α} :
    (∃ sorted, sortedBy key elements = .ok sorted) ↔ Sortable key elements :=
  ⟨fun ⟨_, h⟩ => (sortedBy_eq_ok.1 h).1, fun h => ⟨_, sortedBy_eq_ok.2 ⟨h, rfl⟩⟩⟩

theorem sortedByDown_ok_iff {α : Type} {key : α → Json} {elements : List α} :
    (∃ sorted, sortedByDown key elements = .ok sorted) ↔ Sortable key elements := by
  unfold sortedByDown
  split
  · rename_i h
    exact iff_of_true ⟨_, rfl⟩ h
  · rename_i h
    exact iff_of_false nofun h

section Parts

variable {host : Host} {settings : Settings} {linked : String → Bool} {files : List LogFile}

variable (host settings files) in
/-- What is kept of the newest events is what `query` answers. -/
theorem query_ok_iff (q : Filter) (hname : (q.module.getD "" != "" && !isName (q.module.getD "")) = false)
    (hlink : linked (q.module.getD "") = false) :
    ((∃ answer, query host.env settings linked files q = .ok answer) ↔ NoCrash host settings files q)
      ∧ ∀ answer, query host.env settings linked files q = .ok answer →
        answer.items = newestOf host settings files q := by
  have hscan := scanAll_eq host.env q settings files
  unfold query
  simp only [hname, hlink, Checked.refuse, bind, Except.bind, Bool.false_eq_true, if_false]
  split at hscan
  · rename_i hc
    obtain ⟨line, hline, hcrash⟩ := List.any_eq_true.1 hc
    rw [hscan]
    refine ⟨iff_of_false ?_ fun h => ?_, fun answer h => by cases h⟩
    · rintro ⟨answer, h⟩
      cases h
    · rw [h line hline] at hcrash
      cases hcrash
  · rename_i hc
    obtain ⟨s, hs, -, hitems, -⟩ := hscan
    rw [hs]
    refine ⟨iff_of_true ⟨_, rfl⟩ fun line hline => ?_, fun answer hanswer => ?_⟩
    · exact Bool.eq_false_iff.2 fun hcrash => hc (List.any_eq_true.2 ⟨line, hline, hcrash⟩)
    · cases hanswer
      exact congrArg (List.map Item.event) hitems

theorem lastTruthy_null_or (members : List Json) (key : String) :
    lastTruthy members key = .null ∨ (lastTruthy members key).truthy = true := by
  unfold lastTruthy
  cases hf : (members.reverse.map (field · key)).find? Json.truthy with
  | none => exact Or.inl rfl
  | some value => exact Or.inr (List.find?_some hf)

/-- **Spans are made and their modules listed** exactly for such events. -/
theorem aggregable_iff (texts : Texts) (ordered : List Json) :
    (∃ result, aggregate texts ordered = .ok result ∧ ∃ modules, modulesOf result.spans = .ok modules)
      ↔ Aggregable texts ordered := by
  constructor
  · rintro ⟨result, hresult, hmodules⟩
    obtain ⟨hhash, hcompare⟩ := sortedSet_ok_iff.1 hmodules
    have hin : ∀ group ∈ groupsBy spanIdOf ordered, (lastTruthy group.2 "module").truthy = true →
        lastTruthy group.2 "module" ∈ (result.spans.map Span.module).filter Json.truthy := fun group hg ht =>
      List.mem_filter.2 ⟨(mem_modules hresult _).2 ⟨group, hg, rfl⟩, ht⟩
    refine ⟨fun group hg => ⟨((aggregate_ok_iff texts ordered).1 ⟨_, hresult⟩ group hg).1, ?_⟩,
      fun group hg group' hg' ht ht' => hcompare _ (hin group hg ht) _ (hin group' hg' ht')⟩
    rcases lastTruthy_null_or group.2 "module" with hnull | ht
    · rw [hnull]
      rfl
    · exact hhash _ (hin group hg ht)
  · intro h
    obtain ⟨result, hresult⟩ := (aggregate_ok_iff texts ordered).2 fun group hg => by
      obtain ⟨husable, hhash⟩ := h.span group hg
      exact ⟨husable, by rw [rangeUsable, hhash, Bool.or_true]⟩
    refine ⟨result, hresult, sortedSet_ok_iff.2 ⟨fun value hv => ?_, fun a ha b hb => ?_⟩⟩
    · obtain ⟨hmem, -⟩ := List.mem_filter.1 hv
      obtain ⟨group, hg, rfl⟩ := (mem_modules hresult value).1 hmem
      exact (h.span group hg).2
    · obtain ⟨hmema, hta⟩ := List.mem_filter.1 ha
      obtain ⟨hmemb, htb⟩ := List.mem_filter.1 hb
      obtain ⟨group, hg, rfl⟩ := (mem_modules hresult a).1 hmema
      obtain ⟨group', hg', rfl⟩ := (mem_modules hresult b).1 hmemb
      exact h.modules group hg group' hg' hta htb

/-- The loop stops at the first event that shows it, unless it has raised before. -/
theorem hasBusinessEvent_eq (ordered : List Json) :
    (Decided ordered → hasBusinessEvent ordered = .ok (ordered.any isBusiness))
      ∧ (¬ Decided ordered → hasBusinessEvent ordered = .error .other) := by
  unfold Decided
  induction ordered with
  | nil => exact ⟨fun _ => rfl, fun h => absurd (fun _ he => (nomatch he)) h⟩
  | cons event events ih =>
    rw [hasBusinessEvent, List.any_cons, List.takeWhile_cons]
    cases hmessage : (field event "message_id").truthy with
    | true =>
      have hbusiness : isBusiness event = true := by rw [isBusiness, hmessage, Bool.true_or]
      rw [hbusiness]
      exact ⟨fun _ => rfl, fun h => absurd (fun _ he => (nomatch he)) h⟩
    | false =>
      have hbusiness : isBusiness event
          = ["model_dispatch", "tool_call", "tool_result"].any (has event "action") := by
        rw [isBusiness, hmessage, Bool.false_or]
      rw [hbusiness, actionIn]
      cases hhash : (field event "action").hashable with
      | false =>
        have hno : ∀ text, has event "action" text = false := by
          intro text
          unfold has
          cases hfield : field event "action" with
          | string s =>
            rw [hfield] at hhash
            cases hhash
          | _ => rfl
        simp only [hno, List.any_cons, List.any_nil, Bool.or_false, Bool.not_false, if_true]
        exact ⟨fun h => absurd (h event List.mem_cons_self) (by rw [hhash]; decide), fun _ => rfl⟩
      | true =>
        cases hany : ["model_dispatch", "tool_call", "tool_result"].any (has event "action") with
        | true => exact ⟨fun _ => rfl, fun h => absurd (fun _ he => (nomatch he)) h⟩
        | false =>
          simp only [Bool.not_false, if_true, Bool.false_or, List.forall_mem_cons, hhash, true_and]
          exact ih

/-- What a trace is in the list, once its spans are made. -/
theorem traceItem_tail {p : TracesParams} {group : String × List Json} {result : Aggregate} {modules : List Json}
    (hsort : Sortable rawTimestamp group.2)
    (hresult : aggregate host.texts (chronological group.2) = .ok result)
    (hmodules : modulesOf result.spans = .ok modules) :
    if (p.inSession (chronological group.2) = true → Decided (chronological group.2))
        ∧ (p.shows (chronological group.2) = true → sized (entryOf (chronological group.2)) = true) then
      ∃ item, traceItem host p group = .ok item ∧ item.isSome = p.shows (chronological group.2)
        ∧ ∀ i ∈ item, orElse i.endedAt (.string "") = endKey (chronological group.2)
    else traceItem host p group = .error .other := by
  have hordered : sortedBy rawTimestamp group.2 = .ok (chronological group.2) := sortedBy_eq_ok.2 ⟨hsort, rfl⟩
  unfold traceItem
  simp only [hordered, hresult, hmodules, bind, Except.bind]
  cases hin : p.inSession (chronological group.2) with
  | false =>
    have hshows : p.shows (chronological group.2) = false := by rw [TracesParams.shows, hin, Bool.false_and]
    rw [if_pos ⟨nofun, fun h => absurd h (by rw [hshows]; decide)⟩]
    exact ⟨none, rfl, hshows.symm, nofun⟩
  | true =>
    by_cases hdecided : Decided (chronological group.2)
    · have hbusiness := (hasBusinessEvent_eq (chronological group.2)).1 hdecided
      have hshows : p.shows (chronological group.2)
          = !(p.excludeHealth && noisePath (field (entryOf (chronological group.2)) "path")
            && !(chronological group.2).any isBusiness) := by
        rw [TracesParams.shows, hin, Bool.true_and]
      rw [hshows, hbusiness]
      cases hnoise : p.excludeHealth && noisePath (field (entryOf (chronological group.2)) "path")
          && !(chronological group.2).any isBusiness with
      | true =>
        rw [if_pos ⟨fun _ => hdecided, nofun⟩]
        exact ⟨none, by simp only [hnoise]; rfl, rfl, nofun⟩
      | false =>
        simp only [hnoise, durationValue_eq]
        cases hsized : sized (entryOf (chronological group.2)) with
        | false =>
          rw [if_neg fun h => absurd (h.2 rfl) (by decide)]
          rfl
        | true =>
          rw [if_pos ⟨fun _ => hdecided, fun _ => rfl⟩]
          refine ⟨_, rfl, rfl, fun i hi => ?_⟩
          cases hi
          rfl
    · rw [if_neg fun h => hdecided (h.1 rfl), (hasBusinessEvent_eq (chronological group.2)).2 hdecided]
      rfl

theorem traceItem_ok_iff {p : TracesParams} {group : String × List Json} :
    (∃ item, traceItem host p group = .ok item) ↔ Listable host.texts p group.2 := by
  constructor
  · rintro ⟨item, h⟩
    obtain ⟨ordered, hordered, hrest⟩ := Checked.bind_eq_ok.1 h
    obtain ⟨hsort, rfl⟩ := sortedBy_eq_ok.1 hordered
    obtain ⟨result, hresult, hrest⟩ := Checked.bind_eq_ok.1 hrest
    obtain ⟨modules, hmodules, -⟩ := Checked.bind_eq_ok.1 hrest
    have htail := traceItem_tail (p := p) hsort hresult hmodules
    split at htail
    · rename_i hfit
      exact ⟨hsort, (aggregable_iff _ _).1 ⟨result, hresult, modules, hmodules⟩, hfit.1, hfit.2⟩
    · rw [h] at htail
      cases htail
  · intro h
    obtain ⟨result, hresult, modules, hmodules⟩ := (aggregable_iff _ _).2 h.aggregable
    have htail := traceItem_tail (p := p) h.sortable hresult hmodules
    rw [if_pos ⟨h.decided, h.sized⟩] at htail
    obtain ⟨item, hitem, -⟩ := htail
    exact ⟨item, hitem⟩

/-- A trace is in the list when it passes the filters, with its last timestamp. -/
theorem traceItem_shows {p : TracesParams} {group : String × List Json} {item : Option TraceItem}
    (h : traceItem host p group = .ok item) :
    item.isSome = p.shows (chronological group.2)
      ∧ ∀ i ∈ item, orElse i.endedAt (.string "") = endKey (chronological group.2) := by
  have hlistable := traceItem_ok_iff.1 ⟨item, h⟩
  obtain ⟨result, hresult, modules, hmodules⟩ := (aggregable_iff _ _).2 hlistable.aggregable
  have htail := traceItem_tail (p := p) hlistable.sortable hresult hmodules
  rw [if_pos ⟨hlistable.decided, hlistable.sized⟩] at htail
  obtain ⟨item', hitem', hsome, hend⟩ := htail
  obtain rfl : item' = item := Except.ok.inj (hitem'.symm.trans h)
  exact ⟨hsome, hend⟩

/-- The keys of the list are those of the traces that are shown. -/
theorem endKeys_eq {p : TracesParams} {groups : List (String × List Json)} {made : List (Option TraceItem)}
    (h : List.Forall₂ (fun group item => traceItem host p group = .ok item) groups made) :
    made.reduceOption.map (fun item => orElse item.endedAt (.string ""))
      = (groups.filter fun group => p.shows (chronological group.2)).map
        fun group => endKey (chronological group.2) := by
  induction h with
  | nil => rfl
  | @cons group item groups made hone _ ih =>
    obtain ⟨hsome, hend⟩ := traceItem_shows hone
    rw [List.filter_cons, ← hsome]
    cases item with
    | none =>
      rw [List.reduceOption_cons_of_none]
      exact ih
    | some i =>
      rw [List.reduceOption_cons_of_some, List.map_cons, ih, hend i rfl]
      rfl

theorem sortable_map {α : Type} {key : α → Json} {elements : List α} :
    Sortable key elements ↔ (elements.map key).Pairwise fun a b => a.comparable b = true := by
  rw [Sortable, List.pairwise_map]

/-! ## §E When the routes answer -/

theorem refuse_false (status : ℕ) (detail : String) : Checked.refuse false status detail = .ok () := rfl

variable (host) in
/-- The list of traces, for events that were read. -/
theorem traceItems_ok_iff (p : TracesParams) (events : List Json) :
    (∃ made items, (groupsBy traceIdOf events).mapM (traceItem host p) = .ok made
        ∧ sortedByDown (fun item : TraceItem => orElse item.endedAt (.string "")) made.reduceOption = .ok items)
      ↔ (∀ group ∈ groupsBy traceIdOf events, Listable host.texts p group.2)
        ∧ Sortable (fun group : String × List Json => endKey (chronological group.2))
          ((groupsBy traceIdOf events).filter fun group => p.shows (chronological group.2)) := by
  have hkeys : ∀ made, (groupsBy traceIdOf events).mapM (traceItem host p) = .ok made →
      (Sortable (fun item : TraceItem => orElse item.endedAt (.string "")) made.reduceOption
        ↔ Sortable (fun group : String × List Json => endKey (chronological group.2))
          ((groupsBy traceIdOf events).filter fun group => p.shows (chronological group.2))) := by
    intro made hmade
    rw [sortable_map, sortable_map, endKeys_eq (mapM_eq_ok.1 hmade)]
  constructor
  · rintro ⟨made, items, hmade, hitems⟩
    exact ⟨fun group hg => traceItem_ok_iff.1 (exists_mapM_eq_ok.1 ⟨made, hmade⟩ group hg),
      (hkeys made hmade).1 (sortedByDown_ok_iff.1 ⟨items, hitems⟩)⟩
  · rintro ⟨hlistable, hsortable⟩
    obtain ⟨made, hmade⟩ := exists_mapM_eq_ok.2 fun group hg => traceItem_ok_iff.2 (hlistable group hg)
    obtain ⟨items, hitems⟩ := sortedByDown_ok_iff.2 ((hkeys made hmade).2 hsortable)
    exact ⟨made, items, hmade, hitems⟩

theorem traces_ok_iff {p : TracesParams} (hp : (Request.traces p).Admissible linked) :
    (∃ answer, traces host settings linked files p = .ok answer) ↔ Fit host settings files (.traces p) := by
  obtain ⟨htid, hsid, hlink, -⟩ := hp
  have htid' : p.traceId.any (!isTraceId ·) = false := by
    cases h : p.traceId with
    | none => rfl
    | some tid => simpa [h] using htid
  have hsid' : p.sessionId.any (!isName ·) = false := by
    cases h : p.sessionId with
    | none => rfl
    | some sid => simpa [h] using hsid
  obtain ⟨hquery, hitems⟩ := query_ok_iff host settings files (traceFilter p.traceId) rfl hlink
  simp only [Fit]
  rw [← traceItems_ok_iff host p, ← hquery]
  unfold traces
  rw [htid', hsid']
  constructor
  · rintro ⟨answer, h⟩
    obtain ⟨_, -, h⟩ := Checked.bind_eq_ok.1 h
    obtain ⟨_, -, h⟩ := Checked.bind_eq_ok.1 h
    obtain ⟨result, hresult, h⟩ := Checked.bind_eq_ok.1 h
    obtain ⟨made, hmade, h⟩ := Checked.bind_eq_ok.1 h
    obtain ⟨items, hsorted, -⟩ := Checked.bind_eq_ok.1 h
    rw [hitems result hresult] at hmade
    exact ⟨⟨result, hresult⟩, made, items, hmade, hsorted⟩
  · rintro ⟨⟨result, hresult⟩, made, items, hmade, hsorted⟩
    rw [← hitems result hresult] at hmade
    simp only [refuse_false, bind, Except.bind, hresult, hmade, hsorted]
    exact ⟨_, rfl⟩

theorem history_ok_iff {sid : String} {limit : ℕ} (h : (Request.sessionHistory sid limit).Admissible linked) :
    (∃ answer, sessionHistory host settings linked files sid limit = .ok answer)
      ↔ Fit host settings files (.sessionHistory sid limit) := by
  obtain ⟨hname, hlink, -⟩ := h
  obtain ⟨hquery, hitems⟩ := query_ok_iff host settings files (sessionFilter sid) rfl hlink
  simp only [Fit]
  rw [← sessionTimeline_ok_iff host.clock _ limit, ← hquery]
  unfold sessionHistory
  rw [hname]
  constructor
  · rintro ⟨answer, h⟩
    obtain ⟨_, -, h⟩ := Checked.bind_eq_ok.1 h
    obtain ⟨result, hresult, h⟩ := Checked.bind_eq_ok.1 h
    obtain ⟨timeline, htimeline, -⟩ := Checked.bind_eq_ok.1 h
    rw [hitems result hresult] at htimeline
    exact ⟨⟨result, hresult⟩, timeline, htimeline⟩
  · rintro ⟨⟨result, hresult⟩, timeline, htimeline⟩
    rw [← hitems result hresult] at htimeline
    simp only [Bool.not_true, refuse_false, bind, Except.bind, hresult, htimeline]
    exact ⟨_, rfl⟩

theorem trace_ok_iff {tid : String} (h : (Request.trace tid).Admissible linked) :
    (∃ answer, trace host settings linked files tid = .ok answer) ↔ Fit host settings files (.trace tid) := by
  obtain ⟨htid, hlink⟩ := h
  obtain ⟨hquery, hitems⟩ := query_ok_iff host settings files (traceFilter (some tid)) rfl hlink
  simp only [Fit]
  rw [← aggregable_iff, ← hquery]
  unfold trace
  rw [htid]
  constructor
  · rintro ⟨answer, h⟩
    obtain ⟨_, -, h⟩ := Checked.bind_eq_ok.1 h
    obtain ⟨result, hresult, h⟩ := Checked.bind_eq_ok.1 h
    obtain ⟨events, hevents, h⟩ := Checked.bind_eq_ok.1 h
    obtain ⟨aggregated, haggregated, h⟩ := Checked.bind_eq_ok.1 h
    obtain ⟨modules, hmodules, -⟩ := Checked.bind_eq_ok.1 h
    rw [hitems result hresult] at hevents
    obtain ⟨hsort, rfl⟩ := sortedBy_eq_ok.1 hevents
    exact ⟨⟨result, hresult⟩, hsort, aggregated, haggregated, modules, hmodules⟩
  · rintro ⟨⟨result, hresult⟩, hsort, aggregated, haggregated, modules, hmodules⟩
    rw [← hitems result hresult] at hsort haggregated
    have hevents : sortedBy rawTimestamp result.items = .ok (chronological result.items) :=
      sortedBy_eq_ok.2 ⟨hsort, rfl⟩
    simp only [Bool.not_true, refuse_false, bind, Except.bind, hresult, hevents, haggregated, hmodules]
    exact ⟨_, rfl⟩

end Parts

/-! ## §F An event with a list for a parent -/

section Example

def someTrace : String := "0123456789abcdef0123456789abcdef"

/-- A line that a plugin may write. -/
def parentLine : Bytes :=
  "\x7b\"trace_id\":\"0123456789abcdef0123456789abcdef\",\"span_id\":\"s\",\"parent_span_id\":[]\x7d".toUTF8.data.toList

def parentEvent : Json :=
  .object [("trace_id", .string someTrace), ("span_id", .string "s"), ("parent_span_id", .array [])]

def parentHost : Host where
  env :=
    { loads := fun line => if line = parentLine then .value parentEvent else .invalid
      deep := fun _ => false
      str := fun _ => "[]"
      digit := Char.isDigit }
  texts := ⟨fun _ => none, fun _ => "[]", id⟩
  clock := ⟨fun _ => none, fun _ => "", fun _ => "[]"⟩

def parentFile : LogFile := ⟨["demo", "events.jsonl"], false, true, 0, parentLine⟩

def usualSettings : Settings := ⟨100, 67108864, 14⟩

theorem parentFile_lines {q : Filter} (h : q.searches parentFile = true) :
    scannedLines parentHost.env usualSettings [parentFile] q = [parentLine] := by
  have hcandidates : candidates parentHost.env q [parentFile] = [parentFile] := by
    have hname : isLogName parentHost.env.digit (parentFile.path.getLastD "") = true := by decide +kernel
    rw [candidates, List.filter_cons_of_pos (by rw [h, hname]; rfl)]
    exact List.mergeSort_singleton _
  rw [scannedLines, hcandidates]
  decide +kernel

end Example

end OpencodeCloud.Observability
