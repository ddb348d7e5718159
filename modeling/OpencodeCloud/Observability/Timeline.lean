/-
# OpencodeCloud.Observability.Timeline -- the turns of a session

`session_timeline` makes turns of the events of a session. An event that takes part is a phase: a request, what a
runtime or a tool did, a model call or a stage of it. Its turn is named by the trace that a message was linked
to first, else by its own trace, else by its message, else by its place in the list.

A model call is recorded by the HTTP layer and by callbacks. Within a turn a callback is left out when the HTTP
layer has recorded its span. Beyond that nothing is left out.
-/
import OpencodeCloud.Observability.Aggregate
import OpencodeCloud.Library.Lines
import Mathlib.Data.List.ReduceOption

namespace OpencodeCloud.Observability

open OpencodeCloud.Library

/-! ## §A Events -/

/-- A point in time: the milliseconds on its own clock from the beginning of year one, and what that clock is
ahead of UTC. -/
structure Moment where
  wall : ℚ
  offset : ℚ
  deriving DecidableEq

/-- What moments are compared by. -/
def Moment.utc (m : Moment) : ℚ := m.wall - m.offset

/-- What stands outside the module. -/
structure Clock where
  /-- `datetime.fromisoformat` of a text with `Z` replaced, in UTC when it names no zone. -/
  moment : String → Option Moment
  /-- `isoformat` -/
  iso : Moment → String
  /-- `str` of what is no string. -/
  str : Json → String

variable (clock : Clock)

/-- `str(value)` -/
def Clock.strOf : Json → String
  | .string s => s
  | value => clock.str value

/-- `event.get(key) == text` -/
def has (event : Json) (key text : String) : Bool :=
  match field event key with
  | .string s => s == text
  | _ => false

/-- `re.fullmatch(r'/session/[^/]+/(?:message|prompt_async|command|shell)', path)` -/
def sessionPath (path : String) : Bool :=
  match path.toList.splitOn '/' with
  | [[], session, name, action] =>
    session == "session".toList && !name.isEmpty
      && (["message", "prompt_async", "command", "shell"].map String.toList).contains action
  | _ => false

/-- `request(event)`. It raises when the path of such an event is no text. -/
def isRequest (event : Json) : Checked Bool :=
  if has event "module" "api_gateway" && has event "method" "POST" then
    match (event.get? "path").getD (.string "") with
    | .string path => .ok (sessionPath path)
    | _ => .error .other
  else .ok false

/-- `event.get('action') in {…}`. It raises when the action has no hash. -/
def actionIn (event : Json) (actions : List String) : Checked Bool :=
  if (field event "action").hashable then .ok (actions.any (has event "action")) else .error .other

inductive PhaseKind
  | request | runtimeScope | runtime | tool | modelPhase | model
  deriving DecidableEq

/-- `event.get('method', 'POST') == 'POST'` -/
def posted (event : Json) : Bool := ((event.get? "method").getD (.string "POST")).same (.string "POST")

/-- The kind of an event that takes part. -/
def kindOf (event : Json) : Checked (Option PhaseKind) := do
  if ← isRequest event then pure (some .request)
  else if has event "module" "agent_runtime" then
    if ← actionIn event ["runtime_complete", "runtime_error"] then pure (some .runtimeScope)
    else if has event "action" "model_dispatch" then pure (some .runtime)
    else if ← actionIn event ["tool_complete", "tool_error"] then pure (some .tool)
    else pure none
  else if has event "module" "model_gateway" then
    if has event "action" "stage_complete" then pure (some .modelPhase)
    else if ← actionIn event ["http_request", "model.completed", "model.failed"] then
      pure (if posted event then some .model else none)
    else pure none
  else pure none

/-! ## §B Identities -/

/-- `mid and tid and (request(event) or …)`: the event links its message to its trace. -/
def links (event : Json) : Checked Bool :=
  if (field event "message_id").truthy && (field event "trace_id").truthy then do
    if ← isRequest event then pure true
    else pure (has event "action" "model_dispatch" || has event "module" "model_gateway")
  else .ok false

/-- `aliases.setdefault(mid, tid)` for the next event. It raises when the message has no hash. -/
def addAlias (aliases : List (Key × Json)) (event : Json) : Checked (List (Key × Json)) := do
  if ← links event then
    match (field event "message_id").key? with
    | none => .error .other
    | some mid =>
      pure (if (aliases.lookup mid).isSome then aliases else aliases ++ [(mid, field event "trace_id")])
  else pure aliases

/-- The loop over the events. -/
def aliasesOf (events : List Json) : Checked (List (Key × Json)) := events.foldlM addAlias []

/-- `aliases.get(mid) or tid or mid or f'unlinked-{index}'` -/
def identityOf (aliases : List (Key × Json)) (index : ℕ) (event : Json) : Checked Json :=
  match (field event "message_id").key? with
  | none => .error .other
  | some mid =>
    .ok (orElse ((aliases.lookup mid).getD .null) (orElse (field event "trace_id")
      (orElse (field event "message_id") (.string ("unlinked-" ++ toString index)))))

/-! ## §C Phases -/

/-- A phase. Its times are kept as such, and not as the texts that they are sent as. -/
structure Phase where
  id : String
  kind : PhaseKind
  module : Json
  action : Json
  traceId : Json
  spanId : Json
  messageId : Json
  parentSpanId : Json
  stage : Json
  startedAt : Option Moment
  endedAt : Option Moment
  durationMs : Option ℚ
  path : Json
  tool : Json
  logicalModel : Json
  statusCode : Json
  errorCode : Json

/-- `duration`, when it is a number up to a day. -/
def phaseDuration (event : Json) : Option ℚ :=
  match field event "duration_ms" with
  | .int n => if 0 ≤ n ∧ n ≤ 86400000 then some n else none
  | .float (.finite x) => if 0 ≤ x ∧ x ≤ 86400000 then some x else none
  | .float .negativeZero => some 0
  | _ => none

/-- `end - timedelta(milliseconds=duration) if end and duration is not None else end`. It raises when there is no
such time. -/
def startedAt (ended : Option Moment) (duration : Option ℚ) : Checked (Option Moment) :=
  match ended, duration with
  | some e, some d => if 0 ≤ e.wall - d then .ok (some { e with wall := e.wall - d }) else .error .other
  | ended, _ => .ok ended

/-- The phase of an event with its turn, when the event takes part. -/
def phaseOf (aliases : List (Key × Json)) (event : Json) (index : ℕ) : Checked (Option (Json × Phase)) := do
  match ← kindOf event with
  | none => pure none
  | some kind => do
    let identity ← identityOf aliases index event
    if !identity.hashable then .error .other
    else
      let tid := field event "trace_id"
      let ended := clock.moment (clock.strOf (field event "timestamp"))
      let duration := phaseDuration event
      let started ← startedAt ended duration
      pure (some (identity,
        { id := clock.strOf (orElse tid identity) ++ ":"
            ++ clock.strOf (orElse (field event "span_id") (.string (toString index))) ++ ":"
            ++ clock.strOf (field event "action")
          kind := kind
          module := field event "module"
          action := field event "action"
          traceId := tid
          spanId := field event "span_id"
          messageId := field event "message_id"
          parentSpanId := field event "parent_span_id"
          stage := field event "stage"
          startedAt := started
          endedAt := ended
          durationMs := duration
          path := field event "path"
          tool := field event "tool"
          logicalModel := field event "logical_model"
          statusCode := field event "status_code"
          errorCode := field event "error_code" }))

/-- The phases of all events, each with its turn. -/
def phasesOf (events : List Json) : Checked (List (Json × Phase)) := do
  let aliases ← aliasesOf events
  let phases ← events.zipIdx.mapM fun event => phaseOf clock aliases event.1 event.2
  pure phases.reduceOption

/-! ## §D Turns -/

/-- A turn. The phases are the model calls, with their stages, and the tools. -/
structure Turn where
  id : Json
  traceIds : List Json
  runtime : Option Phase
  requests : List Phase
  phases : List (Phase × List Phase)
  startedAt : Option Moment
  endedAt : Option Moment
  observedDurationMs : Option ℚ
  runtimeObserved : Bool
  modelCalls : ℕ

def Phase.isModel (p : Phase) : Bool := p.kind == .model

/-- `p['kind'] == 'model' and p['action'] == 'http_request'` -/
def Phase.isHttp (p : Phase) : Bool := p.isModel && p.action.same (.string "http_request")

/-- `p['kind'] == 'model' and p['action'] != 'http_request'` -/
def Phase.isCallback (p : Phase) : Bool := p.isModel && !p.action.same (.string "http_request")

/-- The spans that the HTTP layer has recorded. -/
def httpSpans (phases : List Phase) : List (Option Key) :=
  (phases.filter fun p => p.isHttp && p.spanId.truthy).map (·.spanId.key?)

/-- The phases without the callbacks of recorded spans. It raises when a span that is looked up has no hash. -/
def dedupe (phases : List Phase) : Checked (List Phase) :=
  if phases.all fun p => !((p.isHttp && p.spanId.truthy || p.isCallback) && !p.spanId.hashable) then
    .ok (phases.filter fun p => !(p.isCallback && (httpSpans phases).contains p.spanId.key?))
  else .error .other

/-- `phases.sort(key=lambda p: (p['started_at'] or '', p['id']))` -/
def sortedPhases (phases : List Phase) : List Phase :=
  let started := fun p : Phase => (p.startedAt.map clock.iso).getD ""
  phases.mergeSort fun a b =>
    decide (started a < started b) || started a == started b && !decide (b.id < a.id)

/-- The turn of a group of phases. -/
def turnOf (group : Key × List (Json × Phase)) : Checked Turn := do
  let members := group.2.map Prod.snd
  let phases := sortedPhases clock (← dedupe members)
  let scopes := phases.filter (·.kind == .runtimeScope)
  let starts := phases.filterMap Phase.startedAt
  let ends := phases.filterMap Phase.endedAt
  let started := starts.argmin Moment.utc
  let ended := ends.argmax Moment.utc
  pure
    { id := (group.2.head?.map Prod.fst).getD .null
      traceIds := ((members.map Phase.traceId).filter Json.truthy).foldl
        (fun ids tid => if ids.any (·.same tid) then ids else ids ++ [tid]) []
      runtime := scopes.getLast?
      requests := phases.filter (·.kind == .request)
      phases := (phases.filter fun p => p.isModel || p.kind == .tool).map fun p =>
        (p, if p.isModel then
          phases.filter fun stage => stage.kind == .modelPhase && stage.parentSpanId.same p.spanId else [])
      startedAt := started
      endedAt := ended
      observedDurationMs := started.bind fun s => ended.map fun e => e.utc - s.utc
      runtimeObserved := !scopes.isEmpty
      modelCalls := phases.countP Phase.isModel }

/-- The turns, in the order in which they start. -/
def turnsOf (events : List Json) : Checked (List Turn) := do
  let phases ← phasesOf clock events
  let turns ← (groupsBy (fun p : Json × Phase => p.1.key?) phases).mapM (turnOf clock)
  pure (turns.mergeSort fun a b =>
    !decide ((b.startedAt.map clock.iso).getD "" < (a.startedAt.map clock.iso).getD ""))

/-- The answer. -/
structure Timeline where
  items : List Turn
  truncated : Bool

/-- `session_timeline(events, limit)`. The slice `[-0:]` is the whole list. -/
def sessionTimeline (events : List Json) (limit : ℕ) : Checked Timeline := do
  let turns ← turnsOf clock events
  pure ⟨if limit = 0 then turns else lastN limit turns, decide (limit < turns.length)⟩

variable {clock}

/-! ## §E Links -/

/-- The event links its message. -/
def linksMessage (event : Json) : Bool :=
  match links event with
  | .ok linked => linked
  | .error _ => false

/-- No exception is raised for an event by the loop over the links. -/
def linkable (event : Json) : Bool :=
  match links event with
  | .ok linked => !linked || (field event "message_id").hashable
  | .error _ => false

/-- The link of a message that an event is. -/
def linkedTo (mid : Key) (event : Json) : Option Json :=
  if linksMessage event ∧ (field event "message_id").key? = some mid then some (field event "trace_id") else none

section Links

variable {event : Json}

theorem linkable_iff :
    linkable event = true ↔
      links event = .ok (linksMessage event)
        ∧ (linksMessage event = true → (field event "message_id").hashable = true) := by
  unfold linkable linksMessage
  cases links event with
  | error e => simp
  | ok linked => cases linked <;> simp

/-- An event that links a message has one, and a trace. -/
theorem linksMessage_truthy (h : linksMessage event = true) :
    (field event "message_id").truthy = true ∧ (field event "trace_id").truthy = true := by
  unfold linksMessage links at h
  split at h
  · rename_i linked hl
    split at hl
    · rename_i hb
      exact Bool.and_eq_true_iff.1 hb
    · cases hl
      cases h
  · cases h

theorem addAlias_ok (h : linkable event = true) (aliases : List (Key × Json)) :
    ∃ aliases', addAlias aliases event = .ok aliases'
      ∧ ∀ mid, aliases'.lookup mid = (aliases.lookup mid).or (linkedTo mid event) := by
  obtain ⟨hlinks, hhash⟩ := linkable_iff.1 h
  unfold addAlias
  rw [hlinks]
  cases hl : linksMessage event with
  | false => exact ⟨aliases, rfl, fun mid => by simp [linkedTo, hl]⟩
  | true =>
    obtain ⟨key, hkey⟩ := Option.isSome_iff_exists.1 (hhash hl)
    simp only [bind, Except.bind, if_true, hkey]
    by_cases hin : (aliases.lookup key).isSome = true
    · refine ⟨aliases, by rw [if_pos hin]; rfl, fun mid => ?_⟩
      rw [linkedTo, hkey]
      by_cases hmid : key = mid
      · subst hmid
        rw [Option.or_of_isSome hin]
      · simp [hmid]
    · refine ⟨_, by rw [if_neg hin]; rfl, fun mid => ?_⟩
      rw [List.lookup_append, linkedTo, hkey]
      by_cases hmid : key = mid
      · subst hmid
        simp [hl]
      · have hne : (mid == key) = false := by simpa using Ne.symm hmid
        simp [hmid, List.lookup, hne]

theorem linkable_of_addAlias {aliases aliases' : List (Key × Json)} (h : addAlias aliases event = .ok aliases') :
    linkable event = true := by
  obtain ⟨linked, hlinks, h⟩ := Checked.bind_eq_ok.1 h
  unfold linkable
  rw [hlinks]
  cases linked with
  | false => rfl
  | true =>
    rw [if_pos rfl] at h
    split at h
    · cases h
    · rename_i mid hmid
      simp [Json.hashable, hmid]

theorem foldlM_addAlias (events : List Json) (aliases : List (Key × Json))
    (h : ∀ event ∈ events, linkable event = true) :
    ∃ aliases', events.foldlM addAlias aliases = .ok aliases'
      ∧ ∀ mid, aliases'.lookup mid = (aliases.lookup mid).or (events.findSome? (linkedTo mid)) := by
  induction events generalizing aliases with
  | nil => exact ⟨aliases, rfl, fun mid => by simp⟩
  | cons event events ih =>
    obtain ⟨aliases', h', hlookup'⟩ := addAlias_ok (h event List.mem_cons_self) aliases
    obtain ⟨aliases'', h'', hlookup''⟩ := ih aliases' fun e he => h e (List.mem_cons_of_mem _ he)
    refine ⟨aliases'', ?_, fun mid => ?_⟩
    · rw [List.foldlM_cons, h']
      exact h''
    · rw [hlookup'', hlookup', List.findSome?_cons, Option.or_assoc]
      cases linkedTo mid event with
      | none => rfl
      | some tid => rfl

/-- **The first link of a message counts.** -/
theorem aliasesOf_ok {events : List Json} (h : ∀ event ∈ events, linkable event = true) :
    ∃ aliases, aliasesOf events = .ok aliases
      ∧ ∀ mid, aliases.lookup mid = events.findSome? (linkedTo mid) := by
  obtain ⟨aliases, hrun, hlookup⟩ := foldlM_addAlias events [] h
  exact ⟨aliases, hrun, fun mid => by rw [hlookup]; rfl⟩

theorem linkable_of_aliasesOf {events : List Json} {aliases : List (Key × Json)}
    (h : aliasesOf events = .ok aliases) : ∀ event ∈ events, linkable event = true := by
  unfold aliasesOf at h
  generalize ([] : List (Key × Json)) = start at h
  induction events generalizing start with
  | nil => exact fun event he => nomatch he
  | cons event events ih =>
    rw [List.foldlM_cons] at h
    obtain ⟨next, hone, hrest⟩ := except_bind_eq_ok.1 h
    exact List.forall_mem_cons.2 ⟨linkable_of_addAlias hone, ih next hrest⟩

end Links

/-! ## §F Phases that are made -/

section Phases

variable {event : Json}

/-- What a phase has of its event. -/
structure IsPhase (event : Json) (kind : PhaseKind) (p : Phase) : Prop where
  kind : p.kind = kind
  spanId : p.spanId = field event "span_id"
  action : p.action = field event "action"

/-- A phase that is made is one of its event. -/
theorem phaseOf_eq_ok {aliases : List (Key × Json)} {index : ℕ} {phase : Option (Json × Phase)}
    (h : phaseOf clock aliases event index = .ok phase) :
    (kindOf event = .ok none ∧ phase = none)
      ∨ ∃ kind identity p, kindOf event = .ok (some kind) ∧ identityOf aliases index event = .ok identity
        ∧ phase = some (identity, p) ∧ IsPhase event kind p := by
  unfold phaseOf at h
  obtain ⟨kind, hk, h⟩ := Checked.bind_eq_ok.1 h
  cases kind with
  | none => exact Or.inl ⟨hk, (Except.ok.inj h).symm⟩
  | some kind =>
    obtain ⟨identity, hid, h⟩ := Checked.bind_eq_ok.1 h
    split at h
    · cases h
    · obtain ⟨started, -, h⟩ := Checked.bind_eq_ok.1 h
      exact Or.inr ⟨kind, identity, _, hk, hid, (Except.ok.inj h).symm, ⟨rfl, rfl, rfl⟩⟩

/-- The identity of an event, as it follows from the events: `none` when its message has no hash. -/
def nameOf (events : List Json) (index : ℕ) (event : Json) : Option Json :=
  (field event "message_id").key?.map fun mid =>
    orElse ((events.findSome? (linkedTo mid)).getD .null) (orElse (field event "trace_id")
      (orElse (field event "message_id") (.string ("unlinked-" ++ toString index))))

variable (clock) in
/-- The time at which an event began exists. -/
def hasStart (event : Json) : Bool :=
  match startedAt (clock.moment (clock.strOf (field event "timestamp"))) (phaseDuration event) with
  | .ok _ => true
  | .error _ => false

variable (clock) in
/-- No exception is raised for an event by the loop over the phases: what its path and its action are compared as
has their types, its turn has a hash, and the time at which it began exists. -/
def placeable (events : List Json) (index : ℕ) (event : Json) : Bool :=
  match kindOf event with
  | .error _ => false
  | .ok none => true
  | .ok (some _) => (nameOf events index event).any Json.hashable && hasStart clock event

/-- No exception is raised for an event when the callbacks are left out. -/
def dedupable (event : Json) : Bool :=
  match kindOf event with
  | .ok (some .model) =>
    (field event "span_id").hashable || (has event "action" "http_request" && !(field event "span_id").truthy)
  | _ => true

theorem identityOf_eq {events : List Json} {aliases : List (Key × Json)}
    (haliases : ∀ mid, aliases.lookup mid = events.findSome? (linkedTo mid)) (index : ℕ) (event : Json) :
    identityOf aliases index event = orRaise (nameOf events index event) := by
  unfold identityOf nameOf
  cases (field event "message_id").key? with
  | none => rfl
  | some mid =>
    simp only [haliases]
    rfl

theorem phaseOf_ok_iff {events : List Json} {aliases : List (Key × Json)}
    (haliases : ∀ mid, aliases.lookup mid = events.findSome? (linkedTo mid)) {index : ℕ} :
    (∃ phase, phaseOf clock aliases event index = .ok phase) ↔ placeable clock events index event = true := by
  unfold phaseOf placeable hasStart
  rw [identityOf_eq haliases]
  cases kindOf event with
  | error e => exact ⟨fun ⟨_, h⟩ => (nomatch h), nofun⟩
  | ok kind =>
    cases kind with
    | none => exact ⟨fun _ => rfl, fun _ => ⟨none, rfl⟩⟩
    | some kind =>
      cases nameOf events index event with
      | none => exact ⟨fun ⟨_, h⟩ => (nomatch h), nofun⟩
      | some identity =>
        cases hhash : identity.hashable with
        | false => simp [bind, Except.bind, orRaise, hhash]
        | true =>
          cases hs : startedAt (clock.moment (clock.strOf (field event "timestamp"))) (phaseDuration event) with
          | error e => simp [bind, Except.bind, orRaise, hhash, hs]
          | ok started => simp [bind, Except.bind, orRaise, hhash, hs, pure, Except.pure]

theorem same_has (event : Json) (key t : String) : (field event key).same (.string t) = has event key t := by
  unfold has
  cases field event key with
  | float x => cases x <;> rfl
  | _ => rfl

theorem IsPhase.isModel {kind : PhaseKind} {p : Phase} (h : IsPhase event kind p) :
    p.isModel = true ↔ kind = .model := by
  rw [Phase.isModel, h.kind, beq_iff_eq]

theorem IsPhase.isHttp {kind : PhaseKind} {p : Phase} (h : IsPhase event kind p) :
    p.isHttp = true ↔ kind = .model ∧ has event "action" "http_request" = true := by
  rw [Phase.isHttp, Bool.and_eq_true, h.isModel, h.action, same_has]

theorem IsPhase.isCallback {kind : PhaseKind} {p : Phase} (h : IsPhase event kind p) :
    p.isCallback = true ↔ kind = .model ∧ ¬ has event "action" "http_request" = true := by
  rw [Phase.isCallback, Bool.and_eq_true, h.isModel, h.action, same_has, Bool.not_eq_true', Bool.not_eq_true]

/-- A phase that `dedupe` does not raise for. -/
def Phase.dedupable (p : Phase) : Bool :=
  !((p.isHttp && p.spanId.truthy || p.isCallback) && !p.spanId.hashable)

theorem IsPhase.dedupable {kind : PhaseKind} {p : Phase} (h : IsPhase event kind p)
    (hkind : kindOf event = .ok (some kind)) :
    p.dedupable = Observability.dedupable event := by
  rw [Bool.eq_iff_iff]
  unfold Phase.dedupable Observability.dedupable
  rw [hkind, h.spanId, Bool.not_eq_true', ← Bool.not_eq_true, Bool.and_eq_true, Bool.or_eq_true, Bool.and_eq_true,
    h.isHttp, h.isCallback, Bool.not_eq_true', ← Bool.not_eq_true]
  cases kind with
  | model => cases has event "action" "http_request" <;> cases (field event "span_id").hashable <;> simp
  | _ => simp

end Phases

/-! ## §G When the turns are made -/

section Turns

variable {events : List Json} {phases : List (Json × Phase)}

/-- The turns are made when the phases are and a key is not missing. -/
theorem exists_turnsOf (hphases : phasesOf clock events = .ok phases)
    (hspans : ∀ p ∈ phases, p.2.dedupable = true) : ∃ turns, turnsOf clock events = .ok turns := by
  have hmade : ∃ made, (groupsBy (fun p : Json × Phase => p.1.key?) phases).mapM (turnOf clock) = .ok made := by
    refine exists_mapM_eq_ok.2 fun group hgroup => ?_
    obtain ⟨hmembers, -⟩ := mem_groupsBy.1 hgroup
    have hall : ((group.2.map Prod.snd).all fun p =>
        !((p.isHttp && p.spanId.truthy || p.isCallback) && !p.spanId.hashable)) = true := by
      rw [List.all_eq_true]
      intro p hp
      obtain ⟨q, hq, rfl⟩ := List.mem_map.1 hp
      rw [hmembers] at hq
      exact hspans q (List.mem_filter.1 hq).1
    have hkept : ∃ kept, dedupe (group.2.map Prod.snd) = .ok kept := ⟨_, if_pos hall⟩
    obtain ⟨kept, hkept⟩ := hkept
    unfold turnOf
    simp only [bind, Except.bind, hkept]
    exact ⟨_, rfl⟩
  obtain ⟨made, hmade⟩ := hmade
  unfold turnsOf
  rw [hphases]
  simp only [bind, Except.bind, hmade]
  exact ⟨_, rfl⟩

/-- And only then. -/
theorem dedupable_of_turnsOf {turns : List Turn} (hphases : phasesOf clock events = .ok phases)
    (hturns : turnsOf clock events = .ok turns) :
    ∀ p ∈ phases, p.1.hashable = true → p.2.dedupable = true := by
  intro p hp hhash
  obtain ⟨phases', hphases', hturns⟩ := Checked.bind_eq_ok.1 hturns
  obtain rfl : phases' = phases := Except.ok.inj (hphases'.symm.trans hphases)
  obtain ⟨made, hmade, -⟩ := Checked.bind_eq_ok.1 hturns
  obtain ⟨key, hkey⟩ := Option.isSome_iff_exists.1 hhash
  have hmem : p ∈ phases'.filter fun q => q.1.key? == some key := List.mem_filter.2 ⟨hp, beq_iff_eq.2 hkey⟩
  have hgroup := mem_groupsBy.2 ⟨rfl, List.ne_nil_of_mem hmem⟩
  obtain ⟨turn, hturn⟩ := exists_mapM_eq_ok.1 ⟨made, hmade⟩ _ hgroup
  obtain ⟨kept, hkept, -⟩ := Checked.bind_eq_ok.1 hturn
  unfold dedupe at hkept
  split at hkept
  · rename_i hall
    exact List.all_eq_true.1 hall p.2 (List.mem_map_of_mem hmem)
  · cases hkept

variable (clock) in
/-- **The turns are made** exactly when no event raises: in the loop over the links, in the loop over the phases,
and when the callbacks are left out. -/
theorem sessionTimeline_ok_iff (events : List Json) (limit : ℕ) :
    (∃ timeline, sessionTimeline clock events limit = .ok timeline) ↔
      (∀ event ∈ events, linkable event = true)
        ∧ (∀ numbered ∈ events.zipIdx, placeable clock events numbered.2 numbered.1 = true)
        ∧ ∀ event ∈ events, dedupable event = true := by
  constructor
  · rintro ⟨timeline, h⟩
    obtain ⟨turns, hturns, -⟩ := Checked.bind_eq_ok.1 h
    obtain ⟨phases, hphases, -⟩ := Checked.bind_eq_ok.1 hturns
    have hdedupe := dedupable_of_turnsOf hphases hturns
    obtain ⟨aliases, haliases, hphases⟩ := Checked.bind_eq_ok.1 hphases
    obtain ⟨made, hmade, hreduce⟩ := Checked.bind_eq_ok.1 hphases
    have hlinkable := linkable_of_aliasesOf haliases
    obtain ⟨aliases', haliases', hlookup⟩ := aliasesOf_ok hlinkable
    obtain rfl : aliases' = aliases := Except.ok.inj (haliases'.symm.trans haliases)
    have hone := exists_mapM_eq_ok.1 ⟨made, hmade⟩
    refine ⟨hlinkable, fun numbered hn => (phaseOf_ok_iff hlookup).1 (hone numbered hn), fun event he => ?_⟩
    obtain ⟨k, hk, rfl⟩ := List.mem_iff_getElem.1 he
    have hmem : (events[k], k) ∈ events.zipIdx := by
      rw [List.mem_zipIdx_iff_getElem?, List.getElem?_eq_getElem hk]
    obtain ⟨phase, hin, hphase⟩ := exists_of_forall₂ (mapM_eq_ok.1 hmade) hmem
    rcases phaseOf_eq_ok hphase with ⟨hnone, -⟩ | ⟨kind, identity, p, hkind, hid, rfl, hp⟩
    · unfold dedupable
      rw [hnone]
    · rw [← hp.dedupable hkind]
      refine hdedupe (identity, p) ?_ ?_
      · rw [← Except.ok.inj hreduce]
        exact List.reduceOption_mem_iff.2 hin
      · have hplaced := (phaseOf_ok_iff hlookup).1 ⟨_, hphase⟩
        rw [identityOf_eq hlookup, orRaise_eq_ok] at hid
        unfold placeable at hplaced
        rw [hkind, hid] at hplaced
        exact (Bool.and_eq_true_iff.1 hplaced).1
  · rintro ⟨hlinkable, hplaced, hdedupe⟩
    obtain ⟨aliases, haliases, hlookup⟩ := aliasesOf_ok hlinkable
    obtain ⟨made, hmade⟩ := exists_mapM_eq_ok.2 fun numbered hn => (phaseOf_ok_iff hlookup).2 (hplaced numbered hn)
    have hphases : phasesOf clock events = .ok made.reduceOption := by
      unfold phasesOf
      rw [haliases]
      simp only [bind, Except.bind, hmade]
      rfl
    obtain ⟨turns, hturns⟩ := exists_turnsOf hphases fun p hp => by
      obtain ⟨numbered, hn, hphase⟩ := exists_of_mem_mapM hmade (List.reduceOption_mem_iff.1 hp)
      rcases phaseOf_eq_ok hphase with ⟨-, hnone⟩ | ⟨kind, identity, q, hkind, -, hsome, hq⟩
      · cases hnone
      · cases hsome
        rw [hq.dedupable hkind]
        exact hdedupe numbered.1 (List.fst_mem_of_mem_zipIdx hn)
    unfold sessionTimeline
    rw [hturns]
    exact ⟨_, rfl⟩

end Turns

end OpencodeCloud.Observability
