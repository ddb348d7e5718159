/-
# OpencodeCloud.AgentRuntime.Trace -- the trace plugin of an agent

The plugin watches the events of its OpenCode process and prints a line for every tool call that ends, for
every turn that ends and for every model request. A tool call is printed with the trace of the message that
asked for it. The two become known in any order, so a call whose message is unknown waits in `pending`, and
the message takes the calls that wait for it when it comes. All the maps remember 1024 keys.

A call is printed twice only when its session was deleted, the plugin was disposed or 1024 other calls were
printed in between, and the same holds of turns (`printed_apart`). A call that has ended and whose message
is known is printed, in whichever order the two come, as long as the plugin does not have to remember 1024
others meanwhile; and what is printed has come with an event (`calls_printed`).
-/
import OpencodeCloud.Library.Recent

namespace OpencodeCloud.AgentRuntime.Trace

open OpencodeCloud.Library

/-! ## §A Events and lines -/

/-- The `info` of a message. A field is `none` where it is missing or of another type; a time is a safe
integer. -/
structure Info where
  role : Option String
  sessionId : Option String
  id : Option String
  parentId : Option String
  created : Option ℤ
  completed : Option ℤ
  /-- `Boolean(info.error)` -/
  error : Bool
  finish : Option String
  deriving DecidableEq

/-- A part of a message, with its `state`. -/
structure Part where
  type : Option String
  sessionId : Option String
  messageId : Option String
  id : Option String
  callId : Option String
  tool : Option String
  status : Option String
  start : Option ℤ
  stop : Option ℤ
  deriving DecidableEq

/-- What the hook `chat.headers` is called with, and the random bytes that it takes. -/
structure Input where
  sessionId : Option String
  messageId : Option String
  created : Option ℤ
  logicalModel : Option String
  random : String
  deriving DecidableEq

/-- The calls of the plugin. -/
inductive Event where
  | messageUpdated (info : Info)
  | sessionDeleted (sid : Option String)
  | partUpdated (part : Part)
  | chatHeaders (input : Input)
  | dispose
  deriving DecidableEq

/-- A tool call that has ended. -/
structure Item where
  /-- `tool_error`, and not `tool_complete` -/
  error : Bool
  session : String
  message : String
  part : String
  call : String
  tool : String
  start : ℤ
  stop : ℤ
  deriving DecidableEq

/-- `key(...)`: the parts of a key; `JSON.stringify` keeps them apart. -/
abbrev Key := List String

/-- A message of a session. -/
def Item.owner (item : Item) : Key := [item.session, item.message]

def Item.key (item : Item) : Key := [item.session, item.message, item.call, item.part]

/-- A line on the console. -/
inductive Line where
  | runtime (error : Bool) (session message : String) (trace : Option String) (span : String) (start stop : ℤ)
  | tool (item : Item) (trace span : String) (parent : Option String)
  | dispatch (session : String) (message logicalModel trace span parent : Option String)
  deriving DecidableEq

/-- `/^[A-Za-z0-9_.:-]{1,128}$/` -/
def validText (value : String) : Bool :=
  1 ≤ value.length && value.length ≤ 128 &&
    value.toList.all fun c => c.isAlpha || c.isDigit || "_.:-".toList.contains c

/-- `valid(value)` -/
def valid (value : Option String) : Bool := value.any validText

/-- `validTime(value)` -/
def validTime (value : ℤ) : Bool := 0 ≤ value && value ≤ 8640000000000000

/-- The group of `/^msg_([0-9a-f]{32})$/`. -/
def managed (value : String) : Option String :=
  let digits := value.toList.drop 4
  if value.toList.take 4 = "msg_".toList && digits.length = 32 && digits.all "0123456789abcdef".toList.contains
  then some (String.ofList digits) else none

/-- The trace of an assistant's message: that of its parent, unless it is zero. -/
def assistantTrace (info : Info) : Option String :=
  (info.parentId.bind managed).filter fun trace => trace.toList.any (· != '0')

/-! ## §B The plugin -/

/-- `limit` -/
def limit : Nat := 1024

structure State where
  assistants : Recent Key String limit
  pending : Recent Key Item limit
  terminals : Recent Key Unit limit
  starts : Recent Key ℤ limit
  finished : Recent Key Unit limit

def start : State := ⟨.empty, .empty, .empty, .empty, .empty⟩

section Plugin

-- the first 16 digits of `createHash("sha256")` of a key
variable (digest : Key → String)

/-- `runtimeSpan(session, message)` -/
def runtimeSpan (session message : String) : String := digest ["runtime", session, message]

/-- `begin(info)` -/
def State.begin (s : State) (session id : Option String) (created : Option ℤ) : State :=
  match session, id, created with
  | some session, some id, some created =>
    if validText session && validText id && validTime created then
      { s with starts := s.starts.bounded [session, id] created }
    else s
  | _, _, _ => s

/-- The reasons to finish that end a turn. -/
def ends (info : Info) : Bool :=
  info.error || info.finish.any ["stop", "length", "content-filter"].contains

/-- `finish(info)` -/
def State.finish (s : State) (session : String) (info : Info) : State × List Line :=
  match info.parentId, info.completed with
  | some parent, some stop =>
    match s.starts.get? [session, parent] with
    | some start =>
      if [session, parent] ∈ s.finished.keys || !validTime start || !validTime stop || stop < start ||
          86400000 < stop - start || !ends info then (s, [])
      else
        ({ s with finished := s.finished.bounded [session, parent] () },
          [.runtime info.error session parent (managed parent) (runtimeSpan digest session parent) start stop])
    | none => (s, [])
  | _, _ => (s, [])

/-- `complete(item, trace)` -/
def State.complete (s : State) (item : Item) (trace : String) : State × List Line :=
  if item.key ∈ s.terminals.keys then (s, [])
  else
    ({ s with terminals := s.terminals.bounded item.key () },
      [.tool item trace (digest (trace :: item.key))
        (if [item.session, "msg_" ++ trace] ∈ s.starts.keys then
          some (runtimeSpan digest item.session ("msg_" ++ trace)) else none)])

/-- The loop over the calls that wait. -/
def State.release (owner : Key) (trace : String) : List (Key × Item) → State → State × List Line
  | [], s => (s, [])
  | (k, item) :: rest, s =>
    if item.owner = owner then
      let completed := State.complete digest { s with pending := s.pending.forget (· == k) } item trace
      let released := State.release owner trace rest completed.1
      (released.1, completed.2 ++ released.2)
    else State.release owner trace rest s

/-- An assistant's message. -/
def State.assistant (s : State) (session id : String) (info : Info) : State × List Line :=
  let finished := s.finish digest session info
  let s := finished.1
  match assistantTrace info with
  | none => finished
  | some trace =>
    if (s.assistants.get? [session, id]).any (· != trace) then finished
    else
      let known := { s with assistants := s.assistants.bounded [session, id] trace }
      let released := State.release digest [session, id] trace known.pending.entries known
      (released.1, finished.2 ++ released.2)

/-- `message.updated` -/
def State.messageUpdated (s : State) (info : Info) : State × List Line :=
  if info.role = some "user" then (s.begin info.sessionId info.id info.created, [])
  else
    match info.sessionId, info.id with
    | some session, some id =>
      if info.role = some "assistant" && validText session && validText id then
        s.assistant digest session id info
      else (s, [])
    | _, _ => (s, [])

/-- The call that a part of a message tells to have ended. -/
def Part.item (part : Part) : Option Item :=
  match part.sessionId, part.messageId, part.id, part.callId, part.tool, part.start, part.stop with
  | some session, some message, some id, some call, some tool, some start, some stop =>
    if part.type = some "tool" && validText session && validText message && validText id && validText call &&
        validText tool && (part.status = some "completed" || part.status = some "error") && 0 ≤ start &&
        start ≤ stop && stop - start ≤ 86400000 && stop ≤ 8640000000000000 then
      some ⟨part.status = some "error", session, message, id, call, tool, start, stop⟩
    else none
  | _, _, _, _, _, _, _ => none

/-- `message.part.updated` -/
def State.partUpdated (s : State) (part : Part) : State × List Line :=
  match part.item with
  | none => (s, [])
  | some item =>
    match s.assistants.get? item.owner with
    | some trace => s.complete digest item trace
    | none => ({ s with pending := s.pending.bounded item.key item }, [])

/-- Forget keys in all the maps. -/
def State.forget (s : State) (p : Key → Bool) : State :=
  ⟨s.assistants.forget p, s.pending.forget p, s.terminals.forget p, s.starts.forget p, s.finished.forget p⟩

/-- The keys of a session. -/
def ofSession (sid : Option String) (k : Key) : Bool := sid.isSome && k.head? == sid

/-- The hook `chat.headers`: the line. -/
def State.chatHeaders (s : State) (input : Input) : State × List Line :=
  match input.sessionId with
  | none => (s, [])
  | some session =>
    if !validText session then (s, [])
    else
      let s := s.begin (some session) input.messageId input.created
      let trace := input.messageId.bind managed
      let parent := input.messageId.bind fun message =>
        if trace.isSome && [session, message] ∈ s.starts.keys then some (runtimeSpan digest session message)
        else none
      (s, [.dispatch session (input.messageId.filter validText) input.logicalModel trace
        (trace.map fun _ => input.random) parent])

/-- One call of the plugin. -/
def State.call (s : State) : Event → State × List Line
  | .messageUpdated info => s.messageUpdated digest info
  | .sessionDeleted sid => (s.forget (ofSession sid), [])
  | .partUpdated part => s.partUpdated digest part
  | .chatHeaders input => s.chatHeaders digest input
  | .dispose => (s.forget fun _ => true, [])

/-- The headers that `chat.headers` sets on the model request. -/
def State.headers (s : State) (input : Input) : List (String × String) :=
  match input.sessionId with
  | none => []
  | some session =>
    if !validText session then []
    else
      let s := s.begin (some session) input.messageId input.created
      ("x-cloud-session-id", session) ::
        match input.messageId with
        | none => []
        | some message =>
          (if validText message then [("x-cloud-message-id", message), ("x-litellm-trace-id", message)] else []) ++
            (managed message).toList.map fun trace => ("traceparent", "00-" ++ trace ++ "-" ++
              (if [session, message] ∈ s.starts.keys then runtimeSpan digest session message
                else input.random) ++ "-01")

/-! ## §C Runs -/

/-- What happens in a run: the calls, and the lines that they print. -/
inductive Entry where
  | call (e : Event)
  | line (l : Line)
  deriving DecidableEq

/-- The state after a run. -/
def State.after (s : State) : List Event → State
  | [] => s
  | e :: es => (s.call digest e).1.after es

/-- The calls of a run with their lines. -/
def State.timeline (s : State) : List Event → List Entry
  | [] => []
  | e :: es => .call e :: (s.call digest e).2.map .line ++ (s.call digest e).1.timeline es

end Plugin

/-! ## §D What is printed twice -/

/-- What a line reports. -/
inductive Kind where
  | call
  | turn
  deriving DecidableEq

/-- The key of the tool call or of the turn that a line reports. -/
def Line.about : Kind → Line → Option Key
  | .call, .tool item _ _ _ => some item.key
  | .turn, .runtime _ session message _ _ _ _ => some [session, message]
  | _, _ => none

/-- The map of what was printed. -/
def State.printed (s : State) : Kind → Recent Key Unit limit
  | .call => s.terminals
  | .turn => s.finished

/-- The keys that a call of the plugin forgets. -/
def Event.forgets : Event → Option (Key → Bool)
  | .sessionDeleted sid => some (ofSession sid)
  | .dispose => some fun _ => true
  | _ => none

/-- What an entry does to the map of what was printed. -/
def Entry.act (kind : Kind) : Entry → Option (Recent.Act Key)
  | .call e => e.forgets.map .forget
  | .line l => (l.about kind).map .report

/-- The lines of a step are those that the map does not know. -/
def Printed (kind : Kind) (s : State) (r : State × List Line) : Prop :=
  (Recent.reporting Key limit).run (s.printed kind) (r.2.filterMap fun l => (l.about kind).map .report) =
    some (r.1.printed kind)

namespace Printed

variable {kind : Kind} {s : State}

theorem quiet {t : State} (h : t.printed kind = s.printed kind) : Printed kind s (t, []) := by
  rw [Printed, h]
  rfl

theorem append {r r' : State × List Line} (h : Printed kind s r) (h' : Printed kind r.1 r') :
    Printed kind s (r'.1, r.2 ++ r'.2) := by
  rw [Printed, List.filterMap_append, Machine.run_append_eq _ h]
  exact h'

/-- The other maps do not matter. -/
theorem congr {t : State} {r : State × List Line} (h : Printed kind s r) (heq : s.printed kind = t.printed kind) :
    Printed kind t r := by
  rwa [Printed, ← heq]

variable (digest : Key → String)

theorem begin (session id : Option String) (created : Option ℤ) :
    (s.begin session id created).printed kind = s.printed kind := by
  unfold State.begin
  split
  · split
    · cases kind <;> simp only [State.printed]
    · rfl
  · rfl

theorem finish (session : String) (info : Info) : Printed kind s (s.finish digest session info) := by
  unfold State.finish
  split
  · next parent stop _ _ =>
    split
    · next start _ =>
      split
      · exact quiet rfl
      · next hguard =>
        cases kind with
        | call => simp [Printed, Line.about, State.printed]
        | turn =>
          have hnew : [session, parent] ∉ s.finished.keys := by
            intro hmem
            simp [hmem] at hguard
          simp [Printed, Line.about, State.printed, Machine.run, Recent.reporting, hnew, -Recent.mem_keys]
    · exact quiet rfl
  · exact quiet rfl

theorem complete (item : Item) (trace : String) : Printed kind s (s.complete digest item trace) := by
  unfold State.complete
  split
  · exact quiet rfl
  · next hnew =>
    cases kind with
    | call => simp [Printed, Line.about, State.printed, Machine.run, Recent.reporting, hnew, -Recent.mem_keys]
    | turn => simp [Printed, Line.about, State.printed]

theorem release (owner : Key) (trace : String) (waiting : List (Key × Item)) :
    Printed kind s (State.release digest owner trace waiting s) := by
  induction waiting generalizing s with
  | nil => exact quiet rfl
  | cons e waiting ih =>
    obtain ⟨k, item⟩ := e
    unfold State.release
    split
    · exact ((complete digest item trace).append ih).congr (by cases kind <;> simp only [State.printed])
    · exact ih

theorem assistant (session id : String) (info : Info) :
    Printed kind s (s.assistant digest session id info) := by
  have hfinish := @finish kind s digest session info
  unfold State.assistant
  dsimp only
  split
  · exact hfinish
  · split
    · exact hfinish
    · exact hfinish.append ((release digest _ _ _).congr (by cases kind <;> simp only [State.printed]))

/-- **What a call prints, it remembers**, unless it forgets. -/
theorem call {e : Event} (h : e.forgets = none) : Printed kind s (s.call digest e) := by
  cases e with
  | messageUpdated info =>
    unfold State.call State.messageUpdated
    dsimp only
    split
    · exact quiet (begin _ _ _)
    · split
      · split
        · exact assistant digest _ _ info
        · exact quiet rfl
      · exact quiet rfl
  | partUpdated part =>
    unfold State.call State.partUpdated
    dsimp only
    split
    · exact quiet rfl
    · split
      · exact complete digest _ _
      · exact quiet (by cases kind <;> simp only [State.printed])
  | chatHeaders input =>
    unfold State.call State.chatHeaders
    dsimp only
    split
    · exact quiet rfl
    · split
      · exact quiet rfl
      · cases kind <;> simp [Printed, Line.about, begin]
  | sessionDeleted sid => cases h
  | dispose => cases h

/-- A call of the plugin, on the map of what was printed. -/
theorem entries (e : Event) :
    (Recent.reporting Key limit).run (s.printed kind)
      ((.call e :: (s.call digest e).2.map .line).filterMap (Entry.act kind)) =
        some ((s.call digest e).1.printed kind) := by
  have hlines : ∀ lines : List Line, (lines.map Entry.line).filterMap (Entry.act kind) =
      lines.filterMap fun l => (l.about kind).map .report := fun lines => by
    rw [List.filterMap_map]
    rfl
  cases hforgets : e.forgets with
  | none =>
    rw [List.filterMap_cons_none (by simp [Entry.act, hforgets]), hlines]
    exact call digest hforgets
  | some p =>
    rw [List.filterMap_cons_some (b := .forget p) (by simp [Entry.act, hforgets]), hlines]
    cases e with
    | sessionDeleted sid =>
      obtain rfl := Option.some.inj hforgets
      cases kind <;> simp [State.call, State.forget, State.printed, Machine.run, Recent.reporting]
    | dispose =>
      obtain rfl := Option.some.inj hforgets
      cases kind <;> simp [State.call, State.forget, State.printed, Machine.run, Recent.reporting]
    | messageUpdated info => cases hforgets
    | partUpdated part => cases hforgets
    | chatHeaders input => cases hforgets

/-- A run of the plugin, on the map of what was printed. -/
theorem timeline (es : List Event) :
    (Recent.reporting Key limit).run (s.printed kind) ((s.timeline digest es).filterMap (Entry.act kind)) =
      some ((s.after digest es).printed kind) := by
  induction es generalizing s with
  | nil => rfl
  | cons e es ih =>
    rw [State.timeline, List.filterMap_append, Machine.run_append_eq _ (entries digest e)]
    exact ih

end Printed

/-- The tool call or the turn that an entry reports. -/
def Entry.about (kind : Kind) : Entry → Option Key
  | .line l => l.about kind
  | .call _ => none

theorem reported_acts (kind : Kind) (entries : List Entry) :
    (entries.filterMap (Entry.act kind)).filterMap Recent.Act.reported = entries.filterMap (Entry.about kind) := by
  rw [List.filterMap_filterMap]
  refine List.filterMap_congr fun x _ => ?_
  cases x with
  | call e => cases hf : e.forgets <;> simp [Entry.act, Entry.about, Recent.Act.reported, hf]
  | line l => cases ha : l.about kind <;> simp [Entry.act, Entry.about, Recent.Act.reported, ha]

/-- **A tool call or a turn is printed again only after its session was deleted, the plugin was disposed or
1024 others were printed.** -/
theorem printed_apart (digest : Key → String) (s : State) (kind : Kind) (k : Key) (es : List Event)
    {before between after : List Entry} {l l' : Line}
    (h : s.timeline digest es = before ++ .line l :: (between ++ .line l' :: after))
    (hl : l.about kind = some k) (hl' : l'.about kind = some k) :
    (∃ e p, .call e ∈ between ∧ e.forgets = some p ∧ p k = true) ∨
      1024 ≤ (between.filterMap (Entry.about kind)).toFinset.card := by
  have hrun := @Printed.timeline kind s digest es
  rw [h, List.filterMap_append, List.filterMap_cons_some (b := .report k) (by simp [Entry.act, hl]),
    List.filterMap_append, List.filterMap_cons_some (b := .report k) (by simp [Entry.act, hl'])] at hrun
  rcases Recent.reported_apart (by decide) hrun with ⟨p, hp, hk⟩ | hmany
  · obtain ⟨x, hx, hact⟩ := List.mem_filterMap.1 hp
    cases x with
    | call e =>
      obtain ⟨q, hq, hqp⟩ := Option.map_eq_some_iff.1 hact
      obtain rfl := Recent.Act.forget.inj hqp
      exact Or.inl ⟨e, q, hx, hq, hk⟩
    | line l =>
      obtain ⟨_, _, hreport⟩ := Option.map_eq_some_iff.1 hact
      cases hreport
  · rw [reported_acts] at hmany
    exact Or.inr hmany

/-- The answer to a managed message. -/
def answer : Info :=
  ⟨some "assistant", some "ses_1", some "msg_a", some "msg_0123456789abcdef0123456789abcdef", none, none, false,
    none⟩

/-- A tool call that has ended. -/
def ended : Part :=
  ⟨some "tool", some "ses_1", some "msg_a", some "prt_1", some "call_1", some "bash", some "completed", some 5,
    some 9⟩

/-- The item of the call. -/
def endedItem : Item := ⟨false, "ses_1", "msg_a", "prt_1", "call_1", "bash", 5, 9⟩

/-- The line of the call. -/
def endedLine : Line := .tool endedItem "0123456789abcdef0123456789abcdef" "" none

theorem printed_apart_when_deleted :
    start.timeline (fun _ => "") [.messageUpdated answer, .partUpdated ended, .sessionDeleted (some "ses_1"),
        .partUpdated ended, .messageUpdated answer] =
      [.call (.messageUpdated answer), .call (.partUpdated ended)] ++ .line endedLine ::
        ([.call (.sessionDeleted (some "ses_1")), .call (.partUpdated ended),
          .call (.messageUpdated answer)] ++ .line endedLine :: []) ∧
      ((∃ e p, .call e ∈ [Entry.call (.sessionDeleted (some "ses_1")), .call (.partUpdated ended),
          .call (.messageUpdated answer)] ∧ e.forgets = some p ∧ p endedItem.key = true) ∨
        1024 ≤ ([Entry.call (.sessionDeleted (some "ses_1")), .call (.partUpdated ended),
          .call (.messageUpdated answer)].filterMap (Entry.about .call)).toFinset.card) := by
  have htimeline : start.timeline (fun _ => "") [.messageUpdated answer, .partUpdated ended,
      .sessionDeleted (some "ses_1"), .partUpdated ended, .messageUpdated answer] =
        [.call (.messageUpdated answer), .call (.partUpdated ended)] ++ .line endedLine ::
          ([.call (.sessionDeleted (some "ses_1")), .call (.partUpdated ended),
            .call (.messageUpdated answer)] ++ .line endedLine :: []) := by decide +kernel
  exact ⟨htimeline, printed_apart _ start .call endedItem.key _ htimeline rfl rfl⟩

/-! ## §E What one call does -/

/-- The message and the trace that an event makes known. -/
def Info.known (info : Info) : Option (Key × String) :=
  match info.sessionId, info.id with
  | some session, some id =>
    if info.role = some "assistant" && validText session && validText id then
      (assistantTrace info).map fun trace => ([session, id], trace)
    else none
  | _, _ => none

theorem Info.known_role {info : Info} {owner : Key} {trace : String}
    (h : info.known = some (owner, trace)) : info.role = some "assistant" := by
  unfold Info.known at h
  split at h
  · split at h
    · next hvalid =>
      simp only [Bool.and_eq_true, decide_eq_true_eq] at hvalid
      exact hvalid.1.1
    · cases h
  · cases h

/-- The tool call that an event tells to have ended. -/
def Event.item : Event → Option Item
  | .partUpdated part => part.item
  | _ => none

/-- The message and the trace that an event makes known. -/
def Event.known : Event → Option (Key × String)
  | .messageUpdated info => info.known
  | _ => none

theorem Event.forgets_of_item {e : Event} {item : Item} (h : e.item = some item) : e.forgets = none := by
  cases e with
  | partUpdated part => rfl
  | messageUpdated info => rfl
  | chatHeaders input => rfl
  | sessionDeleted sid => cases h
  | dispose => cases h

theorem Event.forgets_of_known {e : Event} {x : Key × String} (h : e.known = some x) : e.forgets = none := by
  cases e with
  | messageUpdated info => rfl
  | partUpdated part => rfl
  | chatHeaders input => rfl
  | sessionDeleted sid => cases h
  | dispose => cases h

theorem Event.item_of_known {e : Event} {x : Key × String} (h : e.known = some x) : e.item = none := by
  cases e with
  | partUpdated part => cases h
  | messageUpdated info => rfl
  | chatHeaders input => rfl
  | sessionDeleted sid => rfl
  | dispose => rfl

/-- The key of a call begins with its message. -/
theorem owner_of_key {i j : Item} (h : i.key = j.key) : i.owner = j.owner := by
  simp only [Item.key, List.cons.injEq] at h
  simp only [Item.owner, h.1, h.2.1]

/-- The calls that wait belong to messages that are not known, each under its key. -/
structure Kept (s : State) : Prop where
  unknown : ∀ e ∈ s.pending.entries, e.2.owner ∉ s.assistants.keys
  keyed : ∀ e ∈ s.pending.entries, e.1 = e.2.key

/-- A line of a tool call comes with an item and a trace. -/
def Prints (lines : List Line) (p : Item → String → Prop) : Prop :=
  ∀ item trace span parent, .tool item trace span parent ∈ lines → p item trace

/-- What a call of the plugin does to the messages that are known and to the calls that wait. -/
inductive Does (s : State) (e : Event) (s' : State) (lines : List Line) : Prop
  | aside (item : e.item = none) (forgets : e.forgets = none)
      (known : ∀ owner trace, e.known = some (owner, trace) → owner ∈ s.assistants.keys)
      (assistants : s'.assistants = s.assistants) (pending : s'.pending = s.pending)
      (prints : Prints lines fun _ _ => False)
  | known (owner : Key) (trace : String) (item : e.item = none) (forgets : e.forgets = none)
      (event : e.known = some (owner, trace)) (free : ∀ t, s.assistants.get? owner = some t → t = trace)
      (assistants : s'.assistants = s.assistants.bounded owner trace)
      (pending : s'.pending.entries = s.pending.entries.filter fun x => !decide (x.2.owner = owner))
      (reported : ∀ x ∈ s.pending.entries, x.2.owner = owner →
        x.2.key ∈ s.terminals.keys ∨ x.2.key ∈ lines.filterMap (Line.about .call))
      (prints : Prints lines fun item t => t = trace ∧ item.owner = owner ∧ ∃ k, (k, item) ∈ s.pending.entries)
  | waits (item : Item) (event : e.item = some item) (forgets : e.forgets = none)
      (free : item.owner ∉ s.assistants.keys) (assistants : s'.assistants = s.assistants)
      (pending : s'.pending = s.pending.bounded item.key item) (prints : Prints lines fun _ _ => False)
  | ends (item : Item) (trace : String) (event : e.item = some item) (forgets : e.forgets = none)
      (owner : s.assistants.get? item.owner = some trace) (assistants : s'.assistants = s.assistants)
      (pending : s'.pending = s.pending)
      (reported : item.key ∈ s.terminals.keys ∨ item.key ∈ lines.filterMap (Line.about .call))
      (prints : Prints lines fun item' t => item' = item ∧ t = trace)
  | forgets (p : Key → Bool) (event : e.forgets = some p) (assistants : s'.assistants = s.assistants.forget p)
      (pending : s'.pending = s.pending.forget p) (prints : Prints lines fun _ _ => False)

section Does

variable (digest : Key → String) {s : State}

theorem begin_others (session id : Option String) (created : Option ℤ) :
    (s.begin session id created).assistants = s.assistants ∧
      (s.begin session id created).pending = s.pending := by
  unfold State.begin
  split
  · split
    · exact ⟨rfl, rfl⟩
    · exact ⟨rfl, rfl⟩
  · exact ⟨rfl, rfl⟩

theorem finish_others (session : String) (info : Info) :
    (s.finish digest session info).1.assistants = s.assistants ∧
      (s.finish digest session info).1.pending = s.pending ∧
      (s.finish digest session info).1.terminals = s.terminals ∧
      Prints (s.finish digest session info).2 fun _ _ => False := by
  have hnone : Prints [] fun _ _ => False := fun _ _ _ _ h => absurd h List.not_mem_nil
  unfold State.finish
  split
  · split
    · split
      · exact ⟨rfl, rfl, rfl, hnone⟩
      · refine ⟨rfl, rfl, rfl, fun _ _ _ _ h => ?_⟩
        cases List.mem_singleton.1 h
    · exact ⟨rfl, rfl, rfl, hnone⟩
  · exact ⟨rfl, rfl, rfl, hnone⟩

theorem complete_others (item : Item) (trace : String) :
    (s.complete digest item trace).1.assistants = s.assistants ∧
      (s.complete digest item trace).1.pending = s.pending := by
  unfold State.complete
  split
  · exact ⟨rfl, rfl⟩
  · exact ⟨rfl, rfl⟩

/-- What a call that is completed prints, unless the map knows it. -/
theorem complete_prints (item : Item) (trace : String) :
    (item.key ∈ s.terminals.keys ∨ item.key ∈ (s.complete digest item trace).2.filterMap (Line.about .call)) ∧
      (∀ k ∈ (s.complete digest item trace).1.terminals.keys, k ∈ s.terminals.keys ∨
        k ∈ (s.complete digest item trace).2.filterMap (Line.about .call)) ∧
      Prints (s.complete digest item trace).2 fun item' t => item' = item ∧ t = trace := by
  unfold State.complete
  split
  · next hknown => exact ⟨Or.inl hknown, fun _ h => Or.inl h, fun _ _ _ _ h => absurd h List.not_mem_nil⟩
  · refine ⟨Or.inr (by simp [Line.about]), fun k hk => ?_, fun item' t span parent h => ?_⟩
    · obtain ⟨v, hv⟩ := Recent.mem_keys.1 hk
      rcases Recent.mem_bounded hv with heq | ⟨hold, _⟩
      · rw [(Prod.mk.inj heq).1]
        exact Or.inr (by simp [Line.about])
      · exact Or.inl (Recent.mem_keys.2 ⟨v, hold⟩)
    · obtain ⟨rfl, rfl, _, _⟩ := Line.tool.inj (List.mem_singleton.1 h)
      exact ⟨rfl, rfl⟩

/-- What the loop over the calls that wait does. -/
theorem release_does (owner : Key) (trace : String) (waiting : List (Key × Item)) :
    (State.release digest owner trace waiting s).1.assistants = s.assistants ∧
      (State.release digest owner trace waiting s).1.pending.entries = s.pending.entries.filter (fun x =>
        !waiting.any fun e => e.2.owner = owner && e.1 = x.1) ∧
      (∀ e ∈ waiting, e.2.owner = owner → e.2.key ∈ s.terminals.keys ∨
        e.2.key ∈ (State.release digest owner trace waiting s).2.filterMap (Line.about .call)) ∧
      Prints (State.release digest owner trace waiting s).2 fun item t =>
        t = trace ∧ item.owner = owner ∧ ∃ k, (k, item) ∈ waiting := by
  induction waiting generalizing s with
  | nil =>
    exact ⟨rfl, by simp [State.release], by simp, fun _ _ _ _ h => absurd h List.not_mem_nil⟩
  | cons e waiting ih =>
    obtain ⟨k, item⟩ := e
    unfold State.release
    split
    · next howner =>
      dsimp only
      have hothers := complete_others (s := { s with pending := s.pending.forget (· == k) }) digest item trace
      have hprints := complete_prints (s := { s with pending := s.pending.forget (· == k) }) digest item trace
      generalize State.complete digest { s with pending := s.pending.forget (· == k) } item trace = done
        at hothers hprints ⊢
      obtain ⟨hassistants, hpending, hreported, hlines⟩ := @ih done.1
      refine ⟨hassistants.trans hothers.1, ?_, ?_, ?_⟩
      · rw [hpending, hothers.2]
        simp only [Recent.forget, List.filter_filter]
        refine List.filter_congr fun x _ => ?_
        by_cases hx : k = x.1
        · simp [howner, hx]
        · simp [hx, Ne.symm hx]
      · intro e he hown
        rw [List.filterMap_append, List.mem_append]
        rcases List.mem_cons.1 he with rfl | he
        · exact hprints.1.imp_right Or.inl
        · rcases hreported e he hown with hknown | hline
          · exact (hprints.2.1 _ hknown).imp_right Or.inl
          · exact Or.inr (Or.inr hline)
      · intro item' t span parent hline
        rcases List.mem_append.1 hline with hline | hline
        · obtain ⟨rfl, rfl⟩ := hprints.2.2 item' t span parent hline
          exact ⟨rfl, howner, k, List.mem_cons_self⟩
        · obtain ⟨rfl, hown, k', hk'⟩ := hlines item' t span parent hline
          exact ⟨rfl, hown, k', List.mem_cons_of_mem _ hk'⟩
    · next howner =>
      obtain ⟨hassistants, hpending, hreported, hlines⟩ := @ih s
      refine ⟨hassistants, ?_, fun e he hown => ?_, fun item' t span parent hline => ?_⟩
      · rw [hpending]
        simp [howner]
      · rcases List.mem_cons.1 he with rfl | he
        · exact absurd hown howner
        · exact hreported e he hown
      · obtain ⟨rfl, hown, k', hk'⟩ := hlines item' t span parent hline
        exact ⟨rfl, hown, k', List.mem_cons_of_mem _ hk'⟩

theorem Prints.none : Prints [] fun _ _ => False := fun _ _ _ _ h => absurd h List.not_mem_nil

theorem Prints.append {lines lines' : List Line} {p : Item → String → Prop}
    (h : Prints lines fun _ _ => False) (h' : Prints lines' p) : Prints (lines ++ lines') p := by
  intro item trace span parent hline
  rcases List.mem_append.1 hline with hline | hline
  · exact (h item trace span parent hline).elim
  · exact h' item trace span parent hline

/-- The entries of a map are known by their keys. -/
theorem entry_eq {m : Recent Key Item limit} {x y : Key × Item} (hx : x ∈ m.entries) (hy : y ∈ m.entries)
    (h : x.1 = y.1) : x = y :=
  List.inj_on_of_nodup_map m.nodup hx hy h

/-- A message of an assistant. -/
theorem assistant_does {session id : String} {info : Info} (hsession : info.sessionId = some session)
    (hid : info.id = some id) (hvalid : (info.role = some "assistant" && validText session && validText id) = true) :
    Does s (.messageUpdated info) (s.assistant digest session id info).1
      (s.assistant digest session id info).2 := by
  have hknown : (Event.messageUpdated info).known = (assistantTrace info).map fun trace => ([session, id], trace) := by
    simp only [Event.known, Info.known, hsession, hid]
    exact if_pos hvalid
  obtain ⟨hassistants, hpending, hterminals, hprints⟩ := finish_others (s := s) digest session info
  unfold State.assistant
  dsimp only
  split
  · next htrace =>
    refine .aside rfl rfl (fun owner trace h => ?_) hassistants hpending hprints
    rw [hknown, htrace] at h
    cases h
  · next trace htrace =>
    have hevent : (Event.messageUpdated info).known = some ([session, id], trace) := by
      rw [hknown, htrace]
      rfl
    split
    · next hconflict =>
      refine .aside rfl rfl (fun owner t h => ?_) hassistants hpending hprints
      obtain ⟨rfl, rfl⟩ := Prod.mk.inj (Option.some.inj (hevent.symm.trans h))
      obtain ⟨other, hother, _⟩ := (Option.any_eq_true _ _).1 hconflict
      rw [hassistants] at hother
      exact Recent.mem_keys.2 ⟨other, Recent.get?_eq_some.1 hother⟩
    · next hfree =>
      generalize s.finish digest session info = finished at hassistants hpending hterminals hprints hfree ⊢
      obtain ⟨t, before⟩ := finished
      simp only at hassistants hpending hterminals hprints hfree ⊢
      have hrelease := release_does (s := { t with assistants := t.assistants.bounded [session, id] trace })
        digest [session, id] trace t.pending.entries
      obtain ⟨hnow, hrest, hreported, hlines⟩ := hrelease
      refine .known [session, id] trace rfl rfl hevent (fun other hother => ?_) ?_ ?_ ?_ ?_
      · rw [hassistants, hother] at hfree
        simpa using hfree
      · rw [hnow, hassistants]
      · rw [hrest, hpending]
        refine List.filter_congr fun x hx => ?_
        congr 1
        rw [Bool.eq_iff_iff, List.any_eq_true]
        constructor
        · rintro ⟨y, hy, hboth⟩
          simp only [Bool.and_eq_true, decide_eq_true_eq] at hboth
          rw [← entry_eq hy hx hboth.2]
          simpa using hboth.1
        · intro hown
          exact ⟨x, hx, by simpa using hown⟩
      · intro x hx hown
        rcases hreported x (hpending ▸ hx) hown with hold | hline
        · exact Or.inl (hterminals ▸ hold)
        · refine Or.inr ?_
          rw [List.filterMap_append, List.mem_append]
          exact Or.inr hline
      · refine hprints.append fun item t span parent hline => ?_
        obtain ⟨htrace, hown, k, hk⟩ := hlines item t span parent hline
        exact ⟨htrace, hown, k, hpending ▸ hk⟩

/-- **What a call of the plugin does.** -/
theorem call_does (e : Event) : Does s e (s.call digest e).1 (s.call digest e).2 := by
  cases e with
  | messageUpdated info =>
    unfold State.call State.messageUpdated
    dsimp only
    split
    · next hrole =>
      refine .aside rfl rfl (fun owner trace h => ?_) (begin_others _ _ _).1 (begin_others _ _ _).2 .none
      have hassistant := Info.known_role h
      exact absurd (Option.some.inj (hrole.symm.trans hassistant)) (by decide)
    · split
      · next session id hsession hid =>
        split
        · next hvalid => exact assistant_does digest hsession hid hvalid
        · next hinvalid =>
          refine .aside rfl rfl (fun owner trace h => ?_) rfl rfl .none
          simp only [Event.known, Info.known, hsession, hid] at h
          rw [if_neg hinvalid] at h
          cases h
      · next hnone =>
        refine .aside rfl rfl (fun owner trace h => ?_) rfl rfl .none
        change info.known = _ at h
        unfold Info.known at h
        split at h
        · next session id hsession hid => exact (hnone session id hsession hid).elim
        · cases h
  | sessionDeleted sid => exact .forgets (ofSession sid) rfl rfl rfl .none
  | dispose => exact .forgets (fun _ => true) rfl rfl rfl .none
  | partUpdated part =>
    unfold State.call State.partUpdated
    dsimp only
    split
    · next hitem => exact .aside hitem rfl (fun _ _ h => by cases h) rfl rfl .none
    · next item hitem =>
      split
      · next trace htrace =>
        obtain ⟨hreported, _, hprints⟩ := complete_prints (s := s) digest item trace
        obtain ⟨hassistants, hpending⟩ := complete_others (s := s) digest item trace
        exact .ends item trace hitem rfl htrace hassistants hpending hreported hprints
      · next hnone => exact .waits item hitem rfl (Recent.get?_eq_none.1 hnone) rfl rfl .none
  | chatHeaders input =>
    have hother : (s.chatHeaders digest input).1.assistants = s.assistants ∧
        (s.chatHeaders digest input).1.pending = s.pending ∧
        Prints (s.chatHeaders digest input).2 fun _ _ => False := by
      unfold State.chatHeaders
      split
      · exact ⟨rfl, rfl, .none⟩
      · split
        · exact ⟨rfl, rfl, .none⟩
        · refine ⟨(begin_others _ _ _).1, (begin_others _ _ _).2, fun _ _ _ _ h => ?_⟩
          cases List.mem_singleton.1 h
    exact .aside rfl rfl (fun _ _ h => by cases h) hother.1 hother.2.1 hother.2.2

end Does

/-! ## §F What waits and what is known -/

section Invariants

variable {s s' : State} {e : Event} {lines : List Line}

theorem Kept.start : Kept start := ⟨fun _ h => absurd h List.not_mem_nil, fun _ h => absurd h List.not_mem_nil⟩

theorem keys_of_forget {m : Recent Key String limit} {p : Key → Bool} {k : Key} (h : k ∈ (m.forget p).keys) :
    k ∈ m.keys := by
  obtain ⟨v, hv⟩ := Recent.mem_keys.1 h
  exact Recent.mem_keys.2 ⟨v, (Recent.mem_forget.1 hv).1⟩

/-- **A call never waits while its message is known.** -/
theorem Kept.call (h : Kept s) (hd : Does s e s' lines) : Kept s' := by
  cases hd with
  | aside _ _ _ hassistants hpending _ =>
    exact ⟨by rw [hassistants, hpending]; exact h.unknown, by rw [hpending]; exact h.keyed⟩
  | known owner trace _ _ _ _ hassistants hpending _ _ =>
    refine ⟨fun x hx => ?_, fun x hx => ?_⟩
    · rw [hpending, List.mem_filter] at hx
      rw [hassistants]
      intro hmem
      obtain ⟨v, hv⟩ := Recent.mem_keys.1 hmem
      rcases Recent.mem_bounded hv with heq | ⟨hold, _⟩
      · simp [(Prod.mk.inj heq).1] at hx
      · exact h.unknown x hx.1 (Recent.mem_keys.2 ⟨v, hold⟩)
    · rw [hpending, List.mem_filter] at hx
      exact h.keyed x hx.1
  | waits item _ _ hfree hassistants hpending _ =>
    refine ⟨fun x hx => ?_, fun x hx => ?_⟩
    · rw [hpending] at hx
      rw [hassistants]
      rcases Recent.mem_bounded hx with rfl | ⟨hold, _⟩
      · exact hfree
      · exact h.unknown x hold
    · rw [hpending] at hx
      rcases Recent.mem_bounded hx with rfl | ⟨hold, _⟩
      · rfl
      · exact h.keyed x hold
  | ends _ _ _ _ _ hassistants hpending _ _ =>
    exact ⟨by rw [hassistants, hpending]; exact h.unknown, by rw [hpending]; exact h.keyed⟩
  | forgets p _ hassistants hpending _ =>
    refine ⟨fun x hx hmem => ?_, fun x hx => ?_⟩
    · rw [hpending] at hx
      rw [hassistants] at hmem
      exact h.unknown x (Recent.mem_forget.1 hx).1 (keys_of_forget hmem)
    · rw [hpending] at hx
      exact h.keyed x (Recent.mem_forget.1 hx).1

/-- What the maps hold has come with an event. -/
structure Seen (s : State) (es : List Event) : Prop where
  items : ∀ x ∈ s.pending.entries, ∃ e ∈ es, e.item = some x.2
  traces : ∀ x ∈ s.assistants.entries, ∃ e ∈ es, e.known = some x

theorem Seen.start : Seen start [] := ⟨fun _ h => absurd h List.not_mem_nil, fun _ h => absurd h List.not_mem_nil⟩

theorem Seen.call {es : List Event} (h : Seen s es) (hd : Does s e s' lines) : Seen s' (es ++ [e]) := by
  have hold : Seen s (es ++ [e]) :=
    ⟨fun x hx => (h.items x hx).imp fun _ => And.imp_left (List.mem_append_left _),
      fun x hx => (h.traces x hx).imp fun _ => And.imp_left (List.mem_append_left _)⟩
  cases hd with
  | aside _ _ _ hassistants hpending _ =>
    exact ⟨by rw [hpending]; exact hold.items, by rw [hassistants]; exact hold.traces⟩
  | known owner trace _ _ hevent _ hassistants hpending _ _ =>
    refine ⟨fun x hx => ?_, fun x hx => ?_⟩
    · rw [hpending, List.mem_filter] at hx
      exact hold.items x hx.1
    · rw [hassistants] at hx
      rcases Recent.mem_bounded hx with rfl | ⟨hx, _⟩
      · exact ⟨e, by simp, hevent⟩
      · exact hold.traces x hx
  | waits item hevent _ _ hassistants hpending _ =>
    refine ⟨fun x hx => ?_, by rw [hassistants]; exact hold.traces⟩
    rw [hpending] at hx
    rcases Recent.mem_bounded hx with rfl | ⟨hx, _⟩
    · exact ⟨e, by simp, hevent⟩
    · exact hold.items x hx
  | ends _ _ _ _ _ hassistants hpending _ _ =>
    exact ⟨by rw [hpending]; exact hold.items, by rw [hassistants]; exact hold.traces⟩
  | forgets p _ hassistants hpending _ =>
    refine ⟨fun x hx => ?_, fun x hx => ?_⟩
    · rw [hpending] at hx
      exact hold.items x (Recent.mem_forget.1 hx).1
    · rw [hassistants] at hx
      exact hold.traces x (Recent.mem_forget.1 hx).1

/-- What is printed has come with the event, or before. -/
theorem Seen.prints {es : List Event} (h : Seen s es) (hd : Does s e s' lines) :
    Prints lines fun item trace => (∃ e' ∈ es ++ [e], e'.item = some item) ∧
      ∃ e' ∈ es ++ [e], e'.known = some (item.owner, trace) := by
  intro item trace span parent hline
  cases hd with
  | aside _ _ _ _ _ hprints => exact (hprints item trace span parent hline).elim
  | known owner t _ _ hevent _ _ _ _ hprints =>
    obtain ⟨rfl, rfl, k, hk⟩ := hprints item trace span parent hline
    obtain ⟨e', he', hitem⟩ := h.items _ hk
    exact ⟨⟨e', List.mem_append_left _ he', hitem⟩, e, by simp, hevent⟩
  | waits _ _ _ _ _ _ hprints => exact (hprints item trace span parent hline).elim
  | ends item' t hevent _ howner _ _ _ hprints =>
    obtain ⟨rfl, rfl⟩ := hprints item trace span parent hline
    obtain ⟨e', he', hknown⟩ := h.traces _ (Recent.get?_eq_some.1 howner)
    exact ⟨⟨e, by simp, hevent⟩, e', List.mem_append_left _ he', hknown⟩
  | forgets _ _ _ _ hprints => exact (hprints item trace span parent hline).elim

end Invariants

/-! ## §G What is printed -/

section Runs

variable (digest : Key → String) {s : State}

theorem after_append (es es' : List Event) : s.after digest (es ++ es') = (s.after digest es).after digest es' := by
  induction es generalizing s with
  | nil => rfl
  | cons e es ih => exact ih

theorem timeline_append (es es' : List Event) :
    s.timeline digest (es ++ es') = s.timeline digest es ++ (s.after digest es).timeline digest es' := by
  induction es generalizing s with
  | nil => rfl
  | cons e es ih =>
    simp only [List.cons_append, State.timeline, State.after, ih, List.append_assoc]

theorem Kept.after (h : Kept s) (es : List Event) : Kept (s.after digest es) := by
  induction es generalizing s with
  | nil => exact h
  | cons e es ih => exact ih (h.call (call_does digest e))

theorem Seen.after {before : List Event} (h : Seen s before) (es : List Event) :
    Seen (s.after digest es) (before ++ es) := by
  induction es generalizing s before with
  | nil => simpa [State.after] using h
  | cons e es ih => simpa [State.after] using ih (h.call (call_does digest e))

/-- A tool call was printed in a run, or before it. -/
def Told (s : State) (es : List Event) (k : Key) : Prop :=
  k ∈ s.terminals.keys ∨ k ∈ (s.timeline digest es).filterMap (Entry.about .call)

theorem lines_about (lines : List Line) :
    (lines.map Entry.line).filterMap (Entry.about .call) = lines.filterMap (Line.about .call) := by
  rw [List.filterMap_map]
  rfl

theorem timeline_about (e : Event) (es : List Event) :
    (s.timeline digest (e :: es)).filterMap (Entry.about .call) =
      (s.call digest e).2.filterMap (Line.about .call) ++
        ((s.call digest e).1.timeline digest es).filterMap (Entry.about .call) := by
  rw [State.timeline, List.cons_append, List.filterMap_cons_none rfl, List.filterMap_append, lines_about]

theorem Told.first {e : Event} {es : List Event} {k : Key}
    (h : k ∈ s.terminals.keys ∨ k ∈ (s.call digest e).2.filterMap (Line.about .call)) : Told digest s (e :: es) k := by
  refine h.imp_right fun hk => ?_
  rw [timeline_about]
  exact List.mem_append_left _ hk

theorem Told.append {es es' : List Event} {k : Key} (h : Told digest (s.after digest es) es' k) :
    Told digest s (es ++ es') k := by
  rw [Told, timeline_append, List.filterMap_append, List.mem_append]
  rcases h with hold | hnew
  · have hrun := @Printed.timeline .call s digest es
    rcases Recent.keys_run hrun hold with hbefore | hreported
    · exact Or.inl hbefore
    · rw [reported_acts] at hreported
      exact Or.inr (Or.inl hreported)
  · exact Or.inr (Or.inr hnew)

theorem Told.later {e : Event} {es : List Event} {k : Key} (h : Told digest (s.call digest e).1 es k) :
    Told digest s (e :: es) k :=
  @Told.append digest s [e] es k h

theorem Told.extend {es es' : List Event} {k : Key} (h : Told digest s es k) : Told digest s (es ++ es') k := by
  refine h.imp_right fun hk => ?_
  rw [timeline_append, List.filterMap_append]
  exact List.mem_append_left _ hk

/-- No event forgets a key. -/
def Leaves (es : List Event) (k : Key) : Prop := ∀ e ∈ es, ∀ p, e.forgets = some p → p k = false

/-- A call that waits goes on to wait, or is printed. -/
theorem waits_run {k : Key} {since : List Key} (hroom : since.toFinset.card < limit) {es : List Event}
    (hsince : ∀ e ∈ es, ∀ item, e.item = some item → item.key ∈ since) (hleaves : Leaves es k) (hkept : Kept s)
    (h : ∃ item, s.pending.Held k item since) :
    (∃ item, (s.after digest es).pending.Held k item since) ∨ Told digest s es k := by
  induction es generalizing s with
  | nil => exact Or.inl h
  | cons e es ih =>
    rw [List.forall_mem_cons] at hsince
    obtain ⟨item, hheld⟩ := h
    have hdoes := call_does (s := s) digest e
    have hgoes : ∀ item', (s.call digest e).1.pending.Held k item' since →
        (∃ item, (s.after digest (e :: es)).pending.Held k item since) ∨ Told digest s (e :: es) k := by
      intro item' hheld'
      rcases ih hsince.2 (fun e' he' => hleaves e' (List.mem_cons_of_mem _ he'))
        (hkept.call hdoes) ⟨item', hheld'⟩ with hlater | htold
      · exact Or.inl hlater
      · exact Or.inr (Told.later digest htold)
    cases hdoes with
    | aside _ _ _ _ hpending _ => exact hgoes item (hpending ▸ hheld)
    | known owner trace _ _ _ _ _ hpending hreported _ =>
      by_cases hown : item.owner = owner
      · refine Or.inr (Told.first digest ?_)
        have hkey : item.key = k := (hkept.keyed _ hheld.mem).symm
        exact hkey ▸ hreported _ hheld.mem hown
      · exact hgoes item (hheld.filter hpending (by simpa using hown))
    | waits item' hevent _ _ _ hpending _ =>
      by_cases hk : item'.key = k
      · refine hgoes item' ?_
        rw [hpending, hk]
        exact hheld.again
      · refine hgoes item ?_
        rw [hpending]
        exact hheld.bounded hk (hsince.1 item' hevent) hroom
    | ends _ _ _ _ _ _ hpending _ _ => exact hgoes item (hpending ▸ hheld)
    | forgets p hevent _ hpending _ =>
      refine hgoes item ?_
      rw [hpending]
      exact hheld.forget (hleaves e List.mem_cons_self p hevent)

/-- A message that is known stays known. -/
theorem knows_run {owner : Key} {since : List Key} (hroom : since.toFinset.card < limit) {es : List Event}
    (hsince : ∀ e ∈ es, ∀ k trace, e.known = some (k, trace) → k ∈ since) (hleaves : Leaves es owner)
    (h : ∃ trace, s.assistants.Held owner trace since) :
    ∃ trace, (s.after digest es).assistants.Held owner trace since := by
  induction es generalizing s with
  | nil => exact h
  | cons e es ih =>
    rw [List.forall_mem_cons] at hsince
    refine ih hsince.2 (fun e' he' => hleaves e' (List.mem_cons_of_mem _ he')) ?_
    obtain ⟨trace, hheld⟩ := h
    cases call_does (s := s) digest e with
    | aside _ _ _ hassistants _ _ => exact ⟨trace, hassistants ▸ hheld⟩
    | known k trace' _ _ hevent _ hassistants _ _ _ =>
      rw [hassistants]
      by_cases hk : k = owner
      · subst hk
        exact ⟨trace', hheld.again⟩
      · exact ⟨trace, hheld.bounded hk (hsince.1 k trace' hevent) hroom⟩
    | waits _ _ _ _ hassistants _ _ => exact ⟨trace, hassistants ▸ hheld⟩
    | ends _ _ _ _ _ hassistants _ _ _ => exact ⟨trace, hassistants ▸ hheld⟩
    | forgets p hevent hassistants _ _ =>
      rw [hassistants]
      exact ⟨trace, hheld.forget (hleaves e List.mem_cons_self p hevent)⟩

/-- A line is printed by the first call, or later. -/
theorem line_cases {lines : List Line} {rest before after : List Entry} {l : Line}
    (h : lines.map Entry.line ++ rest = before ++ .line l :: after) :
    l ∈ lines ∨ ∃ front, before = lines.map Entry.line ++ front ∧ rest = front ++ .line l :: after := by
  rcases List.append_eq_append_iff.1 h with ⟨front, hbefore, hrest⟩ | ⟨more, hlines, hafter⟩
  · exact Or.inr ⟨front, hbefore, hrest⟩
  · cases more with
    | nil =>
      rw [List.append_nil] at hlines
      exact Or.inr ⟨[], by rw [hlines, List.append_nil], hafter.symm⟩
    | cons x more =>
      obtain ⟨rfl, _⟩ := List.cons.inj hafter
      have hmem : Entry.line l ∈ lines.map Entry.line := by
        rw [hlines]
        simp
      obtain ⟨l', hl', heq⟩ := List.mem_map.1 hmem
      obtain rfl := Entry.line.inj heq
      exact Or.inl hl'

/-- A line of a tool call comes behind the end of the call and its message. -/
theorem printed_seen {seen : List Event} (hseen : Seen s seen) (es : List Event) {before after : List Entry}
    {item : Item} {trace span : String} {parent : Option String}
    (h : s.timeline digest es = before ++ .line (.tool item trace span parent) :: after) :
    (∃ e, (e ∈ seen ∨ .call e ∈ before) ∧ e.item = some item) ∧
      ∃ e, (e ∈ seen ∨ .call e ∈ before) ∧ e.known = some (item.owner, trace) := by
  induction es generalizing s seen before with
  | nil => exact absurd h.symm (by simp [State.timeline])
  | cons e es ih =>
    have hdoes := call_does (s := s) digest e
    rw [State.timeline, List.cons_append] at h
    cases before with
    | nil => cases (List.cons.inj h).1
    | cons x before =>
      obtain ⟨hx, htail⟩ := List.cons.inj h
      subst hx
      have hmem : ∀ e' ∈ seen ++ [e], e' ∈ seen ∨ Entry.call e' ∈ Entry.call e :: before := by
        intro e' he'
        rcases List.mem_append.1 he' with he' | he'
        · exact Or.inl he'
        · rw [List.mem_singleton.1 he']
          exact Or.inr List.mem_cons_self
      rcases line_cases htail with hline | ⟨front, rfl, hrest⟩
      · obtain ⟨⟨e', he', hitem⟩, e'', he'', hknown⟩ := hseen.prints hdoes item trace span parent hline
        exact ⟨⟨e', hmem e' he', hitem⟩, e'', hmem e'' he'', hknown⟩
      · have hlater : ∀ e', (e' ∈ seen ++ [e] ∨ Entry.call e' ∈ front) → e' ∈ seen ∨
            Entry.call e' ∈ Entry.call e :: ((s.call digest e).2.map Entry.line ++ front) := by
          rintro e' (he' | he')
          · exact hmem e' he'
          · exact Or.inr (List.mem_cons_of_mem _ (List.mem_append_right _ he'))
        obtain ⟨⟨e', he', hitem⟩, e'', he'', hknown⟩ := ih (hseen.call hdoes) hrest
        exact ⟨⟨e', hlater e' he', hitem⟩, e'', hlater e'' he'', hknown⟩

/-- What forgets a call forgets its message. -/
theorem leaves_key {es : List Event} {item : Item} (h : Leaves es item.owner) : Leaves es item.key := by
  intro e he p hp
  have howner := h e he p hp
  cases e with
  | sessionDeleted sid =>
    obtain rfl := Option.some.inj hp
    exact howner
  | dispose =>
    obtain rfl := Option.some.inj hp
    cases howner
  | messageUpdated info => cases hp
  | partUpdated part => cases hp
  | chatHeaders input => cases hp

/-- A call that ends first, and then its message. -/
theorem printed_by_message {es between : List Event} {first last : Event} {item : Item} {trace : String}
    (hfirst : first.item = some item) (hlast : last.known = some (item.owner, trace))
    (hnew : ∀ e ∈ es, ∀ i, e.item = some i → i.key ≠ item.key) (hleaves : Leaves between item.owner)
    (hroom : (between.filterMap fun e => e.item.map Item.key).toFinset.card < limit) :
    Told digest start (es ++ first :: (between ++ [last])) item.key := by
  have hkept := Kept.start.after digest es
  have hseen := Seen.start.after digest es
  refine Told.append digest ?_
  generalize start.after digest es = s at hkept hseen ⊢
  have hfree : item.key ∉ s.pending.keys := by
    intro hmem
    obtain ⟨i, hi⟩ := Recent.mem_keys.1 hmem
    obtain ⟨e, he, hitem⟩ := hseen.items _ hi
    exact hnew e (by simpa using he) i hitem (hkept.keyed _ hi).symm
  have hdoes := call_does (s := s) digest first
  have hgoes : (s.call digest first).1.pending.Held item.key item
      (between.filterMap fun e => e.item.map Item.key) →
      Told digest s (first :: (between ++ [last])) item.key := by
    intro hheld
    refine Told.later digest ?_
    have hafter := hkept.call hdoes
    rcases waits_run digest hroom (fun e he i hi => List.mem_filterMap.2 ⟨e, he, by rw [hi]; rfl⟩)
      (leaves_key hleaves) hafter ⟨item, hheld⟩ with ⟨i, hi⟩ | htold
    · refine Told.append digest (Told.first digest ?_)
      have hthen := hafter.after digest between
      have hown : i.owner = item.owner := owner_of_key (hthen.keyed _ hi.mem).symm
      cases call_does (s := (s.call digest first).1.after digest between) digest last with
      | aside _ _ hknown _ _ _ =>
        exact absurd (hknown _ _ hlast) (hown ▸ hthen.unknown _ hi.mem)
      | known owner t _ _ hevent _ _ _ hreported _ =>
        obtain ⟨rfl, rfl⟩ := Prod.mk.inj (Option.some.inj (hevent.symm.trans hlast))
        have hkey : i.key = item.key := (hthen.keyed _ hi.mem).symm
        exact hkey ▸ hreported _ hi.mem hown
      | waits _ hitem _ _ _ _ _ => cases hitem.symm.trans (Event.item_of_known hlast)
      | ends _ _ hitem _ _ _ _ _ _ => cases hitem.symm.trans (Event.item_of_known hlast)
      | forgets p hforgets _ _ _ => cases hforgets.symm.trans (Event.forgets_of_known hlast)
    · exact htold.extend digest
  cases hdoes with
  | aside hitem _ _ _ _ _ => cases hitem.symm.trans hfirst
  | known _ _ hitem _ _ _ _ _ _ _ => cases hitem.symm.trans hfirst
  | waits i hitem _ _ _ hpending _ =>
    obtain rfl := Option.some.inj (hitem.symm.trans hfirst)
    refine hgoes ?_
    rw [hpending]
    exact (Recent.bounded_held (by decide) hfree i).mono (List.nil_subset _)
  | ends i t hitem _ _ _ _ hreported _ =>
    obtain rfl := Option.some.inj (hitem.symm.trans hfirst)
    exact Told.first digest hreported
  | forgets p hforgets _ _ _ => cases hforgets.symm.trans (Event.forgets_of_item hfirst)

/-- A message that is known first, and then the end of its call. -/
theorem printed_by_end {es between : List Event} {first last : Event} {item : Item} {trace : String}
    (hfirst : first.known = some (item.owner, trace)) (hlast : last.item = some item)
    (hnew : ∀ e ∈ es, ∀ k t, e.known = some (k, t) → k ≠ item.owner) (hleaves : Leaves between item.owner)
    (hroom : (between.filterMap fun e => e.known.map Prod.fst).toFinset.card < limit) :
    Told digest start (es ++ first :: (between ++ [last])) item.key := by
  have hseen := Seen.start.after digest es
  refine Told.append digest (Told.later digest (Told.append digest (Told.first digest ?_)))
  generalize start.after digest es = s at hseen ⊢
  have hfree : item.owner ∉ s.assistants.keys := by
    intro hmem
    obtain ⟨t, ht⟩ := Recent.mem_keys.1 hmem
    obtain ⟨e, he, hknown⟩ := hseen.traces _ ht
    exact hnew e (by simpa using he) _ t hknown rfl
  have hknown : ∃ t, (s.call digest first).1.assistants.Held item.owner t
      (between.filterMap fun e => e.known.map Prod.fst) := by
    cases call_does (s := s) digest first with
    | aside _ _ hknown _ _ _ => exact absurd (hknown _ _ hfirst) hfree
    | known owner t _ _ hevent _ hassistants _ _ _ =>
      obtain ⟨rfl, rfl⟩ := Prod.mk.inj (Option.some.inj (hevent.symm.trans hfirst))
      rw [hassistants]
      exact ⟨t, (Recent.bounded_held (by decide) hfree t).mono (List.nil_subset _)⟩
    | waits _ hitem _ _ _ _ _ => cases hitem.symm.trans (Event.item_of_known hfirst)
    | ends _ _ hitem _ _ _ _ _ _ => cases hitem.symm.trans (Event.item_of_known hfirst)
    | forgets p hforgets _ _ _ => cases hforgets.symm.trans (Event.forgets_of_known hfirst)
  obtain ⟨t, ht⟩ := knows_run digest hroom
    (fun e he k t hk => List.mem_filterMap.2 ⟨e, he, by rw [hk]; rfl⟩) hleaves hknown
  change item.key ∈ (((s.call digest first).1.after digest between).terminals.keys) ∨ _
  cases call_does (s := (s.call digest first).1.after digest between) digest last with
  | aside hitem _ _ _ _ _ => cases hitem.symm.trans hlast
  | known _ _ hitem _ _ _ _ _ _ _ => cases hitem.symm.trans hlast
  | waits i hitem _ hunknown _ _ _ =>
    obtain rfl := Option.some.inj (hitem.symm.trans hlast)
    exact absurd (Recent.mem_keys.2 ⟨t, ht.mem⟩) hunknown
  | ends i t hitem _ _ _ _ hreported _ =>
    obtain rfl := Option.some.inj (hitem.symm.trans hlast)
    exact hreported
  | forgets p hforgets _ _ _ => cases hforgets.symm.trans (Event.forgets_of_item hlast)

end Runs

/-- **What is printed of a tool call comes with events, and a call whose end and whose message are seen is
printed**, whichever comes first, unless the plugin was told to forget the session or had to remember 1024
others in between. -/
theorem calls_printed (digest : Key → String) :
    (∀ (es : List Event) (before after : List Entry) (item : Item) (trace span : String)
        (parent : Option String),
      start.timeline digest es = before ++ .line (.tool item trace span parent) :: after →
        (∃ e, .call e ∈ before ∧ e.item = some item) ∧
          ∃ e, .call e ∈ before ∧ e.known = some (item.owner, trace)) ∧
    ∀ (es between : List Event) (first last : Event) (item : Item) (trace : String),
      Leaves between item.owner →
      (first.item = some item ∧ last.known = some (item.owner, trace) ∧
          (∀ e ∈ es, ∀ i, e.item = some i → i.key ≠ item.key) ∧
          (between.filterMap fun e => e.item.map Item.key).toFinset.card < 1024 ∨
        first.known = some (item.owner, trace) ∧ last.item = some item ∧
          (∀ e ∈ es, ∀ k t, e.known = some (k, t) → k ≠ item.owner) ∧
          (between.filterMap fun e => e.known.map Prod.fst).toFinset.card < 1024) →
      item.key ∈ (start.timeline digest (es ++ first :: (between ++ [last]))).filterMap
        (Entry.about .call) := by
  constructor
  · intro es before after item trace span parent h
    obtain ⟨⟨e, he, hitem⟩, e', he', hknown⟩ := printed_seen digest Seen.start es h
    exact ⟨⟨e, he.resolve_left List.not_mem_nil, hitem⟩, e', he'.resolve_left List.not_mem_nil, hknown⟩
  · intro es between first last item trace hleaves h
    have htold : Told digest start (es ++ first :: (between ++ [last])) item.key := by
      rcases h with ⟨hfirst, hlast, hnew, hroom⟩ | ⟨hfirst, hlast, hnew, hroom⟩
      · exact printed_by_message digest hfirst hlast hnew hleaves hroom
      · exact printed_by_end digest hfirst hlast hnew hleaves hroom
    refine htold.resolve_left fun hmem => ?_
    obtain ⟨v, hv⟩ := Recent.mem_keys.1 hmem
    exact absurd hv List.not_mem_nil

theorem calls_printed_when_message_late :
    endedItem.key ∈ (start.timeline (fun _ => "")
      ([] ++ .partUpdated ended :: ([] ++ [.messageUpdated answer]))).filterMap (Entry.about .call) := by
  refine (calls_printed fun _ => "").2 [] [] (.partUpdated ended) (.messageUpdated answer) endedItem
    "0123456789abcdef0123456789abcdef" (fun _ h => absurd h List.not_mem_nil) (Or.inl ⟨?_, ?_, ?_, ?_⟩)
  · decide +kernel
  · decide +kernel
  · exact fun _ h => absurd h List.not_mem_nil
  · decide

end OpencodeCloud.AgentRuntime.Trace
