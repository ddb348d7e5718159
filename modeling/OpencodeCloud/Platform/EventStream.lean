/-
# OpencodeCloud.Platform.EventStream -- what a client reads of an agent's events

An agent sends its events as an event stream. The sandbox manager subscribes to the events of all
directories, where each event is wrapped into another object, and passes on what is inside
(`flattened_events`); the terminal client reads the result with a reader of its own (`events`). The one
strips all spaces in front of a value and stops at two MiB, the other strips one space and stops at one.

The client reads the payloads that the manager has passed on, in their order, up to the first whose text is
longer than one MiB, and no comment gets in the way; and what an agent writes in the usual form, one line an
event, comes through to the client entirely (`events_read`).
-/
import OpencodeCloud.Library.Json
import OpencodeCloud.Library.Sse

namespace OpencodeCloud.Platform

open OpencodeCloud.Library OpencodeCloud.Library.Sse

/-! ## §A The two readers -/

/-- `"\n".join(data)` -/
def joinLines (data : List Text) : Text := List.intercalate ['\n'] data

/-- How the manager reads a line with data. -/
def managerDialect : Dialect where
  value line := (line.drop 5).dropWhile (· == ' ')
  size := List.length
  limit := 2 * 1024 * 1024

/-- What the manager passes on. -/
inductive Passed where
  | payload (value : Json)
  | comment (line : Text)

/-- `event.get("payload", event)` -/
def payloadOf (event : Json) : Option Json :=
  if event.isObject then some ((event.get? "payload").getD event) else none

/-- The value behind `data:`, without one space. -/
def clientValue (line : Text) : Text :=
  let value := line.drop 5
  if value.head? = some ' ' then value.drop 1 else value

/-- How the client reads a line with data. -/
def clientDialect : Dialect where
  value := clientValue
  size line := (clientValue line).length
  limit := 1024 * 1024

section Readers

-- `json.loads`, and `json.dumps` with the separators of the manager
variable (loads : Text → Option Json) (dumps : Json → Text)

/-- What the manager makes of an event and of a comment. -/
def passOn : Item → Option (List Passed)
  | .event data => ((loads (joinLines data)).bind payloadOf).map fun value => [.payload value]
  | .comment line => some [.comment line]

/-- `flattened_events(upstream)`, on the lines of the stream. -/
def flattenedEvents (lines : List Text) : List Passed × Bool := read managerDialect (passOn loads) [] 0 lines

/-- The chunk that is yielded. -/
def Passed.block : Passed → Block
  | .payload value => .event (dumps value)
  | .comment line => .comment line

/-- What the client makes of an event and of a comment. -/
def takeIn : Item → Option (List Json)
  | .event data => (loads (joinLines data)).map fun event => [event]
  | .comment _ => some []

/-- `events(response)`, on the lines of the stream. -/
def events (lines : List Text) : List Json × Bool := read clientDialect (takeIn loads) [] 0 lines

/-- The text that the manager sends. -/
def sentText (passed : List Passed) : Text := (passed.map (Passed.block dumps)).flatMap Block.text

/-- A payload that the client takes. -/
def fits (value : Json) : Bool := (dumps value).length ≤ 1024 * 1024

end Readers

/-- The payloads among what is passed on. -/
def payloads : List Passed → List Json := List.filterMap fun p =>
  match p with
  | .payload value => some value
  | .comment _ => none

/-! ## §B From the manager to the client -/

/-- `json.dumps` writes no end of a line, and `json.loads` reads back what was loaded. -/
structure Codec (loads : Text → Option Json) (dumps : Json → Text) : Prop where
  oneLine : ∀ value, ∀ c ∈ dumps value, isBoundary c = false
  reads : ∀ text event payload, loads text = some event → payloadOf event = some payload →
    loads (dumps payload) = some payload

section Client

variable {loads : Text → Option Json} {dumps : Json → Text}

/-- A payload that was loaded, or a comment from a line. -/
def Passed.Good (loads : Text → Option Json) : Passed → Prop
  | .payload value => ∃ text event, loads text = some event ∧ payloadOf event = some value
  | .comment line => line.head? = some ':' ∧ ∀ c ∈ line, isBoundary c = false

theorem flattenedEvents_good (upstream : Text) :
    ∀ p ∈ (flattenedEvents loads (splitlines upstream)).1, p.Good loads := by
  refine read_forall (fun data out hout => ?_) (fun line hline hhead out hout => ?_) [] 0
  · obtain ⟨value, hvalue, rfl⟩ := Option.map_eq_some_iff.1 hout
    obtain ⟨event, hevent, hpayload⟩ := Option.bind_eq_some_iff.1 hvalue
    intro p hp
    rw [List.mem_singleton.1 hp]
    exact ⟨_, event, hevent, hpayload⟩
  · obtain rfl := Option.some.inj hout
    intro p hp
    rw [List.mem_singleton.1 hp]
    exact ⟨hhead, splitlines_clean hline⟩

/-- A text that stands on one line, by its characters. -/
theorem oneLine_of_any {text : Text} (h : text.any isBoundary = false) : ∀ c ∈ text, isBoundary c = false :=
  fun c hc => Bool.eq_false_iff.2 (List.any_eq_false.1 h c hc)

theorem Passed.Good.proper (hcodec : Codec loads dumps) {p : Passed} (h : p.Good loads) :
    (p.block dumps).Proper := by
  cases p with
  | payload value =>
    refine ⟨fun c hc => ?_, fun line hline => by cases hline⟩
    have hlead : ∀ c ∈ "data: ".toList, isBoundary c = false := oneLine_of_any (by decide)
    rcases List.mem_append.1 hc with hc | hc
    · exact hlead c hc
    · exact hcodec.oneLine value c hc
  | comment line =>
    refine ⟨h.2, fun line' hline' => ?_⟩
    obtain rfl := Block.comment.inj hline'
    exact h.1

theorem clientValue_event (text : Text) : clientValue (Block.event text).line = text := by
  simp [clientValue, Block.line]

/-- The client reads what the manager has passed on. -/
theorem events_sent (hcodec : Codec loads dumps) {passed : List Passed} (h : ∀ p ∈ passed, p.Good loads) :
    events loads (splitlines (sentText dumps passed)) =
      ((payloads passed).takeWhile (fits dumps), (payloads passed).all (fits dumps)) := by
  have hproper : ∀ b ∈ passed.map (Passed.block dumps), b.Proper := by
    intro b hb
    obtain ⟨p, hp, rfl⟩ := List.mem_map.1 hb
    exact (h p hp).proper hcodec
  rw [events, sentText, splitlines_text hproper, read_written _ _ hproper]
  clear hproper
  induction passed with
  | nil => rfl
  | cons p passed ih =>
    rw [List.forall_mem_cons] at h
    have hrest := ih h.2
    cases p with
    | payload value =>
      obtain ⟨text, event, hevent, hpayload⟩ := h.1
      have hload := hcodec.reads text event value hevent hpayload
      have hlist : payloads (.payload value :: passed) = value :: payloads passed := rfl
      rw [hlist, List.map_cons]
      by_cases hfits : fits dumps value = true
      · have houtcome : Block.outcome clientDialect (takeIn loads) (Passed.block dumps (.payload value)) =
            some [value] := by
          have hsize : ¬clientDialect.size (Block.event (dumps value)).line > clientDialect.limit := by
            have hlength : (dumps value).length ≤ 1024 * 1024 := by simpa [fits] using hfits
            simpa [clientDialect, clientValue_event] using hlength
          have hvalue : clientDialect.value (Block.event (dumps value)).line = dumps value :=
            clientValue_event _
          rw [Passed.block, Block.outcome, if_neg hsize, hvalue, takeIn, joinLines]
          simp [hload]
        rw [consume_cons_some houtcome, hrest, List.takeWhile_cons, if_pos hfits, List.all_cons, hfits]
        rfl
      · have houtcome : Block.outcome clientDialect (takeIn loads) (Passed.block dumps (.payload value)) =
            none := by
          have hsize : clientDialect.size (Block.event (dumps value)).line > clientDialect.limit := by
            have hlength : 1024 * 1024 < (dumps value).length := by simpa [fits] using hfits
            simpa [clientDialect, clientValue_event] using hlength
          exact if_pos hsize
        rw [consume_cons_none houtcome, List.takeWhile_cons, if_neg hfits, List.all_cons,
          Bool.eq_false_iff.2 hfits]
        rfl
    | comment line =>
      have houtcome : Block.outcome clientDialect (takeIn loads) (Passed.block dumps (.comment line)) =
          some [] := rfl
      have hlist : payloads (.comment line :: passed) = payloads passed := rfl
      rw [hlist, List.map_cons, consume_cons_some houtcome, hrest]
      rfl

/-- The payload of a block that an agent writes. -/
def blockPayload (loads : Text → Option Json) : Block → Option Json
  | .event text => (loads text).bind payloadOf
  | .comment _ => none

/-- A block that an agent writes: a comment, or an event on one line that is not too long for the manager,
with a payload that is not too long for the client. -/
structure Usual (loads : Text → Option Json) (dumps : Json → Text) (b : Block) : Prop where
  proper : b.Proper
  event : ∀ text, b = .event text → text.head? ≠ some ' ' ∧ b.line.length ≤ 2 * 1024 * 1024 ∧
    ∃ payload, blockPayload loads b = some payload ∧ fits dumps payload = true

/-- What the manager passes on of usual blocks. -/
theorem flattenedEvents_usual {blocks : List Block} (h : ∀ b ∈ blocks, Usual loads dumps b) :
    (flattenedEvents loads (splitlines (blocks.flatMap Block.text))).2 = true ∧
      payloads (flattenedEvents loads (splitlines (blocks.flatMap Block.text))).1 =
        blocks.filterMap (blockPayload loads) ∧
      (payloads (flattenedEvents loads (splitlines (blocks.flatMap Block.text))).1).all (fits dumps) = true := by
  have hproper : ∀ b ∈ blocks, b.Proper := fun b hb => (h b hb).proper
  rw [flattenedEvents, splitlines_text hproper, read_written _ _ hproper]
  clear hproper
  induction blocks with
  | nil => exact ⟨rfl, rfl, rfl⟩
  | cons b blocks ih =>
    rw [List.forall_mem_cons] at h
    obtain ⟨hwhole, hsame, hall⟩ := ih h.2
    cases b with
    | event text =>
      obtain ⟨hhead, hsize, payload, hpayload, hfits⟩ := h.1.event text rfl
      have hvalue : managerDialect.value (Block.event text).line = text := by
        cases text with
        | nil => rfl
        | cons c text =>
          have hc : (c == ' ') = false := by
            rw [beq_eq_false_iff_ne]
            rintro rfl
            exact hhead rfl
          simp [managerDialect, Block.line, hc]
      have houtcome : Block.outcome managerDialect (passOn loads) (.event text) = some [.payload payload] := by
        have hshort : ¬managerDialect.size (Block.event text).line > managerDialect.limit := Nat.not_lt.2 hsize
        rw [Block.outcome, if_neg hshort, hvalue, passOn, joinLines]
        have hpayload' : (loads text).bind payloadOf = some payload := hpayload
        simp [hpayload']
      rw [consume_cons_some houtcome]
      refine ⟨hwhole, ?_, ?_⟩
      · rw [List.filterMap_cons_some hpayload, ← hsame]
        rfl
      · refine (List.all_cons (l := payloads _)).trans ?_
        rw [hfits]
        exact hall
    | comment line =>
      have houtcome : Block.outcome managerDialect (passOn loads) (.comment line) = some [.comment line] := rfl
      rw [consume_cons_some houtcome]
      exact ⟨hwhole, hsame, hall⟩

end Client

/-- **The client reads the payloads that the manager passes on**, in their order, up to the first that is
longer than one MiB; and all of them, where the agent writes its events in the usual form. -/
theorem events_read (loads : Text → Option Json) (dumps : Json → Text) (hcodec : Codec loads dumps) :
    (∀ upstream, events loads (splitlines (sentText dumps (flattenedEvents loads (splitlines upstream)).1)) =
      ((payloads (flattenedEvents loads (splitlines upstream)).1).takeWhile (fits dumps),
        (payloads (flattenedEvents loads (splitlines upstream)).1).all (fits dumps))) ∧
    ∀ blocks : List Block, (∀ b ∈ blocks, Usual loads dumps b) →
      events loads (splitlines (sentText dumps
        (flattenedEvents loads (splitlines (blocks.flatMap Block.text))).1)) =
          (blocks.filterMap (blockPayload loads), true) := by
  constructor
  · exact fun upstream => events_sent hcodec (flattenedEvents_good upstream)
  · intro blocks h
    obtain ⟨_, hsame, hall⟩ := flattenedEvents_usual h
    rw [events_sent hcodec (flattenedEvents_good _), hall, ← hsame]
    rw [List.takeWhile_eq_self_iff.2 (List.all_eq_true.1 hall)]

/-- A parser that knows one event and its payload. -/
def loadsConnected (text : Text) : Option Json :=
  if text = "\x7b\"payload\":\x7b\x7d\x7d".toList then some (.object [("payload", .object [])])
  else if text = "\x7b\x7d".toList then some (.object [])
  else none

/-- The writer that belongs to it. -/
def dumpsConnected : Json → Text
  | .object [] => "\x7b\x7d".toList
  | _ => []

theorem events_read_when_connected :
    events loadsConnected (splitlines (sentText dumpsConnected (flattenedEvents loadsConnected (splitlines
      ([Block.comment ": ping".toList, .event "\x7b\"payload\":\x7b\x7d\x7d".toList].flatMap Block.text))).1)) =
        ([Json.object []], true) := by
  have hcodec : Codec loadsConnected dumpsConnected := by
    constructor
    · intro value
      unfold dumpsConnected
      split
      · exact oneLine_of_any (by decide)
      · exact fun c hc => absurd hc (List.not_mem_nil)
    · intro text event payload hload hpayload
      have hobject : payload = .object [] := by
        unfold loadsConnected at hload
        split at hload
        · obtain rfl := Option.some.inj hload
          exact (Option.some.inj hpayload).symm
        · split at hload
          · obtain rfl := Option.some.inj hload
            exact (Option.some.inj hpayload).symm
          · cases hload
      rw [hobject]
      rfl
  refine (events_read loadsConnected dumpsConnected hcodec).2
    [.comment ": ping".toList, .event "\x7b\"payload\":\x7b\x7d\x7d".toList] ?_
  intro b hb
  rcases List.mem_cons.1 hb with rfl | hb
  · exact ⟨⟨oneLine_of_any (by decide), fun line h => by cases h; rfl⟩, fun text h => by cases h⟩
  · rw [List.mem_singleton.1 hb]
    refine ⟨⟨oneLine_of_any (by decide), fun line h => by cases h⟩, fun text h => ?_⟩
    cases h
    exact ⟨by decide, by decide, .object [], rfl, by decide⟩

end OpencodeCloud.Platform
