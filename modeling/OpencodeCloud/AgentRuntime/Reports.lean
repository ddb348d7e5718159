/-
# OpencodeCloud.AgentRuntime.Reports -- the plugin's lines at the supervisor

The trace plugin prints what it reports as JSON behind a prefix, and the supervisor of the runtime reads the
output of the process, where anything else may stand, and keeps only what passes its checks. The two were
written apart: the plugin checks identifiers and times with rules of its own.

Every span that the plugin prints in a run is short enough and has the fields that are required, and the
supervisor keeps it, with the identifiers and the times that it was printed with, unless it ends after the
year 9999 or its id is all zeros (`spans_kept`).
-/
import Mathlib
import OpencodeCloud.AgentRuntime.PluginEvent
import OpencodeCloud.AgentRuntime.Trace

namespace OpencodeCloud.AgentRuntime.Trace

open OpencodeCloud.Library

/-! ## §A The text of a line -/

/-- The values of the fields that are printed. -/
inductive Value where
  | text (s : String)
  | number (n : ℤ)
  | null

def Value.json : Value → Json
  | .text s => .string s
  | .number n => .int n
  | .null => .null

/-- Four hexadecimal digits. -/
def fourDigits (n : Nat) : List Char :=
  let digits := Nat.toDigits 16 n
  List.replicate (4 - digits.length) '0' ++ digits

/-- `JSON.stringify` on a character of a text. -/
def escape (c : Char) : List Char :=
  if c = '"' then ['\\', '"']
  else if c = '\\' then ['\\', '\\']
  else if c = '\n' then ['\\', 'n']
  else if c = '\r' then ['\\', 'r']
  else if c = '\t' then ['\\', 't']
  else if c = Char.ofNat 8 then ['\\', 'b']
  else if c = Char.ofNat 12 then ['\\', 'f']
  else if c.toNat < 32 then '\\' :: 'u' :: fourDigits c.toNat
  else [c]

/-- `JSON.stringify` on a text. -/
def quote (s : String) : List Char := '"' :: (s.toList.flatMap escape ++ ['"'])

def Value.print : Value → List Char
  | .text s => quote s
  | .number n => (toString n).toList
  | .null => "null".toList

/-- `JSON.stringify` on an object of such values. -/
def stringify (fields : List (String × Value)) : List Char :=
  '\x7b' :: (List.intercalate [','] (fields.map fun f => quote f.1 ++ ':' :: f.2.print) ++ ['\x7d'])

/-- A text as bytes. -/
def encode (text : List Char) : Bytes := text.flatMap String.utf8EncodeChar

section Line

-- `new Date(time).toISOString()`
variable (isoString : ℤ → String)

/-- `item` -/
def Item.fields (item : Item) : List (String × Value) :=
  [("action", .text (if item.error then "tool_error" else "tool_complete")), ("session_id", .text item.session),
    ("message_id", .text item.message), ("part_id", .text item.part), ("call_id", .text item.call),
    ("tool", .text item.tool), ("duration_ms", .number (item.stop - item.start)),
    ("timestamp", .text (isoString item.stop)), ("start_time_ms", .number item.start),
    ("end_time_ms", .number item.stop)] ++
    if item.error then [("error_code", .text "ToolExecutionError")] else []

/-- A text, or `null`. -/
def textOrNull (s : Option String) : Value := s.elim .null .text

/-- The object that is printed at a time. -/
def Line.fields (now : ℤ) : Line → List (String × Value)
  | .runtime error session message trace span start stop =>
    [("component", .text "sandbox"), ("level", .text "INFO"),
      ("action", .text (if error then "runtime_error" else "runtime_complete")), ("event_kind", .text "span"),
      ("session_id", .text session), ("message_id", .text message), ("trace_id", textOrNull trace),
      ("span_id", .text span), ("timestamp", .text (isoString stop)), ("start_time_ms", .number start),
      ("end_time_ms", .number stop), ("duration_ms", .number (stop - start))]
  | .tool item trace span parent =>
    item.fields isoString ++ [("trace_id", .text trace), ("span_id", .text span), ("component", .text "sandbox"),
      ("level", .text "INFO"), ("event_kind", .text "span")] ++
      parent.toList.map fun p => ("parent_span_id", .text p)
  | .dispatch session message logicalModel trace span parent =>
    [("timestamp", .text (isoString now)), ("level", .text "INFO"), ("component", .text "sandbox"),
      ("action", .text "model_dispatch"), ("event_kind", .text "instant"), ("message_id", textOrNull message),
      ("session_id", .text session), ("logical_model", textOrNull logicalModel), ("trace_id", textOrNull trace),
      ("span_id", textOrNull span)] ++
      parent.toList.map fun p => ("parent_span_id", .text p)

/-- The bytes of a line. -/
def Line.bytes (now : ℤ) (l : Line) : Bytes := pluginEventPrefix ++ encode (stringify (l.fields isoString now))

end Line

/-! ## §B What lines are made of -/

/-- An ended call whose identifiers and times have passed the checks. -/
structure Item.Valid (item : Item) : Prop where
  session : validText item.session = true
  message : validText item.message = true
  part : validText item.part = true
  call : validText item.call = true
  tool : validText item.tool = true
  start : 0 ≤ item.start
  order : item.start ≤ item.stop
  duration : item.stop - item.start ≤ 86400000
  stop : item.stop ≤ 8640000000000000

/-- 16 hexadecimal digits. -/
def Digits (n : Nat) (s : String) : Prop := s.length = n ∧ ∀ c ∈ s.toList, c ∈ "0123456789abcdef".toList

/-- A digit is not zero. -/
def nonzero (s : String) : Bool := s.toList.any (· != '0')

/-- A line of a span, as the plugin makes them. -/
def Line.Formed : Line → Prop
  | .runtime _ session message trace span start stop =>
    validText session = true ∧ validText message = true ∧ (∀ t ∈ trace, Digits 32 t) ∧ Digits 16 span ∧
      0 ≤ start ∧ start ≤ stop ∧ stop - start ≤ 86400000 ∧ stop ≤ 8640000000000000
  | .tool item trace span parent =>
    item.Valid ∧ Digits 32 trace ∧ nonzero trace = true ∧ Digits 16 span ∧ ∀ p ∈ parent, Digits 16 p
  | .dispatch _ _ _ _ _ _ => True

/-- The maps hold what has passed the checks. -/
structure Sound (s : State) : Prop where
  starts : ∀ x ∈ s.starts.entries, ∃ a b, x.1 = [a, b] ∧ validText a = true ∧ validText b = true
  items : ∀ x ∈ s.pending.entries, x.2.Valid
  traces : ∀ x ∈ s.assistants.entries, Digits 32 x.2 ∧ nonzero x.2 = true

theorem item_valid {part : Part} {item : Item} (h : part.item = some item) : item.Valid := by
  unfold Part.item at h
  split at h
  · split at h
    · next hchecks =>
      obtain rfl := Option.some.inj h
      simp only [Bool.and_eq_true, decide_eq_true_eq] at hchecks
      obtain ⟨⟨⟨⟨⟨⟨⟨⟨⟨⟨_, h1⟩, h2⟩, h3⟩, h4⟩, h5⟩, _⟩, h6⟩, h7⟩, h8⟩, h9⟩ := hchecks
      exact ⟨h1, h2, h3, h4, h5, h6, h7, h8, h9⟩
    · cases h
  · cases h

theorem managed_digits {value trace : String} (h : managed value = some trace) : Digits 32 trace := by
  unfold managed at h
  dsimp only at h
  split at h
  · next hmatch =>
    obtain rfl := Option.some.inj h
    simp only [Bool.and_eq_true, decide_eq_true_eq, List.all_eq_true, List.contains_iff_mem] at hmatch
    refine ⟨?_, fun c hc => hmatch.2 c (by simpa using hc)⟩
    rw [String.length_ofList]
    exact hmatch.1.2
  · cases h

theorem assistantTrace_digits {info : Info} {trace : String} (h : assistantTrace info = some trace) :
    Digits 32 trace ∧ nonzero trace = true := by
  obtain ⟨hmanaged, hnonzero⟩ := Option.filter_eq_some_iff.1 h
  obtain ⟨parent, _, hparent⟩ := Option.bind_eq_some_iff.1 hmanaged
  exact ⟨managed_digits hparent, hnonzero⟩

/-- A step that leaves sound maps, and prints formed lines. -/
def Good (r : State × List Line) : Prop := Sound r.1 ∧ ∀ l ∈ r.2, l.Formed

section Good

variable {digest : Key → String} (hdigest : ∀ k, Digits 16 (digest k)) {s : State}

theorem Sound.start : Sound start :=
  ⟨fun _ h => absurd h List.not_mem_nil, fun _ h => absurd h List.not_mem_nil, fun _ h => absurd h List.not_mem_nil⟩

theorem Sound.silent (h : Sound s) : Good (s, []) := ⟨h, fun _ hl => absurd hl List.not_mem_nil⟩

theorem Good.append {r r' : State × List Line} (h : Good r) (h' : Good r') : Good (r'.1, r.2 ++ r'.2) :=
  ⟨h'.1, List.forall_mem_append.2 ⟨h.2, h'.2⟩⟩

theorem Sound.begin (h : Sound s) (session id : Option String) (created : Option ℤ) :
    Sound (s.begin session id created) := by
  unfold State.begin
  split
  · next session id created =>
    split
    · next hvalid =>
      simp only [Bool.and_eq_true] at hvalid
      refine ⟨fun x hx => ?_, h.items, h.traces⟩
      rcases Recent.mem_bounded hx with rfl | ⟨hold, _⟩
      · exact ⟨session, id, rfl, hvalid.1.1, hvalid.1.2⟩
      · exact h.starts x hold
    · exact h
  · exact h

theorem Sound.forget (h : Sound s) (p : Key → Bool) : Sound (s.forget p) :=
  ⟨fun x hx => h.starts x (Recent.mem_forget.1 hx).1, fun x hx => h.items x (Recent.mem_forget.1 hx).1,
    fun x hx => h.traces x (Recent.mem_forget.1 hx).1⟩

include hdigest

theorem Sound.finish (h : Sound s) (session : String) (info : Info) : Good (s.finish digest session info) := by
  unfold State.finish
  split
  · next parent stop _ _ =>
    split
    · next start hstart =>
      split
      · exact h.silent
      · next hguard =>
        obtain ⟨a, b, hkey, ha, hb⟩ := h.starts _ (Recent.get?_eq_some.1 hstart)
        obtain ⟨rfl, rfl⟩ : session = a ∧ parent = b := by simpa using hkey
        simp only [Bool.or_eq_true, decide_eq_true_eq, Bool.not_eq_true', not_or, Bool.not_eq_false,
          validTime, Bool.and_eq_true, not_lt] at hguard
        obtain ⟨⟨⟨⟨⟨_, hfirst⟩, hlast⟩, horder⟩, hduration⟩, _⟩ := hguard
        refine ⟨⟨h.starts, h.items, h.traces⟩, fun l hl => ?_⟩
        rw [List.mem_singleton.1 hl]
        exact ⟨ha, hb, fun t ht => managed_digits ht, hdigest _, hfirst.1, horder, hduration, hlast.2⟩
    · exact h.silent
  · exact h.silent

theorem Sound.complete (h : Sound s) {item : Item} (hitem : item.Valid) {trace : String}
    (htrace : Digits 32 trace ∧ nonzero trace = true) : Good (s.complete digest item trace) := by
  unfold State.complete
  split
  · exact h.silent
  · refine ⟨⟨h.starts, h.items, h.traces⟩, fun l hl => ?_⟩
    rw [List.mem_singleton.1 hl]
    refine ⟨hitem, htrace.1, htrace.2, hdigest _, fun p hp => ?_⟩
    split at hp
    · rw [← Option.some.inj hp]
      exact hdigest _
    · cases hp

theorem Sound.release (h : Sound s) (owner : Key) {trace : String}
    (htrace : Digits 32 trace ∧ nonzero trace = true) {waiting : List (Key × Item)}
    (hwaiting : ∀ x ∈ waiting, x.2.Valid) : Good (State.release digest owner trace waiting s) := by
  induction waiting generalizing s with
  | nil => exact h.silent
  | cons x waiting ih =>
    rw [List.forall_mem_cons] at hwaiting
    unfold State.release
    split
    · have hless : Sound { s with pending := s.pending.forget (· == x.1) } :=
        ⟨h.starts, fun y hy => h.items y (Recent.mem_forget.1 hy).1, h.traces⟩
      have hdone := hless.complete hdigest hwaiting.1 htrace
      exact hdone.append (ih hdone.1 hwaiting.2)
    · exact ih h hwaiting.2

theorem Sound.assistant (h : Sound s) (session id : String) (info : Info) :
    Good (s.assistant digest session id info) := by
  have hfinish := h.finish hdigest session info
  unfold State.assistant
  dsimp only
  split
  · exact hfinish
  · next trace htrace =>
    split
    · exact hfinish
    · have hdigits := assistantTrace_digits htrace
      refine hfinish.append (Sound.release hdigest ?_ _ hdigits hfinish.1.items)
      refine ⟨hfinish.1.starts, hfinish.1.items, fun x hx => ?_⟩
      rcases Recent.mem_bounded hx with rfl | ⟨hold, _⟩
      · exact hdigits
      · exact hfinish.1.traces x hold

/-- **A call of the plugin prints formed lines.** -/
theorem Sound.call (h : Sound s) (e : Event) : Good (s.call digest e) := by
  cases e with
  | messageUpdated info =>
    unfold State.call State.messageUpdated
    dsimp only
    split
    · exact (h.begin _ _ _).silent
    · split
      · split
        · exact h.assistant hdigest _ _ info
        · exact h.silent
      · exact h.silent
  | sessionDeleted sid => exact (h.forget _).silent
  | dispose => exact (h.forget _).silent
  | partUpdated part =>
    unfold State.call State.partUpdated
    dsimp only
    split
    · exact h.silent
    · next item hitem =>
      have hvalid := item_valid hitem
      split
      · next trace htrace => exact h.complete hdigest hvalid (h.traces _ (Recent.get?_eq_some.1 htrace))
      · refine Sound.silent ⟨h.starts, fun x hx => ?_, h.traces⟩
        rcases Recent.mem_bounded hx with rfl | ⟨hold, _⟩
        · exact hvalid
        · exact h.items x hold
  | chatHeaders input =>
    unfold State.call State.chatHeaders
    dsimp only
    split
    · exact h.silent
    · split
      · exact h.silent
      · refine ⟨h.begin _ _ _, fun l hl => ?_⟩
        rw [List.mem_singleton.1 hl]
        trivial

/-- The lines of a run are formed. -/
theorem Sound.timeline (h : Sound s) (es : List Event) : ∀ l, .line l ∈ s.timeline digest es → l.Formed := by
  induction es generalizing s with
  | nil => exact fun l hl => absurd hl List.not_mem_nil
  | cons e es ih =>
    have hcall := h.call hdigest e
    intro l hl
    rcases List.mem_cons.1 hl with hcase | hl
    · cases hcase
    · rcases List.mem_append.1 hl with hl | hl
      · obtain ⟨l', hl', heq⟩ := List.mem_map.1 hl
        obtain rfl := Entry.line.inj heq
        exact hcall.2 l' hl'
      · exact ih hcall.1 l hl

end Good

/-! ## §C The length of a line -/

/-- A text of at most `n` characters that is printed as it is. -/
def Plain (n : Nat) (s : String) : Prop := s.length ≤ n ∧ ∀ c ∈ s.toList, escape c = [c] ∧ c.toNat < 128

/-- A value that takes little space. -/
def Value.Small : Value → Prop
  | .text s => Plain 128 s
  | .number n => 0 ≤ n ∧ n ≤ 8640000000000000
  | .null => True

theorem encode_append (a b : List Char) : encode (a ++ b) = encode a ++ encode b := List.flatMap_append

theorem length_encode {text : List Char} (h : ∀ c ∈ text, c.toNat < 128) : (encode text).length = text.length := by
  induction text with
  | nil => rfl
  | cons c text ih =>
    rw [List.forall_mem_cons] at h
    have hsize : (String.utf8EncodeChar c).length = 1 := by
      rw [String.length_utf8EncodeChar, Char.utf8Size_eq_one_iff]
      have := h.1
      show c.val.toNat ≤ 127
      exact Nat.le_of_lt_succ this
    rw [encode, List.flatMap_cons, List.length_append, hsize, List.length_cons, Nat.add_comm]
    exact congrArg (· + 1) (ih h.2)

theorem length_quote {n : Nat} {s : String} (h : Plain n s) : (encode (quote s)).length ≤ n + 2 := by
  have hsame : s.toList.flatMap escape = s.toList := by
    refine (List.flatMap_congr fun c hc => (h.2 c hc).1).trans ?_
    simp
  have hascii : ∀ c ∈ quote s, c.toNat < 128 := by
    intro c hc
    rw [quote, hsame, List.mem_cons, List.mem_append, List.mem_singleton] at hc
    rcases hc with rfl | hc | rfl
    · decide
    · exact (h.2 c hc).2
    · decide
  have hlength : s.toList.length ≤ n := String.length_toList.trans_le h.1
  rw [length_encode hascii, quote, hsame]
  simpa using hlength

theorem length_number {n : ℤ} (h : 0 ≤ n ∧ n ≤ 8640000000000000) : (encode (Value.number n).print).length ≤ 16 := by
  obtain ⟨m, rfl⟩ := Int.eq_ofNat_of_zero_le h.1
  have hprint : (Value.number m).print = Nat.toDigits 10 m := Nat.toList_repr
  have hascii : ∀ c ∈ Nat.toDigits 10 m, c.toNat < 128 := by
    intro c hc
    have hdigit := Nat.isDigit_of_mem_toDigits (by decide) (by decide) hc
    simp only [Char.isDigit, Bool.and_eq_true, decide_eq_true_eq] at hdigit
    have hle : c.val.toNat ≤ 57 := hdigit.2
    exact Nat.lt_of_le_of_lt hle (by decide)
  rw [hprint, length_encode hascii, Nat.length_toDigits_le_iff (by decide) (by decide)]
  omega

theorem length_value {v : Value} (h : v.Small) : (encode v.print).length ≤ 130 := by
  cases v with
  | text s => exact length_quote h
  | number n => exact Nat.le_trans (length_number h) (by decide)
  | null => decide

/-- The bytes of fields with commas between them. -/
theorem length_intercalate (parts : List (List Char)) :
    (encode (List.intercalate [','] parts)).length ≤ (parts.map fun p => (encode p).length + 1).sum := by
  induction parts with
  | nil => simp [List.intercalate, encode]
  | cons p parts ih =>
    cases parts with
    | nil => simp [List.intercalate, encode]
    | cons q parts =>
      have hsplit : List.intercalate [','] (p :: q :: parts) = p ++ ',' :: List.intercalate [','] (q :: parts) := by
        simp [List.intercalate]
      have hcomma : (encode [',']).length = 1 := by decide
      rw [hsplit, encode_append, ← List.singleton_append (x := ','), encode_append, List.length_append,
        List.length_append, hcomma, List.map_cons, List.sum_cons]
      omega

/-- **A line with few small fields is short.** -/
theorem length_stringify {fields : List (String × Value)} (hfields : ∀ f ∈ fields, Plain 14 f.1 ∧ f.2.Small) :
    (encode (stringify fields)).length ≤ 2 + 148 * fields.length := by
  have hopen : (encode ['\x7b']).length = 1 := by decide
  have hclose : (encode ['\x7d']).length = 1 := by decide
  have hsum : ((fields.map fun f => quote f.1 ++ ':' :: f.2.print).map fun p => (encode p).length + 1).sum ≤
      148 * fields.length := by
    induction fields with
    | nil => exact Nat.le_refl _
    | cons f fields ih =>
      rw [List.forall_mem_cons] at hfields
      have hname := length_quote hfields.1.1
      have hvalue := length_value hfields.1.2
      have hcolon : (encode [':']).length = 1 := by decide
      have hrest := ih hfields.2
      rw [List.map_cons, List.map_cons, List.sum_cons, ← List.singleton_append (x := ':'), encode_append,
        encode_append, List.length_append, List.length_append, hcolon, List.length_cons]
      omega
  have hbody := length_intercalate (fields.map fun f => quote f.1 ++ ':' :: f.2.print)
  rw [stringify, ← List.singleton_append (x := '\x7b'), encode_append, encode_append, List.length_append,
    List.length_append, hopen, hclose]
  omega

/-! ## §D The fields of a span -/

-- over the characters of the text: `Char` is finite, and the instance for that asks all of them
instance (n : Nat) (s : String) : Decidable (Plain n s) :=
  @instDecidableAnd _ _ _ (List.decidableBAll (fun c => escape c = [c] ∧ c.toNat < 128) s.toList)

theorem escape_plain {c : Char} (hquote : c ≠ '"') (hslash : c ≠ '\\') (hcontrol : 32 ≤ c.toNat) :
    escape c = [c] := by
  have hne : ∀ d : Char, d.toNat < 32 → c ≠ d := by
    rintro d hd rfl
    omega
  unfold escape
  rw [if_neg hquote, if_neg hslash, if_neg (hne _ (by decide)), if_neg (hne _ (by decide)),
    if_neg (hne _ (by decide)), if_neg (hne _ (by decide)), if_neg (hne _ (by decide)),
    if_neg (Nat.not_lt.2 hcontrol)]

theorem plain_validText {s : String} (h : validText s = true) : Plain 128 s := by
  simp only [validText, Bool.and_eq_true, decide_eq_true_eq, List.all_eq_true, Bool.or_eq_true,
    List.contains_iff_mem] at h
  refine ⟨h.1.2, fun c hc => ?_⟩
  have hclass := h.2 c hc
  have hrange : 32 ≤ c.toNat ∧ c.toNat < 128 := by
    rcases hclass with (halpha | hdigit) | hmark
    · simp only [Char.isAlpha, Char.isUpper, Char.isLower, Bool.or_eq_true, Bool.and_eq_true,
        decide_eq_true_eq, UInt32.le_iff_toNat_le] at halpha
      have hbounds : 65 ≤ c.val.toNat ∧ c.val.toNat ≤ 122 := by
        rcases halpha with ⟨hlow, hhigh⟩ | ⟨hlow, hhigh⟩
        · exact ⟨hlow, Nat.le_trans hhigh (by decide)⟩
        · exact ⟨Nat.le_trans (by decide) hlow, hhigh⟩
      exact ⟨Nat.le_trans (by decide) hbounds.1, Nat.lt_of_le_of_lt hbounds.2 (by decide)⟩
    · simp only [Char.isDigit, Bool.and_eq_true, decide_eq_true_eq, UInt32.le_iff_toNat_le] at hdigit
      exact ⟨Nat.le_trans (by decide) hdigit.1, Nat.lt_of_le_of_lt hdigit.2 (by decide)⟩
    · have hall : "_.:-".toList.all (fun d => decide (32 ≤ d.toNat ∧ d.toNat < 128)) = true := by decide
      exact of_decide_eq_true (List.all_eq_true.1 hall c hmark)
  refine ⟨escape_plain ?_ ?_ hrange.1, hrange.2⟩
  · rintro rfl
    exact absurd hclass (by decide)
  · rintro rfl
    exact absurd hclass (by decide)

/-- A text of the characters of a plain text. -/
theorem Plain.of_chars {m n : Nat} {s t : String} (ht : Plain m t) (hlength : s.length ≤ n)
    (h : ∀ c ∈ s.toList, c ∈ t.toList) : Plain n s :=
  ⟨hlength, fun c hc => ht.2 c (h c hc)⟩

theorem plain_digits {n : Nat} (hn : n ≤ 128) {s : String} (h : Digits n s) : Plain 128 s := by
  have hdigits : Plain 16 "0123456789abcdef" := by decide
  exact hdigits.of_chars (h.1.trans_le hn) h.2

/-- A time in the format of `toISOString`. -/
def IsoText (s : String) : Prop := s.length ≤ 27 ∧ ∀ c ∈ s.toList, c ∈ "0123456789-+:.TZ".toList

theorem plain_iso {s : String} (h : IsoText s) : Plain 128 s := by
  have hmarks : Plain 16 "0123456789-+:.TZ" := by decide
  exact hmarks.of_chars (Nat.le_trans h.1 (by decide)) h.2

/-- A line that reports a span. -/
def Line.isSpan : Line → Bool
  | .dispatch _ _ _ _ _ _ => false
  | _ => true

section Spans

variable {isoString : ℤ → String} (hiso : ∀ t, 0 ≤ t → t ≤ 8640000000000000 → IsoText (isoString t))

include hiso

/-- **The fields of a span are small.** -/
theorem fields_small {l : Line} (h : l.Formed) (hspan : l.isSpan = true) (now : ℤ) :
    (∀ f ∈ l.fields isoString now, Plain 14 f.1 ∧ f.2.Small) ∧ (l.fields isoString now).length ≤ 17 := by
  cases l with
  | dispatch session message logicalModel trace span parent => cases hspan
  | runtime error session message trace span start stop =>
    obtain ⟨hsession, hmessage, htrace, hdigits, hstart, horder, hduration, hstop⟩ := h
    have haction : Plain 128 (if error then "runtime_error" else "runtime_complete") := by
      cases error <;> decide
    have htraceSmall : (textOrNull trace).Small := by
      cases trace with
      | none => trivial
      | some t => exact plain_digits (by decide) (htrace t rfl)
    refine ⟨?_, Nat.le_of_ble_eq_true rfl⟩
    simp only [Line.fields, List.forall_mem_cons, List.not_mem_nil, false_implies, implies_true, and_true]
    refine ⟨⟨by decide, ?_⟩, ⟨by decide, ?_⟩, ⟨by decide, haction⟩,
      ⟨by decide, ?_⟩, ⟨by decide, plain_validText hsession⟩,
      ⟨by decide, plain_validText hmessage⟩, ⟨by decide, htraceSmall⟩,
      ⟨by decide, plain_digits (by decide) hdigits⟩,
      ⟨by decide, plain_iso (hiso stop (by omega) hstop)⟩,
      ⟨by decide, hstart, by omega⟩, ⟨by decide, by omega, hstop⟩,
      ⟨by decide, by omega, by omega⟩⟩
    · exact (by decide : Plain 128 "sandbox")
    · exact (by decide : Plain 128 "INFO")
    · exact (by decide : Plain 128 "span")
  | tool item trace span parent =>
    obtain ⟨hitem, htrace, _, hdigits, hparent⟩ := h
    have haction : Plain 128 (if item.error then "tool_error" else "tool_complete") := by
      cases item.error <;> decide
    have horder := hitem.order
    have hduration := hitem.duration
    have hstart := hitem.start
    have hstop := hitem.stop
    have hcode : ∀ f ∈ (if item.error then [("error_code", Value.text "ToolExecutionError")] else []),
        Plain 14 f.1 ∧ f.2.Small := by
      intro f hf
      split at hf
      · rw [List.mem_singleton.1 hf]
        exact ⟨by decide, (by decide : Plain 128 "ToolExecutionError")⟩
      · exact absurd hf List.not_mem_nil
    have hfields : ∀ f ∈ item.fields isoString, Plain 14 f.1 ∧ f.2.Small := by
      rw [Item.fields, List.forall_mem_append]
      refine ⟨?_, hcode⟩
      simp only [List.forall_mem_cons, List.not_mem_nil, false_implies, implies_true, and_true]
      exact ⟨⟨by decide, haction⟩, ⟨by decide, plain_validText hitem.session⟩,
        ⟨by decide, plain_validText hitem.message⟩, ⟨by decide, plain_validText hitem.part⟩,
        ⟨by decide, plain_validText hitem.call⟩, ⟨by decide, plain_validText hitem.tool⟩,
        ⟨by decide, by omega, by omega⟩, ⟨by decide, plain_iso (hiso _ (by omega) hstop)⟩,
        ⟨by decide, hstart, by omega⟩, ⟨by decide, by omega, hstop⟩⟩
    have hlength : (item.fields isoString).length ≤ 11 := by
      cases hitem : item.error <;> simp [Item.fields, hitem]
    constructor
    · rw [Line.fields, List.forall_mem_append, List.forall_mem_append]
      refine ⟨⟨hfields, ?_⟩, fun f hf => ?_⟩
      · simp only [List.forall_mem_cons, List.not_mem_nil, false_implies, implies_true, and_true]
        exact ⟨⟨by decide, plain_digits (by decide) htrace⟩,
          ⟨by decide, plain_digits (by decide) hdigits⟩,
          ⟨by decide, (by decide : Plain 128 "sandbox")⟩,
          ⟨by decide, (by decide : Plain 128 "INFO")⟩,
          ⟨by decide, (by decide : Plain 128 "span")⟩⟩
      · obtain ⟨p, hp, rfl⟩ := List.mem_map.1 hf
        exact ⟨(by decide : Plain 14 "parent_span_id"),
          plain_digits (by decide) (hparent p (Option.mem_toList.1 hp))⟩
    · rw [Line.fields, List.length_append, List.length_append, List.length_map]
      have hone : parent.toList.length ≤ 1 := by cases parent <;> simp
      simp only [List.length_cons, List.length_nil]
      omega

/-- **The line of a span is not too long.** -/
theorem isPluginLine_bytes {l : Line} (h : l.Formed) (hspan : l.isSpan = true) (now : ℤ) :
    isPluginLine (l.bytes isoString now) = true := by
  obtain ⟨hsmall, hcount⟩ := fields_small hiso h hspan now
  have hlength := length_stringify hsmall
  have hprefix : pluginEventPrefix.length = 24 := by decide
  rw [isPluginLine, Bool.and_eq_true, decide_eq_true_eq]
  refine ⟨List.isPrefixOf_iff_prefix.2 (List.prefix_append _ _), ?_⟩
  rw [Line.bytes, List.length_append, hprefix]
  omega

end Spans

/-! ## §E What the supervisor keeps -/

/-- The record that the supervisor writes for a span. -/
def Line.record (isoformat : ℤ → String) : Line → Record
  | .runtime error session message trace span start stop =>
    [("action", .string (if error then "runtime_error" else "runtime_complete")), ("event_kind", .string "span"),
      ("session_id", .string session), ("message_id", .string message)] ++
      (trace.filter nonzero).toList.map (fun t => ("trace_id", .string t)) ++ [("span_id", .string span),
      ("duration_ms", .int (stop - start)), ("start_time_ms", .int start), ("end_time_ms", .int stop),
      ("timestamp", .string (isoformat stop))] ++
      if error then [("error_code", .string "RuntimeExecutionError")] else []
  | .tool item trace span parent =>
    [("action", .string (if item.error then "tool_error" else "tool_complete")), ("event_kind", .string "span"),
      ("session_id", .string item.session), ("message_id", .string item.message), ("part_id", .string item.part),
      ("call_id", .string item.call), ("tool", .string item.tool), ("trace_id", .string trace),
      ("span_id", .string span)] ++
      (parent.filter nonzero).toList.map (fun p => ("parent_span_id", .string p)) ++
      [("duration_ms", .int (item.stop - item.start)), ("start_time_ms", .int item.start),
      ("end_time_ms", .int item.stop), ("timestamp", .string (isoformat item.stop))] ++
      if item.error then [("error_code", .string "ToolExecutionError")] else []
  | .dispatch _ _ _ _ _ _ => []

/-- A span ends in time, and its id is not zero. -/
def Line.acceptable : Line → Bool
  | .runtime _ _ _ _ span _ stop => nonzero span && stop ≤ 253402300799999
  | .tool item _ span _ => nonzero span && item.stop ≤ 253402300799999
  | .dispatch _ _ _ _ _ _ => true

/-- The object of a line. -/
def Line.json (isoString : ℤ → String) (now : ℤ) (l : Line) : Json :=
  .object ((l.fields isoString now).map fun f => (f.1, f.2.json))

theorem keep_some {value : Json} {check : String → Bool} {name item : String}
    (h : value.get? name = some (.string item)) (hcheck : check item = true) :
    keep value check name = [(name, .string item)] := by
  rw [keep, h]
  exact if_pos hcheck

theorem keep_other {value : Json} {check : String → Bool} {name : String}
    (h : ∀ item, value.get? name = some (.string item) → check item = false) :
    keep value check name = [] := by
  unfold keep
  split
  · next item hitem => rw [h item hitem]; rfl
  · rfl

theorem safeId_validText {s : String} (h : validText s = true) : safeId s = true := by
  simp only [validText, Bool.and_eq_true, decide_eq_true_eq, List.all_eq_true, Bool.or_eq_true,
    List.contains_iff_mem] at h
  simp only [safeId, Bool.and_eq_true, decide_eq_true_eq, List.all_eq_true, Bool.or_eq_true,
    List.contains_iff_mem]
  have hmarks : "_.:-".toList ⊆ "_.:/-".toList := by decide
  exact ⟨⟨fun c hc => (h.2 c hc).imp_right fun hmark => hmarks hmark, h.1.1⟩, Nat.le_trans h.1.2 (by decide)⟩

theorem hexId_digits {n : Nat} {s : String} (h : Digits n s) : hexId n s = nonzero s := by
  have hall : s.toList.all "0123456789abcdef".toList.contains = true :=
    List.all_eq_true.2 fun c hc => List.contains_iff_mem.2 (h.2 c hc)
  rw [hexId, hall, h.1, nonzero]
  simp

section Kept

variable (isoString : ℤ → String) (now : ℤ)

/-- The fields of a tool call that are read. -/
structure ToolFields (item : Item) (trace span : String) (parent : Option String) (v : Json) : Prop where
  action : v.get? "action" = some (.string (if item.error then "tool_error" else "tool_complete"))
  session : v.get? "session_id" = some (.string item.session)
  message : v.get? "message_id" = some (.string item.message)
  model : v.get? "logical_model" = none
  part : v.get? "part_id" = some (.string item.part)
  call : v.get? "call_id" = some (.string item.call)
  tool : v.get? "tool" = some (.string item.tool)
  trace : v.get? "trace_id" = some (.string trace)
  span : v.get? "span_id" = some (.string span)
  parent : v.get? "parent_span_id" = parent.map .string
  start : v.get? "start_time_ms" = some (.int item.start)
  stop : v.get? "end_time_ms" = some (.int item.stop)

theorem toolFields (item : Item) (trace span : String) (parent : Option String) :
    ToolFields item trace span parent ((Line.tool item trace span parent).json isoString now) := by
  obtain ⟨error, session, message, part, call, tool, start, stop⟩ := item
  cases error <;> cases parent <;>
    constructor <;> simp [Line.json, Line.fields, Item.fields, Json.get?, List.lookup, Value.json]

/-- The fields of a turn that are read. -/
structure TurnFields (error : Bool) (session message : String) (trace : Option String) (span : String)
    (start stop : ℤ) (v : Json) : Prop where
  action : v.get? "action" = some (.string (if error then "runtime_error" else "runtime_complete"))
  session : v.get? "session_id" = some (.string session)
  message : v.get? "message_id" = some (.string message)
  others : ∀ name ∈ ["logical_model", "part_id", "call_id", "tool", "parent_span_id"], v.get? name = none
  trace : v.get? "trace_id" = some (textOrNull trace).json
  span : v.get? "span_id" = some (.string span)
  start : v.get? "start_time_ms" = some (.int start)
  stop : v.get? "end_time_ms" = some (.int stop)

theorem turnFields (error : Bool) (session message : String) (trace : Option String) (span : String)
    (start stop : ℤ) : TurnFields error session message trace span start stop
      ((Line.runtime error session message trace span start stop).json isoString now) := by
  constructor <;> simp [Line.json, Line.fields, Json.get?, List.lookup, Value.json]

variable {isoString} {now}

/-- The parent of a span is kept unless it is zero. -/
theorem keep_parent {v : Json} {parent : Option String} (h : v.get? "parent_span_id" = parent.map .string)
    (hparent : ∀ p ∈ parent, Digits 16 p) : keep v (hexId 16) "parent_span_id" =
      (parent.filter nonzero).toList.map fun p => ("parent_span_id", .string p) := by
  cases parent with
  | none => exact keep_other fun item hitem => by rw [h] at hitem; cases hitem
  | some p =>
    have hhex := hexId_digits (hparent p rfl)
    cases hn : nonzero p with
    | true =>
      rw [keep_some h (hhex.trans hn), Option.filter_some, if_pos hn]
      rfl
    | false =>
      rw [Option.filter_some, if_neg (by simp [hn])]
      refine keep_other fun item hitem => ?_
      obtain rfl : p = item := by simpa [h] using hitem
      exact hhex.trans hn

/-- What is kept of the id of a span. -/
theorem keep_span {v : Json} {span : String} (h : v.get? "span_id" = some (.string span)) (hspan : Digits 16 span) :
    keep v (hexId 16) "span_id" = if nonzero span then [("span_id", .string span)] else [] := by
  have hhex := hexId_digits hspan
  cases hn : nonzero span with
  | true => exact keep_some h (hhex.trans hn)
  | false =>
    refine keep_other fun item hitem => ?_
    obtain rfl : span = item := by simpa [h] using hitem
    exact hhex.trans hn

theorem knownAction_of {v : Json} {action : String} (h : v.get? "action" = some (.string action))
    (hknown : action ∈ actions) : knownAction v = .ok (some action) := by
  simp [knownAction, h, hashable, hknown]

theorem timesValid_of {start stop : ℤ} (hstart : 0 ≤ start) (horder : start ≤ stop)
    (hduration : stop - start ≤ 86400000) : timesValid start stop = decide (stop ≤ 253402300799999) := by
  rw [Bool.eq_iff_iff, timesValid_iff, decide_eq_true_eq]
  constructor
  · exact fun h => h.2.1
  · intro h
    exact ⟨hstart, h, by omega, hduration⟩

/-- The supervisor on a tool call. -/
theorem kept_tool (isoformat : ℤ → String) {item : Item} {trace span : String} {parent : Option String} {v : Json}
    (hv : ToolFields item trace span parent v) (h : (Line.tool item trace span parent).Formed) :
    timed isoformat v (if item.error then "tool_error" else "tool_complete")
        (identified v (if item.error then "tool_error" else "tool_complete")) =
      if (Line.tool item trace span parent).acceptable then
        some ((Line.tool item trace span parent).record isoformat) else none := by
  obtain ⟨hitem, htrace, hnonzero, hspan, hparent⟩ := h
  have hids : safeNames.flatMap (keep v safeId) = [("session_id", .string item.session),
      ("message_id", .string item.message), ("part_id", .string item.part), ("call_id", .string item.call),
      ("tool", .string item.tool)] := by
    have hmodel : keep v safeId "logical_model" = [] :=
      keep_other fun x hx => by rw [hv.model] at hx; cases hx
    simp only [safeNames, List.flatMap_cons, List.flatMap_nil,
      keep_some hv.session (safeId_validText hitem.session), keep_some hv.message (safeId_validText hitem.message),
      hmodel, keep_some hv.part (safeId_validText hitem.part), keep_some hv.call (safeId_validText hitem.call),
      keep_some hv.tool (safeId_validText hitem.tool)]
    rfl
  have htraceKept := keep_some hv.trace ((hexId_digits htrace).trans hnonzero)
  have hidentified : identified v (if item.error then "tool_error" else "tool_complete") =
      [("action", .string (if item.error then "tool_error" else "tool_complete")), ("event_kind", .string "span"),
        ("session_id", .string item.session), ("message_id", .string item.message), ("part_id", .string item.part),
        ("call_id", .string item.call), ("tool", .string item.tool), ("trace_id", .string trace)] ++
        (if nonzero span then [("span_id", .string span)] else []) ++
        (parent.filter nonzero).toList.map fun p => ("parent_span_id", .string p) := by
    have hkind : (if (if item.error then "tool_error" else "tool_complete") = "model_dispatch" then "instant"
        else "span") = "span" := by cases item.error <;> rfl
    rw [identified, hids, htraceKept, keep_span hv.span hspan, keep_parent hv.parent hparent, hkind]
    rfl
  have htimes := timesValid_of hitem.start hitem.order hitem.duration
  have hrequired : required (if item.error then "tool_error" else "tool_complete") =
      ["trace_id", "span_id", "session_id", "message_id", "part_id", "call_id", "tool"] := by
    cases item.error <;> rfl
  have hcode : errorCode (if item.error then "tool_error" else "tool_complete") =
      if item.error then [("error_code", .string "ToolExecutionError")] else [] := by
    cases item.error <;> rfl
  rw [timed, hv.start, hv.stop]
  simp only [htimes, hrequired, hcode, hidentified]
  cases hn : nonzero span with
  | false =>
    -- a required field is missing
    have hmissing : (Line.tool item trace span parent).acceptable = false := by simp [Line.acceptable, hn]
    rw [hmissing]
    by_cases hstop : item.stop ≤ 253402300799999
    · cases parent.filter nonzero <;> simp [hstop]
    · simp [hstop]
  | true =>
    have haccepted : (Line.tool item trace span parent).acceptable = decide (item.stop ≤ 253402300799999) := by
      simp [Line.acceptable, hn]
    rw [haccepted]
    by_cases hstop : item.stop ≤ 253402300799999
    · cases hp : parent.filter nonzero <;> simp [hstop, hp, Line.record]
    · simp [hstop]

/-- The supervisor on a turn. -/
theorem kept_turn (isoformat : ℤ → String) {error : Bool} {session message span : String} {trace : Option String}
    {start stop : ℤ} {v : Json} (hv : TurnFields error session message trace span start stop v)
    (h : (Line.runtime error session message trace span start stop).Formed) :
    timed isoformat v (if error then "runtime_error" else "runtime_complete")
        (identified v (if error then "runtime_error" else "runtime_complete")) =
      if (Line.runtime error session message trace span start stop).acceptable then
        some ((Line.runtime error session message trace span start stop).record isoformat) else none := by
  obtain ⟨hsession, hmessage, htrace, hspan, hstart, horder, hduration, _⟩ := h
  have hother : ∀ name ∈ ["logical_model", "part_id", "call_id", "tool", "parent_span_id"], ∀ check,
      keep v check name = [] := fun name hname check =>
    keep_other fun item hitem => by rw [hv.others name hname] at hitem; cases hitem
  have hids : safeNames.flatMap (keep v safeId) = [("session_id", .string session),
      ("message_id", .string message)] := by
    simp only [safeNames, List.flatMap_cons, List.flatMap_nil, keep_some hv.session (safeId_validText hsession),
      keep_some hv.message (safeId_validText hmessage), hother "logical_model" (by simp),
      hother "part_id" (by simp), hother "call_id" (by simp), hother "tool" (by simp)]
    rfl
  have htraceKept : keep v (hexId 32) "trace_id" =
      (trace.filter nonzero).toList.map fun t => ("trace_id", .string t) := by
    cases trace with
    | none => exact keep_other fun item hitem => by rw [hv.trace] at hitem; cases hitem
    | some t =>
      have hhex := hexId_digits (htrace t rfl)
      cases hn : nonzero t with
      | true =>
        rw [keep_some hv.trace (hhex.trans hn), Option.filter_some, if_pos hn]
        rfl
      | false =>
        rw [Option.filter_some, if_neg (by simp [hn])]
        refine keep_other fun item hitem => ?_
        obtain rfl : t = item := by simpa [hv.trace, textOrNull, Value.json] using hitem
        exact hhex.trans hn
  have hidentified : identified v (if error then "runtime_error" else "runtime_complete") =
      [("action", .string (if error then "runtime_error" else "runtime_complete")), ("event_kind", .string "span"),
        ("session_id", .string session), ("message_id", .string message)] ++
        (trace.filter nonzero).toList.map (fun t => ("trace_id", .string t)) ++
        (if nonzero span then [("span_id", .string span)] else []) := by
    have hkind : (if (if error then "runtime_error" else "runtime_complete") = "model_dispatch" then "instant"
        else "span") = "span" := by cases error <;> rfl
    rw [identified, hids, htraceKept, keep_span hv.span hspan, hother "parent_span_id" (by simp), hkind,
      List.append_nil]
    rfl
  have htimes := timesValid_of hstart horder hduration
  have hrequired : required (if error then "runtime_error" else "runtime_complete") =
      ["span_id", "session_id", "message_id"] := by
    cases error <;> rfl
  have hcode : errorCode (if error then "runtime_error" else "runtime_complete") =
      if error then [("error_code", .string "RuntimeExecutionError")] else [] := by
    cases error <;> rfl
  rw [timed, hv.start, hv.stop]
  simp only [htimes, hrequired, hcode, hidentified]
  cases hn : nonzero span with
  | false =>
    have hmissing : (Line.runtime error session message trace span start stop).acceptable = false := by
      simp [Line.acceptable, hn]
    rw [hmissing]
    by_cases hstop : stop ≤ 253402300799999
    · cases trace.filter nonzero <;> simp [hstop]
    · simp [hstop]
  | true =>
    have haccepted : (Line.runtime error session message trace span start stop).acceptable =
        decide (stop ≤ 253402300799999) := by
      simp [Line.acceptable, hn]
    rw [haccepted]
    by_cases hstop : stop ≤ 253402300799999
    · cases hp : trace.filter nonzero <;> simp [hstop, hp, Line.record]
    · simp [hstop]

/-- A line that is parsed as an object with a known action. -/
theorem pluginEvent_value {loads : Bytes → Loads} {isoformat : ℤ → String} {line : Bytes} {v : Json}
    {action : String} {r : Option Record} (hline : isPluginLine line = true)
    (hloads : loads (line.drop pluginEventPrefix.length) = .value v) (hobject : v.isObject = true)
    (haction : knownAction v = .ok (some action)) (hother : action ≠ "model_dispatch")
    (htimed : timed isoformat v action (identified v action) = r) :
    pluginEvent loads isoformat line = .ok r := by
  unfold pluginEvent
  rw [if_neg (by simp [hline]), hloads]
  simp only [hobject, Bool.not_true, Bool.false_eq_true, if_false, haction]
  change Except.ok (if action = "model_dispatch" then some (identified v action)
    else timed isoformat v action (identified v action)) = _
  rw [if_neg hother, htimed]

end Kept

/-- **The supervisor keeps the spans of the plugin**, all but those that end after the year 9999 or have no id
but zeros, and it keeps their identifiers and times as they are. -/
theorem spans_kept (digest : Key → String) (isoString isoformat : ℤ → String) (loads : Bytes → Loads)
    (hdigest : ∀ k, Digits 16 (digest k))
    (hiso : ∀ t, 0 ≤ t → t ≤ 8640000000000000 → IsoText (isoString t))
    (es : List Event) (now : ℤ) (l : Line) (hline : .line l ∈ start.timeline digest es)
    (hspan : l.isSpan = true)
    (hloads : loads (encode (stringify (l.fields isoString now))) = .value (l.json isoString now)) :
    pluginEvent loads isoformat (l.bytes isoString now) =
      .ok (if l.acceptable then some (l.record isoformat) else none) := by
  have hformed := Sound.start.timeline hdigest es l hline
  have hplugin := isPluginLine_bytes hiso hformed hspan now
  have hdrop : (l.bytes isoString now).drop pluginEventPrefix.length =
      encode (stringify (l.fields isoString now)) := List.drop_left
  have hvalue : loads ((l.bytes isoString now).drop pluginEventPrefix.length) = .value (l.json isoString now) := by
    rw [hdrop, hloads]
  cases l with
  | dispatch session message logicalModel trace span parent => cases hspan
  | tool item trace span parent =>
    have hv := toolFields isoString now item trace span parent
    have hkept := kept_tool isoformat hv hformed
    have haction := knownAction_of hv.action (by cases item.error <;> decide)
    have hother : (if item.error then "tool_error" else "tool_complete") ≠ "model_dispatch" := by
      cases item.error <;> decide
    exact pluginEvent_value hplugin hvalue rfl haction hother hkept
  | runtime error session message trace span start stop =>
    have hv := turnFields isoString now error session message trace span start stop
    have hkept := kept_turn isoformat hv hformed
    have haction := knownAction_of hv.action (by cases error <;> decide)
    have hother : (if error then "runtime_error" else "runtime_complete") ≠ "model_dispatch" := by
      cases error <;> decide
    exact pluginEvent_value hplugin hvalue rfl haction hother hkept

/-- `json.loads` on the line of the call that has ended. -/
def loadsEnded (line : Bytes) : Loads :=
  let printed := Line.tool endedItem "0123456789abcdef0123456789abcdef" "0123456789abcdef" none
  if line = encode (stringify (printed.fields (fun _ => "1970-01-01T00:00:00.009Z") 0)) then
    .value (printed.json (fun _ => "1970-01-01T00:00:00.009Z") 0)
  else .undecodable

theorem spans_kept_when_ended :
    let printed := Line.tool endedItem "0123456789abcdef0123456789abcdef" "0123456789abcdef" none
    pluginEvent loadsEnded (fun _ => "1970-01-01T00:00:00.009000+00:00")
        (printed.bytes (fun _ => "1970-01-01T00:00:00.009Z") 0) =
      .ok (some (printed.record fun _ => "1970-01-01T00:00:00.009000+00:00")) := by
  refine (spans_kept (fun _ => "0123456789abcdef") (fun _ => "1970-01-01T00:00:00.009Z")
    (fun _ => "1970-01-01T00:00:00.009000+00:00") loadsEnded (fun _ => ?_) (fun _ _ _ => ?_)
    [.messageUpdated answer, .partUpdated ended] 0 _ ?_ rfl (if_pos rfl)).trans (congrArg _ (if_pos rfl))
  · exact ⟨by decide, fun _ hc => hc⟩
  · have hmarks : "1970-01-01T00:00:00.009Z".toList ⊆ "0123456789-+:.TZ".toList := by decide
    exact ⟨by decide, fun _ hc => hmarks hc⟩
  · decide +kernel

end OpencodeCloud.AgentRuntime.Trace
