/-
# OpencodeCloud.AdminWeb.Thinking -- reasoning and answer in one text

`splitThinking` cuts the text of an assistant into segments: what stands between `<think>` and `</think>` is
reasoning, the rest is text. Tags in fenced blocks, in inline code and behind a backslash are left alone. The
text arrives piece by piece and is split anew each time; while it streams, what may become a tag is held
back.

What is shown of a part of a text stays: the characters and their kinds are those that the whole text begins
with (`view_prefix`). Of the whole text nothing is lost but the tags (`thinking_split`). A tag behind a
backslash is removed when that backslash is itself behind one (`escaped_backslash`).
-/
import Mathlib.Algebra.Group.Nat.Even
import Mathlib.Data.List.TakeWhile
import Mathlib.Data.List.DropRight

namespace OpencodeCloud.AdminWeb

/-! ## §A Text -/

/-- A string of the browser: its UTF-16 code units. -/
abbrev Text := List UInt16

/-- The code unit of a character below U+10000. -/
def unit (c : Char) : UInt16 := c.toNat.toUInt16

/-- A constant of the program. -/
def text (s : String) : Text := s.toList.map unit

/-- What `toLowerCase` does to a single unit, as far as the tags are concerned: besides the capital letters
only the Kelvin sign becomes an ASCII letter. (`İ` becomes two characters, the second of which is in no
tag.) -/
def lower (u : UInt16) : UInt16 :=
  if unit 'A' ≤ u ∧ u ≤ unit 'Z' then u + 32 else if u = 0x212A then unit 'k' else u

/-- What `\s` matches. -/
def isSpace (u : UInt16) : Bool :=
  (9 ≤ u && u ≤ 13) || u == 0x20 || u == 0xA0 || u == 0x1680 || (0x2000 ≤ u && u ≤ 0x200A)
    || u == 0x2028 || u == 0x2029 || u == 0x202F || u == 0x205F || u == 0x3000 || u == 0xFEFF

inductive Kind
  | text | reasoning
  deriving DecidableEq

/-- `thinking ? "reasoning" : "text"` -/
def kindOf (thinking : Bool) : Kind := if thinking then .reasoning else .text

structure Segment where
  kind : Kind
  text : Text
  deriving DecidableEq

/-! ## §B The scanner -/

/-- `thinking ? "</think>" : "<think>"` -/
def tagOf (thinking : Bool) : Text := if thinking then text "</think>" else text "<think>"

/-- The line at the beginning of a text, with its end. -/
def firstLine (rest : Text) : Text :=
  rest.takeWhile (· != unit '\n') ++ (rest.dropWhile (· != unit '\n')).take 1

/-- A match of the marker of a fence: the indentation, the run of ticks or tildes, the whole line. -/
structure Marker where
  indent : ℕ
  run : Text
  line : Text
  deriving DecidableEq

/-- ``(`{3,}|~{3,})``: the run at the beginning, which counts when it has three units. -/
def fenceRun (body : Text) : Text :=
  if 3 ≤ (body.takeWhile (· == unit '`')).length then body.takeWhile (· == unit '`')
  else body.takeWhile (· == unit '~')

/-- ``/^( {0,3})(`{3,}|~{3,})[^\n]*(?:\n|$)/.exec(rest)`` -/
def marker (rest : Text) : Option Marker :=
  let indent := (rest.takeWhile (· == unit ' ')).length
  let run := fenceRun (rest.dropWhile (· == unit ' '))
  if indent ≤ 3 ∧ 3 ≤ run.length then some ⟨indent, run, firstLine rest⟩ else none

/-- The modes of the scanner. -/
structure Modes where
  thinking : Bool
  fence : Text
  inline : Text
  deriving DecidableEq

/-- Before the first character. -/
def Modes.start : Modes := ⟨false, [], []⟩

/-- A marker opens a fence, or closes one of its kind that is not longer. -/
def Modes.mark (m : Modes) (found : Marker) : Modes :=
  if m.fence.isEmpty then { m with fence := found.run }
  else if found.run.head? = m.fence.head? ∧ m.fence.length ≤ found.run.length
      ∧ (found.line.drop (found.indent + found.run.length)).all isSpace then
    { m with fence := [] }
  else m

/-- A run of ticks opens inline code, or closes it when it is the same run. -/
def Modes.tick (m : Modes) (ticks : Text) : Modes :=
  if m.inline.isEmpty then { m with inline := ticks }
  else if m.inline = ticks then { m with inline := [] }
  else m

/-- After a tag. -/
def Modes.toggle (m : Modes) : Modes := { m with thinking := !m.thinking }

/-- What one round of the loop does with the first unit and `more` units after it. -/
inductive Move
  | emit (more : ℕ) (modes : Modes)
  | tag (more : ℕ)
  | stop
  deriving DecidableEq

section Scanner

variable (streaming : Bool)

/-- A round of the loop that finds no marker, on the rest `c :: cs` of the text. -/
def unmarked (m : Modes) (c : UInt16) (cs : Text) : Move :=
  if !m.fence.isEmpty then .emit 0 m
  else if c == unit '\\' && m.inline.isEmpty && !cs.isEmpty then .emit 1 m
  else
    let ticks := (c :: cs).takeWhile (· == unit '`')
    if !ticks.isEmpty then .emit (ticks.length - 1) (m.tick ticks)
    else if m.inline.isEmpty && (tagOf m.thinking).isPrefixOf ((c :: cs).map lower) then
      .tag ((tagOf m.thinking).length - 1)
    else if m.inline.isEmpty && streaming && ((c :: cs).map lower).isPrefixOf (tagOf m.thinking) then .stop
    else .emit 0 m

/-- One round of the loop. -/
def move (m : Modes) (lineStart : Bool) (c : UInt16) (cs : Text) : Move :=
  match if lineStart && m.inline.isEmpty then marker (c :: cs) else none with
  | some found => .emit (found.line.length - 1) (m.mark found)
  | none => unmarked streaming m c cs

/-- The unit before the rest is a line end. -/
def endsLine (consumed : Text) : Bool := consumed.getLast? == some (unit '\n')

/-- The variables of the loop. -/
structure Scan where
  result : List Segment
  buffer : Text
  modes : Modes

/-- `flush()` -/
def Scan.flush (s : Scan) : List Segment :=
  if s.buffer.isEmpty then s.result else s.result ++ [⟨kindOf s.modes.thinking, s.buffer⟩]

/-- The loop. -/
def scan (s : Scan) (lineStart : Bool) : Text → List Segment
  | [] => s.flush
  | c :: cs =>
    match move streaming s.modes lineStart c cs with
    | .emit more modes =>
      scan { s with buffer := s.buffer ++ c :: cs.take more, modes := modes }
        (endsLine (c :: cs.take more)) (cs.drop more)
    | .tag more =>
      scan ⟨s.flush, [], s.modes.toggle⟩ (endsLine (c :: cs.take more)) (cs.drop more)
    | .stop => s.flush
  termination_by rest => rest.length
  decreasing_by all_goals simp only [List.length_drop, List.length_cons]; omega

/-- `splitThinking(text, streaming)` -/
def splitThinking (t : Text) : List Segment := scan streaming ⟨[], [], .start⟩ true t

end Scanner

/-- The characters of the segments with their kinds. -/
def flatten (segments : List Segment) : List (Kind × UInt16) :=
  segments.flatMap fun s => s.text.map (s.kind, ·)

/-! ## §C What a round takes -/

theorem lower_eq_lt {u : UInt16} (h : lower u = unit '<') : u = unit '<' := by
  have h1 : unit '<' = 60 := by decide
  have h2 : unit 'A' = 65 := by decide
  have h3 : unit 'Z' = 90 := by decide
  have h4 : unit 'k' = 107 := by decide
  rw [h1] at h ⊢
  rw [lower, h2, h3, h4] at h
  split at h
  · grind
  · split at h
    · exact absurd h (by decide)
    · exact h

theorem tagOf_eq (thinking : Bool) : ∃ more, tagOf thinking = unit '<' :: more := by
  cases thinking <;> exact ⟨_, rfl⟩

/-- A tag begins with its bracket, and so does what may become one. -/
theorem no_tag {thinking : Bool} {c : UInt16} {cs : Text} (h : c ≠ unit '<') :
    (tagOf thinking).isPrefixOf ((c :: cs).map lower) = false
      ∧ ((c :: cs).map lower).isPrefixOf (tagOf thinking) = false := by
  obtain ⟨more, htag⟩ := tagOf_eq thinking
  have hne : lower c ≠ unit '<' := fun heq => h (lower_eq_lt heq)
  rw [htag, List.map_cons]
  constructor
  · simp [List.isPrefixOf, hne.symm]
  · simp [List.isPrefixOf, hne]

theorem mark_thinking (m : Modes) (found : Marker) : (m.mark found).thinking = m.thinking := by
  unfold Modes.mark
  split
  · rfl
  · split <;> rfl

theorem tick_thinking (m : Modes) (ticks : Text) : (m.tick ticks).thinking = m.thinking := by
  unfold Modes.tick
  split
  · rfl
  · split <;> rfl

theorem length_firstLine (rest : Text) : (firstLine rest).length ≤ rest.length := by
  have h := congrArg List.length (List.takeWhile_append_dropWhile (p := (· != unit '\n')) (l := rest))
  rw [List.length_append] at h
  rw [firstLine, List.length_append, List.length_take]
  omega

theorem marker_line {rest : Text} {found : Marker} (h : marker rest = some found) :
    found.line = firstLine rest := by
  simp only [marker] at h
  split at h
  · cases h
    rfl
  · cases h

/-- What a round does, by the branch that it takes. -/
inductive Turn (streaming : Bool) (m : Modes) (lineStart : Bool) (c : UInt16) (cs : Text) : Move → Prop
  | marked (found : Marker) (bare : m.inline = []) (is : marker (c :: cs) = some found) :
      Turn streaming m lineStart c cs (.emit (found.line.length - 1) (m.mark found))
  | fenced (inside : m.fence ≠ []) : Turn streaming m lineStart c cs (.emit 0 m)
  | escape (outside : m.fence = []) (bare : m.inline = []) (is : c = unit '\\') (some : cs ≠ []) :
      Turn streaming m lineStart c cs (.emit 1 m)
  | ticks (outside : m.fence = []) (is : c = unit '`') :
      Turn streaming m lineStart c cs
        (.emit (cs.takeWhile (· == unit '`')).length (m.tick (c :: cs.takeWhile (· == unit '`'))))
  | tag (outside : m.fence = []) (bare : m.inline = [])
      (is : tagOf m.thinking <+: (c :: cs).map lower) :
      Turn streaming m lineStart c cs (.tag ((tagOf m.thinking).length - 1))
  | withheld (is : (c :: cs).map lower <+: tagOf m.thinking) : Turn streaming m lineStart c cs .stop
  | plain (outside : m.fence = []) (free : c = unit '\\' → m.inline = [] → cs = []) :
      Turn streaming m lineStart c cs (.emit 0 m)

theorem turn (streaming : Bool) (m : Modes) (lineStart : Bool) (c : UInt16) (cs : Text) :
    Turn streaming m lineStart c cs (move streaming m lineStart c cs) := by
  unfold move
  split
  · rename_i found h
    split at h
    · rename_i hb
      rw [Bool.and_eq_true, List.isEmpty_iff] at hb
      exact .marked found hb.2 h
    · cases h
  · unfold unmarked
    by_cases hf : m.fence = []
    · rw [hf]
      by_cases he : c = unit '\\' ∧ m.inline = [] ∧ cs ≠ []
      · simpa [he.1, he.2.1, he.2.2] using Turn.escape hf he.2.1 he.1 he.2.2
      · have he' : (c == unit '\\' && m.inline.isEmpty && !cs.isEmpty) = false := by
          simp only [Bool.and_eq_false_iff, beq_eq_false_iff_ne, Bool.not_eq_false']
          grind
        have hfree : c = unit '\\' → m.inline = [] → cs = [] := by grind
        simp only [he', List.isEmpty_nil]
        by_cases ht : c = unit '`'
        · simpa [ht] using Turn.ticks hf ht
        · have hc : (c == unit '`') = false := by simpa using ht
          simp only [List.takeWhile_cons, hc, Bool.not_true, Bool.false_eq_true, if_false, List.isEmpty_nil]
          split
          · rename_i h
            rw [Bool.and_eq_true, List.isEmpty_iff, List.isPrefixOf_iff_prefix] at h
            exact .tag hf h.1 h.2
          · split
            · rename_i h
              rw [Bool.and_eq_true, List.isPrefixOf_iff_prefix] at h
              exact .withheld h.2
            · exact .plain hf hfree
    · simpa [hf] using Turn.fenced hf

/-- No round takes more than there is. -/
theorem move_within (streaming : Bool) (m : Modes) (lineStart : Bool) (c : UInt16) (cs : Text) :
    match move streaming m lineStart c cs with
    | .emit more modes => more ≤ cs.length ∧ modes.thinking = m.thinking
    | .tag more => more ≤ cs.length
    | .stop => True := by
  have ht := turn streaming m lineStart c cs
  revert ht
  generalize move streaming m lineStart c cs = taken
  intro ht
  cases ht with
  | marked found bare is =>
    have h := length_firstLine (c :: cs)
    rw [marker_line is]
    rw [List.length_cons] at h
    exact ⟨by omega, mark_thinking _ _⟩
  | fenced inside => exact ⟨Nat.zero_le _, rfl⟩
  | escape outside bare is some => exact ⟨List.length_pos_iff.2 some, rfl⟩
  | ticks outside is => exact ⟨(List.takeWhile_prefix _).length_le, tick_thinking _ _⟩
  | tag outside bare is =>
    have h := is.length_le
    rw [List.length_map, List.length_cons] at h
    show (tagOf m.thinking).length - 1 ≤ cs.length
    omega
  | withheld is => trivial
  | plain outside free => exact ⟨Nat.zero_le _, rfl⟩

theorem move_of_ne (streaming : Bool) (m : Modes) (lineStart : Bool) {c : UInt16} (cs : Text)
    (h : c ≠ unit '<') : ∃ more modes, move streaming m lineStart c cs = .emit more modes := by
  generalize heq : move streaming m lineStart c cs = taken
  have ht := heq ▸ turn streaming m lineStart c cs
  obtain ⟨more, htag⟩ := tagOf_eq m.thinking
  have hne : lower c ≠ unit '<' := fun heq => h (lower_eq_lt heq)
  cases ht with
  | tag outside bare is =>
    rw [htag, List.map_cons, List.cons_prefix_cons] at is
    exact absurd is.1.symm hne
  | withheld is =>
    rw [htag, List.map_cons, List.cons_prefix_cons] at is
    exact absurd is.1 hne
  | _ => exact ⟨_, _, rfl⟩

/-! ## §D A round and the text that has not come yet -/

section Ahead

variable {rest : Text} (more : Text)

theorem takeWhile_append_of_head {p : UInt16 → Bool} {a : UInt16} (hp : p a = false) :
    (rest ++ a :: more).takeWhile p = rest.takeWhile p := by
  rw [List.takeWhile_append, List.takeWhile_cons_of_neg (by simp [hp]), List.append_nil]
  split
  · rename_i h
    exact ((List.takeWhile_prefix p).eq_of_length h).symm
  · rfl

theorem dropWhile_append_of_head {p : UInt16 → Bool} {a : UInt16} (hp : p a = false) :
    (rest ++ a :: more).dropWhile p = rest.dropWhile p ++ a :: more := by
  rw [List.dropWhile_append, List.dropWhile_cons_of_neg (by simp [hp])]
  split
  · rename_i h
    rw [List.isEmpty_iff.1 h, List.nil_append]
  · rfl

theorem takeWhile_append_of_mem {p : UInt16 → Bool} {a : UInt16} (ha : a ∈ rest) (hp : p a = false) :
    (rest ++ more).takeWhile p = rest.takeWhile p := by
  obtain ⟨l, r, rfl⟩ := List.append_of_mem ha
  rw [List.append_assoc, List.cons_append, takeWhile_append_of_head _ hp, takeWhile_append_of_head _ hp]

theorem dropWhile_append_of_mem {p : UInt16 → Bool} {a : UInt16} (ha : a ∈ rest) (hp : p a = false) :
    (rest ++ more).dropWhile p = rest.dropWhile p ++ more := by
  obtain ⟨l, r, rfl⟩ := List.append_of_mem ha
  rw [List.append_assoc, List.cons_append, dropWhile_append_of_head _ hp, dropWhile_append_of_head _ hp,
    List.append_assoc, List.cons_append]

theorem prefix_takeWhile_append (rest : Text) (p : UInt16 → Bool) :
    rest.takeWhile p <+: (rest ++ more).takeWhile p := by
  rw [List.takeWhile_append]
  split
  · exact (List.takeWhile_prefix p).trans (List.prefix_append _ _)
  · exact List.prefix_refl _

theorem firstLine_append (h : unit '\n' ∈ rest) : firstLine (rest ++ more) = firstLine rest := by
  have hp : (unit '\n' != unit '\n') = false := by decide
  obtain ⟨l, r, rfl⟩ := List.append_of_mem h
  simp only [firstLine, List.append_assoc, List.cons_append,
    takeWhile_append_of_head (p := (· != unit '\n')) _ hp,
    dropWhile_append_of_head (p := (· != unit '\n')) _ hp]
  cases l.dropWhile (· != unit '\n') with
  | nil => rfl
  | cons a l => rfl

theorem firstLine_whole (h : unit '\n' ∉ rest) : firstLine (rest ++ more) = rest ++ firstLine more := by
  have hall : ∀ u ∈ rest, (u != unit '\n') = true := by
    intro u hu
    rw [bne_iff_ne]
    exact fun heq => h (heq ▸ hu)
  rw [firstLine, List.takeWhile_append_of_pos hall, List.dropWhile_append_of_pos hall, List.append_assoc]
  rfl

theorem fenceRun_append {a : UInt16} (h1 : a ≠ unit '`') (h2 : a ≠ unit '~') :
    fenceRun (rest ++ a :: more) = fenceRun rest := by
  unfold fenceRun
  rw [takeWhile_append_of_head more (by simpa using h1), takeWhile_append_of_head more (by simpa using h2)]

theorem length_fenceRun_append (h : 3 ≤ (fenceRun rest).length) :
    3 ≤ (fenceRun (rest ++ more)).length := by
  have h1 := (prefix_takeWhile_append more rest (· == unit '`')).length_le
  have h2 := (prefix_takeWhile_append more rest (· == unit '~')).length_le
  unfold fenceRun at h ⊢
  split
  · assumption
  · split at h
    · omega
    · omega

/-- What follows a unit that is in no marker changes the end of the marker's line only. -/
theorem marker_append_of_head (rest : Text) {a : UInt16} (h1 : a ≠ unit '`') (h2 : a ≠ unit '~') (h3 : a ≠ unit ' ') :
    marker (rest ++ a :: more)
      = (marker rest).map fun f => { f with line := firstLine (rest ++ a :: more) } := by
  have hp : (a == unit ' ') = false := by simpa using h3
  simp only [marker, takeWhile_append_of_head (p := (· == unit ' ')) more hp,
    dropWhile_append_of_head (p := (· == unit ' ')) more hp, fenceRun_append more h1 h2]
  split
  · rfl
  · rfl

theorem marker_append {a : UInt16} (ha : a ∈ rest) (h1 : a ≠ unit '`') (h2 : a ≠ unit '~')
    (h3 : a ≠ unit ' ') :
    marker (rest ++ more) = (marker rest).map fun f => { f with line := firstLine (rest ++ more) } := by
  obtain ⟨l, r, rfl⟩ := List.append_of_mem ha
  rw [List.append_assoc, List.cons_append, marker_append_of_head _ _ h1 h2 h3,
    marker_append_of_head _ _ h1 h2 h3, Option.map_map]
  rfl

theorem marker_isSome_append (rest : Text) (h : (marker rest).isSome) : (marker (rest ++ more)).isSome := by
  simp only [marker] at h ⊢
  split at h
  · rename_i hm
    obtain ⟨a, body, hb⟩ : ∃ a body, rest.dropWhile (fun u => u == unit ' ') = a :: body := by
      cases hb : rest.dropWhile (fun u => u == unit ' ') with
      | nil =>
        rw [hb] at hm
        exact absurd hm.2 (by decide)
      | cons a body => exact ⟨a, body, rfl⟩
    have hp : (a == unit ' ') = false := by
      have h := List.head?_dropWhile_not (fun u => u == unit ' ') rest
      rw [hb] at h
      simpa using h
    have hmem : a ∈ rest := (List.dropWhile_suffix _).mem (hb ▸ List.mem_cons_self)
    rw [takeWhile_append_of_mem (p := (· == unit ' ')) more hmem hp,
      dropWhile_append_of_mem (p := (· == unit ' ')) more hmem hp, if_pos ⟨hm.1, length_fenceRun_append more hm.2⟩]
    rfl
  · cases h


/-- What a round does with `c :: cs` while it streams, against what it does when more text follows. -/
inductive Ahead (c : UInt16) (cs : Text) : Move → Move → Prop
  /-- It waits. -/
  | stop (taken : Move) : Ahead c cs .stop taken
  /-- It has seen enough. -/
  | same (more : ℕ) (modes : Modes) : Ahead c cs (.emit more modes) (.emit more modes)
  | tag (more : ℕ) : Ahead c cs (.tag more) (.tag more)
  /-- It shows all there is, and it would with more. -/
  | whole (more more' : ℕ) (modes modes' : Modes) (here : cs.length ≤ more) (there : cs.length ≤ more') :
      Ahead c cs (.emit more modes) (.emit more' modes')
  /-- The rest is the beginning of what more text makes a marker. -/
  | early (more more' : ℕ) (modes modes' : Modes) (plain : unit '<' ∉ c :: cs)
      (there : cs.length ≤ more') : Ahead c cs (.emit more modes) (.emit more' modes')

theorem unmarked_ahead (streaming : Bool) (m : Modes) (c : UInt16) (cs : Text) :
    Ahead c cs (unmarked true m c cs) (unmarked streaming m c (cs ++ more)) := by
  unfold unmarked
  by_cases hf : m.fence.isEmpty
  swap
  · simpa [hf] using Ahead.same 0 m
  · by_cases hc : c = unit '<'
    · have h1 : (c == unit '\\') = false := by rw [hc]; decide
      have h2 : (c == unit '`') = false := by rw [hc]; decide
      simp only [hf, h1, h2, List.takeWhile_cons, List.isEmpty_nil, Bool.false_and, Bool.not_true,
        Bool.false_eq_true, if_false]
      by_cases hi : m.inline.isEmpty
      swap
      · simpa [hi] using Ahead.same 0 m
      · simp only [hi, Bool.true_and]
        have hmap : (c :: (cs ++ more)).map lower = (c :: cs).map lower ++ more.map lower := by
          rw [← List.cons_append, List.map_append]
        rw [hmap]
        simp only [List.isPrefixOf_iff_prefix]
        by_cases ht : tagOf m.thinking <+: (c :: cs).map lower
        · rw [if_pos ht, if_pos (ht.trans (List.prefix_append _ _))]
          exact .tag _
        · by_cases hw : (c :: cs).map lower <+: tagOf m.thinking
          · rw [if_neg ht, if_pos hw]
            exact .stop _
          · have ht' : ¬ tagOf m.thinking <+: (c :: cs).map lower ++ more.map lower := by
              intro h
              rcases List.prefix_or_prefix_of_prefix h (List.prefix_append _ _) with h | h
              · exact ht h
              · exact hw h
            have hw' : ¬ (streaming = true ∧ (c :: cs).map lower ++ more.map lower <+: tagOf m.thinking) :=
              fun h => hw ((List.prefix_append _ _).trans h.2)
            rw [if_neg ht, if_neg hw, if_neg ht', if_neg (by simpa using hw')]
            exact .same 0 m
    · by_cases hcs : cs = []
      · obtain ⟨taken, modes, h⟩ := move_of_ne true m false cs hc
        obtain ⟨taken', modes', h'⟩ :=
          move_of_ne streaming m false (cs ++ more) hc
        have hw : Ahead c cs (.emit taken modes) (.emit taken' modes') :=
          .whole _ _ _ _ (by simp [hcs]) (by simp [hcs])
        rw [← h, ← h'] at hw
        exact hw
      · have hne : cs.isEmpty = false := by simpa using hcs
        have hne' : (cs ++ more).isEmpty = false := by simp [hcs]
        simp only [hf, hne, hne', Bool.not_true, Bool.not_false, Bool.and_true, Bool.false_eq_true, if_false,
          (no_tag hc).1, (no_tag hc).2, Bool.and_false]
        split
        · exact .same 1 m
        · by_cases ht : (c == unit '`') = true
          swap
          · simpa [List.takeWhile_cons, ht] using Ahead.same 0 m
          · simp only [List.takeWhile_cons, ht, if_true, List.isEmpty_cons, Bool.not_false]
            by_cases hall : ∀ a ∈ cs, (a == unit '`') = true
            · refine .whole _ _ _ _ ?_ ?_
              · rw [List.takeWhile_eq_self_iff.2 hall]
                simp
              · rw [List.takeWhile_append_of_pos hall]
                simp
            · push Not at hall
              obtain ⟨a, ha, hp⟩ := hall
              rw [takeWhile_append_of_mem more ha (by simpa using hp)]
              exact .same _ _

theorem move_ahead (streaming : Bool) (m : Modes) (lineStart : Bool) (c : UInt16) (cs : Text) :
    Ahead c cs (move true m lineStart c cs) (move streaming m lineStart c (cs ++ more)) := by
  unfold move
  by_cases hb : (lineStart && m.inline.isEmpty) = true
  swap
  · rw [if_neg hb, if_neg hb]
    exact unmarked_ahead more streaming m c cs
  · rw [if_pos hb, if_pos hb, ← List.cons_append]
    by_cases hn : unit '\n' ∈ c :: cs
    · rw [marker_append more hn (by decide) (by decide) (by decide), firstLine_append more hn]
      cases hm : marker (c :: cs) with
      | none => exact unmarked_ahead more streaming m c cs
      | some found =>
        have hl : { found with line := firstLine (c :: cs) } = found := by rw [← marker_line hm]
        rw [Option.map_some, hl]
        exact .same _ _
    · have hlong : cs.length ≤ (firstLine (c :: cs ++ more)).length - 1 := by
        rw [firstLine_whole more hn, List.length_append, List.length_cons]
        omega
      cases hm' : marker (c :: cs ++ more) with
      | some found' =>
        have hl' := marker_line hm'
        cases hm : marker (c :: cs) with
        | some found =>
          have hl := marker_line hm
          have hshort := congrArg List.length (firstLine_whole [] hn)
          rw [List.append_nil, List.length_append, List.length_cons] at hshort
          refine .whole _ _ _ _ ?_ ?_
          · rw [hl]
            omega
          · rw [hl']
            exact hlong
        | none =>
          have hlt : unit '<' ∉ c :: cs := by
            intro hlt
            rw [marker_append more hlt (by decide) (by decide) (by decide), hm] at hm'
            cases hm'
          have hc : c ≠ unit '<' := fun h => hlt (h ▸ List.mem_cons_self)
          obtain ⟨taken, modes, h⟩ := move_of_ne true m false cs hc
          have hu : unmarked true m c cs = .emit taken modes := h
          rw [hu]
          exact .early _ _ _ _ hlt (hl' ▸ hlong)
      | none =>
        cases hm : marker (c :: cs) with
        | some found =>
          have h := marker_isSome_append more (c :: cs) (by rw [hm]; rfl)
          rw [hm'] at h
          cases h
        | none => exact unmarked_ahead more streaming m c cs

end Ahead

/-! ## §E What is shown -/

/-- A tag that the scanner took out, and what is shown of the text between it and the next one. -/
structure Removed where
  tag : Text
  after : Text
  deriving DecidableEq

/-- What the scanner made of a text: what is shown before the first tag, the tags, the modes at the end. -/
structure Parts where
  first : Text
  removed : List Removed
  last : Modes

/-- The loop without its segments. -/
def parts (streaming : Bool) (m : Modes) (lineStart : Bool) : Text → Parts
  | [] => ⟨[], [], m⟩
  | c :: cs =>
    match move streaming m lineStart c cs with
    | .emit more modes =>
      let p := parts streaming modes (endsLine (c :: cs.take more)) (cs.drop more)
      { p with first := c :: cs.take more ++ p.first }
    | .tag more =>
      let p := parts streaming m.toggle (endsLine (c :: cs.take more)) (cs.drop more)
      ⟨[], ⟨c :: cs.take more, p.first⟩ :: p.removed, p.last⟩
    | .stop => ⟨[], [], m⟩
  termination_by rest => rest.length
  decreasing_by all_goals simp only [List.length_drop, List.length_cons]; omega

/-- A segment, if there is something in it. -/
def group (thinking : Bool) (t : Text) : List Segment :=
  if t.isEmpty then [] else [⟨kindOf thinking, t⟩]

/-- The segments between removed tags: each tag changes the kind. -/
def label (thinking : Bool) (first : Text) : List Removed → List Segment
  | [] => group thinking first
  | r :: removed => group thinking first ++ label (!thinking) r.after removed

@[simp] theorem flatten_append (a b : List Segment) : flatten (a ++ b) = flatten a ++ flatten b :=
  List.flatMap_append

@[simp] theorem flatten_group (thinking : Bool) (t : Text) :
    flatten (group thinking t) = t.map (kindOf thinking, ·) := by
  unfold group
  split
  · rename_i h
    rw [List.isEmpty_iff.1 h]
    rfl
  · simp [flatten]

theorem flatten_label_append (thinking : Bool) (t first : Text) (removed : List Removed) :
    flatten (label thinking (t ++ first) removed)
      = t.map (kindOf thinking, ·) ++ flatten (label thinking first removed) := by
  cases removed with
  | nil => simp [label]
  | cons r removed => simp [label]

theorem flush_eq (s : Scan) : s.flush = s.result ++ group s.modes.thinking s.buffer := by
  unfold Scan.flush group
  split
  · simp
  · rfl

/-- The segments are those between the removed tags. -/
theorem scan_eq (streaming : Bool) (s : Scan) (lineStart : Bool) (rest : Text) :
    scan streaming s lineStart rest
      = s.result ++ label s.modes.thinking (s.buffer ++ (parts streaming s.modes lineStart rest).first)
          (parts streaming s.modes lineStart rest).removed := by
  fun_induction scan streaming s lineStart rest with
  | case1 s lineStart => simp [parts, label, flush_eq]
  | case2 s lineStart c cs more modes h ih =>
    have hw := move_within streaming s.modes lineStart c cs
    rw [h] at hw
    rw [ih, parts, h]
    simp [hw.2]
  | case3 s lineStart c cs more h ih =>
    rw [ih, parts, h]
    simp [label, flush_eq, Modes.toggle]
  | case4 s lineStart c cs h =>
    rw [parts, h]
    simp [label, flush_eq]

/-- The characters that are shown from a position on, with their kinds. -/
def view (streaming : Bool) (m : Modes) (lineStart : Bool) (rest : Text) : List (Kind × UInt16) :=
  flatten (label m.thinking (parts streaming m lineStart rest).first (parts streaming m lineStart rest).removed)

theorem splitThinking_view (streaming : Bool) (t : Text) :
    flatten (splitThinking streaming t) = view streaming .start true t := by
  rw [splitThinking, scan_eq]
  rfl

section View

variable {streaming : Bool} {m : Modes} {lineStart : Bool} {c : UInt16} {cs : Text}

theorem view_emit {more : ℕ} {modes : Modes} (h : move streaming m lineStart c cs = .emit more modes) :
    view streaming m lineStart (c :: cs)
      = (c :: cs.take more).map (kindOf m.thinking, ·)
        ++ view streaming modes (endsLine (c :: cs.take more)) (cs.drop more) := by
  have hw := move_within streaming m lineStart c cs
  rw [h] at hw
  unfold view
  rw [parts, h, hw.2, ← flatten_label_append]

theorem view_tag {more : ℕ} (h : move streaming m lineStart c cs = .tag more) :
    view streaming m lineStart (c :: cs)
      = view streaming m.toggle (endsLine (c :: cs.take more)) (cs.drop more) := by
  unfold view
  rw [parts, h]
  simp [label, Modes.toggle]

theorem view_stop (h : move streaming m lineStart c cs = .stop) : view streaming m lineStart (c :: cs) = [] := by
  unfold view
  rw [parts, h]
  simp [label]

@[simp] theorem view_nil : view streaming m lineStart [] = [] := by
  simp [view, parts, label]

end View

/-- Without an angle bracket all of a text is shown, as one kind. -/
theorem view_of_not_mem (streaming : Bool) (m : Modes) (lineStart : Bool) (rest : Text)
    (h : unit '<' ∉ rest) : view streaming m lineStart rest = rest.map (kindOf m.thinking, ·) := by
  fun_induction parts streaming m lineStart rest with
  | case1 m lineStart => simp
  | case2 m lineStart c cs more modes hmove p ih =>
    have hw := move_within streaming m lineStart c cs
    rw [hmove] at hw
    have hrest : unit '<' ∉ cs.drop more := fun hm => h (List.mem_cons_of_mem _ (List.mem_of_mem_drop hm))
    rw [view_emit hmove, ih hrest, hw.2, ← List.map_append, List.cons_append, List.take_append_drop]
  | case3 m lineStart c cs more hmove =>
    have hc : c ≠ unit '<' := fun hc => h (hc ▸ List.mem_cons_self)
    obtain ⟨_, _, hemit⟩ := move_of_ne streaming m lineStart cs hc
    rw [hmove] at hemit
    cases hemit
  | case4 m lineStart c cs hmove =>
    have hc : c ≠ unit '<' := fun hc => h (hc ▸ List.mem_cons_self)
    obtain ⟨_, _, hemit⟩ := move_of_ne streaming m lineStart cs hc
    rw [hmove] at hemit
    cases hemit

/-- **What is shown of a part of the text stays** while more of it comes, and when it is complete. -/
theorem view_prefix (streaming : Bool) (m : Modes) (lineStart : Bool) (rest more : Text) :
    view true m lineStart rest <+: view streaming m lineStart (rest ++ more) := by
  fun_induction parts true m lineStart rest with
  | case1 m lineStart => simp
  | case2 m lineStart c cs taken modes hmove p ih =>
    have hw := move_within true m lineStart c cs
    have ha := move_ahead more streaming m lineStart c cs
    rw [hmove] at hw ha
    rw [List.cons_append]
    generalize hmove' : move streaming m lineStart c (cs ++ more) = taken' at ha
    cases ha with
    | same =>
      rw [view_emit hmove, view_emit hmove', List.take_append_of_le_length hw.1,
        List.drop_append_of_le_length hw.1]
      exact (List.prefix_append_right_inj _).2 ih
    | whole _ more' _ modes' here there =>
      rw [view_emit hmove, view_emit hmove', List.take_of_length_le here, List.drop_of_length_le here,
        view_nil, List.append_nil, List.take_append, List.take_of_length_le there, ← List.cons_append,
        List.map_append, List.append_assoc]
      exact List.prefix_append _ _
    | early _ more' _ modes' plain there =>
      rw [view_of_not_mem true m lineStart (c :: cs) plain, view_emit hmove', List.take_append,
        List.take_of_length_le there, ← List.cons_append, List.map_append, List.append_assoc]
      exact List.prefix_append _ _
  | case3 m lineStart c cs taken hmove p ih =>
    have hw := move_within true m lineStart c cs
    have ha := move_ahead more streaming m lineStart c cs
    rw [hmove] at hw ha
    rw [List.cons_append]
    generalize hmove' : move streaming m lineStart c (cs ++ more) = taken' at ha
    cases ha with
    | tag =>
      rw [view_tag hmove, view_tag hmove', List.take_append_of_le_length hw,
        List.drop_append_of_le_length hw]
      exact ih
  | case4 m lineStart c cs hmove =>
    rw [view_stop hmove]
    exact List.nil_prefix


/-! ## §F What is removed -/

/-- A removed tag with the text after it. -/
def Removed.whole (r : Removed) : Text := r.tag ++ r.after

/-- The complete text is not waited for. -/
theorem move_ne_stop (m : Modes) (lineStart : Bool) (c : UInt16) (cs : Text) :
    move false m lineStart c cs ≠ .stop := by
  simp only [move, unmarked, Bool.and_false, Bool.false_and, Bool.false_eq_true, if_false]
  repeat' split
  all_goals nofun

theorem parts_whole (m : Modes) (lineStart : Bool) (rest : Text) :
    (parts false m lineStart rest).first
      ++ (parts false m lineStart rest).removed.flatMap Removed.whole = rest := by
  fun_induction parts false m lineStart rest with
  | case1 m lineStart => rfl
  | case2 m lineStart c cs more modes hmove p ih =>
    rw [List.append_assoc, ih, List.cons_append, List.take_append_drop]
  | case3 m lineStart c cs more hmove p ih =>
    rw [List.nil_append, List.flatMap_cons, Removed.whole, List.append_assoc, ih, List.cons_append,
      List.take_append_drop]
  | case4 m lineStart c cs hmove =>
    exact absurd hmove (move_ne_stop m lineStart c cs)

/-- The round leaves the units after the next `n` alone. -/
def Move.Within (n : ℕ) : Move → Prop
  | .emit more _ => more ≤ n
  | .tag more => more ≤ n
  | .stop => True

theorem unmarked_back {m : Modes} {c : UInt16} {cs after : Text}
    (h : (unmarked false m c (cs ++ unit '<' :: after)).Within cs.length) :
    unmarked false m c cs = unmarked false m c (cs ++ unit '<' :: after) := by
  have hne : (cs ++ unit '<' :: after).isEmpty = false := by simp
  have hticks : (c :: (cs ++ unit '<' :: after)).takeWhile (· == unit '`')
      = (c :: cs).takeWhile (· == unit '`') := by
    rw [← List.cons_append]
    exact takeWhile_append_of_head after (by decide)
  have hmap : (c :: (cs ++ unit '<' :: after)).map lower
      = (c :: cs).map lower ++ (unit '<' :: after).map lower := by
    rw [← List.cons_append, List.map_append]
  unfold unmarked at h ⊢
  rw [hne, hticks, hmap] at h ⊢
  simp only [Bool.and_false, Bool.false_and, Bool.false_eq_true, if_false, Bool.not_false, Bool.and_true,
    Bool.and_eq_true, List.isPrefixOf_iff_prefix] at h ⊢
  by_cases hf : m.fence.isEmpty
  swap
  · simp only [hf, Bool.not_false, if_true]
  · simp only [hf, Bool.not_true, Bool.false_eq_true, if_false] at h ⊢
    by_cases he : (c == unit '\\') = true ∧ m.inline.isEmpty = true
    · rw [if_pos he] at h ⊢
      have hcs : cs ≠ [] := by
        rintro rfl
        exact absurd h (Nat.not_succ_le_zero 0)
      rw [if_pos ⟨he, by simpa using hcs⟩]
    · rw [if_neg he] at h ⊢
      rw [if_neg (fun hb => he hb.1)]
      split
      · rfl
      · rename_i hnone
        rw [if_neg hnone] at h
        by_cases ht : m.inline.isEmpty = true ∧ tagOf m.thinking <+: (c :: cs).map lower
        · rw [if_pos ht, if_pos ⟨ht.1, ht.2.trans (List.prefix_append _ _)⟩]
        · rw [if_neg ht, if_neg]
          rintro ⟨hi, hp⟩
          rw [if_pos ⟨hi, hp⟩] at h
          have hlen : (tagOf m.thinking).length - 1 ≤ cs.length := h
          refine ht ⟨hi, List.prefix_of_prefix_length_le hp (List.prefix_append _ _) ?_⟩
          rw [List.length_map, List.length_cons]
          omega

/-- **A round that leaves a tag alone does the same without it.** -/
theorem move_back (m : Modes) (lineStart : Bool) (c : UInt16) (cs after : Text)
    (h : (move false m lineStart c (cs ++ unit '<' :: after)).Within cs.length) :
    move false m lineStart c cs = move false m lineStart c (cs ++ unit '<' :: after) := by
  unfold move at h ⊢
  by_cases hb : (lineStart && m.inline.isEmpty) = true
  swap
  · rw [if_neg hb] at h
    rw [if_neg hb, if_neg hb]
    exact unmarked_back h
  · rw [if_pos hb, ← List.cons_append] at h
    rw [if_pos hb, if_pos hb, ← List.cons_append]
    have hmark := marker_append_of_head after (c :: cs) (a := unit '<') (by decide) (by decide)
      (by decide)
    cases hm : marker (c :: cs) with
    | none =>
      rw [hmark, hm] at h
      rw [hmark, hm]
      exact unmarked_back h
    | some found =>
      rw [hmark, hm] at h
      rw [hmark, hm]
      have hn : unit '\n' ∈ c :: cs := by
        by_contra hn
        have hlong := congrArg List.length (firstLine_whole (unit '<' :: after) hn)
        have hone : 1 ≤ (firstLine (unit '<' :: after)).length := by
          simp [firstLine, show (unit '<' != unit '\n') = true by decide]
        rw [List.length_append, List.length_cons] at hlong
        have hw : (firstLine (c :: cs ++ unit '<' :: after)).length - 1 ≤ cs.length := h
        omega
      rw [firstLine_append _ hn, ← marker_line hm]
      rfl

/-- The text before a removed tag. -/
def before (first : Text) (front : List Removed) : Text := first ++ front.flatMap Removed.whole

/-- A tag that was removed: the scanner on the text before it comes to an end outside code, where it is the
tag that the scanner waits for. -/
structure Due (m : Modes) (r : Removed) : Prop where
  tag : r.tag.map lower = tagOf m.thinking
  outside : m.fence = []
  bare : m.inline = []

theorem Due.head {m : Modes} {r : Removed} (h : Due m r) : ∃ more, r.tag = unit '<' :: more := by
  obtain ⟨more, htag⟩ := tagOf_eq m.thinking
  have ht := h.tag
  cases hr : r.tag with
  | nil => simp [hr, htag] at ht
  | cons u tag =>
    rw [hr, htag, List.map_cons, List.cons.injEq] at ht
    exact ⟨tag, by rw [lower_eq_lt ht.1]⟩

theorem move_tag {streaming : Bool} {m : Modes} {lineStart : Bool} {c : UInt16} {cs : Text} {more : ℕ}
    (h : move streaming m lineStart c cs = .tag more) (after : Text) :
    Due m ⟨c :: cs.take more, after⟩ := by
  have ht := h ▸ turn streaming m lineStart c cs
  generalize hmore : Move.tag more = taken at ht
  cases ht with
  | tag outside bare is =>
    cases hmore
    refine ⟨?_, outside, bare⟩
    obtain ⟨more, htag⟩ := tagOf_eq m.thinking
    rw [htag, List.map_cons, List.cons_prefix_cons] at is
    have hlen : (unit '<' :: more).length - 1 = more.length := rfl
    rw [htag, hlen, List.map_cons, List.map_take, is.1, ← List.prefix_iff_eq_take.1 is.2]
  | _ => cases hmore

theorem take_before {cs kept : Text} {more : ℕ} (hle : more ≤ cs.length) :
    (cs.take more ++ kept).take more = cs.take more := by
  rw [List.take_append_of_le_length (Nat.le_of_eq (List.length_take_of_le hle).symm), List.take_take,
    Nat.min_self]

theorem drop_before {cs kept : Text} {more : ℕ} (hle : more ≤ cs.length) :
    (cs.take more ++ kept).drop more = kept :=
  List.drop_left' (List.length_take_of_le hle)

/-- The round is the same when the text ends before a later tag. -/
theorem move_before {m : Modes} {lineStart : Bool} {c : UInt16} {cs kept after : Text} {more : ℕ} {taken : Move}
    (h : move false m lineStart c cs = taken) (hle : more ≤ cs.length) (hw : taken.Within more)
    (hrest : cs.drop more = kept ++ unit '<' :: after) :
    move false m lineStart c (cs.take more ++ kept) = taken := by
  have hcs : cs.take more ++ kept ++ unit '<' :: after = cs := by
    rw [List.append_assoc, ← hrest, List.take_append_drop]
  have hback := move_back m lineStart c (cs.take more ++ kept) after
  rw [hcs, h] at hback
  refine hback ?_
  have hlen : more ≤ (cs.take more ++ kept).length := by
    rw [List.length_append, List.length_take_of_le hle]
    omega
  cases taken with
  | emit n modes => exact le_trans hw hlen
  | tag n => exact le_trans hw hlen
  | stop => trivial

theorem parts_due (m : Modes) (lineStart : Bool) (rest : Text) (front : List Removed) (r : Removed)
    (back : List Removed) (h : (parts false m lineStart rest).removed = front ++ r :: back) :
    let last := (parts false m lineStart (before (parts false m lineStart rest).first front)).last
    Due last r ∧ last.thinking = (m.thinking ^^ (front.length % 2 == 1)) := by
  fun_induction parts false m lineStart rest generalizing front with
  | case1 m lineStart => cases front <;> cases h
  | case2 m lineStart c cs more modes hmove p ih =>
    obtain ⟨hdue, hparity⟩ := ih front h
    have hw := move_within false m lineStart c cs
    rw [hmove] at hw
    obtain ⟨tag, htag⟩ := hdue.head
    have hrest : cs.drop more
        = before p.first front ++ unit '<' :: (tag ++ r.after ++ back.flatMap Removed.whole) := by
      rw [← parts_whole modes (endsLine (c :: cs.take more)) (cs.drop more), h]
      simp [p, before, Removed.whole, htag]
    have hbefore := move_before hmove hw.1 (le_refl more) hrest
    have hlast : (parts false m lineStart (c :: (cs.take more ++ before p.first front))).last
        = (parts false modes (endsLine (c :: cs.take more)) (before p.first front)).last := by
      rw [parts, hbefore]
      simp only [take_before hw.1, drop_before hw.1]
    have hassoc : before (c :: cs.take more ++ p.first) front
        = c :: (cs.take more ++ before p.first front) := by
      simp [before]
    rw [hassoc, hlast]
    exact ⟨hdue, hw.2 ▸ hparity⟩
  | case3 m lineStart c cs more hmove p ih =>
    have hw := move_within false m lineStart c cs
    rw [hmove] at hw
    cases front with
    | nil =>
      cases h
      simpa [before, parts] using move_tag hmove _
    | cons r' front =>
      obtain ⟨rfl, hp⟩ := List.cons.inj h
      replace h : p.removed = front ++ r :: back := hp
      obtain ⟨hdue, hparity⟩ := ih front h
      obtain ⟨tag, htag⟩ := hdue.head
      have hrest : cs.drop more
          = before p.first front ++ unit '<' :: (tag ++ r.after ++ back.flatMap Removed.whole) := by
        rw [← parts_whole m.toggle (endsLine (c :: cs.take more)) (cs.drop more)]
        simp [p, h, before, Removed.whole, htag]
      have hbefore := move_before hmove hw (le_refl more) hrest
      have hlast : (parts false m lineStart (c :: (cs.take more ++ before p.first front))).last
          = (parts false m.toggle (endsLine (c :: cs.take more)) (before p.first front)).last := by
        rw [parts, hbefore]
        simp only [take_before hw, drop_before hw]
      have hassoc : before [] (⟨c :: cs.take more, p.first⟩ :: front)
          = c :: (cs.take more ++ before p.first front) := by
        simp [before, Removed.whole]
      rw [hassoc, hlast]
      refine ⟨hdue, hparity.trans ?_⟩
      rw [List.length_cons, Modes.toggle]
      rcases Nat.mod_two_eq_zero_or_one front.length with h2 | h2
      · simp [Nat.add_mod, h2]
      · simp [Nat.add_mod, h2]
  | case4 m lineStart c cs hmove => exact absurd hmove (move_ne_stop m lineStart c cs)

/-- The backslashes at the end of a text. -/
def backslashes (t : Text) : ℕ := (t.reverse.takeWhile (· == unit '\\')).length

theorem backslashes_append (t : Text) (u : UInt16) :
    backslashes (t ++ [u]) = if u = unit '\\' then backslashes t + 1 else 0 := by
  unfold backslashes
  rw [List.reverse_append, List.reverse_singleton, List.singleton_append, List.takeWhile_cons]
  by_cases hu : u = unit '\\' <;> simp [hu]

theorem backslashes_of_last {past t : Text} {u : UInt16} (hlast : t.getLast? = some u) (hu : u ≠ unit '\\') :
    backslashes (past ++ t) = 0 := by
  obtain ⟨init, rfl⟩ := List.getLast?_eq_some_iff.1 hlast
  rw [← List.append_assoc, backslashes_append, if_neg hu]

theorem fenceRun_prefix (body : Text) : fenceRun body <+: body := by
  unfold fenceRun
  split
  · exact List.takeWhile_prefix _
  · exact List.takeWhile_prefix _

theorem mem_fenceRun {body : Text} {u : UInt16} (h : u ∈ fenceRun body) : u = unit '`' ∨ u = unit '~' := by
  unfold fenceRun at h
  split at h
  · exact Or.inl (beq_iff_eq.1 (List.mem_takeWhile_imp (p := (· == unit '`')) h))
  · exact Or.inr (beq_iff_eq.1 (List.mem_takeWhile_imp (p := (· == unit '~')) h))

/-- The line of a marker is its indentation, its run and what the end of the line is. -/
theorem marker_shape {rest : Text} {found : Marker} (h : marker rest = some found) :
    3 ≤ found.run.length ∧ (∀ u ∈ found.run, u = unit '`' ∨ u = unit '~')
      ∧ ∃ spaces tail, spaces.length = found.indent ∧ found.line = spaces ++ found.run ++ tail := by
  simp only [marker] at h
  split at h
  · rename_i hm
    cases h
    refine ⟨hm.2, fun u => mem_fenceRun, rest.takeWhile (· == unit ' '), ?_⟩
    obtain ⟨after, hafter⟩ := fenceRun_prefix (rest.dropWhile (· == unit ' '))
    refine ⟨firstLine after, rfl, ?_⟩
    have hn : unit '\n' ∉ rest.takeWhile (· == unit ' ') ++ fenceRun (rest.dropWhile (· == unit ' ')) := by
      intro hmem
      rcases List.mem_append.1 hmem with hmem | hmem
      · exact absurd (List.mem_takeWhile_imp hmem) (by decide)
      · rcases mem_fenceRun hmem with h | h
        · exact absurd h (by decide)
        · exact absurd h (by decide)
    have hrest := firstLine_whole after hn
    rw [List.append_assoc, hafter, List.takeWhile_append_dropWhile] at hrest
    exact hrest
  · cases h

theorem firstLine_prefix (rest : Text) : firstLine rest <+: rest := by
  unfold firstLine
  conv_rhs => rw [← List.takeWhile_append_dropWhile (p := (· != unit '\n')) (l := rest)]
  exact (List.prefix_append_right_inj _).2 (List.take_prefix _ _)

theorem take_marker {c : UInt16} {cs : Text} {found : Marker} (h : marker (c :: cs) = some found) :
    c :: cs.take (found.line.length - 1) = found.line := by
  obtain ⟨after, hafter⟩ := firstLine_prefix (c :: cs)
  rw [← marker_line h] at hafter
  obtain ⟨h3, -, spaces, tail, -, hline⟩ := marker_shape h
  cases hl : found.line with
  | nil =>
    rw [hl] at hline
    have := congrArg List.length hline
    simp only [List.length_nil, List.length_append] at this
    omega
  | cons u line =>
    rw [hl, List.cons_append, List.cons.injEq] at hafter
    rw [← hafter.1, ← hafter.2, List.length_cons, Nat.add_sub_cancel, List.take_left]

/-- A marker that leaves no fence open has ended one, with a line that ends in no backslash. -/
theorem mark_last {m : Modes} {rest : Text} {found : Marker} (is : marker rest = some found)
    (h : (m.mark found).fence = []) : ∃ u, found.line.getLast? = some u ∧ u ≠ unit '\\' := by
  obtain ⟨h3, hrun, spaces, tail, hspaces, hline⟩ := marker_shape is
  have hne : found.run ≠ [] := by
    rintro heq
    rw [heq] at h3
    exact absurd h3 (by decide)
  unfold Modes.mark at h
  split at h
  · exact absurd h hne
  · split at h
    · rename_i hend
      have htail : found.line.drop (found.indent + found.run.length) = tail := by
        rw [hline, ← hspaces, ← List.length_append, List.drop_left]
      rw [htail] at hend
      rcases List.eq_nil_or_concat tail with rfl | ⟨init, u, rfl⟩
      · obtain ⟨init, u, hinit⟩ := (List.eq_nil_or_concat found.run).resolve_left hne
        refine ⟨u, ?_, ?_⟩
        · simp [hline, hinit]
        · rcases hrun u (by simp [hinit]) with rfl | rfl
          · decide
          · decide
      · refine ⟨u, by simp [hline], ?_⟩
        rintro rfl
        have hspace := List.all_eq_true.1 hend.2.2 (unit '\\') (by simp)
        exact absurd hspace (by decide)
    · rename_i hopen _
      exact absurd (List.isEmpty_iff.2 h) hopen

/-- The next unit is not escaped, where a backslash escapes. -/
def Free (m : Modes) (past rest : Text) : Prop :=
  m.fence = [] → m.inline = [] → rest ≠ [] → Even (backslashes past)

theorem free_emit {m modes : Modes} {lineStart : Bool} {c : UInt16} {past cs : Text} {more : ℕ}
    (h : move false m lineStart c cs = .emit more modes) (hfree : Free m past (c :: cs)) :
    Free modes (past ++ c :: cs.take more) (cs.drop more) := by
  intro hf hi hrest
  have ht := h ▸ turn false m lineStart c cs
  generalize hmore : Move.emit more modes = taken at ht
  cases ht with
  | marked found bare is =>
    cases hmore
    obtain ⟨u, hlast, hu⟩ := mark_last is hf
    rw [take_marker is, backslashes_of_last hlast hu]
    exact Even.zero
  | fenced inside =>
    cases hmore
    exact absurd hf inside
  | escape outside bare is some =>
    cases hmore
    have heven := hfree outside bare (List.cons_ne_nil _ _)
    obtain ⟨u, cs, rfl⟩ := List.exists_cons_of_ne_nil some
    have hsplit : past ++ c :: (u :: cs).take 1 = past ++ [c] ++ [u] := by simp
    rw [hsplit, backslashes_append, backslashes_append, if_pos is]
    split
    · exact Nat.even_add_one.2 (by simpa [Nat.even_add_one] using heven)
    · exact Even.zero
  | ticks outside is =>
    cases hmore
    have htake : cs.take (cs.takeWhile (· == unit '`')).length = cs.takeWhile (· == unit '`') :=
      (List.prefix_iff_eq_take.1 (List.takeWhile_prefix _)).symm
    obtain ⟨init, u, hinit⟩ :=
      (List.eq_nil_or_concat (c :: cs.takeWhile (· == unit '`'))).resolve_left (List.cons_ne_nil _ _)
    have hu : u = unit '`' := by
      have hmem : u ∈ c :: cs.takeWhile (· == unit '`') := by simp [hinit]
      rcases List.mem_cons.1 hmem with rfl | hmem
      · exact is
      · exact beq_iff_eq.1 (List.mem_takeWhile_imp (p := (· == unit '`')) hmem)
    rw [htake, hinit, backslashes_of_last (u := u) (by simp) (by rw [hu]; decide)]
    exact Even.zero
  | plain outside free =>
    cases hmore
    rw [List.take_zero, backslashes_append]
    split
    · rename_i hc
      exact absurd (free hc hi) hrest
    · exact Even.zero
  | _ => cases hmore

theorem due_last {m : Modes} {r : Removed} (h : Due m r) (past : Text) : backslashes (past ++ r.tag) = 0 := by
  have htag := h.tag
  obtain ⟨init, hinit⟩ : ∃ init, tagOf m.thinking = init ++ [unit '>'] := by
    cases m.thinking
    · exact ⟨text "<think", rfl⟩
    · exact ⟨text "</think", rfl⟩
  rw [hinit] at htag
  rcases List.eq_nil_or_concat r.tag with hr | ⟨tag, u, hr⟩
  · rw [hr] at htag
    exact absurd htag.symm (by simp)
  · refine backslashes_of_last (u := u) (by simp [hr]) ?_
    rintro rfl
    rw [hr, List.concat_eq_append, List.map_append] at htag
    have := List.append_inj_right' htag rfl
    exact absurd this (by decide)

theorem parts_free (m : Modes) (lineStart : Bool) (past rest : Text) (hfree : Free m past rest)
    (front : List Removed) (r : Removed) (back : List Removed)
    (h : (parts false m lineStart rest).removed = front ++ r :: back) :
    Even (backslashes (past ++ before (parts false m lineStart rest).first front)) := by
  fun_induction parts false m lineStart rest generalizing past front with
  | case1 m lineStart => cases front <;> cases h
  | case2 m lineStart c cs more modes hmove p ih =>
    have hthen := ih (past ++ c :: cs.take more) (free_emit hmove hfree) front h
    simpa [before] using hthen
  | case3 m lineStart c cs more hmove p ih =>
    have hdue := move_tag hmove p.first
    cases front with
    | nil => simpa [before] using hfree hdue.outside hdue.bare (List.cons_ne_nil _ _)
    | cons r' front =>
      obtain ⟨rfl, hp⟩ := List.cons.inj h
      have hnext : Free m.toggle (past ++ c :: cs.take more) (cs.drop more) := by
        intro _ _ _
        rw [due_last hdue past]
        exact Even.zero
      have hthen := ih (past ++ c :: cs.take more) hnext front hp
      simpa [before, Removed.whole] using hthen
  | case4 m lineStart c cs hmove => exact absurd hmove (move_ne_stop m lineStart c cs)

/-! ## §G The results -/

/-- The scanner at the end of a text. -/
def modesAfter (t : Text) : Modes := (parts false .start true t).last

/-- A reading of a text: what is shown before the first tag, and the removed tags with what is shown after
each. They are the text. Each tag is the one that the scanner waits for at that place, opening and closing in
turn; it stands in no fenced block and in no inline code, and no backslash that is not itself behind one stands
before it. -/
structure Reading (t first : Text) (removed : List Removed) : Prop where
  whole : first ++ removed.flatMap Removed.whole = t
  due : ∀ front r back, removed = front ++ r :: back → Due (modesAfter (before first front)) r
  turns : ∀ front r back, removed = front ++ r :: back →
    (modesAfter (before first front)).thinking = (front.length % 2 == 1)
  free : ∀ front r back, removed = front ++ r :: back → Even (backslashes (before first front))

theorem reading (t : Text) : Reading t (parts false .start true t).first (parts false .start true t).removed where
  whole := parts_whole .start true t
  due := fun front r back h => (parts_due .start true t front r back h).1
  turns := fun front r back h => by
    rw [modesAfter, (parts_due .start true t front r back h).2]
    exact Bool.false_xor _
  free := fun front r back h => parts_free .start true [] t (fun _ _ _ => Even.zero) front r back h

/-- **What is shown stays, and only tags are removed.** What is shown of a part `t` of a text begins what is
shown when `more` follows. The segments of a text are what stands between its removed tags. -/
theorem thinking_split (t more : Text) (streaming : Bool) :
    flatten (splitThinking true t) <+: flatten (splitThinking streaming (t ++ more))
      ∧ ∃ first removed, Reading t first removed ∧ splitThinking false t = label false first removed := by
  constructor
  · rw [splitThinking_view, splitThinking_view]
    exact view_prefix streaming .start true t more
  · refine ⟨_, _, reading t, ?_⟩
    rw [splitThinking, scan_eq]
    rfl

/-- A tag right behind a backslash is removed when that backslash is itself behind one. -/
theorem escaped_backslash :
    Reading (text "\\\\<think>x") (text "\\\\") [⟨text "<think>", text "x"⟩]
      ∧ (text "\\\\").getLast? = some (unit '\\')
      ∧ splitThinking false (text "\\\\<think>x")
        = [⟨.text, text "\\\\"⟩, ⟨.reasoning, text "x"⟩] := by
  refine ⟨?_, by decide, by decide +kernel⟩
  have hfirst : (parts false .start true (text "\\\\<think>x")).first = text "\\\\" := by decide +kernel
  have hremoved : (parts false .start true (text "\\\\<think>x")).removed
      = [⟨text "<think>", text "x"⟩] := by decide +kernel
  have h := reading (text "\\\\<think>x")
  rwa [hfirst, hremoved] at h

/-- While it streams, what may become a tag is held back. -/
example : splitThinking true (text "answer<thi") = [⟨.text, text "answer"⟩]
    ∧ splitThinking false (text "answer<thi") = [⟨.text, text "answer<thi"⟩] := by decide +kernel


end OpencodeCloud.AdminWeb
