/-
# OpencodeCloud.Catalog.ImportFormats -- JSON with comments and trailing commas

`jsonc` reads what users upload: a first pass takes the comments out of the text, a second one the commas
before closing brackets, both with a state of their own for string literals, and `json.loads` reads what is
left.

**A text is accepted exactly when it is an object of the JSON that `json.loads` reads, with comments between
its tokens and at most one comma before a closing mark, after any number of byte-order marks**
(`jsonc_iff`). That is more than JSON with trailing commas: a comma may stand in an empty array or object,
the byte-order mark may be repeated, and `NaN` and the infinities are numbers.
-/
import OpencodeCloud.Catalog.Document
import OpencodeCloud.Library.JsonText

namespace OpencodeCloud.Catalog.ImportFormats

open OpencodeCloud.Library OpencodeCloud.Library.JsonText

/-! ## §A The two passes -/

/-- The state of a literal after one of its characters: `quoted` and `escape`. -/
def inString (escape : Bool) (char : Char) : Bool × Bool :=
  if escape then (true, false)
  else if char == '\\' then (true, true)
  else if char == '"' then (false, false)
  else (true, false)

/-- The first pass over the rest of the text. -/
def removeComments (quoted escape : Bool) : List Char → Result (List Char)
  | [] => .ok []
  | char :: rest =>
    if quoted then
      (removeComments (inString escape char).1 (inString escape char).2 rest).map (char :: ·)
    else if char == '"' then (removeComments true escape rest).map (char :: ·)
    else if char == '/' && rest.head? == some '/' then
      removeComments quoted escape (rest.dropWhile (· != '\n'))
    else if char == '/' && rest.head? == some '*' then
      match _h : afterComment rest.tail with
      | none => fail 400 "Unterminated JSONC comment"
      | some after => (removeComments quoted escape after).map (' ' :: ·)
    else (removeComments quoted escape rest).map (char :: ·)
termination_by text => text.length
decreasing_by
  · simp
  · simp
  · have := length_dropWhile_le (p := (· != '\n')) rest
    simp only [List.length_cons]
    omega
  · have := afterComment_length _h
    have htail := List.length_tail (l := rest)
    simp only [List.length_cons]
    omega
  · simp

/-- The whitespace of `str.lstrip()`. -/
def spaces : List Char :=
  [0x09, 0x0a, 0x0b, 0x0c, 0x0d, 0x1c, 0x1d, 0x1e, 0x1f, 0x20, 0x85, 0xa0, 0x1680, 0x2000, 0x2001, 0x2002,
    0x2003, 0x2004, 0x2005, 0x2006, 0x2007, 0x2008, 0x2009, 0x200a, 0x2028, 0x2029, 0x202f, 0x205f,
    0x3000].map Char.ofNat

/-- `text.lstrip().startswith(("}", "]"))` -/
def closes (text : List Char) : Bool :=
  match text.dropWhile spaces.contains with
  | char :: _ => char == '\x7d' || char == ']'
  | [] => false

/-- The second pass over the rest of the text. -/
def removeCommas (quoted escape : Bool) : List Char → List Char
  | [] => []
  | char :: rest =>
    if !quoted && char == ',' && closes rest then removeCommas quoted escape rest
    else if quoted then char :: removeCommas (inString escape char).1 (inString escape char).2 rest
    else if char == '"' then char :: removeCommas true escape rest
    else char :: removeCommas quoted escape rest

/-- The byte-order mark. -/
def bom : Char := '\ufeff'

section Jsonc

-- what `json.loads` makes of the syntax of a value; nothing when it raises on the way, as on an integer
-- with too many digits
variable {α : Type} (interpret : Tree → Option α)

/-- `json.loads(text)`, which has to be a dictionary. -/
def loads (text : List Char) : Result α :=
  match (tokens false text).bind (parse true) with
  | none => fail 400 "Invalid JSON/JSONC configuration"
  | some tree =>
    match interpret tree with
    | none => fail 400 "Invalid JSON/JSONC configuration"
    | some value => do
      refuse (!tree.isObject) 400 "OpenCode config must be an object"
      return value

def jsonc (text : List Char) : Result α := do
  let out ← removeComments false false text
  loads interpret ((removeCommas false false out).dropWhile (· == bom))

end Jsonc

/-! ## §B Literals in the two passes -/

/-- A character of a literal that is neither a quote nor a backslash. -/
theorem inString_plain {c : Char} (hquote : c ≠ '"') (hescape : c ≠ '\\') :
    inString false c = (true, false) := by
  simp [inString, hquote, hescape]

/-- The cases of `readString`: the end of the literal, an escape, another character. -/
theorem readString_cases {c : Char} {s raw rest : List Char} (h : readString (c :: s) = some (raw, rest)) :
    c = '"' ∧ raw = [] ∧ rest = s ∨
    (∃ e s' raw', c = '\\' ∧ s = e :: s' ∧ raw = '\\' :: e :: raw' ∧ readString s' = some (raw', rest)) ∨
    c ≠ '"' ∧ c ≠ '\\' ∧ ∃ raw', raw = c :: raw' ∧ readString s = some (raw', rest) := by
  by_cases hquote : c = '"'
  · subst hquote
    obtain ⟨rfl, rfl⟩ := Prod.mk.inj (Option.some.inj h)
    exact .inl ⟨rfl, rfl, rfl⟩
  · by_cases hescape : c = '\\'
    · subst hescape
      cases s with
      | nil => cases h
      | cons e s' =>
        obtain ⟨r, hr, heq⟩ := Option.map_eq_some_iff.mp h
        obtain ⟨rfl, rfl⟩ := Prod.mk.inj heq
        exact .inr (.inl ⟨e, s', r.1, rfl, rfl, rfl, hr⟩)
    · rw [readString_plain hquote hescape] at h
      obtain ⟨r, hr, heq⟩ := Option.map_eq_some_iff.mp h
      obtain ⟨rfl, rfl⟩ := Prod.mk.inj heq
      exact .inr (.inr ⟨hquote, hescape, r.1, rfl, hr⟩)

/-- Up to its closing quote a literal is read in the same way whatever follows it. -/
theorem readString_append {s raw rest : List Char} (h : readString s = some (raw, rest)) (o : List Char) :
    readString (raw ++ '"' :: o) = some (raw, o) := by
  induction hn : s.length using Nat.strong_induction_on generalizing s raw with
  | _ n ih =>
    cases s with
    | nil => cases h
    | cons c s =>
      subst hn
      rcases readString_cases h with ⟨-, rfl, -⟩ | ⟨e, s', raw', rfl, rfl, rfl, hread⟩ |
        ⟨hquote, hescape, raw', rfl, hread⟩
      · rfl
      · have hrest := ih s'.length (by simp only [List.length_cons]; omega) hread rfl
        simp [readString, hrest]
      · have hrest := ih s.length (Nat.lt_succ_self _) hread rfl
        rw [List.cons_append, readString_plain hquote hescape, hrest]
        rfl

/-- A literal is copied up to its closing quote by the first pass. -/
theorem removeComments_string {s raw rest : List Char} (h : readString s = some (raw, rest)) :
    removeComments true false s = (removeComments false false rest).map fun o => raw ++ '"' :: o := by
  induction hn : s.length using Nat.strong_induction_on generalizing s raw with
  | _ n ih =>
    cases s with
    | nil => cases h
    | cons c s =>
      subst hn
      rcases readString_cases h with ⟨rfl, rfl, rfl⟩ | ⟨e, s', raw', rfl, rfl, rfl, hread⟩ |
        ⟨hquote, hescape, raw', rfl, hread⟩
      · rw [removeComments]
        rfl
      · have hrest := ih s'.length (by simp only [List.length_cons]; omega) hread rfl
        rw [removeComments, removeComments]
        change Except.map _ (Except.map _ (removeComments true false s')) = _
        rw [hrest]
        cases removeComments false false rest <;> rfl
      · have hrest := ih s.length (Nat.lt_succ_self _) hread rfl
        rw [removeComments, if_pos rfl, inString_plain hquote hescape, hrest]
        cases removeComments false false rest <;> rfl

/-- A literal is copied up to its closing quote by the second pass. -/
theorem removeCommas_string {s raw rest : List Char} (h : readString s = some (raw, rest)) :
    removeCommas true false s = raw ++ '"' :: removeCommas false false rest := by
  induction hn : s.length using Nat.strong_induction_on generalizing s raw with
  | _ n ih =>
    cases s with
    | nil => cases h
    | cons c s =>
      subst hn
      rcases readString_cases h with ⟨rfl, rfl, rfl⟩ | ⟨e, s', raw', rfl, rfl, rfl, hread⟩ |
        ⟨hquote, hescape, raw', rfl, hread⟩
      · rfl
      · have hrest := ih s'.length (by simp only [List.length_cons]; omega) hread rfl
        change '\\' :: e :: removeCommas true false s' = _
        rw [hrest]
        rfl
      · have hrest := ih s.length (Nat.lt_succ_self _) hread rfl
        rw [removeCommas, if_neg (by simp), if_pos rfl, inString_plain hquote hescape, hrest]
        rfl

/-- The cases of a literal that does not end. -/
theorem readString_open {c : Char} {s : List Char} (h : readString (c :: s) = none) :
    (c = '\\' ∧ (s = [] ∨ ∃ e s', s = e :: s' ∧ readString s' = none)) ∨
    c ≠ '"' ∧ c ≠ '\\' ∧ readString s = none := by
  by_cases hquote : c = '"'
  · subst hquote
    cases h
  · by_cases hescape : c = '\\'
    · subst hescape
      cases s with
      | nil => exact .inl ⟨rfl, .inl rfl⟩
      | cons e s' => exact .inl ⟨rfl, .inr ⟨e, s', rfl, Option.map_eq_none_iff.mp h⟩⟩
    · rw [readString_plain hquote hescape] at h
      exact .inr ⟨hquote, hescape, Option.map_eq_none_iff.mp h⟩

/-- A literal that does not end is copied to the end of the text. -/
theorem removeComments_open {s : List Char} (h : readString s = none) :
    removeComments true false s = .ok s := by
  induction hn : s.length using Nat.strong_induction_on generalizing s with
  | _ n ih =>
    cases s with
    | nil => rw [removeComments]
    | cons c s =>
      subst hn
      rcases readString_open h with ⟨rfl, rfl | ⟨e, s', rfl, hread⟩⟩ | ⟨hquote, hescape, hread⟩
      · rw [removeComments, removeComments]
        rfl
      · have hrest := ih s'.length (by simp only [List.length_cons]; omega) hread rfl
        rw [removeComments, removeComments]
        change Except.map _ (Except.map _ (removeComments true false s')) = _
        rw [hrest]
        rfl
      · have hrest := ih s.length (Nat.lt_succ_self _) hread rfl
        rw [removeComments, if_pos rfl, inString_plain hquote hescape, hrest]
        rfl

theorem removeCommas_open {s : List Char} (h : readString s = none) : removeCommas true false s = s := by
  induction hn : s.length using Nat.strong_induction_on generalizing s with
  | _ n ih =>
    cases s with
    | nil => rfl
    | cons c s =>
      subst hn
      rcases readString_open h with ⟨rfl, rfl | ⟨e, s', rfl, hread⟩⟩ | ⟨hquote, hescape, hread⟩
      · rfl
      · have hrest := ih s'.length (by simp only [List.length_cons]; omega) hread rfl
        change '\\' :: e :: removeCommas true false s' = _
        rw [hrest]
      · have hrest := ih s.length (Nat.lt_succ_self _) hread rfl
        rw [removeCommas, if_neg (by simp), if_pos rfl, inString_plain hquote hescape, hrest]

/-! ## §C What the passes do to the tokens -/

/-- A property of the first character, if there is one. -/
def Head (p : Char → Bool) (s : List Char) : Prop := ∀ c, s.head? = some c → p c = false

theorem head_dropWhile {p q : Char → Bool} (h : ∀ c, q c = false → p c = false) (s : List Char) :
    Head p (s.dropWhile q) := by
  intro c hc
  refine h c ?_
  have := List.head?_dropWhile_not q s
  rw [hc] at this
  simpa using this

/-- A character that begins neither a literal nor a comment is copied. -/
theorem removeComments_copy {c : Char} (hquote : c ≠ '"') (hslash : c ≠ '/') (rest : List Char) :
    removeComments false false (c :: rest) = (removeComments false false rest).map (c :: ·) := by
  rw [removeComments, if_neg Bool.false_ne_true, if_neg (by simpa using hquote), if_neg (by simp [hslash]),
    if_neg (by simp [hslash])]

theorem removeCommas_copy {c : Char} (hquote : c ≠ '"') (hcomma : c ≠ ',') (rest : List Char) :
    removeCommas false false (c :: rest) = c :: removeCommas false false rest := by
  rw [removeCommas, if_neg (by simp [hcomma]), if_neg Bool.false_ne_true, if_neg (by simpa using hquote)]

/-- What the first pass does at a quote. -/
theorem removeComments_quote (rest : List Char) :
    removeComments false false ('"' :: rest) = (removeComments true false rest).map ('"' :: ·) := by
  rw [removeComments]
  rfl

theorem removeComments_line (rest : List Char) :
    removeComments false false ('/' :: '/' :: rest) =
      removeComments false false (rest.dropWhile (· != '\n')) := by
  rw [removeComments]
  rfl

theorem removeComments_block (rest : List Char) :
    removeComments false false ('/' :: '*' :: rest) =
      match afterComment rest with
      | none => fail 400 "Unterminated JSONC comment"
      | some after => (removeComments false false after).map (' ' :: ·) := by
  rw [removeComments, if_neg Bool.false_ne_true, if_neg (by decide), if_neg (by simp), if_pos (by simp)]
  rw [List.tail_cons]
  split
  · next h => rw [h]
  · next h => rw [h]

theorem removeComments_slash {rest : List Char} (hline : rest.head? ≠ some '/')
    (hblock : rest.head? ≠ some '*') :
    removeComments false false ('/' :: rest) = (removeComments false false rest).map ('/' :: ·) := by
  rw [removeComments, if_neg Bool.false_ne_true, if_neg (by decide), if_neg (by simp [hline]),
    if_neg (by simp [hblock])]

theorem map_ok {f : List Char → List Char} {x : Result (List Char)} {o : List Char}
    (h : x.map f = .ok o) : ∃ o', x = .ok o' ∧ f o' = o := by
  cases x with
  | error e => cases h
  | ok o' => exact ⟨o', rfl, Except.ok.inj h⟩

theorem map_error {f : List Char → List Char} {x : Result (List Char)} {e : Failure}
    (h : x.map f = .error e) : x = .error e := by
  cases x with
  | error e' => exact congrArg Except.error (Except.error.inj h)
  | ok o => cases h

/-- **The first character keeps its kind** under the first pass, unless a comment begins there, which leaves
a blank. -/
theorem head_removeComments {p : Char → Bool} (hline : p '\n' = false) (hblank : p ' ' = false)
    {s o : List Char} (hs : Head p s) (h : removeComments false false s = .ok o) : Head p o := by
  induction hn : s.length using Nat.strong_induction_on generalizing s o with
  | _ n ih =>
    subst hn
    cases s with
    | nil =>
      rw [removeComments] at h
      obtain rfl := Except.ok.inj h
      exact hs
    | cons c rest =>
      have hkept : ∀ {x : Result (List Char)}, x.map (c :: ·) = .ok o → Head p o := by
        intro x hx
        obtain ⟨o', -, rfl⟩ := map_ok hx
        intro d hd
        obtain rfl := Option.some.inj hd
        exact hs c rfl
      by_cases hquote : c = '"'
      · subst hquote
        rw [removeComments_quote] at h
        exact hkept h
      · by_cases hslash : c = '/'
        · subst hslash
          by_cases hl : rest.head? = some '/'
          · obtain ⟨rest', rfl⟩ := List.head?_eq_some_iff.mp hl
            rw [removeComments_line] at h
            refine ih _ ?_ (head_dropWhile ?_ rest') h rfl
            · have := length_dropWhile_le (p := (· != '\n')) rest'
              simp only [List.length_cons]
              omega
            · intro d hd
              obtain rfl : d = '\n' := by simpa using hd
              exact hline
          · by_cases hb : rest.head? = some '*'
            · obtain ⟨rest', rfl⟩ := List.head?_eq_some_iff.mp hb
              rw [removeComments_block] at h
              split at h
              · cases h
              · obtain ⟨o', -, rfl⟩ := map_ok h
                intro d hd
                obtain rfl := Option.some.inj hd
                exact hblank
            · rw [removeComments_slash hl hb] at h
              exact hkept h
        · rw [removeComments_copy hquote hslash] at h
          exact hkept h

/-- What follows a comma that is taken out. -/
theorem closes_head {s : List Char} (h : closes s = true) :
    ∃ c rest, s = c :: rest ∧ (spaces.contains c = true ∨ c = '\x7d' ∨ c = ']') ∧ c ≠ '"' ∧ c ≠ ',' := by
  cases s with
  | nil => cases h
  | cons c rest =>
    refine ⟨c, rest, rfl, ?_⟩
    cases hspace : spaces.contains c with
    | true =>
      refine ⟨.inl rfl, ?_, ?_⟩ <;> rintro rfl <;> exact absurd hspace (by decide)
    | false =>
      unfold closes at h
      rw [List.dropWhile_cons_of_neg (by rw [hspace]; exact Bool.false_ne_true)] at h
      simp only [Bool.or_eq_true, beq_iff_eq] at h
      refine ⟨.inr h, ?_, ?_⟩ <;> rintro rfl <;> exact absurd h (by decide)

/-- The comma before a closing mark is the only character that the second pass takes from the front. -/
theorem head_removeCommas {p : Char → Bool} (hclose : p '\x7d' = false ∧ p ']' = false)
    (hblank : ∀ c, spaces.contains c = true → p c = false) {s : List Char} (hs : Head p s) :
    Head p (removeCommas false false s) := by
  cases s with
  | nil => exact hs
  | cons c rest =>
    rw [removeCommas]
    split
    · next hcond =>
      simp only [Bool.not_false, Bool.true_and, Bool.and_eq_true] at hcond
      obtain ⟨c', rest', rfl, hspace, hquote, hcomma⟩ := closes_head hcond.2
      rw [removeCommas_copy hquote hcomma]
      intro d hd
      obtain rfl := Option.some.inj hd
      rcases hspace with hspace | rfl | rfl
      · exact hblank _ hspace
      · exact hclose.1
      · exact hclose.2
    · intro d hd
      have hdc : d = c := by
        split at hd
        · cases ‹false = true›
        · split at hd <;> exact (Option.some.inj hd).symm
      rw [hdc]
      exact hs c rfl

theorem atomChar_ne {c : Char} (h : atomChar c = true) : c ≠ '"' ∧ c ≠ '/' ∧ c ≠ ',' := by
  refine ⟨?_, ?_, ?_⟩ <;> rintro rfl <;> exact absurd h (by decide)

/-- A word or number is copied by both passes. -/
theorem removeComments_atom {a : List Char} (ha : ∀ c ∈ a, atomChar c = true) (rest : List Char) :
    removeComments false false (a ++ rest) = (removeComments false false rest).map (a ++ ·) := by
  induction a with
  | nil =>
    rw [List.nil_append]
    cases removeComments false false rest <;> rfl
  | cons c a ih =>
    rw [List.forall_mem_cons] at ha
    obtain ⟨hquote, hslash, -⟩ := atomChar_ne ha.1
    rw [List.cons_append, removeComments_copy hquote hslash, ih ha.2]
    cases removeComments false false rest <;> rfl

theorem removeCommas_atom {a : List Char} (ha : ∀ c ∈ a, atomChar c = true) (rest : List Char) :
    removeCommas false false (a ++ rest) = a ++ removeCommas false false rest := by
  induction a with
  | nil => rfl
  | cons c a ih =>
    rw [List.forall_mem_cons] at ha
    obtain ⟨hquote, -, hcomma⟩ := atomChar_ne ha.1
    rw [List.cons_append, removeCommas_copy hquote hcomma, ih ha.2]
    rfl

theorem mem_takeWhile {s : List Char} : ∀ c ∈ s.takeWhile atomChar, atomChar c = true :=
  List.all_eq_true.mp List.all_takeWhile

/-- A word or number ends where it did when what follows does not begin with one of its characters. -/
theorem takeWhile_append {a o : List Char} (ha : ∀ c ∈ a, atomChar c = true) (ho : Head atomChar o) :
    (a ++ o).takeWhile atomChar = a ∧ (a ++ o).dropWhile atomChar = o := by
  induction a with
  | nil =>
    cases o with
    | nil => exact ⟨rfl, rfl⟩
    | cons c o =>
      have hc := ho c rfl
      exact ⟨List.takeWhile_cons_of_neg (by rw [hc]; exact Bool.false_ne_true),
        List.dropWhile_cons_of_neg (by rw [hc]; exact Bool.false_ne_true)⟩
  | cons c a ih =>
    rw [List.forall_mem_cons] at ha
    rw [List.cons_append, List.takeWhile_cons_of_pos ha.1, List.dropWhile_cons_of_pos ha.1, (ih ha.2).1,
      (ih ha.2).2]
    exact ⟨rfl, rfl⟩

/-- The kinds of a character outside of literals. -/
inductive Kind (c : Char) : Prop
  | blank (h : isBlank c = true) (hquote : c ≠ '"') (hslash : c ≠ '/') (hcomma : c ≠ ',')
  | quote (h : c = '"')
  | mark (t : Token) (h : punctuation c = some t) (hblank : isBlank c = false) (hquote : c ≠ '"')
    (hslash : c ≠ '/')
  | word (h : atomChar c = true) (hblank : isBlank c = false) (hmark : punctuation c = none)
  | slash (h : c = '/')
  | other (hblank : isBlank c = false) (hquote : c ≠ '"') (hmark : punctuation c = none)
    (hword : atomChar c = false) (hslash : c ≠ '/')

theorem kind (c : Char) : Kind c := by
  cases hblank : isBlank c with
  | true =>
    refine .blank hblank ?_ ?_ ?_ <;> rintro rfl <;> exact absurd hblank (by decide)
  | false =>
    by_cases hquote : c = '"'
    · exact .quote hquote
    · by_cases hslash : c = '/'
      · exact .slash hslash
      · cases hmark : punctuation c with
        | some t => exact .mark t hmark hblank hquote hslash
        | none =>
          cases hword : atomChar c with
          | true => exact .word hword hblank hmark
          | false => exact .other hblank hquote hmark hword hslash

section Steps

variable {comments : Bool} {c : Char} {rest : List Char}

theorem tokens_blank (h : isBlank c = true) : tokens comments (c :: rest) = tokens comments rest := by
  rw [tokens_cons, lexStep, if_pos h]
  change (tokens comments rest).map ([] ++ ·) = tokens comments rest
  cases tokens comments rest <;> rfl

theorem tokens_quote : tokens comments ('"' :: rest) =
    (readString rest).bind fun r => (tokens comments r.2).map (.string r.1 :: ·) := by
  rw [tokens_cons, lexStep, if_neg (by decide), if_pos rfl]
  cases readString rest <;> rfl

theorem tokens_mark {t : Token} (h : punctuation c = some t) (hblank : isBlank c = false)
    (hquote : c ≠ '"') : tokens comments (c :: rest) = (tokens comments rest).map (t :: ·) := by
  rw [tokens_cons, lexStep, if_neg (by rw [hblank]; exact Bool.false_ne_true), if_neg hquote, h]
  rfl

theorem tokens_word (h : atomChar c = true) (hblank : isBlank c = false) (hmark : punctuation c = none) :
    tokens comments (c :: rest) = (tokens comments (rest.dropWhile atomChar)).map
      (.atom (c :: rest.takeWhile atomChar) :: ·) := by
  rw [tokens_cons, lexStep, if_neg (by rw [hblank]; exact Bool.false_ne_true), if_neg (atomChar_ne h).1,
    hmark]
  simp only [h, if_true]
  rfl

theorem tokens_other (hblank : isBlank c = false) (hquote : c ≠ '"') (hmark : punctuation c = none)
    (hword : atomChar c = false) (hslash : c ≠ '/') : tokens comments (c :: rest) = none := by
  have hno : (comments && c == '/') = false := by simp [hslash]
  rw [tokens_cons, lexStep, if_neg (by rw [hblank]; exact Bool.false_ne_true), if_neg hquote, hmark]
  simp only [hword, hno, Bool.false_eq_true, if_false]
  rfl

theorem tokens_slash : tokens true ('/' :: rest) = (skipComment rest).bind (tokens true) := by
  rw [tokens_cons]
  have hstep : lexStep true '/' rest = (skipComment rest).map fun r => (none, r) := rfl
  rw [hstep]
  cases skipComment rest with
  | none => rfl
  | some r =>
    change (tokens true r).map ([] ++ ·) = tokens true r
    cases tokens true r <;> rfl

theorem tokens_plain_slash : tokens false ('/' :: rest) = none := by
  rw [tokens_cons]
  rfl

end Steps

/-- **The first pass leaves the tokens of the text**: it raises only where a comment has no end, and what
it returns has the tokens that the text has with its comments. -/
theorem tokens_removeComments (s : List Char) :
    (∀ e, removeComments false false s = .error e → tokens true s = none) ∧
      ∀ o, removeComments false false s = .ok o → tokens false o = tokens true s := by
  induction hn : s.length using Nat.strong_induction_on generalizing s with
  | _ n ih =>
    subst hn
    cases s with
    | nil =>
      rw [removeComments]
      refine ⟨fun e h => (by cases h), fun o h => ?_⟩
      obtain rfl := Except.ok.inj h
      rw [tokens, tokens]
    | cons c rest =>
      have hrest := ih rest.length (Nat.lt_succ_self _) rest rfl
      rcases kind c with ⟨hblank, hquote, hslash, -⟩ | rfl | ⟨t, hmark, hblank, hquote, hslash⟩ |
        ⟨hword, hblank, hmark⟩ | rfl | ⟨hblank, hquote, hmark, hword, hslash⟩
      · rw [removeComments_copy hquote hslash, tokens_blank hblank]
        refine ⟨fun e h => hrest.1 e (map_error h), fun o h => ?_⟩
        obtain ⟨o', ho', rfl⟩ := map_ok h
        rw [tokens_blank hblank]
        exact hrest.2 o' ho'
      · rw [removeComments_quote, tokens_quote]
        cases hread : readString rest with
        | none =>
          rw [removeComments_open hread]
          refine ⟨fun e h => (by cases h), fun o h => ?_⟩
          obtain rfl := Except.ok.inj h
          rw [tokens_quote, hread]
          rfl
        | some r =>
          obtain ⟨raw, after⟩ := r
          have hafter := ih after.length (Nat.lt_succ_of_lt (readString_length hread)) after rfl
          rw [removeComments_string hread]
          refine ⟨fun e h => ?_, fun o h => ?_⟩
          · rw [Option.bind_some, hafter.1 e (map_error (map_error h))]
            rfl
          · obtain ⟨o₁, ho₁, rfl⟩ := map_ok h
            obtain ⟨o₂, ho₂, rfl⟩ := map_ok ho₁
            rw [tokens_quote, readString_append hread, Option.bind_some, Option.bind_some, hafter.2 o₂ ho₂]
      · rw [removeComments_copy hquote hslash, tokens_mark hmark hblank hquote]
        refine ⟨fun e h => ?_, fun o h => ?_⟩
        · rw [hrest.1 e (map_error h)]
          rfl
        · obtain ⟨o', ho', rfl⟩ := map_ok h
          rw [tokens_mark hmark hblank hquote, hrest.2 o' ho']
      · have hlength := length_dropWhile_le (p := atomChar) rest
        have hafter := ih (rest.dropWhile atomChar).length (Nat.lt_succ_of_le hlength) _ rfl
        have hcopy : removeComments false false rest =
            (removeComments false false (rest.dropWhile atomChar)).map (rest.takeWhile atomChar ++ ·) := by
          conv_lhs => rw [← List.takeWhile_append_dropWhile (p := atomChar) (l := rest)]
          exact removeComments_atom mem_takeWhile _
        rw [removeComments_copy (atomChar_ne hword).1 (atomChar_ne hword).2.1, tokens_word hword hblank hmark,
          hcopy]
        refine ⟨fun e h => ?_, fun o h => ?_⟩
        · rw [hafter.1 e (map_error (map_error h))]
          rfl
        · obtain ⟨o₁, ho₁, rfl⟩ := map_ok h
          obtain ⟨o₂, ho₂, rfl⟩ := map_ok ho₁
          have hhead : Head atomChar o₂ :=
            head_removeComments (by decide) (by decide) (head_dropWhile (fun _ h => h) rest) ho₂
          obtain ⟨htake, hdrop⟩ := takeWhile_append (mem_takeWhile (s := rest)) hhead
          rw [tokens_word hword hblank hmark, htake, hdrop, hafter.2 o₂ ho₂]
      · rw [tokens_slash]
        by_cases hline : rest.head? = some '/'
        · obtain ⟨after, rfl⟩ := List.head?_eq_some_iff.mp hline
          have hlength := length_dropWhile_le (p := (· != '\n')) after
          have hafter := ih (after.dropWhile (· != '\n')).length
            (by simp only [List.length_cons]; omega) _ rfl
          rw [removeComments_line]
          exact hafter
        · by_cases hblock : rest.head? = some '*'
          · obtain ⟨comment, rfl⟩ := List.head?_eq_some_iff.mp hblock
            rw [removeComments_block, skipComment]
            cases hend : afterComment comment with
            | none => exact ⟨fun _ _ => rfl, fun o h => by cases h⟩
            | some after =>
              have hlength := afterComment_length hend
              have hafter := ih after.length (by simp only [List.length_cons]; omega) after rfl
              refine ⟨fun e h => hafter.1 e (map_error h), fun o h => ?_⟩
              obtain ⟨o', ho', rfl⟩ := map_ok h
              rw [tokens_blank (by decide)]
              exact hafter.2 o' ho'
          · have hnone : skipComment rest = none := by
              unfold skipComment
              split
              · exact absurd rfl hline
              · exact absurd rfl hblock
              · rfl
            rw [removeComments_slash hline hblock, hnone]
            refine ⟨fun _ _ => rfl, fun o h => ?_⟩
            obtain ⟨o', -, rfl⟩ := map_ok h
            exact tokens_plain_slash
      · rw [removeComments_copy hquote hslash, tokens_other hblank hquote hmark hword hslash]
        refine ⟨fun _ _ => rfl, fun o h => ?_⟩
        obtain ⟨o', -, rfl⟩ := map_ok h
        exact tokens_other hblank hquote hmark hword hslash

theorem blank_space {c : Char} (h : isBlank c = true) : spaces.contains c = true := by
  simp only [isBlank, Bool.or_eq_true, beq_iff_eq] at h
  rcases h with ((rfl | rfl) | rfl) | rfl <;> decide

/-- Whitespace of `lstrip` that JSON does not have is no token. -/
theorem space_tokens {c : Char} (h : spaces.contains c = true) (hblank : isBlank c = false)
    (rest : List Char) : tokens false (c :: rest) = none := by
  have hall : (spaces.all fun c =>
      isBlank c || (c != '"' && (punctuation c).isNone && !atomChar c && c != '/')) = true := by decide
  have hc := List.all_eq_true.mp hall c (by simpa using h)
  simp only [hblank, Bool.false_or, Bool.and_eq_true, bne_iff_ne, ne_eq, Option.isNone_iff_eq_none,
    Bool.not_eq_true'] at hc
  obtain ⟨⟨⟨hquote, hmark⟩, hword⟩, hslash⟩ := hc
  exact tokens_other hblank hquote hmark hword hslash

theorem space_word (c : Char) (h : spaces.contains c = true) : atomChar c = false := by
  have hall : (spaces.all fun c => !atomChar c) = true := by decide
  simpa using List.all_eq_true.mp hall c (by simpa using h)

theorem comma_of_punctuation {c : Char} (h : punctuation c = some .comma) : c = ',' := by
  unfold punctuation at h
  split at h <;> first | rfl | cases h

theorem closer_iff {c : Char} {t : Token} (h : punctuation c = some t) :
    (c == '\x7d' || c == ']') = true ↔ t.isCloser = true := by
  unfold punctuation at h
  split at h <;> first | (obtain rfl := Option.some.inj h; decide) | cases h

/-- The first token is a closing mark where the second pass sees one. -/
theorem closes_iff {s : List Char} {ts : List Token} (h : tokens false s = some ts) :
    closes s = true ↔ ∃ t, ts.head? = some t ∧ t.isCloser = true := by
  induction s generalizing ts with
  | nil =>
    rw [tokens] at h
    obtain rfl := Option.some.inj h
    constructor
    · intro h
      cases h
    · rintro ⟨_, ht, _⟩
      cases ht
  | cons c rest ih =>
    cases hblank : isBlank c with
    | true =>
      rw [tokens_blank hblank] at h
      rw [← ih h, closes, List.dropWhile_cons_of_pos (blank_space hblank)]
      rfl
    | false =>
      cases hspace : spaces.contains c with
      | true =>
        rw [space_tokens hspace hblank] at h
        cases h
      | false =>
        have hcloses : closes (c :: rest) = (c == '\x7d' || c == ']') := by
          rw [closes, List.dropWhile_cons_of_neg (by rw [hspace]; exact Bool.false_ne_true)]
        have hfirst : ∀ {t us}, ts = t :: us → ((∃ t', ts.head? = some t' ∧ t'.isCloser = true) ↔
            t.isCloser = true) := by
          rintro t us rfl
          simp
        rw [hcloses]
        rcases kind c with ⟨hb, -⟩ | rfl | ⟨t, hmark, -, hquote, -⟩ | ⟨hword, -, hmark⟩ | rfl |
          ⟨-, hquote, hmark, hword, hslash⟩
        · exact absurd (hblank.symm.trans hb) Bool.false_ne_true
        · rw [tokens_quote] at h
          obtain ⟨r, -, h⟩ := Option.bind_eq_some_iff.mp h
          obtain ⟨us, -, heq⟩ := Option.map_eq_some_iff.mp h
          rw [hfirst heq.symm]
          exact iff_of_false (by decide) Bool.false_ne_true
        · rw [tokens_mark hmark hblank hquote] at h
          obtain ⟨us, -, heq⟩ := Option.map_eq_some_iff.mp h
          rw [hfirst heq.symm]
          exact closer_iff hmark
        · rw [tokens_word hword hblank hmark] at h
          obtain ⟨us, -, heq⟩ := Option.map_eq_some_iff.mp h
          rw [hfirst heq.symm]
          refine iff_of_false ?_ Bool.false_ne_true
          simp only [Bool.or_eq_true, beq_iff_eq]
          rintro (rfl | rfl) <;> cases hmark
        · rw [tokens_plain_slash] at h
          cases h
        · rw [tokens_other hblank hquote hmark hword hslash] at h
          cases h

/-- **The second pass takes the trailing commas from the tokens.** -/
theorem tokens_removeCommas (s : List Char) :
    tokens false (removeCommas false false s) = (tokens false s).map dropTrailing := by
  induction hn : s.length using Nat.strong_induction_on generalizing s with
  | _ n ih =>
    subst hn
    cases s with
    | nil =>
      rw [removeCommas, tokens]
      rfl
    | cons c rest =>
      have hrest := ih rest.length (Nat.lt_succ_self _) rest rfl
      rcases kind c with ⟨hblank, hquote, -, hcomma⟩ | rfl | ⟨t, hmark, hblank, hquote, hslash⟩ |
        ⟨hword, hblank, hmark⟩ | rfl | ⟨hblank, hquote, hmark, hword, hslash⟩
      · rw [removeCommas_copy hquote hcomma, tokens_blank hblank, tokens_blank hblank, hrest]
      · have hstep : removeCommas false false ('"' :: rest) = '"' :: removeCommas true false rest := rfl
        rw [hstep, tokens_quote, tokens_quote]
        cases hread : readString rest with
        | none =>
          rw [removeCommas_open hread, hread]
          rfl
        | some r =>
          obtain ⟨raw, after⟩ := r
          have hafter := ih after.length (Nat.lt_succ_of_lt (readString_length hread)) after rfl
          rw [removeCommas_string hread, readString_append hread, Option.bind_some, Option.bind_some, hafter,
            Option.map_map, Option.map_map]
          rfl
      · by_cases hcomma : c = ','
        · subst hcomma
          obtain rfl : Token.comma = t := Option.some.inj hmark
          rw [tokens_mark hmark hblank hquote, Option.map_map]
          cases hcloses : closes rest with
          | true =>
            -- the comma goes, and the first token after it is the closing mark
            have hstep : removeCommas false false (',' :: rest) = removeCommas false false rest := by
              rw [removeCommas, hcloses]
              rfl
            rw [hstep, hrest]
            cases hts : tokens false rest with
            | none => rfl
            | some ts =>
              obtain ⟨mark, hhead, hmark⟩ := (closes_iff hts).mp hcloses
              obtain ⟨us, rfl⟩ := List.head?_eq_some_iff.mp hhead
              have hne : mark ≠ .comma := by
                rintro rfl
                cases hmark
              rw [Option.map_some, Option.map_some, Function.comp_apply, dropTrailing_closer hmark,
                dropTrailing_cons hne]
          | false =>
            have hstep : removeCommas false false (',' :: rest) = ',' :: removeCommas false false rest := by
              rw [removeCommas, hcloses]
              rfl
            rw [hstep, tokens_mark hmark hblank hquote, hrest, Option.map_map]
            cases hts : tokens false rest with
            | none => rfl
            | some ts =>
              rw [Option.map_some, Option.map_some, Function.comp_apply, Function.comp_apply,
                dropTrailing_comma]
              intro mark hhead
              by_contra hmark
              rw [(closes_iff hts).mpr ⟨mark, hhead, by simpa using hmark⟩] at hcloses
              cases hcloses
        · have hne : t ≠ .comma := by
            rintro rfl
            exact hcomma (comma_of_punctuation hmark)
          rw [removeCommas_copy hquote hcomma, tokens_mark hmark hblank hquote, tokens_mark hmark hblank hquote,
            hrest, Option.map_map, Option.map_map]
          congr 1
          funext ts
          exact (dropTrailing_cons hne ts).symm
      · have hlength := length_dropWhile_le (p := atomChar) rest
        have hafter := ih (rest.dropWhile atomChar).length (Nat.lt_succ_of_le hlength) _ rfl
        have hcopy : removeCommas false false rest =
            rest.takeWhile atomChar ++ removeCommas false false (rest.dropWhile atomChar) := by
          conv_lhs => rw [← List.takeWhile_append_dropWhile (p := atomChar) (l := rest)]
          exact removeCommas_atom mem_takeWhile _
        have hhead : Head atomChar (removeCommas false false (rest.dropWhile atomChar)) :=
          head_removeCommas (by decide) space_word (head_dropWhile (fun _ h => h) rest)
        obtain ⟨htake, hdrop⟩ := takeWhile_append (mem_takeWhile (s := rest)) hhead
        rw [removeCommas_copy (atomChar_ne hword).1 (atomChar_ne hword).2.2, hcopy,
          tokens_word hword hblank hmark, htake, hdrop, tokens_word hword hblank hmark, hafter, Option.map_map,
          Option.map_map]
        rfl
      · rw [tokens_plain_slash, removeCommas_copy (by decide) (by decide), tokens_plain_slash]
        rfl
      · have hcomma : c ≠ ',' := by
          rintro rfl
          cases hmark
        rw [removeCommas_copy hquote hcomma, tokens_other hblank hquote hmark hword hslash,
          tokens_other hblank hquote hmark hword hslash]
        rfl

/-! ## §D What is accepted -/

/-- The byte-order marks at the front of the text go through both passes. -/
theorem passes_bom (s : List Char) :
    (∀ e, removeComments false false s = .error e →
        ∃ e', removeComments false false (s.dropWhile (· == bom)) = .error e') ∧
      ∀ o, removeComments false false s = .ok o →
        ∃ o', removeComments false false (s.dropWhile (· == bom)) = .ok o' ∧
          (removeCommas false false o).dropWhile (· == bom) = removeCommas false false o' := by
  have hplain : ∀ {s : List Char}, Head (· == bom) s → s.dropWhile (· == bom) = s := by
    intro s hs
    cases s with
    | nil => rfl
    | cons c rest =>
      have hc : (c == bom) = false := hs c rfl
      rw [List.dropWhile_cons, hc]
      rfl
  have hdrop : ∀ rest : List Char, (bom :: rest).dropWhile (· == bom) = rest.dropWhile (· == bom) :=
    fun _ => rfl
  induction s with
  | nil =>
    refine ⟨fun e h => ⟨e, h⟩, fun o h => ⟨o, h, ?_⟩⟩
    rw [removeComments] at h
    obtain rfl := Except.ok.inj h
    rfl
  | cons c rest ih =>
    by_cases hbom : c = bom
    · subst hbom
      rw [hdrop, removeComments_copy (by decide) (by decide)]
      refine ⟨fun e h => ih.1 e (map_error h), fun o h => ?_⟩
      obtain ⟨o', ho', rfl⟩ := map_ok h
      obtain ⟨o₂, ho₂, heq⟩ := ih.2 o' ho'
      refine ⟨o₂, ho₂, ?_⟩
      rw [removeCommas_copy (by decide) (by decide), hdrop, heq]
    · have hhead : Head (· == bom) (c :: rest) := by
        intro d hd
        obtain rfl := Option.some.inj hd
        simpa using hbom
      rw [hplain hhead]
      refine ⟨fun e h => ⟨e, h⟩, fun o h => ⟨o, h, ?_⟩⟩
      refine hplain (head_removeCommas (by decide) ?_ (head_removeComments (by decide) (by decide) hhead h))
      have hall : (spaces.all fun c => !(c == bom)) = true := by decide
      intro c hc
      have hne := List.all_eq_true.mp hall c (by simpa using hc)
      rwa [Bool.not_eq_true'] at hne

section Jsonc

variable {α : Type} {interpret : Tree → Option α}

theorem loads_eq_ok {s : List Char} {v : α} : loads interpret s = .ok v ↔
    ∃ ts tree, tokens false s = some ts ∧ Value ⟨false, false, true⟩ ts tree [] ∧
      tree.isObject = true ∧ interpret tree = some v := by
  unfold loads
  constructor
  · intro h
    split at h
    · cases h
    · next tree htree =>
      obtain ⟨ts, hts, hparse⟩ := Option.bind_eq_some_iff.mp htree
      split at h
      · cases h
      · next value hvalue =>
        simp only [bind_eq_ok, refuse_eq_ok, Bool.not_eq_false', pure, Except.pure, Except.ok.injEq] at h
        obtain ⟨_, hobject, rfl⟩ := h
        exact ⟨ts, tree, hts, parse_iff.mp hparse, hobject, hvalue⟩
  · rintro ⟨ts, tree, hts, hvalue, hobject, hv⟩
    have hparse : (tokens false s).bind (parse true) = some tree := by
      rw [hts]
      exact parse_iff.mpr hvalue
    rw [hparse]
    simp only [hv, hobject]
    rfl

/-- **What `jsonc` accepts and returns.** A text is read, and as `v`, exactly when after its byte-order marks
its tokens, with comments between them, are an object with at most one comma before each closing mark, and
`v` is the value of that object; and so is the value of every text that has these tokens without the commas
and has no comments. -/
theorem jsonc_iff (interpret : Tree → Option α) (text : List Char) (v : α) :
    (jsonc interpret text = .ok v ↔
      ∃ ts tree, tokens true (text.dropWhile (· == bom)) = some ts ∧
        Value ⟨true, true, true⟩ ts tree [] ∧ tree.isObject = true ∧ interpret tree = some v) ∧
    ∀ (ts : List Token) (clean : List Char), tokens true (text.dropWhile (· == bom)) = some ts →
      tokens false clean = some (dropTrailing ts) →
      (jsonc interpret text = .ok v ↔ loads interpret clean = .ok v) := by
  have hiff : jsonc interpret text = .ok v ↔
      ∃ ts tree, tokens true (text.dropWhile (· == bom)) = some ts ∧
        Value ⟨true, true, true⟩ ts tree [] ∧ tree.isObject = true ∧ interpret tree = some v := by
    rw [jsonc, bind_eq_ok]
    constructor
    · rintro ⟨out, hout, h⟩
      obtain ⟨out', hout', heq⟩ := (passes_bom text).2 out hout
      rw [heq, loads_eq_ok] at h
      obtain ⟨us, tree, hus, hvalue, hobject, hv⟩ := h
      rw [tokens_removeCommas, (tokens_removeComments _).2 out' hout'] at hus
      obtain ⟨ts, hts, rfl⟩ := Option.map_eq_some_iff.mp hus
      exact ⟨ts, tree, hts, value_iff_dropTrailing.mpr hvalue, hobject, hv⟩
    · rintro ⟨ts, tree, hts, hvalue, hobject, hv⟩
      cases hout : removeComments false false text with
      | error e =>
        obtain ⟨e', he'⟩ := (passes_bom text).1 e hout
        rw [(tokens_removeComments _).1 e' he'] at hts
        cases hts
      | ok out =>
        obtain ⟨out', hout', heq⟩ := (passes_bom text).2 out hout
        refine ⟨out, rfl, ?_⟩
        rw [heq, loads_eq_ok]
        refine ⟨dropTrailing ts, tree, ?_, value_iff_dropTrailing.mp hvalue, hobject, hv⟩
        rw [tokens_removeCommas, (tokens_removeComments _).2 out' hout', hts]
        rfl
  refine ⟨hiff, fun ts clean hts hclean => ?_⟩
  rw [hiff, loads_eq_ok]
  constructor
  · rintro ⟨ts', tree, hts', hvalue, hobject, hv⟩
    obtain rfl := Option.some.inj (hts.symm.trans hts')
    exact ⟨dropTrailing ts, tree, hclean, value_iff_dropTrailing.mp hvalue, hobject, hv⟩
  · rintro ⟨us, tree, hus, hvalue, hobject, hv⟩
    obtain rfl := Option.some.inj (hclean.symm.trans hus)
    exact ⟨ts, tree, hts, value_iff_dropTrailing.mpr hvalue, hobject, hv⟩

end Jsonc

/-- A text with comments and trailing commas. -/
def commented : List Char :=
  "\x7b\"url\": \"http://a,]\", /* two */ \"items\": [1, 2,], // last\n\x7d".toList

/-- The same text without them. -/
def uncommented : List Char := "\x7b\"url\":\"http://a,]\",\"items\":[1,2]\x7d".toList

theorem commented_accepted : ∃ v, jsonc some commented = .ok v ∧ loads some uncommented = .ok v := by
  obtain ⟨v, hv⟩ : ∃ v, jsonc some commented = .ok v := by
    have hok : (jsonc some commented).isOk = true := by decide +kernel
    cases hread : jsonc some commented with
    | error e =>
      rw [hread] at hok
      cases hok
    | ok v => exact ⟨v, rfl⟩
  refine ⟨v, hv, ((jsonc_iff some commented v).2 ((tokens true commented).getD []) uncommented ?_ ?_).mp hv⟩
  · decide +kernel
  · decide +kernel

/-- JSON with comments in which a comma may follow the last element of an array or object: at most one
byte-order mark, and no other extension. -/
def Strict (text : List Char) : Prop :=
  ∃ ts tree, tokens true (if text.head? = some bom then text.tail else text) = some ts ∧
    Value ⟨false, true, false⟩ ts tree [] ∧ tree.isObject = true

/-- **More is accepted**: a comma in an empty array, a second byte-order mark, and `NaN`. -/
theorem extensions_accepted :
    ((jsonc some "\x7b\"a\":[,]\x7d".toList).isOk = true ∧ ¬Strict "\x7b\"a\":[,]\x7d".toList) ∧
      ((jsonc some (bom :: bom :: "\x7b\x7d".toList)).isOk = true ∧ ¬Strict (bom :: bom :: "\x7b\x7d".toList)) ∧
      (jsonc some "\x7b\"a\":NaN\x7d".toList).isOk = true ∧ ¬Strict "\x7b\"a\":NaN\x7d".toList := by
  refine ⟨⟨by decide +kernel, ?_⟩, ⟨by decide +kernel, ?_⟩, by decide +kernel, ?_⟩
  · rintro ⟨ts, tree, hts, hvalue, -⟩
    have htokens : tokens true "\x7b\"a\":[,]\x7d".toList = some
        [.openBrace, .string ['a'], .colon, .openBracket, .comma, .closeBracket, .closeBrace] := by
      decide +kernel
    obtain rfl := Option.some.inj (htokens.symm.trans hts)
    cases hvalue with
    | emptyObject h => cases h
    | object h =>
      have harray : ∀ {us v rest}, ¬Value ⟨false, true, false⟩ (.openBracket :: .comma :: us) v rest := by
        intro us v rest h
        cases h with
        | emptyArray h =>
          cases h with
          | trailing hfalse => cases hfalse
        | array h =>
          cases h with
          | last hv => cases hv
          | more hv => cases hv
      cases h with
      | last _ hv => exact harray hv
      | more _ hv => exact harray hv
  · rintro ⟨ts, tree, hts, -⟩
    have hnone : tokens true (bom :: "\x7b\x7d".toList) = none := by decide +kernel
    have hhead : (bom :: bom :: "\x7b\x7d".toList).head? = some bom := rfl
    rw [if_pos hhead, List.tail_cons, hnone] at hts
    cases hts
  · rintro ⟨ts, tree, hts, hvalue, -⟩
    have htokens : tokens true "\x7b\"a\":NaN\x7d".toList = some
        [.openBrace, .string ['a'], .colon, .atom "NaN".toList, .closeBrace] := by
      decide +kernel
    obtain rfl := Option.some.inj (htokens.symm.trans hts)
    cases hvalue with
    | emptyObject h => cases h
    | object h =>
      have hatom : ∀ {us v rest}, ¬Value ⟨false, true, false⟩ (.atom "NaN".toList :: us) v rest := by
        intro us v rest h
        cases h with
        | atom hvalid => exact absurd hvalid (by decide)
      cases h with
      | last _ hv => exact hatom hv
      | more _ hv => exact hatom hv

end OpencodeCloud.Catalog.ImportFormats
