/-
# OpencodeCloud.Library.JsonText -- JSON texts: tokens, grammar and parser

A text is read in two steps. `tokens` splits it: whitespace goes, and comments where they are allowed; what
stays are the punctuation marks, the string literals and the other literals with their spelling. `Value` is
the grammar over tokens, with a `Style` that says which extensions of JSON it has; a `Tree` keeps the
literals as they are spelled, so that what a value is made of them is a function of the tree.

`parse` is the parser for the grammar without trailing commas, and `value_iff_dropTrailing` connects the two
styles: a text with trailing commas is one without, once the commas before a closing mark are dropped.
-/
import Mathlib.Data.List.Basic
import Mathlib.Tactic.Common

namespace OpencodeCloud.Library.JsonText

/-! ## §A Tokens -/

inductive Token where
  | openBrace | closeBrace | openBracket | closeBracket | comma | colon
  /-- a string literal, without its quotes -/
  | string (raw : List Char)
  /-- a number or a word -/
  | atom (raw : List Char)
  deriving DecidableEq

/-- The whitespace of JSON. -/
def isBlank (c : Char) : Bool := c == ' ' || c == '\t' || c == '\n' || c == '\r'

/-- A character that a number or a word can have. -/
def atomChar (c : Char) : Bool := c.isAlphanum || c == '+' || c == '-' || c == '.'

def punctuation : Char → Option Token
  | '\x7b' => some .openBrace
  | '\x7d' => some .closeBrace
  | '[' => some .openBracket
  | ']' => some .closeBracket
  | ',' => some .comma
  | ':' => some .colon
  | _ => none

/-- The literal up to its closing quote, and what follows the quote. -/
def readString : List Char → Option (List Char × List Char)
  | [] => none
  | '"' :: rest => some ([], rest)
  | '\\' :: c :: rest => (readString rest).map fun r => ('\\' :: c :: r.1, r.2)
  | c :: rest => (readString rest).map fun r => (c :: r.1, r.2)

/-- What follows the end of a block comment. -/
def afterComment : List Char → Option (List Char)
  | [] => none
  | '*' :: '/' :: rest => some rest
  | _ :: rest => afterComment rest

theorem readString_plain {c : Char} (hquote : c ≠ '"') (hescape : c ≠ '\\') (s : List Char) :
    readString (c :: s) = (readString s).map fun r => (c :: r.1, r.2) := by
  rw [readString.eq_4]
  · exact fun h => hquote h
  · exact fun _ _ h => absurd h hescape

theorem readString_length {s raw rest : List Char} (h : readString s = some (raw, rest)) :
    rest.length < s.length := by
  fun_induction readString s generalizing raw with
  | case1 => cases h
  | case2 rest' =>
    obtain ⟨-, rfl⟩ := Prod.mk.inj (Option.some.inj h)
    exact Nat.lt_succ_self _
  | case3 c rest' ih =>
    obtain ⟨r, hr, heq⟩ := Option.map_eq_some_iff.mp h
    obtain ⟨-, rfl⟩ := Prod.mk.inj heq
    have := ih hr
    simp only [List.length_cons]
    omega
  | case4 c rest' _ _ ih =>
    obtain ⟨r, hr, heq⟩ := Option.map_eq_some_iff.mp h
    obtain ⟨-, rfl⟩ := Prod.mk.inj heq
    have := ih hr
    simp only [List.length_cons]
    omega

theorem afterComment_length {s rest : List Char} (h : afterComment s = some rest) :
    rest.length < s.length := by
  fun_induction afterComment s with
  | case1 => cases h
  | case2 rest' =>
    obtain rfl := Option.some.inj h
    simp only [List.length_cons]
    omega
  | case3 c rest' _ ih =>
    have := ih h
    simp only [List.length_cons]
    omega

theorem length_dropWhile_le {p : Char → Bool} (s : List Char) : (s.dropWhile p).length ≤ s.length :=
  (List.dropWhile_sublist p).length_le

/-- What follows a comment, after its first slash. -/
def skipComment : List Char → Option (List Char)
  | '/' :: rest => some (rest.dropWhile (· != '\n'))
  | '*' :: rest => afterComment rest
  | _ => none

theorem skipComment_length {s rest : List Char} (h : skipComment s = some rest) :
    rest.length < s.length := by
  unfold skipComment at h
  split at h
  · next rest' =>
    obtain rfl := Option.some.inj h
    have := length_dropWhile_le (p := (· != '\n')) rest'
    simp only [List.length_cons]
    omega
  · next rest' =>
    have := afterComment_length h
    simp only [List.length_cons]
    omega
  · cases h

/-- One step of the lexer from a character on: a token or nothing, and what follows. -/
def lexStep (comments : Bool) (c : Char) (rest : List Char) : Option (Option Token × List Char) :=
  if isBlank c then some (none, rest)
  else if c = '"' then (readString rest).map fun r => (some (.string r.1), r.2)
  else
    match punctuation c with
    | some t => some (some t, rest)
    | none =>
      if atomChar c then some (some (.atom (c :: rest.takeWhile atomChar)), rest.dropWhile atomChar)
      else if comments && c == '/' then (skipComment rest).map fun r => (none, r)
      else none

theorem lexStep_length {comments : Bool} {c : Char} {rest rest' : List Char} {t : Option Token}
    (h : lexStep comments c rest = some (t, rest')) : rest'.length < (c :: rest).length := by
  rw [List.length_cons, Nat.lt_succ_iff]
  unfold lexStep at h
  split at h
  · obtain ⟨-, rfl⟩ := Prod.mk.inj (Option.some.inj h)
    exact Nat.le_refl _
  · split at h
    · obtain ⟨r, hr, heq⟩ := Option.map_eq_some_iff.mp h
      obtain ⟨-, rfl⟩ := Prod.mk.inj heq
      exact Nat.le_of_lt (readString_length hr)
    · split at h
      · obtain ⟨-, rfl⟩ := Prod.mk.inj (Option.some.inj h)
        exact Nat.le_refl _
      · split at h
        · obtain ⟨-, rfl⟩ := Prod.mk.inj (Option.some.inj h)
          exact length_dropWhile_le rest
        · split at h
          · obtain ⟨r, hr, heq⟩ := Option.map_eq_some_iff.mp h
            obtain ⟨-, rfl⟩ := Prod.mk.inj heq
            exact Nat.le_of_lt (skipComment_length hr)
          · cases h

/-- The tokens of a text; with comments, these are skipped like whitespace. -/
def tokens (comments : Bool) : List Char → Option (List Token)
  | [] => some []
  | c :: rest =>
    match _h : lexStep comments c rest with
    | none => none
    | some (t, rest') => (tokens comments rest').map (t.toList ++ ·)
termination_by s => s.length
decreasing_by exact lexStep_length _h

theorem tokens_cons (comments : Bool) (c : Char) (rest : List Char) : tokens comments (c :: rest) =
    (lexStep comments c rest).bind fun r => (tokens comments r.2).map (r.1.toList ++ ·) := by
  rw [tokens]
  split
  · next h =>
    rw [h]
    rfl
  · next t rest' h =>
    rw [h]
    rfl

/-! ## §B The grammar -/

def isHex (c : Char) : Bool :=
  c.isDigit || ('a' ≤ c && c ≤ 'f') || ('A' ≤ c && c ≤ 'F')

/-- The spelling of a string: no control characters, and the escapes of JSON. -/
def validString : List Char → Bool
  | [] => true
  | '\\' :: 'u' :: a :: b :: c :: d :: rest => isHex a && isHex b && isHex c && isHex d && validString rest
  | '\\' :: c :: rest => "\"\\/bfnrt".toList.contains c && validString rest
  | ['\\'] => false
  | c :: rest => decide (0x20 ≤ c.toNat) && validString rest

/-- `([eE][-+]?[0-9]+)?` -/
def exponent : List Char → Bool
  | [] => true
  | e :: rest =>
    let digits := match rest with
      | '+' :: rest => rest
      | '-' :: rest => rest
      | rest => rest
    (e == 'e' || e == 'E') && !digits.isEmpty && digits.all Char.isDigit

/-- `(\.[0-9]+)?([eE][-+]?[0-9]+)?` -/
def fraction : List Char → Bool
  | '.' :: d :: rest => d.isDigit && exponent (rest.dropWhile Char.isDigit)
  | rest => exponent rest

/-- `-?(0|[1-9][0-9]*)(\.[0-9]+)?([eE][-+]?[0-9]+)?` -/
def isNumber (raw : List Char) : Bool :=
  let unsigned := match raw with
    | '-' :: rest => rest
    | rest => rest
  match unsigned with
  | '0' :: rest => fraction rest
  | d :: rest => d.isDigit && fraction (rest.dropWhile Char.isDigit)
  | [] => false

/-- What a kind of text has beyond JSON. -/
structure Style where
  /-- a comma before the mark that closes an empty array or object -/
  inEmpty : Bool
  /-- a comma after the last element of an array or object -/
  afterLast : Bool
  /-- the numbers `NaN`, `Infinity` and `-Infinity` -/
  constants : Bool

/-- The spelling of a word or number. -/
def validAtom (constants : Bool) (raw : List Char) : Bool :=
  ["null".toList, "true".toList, "false".toList].contains raw || isNumber raw ||
    constants && ["NaN".toList, "Infinity".toList, "-Infinity".toList].contains raw

/-- The syntax of a value, with its literals as they are spelled. -/
inductive Tree where
  | string (raw : List Char)
  | atom (raw : List Char)
  | array (items : List Tree)
  | object (members : List (List Char × Tree))

def Tree.isObject : Tree → Bool
  | .object _ => true
  | _ => false

/-- A closing mark, with a comma before it when that is allowed. -/
inductive Close (comma : Bool) (mark : Token) : List Token → List Token → Prop
  | plain {rest : List Token} : Close comma mark (mark :: rest) rest
  | trailing {rest : List Token} (h : comma = true) : Close comma mark (.comma :: mark :: rest) rest

mutual

/-- The tokens begin with a value, and what follows it. -/
inductive Value (style : Style) : List Token → Tree → List Token → Prop
  | string {raw : List Char} {rest : List Token} (h : validString raw = true) :
    Value style (.string raw :: rest) (.string raw) rest
  | atom {raw : List Char} {rest : List Token} (h : validAtom style.constants raw = true) :
    Value style (.atom raw :: rest) (.atom raw) rest
  | emptyArray {ts rest : List Token} (h : Close style.inEmpty .closeBracket ts rest) :
    Value style (.openBracket :: ts) (.array []) rest
  | array {ts rest : List Token} {items : List Tree} (h : Elements style ts items rest) :
    Value style (.openBracket :: ts) (.array items) rest
  | emptyObject {ts rest : List Token} (h : Close style.inEmpty .closeBrace ts rest) :
    Value style (.openBrace :: ts) (.object []) rest
  | object {ts rest : List Token} {members : List (List Char × Tree)} (h : Members style ts members rest) :
    Value style (.openBrace :: ts) (.object members) rest

/-- The elements of an array up to its closing mark. -/
inductive Elements (style : Style) : List Token → List Tree → List Token → Prop
  | last {ts us rest : List Token} {v : Tree} (hv : Value style ts v us)
    (hclose : Close style.afterLast .closeBracket us rest) : Elements style ts [v] rest
  | more {ts us rest : List Token} {v : Tree} {vs : List Tree} (hv : Value style ts v (.comma :: us))
    (hvs : Elements style us vs rest) : Elements style ts (v :: vs) rest

/-- The members of an object up to its closing mark. -/
inductive Members (style : Style) : List Token → List (List Char × Tree) → List Token → Prop
  | last {ts us rest : List Token} {key : List Char} {v : Tree} (hkey : validString key = true)
    (hv : Value style ts v us) (hclose : Close style.afterLast .closeBrace us rest) :
    Members style (.string key :: .colon :: ts) [(key, v)] rest
  | more {ts us rest : List Token} {key : List Char} {v : Tree} {members : List (List Char × Tree)}
    (hkey : validString key = true) (hv : Value style ts v (.comma :: us))
    (hmembers : Members style us members rest) :
    Members style (.string key :: .colon :: ts) ((key, v) :: members) rest

end

/-! ## §C Trailing commas -/

def Token.isCloser : Token → Bool
  | .closeBrace => true
  | .closeBracket => true
  | _ => false

/-- The tokens without the commas that stand before a closing mark. -/
def dropTrailing : List Token → List Token
  | .comma :: t :: rest => if t.isCloser then dropTrailing (t :: rest) else .comma :: dropTrailing (t :: rest)
  | t :: rest => t :: dropTrailing rest
  | [] => []

theorem dropTrailing_cons {t : Token} (h : t ≠ .comma) (rest : List Token) :
    dropTrailing (t :: rest) = t :: dropTrailing rest := by
  cases t <;> first | rfl | exact absurd rfl h

theorem dropTrailing_ne_nil (t : Token) (rest : List Token) : dropTrailing (t :: rest) ≠ [] := by
  induction rest generalizing t with
  | nil => cases t <;> nofun
  | cons t' rest ih =>
    by_cases hcomma : t = .comma
    · subst hcomma
      unfold dropTrailing
      split
      · exact ih t'
      · nofun
    · rw [dropTrailing_cons hcomma]
      nofun

theorem dropTrailing_comma {ts : List Token} (h : ∀ t, ts.head? = some t → t.isCloser = false) :
    dropTrailing (.comma :: ts) = .comma :: dropTrailing ts := by
  cases ts with
  | nil => rfl
  | cons t rest => rw [dropTrailing, h t rfl, if_neg Bool.false_ne_true]

theorem dropTrailing_closer {t : Token} (h : t.isCloser = true) (rest : List Token) :
    dropTrailing (.comma :: t :: rest) = t :: dropTrailing rest := by
  rw [dropTrailing, if_pos h]
  exact dropTrailing_cons (by rintro rfl; cases h) rest

section Styles

variable {constants : Bool}

/-- No value begins with a closing mark. -/
theorem Value.head {style : Style} {ts rest : List Token} {v : Tree} (h : Value style ts v rest) :
    ∀ t, ts.head? = some t → t.isCloser = false := by
  intro t ht
  cases h <;> obtain rfl := Option.some.inj ht <;> rfl

theorem Elements.head {style : Style} {ts rest : List Token} {vs : List Tree}
    (h : Elements style ts vs rest) : ∀ t, ts.head? = some t → t.isCloser = false := by
  cases h with
  | last hv => exact hv.head
  | more hv => exact hv.head

theorem Members.head {style : Style} {ts rest : List Token} {ms : List (List Char × Tree)}
    (h : Members style ts ms rest) : ∀ t, ts.head? = some t → t.isCloser = false := by
  intro t ht
  cases h <;> obtain rfl := Option.some.inj ht <;> rfl

theorem Close.dropTrailing {mark : Token} (hmark : mark.isCloser = true) {ts rest : List Token}
    (h : Close true mark ts rest) : Close false mark (dropTrailing ts) (dropTrailing rest) := by
  have hne : mark ≠ .comma := by
    rintro rfl
    cases hmark
  cases h with
  | plain =>
    rw [dropTrailing_cons hne]
    exact .plain
  | trailing =>
    rw [dropTrailing_closer hmark]
    exact .plain

mutual

theorem Value.dropTrailing : ∀ {ts rest : List Token} {v : Tree}, Value ⟨true, true, constants⟩ ts v rest →
    Value ⟨false, false, constants⟩ (dropTrailing ts) v (dropTrailing rest)
  | _, _, _, .string h => .string h
  | _, _, _, .atom h => .atom h
  | _, _, _, .emptyArray h => .emptyArray (h.dropTrailing rfl)
  | _, _, _, .array h => .array h.dropTrailing
  | _, _, _, .emptyObject h => .emptyObject (h.dropTrailing rfl)
  | _, _, _, .object h => .object h.dropTrailing

theorem Elements.dropTrailing : ∀ {ts rest : List Token} {vs : List Tree},
    Elements ⟨true, true, constants⟩ ts vs rest →
    Elements ⟨false, false, constants⟩ (dropTrailing ts) vs (dropTrailing rest)
  | _, _, _, .last hv hclose => .last hv.dropTrailing (hclose.dropTrailing rfl)
  | _, _, _, .more hv hvs => by
    have hvalue := hv.dropTrailing
    rw [dropTrailing_comma hvs.head] at hvalue
    exact .more hvalue hvs.dropTrailing

theorem Members.dropTrailing : ∀ {ts rest : List Token} {ms : List (List Char × Tree)},
    Members ⟨true, true, constants⟩ ts ms rest →
    Members ⟨false, false, constants⟩ (dropTrailing ts) ms (dropTrailing rest)
  | _, _, _, .last hkey hv hclose => .last hkey hv.dropTrailing (hclose.dropTrailing rfl)
  | _, _, _, .more hkey hv hms => by
    have hvalue := hv.dropTrailing
    rw [dropTrailing_comma hms.head] at hvalue
    exact .more hkey hvalue hms.dropTrailing

end

/-- What a token that is no closing mark and no comma was made of. -/
theorem dropTrailing_eq_cons {ts us : List Token} {t : Token} (h : dropTrailing ts = t :: us)
    (hcloser : t.isCloser = false) : ∃ rest, ts = t :: rest ∧ dropTrailing rest = us := by
  cases ts with
  | nil => cases h
  | cons t' rest =>
    by_cases hcomma : t' = .comma
    · subst hcomma
      cases rest with
      | nil =>
        obtain ⟨rfl, rfl⟩ := List.cons.inj h
        exact ⟨[], rfl, rfl⟩
      | cons mark rest =>
        cases hmark : mark.isCloser with
        | true =>
          -- the comma is dropped, and the closing mark comes first
          rw [dropTrailing_closer hmark] at h
          obtain ⟨rfl, -⟩ := List.cons.inj h
          exact absurd (hmark.symm.trans hcloser) nofun
        | false =>
          rw [dropTrailing, hmark, if_neg Bool.false_ne_true] at h
          obtain ⟨rfl, rfl⟩ := List.cons.inj h
          exact ⟨_, rfl, rfl⟩
    · rw [dropTrailing_cons hcomma] at h
      obtain ⟨rfl, rfl⟩ := List.cons.inj h
      exact ⟨rest, rfl, rfl⟩

/-- What a closing mark was made of: a comma may have stood before it. -/
theorem close_of_dropTrailing {ts us : List Token} {mark : Token} (hmark : mark.isCloser = true)
    (h : Close false mark (dropTrailing ts) us) : ∃ rest, us = dropTrailing rest ∧ Close true mark ts rest := by
  have hne : mark ≠ .comma := by
    rintro rfl
    cases hmark
  have heq : dropTrailing ts = mark :: us := by
    generalize dropTrailing ts = ws at h
    cases h with
    | plain => rfl
    | trailing hfalse => cases hfalse
  cases ts with
  | nil => cases heq
  | cons t rest =>
    by_cases hcomma : t = .comma
    · subst hcomma
      cases rest with
      | nil =>
        obtain ⟨rfl, -⟩ := List.cons.inj heq
        exact absurd rfl hne
      | cons mark' rest =>
        cases hmark' : mark'.isCloser with
        | true =>
          rw [dropTrailing_closer hmark'] at heq
          obtain ⟨rfl, rfl⟩ := List.cons.inj heq
          exact ⟨rest, rfl, .trailing rfl⟩
        | false =>
          rw [dropTrailing, hmark', if_neg Bool.false_ne_true] at heq
          obtain ⟨rfl, -⟩ := List.cons.inj heq
          exact absurd rfl hne
    · rw [dropTrailing_cons hcomma] at heq
      obtain ⟨rfl, rfl⟩ := List.cons.inj heq
      exact ⟨rest, rfl, .plain⟩

mutual

theorem value_of_dropTrailing : ∀ {us rest' : List Token} {v : Tree}, Value ⟨false, false, constants⟩ us v rest' →
    ∀ ts, us = dropTrailing ts → ∃ rest, rest' = dropTrailing rest ∧ Value ⟨true, true, constants⟩ ts v rest
  | _, _, _, .string h, ts, heq => by
    obtain ⟨rest, rfl, hrest⟩ := dropTrailing_eq_cons heq.symm rfl
    exact ⟨rest, hrest.symm, .string h⟩
  | _, _, _, .atom h, ts, heq => by
    obtain ⟨rest, rfl, hrest⟩ := dropTrailing_eq_cons heq.symm rfl
    exact ⟨rest, hrest.symm, .atom h⟩
  | _, _, _, .emptyArray h, ts, heq => by
    obtain ⟨us, rfl, rfl⟩ := dropTrailing_eq_cons heq.symm rfl
    obtain ⟨rest, hrest, hclose⟩ := close_of_dropTrailing rfl h
    exact ⟨rest, hrest, .emptyArray hclose⟩
  | _, _, _, .array h, ts, heq => by
    obtain ⟨us, rfl, hus⟩ := dropTrailing_eq_cons heq.symm rfl
    obtain ⟨rest, hrest, helements⟩ := elements_of_dropTrailing h us hus.symm
    exact ⟨rest, hrest, .array helements⟩
  | _, _, _, .emptyObject h, ts, heq => by
    obtain ⟨us, rfl, rfl⟩ := dropTrailing_eq_cons heq.symm rfl
    obtain ⟨rest, hrest, hclose⟩ := close_of_dropTrailing rfl h
    exact ⟨rest, hrest, .emptyObject hclose⟩
  | _, _, _, .object h, ts, heq => by
    obtain ⟨us, rfl, hus⟩ := dropTrailing_eq_cons heq.symm rfl
    obtain ⟨rest, hrest, hmembers⟩ := members_of_dropTrailing h us hus.symm
    exact ⟨rest, hrest, .object hmembers⟩

theorem elements_of_dropTrailing : ∀ {us rest' : List Token} {vs : List Tree},
    Elements ⟨false, false, constants⟩ us vs rest' →
    ∀ ts, us = dropTrailing ts → ∃ rest, rest' = dropTrailing rest ∧ Elements ⟨true, true, constants⟩ ts vs rest
  | _, _, _, .last hv hclose, ts, heq => by
    obtain ⟨us, rfl, hvalue⟩ := value_of_dropTrailing hv ts heq
    obtain ⟨rest, hrest, hclose'⟩ := close_of_dropTrailing rfl hclose
    exact ⟨rest, hrest, .last hvalue hclose'⟩
  | _, _, _, .more hv hvs, ts, heq => by
    obtain ⟨us, hus, hvalue⟩ := value_of_dropTrailing hv ts heq
    obtain ⟨us', rfl, hus'⟩ := dropTrailing_eq_cons hus.symm rfl
    obtain ⟨rest, hrest, helements⟩ := elements_of_dropTrailing hvs us' hus'.symm
    exact ⟨rest, hrest, .more hvalue helements⟩

theorem members_of_dropTrailing : ∀ {us rest' : List Token} {ms : List (List Char × Tree)},
    Members ⟨false, false, constants⟩ us ms rest' →
    ∀ ts, us = dropTrailing ts → ∃ rest, rest' = dropTrailing rest ∧ Members ⟨true, true, constants⟩ ts ms rest
  | _, _, _, .last hkey hv hclose, ts, heq => by
    obtain ⟨us₁, rfl, hus₁⟩ := dropTrailing_eq_cons heq.symm rfl
    obtain ⟨us₂, rfl, hus₂⟩ := dropTrailing_eq_cons hus₁ rfl
    obtain ⟨us, rfl, hvalue⟩ := value_of_dropTrailing hv us₂ hus₂.symm
    obtain ⟨rest, hrest, hclose'⟩ := close_of_dropTrailing rfl hclose
    exact ⟨rest, hrest, .last hkey hvalue hclose'⟩
  | _, _, _, .more hkey hv hms, ts, heq => by
    obtain ⟨us₁, rfl, hus₁⟩ := dropTrailing_eq_cons heq.symm rfl
    obtain ⟨us₂, rfl, hus₂⟩ := dropTrailing_eq_cons hus₁ rfl
    obtain ⟨us, hus, hvalue⟩ := value_of_dropTrailing hv us₂ hus₂.symm
    obtain ⟨us', rfl, hus'⟩ := dropTrailing_eq_cons hus.symm rfl
    obtain ⟨rest, hrest, hmembers⟩ := members_of_dropTrailing hms us' hus'.symm
    exact ⟨rest, hrest, .more hkey hvalue hmembers⟩

end

end Styles

/-- **Trailing commas are dropped**: the tokens are a value with commas before closing marks exactly when
they are one of JSON without these. -/
theorem value_iff_dropTrailing {constants : Bool} {ts : List Token} {v : Tree} :
    Value ⟨true, true, constants⟩ ts v [] ↔ Value ⟨false, false, constants⟩ (dropTrailing ts) v [] := by
  constructor
  · intro h
    exact h.dropTrailing
  · intro h
    obtain ⟨rest, hrest, hvalue⟩ := value_of_dropTrailing h ts rfl
    cases rest with
    | nil => exact hvalue
    | cons t rest => exact absurd hrest.symm (dropTrailing_ne_nil t rest)

/-! ## §D The parser -/

mutual

/-- A value at the beginning of the tokens; the first argument bounds the steps. -/
def parseValue (constants : Bool) : Nat → List Token → Option (Tree × List Token)
  | 0, _ => none
  | n + 1, ts =>
    match ts with
    | .string raw :: rest => if validString raw then some (.string raw, rest) else none
    | .atom raw :: rest => if validAtom constants raw then some (.atom raw, rest) else none
    | .openBracket :: .closeBracket :: rest => some (.array [], rest)
    | .openBracket :: rest => (parseElements constants n rest).map fun r => (.array r.1, r.2)
    | .openBrace :: .closeBrace :: rest => some (.object [], rest)
    | .openBrace :: rest => (parseMembers constants n rest).map fun r => (.object r.1, r.2)
    | _ => none

/-- The elements of an array. -/
def parseElements (constants : Bool) : Nat → List Token → Option (List Tree × List Token)
  | 0, _ => none
  | n + 1, ts =>
    match parseValue constants n ts with
    | some (v, .comma :: rest) => (parseElements constants n rest).map fun r => (v :: r.1, r.2)
    | some (v, .closeBracket :: rest) => some ([v], rest)
    | _ => none

/-- The members of an object. -/
def parseMembers (constants : Bool) : Nat → List Token → Option (List (List Char × Tree) × List Token)
  | 0, _ => none
  | n + 1, ts =>
    match ts with
    | .string key :: .colon :: ts =>
      if validString key then
        match parseValue constants n ts with
        | some (v, .comma :: rest) => (parseMembers constants n rest).map fun r => ((key, v) :: r.1, r.2)
        | some (v, .closeBrace :: rest) => some ([(key, v)], rest)
        | _ => none
      else none
    | _ => none

end

/-- A value that the tokens are as a whole. -/
def parse (constants : Bool) (ts : List Token) : Option Tree :=
  match parseValue constants (2 * ts.length) ts with
  | some (v, []) => some v
  | _ => none

section Parser

variable {constants : Bool}

theorem parse_sound (n : Nat) :
    (∀ {ts rest : List Token} {v : Tree}, parseValue constants n ts = some (v, rest) →
      Value ⟨false, false, constants⟩ ts v rest) ∧
    (∀ {ts rest : List Token} {vs : List Tree}, parseElements constants n ts = some (vs, rest) →
      Elements ⟨false, false, constants⟩ ts vs rest) ∧
    ∀ {ts rest : List Token} {ms : List (List Char × Tree)}, parseMembers constants n ts = some (ms, rest) →
      Members ⟨false, false, constants⟩ ts ms rest := by
  induction n with
  | zero => exact ⟨nofun, nofun, nofun⟩
  | succ n ih =>
    obtain ⟨hvalue, helements, hmembers⟩ := ih
    refine ⟨fun {ts rest v} h => ?_, fun {ts rest vs} h => ?_, fun {ts rest ms} h => ?_⟩
    · unfold parseValue at h
      split at h
      · split at h
        · next hvalid =>
          obtain ⟨rfl, rfl⟩ := Prod.mk.inj (Option.some.inj h)
          exact .string hvalid
        · cases h
      · split at h
        · next hvalid =>
          obtain ⟨rfl, rfl⟩ := Prod.mk.inj (Option.some.inj h)
          exact .atom hvalid
        · cases h
      · obtain ⟨rfl, rfl⟩ := Prod.mk.inj (Option.some.inj h)
        exact .emptyArray .plain
      · obtain ⟨r, hr, heq⟩ := Option.map_eq_some_iff.mp h
        obtain ⟨rfl, rfl⟩ := Prod.mk.inj heq
        exact .array (helements hr)
      · obtain ⟨rfl, rfl⟩ := Prod.mk.inj (Option.some.inj h)
        exact .emptyObject .plain
      · obtain ⟨r, hr, heq⟩ := Option.map_eq_some_iff.mp h
        obtain ⟨rfl, rfl⟩ := Prod.mk.inj heq
        exact .object (hmembers hr)
      · cases h
    · unfold parseElements at h
      split at h
      · next hv =>
        obtain ⟨r, hr, heq⟩ := Option.map_eq_some_iff.mp h
        obtain ⟨rfl, rfl⟩ := Prod.mk.inj heq
        exact .more (hvalue hv) (helements hr)
      · next hv =>
        obtain ⟨rfl, rfl⟩ := Prod.mk.inj (Option.some.inj h)
        exact .last (hvalue hv) .plain
      · cases h
    · unfold parseMembers at h
      split at h
      · split at h
        · next hkey =>
          split at h
          · next hv =>
            obtain ⟨r, hr, heq⟩ := Option.map_eq_some_iff.mp h
            obtain ⟨rfl, rfl⟩ := Prod.mk.inj heq
            exact .more hkey (hvalue hv) (hmembers hr)
          · next hv =>
            obtain ⟨rfl, rfl⟩ := Prod.mk.inj (Option.some.inj h)
            exact .last hkey (hvalue hv) .plain
          · cases h
        · cases h
      · cases h

theorem Close.length {comma : Bool} {mark : Token} {ts rest : List Token} (h : Close comma mark ts rest) :
    rest.length < ts.length := by
  cases h <;> simp only [List.length_cons] <;> omega

mutual

theorem Value.length {style : Style} : ∀ {ts rest : List Token} {v : Tree}, Value style ts v rest →
    rest.length < ts.length
  | _, _, _, .string _ => Nat.lt_succ_self _
  | _, _, _, .atom _ => Nat.lt_succ_self _
  | _, _, _, .emptyArray h => Nat.lt_succ_of_lt h.length
  | _, _, _, .array h => Nat.lt_succ_of_lt h.length
  | _, _, _, .emptyObject h => Nat.lt_succ_of_lt h.length
  | _, _, _, .object h => Nat.lt_succ_of_lt h.length

theorem Elements.length {style : Style} : ∀ {ts rest : List Token} {vs : List Tree},
    Elements style ts vs rest → rest.length < ts.length
  | _, _, _, .last hv hclose => Nat.lt_trans hclose.length hv.length
  | _, _, _, .more hv hvs => Nat.lt_trans hvs.length (Nat.lt_trans (Nat.lt_succ_self _) hv.length)

theorem Members.length {style : Style} : ∀ {ts rest : List Token} {ms : List (List Char × Tree)},
    Members style ts ms rest → rest.length < ts.length
  | _, _, _, .last _ hv hclose =>
    Nat.lt_succ_of_lt (Nat.lt_succ_of_lt (Nat.lt_trans hclose.length hv.length))
  | _, _, _, .more _ hv hms =>
    Nat.lt_succ_of_lt (Nat.lt_succ_of_lt
      (Nat.lt_trans hms.length (Nat.lt_trans (Nat.lt_succ_self _) hv.length)))

end

theorem parseValue_bracket {ts : List Token} (h : ∀ t, ts.head? = some t → t.isCloser = false) {n : Nat} :
    parseValue constants (n + 1) (.openBracket :: ts) =
      (parseElements constants n ts).map fun r => (.array r.1, r.2) := by
  cases ts with
  | nil => rfl
  | cons t rest =>
    cases t with
    | closeBracket => exact absurd (h _ rfl) nofun
    | _ => rfl

theorem parseValue_brace {ts : List Token} (h : ∀ t, ts.head? = some t → t.isCloser = false) {n : Nat} :
    parseValue constants (n + 1) (.openBrace :: ts) =
      (parseMembers constants n ts).map fun r => (.object r.1, r.2) := by
  cases ts with
  | nil => rfl
  | cons t rest =>
    cases t with
    | closeBrace => exact absurd (h _ rfl) nofun
    | _ => rfl

theorem close_plain {mark : Token} {ts rest : List Token} (h : Close false mark ts rest) :
    ts = mark :: rest := by
  cases h with
  | plain => rfl
  | trailing hfalse => cases hfalse

mutual

theorem Value.complete : ∀ {ts rest : List Token} {v : Tree}, Value ⟨false, false, constants⟩ ts v rest →
    ∀ n, 2 * ts.length ≤ n + 2 * rest.length → parseValue constants n ts = some (v, rest)
  | _, _, _, h, 0, hn => by
    have := h.length
    omega
  | _, _, _, .string h, n + 1, _ => by rw [parseValue, if_pos h]
  | _, _, _, .atom h, n + 1, _ => by rw [parseValue, if_pos h]
  | _, _, _, .emptyArray h, n + 1, _ => by
    obtain rfl := close_plain h
    rfl
  | _, _, _, .array h, n + 1, hn => by
    simp only [List.length_cons] at hn
    rw [parseValue_bracket h.head, h.complete n (by omega)]
    rfl
  | _, _, _, .emptyObject h, n + 1, _ => by
    obtain rfl := close_plain h
    rfl
  | _, _, _, .object h, n + 1, hn => by
    simp only [List.length_cons] at hn
    rw [parseValue_brace h.head, h.complete n (by omega)]
    rfl

theorem Elements.complete : ∀ {ts rest : List Token} {vs : List Tree},
    Elements ⟨false, false, constants⟩ ts vs rest →
    ∀ n, 2 * ts.length ≤ n + 2 * rest.length → parseElements constants n ts = some (vs, rest)
  | _, _, _, h, 0, hn => by
    have := h.length
    omega
  | _, _, _, .last hv hclose, n + 1, hn => by
    obtain rfl := close_plain hclose
    have hvalue := hv.complete n (by simp only [List.length_cons]; omega)
    rw [parseElements, hvalue]
  | _, _, _, .more hv hvs, n + 1, hn => by
    have hless := hvs.length
    have hvalue := hv.complete n (by simp only [List.length_cons]; omega)
    have hlength := hv.length
    rw [List.length_cons] at hlength
    rw [parseElements, hvalue]
    simp only [hvs.complete n (by omega), Option.map_some]

theorem Members.complete : ∀ {ts rest : List Token} {ms : List (List Char × Tree)},
    Members ⟨false, false, constants⟩ ts ms rest →
    ∀ n, 2 * ts.length ≤ n + 2 * rest.length → parseMembers constants n ts = some (ms, rest)
  | _, _, _, h, 0, hn => by
    have := h.length
    omega
  | _, _, _, .last hkey hv hclose, n + 1, hn => by
    obtain rfl := close_plain hclose
    simp only [List.length_cons] at hn
    have hvalue := hv.complete n (by simp only [List.length_cons]; omega)
    simp only [parseMembers, hkey, if_true, hvalue]
  | _, _, _, .more hkey hv hms, n + 1, hn => by
    have hless := hms.length
    simp only [List.length_cons] at hn
    have hvalue := hv.complete n (by simp only [List.length_cons]; omega)
    have hlength := hv.length
    rw [List.length_cons] at hlength
    simp only [parseMembers, hkey, if_true, hvalue, hms.complete n (by omega), Option.map_some]

end

/-- **The parser reads exactly the grammar.** -/
theorem parse_iff {ts : List Token} {v : Tree} :
    parse constants ts = some v ↔ Value ⟨false, false, constants⟩ ts v [] := by
  unfold parse
  constructor
  · intro h
    split at h
    · next hv =>
      obtain rfl := Option.some.inj h
      exact (parse_sound _).1 hv
    · cases h
  · intro h
    rw [h.complete _ (by simp)]

end Parser

end OpencodeCloud.Library.JsonText
