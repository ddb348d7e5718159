/-
# OpencodeCloud.Library.Text -- lines and white space of Python strings

`str.splitlines` ends a line at each of ten characters, of which the line feed is one, and `str.strip` takes every
Unicode white space away. Both know more characters than a program that thinks of `"\n"` and `" "`.

Lines that are joined by line feeds are split into themselves when they have none of the ten
(`splitlines_joined`); a line with one of them is cut there (`splitlines_cut`).
-/
import Mathlib.Data.List.TakeDrop
import Mathlib.Data.List.Infix
import Mathlib.Data.List.DropRight
import Mathlib.Tactic.Common

namespace OpencodeCloud.Library

abbrev Text := List Char

/-! ## White space -/

/-- `c.isspace()` -/
def isSpace (c : Char) : Bool :=
  let n := c.toNat
  (9 ≤ n && n ≤ 13) || (28 ≤ n && n ≤ 32) || n == 0x85 || n == 0xa0 || n == 0x1680 || (0x2000 ≤ n && n ≤ 0x200a)
    || n == 0x2028 || n == 0x2029 || n == 0x202f || n == 0x205f || n == 0x3000

/-- `text.lstrip()` -/
def lstrip (text : Text) : Text := text.dropWhile isSpace

/-- `text.rstrip()` -/
def rstrip (text : Text) : Text := text.rdropWhile isSpace

/-- `text.strip()` -/
def strip (text : Text) : Text := rstrip (lstrip text)

theorem lstrip_cons {c : Char} (h : isSpace c = false) (text : Text) : lstrip (c :: text) = c :: text := by
  rw [lstrip, List.dropWhile_cons, h]
  rfl

theorem rstrip_concat {c : Char} (h : isSpace c = false) (text : Text) : rstrip (text ++ [c]) = text ++ [c] := by
  rw [rstrip, List.rdropWhile_concat_neg]
  rw [h]
  exact Bool.false_ne_true

/-- A text between two characters that are no white space stays. -/
theorem strip_between {c d : Char} (hc : isSpace c = false) (hd : isSpace d = false) (text : Text) :
    strip (c :: (text ++ [d])) = c :: (text ++ [d]) := by
  rw [strip, lstrip_cons hc, ← List.cons_append, rstrip_concat hd]

theorem rstrip_isPrefix (text : Text) : rstrip text <+: text := List.rdropWhile_prefix _ text

theorem strip_isInfix (text : Text) : strip text <:+: text :=
  (rstrip_isPrefix _).isInfix.trans (List.dropWhile_suffix _).isInfix

/-- The end of a text behind a character that is no white space. -/
theorem rstrip_append_cons {c : Char} (h : isSpace c = false) (front text : Text) :
    rstrip (front ++ c :: text) = front ++ c :: rstrip text := by
  induction text using List.reverseRecOn with
  | nil => exact rstrip_concat h front
  | append_singleton text d ih =>
    unfold rstrip at ih ⊢
    have happend : front ++ c :: (text ++ [d]) = (front ++ c :: text) ++ [d] := by simp
    rw [happend]
    cases hd : isSpace d with
    | false =>
      rw [List.rdropWhile_concat_neg _ _ _ (by simp [hd]), List.rdropWhile_concat_neg _ _ _ (by simp [hd])]
      simp
    | true => rw [List.rdropWhile_concat_pos _ _ _ hd, List.rdropWhile_concat_pos _ _ _ hd, ih]

/-- A text without white space stays. -/
theorem strip_of_forall {text : Text} (h : ∀ c ∈ text, isSpace c = false) : strip text = text := by
  cases text with
  | nil => rfl
  | cons c text =>
    rw [strip, lstrip_cons (h c List.mem_cons_self)]
    refine List.rdropWhile_eq_self_iff.2 fun hne => ?_
    rw [h _ (List.getLast_mem hne)]
    exact Bool.false_ne_true

/-! ## Lines -/

/-- The characters that end a line. -/
def isBoundary (c : Char) : Bool :=
  let n := c.toNat
  (10 ≤ n && n ≤ 13) || (28 ≤ n && n ≤ 30) || n == 0x85 || n == 0x2028 || n == 0x2029

/-- `text.splitlines()` with what has been seen of the line. A carriage return with a line feed behind it is one
end. -/
def splitlinesFrom : Text → Text → List Text
  | line, [] => if line.isEmpty then [] else [line]
  | line, [c] => if isBoundary c then [line] else [line ++ [c]]
  | line, c :: d :: rest =>
    if c = '\r' ∧ d = '\n' then line :: splitlinesFrom [] rest
    else if isBoundary c then line :: splitlinesFrom [] (d :: rest)
    else splitlinesFrom (line ++ [c]) (d :: rest)

/-- `text.splitlines()` -/
def splitlines (text : Text) : List Text := splitlinesFrom [] text

/-- `io.TextIOWrapper` with universal newlines. -/
def universalNewlines : Text → Text
  | [] => []
  | [c] => if c = '\r' then ['\n'] else [c]
  | c :: d :: rest =>
    if c = '\r' ∧ d = '\n' then '\n' :: universalNewlines rest
    else (if c = '\r' then '\n' else c) :: universalNewlines (d :: rest)

/-- There is nothing to translate. -/
theorem universalNewlines_of_notMem {text : Text} (h : '\r' ∉ text) : universalNewlines text = text := by
  induction text using universalNewlines.induct with
  | case1 => rfl
  | case2 => exact absurd (by simp_all) h
  | case3 c hc => rw [universalNewlines, if_neg hc]
  | case4 c d rest hcd _ => exact absurd (by simp [hcd.1]) h
  | case5 c d rest hcd ih =>
    rw [List.mem_cons, not_or] at h
    rw [universalNewlines, if_neg hcd, if_neg (Ne.symm h.1), ih h.2]

/-- The first end of a line. -/
theorem splitlinesFrom_append {text : Text} (htext : ∀ c ∈ text, isBoundary c = false) {b : Char}
    (hb : isBoundary b = true) (hreturn : b ≠ '\r') (line rest : Text) :
    splitlinesFrom line (text ++ b :: rest) = (line ++ text) :: splitlines rest := by
  induction text generalizing line with
  | nil =>
    cases rest with
    | nil => simp [splitlinesFrom, splitlines, hb]
    | cons d rest =>
      rw [List.nil_append, splitlinesFrom, if_neg (fun h => hreturn h.1), if_pos hb, List.append_nil]
      rfl
  | cons c text ih =>
    rw [List.forall_mem_cons] at htext
    have hne : c ≠ '\r' := by
      rintro rfl
      exact absurd htext.1 (by decide)
    obtain ⟨d, tail, htail⟩ : ∃ d tail, text ++ b :: rest = d :: tail := by
      cases text with
      | nil => exact ⟨b, rest, rfl⟩
      | cons d text => exact ⟨d, text ++ b :: rest, rfl⟩
    have hih := ih htext.2 (line ++ [c])
    rw [htail] at hih
    rw [List.cons_append, htail, splitlinesFrom, if_neg (fun h => hne h.1), if_neg (by rw [htext.1]; decide), hih]
    simp

/-- A line is cut at the first character that ends a line. -/
theorem splitlines_cut {text : Text} (htext : ∀ c ∈ text, isBoundary c = false) {b : Char}
    (hb : isBoundary b = true) (hreturn : b ≠ '\r') (rest : Text) :
    splitlines (text ++ b :: rest) = text :: splitlines rest := splitlinesFrom_append htext hb hreturn [] rest

/-- **Lines that are joined by line feeds are split into themselves**, when they have no end of a line in them. -/
theorem splitlines_joined (lines : List Text) (h : ∀ line ∈ lines, ∀ c ∈ line, isBoundary c = false) (rest : Text) :
    splitlines (lines.flatMap (· ++ ['\n']) ++ rest) = lines ++ splitlines rest := by
  induction lines with
  | nil => rfl
  | cons line lines ih =>
    rw [List.forall_mem_cons] at h
    rw [List.flatMap_cons, List.append_assoc, List.append_assoc, List.singleton_append,
      splitlines_cut h.1 (by decide) (by decide), ih h.2, List.cons_append]

/-- **No line has an end of a line in it.** -/
theorem splitlines_clean {text line : Text} (h : line ∈ splitlines text) : ∀ c ∈ line, isBoundary c = false := by
  have hrun : ∀ seen text : Text, (∀ c ∈ seen, isBoundary c = false) → ∀ line ∈ splitlinesFrom seen text,
      ∀ c ∈ line, isBoundary c = false := by
    intro seen text
    induction seen, text using splitlinesFrom.induct with
    | case1 seen hempty =>
      intro _ line hline
      rw [splitlinesFrom, if_pos hempty] at hline
      cases hline
    | case2 seen hempty =>
      intro hseen line hline
      rw [splitlinesFrom, if_neg hempty, List.mem_singleton] at hline
      rwa [hline]
    | case3 seen c hc =>
      intro hseen line hline
      rw [splitlinesFrom, if_pos hc, List.mem_singleton] at hline
      rwa [hline]
    | case4 seen c hc =>
      intro hseen line hline
      rw [splitlinesFrom, if_neg hc, List.mem_singleton] at hline
      rw [hline]
      intro c' hc'
      rcases List.mem_append.1 hc' with hc' | hc'
      · exact hseen c' hc'
      · rw [List.mem_singleton.1 hc']
        exact Bool.eq_false_iff.2 hc
    | case5 seen c d rest hcd ih =>
      intro hseen line hline
      rw [splitlinesFrom, if_pos hcd] at hline
      rcases List.mem_cons.1 hline with rfl | hline
      · exact hseen
      · exact ih nofun line hline
    | case6 seen c d rest hcd hc ih =>
      intro hseen line hline
      rw [splitlinesFrom, if_neg hcd, if_pos hc] at hline
      rcases List.mem_cons.1 hline with rfl | hline
      · exact hseen
      · exact ih nofun line hline
    | case7 seen c d rest hcd hc ih =>
      intro hseen line hline
      rw [splitlinesFrom, if_neg hcd, if_neg hc] at hline
      refine ih (fun c' hc' => ?_) line hline
      rcases List.mem_append.1 hc' with hc' | hc'
      · exact hseen c' hc'
      · rw [List.mem_singleton.1 hc']
        exact Bool.eq_false_iff.2 hc
  exact hrun [] text nofun line h

end OpencodeCloud.Library
