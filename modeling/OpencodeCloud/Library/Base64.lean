/-
# OpencodeCloud.Library.Base64 -- strict decoding

RFC 4648 base64 as a strict decoder reads it: groups of four characters of the alphabet, the last one
padded with `=`, and nothing else. The length of the text is fixed by the number of bytes it stands for
(`length_of_decode`), which is what a limit on the text before decoding rests on.
-/
import Mathlib.Data.List.Basic

namespace OpencodeCloud.Library.Base64

/-- The six bits that a character stands for. -/
def value? (c : Char) : Option Nat :=
  if 'A' ≤ c ∧ c ≤ 'Z' then some (c.toNat - 65)
  else if 'a' ≤ c ∧ c ≤ 'z' then some (c.toNat - 71)
  else if '0' ≤ c ∧ c ≤ '9' then some (c.toNat + 4)
  else if c = '+' then some 62
  else if c = '/' then some 63
  else none

/-- The bytes of a group with no, one and two characters of padding. -/
def three (a b c d : Nat) : List UInt8 :=
  [.ofNat (a * 4 + b / 16), .ofNat (b % 16 * 16 + c / 4), .ofNat (c % 4 * 64 + d)]

def two (a b c : Nat) : List UInt8 := [.ofNat (a * 4 + b / 16), .ofNat (b % 16 * 16 + c / 4)]

def one (a b : Nat) : List UInt8 := [.ofNat (a * 4 + b / 16)]

/-- Decode one group after the other; padding ends the text. -/
def decode : List Char → Option (List UInt8)
  | [] => some []
  | [a, b, '=', '='] => do return one (← value? a) (← value? b)
  | [a, b, c, '='] => do return two (← value? a) (← value? b) (← value? c)
  | a :: b :: c :: d :: rest => do
    let head := three (← value? a) (← value? b) (← value? c) (← value? d)
    return head ++ (← decode rest)
  | _ => none

/-- Every three bytes, the last ones included, take four characters. -/
theorem length_of_decode {cs : List Char} {bytes : List UInt8} (h : decode cs = some bytes) :
    cs.length = (bytes.length + 2) / 3 * 4 := by
  fun_induction decode cs generalizing bytes with
  | case1 =>
    obtain rfl := Option.some.inj h
    rfl
  | case2 a b =>
    obtain ⟨x, -, y, -, h⟩ : ∃ x, value? a = some x ∧ ∃ y, value? b = some y ∧
        one x y = bytes := by
      simpa [Option.bind_eq_some_iff] using h
    simp [← h, one]
  | case3 a b c =>
    obtain ⟨x, -, y, -, z, -, h⟩ : ∃ x, value? a = some x ∧ ∃ y, value? b = some y ∧
        ∃ z, value? c = some z ∧ two x y z = bytes := by
      simpa [Option.bind_eq_some_iff] using h
    simp [← h, two]
  | case4 a b c d rest _ _ ih =>
    obtain ⟨w, -, x, -, y, -, z, -, tail, htail, rfl⟩ : ∃ w, value? a = some w ∧
        ∃ x, value? b = some x ∧ ∃ y, value? c = some y ∧ ∃ z, value? d = some z ∧
        ∃ tail, decode rest = some tail ∧ three w x y z ++ tail = bytes := by
      simpa [Option.bind_eq_some_iff] using h
    have hrest := ih htail
    simp only [List.length_cons, List.length_append, three, List.length_nil]
    omega
  | case5 => cases h

example : decode "TWFu".toList = some [77, 97, 110] := by decide

end OpencodeCloud.Library.Base64
