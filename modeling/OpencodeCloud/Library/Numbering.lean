/-
# OpencodeCloud.Library.Numbering -- append-only version lists with an active pointer

A list of versions is `Numbered` when the versions carry the numbers 1, 2, 3 and so on in order. The
pointer to the active version follows the end of the list (`lastNumber`), so a writer that compares the
pointer it saw with the current one knows whether anything was appended in between
(`lastNumber_injective`), and the number it chose is still the next one.
-/
import Mathlib.Data.List.Basic
import Mathlib.Data.List.Range

namespace OpencodeCloud.Library

variable {α : Type*} {number : α → Nat}

/-- The versions carry the numbers 1, 2, 3, … in order. -/
def Numbered (number : α → Nat) (l : List α) : Prop := l.map number = List.range' 1 l.length

/-- The pointer to the last of `n` versions. -/
def lastNumber (n : Nat) : Option Nat := if n = 0 then none else some n

theorem lastNumber_injective {m n : Nat} (h : lastNumber m = lastNumber n) : m = n := by
  unfold lastNumber at h
  split at h
  · split at h
    · omega
    · simp at h
  · split at h
    · simp at h
    · exact Option.some.inj h

theorem lastNumber_succ (n : Nat) : lastNumber (n + 1) = some (n + 1) := by
  simp [lastNumber]

theorem Numbered.nil : Numbered number ([] : List α) := rfl

theorem Numbered.append {l : List α} {x : α} (h : Numbered number l)
    (hx : number x = l.length + 1) : Numbered number (l ++ [x]) := by
  unfold Numbered at h ⊢
  rw [List.map_append, h, List.length_append, List.length_singleton, List.range'_concat,
    List.map_singleton, hx]
  congr 2
  omega

/-- The numbers of a numbered list do not exceed its length. -/
theorem Numbered.le_length {l : List α} (h : Numbered number l) {x : α} (hx : x ∈ l) :
    number x ≤ l.length := by
  have hmem : number x ∈ List.range' 1 l.length := by
    rw [← h]
    exact List.mem_map_of_mem hx
  have := List.mem_range'_1.mp hmem
  omega

/-- The last number is the length. -/
theorem Numbered.getLast {l : List α} (h : Numbered number l) :
    l.getLast?.map number = lastNumber l.length := by
  rw [← List.getLast?_map, h, lastNumber]
  split
  · next hl => rw [hl]; rfl
  · next hl =>
    obtain ⟨n, hn⟩ := Nat.exists_eq_succ_of_ne_zero hl
    rw [hn, Nat.succ_eq_add_one, List.range'_concat, List.getLast?_append]
    simp [Nat.add_comm]

/-- The version under the next number is the appended one. -/
theorem Numbered.find_append {l : List α} {x : α} (h : Numbered number l)
    (hx : number x = l.length + 1) :
    (l ++ [x]).find? (fun y => number y == number x) = some x := by
  have hold : l.find? (fun y => number y == number x) = none := by
    refine List.find?_eq_none.mpr fun y hy => ?_
    have := h.le_length hy
    simp only [beq_iff_eq]
    omega
  rw [List.find?_append, hold]
  simp

end OpencodeCloud.Library
