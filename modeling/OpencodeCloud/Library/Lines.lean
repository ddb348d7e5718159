/-
# OpencodeCloud.Library.Lines -- the lines of a stream that arrives in pieces

A separator ends a line. `completed` are the lines of a stream that have ended, `pending` is what stands
behind the last separator. A reader that keeps the pending line and appends what arrives gets the lines of
the whole stream (`completed_append`, `pending_append`).

A reader that keeps only the end of a long pending line has a `lastN` of it: the line that ends next is then
cut at its front (`splitOn_append`).
-/
import OpencodeCloud.Library.Uri
import Mathlib.Data.List.Infix

namespace OpencodeCloud.Library

section Lines

variable {α : Type*} [DecidableEq α] (sep : α)

/-- The lines of a stream that have ended. -/
def completed (s : List α) : List (List α) := (s.splitOn sep).dropLast

/-- What stands behind the last separator. -/
def pending (s : List α) : List α := (s.splitOn sep).getLast (List.splitOn_ne_nil sep s)

/-- The last `n` elements: Python's `s[-n:]`. -/
def lastN (n : ℕ) (s : List α) : List α := s.drop (s.length - n)

variable {sep}

theorem splitOn_eq (s : List α) : s.splitOn sep = completed sep s ++ [pending sep s] :=
  (List.dropLast_append_getLast _).symm

theorem not_mem_pending (s : List α) : sep ∉ pending sep s :=
  not_mem_of_mem_splitOn (List.getLast_mem (List.splitOn_ne_nil sep s))

/-- A stream without a separator is one pending line. -/
theorem completed_of_not_mem {s : List α} (h : sep ∉ s) : completed sep s = [] := by
  rw [completed, List.splitOn_eq_singleton h]
  rfl

theorem pending_of_not_mem {s : List α} (h : sep ∉ s) : pending sep s = s := by
  simp only [pending, List.splitOn_eq_singleton h, List.getLast_singleton]

@[simp] theorem completed_nil : completed sep ([] : List α) = [] := completed_of_not_mem List.not_mem_nil

@[simp] theorem pending_nil : pending sep ([] : List α) = [] := pending_of_not_mem List.not_mem_nil

/-- The first separator ends the pending line. -/
theorem splitOn_append {front : List α} (h : sep ∉ front) (rest : List α) :
    (front ++ sep :: rest).splitOn sep = front :: (completed sep rest ++ [pending sep rest]) := by
  rw [List.splitOn_append_cons_self, List.splitOn_eq_singleton h, splitOn_eq rest]
  rfl

theorem completed_append_cons {front : List α} (h : sep ∉ front) (rest : List α) :
    completed sep (front ++ sep :: rest) = front :: completed sep rest := by
  rw [completed, splitOn_append h, ← List.cons_append, List.dropLast_concat]

theorem pending_append_cons {front : List α} (h : sep ∉ front) (rest : List α) :
    pending sep (front ++ sep :: rest) = pending sep rest := by
  simp only [pending, splitOn_append h, ← List.cons_append, List.getLast_concat]

/-- **The lines of a longer stream** are those of its beginning and those that the pending line and the rest
make. -/
theorem completed_append (s t : List α) :
    completed sep (s ++ t) = completed sep s ++ completed sep (pending sep s ++ t) := by
  induction hlen : s.length using Nat.strong_induction_on generalizing s with
  | _ n ih =>
    by_cases hmem : sep ∈ s
    · obtain ⟨front, rest, rfl, hfront⟩ := List.eq_append_cons_of_mem hmem
      have hshort : rest.length < n := by
        rw [← hlen, List.length_append, List.length_cons]
        omega
      rw [List.append_assoc, List.cons_append, completed_append_cons hfront, completed_append_cons hfront,
        pending_append_cons hfront, ih _ hshort rest rfl, List.cons_append]
    · rw [completed_of_not_mem hmem, pending_of_not_mem hmem, List.nil_append]

theorem pending_append (s t : List α) : pending sep (s ++ t) = pending sep (pending sep s ++ t) := by
  induction hlen : s.length using Nat.strong_induction_on generalizing s with
  | _ n ih =>
    by_cases hmem : sep ∈ s
    · obtain ⟨front, rest, rfl, hfront⟩ := List.eq_append_cons_of_mem hmem
      have hshort : rest.length < n := by
        rw [← hlen, List.length_append, List.length_cons]
        omega
      rw [List.append_assoc, List.cons_append, pending_append_cons hfront, pending_append_cons hfront,
        ih _ hshort rest rfl]
    · rw [pending_of_not_mem hmem]

end Lines

/-! ## The end of a list -/

section LastN

variable {α : Type*}

theorem length_lastN (n : ℕ) (s : List α) : (lastN n s).length = min n s.length := by
  rw [lastN, List.length_drop]
  omega

theorem lastN_suffix (n : ℕ) (s : List α) : lastN n s <:+ s := List.drop_suffix _ s

theorem lastN_of_length_le {n : ℕ} {s : List α} (h : s.length ≤ n) : lastN n s = s := by
  rw [lastN, Nat.sub_eq_zero_of_le h, List.drop_zero]

/-- What is appended stays whole while there is room for it. -/
theorem lastN_append {n : ℕ} {s t : List α} (h : t.length ≤ n) :
    lastN n (s ++ t) = lastN (n - t.length) s ++ t := by
  have hdrop : s.length + t.length - n ≤ s.length := by omega
  have hsame : s.length + t.length - n = s.length - (n - t.length) := by omega
  rw [lastN, List.length_append, List.drop_append_of_le_length hdrop, hsame, lastN]

/-- The end of a suffix is the end of the whole list. -/
theorem lastN_of_suffix {n : ℕ} {s t : List α} (h : s <:+ t) (hn : n ≤ s.length) :
    lastN n s = lastN n t := by
  obtain ⟨front, rfl⟩ := h
  have hsame : (front ++ s).length - n = front.length + (s.length - n) := by
    rw [List.length_append]
    omega
  rw [lastN, lastN, hsame, List.drop_append]
  simp

end LastN

end OpencodeCloud.Library
