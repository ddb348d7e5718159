/-
# OpencodeCloud.Library.Naming -- names made of a name, a separator and another name

A text with a separator in it is taken apart at the last place where the separator stands, when it does not
occur in the second part. Numbers are such second parts: they have digits only.
-/
import Mathlib.Data.List.Basic
import Mathlib.Data.Nat.Basic
import Mathlib.Data.String.Basic

namespace OpencodeCloud.Library

/-- Two texts that are taken apart at the last separator. -/
theorem eq_of_append_cons {α : Type*} {c : α} {xs xs' ys ys' : List α} (hy : c ∉ ys) (hy' : c ∉ ys')
    (h : xs ++ c :: ys = xs' ++ c :: ys') : xs = xs' ∧ ys = ys' := by
  induction xs generalizing xs' with
  | nil =>
    cases xs' with
    | nil => exact ⟨rfl, (List.cons.inj h).2⟩
    | cons x xs' =>
      obtain ⟨rfl, rfl⟩ := List.cons.inj h
      exact absurd (List.mem_append_right _ List.mem_cons_self) hy
  | cons x xs ih =>
    cases xs' with
    | nil =>
      obtain ⟨rfl, rfl⟩ := List.cons.inj h
      exact absurd (List.mem_append_right _ List.mem_cons_self) hy'
    | cons x' xs' =>
      obtain ⟨rfl, hrest⟩ := List.cons.inj h
      obtain ⟨rfl, hys⟩ := ih hrest
      exact ⟨rfl, hys⟩

theorem isDigit_of_mem_toString {n : Nat} {c : Char} (h : c ∈ (toString n).toList) :
    c.isDigit = true := by
  rw [show toString n = n.repr from rfl, Nat.toList_repr] at h
  exact Nat.isDigit_of_mem_toDigits (by decide) (by decide) h

theorem toString_injective {i j : Nat} (h : (toString i).toList = (toString j).toList) : i = j := by
  rw [show toString i = i.repr from rfl, show toString j = j.repr from rfl, Nat.toList_repr,
    Nat.toList_repr] at h
  rw [← Nat.ofDigitChars_ten_toDigits (n := i), h, Nat.ofDigitChars_ten_toDigits]

/-- A name with a number behind a dash is made in one way only. -/
theorem numbered_inj {a b : String} {i j : Nat} :
    a ++ "-" ++ toString i = b ++ "-" ++ toString j ↔ a = b ∧ i = j := by
  refine ⟨fun h => ?_, fun ⟨ha, hi⟩ => by rw [ha, hi]⟩
  have hdash : ∀ n : Nat, '-' ∉ (toString n).toList := fun n hmem => by
    have := isDigit_of_mem_toString hmem
    simp [Char.isDigit] at this
  have hlist : a.toList ++ '-' :: (toString i).toList = b.toList ++ '-' :: (toString j).toList := by
    have := congrArg String.toList h
    simpa [String.toList_append] using this
  obtain ⟨hab, hij⟩ := eq_of_append_cons (hdash i) (hdash j) hlist
  exact ⟨String.toList_injective hab, toString_injective hij⟩

/-- A name behind a separator that neither part contains. -/
theorem separated_inj {c : Char} {a b x y : String} (hx : c ∉ x.toList) (hy : c ∉ y.toList)
    (h : a ++ c.toString ++ x = b ++ c.toString ++ y) : a = b ∧ x = y := by
  have hlist : a.toList ++ c :: x.toList = b.toList ++ c :: y.toList := by
    have := congrArg String.toList h
    simpa [String.toList_append, Char.toString] using this
  obtain ⟨hab, hxy⟩ := eq_of_append_cons hx hy hlist
  exact ⟨String.toList_injective hab, String.toList_injective hxy⟩

end OpencodeCloud.Library
