/-
# OpencodeCloud.Library.Throttle -- at most so many events in a window of time

A program that allows an event when fewer than `max` of the earlier ones lie within a window keeps the
times of those, and forgets older ones. `recent` is that list. `Paced` says of the times of all events
that each of them was allowed; then no half-open interval as long as the window holds more than `max` of
them (`Paced.countP_le`), wherever it begins.
-/
import Mathlib.Algebra.Order.Group.Defs
import Mathlib.Tactic.Abel
import Mathlib.Data.List.Induction

namespace OpencodeCloud.Library

variable {τ : Type*} [AddCommGroup τ] [LinearOrder τ]

/-- The times that lie within the window before `now`. -/
def recent (window now : τ) (ts : List τ) : List τ := ts.filter fun t => decide (now - t < window)

@[simp] theorem recent_nil (window now : τ) : recent window now [] = [] := rfl

@[simp] theorem recent_append (window now : τ) (ts us : List τ) :
    recent window now (ts ++ us) = recent window now ts ++ recent window now us :=
  List.filter_append ..

/-- What has left the window does not come back. -/
theorem recent_recent [IsOrderedAddMonoid τ] {window now later : τ} (h : now ≤ later) (ts : List τ) :
    recent window later (recent window now ts) = recent window later ts := by
  unfold recent
  rw [List.filter_filter]
  refine List.filter_congr fun t _ => ?_
  by_cases hlater : later - t < window
  · have hnow : now - t < window := lt_of_le_of_lt (sub_le_sub_right h t) hlater
    simp [hlater, hnow]
  · simp [hlater]

theorem recent_sublist {window now : τ} {ts us : List τ} (h : ts.Sublist us) :
    (recent window now ts).length ≤ (recent window now us).length :=
  (h.filter _).length_le

/-- Each time was allowed: fewer than `max` of those before it were recent. -/
def Paced (window : τ) (max : Nat) (ts : List τ) : Prop :=
  ∀ before t after, ts = before ++ t :: after → (recent window t before).length < max

theorem Paced.nil (window : τ) (max : Nat) : Paced window max ([] : List τ) := by
  intro before t after h
  simp at h

theorem Paced.concat {window t : τ} {max : Nat} {ts : List τ} (h : Paced window max ts)
    (ht : (recent window t ts).length < max) : Paced window max (ts ++ [t]) := by
  intro before u after hsplit
  rcases List.eq_nil_or_concat after with rfl | ⟨rest, v, rfl⟩
  · obtain ⟨rfl, hlast⟩ := List.append_inj' hsplit rfl
    obtain rfl : t = u := by simpa using hlast
    exact ht
  · have hfront : ts = before ++ u :: rest := by
      have hcons : before ++ u :: rest.concat v = (before ++ u :: rest) ++ [v] := by simp
      rw [hcons] at hsplit
      exact (List.append_inj' hsplit rfl).1
    exact h before u rest hfront

theorem Paced.of_concat {window t : τ} {max : Nat} {ts : List τ} (h : Paced window max (ts ++ [t])) :
    Paced window max ts ∧ (recent window t ts).length < max := by
  refine ⟨fun before u after hsplit => h before u (after ++ [t]) ?_, h ts t [] rfl⟩
  rw [hsplit]
  simp

/-- **The bound of a window**: no half-open interval of that length holds more than `max`. -/
theorem Paced.countP_le [IsOrderedAddMonoid τ] {window : τ} {max : Nat} {ts : List τ} (h : Paced window max ts) (x : τ) :
    ts.countP (fun t => decide (x ≤ t ∧ t < x + window)) ≤ max := by
  induction ts using List.reverseRecOn with
  | nil => simp
  | append_singleton ts t ih =>
    obtain ⟨hts, ht⟩ := h.of_concat
    rw [List.countP_append, List.countP_singleton]
    by_cases hin : x ≤ t ∧ t < x + window
    · -- whatever lies in the interval is recent for its last time
      have hle : ts.countP (fun u => decide (x ≤ u ∧ u < x + window)) ≤
          (recent window t ts).length := by
        rw [recent, ← List.countP_eq_length_filter]
        refine List.countP_mono_left fun u _ hu => ?_
        simp only [decide_eq_true_eq] at hu ⊢
        rw [sub_lt_iff_lt_add']
        exact lt_of_lt_of_le hin.2 (add_le_add_left hu.1 window)
      simp only [hin, and_self, decide_true, if_true]
      omega
    · simp only [hin, decide_false, Bool.false_eq_true, if_false, Nat.add_zero]
      exact ih hts

end OpencodeCloud.Library
