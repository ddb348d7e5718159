/-
# OpencodeCloud.Library.Intervals -- the length of a union of intervals

Intervals are taken in the order in which they begin. What is covered so far ends with one interval: the next one
extends it, or lies behind it and is counted on its own. The sum of the lengths is the measure of the union
(`volume_sweep`), whether the intervals overlap, touch, lie in one another or are the same.
-/
import Mathlib.MeasureTheory.Measure.Lebesgue.Basic

namespace OpencodeCloud.Library

section Sweep

variable {α : Type*} [LinearOrder α] [AddCommGroup α]

/-- What has been counted, and the interval that may still grow. -/
structure Sweep (α : Type*) where
  total : α
  current : Option (α × α)

/-- The next interval. -/
def Sweep.step (s : Sweep α) (range : α × α) : Sweep α :=
  match s.current with
  | none => { s with current := some range }
  | some current =>
    if current.2 < range.1 then ⟨s.total + (current.2 - current.1), some range⟩
    else if current.2 < range.2 then { s with current := some (current.1, range.2) }
    else s

theorem Sweep.step_some (total a b s e : α) :
    (⟨total, some (a, b)⟩ : Sweep α).step (s, e)
      = if b < s then ⟨total + (b - a), some (s, e)⟩
        else if b < e then ⟨total, some (a, e)⟩ else ⟨total, some (a, b)⟩ := rfl

/-- What is counted at the end. -/
def Sweep.finish (s : Sweep α) : α :=
  match s.current with
  | none => s.total
  | some current => s.total + (current.2 - current.1)

/-- The sum of the lengths, the intervals in the order in which they begin. -/
def sweep (ranges : List (α × α)) : α := (ranges.foldl Sweep.step ⟨0, none⟩).finish

/-- No length is negative. -/
theorem sweep_nonneg [IsOrderedAddMonoid α] (ranges : List (α × α)) (hvalid : ∀ range ∈ ranges, range.1 ≤ range.2)
    (hsorted : ranges.Pairwise (·.1 ≤ ·.1)) : 0 ≤ sweep ranges := by
  have key : ∀ (ranges : List (α × α)) (s : Sweep α), 0 ≤ s.total →
      (∀ current ∈ s.current, current.1 ≤ current.2 ∧ ∀ range ∈ ranges, current.1 ≤ range.1) →
      (∀ range ∈ ranges, range.1 ≤ range.2) → ranges.Pairwise (·.1 ≤ ·.1) →
      0 ≤ (ranges.foldl Sweep.step s).finish := by
    intro ranges
    induction ranges with
    | nil =>
      rintro ⟨total, current⟩ htotal hcurrent - -
      cases current with
      | none => exact htotal
      | some current => exact add_nonneg htotal (sub_nonneg.2 (hcurrent current rfl).1)
    | cons range ranges ih =>
      rintro ⟨total, current⟩ htotal hcurrent hvalid hsorted
      obtain ⟨hfirst, hrest⟩ := List.pairwise_cons.1 hsorted
      have hse := hvalid range List.mem_cons_self
      have hvalid' := fun r hr => hvalid r (List.mem_cons_of_mem range hr)
      rw [List.foldl_cons]
      cases current with
      | none => exact ih _ htotal (fun c hc => by cases hc; exact ⟨hse, hfirst⟩) hvalid' hrest
      | some current =>
        obtain ⟨hab, hbehind⟩ := hcurrent current rfl
        have has := hbehind range List.mem_cons_self
        have hlater := fun r hr => has.trans (hfirst r hr)
        rw [Sweep.step_some]
        split
        · exact ih _ (add_nonneg htotal (sub_nonneg.2 hab)) (fun c hc => by cases hc; exact ⟨hse, hfirst⟩)
            hvalid' hrest
        · split
          · exact ih _ htotal (fun c hc => by cases hc; exact ⟨has.trans hse, hlater⟩) hvalid' hrest
          · exact ih _ htotal (fun c hc => by cases hc; exact ⟨hab, hlater⟩) hvalid' hrest
  exact key ranges ⟨0, none⟩ le_rfl nofun hvalid hsorted

end Sweep

/-! ## The measure -/

/-- The union of intervals. -/
def cover (ranges : List (ℝ × ℝ)) : Set ℝ := ⋃ range ∈ ranges, Set.Icc range.1 range.2

@[simp] theorem cover_nil : cover [] = ∅ := by simp [cover]

@[simp] theorem cover_cons (range : ℝ × ℝ) (ranges : List (ℝ × ℝ)) :
    cover (range :: ranges) = Set.Icc range.1 range.2 ∪ cover ranges := by
  simp [cover]

theorem measurableSet_cover (ranges : List (ℝ × ℝ)) : MeasurableSet (cover ranges) := by
  induction ranges with
  | nil => simp
  | cons range ranges ih =>
    rw [cover_cons]
    exact measurableSet_Icc.union ih

open MeasureTheory in
/-- The intervals behind the current one. -/
theorem volume_sweep_from {a b total : ℝ} (hab : a ≤ b) (htotal : 0 ≤ total) (ranges : List (ℝ × ℝ))
    (hvalid : ∀ range ∈ ranges, range.1 ≤ range.2) (hbehind : ∀ range ∈ ranges, a ≤ range.1)
    (hsorted : ranges.Pairwise (·.1 ≤ ·.1)) :
    ENNReal.ofReal ((ranges.foldl Sweep.step ⟨total, some (a, b)⟩).finish)
      = ENNReal.ofReal total + volume (Set.Icc a b ∪ cover ranges) := by
  induction ranges generalizing a b total with
  | nil =>
    rw [List.foldl_nil, Sweep.finish, cover_nil, Set.union_empty, Real.volume_Icc,
      ENNReal.ofReal_add htotal (sub_nonneg.2 hab)]
  | cons range ranges ih =>
    obtain ⟨s, e⟩ := range
    have hse : s ≤ e := hvalid _ List.mem_cons_self
    have has : a ≤ s := hbehind _ List.mem_cons_self
    obtain ⟨hfirst, hrest⟩ := List.pairwise_cons.1 hsorted
    have hvalid' := fun range hr => hvalid range (List.mem_cons_of_mem _ hr)
    rw [List.foldl_cons, Sweep.step_some, cover_cons]
    split
    · rename_i hgap
      -- The rest begins behind the current interval, which is counted on its own.
      have hdisjoint : Disjoint (Set.Icc a b) (Set.Icc s e ∪ cover ranges) := by
        rw [Set.disjoint_left]
        rintro x hx (hxr | hxr)
        · exact absurd (hgap.trans_le hxr.1) (not_lt.2 hx.2)
        · obtain ⟨r, hr, hxr⟩ := Set.mem_iUnion₂.1 hxr
          exact absurd (hgap.trans_le ((hfirst r hr).trans hxr.1)) (not_lt.2 hx.2)
      rw [ih hse (add_nonneg htotal (sub_nonneg.2 hab)) hvalid' hfirst hrest,
        measure_union hdisjoint (measurableSet_Icc.union (measurableSet_cover ranges)), Real.volume_Icc,
        ENNReal.ofReal_add htotal (sub_nonneg.2 hab), add_assoc]
    · rename_i htouch
      have hsb : s ≤ b := not_lt.1 htouch
      split
      · rename_i hlonger
        have hunion : Set.Icc a b ∪ Set.Icc s e = Set.Icc a e := by
          rw [Set.Icc_union_Icc' hsb (has.trans hse), min_eq_left has, max_eq_right hlonger.le]
        rw [ih (has.trans hse) htotal hvalid' (fun r hr => has.trans (hfirst r hr)) hrest, ← hunion,
          Set.union_assoc]
      · rename_i hinside
        have hunion : Set.Icc a b ∪ Set.Icc s e = Set.Icc a b :=
          Set.union_eq_left.2 (Set.Icc_subset_Icc has (not_lt.1 hinside))
        rw [ih hab htotal hvalid' (fun r hr => has.trans (hfirst r hr)) hrest, ← Set.union_assoc, hunion]

open MeasureTheory in
/-- **The sum of the lengths is the measure of the union.** -/
theorem volume_sweep (ranges : List (ℝ × ℝ)) (hvalid : ∀ range ∈ ranges, range.1 ≤ range.2)
    (hsorted : ranges.Pairwise (·.1 ≤ ·.1)) :
    volume (cover ranges) = ENNReal.ofReal (sweep ranges) := by
  cases ranges with
  | nil => simp [sweep, Sweep.finish]
  | cons range ranges =>
    obtain ⟨hfirst, hrest⟩ := List.pairwise_cons.1 hsorted
    have h := volume_sweep_from (hvalid _ List.mem_cons_self) le_rfl ranges
      (fun r hr => hvalid r (List.mem_cons_of_mem _ hr)) hfirst hrest
    rw [ENNReal.ofReal_zero, zero_add] at h
    rw [cover_cons, ← h]
    rfl

/-! ## Exact numbers -/

/-- The sweep of rational intervals is that of the real ones. -/
theorem sweep_cast (ranges : List (ℚ × ℚ)) :
    ((sweep ranges : ℚ) : ℝ) = sweep (ranges.map fun range => ((range.1 : ℝ), (range.2 : ℝ))) := by
  let cast (s : Sweep ℚ) : Sweep ℝ := ⟨s.total, s.current.map fun range => ((range.1 : ℝ), (range.2 : ℝ))⟩
  have hstep : ∀ (s : Sweep ℚ) (range : ℚ × ℚ),
      cast (s.step range) = (cast s).step ((range.1 : ℝ), (range.2 : ℝ)) := by
    rintro ⟨total, current⟩ range
    cases current with
    | none => rfl
    | some current =>
      simp only [Sweep.step, cast, Option.map_some, Rat.cast_lt]
      split
      · simp
      · split
        · rfl
        · rfl
  have hrun : ∀ s : Sweep ℚ, cast (ranges.foldl Sweep.step s)
      = (ranges.map fun range => ((range.1 : ℝ), (range.2 : ℝ))).foldl Sweep.step (cast s) := by
    induction ranges with
    | nil => exact fun s => rfl
    | cons range ranges ih =>
      intro s
      rw [List.foldl_cons, List.map_cons, List.foldl_cons, ih, hstep]
  have hfinish : ∀ s : Sweep ℚ, ((s.finish : ℚ) : ℝ) = (cast s).finish := by
    rintro ⟨total, current⟩
    cases current with
    | none => rfl
    | some current => simp [Sweep.finish, cast]
  rw [sweep, hfinish, hrun]
  simp [sweep, cast]

end OpencodeCloud.Library
