/-
# OpencodeCloud.Library.Chains -- chains that may not end

A partial function on finitely many nodes gives each element a chain: what it is mapped to, what that is mapped
to, and so on. A walk along the chain that remembers where it has been ends, and it ends at a place where it
has been exactly when the chain does not end (`walk_iff`). That covers the elements on a cycle as well as those
whose chain leads into one.
-/
import Mathlib.Data.Finset.Card
import Mathlib.Tactic.Common

namespace OpencodeCloud.Library

section Chains

variable {α : Type*} (next : α → Option α)

/-- The element of the chain after `n` steps. -/
def ahead : ℕ → α → Option α
  | 0, x => some x
  | n + 1, x => (next x).bind (ahead n)

/-- The chain of an element has no end. -/
def Endless (x : α) : Prop := ∀ n, (ahead next n x).isSome

/-- The chain of an element comes to an end. -/
inductive Ends : α → Prop
  | here {x : α} (h : next x = none) : Ends x
  | there {x y : α} (h : next x = some y) (rest : Ends y) : Ends x

variable {next}

theorem Endless.follow {x : α} (h : Endless next x) : ∃ y, next x = some y ∧ Endless next y := by
  have h1 := h 1
  cases hx : next x with
  | none => simp [ahead, hx] at h1
  | some y =>
    refine ⟨y, rfl, fun n => ?_⟩
    have hn := h (n + 1)
    rwa [ahead, hx] at hn

theorem Ends.not_endless {x : α} (h : Ends next x) : ¬ Endless next x := by
  induction h with
  | here h =>
    intro hall
    obtain ⟨y, hy, -⟩ := hall.follow
    rw [h] at hy
    cases hy
  | there h _ ih =>
    intro hall
    obtain ⟨y, hy, hrest⟩ := hall.follow
    rw [h] at hy
    cases hy
    exact ih hrest

theorem ends_of_ahead {n : ℕ} {x : α} (h : ahead next n x = none) : Ends next x := by
  induction n generalizing x with
  | zero => cases h
  | succ n ih =>
    cases hx : next x with
    | none => exact .here hx
    | some y =>
      rw [ahead, hx] at h
      exact .there hx (ih h)

theorem not_endless_iff {x : α} : ¬ Endless next x ↔ Ends next x := by
  refine ⟨fun h => ?_, Ends.not_endless⟩
  obtain ⟨n, hn⟩ := not_forall.1 h
  exact ends_of_ahead (Option.not_isSome_iff_eq_none.1 hn)

/-- A chain has an end if each element of it has. -/
theorem endless_of_next {x y : α} (hx : next x = some y) (h : Endless next y) : Endless next x := by
  by_contra hends
  cases not_endless_iff.1 hends with
  | here h' =>
    rw [hx] at h'
    cases h'
  | there h' rest =>
    rw [hx] at h'
    cases h'
    exact rest.not_endless h

/-- The walk stands at `x` and has come from `visited`: from each of them the chain leads to `x`. -/
def Behind (next : α → Option α) (visited : Finset α) (x : α) : Prop :=
  ∀ v ∈ visited, ∃ n, ahead next n v = some x

theorem ahead_succ {n : ℕ} {v x y : α} (h : ahead next n v = some x) (hx : next x = some y) :
    ahead next (n + 1) v = some y := by
  induction n generalizing v with
  | zero =>
    cases h
    simp [ahead, hx]
  | succ n ih =>
    rw [ahead] at h ⊢
    cases hv : next v with
    | none => simp [hv] at h
    | some w =>
      rw [hv, Option.bind_some] at h
      exact ih h

theorem endless_of_return {n : ℕ} {x : α} (h : ahead next (n + 1) x = some x) : Endless next x := by
  by_contra hends
  have key : ∀ y, Ends next y → ∀ n, ahead next (n + 1) y = some y → False := by
    intro y hy
    induction hy with
    | here hnone =>
      intro n hn
      simp [ahead, hnone] at hn
    | @there y z hz _ ih =>
      intro n hn
      -- The chain of the next element comes back to it, one step later.
      have hback : ahead next n z = some y := by
        rw [ahead, hz, Option.bind_some] at hn
        exact hn
      exact ih n (ahead_succ hback hz)
  exact key x (not_endless_iff.1 hends) n h

variable [DecidableEq α] (nodes : Finset α) (closed : ∀ x y, next x = some y → y ∈ nodes)

include closed in
theorem remaining_lt {x y : α} {visited : Finset α} (h : next x = some y) (hy : y ∉ visited) :
    (nodes \ insert y visited).card < (nodes \ visited).card := by
  refine Finset.card_lt_card ⟨Finset.sdiff_subset_sdiff le_rfl (Finset.subset_insert y visited), fun hsub => ?_⟩
  have hmem := hsub (Finset.mem_sdiff.2 ⟨closed x y h, hy⟩)
  exact (Finset.mem_sdiff.1 hmem).2 (Finset.mem_insert_self y visited)

/-- The walk from `x` along the chain, with the set of the elements where it has been: it says whether it comes
to one of them. -/
def walk (visited : Finset α) (x : α) : Bool :=
  match h : next x with
  | none => false
  | some y =>
    if hy : y ∈ visited then true
    else
      have := remaining_lt nodes closed h hy
      walk (insert y visited) y
  termination_by (nodes \ visited).card

variable {nodes closed}

/-- **The walk says whether the chain has no end**, for the elements of a cycle and for those that lead to one. -/
theorem walk_iff {visited : Finset α} {x : α} (hbehind : Behind next visited x) (hx : x ∈ visited) :
    walk nodes closed visited x = true ↔ Endless next x := by
  fun_induction walk nodes closed visited x with
  | case1 visited x h =>
    simpa using (Ends.here h).not_endless
  | case2 visited x y h hy =>
    obtain ⟨n, hn⟩ := hbehind y hy
    simpa using endless_of_next h (endless_of_return (ahead_succ hn h))
  | case3 visited x y h hy hlt ih =>
    have hnext : Behind next (insert y visited) y := by
      intro v hv
      rcases Finset.mem_insert.1 hv with rfl | hv
      · exact ⟨0, rfl⟩
      · obtain ⟨n, hn⟩ := hbehind v hv
        exact ⟨n + 1, ahead_succ hn h⟩
    rw [ih hnext (Finset.mem_insert_self y visited)]
    refine ⟨endless_of_next h, fun hall => ?_⟩
    obtain ⟨z, hz, hrest⟩ := hall.follow
    rw [h] at hz
    cases hz
    exact hrest

end Chains

end OpencodeCloud.Library
