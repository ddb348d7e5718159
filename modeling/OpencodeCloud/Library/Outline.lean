/-
# OpencodeCloud.Library.Outline -- lists that stand for trees

An outline lists the nodes of a tree in preorder, each with its depth. A row lies in the subtree of every
row before it that is less deep, as are no rows in between (`Encloses`). `collapse` walks through an
outline once and leaves out what lies below a closed row; it remembers one depth only. That is enough: a
row is shown exactly when every row that encloses it is open (`mem_collapse_iff`), whatever the depths
are.
-/
import Mathlib.Data.List.Induction
import Mathlib.Data.List.Nodup
import Mathlib.Tactic.Common

namespace OpencodeCloud.Library.Outline

variable {α : Type} (depth : α → Nat)

/-! ## §A Subtrees -/

/-- A row at depth `d` that comes behind `front` lies in the subtree of `q`. -/
def Encloses (front : List α) (d : Nat) (q : α) : Prop :=
  ∃ above between, front = above ++ q :: between ∧ depth q < d ∧ ∀ x ∈ between, depth q < depth x

/-- Behind `p` there are only rows at depth `d` or deeper. -/
def Below (front : List α) (d : Nat) (p : α) : Prop :=
  ∃ above between, front = above ++ p :: between ∧ ∀ x ∈ between, d ≤ depth x

variable {depth}

theorem Below.concat {front : List α} {d : Nat} {p : α} (h : Below depth front d p) {more : List α}
    (hmore : ∀ x ∈ more, d ≤ depth x) : Below depth (front ++ more) d p := by
  obtain ⟨above, between, rfl, hbetween⟩ := h
  refine ⟨above, between ++ more, by simp, fun x hx => ?_⟩
  rcases List.mem_append.1 hx with hx | hx
  · exact hbetween x hx
  · exact hmore x hx

/-- What encloses a row that comes right below another: that row, and what encloses it. -/
theorem encloses_below {above between : List α} {p q : α} {d : Nat} (hd : d = depth p + 1)
    (hbetween : ∀ x ∈ between, d ≤ depth x) :
    Encloses depth (above ++ p :: between) d q ↔ q = p ∨ Encloses depth above (depth p) q := by
  constructor
  · rintro ⟨above', between', heq, hq, hbetween'⟩
    rcases List.append_eq_append_iff.1 heq.symm with ⟨mid, hmid, hrest⟩ | ⟨mid, hmid, hrest⟩
    · cases mid with
      | nil => exact Or.inl (List.cons.inj hrest).1
      | cons x mid =>
        obtain ⟨rfl, htail⟩ := List.cons.inj hrest
        refine Or.inr ⟨above', mid, hmid, hbetween' p ?_, fun x hx => hbetween' x ?_⟩
        · rw [htail]
          simp
        · rw [htail]
          simp [hx]
    · cases mid with
      | nil => exact Or.inl (List.cons.inj hrest).1.symm
      | cons x mid =>
        -- `q` comes behind `p`, where all rows are too deep
        obtain ⟨_, hrest⟩ := List.cons.inj hrest
        have hdeep := hbetween q (by rw [hrest]; simp)
        omega
  · rintro (rfl | ⟨above', between', rfl, hq, hbetween'⟩)
    · exact ⟨above, between, rfl, by omega, fun x hx => by have := hbetween x hx; omega⟩
    · refine ⟨above', between' ++ p :: between, by simp, by omega, fun x hx => ?_⟩
      rcases List.mem_append.1 hx with hx | hx
      · exact hbetween' x hx
      · rcases List.mem_cons.1 hx with rfl | hx
        · exact hq
        · have := hbetween x hx
          omega

/-- What encloses a row that comes behind rows which are not less deep. -/
theorem encloses_beside {above beside : List α} {q : α} {d : Nat}
    (hbeside : ∀ x ∈ beside, d ≤ depth x) :
    Encloses depth (above ++ beside) d q ↔ Encloses depth above d q := by
  constructor
  · rintro ⟨above', between', heq, hq, hbetween'⟩
    rcases List.append_eq_append_iff.1 heq.symm with ⟨mid, hmid, hrest⟩ | ⟨mid, hmid, hrest⟩
    · cases mid with
      | nil =>
        have hdeep := hbeside q (by rw [← List.nil_append beside, ← hrest]; exact List.mem_cons_self)
        omega
      | cons x mid =>
        obtain ⟨rfl, htail⟩ := List.cons.inj hrest
        exact ⟨above', mid, hmid, hq, fun x hx => hbetween' x (by rw [htail]; simp [hx])⟩
    · have hdeep := hbeside q (by rw [hrest]; simp)
      omega
  · rintro ⟨above', between', rfl, hq, hbetween'⟩
    refine ⟨above', between' ++ beside, by simp, hq, fun x hx => ?_⟩
    rcases List.mem_append.1 hx with hx | hx
    · exact hbetween' x hx
    · have := hbeside x hx
      omega

/-! ## §B Collapsing -/

variable (depth) (isOpen : α → Bool)

/-- The rows that are shown; `collapsed` is the depth of the closed row above. -/
def collapse : Option Nat → List α → List α
  | _, [] => []
  | collapsed, x :: xs =>
    if collapsed.any (· < depth x) then collapse collapsed xs
    else x :: collapse (if isOpen x then none else some (depth x)) xs

/-- The depth that is remembered behind a list. -/
def pending : Option Nat → List α → Option Nat
  | collapsed, [] => collapsed
  | collapsed, x :: xs =>
    pending (if collapsed.any (· < depth x) then collapsed
      else if isOpen x then none else some (depth x)) xs

variable {depth isOpen}

theorem collapse_append (collapsed : Option Nat) (xs ys : List α) :
    collapse depth isOpen collapsed (xs ++ ys) =
      collapse depth isOpen collapsed xs ++
        collapse depth isOpen (pending depth isOpen collapsed xs) ys := by
  induction xs generalizing collapsed with
  | nil => rfl
  | cons x xs ih =>
    simp only [List.cons_append, collapse, pending]
    split
    · exact ih collapsed
    · rw [ih, List.cons_append]

theorem pending_concat (collapsed : Option Nat) (xs : List α) (x : α) :
    pending depth isOpen collapsed (xs ++ [x]) =
      if (pending depth isOpen collapsed xs).any (· < depth x) then pending depth isOpen collapsed xs
      else if isOpen x then none else some (depth x) := by
  induction xs generalizing collapsed with
  | nil => rfl
  | cons y xs ih => exact ih _

theorem collapse_sublist (collapsed : Option Nat) (xs : List α) :
    List.Sublist (collapse depth isOpen collapsed xs) xs := by
  induction xs generalizing collapsed with
  | nil => exact List.Sublist.refl _
  | cons x xs ih =>
    simp only [collapse]
    split
    · exact (ih collapsed).cons x
    · exact (ih _).cons_cons x

/-- **One depth is enough.** What comes at depth `d` is left out exactly when it lies in the subtree of a
closed row. -/
theorem pending_iff (front : List α) (d : Nat) :
    (∃ c, pending depth isOpen none front = some c ∧ c < d) ↔
      ∃ q, Encloses depth front d q ∧ isOpen q = false := by
  induction front using List.reverseRecOn generalizing d with
  | nil =>
    constructor
    · rintro ⟨c, hc, _⟩
      cases hc
    · rintro ⟨q, ⟨above, between, hnil, _⟩, _⟩
      exact absurd hnil.symm (by simp)
  | append_singleton front x ih =>
    rw [pending_concat]
    constructor
    · rintro ⟨c, hc, hlt⟩
      split at hc
      · next hskip =>
        have hx : c < depth x := by simpa [hc] using hskip
        obtain ⟨q, ⟨above, between, rfl, hq, hbetween⟩, hclosed⟩ :=
          (ih (min d (depth x))).1 ⟨c, hc, by omega⟩
        refine ⟨q, ⟨above, between ++ [x], by simp, by omega, fun y hy => ?_⟩, hclosed⟩
        rcases List.mem_append.1 hy with hy | hy
        · exact hbetween y hy
        · rw [List.mem_singleton.1 hy]
          omega
      · split at hc
        · cases hc
        · next hclosed =>
          obtain rfl := Option.some.inj hc
          exact ⟨x, ⟨front, [], rfl, hlt, fun y hy => absurd hy List.not_mem_nil⟩, by simpa using hclosed⟩
    · rintro ⟨q, ⟨above, between, heq, hq, hbetween⟩, hclosed⟩
      rcases List.eq_nil_or_concat between with rfl | ⟨between', y, rfl⟩
      · obtain ⟨_, hx⟩ := List.append_inj' heq rfl
        obtain rfl := (List.cons.inj hx).1
        split
        · next hskip =>
          obtain ⟨c, hc, hlt⟩ := (Option.any_eq_true _ _).1 hskip
          exact ⟨c, hc, by have := of_decide_eq_true hlt; omega⟩
        · rw [if_neg (by simp [hclosed])]
          exact ⟨depth x, rfl, hq⟩
      · have hsplit : front ++ [x] = (above ++ q :: between') ++ [y] := by simpa using heq
        obtain ⟨hfront, hx⟩ := List.append_inj' hsplit rfl
        obtain rfl := (List.cons.inj hx).1
        have hx := hbetween x (by simp)
        obtain ⟨c, hc, hlt⟩ := (ih (min d (depth x))).2
          ⟨q, ⟨above, between', hfront, by omega, fun z hz => hbetween z (by simp [hz])⟩, hclosed⟩
        rw [if_pos (by simp [hc]; omega)]
        exact ⟨c, hc, by omega⟩

/-- **A row is shown exactly when every row that encloses it is open.** -/
theorem mem_collapse_iff {front back : List α} {x : α} (hnodup : (front ++ x :: back).Nodup) :
    x ∈ collapse depth isOpen none (front ++ x :: back) ↔
      ∀ q, Encloses depth front (depth x) q → isOpen q = true := by
  have hfront : x ∉ front := fun hx =>
    (List.nodup_append.1 hnodup).2.2 x hx x List.mem_cons_self rfl
  have hback : x ∉ back := (List.nodup_cons.1 (List.nodup_append.1 hnodup).2.1).1
  have hpending := @pending_iff α depth isOpen front (depth x)
  rw [collapse_append, List.mem_append]
  have hno : x ∉ collapse depth isOpen none front := fun hx => hfront ((collapse_sublist _ _).subset hx)
  simp only [hno, false_or, collapse]
  split
  · next hskip =>
    obtain ⟨c, hc, hlt⟩ := (Option.any_eq_true _ _).1 hskip
    obtain ⟨q, hq, hclosed⟩ := hpending.1 ⟨c, hc, of_decide_eq_true hlt⟩
    refine ⟨fun hx => absurd ((collapse_sublist _ _).subset hx) hback, fun h => ?_⟩
    rw [h q hq] at hclosed
    cases hclosed
  · next hkeep =>
    refine ⟨fun _ q hq => ?_, fun _ => List.mem_cons_self⟩
    cases hopen : isOpen q with
    | true => rfl
    | false =>
      obtain ⟨c, hc, hlt⟩ := hpending.2 ⟨q, hq, hopen⟩
      exact absurd (by simp [hc, hlt]) hkeep

end OpencodeCloud.Library.Outline
