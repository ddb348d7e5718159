/-
# OpencodeCloud.Library.Linking -- names by the first link

The elements of a list get names. An element may link its message to a name; the first link of a message counts
for all elements with that message. An element without a linked message has a name of its own, or is named by its
place.

Whether two elements have the same name may depend on the order of the list. It does not when they are together
or apart (`Together`, `Apart`), which is said of the elements and not of an order. When they are neither there
are two orders that disagree (`exists_orders`).
-/
import Mathlib.Data.List.Nodup
import Mathlib.Data.List.Perm.Basic
import Mathlib.Data.Set.Disjoint
import Mathlib.Tactic.Common

namespace OpencodeCloud.Library

/-- How elements are named. -/
structure Linking (α μ ν : Type*) where
  message : α → Option μ
  /-- The name that an element links its message to. -/
  link : α → Option ν
  /-- The name of an element without a linked message. -/
  base : α → Option ν
  /-- The name of a place. -/
  place : ℕ → ν
  place_injective : Function.Injective place

namespace Linking

variable {α μ ν : Type*} [DecidableEq μ] (L : Linking α μ ν)

/-- The link of an element, if it is one of the message. -/
def linkOf (m : μ) (x : α) : Option ν := if L.message x = some m then L.link x else none

/-- The first link of a message. -/
def first (order : List α) (m : μ) : Option ν := order.findSome? (L.linkOf m)

/-- The names that a message is linked to. -/
def targets (all : List α) (m : μ) : Set ν := {n | ∃ x ∈ all, L.linkOf m x = some n}

variable {L} {all order : List α} {x y : α}

theorem first_mem (hperm : order.Perm all) {m : μ} {n : ν} (h : L.first order m = some n) :
    n ∈ L.targets all m := by
  obtain ⟨x, hx, hlink⟩ := List.exists_of_findSome?_eq_some h
  exact ⟨x, hperm.mem_iff.1 hx, hlink⟩

theorem first_isSome (hperm : order.Perm all) {m : μ} (h : (L.targets all m).Nonempty) :
    ∃ n, L.first order m = some n := by
  obtain ⟨n, x, hx, hlink⟩ := h
  refine Option.isSome_iff_exists.1 (List.findSome?_isSome_iff.2 ⟨x, hperm.mem_iff.2 hx, ?_⟩)
  rw [hlink]
  rfl

theorem linkOf_message {m : μ} {n : ν} (h : L.linkOf m x = some n) : L.message x = some m := by
  unfold linkOf at h
  split at h
  · assumption
  · cases h

/-- A link at the front counts. -/
theorem first_cons {m : μ} {n : ν} {l : α} (h : L.linkOf m l = some n) (rest : List α) :
    L.first (l :: rest) m = some n := by
  rw [first, List.findSome?_cons, h]

/-- A link of another message does not. -/
theorem first_cons_of_ne {m : μ} {l : α} (h : L.message l ≠ some m) (rest : List α) :
    L.first (l :: rest) m = L.first rest m := by
  rw [first, List.findSome?_cons, linkOf, if_neg h]
  rfl

/-- An element that links nothing may be put anywhere. -/
theorem first_insertIdx {m : μ} (h : L.linkOf m y = none) (k : ℕ) (rest : List α) :
    L.first (rest.insertIdx k y) m = L.first rest m := by
  induction rest generalizing k with
  | nil =>
    cases k with
    | zero => simp [first, h]
    | succ k => simp [first]
  | cons z rest ih =>
    cases k with
    | zero => simp [first, h]
    | succ k =>
      rw [List.insertIdx_succ_cons, first, first, List.findSome?_cons, List.findSome?_cons]
      cases L.linkOf m z with
      | some n => rfl
      | none => exact ih k

variable (L) in
/-- The message of an element is linked. -/
def IsLinked (all : List α) (x : α) : Prop := ∃ m, L.message x = some m ∧ (L.targets all m).Nonempty

variable (L) in
/-- An element that only its place can name. -/
def Unnamed (all : List α) (x : α) : Prop := ¬ L.IsLinked all x ∧ L.base x = none

theorem Unnamed.linkOf (h : L.Unnamed all y) (hy : y ∈ all) (m : μ) : L.linkOf m y = none := by
  cases hl : L.linkOf m y with
  | none => rfl
  | some n => exact absurd ⟨m, linkOf_message hl, n, y, hy, hl⟩ h.1

variable [DecidableEq α]

variable (L) in
/-- The name of an element. -/
def name (order : List α) (x : α) : ν :=
  match (L.message x).bind (L.first order) with
  | some n => n
  | none => (L.base x).getD (L.place (order.idxOf x))

variable (L)

/-- The names that an element may get. -/
inductive MayBe (all : List α) (x : α) : ν → Prop
  | linked {m : μ} {n : ν} (message : L.message x = some m) (target : n ∈ L.targets all m) : MayBe all x n
  | base {n : ν} (free : ¬ L.IsLinked all x) (base : L.base x = some n) : MayBe all x n
  | place {k : ℕ} (unnamed : L.Unnamed all x) (lt : k < all.length) : MayBe all x (L.place k)

/-- Two elements that have one name in every order: they share a linked message, or there is one name that each of
them gets. -/
def Together (all : List α) (x y : α) : Prop :=
  (∃ m, L.message x = some m ∧ L.message y = some m ∧ (L.targets all m).Nonempty)
    ∨ ∃ c, (∀ n, L.MayBe all x n ↔ n = c) ∧ ∀ n, L.MayBe all y n ↔ n = c

/-- Two elements that have different names in every order. -/
def Apart (all : List α) (x y : α) : Prop :=
  (L.Unnamed all x ∧ L.Unnamed all y) ∨ ∀ n, ¬ (L.MayBe all x n ∧ L.MayBe all y n)

variable {L}

theorem name_linked (hperm : order.Perm all) {m : μ} (hm : L.message x = some m)
    (h : (L.targets all m).Nonempty) : ∃ n, L.first order m = some n ∧ L.name order x = n := by
  obtain ⟨n, hn⟩ := first_isSome hperm h
  refine ⟨n, hn, ?_⟩
  rw [name, hm, Option.bind_some, hn]

theorem name_free (hperm : order.Perm all) (h : ¬ L.IsLinked all x) :
    L.name order x = (L.base x).getD (L.place (order.idxOf x)) := by
  unfold name
  cases hf : (L.message x).bind (L.first order) with
  | none => rfl
  | some n =>
    obtain ⟨m, hm, hn⟩ := Option.bind_eq_some_iff.1 hf
    exact absurd ⟨m, hm, n, first_mem hperm hn⟩ h

/-- The name in an order is one that the element may get. -/
theorem mayBe_name (hperm : order.Perm all) (hx : x ∈ all) : L.MayBe all x (L.name order x) := by
  by_cases hl : L.IsLinked all x
  · obtain ⟨m, hm, hne⟩ := hl
    obtain ⟨n, hn, hname⟩ := name_linked hperm hm hne
    rw [hname]
    exact .linked hm (first_mem hperm hn)
  · rw [name_free hperm hl]
    cases hb : L.base x with
    | some n => exact .base hl hb
    | none =>
      refine .place ⟨hl, hb⟩ ?_
      rw [← hperm.length_eq]
      exact List.idxOf_lt_length_iff.2 (hperm.mem_iff.2 hx)

theorem Together.name_eq (h : L.Together all x y) (hperm : order.Perm all) (hx : x ∈ all) (hy : y ∈ all) :
    L.name order x = L.name order y := by
  rcases h with ⟨m, hmx, hmy, hne⟩ | ⟨c, hcx, hcy⟩
  · obtain ⟨n, hn, hnx⟩ := name_linked hperm hmx hne
    obtain ⟨n', hn', hny⟩ := name_linked hperm hmy hne
    rw [hn] at hn'
    cases hn'
    rw [hnx, hny]
  · rw [(hcx _).1 (mayBe_name hperm hx), (hcy _).1 (mayBe_name hperm hy)]

theorem Apart.name_ne (h : L.Apart all x y) (hperm : order.Perm all) (hx : x ∈ all) (hy : y ∈ all)
    (hne : x ≠ y) : L.name order x ≠ L.name order y := by
  rcases h with ⟨hx', hy'⟩ | hdisjoint
  · rw [name_free hperm hx'.1, name_free hperm hy'.1, hx'.2, hy'.2]
    intro heq
    exact hne (List.idxOf_inj (hperm.mem_iff.2 hx) |>.1 (L.place_injective heq))
  · intro heq
    exact hdisjoint _ ⟨mayBe_name hperm hx, heq ▸ mayBe_name hperm hy⟩

/-! ## Orders -/

theorem idxOf_insertIdx {rest : List α} {k : ℕ} (hy : y ∉ rest) (hk : k ≤ rest.length) :
    (rest.insertIdx k y).idxOf y = k := by
  induction rest generalizing k with
  | nil =>
    obtain rfl : k = 0 := Nat.le_zero.1 hk
    simp
  | cons z rest ih =>
    cases k with
    | zero => simp
    | succ k =>
      rw [List.mem_cons, not_or] at hy
      rw [List.insertIdx_succ_cons, List.idxOf_cons_ne _ (Ne.symm hy.1), ih hy.2 (Nat.le_of_succ_le_succ hk)]

/-- An order of the others, with an unnamed element at a given place. -/
theorem exists_placed (hnodup : all.Nodup) (hy : y ∈ all) (hunnamed : L.Unnamed all y) {others : List α}
    (hothers : others.Perm (all.erase y)) {k : ℕ} (hk : k < all.length) :
    ∃ order : List α, order.Perm all ∧ L.name order y = L.place k ∧ ∀ m, L.first order m = L.first others m := by
  have hlen : k ≤ others.length := by
    rw [hothers.length_eq, List.length_erase_of_mem hy]
    omega
  have hnot : y ∉ others := fun h => hnodup.not_mem_erase (hothers.mem_iff.1 h)
  have hperm : (others.insertIdx k y).Perm all :=
    (List.perm_insertIdx y others hlen).trans ((hothers.cons y).trans (List.perm_cons_erase hy).symm)
  refine ⟨others.insertIdx k y, hperm, ?_, fun m => first_insertIdx (hunnamed.linkOf hy m) k others⟩
  rw [name_free hperm hunnamed.1, hunnamed.2, idxOf_insertIdx hnot hlen]
  rfl

/-- **Two names that two elements may get can be had in one order**, unless the elements share a linked message or
are both without a name. -/
theorem exists_order (hnodup : all.Nodup) (hy : y ∈ all) (hne : x ≠ y) {n n' : ν}
    (hn : L.MayBe all x n) (hn' : L.MayBe all y n') (hx' : ¬ L.Unnamed all x)
    (hshared : ¬ ∃ m, L.message x = some m ∧ L.message y = some m ∧ (L.targets all m).Nonempty) :
    ∃ order : List α, order.Perm all ∧ L.name order x = n ∧ L.name order y = n' := by
  cases hn with
  | place unnamed _ => exact absurd unnamed hx'
  | base free base =>
    have hname : ∀ order : List α, order.Perm all → L.name order x = n := fun order hperm => by
      rw [name_free hperm free, base]
      rfl
    cases hn' with
    | base free' base' =>
      refine ⟨all, List.Perm.refl _, hname _ (List.Perm.refl _), ?_⟩
      rw [name_free (List.Perm.refl _) free', base']
      rfl
    | place unnamed' lt =>
      obtain ⟨order, hperm, hplace, -⟩ := exists_placed hnodup hy unnamed' (List.Perm.refl _) lt
      exact ⟨order, hperm, hname order hperm, hplace⟩
    | linked message' target' =>
      obtain ⟨l, hl, hlink⟩ := target'
      have hperm : (l :: all.erase l).Perm all := (List.perm_cons_erase hl).symm
      refine ⟨l :: all.erase l, hperm, hname _ hperm, ?_⟩
      rw [name, message', Option.bind_some, first_cons hlink]
  | @linked m _ message target =>
    obtain ⟨l, hl, hlink⟩ := target
    have hfront : ∀ order : List α, (∃ rest, order = l :: rest) → L.name order x = n := by
      rintro _ ⟨rest, rfl⟩
      rw [name, message, Option.bind_some, first_cons hlink]
    have hperm : (l :: all.erase l).Perm all := (List.perm_cons_erase hl).symm
    cases hn' with
    | base free' base' =>
      refine ⟨l :: all.erase l, hperm, hfront _ ⟨_, rfl⟩, ?_⟩
      rw [name_free hperm free', base']
      rfl
    | place unnamed' lt =>
      have hyl : l ≠ y := by
        rintro rfl
        have := unnamed'.linkOf hy m
        rw [hlink] at this
        cases this
      have hothers : (l :: (all.erase y).erase l).Perm (all.erase y) :=
        (List.perm_cons_erase ((List.mem_erase_of_ne hyl).2 hl)).symm
      obtain ⟨order, hperm', hplace, hfirst⟩ := exists_placed hnodup hy unnamed' hothers lt
      refine ⟨order, hperm', ?_, hplace⟩
      rw [name, message, Option.bind_some, hfirst, first_cons hlink]
    | @linked m' _ message' target' =>
      obtain ⟨l', hl', hlink'⟩ := target'
      have hmm : L.message l ≠ some m' := by
        intro heq
        rw [linkOf_message hlink] at heq
        cases heq
        exact hshared ⟨_, message, message', _, l, hl, hlink⟩
      have hll : l' ≠ l := by
        rintro rfl
        exact hmm (linkOf_message hlink')
      have hperm2 : (l :: l' :: (all.erase l).erase l').Perm all :=
        ((List.perm_cons_erase ((List.mem_erase_of_ne hll).2 hl')).symm.cons l).trans hperm
      refine ⟨l :: l' :: (all.erase l).erase l', hperm2, hfront _ ⟨_, rfl⟩, ?_⟩
      rw [name, message', Option.bind_some, first_cons_of_ne hmm, first_cons hlink']

/-- **Two elements that are neither together nor apart** have one name in one order and two in another. -/
theorem exists_orders (hnodup : all.Nodup) (hx : x ∈ all) (hy : y ∈ all) (hne : x ≠ y)
    (htogether : ¬ L.Together all x y) (hapart : ¬ L.Apart all x y) :
    (∃ order : List α, order.Perm all ∧ L.name order x = L.name order y)
      ∧ ∃ order : List α, order.Perm all ∧ L.name order x ≠ L.name order y := by
  obtain ⟨hnamed, hcommon⟩ := not_or.1 hapart
  obtain ⟨hshared, hsingle⟩ := not_or.1 htogether
  push Not at hcommon
  obtain ⟨c, hcx, hcy⟩ := hcommon
  have hjoint : ∀ n n', L.MayBe all x n → L.MayBe all y n' →
      ∃ order : List α, order.Perm all ∧ L.name order x = n ∧ L.name order y = n' := by
    intro n n' hn hn'
    by_cases hx' : L.Unnamed all x
    · have hy' : ¬ L.Unnamed all y := fun h => hnamed ⟨hx', h⟩
      obtain ⟨order, hperm, hny, hnx⟩ := exists_order hnodup hx hne.symm hn' hn hy'
        fun ⟨m, h1, h2, h3⟩ => hshared ⟨m, h2, h1, h3⟩
      exact ⟨order, hperm, hnx, hny⟩
    · exact exists_order hnodup hy hne hn hn' hx' hshared
  constructor
  · obtain ⟨order, hperm, h1, h2⟩ := hjoint c c hcx hcy
    exact ⟨order, hperm, h1.trans h2.symm⟩
  · by_cases hall : ∀ n, L.MayBe all x n ↔ n = c
    · have hother : ¬ ∀ n, L.MayBe all y n ↔ n = c := fun h => hsingle ⟨c, hall, h⟩
      have hd : ∃ d, L.MayBe all y d ∧ d ≠ c := by
        by_contra hno
        push Not at hno
        exact hother fun n => ⟨hno n, fun h => h ▸ hcy⟩
      obtain ⟨d, hd, hdc⟩ := hd
      obtain ⟨order, hperm, h1, h2⟩ := hjoint c d hcx hd
      exact ⟨order, hperm, by rw [h1, h2]; exact hdc.symm⟩
    · have hd : ∃ d, L.MayBe all x d ∧ d ≠ c := by
        by_contra hno
        push Not at hno
        exact hall fun n => ⟨hno n, fun h => h ▸ hcx⟩
      obtain ⟨d, hd, hdc⟩ := hd
      obtain ⟨order, hperm, h1, h2⟩ := hjoint d c hd hcy
      exact ⟨order, hperm, by rw [h1, h2]; exact hdc⟩

end Linking

end OpencodeCloud.Library
