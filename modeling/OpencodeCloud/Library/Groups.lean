/-
# OpencodeCloud.Library.Groups -- the elements of a list by key

`groups.setdefault(key, []).append(element)` for one element after the other: a dictionary with the keys in
the order in which they come up, and with the elements of each in theirs. An element may have no key.

The group of a key is the list of the elements that have it (`mem_groupsBy`), and each key has one group
(`groupsBy_nodup`).
-/
import Mathlib

namespace OpencodeCloud.Library

section Groups

variable {α κ : Type*} [DecidableEq κ]

/-- `groups.setdefault(key, []).append(element)` -/
def appendTo (key : κ) (element : α) : List (κ × List α) → List (κ × List α)
  | [] => [(key, [element])]
  | (k, members) :: groups =>
    if k = key then (k, members ++ [element]) :: groups else (k, members) :: appendTo key element groups

variable (key : α → Option κ)

/-- One element. -/
def group (groups : List (κ × List α)) (element : α) : List (κ × List α) :=
  match key element with
  | none => groups
  | some k => appendTo k element groups

/-- The elements of a list by key. -/
def groupsBy (elements : List α) : List (κ × List α) := elements.foldl (group key) []

variable {key}

theorem mem_appendTo {k k' : κ} {element : α} {members : List α} {groups : List (κ × List α)}
    (hnodup : (groups.map Prod.fst).Nodup) :
    (k', members) ∈ appendTo k element groups ↔
      if k' = k then
        (∃ earlier, (k, earlier) ∈ groups ∧ members = earlier ++ [element])
          ∨ k ∉ groups.map Prod.fst ∧ members = [element]
      else (k', members) ∈ groups := by
  induction groups with
  | nil =>
    by_cases h : k' = k
    · simp [appendTo, h]
    · simp [appendTo, h]
  | cons g groups ih =>
    obtain ⟨g, earlier⟩ := g
    rw [List.map_cons, List.nodup_cons] at hnodup
    rw [appendTo]
    by_cases hg : g = k
    · subst hg
      have hnone : ∀ members, (g, members) ∉ groups := fun members hmem =>
        hnodup.1 (List.mem_map.2 ⟨(g, members), hmem, rfl⟩)
      by_cases h : k' = g
      · subst h
        simp [hnone]
      · simp [h]
    · rw [if_neg hg, List.mem_cons, ih hnodup.2]
      by_cases h : k' = k
      · subst h
        simp [Ne.symm hg]
      · simp [h]

theorem keys_appendTo (k : κ) (element : α) (groups : List (κ × List α)) :
    (appendTo k element groups).map Prod.fst
      = if k ∈ groups.map Prod.fst then groups.map Prod.fst else groups.map Prod.fst ++ [k] := by
  induction groups with
  | nil => rfl
  | cons g groups ih =>
    obtain ⟨g, earlier⟩ := g
    rw [appendTo]
    by_cases hg : g = k
    · simp [hg]
    · rw [if_neg hg, List.map_cons, ih]
      by_cases hk : k ∈ groups.map Prod.fst
      · simp [hk]
      · simp [hk, Ne.symm hg]

/-- What the dictionary is when `seen` has passed. -/
structure Grouped (key : α → Option κ) (seen : List α) (groups : List (κ × List α)) : Prop where
  nodup : (groups.map Prod.fst).Nodup
  mem : ∀ k members, (k, members) ∈ groups ↔ members = seen.filter (key · == some k) ∧ members ≠ []

theorem Grouped.mem_keys {seen : List α} {groups : List (κ × List α)} (h : Grouped key seen groups) {k : κ} :
    k ∈ groups.map Prod.fst ↔ ∃ element ∈ seen, key element = some k := by
  constructor
  · intro hk
    obtain ⟨⟨k, members⟩, hmem, rfl⟩ := List.mem_map.1 hk
    obtain ⟨rfl, hne⟩ := (h.mem _ _).1 hmem
    obtain ⟨element, helement⟩ := List.exists_mem_of_ne_nil _ hne
    obtain ⟨hseen, hkey⟩ := List.mem_filter.1 helement
    exact ⟨element, hseen, beq_iff_eq.1 hkey⟩
  · rintro ⟨element, hseen, hkey⟩
    have hne : seen.filter (key · == some k) ≠ [] :=
      List.ne_nil_of_mem (List.mem_filter.2 ⟨hseen, beq_iff_eq.2 hkey⟩)
    exact List.mem_map.2 ⟨_, (h.mem k _).2 ⟨rfl, hne⟩, rfl⟩

/-- The next element goes to its group. -/
theorem Grouped.step {seen : List α} {groups : List (κ × List α)} (h : Grouped key seen groups) (element : α) :
    Grouped key (seen ++ [element]) (group key groups element) := by
  unfold group
  cases hk : key element with
  | none =>
    refine ⟨h.nodup, fun k members => ?_⟩
    rw [h.mem, List.filter_append, List.filter_singleton, hk]
    simp
  | some k =>
    refine ⟨?_, fun k' members => ?_⟩
    · rw [keys_appendTo]
      split
      · exact h.nodup
      · rename_i hnew
        exact List.nodup_append.2 ⟨h.nodup, List.nodup_singleton k, fun a ha b hb heq =>
          hnew (List.mem_singleton.1 hb ▸ heq ▸ ha)⟩
    · rw [mem_appendTo h.nodup, List.filter_append, List.filter_singleton, hk]
      by_cases heq : k' = k
      · subst heq
        have hempty : k' ∉ groups.map Prod.fst ↔ seen.filter (key · == some k') = [] := by
          rw [h.mem_keys, List.filter_eq_nil_iff]
          simp
        simp only [if_true, beq_self_eq_true, cond_true, hempty]
        constructor
        · rintro (⟨earlier, hmem, rfl⟩ | ⟨hnone, rfl⟩)
          · exact ⟨by rw [((h.mem _ _).1 hmem).1], by simp⟩
          · exact ⟨by rw [hnone, List.nil_append], by simp⟩
        · rintro ⟨rfl, -⟩
          by_cases hnone : seen.filter (key · == some k') = []
          · exact Or.inr ⟨hnone, by rw [hnone, List.nil_append]⟩
          · exact Or.inl ⟨_, (h.mem _ _).2 ⟨rfl, hnone⟩, rfl⟩
      · have hne : (some k == some k') = false := by simpa using Ne.symm heq
        simp only [if_neg heq, hne, cond_false, List.append_nil]
        exact h.mem k' members

theorem Grouped.run (elements : List α) {seen : List α} {groups : List (κ × List α)}
    (h : Grouped key seen groups) : Grouped key (seen ++ elements) (elements.foldl (group key) groups) := by
  induction elements generalizing seen groups with
  | nil => simpa using h
  | cons element elements ih =>
    have hrun := ih (h.step element)
    rwa [List.append_assoc, List.singleton_append] at hrun

variable (key) in
theorem grouped (elements : List α) : Grouped key elements (groupsBy key elements) := by
  have hnone : Grouped key ([] : List α) [] := ⟨List.nodup_nil, fun k members => by simp⟩
  exact hnone.run elements

/-- **A group has the elements with its key.** -/
theorem mem_groupsBy {elements : List α} {k : κ} {members : List α} :
    (k, members) ∈ groupsBy key elements ↔ members = elements.filter (key · == some k) ∧ members ≠ [] :=
  (grouped key elements).mem k members

theorem groupsBy_nodup (key : α → Option κ) (elements : List α) :
    ((groupsBy key elements).map Prod.fst).Nodup := (grouped key elements).nodup

theorem mem_keys_groupsBy {elements : List α} {k : κ} :
    k ∈ (groupsBy key elements).map Prod.fst ↔ ∃ element ∈ elements, key element = some k :=
  (grouped key elements).mem_keys

theorem sum_appendTo (p : α → Bool) (k : κ) (element : α) (groups : List (κ × List α)) :
    ((appendTo k element groups).map fun group => group.2.countP p).sum
      = (groups.map fun group => group.2.countP p).sum + [element].countP p := by
  induction groups with
  | nil => simp [appendTo]
  | cons g groups ih =>
    obtain ⟨g, earlier⟩ := g
    rw [appendTo]
    split
    · simp only [List.map_cons, List.sum_cons, List.countP_append]
      omega
    · simp only [List.map_cons, List.sum_cons, ih]
      omega

/-- Counting in the groups is counting in the list, when each element has a key. -/
theorem sum_groupsBy (p : α → Bool) {elements : List α} (hkey : ∀ element ∈ elements, (key element).isSome) :
    ((groupsBy key elements).map fun group => group.2.countP p).sum = elements.countP p := by
  have hrun : ∀ (elements : List α) (groups : List (κ × List α)), (∀ element ∈ elements, (key element).isSome) →
      ((elements.foldl (group key) groups).map fun group => group.2.countP p).sum
        = (groups.map fun group => group.2.countP p).sum + elements.countP p := by
    intro elements
    induction elements with
    | nil => intro groups _; rfl
    | cons element elements ih =>
      intro groups hkey
      obtain ⟨k, hk⟩ := Option.isSome_iff_exists.1 (hkey element List.mem_cons_self)
      rw [List.foldl_cons, ih _ fun e he => hkey e (List.mem_cons_of_mem _ he), group, hk]
      show ((appendTo k element groups).map _).sum + _ = _
      rw [sum_appendTo, Nat.add_assoc, ← List.countP_append, List.singleton_append]
  rw [groupsBy, hrun elements [] hkey]
  simp

end Groups

end OpencodeCloud.Library
