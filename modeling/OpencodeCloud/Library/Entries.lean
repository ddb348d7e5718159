/-
# OpencodeCloud.Library.Entries -- dictionaries that keep the order of their entries

A Python dictionary lists its entries in the order in which their keys came up; a new value for a key that is there
takes the place of the old one. `Entries` is that list, without duplicate keys.
-/
import Mathlib.Data.List.Nodup
import Mathlib.Tactic.Common

namespace OpencodeCloud.Library

/-- A dictionary with its entries in order. -/
@[ext]
structure Entries (κ α : Type) where
  list : List (κ × α)
  nodup : (list.map Prod.fst).Nodup

namespace Entries

variable {κ α : Type} [DecidableEq κ]

def empty : Entries κ α := ⟨[], List.nodup_nil⟩

/-- `d.get(key)` -/
def get? (d : Entries κ α) (key : κ) : Option α := d.list.lookup key

/-- The list after `d[key] = value`. -/
def setIn (key : κ) (value : α) : List (κ × α) → List (κ × α)
  | [] => [(key, value)]
  | (k, v) :: rest => if k = key then (k, value) :: rest else (k, v) :: setIn key value rest

theorem keys_setIn (key : κ) (value : α) (list : List (κ × α)) :
    (setIn key value list).map Prod.fst
      = if key ∈ list.map Prod.fst then list.map Prod.fst else list.map Prod.fst ++ [key] := by
  induction list with
  | nil => rfl
  | cons entry rest ih =>
    obtain ⟨k, v⟩ := entry
    rw [setIn]
    by_cases hk : k = key
    · simp [hk]
    · rw [if_neg hk, List.map_cons, ih]
      by_cases hmem : key ∈ rest.map Prod.fst
      · simp [hmem]
      · simp [hmem, Ne.symm hk]

/-- `d[key] = value` -/
def set (d : Entries κ α) (key : κ) (value : α) : Entries κ α where
  list := setIn key value d.list
  nodup := by
    rw [keys_setIn]
    split
    · exact d.nodup
    · rename_i hnew
      exact List.nodup_append.2 ⟨d.nodup, List.nodup_singleton key, fun a ha b hb heq =>
        hnew (List.mem_singleton.1 hb ▸ heq ▸ ha)⟩

theorem mem_iff_get? {d : Entries κ α} {key : κ} {value : α} : (key, value) ∈ d.list ↔ d.get? key = some value := by
  obtain ⟨list, hnodup⟩ := d
  unfold get?
  simp only
  induction list with
  | nil => simp
  | cons entry rest ih =>
    obtain ⟨k, v⟩ := entry
    rw [List.map_cons, List.nodup_cons] at hnodup
    rw [List.mem_cons, List.lookup_cons, ih hnodup.2]
    by_cases hk : key = k
    · subst hk
      have hnone : rest.lookup key ≠ some value := by
        intro h
        exact hnodup.1 (List.mem_map.2 ⟨_, (ih hnodup.2).2 h, rfl⟩)
      simp [hnone, eq_comm]
    · have hne : (key == k) = false := by simpa using hk
      simp [hk, hne]

theorem get?_set (d : Entries κ α) (key : κ) (value : α) (k : κ) :
    (d.set key value).get? k = if k = key then some value else d.get? k := by
  obtain ⟨list, hnodup⟩ := d
  unfold get? set
  simp only
  clear hnodup
  induction list with
  | nil =>
    by_cases hk : k = key
    · simp [setIn, hk]
    · have hne : (k == key) = false := by simpa using hk
      simp [setIn, hk, List.lookup_cons, hne]
  | cons entry rest ih =>
    obtain ⟨k', v⟩ := entry
    rw [setIn]
    by_cases hk' : k' = key
    · subst hk'
      by_cases hk : k = k'
      · simp [hk]
      · have hne : (k == k') = false := by simpa using hk
        simp [hk, List.lookup_cons, hne]
    · rw [if_neg hk', List.lookup_cons, List.lookup_cons, ih]
      by_cases hk : k = k'
      · simp [hk, hk']
      · have hne : (k == k') = false := by simpa using hk
        simp [hne]

@[simp] theorem get?_set_self (d : Entries κ α) (key : κ) (value : α) : (d.set key value).get? key = some value := by
  rw [get?_set, if_pos rfl]

/-- An entry after the assignment is the new one or an old one. -/
theorem mem_set {d : Entries κ α} {key : κ} {value : α} {entry : κ × α} (h : entry ∈ (d.set key value).list) :
    entry = (key, value) ∨ entry ∈ d.list := by
  have hget := mem_iff_get?.1 h
  rw [get?_set] at hget
  split at hget
  · rename_i hkey
    exact Or.inl (Prod.ext hkey (Option.some.inj hget).symm)
  · exact Or.inr (mem_iff_get?.2 hget)

/-- A new key goes to the end. -/
theorem list_set_of_notMem {d : Entries κ α} {key : κ} {value : α} (h : key ∉ d.list.map Prod.fst) :
    (d.set key value).list = d.list ++ [(key, value)] := by
  have hrun : ∀ list : List (κ × α), key ∉ list.map Prod.fst → setIn key value list = list ++ [(key, value)] := by
    intro list
    induction list with
    | nil => exact fun _ => rfl
    | cons entry rest ih =>
      intro hnot
      rw [List.map_cons, List.mem_cons, not_or] at hnot
      rw [setIn, if_neg (Ne.symm hnot.1), ih hnot.2, List.cons_append]
  exact hrun d.list h

end Entries

end OpencodeCloud.Library
