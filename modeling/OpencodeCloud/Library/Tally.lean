/-
# OpencodeCloud.Library.Tally -- counters that follow a list of tasks

A shared counter is right when it equals the sum of what each task contributes to it. `tally f l` is
that sum. When one task of the list changes, the tally changes by the difference of its contribution
before and after (`tally_set`), so that a step lemma about a counter is about one task only.

`Dict.total` is the sum over the entries of a dictionary; an insertion or a deletion changes it by what the
key contributed before and contributes after.
-/
import Mathlib
import OpencodeCloud.Library.Dict

namespace OpencodeCloud.Library

variable {α : Type*}

/-- The sum of the contributions of all tasks. -/
def tally (f : α → Nat) (l : List α) : Nat := (l.map f).sum

@[simp] theorem tally_nil (f : α → Nat) : tally f [] = 0 := rfl

@[simp] theorem tally_cons (f : α → Nat) (x : α) (l : List α) :
    tally f (x :: l) = f x + tally f l := by
  simp [tally]

@[simp] theorem tally_append (f : α → Nat) (l l' : List α) :
    tally f (l ++ l') = tally f l + tally f l' := by
  simp [tally]

/-- Replacing one task. -/
theorem tally_set {f : α → Nat} {l : List α} {i : Nat} {x y : α} (h : l[i]? = some x) :
    tally f (l.set i y) + f x = tally f l + f y := by
  induction l generalizing i with
  | nil => simp at h
  | cons z l ih =>
    cases i with
    | zero =>
      obtain rfl : z = x := by simpa using h
      simp only [List.set_cons_zero, tally_cons]
      omega
    | succ i =>
      have := ih (by simpa using h)
      simp only [List.set_cons_succ, tally_cons]
      omega

/-- A task contributes at most the tally. -/
theorem le_tally {f : α → Nat} {l : List α} {x : α} (h : x ∈ l) : f x ≤ tally f l := by
  induction l with
  | nil => simp at h
  | cons y l ih =>
    rcases List.mem_cons.mp h with rfl | h
    · simp
    · have := ih h
      simp only [tally_cons]
      omega

theorem tally_eq_zero {f : α → Nat} {l : List α} (h : ∀ x ∈ l, f x = 0) : tally f l = 0 := by
  induction l with
  | nil => rfl
  | cons y l ih =>
    rw [tally_cons, h y (by simp), ih fun x hx => h x (List.mem_cons_of_mem _ hx)]

theorem tally_le {f g : α → Nat} {l : List α} (h : ∀ x ∈ l, g x ≤ f x) : tally g l ≤ tally f l := by
  induction l with
  | nil => exact Nat.le_refl 0
  | cons y l ih =>
    have hy := h y List.mem_cons_self
    have hl := ih fun x hx => h x (List.mem_cons_of_mem _ hx)
    simp only [tally_cons]
    omega

/-- Where the smaller contributions come to the same sum, they are the same. -/
theorem eq_of_tally_le {f g : α → Nat} {l : List α} (hle : ∀ x ∈ l, g x ≤ f x)
    (h : tally f l ≤ tally g l) {x : α} (hx : x ∈ l) : f x = g x := by
  induction l with
  | nil => simp at hx
  | cons y l ih =>
    have hy := hle y List.mem_cons_self
    have hl := tally_le fun x hx => hle x (List.mem_cons_of_mem y hx)
    simp only [tally_cons] at h
    rcases List.mem_cons.mp hx with rfl | hx
    · omega
    · exact ih (fun x hx => hle x (List.mem_cons_of_mem _ hx)) (by omega) hx

/-! ## The total of a dictionary -/

namespace Dict

variable {κ β : Type} [DecidableEq κ]

/-- The sum of what the entries contribute. -/
def total (f : κ → β → Nat) (d : Dict κ β) : Nat := tally (fun e => f e.1 e.2) d.entries

/-- What the entry at `k` contributes, if there is one. -/
def share (f : κ → β → Nat) (d : Dict κ β) (k : κ) : Nat := (d.lookup k).elim 0 (f k)

theorem total_erase (f : κ → β → Nat) (d : Dict κ β) (k : κ) :
    total f (d.erase k) + share f d k = total f d := by
  cases hk : d.lookup k with
  | none =>
    have hmem : k ∉ d := by
      rw [← AList.lookup_eq_none]
      exact hk
    have herase : (d.erase k).entries = d.entries := List.kerase_of_notMem_keys hmem
    simp [total, share, hk, herase]
  | some v =>
    have hmem : k ∈ d.entries.keys := by
      rw [← AList.keys, ← AList.mem_keys, ← AList.lookup_isSome, hk]
      rfl
    obtain ⟨w, before, after, -, heq, herase⟩ := List.exists_of_kerase hmem
    have hw : d.lookup k = some w := mem_entries_iff.mp (by rw [heq]; simp)
    obtain rfl : v = w := Option.some.inj (hk.symm.trans hw)
    have hsmaller : (d.erase k).entries = before ++ after := herase
    simp only [total, share, hk, Option.elim_some, hsmaller, heq, tally_append, tally_cons]
    omega

theorem total_insert (f : κ → β → Nat) (d : Dict κ β) (k : κ) (v : β) :
    total f (d.insert k v) + share f d k = total f d + f k v := by
  have hinsert : total f (d.insert k v) = f k v + total f (d.erase k) := by
    simp only [total, AList.entries_insert, tally_cons]
    rfl
  have herase := total_erase f d k
  omega

/-- The total depends on what the entries contribute only. -/
theorem total_congr {f g : κ → β → Nat} {d : Dict κ β}
    (h : ∀ k v, d.lookup k = some v → f k v = g k v) : total f d = total g d := by
  simp only [total, tally]
  congr 1
  refine List.map_congr_left fun e he => ?_
  exact h e.1 e.2 (mem_entries_iff.mp he)

/-- Summed up key by key. -/
theorem tally_keys (f : κ → β → Nat) (d : Dict κ β) : tally (share f d) d.keys = total f d := by
  simp only [total, tally, AList.keys, List.keys, List.map_map]
  congr 1
  refine List.map_congr_left fun e he => ?_
  simp [share, mem_entries_iff.mp he]

end Dict

end OpencodeCloud.Library
