/-
# OpencodeCloud.Library.Counter -- dictionaries of counters

Programs keep counters by key in a dictionary where an absent key counts as zero. The three ways to
change one entry are here with what they do to the count of every key: `increment`, `decrement`
(which keeps the key) and `drop` (which forgets a key at zero, so that a `Clean` counter in which
nothing is counted is the empty dictionary).
-/
import Mathlib
import OpencodeCloud.Library.Dict

namespace OpencodeCloud.Library

variable {κ : Type} [DecidableEq κ]

/-- `counter.get(key, 0)`. -/
def count (c : Dict κ Nat) (k : κ) : Nat := (c.lookup k).getD 0

/-- Count one more. -/
def increment (c : Dict κ Nat) (k : κ) : Dict κ Nat := c.insert k (count c k + 1)

/-- Count one less, not below zero. -/
def decrement (c : Dict κ Nat) (k : κ) : Dict κ Nat := c.insert k (count c k - 1)

/-- Count one less, and forget the key when nothing remains. -/
def drop (c : Dict κ Nat) (k : κ) : Dict κ Nat :=
  if count c k > 1 then c.insert k (count c k - 1) else c.erase k

@[simp] theorem count_empty (k : κ) : count (∅ : Dict κ Nat) k = 0 := by simp [count]

theorem count_insert {c : Dict κ Nat} {k k' : κ} {n : Nat} :
    count (c.insert k n) k' = if k = k' then n else count c k' := by
  by_cases h : k = k'
  · subst h
    simp [count]
  · simp [count, AList.lookup_insert_ne (Ne.symm h), h]

theorem count_erase {c : Dict κ Nat} {k k' : κ} :
    count (c.erase k) k' = if k = k' then 0 else count c k' := by
  by_cases h : k = k'
  · subst h
    simp [count]
  · simp [count, AList.lookup_erase_ne (Ne.symm h), h]

theorem count_increment {c : Dict κ Nat} {k k' : κ} :
    count (increment c k) k' = count c k' + if k = k' then 1 else 0 := by
  rw [increment, count_insert]
  by_cases h : k = k'
  · simp [h]
  · simp [h]

theorem count_decrement {c : Dict κ Nat} {k k' : κ} :
    count (decrement c k) k' = count c k' - if k = k' then 1 else 0 := by
  rw [decrement, count_insert]
  by_cases h : k = k'
  · simp [h]
  · simp [h]

theorem count_drop {c : Dict κ Nat} {k k' : κ} :
    count (drop c k) k' = count c k' - if k = k' then 1 else 0 := by
  unfold drop
  split
  · rw [count_insert]
    by_cases h : k = k'
    · simp [h]
    · simp [h]
  · rw [count_erase]
    by_cases h : k = k'
    · subst h
      simp only [if_pos]
      omega
    · simp [h]

/-- No key of the counter is at zero. -/
def Clean (c : Dict κ Nat) : Prop := ∀ k, c.lookup k ≠ some 0

theorem clean_empty : Clean (∅ : Dict κ Nat) := fun k => by simp

theorem Clean.increment {c : Dict κ Nat} (h : Clean c) (k : κ) : Clean (increment c k) := by
  intro k' h0
  rcases Dict.lookup_insert_cases h0 with ⟨_, h0⟩ | ⟨_, h0⟩
  · omega
  · exact h k' h0

theorem Clean.drop {c : Dict κ Nat} (h : Clean c) (k : κ) : Clean (drop c k) := by
  intro k' h0
  unfold Library.drop at h0
  split at h0
  · rcases Dict.lookup_insert_cases h0 with ⟨_, h0⟩ | ⟨_, h0⟩
    · omega
    · exact h k' h0
  · exact h k' (Dict.lookup_erase_cases h0).2

/-- A clean counter in which nothing is counted is empty. -/
theorem Clean.eq_empty {c : Dict κ Nat} (h : Clean c) (hz : ∀ k, count c k = 0) : c = ∅ := by
  refine Dict.eq_empty_of_lookup_eq_none fun k => ?_
  have hk := hz k
  unfold count at hk
  cases hl : c.lookup k with
  | none => rfl
  | some n =>
    rw [hl, Option.getD_some] at hk
    exact absurd (hk ▸ hl) (h k)

/-! ## The sum over all keys -/

/-- `sum(counter.values())`. -/
def total (c : Dict κ Nat) : Nat := (c.entries.map Sigma.snd).sum

end OpencodeCloud.Library
