/-
# OpencodeCloud.Library.Dict -- finite dictionaries

`Dict κ α` is Mathlib's association list without duplicate keys, at a constant value type. Lookup,
insertion and deletion are Mathlib's; added here are the operations a program does over the whole
dictionary (a test over the entries, a filter, a map over the values, the change of one entry) with
one lookup lemma for each, so that proofs never look at the entries.
-/
import Mathlib.Data.List.AList

namespace OpencodeCloud.Library

/-- A finite dictionary from `κ` to `α`. -/
abbrev Dict (κ α : Type) : Type := AList (fun _ : κ => α)

namespace Dict

variable {κ α β : Type} [DecidableEq κ]

theorem mem_entries_iff {d : Dict κ α} {k : κ} {v : α} :
    (⟨k, v⟩ : Sigma fun _ : κ => α) ∈ d.entries ↔ d.lookup k = some v := by
  simpa using (AList.mem_lookup_iff (a := k) (b := v) (s := d)).symm

/-- Two dictionaries are equal when their entries are, which can be computed. -/
instance [DecidableEq α] : DecidableEq (Dict κ α) := fun d e =>
  decidable_of_iff (d.entries = e.entries) AList.ext_iff.symm

/-! ## Tests over all entries -/

/-- Some entry satisfies `p`. -/
def any (d : Dict κ α) (p : κ → α → Bool) : Bool := d.entries.any fun e => p e.1 e.2

/-- Every entry satisfies `p`. -/
def all (d : Dict κ α) (p : κ → α → Bool) : Bool := d.entries.all fun e => p e.1 e.2

theorem any_eq_true {d : Dict κ α} {p : κ → α → Bool} :
    d.any p = true ↔ ∃ k v, d.lookup k = some v ∧ p k v = true := by
  simp only [any, List.any_eq_true]
  constructor
  · rintro ⟨⟨k, v⟩, hmem, hp⟩
    exact ⟨k, v, mem_entries_iff.mp hmem, hp⟩
  · rintro ⟨k, v, hlook, hp⟩
    exact ⟨⟨k, v⟩, mem_entries_iff.mpr hlook, hp⟩

theorem any_eq_false {d : Dict κ α} {p : κ → α → Bool} :
    d.any p = false ↔ ∀ k v, d.lookup k = some v → p k v = false := by
  rw [← Bool.not_eq_true, any_eq_true]
  simp only [not_exists, not_and, Bool.not_eq_true]

theorem all_eq_true {d : Dict κ α} {p : κ → α → Bool} :
    d.all p = true ↔ ∀ k v, d.lookup k = some v → p k v = true := by
  simp only [all, List.all_eq_true]
  constructor
  · intro h k v hlook
    exact h ⟨k, v⟩ (mem_entries_iff.mpr hlook)
  · rintro h ⟨k, v⟩ hmem
    exact h k v (mem_entries_iff.mp hmem)

theorem eq_empty_of_lookup_eq_none {d : Dict κ α} (h : ∀ k, d.lookup k = none) : d = ∅ := by
  apply AList.ext
  refine List.eq_nil_iff_forall_not_mem.mpr fun ⟨k, v⟩ hmem => ?_
  exact absurd (h k) (by rw [mem_entries_iff.mp hmem]; simp)

/-! ## Filtering and mapping -/

/-- The entries that satisfy `p`. -/
def filter (d : Dict κ α) (p : κ → α → Bool) : Dict κ α :=
  ⟨d.entries.filter fun e => p e.1 e.2, d.nodupKeys.sublist List.filter_sublist⟩

theorem lookup_filter {d : Dict κ α} {p : κ → α → Bool} {k : κ} {v : α} :
    (d.filter p).lookup k = some v ↔ d.lookup k = some v ∧ p k v = true := by
  rw [← mem_entries_iff, ← mem_entries_iff]
  simp [filter, List.mem_filter]

/-- A filter that leaves nothing refuses every entry. -/
theorem eq_false_of_filter_isEmpty {d : Dict κ α} {p : κ → α → Bool}
    (h : (d.filter p).keys.isEmpty = true) {k : κ} {v : α} (hk : d.lookup k = some v) :
    p k v = false := by
  by_contra hp
  rw [Bool.not_eq_false] at hp
  have hmem : k ∈ (d.filter p).keys := by
    rw [← AList.mem_keys, ← AList.lookup_isSome, lookup_filter.mpr ⟨hk, hp⟩]
    rfl
  rw [List.isEmpty_iff.mp h] at hmem
  simp at hmem

/-- Apply `f` to every key and value. -/
def mapWithKey (d : Dict κ α) (f : κ → α → β) : Dict κ β :=
  ⟨d.entries.map fun e => ⟨e.1, f e.1 e.2⟩, d.nodupKeys.map₂ f⟩

theorem lookup_mapWithKey {d : Dict κ α} {f : κ → α → β} {k : κ} :
    (d.mapWithKey f).lookup k = (d.lookup k).map (f k) :=
  List.dlookup_map₂ (l := d.entries) (f := f) k

/-- Apply `f` to every value. -/
def mapValues (d : Dict κ α) (f : α → β) : Dict κ β := d.mapWithKey fun _ => f

theorem lookup_mapValues {d : Dict κ α} {f : α → β} {k : κ} :
    (d.mapValues f).lookup k = (d.lookup k).map f :=
  lookup_mapWithKey

/-- The values that `f` selects from the entries. -/
def collect (d : Dict κ α) (f : κ → α → Option β) : List β := d.entries.filterMap fun e => f e.1 e.2

theorem mem_collect {d : Dict κ α} {f : κ → α → Option β} {b : β} :
    b ∈ d.collect f ↔ ∃ k v, d.lookup k = some v ∧ f k v = some b := by
  simp only [collect, List.mem_filterMap]
  constructor
  · rintro ⟨⟨k, v⟩, hmem, hf⟩
    exact ⟨k, v, mem_entries_iff.mp hmem, hf⟩
  · rintro ⟨k, v, hlook, hf⟩
    exact ⟨⟨k, v⟩, mem_entries_iff.mpr hlook, hf⟩

/-! ## Equality as maps -/

/-- Two dictionaries have the same entries, in whatever order. -/
def same [DecidableEq α] (d e : Dict κ α) : Bool :=
  (d.all fun k v => e.lookup k == some v) && (e.all fun k v => d.lookup k == some v)

theorem same_iff [DecidableEq α] {d e : Dict κ α} :
    d.same e = true ↔ ∀ k, d.lookup k = e.lookup k := by
  simp only [same, Bool.and_eq_true, all_eq_true, beq_iff_eq]
  constructor
  · rintro ⟨hde, hed⟩ k
    cases hd : d.lookup k with
    | some v => exact (hde k v hd).symm
    | none =>
      cases he : e.lookup k with
      | none => rfl
      | some v =>
        have hback := hed k v he
        rw [hd] at hback
        exact hback
  · intro h
    exact ⟨fun k v hd => by rw [← h, hd], fun k v he => by rw [h, he]⟩

@[simp] theorem same_refl [DecidableEq α] (d : Dict κ α) : d.same d = true :=
  same_iff.mpr fun _ => rfl

theorem same_symm [DecidableEq α] {d e : Dict κ α} (h : d.same e = true) : e.same d = true :=
  same_iff.mpr fun k => (same_iff.mp h k).symm

theorem same_trans [DecidableEq α] {d e f : Dict κ α} (h : d.same e = true)
    (h' : e.same f = true) : d.same f = true :=
  same_iff.mpr fun k => (same_iff.mp h k).trans (same_iff.mp h' k)

/-! ## One value for many keys -/

/-- The dictionary that has the value `v` at every key of a list. -/
def ofKeys (v : α) : List κ → Dict κ α
  | [] => ∅
  | k :: l => (ofKeys v l).insert k v

theorem lookup_ofKeys {v v' : α} {l : List κ} {k : κ} :
    (ofKeys v l).lookup k = some v' ↔ k ∈ l ∧ v' = v := by
  induction l with
  | nil => simp [ofKeys]
  | cons k' l ih =>
    by_cases h : k = k'
    · subst h
      simp [ofKeys, eq_comm]
    · simp [ofKeys, AList.lookup_insert_ne h, ih, h]

/-! ## Changing one entry -/

/-- Apply `f` to the value at `k`, if there is one. -/
def modify (d : Dict κ α) (k : κ) (f : α → α) : Dict κ α :=
  match d.lookup k with
  | some v => d.insert k (f v)
  | none => d

@[simp] theorem lookup_modify_self {d : Dict κ α} {k : κ} {f : α → α} :
    (d.modify k f).lookup k = (d.lookup k).map f := by
  cases h : d.lookup k <;> simp [modify, h]

@[simp] theorem lookup_modify_ne {d : Dict κ α} {k k' : κ} {f : α → α} (hne : k' ≠ k) :
    (d.modify k f).lookup k' = d.lookup k' := by
  cases h : d.lookup k with
  | none => simp [modify, h]
  | some v => simp [modify, h, AList.lookup_insert_ne hne]

/-- What is found after `insert` is the new entry or an old one. -/
theorem lookup_insert_cases {d : Dict κ α} {k k' : κ} {v v' : α}
    (h : (d.insert k v).lookup k' = some v') :
    (k' = k ∧ v' = v) ∨ (k' ≠ k ∧ d.lookup k' = some v') := by
  by_cases hk : k' = k
  · subst hk
    exact Or.inl ⟨rfl, by simpa using h.symm⟩
  · exact Or.inr ⟨hk, by rwa [AList.lookup_insert_ne hk] at h⟩

/-- What is found after `modify` is the changed entry or an old one. -/
theorem lookup_modify_cases {d : Dict κ α} {k k' : κ} {f : α → α} {v' : α}
    (h : (d.modify k f).lookup k' = some v') :
    (k' = k ∧ ∃ v, d.lookup k = some v ∧ v' = f v) ∨ (k' ≠ k ∧ d.lookup k' = some v') := by
  by_cases hk : k' = k
  · subst hk
    rw [lookup_modify_self, Option.map_eq_some_iff] at h
    obtain ⟨v, hv, rfl⟩ := h
    exact Or.inl ⟨rfl, v, hv, rfl⟩
  · exact Or.inr ⟨hk, by rwa [lookup_modify_ne hk] at h⟩

/-- What is found after `erase` was there before, under another key. -/
theorem lookup_erase_cases {d : Dict κ α} {k k' : κ} {v : α}
    (h : (d.erase k).lookup k' = some v) : k' ≠ k ∧ d.lookup k' = some v := by
  by_cases hk : k' = k
  · subst hk
    simp at h
  · exact ⟨hk, by rwa [AList.lookup_erase_ne hk] at h⟩

end Dict

end OpencodeCloud.Library
