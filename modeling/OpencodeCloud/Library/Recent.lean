/-
# OpencodeCloud.Library.Recent -- maps that remember the last keys only

A map that keeps its entries in the order in which their keys were first set, and forgets the oldest ones
when it holds more than `limit`. Setting a key again changes its value and leaves it where it is.

A key stays as long as fewer than `limit` other keys are new (`Held`): what has come behind it is among the
keys that were set since, and it has to make room for `limit` of them. A program that reports a key unless
the map knows it therefore reports it again only when it has forgotten it on purpose, or `limit` other keys
were reported in between (`reported_apart`).
-/
import Mathlib.Data.Finset.Card
import Mathlib.Data.List.Nodup
import OpencodeCloud.Library.Machine

namespace OpencodeCloud.Library

/-- The entries in the order of their keys' arrival. -/
structure Recent (κ α : Type) (limit : Nat) where
  entries : List (κ × α)
  nodup : (entries.map Prod.fst).Nodup
  length_le : entries.length ≤ limit

namespace Recent

variable {κ α : Type} {limit : Nat}

/-! ## §A The operations -/

def keys (m : Recent κ α limit) : List κ := m.entries.map Prod.fst

def empty : Recent κ α limit := ⟨[], List.nodup_nil, Nat.zero_le limit⟩

/-- Forget the keys with a property. -/
def forget (m : Recent κ α limit) (p : κ → Bool) : Recent κ α limit where
  entries := m.entries.filter fun e => !p e.1
  nodup := m.nodup.sublist (List.filter_sublist.map Prod.fst)
  length_le := Nat.le_trans List.filter_sublist.length_le m.length_le

variable [DecidableEq κ]

def get? (m : Recent κ α limit) (k : κ) : Option α := m.entries.lookup k

/-- Set a key: a known one keeps its place. -/
def setEntry (entries : List (κ × α)) (k : κ) (v : α) : List (κ × α) :=
  if k ∈ entries.map Prod.fst then entries.map fun e => if e.1 = k then (k, v) else e
  else entries ++ [(k, v)]

theorem keys_setEntry (entries : List (κ × α)) (k : κ) (v : α) :
    (setEntry entries k v).map Prod.fst =
      if k ∈ entries.map Prod.fst then entries.map Prod.fst else entries.map Prod.fst ++ [k] := by
  unfold setEntry
  split
  · rw [List.map_map]
    refine List.map_congr_left fun e _ => ?_
    by_cases he : e.1 = k <;> simp [he]
  · simp

/-- Set a key, and forget the oldest ones. -/
def bounded (m : Recent κ α limit) (k : κ) (v : α) : Recent κ α limit where
  entries := (setEntry m.entries k v).drop ((setEntry m.entries k v).length - limit)
  nodup := by
    refine List.Nodup.sublist ((List.drop_sublist _ _).map Prod.fst) ?_
    rw [keys_setEntry]
    split
    · exact m.nodup
    · next hnew => exact m.nodup.append (List.nodup_singleton k) (by simpa using hnew)
  length_le := by
    rw [List.length_drop]
    omega

theorem entries_bounded_known {m : Recent κ α limit} {k : κ} (h : k ∈ m.keys) (v : α) :
    (m.bounded k v).entries = m.entries.map fun e => if e.1 = k then (k, v) else e := by
  have hset : setEntry m.entries k v = m.entries.map fun e => if e.1 = k then (k, v) else e := if_pos h
  show (setEntry m.entries k v).drop ((setEntry m.entries k v).length - limit) = _
  rw [hset, List.length_map, Nat.sub_eq_zero_of_le m.length_le, List.drop_zero]

theorem entries_bounded_new {m : Recent κ α limit} {k : κ} (h : k ∉ m.keys) (v : α) :
    (m.bounded k v).entries = (m.entries ++ [(k, v)]).drop (m.entries.length + 1 - limit) := by
  have hset : setEntry m.entries k v = m.entries ++ [(k, v)] := if_neg h
  show (setEntry m.entries k v).drop ((setEntry m.entries k v).length - limit) = _
  rw [hset, List.length_append, List.length_singleton]

/-! ## §B Entries -/

omit [DecidableEq κ] in
@[simp] theorem mem_keys {m : Recent κ α limit} {k : κ} : k ∈ m.keys ↔ ∃ v, (k, v) ∈ m.entries := by
  simp [keys]

omit [DecidableEq κ] in
@[simp] theorem mem_forget {m : Recent κ α limit} {p : κ → Bool} {e : κ × α} :
    e ∈ (m.forget p).entries ↔ e ∈ m.entries ∧ p e.1 = false := by
  simp [forget]

theorem get?_eq_some {m : Recent κ α limit} {k : κ} {v : α} :
    m.get? k = some v ↔ (k, v) ∈ m.entries := by
  have hnodup := m.nodup
  unfold get?
  generalize m.entries = entries at hnodup ⊢
  induction entries with
  | nil => simp
  | cons e entries ih =>
    obtain ⟨k', v'⟩ := e
    rw [List.map_cons, List.nodup_cons] at hnodup
    rw [List.lookup_cons, List.mem_cons]
    by_cases hk : k = k'
    · subst hk
      simp only [beq_self_eq_true, Option.some.injEq, Prod.mk.injEq, true_and]
      constructor
      · exact fun h => Or.inl h.symm
      · rintro (h | hmem)
        · exact h.symm
        · exact absurd (List.mem_map_of_mem hmem) hnodup.1
    · have hbeq : (k == k') = false := beq_false_of_ne hk
      simp only [hbeq, Prod.mk.injEq, hk, false_and, false_or]
      exact ih hnodup.2

theorem get?_eq_none {m : Recent κ α limit} {k : κ} : m.get? k = none ↔ k ∉ m.keys := by
  rw [Option.eq_none_iff_forall_ne_some]
  simp only [ne_eq, get?_eq_some, mem_keys, not_exists]

/-- What is in a map was there before, or has just been set. -/
theorem mem_bounded {m : Recent κ α limit} {k : κ} {v : α} {e : κ × α}
    (h : e ∈ (m.bounded k v).entries) : e = (k, v) ∨ e ∈ m.entries ∧ e.1 ≠ k := by
  have hset : e ∈ setEntry m.entries k v := List.mem_of_mem_drop h
  unfold setEntry at hset
  split at hset
  · obtain ⟨e', he', rfl⟩ := List.mem_map.1 hset
    split
    · exact Or.inl rfl
    · next hne => exact Or.inr ⟨he', hne⟩
  · next hnew =>
    rcases List.mem_append.1 hset with hold | hlast
    · exact Or.inr ⟨hold, fun heq => hnew (heq ▸ List.mem_map_of_mem hold)⟩
    · exact Or.inl (List.mem_singleton.1 hlast)

/-! ## §C How long a key is remembered -/

/-- The key is there, and what has come behind it is among `since`. -/
def Held (m : Recent κ α limit) (k : κ) (v : α) (since : List κ) : Prop :=
  ∃ front back, m.entries = front ++ (k, v) :: back ∧ ∀ e ∈ back, e.1 ∈ since

omit [DecidableEq κ] in
theorem Held.mem {m : Recent κ α limit} {k : κ} {v : α} {since : List κ} (h : m.Held k v since) :
    (k, v) ∈ m.entries := by
  obtain ⟨front, back, heq, _⟩ := h
  rw [heq]
  simp

omit [DecidableEq κ] in
theorem Held.mono {m : Recent κ α limit} {k : κ} {v : α} {since since' : List κ} (h : m.Held k v since)
    (hsub : since ⊆ since') : m.Held k v since' := by
  obtain ⟨front, back, heq, hback⟩ := h
  exact ⟨front, back, heq, fun e he => hsub (hback e he)⟩

/-- A new key comes last. -/
theorem bounded_held (hlimit : 0 < limit) {m : Recent κ α limit} {k : κ} (hnew : k ∉ m.keys) (v : α) :
    (m.bounded k v).Held k v [] := by
  refine ⟨m.entries.drop (m.entries.length + 1 - limit), [], ?_, fun e he => absurd he List.not_mem_nil⟩
  have hlength := m.length_le
  rw [entries_bounded_new hnew, List.drop_append_of_le_length (by omega)]

/-- **A key has to make room for `limit` others.** -/
theorem Held.bounded {m : Recent κ α limit} {k k' : κ} {v v' : α} {since : List κ}
    (h : m.Held k v since) (hne : k' ≠ k) (hsince : k' ∈ since) (hroom : since.toFinset.card < limit) :
    (m.bounded k' v').Held k v since := by
  obtain ⟨front, back, heq, hback⟩ := h
  have hlength := m.length_le
  by_cases hknown : k' ∈ m.keys
  · -- a known key keeps its place, and nothing is forgotten
    refine ⟨front.map fun e => if e.1 = k' then (k', v') else e,
      back.map fun e => if e.1 = k' then (k', v') else e, ?_, fun e he => ?_⟩
    · rw [entries_bounded_known hknown, heq]
      simp [hne.symm]
    · obtain ⟨e', he', rfl⟩ := List.mem_map.1 he
      split
      · exact hsince
      · exact hback e' he'
  · have hnew : ∀ e ∈ back ++ [(k', v')], e.1 ∈ since := by
      intro e he
      rcases List.mem_append.1 he with he | he
      · exact hback e he
      · rw [List.mem_singleton.1 he]
        exact hsince
    have hnodup : ((back ++ [(k', v')]).map Prod.fst).Nodup := by
      have hall : ((m.entries ++ [(k', v')]).map Prod.fst).Nodup := by
        rw [List.map_append]
        exact m.nodup.append (List.nodup_singleton _) (by simpa [keys] using hknown)
      refine hall.sublist (List.Sublist.map _ ?_)
      rw [heq, List.append_assoc]
      exact (List.sublist_cons_self _ _).trans (List.sublist_append_right _ _)
    have hcard : (back ++ [(k', v')]).length ≤ since.toFinset.card := by
      rw [← List.length_map Prod.fst, ← List.toFinset_card_of_nodup hnodup]
      refine Finset.card_le_card fun x hx => ?_
      obtain ⟨e, he, rfl⟩ := List.mem_map.1 (List.mem_toFinset.1 hx)
      exact List.mem_toFinset.2 (hnew e he)
    rw [List.length_append, List.length_singleton] at hcard
    have htotal : m.entries.length = front.length + (back.length + 1) := by
      rw [heq, List.length_append, List.length_cons]
    refine ⟨front.drop (m.entries.length + 1 - limit), back ++ [(k', v')], ?_, hnew⟩
    rw [entries_bounded_new hknown]
    have hdrop : m.entries.length + 1 - limit ≤ front.length := by omega
    generalize m.entries.length + 1 - limit = n at hdrop ⊢
    rw [heq, List.append_assoc, List.drop_append_of_le_length hdrop]
    simp

/-- A key that is set again keeps its place. -/
theorem Held.again {m : Recent κ α limit} {k : κ} {v v' : α} {since : List κ} (h : m.Held k v since) :
    (m.bounded k v').Held k v' since := by
  have hknown : k ∈ m.keys := mem_keys.2 ⟨v, h.mem⟩
  obtain ⟨front, back, heq, hback⟩ := h
  refine ⟨front.map fun e => if e.1 = k then (k, v') else e,
    back.map fun e => if e.1 = k then (k, v') else e, ?_, fun e he => ?_⟩
  · rw [entries_bounded_known hknown, heq]
    simp
  · obtain ⟨e', he', rfl⟩ := List.mem_map.1 he
    have hsince := hback e' he'
    split
    · next hk => exact hk ▸ hsince
    · exact hsince

omit [DecidableEq κ] in
/-- A key that is left in stays where it is. -/
theorem Held.filter {m m' : Recent κ α limit} {k : κ} {v : α} {since : List κ} (h : m.Held k v since)
    {p : κ × α → Bool} (heq : m'.entries = m.entries.filter p) (hk : p (k, v) = true) :
    m'.Held k v since := by
  obtain ⟨front, back, hentries, hback⟩ := h
  refine ⟨front.filter p, back.filter p, ?_, fun e he => hback e (List.mem_filter.1 he).1⟩
  rw [heq, hentries, List.filter_append, List.filter_cons_of_pos hk]

omit [DecidableEq κ] in
theorem Held.forget {m : Recent κ α limit} {k : κ} {v : α} {since : List κ} (h : m.Held k v since)
    {p : κ → Bool} (hk : p k = false) : (m.forget p).Held k v since :=
  h.filter rfl (by simp [hk])

/-! ## §D Reporting a key unless the map knows it -/

/-- What happens to a map of the reported keys. -/
inductive Act (κ : Type) where
  | report (k : κ)
  | forget (p : κ → Bool)

/-- A key is reported where the map does not know it. -/
def reporting (κ : Type) [DecidableEq κ] (limit : Nat) : Machine (Recent κ Unit limit) (Act κ) where
  step m
    | .report k => if k ∈ m.keys then none else some (m.bounded k ())
    | .forget p => some (m.forget p)

def Act.reported : Act κ → Option κ
  | .report k => some k
  | .forget _ => none

/-- What the map knows was reported, or known before. -/
theorem keys_run {m t : Recent κ Unit limit} {acts : List (Act κ)}
    (hrun : (reporting κ limit).run m acts = some t) {k : κ} (hk : k ∈ t.keys) :
    k ∈ m.keys ∨ k ∈ acts.filterMap Act.reported := by
  induction acts generalizing m with
  | nil =>
    obtain rfl := Option.some.inj hrun
    exact Or.inl hk
  | cons a acts ih =>
    obtain ⟨u, hstep, hrest⟩ := (reporting κ limit).run_cons_inv hrun
    have hlater : k ∈ acts.filterMap Act.reported → k ∈ (a :: acts).filterMap Act.reported := fun h => by
      rw [List.filterMap_cons]
      split
      · exact h
      · exact List.mem_cons_of_mem _ h
    rcases ih hrest with hu | hreported
    · obtain ⟨v, hv⟩ := mem_keys.1 hu
      cases a with
      | report k' =>
        simp only [reporting] at hstep
        split at hstep
        · cases hstep
        · obtain rfl := Option.some.inj hstep
          rcases mem_bounded hv with heq | ⟨hold, _⟩
          · exact Or.inr (by simp [Act.reported, (Prod.mk.inj heq).1])
          · exact Or.inl (mem_keys.2 ⟨v, hold⟩)
      | forget p =>
        obtain rfl := Option.some.inj hstep
        exact Or.inl (mem_keys.2 ⟨v, (mem_forget.1 hv).1⟩)
    · exact Or.inr (hlater hreported)

/-- The key is not forgotten. -/
def Act.Leaves (k : κ) (a : Act κ) : Prop := ∀ p, a = .forget p → p k = false

theorem held_run {m t : Recent κ Unit limit} {k : κ} {since : List κ} (hroom : since.toFinset.card < limit)
    {acts : List (Act κ)} (hsince : ∀ k' ∈ acts.filterMap Act.reported, k' ∈ since)
    (hleaves : ∀ a ∈ acts, a.Leaves k) (h : m.Held k () since)
    (hrun : (reporting κ limit).run m acts = some t) : t.Held k () since := by
  induction acts generalizing m with
  | nil =>
    obtain rfl := Option.some.inj hrun
    exact h
  | cons a acts ih =>
    obtain ⟨u, hstep, hrest⟩ := (reporting κ limit).run_cons_inv hrun
    rw [List.forall_mem_cons] at hleaves
    refine ih (fun k' hk' => hsince k' ?_) hleaves.2 ?_ hrest
    · rw [List.filterMap_cons]
      split
      · exact hk'
      · exact List.mem_cons_of_mem _ hk'
    · cases a with
      | report k' =>
        simp only [reporting] at hstep
        split at hstep
        · cases hstep
        · next hnew =>
          obtain rfl := Option.some.inj hstep
          have hne : k' ≠ k := by
            rintro rfl
            exact hnew (mem_keys.2 ⟨(), h.mem⟩)
          exact h.bounded hne (hsince k' (by simp [Act.reported])) hroom
      | forget p =>
        obtain rfl := Option.some.inj hstep
        exact h.forget (hleaves.1 p rfl)

/-- **A key is reported again only after it was forgotten, or after `limit` others.** -/
theorem reported_apart (hlimit : 0 < limit) {m t : Recent κ Unit limit} {k : κ}
    {before between after : List (Act κ)}
    (hrun : (reporting κ limit).run m (before ++ .report k :: (between ++ .report k :: after)) = some t) :
    (∃ p, .forget p ∈ between ∧ p k = true) ∨
      limit ≤ (between.filterMap Act.reported).toFinset.card := by
  by_contra hneither
  push Not at hneither
  obtain ⟨hforget, hroom⟩ := hneither
  obtain ⟨m₁, _, hrest⟩ := (reporting κ limit).run_append hrun
  obtain ⟨m₂, hfirst, hrest⟩ := (reporting κ limit).run_cons_inv hrest
  obtain ⟨m₃, hbetween, hrest⟩ := (reporting κ limit).run_append hrest
  obtain ⟨m₄, hagain, _⟩ := (reporting κ limit).run_cons_inv hrest
  simp only [reporting] at hfirst hagain
  split at hfirst
  · cases hfirst
  next hnew =>
  obtain rfl := Option.some.inj hfirst
  have hheld : m₃.Held k () (between.filterMap Act.reported) := by
    refine held_run hroom (fun _ hk' => hk') ?_ ((bounded_held hlimit hnew ()).mono (List.nil_subset _)) hbetween
    rintro a ha p rfl
    exact Bool.eq_false_iff.2 (hforget p ha)
  rw [if_pos (mem_keys.2 ⟨(), hheld.mem⟩)] at hagain
  cases hagain

end Recent

end OpencodeCloud.Library
