/-
# OpencodeCloud.Library.Keys -- JSON values as keys of dictionaries and of sorts

Python takes a parsed JSON value as a key of a dictionary or a member of a set when it has a hash: when it is no
list and no dictionary. Two such values are one key when they are equal, a number and a truth value of its
value among them (`key?_inj`).

A sort compares its keys with `<`, which raises for two values of different types, for two nulls and for two
dictionaries. Numbers compare by value, texts by their characters, lists by the first items that differ. A sort
that orders two incomparable keys has to compare them or two others of their types, so it raises if and only if
two of its keys cannot be compared.
-/
import OpencodeCloud.Library.Json
import OpencodeCloud.Library.Checks
import Mathlib.Algebra.Order.Ring.Rat
import Mathlib.Data.List.Sort
import Mathlib.Data.String.Basic

namespace OpencodeCloud.Library

/-- What a value with a hash is as a key. -/
inductive Key
  | null
  | text (s : String)
  | number (x : FloatValue)
  deriving DecidableEq

namespace Json

/-- The key that a value is; `none` when `hash` raises. -/
def key? : Json → Option Key
  | .null => some .null
  | .string s => some (.text s)
  | .array _ => none
  | .object _ => none
  | j => j.number?.map .number

def hashable (j : Json) : Bool := j.key?.isSome

/-- **Equal values are one key**, and no others. -/
theorem key?_inj {a b : Json} (ha : a.hashable = true) (hb : b.hashable = true) :
    a.key? = b.key? ↔ same a b = true := by
  cases a with
  | array items => cases ha
  | object fields => cases ha
  | null =>
    cases b with
    | float x => cases x <;> simp [key?, same, sameScalar, number?]
    | _ => simp_all [key?, hashable, same, sameScalar, number?]
  | string s =>
    cases b with
    | float x => cases x <;> simp [key?, same, sameScalar, number?]
    | _ => simp_all [key?, hashable, same, sameScalar, number?]
  | bool v =>
    cases b with
    | float x => cases x <;> simp [key?, same, sameScalar, number?]
    | _ => simp_all [key?, hashable, same, sameScalar, number?]
  | int n =>
    cases b with
    | float x => cases x <;> simp [key?, same, sameScalar, number?]
    | _ => simp_all [key?, hashable, same, sameScalar, number?]
  | float x =>
    cases b with
    | float y => cases x <;> cases y <;> simp [key?, same, sameScalar, number?]
    | _ => cases x <;> simp_all [key?, hashable, same, sameScalar, number?]

mutual

/-- `a < b` does not raise. -/
def comparable : Json → Json → Bool
  | .string _, .string _ => true
  | .array xs, .array ys => comparableItems xs ys
  | a, b => a.number?.isSome && b.number?.isSome

/-- The first items that differ can be compared. -/
def comparableItems : List Json → List Json → Bool
  | x :: xs, y :: ys => if same x y then comparableItems xs ys else comparable x y
  | _, _ => true

end

/-- `<` on numbers. -/
def lessNumber : FloatValue → FloatValue → Bool
  | .finite x, .finite y => x < y
  | .infinite negative, .infinite negative' => negative && !negative'
  | .infinite negative, .finite _ => negative
  | .finite _, .infinite negative => !negative
  | _, _ => false

mutual

/-- `a < b`, when it does not raise. -/
def less : Json → Json → Bool
  | .string s, .string t => s < t
  | .array xs, .array ys => lessItems xs ys
  | a, b =>
    match a.number?, b.number? with
    | some x, some y => lessNumber x y
    | _, _ => false

def lessItems : List Json → List Json → Bool
  | [], _ :: _ => true
  | x :: xs, y :: ys => if same x y then lessItems xs ys else less x y
  | _, _ => false

end

end Json

section Sorting

variable {α : Type} (key : α → Json)

/-- The keys of the elements can be compared with one another. -/
def Sortable (elements : List α) : Prop :=
  elements.Pairwise fun a b => (key a).comparable (key b) = true

instance (elements : List α) : Decidable (Sortable key elements) :=
  inferInstanceAs (Decidable (elements.Pairwise _))

/-- `sorted(elements, key=key)` -/
def sortedBy (elements : List α) : Checked (List α) :=
  if Sortable key elements then .ok (elements.mergeSort fun a b => !(key b).less (key a)) else .error .other

/-- `sorted(elements, key=key, reverse=True)` -/
def sortedByDown (elements : List α) : Checked (List α) :=
  if Sortable key elements then .ok (elements.mergeSort fun a b => !(key a).less (key b)) else .error .other

variable {key}

theorem sortedBy_eq_ok {elements sorted : List α} :
    sortedBy key elements = .ok sorted ↔
      Sortable key elements ∧ elements.mergeSort (fun a b => !(key b).less (key a)) = sorted := by
  unfold sortedBy
  split
  · rename_i h
    simp [h]
  · rename_i h
    simp [h]

theorem sortedBy_perm {elements sorted : List α} (h : sortedBy key elements = .ok sorted) :
    sorted.Perm elements := by
  obtain ⟨-, rfl⟩ := sortedBy_eq_ok.1 h
  exact List.mergeSort_perm _ _

end Sorting

section Sets

/-- What two keys are compared by. -/
def Key.comparable : Key → Key → Bool
  | .text _, .text _ => true
  | .number _, .number _ => true
  | _, _ => false

theorem Key.comparable_comm (k k' : Key) : k.comparable k' = k'.comparable k := by
  cases k <;> cases k' <;> rfl

theorem comparable_key {a b : Json} {k k' : Key} (ha : a.key? = some k) (hb : b.key? = some k') :
    a.comparable b = k.comparable k' := by
  cases a with
  | array items => cases ha
  | object fields => cases ha
  | float x =>
    cases b with
    | float y => cases x <;> cases y <;> (cases ha; cases hb; rfl)
    | _ => cases x <;> cases ha <;> cases hb <;> rfl
  | _ =>
    cases b with
    | float y =>
      cases ha
      cases y <;> cases hb <;> rfl
    | _ =>
      cases ha
      cases hb <;> rfl

/-- `members.add(value)` -/
def addMember (members : List Json) (value : Json) : List Json :=
  if members.any (·.same value) then members else members ++ [value]

/-- `set(values)`: of equal values the first stays. -/
def distinct (values : List Json) : List Json := values.foldl addMember []

/-- `sorted(set(values))` -/
def sortedSet (values : List Json) : Checked (List Json) :=
  if values.all Json.hashable then sortedBy id (distinct values) else .error .other

/-- What a set has of the values that it is made of. -/
structure IsSet (values members : List Json) : Prop where
  mem : ∀ member ∈ members, member ∈ values
  covers : ∀ value ∈ values, ∃ member ∈ members, member.key? = value.key?
  distinct : members.Pairwise fun a b => a.key? ≠ b.key?

theorem IsSet.add {values members : List Json} (h : IsSet values members) {value : Json}
    (hhash : ∀ v ∈ values ++ [value], v.hashable = true) : IsSet (values ++ [value]) (addMember members value) := by
  have hsame : ∀ member ∈ members, member.key? = value.key? ↔ member.same value = true := fun member hm =>
    Json.key?_inj (hhash member (List.mem_append_left _ (h.mem member hm))) (hhash value (by simp))
  unfold addMember
  split
  · rename_i hany
    obtain ⟨member, hm, heq⟩ := List.any_eq_true.1 hany
    refine ⟨fun m hm => List.mem_append_left _ (h.mem m hm), fun v hv => ?_, h.distinct⟩
    rcases List.mem_append.1 hv with hv | hv
    · exact h.covers v hv
    · rw [List.mem_singleton.1 hv]
      exact ⟨member, hm, (hsame member hm).2 heq⟩
  · rename_i hany
    refine ⟨fun m hm => ?_, fun v hv => ?_, ?_⟩
    · rcases List.mem_append.1 hm with hm | hm
      · exact List.mem_append_left _ (h.mem m hm)
      · exact List.mem_append_right _ hm
    · rcases List.mem_append.1 hv with hv | hv
      · obtain ⟨m, hm, heq⟩ := h.covers v hv
        exact ⟨m, List.mem_append_left _ hm, heq⟩
      · exact ⟨v, List.mem_append_right _ hv, rfl⟩
    · refine List.pairwise_append.2 ⟨h.distinct, List.pairwise_singleton _ _, fun a ha b hb heq => ?_⟩
      rw [List.mem_singleton.1 hb] at heq
      exact hany (List.any_eq_true.2 ⟨a, ha, (hsame a ha).1 heq⟩)

theorem IsSet.addAll (rest : List Json) {values members : List Json} (h : IsSet values members)
    (hhash : ∀ v ∈ values ++ rest, v.hashable = true) : IsSet (values ++ rest) (rest.foldl addMember members) := by
  induction rest generalizing values members with
  | nil => rwa [List.append_nil]
  | cons value rest ih =>
    have happend : values ++ value :: rest = (values ++ [value]) ++ rest := by simp
    rw [happend] at hhash ⊢
    exact ih (h.add fun v hv => hhash v (List.mem_append_left _ hv)) hhash

theorem distinct_isSet {values : List Json} (h : ∀ value ∈ values, value.hashable = true) :
    IsSet values (distinct values) := by
  have hnone : IsSet [] [] := ⟨fun _ hm => (nomatch hm), fun _ hv => (nomatch hv), List.Pairwise.nil⟩
  exact hnone.addAll values h

/-- **A set is sorted** when its members have a hash, and those that differ can be compared. -/
theorem sortedSet_ok_iff {values : List Json} :
    (∃ sorted, sortedSet values = .ok sorted) ↔
      (∀ value ∈ values, value.hashable = true)
        ∧ ∀ a ∈ values, ∀ b ∈ values, a.key? = b.key? ∨ a.comparable b = true := by
  unfold sortedSet
  by_cases hall : values.all Json.hashable = true
  · have hhash := List.all_eq_true.1 hall
    have hset := distinct_isSet hhash
    have hkey : ∀ a ∈ values, ∃ k, a.key? = some k := fun a ha => Option.isSome_iff_exists.1 (hhash a ha)
    rw [if_pos hall]
    constructor
    · rintro ⟨sorted, hsorted⟩
      obtain ⟨hsortable, -⟩ := sortedBy_eq_ok.1 hsorted
      refine ⟨hhash, fun a ha b hb => ?_⟩
      obtain ⟨a', ha', hka⟩ := hset.covers a ha
      obtain ⟨b', hb', hkb⟩ := hset.covers b hb
      obtain ⟨k, hk⟩ := hkey a ha
      obtain ⟨l, hl⟩ := hkey b hb
      rw [hk] at hka
      rw [hl] at hkb
      rw [comparable_key hk hl]
      obtain ⟨i, hi, rfl⟩ := List.mem_iff_getElem.1 ha'
      obtain ⟨j, hj, rfl⟩ := List.mem_iff_getElem.1 hb'
      have hpair := List.pairwise_iff_getElem.1 hsortable
      rcases Nat.lt_trichotomy i j with hij | rfl | hij
      · exact Or.inr ((comparable_key hka hkb).symm.trans (hpair i j hi hj hij))
      · rw [hka] at hkb
        exact Or.inl (hk.trans (hkb.trans hl.symm))
      · rw [Key.comparable_comm]
        exact Or.inr ((comparable_key hkb hka).symm.trans (hpair j i hj hi hij))
    · rintro ⟨-, hcompare⟩
      refine ⟨_, sortedBy_eq_ok.2 ⟨hset.distinct.imp_of_mem fun ha hb hne => ?_, rfl⟩⟩
      exact (hcompare _ (hset.mem _ ha) _ (hset.mem _ hb)).resolve_left hne
  · rw [if_neg hall]
    exact iff_of_false nofun fun h => hall (List.all_eq_true.2 h.1)

end Sets

end OpencodeCloud.Library
