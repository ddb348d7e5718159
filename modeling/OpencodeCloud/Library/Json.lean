/-
# OpencodeCloud.Library.Json -- parsed JSON values and Python's operators on them

What `json.loads` gives: the scalars, lists, and dictionaries with string keys. A float is its exact
value, or one of the texts `-0.0`, `Infinity`, `-Infinity` and `NaN` that the parser reads as well.

The operators are those of the dictionaries, lists and numbers the parser builds: `get?` is
`dict.get`, `truthy` what a condition makes of a value, `same` the operator `==`. A number equals a
number of another type that has its value (`1 == 1.0 == True`), a dictionary one with the same fields
in any order. The parser has a single `NaN` object, which a container holds to be equal to itself.
-/
import Mathlib.Data.Rat.Defs

namespace OpencodeCloud.Library

/-- What a float literal is read as. -/
inductive FloatValue
  | finite (x : Rat)
  | negativeZero
  | infinite (negative : Bool)
  | nan
  deriving DecidableEq

/-- A parsed JSON value. -/
inductive Json
  | null
  | bool (b : Bool)
  | int (n : Int)
  | float (x : FloatValue)
  | string (s : String)
  | array (items : List Json)
  | object (fields : List (String × Json))

namespace Json

/-! ## Access -/

/-- `value.get(key)` of a dictionary; `none` also when the value is no dictionary. -/
def get? : Json → String → Option Json
  | .object fields, key => fields.lookup key
  | _, _ => none

/-- `value[key] = v` on a dictionary. -/
def set : Json → String → Json → Json
  | .object fields, key, v =>
    if (fields.lookup key).isSome then
      .object (fields.map fun f => if f.1 = key then (key, v) else f)
    else .object (fields ++ [(key, v)])
  | j, _, _ => j

def isString : Json → Bool
  | .string _ => true
  | _ => false

def isArray : Json → Bool
  | .array _ => true
  | _ => false

def isObject : Json → Bool
  | .object _ => true
  | _ => false

/-- What a condition makes of a value. -/
def truthy : Json → Bool
  | .null => false
  | .bool b => b
  | .int n => n != 0
  | .float (.finite x) => x != 0
  | .float .negativeZero => false
  | .float _ => true
  | .string s => s != ""
  | .array items => !items.isEmpty
  | .object fields => !fields.isEmpty

/-! ## Equality -/

/-- The number a value counts as in a comparison. -/
def number? : Json → Option FloatValue
  | .bool b => some (.finite (if b then 1 else 0))
  | .int n => some (.finite n)
  | .float .negativeZero => some (.finite 0)
  | .float x => some x
  | _ => none

/-- `==` on what is no container. -/
def sameScalar : Json → Json → Bool
  | .null, .null => true
  | .string s, .string t => s == t
  | a, b =>
    match a.number?, b.number? with
    | some x, some y => x == y
    | _, _ => false

mutual

/-- The operator `==`. -/
def same : Json → Json → Bool
  | .array xs, .array ys => sameItems xs ys
  | .object fs, .object gs => fs.length == gs.length && sameFields fs gs
  | .array _, _ => false
  | .object _, _ => false
  | a, b => sameScalar a b

def sameItems : List Json → List Json → Bool
  | [], [] => true
  | x :: xs, y :: ys => same x y && sameItems xs ys
  | _, _ => false

/-- Every field on the left has an equal one on the right. -/
def sameFields : List (String × Json) → List (String × Json) → Bool
  | [], _ => true
  | (key, v) :: fs, gs => (gs.lookup key).any (same v) && sameFields fs gs

end

mutual

/-- Every dictionary in the value has each of its keys once. -/
def Proper : Json → Prop
  | .array items => ProperItems items
  | .object fields => (fields.map Prod.fst).Nodup ∧ ProperFields fields
  | _ => True

def ProperItems : List Json → Prop
  | [] => True
  | item :: rest => Proper item ∧ ProperItems rest

def ProperFields : List (String × Json) → Prop
  | [] => True
  | (_, v) :: rest => Proper v ∧ ProperFields rest

end

theorem properItems_iff {items : List Json} : ProperItems items ↔ ∀ item ∈ items, Proper item := by
  induction items with
  | nil => simp [ProperItems]
  | cons item rest ih => rw [ProperItems, ih, List.forall_mem_cons]

theorem properFields_iff {fields : List (String × Json)} :
    ProperFields fields ↔ ∀ f ∈ fields, Proper f.2 := by
  induction fields with
  | nil => simp [ProperFields]
  | cons f rest ih =>
    obtain ⟨key, v⟩ := f
    rw [ProperFields, ih, List.forall_mem_cons]

/-- A dictionary that has each key once gives the value of every field. -/
theorem Proper.get?_eq_some {fields : List (String × Json)} (h : Proper (.object fields)) {key : String}
    {v : Json} : get? (.object fields) key = some v ↔ (key, v) ∈ fields := by
  rw [Proper] at h
  obtain ⟨hnodup, -⟩ := h
  change fields.lookup key = some v ↔ _
  induction fields with
  | nil => simp
  | cons f rest ih =>
    obtain ⟨key', v'⟩ := f
    rw [List.map_cons, List.nodup_cons] at hnodup
    rw [List.lookup_cons]
    by_cases hkey : key = key'
    · subst hkey
      have hrest : (key, v) ∉ rest := fun hmem => hnodup.1 (List.mem_map.mpr ⟨_, hmem, rfl⟩)
      simp [hrest, eq_comm]
    · have hne : (key == key') = false := by simpa using hkey
      rw [hne, ih hnodup.2]
      simp [hkey]

/-- What a field of a proper value holds is proper. -/
theorem Proper.of_get? {j v : Json} {key : String} (h : Proper j) (hv : j.get? key = some v) : Proper v := by
  cases j with
  | object fields =>
    have hmem := h.get?_eq_some.mp hv
    rw [Proper] at h
    exact properFields_iff.mp h.2 _ hmem
  | _ => cases hv

@[simp] theorem get?_null (key : String) : Json.null.get? key = none := rfl

theorem lookup_map_replace {fields : List (String × Json)} {key : String} {v : Json}
    (h : (fields.lookup key).isSome = true) :
    (fields.map fun f => if f.1 = key then (key, v) else f).lookup key = some v := by
  induction fields with
  | nil => simp at h
  | cons f fs ih =>
    by_cases hf : f.1 = key
    · simp [hf]
    · have hne : (key == f.1) = false := by simpa using fun he => hf he.symm
      rw [List.map_cons, if_neg hf, List.lookup_cons, hne]
      rw [List.lookup_cons, hne] at h
      exact ih h

/-- What was set is found. -/
theorem get?_set {fields : List (String × Json)} {key : String} {v : Json} :
    ((Json.object fields).set key v).get? key = some v := by
  cases h : fields.lookup key with
  | some w =>
    simp only [set, h, Option.isSome_some, if_true]
    exact lookup_map_replace (by simp [h])
  | none => simp [set, get?, h, List.lookup_append]

theorem lookup_map_replace_ne {fields : List (String × Json)} {key key' : String} {v : Json}
    (h : key' ≠ key) :
    (fields.map fun f => if f.1 = key then (key, v) else f).lookup key' = fields.lookup key' := by
  induction fields with
  | nil => rfl
  | cons f fs ih =>
    by_cases hf : f.1 = key
    · have hne : (key' == key) = false := by simpa using h
      rw [List.map_cons, if_pos hf, List.lookup_cons, List.lookup_cons, hf, hne]
      exact ih
    · rw [List.map_cons, if_neg hf, List.lookup_cons, List.lookup_cons, ih]

/-- Another field is what it was. -/
theorem get?_set_ne {j v : Json} {key key' : String} (h : key' ≠ key) :
    (j.set key v).get? key' = j.get? key' := by
  cases j with
  | object fields =>
    cases hfound : fields.lookup key with
    | some w =>
      simp only [set, hfound, Option.isSome_some, if_true, get?]
      exact lookup_map_replace_ne h
    | none =>
      have hne : (key' == key) = false := by simpa using h
      simp [set, get?, hfound, List.lookup_append, List.lookup_cons, hne]
  | _ => rfl

@[simp] theorem isObject_object (fields : List (String × Json)) :
    (object fields).isObject = true := rfl

@[simp] theorem isObject_set {j v : Json} {key : String} : (j.set key v).isObject = j.isObject := by
  cases j with
  | object fields =>
    simp only [set]
    split <;> rfl
  | _ => rfl

theorem get?_set_self {j v : Json} {key : String} (h : j.isObject = true) :
    (j.set key v).get? key = some v := by
  cases j with
  | object fields => exact get?_set
  | _ => simp [isObject] at h

/-- `value[key] = v`, when there is a value for the key. -/
def put (j : Json) (key : String) (v : Option Json) : Json := v.elim j (j.set key)

@[simp] theorem isObject_put {j : Json} {v : Option Json} {key : String} :
    (j.put key v).isObject = j.isObject := by
  cases v <;> simp [put]

theorem get?_put_ne {j : Json} {v : Option Json} {key key' : String} (h : key' ≠ key) :
    (j.put key v).get? key' = j.get? key' := by
  cases v with
  | none => rfl
  | some v => exact get?_set_ne h

theorem get?_put_self {j : Json} {v : Option Json} {key : String} (h : j.isObject = true) :
    (j.put key v).get? key = v.orElse fun _ => j.get? key := by
  cases v with
  | none => rfl
  | some v => exact get?_set_self h

/-- What has a field is truthy. -/
theorem truthy_of_get? {j v : Json} {key : String} (h : j.get? key = some v) : j.truthy = true := by
  cases j with
  | object fields =>
    cases fields with
    | nil => simp [get?] at h
    | cons f fs => rfl
  | _ => simp [get?] at h

example :
    same (.object [("a", .int 1), ("b", .float .nan)]) (.object [("b", .float .nan), ("a", .bool true)])
      = true := by decide

end Json

end OpencodeCloud.Library
