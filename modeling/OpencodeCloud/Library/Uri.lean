/-
# OpencodeCloud.Library.Uri -- the path that a URL really names

RFC 3986 as a client applies it to the text after the authority of a URL: `?` and `#` end the path, and
the segments `.` and `..` are removed from it (section 5.2.4). Only a path in normal form names itself
(`effectivePath_of_normal`); what is decided about any other spelling is decided about another path.
-/
import Mathlib.Data.List.Basic
import Mathlib.Data.List.TakeWhile

namespace OpencodeCloud.Library

/-- What lies between two separators has none in it. -/
theorem not_mem_of_mem_splitOn {α : Type*} [DecidableEq α] {a : α} {l s : List α}
    (h : s ∈ l.splitOn a) : a ∉ s := by
  induction l generalizing s with
  | nil =>
    obtain rfl : s = [] := by simpa using h
    simp
  | cons b l ih =>
    rw [List.splitOn_cons_eq_if_modifyHead] at h
    split at h
    · rcases List.mem_cons.mp h with rfl | hs
      · simp
      · exact ih hs
    · next hb =>
      cases hl : l.splitOn a with
      | nil => exact absurd hl (by simp)
      | cons t ts =>
        rw [hl] at ih
        rw [hl, List.modifyHead_cons] at h
        rcases List.mem_cons.mp h with rfl | hs
        · have ht : a ∉ t := ih List.mem_cons_self
          have hab : a ≠ b := fun hab => hb (by simp [hab])
          simp [ht, hab]
        · exact ih (List.mem_cons_of_mem _ hs)

namespace Uri

/-- The characters between two slashes. -/
abbrev Segment := List Char

def dot : Segment := ['.']

def dotDot : Segment := ['.', '.']

/-- The segments of a path without its leading slash. -/
def segments (path : List Char) : List Segment := path.splitOn '/'

/-- The character ends the path of a URL. -/
def endsPath (c : Char) : Bool := c == '?' || c == '#'

/-- `remove_dot_segments` of an absolute path; `out` are the segments kept so far, the last one first.
A dot segment at the end leaves an empty one. -/
def removeDots : List Segment → List Segment → List Segment
  | out, [] => out.reverse
  | out, [s] =>
    if s = dot then ([] :: out).reverse
    else if s = dotDot then ([] :: out.tail).reverse
    else (s :: out).reverse
  | out, s :: rest =>
    if s = dot then removeDots out rest
    else if s = dotDot then removeDots out.tail rest
    else removeDots (s :: out) rest

/-- The path of a URL whose text after the authority is a slash and `path`, without that slash. -/
def effectivePath (path : List Char) : List Char :=
  ['/'].intercalate (removeDots [] (segments (path.takeWhile fun c => !endsPath c)))

/-- A path that a URL names by its own text. -/
def Normal (path : List Char) : Prop :=
  (∀ c ∈ path, endsPath c = false) ∧ ∀ s ∈ segments path, s ≠ dot ∧ s ≠ dotDot

instance (path : List Char) : Decidable (Normal path) :=
  @instDecidableAnd _ _ (List.decidableBAll _ path) (List.decidableBAll _ (segments path))

theorem removeDots_of_forall_ne {out segs : List Segment}
    (h : ∀ s ∈ segs, s ≠ dot ∧ s ≠ dotDot) : removeDots out segs = out.reverse ++ segs := by
  induction segs generalizing out with
  | nil => simp [removeDots]
  | cons s rest ih =>
    obtain ⟨⟨hdot, hdd⟩, hrest⟩ := List.forall_mem_cons.mp h
    cases rest with
    | nil => simp [removeDots, hdot, hdd]
    | cons s' rest =>
      rw [removeDots, if_neg hdot, if_neg hdd, ih hrest]
      · simp
      · exact fun hnil => nomatch hnil

/-- **A path in normal form names itself.** -/
theorem effectivePath_of_normal {path : List Char} (h : Normal path) : effectivePath path = path := by
  have htake : path.takeWhile (fun c => !endsPath c) = path := by
    rw [List.takeWhile_eq_self_iff]
    intro c hc
    simp [h.1 c hc]
  rw [effectivePath, htake, removeDots_of_forall_ne h.2, List.reverse_nil, List.nil_append, segments,
    List.intercalate_splitOn]

/-- What is left of a path in normal form after a slash is in normal form. -/
theorem Normal.of_append {front rest : List Char} (h : Normal (front ++ '/' :: rest)) :
    Normal rest := by
  refine ⟨fun c hc => h.1 c (by simp [hc]), fun s hs => h.2 s ?_⟩
  rw [segments, List.splitOn_append_cons_self]
  exact List.mem_append_right _ hs

example : effectivePath "v1/../../internal/v1/config/rollback?x".toList
    = "internal/v1/config/rollback".toList := by decide

end Uri

end OpencodeCloud.Library
