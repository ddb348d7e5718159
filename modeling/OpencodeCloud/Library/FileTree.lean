/-
# OpencodeCloud.Library.FileTree -- the files below a directory

A path below a directory is the list of its components. A `FileTree` holds the files there; directories
are made for the files in them, so a path that is a file is no directory on the way to another file.
That is the invariant the type carries, and what a write can run into (`write`).
-/
import OpencodeCloud.Library.Dict
import Mathlib.Data.List.Infix

namespace OpencodeCloud.Library

/-- The components of a path below a directory. -/
abbrev Path := List String

/-- One of two different paths is a directory on the way to the other. -/
def Path.Nested (p q : Path) : Prop := p ≠ q ∧ (p <+: q ∨ q <+: p)

instance (p q : Path) : Decidable (p.Nested q) :=
  inferInstanceAs (Decidable (p ≠ q ∧ (p <+: q ∨ q <+: p)))

theorem Path.Nested.symm {p q : Path} (h : p.Nested q) : q.Nested p := ⟨h.1.symm, h.2.symm⟩

/-- The files below a directory, with their contents. -/
structure FileTree where
  files : Dict Path (List UInt8)
  apart : ∀ p q, p ∈ files → q ∈ files → ¬ p.Nested q

namespace FileTree

/-- A directory with nothing in it. -/
def empty : FileTree := ⟨∅, by simp⟩

/-- The path is free for a file: it is no directory, and nothing on the way to it is a file. -/
def Free (t : FileTree) (p : Path) : Prop := ∀ q ∈ t.files.keys, ¬ p.Nested q

instance (t : FileTree) (p : Path) : Decidable (t.Free p) :=
  inferInstanceAs (Decidable (∀ q ∈ t.files.keys, ¬ p.Nested q))

theorem Free.insert_apart {t : FileTree} {p : Path} (h : t.Free p) (raw : List UInt8) :
    ∀ q r, q ∈ t.files.insert p raw → r ∈ t.files.insert p raw → ¬ q.Nested r := by
  intro q r hq hr hnested
  rcases (AList.mem_insert _).mp hq with rfl | hqt
  · rcases (AList.mem_insert _).mp hr with rfl | hrt
    · exact hnested.1 rfl
    · exact h r (AList.mem_keys.mp hrt) hnested
  · rcases (AList.mem_insert _).mp hr with rfl | hrt
    · exact h q (AList.mem_keys.mp hqt) hnested.symm
    · exact t.apart q r hqt hrt hnested

/-- Make the directories on the way to a path and write the file there. -/
def write (t : FileTree) (p : Path) (raw : List UInt8) : Option FileTree :=
  if h : t.Free p then some ⟨t.files.insert p raw, h.insert_apart raw⟩ else none

theorem write_eq_some {t u : FileTree} {p : Path} {raw : List UInt8} :
    t.write p raw = some u ↔ t.Free p ∧ u.files = t.files.insert p raw := by
  unfold write
  split
  · next h =>
    constructor
    · rintro hu
      obtain rfl := Option.some.inj hu
      exact ⟨h, rfl⟩
    · rintro ⟨-, hu⟩
      cases u
      simpa using hu.symm
  · next h => simp [h]

end FileTree

end OpencodeCloud.Library
