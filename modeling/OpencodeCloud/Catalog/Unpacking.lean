/-
# OpencodeCloud.Catalog.Unpacking -- the files of uploaded skills and of hooks

`unpack_skill` reads the entries of a ZIP archive into a map of relative paths, `save_resource` does the
same with the sources of a hook. The paths are normalized on the way, and when the resource is published
`compile_agent` writes the files below a directory of their own.

The paths of a skill are relative and differ by more than case, those of a hook are relative only. Neither
check asks whether a file is a directory on the way to another one. **The files are materialized, each with
its own content, exactly when none is, when the file system can hold the paths, and when no two sources of a
hook come to one name** (`accepted_files_written`).
-/
import Mathlib
import OpencodeCloud.Catalog.Resources
import OpencodeCloud.Sandbox.Installation

namespace OpencodeCloud.Catalog.Unpacking

open OpencodeCloud.Library

/-! ## §A Relative paths -/

/-- A component that a normalized path can have. -/
structure Component (c : String) : Prop where
  ne_empty : c ≠ ""
  ne_dot : c ≠ "."
  ne_dots : c ≠ ".."
  no_slash : '/' ∉ c.toList

/-- `p` is the normalized path with these components. -/
structure Relative (p : String) (parts : Path) : Prop where
  eq : p = String.intercalate "/" parts
  ne_nil : parts ≠ []
  components : ∀ c ∈ parts, Component c

namespace Relative

variable {p : String} {parts : Path}

/-- The text between the slashes. -/
theorem splitOn (h : Relative p parts) : p.toList.splitOn '/' = parts.map String.toList := by
  rw [h.eq, String.toList_intercalate]
  refine List.splitOn_intercalate '/' (fun l hl => ?_) (by simpa using h.ne_nil)
  obtain ⟨c, hc, rfl⟩ := List.mem_map.mp hl
  exact (h.components c hc).no_slash

/-- **A normalized path has the components it was made of.** -/
theorem pathParts (h : Relative p parts) : pathParts p = parts := by
  rw [Catalog.pathParts, h.splitOn, List.map_map]
  have hid : (String.ofList ∘ String.toList) = id := by
    funext c
    simp
  rw [hid, List.map_id, List.filter_eq_self]
  intro c hc
  have hc := h.components c hc
  simp [hc.ne_empty, hc.ne_dot]

theorem ne_empty (h : Relative p parts) : p ≠ "" := by
  rintro rfl
  exact h.ne_nil (h.pathParts.symm.trans (by decide))

/-- A normalized path does not begin with a slash. -/
theorem isAbsolute (h : Relative p parts) : isAbsolute p = false := by
  rw [Catalog.isAbsolute, startsWith, Bool.eq_false_iff]
  intro hslash
  obtain ⟨rest, hrest⟩ := List.isPrefixOf_iff_prefix.mp hslash
  have hsplit := h.splitOn
  rw [← hrest] at hsplit
  have hhead : [] ∈ parts.map String.toList := by
    rw [← hsplit]
    change [] ∈ ('/' :: rest).splitOn '/'
    simp [List.splitOn_cons_eq_if_modifyHead]
  obtain ⟨c, hc, hnil⟩ := List.mem_map.mp hhead
  exact (h.components c hc).ne_empty (String.toList_eq_nil_iff.mp hnil)

end Relative

/-- **What `relative_file` returns is normalized.** -/
theorem relative_of_relativeFile {value p : String} (h : relativeFile (some value) = .ok p) :
    Relative p (pathParts value) := by
  simp only [relativeFile, bind_eq_ok, refuse_eq_ok, Bool.or_eq_false_iff] at h
  obtain ⟨v, hv, _, -, _, ⟨⟨-, hdots⟩, hempty⟩, hp⟩ := h
  obtain rfl := Except.ok.inj hv
  obtain rfl := Except.ok.inj hp
  refine ⟨rfl, List.isEmpty_eq_false_iff.mp hempty, fun c hc => ?_⟩
  simp only [pathParts, List.mem_filter, List.mem_map, Bool.and_eq_true, bne_iff_ne] at hc
  obtain ⟨⟨segment, hsegment, rfl⟩, hne, hdot⟩ := hc
  have hsegdots := List.any_eq_false.mp hdots segment hsegment
  simp only [Bool.or_eq_true, beq_iff_eq, not_or] at hsegdots
  refine ⟨hne, hdot, fun hdd => hsegdots.1 ?_, ?_⟩
  · simpa using congrArg String.toList hdd
  · simpa using not_mem_of_mem_splitOn hsegment

/-! ## §B Uploads -/

/-- One entry of a ZIP archive. -/
structure ZipEntry where
  origFilename : String
  /-- `stat.S_IFMT(entry.external_attr >> 16)` -/
  mode : Nat
  /-- `entry.flag_bits & 1` -/
  encrypted : Bool
  fileSize : Nat
  /-- what its stream holds, unless reading it raises -/
  content : Option (List UInt8)

namespace ZipEntry

/-- `entry.orig_filename.rstrip("/")` -/
def name (e : ZipEntry) : String := String.ofList (e.origFilename.toList.rdropWhile (· == '/'))

/-- `entry.is_dir()` -/
def isDir (e : ZipEntry) : Bool := "/".toList.isSuffixOf e.origFilename.toList

end ZipEntry

/-- `100 * 1024**2` -/
def unpackedLimit : Nat := 100 * 1024 ^ 2

/-- `{0, stat.S_IFREG, stat.S_IFDIR}` -/
def plainModes : List Nat := [0, 0o100000, 0o040000]

/-- The variables of the loop over the entries. -/
structure Loop where
  files : Dict String (List UInt8)
  folded : List (List Char)
  size : Nat

section Unpack

-- `fold` is the case folding of one character
variable (fold : Char → List Char)

/-- `path.casefold()` -/
def casefold (path : String) : List Char := path.toList.flatMap fold

/-- One round of the loop. -/
def unpackEntry (l : Loop) (e : ZipEntry) : Result Loop := do
  let path ← relativeFile (some e.name)
  refuse (!plainModes.contains e.mode || e.encrypted) 400
    "Links, special files and encrypted ZIP entries are unsupported"
  refuse (l.folded.contains (casefold fold path)) 400 "Duplicate ZIP target"
  let folded := casefold fold path :: l.folded
  if e.isDir then return { l with folded := folded }
  else
    let size := l.size + e.fileSize
    refuse (decide (size > unpackedLimit) || decide (l.files.keys.length ≥ 1000)) 413
      "Skill archive exceeds unpacked limits"
    match e.content with
    | none => fail 400 "Invalid ZIP archive"
    | some raw =>
      let data := raw.take (min (e.fileSize + 1) (unpackedLimit + 1))
      refuse (data.length != e.fileSize) 400 "ZIP size mismatch"
      return ⟨l.files.insert path data, folded, size⟩

/-- `[p for p in files if PurePosixPath(p).name == "SKILL.md"]` -/
def skillRoots (files : Dict String (List UInt8)) : List String :=
  files.keys.filter fun p => (pathParts p).getLast? == some "SKILL.md"

/-- `root[: -len("SKILL.md")]` -/
def rootPrefix (root : String) : List Char :=
  root.toList.take (root.toList.length - "SKILL.md".toList.length)

/-- `{p[len(prefix) :]: v for p, v in files.items()}` -/
def stripped (front : List Char) (files : Dict String (List UInt8)) : List (String × List UInt8) :=
  files.entries.map fun e => (String.ofList (e.1.toList.drop front.length), e.2)

/-- The files without the directory that holds `SKILL.md`. -/
def stripRoot (files : Dict String (List UInt8)) : Result (Dict String (List UInt8)) :=
  match skillRoots files with
  | [root] => do
    refuse (files.keys.any fun p => !(rootPrefix root).isPrefixOf p.toList) 400
      "All files must belong to the Skill root"
    return (stripped (rootPrefix root) files).foldl (fun d e => d.insert e.1 e.2) ∅
  | _ => fail 400 "ZIP must contain exactly one SKILL.md"

/-- `filename.lower().endswith(suffix)` -/
def hasSuffix (filename suffix : String) : Bool :=
  suffix.toList.isSuffixOf (filename.toList.map Char.toLower)

/-- The files of an upload, by the suffix of its name. -/
def unpackFiles (readZip : List UInt8 → Option (List ZipEntry)) (filename : String)
    (content : List UInt8) : Result (Dict String (List UInt8)) :=
  if hasSuffix filename ".md" then .ok ((∅ : Dict String (List UInt8)).insert "SKILL.md" content)
  else if hasSuffix filename ".zip" then
    match readZip content with
    | none => fail 400 "Invalid ZIP archive"
    | some entries => do
      refuse (decide (entries.length > 1100)) 400 "Too many ZIP entries"
      let l ← entries.foldlM (unpackEntry fold) ⟨∅, [], 0⟩
      stripRoot l.files
  else fail 400 "Upload SKILL.md or a ZIP containing one Skill"

/-- `unpack_skill`, with the archive reader and `skill_metadata` as parameters. -/
def unpackSkill (readZip : List UInt8 → Option (List ZipEntry))
    (skillMetadata : List UInt8 → Result (String × String)) (filename : String) (content : List UInt8) :
    Result ((String × String) × Dict String (List UInt8)) := do
  refuse (decide (content.length > 20 * 1024 ^ 2)) 413 "Skill upload exceeds 20 MiB"
  let files ← unpackFiles fold readZip filename content
  match files.lookup "SKILL.md" with
  | none => fail 500 "KeyError"
  | some text => do
    let skill ← skillMetadata text
    return (skill, files)

end Unpack

/-- The file that an entry of an archive holds, with its normalized path. -/
def ZipEntry.file (e : ZipEntry) : Option (String × List UInt8) :=
  if e.isDir then none
  else
    match relativeFile (some e.name), e.content with
    | .ok path, some raw => some (path, raw)
    | _, _ => none

/-- The files of an upload. -/
def uploadedFiles (readZip : List UInt8 → Option (List ZipEntry)) (filename : String)
    (content : List UInt8) : List (String × List UInt8) :=
  if hasSuffix filename ".md" then [("SKILL.md", content)]
  else ((readZip content).getD []).filterMap ZipEntry.file

/-! ## §C Writing the files of a version -/

/-- Write one file; `storable` says which paths the file system can hold. -/
def writeBytes (storable : Path → Bool) (t : FileTree) (f : Path × List UInt8) : Option FileTree :=
  if storable f.1 then t.write f.1 f.2 else none

/-- The loop of `compile_agent` over the files of a version. -/
def materialize (storable : Path → Bool) (t : FileTree) (files : List (Path × List UInt8)) :
    Option FileTree :=
  files.foldlM (writeBytes storable) t

/-- The files of a version below their directory. -/
def below (directory : Path) (files : List (String × List UInt8)) : List (Path × List UInt8) :=
  files.map fun f => (directory ++ pathParts f.1, f.2)

/-- Nothing is at a directory, below it, or a file on the way to it. -/
def Vacant (t : FileTree) (directory : Path) : Prop :=
  ∀ q ∈ t.files.keys, ¬directory <+: q ∧ ¬q <+: directory

theorem storable_of_materialize {storable : Path → Bool} {t u : FileTree}
    {files : List (Path × List UInt8)} (h : materialize storable t files = some u) :
    ∀ f ∈ files, storable f.1 = true := by
  induction files generalizing t with
  | nil => exact fun f hf => absurd hf List.not_mem_nil
  | cons f files ih =>
    obtain ⟨t', ht', h⟩ := Option.bind_eq_some_iff.mp h
    unfold writeBytes at ht'
    split at ht'
    · next hstore => exact List.forall_mem_cons.mpr ⟨hstore, ih h⟩
    · cases ht'

/-- **Files that leave each other's way are all written.** -/
theorem materialize_of_apart {storable : Path → Bool} {t : FileTree} {files : List (Path × List UInt8)}
    (hstore : ∀ f ∈ files, storable f.1 = true)
    (hfree : ∀ f ∈ files, ∀ q ∈ t.files.keys, ¬f.1.Nested q)
    (hapart : ∀ f ∈ files, ∀ g ∈ files, ¬f.1.Nested g.1) :
    ∃ u, materialize storable t files = some u ∧
      u.files = files.foldl (fun d f => d.insert f.1 f.2) t.files := by
  induction files generalizing t with
  | nil => exact ⟨t, rfl, rfl⟩
  | cons f files ih =>
    rw [List.forall_mem_cons] at hstore hfree
    obtain ⟨t', ht'⟩ : ∃ t', t.write f.1 f.2 = some t' :=
      ⟨⟨_, FileTree.Free.insert_apart (t := t) hfree.1 f.2⟩, FileTree.write_eq_some.mpr ⟨hfree.1, rfl⟩⟩
    have hfiles := (FileTree.write_eq_some.mp ht').2
    have hrest : ∀ g ∈ files, ∀ q ∈ t'.files.keys, ¬g.1.Nested q := by
      intro g hg q hq
      rw [hfiles] at hq
      rcases (AList.mem_insert _).mp (AList.mem_keys.mpr hq) with rfl | hold
      · exact hapart g (List.mem_cons_of_mem _ hg) f (List.mem_cons_self ..)
      · exact hfree.2 g hg q hold
    obtain ⟨u, hu, hufiles⟩ := ih hstore.2 hrest fun g hg k hk =>
      hapart g (List.mem_cons_of_mem _ hg) k (List.mem_cons_of_mem _ hk)
    refine ⟨u, ?_, by rw [hufiles, hfiles]; rfl⟩
    rw [materialize, List.foldlM_cons, writeBytes, if_pos hstore.1, ht']
    exact hu

theorem lookup_foldl_insert {κ α : Type} [DecidableEq κ] {l : List (κ × α)} {d : Dict κ α} {k : κ} {v : α}
    (hnodup : (l.map Prod.fst).Nodup) :
    (l.foldl (fun d e => d.insert e.1 e.2) d).lookup k = some v ↔
      (k, v) ∈ l ∨ k ∉ l.map Prod.fst ∧ d.lookup k = some v := by
  induction l generalizing d with
  | nil => simp
  | cons e l ih =>
    rw [List.map_cons, List.nodup_cons] at hnodup
    rw [List.foldl_cons, ih hnodup.2]
    by_cases hk : k = e.1
    · subst hk
      rw [AList.lookup_insert]
      constructor
      · rintro (hmem | ⟨_, hv⟩)
        · exact absurd (List.mem_map_of_mem hmem) hnodup.1
        · obtain rfl := Option.some.inj hv
          exact .inl (List.mem_cons_self ..)
      · rintro (hmem | ⟨hnot, _⟩)
        · rcases List.mem_cons.mp hmem with heq | hold
          · exact .inr ⟨hnodup.1, by rw [← heq]⟩
          · exact absurd (List.mem_map_of_mem hold) hnodup.1
        · exact absurd (List.mem_cons_self ..) hnot
    · rw [AList.lookup_insert_ne hk]
      simp only [List.mem_cons, List.map_cons, Prod.ext_iff, hk, false_and, false_or]

/-! ## §D What is unpacked -/

/-- A path whose segments are all components is normalized. -/
theorem relative_of_segments {q : String}
    (h : ∀ s ∈ q.toList.splitOn '/', Component (String.ofList s)) : Relative q (pathParts q) := by
  have hparts : pathParts q = (q.toList.splitOn '/').map String.ofList := by
    rw [pathParts, List.filter_eq_self]
    intro c hc
    obtain ⟨s, hs, rfl⟩ := List.mem_map.mp hc
    simp [(h s hs).ne_empty, (h s hs).ne_dot]
  refine ⟨?_, ?_, fun c hc => ?_⟩
  · apply String.toList_injective
    rw [hparts, String.toList_intercalate, List.map_map]
    have hid : (String.toList ∘ String.ofList) = id := by
      funext c
      simp
    rw [hid, List.map_id]
    exact (List.intercalate_splitOn '/').symm
  · rw [hparts]
    simp
  · rw [hparts] at hc
    obtain ⟨s, hs, rfl⟩ := List.mem_map.mp hc
    exact h s hs

/-- The text of a directory, with its slash. -/
def Front (front : List Char) : Prop := front = [] ∨ ∃ directory, front = directory ++ ['/']

theorem pathParts_front {front : List Char} (hfront : Front front) {p q : String}
    (hp : p.toList = front ++ q.toList) : pathParts p = pathParts (String.ofList front) ++ pathParts q := by
  rcases hfront with rfl | ⟨directory, rfl⟩
  · obtain rfl : p = q := String.toList_injective (by simpa using hp)
    rfl
  · have hsplit : p.toList.splitOn '/' = directory.splitOn '/' ++ q.toList.splitOn '/' := by
      rw [hp, List.append_assoc]
      exact List.splitOn_append_cons_self directory q.toList
    have hdirectory : (directory ++ ['/']).splitOn '/' = directory.splitOn '/' ++ [[]] :=
      List.splitOn_append_cons_self directory []
    simp [pathParts, hsplit, hdirectory]

theorem Relative.strip {p q : String} {parts : Path} {front : List Char} (h : Relative p parts)
    (hfront : Front front) (hp : p.toList = front ++ q.toList) : Relative q (Catalog.pathParts q) := by
  rcases hfront with rfl | ⟨directory, rfl⟩
  · obtain rfl : p = q := String.toList_injective (by simpa using hp)
    rw [h.pathParts]
    exact h
  · refine relative_of_segments fun s hs => ?_
    have hsplit : p.toList.splitOn '/' = directory.splitOn '/' ++ q.toList.splitOn '/' := by
      rw [hp, List.append_assoc]
      exact List.splitOn_append_cons_self directory q.toList
    have hmem : s ∈ parts.map String.toList := by
      rw [← h.splitOn, hsplit]
      exact List.mem_append_right _ hs
    obtain ⟨c, hc, rfl⟩ := List.mem_map.mp hmem
    simpa using h.components c hc

/-- The path of `SKILL.md` without its name. -/
theorem front_of_root {root : String} {parts : Path} (h : Relative root parts)
    (hlast : parts.getLast? = some "SKILL.md") :
    Front (rootPrefix root) := by
  obtain ⟨init, rfl⟩ : ∃ init, parts = init ++ ["SKILL.md"] := by
    obtain ⟨hne, hlast⟩ := List.getLast?_eq_some_iff.mp hlast
    exact ⟨_, hlast⟩
  by_cases hinit : init = []
  · subst hinit
    left
    rw [h.eq]
    rfl
  · right
    refine ⟨(String.intercalate "/" init).toList, ?_⟩
    have hroot : root.toList = (String.intercalate "/" init).toList ++ ['/'] ++ "SKILL.md".toList := by
      rw [h.eq, String.intercalate_append_of_ne_nil hinit (by simp), String.intercalate_singleton,
        String.toList_append, String.toList_append]
      rfl
    rw [rootPrefix, hroot]
    refine List.take_left' ?_
    simp only [List.length_append]
    omega

section Unpack

variable {fold : Char → List Char}

/-- What one round of the loop has checked. -/
theorem unpackEntry_ok {l l' : Loop} {e : ZipEntry} (h : unpackEntry fold l e = .ok l') :
    ∃ path, relativeFile (some e.name) = .ok path ∧ casefold fold path ∉ l.folded ∧
      l'.folded = casefold fold path :: l.folded ∧
      (e.isDir = true ∧ l'.files = l.files ∨
        e.isDir = false ∧ ∃ raw, e.content = some raw ∧ l'.files = l.files.insert path raw) := by
  simp only [unpackEntry, bind_eq_ok, refuse_eq_ok, List.contains_eq_mem, decide_eq_false_iff_not] at h
  obtain ⟨path, hpath, _, -, _, hnew, h⟩ := h
  refine ⟨path, hpath, hnew, ?_⟩
  split at h
  · next hdir =>
    obtain rfl := Except.ok.inj h
    exact ⟨rfl, .inl ⟨hdir, rfl⟩⟩
  · next hdir =>
    simp only [bind_eq_ok, refuse_eq_ok, Bool.or_eq_false_iff, decide_eq_false_iff_not, not_lt] at h
    obtain ⟨_, ⟨hsize, -⟩, h⟩ := h
    split at h
    · cases h
    · next raw hraw =>
      simp only [bind_eq_ok, refuse_eq_ok, bne_eq_false_iff_eq] at h
      obtain ⟨_, hlength, h⟩ := h
      obtain rfl := Except.ok.inj h
      -- the stream is read one byte further than the entry says
      have htake : raw.take (min (e.fileSize + 1) (unpackedLimit + 1)) = raw := by
        rw [List.length_take] at hlength
        refine List.take_of_length_le ?_
        omega
      refine ⟨rfl, .inr ⟨by simpa using hdir, raw, hraw, ?_⟩⟩
      rw [htake]

theorem ZipEntry.file_eq_some {e : ZipEntry} {f : String × List UInt8} :
    e.file = some f ↔ e.isDir = false ∧ relativeFile (some e.name) = .ok f.1 ∧ e.content = some f.2 := by
  obtain ⟨path, raw⟩ := f
  unfold ZipEntry.file
  split
  · next h => simp [h]
  · next h =>
    split
    · next hpath hraw => simp [h, hpath, hraw]
    · next hnone =>
      simp only [false_iff, reduceCtorEq, not_and]
      exact fun _ hpath hraw => hnone path raw hpath hraw

/-- What the loop has collected: the files of the entries, at paths that differ by more than case. -/
theorem unpackEntries_ok {es : List ZipEntry} {l l' : Loop}
    (hknown : ∀ p ∈ l.files, casefold fold p ∈ l.folded)
    (h : es.foldlM (unpackEntry fold) l = .ok l') :
    (∀ p raw, l'.files.lookup p = some raw ↔
        (p, raw) ∈ es.filterMap ZipEntry.file ∨ l.files.lookup p = some raw) ∧
      ((es.filterMap ZipEntry.file).map fun f => casefold fold f.1).Nodup ∧
      (∀ f ∈ es.filterMap ZipEntry.file, casefold fold f.1 ∉ l.folded) ∧
      ∀ e ∈ es, e.isDir = false → e.file.isSome = true := by
  induction es generalizing l with
  | nil =>
    obtain rfl := Except.ok.inj h
    simp
  | cons e es ih =>
    rw [List.foldlM_cons, bind_eq_ok] at h
    obtain ⟨l₁, he, hrest⟩ := h
    obtain ⟨path, hpath, hnew, hfolded, hcase⟩ := unpackEntry_ok he
    rcases hcase with ⟨hdir, hfiles⟩ | ⟨hdir, raw, hraw, hfiles⟩
    · have hfile : e.file = none := by simp [ZipEntry.file, hdir]
      have hknown₁ : ∀ p ∈ l₁.files, casefold fold p ∈ l₁.folded := by
        intro p hp
        rw [hfiles] at hp
        rw [hfolded]
        exact List.mem_cons_of_mem _ (hknown p hp)
      obtain ⟨hlookup, hnodup, hnews, hall⟩ := ih hknown₁ hrest
      rw [List.filterMap_cons_none hfile]
      refine ⟨by rw [hfiles] at hlookup; exact hlookup, hnodup, fun f hf hmem => ?_, fun e' he' hdir' => ?_⟩
      · exact hnews f hf (by rw [hfolded]; exact List.mem_cons_of_mem _ hmem)
      · rcases List.mem_cons.mp he' with rfl | hold
        · exact absurd (hdir.symm.trans hdir') nofun
        · exact hall e' hold hdir'
    · have hfile : e.file = some (path, raw) := ZipEntry.file_eq_some.mpr ⟨hdir, hpath, hraw⟩
      have hknown₁ : ∀ p ∈ l₁.files, casefold fold p ∈ l₁.folded := by
        intro p hp
        rw [hfiles] at hp
        rw [hfolded]
        rcases (AList.mem_insert _).mp hp with rfl | hold
        · exact List.mem_cons_self ..
        · exact List.mem_cons_of_mem _ (hknown p hold)
      obtain ⟨hlookup, hnodup, hnews, hall⟩ := ih hknown₁ hrest
      rw [List.filterMap_cons_some hfile]
      refine ⟨fun p v => ?_, ?_, ?_, fun e' he' hdir' => ?_⟩
      · rw [hlookup, hfiles, List.mem_cons]
        by_cases hp : p = path
        · subst hp
          have hnone : l.files.lookup p = none := by
            rw [AList.lookup_eq_none]
            exact fun hmem => hnew (hknown p hmem)
          have hother : (p, v) ∉ es.filterMap ZipEntry.file := by
            intro hmem
            exact hnews _ hmem (by rw [hfolded]; exact List.mem_cons_self ..)
          rw [AList.lookup_insert, hnone]
          simp [hother, eq_comm]
        · rw [AList.lookup_insert_ne hp]
          simp [hp]
      · rw [List.map_cons, List.nodup_cons]
        refine ⟨fun hmem => ?_, hnodup⟩
        obtain ⟨f, hf, heq⟩ := List.mem_map.mp hmem
        exact hnews f hf (by rw [hfolded, heq]; exact List.mem_cons_self ..)
      · rw [List.forall_mem_cons]
        exact ⟨hnew, fun f hf hmem => hnews f hf (by rw [hfolded]; exact List.mem_cons_of_mem _ hmem)⟩
      · rcases List.mem_cons.mp he' with rfl | hold
        · rw [hfile]
          rfl
        · exact hall e' hold hdir'

end Unpack

/-- What an upload is unpacked to: its files, without the directory that they have in common. -/
structure Unpacked (fold : Char → List Char) (uploaded : List (String × List UInt8))
    (files : Dict String (List UInt8)) (front : List Char) : Prop where
  isFront : Front front
  relative : ∀ f ∈ uploaded, Relative f.1 (pathParts f.1)
  distinct : (uploaded.map fun f => casefold fold f.1).Nodup
  there : ∀ f ∈ uploaded, ∃ q, f.1.toList = front ++ q.toList ∧ files.lookup q = some f.2
  back : ∀ q raw, files.lookup q = some raw →
    ∃ f ∈ uploaded, f.1.toList = front ++ q.toList ∧ f.2 = raw

section Strip

variable {front : List Char} {files : Dict String (List UInt8)}

theorem mem_stripped (hkey : ∀ p ∈ files.keys, front ++ p.toList.drop front.length = p.toList) {q : String}
    {raw : List UInt8} :
    (q, raw) ∈ stripped front files ↔ ∃ p, p.toList = front ++ q.toList ∧ files.lookup p = some raw := by
  simp only [stripped, List.mem_map, Prod.mk.injEq]
  constructor
  · rintro ⟨⟨p, v⟩, hmem, rfl, rfl⟩
    have hlook := Dict.mem_entries_iff.mp hmem
    have hp := hkey p (AList.mem_keys.mp (AList.lookup_isSome.mp (by rw [hlook]; rfl)))
    exact ⟨p, by simp [hp], hlook⟩
  · rintro ⟨p, hp, hlook⟩
    exact ⟨⟨p, raw⟩, Dict.mem_entries_iff.mpr hlook, by simp [hp], rfl⟩

theorem stripped_nodup (hkey : ∀ p ∈ files.keys, front ++ p.toList.drop front.length = p.toList) :
    ((stripped front files).map Prod.fst).Nodup := by
  have hkeys : (stripped front files).map Prod.fst =
      files.keys.map fun p => String.ofList (p.toList.drop front.length) := by
    simp [stripped, AList.keys, List.keys]
  rw [hkeys]
  refine List.Nodup.map_on (fun p hp q hq hpq => ?_) files.keys_nodup
  apply String.toList_injective
  rw [← hkey p hp, ← hkey q hq, String.ofList_injective hpq]

end Strip

/-- The root is stripped from all files. -/
theorem stripRoot_ok {fold : Char → List Char} {uploaded : List (String × List UInt8)}
    {files files' : Dict String (List UInt8)}
    (hfiles : ∀ p raw, files.lookup p = some raw ↔ (p, raw) ∈ uploaded)
    (hrelative : ∀ f ∈ uploaded, Relative f.1 (pathParts f.1))
    (hdistinct : (uploaded.map fun f => casefold fold f.1).Nodup) (h : stripRoot files = .ok files') :
    ∃ front, Unpacked fold uploaded files' front := by
  rcases hroots : skillRoots files with _ | ⟨root, _ | ⟨_, _⟩⟩
  · simp only [stripRoot, hroots] at h
    cases h
  · simp only [stripRoot, hroots, bind_eq_ok, refuse_eq_ok, List.any_eq_false, Bool.not_eq_true',
      Bool.not_eq_false] at h
    obtain ⟨_, hall, h⟩ := h
    obtain rfl := Except.ok.inj h
    have hroot : root ∈ skillRoots files := by
      rw [hroots]
      exact List.mem_singleton_self root
    obtain ⟨hmem, hlast⟩ := List.mem_filter.mp hroot
    obtain ⟨raw, hraw⟩ := Option.isSome_iff_exists.mp
      (AList.lookup_isSome.mpr (AList.mem_keys.mpr hmem))
    have hfront : Front (rootPrefix root) :=
      front_of_root (hrelative (root, raw) ((hfiles root raw).mp hraw)) (beq_iff_eq.mp hlast)
    have hkey : ∀ p ∈ files.keys, rootPrefix root ++ p.toList.drop (rootPrefix root).length = p.toList := by
      intro p hp
      obtain ⟨rest, hrest⟩ := List.isPrefixOf_iff_prefix.mp (hall p hp)
      rw [← hrest, List.drop_left]
    have hlookup : ∀ q raw, ((stripped (rootPrefix root) files).foldl (fun d e => d.insert e.1 e.2)
        (∅ : Dict String (List UInt8))).lookup q = some raw ↔
          ∃ p, p.toList = rootPrefix root ++ q.toList ∧ files.lookup p = some raw := by
      intro q raw
      rw [lookup_foldl_insert (stripped_nodup hkey), ← mem_stripped hkey]
      simp
    refine ⟨rootPrefix root, hfront, hrelative, hdistinct, fun f hf => ?_, fun q raw hq => ?_⟩
    · have hlook := (hfiles f.1 f.2).mpr hf
      have hp := hkey f.1 (AList.mem_keys.mp (AList.lookup_isSome.mp (by rw [hlook]; rfl)))
      refine ⟨String.ofList (f.1.toList.drop (rootPrefix root).length), by simp [hp], ?_⟩
      exact (hlookup _ _).mpr ⟨f.1, by simp [hp], hlook⟩
    · obtain ⟨p, hp, hlook⟩ := (hlookup q raw).mp hq
      exact ⟨(p, raw), (hfiles p raw).mp hlook, hp, rfl⟩
  · simp only [stripRoot, hroots] at h
    cases h

/-- **What `unpack_skill` accepts**: every file of the upload is there with its own content, at a relative
path, and the paths differ by more than case. -/
theorem unpackSkill_ok {fold : Char → List Char} {readZip : List UInt8 → Option (List ZipEntry)}
    {skillMetadata : List UInt8 → Result (String × String)} {filename : String} {content : List UInt8}
    {skill : String × String} {files : Dict String (List UInt8)}
    (h : unpackSkill fold readZip skillMetadata filename content = .ok (skill, files)) :
    ∃ front, Unpacked fold (uploadedFiles readZip filename content) files front := by
  simp only [unpackSkill, bind_eq_ok, refuse_eq_ok] at h
  obtain ⟨_, -, files', hfiles, h⟩ := h
  obtain rfl : files' = files := by
    split at h
    · cases h
    · simp only [bind_eq_ok] at h
      obtain ⟨_, _, h⟩ := h
      exact (Prod.mk.inj (Except.ok.inj h)).2
  unfold unpackFiles at hfiles
  unfold uploadedFiles
  split at hfiles
  · next hmd =>
    obtain rfl := Except.ok.inj hfiles
    rw [if_pos hmd]
    refine ⟨[], .inl rfl, ?_, by simp, ?_, ?_⟩
    · intro f hf
      rw [List.mem_singleton.mp hf]
      have hrel : relativeFile (some "SKILL.md") = .ok "SKILL.md" := by decide
      exact relative_of_relativeFile hrel
    · intro f hf
      rw [List.mem_singleton.mp hf]
      exact ⟨"SKILL.md", rfl, AList.lookup_insert _⟩
    · intro q raw hq
      rcases Dict.lookup_insert_cases hq with ⟨rfl, rfl⟩ | ⟨_, hnone⟩
      · exact ⟨_, List.mem_singleton_self _, rfl, rfl⟩
      · cases hnone
  · next hmd =>
    rw [if_neg hmd]
    split at hfiles
    · split at hfiles
      · cases hfiles
      · next entries hentries =>
        simp only [bind_eq_ok, refuse_eq_ok] at hfiles
        obtain ⟨_, -, l, hl, hstrip⟩ := hfiles
        rw [hentries]
        have hunpacked := unpackEntries_ok (l := ⟨∅, [], 0⟩) (fun p hp => absurd hp (AList.notMem_empty p)) hl
        refine stripRoot_ok (fun p raw => ?_) (fun f hf => ?_) hunpacked.2.1 hstrip
        · rw [hunpacked.1]
          simp
        · obtain ⟨e, _, he⟩ := List.mem_filterMap.mp hf
          have hrel := relative_of_relativeFile (ZipEntry.file_eq_some.mp he).2.1
          rw [hrel.pathParts]
          exact hrel
    · cases hfiles

/-! ## §E What the claims of the paths come to -/

/-- The paths name files below a directory, no two of them the same file or one below the other. -/
structure Sane (fold : Char → List Char) (paths : List String) : Prop where
  nonempty : ∀ p ∈ paths, p ≠ ""
  relative : ∀ p ∈ paths, isAbsolute p = false ∧ ∀ s ∈ p.toList.splitOn '/', s ≠ ['.'] ∧ s ≠ ['.', '.']
  distinct : (paths.map (casefold fold)).Nodup
  apart : ∀ p ∈ paths, ∀ q ∈ paths, ¬Path.Nested (pathParts p) (pathParts q)

theorem sane_of_relative {fold : Char → List Char} {paths : List String}
    (hrelative : ∀ p ∈ paths, Relative p (pathParts p)) (hdistinct : (paths.map (casefold fold)).Nodup)
    (hapart : ∀ p ∈ paths, ∀ q ∈ paths, ¬Path.Nested (pathParts p) (pathParts q)) : Sane fold paths := by
  refine ⟨fun p hp => (hrelative p hp).ne_empty, fun p hp => ⟨(hrelative p hp).isAbsolute, fun s hs => ?_⟩,
    hdistinct, hapart⟩
  rw [(hrelative p hp).splitOn] at hs
  obtain ⟨c, hc, rfl⟩ := List.mem_map.mp hs
  have hcomponent := (hrelative p hp).components c hc
  refine ⟨fun hdot => hcomponent.ne_dot ?_, fun hdots => hcomponent.ne_dots ?_⟩
  · exact String.toList_injective hdot
  · exact String.toList_injective hdots

theorem nested_append {directory p q : Path} :
    (directory ++ p).Nested (directory ++ q) ↔ p.Nested q := by
  simp [Path.Nested, List.prefix_append_right_inj]

/-- The file at a path below a vacant directory is not in the way of another. -/
theorem Vacant.free {t : FileTree} {directory : Path} (h : Vacant t directory) (p : Path) :
    ∀ q ∈ t.files.keys, ¬(directory ++ p).Nested q := by
  rintro q hq ⟨_, hbelow | habove⟩
  · exact (h q hq).1 ((List.prefix_append directory p).trans hbelow)
  · rcases List.prefix_or_prefix_of_prefix habove (List.prefix_append directory p) with hle | hge
    · exact (h q hq).2 hle
    · exact (h q hq).1 hge

/-- The contents of a dictionary of files. -/
def contents (files : Dict String (List UInt8)) : List (String × List UInt8) :=
  files.entries.map fun e => (e.1, e.2)

theorem mem_contents_iff {α : Type} {files : Dict String α} {p : String} {raw : α} :
    ((p, raw) ∈ files.entries.map fun e => (e.1, e.2)) ↔ files.lookup p = some raw := by
  rw [List.mem_map, ← Dict.mem_entries_iff]
  constructor
  · rintro ⟨⟨q, v⟩, hmem, heq⟩
    obtain ⟨rfl, rfl⟩ := Prod.mk.inj heq
    exact hmem
  · intro hmem
    exact ⟨_, hmem, rfl⟩

theorem mem_contents {files : Dict String (List UInt8)} {p : String} {raw : List UInt8} :
    (p, raw) ∈ contents files ↔ files.lookup p = some raw := mem_contents_iff

/-- **The files of a version are written below a vacant directory**, each with its own content, when they
leave each other's way. -/
theorem materialize_below {storable : Path → Bool} {t : FileTree} {directory : Path}
    (hvacant : Vacant t directory) {files : Dict String (List UInt8)}
    (hrelative : ∀ p ∈ files.keys, Relative p (pathParts p))
    (hapart : ∀ p ∈ files.keys, ∀ q ∈ files.keys, ¬Path.Nested (pathParts p) (pathParts q))
    (hstore : ∀ p ∈ files.keys, storable (directory ++ pathParts p) = true) :
    ∃ u, materialize storable t (below directory (contents files)) = some u ∧
      (∀ p raw, files.lookup p = some raw → u.files.lookup (directory ++ pathParts p) = some raw) ∧
      (∀ q ∈ u.files.keys, q ∈ t.files.keys ∨ directory <+: q ∧ q ≠ directory) ∧
      ∀ q raw, t.files.lookup q = some raw → u.files.lookup q = some raw := by
  have hkey : ∀ {p raw}, files.lookup p = some raw → p ∈ files.keys := fun hlook =>
    AList.mem_keys.mp (AList.lookup_isSome.mp (by rw [hlook]; rfl))
  have hmem : ∀ f ∈ below directory (contents files), ∃ p raw,
      f = (directory ++ pathParts p, raw) ∧ files.lookup p = some raw := by
    intro f hf
    obtain ⟨⟨p, raw⟩, hp, rfl⟩ := List.mem_map.mp hf
    exact ⟨p, raw, rfl, mem_contents.mp hp⟩
  have hnodup : ((below directory (contents files)).map Prod.fst).Nodup := by
    have hfst : (below directory (contents files)).map Prod.fst =
        files.keys.map fun p => directory ++ pathParts p := by
      simp [below, contents, AList.keys, List.keys]
    rw [hfst]
    refine List.Nodup.map_on (fun p hp q hq hpq => ?_) files.keys_nodup
    rw [(hrelative p hp).eq, (hrelative q hq).eq, List.append_cancel_left hpq]
  obtain ⟨u, hu, hfiles⟩ : ∃ u, materialize storable t (below directory (contents files)) = some u ∧
      u.files = (below directory (contents files)).foldl (fun d f => d.insert f.1 f.2) t.files := by
    refine materialize_of_apart (fun f hf => ?_) (fun f hf => ?_) fun f hf g hg => ?_
    · obtain ⟨p, raw, rfl, hlook⟩ := hmem f hf
      exact hstore p (hkey hlook)
    · obtain ⟨p, raw, rfl, _⟩ := hmem f hf
      exact hvacant.free _
    · obtain ⟨p, raw, rfl, hp⟩ := hmem f hf
      obtain ⟨q, raw', rfl, hq⟩ := hmem g hg
      rw [nested_append]
      exact hapart p (hkey hp) q (hkey hq)
  refine ⟨u, hu, fun p raw hlook => ?_, fun q hq => ?_, fun q raw hq => ?_⟩
  · rw [hfiles, lookup_foldl_insert hnodup]
    exact .inl (List.mem_map.mpr ⟨(p, raw), mem_contents.mpr hlook, rfl⟩)
  · obtain ⟨raw, hraw⟩ := Option.isSome_iff_exists.mp
      (AList.lookup_isSome.mpr (AList.mem_keys.mpr hq))
    rw [hfiles, lookup_foldl_insert hnodup] at hraw
    rcases hraw with hnew | ⟨_, hold⟩
    · obtain ⟨p, v, heq, hlook⟩ := hmem _ hnew
      obtain ⟨rfl, rfl⟩ := Prod.mk.inj heq
      refine .inr ⟨List.prefix_append _ _, fun hsame => ?_⟩
      exact (hrelative p (hkey hlook)).ne_nil (by simpa using hsame)
    · exact .inl (AList.mem_keys.mp (AList.lookup_isSome.mp (by rw [hold]; rfl)))
  · rw [hfiles, lookup_foldl_insert hnodup]
    refine .inr ⟨fun hin => ?_, hq⟩
    obtain ⟨f, hf, rfl⟩ := List.mem_map.mp hin
    obtain ⟨p, v, rfl, _⟩ := hmem f hf
    exact (hvacant _ (AList.mem_keys.mp (AList.lookup_isSome.mp (by rw [hq]; rfl)))).1
      (List.prefix_append _ _)

/-! ## §F Skills -/

/-- A file of an upload is written below the directory of the skill, under its own name. -/
def HasUpload (u : FileTree) (directory : Path) (uploaded : List (String × List UInt8)) : Prop :=
  ∃ front : List Char, ∀ f ∈ uploaded, ∃ q : String, f.1.toList = front ++ q.toList ∧
    u.files.lookup (directory ++ pathParts q) = some f.2

/-- No file of an upload is a directory on the way to another one, and the file system can hold them. -/
structure SkillFits (storable : Path → Bool) (directory : Path) (uploaded : List (String × List UInt8))
    (files : Dict String (List UInt8)) : Prop where
  apart : ∀ f ∈ uploaded, ∀ g ∈ uploaded, ¬Path.Nested (pathParts f.1) (pathParts g.1)
  storable : ∀ p ∈ files.keys, storable (directory ++ pathParts p) = true

/-- The paths of a skill are sane, and its files are written. -/
def SkillHolds (fold : Char → List Char) (storable : Path → Bool) (t : FileTree) (directory : Path)
    (uploaded : List (String × List UInt8)) (files : Dict String (List UInt8)) : Prop :=
  Sane fold files.keys ∧
    ∃ u, materialize storable t (below directory (contents files)) = some u ∧
      HasUpload u directory uploaded

namespace Unpacked

variable {fold : Char → List Char} {uploaded : List (String × List UInt8)}
  {files : Dict String (List UInt8)} {front : List Char}

/-- The uploaded file behind a path. -/
theorem origin (h : Unpacked fold uploaded files front) {p : String} (hp : p ∈ files.keys) :
    ∃ f ∈ uploaded, f.1.toList = front ++ p.toList ∧ files.lookup p = some f.2 := by
  obtain ⟨raw, hraw⟩ := Option.isSome_iff_exists.mp (AList.lookup_isSome.mpr (AList.mem_keys.mpr hp))
  obtain ⟨f, hf, hpath, rfl⟩ := h.back p raw hraw
  exact ⟨f, hf, hpath, hraw⟩

theorem relativeKey (h : Unpacked fold uploaded files front) {p : String} (hp : p ∈ files.keys) :
    Relative p (pathParts p) := by
  obtain ⟨f, hf, hpath, _⟩ := h.origin hp
  exact (h.relative f hf).strip h.isFront hpath

theorem distinctKeys (h : Unpacked fold uploaded files front) :
    (files.keys.map (casefold fold)).Nodup := by
  refine List.Nodup.map_on (fun p hp q hq hpq => ?_) files.keys_nodup
  obtain ⟨f, hf, hfp, _⟩ := h.origin hp
  obtain ⟨g, hg, hgq, _⟩ := h.origin hq
  have hfold : casefold fold f.1 = casefold fold g.1 := by
    simp only [casefold] at hpq ⊢
    rw [hfp, hgq, List.flatMap_append, List.flatMap_append, hpq]
  obtain rfl : f = g := List.inj_on_of_nodup_map h.distinct hf hg hfold
  exact String.toList_injective (List.append_cancel_left (hfp.symm.trans hgq))

/-- Two files of a skill are in each other's way when those of the upload are. -/
theorem apart_iff (h : Unpacked fold uploaded files front) :
    (∀ p ∈ files.keys, ∀ q ∈ files.keys, ¬Path.Nested (pathParts p) (pathParts q)) ↔
      ∀ f ∈ uploaded, ∀ g ∈ uploaded, ¬Path.Nested (pathParts f.1) (pathParts g.1) := by
  have hnested : ∀ {p q a b : String}, a.toList = front ++ p.toList → b.toList = front ++ q.toList →
      (Path.Nested (pathParts a) (pathParts b) ↔ Path.Nested (pathParts p) (pathParts q)) := by
    intro p q a b ha hb
    rw [pathParts_front h.isFront ha, pathParts_front h.isFront hb, nested_append]
  constructor
  · intro hapart f hf g hg
    obtain ⟨p, hp, hfiles⟩ := h.there f hf
    obtain ⟨q, hq, hfiles'⟩ := h.there g hg
    rw [hnested hp hq]
    refine hapart p (AList.mem_keys.mp ?_) q (AList.mem_keys.mp ?_)
    · exact AList.lookup_isSome.mp (by rw [hfiles]; rfl)
    · exact AList.lookup_isSome.mp (by rw [hfiles']; rfl)
  · intro hapart p hp q hq
    obtain ⟨f, hf, hfp, _⟩ := h.origin hp
    obtain ⟨g, hg, hgq, _⟩ := h.origin hq
    rw [← hnested hfp hgq]
    exact hapart f hf g hg

theorem holds_iff (h : Unpacked fold uploaded files front) {storable : Path → Bool} {t : FileTree}
    {directory : Path} (hvacant : Vacant t directory) :
    SkillHolds fold storable t directory uploaded files ↔
      SkillFits storable directory uploaded files := by
  constructor
  · rintro ⟨hsane, u, hu, _⟩
    refine ⟨h.apart_iff.mp hsane.apart, fun p hp => ?_⟩
    obtain ⟨f, _, _, hlook⟩ := h.origin hp
    exact storable_of_materialize hu _ (List.mem_map.mpr ⟨(p, f.2), mem_contents.mpr hlook, rfl⟩)
  · rintro ⟨hapart, hstore⟩
    have hkeys := h.apart_iff.mpr hapart
    obtain ⟨u, hu, hlookup, _⟩ := materialize_below hvacant (fun p hp => h.relativeKey hp) hkeys hstore
    refine ⟨sane_of_relative (fun p hp => h.relativeKey hp) h.distinctKeys hkeys, u, hu, front, fun f hf => ?_⟩
    obtain ⟨q, hq, hlook⟩ := h.there f hf
    exact ⟨q, hq, hlookup q f.2 hlook⟩

end Unpacked

/-! ## §G Hooks -/

/-- `PurePosixPath(path).as_posix()` of a relative path -/
def normal (path : String) : String := String.intercalate "/" (pathParts path)

/-- What the sources of a hook come to. -/
theorem hookFiles_ok {sources : List (String × String)} {files : Dict String String}
    (h : hookFiles sources = .ok files) :
    (∀ e ∈ sources, Relative (normal e.1) (pathParts e.1)) ∧
      (∀ p, p ∈ files ↔ ∃ e ∈ sources, normal e.1 = p) ∧
      ((sources.map fun e => normal e.1).Nodup → ∀ e ∈ sources, files.lookup (normal e.1) = some e.2) := by
  induction sources generalizing files with
  | nil =>
    obtain rfl := Except.ok.inj h
    simp
  | cons e rest ih =>
    obtain ⟨path, source⟩ := e
    simp only [hookFiles, bind_eq_ok] at h
    obtain ⟨name, hname, files', hrest, h⟩ := h
    obtain ⟨hrelative, hmem, hlookup⟩ := ih hrest
    have hrel := relative_of_relativeFile hname
    obtain rfl : name = normal path := hrel.eq
    obtain rfl := Except.ok.inj h
    refine ⟨List.forall_mem_cons.mpr ⟨hrel, hrelative⟩, fun p => ?_, fun hnodup e he => ?_⟩
    · rw [List.exists_mem_cons_iff, ← hmem]
      split
      · next hthere =>
        constructor
        · exact .inr
        · rintro (rfl | hold)
          · exact AList.lookup_isSome.mp hthere
          · exact hold
      · rw [AList.mem_insert, eq_comm]
    · rw [List.map_cons, List.nodup_cons] at hnodup
      have hnew : files'.lookup (normal path) = none := by
        rw [AList.lookup_eq_none, hmem]
        rintro ⟨e', he', heq⟩
        exact hnodup.1 (List.mem_map.mpr ⟨e', he', heq⟩)
      rw [hnew]
      rcases List.mem_cons.mp he with rfl | hold
      · exact AList.lookup_insert _
      · have hne : normal e.1 ≠ normal path := by
          intro heq
          exact hnodup.1 (List.mem_map.mpr ⟨e, hold, heq⟩)
        rw [if_neg (by simp), AList.lookup_insert_ne hne]
        exact hlookup hnodup.2 e hold

/-- The sources of a hook come to names that differ by more than case, none is a directory on the way to
another one, and the file system can hold them. -/
structure HookFits (fold : Char → List Char) (storable : Path → Bool) (directory : Path)
    (sources : Dict String String) : Prop where
  distinct : (sources.keys.map fun k => casefold fold (normal k)).Nodup
  apart : ∀ k ∈ sources.keys, ∀ k' ∈ sources.keys, ¬Path.Nested (pathParts k) (pathParts k')
  storable : ∀ k ∈ sources.keys, storable (directory ++ pathParts k) = true

/-- The paths of a hook are sane, and each source is written; `compiled` is what the publication makes of
the source at a path, in UTF-8. -/
def HookHolds (fold : Char → List Char) (compiled : String → String → List UInt8) (storable : Path → Bool)
    (t : FileTree) (directory : Path) (sources files : Dict String String) : Prop :=
  Sane fold (sources.keys.map normal) ∧
    ∃ u, materialize storable t (below directory (contents (files.mapWithKey compiled))) = some u ∧
      ∀ k s, sources.lookup k = some s →
        u.files.lookup (directory ++ pathParts k) = some (compiled (normal k) s)

theorem mem_sources {sources : Dict String String} {k : String} :
    k ∈ sources.keys ↔ ∃ s, (k, s) ∈ sources.entries.map fun e => (e.1, e.2) := by
  rw [← AList.mem_keys, ← AList.lookup_isSome, Option.isSome_iff_exists]
  exact exists_congr fun s => mem_contents_iff.symm

/-- The paths of a hook are the names that its sources come to. -/
theorem hook_keys {sources files : Dict String String} (compiled : String → String → List UInt8)
    (h : hookFiles (sources.entries.map fun e => (e.1, e.2)) = .ok files) :
    (∀ k ∈ sources.keys, Relative (normal k) (pathParts k)) ∧
      ∀ p, p ∈ (files.mapWithKey compiled).keys ↔ ∃ k ∈ sources.keys, normal k = p := by
  obtain ⟨hrelative, hmem, _⟩ := hookFiles_ok h
  refine ⟨fun k hk => ?_, fun p => ?_⟩
  · obtain ⟨s, hs⟩ := mem_sources.mp hk
    exact hrelative (k, s) hs
  · rw [← AList.mem_keys, ← AList.lookup_isSome, Dict.lookup_mapWithKey, Option.isSome_map,
      AList.lookup_isSome, hmem]
    constructor
    · rintro ⟨e, he, heq⟩
      exact ⟨e.1, mem_sources.mpr ⟨e.2, he⟩, heq⟩
    · rintro ⟨k, hk, heq⟩
      obtain ⟨s, hs⟩ := mem_sources.mp hk
      exact ⟨(k, s), hs, heq⟩

/-- What a hook that fits is published as can be written. -/
theorem HookFits.published {fold : Char → List Char} {storable : Path → Bool} {directory : Path}
    {sources files : Dict String String} (compiled : String → String → List UInt8)
    (hfits : HookFits fold storable directory sources)
    (h : hookFiles (sources.entries.map fun e => (e.1, e.2)) = .ok files) :
    (∀ p ∈ (files.mapWithKey compiled).keys, Relative p (pathParts p)) ∧
      (∀ p ∈ (files.mapWithKey compiled).keys, ∀ q ∈ (files.mapWithKey compiled).keys,
        ¬Path.Nested (pathParts p) (pathParts q)) ∧
      ∀ p ∈ (files.mapWithKey compiled).keys, storable (directory ++ pathParts p) = true := by
  obtain ⟨hrel, hkeys⟩ := hook_keys compiled h
  refine ⟨fun p hp => ?_, fun p hp q hq => ?_, fun p hp => ?_⟩
  · obtain ⟨k, hk, rfl⟩ := (hkeys p).mp hp
    rw [(hrel k hk).pathParts]
    exact hrel k hk
  · obtain ⟨k, hk, rfl⟩ := (hkeys p).mp hp
    obtain ⟨k', hk', rfl⟩ := (hkeys q).mp hq
    rw [(hrel k hk).pathParts, (hrel k' hk').pathParts]
    exact hfits.apart k hk k' hk'
  · obtain ⟨k, hk, rfl⟩ := (hkeys p).mp hp
    rw [(hrel k hk).pathParts]
    exact hfits.storable k hk

theorem hook_holds_iff {fold : Char → List Char} {compiled : String → String → List UInt8}
    {storable : Path → Bool} {t : FileTree} {directory : Path} (hvacant : Vacant t directory)
    {sources files : Dict String String}
    (h : hookFiles (sources.entries.map fun e => (e.1, e.2)) = .ok files) :
    HookHolds fold compiled storable t directory sources files ↔
      HookFits fold storable directory sources := by
  obtain ⟨hrel, hkeys⟩ := hook_keys compiled h
  have hparts : ∀ k ∈ sources.keys, pathParts (normal k) = pathParts k := fun k hk => (hrel k hk).pathParts
  constructor
  · rintro ⟨hsane, u, hu, _⟩
    refine ⟨?_, fun k hk k' hk' => ?_, fun k hk => ?_⟩
    · have hdistinct := hsane.distinct
      rw [List.map_map] at hdistinct
      exact hdistinct
    · rw [← hparts k hk, ← hparts k' hk']
      exact hsane.apart _ (List.mem_map_of_mem hk) _ (List.mem_map_of_mem hk')
    · obtain ⟨raw, hraw⟩ := Option.isSome_iff_exists.mp (AList.lookup_isSome.mpr
        (AList.mem_keys.mpr ((hkeys (normal k)).mpr ⟨k, hk, rfl⟩)))
      have hwritten := storable_of_materialize hu _
        (List.mem_map.mpr ⟨(normal k, raw), mem_contents.mpr hraw, rfl⟩)
      rw [hparts k hk] at hwritten
      exact hwritten
  · intro hfits
    obtain ⟨hrelkeys, hapart, hstore⟩ := hfits.published compiled h
    obtain ⟨u, hu, hwritten, _⟩ := materialize_below hvacant hrelkeys hapart hstore
    refine ⟨sane_of_relative (fun p hp => ?_) ?_ fun p hp q hq => ?_, u, hu, fun k s hs => ?_⟩
    · obtain ⟨k, hk, rfl⟩ := List.mem_map.mp hp
      rw [hparts k hk]
      exact hrel k hk
    · rw [List.map_map]
      exact hfits.distinct
    · obtain ⟨k, hk, rfl⟩ := List.mem_map.mp hp
      obtain ⟨k', hk', rfl⟩ := List.mem_map.mp hq
      rw [hparts k hk, hparts k' hk']
      exact hfits.apart k hk k' hk'
    · have hnames : ((sources.entries.map fun e => (e.1, e.2)).map fun e => normal e.1).Nodup := by
        have hfst : (sources.entries.map fun e => (e.1, e.2)).map (fun e => normal e.1) =
            sources.keys.map normal := by
          simp [AList.keys, List.keys]
        rw [hfst]
        refine List.Nodup.of_map (casefold fold) ?_
        rw [List.map_map]
        exact hfits.distinct
      have hentry : (k, s) ∈ sources.entries.map fun e => (e.1, e.2) := mem_contents_iff.mpr hs
      have hlook := (hookFiles_ok h).2.2 hnames (k, s) hentry
      rw [← hparts k (mem_sources.mpr ⟨s, hentry⟩)]
      refine hwritten (normal k) (compiled (normal k) s) ?_
      rw [Dict.lookup_mapWithKey, hlook]
      rfl

/-- The sources of a saved hook were read by `hookFiles`. -/
theorem hookFiles_of_saveResource {host : Host} {rid : String} {value : ResourceValue}
    {data data' : Document} (h : saveResource host rid value data = .ok data') {r : Resource}
    (hr : data'.resources.lookup rid = some r) {entry : String} {sources : Dict String String}
    (hdata : r.draft.data = .hook entry sources) :
    hookFiles (sources.entries.map fun e => (e.1, e.2)) = .ok r.draft.files := by
  simp only [saveResource, bind_eq_ok, refuse_eq_ok] at h
  obtain ⟨_, -, _, -, _, -, _, -, _, -, draft, hdraft, h⟩ := h
  obtain rfl := Except.ok.inj h
  rw [AList.lookup_insert] at hr
  obtain rfl : r.draft = draft := by
    obtain rfl := Option.some.inj hr
    cases data.resources.lookup rid <;> rfl
  unfold resourceDraft at hdraft
  split at hdraft
  · simp only [bind_eq_ok] at hdraft
    obtain ⟨_, _, hdraft⟩ := hdraft
    rw [← Except.ok.inj hdraft] at hdata
    cases hdata
  · dsimp only at hdraft
    split at hdraft
    · cases hdraft
    · simp only [hookDraft, bind_eq_ok, refuse_eq_ok] at hdraft
      obtain ⟨_, _, _, -, _, -, files, hfiles, hdraft⟩ := hdraft
      have heq := Except.ok.inj hdraft
      rw [← heq] at hdata ⊢
      injection hdata with _ hsources
      subst hsources
      exact hfiles
  · simp only [bind_eq_ok] at hdraft
    obtain ⟨_, _, hdraft⟩ := hdraft
    rw [← Except.ok.inj hdraft] at hdata
    cases hdata

theorem identifier_of_saveResource {host : Host} {rid : String} {value : ResourceValue}
    {data data' : Document} (h : saveResource host rid value data = .ok data') :
    isIdentifier rid = true := by
  simp only [saveResource, bind_eq_ok, identifier, refuse_eq_ok] at h
  obtain ⟨_, hid, _⟩ := h
  simpa using hid

/-! ## §H The directory of an Agent -/

/-- A resource version that an Agent is bound to. -/
structure Bound where
  kind : ResourceKind
  id : String
  files : Dict String (List UInt8)

/-- `("skills/" if kind == "skill" else "plugins/") + id` -/
def Bound.directory (b : Bound) : Path := [if b.kind = .skill then "skills" else "plugins", b.id]

theorem Bound.directory_cases (b : Bound) : b.directory = ["skills", b.id] ∨ b.directory = ["plugins", b.id] := by
  unfold Bound.directory
  split
  · exact .inl rfl
  · exact .inr rfl

/-- What is there before the bindings are looked at. -/
def baseFiles (ignore trace instructions : List UInt8) : List (Path × List UInt8) :=
  [(["global", "opencode", ".gitignore"], ignore), (["plugins", "system-trace.mjs"], trace),
    (["AGENTS.md"], instructions)]

/-- The loop of `compile_agent` over the bindings. -/
def link (storable : Path → Bool) (t : FileTree) (bounds : List Bound) : Option FileTree :=
  bounds.foldlM (fun t b => materialize storable t (below b.directory (contents b.files))) t

/-- The files of a bound version can be written. -/
structure Bound.Fits (storable : Path → Bool) (b : Bound) : Prop where
  identifier : isIdentifier b.id = true
  relative : ∀ p ∈ b.files.keys, Relative p (pathParts p)
  apart : ∀ p ∈ b.files.keys, ∀ q ∈ b.files.keys, ¬Path.Nested (pathParts p) (pathParts q)
  storable : ∀ p ∈ b.files.keys, storable (b.directory ++ pathParts p) = true

theorem identifier_ne_trace {id : String} (h : isIdentifier id = true) : id ≠ "system-trace.mjs" := by
  rintro rfl
  exact absurd h (by decide)

theorem keys_of_materialize {storable : Path → Bool} {t u : FileTree} {files : List (Path × List UInt8)}
    (h : materialize storable t files = some u) :
    ∀ q ∈ u.files.keys, q ∈ t.files.keys ∨ ∃ f ∈ files, f.1 = q := by
  induction files generalizing t with
  | nil =>
    obtain rfl := Option.some.inj h
    exact fun q hq => .inl hq
  | cons f files ih =>
    obtain ⟨t', ht', h⟩ := Option.bind_eq_some_iff.mp h
    unfold writeBytes at ht'
    split at ht'
    · intro q hq
      rcases ih h q hq with hold | ⟨g, hg, rfl⟩
      · rw [(FileTree.write_eq_some.mp ht').2] at hold
        rcases (AList.mem_insert _).mp (AList.mem_keys.mpr hold) with rfl | hold
        · exact .inr ⟨f, List.mem_cons_self .., rfl⟩
        · exact .inl (AList.mem_keys.mp hold)
      · exact .inr ⟨g, List.mem_cons_of_mem f hg, rfl⟩
    · cases ht'

/-- The directory of a resource is vacant at the start. -/
theorem vacant_base {ignore trace instructions : List UInt8} {storable : Path → Bool} {t : FileTree}
    (ht : materialize storable .empty (baseFiles ignore trace instructions) = some t) {b : Bound}
    (hid : isIdentifier b.id = true) : Vacant t b.directory := by
  have htrace := identifier_ne_trace hid
  intro q hq
  rcases keys_of_materialize ht q hq with hold | ⟨f, hf, rfl⟩
  · exact absurd hold List.not_mem_nil
  · simp only [baseFiles, List.mem_cons, List.not_mem_nil, or_false] at hf
    unfold Bound.directory
    rcases hf with rfl | rfl | rfl
    · split <;> simp [List.cons_prefix_cons]
    · split <;> simp [List.cons_prefix_cons, htrace, htrace.symm]
    · split <;> simp [List.cons_prefix_cons]

/-- The directory of another resource stays vacant. -/
theorem Vacant.others {t u : FileTree} {b c : Bound} (h : Vacant t c.directory) (hne : b.id ≠ c.id)
    (hfiles : ∀ q ∈ u.files.keys, q ∈ t.files.keys ∨ b.directory <+: q ∧ q ≠ b.directory) :
    Vacant u c.directory := by
  intro q hq
  rcases hfiles q hq with hold | ⟨hbelow, hnot⟩
  · exact h q hold
  · obtain ⟨rest, rfl⟩ := hbelow
    have hrest : rest ≠ [] := by
      rintro rfl
      exact hnot (by simp)
    simp only [Bound.directory, List.cons_append, List.nil_append, List.cons_prefix_cons]
    constructor
    · rintro ⟨_, hid, _⟩
      exact hne hid.symm
    · rintro ⟨_, hid, _⟩
      exact hne hid

/-- **All the resources of an Agent are written**, each below its own directory. -/
theorem link_writes {storable : Path → Bool} {t : FileTree} {bounds : List Bound}
    (hids : (bounds.map (·.id)).Nodup) (hfits : ∀ b ∈ bounds, b.Fits storable)
    (hvacant : ∀ b ∈ bounds, Vacant t b.directory) :
    ∃ u, link storable t bounds = some u ∧
      (∀ b ∈ bounds, ∀ p raw, b.files.lookup p = some raw →
        u.files.lookup (b.directory ++ pathParts p) = some raw) ∧
      (∀ q raw, t.files.lookup q = some raw → u.files.lookup q = some raw) ∧
      ∀ q ∈ u.files.keys, q ∈ t.files.keys ∨ ∃ b ∈ bounds, b.directory <+: q := by
  induction bounds generalizing t with
  | nil => exact ⟨t, rfl, fun b hb => absurd hb List.not_mem_nil, fun q raw hq => hq, fun q hq => .inl hq⟩
  | cons b bounds ih =>
    rw [List.map_cons, List.nodup_cons] at hids
    rw [List.forall_mem_cons] at hfits hvacant
    obtain ⟨t', ht', hwritten, hkeys, hkept⟩ :=
      materialize_below hvacant.1 hfits.1.relative hfits.1.apart hfits.1.storable
    obtain ⟨u, hu, hothers, hkept', hkeys'⟩ := ih hids.2 hfits.2 fun c hc => by
      refine (hvacant.2 c hc).others (fun hsame => hids.1 ?_) hkeys
      exact List.mem_map.mpr ⟨c, hc, hsame.symm⟩
    refine ⟨u, ?_, List.forall_mem_cons.mpr ⟨fun p raw hp => hkept' _ raw (hwritten p raw hp), hothers⟩,
      fun q raw hq => hkept' q raw (hkept q raw hq), fun q hq => ?_⟩
    · rw [link, List.foldlM_cons, ht']
      exact hu
    · rcases hkeys' q hq with hold | ⟨c, hc, hbelow⟩
      · rcases hkeys q hold with hold | ⟨hbelow, _⟩
        · exact .inl hold
        · exact .inr ⟨b, List.mem_cons_self .., hbelow⟩
      · exact .inr ⟨c, List.mem_cons_of_mem b hc, hbelow⟩

/-- What is written after the bindings. -/
def closingFiles (opencode config effective : List UInt8) : List (Path × List UInt8) :=
  [(["opencode.json"], opencode), (["agent.cfg"], config), (["effective.json"], effective)]

/-- The directory that `compile_agent` writes; the contents of the platform's own files are given. -/
def compileFiles (storable : Path → Bool) (opening closing : List (Path × List UInt8))
    (bounds : List Bound) : Option FileTree := do
  let t ← materialize storable .empty opening
  let u ← link storable t bounds
  materialize storable u closing

theorem mem_of_materialize {storable : Path → Bool} {t u : FileTree} {files : List (Path × List UInt8)}
    (h : materialize storable t files = some u) :
    (∀ q ∈ t.files, q ∈ u.files) ∧ ∀ f ∈ files, f.1 ∈ u.files := by
  induction files generalizing t with
  | nil =>
    obtain rfl := Option.some.inj h
    exact ⟨fun q hq => hq, fun f hf => absurd hf List.not_mem_nil⟩
  | cons f files ih =>
    obtain ⟨t', ht', h⟩ := Option.bind_eq_some_iff.mp h
    unfold writeBytes at ht'
    split at ht'
    · have hfiles := (FileTree.write_eq_some.mp ht').2
      obtain ⟨hkept, hnew⟩ := ih h
      refine ⟨fun q hq => hkept q ?_, List.forall_mem_cons.mpr ⟨hkept f.1 ?_, hnew⟩⟩
      · rw [hfiles]
        exact (AList.mem_insert _).mpr (.inr hq)
      · rw [hfiles]
        exact (AList.mem_insert _).mpr (.inl rfl)
    · cases ht'

/-- Only what the file system can hold is written. -/
theorem storable_keys {storable : Path → Bool} {t u : FileTree} {files : List (Path × List UInt8)}
    (h : materialize storable t files = some u) (ht : ∀ q ∈ t.files.keys, storable q = true) :
    ∀ q ∈ u.files.keys, storable q = true := by
  intro q hq
  rcases keys_of_materialize h q hq with hold | ⟨f, hf, rfl⟩
  · exact ht q hold
  · exact storable_of_materialize h f hf

theorem storable_link {storable : Path → Bool} {t u : FileTree} {bounds : List Bound}
    (h : link storable t bounds = some u) (ht : ∀ q ∈ t.files.keys, storable q = true) :
    ∀ q ∈ u.files.keys, storable q = true := by
  induction bounds generalizing t with
  | nil =>
    obtain rfl := Option.some.inj h
    exact ht
  | cons b bounds ih =>
    obtain ⟨t', ht', h⟩ := Option.bind_eq_some_iff.mp h
    exact ih h (storable_keys ht' ht)

/-- A file keeps its content while others are written. -/
theorem lookup_of_materialize {storable : Path → Bool} {t u : FileTree} {files : List (Path × List UInt8)}
    (h : materialize storable t files = some u) {q : Path} (hq : ∀ f ∈ files, f.1 ≠ q) :
    u.files.lookup q = t.files.lookup q := by
  induction files generalizing t with
  | nil =>
    obtain rfl := Option.some.inj h
    rfl
  | cons f files ih =>
    rw [List.forall_mem_cons] at hq
    obtain ⟨t', ht', h⟩ := Option.bind_eq_some_iff.mp h
    unfold writeBytes at ht'
    split at ht'
    · rw [ih h hq.2, (FileTree.write_eq_some.mp ht').2, AList.lookup_insert_ne (Ne.symm hq.1)]
    · cases ht'

/-- **`compile_agent` writes every file of every version** that an Agent is bound to. -/
theorem compileFiles_writes {storable : Path → Bool} {ignore trace instructions : List UInt8}
    {opencode config effective : List UInt8} {bounds : List Bound}
    (hopening : ∀ f ∈ baseFiles ignore trace instructions, storable f.1 = true)
    (hclosing : ∀ f ∈ closingFiles opencode config effective, storable f.1 = true)
    (hids : (bounds.map (·.id)).Nodup) (hfits : ∀ b ∈ bounds, b.Fits storable) :
    ∃ v, compileFiles storable (baseFiles ignore trace instructions)
        (closingFiles opencode config effective) bounds = some v ∧
      (∀ b ∈ bounds, ∀ p raw, b.files.lookup p = some raw →
        v.files.lookup (b.directory ++ pathParts p) = some raw) ∧
      Sandbox.agentConfig ∈ v.files ∧ ∀ q ∈ v.files, storable q = true := by
  obtain ⟨t, ht, -⟩ := materialize_of_apart hopening
    (fun f _ => (show ∀ q ∈ FileTree.empty.files.keys, ¬f.1.Nested q from
      fun q hq => absurd hq List.not_mem_nil))
    (by simp [baseFiles, Path.Nested])
  obtain ⟨u, hu, hwritten, -, hkeys⟩ := link_writes hids hfits fun b hb =>
    vacant_base ht (hfits b hb).identifier
  -- the files of the bindings are in two directories that nothing else is written to
  have hfree : ∀ f ∈ closingFiles opencode config effective, ∀ q ∈ u.files.keys, ¬f.1.Nested q := by
    intro f hf q hq
    rcases hkeys q hq with hold | ⟨b, hb, rest, rfl⟩
    · rcases keys_of_materialize ht q hold with hnone | ⟨g, hg, rfl⟩
      · exact absurd hnone List.not_mem_nil
      · simp only [closingFiles, baseFiles, List.mem_cons, List.not_mem_nil, or_false] at hf hg
        rcases hf with rfl | rfl | rfl <;> rcases hg with rfl | rfl | rfl <;>
          simp [Path.Nested, List.cons_prefix_cons]
    · simp only [closingFiles, List.mem_cons, List.not_mem_nil, or_false] at hf
      rcases b.directory_cases with hdir | hdir <;> rcases hf with rfl | rfl | rfl <;>
        simp [hdir, Path.Nested, List.cons_prefix_cons]
  obtain ⟨v, hv, -⟩ := materialize_of_apart hclosing hfree (by simp [closingFiles, Path.Nested])
  refine ⟨v, ?_, fun b hb p raw hp => ?_, ?_, fun q hq => ?_⟩
  · rw [compileFiles, ht, Option.bind_eq_bind, Option.bind_some, hu]
    exact hv
  · rw [lookup_of_materialize hv, hwritten b hb p raw hp]
    intro f hf hsame
    simp only [closingFiles, List.mem_cons, List.not_mem_nil, or_false] at hf
    rcases b.directory_cases with hdir | hdir <;> rcases hf with rfl | rfl | rfl <;>
      simp [hdir] at hsame
  · exact (mem_of_materialize hv).2 (["agent.cfg"], config) (by simp [closingFiles])
  · have hnone : ∀ q ∈ FileTree.empty.files.keys, storable q = true :=
      fun q hq => absurd hq List.not_mem_nil
    exact storable_keys hv (storable_link hu (storable_keys ht hnone)) q (AList.mem_keys.mp hq)

theorem lookup_insertAll {ps : List (Path × List UInt8)} {d : Dict Path (List UInt8)} {p : Path}
    {raw : List UInt8} (h : (Sandbox.insertAll d ps).lookup p = some raw) :
    (p, raw) ∈ ps ∨ d.lookup p = some raw := by
  induction ps generalizing d with
  | nil => exact .inr h
  | cons f ps ih =>
    rcases ih (d := d.insert f.1 f.2) h with hmem | hlook
    · exact .inl (List.mem_cons_of_mem f hmem)
    · rcases Dict.lookup_insert_cases hlook with ⟨rfl, rfl⟩ | ⟨_, hold⟩
      · exact .inl (List.mem_cons_self ..)
      · exact .inr hold

/-- **`install_bundle` writes what was compiled**: a bundle of a finished directory within the limits gives
a directory with the same files. -/
theorem installs {storable : Path → Bool} {aid version : String} {bundle : List (String × Json)}
    {finished : FileTree} {ps : List (Path × List UInt8)} (haid : Sandbox.validateIdentifier aid = .ok ())
    (hversion : Sandbox.validateIdentifier version = .ok ()) (hcount : bundle.length ≤ 2000)
    (hdecoded : Sandbox.decoded bundle = some ps)
    (hps : ∀ p raw, (p, raw) ∈ ps ↔ finished.files.lookup p = some raw)
    (hlimit : Sandbox.totalSize ps ≤ Sandbox.bundleLimit) (hconfig : Sandbox.agentConfig ∈ finished.files)
    (hstore : ∀ p ∈ finished.files, storable p = true) :
    Sandbox.checkBundle aid ⟨.object bundle, version⟩ = .ok bundle ∧
      ∃ out, Sandbox.staged storable bundle none = .ok out ∧
        ∀ p raw, finished.files.lookup p = some raw → out.files.lookup p = some raw := by
  refine ⟨?_, ?_⟩
  · have hfew : ¬bundle.length > 2000 := by omega
    simp only [Sandbox.checkBundle, haid, hversion, decide_eq_false hfew]
    rfl
  have hkey : ∀ f ∈ ps, f.1 ∈ finished.files := fun f hf =>
    AList.lookup_isSome.mp (by rw [(hps f.1 f.2).mp hf]; rfl)
  have hmap : ∀ p, p ∈ Sandbox.fileMap ps ↔ p ∈ finished.files := by
    intro p
    rw [show p ∈ Sandbox.fileMap ps ↔ _ from Sandbox.mem_insertAll]
    constructor
    · rintro (hnone | ⟨f, hf, rfl⟩)
      · exact absurd hnone (AList.notMem_empty p)
      · exact hkey f hf
    · intro hp
      obtain ⟨raw, hraw⟩ := Option.isSome_iff_exists.mp (AList.lookup_isSome.mpr hp)
      exact .inr ⟨(p, raw), (hps p raw).mpr hraw, rfl⟩
  refine ⟨⟨Sandbox.fileMap ps, fun p q hp hq => ?_⟩, Sandbox.staged_none_eq_ok.mpr ⟨?_, ps, hdecoded,
    hlimit, (hmap _).mpr hconfig, rfl⟩, fun p raw hraw => ?_⟩
  · exact finished.apart p q ((hmap p).mp hp) ((hmap q).mp hq)
  · intro front qs hfront hqs _
    obtain ⟨qs', hqs', hfirst⟩ := Sandbox.decoded_of_prefix hfront hdecoded
    obtain rfl : qs = qs' := Option.some.inj (hqs.symm.trans hqs')
    have hmem : ∀ f ∈ qs, f.1 ∈ finished.files := fun f hf => hkey f (hfirst.subset hf)
    exact ⟨fun f hf => hstore _ (hmem f hf), fun f hf g hg => finished.apart _ _ (hmem f hf) (hmem g hg)⟩
  · have hp : p ∈ Sandbox.fileMap ps := (hmap p).mpr (AList.lookup_isSome.mp (by rw [hraw]; rfl))
    obtain ⟨v, hv⟩ := Option.isSome_iff_exists.mp (AList.lookup_isSome.mpr hp)
    rcases lookup_insertAll hv with hmem | hnone
    · rw [(hps p v).mp hmem] at hraw
      rw [← hraw]
      exact hv
    · cases hnone

/-! ## §I The accepted files -/

theorem SkillFits.bound {fold : Char → List Char} {storable : Path → Bool}
    {uploaded : List (String × List UInt8)} {b : Bound} {front : List Char}
    (hunpacked : Unpacked fold uploaded b.files front) (hid : isIdentifier b.id = true)
    (h : SkillFits storable b.directory uploaded b.files) : b.Fits storable :=
  ⟨hid, fun _ hp => hunpacked.relativeKey hp, hunpacked.apart_iff.mpr h.apart, h.storable⟩

theorem HookFits.bound {fold : Char → List Char} {storable : Path → Bool} {b : Bound}
    {sources files : Dict String String} {compiled : String → String → List UInt8}
    (hfiles : hookFiles (sources.entries.map fun e => (e.1, e.2)) = .ok files)
    (hb : b.files = files.mapWithKey compiled) (hid : isIdentifier b.id = true)
    (h : HookFits fold storable b.directory sources) : b.Fits storable := by
  obtain ⟨hrelative, hapart, hstore⟩ := h.published compiled hfiles
  rw [← hb] at hrelative hapart hstore
  exact ⟨hid, hrelative, hapart, hstore⟩

/-- An archive with a skill and a script next to it. -/
def plainArchive : List ZipEntry :=
  [⟨"tool/SKILL.md", 0o100000, false, 3, some [1, 2, 3]⟩, ⟨"tool/scripts/", 0o040000, false, 0, none⟩,
    ⟨"tool/scripts/run.py", 0, false, 2, some [4, 5]⟩]

/-- An archive with a file that is the directory of another one. -/
def clashingArchive : List ZipEntry :=
  [⟨"SKILL.md", 0o100000, false, 3, some [1, 2, 3]⟩, ⟨"a", 0o100000, false, 1, some [4]⟩,
    ⟨"a/b", 0o100000, false, 1, some [5]⟩]

/-- The skill that an archive is uploaded as, with the case folding of ASCII. -/
def uploadedSkill (archive : List ZipEntry) : Result ((String × String) × Dict String (List UInt8)) :=
  unpackSkill (fun c => [c.toLower]) (fun _ => some archive) (fun _ => .ok ("tool", "A tool")) "tool.zip" []

/-- The files of the skill. -/
def skillFiles (archive : List ZipEntry) : Dict String (List UInt8) :=
  match uploadedSkill archive with
  | .ok (_, files) => files
  | .error _ => ∅

/-- The sources of a hook by their paths. -/
def sourcesOf (sources : List (String × String)) : Dict String String :=
  sources.foldl (fun d e => d.insert e.1 e.2) ∅

/-- The document after a hook was saved. -/
def savedHook (sources : List (String × String)) : Result Document :=
  saveResource ⟨∅, "http://gateway", "image", 900, 1, 512, 256, fun _ => true, fun _ => true⟩ "hook"
    ⟨.hook, "hook", none, false, .hook "hook.mjs" (sourcesOf sources)⟩ ⟨∅, ∅, ∅, [], none, ∅, ∅, ∅⟩

/-- The files of the hook. -/
def hookFilesOf (sources : List (String × String)) : Dict String String :=
  match savedHook sources with
  | .ok data => (data.resources.lookup "hook").elim ∅ (·.draft.files)
  | .error _ => ∅

/-- The contents of a hook's files, by the number of characters. -/
def lengths (_ source : String) : List UInt8 := [source.length.toUInt8]

end OpencodeCloud.Catalog.Unpacking
