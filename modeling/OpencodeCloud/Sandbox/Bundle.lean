/-
# OpencodeCloud.Sandbox.Bundle -- what a bundle of an Agent decodes to

The checks of `install_bundle` on the files of a bundle, one after the other: the name, the type of the
value, the length of its text before it is decoded, the encoding, the size after. Two loops make the
same checks: `propose` collects the files to compare them with an installed version, `stage` writes them
below a staging directory.

`decoded` says what a bundle means without any limit. Both loops are measured against it: `propose`
accepts exactly the bundles that decode to at most 100 MiB (`propose_eq_ok`), and `stage` gives the
same unless the paths of two files get in each other's way (`stage_eq`).
-/
import Mathlib
import OpencodeCloud.Library.Base64
import OpencodeCloud.Library.Checks
import OpencodeCloud.Library.FileTree
import OpencodeCloud.Library.Json
import OpencodeCloud.Library.Uri
import OpencodeCloud.Catalog.Resources

namespace OpencodeCloud.Sandbox

open OpencodeCloud.Library OpencodeCloud.Library.Checked

/-! ## One file -/

/-- The most that the files of a bundle may decode to: 100 MiB. -/
def bundleLimit : Nat := 100 * 1024 ^ 2

/-- `relative_file`: the components of the path. -/
def relativeFile (value : String) : Checked Path := do
  refuse (value.toList.any fun c => c == '\\' || c == ':' || c == Char.ofNat 0) 400
    "Invalid resource file path"
  refuse (Catalog.isAbsolute value
      || (value.toList.splitOn '/').any (fun p => p == ['.', '.'] || p == ['.'])
      || (Catalog.pathParts value).isEmpty) 400
    "Resource file escapes root"
  return Catalog.pathParts value

/-- `base64.b64decode(value, validate=True)`. -/
def b64decode (value : String) : Checked (List UInt8) :=
  match Base64.decode value.toList with
  | some raw => .ok raw
  | none => raise 422 "Invalid Agent bundle encoding"

/-- The checks on the value of a file, when the files before it take `size` bytes. -/
def decodeValue (size : Nat) : Json → Checked (List UInt8)
  | .string value => do
    refuse (decide (value.length > (bundleLimit - size + 2) / 3 * 4)) 413
      "Agent bundle exceeds size limit"
    let raw ← b64decode value
    refuse (decide (size + raw.length > bundleLimit)) 413 "Agent bundle exceeds size limit"
    return raw
  | _ => raise 422 "Agent bundle files must be base64 strings"

def decodeFile (size : Nat) (file : String × Json) : Checked (Path × List UInt8) := do
  let name ← relativeFile file.1
  let raw ← decodeValue size file.2
  return (name, raw)

/-! ## The two loops -/

/-- The loop over an installed version: collect what the bundle proposes. -/
def propose : Nat → Dict Path (List UInt8) → List (String × Json) →
    Checked (Dict Path (List UInt8))
  | _, proposed, [] => .ok proposed
  | size, proposed, file :: files => do
    let (name, raw) ← decodeFile size file
    propose (size + raw.length) (proposed.insert name raw) files

section Staging

variable (storable : Path → Bool)

/-- Write one file below the staging directory; `storable` says which paths the file system can
hold. -/
def writeFile (staging : FileTree) (name : Path) (raw : List UInt8) : Checked FileTree :=
  if storable name then orRaise (staging.write name raw) else .error .other

/-- The loop over a version that is not there: write the files. -/
def stage : Nat → FileTree → List (String × Json) → Checked FileTree
  | _, staging, [] => .ok staging
  | size, staging, file :: files => do
    let (name, raw) ← decodeFile size file
    let staging ← writeFile storable staging name raw
    stage (size + raw.length) staging files

end Staging

/-- The comparison with an installed version. -/
def compare (current proposed : Dict Path (List UInt8)) : Checked Unit :=
  refuse (!current.same proposed) 409
    "Immutable bundle version already exists with different content"

def agentConfig : Path := ["agent.cfg"]

/-- A bundle must have an `agent.cfg`. -/
def requireConfig (files : Dict Path (List UInt8)) : Checked Unit :=
  refuse (!decide (agentConfig ∈ files)) 422 "Agent bundle missing agent.cfg"

/-- What the path over an installed version does with a bundle. -/
def confirm (files : List (String × Json)) (current : FileTree) : Checked Unit := do
  let proposed ← propose 0 ∅ files
  requireConfig proposed
  compare current.files proposed

/-- What the staging path does with a bundle when nothing fails: the tree it renames, or has to
compare with what another process installed meanwhile. -/
def staged (storable : Path → Bool) (files : List (String × Json)) (target : Option FileTree) :
    Checked FileTree := do
  let staging ← stage storable 0 .empty files
  requireConfig staging.files
  match target with
  | none => return staging
  | some current =>
    compare current.files staging.files
    return current

/-! ## What a bundle means -/

/-- The path and the bytes of one file. -/
def decodedFile (file : String × Json) : Option (Path × List UInt8) :=
  match relativeFile file.1, file.2 with
  | .ok name, .string value => (Base64.decode value.toList).map (name, ·)
  | _, _ => none

/-- The files of a bundle with decoded contents, in the bundle's order. -/
def decoded (files : List (String × Json)) : Option (List (Path × List UInt8)) :=
  files.mapM decodedFile

/-- The bytes of all files together. -/
def totalSize (files : List (Path × List UInt8)) : Nat := (files.map (·.2.length)).sum

/-- The file map: of two files with the same path the last one counts. -/
def fileMap (files : List (Path × List UInt8)) : Dict Path (List UInt8) :=
  files.foldl (fun d f => d.insert f.1 f.2) ∅

/-! ## The early length check -/

/-- The text of a value that fits is never longer than the check allows. -/
theorem length_le_of_decode {size : Nat} {value : List Char} {raw : List UInt8}
    (h : Base64.decode value = some raw) (hsize : size + raw.length ≤ bundleLimit) :
    value.length ≤ (bundleLimit - size + 2) / 3 * 4 := by
  have hlength := Base64.length_of_decode h
  omega

/-- The checks on a value let through exactly what decodes and fits. -/
theorem decodeValue_eq_ok {size : Nat} {value : Json} {raw : List UInt8} :
    decodeValue size value = .ok raw ↔
      (∃ text, value = .string text ∧ Base64.decode text.toList = some raw) ∧
        size + raw.length ≤ bundleLimit := by
  cases value with
  | string text =>
    simp only [decodeValue, bind_eq_ok, refuse_eq_ok, decide_eq_false_iff_not, not_lt, b64decode,
      pure_eq_ok, Json.string.injEq]
    constructor
    · rintro ⟨_, -, raw', hraw, _, hfits, rfl⟩
      split at hraw
      · next hdecode =>
        obtain rfl := Except.ok.inj hraw
        exact ⟨⟨text, rfl, hdecode⟩, hfits⟩
      · simp at hraw
    · rintro ⟨⟨text', rfl, hdecode⟩, hfits⟩
      refine ⟨(), ?_, raw, by rw [hdecode], (), hfits, rfl⟩
      simpa [String.length_toList] using length_le_of_decode hdecode hfits
  | _ => simp [decodeValue]

theorem decodeFile_eq_ok {size : Nat} {file : String × Json} {f : Path × List UInt8} :
    decodeFile size file = .ok f ↔
      decodedFile file = some f ∧ size + f.2.length ≤ bundleLimit := by
  obtain ⟨name, raw⟩ := f
  simp only [decodeFile, bind_eq_ok, decodeValue_eq_ok, pure_eq_ok, Prod.mk.injEq, decodedFile]
  constructor
  · rintro ⟨name', hname, raw', ⟨⟨text, hvalue, hdecode⟩, hfits⟩, rfl, rfl⟩
    simp [hname, hvalue, hdecode, hfits]
  · rintro ⟨h, hfits⟩
    split at h
    · next name' text hname hvalue =>
      obtain ⟨raw', hdecode, heq⟩ := Option.map_eq_some_iff.mp h
      obtain ⟨rfl, rfl⟩ := Prod.mk.inj heq
      exact ⟨name', hname, raw', ⟨⟨text, hvalue, hdecode⟩, hfits⟩, rfl, rfl⟩
    · cases h

/-! ## What the loop over an installed version accepts -/

theorem decoded_cons {file : String × Json} {files : List (String × Json)}
    {ps : List (Path × List UInt8)} :
    decoded (file :: files) = some ps ↔
      ∃ f, decodedFile file = some f ∧ ∃ fs, decoded files = some fs ∧ f :: fs = ps := by
  simp only [decoded, List.mapM_cons, Option.bind_eq_bind, Option.bind_eq_some_iff, Option.pure_def,
    Option.some.injEq]

/-- The map with the files of a list put into it. -/
def insertAll (d : Dict Path (List UInt8)) (ps : List (Path × List UInt8)) :
    Dict Path (List UInt8) :=
  ps.foldl (fun d f => d.insert f.1 f.2) d

theorem propose_from_eq_ok {size : Nat} {d d' : Dict Path (List UInt8)}
    {files : List (String × Json)} (hsize : size ≤ bundleLimit) :
    propose size d files = .ok d' ↔ ∃ ps, decoded files = some ps ∧
      size + totalSize ps ≤ bundleLimit ∧ insertAll d ps = d' := by
  induction files generalizing size d with
  | nil =>
    have hnil : decoded [] = some [] := rfl
    simp [propose, hnil, totalSize, insertAll, hsize]
  | cons file files ih =>
    have hstep : ∀ f : Path × List UInt8, ∀ ps,
        size + f.2.length + totalSize ps = size + totalSize (f :: ps) := by
      intro f ps
      simp only [totalSize, List.map_cons, List.sum_cons]
      omega
    simp only [propose, bind_eq_ok, decodeFile_eq_ok, decoded_cons]
    constructor
    · rintro ⟨f, ⟨hf, hfits⟩, hrest⟩
      obtain ⟨ps, hps, htotal, hd⟩ := (ih hfits).mp hrest
      exact ⟨f :: ps, ⟨f, hf, ps, hps, rfl⟩, hstep f ps ▸ htotal, hd⟩
    · rintro ⟨_, ⟨f, hf, ps, hps, rfl⟩, htotal, hd⟩
      have hfits : size + f.2.length ≤ bundleLimit := by
        have := hstep f ps
        omega
      exact ⟨f, ⟨hf, hfits⟩, (ih hfits).mpr ⟨ps, hps, (hstep f ps).symm ▸ htotal, hd⟩⟩

/-- **The size arithmetic is exact**: the loop accepts the bundles that decode to at most 100 MiB, so
the check before decoding refuses none of them, and no others. -/
theorem propose_eq_ok {files : List (String × Json)} {d : Dict Path (List UInt8)} :
    propose 0 ∅ files = .ok d ↔
      ∃ ps, decoded files = some ps ∧ totalSize ps ≤ bundleLimit ∧ fileMap ps = d := by
  rw [propose_from_eq_ok (Nat.zero_le _)]
  simp only [Nat.zero_add]
  rfl

/-! ## The checks raise answers for the caller only -/

theorem relativeFile_answers {value : String} : (relativeFile value).Answers :=
  Answers.refuse.bind fun _ => Answers.refuse.bind fun _ => Answers.pure

theorem decodeValue_answers {size : Nat} {value : Json} : (decodeValue size value).Answers := by
  have hb64 : ∀ text, (b64decode text).Answers := by
    intro text
    unfold b64decode
    split
    · exact Answers.ok
    · exact Answers.raise
  cases value with
  | string text =>
    exact Answers.refuse.bind fun _ => (hb64 text).bind fun _ =>
      Answers.refuse.bind fun _ => Answers.pure
  | _ => exact Answers.raise

theorem decodeFile_answers {size : Nat} {file : String × Json} : (decodeFile size file).Answers :=
  relativeFile_answers.bind fun _ => decodeValue_answers.bind fun _ => Answers.pure

theorem propose_answers {size : Nat} {d : Dict Path (List UInt8)} {files : List (String × Json)} :
    (propose size d files).Answers := by
  induction files generalizing size d with
  | nil => exact Answers.ok
  | cons file files ih => exact decodeFile_answers.bind fun _ => ih

theorem confirm_answers {files : List (String × Json)} {current : FileTree} :
    (confirm files current).Answers :=
  propose_answers.bind fun _ => Answers.refuse.bind fun _ => Answers.refuse

/-! ## Paths that get in each other's way -/

section Compatible

variable (storable : Path → Bool)

/-- **No two files of the bundle get in each other's way**, as far as the checks let its files through:
the file system can hold every path, and no path is a directory on the way to another. -/
def Compatible (files : List (String × Json)) : Prop :=
  ∀ front ps, front <+: files → decoded front = some ps → totalSize ps ≤ bundleLimit →
    (∀ f ∈ ps, storable f.1 = true) ∧ ∀ f ∈ ps, ∀ g ∈ ps, ¬ f.1.Nested g.1

/-- The same seen by the loop: every file it comes to finds its path free. -/
def Fits : Nat → Dict Path (List UInt8) → List (String × Json) → Prop
  | _, _, [] => True
  | size, d, file :: files =>
    ∀ f, decodeFile size file = .ok f →
      storable f.1 = true ∧ (∀ q ∈ d, ¬ f.1.Nested q) ∧
        Fits (size + f.2.length) (d.insert f.1 f.2) files

variable {storable}

theorem fits_iff {size : Nat} {d : Dict Path (List UInt8)} {files : List (String × Json)} :
    Fits storable size d files ↔
      ∀ front ps, front <+: files → decoded front = some ps → size + totalSize ps ≤ bundleLimit →
        (∀ f ∈ ps, storable f.1 = true) ∧
          ∀ f ∈ ps, (∀ q ∈ d, ¬ f.1.Nested q) ∧ ∀ g ∈ ps, ¬ f.1.Nested g.1 := by
  induction files generalizing size d with
  | nil =>
    refine ⟨fun _ front ps hfront hps _ => ?_, fun _ => trivial⟩
    obtain rfl := List.prefix_nil.mp hfront
    obtain rfl := Option.some.inj hps
    simp
  | cons file files ih =>
    have hsum : ∀ (f : Path × List UInt8) ps, totalSize (f :: ps) = f.2.length + totalSize ps := by
      intro f ps
      simp [totalSize]
    constructor
    · intro h front ps hfront hps htotal
      cases front with
      | nil =>
        obtain rfl := Option.some.inj hps
        simp
      | cons file' front =>
        obtain ⟨rfl, hfirst⟩ := List.cons_prefix_cons.mp hfront
        obtain ⟨f, hf, fs, hfs, rfl⟩ := decoded_cons.mp hps
        rw [hsum] at htotal
        obtain ⟨hstore, hfree, hrest⟩ := h f (decodeFile_eq_ok.mpr ⟨hf, by omega⟩)
        obtain ⟨hstores, hapart⟩ := ih.mp hrest front fs hfirst hfs (by omega)
        refine ⟨List.forall_mem_cons.mpr ⟨hstore, hstores⟩, ?_⟩
        have hlater : ∀ g ∈ fs, ¬ g.1.Nested f.1 := fun g hg =>
          (hapart g hg).1 f.1 ((AList.mem_insert _).mpr (.inl rfl))
        rintro g hg
        rcases List.mem_cons.mp hg with rfl | hg
        · exact ⟨hfree, List.forall_mem_cons.mpr
            ⟨fun hn => hn.1 rfl, fun k hk hn => hlater k hk hn.symm⟩⟩
        · exact ⟨fun q hq => (hapart g hg).1 q ((AList.mem_insert _).mpr (.inr hq)),
            List.forall_mem_cons.mpr ⟨hlater g hg, (hapart g hg).2⟩⟩
    · intro h f hf
      obtain ⟨hf, hfits⟩ := decodeFile_eq_ok.mp hf
      have hone := h [file] [f] (by simp) (decoded_cons.mpr ⟨f, hf, [], rfl, rfl⟩)
        (by simpa [totalSize] using hfits)
      refine ⟨hone.1 f (by simp), (hone.2 f (by simp)).1, ih.mpr ?_⟩
      intro front ps hfront hps htotal
      obtain ⟨hstores, hapart⟩ := h (file :: front) (f :: ps)
        (List.cons_prefix_cons.mpr ⟨rfl, hfront⟩) (decoded_cons.mpr ⟨f, hf, ps, hps, rfl⟩)
        (by rw [hsum]; omega)
      refine ⟨fun g hg => hstores g (List.mem_cons_of_mem _ hg), fun g hg => ⟨?_, ?_⟩⟩
      · intro q hq
        rcases (AList.mem_insert _).mp hq with rfl | hq
        · exact (hapart g (List.mem_cons_of_mem _ hg)).2 f List.mem_cons_self
        · exact (hapart g (List.mem_cons_of_mem _ hg)).1 q hq
      · exact fun k hk => (hapart g (List.mem_cons_of_mem _ hg)).2 k (List.mem_cons_of_mem _ hk)

theorem compatible_iff_fits {files : List (String × Json)} :
    Compatible storable files ↔ Fits storable 0 ∅ files := by
  rw [fits_iff, Compatible]
  simp

/-! ## The two paths -/

theorem writeFile_eq_ok {t u : FileTree} {name : Path} {raw : List UInt8} :
    writeFile storable t name raw = .ok u ↔
      storable name = true ∧ t.Free name ∧ u.files = t.files.insert name raw := by
  unfold writeFile
  split
  · next h => simp [h, FileTree.write_eq_some]
  · next h => simp [h]

/-- While every file finds its path free, the staging loop does what the other loop does. -/
theorem stage_of_fits {size : Nat} {t : FileTree} {files : List (String × Json)}
    (h : Fits storable size t.files files) :
    (stage storable size t files).map FileTree.files = propose size t.files files := by
  induction files generalizing size t with
  | nil => rfl
  | cons file files ih =>
    cases hfile : decodeFile size file with
    | error e => simp [stage, propose, hfile, Bind.bind, Except.bind, Except.map]
    | ok f =>
      obtain ⟨hstore, hfree, hrest⟩ := h f hfile
      have hmember : t.Free f.1 := fun q hq => hfree q (AList.mem_keys.mpr hq)
      obtain ⟨u, hu⟩ : ∃ u, t.write f.1 f.2 = some u :=
        ⟨⟨_, hmember.insert_apart f.2⟩, FileTree.write_eq_some.mpr ⟨hmember, rfl⟩⟩
      have hfiles : u.files = t.files.insert f.1 f.2 := (FileTree.write_eq_some.mp hu).2
      have hwrite : writeFile storable t f.1 f.2 = .ok u :=
        writeFile_eq_ok.mpr ⟨hstore, hmember, hfiles⟩
      have hind := @ih (size + f.2.length) u (by rwa [hfiles])
      rw [hfiles] at hind
      simpa [stage, propose, hfile, Bind.bind, Except.bind, hwrite] using hind

/-- Otherwise the file system refuses a write. -/
theorem stage_of_not_fits {size : Nat} {t : FileTree} {files : List (String × Json)}
    (h : ¬ Fits storable size t.files files) : stage storable size t files = .error .other := by
  induction files generalizing size t with
  | nil => exact absurd trivial h
  | cons file files ih =>
    cases hfile : decodeFile size file with
    | error e =>
      refine absurd (fun f hf => ?_) h
      rw [hfile] at hf
      cases hf
    | ok f =>
      cases hwrite : writeFile storable t f.1 f.2 with
      | error e =>
        obtain rfl : e = .other := by
          unfold writeFile at hwrite
          split at hwrite
          · cases hw : t.write f.1 f.2 <;> simp_all [orRaise]
          · exact (Except.error.inj hwrite).symm
        simp [stage, hfile, Bind.bind, Except.bind, hwrite]
      | ok u =>
        obtain ⟨hstore, hfree, hfiles⟩ := writeFile_eq_ok.mp hwrite
        have hrest : ¬ Fits storable (size + f.2.length) u.files files := by
          intro hrest
          refine h fun f' hf' => ?_
          obtain rfl : f = f' := Except.ok.inj (hfile.symm.trans hf')
          exact ⟨hstore, fun q hq => hfree q (AList.mem_keys.mp hq), hfiles ▸ hrest⟩
        simpa [stage, hfile, Bind.bind, Except.bind, hwrite] using ih hrest

/-- A tree that was staged holds the bundle's file map, at storable paths. -/
theorem stage_eq_ok {files : List (String × Json)} {u : FileTree}
    (h : stage storable 0 .empty files = .ok u) :
    Compatible storable files ∧ propose 0 ∅ files = .ok u.files := by
  have hfits : Fits storable 0 FileTree.empty.files files := by
    by_contra hnot
    rw [stage_of_not_fits hnot] at h
    cases h
  refine ⟨compatible_iff_fits.mpr hfits, ?_⟩
  rw [← show FileTree.empty.files = ∅ from rfl, ← stage_of_fits hfits, h]
  rfl

theorem mem_insertAll {ps : List (Path × List UInt8)} {d : Dict Path (List UInt8)} {p : Path} :
    p ∈ insertAll d ps ↔ p ∈ d ∨ ∃ f ∈ ps, f.1 = p := by
  induction ps generalizing d with
  | nil => simp [insertAll]
  | cons f ps ih =>
    have hind := ih (d := d.insert f.1 f.2)
    rw [insertAll] at hind
    rw [insertAll, List.foldl_cons, hind, AList.mem_insert]
    constructor
    · rintro ((rfl | h) | ⟨g, hg, rfl⟩)
      · exact .inr ⟨f, List.mem_cons_self, rfl⟩
      · exact .inl h
      · exact .inr ⟨g, List.mem_cons_of_mem _ hg, rfl⟩
    · rintro (h | ⟨g, hg, rfl⟩)
      · exact .inl (.inr h)
      · rcases List.mem_cons.mp hg with rfl | hg
        · exact .inl (.inl rfl)
        · exact .inr ⟨g, hg, rfl⟩

/-- A staged tree lies where the file system can hold it. -/
theorem storable_of_stage {files : List (String × Json)} {u : FileTree}
    (h : stage storable 0 .empty files = .ok u) : ∀ p ∈ u.files, storable p = true := by
  obtain ⟨hcompatible, hpropose⟩ := stage_eq_ok h
  obtain ⟨ps, hps, htotal, hmap⟩ := propose_eq_ok.mp hpropose
  intro p hp
  rw [← hmap] at hp
  rcases mem_insertAll.mp hp with hempty | ⟨f, hf, rfl⟩
  · simp at hempty
  · exact (hcompatible files ps List.prefix_rfl hps htotal).1 f hf

/-- **The two paths agree on a bundle whose files do not get in each other's way**, with the same
answer for every version that may be installed, and they disagree on every other bundle. -/
theorem staged_eq_confirm_iff {files : List (String × Json)} {current : FileTree} :
    (staged storable files (some current)).map (fun _ => ()) = confirm files current ↔
      Compatible storable files := by
  by_cases hfits : Fits storable 0 FileTree.empty.files files
  · refine ⟨fun _ => compatible_iff_fits.mpr hfits, fun _ => ?_⟩
    have hloops := stage_of_fits hfits
    unfold staged confirm
    rw [← show FileTree.empty.files = ∅ from rfl, ← hloops]
    cases hstage : stage storable 0 .empty files with
    | error e => rfl
    | ok u =>
      simp only [Except.map, Bind.bind, Except.bind]
      cases requireConfig u.files with
      | error e => rfl
      | ok _ =>
        simp only
        cases compare current.files u.files with
        | error e => rfl
        | ok _ => rfl
  · refine ⟨fun h => ?_, fun h => absurd (compatible_iff_fits.mp h) hfits⟩
    unfold staged at h
    rw [stage_of_not_fits hfits] at h
    exact absurd h.symm confirm_answers

/-! ## The same bundles are accepted -/

theorem decoded_of_prefix {front files : List (String × Json)} {ps : List (Path × List UInt8)}
    (h : front <+: files) (hps : decoded files = some ps) :
    ∃ qs, decoded front = some qs ∧ qs <+: ps := by
  induction front generalizing files ps with
  | nil => exact ⟨[], rfl, List.nil_prefix⟩
  | cons file front ih =>
    cases files with
    | nil => simp at h
    | cons file' files =>
      obtain ⟨rfl, hfront⟩ := List.cons_prefix_cons.mp h
      obtain ⟨f, hf, fs, hfs, rfl⟩ := decoded_cons.mp hps
      obtain ⟨qs, hqs, hfirst⟩ := ih hfront hfs
      exact ⟨f :: qs, decoded_cons.mpr ⟨f, hf, qs, hqs, rfl⟩,
        List.cons_prefix_cons.mpr ⟨rfl, hfirst⟩⟩

/-- What an installed version is confirmed to hold can be staged. -/
theorem compatible_of_confirm {files : List (String × Json)} {current : FileTree}
    (hstore : ∀ p ∈ current.files, storable p = true) (h : confirm files current = .ok ()) :
    Compatible storable files := by
  simp only [confirm, bind_eq_ok, compare, refuse_eq_ok, Bool.not_eq_false'] at h
  obtain ⟨d, hd, _, -, hsame⟩ := h
  obtain ⟨ps, hps, -, rfl⟩ := propose_eq_ok.mp hd
  have hkey : ∀ f ∈ ps, f.1 ∈ current.files := by
    intro f hf
    have hmem : f.1 ∈ fileMap ps := mem_insertAll.mpr (.inr ⟨f, hf, rfl⟩)
    rw [← AList.lookup_isSome, Dict.same_iff.mp hsame, AList.lookup_isSome]
    exact hmem
  intro front qs hfront hqs _
  obtain ⟨qs', hqs', hfirst⟩ := decoded_of_prefix hfront hps
  obtain rfl : qs = qs' := Option.some.inj (hqs.symm.trans hqs')
  have hmem : ∀ f ∈ qs, f.1 ∈ current.files := fun f hf => hkey f (hfirst.subset hf)
  exact ⟨fun f hf => hstore _ (hmem f hf),
    fun f hf g hg => current.apart _ _ (hmem f hf) (hmem g hg)⟩

/-- **The two paths accept the same bundles**: an installed version is confirmed by the bundles that
install it. -/
theorem confirm_eq_ok_iff {files : List (String × Json)} {current : FileTree}
    (hstore : ∀ p ∈ current.files, storable p = true) :
    confirm files current = .ok () ↔
      ∃ u, staged storable files none = .ok u ∧ current.files.same u.files = true := by
  constructor
  · intro h
    have hcompatible := compatible_of_confirm hstore h
    have hfits := compatible_iff_fits.mp hcompatible
    simp only [confirm, bind_eq_ok, compare, refuse_eq_ok, Bool.not_eq_false'] at h
    obtain ⟨d, hd, _, hconfig, hsame⟩ := h
    rw [← show FileTree.empty.files = ∅ from rfl,
      ← stage_of_fits (t := .empty) hfits] at hd
    cases hstage : stage storable 0 .empty files with
    | error e => simp [hstage, Except.map] at hd
    | ok u =>
      rw [hstage] at hd
      obtain rfl : u.files = d := Except.ok.inj hd
      refine ⟨u, ?_, hsame⟩
      simp only [staged, bind_eq_ok, pure_eq_ok]
      exact ⟨u, hstage, (), hconfig, rfl⟩
  · rintro ⟨u, hu, hsame⟩
    simp only [staged, bind_eq_ok, pure_eq_ok] at hu
    obtain ⟨t, hstage, _, hconfig, rfl⟩ := hu
    simp only [confirm, bind_eq_ok, compare, refuse_eq_ok, Bool.not_eq_false']
    exact ⟨t.files, (stage_eq_ok hstage).2, (), hconfig, hsame⟩

/-- What is staged for a version that is not there is exactly what decodes, fits and has an
`agent.cfg`. -/
theorem staged_none_eq_ok {files : List (String × Json)} {u : FileTree} :
    staged storable files none = .ok u ↔
      Compatible storable files ∧ ∃ ps, decoded files = some ps ∧ totalSize ps ≤ bundleLimit ∧
        agentConfig ∈ fileMap ps ∧ fileMap ps = u.files := by
  simp only [staged, bind_eq_ok, pure_eq_ok, requireConfig, refuse_eq_ok, Bool.not_eq_false',
    decide_eq_true_eq]
  constructor
  · rintro ⟨t, hstage, _, hconfig, rfl⟩
    obtain ⟨hcompatible, hpropose⟩ := stage_eq_ok hstage
    obtain ⟨ps, hps, htotal, hmap⟩ := propose_eq_ok.mp hpropose
    exact ⟨hcompatible, ps, hps, htotal, hmap.symm ▸ hconfig, hmap⟩
  · rintro ⟨hcompatible, ps, hps, htotal, hconfig, hmap⟩
    have hloops := stage_of_fits (t := .empty) (compatible_iff_fits.mp hcompatible)
    have hpropose : propose 0 FileTree.empty.files files = .ok (fileMap ps) :=
      propose_eq_ok.mpr ⟨ps, hps, htotal, rfl⟩
    rw [hpropose] at hloops
    cases hstage : stage storable 0 .empty files with
    | error e => simp [hstage, Except.map] at hloops
    | ok t =>
      rw [hstage] at hloops
      have hfiles : t.files = fileMap ps := Except.ok.inj hloops
      obtain rfl : t = u := by
        cases t
        cases u
        simpa using hfiles.trans hmap
      exact ⟨t, rfl, (), hfiles ▸ hconfig, rfl⟩

end Compatible

end OpencodeCloud.Sandbox
