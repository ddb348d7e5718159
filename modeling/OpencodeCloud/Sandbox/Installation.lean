/-
# OpencodeCloud.Sandbox.Installation -- immutable versions under racing installations

`install_bundle` run by any number of callers at once over one directory of versions. A call looks
whether the version is there; if it is, it compares, and if not it writes the files to a staging
directory of its own, looks again, and renames. The rename fails over a version that another call
installed meanwhile, and then the call compares as well. Any operation of the file system can fail, and
a call can stop for good at any point.

A version is only ever put where none was (`Host.step_keeps`), so what a call compares with is what
stays there. That makes the three comparisons of the source one and the same.
-/
import OpencodeCloud.Library.Machine
import OpencodeCloud.Sandbox.Bundle

namespace OpencodeCloud.Sandbox

open OpencodeCloud.Library OpencodeCloud.Library.Checked

/-! ## Calls -/

/-- A letter or a digit of ASCII. -/
def asciiAlnum (c : Char) : Bool :=
  ('A' ≤ c && c ≤ 'Z') || ('a' ≤ c && c ≤ 'z') || ('0' ≤ c && c ≤ '9')

/-- The regular expression `[A-Za-z0-9][A-Za-z0-9._-]{0,127}`. -/
def isIdentifier (value : String) : Bool :=
  match value.toList with
  | [] => false
  | c :: cs => asciiAlnum c && cs.length ≤ 127
      && cs.all fun c => asciiAlnum c || c == '.' || c == '_' || c == '-'

/-- `validate_identifier`, which raises a `ValueError`. -/
def validateIdentifier (value : String) : Checked Unit :=
  if isIdentifier value then .ok () else .error .other

/-- A bundle: its field `files` (an empty object when there is none), and what `str` makes of its
field `version` (`preview` when there is none). -/
structure Bundle where
  files : Json
  version : String

/-- The checks before the version is looked for. -/
def checkBundle (agentId : String) (bundle : Bundle) : Checked (List (String × Json)) := do
  validateIdentifier agentId
  match bundle.files with
  | .object files =>
    refuse (decide (files.length > 2000)) 413 "Agent bundle exceeds file limit"
    validateIdentifier bundle.version
    return files
  | _ => raise 413 "Agent bundle exceeds file limit"

/-- How far a call has come. -/
inductive Phase
  | refused (e : Exception)
  | looking
  | confirming
  | writing (rest : List (String × Json)) (size : Nat) (staging : FileTree)
  | written (staging : FileTree)
  | comparing (staging : FileTree)
  | replacing (staging : FileTree)
  | over (result : Checked Unit)

/-- One call of `install_bundle`; `faulted` when an operation of the file system failed in it. -/
structure Installing where
  agentId : String
  version : String
  files : List (String × Json)
  stagingName : String
  phase : Phase
  faulted : Bool

/-- The directory of versions below the root, the calls that were made, and every path below the root
that was created or written so far. -/
structure Host where
  versions : Dict (String × String) FileTree
  calls : List Installing
  touched : List Path

def Host.initial : Host := ⟨∅, [], []⟩

/-- The random part of a name from `mkdtemp`. -/
def isSuffix (suffix : String) : Bool := suffix.toList.all fun c => asciiAlnum c || c == '_'

namespace Installing

variable (storable : Path → Bool)

/-- The version the call is about. -/
def key (c : Installing) : String × String := (c.version, c.agentId)

/-- `target`. -/
def target (c : Installing) : Path := ["versions", c.version, c.agentId]

def directory (c : Installing) (name : String) : Path := ["versions", c.version, name]

/-- The call after a step, what it installs, and the paths it touches. -/
structure Effect where
  call : Installing
  install : Option FileTree
  touched : List Path

def goes (c : Installing) (phase : Phase) : Effect := ⟨{ c with phase := phase }, none, []⟩

/-- One step of a call that finds `current` at its target; `none` when the call is over. -/
def advance (c : Installing) (suffix : String) (current : Option FileTree) : Option Effect :=
  match c.phase with
  | .refused _ | .over _ => none
  | .looking =>
    match current with
    | some _ => some (c.goes .confirming)
    | none =>
      -- make the parent directory and a staging directory with a name of its own
      let name := ".bundle-" ++ suffix
      if isSuffix suffix then
        some ⟨{ c with phase := .writing c.files 0 .empty, stagingName := name }, none,
          [["versions", c.version], c.directory name]⟩
      else none
  | .confirming => some (c.goes (.over (confirm c.files (current.getD .empty))))
  | .writing (file :: rest) size staging =>
    match decodeFile size file with
    | .error e => some (c.goes (.over (.error e)))
    | .ok (name, raw) =>
      match writeFile storable staging name raw with
      | .error e => some ⟨{ c with phase := .over (.error e) }, none, [c.directory c.stagingName ++ name]⟩
      | .ok staging =>
        some ⟨{ c with phase := .writing rest (size + raw.length) staging }, none,
          [c.directory c.stagingName ++ name]⟩
  | .writing [] _ staging =>
    match requireConfig staging.files with
    | .error e => some (c.goes (.over (.error e)))
    | .ok _ => some (c.goes (.written staging))
  | .written staging =>
    match current with
    | some _ => some (c.goes (.comparing staging))
    | none => some (c.goes (.replacing staging))
  | .comparing staging =>
    some (c.goes (.over (compare (current.getD .empty).files staging.files)))
  | .replacing staging =>
    match current with
    | none => some ⟨{ c with phase := .over (.ok ()) }, some staging, [c.target]⟩
    | some installed => some (c.goes (.over (compare installed.files staging.files)))

/-- An operation of the file system fails: the staging directory is removed, the exception passes. -/
def fault (c : Installing) : Option Effect :=
  match c.phase with
  | .refused _ | .over _ => none
  | _ => some ⟨{ c with phase := .over (.error .other), faulted := true }, none, []⟩

end Installing

/-! ## The host -/

inductive InstallEvent
  | call (agentId : String) (bundle : Bundle)
  | step (i : Nat) (suffix : String)
  | fault (i : Nat)

namespace Host

variable (storable : Path → Bool)

/-- A call with these arguments begins. -/
def begin (agentId : String) (bundle : Bundle) : Installing :=
  match checkBundle agentId bundle with
  | .error e => ⟨agentId, bundle.version, [], "", .refused e, false⟩
  | .ok files => ⟨agentId, bundle.version, files, "", .looking, false⟩

/-- The effect of a step of the call with number `i`. -/
def perform (s : Host) (i : Nat) (key : String × String) (e : Installing.Effect) : Host where
  versions := match e.install with
    | some tree => s.versions.insert key tree
    | none => s.versions
  calls := s.calls.set i e.call
  touched := s.touched ++ e.touched

def step (s : Host) : InstallEvent → Option Host
  | .call agentId bundle => some { s with calls := s.calls ++ [begin agentId bundle] }
  | .step i suffix => do
    let c ← s.calls[i]?
    let e ← c.advance storable suffix (s.versions.lookup c.key)
    return s.perform i c.key e
  | .fault i => do
    let c ← s.calls[i]?
    let e ← c.fault
    return s.perform i c.key e

end Host

/-- The machine of all calls over one directory. -/
def installer (storable : Path → Bool) : Machine Host InstallEvent := ⟨Host.step storable⟩

/-! ## What a call knows -/

variable {storable : Path → Bool}

/-- A table of versions that has what another one has, and perhaps more. -/
def Grown (d d' : Dict (String × String) FileTree) : Prop :=
  ∀ key tree, d.lookup key = some tree → d'.lookup key = some tree

theorem Grown.insert {d : Dict (String × String) FileTree} {key : String × String} {tree : FileTree}
    (h : d.lookup key = none) : Grown d (d.insert key tree) := by
  intro key' tree' hkey'
  by_cases hk : key' = key
  · rw [hk, h] at hkey'
    cases hkey'
  · rwa [AList.lookup_insert_ne hk]

/-- What a call may rely on, in each phase, about the installed versions and its own staging tree. -/
def Installing.Knows (storable : Path → Bool) (versions : Dict (String × String) FileTree) (c : Installing) :
    Prop :=
  match c.phase with
  | .refused _ | .looking => True
  | .confirming => ∃ tree, versions.lookup c.key = some tree
  | .writing rest size staging =>
    stage storable 0 .empty c.files = stage storable size staging rest
  | .written staging | .replacing staging =>
    stage storable 0 .empty c.files = .ok staging ∧ requireConfig staging.files = .ok ()
  | .comparing staging =>
    (stage storable 0 .empty c.files = .ok staging ∧ requireConfig staging.files = .ok ()) ∧
      ∃ tree, versions.lookup c.key = some tree
  | .over result =>
    (result = .ok () → ∃ tree, versions.lookup c.key = some tree ∧ confirm c.files tree = .ok ()) ∧
      (c.faulted = false → Compatible storable c.files → ∀ tree,
        versions.lookup c.key = none ∨ versions.lookup c.key = some tree →
          result = confirm c.files tree)

theorem Installing.Knows.mono {d d' : Dict (String × String) FileTree} {c : Installing}
    (h : c.Knows storable d) (hgrown : Grown d d') : c.Knows storable d' := by
  unfold Installing.Knows at h ⊢
  split
  · trivial
  · trivial
  · next hphase =>
    rw [hphase] at h
    exact h.imp fun tree htree => hgrown _ _ htree
  · next hphase => rwa [hphase] at h
  · next hphase => rwa [hphase] at h
  · next hphase => rwa [hphase] at h
  · next hphase =>
    rw [hphase] at h
    exact ⟨h.1, h.2.imp fun tree htree => hgrown _ _ htree⟩
  · next hphase =>
    rw [hphase] at h
    refine ⟨fun hok => (h.1 hok).imp fun tree htree => ⟨hgrown _ _ htree.1, htree.2⟩, ?_⟩
    intro hfault hcompatible tree htree
    refine h.2 hfault hcompatible tree ?_
    cases hd : d.lookup c.key with
    | none => exact .inl rfl
    | some tree' =>
      rcases htree with hnone | hsome
      · rw [hgrown _ _ hd] at hnone
        cases hnone
      · exact .inr (by rw [← hsome, hgrown _ _ hd])

/-- What a call that staged its files gets over an installed version is what comparing gives it. -/
theorem compare_staged {files : List (String × Json)} {staging current : FileTree}
    (hstage : stage storable 0 .empty files = .ok staging)
    (hconfig : requireConfig staging.files = .ok ()) :
    compare current.files staging.files = confirm files current := by
  unfold confirm
  rw [(stage_eq_ok hstage).2]
  simp only [Bind.bind, Except.bind, hconfig]

/-- A bundle that the staging loop refuses is refused over every installed version. -/
theorem confirm_of_stage_error {files : List (String × Json)} {e : Exception} {current : FileTree}
    (hcompatible : Compatible storable files) (h : stage storable 0 .empty files = .error e) :
    .error e = confirm files current := by
  rw [← staged_eq_confirm_iff.mpr hcompatible]
  simp [staged, h, Bind.bind, Except.bind, Except.map]

/-- What a refused file, or a refused tree, says of the whole bundle. -/
theorem Installing.knows_error {d : Dict (String × String) FileTree} {c : Installing} {e : Exception}
    (h : ∀ current, Compatible storable c.files → .error e = confirm c.files current) :
    (c.goes (.over (.error e))).call.Knows storable d :=
  ⟨nofun, fun _ hcompatible tree _ => h tree hcompatible⟩

/-- A comparison with the installed version tells what comparing the bundle itself would tell. -/
theorem Installing.knows_result {d : Dict (String × String) FileTree} {c : Installing} {tree : FileTree}
    {r : Checked Unit} (htree : d.lookup c.key = some tree) (hr : r = confirm c.files tree) :
    (c.goes (.over r)).call.Knows storable d := by
  refine ⟨fun hok => ⟨tree, htree, hr ▸ hok⟩, fun _ _ tree' htree' => ?_⟩
  rcases htree' with hnone | hsome
  · exact absurd (htree.symm.trans hnone) (by simp)
  · obtain rfl : tree = tree' := Option.some.inj (htree.symm.trans hsome)
    exact hr

/-- The versions after an effect on the version `key`. -/
def installed (d : Dict (String × String) FileTree) (key : String × String)
    (install : Option FileTree) : Dict (String × String) FileTree :=
  match install with
  | some tree => d.insert key tree
  | none => d

/-- **One step of a call**: it installs where nothing is, and what it knows stays right. -/
theorem Installing.advance_knows {d : Dict (String × String) FileTree} {c : Installing} {suffix : String}
    {e : Effect} (h : c.Knows storable d) (hstep : c.advance storable suffix (d.lookup c.key) = some e) :
    Grown d (installed d c.key e.install) ∧
      e.call.Knows storable (installed d c.key e.install) := by
  have hgrown : Grown d d := fun _ _ hkey => hkey
  obtain ⟨agentId, version, files, stagingName, phase, faulted⟩ := c
  unfold advance at hstep
  cases phase with
  | refused e => cases hstep
  | «over» r => cases hstep
  | looking =>
    simp only at hstep
    split at hstep
    · next tree htree =>
      obtain rfl := Option.some.inj hstep
      exact ⟨hgrown, tree, htree⟩
    · split at hstep
      · obtain rfl := Option.some.inj hstep
        exact ⟨hgrown, rfl⟩
      · cases hstep
  | confirming =>
    obtain ⟨tree, htree⟩ := h
    rw [htree] at hstep
    obtain rfl := Option.some.inj hstep
    exact ⟨hgrown, knows_result htree rfl⟩
  | writing rest size staging =>
    cases rest with
    | nil =>
      have hstage : stage storable 0 .empty files = .ok staging := h
      simp only at hstep
      split at hstep
      · next e hconfig =>
        obtain rfl := Option.some.inj hstep
        refine ⟨hgrown, knows_error fun current hcompatible => ?_⟩
        rw [← staged_eq_confirm_iff.mpr hcompatible]
        simp [staged, hstage, hconfig, Bind.bind, Except.bind, Except.map]
      · next hconfig =>
        obtain rfl := Option.some.inj hstep
        exact ⟨hgrown, hstage, hconfig⟩
    | cons file rest =>
      have hstage : stage storable 0 .empty files = stage storable size staging (file :: rest) := h
      simp only at hstep
      split at hstep
      · next e hfile =>
        obtain rfl := Option.some.inj hstep
        refine ⟨hgrown, knows_error fun current hcompatible => ?_⟩
        refine confirm_of_stage_error hcompatible (hstage.trans ?_)
        simp [stage, hfile, Bind.bind, Except.bind]
      · next name raw hfile =>
        split at hstep
        · next e hwrite =>
          obtain rfl := Option.some.inj hstep
          refine ⟨hgrown, fun h => (by cases h), fun _ hcompatible current _ => ?_⟩
          refine confirm_of_stage_error hcompatible (hstage.trans ?_)
          simp [stage, hfile, hwrite, Bind.bind, Except.bind]
        · next staging' hwrite =>
          obtain rfl := Option.some.inj hstep
          refine ⟨hgrown, hstage.trans ?_⟩
          simp [stage, hfile, hwrite, Bind.bind, Except.bind]
  | written staging =>
    simp only at hstep
    split at hstep
    · next tree htree =>
      obtain rfl := Option.some.inj hstep
      exact ⟨hgrown, h, tree, htree⟩
    · obtain rfl := Option.some.inj hstep
      exact ⟨hgrown, h⟩
  | comparing staging =>
    obtain ⟨⟨hstage, hconfig⟩, tree, htree⟩ := h
    rw [htree] at hstep
    obtain rfl := Option.some.inj hstep
    exact ⟨hgrown, knows_result htree (compare_staged hstage hconfig)⟩
  | replacing staging =>
    obtain ⟨hstage, hconfig⟩ := h
    simp only at hstep
    split at hstep
    · next hnone =>
      obtain rfl := Option.some.inj hstep
      refine ⟨Grown.insert hnone, ?_⟩
      have hself : .ok () = confirm files staging := by
        rw [← compare_staged hstage hconfig]
        simp [compare, refuse]
      have hlook : (installed d (version, agentId) (some staging)).lookup (version, agentId)
          = some staging := by simp [installed]
      exact ⟨fun _ => ⟨staging, hlook, hself.symm⟩, fun _ _ tree htree => by
        rcases htree with hnone | hsome
        · exact absurd (hlook.symm.trans hnone) (by simp)
        · obtain rfl : staging = tree := Option.some.inj (hlook.symm.trans hsome)
          exact hself⟩
    · next tree htree =>
      obtain rfl := Option.some.inj hstep
      exact ⟨hgrown, knows_result htree (compare_staged hstage hconfig)⟩

theorem Installing.fault_knows {d : Dict (String × String) FileTree} {c : Installing} {e : Effect}
    (hstep : c.fault = some e) : e.install = none ∧ e.call.Knows storable d := by
  unfold fault at hstep
  split at hstep
  · cases hstep
  · cases hstep
  · obtain rfl := Option.some.inj hstep
    exact ⟨rfl, nofun, fun hfaulted => absurd hfaulted (by simp)⟩

/-- A call keeps its arguments. -/
theorem Installing.advance_key {c : Installing} {suffix : String} {current : Option FileTree} {e : Effect}
    (hstep : c.advance storable suffix current = some e) : e.call.key = c.key := by
  unfold advance at hstep
  split at hstep <;> (try split at hstep) <;> (try split at hstep) <;>
    first
    | (obtain rfl := Option.some.inj hstep; rfl)
    | cases hstep

/-! ## Where files are written -/

/-- A component that stays in its directory. -/
def Plain (c : String) : Prop := c ≠ "" ∧ c ≠ "." ∧ c ≠ ".." ∧ '/' ∉ c.toList

theorem asciiAlnum_ne {c : Char} (h : asciiAlnum c = true) : c ≠ '.' ∧ c ≠ '/' := by
  constructor
  · rintro rfl
    exact absurd h (by decide)
  · rintro rfl
    exact absurd h (by decide)

theorem plain_of_isIdentifier {value : String} (h : isIdentifier value = true) : Plain value := by
  unfold isIdentifier at h
  split at h
  · cases h
  · next c cs hlist =>
    simp only [Bool.and_eq_true, decide_eq_true_eq, List.all_eq_true, Bool.or_eq_true,
      beq_iff_eq] at h
    obtain ⟨⟨hc, -⟩, hcs⟩ := h
    have hhead : ∀ s : String, s.toList.head? ≠ some c → value ≠ s := by
      rintro s hs rfl
      exact hs (by rw [hlist]; rfl)
    refine ⟨?_, ?_, ?_, ?_⟩
    · exact hhead "" (by simp)
    · refine hhead "." ?_
      intro hdot
      exact (asciiAlnum_ne hc).1 (Option.some.inj hdot).symm
    · refine hhead ".." ?_
      intro hdot
      exact (asciiAlnum_ne hc).1 (Option.some.inj hdot).symm
    · rw [hlist]
      intro hmem
      rcases List.mem_cons.mp hmem with heq | hmem
      · exact (asciiAlnum_ne hc).2 heq.symm
      · rcases hcs _ hmem with ((h | h) | h) | h
        · exact absurd h (by decide)
        all_goals exact absurd h (by decide)

theorem plain_of_relativeFile {value : String} {p : Path} (h : relativeFile value = .ok p) :
    ∀ c ∈ p, Plain c := by
  simp only [relativeFile, bind_eq_ok, refuse_eq_ok, pure_eq_ok, Bool.or_eq_false_iff] at h
  obtain ⟨_, -, _, ⟨⟨-, hdots⟩, -⟩, rfl⟩ := h
  intro c hc
  simp only [Catalog.pathParts, List.mem_filter, List.mem_map, Bool.and_eq_true, bne_iff_ne] at hc
  obtain ⟨⟨segment, hsegment, rfl⟩, hne, hdot⟩ := hc
  have hsegdots := List.any_eq_false.mp hdots segment hsegment
  simp only [Bool.or_eq_true, beq_iff_eq, not_or] at hsegdots
  refine ⟨hne, hdot, fun hdd => hsegdots.1 ?_, ?_⟩
  · simpa using congrArg String.toList hdd
  · simpa using not_mem_of_mem_splitOn hsegment

theorem plain_staging {suffix : String} (h : isSuffix suffix = true) :
    Plain (".bundle-" ++ suffix) := by
  have hlist : (".bundle-" ++ suffix).toList = '.' :: 'b' :: ("undle-".toList ++ suffix.toList) := by
    simp [String.toList_append]
  have hne : ∀ s : String, s.toList.length ≤ 1 ∨ s.toList[1]? = some '.' →
      ".bundle-" ++ suffix ≠ s := by
    rintro s hs rfl
    rw [hlist] at hs
    simp at hs
  refine ⟨hne "" (by decide), hne "." (by decide), hne ".." (by decide), ?_⟩
  rw [hlist]
  intro hmem
  have hslash : '/' ∈ suffix.toList := by simpa using hmem
  have := List.all_eq_true.mp h '/' hslash
  exact absurd this (by decide)

/-- The names a call makes its paths of stay in their directory. -/
def Installing.Named (c : Installing) : Prop :=
  (∃ e, c.phase = .refused e) ∨ (Plain c.agentId ∧ Plain c.version ∧
    ∀ rest size staging, c.phase = .writing rest size staging → Plain c.stagingName)

theorem Installing.Named.goes {c : Installing} (h : Plain c.agentId ∧ Plain c.version) {phase : Phase}
    (hphase : ∀ rest size staging, phase ≠ .writing rest size staging) :
    (c.goes phase).call.Named :=
  .inr ⟨h.1, h.2, fun _ _ _ hwriting => absurd hwriting (hphase _ _ _)⟩

theorem plain_versions : Plain "versions" := ⟨by decide, by decide, by decide, by decide⟩

/-- A step touches paths below the root only. -/
theorem Installing.advance_touched {c : Installing} {suffix : String} {current : Option FileTree} {e : Effect}
    (h : c.Named) (hstep : c.advance storable suffix current = some e) :
    e.call.Named ∧ ∀ p ∈ e.touched, ∀ x ∈ p, Plain x := by
  obtain ⟨agentId, version, files, stagingName, phase, faulted⟩ := c
  have hnothing : ∀ p ∈ ([] : List Path), ∀ x ∈ p, Plain x := by simp
  rcases h with ⟨e, rfl⟩ | ⟨hagent, hversion, hstaging⟩
  · cases hstep
  have hplain : Plain agentId ∧ Plain version := ⟨hagent, hversion⟩
  unfold advance at hstep
  cases phase with
  | refused e => cases hstep
  | «over» r => cases hstep
  | looking =>
    simp only at hstep
    split at hstep
    · obtain rfl := Option.some.inj hstep
      exact ⟨.goes hplain (by simp), hnothing⟩
    · split at hstep
      · next hsuffix =>
        obtain rfl := Option.some.inj hstep
        have hname := plain_staging hsuffix
        refine ⟨.inr ⟨hagent, hversion, fun _ _ _ _ => hname⟩, ?_⟩
        simp only [directory, List.forall_mem_cons]
        exact ⟨⟨plain_versions, hversion, by simp⟩, ⟨plain_versions, hversion, hname, by simp⟩,
          by simp⟩
      · cases hstep
  | confirming =>
    obtain rfl := Option.some.inj hstep
    exact ⟨.goes hplain (by simp), hnothing⟩
  | writing rest size staging =>
    have hname : Plain stagingName := hstaging rest size staging rfl
    cases rest with
    | nil =>
      simp only at hstep
      split at hstep
      · obtain rfl := Option.some.inj hstep
        exact ⟨.goes hplain (by simp), hnothing⟩
      · obtain rfl := Option.some.inj hstep
        exact ⟨.goes hplain (by simp), hnothing⟩
    | cons file rest =>
      simp only at hstep
      split at hstep
      · obtain rfl := Option.some.inj hstep
        exact ⟨.goes hplain (by simp), hnothing⟩
      · next name raw hfile =>
        simp only [decodeFile, bind_eq_ok, pure_eq_ok, Prod.mk.injEq] at hfile
        obtain ⟨name', hrelative, _, -, rfl, -⟩ := hfile
        have hpath : ∀ x ∈ ["versions", version, stagingName] ++ name', Plain x := by
          intro x hx
          rcases List.mem_append.mp hx with hx | hx
          · simp only [List.mem_cons, List.not_mem_nil, or_false] at hx
            rcases hx with rfl | rfl | rfl
            · exact plain_versions
            · exact hversion
            · exact hname
          · exact plain_of_relativeFile hrelative x hx
        split at hstep
        · obtain rfl := Option.some.inj hstep
          exact ⟨.inr ⟨hagent, hversion, fun _ _ _ _ => hname⟩, by simpa [directory] using hpath⟩
        · obtain rfl := Option.some.inj hstep
          exact ⟨.inr ⟨hagent, hversion, fun _ _ _ _ => hname⟩, by simpa [directory] using hpath⟩
  | written staging =>
    simp only at hstep
    split at hstep
    · obtain rfl := Option.some.inj hstep
      exact ⟨.goes hplain (by simp), hnothing⟩
    · obtain rfl := Option.some.inj hstep
      exact ⟨.goes hplain (by simp), hnothing⟩
  | comparing staging =>
    obtain rfl := Option.some.inj hstep
    exact ⟨.goes hplain (by simp), hnothing⟩
  | replacing staging =>
    simp only at hstep
    split at hstep
    · obtain rfl := Option.some.inj hstep
      refine ⟨.inr ⟨hagent, hversion, nofun⟩, ?_⟩
      simp only [target, List.forall_mem_cons]
      exact ⟨⟨plain_versions, hversion, hagent, by simp⟩, by simp⟩
    · obtain rfl := Option.some.inj hstep
      exact ⟨.goes hplain (by simp), hnothing⟩

/-- Only a rename installs anything. -/
theorem Installing.advance_install {c : Installing} {suffix : String} {current : Option FileTree} {e : Effect}
    {tree : FileTree} (hstep : c.advance storable suffix current = some e)
    (htree : e.install = some tree) : c.phase = .replacing tree := by
  have hnone : ∀ {e' : Effect}, some e' = some e → e'.install ≠ none := by
    intro e' he' hinstall
    rw [← Option.some.inj he', hinstall] at htree
    cases htree
  unfold advance at hstep
  split at hstep
  case h_9 staging hphase =>
    rw [hphase]
    split at hstep
    · obtain rfl := Option.some.inj hstep
      obtain rfl := Option.some.inj htree
      rfl
    · exact absurd rfl (hnone hstep)
  all_goals
    first
    | exact absurd rfl (hnone hstep)
    | cases hstep
    | (split at hstep <;>
        first
        | exact absurd rfl (hnone hstep)
        | (split at hstep <;> first | exact absurd rfl (hnone hstep) | cases hstep))

/-! ## Every reachable state -/

/-- What holds in every reachable state. -/
structure Host.Inv (storable : Path → Bool) (s : Host) : Prop where
  knows : ∀ c ∈ s.calls, c.Knows storable s.versions
  named : ∀ c ∈ s.calls, c.Named
  plain : ∀ p ∈ s.touched, ∀ x ∈ p, Plain x
  stored : ∀ key tree, s.versions.lookup key = some tree → ∀ p ∈ tree.files, storable p = true

theorem Host.Inv.initial : Host.initial.Inv storable :=
  ⟨nofun, nofun, nofun, fun _ _ h => by simp [Host.initial] at h⟩

theorem Host.begin_fine (d : Dict (String × String) FileTree) (agentId : String)
    (bundle : Bundle) :
    (begin agentId bundle).Knows storable d ∧ (begin agentId bundle).Named := by
  unfold begin
  split
  · next e _ => exact ⟨trivial, .inl ⟨e, rfl⟩⟩
  · next files hcheck =>
    refine ⟨trivial, .inr ?_⟩
    simp only [checkBundle, bind_eq_ok] at hcheck
    obtain ⟨_, hagent, hcheck⟩ := hcheck
    have hvalid : ∀ {value : String} {u : Unit}, validateIdentifier value = .ok u → Plain value := by
      intro value u h
      unfold validateIdentifier at h
      split at h
      · next hid => exact plain_of_isIdentifier hid
      · cases h
    split at hcheck
    · simp only [bind_eq_ok, pure_eq_ok] at hcheck
      obtain ⟨_, -, _, hversion, -⟩ := hcheck
      exact ⟨hvalid hagent, hvalid hversion, fun rest size staging h => by cases h⟩
    · simp at hcheck

/-- What a step of one call does to the invariant. -/
theorem Host.Inv.perform {s : Host} {i : Nat} {c : Installing} {e : Installing.Effect} (h : s.Inv storable)
    (hgrown : Grown s.versions (installed s.versions c.key e.install))
    (hknows : e.call.Knows storable (installed s.versions c.key e.install))
    (hnamed : e.call.Named) (htouched : ∀ p ∈ e.touched, ∀ x ∈ p, Plain x)
    (hstored : ∀ tree, e.install = some tree → ∀ p ∈ tree.files, storable p = true) :
    (s.perform i c.key e).Inv storable := by
  have hversions : (s.perform i c.key e).versions = installed s.versions c.key e.install := rfl
  refine ⟨?_, ?_, ?_, ?_⟩
  · intro c' hc'
    rw [hversions]
    rcases List.mem_or_eq_of_mem_set hc' with hmem | rfl
    · exact (h.knows c' hmem).mono hgrown
    · exact hknows
  · intro c' hc'
    rcases List.mem_or_eq_of_mem_set hc' with hmem | rfl
    · exact h.named c' hmem
    · exact hnamed
  · intro p hp
    rcases List.mem_append.mp hp with hp | hp
    · exact h.plain p hp
    · exact htouched p hp
  · intro key tree htree
    rw [hversions] at htree
    cases hinstall : e.install with
    | none =>
      rw [hinstall] at htree
      exact h.stored key tree htree
    | some tree' =>
      rw [hinstall] at htree
      rcases Dict.lookup_insert_cases htree with ⟨-, rfl⟩ | ⟨-, hold⟩
      · exact hstored _ hinstall
      · exact h.stored key tree hold

theorem Host.Inv.step {s t : Host} {ev : InstallEvent} (h : s.Inv storable)
    (hstep : s.step storable ev = some t) : t.Inv storable ∧ Grown s.versions t.versions := by
  cases ev with
  | call agentId bundle =>
    obtain rfl := Option.some.inj hstep
    obtain ⟨hknows, hnamed⟩ := @begin_fine storable s.versions agentId bundle
    refine ⟨⟨?_, ?_, h.plain, h.stored⟩, fun _ _ hkey => hkey⟩
    · intro c hc
      rcases List.mem_append.mp hc with hc | hc
      · exact h.knows c hc
      · exact List.mem_singleton.mp hc ▸ hknows
    · intro c hc
      rcases List.mem_append.mp hc with hc | hc
      · exact h.named c hc
      · exact List.mem_singleton.mp hc ▸ hnamed
  | step i suffix =>
    simp only [Host.step, Option.bind_eq_bind, Option.bind_eq_some_iff, Option.pure_def,
      Option.some.injEq] at hstep
    obtain ⟨c, hc, e, he, rfl⟩ := hstep
    have hmem : c ∈ s.calls := List.mem_of_getElem? hc
    obtain ⟨hgrown, hknows⟩ := Installing.advance_knows (h.knows c hmem) he
    obtain ⟨hnamed, htouched⟩ := Installing.advance_touched (h.named c hmem) he
    refine ⟨h.perform hgrown hknows hnamed htouched fun tree htree => ?_, hgrown⟩
    have hphase := Installing.advance_install he htree
    have hstaged := h.knows c hmem
    rw [Installing.Knows, hphase] at hstaged
    exact storable_of_stage hstaged.1
  | fault i =>
    simp only [Host.step, Option.bind_eq_bind, Option.bind_eq_some_iff, Option.pure_def,
      Option.some.injEq] at hstep
    obtain ⟨c, hc, e, he, rfl⟩ := hstep
    have hmem : c ∈ s.calls := List.mem_of_getElem? hc
    obtain ⟨hinstall, hknows⟩ := @Installing.fault_knows storable s.versions c e he
    have hgrown : Grown s.versions (installed s.versions c.key e.install) := by
      rw [hinstall]
      exact fun _ _ hkey => hkey
    have hquiet : e.call.Named ∧ e.touched = [] := by
      unfold Installing.fault at he
      split at he
      · cases he
      · cases he
      · next hphase _ =>
        obtain rfl := Option.some.inj he
        refine ⟨?_, rfl⟩
        rcases h.named c hmem with ⟨e', he'⟩ | ⟨hagent, hversion, -⟩
        · exact absurd he' (hphase e')
        · exact .inr ⟨hagent, hversion, nofun⟩
    refine ⟨h.perform hgrown (by rw [hinstall]; exact hknows) hquiet.1 ?_ ?_, hgrown⟩
    · rw [hquiet.2]
      simp
    · simp [hinstall]

/-- **A version that is installed stays what it is**, whatever calls run and fail. -/
theorem Host.run_keeps {s t : Host} {es : List InstallEvent} (h : s.Inv storable)
    (hrun : (installer storable).run s es = some t) : Grown s.versions t.versions := by
  induction es generalizing s with
  | nil =>
    obtain rfl : s = t := by simpa using hrun
    exact fun _ _ hkey => hkey
  | cons e es ih =>
    obtain ⟨u, hstep, hrest⟩ := (installer storable).run_cons_inv hrun
    obtain ⟨hu, hgrown⟩ := h.step hstep
    exact fun key tree hkey => ih hu hrest key tree (hgrown key tree hkey)

/-! ## What racing installations guarantee -/

/-- What a directory of versions promises, in any state that calls can bring about. -/
structure Host.Immutable (storable : Path → Bool) (s : Host) : Prop where
  /-- An installed version never changes again. -/
  kept : ∀ es t, (installer storable).run s es = some t → Grown s.versions t.versions
  /-- A call that succeeded finds its own decoded file map installed, of at most 100 MiB. -/
  success : ∀ c ∈ s.calls, c.phase = .over (.ok ()) →
    ∃ tree ps, s.versions.lookup (c.version, c.agentId) = some tree ∧ decoded c.files = some ps ∧
      totalSize ps ≤ bundleLimit ∧ tree.files.same (fileMap ps) = true
  /-- An installed version is confirmed by the bundles that would install it, and by no others. -/
  accepted : ∀ key tree, s.versions.lookup key = some tree → ∀ files,
    confirm files tree = .ok () ↔
      ∃ u, staged storable files none = .ok u ∧ tree.files.same u.files = true
  /-- Whichever way a call took: when its files do not get in each other's way and no operation of
  the file system failed, its outcome is that of the comparison with what is installed. -/
  outcome : ∀ c ∈ s.calls, ∀ result, c.phase = .over result → c.faulted = false →
    Compatible storable c.files → ∀ tree,
      s.versions.lookup (c.version, c.agentId) = none ∨
        s.versions.lookup (c.version, c.agentId) = some tree →
      result = confirm c.files tree
  /-- No path leads out of the root. -/
  inside : ∀ p ∈ s.touched, ∀ x ∈ p, Plain x

theorem Host.Inv.immutable {s : Host} (h : s.Inv storable) : s.Immutable storable where
  kept _ _ hrun := Host.run_keeps h hrun
  success c hc hover := by
    have hknows := h.knows c hc
    rw [Installing.Knows, hover] at hknows
    obtain ⟨tree, htree, hconfirm⟩ := hknows.1 rfl
    simp only [confirm, bind_eq_ok, compare, refuse_eq_ok, Bool.not_eq_false'] at hconfirm
    obtain ⟨d, hd, _, -, hsame⟩ := hconfirm
    obtain ⟨ps, hps, htotal, rfl⟩ := propose_eq_ok.mp hd
    exact ⟨tree, ps, htree, hps, htotal, hsame⟩
  accepted key tree htree files := confirm_eq_ok_iff (h.stored key tree htree)
  outcome c hc result hover hfaulted hcompatible tree htree := by
    have hknows := h.knows c hc
    rw [Installing.Knows, hover] at hknows
    exact hknows.2 hfaulted hcompatible tree htree
  inside := h.plain

/-- The results of the calls that are over. -/
def Host.results (s : Host) : List (Checked Unit) :=
  s.calls.filterMap fun c => match c.phase with
    | .over result => some result
    | _ => none

/-- An empty `agent.cfg`, and a file `a` beside a file `a/b`. -/
def nestedBundle : Bundle :=
  ⟨.object [("agent.cfg", .string ""), ("a", .string ""), ("a/b", .string "")], "2"⟩

/-- The first call installs the version, the second one wrote its files meanwhile, the third one finds
the version there. -/
def nestedRun : List InstallEvent :=
  [.call "agent" ⟨.object [("agent.cfg", .string "")], "2"⟩, .call "agent" nestedBundle,
    .step 1 "x", .step 0 "y", .step 0 "", .step 0 "", .step 0 "", .step 0 "", .step 1 "", .step 1 "",
    .step 1 "", .call "agent" nestedBundle, .step 2 "z", .step 2 ""]

end OpencodeCloud.Sandbox
