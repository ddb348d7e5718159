/-
# OpencodeCloud.Catalog.Artifacts -- the directories of an agent that is deleted

The deletion of an agent removes the compiled directories of its versions inside the transaction that takes
the agent out of the catalog. The transaction can still be rolled back, the removals cannot: by the check of a
later version's path, by an error of the file system, or by the commit. So an agent that is still recorded
afterwards has its artifacts exactly if the request went through, or stopped before it removed one of their
files (`deletion_keeps_artifacts`).
-/
import OpencodeCloud.Catalog.References
import OpencodeCloud.Library.FileTree

namespace OpencodeCloud.Catalog.Artifacts

open OpencodeCloud.Library

/-! ## §A The directories -/

/-- The artifact directories below `compiled`, with their files. -/
abbrev Disk := Dict Path Files

/-- What the file system says of the paths; nothing in a deletion changes it. -/
structure Layout where
  compiled : Path
  /-- `version["path"]` -/
  path : String → Nat → Path
  isSymlink : Path → Bool
  /-- `path.resolve().is_relative_to(compiled)` -/
  resolvesInside : Path → Bool

/-- One removal of `shutil.rmtree`. -/
inductive Op where
  | file (p : Path) (name : String)
  | directory (p : Path)
  deriving DecidableEq

def Op.apply (d : Disk) : Op → Disk
  | .file p name => d.modify p fun files => files.erase name
  | .directory p => d.erase p

def applyAll (d : Disk) (ops : List Op) : Disk := ops.foldl Op.apply d

/-- `shutil.rmtree(path)`, of a path that exists. -/
def rmtree (d : Disk) (p : Path) : List Op :=
  match d.lookup p with
  | some files => files.keys.map (Op.file p) ++ [.directory p]
  | none => []

/-- The files that the start of the service looks for. -/
def required : List String := ["agent.cfg", "opencode.json"]

/-- The directory has every file of its version. -/
def Complete (d : Disk) (p : Path) (files : Files) : Prop :=
  ∃ there, d.lookup p = some there ∧ (∀ name c, files.lookup name = some c → there.lookup name = some c) ∧
    ∀ name ∈ required, name ∈ there

/-- The start of the service accepts the directory. -/
def Accepted (d : Disk) (p : Path) : Prop := ∃ there, d.lookup p = some there ∧ ∀ name ∈ required, name ∈ there

theorem Complete.accepted {d : Disk} {p : Path} {files : Files} (h : Complete d p files) : Accepted d p := by
  obtain ⟨there, hthere, _, hrequired⟩ := h
  exact ⟨there, hthere, hrequired⟩

/-! ## §B The request -/

structure State where
  store : Store
  disk : Disk

/-- What the request meets: how many removals go through before the file system fails or the process ends,
and whether the transaction is committed. -/
structure Fate where
  removals : Nat
  commits : Bool

/-- Remove one by one; `none` when one of them fails. -/
def removeAll : List Op → Nat → Disk → Disk × Option Nat
  | [], n, d => (d, some n)
  | _ :: _, 0, d => (d, none)
  | op :: ops, n + 1, d => removeAll ops n (op.apply d)

/-- The loop over the versions. -/
def clear (layout : Layout) (aid : String) : List Path → Nat → Disk → Disk × Result Nat
  | [], n, d => (d, .ok n)
  | p :: ps, n, d =>
    if layout.compiled <+: p then
      if layout.isSymlink p || !layout.resolvesInside p || p.getLast? != some aid then
        (d, fail 409 "Compiled configuration path changed")
      else
        match removeAll (rmtree d p) n d with
        | (d, none) => (d, fail 500 "OSError")
        | (d, some n) => clear layout aid ps n d
    else clear layout aid ps n d

/-- The versions that are recorded for an agent. -/
def State.versions (s : State) (aid : String) : List AgentVersion :=
  ((s.store.data.agents.lookup aid).map (·.versions)).getD []

def State.paths (s : State) (layout : Layout) (aid : String) : List Path :=
  (s.versions aid).map fun v => layout.path aid v.version

/-- `lifecycle(aid, {"action": "delete", ...})`: the guards, the directories, and the commit. -/
def State.delete (s : State) (fingerprint : Agent → Dict String Resource → String) (layout : Layout)
    (aid : String) (requestId expectedFingerprint : Option String) (revision : Option Nat) (fate : Fate) :
    State × Result Unit :=
  match s.store.edit revision fun d => do
      let d' ← lifecycle fingerprint aid .delete requestId expectedFingerprint d
      return (d', ()) with
  | .error e => (s, .error e)
  | .ok (store, _) =>
    match clear layout aid (s.paths layout aid) fate.removals s.disk with
    | (disk, .error e) => ({ s with disk := disk }, .error e)
    | (disk, .ok _) =>
      if fate.commits then (⟨store, disk⟩, .ok ()) else ({ s with disk := disk }, fail 500 "OperationalError")

/-- Every version that is recorded for the agent has its complete directory. -/
def State.Complete (s : State) (layout : Layout) (aid : String) : Prop :=
  ∀ v ∈ s.versions aid, Artifacts.Complete s.disk (layout.path aid v.version) v.files

/-! ## §C What the request plans -/

/-- The removals up to the first path that fails its check, and whether there is none. -/
def plan (layout : Layout) (aid : String) : List Path → Disk → List Op × Bool
  | [], _ => ([], true)
  | p :: ps, d =>
    if layout.compiled <+: p then
      if layout.isSymlink p || !layout.resolvesInside p || p.getLast? != some aid then ([], false)
      else
        let ops := rmtree d p
        let rest := plan layout aid ps (applyAll d ops)
        (ops ++ rest.1, rest.2)
    else plan layout aid ps d

theorem applyAll_append (d : Disk) (a b : List Op) : applyAll d (a ++ b) = applyAll (applyAll d a) b :=
  List.foldl_append

theorem removeAll_eq (ops : List Op) (n : Nat) (d : Disk) :
    removeAll ops n d =
      (applyAll d (ops.take n), if ops.length ≤ n then some (n - ops.length) else none) := by
  induction ops generalizing n d with
  | nil => simp [removeAll, applyAll]
  | cons op ops ih =>
    cases n with
    | zero => simp [removeAll, applyAll]
    | succ n =>
      rw [removeAll, ih]
      simp [applyAll]

/-- The loop carries out the plan as far as the file system lets it. -/
theorem clear_eq (layout : Layout) (aid : String) (ps : List Path) (n : Nat) (d : Disk) :
    (clear layout aid ps n d).1 = applyAll d ((plan layout aid ps d).1.take n) ∧
      ((∃ m, (clear layout aid ps n d).2 = .ok m) ↔
        (plan layout aid ps d).2 = true ∧ (plan layout aid ps d).1.length ≤ n) := by
  induction ps generalizing n d with
  | nil => exact ⟨by simp [clear, plan, applyAll], by simp [clear, plan]⟩
  | cons p ps ih =>
    by_cases hbelow : layout.compiled <+: p
    · by_cases hbad : (layout.isSymlink p || !layout.resolvesInside p || p.getLast? != some aid) = true
      · simp only [clear, plan, hbelow, hbad, if_true]
        exact ⟨by simp [applyAll], by simp [fail]⟩
      · rw [Bool.not_eq_true] at hbad
        simp only [clear, plan, hbelow, hbad, if_true, Bool.false_eq_true, if_false, removeAll_eq]
        by_cases hlen : (rmtree d p).length ≤ n
        · obtain ⟨hdisk, hok⟩ := ih (n - (rmtree d p).length) (applyAll d (rmtree d p))
          simp only [hlen, if_true, List.take_of_length_le hlen, List.take_append, applyAll_append]
          refine ⟨hdisk, hok.trans ?_⟩
          rw [List.length_append]
          refine and_congr_right fun _ => ?_
          omega
        · simp only [hlen, if_false]
          refine ⟨?_, ?_⟩
          · rw [List.take_append_of_le_length (by omega)]
          · simp only [fail, reduceCtorEq, exists_false, List.length_append, false_iff, not_and]
            omega
    · simp only [clear, plan, hbelow, if_false]
      exact ih n d

/-! ## §D What a removal takes away -/

/-- The removal is of the directory of a version, or of one of its files. -/
def Op.touches (p : Path) (files : Files) : Op → Bool
  | .file q name => q == p && ((files.lookup name).isSome || required.contains name)
  | .directory q => q == p

/-- Removals add nothing. -/
theorem Complete.of_apply {d : Disk} {p : Path} {files : Files} {op : Op}
    (h : Complete (op.apply d) p files) : Complete d p files := by
  obtain ⟨there, hthere, hfiles, hrequired⟩ := h
  cases op with
  | file q name =>
    by_cases hq : p = q
    · subst hq
      simp only [Op.apply, Dict.lookup_modify_self, Option.map_eq_some_iff] at hthere
      obtain ⟨before, hbefore, rfl⟩ := hthere
      refine ⟨before, hbefore, fun n c hn => ?_, fun n hn => ?_⟩
      · exact (Dict.lookup_erase_cases (hfiles n c hn)).2
      · exact (AList.mem_erase.mp (hrequired n hn)).2
    · rw [Op.apply, Dict.lookup_modify_ne hq] at hthere
      exact ⟨there, hthere, hfiles, hrequired⟩
  | directory q =>
    exact ⟨there, (Dict.lookup_erase_cases hthere).2, hfiles, hrequired⟩

/-- **One removal** keeps a complete directory exactly if it is not of it. -/
theorem complete_apply {d : Disk} {p : Path} {files : Files} (h : Complete d p files) (op : Op) :
    Complete (op.apply d) p files ↔ op.touches p files = false := by
  obtain ⟨there, hthere, hfiles, hrequired⟩ := h
  cases op with
  | directory q =>
    by_cases hq : p = q
    · subst hq
      simp [Op.apply, Complete, Op.touches]
    · have hne : (q == p) = false := by simpa using Ne.symm hq
      simp only [Op.apply, Op.touches, hne, iff_true]
      exact ⟨there, by rw [AList.lookup_erase_ne hq]; exact hthere, hfiles, hrequired⟩
  | file q name =>
    by_cases hq : p = q
    · subst hq
      simp only [Op.touches, beq_self_eq_true, Bool.true_and, Bool.or_eq_false_iff]
      constructor
      · rintro ⟨left, hleft, hkept, hstays⟩
        simp only [Op.apply, Dict.lookup_modify_self, hthere, Option.map_some, Option.some.injEq] at hleft
        subst hleft
        constructor
        · cases hname : files.lookup name with
          | none => rfl
          | some c =>
            have hgone := hkept name c hname
            rw [AList.lookup_erase] at hgone
            cases hgone
        · rw [← Bool.not_eq_true, List.contains_iff_mem]
          intro hname
          exact (AList.mem_erase.mp (hstays name hname)).1 rfl
      · rintro ⟨hname, hneed⟩
        refine ⟨there.erase name, by simp [Op.apply, hthere], fun n c hn => ?_, fun n hn => ?_⟩
        · have hne : n ≠ name := by
            rintro rfl
            rw [hn] at hname
            cases hname
          rw [AList.lookup_erase_ne hne]
          exact hfiles n c hn
        · refine AList.mem_erase.mpr ⟨?_, hrequired n hn⟩
          rintro rfl
          rw [← Bool.not_eq_true, List.contains_iff_mem] at hneed
          exact hneed hn
    · have hne : (q == p) = false := by simpa using Ne.symm hq
      simp only [Op.touches, hne, Bool.false_and, iff_true]
      exact ⟨there, by rw [Op.apply, Dict.lookup_modify_ne hq]; exact hthere, hfiles, hrequired⟩

/-- What is incomplete stays incomplete. -/
theorem Complete.of_applyAll {d : Disk} {p : Path} {files : Files} {ops : List Op}
    (h : Complete (applyAll d ops) p files) : Complete d p files := by
  induction ops generalizing d with
  | nil => exact h
  | cons op ops ih => exact (ih h).of_apply

/-- **Any number of removals** keep a complete directory exactly if none of them is of it. -/
theorem complete_applyAll {d : Disk} {p : Path} {files : Files} (h : Complete d p files) (ops : List Op) :
    Complete (applyAll d ops) p files ↔ ∀ op ∈ ops, op.touches p files = false := by
  induction ops generalizing d with
  | nil => simpa [applyAll] using h
  | cons op ops ih =>
    rw [List.forall_mem_cons]
    constructor
    · intro hafter
      have hone : Complete (op.apply d) p files := @Complete.of_applyAll (op.apply d) p files ops hafter
      exact ⟨(complete_apply h op).mp hone, (ih hone).mp hafter⟩
    · rintro ⟨hop, hops⟩
      exact (ih ((complete_apply h op).mpr hop)).mpr hops

/-! ## §E The deletion -/

section Deletion

variable {fingerprint : Agent → Dict String Resource → String} {layout : Layout} {aid : String}
  {requestId expectedFingerprint : Option String} {revision : Option Nat} {fate : Fate} {s : State}

/-- The request is refused by its guards. -/
def State.Refused (s : State) (fingerprint : Agent → Dict String Resource → String) (aid : String)
    (requestId expectedFingerprint : Option String) (revision : Option Nat) : Prop :=
  ∃ e, (s.store.edit revision fun d => do
    let d' ← lifecycle fingerprint aid .delete requestId expectedFingerprint d
    return (d', ())) = .error e

/-- Every path passes its check, nothing fails, and the transaction is committed. -/
def State.GoesThrough (s : State) (layout : Layout) (aid : String) (fate : Fate) : Prop :=
  (plan layout aid (s.paths layout aid) s.disk).2 = true ∧
    (plan layout aid (s.paths layout aid) s.disk).1.length ≤ fate.removals ∧ fate.commits = true

/-- The removals that are carried out, unless the request is refused. -/
def State.removed (s : State) (layout : Layout) (aid : String) (fate : Fate) : List Op :=
  (plan layout aid (s.paths layout aid) s.disk).1.take fate.removals

/-- The request is refused, or goes through, or stops before it has removed a file of an artifact. -/
def State.Spared (s : State) (fingerprint : Agent → Dict String Resource → String) (layout : Layout)
    (aid : String) (requestId expectedFingerprint : Option String) (revision : Option Nat) (fate : Fate) :
    Prop :=
  s.Refused fingerprint aid requestId expectedFingerprint revision ∨ s.GoesThrough layout aid fate ∨
    ∀ op ∈ s.removed layout aid fate, ∀ v ∈ s.versions aid,
      op.touches (layout.path aid v.version) v.files = false

/-- A deletion that is committed leaves no agent. -/
theorem lifecycle_delete_agents {d d' : Document}
    (h : lifecycle fingerprint aid .delete requestId expectedFingerprint d = .ok d') :
    d'.agents.lookup aid = none := by
  simp only [lifecycle] at h
  split at h
  · next hnone =>
    split at h
    · obtain rfl := Except.ok.inj h
      exact hnone
    · cases h
  · simp only [bind_eq_ok] at h
    obtain ⟨_, _, _, _, h⟩ := h
    obtain rfl := Except.ok.inj h
    exact AList.lookup_erase _ _

/-- A store that was edited so has no agent any more. -/
theorem edit_agents {x : Store × Unit}
    (h : (s.store.edit revision fun d => do
      let d' ← lifecycle fingerprint aid .delete requestId expectedFingerprint d
      return (d', ())) = .ok x) : x.1.data.agents.lookup aid = none := by
  simp only [Store.edit, bind_eq_ok] at h
  obtain ⟨_, _, ⟨d, _⟩, ⟨d', hbody, hd⟩, hx⟩ := h
  obtain ⟨rfl, -⟩ := Prod.mk.inj (Except.ok.inj hd)
  obtain rfl := Except.ok.inj hx
  exact lifecycle_delete_agents hbody

/-- **What a deletion does**, by the three ways it can go. -/
inductive Deleted (s : State) (fingerprint : Agent → Dict String Resource → String) (layout : Layout)
    (aid : String) (requestId expectedFingerprint : Option String) (revision : Option Nat) (fate : Fate) :
    State → Prop
  | refused (refused : s.Refused fingerprint aid requestId expectedFingerprint revision) :
    Deleted s fingerprint layout aid requestId expectedFingerprint revision fate s
  /-- the agent stays recorded, and what was removed stays removed -/
  | stopped (admitted : ¬s.Refused fingerprint aid requestId expectedFingerprint revision)
      (stops : ¬s.GoesThrough layout aid fate) :
    Deleted s fingerprint layout aid requestId expectedFingerprint revision fate
      { s with disk := applyAll s.disk (s.removed layout aid fate) }
  | gone (s' : State) (through : s.GoesThrough layout aid fate) (none : s'.versions aid = []) :
    Deleted s fingerprint layout aid requestId expectedFingerprint revision fate s'

theorem delete_deleted : Deleted s fingerprint layout aid requestId expectedFingerprint revision fate
    (s.delete fingerprint layout aid requestId expectedFingerprint revision fate).1 := by
  obtain ⟨hdisk, hok⟩ := clear_eq layout aid (s.paths layout aid) fate.removals s.disk
  unfold State.delete
  split
  · next e hedit => exact .refused ⟨e, hedit⟩
  · next store _ hedit =>
    have hnot : ¬s.Refused fingerprint aid requestId expectedFingerprint revision := by
      rintro ⟨e, he⟩
      rw [hedit] at he
      cases he
    split
    · next disk e hclear =>
      -- the path of a version, or the file system
      rw [hclear] at hdisk hok
      obtain rfl : disk = applyAll s.disk (s.removed layout aid fate) := hdisk
      refine .stopped hnot fun hthrough => ?_
      obtain ⟨m, hm⟩ := hok.mpr ⟨hthrough.1, hthrough.2.1⟩
      cases hm
    · next disk m hclear =>
      rw [hclear] at hdisk hok
      split
      · next hcommits =>
        obtain ⟨hpasses, hlength⟩ := hok.mp ⟨m, rfl⟩
        refine .gone _ ⟨hpasses, hlength, hcommits⟩ ?_
        rw [State.versions, edit_agents hedit]
        rfl
      · next hcommits =>
        obtain rfl : disk = applyAll s.disk (s.removed layout aid fate) := hdisk
        exact .stopped hnot fun hthrough => hcommits hthrough.2.2

/-- What is left of the directories when the agent stays recorded. -/
theorem complete_of_disk (h : s.Complete layout aid) (ops : List Op) :
    State.Complete { s with disk := applyAll s.disk ops } layout aid ↔
      ∀ op ∈ ops, ∀ v ∈ s.versions aid, op.touches (layout.path aid v.version) v.files = false := by
  constructor
  · intro hafter op hop v hv
    exact (complete_applyAll (h v hv) ops).mp (hafter v hv) op hop
  · intro hops v hv
    exact (complete_applyAll (h v hv) ops).mpr fun op hop => hops op hop v hv

/-- **An agent that stays recorded keeps its artifacts** exactly if its deletion was refused, or stopped
before it removed a file of them; in these cases the service still starts with them. -/
theorem deletion_keeps_artifacts (h : s.Complete layout aid) :
    ((s.delete fingerprint layout aid requestId expectedFingerprint revision fate).1.Complete layout aid ↔
      s.Spared fingerprint layout aid requestId expectedFingerprint revision fate) ∧
    (s.Spared fingerprint layout aid requestId expectedFingerprint revision fate →
      ∀ v ∈ (s.delete fingerprint layout aid requestId expectedFingerprint revision fate).1.versions aid,
        Accepted (s.delete fingerprint layout aid requestId expectedFingerprint revision fate).1.disk
          (layout.path aid v.version)) := by
  have hdeleted := @delete_deleted fingerprint layout aid requestId expectedFingerprint revision fate s
  generalize (s.delete fingerprint layout aid requestId expectedFingerprint revision fate).1 = s' at *
  have hiff : s'.Complete layout aid ↔
      s.Spared fingerprint layout aid requestId expectedFingerprint revision fate := by
    cases hdeleted with
    | refused hrefused => exact ⟨fun _ => Or.inl hrefused, fun _ => h⟩
    | stopped hnot hstops =>
      rw [complete_of_disk h]
      refine ⟨fun hops => Or.inr (Or.inr hops), fun hspared => ?_⟩
      exact (hspared.resolve_left hnot).resolve_left hstops
    | gone _ hthrough hnone =>
      refine ⟨fun _ => Or.inr (Or.inl hthrough), fun _ v hv => ?_⟩
      rw [hnone] at hv
      cases hv
  exact ⟨hiff, fun hspared v hv => (hiff.mpr hspared v hv).accepted⟩

end Deletion

/-! ### A version whose path has become a link -/

def samplePath (aid : String) (number : Nat) : Path := ["data", "compiled", "u" ++ toString number, aid]

/-- The path of the second version is a symbolic link, if `linked`. -/
def sampleLayout (linked : Bool) : Layout where
  compiled := ["data", "compiled"]
  path := samplePath
  isSymlink p := linked && p == samplePath "a" 2
  resolvesInside _ := true

def sampleFiles : Files :=
  (∅ : Files).insert "agent.cfg" (.text "[agent]") |>.insert "opencode.json" (.text "{}")

def sampleVersion (number : Nat) : AgentVersion := ⟨number, plainAgent "m1" "", sampleFiles⟩

/-- An archived agent with two versions. -/
def sampleState : State where
  store := ⟨5, ⟨∅, ∅, (∅ : Dict String Agent).insert "a"
    ⟨"a", plainAgent "m1" "", [sampleVersion 1, sampleVersion 2], some 2, .archived⟩, [], none, ∅, ∅, ∅⟩⟩
  disk := (∅ : Disk).insert (samplePath "a" 1) sampleFiles |>.insert (samplePath "a" 2) sampleFiles

theorem sampleState_complete (linked : Bool) : sampleState.Complete (sampleLayout linked) "a" := by
  have hfiles : ∀ name ∈ required, name ∈ sampleFiles := by decide
  have hone : sampleState.disk.lookup (samplePath "a" 1) = some sampleFiles := by
    rw [sampleState, AList.lookup_insert_ne (by decide), AList.lookup_insert]
  have htwo : sampleState.disk.lookup (samplePath "a" 2) = some sampleFiles := by
    rw [sampleState, AList.lookup_insert]
  intro v hv
  have hv' : v ∈ [sampleVersion 1, sampleVersion 2] := hv
  rcases List.mem_cons.mp hv' with rfl | hv'
  · exact ⟨sampleFiles, hone, fun _ _ h => h, hfiles⟩
  · rw [List.mem_singleton.mp hv']
    exact ⟨sampleFiles, htwo, fun _ _ h => h, hfiles⟩

def sampleDelete (linked : Bool) (fate : Fate) : State :=
  (sampleState.delete (fun _ _ => "") (sampleLayout linked) "a" (some "request-1") none none fate).1

/-- The file system fails at the first removal. -/
theorem sampleDelete_spared : (sampleDelete false ⟨0, true⟩).Complete (sampleLayout false) "a" := by
  refine (deletion_keeps_artifacts (sampleState_complete false)).1.mpr (Or.inr (Or.inr ?_))
  intro op hop
  rw [State.removed, List.take_zero] at hop
  cases hop

/-- **An agent without its artifacts**: the first version's directory is removed, the check of the second
version's path fails, and the transaction is rolled back. Both versions are recorded, and the service does
not start. -/
theorem rolled_back_deletion : sampleState.Complete (sampleLayout true) "a" ∧
    ((sampleDelete true ⟨100, true⟩).versions "a").map (·.version) = [1, 2] ∧
    ¬Accepted (sampleDelete true ⟨100, true⟩).disk (samplePath "a" 1) := by
  refine ⟨sampleState_complete true, by decide, ?_⟩
  have hgone : (sampleDelete true ⟨100, true⟩).disk.lookup (samplePath "a" 1) = none := by decide
  rintro ⟨there, hthere, _⟩
  rw [hgone] at hthere
  cases hthere

end OpencodeCloud.Catalog.Artifacts
