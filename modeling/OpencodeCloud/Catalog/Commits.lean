/-
# OpencodeCloud.Catalog.Commits -- an import is committed once

`Transfers.commit` as the transaction it is: the rows it reads and writes, the blobs it writes on the
way, and the statements that can raise. The document it works on is a copy, the files are on the disk
already when a later selection is refused, and the two updates come last; what is raised anywhere rolls
the rows back and leaves the files. In between come other edits of the catalog and other previews, which
delete the previews that have expired.

`committed_once`: a commit that raises changes no row; one that returns either stores its response with
the next revision, or returns the response that is stored; and after the first kind no commit of the same
preview changes a row or returns anything else.
-/
import OpencodeCloud.Catalog.Service
import OpencodeCloud.Library.Checks

namespace OpencodeCloud.Catalog.Commits

open OpencodeCloud.Library

/-! ## §A The tables -/

/-- What a call returns or raises. -/
abbrev Outcome (α : Type) := Library.Checked α

/-- What a commit answers. -/
structure Response where
  /-- kind and id -/
  imported : List (String × String)
  assignedAgents : List String
  published : Bool
  agentTemplates : List String
  deriving Repr, DecidableEq

/-- The stored document of a preview. -/
structure Preview where
  revision : Nat
  items : List ImportEntry
  templates : List AgentTemplate

/-- A row of `resource_imports`. -/
structure Row where
  expires : Int
  document : Preview
  result : Option (List Selection × Response)

/-- The two tables. -/
structure Rows where
  catalog : Store
  imports : Dict String Row

/-- The database, and the blobs next to it. -/
structure Disk where
  rows : Rows
  blobs : List String

/-! ## §B One commit -/

inductive Statement where
  | begin
  | selectImport
  | selectCatalog
  /-- `remap_template` -/
  | remap
  | updateCatalog
  | updateResult
  | commit
  deriving Repr, DecidableEq

/-- A call of `commit`: its arguments, the clock, the ids from `uuid4`, and what raises. -/
structure Attempt where
  id : String
  selections : List Selection
  now : Int
  ids : List String
  raises : Statement → Bool
  /-- the contents that cannot be decoded or written -/
  unwritable : String → Bool

def kindOf : EntryContent → String
  | .model _ => "model"
  | .resource data _ =>
    match data.kind with
    | .skill => "skill"
    | .mcp => "mcp"
    | .hook => "hook"

/-- `by_key.get(selection["key"])`. -/
def entryOf (items : List ImportEntry) (s : Selection) : Option ImportEntry :=
  items.reverse.find? (·.key == s.key)

/-- The contents that a selection writes as blobs. -/
def contents (items : List ImportEntry) (s : Selection) : List String :=
  match entryOf items s with
  | some ⟨_, _, _, .resource _ files, _⟩ => files.entries.map (·.2)
  | _ => []

/-- `{"kind": entry["kind"], "id": target}`. -/
def reported (items : List ImportEntry) (s : Selection) : String × String :=
  (((entryOf items s).map fun e => kindOf e.content).getD "", s.targetId)

namespace Attempt

variable (a : Attempt)

/-- A statement that may raise. -/
def execute (s : Statement) : Outcome Unit := if a.raises s then .error .other else .ok ()

/-- `store.blob` of one content after the other. -/
def write : List String → List String → Outcome Unit × List String
  | [], blobs => (.ok (), blobs)
  | content :: rest, blobs =>
    if a.unwritable content then (.error .other, blobs)
    else write rest (if blobs.contains content then blobs else content :: blobs)

/-- The loop over the selections, with the blobs it writes. -/
def loop (host : Host) (items : List ImportEntry) : List (Bool × String) → List Selection →
    Document → List (String × String) → List String →
      Outcome (Document × List (String × String)) × List String
  | _, [], data, result, blobs => (.ok (data, result), blobs)
  | seen, s :: ss, data, result, blobs =>
    match commitSelection host items seen s data with
    | .error f => (Checked.raise f.status f.detail, blobs)
    | .ok next =>
      match a.write (contents items s) blobs with
      | (.error e, blobs) => (.error e, blobs)
      | (.ok _, blobs) =>
        loop host items (s.identity items :: seen) ss next (result ++ [reported items s]) blobs

/-- What is read of the preview before anything else. -/
def find (rows : Rows) : Outcome Row := do
  a.execute .begin
  a.execute .selectImport
  match rows.imports.lookup a.id with
  | none => Checked.raise 409 "Import preview expired; select the source again"
  | some row =>
    Checked.refuse (decide (row.expires < a.now)) 409
      "Import preview expired; select the source again"
    return row

/-- The response of an earlier commit. -/
def earlier (row : Row) : Outcome (Option Response) :=
  match row.result with
  | none => .ok none
  | some (previous, response) => do
    Checked.refuse (previous != a.selections) 409
      "This preview was already committed with different selections"
    return some response

/-- The checks before the loop. -/
def check (rows : Rows) (row : Row) : Outcome Unit := do
  a.execute .selectCatalog
  Checked.refuse (rows.catalog.revision != row.document.revision) 409
    "Resource catalog changed; preview again before importing"
  Checked.refuse a.selections.isEmpty 400 "Select at least one resource"

/-- The two updates, and the end of the transaction. -/
def update (row : Row) (data : Document) (response : Response) (rows : Rows) :
    Outcome Response × Rows :=
  match a.execute .updateCatalog with
  | .error e => (.error e, rows)
  | .ok _ =>
    let rows := { rows with catalog := ⟨rows.catalog.revision + 1, data⟩ }
    match a.execute .updateResult with
    | .error e => (.error e, rows)
    | .ok _ =>
      let rows := { rows with
        imports := rows.imports.insert a.id { row with result := some (a.selections, response) } }
      match a.execute .commit with
      | .error e => (.error e, rows)
      | .ok _ => (.ok response, rows)

/-- A first commit of the preview. -/
def importFirst (host : Host) (row : Row) (d : Disk) : Outcome Response × Disk :=
  match a.check d.rows row with
  | .error e => (.error e, d)
  | .ok _ =>
    match a.loop host row.document.items [] a.selections d.rows.catalog.data [] d.blobs with
    | (.error e, blobs) => (.error e, { d with blobs := blobs })
    | (.ok (data, imported), blobs) =>
      match a.execute .remap with
      | .error e => (.error e, { d with blobs := blobs })
      | .ok _ =>
        let data := addTemplates row.document.items a.selections (a.ids.zip row.document.templates) data
        let written := a.update row data ⟨imported, [], false, a.ids⟩ d.rows
        (written.1, ⟨written.2, blobs⟩)

/-- The body of the transaction. -/
def body (host : Host) (d : Disk) : Outcome Response × Disk :=
  match a.find d.rows with
  | .error e => (.error e, d)
  | .ok row =>
    match a.earlier row with
    | .error e => (.error e, d)
    | .ok (some response) =>
      match a.execute .commit with
      | .error e => (.error e, d)
      | .ok _ => (.ok response, d)
    | .ok none => a.importFirst host row d

/-- `with store.connect() as db`: what is raised rolls the rows back, the files stay. -/
def commit (host : Host) (d : Disk) : Outcome Response × Disk :=
  match a.body host d with
  | (.ok response, d') => (.ok response, d')
  | (.error e, d') => (.error e, { d' with rows := d.rows })

end Attempt

/-! ## §C All calls -/

/-- The disk, and as history every preview id that `uuid4` has given. -/
structure State where
  disk : Disk
  given : List String

inductive Event where
  /-- `preview`: what the upload holds, the revision it read, and the two readings of the clock -/
  | preview (id : String) (document : Preview) (now later : Int)
  /-- an edit of the catalog by anything else -/
  | edit (data : Document)
  | commit (a : Attempt)

def State.initial (catalog : Store) (blobs : List String) : State := ⟨⟨⟨catalog, ∅⟩, blobs⟩, []⟩

def State.step (host : Host) (s : State) : Event → Option State
  | .preview id document now later =>
    if id ∈ s.given ∨ s.disk.rows.catalog.revision < document.revision then none
    else some {
      disk := { s.disk with rows := { s.disk.rows with
        imports := (s.disk.rows.imports.filter fun _ row => decide (now ≤ row.expires)).insert id
          ⟨later + 900, document, none⟩ } }
      given := id :: s.given }
  | .edit data => some { s with disk := { s.disk with rows := { s.disk.rows with
      catalog := ⟨s.disk.rows.catalog.revision + 1, data⟩ } } }
  | .commit a =>
    -- one id for each template
    if (s.disk.rows.imports.lookup a.id).all fun row =>
        a.ids.length == row.document.templates.length then
      some { s with disk := (a.commit host s.disk).2 }
    else none

/-- The tables under all calls. -/
def importing (host : Host) : Machine State Event := ⟨State.step host⟩

/-! ## §D What a commit does -/

section Commit

variable {host : Host} {a : Attempt} {d : Disk}

/-- What was selected, as the answer has it. -/
def Attempt.answer (a : Attempt) (document : Preview) : Response :=
  ⟨a.selections.map (reported document.items), [], false, a.ids⟩

/-- The row with its response. -/
def Attempt.stored (a : Attempt) (row : Row) : Row :=
  { row with result := some (a.selections, a.answer row.document) }

/-- A preview as the catalog service keeps it. -/
def Row.toImport (row : Row) : Import :=
  ⟨row.document.revision, row.document.items, row.document.templates, row.result.map (·.1)⟩

/-- What a commit returns and leaves behind. -/
inductive Ends (host : Host) (a : Attempt) (d : Disk) : Outcome Response → Disk → Prop
  | raises {e : Library.Exception} {blobs : List String} :
      Ends host a d (.error e) ⟨d.rows, blobs⟩
  | again {row : Row} {response : Response} (hrow : d.rows.imports.lookup a.id = some row)
      (hnow : a.now ≤ row.expires) (hresult : row.result = some (a.selections, response)) :
      Ends host a d (.ok response) d
  | first {row : Row} {data : Document} {blobs : List String}
      (hrow : d.rows.imports.lookup a.id = some row) (hnow : a.now ≤ row.expires)
      (hresult : row.result = none) (hrevision : d.rows.catalog.revision = row.document.revision)
      (hdata : commitImport host row.toImport a.selections a.ids d.rows.catalog.data = .ok data) :
      Ends host a d (.ok (a.answer row.document))
        ⟨⟨⟨d.rows.catalog.revision + 1, data⟩, d.rows.imports.insert a.id (a.stored row)⟩, blobs⟩

/-- A loop that comes to its end computes the document of the catalog service. -/
theorem loop_ok {items : List ImportEntry} {seen : List (Bool × String)} {ss : List Selection}
    {data data' : Document} {result result' : List (String × String)} {blobs blobs' : List String}
    (h : a.loop host items seen ss data result blobs = (.ok (data', result'), blobs')) :
    commitLoop host items seen ss data = .ok data' ∧ result' = result ++ ss.map (reported items) := by
  induction ss generalizing seen data result blobs with
  | nil =>
    simp only [Attempt.loop, Prod.mk.injEq, Except.ok.injEq] at h
    obtain ⟨⟨rfl, rfl⟩, -⟩ := h
    exact ⟨rfl, by simp⟩
  | cons s ss ih =>
    simp only [Attempt.loop] at h
    split at h
    · cases h
    · next next hnext =>
      split at h
      · cases h
      · obtain ⟨hloop, hresult⟩ := ih h
        refine ⟨?_, by simp [hresult]⟩
        simp only [commitLoop, bind_eq_ok]
        exact ⟨next, hnext, hloop⟩

theorem execute_ok {s : Statement} {u : Unit} : a.execute s = .ok u ↔ a.raises s = false := by
  unfold Attempt.execute
  cases a.raises s <;> simp

/-- The preview is there and has not expired. -/
theorem find_ok {rows : Rows} {row : Row} : a.find rows = .ok row ↔
    a.raises .begin = false ∧ a.raises .selectImport = false ∧
      rows.imports.lookup a.id = some row ∧ a.now ≤ row.expires := by
  simp only [Attempt.find, Checked.bind_eq_ok, execute_ok]
  cases rows.imports.lookup a.id with
  | none => simp
  | some row' =>
    simp only [Checked.bind_eq_ok, Checked.refuse_eq_ok, decide_eq_false_iff_not, Int.not_lt,
      Checked.pure_eq_ok, Option.some.injEq]
    constructor
    · rintro ⟨_, hbegin, _, hselect, _, hnow, rfl⟩
      exact ⟨hbegin, hselect, rfl, hnow⟩
    · rintro ⟨hbegin, hselect, rfl, hnow⟩
      exact ⟨(), hbegin, (), hselect, (), hnow, rfl⟩

theorem importFirst_commits {row : Row} (hrow : d.rows.imports.lookup a.id = some row)
    (hnow : a.now ≤ row.expires) (hresult : row.result = none) :
    (∃ e, (a.importFirst host row d).1 = .error e) ∨
      Ends host a d (a.importFirst host row d).1 (a.importFirst host row d).2 := by
  unfold Attempt.importFirst
  split
  · exact .inl ⟨_, rfl⟩
  · next hcheck =>
    simp only [Attempt.check, Checked.bind_eq_ok, Checked.refuse_eq_ok, bne_eq_false_iff_eq] at hcheck
    obtain ⟨_, _, _, hrevision, hempty⟩ := hcheck
    split
    · exact .inl ⟨_, rfl⟩
    · next data imported blobs hloop =>
      obtain ⟨hdata, himported⟩ := loop_ok hloop
      rw [List.nil_append] at himported
      split
      · exact .inl ⟨_, rfl⟩
      · simp only [Attempt.update]
        split
        · exact .inl ⟨_, rfl⟩
        · split
          · exact .inl ⟨_, rfl⟩
          · split
            · exact .inl ⟨_, rfl⟩
            · right
              rw [himported]
              refine .first hrow hnow hresult hrevision ?_
              simp only [commitImport, bind_eq_ok, refuse_eq_ok]
              exact ⟨(), hempty, data, hdata, rfl⟩

/-- **The inversion of a commit.** -/
theorem commits_of_commit : Ends host a d (a.commit host d).1 (a.commit host d).2 := by
  have hbody : (∃ e, (a.body host d).1 = .error e) ∨
      Ends host a d (a.body host d).1 (a.body host d).2 := by
    unfold Attempt.body
    split
    · exact .inl ⟨_, rfl⟩
    · next row hfind =>
      obtain ⟨-, -, hrow, hnow⟩ := find_ok.mp hfind
      unfold Attempt.earlier
      cases hresult : row.result with
      | none => exact importFirst_commits hrow hnow hresult
      | some stored =>
        obtain ⟨previous, response⟩ := stored
        by_cases hsame : previous = a.selections
        · subst hsame
          simp only [bne_self_eq_false, Checked.refuse, Bool.false_eq_true, if_false, Bind.bind,
            Except.bind, pure, Except.pure]
          split
          · exact .inl ⟨_, rfl⟩
          · exact .inr (.again hrow hnow hresult)
        · left
          simp [hsame, Checked.refuse, Checked.raise, Bind.bind, Except.bind]
  rcases hbody with ⟨e, he⟩ | hbody
  · unfold Attempt.commit
    split
    · next hok => simp [hok] at he
    · exact .raises
  · unfold Attempt.commit
    split
    · next hok =>
      rw [hok] at hbody
      exact hbody
    · exact .raises

/-- Nothing raises. -/
def Attempt.Undisturbed (a : Attempt) : Prop := ∀ s, a.raises s = false

/-- The stored response is returned as long as the preview is there. -/
theorem commit_again {row : Row} {response : Response} (hquiet : a.Undisturbed)
    (hrow : d.rows.imports.lookup a.id = some row) (hnow : a.now ≤ row.expires)
    (hresult : row.result = some (a.selections, response)) : (a.commit host d).1 = .ok response := by
  have hbody : a.body host d = (.ok response, d) := by
    have hfind := find_ok.mpr ⟨hquiet .begin, hquiet .selectImport, hrow, hnow⟩
    have hcommit : a.execute .commit = .ok () := execute_ok.mpr (hquiet .commit)
    simp only [Attempt.body, hfind, Attempt.earlier, hresult, bne_self_eq_false, Checked.refuse,
      Bool.false_eq_true, if_false, Bind.bind, Except.bind, pure, Except.pure, hcommit]
  simp only [Attempt.commit, hbody]

end Commit


/-! ## §E What stays -/

section Later

variable {host : Host} {s t : State} {e : Event} {id : String} {row : Row}

/-- Every preview there is has an id that was given. -/
def Given (s : State) : Prop := ∀ id, s.disk.rows.imports.lookup id ≠ none → id ∈ s.given

/-- The id was given, and its preview is the committed one, or deleted. -/
def Settled (id : String) (row : Row) (s : State) : Prop :=
  id ∈ s.given ∧ (s.disk.rows.imports.lookup id = some row ∨ s.disk.rows.imports.lookup id = none)

theorem preview_step {document : Preview} {now later : Int}
    (h : s.step host (.preview id document now later) = some t) : id ∉ s.given ∧
      t.given = id :: s.given ∧
      t.disk.rows.imports = (s.disk.rows.imports.filter fun _ row => decide (now ≤ row.expires)).insert
        id ⟨later + 900, document, none⟩ := by
  simp only [State.step] at h
  split at h
  · cases h
  · next hnew =>
    obtain rfl := Option.some.inj h
    exact ⟨fun hmem => hnew (.inl hmem), rfl, rfl⟩

theorem commit_step {a : Attempt} (h : s.step host (.commit a) = some t) :
    t = { s with disk := (a.commit host s.disk).2 } := by
  simp only [State.step] at h
  split at h
  · exact (Option.some.inj h).symm
  · cases h

/-- What a commit does to the row of a preview. -/
theorem commit_lookup {a : Attempt} {d : Disk} (id : String) :
    (a.commit host d).2.rows.imports.lookup id = d.rows.imports.lookup id ∨
      ∃ row, a.id = id ∧ d.rows.imports.lookup id = some row ∧ row.result = none := by
  have hends := @commits_of_commit host a d
  generalize (a.commit host d).1 = x at hends
  generalize (a.commit host d).2 = d' at hends ⊢
  cases hends with
  | raises => exact .inl rfl
  | again => exact .inl rfl
  | @first row data blobs hrow hnow hresult =>
    by_cases hid : id = a.id
    · exact .inr ⟨row, hid.symm, hid ▸ hrow, hresult⟩
    · exact .inl (AList.lookup_insert_ne hid)

theorem given_step (hs : Given s) (hstep : s.step host e = some t) : Given t := by
  intro id hid
  cases e with
  | preview new document now later =>
    obtain ⟨-, hgiven, himports⟩ := preview_step hstep
    rw [hgiven]
    rw [himports] at hid
    by_cases hnew : id = new
    · exact hnew ▸ List.mem_cons_self
    · refine List.mem_cons_of_mem _ (hs id fun hnone => hid ?_)
      rw [AList.lookup_insert_ne hnew]
      by_contra hsome
      obtain ⟨row, hrow⟩ := Option.ne_none_iff_exists'.mp hsome
      rw [(Dict.lookup_filter.mp hrow).1] at hnone
      cases hnone
  | edit data =>
    obtain rfl := Option.some.inj hstep
    exact hs id hid
  | commit a =>
    obtain rfl := commit_step hstep
    refine hs id ?_
    rcases @commit_lookup host a s.disk id with hsame | ⟨row, -, hrow, -⟩
    · rw [← hsame]
      exact hid
    · rw [hrow]
      nofun

/-- **A committed preview** stays as it is until it is deleted, and never comes back. -/
theorem settled_step (hresult : row.result ≠ none) (hs : Settled id row s)
    (hstep : s.step host e = some t) : Settled id row t := by
  obtain ⟨hmem, hrow⟩ := hs
  cases e with
  | preview new document now later =>
    obtain ⟨hnew, hgiven, himports⟩ := preview_step hstep
    have hne : id ≠ new := fun h => hnew (h ▸ hmem)
    refine ⟨hgiven ▸ List.mem_cons_of_mem _ hmem, ?_⟩
    rw [himports, AList.lookup_insert_ne hne]
    cases hfilter : (s.disk.rows.imports.filter fun _ row => decide (now ≤ row.expires)).lookup id with
    | none => exact .inr rfl
    | some row' =>
      have hold := (Dict.lookup_filter.mp hfilter).1
      rcases hrow with hrow | hrow
      · exact .inl (hold.symm.trans hrow)
      · rw [hrow] at hold
        cases hold
  | edit data =>
    obtain rfl := Option.some.inj hstep
    exact ⟨hmem, hrow⟩
  | commit a =>
    obtain rfl := commit_step hstep
    refine ⟨hmem, ?_⟩
    rcases @commit_lookup host a s.disk id with hsame | ⟨row', -, hrow', hnone⟩
    · rw [hsame]
      exact hrow
    · rcases hrow with hrow | hrow
      · obtain rfl := Option.some.inj (hrow.symm.trans hrow')
        exact absurd hnone hresult
      · rw [hrow] at hrow'
        cases hrow'

/-- Until a preview reads the clock after its expiry it is not deleted. -/
theorem kept_run (hresult : row.result ≠ none) {es : List Event}
    (hearly : ∀ new document now later, .preview new document now later ∈ es → now ≤ row.expires)
    (hs : id ∈ s.given ∧ s.disk.rows.imports.lookup id = some row)
    (hrun : (importing host).run s es = some t) : t.disk.rows.imports.lookup id = some row := by
  induction es generalizing s with
  | nil =>
    obtain rfl : s = t := by simpa using hrun
    exact hs.2
  | cons e es ih =>
    obtain ⟨u, hstep, hrest⟩ := (importing host).run_cons_inv hrun
    change s.step host e = some u at hstep
    have hu : Settled id row u := settled_step hresult ⟨hs.1, .inl hs.2⟩ hstep
    refine ih (fun new document now later h => hearly new document now later (List.mem_cons_of_mem _ h))
      ⟨hu.1, ?_⟩ hrest
    cases e with
    | preview new document now later =>
      obtain ⟨hnew, -, himports⟩ := preview_step hstep
      have hne : id ≠ new := fun h => hnew (h ▸ hs.1)
      rw [himports, AList.lookup_insert_ne hne, Dict.lookup_filter]
      exact ⟨hs.2, decide_eq_true (hearly new document now later List.mem_cons_self)⟩
    | edit data =>
      obtain rfl := Option.some.inj hstep
      exact hs.2
    | commit a =>
      obtain rfl := commit_step hstep
      rcases @commit_lookup host a s.disk id with hsame | ⟨row', -, hrow', hnone⟩
      · rw [hsame]
        exact hs.2
      · obtain rfl := Option.some.inj (hs.2.symm.trans hrow')
        exact absurd hnone hresult

/-- A commit of a preview that is committed, or deleted, changes nothing. -/
theorem settled_commit {a b : Attempt} {response : Response} (hid : b.id = id)
    (hresult : row.result = some (a.selections, response)) (hs : Settled id row s) :
    (b.commit host s.disk).2.rows = s.disk.rows ∧
      ∀ other, (b.commit host s.disk).1 = .ok other →
        b.selections = a.selections ∧ other = response := by
  have hends := @commits_of_commit host b s.disk
  generalize (b.commit host s.disk).1 = x at hends ⊢
  generalize (b.commit host s.disk).2 = d' at hends ⊢
  have hsame : ∀ row', s.disk.rows.imports.lookup b.id = some row' → row' = row := by
    intro row' hrow'
    rw [hid] at hrow'
    rcases hs.2 with hrow | hrow
    · exact Option.some.inj (hrow'.symm.trans hrow)
    · rw [hrow] at hrow'
      cases hrow'
  cases hends with
  | raises => exact ⟨rfl, nofun⟩
  | again hrow hnow hresult' =>
    obtain rfl := hsame _ hrow
    rw [hresult] at hresult'
    obtain ⟨hselections, hresponse⟩ := Prod.mk.inj (Option.some.inj hresult')
    refine ⟨rfl, fun other hother => ⟨hselections.symm, ?_⟩⟩
    rw [← Except.ok.inj hother, hresponse]
  | first hrow hnow hresult' =>
    obtain rfl := hsame _ hrow
    rw [hresult] at hresult'
    cases hresult'

end Later

/-- **An import is committed once.** In every state of every run, with any edits and previews in between,
any clock and any statement or file that fails: a commit that raises leaves the catalog and every preview
as they were. One that returns finds its preview unexpired, and either returns the response that an
earlier commit with the same selections stored, and changes no row; or it is the first one, finds the
catalog at the revision of the preview, and writes the next revision together with its response. After
that no commit of the preview changes a row, each one with other selections raises, each one that returns
returns that response, and each one before the preview expires does return, unless a statement of it
fails. -/
theorem committed_once {host : Host} {catalog : Store} {blobs : List String} {es : List Event}
    {s : State} (hrun : (importing host).run (State.initial catalog blobs) es = some s)
    (a : Attempt) :
    (∀ e, (a.commit host s.disk).1 = .error e → (a.commit host s.disk).2.rows = s.disk.rows) ∧
    ∀ response, (a.commit host s.disk).1 = .ok response →
      ∃ row, s.disk.rows.imports.lookup a.id = some row ∧ a.now ≤ row.expires ∧
        (row.result = some (a.selections, response) ∧
            (a.commit host s.disk).2.rows = s.disk.rows ∨
          row.result = none ∧ s.disk.rows.catalog.revision = row.document.revision ∧
            (∃ data, (a.commit host s.disk).2.rows = ⟨⟨s.disk.rows.catalog.revision + 1, data⟩,
              s.disk.rows.imports.insert a.id
                { row with result := some (a.selections, response) }⟩) ∧
            ∀ (fs : List Event) (t : State), (importing host).run s (.commit a :: fs) = some t →
              ∀ b : Attempt, b.id = a.id →
                (b.commit host t.disk).2.rows = t.disk.rows ∧
                (b.selections ≠ a.selections → ∃ e, (b.commit host t.disk).1 = .error e) ∧
                (∀ other, (b.commit host t.disk).1 = .ok other → other = response) ∧
                (b.selections = a.selections → b.Undisturbed → b.now ≤ row.expires →
                  (∀ new document now later, .preview new document now later ∈ fs →
                    now ≤ row.expires) → (b.commit host t.disk).1 = .ok response)) := by
  have hgiven : Given s := (importing host).run_always (fun _ _ _ h hstep => given_step h hstep)
    (by intro id h; exact absurd (AList.lookup_empty id) h) hrun
  have hends := @commits_of_commit host a s.disk
  generalize hx : (a.commit host s.disk).1 = x at hends ⊢
  generalize hd : (a.commit host s.disk).2 = d at hends ⊢
  cases hends with
  | raises => exact ⟨fun _ _ => rfl, nofun⟩
  | again hrow hnow hresult =>
    refine ⟨nofun, fun other hother => ?_⟩
    obtain rfl := Except.ok.inj hother
    exact ⟨_, hrow, hnow, .inl ⟨hresult, rfl⟩⟩
  | @first row data blobs' hrow hnow hresult hrevision hdata =>
    refine ⟨nofun, fun other hother => ?_⟩
    obtain rfl := Except.ok.inj hother
    refine ⟨row, hrow, hnow, .inr ⟨hresult, hrevision, ⟨data, rfl⟩, fun fs t hfs b hb => ?_⟩⟩
    obtain ⟨u, hstep, hrest⟩ := (importing host).run_cons_inv hfs
    obtain rfl := commit_step hstep
    have hmem : a.id ∈ s.given := hgiven a.id (by rw [hrow]; nofun)
    have hnow' : (a.commit host s.disk).2.rows.imports.lookup a.id = some (a.stored row) := by
      rw [hd]
      exact AList.lookup_insert _
    have hstored : (a.stored row).result ≠ none := nofun
    have hafter : Settled a.id (a.stored row) { s with disk := (a.commit host s.disk).2 } :=
      ⟨hmem, .inl hnow'⟩
    have ht : Settled a.id (a.stored row) t := (importing host).run_always
      (fun _ _ _ h hstep => settled_step hstored h hstep) hafter hrest
    obtain ⟨hrows, hsame⟩ := @settled_commit host _ _ _ a b _ hb rfl ht
    refine ⟨hrows, fun hne => ?_, fun other hok => (hsame other hok).2,
      fun hselections hquiet htime hearly => ?_⟩
    · cases hcommit : (b.commit host t.disk).1 with
      | error e => exact ⟨e, rfl⟩
      | ok other => exact absurd (hsame other hcommit).1 hne
    · have hkept := @kept_run host { s with disk := (a.commit host s.disk).2 } t a.id (a.stored row) hstored fs hearly
        ⟨hmem, hnow'⟩ hrest
      refine @commit_again host b t.disk (a.stored row) _ hquiet (hb.symm ▸ hkept) htime ?_
      rw [hselections]
      rfl


/-! ## §F The same in the catalog service -/

/-- The tables as the catalog service has them. -/
def Rows.toService (rows : Rows) : Service := ⟨rows.catalog, rows.imports.mapValues Row.toImport⟩

/-- **A commit that returns is one of the service**, with the same catalog and the same previews. -/
theorem commit_refines {host : Host} {a : Attempt} {d : Disk} {response : Response}
    (h : (a.commit host d).1 = .ok response) :
    ∃ t, d.rows.toService.commitPreview host a.id a.selections a.ids = .ok t ∧
      t.store = (a.commit host d).2.rows.catalog ∧
      ∀ id, t.imports.lookup id = (a.commit host d).2.rows.toService.imports.lookup id := by
  have hends := @commits_of_commit host a d
  rw [h] at hends
  generalize (a.commit host d).2 = d' at hends ⊢
  have hlookup : ∀ {row : Row}, d.rows.imports.lookup a.id = some row →
      d.rows.toService.imports.lookup a.id = some row.toImport := by
    intro row hrow
    rw [Rows.toService, Dict.lookup_mapValues, hrow]
    rfl
  cases hends with
  | again hrow hnow hresult =>
    refine ⟨d.rows.toService, ?_, rfl, fun id => rfl⟩
    simp [Service.commitPreview, hlookup hrow, Row.toImport, hresult, refuse, Bind.bind, Except.bind,
      pure, Except.pure]
  | @first row data blobs hrow hnow hresult hrevision hdata =>
    refine ⟨⟨⟨d.rows.catalog.revision + 1, data⟩,
      d.rows.toService.imports.insert a.id { row.toImport with committed := some a.selections }⟩,
      ?_, rfl, fun id => ?_⟩
    · have hrev : (row.document.revision != d.rows.catalog.revision) = false := by simp [hrevision]
      have hcommitted : row.toImport.committed = none := by simp [Row.toImport, hresult]
      simp only [Service.commitPreview, hlookup hrow, hcommitted, bind_eq_ok, refuse_eq_ok]
      exact ⟨(), hrev, data, hdata, rfl⟩
    · by_cases hid : id = a.id
      · subst hid
        simp [Rows.toService, Dict.lookup_mapValues, Row.toImport, Attempt.stored]
      · simp only [Rows.toService, Dict.lookup_mapValues, AList.lookup_insert_ne hid]

/-! ## §G An example -/

def sampleHost : Host := ⟨∅, "http://gateway", "image", 900, 1, 512, 256, fun _ => true, fun _ => true⟩

def sampleCatalog : Store := ⟨7, ⟨∅, ∅, ∅, [], none, ∅, ∅, ∅⟩⟩

/-- A skill and its file. -/
def sampleUpload : Preview :=
  ⟨7, [⟨"0", "notes", "notes", .resource (.skill "notes" "d") ((∅ : Dict String String).insert "SKILL.md" "n"),
    false⟩], []⟩

def sampleAttempt (now : Int) : Attempt :=
  ⟨"imp_1", [⟨"0", "notes", false⟩], now, [], fun _ => false, fun _ => false⟩

/-- A preview, a commit, and an edit that changes nothing. -/
def sampleRun : List Event :=
  [.preview "imp_1" sampleUpload 0 0, .commit (sampleAttempt 10), .edit sampleCatalog.data]

def sampleResponse : Response := ⟨[("skill", "notes")], [], false, []⟩

/-- Another commit with the same selections returns the same, and changes nothing. -/
theorem sampleRun_commits_once : ∃ s t,
    (importing sampleHost).run (State.initial sampleCatalog []) (sampleRun.take 1) = some s ∧
    (importing sampleHost).run s (sampleRun.drop 1) = some t ∧
    ((sampleAttempt 10).commit sampleHost s.disk).1 = .ok sampleResponse ∧
    ((sampleAttempt 20).commit sampleHost t.disk).1 = .ok sampleResponse ∧
    ((sampleAttempt 20).commit sampleHost t.disk).2.rows = t.disk.rows := by
  have hfirst : ((importing sampleHost).run (State.initial sampleCatalog []) (sampleRun.take 1)).map
      (fun s => (((sampleAttempt 10).commit sampleHost s.disk).1.toOption,
        (s.disk.rows.imports.lookup "imp_1").map fun row => (row.expires, row.result.isNone))) =
      some (some sampleResponse, some (900, true)) := by decide +kernel
  have hall : ((importing sampleHost).run (State.initial sampleCatalog []) sampleRun).isSome = true := by
    decide +kernel
  obtain ⟨t, ht⟩ := Option.isSome_iff_exists.mp hall
  rw [← List.take_append_drop 1 sampleRun] at ht
  obtain ⟨s, hs, hrest⟩ := (importing sampleHost).run_append ht
  rw [hs, Option.map_some, Option.some.injEq, Prod.mk.injEq] at hfirst
  obtain ⟨hresponse, hrow⟩ := hfirst
  have hok : ((sampleAttempt 10).commit sampleHost s.disk).1 = .ok sampleResponse := by
    cases hx : ((sampleAttempt 10).commit sampleHost s.disk).1 with
    | error e => simp [hx, Except.toOption] at hresponse
    | ok r =>
      rw [hx] at hresponse
      rw [Option.some.inj hresponse]
  obtain ⟨row, hlookup, -, hcases⟩ := (committed_once hs (sampleAttempt 10)).2 sampleResponse hok
  obtain ⟨row', hlookup', hexpires⟩ := Option.map_eq_some_iff.mp hrow
  obtain rfl : row = row' := Option.some.inj (hlookup.symm.trans hlookup')
  obtain ⟨hexpires, hnone⟩ := Prod.mk.inj hexpires
  rcases hcases with ⟨hresult, -⟩ | ⟨-, -, -, hlater⟩
  · simp [hresult] at hnone
  · obtain ⟨hrows, -, -, hagain⟩ := hlater _ t hrest (sampleAttempt 20) rfl
    refine ⟨s, t, hs, hrest, hok, hagain rfl (fun _ => rfl) ?_ ?_, hrows⟩
    · rw [hexpires]
      decide
    · intro new document now later hmem
      simp at hmem

/-- After fifteen minutes the same commit is refused. -/
theorem expired_commit_raises : ∃ s t e,
    (importing sampleHost).run (State.initial sampleCatalog []) (sampleRun.take 1) = some s ∧
    ((sampleAttempt 10).commit sampleHost s.disk).1 = .ok sampleResponse ∧
    (importing sampleHost).run s [.commit (sampleAttempt 10)] = some t ∧
    ((sampleAttempt 901).commit sampleHost t.disk).1 = .error e := by
  refine ⟨_, _, _, rfl, ?_, rfl, rfl⟩
  rfl


end OpencodeCloud.Catalog.Commits
