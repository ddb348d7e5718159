/-
# OpencodeCloud.FileService.Cleanup -- uploads, allocations and cleanups of one file service process

Every request on an Agent's data runs under the lock of the Agent. A cleanup asks the operations service,
and an Agent's cleanup then reads the Agent's files again and compares them with the fingerprint it was
confirmed with; it begins its receipt in the journal, removes, and records the result.

**An Agent's cleanup removes what its fingerprint covers, a `request_id` removes at most once, and a request
that has completed is answered with its result** (`cleanups_keep_to_fingerprint`). A rejected cleanup has
changed nothing as long as no user cleanup comes to a directory under a root that is configured through a
symlink: `remove_user` checks the second root when the receipt is there and the first root is gone
(`cleanup_rejected_after_removal`).
-/
import Mathlib
import OpencodeCloud.Library.Dict
import OpencodeCloud.Library.Json
import OpencodeCloud.Library.Machine

namespace OpencodeCloud.FileService.Cleanup

open OpencodeCloud.Library

/-! ## §A Files, receipts and requests -/

/-- `workspace_root` and `state_root`, in the order of the code. -/
inductive Root where
  | workspace
  | state
  deriving DecidableEq

def roots : List Root := [.workspace, .state]

structure Path where
  root : Root
  agent : String
  user : String
  parts : List String
  deriving DecidableEq

/-- The parts by which `sorted` orders the paths of one root. -/
def Path.key (p : Path) : List String := p.user :: p.parts

/-- What `stat` tells of a regular file. -/
structure Info where
  size : Nat
  mtime : Nat
  deriving DecidableEq

/-- `(str(item), stat.st_size, stat.st_mtime_ns)` -/
structure Entry where
  path : Path
  info : Info
  deriving DecidableEq

/-- The fingerprint of a list of entries stands for its SHA-256 digest. -/
abbrev Fingerprint := List Entry

/-- The body of a cleanup request. `requestId` is absent when it is no string of 1 to 256 characters. -/
structure Body where
  requestId : Option String
  runId : Option String
  expectedFingerprint : Option Fingerprint
  emptyOnly : Bool
  agentId : Option String
  username : Option String
  deriving DecidableEq

/-- `{"agent_id": ..., **body}`: the keys of the body win. -/
structure Payload where
  agentId : String
  username : Option String
  body : Body
  deriving DecidableEq

inductive Request where
  | allocate (agent user : String)
  /-- `dest` is below the user's directory, with the name of the file last -/
  | upload (agent user : String) (dest : List String)
  | cleanupUser (agent user : String) (body : Body)
  | impact (agent : String)
  | cleanupAgent (agent : String) (body : Body)

namespace Request

def agent : Request → String
  | allocate agent _ | upload agent _ _ | cleanupUser agent _ _ | impact agent | cleanupAgent agent _ => agent

/-- The body of a cleanup. -/
def body? : Request → Option Body
  | cleanupUser _ _ body | cleanupAgent _ body => some body
  | _ => none

/-- `payload`, of a cleanup -/
def payload (r : Request) (body : Body) : Payload :=
  match r with
  | cleanupUser agent user _ => ⟨body.agentId.getD agent, some (body.username.getD user), body⟩
  | r => ⟨body.agentId.getD r.agent, body.username, body⟩

/-- What a cleanup removes under a root. -/
def covers (r : Request) (root : Root) (p : Path) : Bool :=
  p.root == root && p.agent == r.agent &&
    match r with
    | cleanupUser _ user _ => p.user == user
    | _ => true

end Request

inductive Result where
  | allocated
  | stored (path : Path) (info : Info)
  | impact (entries : Fingerprint)
  | removed (roots : List Root)
  | removedFiles (count : Nat)
  deriving DecidableEq

inductive Answer where
  | rejected (status : Nat)
  /-- an exception that no handler expects -/
  | failed
  | done (r : Result)
  deriving DecidableEq

/-- A row of `cleanups`. -/
structure Receipt where
  payload : Payload
  result : Option Result

/-- Where the handler of a request stands. -/
inductive Pc where
  /-- for the lock of the Agent -/
  | waiting
  /-- for the answer of the operations service -/
  | asking
  /-- `agent_impact`, in its thread -/
  | listing
  | scanning (seen : List Entry) (todo : List Path)
  | admitted
  /-- the name of the temporary file -/
  | writing (name : String)
  | replaced (info : Info)
  /-- the roots still to be looked at, those that have been removed, and the files of the impact -/
  | clearing (rest removed : List Root) (count : Nat)
  /-- `rmtree`, in its thread -/
  | removing (root : Root) (rest removed : List Root) (count : Nat)
  | answered (a : Answer)
  /-- the process has died -/
  | lost
  deriving DecidableEq

/-- The handler holds the lock. -/
def Pc.inside : Pc → Bool
  | .waiting | .answered _ | .lost => false
  | _ => true

/-- The handler has its receipt and removes. -/
def Pc.clears : Pc → Bool
  | .clearing .. | .removing .. => true
  | _ => false

/-- The handler has not begun its receipt yet. -/
def Pc.early : Pc → Bool
  | .clearing .. | .removing .. | .answered _ | .lost => false
  | _ => true

/-- One request and its handler; `began` and `removed` are history: it has begun its receipt, and what it
has removed. -/
structure Task where
  request : Request
  pc : Pc
  began : Bool
  removed : List Entry

/-! ## §B The service -/

/-- `homes` are the users' directories. -/
structure State where
  files : Dict Path Info
  homes : List Path
  receipts : Dict String Receipt
  locks : Dict String Nat
  tasks : List Task

inductive Event where
  | request (r : Request)
  | enter (i : Nat)
  /-- the operations service allows it, or answers with a status -/
  | verdict (i : Nat) (refusal : Option Nat)
  | list (i : Nat)
  | stat (i : Nat)
  | compare (i : Nat)
  | layout (i : Nat)
  | openTemp (i : Nat) (name : String) (mtime : Nat)
  | write (i size mtime : Nat)
  | replace (i : Nat)
  | acknowledge (i : Nat)
  /-- an upload is refused: too large, over quota, not a regular file -/
  | refuse (i status : Nat)
  | clear (i : Nat)
  | unlink (i : Nat) (p : Path)
  | cleared (i : Nat)
  | finish (i : Nat)
  | breaks (i : Nat)
  | crash

namespace State

def initial (files : Dict Path Info) (homes : List Path) (receipts : Dict String Receipt) : State :=
  ⟨files, homes, receipts, ∅, []⟩

def goto (s : State) (i : Nat) (t : Task) (pc : Pc) : State :=
  { s with tasks := s.tasks.set i { t with pc := pc } }

/-- The handler ends, and the lock is let go. -/
def answer (s : State) (i : Nat) (t : Task) (a : Answer) : State :=
  { s.goto i t (.answered a) with locks := s.locks.erase t.request.agent }

/-- `FileCoordination.replay` -/
def replay (s : State) (requestId : Option String) (payload : Payload) : Except Nat (Option Result) :=
  match requestId with
  | none => .error 422
  | some rid =>
    match s.receipts.lookup rid with
    | none => .ok none
    | some row =>
      if row.payload ≠ payload then .error 409
      else
        match row.result with
        | none => .error 409
        | some r => .ok (some r)

/-- `FileCoordination.begin`, and the handler goes on to remove. -/
def begin (s : State) (i : Nat) (t : Task) (body : Body) (count : Nat) : State :=
  match body.requestId with
  | none => s.answer i t (.rejected 422)
  | some rid =>
    if rid ∈ s.receipts then s.answer i t (.rejected 409)
    else
      { s.goto i { t with began := true } (.clearing roots [] count) with
        receipts := s.receipts.insert rid ⟨t.request.payload body, none⟩ }

/-- `ensure_user_layout` -/
def ensureUserLayout (s : State) (agent user : String) : State :=
  { s with homes := s.homes ++ roots.map fun root => ⟨root, agent, user, []⟩ }

/-- `target.exists()`, or `(base / aid).exists()` -/
def targetExists (s : State) (r : Request) (root : Root) : Bool :=
  s.homes.any (r.covers root) || s.files.keys.any (r.covers root)

/-- `sorted(directory.rglob("*"))`, of the regular files under both roots -/
def agentPaths (s : State) (aid : String) : List Path :=
  roots.flatMap fun root =>
    (s.files.keys.filter fun p => p.root == root && p.agent == aid).mergeSort
      fun p q => decide (p.key ≤ q.key)

/-- After the admission. -/
def admitted (s : State) (i : Nat) (t : Task) : State :=
  match t.request with
  | .allocate agent user => (s.ensureUserLayout agent user).answer i t (.done .allocated)
  | .upload .. => s.goto i t .admitted
  | .cleanupUser _ _ body => s.begin i t body 0
  | .cleanupAgent .. | .impact _ => s.goto i t .listing

/-- What follows `agent_impact`. -/
def compare (s : State) (i : Nat) (t : Task) (seen : List Entry) : Option State :=
  match t.request with
  | .cleanupAgent _ body =>
    if body.expectedFingerprint ≠ some seen then some (s.answer i t (.rejected 409))
    else if body.emptyOnly && !seen.isEmpty then some (s.answer i t (.rejected 409))
    else some (s.begin i t body seen.length)
  | .impact _ => some (s.answer i t (.done (.impact seen)))
  | _ => none

/-- Where an upload goes. -/
def destination (agent user : String) (dest : List String) : Path := ⟨.workspace, agent, user, dest⟩

/-- `.upload-….tmp`, beside the destination -/
def temporary (agent user : String) (dest : List String) (name : String) : Path :=
  ⟨.workspace, agent, user, dest.dropLast ++ [name]⟩

/-- One root of `remove_user`, or of the loop of `cleanup_agent`, to its `rmtree`. -/
def clear (through : Root → Bool) (s : State) (i : Nat) (t : Task) (root : Root) (rest removed : List Root)
    (count : Nat) : State :=
  if s.targetExists t.request root then
    match t.request with
    | .cleanupUser .. =>
      -- `target.resolve() != target.absolute()`
      if through root then s.answer i t (.rejected 409)
      else s.goto i t (.removing root rest removed count)
    | _ => s.goto i t (.removing root rest removed count)
  else s.goto i t (.clearing rest removed count)

/-- The result of a cleanup. -/
def resultOf (r : Request) (removed : List Root) (count : Nat) : Result :=
  match r with
  | .cleanupUser .. => .removed removed
  | _ => .removedFiles count

/-- `FileCoordination.finish`, and the answer. -/
def finish (s : State) (i : Nat) (t : Task) (body : Body) (result : Result) : State :=
  match body.requestId with
  | none => s
  | some rid =>
    { s.answer i t (.done result) with
      receipts := s.receipts.modify rid fun row => { row with result := some result } }

/-- The handler has the lock, and runs to its first await. -/
def enter (s : State) (i : Nat) (t : Task) : State :=
  match t.request.body? with
  | some body =>
    match s.replay body.requestId (t.request.payload body) with
    | .error status => s.answer i t (.rejected status)
    | .ok (some r) => s.answer i t (.done r)
    | .ok none => s.goto i t .asking
  | none =>
    match t.request with
    | .impact _ => s.goto i t .listing
    | _ => s.goto i t .asking

/-- One step of the handler `t`, the `i`-th. `through` tells which roots are configured through a symlink. -/
def act (through : Root → Bool) (s : State) (i : Nat) (t : Task) : Event → Option State
  | .enter _ =>
    match t.pc with
    | .waiting =>
      if t.request.agent ∈ s.locks then none
      else some ({ s with locks := s.locks.insert t.request.agent i }.enter i t)
    | _ => none
  | .verdict _ refusal =>
    match t.pc, refusal with
    | .asking, some status => some (s.answer i t (.rejected status))
    | .asking, none => some (s.admitted i t)
    | _, _ => none
  | .list _ =>
    match t.pc with
    | .listing => some (s.goto i t (.scanning [] (s.agentPaths t.request.agent)))
    | _ => none
  | .stat _ =>
    match t.pc with
    | .scanning seen (p :: todo) =>
      match s.files.lookup p with
      | some info => some (s.goto i t (.scanning (seen ++ [⟨p, info⟩]) todo))
      | none => some (s.goto i t (.scanning seen todo))
    | _ => none
  | .compare _ =>
    match t.pc with
    | .scanning seen [] => s.compare i t seen
    | _ => none
  | .layout _ =>
    match t.pc, t.request with
    | .admitted, .upload agent user _ => some ((s.ensureUserLayout agent user).goto i t .admitted)
    | _, _ => none
  | .openTemp _ name mtime =>
    match t.pc, t.request with
    | .admitted, .upload agent user dest =>
      if temporary agent user dest name ∈ s.files then none
      else some { (s.ensureUserLayout agent user).goto i t (.writing name) with
        files := s.files.insert (temporary agent user dest name) ⟨0, mtime⟩ }
    | _, _ => none
  | .write _ size mtime =>
    match t.pc, t.request with
    | .writing name, .upload agent user dest =>
      some { s.goto i t (.writing name) with
        files := s.files.insert (temporary agent user dest name) ⟨size, mtime⟩ }
    | _, _ => none
  | .replace _ =>
    match t.pc, t.request with
    | .writing name, .upload agent user dest => do
      let info ← s.files.lookup (temporary agent user dest name)
      return { s.goto i t (.replaced info) with
        files := (s.files.erase (temporary agent user dest name)).insert (destination agent user dest) info }
    | _, _ => none
  | .acknowledge _ =>
    match t.pc, t.request with
    | .replaced info, .upload agent user dest =>
      some (s.answer i t (.done (.stored (destination agent user dest) info)))
    | _, _ => none
  | .refuse _ status =>
    match t.pc, t.request with
    | .admitted, .upload .. => some (s.answer i t (.rejected status))
    | .writing name, .upload agent user dest =>
      some { s.answer i t (.rejected status) with
        files := s.files.erase (temporary agent user dest name) }
    | _, _ => none
  | .clear _ =>
    match t.pc with
    | .clearing (root :: rest) removed count => some (s.clear through i t root rest removed count)
    | _ => none
  | .unlink _ p =>
    match t.pc with
    | .removing root _ _ _ => do
      let info ← s.files.lookup p
      if t.request.covers root p then
        some { s.goto i { t with removed := ⟨p, info⟩ :: t.removed } t.pc with files := s.files.erase p }
      else none
    | _ => none
  | .cleared _ =>
    match t.pc with
    | .removing root rest removed count =>
      if s.files.keys.any (t.request.covers root) then none
      else some { s.goto i t (.clearing rest (removed ++ [root]) count) with
        homes := s.homes.filter fun p => !t.request.covers root p }
    | _ => none
  | .finish _ =>
    match t.pc with
    | .clearing [] removed count => do
      let body ← t.request.body?
      return s.finish i t body (resultOf t.request removed count)
    | _ => none
  | .breaks _ =>
    match t.pc, t.request with
    | .writing name, .upload agent user dest =>
      some { s.answer i t .failed with files := s.files.erase (temporary agent user dest name) }
    | pc, _ => if pc.inside then some (s.answer i t .failed) else none
  | .request _ | .crash => none

end State

/-- The handler an event belongs to. -/
def Event.handler : Event → Option Nat
  | .request _ | .crash => none
  | .enter i | .verdict i _ | .list i | .stat i | .compare i | .layout i | .openTemp i _ _ | .write i _ _
  | .replace i | .acknowledge i | .refuse i _ | .clear i | .unlink i _ | .cleared i | .finish i
  | .breaks i => some i

/-- The process dies: its handlers are gone, and so are the locks. -/
def Task.crash (t : Task) : Task :=
  match t.pc with
  | .answered _ => t
  | _ => { t with pc := .lost }

def State.step (through : Root → Bool) (s : State) (e : Event) : Option State :=
  match e with
  | .request r => some { s with tasks := s.tasks ++ [⟨r, .waiting, false, []⟩] }
  | .crash => some { s with tasks := s.tasks.map Task.crash, locks := ∅ }
  | e => do
    let i ← e.handler
    let t ← s.tasks[i]?
    s.act through i t e

/-- The process, and the one that takes its place after a crash. -/
def fileService (through : Root → Bool) : Machine State Event := ⟨State.step through⟩

/-! ## §C What a handler keeps -/

/-- What a scan has seen, and has still to see, are the files of the Agent. -/
structure Scanned (files : Dict Path Info) (aid : String) (seen : List Entry) (todo : List Path) : Prop where
  there : ∀ e ∈ seen, e.path.agent = aid ∧ files.lookup e.path = some e.info
  all : ∀ p info, p.agent = aid → files.lookup p = some info → ⟨p, info⟩ ∈ seen ∨ p ∈ todo
  todo : ∀ p ∈ todo, p.agent = aid

/-- The files that the fingerprint covers are those that the cleanup has removed and those that are still
there, under the roots to come. -/
structure Removes (files : Dict Path Info) (removed : List Entry) (f : Fingerprint) (aid : String)
    (rest : List Root) : Prop where
  covers : ∀ e, e ∈ f ↔ e ∈ removed ∨ e.path.agent = aid ∧ files.lookup e.path = some e.info
  below : ∀ p, p.agent = aid → p ∈ files → p.root ∈ rest

/-- The cleanup of an Agent that was confirmed with the fingerprint. -/
def Task.confirmed (t : Task) (aid : String) (f : Fingerprint) : Prop :=
  ∃ body, t.request = .cleanupAgent aid body ∧ body.expectedFingerprint = some f

/-- The receipt of a cleanup. -/
def Task.receipt (s : State) (t : Task) (result : Option Result) : Prop :=
  ∃ body rid, t.request.body? = some body ∧ body.requestId = some rid ∧
    s.receipts.lookup rid = some ⟨t.request.payload body, result⟩

/-- What holds of the handler `t`, the `i`-th. -/
structure Local (s : State) (i : Nat) (t : Task) : Prop where
  lock : t.pc.inside = true → s.locks.lookup t.request.agent = some i
  scanning : ∀ seen todo, t.pc = .scanning seen todo → Scanned s.files t.request.agent seen todo
  clearing : ∀ rest removed count, t.pc = .clearing rest removed count →
    ∀ aid body, t.request = .cleanupAgent aid body →
      ∃ f, body.expectedFingerprint = some f ∧ Removes s.files t.removed f aid rest
  removing : ∀ root rest removed count, t.pc = .removing root rest removed count →
    ∀ aid body, t.request = .cleanupAgent aid body →
      ∃ f, body.expectedFingerprint = some f ∧ Removes s.files t.removed f aid (root :: rest)
  covered : ∀ aid body, t.request = .cleanupAgent aid body →
    ∀ e ∈ t.removed, ∃ f, body.expectedFingerprint = some f ∧ e ∈ f
  complete : ∀ r, t.pc = .answered (.done r) → t.began = true → ∀ aid body,
    t.request = .cleanupAgent aid body →
      ∃ f, body.expectedFingerprint = some f ∧ ∀ e, e ∈ t.removed ↔ e ∈ f
  untouched : t.began = false → t.removed = []
  begun : t.began = true → ∃ result, t.receipt s result
  running : t.pc.clears = true → t.began = true ∧ t.receipt s none
  before : t.pc.early = true → t.began = false
  recorded : ∀ r, t.pc = .answered (.done r) → t.request.body?.isSome = true → t.receipt s (some r)

/-- The `request_id` of a cleanup. -/
def Task.requestId (t : Task) : Option String := t.request.body?.bind (·.requestId)

/-- What every state keeps. -/
structure Kept (s : State) : Prop where
  handlers : ∀ (i : Nat) (t : Task), s.tasks[i]? = some t → Local s i t
  once : ∀ (i j : Nat) (t u : Task) rid, s.tasks[i]? = some t → s.tasks[j]? = some u → t.requestId = some rid →
    u.requestId = some rid → t.began = true → u.began = true → i = j

/-! ## §D What one handler's step leaves alone -/

/-- What a step of the handler `t` does to the journal. -/
inductive Writes (s s' : State) (t t' : Task) : Prop
  | same (receipts : s'.receipts = s.receipts) (began : t'.began = t.began)
  | begins (body : Body) (rid : String) (hbody : t.request.body? = some body)
      (hrid : body.requestId = some rid) (new : rid ∉ s.receipts)
      (receipts : s'.receipts = s.receipts.insert rid ⟨t.request.payload body, none⟩)
  | finishes (body : Body) (rid : String) (result : Result) (hbody : t.request.body? = some body)
      (hrid : body.requestId = some rid) (clears : t.pc.clears = true)
      (receipts : s'.receipts = s.receipts.modify rid fun row => { row with result := some result })
      (began : t'.began = t.began)

/-- A step of the handler `t`, the `i`-th. -/
structure Effect (s s' : State) (i : Nat) (t t' : Task) : Prop where
  found : s.tasks[i]? = some t
  tasks : s'.tasks = s.tasks.set i t'
  request : t'.request = t.request
  entry : t.pc.inside = true ∨ t.request.agent ∉ s.locks
  locks : ∀ a, a ≠ t.request.agent → s'.locks.lookup a = s.locks.lookup a
  files : ∀ p : Path, p.agent ≠ t.request.agent → s'.files.lookup p = s.files.lookup p
  receipts : Writes s s' t t'

namespace Kept

variable {s s' : State} {i : Nat} {t t' : Task}

/-- Two handlers are never inside for one Agent. -/
theorem apart (h : Kept s) (he : Effect s s' i t t') {j : Nat} {u : Task} (hj : s.tasks[j]? = some u)
    (hne : j ≠ i) (hu : u.pc.inside = true) : u.request.agent ≠ t.request.agent := by
  intro hagent
  have hlock := (h.handlers j u hj).lock hu
  rcases he.entry with hin | hfree
  · have hlock' := (h.handlers i t he.found).lock hin
    rw [hagent, hlock'] at hlock
    exact hne (Option.some.inj hlock).symm
  · rw [hagent] at hlock
    exact hfree (AList.lookup_isSome.mp (by rw [hlock]; rfl))

/-- A receipt stays what it is, when its handler does not finish it. -/
theorem receipt_stays (h : Kept s) (he : Effect s s' i t t') {j : Nat} {u : Task}
    (hj : s.tasks[j]? = some u) (hne : j ≠ i) {result : Option Result} (hr : u.receipt s result)
    (hother : u.began = true ∨ result ≠ none) : u.receipt s' result := by
  obtain ⟨body, rid, hbody, hrid, hrow⟩ := hr
  refine ⟨body, rid, hbody, hrid, ?_⟩
  cases he.receipts with
  | same hs _ => rw [hs]; exact hrow
  | begins _ rid' _ _ hnew hs =>
    rw [hs, AList.lookup_insert_ne]
    · exact hrow
    · rintro rfl
      exact hnew (AList.lookup_isSome.mp (by rw [hrow]; rfl))
  | finishes tbody rid' r htbody htrid hclears hs _ =>
    have hrunning := (h.handlers i t he.found).running hclears
    obtain ⟨tbody', rid'', htbody', htrid', hrow'⟩ := hrunning.2
    obtain rfl := Option.some.inj (htbody.symm.trans htbody')
    obtain rfl := Option.some.inj (htrid.symm.trans htrid')
    rw [hs]
    have hdiff : rid ≠ rid' := by
      rintro rfl
      rcases hother with hbegan | hres
      · refine hne (h.once j i u t rid hj he.found ?_ ?_ hbegan hrunning.1)
        · rw [Task.requestId, hbody]; exact hrid
        · rw [Task.requestId, htbody]; exact htrid
      · rw [hrow] at hrow'
        injection hrow' with hrow'
        injection hrow' with _ hresult
        exact hres hresult
    rw [Dict.lookup_modify_ne hdiff]
    exact hrow

/-- What another handler knows stays true. -/
theorem stays (h : Kept s) (he : Effect s s' i t t') {j : Nat} {u : Task} (hj : s.tasks[j]? = some u)
    (hne : j ≠ i) : Local s' j u := by
  have hu := h.handlers j u hj
  have hfiles : u.pc.inside = true → ∀ p : Path, p.agent = u.request.agent →
      s'.files.lookup p = s.files.lookup p := by
    intro hin p hp
    exact he.files p (hp ▸ h.apart he hj hne hin)
  have hremoves : u.pc.inside = true → ∀ {removed f rest aid}, aid = u.request.agent →
      Removes s.files removed f aid rest → Removes s'.files removed f aid rest := by
    rintro hin removed f rest _ rfl ⟨hcovers, hbelow⟩
    refine ⟨fun e => (hcovers e).trans (or_congr_right (and_congr_right fun he => ?_)), fun p hp hmem => ?_⟩
    · rw [hfiles hin _ he]
    · refine hbelow p hp (AList.lookup_isSome.mp ?_)
      rw [← hfiles hin p hp]
      exact AList.lookup_isSome.mpr hmem
  constructor
  · intro hin
    rw [he.locks _ (h.apart he hj hne hin)]
    exact hu.lock hin
  · intro seen todo hpc
    have hin : u.pc.inside = true := by rw [hpc]; rfl
    have hscan := hu.scanning seen todo hpc
    refine ⟨fun e hmem => ?_, fun p info hp hlook => ?_, hscan.todo⟩
    · have hthere := hscan.there e hmem
      exact ⟨hthere.1, by rw [hfiles hin _ hthere.1]; exact hthere.2⟩
    · exact hscan.all p info hp (by rw [← hfiles hin p hp]; exact hlook)
  · intro rest removed count hpc aid body hreq
    obtain ⟨f, hf, hr⟩ := hu.clearing rest removed count hpc aid body hreq
    exact ⟨f, hf, hremoves (by rw [hpc]; rfl) (by rw [hreq]; rfl) hr⟩
  · intro root rest removed count hpc aid body hreq
    obtain ⟨f, hf, hr⟩ := hu.removing root rest removed count hpc aid body hreq
    exact ⟨f, hf, hremoves (by rw [hpc]; rfl) (by rw [hreq]; rfl) hr⟩
  · exact hu.covered
  · exact hu.complete
  · exact hu.untouched
  · intro hbegan
    obtain ⟨result, hr⟩ := hu.begun hbegan
    exact ⟨result, h.receipt_stays he hj hne hr (.inl hbegan)⟩
  · intro hclears
    have hrunning := hu.running hclears
    exact ⟨hrunning.1, h.receipt_stays he hj hne hrunning.2 (.inl hrunning.1)⟩
  · exact hu.before
  · intro r hpc hbody
    exact h.receipt_stays he hj hne (hu.recorded r hpc hbody) (.inr nofun)

/-- The handler of a step keeps what the others do, when it keeps its own. -/
theorem effect (h : Kept s) (he : Effect s s' i t t') (hlocal : Local s' i t') : Kept s' where
  handlers j u hj := by
    rw [he.tasks] at hj
    by_cases hne : j = i
    · subst hne
      rw [List.getElem?_set_self (List.getElem?_eq_some_iff.mp he.found).1] at hj
      obtain rfl := Option.some.inj hj
      exact hlocal
    · rw [List.getElem?_set_ne (Ne.symm hne)] at hj
      exact h.stays he hj hne
  once j k u v rid hj hk hu hv hbu hbv := by
    rw [he.tasks] at hj hk
    have hlt := (List.getElem?_eq_some_iff.mp he.found).1
    -- a handler that begins its receipt is the first with its identifier
    have hfirst : ∀ (k : Nat) (v : Task), k ≠ i → s.tasks[k]? = some v → t'.requestId = some rid →
        v.requestId = some rid → t'.began = true → v.began = true → False := by
      intro k v hne hk hrid hvrid hbegan hvbegan
      have htrid : t.requestId = some rid := by
        rw [Task.requestId, ← he.request]
        exact hrid
      cases he.receipts with
      | same _ hsame | finishes _ _ _ _ _ _ _ hsame =>
        exact hne (h.once k i v t rid hk he.found hvrid htrid hvbegan (hsame ▸ hbegan))
      | begins body rid' hbody hrid' hnew _ =>
        rw [Task.requestId, hbody] at htrid
        obtain rfl := Option.some.inj (hrid'.symm.trans htrid)
        obtain ⟨result, body', rid'', hbody', hrid'', hrow⟩ := (h.handlers k v hk).begun hvbegan
        rw [Task.requestId, hbody'] at hvrid
        obtain rfl := Option.some.inj (hrid''.symm.trans hvrid)
        exact hnew (AList.lookup_isSome.mp (by rw [hrow]; rfl))
    by_cases hji : j = i
    · subst hji
      rw [List.getElem?_set_self hlt] at hj
      obtain rfl := Option.some.inj hj
      by_cases hki : k = j
      · exact hki.symm
      · rw [List.getElem?_set_ne (Ne.symm hki)] at hk
        exact (hfirst k v hki hk hu hv hbu hbv).elim
    · rw [List.getElem?_set_ne (Ne.symm hji)] at hj
      by_cases hki : k = i
      · subst hki
        rw [List.getElem?_set_self hlt] at hk
        obtain rfl := Option.some.inj hk
        exact (hfirst j u hji hj hv hu hbv hbu).elim
      · rw [List.getElem?_set_ne (Ne.symm hki)] at hk
        exact h.once j k u v rid hj hk hu hv hbu hbv

end Kept

/-! ## §E What a step of a handler does -/

namespace Effect

variable {s s' : State} {i : Nat} {t t' : Task}

theorem goto (found : s.tasks[i]? = some t) (hin : t.pc.inside = true) {removed : List Entry} {pc : Pc} :
    Effect s (s.goto i { t with removed := removed } pc) i t { t with removed := removed, pc := pc } :=
  ⟨found, rfl, rfl, .inl hin, fun _ _ => rfl, fun _ _ => rfl, .same rfl rfl⟩

theorem answer (found : s.tasks[i]? = some t) (hin : t.pc.inside = true) {a : Answer} :
    Effect s (s.answer i t a) i t { t with pc := .answered a } :=
  ⟨found, rfl, rfl, .inl hin, fun _ ha => AList.lookup_erase_ne ha, fun _ _ => rfl, .same rfl rfl⟩

theorem withFiles (he : Effect s s' i t t') {files : Dict Path Info}
    (hfiles : ∀ p : Path, p.agent ≠ t.request.agent → files.lookup p = s.files.lookup p) :
    Effect s { s' with files := files } i t t' :=
  ⟨he.found, he.tasks, he.request, he.entry, he.locks, hfiles, by
    cases he.receipts with
    | same hs hb => exact .same hs hb
    | begins body rid h1 h2 h3 h4 => exact .begins body rid h1 h2 h3 h4
    | finishes body rid r h1 h2 h3 h4 h5 => exact .finishes body rid r h1 h2 h3 h4 h5⟩

theorem withHomes (he : Effect s s' i t t') {homes : List Path} :
    Effect s { s' with homes := homes } i t t' :=
  ⟨he.found, he.tasks, he.request, he.entry, he.locks, he.files, by
    cases he.receipts with
    | same hs hb => exact .same hs hb
    | begins body rid h1 h2 h3 h4 => exact .begins body rid h1 h2 h3 h4
    | finishes body rid r h1 h2 h3 h4 h5 => exact .finishes body rid r h1 h2 h3 h4 h5⟩

end Effect

theorem Pc.clears_eq_false {pc : Pc} (h : pc.early = true) : pc.clears = false := by
  cases pc with
  | clearing | removing => cases h
  | _ => rfl

namespace Local

variable {s s' : State} {i : Nat} {t : Task}

theorem removed_eq_nil (h : Local s i t) (ht : t.pc.early = true) : t.removed = [] :=
  h.untouched (h.before ht)

/-- A handler goes on, before its receipt. -/
theorem onward (h : Local s i t) (ht : t.pc.early = true) {pc : Pc} (hpc : pc.early = true)
    (hlock : s'.locks.lookup t.request.agent = some i)
    (hscan : ∀ seen todo, pc = .scanning seen todo → Scanned s'.files t.request.agent seen todo) :
    Local s' i { t with pc := pc } where
  lock _ := hlock
  scanning := hscan
  clearing rest removed count hc := by
    subst hc
    cases hpc
  removing root rest removed count hc := by
    subst hc
    cases hpc
  covered _ _ _ e he := by
    rw [show t.removed = [] from h.removed_eq_nil ht] at he
    cases he
  complete r hc := by
    subst hc
    cases hpc
  untouched := h.untouched
  begun hb := absurd ((h.before ht).symm.trans hb) nofun
  running hc := absurd hc (by rw [Pc.clears_eq_false hpc]; nofun)
  before _ := h.before ht
  recorded r hc := by
    subst hc
    cases hpc

/-- A handler ends. -/
theorem answered (h : Local s i t) {a : Answer} (hbegun : t.began = true → ∃ result, t.receipt s' result)
    (hcomplete : ∀ r, a = .done r → t.began = true → ∀ aid body, t.request = .cleanupAgent aid body →
      ∃ f, body.expectedFingerprint = some f ∧ ∀ e, e ∈ t.removed ↔ e ∈ f)
    (hrecorded : ∀ r, a = .done r → t.request.body?.isSome = true → t.receipt s' (some r)) :
    Local s' i { t with pc := .answered a } where
  lock hc := by cases hc
  scanning _ _ hc := by cases hc
  clearing _ _ _ hc := by cases hc
  removing _ _ _ _ hc := by cases hc
  covered := h.covered
  complete r hc := hcomplete r (by injection hc)
  untouched := h.untouched
  begun := hbegun
  running hc := by cases hc
  before hc := by cases hc
  recorded r hc := hrecorded r (by injection hc)

theorem rejected (h : Local s i t) (hr : s'.receipts = s.receipts) {a : Answer} (ha : ∀ r, a ≠ .done r) :
    Local s' i { t with pc := .answered a } := by
  refine h.answered (fun hb => ?_) (fun r hdone => absurd hdone (ha r)) (fun r hdone => absurd hdone (ha r))
  obtain ⟨result, body, rid, hbody, hrid, hrow⟩ := h.begun hb
  exact ⟨result, body, rid, hbody, hrid, by rw [hr]; exact hrow⟩

/-- A request that is no cleanup is done. -/
theorem served (h : Local s i t) (hbody : t.request.body? = none) {r : Result} :
    Local s' i { t with pc := .answered (.done r) } := by
  have hnone : t.request.body?.isSome = true → False := by
    intro hsome
    rw [hbody] at hsome
    cases hsome
  refine h.answered (fun hb => ?_) (fun _ _ _ aid body hreq => ?_) fun _ _ hsome => (hnone hsome).elim
  · obtain ⟨_, body, rid, hbody', _⟩ := h.begun hb
    exact (hnone (by rw [hbody']; rfl)).elim
  · exact (hnone (by rw [hreq]; rfl)).elim

/-- A cleanup begins its receipt, and has all its files before it. -/
theorem begins (h : Local s i t) (ht : t.pc.early = true) {body : Body} {rid : String} {count : Nat}
    (hbody : t.request.body? = some body) (hrid : body.requestId = some rid)
    (hlock : s'.locks.lookup t.request.agent = some i)
    (hrow : s'.receipts.lookup rid = some ⟨t.request.payload body, none⟩)
    (hclear : ∀ aid body, t.request = .cleanupAgent aid body →
      ∃ f, body.expectedFingerprint = some f ∧ Removes s'.files [] f aid roots) :
    Local s' i { t with began := true, pc := .clearing roots [] count } where
  lock _ := hlock
  scanning _ _ hc := by cases hc
  clearing rest removed n hc aid body hreq := by
    injection hc with hrest
    subst hrest
    rw [show t.removed = [] from h.removed_eq_nil ht]
    exact hclear aid body hreq
  removing _ _ _ _ hc := by cases hc
  covered _ _ _ e he := by
    rw [show t.removed = [] from h.removed_eq_nil ht] at he
    cases he
  complete _ hc := by cases hc
  untouched hc := by cases hc
  begun _ := ⟨none, body, rid, hbody, hrid, hrow⟩
  running _ := ⟨rfl, body, rid, hbody, hrid, hrow⟩
  before hc := by cases hc
  recorded _ hc := by cases hc

/-- A cleanup goes on. -/
theorem clears (h : Local s i t) (ht : t.pc.clears = true) {removed : List Entry} {pc : Pc}
    (hpc : pc.clears = true) (hlock : s'.locks.lookup t.request.agent = some i)
    (hreceipts : s'.receipts = s.receipts)
    (hcovered : ∀ aid body, t.request = .cleanupAgent aid body →
      ∀ e ∈ removed, ∃ f, body.expectedFingerprint = some f ∧ e ∈ f)
    (hremoves : ∀ aid body, t.request = .cleanupAgent aid body →
      ∃ f, body.expectedFingerprint = some f ∧
        (∀ rest gone count, pc = .clearing rest gone count → Removes s'.files removed f aid rest) ∧
        ∀ root rest gone count, pc = .removing root rest gone count →
          Removes s'.files removed f aid (root :: rest)) :
    Local s' i { t with removed := removed, pc := pc } := by
  have hrunning := h.running ht
  have hreceipt : t.receipt s' none := by
    obtain ⟨body, rid, hbody, hrid, hrow⟩ := hrunning.2
    exact ⟨body, rid, hbody, hrid, by rw [hreceipts]; exact hrow⟩
  refine ⟨fun _ => hlock, ?_, ?_, ?_, hcovered, ?_, ?_, fun _ => ⟨none, hreceipt⟩,
    fun _ => ⟨hrunning.1, hreceipt⟩, ?_, ?_⟩
  · rintro seen todo rfl
    cases hpc
  · intro rest gone count hc aid body hreq
    obtain ⟨f, hf, hclearing, _⟩ := hremoves aid body hreq
    exact ⟨f, hf, hclearing rest gone count hc⟩
  · intro root rest gone count hc aid body hreq
    obtain ⟨f, hf, _, hremoving⟩ := hremoves aid body hreq
    exact ⟨f, hf, hremoving root rest gone count hc⟩
  · rintro r rfl
    cases hpc
  · intro hbegan
    exact absurd (hrunning.1.symm.trans hbegan) nofun
  · intro hearly
    exact absurd hpc (by rw [Pc.clears_eq_false hearly]; nofun)
  · rintro r rfl
    cases hpc

end Local

/-- A user cleanup does not come to a directory under a root that is configured through a symlink. -/
def State.owned (through : Root → Bool) (s : State) : Event → Bool
  | .clear i =>
    (s.tasks[i]?).all fun t =>
      match t.pc, t.request with
      | .clearing (root :: _) _ _, .cleanupUser .. => !(s.targetExists t.request root && through root)
      | _, _ => true
  | _ => true

/-- The files are left alone, or one of them is removed and recorded. -/
def Recorded (s s' : State) (t t' : Task) : Prop :=
  s'.files = s.files ∧ t'.removed = t.removed ∨
    ∃ p info, s.files.lookup p = some info ∧ s'.files = s.files.erase p ∧ t'.removed = ⟨p, info⟩ :: t.removed

/-- What a step of the handler `t`, the `i`-th, comes to. -/
structure Outcome (through : Root → Bool) (s s' : State) (e : Event) (i : Nat) (t t' : Task) : Prop where
  effect : Effect s s' i t t'
  handler : Local s' i t'
  still : t.request.body?.isSome = true → t'.began = false →
    s'.files = s.files ∧ s'.homes = s.homes ∧ s'.receipts = s.receipts
  recorded : t.request.body?.isSome = true → Recorded s s' t t'
  rejected : s.owned through e = true ↔
    (t.request.body?.isSome = true → ∀ status, t'.pc = .answered (.rejected status) → t'.began = false)

theorem mem_agentPaths {s : State} {aid : String} {p : Path} :
    p ∈ s.agentPaths aid ↔ p.agent = aid ∧ p ∈ s.files := by
  simp only [State.agentPaths, List.mem_flatMap, List.mem_mergeSort, List.mem_filter, AList.mem_keys,
    Bool.and_eq_true, beq_iff_eq]
  constructor
  · rintro ⟨root, _, hmem, _, hagent⟩
    exact ⟨hagent, hmem⟩
  · rintro ⟨hagent, hmem⟩
    exact ⟨p.root, by cases p.root <;> simp [roots], hmem, rfl, hagent⟩

theorem Pc.inside_of_clears {pc : Pc} (h : pc.clears = true) : pc.inside = true := by
  cases pc with
  | clearing | removing => rfl
  | _ => cases h

/-- A root has been done with. -/
theorem Removes.shrink {files : Dict Path Info} {removed : List Entry} {f : Fingerprint} {aid : String}
    {root : Root} {rest : List Root} (h : Removes files removed f aid (root :: rest))
    (hgone : ∀ p ∈ files, p.agent = aid → p.root = root → False) : Removes files removed f aid rest := by
  refine ⟨h.covers, fun p hagent hmem => ?_⟩
  rcases List.mem_cons.mp (h.below p hagent hmem) with hroot | hrest
  · exact (hgone p hmem hagent hroot).elim
  · exact hrest

/-- What is replayed is the result of the receipt. -/
theorem replay_receipt {s : State} {t : Task} {body : Body} {r : Result}
    (hbody : t.request.body? = some body)
    (h : s.replay body.requestId (t.request.payload body) = .ok (some r)) : t.receipt s (some r) := by
  unfold State.replay at h
  split at h
  · cases h
  · next rid hrid =>
    split at h
    · cases h
    · next row hrow =>
      split at h
      · cases h
      · next hpayload =>
        split at h
        · cases h
        · next r' hresult =>
          obtain rfl : r' = r := by simpa using h
          refine ⟨body, rid, hbody, hrid, ?_⟩
          rw [hrow, ← not_not.mp hpayload, ← hresult]

namespace Outcome

variable {through : Root → Bool} {s s' : State} {e : Event} {i : Nat} {t t' : Task}

/-- The handler has not begun its receipt. -/
theorem ofEarly (he : Effect s s' i t t') (hl : Local s' i t') (howned : s.owned through e = true)
    (hbegan : t'.began = false) (hremoved : t'.removed = t.removed)
    (hstill : s'.files = s.files ∧ s'.homes = s.homes ∧ s'.receipts = s.receipts) :
    Outcome through s s' e i t t' :=
  ⟨he, hl, fun _ _ => hstill, fun _ => .inl ⟨hstill.1, hremoved⟩, iff_of_true howned fun _ _ _ => hbegan⟩

/-- The handler has begun its receipt, and does not reject. -/
theorem ofBegun (he : Effect s s' i t t') (hl : Local s' i t') (howned : s.owned through e = true)
    (hbegan : t'.began = true) (hpc : ∀ status, t'.pc ≠ .answered (.rejected status))
    (hrecorded : Recorded s s' t t') : Outcome through s s' e i t t' :=
  ⟨he, hl, fun _ hb => absurd (hbegan.symm.trans hb) nofun, fun _ => hrecorded,
    iff_of_true howned fun _ status hc => absurd hc (hpc status)⟩

/-- The request is no cleanup. -/
theorem ofOther (he : Effect s s' i t t') (hl : Local s' i t') (howned : s.owned through e = true)
    (hbody : t.request.body? = none) : Outcome through s s' e i t t' := by
  have hnone : t.request.body?.isSome = true → False := by
    intro hsome
    rw [hbody] at hsome
    cases hsome
  exact ⟨he, hl, fun hsome => (hnone hsome).elim, fun hsome => (hnone hsome).elim,
    iff_of_true howned fun hsome => (hnone hsome).elim⟩

theorem enter (h : Local s i t) (found : s.tasks[i]? = some t) (hpc : t.pc = .waiting)
    (hfree : t.request.agent ∉ s.locks) :
    ∃ t', Outcome through s ({ s with locks := s.locks.insert t.request.agent i }.enter i t) (.enter i) i
      t t' := by
  have hearly : t.pc.early = true := by rw [hpc]; rfl
  have hlocks : ∀ a, a ≠ t.request.agent →
      (s.locks.insert t.request.agent i).lookup a = s.locks.lookup a :=
    fun a ha => AList.lookup_insert_ne ha
  have hgoto : ∀ pc, pc.early = true → (∀ seen todo, pc ≠ .scanning seen todo) →
      ∃ t', Outcome through s ({ s with locks := s.locks.insert t.request.agent i }.goto i t pc) (.enter i)
        i t t' := by
    intro pc hpc' hscan
    refine ⟨{ t with pc := pc }, ofEarly ?_ ?_ rfl (h.before hearly) rfl ⟨rfl, rfl, rfl⟩⟩
    · exact ⟨found, rfl, rfl, .inr hfree, hlocks, fun _ _ => rfl, .same rfl rfl⟩
    · exact h.onward hearly hpc' (AList.lookup_insert _) fun seen todo hc => absurd hc (hscan seen todo)
  have hanswer : ∀ a, Effect s
      ({ s with locks := s.locks.insert t.request.agent i }.answer i t a) i t
      { t with pc := .answered a } := by
    intro a
    refine ⟨found, rfl, rfl, .inr hfree, fun b hb => ?_, fun _ _ => rfl, .same rfl rfl⟩
    exact (AList.lookup_erase_ne hb).trans (hlocks b hb)
  unfold State.enter
  split
  · next body hbody =>
    split
    · next status _ =>
      refine ⟨_, ofEarly (hanswer (.rejected status)) ?_ rfl (h.before hearly) rfl ⟨rfl, rfl, rfl⟩⟩
      exact h.rejected (by rfl) (by nofun)
    · next r hreplay =>
      refine ⟨_, ofEarly (hanswer _) ?_ rfl (h.before hearly) rfl ⟨rfl, rfl, rfl⟩⟩
      have hbegan : t.began = true → False := fun hb => by cases (h.before hearly).symm.trans hb
      refine h.answered (fun hb => (hbegan hb).elim) (fun _ _ hb => (hbegan hb).elim) fun r' hr _ => ?_
      injection hr with hr
      subst hr
      exact @replay_receipt { s with locks := s.locks.insert t.request.agent i } t body _ hbody hreplay
    · exact hgoto .asking rfl fun _ _ hne => by cases hne
  · split
    · exact hgoto .listing rfl fun _ _ hne => by cases hne
    · exact hgoto .asking rfl fun _ _ hne => by cases hne

/-- A request is refused before its receipt. -/
theorem refused (h : Local s i t) (found : s.tasks[i]? = some t) (hearly : t.pc.early = true)
    (hin : t.pc.inside = true) (howned : s.owned through e = true) {status : Nat} :
    ∃ t', Outcome through s (s.answer i t (.rejected status)) e i t t' := by
  refine ⟨{ t with pc := .answered (.rejected status) }, ofEarly (.answer found hin) ?_ howned
    (h.before hearly) rfl ⟨rfl, rfl, rfl⟩⟩
  exact h.rejected (by rfl) (by nofun)

/-- A handler goes on before its receipt. -/
theorem onward (h : Local s i t) (found : s.tasks[i]? = some t) (hearly : t.pc.early = true)
    (hin : t.pc.inside = true) (howned : s.owned through e = true) {pc : Pc} (hpc : pc.early = true)
    (hscan : ∀ seen todo, pc = .scanning seen todo → Scanned s.files t.request.agent seen todo) :
    ∃ t', Outcome through s (s.goto i t pc) e i t t' := by
  refine ⟨{ t with pc := pc }, ofEarly (.goto found hin) ?_ howned (h.before hearly) rfl
    ⟨rfl, rfl, rfl⟩⟩
  exact h.onward hearly hpc (h.lock hin) hscan

theorem begin (h : Local s i t) (found : s.tasks[i]? = some t) (hearly : t.pc.early = true)
    (hin : t.pc.inside = true) (howned : s.owned through e = true) {body : Body} {count : Nat}
    (hbody : t.request.body? = some body)
    (hclear : ∀ aid body, t.request = .cleanupAgent aid body →
      ∃ f, body.expectedFingerprint = some f ∧ Removes s.files [] f aid roots) :
    ∃ t', Outcome through s (s.begin i t body count) e i t t' := by
  unfold State.begin
  split
  · exact refused h found hearly hin howned
  · next rid hrid =>
    split
    · exact refused h found hearly hin howned
    · next hnew =>
      refine ⟨_, ofBegun ⟨found, rfl, rfl, .inl hin, fun _ _ => rfl, fun _ _ => rfl,
        .begins body rid hbody hrid hnew rfl⟩ ?_ howned rfl nofun (.inl ⟨rfl, rfl⟩)⟩
      refine h.begins hearly hbody hrid (h.lock hin) (AList.lookup_insert _) fun aid body' hreq => ?_
      obtain ⟨f, hf, hr⟩ := hclear aid body' hreq
      exact ⟨f, hf, hr.covers, hr.below⟩

theorem admitted (h : Local s i t) (found : s.tasks[i]? = some t) (hpc : t.pc = .asking) :
    ∃ t', Outcome through s (s.admitted i t) (.verdict i none) i t t' := by
  have hearly : t.pc.early = true := by rw [hpc]; rfl
  have hin : t.pc.inside = true := by rw [hpc]; rfl
  unfold State.admitted
  split
  · next agent user hreq =>
    have hbody : t.request.body? = none := by rw [hreq]; rfl
    exact ⟨_, ofOther (Effect.withHomes (.answer found hin)) (h.served hbody) rfl hbody⟩
  · exact onward h found hearly hin rfl rfl fun _ _ hne => by cases hne
  · next agent user body hreq =>
    refine begin h found hearly hin rfl (by rw [hreq]; rfl) fun aid body' hreq' => ?_
    rw [hreq] at hreq'
    cases hreq'
  · exact onward h found hearly hin rfl rfl fun _ _ hne => by cases hne
  · exact onward h found hearly hin rfl rfl fun _ _ hne => by cases hne

theorem list (h : Local s i t) (found : s.tasks[i]? = some t) (hpc : t.pc = .listing) :
    ∃ t', Outcome through s (s.goto i t (.scanning [] (s.agentPaths t.request.agent))) (.list i) i t t' := by
  have hearly : t.pc.early = true := by rw [hpc]; rfl
  have hin : t.pc.inside = true := by rw [hpc]; rfl
  refine onward h found hearly hin rfl rfl fun seen todo hscan => ?_
  injection hscan with hseen htodo
  subst hseen htodo
  refine ⟨nofun, fun p info hp hlook => .inr (mem_agentPaths.mpr ⟨hp, ?_⟩),
    fun p hp => (mem_agentPaths.mp hp).1⟩
  exact AList.lookup_isSome.mp (by rw [hlook]; rfl)

theorem stat (h : Local s i t) (found : s.tasks[i]? = some t) {seen : List Entry} {p : Path}
    {todo : List Path} (hpc : t.pc = .scanning seen (p :: todo)) {seen' : List Entry}
    (hseen : ∀ e ∈ seen', e ∈ seen ∨ e.path = p ∧ s.files.lookup p = some e.info)
    (hall : ∀ e ∈ seen, e ∈ seen') (hp : ∀ info, s.files.lookup p = some info → ⟨p, info⟩ ∈ seen') :
    ∃ t', Outcome through s (s.goto i t (.scanning seen' todo)) (.stat i) i t t' := by
  have hearly : t.pc.early = true := by rw [hpc]; rfl
  have hin : t.pc.inside = true := by rw [hpc]; rfl
  have hscan := h.scanning seen (p :: todo) hpc
  refine onward h found hearly hin rfl rfl fun seen'' todo' hscan' => ?_
  injection hscan' with hs ht
  subst hs ht
  refine ⟨fun e he => ?_, fun q info hq hlook => ?_, fun q hq => hscan.todo q (List.mem_cons_of_mem p hq)⟩
  · rcases hseen e he with hold | ⟨hpath, hlook⟩
    · exact hscan.there e hold
    · rw [hpath]
      exact ⟨hscan.todo p (List.mem_cons_self ..), hlook⟩
  · rcases hscan.all q info hq hlook with hold | htodo
    · exact .inl (hall _ hold)
    · rcases List.mem_cons.mp htodo with rfl | hrest
      · exact .inl (hp info hlook)
      · exact .inr hrest

theorem compare (h : Local s i t) (found : s.tasks[i]? = some t) {seen : List Entry}
    (hpc : t.pc = .scanning seen []) (hstep : s.compare i t seen = some s') :
    ∃ t', Outcome through s s' (.compare i) i t t' := by
  have hearly : t.pc.early = true := by rw [hpc]; rfl
  have hin : t.pc.inside = true := by rw [hpc]; rfl
  unfold State.compare at hstep
  split at hstep
  · next aid body hreq =>
    split at hstep
    · obtain rfl := Option.some.inj hstep
      exact refused h found hearly hin rfl
    · next hexpected =>
      split at hstep
      · obtain rfl := Option.some.inj hstep
        exact refused h found hearly hin rfl
      · obtain rfl := Option.some.inj hstep
        refine begin h found hearly hin rfl (by rw [hreq]; rfl) fun aid' body' hreq' => ?_
        obtain ⟨rfl, rfl⟩ : aid = aid' ∧ body = body' := by simpa [hreq] using hreq'
        have hscan := h.scanning seen [] hpc
        rw [hreq] at hscan
        refine ⟨seen, not_not.mp hexpected, fun e => ⟨fun he => .inr (hscan.there e he), ?_⟩, ?_⟩
        · rintro (hnone | ⟨hagent, hlook⟩)
          · cases hnone
          · exact (hscan.all e.path e.info hagent hlook).resolve_right nofun
        · intro p _ _
          cases p.root <;> simp [roots]
  · next hreq =>
    obtain rfl := Option.some.inj hstep
    have hbody : t.request.body? = none := by rw [hreq]; rfl
    exact ⟨_, ofOther (.answer found hin) (h.served hbody) rfl hbody⟩
  · cases hstep

/-- An upload goes on; it writes below its own directory. -/
theorem uploads (h : Local s i t) (found : s.tasks[i]? = some t) (hearly : t.pc.early = true)
    (hin : t.pc.inside = true) (howned : s.owned through e = true) {agent user : String}
    {dest : List String} (hreq : t.request = .upload agent user dest) {pc : Pc} (hpc : pc.early = true)
    (hscan : ∀ seen todo, pc ≠ .scanning seen todo) {files : Dict Path Info} {homes : List Path}
    (hfiles : ∀ p : Path, p.agent ≠ t.request.agent → files.lookup p = s.files.lookup p) :
    ∃ t', Outcome through s { s.goto i t pc with files := files, homes := homes } e i t t' := by
  refine ⟨{ t with pc := pc }, ofOther (Effect.withFiles (Effect.withHomes (.goto found hin)) hfiles) ?_
    howned (by rw [hreq]; rfl)⟩
  exact h.onward hearly hpc (h.lock hin) fun seen todo hc => absurd hc (hscan seen todo)

/-- An upload ends. -/
theorem uploaded (h : Local s i t) (found : s.tasks[i]? = some t) (hin : t.pc.inside = true)
    (howned : s.owned through e = true) {agent user : String} {dest : List String}
    (hreq : t.request = .upload agent user dest) {a : Answer} {files : Dict Path Info}
    (hfiles : ∀ p : Path, p.agent ≠ t.request.agent → files.lookup p = s.files.lookup p) :
    ∃ t', Outcome through s { s.answer i t a with files := files } e i t t' := by
  have hbody : t.request.body? = none := by rw [hreq]; rfl
  refine ⟨{ t with pc := .answered a }, ofOther (Effect.withFiles (.answer found hin) hfiles) ?_ howned hbody⟩
  cases a with
  | done r => exact h.served hbody
  | rejected _ | failed => exact h.rejected (by rfl) (by nofun)

/-- A cleanup that has its receipt goes on. -/
theorem clears (h : Local s i t) (found : s.tasks[i]? = some t) (ht : t.pc.clears = true)
    (howned : s.owned through e = true) {removed : List Entry} {pc : Pc} (hpc : pc.clears = true)
    {files : Dict Path Info} {homes : List Path}
    (hfiles : ∀ p : Path, p.agent ≠ t.request.agent → files.lookup p = s.files.lookup p)
    (hcovered : ∀ aid body, t.request = .cleanupAgent aid body →
      ∀ e ∈ removed, ∃ f, body.expectedFingerprint = some f ∧ e ∈ f)
    (hremoves : ∀ aid body, t.request = .cleanupAgent aid body →
      ∃ f, body.expectedFingerprint = some f ∧
        (∀ rest gone count, pc = .clearing rest gone count → Removes files removed f aid rest) ∧
        ∀ root rest gone count, pc = .removing root rest gone count →
          Removes files removed f aid (root :: rest))
    (hrecorded : files = s.files ∧ removed = t.removed ∨
      ∃ p info, s.files.lookup p = some info ∧ files = s.files.erase p ∧ removed = ⟨p, info⟩ :: t.removed) :
    ∃ t', Outcome through s
      { s.goto i { t with removed := removed } pc with files := files, homes := homes } e i t t' := by
  have hin : t.pc.inside = true := Pc.inside_of_clears ht
  refine ⟨{ t with removed := removed, pc := pc },
    ofBegun (Effect.withFiles (Effect.withHomes (.goto found hin)) hfiles) ?_ howned (h.running ht).1 ?_
      hrecorded⟩
  · exact h.clears ht hpc (h.lock hin) (by rfl) hcovered hremoves
  · rintro status rfl
    cases hpc

theorem clear (h : Local s i t) (found : s.tasks[i]? = some t) {root : Root} {rest removed : List Root}
    {count : Nat} (hpc : t.pc = .clearing (root :: rest) removed count) :
    ∃ t', Outcome through s (s.clear through i t root rest removed count) (.clear i) i t t' := by
  have hclears : t.pc.clears = true := by rw [hpc]; rfl
  have hgo : s.owned through (.clear i) = true →
      ∃ t', Outcome through s (s.goto i t (.removing root rest removed count)) (.clear i) i t t' := by
    intro howned
    refine clears h found hclears howned rfl (fun _ _ => rfl) h.covered (fun aid body hreq => ?_)
      (.inl ⟨rfl, rfl⟩)
    obtain ⟨f, hf, hr⟩ := h.clearing _ removed count hpc aid body hreq
    refine ⟨f, hf, nofun, fun root' rest' gone n hc => ?_⟩
    injection hc with hroot hrest
    subst hroot hrest
    exact hr
  unfold State.clear
  split
  · next hexists =>
    split
    · next agent user body hreq =>
      split
      · next hthrough =>
        have howned : s.owned through (.clear i) = false := by
          rw [hreq] at hexists
          simp only [State.owned, found, Option.all_some, hpc, hreq, hexists, hthrough, Bool.and_self,
            Bool.not_true]
        refine ⟨{ t with pc := .answered (.rejected 409) }, .answer found (Pc.inside_of_clears hclears),
          h.rejected (by rfl) (by nofun), fun _ hb => ?_, fun _ => .inl ⟨rfl, rfl⟩, ?_⟩
        · exact absurd ((h.running hclears).1.symm.trans hb) nofun
        · refine iff_of_false (by rw [howned]; nofun) fun hall => ?_
          have hb := hall (by rw [hreq]; rfl) 409 rfl
          exact absurd ((h.running hclears).1.symm.trans hb) nofun
      · next hthrough =>
        refine hgo ?_
        simp only [State.owned, found, Option.all_some, hpc, hreq, hthrough, Bool.and_false, Bool.not_false]
    · next hother =>
      refine hgo ?_
      simp only [State.owned, found, Option.all_some, hpc]
      split
      · next hreq => exact (hother _ _ _ hreq).elim
      · rfl
  · next hgone =>
    have howned : s.owned through (.clear i) = true := by
      simp only [State.owned, found, Option.all_some, hpc]
      split
      · next hreq _ =>
        injection hreq with hroots
        injection hroots with hroot
        subst hroot
        rw [Bool.not_eq_true] at hgone
        rw [hgone]
        rfl
      · rfl
    refine clears h found hclears howned rfl (fun _ _ => rfl) h.covered (fun aid body hreq => ?_)
      (.inl ⟨rfl, rfl⟩)
    obtain ⟨f, hf, hr⟩ := h.clearing _ removed count hpc aid body hreq
    refine ⟨f, hf, fun rest' gone n hc => ?_, nofun⟩
    injection hc with hrest
    subst hrest
    refine hr.shrink fun p hp hagent hroot => hgone ?_
    rw [State.targetExists, Bool.or_eq_true]
    refine .inr (List.any_eq_true.mpr ⟨p, AList.mem_keys.mp hp, ?_⟩)
    rw [hreq]
    simp [Request.covers, Request.agent, hagent, hroot]

theorem unlink (h : Local s i t) (found : s.tasks[i]? = some t) {root : Root} {rest gone : List Root}
    {count : Nat} (hpc : t.pc = .removing root rest gone count) {p : Path} {info : Info}
    (hp : s.files.lookup p = some info) (hcovers : t.request.covers root p = true) :
    ∃ t', Outcome through s
      { s.goto i { t with removed := ⟨p, info⟩ :: t.removed } t.pc with files := s.files.erase p }
      (.unlink i p) i t t' := by
  have hclears : t.pc.clears = true := by rw [hpc]; rfl
  have hagent : p.agent = t.request.agent := by
    simp only [Request.covers, Bool.and_eq_true, beq_iff_eq] at hcovers
    exact hcovers.1.2
  refine clears h found hclears rfl hclears (fun q hq => ?_) (fun aid body hreq e he => ?_)
    (fun aid body hreq => ?_) (.inr ⟨p, info, hp, rfl, rfl⟩)
  · refine AList.lookup_erase_ne ?_
    rintro rfl
    exact hq hagent
  · obtain ⟨f, hf, hr⟩ := h.removing root rest gone count hpc aid body hreq
    refine ⟨f, hf, (hr.covers e).mpr ?_⟩
    rcases List.mem_cons.mp he with rfl | hold
    · rw [hreq] at hagent
      exact .inr ⟨hagent, hp⟩
    · exact .inl hold
  · obtain ⟨f, hf, hr⟩ := h.removing root rest gone count hpc aid body hreq
    rw [hreq] at hagent
    refine ⟨f, hf, fun _ _ _ hc => ?_, fun root' rest' gone' n hc => ?_⟩
    · rw [hpc] at hc
      cases hc
    · rw [hpc] at hc
      injection hc with hroot hrest
      subst hroot hrest
      refine ⟨fun e => (hr.covers e).trans ?_, fun q hq hmem => hr.below q hq ?_⟩
      · constructor
        · rintro (hold | ⟨hea, hlook⟩)
          · exact .inl (List.mem_cons_of_mem _ hold)
          · by_cases hsame : e.path = p
            · refine .inl (List.mem_cons.mpr (.inl ?_))
              rw [hsame, hp] at hlook
              obtain ⟨path, einfo⟩ := e
              obtain rfl := Option.some.inj hlook
              obtain rfl : path = p := hsame
              rfl
            · exact .inr ⟨hea, by rw [AList.lookup_erase_ne hsame]; exact hlook⟩
        · rintro (hmem | ⟨hea, hlook⟩)
          · rcases List.mem_cons.mp hmem with rfl | hold
            · exact .inr ⟨hagent, hp⟩
            · exact .inl hold
          · exact .inr ⟨hea, (Dict.lookup_erase_cases hlook).2⟩
      · exact (AList.mem_erase.mp hmem).2

theorem cleared (h : Local s i t) (found : s.tasks[i]? = some t) {root : Root} {rest gone : List Root}
    {count : Nat} (hpc : t.pc = .removing root rest gone count)
    (hnone : ¬s.files.keys.any (t.request.covers root) = true) {homes : List Path} :
    ∃ t', Outcome through s
      { s.goto i t (.clearing rest (gone ++ [root]) count) with homes := homes } (.cleared i) i t t' := by
  have hclears : t.pc.clears = true := by rw [hpc]; rfl
  refine clears h found hclears rfl rfl (fun _ _ => rfl) h.covered (fun aid body hreq => ?_)
    (.inl ⟨rfl, rfl⟩)
  obtain ⟨f, hf, hr⟩ := h.removing root rest gone count hpc aid body hreq
  refine ⟨f, hf, fun rest' gone' n hc => ?_, nofun⟩
  injection hc with hrest
  subst hrest
  refine hr.shrink fun p hp hagent hroot => hnone (List.any_eq_true.mpr ⟨p, AList.mem_keys.mp hp, ?_⟩)
  rw [hreq]
  simp [Request.covers, Request.agent, hagent, hroot]

theorem finish (h : Local s i t) (found : s.tasks[i]? = some t) {gone : List Root} {count : Nat}
    (hpc : t.pc = .clearing [] gone count) {body : Body} (hbody : t.request.body? = some body)
    {result : Result} :
    ∃ t', Outcome through s (s.finish i t body result) (.finish i) i t t' := by
  have hclears : t.pc.clears = true := by rw [hpc]; rfl
  obtain ⟨hbegan, body', rid, hbody', hrid, hrow⟩ := h.running hclears
  obtain rfl := Option.some.inj (hbody.symm.trans hbody')
  have hreceipt : t.receipt (s.finish i t body result) (some result) := by
    refine ⟨body, rid, hbody, hrid, ?_⟩
    simp only [State.finish, hrid, Dict.lookup_modify_self, hrow, Option.map_some]
  refine ⟨{ t with pc := .answered (.done result) }, ofBegun ?_ ?_ rfl hbegan nofun ?_⟩
  · have heffect : Effect s (s.answer i t (.done result)) i t { t with pc := .answered (.done result) } :=
      .answer found (Pc.inside_of_clears hclears)
    simp only [State.finish, hrid]
    exact ⟨heffect.found, heffect.tasks, rfl, heffect.entry, heffect.locks, heffect.files,
      .finishes body rid result hbody hrid hclears rfl rfl⟩
  · refine h.answered (fun _ => ⟨_, hreceipt⟩) (fun r _ _ aid body' hreq => ?_) fun r hr _ => ?_
    · obtain ⟨f, hf, hr⟩ := h.clearing [] gone count hpc aid body' hreq
      refine ⟨f, hf, fun e => ⟨fun he => (hr.covers e).mpr (.inl he), fun he => ?_⟩⟩
      refine ((hr.covers e).mp he).resolve_right fun hthere => ?_
      exact absurd (hr.below e.path hthere.1 (AList.lookup_isSome.mp (by rw [hthere.2]; rfl)))
        List.not_mem_nil
    · injection hr with hr
      exact hr ▸ hreceipt
  · simp only [State.finish, hrid]
    exact .inl ⟨rfl, rfl⟩

/-- A handler fails. -/
theorem fails (h : Local s i t) (found : s.tasks[i]? = some t) (hin : t.pc.inside = true) :
    ∃ t', Outcome through s (s.answer i t .failed) (.breaks i) i t t' :=
  ⟨{ t with pc := .answered .failed }, .answer found hin, h.rejected (by rfl) (by nofun),
    fun _ _ => ⟨rfl, rfl, rfl⟩, fun _ => .inl ⟨rfl, rfl⟩, iff_of_true rfl fun _ _ => nofun⟩

end Outcome

/-- **What a step of a handler comes to.** -/
theorem act_outcome {through : Root → Bool} {s s' : State} {e : Event} {i : Nat} {t : Task}
    (h : Local s i t) (found : s.tasks[i]? = some t) (hi : e.handler = some i)
    (hstep : s.act through i t e = some s') : ∃ t', Outcome through s s' e i t t' := by
  cases e with
  | request r | crash => cases hi
  | enter j =>
    obtain rfl := Option.some.inj hi
    simp only [State.act] at hstep
    split at hstep
    · next hpc =>
      split at hstep
      · cases hstep
      · next hfree =>
        obtain rfl := Option.some.inj hstep
        exact Outcome.enter h found hpc hfree
    · cases hstep
  | verdict j refusal =>
    obtain rfl := Option.some.inj hi
    simp only [State.act] at hstep
    split at hstep
    · next hpc =>
      obtain rfl := Option.some.inj hstep
      exact Outcome.refused h found (by rw [hpc]; rfl) (by rw [hpc]; rfl) rfl
    · next hpc =>
      obtain rfl := Option.some.inj hstep
      exact Outcome.admitted h found hpc
    · cases hstep
  | list j =>
    obtain rfl := Option.some.inj hi
    simp only [State.act] at hstep
    split at hstep
    · next hpc =>
      obtain rfl := Option.some.inj hstep
      exact Outcome.list h found hpc
    · cases hstep
  | stat j =>
    obtain rfl := Option.some.inj hi
    simp only [State.act] at hstep
    split at hstep
    · next seen p todo hpc =>
      split at hstep
      · next info hlook =>
        obtain rfl := Option.some.inj hstep
        refine Outcome.stat h found hpc (fun e he => ?_) (fun e he => List.mem_append_left _ he) fun info' hinfo => ?_
        · rcases List.mem_append.mp he with hold | hnew
          · exact .inl hold
          · rw [List.mem_singleton.mp hnew]
            exact .inr ⟨rfl, hlook⟩
        · obtain rfl := Option.some.inj (hlook.symm.trans hinfo)
          exact List.mem_append_right _ (List.mem_singleton_self _)
      · next hlook =>
        obtain rfl := Option.some.inj hstep
        refine Outcome.stat h found hpc (fun e he => .inl he) (fun e he => he) fun info hinfo => ?_
        exact absurd (hlook.symm.trans hinfo) nofun
    · cases hstep
  | compare j =>
    obtain rfl := Option.some.inj hi
    simp only [State.act] at hstep
    split at hstep
    · next hpc => exact Outcome.compare h found hpc hstep
    · cases hstep
  | layout j =>
    obtain rfl := Option.some.inj hi
    simp only [State.act] at hstep
    split at hstep
    · next agent user dest hpc hreq =>
      obtain rfl := Option.some.inj hstep
      exact Outcome.uploads h found (by rw [hpc]; rfl) (by rw [hpc]; rfl) rfl hreq rfl (by nofun) fun _ _ => rfl
    · cases hstep
  | openTemp j name mtime =>
    obtain rfl := Option.some.inj hi
    simp only [State.act] at hstep
    split at hstep
    · next agent user dest hpc hreq =>
      split at hstep
      · cases hstep
      · obtain rfl := Option.some.inj hstep
        refine Outcome.uploads h found (by rw [hpc]; rfl) (by rw [hpc]; rfl) rfl hreq rfl (by nofun)
          fun p hp => AList.lookup_insert_ne ?_
        rw [hreq] at hp
        rintro rfl
        exact hp rfl
    · cases hstep
  | write j size mtime =>
    obtain rfl := Option.some.inj hi
    simp only [State.act] at hstep
    split at hstep
    · next name agent user dest hpc hreq =>
      obtain rfl := Option.some.inj hstep
      refine Outcome.uploads h found (by rw [hpc]; rfl) (by rw [hpc]; rfl) rfl hreq rfl (by nofun)
        fun p hp => AList.lookup_insert_ne ?_
      rw [hreq] at hp
      rintro rfl
      exact hp rfl
    · cases hstep
  | replace j =>
    obtain rfl := Option.some.inj hi
    simp only [State.act] at hstep
    split at hstep
    · next name agent user dest hpc hreq =>
      obtain ⟨info, _, hstep⟩ := Option.bind_eq_some_iff.mp hstep
      obtain rfl := Option.some.inj hstep
      refine Outcome.uploads h found (by rw [hpc]; rfl) (by rw [hpc]; rfl) rfl hreq rfl (by nofun) fun p hp => ?_
      rw [hreq] at hp
      rw [AList.lookup_insert_ne (by rintro rfl; exact hp rfl)]
      exact AList.lookup_erase_ne (by rintro rfl; exact hp rfl)
    · cases hstep
  | acknowledge j =>
    obtain rfl := Option.some.inj hi
    simp only [State.act] at hstep
    split at hstep
    · next info agent user dest hpc hreq =>
      obtain rfl := Option.some.inj hstep
      exact Outcome.uploaded h found (by rw [hpc]; rfl) rfl hreq fun _ _ => rfl
    · cases hstep
  | refuse j status =>
    obtain rfl := Option.some.inj hi
    simp only [State.act] at hstep
    split at hstep
    · next agent user dest hpc hreq =>
      obtain rfl := Option.some.inj hstep
      exact Outcome.uploaded h found (by rw [hpc]; rfl) rfl hreq fun _ _ => rfl
    · next name agent user dest hpc hreq =>
      obtain rfl := Option.some.inj hstep
      refine Outcome.uploaded h found (by rw [hpc]; rfl) rfl hreq fun p hp => AList.lookup_erase_ne ?_
      rw [hreq] at hp
      rintro rfl
      exact hp rfl
    · cases hstep
  | clear j =>
    obtain rfl := Option.some.inj hi
    simp only [State.act] at hstep
    split at hstep
    · next hpc =>
      obtain rfl := Option.some.inj hstep
      exact Outcome.clear h found hpc
    · cases hstep
  | unlink j p =>
    obtain rfl := Option.some.inj hi
    simp only [State.act] at hstep
    split at hstep
    · next hpc =>
      obtain ⟨info, hinfo, hstep⟩ := Option.bind_eq_some_iff.mp hstep
      split at hstep
      · next hcovers =>
        obtain rfl := Option.some.inj hstep
        exact Outcome.unlink h found hpc hinfo hcovers
      · cases hstep
    · cases hstep
  | cleared j =>
    obtain rfl := Option.some.inj hi
    simp only [State.act] at hstep
    split at hstep
    · next hpc =>
      split at hstep
      · cases hstep
      · next hnone =>
        obtain rfl := Option.some.inj hstep
        exact Outcome.cleared h found hpc hnone
    · cases hstep
  | finish j =>
    obtain rfl := Option.some.inj hi
    simp only [State.act] at hstep
    split at hstep
    · next hpc =>
      obtain ⟨body, hbody, hstep⟩ := Option.bind_eq_some_iff.mp hstep
      obtain rfl := Option.some.inj hstep
      exact Outcome.finish h found hpc hbody
    · cases hstep
  | breaks j =>
    obtain rfl := Option.some.inj hi
    simp only [State.act] at hstep
    split at hstep
    · next name agent user dest hpc hreq =>
      obtain rfl := Option.some.inj hstep
      refine Outcome.uploaded h found (by rw [hpc]; rfl) rfl hreq fun p hp => AList.lookup_erase_ne ?_
      rw [hreq] at hp
      rintro rfl
      exact hp rfl
    · split at hstep
      · next hin =>
        obtain rfl := Option.some.inj hstep
        exact Outcome.fails h found hin
      · cases hstep

/-! ## §F Runs -/

theorem Local.same {s s' : State} {i : Nat} {t : Task} (h : Local s i t) (hlocks : s'.locks = s.locks)
    (hfiles : s'.files = s.files) (hreceipts : s'.receipts = s.receipts) : Local s' i t := by
  have hreceipt : ∀ {result}, t.receipt s result → t.receipt s' result := by
    rintro result ⟨body, rid, hbody, hrid, hrow⟩
    exact ⟨body, rid, hbody, hrid, by rw [hreceipts]; exact hrow⟩
  constructor
  · rw [hlocks]
    exact h.lock
  · rw [hfiles]
    exact h.scanning
  · rw [hfiles]
    exact h.clearing
  · rw [hfiles]
    exact h.removing
  · exact h.covered
  · exact h.complete
  · exact h.untouched
  · exact fun hb => (h.begun hb).imp fun _ => hreceipt
  · exact fun hc => ⟨(h.running hc).1, hreceipt (h.running hc).2⟩
  · exact h.before
  · exact fun r hc hbody => hreceipt (h.recorded r hc hbody)

theorem Task.crash_request (t : Task) : t.crash.request = t.request := by
  unfold Task.crash
  split <;> rfl

theorem Task.crash_began (t : Task) : t.crash.began = t.began := by
  unfold Task.crash
  split <;> rfl

/-- A handler that has died knows what it has removed and begun. -/
theorem Local.crash {s s' : State} {i : Nat} {t : Task} (h : Local s i t)
    (hreceipts : s'.receipts = s.receipts) : Local s' i t.crash := by
  have hreceipt : ∀ {result}, t.receipt s result → t.receipt s' result := by
    rintro result ⟨body, rid, hbody, hrid, hrow⟩
    exact ⟨body, rid, hbody, hrid, by rw [hreceipts]; exact hrow⟩
  unfold Task.crash
  split
  · next a hpc =>
    have hans : Local s' i { t with pc := .answered a } :=
      h.answered (fun hb => (h.begun hb).imp fun _ => hreceipt)
        (fun r ha => h.complete r (by rw [hpc, ha])) fun r ha hbody =>
          hreceipt (h.recorded r (by rw [hpc, ha]) hbody)
    rw [← hpc] at hans
    exact hans
  · exact ⟨nofun, nofun, nofun, nofun, h.covered, nofun, h.untouched,
      fun hb => (h.begun hb).imp fun _ => hreceipt, nofun, nofun, nofun⟩

theorem getElem?_append_one {α : Type} {l : List α} {x y : α} {i : Nat}
    (h : (l ++ [x])[i]? = some y) : l[i]? = some y ∨ y = x := by
  by_cases hi : i < l.length
  · rw [List.getElem?_append_left hi] at h
    exact .inl h
  · rw [List.getElem?_append_right (by omega)] at h
    exact .inr (List.mem_singleton.mp (List.mem_of_getElem? h))

/-- A request comes in. -/
theorem Kept.request {s : State} (h : Kept s) (r : Request) :
    Kept { s with tasks := s.tasks ++ [⟨r, .waiting, false, []⟩] } where
  handlers i t ht := by
    rcases getElem?_append_one ht with hold | rfl
    · exact (h.handlers i t hold).same rfl rfl rfl
    · exact ⟨nofun, nofun, nofun, nofun, nofun, nofun, fun _ => rfl, nofun, nofun, fun _ => rfl, nofun⟩
  once i j t u rid ht hu htr hur htb hub := by
    rcases getElem?_append_one ht with hold | rfl
    · rcases getElem?_append_one hu with hold' | rfl
      · exact h.once i j t u rid hold hold' htr hur htb hub
      · cases hub
    · cases htb

/-- The process dies. -/
theorem Kept.crash {s : State} (h : Kept s) :
    Kept { s with tasks := s.tasks.map Task.crash, locks := ∅ } where
  handlers i t ht := by
    rw [List.getElem?_map] at ht
    obtain ⟨u, hu, rfl⟩ := Option.map_eq_some_iff.mp ht
    exact (h.handlers i u hu).crash rfl
  once i j t u rid ht hu htr hur htb hub := by
    rw [List.getElem?_map] at ht hu
    obtain ⟨t', ht', rfl⟩ := Option.map_eq_some_iff.mp ht
    obtain ⟨u', hu', rfl⟩ := Option.map_eq_some_iff.mp hu
    rw [Task.requestId, Task.crash_request] at htr hur
    rw [Task.crash_began] at htb hub
    exact h.once i j t' u' rid ht' hu' htr hur htb hub

/-- What a step is. -/
inductive Stepped (through : Root → Bool) (s : State) : Event → State → Prop
  | request (r : Request) : Stepped through s (.request r) { s with tasks := s.tasks ++ [⟨r, .waiting, false, []⟩] }
  | crash : Stepped through s .crash { s with tasks := s.tasks.map Task.crash, locks := ∅ }
  | act {e : Event} {s' : State} (i : Nat) (t t' : Task) (handler : e.handler = some i)
      (outcome : Outcome through s s' e i t t') : Stepped through s e s'

theorem step_stepped {through : Root → Bool} {s s' : State} {e : Event} (h : Kept s)
    (hstep : s.step through e = some s') : Stepped through s e s' := by
  unfold State.step at hstep
  split at hstep
  · obtain rfl := Option.some.inj hstep
    exact .request _
  · obtain rfl := Option.some.inj hstep
    exact .crash
  · obtain ⟨i, hi, hstep⟩ := Option.bind_eq_some_iff.mp hstep
    obtain ⟨t, ht, hstep⟩ := Option.bind_eq_some_iff.mp hstep
    obtain ⟨t', hout⟩ := act_outcome (h.handlers i t ht) ht hi hstep
    exact .act i t t' hi hout

/-- **Every step keeps it.** -/
theorem Kept.step {through : Root → Bool} {s s' : State} {e : Event} (h : Kept s)
    (hstep : s.step through e = some s') : Kept s' := by
  cases step_stepped h hstep with
  | request r => exact h.request r
  | crash => exact h.crash
  | act i t t' _ hout => exact h.effect hout.effect hout.handler

theorem kept_initial (files : Dict Path Info) (homes : List Path) (receipts : Dict String Receipt) :
    Kept (.initial files homes receipts) where
  handlers i t ht := by cases ht
  once i j t u rid ht := by cases ht

/-! ## §G What the cleanups come to -/

/-- What the cleanups of a state have removed. -/
structure Confirmed (s : State) : Prop where
  /-- an Agent's cleanup has removed nothing that its fingerprint does not cover -/
  covered : ∀ t ∈ s.tasks, ∀ aid body, t.request = .cleanupAgent aid body →
    ∀ e ∈ t.removed, ∃ f, body.expectedFingerprint = some f ∧ e ∈ f
  /-- and when it has come to its end, all of it -/
  complete : ∀ t ∈ s.tasks, ∀ r, t.pc = .answered (.done r) → t.began = true → ∀ aid body,
    t.request = .cleanupAgent aid body →
      ∃ f, body.expectedFingerprint = some f ∧ ∀ e, e ∈ t.removed ↔ e ∈ f
  /-- an upload that has been acknowledged is safe from the fingerprints that do not cover it -/
  uploads : ∀ u ∈ s.tasks, ∀ path info, u.pc = .answered (.done (.stored path info)) → ∀ t ∈ s.tasks,
    ∀ aid body f, t.request = .cleanupAgent aid body → body.expectedFingerprint = some f →
      (⟨path, info⟩ : Entry) ∉ f → ⟨path, info⟩ ∉ t.removed
  /-- no two requests have removed under one `request_id` -/
  once : ∀ (i j : Nat) (t u : Task) rid, s.tasks[i]? = some t → s.tasks[j]? = some u →
    t.requestId = some rid → u.requestId = some rid → t.removed ≠ [] → u.removed ≠ [] → i = j

/-- A cleanup that was rejected has not begun its receipt. -/
def RejectedUnbegun (s : State) : Prop :=
  ∀ t ∈ s.tasks, t.request.body?.isSome = true → ∀ status, t.pc = .answered (.rejected status) →
    t.began = false

/-- The request of a completed cleanup, made again, is answered with its result and touches nothing. -/
def Replays (through : Root → Bool) (s : State) (e : Event) : Prop :=
  ∀ (i : Nat) (t : Task) body, e = .enter i → s.tasks[i]? = some t → t.request.body? = some body →
    ∀ u ∈ s.tasks, ∀ body' r, u.request.body? = some body' → u.pc = .answered (.done r) →
      body'.requestId = body.requestId → u.request.payload body' = t.request.payload body →
        ∀ s' ∈ s.step through e, s'.files = s.files ∧ s'.homes = s.homes ∧ s'.receipts = s.receipts ∧
          (s'.tasks[i]?).map (·.pc) = some (.answered (.done r))

/-- A cleanup changes nothing before its receipt, and then removes one file after the other. -/
def Touches (through : Root → Bool) (s : State) (e : Event) : Prop :=
  ∀ (i : Nat) (t : Task), e.handler = some i → s.tasks[i]? = some t → t.request.body?.isSome = true →
    ∀ s' ∈ s.step through e, ∀ t', s'.tasks[i]? = some t' →
      (t'.began = false → s'.files = s.files ∧ s'.homes = s.homes ∧ s'.receipts = s.receipts) ∧
        Recorded s s' t t'

theorem Kept.confirmed {s : State} (h : Kept s) : Confirmed s := by
  have hlocal : ∀ t ∈ s.tasks, ∃ i, Local s i t := by
    intro t ht
    obtain ⟨i, hi⟩ := List.getElem?_of_mem ht
    exact ⟨i, h.handlers i t hi⟩
  have hcovered : ∀ t ∈ s.tasks, ∀ aid body, t.request = .cleanupAgent aid body →
      ∀ e ∈ t.removed, ∃ f, body.expectedFingerprint = some f ∧ e ∈ f := by
    intro t ht
    obtain ⟨i, hi⟩ := hlocal t ht
    exact hi.covered
  refine ⟨hcovered, fun t ht => ?_, fun u _ path info _ t ht aid body f hreq hf hout hmem => ?_, ?_⟩
  · obtain ⟨i, hi⟩ := hlocal t ht
    exact hi.complete
  · obtain ⟨f', hf', hin⟩ := hcovered t ht aid body hreq _ hmem
    obtain rfl := Option.some.inj (hf.symm.trans hf')
    exact hout hin
  · intro i j t u rid ht hu htr hur htn hun
    refine h.once i j t u rid ht hu htr hur ?_ ?_
    · rw [← Bool.not_eq_false]
      exact fun hb => htn ((h.handlers i t ht).untouched hb)
    · rw [← Bool.not_eq_false]
      exact fun hb => hun ((h.handlers j u hu).untouched hb)

/-- **A step leaves the rejected cleanups unbegun exactly when it meets the condition.** -/
theorem rejected_step {through : Root → Bool} {s s' : State} {e : Event} (h : Kept s)
    (hr : RejectedUnbegun s) (hstep : s.step through e = some s') :
    RejectedUnbegun s' ↔ s.owned through e = true := by
  cases step_stepped h hstep with
  | request r =>
    refine iff_of_true (fun t ht hbody status hpc => ?_) rfl
    rcases List.mem_append.mp ht with hold | hnew
    · exact hr t hold hbody status hpc
    · rw [List.mem_singleton.mp hnew]
  | crash =>
    refine iff_of_true (fun t ht hbody status hpc => ?_) rfl
    obtain ⟨u, hu, rfl⟩ := List.mem_map.mp ht
    rw [Task.crash_began]
    refine hr u hu (by rw [← Task.crash_request]; exact hbody) status ?_
    unfold Task.crash at hpc
    split at hpc
    · exact hpc
    · cases hpc
  | act i t t' _ hout =>
    rw [hout.rejected]
    have hlt := (List.getElem?_eq_some_iff.mp hout.effect.found).1
    constructor
    · intro hr' hbody status hpc
      refine hr' t' ?_ (by rw [hout.effect.request]; exact hbody) status hpc
      rw [hout.effect.tasks]
      exact List.mem_of_getElem? (List.getElem?_set_self hlt)
    · intro ht' u hu hbody status hpc
      rw [hout.effect.tasks] at hu
      rcases List.mem_or_eq_of_mem_set hu with hold | rfl
      · exact hr u hold hbody status hpc
      · exact ht' (by rw [← hout.effect.request]; exact hbody) status hpc

theorem touches {through : Root → Bool} {s : State} (e : Event) (h : Kept s) : Touches through s e := by
  intro i t hi ht hbody s' hstep t' ht'
  cases step_stepped h hstep with
  | request r => cases hi
  | crash => cases hi
  | act j u u' hj hout =>
    obtain rfl := Option.some.inj (hi.symm.trans hj)
    obtain rfl := Option.some.inj (ht.symm.trans hout.effect.found)
    rw [hout.effect.tasks, List.getElem?_set_self (List.getElem?_eq_some_iff.mp ht).1] at ht'
    obtain rfl := Option.some.inj ht'
    exact ⟨hout.still hbody, hout.recorded hbody⟩

theorem enter_replays {s : State} {i : Nat} {t : Task} {body : Body} {r : Result}
    (hbody : t.request.body? = some body)
    (h : s.replay body.requestId (t.request.payload body) = .ok (some r)) :
    s.enter i t = s.answer i t (.done r) := by
  simp only [State.enter, hbody, h]

theorem replays {through : Root → Bool} {s : State} (e : Event) (h : Kept s) : Replays through s e := by
  rintro i t body rfl ht hbody u hu body' r hbody' hpc hrid hpayload s' hstep
  obtain ⟨j, hj⟩ := List.getElem?_of_mem hu
  obtain ⟨body'', rid, hbody'', hrid', hrow⟩ :=
    (h.handlers j u hj).recorded r hpc (by rw [hbody']; rfl)
  obtain rfl := Option.some.inj (hbody'.symm.trans hbody'')
  rw [hpayload] at hrow
  have hreplay : s.replay body.requestId (t.request.payload body) = .ok (some r) := by
    rw [← hrid, hrid']
    simp [State.replay, hrow]
  simp only [State.step, Event.handler, Option.bind_eq_bind, Option.bind_some, ht, State.act,
    Option.mem_def] at hstep
  split at hstep
  · split at hstep
    · cases hstep
    · obtain rfl := Option.some.inj hstep
      rw [enter_replays (s := { s with locks := s.locks.insert t.request.agent i }) hbody hreplay]
      refine ⟨rfl, rfl, rfl, ?_⟩
      change ((s.tasks.set i { t with pc := .answered (.done r) })[i]?).map (·.pc) = _
      rw [List.getElem?_set_self (List.getElem?_eq_some_iff.mp ht).1]
      rfl
  · cases hstep

/-- **In every run, an Agent's cleanup removes what its fingerprint covers and an upload that is not covered
is safe, no two requests remove under one `request_id`, and a completed request is answered with its
result.** The rejected cleanups have changed nothing exactly when no user cleanup of the run comes to a
directory under a root that is configured through a symlink. -/
theorem cleanups_keep_to_fingerprint (through : Root → Bool) (files : Dict Path Info) (homes : List Path)
    (receipts : Dict String Receipt) {s : State} {es : List Event}
    (hrun : (fileService through).run (.initial files homes receipts) es = some s) :
    (fileService through).Throughout Confirmed (.initial files homes receipts) es ∧
      (fileService through).Along (Replays through) (.initial files homes receipts) es ∧
      (fileService through).Along (Touches through) (.initial files homes receipts) es ∧
      ((fileService through).Throughout RejectedUnbegun (.initial files homes receipts) es ↔
        (fileService through).Along (fun s e => s.owned through e = true) (.initial files homes receipts)
          es) := by
  have hkeep : ∀ s e s', Kept s → (fileService through).step s e = some s' → Kept s' :=
    fun s e s' h hstep => h.step hstep
  have h0 := kept_initial files homes receipts
  refine ⟨?_, ?_, ?_, ?_⟩
  · exact Machine.Throughout.imp _ (fun s h => h.confirmed) (Machine.throughout_always _ hkeep es h0)
  · exact Machine.along_always _ hkeep (fun s e h => replays e h) h0 es
  · exact Machine.along_always _ hkeep (fun s e h => touches e h) h0 es
  · refine Machine.throughout_iff_along_of_invariant _ hkeep (fun s e s' h hr hstep => ?_) h0 ?_ hrun
    · exact rejected_step h hr hstep
    · intro t ht
      cases ht

/-- A file of a user, and a request to clean the user up. -/
def note : Path := ⟨.workspace, "agent-code", "alice", ["shared", "note.txt"]⟩

def noted : State :=
  .initial ((∅ : Dict Path Info).insert note ⟨7, 100⟩)
    [⟨.workspace, "agent-code", "alice", []⟩, ⟨.state, "agent-code", "alice", []⟩] ∅

/-- An Agent's cleanup with the fingerprint it was shown, and the same request again. -/
def confirmedRun : List Event :=
  [.request (.cleanupAgent "agent-code" ⟨some "r1", none, some [⟨note, ⟨7, 100⟩⟩], false, none, none⟩),
    .enter 0, .verdict 0 none, .list 0, .stat 0, .compare 0, .clear 0, .unlink 0 note, .cleared 0, .clear 0,
    .cleared 0, .finish 0,
    .request (.cleanupAgent "agent-code" ⟨some "r1", none, some [⟨note, ⟨7, 100⟩⟩], false, none, none⟩),
    .enter 1]

theorem confirmed_of_confirmedRun :
    ∃ s, (fileService fun _ => false).run noted confirmedRun = some s ∧ note ∉ s.files ∧
      (fileService fun _ => false).Throughout Confirmed noted confirmedRun ∧
      (fileService fun _ => false).Throughout RejectedUnbegun noted confirmedRun := by
  have hrun : ((fileService fun _ => false).run noted confirmedRun).all (fun s =>
      decide (note ∈ s.files)) = false := by decide +kernel
  obtain ⟨s, hs, hnote⟩ := Machine.exists_run_of_all_eq_false _ hrun
  have hall := cleanups_keep_to_fingerprint (fun _ => false) _ _ _ hs
  exact ⟨s, hs, of_decide_eq_false hnote, hall.1, hall.2.2.2.mpr (by decide +kernel)⟩

/-- The user's workspace is removed, and then the state root is found to be configured through a symlink. -/
def rejectedRun : List Event :=
  [.request (.cleanupUser "agent-code" "alice" ⟨some "r1", some "run", none, false, none, none⟩), .enter 0,
    .verdict 0 none, .clear 0, .unlink 0 note, .cleared 0, .clear 0]

/-- A cleanup is rejected when it has removed the files of the user's workspace. -/
theorem cleanup_rejected_after_removal :
    ∃ s, (fileService fun root => root == .state).run noted rejectedRun = some s ∧ note ∈ noted.files ∧
      note ∉ s.files ∧ ¬RejectedUnbegun s := by
  have hrun : ((fileService fun root => root == .state).run noted rejectedRun).all (fun s =>
      !(decide (note ∉ s.files) && s.tasks.any fun t => t.request.body?.isSome && t.began &&
        decide (t.pc = .answered (.rejected 409)))) = false := by decide +kernel
  obtain ⟨s, hs, hend⟩ := Machine.exists_run_of_all_eq_false _ hrun
  rw [Bool.not_eq_false', Bool.and_eq_true, decide_eq_true_eq, List.any_eq_true] at hend
  obtain ⟨hnote, t, ht, htask⟩ := hend
  rw [Bool.and_eq_true, Bool.and_eq_true, decide_eq_true_eq] at htask
  refine ⟨s, hs, by decide, hnote, fun hr => ?_⟩
  exact absurd (htask.1.2.symm.trans (hr t ht htask.1.1 409 htask.2)) nofun

end OpencodeCloud.FileService.Cleanup
