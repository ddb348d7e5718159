/-
# OpencodeCloud.FileService.Uploads -- the uploads of one user, their descriptors and their worker threads

An upload holds the lock of its user. It opens the parent directory, takes the size of the file it will
replace and the size of the workspace, and creates a temporary file beside the destination. It writes chunk
after chunk in a worker thread, each under the quota, and at its end renames the temporary file. Whatever
happens, its `finally` closes the descriptor and unlinks the temporary name.

A thread cannot be cancelled. **As long as no upload is cancelled while its thread still has bytes to write,
the workspace is safe throughout** (`uploads_safe`): the quota holds, every file is the old one or the whole
of one upload, no temporary file is left, and no thread writes anywhere but into the temporary file of its own
upload. Cancelled then, the thread goes on with a descriptor number that the next upload's temporary file may
have got (`thread_writes_elsewhere`).
-/
import OpencodeCloud.Library.Machine
import OpencodeCloud.Library.Tally

namespace OpencodeCloud.FileService.Uploads

open OpencodeCloud.Library

/-! ## §A Files, descriptors and uploads -/

/-- The parts of a path below the workspace of the user. -/
abbrev Path := List String

abbrev Bytes := List UInt8

/-- What a name stands for: a regular file by its inode, a directory, or anything else. -/
inductive Node where
  | file (inode : Nat)
  | directory
  | special
  deriving DecidableEq

/-- A regular file. `creator` is history: the upload that made it as its temporary file, and where. -/
structure Inode where
  content : Bytes
  creator : Option (Nat × Path)
  deriving DecidableEq

/-- What a descriptor number is open on. -/
inductive Target where
  | directory
  | file (inode : Nat)
  /-- whatever else the process has open -/
  | foreign
  deriving DecidableEq

/-- The request of an upload: its destination, the session's directory included, and its body. -/
structure Request where
  dest : Path
  content : Bytes
  deriving DecidableEq

/-- Where an upload that has the lock stands. -/
inductive Phase where
  /-- about to open the parent -/
  | locked
  /-- about to take the size of the old file -/
  | opened
  /-- `to_thread(_tree_size)`, with the names still to be looked at -/
  | walking (todo : List Path)
  /-- `upload.read` -/
  | reading
  /-- `to_thread(_write_all)` -/
  | writing
  /-- `to_thread(os.fsync)` -/
  | syncing
  | synced
  /-- the descriptor is closed, and the temporary file about to replace the destination -/
  | closed
  /-- `finally`, from its start -/
  | cleaning
  | unlinking
  | leaving
  /-- `upload.close` -/
  | closing
  deriving DecidableEq

/-- The variables of `upload`. -/
structure Sending where
  request : Request
  phase : Phase
  temp : Option Path
  parentFd : Option Nat
  fd : Option Nat
  oldSize : Nat
  used : Nat
  size : Nat
  unread : Bytes

/-- A call of `_write_all` in the thread pool, with the bytes that are still to be written. -/
structure Job where
  fd : Nat
  data : Bytes
  running : Bool
  deriving DecidableEq

/-- What a call of `os.write` hit, and the names the file had then. -/
structure Written where
  owner : Nat
  target : Target
  names : List Path
  deriving DecidableEq

/-- `waiting` are the uploads that wait for the lock, `inside` is the one that has it. `replaced` (newest
first) and `written` are history. -/
structure State where
  entries : Dict Path Node
  inodes : List Inode
  fds : Dict Nat Target
  waiting : Dict Nat Request
  inside : Option (Nat × Sending)
  next : Nat
  jobs : Dict Nat Job
  replaced : List (Nat × Request)
  written : List Written

structure Config where
  maxUploadMb : Nat
  maxUserWorkspaceGb : Nat

def Config.quota (cfg : Config) : Nat := cfg.maxUserWorkspaceGb * 1024 ^ 3

/-- What `upload.read` is asked for. -/
def chunkSize : Nat := 1024 * 1024

/-! ## §B What is in the workspace -/

/-- `st_size` of a regular file. -/
def nodeSize (inodes : List Inode) : Node → Nat
  | .file i => (inodes[i]?.map fun inode => inode.content.length).getD 0
  | _ => 0

namespace State

/-- What `_tree_size` adds for a name. -/
def sizeAt (s : State) (p : Path) : Nat := s.entries.share (fun _ => nodeSize s.inodes) p

/-- The total size of the regular files. -/
def treeSize (s : State) : Nat := s.entries.total fun _ => nodeSize s.inodes

/-- The content of a regular file. -/
def contentAt (s : State) (p : Path) : Option Bytes :=
  match s.entries.lookup p with
  | some (.file i) => s.inodes[i]?.map (·.content)
  | _ => none

/-- The temporary name of the upload that has the lock, from its choice to its `unlink`. -/
def temp (s : State) : Option Path := s.inside.bind fun u => u.2.temp

/-- The names of a file. -/
def namesOf (s : State) (target : Target) : List Path :=
  match target with
  | .file i => s.entries.keys.filter fun p => s.entries.lookup p = some (.file i)
  | _ => []

def advance (s : State) (a : Nat) (u : Sending) : State := { s with inside := some (a, u) }

end State

/-! ## §C The steps -/

/-- `_walk_directory`, creating: every missing directory is made, and it ends at what is no directory. -/
def walkDirectory (entries : Dict Path Node) (here : Path) : List String → Dict Path Node × Bool
  | [] => (entries, true)
  | part :: parts =>
    match entries.lookup (here ++ [part]) with
    | none => walkDirectory (entries.insert (here ++ [part]) .directory) (here ++ [part]) parts
    | some .directory => walkDirectory entries (here ++ [part]) parts
    | some _ => (entries, false)

/-- A step of the upload that has the lock. `fail` is an exception of the call it is about to make or awaits,
`cancel` the cancellation of its task. -/
inductive Move where
  /-- the parent's descriptor, and the name that `token_hex` gives: none that is there already -/
  | openParent (fd : Nat) (name : String)
  /-- `_open_parent` fails, below the first `k` directories -/
  | refuse (k : Nat)
  | stat
  /-- the walk looks at one name -/
  | count
  | openTemp (fd : Nat)
  /-- `upload.read` gives `k` bytes -/
  | read (k : Nat)
  /-- `upload.read` is at its end -/
  | readEnd
  | fsync
  | close
  | replace
  | unlink
  | closeParent
  | release
  | fail
  | cancel

/-- `_open_parent`, and the choice of the temporary name. The kernel gives the lowest free number; here it is
any free one. -/
def openParent (s : State) (a : Nat) (u : Sending) (fd : Nat) (name : String) : Option State :=
  let walked := walkDirectory s.entries [] u.request.dest.dropLast
  let temp := u.request.dest.dropLast ++ [name]
  if walked.2 = true ∧ s.fds.lookup fd = none ∧ walked.1.lookup temp = none ∧ temp ≠ u.request.dest then
    some ({ s with entries := walked.1, fds := s.fds.insert fd .directory }.advance a
      { u with phase := .opened, temp := some temp, parentFd := some fd })
  else none

/-- `_existing_regular_size`, and the walk begins. -/
def existingRegularSize (s : State) (a : Nat) (u : Sending) : State :=
  match s.entries.lookup u.request.dest with
  | none => s.advance a { u with phase := .walking s.entries.keys, oldSize := 0 }
  | some (.file i) =>
    s.advance a { u with phase := .walking s.entries.keys, oldSize := nodeSize s.inodes (.file i) }
  | some _ => s.advance a { u with phase := .cleaning }

/-- A new, empty file. -/
def State.create (s : State) (a : Nat) (temp : Path) (fd : Nat) : State :=
  { s with
    entries := s.entries.insert temp (.file s.inodes.length)
    inodes := s.inodes ++ [⟨[], some (a, temp)⟩]
    fds := s.fds.insert fd (.file s.inodes.length) }

/-- `os.open(temp_name, O_CREAT | O_EXCL)` -/
def openTemp (s : State) (a : Nat) (u : Sending) (fd : Nat) : Option State :=
  match u.temp with
  | none => none
  | some temp =>
    if s.entries.lookup temp = none ∧ s.fds.lookup fd = none then
      some ((s.create a temp fd).advance a { u with phase := .reading, fd := some fd })
    else none

/-- A chunk of `k` bytes: both limits are checked, and the chunk goes to the thread pool. -/
def readChunk (cfg : Config) (s : State) (a : Nat) (u : Sending) (k : Nat) : Option State :=
  if 1 ≤ k ∧ k ≤ u.unread.length ∧ k ≤ chunkSize then
    let size := u.size + k
    if size > cfg.maxUploadMb * 1024 * 1024 then some (s.advance a { u with phase := .cleaning, size := size })
    else if (u.used : Int) - u.oldSize + size > cfg.quota then
      some (s.advance a { u with phase := .cleaning, size := size })
    else
      match u.fd with
      | none => none
      | some fd =>
        some ({ s with jobs := s.jobs.insert a (⟨fd, u.unread.take k, false⟩ : Job) }.advance a
          { u with phase := .writing, size := size, unread := u.unread.drop k })
  else none

/-- `os.replace`, and the history of it. -/
def State.rename (s : State) (a : Nat) (r : Request) (temp : Path) (node : Node) : State :=
  { s with
    entries := (s.entries.erase temp).insert r.dest node
    replaced := (a, r) :: s.replaced }

/-- `_reject_symlink_or_nonregular` and `os.replace` -/
def replace (s : State) (a : Nat) (u : Sending) : Option State :=
  match u.temp.bind s.entries.lookup, u.temp with
  | some node, some temp =>
    match s.entries.lookup u.request.dest with
    | some .directory | some .special => some (s.advance a { u with phase := .cleaning })
    | _ => some ((s.rename a u.request temp node).advance a { u with phase := .cleaning })
  | _, _ => none

/-- The cancelled task drops the call it awaits, if no thread has it yet. -/
def dropQueued (s : State) (a : Nat) : State :=
  match s.jobs.lookup a with
  | some job => if job.running then s else { s with jobs := s.jobs.erase a }
  | none => s

/-- One step of the upload `a` that has the lock. -/
def act (cfg : Config) (s : State) (a : Nat) (u : Sending) (move : Move) : Option State :=
  match u.phase, move with
  | .locked, .openParent fd name => openParent s a u fd name
  | .locked, .refuse k =>
    some { s with
      entries := (walkDirectory s.entries [] (u.request.dest.dropLast.take k)).1
      inside := none }
  | .opened, .stat => some (existingRegularSize s a u)
  | .walking (p :: todo), .count =>
    some (s.advance a { u with phase := .walking todo, used := u.used + s.sizeAt p })
  | .walking [], .openTemp fd => openTemp s a u fd
  | .reading, .read k => readChunk cfg s a u k
  | .reading, .readEnd => if u.unread = [] then some (s.advance a { u with phase := .syncing }) else none
  | .syncing, .fsync => some (s.advance a { u with phase := .synced })
  | .synced, .close =>
    u.fd.map fun fd => { s with fds := s.fds.erase fd }.advance a { u with phase := .closed, fd := none }
  | .closed, .replace => replace s a u
  | .cleaning, .close =>
    match u.fd with
    | some fd => some ({ s with fds := s.fds.erase fd }.advance a { u with phase := .unlinking, fd := none })
    | none => some (s.advance a { u with phase := .unlinking })
  | .unlinking, .unlink =>
    u.temp.map fun temp =>
      { s with entries := s.entries.erase temp }.advance a { u with phase := .leaving, temp := none }
  | .leaving, .closeParent =>
    u.parentFd.map fun fd =>
      { s with fds := s.fds.erase fd }.advance a { u with phase := .closing, parentFd := none }
  | .closing, .release => some { s with inside := none }
  | .opened, .fail | .walking _, .fail | .reading, .fail | .syncing, .fail | .closed, .fail =>
    some (s.advance a { u with phase := .cleaning })
  | .walking _, .cancel | .reading, .cancel | .syncing, .cancel =>
    some (s.advance a { u with phase := .cleaning })
  | .writing, .cancel => some ((dropQueued s a).advance a { u with phase := .cleaning })
  | .closing, .cancel => some { s with inside := none }
  | _, _ => none

inductive Event where
  | arrive (r : Request)
  /-- a waiting upload gets the lock -/
  | acquire (a : Nat)
  /-- a waiting upload is cancelled -/
  | abandon (a : Nat)
  | move (m : Move)
  /-- a thread takes the call -/
  | start (a : Nat)
  /-- `os.write` takes `k` bytes -/
  | write (a k : Nat)
  /-- `os.write` raises -/
  | crash (a : Nat)
  /-- the thread is done -/
  | done (a : Nat)
  /-- the rest of the process opens and closes descriptors -/
  | openOther (fd : Nat)
  | closeOther (fd : Nat)

/-- What an upload starts with. -/
def begun (r : Request) : Sending := ⟨r, .locked, none, none, none, 0, 0, 0, r.content⟩

/-- The call of `a` is over; if `a` still awaits it, it goes on in `phase`. -/
def jobOver (s : State) (a : Nat) (phase : Phase) : State :=
  let s := { s with jobs := s.jobs.erase a }
  match s.inside with
  | some (b, u) => if b = a ∧ u.phase = .writing then s.advance a { u with phase := phase } else s
  | none => s

def Inode.append (inode : Inode) (data : Bytes) : Inode := { inode with content := inode.content ++ data }

/-- `os.write`: the bytes go where the number leads now. -/
def writeBytes (s : State) (a : Nat) (job : Job) (k : Nat) : State :=
  let jobs := s.jobs.insert a { job with data := job.data.drop k }
  match s.fds.lookup job.fd with
  | some (.file i) =>
    { s with
      jobs := jobs
      inodes := s.inodes.modify i fun inode => inode.append (job.data.take k)
      written := ⟨a, .file i, s.namesOf (.file i)⟩ :: s.written }
  | some .foreign => { s with jobs := jobs, written := ⟨a, .foreign, []⟩ :: s.written }
  -- `EBADF`: the number is closed, or a directory's
  | some .directory | none => jobOver s a .cleaning

def step (cfg : Config) (s : State) : Event → Option State
  | .arrive r => some { s with waiting := s.waiting.insert s.next r, next := s.next + 1 }
  | .acquire a =>
    match s.inside, s.waiting.lookup a with
    | none, some r => some ({ s with waiting := s.waiting.erase a }.advance a (begun r))
    | _, _ => none
  | .abandon a => if a ∈ s.waiting then some { s with waiting := s.waiting.erase a } else none
  | .move m =>
    match s.inside with
    | some (a, u) => act cfg s a u m
    | none => none
  | .start a =>
    match s.jobs.lookup a with
    | some job =>
      if job.running then none else some { s with jobs := s.jobs.insert a { job with running := true } }
    | none => none
  | .write a k =>
    match s.jobs.lookup a with
    | some job =>
      if job.running ∧ 1 ≤ k ∧ k ≤ job.data.length then some (writeBytes s a job k) else none
    | none => none
  | .crash a =>
    match s.jobs.lookup a with
    | some job => if job.running then some (jobOver s a .cleaning) else none
    | none => none
  | .done a =>
    match s.jobs.lookup a with
    | some job => if job.running ∧ job.data = [] then some (jobOver s a .reading) else none
    | none => none
  | .openOther fd =>
    if s.fds.lookup fd = none then some { s with fds := s.fds.insert fd .foreign } else none
  | .closeOther fd =>
    if s.fds.lookup fd = some .foreign then some { s with fds := s.fds.erase fd } else none

def machine (cfg : Config) : Machine State Event := ⟨step cfg⟩

/-! ## §D What is promised -/

/-- The total size of the regular files other than the temporary one. -/
def State.settledSize (s : State) : Nat :=
  s.entries.total fun p node => if s.temp = some p then 0 else nodeSize s.inodes node

/-- A path has the whole content of the upload that replaced it last, or else the content it had at the
start. -/
def settled (start : State) (replaced : List (Nat × Request)) (p : Path) : Option Bytes :=
  match replaced.find? fun e => e.2.dest = p with
  | some e => some e.2.content
  | none => start.contentAt p

/-- A call of `os.write` hit the temporary file of its own upload, under its temporary name only. -/
def Written.Own (inodes : List Inode) (w : Written) : Prop :=
  ∃ i inode t, w.target = .file i ∧ inodes[i]? = some inode ∧ inode.creator = some (w.owner, t) ∧
    ∀ p ∈ w.names, p = t

/-- What holds of a workspace in use. `idle` and `settled_size` are about the quota, `files` and `temps` about
the content of every name, and `own` about every byte written so far. -/
structure Safe (cfg : Config) (start s : State) : Prop where
  idle : s.inside = none → s.treeSize ≤ cfg.quota
  settled_size : s.settledSize ≤ cfg.quota
  files : ∀ p, s.temp ≠ some p → s.contentAt p = settled start s.replaced p
  temps : ∀ p, s.temp = some p → settled start s.replaced p = none
  own : ∀ w ∈ s.written, w.Own s.inodes

/-- No thread has bytes to write for the upload that has the lock. -/
def ThreadIdle (s : State) : Prop :=
  ∀ e ∈ s.inside, e.2.phase = .writing → ∀ job ∈ s.jobs.lookup e.1, job.running = true → job.data = []

instance (s : State) : Decidable (ThreadIdle s) :=
  inferInstanceAs (Decidable (∀ e ∈ s.inside, e.2.phase = .writing →
    ∀ job ∈ s.jobs.lookup e.1, job.running = true → job.data = []))

/-- No upload is cancelled while a thread is writing for it and still has bytes to write. -/
def Quiet (s : State) : Event → Prop
  | .move .cancel => ThreadIdle s
  | _ => True

instance (s : State) : (e : Event) → Decidable (Quiet s e)
  | .move .cancel => inferInstanceAs (Decidable (ThreadIdle s))
  | .move (.openParent ..) | .move (.refuse _) | .move .stat | .move .count | .move (.openTemp _)
  | .move (.read _) | .move .readEnd | .move .fsync | .move .close | .move .replace | .move .unlink
  | .move .closeParent | .move .release | .move .fail | .arrive _ | .acquire _ | .abandon _ | .start _
  | .write .. | .crash _ | .done _ | .openOther _ | .closeOther _ => inferInstanceAs (Decidable True)

/-- Where a run starts: nothing is uploaded yet, the workspace is within the quota, and every name of a file
has its file. -/
structure Start (cfg : Config) (s : State) : Prop where
  inside : s.inside = none
  jobs : s.jobs = ∅
  replaced : s.replaced = []
  written : s.written = []
  size : s.treeSize ≤ cfg.quota
  bounded : ∀ p i, s.entries.lookup p = some (.file i) → i < s.inodes.length

/-! ## §E The invariant -/

/-- The temporary file `t` is there, has no other name, and holds what has been read but for `pending`. -/
structure Made (s : State) (a : Nat) (u : Sending) (pending : Bytes) (t : Path) (i : Nat) : Prop where
  temp : u.temp = some t
  entry : s.entries.lookup t = some (.file i)
  inode : ∃ content, s.inodes[i]? = some ⟨content, some (a, t)⟩ ∧
    content ++ pending ++ u.unread = u.request.content ∧ u.size = content.length + pending.length
  sole : ∀ p, s.entries.lookup p = some (.file i) → p = t

/-- The sizes that were taken are still right, and the quota allows what has been read. -/
structure Counted (cfg : Config) (s : State) (u : Sending) : Prop where
  apart : u.temp ≠ some u.request.dest
  old : u.oldSize = s.sizeAt u.request.dest
  used : u.used = s.settledSize
  fits : u.size = 0 ∨ u.used + u.size ≤ cfg.quota + u.oldSize

/-- The temporary name is chosen and free. -/
structure Unmade (s : State) (u : Sending) : Prop where
  temp : ∃ t, u.temp = some t ∧ s.entries.lookup t = none
  apart : u.temp ≠ some u.request.dest
  size : u.size = 0
  unread : u.unread = u.request.content

/-- What the upload `a` that has the lock can rely on. -/
def Held (cfg : Config) (s : State) (a : Nat) (u : Sending) : Prop :=
  match u.phase with
  | .locked => u.temp = none ∧ u.size = 0 ∧ u.unread = u.request.content ∧ u.used = 0
  | .opened => Unmade s u ∧ u.used = 0
  | .walking todo =>
    Unmade s u ∧ u.oldSize = s.sizeAt u.request.dest ∧ u.used + tally s.sizeAt todo = s.settledSize
  | .reading => ∃ t i n, Made s a u [] t i ∧ Counted cfg s u ∧ u.fd = some n ∧ s.fds.lookup n = some (.file i)
  | .writing =>
    ∃ t i job, Made s a u job.data t i ∧ Counted cfg s u ∧ u.fd = some job.fd ∧
      s.fds.lookup job.fd = some (.file i) ∧ s.jobs.lookup a = some job
  | .syncing | .synced | .closed => ∃ t i, Made s a u [] t i ∧ Counted cfg s u ∧ u.unread = []
  | .cleaning | .unlinking => True
  | .leaving | .closing => u.temp = none

/-- The invariant: of the files, of the threads and of the upload that has the lock. -/
structure Invariant (cfg : Config) (start s : State) : Prop where
  bounded : ∀ p i, s.entries.lookup p = some (.file i) → i < s.inodes.length
  settled_size : s.settledSize ≤ cfg.quota
  files : ∀ p, s.temp ≠ some p → s.contentAt p = settled start s.replaced p
  temps : ∀ p, s.temp = some p → settled start s.replaced p = none
  own : ∀ w ∈ s.written, w.Own s.inodes
  jobs : ∀ a job, s.jobs.lookup a = some job →
    job.data = [] ∨ ∃ u, s.inside = some (a, u) ∧ u.phase = .writing
  held : ∀ a u, s.inside = some (a, u) → Held cfg s a u

section Sizes

variable {s s' : State} {p t : Path} {node : Node}

theorem nodeSize_of_not_file (inodes : List Inode) (h : ∀ i, node ≠ .file i) : nodeSize inodes node = 0 := by
  cases node with
  | file i => exact absurd rfl (h i)
  | directory => rfl
  | special => rfl

/-- Without a temporary file all files are settled. -/
theorem settledSize_eq_treeSize (h : ∀ t, s.temp = some t → s.entries.lookup t = none) :
    s.settledSize = s.treeSize := by
  refine Dict.total_congr fun p node hp => ?_
  split
  · next htemp => rw [h p htemp] at hp; simp at hp
  · rfl

theorem treeSize_eq_tally (s : State) : tally s.sizeAt s.entries.keys = s.treeSize :=
  Dict.tally_keys _ _

theorem sizeAt_of_file {i : Nat} {content : Bytes} {creator : Option (Nat × Path)}
    (h : s.entries.lookup p = some (.file i)) (hi : s.inodes[i]? = some ⟨content, creator⟩) :
    s.sizeAt p = content.length := by
  simp [State.sizeAt, Dict.share, h, nodeSize, hi]

theorem sizeAt_of_none (h : s.entries.lookup p = none) : s.sizeAt p = 0 := by
  simp [State.sizeAt, Dict.share, h]

/-- The content of a name depends on the files among the entries only. -/
theorem contentAt_congr (hi : s'.inodes = s.inodes)
    (h : ∀ i, s'.entries.lookup p = some (.file i) ↔ s.entries.lookup p = some (.file i)) :
    s'.contentAt p = s.contentAt p := by
  cases hs : s.entries.lookup p with
  | none =>
    cases hs' : s'.entries.lookup p with
    | none => simp [State.contentAt, hs, hs']
    | some node =>
      cases node with
      | file i => simpa [hs] using (h i).mp hs'
      | directory => simp [State.contentAt, hs, hs']
      | special => simp [State.contentAt, hs, hs']
  | some node =>
    cases node with
    | file i => simp [State.contentAt, hs, (h i).mpr hs, hi]
    | directory | special =>
      cases hs' : s'.entries.lookup p with
      | none => simp [State.contentAt, hs, hs']
      | some node =>
        cases node with
        | file i => simpa [hs] using (h i).mp hs'
        | directory => simp [State.contentAt, hs, hs']
        | special => simp [State.contentAt, hs, hs']

end Sizes

section Walk

variable {inodes : List Inode}

theorem walkDirectory_file (entries : Dict Path Node) (here : Path) (parts : List String) (p : Path) (i : Nat) :
    (walkDirectory entries here parts).1.lookup p = some (.file i) ↔ entries.lookup p = some (.file i) := by
  induction parts generalizing entries here with
  | nil => rfl
  | cons part parts ih =>
    cases h : entries.lookup (here ++ [part]) with
    | none =>
      simp only [walkDirectory, h]
      rw [ih]
      by_cases hp : p = here ++ [part]
      · subst hp
        simp [h]
      · rw [AList.lookup_insert_ne hp]
    | some node =>
      cases node with
      | directory =>
        simp only [walkDirectory, h]
        exact ih entries _
      | file j | special => simp only [walkDirectory, h]

/-- The directories that are made count nothing. -/
theorem walkDirectory_total (entries : Dict Path Node) (here : Path) (parts : List String) :
    (walkDirectory entries here parts).1.total (fun _ => nodeSize inodes) =
      entries.total fun _ => nodeSize inodes := by
  induction parts generalizing entries here with
  | nil => rfl
  | cons part parts ih =>
    cases h : entries.lookup (here ++ [part]) with
    | none =>
      simp only [walkDirectory, h]
      rw [ih]
      have hinsert := Dict.total_insert (fun _ => nodeSize inodes) entries (here ++ [part]) .directory
      simpa [Dict.share, h, nodeSize] using hinsert
    | some node =>
      cases node with
      | directory =>
        simp only [walkDirectory, h]
        exact ih entries _
      | file j | special => simp only [walkDirectory, h]

end Walk

/-! ## §F What a step leaves alone -/

section Frames

variable {cfg : Config} {start s s' : State} {a : Nat} {u : Sending}

theorem Made.of_files {pending : Bytes} {t : Path} {i : Nat} (he : s'.entries = s.entries)
    (hi : s'.inodes = s.inodes) (h : Made s a u pending t i) : Made s' a u pending t i :=
  ⟨h.temp, by rw [he]; exact h.entry, by rw [hi]; exact h.inode, by rw [he]; exact h.sole⟩

theorem sizeAt_of_files (he : s'.entries = s.entries) (hi : s'.inodes = s.inodes) (p : Path) :
    s'.sizeAt p = s.sizeAt p := by
  rw [State.sizeAt, he, hi]
  rfl

theorem settledSize_of_files (he : s'.entries = s.entries) (hi : s'.inodes = s.inodes)
    (ht : s'.temp = s.temp) : s'.settledSize = s.settledSize := by
  rw [State.settledSize, he, hi, ht]
  rfl

theorem Counted.of_files (he : s'.entries = s.entries) (hi : s'.inodes = s.inodes) (ht : s'.temp = s.temp)
    (h : Counted cfg s u) : Counted cfg s' u :=
  ⟨h.apart, by rw [sizeAt_of_files he hi]; exact h.old, by rw [settledSize_of_files he hi ht]; exact h.used,
    h.fits⟩

theorem Unmade.of_files (he : s'.entries = s.entries) (h : Unmade s u) : Unmade s' u :=
  ⟨by rw [he]; exact h.temp, h.apart, h.size, h.unread⟩

/-- What the upload relies on is a matter of the files, of the files its process has open, and of its own
call. -/
theorem Held.of_files (he : s'.entries = s.entries) (hi : s'.inodes = s.inodes) (ht : s'.temp = s.temp)
    (hfds : ∀ n i, s.fds.lookup n = some (.file i) → s'.fds.lookup n = some (.file i))
    (hjobs : ∀ job, u.phase = .writing → s.jobs.lookup a = some job →
      ∃ job', s'.jobs.lookup a = some job' ∧ job'.fd = job.fd ∧ job'.data = job.data)
    (h : Held cfg s a u) : Held cfg s' a u := by
  unfold Held at h ⊢
  cases hphase : u.phase with
  | walking todo =>
    rw [hphase] at h
    obtain ⟨hunmade, hold, hused⟩ := h
    have hsize : s'.sizeAt = s.sizeAt := funext (sizeAt_of_files he hi)
    refine ⟨hunmade.of_files he, by rw [hsize]; exact hold, ?_⟩
    rw [hsize, settledSize_of_files he hi ht]
    exact hused
  | opened =>
    rw [hphase] at h
    exact ⟨h.1.of_files he, h.2⟩
  | reading =>
    rw [hphase] at h
    obtain ⟨t, i, n, hmade, hcounted, hfd, hn⟩ := h
    exact ⟨t, i, n, hmade.of_files he hi, hcounted.of_files he hi ht, hfd, hfds n i hn⟩
  | writing =>
    rw [hphase] at h
    obtain ⟨t, i, job, hmade, hcounted, hfd, hn, hjob⟩ := h
    obtain ⟨job', hjob', hsame, hdata⟩ := hjobs job hphase hjob
    refine ⟨t, i, job', ?_, hcounted.of_files he hi ht, by rw [hsame]; exact hfd,
      by rw [hsame]; exact hfds _ _ hn, hjob'⟩
    rw [hdata]
    exact hmade.of_files he hi
  | syncing | synced | closed =>
    rw [hphase] at h
    obtain ⟨t, i, hmade, hcounted, hread⟩ := h
    exact ⟨t, i, hmade.of_files he hi, hcounted.of_files he hi ht, hread⟩
  | locked | cleaning | unlinking | leaving | closing =>
    rw [hphase] at h
    exact h

theorem temp_of_inside (h : s.inside = some (a, u)) : s.temp = u.temp := by
  rw [State.temp, h]
  rfl

theorem temp_of_none (h : s.inside = none) : s.temp = none := by
  rw [State.temp, h]
  rfl

/-- Only the threads of the upload that has the lock have bytes to write, and only while it waits for
them. -/
theorem Invariant.jobs_idle (h : Invariant cfg start s)
    (hnot : ∀ a u, s.inside = some (a, u) → u.phase ≠ .writing) :
    ∀ a job, s.jobs.lookup a = some job → job.data = [] := by
  intro a job hjob
  rcases h.jobs a job hjob with hdata | ⟨u, hin, hphase⟩
  · exact hdata
  · exact absurd hphase (hnot a u hin)

theorem not_writing (hin : s.inside = some (a, u)) (hphase : u.phase ≠ .writing) :
    ∀ b v, s.inside = some (b, v) → v.phase ≠ .writing := by
  intro b v hb
  rw [hin] at hb
  obtain ⟨rfl, rfl⟩ : a = b ∧ u = v := by simpa using hb
  exact hphase

/-- **A step that leaves the files alone.** What is left to show is about the threads and about the upload
that has the lock. -/
theorem Invariant.of_files (h : Invariant cfg start s) (he : s'.entries = s.entries)
    (hi : s'.inodes = s.inodes) (ht : s'.temp = s.temp) (hr : s'.replaced = s.replaced)
    (hw : s'.written = s.written)
    (hjobs : ∀ a job, s'.jobs.lookup a = some job →
      job.data = [] ∨ ∃ u, s'.inside = some (a, u) ∧ u.phase = .writing)
    (hheld : ∀ a u, s'.inside = some (a, u) → Held cfg s' a u) : Invariant cfg start s' where
  bounded := by rw [he, hi]; exact h.bounded
  settled_size := by rw [settledSize_of_files he hi ht]; exact h.settled_size
  files := by
    intro p hp
    rw [contentAt_congr hi (fun i => by rw [he]), hr]
    exact h.files p (by rw [← ht]; exact hp)
  temps := by rw [ht, hr]; exact h.temps
  own := by rw [hw, hi]; exact h.own
  jobs := hjobs
  held := hheld

/-- The upload that has the lock goes on from anywhere but a write, and the files stay as they are. -/
theorem Invariant.go_on {v : Sending} (h : Invariant cfg start s) (hin : s.inside = some (a, u))
    (hphase : u.phase ≠ .writing) (fds : Dict Nat Target) (htemp : v.temp = u.temp)
    (hheld : Held cfg ({ s with fds := fds }.advance a v) a v) :
    Invariant cfg start ({ s with fds := fds }.advance a v) := by
  refine h.of_files rfl rfl ?_ rfl rfl ?_ ?_
  · rw [temp_of_inside hin, ← htemp]
    rfl
  · intro b job hjob
    exact .inl (h.jobs_idle (not_writing hin hphase) b job hjob)
  · intro b w hb
    obtain ⟨rfl, rfl⟩ : a = b ∧ v = w := by simpa [State.advance] using hb
    exact hheld

/-- The lock is let go. -/
theorem Invariant.release (h : Invariant cfg start s) (hin : s.inside = some (a, u))
    (hphase : u.phase ≠ .writing) (htemp : u.temp = none) : Invariant cfg start { s with inside := none } := by
  refine h.of_files rfl rfl ?_ rfl rfl ?_ ?_
  · rw [temp_of_inside hin, htemp]
    rfl
  · intro b job hjob
    exact .inl (h.jobs_idle (not_writing hin hphase) b job hjob)
  · intro b w hb
    simp at hb

end Frames

/-! ## §G The steps of the upload that has the lock -/

section Moves

variable {cfg : Config} {start s s' : State} {a : Nat} {u : Sending}

theorem inside_advance {v : Sending} {b : Nat} {w : Sending} (h : (s.advance a v).inside = some (b, w)) :
    b = a ∧ w = v := by
  obtain ⟨rfl, rfl⟩ : a = b ∧ v = w := by simpa [State.advance] using h
  exact ⟨rfl, rfl⟩

/-- **Directories are made.** Nothing else changes, except that a name which is free may become the temporary
one. -/
theorem Invariant.directories (h : Invariant cfg start s) (hnone : s.temp = none)
    (hfile : ∀ p i, s'.entries.lookup p = some (.file i) ↔ s.entries.lookup p = some (.file i))
    (htotal : s'.treeSize = s.treeSize) (hi : s'.inodes = s.inodes) (hr : s'.replaced = s.replaced)
    (hw : s'.written = s.written) (hfree : ∀ t, s'.temp = some t → s'.entries.lookup t = none)
    (hidle : ∀ a job, s'.jobs.lookup a = some job → job.data = [])
    (hheld : ∀ a u, s'.inside = some (a, u) → Held cfg s' a u) : Invariant cfg start s' where
  bounded := by
    intro p i hp
    rw [hi]
    exact h.bounded p i ((hfile p i).mp hp)
  settled_size := by
    rw [settledSize_eq_treeSize hfree, htotal, ← settledSize_eq_treeSize fun t ht => by simp [hnone] at ht]
    exact h.settled_size
  files := by
    intro p _
    rw [contentAt_congr hi (hfile p), hr]
    exact h.files p (by simp [hnone])
  temps := by
    intro p hp
    have hcontent : s'.contentAt p = none := by simp [State.contentAt, hfree p hp]
    rw [hr, ← h.files p (by simp [hnone]), ← contentAt_congr hi (hfile p)]
    exact hcontent
  own := by rw [hw, hi]; exact h.own
  jobs := fun a job hjob => .inl (hidle a job hjob)
  held := hheld

theorem openParent_keeps {fd : Nat} {name : String} (h : Invariant cfg start s)
    (hin : s.inside = some (a, u)) (hphase : u.phase = .locked)
    (hs : openParent s a u fd name = some s') : Invariant cfg start s' := by
  have hheld := h.held a u hin
  rw [Held, hphase] at hheld
  obtain ⟨htemp, hsize, hunread, hused⟩ := hheld
  unfold openParent at hs
  simp only at hs
  split at hs
  case isFalse => simp at hs
  case isTrue hcond =>
    obtain ⟨-, -, hfree, hapart⟩ := hcond
    obtain rfl := (Option.some.inj hs).symm
    refine h.directories (by rw [temp_of_inside hin, htemp]) (fun p i => walkDirectory_file _ _ _ p i)
      (walkDirectory_total _ _ _) rfl rfl rfl ?_ ?_ ?_
    · intro t ht
      obtain rfl : u.request.dest.dropLast ++ [name] = t := by simpa [State.temp, State.advance] using ht
      exact hfree
    · exact h.jobs_idle (not_writing hin (by simp [hphase]))
    · intro b v hb
      obtain ⟨rfl, rfl⟩ := inside_advance hb
      exact ⟨⟨⟨_, rfl, hfree⟩, by simpa using hapart, hsize, hunread⟩, hused⟩

theorem refuse_keeps (k : Nat) (h : Invariant cfg start s) (hin : s.inside = some (a, u))
    (hphase : u.phase = .locked) :
    Invariant cfg start { s with
      entries := (walkDirectory s.entries [] (u.request.dest.dropLast.take k)).1
      inside := none } := by
  have hheld := h.held a u hin
  rw [Held, hphase] at hheld
  refine h.directories (by rw [temp_of_inside hin, hheld.1]) (fun p i => walkDirectory_file _ _ _ p i)
    (walkDirectory_total _ _ _) rfl rfl rfl ?_ ?_ ?_
  · intro t ht
    simp [State.temp] at ht
  · exact h.jobs_idle (not_writing hin (by simp [hphase]))
  · intro b v hb
    simp at hb

theorem existingRegularSize_keeps (h : Invariant cfg start s) (hin : s.inside = some (a, u))
    (hphase : u.phase = .opened) : Invariant cfg start (existingRegularSize s a u) := by
  have hheld := h.held a u hin
  rw [Held, hphase] at hheld
  obtain ⟨hunmade, hused⟩ := hheld
  obtain ⟨t, htemp, hfree⟩ := hunmade.temp
  have hnot : u.phase ≠ .writing := by simp [hphase]
  -- before the temporary file is made, all files are settled
  have hwalk : ∀ v : Sending, v.temp = u.temp → tally (s.advance a v).sizeAt s.entries.keys =
      (s.advance a v).settledSize := by
    intro v hv
    refine (treeSize_eq_tally (s.advance a v)).trans (settledSize_eq_treeSize ?_).symm
    intro p hp
    obtain rfl : t = p := by simpa [State.temp, State.advance, hv, htemp] using hp
    exact hfree
  unfold existingRegularSize
  split
  · next hdest =>
    refine h.go_on hin hnot s.fds rfl ⟨⟨hunmade.temp, hunmade.apart, hunmade.size, hunmade.unread⟩, ?_, ?_⟩
    · exact (sizeAt_of_none hdest).symm
    · rw [show u.used = 0 from hused, Nat.zero_add]
      exact hwalk _ rfl
  · next i hdest =>
    refine h.go_on hin hnot s.fds rfl ⟨⟨hunmade.temp, hunmade.apart, hunmade.size, hunmade.unread⟩, ?_, ?_⟩
    · simp [State.sizeAt, Dict.share, State.advance, hdest]
    · rw [show u.used = 0 from hused, Nat.zero_add]
      exact hwalk _ rfl
  · exact h.go_on hin hnot s.fds rfl trivial

theorem count_keeps {p : Path} {todo : List Path} (h : Invariant cfg start s)
    (hin : s.inside = some (a, u)) (hphase : u.phase = .walking (p :: todo)) :
    Invariant cfg start (s.advance a { u with phase := .walking todo, used := u.used + s.sizeAt p }) := by
  have hheld := h.held a u hin
  rw [Held, hphase] at hheld
  obtain ⟨hunmade, hold, hused⟩ := hheld
  refine h.go_on hin (by simp [hphase]) s.fds rfl
    ⟨⟨hunmade.temp, hunmade.apart, hunmade.size, hunmade.unread⟩, hold, ?_⟩
  rw [tally_cons, ← Nat.add_assoc] at hused
  refine hused.trans (settledSize_of_files rfl rfl ?_)
  rw [temp_of_inside hin]
  rfl

section Create

variable {t : Path} (fd : Nat)

theorem nodeSize_create (h : Invariant cfg start s) {p : Path} {node : Node}
    (hp : s.entries.lookup p = some node) :
    nodeSize (s.create a t fd).inodes node = nodeSize s.inodes node := by
  cases node with
  | file i => simp [nodeSize, State.create, List.getElem?_append_left (h.bounded p i hp)]
  | directory | special => rfl

theorem sizeAt_create (h : Invariant cfg start s) {p : Path} (hp : p ≠ t) :
    (s.create a t fd).sizeAt p = s.sizeAt p := by
  simp only [State.sizeAt, Dict.share]
  rw [State.create, AList.lookup_insert_ne hp]
  cases hnode : s.entries.lookup p with
  | none => rfl
  | some node => exact nodeSize_create fd h hnode

theorem contentAt_create (h : Invariant cfg start s) {p : Path} (hp : p ≠ t) :
    (s.create a t fd).contentAt p = s.contentAt p := by
  simp only [State.contentAt, State.create]
  rw [AList.lookup_insert_ne hp]
  cases hnode : s.entries.lookup p with
  | none => rfl
  | some node =>
    cases node with
    | file i => simp [List.getElem?_append_left (h.bounded p i hnode)]
    | directory | special => rfl

theorem settledSize_create {v : Sending} (h : Invariant cfg start s) (hst : s.temp = some t)
    (hfree : s.entries.lookup t = none) (hv : v.temp = some t) :
    ((s.create a t fd).advance a v).settledSize = s.settledSize := by
  have htemp : ((s.create a t fd).advance a v).temp = some t := hv
  rw [State.settledSize, State.settledSize, htemp, hst]
  have hinsert := Dict.total_insert (fun p node => if some t = some p then 0 else
    nodeSize (s.create a t fd).inodes node) s.entries t (.file s.inodes.length)
  simp only [Dict.share, hfree, Option.elim_none, if_true, Nat.add_zero] at hinsert
  refine hinsert.trans (Dict.total_congr fun p node hp => ?_)
  rw [nodeSize_create fd h hp]

variable {fd} in
/-- **The temporary file is made**, under a name and with an inode of its own. -/
theorem openTemp_keeps (h : Invariant cfg start s) (hin : s.inside = some (a, u))
    (hphase : u.phase = .walking []) (hs : openTemp s a u fd = some s') : Invariant cfg start s' := by
  have hheld := h.held a u hin
  rw [Held, hphase] at hheld
  obtain ⟨hunmade, hold, hused⟩ := hheld
  obtain ⟨t, htemp, hfree⟩ := hunmade.temp
  have hst : s.temp = some t := by rw [temp_of_inside hin, htemp]
  have hne : u.request.dest ≠ t := by
    rintro rfl
    exact hunmade.apart htemp
  rw [openTemp, htemp] at hs
  simp only at hs
  split at hs
  case isFalse => simp at hs
  case isTrue hcond =>
    obtain rfl := (Option.some.inj hs).symm
    constructor
    · intro p i hp
      rw [State.advance, State.create, List.length_append, List.length_singleton]
      rcases Dict.lookup_insert_cases hp with ⟨-, hi⟩ | ⟨-, hp⟩
      · obtain rfl : i = s.inodes.length := by simpa using hi
        omega
      · have := h.bounded p i hp
        omega
    · rw [settledSize_create fd h hst hfree rfl]
      exact h.settled_size
    · intro p hp
      have hpt : p ≠ t := by
        rintro rfl
        exact hp rfl
      exact (contentAt_create fd h hpt).trans (h.files p (by rw [hst]; simpa using hpt.symm))
    · intro p hp
      refine h.temps p ?_
      rw [hst]
      exact hp
    · intro w hw
      obtain ⟨i, inode, t', htarget, hi, hcreator, hnames⟩ := h.own w hw
      refine ⟨i, inode, t', htarget, ?_, hcreator, hnames⟩
      rw [State.advance, State.create, List.getElem?_append_left (List.getElem?_eq_some_iff.mp hi).1]
      exact hi
    · intro b job hjob
      exact .inl (h.jobs_idle (not_writing hin (by simp [hphase])) b job hjob)
    · intro b v hb
      obtain ⟨rfl, rfl⟩ := inside_advance hb
      refine ⟨t, s.inodes.length, fd, ⟨rfl, ?_, ⟨[], ?_, ?_, ?_⟩, ?_⟩, ⟨?_, ?_, ?_, ?_⟩, rfl, ?_⟩
      · simp [State.advance, State.create]
      · simp [State.advance, State.create]
      · simpa using hunmade.unread
      · exact hunmade.size
      · intro p hp
        rcases Dict.lookup_insert_cases hp with ⟨hp, -⟩ | ⟨-, hp⟩
        · exact hp
        · exact absurd (h.bounded p _ hp) (by omega)
      · simpa using hne.symm
      · exact hold.trans (sizeAt_create fd h hne).symm
      · rw [settledSize_create fd h hst hfree rfl]
        simpa using hused
      · exact .inl hunmade.size
      · simp [State.advance, State.create]

end Create

end Moves

section Chunks

variable {cfg : Config} {start s s' : State} {a : Nat} {u : Sending}

/-- **A chunk is read.** It is within the quota, or the upload ends. -/
theorem readChunk_keeps {k : Nat} (h : Invariant cfg start s) (hin : s.inside = some (a, u))
    (hphase : u.phase = .reading) (hs : readChunk cfg s a u k = some s') : Invariant cfg start s' := by
  have hheld := h.held a u hin
  rw [Held, hphase] at hheld
  obtain ⟨t, i, n, hmade, hcounted, hfd, hn⟩ := hheld
  have hnot : u.phase ≠ .writing := by simp [hphase]
  rw [readChunk, hfd] at hs
  simp only at hs
  split at hs
  case isFalse => simp at hs
  case isTrue hk =>
    split at hs
    case isTrue =>
      obtain rfl := (Option.some.inj hs).symm
      exact h.go_on hin hnot s.fds rfl trivial
    case isFalse =>
      split at hs
      case isTrue =>
        obtain rfl := (Option.some.inj hs).symm
        exact h.go_on hin hnot s.fds rfl trivial
      case isFalse hquota =>
        obtain rfl := (Option.some.inj hs).symm
        have htemp : s.temp = u.temp := temp_of_inside hin
        refine h.of_files rfl rfl htemp.symm rfl rfl ?_ ?_
        · intro b job hjob
          rcases Dict.lookup_insert_cases hjob with ⟨rfl, -⟩ | ⟨-, hjob⟩
          · exact .inr ⟨_, rfl, rfl⟩
          · exact .inl (h.jobs_idle (not_writing hin hnot) b job hjob)
        · intro b v hb
          obtain ⟨rfl, rfl⟩ := inside_advance hb
          obtain ⟨content, hi, hsplit, hsize⟩ := hmade.inode
          refine ⟨t, i, ⟨n, u.unread.take k, false⟩, ⟨hmade.temp, hmade.entry, ⟨content, hi, ?_, ?_⟩, hmade.sole⟩,
            ⟨hcounted.apart, hcounted.old, ?_, ?_⟩, rfl, hn, ?_⟩
          · simpa [List.append_assoc] using hsplit
          · simp only [List.length_take, List.length_nil] at hsize ⊢
            omega
          · exact hcounted.used.trans (settledSize_of_files rfl rfl htemp)
          · simp only at hquota ⊢
            omega
          · simp [State.advance]

/-- The cancelled upload leaves the call to its thread, or takes it back. -/
theorem cancelWriting_keeps (h : Invariant cfg start s) (hin : s.inside = some (a, u))
    (hquiet : ∀ job, s.jobs.lookup a = some job → job.running = true → job.data = []) :
    Invariant cfg start ((dropQueued s a).advance a { u with phase := .cleaning }) := by
  have hother : ∀ b job, b ≠ a → s.jobs.lookup b = some job → job.data = [] := by
    intro b job hne hjob
    rcases h.jobs b job hjob with hdata | ⟨v, hv, -⟩
    · exact hdata
    · rw [hin] at hv
      obtain ⟨rfl, -⟩ : a = b ∧ u = v := by simpa using hv
      exact absurd rfl hne
  have hidle : ∀ b job, (dropQueued s a).jobs.lookup b = some job → job.data = [] := by
    intro b job hjob
    unfold dropQueued at hjob
    split at hjob
    case h_1 mine hmine =>
      split at hjob
      case isTrue hrunning =>
        by_cases hb : b = a
        · subst hb
          exact hquiet job hjob (by rw [← Option.some.inj (hmine.symm.trans hjob)]; exact hrunning)
        · exact hother b job hb hjob
      case isFalse =>
        obtain ⟨hne, hjob⟩ := Dict.lookup_erase_cases hjob
        exact hother b job hne hjob
    case h_2 hnone =>
      refine hother b job ?_ hjob
      rintro rfl
      simp [hnone] at hjob
  have hsame : (dropQueued s a).entries = s.entries ∧ (dropQueued s a).inodes = s.inodes ∧
      (dropQueued s a).replaced = s.replaced ∧ (dropQueued s a).written = s.written := by
    unfold dropQueued
    split
    · split <;> exact ⟨rfl, rfl, rfl, rfl⟩
    · exact ⟨rfl, rfl, rfl, rfl⟩
  refine h.of_files hsame.1 hsame.2.1 (temp_of_inside hin).symm hsame.2.2.1 hsame.2.2.2 ?_ ?_
  · intro b job hjob
    exact .inl (hidle b job hjob)
  · intro b v hb
    obtain ⟨rfl, rfl⟩ := inside_advance hb
    trivial

end Chunks

section Replace

variable {cfg : Config} {start s s' : State} {a : Nat} {u : Sending} {t : Path} {i : Nat}

theorem settled_cons_ne {replaced : List (Nat × Request)} {e : Nat × Request} {p : Path}
    (h : e.2.dest ≠ p) : settled start (e :: replaced) p = settled start replaced p := by
  simp [settled, h]

theorem settled_cons_self (replaced : List (Nat × Request)) (e : Nat × Request) :
    settled start (e :: replaced) e.2.dest = some e.2.content := by
  simp [settled]

/-- Renamed to its destination, the file counts there instead of the old one. -/
theorem settledSize_rename {r : Request} {v : Sending} (hst : s.temp = some t) (hne : r.dest ≠ t)
    (hv : v.temp = some t) :
    ((s.rename a r t (.file i)).advance a v).settledSize + s.sizeAt r.dest =
      s.settledSize + nodeSize s.inodes (.file i) := by
  have htemp : ((s.rename a r t (.file i)).advance a v).temp = some t := hv
  rw [State.settledSize, State.settledSize, htemp, hst]
  have hinsert := Dict.total_insert (fun p node => if some t = some p then 0 else nodeSize s.inodes node)
    (s.entries.erase t) r.dest (.file i)
  have herase := Dict.total_erase (fun p node => if some t = some p then 0 else nodeSize s.inodes node)
    s.entries t
  have hold : Dict.share (fun p node => if some t = some p then 0 else nodeSize s.inodes node)
      (s.entries.erase t) r.dest = s.sizeAt r.dest := by
    simp only [Dict.share, State.sizeAt]
    rw [AList.lookup_erase_ne hne]
    cases s.entries.lookup r.dest with
    | none => rfl
    | some node => simp [hne.symm]
  have hgone : Dict.share (fun p node => if some t = some p then 0 else nodeSize s.inodes node)
      s.entries t = 0 := by
    simp only [Dict.share, if_true]
    cases s.entries.lookup t <;> rfl
  have hnew : (if some t = some r.dest then 0 else nodeSize s.inodes (.file i)) =
      nodeSize s.inodes (.file i) := by simp [hne.symm]
  rw [hold, hnew] at hinsert
  rw [hgone, Nat.add_zero] at herase
  rw [herase] at hinsert
  exact hinsert

/-- **The destination is replaced** by the whole content, and the quota still holds. -/
theorem replace_keeps (h : Invariant cfg start s) (hin : s.inside = some (a, u))
    (hphase : u.phase = .closed) (hs : replace s a u = some s') : Invariant cfg start s' := by
  have hheld := h.held a u hin
  rw [Held, hphase] at hheld
  obtain ⟨t, i, hmade, hcounted, hread⟩ := hheld
  obtain ⟨content, hi, hsplit, hsize⟩ := hmade.inode
  have hst : s.temp = some t := by rw [temp_of_inside hin, hmade.temp]
  have hnot : u.phase ≠ .writing := by simp [hphase]
  have hne : u.request.dest ≠ t := by
    rintro rfl
    exact hcounted.apart hmade.temp
  have hwhole : content = u.request.content := by simpa [hread] using hsplit
  simp only [replace, hmade.temp, Option.bind_some, hmade.entry] at hs
  split at hs
  case h_1 | h_2 =>
    obtain rfl := (Option.some.inj hs).symm
    exact h.go_on hin hnot s.fds hmade.temp.symm trivial
  case h_3 =>
    obtain rfl := (Option.some.inj hs).symm
    constructor
    · intro p j hp
      rcases Dict.lookup_insert_cases hp with ⟨-, hj⟩ | ⟨-, hp⟩
      · obtain rfl : j = i := by simpa using hj
        exact (List.getElem?_eq_some_iff.mp hi).1
      · exact h.bounded p j (Dict.lookup_erase_cases hp).2
    · have hfits := hcounted.fits
      have hused := hcounted.used
      have hold := hcounted.old
      have hquota := h.settled_size
      have hrename := settledSize_rename (a := a) (i := i) (r := u.request)
        (v := ⟨u.request, .cleaning, some t, u.parentFd, u.fd, u.oldSize, u.used, u.size, u.unread⟩) hst hne rfl
      have hlength : nodeSize s.inodes (.file i) = u.size := by simpa [nodeSize, hi] using hsize.symm
      omega
    · intro p hp
      by_cases hdest : p = u.request.dest
      · subst hdest
        refine Eq.trans ?_ (settled_cons_self s.replaced (a, u.request)).symm
        simp [State.contentAt, State.advance, State.rename, hi, hwhole]
      · have hpt : p ≠ t := by
          rintro rfl
          exact hp rfl
        refine Eq.trans ?_ ((h.files p (by rw [hst]; simpa using hpt.symm)).trans
          (settled_cons_ne (e := (a, u.request)) (Ne.symm hdest)).symm)
        refine contentAt_congr rfl fun j => ?_
        simp only [State.advance, State.rename]
        rw [AList.lookup_insert_ne hdest, AList.lookup_erase_ne hpt]
    · intro p hp
      obtain rfl : t = p := by simpa [State.temp, State.advance] using hp
      exact (settled_cons_ne (e := (a, u.request)) hne).trans (h.temps t hst)
    · exact h.own
    · intro b job hjob
      exact .inl (h.jobs_idle (not_writing hin hnot) b job hjob)
    · intro b v hb
      obtain ⟨rfl, rfl⟩ := inside_advance hb
      trivial

/-- **The temporary name is gone**, whether there was a file or not. -/
theorem unlink_keeps (h : Invariant cfg start s) (hin : s.inside = some (a, u)) (htemp : u.temp = some t)
    (hphase : u.phase ≠ .writing) :
    Invariant cfg start ({ s with entries := s.entries.erase t }.advance a
      { u with phase := .leaving, temp := none }) := by
  have hst : s.temp = some t := by rw [temp_of_inside hin, htemp]
  constructor
  · intro p i hp
    exact h.bounded p i (Dict.lookup_erase_cases hp).2
  · refine Nat.le_trans (Nat.le_of_eq ?_) h.settled_size
    have herase := Dict.total_erase (fun p node => if some t = some p then 0 else nodeSize s.inodes node)
      s.entries t
    have hgone : Dict.share (fun p node => if some t = some p then 0 else nodeSize s.inodes node)
        s.entries t = 0 := by
      simp only [Dict.share, if_true]
      cases s.entries.lookup t <;> rfl
    rw [hgone, Nat.add_zero] at herase
    refine Eq.trans (Dict.total_congr fun p node hp => ?_) (herase.trans ?_)
    · have hpt : p ≠ t := (Dict.lookup_erase_cases hp).1
      simp [State.temp, State.advance, hpt.symm]
    · rw [State.settledSize, hst]
  · intro p _
    by_cases hp : p = t
    · subst hp
      refine Eq.trans ?_ (h.temps p hst).symm
      simp [State.contentAt, State.advance]
    · refine Eq.trans ?_ (h.files p (by rw [hst]; simpa using Ne.symm hp))
      refine contentAt_congr rfl fun j => ?_
      simp only [State.advance]
      rw [AList.lookup_erase_ne hp]
  · intro p hp
    simp [State.temp, State.advance] at hp
  · exact h.own
  · intro b job hjob
    exact .inl (h.jobs_idle (not_writing hin hphase) b job hjob)
  · intro b v hb
    obtain ⟨rfl, rfl⟩ := inside_advance hb
    rfl

end Replace

section Act

variable {cfg : Config} {start s s' : State} {a : Nat} {u : Sending} {move : Move}

/-- **The step lemma** of the upload that has the lock. -/
theorem act_keeps (h : Invariant cfg start s) (hin : s.inside = some (a, u))
    (hquiet : Quiet s (.move move)) (hs : act cfg s a u move = some s') : Invariant cfg start s' := by
  have hheld := h.held a u hin
  unfold act at hs
  split at hs
  case h_1 hphase => exact openParent_keeps h hin hphase hs
  case h_2 hphase =>
    obtain rfl := (Option.some.inj hs).symm
    exact refuse_keeps _ h hin hphase
  case h_3 hphase =>
    obtain rfl := (Option.some.inj hs).symm
    exact existingRegularSize_keeps h hin hphase
  case h_4 hphase =>
    obtain rfl := (Option.some.inj hs).symm
    exact count_keeps h hin hphase
  case h_5 hphase => exact openTemp_keeps h hin hphase hs
  case h_6 hphase => exact readChunk_keeps h hin hphase hs
  case h_7 hphase =>
    rw [Held, hphase] at hheld
    obtain ⟨t, i, n, hmade, hcounted, -, -⟩ := hheld
    split at hs
    case isFalse => simp at hs
    case isTrue hread =>
      obtain rfl := (Option.some.inj hs).symm
      have htemp : s.temp = u.temp := temp_of_inside hin
      exact h.go_on hin (by simp [hphase]) s.fds rfl
        ⟨t, i, ⟨hmade.temp, hmade.entry, hmade.inode, hmade.sole⟩, ⟨hcounted.apart, hcounted.old,
          hcounted.used.trans (settledSize_of_files rfl rfl htemp), hcounted.fits⟩, hread⟩
  case h_8 hphase =>
    rw [Held, hphase] at hheld
    obtain ⟨t, i, hmade, hcounted, hread⟩ := hheld
    obtain rfl := (Option.some.inj hs).symm
    have htemp : s.temp = u.temp := temp_of_inside hin
    exact h.go_on hin (by simp [hphase]) s.fds rfl
      ⟨t, i, ⟨hmade.temp, hmade.entry, hmade.inode, hmade.sole⟩, ⟨hcounted.apart, hcounted.old,
        hcounted.used.trans (settledSize_of_files rfl rfl htemp), hcounted.fits⟩, hread⟩
  case h_9 hphase =>
    rw [Held, hphase] at hheld
    obtain ⟨t, i, hmade, hcounted, hread⟩ := hheld
    obtain ⟨fd, -, rfl⟩ := Option.map_eq_some_iff.mp hs
    have htemp : s.temp = u.temp := temp_of_inside hin
    exact h.go_on hin (by simp [hphase]) (s.fds.erase fd) rfl
      ⟨t, i, ⟨hmade.temp, hmade.entry, hmade.inode, hmade.sole⟩, ⟨hcounted.apart, hcounted.old,
        hcounted.used.trans (settledSize_of_files rfl rfl htemp), hcounted.fits⟩, hread⟩
  case h_10 hphase => exact replace_keeps h hin hphase hs
  case h_11 hphase =>
    split at hs
    case h_1 fd _ =>
      obtain rfl := (Option.some.inj hs).symm
      exact h.go_on hin (by simp [hphase]) (s.fds.erase fd) rfl trivial
    case h_2 =>
      obtain rfl := (Option.some.inj hs).symm
      exact h.go_on hin (by simp [hphase]) s.fds rfl trivial
  case h_12 hphase =>
    obtain ⟨t, htemp, rfl⟩ := Option.map_eq_some_iff.mp hs
    exact unlink_keeps h hin htemp (by simp [hphase])
  case h_13 hphase =>
    rw [Held, hphase] at hheld
    obtain ⟨fd, -, rfl⟩ := Option.map_eq_some_iff.mp hs
    exact h.go_on hin (by simp [hphase]) (s.fds.erase fd) rfl hheld
  case h_14 hphase =>
    rw [Held, hphase] at hheld
    obtain rfl := (Option.some.inj hs).symm
    exact h.release hin (by simp [hphase]) hheld
  case h_15 hphase | h_16 hphase | h_17 hphase | h_18 hphase | h_19 hphase | h_20 hphase | h_21 hphase
      | h_22 hphase =>
    obtain rfl := (Option.some.inj hs).symm
    exact h.go_on hin (by simp [hphase]) s.fds rfl trivial
  case h_23 hphase =>
    obtain rfl := (Option.some.inj hs).symm
    refine cancelWriting_keeps h hin fun job hjob hrunning => ?_
    exact hquiet (a, u) (by simp [hin]) hphase job (by simp [hjob]) hrunning
  case h_24 hphase =>
    rw [Held, hphase] at hheld
    obtain rfl := (Option.some.inj hs).symm
    exact h.release hin (by simp [hphase]) hheld
  case h_25 => simp at hs

end Act

/-! ## §H The steps of the threads and of the process -/

section Threads

variable {cfg : Config} {start s s' : State} {a : Nat} {u : Sending} {job : Job}

/-- Uploads come and go at the lock, and the process opens and closes what is its own. -/
theorem Invariant.aside (h : Invariant cfg start s) (fds : Dict Nat Target) (waiting : Dict Nat Request)
    (next : Nat) (hfds : ∀ n i, s.fds.lookup n = some (.file i) → fds.lookup n = some (.file i)) :
    Invariant cfg start { s with fds := fds, waiting := waiting, next := next } :=
  h.of_files rfl rfl rfl rfl rfl h.jobs fun a u hin =>
    Held.of_files (s := s) rfl rfl rfl hfds (fun job _ hjob => ⟨job, hjob, rfl, rfl⟩) (h.held a u hin)

theorem acquire_keeps {r : Request} {waiting : Dict Nat Request} (h : Invariant cfg start s)
    (hin : s.inside = none) : Invariant cfg start ({ s with waiting := waiting }.advance a (begun r)) := by
  refine h.of_files rfl rfl ?_ rfl rfl ?_ ?_
  · rw [temp_of_none hin]
    rfl
  · intro b job hjob
    exact .inl (h.jobs_idle (fun b v hb => by simp [hin] at hb) b job hjob)
  · intro b v hb
    obtain ⟨rfl, rfl⟩ := inside_advance hb
    exact ⟨rfl, rfl, rfl, rfl⟩

theorem start_keeps (h : Invariant cfg start s) (hjob : s.jobs.lookup a = some job) :
    Invariant cfg start { s with jobs := s.jobs.insert a { job with running := true } } := by
  refine h.of_files rfl rfl rfl rfl rfl ?_ ?_
  · intro b job' hb
    rcases Dict.lookup_insert_cases hb with ⟨rfl, rfl⟩ | ⟨-, hb⟩
    · exact h.jobs b job hjob
    · exact h.jobs b job' hb
  · intro b v hin
    refine Held.of_files (s := s) rfl rfl rfl (fun _ _ hn => hn) (fun job' _ hb => ?_) (h.held b v hin)
    by_cases hba : b = a
    · subst hba
      obtain rfl : job = job' := Option.some.inj (hjob.symm.trans hb)
      exact ⟨{ job with running := true }, AList.lookup_insert _, rfl, rfl⟩
    · exact ⟨job', by simpa [AList.lookup_insert_ne hba] using hb, rfl, rfl⟩

/-- The call is over; the upload that awaits it goes on, or to its end. -/
theorem jobOver_keeps {phase : Phase} (h : Invariant cfg start s) (hjob : s.jobs.lookup a = some job)
    (hphase : phase = .cleaning ∨ phase = .reading ∧ job.data = []) :
    Invariant cfg start (jobOver s a phase) := by
  have hjobs : ∀ b job', (s.jobs.erase a).lookup b = some job' →
      job'.data = [] ∨ ∃ v, s.inside = some (b, v) ∧ v.phase = .writing := fun b job' hb =>
    h.jobs b job' (Dict.lookup_erase_cases hb).2
  -- while the upload awaits another call or none, it does not notice
  have haside : (∀ v, s.inside = some (a, v) → v.phase ≠ .writing) →
      Invariant cfg start { s with jobs := s.jobs.erase a } := by
    intro hnot
    refine h.of_files rfl rfl rfl rfl rfl hjobs fun b v hin => ?_
    refine Held.of_files (s := s) rfl rfl rfl (fun _ _ hn => hn) (fun job' hwriting hb => ?_) (h.held b v hin)
    have hba : b ≠ a := by
      rintro rfl
      exact hnot v hin hwriting
    exact ⟨job', by simpa [AList.lookup_erase_ne hba] using hb, rfl, rfl⟩
  unfold jobOver
  simp only
  split
  case h_2 hnone => exact haside fun v hv => by simp [hnone] at hv
  case h_1 b v hin =>
    split
    case isFalse hother =>
      refine haside fun w hw hwriting => hother ?_
      rw [hin] at hw
      obtain ⟨rfl, rfl⟩ : b = a ∧ v = w := by simpa using hw
      exact ⟨rfl, hwriting⟩
    case isTrue hmine =>
      obtain ⟨rfl, hwriting⟩ := hmine
      have hheld := h.held b v hin
      rw [Held, hwriting] at hheld
      obtain ⟨t, i, mine, hmade, hcounted, hfd, hn, hlook⟩ := hheld
      obtain rfl : job = mine := Option.some.inj (hjob.symm.trans hlook)
      have htemp : s.temp = v.temp := temp_of_inside hin
      refine h.of_files rfl rfl htemp.symm rfl rfl ?_ ?_
      · intro c job' hc
        obtain ⟨hne, hc⟩ := Dict.lookup_erase_cases hc
        rcases h.jobs c job' hc with hdata | ⟨w, hw, -⟩
        · exact .inl hdata
        · rw [hin] at hw
          obtain ⟨rfl, -⟩ : b = c ∧ v = w := by simpa using hw
          exact absurd rfl hne
      · intro c w hc
        obtain ⟨rfl, rfl⟩ := inside_advance hc
        rcases hphase with rfl | ⟨rfl, hdata⟩
        · trivial
        · rw [hdata] at hmade
          exact ⟨t, i, job.fd, ⟨hmade.temp, hmade.entry, hmade.inode, hmade.sole⟩, ⟨hcounted.apart,
            hcounted.old, hcounted.used.trans (settledSize_of_files rfl rfl htemp), hcounted.fits⟩, hfd, hn⟩

theorem nodeSize_modify_ne {inodes : List Inode} {i : Nat} {f : Inode → Inode} {node : Node}
    (h : node ≠ .file i) : nodeSize (inodes.modify i f) node = nodeSize inodes node := by
  cases node with
  | file j =>
    have hij : i ≠ j := by
      rintro rfl
      exact h rfl
    simp [nodeSize, hij]
  | directory | special => rfl

/-- **A write goes to the temporary file of its own upload.** -/
theorem write_keeps {k : Nat} (h : Invariant cfg start s) (hjob : s.jobs.lookup a = some job)
    (hk : 1 ≤ k) (hlength : k ≤ job.data.length) : Invariant cfg start (writeBytes s a job k) := by
  rcases h.jobs a job hjob with hdata | ⟨u, hin, hphase⟩
  · rw [hdata, List.length_nil] at hlength
    omega
  have hheld := h.held a u hin
  rw [Held, hphase] at hheld
  obtain ⟨t, i, mine, hmade, hcounted, hfd, hn, hlook⟩ := hheld
  obtain rfl : job = mine := Option.some.inj (hjob.symm.trans hlook)
  obtain ⟨content, hi, hsplit, hsize⟩ := hmade.inode
  have hst : s.temp = some t := by rw [temp_of_inside hin, hmade.temp]
  have hne : u.request.dest ≠ t := by
    rintro rfl
    exact hcounted.apart hmade.temp
  have hwritten : (writeBytes s a job k) = { s with
      jobs := s.jobs.insert a { job with data := job.data.drop k }
      inodes := s.inodes.modify i fun inode => inode.append (job.data.take k)
      written := ⟨a, .file i, s.namesOf (.file i)⟩ :: s.written } := by
    simp only [writeBytes, hn]
  -- the files under other names are other files
  have hnode : ∀ p node, p ≠ t → s.entries.lookup p = some node →
      nodeSize (writeBytes s a job k).inodes node = nodeSize s.inodes node := by
    rintro p node hpt hp
    rw [hwritten]
    refine nodeSize_modify_ne ?_
    rintro rfl
    exact hpt (hmade.sole p hp)
  have hentries : (writeBytes s a job k).entries = s.entries := by rw [hwritten]
  have htemp : (writeBytes s a job k).temp = some t := by rw [← hst, hwritten]; rfl
  have hsettled : (writeBytes s a job k).settledSize = s.settledSize := by
    rw [State.settledSize, State.settledSize, hentries, htemp, hst]
    refine Dict.total_congr fun p node hp => ?_
    by_cases hpt : p = t
    · simp [hpt]
    · rw [hnode p node hpt hp]
  have hinode : (writeBytes s a job k).inodes[i]? = some ⟨content ++ job.data.take k, some (a, t)⟩ := by
    rw [hwritten]
    simp [hi, Inode.append]
  constructor
  · intro p j hp
    rw [hentries] at hp
    rw [hwritten, List.length_modify]
    exact h.bounded p j hp
  · rw [hsettled]
    exact h.settled_size
  · intro p hp
    have hpt : p ≠ t := by
      rintro rfl
      exact hp htemp
    have hreplaced : (writeBytes s a job k).replaced = s.replaced := by rw [hwritten]
    rw [hreplaced, ← h.files p (by rw [hst]; simpa using hpt.symm)]
    rw [State.contentAt, State.contentAt, hentries]
    cases hlook : s.entries.lookup p with
    | none => rfl
    | some node =>
      cases node with
      | file j =>
        have hij : i ≠ j := by
          rintro rfl
          exact hpt (hmade.sole p hlook)
        simp [hwritten, hij]
      | directory | special => rfl
  · intro p hp
    have hreplaced : (writeBytes s a job k).replaced = s.replaced := by rw [hwritten]
    rw [hreplaced]
    exact h.temps p (by rw [hst, ← htemp]; exact hp)
  · intro w hw
    have hcases : w = ⟨a, .file i, s.namesOf (.file i)⟩ ∨ w ∈ s.written := by
      rw [hwritten] at hw
      simpa using hw
    rcases hcases with rfl | hw
    · refine ⟨i, _, t, rfl, hinode, rfl, fun p hp => ?_⟩
      exact hmade.sole p (by simpa [State.namesOf] using (List.mem_filter.mp hp).2)
    · obtain ⟨j, inode, t', htarget, hj, hcreator, hnames⟩ := h.own w hw
      by_cases hij : i = j
      · subst hij
        rw [hi] at hj
        obtain rfl := Option.some.inj hj
        exact ⟨i, _, t', htarget, hinode, hcreator, hnames⟩
      · exact ⟨j, inode, t', htarget, by simp [hwritten, hij, hj], hcreator, hnames⟩
  · intro b job' hb
    rw [hwritten] at hb ⊢
    rcases Dict.lookup_insert_cases hb with ⟨rfl, -⟩ | ⟨-, hb⟩
    · exact .inr ⟨u, hin, hphase⟩
    · exact h.jobs b job' hb
  · intro b v hb
    have hsame : s.inside = some (b, v) := by
      rw [hwritten] at hb
      exact hb
    rw [hin] at hsame
    obtain ⟨rfl, rfl⟩ : a = b ∧ u = v := by simpa using hsame
    rw [Held, hphase]
    refine ⟨t, i, { job with data := job.data.drop k }, ⟨hmade.temp, by rw [hentries]; exact hmade.entry,
      ⟨_, hinode, ?_, ?_⟩, by rw [hentries]; exact hmade.sole⟩, ⟨hcounted.apart, ?_, ?_, hcounted.fits⟩, hfd,
      ?_, ?_⟩
    · simpa [List.append_assoc] using hsplit
    · simp only [List.length_append, List.length_take, List.length_drop]
      omega
    · rw [hcounted.old, State.sizeAt, State.sizeAt, Dict.share, Dict.share, hentries]
      cases hlook : s.entries.lookup u.request.dest with
      | none => rfl
      | some node => exact (hnode _ node hne hlook).symm
    · rw [hsettled]
      exact hcounted.used
    · rw [hwritten]
      exact hn
    · rw [hwritten]
      exact AList.lookup_insert _

end Threads

/-! ## §I Runs -/

section Runs

variable {cfg : Config} {start s s' : State}

theorem Start.invariant (h : Start cfg start) : Invariant cfg start start where
  bounded := h.bounded
  settled_size := by
    rw [settledSize_eq_treeSize fun t ht => by simp [temp_of_none h.inside] at ht]
    exact h.size
  files := by
    intro p _
    simp [settled, h.replaced]
  temps := by
    intro p hp
    simp [temp_of_none h.inside] at hp
  own := by simp [h.written]
  jobs := by
    intro a job hjob
    simp [h.jobs] at hjob
  held := by
    intro a u hin
    simp [h.inside] at hin

theorem Invariant.safe (h : Invariant cfg start s) : Safe cfg start s where
  idle := by
    intro hin
    rw [← settledSize_eq_treeSize fun t ht => by simp [temp_of_none hin] at ht]
    exact h.settled_size
  settled_size := h.settled_size
  files := h.files
  temps := h.temps
  own := h.own

/-- **The step lemma.** -/
theorem step_keeps {e : Event} (h : Invariant cfg start s) (hquiet : Quiet s e)
    (hs : step cfg s e = some s') : Invariant cfg start s' := by
  cases e with
  | arrive r =>
    obtain rfl := (Option.some.inj hs).symm
    exact h.aside s.fds _ _ fun _ _ hn => hn
  | acquire a =>
    simp only [step] at hs
    split at hs
    case h_1 hin _ =>
      obtain rfl := (Option.some.inj hs).symm
      exact acquire_keeps h hin
    case h_2 => simp at hs
  | abandon a =>
    simp only [step] at hs
    split at hs
    case isTrue =>
      obtain rfl := (Option.some.inj hs).symm
      exact h.aside s.fds _ s.next fun _ _ hn => hn
    case isFalse => simp at hs
  | move m =>
    simp only [step] at hs
    split at hs
    case h_1 a u hin => exact act_keeps h hin hquiet hs
    case h_2 => simp at hs
  | start a =>
    simp only [step] at hs
    split at hs
    case h_1 job hjob =>
      split at hs
      case isTrue => simp at hs
      case isFalse =>
        obtain rfl := (Option.some.inj hs).symm
        exact start_keeps h hjob
    case h_2 => simp at hs
  | write a k =>
    simp only [step] at hs
    split at hs
    case h_1 job hjob =>
      split at hs
      case isTrue hk =>
        obtain rfl := (Option.some.inj hs).symm
        exact write_keeps h hjob hk.2.1 hk.2.2
      case isFalse => simp at hs
    case h_2 => simp at hs
  | crash a =>
    simp only [step] at hs
    split at hs
    case h_1 job hjob =>
      split at hs
      case isTrue =>
        obtain rfl := (Option.some.inj hs).symm
        exact jobOver_keeps h hjob (.inl rfl)
      case isFalse => simp at hs
    case h_2 => simp at hs
  | done a =>
    simp only [step] at hs
    split at hs
    case h_1 job hjob =>
      split at hs
      case isTrue hend =>
        obtain rfl := (Option.some.inj hs).symm
        exact jobOver_keeps h hjob (.inr ⟨rfl, hend.2⟩)
      case isFalse => simp at hs
    case h_2 => simp at hs
  | openOther fd =>
    simp only [step] at hs
    split at hs
    case isTrue hfree =>
      obtain rfl := (Option.some.inj hs).symm
      refine h.aside _ s.waiting s.next fun n i hn => ?_
      have hne : n ≠ fd := by
        rintro rfl
        simp [hfree] at hn
      rw [AList.lookup_insert_ne hne]
      exact hn
    case isFalse => simp at hs
  | closeOther fd =>
    simp only [step] at hs
    split at hs
    case isTrue hforeign =>
      obtain rfl := (Option.some.inj hs).symm
      refine h.aside _ s.waiting s.next fun n i hn => ?_
      have hne : n ≠ fd := by
        rintro rfl
        simp [hforeign] at hn
      rw [AList.lookup_erase_ne hne]
      exact hn
    case isFalse => simp at hs

/-- **Uploads are safe throughout** every run in which no upload is cancelled while a thread still has bytes
to write for it: whatever fails, and wherever else the tasks are cancelled. -/
theorem uploads_safe (h : Start cfg start) (events : List Event)
    (hquiet : (machine cfg).Along Quiet start events) :
    (machine cfg).Throughout (Safe cfg start) start events := by
  have hthroughout : (machine cfg).Throughout (Invariant cfg start) start events :=
    (machine cfg).throughout_of_along (fun _ _ _ hs hC hstep => step_keeps hs hC hstep) h.invariant hquiet
  exact hthroughout.imp (machine cfg) fun _ hs => hs.safe

/-- An empty workspace, in a process with its standard streams. -/
def blank : State where
  entries := ∅
  inodes := []
  fds := ((∅ : Dict Nat Target).insert 0 .foreign |>.insert 1 .foreign).insert 2 .foreign
  waiting := ∅
  inside := none
  next := 0
  jobs := ∅
  replaced := []
  written := []

theorem blank_start : Start ⟨1, 1⟩ blank where
  inside := rfl
  jobs := rfl
  replaced := rfl
  written := rfl
  size := Nat.zero_le _
  bounded := by
    intro p i hp
    simp [blank] at hp

/-- An upload from the lock to its first chunk of `k` bytes, with the descriptors 3 and 4. -/
def toFirstChunk (a : Nat) (name : String) (k : Nat) : List Event :=
  [.acquire a, .move (.openParent 3 name), .move .stat, .move (.openTemp 4), .move (.read k), .start a]

/-- An upload from the end of its last write to its end. -/
def toTheEnd : List Event :=
  [.move .readEnd, .move .fsync, .move .close, .move .replace, .move .close, .move .unlink,
    .move .closeParent, .move .release]

/-- The first upload is cancelled when its thread is done, and the second one stores its file. -/
theorem second_upload_stored :
    let events := [.arrive ⟨["a"], [1, 1]⟩, .arrive ⟨["b"], [2]⟩] ++ toFirstChunk 0 ".upload-0.tmp" 2 ++
      [.write 0 2, .move .cancel, .move .close, .move .unlink, .move .closeParent, .move .release, .done 0] ++
      toFirstChunk 1 ".upload-1.tmp" 1 ++ [.write 1 1, .done 1] ++ toTheEnd
    (machine ⟨1, 1⟩).Throughout (Safe ⟨1, 1⟩ blank) blank events ∧
      (((machine ⟨1, 1⟩).run blank events).map fun s => (s.contentAt ["a"], s.contentAt ["b"])) =
        some (none, some [2]) :=
  ⟨uploads_safe blank_start _ (by decide +kernel), by decide +kernel⟩

/-- **A thread writes into the file of another upload.** The first upload is cancelled while its thread has
two bytes to write; the second one's temporary file gets the number 4, the thread writes there, and the
destination has neither what it had nor what was uploaded. -/
theorem thread_writes_elsewhere :
    ∃ events s, Start ⟨1, 1⟩ blank ∧ (machine ⟨1, 1⟩).run blank events = some s ∧
      ¬Safe ⟨1, 1⟩ blank s ∧ s.inside = none ∧ s.contentAt ["b"] = some [1, 1, 2] ∧
      (⟨0, .file 1, [[".upload-1.tmp"]]⟩ : Written) ∈ s.written := by
  let events : List Event := [.arrive ⟨["a"], [1, 1]⟩, .arrive ⟨["b"], [2]⟩] ++
    toFirstChunk 0 ".upload-0.tmp" 2 ++
    [.move .cancel, .move .close, .move .unlink, .move .closeParent, .move .release] ++
    toFirstChunk 1 ".upload-1.tmp" 1 ++ [.write 0 2, .write 1 1, .done 1] ++ toTheEnd
  have hrun : ((machine ⟨1, 1⟩).run blank events).all (fun s => !(s.inside.isNone &&
      s.contentAt ["b"] == some [1, 1, 2] && settled blank s.replaced ["b"] == some [2] &&
      s.written.contains ⟨0, .file 1, [[".upload-1.tmp"]]⟩)) = false := by
    decide +kernel
  obtain ⟨s, hs, htest⟩ := (machine ⟨1, 1⟩).exists_run_of_all_eq_false hrun
  simp only [Bool.not_eq_false', Bool.and_eq_true, Option.isNone_iff_eq_none, beq_iff_eq,
    List.contains_iff_mem] at htest
  obtain ⟨⟨⟨hin, hcontent⟩, hsettled⟩, hmem⟩ := htest
  refine ⟨events, s, blank_start, hs, fun hsafe => ?_, hin, hcontent, hmem⟩
  have hfiles := hsafe.files ["b"] (by simp [temp_of_none hin])
  rw [hcontent, hsettled] at hfiles
  simp at hfiles

end Runs

end OpencodeCloud.FileService.Uploads
