/-
# OpencodeCloud.Sandbox.Registry -- the tables of the sandbox manager

`registry.Registry` and its schema: agents, sandboxes and sessions, each under its primary key. A write
is a transaction, which either has its effect or raises and leaves the tables as they were; the
statements of `record_sessions_batch` run in a savepoint for each entry. So an interleaving of
operations is a sequence of transactions, which is what the machine `registry` runs.

The unique owner of a sandbox, the foreign keys and the range of ports are checked by the database. That
every session has the owner of its sandbox, and that nothing moves from one owner to another, is for the
code to see to: `registry_keeps_owners`.
-/
import OpencodeCloud.Library.Dict
import OpencodeCloud.Library.Machine
import OpencodeCloud.Library.Savepoint

namespace OpencodeCloud.Sandbox.Registry

open OpencodeCloud.Library

/-! ## §A The tables -/

/-- A row of `agents`. -/
structure AgentRow where
  configPath : String
  image : String
  enabled : Bool
  updatedAt : String

/-- A row of `sandboxes`, without its key `sandbox_id`. -/
structure SandboxRow where
  agentId : String
  username : String
  containerId : Option String
  hostPort : Option Int
  status : String
  imageVersion : String
  lastActiveAt : String
  createdAt : String

/-- A row of `sessions`, without its key `session_id`. -/
structure SessionRow where
  sandboxId : String
  agentId : String
  username : String
  workspaceRelpath : String
  createdAt : String
  lastActiveAt : String

/-- Agent and user of a sandbox. -/
def SandboxRow.owner (r : SandboxRow) : String × String := (r.agentId, r.username)

def SessionRow.owner (s : SessionRow) : String × String := (s.agentId, s.username)

/-- What a session is bound to: all that is compared when it is recorded again. -/
def SessionRow.binding (s : SessionRow) : String × (String × String) × String :=
  (s.sandboxId, s.owner, s.workspaceRelpath)

structure Db where
  agents : Dict String AgentRow
  sandboxes : Dict String SandboxRow
  sessions : Dict String SessionRow

/-- After `initialize` of a new file. -/
def Db.initial : Db := ⟨∅, ∅, ∅⟩

/-- What a transaction raises. -/
inductive Error where
  /-- `sqlite3.IntegrityError` -/
  | integrity
  /-- `KeyError("Unknown sandbox: …")` -/
  | unknownSandbox (sandboxId : String)
  /-- `ValueError("Session route does not match sandbox owner")` -/
  | notOwner
  /-- `ValueError("Session ID is already bound to another route")` -/
  | alreadyBound
  deriving DecidableEq

namespace Db

/-- `get_sandbox`: the row of an owner, with its key. -/
def getSandbox (db : Db) (owner : String × String) : Option (String × SandboxRow) :=
  (db.sandboxes.entries.find? fun e => e.2.owner == owner).map fun e => (e.1, e.2)

/-! ## §B Agents and sandboxes -/

/-- `upsert_agent`. -/
def upsertAgent (db : Db) (agentId : String) (row : AgentRow) : Db :=
  match db.agents.lookup agentId with
  | some old =>
    if old.configPath = row.configPath ∧ old.image = row.image ∧ old.enabled = row.enabled then db
    else { db with agents := db.agents.insert agentId row }
  | none => { db with agents := db.agents.insert agentId row }

/-- `CHECK (host_port IS NULL OR host_port BETWEEN 1 AND 65535)`. -/
def validPort : Option Int → Bool
  | none => true
  | some port => 1 ≤ port && port ≤ 65535

/-- `upsert_sandbox`: a new row, or on a conflict of the owner new contents of the old one. The key of the
row is returned. -/
def upsertSandbox (db : Db) (sandboxId : String) (row : SandboxRow) : Except Error (String × Db) :=
  if validPort row.hostPort then
    match db.getSandbox row.owner with
    | some (existing, old) =>
      .ok (existing, { db with
        sandboxes := db.sandboxes.insert existing { row with createdAt := old.createdAt } })
    | none =>
      if (db.sandboxes.lookup sandboxId).isSome || (db.agents.lookup row.agentId).isNone then
        .error .integrity
      else .ok (sandboxId, { db with sandboxes := db.sandboxes.insert sandboxId row })
  else .error .integrity

/-- `UPDATE sandboxes SET … WHERE sandbox_id=?`, of columns that are no part of the owner. -/
def updateSandbox (db : Db) (sandboxId : String) (status lastActiveAt : Option String) : Db :=
  { db with sandboxes := db.sandboxes.modify sandboxId fun row =>
      { row with status := status.getD row.status
                 lastActiveAt := lastActiveAt.getD row.lastActiveAt } }

/-- `mark_sandbox_status`. -/
def markSandboxStatus (db : Db) (sandboxId status now : String) : Db :=
  db.updateSandbox sandboxId (some status) (some now)

/-- `touch_sandbox`. -/
def touchSandbox (db : Db) (sandboxId now : String) : Db := db.updateSandbox sandboxId none (some now)

/-- `set_health_status`. -/
def setHealthStatus (db : Db) (sandboxId status : String) : Db :=
  db.updateSandbox sandboxId (some status) none

/-- The last transaction of `reconcile`: what was not observed is missing. -/
def markMissing (db : Db) (observed : List String) (now : String) : Db :=
  ((db.sandboxes.keys).filter (!observed.contains ·)).foldl
    (fun db sandboxId => db.updateSandbox sandboxId (some "missing") (some now)) db

/-- `reconcile`: an upsert for each record, then the last transaction. -/
def reconcile (now : String) : Db → List (String × SandboxRow) → List String → Except Error Unit × Db
  | db, [], observed => (.ok (), db.markMissing observed now)
  | db, (sandboxId, row) :: records, observed =>
    match db.upsertSandbox sandboxId row with
    | .error e => (.error e, db)
    | .ok (resolved, db') => reconcile now db' records (resolved :: observed)

/-! ## §C Sessions -/

/-- An entry for `record_sessions_batch`, with what the clock shows when it comes to it: at the insertion
and at the update of the sandbox. -/
structure Entry where
  sessionId : String
  sandboxId : String
  agentId : String
  username : String
  workspaceRelpath : String
  now : String
  later : String

def Entry.binding (e : Entry) : String × (String × String) × String :=
  (e.sandboxId, (e.agentId, e.username), e.workspaceRelpath)

/-- `INSERT INTO sessions … ON CONFLICT(session_id) DO UPDATE SET last_active_at`: the row that is there
then. -/
def insertedRow (db : Db) (e : Entry) : SessionRow :=
  match db.sessions.lookup e.sessionId with
  | some old => { old with lastActiveAt := e.now }
  | none => ⟨e.sandboxId, e.agentId, e.username, e.workspaceRelpath, e.now, e.now⟩

/-- The statements for one entry. They raise before the insertion, or after it. -/
def recordEntry (e : Entry) (db : Db) : Except Error SessionRow × Db :=
  match db.sandboxes.lookup e.sandboxId with
  | none => (.error (.unknownSandbox e.sandboxId), db)
  | some owner =>
    if owner.owner ≠ (e.agentId, e.username) then (.error .notOwner, db)
    else
      let route := db.insertedRow e
      let written := { db with sessions := db.sessions.insert e.sessionId route }
      if route.binding ≠ e.binding then (.error .alreadyBound, written)
      else (.ok route, written.touchSandbox e.sandboxId e.later)

/-- The loop of `record_sessions_batch`. -/
def recordEntries : List Entry → Connection Db → List (Except Error SessionRow) →
    List (Except Error SessionRow) × Connection Db
  | [], c, results => (results, c)
  | e :: entries, c, results =>
    let attempted := c.attempt (recordEntry e)
    recordEntries entries attempted.2 (results ++ [attempted.1])

/-- `record_sessions_batch`. -/
def recordSessionsBatch (db : Db) (entries : List Entry) : List (Except Error SessionRow) × Db :=
  let done := recordEntries entries (.start db) []
  (done.1, done.2.current)

/-- `record_session`: a batch of one; its result is returned or raised. -/
def recordSession (db : Db) (e : Entry) : Except Error SessionRow × Db :=
  let batch := db.recordSessionsBatch [e]
  (batch.1.headD (.error .integrity), batch.2)

/-- The entries one by one, each in a transaction of its own. -/
def recordEach (db : Db) : List Entry → List (Except Error SessionRow) × Db
  | [] => ([], db)
  | e :: entries =>
    ((db.recordSession e).1 :: (recordEach (db.recordSession e).2 entries).1,
      (recordEach (db.recordSession e).2 entries).2)

/-! ## §D Deletions -/

/-- Sandboxes are deleted, and with them the sessions that reference them. -/
def deleteSandboxes (db : Db) (gone : String → SandboxRow → Bool) : Db :=
  { db with
    sandboxes := db.sandboxes.filter fun id row => !gone id row
    sessions := db.sessions.filter fun _ s =>
      !((db.sandboxes.lookup s.sandboxId).any (gone s.sandboxId)) }

/-- The transaction of the action `delete`. -/
def deleteAgent (db : Db) (agentId : String) : Db :=
  let db := { db with sessions := db.sessions.filter fun _ s => s.agentId != agentId }
  let db := db.deleteSandboxes fun _ row => row.agentId == agentId
  { db with agents := db.agents.erase agentId }

/-- The transaction of `cleanup`. -/
def deleteSandbox (db : Db) (sandboxId : String) : Db :=
  let db := { db with sessions := db.sessions.filter fun _ s => s.sandboxId != sandboxId }
  db.deleteSandboxes fun id _ => id == sandboxId

end Db

/-! ## §E Transactions -/

inductive Command where
  | upsertAgent (agentId : String) (row : AgentRow)
  | upsertSandbox (sandboxId : String) (row : SandboxRow)
  | markSandboxStatus (sandboxId status now : String)
  | touchSandbox (sandboxId now : String)
  | setHealthStatus (sandboxId status : String)
  | recordSessionsBatch (entries : List Db.Entry)
  | markMissing (observed : List String) (now : String)
  | deleteAgent (agentId : String)
  | deleteSandbox (sandboxId : String)

/-- The tables after a transaction; one that raises changes nothing. -/
def perform (db : Db) : Command → Db
  | .upsertAgent agentId row => db.upsertAgent agentId row
  | .upsertSandbox sandboxId row =>
    match db.upsertSandbox sandboxId row with
    | .ok (_, db') => db'
    | .error _ => db
  | .markSandboxStatus sandboxId status now => db.markSandboxStatus sandboxId status now
  | .touchSandbox sandboxId now => db.touchSandbox sandboxId now
  | .setHealthStatus sandboxId status => db.setHealthStatus sandboxId status
  | .recordSessionsBatch entries => (db.recordSessionsBatch entries).2
  | .markMissing observed now => db.markMissing observed now
  | .deleteAgent agentId => db.deleteAgent agentId
  | .deleteSandbox sandboxId => db.deleteSandbox sandboxId

/-- The tables, under any sequence of transactions. -/
def registry : Machine Db Command := ⟨fun db c => some (perform db c)⟩

/-! ## §F What holds of the tables -/

/-- One sandbox for an owner, and for every session a sandbox of its owner. -/
structure Consistent (db : Db) : Prop where
  one : ∀ id id' r r', db.sandboxes.lookup id = some r → db.sandboxes.lookup id' = some r' →
    r.owner = r'.owner → id = id'
  owned : ∀ sid s, db.sessions.lookup sid = some s →
    ∃ r, db.sandboxes.lookup s.sandboxId = some r ∧ r.owner = s.owner

/-- What a transaction leaves as it is, of everything that is there before it and after it: the owner of a
sandbox, the sandbox of an owner, and what a session is bound to. -/
structure Stable (db db' : Db) : Prop where
  owner : ∀ id r r', db.sandboxes.lookup id = some r → db'.sandboxes.lookup id = some r' →
    r'.owner = r.owner
  sandbox : ∀ id id' r r', db.sandboxes.lookup id = some r → db'.sandboxes.lookup id' = some r' →
    r.owner = r'.owner → id = id'
  session : ∀ sid s s', db.sessions.lookup sid = some s → db'.sessions.lookup sid = some s' →
    s'.binding = s.binding

theorem Consistent.initial : Consistent Db.initial :=
  ⟨fun _ _ _ _ h => by simp [Db.initial] at h, fun _ _ h => by simp [Db.initial] at h⟩

section Effects

variable {db db' : Db}

theorem getSandbox_eq_some {owner : String × String} {id : String} {row : SandboxRow}
    (h : db.getSandbox owner = some (id, row)) :
    db.sandboxes.lookup id = some row ∧ row.owner = owner := by
  simp only [Db.getSandbox, Option.map_eq_some_iff, Prod.mk.injEq] at h
  obtain ⟨⟨id', row'⟩, hfind, rfl, rfl⟩ := h
  exact ⟨Dict.mem_entries_iff.mp (List.mem_of_find?_eq_some hfind), by
    simpa using List.find?_some hfind⟩

theorem getSandbox_eq_none {owner : String × String} (h : db.getSandbox owner = none) {id : String}
    {row : SandboxRow} (hrow : db.sandboxes.lookup id = some row) : row.owner ≠ owner := by
  simp only [Db.getSandbox, Option.map_eq_none_iff, List.find?_eq_none] at h
  simpa using h ⟨id, row⟩ (Dict.mem_entries_iff.mpr hrow)

/-- The same keys, with the same owners. -/
def SameOwners (db db' : Db) : Prop :=
  ∀ id, (db'.sandboxes.lookup id).map (·.owner) = (db.sandboxes.lookup id).map (·.owner)

theorem SameOwners.trans {db'' : Db} (h : SameOwners db db') (h' : SameOwners db' db'') :
    SameOwners db db'' := fun id => (h' id).trans (h id)

theorem SameOwners.before (h : SameOwners db db') {id : String} {r' : SandboxRow}
    (hr : db'.sandboxes.lookup id = some r') :
    ∃ r, db.sandboxes.lookup id = some r ∧ r.owner = r'.owner := by
  have hid := h id
  rw [hr, Option.map_some, eq_comm, Option.map_eq_some_iff] at hid
  exact hid

theorem SameOwners.after (h : SameOwners db db') {id : String} {r : SandboxRow}
    (hr : db.sandboxes.lookup id = some r) :
    ∃ r', db'.sandboxes.lookup id = some r' ∧ r'.owner = r.owner := by
  have hid := h id
  rw [hr, Option.map_some, Option.map_eq_some_iff] at hid
  exact hid

/-- Every sandbox was there, with its owner. -/
def NoneAdded (db db' : Db) : Prop :=
  ∀ id r', db'.sandboxes.lookup id = some r' → ∃ r, db.sandboxes.lookup id = some r ∧ r.owner = r'.owner

theorem NoneAdded.stable (h : NoneAdded db db') (hdb : Consistent db)
    (hsessions : ∀ sid s s', db.sessions.lookup sid = some s → db'.sessions.lookup sid = some s' →
      s'.binding = s.binding) : Stable db db' := by
  refine ⟨fun id r r' hr hr' => ?_, fun id id' r r' hr hr' howner => ?_, hsessions⟩
  · obtain ⟨r₀, hr₀, howner⟩ := h id r' hr'
    obtain rfl := Option.some.inj (hr.symm.trans hr₀)
    exact howner.symm
  · obtain ⟨r₀, hr₀, howner₀⟩ := h id' r' hr'
    exact hdb.one id id' r r₀ hr hr₀ (howner.trans howner₀.symm)

/-- A transaction that leaves keys and owners alone, and adds sessions of owners only. -/
theorem SameOwners.consistent (h : SameOwners db db') (hdb : Consistent db)
    (hsessions : ∀ sid s', db'.sessions.lookup sid = some s' →
      ∃ r, db.sandboxes.lookup s'.sandboxId = some r ∧ r.owner = s'.owner) : Consistent db' := by
  constructor
  · intro id id' r r' hr hr' howner
    obtain ⟨r₀, hr₀, ho⟩ := h.before hr
    obtain ⟨r₁, hr₁, ho'⟩ := h.before hr'
    exact hdb.one id id' r₀ r₁ hr₀ hr₁ (ho.trans (howner.trans ho'.symm))
  · intro sid s' hs'
    obtain ⟨r, hr, howner⟩ := hsessions sid s' hs'
    obtain ⟨r', hr', howner'⟩ := h.after hr
    exact ⟨r', hr', howner'.trans howner⟩

theorem updateSandbox_sameOwners (id : String) (status lastActiveAt : Option String) :
    SameOwners db (db.updateSandbox id status lastActiveAt) := by
  intro id'
  by_cases h : id' = id
  · subst h
    simp only [Db.updateSandbox, Dict.lookup_modify_self, Option.map_map]
    rfl
  · simp only [Db.updateSandbox, Dict.lookup_modify_ne h]

@[simp] theorem updateSandbox_sessions (id : String) (status lastActiveAt : Option String) :
    (db.updateSandbox id status lastActiveAt).sessions = db.sessions := rfl

theorem markMissing_sameOwners (db : Db) (observed : List String) (now : String) :
    SameOwners db (db.markMissing observed now) ∧ (db.markMissing observed now).sessions = db.sessions := by
  unfold Db.markMissing
  generalize (db.sandboxes.keys).filter (!observed.contains ·) = ids
  induction ids generalizing db with
  | nil => exact ⟨fun _ => rfl, rfl⟩
  | cons id ids ih =>
    obtain ⟨howners, hsessions⟩ := ih (db.updateSandbox id (some "missing") (some now))
    exact ⟨(updateSandbox_sameOwners id _ _).trans howners, hsessions⟩

end Effects

/-! ## §G A batch is its entries one by one -/

section Batch

variable {db : Db} {e : Db.Entry}

theorem recordEntries_results (entries : List Db.Entry) (c : Connection Db)
    (results : List (Except Error SessionRow)) :
    Db.recordEntries entries c results =
      (results ++ (Db.recordEntries entries c []).1, (Db.recordEntries entries c []).2) := by
  induction entries generalizing c results with
  | nil => simp [Db.recordEntries]
  | cons e entries ih =>
    simp only [Db.recordEntries, List.nil_append]
    rw [ih, ih _ [_]]
    simp

/-- The savepoint of an entry, and what it leaves. -/
theorem attempt_recordEntry (e : Db.Entry) (db : Db) :
    (Connection.start db).attempt (Db.recordEntry e) =
      ((db.recordSession e).1, .start (db.recordSession e).2) :=
  Prod.ext rfl (Connection.ext rfl (Connection.attempt_savepoints _ _))

/-- An entry that is recorded. -/
theorem recordSession_of_ok {row : SessionRow} (h : (Db.recordEntry e db).1 = .ok row) :
    db.recordSession e = (.ok row, (Db.recordEntry e db).2) := by
  have hattempt := attempt_recordEntry e db
  rw [Connection.attempt_of_ok (c := .start db) h, Prod.mk.injEq] at hattempt
  exact Prod.ext hattempt.1.symm (congrArg Connection.current hattempt.2).symm

/-- **An entry that fails leaves no trace**, also when it fails after the insertion. -/
theorem recordSession_of_error {err : Error} (h : (Db.recordEntry e db).1 = .error err) :
    db.recordSession e = (.error err, db) := by
  have hattempt := attempt_recordEntry e db
  rw [Connection.attempt_of_error (c := .start db) h, Prod.mk.injEq] at hattempt
  exact Prod.ext hattempt.1.symm (congrArg Connection.current hattempt.2).symm

/-- **A batch has the results of its entries recorded one by one, and leaves the same tables.** -/
theorem batch_eq_each (entries : List Db.Entry) (db : Db) :
    db.recordSessionsBatch entries = db.recordEach entries := by
  induction entries generalizing db with
  | nil => rfl
  | cons e entries ih =>
    rw [Db.recordEach, ← ih, Db.recordSessionsBatch, Db.recordEntries, recordEntries_results,
      attempt_recordEntry]
    rfl

end Batch

/-! ## §H What a batch does -/

/-- What recording leaves: the sandboxes under their owners, the sessions bound as they were, and every
session with the owner of its sandbox. -/
structure Recorded (db db' : Db) : Prop where
  owners : SameOwners db db'
  kept : ∀ sid s, db.sessions.lookup sid = some s →
    ∃ s', db'.sessions.lookup sid = some s' ∧ s'.binding = s.binding
  owned : ∀ sid s', db'.sessions.lookup sid = some s' →
    ∃ r, db.sandboxes.lookup s'.sandboxId = some r ∧ r.owner = s'.owner

section Recording

variable {db db' db'' : Db}

theorem Recorded.refl (hdb : Consistent db) : Recorded db db :=
  ⟨fun _ => rfl, fun _ s hs => ⟨s, hs, rfl⟩, hdb.owned⟩

theorem Recorded.consistent (h : Recorded db db') (hdb : Consistent db) : Consistent db' :=
  h.owners.consistent hdb h.owned

theorem Recorded.trans (h : Recorded db db') (h' : Recorded db' db'') : Recorded db db'' := by
  refine ⟨h.owners.trans h'.owners, fun sid s hs => ?_, fun sid s'' hs'' => ?_⟩
  · obtain ⟨s', hs', hbinding⟩ := h.kept sid s hs
    obtain ⟨s'', hs'', hbinding'⟩ := h'.kept sid s' hs'
    exact ⟨s'', hs'', hbinding'.trans hbinding⟩
  · obtain ⟨r', hr', howner'⟩ := h'.owned sid s'' hs''
    obtain ⟨r, hr, howner⟩ := h.owners.before hr'
    exact ⟨r, hr, howner.trans howner'⟩

theorem Recorded.stable (h : Recorded db db') (hdb : Consistent db) : Stable db db' := by
  refine NoneAdded.stable (fun id r' hr' => h.owners.before hr') hdb fun sid s s' hs hs' => ?_
  obtain ⟨s'', hs'', hbinding⟩ := h.kept sid s hs
  obtain rfl := Option.some.inj (hs'.symm.trans hs'')
  exact hbinding

/-- The row that an insertion leaves under the id of a session is bound as the one before it. -/
theorem insertedRow_binding {e : Db.Entry} {s : SessionRow}
    (h : db.sessions.lookup e.sessionId = some s) : (db.insertedRow e).binding = s.binding := by
  simp only [Db.insertedRow, h]
  rfl

/-- One entry: the row that was inserted is the entry's, or everything is as it was. -/
theorem recordSession_recorded (hdb : Consistent db) (e : Db.Entry) :
    Recorded db (db.recordSession e).2 := by
  cases h : (Db.recordEntry e db).1 with
  | error err =>
    rw [recordSession_of_error h]
    exact Recorded.refl hdb
  | ok row =>
    rw [recordSession_of_ok h]
    unfold Db.recordEntry at h ⊢
    cases hsandbox : db.sandboxes.lookup e.sandboxId with
    | none => simp [hsandbox] at h
    | some r =>
      simp only [hsandbox] at h ⊢
      split at h
      · simp at h
      · next howner =>
        rw [if_neg howner]
        simp only [ne_eq, Decidable.not_not] at howner
        split at h
        · simp at h
        · next hbinding =>
          rw [if_neg hbinding]
          simp only [ne_eq, Decidable.not_not] at hbinding
          refine ⟨fun id => updateSandbox_sameOwners e.sandboxId _ _ id, fun sid s hs => ?_,
            fun sid s' hs' => ?_⟩
          · by_cases hsid : sid = e.sessionId
            · subst hsid
              exact ⟨_, AList.lookup_insert _, insertedRow_binding hs⟩
            · exact ⟨s, (AList.lookup_insert_ne hsid).trans hs, rfl⟩
          · rcases Dict.lookup_insert_cases hs' with ⟨-, rfl⟩ | ⟨-, hold⟩
            · simp only [SessionRow.binding, Db.Entry.binding, Prod.mk.injEq] at hbinding
              obtain ⟨hid, hown, -⟩ := hbinding
              exact ⟨r, by rw [hid]; exact hsandbox, howner.trans hown.symm⟩
            · exact hdb.owned sid s' hold

/-- The whole batch, entry by entry. -/
theorem recordSessionsBatch_recorded (hdb : Consistent db) (entries : List Db.Entry) :
    Recorded db (db.recordSessionsBatch entries).2 := by
  rw [batch_eq_each]
  induction entries generalizing db with
  | nil => exact Recorded.refl hdb
  | cons e entries ih =>
    have hfirst := recordSession_recorded hdb e
    exact hfirst.trans (ih (hfirst.consistent hdb))

end Recording

/-! ## §I What each transaction does -/

section Steps

variable {db : Db}

theorem upsertAgent_tables (db : Db) (agentId : String) (row : AgentRow) :
    (db.upsertAgent agentId row).sandboxes = db.sandboxes ∧
      (db.upsertAgent agentId row).sessions = db.sessions := by
  unfold Db.upsertAgent
  split
  · split <;> exact ⟨rfl, rfl⟩
  · exact ⟨rfl, rfl⟩

/-- An upsert gives the row of the owner new contents, or inserts a row for a new key and a new owner. -/
theorem upsertSandbox_eq_ok {sandboxId id : String} {row : SandboxRow} {db' : Db}
    (h : db.upsertSandbox sandboxId row = .ok (id, db')) :
    (SameOwners db db' ∧ db'.sessions = db.sessions) ∨
      (db.getSandbox row.owner = none ∧ db.sandboxes.lookup sandboxId = none ∧
        db' = { db with sandboxes := db.sandboxes.insert sandboxId row }) := by
  unfold Db.upsertSandbox at h
  split at h
  · split at h
    · next existing old hold =>
      obtain ⟨-, rfl⟩ := Prod.mk.inj (Except.ok.inj h)
      obtain ⟨hlookup, howner⟩ := getSandbox_eq_some hold
      refine .inl ⟨fun id' => ?_, rfl⟩
      by_cases hid : id' = existing
      · subst hid
        rw [AList.lookup_insert, hlookup]
        exact congrArg some howner.symm
      · rw [AList.lookup_insert_ne hid]
    · next hnone =>
      split at h
      · cases h
      · next hfree =>
        obtain ⟨-, rfl⟩ := Prod.mk.inj (Except.ok.inj h)
        refine .inr ⟨hnone, ?_, rfl⟩
        simp only [Bool.or_eq_true, not_or, Bool.not_eq_true] at hfree
        simpa using hfree.1
  · cases h

/-- The inserted row is the only one of its owner, under a key that was free. -/
theorem insert_keeps (hdb : Consistent db) {id : String} {row : SandboxRow}
    (hnone : db.getSandbox row.owner = none) (hfree : db.sandboxes.lookup id = none) :
    Consistent { db with sandboxes := db.sandboxes.insert id row } ∧
      Stable db { db with sandboxes := db.sandboxes.insert id row } := by
  have hother : ∀ id' r, db.sandboxes.lookup id' = some r → id' ≠ id ∧ r.owner ≠ row.owner := by
    intro id' r hr
    refine ⟨?_, getSandbox_eq_none hnone hr⟩
    rintro rfl
    rw [hfree] at hr
    cases hr
  constructor
  · constructor
    · intro a b r r' hr hr' howner
      rcases Dict.lookup_insert_cases hr with ⟨ha, hrow⟩ | ⟨-, hold⟩ <;>
        rcases Dict.lookup_insert_cases hr' with ⟨hb, hrow'⟩ | ⟨-, hold'⟩
      · rw [ha, hb]
      · exact absurd (howner.symm.trans (congrArg SandboxRow.owner hrow)) (hother b r' hold').2
      · exact absurd (howner.trans (congrArg SandboxRow.owner hrow')) (hother a r hold).2
      · exact hdb.one a b r r' hold hold' howner
    · intro sid s hs
      obtain ⟨r, hr, howner⟩ := hdb.owned sid s hs
      exact ⟨r, (AList.lookup_insert_ne (hother _ r hr).1).trans hr, howner⟩
  · refine ⟨fun a r r' hr hr' => ?_, fun a b r r' hr hr' howner => ?_, fun sid s s' hs hs' => ?_⟩
    · rcases Dict.lookup_insert_cases hr' with ⟨rfl, rfl⟩ | ⟨-, hr'⟩
      · exact absurd rfl (hother a r hr).1
      · rw [Option.some.inj (hr.symm.trans hr')]
    · rcases Dict.lookup_insert_cases hr' with ⟨rfl, rfl⟩ | ⟨-, hr'⟩
      · exact absurd howner (hother a r hr).2
      · exact hdb.one a b r r' hr hr' howner
    · rw [Option.some.inj (hs.symm.trans hs')]

/-- Deleted sandboxes take their sessions with them. -/
theorem delete_keeps (hdb : Consistent db) (agents : Dict String AgentRow)
    (gone : String → SandboxRow → Bool) (also : String → SessionRow → Bool) :
    let db' := { ({ db with sessions := db.sessions.filter also } : Db).deleteSandboxes gone with
      agents := agents }
    Consistent db' ∧ Stable db db' := by
  have hrow : ∀ {id r}, (db.sandboxes.filter fun id row => !gone id row).lookup id = some r →
      db.sandboxes.lookup id = some r := fun h => (Dict.lookup_filter.mp h).1
  have hsession : ∀ {sid s}, ((db.sessions.filter also).filter fun _ s =>
      !((db.sandboxes.lookup s.sandboxId).any (gone s.sandboxId))).lookup sid = some s →
      db.sessions.lookup sid = some s := fun h => (Dict.lookup_filter.mp (Dict.lookup_filter.mp h).1).1
  refine ⟨⟨fun a b r r' hr hr' => hdb.one a b r r' (hrow hr) (hrow hr'), fun sid s hs => ?_⟩,
    NoneAdded.stable (fun id r' hr' => ⟨r', hrow hr', rfl⟩) hdb fun sid s s' hs hs' => ?_⟩
  · obtain ⟨r, hr, howner⟩ := hdb.owned sid s (hsession hs)
    have hstays := (Dict.lookup_filter.mp hs).2
    rw [hr] at hstays
    exact ⟨r, Dict.lookup_filter.mpr ⟨hr, hstays⟩, howner⟩
  · rw [Option.some.inj (hs.symm.trans (hsession hs'))]

/-- **One transaction** keeps the tables consistent, and what is there in its place. -/
theorem perform_keeps (hdb : Consistent db) (c : Command) :
    Consistent (perform db c) ∧ Stable db (perform db c) := by
  have hframe : ∀ db' : Db, SameOwners db db' → db'.sessions = db.sessions →
      Consistent db' ∧ Stable db db' := by
    intro db' howners hsessions
    refine ⟨howners.consistent hdb fun sid s' hs' => hdb.owned sid s' (hsessions ▸ hs'),
      NoneAdded.stable (fun id r' hr' => howners.before hr') hdb fun sid s s' hs hs' => ?_⟩
    rw [hsessions] at hs'
    rw [Option.some.inj (hs.symm.trans hs')]
  cases c with
  | upsertAgent agentId row =>
    obtain ⟨hsandboxes, hsessions⟩ := upsertAgent_tables db agentId row
    exact hframe _ (fun id => by rw [perform, hsandboxes]) hsessions
  | upsertSandbox sandboxId row =>
    cases h : db.upsertSandbox sandboxId row with
    | error e =>
      simp only [perform, h]
      exact hframe db (fun _ => rfl) rfl
    | ok result =>
      simp only [perform, h]
      rcases upsertSandbox_eq_ok h with ⟨howners, hsessions⟩ | ⟨hnone, hfree, hdb'⟩
      · exact hframe _ howners hsessions
      · rw [hdb']
        exact insert_keeps hdb hnone hfree
  | markSandboxStatus sandboxId status now => exact hframe _ (updateSandbox_sameOwners _ _ _) rfl
  | touchSandbox sandboxId now => exact hframe _ (updateSandbox_sameOwners _ _ _) rfl
  | setHealthStatus sandboxId status => exact hframe _ (updateSandbox_sameOwners _ _ _) rfl
  | recordSessionsBatch entries =>
    have hrecorded := recordSessionsBatch_recorded hdb entries
    exact ⟨hrecorded.consistent hdb, hrecorded.stable hdb⟩
  | markMissing observed now =>
    obtain ⟨howners, hsessions⟩ := markMissing_sameOwners db observed now
    exact hframe _ howners hsessions
  | deleteAgent agentId =>
    exact delete_keeps hdb _ (fun _ row => row.agentId == agentId) (fun _ s => s.agentId != agentId)
  | deleteSandbox sandboxId =>
    exact delete_keeps hdb db.agents (fun id _ => id == sandboxId) (fun _ s => s.sandboxId != sandboxId)

end Steps

/-! ## §J Runs -/

section Runs

variable {db t : Db} {cs : List Command}

theorem run_consistent (hdb : Consistent db) (hrun : registry.run db cs = some t) : Consistent t := by
  refine registry.run_always (fun s c u hs hstep => ?_) hdb hrun
  obtain rfl := Option.some.inj hstep
  exact (perform_keeps hs c).1

/-- An uninterrupted `reconcile` is a sequence of transactions; the transactions of others may come
between them. -/
theorem reconcile_run (now : String) (records : List (String × SandboxRow)) (observed : List String)
    (db : Db) : ∃ cs, registry.run db cs = some (db.reconcile now records observed).2 := by
  induction records generalizing db observed with
  | nil => exact ⟨[.markMissing observed now], rfl⟩
  | cons record records ih =>
    obtain ⟨sandboxId, row⟩ := record
    cases h : db.upsertSandbox sandboxId row with
    | error e => exact ⟨[], by simp [Db.reconcile, h]⟩
    | ok result =>
      obtain ⟨resolved, db'⟩ := result
      obtain ⟨cs, hcs⟩ := ih (resolved :: observed) db'
      refine ⟨.upsertSandbox sandboxId row :: cs, ?_⟩
      have hstep : registry.step db (.upsertSandbox sandboxId row) = some db' := by
        simp [registry, perform, h]
      rw [registry.run_cons hstep, hcs]
      simp [Db.reconcile, h]

/-- There is a sandbox of the owner. -/
def HasSandbox (owner : String × String) (db : Db) : Prop :=
  ∃ id r, db.sandboxes.lookup id = some r ∧ r.owner = owner

/-- **The sandbox of an owner keeps its id** as long as the owner has one. -/
theorem run_sandbox (hdb : Consistent db) {owner : String × String} {id : String} {r : SandboxRow}
    (hr : db.sandboxes.lookup id = some r) (howner : r.owner = owner)
    (hrun : registry.run db cs = some t) (hhas : registry.Throughout (HasSandbox owner) db cs)
    {id' : String} {r' : SandboxRow} (hr' : t.sandboxes.lookup id' = some r')
    (howner' : r'.owner = owner) : id' = id := by
  induction cs generalizing db r with
  | nil =>
    obtain rfl : db = t := by simpa using hrun
    exact hdb.one id' id r' r hr' hr (howner'.trans howner.symm)
  | cons c cs ih =>
    obtain ⟨u, hstep, hrest⟩ := registry.run_cons_inv hrun
    obtain rfl := Option.some.inj hstep
    obtain ⟨hconsistent, hstable⟩ := perform_keeps hdb c
    have hthere := hhas.2 _ hstep
    obtain ⟨id₁, r₁, hr₁, howner₁⟩ := hthere.start
    obtain rfl := hstable.sandbox id id₁ r r₁ hr hr₁ (howner.trans howner₁.symm)
    exact ih hconsistent hr₁ howner₁ hrest hthere

/-- **A session keeps its binding** as long as it is there. -/
theorem run_session (hdb : Consistent db) {sid : String} {s s' : SessionRow}
    (hs : db.sessions.lookup sid = some s) (hrun : registry.run db cs = some t)
    (hthere : registry.Throughout (fun u => (u.sessions.lookup sid).isSome = true) db cs)
    (hs' : t.sessions.lookup sid = some s') : s'.binding = s.binding := by
  induction cs generalizing db s with
  | nil =>
    obtain rfl : db = t := by simpa using hrun
    rw [Option.some.inj (hs.symm.trans hs')]
  | cons c cs ih =>
    obtain ⟨u, hstep, hrest⟩ := registry.run_cons_inv hrun
    obtain rfl := Option.some.inj hstep
    obtain ⟨hconsistent, hstable⟩ := perform_keeps hdb c
    have hrest' := hthere.2 _ hstep
    obtain ⟨s₁, hs₁⟩ := Option.isSome_iff_exists.mp hrest'.start
    exact (ih hconsistent hs₁ hrest hrest').trans (hstable.session sid s s₁ hs hs₁)

end Runs

/-- **The registry keeps owners and bindings.** In every state that transactions lead to, an owner has one
sandbox, and a session has the owner of its sandbox; from there on the sandbox of an owner keeps its id,
and a session its binding, as long as they are there; and a batch of entries has the results and the
effect of the entries one by one, of which those that fail have none. -/
theorem registry_keeps_owners {cs : List Command} {db : Db}
    (hrun : registry.run Db.initial cs = some db) :
    Consistent db ∧
    (∀ owner id r ds t, db.sandboxes.lookup id = some r → r.owner = owner →
      registry.run db ds = some t → registry.Throughout (HasSandbox owner) db ds →
      ∀ id' r', t.sandboxes.lookup id' = some r' → r'.owner = owner → id' = id) ∧
    (∀ sid s ds t, db.sessions.lookup sid = some s → registry.run db ds = some t →
      registry.Throughout (fun u => (u.sessions.lookup sid).isSome = true) db ds →
      ∀ s', t.sessions.lookup sid = some s' → s'.binding = s.binding) ∧
    (∀ entries, db.recordSessionsBatch entries = db.recordEach entries) ∧
    ∀ e err, (db.recordSession e).1 = .error err → (db.recordSession e).2 = db := by
  have hdb := run_consistent Consistent.initial hrun
  refine ⟨hdb, fun owner id r ds t hr howner hds hhas id' r' hr' howner' => ?_,
    fun sid s ds t hs hds hthere s' hs' => ?_, fun entries => batch_eq_each entries db,
    fun e err herr => ?_⟩
  · exact run_sandbox hdb hr howner hds hhas hr' howner'
  · exact run_session hdb hs hds hthere hs'
  · cases h : (Db.recordEntry e db).1 with
    | ok row =>
      rw [recordSession_of_ok h] at herr
      cases herr
    | error e' => rw [recordSession_of_error h]

/-- Two users of an agent, and a batch whose second entry is about the session of the first. -/
def sampleRun : List Command :=
  [.upsertAgent "a" ⟨"/agents/a", "image", true, "t0"⟩,
    .upsertSandbox "sbx-1" ⟨"a", "alice", none, some 40000, "ready", "dev", "t1", "t1"⟩,
    .upsertSandbox "sbx-2" ⟨"a", "bob", none, none, "ready", "dev", "t2", "t2"⟩,
    .recordSessionsBatch [⟨"ses_1", "sbx-1", "a", "alice", "sessions/ses_1", "t3", "t4"⟩,
      ⟨"ses_1", "sbx-2", "a", "bob", "sessions/ses_1", "t5", "t6"⟩]]

theorem sampleRun_keeps_owners : ∃ db, registry.run Db.initial sampleRun = some db ∧ Consistent db ∧
    (db.sessions.lookup "ses_1").map (·.owner) = some ("a", "alice") :=
  ⟨_, rfl, (@registry_keeps_owners sampleRun _ rfl).1, by decide⟩

end OpencodeCloud.Sandbox.Registry
