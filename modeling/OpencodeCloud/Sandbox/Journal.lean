/-
# OpencodeCloud.Sandbox.Journal -- lifecycle actions run at most once

`sandbox_action` and `action` of the sandbox manager write their requests to one table of commands, the
request id being its primary key. Both look for the id, reserve it, carry out the action and record the
result, in separate steps: a sandbox action looks again and inserts in one transaction, after its checks;
an agent action inserts at once and leaves it to the primary key to refuse a second row. Any number of
replicas work on the table, every step can fail, and a replica can crash between any two steps.

The locks of the source are left out: they only take interleavings away. What stays is that **nothing is
carried out before its id is reserved, and no id is reserved twice**.

Two functions of the platform are parameters: `dumps` is the canonical text of a JSON value, and `column`
what the id column keeps of a value that is bound to it, if the database takes it at all.
-/
import OpencodeCloud.Library.Checks
import OpencodeCloud.Library.Dict
import OpencodeCloud.Library.Json
import OpencodeCloud.Library.Machine
import OpencodeCloud.Sandbox.Installation

namespace OpencodeCloud.Sandbox.Journal

open OpencodeCloud.Library OpencodeCloud.Library.Checked

/-! ## Commands -/

/-- A request for a lifecycle action, with its JSON body. -/
inductive Command
  | sandbox (sid : String) (body : List (String × Json))
  | agent (aid : String) (body : List (String × Json))

/-- `{**base, **body}`. -/
def merged (base body : List (String × Json)) : Json :=
  body.foldl (fun value field => value.set field.1 field.2) (.object base)

namespace Command

def body : Command → Json
  | .sandbox _ body | .agent _ body => .object body

/-- `body.get(key)`. -/
def field (c : Command) (key : String) : Json := (c.body.get? key).getD .null

/-- What the canonical text is made of; a field of the body counts more than the path. -/
def canonical : Command → Json
  | .sandbox sid body => merged [("resource", .string "sandbox"), ("sandbox_id", .string sid)] body
  | .agent aid body => merged [("aid", .string aid)] body

/-- `name not in {…}`; a list or a dictionary cannot be looked for in a set. -/
def notIn (name : Json) (names : List String) : Checked Bool :=
  match name with
  | .string s => .ok (!names.contains s)
  | .array _ | .object _ => .error .other
  | _ => .ok true

def sandboxActions : List String := ["start", "stop", "restart", "recover", "destroy"]

def agentActions : List String :=
  ["quiesce", "apply", "verify", "resume", "archive", "restore", "delete", "restart", "stop"]

/-- The checks on a request by itself. -/
def validate (c : Command) : Checked Unit :=
  match c with
  | .sandbox _ _ => do
    refuse (← notIn (c.field "action") sandboxActions) 400 "Invalid sandbox action"
    match c.field "request_id" with
    | .string key =>
      refuse (key == "" || decide (key.length > 256)) 400 "A bounded request_id is required"
    | _ => raise 400 "A bounded request_id is required"
  | .agent aid _ => do
    if aid != "*" then validateIdentifier aid
    if aid == "*" then
      refuse (← notIn (c.field "action") ["quiesce", "resume", "verify"]) 400
        "Global action not allowed"
    refuse (← notIn (c.field "action") agentActions) 400 "Unknown lifecycle action"

end Command

/-! ## The table and the calls -/

/-- A row of `commands`; `result` is null until the action is done. -/
structure Row where
  payload : String
  result : Option Json

/-- Where a command is kept. -/
inductive Slot
  | unjournaled
  | unbindable
  | row (id : String)
  deriving DecidableEq

inductive Stage
  /-- the journal was not looked at yet -/
  | arrived
  /-- no row was found: the checks of a sandbox action, then the reservation -/
  | reserving
  /-- the action is being carried out -/
  | running
  /-- the action is done, its result is not written yet -/
  | recording (result : Json)
  | over (outcome : Checked Json)
  /-- the replica crashed -/
  | dead

/-- One request at a replica; `started` from the moment on that it carries out its action. -/
structure Call where
  replica : Nat
  command : Command
  stage : Stage
  started : Bool

structure State where
  commands : Dict String Row
  calls : List Call

def State.initial : State := ⟨∅, []⟩

inductive Event
  | request (replica : Nat) (command : Command)
  | step (i : Nat)
  /-- the action of call `i` is done, with this result -/
  | finish (i : Nat) (result : Json)
  /-- an exception, wherever call `i` is -/
  | fail (i : Nat) (e : Exception)
  | crash (replica : Nat)

section Steps

variable (dumps : Json → String) (column : Json → Option String)

/-- An agent action without a request id is not kept. -/
def Command.slot (c : Command) : Slot :=
  match c, (c.field "request_id").truthy with
  | .agent _ _, false => .unjournaled
  | _, _ =>
    match column (c.field "request_id") with
    | some id => .row id
    | none => .unbindable

def Command.payload (c : Command) : String := dumps c.canonical

/-- What a request gets that finds a row. -/
def replay (payload changed unfinished : String) (row : Row) : Checked Json :=
  if row.payload ≠ payload then raise 409 changed
  else
    match row.result with
    | none => raise 409 unfinished
    | some result => .ok result

namespace Call

def goes (c : Call) (stage : Stage) : Call := { c with stage := stage }

/-- Begin with the action. -/
def run (c : Call) : Call := { c with stage := .running, started := true }

/-- The first look at the journal. -/
def look (c : Call) (commands : Dict String Row) (id : String) : Call :=
  match commands.lookup id with
  | some row =>
    c.goes (.over (replay (c.command.payload dumps) "Idempotency key reused"
      "Prior action interrupted; reconcile before retry" row))
  | none => c.goes .reserving

/-- A row is there when a command is to be reserved: a sandbox action has looked again under the write
lock, an agent action runs into the primary key. -/
def lateRow (c : Call) (row : Row) : Checked Json :=
  match c.command with
  | .sandbox _ _ =>
    replay (c.command.payload dumps) "Command is already executing or its identity changed"
      "Command is already executing or its identity changed" row
  | .agent _ _ => .error .other

/-- One step that does not fail, and the table after it. -/
def advance (c : Call) (commands : Dict String Row) : Option (Call × Dict String Row) :=
  match c.stage with
  | .arrived =>
    match c.command.validate, c.command.slot column with
    | .error e, _ => some (c.goes (.over (.error e)), commands)
    | .ok _, .unjournaled => some (c.run, commands)
    | .ok _, .unbindable => some (c.goes (.over (.error .other)), commands)
    | .ok _, .row id => some (c.look dumps commands id, commands)
  | .reserving =>
    match c.command.slot column with
    | .row id =>
      match commands.lookup id with
      | some row => some (c.goes (.over (c.lateRow dumps row)), commands)
      | none => some (c.run, commands.insert id ⟨c.command.payload dumps, none⟩)
    | _ => none
  | .recording result =>
    match c.command.slot column with
    | .row id =>
      some (c.goes (.over (.ok result)),
        commands.modify id fun row => { row with result := some result })
    | _ => some (c.goes (.over (.ok result)), commands)
  | .running | .over _ | .dead => none

/-- The action comes to its end. -/
def finish (c : Call) (result : Json) : Option Call :=
  match c.stage with
  | .running => some (c.goes (.recording result))
  | _ => none

def isLive (c : Call) : Bool :=
  match c.stage with
  | .over _ | .dead => false
  | _ => true

def fail (c : Call) (e : Exception) : Option Call :=
  if c.isLive then some (c.goes (.over (.error e))) else none

def crash (c : Call) (replica : Nat) : Call :=
  if c.replica = replica ∧ c.isLive = true then c.goes .dead else c

end Call

def State.step (s : State) : Event → Option State
  | .request replica command =>
    some { s with calls := s.calls ++ [⟨replica, command, .arrived, false⟩] }
  | .step i => do
    let c ← s.calls[i]?
    let (c', commands) ← c.advance dumps column s.commands
    return ⟨commands, s.calls.set i c'⟩
  | .finish i result => do
    let c ← s.calls[i]?
    let c' ← c.finish result
    return { s with calls := s.calls.set i c' }
  | .fail i e => do
    let c ← s.calls[i]?
    let c' ← c.fail e
    return { s with calls := s.calls.set i c' }
  | .crash replica => some { s with calls := s.calls.map (·.crash replica) }

/-- The replicas over one journal. -/
def journal : Machine State Event := ⟨State.step dumps column⟩

end Steps

/-! ## The invariant -/

variable {dumps : Json → String} {column : Json → Option String}

/-- **The table and the calls fit together**: a row belongs to the one call that started under its id,
and holds the result of that call, once it has one. -/
structure State.Inv (dumps : Json → String) (column : Json → Option String) (s : State) : Prop where
  owned : ∀ id row, s.commands.lookup id = some row → ∃ (i : Nat) (c : Call), s.calls[i]? = some c ∧
    c.started = true ∧ c.command.slot column = .row id ∧ c.command.payload dumps = row.payload ∧
    ∀ r, row.result = some r → c.stage = .over (.ok r)
  reserved : ∀ (i : Nat) (c : Call) id, s.calls[i]? = some c → c.started = true → c.command.slot column = .row id →
    ∃ row, s.commands.lookup id = some row
  single : ∀ (i j : Nat) (c c' : Call) id, s.calls[i]? = some c → s.calls[j]? = some c' → c.started = true →
    c'.started = true → c.command.slot column = .row id → c'.command.slot column = .row id → i = j
  running : ∀ (i : Nat) (c : Call), s.calls[i]? = some c → (c.stage = .running ∨ ∃ r, c.stage = .recording r) →
    c.started = true
  answered : ∀ (i : Nat) (c : Call) r id, s.calls[i]? = some c → c.stage = .over (.ok r) →
    c.command.slot column = .row id →
      ∃ row, s.commands.lookup id = some row ∧ row.payload = c.command.payload dumps ∧
        row.result = some r

theorem State.Inv.initial : State.initial.Inv dumps column :=
  ⟨fun _ _ h => by simp [State.initial] at h, nofun, nofun, nofun, nofun⟩

theorem getElem?_set_cases {α : Type} {l : List α} {i j : Nat} {a b : α}
    (h : (l.set i a)[j]? = some b) : (j = i ∧ b = a) ∨ (j ≠ i ∧ l[j]? = some b) := by
  by_cases hij : i = j
  · subst hij
    have hlt : i < l.length := by
      have := (List.getElem?_eq_some_iff.mp h).1
      simpa using this
    rw [List.getElem?_set_self hlt] at h
    exact .inl ⟨rfl, (Option.some.inj h).symm⟩
  · rw [List.getElem?_set_ne hij] at h
    exact .inr ⟨fun hji => hij hji.symm, h⟩

theorem getElem?_set_of_some {α : Type} {l : List α} {i : Nat} {a b : α} (h : l[i]? = some b) :
    (l.set i a)[i]? = some a :=
  List.getElem?_set_self (List.getElem?_eq_some_iff.mp h).1

/-- A call that is still going is not the finished owner of a row. -/
theorem State.Inv.result_none {s : State} (h : s.Inv dumps column) {i : Nat} {c : Call} {id : String}
    {row : Row} (hc : s.calls[i]? = some c) (hstarted : c.started = true)
    (hslot : c.command.slot column = .row id) (hlive : c.isLive = true)
    (hrow : s.commands.lookup id = some row) : row.result = none := by
  obtain ⟨j, c', hc', hstarted', hslot', -, hresult⟩ := h.owned id row hrow
  obtain rfl := h.single i j c c' id hc hc' hstarted hstarted' hslot hslot'
  obtain rfl : c = c' := Option.some.inj (hc.symm.trans hc')
  cases hr : row.result with
  | none => rfl
  | some r =>
    rw [Call.isLive, hresult r hr] at hlive
    cases hlive

/-- A step of one call that neither reserves nor records. -/
theorem State.Inv.update {s : State} (h : s.Inv dumps column) {i : Nat} {c c' : Call}
    (hc : s.calls[i]? = some c) (hlive : c.isLive = true) (hcommand : c'.command = c.command)
    (hstarted : ∀ id, c.command.slot column = .row id → c'.started = c.started)
    (hrunning : c'.stage = .running ∨ (∃ r, c'.stage = .recording r) → c'.started = true)
    (hanswered : ∀ r id, c'.stage = .over (.ok r) → c.command.slot column = .row id →
      ∃ row, s.commands.lookup id = some row ∧ row.payload = c.command.payload dumps ∧
        row.result = some r) :
    State.Inv dumps column { s with calls := s.calls.set i c' } := by
  -- a started call of the new list was started in the old one
  have hback : ∀ (j : Nat) (d : Call) id, (s.calls.set i c')[j]? = some d → d.started = true →
      d.command.slot column = .row id →
      ∃ d' : Call, s.calls[j]? = some d' ∧ d'.started = true ∧ d'.command.slot column = .row id := by
    intro j d id hd hds hslot
    rcases getElem?_set_cases hd with ⟨rfl, rfl⟩ | ⟨-, hold⟩
    · rw [hcommand] at hslot
      exact ⟨c, hc, hstarted id hslot ▸ hds, hslot⟩
    · exact ⟨d, hold, hds, hslot⟩
  refine ⟨?_, ?_, ?_, ?_, ?_⟩
  · intro id row hrow
    obtain ⟨j, d, hd, hds, hslot, hpayload, hresult⟩ := h.owned id row hrow
    by_cases hji : j = i
    · subst hji
      obtain rfl : c = d := Option.some.inj (hc.symm.trans hd)
      have hnone := h.result_none hc hds hslot hlive hrow
      refine ⟨j, c', getElem?_set_of_some hc, (hstarted id hslot).trans hds,
        hcommand ▸ hslot, hcommand ▸ hpayload, fun r hr => ?_⟩
      rw [hnone] at hr
      cases hr
    · exact ⟨j, d, by rwa [List.getElem?_set_ne (Ne.symm hji)], hds, hslot, hpayload, hresult⟩
  · intro j d id hd hds hslot
    obtain ⟨d', hd', hds', hslot'⟩ := hback j d id hd hds hslot
    exact h.reserved j d' id hd' hds' hslot'
  · intro j k d e id hd he hds hes hdslot heslot
    obtain ⟨d', hd', hds', hdslot'⟩ := hback j d id hd hds hdslot
    obtain ⟨e', he', hes', heslot'⟩ := hback k e id he hes heslot
    exact h.single j k d' e' id hd' he' hds' hes' hdslot' heslot'
  · intro j d hd hstage
    rcases getElem?_set_cases hd with ⟨rfl, rfl⟩ | ⟨-, hold⟩
    · exact hrunning hstage
    · exact h.running j d hold hstage
  · intro j d r id hd hstage hslot
    rcases getElem?_set_cases hd with ⟨rfl, rfl⟩ | ⟨-, hold⟩
    · rw [hcommand] at hslot ⊢
      exact hanswered r id hstage hslot
    · exact h.answered j d r id hold hstage hslot

/-- A reservation: the row is new, and its call is the only one that ever started under the id. -/
theorem State.Inv.reserve {s : State} (h : s.Inv dumps column) {i : Nat} {c : Call} {id : String}
    (hc : s.calls[i]? = some c) (hslot : c.command.slot column = .row id)
    (hnone : s.commands.lookup id = none) :
    State.Inv dumps column ⟨s.commands.insert id ⟨c.command.payload dumps, none⟩,
      s.calls.set i c.run⟩ := by
  have hfree : ∀ (j : Nat) (d : Call), s.calls[j]? = some d → d.started = true →
      d.command.slot column ≠ .row id := by
    intro j d hd hds hdslot
    obtain ⟨row, hrow⟩ := h.reserved j d id hd hds hdslot
    rw [hnone] at hrow
    cases hrow
  refine ⟨?_, ?_, ?_, ?_, ?_⟩
  · intro id' row hrow
    rcases Dict.lookup_insert_cases hrow with ⟨rfl, rfl⟩ | ⟨hne, hold⟩
    · exact ⟨i, c.run, getElem?_set_of_some hc, rfl, hslot, rfl, nofun⟩
    · obtain ⟨j, d, hd, hds, hdslot, hpayload, hresult⟩ := h.owned id' row hold
      have hji : j ≠ i := by
        rintro rfl
        obtain rfl : c = d := Option.some.inj (hc.symm.trans hd)
        rw [hslot] at hdslot
        exact hne (Slot.row.inj hdslot).symm
      exact ⟨j, d, by rwa [List.getElem?_set_ne (Ne.symm hji)], hds, hdslot, hpayload, hresult⟩
  · intro j d id' hd hds hdslot
    by_cases hid : id' = id
    · subst hid
      exact ⟨_, AList.lookup_insert _⟩
    · rcases getElem?_set_cases hd with ⟨rfl, rfl⟩ | ⟨-, hold⟩
      · exact absurd (Slot.row.inj (hslot.symm.trans hdslot)).symm hid
      · obtain ⟨row, hrow⟩ := h.reserved j d id' hold hds hdslot
        exact ⟨row, by rwa [AList.lookup_insert_ne hid]⟩
  · intro j k d e id' hd he hds hes hdslot heslot
    rcases getElem?_set_cases hd with ⟨rfl, rfl⟩ | ⟨-, hdold⟩
    · obtain rfl : id = id' := Slot.row.inj (hslot.symm.trans hdslot)
      rcases getElem?_set_cases he with ⟨rfl, -⟩ | ⟨-, heold⟩
      · rfl
      · exact absurd heslot (hfree k e heold hes)
    · rcases getElem?_set_cases he with ⟨rfl, rfl⟩ | ⟨-, heold⟩
      · obtain rfl : id = id' := Slot.row.inj (hslot.symm.trans heslot)
        exact absurd hdslot (hfree j d hdold hds)
      · exact h.single j k d e id' hdold heold hds hes hdslot heslot
  · intro j d hd hstage
    rcases getElem?_set_cases hd with ⟨rfl, rfl⟩ | ⟨-, hold⟩
    · rfl
    · exact h.running j d hold hstage
  · intro j d r id' hd hstage hdslot
    rcases getElem?_set_cases hd with ⟨rfl, rfl⟩ | ⟨-, hold⟩
    · cases hstage
    · obtain ⟨row, hrow, hrest⟩ := h.answered j d r id' hold hstage hdslot
      have hid : id' ≠ id := by
        rintro rfl
        rw [hnone] at hrow
        cases hrow
      exact ⟨row, by rwa [AList.lookup_insert_ne hid], hrest⟩

/-- The result is recorded in the call's own row. -/
theorem State.Inv.record {s : State} (h : s.Inv dumps column) {i : Nat} {c : Call} {id : String}
    {result : Json} (hc : s.calls[i]? = some c) (hstage : c.stage = .recording result)
    (hslot : c.command.slot column = .row id) :
    State.Inv dumps column ⟨s.commands.modify id fun row => { row with result := some result },
      s.calls.set i (c.goes (.over (.ok result)))⟩ := by
  have hstarted : c.started = true := h.running i c hc (.inr ⟨result, hstage⟩)
  have hlive : c.isLive = true := by rw [Call.isLive, hstage]
  obtain ⟨own, hown⟩ := h.reserved i c id hc hstarted hslot
  have hownNone := h.result_none hc hstarted hslot hlive hown
  have hownPayload : own.payload = c.command.payload dumps := by
    obtain ⟨j, d, hd, hds, hdslot, hpayload, -⟩ := h.owned id own hown
    obtain rfl := h.single i j c d id hc hd hstarted hds hslot hdslot
    obtain rfl : c = d := Option.some.inj (hc.symm.trans hd)
    exact hpayload.symm
  have hback : ∀ (j : Nat) (d : Call), (s.calls.set i (c.goes (.over (.ok result))))[j]? = some d →
      ∃ d' : Call, s.calls[j]? = some d' ∧ d'.started = d.started ∧ d'.command = d.command := by
    intro j d hd
    rcases getElem?_set_cases hd with ⟨rfl, rfl⟩ | ⟨-, hold⟩
    · exact ⟨c, hc, rfl, rfl⟩
    · exact ⟨d, hold, rfl, rfl⟩
  have hlook : ∀ id', (∃ row, s.commands.lookup id' = some row) →
      ∃ row, (s.commands.modify id fun row => { row with result := some result }).lookup id'
        = some row := by
    rintro id' ⟨row, hrow⟩
    by_cases hid : id' = id
    · subst hid
      exact ⟨_, by rw [Dict.lookup_modify_self, hrow]; rfl⟩
    · exact ⟨row, by rwa [Dict.lookup_modify_ne hid]⟩
  refine ⟨?_, ?_, ?_, ?_, ?_⟩
  · intro id' row hrow
    rcases Dict.lookup_modify_cases hrow with ⟨rfl, old, hold, rfl⟩ | ⟨hne, hold⟩
    · obtain rfl : own = old := Option.some.inj (hown.symm.trans hold)
      refine ⟨i, _, getElem?_set_of_some hc, hstarted, hslot, hownPayload.symm, fun r hr => ?_⟩
      obtain rfl : result = r := Option.some.inj hr
      rfl
    · obtain ⟨j, d, hd, hds, hdslot, hpayload, hresult⟩ := h.owned id' row hold
      have hji : j ≠ i := by
        rintro rfl
        obtain rfl : c = d := Option.some.inj (hc.symm.trans hd)
        rw [hslot] at hdslot
        exact hne (Slot.row.inj hdslot).symm
      exact ⟨j, d, by rwa [List.getElem?_set_ne (Ne.symm hji)], hds, hdslot, hpayload, hresult⟩
  · intro j d id' hd hds hdslot
    obtain ⟨d', hd', hds', hcommand⟩ := hback j d hd
    exact hlook id' (h.reserved j d' id' hd' (hds'.trans hds) (hcommand ▸ hdslot))
  · intro j k d e id' hd he hds hes hdslot heslot
    obtain ⟨d', hd', hds', hdcommand⟩ := hback j d hd
    obtain ⟨e', he', hes', hecommand⟩ := hback k e he
    exact h.single j k d' e' id' hd' he' (hds'.trans hds) (hes'.trans hes) (hdcommand ▸ hdslot)
      (hecommand ▸ heslot)
  · intro j d hd hdstage
    rcases getElem?_set_cases hd with ⟨rfl, rfl⟩ | ⟨-, hold⟩
    · exact hstarted
    · exact h.running j d hold hdstage
  · intro j d r id' hd hdstage hdslot
    rcases getElem?_set_cases hd with ⟨rfl, rfl⟩ | ⟨-, hold⟩
    · obtain rfl : id = id' := Slot.row.inj (hslot.symm.trans hdslot)
      obtain rfl : result = r := by
        have := Stage.over.inj hdstage
        exact Except.ok.inj this
      exact ⟨{ own with result := some result }, by rw [Dict.lookup_modify_self, hown]; rfl,
        hownPayload, rfl⟩
    · obtain ⟨row, hrow, hpayload, hresult⟩ := h.answered j d r id' hold hdstage hdslot
      have hid : id' ≠ id := by
        rintro rfl
        obtain rfl : own = row := Option.some.inj (hown.symm.trans hrow)
        rw [hownNone] at hresult
        cases hresult
      exact ⟨row, by rwa [Dict.lookup_modify_ne hid], hpayload, hresult⟩

theorem replay_eq_ok {payload changed unfinished : String} {row : Row} {r : Json} :
    replay payload changed unfinished row = .ok r ↔ row.payload = payload ∧ row.result = some r := by
  unfold replay
  split
  · next h => simp [h]
  · next h =>
    cases hr : row.result with
    | none => simp
    | some r' => simpa [hr] using fun _ => not_not.mp h

/-- A step of a call keeps the invariant. -/
theorem State.Inv.advance {s : State} (h : s.Inv dumps column) {i : Nat} {c c' : Call}
    {commands : Dict String Row} (hc : s.calls[i]? = some c)
    (hstep : c.advance dumps column s.commands = some (c', commands)) :
    State.Inv dumps column ⟨commands, s.calls.set i c'⟩ := by
  have herror : ∀ e : Exception, c.isLive = true →
      State.Inv dumps column { s with calls := s.calls.set i (c.goes (.over (.error e))) } := by
    intro e hlive
    exact h.update hc hlive rfl (fun _ _ => rfl) (fun hr => by simp [Call.goes] at hr)
      (fun r id hr => by simp [Call.goes] at hr)
  unfold Call.advance at hstep
  split at hstep
  · next hstage =>
    have hlive : c.isLive = true := by rw [Call.isLive, hstage]
    split at hstep
    · obtain ⟨rfl, rfl⟩ := Prod.mk.inj (Option.some.inj hstep)
      exact herror _ hlive
    · next hslot =>
      obtain ⟨rfl, rfl⟩ := Prod.mk.inj (Option.some.inj hstep)
      exact h.update hc hlive rfl (fun id hid => nomatch hslot.symm.trans hid) (fun _ => rfl) nofun
    · obtain ⟨rfl, rfl⟩ := Prod.mk.inj (Option.some.inj hstep)
      exact herror _ hlive
    · next id _ hslot =>
      obtain ⟨rfl, rfl⟩ := Prod.mk.inj (Option.some.inj hstep)
      unfold Call.look
      split
      · next row hrow =>
        refine h.update hc hlive rfl (fun _ _ => rfl) (fun hr => by simp [Call.goes] at hr) ?_
        intro r id' hr hid'
        obtain rfl : id = id' := Slot.row.inj (hslot.symm.trans hid')
        obtain ⟨hpayload, hresult⟩ := replay_eq_ok.mp (Stage.over.inj hr)
        exact ⟨row, hrow, hpayload, hresult⟩
      · exact h.update hc hlive rfl (fun _ _ => rfl) (fun hr => by simp [Call.goes] at hr) nofun
  · next hstage =>
    have hlive : c.isLive = true := by rw [Call.isLive, hstage]
    split at hstep
    · next id hslot =>
      split at hstep
      · next row hrow =>
        obtain ⟨rfl, rfl⟩ := Prod.mk.inj (Option.some.inj hstep)
        refine h.update hc hlive rfl (fun _ _ => rfl) (fun hr => by simp [Call.goes] at hr) ?_
        intro r id' hr hid'
        obtain rfl : id = id' := Slot.row.inj (hslot.symm.trans hid')
        have hlate : c.lateRow dumps row = .ok r := Stage.over.inj hr
        unfold Call.lateRow at hlate
        split at hlate
        · obtain ⟨hpayload, hresult⟩ := replay_eq_ok.mp hlate
          exact ⟨row, hrow, hpayload, hresult⟩
        · cases hlate
      · next hnone =>
        obtain ⟨rfl, rfl⟩ := Prod.mk.inj (Option.some.inj hstep)
        exact h.reserve hc hslot hnone
    · cases hstep
  · next result hstage =>
    have hlive : c.isLive = true := by rw [Call.isLive, hstage]
    split at hstep
    · next id hslot =>
      obtain ⟨rfl, rfl⟩ := Prod.mk.inj (Option.some.inj hstep)
      exact h.record hc hstage hslot
    · next hother =>
      obtain ⟨rfl, rfl⟩ := Prod.mk.inj (Option.some.inj hstep)
      exact h.update hc hlive rfl (fun _ _ => rfl) (fun hr => by simp [Call.goes] at hr)
        (fun r id _ hid => absurd hid (hother id))
  · cases hstep
  · cases hstep
  · cases hstep

theorem State.Inv.request {s : State} (h : s.Inv dumps column) (replica : Nat) (command : Command) :
    State.Inv dumps column { s with calls := s.calls ++ [⟨replica, command, .arrived, false⟩] } := by
  have hback : ∀ (j : Nat) (d : Call),
      (s.calls ++ [⟨replica, command, .arrived, false⟩])[j]? = some d →
      s.calls[j]? = some d ∨ (d.started = false ∧ d.stage = .arrived) := by
    intro j d hd
    rcases Nat.lt_or_ge j s.calls.length with hj | hj
    · rw [List.getElem?_append_left hj] at hd
      exact .inl hd
    · rw [List.getElem?_append_right hj] at hd
      obtain rfl := List.mem_singleton.mp (List.mem_of_getElem? hd)
      exact .inr ⟨rfl, rfl⟩
  have hstarted : ∀ (j : Nat) (d : Call),
      (s.calls ++ [⟨replica, command, .arrived, false⟩])[j]? = some d → d.started = true →
      s.calls[j]? = some d := by
    intro j d hd hds
    rcases hback j d hd with hold | ⟨hnot, -⟩
    · exact hold
    · rw [hds] at hnot
      cases hnot
  refine ⟨?_, ?_, ?_, ?_, ?_⟩
  · intro id row hrow
    obtain ⟨j, d, hd, hrest⟩ := h.owned id row hrow
    exact ⟨j, d, by rw [List.getElem?_append_left (List.getElem?_eq_some_iff.mp hd).1]; exact hd,
      hrest⟩
  · intro j d id hd hds
    exact h.reserved j d id (hstarted j d hd hds) hds
  · intro j k d e id hd he hds hes
    exact h.single j k d e id (hstarted j d hd hds) (hstarted k e he hes) hds hes
  · intro j d hd hstage
    rcases hback j d hd with hold | ⟨-, harrived⟩
    · exact h.running j d hold hstage
    · rw [harrived] at hstage
      simp at hstage
  · intro j d r id hd hstage
    rcases hback j d hd with hold | ⟨-, harrived⟩
    · exact h.answered j d r id hold hstage
    · rw [harrived] at hstage
      cases hstage

theorem Call.crash_cases (c : Call) (replica : Nat) :
    c.crash replica = c ∨ (c.isLive = true ∧ c.crash replica = c.goes .dead) := by
  unfold crash
  split
  · next h => exact .inr ⟨h.2, rfl⟩
  · exact .inl rfl

theorem State.Inv.crash {s : State} (h : s.Inv dumps column) (replica : Nat) :
    State.Inv dumps column { s with calls := s.calls.map (·.crash replica) } := by
  have hback : ∀ (j : Nat) (d : Call), (s.calls.map (·.crash replica))[j]? = some d →
      ∃ d' : Call, s.calls[j]? = some d' ∧ d'.started = d.started ∧ d'.command = d.command ∧
        (d = d' ∨ d.stage = .dead) := by
    intro j d hd
    rw [List.getElem?_map, Option.map_eq_some_iff] at hd
    obtain ⟨d', hd', rfl⟩ := hd
    rcases d'.crash_cases replica with heq | ⟨-, heq⟩
    · exact ⟨d', hd', by rw [heq], by rw [heq], .inl heq⟩
    · exact ⟨d', hd', by rw [heq]; rfl, by rw [heq]; rfl, .inr (by rw [heq]; rfl)⟩
  refine ⟨?_, ?_, ?_, ?_, ?_⟩
  · intro id row hrow
    obtain ⟨j, d, hd, hds, hslot, hpayload, hresult⟩ := h.owned id row hrow
    refine ⟨j, d.crash replica, by rw [List.getElem?_map, hd]; rfl, ?_⟩
    rcases d.crash_cases replica with heq | ⟨hlive, heq⟩
    · rw [heq]
      exact ⟨hds, hslot, hpayload, hresult⟩
    · rw [heq]
      refine ⟨hds, hslot, hpayload, fun r hr => ?_⟩
      rw [h.result_none hd hds hslot hlive hrow] at hr
      cases hr
  · intro j d id hd hds hslot
    obtain ⟨d', hd', hds', hcommand, -⟩ := hback j d hd
    exact h.reserved j d' id hd' (hds'.trans hds) (hcommand ▸ hslot)
  · intro j k d e id hd he hds hes hdslot heslot
    obtain ⟨d', hd', hds', hdcommand, -⟩ := hback j d hd
    obtain ⟨e', he', hes', hecommand, -⟩ := hback k e he
    exact h.single j k d' e' id hd' he' (hds'.trans hds) (hes'.trans hes) (hdcommand ▸ hdslot)
      (hecommand ▸ heslot)
  · intro j d hd hstage
    obtain ⟨d', hd', -, -, rfl | hdead⟩ := hback j d hd
    · exact h.running j d hd' hstage
    · rw [hdead] at hstage
      simp at hstage
  · intro j d r id hd hstage hslot
    obtain ⟨d', hd', -, -, rfl | hdead⟩ := hback j d hd
    · exact h.answered j d r id hd' hstage hslot
    · rw [hdead] at hstage
      cases hstage

theorem State.Inv.step {s t : State} {ev : Event} (h : s.Inv dumps column)
    (hstep : s.step dumps column ev = some t) : t.Inv dumps column := by
  cases ev with
  | request replica command =>
    obtain rfl := Option.some.inj hstep
    exact h.request replica command
  | step i =>
    simp only [State.step, Option.bind_eq_bind, Option.bind_eq_some_iff, Option.pure_def,
      Option.some.injEq] at hstep
    obtain ⟨c, hc, ⟨c', commands⟩, hadvance, rfl⟩ := hstep
    exact h.advance hc hadvance
  | finish i result =>
    simp only [State.step, Option.bind_eq_bind, Option.bind_eq_some_iff, Option.pure_def,
      Option.some.injEq] at hstep
    obtain ⟨c, hc, c', hfinish, rfl⟩ := hstep
    unfold Call.finish at hfinish
    split at hfinish
    · next hstage =>
      obtain rfl := Option.some.inj hfinish
      exact h.update hc (by rw [Call.isLive, hstage]) rfl (fun _ _ => rfl)
        (fun _ => h.running i c hc (.inl hstage)) nofun
    · cases hfinish
  | fail i e =>
    simp only [State.step, Option.bind_eq_bind, Option.bind_eq_some_iff, Option.pure_def,
      Option.some.injEq] at hstep
    obtain ⟨c, hc, c', hfail, rfl⟩ := hstep
    unfold Call.fail at hfail
    split at hfail
    · next hlive =>
      obtain rfl := Option.some.inj hfail
      exact h.update hc hlive rfl (fun _ _ => rfl) (fun hr => by simp [Call.goes] at hr)
        (fun r id hr => by simp [Call.goes] at hr)
    · cases hfail
  | crash replica =>
    obtain rfl := Option.some.inj hstep
    exact h.crash replica

/-! ## At most once -/

/-- What the journal promises for every request id. -/
structure State.AtMostOnce (dumps : Json → String) (column : Json → Option String) (s : State) :
    Prop where
  /-- Of all calls with one id, one at most carries out its action. -/
  single : ∀ (i j : Nat) (c c' : Call) id, s.calls[i]? = some c → s.calls[j]? = some c' →
    c.started = true → c'.started = true → c.command.slot column = .row id →
    c'.command.slot column = .row id → i = j
  /-- A call that returns a result returns the one of the call that carried out the action, for the
  same payload; any other call is rejected. -/
  repeated : ∀ (i : Nat) (c : Call) r id, s.calls[i]? = some c → c.stage = .over (.ok r) →
    c.command.slot column = .row id → ∃ (j : Nat) (c' : Call), s.calls[j]? = some c' ∧
      c'.started = true ∧ c'.command.slot column = .row id ∧
      c'.command.payload dumps = c.command.payload dumps ∧ c'.stage = .over (.ok r)
  /-- With another payload under the id of an action that started, nothing is carried out and nothing
  returned. -/
  changed : ∀ (i j : Nat) (c c' : Call) id, s.calls[i]? = some c → s.calls[j]? = some c' →
    c.started = true → c.command.slot column = .row id → c'.command.slot column = .row id →
    c'.command.payload dumps ≠ c.command.payload dumps →
      c'.started = false ∧ ∀ r, c'.stage ≠ .over (.ok r)

theorem State.Inv.atMostOnce {s : State} (h : s.Inv dumps column) : s.AtMostOnce dumps column := by
  have hrepeated : ∀ (i : Nat) (c : Call) r id, s.calls[i]? = some c → c.stage = .over (.ok r) →
      c.command.slot column = .row id → ∃ (j : Nat) (c' : Call), s.calls[j]? = some c' ∧
        c'.started = true ∧ c'.command.slot column = .row id ∧
        c'.command.payload dumps = c.command.payload dumps ∧ c'.stage = .over (.ok r) := by
    intro i c r id hc hstage hslot
    obtain ⟨row, hrow, hpayload, hresult⟩ := h.answered i c r id hc hstage hslot
    obtain ⟨j, c', hc', hstarted, hslot', hpayload', hrecorded⟩ := h.owned id row hrow
    exact ⟨j, c', hc', hstarted, hslot', hpayload'.trans hpayload, hrecorded r hresult⟩
  refine ⟨h.single, hrepeated, ?_⟩
  intro i j c c' id hc hc' hstarted hslot hslot' hne
  constructor
  · cases hstarted' : c'.started with
    | false => rfl
    | true =>
      obtain rfl := h.single i j c c' id hc hc' hstarted hstarted' hslot hslot'
      obtain rfl : c = c' := Option.some.inj (hc.symm.trans hc')
      exact absurd rfl hne
  · intro r hr
    obtain ⟨k, c'', hc'', hstarted'', hslot'', hpayload, -⟩ := hrepeated j c' r id hc' hr hslot'
    obtain rfl := h.single i k c c'' id hc hc'' hstarted hstarted'' hslot hslot''
    obtain rfl : c = c'' := Option.some.inj (hc.symm.trans hc'')
    exact hne hpayload.symm

/-- **Lifecycle actions run at most once.** For every sequence and interleaving of sandbox and agent
actions at any number of replicas, with failures and crashes anywhere: one call at most carries out the
action of a request id, a repeated request gets that call's result or is rejected, and the same id with
another payload is never carried out. -/
theorem actions_at_most_once (dumps : Json → String) (column : Json → Option String)
    (es : List Event) :
    (journal dumps column).Throughout (State.AtMostOnce dumps column) State.initial es :=
  ((journal dumps column).throughout_always (fun _ _ _ h hstep => State.Inv.step h hstep) es
    State.Inv.initial).imp (journal dumps column) fun _ h => h.atMostOnce

end OpencodeCloud.Sandbox.Journal
