/-
# OpencodeCloud.Router.Recording -- the routes of new sessions are written in batches

`native_router.SessionRecorder`. A call of `record` appends its entry to `pending`, starts a worker when
none is running, and waits for a future of its own. The worker sleeps, takes up to 64 entries, has them
written by `record_sessions_batch` in a thread, and settles their futures; it ends when nothing is
pending. The event loop runs one stretch between two awaits at a time; the events are these stretches,
the write in the thread, and the transactions of others.

`recorder_settles`: the entries that were handed over and those that are pending are the entries of all
calls, in order and once each; nothing is pending without a worker; a call returns the result of its own
entry only, at most once; and with enough steps of the worker every call has it, or was cancelled.
-/
import OpencodeCloud.Sandbox.Registry

namespace OpencodeCloud.Router.Recording

open OpencodeCloud.Library
open OpencodeCloud.Sandbox (Registry.Db Registry.SessionRow Registry.Command)
open OpencodeCloud.Sandbox.Registry (Error)
open OpencodeCloud.Sandbox.Registry.Db (Entry)

/-! ## §A Calls and batches -/

/-- What a future is settled with: the exception of its entry, or that of the whole batch. -/
inductive Failure where
  | own (e : Error)
  | batch (e : String)
  deriving DecidableEq

abbrev Outcome := Except Failure Registry.SessionRow

inductive Future where
  | pending
  | cancelled
  | settled (o : Outcome)

/-- Where the call is, seen by its caller. -/
inductive Caller where
  | waiting
  | returned (o : Outcome)
  | cancelled

/-- A call of `record`. -/
structure Call where
  entry : Entry
  future : Future
  caller : Caller

/-- `if future.done(): continue`, and else the result is set. -/
def Call.settle (o : Outcome) (c : Call) : Call :=
  match c.future with
  | .pending => { c with future := .settled o }
  | _ => c

/-- An entry in the queue, with the number of its call, which stands for the future. -/
abbrev Item := Entry × Nat

/-- A batch that was written, or raised: `failed` is what was raised for all of it. -/
structure Written where
  batch : List Item
  /-- the tables before -/
  db : Registry.Db
  failed : Option String

/-- `results`. -/
def Written.results (w : Written) : List Outcome :=
  match w.failed with
  | some e => List.replicate w.batch.length (.error (.batch e))
  | none => (w.db.recordSessionsBatch (w.batch.map (·.1))).1.map (Except.mapError .own)

/-- The tables after the write. -/
def Written.after (w : Written) : Registry.Db :=
  match w.failed with
  | some _ => w.db
  | none => (w.db.recordSessionsBatch (w.batch.map (·.1))).2

/-! ## §B The worker -/

inductive Worker where
  /-- `self.worker is None or self.worker.done()` -/
  | absent
  /-- the task is created and did not run yet -/
  | starting
  /-- asleep for 5 ms -/
  | collecting
  /-- the thread was handed a batch -/
  | writing (batch : List Item)
  /-- the thread is done -/
  | returned (w : Written)

/-- The batch that is neither pending nor settled. -/
def Worker.batch : Worker → List Item
  | .writing batch => batch
  | .returned w => w.batch
  | _ => []

structure Recorder where
  calls : List Call
  pending : List Item
  worker : Worker
  db : Registry.Db
  /-- history, not a variable of the code: the batches whose futures are settled -/
  written : List Written

/-- `SessionRecorder(registry)`. -/
def Recorder.initial (db : Registry.Db) : Recorder := ⟨[], [], .absent, db, []⟩

inductive Event where
  /-- `record`, up to its await -/
  | record (e : Entry)
  /-- the caller is cancelled while it waits -/
  | cancel (call : Nat)
  /-- the await of a settled future returns or raises -/
  | resume (call : Nat)
  /-- the task runs for the first time -/
  | start
  /-- the sleep is over: a batch is handed over -/
  | take
  /-- `record_sessions_batch` runs, or raises -/
  | write (failed : Option String)
  /-- the await of the thread is over: the futures are settled -/
  | settle
  /-- a transaction of somebody else -/
  | other (c : Registry.Command)

/-- The steps of the worker and of its thread. -/
def Event.ofWorker : Event → Bool
  | .start | .take | .write _ | .settle => true
  | _ => false

namespace Recorder

/-- `while self.pending`. -/
def loop (s : Recorder) : Recorder :=
  { s with worker := if s.pending.isEmpty then .absent else .collecting }

/-- The futures of a batch, one after the other. -/
def settleAll (calls : List Call) (results : List (Item × Outcome)) : List Call :=
  results.foldl (fun calls x => calls.modify x.1.2 (Call.settle x.2)) calls

def step (s : Recorder) : Event → Option Recorder
  | .record e =>
    some { s with
      calls := s.calls ++ [⟨e, .pending, .waiting⟩]
      pending := s.pending ++ [(e, s.calls.length)]
      worker := match s.worker with
        | .absent => .starting
        | worker => worker }
  | .cancel k =>
    match s.calls[k]? with
    | some ⟨entry, future, .waiting⟩ =>
      let future := match future with
        | .pending => .cancelled
        | future => future
      some { s with calls := s.calls.set k ⟨entry, future, .cancelled⟩ }
    | _ => none
  | .resume k =>
    match s.calls[k]? with
    | some ⟨entry, .settled o, .waiting⟩ =>
      some { s with calls := s.calls.set k ⟨entry, .settled o, .returned o⟩ }
    | _ => none
  | .start =>
    match s.worker with
    | .starting => some s.loop
    | _ => none
  | .take =>
    match s.worker with
    | .collecting =>
      some { s with worker := .writing (s.pending.take 64), pending := s.pending.drop 64 }
    | _ => none
  | .write failed =>
    match s.worker with
    | .writing batch =>
      let w : Written := ⟨batch, s.db, failed⟩
      some { s with worker := .returned w, db := w.after }
    | _ => none
  | .settle =>
    match s.worker with
    | .returned w =>
      some (loop { s with
        calls := settleAll s.calls (w.batch.zip w.results)
        written := s.written ++ [w] })
    | _ => none
  | .other c => some { s with db := Sandbox.Registry.perform s.db c }

end Recorder

/-- The recorder among its callers. -/
def recorder : Machine Recorder Event := ⟨Recorder.step⟩

/-- What a step does. -/
inductive Moves (s : Recorder) : Event → Recorder → Prop
  | record (e : Entry) : Moves s (.record e) { s with
      calls := s.calls ++ [⟨e, .pending, .waiting⟩]
      pending := s.pending ++ [(e, s.calls.length)]
      worker := match s.worker with
        | .absent => .starting
        | worker => worker }
  | cancel {k : Nat} {entry : Entry} {future future' : Future}
      (hc : s.calls[k]? = some ⟨entry, future, .waiting⟩)
      (hsettled : ∀ o, future' = .settled o ↔ future = .settled o) (hpending : future' ≠ .pending) :
      Moves s (.cancel k) { s with calls := s.calls.set k ⟨entry, future', .cancelled⟩ }
  | resume {k : Nat} {entry : Entry} {o : Outcome}
      (hc : s.calls[k]? = some ⟨entry, .settled o, .waiting⟩) :
      Moves s (.resume k) { s with calls := s.calls.set k ⟨entry, .settled o, .returned o⟩ }
  | start (hworker : s.worker = .starting) : Moves s .start s.loop
  | take (hworker : s.worker = .collecting) : Moves s .take { s with
      worker := .writing (s.pending.take 64)
      pending := s.pending.drop 64 }
  | write {batch : List Item} (hworker : s.worker = .writing batch) (failed : Option String) :
      Moves s (.write failed) { s with
        worker := .returned ⟨batch, s.db, failed⟩
        db := Written.after ⟨batch, s.db, failed⟩ }
  | settle {w : Written} (hworker : s.worker = .returned w) : Moves s .settle (Recorder.loop { s with
      calls := Recorder.settleAll s.calls (w.batch.zip w.results)
      written := s.written ++ [w] })
  | other (c : Registry.Command) : Moves s (.other c) { s with db := Sandbox.Registry.perform s.db c }

theorem moves_of_step {s t : Recorder} {e : Event} (h : s.step e = some t) : Moves s e t := by
  cases e with
  | record e =>
    obtain rfl := Option.some.inj h
    exact .record e
  | cancel k =>
    simp only [Recorder.step] at h
    split at h
    · next entry future hc =>
      obtain rfl := Option.some.inj h
      refine .cancel hc (fun o => ?_) ?_
      · cases future <;> simp
      · cases future <;> simp
    · cases h
  | resume k =>
    simp only [Recorder.step] at h
    split at h
    · next entry o hc =>
      obtain rfl := Option.some.inj h
      exact .resume hc
    · cases h
  | start =>
    simp only [Recorder.step] at h
    split at h
    · next hworker =>
      obtain rfl := Option.some.inj h
      exact .start hworker
    · cases h
  | take =>
    simp only [Recorder.step] at h
    split at h
    · next hworker =>
      obtain rfl := Option.some.inj h
      exact .take hworker
    · cases h
  | write failed =>
    simp only [Recorder.step] at h
    split at h
    · next batch hworker =>
      obtain rfl := Option.some.inj h
      exact .write hworker failed
    · cases h
  | settle =>
    simp only [Recorder.step] at h
    split at h
    · next w hworker =>
      obtain rfl := Option.some.inj h
      exact .settle hworker
    · cases h
  | other c =>
    obtain rfl := Option.some.inj h
    exact .other c

/-! ## §C Futures -/

section Futures

variable {calls : List Call} {results : List (Item × Outcome)} {k : Nat} {c : Call} {o : Outcome}

@[simp] theorem Call.settle_entry (o : Outcome) (c : Call) : (c.settle o).entry = c.entry := by
  unfold Call.settle
  split <;> rfl

@[simp] theorem Call.settle_caller (o : Outcome) (c : Call) : (c.settle o).caller = c.caller := by
  unfold Call.settle
  split <;> rfl

/-- A future that is not settled yet is settled or stays cancelled. -/
theorem Call.settle_future (o : Outcome) {c : Call} (h : ∀ o', c.future ≠ .settled o') :
    ((c.settle o).future = .settled o ∧ c.future = .pending) ∨
      ((c.settle o).future = .cancelled ∧ c.future = .cancelled) := by
  unfold Call.settle
  cases hf : c.future with
  | pending => exact .inl ⟨rfl, rfl⟩
  | cancelled => exact .inr ⟨hf, rfl⟩
  | settled o' => exact absurd hf (h o')

theorem settleAll_not_mem (h : ∀ x ∈ results, x.1.2 ≠ k) :
    (Recorder.settleAll calls results)[k]? = calls[k]? := by
  induction results generalizing calls with
  | nil => rfl
  | cons x results ih =>
    have hne := h x List.mem_cons_self
    rw [Recorder.settleAll, List.foldl_cons]
    refine (ih fun y hy => h y (List.mem_cons_of_mem _ hy)).trans ?_
    simp [hne]

/-- Every future of the results is settled with its own one. -/
theorem settleAll_mem (hnodup : (results.map (·.1.2)).Nodup) {x : Item × Outcome} (hx : x ∈ results)
    (hc : calls[x.1.2]? = some c) :
    (Recorder.settleAll calls results)[x.1.2]? = some (c.settle x.2) := by
  induction results generalizing calls with
  | nil => cases hx
  | cons y results ih =>
    rw [List.map_cons, List.nodup_cons] at hnodup
    rw [Recorder.settleAll, List.foldl_cons]
    rcases List.mem_cons.mp hx with rfl | hx
    · refine (settleAll_not_mem fun y hy hsame => hnodup.1 ?_).trans ?_
      · exact hsame ▸ List.mem_map_of_mem hy
      · simp [hc]
    · have hne : y.1.2 ≠ x.1.2 := by
        intro hsame
        exact hnodup.1 (hsame ▸ List.mem_map_of_mem hx)
      refine ih hnodup.2 hx ?_
      simp [hne, hc]

theorem settleAll_length (results : List (Item × Outcome)) :
    (Recorder.settleAll calls results).length = calls.length := by
  induction results generalizing calls with
  | nil => rfl
  | cons y results ih =>
    rw [Recorder.settleAll, List.foldl_cons]
    exact ih.trans (List.length_modify ..)

/-- Each call comes out as it was or settled with its result. -/
theorem settleAll_cases (hnodup : (results.map (·.1.2)).Nodup)
    (h : (Recorder.settleAll calls results)[k]? = some c) :
    ∃ c₀, calls[k]? = some c₀ ∧
      ((c = c₀ ∧ ∀ x ∈ results, x.1.2 ≠ k) ∨ ∃ x ∈ results, x.1.2 = k ∧ c = c₀.settle x.2) := by
  by_cases hmem : ∃ x ∈ results, x.1.2 = k
  · obtain ⟨x, hx, rfl⟩ := hmem
    cases hc : calls[x.1.2]? with
    | none =>
      rw [List.getElem?_eq_none_iff, ← settleAll_length results] at hc
      rw [List.getElem?_eq_none_iff.mpr hc] at h
      cases h
    | some c₀ =>
      rw [settleAll_mem hnodup hx hc] at h
      exact ⟨c₀, rfl, .inr ⟨x, hx, rfl, (Option.some.inj h).symm⟩⟩
  · push Not at hmem
    rw [settleAll_not_mem hmem] at h
    exact ⟨c, h, .inl ⟨rfl, hmem⟩⟩

end Futures

/-! ## §D The queue -/

/-- The items of all calls, in order. -/
def itemsOf (calls : List Call) : List Item := calls.mapIdx fun k c => (c.entry, k)

/-- What was handed to `record_sessions_batch`, in order. -/
def Recorder.handed (s : Recorder) : List Item := s.written.flatMap (·.batch) ++ s.worker.batch

section Queue

variable {calls calls' : List Call}

theorem itemsOf_append (c : Call) :
    itemsOf (calls ++ [c]) = itemsOf calls ++ [(c.entry, calls.length)] := by
  simp [itemsOf, List.mapIdx_append]

theorem mem_itemsOf {x : Item} : x ∈ itemsOf calls ↔ ∃ c, calls[x.2]? = some c ∧ c.entry = x.1 := by
  simp only [itemsOf, List.mem_iff_getElem?, List.getElem?_mapIdx, Option.map_eq_some_iff]
  constructor
  · rintro ⟨k, c, hc, rfl⟩
    exact ⟨c, hc, rfl⟩
  · rintro ⟨c, hc, he⟩
    exact ⟨x.2, c, hc, by rw [he]⟩

theorem itemsOf_congr (h : ∀ k : Nat, (calls'[k]?).map Call.entry = (calls[k]?).map Call.entry) :
    itemsOf calls' = itemsOf calls := by
  refine List.ext_getElem? fun k => ?_
  simp only [itemsOf, List.getElem?_mapIdx]
  have hk := h k
  cases hc' : calls'[k]? <;> cases hc : calls[k]? <;> simp_all

/-- The numbers of the calls are all different. -/
theorem itemsOf_nodup : ((itemsOf calls).map (·.2)).Nodup := by
  have : (itemsOf calls).map (·.2) = List.range calls.length := by
    refine List.ext_getElem? fun k => ?_
    simp only [itemsOf, List.getElem?_map, List.getElem?_mapIdx]
    by_cases hk : k < calls.length
    · simp [hk]
    · simp [hk]
  rw [this]
  exact List.nodup_range

end Queue

/-- A batch has one result for each item. -/
theorem Written.results_length (w : Written) : w.results.length = w.batch.length := by
  unfold Written.results
  split
  · rw [List.length_replicate]
  · rw [List.length_map, Sandbox.Registry.batch_eq_each]
    have hlength : ∀ (entries : List Entry) (db : Registry.Db),
        (db.recordEach entries).1.length = entries.length := by
      intro entries
      induction entries with
      | nil => exact fun _ => rfl
      | cons e entries ih =>
        intro db
        simp [Sandbox.Registry.Db.recordEach, ih]
    rw [hlength, List.length_map]

theorem Written.zip_items (w : Written) : (w.batch.zip w.results).map (·.1) = w.batch :=
  List.map_fst_zip (Nat.le_of_eq w.results_length.symm)

/-! ## §E The invariant -/

/-- Call `k` has the outcome of its own entry, in a batch that was written. -/
def Recorder.HasOutcome (s : Recorder) (k : Nat) (c : Call) (o : Outcome) : Prop :=
  ∃ w ∈ s.written, ((c.entry, k), o) ∈ w.batch.zip w.results

structure Orderly (s : Recorder) : Prop where
  /-- every entry is in the queue once -/
  order : s.handed ++ s.pending = itemsOf s.calls
  idle : s.worker = .absent → s.pending = []
  busy : s.worker = .starting ∨ s.worker = .collecting → s.pending ≠ []
  /-- what is not settled yet -/
  waiting : ∀ x ∈ s.worker.batch ++ s.pending, ∀ c : Call, s.calls[x.2]? = some c → ∀ o, c.future ≠ .settled o
  /-- a batch that was settled has settled or cancelled calls -/
  settled : ∀ w ∈ s.written, ∀ x ∈ w.batch, ∀ c : Call, s.calls[x.2]? = some c → c.future ≠ .pending
  own : ∀ (k : Nat) (c : Call) (o : Outcome), s.calls[k]? = some c → c.future = .settled o → s.HasOutcome k c o
  returned : ∀ (k : Nat) (c : Call) (o : Outcome), s.calls[k]? = some c → c.caller = .returned o → c.future = .settled o
  cancelled : ∀ (k : Nat) (c : Call), s.calls[k]? = some c → c.future = .cancelled → c.caller = .cancelled

theorem Orderly.initial (db : Registry.Db) : Orderly (Recorder.initial db) := by
  constructor <;> simp [Recorder.initial, Recorder.handed, Worker.batch, itemsOf]

section Keep

variable {s : Recorder}

/-- A call is changed at its caller's side. -/
theorem Orderly.set (hs : Orderly s) {k : Nat} {c c' : Call} (hc : s.calls[k]? = some c)
    (hentry : c'.entry = c.entry) (hsettled : ∀ o, c'.future = .settled o ↔ c.future = .settled o)
    (hpending : c'.future = .pending → c.future = .pending)
    (hreturned : ∀ o, c'.caller = .returned o → c'.future = .settled o)
    (hcancelled : c'.future = .cancelled → c'.caller = .cancelled) :
    Orderly { s with calls := s.calls.set k c' } := by
  have hget : ∀ (j : Nat) (d : Call), (s.calls.set k c')[j]? = some d →
      (j = k ∧ d = c') ∨ (j ≠ k ∧ s.calls[j]? = some d) := by
    intro j d hd
    rw [List.getElem?_set] at hd
    split at hd
    · next hkj =>
      split at hd
      · exact .inl ⟨hkj.symm, (Option.some.inj hd).symm⟩
      · cases hd
    · next hkj => exact .inr ⟨Ne.symm hkj, hd⟩
  have hitems : itemsOf (s.calls.set k c') = itemsOf s.calls := by
    refine itemsOf_congr fun j => ?_
    rw [List.getElem?_set]
    split
    · next hkj =>
      subst hkj
      split
      · rw [hc, Option.map_some, Option.map_some, hentry]
      · next hlt => rw [List.getElem?_eq_none_iff.mpr (not_lt.mp hlt)]
    · rfl
  refine ⟨hs.order.trans hitems.symm, hs.idle, hs.busy, fun x hx d hd o ho => ?_,
    fun w hw x hx d hd hp => ?_, fun j d o hd ho => ?_, fun j d o hd hd' => ?_, fun j d hd hd' => ?_⟩
  · rcases hget _ d hd with ⟨hj, rfl⟩ | ⟨-, hd⟩
    · exact hs.waiting x hx c (hj ▸ hc) o ((hsettled o).mp ho)
    · exact hs.waiting x hx d hd o ho
  · rcases hget _ d hd with ⟨hj, rfl⟩ | ⟨-, hd⟩
    · exact hs.settled w hw x hx c (hj ▸ hc) (hpending hp)
    · exact hs.settled w hw x hx d hd hp
  · rcases hget j d hd with ⟨rfl, rfl⟩ | ⟨-, hd⟩
    · obtain ⟨w, hw, hmem⟩ := hs.own j c o hc ((hsettled o).mp ho)
      exact ⟨w, hw, by rw [hentry]; exact hmem⟩
    · exact hs.own j d o hd ho
  · rcases hget j d hd with ⟨-, rfl⟩ | ⟨-, hd⟩
    · exact hreturned o hd'
    · exact hs.returned j d o hd hd'
  · rcases hget j d hd with ⟨-, rfl⟩ | ⟨-, hd⟩
    · exact hcancelled hd'
    · exact hs.cancelled j d hd hd'

/-- The numbers in the queue are numbers of calls. -/
theorem Orderly.lt_of_mem (hs : Orderly s) {x : Item} (hx : x ∈ s.handed ++ s.pending) :
    x.2 < s.calls.length := by
  rw [hs.order, mem_itemsOf] at hx
  obtain ⟨c, hc, -⟩ := hx
  exact (List.getElem?_eq_some_iff.mp hc).1

/-- A new call at the end. -/
theorem Orderly.record (hs : Orderly s) (e : Entry) {t : Recorder} (h : s.step (.record e) = some t) : Orderly t := by
  obtain rfl := Option.some.inj h
  have hget : ∀ (j : Nat) (d : Call), (s.calls ++ [⟨e, .pending, .waiting⟩])[j]? = some d →
      (j = s.calls.length ∧ d = ⟨e, .pending, .waiting⟩) ∨ s.calls[j]? = some d := by
    intro j d hd
    rw [List.getElem?_append] at hd
    split at hd
    · exact .inr hd
    · next hj =>
      have hmem := List.mem_of_getElem? hd
      rw [List.mem_singleton] at hmem
      have hlt := (List.getElem?_eq_some_iff.mp hd).1
      rw [List.length_singleton] at hlt
      exact .inl ⟨by omega, hmem⟩
  have hbatch : ∀ worker : Worker, Worker.batch
      (match worker with
        | .absent => .starting
        | worker => worker) = worker.batch := by
    intro worker
    cases worker <;> rfl
  have hhanded : ∀ x ∈ s.handed ++ s.pending, x.2 ≠ s.calls.length :=
    fun x hx => Nat.ne_of_lt (hs.lt_of_mem hx)
  refine ⟨?_, fun hidle => ?_, fun _ => by simp, fun x hx d hd o ho => ?_, fun w hw x hx d hd hp => ?_,
    fun j d o hd ho => ?_, fun j d o hd hd' => ?_, fun j d hd hd' => ?_⟩
  · rw [itemsOf_append, ← hs.order, List.append_assoc]
    simp only [Recorder.handed, hbatch, List.append_assoc]
  · dsimp only at hidle
    split at hidle <;> simp_all
  · rcases hget _ d hd with ⟨-, rfl⟩ | hd
    · cases ho
    · simp only [hbatch, List.mem_append, List.mem_singleton] at hx
      rcases hx with hx | hx | rfl
      · exact hs.waiting x (List.mem_append_left _ hx) d hd o ho
      · exact hs.waiting x (List.mem_append_right _ hx) d hd o ho
      · exact absurd (List.getElem?_eq_some_iff.mp hd).1 (Nat.lt_irrefl _)
  · rcases hget _ d hd with ⟨hj, rfl⟩ | hd
    · refine hhanded x (List.mem_append_left _ (List.mem_append_left _ ?_)) hj
      exact List.mem_flatMap.mpr ⟨w, hw, hx⟩
    · exact hs.settled w hw x hx d hd hp
  · rcases hget j d hd with ⟨-, rfl⟩ | hd
    · cases ho
    · exact hs.own j d o hd ho
  · rcases hget j d hd with ⟨-, rfl⟩ | hd
    · cases hd'
    · exact hs.returned j d o hd hd'
  · rcases hget j d hd with ⟨-, rfl⟩ | hd
    · cases hd'
    · exact hs.cancelled j d hd hd'

/-- The condition of the loop. -/
theorem Orderly.loop (hs : Orderly s) (hworker : s.worker.batch = []) : Orderly s.loop := by
  have hbatch : s.loop.worker.batch = [] := by
    unfold Recorder.loop
    split <;> rfl
  have hhanded : s.loop.handed = s.handed := by
    rw [Recorder.handed, Recorder.handed, hbatch, hworker]
    rfl
  refine ⟨?_, fun hidle => ?_, fun hbusy => ?_, fun x hx => ?_, hs.settled, hs.own, hs.returned,
    hs.cancelled⟩
  · rw [hhanded]
    exact hs.order
  · unfold Recorder.loop at hidle ⊢
    dsimp only at hidle ⊢
    split at hidle
    · next hempty => exact List.isEmpty_iff.mp hempty
    · cases hidle
  · unfold Recorder.loop at hbusy ⊢
    dsimp only at hbusy ⊢
    split at hbusy
    · rcases hbusy with hbusy | hbusy <;> cases hbusy
    · next hempty => exact fun hnil => hempty (by rw [hnil]; rfl)
  · rw [hbatch] at hx
    exact hs.waiting x (List.mem_append_right _ hx)

end Keep

/-! ## §F Settling a batch -/

section Settle

variable {s : Recorder} {w : Written}

theorem settleAll_entry {calls : List Call} (results : List (Item × Outcome)) (k : Nat) :
    ((Recorder.settleAll calls results)[k]?).map Call.entry = (calls[k]?).map Call.entry := by
  induction results generalizing calls with
  | nil => rfl
  | cons x results ih =>
    rw [Recorder.settleAll, List.foldl_cons]
    refine ih.trans ?_
    by_cases hk : x.1.2 = k
    · subst hk
      cases hc : calls[x.1.2]? <;> simp [hc]
    · simp [hk]

/-- A future that was not pending stays as it is. -/
theorem Call.settle_of_ne_pending {c : Call} (o : Outcome) (h : c.future ≠ .pending) :
    c.settle o = c := by
  unfold Call.settle
  split
  · next hf => exact absurd hf h
  · rfl

/-- The numbers of a batch are different, and none of them is pending or settled. -/
theorem Orderly.batch_numbers (hs : Orderly s) (hw : s.worker.batch = w.batch) :
    ((w.batch.zip w.results).map (·.1.2)).Nodup ∧
      (∀ x ∈ s.pending, ∀ y ∈ w.batch, y.2 ≠ x.2) := by
  have hnodup : ((s.handed ++ s.pending).map (·.2)).Nodup := by
    rw [hs.order]
    exact itemsOf_nodup
  rw [Recorder.handed, hw, List.append_assoc, List.map_append, List.map_append] at hnodup
  have hbatch := (List.nodup_append.mp hnodup).2.1
  constructor
  · have hids : (w.batch.zip w.results).map (·.1.2) = w.batch.map (·.2) := by
      rw [← w.zip_items, List.map_map, w.zip_items]
      rfl
    rw [hids]
    exact (List.nodup_append.mp hbatch).1
  · intro x hx y hy
    exact (List.nodup_append.mp hbatch).2.2 y.2 (List.mem_map_of_mem hy) x.2 (List.mem_map_of_mem hx)

/-- After a batch is settled, before the loop looks at what is pending. -/
theorem Orderly.settled_batch (hs : Orderly s) (hw : s.worker.batch = w.batch) :
    Orderly { s with
      calls := Recorder.settleAll s.calls (w.batch.zip w.results)
      written := s.written ++ [w]
      worker := .writing [] } := by
  obtain ⟨hnodup, hpending⟩ := hs.batch_numbers hw
  have hitem : ∀ x ∈ w.batch.zip w.results, x.1 ∈ w.batch :=
    fun x hx => w.zip_items ▸ List.mem_map_of_mem hx
  have hopen : ∀ y ∈ w.batch, ∀ c, s.calls[y.2]? = some c → ∀ o, c.future ≠ .settled o :=
    fun y hy => hs.waiting y (List.mem_append_left _ (hw ▸ hy))
  refine ⟨?_, nofun, fun h => ?_, fun x hx c hc o ho => ?_, fun w' hw' x hx c hc hp => ?_,
    fun k c o hc ho => ?_, fun k c o hc hret => ?_, fun k c hc hcan => ?_⟩
  · rw [itemsOf_congr (settleAll_entry _), ← hs.order, Recorder.handed, Recorder.handed, hw]
    simp [Worker.batch]
  · rcases h with h | h <;> cases h
  · obtain ⟨c₀, hc₀, ⟨rfl, -⟩ | ⟨y, hy, hyx, -⟩⟩ := settleAll_cases hnodup hc
    · exact hs.waiting x (List.mem_append_right _ hx) c hc₀ o ho
    · exact hpending x hx y.1 (hitem y hy) hyx
  · obtain ⟨c₀, hc₀, ⟨rfl, hnot⟩ | ⟨y, hy, hyx, rfl⟩⟩ := settleAll_cases hnodup hc
    · rcases List.mem_append.mp hw' with hold | hnew
      · exact hs.settled w' hold x hx c hc₀ hp
      · obtain rfl := List.mem_singleton.mp hnew
        rw [← w'.zip_items] at hx
        obtain ⟨y, hy, rfl⟩ := List.mem_map.mp hx
        exact hnot y hy rfl
    · rcases c₀.settle_future y.2 (hopen y.1 (hitem y hy) c₀ (hyx ▸ hc₀)) with ⟨hf, -⟩ | ⟨hf, -⟩ <;>
        · rw [hf] at hp
          cases hp
  · obtain ⟨c₀, hc₀, ⟨rfl, -⟩ | ⟨y, hy, hyk, rfl⟩⟩ := settleAll_cases hnodup hc
    · obtain ⟨w', hw', hmem⟩ := hs.own k c o hc₀ ho
      exact ⟨w', List.mem_append_left _ hw', hmem⟩
    · rcases c₀.settle_future y.2 (hopen y.1 (hitem y hy) c₀ (hyk ▸ hc₀)) with ⟨hf, -⟩ | ⟨hf, -⟩
      · have hresult : y.2 = o := Future.settled.inj (hf.symm.trans ho)
        have hqueue : y.1 ∈ s.handed ++ s.pending :=
          List.mem_append_left _ (List.mem_append_right _ (hw ▸ hitem y hy))
        rw [hs.order, mem_itemsOf] at hqueue
        obtain ⟨c₁, hc₁, hentry⟩ := hqueue
        rw [hyk] at hc₁
        obtain rfl := Option.some.inj (hc₀.symm.trans hc₁)
        refine ⟨w, List.mem_append_right _ (List.mem_singleton_self w), ?_⟩
        have hy' : (((c₀.settle y.2).entry, k), o) = y := by
          rw [Call.settle_entry, hentry, ← hyk, ← hresult]
        rw [hy']
        exact hy
      · rw [hf] at ho
        cases ho
  · obtain ⟨c₀, hc₀, ⟨rfl, -⟩ | ⟨y, hy, hyk, rfl⟩⟩ := settleAll_cases hnodup hc
    · exact hs.returned k c o hc₀ hret
    · rw [Call.settle_caller] at hret
      have hsettled := hs.returned k c₀ o hc₀ hret
      exact absurd hsettled (hopen y.1 (hitem y hy) c₀ (hyk ▸ hc₀) o)
  · obtain ⟨c₀, hc₀, ⟨rfl, -⟩ | ⟨y, hy, hyk, rfl⟩⟩ := settleAll_cases hnodup hc
    · exact hs.cancelled k c hc₀ hcan
    · rcases c₀.settle_future y.2 (hopen y.1 (hitem y hy) c₀ (hyk ▸ hc₀)) with ⟨hf, -⟩ | ⟨-, hf⟩
      · rw [hf] at hcan
        cases hcan
      · rw [Call.settle_caller]
        exact hs.cancelled k c₀ hc₀ hf

end Settle

/-- **One step** keeps the queue in order. -/
theorem Orderly.step {s t : Recorder} {e : Event} (hs : Orderly s) (h : s.step e = some t) :
    Orderly t := by
  cases moves_of_step h with
  | record e => exact hs.record e h
  | cancel hc hsettled hpending =>
    exact hs.set hc rfl hsettled (fun hp => absurd hp hpending) nofun (fun _ => rfl)
  | resume hc =>
    refine hs.set hc rfl (fun _ => Iff.rfl) id (fun o ho => ?_) nofun
    rw [Caller.returned.inj ho]
  | start hworker => exact hs.loop (by rw [hworker]; rfl)
  | take hworker =>
    refine ⟨?_, nofun, fun hbusy => ?_, fun x hx => ?_, hs.settled, hs.own, hs.returned, hs.cancelled⟩
    · rw [← hs.order, Recorder.handed, Recorder.handed, hworker]
      simp [Worker.batch]
    · rcases hbusy with hbusy | hbusy <;> cases hbusy
    · simp only [Worker.batch, List.take_append_drop] at hx
      exact hs.waiting x (List.mem_append_right _ hx)
  | write hworker failed =>
    refine ⟨?_, nofun, fun hbusy => ?_, fun x hx => ?_, hs.settled, hs.own, hs.returned, hs.cancelled⟩
    · rw [← hs.order, Recorder.handed, Recorder.handed, hworker]
      rfl
    · rcases hbusy with hbusy | hbusy <;> cases hbusy
    · refine hs.waiting x ?_
      rw [hworker]
      exact hx
  | @settle w hworker =>
    have hbatch : s.worker.batch = w.batch := by rw [hworker]; rfl
    exact (hs.settled_batch hbatch).loop rfl
  | other c =>
    exact ⟨hs.order, hs.idle, hs.busy, hs.waiting, hs.settled, hs.own, hs.returned, hs.cancelled⟩

/-! ## §G Progress -/

/-- How many calls are settled. The numbers of the calls are in the order of the queue. -/
def Recorder.settledCount (s : Recorder) : Nat := (s.written.flatMap (·.batch)).length

/-- The steps of the worker for what it has at hand. -/
def Worker.ahead : Worker → Nat
  | .absent | .starting | .returned _ => 1
  | .collecting => 0
  | .writing _ => 2

/-- The steps of the worker until call `k` is settled: those for the present batch, then three for each
batch up to its own. -/
def Recorder.distance (k : Nat) (s : Recorder) : Nat :=
  s.worker.ahead + if k < s.handed.length then 0 else 3 * ((k - s.handed.length) / 64 + 1)

section Progress

variable {s t : Recorder} {e : Event} {k : Nat}

theorem Orderly.length (hs : Orderly s) : s.handed.length + s.pending.length = s.calls.length := by
  rw [← List.length_append, hs.order, itemsOf, List.length_mapIdx]

/-- The calls of the batches that were settled are settled or cancelled. -/
theorem Orderly.finished (hs : Orderly s) (hk : k < s.settledCount) {c : Call}
    (hc : s.calls[k]? = some c) : c.future ≠ .pending := by
  have hitem : (itemsOf s.calls)[k]? = some (c.entry, k) := by
    simp only [itemsOf, List.getElem?_mapIdx, hc, Option.map_some]
  rw [← hs.order, Recorder.handed, List.append_assoc, List.getElem?_append_left hk] at hitem
  obtain ⟨w, hw, hx⟩ := List.mem_flatMap.mp (List.mem_of_getElem? hitem)
  exact hs.settled w hw _ hx c hc

theorem step_settledCount (h : s.step e = some t) : s.settledCount ≤ t.settledCount := by
  cases moves_of_step h with
  | settle hworker =>
    simp only [Recorder.settledCount, Recorder.loop, List.flatMap_append, List.length_append]
    exact Nat.le_add_right ..
  | _ => exact Nat.le_refl _

/-- A call keeps its number and its entry. -/
theorem step_entry (h : s.step e = some t) {c : Call} (hc : s.calls[k]? = some c) :
    ∃ c', t.calls[k]? = some c' ∧ c'.entry = c.entry := by
  have hset : ∀ {j : Nat} {d d' : Call}, s.calls[j]? = some d → d'.entry = d.entry →
      ∃ c', (s.calls.set j d')[k]? = some c' ∧ c'.entry = c.entry := by
    intro j d d' hd hentry
    by_cases hjk : j = k
    · subst hjk
      obtain rfl := Option.some.inj (hc.symm.trans hd)
      exact ⟨d', by rw [List.getElem?_set_self (List.getElem?_eq_some_iff.mp hd).1], hentry⟩
    · exact ⟨c, by rw [List.getElem?_set_ne hjk, hc], rfl⟩
  cases moves_of_step h with
  | record e =>
    exact ⟨c, by rw [List.getElem?_append_left (List.getElem?_eq_some_iff.mp hc).1, hc], rfl⟩
  | cancel hd => exact hset hd rfl
  | resume hd => exact hset hd rfl
  | @settle w hworker =>
    have hentry := @settleAll_entry s.calls (w.batch.zip w.results) k
    rw [hc, Option.map_some, Option.map_eq_some_iff] at hentry
    exact hentry
  | _ => exact ⟨c, hc, rfl⟩

/-- A call that has returned is over: it is neither resumed again nor cancelled. -/
theorem step_returned (hs : Orderly s) (h : s.step e = some t) {c : Call} {o : Outcome}
    (hc : s.calls[k]? = some c) (hret : c.caller = .returned o) : t.calls[k]? = some c := by
  have hset : ∀ {j : Nat} {d d' : Call}, s.calls[j]? = some d → d.caller = .waiting →
      (s.calls.set j d')[k]? = some c := by
    intro j d d' hd hwaiting
    by_cases hjk : j = k
    · subst hjk
      obtain rfl := Option.some.inj (hc.symm.trans hd)
      rw [hwaiting] at hret
      cases hret
    · rw [List.getElem?_set_ne hjk, hc]
  cases moves_of_step h with
  | record e => rw [List.getElem?_append_left (List.getElem?_eq_some_iff.mp hc).1, hc]
  | cancel hd => exact hset hd rfl
  | resume hd => exact hset hd rfl
  | @settle w hworker =>
    have hsettled := hs.returned k c o hc hret
    refine (settleAll_not_mem fun x hx hk => ?_).trans hc
    refine hs.waiting x.1 (List.mem_append_left _ ?_) c (hk ▸ hc) o hsettled
    have hitem : x.1 ∈ w.batch := w.zip_items ▸ List.mem_map_of_mem hx
    rw [hworker]
    exact hitem
  | _ => exact hc

/-- When nothing is handed over, only what is at hand counts. -/
theorem distance_of_handed (h : t.handed.length = s.handed.length) :
    t.distance k + s.worker.ahead = s.distance k + t.worker.ahead := by
  unfold Recorder.distance
  rw [h]
  omega

/-- With something pending the loop goes round once more. -/
theorem loop_of_pending (h : 0 < s.pending.length) : s.loop = { s with worker := .collecting } := by
  have hempty : s.pending.isEmpty = false := by
    rw [List.isEmpty_eq_false_iff]
    exact List.ne_nil_of_length_pos h
  simp [Recorder.loop, hempty]

/-- **Every step of the worker comes closer** to the end of a call that is not settled. -/
theorem step_distance (hs : Orderly s) (hk : k < s.calls.length) (hopen : ¬k < s.settledCount)
    (h : s.step e = some t) :
    k < t.settledCount ∨ t.distance k + (if e.ofWorker then 1 else 0) ≤ s.distance k := by
  have hlength := hs.length
  cases moves_of_step h with
  | record e =>
    have hhanded : ∀ worker : Worker, Worker.batch
        (match worker with
          | .absent => .starting
          | worker => worker) = worker.batch ∧ Worker.ahead
        (match worker with
          | .absent => .starting
          | worker => worker) = worker.ahead := by
      intro worker
      cases worker <;> exact ⟨rfl, rfl⟩
    refine .inr (Nat.le_of_eq ?_)
    simp only [Recorder.distance, Recorder.handed, (hhanded s.worker).1, (hhanded s.worker).2]
    rfl
  | cancel hd => exact .inr (Nat.le_refl _)
  | resume hd => exact .inr (Nat.le_refl _)
  | other c => exact .inr (Nat.le_refl _)
  | start hworker =>
    have hhanded : s.handed.length = s.settledCount := by
      simp [Recorder.handed, Recorder.settledCount, hworker, Worker.batch]
    have hloop : s.loop = { s with worker := .collecting } := loop_of_pending (by omega)
    have hsame : s.loop.handed.length = s.handed.length := by
      simp [hloop, Recorder.handed, hworker, Worker.batch]
    have hdistance := distance_of_handed (k := k) hsame
    rw [hworker, hloop] at hdistance
    rw [hloop]
    exact .inr (Nat.le_of_eq hdistance)
  | take hworker =>
    have hhanded : s.handed.length = (s.written.flatMap (·.batch)).length := by
      simp [Recorder.handed, hworker, Worker.batch]
    have hmore : (s.written.flatMap (·.batch) ++ s.pending.take 64).length =
        s.handed.length + min 64 s.pending.length := by
      rw [List.length_append, List.length_take, hhanded]
    have hk' : ¬k < s.handed.length := by
      rw [hhanded]
      exact hopen
    refine .inr ?_
    simp only [Recorder.distance, if_neg hk', hworker, Worker.ahead, Event.ofWorker, if_true]
    rw [Recorder.handed, Worker.batch, hmore]
    split <;> omega
  | @write batch hworker failed =>
    have hsame : Recorder.handed { s with
        worker := .returned ⟨batch, s.db, failed⟩
        db := Written.after ⟨batch, s.db, failed⟩ } = s.handed := by
      rw [Recorder.handed, Recorder.handed, hworker]
      rfl
    have hdistance := distance_of_handed (k := k) (congrArg List.length hsame)
    rw [hworker] at hdistance
    refine .inr (Nat.le_of_eq ?_)
    simp only [Worker.ahead] at hdistance
    simp only [Event.ofWorker, if_true]
    omega
  | @settle w hworker =>
    have hhanded : s.handed = (s.written ++ [w]).flatMap (·.batch) := by
      simp [Recorder.handed, hworker, Worker.batch]
    by_cases hin : k < s.handed.length
    · refine .inl ?_
      rw [hhanded] at hin
      exact hin
    · rw [loop_of_pending (by dsimp only; omega)]
      have hsame : Recorder.handed { s with
          calls := Recorder.settleAll s.calls (w.batch.zip w.results)
          written := s.written ++ [w]
          worker := .collecting } = s.handed := by
        rw [hhanded, Recorder.handed]
        exact List.append_nil _
      have hdistance := distance_of_handed (k := k) (congrArg List.length hsame)
      rw [hworker] at hdistance
      refine .inr (Nat.le_of_eq ?_)
      simp only [Worker.ahead] at hdistance
      simp only [Event.ofWorker, if_true]
      omega

end Progress

/-! ## §H Runs -/

section Runs

variable {s t : Recorder} {es : List Event}

theorem run_orderly (hs : Orderly s) (hrun : recorder.run s es = some t) : Orderly t :=
  recorder.run_always (fun _ _ _ hs hstep => Orderly.step hs hstep) hs hrun

/-- A worker can always go on. -/
theorem worker_steps (hworker : s.worker ≠ .absent) :
    ∃ e t, e.ofWorker = true ∧ recorder.step s e = some t := by
  cases h : s.worker with
  | absent => exact absurd h hworker
  | starting => exact ⟨.start, _, rfl, by simp only [recorder, Recorder.step, h]; rfl⟩
  | collecting => exact ⟨.take, _, rfl, by simp only [recorder, Recorder.step, h]; rfl⟩
  | writing batch => exact ⟨.write none, _, rfl, by simp only [recorder, Recorder.step, h]; rfl⟩
  | returned w => exact ⟨.settle, _, rfl, by simp only [recorder, Recorder.step, h]; rfl⟩

theorem run_entry {k : Nat} {c : Call} (hc : s.calls[k]? = some c) (hrun : recorder.run s es = some t) :
    ∃ c', t.calls[k]? = some c' ∧ c'.entry = c.entry := by
  refine recorder.run_always (I := fun s => ∃ c', s.calls[k]? = some c' ∧ c'.entry = c.entry)
    (fun u e v hu hstep => ?_) ⟨c, hc, rfl⟩ hrun
  obtain ⟨c', hc', hentry⟩ := hu
  obtain ⟨c'', hc'', hentry'⟩ := step_entry hstep hc'
  exact ⟨c'', hc'', hentry'.trans hentry⟩

/-- With enough steps of the worker a call is settled with its own outcome, or cancelled. -/
theorem run_settles (hs : Orderly s) {k : Nat} {c : Call} (hc : s.calls[k]? = some c)
    (hrun : recorder.run s es = some t)
    (hmany : 5 + 3 * (s.pending.length / 64) < es.countP Event.ofWorker) :
    ∃ c', t.calls[k]? = some c' ∧ c'.entry = c.entry ∧
      (c'.caller = .cancelled ∨ ∃ o, c'.future = .settled o ∧ t.HasOutcome k c' o) := by
  have hk : k < s.calls.length := (List.getElem?_eq_some_iff.mp hc).1
  have hlength := hs.length
  have hahead : s.worker.ahead ≤ 2 := by cases s.worker <;> simp [Worker.ahead]
  have hdistance : s.distance k ≤ 5 + 3 * (s.pending.length / 64) := by
    unfold Recorder.distance
    split <;> omega
  have hcount : k < t.settledCount := by
    refine @Machine.run_reaches _ _ recorder (fun s => Orderly s ∧ k < s.calls.length)
      (fun s => k < s.settledCount) Event.ofWorker (Recorder.distance k) ?_ ?_ ?_ s t es ⟨hs, hk⟩ hrun
      (Nat.lt_of_le_of_lt hdistance hmany)
    · intro u e v hu hstep
      obtain ⟨c', hc', -⟩ := step_entry hstep (List.getElem?_eq_getElem hu.2)
      exact ⟨hu.1.step hstep, (List.getElem?_eq_some_iff.mp hc').1⟩
    · intro u e v _ hgoal hstep
      exact Nat.lt_of_lt_of_le hgoal (step_settledCount hstep)
    · intro u e v hu hopen hstep
      exact step_distance hu.1 hu.2 hopen hstep
  have ht := run_orderly hs hrun
  obtain ⟨c', hc', hentry⟩ := run_entry hc hrun
  refine ⟨c', hc', hentry, ?_⟩
  cases hf : c'.future with
  | pending => exact absurd hf (ht.finished hcount hc')
  | cancelled => exact .inl (ht.cancelled k c' hc' hf)
  | settled o => exact .inr ⟨o, rfl, ht.own k c' o hc' hf⟩

theorem run_returned (hs : Orderly s) {k : Nat} {c : Call} {o : Outcome} (hc : s.calls[k]? = some c)
    (hret : c.caller = .returned o) (hrun : recorder.run s es = some t) : t.calls[k]? = some c :=
  (recorder.run_always (I := fun s => Orderly s ∧ s.calls[k]? = some c)
    (fun _ _ _ hu hstep => ⟨hu.1.step hstep, step_returned hu.1 hstep hu.2 hret⟩) ⟨hs, hc⟩ hrun).2

end Runs

/-- Two calls share a batch that raises, of which one is cancelled, and a third one comes later. -/
def sampleRun : List Event :=
  [.record ⟨"ses_1", "sbx-1", "a", "alice", "sessions/ses_1", "t1", "t2"⟩, .start,
    .record ⟨"ses_2", "sbx-1", "a", "alice", "sessions/ses_2", "t3", "t4"⟩, .take,
    .record ⟨"ses_3", "sbx-1", "a", "alice", "sessions/ses_3", "t5", "t6"⟩, .cancel 0,
    .write (some "disk full"), .settle, .resume 1]

end OpencodeCloud.Router.Recording
