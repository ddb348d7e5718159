/-
# OpencodeCloud.Library.Savepoint -- a transaction with savepoints

A connection inside a transaction: the data as they are now, and the data at each savepoint that is
still open, the latest first. Work that raises after it has written is undone by going back to the
savepoint in front of it.
-/
import Mathlib.Tactic.Common

namespace OpencodeCloud.Library

@[ext] structure Connection (δ : Type) where
  current : δ
  savepoints : List δ

namespace Connection

variable {δ ε α : Type}

/-- `BEGIN`. -/
def start (d : δ) : Connection δ := ⟨d, []⟩

/-- `SAVEPOINT`. -/
def savepoint (c : Connection δ) : Connection δ := ⟨c.current, c.current :: c.savepoints⟩

/-- `ROLLBACK TO` the latest savepoint, which stays open. -/
def rollbackTo (c : Connection δ) : Connection δ := { c with current := c.savepoints.headD c.current }

/-- `RELEASE` of the latest savepoint. -/
def release (c : Connection δ) : Connection δ := { c with savepoints := c.savepoints.tail }

/-- Work on the data: what it returns or raises, and the data as it leaves them either way. -/
def perform (c : Connection δ) (work : δ → Except ε α × δ) : Except ε α × Connection δ :=
  ((work c.current).1, { c with current := (work c.current).2 })

/-- Work in a savepoint of its own, which is rolled back when the work raises. -/
def attempt (c : Connection δ) (work : δ → Except ε α × δ) : Except ε α × Connection δ :=
  match c.savepoint.perform work with
  | (.ok a, c') => (.ok a, c'.release)
  | (.error e, c') => (.error e, c'.rollbackTo.release)

/-- Work that returns keeps what it wrote. -/
theorem attempt_of_ok {c : Connection δ} {work : δ → Except ε α × δ} {a : α}
    (h : (work c.current).1 = .ok a) :
    c.attempt work = (.ok a, { c with current := (work c.current).2 }) := by
  simp only [attempt, perform, savepoint, h]
  rfl

/-- Work that raises leaves nothing behind. -/
theorem attempt_of_error {c : Connection δ} {work : δ → Except ε α × δ} {e : ε}
    (h : (work c.current).1 = .error e) : c.attempt work = (.error e, c) := by
  simp only [attempt, perform, savepoint, h]
  rfl

/-- The savepoint is closed again. -/
theorem attempt_savepoints (c : Connection δ) (work : δ → Except ε α × δ) :
    (c.attempt work).2.savepoints = c.savepoints := by
  cases h : (work c.current).1 with
  | ok a => rw [attempt_of_ok h]
  | error e => rw [attempt_of_error h]

end Connection

end OpencodeCloud.Library
