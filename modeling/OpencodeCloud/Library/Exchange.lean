/-
# OpencodeCloud.Library.Exchange -- programs that talk to one peer

A program is a tree: it returns, or it sends one request and goes on with the reply. The peer is any
function of what was sent to it so far, so it may keep a state of its own. A run gives the result and
the requests that were sent.
-/
import Mathlib.Tactic.Common

namespace OpencodeCloud.Library

/-- A program with requests in `ι`, replies in `ο` and a result in `α`. -/
inductive Exchange (ι ο : Type) (α : Type)
  | done (a : α)
  | send (request : ι) (next : ο → Exchange ι ο α)

/-- Who answers: a function of the earlier requests, the oldest first, and of the present one. -/
abbrev Peer (ι ο : Type) := List ι → ι → ο

namespace Exchange

variable {ι ο α β : Type}

def bind : Exchange ι ο α → (α → Exchange ι ο β) → Exchange ι ο β
  | done a, f => f a
  | send request next, f => send request fun o => (next o).bind f

instance : Monad (Exchange ι ο) where
  pure := done
  bind := bind

/-- The result of a run, and what it sent, after the requests in `sent`. -/
def runFrom (peer : Peer ι ο) : List ι → Exchange ι ο α → α × List ι
  | sent, done a => (a, sent)
  | sent, send request next => runFrom peer (sent ++ [request]) (next (peer sent request))

def run (peer : Peer ι ο) (program : Exchange ι ο α) : α × List ι := runFrom peer [] program

end Exchange

/-- A program that sends one request and returns the reply. -/
def ask {ι ο : Type} (request : ι) : Exchange ι ο ο := .send request .done

/-- A program may raise between its requests. -/
abbrev Talk (ε ι ο : Type) := ExceptT ε (Exchange ι ο)

end OpencodeCloud.Library
