import Dinit.Framework.Dlist
import Dinit.Framework.Runs
import Dinit.Service.Base

namespace Dinit.ConsoleQueue

open Framework

variable {α : Type} [DecidableEq α]

/-- A call on a `dlist`. -/
inductive Op (α : Type) where
  | append (e : α)
  | popFront
  | unlink (e : α)

/-- A `dlist`, and what `pop_front` has returned -/
def dlistStep (q : Dlist α × List α) : Op α → Option (Dlist α × List α)
  | .append e => (q.1.append e).map fun q' => (q',q.2)
  | .popFront => q.1.popFront.map fun (e,q') => (q',q.2++[e])
  | .unlink e => (q.1.unlink e).map fun q' => (q',q.2)

/-- The same call on a plain list, where the caller may make it: what is appended is not in the
list, and what is unlinked is. -/
def listStep (xs : List α × List α) : Op α → Option (List α × List α)
  | .append e => if e∈xs.1 then none else some (xs.1++[e],xs.2)
  | .popFront =>
    match xs.1 with
    | [] => none
    | e::rest => some (rest,xs.2++[e])
  | .unlink e => if e∈xs.1 then some (xs.1.erase e,xs.2) else none

/-- The list, and whether the log was asked to give up the console -/
def appendConsoleQueue (q : Dlist α) (newTail : α) : Option (Dlist α × Bool) :=
  let wasEmpty := q.isEmpty
  (q.append newTail).map fun q' => (q',wasEmpty)

/-- The service that acquires the console, where one waits; else the log does. -/
def pullConsoleQueue (q : Dlist α) : Option (Option α × Dlist α) :=
  if q.isEmpty then some (none,q) else q.popFront.map fun (front,q') => (some front,q')

def unqueueConsole (q : Dlist α) (service : α) : Option (Dlist α) :=
  if q.isQueued service then q.unlink service else some q

def isConsoleQueueEmpty (q : Dlist α) : Bool := q.isEmpty

def isQueuedForConsole (q : Dlist α) (service : α) : Bool := q.isQueued service

end Dinit.ConsoleQueue
