import Mathlib.Algebra.GroupWithZero.Nat
import Dinit.Framework.Descriptors

namespace Dinit

open Framework

namespace ChildFds

/-- The steps that may fail -/
inductive Call
  | input
  | wpipeAway
  | csAway
  | socketAway
  | notifyForced
  | wpipe
  | cs
  | notify
  | environment
  | socket
  | chdir
  | devNull
  | devNullMove
  | logfile
  | logOwner
  | output
  | error

/-- Which calls the system refuses, and what it opens -/
structure System (β : Type) where
  refused : Call → Bool
  devNull : β
  logfile : β

/-- Another step that may fail -/
def System.attempt {β : Type} (sys : System β) (c : Call) : Option Unit :=
  if sys.refused c then none else some ()

/-- `run_proc_params`: a descriptor that is `-1` is not there. -/
structure Params where
  onConsole : Bool
  wpipefd : Nat
  csfd : Option Nat
  socketFd : Option Nat
  notifyFd : Option Nat
  forceNotifyFd : Option Nat
  outputFd : Option Nat
  inputFd : Option Nat

/-- The descriptors, and the numbers that are kept in variables -/
structure Fds (β : Type) where
  table : Table β
  wpipefd : Nat
  csfd : Option Nat
  socketFd : Option Nat
  notifyFd : Option Nat

section
variable {β : Type} (sys : System β)

/-- `fcntl` with `F_DUPFD` -/
def dupFd (c : Call) (t : Table β) (fd least : Nat) : Option (Nat × Table β) :=
  if sys.refused c then none
  else (t.get fd).map fun b => (t.lowest least,t.put (t.lowest least) (some b))

def dup2 (c : Call) (t : Table β) (fd dest : Nat) : Option (Table β) :=
  if sys.refused c then none else (t.get fd).map fun b => t.put dest (some b)

def openFd (c : Call) (t : Table β) (b : β) : Option (Nat × Table β) :=
  if sys.refused c then none else some (t.lowest 0,t.put (t.lowest 0) (some b))

/-- `move_fd` -/
def moveFd (c : Call) (t : Table β) (fd dest : Nat) : Option (Table β) :=
  if fd=dest then some t else (dup2 sys c t fd dest).map (·.put fd none)

/-- `move_reserved_fd` -/
def moveReservedFd (c : Call) (t : Table β) (fd minFd : Nat) : Option (Nat × Table β) :=
  (dupFd sys c t fd minFd).map fun (new,t) => (new,t.put fd none)

/-- A descriptor is moved if it has the number that is to be forced. -/
def moveAway (c : Call) (force minFd : Nat) (fd : Option Nat) (set : Nat → Table β → Fds β)
    (s : Fds β) : Option (Fds β) :=
  if fd=some force then (moveReservedFd sys c s.table force minFd).map fun (new,t) => set new t
  else some s

/-- A descriptor is duplicated if its number is below the least one; the original stays open. -/
def raise (c : Call) (force : Option Nat) (minFd : Nat) (fd : Option Nat)
    (set : Nat → Table β → Fds β) (s : Fds β) : Option (Fds β) :=
  match fd with
  | none => some s
  | some n =>
    if n< minFd ∧ some n≠force then (dupFd sys c s.table n minFd).map fun (new,t) => set new t
    else some s

def minfd (p : Params) : Nat := if p.socketFd.isSome then 4 else 3

def moveInput (p : Params) (t : Table β) : Option (Table β) :=
  match p.inputFd with
  | none => some t
  | some fd => moveFd sys .input t fd 0

/-- The forced notification number: `dup2` of a pipe that is not there fails. -/
def placeNotify (force : Nat) (s : Fds β) : Option (Fds β) :=
  match s.notifyFd with
  | none => none
  | some fd =>
    if fd=force then some s
    else (dup2 sys .notifyForced s.table fd force).map fun t =>
      {s with table := t.put fd none,notifyFd := some force}

def forceNotify (p : Params) (s : Fds β) : Option (Fds β) :=
  match p.forceNotifyFd with
  | none => some s
  | some f => do
    let s ← moveAway sys .wpipeAway f (minfd p) (some s.wpipefd)
      (fun fd t => {s with table := t,wpipefd := fd}) s
    let s ← moveAway sys .csAway f (minfd p) s.csfd (fun fd t => {s with table := t,csfd := some fd}) s
    let s ← moveAway sys .socketAway f 0 s.socketFd
      (fun fd t => {s with table := t,socketFd := some fd}) s
    placeNotify sys f s

def raiseReserved (p : Params) (s : Fds β) : Option (Fds β) := do
  let s ← raise sys .wpipe none (minfd p) (some s.wpipefd)
    (fun fd t => {s with table := t,wpipefd := fd}) s
  let s ← raise sys .cs none (minfd p) s.csfd (fun fd t => {s with table := t,csfd := some fd}) s
  raise sys .notify p.forceNotifyFd (minfd p) s.notifyFd
    (fun fd t => {s with table := t,notifyFd := some fd}) s

/-- A pre-opened socket has to be descriptor 3. -/
def placeSocket (s : Fds β) : Option (Fds β) :=
  match s.socketFd with
  | none => some s
  | some fd => (dup2 sys .socket s.table fd 3).map fun t =>
    {s with table := if fd≠3 then t.put fd none else t}

/-- The standard descriptors are closed, from `begin` on. -/
def closeStandard (force : Option Nat) (begin : Nat) (t : Table β) : Table β :=
  ((List.range' begin (3-begin)).filter fun i => some i≠force).foldl (fun t i => t.put i none) t

def placeNull (p : Params) (s : Fds β) : Option (Fds β) :=
  if s.notifyFd≠some 0 ∧ p.inputFd=none then do
    let (fd,t) ← openFd sys .devNull s.table sys.devNull
    let t ← moveFd sys .devNullMove t fd 0
    some {s with table := t}
  else some s

/-- The descriptor for the output, which may be that of a file that is opened -/
def outputFile (p : Params) (t : Table β) : Option (Nat × Table β) :=
  match p.outputFd with
  | some fd => some (fd,t)
  | none => (openFd sys .logfile t sys.logfile).bind fun r => (sys.attempt .logOwner).map fun _ => r

/-- The output becomes descriptors 1 and 2. -/
def placeOutput (p : Params) (s : Fds β) : Option (Fds β) := do
  let (outputFd,t) ← outputFile sys p s.table
  if s.notifyFd≠some 1 then do
    let t ← moveFd sys .output t outputFd 1
    if s.notifyFd≠some 2 then (dup2 sys .error t 1 2).map fun t => {s with table := t}
    else some {s with table := t}
  else (moveFd sys .error t outputFd 2).map fun t => {s with table := t}

/-- The standard descriptors of a process that is not on the console -/
def placeStandard (p : Params) (s : Fds β) : Option (Fds β) := do
  let begin := if p.inputFd=none then 0 else 1
  let s ← placeNull sys p {s with table := closeStandard p.forceNotifyFd begin s.table}
  placeOutput sys p s

/-- `run_child_proc` up to the descriptors for the standard streams: what there is when no step has
failed -/
def runChildProc (p : Params) (t : Table β) : Option (Fds β) := do
  let t ← moveInput sys p t
  let s ← forceNotify sys p ⟨t,p.wpipefd,p.csfd,p.socketFd,p.notifyFd⟩
  let s ← raiseReserved sys p s
  let _ ← sys.attempt .environment
  let s ← placeSocket sys s
  let _ ← sys.attempt .chdir
  if p.onConsole then some s else placeStandard sys p s

end

end ChildFds

end Dinit
