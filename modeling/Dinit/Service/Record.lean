import Dinit.Framework.Comp
import Dinit.Framework.Slist

namespace Dinit

open Framework

inductive ServiceState where
  | stopped | starting | started | stopping
  deriving DecidableEq, Repr

inductive ServiceType where
  | placeholder | process | bgprocess | scripted | internal | triggered
  deriving DecidableEq, Repr

/-- `other` is a value that a request has and that names none of the types. -/
inductive DependencyType where
  | regular | soft | waitsFor | milestone | before | after
  | other (value : UInt8)
  deriving DecidableEq, Repr

inductive StoppedReason where
  | normal | deprestart | depfailed | failed | execfailed | timedout | terminated
  deriving DecidableEq, Repr

inductive AutoRestartMode where
  | never | always | onFailure
  deriving DecidableEq, Repr

/-- Result of `waitid`: `siCode` is `CLD_EXITED` for an exit, and `siStatus` the
exit status or the signal number. -/
structure ProcStatus where
  siCode : Nat := 0
  siStatus : Nat := 0
  deriving DecidableEq, Repr

namespace ProcStatus

def cldExited : Nat := 1

def didExit (p : ProcStatus) : Bool := p.siCode==cldExited
def didExitClean (p : ProcStatus) : Bool := p.siStatus==0
def wasSignalled (p : ProcStatus) : Bool := !p.didExit

end ProcStatus

def sigHup : Nat := 1
def sigInt : Nat := 2
def sigKill : Nat := 9
def sigUsr1 : Nat := 10
def sigUsr2 : Nat := 12
def sigTerm : Nat := 15

/-- The loaded settings that the state machine reads. A setting which is only
tested for being present (a command, a path) is kept as that test. -/
structure Settings where
  serviceName : String := ""
  recordType : ServiceType := .placeholder
  runsOnConsole : Bool := false
  startsOnConsole : Bool := false
  startInterruptible : Bool := false
  skippable : Bool := false
  signalProcessOnly : Bool := false
  alwaysChain : Bool := false
  killAllOnStop : Bool := false
  autoRestart : AutoRestartMode := .never
  smoothRecovery : Bool := false
  startTimeout : Nat := 60000000000
  stopTimeout : Nat := 10000000000
  restartDelay : Nat := 200000000
  restartInterval : Nat := 10000000000
  maxRestartIntervalCount : Nat := 3
  hasStopCommand : Bool := false
  termSignal : Nat := sigTerm
  hasReadyNotification : Bool := false
  hasSocketPath : Bool := false
  hasPidFile : Bool := false
  startOnCompletion : Option String := none
  deriving DecidableEq, Repr

/-- What the process timer runs for: the delay before a restart, or a start or stop
timeout. -/
inductive TimerUse where
  | restart | stopstart
  deriving DecidableEq, Repr

/-- The process half of a record (`base_process_service` and the classes derived
from it). `childWatch`, `execPipe`, `stopWatch`, `stopPipe`, `readyWatch` and
`timerArmed` say which of its event-loop watchers are active, and `timerFor` what the timer
was last armed for. -/
structure Proc where
  pid : Int := -1
  exitStatus : ProcStatus := {}
  socketOpen : Bool := false
  notificationFd : Bool := false
  waitingForExecstat : Bool := false
  waitingRestartTimer : Bool := false
  waitingStopstartTimer : Bool := false
  trackingChild : Bool := false
  lastStartTime : Nat := 0
  restartIntervalTime : Nat := 0
  restartIntervalCount : Nat := 0
  stopIssued : Bool := false
  stopPid : Int := -1
  stopStatus : ProcStatus := {}
  doingSmoothRecovery : Bool := false
  interruptingStart : Bool := false
  childWatch : Bool := false
  execPipe : Bool := false
  stopWatch : Bool := false
  stopPipe : Bool := false
  readyWatch : Bool := false
  timerArmed : Bool := false
  timerFor : TimerUse := .restart
  deriving DecidableEq, Repr

/-- `service_record`. Links are named by their address, as are records. -/
structure Svc where
  settings : Settings := {}
  serviceState : ServiceState := .stopped
  desiredState : ServiceState := .stopped
  pinnedStopped : Bool := false
  pinnedStarted : Bool := false
  deptPinnedStarted : Bool := false
  waitingForDeps : Bool := false
  waitingForConsole : Bool := false
  haveConsole : Bool := false
  startExplicit : Bool := false
  propRequire : Bool := false
  propRelease : Bool := false
  propFailure : Bool := false
  propStart : Bool := false
  propStop : Bool := false
  propPinDpt : Bool := false
  startFailed : Bool := false
  startSkipped : Bool := false
  inAutoRestart : Bool := false
  inUserRestart : Bool := false
  requiredBy : Int := 0
  dependsOn : List Nat := []
  dependents : List Nat := []
  forceStop : Bool := false
  stopReason : StoppedReason := .normal
  isTriggered : Bool := false
  proc : Proc := {}
  deriving DecidableEq, Repr

namespace Svc

def getType (s : Svc) : ServiceType := s.settings.recordType

def isStartPinned (s : Svc) : Bool := s.pinnedStarted || s.deptPinnedStarted

def isFundamentallyStopped (s : Svc) : Bool :=
  s.serviceState==.stopped || (s.serviceState==.starting && s.waitingForDeps)

def canInterruptStop (s : Svc) : Bool := s.waitingForDeps && !s.forceStop

/-- The classes derived from `base_process_service`. -/
def isProcess (s : Svc) : Bool :=
  s.getType==.process || s.getType==.bgprocess || s.getType==.scripted

/-- `can_interrupt_start()` with the overrides of each class. -/
def canInterruptStart (s : Svc) : Bool :=
  if s.isProcess then
    s.proc.waitingRestartTimer || s.settings.startInterruptible || s.waitingForDeps
  else if s.getType==.triggered then true
  else s.waitingForDeps

/-- `get_exit_status()`: only process services have one. -/
def getExitStatus (s : Svc) : ProcStatus := if s.isProcess then s.proc.exitStatus else {}

end Svc

/-- `service_dep` -/
structure Link where
  from_ : Nat
  to_ : Nat
  waitingOn : Bool := false
  holdingAcq : Bool := false
  depType : DependencyType := .regular
  deriving DecidableEq, Repr

namespace Link

def isHard (l : Link) : Bool :=
  l.depType==.regular || (l.depType==.milestone && l.waitingOn)

def isOnlyOrdering (l : Link) : Bool := l.depType==.before || l.depType==.after

end Link

/-- The state of a service set: `svc` and `link` are the heap of records and
dependency links, `records` the records in the set. -/
structure Core where
  svc : Nat → Svc
  link : Nat → Link
  records : List Nat
  nextLink : Nat
  propQueue : Slist Nat
  stopQueue : Slist Nat
  consoleQueue : List Nat
  activeServices : Int
  restartEnabled : Bool
  /-- the console log has been told to release the console -/
  logRelease : Bool
  /-- … but is still partway through a message -/
  logBusy : Bool
  now : Nat

/-- One outcome of the system calls that a service operation makes. -/
structure SysResult where
  /-- `fork`: the child's process id less one, or failure of it or of its set-up -/
  fork : Option Nat := none
  /-- opening the activation socket -/
  socket : Bool := false
  /-- `getpgid`, or failure -/
  pgid : Option Int := none
  /-- reading the PID file: the number at its start, if any -/
  pidFile : Option (Option Nat) := none
  /-- `waitid` on that process: `none` for an error other than `ECHILD` -/
  waitid : Option (Option (Option ProcStatus)) := none
  /-- `kill(pid,0)` finds the process -/
  exists_ : Bool := false
  /-- the console log has nothing left to write -/
  logIdle : Bool := true
  deriving Repr

/-- The calls whose order and arguments a run keeps. -/
inductive Call where
  | stopped (i : Nat)
  | initiateStart (i : Nat)
  | doPropagation (i : Nat)
  | executeTransition (i : Nat)
  | doStart (i : Nat)
  | doStop (i : Nat) (withRestart : Bool)
  | stopDependent (i l : Nat)
  | allDepsStarted (i : Nat)
  | acquiredConsole (i : Nat)
  | bringUp (i : Nat)
  | bringDown (i : Nat)
  | started (i : Nat)
  | failedToStart (i : Nat) (immediateStop : Bool)
  | interruptStart (i : Nat)
  | startPsProcess (i : Nat)
  | killPg (i : Nat) (signo : Nat)
  | getpgid (pid : Int) (pgid : Option Int)
  | kill (target : Int) (signo : Nat)
  | killAll (signo : Nat)
  | handleExitStatus (i : Nat)
  | handleExitAgain (i : Nat)
  | timerExpired (i : Nat)
  | readyNotify (i : Nat)
  | execStatus (i : Nat) (failed : Bool)
  | stopExecStatus (i : Nat) (failed : Bool)
  | childTerminated (i : Nat)
  | stopChildTerminated (i : Nat)
  | addTransitionQueue (i : Nat)
  | unpin (i : Nat)
  | addDep (from_ to_ : Nat) (depType : DependencyType)
  | rmDep (l : Nat)
  | startDep (l : Nat)
  /-- `release_dependencies` comes to the link `l` -/
  | releaseDependency (l : Nat)
  | logServiceStarted (i : Nat)
  /-- `do_stop` tells the listeners that the start of `i` is cancelled -/
  | startCancelled (i : Nat)
  deriving DecidableEq, Repr

structure World where
  core : Core
  /-- each call made so far with the state it was entered in, newest first -/
  trace : List (Call × Core)
  /-- results of the system calls to come -/
  sys : List SysResult
  /-- the `do_propagation` calls under way, innermost first: the service, and how many
  of its propagation flags have been dealt with -/
  ctx : List (Nat × Nat)

abbrev M := Comp World

end Dinit
