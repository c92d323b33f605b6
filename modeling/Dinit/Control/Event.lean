import Dinit.Control.Command

namespace Dinit

open Framework Framework.Comp

inductive NotifyRead where
  | data | eof | again
  deriving DecidableEq, Repr

/-- What the event loop can deliver: a control command, a process or timer event of a
service, or the console log having finished its message. -/
inductive Event where
  | startService (i : Nat) (pin : Bool)
  | stopService (i : Nat) (pin gentle restart : Bool)
  | wakeService (i : Nat) (pin : Bool)
  | releaseService (i : Nat) (pin : Bool)
  | unpinService (i : Nat)
  | addServiceDep (from_ to_ : Nat) (depType : DependencyType) (enable : Bool)
  | rmServiceDep (from_ to_ : Nat) (depType : DependencyType)
  | setTrigger (i : Nat) (trigger : Bool)
  | stopAllServices
  | execStatus (i : Nat) (failed : Bool)
  | stopExecStatus (i : Nat) (failed : Bool)
  | childTerminated (i : Nat) (status : ProcStatus)
  | stopChildTerminated (i : Nat) (status : ProcStatus)
  | readyNotify (i : Nat) (read : NotifyRead)
  | timerExpired (i : Nat)
  | consoleReleased
  | processQueues
  deriving DecidableEq, Repr

section
variable (rec : Rec)

/-- `exec_status_pipe_watcher::fd_event` -/
def execStatus (i : Nat) (failed : Bool) : M Unit := do
  call (.execStatus i failed)
  setProc i fun p => { p with waitingForExecstat := false, execPipe := false }
  if failed then do
    setProc i Proc.forget
    execFailed rec i
  else do
    execSucceeded rec i
    let s ← getSvc i
    if s.proc.pid = -1 then handleExitStatus rec i else pure ()
  rec.processQueues

/-- `stop_status_pipe_watcher::fd_event` -/
def stopExecStatus (i : Nat) (failed : Bool) : M Unit := do
  call (.stopExecStatus i failed)
  setProc i fun p => { p with waitingForExecstat := false, stopPipe := false }
  let s ← getSvc i
  if failed then
    if s.proc.stopPid ≠ -1 then do
      setProc i fun p => { p with stopWatch := false, stopPid := -1 }
      if s.proc.pid ≠ -1 then do
        if s.settings.termSignal ≠ 0 then killPg i s.settings.termSignal else pure ()
        if ¬s.proc.trackingChild then do
          setProc i fun p => { p with stopIssued := false }
          stopped rec i
        else pure ()
      else pure ()
    else pure ()
  else if s.proc.stopPid = -1 then handleStopExit rec i
  else pure ()
  rec.processQueues

/-- `service_child_watcher::status_change` -/
def childTerminated (i : Nat) (status : ProcStatus) : M Unit := do
  call (.childTerminated i)
  setProc i fun p => { p with pid := -1, exitStatus := status, childWatch := false }
  let s ← getSvc i
  if s.proc.waitingForExecstat then pure ()
  else do
    stopStopstartTimer i
    handleExitStatus rec i

/-- `stop_child_watcher::status_change` -/
def stopChildTerminated (i : Nat) (status : ProcStatus) : M Unit := do
  call (.stopChildTerminated i)
  setProc i fun p => { p with stopPid := -1, stopStatus := status, stopWatch := false }
  let s ← getSvc i
  if s.proc.waitingForExecstat then pure ()
  else do
    handleStopExit rec i
    rec.processQueues

/-- `ready_notify_watcher::fd_event` -/
def readyNotify (i : Nat) (read : NotifyRead) : M Unit := do
  call (.readyNotify i)
  let s ← getSvc i
  if s.serviceState = .starting then do
    match read with
    | .data => do
      stopStopstartTimer i
      started rec i
    | .eof => do
      stopStopstartTimer i
      failedToStart rec i false fun w => w.onCore fun c => c.setSvc i fun s =>
        { s with serviceState := .stopping }
      processBringDown rec i
    | .again => pure ()
    rec.processQueues
  else if read = .eof then
    setProc i fun p => { p with readyWatch := false, notificationFd := false }
  else pure ()

/-- `process_restart_timer::timer_expiry` -/
def timerExpiry (i : Nat) : M Unit := do
  setProc i fun p => { p with timerArmed := false }
  timerExpired rec i

/-- The console log has written out its message and gives up the console. -/
def consoleReleased : M Unit := do
  onCore fun c => { c with logBusy := false }
  rec.pullConsoleQueue

end

/-- A control command names services by handle, which placeholders do not have; the
other events need their watcher to be active. -/
def Event.enabled (c : Core) : Event → Bool
  | .startService i _ | .stopService i _ _ _ | .wakeService i _ | .releaseService i _
  | .unpinService i => c.records.contains i && (c.svc i).getType != .placeholder
  | .addServiceDep f t _ _ | .rmServiceDep f t _ =>
    c.records.contains f && (c.svc f).getType != .placeholder
      && c.records.contains t && (c.svc t).getType != .placeholder && f != t
  | .setTrigger i _ => c.records.contains i && (c.svc i).getType==.triggered
  | .stopAllServices | .processQueues => true
  | .execStatus i _ => c.records.contains i && (c.svc i).proc.execPipe
  | .stopExecStatus i _ => c.records.contains i && (c.svc i).proc.stopPipe
  | .childTerminated i _ => c.records.contains i && (c.svc i).proc.childWatch
  | .stopChildTerminated i _ => c.records.contains i && (c.svc i).proc.stopWatch
  | .readyNotify i _ => c.records.contains i && (c.svc i).proc.readyWatch
  | .timerExpired i => c.records.contains i && (c.svc i).proc.timerArmed
  | .consoleReleased => c.logBusy

/-- Handle one event, with calls nested at most `fuel` deep. -/
def handle (fuel : Nat) (e : Event) : M Unit :=
  let rec_ := calls fuel
  match e with
  | .startService i pin => startService rec_ i pin
  | .stopService i pin gentle restart => stopService rec_ i pin gentle restart
  | .wakeService i pin => wakeService rec_ i pin
  | .releaseService i pin => releaseService rec_ i pin
  | .unpinService i => unpinService rec_ i
  | .addServiceDep f t type enable => addServiceDep rec_ fuel f t type enable
  | .rmServiceDep f t type => rmServiceDep rec_ f t type
  | .setTrigger i trigger => processSetTrigger rec_ i trigger
  | .stopAllServices => stopAllServices rec_
  | .execStatus i failed => execStatus rec_ i failed
  | .stopExecStatus i failed => stopExecStatus rec_ i failed
  | .childTerminated i status => childTerminated rec_ i status
  | .stopChildTerminated i status => stopChildTerminated rec_ i status
  | .readyNotify i read => readyNotify rec_ i read
  | .timerExpired i => timerExpiry rec_ i
  | .consoleReleased => consoleReleased rec_
  | .processQueues => rec_.processQueues

end Dinit
