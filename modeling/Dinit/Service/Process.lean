import Dinit.Service.Base

namespace Dinit

open Framework Framework.Comp

namespace Proc

/-- Stop the timer if it runs for a start or stop timeout. -/
def stopStopstartTimer (p : Proc) : Proc :=
  if p.waitingStopstartTimer then
    { p with timerArmed := false, waitingStopstartTimer := false }
  else p

/-- Arm the timer for a start or stop timeout, if there is one. -/
def armStopstartTimer (timeout : Nat) (p : Proc) : Proc :=
  if timeout ≠ 0 then
    { p with timerArmed := true, timerFor := .stopstart, waitingStopstartTimer := true }
  else p

/-- Arm the timer for a timeout, or stop the one that runs. -/
def resetStopstartTimer (timeout : Nat) (p : Proc) : Proc :=
  if timeout ≠ 0 then p.armStopstartTimer timeout else p.stopStopstartTimer

/-- Stop the restart timer. -/
def stopRestartTimer (p : Proc) : Proc :=
  { p with timerArmed := false, waitingRestartTimer := false }

/-- The child could not be executed: stop watching it. -/
def forget (p : Proc) : Proc :=
  if p.pid ≠ -1 then { p.stopStopstartTimer with childWatch := false, pid := -1 } else p

/-- Close the readiness notification descriptor. -/
def closeNotification (p : Proc) : Proc :=
  if p.notificationFd then { p with readyWatch := false, notificationFd := false } else p

end Proc

def stopStopstartTimer (i : Nat) : M Unit := setProc i Proc.stopStopstartTimer

def armStopstartTimer (i timeout : Nat) : M Unit := setProc i (Proc.armStopstartTimer timeout)

def resetStopstartTimer (i timeout : Nat) : M Unit := setProc i (Proc.resetStopstartTimer timeout)

def forcedStop (i : Nat) : M Unit := onCore fun c => c.forcedStop i

def unrecoverableStop (i : Nat) : M Unit := onCore fun c => c.unrecoverableStop i

/-- Signal the process group of `pid`. -/
def killGroup (pid : Int) (signo : Nat) : M Unit := do
  let r ← sysResult
  call (.getpgid pid r.pgid)
  -- where the pgid cannot be had, it is taken to be the process id
  call (.kill (-(r.pgid.getD pid)) signo)

def killPg (i : Nat) (signo : Nat) : M Unit := do
  call (.killPg i signo)
  let s ← getSvc i
  if s.settings.signalProcessOnly then call (.kill s.proc.pid signo)
  else killGroup s.proc.pid signo

/-- What `interrupt_start()` of each class does to the record. -/
def Svc.interrupted (s : Svc) : Svc :=
  if ¬s.isProcess then s
  else if s.proc.waitingRestartTimer then
    { s with proc := { s.proc.stopRestartTimer with interruptingStart := false } }
  else { s with serviceState := .stopping, proc := { s.proc with interruptingStart := true } }

/-- `interrupt_start()`; true if the start is fully cancelled. `after` is what the caller
assigns just after the call. -/
def interruptStart (i : Nat) (after : World → World := id) : M Bool := do
  call (.interruptStart i)
  let s ← getSvc i
  if s.isProcess ∧ ¬s.proc.waitingRestartTimer then do
    killPg i sigInt
    resetStopstartTimer i s.settings.stopTimeout
  else pure ()
  modify fun w => after (w.onCore fun c => c.setSvc i Svc.interrupted)
  return !s.isProcess || s.proc.waitingRestartTimer

/-- `check_restart()`: restarts are counted for process services only. -/
def checkRestart (i : Nat) : M Bool := do
  let s ← getSvc i
  let c ← getCore
  if (s.getType = .process ∨ s.getType = .bgprocess)
      ∧ s.settings.maxRestartIntervalCount ≠ 0 then
    if c.now-s.proc.restartIntervalTime < s.settings.restartInterval then
      if s.proc.restartIntervalCount ≥ s.settings.maxRestartIntervalCount then do
        setSvc i fun s => { s with desiredState := .stopped }
        return false
      else do
        setProc i fun p => { p with restartIntervalCount := p.restartIntervalCount+1 }
        return true
    else do
      setProc i fun p => { p with restartIntervalTime := c.now, restartIntervalCount := 1 }
      return true
  else return true

/-- `start_ps_process`: true if the child was forked. -/
def startPsProcess (i : Nat) : M Bool := do
  call (.startPsProcess i)
  let c ← getCore
  setProc i fun p => { p with lastStartTime := c.now }
  let r ← sysResult
  match r.fork with
  | none => return false
  | some n => do
    let s ← getSvc i
    setProc i fun p =>
      { p with
        pid := n+1
        notificationFd := s.settings.hasReadyNotification
        waitingForExecstat := true
        childWatch := true
        execPipe := true }
    return true

/-- `start_stop_process`: true if the child was forked. -/
def startStopProcess (i : Nat) : M Bool := do
  let r ← sysResult
  match r.fork with
  | none => return false
  | some n => do
    setProc i fun p =>
      { p with
        stopPid := n+1
        waitingForExecstat := true
        stopWatch := true
        stopPipe := true }
    return true

section
variable (rec : Rec)

def doRestart (i : Nat) : M Unit := do
  setProc i fun p => { p with waitingRestartTimer := false }
  let s ← getSvc i
  let ok ← startPsProcess i
  if ok then armStopstartTimer i s.settings.startTimeout
  else do
    if s.serviceState = .starting then failedToStart rec i true else unrecoverableStop i
    rec.processQueues

def restartPsProcess (i : Nat) : M Bool := do
  let s ← getSvc i
  let c ← getCore
  if s.settings.restartDelay ≤ c.now-s.proc.lastStartTime then doRestart rec i
  else setProc i fun p =>
    { p with timerArmed := true, timerFor := .restart, waitingRestartTimer := true }
  return true

def doSmoothRecovery (i : Nat) : M Unit := do
  let ok ← restartPsProcess rec i
  if ok then pure ()
  else do
    unrecoverableStop i
    rec.processQueues

/-- `open_socket` -/
def openSocket (i : Nat) : M Bool := do
  let s ← getSvc i
  if ¬s.settings.hasSocketPath ∨ s.proc.socketOpen then return true
  else do
    let r ← sysResult
    setProc i fun p => { p with socketOpen := r.socket }
    return r.socket

/-- `bring_up()` of `base_process_service` -/
def procBringUp (i : Nat) : M Bool := do
  let open_ ← openSocket i
  if ¬open_ then return false
  else do
    let s ← getSvc i
    if s.inAutoRestart then restartPsProcess rec i
    else do
      setProc i fun p => { p with restartIntervalCount := 0 }
      let ok ← startPsProcess i
      setProc i fun p => { p with restartIntervalTime := p.lastStartTime }
      if ok then resetStopstartTimer i s.settings.startTimeout else pure ()
      return ok

/-- `bring_up()` of each class -/
def bringUp (i : Nat) : M Bool := do
  call (.bringUp i)
  let s ← getSvc i
  if s.isProcess then procBringUp rec i
  else if s.getType = .triggered then do
    if s.isTriggered then started rec i else pure ()
    return true
  else do
    started rec i
    return true

/-- Run the stop command, if there is one; true if it runs. -/
def runStopCommand (i : Nat) : M Bool := do
  let s ← getSvc i
  if s.settings.hasStopCommand then startStopProcess i else return false

/-- Signal the process to stop, if there is no stop command to do it. -/
def signalStop (i : Nat) : M Unit := do
  let s ← getSvc i
  if s.settings.termSignal ≠ 0 then killPg i s.settings.termSignal
  else if s.settings.hasStopCommand then killPg i sigKill
  else pure ()

/-- The stop has been issued, with the stop timeout. -/
def stopWasIssued (i : Nat) : M Unit := do
  let s ← getSvc i
  setProc i fun p => { p with stopIssued := true }
  armStopstartTimer i s.settings.stopTimeout

/-- `bring_down()` of `process_service` -/
def processBringDown (i : Nat) : M Unit := do
  let s ← getSvc i
  if s.proc.stopPid ≠ -1 ∨ s.proc.stopIssued then pure ()
  else if s.proc.waitingForExecstat then pure ()
  else if s.proc.pid ≠ -1 then do
    let ran ← runStopCommand i
    if ran then stopWasIssued i
    else do
      signalStop i
      let t ← getSvc i
      -- with no way to see the child terminate, assume that it is stopped
      if t.proc.stopPid = -1 ∧ ¬t.proc.trackingChild then stopped rec i else stopWasIssued i
  else do
    setProc i fun p => { p with doingSmoothRecovery := false }
    if s.proc.waitingRestartTimer then setProc i Proc.stopRestartTimer else pure ()
    stopped rec i

/-- `bring_down()` of `scripted_service` -/
def scriptedBringDown (i : Nat) : M Unit := do
  let s ← getSvc i
  if s.proc.pid ≠ -1 then pure ()
  else if ¬s.settings.hasStopCommand then stopped rec i
  else do
    let ok ← startPsProcess i
    if ok then armStopstartTimer i s.settings.stopTimeout else stopped rec i

/-- `bring_down()` of each class -/
def bringDown (i : Nat) : M Unit := do
  let s ← getSvc i
  if s.getType = .process ∨ s.getType = .bgprocess then processBringDown rec i
  else if s.getType = .scripted then scriptedBringDown rec i
  else stopped rec i

/-- `kill_with_fire()`; the stop command is killed too. -/
def killWithFire (i : Nat) : M Unit := do
  let s ← getSvc i
  if s.proc.pid ≠ -1 then killPg i sigKill else pure ()
  if s.getType ≠ .scripted ∧ s.proc.stopPid ≠ -1 then killGroup s.proc.stopPid sigKill
  else pure ()

def timerExpired (i : Nat) : M Unit := do
  call (.timerExpired i)
  setProc i fun p => { p with waitingStopstartTimer := false }
  let s ← getSvc i
  if s.serviceState = .stopping then killWithFire i
  else if s.proc.pid ≠ -1 then do
    -- `failed_to_start(false, false)`
    let _ ← interruptStart i fun w =>
      (w.onCore fun c => c.setSvc i fun s => { s with stopReason := .timedout }).cancelStart i false
  else doRestart rec i

def handleUnexpectedTermination (i : Nat) : M Unit := do
  setSvc i fun s => { s with stopReason := .terminated, forceStop := true }
  rec.doStop i false
  rec.processQueues
  let s ← getSvc i
  if s.serviceState = .stopping ∧ s.desiredState = .started ∧ ¬s.pinnedStopped then do
    initiateStart i
    rec.processQueues
  else pure ()

/-- The process of a STOPPING `process_service` has terminated. -/
def processExitStopping (i : Nat) : M Unit := do
  let s ← getSvc i
  if ¬s.waitingForDeps then
    if s.proc.stopPid = -1 ∧ ¬s.proc.waitingForExecstat then do
      setProc i fun p => { p with stopIssued := false }
      stopped rec i
    else pure ()
  else if s.desiredState = .started ∧ ¬s.pinnedStopped then initiateStart i
  else pure ()

/-- Whether the process is restarted in place: recovery is set up (`wanted`) and the
restarts are not too many. -/
def smoothRestart (i : Nat) (wanted : Bool) : M Bool :=
  if wanted then checkRestart i else return false

/-- `handle_exit_status()` of `process_service` -/
def processHandleExitStatus (i : Nat) : M Unit := do
  let s ← getSvc i
  setProc i fun p => p.closeNotification.stopStopstartTimer
  -- a start timeout while STARTED: smooth recovery that is not ready yet
  let unready := s.proc.waitingStopstartTimer ∧ s.serviceState = .started
  if s.serviceState = .starting ∨ unready then do
    failedToStart rec i true fun w =>
      w.onCore fun c => c.setSvc i fun s => { s with stopReason := .failed }
    rec.processQueues
  else if s.serviceState = .stopping then do
    processExitStopping rec i
    rec.processQueues
  else do
    let smooth ← smoothRestart i (s.settings.smoothRecovery && s.serviceState==.started)
    if smooth then do
      setProc i fun p => { p with doingSmoothRecovery := true }
      doSmoothRecovery rec i
    else do
      handleUnexpectedTermination rec i
      rec.processQueues

def pidMax : Nat := 2147483647

inductive PidResult where
  | ok | failed | terminated
  deriving DecidableEq, Repr

/-- `read_pid_file` -/
def readPidFile (i : Nat) : M PidResult := do
  let r ← sysResult
  match r.pidFile with
  | none => return .failed
  | some none => do
    setProc i fun p => { p with pid := -1 }
    return .failed
  | some (some v) =>
    if v > pidMax then do
      setProc i fun p => { p with pid := -1 }
      return .failed
    else
      -- `waitid` takes no process id 0 (EINVAL)
      match if v = 0 then none else r.waitid with
      | some none =>
        -- ECHILD: not our child, and so not tracked
        if r.exists_ then do
          setProc i fun p => { p with pid := v, trackingChild := false }
          return .ok
        else do
          setProc i fun p => { p with pid := -1 }
          return .failed
      | some (some (some st)) => do
        setProc i fun p => { p with pid := -1, exitStatus := st }
        return .terminated
      | some (some none) => do
        setProc i fun p => { p with pid := v, trackingChild := true, childWatch := true }
        return .ok
      | none => do
        setProc i fun p => { p with pid := -1 }
        return .failed

/-- The launcher of a `bgproc_service` that was told to stop during smooth recovery has
terminated. -/
def bgprocExitRecoveryStopping (i : Nat) (bad : Bool) : M Unit := do
  let s ← getSvc i
  if bad then do
    if ¬s.waitingForDeps then stopped rec i
    else if s.desiredState = .started ∧ ¬s.pinnedStopped then initiateStart i
    else pure ()
    rec.processQueues
  else if s.settings.hasPidFile then do
    let r ← readPidFile i
    if s.waitingForDeps then pure ()
    else do
      if r = .ok then processBringDown rec i else stopped rec i
      rec.processQueues
  else rec.processQueues

/-- The launcher of a `bgproc_service` has terminated in smooth recovery. -/
def bgprocExitRecovery (i : Nat) (bad : Bool) : M Unit := do
  let s ← getSvc i
  let r ← if ¬bad ∧ s.settings.hasPidFile then readPidFile i
    else pure (if bad then .failed else .ok)
  match r with
  | .failed => do
    setSvc i fun s => { s with stopReason := .terminated }
    unrecoverableStop i
    rec.processQueues
  | .terminated => do
    call (.handleExitAgain i)
    rec.handleExitAgain i
  | .ok => pure ()

/-- The launcher of a STARTING `bgproc_service` has terminated. -/
def bgprocExitStarting (i : Nat) (clean : Bool) : M Unit := do
  let r ← if clean then readPidFile i else pure .failed
  match r with
  | .failed => do
    failedToStart rec i true fun w =>
      w.onCore fun c => c.setSvc i fun s => { s with stopReason := .failed }
    rec.processQueues
  | .terminated => do
    started rec i
    call (.handleExitAgain i)
    rec.handleExitAgain i
  | .ok => do
    started rec i
    rec.processQueues

/-- The process of a STOPPING `bgproc_service` has terminated. -/
def bgprocExitStopping (i : Nat) : M Unit := do
  let s ← getSvc i
  if s.proc.stopPid = -1 ∧ ¬s.proc.waitingForExecstat then do
    setProc i fun p => { p with stopIssued := false }
    stopped rec i
  else pure ()

/-- The process of a STARTED `bgproc_service` has terminated. -/
def bgprocExitStarted (i : Nat) : M Unit := do
  let s ← getSvc i
  let smooth ← smoothRestart i (s.settings.smoothRecovery && s.desiredState==.started)
  if smooth then do
    setProc i fun p => { p with doingSmoothRecovery := true }
    doSmoothRecovery rec i
    let t ← getSvc i
    if t.serviceState ≠ .started then
      setProc i fun p => { p with doingSmoothRecovery := false }
    else pure ()
  else do
    handleUnexpectedTermination rec i
    rec.processQueues

/-- `handle_exit_status()` of `bgproc_service`, from its label `begin` -/
def bgprocBegin (i : Nat) : M Unit := do
  let s ← getSvc i
  stopStopstartTimer i
  let status := s.proc.exitStatus
  let bad := (status.didExit && status.siStatus != 0) || status.wasSignalled
  if s.proc.doingSmoothRecovery then do
    setProc i fun p => { p with doingSmoothRecovery := false }
    if s.serviceState = .stopping then bgprocExitRecoveryStopping rec i bad
    else bgprocExitRecovery rec i bad
  else if s.serviceState = .starting then bgprocExitStarting rec i status.didExitClean
  else if s.serviceState = .stopping then do
    bgprocExitStopping rec i
    rec.processQueues
  else bgprocExitStarted rec i

/-- The start or stop command of a STOPPING `scripted_service` has terminated. -/
def scriptedExitStopping (i : Nat) : M Unit := do
  let s ← getSvc i
  if s.proc.interruptingStart then do
    stopStopstartTimer i
    if s.proc.exitStatus.didExit ∧ s.proc.exitStatus.siStatus ≠ 0 then stopped rec i
    else scriptedBringDown rec i
    setProc i fun p => { p with interruptingStart := false }
  else stopped rec i

/-- The start command of a `scripted_service` has terminated. -/
def scriptedExitStarting (i : Nat) : M Unit := do
  let s ← getSvc i
  let st := s.proc.exitStatus
  if st.didExitClean then started rec i
  else if st.wasSignalled ∧ st.siStatus = sigInt ∧ s.settings.skippable then do
    setSvc i fun s => { s with startSkipped := true }
    started rec i
  else failedToStart rec i true fun w =>
    w.onCore fun c => c.setSvc i fun s => { s with stopReason := .failed }

/-- `handle_exit_status()` of `scripted_service` -/
def scriptedHandleExitStatus (i : Nat) : M Unit := do
  let s ← getSvc i
  if s.serviceState = .stopping then scriptedExitStopping rec i else scriptedExitStarting rec i
  rec.processQueues

/-- `handle_exit_status()` of each class -/
def handleExitStatus (i : Nat) : M Unit := do
  call (.handleExitStatus i)
  let s ← getSvc i
  if s.getType = .process then processHandleExitStatus rec i
  else if s.getType = .bgprocess then bgprocBegin rec i
  else scriptedHandleExitStatus rec i

/-- `exec_failed()` of `process_service` -/
def processExecFailed (i : Nat) : M Unit := do
  setProc i fun p => p.stopStopstartTimer.closeNotification
  let s ← getSvc i
  if s.serviceState = .starting then
    failedToStart rec i true fun w => w.onCore fun c => c.setSvc i fun s =>
      { s with stopReason := .execfailed, serviceState := .stopping }
  else do
    setSvc i fun s =>
      { s with stopReason := .terminated, proc := { s.proc with doingSmoothRecovery := false } }
    unrecoverableStop i

/-- `exec_failed()` of `bgproc_service` -/
def bgprocExecFailed (i : Nat) : M Unit := do
  stopStopstartTimer i
  let s ← getSvc i
  if s.proc.doingSmoothRecovery then do
    setSvc i fun s =>
      { s with stopReason := .terminated, proc := { s.proc with doingSmoothRecovery := false } }
    unrecoverableStop i
  else failedToStart rec i true fun w => w.onCore fun c => c.setSvc i fun s =>
    { s with stopReason := .execfailed, serviceState := .stopping }

/-- `exec_failed()` of `scripted_service` -/
def scriptedExecFailed (i : Nat) : M Unit := do
  let s ← getSvc i
  if s.serviceState = .starting then
    failedToStart rec i true fun w =>
      w.onCore fun c => c.setSvc i fun s => { s with stopReason := .execfailed }
  else if s.serviceState = .stopping then stopped rec i
  else pure ()

/-- `exec_failed()` of each class -/
def execFailed (i : Nat) : M Unit := do
  let s ← getSvc i
  if s.getType = .process then processExecFailed rec i
  else if s.getType = .bgprocess then bgprocExecFailed rec i
  else scriptedExecFailed rec i

/-- `exec_succeeded()` of each class -/
def execSucceeded (i : Nat) : M Unit := do
  let s ← getSvc i
  if s.getType ≠ .process then pure ()
  else do
    setProc i fun p => { p with trackingChild := true }
    let c ← getCore
    if s.serviceState = .starting then
      if s.settings.hasReadyNotification then
        setProc i fun p => { p with readyWatch := true }
      else do
        stopStopstartTimer i
        started rec i
    else if s.serviceState = .started then
      if ¬s.proc.notificationFd then stopStopstartTimer i else pure ()
    else if s.serviceState = .stopping ∧ c.stopCheckDependents i then processBringDown rec i
    else pure ()

def handleStopExit (i : Nat) : M Unit := do
  let s ← getSvc i
  if s.proc.pid = -1 ∨ ¬s.proc.trackingChild then do
    setProc i fun p => { p with stopIssued := false }
    stopped rec i
  else pure ()

end
end Dinit
