import Dinit.Service.Process

namespace Dinit

open Framework Framework.Comp

/-- Whether a hard dependent of `i` is start-pinned. -/
def Core.deptPin (c : Core) (i : Nat) : Bool :=
  (c.svc i).dependents.any fun l => (c.link l).isHard && (c.svc (c.link l).from_).isStartPinned

namespace World

/-- The end of `do_stop`: the service waits for its dependents, or its transition is due. -/
def beginStop (w : World) (i : Nat) (allDepsStopped : Bool) : World :=
  let w := w.onCore fun c => c.setSvc i fun s =>
    { s with serviceState := .stopping, waitingForDeps := !allDepsStopped }
  if allDepsStopped then w.addTransitionQueue i else w

/-- `do_stop` of a service that waits for its dependencies or for the console: its start
is cancelled. -/
def cancelWait (w : World) (i : Nat) (allDepsStopped : Bool) : World :=
  ((w.onCore fun c => c.unqueueConsole i).push (.startCancelled i)).beginStop i allDepsStopped

/-- Take `i` off the propagation queue and enter its `do_propagation`. -/
def popPropagation (w : World) (i : Nat) : World :=
  { (w.onCore fun c => { c with propQueue := c.propQueue.popFront i }).push (.doPropagation i) with
    ctx := (i,0)::w.ctx }

def leavePropagation (w : World) : World := { w with ctx := w.ctx.tail }

/-- Have `do_propagation` look at the dependency pin of the service. -/
def propagatePinTo (w : World) (i : Nat) : World :=
  w.onCore fun c => c.setProp i (fun s => { s with propPinDpt := true }) true

/-- Have the dependency pins of the hard dependencies of `i` looked at again, where they do
not agree with `pinned` already. -/
def queuePinDpt (w : World) (i : Nat) (pinned : Bool) : World :=
  (w.core.svc i).dependsOn.foldl (fun w l =>
    let d := w.core.link l
    if d.isHard ∧ (w.core.svc d.to_).deptPinnedStarted ≠ pinned then w.propagatePinTo d.to_
    else w) w

/-- The dependency pin, recomputed from the dependents' pins. -/
def recomputePin (w : World) (i : Nat) : World :=
  let deptPin := w.core.deptPin i
  if deptPin ≠ (w.core.svc i).deptPinnedStarted then
    (w.onCore fun c => c.setSvc i fun s => { s with deptPinnedStarted := deptPin }).queuePinDpt i
      deptPin
  else w

def pinStart (w : World) (i : Nat) : World :=
  let s := w.core.svc i
  if s.pinnedStarted then w
  else (if s.deptPinnedStarted then w else w.queuePinDpt i true).onCore fun c =>
    c.setSvc i fun s => { s with pinnedStarted := true }

/-- The start of `unpin` for a service that is pinned started. -/
def unpinStart (w : World) (i : Nat) : World :=
  let s := w.core.svc i
  let w := w.onCore fun c => c.setSvc i fun s => { s with pinnedStarted := false }
  if s.deptPinnedStarted then w else w.queuePinDpt i false

/-- Take `i` off the transition queue and enter its `execute_transition`. -/
def popTransition (w : World) (i : Nat) : World :=
  (w.onCore fun c => { c with stopQueue := c.stopQueue.popFront i }).push (.executeTransition i)

/-- Take `i` off the console queue and enter its `acquired_console`. -/
def popConsole (w : World) (i : Nat) (rest : List Nat) : World :=
  (w.onCore fun c => { c with consoleQueue := rest }).push (.acquiredConsole i)

end World

section
variable (rec : Rec)

/-- `append_console_queue`, with `enable_console_log(false)`: the log gives up the
console at once, or when it has finished the message it is partway through. `before` is
what the caller assigns just before the call. -/
def appendConsoleQueue (i : Nat) (before : Svc → Svc) : M Unit := do
  let c ← getCore
  onCore fun c => { c.setSvc i before with consoleQueue := c.consoleQueue++[i] }
  if c.consoleQueue.isEmpty ∧ ¬c.logRelease then do
    onCore fun c => { c with logRelease := true }
    let r ← sysResult
    if r.logIdle then rec.pullConsoleQueue
    else onCore fun c => { c with logBusy := true }
  else pure ()

def queueForConsole (i : Nat) : M Unit :=
  appendConsoleQueue rec i fun s => { s with waitingForConsole := true }

def allDepsStarted (i : Nat) : M Unit := do
  call (.allDepsStarted i)
  let s ← getSvc i
  if s.settings.startsOnConsole ∧ ¬s.haveConsole then queueForConsole rec i
  else do
    setSvc i fun s => { s with waitingForDeps := false }
    let up ← bringUp rec i
    if up then pure ()
    else failedToStart rec i true fun w => w.onCore fun c => c.setSvc i fun s =>
      { s with serviceState := .stopping }

/-- `acquired_console`, entered by `World.popConsole` -/
def acquiredConsole (i : Nat) : M Unit := do
  setSvc i fun s => { s with waitingForConsole := false, haveConsole := true }
  let s ← getSvc i
  let c ← getCore
  if s.serviceState ≠ .starting then releaseConsole rec i
  else if c.checkDepsStarted i then allDepsStarted rec i
  else releaseConsole rec i

def pullConsoleQueue : M Unit := do
  let c ← getCore
  match c.consoleQueue with
  | [] => onCore fun c => { c with logRelease := false }
  | i::rest => do
    modify fun w => w.popConsole i rest
    acquiredConsole rec i

/-- Have `do_propagation` stop the service. -/
def propagateStop (i : Nat) (f : Svc → Svc) : M Unit :=
  onCore fun c => c.setProp i (fun s => { f s with propStop := true }) true

/-- If `i` is to be stopped forcefully, its dependent `j` must be too. -/
def Core.forceDependent (c : Core) (i j : Nat) : Core :=
  let s := c.svc i
  if s.forceStop then
    if s.desiredState = .stopped then
      (c.setSvc j fun s => { s with stopReason := .depfailed }).unrecoverableStop j
    else c.forcedStop j
  else c

/-- What `stop_dependents` of `i` does for one hard dependent `j`. -/
def stopHardDependent (i j : Nat) (restartDeps : Bool) : M Unit := do
  let s ← getSvc i
  onCore fun c => c.forceDependent i j
  let t ← getSvc j
  if t.serviceState ≠ .stopped then
    if s.desiredState = .stopped then
      if t.desiredState ≠ .stopped then do
        if t.startExplicit then do
          onCore fun c => (c.setSvc j fun s => { s with desiredState := .stopped }).dropExplicit j
          stopReleased rec j
          propagateStop j id
        else propagateStop j fun s => { s with desiredState := .stopped }
      else pure ()
    else if restartDeps ∧ t.serviceState ≠ .stopping then
      propagateStop j fun s => { s with stopReason := .deprestart, inUserRestart := true }
    else pure ()
  else pure ()

/-- What `stop_dependents` of `i` does for one link to it; false if the dependent
still has to stop. -/
def stopDependent (i : Nat) (forRestart restartDeps : Bool) (l : Nat) : M Bool := do
  call (.stopDependent i l)
  let d ← getLink l
  if d.isHard then do
    let f ← getSvc d.from_
    stopHardDependent rec i d.from_ restartDeps
    return f.isFundamentallyStopped
  else do
    if ¬forRestart then modify fun w => w.breakSoft i l else pure ()
    return true

/-- `stop_dependents`, over the links still to visit -/
def stopDependents (i : Nat) (forRestart restartDeps : Bool) : List Nat → M Bool
  | [] => pure true
  | l::ls => do
    let stopped_ ← stopDependent rec i forRestart restartDeps l
    let rest ← stopDependents i forRestart restartDeps ls
    return stopped_ && rest

/-- Whether the settings and the last exit ask for an automatic restart. -/
def doAutoRestart (s : Svc) : Bool :=
  match s.settings.autoRestart with
  | .always => true
  | .never => false
  | .onFailure =>
    (s.getType==.process || s.getType==.bgprocess) &&
      (if s.getExitStatus.wasSignalled then
        !([sigHup,sigInt,sigUsr1,sigUsr2,sigTerm].contains s.getExitStatus.siStatus)
      else s.getExitStatus.siStatus != 0)

/-- Whether the service will restart after it has stopped, as `do_stop` decides it. -/
def stopForRestart (i : Nat) (withRestart : Bool) : M Bool := do
  let s ← getSvc i
  setSvc i fun s => { s with inAutoRestart := false, inUserRestart := false }
  if ¬withRestart ∧ doAutoRestart s ∧ s.desiredState = .started then do
    let again ← checkRestart i
    setSvc i fun s => { s with inAutoRestart := again }
    return again
  else return withRestart

/-- The end of `do_stop`: stop now, interrupt the start if that can be done, or leave
the service to be stopped once it has started. -/
def stopOrInterrupt (i : Nat) (allDepsStopped : Bool) : M Unit := do
  let s ← getSvc i
  if s.serviceState = .started then modify fun w => w.beginStop i allDepsStopped
  else if s.serviceState = .starting then
    if s.waitingForDeps ∨ s.waitingForConsole then
      modify fun w => w.cancelWait i allDepsStopped
    else if s.canInterruptStart then do
      let _ ← interruptStart i fun w =>
        let w := w.push (.startCancelled i)
        if ¬s.isProcess ∨ s.proc.waitingRestartTimer then w.beginStop i allDepsStopped else w
    else pure ()
  else pure ()

def doStop (i : Nat) (withRestart : Bool) : M Unit := do
  call (.doStop i withRestart)
  let s ← getSvc i
  if s.isStartPinned then pure ()
  else do
    let forRestart ← stopForRestart i withRestart
    let s ← getSvc i
    if ¬forRestart ∧ s.startExplicit then onCore fun c => c.dropExplicit i else pure ()
    let allDepsStopped ← stopDependents rec i forRestart withRestart s.dependents
    stopOrInterrupt i allDepsStopped

/-- `do_propagation`, dependency pin: a service that is no longer pinned may have to stop. -/
def propagatePin (i : Nat) : M Unit := do
  let c ← getCore
  modify fun w => (w.recomputePin i).nextFlag
  let s ← getSvc i
  if c.deptPin i ≠ (c.svc i).deptPinnedStarted ∧ ¬s.isStartPinned
      ∧ (s.desiredState = .stopped ∨ s.forceStop) ∧ s.serviceState = .started then
    rec.doStop i false
  else pure ()

/-- One flag of `do_propagation` is done with. -/
def clearFlag (i : Nat) (f : Svc → Svc) : M Unit :=
  modify fun w => (w.onCore fun c => c.setSvc i f).nextFlag

/-- `do_propagation`, first flag -/
def propagateRequire (i : Nat) : M Unit := do
  let s ← getSvc i
  if s.propRequire then modify fun w =>
    ((w.requireDependencies i).onCore fun c => c.setSvc i fun s =>
      { s with propRequire := false }).nextFlag
  else modify World.nextFlag

/-- `do_propagation`, second flag -/
def propagateRelease (i : Nat) : M Unit := do
  let s ← getSvc i
  if s.propRelease then releaseDependencies rec i else pure ()
  clearFlag i fun s => { s with propRelease := false }

/-- `do_propagation`, third flag -/
def propagateFailed (i : Nat) : M Unit := do
  let s ← getSvc i
  if s.propFailure then failedToStart rec i true fun w =>
    (w.onCore fun c => c.setSvc i fun s =>
      { s with propFailure := false, stopReason := .depfailed, serviceState := .stopped }).nextFlag
  else modify World.nextFlag

/-- `do_propagation`, fourth flag -/
def propagateStart (i : Nat) : M Unit := do
  let s ← getSvc i
  clearFlag i fun s => { s with propStart := false }
  if s.propStart then modify fun w => w.doStart i else pure ()

/-- `do_propagation`, fifth flag -/
def propagateStopped (i : Nat) : M Unit := do
  let s ← getSvc i
  clearFlag i fun s => { s with propStop := false }
  if s.propStop then rec.doStop i s.inUserRestart else pure ()

/-- `do_propagation`, entered by `World.popPropagation` -/
def doPropagation (i : Nat) : M Unit := do
  propagateRequire i
  propagateRelease rec i
  propagateFailed rec i
  propagateStart i
  propagateStopped rec i
  let s ← getSvc i
  if s.propPinDpt then propagatePin rec i else modify World.nextFlag

/-- `execute_transition`, entered by `World.popTransition` -/
def executeTransition (i : Nat) : M Unit := do
  let s ← getSvc i
  let c ← getCore
  if s.serviceState = .starting then
    if c.checkDepsStarted i then do
      setSvc i fun s => { s with waitingForDeps := false }
      allDepsStarted rec i
    else pure ()
  else if s.serviceState = .stopping then
    if c.stopCheckDependents i then do
      setSvc i fun s => { s with waitingForDeps := false }
      if s.settings.killAllOnStop then do
        call (.killAll sigTerm)
        call (.killAll sigKill)
      else pure ()
      call (.bringDown i)
      bringDown rec i
    else pure ()
  else pure ()

/-- One round of `process_queues`: propagation goes before transitions. -/
def processQueues : M Unit := do
  let c ← getCore
  match c.propQueue.first, c.stopQueue.first with
  | some i, _ => do
    modify fun w => w.popPropagation i
    doPropagation rec i
    modify World.leavePropagation
    rec.processQueues
  | none, some i => do
    modify fun w => w.popTransition i
    executeTransition rec i
    rec.processQueues
  | none, none => pure ()

end

/-- The code's functions with calls nested at most `fuel` deep. -/
def calls : Nat → Rec
  | 0 => ⟨fun _ _ => fail,fail,fail,fun _ => fail⟩
  | fuel+1 =>
    let rec_ := calls fuel
    ⟨doStop rec_,pullConsoleQueue rec_,processQueues rec_,bgprocBegin rec_⟩

end Dinit
