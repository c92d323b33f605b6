import Dinit.Service.Record

namespace Dinit

open Framework Framework.Comp

namespace Svc

/-- One requirement more. -/
def required (s : Svc) : Svc :=
  { s with
    requiredBy := s.requiredBy+1
    propStart := s.propStart || (s.requiredBy==0 && s.serviceState != .starting
      && s.serviceState != .started) }

/-- One requirement less: with none left the service is no longer wanted and, unless it
is pinned, releases its dependencies (or forgets that it was to require them). -/
def released (s : Svc) : Svc :=
  if s.requiredBy-1 = 0 then
    if s.isStartPinned then { s with requiredBy := s.requiredBy-1, desiredState := .stopped }
    else
      { s with
        requiredBy := s.requiredBy-1
        desiredState := .stopped
        propRelease := !s.propRequire
        propRequire := false }
  else { s with requiredBy := s.requiredBy-1 }

def forced (s : Svc) : Svc :=
  if s.serviceState = .stopped then s
  else { s with forceStop := true, propStop := s.propStop || !s.isStartPinned }

end Svc

namespace Core

def setSvc (c : Core) (i : Nat) (f : Svc → Svc) : Core :=
  { c with svc := fun j => if j=i then f (c.svc i) else c.svc j }

def setProc (c : Core) (i : Nat) (f : Proc → Proc) : Core :=
  c.setSvc i fun s => { s with proc := f s.proc }

def setLink (c : Core) (l : Nat) (f : Link → Link) : Core :=
  { c with link := fun k => if k=l then f (c.link l) else c.link k }

/-- Set the same flag on each of a list of links. -/
def setLinks (c : Core) (ls : List Nat) (f : Link → Link) : Core :=
  { c with link := fun k => if ls.contains k then f (c.link k) else c.link k }

def addPropQueue (c : Core) (i : Nat) : Core := { c with propQueue := c.propQueue.add i }

/-- Change a record, and queue it for propagation if `queue` says so. -/
def setProp (c : Core) (i : Nat) (f : Svc → Svc) (queue : Bool) : Core :=
  if queue then (c.setSvc i f).addPropQueue i else c.setSvc i f

def isShuttingDown (c : Core) : Bool := !c.restartEnabled

/-- `find_service` (placeholders are not found) -/
def findService (c : Core) (name : String) : Option Nat :=
  match c.records.find? (fun i => (c.svc i).settings.serviceName==name) with
  | some i => if (c.svc i).getType = .placeholder then none else some i
  | none => none

def checkDepsStarted (c : Core) (i : Nat) : Bool :=
  (c.svc i).dependsOn.all fun l => !(c.link l).waitingOn

/-- `stop_check_dependents`: a dependent that waits on us is taken to be restarting,
hence stopped. -/
def stopCheckDependents (c : Core) (i : Nat) : Bool :=
  (c.svc i).dependents.all fun l =>
    !((c.link l).isHard && (c.link l).holdingAcq && !(c.link l).waitingOn)

def require (c : Core) (i : Nat) : Core :=
  let s := c.svc i
  c.setProp i Svc.required
    (s.requiredBy = 0 ∧ s.serviceState ≠ .starting ∧ s.serviceState ≠ .started)

/-- `release(false)`; what `release(true)` does besides is `stopReleased`. -/
def release (c : Core) (i : Nat) : Core :=
  let s := c.svc i
  c.setProp i Svc.released (s.requiredBy-1 = 0 ∧ ¬s.isStartPinned ∧ ¬s.propRequire)

/-- Require the target of a link and mark the link as holding it. -/
def acquire (c : Core) (l : Nat) : Core :=
  (c.require (c.link l).to_).setLink l fun d => { d with holdingAcq := true }

/-- Clear the mark of a link that holds `i`, and release `i`. -/
def dropLink (c : Core) (l i : Nat) : Core :=
  (c.setLink l fun d => { d with holdingAcq := false }).release i

/-- Clear the explicit activation of `i`, and release `i`. -/
def dropExplicit (c : Core) (i : Nat) : Core :=
  (c.setSvc i fun s => { s with startExplicit := false }).release i

/-- Whether starting the source of a link has to wait for its target. -/
def waits (c : Core) (l : Nat) : Bool :=
  let d := c.link l
  let st := (c.svc d.to_).serviceState
  !(d.isOnlyOrdering && st != .starting) && st != .started

/-- `start_check_dependencies`: mark what this service must wait for, and what must
now wait for it. -/
def startCheckDependencies (c : Core) (i : Nat) : Core :=
  let c := c.setLinks ((c.svc i).dependsOn.filter c.waits) fun d => { d with waitingOn := true }
  c.setLinks ((c.svc i).dependents.filter fun l =>
      !(c.link l).waitingOn && (c.link l).isOnlyOrdering
        && (c.svc (c.link l).from_).serviceState==.starting)
    fun d => { d with waitingOn := true }

/-- The soft dependents of `i` that `do_start` attaches again. -/
def softDependents (c : Core) (i : Nat) : List Nat :=
  (c.svc i).dependents.filter fun l =>
    let st := (c.svc (c.link l).from_).serviceState
    !(c.link l).isHard && !(c.link l).holdingAcq && (st==.started || st==.starting)

/-- `do_start` of a STOPPED service, up to `initiate_start` -/
def activate (c : Core) (i : Nat) : Core :=
  let s := c.svc i
  let soft := c.softDependents i
  let c := c.setLinks soft fun d => { d with holdingAcq := true }
  let c := { c with activeServices := c.activeServices+1 }
  c.setProp i (fun s =>
    { s with
      desiredState := .started
      requiredBy := s.requiredBy+soft.length
      propRequire := !s.propRelease
      propRelease := false }) (!s.propRelease)

def forcedStop (c : Core) (i : Nat) : Core :=
  let s := c.svc i
  c.setProp i Svc.forced (s.serviceState ≠ .stopped ∧ ¬s.isStartPinned)

def unrecoverableStop (c : Core) (i : Nat) : Core :=
  (c.setSvc i fun s => { s with desiredState := .stopped }).forcedStop i

/-- Mark `i` as failing, its dependency having failed to start. -/
def propagateFailure (c : Core) (i : Nat) : Core :=
  c.setProp i (fun s => { s with propFailure := true }) true

/-- `unqueue_console` for a service that waits for the console -/
def unqueueConsole (c : Core) (i : Nat) : Core :=
  let s := c.svc i
  { c.setSvc i (fun s => { s with waitingForConsole := false }) with
    consoleQueue := if s.waitingForConsole then c.consoleQueue.erase i else c.consoleQueue }

/-- The end of `stopped()` for a service that does not restart. -/
def becomeInactive (c : Core) (i : Nat) : Core :=
  let c := c.setSvc i fun s =>
    { s with
      serviceState := .stopped
      proc := { s.proc with socketOpen := false } }
  if (c.svc i).startExplicit then c.dropExplicit i
  else if (c.svc i).requiredBy = 0 then { c with activeServices := c.activeServices-1 }
  else c

end Core

namespace World

def onCore (w : World) (f : Core → Core) : World := { w with core := f w.core }

/-- Enter a function: the call and the state it finds go to the trace. -/
def push (w : World) (k : Call) : World := { w with trace := (k,w.core)::w.trace }

def addTransitionQueue (w : World) (i : Nat) : World :=
  (w.push (.addTransitionQueue i)).onCore fun c => { c with stopQueue := c.stopQueue.add i }

def dependencyStarted (w : World) (i : Nat) : World :=
  let s := w.core.svc i
  if (s.serviceState = .starting ∨ s.serviceState = .started) ∧ s.waitingForDeps then
    w.addTransitionQueue i
  else w

def dependentStopped (w : World) (i : Nat) : World :=
  let s := w.core.svc i
  if s.serviceState = .stopping ∧ s.waitingForDeps then w.addTransitionQueue i else w

/-- The source of a link no longer waits for its target. -/
def clearWait (w : World) (l : Nat) : World :=
  (w.onCore fun c => c.setLink l fun d => { d with waitingOn := false }).dependencyStarted
    (w.core.link l).from_

/-- Tell the source of a link that its target has started. -/
def notifyStarted (w : World) (l : Nat) : World :=
  if (w.core.link l).waitingOn then
    (w.dependencyStarted (w.core.link l).from_).onCore fun c =>
      c.setLink l fun d => { d with waitingOn := false }
  else w

/-- Break the link `l` of a dependent of `i` if it is a soft one. -/
def breakSoft (w : World) (i l : Nat) : World :=
  let d := w.core.link l
  if d.isHard then w
  else
    let w := if d.waitingOn then w.clearWait l else w
    if d.holdingAcq then w.onCore fun c => c.dropLink l i else w

/-- The start of `failed_to_start`, which gives up the start of `i` itself. -/
def failStart (w : World) (i : Nat) (immediateStop : Bool) : World :=
  (w.push (.failedToStart i immediateStop)).onCore fun c =>
    (c.setSvc i fun s => { s with desiredState := .stopped }).unqueueConsole i

/-- Cancel the start of a dependent of `i`, which has failed to start. -/
def cancelDependent (w : World) (i l : Nat) : World :=
  let d := w.core.link l
  let w :=
    if d.depType = .regular ∨ d.depType = .milestone then
      if (w.core.svc d.from_).serviceState = .starting then
        w.onCore fun c => c.propagateFailure d.from_
      else w
    else if d.waitingOn then w.clearWait l
    else w
  if d.holdingAcq then w.onCore fun c => c.dropLink l i else w

/-- The innermost `do_propagation` has dealt with one more flag. -/
def nextFlag (w : World) : World :=
  { w with ctx := match w.ctx with
      | [] => []
      | (i,k)::rest => (i,k+1)::rest }

def initiateStart (w : World) (i : Nat) : World :=
  let w := w.push (.initiateStart i)
  let w := w.onCore fun c => c.setSvc i fun s =>
    { s with
      startFailed := false
      startSkipped := false
      serviceState := .starting
      waitingForDeps := true }
  let ready := (w.core.svc i).dependsOn.all fun l => !w.core.waits l
  let w := w.onCore fun c => c.startCheckDependencies i
  -- `waiting_for_deps` stays set: an ordering dependency might still come into play
  if ready then w.addTransitionQueue i else w

/-- `failed_to_start`, without its immediate stop -/
def cancelStart (w : World) (i : Nat) (immediateStop : Bool) : World :=
  let w := w.failStart i immediateStop
  let w := if (w.core.svc i).startExplicit then w.onCore fun c => c.dropExplicit i else w
  let w := (w.core.svc i).dependents.foldl (fun w l => w.cancelDependent i l) w
  w.onCore fun c => c.setSvc i fun s => { s with startFailed := true, pinnedStarted := false }

def doStart (w : World) (i : Nat) : World :=
  let s := w.core.svc i
  let w := w.push (.doStart i)
  let want := w.onCore fun c => c.setSvc i fun s => { s with desiredState := .started }
  if s.pinnedStopped then
    if s.serviceState = .stopped then want.cancelStart i false else want
  else if s.serviceState ≠ .stopped then
    if s.serviceState = .stopping ∧ s.canInterruptStop then want.initiateStart i else want
  else (w.onCore fun c => c.activate i).initiateStart i

def start (w : World) (i : Nat) : World :=
  let s := w.core.svc i
  if s.pinnedStopped then w
  else if s.startExplicit then w.doStart i
  else (w.onCore fun c => c.setSvc i fun s =>
    { s with requiredBy := s.requiredBy+1, startExplicit := true }).doStart i

/-- Start the service that `i` chains to, if it is loaded. -/
def chainTo (w : World) (i : Nat) (willRestart : Bool) : World :=
  let s := w.core.svc i
  if ¬s.startFailed ∧ (s.settings.alwaysChain ∨ (s.stopReason = .terminated
      ∧ s.getExitStatus.didExitClean ∧ ¬willRestart)) ∧ ¬w.core.isShuttingDown then
    match s.settings.startOnCompletion with
    | none => w
    | some name =>
      match w.core.findService name with
      | none => w
      | some j => w.start j
  else w

/-- Signal the dependencies of `i`, in case they wait for it to stop. -/
def signalDependencies (w : World) (i : Nat) : World :=
  (w.core.svc i).dependsOn.foldl (fun w l => w.dependentStopped (w.core.link l).to_) w

/-- `stopped`, once the console is released: the service restarts if it is still wanted. -/
def becomeStopped (w : World) (i : Nat) : World :=
  let w := w.onCore fun c => c.setSvc i fun s => { s with forceStop := false }
  let s := w.core.svc i
  if s.desiredState = .started ∧ ¬s.pinnedStopped then
    let w := w.signalDependencies i
    let w := w.onCore fun c => c.setSvc i fun s => { s with serviceState := .stopped }
    w.initiateStart i
  else
    let w := s.dependents.foldl (fun w l => w.breakSoft i l) w
    let w := w.signalDependencies i
    w.onCore fun c => c.becomeInactive i

/-- `started`, once the console is released: the dependents are told, unless the
service must stop again. -/
def becomeStarted (w : World) (i : Nat) : World :=
  let w := w.push (.logServiceStarted i)
  let w := w.onCore fun c => c.setSvc i fun s => { s with serviceState := .started }
  let s := w.core.svc i
  if s.forceStop ∨ s.desiredState = .stopped then w
  else s.dependents.foldl (fun w l => w.notifyStarted l) w

/-- Require every dependency of `i` which is more than an ordering. -/
def requireDependencies (w : World) (i : Nat) : World :=
  (w.core.svc i).dependsOn.foldl (fun w l =>
    if (w.core.link l).isOnlyOrdering then w else w.onCore fun c => c.acquire l) w

end World

def onCore (f : Core → Core) : M Unit := modify fun w => w.onCore f
def getCore : M Core := fun w => (some w.core,w)
def getSvc (i : Nat) : M Svc := fun w => (some (w.core.svc i),w)
def getLink (l : Nat) : M Link := fun w => (some (w.core.link l),w)
def setSvc (i : Nat) (f : Svc → Svc) : M Unit := onCore fun c => c.setSvc i f
def setProc (i : Nat) (f : Proc → Proc) : M Unit := onCore fun c => c.setProc i f

def call (k : Call) : M Unit := modify fun w => w.push k

/-- The next system call's result; calls past the end of the list fail. -/
def sysResult : M SysResult := fun w =>
  match w.sys with
  | [] => (some {},w)
  | r::rs => (some r,{ w with sys := rs })

def initiateStart (i : Nat) : M Unit := modify fun w => w.initiateStart i

/-- The functions through which the code re-enters itself. Everything else is
defined from these without recursion; `calls` ties the knot. -/
structure Rec where
  doStop : Nat → Bool → M Unit
  pullConsoleQueue : M Unit
  processQueues : M Unit
  /-- `goto begin` in `bgproc_service::handle_exit_status` -/
  handleExitAgain : Nat → M Unit

section
variable (rec : Rec)

def releaseConsole (i : Nat) : M Unit := do
  setSvc i fun s => { s with haveConsole := false }
  rec.pullConsoleQueue

/-- The stop that `release(true)` issues when nothing requires the service any more. -/
def stopReleased (i : Nat) : M Unit := do
  let s ← getSvc i
  if s.requiredBy = 0 ∧ ¬s.isStartPinned ∧ s.serviceState ≠ .stopped
      ∧ s.serviceState ≠ .stopping then do
    setSvc i fun s => { s with stopReason := .normal }
    rec.doStop i false
  else pure ()

def releaseDependencies (i : Nat) : M Unit := do
  let s ← getSvc i
  forEach s.dependsOn fun l => do
    call (.releaseDependency l)
    let d ← getLink l
    if d.holdingAcq then do
      onCore fun c => c.dropLink l d.to_
      stopReleased rec d.to_
    else pure ()

def stopped (i : Nat) : M Unit := do
  call (.stopped i)
  let s ← getSvc i
  if s.haveConsole then releaseConsole rec i else pure ()
  let s ← getSvc i
  let willRestart := s.desiredState==.started && !s.pinnedStopped
  modify fun w => w.becomeStopped i
  modify fun w => w.chainTo i willRestart

/-- `failed_to_start`; `before` is what the caller assigns just before the call. -/
def failedToStart (i : Nat) (immediateStop : Bool) (before : World → World := id) : M Unit := do
  modify fun w => (before w).cancelStart i immediateStop
  if immediateStop then stopped rec i else pure ()

def started (i : Nat) : M Unit := do
  call (.started i)
  let s ← getSvc i
  if s.haveConsole ∧ ¬s.settings.runsOnConsole then releaseConsole rec i else pure ()
  modify fun w => w.becomeStarted i
  let s ← getSvc i
  if s.forceStop ∨ s.desiredState = .stopped then rec.doStop i false else pure ()

end
end Dinit
