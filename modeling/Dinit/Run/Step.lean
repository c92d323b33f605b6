import Dinit.Service.Frame

namespace Dinit

open Framework Framework.Comp

/-- What an update of the bookkeeping fields (reasons, restart flags, counters)
leaves as it is. -/
structure Svc.Kept (s s' : Svc) : Prop where
  settings : s'.settings=s.settings
  serviceState : s'.serviceState=s.serviceState
  desiredState : s'.desiredState=s.desiredState
  pinnedStopped : s'.pinnedStopped=s.pinnedStopped
  pinnedStarted : s'.pinnedStarted=s.pinnedStarted
  deptPinnedStarted : s'.deptPinnedStarted=s.deptPinnedStarted
  waitingForDeps : s'.waitingForDeps=s.waitingForDeps
  waitingForConsole : s'.waitingForConsole=s.waitingForConsole
  haveConsole : s'.haveConsole=s.haveConsole
  startExplicit : s'.startExplicit=s.startExplicit
  propRequire : s'.propRequire=s.propRequire
  propRelease : s'.propRelease=s.propRelease
  propFailure : s'.propFailure=s.propFailure
  propStart : s'.propStart=s.propStart
  propStop : s'.propStop=s.propStop
  propPinDpt : s'.propPinDpt=s.propPinDpt
  requiredBy : s'.requiredBy=s.requiredBy
  dependsOn : s'.dependsOn=s.dependsOn
  dependents : s'.dependents=s.dependents
  forceStop : s'.forceStop=s.forceStop
  pid : s'.proc.pid=s.proc.pid
  waitingForExecstat : s'.proc.waitingForExecstat=s.proc.waitingForExecstat
  waitingRestartTimer : s'.proc.waitingRestartTimer=s.proc.waitingRestartTimer
  waitingStopstartTimer : s'.proc.waitingStopstartTimer=s.proc.waitingStopstartTimer
  timerArmed : s'.proc.timerArmed=s.proc.timerArmed
  timerFor : s'.proc.timerFor=s.proc.timerFor
  trackingChild : s'.proc.trackingChild=s.proc.trackingChild
  stopIssued : s'.proc.stopIssued=s.proc.stopIssued
  stopPid : s'.proc.stopPid=s.proc.stopPid
  childWatch : s'.proc.childWatch=s.proc.childWatch
  execPipe : s'.proc.execPipe=s.proc.execPipe
  stopWatch : s'.proc.stopWatch=s.proc.stopWatch
  stopPipe : s'.proc.stopPipe=s.proc.stopPipe

/-- `do_stop` of `i` in this state interrupts a start by a signal. -/
def Core.Interruptible (c : Core) (i : Nat) : Prop :=
  let s := c.svc i
  s.isStartPinned=false ∧ s.serviceState=.starting ∧ s.waitingForDeps=false
    ∧ s.waitingForConsole=false ∧ s.isProcess=true ∧ s.settings.startInterruptible=true
    ∧ s.proc.waitingRestartTimer=false

instance (c : Core) (i : Nat) : Decidable (c.Interruptible i) :=
  inferInstanceAs (Decidable (_ ∧ _))

/-- `stop_dependents` of `i` passes the dependent on the link `l` over: it is pinned or
is to stop anyway, or `i` stops to restart without being forced to. -/
def Core.PassedOver (c : Core) (i l : Nat) (restartDeps : Bool) : Prop :=
  let s := c.svc i
  let t := c.svc (c.link l).from_
  t.serviceState≠.stopped ∧ (s.forceStop=false ∨ t.isStartPinned=true) ∧
    (s.desiredState=.stopped ∧ (s.forceStop=true ∨ t.desiredState=.stopped)
      ∨ s.desiredState≠.stopped ∧ (restartDeps=false ∨ t.serviceState=.stopping))

/-- The exec status of `i` arrives in a state in which `exec_succeeded` completes a stop,
or gives up the console and with it lets other services go on. -/
def Core.ExitDisturbed (c : Core) (i : Nat) : Prop :=
  let s := c.svc i
  s.getType=.process ∧
    (s.serviceState=.starting ∧ s.settings.hasReadyNotification=false ∧ s.haveConsole=true
        ∧ s.settings.runsOnConsole=false
      ∨ s.serviceState=.stopping ∧ c.stopCheckDependents i=true ∧ s.proc.stopPid=-1
        ∧ s.proc.stopIssued=false)

namespace World

/-- `kill_pg` of `i` may be entered: there is a process, or `do_stop` interrupts the
start in whose state the process id is taken. -/
def KillOk (w : World) (i : Nat) : Prop :=
  (w.core.svc i).proc.pid≠-1 ∨
    ∃ c r, (Call.doStop i r,c) ∈ w.trace ∧ c.Interruptible i
      ∧ (w.core.svc i).proc.pid=(c.svc i).proc.pid

/-- `kill_pg` of `i` has just been entered, and `getpgid` for it if the group is signalled. -/
def KillTarget (w : World) (i : Nat) (target : Int) (signo : Nat) : Prop :=
  let s := w.core.svc i
  if s.settings.signalProcessOnly then
    w.trace.head?=some (.killPg i signo,w.core) ∧ target=s.proc.pid
  else
    ∃ g rest, w.trace=(.getpgid s.proc.pid g,w.core)::(.killPg i signo,w.core)::rest ∧
      target=-(g.getD s.proc.pid)

/-- Every REGULAR dependent of `i` is told to stop, is stopping or stopped, or was
passed over. -/
def DependentsTold (w : World) (i : Nat) (restartDeps : Bool) : Prop :=
  ∀ l ∈ (w.core.svc i).dependents, (w.core.link l).depType=.regular →
    let t := w.core.svc (w.core.link l).from_
    t.propStop=true ∨ t.serviceState=.stopped ∨ t.serviceState=.stopping ∨
      ∃ c, (Call.stopDependent i l,c) ∈ w.trace ∧ c.PassedOver i l restartDeps

end World

/-- What `do_stop` does, and what it calls. -/
inductive StopStep : World → World → Prop
  | misc {w : World} (i : Nat) (f : Svc → Svc) (h : (w.core.svc i).Kept (f (w.core.svc i))) :
      StopStep w (w.onCore fun c => c.setSvc i f)
  | sys {w : World} (rs : List SysResult) : StopStep w { w with sys := rs }
  | doStop {w : World} (i : Nat) (r : Bool) : StopStep w (w.push (.doStop i r))
  | stopDependent {w : World} (i l : Nat) (h : l ∈ (w.core.svc i).dependents) :
      StopStep w (w.push (.stopDependent i l))
  | giveUp {w : World} (i : Nat) :
      StopStep w (w.onCore fun c => c.setSvc i fun s => { s with desiredState := .stopped })
  | dropExplicit {w : World} (i : Nat) (h : (w.core.svc i).startExplicit=true) :
      StopStep w (w.onCore fun c => c.dropExplicit i)
  | forceDependent {w : World} (i j : Nat) : StopStep w (w.onCore fun c => c.forceDependent i j)
  | giveUpExplicit {w : World} (j : Nat) (h : (w.core.svc j).startExplicit=true) :
      StopStep w (w.onCore fun c =>
        (c.setSvc j fun s => { s with desiredState := .stopped }).dropExplicit j)
  | propagateStop {w : World} (j : Nat) (f : Svc → Svc)
      (h : (w.core.svc j).Kept (f (w.core.svc j))
        ∨ f=fun s => { s with desiredState := .stopped }) :
      StopStep w (w.onCore fun c => c.setProp j (fun s => { f s with propStop := true }) true)
  | breakSoft {w : World} (i l : Nat) (h : l ∈ (w.core.svc i).dependents) :
      StopStep w (w.breakSoft i l)
  | interruptStart {w : World} (i : Nat) : StopStep w (w.push (.interruptStart i))
  | killPg {w : World} (i signo : Nat) (h : w.KillOk i) : StopStep w (w.push (.killPg i signo))
  | getpgid {w : World} (i : Nat) (g : Option Int) (signo : Nat)
      (h : w.trace.head?=some (.killPg i signo,w.core)) :
      StopStep w (w.push (.getpgid (w.core.svc i).proc.pid g))
  | kill {w : World} (i : Nat) (target : Int) (signo : Nat) (h : w.KillTarget i target signo) :
      StopStep w (w.push (.kill target signo))
  | beginStop {w : World} (i : Nat) (r all : Bool) (h : (w.core.svc i).serviceState=.started)
      (told : w.DependentsTold i r) : StopStep w (w.beginStop i all)
  | cancelWait {w : World} (i : Nat) (all : Bool) (h : (w.core.svc i).serviceState=.starting)
      (hw : (w.core.svc i).waitingForDeps=true ∨ (w.core.svc i).waitingForConsole=true) :
      StopStep w (w.cancelWait i all)
  | resetTimer {w : World} (i timeout : Nat) (c : Core) (hc : (Call.interruptStart i,c) ∈ w.trace)
      (hi : w.core.svc i=c.svc i) (hp : (w.core.svc i).isProcess=true)
      (hr : (w.core.svc i).proc.waitingRestartTimer=false) :
      StopStep w (w.onCore fun c => c.setProc i (Proc.resetStopstartTimer timeout))
  | interrupt {w : World} (i : Nat) (h : (w.core.svc i).serviceState=.starting)
      (hd : (w.core.svc i).waitingForDeps=false) (hc : (w.core.svc i).waitingForConsole=false)
      (hp : (w.core.svc i).isProcess=true) (ht : (w.core.svc i).proc.waitingRestartTimer=false) :
      StopStep w ((w.onCore fun c => c.setSvc i Svc.interrupted).push (.startCancelled i))
  | cancelled {w : World} (i : Nat) (all : Bool) (h : (w.core.svc i).serviceState=.starting)
      (hd : (w.core.svc i).waitingForDeps=false) (hc : (w.core.svc i).waitingForConsole=false)
      (hp : (w.core.svc i).isProcess=false ∨ (w.core.svc i).proc.waitingRestartTimer=true) :
      StopStep w (((w.onCore fun c => c.setSvc i Svc.interrupted).push
        (.startCancelled i)).beginStop i all)

namespace World

/-- If `i` is fundamentally stopped, it was so in the last call made, and the links are as
they were then. -/
def Noted (w : World) (i : Nat) : Prop :=
  (w.core.svc i).isFundamentallyStopped=true → ∃ k c, w.trace.head?=some (k,c) ∧
    (c.svc i).isFundamentallyStopped=true ∧ c.link=w.core.link

/-- `all_deps_started` of `i` is under way: the transition queue or the console has
brought it up, and since then only its waiting flags have changed. -/
def DepsUp (w : World) (i : Nat) : Prop :=
  ∃ k c pre rest, w.trace=pre++(k,c)::rest ∧ (pre=[] ∨ ∃ c', pre=[(.allDepsStarted i,c')]) ∧
    (k=.executeTransition i ∨ k=.acquiredConsole i) ∧ (c.svc i).serviceState=.starting ∧
    c.checkDepsStarted i=true ∧ w.core.link=c.link ∧ (∀ j, j≠i → w.core.svc j=c.svc j) ∧
    w.core.svc i = { c.svc i with
      waitingForDeps := (w.core.svc i).waitingForDeps
      waitingForConsole := (w.core.svc i).waitingForConsole
      haveConsole := (w.core.svc i).haveConsole }

/-- `execute_transition` has found that `i` can be brought down. -/
def DownOk (w : World) (i : Nat) : Prop :=
  ∃ c pre rest, w.trace=pre++(.executeTransition i,c)::rest ∧
    (∀ e ∈ pre, ∃ signo, e=(.killAll signo,w.core)) ∧ (c.svc i).serviceState=.stopping ∧
    c.stopCheckDependents i=true ∧ w.core.link=c.link ∧ (∀ j, j≠i → w.core.svc j=c.svc j) ∧
    w.core.svc i = { c.svc i with waitingForDeps := false }

/-- The exit of the process of `i` is being handled. -/
def ExitEntry (w : World) (i : Nat) : Prop :=
  ∃ k c, (k,c) ∈ w.trace ∧ (k=.handleExitStatus i ∨ k=.handleExitAgain i) ∧
    (w.core.svc i).proc.pid=(c.svc i).proc.pid ∧
    (w.core.svc i).proc.waitingForExecstat=(c.svc i).proc.waitingForExecstat ∧
    ((w.core.svc i).proc.waitingRestartTimer=true → (c.svc i).proc.waitingRestartTimer=true)

/-- The ways to `start_ps_process`, each with the process id and the exec status of the
state it started from. -/
def PsOk (w : World) (i : Nat) : Prop :=
  w.ExitEntry i ∨ ∃ k c, (k,c) ∈ w.trace ∧
    (k=.bringUp i ∨ k=.timerExpired i ∧ (c.svc i).serviceState≠.stopping ∧ (c.svc i).proc.pid=-1
        ∧ (w.core.svc i).proc.waitingRestartTimer=false
      ∨ k=.bringDown i ∧ (c.svc i).getType=.scripted ∧ (c.svc i).proc.pid=-1) ∧
    (w.core.svc i).proc.pid=(c.svc i).proc.pid ∧
    (w.core.svc i).proc.waitingForExecstat=(c.svc i).proc.waitingForExecstat ∧
    ((w.core.svc i).proc.waitingRestartTimer=true → (c.svc i).proc.waitingRestartTimer=true)

/-- The ways to a restart in place, or after a delay. -/
def RestartOk (w : World) (i : Nat) : Prop :=
  w.ExitEntry i ∨ ∃ c, (Call.bringUp i,c) ∈ w.trace ∧ (c.svc i).inAutoRestart=true ∧
    (w.core.svc i).proc.pid=(c.svc i).proc.pid ∧
    (w.core.svc i).proc.waitingForExecstat=(c.svc i).proc.waitingForExecstat ∧
    ((w.core.svc i).proc.waitingRestartTimer=true → (c.svc i).proc.waitingRestartTimer=true)

/-- `handle_exit_status` of `i` is entered: the child has just been reaped, or had been
reaped when the status of its `exec` came. In the second case `exec_succeeded` has run. -/
def ExitOk (w : World) (i : Nat) : Prop :=
  (w.core.svc i).proc.pid=-1 ∧ (w.core.svc i).proc.waitingForExecstat=false ∧
    ((∃ c, w.trace.head?=some (.childTerminated i,c) ∧
        (c.svc i).proc.waitingForExecstat=false ∧
        (w.core.svc i).serviceState=(c.svc i).serviceState)
      ∨ ∃ c pre rest, w.trace=pre++(.execStatus i false,c)::rest ∧ (c.svc i).proc.pid=-1 ∧
        (c.ExitDisturbed i ∨
          ((w.core.svc i).serviceState=.stopped → (c.svc i).serviceState=.stopped) ∧
          ∀ e ∈ pre, e.1≠.stopped i ∧ ∀ b, e.1≠.failedToStart i b))

/-- The calls that do nothing by themselves, and when they are made. -/
def CallOk (w : World) : Call → Prop
  | .stopped _ | .started _ | .killAll _ | .handleExitAgain _ | .releaseDependency _ => True
  | .allDepsStarted i | .bringUp i => w.DepsUp i
  | .bringDown i => w.DownOk i
  | .startPsProcess i => w.PsOk i
  | .handleExitStatus i => w.ExitOk i
  | .getpgid pid _ => ∃ i, (w.core.svc i).proc.stopPid≠-1 ∧ pid=(w.core.svc i).proc.stopPid
  | .kill target _ => ∃ i g, (w.core.svc i).proc.stopPid≠-1 ∧
      w.trace.head?=some (.getpgid (w.core.svc i).proc.stopPid g,w.core) ∧
      target=-(g.getD (w.core.svc i).proc.stopPid)
  | _ => False

/-- The calls with which an event or a command begins, and when it can come. -/
def EventOk (w : World) : Call → Prop
  | .unpin _ | .addDep _ _ _ | .rmDep _ | .startDep _ | .readyNotify _ => True
  | .execStatus i _ => (w.core.svc i).proc.execPipe=true
  | .stopExecStatus i _ => (w.core.svc i).proc.stopPipe=true
  | .childTerminated i => (w.core.svc i).proc.childWatch=true
  | .stopChildTerminated i => (w.core.svc i).proc.stopWatch=true
  | _ => False

end World

/-- The flag that `do_propagation` deals with at a stage. -/
def Svc.flag (s : Svc) : Nat → Bool
  | 0 => s.propRequire
  | 1 => s.propRelease
  | 2 => s.propFailure
  | 3 => s.propStart
  | 4 => s.propStop
  | _ => false

/-- What the code does between two calls through which it can re-enter itself. -/
inductive Step : World → World → Prop
  | stop {w w' : World} (h : StopStep w w') : Step w w'
  | call {w : World} (k : Call) (h : w.CallOk k) : Step w (w.push k)
  -- the console
  | releaseConsole {w : World} (i : Nat) :
      Step w (w.onCore fun c => c.setSvc i fun s => { s with haveConsole := false })
  | consoleLog {w : World} (release busy : Bool) :
      Step w (w.onCore fun c => { c with logRelease := release, logBusy := busy })
  | popConsole {w : World} (i : Nat) (rest : List Nat) (h : w.core.consoleQueue=i::rest) :
      Step w (w.popConsole i rest)
  | acquired {w : World} (i : Nat) (h : w.trace.head?=some (.acquiredConsole i,w.core)) :
      Step w (w.onCore fun c => c.setSvc i fun s =>
        { s with waitingForConsole := false, haveConsole := true })
  | queueForConsole {w : World} (i : Nat) (h : w.DepsUp i)
      (hc : (w.core.svc i).settings.startsOnConsole=true ∧ (w.core.svc i).haveConsole=false) :
      Step w (w.onCore fun c =>
        { c.setSvc i (fun s => { s with waitingForConsole := true }) with
          consoleQueue := c.consoleQueue++[i] })
  -- the queues
  | popPropagation {w : World} (i : Nat) (h : w.core.propQueue.first=some i) :
      Step w (w.popPropagation i)
  | popTransition {w : World} (i : Nat) (hp : w.core.propQueue.first=none)
      (h : w.core.stopQueue.first=some i) : Step w (w.popTransition i)
  | skipFlag {w : World} (i k : Nat) (h : w.ctx.head?=some (i,k))
      (hk : k<5) (hf : (w.core.svc i).flag k=false) : Step w w.nextFlag
  | clearRelease {w : World} (i : Nat) (h : w.ctx.head?=some (i,1)) :
      Step w (w.onCore fun c => c.setSvc i fun s => { s with propRelease := false }).nextFlag
  | clearStart {w : World} (i : Nat) (h : w.ctx.head?=some (i,3)) :
      Step w (w.onCore fun c => c.setSvc i fun s => { s with propStart := false }).nextFlag
  | clearStop {w : World} (i : Nat) (h : w.ctx.head?=some (i,4)) :
      Step w (w.onCore fun c => c.setSvc i fun s => { s with propStop := false }).nextFlag
  | skipPin {w : World} (i : Nat) (h : w.ctx.head?=some (i,5))
      (hp : (w.core.svc i).propPinDpt=false) : Step w w.nextFlag
  | recomputePin {w : World} (i : Nat) (h : w.ctx.head?=some (i,5)) :
      Step w (w.recomputePin i).nextFlag
  | leavePropagation {w : World} (i : Nat) (h : w.ctx.head?=some (i,6)) : Step w w.leavePropagation
  | requireDependencies {w : World} (i : Nat) (h : w.ctx.head?=some (i,0))
      (hc : w.trace.head?=some (.doPropagation i,w.core)) (hp : (w.core.svc i).propRequire=true) :
      Step w ((w.requireDependencies i).onCore fun c => c.setSvc i fun s =>
        { s with propRequire := false }).nextFlag
  | dropLink {w : World} (i l : Nat) (hl : l ∈ (w.core.svc i).dependsOn)
      (hh : (w.core.link l).holdingAcq=true) (hp : (w.core.svc i).propRelease=true)
      (ht : w.trace.head?=some (.releaseDependency l,w.core)) :
      Step w (w.onCore fun c => c.dropLink l (w.core.link l).to_)
  | failure {w : World} (i : Nat) (h : w.ctx.head?=some (i,2))
      (hp : (w.core.svc i).propFailure=true) :
      Step w ((w.onCore fun c => c.setSvc i fun s =>
        { s with propFailure := false, stopReason := .depfailed
                 serviceState := .stopped }).nextFlag.cancelStart i true)
  | startExplicit {w : World} (i : Nat) (h : (w.core.svc i).startExplicit=false)
      (hp : (w.core.svc i).pinnedStopped=false) :
      Step w (w.onCore fun c => c.setSvc i fun s =>
        { s with requiredBy := s.requiredBy+1, startExplicit := true })
  | doStart {w : World} (i : Nat) : Step w (w.doStart i)
  | depsStarted {w : World} (i : Nat) (h : w.DepsUp i) (hn : w.Noted i) :
      Step w (w.onCore fun c => c.setSvc i fun s => { s with waitingForDeps := false })
  | depsStopped {w : World} (i : Nat) (h : w.trace.head?=some (.executeTransition i,w.core))
      (hs : (w.core.svc i).serviceState=.stopping) (hc : w.core.stopCheckDependents i=true) :
      Step w (w.onCore fun c => c.setSvc i fun s => { s with waitingForDeps := false })
  -- starting and stopping
  | initiateStart {w : World} (i : Nat) (hs : (w.core.svc i).serviceState=.stopping)
      (hd : (w.core.svc i).desiredState=.started) (hp : (w.core.svc i).pinnedStopped=false) :
      Step w (w.initiateStart i)
  | becomeStarted {w : World} (i : Nat) : Step w (w.becomeStarted i)
  | becomeStopped {w : World} (i : Nat) : Step w (w.becomeStopped i)
  | cancelStart {w : World} (i : Nat) (immediate : Bool) (f : Svc → Svc)
      (h : (w.core.svc i).Kept (f (w.core.svc i))) :
      Step w ((w.onCore fun c => c.setSvc i f).cancelStart i immediate)
  | cancelStopping {w : World} (i : Nat) (immediate : Bool) (f : Svc → Svc)
      (h : ({ w.core.svc i with serviceState := .stopping } : Svc).Kept (f (w.core.svc i)))
      (hs : (w.core.svc i).serviceState=.starting ∨ (w.core.svc i).proc.pid=-1)
      (hn : w.Noted i) :
      Step w ((w.onCore fun c => c.setSvc i f).cancelStart i immediate)
  | cancelTimeout {w : World} (i : Nat) (f : Svc → Svc)
      (h : (w.core.svc i).interrupted.Kept (f (w.core.svc i).interrupted))
      (hp : (w.core.svc i).proc.pid≠-1) (hs : (w.core.svc i).serviceState≠.stopping)
      (hn : w.Noted i) :
      Step w (((w.onCore fun c => c.setSvc i Svc.interrupted).onCore fun c =>
        c.setSvc i f).cancelStart i false)
  | setForceStop {w : World} (i : Nat) (f : Svc → Svc)
      (h : ({ w.core.svc i with forceStop := true } : Svc).Kept (f (w.core.svc i))) :
      Step w (w.onCore fun c => c.setSvc i f)
  | forcedStop {w : World} (i : Nat) : Step w (w.onCore fun c => c.forcedStop i)
  | unrecoverableStop {w : World} (i : Nat) : Step w (w.onCore fun c => c.unrecoverableStop i)
  -- processes
  | fork {w : World} (i : Nat) (n : Nat) (f : Svc → Svc) (c : Core)
      (hc : w.trace.head?=some (.startPsProcess i,c)) (hk : (c.svc i).Kept (w.core.svc i))
      (h : ({ w.core.svc i with proc := { (w.core.svc i).proc with
        pid := n+1, waitingForExecstat := true, childWatch := true, execPipe := true } } :
        Svc).Kept (f (w.core.svc i))) :
      Step w (w.onCore fun c => c.setSvc i f)
  | forkStop {w : World} (i : Nat) (n : Nat) (hp : (w.core.svc i).proc.pid≠-1)
      (he : (w.core.svc i).proc.waitingForExecstat=false) (hs : (w.core.svc i).proc.stopPid=-1) :
      Step w (w.onCore fun c => c.setProc i fun p =>
        { p with stopPid := n+1, waitingForExecstat := true, stopWatch := true, stopPipe := true })
  | restartTimer {w : World} (i : Nat) (h : w.RestartOk i) :
      Step w (w.onCore fun c => c.setProc i fun p =>
        { p with timerArmed := true, timerFor := .restart, waitingRestartTimer := true })
  | noRestartTimer {w : World} (i : Nat) (h : w.RestartOk i) :
      Step w (w.onCore fun c => c.setProc i fun p => { p with waitingRestartTimer := false })
  | stopRestartTimer {w : World} (i : Nat) (h : (w.core.svc i).proc.waitingRestartTimer=true) :
      Step w (w.onCore fun c => c.setProc i Proc.stopRestartTimer)
  | stopTimer {w : World} (i : Nat) (f : Svc → Svc)
      (h : ({ w.core.svc i with proc := (w.core.svc i).proc.stopStopstartTimer } : Svc).Kept
        (f (w.core.svc i))) :
      Step w (w.onCore fun c => c.setSvc i f)
  | armTimer {w : World} (i timeout : Nat) (hp : (w.core.svc i).proc.pid≠-1) :
      Step w (w.onCore fun c => c.setProc i (Proc.armStopstartTimer timeout))
  | startTimer {w : World} (i timeout : Nat) (hp : (w.core.svc i).proc.pid≠-1) :
      Step w (w.onCore fun c => c.setProc i (Proc.resetStopstartTimer timeout))
  | stopIssued {w : World} (i : Nat) (b : Bool) :
      Step w (w.onCore fun c => c.setProc i fun p => { p with stopIssued := b })
  | readPid {w : World} (i : Nat) (f : Proc → Proc) (hx : w.ExitEntry i)
      (hb : (w.core.svc i).getType=.bgprocess)
      (h : (f (w.core.svc i).proc).pid=-1 ∨ 0<(f (w.core.svc i).proc).pid)
      (hk : ({ w.core.svc i with proc := { (w.core.svc i).proc with
        pid := (f (w.core.svc i).proc).pid
        trackingChild := (f (w.core.svc i).proc).trackingChild
        childWatch := (f (w.core.svc i).proc).childWatch } } : Svc).Kept
        { w.core.svc i with proc := f (w.core.svc i).proc })
      (ht : (f (w.core.svc i).proc).pid=-1 ∧
          (f (w.core.svc i).proc).childWatch=(w.core.svc i).proc.childWatch
        ∨ (f (w.core.svc i).proc).pid≠-1 ∧
          ((f (w.core.svc i).proc).trackingChild=false
            ∧ (f (w.core.svc i).proc).childWatch=(w.core.svc i).proc.childWatch
          ∨ (f (w.core.svc i).proc).trackingChild=true ∧ (f (w.core.svc i).proc).childWatch=true)) :
      Step w (w.onCore fun c => c.setProc i f)
  | trackingChild {w : World} (i : Nat) :
      Step w (w.onCore fun c => c.setProc i fun p => { p with trackingChild := true })

/-- What the expiry of the process timer clears: only where it is taken for the end of a
restart delay, that there is one. -/
def Svc.timedOut (s : Svc) : Svc :=
  { s with proc := { s.proc with
    timerArmed := false
    waitingStopstartTimer := false
    waitingRestartTimer :=
      s.proc.waitingRestartTimer && (s.serviceState==.stopping || s.proc.pid != -1) } }

/-- The process has been reaped; a start or stop timeout no longer runs for it, unless its
exec status is still to come. -/
def Proc.reaped (status : ProcStatus) (p : Proc) : Proc :=
  { (if p.waitingForExecstat then p else p.stopStopstartTimer) with
    pid := -1, exitStatus := status, childWatch := false }

/-- `timer_expired` up to where it kills the process, cancels the start or restarts. -/
def World.expire (w : World) (i : Nat) : World :=
  ((w.onCore fun c => c.setProc i fun p => { p with timerArmed := false }).push
    (.timerExpired i)).onCore fun c => c.setSvc i Svc.timedOut

/-- What `add_service_dep` has made sure of: `t` has been loaded, and the services that it
leads to have no dependency on `f`. -/
structure Core.MayDepend (c : Core) (f t : Nat) : Prop where
  from_ : f ∈ c.records
  to_ : t ∈ c.records
  ne : f≠t
  real : (c.svc t).getType≠.placeholder
  closed : ∃ seen : List Nat, t ∈ seen ∧ ∀ i ∈ seen, ∀ l ∈ (c.svc i).dependsOn,
    (c.link l).to_ ∈ seen ∧ (c.link l).to_≠f

/-- What commands and events do besides: they change the graph, the pins and what is
known of the processes. -/
inductive EventStep : World → World → Prop
  | step {w w' : World} (h : Step w w') : EventStep w w'
  | call {w : World} (k : Call) (h : w.EventOk k) : EventStep w (w.push k)
  | now {w : World} (t : Nat) : EventStep w (w.onCore fun c => { c with now := t })
  | noRestart {w : World} : EventStep w (w.onCore fun c => { c with restartEnabled := false })
  -- commands
  | stopExplicit {w : World} (i : Nat) (h : (w.core.svc i).startExplicit=true) :
      EventStep w (w.onCore fun c => c.setSvc i fun s =>
        { s with startExplicit := false, requiredBy := s.requiredBy-1 })
  | stopRelease {w : World} (i : Nat) (hr : (w.core.svc i).requiredBy=0)
      (hd : (w.core.svc i).desiredState=.stopped) (hp : (w.core.svc i).isStartPinned=false) :
      EventStep w (w.onCore fun c => c.setProp i (fun s =>
        { s with propRelease := !s.propRequire }) (!(w.core.svc i).propRequire))
  | pinStart {w : World} (i : Nat) : EventStep w (w.pinStart i)
  | unpinStart {w : World} (i : Nat) (c : Core) (hc : (Call.unpin i,c) ∈ w.trace) :
      EventStep w (w.unpinStart i)
  | pinStopped {w : World} (i : Nat) (b : Bool) :
      EventStep w (w.onCore fun c => c.setSvc i fun s => { s with pinnedStopped := b })
  | unpinRelease {w : World} (i : Nat) (c : Core) (hc : (Call.unpin i,c) ∈ w.trace)
      (hp : (c.svc i).pinnedStarted=true) (hq : (c.svc i).deptPinnedStarted=false)
      (hs : (c.svc i).serviceState=.started) (hr : (c.svc i).requiredBy=0)
      (hd : (w.core.svc i).desiredState=(c.svc i).desiredState) :
      EventStep w (w.onCore fun c => c.setProp i (fun s => { s with propRelease := true }) true)
  | acquire {w : World} (l j : Nat)
      (hl : l ∈ (w.core.svc j).dependsOn ∨ l ∈ (w.core.svc j).dependents)
      (h : (w.core.link l).holdingAcq=false) (hc : w.trace.head?=some (.startDep l,w.core)) :
      EventStep w (w.onCore fun c => c.acquire l)
  | addDep {w : World} (f t : Nat) (depType : DependencyType)
      (h : w.trace.head?=some (.addDep f t depType,w.core)) (hm : w.core.MayDepend f t) :
      EventStep w (w.onCore fun c => c.addDep f t depType)
  | rmDep {w : World} (f l : Nat) (hl : l ∈ (w.core.svc f).dependsOn)
      (h : w.trace.head?=some (.rmDep l,w.core)) : EventStep w (w.onCore fun c => c.rmDep l)
  -- process events
  | expire {w : World} (i : Nat) (h : (w.core.svc i).proc.timerArmed=true) :
      EventStep w (w.expire i)
  | seen {w : World} (i : Nat) (failed : Bool)
      (h : w.trace.head?=some (.execStatus i failed,w.core))
      (hp : (w.core.svc i).proc.execPipe=true) :
      EventStep w (w.onCore fun c => c.setProc i fun p =>
        { p with waitingForExecstat := false, execPipe := false })
  | forget {w : World} (i : Nat) (c : Core) (h : w.trace.head?=some (.execStatus i true,c)) :
      EventStep w (w.onCore fun c => c.setProc i Proc.forget)
  | stopSeen {w : World} (i : Nat) (failed : Bool)
      (h : w.trace.head?=some (.stopExecStatus i failed,w.core))
      (hp : (w.core.svc i).proc.stopPipe=true) :
      EventStep w (w.onCore fun c => c.setProc i fun p =>
        { p with waitingForExecstat := false, stopPipe := false })
  | stopForget {w : World} (i : Nat) (c : Core)
      (h : w.trace.head?=some (.stopExecStatus i true,c)) :
      EventStep w (w.onCore fun c => c.setProc i fun p =>
        { p with stopWatch := false, stopPid := -1 })
  | reaped {w : World} (i : Nat) (status : ProcStatus)
      (h : w.trace.head?=some (.childTerminated i,w.core)) :
      EventStep w (w.onCore fun c => c.setProc i (Proc.reaped status))
  | stopReaped {w : World} (i : Nat) (status : ProcStatus)
      (h : w.trace.head?=some (.stopChildTerminated i,w.core)) :
      EventStep w (w.onCore fun c => c.setProc i fun p =>
        { p with stopPid := -1, stopStatus := status, stopWatch := false })

end Dinit
