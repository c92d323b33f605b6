import Dinit.Run.StopFrame

namespace Dinit

open Framework Framework.Comp World Relation

/-- What one step can do to the process of `i`; `p` is its process half afterwards. -/
inductive ProcStep (w : World) (i : Nat) (p : Proc) : Prop
  | same (h : (w.core.svc i).proc.Same p)
  | noRestart (hr : (w.core.svc i).proc.waitingRestartTimer=true)
      (h : (w.core.svc i).proc.stopRestartTimer.Same p)
  | notWaiting (hok : w.RestartOk i)
      (h : Proc.Same { (w.core.svc i).proc with waitingRestartTimer := false } p)
  | restart (hok : w.RestartOk i)
      (h : Proc.Same { (w.core.svc i).proc with
        timerArmed := true, timerFor := .restart, waitingRestartTimer := true } p)
  | stopTimer (h : (w.core.svc i).proc.stopStopstartTimer.Same p)
  | armTimer (timeout : Nat) (hp : (w.core.svc i).proc.pid≠-1)
      (h : ((w.core.svc i).proc.armStopstartTimer timeout).Same p)
  | resetTimer (timeout : Nat) (hp : (w.core.svc i).proc.pid≠-1 ∨
        ∃ c, (Call.interruptStart i,c) ∈ w.trace ∧ w.core.svc i=c.svc i ∧
          (w.core.svc i).isProcess=true ∧ (w.core.svc i).proc.waitingRestartTimer=false)
      (h : ((w.core.svc i).proc.resetStopstartTimer timeout).Same p)
  | fork (n : Nat) (c : Core) (hc : w.trace.head?=some (.startPsProcess i,c))
      (hk : (c.svc i).Kept (w.core.svc i))
      (h : Proc.Same { (w.core.svc i).proc with
        pid := n+1, waitingForExecstat := true, childWatch := true, execPipe := true } p)
  | forkStop (n : Nat) (hp : (w.core.svc i).proc.pid≠-1)
      (he : (w.core.svc i).proc.waitingForExecstat=false) (hs : (w.core.svc i).proc.stopPid=-1)
      (h : Proc.Same { (w.core.svc i).proc with
        stopPid := n+1, waitingForExecstat := true, stopWatch := true, stopPipe := true } p)
  | stopIssued (b : Bool) (h : Proc.Same { (w.core.svc i).proc with stopIssued := b } p)
  | readPid (hx : w.ExitEntry i) (hb : (w.core.svc i).getType=.bgprocess)
      (hpid : p.pid=-1 ∨ 0<p.pid)
      (ht : p.pid=-1 ∧ p.childWatch=(w.core.svc i).proc.childWatch
        ∨ p.pid≠-1 ∧ (p.trackingChild=false ∧ p.childWatch=(w.core.svc i).proc.childWatch
          ∨ p.trackingChild=true ∧ p.childWatch=true))
      (h : Proc.Same { (w.core.svc i).proc with
        pid := p.pid, trackingChild := p.trackingChild, childWatch := p.childWatch } p)
  | tracking (h : Proc.Same { (w.core.svc i).proc with trackingChild := true } p)

/-- The graph stays as it is, and each process makes a step of its own. -/
def GraphKept (w w' : World) : Prop :=
  w.core.SameGraph w'.core ∧ ∀ i, ProcStep w i (w'.core.svc i).proc

theorem graphKept_of_frame {w w' : World} (h : w.core.Frame w'.core) : GraphKept w w' :=
  ⟨h.graph,fun i => .same (h.proc i)⟩

theorem graphKept_setSvc (w : World) (i : Nat) (f : Svc → Svc)
    (h : (w.core.svc i).SameLinks (f (w.core.svc i)))
    (hp : ProcStep w i (f (w.core.svc i)).proc) : GraphKept w (w.onCore fun c => c.setSvc i f) := by
  refine ⟨Core.graph_setSvc _ i f h,?_⟩
  intro j
  by_cases hj : j=i
  · subst hj
    simpa using hp
  · simpa [hj] using .same (.refl _)

theorem GraphKept.nextFlag {w w' : World} (h : GraphKept w w') : GraphKept w w'.nextFlag := h

/-- What follows a step in the same atomic block and leaves the processes alone. -/
theorem GraphKept.then_frame {w w1 u : World} (h : GraphKept w w1) (hf : w1.core.Frame u.core) :
    GraphKept w u := by
  refine ⟨h.1.trans hf.graph,?_⟩
  intro i
  have hp := hf.proc i
  cases h.2 i with
  | same h => exact .same (h.trans hp)
  | noRestart hr h => exact .noRestart hr (h.trans hp)
  | notWaiting hok h => exact .notWaiting hok (h.trans hp)
  | restart hok h => exact .restart hok (h.trans hp)
  | stopTimer h => exact .stopTimer (h.trans hp)
  | armTimer timeout hn h => exact .armTimer timeout hn (h.trans hp)
  | resetTimer timeout hn h => exact .resetTimer timeout hn (h.trans hp)
  | fork n c hc hk h => exact .fork n c hc hk (h.trans hp)
  | forkStop n hq he hs h => exact .forkStop n hq he hs (h.trans hp)
  | stopIssued b h => exact .stopIssued b (h.trans hp)
  | readPid hx hb hpid ht h =>
    refine .readPid hx hb ?_ ?_ ?_
    · rwa [hp.pid]
    · rwa [hp.pid,hp.trackingChild,hp.childWatch]
    · have := h.trans hp
      rwa [← hp.pid,← hp.trackingChild,← hp.childWatch] at this
  | tracking h => exact .tracking (h.trans hp)

theorem graphKept_interrupted (w : World) (i : Nat) :
    GraphKept w (w.onCore fun c => c.setSvc i Svc.interrupted) := by
  have hk := (w.core.svc i).interrupted_kept
  refine graphKept_setSvc w i _ ⟨hk.settings,hk.dependsOn,hk.dependents⟩ ?_
  unfold Svc.interrupted
  split_ifs with hp hr
  · exact .noRestart hr (by constructor <;> rfl)
  · exact .same (by constructor <;> rfl)
  · exact .same (.refl _)

theorem StopStep.graphKept {w w' : World} (h : StopStep w w') : GraphKept w w' := by
  cases h with
  | misc i f h => exact graphKept_setSvc w i f h.links (.same h.proc)
  | sys rs => exact graphKept_of_frame (.refl _)
  | doStop i r => exact graphKept_of_frame (.refl _)
  | stopDependent i l h => exact graphKept_of_frame (.refl _)
  | giveUp i => exact graphKept_setSvc w i _ ⟨rfl,rfl,rfl⟩ (.same (.refl _))
  | dropExplicit i h => exact graphKept_of_frame (Core.frame_dropExplicit _ i)
  | forceDependent i j => exact graphKept_of_frame (Core.frame_forceDependent _ i j)
  | giveUpExplicit j h =>
    exact graphKept_of_frame ((Core.frame_setSvc _ j _ ⟨rfl,rfl,rfl⟩ (.refl _)).trans
      (Core.frame_dropExplicit _ j))
  | propagateStop j f h =>
    have hf : (w.core.svc j).SameLinks (f (w.core.svc j))
        ∧ (w.core.svc j).proc.Same (f (w.core.svc j)).proc := by
      rcases h with h | rfl
      · exact ⟨h.links,h.proc⟩
      · exact ⟨⟨rfl,rfl,rfl⟩,.refl _⟩
    refine graphKept_of_frame (frame_onCore w (Core.frame_setProp _ j _ _ ?_ ?_)).core
    · exact ⟨hf.1.settings,hf.1.dependsOn,hf.1.dependents⟩
    · exact hf.2
  | breakSoft i l h => exact graphKept_of_frame (frame_breakSoft w i l).core
  | interruptStart i => exact graphKept_of_frame (.refl _)
  | killPg i signo h => exact graphKept_of_frame (.refl _)
  | getpgid i g signo h => exact graphKept_of_frame (.refl _)
  | kill i target signo h => exact graphKept_of_frame (.refl _)
  | beginStop i r all h told => exact graphKept_of_frame (frame_beginStop w i all).core
  | cancelWait i all h hw => exact graphKept_of_frame (frame_cancelWait w i all).core
  | resetTimer i timeout c hc hi hp hr =>
    exact graphKept_setSvc w i _ ⟨rfl,rfl,rfl⟩ (.resetTimer timeout (.inr ⟨c,hc,hi,hp,hr⟩) (.refl _))
  | interrupt i h hd hc hp ht => exact graphKept_interrupted w i
  | cancelled i all h hd hc hp =>
    exact (graphKept_interrupted w i).then_frame (frame_beginStop ((w.onCore fun c =>
      c.setSvc i Svc.interrupted).push (.startCancelled i)) i all).core

/-- Fields of the core that are neither records nor links. -/
theorem frame_queues {c c' : Core} (hs : c'.svc=c.svc) (hl : c'.link=c.link)
    (hn : c'.nextLink=c.nextLink) (hr : c'.records=c.records) : c.Frame c' := by
  refine ⟨⟨?_,?_,?_,?_,?_,?_,hn,hr⟩,?_⟩
  all_goals
    intro j
    first | rw [hs] | rw [hl]
  exact .refl _

theorem Step.graphKept {w w' : World} (h : Step w w') : GraphKept w w' := by
  have hset (i : Nat) (f : Svc → Svc) (h : (w.core.svc i).SameLinks (f (w.core.svc i)))
      (hp : (w.core.svc i).proc.Same (f (w.core.svc i)).proc) :
      GraphKept w (w.onCore fun c => c.setSvc i f) :=
    graphKept_setSvc w i f h (.same hp)
  cases h with
  | stop h => exact h.graphKept
  | call k h => exact graphKept_of_frame (.refl _)
  | releaseConsole i => exact hset i _ ⟨rfl,rfl,rfl⟩ (.refl _)
  | consoleLog r b => exact graphKept_of_frame (frame_queues rfl rfl rfl rfl)
  | popConsole i rest h => exact graphKept_of_frame (frame_queues rfl rfl rfl rfl)
  | acquired i h => exact hset i _ ⟨rfl,rfl,rfl⟩ (.refl _)
  | queueForConsole i h hc =>
    exact (hset i (fun s => { s with waitingForConsole := true }) ⟨rfl,rfl,rfl⟩
      (.refl _)).then_frame (frame_queues rfl rfl rfl rfl)
  | popPropagation i h => exact graphKept_of_frame (frame_queues rfl rfl rfl rfl)
  | popTransition i hp h => exact graphKept_of_frame (frame_queues rfl rfl rfl rfl)
  | skipFlag i k h hk hf => exact graphKept_of_frame (.refl _)
  | skipPin i h hp => exact graphKept_of_frame (.refl _)
  | recomputePin i h => exact graphKept_of_frame (repinned_recomputePin w i).frame.core
  | clearRelease i h => exact hset i (fun s => { s with propRelease := false }) ⟨rfl,rfl,rfl⟩ (.refl _)
  | clearStart i h => exact hset i (fun s => { s with propStart := false }) ⟨rfl,rfl,rfl⟩ (.refl _)
  | clearStop i h => exact hset i (fun s => { s with propStop := false }) ⟨rfl,rfl,rfl⟩ (.refl _)
  | leavePropagation i h => exact graphKept_of_frame (.refl _)
  | requireDependencies i h hc hp =>
    have hf : World.Frame (w.requireDependencies i) ((w.requireDependencies i).onCore fun c =>
        c.setSvc i fun s => { s with propRequire := false }) :=
      frame_onCore _ (Core.frame_setSvc _ i _ ⟨rfl,rfl,rfl⟩ (.refl _))
    exact graphKept_of_frame ((frame_requireDependencies w i).trans hf).core
  | dropLink i l hl hh hp ht => exact graphKept_of_frame (Core.frame_dropLink _ _ l)
  | failure i h hp =>
    have hk : GraphKept w (w.onCore fun c => c.setSvc i fun s =>
        { s with propFailure := false, stopReason := .depfailed, serviceState := .stopped }) :=
      hset i _ ⟨rfl,rfl,rfl⟩ (.refl _)
    exact hk.nextFlag.then_frame (frame_cancelStart _ i true).core
  | startExplicit i h hp => exact hset i _ ⟨rfl,rfl,rfl⟩ (.refl _)
  | doStart i => exact graphKept_of_frame (frame_doStart w i).core
  | depsStarted i h hn => exact hset i _ ⟨rfl,rfl,rfl⟩ (.refl _)
  | depsStopped i h hs hc => exact hset i _ ⟨rfl,rfl,rfl⟩ (.refl _)
  | initiateStart i hs hd hp => exact graphKept_of_frame (frame_initiateStart w i).core
  | becomeStarted i => exact graphKept_of_frame (frame_becomeStarted w i).core
  | becomeStopped i => exact graphKept_of_frame (frame_becomeStopped w i).core
  | cancelStart i b f h => exact (hset i f h.links h.proc).then_frame (frame_cancelStart _ i b).core
  | cancelStopping i b f h hs hn =>
    exact (hset i f ⟨h.settings,h.dependsOn,h.dependents⟩ h.proc).then_frame
      (frame_cancelStart _ i b).core
  | cancelTimeout i f h hp hs hn =>
    refine ((graphKept_interrupted w i).then_frame (u := (w.onCore fun c =>
      c.setSvc i Svc.interrupted).onCore fun c => c.setSvc i f)
      (Core.frame_setSvc _ i f ?_ ?_)).then_frame (frame_cancelStart _ i false).core
    · simpa using h.links
    · simpa using h.proc
  | setForceStop i f h => exact hset i f ⟨h.settings,h.dependsOn,h.dependents⟩ h.proc
  | forcedStop i => exact graphKept_of_frame (Core.frame_forcedStop _ i)
  | unrecoverableStop i => exact graphKept_of_frame (Core.frame_unrecoverableStop _ i)
  | fork i n f c hc hk h =>
    exact graphKept_setSvc w i f ⟨h.settings,h.dependsOn,h.dependents⟩ (.fork n c hc hk h.proc)
  | forkStop i n hp he hs =>
    exact graphKept_setSvc w i _ ⟨rfl,rfl,rfl⟩ (.forkStop n hp he hs (.refl _))
  | restartTimer i h =>
    exact graphKept_setSvc w i _ ⟨rfl,rfl,rfl⟩ (.restart h (by constructor <;> rfl))
  | noRestartTimer i h =>
    exact graphKept_setSvc w i _ ⟨rfl,rfl,rfl⟩ (.notWaiting h (.refl _))
  | stopRestartTimer i h => exact graphKept_setSvc w i _ ⟨rfl,rfl,rfl⟩ (.noRestart h (.refl _))
  | stopTimer i f h =>
    exact graphKept_setSvc w i f ⟨h.settings,h.dependsOn,h.dependents⟩ (.stopTimer h.proc)
  | armTimer i timeout hp =>
    exact graphKept_setSvc w i _ ⟨rfl,rfl,rfl⟩ (.armTimer timeout hp (.refl _))
  | startTimer i timeout hp =>
    exact graphKept_setSvc w i _ ⟨rfl,rfl,rfl⟩ (.resetTimer timeout (.inl hp) (.refl _))
  | stopIssued i b => exact graphKept_setSvc w i _ ⟨rfl,rfl,rfl⟩ (.stopIssued b (.refl _))
  | readPid i f hx hb h hk ht =>
    exact graphKept_setSvc w i _ ⟨rfl,rfl,rfl⟩ (.readPid hx hb h ht hk.proc)
  | trackingChild i => exact graphKept_setSvc w i _ ⟨rfl,rfl,rfl⟩ (.tracking (.refl _))

theorem steps_graph {w w' : World} (h : ReflTransGen Step w w') : w.core.SameGraph w'.core := by
  induction h with
  | refl => exact .refl _
  | tail _ hs ih => exact ih.trans hs.graphKept.1

theorem Step.grows {w w' : World} (h : Step w w') : Grows w w' := by
  have hsame {u : World} (hu : u.trace=w.trace) : Grows w u := ⟨[],hu⟩
  cases h with
  | stop h => exact h.frame.grows
  | call k h => exact grows_push w k
  | popConsole i rest h => exact ⟨[_],rfl⟩
  | popPropagation i h => exact ⟨[_],rfl⟩
  | popTransition i hp h => exact ⟨[_],rfl⟩
  | recomputePin i h => exact hsame (repinned_recomputePin w i).trace
  | requireDependencies i h hc hp => exact (frame_requireDependencies w i).grows
  | failure i h hp =>
    obtain ⟨t,ht⟩ := (frame_cancelStart _ i true).grows
    exact ⟨t,ht⟩
  | doStart i => exact (frame_doStart w i).grows
  | initiateStart i hs hd hp => exact (frame_initiateStart w i).grows
  | becomeStarted i => exact (frame_becomeStarted w i).grows
  | becomeStopped i => exact (frame_becomeStopped w i).grows
  | cancelStart i b f h => exact (grows_onCore w _).trans (frame_cancelStart _ i b).grows
  | cancelStopping i b f h hs hn => exact (grows_onCore w _).trans (frame_cancelStart _ i b).grows
  | cancelTimeout i f h hp hs hn =>
    exact ((grows_onCore w _).trans (grows_onCore _ _)).trans (frame_cancelStart _ i false).grows
  | _ => exact hsame rfl

theorem steps_grows {w w' : World} (h : ReflTransGen Step w w') : Grows w w' := by
  induction h with
  | refl => exact Grows.refl w
  | tail _ hs ih => exact ih.trans hs.grows

theorem EventStep.grows {w w' : World} (h : EventStep w w') : Grows w w' := by
  cases h with
  | step h => exact h.grows
  | call k h => exact grows_push w k
  | pinStart i => exact (repinned_pinStart w i).frame.grows
  | unpinStart i c hc => exact (repinned_unpinStart w i).frame.grows
  | expire i h => exact ⟨[_],rfl⟩
  | _ => exact grows_onCore w _

/-- What a step of an event or a command can do to the process of `i`; `t` is the trace after
it. -/
inductive ProcEvent (w : World) (t : List (Call × Core)) (i : Nat) (p : Proc) : Prop
  | step (h : ProcStep w i p)
  | expire (hc : t.head?=some (.timerExpired i,
        w.core.setProc i fun p => { p with timerArmed := false }))
      (ha : (w.core.svc i).proc.timerArmed=true) (h : (w.core.svc i).timedOut.proc.Same p)
  | seen (failed : Bool) (hc : w.trace.head?=some (.execStatus i failed,w.core))
      (hp : (w.core.svc i).proc.execPipe=true)
      (h : Proc.Same { (w.core.svc i).proc with waitingForExecstat := false, execPipe := false } p)
  | forget (c : Core) (hc : w.trace.head?=some (.execStatus i true,c))
      (h : (w.core.svc i).proc.forget.Same p)
  | stopSeen (failed : Bool) (hc : w.trace.head?=some (.stopExecStatus i failed,w.core))
      (hp : (w.core.svc i).proc.stopPipe=true)
      (h : Proc.Same { (w.core.svc i).proc with waitingForExecstat := false, stopPipe := false } p)
  | stopForget (c : Core) (hc : w.trace.head?=some (.stopExecStatus i true,c))
      (h : Proc.Same { (w.core.svc i).proc with stopWatch := false, stopPid := -1 } p)
  | reaped (hc : w.trace.head?=some (.childTerminated i,w.core))
      (h : ∃ status, ((w.core.svc i).proc.reaped status).Same p)
  | stopReaped (hc : w.trace.head?=some (.stopChildTerminated i,w.core))
      (h : Proc.Same { (w.core.svc i).proc with stopPid := -1, stopWatch := false } p)

theorem EventStep.proc {w w' : World} (h : EventStep w w') (i : Nat) :
    ProcEvent w w'.trace i (w'.core.svc i).proc := by
  have hsame (hp : (w'.core.svc i).proc=(w.core.svc i).proc) :
      ProcEvent w w'.trace i (w'.core.svc i).proc :=
    .step (.same (by rw [hp]; exact .refl _))
  have hset (j : Nat) (f : Proc → Proc) (hw : w'=w.onCore fun c => c.setProc j f)
      (hp : ProcEvent w w'.trace j (f (w.core.svc j).proc)) :
      ProcEvent w w'.trace i (w'.core.svc i).proc := by
    subst hw
    by_cases hj : i=j
    · subst hj
      simpa using hp
    · simpa [hj] using .step (.same (.refl _))
  cases h with
  | step h => exact .step (h.graphKept.2 i)
  | call k h => exact hsame rfl
  | now t => exact hsame rfl
  | noRestart => exact hsame rfl
  | stopExplicit j h =>
    apply hsame
    by_cases hj : i=j <;> simp [hj]
  | stopRelease j hr hd hp =>
    apply hsame
    by_cases hj : i=j <;> simp [hj]
  | pinStart j =>
    apply hsame
    rw [(repinned_pinStart w j).svc]
  | unpinStart j c hc =>
    apply hsame
    rw [(repinned_unpinStart w j).svc]
  | pinStopped j b =>
    apply hsame
    by_cases hj : i=j <;> simp [hj]
  | unpinRelease j c hc hp hq hs hr hd =>
    apply hsame
    by_cases hj : i=j <;> simp [hj]
  | acquire l j hl h hc => exact .step (.same ((Core.frame_acquire _ l).proc i))
  | addDep f t depType h => exact hsame (Core.addDepAt_proc _ f i t depType _)
  | rmDep f l hl h => exact hsame (Core.rmDep_proc _ i l)
  | expire j h =>
    by_cases hj : i=j
    · subst hj
      refine .expire rfl h ?_
      simp only [World.expire,onCore_core,push_core,Core.setSvc_svc,if_true,Core.setProc_eq]
      exact .refl _
    · apply hsame
      simp [World.expire,hj]
  | seen j failed h hp => exact hset j _ rfl (.seen failed h hp (.refl _))
  | forget j c h => exact hset j _ rfl (.forget c h (.refl _))
  | stopSeen j failed h hp => exact hset j _ rfl (.stopSeen failed h hp (.refl _))
  | stopForget j c h => exact hset j _ rfl (.stopForget c h (.refl _))
  | reaped j status h => exact hset j _ rfl (.reaped h ⟨status,.refl _⟩)
  | stopReaped j status h => exact hset j _ rfl (.stopReaped h (by constructor <;> rfl))

/-- The process of a `process_service` is not lost within a handler: a process id that
is there stays or is replaced, and none has an exec status pending unless it had. -/
theorem steps_reaped {w w' : World} (i : Nat) (h : ReflTransGen Step w w')
    (hp : (w.core.svc i).getType=.process)
    (hr : (w.core.svc i).proc.pid=-1 → (w.core.svc i).proc.waitingForExecstat=false) :
    (w'.core.svc i).proc.pid=-1 →
      (w.core.svc i).proc.pid=-1 ∧ (w'.core.svc i).proc.waitingForExecstat=false := by
  induction h with
  | refl => exact fun h => ⟨h,hr h⟩
  | @tail u v hu hs ih =>
    intro hv
    have htype : (u.core.svc i).getType=.process := by
      simpa [Svc.getType,(steps_graph hu).settings i] using hp
    have hkept (h1 : (v.core.svc i).proc.pid=(u.core.svc i).proc.pid)
        (h2 : (v.core.svc i).proc.waitingForExecstat=(u.core.svc i).proc.waitingForExecstat) :
        (w.core.svc i).proc.pid=-1 ∧ (v.core.svc i).proc.waitingForExecstat=false :=
      ⟨(ih (h1 ▸ hv)).1,h2.trans (ih (h1 ▸ hv)).2⟩
    cases hs.graphKept.2 i with
    | same h => exact hkept h.pid h.waitingForExecstat
    | noRestart _ h => exact hkept h.pid h.waitingForExecstat
    | notWaiting _ h => exact hkept h.pid h.waitingForExecstat
    | restart _ h => exact hkept h.pid h.waitingForExecstat
    | stopTimer h =>
      have ha := (u.core.svc i).proc.stopStopstartTimer_alike
      exact hkept (h.pid.trans ha.pid) (h.waitingForExecstat.trans ha.waitingForExecstat)
    | armTimer t _ h =>
      have ha := (u.core.svc i).proc.armStopstartTimer_alike t
      exact hkept (h.pid.trans ha.pid) (h.waitingForExecstat.trans ha.waitingForExecstat)
    | resetTimer t _ h =>
      have ha := (u.core.svc i).proc.resetStopstartTimer_alike t
      exact hkept (h.pid.trans ha.pid) (h.waitingForExecstat.trans ha.waitingForExecstat)
    | fork n _ _ _ h =>
      have hpid := h.pid
      rw [hv] at hpid
      simp only at hpid
      omega
    | forkStop n hp' _ _ h => exact absurd (h.pid.symm.trans hv) hp'
    | stopIssued _ h => exact hkept h.pid h.waitingForExecstat
    | readPid _ hb => simp [htype] at hb
    | tracking h => exact hkept h.pid h.waitingForExecstat

section
variable {P : Call → Prop}

theorem growsBy_foldl {f : World → Nat → World} (ls : List Nat) (h : ∀ w l, GrowsBy P w (f w l))
    (w : World) : GrowsBy P w (ls.foldl f w) := by
  induction ls generalizing w with
  | nil => exact .refl w
  | cons l ls ih => exact (h w l).trans (ih _)

variable (hq : ∀ i, P (.addTransitionQueue i)) (w : World) (i l : Nat)
include hq

theorem growsBy_addTransitionQueue : GrowsBy P w (w.addTransitionQueue i) :=
  ⟨[(.addTransitionQueue i,w.core)],rfl,by simpa using hq i⟩

theorem growsBy_dependencyStarted : GrowsBy P w (w.dependencyStarted i) := by
  unfold World.dependencyStarted
  dsimp only
  split
  · exact growsBy_addTransitionQueue hq w i
  · exact .refl w

theorem growsBy_clearWait : GrowsBy P w (w.clearWait l) :=
  GrowsBy.trans (growsBy_same rfl) (growsBy_dependencyStarted hq _ _)

theorem growsBy_breakSoft : GrowsBy P w (w.breakSoft i l) := by
  unfold World.breakSoft
  dsimp only
  split_ifs
  · exact .refl w
  · exact (growsBy_clearWait hq w l).trans (growsBy_same rfl)
  · exact growsBy_same rfl
  · exact growsBy_clearWait hq w l
  · exact .refl w

theorem growsBy_beginStop (all : Bool) : GrowsBy P w (w.beginStop i all) := by
  unfold World.beginStop
  dsimp only
  split
  · exact GrowsBy.trans (growsBy_same rfl) (growsBy_addTransitionQueue hq _ i)
  · exact growsBy_same rfl

theorem growsBy_notifyStarted : GrowsBy P w (w.notifyStarted l) := by
  unfold World.notifyStarted
  split
  · exact (growsBy_dependencyStarted hq w _).trans (growsBy_same rfl)
  · exact .refl w

theorem growsBy_becomeStarted (hp : P (.logServiceStarted i)) :
    GrowsBy P w (w.becomeStarted i) := by
  have h : GrowsBy P w ((w.push (.logServiceStarted i)).onCore fun c => c.setSvc i fun s =>
      { s with serviceState := .started }) := (growsBy_push w _ hp).trans (growsBy_same rfl)
  unfold World.becomeStarted
  dsimp only
  split
  · exact h
  · exact h.trans (growsBy_foldl _ (fun w l => growsBy_notifyStarted hq w l) _)

end

/-- `bring_down`, `stopped` and `failed_to_start`, with which a start or a stop comes to its
end. -/
def Call.IsEnd : Call → Prop
  | .bringDown _ | .stopped _ | .failedToStart _ _ => True
  | _ => False

theorem StopStep.growsBy {w w' : World} (h : StopStep w w') :
    GrowsBy (fun k => ¬k.IsEnd) w w' := by
  have hq (i : Nat) : ¬(Call.addTransitionQueue i).IsEnd := id
  have hinterrupted (i : Nat) : GrowsBy (fun k => ¬k.IsEnd) w
      ((w.onCore fun c => c.setSvc i Svc.interrupted).push (.startCancelled i)) :=
    growsBy_onCore_push w _ _ id
  cases h with
  | misc i f h => exact growsBy_same rfl
  | sys rs => exact growsBy_same rfl
  | doStop i r => exact growsBy_push w _ id
  | stopDependent i l h => exact growsBy_push w _ id
  | giveUp i => exact growsBy_same rfl
  | dropExplicit i h => exact growsBy_same rfl
  | forceDependent i j => exact growsBy_same rfl
  | giveUpExplicit j h => exact growsBy_same rfl
  | propagateStop j f h => exact growsBy_same rfl
  | breakSoft i l h => exact growsBy_breakSoft hq w i l
  | interruptStart i => exact growsBy_push w _ id
  | killPg i signo h => exact growsBy_push w _ id
  | getpgid i g signo h => exact growsBy_push w _ id
  | kill i target signo h => exact growsBy_push w _ id
  | beginStop i r all h told => exact growsBy_beginStop hq w i all
  | cancelWait i all h hw =>
    have h1 : GrowsBy (fun k => ¬k.IsEnd) w ((w.onCore fun c => c.unqueueConsole i).push
        (.startCancelled i)) := growsBy_onCore_push w _ _ id
    exact h1.trans (growsBy_beginStop hq _ i all)
  | resetTimer i timeout c hc hi hp hr => exact growsBy_same rfl
  | interrupt i h hd hc hp ht => exact hinterrupted i
  | cancelled i all h hd hc hp => exact (hinterrupted i).trans (growsBy_beginStop hq _ i all)

theorem stopSteps_growsBy {w w' : World} (h : ReflTransGen StopStep w w') :
    GrowsBy (fun k => ¬k.IsEnd) w w' := by
  induction h with
  | refl => exact .refl w
  | tail _ hs ih => exact ih.trans hs.growsBy

/-- How a call comes into the trace in a step from `w`, and the state it goes there with. -/
inductive Entered (w : World) : Call → Core → Prop
  | minor (k : Call) (c : Core) (h : k.IsMinor) : Entered w k c
  | popConsole (i : Nat) (rest : List Nat) (h : w.core.consoleQueue=i::rest) :
      Entered w (.acquiredConsole i) { w.core with consoleQueue := rest }
  | popPropagation (i : Nat) (h : w.core.propQueue.first=some i) :
      Entered w (.doPropagation i) { w.core with propQueue := w.core.propQueue.popFront i }
  | popTransition (i : Nat) (h : w.core.stopQueue.first=some i) :
      Entered w (.executeTransition i) { w.core with stopQueue := w.core.stopQueue.popFront i }
  | doStop (i : Nat) (r : Bool) : Entered w (.doStop i r) w.core
  | stopDependent (i l : Nat) (h : l ∈ (w.core.svc i).dependents) :
      Entered w (.stopDependent i l) w.core
  | interruptStart (i : Nat) : Entered w (.interruptStart i) w.core
  | killPg (i signo : Nat) (h : w.KillOk i) : Entered w (.killPg i signo) w.core
  | getpgid (i : Nat) (g : Option Int) (signo : Nat)
      (h : w.trace.head?=some (.killPg i signo,w.core)) :
      Entered w (.getpgid (w.core.svc i).proc.pid g) w.core
  | kill (i : Nat) (target : Int) (signo : Nat) (h : w.KillTarget i target signo) :
      Entered w (.kill target signo) w.core
  | call (k : Call) (h : w.CallOk k) : Entered w k w.core
  | event (k : Call) (h : w.EventOk k) : Entered w k w.core
  | expire (i : Nat) (h : (w.core.svc i).proc.timerArmed=true) : Entered w (.timerExpired i)
      (w.core.setProc i fun p => { p with timerArmed := false })

theorem entered_push {w : World} {k : Call} (h : Entered w k w.core) :
    ∀ e ∈ (w.push k).trace, e ∈ w.trace ∨ Entered w e.1 e.2 := by
  intro e he
  rcases List.mem_cons.mp he with rfl | he
  · exact .inr h
  · exact .inl he

theorem entered_calls {w w' : World} (h : GrowsBy Call.IsMinor w w') :
    ∀ e ∈ w'.trace, e ∈ w.trace ∨ Entered w e.1 e.2 :=
  fun e he => (h.entry he).imp id fun hm => .minor e.1 e.2 hm

theorem StopStep.entered {w w' : World} (h : StopStep w w') :
    ∀ e ∈ w'.trace, e ∈ w.trace ∨ Entered w e.1 e.2 := by
  have hinterrupted (i : Nat) : GrowsBy Call.IsMinor w
      ((w.onCore fun c => c.setSvc i Svc.interrupted).push (.startCancelled i)) :=
    growsBy_onCore_push w _ _ trivial
  cases h with
  | doStop i r => exact entered_push (.doStop i r)
  | stopDependent i l h => exact entered_push (.stopDependent i l h)
  | breakSoft i l h => exact entered_calls (frame_breakSoft w i l).calls
  | interruptStart i => exact entered_push (.interruptStart i)
  | killPg i signo h => exact entered_push (.killPg i signo h)
  | getpgid i g signo h => exact entered_push (.getpgid i g signo h)
  | kill i target signo h => exact entered_push (.kill i target signo h)
  | beginStop i r all h told => exact entered_calls (frame_beginStop w i all).calls
  | cancelWait i all h hw => exact entered_calls (frame_cancelWait w i all).calls
  | interrupt i h hd hc hp ht => exact entered_calls (hinterrupted i)
  | cancelled i all h hd hc hp =>
    exact entered_calls ((hinterrupted i).trans (frame_beginStop _ i all).calls)
  | _ => exact fun e he => .inl he

theorem Step.entered {w w' : World} (h : Step w w') :
    ∀ e ∈ w'.trace, e ∈ w.trace ∨ Entered w e.1 e.2 := by
  cases h with
  | stop h => exact h.entered
  | call k h => exact entered_push (.call k h)
  | popConsole i rest h =>
    intro e he
    rcases List.mem_cons.mp he with rfl | he
    · exact .inr (.popConsole i rest h)
    · exact .inl he
  | popPropagation i h =>
    intro e he
    rcases List.mem_cons.mp he with rfl | he
    · exact .inr (.popPropagation i h)
    · exact .inl he
  | popTransition i hp h =>
    intro e he
    rcases List.mem_cons.mp he with rfl | he
    · exact .inr (.popTransition i h)
    · exact .inl he
  | recomputePin i h => exact entered_calls (repinned_recomputePin w i).frame.calls
  | requireDependencies i h hc hp => exact entered_calls (frame_requireDependencies w i).calls
  | failure i h hp => exact entered_calls (frame_cancelStart _ i true).calls
  | doStart i => exact entered_calls (frame_doStart w i).calls
  | initiateStart i hs hd hp => exact entered_calls (frame_initiateStart w i).calls
  | becomeStarted i => exact entered_calls (frame_becomeStarted w i).calls
  | becomeStopped i => exact entered_calls (frame_becomeStopped w i).calls
  | cancelStart i b f h => exact entered_calls (frame_cancelStart _ i b).calls
  | cancelStopping i b f h hs hn => exact entered_calls (frame_cancelStart _ i b).calls
  | cancelTimeout i f h hp hs hn => exact entered_calls (frame_cancelStart _ i false).calls
  | _ => exact fun e he => .inl he

theorem EventStep.entered {w w' : World} (h : EventStep w w') :
    ∀ e ∈ w'.trace, e ∈ w.trace ∨ Entered w e.1 e.2 := by
  cases h with
  | step h => exact h.entered
  | call k h => exact entered_push (.event k h)
  | pinStart i => exact entered_calls (repinned_pinStart w i).frame.calls
  | unpinStart i c hc => exact entered_calls (repinned_unpinStart w i).frame.calls
  | expire i h =>
    intro e he
    rcases List.mem_cons.mp he with rfl | he
    · exact .inr (.expire i h)
    · exact .inl he
  | _ => exact fun e he => .inl he

end Dinit
