import Dinit.Run.Commands

namespace Dinit

open Framework Framework.Comp World Relation

section
variable {rec : Rec} (hrec : rec.Ok)
include hrec

theorem execSucceeded_within (i : Nat) (w : World) :
    Within Step (execSucceeded rec i) w (sameCtx w) := by
  unfold execSucceeded
  apply within_getSvc
  apply within_ite
  · intro _
    exact within_pure rfl
  intro _
  apply within_onCore (.trackingChild i)
  apply within_getCore
  apply within_ite
  · intro _
    apply within_ite
    · intro _
      exact within_modify (step_misc i _ (by constructor <;> rfl)) rfl
    · intro _
      apply within_onCore (step_stopTimer _ i)
      exact started_within hrec i _
  intro _
  apply within_ite
  · intro _
    apply within_ite
    · intro _
      exact within_modify (step_stopTimer _ i) rfl
    · intro _
      exact within_pure rfl
  intro _
  apply within_ite
  · intro _
    exact processBringDown_within hrec i _
  · intro _
    exact within_pure rfl

/-- `started` without a console to give up: the service is STARTED, or told to stop. -/
theorem started_quiet (i : Nat) (w : World)
    (hc : ¬((w.core.svc i).haveConsole=true ∧ (w.core.svc i).settings.runsOnConsole=false)) :
    Within Step (started rec i) w fun _ w' =>
      (w'.core.svc i).serviceState≠.stopped ∧ GrowsBy (fun k => ¬k.IsEnd) w w' := by
  have hq (i : Nat) : ¬(Call.addTransitionQueue i).IsEnd := id
  unfold started
  apply within_call (.call _ trivial)
  apply within_getSvc
  dsimp only
  rw [if_neg (by simpa using hc)]
  apply within_step (.becomeStarted i)
  have hg : GrowsBy (fun k => ¬k.IsEnd) w ((w.push (.started i)).becomeStarted i) :=
    (growsBy_push w _ id).trans (growsBy_becomeStarted hq _ i id)
  have hs : (((w.push (.started i)).becomeStarted i).core.svc i).serviceState=.started := by
    simp
  apply within_getSvc
  apply within_ite
  · intro _
    refine within_sub (within_mono (hrec.doStop i false _) ?_) fun _ _ => .stop
    intro _ w' hw' _
    refine ⟨?_,hg.trans (stopSteps_growsBy hw')⟩
    rcases ((stopSteps_frame hw').svc i).state with h | h
    · simp [h]
    · simp [h.1]
  · intro _
    exact within_pure ⟨by simp,hg⟩

end

/-- A state in which the exec status of a reaped child has come and its pipe has been put away;
`c` is the state in which it came. -/
structure World.StatusSeen (w : World) (i : Nat) (c : Core) (rest : List (Call × Core)) : Prop where
  trace : w.trace=(.execStatus i false,c)::rest
  core : w.core=c.setProc i fun p => { p with waitingForExecstat := false, execPipe := false }
  reaped : (w.core.svc i).proc.pid=-1

/-- The child of a process service is known to run. -/
def World.track (w : World) (i : Nat) : World :=
  w.onCore fun c => c.setProc i fun p => { p with trackingChild := true }

namespace World.StatusSeen

variable {w : World} {i : Nat} {c : Core} {rest : List (Call × Core)}

theorem svc (h : w.StatusSeen i c rest) : w.core.svc i = { c.svc i with proc :=
    { (c.svc i).proc with waitingForExecstat := false, execPipe := false } } := by
  simp [h.core]

theorem exec (h : w.StatusSeen i c rest) : (w.core.svc i).proc.waitingForExecstat=false := by
  rw [h.svc]

theorem reaped_then (h : w.StatusSeen i c rest) : (c.svc i).proc.pid=-1 := by
  have hp := h.reaped
  rw [h.svc] at hp
  exact hp

theorem state (h : w.StatusSeen i c rest) :
    (w.core.svc i).serviceState=(c.svc i).serviceState := by
  rw [h.svc]

theorem type (h : w.StatusSeen i c rest) : (w.core.svc i).getType=(c.svc i).getType := by
  rw [h.svc]
  rfl

/-- The exit is due once it is known that nothing was stopped on the way. -/
theorem exitOk (h : w.StatusSeen i c rest) {w' : World} (hr : ReflTransGen Step w w')
    (hproc : (c.svc i).getType=.process)
    (hq : c.ExitDisturbed i ∨
      ((w'.core.svc i).serviceState=.stopped → (c.svc i).serviceState=.stopped) ∧
      GrowsBy (fun k => ¬k.IsEnd) w w') : (w'.core.svc i).proc.pid=-1 → w'.ExitOk i := by
  intro hpid
  have hwfe := (steps_reaped i hr (h.type.trans hproc) (fun _ => h.exec) hpid).2
  obtain ⟨pre,hpre⟩ := (steps_grows hr)
  refine ⟨hpid,hwfe,.inr ⟨c,pre,rest,by rw [hpre,h.trace],h.reaped_then,?_⟩⟩
  rcases hq with hq | ⟨hs,t,htr,hq⟩
  · exact .inl hq
  · obtain rfl : t=pre := List.append_cancel_right (htr.symm.trans hpre)
    refine .inr ⟨hs,fun e he => ⟨?_,?_⟩⟩
    · rintro heq
      exact hq e he (by rw [heq]; trivial)
    · rintro b heq
      exact hq e he (by rw [heq]; trivial)

theorem exitOk_quiet (h : w.StatusSeen i c rest) {w' : World} (hr : ReflTransGen Step w w')
    (hproc : (c.svc i).getType=.process) (htr : w'.trace=w.trace)
    (hs : (w'.core.svc i).serviceState=(c.svc i).serviceState) :
    (w'.core.svc i).proc.pid=-1 → w'.ExitOk i :=
  h.exitOk hr hproc (.inr ⟨fun h => hs ▸ h,growsBy_same htr⟩)

end World.StatusSeen

section
variable {rec : Rec} (hrec : rec.Ok)
include hrec

/-- A start whose exec status has come is over, unless readiness is to be told. -/
theorem startedAfterExec_exit {i : Nat} {w : World} {c : Core} {rest : List (Call × Core)}
    (h : w.StatusSeen i c rest) (hproc : (c.svc i).getType=.process)
    (hs : (c.svc i).serviceState=.starting) (hready : (c.svc i).settings.hasReadyNotification=false) :
    Within Step (stopStopstartTimer i >>= fun _ => started rec i) (w.track i) fun _ w' =>
      w'.ctx=w.ctx ∧ ((w'.core.svc i).proc.pid=-1 → w'.ExitOk i) := by
  have htimer : Step (w.track i) ((w.track i).onCore fun c => c.setProc i Proc.stopStopstartTimer) :=
    step_stopTimer _ i
  have hsteps {w' : World} (hr : ReflTransGen Step _ w') : ReflTransGen Step w w' :=
    .trans (.tail (.single (.trackingChild i)) htimer) hr
  apply within_onCore htimer
  by_cases hc : (c.svc i).haveConsole=true ∧ (c.svc i).settings.runsOnConsole=false
  · refine within_mono (started_within hrec i _) ?_
    intro _ w' hr hx
    exact ⟨hx,h.exitOk (hsteps hr) hproc (.inl ⟨hproc,.inl ⟨hs,hready,hc⟩⟩)⟩
  · have hquiet := started_quiet hrec i ((w.track i).onCore fun c => c.setProc i Proc.stopStopstartTimer)
      (by simpa [World.track,h.svc] using hc)
    refine within_mono (within_and (started_within hrec i _) hquiet) ?_
    rintro _ w' hr ⟨hx,hns,hg⟩
    exact ⟨hx,h.exitOk (hsteps hr) hproc (.inr ⟨fun h => absurd h hns,hg⟩)⟩

/-- A stop that has waited for the exec status goes on. -/
theorem bringDownAfterExec_exit {i : Nat} {w : World} {c : Core} {rest : List (Call × Core)}
    (h : w.StatusSeen i c rest) (hproc : (c.svc i).getType=.process)
    (hs : (c.svc i).serviceState=.stopping) (hstop : c.stopCheckDependents i=true) :
    Within Step (processBringDown rec i) (w.track i) fun _ w' =>
      w'.ctx=w.ctx ∧ ((w'.core.svc i).proc.pid=-1 → w'.ExitOk i) := by
  have htrack : ReflTransGen Step w (w.track i) := .single (.trackingChild i)
  by_cases hd : (c.svc i).proc.stopPid=-1 ∧ (c.svc i).proc.stopIssued=false
  · refine within_mono (processBringDown_within hrec i _) ?_
    intro _ w' hr hx
    exact ⟨hx,h.exitOk (.trans htrack hr) hproc (.inl ⟨hproc,.inr ⟨hs,hstop,hd⟩⟩)⟩
  · unfold processBringDown
    apply within_getSvc
    rw [if_pos]
    · exact within_pure ⟨rfl,h.exitOk_quiet htrack hproc rfl (by simp [World.track,h.svc])⟩
    · by_contra hn
      apply hd
      simpa [World.track,h.svc] using hn

/-- After `exec_succeeded` for a child that had been reaped, its exit is due. -/
theorem execSucceeded_exit {i : Nat} {w : World} {c : Core} {rest : List (Call × Core)}
    (h : w.StatusSeen i c rest) : Within Step (execSucceeded rec i) w fun _ w' =>
      w'.ctx=w.ctx ∧ ((w'.core.svc i).proc.pid=-1 → w'.ExitOk i) := by
  have htrack : Step w (w.track i) := .trackingChild i
  have hready : (w.core.svc i).settings=(c.svc i).settings := by rw [h.svc]
  unfold execSucceeded
  apply within_getSvc
  apply within_ite
  · intro _
    refine within_pure ⟨rfl,fun _ => ⟨h.reaped,h.exec,.inr ⟨c,[],rest,h.trace,h.reaped_then,.inr ⟨?_,?_⟩⟩⟩⟩
    · rw [h.state]
      exact id
    · simp
  intro hproc
  rw [not_not,h.type] at hproc
  -- what is read from here on is as it was when the status came
  have hquiet {w' : World} (hr : ReflTransGen Step w w') (htr : w'.trace=w.trace)
      (hs : (w'.core.svc i).serviceState=(w.core.svc i).serviceState) :=
    h.exitOk_quiet hr hproc htr (hs.trans h.state)
  apply within_onCore htrack
  apply within_getCore
  apply within_ite
  · intro hs
    apply within_ite
    · intro _
      have hm : Step (w.track i) ((w.track i).onCore fun c => c.setProc i fun p =>
          { p with readyWatch := true }) := step_misc i _ (by constructor <;> rfl)
      exact within_modify hm ⟨rfl,hquiet (.tail (.single htrack) hm) rfl (by simp)⟩
    · intro hr
      exact startedAfterExec_exit hrec h hproc (h.state ▸ hs) (by simpa [hready] using hr)
  intro _
  apply within_ite
  · intro _
    apply within_ite
    · intro _
      have hm : Step (w.track i) ((w.track i).onCore fun c => c.setProc i Proc.stopStopstartTimer) :=
        step_stopTimer _ i
      exact within_modify hm ⟨rfl,hquiet (.tail (.single htrack) hm) rfl (by simp)⟩
    · intro _
      exact within_pure ⟨rfl,hquiet (.single htrack) rfl (by simp)⟩
  intro _
  apply within_ite
  · rintro ⟨hs,hstop⟩
    exact bringDownAfterExec_exit hrec h hproc (h.state ▸ hs)
      (by simpa [h.core,Core.stopCheckDependents] using hstop)
  · intro _
    exact within_pure ⟨rfl,hquiet (.single htrack) rfl (by simp)⟩

theorem execStatus_within (i : Nat) (failed : Bool) (w : World)
    (h : (w.core.svc i).proc.execPipe=true) :
    Within EventStep (execStatus rec i failed) w (sameCtx w) := by
  unfold execStatus
  apply within_call (.call _ h)
  apply within_onCore (.seen i failed (by simp) (by simpa using h))
  set w1 := (w.push (.execStatus i failed)).onCore fun c => c.setProc i fun p =>
    { p with waitingForExecstat := false, execPipe := false } with hw1
  have hqueue (u : World) (hu : u.ctx=w.ctx) : Within EventStep rec.processQueues u (sameCtx w) :=
    within_mono (within_event (hrec.processQueues u)) fun _ _ _ h => h.trans hu
  dsimp only
  split
  · next hf =>
    subst hf
    apply within_onCore (.forget i w.core (by simp [hw1]))
    refine within_seq (within_event (execFailed_within hrec i _ ?_
      (((noted_push w i _).setSvc rfl).setSvc rfl))) ?_
    · simp only [onCore_core,Core.setProc_eq,Core.setSvc_svc,if_true,Proc.forget]
      split
      · rfl
      · next hp => simpa using hp
    · intro _ w2 _ hx2
      exact hqueue w2 hx2
  · next hf =>
    have hf' : failed=false := by simpa using hf
    subst hf'
    have hexit : Within Step (execSucceeded rec i) w1 fun _ w' =>
        w'.ctx=w1.ctx ∧ ((w'.core.svc i).proc.pid=-1 → w'.ExitOk i) := by
      by_cases hp : (w1.core.svc i).proc.pid=-1
      · exact execSucceeded_exit hrec ⟨rfl,rfl,hp⟩
      · by_cases hproc : (w1.core.svc i).getType=.process
        · refine within_mono (execSucceeded_within hrec i w1) ?_
          intro _ w' hr hx
          refine ⟨hx,fun hpid => absurd (steps_reaped i hr hproc ?_ hpid).1 hp⟩
          exact fun h => absurd h hp
        · unfold execSucceeded
          apply within_getSvc
          rw [if_pos hproc]
          exact within_pure ⟨rfl,fun h => absurd h hp⟩
    refine within_seq (within_event hexit) ?_
    rintro _ w2 _ ⟨hx2,hok⟩
    apply within_getSvc
    split
    · next hp =>
      refine within_seq (within_event (handleExitStatus_within hrec i w2 (hok hp))) ?_
      intro _ w3 _ hx3
      exact hqueue w3 (hx3.trans hx2)
    · exact hqueue w2 hx2

theorem stopExecStatus_within (i : Nat) (failed : Bool) (w : World)
    (h : (w.core.svc i).proc.stopPipe=true) :
    Within EventStep (stopExecStatus rec i failed) w (sameCtx w) := by
  have hqueue (u : World) (hu : u.ctx=w.ctx) : Within EventStep rec.processQueues u (sameCtx w) :=
    within_mono (within_event (hrec.processQueues u)) fun _ _ _ h => h.trans hu
  unfold stopExecStatus
  apply within_call (.call _ h)
  apply within_onCore (.stopSeen i failed (by simp) (by simpa using h))
  apply within_getSvc
  dsimp only
  split
  · next hf =>
    subst hf
    split
    · apply within_onCore (.stopForget i w.core (by simp))
      split
      · next hp =>
        have hstopped (u : World) (hu : u.ctx=w.ctx) : Within EventStep (do
            setProc i fun p => { p with stopIssued := false }
            stopped rec i
            rec.processQueues) u (sameCtx w) := by
          apply within_onCore (.step (.stopIssued i false))
          refine within_seq (within_event (stopped_within hrec i _)) ?_
          intro _ v _ hv
          exact hqueue v (hv.trans hu)
        split
        · refine within_seq (within_event (killPg_ctx i _ _ (by simpa using hp))) ?_
          rintro _ w2 _ ⟨hx2,_⟩
          split
          · exact hstopped w2 hx2
          · exact hqueue w2 hx2
        · split
          · exact hstopped _ rfl
          · exact hqueue _ rfl
      · exact hqueue _ rfl
    · exact hqueue _ rfl
  · split
    · refine within_seq (within_event (handleStopExit_within hrec i _)) ?_
      intro _ w2 _ hx2
      exact hqueue w2 hx2
    · exact hqueue _ rfl

omit hrec in
theorem Proc.reaped_eq {p : Proc} (status : ProcStatus) (h : p.waitingForExecstat=false) :
    p.reaped status=Proc.stopStopstartTimer
      { p with pid := -1, exitStatus := status, childWatch := false } := by
  unfold reaped stopStopstartTimer
  by_cases hs : p.waitingStopstartTimer=true <;> simp [h,hs]

theorem childTerminated_within (i : Nat) (status : ProcStatus) (w : World)
    (h : (w.core.svc i).proc.childWatch=true) :
    Within EventStep (childTerminated rec i status) w (sameCtx w) := by
  unfold childTerminated
  apply within_call (.call _ h)
  set w1 := (w.push (.childTerminated i)).onCore fun c => c.setProc i (Proc.reaped status) with hw1
  have hstep : EventStep (w.push (.childTerminated i)) w1 := .reaped i status (by simp)
  by_cases he : (w.core.svc i).proc.waitingForExecstat=true
  · have hw : w1=(w.push (.childTerminated i)).onCore fun c => c.setProc i fun p =>
        { p with pid := -1, exitStatus := status, childWatch := false } := by
      rw [hw1]
      refine congrArg (World.mk · _ _ _) (Core.setSvc_congr _ _ ?_)
      simp [Proc.reaped,he]
    refine within_eq (n := pure ()) ?_ (.single hstep) (within_pure rfl)
    rw [hw]
    exact congrFun (if_pos (by simpa using he)) _
  · -- the timer is stopped in the same step
    have he' : (w.core.svc i).proc.waitingForExecstat=false := by simpa using he
    have hw : w1=((w.push (.childTerminated i)).onCore fun c => c.setProc i fun p =>
        { p with pid := -1, exitStatus := status, childWatch := false }).onCore fun c =>
          c.setProc i Proc.stopStopstartTimer := by
      rw [hw1]
      refine congrArg (World.mk · _ _ _) ?_
      simp only [onCore_core,Core.setProc_eq,Core.setSvc_setSvc]
      refine Core.setSvc_congr _ _ ?_
      exact congrArg (fun p => { w.core.svc i with proc := p }) (Proc.reaped_eq status he')
    refine within_eq (n := handleExitStatus rec i) ?_ (.single hstep)
      (within_event (handleExitStatus_within hrec i _
        ⟨by simp [hw1,Proc.reaped],?_,.inl ⟨w.core,by simp [hw1],he',by simp [hw1]⟩⟩))
    · rw [hw]
      exact congrFun (if_neg (by simpa using he)) _
    · simpa [hw1,Proc.reaped,he'] using
        (w.core.svc i).proc.stopStopstartTimer_alike.waitingForExecstat.trans he'

theorem stopChildTerminated_within (i : Nat) (status : ProcStatus) (w : World)
    (h : (w.core.svc i).proc.stopWatch=true) :
    Within EventStep (stopChildTerminated rec i status) w (sameCtx w) := by
  unfold stopChildTerminated
  apply within_call (.call _ h)
  apply within_onCore (.stopReaped i status (by simp))
  apply within_getSvc
  apply within_ite
  · intro _
    exact within_pure rfl
  · intro _
    exact within_event (within_thenQueues hrec (handleStopExit_within hrec i _))

theorem readyNotify_within (i : Nat) (read : NotifyRead) (w : World) :
    Within EventStep (readyNotify rec i read) w (sameCtx w) := by
  unfold readyNotify
  apply within_call (.call _ trivial)
  apply within_event
  apply within_getSvc
  apply within_ite
  · intro hs
    cases read with
    | data =>
      apply within_onCore (step_stopTimer _ i)
      exact within_thenQueues hrec (started_within hrec i _)
    | eof =>
      apply within_onCore (step_stopTimer _ i)
      refine within_seq (failedToStart_within (x := w.ctx) hrec i false _ _ ?_ rfl) ?_
      · refine .cancelStopping i false (fun s => { s with serviceState := .stopping })
          (by constructor <;> rfl) (.inl ?_) ((noted_push w i _).setSvc rfl)
        simpa using hs
      · intro _ w2 _ hx2
        exact within_mono (within_thenQueues hrec (processBringDown_within hrec i w2))
          fun _ _ _ h => h.trans hx2
    | again => exact hrec.processQueues _
  · intro _
    apply within_ite
    · intro _
      exact within_modify (step_misc i _ (by constructor <;> rfl)) rfl
    · intro _
      exact within_pure rfl

omit hrec in
theorem killWithFire_within (i : Nat) (w : World) :
    Within Step (killWithFire i) w (sameCtx w) := by
  have hstop (u : World) (hu : u.core=w.core) (hx : u.ctx=w.ctx) :
      Within Step (if (w.core.svc i).getType ≠ .scripted ∧ (w.core.svc i).proc.stopPid ≠ -1 then
        killGroup (w.core.svc i).proc.stopPid sigKill else pure ()) u (sameCtx w) := by
    apply within_ite
    · intro h
      unfold killGroup
      apply within_noteSys
      intro r rs
      rw [← hu] at h ⊢
      apply within_call (.call _ ⟨i,h.2,rfl⟩)
      exact within_modify (.call _ ⟨i,r.pgid,h.2,rfl,rfl⟩) hx
    · intro _
      exact within_pure hx
  unfold killWithFire
  apply within_getSvc
  dsimp only
  split
  · next hp =>
    refine within_seq (within_stopSteps (killPg_within i sigKill w (.inl hp))) ?_
    rintro _ w1 _ ⟨hf,hcore,_⟩
    exact hstop w1 hcore hf.ctx
  · exact hstop w rfl rfl

omit hrec in
/-- `timer_expired` clears that a start or stop timeout runs, where it is taken for one. -/
theorem expire_eq (i : Nat) (w : World) (hs : (w.core.svc i).serviceState=.stopping ∨
      (w.core.svc i).proc.pid≠-1) :
    w.expire i=((w.onCore fun c => c.setProc i fun p => { p with timerArmed := false }).push
      (.timerExpired i)).onCore fun c => c.setProc i fun p =>
        { p with waitingStopstartTimer := false } := by
  refine congrArg (World.mk · _ _ _) ?_
  simp only [onCore_core,push_core,Core.setProc_eq,Core.setSvc_setSvc]
  refine Core.setSvc_congr _ _ ?_
  rcases hs with hs | hs <;> simp [Svc.timedOut,hs]

theorem timerExpiry_within (i : Nat) (w : World)
    (h : (w.core.svc i).proc.timerArmed=true) :
    Within EventStep (timerExpiry rec i) w (sameCtx w) := by
  have hstep : EventStep w (w.expire i) := .expire i h
  by_cases hs : (w.core.svc i).serviceState=.stopping
  · refine within_eq (n := killWithFire i) ?_ (.single hstep)
      (within_event (killWithFire_within i _))
    rw [expire_eq i w (.inl hs)]
    exact congrFun (if_pos (by simpa using hs)) _
  by_cases hp : (w.core.svc i).proc.pid=-1
  · have hrun : Within Step (doRestart rec i) (w.expire i) (sameCtx w) := by
      have hr : ((w.expire i).core.svc i).proc.waitingRestartTimer=false := by
        simp [World.expire,Svc.timedOut,hs,hp]
      refine doRestart_within hrec i _ (.inr ⟨.timerExpired i,_,List.mem_cons_self ..,
        .inr (.inl ⟨rfl,?_,?_,hr⟩),?_,?_,?_⟩) (step_misc i _ ?_)
      · simpa using hs
      · simpa using hp
      · simp [World.expire,Svc.timedOut]
      · simp [World.expire,Svc.timedOut]
      · simp [hr]
      · constructor <;> first | rfl | exact hr.symm
    refine within_eq (n := doRestart rec i) ?_ (.single hstep) (within_event hrun)
    set w2 := ((w.onCore fun c => c.setProc i fun p => { p with timerArmed := false }).push
      (.timerExpired i)).onCore fun c => c.setProc i fun p =>
        { p with waitingStopstartTimer := false } with hw2
    have hif : timerExpiry rec i w=doRestart rec i w2 := by
      refine (congrFun (if_neg ?_) w2).trans (congrFun (if_neg ?_) w2)
      · simpa [hw2] using hs
      · simpa [hw2] using hp
    have hclear : (w2.onCore fun c => c.setProc i fun p => { p with waitingRestartTimer := false })
        =(w.expire i).onCore fun c => c.setProc i fun p =>
          { p with waitingRestartTimer := false } := by
      refine congrArg (World.mk · _ _ _) ?_
      simp only [hw2,World.expire,onCore_core,push_core,Core.setProc_eq,Core.setSvc_setSvc]
      refine Core.setSvc_congr _ _ ?_
      simp [Svc.timedOut]
    rw [hif]
    unfold doRestart setProc onCore
    rw [modify_bind,modify_bind,hclear]
  · refine within_eq (n := do
      let _ ← interruptStart i fun w => (w.onCore fun c => c.setSvc i fun s =>
        { s with stopReason := .timedout }).cancelStart i false) ?_ (.single hstep) ?_
    · rw [expire_eq i w (.inr hp)]
      exact (congrFun (if_neg (by simpa using hs)) _).trans
        (congrFun (if_pos (by simpa using hp)) _)
    have hp' : ((w.expire i).core.svc i).proc.pid≠-1 := by
      simpa [World.expire,Svc.timedOut] using hp
    have hs' : ((w.expire i).core.svc i).serviceState≠.stopping := by
      simpa [World.expire,Svc.timedOut] using hs
    apply within_event
    refine within_bind (within_mono (interruptStart_within (P := fun w' => w'.ctx=w.ctx)
      (fun _ _ => .stop) i _ _ (fun _ _ => .inl hp') ?_) fun _ _ _ h => within_pure h)
    intro w' p hk ha hg hn hx
    refine ⟨.cancelTimeout i (fun s => { s with stopReason := .timedout })
      (by constructor <;> rfl) ?_ ?_ hn,?_⟩
    · rw [hk]
      exact fun h => hp' (ha.pid.symm.trans h)
    · rw [hk]
      exact hs'
    · exact (frame_cancelStart _ i false).ctx.trans hx

theorem consoleReleased_within (w : World) :
    Within EventStep (consoleReleased rec) w (sameCtx w) := by
  unfold consoleReleased
  apply within_onCore (.step (.consoleLog w.core.logRelease false))
  exact within_event (hrec.pullConsoleQueue _)

end

/-- The handler of an enabled event makes steps of the system only. -/
theorem handle_within (fuel : Nat) (e : Event) (w : World) (he : e.enabled w.core=true) :
    Within EventStep (handle fuel e) w (sameCtx w) := by
  have hrec := calls_ok fuel
  cases e with
  | startService i pin => exact startService_within hrec i pin w
  | stopService i pin gentle restart_ => exact stopService_within hrec i pin gentle restart_ w
  | wakeService i pin => exact wakeService_within hrec i pin w
  | releaseService i pin => exact releaseService_within hrec i pin w
  | unpinService i => exact within_eventQueues hrec (unpin_within hrec i w)
  | addServiceDep f t type enable =>
    simp only [Event.enabled,Bool.and_eq_true,List.contains_iff_mem,bne_iff_ne] at he
    exact addServiceDep_within hrec fuel f t type enable w he.1.1.1.1 he.1.1.2 he.2 he.1.2
  | rmServiceDep f t type => exact within_eventQueues hrec (rmDep_within hrec f t type w)
  | setTrigger i b => exact within_eventQueues hrec (setTrigger_within hrec i b w)
  | stopAllServices => exact stopAllServices_within hrec w
  | execStatus i failed =>
    exact execStatus_within hrec i failed w (by simp [Event.enabled] at he; exact he.2)
  | stopExecStatus i failed =>
    exact stopExecStatus_within hrec i failed w (by simp [Event.enabled] at he; exact he.2)
  | childTerminated i status =>
    exact childTerminated_within hrec i status w (by simp [Event.enabled] at he; exact he.2)
  | stopChildTerminated i status =>
    exact stopChildTerminated_within hrec i status w (by simp [Event.enabled] at he; exact he.2)
  | readyNotify i read => exact readyNotify_within hrec i read w
  | timerExpired i =>
    exact timerExpiry_within hrec i w (by simp [Event.enabled] at he; exact he.2)
  | consoleReleased => exact consoleReleased_within hrec w
  | processQueues => exact within_event (hrec.processQueues w)

end Dinit
