import Dinit.Run.Handlers

namespace Dinit

open Framework Framework.Comp World Relation

/-- A run that is followed by `process_queues`. -/
theorem within_thenQueues {rec : Rec} (hrec : rec.Ok) {m : M Unit} {w : World}
    (h : Within Step m w (sameCtx w)) :
    Within Step (m >>= fun _ => rec.processQueues) w (sameCtx w) := by
  refine within_seq h ?_
  intro _ w1 _ hx
  refine within_mono (hrec.processQueues w1) ?_
  intro _ w2 _ hx2
  exact hx2.trans hx

section
variable {rec : Rec} (hrec : rec.Ok)
include hrec

/-- The start has failed for the given reason. -/
theorem failed_within (i : Nat) (r : StoppedReason) (w : World) :
    Within Step (failedToStart rec i true fun w => w.onCore fun c => c.setSvc i fun s =>
      { s with stopReason := r }) w (sameCtx w) := by
  apply failedToStart_within hrec i true
  · exact .cancelStart i true (fun s => { s with stopReason := r }) (by constructor <;> rfl)
  · rfl

theorem processHandleExitStatus_within (i : Nat) (w : World) (h : w.ExitEntry i) :
    Within Step (processHandleExitStatus rec i) w (sameCtx w) := by
  unfold processHandleExitStatus
  apply within_getSvc
  have hk : ({ w.core.svc i with proc := (w.core.svc i).proc.stopStopstartTimer } : Svc).Kept
      { w.core.svc i with proc := (w.core.svc i).proc.closeNotification.stopStopstartTimer } := by
    unfold Proc.closeNotification Proc.stopStopstartTimer
    split_ifs <;> constructor <;> rfl
  apply within_onCore (.stopTimer i _ hk)
  have hx1 : (w.onCore fun c => c.setProc i fun p =>
      p.closeNotification.stopStopstartTimer).RestartOk i :=
    .inl (exitEntry_setSvc ((w.core.svc i).proc.stopStopstartTimer_alike.trans hk.alike) h)
  apply within_ite
  · intro _
    exact within_thenQueues hrec (failed_within hrec i .failed _)
  intro _
  apply within_ite
  · intro hs
    refine within_thenQueues hrec (processExitStopping_within hrec i _ ?_)
    simpa using hs
  intro _
  refine within_seq (smoothRestart_within i _ _) ?_
  intro smooth w2 _ hf
  have hx2 : w2.RestartOk i := restartOk_mono hx1 hf.1.grows (hf.1.svc i).pid
    (hf.1.svc i).waitingForExecstat (hf.2 ▸ id)
  apply within_ite
  · intro _
    apply within_onCore (step_misc i _ (by constructor <;> rfl))
    refine within_mono (doSmoothRecovery_within hrec i _
      (restartOk_setSvc (by constructor <;> rfl) hx2)) ?_
    intro _ w3 _ hx3
    exact hx3.trans hf.1.ctx
  · intro _
    refine within_mono (within_thenQueues hrec (handleUnexpectedTermination_within hrec i w2)) ?_
    intro _ w3 _ hx3
    exact hx3.trans hf.1.ctx

omit hrec in
/-- `read_pid_file` leaves no process, or one that is there and may be watched. -/
theorem readPidFile_within (i : Nat) (w : World) (h : w.ExitEntry i)
    (hb : (w.core.svc i).getType=.bgprocess) :
    Within Step (readPidFile i) w fun _ w' =>
      w'.ctx=w.ctx ∧ (w'.core.svc i).getType=.bgprocess := by
  have hgone {β : Type} (u : World) (hu : u.core=w.core) (hx : u.ctx=w.ctx) (ht : u.trace=w.trace)
      (st : ProcStatus → ProcStatus) (r : β) :
      Within Step (do
        setProc i fun p => { p with pid := -1, exitStatus := st p.exitStatus }
        return r) u fun _ w' => w'.ctx=w.ctx ∧ (w'.core.svc i).getType=.bgprocess := by
    have hxu : u.ExitEntry i := exitEntry_mono h ⟨[],ht⟩ (by rw [hu]) (by rw [hu]) (by rw [hu]; exact id)
    apply within_onCore
    · refine .readPid i _ hxu (by rw [hu]; exact hb) (.inl rfl) ?_ (.inl ⟨rfl,rfl⟩)
      constructor <;> rfl
    · refine within_pure ⟨hx,?_⟩
      simpa [Svc.getType,hu] using hb
  unfold readPidFile
  apply within_noteSys
  intro r rs
  cases r.pidFile with
  | none => exact within_pure ⟨rfl,hb⟩
  | some v =>
    cases v with
    | none => exact hgone { w with sys := rs } rfl rfl rfl id _
    | some v =>
      dsimp only
      apply within_ite
      · intro _
        exact hgone { w with sys := rs } rfl rfl rfl id _
      intro _
      have hfound (f : Proc → Proc) (hf : (f (w.core.svc i).proc).pid=v)
          (hk : ({ w.core.svc i with proc := { (w.core.svc i).proc with
            pid := (f (w.core.svc i).proc).pid
            trackingChild := (f (w.core.svc i).proc).trackingChild
            childWatch := (f (w.core.svc i).proc).childWatch } } : Svc).Kept
            { w.core.svc i with proc := f (w.core.svc i).proc })
          (ht : (f (w.core.svc i).proc).trackingChild=false
              ∧ (f (w.core.svc i).proc).childWatch=(w.core.svc i).proc.childWatch
            ∨ (f (w.core.svc i).proc).trackingChild=true
              ∧ (f (w.core.svc i).proc).childWatch=true) (hv : v≠0) :
          Within Step (do
            setProc i f
            return PidResult.ok) { w with sys := rs } fun _ w' =>
              w'.ctx=w.ctx ∧ (w'.core.svc i).getType=.bgprocess := by
        have hxu : ({ w with sys := rs } : World).ExitEntry i := exitEntry_mono h ⟨[],rfl⟩ rfl rfl id
        have hpos : (0 : Int)<v := by omega
        have hne : (v : Int)≠-1 := by omega
        apply within_onCore
        · exact .readPid i f hxu hb (.inr (hf ▸ hpos)) hk (.inr ⟨hf ▸ hne,ht⟩)
        · refine within_pure ⟨rfl,?_⟩
          simpa [Svc.getType] using hb
      by_cases hv : v=0
      · simp only [hv,if_true]
        exact hgone { w with sys := rs } rfl rfl rfl id _
      · simp only [hv,if_false]
        split
        · apply within_ite
          · intro _
            exact hfound _ rfl (by constructor <;> rfl) (.inl ⟨rfl,rfl⟩) hv
          · intro _
            exact hgone { w with sys := rs } rfl rfl rfl id _
        · next st _ => exact hgone { w with sys := rs } rfl rfl rfl (fun _ => st) _
        · exact hfound _ rfl (by constructor <;> rfl) (.inr ⟨rfl,rfl⟩) hv
        · exact hgone { w with sys := rs } rfl rfl rfl id _

theorem bgprocExitRecoveryStopping_within (i : Nat) (bad : Bool) (w : World) (h : w.ExitEntry i)
    (hb : (w.core.svc i).getType=.bgprocess) (hs : (w.core.svc i).serviceState=.stopping) :
    Within Step (bgprocExitRecoveryStopping rec i bad) w (sameCtx w) := by
  unfold bgprocExitRecoveryStopping
  apply within_getSvc
  apply within_ite
  · intro _
    dsimp only
    split
    · exact within_thenQueues hrec (stopped_within hrec i w)
    · split
      · next hd =>
        apply within_step (.initiateStart i hs hd.1 (by simpa using hd.2))
        refine within_mono (hrec.processQueues _) ?_
        intro _ w1 _ hx1
        exact hx1.trans (frame_initiateStart w i).ctx
      · exact hrec.processQueues w
  · intro _
    apply within_ite
    · intro _
      refine within_seq (readPidFile_within i w h hb) ?_
      intro r w1 _ hx1
      apply within_ite
      · intro _
        exact within_pure hx1.1
      · intro _
        dsimp only
        split
        · refine within_mono (within_thenQueues hrec (processBringDown_within hrec i w1)) ?_
          intro _ w2 _ hx2
          exact hx2.trans hx1.1
        · refine within_mono (within_thenQueues hrec (stopped_within hrec i w1)) ?_
          intro _ w2 _ hx2
          exact hx2.trans hx1.1
    · intro _
      exact hrec.processQueues w

/-- `goto begin` -/
theorem exitAgain_within (i : Nat) (w : World) (hb : (w.core.svc i).getType=.bgprocess) :
    Within Step (do
      call (.handleExitAgain i)
      rec.handleExitAgain i) w (sameCtx w) := by
  apply within_call (.call _ trivial)
  exact hrec.handleExitAgain i _ ⟨_,w.core,by simp,.inr rfl,rfl,rfl,id⟩ hb

theorem bgprocExitRecovery_within (i : Nat) (bad : Bool) (w : World) (h : w.ExitEntry i)
    (hb : (w.core.svc i).getType=.bgprocess) :
    Within Step (bgprocExitRecovery rec i bad) w (sameCtx w) := by
  have hfailed (w1 : World) (hx : w1.ctx=w.ctx) : Within Step (do
      setSvc i fun s => { s with stopReason := .terminated }
      unrecoverableStop i
      rec.processQueues) w1 (sameCtx w) := by
    apply within_onCore (step_misc i _ (by constructor <;> rfl))
    apply within_onCore (.unrecoverableStop i)
    refine within_mono (hrec.processQueues _) ?_
    intro _ w2 _ hx2
    exact hx2.trans hx
  unfold bgprocExitRecovery
  apply within_getSvc
  dsimp only
  split
  · refine within_seq (readPidFile_within i w h hb) ?_
    intro r w1 _ hx
    cases r with
    | failed => exact hfailed w1 hx.1
    | terminated =>
      refine within_mono (exitAgain_within hrec i w1 hx.2) ?_
      intro _ w2 _ hx2
      exact hx2.trans hx.1
    | ok => exact within_pure hx.1
  · cases bad with
    | true => exact hfailed w rfl
    | false => exact within_pure rfl

theorem bgprocExitStarting_within (i : Nat) (clean : Bool) (w : World) (h : w.ExitEntry i)
    (hb : (w.core.svc i).getType=.bgprocess) :
    Within Step (bgprocExitStarting rec i clean) w (sameCtx w) := by
  have hfailed (w1 : World) (hx : w1.ctx=w.ctx) : Within Step (do
      failedToStart rec i true fun w =>
        w.onCore fun c => c.setSvc i fun s => { s with stopReason := .failed }
      rec.processQueues) w1 (sameCtx w) := by
    refine within_mono (within_thenQueues hrec (failed_within hrec i .failed w1)) ?_
    intro _ w2 _ hx2
    exact hx2.trans hx
  unfold bgprocExitStarting
  dsimp only
  split
  · refine within_seq (readPidFile_within i w h hb) ?_
    intro r w1 _ hx
    cases r with
    | failed => exact hfailed w1 hx.1
    | terminated =>
      refine within_seq (started_within hrec i w1) ?_
      intro _ w2 hw2 hx2
      refine within_mono (exitAgain_within hrec i w2 ?_) ?_
      · simpa [Svc.getType,(steps_graph hw2).settings i] using hx.2
      · intro _ w3 _ hx3
        exact hx3.trans (hx2.trans hx.1)
    | ok =>
      refine within_mono (within_thenQueues hrec (started_within hrec i w1)) ?_
      intro _ w2 _ hx2
      exact hx2.trans hx.1
  · exact hfailed w rfl

theorem bgprocExitStopping_within (i : Nat) (w : World) :
    Within Step (bgprocExitStopping rec i) w (sameCtx w) := by
  unfold bgprocExitStopping
  apply within_getSvc
  apply within_ite
  · intro _
    apply within_onCore (.stopIssued i false)
    exact stopped_within hrec i _
  · intro _
    exact within_pure rfl

theorem bgprocExitStarted_within (i : Nat) (w : World) (h : w.ExitEntry i) :
    Within Step (bgprocExitStarted rec i) w (sameCtx w) := by
  unfold bgprocExitStarted
  apply within_getSvc
  refine within_seq (smoothRestart_within i _ w) ?_
  intro smooth w1 _ hf
  have hx1 : w1.RestartOk i :=
    .inl (exitEntry_mono h hf.1.grows (hf.1.svc i).pid (hf.1.svc i).waitingForExecstat (hf.2 ▸ id))
  apply within_ite
  · intro _
    apply within_onCore (step_misc i _ (by constructor <;> rfl))
    refine within_seq (doSmoothRecovery_within hrec i _
      (restartOk_setSvc (by constructor <;> rfl) hx1)) ?_
    intro _ w2 _ hx2
    apply within_getSvc
    apply within_ite
    · intro _
      exact within_modify (step_misc i _ (by constructor <;> rfl)) (hx2.trans hf.1.ctx)
    · intro _
      exact within_pure (hx2.trans hf.1.ctx)
  · intro _
    refine within_mono (within_thenQueues hrec (handleUnexpectedTermination_within hrec i w1)) ?_
    intro _ w2 _ hx2
    exact hx2.trans hf.1.ctx

theorem bgprocBegin_within (i : Nat) (w : World) (h : w.ExitEntry i)
    (hb : (w.core.svc i).getType=.bgprocess) : Within Step (bgprocBegin rec i) w (sameCtx w) := by
  unfold bgprocBegin
  apply within_getSvc
  apply within_onCore (step_stopTimer w i)
  set w1 := w.onCore fun c => c.setProc i Proc.stopStopstartTimer with hw1
  have h1 : w1.ExitEntry i := exitEntry_setSvc (w.core.svc i).proc.stopStopstartTimer_alike h
  have hb1 : (w1.core.svc i).getType=.bgprocess := by simpa [hw1,Svc.getType] using hb
  apply within_ite
  · intro _
    apply within_onCore (step_misc i _ (by constructor <;> rfl))
    have h2 := exitEntry_setSvc (f := fun s =>
      { s with proc := { s.proc with doingSmoothRecovery := false } }) (by constructor <;> rfl) h1
    apply within_ite
    · intro hs
      refine bgprocExitRecoveryStopping_within hrec i _ _ h2 ?_ ?_
      · simpa [Svc.getType] using hb1
      · simpa [hw1] using hs
    · intro _
      refine bgprocExitRecovery_within hrec i _ _ h2 ?_
      simpa [Svc.getType] using hb1
  intro _
  apply within_ite
  · intro _
    exact bgprocExitStarting_within hrec i _ w1 h1 hb1
  intro _
  apply within_ite
  · intro _
    exact within_thenQueues hrec (bgprocExitStopping_within hrec i w1)
  · intro _
    exact bgprocExitStarted_within hrec i w1 h1

theorem scriptedExitStopping_within (i : Nat) (w : World) (h : w.ExitEntry i) :
    Within Step (scriptedExitStopping rec i) w (sameCtx w) := by
  unfold scriptedExitStopping
  apply within_getSvc
  apply within_ite
  · intro _
    apply within_onCore (step_stopTimer w i)
    have h1 := exitEntry_setSvc (f := fun s => { s with proc := s.proc.stopStopstartTimer })
      (w.core.svc i).proc.stopStopstartTimer_alike h
    dsimp only
    split
    · refine within_seq (stopped_within hrec i _) ?_
      intro _ w2 _ hx2
      exact within_modify (step_misc i _ (by constructor <;> rfl)) hx2
    · refine within_seq (scriptedBringDown_within hrec i _ fun _ => .inl h1) ?_
      intro _ w2 _ hx2
      exact within_modify (step_misc i _ (by constructor <;> rfl)) hx2
  · intro _
    exact stopped_within hrec i w

theorem scriptedExitStarting_within (i : Nat) (w : World) :
    Within Step (scriptedExitStarting rec i) w (sameCtx w) := by
  unfold scriptedExitStarting
  apply within_getSvc
  apply within_ite
  · intro _
    exact started_within hrec i w
  intro _
  apply within_ite
  · intro _
    apply within_onCore (step_misc i _ (by constructor <;> rfl))
    exact started_within hrec i _
  · intro _
    exact failed_within hrec i .failed w

theorem scriptedHandleExitStatus_within (i : Nat) (w : World) (h : w.ExitEntry i) :
    Within Step (scriptedHandleExitStatus rec i) w (sameCtx w) := by
  unfold scriptedHandleExitStatus
  apply within_getSvc
  dsimp only
  split
  · exact within_thenQueues hrec (scriptedExitStopping_within hrec i w h)
  · exact within_thenQueues hrec (scriptedExitStarting_within hrec i w)

theorem handleExitStatus_within (i : Nat) (w : World) (h : w.ExitOk i) :
    Within Step (handleExitStatus rec i) w (sameCtx w) := by
  unfold handleExitStatus
  apply within_call (.call _ h)
  have hx : (w.push (.handleExitStatus i)).ExitEntry i :=
    ⟨_,w.core,by simp,.inl rfl,rfl,rfl,id⟩
  apply within_getSvc
  apply within_ite
  · intro _
    exact processHandleExitStatus_within hrec i _ hx
  intro _
  apply within_ite
  · intro hb
    exact bgprocBegin_within hrec i _ hx hb
  · intro _
    exact scriptedHandleExitStatus_within hrec i _ hx

theorem processExecFailed_within (i : Nat) (w : World) (hn : w.Noted i) :
    Within Step (processExecFailed rec i) w (sameCtx w) := by
  unfold processExecFailed
  apply within_onCore (.stopTimer i _ (closeNotification_kept
    { w.core.svc i with proc := (w.core.svc i).proc.stopStopstartTimer }))
  apply within_getSvc
  apply within_ite
  · intro hs
    apply failedToStart_within hrec i true
    · exact .cancelStopping i true (fun s =>
        { s with stopReason := .execfailed, serviceState := .stopping }) (by constructor <;> rfl)
        (.inl hs) (hn.setSvc rfl)
    · rfl
  · intro _
    apply within_onCore (step_misc i _ (by constructor <;> rfl))
    exact within_modify (.unrecoverableStop i) rfl

theorem bgprocExecFailed_within (i : Nat) (w : World) (hp : (w.core.svc i).proc.pid=-1)
    (hn : w.Noted i) : Within Step (bgprocExecFailed rec i) w (sameCtx w) := by
  unfold bgprocExecFailed
  apply within_onCore (step_stopTimer w i)
  apply within_getSvc
  apply within_ite
  · intro _
    apply within_onCore (step_misc i _ (by constructor <;> rfl))
    exact within_modify (.unrecoverableStop i) rfl
  · intro _
    apply failedToStart_within hrec i true
    · refine .cancelStopping i true (fun s =>
        { s with stopReason := .execfailed, serviceState := .stopping }) (by constructor <;> rfl)
        (.inr ?_) (hn.setSvc rfl)
      simpa using (w.core.svc i).proc.stopStopstartTimer_alike.pid.trans hp
    · rfl

theorem scriptedExecFailed_within (i : Nat) (w : World) :
    Within Step (scriptedExecFailed rec i) w (sameCtx w) := by
  unfold scriptedExecFailed
  apply within_getSvc
  apply within_ite
  · intro _
    exact failed_within hrec i .execfailed w
  intro _
  apply within_ite
  · intro _
    exact stopped_within hrec i w
  · intro _
    exact within_pure rfl

theorem execFailed_within (i : Nat) (w : World) (hp : (w.core.svc i).proc.pid=-1)
    (hn : w.Noted i) : Within Step (execFailed rec i) w (sameCtx w) := by
  unfold execFailed
  apply within_getSvc
  apply within_ite
  · intro _
    exact processExecFailed_within hrec i w hn
  intro _
  apply within_ite
  · intro _
    exact bgprocExecFailed_within hrec i w hp hn
  · intro _
    exact scriptedExecFailed_within hrec i w

theorem handleStopExit_within (i : Nat) (w : World) :
    Within Step (handleStopExit rec i) w (sameCtx w) := by
  unfold handleStopExit
  apply within_getSvc
  apply within_ite
  · intro _
    apply within_onCore (.stopIssued i false)
    exact stopped_within hrec i _
  · intro _
    exact within_pure rfl

end
end Dinit
