import Dinit.Run.Stop
import Dinit.Run.StepFrame

namespace Dinit

open Framework Framework.Comp World Relation

/-- The propagation under way is the same when a run ends. -/
abbrev sameCtx {α : Type} (w : World) : α → World → Prop := fun _ w' => w'.ctx=w.ctx

/-- What is assumed of the code one level down. -/
structure Rec.Ok (rec : Rec) : Prop where
  doStop : rec.StopOk
  pullConsoleQueue : ∀ w, Within Step rec.pullConsoleQueue w (sameCtx w)
  processQueues : ∀ w, Within Step rec.processQueues w (sameCtx w)
  handleExitAgain : ∀ i w, w.ExitEntry i → (w.core.svc i).getType=.bgprocess →
    Within Step (rec.handleExitAgain i) w (sameCtx w)

section
variable {α β : Type} {w : World} {Q : β → World → Prop}

theorem within_stopSteps {m : M α} {Q : α → World → Prop} (h : Within StopStep m w Q) :
    Within Step m w fun a w' => StopFrame w w' ∧ Q a w' := by
  have hq : Within StopStep m w fun a w' => StopFrame w w' ∧ Q a w' :=
    within_mono h fun a w' hw hq => ⟨stopSteps_frame hw,hq⟩
  exact within_sub hq fun _ _ => .stop

theorem within_stop {m : M α} (h : Within StopStep m w anyEnd) : Within Step m w (sameCtx w) :=
  within_mono (within_stopSteps h) fun _ _ _ hw => hw.1.ctx

/-- `if p then m` in a sequence, `m` leaving the propagation under way -/
theorem within_when_ctx {R : World → World → Prop} {p : Prop} [Decidable p] {m : M Unit}
    {f : Unit → M β} (h : p → Within R m w (sameCtx w))
    (hf : ∀ w', ReflTransGen R w w' → w'.ctx=w.ctx → (p ∨ w'=w) → Within R (f ()) w' Q) :
    Within R (if p then m >>= f else f ()) w Q := by
  by_cases hp : p
  · rw [if_pos hp]
    exact within_seq (h hp) fun _ w' hw hx => hf w' hw hx (.inl hp)
  · rw [if_neg hp]
    exact hf w .refl rfl (.inr rfl)

end

theorem exitEntry_mono {w w' : World} {i : Nat} (h : w.ExitEntry i) (hg : Grows w w')
    (hp : (w'.core.svc i).proc.pid=(w.core.svc i).proc.pid)
    (he : (w'.core.svc i).proc.waitingForExecstat=(w.core.svc i).proc.waitingForExecstat)
    (hr : (w'.core.svc i).proc.waitingRestartTimer=true →
      (w.core.svc i).proc.waitingRestartTimer=true) : w'.ExitEntry i := by
  obtain ⟨k,c,hc,hk,h1,h2,h3⟩ := h
  exact ⟨k,c,hg.mem hc,hk,hp.trans h1,he.trans h2,fun h => h3 (hr h)⟩

theorem psOk_mono {w w' : World} {i : Nat} (h : w.PsOk i) (hg : Grows w w')
    (hp : (w'.core.svc i).proc.pid=(w.core.svc i).proc.pid)
    (he : (w'.core.svc i).proc.waitingForExecstat=(w.core.svc i).proc.waitingForExecstat)
    (hr : (w'.core.svc i).proc.waitingRestartTimer=true →
      (w.core.svc i).proc.waitingRestartTimer=true) : w'.PsOk i := by
  rcases h with h | ⟨k,c,hc,hk,h1,h2,h3⟩
  · exact .inl (exitEntry_mono h hg hp he hr)
  refine .inr ⟨k,c,hg.mem hc,?_,hp.trans h1,he.trans h2,fun h => h3 (hr h)⟩
  rcases hk with hk | ⟨hk,hs,hpid,hw⟩ | hk
  · exact .inl hk
  · refine .inr (.inl ⟨hk,hs,hpid,?_⟩)
    by_contra hn
    rw [Bool.not_eq_false] at hn
    rw [hr hn] at hw
    cases hw
  · exact .inr (.inr hk)

theorem restartOk_mono {w w' : World} {i : Nat} (h : w.RestartOk i) (hg : Grows w w')
    (hp : (w'.core.svc i).proc.pid=(w.core.svc i).proc.pid)
    (he : (w'.core.svc i).proc.waitingForExecstat=(w.core.svc i).proc.waitingForExecstat)
    (hr : (w'.core.svc i).proc.waitingRestartTimer=true →
      (w.core.svc i).proc.waitingRestartTimer=true) : w'.RestartOk i := by
  rcases h with h | ⟨c,hc,ha,h1,h2,h3⟩
  · exact .inl (exitEntry_mono h hg hp he hr)
  · exact .inr ⟨c,hg.mem hc,ha,hp.trans h1,he.trans h2,fun h => h3 (hr h)⟩

theorem World.RestartOk.psOk {w : World} {i : Nat} (h : w.RestartOk i) : w.PsOk i := by
  rcases h with h | ⟨c,hc,-,h⟩
  · exact .inl h
  · exact .inr ⟨.bringUp i,c,hc,.inl rfl,h⟩

section
variable {w : World} {i : Nat} {f : Svc → Svc}
  (ha : (w.core.svc i).proc.Alike (f (w.core.svc i)).proc)
include ha

/-- An update of bookkeeping fields is on the way to `start_ps_process` still. -/
theorem psOk_setSvc (h : w.PsOk i) : (w.onCore fun c => c.setSvc i f).PsOk i :=
  psOk_mono h (grows_onCore w _) (by simpa using ha.pid) (by simpa using ha.waitingForExecstat)
    (by simp [ha.waitingRestartTimer])

theorem restartOk_setSvc (h : w.RestartOk i) : (w.onCore fun c => c.setSvc i f).RestartOk i :=
  restartOk_mono h (grows_onCore w _) (by simpa using ha.pid) (by simpa using ha.waitingForExecstat)
    (by simp [ha.waitingRestartTimer])

theorem exitEntry_setSvc (h : w.ExitEntry i) : (w.onCore fun c => c.setSvc i f).ExitEntry i :=
  exitEntry_mono h (grows_onCore w _) (by simpa using ha.pid) (by simpa using ha.waitingForExecstat)
    (by simp [ha.waitingRestartTimer])

end

theorem Svc.Kept.alike {s s' : Svc} (h : s.Kept s') : s.proc.Alike s'.proc where
  pid := h.pid
  waitingForExecstat := h.waitingForExecstat
  waitingRestartTimer := h.waitingRestartTimer
  childWatch := h.childWatch
  execPipe := h.execPipe
  stopPipe := h.stopPipe

theorem start_steps (w : World) (i : Nat) :
    ReflTransGen Step w (w.start i) ∧ (w.start i).ctx=w.ctx := by
  unfold World.start
  dsimp only
  split_ifs with hp he
  · exact ⟨.refl,rfl⟩
  · exact ⟨.single (.doStart i),(frame_doStart w i).ctx⟩
  · refine ⟨.tail (.single (.startExplicit i ?_ ?_)) (.doStart i),?_⟩
    · simpa using he
    · simpa using hp
    · exact (frame_doStart _ i).ctx

theorem chainTo_steps (w : World) (i : Nat) (b : Bool) :
    ReflTransGen Step w (w.chainTo i b) ∧ (w.chainTo i b).ctx=w.ctx := by
  unfold World.chainTo
  dsimp only
  split
  · split
    · exact ⟨.refl,rfl⟩
    · split
      · exact ⟨.refl,rfl⟩
      · next j _ => exact start_steps w j
  · exact ⟨.refl,rfl⟩

/-- A change of bookkeeping fields only. -/
theorem step_misc {w : World} (i : Nat) (f : Svc → Svc)
    (h : (w.core.svc i).Kept (f (w.core.svc i))) : Step w (w.onCore fun c => c.setSvc i f) :=
  .stop (.misc i f h)

/-- The timer is stopped if it runs for a start or stop timeout. -/
theorem step_stopTimer (w : World) (i : Nat) :
    Step w (w.onCore fun c => c.setProc i Proc.stopStopstartTimer) :=
  .stopTimer i (fun s => { s with proc := s.proc.stopStopstartTimer }) (by constructor <;> rfl)

theorem closeNotification_kept (s : Svc) : s.Kept { s with proc := s.proc.closeNotification } := by
  unfold Proc.closeNotification
  split_ifs <;> constructor <;> rfl

theorem Svc.Kept.refl (s : Svc) : s.Kept s := by constructor <;> rfl

section
variable {rec : Rec} (hrec : rec.Ok)
include hrec

theorem releaseConsole_within (i : Nat) (w : World) :
    Within Step (releaseConsole rec i) w (sameCtx w) := by
  unfold releaseConsole
  exact within_onCore (.releaseConsole i) (hrec.pullConsoleQueue _)

theorem releaseDependencies_within (i : Nat) (w : World)
    (hq : (w.core.svc i).propRequire=false) (hr : (w.core.svc i).propRelease=true) :
    Within Step (releaseDependencies rec i) w (sameCtx w) := by
  unfold releaseDependencies
  apply within_getSvc
  -- while the loop runs, the release stays due
  refine within_mono (within_forEach (I := fun u => u.ctx=w.ctx ∧
    (u.core.svc i).dependsOn=(w.core.svc i).dependsOn ∧ (u.core.svc i).propRequire=false ∧
    (u.core.svc i).propRelease=true) ⟨rfl,rfl,hq,hr⟩ ?_) fun _ _ _ h => h.1
  intro l hl u ⟨hx,hd,huq,hur⟩
  apply within_call (.call _ trivial)
  apply within_getLink
  apply within_ite
  · intro hh
    apply within_onCore (.dropLink i l (hd ▸ hl) hh hur rfl)
    have hk : (u.core.svc i).StopKept ((u.core.dropLink l (u.core.link l).to_).svc i) := by
      rw [Core.dropLink_svc]
      split
      · next h =>
        rw [← h]
        exact Svc.released_stopKept _
      · exact .refl _
    refine within_mono (within_stopSteps (stopReleased_within hrec.doStop _ _)) ?_
    intro _ v _ ⟨hf,_⟩
    have hk' := hk.trans (hf.svc i)
    exact ⟨hf.ctx.trans hx,hk'.links.dependsOn.trans hd,hk'.propRequire huq,hk'.propRelease huq hur⟩
  · intro _
    exact within_pure ⟨hx,hd,huq,hur⟩

theorem stopped_within (i : Nat) (w : World) : Within Step (stopped rec i) w (sameCtx w) := by
  unfold stopped
  apply within_call (.call _ trivial)
  apply within_getSvc
  dsimp only
  apply within_when_ctx
  · intro _
    exact releaseConsole_within hrec i _
  · intro w1 _ hx _
    apply within_getSvc
    apply within_step (.becomeStopped i)
    have hc := chainTo_steps (w1.becomeStopped i) i
      ((w1.core.svc i).desiredState==.started && !(w1.core.svc i).pinnedStopped)
    exact within_modify_steps hc.1 (hc.2.trans ((frame_becomeStopped w1 i).ctx.trans hx))

/-- `failed_to_start` with the assignments before it as one step. -/
theorem failedToStart_within (i : Nat) (b : Bool) (before : World → World) (w : World)
    (hs : Step w ((before w).cancelStart i b)) {x : List (Nat × Nat)}
    (hx : (before w).ctx=x) :
    Within Step (failedToStart rec i b before) w fun _ w' => w'.ctx=x := by
  unfold failedToStart
  apply within_step hs
  have hx' := (frame_cancelStart (before w) i b).ctx.trans hx
  apply within_ite
  · intro _
    refine within_mono (stopped_within hrec i _) ?_
    intro _ w' _ hw'
    exact hw'.trans hx'
  · intro _
    exact within_pure hx'

theorem started_within (i : Nat) (w : World) : Within Step (started rec i) w (sameCtx w) := by
  unfold started
  apply within_call (.call _ trivial)
  apply within_getSvc
  dsimp only
  apply within_when_ctx
  · intro _
    exact releaseConsole_within hrec i _
  · intro w1 _ hx _
    apply within_step (.becomeStarted i)
    have hx' := (frame_becomeStarted w1 i).ctx.trans hx
    apply within_getSvc
    apply within_ite
    · intro _
      refine within_mono (within_stop (hrec.doStop i false _)) ?_
      intro _ w' _ hw'
      exact hw'.trans hx'
    · intro _
      exact within_pure hx'

omit hrec in
theorem within_noteSys {β : Type} {w : World} {f : SysResult → M β} {Q : β → World → Prop}
    (h : ∀ r rs, Within Step (f r) { w with sys := rs } Q) : Within Step (sysResult >>= f) w Q :=
  within_sysResult (fun rs => .stop (.sys rs)) h

omit hrec in
/-- `start_ps_process` forks, or leaves the record as it was but for the start time. -/
theorem startPsProcess_within (i : Nat) (w : World) (h : w.PsOk i) :
    Within Step (startPsProcess i) w fun ok w' =>
      w'.ctx=w.ctx ∧ (ok=false → (w.core.svc i).Kept (w'.core.svc i)) ∧
        (ok=true → (w'.core.svc i).proc.pid≠-1) := by
  unfold startPsProcess
  apply within_call (.call _ h)
  apply within_getCore
  apply within_onCore (step_misc i _ (by constructor <;> rfl))
  apply within_noteSys
  intro r rs
  have hk : (w.core.svc i).Kept { w.core.svc i with
      proc := { (w.core.svc i).proc with lastStartTime := w.core.now } } := by
    constructor <;> rfl
  cases r.fork with
  | none =>
    refine within_pure ⟨rfl,fun _ => ?_,by simp⟩
    simpa using hk
  | some n =>
    apply within_getSvc
    apply within_onCore (.fork i n _ w.core (by simp) (by simpa using hk) (by constructor <;> rfl))
    refine within_pure ⟨rfl,by simp,fun _ => ?_⟩
    simp
    omega

omit hrec in
theorem cancelStart_step (w : World) (i : Nat) (b : Bool) : Step w (w.cancelStart i b) := by
  have hid : (w.onCore fun c => c.setSvc i id)=w := by
    have : w.core.setSvc i id=w.core := by
      simp only [Core.setSvc]
      congr 1
      funext j
      split
      · next h => rw [h]; rfl
      · rfl
    simp [World.onCore,this]
  have := Step.cancelStart (w := w) i b id (Svc.Kept.refl _)
  rwa [hid] at this

theorem doRestart_within (i : Nat) (w : World) (h : w.PsOk i)
    (hs : Step w (w.onCore fun c => c.setProc i fun p => { p with waitingRestartTimer := false })) :
    Within Step (doRestart rec i) w (sameCtx w) := by
  unfold doRestart
  apply within_onCore hs
  apply within_getSvc
  refine within_seq (startPsProcess_within i _ (psOk_mono h (grows_onCore w _) ?_ ?_ ?_)) ?_
  · simp
  · simp
  · simp
  intro ok w1 _ hw1
  have hx := hw1.1
  apply within_ite
  · intro hok
    exact within_modify (.armTimer i _ (hw1.2.2 hok)) hx
  · intro _
    dsimp only
    split
    · refine within_seq (failedToStart_within hrec i true id w1 (cancelStart_step w1 i true) hx) ?_
      intro _ w2 _ hw2
      refine within_mono (hrec.processQueues w2) ?_
      intro _ w3 _ hw3
      exact hw3.trans hw2
    · apply within_onCore (.unrecoverableStop i)
      refine within_mono (hrec.processQueues _) ?_
      intro _ w3 _ hw3
      exact hw3.trans hx

theorem restartPsProcess_within (i : Nat) (w : World) (h : w.RestartOk i) :
    Within Step (restartPsProcess rec i) w fun ok w' => w'.ctx=w.ctx ∧ ok=true := by
  unfold restartPsProcess
  apply within_getSvc
  apply within_getCore
  dsimp only
  apply within_ite
  · intro _
    refine within_seq (doRestart_within hrec i w h.psOk (.noRestartTimer i h)) ?_
    intro _ w1 _ hx
    exact within_pure ⟨hx,rfl⟩
  · intro _
    apply within_onCore (.restartTimer i h)
    exact within_pure ⟨rfl,rfl⟩

theorem doSmoothRecovery_within (i : Nat) (w : World) (h : w.RestartOk i) :
    Within Step (doSmoothRecovery rec i) w (sameCtx w) := by
  unfold doSmoothRecovery
  refine within_seq (restartPsProcess_within hrec i w h) ?_
  intro ok w1 _ ⟨hx,hok⟩
  rw [if_pos hok]
  exact within_pure hx

omit hrec in
theorem openSocket_within (i : Nat) (w : World) :
    Within Step (openSocket i) w fun _ w' =>
      w'.ctx=w.ctx ∧ Grows w w' ∧ (w.core.svc i).Kept (w'.core.svc i) ∧
        (w'.core.svc i).inAutoRestart=(w.core.svc i).inAutoRestart := by
  unfold openSocket
  apply within_getSvc
  apply within_ite
  · intro _
    exact within_pure ⟨rfl,Grows.refl w,Svc.Kept.refl _,rfl⟩
  · intro _
    apply within_noteSys
    intro r rs
    apply within_onCore (step_misc i _ (by constructor <;> rfl))
    refine within_pure ⟨rfl,⟨[],rfl⟩,?_,by simp⟩
    simp
    constructor <;> rfl

theorem procBringUp_within (i : Nat) (w : World) (hc : (Call.bringUp i,w.core) ∈ w.trace) :
    Within Step (procBringUp rec i) w fun ok w' => w'.ctx=w.ctx ∧
      (ok=false → (w'.core.svc i).serviceState=(w.core.svc i).serviceState ∧
        (w'.core.svc i).waitingForDeps=(w.core.svc i).waitingForDeps) := by
  unfold procBringUp
  refine within_seq (openSocket_within i w) ?_
  intro open_ w1 _ ⟨hx,hg,hk,ha⟩
  have hr1 (h : (w1.core.svc i).proc.waitingRestartTimer=true) :
      (w.core.svc i).proc.waitingRestartTimer=true := hk.waitingRestartTimer ▸ h
  have h1 : w1.PsOk i :=
    .inr ⟨_,_,hg.mem hc,.inl rfl,hk.pid,hk.waitingForExecstat,hr1⟩
  apply within_ite
  · intro _
    exact within_pure ⟨hx,fun _ => ⟨hk.serviceState,hk.waitingForDeps⟩⟩
  · intro _
    apply within_getSvc
    apply within_ite
    · intro hauto
      refine within_mono (restartPsProcess_within hrec i w1
        (.inr ⟨_,hg.mem hc,ha ▸ hauto,hk.pid,hk.waitingForExecstat,hr1⟩)) ?_
      intro ok w2 _ ⟨hx2,hok⟩
      exact ⟨hx2.trans hx,by simp [hok]⟩
    · intro _
      apply within_onCore (step_misc i _ (by constructor <;> rfl))
      refine within_seq (startPsProcess_within i _ (psOk_setSvc (by constructor <;> rfl) h1)) ?_
      intro ok w2 _ ⟨hx2,hk2,hp2⟩
      apply within_onCore (step_misc i _ (by constructor <;> rfl))
      have hk3 (hok : ok=false) : (w2.core.svc i).serviceState=(w.core.svc i).serviceState ∧
          (w2.core.svc i).waitingForDeps=(w.core.svc i).waitingForDeps := by
        have hs := (hk2 hok).serviceState
        have hd := (hk2 hok).waitingForDeps
        simp at hs hd
        exact ⟨hs.trans hk.serviceState,hd.trans hk.waitingForDeps⟩
      dsimp only
      apply within_ite
      · intro hok
        apply within_onCore (.startTimer i _ (by simpa using hp2 hok))
        exact within_pure ⟨hx2.trans hx,by simp [hok]⟩
      · intro _
        exact within_pure ⟨hx2.trans hx,fun hok => by simpa using hk3 hok⟩

theorem bringUp_within (i : Nat) (w : World) (h : w.DepsUp i)
    (hs : (w.core.svc i).serviceState=.starting) (hd : (w.core.svc i).waitingForDeps=false) :
    Within Step (bringUp rec i) w fun ok w' => w'.ctx=w.ctx ∧
      (ok=false → (w'.core.svc i).serviceState=.starting ∧
        (w'.core.svc i).waitingForDeps=false) := by
  unfold bringUp
  apply within_call (.call _ h)
  apply within_getSvc
  apply within_ite
  · intro _
    refine within_mono (procBringUp_within hrec i _ (by simp)) ?_
    intro ok w' _ hw'
    exact ⟨hw'.1,fun h => ⟨(hw'.2 h).1.trans hs,(hw'.2 h).2.trans hd⟩⟩
  · intro _
    have hstarted (w : World) : Within Step (started rec i >>= fun _ => (return true : M Bool)) w
        fun ok w' => w'.ctx=w.ctx ∧ (ok=false → (w'.core.svc i).serviceState=.starting ∧
          (w'.core.svc i).waitingForDeps=false) := by
      refine within_seq (started_within hrec i w) ?_
      intro _ w' _ hx
      exact within_pure ⟨hx,by simp⟩
    dsimp only
    apply within_ite
    · intro _
      apply within_ite
      · intro _
        exact hstarted _
      · intro _
        exact within_pure ⟨rfl,by simp⟩
    · intro _
      exact hstarted _

omit hrec in
theorem startStopProcess_within (i : Nat) (w : World) (hp : (w.core.svc i).proc.pid≠-1)
    (he : (w.core.svc i).proc.waitingForExecstat=false) (hs : (w.core.svc i).proc.stopPid=-1) :
    Within Step (startStopProcess i) w fun _ w' =>
      w'.ctx=w.ctx ∧ (w'.core.svc i).proc.pid=(w.core.svc i).proc.pid := by
  unfold startStopProcess
  apply within_noteSys
  intro r rs
  cases r.fork with
  | none => exact within_pure ⟨rfl,rfl⟩
  | some n =>
    apply within_onCore (.forkStop i n hp he hs)
    exact within_pure ⟨rfl,by simp⟩

omit hrec in
theorem runStopCommand_within (i : Nat) (w : World) (hp : (w.core.svc i).proc.pid≠-1)
    (he : (w.core.svc i).proc.waitingForExecstat=false) (hs : (w.core.svc i).proc.stopPid=-1) :
    Within Step (runStopCommand i) w fun _ w' =>
      w'.ctx=w.ctx ∧ (w'.core.svc i).proc.pid=(w.core.svc i).proc.pid := by
  unfold runStopCommand
  apply within_getSvc
  apply within_ite
  · intro _
    exact startStopProcess_within i w hp he hs
  · intro _
    exact within_pure ⟨rfl,rfl⟩

omit hrec in
theorem killPg_ctx (i signo : Nat) (w : World) (hp : (w.core.svc i).proc.pid≠-1) :
    Within Step (killPg i signo) w fun _ w' => w'.ctx=w.ctx ∧ w'.core=w.core :=
  within_mono (within_stopSteps (killPg_within i signo w (.inl hp)))
    fun _ _ _ h => ⟨h.1.ctx,h.2.1⟩

omit hrec in
theorem signalStop_within (i : Nat) (w : World) (hp : (w.core.svc i).proc.pid≠-1) :
    Within Step (signalStop i) w fun _ w' => w'.ctx=w.ctx ∧ w'.core=w.core := by
  unfold signalStop
  apply within_getSvc
  apply within_ite
  · intro _
    exact killPg_ctx i _ w hp
  · intro _
    apply within_ite
    · intro _
      exact killPg_ctx i _ w hp
    · intro _
      exact within_pure ⟨rfl,rfl⟩

omit hrec in
theorem stopWasIssued_within (i : Nat) (w : World) (hp : (w.core.svc i).proc.pid≠-1) :
    Within Step (stopWasIssued i) w (sameCtx w) := by
  unfold stopWasIssued
  apply within_getSvc
  apply within_onCore (.stopIssued i true)
  exact within_modify (.armTimer i _ (by simpa using hp)) rfl

theorem processBringDown_within (i : Nat) (w : World) :
    Within Step (processBringDown rec i) w (sameCtx w) := by
  unfold processBringDown
  apply within_getSvc
  apply within_ite
  · intro _
    exact within_pure rfl
  intro hstop
  apply within_ite
  · intro _
    exact within_pure rfl
  intro hexec
  apply within_ite
  · intro hp
    refine within_seq (runStopCommand_within i w hp (by simpa using hexec) ?_) ?_
    · by_contra hn
      exact hstop (.inl hn)
    · intro ran w1 _ ⟨hx,hpid⟩
      apply within_ite
      · intro _
        refine within_mono (stopWasIssued_within i w1 (hpid ▸ hp)) ?_
        intro _ w2 _ hx2
        exact hx2.trans hx
      · intro _
        refine within_seq (signalStop_within i w1 (hpid ▸ hp)) ?_
        intro _ w2 _ ⟨hx2,hw2⟩
        apply within_getSvc
        apply within_ite
        · intro _
          refine within_mono (stopped_within hrec i w2) ?_
          intro _ w3 _ hx3
          exact hx3.trans (hx2.trans hx)
        · intro _
          refine within_mono (stopWasIssued_within i w2 (by rw [hw2,hpid]; exact hp)) ?_
          intro _ w3 _ hx3
          exact hx3.trans (hx2.trans hx)
  · intro _
    apply within_onCore (step_misc i _ (by constructor <;> rfl))
    dsimp only
    apply within_when_ctx
    · intro hr
      exact within_modify (.stopRestartTimer i (by simpa using hr)) rfl
    · intro w1 _ hx _
      refine within_mono (stopped_within hrec i w1) ?_
      intro _ w2 _ hx2
      exact hx2.trans hx

theorem scriptedBringDown_within (i : Nat) (w : World)
    (h : (w.core.svc i).proc.pid=-1 → w.PsOk i) :
    Within Step (scriptedBringDown rec i) w (sameCtx w) := by
  unfold scriptedBringDown
  apply within_getSvc
  apply within_ite
  · intro _
    exact within_pure rfl
  intro hp
  apply within_ite
  · intro _
    exact stopped_within hrec i w
  intro _
  refine within_seq (startPsProcess_within i w (h (by simpa using hp))) ?_
  intro ok w1 _ ⟨hx,_,hp1⟩
  apply within_ite
  · intro hok
    exact within_modify (.armTimer i _ (hp1 hok)) hx
  · intro _
    refine within_mono (stopped_within hrec i w1) ?_
    intro _ w2 _ hx2
    exact hx2.trans hx

theorem bringDown_within (i : Nat) (w : World) (hc : (Call.bringDown i,w.core) ∈ w.trace) :
    Within Step (bringDown rec i) w (sameCtx w) := by
  unfold bringDown
  apply within_getSvc
  apply within_ite
  · intro _
    exact processBringDown_within hrec i w
  intro _
  apply within_ite
  · intro ht
    apply scriptedBringDown_within hrec i w
    intro hp
    exact .inr ⟨_,w.core,hc,.inr (.inr ⟨rfl,ht,hp⟩),rfl,rfl,id⟩
  · intro _
    exact stopped_within hrec i w

theorem handleUnexpectedTermination_within (i : Nat) (w : World) :
    Within Step (handleUnexpectedTermination rec i) w (sameCtx w) := by
  unfold handleUnexpectedTermination
  apply within_onCore (.setForceStop i _ (by constructor <;> rfl))
  refine within_seq (within_stop (hrec.doStop i false _)) ?_
  intro _ w1 _ hx1
  refine within_seq (hrec.processQueues w1) ?_
  intro _ w2 _ hx2
  apply within_getSvc
  apply within_ite
  · intro ⟨hs,hd,hp⟩
    apply within_step (.initiateStart i hs hd (by simpa using hp))
    refine within_mono (hrec.processQueues _) ?_
    intro _ w3 _ hx3
    exact hx3.trans ((frame_initiateStart w2 i).ctx.trans (hx2.trans hx1))
  · intro _
    exact within_pure (hx2.trans hx1)

theorem processExitStopping_within (i : Nat) (w : World)
    (hs : (w.core.svc i).serviceState=.stopping) :
    Within Step (processExitStopping rec i) w (sameCtx w) := by
  unfold processExitStopping
  apply within_getSvc
  apply within_ite
  · intro _
    apply within_ite
    · intro _
      apply within_onCore (.stopIssued i false)
      exact stopped_within hrec i _
    · intro _
      exact within_pure rfl
  · intro _
    apply within_ite
    · intro ⟨hd,hp⟩
      exact within_modify (.initiateStart i hs hd (by simpa using hp)) (frame_initiateStart w i).ctx
    · intro _
      exact within_pure rfl

omit hrec in
theorem smoothRestart_within (i : Nat) (wanted : Bool) (w : World) :
    Within Step (smoothRestart i wanted) w fun _ w' => StopFrame w w' ∧
      (w'.core.svc i).proc.waitingRestartTimer=(w.core.svc i).proc.waitingRestartTimer := by
  unfold smoothRestart
  apply within_ite
  · intro _
    exact within_stopSteps (checkRestart_within i w)
  · intro _
    exact within_pure ⟨StopFrame.refl w,rfl⟩

end
end Dinit
