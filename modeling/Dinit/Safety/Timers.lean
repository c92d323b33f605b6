import Dinit.Run.Reachable

namespace Dinit

open Framework Framework.Comp World Relation

/-- The process timer has one purpose at a time, and runs if it has one. Neither purpose is
that of a process without a timer to it: a restart is waited for when there is no process,
and a start or stop timeout runs for one that is there. -/
structure Proc.TimerOk (p : Proc) : Prop where
  exclusive : p.waitingRestartTimer=true → p.waitingStopstartTimer=false
  restart : p.waitingRestartTimer=true → p.timerArmed=true ∧ p.timerFor=.restart
  stopstart : p.waitingStopstartTimer=true → p.timerArmed=true ∧ p.timerFor=.stopstart
  armed : p.timerArmed=true → p.waitingRestartTimer=true ∨ p.waitingStopstartTimer=true
  delay : p.waitingRestartTimer=true → p.pid=-1 ∧ p.waitingForExecstat=false
  timed : p.waitingStopstartTimer=true → p.pid≠-1
  execPipe : p.execPipe=true → p.waitingForExecstat=true
  stopPipe : p.stopPipe=true → p.waitingForExecstat=true ∧ p.execPipe=false
  childWatch : p.childWatch=true → p.pid≠-1

namespace Proc.TimerOk

variable {p p' : Proc}

theorem same (h : p.TimerOk) (hs : p.Same p') : p'.TimerOk := by
  obtain ⟨h1,h2,h3,h4,h5,h6,h7,h8,h9⟩ := h
  constructor <;> simp only [hs.pid,hs.waitingForExecstat,hs.waitingRestartTimer,
    hs.waitingStopstartTimer,hs.timerArmed,hs.timerFor,hs.childWatch,hs.execPipe,hs.stopPipe] <;>
    assumption

/-- Of the stop command nothing matters here but that its exec status is pending. -/
theorem other (h : p.TimerOk) (issued tracking watch : Bool) (pid : Int) : Proc.TimerOk { p with
    stopIssued := issued, trackingChild := tracking, stopWatch := watch, stopPid := pid } :=
  ⟨h.exclusive,h.restart,h.stopstart,h.armed,h.delay,h.timed,h.execPipe,h.stopPipe,h.childWatch⟩

theorem noDelay (h : p.TimerOk) (hp : p.pid≠-1) : p.waitingRestartTimer=false := by
  by_contra hr
  exact hp (h.delay (by simpa using hr)).1

theorem noTimeout (h : p.TimerOk) (hp : p.pid=-1) : p.waitingStopstartTimer=false := by
  by_contra hs
  exact h.timed (by simpa using hs) hp

theorem noWatch (h : p.TimerOk) (hp : p.pid=-1) : p.childWatch=false := by
  by_contra hc
  exact h.childWatch (by simpa using hc) hp

theorem noPipes (h : p.TimerOk) (he : p.waitingForExecstat=false) :
    p.execPipe=false ∧ p.stopPipe=false := by
  constructor
  · by_contra hx
    simpa [he] using h.execPipe (by simpa using hx)
  · by_contra hx
    simpa [he] using h.stopPipe (by simpa using hx)

theorem stopRestartTimer (h : p.TimerOk) (hr : p.waitingRestartTimer=true) :
    p.stopRestartTimer.TimerOk := by
  have hs := h.exclusive hr
  obtain ⟨hp,he⟩ := h.delay hr
  constructor <;> simp [Proc.stopRestartTimer,hs]
  · exact h.execPipe
  · exact h.stopPipe
  · exact h.childWatch

theorem restartTimer (h : p.TimerOk) (hp : p.pid=-1) (he : p.waitingForExecstat=false) :
    Proc.TimerOk { p with timerArmed := true, timerFor := .restart, waitingRestartTimer := true } := by
  have hs := h.noTimeout hp
  have hx := h.noPipes he
  constructor <;> simp [hs,hp,he,hx,h.noWatch hp]

theorem stopStopstartTimer (h : p.TimerOk) : p.stopStopstartTimer.TimerOk := by
  unfold Proc.stopStopstartTimer
  split_ifs with hs
  · have hr := h.noDelay (h.timed hs)
    constructor <;> simp [hr]
    · exact h.execPipe
    · exact h.stopPipe
    · exact h.childWatch
  · exact h

theorem armStopstartTimer (h : p.TimerOk) (hp : p.pid≠-1) (t : Nat) :
    (p.armStopstartTimer t).TimerOk := by
  unfold Proc.armStopstartTimer
  split_ifs with ht
  · have hr := h.noDelay hp
    constructor <;> simp [hr,hp]
    · exact h.execPipe
    · exact h.stopPipe
  · exact h

theorem resetStopstartTimer (h : p.TimerOk) (hp : p.pid≠-1) (t : Nat) :
    (p.resetStopstartTimer t).TimerOk := by
  unfold Proc.resetStopstartTimer
  split_ifs
  · exact h.armStopstartTimer hp t
  · exact h.stopStopstartTimer

theorem fork (h : p.TimerOk) (hr : p.waitingRestartTimer=false)
    (he : p.waitingForExecstat=false) (n : Nat) : Proc.TimerOk { p with
      pid := n+1, waitingForExecstat := true, childWatch := true, execPipe := true } := by
  have hn : (n : Int)+1≠-1 := by omega
  constructor <;> simp [hr,hn,h.noPipes he]
  · exact h.stopstart
  · simpa [hr] using h.armed

theorem forkStop (h : p.TimerOk) (hp : p.pid≠-1) (he : p.waitingForExecstat=false) (n : Nat) :
    Proc.TimerOk { p with
      stopPid := n+1, waitingForExecstat := true, stopWatch := true, stopPipe := true } := by
  have hr := h.noDelay hp
  constructor <;> simp [hr,hp,h.noPipes he]
  · exact h.stopstart
  · simpa [hr] using h.armed

/-- `read_pid_file`, with no process left and none to come. -/
theorem readPid (h : p.TimerOk) (hp : p.pid=-1) (he : p.waitingForExecstat=false)
    (hr : p.waitingRestartTimer=false) {pid : Int} {tracking watch : Bool}
    (hw : pid=-1 ∧ watch=p.childWatch ∨ pid≠-1) :
    Proc.TimerOk { p with pid := pid, trackingChild := tracking, childWatch := watch } := by
  have hs := h.noTimeout hp
  have harm : p.timerArmed=false := by
    by_contra ha
    simpa [hr,hs] using h.armed (by simpa using ha)
  constructor <;> simp [hr,hs,harm,h.noPipes he]
  rcases hw with ⟨-,rfl⟩ | hw
  · simp [h.noWatch hp]
  · exact fun _ => hw

theorem reaped (h : p.TimerOk) (hs : p.waitingForExecstat=true → p.waitingStopstartTimer=false)
    (status : ProcStatus) : (p.reaped status).TimerOk := by
  unfold Proc.reaped
  split_ifs with he
  · have hr : p.waitingRestartTimer=false := by
      by_contra hr
      simpa [he] using (h.delay (by simpa using hr)).2
    have harm : p.timerArmed=false := by
      by_contra ha
      simpa [hr,hs he] using h.armed (by simpa using ha)
    constructor <;> simp [hr,hs he,harm,he]
    exact fun hx => (h.stopPipe hx).2
  · have he : p.waitingForExecstat=false := by simpa using he
    have h' := h.stopStopstartTimer
    have hs' : p.stopStopstartTimer.waitingStopstartTimer=false := by
      unfold Proc.stopStopstartTimer
      split_ifs with hs
      · rfl
      · simpa using hs
    have ha := p.stopStopstartTimer_alike
    have he' := ha.waitingForExecstat.trans he
    constructor <;> simp [hs',he',h'.noPipes he']
    · exact h'.restart
    · simpa [hs'] using h'.armed

theorem forget (h : p.TimerOk) : p.forget.TimerOk := by
  unfold Proc.forget
  split_ifs with hp
  · have h' := h.stopStopstartTimer
    have ha := p.stopStopstartTimer_alike
    have hr : p.stopStopstartTimer.waitingRestartTimer=false := ha.waitingRestartTimer.trans (h.noDelay hp)
    have hs : p.stopStopstartTimer.waitingStopstartTimer=false := by
      unfold Proc.stopStopstartTimer
      split_ifs with hs
      · rfl
      · simpa using hs
    constructor <;> simp [hr,hs]
    · simpa [hr,hs] using h'.armed
    · exact h'.execPipe
    · exact h'.stopPipe
  · exact h

theorem seen (h : p.TimerOk) (hx : p.execPipe=true) :
    Proc.TimerOk { p with waitingForExecstat := false, execPipe := false } := by
  have hs : p.stopPipe=false := by
    by_contra hs
    simpa [hx] using (h.stopPipe (by simpa using hs)).2
  constructor <;> simp [hs]
  · exact h.exclusive
  · exact h.restart
  · exact h.stopstart
  · exact h.armed
  · exact fun hr => (h.delay hr).1
  · exact h.timed
  · exact h.childWatch

theorem stopSeen (h : p.TimerOk) (hx : p.stopPipe=true) :
    Proc.TimerOk { p with waitingForExecstat := false, stopPipe := false } := by
  have hs := (h.stopPipe hx).2
  constructor <;> simp [hs]
  · exact h.exclusive
  · exact h.restart
  · exact h.stopstart
  · exact h.armed
  · exact fun hr => (h.delay hr).1
  · exact h.timed
  · exact h.childWatch

end Proc.TimerOk

theorem Svc.timerOk_timedOut {s : Svc} (h : s.proc.TimerOk)
    (hs : s.serviceState=.stopping → s.proc.waitingRestartTimer=false) :
    s.timedOut.proc.TimerOk := by
  have hr : s.timedOut.proc.waitingRestartTimer=false := by
    unfold Svc.timedOut
    by_cases hr : s.proc.waitingRestartTimer=true
    · have hp := (h.delay hr).1
      have hn : s.serviceState≠.stopping := fun hst => by simp [hs hst] at hr
      simp [hp,hn]
    · simp [hr]
  constructor
  · exact fun _ => rfl
  · simp [hr]
  · exact fun hc => by cases hc
  · exact fun hc => by cases hc
  · simp [hr]
  · exact fun hc => by cases hc
  · exact h.execPipe
  · exact h.stopPipe
  · exact h.childWatch

/-- A service is brought up, and a script brought down, when no restart delay and no exec
status of it is pending, and after a delay when it has no process. A restart delay is not
over while the service is STOPPING. A child is not reaped between its exec and the news of
it while a timeout runs, a start is interrupted while there is a process to it, and an exit
is dealt with when no restart is waited for. -/
def TimerCond : Call × Core → Prop
  | (.bringUp i,c) => (c.svc i).proc.waitingRestartTimer=false ∧
      (c.svc i).proc.waitingForExecstat=false ∧
      ((c.svc i).inAutoRestart=true → (c.svc i).proc.pid=-1)
  | (.bringDown i,c) => (c.svc i).getType=.scripted → (c.svc i).proc.pid=-1 →
      (c.svc i).proc.waitingRestartTimer=false ∧ (c.svc i).proc.waitingForExecstat=false
  | (.timerExpired i,c) =>
      (c.svc i).serviceState=.stopping → (c.svc i).proc.waitingRestartTimer=false
  | (.childTerminated i,c) =>
      (c.svc i).proc.waitingForExecstat=true → (c.svc i).proc.waitingStopstartTimer=false
  | (.interruptStart i,c) => (c.svc i).isProcess=true →
      (c.svc i).proc.waitingRestartTimer=false → (c.svc i).proc.pid≠-1
  | (.handleExitStatus i,c) => (c.svc i).proc.waitingRestartTimer=false
  | (.handleExitAgain i,c) => (c.svc i).proc.waitingRestartTimer=false ∧
      (c.svc i).proc.waitingForExecstat=false ∧ (c.svc i).proc.pid=-1
  | _ => True

instance : DecidablePred TimerCond
  | (.bringUp i,c) => inferInstanceAs (Decidable ((c.svc i).proc.waitingRestartTimer=false ∧
      (c.svc i).proc.waitingForExecstat=false ∧
      ((c.svc i).inAutoRestart=true → (c.svc i).proc.pid=-1)))
  | (.bringDown i,c) => inferInstanceAs (Decidable (
      (c.svc i).getType=.scripted → (c.svc i).proc.pid=-1 →
      (c.svc i).proc.waitingRestartTimer=false ∧ (c.svc i).proc.waitingForExecstat=false))
  | (.timerExpired i,c) => inferInstanceAs (Decidable (
      (c.svc i).serviceState=.stopping → (c.svc i).proc.waitingRestartTimer=false))
  | (.childTerminated i,c) => inferInstanceAs (Decidable (
      (c.svc i).proc.waitingForExecstat=true → (c.svc i).proc.waitingStopstartTimer=false))
  | (.interruptStart i,c) => inferInstanceAs (Decidable ((c.svc i).isProcess=true →
      (c.svc i).proc.waitingRestartTimer=false → (c.svc i).proc.pid≠-1))
  | (.handleExitStatus i,c) => inferInstanceAs (Decidable (
      (c.svc i).proc.waitingRestartTimer=false))
  | (.handleExitAgain i,c) => inferInstanceAs (Decidable (
      (c.svc i).proc.waitingRestartTimer=false ∧
      (c.svc i).proc.waitingForExecstat=false ∧ (c.svc i).proc.pid=-1))
  | (.stopped _,_) | (.initiateStart _,_) | (.doPropagation _,_) | (.executeTransition _,_)
  | (.doStart _,_) | (.doStop _ _,_) | (.stopDependent _ _,_) | (.allDepsStarted _,_)
  | (.acquiredConsole _,_) | (.started _,_) | (.failedToStart _ _,_) | (.startPsProcess _,_)
  | (.killPg _ _,_) | (.getpgid _ _,_) | (.kill _ _,_) | (.killAll _,_) | (.execStatus _ _,_)
  | (.stopExecStatus _ _,_) | (.stopChildTerminated _,_) | (.addTransitionQueue _,_)
  | (.unpin _,_) | (.addDep _ _ _,_) | (.rmDep _,_) | (.startDep _,_)
  | (.releaseDependency _,_) | (.logServiceStarted _,_) | (.startCancelled _,_)
  | (.readyNotify _,_) => .isTrue trivial

/-- The calls to which a timer matters have been made as they should be. -/
def TimerCalls : Call × Core → Prop
  | (.handleExitStatus i,c) | (.handleExitAgain i,c) => (c.svc i).proc.pid=-1 ∧
      (c.svc i).proc.waitingForExecstat=false ∧ (c.svc i).proc.waitingRestartTimer=false
  | (.startPsProcess i,c) =>
      (c.svc i).proc.waitingForExecstat=false ∧ (c.svc i).proc.waitingRestartTimer=false
  | (.timerExpired i,c) =>
      ((c.svc i).proc.timerFor=.restart ↔
        (c.svc i).serviceState≠.stopping ∧ (c.svc i).proc.pid=-1) ∧
      ((c.svc i).serviceState≠.stopping → (c.svc i).proc.pid=-1 →
        (c.svc i).proc.waitingForExecstat=false)
  | _ => True

/-- The timer is taken for what it was armed for. -/
theorem timerOk_expired {c : Core} {i : Nat} (h : (c.svc i).proc.TimerOk)
    (ha : (c.svc i).proc.timerArmed=true)
    (hs : (c.svc i).serviceState=.stopping → (c.svc i).proc.waitingRestartTimer=false) :
    TimerCalls (.timerExpired i,c.setProc i fun p => { p with timerArmed := false }) := by
  simp only [TimerCalls,Core.setProc_eq,Core.setSvc_svc,if_true]
  rcases h.armed ha with hr | ht
  · obtain ⟨hp,he⟩ := h.delay hr
    have hn : (c.svc i).serviceState≠.stopping := fun hst => by simp [hs hst] at hr
    simp [(h.restart hr).2,hp,he,hn]
  · simp [(h.stopstart ht).2,h.timed ht]

namespace World

/-- Every timer has its one purpose, and has been taken for that. -/
structure TimersOk (w : World) : Prop where
  core : ∀ i, (w.core.svc i).proc.TimerOk
  calls : ∀ e ∈ w.trace, TimerCalls e

variable {w w' : World} {i : Nat}

theorem TimersOk.exitEntry (h : w.TimersOk) (hx : w.ExitEntry i) :
    (w.core.svc i).proc.pid=-1 ∧ (w.core.svc i).proc.waitingForExecstat=false ∧
      (w.core.svc i).proc.waitingRestartTimer=false := by
  obtain ⟨k,c,hc,hk,hp,he,hr⟩ := hx
  have hcall : TimerCalls (k,c) := h.calls _ hc
  have hfacts : (c.svc i).proc.pid=-1 ∧ (c.svc i).proc.waitingForExecstat=false ∧
      (c.svc i).proc.waitingRestartTimer=false := by
    rcases hk with rfl | rfl
    · exact hcall
    · exact hcall
  refine ⟨hp.trans hfacts.1,he.trans hfacts.2.1,?_⟩
  by_contra hn
  rw [hr (by simpa using hn)] at hfacts
  cases hfacts.2.2

theorem TimersOk.restartOk (h : w.TimersOk) (hok : ∀ e ∈ w.trace, TimerCond e)
    (hx : w.RestartOk i) : (w.core.svc i).proc.pid=-1 ∧
      (w.core.svc i).proc.waitingForExecstat=false ∧
      (w.core.svc i).proc.waitingRestartTimer=false := by
  rcases hx with hx | ⟨c,hc,ha,hp,he,hr⟩
  · exact h.exitEntry hx
  · obtain ⟨h1,h2,h3⟩ : TimerCond (.bringUp i,c) := hok _ hc
    refine ⟨hp.trans (h3 ha),he.trans h2,?_⟩
    by_contra hn
    rw [hr (by simpa using hn)] at h1
    cases h1

theorem TimersOk.psOk (h : w.TimersOk) (hok : ∀ e ∈ w.trace, TimerCond e) (hx : w.PsOk i) :
    (w.core.svc i).proc.waitingForExecstat=false ∧
      (w.core.svc i).proc.waitingRestartTimer=false := by
  rcases hx with hx | ⟨k,c,hc,hk,hp,he,hr⟩
  · exact (h.exitEntry hx).2
  have hlate (h0 : (c.svc i).proc.waitingRestartTimer=false) :
      (w.core.svc i).proc.waitingRestartTimer=false := by
    by_contra hn
    rw [hr (by simpa using hn)] at h0
    cases h0
  rcases hk with rfl | ⟨rfl,hs,hpid,hw⟩ | ⟨rfl,ht,hpid⟩
  · obtain ⟨h1,h2,-⟩ : TimerCond (.bringUp i,c) := hok _ hc
    exact ⟨he.trans h2,hlate h1⟩
  · have hcall : TimerCalls (.timerExpired i,c) := h.calls _ hc
    exact ⟨he.trans (hcall.2 hs hpid),hw⟩
  · have hcond : TimerCond (.bringDown i,c) := hok _ hc
    exact ⟨he.trans (hcond ht hpid).2,hlate (hcond ht hpid).1⟩

theorem TimersOk.procStep (h : w.TimersOk) (hok : ∀ e ∈ w.trace, TimerCond e) {p : Proc}
    (hs : ProcStep w i p) : p.TimerOk := by
  have hi := h.core i
  cases hs with
  | same h => exact hi.same h
  | noRestart hr h => exact (hi.stopRestartTimer hr).same h
  | notWaiting hx h' =>
    have hr := (h.restartOk hok hx).2.2
    refine hi.same (.trans ?_ h')
    constructor <;> first | rfl | exact hr.symm
  | restart hx h' =>
    obtain ⟨hp,he,-⟩ := h.restartOk hok hx
    exact (hi.restartTimer hp he).same h'
  | stopTimer h => exact hi.stopStopstartTimer.same h
  | armTimer t hp h => exact (hi.armStopstartTimer hp t).same h
  | resetTimer t hp h' =>
    have hp : (w.core.svc i).proc.pid≠-1 := by
      rcases hp with hp | ⟨c,hc,hcs,hproc,hr⟩
      · exact hp
      · have hcond : TimerCond (.interruptStart i,c) := hok _ hc
        rw [hcs] at hproc hr ⊢
        exact hcond hproc hr
    exact (hi.resetStopstartTimer hp t).same h'
  | fork n c hc hk h' =>
    obtain ⟨he,hr⟩ : TimerCalls (.startPsProcess i,c) := h.calls _ (List.mem_of_mem_head? hc)
    exact (hi.fork (hk.waitingRestartTimer.trans hr) (hk.waitingForExecstat.trans he) n).same h'
  | forkStop n hp he _ h => exact (hi.forkStop hp he n).same h
  | stopIssued b h => exact (hi.other b _ _ _).same h
  | readPid hx _ _ ht h' =>
    obtain ⟨hp,he,hr⟩ := h.exitEntry hx
    refine (hi.readPid hp he hr ?_).same h'
    rcases ht with ht | ht
    · exact .inl ht
    · exact .inr ht.1
  | tracking h => exact (hi.other _ true _ _).same h

theorem TimersOk.eventStep (h : w.TimersOk) (hs : EventStep w w')
    (hok : ∀ e ∈ w'.trace, TimerCond e) : w'.TimersOk := by
  have hokw : ∀ e ∈ w.trace, TimerCond e := fun e he => hok e (hs.grows.mem he)
  refine ⟨fun i => ?_,fun e he => ?_⟩
  · have hi := h.core i
    cases hs.proc i with
    | step hp => exact h.procStep hokw hp
    | expire hc _ h' =>
      have hcond : TimerCond (.timerExpired i,_) := hok _ (List.mem_of_mem_head? hc)
      exact (Svc.timerOk_timedOut hi (by simpa [TimerCond] using hcond)).same h'
    | seen _ _ hx h' => exact (hi.seen hx).same h'
    | forget _ _ h' => exact hi.forget.same h'
    | stopSeen _ _ hx h' => exact (hi.stopSeen hx).same h'
    | stopForget _ _ h' => exact (hi.other _ _ false _).same h'
    | reaped hc h' =>
      obtain ⟨status,h'⟩ := h'
      have hcond : TimerCond (.childTerminated i,w.core) := hokw _ (List.mem_of_mem_head? hc)
      exact (hi.reaped hcond status).same h'
    | stopReaped _ h' => exact (hi.other _ _ false _).same h'
  · rcases hs.entered e he with he | hent
    · exact h.calls e he
    have hcond := hok e he
    obtain ⟨k,c⟩ := e
    cases hent with
    | minor _ _ hm => cases k <;> trivial
    | popConsole => trivial
    | popPropagation => trivial
    | popTransition => trivial
    | doStop => trivial
    | stopDependent => trivial
    | interruptStart => trivial
    | killPg => trivial
    | getpgid => trivial
    | kill => trivial
    | call _ hk =>
      cases k with
      | handleExitStatus i => exact ⟨hk.1,hk.2.1,hcond⟩
      | handleExitAgain i => exact ⟨hcond.2.2,hcond.2.1,hcond.1⟩
      | startPsProcess i => exact h.psOk hokw hk
      | timerExpired i => exact hk.elim
      | _ => trivial
    | event _ hk => cases k <;> trivial
    | expire i ha => exact timerOk_expired (h.core i) ha (by simpa [TimerCond] using hcond)

end World

theorem load_timersOk (c : Core) (h : c.Fresh) : (World.load c).TimersOk := by
  refine ⟨fun i => ?_,by simp [World.load]⟩
  show (c.svc i).proc.TimerOk
  rw [h.svc i]
  constructor <;> intro hn <;> cases hn

/-- In a run that meets the condition, the two purposes exclude each other, the timer of a
service that has one runs for it, and an expiry is taken for the end of a restart delay
exactly if the timer was armed for one. -/
theorem one_purpose_per_timer {w : World} (h : w.Visited) (hok : ∀ e ∈ w.trace, TimerCond e) :
    (∀ i, let p := (w.core.svc i).proc
      ¬(p.waitingRestartTimer=true ∧ p.waitingStopstartTimer=true) ∧
      (p.waitingRestartTimer=true → p.timerArmed=true ∧ p.timerFor=.restart) ∧
      (p.waitingStopstartTimer=true → p.timerArmed=true ∧ p.timerFor=.stopstart)) ∧
    ∀ i c, (Call.timerExpired i,c) ∈ w.trace →
      ((c.svc i).proc.timerFor=.restart ↔
        (c.svc i).serviceState≠.stopping ∧ (c.svc i).proc.pid=-1) := by
  have ht : w.TimersOk :=
    h.invariant load_timersOk (fun _ _ hok hw hs => hw.eventStep hs hok) hok
  refine ⟨fun i => ⟨?_,(ht.core i).restart,(ht.core i).stopstart⟩,fun i c hc => ?_⟩
  · rintro ⟨hr,hs⟩
    rw [(ht.core i).exclusive hr] at hs
    cases hs
  · have hcall : TimerCalls (.timerExpired i,c) := ht.calls _ hc
    exact hcall.1

/-- A process does not tell in time whether it could be executed. -/
def startTimedOut : List Input :=
  [{ event := .startService 0 false, now := 1, sys := [{ fork := some 41 }] },
    { event := .timerExpired 0, now := 60000000001 }]

theorem start_timeout_taken : ∃ w : World, w.Visited ∧ (∀ e ∈ w.trace, TimerCond e) ∧
    ∃ c, (Call.timerExpired 0,c) ∈ w.trace ∧ (c.svc 0).proc.timerFor≠.restart := by
  obtain ⟨w,hw,hp⟩ := reachable_of_run
    (Core.loaded_fresh [{ recordType := .process }] []) 4 startTimedOut
    (p := fun w => decide (∀ e ∈ w.trace, TimerCond e) &&
      w.entered (.timerExpired 0) fun c => (c.svc 0).proc.pid != -1) (by decide +kernel)
  obtain ⟨hok,hk⟩ : (∀ e ∈ w.trace, TimerCond e) ∧ _ := by simpa using hp
  obtain ⟨c,hc,hpid⟩ := entered_iff.mp hk
  refine ⟨w,.reached hw,hok,c,hc,fun hr => ?_⟩
  have := ((one_purpose_per_timer (.reached hw) hok).2 0 c hc).mp hr
  simp [this.2] at hpid

/-- A process that is recovered in place, and another that depends on it. -/
def recovered : Core :=
  .loaded [{ recordType := .process, smoothRecovery := true },{ recordType := .process }]
    [{ from_ := 1, to_ := 0 }]

/-- The process dies and is to be started again after a delay. It is told to stop, for which
its dependent has to stop first; meanwhile the delay is over. -/
def stoppedInDelay : List Input :=
  [{ event := .startService 1 false, now := 1, sys := [{ fork := some 41 }] },
    { event := .execStatus 0 false, now := 2, sys := [{ fork := some 42 }] },
    { event := .execStatus 1 false, now := 3 },
    { event := .childTerminated 0 { siCode := 1 }, now := 4 },
    { event := .stopService 0 false false false, now := 5 },
    { event := .timerExpired 0, now := 200000001 }]

/-- The expiry is taken for a stop timeout, and the process waits for a timer that does not
run. -/
theorem delay_taken_for_timeout : ¬∀ w : World, w.Visited → ∀ i,
    (w.core.svc i).proc.waitingRestartTimer=true → (w.core.svc i).proc.timerArmed=true := by
  intro h
  obtain ⟨w,hw,hp⟩ := reachable_of_run (c := recovered) (Core.loaded_fresh _ _) 8
    stoppedInDelay (p := fun w => (w.core.svc 0).proc.waitingRestartTimer &&
      !(w.core.svc 0).proc.timerArmed) (by decide +kernel)
  simp only [Bool.and_eq_true,Bool.not_eq_true'] at hp
  have := h w (.reached hw) 0 hp.1
  rw [hp.2] at this
  cases this

end Dinit
