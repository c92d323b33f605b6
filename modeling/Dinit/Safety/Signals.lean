import Dinit.Run.Reachable

namespace Dinit

open Framework Framework.Comp World Relation

/-- Process ids are those of processes, or -1. -/
structure Proc.IdsOk (p : Proc) : Prop where
  pid : p.pid=-1 ∨ 0<p.pid
  stopPid : p.stopPid=-1 ∨ 0<p.stopPid

def Core.PidOk (c : Core) : Prop := ∀ i, (c.svc i).proc.IdsOk

/-- `target` is the group that `getpgid` gave for the process id `pid` in the state `c`, or the
group of that number where it gave none. -/
def World.GroupTarget (w : World) (c : Core) (pid target : Int) : Prop :=
  ∃ g, (Call.getpgid pid g,c) ∈ w.trace ∧ target=-(g.getD pid)

/-- `target` is what `kill_pg` of `i` signals in the state `c`: the process of `i`, or its
group. -/
def World.SignalTarget (w : World) (c : Core) (i : Nat) (target : Int) : Prop :=
  if (c.svc i).settings.signalProcessOnly then target=(c.svc i).proc.pid
  else w.GroupTarget c (c.svc i).proc.pid target

/-- The signal comes from a `kill_pg` that has been entered, or it is for a stop command. -/
def World.KillFrom (w : World) (c : Core) (target : Int) (signo : Nat) : Prop :=
  (∃ i, (Call.killPg i signo,c) ∈ w.trace ∧ w.SignalTarget c i target)
    ∨ ∃ i, 0<(c.svc i).proc.stopPid ∧ w.GroupTarget c (c.svc i).proc.stopPid target

/-- Signals so far went to processes, or to stop commands. -/
structure World.SignalsOk (w : World) : Prop where
  pid : w.core.PidOk
  killPg : ∀ i signo c, (Call.killPg i signo,c) ∈ w.trace → 0<(c.svc i).proc.pid
  getpgid : ∀ pid g c, (Call.getpgid pid g,c) ∈ w.trace → 0<pid
  kill : ∀ target signo c, (Call.kill target signo,c) ∈ w.trace → w.KillFrom c target signo

/-- `do_stop` has not interrupted a start whose child had been reaped. -/
def InterruptOk : Call × Core → Prop
  | (.doStop i _,c) => c.Interruptible i → (c.svc i).proc.pid≠-1
  | _ => True

instance : DecidablePred InterruptOk
  | (.doStop i _,c) => inferInstanceAs (Decidable (c.Interruptible i → (c.svc i).proc.pid≠-1))
  | (.stopped _,_) | (.initiateStart _,_) | (.doPropagation _,_) | (.executeTransition _,_)
  | (.doStart _,_) | (.stopDependent _ _,_) | (.allDepsStarted _,_) | (.acquiredConsole _,_)
  | (.bringUp _,_) | (.bringDown _,_) | (.started _,_) | (.failedToStart _ _,_)
  | (.interruptStart _,_) | (.startPsProcess _,_) | (.killPg _ _,_) | (.getpgid _ _,_)
  | (.kill _ _,_) | (.killAll _,_) | (.handleExitStatus _,_) | (.handleExitAgain _,_)
  | (.timerExpired _,_) | (.execStatus _ _,_) | (.stopExecStatus _ _,_) | (.childTerminated _,_)
  | (.stopChildTerminated _,_) | (.addTransitionQueue _,_) | (.unpin _,_) | (.addDep _ _ _,_)
  | (.rmDep _,_) | (.startDep _,_)
  | (.releaseDependency _,_) | (.logServiceStarted _,_) | (.startCancelled _,_)
  | (.readyNotify _,_) => .isTrue trivial

theorem Proc.Same.idsOk {p p' : Proc} (h : p.Same p') (hp : p.IdsOk) : p'.IdsOk :=
  ⟨by rw [h.pid]; exact hp.pid,by rw [h.stopPid]; exact hp.stopPid⟩

/-- The timer has nothing to do with the processes. -/
theorem idsOk_timer {p : Proc} (hp : p.IdsOk) (timeout : Nat) :
    p.stopStopstartTimer.IdsOk ∧ (p.armStopstartTimer timeout).IdsOk ∧
      (p.resetStopstartTimer timeout).IdsOk := by
  have hstop : p.stopStopstartTimer.IdsOk := by
    unfold Proc.stopStopstartTimer
    split
    · exact ⟨hp.pid,hp.stopPid⟩
    · exact hp
  have harm : (p.armStopstartTimer timeout).IdsOk := by
    unfold Proc.armStopstartTimer
    split
    · exact ⟨hp.pid,hp.stopPid⟩
    · exact hp
  refine ⟨hstop,harm,?_⟩
  unfold Proc.resetStopstartTimer
  split
  · exact harm
  · exact hstop

theorem procStep_idsOk {w : World} {i : Nat} {p : Proc} (h : ProcStep w i p)
    (hi : (w.core.svc i).proc.IdsOk) : p.IdsOk := by
  cases h with
  | same h => exact h.idsOk hi
  | noRestart _ h => exact h.idsOk ⟨hi.pid,hi.stopPid⟩
  | notWaiting _ h => exact h.idsOk ⟨hi.pid,hi.stopPid⟩
  | restart _ h => exact h.idsOk ⟨hi.pid,hi.stopPid⟩
  | stopTimer h => exact h.idsOk (idsOk_timer hi 0).1
  | armTimer t _ h => exact h.idsOk (idsOk_timer hi t).2.1
  | resetTimer t _ h => exact h.idsOk (idsOk_timer hi t).2.2
  | fork n _ _ _ h => exact h.idsOk ⟨.inr (by simp only; omega),hi.stopPid⟩
  | forkStop n _ _ _ h => exact h.idsOk ⟨hi.pid,.inr (by simp only; omega)⟩
  | stopIssued _ h => exact h.idsOk ⟨hi.pid,hi.stopPid⟩
  | readPid _ _ hpid _ h => exact h.idsOk ⟨hpid,hi.stopPid⟩
  | tracking h => exact h.idsOk ⟨hi.pid,hi.stopPid⟩

theorem eventStep_pidOk {w w' : World} (h : EventStep w w') (hw : w.core.PidOk) :
    w'.core.PidOk := by
  intro i
  have hi := hw i
  cases h.proc i with
  | step h => exact procStep_idsOk h hi
  | expire _ _ h =>
    exact h.idsOk ⟨hi.pid,hi.stopPid⟩
  | seen _ _ _ h => exact h.idsOk ⟨hi.pid,hi.stopPid⟩
  | forget _ _ h =>
    have hf : (w.core.svc i).proc.forget.IdsOk := by
      unfold Proc.forget
      split
      · exact ⟨.inl rfl,(idsOk_timer hi 0).1.stopPid⟩
      · exact hi
    exact h.idsOk hf
  | stopSeen _ _ _ h => exact h.idsOk ⟨hi.pid,hi.stopPid⟩
  | stopForget _ _ h => exact h.idsOk ⟨hi.pid,.inl rfl⟩
  | reaped _ h =>
    obtain ⟨status,h⟩ := h
    refine h.idsOk ⟨.inl rfl,?_⟩
    unfold Proc.reaped
    split_ifs
    · exact hi.stopPid
    · exact (idsOk_timer hi 0).1.stopPid
  | stopReaped _ h => exact h.idsOk ⟨hi.pid,.inl rfl⟩

/-- With the condition on `do_stop`, what lets `kill_pg` be entered is a process. -/
theorem killOk_pos {w : World} {i : Nat} (hw : w.core.PidOk) (hok : ∀ e ∈ w.trace, InterruptOk e)
    (h : w.KillOk i) : 0<(w.core.svc i).proc.pid := by
  have hne : (w.core.svc i).proc.pid≠-1 := by
    rcases h with h | ⟨c,r,hc,hi,hp⟩
    · exact h
    · rw [hp]
      exact hok _ hc hi
  exact (hw i).pid.resolve_left hne

theorem groupTarget_mono {w w' : World} {c : Core} {pid target : Int}
    (hg : ∀ e ∈ w.trace, e ∈ w'.trace) (h : w.GroupTarget c pid target) :
    w'.GroupTarget c pid target := by
  obtain ⟨g,hm,ht⟩ := h
  exact ⟨g,hg _ hm,ht⟩

theorem killFrom_mono {w w' : World} {c : Core} {target : Int} {signo : Nat}
    (hg : ∀ e ∈ w.trace, e ∈ w'.trace) (h : w.KillFrom c target signo) :
    w'.KillFrom c target signo := by
  obtain ⟨i,hc,ht⟩ | ⟨i,hp,ht⟩ := h
  · refine .inl ⟨i,hg _ hc,?_⟩
    unfold World.SignalTarget at ht ⊢
    split at ht
    · next hs => rwa [if_pos hs]
    · next hs =>
      rw [if_neg hs]
      exact groupTarget_mono hg ht
  · exact .inr ⟨i,hp,groupTarget_mono hg ht⟩

/-- What `kill_pg` signals is what it was entered for. -/
theorem killTarget_from {w : World} {i : Nat} {target : Int} {signo : Nat}
    (h : w.KillTarget i target signo) : w.KillFrom w.core target signo := by
  refine .inl ⟨i,?_⟩
  unfold World.KillTarget at h
  unfold World.SignalTarget
  dsimp only at h
  split at h
  · next hs =>
    rw [if_pos hs]
    exact ⟨List.mem_of_mem_head? h.1,h.2⟩
  · next hs =>
    rw [if_neg hs]
    obtain ⟨g,rest,hr,ht⟩ := h
    exact ⟨by simp [hr],g,by simp [hr],ht⟩

theorem eventStep_signalsOk {w w' : World} (hok : ∀ e ∈ w'.trace, InterruptOk e)
    (hw : w.SignalsOk) (h : EventStep w w') : w'.SignalsOk := by
  have hokw : ∀ e ∈ w.trace, InterruptOk e := fun e he => hok e (h.grows.mem he)
  have hmem (e : Call × Core) (he : e ∈ w.trace) : e ∈ w'.trace := h.grows.mem he
  refine ⟨eventStep_pidOk h hw.pid,?_,?_,?_⟩
  · intro i signo c hc
    rcases h.entered _ hc with hc | hc
    · exact hw.killPg i signo c hc
    · cases hc with
      | minor _ _ hm => exact hm.elim
      | killPg _ _ hk => exact killOk_pos hw.pid hokw hk
      | call _ hk => exact hk.elim
      | event _ hk => exact hk.elim
  · intro pid g c hc
    rcases h.entered _ hc with hc | hc
    · exact hw.getpgid pid g c hc
    · cases hc with
      | minor _ _ hm => exact hm.elim
      | getpgid i _ signo hk => exact hw.killPg i signo _ (List.mem_of_mem_head? hk)
      | call _ hk =>
        obtain ⟨i,hne,rfl⟩ := hk
        exact (hw.pid i).stopPid.resolve_left hne
      | event _ hk => exact hk.elim
  · intro target signo c hc
    rcases h.entered _ hc with hc | hc
    · exact killFrom_mono hmem (hw.kill target signo c hc)
    · cases hc with
      | minor _ _ hm => exact hm.elim
      | kill i _ _ hk => exact killFrom_mono hmem (killTarget_from hk)
      | call _ hk =>
        obtain ⟨i,g,hne,hg,ht⟩ := hk
        exact .inr ⟨i,(hw.pid i).stopPid.resolve_left hne,g,hmem _ (List.mem_of_mem_head? hg),ht⟩
      | event _ hk => exact hk.elim

theorem load_signalsOk (c : Core) (h : c.Fresh) : (World.load c).SignalsOk := by
  refine ⟨fun i => ?_,by simp [World.load],by simp [World.load],by simp [World.load]⟩
  show (c.svc i).proc.IdsOk
  rw [h.svc i]
  exact ⟨.inl rfl,.inl rfl⟩

/-- Signals go to live processes only, in every run in which no `do_stop` interrupts a
start whose child has been reaped already: `kill_pg` is entered and `getpgid` is called for
one, and each target of `kill` is that of such a `kill_pg`, or of a live stop command. -/
theorem kill_pg_live {w : World} (h : w.Visited) (hok : ∀ e ∈ w.trace, InterruptOk e) :
    (∀ i signo c, (Call.killPg i signo,c) ∈ w.trace → 0<(c.svc i).proc.pid) ∧
    (∀ pid g c, (Call.getpgid pid g,c) ∈ w.trace → 0<pid) ∧
    ∀ target signo c, (Call.kill target signo,c) ∈ w.trace → w.KillFrom c target signo := by
  have hs := h.invariant load_signalsOk (fun _ _ => eventStep_signalsOk) hok
  exact ⟨hs.killPg,hs.getpgid,hs.kill⟩

/-- A process service, started and stopped. -/
def startedThenStopped : List Input :=
  [{ event := .startService 0 false, now := 1, sys := [{ fork := some 41 }] },
    { event := .execStatus 0 false, now := 2 },
    { event := .stopService 0 false false false, now := 3, sys := [{ pgid := some 41 }] }]

theorem kill_pg_live_started : ∃ w : World, w.Visited ∧ (∀ e ∈ w.trace, InterruptOk e) ∧
    (∃ c, (Call.killPg 0 sigTerm,c) ∈ w.trace ∧ 0<(c.svc 0).proc.pid) ∧
    ∃ c, (Call.kill (-41) sigTerm,c) ∈ w.trace ∧ w.KillFrom c (-41) sigTerm := by
  obtain ⟨w,hw,hp⟩ := reachable_of_run
    (Core.loaded_fresh [{ recordType := .process, startInterruptible := true }] []) 4
    startedThenStopped (p := fun w => decide (∀ e ∈ w.trace, InterruptOk e) &&
      (w.entered (.killPg 0 sigTerm) fun _ => true) && w.entered (.kill (-41) sigTerm)
        fun _ => true) (by decide +kernel)
  obtain ⟨⟨hok,hk⟩,hs⟩ : ((∀ e ∈ w.trace, InterruptOk e) ∧ _) ∧ _ := by simpa using hp
  obtain ⟨c,hc,_⟩ := entered_iff.mp hk
  obtain ⟨c',hc',_⟩ := entered_iff.mp hs
  have hlive := kill_pg_live (.reached hw) hok
  exact ⟨w,.reached hw,hok,⟨c,hc,hlive.1 0 sigTerm c hc⟩,c',hc',hlive.2.2 (-41) sigTerm c' hc'⟩

/-- A process service whose start can be interrupted. -/
def interruptible : Core := .loaded [{ recordType := .process, startInterruptible := true }] []

/-- The service is started, its child dies before the exec status is seen, and the
service is told to stop. -/
def reapedThenStopped : List Input :=
  [{ event := .startService 0 false, now := 1, sys := [{ fork := some 41 }] },
    { event := .childTerminated 0 { siCode := 1 }, now := 2 },
    { event := .stopService 0 false false false, now := 3 }]

/-- In this run `kill_pg` is entered with the process id -1. -/
theorem kill_pg_reaped : ¬∀ w : World, w.Visited → ∀ i signo c,
    (Call.killPg i signo,c) ∈ w.trace → 0<(c.svc i).proc.pid := by
  intro h
  obtain ⟨w,hw,hp⟩ := reachable_of_run (c := interruptible) (Core.loaded_fresh _ _) 4
    reapedThenStopped (p := fun w => w.entered (.killPg 0 sigInt) fun c =>
      (c.svc 0).proc.pid==-1) (by decide +kernel)
  obtain ⟨c,hc,hpid⟩ := entered_iff.mp hp
  have := h w (.reached hw) 0 sigInt c hc
  simp only [beq_iff_eq] at hpid
  omega

end Dinit
