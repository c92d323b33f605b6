import Dinit.Run.Frame

namespace Dinit

open Framework Framework.Comp World Relation

/-- `do_stop` and what it calls move a record to STOPPING only, and one that is still
STARTING has not been touched. Nothing takes back that a service is to stop or is to
release its dependencies. -/
structure Svc.StopKept (s s' : Svc) : Prop where
  links : s.SameLinks s'
  pid : s'.proc.pid=s.proc.pid
  waitingForExecstat : s'.proc.waitingForExecstat=s.proc.waitingForExecstat
  propStop : s.propStop=true → s'.propStop=true
  propRequire : s.propRequire=false → s'.propRequire=false
  propRelease : s.propRequire=false → s.propRelease=true → s'.propRelease=true
  state : s'.serviceState=.stopping ∨ s'.serviceState=s.serviceState
    ∧ s'.waitingForDeps=s.waitingForDeps ∧ s'.waitingForConsole=s.waitingForConsole
    ∧ s'.proc.waitingRestartTimer=s.proc.waitingRestartTimer

namespace Svc

theorem StopKept.refl (s : Svc) : s.StopKept s :=
  ⟨⟨rfl,rfl,rfl⟩,rfl,rfl,id,id,fun _ => id,.inr ⟨rfl,rfl,rfl,rfl⟩⟩

theorem StopKept.trans {s s' s'' : Svc} (h : s.StopKept s') (h' : s'.StopKept s'') :
    s.StopKept s'' where
  links := ⟨h'.links.settings.trans h.links.settings,h'.links.dependsOn.trans h.links.dependsOn,
    h'.links.dependents.trans h.links.dependents⟩
  pid := h'.pid.trans h.pid
  waitingForExecstat := h'.waitingForExecstat.trans h.waitingForExecstat
  propStop hp := h'.propStop (h.propStop hp)
  propRequire hp := h'.propRequire (h.propRequire hp)
  propRelease hq hp := h'.propRelease (h.propRequire hq) (h.propRelease hq hp)
  state := by
    rcases h'.state with h1 | ⟨a,b,c,d⟩
    · exact .inl h1
    · rcases h.state with h2 | ⟨a',b',c',d'⟩
      · exact .inl (a.trans h2)
      · exact .inr ⟨a.trans a',b.trans b',c.trans c',d.trans d'⟩

theorem Kept.stopKept {s s' : Svc} (h : s.Kept s') : s.StopKept s' where
  links := h.links
  pid := h.pid
  waitingForExecstat := h.waitingForExecstat
  propStop := by rw [h.propStop]; exact id
  propRequire := by rw [h.propRequire]; exact id
  propRelease := by rw [h.propRelease]; exact fun _ => id
  state := .inr ⟨h.serviceState,h.waitingForDeps,h.waitingForConsole,h.waitingRestartTimer⟩

theorem SameState.stopKept {s s' : Svc} (h : s.SameState s')
    (hp : s.propStop=true → s'.propStop=true) (hq : s.propRequire=false → s'.propRequire=false)
    (hr : s.propRequire=false → s.propRelease=true → s'.propRelease=true) : s.StopKept s' where
  links := h.links
  pid := by rw [h.proc]
  waitingForExecstat := by rw [h.proc]
  propStop := hp
  propRequire := hq
  propRelease := hr
  state := .inr ⟨h.serviceState,h.waitingForDeps,h.waitingForConsole,by rw [h.proc]⟩

theorem released_stopKept (s : Svc) : s.StopKept s.released := by
  apply s.released_same.stopKept
  all_goals
    unfold released
    split_ifs <;> simp_all

theorem forced_stopKept (s : Svc) : s.StopKept s.forced := by
  apply s.forced_same.stopKept
  all_goals
    unfold forced
    split_ifs <;> simp_all

theorem giveUp_stopKept (s : Svc) : s.StopKept { s with desiredState := .stopped } :=
  .mk ⟨rfl,rfl,rfl⟩ rfl rfl id id (fun _ => id) (.inr ⟨rfl,rfl,rfl,rfl⟩)

theorem dropExplicit_stopKept (s : Svc) :
    s.StopKept (Svc.released { s with startExplicit := false }) := by
  have h : s.StopKept { s with startExplicit := false } :=
    .mk ⟨rfl,rfl,rfl⟩ rfl rfl id id (fun _ => id) (.inr ⟨rfl,rfl,rfl,rfl⟩)
  exact h.trans (released_stopKept _)

theorem propagateStop_stopKept (s : Svc) : s.StopKept { s with propStop := true } :=
  .mk ⟨rfl,rfl,rfl⟩ rfl rfl (fun _ => rfl) id (fun _ => id) (.inr ⟨rfl,rfl,rfl,rfl⟩)

theorem beginStop_stopKept (s : Svc) (b : Bool) :
    s.StopKept { s with serviceState := .stopping, waitingForDeps := b } :=
  .mk ⟨rfl,rfl,rfl⟩ rfl rfl id id (fun _ => id) (.inl rfl)

/-- A start or stop timeout is set or cleared in the timer alone. -/
theorem resetStopstartTimer_stopKept (s : Svc) (t : Nat) :
    s.StopKept { s with proc := s.proc.resetStopstartTimer t } := by
  have h := s.proc.resetStopstartTimer_alike t
  exact .mk ⟨rfl,rfl,rfl⟩ h.pid h.waitingForExecstat id id (fun _ => id)
    (.inr ⟨rfl,rfl,rfl,h.waitingRestartTimer⟩)

/-- `interrupt_start` leaves everything but the state and its own flags alone. -/
theorem interrupted_kept (s : Svc) : Kept s
    { s.interrupted with
      serviceState := s.serviceState
      proc := { s.interrupted.proc with
        waitingRestartTimer := s.proc.waitingRestartTimer
        timerArmed := s.proc.timerArmed } } := by
  unfold interrupted
  split_ifs <;> constructor <;> rfl

/-- Moved to STOPPING, with the record otherwise as it was but for the waiting flags. -/
theorem interrupted_stopKept {s s' : Svc} (h : s.interrupted.StopKept s')
    (hs : s'.serviceState=.stopping) : s.StopKept s' := by
  have hk := s.interrupted_kept
  have hi : s.StopKept { s.interrupted with serviceState := .stopping } :=
    .mk ⟨hk.settings,hk.dependsOn,hk.dependents⟩ hk.pid hk.waitingForExecstat
      (fun hp => hk.propStop.trans hp) (fun hp => hk.propRequire.trans hp)
      (fun _ hp => hk.propRelease.trans hp) (.inl rfl)
  exact hi.trans (.mk ⟨h.links.settings,h.links.dependsOn,h.links.dependents⟩ h.pid h.waitingForExecstat h.propStop h.propRequire h.propRelease
    (.inl hs))

end Svc

/-- What every run of `do_stop` keeps. -/
structure StopFrame (w w' : World) : Prop where
  grows : Grows w w'
  ctx : w'.ctx=w.ctx
  graph : w.core.SameGraph w'.core
  svc : ∀ i, (w.core.svc i).StopKept (w'.core.svc i)

theorem StopFrame.refl (w : World) : StopFrame w w :=
  ⟨Grows.refl w,rfl,.refl _,fun _ => .refl _⟩

theorem StopFrame.trans {w w' w'' : World} (h : StopFrame w w') (h' : StopFrame w' w'') :
    StopFrame w w'' :=
  ⟨h.grows.trans h'.grows,h'.ctx.trans h.ctx,h.graph.trans h'.graph,
    fun i => (h.svc i).trans (h'.svc i)⟩

/-- A step that changes at most one record. -/
theorem stopFrame_of_svc {w w' : World} (i : Nat) (hf : World.Frame w w')
    (hne : ∀ j, j≠i → w'.core.svc j=w.core.svc j)
    (hi : (w.core.svc i).StopKept (w'.core.svc i)) : StopFrame w w' where
  grows := hf.grows
  ctx := hf.ctx
  graph := hf.core.graph
  svc j := by
    by_cases h : j=i
    · rw [h]
      exact hi
    · rw [hne j h]
      exact .refl _

theorem stopFrame_onCore (w : World) (i : Nat) (f : Core → Core) (hf : w.core.Frame (f w.core))
    (hne : ∀ j, j≠i → (f w.core).svc j=w.core.svc j)
    (hi : (w.core.svc i).StopKept ((f w.core).svc i)) : StopFrame w (w.onCore f) :=
  stopFrame_of_svc i (frame_onCore w hf) hne hi

theorem stopFrame_push (w : World) (k : Call) : StopFrame w (w.push k) :=
  { StopFrame.refl w with grows := grows_push w k }

theorem stopFrame_breakSoft (w : World) (i l : Nat) : StopFrame w (w.breakSoft i l) := by
  have hf := frame_breakSoft w i l
  refine ⟨hf.grows,hf.ctx,hf.core.graph,?_⟩
  intro j
  rw [breakSoft_svc]
  split
  · next h =>
    rw [h.1]
    exact (w.core.svc i).released_stopKept
  · exact .refl _

/-- The start of `i` is interrupted, after which it is STOPPING. -/
theorem stopFrame_interrupted {w w' : World} (i : Nat) (hg : Grows w w') (hx : w'.ctx=w.ctx)
    (hl : w'.core.link=w.core.link) (hn : w'.core.nextLink=w.core.nextLink)
    (hr : w'.core.records=w.core.records) (hne : ∀ j, j≠i → w'.core.svc j=w.core.svc j)
    (hi : (w.core.svc i).interrupted.StopKept (w'.core.svc i))
    (hs : (w'.core.svc i).serviceState=.stopping) : StopFrame w w' := by
  have hsvc (j : Nat) : (w.core.svc j).StopKept (w'.core.svc j) := by
    by_cases h : j=i
    · subst h
      exact Svc.interrupted_stopKept hi hs
    · rw [hne j h]
      exact .refl _
  refine ⟨hg,hx,⟨?_,?_,?_,?_,?_,?_,hn,hr⟩,hsvc⟩
  · exact fun j => (hsvc j).links.settings
  · exact fun j => (hsvc j).links.dependsOn
  · exact fun j => (hsvc j).links.dependents
  all_goals
    intro l
    rw [hl]

theorem StopStep.frame {w w' : World} (h : StopStep w w') : StopFrame w w' := by
  cases h with
  | misc i f h =>
    refine stopFrame_onCore w i _ (Core.frame_setSvc _ i f h.links h.proc)
      (fun j hj => by simp [hj]) ?_
    simpa using h.stopKept
  | sys rs => exact { StopFrame.refl w with grows := ⟨[],rfl⟩ }
  | doStop i r => exact stopFrame_push w _
  | stopDependent i l h => exact stopFrame_push w _
  | giveUp i =>
    refine stopFrame_onCore w i _ (Core.frame_setSvc _ i _ ⟨rfl,rfl,rfl⟩ (.refl _))
      (fun j hj => by simp [hj]) ?_
    simpa using (w.core.svc i).giveUp_stopKept
  | dropExplicit i h =>
    refine stopFrame_onCore w i _ (Core.frame_dropExplicit _ i) (fun j hj => by simp [hj]) ?_
    simpa using (w.core.svc i).dropExplicit_stopKept
  | forceDependent i j =>
    refine stopFrame_onCore w j _ (Core.frame_forceDependent _ i j)
      (fun k hk => by simp [Core.forceDependent_svc_ne,hk]) ?_
    rw [Core.forceDependent_svc]
    split_ifs
    · have h : (w.core.svc j).StopKept { w.core.svc j with
          stopReason := .depfailed
          desiredState := .stopped } :=
        .mk ⟨rfl,rfl,rfl⟩ rfl rfl id id (fun _ => id) (.inr ⟨rfl,rfl,rfl,rfl⟩)
      exact h.trans (Svc.forced_stopKept _)
    · exact Svc.forced_stopKept _
    · exact .refl _
  | giveUpExplicit j h =>
    refine stopFrame_onCore w j _ ((Core.frame_setSvc _ j _ ⟨rfl,rfl,rfl⟩ (.refl _)).trans
      (Core.frame_dropExplicit _ j)) (fun k hk => by simp [hk]) ?_
    simpa using (w.core.svc j).giveUp_stopKept.trans (Svc.dropExplicit_stopKept _)
  | propagateStop j f h =>
    have hf : (w.core.svc j).StopKept (f (w.core.svc j))
        ∧ (w.core.svc j).proc.Same (f (w.core.svc j)).proc := by
      rcases h with h | rfl
      · exact ⟨h.stopKept,h.proc⟩
      · exact ⟨Svc.giveUp_stopKept _,.refl _⟩
    refine stopFrame_onCore w j _ (Core.frame_setProp _ j _ _
      ⟨hf.1.links.settings,hf.1.links.dependsOn,hf.1.links.dependents⟩ hf.2)
      (fun k hk => by simp [hk]) ?_
    simpa using hf.1.trans (Svc.propagateStop_stopKept _)
  | breakSoft i l h => exact stopFrame_breakSoft w i l
  | interruptStart i => exact stopFrame_push w _
  | killPg i signo h => exact stopFrame_push w _
  | getpgid i g signo h => exact stopFrame_push w _
  | kill i target signo h => exact stopFrame_push w _
  | beginStop i r all h told =>
    refine stopFrame_of_svc i (frame_beginStop w i all) (fun j hj => by simp [hj]) ?_
    simpa using (w.core.svc i).beginStop_stopKept _
  | cancelWait i all h hw =>
    refine stopFrame_of_svc i (frame_cancelWait w i all) (fun j hj => by simp [hj]) ?_
    simpa using .mk ⟨rfl,rfl,rfl⟩ rfl rfl id id (fun _ => id) (.inl rfl)
  | resetTimer i timeout c hc hi hp hr =>
    have hk := (w.core.svc i).resetStopstartTimer_stopKept timeout
    have hg := Core.graph_setSvc w.core i
      (fun s => { s with proc := s.proc.resetStopstartTimer timeout }) ⟨rfl,rfl,rfl⟩
    refine ⟨grows_onCore w _,rfl,hg,fun j => ?_⟩
    by_cases hj : j=i
    · subst hj
      simpa using hk
    · simpa [hj] using .refl _
  | interrupt i h hd hc hp ht =>
    refine stopFrame_interrupted i ((grows_onCore w _).trans (grows_push _ _)) rfl rfl rfl rfl (fun j hj => by simp [hj])
      ?_ ?_
    · simpa using .refl _
    · simp [Svc.interrupted,hp,ht]
  | cancelled i all h hd hc hp =>
    refine stopFrame_interrupted i (((grows_onCore w _).trans (grows_push _ _)).trans
      (frame_beginStop _ i all).grows) (by simp)
      (by simp) ?_ ?_ (fun j hj => by simp [hj]) ?_ (by simp)
    · exact (frame_beginStop _ i all).core.graph.nextLink
    · exact (frame_beginStop _ i all).core.graph.records
    · simpa using Svc.beginStop_stopKept _ _

theorem stopSteps_frame {w w' : World} (h : ReflTransGen StopStep w w') : StopFrame w w' := by
  induction h with
  | refl => exact StopFrame.refl w
  | tail _ hs ih => exact ih.trans hs.frame

end Dinit
