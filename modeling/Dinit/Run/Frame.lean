import Dinit.Run.Step

namespace Dinit

open Framework Framework.Comp Relation

/-- Settings, dependency lists and the ends and kinds of links are the same. -/
structure Core.SameGraph (c c' : Core) : Prop where
  settings : ∀ i, (c'.svc i).settings=(c.svc i).settings
  dependsOn : ∀ i, (c'.svc i).dependsOn=(c.svc i).dependsOn
  dependents : ∀ i, (c'.svc i).dependents=(c.svc i).dependents
  from_ : ∀ l, (c'.link l).from_=(c.link l).from_
  to_ : ∀ l, (c'.link l).to_=(c.link l).to_
  depType : ∀ l, (c'.link l).depType=(c.link l).depType
  nextLink : c'.nextLink=c.nextLink
  records : c'.records=c.records

theorem Core.SameGraph.refl (c : Core) : c.SameGraph c := by
  constructor <;> intros <;> rfl

theorem Core.SameGraph.trans {c c' c'' : Core} (h : c.SameGraph c') (h' : c'.SameGraph c'') :
    c.SameGraph c'' where
  settings i := (h'.settings i).trans (h.settings i)
  dependsOn i := (h'.dependsOn i).trans (h.dependsOn i)
  dependents i := (h'.dependents i).trans (h.dependents i)
  from_ l := (h'.from_ l).trans (h.from_ l)
  to_ l := (h'.to_ l).trans (h.to_ l)
  depType l := (h'.depType l).trans (h.depType l)
  nextLink := h'.nextLink.trans h.nextLink
  records := h'.records.trans h.records

/-- The processes are the same, and so are what is known of them and their timers. -/
structure Proc.Same (p p' : Proc) : Prop where
  pid : p'.pid=p.pid
  waitingForExecstat : p'.waitingForExecstat=p.waitingForExecstat
  waitingRestartTimer : p'.waitingRestartTimer=p.waitingRestartTimer
  waitingStopstartTimer : p'.waitingStopstartTimer=p.waitingStopstartTimer
  timerArmed : p'.timerArmed=p.timerArmed
  timerFor : p'.timerFor=p.timerFor
  trackingChild : p'.trackingChild=p.trackingChild
  stopIssued : p'.stopIssued=p.stopIssued
  stopPid : p'.stopPid=p.stopPid
  childWatch : p'.childWatch=p.childWatch
  execPipe : p'.execPipe=p.execPipe
  stopWatch : p'.stopWatch=p.stopWatch
  stopPipe : p'.stopPipe=p.stopPipe

theorem Proc.Same.refl (p : Proc) : p.Same p := by constructor <;> rfl

/-- The processes are the same; a start or stop timeout may have been set or cleared. -/
structure Proc.Alike (p p' : Proc) : Prop where
  pid : p'.pid=p.pid
  waitingForExecstat : p'.waitingForExecstat=p.waitingForExecstat
  waitingRestartTimer : p'.waitingRestartTimer=p.waitingRestartTimer
  childWatch : p'.childWatch=p.childWatch
  execPipe : p'.execPipe=p.execPipe
  stopPipe : p'.stopPipe=p.stopPipe

namespace Proc

theorem Alike.refl (p : Proc) : p.Alike p := by constructor <;> rfl

theorem Alike.trans {p p' p'' : Proc} (h : p.Alike p') (h' : p'.Alike p'') : p.Alike p'' where
  pid := h'.pid.trans h.pid
  waitingForExecstat := h'.waitingForExecstat.trans h.waitingForExecstat
  waitingRestartTimer := h'.waitingRestartTimer.trans h.waitingRestartTimer
  childWatch := h'.childWatch.trans h.childWatch
  execPipe := h'.execPipe.trans h.execPipe
  stopPipe := h'.stopPipe.trans h.stopPipe

theorem stopStopstartTimer_alike (p : Proc) : p.Alike p.stopStopstartTimer := by
  unfold stopStopstartTimer
  split_ifs <;> constructor <;> rfl

theorem armStopstartTimer_alike (p : Proc) (t : Nat) : p.Alike (p.armStopstartTimer t) := by
  unfold armStopstartTimer
  split_ifs <;> constructor <;> rfl

theorem resetStopstartTimer_alike (p : Proc) (t : Nat) : p.Alike (p.resetStopstartTimer t) := by
  unfold resetStopstartTimer
  split_ifs
  · exact p.armStopstartTimer_alike t
  · exact p.stopStopstartTimer_alike

end Proc

theorem Proc.Same.trans {p p' p'' : Proc} (h : p.Same p') (h' : p'.Same p'') : p.Same p'' where
  pid := h'.pid.trans h.pid
  waitingForExecstat := h'.waitingForExecstat.trans h.waitingForExecstat
  waitingRestartTimer := h'.waitingRestartTimer.trans h.waitingRestartTimer
  waitingStopstartTimer := h'.waitingStopstartTimer.trans h.waitingStopstartTimer
  timerArmed := h'.timerArmed.trans h.timerArmed
  timerFor := h'.timerFor.trans h.timerFor
  trackingChild := h'.trackingChild.trans h.trackingChild
  stopIssued := h'.stopIssued.trans h.stopIssued
  stopPid := h'.stopPid.trans h.stopPid
  childWatch := h'.childWatch.trans h.childWatch
  execPipe := h'.execPipe.trans h.execPipe
  stopWatch := h'.stopWatch.trans h.stopWatch
  stopPipe := h'.stopPipe.trans h.stopPipe

namespace Svc

/-- Settings and dependency lists of one record are the same. -/
structure SameLinks (s s' : Svc) : Prop where
  settings : s'.settings=s.settings
  dependsOn : s'.dependsOn=s.dependsOn
  dependents : s'.dependents=s.dependents

theorem Kept.links {s s' : Svc} (h : s.Kept s') : s.SameLinks s' :=
  ⟨h.settings,h.dependsOn,h.dependents⟩

theorem Kept.proc {s s' : Svc} (h : s.Kept s') : s.proc.Same s'.proc where
  pid := h.pid
  waitingForExecstat := h.waitingForExecstat
  waitingRestartTimer := h.waitingRestartTimer
  waitingStopstartTimer := h.waitingStopstartTimer
  timerArmed := h.timerArmed
  timerFor := h.timerFor
  trackingChild := h.trackingChild
  stopIssued := h.stopIssued
  stopPid := h.stopPid
  childWatch := h.childWatch
  execPipe := h.execPipe
  stopWatch := h.stopWatch
  stopPipe := h.stopPipe

theorem SameState.links {s s' : Svc} (h : s.SameState s') : s.SameLinks s' :=
  ⟨h.settings,h.dependsOn,h.dependents⟩

theorem SameState.procSame {s s' : Svc} (h : s.SameState s') : s.proc.Same s'.proc := by
  rw [h.proc]
  exact .refl _

end Svc

/-- What the updates of the state machine leave as it is: the graph and the processes. -/
structure Core.Frame (c c' : Core) : Prop where
  graph : c.SameGraph c'
  proc : ∀ i, (c.svc i).proc.Same (c'.svc i).proc

namespace Core

theorem Frame.refl (c : Core) : c.Frame c := ⟨.refl c,fun _ => .refl _⟩

theorem Frame.trans {c c' c'' : Core} (h : c.Frame c') (h' : c'.Frame c'') : c.Frame c'' :=
  ⟨h.graph.trans h'.graph,fun i => (h.proc i).trans (h'.proc i)⟩

variable (c : Core) (i l : Nat)

theorem graph_setSvc (f : Svc → Svc) (h : (c.svc i).SameLinks (f (c.svc i))) :
    c.SameGraph (c.setSvc i f) := by
  refine ⟨?_,?_,?_,fun _ => rfl,fun _ => rfl,fun _ => rfl,rfl,rfl⟩
  all_goals
    intro j
    by_cases hj : j=i
    · subst hj
      simp [h.settings,h.dependsOn,h.dependents]
    · simp [hj]

theorem frame_setSvc (f : Svc → Svc) (h : (c.svc i).SameLinks (f (c.svc i)))
    (hp : (c.svc i).proc.Same (f (c.svc i)).proc) : c.Frame (c.setSvc i f) := by
  refine ⟨graph_setSvc c i f h,?_⟩
  intro j
  by_cases hj : j=i
  · subst hj
    simpa using hp
  · simp [hj,Proc.Same.refl]

theorem frame_setLinks (ls : List Nat) (g : Link → Link)
    (h : ∀ d, (g d).from_=d.from_ ∧ (g d).to_=d.to_ ∧ (g d).depType=d.depType) :
    c.Frame (c.setLinks ls g) := by
  refine ⟨⟨fun _ => rfl,fun _ => rfl,fun _ => rfl,?_,?_,?_,rfl,rfl⟩,fun _ => .refl _⟩
  all_goals
    intro k
    rw [setLinks_link]
    split <;> simp [h]

theorem frame_setLink (g : Link → Link)
    (h : ∀ d, (g d).from_=d.from_ ∧ (g d).to_=d.to_ ∧ (g d).depType=d.depType) :
    c.Frame (c.setLink l g) := by
  refine ⟨⟨fun _ => rfl,fun _ => rfl,fun _ => rfl,?_,?_,?_,rfl,rfl⟩,fun _ => .refl _⟩
  all_goals
    intro k
    rw [setLink_link]
    split
    · next hk => simp [h,hk]
    · rfl

theorem frame_holding (b : Bool) : c.Frame (c.setLink l fun d => { d with holdingAcq := b }) :=
  frame_setLink c l _ fun _ => ⟨rfl,rfl,rfl⟩

theorem frame_waiting (b : Bool) : c.Frame (c.setLink l fun d => { d with waitingOn := b }) :=
  frame_setLink c l _ fun _ => ⟨rfl,rfl,rfl⟩

theorem frame_allWaiting (ls : List Nat) :
    c.Frame (c.setLinks ls fun d => { d with waitingOn := true }) :=
  frame_setLinks c ls _ fun _ => ⟨rfl,rfl,rfl⟩

theorem frame_addPropQueue : c.Frame (c.addPropQueue i) :=
  ⟨⟨fun _ => rfl,fun _ => rfl,fun _ => rfl,fun _ => rfl,fun _ => rfl,fun _ => rfl,rfl,rfl⟩,
    fun _ => .refl _⟩

theorem frame_setProp (f : Svc → Svc) (q : Bool) (h : (c.svc i).SameLinks (f (c.svc i)))
    (hp : (c.svc i).proc.Same (f (c.svc i)).proc) : c.Frame (c.setProp i f q) := by
  unfold setProp
  split
  · exact (frame_setSvc c i f h hp).trans (frame_addPropQueue _ i)
  · exact frame_setSvc c i f h hp

theorem frame_require : c.Frame (c.require i) :=
  frame_setProp c i _ _ (Svc.required_same _).links (Svc.required_same _).procSame

theorem frame_release : c.Frame (c.release i) :=
  frame_setProp c i _ _ (Svc.released_same _).links (Svc.released_same _).procSame

theorem frame_forcedStop : c.Frame (c.forcedStop i) :=
  frame_setProp c i _ _ (Svc.forced_same _).links (Svc.forced_same _).procSame

theorem frame_acquire : c.Frame (c.acquire l) :=
  (frame_require c _).trans (frame_holding _ l true)

theorem frame_dropLink : c.Frame (c.dropLink l i) :=
  (frame_holding c l false).trans (frame_release _ i)

theorem frame_dropExplicit : c.Frame (c.dropExplicit i) :=
  (frame_setSvc c i _ ⟨rfl,rfl,rfl⟩ (.refl _)).trans (frame_release _ i)

theorem frame_unrecoverableStop : c.Frame (c.unrecoverableStop i) :=
  (frame_setSvc c i _ ⟨rfl,rfl,rfl⟩ (.refl _)).trans (frame_forcedStop _ i)

theorem frame_forceDependent (j : Nat) : c.Frame (c.forceDependent i j) := by
  unfold forceDependent
  dsimp only
  split_ifs
  · exact (frame_setSvc c j _ ⟨rfl,rfl,rfl⟩ (.refl _)).trans (frame_unrecoverableStop _ j)
  · exact frame_forcedStop c j
  · exact .refl c

theorem frame_propagateFailure : c.Frame (c.propagateFailure i) :=
  frame_setProp c i _ _ ⟨rfl,rfl,rfl⟩ (.refl _)

theorem frame_unqueueConsole : c.Frame (c.unqueueConsole i) := by
  have h := frame_setSvc c i (fun s => { s with waitingForConsole := false }) ⟨rfl,rfl,rfl⟩ (.refl _)
  exact ⟨⟨h.graph.settings,h.graph.dependsOn,h.graph.dependents,h.graph.from_,h.graph.to_,
    h.graph.depType,rfl,rfl⟩,h.proc⟩

theorem frame_startCheckDependencies : c.Frame (c.startCheckDependencies i) :=
  (frame_allWaiting c _).trans (frame_allWaiting _ _)

theorem frame_activate : c.Frame (c.activate i) := by
  have h := frame_setLinks c (c.softDependents i) (fun d => { d with holdingAcq := true })
    fun _ => ⟨rfl,rfl,rfl⟩
  have h1 : c.Frame { c.setLinks (c.softDependents i)
      (fun d => { d with holdingAcq := true }) with activeServices := c.activeServices+1 } :=
    ⟨⟨h.graph.settings,h.graph.dependsOn,h.graph.dependents,h.graph.from_,h.graph.to_,
      h.graph.depType,rfl,rfl⟩,h.proc⟩
  exact h1.trans <| frame_setProp _ i _ _ ⟨rfl,rfl,rfl⟩ (.refl _)

theorem frame_becomeInactive : c.Frame (c.becomeInactive i) := by
  unfold becomeInactive
  dsimp only
  have h := frame_setSvc c i (fun s =>
    { s with serviceState := .stopped, proc := { s.proc with socketOpen := false } })
    ⟨rfl,rfl,rfl⟩ (by constructor <;> rfl)
  split_ifs
  · exact h.trans (frame_dropExplicit _ i)
  · exact ⟨⟨h.graph.settings,h.graph.dependsOn,h.graph.dependents,h.graph.from_,h.graph.to_,
      h.graph.depType,rfl,rfl⟩,h.proc⟩
  · exact h

end Core

/-- The state machine has moved on, the graph and the processes are as before. -/
structure World.Frame (w w' : World) : Prop where
  core : w.core.Frame w'.core
  calls : GrowsBy Call.IsMinor w w'
  ctx : w'.ctx=w.ctx

namespace World

theorem Frame.refl (w : World) : Frame w w := ⟨.refl _,.refl w,rfl⟩

theorem Frame.grows {w w' : World} (h : Frame w w') : Grows w w' := h.calls.grows

theorem Frame.trans {w w' w'' : World} (h : Frame w w') (h' : Frame w' w'') : Frame w w'' :=
  ⟨h.core.trans h'.core,h.calls.trans h'.calls,h'.ctx.trans h.ctx⟩

theorem frame_foldl {f : World → Nat → World} (ls : List Nat) (h : ∀ w l, Frame w (f w l))
    (w : World) : Frame w (ls.foldl f w) := by
  induction ls generalizing w with
  | nil => exact .refl w
  | cons l ls ih => exact (h w l).trans (ih _)

variable (w : World) (i l : Nat)

theorem frame_onCore {f : Core → Core} (h : w.core.Frame (f w.core)) : Frame w (w.onCore f) :=
  ⟨h,growsBy_same rfl,rfl⟩

theorem frame_push (k : Call) (h : k.IsMinor) : Frame w (w.push k) :=
  ⟨.refl _,growsBy_push w k h,rfl⟩

theorem frame_addTransitionQueue : Frame w (w.addTransitionQueue i) :=
  ⟨⟨⟨fun _ => rfl,fun _ => rfl,fun _ => rfl,fun _ => rfl,fun _ => rfl,fun _ => rfl,rfl,rfl⟩,
    fun _ => .refl _⟩,⟨[(.addTransitionQueue i,w.core)],rfl,by simp [Call.IsMinor]⟩,rfl⟩

theorem frame_dependencyStarted : Frame w (w.dependencyStarted i) := by
  unfold dependencyStarted
  dsimp only
  split
  · exact frame_addTransitionQueue w i
  · exact .refl w

theorem frame_dependentStopped : Frame w (w.dependentStopped i) := by
  unfold dependentStopped
  dsimp only
  split
  · exact frame_addTransitionQueue w i
  · exact .refl w

theorem frame_clearWait : Frame w (w.clearWait l) :=
  (frame_onCore w (Core.frame_waiting _ l false)).trans (frame_dependencyStarted _ _)

theorem frame_notifyStarted : Frame w (w.notifyStarted l) := by
  unfold notifyStarted
  split
  · exact (frame_dependencyStarted w _).trans
      (frame_onCore _ (Core.frame_waiting _ l false))
  · exact .refl w

theorem frame_breakSoft : Frame w (w.breakSoft i l) := by
  unfold breakSoft
  dsimp only
  split_ifs
  · exact .refl w
  · exact (frame_clearWait w l).trans (frame_onCore _ (Core.frame_dropLink _ i l))
  · exact frame_onCore _ (Core.frame_dropLink _ i l)
  · exact frame_clearWait w l
  · exact .refl w

theorem frame_failStart (b : Bool) : Frame w (w.failStart i b) :=
  (frame_push w (.failedToStart i b) trivial).trans (frame_onCore _
    ((Core.frame_setSvc _ i _ ⟨rfl,rfl,rfl⟩ (.refl _)).trans (Core.frame_unqueueConsole _ i)))

theorem frame_cancelDependent : Frame w (w.cancelDependent i l) := by
  have hdrop (w : World) : Frame w (w.onCore fun c => c.dropLink l i) :=
    frame_onCore w (Core.frame_dropLink _ i l)
  have hfail (j : Nat) : Frame w (w.onCore fun c => c.propagateFailure j) :=
    frame_onCore w (Core.frame_propagateFailure _ j)
  unfold cancelDependent
  dsimp only
  split_ifs
  · exact (hfail _).trans (hdrop _)
  · exact hdrop w
  · exact (frame_clearWait w l).trans (hdrop _)
  · exact hdrop w
  · exact hfail _
  · exact .refl w
  · exact frame_clearWait w l
  · exact .refl w

theorem frame_cancelStart (b : Bool) : Frame w (w.cancelStart i b) := by
  have hexp (w : World) : Frame w
      (if (w.core.svc i).startExplicit then w.onCore fun c => c.dropExplicit i else w) := by
    split
    · exact frame_onCore w (Core.frame_dropExplicit _ i)
    · exact .refl w
  unfold cancelStart
  exact (((frame_failStart w i b).trans (hexp _)).trans
    (frame_foldl _ (fun w l => frame_cancelDependent w i l) _)).trans
    (frame_onCore _ (Core.frame_setSvc _ i _ ⟨rfl,rfl,rfl⟩ (.refl _)))

theorem frame_initiateStart : Frame w (w.initiateStart i) := by
  have h : Frame w (((w.push (.initiateStart i)).onCore fun c => c.setSvc i fun s =>
      { s with
        startFailed := false
        startSkipped := false
        serviceState := .starting
        waitingForDeps := true }).onCore fun c => c.startCheckDependencies i) :=
    ((frame_push w (.initiateStart i) trivial).trans (frame_onCore _ (Core.frame_setSvc _ i _ ⟨rfl,rfl,rfl⟩
      (.refl _)))).trans (frame_onCore _ (Core.frame_startCheckDependencies _ i))
  unfold initiateStart
  dsimp only
  split
  · exact h.trans (frame_addTransitionQueue _ i)
  · exact h

theorem frame_doStart : Frame w (w.doStart i) := by
  have hwant : Frame w ((w.push (.doStart i)).onCore fun c => c.setSvc i fun s =>
      { s with desiredState := .started }) :=
    (frame_push w (.doStart i) trivial).trans (frame_onCore _ (Core.frame_setSvc _ i _ ⟨rfl,rfl,rfl⟩ (.refl _)))
  unfold doStart
  dsimp only
  split_ifs
  · exact hwant.trans (frame_cancelStart _ i false)
  · exact hwant
  · exact hwant.trans (frame_initiateStart _ i)
  · exact hwant
  · exact ((frame_push w (.doStart i) trivial).trans (frame_onCore _ (Core.frame_activate _ i))).trans
      (frame_initiateStart _ i)

theorem frame_signalDependencies : Frame w (w.signalDependencies i) :=
  frame_foldl _ (fun w _ => frame_dependentStopped w _) w

theorem frame_becomeStopped : Frame w (w.becomeStopped i) := by
  have hset (f : Svc → Svc) (w : World) (h : (w.core.svc i).SameLinks (f (w.core.svc i)))
      (hp : (w.core.svc i).proc.Same (f (w.core.svc i)).proc) :
      Frame w (w.onCore fun c => c.setSvc i f) :=
    frame_onCore w (Core.frame_setSvc _ i f h hp)
  have h0 := hset (fun s => { s with forceStop := false }) w ⟨rfl,rfl,rfl⟩ (.refl _)
  unfold becomeStopped
  dsimp only
  split
  · exact ((h0.trans (frame_signalDependencies _ i)).trans
      (hset _ _ ⟨rfl,rfl,rfl⟩ (.refl _))).trans (frame_initiateStart _ i)
  · exact ((h0.trans (frame_foldl _ (fun w l => frame_breakSoft w i l) _)).trans
      (frame_signalDependencies _ i)).trans (frame_onCore _ (Core.frame_becomeInactive _ i))

theorem frame_becomeStarted : Frame w (w.becomeStarted i) := by
  have h : Frame w ((w.push (.logServiceStarted i)).onCore fun c => c.setSvc i fun s =>
      { s with serviceState := .started }) :=
    (frame_push w (.logServiceStarted i) trivial).trans
      (frame_onCore _ (Core.frame_setSvc _ i _ ⟨rfl,rfl,rfl⟩ (.refl _)))
  unfold becomeStarted
  dsimp only
  split
  · exact h
  · exact h.trans (frame_foldl _ (fun w l => frame_notifyStarted w l) _)

theorem frame_requireDependencies : Frame w (w.requireDependencies i) := by
  apply frame_foldl
  intro w l
  split
  · exact .refl w
  · exact frame_onCore w (Core.frame_acquire _ l)

theorem frame_beginStop (all : Bool) : Frame w (w.beginStop i all) := by
  have h : Frame w (w.onCore fun c => c.setSvc i fun s =>
      { s with serviceState := .stopping, waitingForDeps := !all }) :=
    frame_onCore w (Core.frame_setSvc _ i _ ⟨rfl,rfl,rfl⟩ (.refl _))
  unfold beginStop
  dsimp only
  split
  · exact h.trans (frame_addTransitionQueue _ i)
  · exact h

theorem frame_cancelWait (all : Bool) : Frame w (w.cancelWait i all) :=
  ((frame_onCore w (Core.frame_unqueueConsole _ i)).trans
    (frame_push _ (.startCancelled i) trivial)).trans (frame_beginStop _ i all)

theorem noted_push (k : Call) : (w.push k).Noted i :=
  fun h => ⟨k,w.core,rfl,h,rfl⟩

variable {w i} in
theorem noted_running (h : (w.core.svc i).isFundamentallyStopped=false) :
    w.Noted i := by
  intro hs
  rw [h] at hs
  cases hs

variable {w i} in
theorem Noted.setSvc (h : w.Noted i) {f : Svc → Svc}
    (hf : (f (w.core.svc i)).isFundamentallyStopped=(w.core.svc i).isFundamentallyStopped) :
    (w.onCore fun c => c.setSvc i f).Noted i := by
  intro hs
  exact h (hf ▸ by simpa using hs)

/-- Nothing has changed but pins, and what is queued for them. -/
structure Repinned (w w' : World) : Prop where
  svc : ∀ j, w'.core.svc j = { w.core.svc j with
    pinnedStarted := (w'.core.svc j).pinnedStarted
    deptPinnedStarted := (w'.core.svc j).deptPinnedStarted
    propPinDpt := (w'.core.svc j).propPinDpt }
  core : w'.core={ w.core with svc := w'.core.svc, propQueue := w'.core.propQueue }
  trace : w'.trace=w.trace
  ctx : w'.ctx=w.ctx

theorem Repinned.refl (w : World) : Repinned w w := ⟨fun _ => rfl,rfl,rfl,rfl⟩

theorem Repinned.trans {w w' w'' : World} (h : Repinned w w') (h' : Repinned w' w'') :
    Repinned w w'' := by
  refine ⟨fun j => ?_,?_,h'.trace.trans h.trace,h'.ctx.trans h.ctx⟩
  · rw [h'.svc,h.svc]
  · rw [h'.core,h.core]

theorem repinned_setSvc (f : Svc → Svc) (h : f (w.core.svc i) = { w.core.svc i with
    pinnedStarted := (f (w.core.svc i)).pinnedStarted
    deptPinnedStarted := (f (w.core.svc i)).deptPinnedStarted
    propPinDpt := (f (w.core.svc i)).propPinDpt }) :
    Repinned w (w.onCore fun c => c.setSvc i f) := by
  refine ⟨fun j => ?_,rfl,rfl,rfl⟩
  by_cases hj : j=i
  · subst hj
    simpa using h
  · simp [hj]

theorem repinned_propagatePinTo : Repinned w (w.propagatePinTo i) := by
  refine ⟨fun j => ?_,rfl,rfl,rfl⟩
  by_cases hj : j=i
  · subst hj
    simp [propagatePinTo]
  · simp [propagatePinTo,hj]

/-- What each round of the loop over dependencies keeps to, the loop does. -/
theorem queuePinDpt_each {R : World → World → Prop} (hr : ∀ w, R w w)
    (ht : ∀ w w' w'', R w w' → R w' w'' → R w w'') (hp : ∀ w j, R w (w.propagatePinTo j))
    (pinned : Bool) : R w (w.queuePinDpt i pinned) := by
  unfold queuePinDpt
  generalize (w.core.svc i).dependsOn=ls
  induction ls generalizing w with
  | nil => exact hr w
  | cons l ls ih =>
    refine ht _ _ _ ?_ (ih _)
    dsimp only
    split
    · exact hp w _
    · exact hr w

theorem repinned_queuePinDpt (pinned : Bool) : Repinned w (w.queuePinDpt i pinned) :=
  queuePinDpt_each w i .refl (fun _ _ _ => .trans) repinned_propagatePinTo pinned

theorem propagatePinTo_svc (j : Nat) : (w.propagatePinTo i).core.svc j =
    { w.core.svc j with propPinDpt := (w.core.svc j).propPinDpt || decide (j=i) } := by
  by_cases hj : j=i
  · subst hj
    simp [propagatePinTo]
  · simp [propagatePinTo,hj]

/-- The loop leaves pins as they are. -/
theorem queuePinDpt_svc (pinned : Bool) (j : Nat) : (w.queuePinDpt i pinned).core.svc j =
    { w.core.svc j with propPinDpt := ((w.queuePinDpt i pinned).core.svc j).propPinDpt } := by
  refine queuePinDpt_each (R := fun w w' => w'.core.svc j =
    { w.core.svc j with propPinDpt := (w'.core.svc j).propPinDpt }) w i (fun _ => rfl) ?_ ?_ pinned
  · intro w w' w'' h h'
    rw [h',h]
  · intro w k
    rw [propagatePinTo_svc]

theorem repinned_recomputePin : Repinned w (w.recomputePin i) := by
  unfold recomputePin
  dsimp only
  split
  · exact (repinned_setSvc w i _ rfl).trans (repinned_queuePinDpt _ i _)
  · exact .refl w

theorem repinned_pinStart : Repinned w (w.pinStart i) := by
  unfold pinStart
  dsimp only
  split_ifs
  · exact .refl w
  · exact repinned_setSvc w i _ rfl
  · exact (repinned_queuePinDpt w i true).trans (repinned_setSvc _ i _ rfl)

theorem repinned_unpinStart : Repinned w (w.unpinStart i) := by
  unfold unpinStart
  dsimp only
  split_ifs
  · exact repinned_setSvc w i _ rfl
  · exact (repinned_setSvc w i _ rfl).trans (repinned_queuePinDpt _ i false)

theorem unpinStart_svc : (w.unpinStart i).core.svc i = { w.core.svc i with
    pinnedStarted := false, propPinDpt := ((w.unpinStart i).core.svc i).propPinDpt } := by
  unfold unpinStart
  dsimp only
  split_ifs
  · simp
  · rw [queuePinDpt_svc]
    simp

theorem Repinned.frame {w w' : World} (h : Repinned w w') : Frame w w' := by
  refine ⟨⟨⟨?_,?_,?_,?_,?_,?_,?_,?_⟩,?_⟩,growsBy_same h.trace,h.ctx⟩
  · exact fun j => by rw [h.svc]
  · exact fun j => by rw [h.svc]
  · exact fun j => by rw [h.svc]
  · exact fun l => by rw [h.core]
  · exact fun l => by rw [h.core]
  · exact fun l => by rw [h.core]
  · rw [h.core]
  · rw [h.core]
  · exact fun j => by
      rw [h.svc]
      exact .refl _

end World
end Dinit
