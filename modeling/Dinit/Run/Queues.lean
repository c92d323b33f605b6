import Dinit.Run.Exit

namespace Dinit

open Framework Framework.Comp World Relation

/-- The transition queue or the console has just brought `i` up. -/
theorem depsUp_of_entry {w : World} {i : Nat} {k : Call} {c : Core} {r : List (Call × Core)}
    (ht : w.trace=(k,c)::r) (hk : k=.executeTransition i ∨ k=.acquiredConsole i)
    (hs : (c.svc i).serviceState=.starting) (hd : c.checkDepsStarted i=true)
    (hl : w.core.link=c.link) (hne : ∀ j, j≠i → w.core.svc j=c.svc j)
    (hi : w.core.svc i = { c.svc i with
      waitingForDeps := (w.core.svc i).waitingForDeps
      waitingForConsole := (w.core.svc i).waitingForConsole
      haveConsole := (w.core.svc i).haveConsole }) :
    w.DepsUp i ∧ (w.push (.allDepsStarted i)).DepsUp i :=
  ⟨⟨k,c,[],r,ht,.inl rfl,hk,hs,hd,hl,hne,hi⟩,
    ⟨k,c,[(.allDepsStarted i,w.core)],r,by simp [ht],.inr ⟨w.core,rfl⟩,hk,hs,hd,hl,hne,hi⟩⟩

theorem depsUp_starting {w : World} {i : Nat} (h : w.DepsUp i) :
    (w.core.svc i).serviceState=.starting := by
  obtain ⟨k,c,pre,rest,_,_,_,hs,_,_,_,hi⟩ := h
  rw [hi]
  exact hs

/-- A waiting flag of `i` is set or cleared. -/
theorem depsUp_setSvc {w : World} {i : Nat} (h : w.DepsUp i) {f : Svc → Svc}
    (hf : f (w.core.svc i) = { w.core.svc i with
      waitingForDeps := (f (w.core.svc i)).waitingForDeps
      waitingForConsole := (f (w.core.svc i)).waitingForConsole
      haveConsole := (f (w.core.svc i)).haveConsole }) :
    (w.onCore fun c => c.setSvc i f).DepsUp i := by
  obtain ⟨k,c,pre,rest,ht,hpre,hk,hs,hd,hl,hne,hi⟩ := h
  refine ⟨k,c,pre,rest,ht,hpre,hk,hs,hd,hl,?_,?_⟩
  · intro j hj
    simpa [hj] using hne j hj
  · simp only [onCore_core,Core.setSvc_svc,if_true]
    rw [hf]
    rw [hi]

section
variable {rec : Rec} (hrec : rec.Ok)
include hrec

theorem queueForConsole_within (i : Nat) (w : World) (h : w.DepsUp i)
    (hc : (w.core.svc i).settings.startsOnConsole=true ∧ (w.core.svc i).haveConsole=false) :
    Within Step (queueForConsole rec i) w (sameCtx w) := by
  unfold queueForConsole appendConsoleQueue
  apply within_getCore
  apply within_onCore (.queueForConsole i h hc)
  apply within_ite
  · intro _
    apply within_onCore (.consoleLog true w.core.logBusy)
    apply within_noteSys
    intro r rs
    apply within_ite
    · intro _
      exact hrec.pullConsoleQueue _
    · intro _
      exact within_modify (.consoleLog true true) rfl
  · intro _
    exact within_pure rfl

theorem allDepsStarted_within (i : Nat) (w : World)
    (h : w.DepsUp i ∧ (w.push (.allDepsStarted i)).DepsUp i) :
    Within Step (allDepsStarted rec i) w (sameCtx w) := by
  unfold allDepsStarted
  apply within_call (.call _ h.1)
  apply within_getSvc
  apply within_ite
  · intro hc
    exact queueForConsole_within hrec i _ h.2 (by simpa using hc)
  · intro _
    apply within_onCore (.depsStarted i h.2 (noted_push w i _))
    have h3 := depsUp_setSvc h.2 (f := fun s => { s with waitingForDeps := false }) rfl
    refine within_seq (bringUp_within hrec i _ h3 (depsUp_starting h3) (by simp)) ?_
    intro up w1 _ ⟨hx,hup⟩
    apply within_ite
    · intro _
      exact within_pure hx
    · intro hn
      apply failedToStart_within hrec i true
      · obtain ⟨hs,hd⟩ := hup (by simpa using hn)
        exact .cancelStopping i true (fun s => { s with serviceState := .stopping })
          (by constructor <;> rfl) (.inl hs)
          (noted_running (by simp [Svc.isFundamentallyStopped,hs,hd]))
      · exact hx

/-- `acquired_console`, just entered -/
theorem acquiredConsole_within (i : Nat) (w : World) (rest : List (Call × Core))
    (ht : w.trace=(.acquiredConsole i,w.core)::rest) :
    Within Step (acquiredConsole rec i) w (sameCtx w) := by
  unfold acquiredConsole
  apply within_onCore (.acquired i (by simp [ht]))
  apply within_getSvc
  apply within_getCore
  apply within_ite
  · intro _
    exact releaseConsole_within hrec i _
  intro hs
  apply within_ite
  · intro hd
    refine allDepsStarted_within hrec i _ (depsUp_of_entry (c := w.core) (r := rest) ht (.inr rfl)
      ?_ ?_ rfl ?_ ?_)
    · simpa using hs
    · simpa [Core.checkDepsStarted] using hd
    · intro j hj
      simp [hj]
    · simp
  · intro _
    exact releaseConsole_within hrec i _

theorem pullConsoleQueue_within (w : World) :
    Within Step (pullConsoleQueue rec) w (sameCtx w) := by
  unfold pullConsoleQueue
  apply within_getCore
  split
  · exact within_modify (.consoleLog false w.core.logBusy) rfl
  · next i rest h =>
    apply within_step (.popConsole i rest h)
    exact acquiredConsole_within hrec i _ w.trace rfl

omit hrec in
theorem nextFlag_ctx {w : World} {i k : Nat} {outer : List (Nat × Nat)}
    (h : w.ctx=(i,k)::outer) : w.nextFlag.ctx=(i,k+1)::outer := by
  simp [World.nextFlag,h]

theorem propagatePin_within (i : Nat) (w : World) (outer : List (Nat × Nat))
    (hx : w.ctx=(i,5)::outer) :
    Within Step (propagatePin rec i) w fun _ w' => w'.ctx=(i,6)::outer := by
  have hx1 : (w.recomputePin i).nextFlag.ctx=(i,6)::outer :=
    nextFlag_ctx ((repinned_recomputePin w i).ctx.trans hx)
  unfold propagatePin
  apply within_getCore
  apply within_step (.recomputePin i (by simp [hx]))
  apply within_getSvc
  apply within_ite
  · intro _
    exact within_mono (within_stop (hrec.doStop i false _)) fun _ _ _ h => h.trans hx1
  · intro _
    exact within_pure hx1

omit hrec in
theorem propagateRequire_within (i : Nat) (w : World) (outer : List (Nat × Nat))
    (hx : w.ctx=(i,0)::outer) (hc : w.trace.head?=some (.doPropagation i,w.core)) :
    Within Step (propagateRequire i) w fun _ w' =>
      w'.ctx=(i,1)::outer ∧ (w'.core.svc i).propRequire=false := by
  unfold propagateRequire
  apply within_getSvc
  apply within_ite
  · intro hp
    refine within_modify (.requireDependencies i (by simp [hx]) hc hp) ⟨nextFlag_ctx ?_,by simp⟩
    exact (frame_requireDependencies w i).ctx.trans hx
  · intro hp
    have hq : (w.core.svc i).propRequire=false := by simpa using hp
    exact within_modify (.skipFlag i 0 (by simp [hx]) (by decide) hq) ⟨nextFlag_ctx hx,hq⟩

theorem propagateRelease_within (i : Nat) (w : World) (outer : List (Nat × Nat))
    (hx : w.ctx=(i,1)::outer) (hq : (w.core.svc i).propRequire=false) :
    Within Step (propagateRelease rec i) w fun _ w' => w'.ctx=(i,2)::outer := by
  unfold propagateRelease
  apply within_getSvc
  dsimp only
  have hclear (u : World) (hu : u.ctx=(i,1)::outer) : Within Step
      (clearFlag i fun s => { s with propRelease := false }) u fun _ w' => w'.ctx=(i,2)::outer :=
    within_modify (.clearRelease i (by simp [hu])) (nextFlag_ctx hu)
  split
  · next hr =>
    refine within_seq (releaseDependencies_within hrec i w hq hr) ?_
    intro _ v _ hv
    exact hclear v (hv.trans hx)
  · exact hclear w hx

theorem propagateFailed_within (i : Nat) (w : World) (outer : List (Nat × Nat))
    (hx : w.ctx=(i,2)::outer) :
    Within Step (propagateFailed rec i) w fun _ w' => w'.ctx=(i,3)::outer := by
  unfold propagateFailed
  apply within_getSvc
  apply within_ite
  · intro hf
    apply failedToStart_within hrec i true
    · exact .failure i (by simp [hx]) hf
    · exact nextFlag_ctx hx
  · intro hf
    exact within_modify (.skipFlag i 2 (by simp [hx]) (by decide) (by simpa [Svc.flag] using hf))
      (nextFlag_ctx hx)

omit hrec in
theorem propagateStart_within (i : Nat) (w : World) (outer : List (Nat × Nat))
    (hx : w.ctx=(i,3)::outer) :
    Within Step (propagateStart i) w fun _ w' => w'.ctx=(i,4)::outer := by
  unfold propagateStart
  apply within_getSvc
  apply within_step (.clearStart i (by simp [hx]))
  have hx1 := nextFlag_ctx (w := w.onCore fun c => c.setSvc i fun s =>
    { s with propStart := false }) hx
  apply within_ite
  · intro _
    exact within_modify (.doStart i) ((frame_doStart _ i).ctx.trans hx1)
  · intro _
    exact within_pure hx1

theorem propagateStopped_within (i : Nat) (w : World) (outer : List (Nat × Nat))
    (hx : w.ctx=(i,4)::outer) :
    Within Step (propagateStopped rec i) w fun _ w' => w'.ctx=(i,5)::outer := by
  unfold propagateStopped
  apply within_getSvc
  apply within_step (.clearStop i (by simp [hx]))
  have hx1 := nextFlag_ctx (w := w.onCore fun c => c.setSvc i fun s =>
    { s with propStop := false }) hx
  apply within_ite
  · intro _
    exact within_mono (within_stop (hrec.doStop i _ _)) fun _ _ _ h => h.trans hx1
  · intro _
    exact within_pure hx1

/-- `do_propagation` deals with the five flags one after the other, then with the pin. -/
theorem doPropagation_within (i : Nat) (w : World) (outer : List (Nat × Nat))
    (hx : w.ctx=(i,0)::outer) (hc : w.trace.head?=some (.doPropagation i,w.core)) :
    Within Step (doPropagation rec i) w fun _ w' => w'.ctx=(i,6)::outer := by
  unfold doPropagation
  refine within_seq (propagateRequire_within i w outer hx hc) ?_
  intro _ w1 _ ⟨hx1,hq⟩
  refine within_seq (propagateRelease_within hrec i w1 outer hx1 hq) ?_
  intro _ w2 _ hx2
  refine within_seq (propagateFailed_within hrec i w2 outer hx2) ?_
  intro _ w3 _ hx3
  refine within_seq (propagateStart_within i w3 outer hx3) ?_
  intro _ w4 _ hx4
  refine within_seq (propagateStopped_within hrec i w4 outer hx4) ?_
  intro _ w5 _ hx5
  apply within_getSvc
  apply within_ite
  · intro _
    exact propagatePin_within hrec i w5 outer hx5
  · intro hp
    exact within_modify (.skipPin i (by simp [hx5]) (by simpa using hp)) (nextFlag_ctx hx5)

/-- `execute_transition`, just entered -/
theorem executeTransition_within (i : Nat) (w : World) (rest : List (Call × Core))
    (ht : w.trace=(.executeTransition i,w.core)::rest) :
    Within Step (executeTransition rec i) w (sameCtx w) := by
  unfold executeTransition
  apply within_getSvc
  apply within_getCore
  apply within_ite
  · intro hs
    apply within_ite
    · intro hd
      have h := depsUp_of_entry (i := i) ht (.inl rfl) hs hd rfl (fun _ _ => rfl) rfl
      apply within_onCore (.depsStarted i h.1 fun hf => ⟨_,_,by rw [ht]; rfl,hf,rfl⟩)
      refine allDepsStarted_within hrec i _ (depsUp_of_entry (c := w.core) (r := rest) ht
        (.inl rfl) hs hd rfl ?_ ?_)
      · intro j hj
        simp [hj]
      · simp
    · intro _
      exact within_pure rfl
  intro _
  apply within_ite
  · intro hs
    apply within_ite
    · intro hd
      apply within_onCore (.depsStopped i (by simp [ht]) hs hd)
      set w1 := w.onCore fun c => c.setSvc i fun s => { s with waitingForDeps := false } with hw1
      have hdown (u : World) (pre : List (Call × Core)) (hu : u.trace=pre++w.trace)
          (hpre : ∀ e ∈ pre, ∃ signo, e=(.killAll signo,w1.core)) (hcore : u.core=w1.core) :
          u.DownOk i := by
        refine ⟨w.core,pre,rest,by rw [hu,ht],by rwa [hcore],hs,hd,by rw [hcore]; rfl,?_,?_⟩
        · intro j hj
          simp [hcore,hw1,hj]
        · simp [hcore,hw1]
      have hbring (u : World) (hx : u.ctx=w.ctx) (hd : u.DownOk i) :
          Within Step (do
            call (.bringDown i)
            bringDown rec i) u (sameCtx w) := by
        apply within_call (.call _ hd)
        refine within_mono (bringDown_within hrec i _ (by simp)) ?_
        intro _ v _ hv
        exact hv.trans hx
      dsimp only
      split
      · apply within_call (.call _ trivial)
        apply within_call (.call _ trivial)
        refine hbring _ rfl (hdown _ [(.killAll sigKill,w1.core),(.killAll sigTerm,w1.core)] rfl
          ?_ rfl)
        intro e he
        simp only [List.mem_cons,List.not_mem_nil,or_false] at he
        rcases he with rfl | rfl
        · exact ⟨sigKill,rfl⟩
        · exact ⟨sigTerm,rfl⟩
      · exact hbring w1 rfl (hdown w1 [] rfl (by simp) rfl)
    · intro _
      exact within_pure rfl
  · intro _
    exact within_pure rfl

theorem processQueues_within (w : World) : Within Step (processQueues rec) w (sameCtx w) := by
  unfold processQueues
  apply within_getCore
  split
  · next i h =>
    apply within_step (.popPropagation i h)
    refine within_seq (doPropagation_within hrec i _ w.ctx rfl rfl) ?_
    intro _ w1 _ hx
    apply within_step (.leavePropagation i (by simp [hx]))
    refine within_mono (hrec.processQueues _) ?_
    intro _ w2 _ hx2
    exact hx2.trans (by simp [World.leavePropagation,hx])
  · next i hp h =>
    apply within_step (.popTransition i hp h)
    refine within_seq (executeTransition_within hrec i _ w.trace rfl) ?_
    intro _ w1 _ hx
    refine within_mono (hrec.processQueues _) ?_
    intro _ w2 _ hx2
    exact hx2.trans hx
  · exact within_pure rfl

end

/-- However deep the calls are nested, the code makes steps only. -/
theorem calls_ok (fuel : Nat) : (calls fuel).Ok := by
  induction fuel with
  | zero =>
    exact ⟨fun _ _ _ => within_fail,fun _ => within_fail,fun _ => within_fail,
      fun _ _ _ _ => within_fail⟩
  | succ fuel ih =>
    refine ⟨?_,?_,?_,?_⟩
    · intro i r w
      exact doStop_within ih.doStop i r w
    · intro w
      exact pullConsoleQueue_within ih w
    · intro w
      exact processQueues_within ih w
    · intro i w h hb
      exact bgprocBegin_within ih i w h hb

end Dinit
