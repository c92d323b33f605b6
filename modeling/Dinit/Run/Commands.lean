import Dinit.Run.Queues

namespace Dinit

open Framework Framework.Comp World Relation

theorem within_event {α : Type} {m : M α} {w : World} {Q : α → World → Prop}
    (h : Within Step m w Q) : Within EventStep m w Q :=
  within_sub h fun _ _ => .step

/-- A run followed by `process_queues`. -/
theorem within_eventQueues {rec : Rec} (hrec : rec.Ok) {m : M Unit} {w : World}
    (h : Within EventStep m w (sameCtx w)) :
    Within EventStep (m >>= fun _ => rec.processQueues) w (sameCtx w) := by
  refine within_seq h ?_
  intro _ w1 _ hx
  refine within_mono (within_event (hrec.processQueues w1)) ?_
  intro _ w2 _ hx2
  exact hx2.trans hx

section
variable {rec : Rec} (hrec : rec.Ok)
include hrec

theorem doStop_event (i : Nat) (r : Bool) (w : World) :
    Within EventStep (rec.doStop i r) w (sameCtx w) :=
  within_event (within_stop (hrec.doStop i r w))

/-- `stop`, once it is known whether the service is still wanted -/
theorem stopRest_within (i : Nat) (b : Bool) (s : Svc) (w : World)
    (hk : (w.core.svc i).requiredBy=s.requiredBy ∧ (w.core.svc i).propRequire=s.propRequire ∧
      (w.core.svc i).isStartPinned=s.isStartPinned)
    (hd : s.requiredBy=0 → (w.core.svc i).desiredState=.stopped) :
    Within EventStep (if s.isStartPinned then pure ()
      else do
        if s.requiredBy = 0 then onCore fun c => c.setProp i (fun s =>
          { s with propRelease := !s.propRequire }) (!s.propRequire)
        else pure ()
        if (b ∨ s.requiredBy = 0) ∧ s.serviceState ≠ .stopped then do
          setSvc i fun s => { s with stopReason := .normal }
          rec.doStop i false
        else pure ()) w (sameCtx w) := by
  have hstop (u : World) : Within EventStep
      (if (b ∨ s.requiredBy = 0) ∧ s.serviceState ≠ .stopped then do
        setSvc i fun s => { s with stopReason := .normal }
        rec.doStop i false
      else pure ()) u (sameCtx u) := by
    apply within_ite
    · intro _
      apply within_onCore (.step (step_misc i _ (by constructor <;> rfl)))
      exact doStop_event hrec i false _
    · intro _
      exact within_pure rfl
  obtain ⟨hr,hq,hp⟩ := hk
  apply within_ite
  · intro _
    exact within_pure rfl
  intro hpin
  dsimp only
  split
  · next hz =>
    have hs : EventStep w (w.onCore fun c => c.setProp i (fun s =>
        { s with propRelease := !s.propRequire }) (!s.propRequire)) := by
      rw [← hq]
      exact .stopRelease i (hr.trans hz) (hd hz) (by rw [hp]; simpa using hpin)
    exact within_onCore hs (hstop _)
  · exact hstop w

theorem stop_within (i : Nat) (b : Bool) (w : World) :
    Within EventStep (stop rec i b) w (sameCtx w) := by
  unfold stop
  apply within_getSvc
  dsimp only
  apply within_when_ctx
  · intro he
    exact within_modify (.stopExplicit i he) rfl
  intro w1 _ hx1 _
  apply within_getSvc
  split
  · apply within_onCore (.step (.stop (.giveUp i)))
    refine within_mono (stopRest_within hrec i b _ _ ?_ (by simp)) fun _ _ _ h => h.trans hx1
    simp [Svc.isStartPinned]
  · next hn =>
    refine within_mono (stopRest_within hrec i b _ w1 ⟨rfl,rfl,rfl⟩ ?_)
      fun _ _ _ h => h.trans hx1
    intro hz
    exact absurd (.inr hz) hn

theorem restart_within (i : Nat) (w : World) :
    Within EventStep (restart rec i) w (sameCtx w) := by
  unfold restart
  apply within_getSvc
  apply within_ite
  · intro _
    apply within_onCore (.step (.setForceStop i _ (by constructor <;> rfl)))
    refine within_seq (doStop_event hrec i true _) ?_
    intro _ w1 _ hx1
    exact within_pure hx1
  · intro _
    exact within_pure rfl

omit hrec in
theorem pinStart_within (i : Nat) (w : World) : Within EventStep (pinStart i) w (sameCtx w) :=
  within_modify (.pinStart i) (repinned_pinStart w i).ctx

/-- The started half of `unpin`, whose entry is in the trace. -/
theorem unpinStarted_within (i : Nat) (w : World) (hc : (Call.unpin i,w.core) ∈ w.trace)
    (hp : (w.core.svc i).pinnedStarted=true) :
    Within EventStep (unpinStarted rec i) w (sameCtx w) := by
  unfold unpinStarted
  refine within_bind (within_modify (.unpinStart i w.core hc) ?_)
  have hpin := repinned_unpinStart w i
  set w1 := w.unpinStart i with hw1
  have hx1 : w1.ctx=w.ctx := hpin.ctx
  have hi : w1.core.svc i = { w.core.svc i with
      pinnedStarted := false, propPinDpt := (w1.core.svc i).propPinDpt } := by
    rw [hw1]
    exact unpinStart_svc w i
  apply within_getSvc
  apply within_ite
  · intro _
    exact within_pure hx1
  intro hq
  have hq' : (w.core.svc i).deptPinnedStarted=false := by
    rw [hi] at hq
    simpa using hq
  have hend (u : World) (hu : u.ctx=w.ctx) : Within EventStep (do
      if (w1.core.svc i).desiredState = .stopped ∨ (w1.core.svc i).forceStop then do
        rec.doStop i false
        rec.processQueues
      else pure ()
      return true) u (sameCtx w) := by
    dsimp only
    split
    · refine within_seq (doStop_event hrec i false u) ?_
      intro _ w2 _ hx2
      refine within_seq (within_event (hrec.processQueues w2)) ?_
      intro _ w3 _ hx3
      exact within_pure (hx3.trans (hx2.trans hu))
    · exact within_pure hu
  dsimp only
  split
  · next hs =>
    split
    · next hz =>
      apply within_onCore
      · refine .unpinRelease i w.core (by rw [hpin.trace]; exact hc) hp hq' ?_ ?_ (by rw [hi])
        · rw [hi] at hs
          exact hs
        · rw [hi] at hz
          exact hz
      · exact hend _ hx1
    · exact hend w1 hx1
  · exact within_pure hx1

theorem unpin_within (i : Nat) (w : World) : Within EventStep (unpin rec i) w (sameCtx w) := by
  have hend (goOn : Bool) (u : World) (hu : u.ctx=w.ctx) : Within EventStep
      (if goOn then setSvc i fun s => { s with pinnedStopped := false } else pure ()) u
      (sameCtx w) := by
    apply within_ite
    · intro _
      exact within_modify (.pinStopped i false) hu
    · intro _
      exact within_pure hu
  unfold unpin
  apply within_call (.call _ trivial)
  apply within_getSvc
  dsimp only
  split
  · next hp =>
    refine within_seq (unpinStarted_within hrec i _ (by simp) hp) ?_
    intro goOn w1 _ hx1
    exact hend goOn w1 hx1
  · exact hend true _ rfl

theorem setTrigger_within (i : Nat) (b : Bool) (w : World) :
    Within EventStep (setTrigger rec i b) w (sameCtx w) := by
  unfold setTrigger
  apply within_onCore (.step (step_misc i _ (by constructor <;> rfl)))
  apply within_getSvc
  apply within_ite
  · intro _
    exact within_event (started_within hrec i _)
  · intro _
    exact within_pure rfl

omit hrec in
theorem startDep_within (l j : Nat) (w : World)
    (hl : l ∈ (w.core.svc j).dependsOn ∨ l ∈ (w.core.svc j).dependents) :
    Within EventStep (startDep l) w fun _ w' => w'.ctx=w.ctx ∧ w.core.SameGraph w'.core := by
  unfold startDep
  refine within_call (.call _ trivial) ?_
  apply within_getLink
  apply within_ite
  · intro hh
    exact within_modify (.acquire l j hl (by simpa using hh) rfl) ⟨rfl,(Core.frame_acquire _ l).graph⟩
  · intro _
    exact within_pure ⟨rfl,.refl _⟩

omit hrec in
theorem addDep_dependsOn (c : Core) (f t : Nat) (type : DependencyType) :
    c.nextLink ∈ ((c.addDep f t type).svc f).dependsOn := by
  have hlink (place dptPlace : Nat) :
      c.nextLink ∈ ((c.linkAt f t type place dptPlace).svc f).dependsOn := by
    by_cases h : f=t <;> simp [Core.linkAt,h]
  unfold Core.addDep Core.addDepAt
  dsimp only
  split
  · rw [(Core.frame_acquire _ _).graph.dependsOn]
    exact hlink _ _
  · exact hlink _ _

omit hrec in
theorem addDep_within (f t : Nat) (type : DependencyType) (w : World) (hm : w.core.MayDepend f t) :
    Within EventStep (addDep f t type) w fun l w' =>
      w'.ctx=w.ctx ∧ l ∈ (w'.core.svc f).dependsOn := by
  unfold addDep
  apply within_call (.call _ trivial)
  apply within_getCore
  apply within_onCore (.addDep f t type (by simp) hm)
  exact within_pure ⟨rfl,addDep_dependsOn _ f t type⟩

theorem rmDepLink_within (f l : Nat) (w : World) (hl : l ∈ (w.core.svc f).dependsOn) :
    Within EventStep (rmDepLink rec l) w fun _ w' =>
      w'.ctx=w.ctx ∧ (w.core.rmDep l).SameGraph w'.core := by
  unfold rmDepLink
  apply within_call (.call _ trivial)
  apply within_getLink
  apply within_onCore (.rmDep f l hl (by simp))
  apply within_ite
  · intro _
    have h := within_stop (stopReleased_within hrec.doStop (w.core.link l).to_
      ((w.push (.rmDep l)).onCore fun c => c.rmDep l))
    exact within_event (within_mono h fun _ _ hs hx => ⟨hx,steps_graph hs⟩)
  · intro _
    exact within_pure ⟨rfl,.refl _⟩

omit hrec in
theorem findDep_dependsOn {c : Core} {f t l : Nat} {type : DependencyType}
    (h : findDep c f t type=some l) : l ∈ (c.svc f).dependsOn :=
  List.mem_of_find?_eq_some h

theorem rmDep_within (f t : Nat) (type : DependencyType) (w : World) :
    Within EventStep (rmDep rec f t type) w (sameCtx w) := by
  unfold rmDep
  apply within_getCore
  split
  · next l h =>
    exact within_mono (rmDepLink_within hrec f l w (findDep_dependsOn h)) fun _ _ _ h => h.1
  · exact within_pure rfl

omit hrec in
theorem leadsTo_within (c : Core) (from_ fuel : Nat) (marks queue : List Nat) (w : World) :
    Within EventStep (leadsTo c from_ fuel marks queue) w fun _ w' => w'=w := by
  induction fuel generalizing marks queue with
  | zero => exact within_fail
  | succ fuel ih =>
    cases queue with
    | nil => exact within_pure rfl
    | cons sr queue =>
      unfold leadsTo
      apply within_ite
      · intro _
        exact within_pure rfl
      · intro _
        exact ih _ _

omit hrec in
/-- The search has seen everything that it leads to when it ends. -/
theorem leadsTo_false {c : Core} {from_ fuel : Nat} {marks queue : List Nat} {w w' : World}
    (h : leadsTo c from_ fuel marks queue w=(some false,w')) (done : List Nat)
    (hd : ∀ i ∈ done, ∀ l ∈ (c.svc i).dependsOn,
      (c.link l).to_ ∈ marks ∧ (c.link l).to_≠from_)
    (hm : ∀ i ∈ marks, i ∈ queue ∨ i ∈ done) :
    ∃ seen : List Nat, (∀ i ∈ queue, i ∈ seen) ∧ (∀ i ∈ done, i ∈ seen) ∧
      ∀ i ∈ seen, ∀ l ∈ (c.svc i).dependsOn, (c.link l).to_ ∈ seen ∧ (c.link l).to_≠from_ := by
  induction fuel generalizing marks queue done with
  | zero => cases h
  | succ fuel ih =>
    cases queue with
    | nil =>
      refine ⟨done,by simp,fun _ hi => hi,?_⟩
      intro i hi l hl
      obtain ⟨h1,h2⟩ := hd i hi l hl
      exact ⟨(hm _ h1).resolve_left (by simp),h2⟩
    | cons sr queue =>
      simp only [leadsTo] at h
      split at h
      · cases h
      · next hn =>
        generalize hnew : ((((c.svc sr).dependsOn.map fun l => (c.link l).to_).filter
          fun t => !marks.contains t).eraseDups)=new at h
        have hmem (t : Nat) : t ∈ new ↔ (∃ l ∈ (c.svc sr).dependsOn, (c.link l).to_=t) ∧
            t ∉ marks := by
          rw [← hnew]
          simp
        have hno (l : Nat) (hl : l ∈ (c.svc sr).dependsOn) : (c.link l).to_≠from_ := by
          intro he
          apply hn
          simp only [List.contains_iff_mem,List.mem_map]
          exact ⟨l,hl,he⟩
        have hd' : ∀ i ∈ sr::done, ∀ l ∈ (c.svc i).dependsOn,
            (c.link l).to_ ∈ new++marks ∧ (c.link l).to_≠from_ := by
          intro i hi l hl
          rcases List.mem_cons.mp hi with rfl | hi
          · refine ⟨?_,hno l hl⟩
            by_cases hmk : (c.link l).to_ ∈ marks
            · exact List.mem_append_right _ hmk
            · exact List.mem_append_left _ ((hmem _).mpr ⟨⟨l,hl,rfl⟩,hmk⟩)
          · exact ⟨List.mem_append_right _ (hd i hi l hl).1,(hd i hi l hl).2⟩
        have hm' : ∀ i ∈ new++marks, i ∈ new.reverse++queue ∨ i ∈ sr::done := by
          intro i hi
          rcases List.mem_append.mp hi with hi | hi
          · exact .inl (List.mem_append_left _ (List.mem_reverse.mpr hi))
          · rcases hm i hi with hi | hi
            · rcases List.mem_cons.mp hi with rfl | hi
              · exact .inr List.mem_cons_self
              · exact .inl (List.mem_append_right _ hi)
            · exact .inr (List.mem_cons_of_mem sr hi)
        obtain ⟨seen,h1,h2,h3⟩ := ih h (sr::done) hd' hm'
        refine ⟨seen,?_,fun i hi => h2 i (List.mem_cons_of_mem sr hi),h3⟩
        intro i hi
        rcases List.mem_cons.mp hi with rfl | hi
        · exact h2 i List.mem_cons_self
        · exact h1 i (List.mem_append_right _ hi)

theorem startService_within (i : Nat) (pin : Bool) (w : World) :
    Within EventStep (startService rec i pin) w (sameCtx w) := by
  unfold startService
  apply within_getSvc
  apply within_getCore
  apply within_ite
  · intro _
    exact within_pure rfl
  intro _
  apply within_ite
  · intro _
    exact within_pure rfl
  intro _
  dsimp only
  apply within_when_ctx
  · intro _
    exact pinStart_within i w
  intro w1 _ hx1 _
  have hs := start_steps w1 i
  refine within_bind (within_event (within_modify_steps hs.1 ?_))
  refine within_mono (within_event (hrec.processQueues _)) ?_
  intro _ w2 _ hx2
  exact hx2.trans (hs.2.trans hx1)

theorem stopService_within (i : Nat) (pin gentle restart_ : Bool) (w : World) :
    Within EventStep (stopService rec i pin gentle restart_) w (sameCtx w) := by
  unfold stopService
  apply within_getSvc
  apply within_getCore
  apply within_ite
  · intro _
    exact within_pure rfl
  intro _
  apply within_ite
  · intro _
    exact within_pure rfl
  intro _
  apply within_ite
  · intro _
    exact within_pure rfl
  intro _
  apply within_ite
  · intro _
    refine within_seq (restart_within hrec i w) ?_
    intro ok w1 _ hx1
    apply within_ite
    · intro _
      exact within_mono (within_event (hrec.processQueues w1)) fun _ _ _ h => h.trans hx1
    · intro _
      exact within_pure hx1
  intro _
  dsimp only
  apply within_when_ctx
  · intro _
    exact within_modify (.pinStopped i true) rfl
  intro w1 _ hx1 _
  refine within_seq (stop_within hrec i true w1) ?_
  intro _ w2 _ hx2
  apply within_onCore (.step (.forcedStop i))
  refine within_mono (within_event (hrec.processQueues _)) ?_
  intro _ w3 _ hx3
  exact hx3.trans (hx2.trans hx1)

theorem wakeService_within (i : Nat) (pin : Bool) (w : World) :
    Within EventStep (wakeService rec i pin) w (sameCtx w) := by
  unfold wakeService
  apply within_getSvc
  apply within_getCore
  apply within_ite
  · intro _
    exact within_pure rfl
  intro _
  apply within_ite
  · intro _
    exact within_pure rfl
  intro _
  refine within_seq (within_forEach (I := fun u => u.ctx=w.ctx ∧ w.core.SameGraph u.core)
    ⟨rfl,.refl _⟩ ?_) ?_
  · intro l hl u ⟨hx,hg⟩
    apply within_getLink
    apply within_ite
    · intro _
      apply within_getSvc
      apply within_ite
      · intro _
        refine within_mono (startDep_within l i u (.inr ?_)) ?_
        · rw [hg.dependents]
          exact hl
        · intro _ v _ ⟨hv,hgv⟩
          exact ⟨hv.trans hx,hg.trans hgv⟩
      · intro _
        exact within_pure ⟨hx,hg⟩
    · intro _
      exact within_pure ⟨hx,hg⟩
  · intro _ w1 _ ⟨hx1,_⟩
    dsimp only
    apply within_when_ctx
    · intro _
      exact pinStart_within i w1
    intro w2 _ hx2 _
    refine within_mono (within_event (hrec.processQueues w2)) ?_
    intro _ w3 _ hx3
    exact hx3.trans (hx2.trans hx1)

theorem releaseService_within (i : Nat) (pin : Bool) (w : World) :
    Within EventStep (releaseService rec i pin) w (sameCtx w) := by
  unfold releaseService
  dsimp only
  apply within_when_ctx
  · intro _
    exact within_modify (.pinStopped i true) rfl
  intro w1 _ hx1 _
  exact within_mono (within_eventQueues hrec (stop_within hrec i false w1))
    fun _ _ _ h => h.trans hx1

/-- The last part of `add_service_dep`: start the dependency if it is to be enabled. -/
theorem enable_within (l f : Nat) (enable : Bool) (w : World)
    (hl : l ∈ (w.core.svc f).dependsOn) :
    Within EventStep (do
      let s ← getSvc f
      let c ← getCore
      if enable ∧ (s.serviceState = .started ∨ s.serviceState = .starting)
          ∧ ¬c.isShuttingDown then do
        startDep l
        rec.processQueues
      else pure ()) w (sameCtx w) := by
  apply within_getSvc
  apply within_getCore
  apply within_ite
  · intro _
    exact within_eventQueues hrec
      (within_mono (startDep_within l f w (.inl hl)) fun _ _ _ h => h.1)
  · intro _
    exact within_pure rfl

theorem addServiceDep_within (fuel f t : Nat) (type : DependencyType) (enable : Bool) (w : World)
    (hf : f ∈ w.core.records) (ht : t ∈ w.core.records) (hft : f≠t)
    (hreal : (w.core.svc t).getType≠.placeholder) :
    Within EventStep (addServiceDep rec fuel f t type enable) w (sameCtx w) := by
  unfold addServiceDep
  apply within_getSvc
  apply within_getSvc
  apply within_ite
  · intro _
    exact within_pure rfl
  intro _
  apply within_getCore
  have hleads : Within EventStep (leadsTo w.core f fuel [] [t]) w fun b w' => w'=w ∧
      (b=false → w.core.MayDepend f t) := by
    have hw := leadsTo_within w.core f fuel [] [t] w
    refine ⟨hw.1,fun b hb => ⟨hw.2 b hb,?_⟩⟩
    rintro rfl
    obtain ⟨seen,h1,-,h3⟩ := leadsTo_false (Prod.ext hb rfl) [] (by simp) (by simp)
    exact ⟨hf,ht,hft,hreal,seen,h1 t (by simp),h3⟩
  refine within_seq hleads ?_
  rintro circular w1 - ⟨rfl,hmay⟩
  apply within_ite
  · intro _
    exact within_pure rfl
  intro hc
  have hmay := hmay (by simpa using hc)
  dsimp only
  split
  · next l h => exact enable_within hrec l f enable w1 (findDep_dependsOn h)
  · refine within_seq (addDep_within f t type w1 hmay) ?_
    intro l w2 _ ⟨hx2,hl⟩
    apply within_bind
    have hq := hrec.processQueues w2
    refine within_mono (within_event (within_mono hq fun _ w3 hw3 hx3 =>
      (⟨hx3,(steps_graph hw3).dependsOn f⟩ : w3.ctx=w2.ctx ∧ _))) ?_
    intro _ w3 _ ⟨hx3,hdep⟩
    exact within_mono (enable_within hrec l f enable w3 (hdep ▸ hl))
      fun _ _ _ h => h.trans (hx3.trans hx2)

theorem stopAllServices_within (w : World) :
    Within EventStep (stopAllServices rec) w (sameCtx w) := by
  unfold stopAllServices
  apply within_onCore .noRestart
  apply within_getCore
  refine within_seq (within_forEach (I := fun u => u.ctx=w.ctx) rfl ?_) ?_
  · intro i _ u hu
    refine within_seq (stop_within hrec i false u) ?_
    intro _ v _ hv
    exact within_mono (unpin_within hrec i v) fun _ _ _ h => h.trans (hv.trans hu)
  · intro _ w1 _ hx1
    exact within_mono (within_event (hrec.processQueues w1)) fun _ _ _ h => h.trans hx1

end
end Dinit
