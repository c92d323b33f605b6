import Dinit.Run.Pins

namespace Dinit

open Framework Framework.Comp World Relation

/-- A service that fails to start is not pinned itself, is pinned by a dependent as well, or
has no dependency that is pinned for it. A new dependency of a pinned service is pinned
already, and one that a pinned service loses is so for another dependent too. Only REGULAR
dependencies are made. -/
def PinOk : Call × Core → Prop
  | (.failedToStart i _,c) => (c.svc i).pinnedStarted=true →
      (c.svc i).deptPinnedStarted=true ∨
        ∀ l ∈ (c.svc i).dependsOn, (c.svc (c.link l).to_).deptPinnedStarted=false
  | (.addDep f t depType,c) => depType=.regular ∧
      ((c.svc f).isStartPinned=true → (c.svc t).deptPinnedStarted=true)
  | (.rmDep l,c) => (c.svc (c.link l).to_).deptPinnedStarted=true →
      (c.svc (c.link l).from_).isStartPinned=true →
      ∃ k ∈ (c.svc (c.link l).to_).dependents, k≠l ∧ (c.svc (c.link k).from_).isStartPinned=true
  | _ => True

instance : DecidablePred PinOk
  | (.failedToStart i _,c) => inferInstanceAs (Decidable ((c.svc i).pinnedStarted=true →
      (c.svc i).deptPinnedStarted=true ∨
      ∀ l ∈ (c.svc i).dependsOn, (c.svc (c.link l).to_).deptPinnedStarted=false))
  | (.addDep f t depType,c) => inferInstanceAs (Decidable (depType=.regular ∧
      ((c.svc f).isStartPinned=true → (c.svc t).deptPinnedStarted=true)))
  | (.rmDep l,c) => inferInstanceAs (Decidable ((c.svc (c.link l).to_).deptPinnedStarted=true →
      (c.svc (c.link l).from_).isStartPinned=true →
      ∃ k ∈ (c.svc (c.link l).to_).dependents, k≠l ∧ (c.svc (c.link k).from_).isStartPinned=true))
  | (.stopped _,_) | (.initiateStart _,_) | (.doPropagation _,_) | (.executeTransition _,_)
  | (.doStart _,_) | (.doStop _ _,_) | (.stopDependent _ _,_) | (.allDepsStarted _,_)
  | (.acquiredConsole _,_) | (.bringUp _,_) | (.bringDown _,_) | (.started _,_)
  | (.interruptStart _,_) | (.startPsProcess _,_) | (.killPg _ _,_) | (.getpgid _ _,_)
  | (.kill _ _,_) | (.killAll _,_) | (.handleExitStatus _,_) | (.handleExitAgain _,_)
  | (.timerExpired _,_) | (.execStatus _ _,_) | (.stopExecStatus _ _,_) | (.childTerminated _,_)
  | (.stopChildTerminated _,_) | (.addTransitionQueue _,_) | (.unpin _,_)
  | (.startDep _,_)
  | (.releaseDependency _,_) | (.logServiceStarted _,_) | (.startCancelled _,_)
  | (.readyNotify _,_) => .isTrue trivial

namespace World

/-- Dependency pins are what the dependents make them, or will be looked at. -/
structure PinsExact (w : World) : Prop where
  linked : w.core.Linked
  regular : w.core.AllRegular
  queued : w.PinsQueued

variable {w w' : World}

theorem PinsExact.kept (h : w.PinsExact) (hk : PinsKept w w') (hg : w.core.SameGraph w'.core)
    (hc : Carries w w') (hok : ∀ e ∈ w'.trace, PinOk e) : w'.PinsExact := by
  obtain ⟨xs,hx,hq⟩ := h.queued
  obtain ⟨ys,hy,hxy⟩ := hc xs hx
  refine ⟨h.linked.of_graph hg,h.regular.of_graph hg,ys,hy,fun t ht => ?_⟩
  rcases Core.stale_of_pins hg h.linked (hk.core.dept t) ht with ht | ⟨i,l,hl,hto,hi,hdt⟩
  · exact ⟨hk.flag t (hq t ht).1,hxy t (hq t ht).2⟩
  -- the pin of `i` is lost, which the condition allows if no dependency is pinned
  exfalso
  obtain ⟨u,hu,hcalls,hpins⟩ := hk.calls
  unfold Svc.isStartPinned at hi hdt
  rw [hk.core.dept i] at hi hdt
  rcases hpins i with hp | ⟨hp,b,c,he,hb⟩
  · rw [hp] at hi
    exact hi rfl
  have hd : (w.core.svc i).deptPinnedStarted=false := by
    by_contra hd
    rw [Bool.not_eq_false] at hd
    simp [hd] at hi
  rw [hp,hd] at hdt
  have hc := hcalls _ he
  have hcond : PinOk (.failedToStart i b,c) := hok _ (by rw [hu]; exact List.mem_append_left _ he)
  replace hcond := hcond hb
  rcases hcond with hcond | hcond
  · rw [hc.dept,hd] at hcond
    cases hcond
  · have h0 := hcond l (by rw [hc.dependsOn]; exact hl)
    rw [hc.to_,hto,hc.dept] at h0
    exact hdt (by simp [h0])

/-- The loop over dependencies queues those whose pin does not agree. -/
theorem queuePinDpt_queues (w : World) (i : Nat) (pinned : Bool)
    (hard : ∀ l ∈ (w.core.svc i).dependsOn, (w.core.link l).isHard=true) :
    (∀ j, (w.core.svc j).propPinDpt=true → ((w.queuePinDpt i pinned).core.svc j).propPinDpt=true) ∧
    ∀ xs, w.core.propQueue.Pops xs → ∃ ys, (w.queuePinDpt i pinned).core.propQueue.Pops ys ∧
      (∀ x ∈ xs, x ∈ ys) ∧ ∀ l ∈ (w.core.svc i).dependsOn,
        (w.core.svc (w.core.link l).to_).deptPinnedStarted≠pinned →
        ((w.queuePinDpt i pinned).core.svc (w.core.link l).to_).propPinDpt=true ∧
          (w.core.link l).to_ ∈ ys := by
  unfold queuePinDpt
  generalize (w.core.svc i).dependsOn=ls at hard ⊢
  induction ls generalizing w with
  | nil => exact ⟨fun _ => id,fun xs hx => ⟨xs,hx,fun _ => id,by simp⟩⟩
  | cons l ls ih =>
    have hl := hard l List.mem_cons_self
    rw [List.foldl_cons]
    dsimp only
    -- the state after the first round
    have hround : ∃ u : World, (if (w.core.link l).isHard=true ∧
        (w.core.svc (w.core.link l).to_).deptPinnedStarted≠pinned then
          w.propagatePinTo (w.core.link l).to_ else w)=u ∧ u.core.link=w.core.link ∧
        (∀ j, (u.core.svc j).deptPinnedStarted=(w.core.svc j).deptPinnedStarted) ∧
        (∀ j, (w.core.svc j).propPinDpt=true → (u.core.svc j).propPinDpt=true) ∧
        ∀ xs, w.core.propQueue.Pops xs → ∃ ys, u.core.propQueue.Pops ys ∧ (∀ x ∈ xs, x ∈ ys) ∧
          ((w.core.svc (w.core.link l).to_).deptPinnedStarted≠pinned →
            (u.core.svc (w.core.link l).to_).propPinDpt=true ∧ (w.core.link l).to_ ∈ ys) := by
      refine ⟨_,rfl,?_⟩
      split_ifs with hp
      · refine ⟨rfl,fun j => ?_,fun j hj => ?_,fun xs hx => ?_⟩
        · rw [propagatePinTo_svc]
        · rw [propagatePinTo_svc,hj]
          rfl
        · obtain ⟨ys,hy,hm,hys⟩ := hx.add (w.core.link l).to_
          refine ⟨ys,hy,fun x hxs => ?_,fun _ => ⟨by simp [propagatePinTo_svc],hm⟩⟩
          rcases hys with rfl | rfl
          · exact hxs
          · exact List.mem_cons_of_mem _ hxs
      · refine ⟨rfl,fun _ => rfl,fun _ => id,fun xs hx => ⟨xs,hx,fun _ => id,fun hne => ?_⟩⟩
        exact absurd ⟨hl,hne⟩ hp
    obtain ⟨u,hu,hlink,hdept,hflag,hqueue⟩ := hround
    rw [hu]
    obtain ⟨hflag',hqueue'⟩ := ih u (by
      intro k hk
      rw [hlink]
      exact hard k (List.mem_cons_of_mem _ hk))
    refine ⟨fun j hj => hflag' j (hflag j hj),fun xs hx => ?_⟩
    obtain ⟨ys,hy,hxy,hhead⟩ := hqueue xs hx
    obtain ⟨zs,hz,hyz,htail⟩ := hqueue' ys hy
    refine ⟨zs,hz,fun x hxs => hyz x (hxy x hxs),fun k hk hne => ?_⟩
    rcases List.mem_cons.mp hk with rfl | hk
    · exact ⟨hflag' _ (hhead hne).1,hyz _ (hhead hne).2⟩
    · have := htail k hk (by rw [hlink,hdept]; exact hne)
      rwa [hlink] at this

/-- The pin of `i` changes, and the dependencies which do not agree with it are queued. -/
theorem PinsExact.repin (h : w.PinsExact) (hr : Repinned w w') (i : Nat) (b : Bool)
    (hothers : ∀ j, j≠i → (w'.core.svc j).isStartPinned=(w.core.svc j).isStartPinned)
    (hself : (w'.core.svc i).isStartPinned≠(w.core.svc i).isStartPinned →
      (w'.core.svc i).isStartPinned=b)
    (hflag : ∀ j, (w.core.svc j).propPinDpt=true → (w'.core.svc j).propPinDpt=true)
    (hqueue : ∀ xs, w.core.propQueue.Pops xs → ∃ ys, w'.core.propQueue.Pops ys ∧
      (∀ x ∈ xs, x ∈ ys) ∧ ((w'.core.svc i).isStartPinned≠(w.core.svc i).isStartPinned →
        ∀ l ∈ (w.core.svc i).dependsOn, (w'.core.svc (w.core.link l).to_).deptPinnedStarted≠b →
          (w'.core.svc (w.core.link l).to_).propPinDpt=true ∧ (w.core.link l).to_ ∈ ys)) :
    ∃ ys, w'.core.propQueue.Pops ys ∧ ∀ t,
      (w'.core.svc t).deptPinnedStarted=(w.core.svc t).deptPinnedStarted → w'.core.Stale t →
        (w'.core.svc t).propPinDpt=true ∧ w'.Pending ys t := by
  obtain ⟨xs,hx,hq⟩ := h.queued
  obtain ⟨ys,hy,hxy,hdeps⟩ := hqueue xs hx
  refine ⟨ys,hy,fun t hdt ht => ?_⟩
  rcases Core.stale_of_pins hr.frame.core.graph h.linked hdt ht with ht | ⟨j,l,hl,hto,hne,hdj⟩
  · obtain ⟨hf,hp⟩ := hq t ht
    refine ⟨hflag t hf,?_⟩
    unfold Pending
    rw [hr.ctx]
    exact hp.imp_left (hxy t)
  · have hji : j=i := by
      by_contra hji
      exact hne (hothers j hji)
    subst hji
    obtain ⟨hf,hm⟩ := hdeps hne l hl (by rw [hto,hdt,← hself hne]; exact hdj)
    rw [hto] at hf hm
    exact ⟨hf,.inl hm⟩

theorem PinsExact.of_repinned (h : w.PinsExact) (hr : Repinned w w')
    (hd : ∀ t, (w'.core.svc t).deptPinnedStarted=(w.core.svc t).deptPinnedStarted)
    (hq : ∃ ys, w'.core.propQueue.Pops ys ∧ ∀ t,
      (w'.core.svc t).deptPinnedStarted=(w.core.svc t).deptPinnedStarted → w'.core.Stale t →
        (w'.core.svc t).propPinDpt=true ∧ w'.Pending ys t) : w'.PinsExact := by
  have hg := hr.frame.core.graph
  obtain ⟨ys,hy,hys⟩ := hq
  exact ⟨h.linked.of_graph hg,h.regular.of_graph hg,ys,hy,fun t => hys t (hd t)⟩

theorem PinsExact.isHard (h : w.PinsExact) (i : Nat) :
    ∀ l ∈ (w.core.svc i).dependsOn, (w.core.link l).isHard=true := fun _ hl => h.regular.isHard hl

theorem pinStart_svc (w : World) (i j : Nat) : (w.pinStart i).core.svc j = { w.core.svc j with
    pinnedStarted := (w.core.svc j).pinnedStarted || decide (j=i)
    propPinDpt := ((w.pinStart i).core.svc j).propPinDpt } := by
  unfold World.pinStart
  dsimp only
  split_ifs with hp hd <;> by_cases hj : j=i
  · subst hj
    simp [← hp]
  · simp [hj]
  · subst hj
    simp
  · simp [hj]
  · subst hj
    simp only [onCore_core,Core.setSvc_svc,if_true]
    rw [queuePinDpt_svc]
    simp
  · simp only [onCore_core,Core.setSvc_svc,if_neg hj]
    rw [queuePinDpt_svc]
    simp [hj]

theorem PinsExact.pinStart (h : w.PinsExact) (i : Nat) : (w.pinStart i).PinsExact := by
  have hr := repinned_pinStart w i
  refine h.of_repinned hr (fun t => by rw [pinStart_svc]) (h.repin hr i true ?_ ?_ ?_ ?_)
  · intro j hj
    rw [pinStart_svc]
    simp [Svc.isStartPinned,hj]
  · intro _
    rw [pinStart_svc]
    simp [Svc.isStartPinned]
  · intro j hj
    have hk := (queuePinDpt_queues w i true (h.isHard i)).1 j hj
    unfold World.pinStart
    dsimp only
    split_ifs <;> by_cases hji : j=i <;> first | simpa [hji] using hj | simpa [hji] using hk
  · intro xs hx
    unfold World.pinStart
    dsimp only
    split_ifs with hp hd
    · exact ⟨xs,hx,fun _ => id,fun hne => absurd rfl hne⟩
    · refine ⟨xs,hx,fun _ => id,fun hne => absurd ?_ hne⟩
      simp [Svc.isStartPinned,hd]
    · obtain ⟨ys,hy,hxy,hys⟩ := (queuePinDpt_queues w i true (h.isHard i)).2 xs hx
      refine ⟨ys,hy,hxy,fun _ l hl hne => ?_⟩
      have hdept : (((w.queuePinDpt i true).core.setSvc i fun s =>
          { s with pinnedStarted := true }).svc (w.core.link l).to_).deptPinnedStarted =
          (w.core.svc (w.core.link l).to_).deptPinnedStarted := by
        rw [Core.setSvc_svc]
        split_ifs with hto
        · rw [hto,queuePinDpt_svc]
        · rw [queuePinDpt_svc]
      obtain ⟨hf,hm⟩ := hys l hl (by rw [← hdept]; exact hne)
      refine ⟨?_,hm⟩
      simp only [onCore_core,Core.setSvc_svc]
      split_ifs with hto
      · rw [hto] at hf
        exact hf
      · exact hf

/-- A record is changed before the loop over its dependencies. -/
theorem setSvc_queuePinDpt (w : World) (i : Nat) (f : Svc → Svc) (b : Bool)
    (hl : (f (w.core.svc i)).dependsOn=(w.core.svc i).dependsOn)
    (hf : (f (w.core.svc i)).propPinDpt=(w.core.svc i).propPinDpt)
    (hard : ∀ l ∈ (w.core.svc i).dependsOn, (w.core.link l).isHard=true) :
    (∀ j, (w.core.svc j).propPinDpt=true →
      (((w.onCore fun c => c.setSvc i f).queuePinDpt i b).core.svc j).propPinDpt=true) ∧
    ∀ xs, w.core.propQueue.Pops xs →
      ∃ ys, ((w.onCore fun c => c.setSvc i f).queuePinDpt i b).core.propQueue.Pops ys ∧
        (∀ x ∈ xs, x ∈ ys) ∧ ∀ l ∈ (w.core.svc i).dependsOn,
          ((w.core.setSvc i f).svc (w.core.link l).to_).deptPinnedStarted≠b →
          (((w.onCore fun c => c.setSvc i f).queuePinDpt i b).core.svc
            (w.core.link l).to_).propPinDpt=true ∧ (w.core.link l).to_ ∈ ys := by
  have hdeps : ((w.onCore fun c => c.setSvc i f).core.svc i).dependsOn=(w.core.svc i).dependsOn := by
    simp [hl]
  obtain ⟨h1,h2⟩ := queuePinDpt_queues (w.onCore fun c => c.setSvc i f) i b (by rw [hdeps]; exact hard)
  refine ⟨fun j hj => h1 j ?_,fun xs hx => ?_⟩
  · by_cases hji : j=i
    · subst hji
      simpa [hf] using hj
    · simpa [hji] using hj
  · obtain ⟨ys,hy,hxy,hys⟩ := h2 xs hx
    rw [hdeps] at hys
    exact ⟨ys,hy,hxy,hys⟩

theorem PinsExact.unpinStart (h : w.PinsExact) (i : Nat) : (w.unpinStart i).PinsExact := by
  have hsvc (j : Nat) : (w.unpinStart i).core.svc j = { w.core.svc j with
      pinnedStarted := (w.core.svc j).pinnedStarted && !decide (j=i)
      propPinDpt := ((w.unpinStart i).core.svc j).propPinDpt } := by
    unfold World.unpinStart
    dsimp only
    split_ifs with hd
    · by_cases hj : j=i <;> simp [hj]
    · rw [queuePinDpt_svc]
      by_cases hj : j=i <;> simp [hj]
  have hr := repinned_unpinStart w i
  obtain ⟨hflag,hqueue⟩ := setSvc_queuePinDpt w i (fun s => { s with pinnedStarted := false }) false
    rfl rfl (h.isHard i)
  refine h.of_repinned hr (fun t => by rw [hsvc]) (h.repin hr i false ?_ ?_ ?_ ?_)
  · intro j hj
    rw [hsvc]
    simp [Svc.isStartPinned,hj]
  · intro hne
    rw [hsvc] at hne ⊢
    cases hd : (w.core.svc i).deptPinnedStarted with
    | true => simp [Svc.isStartPinned,hd] at hne
    | false => simp [Svc.isStartPinned,hd]
  · intro j hj
    unfold World.unpinStart
    dsimp only
    split_ifs
    · by_cases hji : j=i
      · subst hji
        simpa using hj
      · simpa [hji] using hj
    · exact hflag j hj
  · intro xs hx
    have hsame : (w.core.svc i).deptPinnedStarted=true →
        ¬((w.unpinStart i).core.svc i).isStartPinned≠(w.core.svc i).isStartPinned := by
      intro hd
      rw [hsvc]
      simp [Svc.isStartPinned,hd]
    unfold World.unpinStart at hsame ⊢
    dsimp only at hsame ⊢
    split_ifs at hsame ⊢ with hd
    · exact ⟨xs,hx,fun _ => id,fun hne => absurd hne (hsame hd)⟩
    · obtain ⟨ys,hy,hxy,hys⟩ := hqueue xs hx
      refine ⟨ys,hy,hxy,fun _ l hl hne => hys l hl ?_⟩
      rwa [queuePinDpt_svc] at hne

theorem PinsExact.nextFlag (h : w.PinsExact) {i : Nat} (hx : w.ctx.head?=some (i,5))
    (hi : ¬w.core.Stale i) : w.nextFlag.PinsExact := by
  obtain ⟨xs,hxs,hq⟩ := h.queued
  refine ⟨h.linked,h.regular,xs,hxs,fun t ht => ⟨(hq t ht).1,pending_nextFlag hx (hq t ht).2 ?_⟩⟩
  rintro rfl
  exact hi ht

theorem PinsExact.skipPin (h : w.PinsExact) {i : Nat} (hx : w.ctx.head?=some (i,5))
    (hp : (w.core.svc i).propPinDpt=false) : w.nextFlag.PinsExact := by
  obtain ⟨xs,hxs,hq⟩ := h.queued
  refine h.nextFlag hx fun hi => ?_
  rw [(hq i hi).1] at hp
  cases hp

/-- The dependency pin of `i`, recomputed, is right, and those which depend on it are queued. -/
theorem PinsExact.recomputePin (h : w.PinsExact) {i : Nat} (hx : w.ctx.head?=some (i,5)) :
    (w.recomputePin i).nextFlag.PinsExact := by
  have hpin := Core.deptPin_iff (i := i) h.regular h.linked
  have hr := repinned_recomputePin w i
  suffices hw : (w.recomputePin i).PinsExact ∧ ¬(w.recomputePin i).core.Stale i from
    hw.1.nextFlag (by rw [hr.ctx]; exact hx) hw.2
  unfold World.recomputePin at hr ⊢
  dsimp only at hr ⊢
  split_ifs at hr ⊢ with hne
  swap
  · refine ⟨h,fun hs => hs ?_⟩
    rw [← not_not.mp hne]
    exact hpin
  obtain ⟨hflag,hqueue⟩ := setSvc_queuePinDpt w i
    (fun s => { s with deptPinnedStarted := w.core.deptPin i }) (w.core.deptPin i) rfl rfl (h.isHard i)
  set u := (w.onCore fun c => c.setSvc i fun s =>
    { s with deptPinnedStarted := w.core.deptPin i }).queuePinDpt i (w.core.deptPin i) with hu
  have hsvc (j : Nat) : u.core.svc j = { w.core.svc j with
      deptPinnedStarted := if j=i then w.core.deptPin i else (w.core.svc j).deptPinnedStarted
      propPinDpt := (u.core.svc j).propPinDpt } := by
    rw [hu,queuePinDpt_svc]
    by_cases hj : j=i <;> simp [hj]
  have hothers (j : Nat) (hj : j≠i) : (u.core.svc j).isStartPinned=(w.core.svc j).isStartPinned := by
    rw [hsvc]
    simp [Svc.isStartPinned,hj]
  have hself : (u.core.svc i).isStartPinned=((w.core.svc i).pinnedStarted || w.core.deptPin i) := by
    rw [hsvc]
    simp [Svc.isStartPinned]
  have hdept : (w.core.svc i).deptPinnedStarted = !w.core.deptPin i := by
    rw [Bool.eq_not]
    exact Ne.symm hne
  have hg := hr.frame.core.graph
  -- the pin of `i` does not depend on what it is itself
  have habove : u.core.PinnedAbove i ↔ w.core.PinnedAbove i := by
    constructor
    · rintro ⟨l,hl,hp⟩
      rw [hg.dependents] at hl
      rw [hg.from_] at hp
      by_cases hj : (w.core.link l).from_=i
      · rw [hj,hself] at hp
        by_contra hno
        have hfalse : w.core.deptPin i=false := by
          rw [← Bool.not_eq_true,hpin]
          exact hno
        refine hno ⟨l,hl,?_⟩
        rw [hj,Svc.isStartPinned,hdept,hfalse]
        simp
      · exact ⟨l,hl,by rw [← hothers _ hj,hp]⟩
    · intro ha
      obtain ⟨l,hl,hp⟩ := ha
      refine ⟨l,by rwa [hg.dependents],?_⟩
      rw [hg.from_]
      by_cases hj : (w.core.link l).from_=i
      · rw [hj,hself,hpin.mpr ⟨l,hl,hp⟩]
        simp
      · rw [hothers _ hj,hp]
  have hfresh : ¬u.core.Stale i := by
    refine fun hs => hs ?_
    rw [hsvc,habove,← hpin]
    simp
  refine ⟨?_,hfresh⟩
  obtain ⟨ys,hy,hys⟩ := h.repin hr i (w.core.deptPin i) hothers (by
    intro hst
    rw [hself] at hst ⊢
    rw [Svc.isStartPinned,hdept] at hst
    revert hst
    cases w.core.deptPin i <;> cases (w.core.svc i).pinnedStarted <;> decide) hflag (by
    intro xs hxs
    obtain ⟨ys,hy,hxy,hys⟩ := hqueue xs hxs
    refine ⟨ys,hy,hxy,fun _ l hl hd => hys l hl ?_⟩
    rwa [hu,queuePinDpt_svc] at hd)
  refine ⟨h.linked.of_graph hg,h.regular.of_graph hg,ys,hy,fun t ht => ?_⟩
  by_cases hti : t=i
  · subst hti
    exact absurd ht hfresh
  · exact hys t (by rw [hsvc,if_neg hti]) ht

/-- Steps that leave the pins and what is queued alone. -/
theorem PinsExact.quiet (h : w.PinsExact) (hk : PinsKept w w') (hg : w.core.SameGraph w'.core)
    (hr : Raises w w') (ht : w'.trace=w.trace) : w'.PinsExact := by
  refine ⟨h.linked.of_graph hg,h.regular.of_graph hg,?_⟩
  obtain ⟨xs,hx,hq⟩ := h.queued
  obtain ⟨ys,hy,hxy⟩ := hr.carries xs hx
  refine ⟨ys,hy,fun t hs => ?_⟩
  have hpin (i : Nat) : (w'.core.svc i).isStartPinned=(w.core.svc i).isStartPinned := by
    obtain ⟨u,hu,-,hp⟩ := hk.calls
    obtain rfl : u=[] := by
      rw [ht] at hu
      simpa using hu.symm
    have hi : (w'.core.svc i).pinnedStarted=(w.core.svc i).pinnedStarted := by simpa using hp i
    rw [Svc.isStartPinned,Svc.isStartPinned,hi,hk.core.dept]
  rcases Core.stale_of_pins hg h.linked (hk.core.dept t) hs with hs | ⟨i,l,hl,hto,hi,hdt⟩
  · exact ⟨hk.flag t (hq t hs).1,hxy t (hq t hs).2⟩
  · exact absurd (hpin i) hi

/-- A new dependency whose target is pinned already if its source is. -/
theorem PinsExact.linkAt (h : w.PinsExact) (f t m n : Nat)
    (hp : (w.core.svc f).isStartPinned=true → (w.core.svc t).deptPinnedStarted=true) :
    (w.onCore fun c => c.linkAt f t .regular m n).PinsExact := by
  obtain ⟨xs,hx,hq⟩ := h.queued
  have hsvc (j : Nat) : ((w.core.linkAt f t .regular m n).svc j) = { w.core.svc j with
      dependsOn := ((w.core.linkAt f t .regular m n).svc j).dependsOn
      dependents := ((w.core.linkAt f t .regular m n).svc j).dependents } := by
    simp only [Core.linkAt,Core.setSvc_svc,Core.setLink_svc]
    split_ifs <;> simp_all
  have hpin (j : Nat) : ((w.core.linkAt f t .regular m n).svc j).isStartPinned =
      (w.core.svc j).isStartPinned := by
    rw [hsvc]
    rfl
  refine ⟨Core.Linked.linkAt _ f t .regular m n h.linked,?_,xs,hx,fun k hk => ?_⟩
  · intro i l hl
    rw [onCore_core,Core.linkAt_dependsOn] at hl
    rw [onCore_core,Core.linkAt_link]
    split_ifs with hl'
    · rfl
    · split_ifs at hl with hi
      · exact h.regular f l ((mem_insertAt.mp hl).resolve_left hl')
      · exact h.regular i l hl
  -- what is stale was so before, for the new link does not make it so
  have hstale : w.core.Stale k := by
    intro hold
    refine hk ?_
    have hd : ((w.core.linkAt f t .regular m n).svc k).deptPinnedStarted =
        (w.core.svc k).deptPinnedStarted := by rw [hsvc]
    have hnew {l : Nat} (hl : l ∈ (w.core.svc k).dependents) : l≠w.core.nextLink :=
      Nat.ne_of_lt (h.linked.dependents_below hl)
    rw [onCore_core,hd,hold]
    constructor
    · rintro ⟨l,hl,hpl⟩
      refine ⟨l,?_,?_⟩
      · rw [Core.linkAt_dependents]
        split_ifs with hkt
        · rw [← hkt]
          exact mem_insertAt.mpr (.inr hl)
        · exact hl
      · rw [Core.linkAt_link,if_neg (hnew hl),hpin]
        exact hpl
    · rintro ⟨l,hl,hpl⟩
      rw [Core.linkAt_link,hpin] at hpl
      rw [Core.linkAt_dependents] at hl
      split_ifs at hl hpl with hkt hln hln
      · rw [hkt] at hold ⊢
        exact hold.mp (hp hpl)
      · rw [hkt]
        exact ⟨l,(mem_insertAt.mp hl).resolve_left hln,hpl⟩
      · exact absurd hln (hnew hl)
      · exact ⟨l,hl,hpl⟩
  refine ⟨?_,(hq k hstale).2⟩
  rw [onCore_core,hsvc]
  exact (hq k hstale).1

theorem PinsExact.addDep (h : w.PinsExact) {f t : Nat} {depType : DependencyType}
    (hok : PinOk (.addDep f t depType,w.core)) :
    (w.onCore fun c => c.addDep f t depType).PinsExact := by
  obtain ⟨rfl,hp⟩ := hok
  have hlink := h.linkAt f t (w.core.svc f).dependsOn.length (w.core.svc t).dependents.length hp
  have hacq := hlink.quiet (pinsKept_acquire _ w.core.nextLink) (Core.frame_acquire _ _).graph
    (raises_acquire _ _) rfl
  simp only [World.onCore,Core.addDep,Core.addDepAt] at hlink hacq ⊢
  split
  · exact hacq
  · exact hlink

/-- A dependency goes, and its target is still pinned for another dependent if it was. -/
theorem PinsExact.unlink (h : w.PinsExact) {l : Nat} (hok : PinOk (.rmDep l,w.core)) : (w.onCore fun c => c.unlink l).PinsExact := by
  obtain ⟨xs,hx,hq⟩ := h.queued
  have hsvc (j : Nat) : ((w.core.unlink l).svc j) = { w.core.svc j with
      dependsOn := ((w.core.unlink l).svc j).dependsOn
      dependents := ((w.core.unlink l).svc j).dependents } := by
    simp only [Core.unlink,Core.setSvc_svc]
    split_ifs <;> simp_all
  have hpin (j : Nat) : ((w.core.unlink l).svc j).isStartPinned=(w.core.svc j).isStartPinned := by
    rw [hsvc]
    rfl
  refine ⟨h.linked.unlink l,?_,xs,hx,fun k hk => ?_⟩
  · intro i m hm
    rw [onCore_core,Core.unlink_dependsOn] at hm
    split_ifs at hm with hi
    · exact h.regular i m (List.mem_of_mem_erase hm)
    · exact h.regular i m hm
  have hstale : w.core.Stale k := by
    intro hold
    refine hk ?_
    have hd : ((w.core.unlink l).svc k).deptPinnedStarted=(w.core.svc k).deptPinnedStarted := by
      rw [hsvc]
    rw [onCore_core,hd]
    constructor
    · intro hdk
      obtain ⟨m,hm,hpm⟩ := hold.mp hdk
      -- if the link that goes is the one which pins, there is another
      have hother : ∃ m ∈ (w.core.svc k).dependents, m≠l ∧
          (w.core.svc (w.core.link m).from_).isStartPinned=true := by
        by_cases hml : m=l
        · subst hml
          obtain ⟨hto,-⟩ := h.linked.dependents k m hm
          have hok' : PinOk (.rmDep m,w.core) := hok
          rw [← hto] at hdk ⊢
          exact hok' hdk hpm
        · exact ⟨m,hm,hml,hpm⟩
      obtain ⟨m,hm,hml,hpm⟩ := hother
      refine ⟨m,?_,by rw [hpin]; exact hpm⟩
      rw [Core.unlink_dependents]
      split_ifs
      · exact (List.mem_erase_of_ne hml).mpr hm
      · exact hm
    · rintro ⟨m,hm,hpm⟩
      rw [hpin] at hpm
      refine hold.mpr ⟨m,?_,hpm⟩
      rw [Core.unlink_dependents] at hm
      split_ifs at hm
      · exact List.mem_of_mem_erase hm
      · exact hm
  refine ⟨?_,(hq k hstale).2⟩
  rw [onCore_core,hsvc]
  exact (hq k hstale).1

theorem PinsExact.rmDep (h : w.PinsExact) {l : Nat} (hok : PinOk (.rmDep l,w.core)) : (w.onCore fun c => c.rmDep l).PinsExact := by
  have hlink := h.unlink hok
  have hrel := hlink.quiet (pinsKept_release _ (w.core.link l).to_) (Core.frame_release _ _).graph
    (raises_release _ _) rfl
  simp only [World.onCore,Core.rmDep] at hlink hrel ⊢
  split
  · exact hrel
  · exact hlink

end World

/-- Every step leaves the pins exact, if its calls meet the condition. -/
theorem EventStep.pinsExact {w w' : World} (h : EventStep w w') (hw : w.PinsExact)
    (hok : ∀ e ∈ w'.trace, PinOk e) : w'.PinsExact := by
  rcases h.pinsKept with hk | ⟨i,hx,rfl⟩ | ⟨i,rfl | rfl⟩ | ⟨f,t,depType,hc,rfl⟩ | ⟨f,l,hl,hc,rfl⟩
  · rcases h.graph with hg | ⟨f,t,depType,hc,-,rfl⟩ | ⟨f,l,hl,hc,rfl⟩
    · rcases h.raises with hr | hp
      · exact hw.kept hk hg hr.carries hok
      · rcases hp.carries with hc | ⟨i,hx,⟨hf,rfl⟩ | rfl⟩
        · exact hw.kept hk hg hc hok
        · exact hw.skipPin hx hf
        · exact hw.recomputePin hx
    · exact hw.addDep (hok _ (List.mem_of_mem_head? hc))
    · exact hw.rmDep (hok _ (List.mem_of_mem_head? hc))
  · exact hw.recomputePin hx
  · exact hw.pinStart i
  · exact hw.unpinStart i
  · exact hw.addDep (hok _ (List.mem_of_mem_head? hc))
  · exact hw.rmDep (hok _ (List.mem_of_mem_head? hc))

/-- No dependency pin of a set that has just been loaded is set, and nothing is pinned. -/
theorem Core.Fresh.not_stale {c : Core} (hc : c.Fresh) (t : Nat) : ¬c.Stale t := by
  have hpin (j : Nat) : (c.svc j).isStartPinned=false := by
    rw [hc.svc j]
    rfl
  have hdept : (c.svc t).deptPinnedStarted=false := by rw [hc.svc t]
  unfold Core.Stale
  rw [not_not,hdept]
  constructor
  · intro h
    cases h
  · rintro ⟨l,-,hp⟩
    rw [hpin] at hp
    cases hp

theorem load_pinsExact {c : Core} (hc : c.Fresh) (hr : c.AllRegular) :
    (World.load c).PinsExact := by
  refine ⟨hc.linked,hr,[],?_,fun t ht => absurd ht (hc.not_stale t)⟩
  show c.propQueue.Pops []
  rw [hc.propQueue]
  exact Slist.pops_empty

/-- Between two events, what is stale is queued. -/
theorem World.PinsExact.exact {w : World} (h : w.PinsExact) (hx : w.ctx=[])
    (hq : w.core.propQueue.isEmpty=true) (t : Nat) :
    (w.core.svc t).deptPinnedStarted=true ↔ w.core.PinnedAbove t := by
  by_contra ht
  obtain ⟨xs,hp,hs⟩ := h.queued
  obtain rfl : xs=[] := hp.eq_nil (Option.isNone_iff_eq_none.mp hq)
  rcases (hs t ht).2 with hm | ⟨n,hm,-⟩
  · cases hm
  · rw [hx] at hm
    cases hm

/-- In a run that meets the condition, a service has its dependency pin exactly if a
dependent is start-pinned, whenever the queues are empty; and is held started by its own
pin only if none is. -/
theorem dept_pinned_exact {c : Core} (hc : c.Fresh) (hr : c.AllRegular) {w : World}
    (h : ReflTransGen Handles (World.load c) w) (hok : ∀ e ∈ w.trace, PinOk e)
    (hq : w.core.propQueue.isEmpty=true) (_hs : w.core.stopQueue.isEmpty=true) (t : Nat) :
    ((w.core.svc t).deptPinnedStarted=true ↔
      ∃ l ∈ (w.core.svc t).dependents, (w.core.link l).depType=.regular ∧
        (w.core.svc (w.core.link l).from_).isStartPinned=true) ∧
    ((∀ l ∈ (w.core.svc t).dependents,
        (w.core.svc (w.core.link l).from_).isStartPinned=false) →
      (w.core.svc t).isStartPinned=(w.core.svc t).pinnedStarted) := by
  obtain ⟨hx,hs⟩ := handles_steps h
  have hp : w.PinsExact := invariant_of_log (fun w => w.trace) PinOk PinsExact
    (fun s s' hr e he => hr.grows.mem he) (fun s s' hok hi hs => hs.pinsExact hi hok) hs hok
    (load_pinsExact hc hr)
  have he := hp.exact hx hq t
  constructor
  · rw [he]
    refine exists_congr fun l => and_congr_right fun hl => ?_
    have hreg : (w.core.link l).depType=.regular :=
      hp.regular _ l (hp.linked.dependents t l hl).2
    simp [hreg]
  · intro hno
    have hd : (w.core.svc t).deptPinnedStarted=false := by
      by_contra hd
      rw [Bool.not_eq_false,he] at hd
      obtain ⟨l,hl,hp⟩ := hd
      rw [hno l hl] at hp
      cases hp
    simp [Svc.isStartPinned,hd]

/-- A process that depends on an internal service. -/
def processOverInternal : Core :=
  .loaded [{ recordType := .process },{ recordType := .internal }] [{ from_ := 0, to_ := 1 }]

theorem processOverInternal_regular : processOverInternal.AllRegular := by
  intro i l hl
  have hl : l<1 := (Core.loaded_fresh _ _).linked.below i l hl
  obtain rfl : l=0 := by omega
  rfl

/-- The process is started with a pin. -/
def pinnedStart (fork : Option Nat) : List Input :=
  [{ event := .startService 0 true, now := 1, sys := [{ fork := fork }] }]

/-- Its dependency has the pin until the process is unpinned. -/
theorem dept_pinned_started : ∃ w : World,
    ReflTransGen Handles (World.load processOverInternal) w ∧ (∀ e ∈ w.trace, PinOk e) ∧
    (w.core.svc 0).isStartPinned=true ∧ (w.core.svc 1).deptPinnedStarted=true := by
  obtain ⟨w,hw,hp⟩ := handles_of_run (c := processOverInternal) 8 (pinnedStart (some 41))
    (p := fun w => decide (∀ e ∈ w.trace, PinOk e) && (w.core.svc 0).isStartPinned &&
      (w.core.svc 1).dependents.contains 0 && (w.core.link 0).from_==0 &&
      (w.core.link 0).depType==.regular &&
      w.core.propQueue.isEmpty && w.core.stopQueue.isEmpty) (by decide +kernel)
  simp only [Bool.and_eq_true,decide_eq_true_eq,beq_iff_eq,List.contains_iff_mem] at hp
  obtain ⟨⟨⟨⟨⟨⟨hok,h0⟩,hl⟩,hfrom⟩,htype⟩,hq⟩,hs⟩ := hp
  have he := (dept_pinned_exact (Core.loaded_fresh _ _) processOverInternal_regular hw hok hq hs 1).1
  exact ⟨w,hw,hok,h0,he.mpr ⟨0,hl,htype,by rw [hfrom]; exact h0⟩⟩

/-- If the process cannot be started, it loses its pin, and its dependency keeps what it had
from it. -/
theorem dept_pinned_left : ¬∀ (c : Core) (w : World), c.Fresh → c.AllRegular →
    ReflTransGen Handles (World.load c) w → w.core.propQueue.isEmpty=true →
    w.core.stopQueue.isEmpty=true → ∀ t, (w.core.svc t).deptPinnedStarted=true ↔
      ∃ l ∈ (w.core.svc t).dependents, (w.core.link l).depType=.regular ∧
        (w.core.svc (w.core.link l).from_).isStartPinned=true := by
  intro h
  obtain ⟨w,hw,hp⟩ := handles_of_run (c := processOverInternal) 8 (pinnedStart none)
    (p := fun w => (w.core.svc 1).deptPinnedStarted && (w.core.svc 1).dependents==[0] &&
      !(w.core.svc (w.core.link 0).from_).isStartPinned &&
      w.core.propQueue.isEmpty && w.core.stopQueue.isEmpty) (by decide +kernel)
  simp only [Bool.and_eq_true,Bool.not_eq_true',beq_iff_eq] at hp
  obtain ⟨⟨⟨⟨hd,hl⟩,h0⟩,hq⟩,hs⟩ := hp
  obtain ⟨l,hm,-,hp⟩ :=
    (h _ w (Core.loaded_fresh _ _) processOverInternal_regular hw hq hs 1).mp hd
  rw [hl,List.mem_singleton] at hm
  rw [hm,h0] at hp
  cases hp

end Dinit
