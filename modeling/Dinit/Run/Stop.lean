import Dinit.Run.StopFrame

namespace Dinit

open Framework Framework.Comp World Relation

/-- Nothing is said about the end of a run but that it is reached by steps. -/
abbrev anyEnd {α : Type} : α → World → Prop := fun _ _ => True

section
variable {α β : Type} {R : World → World → Prop} {w : World} {Q : β → World → Prop}

theorem within_getSvc {i : Nat} {f : Svc → M β} (h : Within R (f (w.core.svc i)) w Q) :
    Within R (getSvc i >>= f) w Q := h

theorem within_getLink {l : Nat} {f : Link → M β} (h : Within R (f (w.core.link l)) w Q) :
    Within R (getLink l >>= f) w Q := h

theorem within_getCore {f : Core → M β} (h : Within R (f w.core) w Q) :
    Within R (getCore >>= f) w Q := h

theorem within_onCore {f : Core → Core} {k : Unit → M β} (hs : R w (w.onCore f))
    (h : Within R (k ()) (w.onCore f) Q) : Within R (onCore f >>= k) w Q := within_step hs h

theorem within_call {c : Call} {k : Unit → M β} (hs : R w (w.push c))
    (h : Within R (k ()) (w.push c) Q) : Within R (call c >>= k) w Q := within_step hs h

theorem within_sysResult {f : SysResult → M β} (hs : ∀ rs, R w { w with sys := rs })
    (h : ∀ r rs, Within R (f r) { w with sys := rs } Q) : Within R (sysResult >>= f) w Q := by
  unfold sysResult
  apply within_bind
  rcases hw : w.sys with _ | ⟨r,rs⟩
  · refine ⟨by simp [hw,ReflTransGen.refl],?_⟩
    intro r hr
    obtain rfl : ({} : SysResult)=r := by simpa [hw] using hr
    have he : ({ w with sys := [] } : World)=w := by rw [← hw]
    simpa [hw,he] using h {} []
  · refine ⟨by simpa [hw] using .single (hs rs),?_⟩
    intro r' hr
    obtain rfl : r=r' := by simpa [hw] using hr
    simpa [hw] using h r rs

theorem within_then {m : M α} {f : α → M β} (h : Within R m w anyEnd)
    (hf : ∀ a w', ReflTransGen R w w' → Within R (f a) w' Q) : Within R (m >>= f) w Q :=
  within_seq h fun a w' hw _ => hf a w' hw

/-- `if p then m` in a sequence, as `do` blocks write it -/
theorem within_when {p : Prop} [Decidable p] {m : M Unit} {f : Unit → M β}
    (h : p → Within R m w anyEnd)
    (hf : ∀ w', ReflTransGen R w w' → (p ∨ w'=w) → Within R (f ()) w' Q) :
    Within R (if p then m >>= f else f ()) w Q := by
  by_cases hp : p
  · rw [if_pos hp]
    exact within_then (h hp) fun _ w' hw => hf w' hw (.inl hp)
  · rw [if_neg hp]
    exact hf w .refl (.inr rfl)

theorem within_done : Within R (pure () : M Unit) w anyEnd := within_pure trivial

end

/-- `do_stop` at the next level down makes stop steps only. -/
def Rec.StopOk (rec : Rec) : Prop := ∀ i r w, Within StopStep (rec.doStop i r) w anyEnd

section
variable {rec : Rec} (hrec : rec.StopOk)
include hrec

theorem stopReleased_within (i : Nat) (w : World) :
    Within StopStep (stopReleased rec i) w anyEnd := by
  unfold stopReleased
  apply within_getSvc
  apply within_ite
  · intro _
    apply within_onCore (.misc i _ (by constructor <;> rfl))
    exact hrec i false _
  · intro _
    exact within_done

/-- Told to stop, stopping, or stopped: this lasts while `do_stop` runs. -/
def Told (w : World) (i : Nat) (restartDeps : Bool) (l : Nat) : Prop :=
  let t := w.core.svc (w.core.link l).from_
  (w.core.link l).depType=.regular →
    t.propStop=true ∨ t.serviceState=.stopped ∨ t.serviceState=.stopping ∨
      ∃ c, (Call.stopDependent i l,c) ∈ w.trace ∧ c.PassedOver i l restartDeps

omit hrec in
theorem Told.mono {w w' : World} {i l : Nat} {r : Bool} (h : Told w i r l)
    (hf : StopFrame w w') : Told w' i r l := by
  intro hd
  rw [hf.graph.depType] at hd
  rw [hf.graph.from_]
  have hk := hf.svc (w.core.link l).from_
  rcases h hd with h1 | h1 | h1 | ⟨c,hc,hp⟩
  · exact .inl (hk.propStop h1)
  · rcases hk.state with h2 | h2
    · exact .inr (.inr (.inl h2))
    · exact .inr (.inl (h2.1.trans h1))
  · rcases hk.state with h2 | h2
    · exact .inr (.inr (.inl h2))
    · exact .inr (.inr (.inl (h2.1.trans h1)))
  · exact .inr (.inr (.inr ⟨c,hf.grows.mem hc,hp⟩))

omit hrec in
theorem told_of_propStop {w : World} {i l : Nat} {r : Bool}
    (h : (w.core.svc (w.core.link l).from_).propStop=true) : Told w i r l :=
  fun _ => .inl h

omit hrec in
theorem told_of_passedOver {w : World} {i l : Nat} {r : Bool} {c : Core}
    (hc : (Call.stopDependent i l,c) ∈ w.trace) (h : c.PassedOver i l r) : Told w i r l :=
  fun _ => .inr (.inr (.inr ⟨c,hc,h⟩))

omit hrec in
theorem propagateStop_within {w : World} {i l j : Nat} {r : Bool} (f : Svc → Svc)
    (hf : (w.core.svc j).Kept (f (w.core.svc j)) ∨ f=fun s => { s with desiredState := .stopped })
    (hj : (w.core.link l).from_=j) :
    Within StopStep (propagateStop j f) w fun _ w' => Told w' i r l := by
  refine within_modify (.propagateStop j f hf) (told_of_propStop ?_)
  simp [hj]

/-- A dependent that the forced stop does not reach is told to stop by what follows,
or is passed over. -/
theorem stopHardDependent_within (i l : Nat) (r : Bool) (w : World)
    (hc : (Call.stopDependent i l,w.core) ∈ w.trace) :
    Within StopStep (stopHardDependent rec i (w.core.link l).from_ r) w
      fun _ w' => Told w' i r l := by
  set j := (w.core.link l).from_ with hj
  unfold stopHardDependent
  apply within_getSvc
  have hstep : StopStep w (w.onCore fun c => c.forceDependent i j) := .forceDependent i j
  apply within_onCore hstep
  set w1 := w.onCore fun c => c.forceDependent i j with hw1
  have hsvc := Core.forceDependent_svc w.core i j
  have hstate : (w1.core.svc j).serviceState=(w.core.svc j).serviceState := by
    simp only [hw1,onCore_core,hsvc]
    split_ifs <;> simp [Svc.forced] <;> split_ifs <;> rfl
  have hlink : (w1.core.link l).from_=j := by simp [hw1,hj]
  -- what is left when none of the branches below marks the dependent
  have hpass (hs : (w.core.svc j).serviceState≠.stopped)
      (h : (w.core.svc i).desiredState=.stopped
          ∧ ((w.core.svc i).forceStop=true ∨ (w.core.svc j).desiredState=.stopped)
        ∨ (w.core.svc i).desiredState≠.stopped
          ∧ (r=false ∨ (w.core.svc j).serviceState=.stopping)) : Told w1 i r l := by
    by_cases hforce : (w.core.svc i).forceStop=true ∧ (w.core.svc j).isStartPinned=false
    · apply told_of_propStop
      have hp : (w.core.svc j).pinnedStarted=false ∧ (w.core.svc j).deptPinnedStarted=false := by
        simpa [Svc.isStartPinned] using hforce.2
      rw [hlink,hw1,onCore_core,hsvc,if_pos hforce.1]
      split_ifs <;> simp [Svc.forced,hs,hp,Svc.isStartPinned]
    · refine told_of_passedOver (c := w.core) hc ⟨hs,?_,h⟩
      by_cases hfs : (w.core.svc i).forceStop=true
      · exact .inr (by simpa [hfs] using hforce)
      · exact .inl (by simpa using hfs)
  apply within_getSvc
  apply within_ite
  · intro ht
    rw [hstate] at ht
    apply within_ite
    · intro hd
      apply within_ite
      · intro htd
        apply within_ite
        · intro he
          apply within_onCore (.giveUpExplicit j he)
          refine within_then (stopReleased_within hrec j _) ?_
          intro _ w2 hw2
          refine propagateStop_within id (.inl (by constructor <;> rfl)) ?_
          rw [(stopSteps_frame hw2).graph.from_]
          simpa using hlink
        · intro _
          exact propagateStop_within _ (.inr rfl) hlink
      · intro htd
        apply within_pure
        refine hpass ht (.inl ⟨hd,?_⟩)
        by_cases hfs : (w.core.svc i).forceStop=true
        · exact .inl hfs
        · right
          simpa [hw1,hsvc,hfs] using htd
    · intro hd
      apply within_ite
      · intro _
        exact propagateStop_within _ (.inl (by constructor <;> rfl)) hlink
      · intro hr
        apply within_pure
        refine hpass ht (.inr ⟨hd,?_⟩)
        rw [hstate] at hr
        by_cases hrr : r=true
        · right
          simpa [hrr] using hr
        · exact .inl (by simpa using hrr)
  · intro ht
    apply within_pure
    intro _
    rw [hlink]
    exact .inr (.inl (by simpa using ht))

omit hrec in
theorem told_of_not_hard {w w' : World} {i l : Nat} {r : Bool} (h : (w.core.link l).isHard=false)
    (hd : (w'.core.link l).depType=(w.core.link l).depType) : Told w' i r l := by
  intro hreg
  rw [hd] at hreg
  simp [Link.isHard,hreg] at h

theorem stopDependent_within (i l : Nat) (fr r : Bool) (w : World)
    (hl : l ∈ (w.core.svc i).dependents) :
    Within StopStep (stopDependent rec i fr r l) w fun _ w' => Told w' i r l := by
  unfold stopDependent
  apply within_call (.stopDependent i l hl)
  apply within_getLink
  apply within_ite
  · intro _
    apply within_getSvc
    refine within_seq (stopHardDependent_within hrec i l r _ (by simp)) ?_
    intro _ w' _ h
    exact within_pure h
  · intro hh
    have hs : (w.core.link l).isHard=false := by simpa using hh
    dsimp only
    apply within_when
    · intro _
      exact within_modify (.breakSoft i l (by simpa using hl)) trivial
    · intro w' hw' _
      exact within_pure (told_of_not_hard hs ((stopSteps_frame hw').graph.depType l))

theorem stopDependents_within (i : Nat) (fr r : Bool) (ls : List Nat) (w : World)
    (hls : ∀ l ∈ ls, l ∈ (w.core.svc i).dependents) :
    Within StopStep (stopDependents rec i fr r ls) w fun _ w' => ∀ l ∈ ls, Told w' i r l := by
  induction ls generalizing w with
  | nil => exact within_pure (by simp)
  | cons l ls ih =>
    refine within_seq (stopDependent_within hrec i l fr r w (hls l (by simp))) ?_
    intro _ w1 hw1 htold
    have hf := stopSteps_frame hw1
    refine within_seq (ih w1 ?_) ?_
    · intro k hk
      rw [(hf.svc i).links.dependents]
      exact hls k (by simp [hk])
    · intro _ w2 hw2 hrest
      apply within_pure
      intro k hk
      rcases List.mem_cons.mp hk with rfl | hk
      · exact htold.mono (stopSteps_frame hw2)
      · exact hrest k hk

omit hrec in
theorem checkRestart_within (i : Nat) (w : World) :
    Within StopStep (checkRestart i) w fun _ w' =>
      (w'.core.svc i).proc.waitingRestartTimer=(w.core.svc i).proc.waitingRestartTimer := by
  unfold checkRestart
  apply within_getSvc
  apply within_getCore
  apply within_ite
  · intro _
    apply within_ite
    · intro _
      apply within_ite
      · intro _
        exact within_onCore (.giveUp i) (within_pure (by simp))
      · intro _
        exact within_onCore (.misc i _ (by constructor <;> rfl)) (within_pure (by simp))
    · intro _
      exact within_onCore (.misc i _ (by constructor <;> rfl)) (within_pure (by simp))
  · intro _
    exact within_pure rfl

omit hrec in
theorem killPg_within (i signo : Nat) (w : World) (h : w.KillOk i) :
    Within StopStep (killPg i signo) w fun _ w' => w'.core=w.core ∧ Grows w w' ∧ w'.Noted i := by
  unfold killPg
  apply within_call (.killPg i signo h)
  apply within_getSvc
  apply within_ite
  · intro hs
    refine within_modify (.kill i _ signo ?_) ⟨by simp,?_,noted_push _ i _⟩
    · exact (if_pos hs).mpr ⟨rfl,rfl⟩
    · exact (grows_push w _).trans (grows_push _ _)
  · intro hs
    unfold killGroup
    apply within_sysResult
    · intro rs
      exact .sys rs
    · intro r rs
      apply within_call (.getpgid i r.pgid signo (by simp))
      refine within_modify (.kill i _ signo ?_) ⟨by simp,?_,noted_push _ i _⟩
      · exact (if_neg hs).mpr ⟨r.pgid,w.trace,rfl,rfl⟩
      · exact (grows_push w _).trans ⟨[_,_],rfl⟩

omit hrec in
theorem stopForRestart_within (i : Nat) (r : Bool) (w : World) :
    Within StopStep (stopForRestart i r) w anyEnd := by
  unfold stopForRestart
  apply within_getSvc
  apply within_onCore (.misc i _ (by constructor <;> rfl))
  apply within_ite
  · intro _
    refine within_then (within_mono (checkRestart_within i _) fun _ _ _ _ => trivial) ?_
    intro again w' _
    exact within_onCore (.misc i _ (by constructor <;> rfl)) (within_pure trivial)
  · intro _
    exact within_pure trivial

omit hrec in
/-- `interrupt_start` signals the process if there is no restart timer to cancel, and
then changes the record together with what the caller does after it. -/
theorem interruptStart_within {R : World → World → Prop} {P : World → Prop}
    (hR : ∀ w w', StopStep w w' → R w w') (i : Nat) (after : World → World) (w : World)
    (hkill : (w.core.svc i).isProcess=true → (w.core.svc i).proc.waitingRestartTimer=false →
      w.KillOk i)
    (hend : ∀ w' p, w'.core.svc i={ w.core.svc i with proc := p } →
      (w.core.svc i).proc.Alike p → Grows w w' → w'.Noted i → w'.ctx=w.ctx →
      R w' (after (w'.onCore fun c => c.setSvc i Svc.interrupted))
        ∧ P (after (w'.onCore fun c => c.setSvc i Svc.interrupted))) :
    Within R (interruptStart i after) w fun _ w' => P w' := by
  unfold interruptStart
  apply within_call (hR _ _ (.interruptStart i))
  apply within_getSvc
  dsimp only
  apply within_ite
  · intro h
    have hkill_ctx : Within StopStep (killPg i sigInt) (w.push (.interruptStart i)) fun _ w' =>
        (w'.core=w.core ∧ Grows (w.push (.interruptStart i)) w' ∧ w'.Noted i) ∧
          w'.ctx=w.ctx := by
      refine within_mono (killPg_within i sigInt _ ?_) ?_
      · rcases hkill h.1 (by simpa using h.2) with h1 | ⟨c,r,hc,hi⟩
        · exact .inl h1
        · exact .inr ⟨c,r,(grows_push w _).mem hc,hi⟩
      · intro _ w1 hr hw1
        exact ⟨hw1,(stopSteps_frame hr).ctx⟩
    refine within_seq (within_sub hkill_ctx hR) ?_
    intro _ w1 _ ⟨⟨hcore,hg1,hn1⟩,hx1⟩
    have hsvc : w1.core.svc i=w.core.svc i := by rw [hcore]
    have hc : (Call.interruptStart i,w.core) ∈ w1.trace := hg1.mem (by simp)
    have hr : (w1.core.svc i).proc.waitingRestartTimer=false := by
      rw [hsvc]
      simpa using h.2
    apply within_onCore (hR _ _ (.resetTimer i _ w.core hc hsvc (by rw [hsvc]; exact h.1) hr))
    set t := (w.core.svc i).settings.stopTimeout with ht
    have he := hend (w1.onCore fun c => c.setProc i (Proc.resetStopstartTimer t))
      ((w.core.svc i).proc.resetStopstartTimer t) ?_
      ((w.core.svc i).proc.resetStopstartTimer_alike t) ?_ (hn1.setSvc rfl) hx1
    · exact within_step he.1 (within_pure he.2)
    · simp [hsvc]
    · exact ((grows_push w _).trans hg1).trans (grows_onCore _ _)
  · intro _
    have he := hend (w.push (.interruptStart i)) (w.core.svc i).proc rfl (.refl _) (grows_push w _)
      (noted_push w i _) rfl
    exact within_step he.1 (within_pure he.2)

omit hrec in
/-- `do_stop` interrupts a start: the state it was entered in lets the signal through. -/
theorem stopOrInterrupt_within (i : Nat) (r all : Bool) (w : World) (c : Core)
    (hc : (Call.doStop i r,c) ∈ w.trace) (hpin : (c.svc i).isStartPinned=false)
    (hf : (c.svc i).StopKept (w.core.svc i)) (told : w.DependentsTold i r) :
    Within StopStep (stopOrInterrupt i all) w anyEnd := by
  unfold stopOrInterrupt
  apply within_getSvc
  apply within_ite
  · intro hs
    exact within_modify (.beginStop i r all hs told) trivial
  intro _
  apply within_ite
  · intro hs
    apply within_ite
    · intro hw
      exact within_modify (.cancelWait i all hs hw) trivial
    intro hw
    have hd : (w.core.svc i).waitingForDeps=false := by
      by_contra h
      exact hw (.inl (by simpa using h))
    have hcon : (w.core.svc i).waitingForConsole=false := by
      by_contra h
      exact hw (.inr (by simpa using h))
    obtain hk | ⟨hst,hcd,hcc,htimer⟩ := hf.state
    · rw [hs] at hk
      cases hk
    have hset := hf.links.settings
    apply within_ite
    · intro hcan
      refine within_bind (within_mono (interruptStart_within (P := fun _ => True)
        (fun _ _ => id) i _ w ?_ ?_) ?_)
      · intro hproc ht
        right
        refine ⟨c,r,hc,⟨hpin,hst ▸ hs,hcd ▸ hd,hcc ▸ hcon,?_,?_,htimer ▸ ht⟩,hf.pid⟩
        · simpa [Svc.isProcess,Svc.getType,hset] using hproc
        · simpa [Svc.canInterruptStart,hproc,ht,hd,hset] using hcan
      · intro w' p hk hp _ _ _
        refine ⟨?_,trivial⟩
        have hs' : (w'.core.svc i).serviceState=.starting := by rw [hk]; exact hs
        have hd' : (w'.core.svc i).waitingForDeps=false := by rw [hk]; exact hd
        have hcon' : (w'.core.svc i).waitingForConsole=false := by rw [hk]; exact hcon
        have hp' : (w'.core.svc i).isProcess=(w.core.svc i).isProcess := by rw [hk]; rfl
        have hr' : (w'.core.svc i).proc.waitingRestartTimer=
            (w.core.svc i).proc.waitingRestartTimer := by rw [hk]; exact hp.waitingRestartTimer
        split
        · next h =>
          refine .cancelled i all hs' hd' hcon' ?_
          rw [hp',hr']
          rcases h with h | h
          · exact .inl (by simpa using h)
          · exact .inr h
        · next h =>
          refine .interrupt i hs' hd' hcon' ?_ ?_
          · rw [hp']
            by_contra hn
            exact h (.inl hn)
          · rw [hr']
            by_contra hn
            exact h (.inr (by simpa using hn))
      · intro _ w' _ _
        exact within_done
    · intro _
      exact within_done
  · intro _
    exact within_done

theorem doStop_within (i : Nat) (r : Bool) (w : World) :
    Within StopStep (doStop rec i r) w anyEnd := by
  unfold doStop
  apply within_call (.doStop i r)
  apply within_getSvc
  apply within_ite
  · intro _
    exact within_done
  intro hpin
  refine within_then (stopForRestart_within i r _) ?_
  intro fr w1 hw1
  apply within_getSvc
  dsimp only
  apply within_when
  · intro h
    exact within_modify (.dropExplicit i h.2) trivial
  intro w2 hw2 _
  have hf2 := (stopSteps_frame hw1).trans (stopSteps_frame hw2)
  refine within_seq (stopDependents_within hrec i fr r _ w2 ?_) ?_
  · intro l hl
    rw [((stopSteps_frame hw2).svc i).links.dependents]
    exact hl
  · intro all w3 hw3 htold
    have hf3 := hf2.trans (stopSteps_frame hw3)
    refine stopOrInterrupt_within i r all w3 w.core (hf3.grows.mem (by simp)) (by simpa using hpin)
      (hf3.svc i) ?_
    intro l hl
    refine htold l ?_
    rw [((stopSteps_frame hw3).svc i).links.dependents,((stopSteps_frame hw2).svc i).links.dependents] at hl
    exact hl

end
end Dinit
