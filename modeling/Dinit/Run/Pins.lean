import Dinit.Run.Flags
import Dinit.Run.Graph

namespace Dinit

open Framework Framework.Comp World Relation

namespace Core

/-- A dependent of `t` is start-pinned. -/
def PinnedAbove (c : Core) (t : Nat) : Prop :=
  ∃ l ∈ (c.svc t).dependents, (c.svc (c.link l).from_).isStartPinned=true

/-- The dependency pin of `t` is not what its dependents make it. -/
def Stale (c : Core) (t : Nat) : Prop := ¬((c.svc t).deptPinnedStarted=true ↔ c.PinnedAbove t)

/-- All dependencies are REGULAR. -/
def AllRegular (c : Core) : Prop :=
  ∀ i, ∀ l ∈ (c.svc i).dependsOn, (c.link l).depType=.regular

variable {c c' : Core} {i t l : Nat}

theorem AllRegular.of_graph (h : c.AllRegular) (hg : c.SameGraph c') : c'.AllRegular := by
  intro i l hl
  rw [hg.dependsOn] at hl
  rw [hg.depType]
  exact h i l hl

theorem AllRegular.isHard (h : c.AllRegular) (hl : l ∈ (c.svc i).dependsOn) :
    (c.link l).isHard=true := by
  simp [Link.isHard,h i l hl]

theorem deptPin_iff (h : c.AllRegular) (hL : c.Linked) : c.deptPin i=true ↔ c.PinnedAbove i := by
  unfold deptPin PinnedAbove
  rw [List.any_eq_true]
  refine exists_congr fun l => and_congr_right fun hl => ?_
  rw [h.isHard (hL.dependents i l hl).2,Bool.true_and]

/-- The pins of services change: what is newly stale depends on a service that has come to
be pinned, or is pinned itself and depends on one that no longer is. -/
theorem stale_of_pins (hg : c.SameGraph c') (hL : c.Linked)
    (ht : (c'.svc t).deptPinnedStarted=(c.svc t).deptPinnedStarted) (hs : c'.Stale t) :
    c.Stale t ∨ ∃ i, ∃ l ∈ (c.svc i).dependsOn, (c.link l).to_=t ∧
      (c'.svc i).isStartPinned≠(c.svc i).isStartPinned ∧
      (c.svc t).deptPinnedStarted≠(c'.svc i).isStartPinned := by
  by_contra hno
  push Not at hno
  obtain ⟨hfresh,hno⟩ := hno
  refine hs ?_
  rw [ht]
  have hold : (c.svc t).deptPinnedStarted=true ↔ c.PinnedAbove t := by
    by_contra hc
    exact hfresh hc
  -- a dependent whose pin has changed agrees with the dependency pin
  have hflip {l : Nat} (hl : l ∈ (c.svc t).dependents)
      (hne : (c'.svc (c.link l).from_).isStartPinned≠(c.svc (c.link l).from_).isStartPinned) :
      (c.svc t).deptPinnedStarted=(c'.svc (c.link l).from_).isStartPinned := by
    obtain ⟨hto,hfrom⟩ := hL.dependents t l hl
    exact hno _ l hfrom hto hne
  constructor
  · intro hd
    obtain ⟨l,hl,hp⟩ := hold.mp hd
    refine ⟨l,by rwa [hg.dependents],?_⟩
    rw [hg.from_]
    by_cases hne : (c'.svc (c.link l).from_).isStartPinned=(c.svc (c.link l).from_).isStartPinned
    · rw [hne,hp]
    · rw [← hflip hl hne,hd]
  · rintro ⟨l,hl,hp⟩
    rw [hg.dependents] at hl
    rw [hg.from_] at hp
    by_cases hne : (c'.svc (c.link l).from_).isStartPinned=(c.svc (c.link l).from_).isStartPinned
    · exact hold.mpr ⟨l,hl,by rw [← hne,hp]⟩
    · rw [hflip hl hne,hp]

end Core

namespace World

/-- `t` is queued, or its `do_propagation` is under way and has not come to its pin yet. -/
def Pending (w : World) (xs : List Nat) (t : Nat) : Prop := t ∈ xs ∨ ∃ n, (t,n) ∈ w.ctx ∧ n ≤ 5

/-- Each service whose dependency pin is stale will have it looked at. -/
def PinsQueued (w : World) : Prop :=
  ∃ xs, w.core.propQueue.Pops xs ∧ ∀ t, w.core.Stale t →
    (w.core.svc t).propPinDpt=true ∧ w.Pending xs t

/-- What is to be looked at still is. -/
def Carries (w w' : World) : Prop :=
  ∀ xs, w.core.propQueue.Pops xs → ∃ ys, w'.core.propQueue.Pops ys ∧
    ∀ t, w.Pending xs t → w'.Pending ys t

end World

theorem Raises.carries {w w' : World} (h : Raises w w') : Carries w w' := by
  intro xs hx
  obtain ⟨ys,hy,hxy,-⟩ := h.queue xs hx
  refine ⟨ys,hy,fun t ht => ?_⟩
  unfold Pending
  rw [h.ctx]
  exact ht.imp_left (hxy t)

namespace World

theorem Carries.trans {w w' w'' : World} (h : Carries w w') (h' : Carries w' w'') :
    Carries w w'' := by
  intro xs hx
  obtain ⟨ys,hy,hxy⟩ := h xs hx
  obtain ⟨zs,hz,hyz⟩ := h' ys hy
  exact ⟨zs,hz,fun t ht => hyz t (hxy t ht)⟩

/-- The stage of the innermost `do_propagation` goes on. -/
theorem carries_nextFlag {w : World} {i k : Nat} (hx : w.ctx.head?=some (i,k)) (hk : k<5) :
    Carries w w.nextFlag := by
  intro xs hxs
  refine ⟨xs,hxs,fun t ht => ht.imp_right ?_⟩
  rintro ⟨n,hn,hn5⟩
  unfold nextFlag
  rcases hctx : w.ctx with _ | ⟨e,rest⟩
  · rw [hctx] at hx
    cases hx
  · rw [hctx] at hx hn
    obtain rfl : e=(i,k) := Option.some.inj hx
    rcases List.mem_cons.mp hn with he | hn
    · obtain ⟨rfl,rfl⟩ : t=i ∧ n=k := by simpa using he
      exact ⟨n+1,List.mem_cons_self,by omega⟩
    · exact ⟨n,List.mem_cons_of_mem _ hn,hn5⟩

/-- What is to be looked at still is, once the pin of the service at hand has been. -/
theorem pending_nextFlag {w : World} {i : Nat} (hx : w.ctx.head?=some (i,5)) {xs : List Nat}
    {t : Nat} (ht : w.Pending xs t) (hti : t≠i) : w.nextFlag.Pending xs t := by
  refine ht.imp_right ?_
  rintro ⟨n,hn,hn5⟩
  unfold nextFlag
  rcases hctx : w.ctx with _ | ⟨e,rest⟩
  · rw [hctx] at hx
    cases hx
  · rw [hctx] at hx hn
    obtain rfl : e=(i,5) := Option.some.inj hx
    rcases List.mem_cons.mp hn with he | hn
    · exact absurd (by simpa using congrArg Prod.fst he) hti
    · exact ⟨n,List.mem_cons_of_mem _ hn,hn5⟩

theorem carries_pop {w : World} {i : Nat} (hi : w.core.propQueue.first=some i) :
    Carries w (w.popPropagation i) := by
  intro xs hx
  cases xs with
  | nil =>
    rw [hx.1] at hi
    cases hi
  | cons x xs =>
    obtain rfl : x=i := by simpa [hi] using hx.1.symm
    refine ⟨xs,hx.2,fun t ht => ?_⟩
    rcases ht with ht | ⟨n,hn,hn5⟩
    · rcases List.mem_cons.mp ht with rfl | ht
      · exact .inr ⟨0,List.mem_cons_self,Nat.zero_le 5⟩
      · exact .inl ht
    · exact .inr ⟨n,List.mem_cons_of_mem _ hn,hn5⟩

theorem carries_leave {w : World} {i : Nat} (hx : w.ctx.head?=some (i,6)) :
    Carries w w.leavePropagation := by
  intro xs hxs
  refine ⟨xs,hxs,fun t ht => ht.imp_right ?_⟩
  rintro ⟨n,hn,hn5⟩
  unfold leavePropagation
  rcases hctx : w.ctx with _ | ⟨e,rest⟩
  · rw [hctx] at hx
    cases hx
  · rw [hctx] at hx hn
    obtain rfl : e=(i,6) := Option.some.inj hx
    rcases List.mem_cons.mp hn with he | hn
    · have : n=6 := by simpa using congrArg Prod.snd he
      omega
    · exact ⟨n,hn,hn5⟩

end World

/-- Each step of `do_propagation` before it comes to the pin. -/
theorem PropagationStep.carries {w w' : World} (h : PropagationStep w w') :
    Carries w w' ∨ ∃ i, w.ctx.head?=some (i,5) ∧
      ((w.core.svc i).propPinDpt=false ∧ w'=w.nextFlag ∨ w'=(w.recomputePin i).nextFlag) := by
  cases h with
  | pop i h => exact .inl (carries_pop h)
  | next i k u hx hk hu hf =>
    exact .inl (hu.carries.trans (carries_nextFlag (by rw [hu.ctx]; exact hx) hk))
  | skipPin i hx hp => exact .inr ⟨i,hx,.inl ⟨hp,rfl⟩⟩
  | recomputePin i hx => exact .inr ⟨i,hx,.inr rfl⟩
  | leave i h => exact .inl (carries_leave h)
  | failed i u w' hx hu hf hr =>
    exact .inl ((hu.carries.trans (carries_nextFlag (by rw [hu.ctx]; exact hx) (by decide))).trans
      hr.carries)

/-- A record update that leaves pins and dependencies alone, and forgets no pin that is to be
looked at. -/
structure Svc.SamePins (s s' : Svc) : Prop where
  dept : s'.deptPinnedStarted=s.deptPinnedStarted
  pinned : s'.pinnedStarted=s.pinnedStarted
  dependsOn : s'.dependsOn=s.dependsOn
  flag : s.propPinDpt=true → s'.propPinDpt=true

theorem Svc.SamePins.refl (s : Svc) : s.SamePins s := ⟨rfl,rfl,rfl,id⟩

theorem Svc.SamePins.trans {s s' s'' : Svc} (h : s.SamePins s') (h' : s'.SamePins s'') :
    s.SamePins s'' :=
  ⟨h'.dept.trans h.dept,h'.pinned.trans h.pinned,h'.dependsOn.trans h.dependsOn,
    fun hs => h'.flag (h.flag hs)⟩

theorem Svc.Kept.samePins {s s' : Svc} (h : s.Kept s') : s.SamePins s' :=
  ⟨h.deptPinnedStarted,h.pinnedStarted,h.dependsOn,fun hs => by rw [h.propPinDpt,hs]⟩

/-- Dependency pins and dependencies are the same. -/
structure Core.DeptsAlike (c c' : Core) : Prop where
  dept : ∀ i, (c'.svc i).deptPinnedStarted=(c.svc i).deptPinnedStarted
  dependsOn : ∀ i, (c'.svc i).dependsOn=(c.svc i).dependsOn
  to_ : ∀ l, (c'.link l).to_=(c.link l).to_

theorem Core.DeptsAlike.refl (c : Core) : c.DeptsAlike c := ⟨fun _ => rfl,fun _ => rfl,fun _ => rfl⟩

theorem Core.DeptsAlike.trans {c c' c'' : Core} (h : c.DeptsAlike c') (h' : c'.DeptsAlike c'') :
    c.DeptsAlike c'' :=
  ⟨fun i => (h'.dept i).trans (h.dept i),fun i => (h'.dependsOn i).trans (h.dependsOn i),
    fun l => (h'.to_ l).trans (h.to_ l)⟩

/-- No dependency pin has changed, and no service is pinned that was not; those that have lost
their pin have failed to start since. -/
structure PinsKept (w w' : World) : Prop where
  core : w.core.DeptsAlike w'.core
  flag : ∀ i, (w.core.svc i).propPinDpt=true → (w'.core.svc i).propPinDpt=true
  calls : ∃ t, w'.trace=t++w.trace ∧ (∀ e ∈ t, w.core.DeptsAlike e.2) ∧
    ∀ i, (w'.core.svc i).pinnedStarted=(w.core.svc i).pinnedStarted ∨
      (w'.core.svc i).pinnedStarted=false ∧
        ∃ b c, (Call.failedToStart i b,c) ∈ t ∧ (c.svc i).pinnedStarted=true

namespace PinsKept

variable {w w' w'' : World}

theorem of_svc (ht : w'.trace=w.trace) (hs : ∀ i, (w.core.svc i).SamePins (w'.core.svc i))
    (hl : ∀ l, (w'.core.link l).to_=(w.core.link l).to_) : PinsKept w w' :=
  ⟨⟨fun i => (hs i).dept,fun i => (hs i).dependsOn,hl⟩,fun i => (hs i).flag,[],ht,by simp,
    fun i => .inl (hs i).pinned⟩

theorem refl (w : World) : PinsKept w w := .of_svc rfl (fun _ => .refl _) fun _ => rfl

theorem trans (h : PinsKept w w') (h' : PinsKept w' w'') : PinsKept w w'' := by
  obtain ⟨t,ht,hc,hp⟩ := h.calls
  obtain ⟨t',ht',hc',hp'⟩ := h'.calls
  refine ⟨h.core.trans h'.core,fun i hi => h'.flag i (h.flag i hi),t'++t,?_,?_,?_⟩
  · rw [ht',ht,List.append_assoc]
  · intro e he
    rcases List.mem_append.mp he with he | he
    · exact h.core.trans (hc' e he)
    · exact hc e he
  · intro i
    rcases hp' i with hi | ⟨hi,b,c,he,hb⟩
    · rcases hp i with hj | ⟨hj,b,c,he,hb⟩
      · exact .inl (hi.trans hj)
      · exact .inr ⟨hi.trans hj,b,c,List.mem_append_right t' he,hb⟩
    · exact .inr ⟨hi,b,c,List.mem_append_left t he,hb⟩

theorem push (w : World) (k : Call) : PinsKept w (w.push k) := by
  refine ⟨.refl _,fun _ => id,[(k,w.core)],rfl,?_,fun _ => .inl rfl⟩
  intro e he
  obtain rfl : e=(k,w.core) := by simpa using he
  exact .refl _

theorem setProp (w : World) (i : Nat) (f : Svc → Svc) (q : Bool)
    (hf : (w.core.svc i).SamePins (f (w.core.svc i))) :
    PinsKept w (w.onCore fun c => c.setProp i f q) := by
  refine .of_svc rfl (fun j => ?_) fun l => by simp
  rw [onCore_core,Core.setProp_svc]
  split_ifs with hj
  · rw [hj]
    exact hf
  · exact .refl _

theorem setSvc (w : World) (i : Nat) (f : Svc → Svc)
    (hf : (w.core.svc i).SamePins (f (w.core.svc i))) :
    PinsKept w (w.onCore fun c => c.setSvc i f) :=
  .setProp w i f false hf

/-- Neither records nor the ends of links. -/
theorem onCore {f : Core → Core} (hs : (f w.core).svc=w.core.svc)
    (hl : ∀ l, ((f w.core).link l).to_=(w.core.link l).to_) : PinsKept w (w.onCore f) := by
  refine .of_svc rfl (fun j => ?_) hl
  rw [onCore_core,hs]
  exact .refl _

end PinsKept

theorem pinsKept_release (w : World) (i : Nat) : PinsKept w (w.onCore fun c => c.release i) := by
  refine .setProp w i _ _ ?_
  unfold Svc.released
  split_ifs <;> exact ⟨rfl,rfl,rfl,id⟩

theorem pinsKept_forcedStop (w : World) (i : Nat) :
    PinsKept w (w.onCore fun c => c.forcedStop i) := by
  refine .setProp w i _ _ ?_
  unfold Svc.forced
  split_ifs <;> exact ⟨rfl,rfl,rfl,id⟩

theorem pinsKept_unrecoverableStop (w : World) (i : Nat) :
    PinsKept w (w.onCore fun c => c.unrecoverableStop i) :=
  (PinsKept.setSvc w i (fun s => { s with desiredState := .stopped }) ⟨rfl,rfl,rfl,id⟩).trans
    (pinsKept_forcedStop _ i)

theorem pinsKept_acquire (w : World) (l : Nat) : PinsKept w (w.onCore fun c => c.acquire l) := by
  have hreq : PinsKept w (w.onCore fun c => c.require (w.core.link l).to_) :=
    .setProp w _ _ _ ⟨rfl,rfl,rfl,id⟩
  refine hreq.trans (.onCore (f := fun c => c.setLink l fun d => { d with holdingAcq := true })
    rfl fun k => ?_)
  rw [Core.setLink_link]
  split_ifs with hk
  · rw [hk]
  · rfl

theorem loose_pinsKept : Loose PinsKept where
  refl := .refl
  trans := .trans
  push := .push
  plain w i f h := .setSvc w i f ⟨h.deptPinnedStarted,h.pinnedStarted,h.dependsOn,fun hi => by
    rw [h.propPinDpt,hi]⟩
  queue w i := .onCore rfl fun _ => rfl
  active w n := .onCore rfl fun _ => rfl
  waiting w ls b := by
    refine .onCore rfl fun l => ?_
    rw [Core.setLinks_link]
    split_ifs <;> rfl
  unhold w l := by
    refine .onCore rfl fun k => ?_
    rw [Core.setLink_link]
    split_ifs with hk
    · rw [hk]
    · rfl
  acquire w l _ := pinsKept_acquire w l
  attach w i _ _ := by
    have hsoft : PinsKept (w.push (.doStart i)) ((w.push (.doStart i)).onCore fun c =>
        { c.setLinks (c.softDependents i) fun d => { d with holdingAcq := true } with
          activeServices := c.activeServices+1 }) := by
      refine .onCore rfl fun l => ?_
      dsimp only
      rw [Core.setLinks_link]
      split_ifs <;> rfl
    exact ((PinsKept.push w (.doStart i)).trans hsoft).trans (.setProp _ i _ _ ⟨rfl,rfl,rfl,id⟩)
  release := pinsKept_release
  failure w i := .setProp w i _ true ⟨rfl,rfl,rfl,id⟩
  unqueue w i := (PinsKept.setSvc w i (fun s => { s with waitingForConsole := false })
    ⟨rfl,rfl,rfl,id⟩).trans (.onCore (f := fun c =>
      { c with consoleQueue := (w.core.unqueueConsole i).consoleQueue }) rfl fun _ => rfl)
  cancelled w i b h := by
    obtain ⟨t,ht,hc,hp⟩ := h.calls
    obtain ⟨u,hu⟩ := cancelling_calls w i b
    have htu : t=u++[(.failedToStart i b,w.core)] := by
      rw [ht] at hu
      exact List.append_cancel_right (hu.trans (by simp))
    refine ⟨⟨fun j => ?_,fun j => ?_,h.core.to_⟩,fun j hj => ?_,t,ht,hc,fun j => ?_⟩
    · rw [← h.core.dept j,cancelStart_svc]
      split_ifs <;> rfl
    · rw [← h.core.dependsOn j,cancelStart_svc]
      split_ifs <;> rfl
    · rw [cancelStart_svc]
      split_ifs <;> exact h.flag j hj
    · rw [cancelStart_svc]
      split_ifs with hji
      · subst hji
        by_cases hpin : (w.core.svc j).pinnedStarted=true
        · exact .inr ⟨rfl,b,w.core,by simp [htu],hpin⟩
        · left
          simpa using hpin
      · exact hp j

theorem pinsKept_forceDependent (w : World) (i j : Nat) :
    PinsKept w (w.onCore fun c => c.forceDependent i j) := by
  have heq : w.onCore (fun c => c.forceDependent i j) =
      if (w.core.svc i).forceStop then
        if (w.core.svc i).desiredState = .stopped then
          (w.onCore fun c => c.setSvc j fun s => { s with stopReason := .depfailed }).onCore
            fun c => c.unrecoverableStop j
        else w.onCore fun c => c.forcedStop j
      else w := by
    simp only [World.onCore,Core.forceDependent]
    split_ifs <;> rfl
  rw [heq]
  split_ifs
  · exact (PinsKept.setSvc w j (fun s => { s with stopReason := .depfailed })
      ⟨rfl,rfl,rfl,id⟩).trans (pinsKept_unrecoverableStop _ j)
  · exact pinsKept_forcedStop w j
  · exact .refl w

theorem pinsKept_interrupted (w : World) (i : Nat) :
    PinsKept w (w.onCore fun c => c.setSvc i Svc.interrupted) := by
  refine .setSvc w i _ ?_
  unfold Svc.interrupted
  split_ifs <;> exact ⟨rfl,rfl,rfl,id⟩

theorem StopStep.pinsKept {w w' : World} (h : StopStep w w') : PinsKept w w' := by
  cases h with
  | misc i f h => exact .setSvc w i f h.samePins
  | sys rs => exact .of_svc rfl (fun _ => .refl _) fun _ => rfl
  | doStop i r => exact .push w _
  | stopDependent i l h => exact .push w _
  | giveUp i => exact .setSvc w i _ ⟨rfl,rfl,rfl,id⟩
  | dropExplicit i h => exact loose_pinsKept.dropExplicit w i
  | forceDependent i j => exact pinsKept_forceDependent w i j
  | giveUpExplicit j h =>
    exact (PinsKept.setSvc w j (fun s => { s with desiredState := .stopped })
      ⟨rfl,rfl,rfl,id⟩).trans (loose_pinsKept.dropExplicit _ j)
  | propagateStop j f h =>
    refine .setProp w j _ true ?_
    rcases h with h | rfl
    · exact ⟨h.samePins.dept,h.samePins.pinned,h.samePins.dependsOn,h.samePins.flag⟩
    · exact ⟨rfl,rfl,rfl,id⟩
  | breakSoft i l h => exact loose_pinsKept.breakSoft w i l
  | interruptStart i => exact .push w _
  | killPg i signo h => exact .push w _
  | getpgid i g signo h => exact .push w _
  | kill i target signo h => exact .push w _
  | beginStop i r all h told => exact loose_pinsKept.beginStop w i all
  | cancelWait i all h hw => exact loose_pinsKept.cancelWait w i all
  | resetTimer i timeout c hc hi hp hr => exact .setSvc w i _ ⟨rfl,rfl,rfl,id⟩
  | interrupt i h hd hc hp ht => exact (pinsKept_interrupted w i).trans (loose_pinsKept.push _ _)
  | cancelled i all h hd hc hp =>
    exact ((pinsKept_interrupted w i).trans (loose_pinsKept.push _ (.startCancelled i))).trans
      (loose_pinsKept.beginStop _ i all)

theorem pinsKept_nextFlag (w : World) : PinsKept w w.nextFlag :=
  .of_svc rfl (fun _ => .refl _) fun _ => rfl

/-- Every step but the recomputation of a dependency pin leaves the pins alone. -/
theorem Step.pinsKept {w w' : World} (h : Step w w') : PinsKept w w' ∨
    ∃ i, w.ctx.head?=some (i,5) ∧ w'=(w.recomputePin i).nextFlag := by
  have hset (u : World) (i : Nat) (f : Svc → Svc) (hf : (u.core.svc i).SamePins (f (u.core.svc i))) :
      PinsKept u (u.onCore fun c => c.setSvc i f) := .setSvc u i f hf
  have hnext (i : Nat) (f : Svc → Svc) (hf : (w.core.svc i).SamePins (f (w.core.svc i))) :
      PinsKept w (w.onCore fun c => c.setSvc i f).nextFlag := (hset w i f hf).trans (pinsKept_nextFlag _)
  have hkept (i : Nat) (f : Svc → Svc) {s : Svc} (hk : s.Kept (f (w.core.svc i)))
      (hs : (w.core.svc i).SamePins s) : PinsKept w (w.onCore fun c => c.setSvc i f) :=
    hset w i f (hs.trans hk.samePins)
  have hcancel (u : World) (i : Nat) (b : Bool) : PinsKept u (u.cancelStart i b) :=
    loose_pinsKept.cancelStart u i b
  cases h with
  | recomputePin i h => exact .inr ⟨i,h,rfl⟩
  | stop h => exact .inl h.pinsKept
  | call k h => exact .inl (.push w k)
  | consoleLog release busy => exact .inl (.onCore rfl fun _ => rfl)
  | popConsole i rest h =>
    exact .inl ((PinsKept.onCore (f := fun c => { c with consoleQueue := rest }) rfl
      fun _ => rfl).trans (.push _ _))
  | queueForConsole i h hc =>
    exact .inl ((hset w i (fun s => { s with waitingForConsole := true }) ⟨rfl,rfl,rfl,id⟩).trans
      (.onCore (f := fun c => { c with consoleQueue := w.core.consoleQueue++[i] }) rfl fun _ => rfl))
  | popPropagation i h =>
    have hq := (PinsKept.onCore (w := w) (f := fun c => { c with propQueue := c.propQueue.popFront i })
      rfl fun _ => rfl).trans (.push _ (.doPropagation i))
    exact .inl ⟨hq.core,hq.flag,hq.calls⟩
  | popTransition i hp h =>
    exact .inl ((PinsKept.onCore (f := fun c => { c with stopQueue := c.stopQueue.popFront i }) rfl
      fun _ => rfl).trans (.push _ _))
  | skipFlag i k h hk hf => exact .inl (pinsKept_nextFlag w)
  | skipPin i h hp => exact .inl (pinsKept_nextFlag w)
  | clearRelease i h => exact .inl (hnext i _ ⟨rfl,rfl,rfl,id⟩)
  | clearStart i h => exact .inl (hnext i _ ⟨rfl,rfl,rfl,id⟩)
  | clearStop i h => exact .inl (hnext i _ ⟨rfl,rfl,rfl,id⟩)
  | leavePropagation i h => exact .inl (.of_svc rfl (fun _ => .refl _) fun _ => rfl)
  | requireDependencies i h hc hp =>
    exact .inl (((loose_pinsKept.requireDependencies w i).trans (hset _ i _ ⟨rfl,rfl,rfl,id⟩)).trans
      (pinsKept_nextFlag _))
  | dropLink i l hl hh hp ht => exact .inl (loose_pinsKept.dropLink w l _)
  | failure i h hp => exact .inl ((hnext i _ ⟨rfl,rfl,rfl,id⟩).trans (hcancel _ i true))
  | doStart i => exact .inl (loose_pinsKept.doStart w i)
  | initiateStart i hs hd hp => exact .inl (loose_pinsKept.initiateStart w i)
  | becomeStarted i => exact .inl (loose_pinsKept.becomeStarted w i)
  | becomeStopped i => exact .inl (loose_pinsKept.becomeStopped w i)
  | cancelStart i immediate f h => exact .inl ((hset w i f h.samePins).trans (hcancel _ i immediate))
  | cancelStopping i immediate f h hs hn =>
    exact .inl ((hkept i f h ⟨rfl,rfl,rfl,id⟩).trans (hcancel _ i immediate))
  | cancelTimeout i f h hp hs hn =>
    refine .inl (((pinsKept_interrupted w i).trans (hset _ i f ?_)).trans (hcancel _ i false))
    simpa using h.samePins
  | forcedStop i => exact .inl (pinsKept_forcedStop w i)
  | unrecoverableStop i => exact .inl (pinsKept_unrecoverableStop w i)
  | setForceStop i f h => exact .inl (hkept i f h ⟨rfl,rfl,rfl,id⟩)
  | fork i n f c hc hk h => exact .inl (hkept i f h ⟨rfl,rfl,rfl,id⟩)
  | stopTimer i f h => exact .inl (hkept i f h ⟨rfl,rfl,rfl,id⟩)
  | readPid i f hx hb h hk ht => exact .inl (hset w i _ ⟨rfl,rfl,rfl,id⟩)
  | _ => exact .inl (hset w _ _ ⟨rfl,rfl,rfl,id⟩)

/-- What events do besides is to pin and unpin, and to change the graph. -/
theorem EventStep.pinsKept {w w' : World} (h : EventStep w w') : PinsKept w w' ∨
    (∃ i, w.ctx.head?=some (i,5) ∧ w'=(w.recomputePin i).nextFlag) ∨
    (∃ i, w'=w.pinStart i ∨ w'=w.unpinStart i) ∨
    (∃ f t depType, w.trace.head?=some (.addDep f t depType,w.core) ∧
      w'=w.onCore fun c => c.addDep f t depType) ∨
    ∃ f l, l ∈ (w.core.svc f).dependsOn ∧ w.trace.head?=some (.rmDep l,w.core) ∧
      w'=w.onCore fun c => c.rmDep l := by
  have hset (i : Nat) (f : Svc → Svc) (hf : (w.core.svc i).SamePins (f (w.core.svc i))) :
      PinsKept w (w.onCore fun c => c.setSvc i f) := .setSvc w i f hf
  cases h with
  | step h => exact h.pinsKept.imp_right .inl
  | call k h => exact .inl (.push w k)
  | now t => exact .inl (.onCore rfl fun _ => rfl)
  | noRestart => exact .inl (.onCore rfl fun _ => rfl)
  | stopRelease i hr hd hp => exact .inl (.setProp w i _ _ ⟨rfl,rfl,rfl,id⟩)
  | pinStart i => exact .inr (.inr (.inl ⟨i,.inl rfl⟩))
  | unpinStart i c hc => exact .inr (.inr (.inl ⟨i,.inr rfl⟩))
  | unpinRelease i c hc hp hq hs hr hd => exact .inl (.setProp w i _ true ⟨rfl,rfl,rfl,id⟩)
  | acquire l j hl h hc => exact .inl (pinsKept_acquire w l)
  | addDep f t depType h hm => exact .inr (.inr (.inr (.inl ⟨f,t,depType,h,rfl⟩)))
  | rmDep f l hl h => exact .inr (.inr (.inr (.inr ⟨f,l,hl,h,rfl⟩)))
  | expire i h =>
    exact .inl (((hset i _ ⟨rfl,rfl,rfl,id⟩).trans (.push _ _)).trans
      (.setSvc _ i Svc.timedOut ⟨rfl,rfl,rfl,id⟩))
  | _ => exact .inl (hset _ _ ⟨rfl,rfl,rfl,id⟩)

end Dinit
