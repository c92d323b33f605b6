import Dinit.Run.Graph

namespace Dinit

open Framework Framework.Comp World Relation

/-- The link, if it is a hard one, keeps its target from stopping. -/
def Core.keeps (c : Core) (l : Nat) : Bool := (c.link l).holdingAcq && !(c.link l).waitingOn

theorem Svc.SameState.stopped {s s' : Svc} (h : s.SameState s') :
    s'.isFundamentallyStopped=s.isFundamentallyStopped := by
  unfold isFundamentallyStopped
  rw [h.serviceState,h.waitingForDeps]

theorem Svc.Kept.stopped {s s' : Svc} (h : s.Kept s') :
    s'.isFundamentallyStopped=s.isFundamentallyStopped := by
  unfold isFundamentallyStopped
  rw [h.serviceState,h.waitingForDeps]

namespace World

/-- `s` runs or does not run as before and throughout, and no REGULAR link but those in `ls`
keeps its target no longer. -/
structure Steady (s : Nat) (ls : List Nat) (w w' : World) : Prop where
  stopped : (w'.core.svc s).isFundamentallyStopped=(w.core.svc s).isFundamentallyStopped
  calls : ∃ new, w'.trace=new++w.trace ∧ ∀ e ∈ new,
    (e.2.svc s).isFundamentallyStopped=(w.core.svc s).isFundamentallyStopped
  depType : ∀ l, (w'.core.link l).depType=(w.core.link l).depType
  kept : ∀ l, l ∉ ls → (w.core.link l).depType=.regular → w.core.keeps l=true →
    w'.core.keeps l=true

variable {s i k l : Nat} {ls : List Nat} {w w' w'' : World}

namespace Steady

theorem refl (w : World) : Steady s ls w w := ⟨rfl,⟨[],rfl,by simp⟩,fun _ => rfl,fun _ _ _ => id⟩

theorem trans (h : Steady s ls w w') (h' : Steady s ls w' w'') : Steady s ls w w'' where
  stopped := h'.stopped.trans h.stopped
  calls := by
    obtain ⟨new,hn,hs⟩ := h.calls
    obtain ⟨new',hn',hs'⟩ := h'.calls
    refine ⟨new'++new,by rw [hn',hn,List.append_assoc],fun e he => ?_⟩
    rcases List.mem_append.mp he with he | he
    · exact (hs' e he).trans h.stopped
    · exact hs e he
  depType l := (h'.depType l).trans (h.depType l)
  kept l hl hr hk := h'.kept l hl ((h.depType l).trans hr) (h.kept l hl hr hk)

theorem push (w : World) (k : Call) : Steady s ls w (w.push k) :=
  { refl w with calls := ⟨[(k,w.core)],rfl,by simp⟩ }

/-- The links are left alone. -/
theorem of_svc (hs : (w'.core.svc s).isFundamentallyStopped=(w.core.svc s).isFundamentallyStopped)
    (hl : w'.core.link=w.core.link) (ht : w'.trace=w.trace) : Steady s ls w w' := by
  refine ⟨hs,⟨[],ht,by simp⟩,fun l => by rw [hl],fun l _ _ => ?_⟩
  unfold Core.keeps
  rw [hl]
  exact id

/-- The records are left alone. -/
theorem of_link (hs : w'.core.svc=w.core.svc) (ht : w'.trace=w.trace)
    (hd : ∀ l, (w'.core.link l).depType=(w.core.link l).depType)
    (hk : ∀ l, l ∉ ls → (w.core.link l).depType=.regular → w.core.keeps l=true →
      w'.core.keeps l=true) : Steady s ls w w' :=
  ⟨by rw [hs],⟨[],ht,by simp⟩,hd,hk⟩

theorem setSvc (w : World) {i : Nat} {f : Svc → Svc} (h : s=i →
      (f (w.core.svc i)).isFundamentallyStopped=(w.core.svc i).isFundamentallyStopped) :
    Steady s ls w (w.onCore fun c => c.setSvc i f) := by
  refine of_svc ?_ rfl rfl
  by_cases hs : s=i
  · rw [hs,onCore_core,Core.setSvc_svc,if_pos rfl]
    exact h hs
  · rw [onCore_core,Core.setSvc_svc,if_neg hs]

theorem setProp (w : World) (i : Nat) {f : Svc → Svc} (q : Bool)
    (h : (f (w.core.svc i)).isFundamentallyStopped=(w.core.svc i).isFundamentallyStopped) :
    Steady s ls w (w.onCore fun c => c.setProp i f q) := by
  refine of_svc ?_ (by simp) rfl
  rw [onCore_core,Core.setProp_svc]
  split
  · next hs => rw [hs,h]
  · rfl

/-- `s` itself is another service. -/
theorem other (w : World) {i : Nat} (f : Svc → Svc) (h : s≠i) :
    Steady s ls w (w.onCore fun c => c.setSvc i f) := setSvc w fun hs => absurd hs h

theorem release (w : World) (i : Nat) : Steady s ls w (w.onCore fun c => c.release i) :=
  setProp w i _ (Svc.released_same _).stopped

theorem foldl {α : Type} {f : World → α → World} (hf : ∀ w x, Steady s ls w (f w x)) (xs : List α)
    (w : World) : Steady s ls w (xs.foldl f w) := by
  induction xs generalizing w with
  | nil => exact refl w
  | cons x xs ih => exact (hf w x).trans (ih _)

theorem when {p : Prop} [Decidable p] (h : p → Steady s ls w w') :
    Steady s ls w (if p then w' else w) := by
  split
  · next hp => exact h hp
  · exact refl w

theorem addTransitionQueue (w : World) (i : Nat) : Steady s ls w (w.addTransitionQueue i) :=
  (push w _).trans (of_svc rfl rfl rfl)

theorem dependencyStarted (w : World) (i : Nat) : Steady s ls w (w.dependencyStarted i) :=
  when fun _ => addTransitionQueue w i

theorem dependentStopped (w : World) (i : Nat) : Steady s ls w (w.dependentStopped i) :=
  when fun _ => addTransitionQueue w i

theorem clearLink (w : World) (k : Nat) :
    Steady s ls w (w.onCore fun c => c.setLink k fun d => { d with waitingOn := false }) := by
  refine of_link rfl rfl (fun l => ?_) fun l _ _ hk => ?_
  · by_cases hl : l=k <;> simp [hl]
  · by_cases hl : l=k <;> simp_all [Core.keeps]

theorem clearWait (w : World) (k : Nat) : Steady s ls w (w.clearWait k) :=
  (clearLink w k).trans (dependencyStarted _ _)

theorem notifyStarted (w : World) (k : Nat) : Steady s ls w (w.notifyStarted k) :=
  when fun _ => (dependencyStarted w _).trans (clearLink _ k)

theorem dropLink (w : World) {k : Nat} (i : Nat) (h : k ∈ ls ∨ (w.core.link k).depType≠.regular) :
    Steady s ls w (w.onCore fun c => c.dropLink k i) := by
  have hset : Steady s ls w (w.onCore fun c => c.setLink k fun d =>
      { d with holdingAcq := false }) := by
    refine of_link rfl rfl (fun l => ?_) fun l hl hr hk => ?_
    · by_cases hl : l=k <;> simp [hl]
    · have hlk : l≠k := by
        rintro rfl
        exact h.elim hl (absurd hr)
      simpa [Core.keeps,hlk] using hk
  exact hset.trans (release _ i)

theorem forceDependent (w : World) (i j : Nat) :
    Steady s ls w (w.onCore fun c => c.forceDependent i j) := by
  refine .of_svc ?_ (by simp) rfl
  by_cases h : s=j
  · subst h
    rw [onCore_core,Core.forceDependent_svc]
    split_ifs
    · exact (Svc.forced_same _).stopped
    · exact (Svc.forced_same _).stopped
    · rfl
  · rw [onCore_core,Core.forceDependent_svc_ne _ _ _ _ h]

theorem breakSoft (w : World) (i k : Nat) : Steady s ls w (w.breakSoft i k) := by
  unfold World.breakSoft
  dsimp only
  split
  · exact refl w
  · next hh =>
    have hr : (w.core.link k).depType≠.regular := by
      intro hr
      simp [Link.isHard,hr] at hh
    have hwait : Steady s ls w (if (w.core.link k).waitingOn then w.clearWait k else w) :=
      when fun _ => clearWait w k
    refine hwait.trans (when fun _ => dropLink _ i (.inr ?_))
    split <;> simpa using hr

theorem dropExplicit (w : World) (i : Nat) : Steady s ls w (w.onCore fun c => c.dropExplicit i) :=
  (setSvc w (f := fun s => { s with startExplicit := false }) fun _ => rfl).trans (release _ i)

theorem failStart (w : World) (i : Nat) (b : Bool) :
    Steady s ls (w.push (.failedToStart i b)) (w.failStart i b) := by
  refine .of_svc ?_ rfl rfl
  by_cases h : s=i <;> simp [World.failStart,h,Svc.isFundamentallyStopped]

theorem cancelDependent (w : World) (i : Nat) {k : Nat} (h : k ∈ ls) :
    Steady s ls w (w.cancelDependent i k) := by
  unfold World.cancelDependent
  dsimp only
  refine .trans ?_ (when fun _ => dropLink _ i (.inl h))
  split
  · exact when fun _ => setProp w _ true rfl
  · exact when fun _ => clearWait w k

/-- While the start of `i` fails, `s` stays as it is, and only dependents of `i` let go. -/
theorem cancelStart (w : World) (i : Nat) (b : Bool) :
    Steady s (w.core.svc i).dependents (w.push (.failedToStart i b)) (w.cancelStart i b) := by
  set w1 := w.failStart i b with hw1
  set w2 := if (w1.core.svc i).startExplicit then w1.onCore fun c => c.dropExplicit i else w1
    with hw2
  have h1 : Steady s (w.core.svc i).dependents (w.push (.failedToStart i b)) w1 := failStart w i b
  have h2 : Steady s (w.core.svc i).dependents w1 w2 := when fun _ => dropExplicit w1 i
  have hd : (w2.core.svc i).dependents=(w.core.svc i).dependents := by
    have hg : (w2.core.svc i).dependents=(w1.core.svc i).dependents := by
      rw [hw2]
      split
      · exact (Core.frame_dropExplicit w1.core i).graph.dependents i
      · rfl
    exact hg.trans ((frame_failStart w i b).core.graph.dependents i)
  have h3 (ks : List Nat) (u : World) (hk : ∀ k ∈ ks, k ∈ (w.core.svc i).dependents) :
      Steady s (w.core.svc i).dependents u (ks.foldl (fun w l => w.cancelDependent i l) u) := by
    induction ks generalizing u with
    | nil => exact refl u
    | cons k ks ih =>
      exact (cancelDependent u i (hk k List.mem_cons_self)).trans
        (ih _ fun k hm => hk k (List.mem_cons_of_mem _ hm))
  exact ((h1.trans h2).trans (h3 _ w2 fun k hk => hd ▸ hk)).trans (setSvc _ fun _ => rfl)

theorem startCheckDependencies (w : World) {i : Nat} (hd : (w.core.svc i).dependsOn=ls) :
    Steady s ls w (w.onCore fun c => c.startCheckDependencies i) := by
  have hregular (d : Link) (hr : d.depType=.regular) : d.isOnlyOrdering=false := by
    simp [Link.isOnlyOrdering,hr]
  have hwait (u : World) (ks : List Nat) (hk : ∀ k ∈ ks, k ∈ ls ∨
      (u.core.link k).depType≠.regular) :
      Steady s ls u (u.onCore fun c => c.setLinks ks fun d => { d with waitingOn := true }) := by
    refine of_link rfl rfl (fun l => ?_) fun l hl hr h => ?_
    · rw [onCore_core,Core.setLinks_link]
      split <;> rfl
    · have hn : l ∉ ks := fun hm => (hk l hm).elim hl (absurd hr)
      simpa [Core.keeps,hn] using h
  refine (hwait w _ fun k hk => .inl (hd ▸ (List.mem_filter.mp hk).1)).trans
    (hwait _ _ fun k hk => .inr fun hr => ?_)
  have ho := (List.mem_filter.mp hk).2
  simp only [Bool.and_eq_true] at ho
  cases (hregular _ hr).symm.trans ho.1.2

theorem initiateStart (w : World) {i : Nat} (h : s≠i) (hd : (w.core.svc i).dependsOn=ls) :
    Steady s ls w (w.initiateStart i) :=
  (((push w (.initiateStart i)).trans (other _ _ h)).trans
    (startCheckDependencies _ (by simpa using hd))).trans (when fun _ => addTransitionQueue _ i)

theorem activate (w : World) (i : Nat) : Steady s ls w (w.onCore fun c => c.activate i) := by
  have hsoft : Steady s ls w (w.onCore fun c => { c.setLinks (c.softDependents i) fun d =>
      { d with holdingAcq := true } with activeServices := c.activeServices+1 }) := by
    refine of_link rfl rfl (fun l => ?_) fun l _ _ hk => ?_
    · simp only [onCore_core,Core.setLinks_link]
      split <;> rfl
    · simp only [onCore_core,Core.keeps,Core.setLinks_link] at hk ⊢
      split <;> simp_all
  refine hsoft.trans (of_svc ?_ (by simp [Core.activate]) rfl)
  by_cases h : s=i <;> simp [Core.activate,h,Svc.isFundamentallyStopped]

theorem becomeInactive (w : World) {i : Nat} (h : s≠i) :
    Steady s ls w (w.onCore fun c => c.becomeInactive i) := by
  refine of_svc ?_ ?_ rfl
  all_goals
    simp only [onCore_core,Core.becomeInactive]
    split_ifs <;> simp [h]

theorem signalDependencies (w : World) (i : Nat) : Steady s ls w (w.signalDependencies i) :=
  foldl (fun w _ => dependentStopped w _) _ w

theorem becomeStopped (w : World) {i : Nat} (h : s≠i) :
    Steady s (w.core.svc i).dependsOn w (w.becomeStopped i) := by
  have h0 : Steady s (w.core.svc i).dependsOn w (w.onCore fun c => c.setSvc i fun s =>
      { s with forceStop := false }) := other w _ h
  unfold World.becomeStopped
  dsimp only
  split
  · exact (h0.trans (signalDependencies _ i)).trans ((other _ (fun s =>
      { s with serviceState := .stopped }) h).trans (initiateStart _ h (by simp)))
  · exact ((h0.trans (foldl (fun w l => breakSoft w i l) _ _)).trans
      (signalDependencies _ i)).trans (becomeInactive _ h)

theorem notifyDependents (w : World) (ks : List Nat) :
    Steady s ls w (ks.foldl (fun w l => w.notifyStarted l) w) :=
  foldl (fun w l => notifyStarted w l) ks w

theorem acquire (w : World) (k : Nat) : Steady s ls w (w.onCore fun c => c.acquire k) := by
  refine ⟨?_,⟨[],rfl,by simp⟩,fun l => ?_,fun l _ _ h => ?_⟩
  · rw [onCore_core,Core.acquire_svc]
    split
    · exact (Svc.required_same _).stopped
    · rfl
  · by_cases hl : l=k <;> simp [hl]
  · by_cases hl : l=k <;> simp_all [Core.keeps]

theorem requireDependencies (w : World) (i : Nat) : Steady s ls w (w.requireDependencies i) := by
  refine foldl (fun w k => ?_) _ w
  split
  · exact refl w
  · exact acquire w k

theorem repinned (h : Repinned w w') : Steady s ls w w' :=
  of_svc (by rw [h.svc s]; rfl) (by rw [h.core]) h.trace

end Steady

end World
end Dinit
