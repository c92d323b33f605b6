import Dinit.Run.Reachable

namespace Dinit

open Framework Framework.Comp World Relation

namespace Core

variable {c : Core}

/-- The two ends still agree if the graph is the same. -/
theorem Linked.of_graph {c c' : Core} (h : c.Linked) (hg : c.SameGraph c') : c'.Linked where
  dependsOn i l hl := by
    rw [hg.dependsOn] at hl
    rw [hg.from_,hg.to_,hg.dependents]
    exact h.dependsOn i l hl
  dependents i l hl := by
    rw [hg.dependents] at hl
    rw [hg.to_,hg.from_,hg.dependsOn]
    exact h.dependents i l hl
  dependsOn_nodup i := by
    rw [hg.dependsOn]
    exact h.dependsOn_nodup i
  dependents_nodup i := by
    rw [hg.dependents]
    exact h.dependents_nodup i
  below i l hl := by
    rw [hg.dependsOn] at hl
    rw [hg.nextLink]
    exact h.below i l hl

theorem Linked.dependents_below (h : c.Linked) {i l : Nat} (hl : l ∈ (c.svc i).dependents) :
    l<c.nextLink :=
  h.below _ l (h.dependents i l hl).2

section
variable (c) (f t : Nat) (depType : DependencyType) (place dptPlace : Nat)

/-- Only the lists of links change. -/
theorem linkAt_svc (k : Nat) :
    (c.linkAt f t depType place dptPlace).svc k =
      { c.svc k with
        dependsOn := ((c.linkAt f t depType place dptPlace).svc k).dependsOn
        dependents := ((c.linkAt f t depType place dptPlace).svc k).dependents } := by
  simp only [linkAt,setSvc_svc,setLink_svc]
  split_ifs <;> simp_all

@[simp] theorem linkAt_dependsOn (i : Nat) :
    ((c.linkAt f t depType place dptPlace).svc i).dependsOn =
      if i=f then insertAt (c.svc f).dependsOn place c.nextLink else (c.svc i).dependsOn := by
  simp only [linkAt,setSvc_svc,setLink_svc]
  split_ifs <;> simp_all

@[simp] theorem linkAt_dependents (i : Nat) :
    ((c.linkAt f t depType place dptPlace).svc i).dependents =
      if i=t then insertAt (c.svc t).dependents dptPlace c.nextLink else (c.svc i).dependents := by
  simp only [linkAt,setSvc_svc,setLink_svc]
  split_ifs <;> simp_all

@[simp] theorem linkAt_link (k : Nat) : (c.linkAt f t depType place dptPlace).link k =
    if k=c.nextLink then { from_ := f, to_ := t, depType := depType } else c.link k := by
  simp [linkAt]

/-- A link that comes in at both ends. -/
theorem Linked.linkAt (h : c.Linked) : (c.linkAt f t depType place dptPlace).Linked := by
  have hdep (i l : Nat) (hl : l ∈ (c.svc i).dependsOn) : l≠c.nextLink := by
    have := h.below i l hl
    omega
  have hdpt (i l : Nat) (hl : l ∈ (c.svc i).dependents) : l≠c.nextLink := by
    have := h.dependents_below hl
    omega
  refine ⟨?_,?_,?_,?_,?_⟩
  · intro i l hl
    rw [linkAt_dependsOn] at hl
    rw [linkAt_link]
    by_cases hn : l=c.nextLink
    · subst hn
      by_cases hi : i=f
      · simp [hi]
      · rw [if_neg hi] at hl
        exact absurd rfl (hdep i _ hl)
    · have hl' : l ∈ (c.svc i).dependsOn := by
        split_ifs at hl with hi
        · subst hi
          simpa [hn] using hl
        · exact hl
      obtain ⟨h1,h2⟩ := h.dependsOn i l hl'
      rw [if_neg hn,linkAt_dependents]
      refine ⟨h1,?_⟩
      split_ifs with ht
      · rw [← ht]
        simp [h2]
      · exact h2
  · intro i l hl
    rw [linkAt_dependents] at hl
    rw [linkAt_link]
    by_cases hn : l=c.nextLink
    · subst hn
      by_cases hi : i=t
      · simp [hi]
      · rw [if_neg hi] at hl
        exact absurd rfl (hdpt i _ hl)
    · have hl' : l ∈ (c.svc i).dependents := by
        split_ifs at hl with hi
        · subst hi
          simpa [hn] using hl
        · exact hl
      obtain ⟨h1,h2⟩ := h.dependents i l hl'
      rw [if_neg hn,linkAt_dependsOn]
      refine ⟨h1,?_⟩
      split_ifs with hf
      · rw [← hf]
        simp [h2]
      · exact h2
  · intro i
    rw [linkAt_dependsOn]
    split_ifs
    · rw [(perm_insertAt _ _ _).nodup_iff,List.nodup_cons]
      exact ⟨fun hl => hdep f _ hl rfl,h.dependsOn_nodup f⟩
    · exact h.dependsOn_nodup i
  · intro i
    rw [linkAt_dependents]
    split_ifs
    · rw [(perm_insertAt _ _ _).nodup_iff,List.nodup_cons]
      exact ⟨fun hl => hdpt t _ hl rfl,h.dependents_nodup t⟩
    · exact h.dependents_nodup i
  · intro i l hl
    have hn : (c.linkAt f t depType place dptPlace).nextLink=c.nextLink+1 := rfl
    rw [hn]
    rw [linkAt_dependsOn] at hl
    split_ifs at hl
    · rcases mem_insertAt.mp hl with rfl | hl
      · omega
      · have := h.below f l hl
        omega
    · have := h.below i l hl
      omega

theorem Linked.addDepAt (h : c.Linked) : (c.addDepAt f t depType place).Linked := by
  unfold Core.addDepAt
  dsimp only
  split
  · exact (Linked.linkAt c f t depType place _ h).of_graph (frame_acquire _ _).graph
  · exact Linked.linkAt c f t depType place _ h

end

@[simp] theorem unlink_dependsOn (c : Core) (l i : Nat) : ((c.unlink l).svc i).dependsOn =
    if i=(c.link l).from_ then (c.svc i).dependsOn.erase l else (c.svc i).dependsOn := by
  simp only [unlink,setSvc_svc]
  split_ifs <;> simp_all

@[simp] theorem unlink_dependents (c : Core) (l i : Nat) : ((c.unlink l).svc i).dependents =
    if i=(c.link l).to_ then (c.svc i).dependents.erase l else (c.svc i).dependents := by
  simp only [unlink,setSvc_svc]
  split_ifs <;> simp_all

theorem unlink_svc (c : Core) (l k : Nat) : (c.unlink l).svc k =
    { c.svc k with
      dependsOn := ((c.unlink l).svc k).dependsOn
      dependents := ((c.unlink l).svc k).dependents } := by
  simp only [unlink,setSvc_svc]
  split_ifs <;> simp_all

/-- A link that goes away at both ends. -/
theorem Linked.unlink (h : c.Linked) (l : Nat) : (c.unlink l).Linked := by
  have hdep (i k : Nat) (hk : k ∈ ((c.unlink l).svc i).dependsOn) :
      k ∈ (c.svc i).dependsOn ∧ k≠l := by
    rw [unlink_dependsOn] at hk
    split_ifs at hk with hi
    · exact ((h.dependsOn_nodup i).mem_erase_iff.mp hk).symm
    · refine ⟨hk,?_⟩
      rintro rfl
      exact hi (h.dependsOn i k hk).1.symm
  have hdpt (i k : Nat) (hk : k ∈ ((c.unlink l).svc i).dependents) :
      k ∈ (c.svc i).dependents ∧ k≠l := by
    rw [unlink_dependents] at hk
    split_ifs at hk with hi
    · exact ((h.dependents_nodup i).mem_erase_iff.mp hk).symm
    · refine ⟨hk,?_⟩
      rintro rfl
      exact hi (h.dependents i k hk).1.symm
  refine ⟨?_,?_,?_,?_,?_⟩
  · intro i k hk
    obtain ⟨hm,hne⟩ := hdep i k hk
    obtain ⟨h1,h2⟩ := h.dependsOn i k hm
    rw [unlink_link,unlink_dependents]
    refine ⟨h1,?_⟩
    split_ifs
    · exact (List.mem_erase_of_ne hne).mpr h2
    · exact h2
  · intro i k hk
    obtain ⟨hm,hne⟩ := hdpt i k hk
    obtain ⟨h1,h2⟩ := h.dependents i k hm
    rw [unlink_link,unlink_dependsOn]
    refine ⟨h1,?_⟩
    split_ifs
    · exact (List.mem_erase_of_ne hne).mpr h2
    · exact h2
  · intro i
    rw [unlink_dependsOn]
    split_ifs
    · exact (h.dependsOn_nodup i).erase l
    · exact h.dependsOn_nodup i
  · intro i
    rw [unlink_dependents]
    split_ifs
    · exact (h.dependents_nodup i).erase l
    · exact h.dependents_nodup i
  · exact fun i k hk => h.below i k (hdep i k hk).1

theorem Linked.rmDep (h : c.Linked) (l : Nat) : (c.rmDep l).Linked := by
  unfold Core.rmDep
  split
  · exact (h.unlink l).of_graph (frame_release _ _).graph
  · exact h.unlink l

end Core

/-- Only `add_dep` and `rm_dep` change the graph. -/
theorem EventStep.graph {w w' : World} (h : EventStep w w') : w.core.SameGraph w'.core ∨
    (∃ f t depType, w.trace.head?=some (.addDep f t depType,w.core) ∧ w.core.MayDepend f t ∧
      w'=w.onCore fun c => c.addDep f t depType) ∨
    ∃ f l, l ∈ (w.core.svc f).dependsOn ∧ w.trace.head?=some (.rmDep l,w.core) ∧
      w'=w.onCore fun c => c.rmDep l := by
  have hset (i : Nat) (f : Svc → Svc) (h : (w.core.svc i).SameLinks (f (w.core.svc i))) :
      w.core.SameGraph (w.onCore fun c => c.setSvc i f).core := Core.graph_setSvc w.core i f h
  have hprop (i : Nat) (f : Svc → Svc) (q : Bool)
      (h : (w.core.svc i).SameLinks (f (w.core.svc i)))
      (hp : (f (w.core.svc i)).proc=(w.core.svc i).proc) :
      w.core.SameGraph (w.onCore fun c => c.setProp i f q).core :=
    (Core.frame_setProp w.core i f q h (by rw [hp]; exact .refl _)).graph
  have hqueues (f : Core → Core) (hs : (f w.core).svc=w.core.svc)
      (hl : (f w.core).link=w.core.link) (hn : (f w.core).nextLink=w.core.nextLink)
      (hr : (f w.core).records=w.core.records) : w.core.SameGraph (w.onCore f).core :=
    (frame_queues hs hl hn hr).graph
  cases h with
  | step h => exact .inl h.graphKept.1
  | call k h => exact .inl (.refl _)
  | now t => exact .inl (hqueues _ rfl rfl rfl rfl)
  | noRestart => exact .inl (hqueues _ rfl rfl rfl rfl)
  | stopExplicit i h => exact .inl (hset i _ ⟨rfl,rfl,rfl⟩)
  | stopRelease i hr hd hp => exact .inl (hprop i _ _ ⟨rfl,rfl,rfl⟩ rfl)
  | pinStart i => exact .inl (repinned_pinStart w i).frame.core.graph
  | unpinStart i c hc => exact .inl (repinned_unpinStart w i).frame.core.graph
  | pinStopped i b => exact .inl (hset i _ ⟨rfl,rfl,rfl⟩)
  | unpinRelease i c hc hp hq hs hr hd => exact .inl (hprop i _ _ ⟨rfl,rfl,rfl⟩ rfl)
  | acquire l j hl h hc => exact .inl (Core.frame_acquire _ l).graph
  | addDep f t depType h hm => exact .inr (.inl ⟨f,t,depType,h,hm,rfl⟩)
  | rmDep f l hl h => exact .inr (.inr ⟨f,l,hl,h,rfl⟩)
  | expire i h =>
    have hd := hset i (fun s => { s with proc := { s.proc with timerArmed := false } }) ⟨rfl,rfl,rfl⟩
    exact .inl (hd.trans (Core.graph_setSvc _ i Svc.timedOut ⟨rfl,rfl,rfl⟩))
  | seen i failed h hp => exact .inl (hset i _ ⟨rfl,rfl,rfl⟩)
  | forget i c h => exact .inl (hset i _ ⟨rfl,rfl,rfl⟩)
  | stopSeen i failed h hp => exact .inl (hset i _ ⟨rfl,rfl,rfl⟩)
  | stopForget i c h => exact .inl (hset i _ ⟨rfl,rfl,rfl⟩)
  | reaped i status h => exact .inl (hset i _ ⟨rfl,rfl,rfl⟩)
  | stopReaped i status h => exact .inl (hset i _ ⟨rfl,rfl,rfl⟩)

theorem eventStep_linked {w w' : World} (h : EventStep w w') (hL : w.core.Linked) :
    w'.core.Linked := by
  rcases h.graph with hg | ⟨f,t,depType,_,_,rfl⟩ | ⟨f,l,_,_,rfl⟩
  · exact hL.of_graph hg
  · exact Core.Linked.addDepAt _ f t depType _ hL
  · exact hL.rmDep l

end Dinit
