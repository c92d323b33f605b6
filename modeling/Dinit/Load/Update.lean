import Dinit.Load.Good

namespace Dinit

open Framework Framework.Comp World Relation

namespace Core

variable {c c' : Core}

theorem SameGraph.linkAt (h : c.SameGraph c') (f t : Nat) (depType : DependencyType)
    (place dptPlace : Nat) :
    (c.linkAt f t depType place dptPlace).SameGraph (c'.linkAt f t depType place dptPlace) where
  settings i := by rw [linkAt_settings,linkAt_settings,h.settings]
  dependsOn i := by simp only [linkAt_dependsOn,h.dependsOn,h.nextLink]
  dependents i := by simp only [linkAt_dependents,h.dependents,h.nextLink]
  from_ l := by
    rw [linkAt_link,linkAt_link,h.nextLink]
    split_ifs
    · rfl
    · exact h.from_ l
  to_ l := by
    rw [linkAt_link,linkAt_link,h.nextLink]
    split_ifs
    · rfl
    · exact h.to_ l
  depType l := by
    rw [linkAt_link,linkAt_link,h.nextLink]
    split_ifs
    · rfl
    · exact h.depType l
  nextLink := by
    show c'.nextLink+1=c.nextLink+1
    rw [h.nextLink]
  records := h.records

theorem SameGraph.unlink (h : c.SameGraph c') (l : Nat) : (c.unlink l).SameGraph (c'.unlink l) where
  settings i := by rw [unlink_settings,unlink_settings,h.settings]
  dependsOn i := by simp only [unlink_dependsOn,h.dependsOn,h.from_]
  dependents i := by simp only [unlink_dependents,h.dependents,h.to_]
  from_ k := h.from_ k
  to_ k := h.to_ k
  depType k := h.depType k
  nextLink := h.nextLink
  records := h.records

/-- The links that a reload in place makes: those from the services that this one comes
before, and those to its dependencies, which come first in the list. -/
def addLinks (c : Core) (i : Nat) (d : Draft) : Core :=
  d.depends.zipIdx.foldl (fun c dep =>
    c.linkAt i dep.1.1 dep.1.2 dep.2 (c.svc dep.1.1).dependents.length)
    (d.beforeDeps.foldl (fun c j => c.linkAt j i .before 0 0) c)

/-- The links that a reload in place takes away: those of the old description. -/
def staleLinks (c : Core) (i : Nat) : List Nat :=
  ((c.svc i).dependsOn.filter fun l => (c.link l).depType != .before)++
    (c.svc i).dependents.filter fun l => (c.link l).depType==.before

/-- What a reload in place makes of the links. -/
def relinked (c : Core) (i : Nat) (d : Draft) : Core :=
  (c.staleLinks i).foldl unlink (c.addLinks i d)

end Core

/-- A step of the update of a service in place. -/
inductive UpdateStep : World → World → Prop
  | event {w w' : World} (h : EventStep w w') : UpdateStep w w'
  | before {w : World} (j i : Nat) : UpdateStep w (w.onCore fun c => c.linkAt j i .before 0 0)
  | addDep {w : World} (i t : Nat) (depType : DependencyType) (place : Nat)
      (h : w.trace.head?=some (.addDep i t depType,w.core)) :
      UpdateStep w (w.onCore fun c => c.addDepAt i t depType place)

section
variable {rec : Rec}

theorem linkBefore_within (i : Nat) (js : List Nat) (c : Core) (w : World)
    (hg : c.SameGraph w.core) :
    Within UpdateStep (forEach js fun j => onCore fun c => c.linkAt j i .before 0 0) w
      fun _ w' => w'.ctx=w.ctx ∧ (js.foldl (fun c j => c.linkAt j i .before 0 0) c).SameGraph w'.core := by
  induction js generalizing c w with
  | nil => exact within_pure ⟨rfl,hg⟩
  | cons j js ih =>
    refine within_bind (within_modify (.before j i) ?_)
    exact ih _ _ (hg.linkAt j i .before 0 0)

theorem addDeps_within (i : Nat) (deps : List ((Nat × DependencyType) × Nat)) (c : Core) (w : World)
    (hg : c.SameGraph w.core) :
    Within UpdateStep (forEach deps fun dep => do
      call (.addDep i dep.1.1 dep.1.2)
      onCore fun c => c.addDepAt i dep.1.1 dep.1.2 dep.2) w fun _ w' => w'.ctx=w.ctx ∧
        (deps.foldl (fun c dep =>
          c.linkAt i dep.1.1 dep.1.2 dep.2 (c.svc dep.1.1).dependents.length) c).SameGraph
            w'.core := by
  induction deps generalizing c w with
  | nil => exact within_pure ⟨rfl,hg⟩
  | cons dep deps ih =>
    refine within_bind (within_call (.event (.call _ trivial)) ?_)
    refine within_modify (.addDep i dep.1.1 dep.1.2 dep.2 rfl) ?_
    refine within_mono (ih (c.linkAt i dep.1.1 dep.1.2 dep.2 (c.svc dep.1.1).dependents.length) _ ?_)
      fun _ _ _ h => h
    have hl := hg.linkAt i dep.1.1 dep.1.2 dep.2 (c.svc dep.1.1).dependents.length
    rw [← hg.dependents dep.1.1] at hl ⊢
    exact hl.trans (Core.addDepAt_graph w.core i dep.1.1 dep.1.2 dep.2)

theorem rmLinks_within (hrec : rec.Ok) (ls : List Nat) (hn : ls.Nodup) (c : Core) (w : World)
    (hg : c.SameGraph w.core) (hl : ∀ l ∈ ls, ∃ f, l ∈ (w.core.svc f).dependsOn) :
    Within UpdateStep (forEach ls (rmDepLink rec)) w fun _ w' => w'.ctx=w.ctx ∧
      (ls.foldl Core.unlink c).SameGraph w'.core := by
  induction ls generalizing c w with
  | nil => exact within_pure ⟨rfl,hg⟩
  | cons l ls ih =>
    obtain ⟨hnl,hn⟩ := List.nodup_cons.mp hn
    obtain ⟨f,hf⟩ := hl l List.mem_cons_self
    refine within_seq (within_sub (rmDepLink_within hrec f l w hf) fun _ _ => .event) ?_
    rintro _ w' - ⟨hx,hr⟩
    have hu := (Core.rmDep_graph w.core l).trans hr
    refine within_mono (ih hn (c.unlink l) w' ((hg.unlink l).trans hu) ?_) ?_
    · intro k hk
      obtain ⟨fk,hfk⟩ := hl k (List.mem_cons_of_mem l hk)
      refine ⟨fk,?_⟩
      rw [hu.dependsOn,Core.unlink_dependsOn]
      split_ifs
      · refine (List.mem_erase_of_ne ?_).mpr hfk
        rintro rfl
        exact hnl hk
      · exact hfk
    · rintro _ w'' - ⟨hx',hg'⟩
      exact ⟨hx'.trans hx,hg'⟩

end

namespace Core

variable {c : Core}

theorem addLinks_dependsOn (c : Core) (i : Nat) (d : Draft) {f l : Nat}
    (hl : l ∈ (c.svc f).dependsOn) : l ∈ ((c.addLinks i d).svc f).dependsOn := by
  have hlink {c : Core} (a b : Nat) (t : DependencyType) (m n : Nat)
      (h : l ∈ (c.svc f).dependsOn) : l ∈ ((c.linkAt a b t m n).svc f).dependsOn := by
    rw [linkAt_dependsOn]
    split_ifs with hfa
    · rw [← hfa]
      simp [h]
    · exact h
  have h1 := List.foldlRecOn (motive := fun c : Core => l ∈ (c.svc f).dependsOn) d.beforeDeps
    (fun c j => c.linkAt j i .before 0 0) hl fun c h j _ => hlink j i .before 0 0 h
  exact List.foldlRecOn (motive := fun c : Core => l ∈ (c.svc f).dependsOn) d.depends.zipIdx _ h1
    fun c h dep _ => hlink i dep.1.1 dep.1.2 dep.2 _ h

theorem Linked.staleLinks_nodup (h : c.Linked) (i : Nat) : (c.staleLinks i).Nodup := by
  unfold staleLinks
  rw [List.nodup_append]
  refine ⟨(h.dependsOn_nodup i).filter _,(h.dependents_nodup i).filter _,?_⟩
  rintro a ha b hb rfl
  have h1 := (List.mem_filter.mp ha).2
  have h2 := (List.mem_filter.mp hb).2
  simp only [bne_iff_ne,beq_iff_eq] at h1 h2
  exact h1 h2

theorem Linked.staleLinks_mem (h : c.Linked) {i l : Nat} (hl : l ∈ c.staleLinks i) :
    ∃ f, l ∈ (c.svc f).dependsOn := by
  rcases List.mem_append.mp hl with hl | hl
  · exact ⟨i,(List.mem_filter.mp hl).1⟩
  · exact ⟨_,(h.dependents i l (List.mem_filter.mp hl).1).2⟩

end Core

theorem forEach_append {σ α : Type} (xs ys : List α) (f : α → Comp σ Unit) (s : σ) :
    (forEach (xs++ys) f) s=(forEach xs f >>= fun _ => forEach ys f) s := by
  induction xs generalizing s with
  | nil => rfl
  | cons x xs ih =>
    simp only [List.cons_append,forEach,andThen,bind]
    rcases f x s with ⟨_ | a,s'⟩
    · rfl
    · exact ih s'

/-- No record comes or goes, and the settings stay. -/
def World.SameSettings (w w' : World) : Prop :=
  w'.core.records=w.core.records ∧ ∀ i, (w'.core.svc i).settings=(w.core.svc i).settings

theorem World.SameSettings.of_graph {w w' : World} (h : w.core.SameGraph w'.core) :
    w.SameSettings w' :=
  ⟨h.records,h.settings⟩

theorem World.SameSettings.trans {w w' w'' : World} (h : w.SameSettings w')
    (h' : w'.SameSettings w'') : w.SameSettings w'' :=
  ⟨h'.1.trans h.1,fun i => (h'.2 i).trans (h.2 i)⟩

/-- What an update in place is made of: link operations, and the steps that follow a
release. -/
inductive Move : World → World → Prop
  | call {w : World} (k : Call) : Move w (w.push k)
  | before {w : World} (j i : Nat) : Move w (w.onCore fun c => c.linkAt j i .before 0 0)
  | addDep {w : World} (i t : Nat) (depType : DependencyType) (place : Nat) :
      Move w (w.onCore fun c => c.addDepAt i t depType place)
  | rmDep {w : World} (l : Nat) : Move w (w.onCore fun c => c.rmDep l)
  | step {w w' : World} (h : Step w w') : Move w w'

theorem updateDependencies_moves {rec : Rec} (hrec : rec.Ok) (i : Nat) (d : Draft) (w : World) :
    Within Move (updateDependencies rec i d) w fun _ _ => True := by
  have hrms (ls : List Nat) (w : World) :
      Within Move (forEach ls (rmDepLink rec)) w fun _ _ => True := by
    refine within_forEach trivial fun l _ w _ => ?_
    refine within_call (.call _) (within_getLink (within_onCore (.rmDep l) ?_))
    refine within_ite (fun _ => ?_) fun _ => within_pure trivial
    have hs := within_stop (stopReleased_within hrec.doStop (w.core.link l).to_
      ((w.push (.rmDep l)).onCore fun c => c.rmDep l))
    exact within_mono (within_sub hs fun _ _ => .step) fun _ _ _ _ => trivial
  unfold updateDependencies
  apply within_getCore
  refine within_seq (within_forEach (I := fun _ => True) trivial fun j _ w _ =>
    within_modify (.before j i) trivial) fun _ w1 _ _ => ?_
  refine within_seq (within_forEach (I := fun _ => True) trivial fun dep _ w _ =>
    within_call (.call _) (within_modify (.addDep i dep.1.1 dep.1.2 dep.2) trivial))
    fun _ w2 _ _ => ?_
  exact within_seq (hrms _ w2) fun _ w3 _ _ => hrms _ w3

/-- An update in place changes links only. -/
theorem Move.settings {w w' : World} (h : Move w w') : w.SameSettings w' := by
  cases h with
  | call k => exact .of_graph (.refl _)
  | before j i => exact ⟨rfl,fun _ => Core.linkAt_settings ..⟩
  | addDep i t depType place =>
    have hg := Core.addDepAt_graph w.core i t depType place
    exact ⟨hg.records,fun k => (hg.settings k).trans (Core.linkAt_settings ..)⟩
  | rmDep l =>
    have hg := Core.rmDep_graph w.core l
    exact ⟨hg.records,fun k => (hg.settings k).trans (Core.unlink_settings ..)⟩
  | step h => exact .of_graph h.graphKept.1

theorem moves_settings {w w' : World} (h : ReflTransGen Move w w') : w.SameSettings w' :=
  invariant_of_steps (fun _ _ h h' => h.trans h'.settings) h (.of_graph (.refl _))

/-- An update in place adds to the trace. -/
theorem Move.grows {w w' : World} (h : Move w w') : Grows w w' := by
  cases h with
  | call k => exact grows_push w k
  | before j i => exact grows_onCore w _
  | addDep i t depType place => exact grows_onCore w _
  | rmDep l => exact grows_onCore w _
  | step h => exact h.grows

theorem moves_grows {w w' : World} (h : ReflTransGen Move w w') : Grows w w' :=
  invariant_of_steps (fun _ _ h h' => h.trans h'.grows) h (.refl _)

/-- An update in place makes the links of the new description, and takes those of the old
one away. -/
theorem updateDependencies_within {rec : Rec} (hrec : rec.Ok) (i : Nat) (d : Draft) (w : World)
    (hL : w.core.Linked) :
    Within UpdateStep (updateDependencies rec i d) w fun _ w' => w'.ctx=w.ctx ∧
      (w.core.relinked i d).SameGraph w'.core := by
  unfold updateDependencies
  apply within_getCore
  refine within_seq (linkBefore_within i d.beforeDeps w.core w (.refl _)) ?_
  rintro _ w1 - ⟨hx1,hg1⟩
  refine within_seq (addDeps_within i d.depends.zipIdx _ w1 hg1) ?_
  rintro _ w2 - ⟨hx2,hg2⟩
  have hstale := rmLinks_within hrec (w.core.staleLinks i) (hL.staleLinks_nodup i) _ w2 hg2 (by
    intro l hl
    obtain ⟨f,hf⟩ := hL.staleLinks_mem hl
    refine ⟨f,?_⟩
    rw [hg2.dependsOn]
    exact Core.addLinks_dependsOn w.core i d hf)
  refine within_mono (within_eq (forEach_append ..).symm .refl hstale) ?_
  rintro _ w3 - ⟨hx3,hg3⟩
  exact ⟨hx3.trans (hx2.trans hx1),hg3⟩

end Dinit
