import Dinit.Load.Frame

namespace Dinit

open Framework Framework.Comp World

/-- Links have gone, and nothing else. -/
structure Core.Pruned (c c' : Core) : Prop where
  dependsOn : ∀ k, (c'.svc k).dependsOn.Sublist (c.svc k).dependsOn
  dependents : ∀ k, (c'.svc k).dependents.Sublist (c.svc k).dependents
  from_ : ∀ l, (c'.link l).from_=(c.link l).from_
  to_ : ∀ l, (c'.link l).to_=(c.link l).to_
  depType : ∀ l, (c'.link l).depType=(c.link l).depType
  nextLink : c'.nextLink=c.nextLink

namespace Core

variable {c c' c'' : Core} {l : Nat}

theorem Pruned.refl (c : Core) : c.Pruned c :=
  ⟨fun _ => .refl _,fun _ => .refl _,fun _ => rfl,fun _ => rfl,fun _ => rfl,rfl⟩

theorem Pruned.trans (h : c.Pruned c') (h' : c'.Pruned c'') : c.Pruned c'' where
  dependsOn k := (h'.dependsOn k).trans (h.dependsOn k)
  dependents k := (h'.dependents k).trans (h.dependents k)
  from_ l := (h'.from_ l).trans (h.from_ l)
  to_ l := (h'.to_ l).trans (h.to_ l)
  depType l := (h'.depType l).trans (h.depType l)
  nextLink := h'.nextLink.trans h.nextLink

theorem SameGraph.pruned (h : c.SameGraph c') : c.Pruned c' where
  dependsOn k := by rw [h.dependsOn]
  dependents k := by rw [h.dependents]
  from_ := h.from_
  to_ := h.to_
  depType := h.depType
  nextLink := h.nextLink

theorem unlink_pruned (c : Core) (l : Nat) : c.Pruned (c.unlink l) := by
  refine ⟨?_,?_,fun _ => rfl,fun _ => rfl,fun _ => rfl,rfl⟩
  · intro k
    rw [unlink_dependsOn]
    split_ifs
    · exact List.erase_sublist
    · exact .refl _
  · intro k
    rw [unlink_dependents]
    split_ifs
    · exact List.erase_sublist
    · exact .refl _

theorem rmDep_pruned (c : Core) (l : Nat) : c.Pruned (c.rmDep l) :=
  (unlink_pruned c l).trans (rmDep_graph c l).pruned

/-- A link that is in the lists of its two ends is in no list once it is taken off. -/
theorem Linked.unlink_not_mem (h : c.Linked) (l k : Nat) :
    l ∉ ((c.unlink l).svc k).dependsOn ∧ l ∉ ((c.unlink l).svc k).dependents := by
  rw [unlink_dependsOn,unlink_dependents]
  constructor
  · split_ifs with hk
    · exact (h.dependsOn_nodup k).not_mem_erase
    · intro hl
      exact hk (h.dependsOn k l hl).1.symm
  · split_ifs with hk
    · exact (h.dependents_nodup k).not_mem_erase
    · intro hl
      exact hk (h.dependents k l hl).1.symm

end Core

namespace Loader

variable {s : Loader} {i j l : Nat} {extra : List Nat}

theorem SameLists.pruned {c c' : Core} (h : SameLists c c') : c.Pruned c' where
  dependsOn k := by rw [h.dependsOn]
  dependents k := by rw [h.dependents]
  from_ l := by rw [h.link]
  to_ l := by rw [h.link]
  depType l := by rw [h.link]
  nextLink := h.nextLink

theorem SameLists.linked {c c' : Core} (h : SameLists c c') (hL : c.Linked) : c'.Linked where
  dependsOn i l hl := by
    rw [h.dependsOn] at hl
    rw [h.link,h.dependents]
    exact hL.dependsOn i l hl
  dependents i l hl := by
    rw [h.dependents] at hl
    rw [h.link,h.dependsOn]
    exact hL.dependents i l hl
  dependsOn_nodup i := by
    rw [h.dependsOn]
    exact hL.dependsOn_nodup i
  dependents_nodup i := by
    rw [h.dependents]
    exact hL.dependents_nodup i
  below i l hl := by
    rw [h.dependsOn] at hl
    rw [h.nextLink]
    exact hL.below i l hl

/-- A dependency goes: its link is taken off, and nothing else changes in the lists. -/
theorem dropDependency_lists (s : Loader) (l : Nat) :
    SameLists (s.core.unlink l) (s.dropDependency l).core := by
  unfold dropDependency
  dsimp only
  split
  · exact dropPlaceholder_lists (s.onCore fun c => c.unlink l) _ true
  · exact .refl _

theorem dropDependent_lists (s : Loader) (l : Nat) :
    SameLists (s.core.rmDep l) (s.dropDependent l).core :=
  dropPlaceholder_lists (s.onCore fun c => c.rmDep l) _ true

theorem dropDependency_pruned (s : Loader) (l : Nat) : s.core.Pruned (s.dropDependency l).core :=
  (s.core.unlink_pruned l).trans (dropDependency_lists s l).pruned

theorem dropDependent_pruned (s : Loader) (l : Nat) : s.core.Pruned (s.dropDependent l).core :=
  (s.core.rmDep_pruned l).trans (dropDependent_lists s l).pruned

theorem dropDependency_linked (h : s.core.Linked) (l : Nat) : (s.dropDependency l).core.Linked :=
  (dropDependency_lists s l).linked (h.unlink l)

theorem dropDependent_linked (h : s.core.Linked) (l : Nat) : (s.dropDependent l).core.Linked :=
  (dropDependent_lists s l).linked (h.rmDep l)

theorem dropDependency_dependsOn (s : Loader) (l k : Nat) :
    ((s.dropDependency l).core.svc k).dependsOn =
      if k=(s.core.link l).from_ then (s.core.svc k).dependsOn.erase l
      else (s.core.svc k).dependsOn := by
  rw [(dropDependency_lists s l).dependsOn,Core.unlink_dependsOn]

theorem dropDependent_dependsOn (s : Loader) (l k : Nat) :
    ((s.dropDependent l).core.svc k).dependsOn =
      if k=(s.core.link l).from_ then (s.core.svc k).dependsOn.erase l
      else (s.core.svc k).dependsOn := by
  rw [(dropDependent_lists s l).dependsOn,(Core.rmDep_graph s.core l).dependsOn,
    Core.unlink_dependsOn]

theorem dropDependent_dependents (s : Loader) (l k : Nat) :
    ((s.dropDependent l).core.svc k).dependents =
      if k=(s.core.link l).to_ then (s.core.svc k).dependents.erase l
      else (s.core.svc k).dependents := by
  rw [(dropDependent_lists s l).dependents,(Core.rmDep_graph s.core l).dependents,
    Core.unlink_dependents]

/-- Services that are more than placeholders are not touched when one is dropped. -/
theorem dropPlaceholder_real (s : Loader) {k : Nat} (i : Nat) (b : Bool)
    (hk : (s.core.svc k).getType≠.placeholder) :
    (s.dropPlaceholder i b).core.svc k=s.core.svc k := by
  by_cases hki : k=i
  · subst hki
    rcases dropPlaceholder_cases s k b with ⟨h,-⟩ | ⟨h,-⟩
    · rw [h]
    · exact absurd h hk
  · exact dropPlaceholder_svc s b hki

/-- The records `extra` are services. -/
def Built (s : Loader) (extra : List Nat) : Prop :=
  ∀ k ∈ extra, (s.core.svc k).getType≠.placeholder

theorem Built.dropPlaceholder (h : s.Built extra) (i : Nat) (b : Bool) :
    (s.dropPlaceholder i b).Built extra := by
  intro k hk
  rw [dropPlaceholder_real s i b (h k hk)]
  exact h k hk

theorem Built.onCore (h : s.Built extra) {f : Core → Core}
    (hf : ∀ k, ((f s.core).svc k).settings=(s.core.svc k).settings) :
    (s.onCore f).Built extra := by
  intro k hk
  rw [Svc.getType,onCore_core,hf]
  exact h k hk

theorem Built.dropDependency (h : s.Built extra) (l : Nat) : (s.dropDependency l).Built extra := by
  have hu : (s.onCore fun c => c.unlink l).Built extra := h.onCore (Core.unlink_settings _ l)
  unfold Loader.dropDependency
  dsimp only
  split
  · exact hu.dropPlaceholder _ true
  · exact hu

theorem Built.dropDependent (h : s.Built extra) (l : Nat) : (s.dropDependent l).Built extra := by
  have hu : (s.onCore fun c => c.rmDep l).Built extra := h.onCore (rmDep_settings _ l)
  exact hu.dropPlaceholder _ true

/-- An end of a link may be dropped. -/
theorem Sound.dropEnd (h : s.Sound extra) (hb : s.Built extra) (hi : i ∈ s.core.records++extra)
    (b : Bool) : (s.dropPlaceholder i b).Sound extra := by
  by_cases he : i ∈ extra
  · have heq : s.dropPlaceholder i b=s := by
      have hf := h.alive i hi
      simp only [Loader.dropPlaceholder,requires,hf]
      simp [hb i he]
    rw [heq]
    exact h
  · have hi' : i ∈ s.core.records := by
      rcases List.mem_append.mp hi with hi | hi
      · exact hi
      · exact absurd hi he
    exact h.dropPlaceholder hi' he b

theorem dropPlaceholder_stays {k : Nat} (b : Bool) (hk : k ∈ s.core.records)
    (h : k≠i ∨ (s.core.svc k).getType≠.placeholder) :
    k ∈ (s.dropPlaceholder i b).core.records := by
  rcases dropPlaceholder_records s i b with hr | ⟨ht,hr⟩
  · rw [hr]
    exact hk
  · rw [hr]
    refine (List.mem_erase_of_ne ?_).mpr hk
    rintro rfl
    exact h.elim (fun h => h rfl) fun h => h ht

theorem dropPlaceholder_sublist (s : Loader) (i : Nat) (b : Bool) :
    (s.dropPlaceholder i b).core.records.Sublist s.core.records := by
  rcases dropPlaceholder_records s i b with hr | ⟨-,hr⟩ <;> rw [hr]
  exact List.erase_sublist

/-- `s'` is `s` without some of the links of `i`, and without the placeholders that were
there for them only. -/
structure Loses (extra : List Nat) (i : Nat) (s s' : Loader) : Prop where
  sound : s'.Sound extra
  built : s'.Built extra
  pruned : s.core.Pruned s'.core
  records : s'.core.records.Sublist s.core.records
  stays : i ∈ s.core.records → i ∈ s'.core.records

theorem Loses.trans {s' s'' : Loader} (h : Loses extra i s s') (h' : Loses extra i s' s'') :
    Loses extra i s s'' where
  sound := h'.sound
  built := h'.built
  pruned := h.pruned.trans h'.pruned
  records := h'.records.trans h.records
  stays hi := h'.stays (h.stays hi)

theorem Sound.dropDependency (h : s.Sound extra) (hb : s.Built extra)
    (hl : l ∈ (s.core.svc i).dependsOn) : Loses extra i s (s.dropDependency l) := by
  have hto := (h.mem hl).2
  have hu := h.unlink l
  have hb' : (s.onCore fun c => c.unlink l).Built extra := hb.onCore (Core.unlink_settings _ l)
  have heq : s.dropDependency l=if (s.core.link l).depType=.after then
      (s.onCore fun c => c.unlink l).dropPlaceholder (s.core.link l).to_ true
      else s.onCore fun c => c.unlink l := rfl
  refine ⟨?_,hb.dropDependency l,dropDependency_pruned s l,?_,?_⟩
  · rw [heq]
    split_ifs
    · exact hu.dropEnd hb' hto true
    · exact hu
  · rw [heq]
    split_ifs
    · exact dropPlaceholder_sublist (s.onCore fun c => c.unlink l) _ true
    · exact .refl _
  · intro hi
    rw [heq]
    split_ifs
    · refine dropPlaceholder_stays true hi ?_
      -- a placeholder has no link to itself
      by_cases hti : (s.core.svc i).getType=.placeholder
      · exact .inl (h.noSelf i l hl hti).symm
      · refine .inr ?_
        rw [Svc.getType,onCore_core,Core.unlink_settings]
        exact hti
    · exact hi

theorem Sound.dropDependent (h : s.Sound extra) (hb : s.Built extra)
    (hl : l ∈ (s.core.svc i).dependents) : Loses extra i s (s.dropDependent l) := by
  obtain ⟨hto,hdep⟩ := h.linked.dependents i l hl
  have hu := h.rmDep l
  have hb' : (s.onCore fun c => c.rmDep l).Built extra := hb.onCore (rmDep_settings _ l)
  have hrec : (s.onCore fun c => c.rmDep l).core.records=s.core.records :=
    (Core.rmDep_graph s.core l).records
  refine ⟨?_,hb.dropDependent l,dropDependent_pruned s l,?_,?_⟩
  · refine hu.dropEnd hb' ?_ true
    rw [hrec]
    exact (h.mem hdep).1
  · rw [← hrec]
    exact dropPlaceholder_sublist (s.onCore fun c => c.rmDep l) _ true
  · intro hi
    rw [← hrec] at hi
    refine dropPlaceholder_stays true hi ?_
    by_cases hti : (s.core.svc i).getType=.placeholder
    · refine .inl ?_
      intro he
      rw [← he] at hdep
      exact h.noSelf i l hdep hti hto
    · refine .inr ?_
      rw [Svc.getType,onCore_core,rmDep_settings]
      exact hti

/-- A loop that drops dependencies of `i`. -/
theorem Sound.dropDependencies {ls : List Nat} (h : s.Sound extra) (hb : s.Built extra)
    (hn : ls.Nodup) (hls : ∀ l ∈ ls, l ∈ (s.core.svc i).dependsOn) :
    Loses extra i s (ls.foldl Loader.dropDependency s) ∧
      ∀ l ∈ ls, l ∉ ((ls.foldl Loader.dropDependency s).core.svc i).dependsOn := by
  induction ls generalizing s with
  | nil => exact ⟨⟨h,hb,.refl _,.refl _,id⟩,by simp⟩
  | cons l ls ih =>
    obtain ⟨hl,hn⟩ := List.nodup_cons.mp hn
    have hfrom := (h.linked.dependsOn i l (hls l List.mem_cons_self)).1
    have hmem (k : Nat) (hk : k ∈ ls) : k ∈ ((s.dropDependency l).core.svc i).dependsOn := by
      rw [dropDependency_dependsOn,if_pos hfrom.symm]
      refine (List.mem_erase_of_ne ?_).mpr (hls k (List.mem_cons_of_mem l hk))
      rintro rfl
      exact hl hk
    have h1 := h.dropDependency hb (hls l List.mem_cons_self)
    obtain ⟨h2,h3⟩ := ih h1.sound h1.built hn hmem
    refine ⟨h1.trans h2,?_⟩
    intro k hk
    rcases List.mem_cons.mp hk with rfl | hk
    · intro hmem
      have hin := (h2.pruned.dependsOn i).subset hmem
      rw [dropDependency_dependsOn,if_pos hfrom.symm] at hin
      exact (h.linked.dependsOn_nodup i).not_mem_erase hin
    · exact h3 k hk

/-- A loop that drops dependents of `i`. -/
theorem Sound.dropDependents {ls : List Nat} (h : s.Sound extra) (hb : s.Built extra)
    (hn : ls.Nodup) (hls : ∀ l ∈ ls, l ∈ (s.core.svc i).dependents) :
    Loses extra i s (ls.foldl Loader.dropDependent s) ∧
      ∀ l ∈ ls, l ∉ ((ls.foldl Loader.dropDependent s).core.svc i).dependents := by
  induction ls generalizing s with
  | nil => exact ⟨⟨h,hb,.refl _,.refl _,id⟩,by simp⟩
  | cons l ls ih =>
    obtain ⟨hl,hn⟩ := List.nodup_cons.mp hn
    have hto := (h.linked.dependents i l (hls l List.mem_cons_self)).1
    have hmem (k : Nat) (hk : k ∈ ls) : k ∈ ((s.dropDependent l).core.svc i).dependents := by
      rw [dropDependent_dependents,if_pos hto.symm]
      refine (List.mem_erase_of_ne ?_).mpr (hls k (List.mem_cons_of_mem l hk))
      rintro rfl
      exact hl hk
    have h1 := h.dropDependent hb (hls l List.mem_cons_self)
    obtain ⟨h2,h3⟩ := ih h1.sound h1.built hn hmem
    refine ⟨h1.trans h2,?_⟩
    intro k hk
    rcases List.mem_cons.mp hk with rfl | hk
    · intro hmem
      have hin := (h2.pruned.dependents i).subset hmem
      rw [dropDependent_dependents,if_pos hto.symm] at hin
      exact (h.linked.dependents_nodup i).not_mem_erase hin
    · exact h3 k hk

/-- Nothing leads to or from a service that is prepared for its unloading. -/
theorem Sound.prepareForUnload (h : s.Sound extra) (hb : s.Built extra) (i : Nat) :
    Loses extra i s (s.prepareForUnload i) ∧
      ((s.prepareForUnload i).core.svc i).dependsOn=[] ∧
      ((s.prepareForUnload i).core.svc i).dependents=[] := by
  obtain ⟨h1,he1⟩ := h.dropDependencies hb (h.linked.dependsOn_nodup i) fun _ hl => hl
  obtain ⟨h2,he2⟩ :=
    h1.sound.dropDependents h1.built (h1.sound.linked.dependents_nodup i) fun _ hl => hl
  refine ⟨h1.trans h2,?_,?_⟩
  · rw [List.eq_nil_iff_forall_not_mem]
    intro l hl
    have hin := (h2.pruned.dependsOn i).subset hl
    exact he1 l ((h1.pruned.dependsOn i).subset hin) hin
  · rw [List.eq_nil_iff_forall_not_mem]
    intro l hl
    exact he2 l ((h2.pruned.dependents i).subset hl) hl

end Loader
end Dinit
