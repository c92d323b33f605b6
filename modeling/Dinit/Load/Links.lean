import Dinit.Load.Request
import Dinit.Run.Graph

namespace Dinit

open Framework Framework.Comp World

namespace Core

variable {c : Core} {i j : Nat} {ls : List Nat}

/-- Only the services of `S` have links. -/
def LinkedIn (c : Core) (S : List Nat) : Prop :=
  ∀ i, i ∉ S → (c.svc i).dependsOn=[] ∧ (c.svc i).dependents=[]

theorem LinkedIn.of_graph {c' : Core} {S : List Nat} (h : c.LinkedIn S) (hg : c.SameGraph c') :
    c'.LinkedIn S := by
  intro i hi
  rw [hg.dependsOn,hg.dependents]
  exact h i hi

theorem LinkedIn.from_mem {S : List Nat} (hS : c.LinkedIn S) {l : Nat}
    (hl : l ∈ (c.svc i).dependsOn) : i ∈ S := by
  by_contra hi
  rw [(hS i hi).1] at hl
  cases hl

theorem Linked.to_mem (h : c.Linked) {S : List Nat} (hS : c.LinkedIn S) {l : Nat}
    (hl : l ∈ (c.svc i).dependsOn) : (c.link l).to_ ∈ S := by
  have hd := (h.dependsOn i l hl).2
  by_contra hi
  rw [(hS _ hi).2] at hd
  cases hd

theorem linkAt_linkedIn {S : List Nat} (h : c.LinkedIn S) (depType : DependencyType)
    (place dptPlace : Nat) (hi : i ∈ S) (hj : j ∈ S) :
    (c.linkAt i j depType place dptPlace).LinkedIn S := by
  intro k hk
  have hki : k≠i := by
    rintro rfl
    exact hk hi
  have hkj : k≠j := by
    rintro rfl
    exact hk hj
  rw [linkAt_dependsOn,linkAt_dependents,if_neg hki,if_neg hkj]
  exact h k hk

theorem unlink_linkedIn {S : List Nat} (h : c.LinkedIn S) (l : Nat) : (c.unlink l).LinkedIn S := by
  intro k hk
  obtain ⟨h1,h2⟩ := h k hk
  rw [unlink_dependsOn,unlink_dependents,h1,h2]
  simp

theorem rmDep_graph (c : Core) (l : Nat) : (c.unlink l).SameGraph (c.rmDep l) := by
  unfold rmDep
  split
  · exact (frame_release _ _).graph
  · exact .refl _

theorem addDepAt_graph (c : Core) (f t : Nat) (depType : DependencyType) (place : Nat) :
    (c.linkAt f t depType place (c.svc t).dependents.length).SameGraph
      (c.addDepAt f t depType place) := by
  unfold addDepAt
  dsimp only
  split
  · exact (frame_acquire _ _).graph
  · exact .refl _

section
variable (c i j ls)

@[simp] theorem moveDependents_dependsOn (k : Nat) :
    ((c.moveDependents i j ls).svc k).dependsOn=(c.svc k).dependsOn := by
  simp only [moveDependents,setSvc_svc]
  split_ifs <;> simp_all [setLinks]

theorem moveDependents_dependents (hij : i≠j) (k : Nat) :
    ((c.moveDependents i j ls).svc k).dependents =
      if k=j then ls++(c.svc j).dependents
      else if k=i then (c.svc i).dependents.filter fun l => !ls.contains l
      else (c.svc k).dependents := by
  have hji : j≠i := fun h => hij h.symm
  by_cases hk : k=j
  · subst hk
    simp [moveDependents,setLinks,hji]
  · by_cases hk' : k=i
    · subst hk'
      simp [moveDependents,setLinks,hk]
    · simp [moveDependents,setLinks,hk,hk']

@[simp] theorem moveDependents_link (l : Nat) : (c.moveDependents i j ls).link l =
    if l ∈ ls then { c.link l with to_ := j } else c.link l := by
  simp [moveDependents,setSvc,setLinks]

@[simp] theorem moveDependencies_dependents (k : Nat) :
    ((c.moveDependencies i j ls).svc k).dependents=(c.svc k).dependents := by
  simp only [moveDependencies,setSvc_svc]
  split_ifs <;> simp_all [setLinks]

theorem moveDependencies_dependsOn (hij : i≠j) (k : Nat) :
    ((c.moveDependencies i j ls).svc k).dependsOn =
      if k=j then (c.svc j).dependsOn++ls
      else if k=i then (c.svc i).dependsOn.filter fun l => !ls.contains l
      else (c.svc k).dependsOn := by
  have hji : j≠i := fun h => hij h.symm
  by_cases hk : k=j
  · subst hk
    simp [moveDependencies,setLinks,hji]
  · by_cases hk' : k=i
    · subst hk'
      simp [moveDependencies,setLinks,hk]
    · simp [moveDependencies,setLinks,hk,hk']

@[simp] theorem moveDependencies_link (l : Nat) : (c.moveDependencies i j ls).link l =
    if l ∈ ls then { c.link l with from_ := j } else c.link l := by
  simp [moveDependencies,setSvc,setLinks]

end

/-- Links that lead to another service afterwards, at both ends. -/
theorem Linked.moveDependents (h : c.Linked) (hij : i≠j) (hn : ls.Nodup)
    (hls : ∀ l ∈ ls, l ∈ (c.svc i).dependents) : (c.moveDependents i j ls).Linked := by
  have hto {k l : Nat} (hl : l ∈ (c.svc k).dependents) (hm : l ∈ ls) : k=i :=
    (h.dependents k l hl).1.symm.trans (h.dependents i l (hls l hm)).1
  have hdis {l : Nat} (hm : l ∈ ls) : l ∉ (c.svc j).dependents := by
    intro hl
    exact hij (hto hl hm).symm
  refine ⟨?_,?_,?_,?_,?_⟩
  · intro k l hl
    rw [moveDependents_dependsOn] at hl
    obtain ⟨h1,h2⟩ := h.dependsOn k l hl
    rw [moveDependents_link,moveDependents_dependents c i j ls hij]
    by_cases hm : l ∈ ls
    · simp [hm,h1]
    · rw [if_neg hm]
      refine ⟨h1,?_⟩
      split_ifs with ha hb
      · rw [ha] at h2
        simp [h2]
      · rw [hb] at h2
        simp [h2,hm]
      · exact h2
  · intro k l hl
    rw [moveDependents_dependents c i j ls hij] at hl
    rw [moveDependents_link]
    by_cases hm : l ∈ ls
    · have hk : k=j := by
        split_ifs at hl with ha hb
        · exact ha
        · simp [hm] at hl
        · exact absurd (hto hl hm) hb
      simp only [hm,if_true,moveDependents_dependsOn]
      exact ⟨hk.symm,(h.dependents i l (hls l hm)).2⟩
    · rw [if_neg hm]
      have hl' : l ∈ (c.svc k).dependents := by
        split_ifs at hl with ha hb
        · subst ha
          simpa [hm] using hl
        · subst hb
          exact (List.mem_filter.mp hl).1
        · exact hl
      rw [moveDependents_dependsOn]
      exact h.dependents k l hl'
  · intro k
    rw [moveDependents_dependsOn]
    exact h.dependsOn_nodup k
  · intro k
    rw [moveDependents_dependents c i j ls hij]
    split_ifs
    · rw [List.nodup_append]
      refine ⟨hn,h.dependents_nodup j,?_⟩
      rintro a ha b hb rfl
      exact hdis ha hb
    · exact (h.dependents_nodup i).filter _
    · exact h.dependents_nodup k
  · intro k l hl
    rw [moveDependents_dependsOn] at hl
    exact h.below k l hl

/-- Links that come from another service afterwards, at both ends. -/
theorem Linked.moveDependencies (h : c.Linked) (hij : i≠j) (hn : ls.Nodup)
    (hls : ∀ l ∈ ls, l ∈ (c.svc i).dependsOn) : (c.moveDependencies i j ls).Linked := by
  have hfrom {k l : Nat} (hl : l ∈ (c.svc k).dependsOn) (hm : l ∈ ls) : k=i :=
    (h.dependsOn k l hl).1.symm.trans (h.dependsOn i l (hls l hm)).1
  have hdis {l : Nat} (hm : l ∈ ls) : l ∉ (c.svc j).dependsOn := by
    intro hl
    exact hij (hfrom hl hm).symm
  have hold {k l : Nat} (hm : l ∉ ls)
      (hl : l ∈ ((c.moveDependencies i j ls).svc k).dependsOn) : l ∈ (c.svc k).dependsOn := by
    rw [moveDependencies_dependsOn c i j ls hij] at hl
    split_ifs at hl with ha hb
    · subst ha
      simpa [hm] using hl
    · subst hb
      exact (List.mem_filter.mp hl).1
    · exact hl
  refine ⟨?_,?_,?_,?_,?_⟩
  · intro k l hl
    rw [moveDependencies_link,moveDependencies_dependents]
    by_cases hm : l ∈ ls
    · rw [moveDependencies_dependsOn c i j ls hij] at hl
      have hk : k=j := by
        split_ifs at hl with ha hb
        · exact ha
        · simp [hm] at hl
        · exact absurd (hfrom hl hm) hb
      simp only [hm,if_true]
      exact ⟨hk.symm,(h.dependsOn i l (hls l hm)).2⟩
    · rw [if_neg hm]
      exact h.dependsOn k l (hold hm hl)
  · intro k l hl
    rw [moveDependencies_dependents] at hl
    obtain ⟨h1,h2⟩ := h.dependents k l hl
    rw [moveDependencies_link,moveDependencies_dependsOn c i j ls hij]
    by_cases hm : l ∈ ls
    · simp [hm,h1]
    · rw [if_neg hm]
      refine ⟨h1,?_⟩
      split_ifs with ha hb
      · rw [ha] at h2
        simp [h2]
      · rw [hb] at h2
        simp [h2,hm]
      · exact h2
  · intro k
    rw [moveDependencies_dependsOn c i j ls hij]
    split_ifs
    · rw [List.nodup_append]
      refine ⟨h.dependsOn_nodup j,hn,?_⟩
      rintro a ha b hb rfl
      exact hdis hb ha
    · exact (h.dependsOn_nodup i).filter _
    · exact h.dependsOn_nodup k
  · intro k
    rw [moveDependencies_dependents]
    exact h.dependents_nodup k
  · intro k l hl
    by_cases hm : l ∈ ls
    · exact h.below i l (hls l hm)
    · exact h.below k l (hold hm hl)

theorem moveDependents_linkedIn {S : List Nat} (h : c.LinkedIn S) (hij : i≠j) (hj : j ∈ S) :
    (c.moveDependents i j ls).LinkedIn S := by
  intro k hk
  obtain ⟨h1,h2⟩ := h k hk
  have hkj : k≠j := by
    rintro rfl
    exact hk hj
  rw [moveDependents_dependsOn,moveDependents_dependents c i j ls hij,if_neg hkj]
  refine ⟨h1,?_⟩
  split_ifs with hki
  · rw [← hki,h2]
    rfl
  · exact h2

theorem moveDependencies_linkedIn {S : List Nat} (h : c.LinkedIn S) (hij : i≠j) (hj : j ∈ S) :
    (c.moveDependencies i j ls).LinkedIn S := by
  intro k hk
  obtain ⟨h1,h2⟩ := h k hk
  have hkj : k≠j := by
    rintro rfl
    exact hk hj
  rw [moveDependencies_dependents,moveDependencies_dependsOn c i j ls hij,if_neg hkj]
  refine ⟨?_,h2⟩
  split_ifs with hki
  · rw [← hki,h1]
    rfl
  · exact h1

/-- Fields of the core that are neither records nor links. -/
theorem Linked.of_eq {c' : Core} (h : c.Linked) (hs : c'.svc=c.svc) (hl : c'.link=c.link)
    (hn : c'.nextLink=c.nextLink) : c'.Linked := by
  refine ⟨?_,?_,?_,?_,?_⟩
  · rw [hs,hl]
    exact h.dependsOn
  · rw [hs,hl]
    exact h.dependents
  · rw [hs]
    exact h.dependsOn_nodup
  · rw [hs]
    exact h.dependents_nodup
  · rw [hs,hn]
    exact h.below

/-- A record without links is replaced or deleted. -/
theorem Linked.setSvc (h : c.Linked) {f : Svc → Svc} (hd : (c.svc i).dependsOn=[])
    (hp : (c.svc i).dependents=[]) (hd' : (f (c.svc i)).dependsOn=[])
    (hp' : (f (c.svc i)).dependents=[]) : (c.setSvc i f).Linked := by
  have hdep (k : Nat) : ((c.setSvc i f).svc k).dependsOn=(c.svc k).dependsOn := by
    by_cases hk : k=i
    · subst hk
      simp [hd,hd']
    · simp [hk]
  have hdpt (k : Nat) : ((c.setSvc i f).svc k).dependents=(c.svc k).dependents := by
    by_cases hk : k=i
    · subst hk
      simp [hp,hp']
    · simp [hk]
  refine ⟨?_,?_,?_,?_,?_⟩
  · intro k l hl
    rw [hdep] at hl
    rw [hdpt]
    exact h.dependsOn k l hl
  · intro k l hl
    rw [hdpt] at hl
    rw [hdep]
    exact h.dependents k l hl
  · intro k
    rw [hdep]
    exact h.dependsOn_nodup k
  · intro k
    rw [hdpt]
    exact h.dependents_nodup k
  · intro k l hl
    rw [hdep] at hl
    exact h.below k l hl

end Core
end Dinit
