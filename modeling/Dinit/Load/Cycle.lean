import Dinit.Framework.Graph
import Dinit.Load.Replace

namespace Dinit

open Framework Framework.Comp World Relation

namespace Core

variable {c : Core}

/-- A dependency of any kind leads from `i` to `j`. -/
def Edge (c : Core) (i j : Nat) : Prop := j ∈ c.targets i

theorem edge_iff {i j : Nat} :
    c.Edge i j ↔ ∃ l ∈ (c.svc i).dependsOn, (c.link l).to_=j := by
  simp [Edge,targets]

theorem Edge.of_graph {c' : Core} (h : c.SameGraph c') {i j : Nat} (he : c'.Edge i j) :
    c.Edge i j := by
  obtain ⟨l,hl,hto⟩ := edge_iff.mp he
  rw [h.dependsOn] at hl
  rw [h.to_] at hto
  exact edge_iff.mpr ⟨l,hl,hto⟩

/-- Nothing leads to a service without dependents. -/
theorem Linked.not_reach (h : c.Linked) {i j : Nat} (hj : (c.svc j).dependents=[]) (hij : i≠j) :
    ¬ReflTransGen c.Edge i j := by
  intro hr
  rcases ReflTransGen.cases_tail hr with he | ⟨k,-,he⟩
  · exact hij he.symm
  · obtain ⟨l,hl,rfl⟩ := edge_iff.mp he
    have := (h.dependsOn k l hl).2
    rw [hj] at this
    cases this

/-- A walk that ends without having found `orig` has seen everything it leads to. -/
theorem walk_false {orig fuel : Nat} {done todo : List Nat} {s s' : Loader}
    (h : c.walk orig fuel done todo s=(some false,s'))
    (hc : ∀ i ∈ done, ∀ j, c.Edge i j → j ∈ todo++done)
    (ho : ∀ i ∈ done, ¬c.Edge i orig) :
    ∃ seen : List Nat, (∀ i ∈ todo++done, i ∈ seen) ∧ (∀ i ∈ seen, ∀ j, c.Edge i j → j ∈ seen) ∧
      ∀ i ∈ seen, ¬c.Edge i orig := by
  induction fuel generalizing done todo with
  | zero => cases h
  | succ fuel ih =>
    cases todo with
    | nil => exact ⟨done,fun i hi => by simpa using hi,fun i hi j hj => by simpa using hc i hi j hj,ho⟩
    | cons i todo =>
      simp only [walk] at h
      split at h
      · cases h
      · next hn =>
        have hno : ¬c.Edge i orig := by simpa [Edge] using hn
        have hc' : ∀ k ∈ i::done, ∀ j, c.Edge k j →
            j ∈ todo++((c.targets i).filter fun j => !(i::todo++done).contains j).eraseDups++
              (i::done) := by
          intro k hk j hj
          simp only [List.mem_append,List.mem_cons,List.mem_eraseDups,List.mem_filter]
          by_cases hm : j ∈ i::todo++done
          · simp only [List.cons_append,List.mem_append,List.mem_cons] at hm
            tauto
          · rcases List.mem_cons.mp hk with rfl | hk
            · exact .inl (.inr ⟨hj,by simpa using hm⟩)
            · exact absurd (hc k hk j hj) hm
        have ho' : ∀ k ∈ i::done, ¬c.Edge k orig := by
          intro k hk
          rcases List.mem_cons.mp hk with rfl | hk
          · exact hno
          · exact ho k hk
        obtain ⟨seen,h1,h2,h3⟩ := ih h hc' ho'
        refine ⟨seen,?_,h2,h3⟩
        intro k hk
        apply h1
        simp only [List.cons_append,List.mem_append,List.mem_cons] at hk ⊢
        tauto

/-- The check for cycles finds every service that leads to `orig`. -/
theorem checkCycle_false {orig fuel : Nat} {deps : List Nat} {s s' : Loader}
    (h : c.checkCycle fuel deps orig s=(some false,s')) {i : Nat} (hi : i ∈ deps) :
    ¬ReflTransGen c.Edge i orig := by
  unfold checkCycle at h
  split at h
  · cases h
  · next hn =>
    obtain ⟨seen,h1,h2,h3⟩ := walk_false h (by simp) (by simp)
    refine not_reach_of_closed (S := fun a => a ∈ seen) (fun a b ha hab => h2 a ha b hab) h3
      (h1 i (by simpa using hi)) ?_
    rintro rfl
    exact hn (by simpa using hi)

theorem within_walk {R : Loader → Loader → Prop} (orig fuel : Nat) (done todo : List Nat)
    (s : Loader) : Within R (c.walk orig fuel done todo) s fun _ s' => s'=s := by
  induction fuel generalizing done todo with
  | zero => exact within_fail
  | succ fuel ih =>
    cases todo with
    | nil => exact within_pure rfl
    | cons i todo => exact within_ite (fun _ => within_pure rfl) fun _ => ih _ _

theorem within_checkCycle {R : Loader → Loader → Prop} (fuel : Nat) (deps : List Nat) (orig : Nat)
    (s : Loader) : Within R (c.checkCycle fuel deps orig) s fun b s' => s'=s ∧
      (b=false → ∀ i ∈ deps, ¬ReflTransGen c.Edge i orig) := by
  have h : Within R (c.checkCycle fuel deps orig) s fun _ s' => s'=s :=
    within_ite (fun _ => within_pure rfl) fun _ => within_walk orig fuel _ _ s
  refine ⟨h.1,fun b hb => ⟨h.2 b hb,?_⟩⟩
  rintro rfl i hi
  exact checkCycle_false (Prod.ext hb rfl) hi

end Core
end Dinit
