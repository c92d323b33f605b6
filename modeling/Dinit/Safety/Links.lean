import Dinit.Load.Handle

namespace Dinit

open Framework Framework.Comp

/-- Each dependency is known at both ends, and both ends are in the set. -/
def Core.TwoWay (c : Core) : Prop :=
  ∀ i ∈ c.records,
    (∀ l ∈ (c.svc i).dependsOn, (c.link l).from_=i ∧ (c.link l).to_ ∈ c.records ∧
      (c.svc (c.link l).to_).dependents.count l=1) ∧
    ∀ l ∈ (c.svc i).dependents, (c.link l).to_=i ∧ (c.link l).from_ ∈ c.records ∧
      l ∈ (c.svc (c.link l).from_).dependsOn

instance (c : Core) : Decidable c.TwoWay := by
  unfold Core.TwoWay
  infer_instance

instance : DecidablePred LoadOk
  | (.link orig _ _,c,_) => inferInstanceAs (Decidable (orig ∈ c.records))
  | (.cleanup dummy before after consumer,c,r) => inferInstanceAs (Decidable (
      (∀ i ∈ dummy, i ∈ c.records ∧ (c.svc i).dependsOn=[] ∧ (c.svc i).dependents=[] ∧
        i ∉ before++after++consumer) ∧ ((before++after++consumer).filter (c.spare r)).Nodup))
  | (.transfer _,_,_) | (.replace _ _,_,_) | (.consume _ _,_,_) | (.unload _,_,_) => .isTrue trivial

namespace Loader

variable {s : Loader}

theorem Sound.twoWay (h : s.Sound []) : s.core.TwoWay := by
  have hmem {k : Nat} (hk : k ∈ s.core.records++[]) : k ∈ s.core.records := by simpa using hk
  intro i hi
  constructor
  · intro l hl
    obtain ⟨hf,ht⟩ := h.linked.dependsOn i l hl
    exact ⟨hf,hmem (h.mem hl).2,
      List.count_eq_one_of_mem (h.linked.dependents_nodup _) ht⟩
  · intro l hl
    obtain ⟨ht,hf⟩ := h.linked.dependents i l hl
    exact ⟨ht,hmem (h.mem hf).1,hf⟩

/-- Links are two-way and names unique, between any two requests of a run in which what is
loaded over stays in the set and each cleanup meets what it relies on. -/
theorem Reached.two_way (h : Reached s) (hok : ∀ e ∈ s.calls, LoadOk e) :
    s.reg.undefined=false ∧ s.core.TwoWay ∧ s.Named := by
  have hg := (h.invariant _ (I := fun _ => True) trivial (fun _ _ _ _ _ _ _ => trivial)
    (fun _ h => h) hok).1
  exact ⟨hg.sound.defined,hg.sound.twoWay,hg.named⟩

/-- A service with a dependency that is to come before it. -/
def beforeDependent (lines : List Line) : String → Except LoadError File
  | "a" => .ok { lines := lines, settings := { recordType := .process }, isService := process_isService }
  | "b" => .ok { lines := [.before "a"], settings := { recordType := .process }, isService := process_isService }
  | n => .error (.notFound n)

theorem two_way_loaded : ∃ s, Reached s ∧ (∀ e ∈ s.calls, LoadOk e) ∧ s.core.records.length=2 ∧
    s.reg.undefined=false ∧ s.core.TwoWay ∧ s.Named := by
  obtain ⟨s,hs,hp⟩ := reached_of_run 10
    ([⟨beforeDependent [],.load "b"⟩,⟨beforeDependent [],.load "a"⟩,
      ⟨beforeDependent [],.reload 3⟩])
    (p := fun s => decide (∀ e ∈ s.calls, LoadOk e) && decide (s.core.records.length=2))
    (by decide +kernel)
  obtain ⟨hok,hlen⟩ : (∀ e ∈ s.calls, LoadOk e) ∧ _ := by simpa using hp
  exact ⟨s,hs,hok,hlen,hs.two_way hok⟩

/-- The load of "a" fails once "b" has been loaded and given the dummy of "a" a "before"
link, which is left in the dependents of "b" when the dummy is deleted. -/
theorem two_way_dangling : ¬∀ s, Reached s → s.core.TwoWay ∧ s.Named := by
  intro h
  obtain ⟨s,hs,hp⟩ := reached_of_run 10
    ([⟨beforeDependent [.dependsOn "b" .regular,.bad "no such setting"],.load "a"⟩])
    (p := fun s => !decide s.core.TwoWay) (by decide +kernel)
  simp only [Bool.not_eq_true',decide_eq_false_iff_not] at hp
  exact hp (h s hs).1

end Loader
end Dinit
