import Mathlib.Data.List.Basic

namespace Dinit.Framework

/-- Steps that may fail, where each belongs to a group, and the state is made of a part for each
group: a step leaves the parts of the other groups as they are, and what it does to the part of its
own depends on no other. -/
structure Footprint (S L G ε : Type) (V : G → Type) where
  step : L → S → Except ε S
  group : L → G
  view : ∀ g,S → V g
  ext : ∀ {x y : S},(∀ g,view g x=view g y) → x=y
  frame : ∀ {l : L} {x y : S} {g : G},step l x=.ok y → g≠group l → view g x=view g y
  own : ∀ {l : L} {x x' y : S},view (group l) x=view (group l) x' → step l x=.ok y →
    ∃ y',step l x'=.ok y' ∧ view (group l) y=view (group l) y'

namespace Footprint

variable {S L G ε : Type} {V : G → Type} (F : Footprint S L G ε V)

def run (ls : List L) (x : S) : Except ε S := ls.foldlM (fun x l => F.step l x) x

@[simp] theorem run_nil (x : S) : F.run [] x=.ok x := rfl

theorem run_cons_ok {l : L} {ls : List L} {x y : S} :
    F.run (l::ls) x=.ok y ↔ ∃ z,F.step l x=.ok z ∧ F.run ls z=.ok y := by
  have h : F.run (l::ls) x=(F.step l x).bind (F.run ls) := List.foldlM_cons
  rw [h]
  cases F.step l x with
  | error e => simp [Except.bind]
  | ok z => simp [Except.bind]

/-- Of properties of the parts, every step keeps that of its own group, and so a run keeps them all. -/
theorem run_keeps {P : ∀ g,V g → Prop}
    (hs : ∀ {l : L} {x y : S},F.step l x=.ok y → P (F.group l) (F.view (F.group l) x) →
      P (F.group l) (F.view (F.group l) y))
    {ls : List L} {x y : S} (h : F.run ls x=.ok y) (hx : ∀ g,P g (F.view g x)) (g : G) :
    P g (F.view g y) := by
  induction ls generalizing x with
  | nil =>
    cases h
    exact hx g
  | cons l ls ih =>
    obtain ⟨z,hz,h⟩ := F.run_cons_ok.mp h
    refine ih h fun g => ?_
    by_cases hg : g=F.group l
    · subst hg
      exact hs hz (hx _)
    · exact F.frame hz hg ▸ hx g

variable [DecidableEq G]

/-- The steps of a group -/
def only (g : G) (ls : List L) : List L := ls.filter fun l => F.group l=g

theorem only_own {l : L} {g : G} (h : F.group l=g) (ls : List L) :
    F.only g (l::ls)=l::F.only g ls := by simp [only,h]

theorem only_other {l : L} {g : G} (h : F.group l≠g) (ls : List L) :
    F.only g (l::ls)=F.only g ls := by simp [only,h]

/-- The steps of a group come to the same on their own. -/
theorem run_only {ls : List L} {x x' y : S} {g : G} (hx : F.view g x=F.view g x')
    (h : F.run ls x=.ok y) : ∃ y',F.run (F.only g ls) x'=.ok y' ∧ F.view g y=F.view g y' := by
  induction ls generalizing x x' with
  | nil =>
    cases h
    exact ⟨x',rfl,hx⟩
  | cons l ls ih =>
    obtain ⟨z,hz,h⟩ := F.run_cons_ok.mp h
    by_cases hg : F.group l=g
    · subst hg
      obtain ⟨z',hz',hv⟩ := F.own hx hz
      obtain ⟨y',hy',hv'⟩ := ih hv h
      rw [F.only_own rfl]
      exact ⟨y',F.run_cons_ok.mpr ⟨z',hz',hy'⟩,hv'⟩
    · rw [F.only_other hg]
      exact ih ((F.frame hz (Ne.symm hg)).symm.trans hx) h

/-- If the steps of every group succeed, then all of them do, in whatever order they come. -/
theorem run_all {ls : List L} {x : S}
    (h : ∀ g,∃ x' y',F.view g x=F.view g x' ∧ F.run (F.only g ls) x'=.ok y') :
    ∃ y,F.run ls x=.ok y := by
  induction ls generalizing x with
  | nil => exact ⟨x,rfl⟩
  | cons l ls ih =>
    obtain ⟨x',y',hx,hr⟩ := h (F.group l)
    rw [F.only_own rfl] at hr
    obtain ⟨z',hz',hr⟩ := F.run_cons_ok.mp hr
    obtain ⟨z,hz,hv⟩ := F.own hx.symm hz'
    obtain ⟨y,hy⟩ := ih (x := z) fun g => by
      by_cases hg : F.group l=g
      · subst hg
        exact ⟨z',y',hv.symm,hr⟩
      · obtain ⟨x'',y'',hx',hr'⟩ := h g
        rw [F.only_other hg] at hr'
        exact ⟨x'',y'',(F.frame hz (Ne.symm hg)).symm.trans hx',hr'⟩
    exact ⟨y,F.run_cons_ok.mpr ⟨z,hz,hy⟩⟩

/-- What a run comes to, group by group -/
theorem run_iff {ls : List L} {x y : S} :
    F.run ls x=.ok y ↔ ∀ g,∃ y',F.run (F.only g ls) x=.ok y' ∧ F.view g y=F.view g y' := by
  constructor
  · intro h g
    exact F.run_only rfl h
  · intro h
    have hz : ∃ z,F.run ls x=.ok z := F.run_all fun g => by
      obtain ⟨y',hy',-⟩ := h g
      exact ⟨x,y',rfl,hy'⟩
    obtain ⟨z,hz⟩ := hz
    have he : z=y := by
      refine F.ext fun g => ?_
      obtain ⟨y',hy',hv⟩ := h g
      obtain ⟨z',hz',hv'⟩ := F.run_only (g := g) rfl hz
      cases hy'.symm.trans hz'
      exact hv'.trans hv.symm
    exact he ▸ hz

end Footprint

end Dinit.Framework
