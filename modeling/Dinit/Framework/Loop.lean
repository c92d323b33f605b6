import Mathlib.Logic.Relation

namespace Dinit.Framework

open Relation

/-- What one turn of a loop does: the loop goes on, or it ends. -/
inductive Turn (σ ρ : Type)
  | next (s : σ)
  | stop (r : ρ)

variable {σ ρ : Type} {turn : σ → Turn σ ρ}

/-- The result of a loop that ends within so many turns -/
def loop (turn : σ → Turn σ ρ) : Nat → σ → Option ρ
  | 0,_ => none
  | n+1,s =>
    match turn s with
    | .next s' => loop turn n s'
    | .stop r => some r

theorem loop_next {s s' : σ} (h : turn s=.next s') (n : Nat) : loop turn (n+1) s=loop turn n s' := by
  simp only [loop,h]

theorem loop_stop {s : σ} {r : ρ} (h : turn s=.stop r) (n : Nat) : loop turn (n+1) s=some r := by
  simp only [loop,h]

/-- More turns than are needed do not change the result. -/
theorem loop_mono {n m : Nat} {s : σ} {r : ρ} (h : loop turn n s=some r) (hle : n≤ m) :
    loop turn m s=some r := by
  induction n generalizing m s with
  | zero => cases h
  | succ n ih =>
    obtain ⟨k,rfl⟩ : ∃ k,m=k+1 := ⟨m-1,by omega⟩
    cases hturn : turn s with
    | next s' =>
      rw [loop_next hturn] at h ⊢
      exact ih h (by omega)
    | stop r' =>
      rw [loop_stop hturn] at h ⊢
      exact h

/-- The loop gets from one state to another. -/
def Goes (turn : σ → Turn σ ρ) : σ → σ → Prop := ReflTransGen fun s s' => turn s=.next s'

/-- The loop ends. -/
def LoopEnds (turn : σ → Turn σ ρ) (s : σ) (r : ρ) : Prop := ∃ n,loop turn n s=some r

theorem LoopEnds.stop {s : σ} {r : ρ} (h : turn s=.stop r) : LoopEnds turn s r := ⟨1,loop_stop h 0⟩

theorem Goes.ends {s s' : σ} {r : ρ} (h : Goes turn s s') (he : LoopEnds turn s' r) : LoopEnds turn s r := by
  induction h using ReflTransGen.head_induction_on with
  | refl => exact he
  | head hturn _ ih =>
    obtain ⟨n,hn⟩ := ih
    exact ⟨n+1,by rw [loop_next hturn]; exact hn⟩

theorem LoopEnds.next {s s' : σ} {r : ρ} (h : turn s=.next s') (he : LoopEnds turn s' r) : LoopEnds turn s r :=
  Goes.ends (.single h) he

/-- What every turn keeps holds of the state in which the loop ends. -/
theorem loop_inv {I : σ → Prop} (hI : ∀ s s',I s → turn s=.next s' → I s') {n : Nat} {s : σ} {r : ρ}
    (h : loop turn n s=some r) (hs : I s) : ∃ s',I s' ∧ turn s'=.stop r := by
  induction n generalizing s with
  | zero => cases h
  | succ n ih =>
    cases hturn : turn s with
    | next s' =>
      rw [loop_next hturn] at h
      exact ih h (hI s s' hs hturn)
    | stop r' =>
      rw [loop_stop hturn] at h
      cases h
      exact ⟨s,hs,hturn⟩

/-- A loop ends if every turn makes something smaller. -/
theorem ends_of_decreasing {μ : Type} {R : μ → μ → Prop} (hwf : WellFounded R) (f : σ → μ)
    {I : σ → Prop} (hI : ∀ s s',I s → turn s=.next s' → I s' ∧ R (f s') (f s)) {s : σ} (hs : I s) :
    ∃ r,LoopEnds turn s r := by
  induction hm : f s using hwf.induction generalizing s with
  | _ m ih =>
    cases hturn : turn s with
    | next s' =>
      obtain ⟨hs',hlt⟩ := hI s s' hs hturn
      rw [hm] at hlt
      obtain ⟨r,hr⟩ := ih (f s') hlt hs' rfl
      exact ⟨r,.next hturn hr⟩
    | stop r => exact ⟨r,.stop hturn⟩

end Dinit.Framework
