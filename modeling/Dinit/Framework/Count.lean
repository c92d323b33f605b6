import Mathlib.Data.List.Nodup
import Mathlib.Data.List.Perm.Basic

namespace Dinit.Framework

section
variable {α : Type} [DecidableEq α] {xs : List α} {x : α}

theorem countP_erase_add (hx : x ∈ xs) (p : α → Bool) :
    (xs.erase x).countP p+(if p x then 1 else 0)=xs.countP p := by
  rw [(List.perm_cons_erase hx).countP_eq p,List.countP_cons]

/-- Two counts over a list without repetitions that differ at one element only. -/
theorem countP_change (hn : xs.Nodup) (hx : x ∈ xs) {p q : α → Bool} (h : ∀ y, y≠x → q y=p y) :
    xs.countP q+(if p x then 1 else 0)=xs.countP p+if q x then 1 else 0 := by
  have hrest : (xs.erase x).countP q=(xs.erase x).countP p := by
    apply List.countP_congr
    intro y hy
    rw [h y ((List.Nodup.mem_erase_iff hn).mp hy).1]
  have hp := countP_erase_add hx p
  have hq := countP_erase_add hx q
  omega

end

/-- A property that holds of fewer elements is counted less often. -/
theorem countP_lt {α : Type} {xs : List α} {x : α} {p q : α → Bool} (hpq : ∀ y,p y=true → q y=true)
    (hx : x ∈ xs) (hp : p x=false) (hq : q x=true) : xs.countP p<xs.countP q := by
  obtain ⟨l₁,l₂,hl⟩ := List.append_of_mem hx
  have h₁ : l₁.countP p≤ l₁.countP q := List.countP_mono_left fun y _ => hpq y
  have h₂ : l₂.countP p≤ l₂.countP q := List.countP_mono_left fun y _ => hpq y
  rw [hl,List.countP_append,List.countP_append,List.countP_cons,List.countP_cons,hp,hq]
  simp only [Bool.false_eq_true,if_false,if_true]
  omega

/-- Counting also the elements in which a second property holds instead of the first. -/
theorem countP_or {α : Type} (xs : List α) (p q : α → Bool) (h : ∀ y ∈ xs, q y=true → p y=false) :
    xs.countP (fun y => q y || p y)=xs.countP p+(xs.filter q).length := by
  induction xs with
  | nil => rfl
  | cons y ys ih =>
    have ih := ih fun z hz => h z (List.mem_cons_of_mem y hz)
    have hy := h y List.mem_cons_self
    rw [List.countP_cons,List.countP_cons,ih]
    by_cases hq : q y=true
    · simp [hq,hy hq]
      omega
    · simp [hq]
      omega

end Dinit.Framework
