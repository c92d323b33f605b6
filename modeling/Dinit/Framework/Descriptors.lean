import Mathlib.Data.List.Basic

namespace Dinit.Framework

/-- A table of descriptors: at each number something open, or nothing -/
structure Table (β : Type) where
  slots : List (Option β)

namespace Table

variable {β : Type}

def get (t : Table β) (n : Nat) : Option β := (t.slots[n]?).join

def put (t : Table β) (n : Nat) (o : Option β) : Table β :=
  ⟨if n<t.slots.length then t.slots.set n o
    else t.slots++List.replicate (n-t.slots.length) none++[o]⟩

/-- The lowest number that is free, from `least` on -/
def lowest (t : Table β) (least : Nat) : Nat := least+(t.slots.drop least).findIdx (·.isNone)

@[simp] theorem get_put (t : Table β) (n m : Nat) (o : Option β) :
    (t.put n o).get m=if m=n then o else t.get m := by
  unfold get put
  dsimp only
  split
  · next hlt =>
    rw [List.getElem?_set]
    by_cases h : n=m
    · rw [if_pos h,if_pos hlt,if_pos h.symm]
      rfl
    · rw [if_neg h,if_neg (fun hm => h hm.symm)]
  · next hge =>
    by_cases h : m=n
    · have hlen : (t.slots++List.replicate (n-t.slots.length) none).length=n := by
        rw [List.length_append,List.length_replicate]
        omega
      rw [if_pos h,h,List.getElem?_append_right (Nat.le_of_eq hlen),hlen,Nat.sub_self]
      rfl
    · rw [if_neg h,List.append_assoc]
      by_cases hm : m<t.slots.length
      · rw [List.getElem?_append_left hm]
      · have hnone : t.slots[m]?=none := List.getElem?_eq_none (Nat.not_lt.mp hm)
        rw [List.getElem?_append_right (Nat.not_lt.mp hm),hnone]
        by_cases hr : m-t.slots.length<n-t.slots.length
        · rw [List.getElem?_append_left (by simpa using hr),List.getElem?_replicate,if_pos hr]
          rfl
        · rw [List.getElem?_eq_none]
          rw [List.length_append,List.length_replicate,List.length_singleton]
          omega

theorem le_lowest (t : Table β) (least : Nat) : least≤ t.lowest least := Nat.le_add_right _ _

@[simp] theorem get_lowest (t : Table β) (least : Nat) : t.get (t.lowest least)=none := by
  unfold get lowest
  rw [← List.getElem?_drop]
  by_cases h : (t.slots.drop least).findIdx (·.isNone)<(t.slots.drop least).length
  · have hat := List.findIdx_getElem (w := h)
    rw [List.getElem?_eq_getElem h]
    simpa using hat
  · rw [List.getElem?_eq_none (Nat.not_lt.mp h)]
    rfl

/-- What is open is not the lowest free number. -/
theorem ne_lowest {t : Table β} {n least : Nat} {b : β} (h : t.get n=some b) : n≠t.lowest least := by
  intro heq
  rw [heq,get_lowest] at h
  cases h

end Table

/-- Each of several holders has a number of its own, or none, and there it has its own file. -/
structure Held {β ρ : Type} (t : Table β) (pos : ρ → Option Nat) (file : ρ → β) : Prop where
  get : ∀ r n,pos r=some n → t.get n=some (file r)
  apart : ∀ r r' n,pos r=some n → pos r'=some n → r=r'

namespace Held

variable {β ρ : Type} {t : Table β} {pos pos' : ρ → Option Nat} {file : ρ → β}

/-- What is opened or closed at a number that nobody holds -/
theorem put (h : Held t pos file) {n : Nat} (o : Option β) (hn : ∀ r,pos r≠some n) :
    Held (t.put n o) pos file := by
  refine ⟨fun r m hm => ?_,h.apart⟩
  have hne : m≠n := fun heq => hn r (by rw [hm,heq])
  rw [Table.get_put,if_neg hne]
  exact h.get r m hm

theorem weaken (h : Held t pos file) (hsub : ∀ r n,pos' r=some n → pos r=some n) :
    Held t pos' file :=
  ⟨fun r n hr => h.get r n (hsub r n hr),fun r r' n h1 h2 => h.apart r r' n (hsub r n h1) (hsub r' n h2)⟩

/-- A free number is held by nobody. -/
theorem ne_lowest (h : Held t pos file) (least : Nat) (r : ρ) : pos r≠some (t.lowest least) := by
  intro heq
  exact Table.ne_lowest (h.get r _ heq) rfl

/-- One holder gets another number, which no other holds. -/
theorem move (h : Held t pos file) {r : ρ} {n : Nat} (hr : pos' r=some n)
    (hsame : ∀ r',r'≠r → pos' r'=pos r') (hfree : ∀ r',r'≠r → pos r'≠some n) :
    Held (t.put n (some (file r))) pos' file := by
  have hother : ∀ r' m,r'≠r → pos' r'=some m → pos r'=some m ∧ m≠n := by
    intro r' m hne hm
    rw [hsame r' hne] at hm
    exact ⟨hm,fun heq => hfree r' hne (by rw [hm,heq])⟩
  constructor
  · intro r' m hm
    rw [Table.get_put]
    by_cases hne : r'=r
    · rw [hne,hr] at hm
      rw [hne,if_pos (Option.some.inj hm).symm]
    · obtain ⟨hpos,hmn⟩ := hother r' m hne hm
      rw [if_neg hmn]
      exact h.get r' m hpos
  · intro r1 r2 m h1 h2
    by_cases hr1 : r1=r
    · by_cases hr2 : r2=r
      · rw [hr1,hr2]
      · rw [hr1,hr] at h1
        exact absurd (Option.some.inj h1).symm (hother r2 m hr2 h2).2
    · by_cases hr2 : r2=r
      · rw [hr2,hr] at h2
        exact absurd (Option.some.inj h2).symm (hother r1 m hr1 h1).2
      · exact h.apart r1 r2 m (hother r1 m hr1 h1).1 (hother r2 m hr2 h2).1

/-- The number that a holder had before it moved is free then. -/
theorem left (h : Held t pos file) {r : ρ} {n m : Nat} (hm : pos r=some m) (hr : pos' r=some n)
    (hne : n≠m) (hsame : ∀ r',r'≠r → pos' r'=pos r') (r' : ρ) : pos' r'≠some m := by
  intro heq
  by_cases hrr : r'=r
  · rw [hrr,hr] at heq
    exact hne (Option.some.inj heq)
  · rw [hsame r' hrr] at heq
    exact hrr (h.apart r' r m heq hm)

end Held

end Dinit.Framework
