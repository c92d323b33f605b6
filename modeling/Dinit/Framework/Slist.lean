import Mathlib.Data.List.Perm.Basic

namespace Dinit.Framework

/-- `xs` with `x` before its `k`-th element, or at the end. -/
def insertAt {α : Type} (xs : List α) (k : Nat) (x : α) : List α := xs.take k++x::xs.drop k

theorem perm_insertAt {α : Type} (xs : List α) (k : Nat) (x : α) :
    (insertAt xs k x).Perm (x::xs) := by
  have h : (xs.take k++x::xs.drop k).Perm (x::(xs.take k++xs.drop k)) := List.perm_middle
  rwa [List.take_append_drop] at h

@[simp] theorem mem_insertAt {α : Type} {xs : List α} {k : Nat} {x y : α} :
    y ∈ insertAt xs k x ↔ y=x ∨ y ∈ xs := by
  rw [(perm_insertAt xs k x).mem_iff,List.mem_cons]

/-- The intrusive singly linked list: `next` is the node embedded in each
element, and `first` the head pointer of the list. -/
structure Slist (α : Type) where
  first : Option α
  next : α → Option α

namespace Slist

variable {α : Type} [DecidableEq α]

def empty : Slist α := ⟨none,fun _ => none⟩

def isQueued (q : Slist α) (e : α) : Bool :=
  (q.next e).isSome || decide (q.first=some e)

def insert (q : Slist α) (e : α) : Slist α :=
  ⟨some e,fun x => if x=e then q.first else q.next x⟩

def isEmpty (q : Slist α) : Bool := q.first.isNone

/-- The caller checks that the list is not empty; `r` is its first element. -/
def popFront (q : Slist α) (r : α) : Slist α :=
  ⟨q.next r,fun x => if x=r then none else q.next x⟩

/-- `add_prop_queue` and `add_transition_queue` insert what is not queued. -/
def add (q : Slist α) (e : α) : Slist α :=
  if q.isQueued e then q else q.insert e

/-- What taking off the first element again and again gives, until the list is empty and
no node leads anywhere. -/
def Pops (q : Slist α) : List α → Prop
  | [] => q.first=none ∧ ∀ x, q.next x=none
  | x::xs => q.first=some x ∧ (q.popFront x).Pops xs

/-- Following `next` from `o` visits the elements `xs`, and then comes to the end. -/
def Follows (q : Slist α) : Option α → List α → Prop
  | o, [] => o=none
  | o, x::xs => o=some x ∧ Follows q (q.next x) xs

/-- The list ends and visits no element twice, and `is_queued` tells what it visits. -/
def Proper (q : Slist α) : Prop :=
  ∃ xs : List α, xs.Nodup ∧ q.Follows q.first xs ∧ ∀ e, q.isQueued e=true ↔ e ∈ xs

variable {q : Slist α} {xs : List α} {e : α}

theorem pops_empty : (empty : Slist α).Pops [] := ⟨rfl,fun _ => rfl⟩

theorem Pops.head (h : q.Pops xs) : q.first=xs.head? := by
  cases xs with
  | nil => exact h.1
  | cons x xs => exact h.1

theorem Pops.eq_nil (h : q.Pops xs) (hq : q.first=none) : xs=[] := by
  rw [h.head] at hq
  exact List.head?_eq_none_iff.mp hq

/-- What is inserted is taken off first, and then the list is as it was. -/
theorem popFront_insert (hn : q.next e=none) : (q.insert e).popFront e=q := by
  have hnext : (fun x => if x=e then none else (q.insert e).next x)=q.next := by
    funext x
    by_cases hx : x=e
    · simp [hx,hn]
    · simp [insert,hx]
  simp only [popFront,hnext]
  simp [insert]

theorem Pops.insert (h : q.Pops xs) (hn : q.next e=none) : (q.insert e).Pops (e::xs) := by
  refine ⟨rfl,?_⟩
  rw [popFront_insert hn]
  exact h

theorem Pops.mem_of_next (h : q.Pops xs) (hn : q.next e≠none) : e ∈ xs := by
  induction xs generalizing q with
  | nil => exact absurd (h.2 e) hn
  | cons x xs ih =>
    by_cases hx : e=x
    · simp [hx]
    · have hm : e ∈ xs := ih h.2 (by simpa [popFront,hx] using hn)
      exact List.mem_cons_of_mem x hm

theorem Pops.mem_of_isQueued (h : q.Pops xs) (hq : q.isQueued e=true) : e ∈ xs := by
  unfold isQueued at hq
  simp only [Bool.or_eq_true,decide_eq_true_eq] at hq
  rcases hq with hq | hq
  · refine h.mem_of_next ?_
    rwa [← Option.isSome_iff_ne_none]
  · rw [h.head] at hq
    exact List.mem_of_mem_head? hq

/-- What is added will be taken off, and so will what was there. -/
theorem Pops.add (h : q.Pops xs) (e : α) :
    ∃ ys, (q.add e).Pops ys ∧ e ∈ ys ∧ (ys=xs ∨ ys=e::xs) := by
  unfold Slist.add
  split
  · next hq => exact ⟨xs,h,h.mem_of_isQueued hq,.inl rfl⟩
  · next hq =>
    refine ⟨e::xs,h.insert ?_,List.mem_cons_self,.inr rfl⟩
    simp only [isQueued,Bool.or_eq_true,decide_eq_true_eq,not_or] at hq
    simpa using hq.1

/-- At most one element is in the list. -/
def Single (q : Slist α) : Prop := q.first=none ∨ ∃ x, q.first=some x ∧ q.next x=none

omit [DecidableEq α] in
theorem Follows.last_next (h : q.Follows (some e) xs) : ∃ y ∈ xs, q.next y=none := by
  induction xs generalizing e with
  | nil => cases h
  | cons x xs ih =>
    obtain ⟨-,hf⟩ := h
    rcases hn : q.next x with _ | z
    · exact ⟨x,List.mem_cons_self,hn⟩
    · rw [hn] at hf
      obtain ⟨y,hy,hy'⟩ := ih hf
      exact ⟨y,List.mem_cons_of_mem x hy,hy'⟩

/-- `is_queued` does not see the last of two or more elements. -/
theorem Proper.single (h : q.Proper) : q.Single := by
  obtain ⟨xs,hn,hf,hq⟩ := h
  cases xs with
  | nil => exact .inl hf
  | cons x xs =>
    obtain ⟨hx,hf⟩ := hf
    refine .inr ⟨x,hx,?_⟩
    rcases hnext : q.next x with _ | z
    · rfl
    · rw [hnext] at hf
      obtain ⟨y,hy,hyn⟩ := hf.last_next
      have hne : x≠y := by
        rintro rfl
        exact (List.nodup_cons.mp hn).1 hy
      have hyq := (hq y).mpr (List.mem_cons_of_mem x hy)
      simp [isQueued,hyn,hx,hne] at hyq

theorem Pops.eq_singleton (h : q.Pops xs) (he : q.first=some e) (hn : q.next e=none) : xs=[e] := by
  cases xs with
  | nil =>
    rw [h.1] at he
    cases he
  | cons x xs =>
    obtain rfl : x=e := by simpa [he] using h.1.symm
    rw [h.2.eq_nil hn]

theorem Pops.proper (h : q.Pops xs) (hs : q.Single) : q.Proper := by
  rcases hs with hs | ⟨x,hx,hn⟩
  · obtain rfl := h.eq_nil hs
    refine ⟨[],List.nodup_nil,hs,fun e => ?_⟩
    simp [isQueued,h.2 e,hs]
  · obtain rfl := h.eq_singleton hx hn
    refine ⟨[x],by simp,⟨hx,hn⟩,fun e => ⟨h.mem_of_isQueued,fun he => ?_⟩⟩
    simp [isQueued,hx,List.mem_singleton.mp he]

theorem Single.popFront (h : q.Single) {x : α} (hx : q.first=some x) : (q.popFront x).Single := by
  rcases h with h | ⟨y,hy,hn⟩
  · rw [h] at hx
    cases hx
  · obtain rfl : x=y := by simpa [hx] using hy
    exact .inl hn

/-- A second element is added if the list is neither empty nor headed by it. -/
theorem Single.add_iff (h : q.Single) (hp : q.Pops xs) (e : α) :
    (q.add e).Single ↔ q.first=none ∨ q.first=some e := by
  have hnone (x : α) (hx : q.first=some x) (hne : e≠x) : q.next e=none := by
    rcases h with h | ⟨y,hy,hn⟩
    · rw [h] at hx
      cases hx
    · obtain rfl := hp.eq_singleton hy hn
      obtain rfl : x=y := by simpa [hx] using hy
      by_contra hnext
      exact hne (List.mem_singleton.mp (hp.mem_of_next hnext))
  constructor
  · intro ha
    rcases hfirst : q.first with _ | x
    · exact .inl rfl
    · refine .inr (congrArg some ?_)
      by_contra hne
      have hne' : e≠x := fun he => hne he.symm
      have hq : q.isQueued e=false := by simp [isQueued,hnone x hfirst hne',hfirst,hne]
      rw [Slist.add,hq] at ha
      rcases ha with ha | ⟨y,hy,hyn⟩
      · cases ha
      · obtain rfl : e=y := by simpa [Slist.insert] using hy
        simp [Slist.insert,hfirst] at hyn
  · rintro (hfirst | hfirst)
    · obtain rfl := hp.eq_nil hfirst
      have hq : q.isQueued e=false := by simp [isQueued,hp.2 e,hfirst]
      rw [Slist.add,hq]
      exact .inr ⟨e,rfl,by simp [Slist.insert,hfirst]⟩
    · rw [Slist.add,if_pos (by simp [isQueued,hfirst])]
      exact h

end Slist
end Dinit.Framework
