import Mathlib.Logic.Function.Basic
import Dinit.Util.HashSetSound

namespace Dinit

open Framework

/-- A `linked_record`, but for its `next`, with the address of the node that it is in. A node stays
where it is when it is moved to another bucket. -/
structure LinkedRecord (κ : Type) where
  value : κ
  addr : Nat

/-- `linked_uo_set`: `next` is that of the record at each address, and `fresh` the address that the
next node is going to have. -/
structure LinkedSet (κ : Type) where
  backing : HashSet (LinkedRecord κ) := {}
  next : Nat → Option Nat := fun _ => none
  first : Option Nat := none
  last : Option Nat := none
  fresh : Nat := 0

namespace LinkedSet

variable {κ : Type}

/-- `lr_hash` and `lr_equ` -/
def records (k : Keyed κ) : Keyed (LinkedRecord κ) where
  hashF r := k.hashF r.value
  keyEqualF a b := k.keyEqualF a.value b.value
  construct r := r
  refl r := k.refl r.value
  symm a b := k.symm a.value b.value
  trans a b c := k.trans a.value b.value c.value
  hash_eq a b := k.hash_eq a.value b.value
  construct_equal r := k.refl r.value

def addBack (k : Keyed κ) (l : LinkedSet κ) (value : κ) :
    Except HashSet.Fault (LinkedSet κ × Bool) :=
  (l.backing.doInsert (records k) ⟨value,l.fresh⟩).map fun (backing,it,isNew) =>
    if isNew then
      let newEnt := (backing.buckets.elem it).map LinkedRecord.addr
      let next := Function.update l.next l.fresh none
      let next :=
        match l.last with
        | some last => Function.update next last newEnt
        | none => next
      ({backing := backing
        next := next
        first := if l.first.isNone then newEnt else l.first
        last := newEnt
        fresh := l.fresh+1},true)
    else ({l with backing := backing},false)

/-- The value of the record at an address -/
def deref (l : LinkedSet κ) (addr : Nat) : Option κ :=
  (l.backing.buckets.flatten.find? fun r => r.addr==addr).map LinkedRecord.value

/-- The set has these values, in this order: the record of each of them leads to that of the next
one. -/
structure Lists (k : Keyed κ) (l : LinkedSet κ) (vs : List κ) : Prop where
  sound : HashSet.Sound (records k) l.backing
  mem : ∀ r,r∈l.backing.buckets.flatten ↔ vs[r.addr]?=some r.value
  fresh : l.fresh=vs.length
  next : ∀ i,l.next i=if i+1 < vs.length then some (i+1) else none
  first : l.first=if vs=[] then none else some 0
  last : l.last=if vs=[] then none else some (vs.length-1)

variable {k : Keyed κ} {l : LinkedSet κ} {vs : List κ} {v : κ}

theorem lists_new : Lists k {} [] where
  sound := HashSet.sound_new
  mem r := by
    constructor
    · intro h
      cases h
    · intro h
      cases h
  fresh := rfl
  next i := rfl
  first := rfl
  last := rfl

/-- What is at an address does not depend on the bucket it is in. -/
theorem Lists.deref_eq (h : Lists k l vs) (i : Nat) : l.deref i=vs[i]? := by
  unfold deref
  cases hf : l.backing.buckets.flatten.find? fun r => r.addr==i with
  | none =>
    cases hv : vs[i]? with
    | none => rfl
    | some v =>
      have hmem := (h.mem ⟨v,i⟩).mpr hv
      have hno := List.find?_eq_none.mp hf _ hmem
      exact absurd (beq_self_eq_true i) hno
  | some r =>
    have haddr : r.addr=i := by simpa using List.find?_some hf
    have hmem := (h.mem r).mp (List.mem_of_find?_eq_some hf)
    rw [haddr] at hmem
    exact hmem.symm

theorem mem_snoc (hf : l.fresh=vs.length) (r : LinkedRecord κ) :
    r=⟨v,l.fresh⟩ ∨ vs[r.addr]?=some r.value ↔ (vs++[v])[r.addr]?=some r.value := by
  rw [List.getElem?_append]
  by_cases hlt : r.addr < vs.length
  · rw [if_pos hlt]
    refine or_iff_right fun heq => ?_
    rw [heq,hf] at hlt
    exact Nat.lt_irrefl _ hlt
  · rw [if_neg hlt,List.getElem?_eq_none (Nat.le_of_not_lt hlt)]
    constructor
    · intro hor
      have heq := hor.resolve_right nofun
      rw [heq,hf]
      simp
    · intro hsome
      obtain ⟨value,addr⟩ := r
      obtain ⟨hz,hv⟩ := List.getElem?_eq_some_iff.mp hsome
      have haddr : addr=vs.length := by
        simp only [List.length_singleton] at hz
        dsimp only at hlt
        omega
      refine .inl ?_
      rw [hf,haddr]
      simp only [List.getElem_singleton] at hv
      rw [hv]

/-- A value that is not there yet comes to the end. -/
theorem Lists.addBack (h : Lists k l vs) (v : κ) :
    (∃ x∈vs,k.keyEqualF x v=true) ∧ l.addBack k v=.ok (l,false) ∨
    (∀ x∈vs,k.keyEqualF x v=false) ∧ ∃ l',l.addBack k v=.ok (l',true) ∧ Lists k l' (vs++[v]) := by
  unfold LinkedSet.addBack
  obtain ⟨p,r,hins,hr,heq⟩ | ⟨hall,s',p,hins,hadd⟩ := HashSet.doInsert_ok h.sound ⟨v,l.fresh⟩
  · have hmem := (h.mem r).mp (Buckets.elem_mem_flatten hr)
    rw [hins]
    exact .inl ⟨⟨r.value,List.mem_of_getElem? hmem,heq⟩,rfl⟩
  · have hnew : ∀ x∈vs,k.keyEqualF x v=false := fun x hx => by
      obtain ⟨i,hi⟩ := List.mem_iff_getElem?.mp hx
      exact hall ⟨x,i⟩ ((h.mem ⟨x,i⟩).mpr hi)
    have hent : (s'.buckets.elem p).map LinkedRecord.addr=some vs.length := by
      rw [hadd.elem,← h.fresh]
      rfl
    rw [hins]
    refine .inr ⟨hnew,_,rfl,hadd.sound,fun r => ?_,?_,fun i => ?_,?_,?_⟩
    · rw [hadd.perm.mem_iff,List.mem_cons,h.mem]
      exact mem_snoc h.fresh r
    · rw [List.length_append,h.fresh]
      rfl
    · dsimp only
      rw [hent,h.last,h.fresh,List.length_append,List.length_singleton]
      by_cases hnil : vs=[]
      · rw [if_pos hnil,hnil,List.length_nil]
        dsimp only
        by_cases hi : i=0
        · simp [hi]
        · rw [Function.update_of_ne hi,h.next,hnil]
          simp [hi]
      · have hpos : 0 < vs.length := List.length_pos_of_ne_nil hnil
        rw [if_neg hnil]
        dsimp only
        by_cases hlast : i=vs.length-1
        · rw [hlast,Function.update_self,if_pos (by omega)]
          congr 1
          omega
        · rw [Function.update_of_ne hlast]
          by_cases hi : i=vs.length
          · rw [hi,Function.update_self,if_neg (by omega)]
          · rw [Function.update_of_ne hi,h.next]
            by_cases hlt : i+1 < vs.length
            · rw [if_pos hlt,if_pos (by omega)]
            · rw [if_neg hlt,if_neg (by omega)]
    · dsimp only
      rw [hent,h.first]
      by_cases hnil : vs=[]
      · simp [hnil]
      · simp [hnil]
    · dsimp only
      rw [hent]
      simp

end LinkedSet
end Dinit
