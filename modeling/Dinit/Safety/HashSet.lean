import Dinit.Framework.Runs
import Dinit.Util.HashSetSound

namespace Dinit.HashSet

open Framework

variable {α : Type} {k : Keyed α} {r r' : HashSet α × Set α} {o : Op α}

/-- The elements of the hash set are those of the mathematical set. -/
structure Stands (k : Keyed α) (r : HashSet α × Set α) : Prop where
  sound : Sound k r.1
  mem : ∀ x,x∈r.1.buckets.flatten ↔ x∈r.2
  bound : r.1.currentSize < 2^64

/-- What is asked of the hash set is answered as by the mathematical set. -/
structure Answers (k : Keyed α) (r : HashSet α × Set α) : Prop where
  find : ∀ v,find k r.1 v=none ↔ ∀ x∈r.2,k.keyEqualF x v=false
  found : ∀ v p,HashSet.find k r.1 v=some p →
    ∃ x∈r.2,r.1.buckets.elem p=some x ∧ k.keyEqualF x v=true
  contains : ∀ v,contains k r.1 v=true ↔ ∃ x∈r.2,k.keyEqualF x v=true
  inserted : ∀ v,∃ s' p isNew x,doInsert k r.1 v=.ok (s',p,isNew) ∧
    (isNew=true ↔ ∀ y∈r.2,k.keyEqualF y v=false) ∧ s'.buckets.elem p=some x ∧
    k.keyEqualF x v=true ∧ (isNew=true → x=k.construct v) ∧ (isNew=false → x∈r.2)
  erased : ∀ v,((erase k r.1 v).2=1 ↔ ∃ x∈r.2,k.keyEqualF x v=true) ∧ (erase k r.1 v).2≤1
  rehashed : ∀ n,rehash k r.1 n≠.error .divisionByZero
  iterated : ∃ xs,r.1.buckets.Visits r.1.begin xs ∧ xs.Nodup ∧ ∀ x,x∈xs ↔ x∈r.2

/-- A new element does not bring the counter round to zero. -/
def Counted (k : Keyed α) (r : HashSet α × Set α) (o : Op α) : Prop :=
  ∀ v,o=.insert v → (∀ x∈r.2,k.keyEqualF x v=false) → r.1.currentSize+1 < 2^64

theorem stands_new : Stands k ({},∅) where
  sound := sound_new
  mem x := by
    constructor
    · intro h
      cases h
    · intro h
      cases h
  bound := Nat.two_pow_pos 64

/-- What a call does to the members -/
theorem mem_applySet (hs : Stands k r) {s' : HashSet α} (h : Changed k r.1 o s') (x : α) :
    x∈s'.buckets.flatten ↔ x∈r.1.applySet k o r.2 := by
  cases h with
  | @added v p _ hv h =>
    rw [h.perm.mem_iff,List.mem_cons,hs.mem]
    have hnew : ∀ y∈r.2,k.keyEqualF y v=false := fun y hy => hv y ((hs.mem y).mpr hy)
    exact ⟨fun hx => hx.symm.imp_right fun heq => ⟨hnew,heq⟩,fun hx => (hx.imp_right And.right).symm⟩
  | @present v y hy heq =>
    have hold : ¬∀ z∈r.2,k.keyEqualF z v=false := fun hall => by
      have hfalse := hall y ((hs.mem y).mp hy)
      rw [heq] at hfalse
      cases hfalse
    exact ⟨fun hx => .inl ((hs.mem x).mp hx),fun hx => (hs.mem x).mpr (hx.resolve_right fun hn => hold hn.1)⟩
  | @erased v y p hy heq =>
    rw [(sound_remove hs.sound hy).2 x,hs.mem]
    refine and_congr_right fun hx => ⟨fun hne => ?_,fun hxv hxy => ?_⟩
    · cases hxv : k.keyEqualF x v with
      | false => rfl
      | true =>
        have hxy := k.trans _ _ _ hxv (k.symm _ _ heq)
        have hmem := Buckets.elem_mem_flatten hy
        exact absurd (hs.sound.eq_of_equal ((hs.mem x).mpr hx) hmem hxy) hne
    · rw [hxy,heq] at hxv
      cases hxv
  | absent hv => exact ⟨fun hx => ⟨(hs.mem x).mp hx,hv x hx⟩,fun hx => (hs.mem x).mpr hx.1⟩
  | @erasedAt y p hy =>
    rw [(sound_remove hs.sound hy).2 x,hs.mem]
    refine and_congr_right fun _ => ?_
    rw [hy,ne_eq,ne_eq,Option.some.injEq,eq_comm]
  | rehashed h => exact (h.perm.mem_iff).trans (hs.mem x)
  | cleared =>
    constructor
    · intro h
      cases h
    · intro h
      cases h

theorem Stands.changed (hs : Stands k r) {s' : HashSet α} (h : Changed k r.1 o s') :
    Stands k (s',r.1.applySet k o r.2) where
  sound := h.sound hs.sound
  mem := mem_applySet hs h
  bound := by
    cases h with
    | added _ h =>
      rw [h.currentSize]
      exact Nat.mod_lt _ (Nat.two_pow_pos 64)
    | present => exact hs.bound
    | erased => exact hs.bound
    | absent => exact hs.bound
    | erasedAt => exact hs.bound
    | rehashed h =>
      rw [h.currentSize]
      exact hs.bound
    | cleared => exact Nat.two_pow_pos 64

theorem changed_of_step (hs : Stands k r) (h : step k r o=some r') :
    Changed k r.1 o r'.1 ∧ r'.2=r.1.applySet k o r.2 := by
  obtain ⟨s',hs',rfl⟩ := Option.map_eq_some_iff.mp h
  exact ⟨changed_of_apply hs.sound hs',rfl⟩

theorem stands_step (hs : Stands k r) (h : step k r o=some r') : Stands k r' := by
  obtain ⟨hc,heq⟩ := changed_of_step hs h
  have hst := hs.changed hc
  rwa [← heq] at hst

section
variable {v : α}

theorem find_none_iff (hs : Stands k r) :
    find k r.1 v=none ↔ ∀ x∈r.2,k.keyEqualF x v=false := by
  constructor
  · intro h x hx
    exact find_none hs.sound h ((hs.mem x).mpr hx)
  · intro h
    cases hf : find k r.1 v with
    | none => rfl
    | some p =>
      obtain ⟨x,hx,heq⟩ := find_some hf
      rw [h x ((hs.mem x).mp (Buckets.elem_mem_flatten hx))] at heq
      cases heq

theorem contains_iff (hs : Stands k r) :
    contains k r.1 v=true ↔ ∃ x∈r.2,k.keyEqualF x v=true := by
  unfold contains
  rw [Option.isSome_iff_ne_none,ne_eq,find_none_iff hs]
  simp

theorem erase_iff (hs : Stands k r) :
    ((erase k r.1 v).2=1 ↔ ∃ x∈r.2,k.keyEqualF x v=true) ∧ (erase k r.1 v).2≤1 := by
  rw [← contains_iff hs]
  unfold erase contains
  cases find k r.1 v <;> simp

theorem doInsert_answer (hs : Stands k r) (v : α) :
    ∃ s' p isNew x,doInsert k r.1 v=.ok (s',p,isNew) ∧
      (isNew=true ↔ ∀ y∈r.2,k.keyEqualF y v=false) ∧ s'.buckets.elem p=some x ∧
      k.keyEqualF x v=true ∧ (isNew=true → x=k.construct v) ∧ (isNew=false → x∈r.2) := by
  obtain ⟨p,x,hins,hx,heq⟩ | ⟨hv,s',p,hins,hadd⟩ := doInsert_ok hs.sound v
  · have hmem := (hs.mem x).mp (Buckets.elem_mem_flatten hx)
    refine ⟨r.1,p,false,x,hins,⟨fun h => absurd h Bool.false_ne_true,fun hall => ?_⟩,hx,heq,
      fun h => absurd h Bool.false_ne_true,fun _ => hmem⟩
    rw [hall x hmem] at heq
    cases heq
  · exact ⟨s',p,true,_,hins,⟨fun _ y hy => hv y ((hs.mem y).mpr hy),fun _ => rfl⟩,hadd.elem,
      k.construct_equal v,fun _ => rfl,fun h => absurd h.symm Bool.false_ne_true⟩

end

/-- Iteration visits the elements just if the counter is not at zero while there are any. -/
theorem answers_iff (hs : Stands k r) :
    Answers k r ↔ (r.1.currentSize=0 → r.1.buckets.flatten=[]) := by
  constructor
  · intro h hzero
    obtain ⟨xs,hvisits,-,hmem⟩ := h.iterated
    have hbegin : r.1.begin=none := if_pos hzero
    rw [hbegin] at hvisits
    have hnil : xs=[] := by
      cases xs with
      | nil => rfl
      | cons x xs =>
        obtain ⟨p,hp,-⟩ := hvisits
        cases hp
    refine List.eq_nil_iff_forall_not_mem.mpr fun x hx => ?_
    have hin := (hmem x).mpr ((hs.mem x).mp hx)
    rw [hnil] at hin
    cases hin
  · intro h
    refine ⟨fun v => find_none_iff hs,fun v p hf => ?_,fun v => contains_iff hs,doInsert_answer hs,
      fun v => erase_iff hs,fun n hre => ?_,r.1.buckets.flatten,?_,?_,hs.mem⟩
    · obtain ⟨x,hx,heq⟩ := find_some hf
      exact ⟨x,(hs.mem x).mp (Buckets.elem_mem_flatten hx),hx,heq⟩
    · obtain ⟨hf,-⟩ | ⟨-,-,hzero,hne⟩ := rehash_fault hre
      · cases hf
      · exact hne (h hzero)
    · unfold begin
      split
      · next hzero =>
        rw [h hzero]
        rfl
      · exact r.1.buckets.visits_all
    · refine hs.sound.apart.imp fun {a b} hab heq => ?_
      rw [heq,k.refl b] at hab
      cases hab

/-- One call keeps the answers right, unless it brings the counter round. -/
theorem answers_step (hs : Stands k r) (ha : Answers k r) (h : step k r o=some r') :
    Answers k r' ↔ Counted k r o := by
  rw [answers_iff (stands_step hs h)]
  have hzero := (answers_iff hs).mp ha
  obtain ⟨hc,-⟩ := changed_of_step hs h
  have hother : (∀ v,o≠.insert v) → Counted k r o := fun hne v heq => absurd heq (hne v)
  have hlast : ∀ {p x} {bs : Buckets α},r.1.buckets.elem p=some x → r.1.currentSize=0 →
      bs.flatten=[] := by
    intro p x bs hx h0
    have hmem := Buckets.elem_mem_flatten hx
    rw [hzero h0] at hmem
    cases hmem
  generalize r'.1=s' at hc
  cases hc with
  | @added v p _ hv hadd =>
    rw [hadd.currentSize]
    have hne : s'.buckets.flatten≠[] := fun hnil => by
      have hperm := hadd.perm
      rw [hnil] at hperm
      cases hperm.symm.eq_nil
    have hlt := hs.bound
    constructor
    · intro himp w heq hnew
      by_contra hge
      have hround : r.1.currentSize+1=2^64 := by omega
      rw [hround] at himp
      exact hne (himp (Nat.mod_self _))
    · intro hcount hmod
      have hlt := hcount v rfl fun y hy => hv y ((hs.mem y).mpr hy)
      rw [Nat.mod_eq_of_lt hlt] at hmod
      cases hmod
  | @present v x hx heq =>
    refine ⟨fun _ w hw hnew => ?_,fun _ => hzero⟩
    cases hw
    rw [hnew x ((hs.mem x).mp hx)] at heq
    cases heq
  | erased hx => exact iff_of_true (hlast hx) (hother fun v => nofun)
  | absent => exact iff_of_true hzero (hother fun v => nofun)
  | erasedAt hx => exact iff_of_true (hlast hx) (hother fun v => nofun)
  | rehashed h =>
    refine iff_of_true (fun h0 => ?_) (hother fun v => nofun)
    rw [h.currentSize] at h0
    have hperm := h.perm
    rw [hzero h0] at hperm
    exact hperm.eq_nil
  | cleared => exact iff_of_true (fun _ => rfl) (hother fun v => nofun)

/-- Throughout a run from a new set, the hash set answers as the mathematical set does just if no
new element is inserted when 2^64-1 have been counted. -/
theorem answers_along (k : Keyed α) (os : List (Op α)) :
    (∀ js r,js <+: os → runs (step k) ({},∅) js=some r → Answers k r) ↔
      Along (step k) (Counted k) ({},∅) os :=
  good_iff_along (fun _ _ _ => stands_step) (fun _ _ _ => answers_step) stands_new
    ((answers_iff stands_new).mpr fun _ => rfl) os

/-- An element goes in and out again and again. -/
def rounds (v w : α) : Nat → List (Op α)
  | 0 => []
  | n+1 => .insert v::.erase w::rounds v w n

theorem step_insert (hs : Stands k r) (v : α) (hv : ∀ x∈r.2,k.keyEqualF x v=false) :
    ∃ r',step k r (.insert v)=some r' ∧ r'.1.currentSize=(r.1.currentSize+1)%2^64 ∧
      ∀ x,x∈r'.2 ↔ x∈r.2 ∨ x=k.construct v := by
  obtain ⟨p,x,-,hx,heq⟩ | ⟨-,s',p,hins,hadd⟩ := doInsert_ok hs.sound v
  · rw [hv x ((hs.mem x).mp (Buckets.elem_mem_flatten hx))] at heq
    cases heq
  · have happly : apply k r.1 (.insert v)=some s' := by
      simp only [apply,hins]
      rfl
    refine ⟨(s',_),by rw [step,happly]; rfl,hadd.currentSize,fun x => ?_⟩
    exact or_congr_right (and_iff_right hv)

/-- A round leaves nothing but one more on the counter. -/
theorem step_round {v w : α} (hs : Stands k r) (hvw : k.keyEqualF v w=true) (hr : ∀ x,x∉r.2) :
    ∃ r₁ r₂,step k r (.insert v)=some r₁ ∧ step k r₁ (.erase w)=some r₂ ∧
      r₂.1.currentSize=(r.1.currentSize+1)%2^64 ∧ Stands k r₂ ∧ ∀ x,x∉r₂.2 := by
  obtain ⟨r₁,hstep,hsize,hmem⟩ := step_insert hs v fun x hx => absurd hx (hr x)
  have hs₁ := stands_step hs hstep
  have hstep₂ : step k r₁ (.erase w)=some ((erase k r₁.1 w).1,r₁.1.applySet k (.erase w) r₁.2) := rfl
  refine ⟨r₁,_,hstep,hstep₂,?_,stands_step hs₁ hstep₂,fun x hx => ?_⟩
  · rw [← hsize]
    unfold erase
    cases find k r₁.1 w <;> rfl
  · obtain hin | rfl := (hmem x).mp hx.1
    · exact hr x hin
    · have hfalse := hx.2
      rw [k.trans _ _ _ (k.construct_equal v) hvw] at hfalse
      cases hfalse

theorem runs_rounds {v w : α} (hs : Stands k r) (hvw : k.keyEqualF v w=true) (hr : ∀ x,x∉r.2)
    (n : Nat) :
    ∃ r',Stands k r' ∧ (∀ x,x∉r'.2) ∧ r'.1.currentSize=(r.1.currentSize+n)%2^64 ∧
      ∀ os,runs (step k) r (rounds v w n++os)=runs (step k) r' os := by
  induction n generalizing r with
  | zero => exact ⟨r,hs,hr,(Nat.mod_eq_of_lt hs.bound).symm,fun _ => rfl⟩
  | succ n ih =>
    obtain ⟨r₁,r₂,h₁,h₂,hsize,hs₂,hr₂⟩ := step_round hs hvw hr
    obtain ⟨r',hs',hr',hsize',hruns⟩ := ih hs₂ hr₂
    refine ⟨r',hs',hr',?_,fun os => ?_⟩
    · rw [hsize',hsize,Nat.mod_add_mod,Nat.add_right_comm,Nat.add_assoc r.1.currentSize n 1]
    · have hrun : runs (step k) r (rounds v w (n+1)++os)=runs (step k) r₂ (rounds v w n++os) := by
        simp only [rounds,List.cons_append,runs,h₁,h₂,Option.bind_some]
      rw [hrun,hruns]

/-- Numbers, each its own hash -/
def plainKeys : Keyed Nat where
  hashF a := a
  keyEqualF a b := a==b
  construct a := a
  refl := beq_self_eq_true
  symm a b h := by rw [beq_iff_eq] at *; exact h.symm
  trans a b c hab hbc := by rw [beq_iff_eq] at *; exact hab.trans hbc
  hash_eq a b h := beq_iff_eq.mp h
  construct_equal := beq_self_eq_true

/-- One element is put in and taken out 2^64-1 times, and put in once more: it is stored, but the
counter is at zero, and iteration ends where it begins. -/
theorem answers_not_always :
    (∃ r,runs (step plainKeys) ({},∅) (rounds 0 0 (2^64-1)++[.insert 0])=some r ∧ 0∈r.2 ∧
      r.1.begin=none) ∧
    ¬∀ os r,runs (step plainKeys) ({},∅) os=some r → Answers plainKeys r := by
  have hempty : ∀ x : Nat,x∉(({},∅) : HashSet Nat × Set Nat).2 := fun _ hx => hx
  obtain ⟨r,hs,hr,hsize,hruns⟩ := runs_rounds (stands_new (k := plainKeys))
    (plainKeys.refl 0) hempty (2^64-1)
  obtain ⟨r',hstep,hsize',hmem⟩ := step_insert hs 0 fun x hx => absurd hx (hr x)
  have hrun : runs (step plainKeys) ({},∅) (rounds 0 0 (2^64-1)++[.insert 0])=some r' := by
    rw [hruns,runs_cons]
    exact ⟨r',hstep,rfl⟩
  have hzero : r'.1.currentSize=0 := by
    rw [hsize',hsize]
    decide
  have hin : 0∈r'.2 := (hmem 0).mpr (.inr rfl)
  refine ⟨⟨r',hrun,hin,if_pos hzero⟩,fun hall => ?_⟩
  have hs' := stands_step hs hstep
  have hnil := (answers_iff hs').mp (hall _ r' hrun) hzero
  have hstored := (hs'.mem 0).mpr hin
  rw [hnil] at hstored
  cases hstored

end Dinit.HashSet
