import Mathlib.Data.List.Chain
import Mathlib.Data.List.Nodup
import Mathlib.Logic.Function.Basic

namespace Dinit.Framework

/-- The circular doubly linked list: `next` and `prev` are the node embedded in each element, and
`first` the head pointer of the list. -/
@[ext] structure Dlist (α : Type) where
  first : Option α
  next : α → Option α
  prev : α → Option α

namespace Dlist

variable {α : Type} [DecidableEq α]

def empty : Dlist α := ⟨none,fun _ => none,fun _ => none⟩

def setNext (q : Dlist α) (e : α) (v : Option α) : Dlist α :=
  {q with next := Function.update q.next e v}

def setPrev (q : Dlist α) (e : α) (v : Option α) : Dlist α :=
  {q with prev := Function.update q.prev e v}

def isQueued (q : Dlist α) (e : α) : Bool := (q.next e).isSome

def isEmpty (q : Dlist α) : Bool := q.first.isNone

def tail (q : Dlist α) : Option α := q.first.bind q.prev

/-- There is no result where a null pointer would be followed, here and below. -/
def append (q : Dlist α) (e : α) : Option (Dlist α) :=
  match q.first with
  | none => some (({q with first := some e}.setNext e (some e)).setPrev e (some e))
  | some first =>
    let q := q.setNext e (some first)
    let q := q.setPrev e (q.prev first)
    (q.prev first).map fun last => (q.setNext last (some e)).setPrev first (some e)

def popFront (q : Dlist α) : Option (α × Dlist α) :=
  q.first.bind fun r =>
    if q.next r=q.first then
      some (r,{(q.setNext r none).setPrev r none with first := none})
    else (q.next r).bind fun node =>
      let q := q.setPrev node (q.prev r)
      (q.prev node).map fun last =>
        let q := q.setNext last (q.next r)
        let q := {q with first := q.next r}
        (r,(q.setNext r none).setPrev r none)

def unlink (q : Dlist α) (record : α) : Option (Dlist α) :=
  let first := if q.first=some record then
      if q.next record=some record then none else q.next record
    else q.first
  let q := {q with first := first}
  (q.next record).bind fun node =>
    let q := q.setPrev node (q.prev record)
    (q.prev record).map fun last =>
      let q := q.setNext last (q.next record)
      (q.setNext record none).setPrev record none

/-- Two nodes lead to each other. -/
def Joined (q : Dlist α) (a b : α) : Prop := q.next a=some b ∧ q.prev b=some a

/-- The nodes are joined one after the other, and the last to the first. -/
def Ring (q : Dlist α) (xs : List α) : Prop := ∀ x∈xs.head?,(xs++[x]).IsChain q.Joined

/-- The list stands for these elements, and no other node leads anywhere. -/
structure Holds (q : Dlist α) (xs : List α) : Prop where
  nodup : xs.Nodup
  first : q.first=xs.head?
  ring : q.Ring xs
  free : ∀ e,e∉xs → q.next e=none ∧ q.prev e=none

variable {q : Dlist α} {xs ys : List α} {e y l : α}

@[simp] theorem setNext_first (v : Option α) : (q.setNext e v).first=q.first := rfl

@[simp] theorem setPrev_first (v : Option α) : (q.setPrev e v).first=q.first := rfl

@[simp] theorem setNext_prev (v : Option α) : (q.setNext e v).prev=q.prev := rfl

@[simp] theorem setPrev_next (v : Option α) : (q.setPrev e v).next=q.next := rfl

@[simp] theorem setNext_next (v : Option α) (a : α) :
    (q.setNext e v).next a=if a=e then v else q.next a := Function.update_apply ..

@[simp] theorem setPrev_prev (v : Option α) (a : α) :
    (q.setPrev e v).prev a=if a=e then v else q.prev a := Function.update_apply ..

omit [DecidableEq α] in
theorem holds_empty : (empty : Dlist α).Holds [] :=
  ⟨List.nodup_nil,rfl,fun _ hx => (Option.not_mem_none _ hx).elim,fun _ _ => ⟨rfl,rfl⟩⟩

omit [DecidableEq α] in
/-- It does not matter where a ring begins. -/
theorem Ring.rotate {as bs : List α} (h : q.Ring (as++bs)) : q.Ring (bs++as) := by
  cases as with
  | nil => rwa [List.append_nil]
  | cons a as =>
    cases bs with
    | nil => rwa [List.append_nil] at h
    | cons b bs =>
      have hchain : ((a::as)++b::(bs++[a])).IsChain q.Joined := by
        rw [← List.cons_append,← List.append_assoc]
        exact h a rfl
      obtain ⟨ha,hb⟩ := List.isChain_split.mp hchain
      intro x hx
      cases hx
      have hsame : ((b::bs)++(a::as))++[b]=(b::bs)++a::(as++[b]) := List.append_assoc ..
      rw [hsame]
      exact List.isChain_split.mpr ⟨hb,ha⟩

omit [DecidableEq α] in
/-- The neighbours of a node in a ring -/
theorem neighbours (h : (e::ys++[e]).IsChain q.Joined) (hy : ys.head?=some y)
    (hl : ys.getLast?=some l) :
    q.Joined e y ∧ q.Joined l e ∧ ys.IsChain q.Joined := by
  have hcons : (e::(ys++[e])).IsChain q.Joined := h
  obtain ⟨hey,hrest⟩ := List.isChain_cons.mp hcons
  obtain ⟨hys,-,hlast⟩ := List.isChain_append.mp hrest
  exact ⟨hey y (by rw [List.head?_append,hy]; rfl),hlast l hl e rfl,hys⟩

/-- A node is taken out from between its neighbours. -/
def bypass (q : Dlist α) (e y l : α) : Dlist α :=
  (((q.setPrev y (some l)).setNext l (some y)).setNext e none).setPrev e none

/-- What is left of a ring is one. -/
theorem ring_bypass (h : (e::ys++[e]).IsChain q.Joined) (he : e∉ys) (hy : ys.head?=some y)
    (hl : ys.getLast?=some l) : (q.bypass e y l).Ring ys := by
  obtain ⟨hey,hle,hys⟩ := neighbours h hy hl
  have hmem : ∀ a∈ys,a≠e := fun a ha heq => he (by rw [← heq]; exact ha)
  have hyl := hmem y (List.mem_of_mem_head? hy)
  have hll := hmem l (List.mem_of_getLast? hl)
  have hchain : ys.IsChain (q.bypass e y l).Joined := by
    refine hys.imp_of_mem_imp fun a b ha hb hab => ?_
    have hal : a≠l := by
      intro heq
      rw [heq] at hab
      have hbe := hab.1.symm.trans hle.1
      exact hmem b hb (Option.some.inj hbe)
    have hby : b≠y := by
      intro heq
      rw [heq] at hab
      have hae := hab.2.symm.trans hey.2
      exact hmem a ha (Option.some.inj hae)
    unfold bypass Joined
    simp [hmem a ha,hmem b hb,hal,hby,hab.1,hab.2]
  intro x hx
  rw [hy] at hx
  cases hx
  refine List.isChain_append.mpr ⟨hchain,.singleton _,fun a ha b hb => ?_⟩
  rw [hl] at ha
  cases ha
  cases hb
  unfold bypass Joined
  simp [hyl,hll]

theorem free_bypass (hfree : ∀ a,a∉e::ys → q.next a=none ∧ q.prev a=none)
    (hy : ys.head?=some y) (hl : ys.getLast?=some l) {a : α} (ha : a∉ys) :
    (q.bypass e y l).next a=none ∧ (q.bypass e y l).prev a=none := by
  have hay : a≠y := fun heq => ha (by rw [heq]; exact List.mem_of_mem_head? hy)
  have hal : a≠l := fun heq => ha (by rw [heq]; exact List.mem_of_getLast? hl)
  unfold bypass
  by_cases hae : a=e
  · simp [hae]
  · have hnot : a∉e::ys := fun h => (List.mem_cons.mp h).elim hae ha
    simp [hay,hal,hae,hfree a hnot]

/-- The only node of a ring leads to itself. -/
theorem holds_unlinked (hfree : ∀ a,a∉[e] → q.next a=none ∧ q.prev a=none) :
    ({(q.setNext e none).setPrev e none with first := none} : Dlist α).Holds [] := by
  refine ⟨List.nodup_nil,rfl,fun _ hx => (Option.not_mem_none _ hx).elim,fun a _ => ?_⟩
  by_cases hae : a=e
  · simp [hae]
  · simp [hae,hfree a (by simpa using hae)]

omit [DecidableEq α] in
/-- What is around an element that is not alone -/
theorem Holds.around {as bs : List α} (h : q.Holds (as++e::bs)) (hne : bs++as≠[]) :
    ∃ y l,(bs++as).head?=some y ∧ (bs++as).getLast?=some l ∧
      (e::(bs++as)++[e]).IsChain q.Joined ∧ e∉bs++as := by
  refine ⟨(bs++as).head hne,(bs++as).getLast hne,List.head?_eq_some_head hne,
    List.getLast?_eq_some_getLast hne,?_,?_⟩
  · exact h.ring.rotate e rfl
  · have hmid := List.nodup_middle.mp h.nodup
    have hnot := (List.nodup_cons.mp hmid).1
    rwa [List.mem_append,or_comm,← List.mem_append] at hnot

theorem Holds.bypassed {as bs : List α} (h : q.Holds (as++e::bs)) (hy : (bs++as).head?=some y)
    (hl : (bs++as).getLast?=some l) (hchain : (e::(bs++as)++[e]).IsChain q.Joined)
    (he : e∉bs++as) : ({q.bypass e y l with first := (as++bs).head?} : Dlist α).Holds (as++bs) := by
  have hnodup := (List.nodup_cons.mp (List.nodup_middle.mp h.nodup)).2
  refine ⟨hnodup,rfl,(ring_bypass hchain he hy hl).rotate,fun a ha => ?_⟩
  have hfree : ∀ b,b∉e::(bs++as) → q.next b=none ∧ q.prev b=none := by
    refine fun b hb => h.free b fun hmem => hb ?_
    rw [List.mem_append,List.mem_cons] at hmem
    rw [List.mem_cons,List.mem_append]
    obtain hin | heq | hin := hmem
    · exact .inr (.inr hin)
    · exact .inl heq
    · exact .inr (.inl hin)
  refine free_bypass hfree hy hl ?_
  rwa [List.mem_append,or_comm,← List.mem_append]

/-- `unlink` takes the element out, wherever it is. -/
theorem Holds.unlink (h : q.Holds xs) (he : e∈xs) :
    ∃ q',q.unlink e=some q' ∧ q'.Holds (xs.erase e) := by
  obtain ⟨as,bs,hnot,rfl,herase⟩ := List.exists_erase_eq he
  rw [herase]
  have hfirst := h.first
  by_cases hne : bs++as=[]
  · obtain ⟨rfl,rfl⟩ := List.append_eq_nil_iff.mp hne
    obtain ⟨hn,hp⟩ := (List.isChain_cons_cons.mp (h.ring e rfl)).1
    refine ⟨_,?_,holds_unlinked h.free⟩
    have hhead : q.first=some e := hfirst
    unfold Dlist.unlink
    rw [if_pos hhead,if_pos hn]
    dsimp only
    rw [hn]
    dsimp only [Option.bind_some]
    simp only [setPrev_prev,if_true,hp,Option.map_some]
    refine congrArg some (Dlist.ext rfl ?_ ?_) <;> funext a <;> by_cases hae : a=e <;> simp [hae]
  · obtain ⟨y,l,hy,hl,hchain,hout⟩ := h.around hne
    obtain ⟨⟨hn,-⟩,⟨-,hp⟩,-⟩ := neighbours hchain hy hl
    have hye : y≠e := fun heq => hout (by rw [← heq]; exact List.mem_of_mem_head? hy)
    have hle : l≠e := fun heq => hout (by rw [← heq]; exact List.mem_of_getLast? hl)
    refine ⟨_,?_,h.bypassed hy hl hchain hout⟩
    have hhead : (if q.first=some e then if q.next e=some e then none else q.next e else q.first)=
        (as++bs).head? := by
      rw [hfirst,hn]
      cases as with
      | nil =>
        rw [List.append_nil] at hy
        have hthis : ([]++e::bs).head?=some e := rfl
        rw [hthis,if_pos rfl,if_neg (fun heq => hye (Option.some.inj heq))]
        exact hy.symm
      | cons a as =>
        have hae : ¬some a=some e := fun heq =>
          hnot (by rw [Option.some.inj heq]; exact List.mem_cons_self ..)
        exact if_neg hae
    unfold Dlist.unlink
    rw [hhead]
    dsimp only
    rw [hn]
    dsimp only [Option.bind_some]
    simp only [setPrev_prev,if_neg (Ne.symm hye),hp,Option.map_some,setPrev_next,hn]
    rfl

/-- `pop_front` takes off the first element. -/
theorem Holds.popFront (h : q.Holds (e::xs)) :
    ∃ q',q.popFront=some (e,q') ∧ q'.Holds xs := by
  have hfirst : q.first=some e := h.first
  by_cases hne : xs=[]
  · rw [hne] at h ⊢
    obtain ⟨hn,hp⟩ := (List.isChain_cons_cons.mp (h.ring e rfl)).1
    refine ⟨_,?_,holds_unlinked h.free⟩
    unfold Dlist.popFront
    rw [hfirst,Option.bind_some,if_pos hn]
  · have h' : q.Holds ([]++e::xs) := h
    have hne' : xs++[]≠[] := by rwa [List.append_nil]
    obtain ⟨y,l,hy,hl,hchain,hout⟩ := h'.around hne'
    obtain ⟨⟨hn,-⟩,⟨-,hp⟩,-⟩ := neighbours hchain hy hl
    have hye : y≠e := fun heq => hout (by rw [← heq]; exact List.mem_of_mem_head? hy)
    have hle : l≠e := fun heq => hout (by rw [← heq]; exact List.mem_of_getLast? hl)
    refine ⟨_,?_,h'.bypassed hy hl hchain hout⟩
    have hhead : ([]++xs).head?=some y := by rwa [List.append_nil] at hy
    have hnot : ¬q.next e=some e := by
      rw [hn]
      exact fun heq => hye (Option.some.inj heq)
    unfold Dlist.popFront
    rw [hfirst,Option.bind_some,if_neg hnot,hn]
    dsimp only [Option.bind_some]
    simp only [setPrev_prev,if_true,hp,Option.map_some,setPrev_next,setNext_next,
      if_neg (Ne.symm hle),hn,hhead]
    rfl

/-- `append` puts an element at the end. -/
theorem Holds.append (h : q.Holds xs) (he : e∉xs) :
    ∃ q',q.append e=some q' ∧ q'.Holds (xs++[e]) := by
  have hnodup : (xs++[e]).Nodup := by
    rw [List.nodup_append]
    exact ⟨h.nodup,List.nodup_singleton e,fun a ha b hb hab =>
      he (by rw [← List.mem_singleton.mp hb,← hab]; exact ha)⟩
  have hfirst := h.first
  cases xs with
  | nil =>
    refine ⟨(({q with first := some e} : Dlist α).setNext e (some e)).setPrev e (some e),?_,
      hnodup,rfl,?_,?_⟩
    · unfold Dlist.append
      rw [hfirst]
      rfl
    · intro x hx
      cases hx
      exact List.isChain_cons_cons.mpr ⟨by simp [Joined],.singleton _⟩
    · intro a ha
      have hae : a≠e := by simpa using ha
      simp [hae,h.free a (by simp)]
  | cons x xs =>
    obtain ⟨hchain,-,hlast⟩ := List.isChain_append.mp (h.ring x rfl)
    have hl : (x::xs).getLast?=some ((x::xs).getLast (List.cons_ne_nil _ _)) :=
      List.getLast?_eq_some_getLast _
    generalize (x::xs).getLast (List.cons_ne_nil _ _)=l at hl
    have hjoined := hlast l hl x rfl
    have hlmem : l∈x::xs := List.mem_of_getLast? hl
    have hxe : x≠e := fun heq => he (by rw [← heq]; exact List.mem_cons_self ..)
    have hle : l≠e := fun heq => he (by rw [← heq]; exact hlmem)
    refine ⟨(((q.setNext e (some x)).setPrev e (some l)).setNext l (some e)).setPrev x (some e),?_,
      hnodup,?_,?_,?_⟩
    · unfold Dlist.append
      rw [hfirst]
      dsimp only [List.head?_cons]
      simp only [setNext_prev,hjoined.2,setPrev_prev,if_neg hxe,Option.map_some]
    · exact hfirst
    · intro a ha
      cases ha
      have hinner : (x::xs).IsChain
          ((((q.setNext e (some x)).setPrev e (some l)).setNext l (some e)).setPrev x (some e)).Joined := by
        refine hchain.imp_of_mem_tail_imp fun a b ha hb hab => ?_
        have hbx : b≠x := fun heq =>
          (List.nodup_cons.mp h.nodup).1 (by rw [← heq]; exact hb)
        have hal : a≠l := by
          intro heq
          rw [heq] at hab
          have hbx' := hab.1.symm.trans hjoined.1
          exact hbx (Option.some.inj hbx')
        have hae : a≠e := fun heq => he (by rw [← heq]; exact ha)
        have hbe : b≠e := fun heq => he (by rw [← heq]; exact List.mem_of_mem_tail hb)
        unfold Joined
        simp [hbx,hal,hae,hbe,hab.1,hab.2]
      have hend : ((x::xs)++(e::[x])).IsChain
          ((((q.setNext e (some x)).setPrev e (some l)).setNext l (some e)).setPrev x (some e)).Joined := by
        refine List.isChain_append.mpr ⟨hinner,?_,fun a ha b hb => ?_⟩
        · refine List.isChain_cons_cons.mpr ⟨?_,.singleton _⟩
          unfold Joined
          simp [Ne.symm hle]
        · rw [hl] at ha
          cases ha
          cases hb
          unfold Joined
          simp [Ne.symm hxe]
      rw [List.append_assoc]
      exact hend
    · intro a ha
      rw [List.mem_append,not_or,List.mem_singleton] at ha
      have hax : a≠x := fun heq => ha.1 (by rw [heq]; exact List.mem_cons_self ..)
      have hal : a≠l := fun heq => ha.1 (by rw [heq]; exact hlmem)
      simp [hax,hal,ha.2,h.free a ha.1]

omit [DecidableEq α] in
theorem Holds.tail_eq (h : q.Holds xs) : q.tail=xs.getLast? := by
  unfold tail
  rw [h.first]
  cases xs with
  | nil => rfl
  | cons x xs =>
    obtain ⟨-,-,hlast⟩ := List.isChain_append.mp (h.ring x rfl)
    have hl : (x::xs).getLast?=some ((x::xs).getLast (List.cons_ne_nil _ _)) :=
      List.getLast?_eq_some_getLast _
    rw [hl]
    exact (hlast _ hl x rfl).2

omit [DecidableEq α] in
theorem Holds.isEmpty_eq (h : q.Holds xs) : q.isEmpty=xs.isEmpty := by
  unfold isEmpty
  rw [h.first]
  cases xs <;> rfl

omit [DecidableEq α] in
/-- `is_queued` tells what is in the list. -/
theorem Holds.isQueued_iff (h : q.Holds xs) (e : α) : q.isQueued e=true ↔ e∈xs := by
  unfold isQueued
  constructor
  · intro hq
    by_contra he
    rw [(h.free e he).1] at hq
    cases hq
  · intro he
    obtain ⟨as,bs,rfl⟩ := List.append_of_mem he
    have hring := h.ring.rotate e rfl
    have hcons : (e::(bs++as++[e])).IsChain q.Joined := by
      rw [← List.cons_append,← List.cons_append]
      exact hring
    have hsome : (bs++as++[e]).head?=some ((bs++as++[e]).head (by simp)) := List.head?_eq_some_head _
    rw [((List.isChain_cons.mp hcons).1 _ hsome).1]
    rfl

end Dlist
end Dinit.Framework
