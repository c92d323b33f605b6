import Mathlib.Data.List.Perm.Basic

namespace Dinit.Framework

/-- Elements in numbered buckets -/
abbrev Buckets (α : Type) := List (List α)

namespace Buckets

variable {α : Type}

/-- The element at a position: the number of a bucket, and a place in it. -/
def elem (bs : Buckets α) (p : Nat × Nat) : Option α := bs[p.1]?.bind fun xs => xs[p.2]?

def put (bs : Buckets α) (b : Nat) (a : α) : Buckets α := bs.modify b fun c => c++[a]

def remove (bs : Buckets α) (p : Nat × Nat) : Buckets α := bs.modify p.1 fun c => c.eraseIdx p.2

/-- The start of the first of these buckets that is not empty, the first of them being number `i` -/
def seek : Nat → Buckets α → Option (Nat × Nat)
  | _,[] => none
  | i,c::cs => if c.isEmpty then seek (i+1) cs else some (i,0)

def firstFrom (bs : Buckets α) (i : Nat) : Option (Nat × Nat) := seek i (bs.drop i)

/-- The position after another -/
def after (bs : Buckets α) (p : Nat × Nat) : Option (Nat × Nat) :=
  if p.2+1=(bs.getD p.1 []).length then firstFrom bs (p.1+1) else some (p.1,p.2+1)

/-- From one position on to the end, these elements are visited. -/
def Visits (bs : Buckets α) : Option (Nat × Nat) → List α → Prop
  | o,[] => o=none
  | o,x::xs => ∃ p,o=some p ∧ elem bs p=some x ∧ Visits bs (after bs p) xs

/-- Each element is in the bucket it belongs to. -/
def Placed (slot : α → Nat) (bs : Buckets α) : Prop := ∀ b x,x∈bs.getD b [] → slot x=b

variable {bs : Buckets α} {b i j : Nat} {a x : α} {p : Nat × Nat} {slot : α → Nat}

theorem elem_eq_some : elem bs p=some x ↔ ∃ xs,bs[p.1]?=some xs ∧ xs[p.2]?=some x :=
  Option.bind_eq_some_iff

theorem getD_eq {c : List α} (h : bs[b]?=some c) : bs.getD b []=c := by
  rw [List.getD_eq_getElem?_getD,h,Option.getD_some]

theorem mem_flatten_iff : x∈bs.flatten ↔ ∃ b,x∈bs.getD b [] := by
  constructor
  · intro h
    obtain ⟨c,hc,hx⟩ := List.mem_flatten.mp h
    obtain ⟨b,hb⟩ := List.mem_iff_getElem?.mp hc
    exact ⟨b,by rwa [getD_eq hb]⟩
  · intro ⟨b,hx⟩
    cases hb : bs[b]? with
    | none =>
      rw [List.getD_eq_getElem?_getD,hb,Option.getD_none] at hx
      cases hx
    | some c =>
      rw [getD_eq hb] at hx
      exact List.mem_flatten.mpr ⟨c,List.mem_iff_getElem?.mpr ⟨b,hb⟩,hx⟩

theorem elem_mem (h : elem bs p=some x) : x∈bs.getD p.1 [] := by
  obtain ⟨c,hc,hx⟩ := elem_eq_some.mp h
  rw [getD_eq hc]
  exact List.mem_of_getElem? hx

theorem elem_mem_flatten (h : elem bs p=some x) : x∈bs.flatten := mem_flatten_iff.mpr ⟨_,elem_mem h⟩

@[simp] theorem length_put : (put bs b a).length=bs.length := List.length_modify ..

@[simp] theorem length_remove : (remove bs p).length=bs.length := List.length_modify ..

/-- A change to one bucket, seen in all the elements -/
theorem perm_modify {f : List α → List α} (xs ys : List α) (hb : b<bs.length)
    (h : (xs++f bs[b]).Perm (ys++bs[b])) : (xs++(bs.modify b f).flatten).Perm (ys++bs.flatten) := by
  have hsplit : bs.flatten=(bs.take b).flatten++(bs[b]++(bs.drop (b+1)).flatten) := by
    rw [← List.flatten_cons,← List.flatten_append,← List.drop_eq_getElem_cons hb,List.take_append_drop]
  have hmodify : (bs.modify b f).flatten=
      (bs.take b).flatten++(f bs[b]++(bs.drop (b+1)).flatten) := by
    rw [List.modify_eq_take_cons_drop hb,List.flatten_append,List.flatten_cons]
  have hswap : ∀ (us ts vs ws : List α),(us++(ts++(vs++ws))).Perm (ts++((us++vs)++ws)) := by
    intro us ts vs ws
    rw [← List.append_assoc us ts,List.append_assoc us vs,← List.append_assoc ts us]
    exact List.perm_append_comm.append_right _
  rw [hsplit,hmodify]
  calc (xs++((bs.take b).flatten++(f bs[b]++(bs.drop (b+1)).flatten))).Perm _ := hswap ..
    List.Perm _ ((bs.take b).flatten++((ys++bs[b])++(bs.drop (b+1)).flatten)) :=
      (h.append_right _).append_left _
    List.Perm _ _ := (hswap ..).symm

theorem perm_put (hb : b<bs.length) : (put bs b a).flatten.Perm (a::bs.flatten) := by
  have h : (bs[b]++[a]).Perm ([a]++bs[b]) := List.perm_append_comm
  exact perm_modify [] [a] hb h

theorem perm_remove (h : elem bs p=some x) : (x::(remove bs p).flatten).Perm bs.flatten := by
  obtain ⟨c,hc,hx⟩ := elem_eq_some.mp h
  obtain ⟨hb,rfl⟩ := List.getElem?_eq_some_iff.mp hc
  obtain ⟨hi,rfl⟩ := List.getElem?_eq_some_iff.mp hx
  exact perm_modify [bs[p.1][p.2]] [] hb (List.getElem_cons_eraseIdx_perm hi)

theorem getD_put : (put bs b a).getD i []=
    if b=i ∧ i<bs.length then bs.getD i []++[a] else bs.getD i [] := by
  simp only [List.getD_eq_getElem?_getD,put,List.getElem?_modify]
  by_cases hbi : b=i
  · subst hbi
    by_cases hb : b<bs.length
    · simp [hb]
    · simp [hb]
  · simp [hbi]

theorem elem_put (hb : b<bs.length) : elem (put bs b a) (b,(bs.getD b []).length)=some a := by
  refine elem_eq_some.mpr ⟨bs.getD b []++[a],?_,by simp⟩
  simp [put,hb]

theorem Placed.put (h : Placed slot bs) (ha : slot a=b) : Placed slot (put bs b a) := by
  intro i x hx
  rw [getD_put] at hx
  split at hx
  · next hi =>
    obtain hin | hin := List.mem_append.mp hx
    · exact h i x hin
    · rw [List.mem_singleton.mp hin,ha,hi.1]
  · exact h i x hx

theorem Placed.remove (h : Placed slot bs) (p : Nat × Nat) : Placed slot (remove bs p) := by
  intro i x hx
  have hsub : ∀ c : List α,c∈bs[i]? → x∈(Buckets.remove bs p).getD i [] → x∈c := by
    intro c hc hx
    rw [List.getD_eq_getElem?_getD,Buckets.remove,List.getElem?_modify,hc] at hx
    by_cases hpi : p.1=i
    · simp only [hpi,if_true] at hx
      exact List.mem_of_mem_eraseIdx hx
    · simpa [hpi] using hx
  cases hc : bs[i]? with
  | none =>
    rw [List.getD_eq_getElem?_getD,Buckets.remove,List.getElem?_modify,hc] at hx
    cases hx
  | some c => exact h i x (by rw [getD_eq hc]; exact hsub c hc hx)

/-- Iteration from a place in a bucket goes to the end of it, and then on as from its end. -/
theorem visits_within {c ys : List α} (hc : bs[i]?=some c) (h : Visits bs (firstFrom bs (i+1)) ys)
    (hj : j<c.length) : Visits bs (some (i,j)) (c.drop j++ys) := by
  induction hn : c.length-j generalizing j with
  | zero => omega
  | succ n ih =>
    rw [List.drop_eq_getElem_cons hj]
    refine ⟨(i,j),rfl,elem_eq_some.mpr ⟨c,hc,List.getElem?_eq_getElem hj⟩,?_⟩
    unfold after
    dsimp only
    rw [getD_eq hc]
    by_cases hend : j+1=c.length
    · rw [if_pos hend,hend,List.drop_length]
      exact h
    · rw [if_neg hend]
      exact ih (by omega) (by omega)

theorem visits_firstFrom (bs : Buckets α) (i : Nat) :
    Visits bs (firstFrom bs i) (bs.drop i).flatten := by
  induction hn : bs.length-i generalizing i with
  | zero =>
    have hnil : bs.drop i=[] := List.drop_eq_nil_of_le (by omega)
    simp only [firstFrom,hnil]
    rfl
  | succ n ih =>
    have hi : i<bs.length := by omega
    have hrest := ih (i+1) (by omega)
    have hdrop := List.drop_eq_getElem_cons hi
    unfold firstFrom
    rw [hdrop,List.flatten_cons]
    cases hc : bs[i] with
    | nil => exact hrest
    | cons y ys =>
      have hsome : bs[i]?=some (y::ys) := by rw [List.getElem?_eq_getElem hi,hc]
      exact visits_within hsome hrest (j := 0) (Nat.succ_pos _)

/-- Iteration from the first element visits the buckets one after the other. -/
theorem visits_all (bs : Buckets α) : Visits bs (firstFrom bs 0) bs.flatten := visits_firstFrom bs 0

end Buckets
end Dinit.Framework
