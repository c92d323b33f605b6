import Mathlib.Data.List.Pairwise
import Dinit.Util.HashSet

namespace Dinit.HashSet

open Framework

variable {α : Type} {k : Keyed α} {s s' : HashSet α} {v x : α} {p : Nat × Nat} {n : Nat}

/-- The bucket of each element, of so many -/
def slot (k : Keyed α) (n : Nat) (a : α) : Nat := k.hashF a%n

/-- Each element can be found, and no two of them are equal. -/
structure Sound (k : Keyed α) (s : HashSet α) : Prop where
  placed : s.buckets.Placed (slot k s.buckets.length)
  apart : s.buckets.flatten.Pairwise fun a b => k.keyEqualF a b=false

theorem map_eq_ok {β γ : Type} {m : Except Fault β} {f : β → γ} {y : γ} :
    m.map f=.ok y ↔ ∃ a,m=.ok a ∧ f a=y := by
  cases m <;> simp [Except.map]

theorem map_eq_error {β γ : Type} {m : Except Fault β} {f : β → γ} {e : Fault} :
    m.map f=.error e ↔ m=.error e := by
  cases m <;> simp [Except.map]

theorem keyEqualF_symm {a b : α} (h : k.keyEqualF a b=false) : k.keyEqualF b a=false := by
  cases hba : k.keyEqualF b a with
  | false => rfl
  | true =>
    rw [k.symm b a hba] at h
    cases h

theorem Sound.eq_of_equal {a b : α} (hs : Sound k s) (ha : a∈s.buckets.flatten)
    (hb : b∈s.buckets.flatten) (h : k.keyEqualF a b=true) : a=b := by
  by_contra hne
  have hsymm : Std.Symm fun a b : α => k.keyEqualF a b=false := ⟨fun _ _ => keyEqualF_symm⟩
  rw [hs.apart.forall ha hb hne] at h
  cases h

theorem slot_eq {a b : α} (h : k.keyEqualF a b=true) (n : Nat) : slot k n a=slot k n b := by
  unfold slot
  rw [k.hash_eq a b h]

theorem sound_new : Sound k ({} : HashSet α) where
  placed b x hx := by
    rw [List.getD_nil] at hx
    cases hx
  apart := List.Pairwise.nil

theorem findIn_some (h : findIn k s v=some p) :
    ∃ x,s.buckets.elem p=some x ∧ k.keyEqualF x v=true := by
  obtain ⟨i,hi,rfl⟩ := Option.map_eq_some_iff.mp h
  obtain ⟨hlt,heq,-⟩ := List.findIdx?_eq_some_iff_getElem.mp hi
  cases hb : s.buckets[k.hashF v%s.buckets.length]? with
  | none =>
    rw [List.getD_eq_getElem?_getD,hb] at hlt
    cases hlt
  | some xs =>
    simp only [Buckets.getD_eq hb] at hlt heq
    exact ⟨xs[i],Buckets.elem_eq_some.mpr ⟨xs,hb,List.getElem?_eq_getElem hlt⟩,heq⟩

theorem findIn_none (hs : s.buckets.Placed (slot k s.buckets.length)) (h : findIn k s v=none)
    (hx : x∈s.buckets.flatten) : k.keyEqualF x v=false := by
  obtain ⟨b,hb⟩ := Buckets.mem_flatten_iff.mp hx
  cases heq : k.keyEqualF x v with
  | false => rfl
  | true =>
    have hslot : slot k s.buckets.length v=b := by
      rw [← hs b x hb]
      exact (slot_eq heq _).symm
    have hnone := List.findIdx?_eq_none_iff.mp (Option.map_eq_none_iff.mp h) x
    rw [show k.hashF v%s.buckets.length=b from hslot] at hnone
    exact heq.symm.trans (hnone hb)

theorem flatten_of_isEmpty (h : s.buckets.isEmpty=true) : s.buckets.flatten=[] := by
  rw [List.isEmpty_iff.mp h]
  rfl

theorem find_some (h : find k s v=some p) :
    ∃ x,s.buckets.elem p=some x ∧ k.keyEqualF x v=true := by
  unfold find at h
  split at h
  · cases h
  · exact findIn_some h

theorem find_none (hs : Sound k s) (h : find k s v=none) (hx : x∈s.buckets.flatten) :
    k.keyEqualF x v=false := by
  unfold find at h
  split at h
  · next he =>
    rw [flatten_of_isEmpty he] at hx
    cases hx
  · exact findIn_none hs.placed h hx

/-- What the nodes give that are put into their buckets one after the other -/
theorem foldl_place (nodes : List α) {bs : Buckets α} (hn : 0 < n) (hle : n≤bs.length)
    (hplaced : bs.Placed (slot k n)) :
    (nodes.foldl (place k n) bs).length=bs.length ∧
      (nodes.foldl (place k n) bs).flatten.Perm (nodes++bs.flatten) ∧
      (nodes.foldl (place k n) bs).Placed (slot k n) := by
  induction nodes generalizing bs with
  | nil => exact ⟨rfl,List.Perm.refl _,hplaced⟩
  | cons a nodes ih =>
    have hlen : (place k n bs a).length=bs.length := Buckets.length_put
    have hslot : k.hashF a%n < bs.length := Nat.lt_of_lt_of_le (Nat.mod_lt _ hn) hle
    have hle' : n≤(place k n bs a).length := by rw [hlen]; exact hle
    have hplaced' : (place k n bs a).Placed (slot k n) := hplaced.put rfl
    obtain ⟨hlength,hperm,hpl⟩ := ih hle' hplaced'
    refine ⟨hlength.trans hlen,?_,hpl⟩
    calc ((a::nodes).foldl (place k n) bs).flatten.Perm (nodes++(place k n bs a).flatten) := hperm
      List.Perm _ (nodes++a::bs.flatten) := (Buckets.perm_put hslot).append_left _
      List.Perm _ (a::nodes++bs.flatten) := List.perm_middle

theorem flatten_map_nil (bs : Buckets α) : (bs.map fun _ => ([] : List α)).flatten=[] := by
  induction bs with
  | nil => rfl
  | cons c bs ih => exact ih

theorem placed_of_flatten {f : α → Nat} {bs : Buckets α} (h : bs.flatten=[]) : bs.Placed f := by
  intro b x hx
  have hmem := Buckets.mem_flatten_iff.mpr ⟨b,hx⟩
  rw [h] at hmem
  cases hmem

theorem doRehash_ok {bs bs' : Buckets α} (hle : n≤bs.length) (h : doRehash k bs n=.ok bs') :
    bs'.length=bs.length ∧ bs'.flatten.Perm bs.flatten ∧ bs'.Placed (slot k n) ∧
      (n=0 → bs'.flatten=[]) := by
  unfold doRehash at h
  dsimp only at h
  split at h
  · cases h
  · next hz =>
    obtain rfl := Except.ok.inj h
    have hnil := flatten_map_nil bs
    have hlen : (bs.map fun _ => ([] : List α)).length=bs.length := List.length_map _
    obtain h0 | hpos := Nat.eq_zero_or_pos n
    · have hempty : bs.flatten=[] := by simpa [h0] using hz
      rw [hempty]
      exact ⟨hlen,by rw [List.foldl_nil,hnil],placed_of_flatten hnil,fun _ => hnil⟩
    · have hplaced₀ : Buckets.Placed (slot k n) (bs.map fun _ => []) := placed_of_flatten hnil
      obtain ⟨hlength,hperm,hplaced⟩ := foldl_place bs.flatten hpos (by rw [hlen]; exact hle) hplaced₀
      rw [hnil,List.append_nil] at hperm
      exact ⟨hlength.trans hlen,hperm,hplaced,fun h0 => absurd h0 (Nat.ne_of_gt hpos)⟩

theorem doRehash_fault {bs : Buckets α} {f : Fault} (h : doRehash k bs n=.error f) :
    f=.divisionByZero ∧ n=0 ∧ bs.flatten≠[] := by
  unfold doRehash at h
  dsimp only at h
  split at h
  · next hz =>
    exact ⟨(Except.error.inj h).symm,hz.1,fun hnil => hz.2 (by rw [hnil]; rfl)⟩
  · cases h

/-- The buckets that are cut off are empty. -/
theorem flatten_take {f : α → Nat} {bs : Buckets α} (h : bs.Placed f) (hf : ∀ x∈bs.flatten,f x < n) :
    (bs.take n).flatten=bs.flatten := by
  have hdrop : (bs.drop n).flatten=[] := by
    refine List.eq_nil_iff_forall_not_mem.mpr fun x hx => ?_
    obtain ⟨b,hb⟩ := Buckets.mem_flatten_iff.mp hx
    have hget : (bs.drop n).getD b []=bs.getD (n+b) [] := by
      simp only [List.getD_eq_getElem?_getD,List.getElem?_drop]
    rw [hget] at hb
    have hlt := hf x (Buckets.mem_flatten_iff.mpr ⟨_,hb⟩)
    rw [h _ x hb] at hlt
    omega
  have hsplit := congrArg List.flatten (List.take_append_drop n bs)
  rwa [List.flatten_append,hdrop,List.append_nil] at hsplit

theorem placed_take {f : α → Nat} {bs : Buckets α} (h : bs.Placed f) : Buckets.Placed f (bs.take n) := by
  intro b x hx
  refine h b x ?_
  rw [List.getD_eq_getElem?_getD,List.getElem?_take] at hx
  rw [List.getD_eq_getElem?_getD]
  split at hx
  · exact hx
  · cases hx

theorem flatten_resize (bs : Buckets α) (m : Nat) :
    (bs++List.replicate m []).flatten=bs.flatten := by
  rw [List.flatten_append,List.flatten_replicate_nil,List.append_nil]

/-- What is kept by `rehash`: the elements and the two counters -/
structure Rehashed (k : Keyed α) (s s' : HashSet α) : Prop where
  perm : s'.buckets.flatten.Perm s.buckets.flatten
  placed : s'.buckets.Placed (slot k s'.buckets.length)
  currentSize : s'.currentSize=s.currentSize

theorem Rehashed.sound (h : Rehashed k s s') (hs : Sound k s) : Sound k s' :=
  ⟨h.placed,(h.perm.pairwise_iff keyEqualF_symm).mpr hs.apart⟩

/-- The buckets that are left after `rehash` has made them fewer -/
theorem shrunk {bs bs' : Buckets α} (hle : n≤bs.length) (h : doRehash k bs n=.ok bs') :
    (bs'.take n).length=n ∧ (bs'.take n).flatten.Perm bs.flatten ∧
      Buckets.Placed (slot k n) (bs'.take n) := by
  obtain ⟨hlength,hperm,hplaced,hnone⟩ := doRehash_ok hle h
  have hflat : (bs'.take n).flatten=bs'.flatten := by
    refine flatten_take hplaced fun x hx => Nat.mod_lt _ (Nat.pos_of_ne_zero fun h0 => ?_)
    rw [hnone h0] at hx
    cases hx
  refine ⟨?_,?_,placed_take hplaced⟩
  · rw [List.length_take,hlength]
    exact Nat.min_eq_left hle
  · rw [hflat]
    exact hperm

/-- The buckets after it has made them more -/
theorem grown {bs bs' : Buckets α} (hle : bs.length≤n)
    (h : doRehash k (bs++List.replicate (n-bs.length) []) n=.ok bs') :
    bs'.length=n ∧ bs'.flatten.Perm bs.flatten ∧ bs'.Placed (slot k n) := by
  have hlen : (bs++List.replicate (n-bs.length) []).length=n := by
    rw [List.length_append,List.length_replicate]
    omega
  obtain ⟨hlength,hperm,hplaced,-⟩ := doRehash_ok (Nat.le_of_eq hlen.symm) h
  rw [flatten_resize] at hperm
  exact ⟨hlength.trans hlen,hperm,hplaced⟩

theorem rehashed_of {bs : Buckets α} (hlen : bs.length=n) (hperm : bs.flatten.Perm s.buckets.flatten)
    (hplaced : bs.Placed (slot k n)) : Rehashed k s {s with buckets := bs} := by
  refine ⟨hperm,?_,rfl⟩
  dsimp only
  rw [hlen]
  exact hplaced

theorem rehash_ok (h : rehash k s n=.ok s') :
    Rehashed k s s' ∧ s'.currentLimit=s.currentLimit ∧ s'.buckets.length=max n s.minBuckets := by
  unfold rehash at h
  generalize max n s.minBuckets=m at h ⊢
  dsimp only at h
  split at h
  · next hlt =>
    obtain ⟨bs,hre,rfl⟩ := map_eq_ok.mp h
    obtain ⟨hlen,hperm,hplaced⟩ := shrunk (Nat.le_of_lt hlt) hre
    exact ⟨rehashed_of hlen hperm hplaced,rfl,hlen⟩
  · next hge =>
    split at h
    · cases h
    · obtain ⟨bs,hre,rfl⟩ := map_eq_ok.mp h
      obtain ⟨hlen,hperm,hplaced⟩ := grown (Nat.le_of_not_lt hge) hre
      exact ⟨rehashed_of hlen hperm hplaced,rfl,hlen⟩

theorem minBuckets_le (s : HashSet α) : s.minBuckets≤ maxSize := by
  unfold minBuckets bucketsToMax
  split
  · exact Nat.le_refl _
  · next h =>
    have hmax : maxSize=384307168202282325 := by decide
    dsimp only at h ⊢
    omega

/-- Elements that are stored are counted, unless the counter is at zero. -/
theorem minBuckets_pos (h : s.currentSize≠0) : 0 < s.minBuckets := by
  unfold minBuckets
  split
  · decide
  · dsimp only
    omega

/-- `rehash` fails only where it is to make more buckets than a vector may have, or where there
are elements that are not counted. -/
theorem rehash_fault {f : Fault} (h : rehash k s n=.error f) :
    f=.lengthError ∧ maxSize < n ∨
      f=.divisionByZero ∧ n=0 ∧ s.currentSize=0 ∧ s.buckets.flatten≠[] := by
  have hmin := minBuckets_le s
  have hdiv : ∀ bs : Buckets α,doRehash k bs (max n s.minBuckets)=.error f →
      f=.divisionByZero ∧ n=0 ∧ s.currentSize=0 ∧ bs.flatten≠[] := by
    intro bs hre
    obtain ⟨hf,hzero,hne⟩ := doRehash_fault hre
    have hsize : s.currentSize=0 := by
      by_contra hc
      have hpos := minBuckets_pos hc
      omega
    exact ⟨hf,by omega,hsize,hne⟩
  unfold rehash at h
  dsimp only at h
  split at h
  · exact .inr (hdiv _ (map_eq_error.mp h))
  · split at h
    · obtain rfl := Except.error.inj h
      exact .inl ⟨rfl,by omega⟩
    · have hout := hdiv _ (map_eq_error.mp h)
      rw [flatten_resize] at hout
      exact .inr hout

/-- Room for one more is always made. -/
theorem expand_ok (hs : Sound k s) (hne : s.buckets≠[]) :
    ∃ s',expand k s=.ok s' ∧ Rehashed k s s' ∧ s'.buckets≠[] ∧
      (s.currentSize < s.currentLimit → s'=s) ∧
      (s.currentLimit≤ s.currentSize → s.buckets.length≤ maxSize/2 →
        s'.buckets.length=max (s.buckets.length*2) s.minBuckets ∧
        s'.currentLimit=s.currentLimit*2%2^64) ∧
      (s.currentLimit≤ s.currentSize → ¬s.buckets.length≤ maxSize/2 →
        s'={s with currentLimit := 2^64-1}) := by
  have hpos : 0 < s.buckets.length := List.length_pos_of_ne_nil hne
  unfold expand
  by_cases hfull : s.currentSize ≥ s.currentLimit
  · rw [if_pos hfull]
    by_cases hmax : s.buckets.length≤ maxSize/2
    · rw [if_pos hmax]
      cases hre : rehash k s (s.buckets.length*2) with
      | error f =>
        obtain ⟨-,hlt⟩ | ⟨-,hzero,-⟩ := rehash_fault hre
        · omega
        · omega
      | ok s' =>
        obtain ⟨hkept,hlim,hlen⟩ := rehash_ok hre
        refine ⟨_,rfl,⟨hkept.perm,hkept.placed,hkept.currentSize⟩,?_,fun h => by omega,
          fun _ _ => ⟨hlen,by dsimp only; rw [hlim]⟩,fun _ h => absurd hmax h⟩
        refine List.ne_nil_of_length_pos ?_
        dsimp only
        omega
    · rw [if_neg hmax]
      exact ⟨_,rfl,⟨List.Perm.refl _,hs.placed,rfl⟩,hne,fun h => by omega,
        fun _ h => absurd h hmax,fun _ _ => rfl⟩
  · rw [if_neg hfull]
    exact ⟨s,rfl,⟨List.Perm.refl _,hs.placed,rfl⟩,hne,fun _ => rfl,fun h => absurd h hfull,
      fun h => absurd h hfull⟩

/-- `s'` is `s` with an element made from `v` at the position `p`. -/
structure Added (k : Keyed α) (s s' : HashSet α) (v : α) (p : Nat × Nat) : Prop where
  sound : Sound k s'
  perm : s'.buckets.flatten.Perm (k.construct v::s.buckets.flatten)
  elem : s'.buckets.elem p=some (k.construct v)
  currentSize : s'.currentSize=(s.currentSize+1)%2^64
  ne_nil : s'.buckets≠[]

theorem added_insertNode (hs : Sound k s) (hne : s.buckets≠[])
    (hv : ∀ x∈s.buckets.flatten,k.keyEqualF x v=false) :
    Added k s (insertNode k s v).1 v (insertNode k s v).2.1 := by
  have hpos : 0 < s.buckets.length := List.length_pos_of_ne_nil hne
  have hlt : k.hashF v%s.buckets.length < s.buckets.length := Nat.mod_lt _ hpos
  have hperm : (insertNode k s v).1.buckets.flatten.Perm (k.construct v::s.buckets.flatten) :=
    Buckets.perm_put hlt
  have hlen : (insertNode k s v).1.buckets.length=s.buckets.length := Buckets.length_put
  refine ⟨⟨?_,?_⟩,hperm,Buckets.elem_put hlt,rfl,?_⟩
  · rw [hlen]
    exact hs.placed.put (slot_eq (k.construct_equal v) _)
  · refine (hperm.pairwise_iff keyEqualF_symm).mpr (List.pairwise_cons.mpr ⟨fun x hx => ?_,hs.apart⟩)
    have hxv := hv x hx
    cases heq : k.keyEqualF (k.construct v) x with
    | false => rfl
    | true =>
      have hvx := k.trans _ _ _ (k.symm _ _ (k.construct_equal v)) heq
      rw [k.symm _ _ hvx] at hxv
      cases hxv
  · exact List.ne_nil_of_length_pos (by omega)

theorem Added.of_rehashed {s₁ : HashSet α} (h : Added k s₁ s' v p) (hr : Rehashed k s s₁) :
    Added k s s' v p :=
  ⟨h.sound,h.perm.trans (hr.perm.cons _),h.elem,by rw [h.currentSize,hr.currentSize],h.ne_nil⟩

/-- An element is made from the value, unless one that is equal to it is stored. -/
theorem doInsert_ok (hs : Sound k s) (v : α) :
    (∃ p x,doInsert k s v=.ok (s,p,false) ∧ s.buckets.elem p=some x ∧ k.keyEqualF x v=true) ∨
    (∀ x∈s.buckets.flatten,k.keyEqualF x v=false) ∧
      ∃ s' p,doInsert k s v=.ok (s',p,true) ∧ Added k s s' v p := by
  unfold doInsert
  split
  · next he =>
    have hnil := flatten_of_isEmpty he
    refine .inr ⟨fun x hx => ?_,_,_,rfl,?_⟩
    · rw [hnil] at hx
      cases hx
    · have hflat : (List.replicate 4 ([] : List α)).flatten=[] := rfl
      refine Added.of_rehashed (added_insertNode ⟨placed_of_flatten hflat,List.Pairwise.nil⟩
        (List.cons_ne_nil _ _) fun x hx => ?_) ⟨?_,placed_of_flatten hflat,rfl⟩
      · cases hx
      · rw [hnil]
        exact List.Perm.refl _
  · next he =>
    split
    · next p hp =>
      obtain ⟨x,hx,heq⟩ := findIn_some hp
      exact .inl ⟨p,x,rfl,hx,heq⟩
    · next hnone =>
      have hv : ∀ x∈s.buckets.flatten,k.keyEqualF x v=false := fun x hx =>
        findIn_none hs.placed hnone hx
      have hne : s.buckets≠[] := fun h => he (by rw [h]; rfl)
      obtain ⟨s',hexp,hre,hne',-⟩ := expand_ok hs hne
      rw [hexp]
      have hv' : ∀ x∈s'.buckets.flatten,k.keyEqualF x v=false := fun x hx =>
        hv x (hre.perm.mem_iff.mp hx)
      exact .inr ⟨hv,_,_,rfl,(added_insertNode (hre.sound hs) hne' hv').of_rehashed hre⟩

/-- An element is removed at a position. -/
theorem sound_remove (hs : Sound k s) (h : s.buckets.elem p=some x) :
    Sound k {s with buckets := s.buckets.remove p} ∧
      ∀ y,y∈(s.buckets.remove p).flatten ↔ y∈s.buckets.flatten ∧ y≠x := by
  have hperm := Buckets.perm_remove h
  have hapart := (hperm.pairwise_iff keyEqualF_symm).mpr hs.apart
  obtain ⟨hx,hrest⟩ := List.pairwise_cons.mp hapart
  refine ⟨⟨?_,hrest⟩,fun y => ?_⟩
  · dsimp only
    rw [Buckets.length_remove]
    exact hs.placed.remove p
  · rw [← hperm.mem_iff,List.mem_cons]
    constructor
    · intro hy
      refine ⟨.inr hy,fun heq => ?_⟩
      have hself := hx y hy
      rw [heq,k.refl x] at hself
      cases hself
    · intro ⟨hor,hne⟩
      exact hor.resolve_left hne

theorem Rehashed.refl (hs : Sound k s) : Rehashed k s s := ⟨List.Perm.refl _,hs.placed,rfl⟩

/-- What a call changes in a set -/
inductive Changed (k : Keyed α) (s : HashSet α) : Op α → HashSet α → Prop where
  | added {v : α} {p : Nat × Nat} {s' : HashSet α} (hv : ∀ x∈s.buckets.flatten,k.keyEqualF x v=false)
      (h : Added k s s' v p) : Changed k s (.insert v) s'
  | present {v x : α} (hx : x∈s.buckets.flatten) (heq : k.keyEqualF x v=true) :
      Changed k s (.insert v) s
  | erased {v x : α} {p : Nat × Nat} (hx : s.buckets.elem p=some x) (heq : k.keyEqualF x v=true) :
      Changed k s (.erase v) {s with buckets := s.buckets.remove p}
  | absent {v : α} (hv : ∀ x∈s.buckets.flatten,k.keyEqualF x v=false) : Changed k s (.erase v) s
  | erasedAt {x : α} {p : Nat × Nat} (hx : s.buckets.elem p=some x) :
      Changed k s (.eraseAt p) {s with buckets := s.buckets.remove p}
  | rehashed {n : Nat} {s' : HashSet α} (h : Rehashed k s s') : Changed k s (.rehash n) s'
  | cleared : Changed k s .clear clear

theorem changed_of_apply {o : Op α} (hs : Sound k s) (h : apply k s o=some s') : Changed k s o s' := by
  cases o with
  | insert v =>
    simp only [apply] at h
    obtain ⟨p,x,hins,hx,heq⟩ | ⟨hv,s₁,p,hins,hadd⟩ := doInsert_ok hs v
    · rw [hins] at h
      cases h
      exact .present (Buckets.elem_mem_flatten hx) heq
    · rw [hins] at h
      cases h
      exact .added hv hadd
  | erase v =>
    simp only [apply,erase,Option.some.injEq] at h
    cases hf : find k s v with
    | none =>
      rw [hf] at h
      cases h
      exact .absent fun x hx => find_none hs hf hx
    | some p =>
      rw [hf] at h
      cases h
      obtain ⟨x,hx,heq⟩ := find_some hf
      exact .erased hx heq
  | eraseAt p =>
    obtain ⟨x,hx,rfl⟩ := Option.map_eq_some_iff.mp h
    exact .erasedAt hx
  | rehash n =>
    simp only [apply] at h
    cases hre : rehash k s n with
    | ok s₁ =>
      rw [hre] at h
      cases h
      exact .rehashed (rehash_ok hre).1
    | error f =>
      rw [hre] at h
      cases f with
      | lengthError =>
        cases h
        exact .rehashed (.refl hs)
      | divisionByZero => cases h
  | clear =>
    cases h
    exact .cleared

theorem Changed.sound {o : Op α} (h : Changed k s o s') (hs : Sound k s) : Sound k s' := by
  cases h with
  | added _ h => exact h.sound
  | present => exact hs
  | erased hx => exact (sound_remove hs hx).1
  | absent => exact hs
  | erasedAt hx => exact (sound_remove hs hx).1
  | rehashed h => exact h.sound hs
  | cleared => exact sound_new

end Dinit.HashSet
