import Dinit.EventLoop.HeapRun
import Mathlib.Data.List.Nodup

namespace Dinit

open Framework LevelOrder

namespace DaryHeap

variable {T P : Type}

/-- The priority that a handle is queued with. -/
def contents (h : DaryHeap T P) (a : Nat) : Option P := (h.heapIndex a).map h.prio

/-- The first `n` nodes belong to the handles of `A` that have an index, each to one. -/
structure Linked (A : List Nat) (n : Nat) (h : DaryHeap T P) : Prop where
  node : ∀ i, i<n → (h.hvec i).hnd ∈ A ∧ h.heapIndex (h.hvec i).hnd=some i
  handle : ∀ a ∈ A, ∀ i, h.heapIndex a=some i → i<n ∧ (h.hvec i).hnd=a

/-- The same but for the position `pos`, which is meant for the handle `a`. -/
structure LinkedOff (A : List Nat) (n pos a : Nat) (h : DaryHeap T P) : Prop where
  mem : a ∈ A
  lt : pos<n
  node : ∀ i, i<n → i≠pos →
    (h.hvec i).hnd ∈ A ∧ (h.hvec i).hnd≠a ∧ h.heapIndex (h.hvec i).hnd=some i
  handle : ∀ b ∈ A, b≠a → ∀ i, h.heapIndex b=some i → i<n ∧ i≠pos ∧ (h.hvec i).hnd=b

/-- What the loops leave as it is. -/
structure Alike (h h' : DaryHeap T P) : Prop where
  size : h'.size=h.size
  capacity : h'.capacity=h.capacity
  numNodes : h'.numNodes=h.numNodes
  nodeData : h'.nodeData=h.nodeData

theorem Alike.trans {h h' h'' : DaryHeap T P} (h1 : h.Alike h') (h2 : h'.Alike h'') : h.Alike h'' :=
  ⟨h2.size.trans h1.size,h2.capacity.trans h1.capacity,h2.numNodes.trans h1.numNodes,
    h2.nodeData.trans h1.nodeData⟩

@[simp] theorem prio_place (h : DaryHeap T P) (pos a : Nat) (p : P) :
    (h.place pos a p).prio=Function.update h.prio pos p := by
  funext i
  by_cases hi : i=pos <;> simp [prio,place,hi]

@[simp] theorem prio_move (h : DaryHeap T P) (pos src : Nat) :
    (h.move pos src).prio=Function.update h.prio pos (h.prio src) :=
  prio_place h pos _ _

theorem alike_place (h : DaryHeap T P) (pos a : Nat) (p : P) : h.Alike (h.place pos a p) :=
  ⟨rfl,rfl,rfl,rfl⟩

section
variable {A : List Nat} {n pos src a b : Nat} {p : P} {h : DaryHeap T P}

theorem Linked.inj (hl : h.Linked A n) {i j : Nat} (hi : i<n) (hj : j<n)
    (hh : (h.hvec i).hnd=(h.hvec j).hnd) : i=j := by
  have h1 := (hl.node i hi).2
  rw [hh,(hl.node j hj).2] at h1
  exact (Option.some.inj h1).symm

theorem LinkedOff.move (hl : h.LinkedOff A n pos a) (hs : src<n) (hne : src≠pos) :
    (h.move pos src).LinkedOff A n src a := by
  obtain ⟨hA,hb,hi⟩ := hl.node src hs hne
  refine ⟨hl.mem,hs,fun i hin his => ?_,fun b hbA hba i hbi => ?_⟩
  · by_cases hip : i=pos
    · subst hip
      simp [DaryHeap.move,place,hA,hb]
    · obtain ⟨h1,h2,h3⟩ := hl.node i hin hip
      have hne' : (h.hvec i).hnd≠(h.hvec src).hnd := by
        intro heq
        rw [heq,hi] at h3
        exact his (Option.some.inj h3).symm
      simp [DaryHeap.move,place,hip,h1,h2,h3,hne']
  · by_cases hbs : b=(h.hvec src).hnd
    · obtain rfl : pos=i := by simpa [DaryHeap.move,place,hbs] using hbi
      exact ⟨hl.lt,hne.symm,by simp [DaryHeap.move,place,hbs]⟩
    · obtain ⟨h1,h2,h3⟩ := hl.handle b hbA hba i (by simpa [DaryHeap.move,place,hbs] using hbi)
      refine ⟨h1,fun he => hbs (he ▸ h3).symm,?_⟩
      simpa [DaryHeap.move,place,h2] using h3

theorem LinkedOff.contents_move (hl : h.LinkedOff A n pos a) (hs : src<n) (hne : src≠pos)
    (hbA : b ∈ A) (hba : b≠a) : (h.move pos src).contents b=h.contents b := by
  obtain ⟨-,-,hi⟩ := hl.node src hs hne
  simp only [contents,prio_move]
  by_cases hbs : b=(h.hvec src).hnd
  · simp [DaryHeap.move,place,hbs,hi]
  · have hidx : (h.move pos src).heapIndex b=h.heapIndex b := by
      simp [DaryHeap.move,place,hbs]
    rw [hidx]
    cases hbi : h.heapIndex b with
    | none => rfl
    | some i => simp [(hl.handle b hbA hba i hbi).2.1]

theorem LinkedOff.place (hl : h.LinkedOff A n pos a) : (h.place pos a p).Linked A n := by
  refine ⟨fun i hi => ?_,fun b hbA i hbi => ?_⟩
  · by_cases hip : i=pos
    · subst hip
      simp [DaryHeap.place,hl.mem]
    · obtain ⟨h1,h2,h3⟩ := hl.node i hi hip
      simp [DaryHeap.place,hip,h1,h2,h3]
  · by_cases hba : b=a
    · obtain rfl : pos=i := by simpa [DaryHeap.place,hba] using hbi
      exact ⟨hl.lt,by simp [DaryHeap.place,hba]⟩
    · obtain ⟨h1,h2,h3⟩ := hl.handle b hbA hba i (by simpa [DaryHeap.place,hba] using hbi)
      exact ⟨h1,by simpa [DaryHeap.place,h2] using h3⟩

theorem LinkedOff.contents_place (hl : h.LinkedOff A n pos a) (hbA : b ∈ A) (hba : b≠a) :
    (h.place pos a p).contents b=h.contents b := by
  have hidx : (h.place pos a p).heapIndex b=h.heapIndex b := by simp [DaryHeap.place,hba]
  simp only [contents,prio_place,hidx]
  cases hbi : h.heapIndex b with
  | none => rfl
  | some i => simp [(hl.handle b hbA hba i hbi).2.1]

theorem contents_place_self : (h.place pos a p).contents a=some p := by
  simp [contents,DaryHeap.place,prio]

end

/-- A round of a loop: the heap `h` has its hole at `pos`, and was `h₀` at first. -/
structure Sifting (A : List Nat) (n a : Nat) (h₀ h : DaryHeap T P) (pos : Nat) : Prop where
  linked : h.LinkedOff A n pos a
  alike : h₀.Alike h
  others : ∀ b ∈ A, b≠a → h.contents b=h₀.contents b

/-- A loop has ended: the handle `a` is queued with the priority `p`. -/
structure Placed (A : List Nat) (n a : Nat) (p : P) (h₀ h : DaryHeap T P) : Prop where
  linked : h.Linked A n
  alike : h₀.Alike h
  self : h.contents a=some p
  others : ∀ b ∈ A, b≠a → h.contents b=h₀.contents b

section
variable {A : List Nat} {n pos src a : Nat} {p : P} {h₀ h : DaryHeap T P}

theorem LinkedOff.sifting (hl : h.LinkedOff A n pos a) : Sifting A n a h h pos :=
  ⟨hl,⟨rfl,rfl,rfl,rfl⟩,fun _ _ _ => rfl⟩

theorem Sifting.move (hs : Sifting A n a h₀ h pos) (hsrc : src<n) (hne : src≠pos) :
    Sifting A n a h₀ (h.move pos src) src :=
  ⟨hs.linked.move hsrc hne,hs.alike.trans (alike_place h pos _ _),fun b hbA hba =>
    (hs.linked.contents_move hsrc hne hbA hba).trans (hs.others b hbA hba)⟩

theorem Sifting.place (hs : Sifting A n a h₀ h pos) : Placed A n a p h₀ (h.place pos a p) :=
  ⟨hs.linked.place,hs.alike.trans (alike_place h pos _ _),contents_place_self,fun b hbA hba =>
    (hs.linked.contents_place hbA hba).trans (hs.others b hbA hba)⟩

end

variable [LinearOrder P] {N rmax : Nat} {A : List Nat} {n pos a : Nat} {p : P} {h : DaryHeap T P}

theorem child_spec [NeZero N] (hr : 0< rmax) (hpos : pos≤ (rmax-1)/N) :
    let c := h.child N rmax pos
    IsChild N pos c ∧ c≤ rmax ∧ (c=rmax → rmax=pos*N+1) ∧
      ∀ d, IsChild N pos d → d< rmax → h.prio c≤ h.prio d := by
  have hN := Nat.pos_of_neZero N
  have hlast : pos*N≤ rmax-1 := (Nat.le_div_iff_mul_le hN).mp hpos
  simp only [isChild_iff hN]
  rcases Nat.lt_or_ge (pos*N+1) rmax with hl | hl
  · obtain ⟨h1,h2,h3⟩ := h.selectChild_spec
      (show pos*N+1< min (pos*N+1+N) rmax by omega)
    unfold child
    exact ⟨by omega,by omega,by omega,fun d hd hdn => h3 d (by omega) (by omega)⟩
  · have hc : h.child N rmax pos=pos*N+1 := h.selectChild_single (by omega)
    rw [hc]
    exact ⟨by omega,by omega,by omega,fun d hd hdn => by omega⟩

theorem bubbleDown_placed {h₀ : DaryHeap T P} (hs : Sifting A n a h₀ h pos) :
    let r := h.bubbleDown N pos a p
    Placed A n a p h₀ r.1 ∧ (r.2=true ↔ r.1.getRoot=a) := by
  refine bubbleDown_rule (M := Sifting A n a h₀)
    (Q := fun r => Placed A n a p h₀ r.1 ∧ (r.2=true ↔ r.1.getRoot=a)) ?_ ?_ hs
  · intro h pos hs hpos _
    have hlt : parent N pos<pos := parent_lt hpos
    exact hs.move (hlt.trans hs.linked.lt) hlt.ne
  · intro h pos hs _
    refine ⟨hs.place,?_⟩
    by_cases h0 : pos=0
    · simp [h0,getRoot,place]
    · have hroot := hs.linked.node 0 (by have := hs.linked.lt; omega) (Ne.symm h0)
      simp [h0,getRoot,place,Ne.symm h0,hroot.2.1]

/-- `bubble_up` with the last node among the others, or with the last node itself. -/
theorem bubbleUpFrom_placed [NeZero N] {h₀ : DaryHeap T P} (hr : 0< rmax)
    (hlast : rmax<n ∨ n=rmax ∧ h.prio rmax=p) (hs : Sifting A n a h₀ h pos) :
    Placed A n a p h₀ (h.bubbleUpFrom N rmax pos a p) := by
  refine bubbleUpFrom_rule
    (M := fun h pos => Sifting A n a h₀ h pos ∧ (rmax<n ∨ n=rmax ∧ h.prio rmax=p)) ?_ ?_ ⟨hs,hlast⟩
  · rintro h pos ⟨hs,hlast⟩ hpos hlt
    obtain ⟨hc,hle,-⟩ := child_spec (h := h) hr hpos
    have hcn : h.child N rmax pos<n := by
      rcases hlast with hlast | ⟨hn,hlast⟩
      · omega
      · rw [hn]
        refine lt_of_le_of_ne hle fun he => ?_
        rw [he,hlast] at hlt
        exact lt_irrefl p hlt
    refine ⟨hs.move hcn hc.lt.ne',hlast.imp_right fun ⟨hn,hlast⟩ => ⟨hn,?_⟩⟩
    have hne : rmax≠pos := by have := hs.linked.lt; omega
    simpa [hne] using hlast
  · rintro h pos ⟨hs,-⟩ _
    exact hs.place

/-- The node at the position `i` is gone, and its handle no longer queued. -/
structure Removed (A : List Nat) (i : Nat) (h h' : DaryHeap T P) : Prop where
  linked : h'.Linked A (h.size-1)
  size : h'.size=h.size-1
  alike : h'.capacity=h.capacity ∧ h'.numNodes=h.numNodes ∧ h'.nodeData=h.nodeData
  self : h'.contents (h.hvec i).hnd=none
  others : ∀ b ∈ A, b≠(h.hvec i).hnd → h'.contents b=h.contents b

theorem removeH_removed [NeZero N] {i : Nat} (hl : h.Linked A h.size) (hi : i<h.size) :
    Removed A i h (h.removeH N i) := by
  set h1 : DaryHeap T P := { h with heapIndex := Function.update h.heapIndex (h.hvec i).hnd none }
    with hh1
  have hother (b : Nat) (hb : b≠(h.hvec i).hnd) : h1.contents b=h.contents b := by
    show (h1.heapIndex b).map h.prio=_
    simp [hh1,contents,hb]
  have hself : h1.contents (h.hvec i).hnd=none := by simp [hh1,contents]
  -- the other nodes are linked as before
  have hnode (j : Nat) (hj : j<h.size) (hji : j≠i) :
      (h.hvec j).hnd ∈ A ∧ h1.heapIndex (h.hvec j).hnd=some j := by
    have hne : (h.hvec j).hnd≠(h.hvec i).hnd := fun he => hji (hl.inj hj hi he)
    simp [hh1,hne,(hl.node j hj).1,(hl.node j hj).2]
  have hhandle (b : Nat) (hb : b ∈ A) (j : Nat) (hbj : h1.heapIndex b=some j) :
      j<h.size ∧ j≠i ∧ (h.hvec j).hnd=b := by
    have hne : b≠(h.hvec i).hnd := by
      rintro rfl
      simp [hh1] at hbj
    obtain ⟨h1,h2⟩ := hl.handle b hb j (by simpa [hh1,hne] using hbj)
    exact ⟨h1,fun hji => hne (by rw [← h2,hji]),h2⟩
  have hr : h.removeH N i=if h.size≠i+1 then
      (h1.bubbleUp N i (h.hvec (h.size-1)).hnd (h.prio (h.size-1))).popBack else h1.popBack := rfl
  rw [hr]
  split_ifs with hlast
  · have hlt : i<h.size-1 := by omega
    have hoff : h1.LinkedOff A (h.size-1) i (h.hvec (h.size-1)).hnd := by
      refine ⟨(hl.node _ (by omega)).1,hlt,fun j hj hji => ?_,fun b hb hbl j hbj => ?_⟩
      · obtain ⟨h2,h3⟩ := hnode j (by omega) hji
        exact ⟨h2,fun he => absurd (hl.inj (by omega) (by omega) he) hj.ne,h3⟩
      · obtain ⟨h2,h3,h4⟩ := hhandle b hb j hbj
        refine ⟨lt_of_le_of_ne (by omega) fun hj => hbl ?_,h3,h4⟩
        rw [← h4,hj]
    have hp : Placed A (h.size-1) (h.hvec (h.size-1)).hnd (h.prio (h.size-1)) h1
        (h1.bubbleUp N i (h.hvec (h.size-1)).hnd (h.prio (h.size-1))) := by
      have hsize : h1.size=h.size := rfl
      rw [bubbleUp,if_neg (by omega)]
      exact bubbleUpFrom_placed (by omega) (.inr ⟨by omega,rfl⟩) hoff.sifting
    have hne : (h.hvec i).hnd≠(h.hvec (h.size-1)).hnd := fun he => hlt.ne (hl.inj hi (by omega) he)
    refine ⟨⟨hp.linked.node,hp.linked.handle⟩,congrArg (·-1) hp.alike.size,⟨hp.alike.capacity,hp.alike.numNodes,
      hp.alike.nodeData⟩,(hp.others _ (hl.node i hi).1 hne).trans hself,fun b hb hbi => ?_⟩
    by_cases hbl : b=(h.hvec (h.size-1)).hnd
    · rw [hbl]
      refine hp.self.trans ?_
      simp [contents,(hl.node (h.size-1) (by omega)).2]
    · exact (hp.others b hb hbl).trans (hother b hbi)
  · have hsize : h.size-1=i := by omega
    refine ⟨⟨fun j hj => hnode j (by omega) (by omega),fun b hb j hbj => ?_⟩,rfl,⟨rfl,rfl,rfl⟩,
      hself,fun b _ hb => hother b hb⟩
    obtain ⟨h2,h3,h4⟩ := hhandle b hb j hbj
    exact ⟨by omega,h4⟩

theorem setPriority_placed [NeZero N] {r : DaryHeap T P × Bool} (hl : h.Linked A h.size)
    (ha : a ∈ A) (hr : h.setPriority N a p=some r) :
    Placed A h.size a p h r.1 ∧ (r.2=true → r.1.getRoot=a) ∧
      (r.2=false → r.1.getRoot=a → ∃ p₀,h.contents a=some p₀ ∧ p₀<p) := by
  obtain ⟨i,hai,rfl⟩ := Option.map_eq_some_iff.mp hr
  obtain ⟨hi,hia⟩ := hl.handle a ha i hai
  set h1 : DaryHeap T P := { h with hvec := Function.update h.hvec i ⟨p,(h.hvec i).hnd⟩ } with hh1
  have hothers (b : Nat) (hb : b ∈ A) (hba : b≠a) : h1.contents b=h.contents b := by
    simp only [contents,hh1]
    cases hbj : h.heapIndex b with
    | none => rfl
    | some j =>
      have hji : j≠i := fun he => hba (by rw [← (hl.handle b hb j hbj).2,he,hia])
      simp [prio,hji]
  have hoff : h1.LinkedOff A h.size i a := by
    refine ⟨ha,hi,fun j hj hji => ?_,fun b hb hba j hbj => ?_⟩
    · have hne : (h.hvec j).hnd≠a := fun he => hji (hl.inj hj hi (he.trans hia.symm))
      simp [hh1,hji,hne,hl.node j hj]
    · obtain ⟨h2,h3⟩ := hl.handle b hb j hbj
      have hji : j≠i := fun he => hba (by rw [← h3,he,hia])
      exact ⟨h2,hji,by simp [hh1,hji,h3]⟩
  have hs : Sifting A h.size a h h1 i := ⟨hoff,⟨rfl,rfl,rfl,rfl⟩,hothers⟩
  rw [hia]
  split_ifs with hlt
  · refine ⟨?_,by simp,fun _ _ => ⟨h.prio i,by simp [contents,hai],hlt⟩⟩
    unfold bubbleUp
    dsimp only
    split_ifs with hsize
    · -- the only node stays where it is
      have hsize : h.size-1=0 := hsize
      obtain rfl : i=0 := by omega
      refine ⟨⟨fun j hj => ?_,fun b hb j hbj => ?_⟩,hs.alike,?_,hothers⟩
      · obtain rfl : j=0 := by omega
        simp [hh1,hia,ha,hai]
      · obtain ⟨h2,h3⟩ := hl.handle b hb j hbj
        obtain rfl : j=0 := by omega
        exact ⟨h2,by simpa [hh1] using h3⟩
      · simp [contents,hh1,hai,prio]
    · have hsize' : h1.size=h.size := rfl
      exact bubbleUpFrom_placed (by omega) (.inl (by omega)) hs
  · have hb := bubbleDown_placed (N := N) (p := p) hs
    exact ⟨hb.1,hb.2.mp,fun hf ha => absurd (hb.2.mpr ha) (by simp [hf])⟩

end DaryHeap
end Dinit
