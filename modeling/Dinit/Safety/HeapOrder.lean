import Dinit.Safety.HeapRuns
import Mathlib.Order.MinMax

namespace Dinit

open Framework LevelOrder

namespace DaryHeap

variable {T P : Type} [LinearOrder P] {N rmax n pos i a : Nat} {p : P} {h : DaryHeap T P}

/-- No node has a priority below that of its parent. -/
def Ordered (N : Nat) (h : DaryHeap T P) : Prop := LevelOrder.Ordered N h.prio h.size

theorem bubbleDown_ordered (hr : Rising N h.prio n p pos) :
    LevelOrder.Ordered N (h.bubbleDown N pos a p).1.prio n := by
  refine bubbleDown_rule (M := fun h pos => Rising N h.prio n p pos)
    (Q := fun r => LevelOrder.Ordered N r.1.prio n) ?_ ?_ hr
  · intro h pos hr hpos hlt
    rw [prio_move]
    exact hr.up hpos hlt
  · intro h pos hr hle
    rw [prio_place]
    exact hr.fill hle

variable [NeZero N]

theorem no_child (hpos : ¬pos≤ (rmax-1)/N) {d : Nat} (hd : IsChild N pos d) : rmax<d := by
  have hN := Nat.pos_of_neZero N
  have h1 : rmax-1<pos*N := (Nat.div_lt_iff_lt_mul hN).mp (not_le.mp hpos)
  have h2 := (isChild_iff hN).mp hd
  omega

/-- `bubble_up` over the nodes before the last one: that is the one in hand, or it is not a
first child and so is passed over. -/
theorem bubbleUpFrom_ordered (hr : 0< rmax)
    (hlast : h.prio rmax=p ∨ rmax≠parent N rmax*N+1) (hs : Sinking N h.prio rmax p pos) :
    LevelOrder.Ordered N (h.bubbleUpFrom N rmax pos a p).prio rmax := by
  refine bubbleUpFrom_rule (N := N) (M := fun h pos => Sinking N h.prio rmax p pos ∧
    (h.prio rmax=p ∨ rmax≠parent N rmax*N+1))
    (Q := fun g => LevelOrder.Ordered N g.prio rmax) ?_ ?_ ⟨hs,hlast⟩
  · rintro h pos ⟨hs,hlast⟩ hpos hlt
    obtain ⟨hc,hle,hfirst,hmin⟩ := child_spec (h := h) hr hpos
    have hcr : h.child N rmax pos< rmax := by
      refine lt_of_le_of_ne hle fun he => ?_
      rcases hlast with hlast | hlast
      · rw [he,hlast] at hlt
        exact lt_irrefl p hlt
      · rw [he] at hc
        exact hlast (by rw [hc.parent]; exact hfirst he)
    rw [prio_move]
    refine ⟨hs.down hc hcr hmin hlt,hlast.imp_left fun hp => ?_⟩
    rwa [Function.update_of_ne hs.lt.ne']
  · rintro h pos ⟨hs,-⟩ hle
    rw [prio_place]
    refine hs.fill fun d hd hdn => ?_
    by_cases hpos : pos≤ (rmax-1)/N
    · exact (hle hpos).trans ((child_spec (h := h) hr hpos).2.2.2 d hd hdn)
    · exact absurd (no_child hpos hd) hdn.le.not_gt

/-- `bubble_up` over all nodes, of which the last is a first child. -/
theorem bubbleUpFrom_ordered_first (hr : 0< rmax) (hfirst : rmax=parent N rmax*N+1)
    (hs : Sinking N h.prio (rmax+1) p pos) :
    LevelOrder.Ordered N (h.bubbleUpFrom N rmax pos a p).prio (rmax+1) := by
  have hmin (g : DaryHeap T P) (pos : Nat) (hpos : pos≤ (rmax-1)/N) (d : Nat) (hd : IsChild N pos d)
      (hdn : d< rmax+1) : g.prio (g.child N rmax pos)≤ g.prio d := by
    obtain ⟨hc,hle,-,hmin⟩ := child_spec (h := g) hr hpos
    rcases Nat.lt_succ_iff_lt_or_eq.mp hdn with hdn | rfl
    · exact hmin d hd hdn
    · have h1 := (isChild_iff (Nat.pos_of_neZero N)).mp hc
      rw [hd.parent] at hfirst
      rw [show g.child N d pos=d by omega]
  refine bubbleUpFrom_rule (N := N) (M := fun h pos => Sinking N h.prio (rmax+1) p pos)
    (Q := fun g => LevelOrder.Ordered N g.prio (rmax+1)) ?_ ?_ hs
  · intro h pos hs hpos hlt
    obtain ⟨hc,hle,-⟩ := child_spec (h := h) hr hpos
    rw [prio_move]
    exact hs.down hc (by omega) (hmin h pos hpos) hlt
  · intro h pos hs hle
    rw [prio_place]
    refine hs.fill fun d hd hdn => ?_
    by_cases hpos : pos≤ (rmax-1)/N
    · exact (hle hpos).trans (hmin h pos hpos d hd hdn)
    · have := no_child hpos hd
      omega

/-- The last node may take the place of the one at the position `i`. -/
def LastFits (N : Nat) (h : DaryHeap T P) (i : Nat) : Prop :=
  0< i → i+1<h.size → h.prio (parent N i)≤ h.prio (h.size-1)

/-- Removing a node keeps the order exactly if the last node fits in its place: it is moved
towards the leaves, but never towards the root. -/
theorem removeH_ordered_iff (ho : h.Ordered N) (hi : i<h.size) (hsize : (h.removeH N i).size=h.size-1) :
    (h.removeH N i).Ordered N ↔ h.LastFits N i := by
  set h1 : DaryHeap T P := { h with heapIndex := Function.update h.heapIndex (h.hvec i).hnd none }
    with hh1
  have hr : h.removeH N i=if h.size≠i+1 then
      (h1.bubbleUp N i (h.hvec (h.size-1)).hnd (h.prio (h.size-1))).popBack else h1.popBack := rfl
  unfold Ordered
  rw [hsize,hr]
  split_ifs with hlast
  · have hprio : (h1.bubbleUp N i (h.hvec (h.size-1)).hnd (h.prio (h.size-1))).popBack.prio=
        (h1.bubbleUpFrom N (h.size-1) i (h.hvec (h.size-1)).hnd (h.prio (h.size-1))).prio := by
      have hs1 : h1.size=h.size := rfl
      rw [bubbleUp,if_neg (by omega)]
      rfl
    have hhole : Hole N h1.prio (h.size-1) i := (ho.mono (Nat.sub_le _ 1)).hole i
    rw [hprio]
    constructor
    · -- otherwise the loop would stop at once
      intro hafter h0 _
      by_contra hlt
      have hlt : h.prio (h.size-1)<h.prio (parent N i) := not_le.mp hlt
      have hup : h.prio (parent N i)≤ h.prio i := ho i h0 hi
      have hstop : ∀ hpos : i≤ (h.size-1-1)/N, ¬h1.prio (h1.child N (h.size-1) i)<h.prio (h.size-1) := by
        intro hpos hc
        obtain ⟨h2,h3,-⟩ := child_spec (h := h1) (by omega) hpos
        have hge : h.prio i≤ h.prio (h1.child N (h.size-1) i) := by
          have := ho _ h2.pos (by omega)
          rwa [h2.parent] at this
        exact absurd ((hlt.trans_le (hup.trans hge)).trans hc) (lt_irrefl _)
      have hplace : h1.bubbleUpFrom N (h.size-1) i (h.hvec (h.size-1)).hnd (h.prio (h.size-1))=
          h1.place i (h.hvec (h.size-1)).hnd (h.prio (h.size-1)) := by
        rw [bubbleUpFrom]
        split_ifs with hpos
        · exact if_neg (hstop hpos)
        · rfl
      rw [hplace,prio_place] at hafter
      exact hlt.not_ge (((hhole.fill_iff (by omega)).mp hafter).1 h0)
    · intro hfit
      exact bubbleUpFrom_ordered (by omega) (.inl rfl)
        ⟨hhole,by omega,fun h0 => hfit h0 (by omega)⟩
  · exact iff_of_true (ho.mono (Nat.sub_le _ 1)) fun _ h2 => by omega

/-- With `p` in hand, `bubble_up` from `pos` comes to the position `q`. -/
inductive Sinks (N rmax : Nat) (h : DaryHeap T P) (p : P) : Nat → Nat → Prop
  | here (pos : Nat) : Sinks N rmax h p pos pos
  | down {pos q : Nat} (hpos : pos≤ (rmax-1)/N) (hlt : h.prio (h.child N rmax pos)<p)
      (hs : Sinks N rmax h p (h.child N rmax pos) q) : Sinks N rmax h p pos q

omit [NeZero N] in
theorem sinks_iff {q : Nat} : Sinks N rmax h p pos q ↔
    q=pos ∨ pos≤ (rmax-1)/N ∧ h.prio (h.child N rmax pos)<p ∧ Sinks N rmax h p (h.child N rmax pos) q := by
  constructor
  · intro hs
    cases hs with
    | here => exact .inl rfl
    | down hpos hlt hs => exact .inr ⟨hpos,hlt,hs⟩
  · rintro (rfl | ⟨hpos,hlt,hs⟩)
    · exact .here q
    · exact .down hpos hlt hs

theorem Sinks.le {q : Nat} (hr : 0< rmax) (hs : Sinks N rmax h p pos q) : pos≤ q := by
  induction hs with
  | here pos => exact le_rfl
  | down hpos _ _ ih => exact (child_spec (h := h) hr hpos).1.lt.le.trans ih

/-- A last node that is not a first child is not come by. -/
theorem Sinks.eq_last {q : Nat} (hr : 0< rmax) (hfirst : rmax≠parent N rmax*N+1)
    (hs : Sinks N rmax h p pos q) (hq : q=rmax) : pos=rmax := by
  induction hs with
  | here pos => exact hq
  | down hpos _ _ ih =>
    obtain ⟨hc,-,hcl,-⟩ := child_spec (h := h) hr hpos
    have hlast := ih hq
    rw [hlast] at hc
    exact absurd (by rw [hc.parent]; exact hcl hlast) hfirst

omit [NeZero N] in
theorem child_congr {g : DaryHeap T P} (hg : ∀ j, pos<j → g.prio j=h.prio j) (hN : 0< N) :
    g.child N rmax pos=h.child N rmax pos := by
  have hlt : pos<pos*N+1 := Nat.lt_succ_of_le (Nat.le_mul_of_pos_right pos hN)
  have hfold (is : List Nat) (sel : Nat) (hs : pos< sel) (hi : ∀ i ∈ is, pos< i) :
      is.foldl (fun sel i => if g.prio i<g.prio sel then i else sel) sel=
        is.foldl (fun sel i => if h.prio i<h.prio sel then i else sel) sel := by
    induction is generalizing sel with
    | nil => rfl
    | cons i is ih =>
      have hpi := hi i List.mem_cons_self
      simp only [List.foldl_cons]
      rw [hg i hpi,hg sel hs]
      refine ih _ ?_ fun j hj => hi j (List.mem_cons_of_mem i hj)
      split_ifs
      · exact hpi
      · exact hs
  refine hfold _ _ hlt fun i hi => ?_
  have := (List.mem_range'_1.mp hi).1
  omega

theorem Sinks.congr {g : DaryHeap T P} {q : Nat} (hr : 0< rmax)
    (hg : ∀ j, pos<j → g.prio j=h.prio j) (hs : Sinks N rmax h p pos q) : Sinks N rmax g p pos q := by
  induction hs with
  | here pos => exact .here pos
  | down hpos hlt hs ih =>
    have hc : _=h.child N rmax _ := child_congr hg (Nat.pos_of_neZero N)
    have hpc := (child_spec (h := h) hr hpos).1.lt
    refine .down hpos ?_ ?_
    · rw [hc,hg _ hpc]
      exact hlt
    · rw [hc]
      exact ih fun j hj => hg j (hpc.trans hj)

/-- Where `bubble_up` comes by, the smaller of the node in hand and the selected child stays. -/
theorem bubbleUpFrom_prio (hr : 0< rmax) (pos q : Nat) :
    (Sinks N rmax h p pos q → q≤ (rmax-1)/N →
      (h.bubbleUpFrom N rmax pos a p).prio q=min p (h.prio (h.child N rmax q))) ∧
    (¬Sinks N rmax h p pos q → (h.bubbleUpFrom N rmax pos a p).prio q=h.prio q) := by
  induction h, pos using bubbleUpFrom.induct N rmax (p := p) with
  | case1 h pos hpos lchild sel hlt ih =>
    rw [bubbleUpFrom,dif_pos hpos,if_pos hlt]
    have hsel : sel=h.child N rmax pos := rfl
    have hpc : pos< sel := (child_spec (h := h) hr hpos).1.lt
    have hmove (j : Nat) (hj : j≠pos) : (h.move pos sel).prio j=h.prio j := by
      rw [prio_move,Function.update_of_ne hj]
    have hiff : Sinks N rmax (h.move pos sel) p sel q ↔ Sinks N rmax h p sel q :=
      ⟨Sinks.congr hr fun j hj => (hmove j (by omega)).symm,Sinks.congr hr fun j hj => hmove j (by omega)⟩
    obtain ⟨ih1,ih2⟩ := ih
    rw [hiff] at ih1 ih2
    constructor
    · intro hs hq
      rcases sinks_iff.mp hs with hqp | ⟨-,-,hs⟩
      · have hnot : ¬Sinks N rmax h p sel q := fun hs => by
          have := hs.le hr
          omega
        refine (ih2 hnot).trans ?_
        rw [hqp,prio_move,Function.update_self,← hsel]
        exact (min_eq_right hlt.le).symm
      · rw [← hsel] at hs
        have hle := hs.le hr
        refine (ih1 hs hq).trans ?_
        have hcq : (h.move pos sel).child N rmax q=h.child N rmax q :=
          child_congr (fun j hj => hmove j (by omega)) (Nat.pos_of_neZero N)
        have := (child_spec (h := h) hr hq).1.lt
        rw [hcq,hmove _ (by omega)]
    · intro hs
      have hq : q≠pos := by
        rintro rfl
        exact hs (.here q)
      exact (ih2 fun h' => hs (.down hpos hlt h')).trans (hmove q hq)
  | case2 h pos hpos lchild sel hlt =>
    rw [bubbleUpFrom,dif_pos hpos,if_neg hlt,prio_place]
    constructor
    · intro hs _
      rcases sinks_iff.mp hs with hqp | ⟨-,hlt',-⟩
      · rw [hqp,Function.update_self]
        exact (min_eq_left (not_lt.mp hlt)).symm
      · exact absurd hlt' hlt
    · intro hs
      exact Function.update_of_ne (fun he => hs (by rw [he]; exact .here pos)) _ _
  | case3 h pos hpos =>
    rw [bubbleUpFrom,dif_neg hpos,prio_place]
    constructor
    · intro hs hq
      rcases sinks_iff.mp hs with hqp | ⟨hpos',-,-⟩
      · exact absurd (hqp ▸ hq) hpos
      · exact absurd hpos' hpos
    · intro hs
      exact Function.update_of_ne (fun he => hs (by rw [he]; exact .here pos)) _ _

/-- The last node is a child that `bubble_up` passes over, and yet is not the smaller one where
the node from `i`, with its priority raised to `p`, comes by. -/
def LastSpared (N : Nat) (h : DaryHeap T P) (i : Nat) (p : P) : Prop :=
  let l := h.size-1
  let q := parent N l
  h.prio i<p → 0<l → l≠q*N+1 → Sinks N l h p i q → p≤ h.prio l ∨ h.prio (h.child N l q)≤ h.prio l

theorem LastSpared.congr {g : DaryHeap T P} (hg : g.prio=h.prio) (hs : g.size=h.size)
    (hf : h.LastSpared N i p) : g.LastSpared N i p := by
  unfold LastSpared at hf ⊢
  have hchild (pos : Nat) : g.child N (h.size-1) pos=h.child N (h.size-1) pos := by
    unfold child selectChild
    rw [hg]
  dsimp only at hf ⊢
  rw [hs,hg,hchild]
  exact fun h1 h2 h3 h4 => hf h1 h2 h3 (h4.congr h2 fun j _ => congrFun hg.symm j)

/-- The last node's priority is raised: it has nowhere to go. -/
theorem bubbleUpFrom_self {g : DaryHeap T P} (hs : Sinking N g.prio h.size p i) (hil : i=h.size-1) (hl : 0<h.size-1) :
    LevelOrder.Ordered N (g.bubbleUpFrom N (h.size-1) i a p).prio h.size ∧ h.LastSpared N i p := by
  have hpos : ¬i≤ (h.size-1-1)/N := by
    have := Nat.div_le_self (h.size-1-1) N
    omega
  refine ⟨?_,fun _ _ _ hs => ?_⟩
  · rw [bubbleUpFrom,dif_neg hpos,prio_place]
    refine hs.fill fun d hd hdn => ?_
    have := hd.lt
    omega
  · have h2 := hs.le hl
    have h3 : parent N (h.size-1)<h.size-1 := parent_lt hl
    omega

section
variable {g : DaryHeap T P} (hg : ∀ k, k≠i → g.prio k=h.prio k)
include hg

/-- A raised priority, where the last node is not a first child: the others are in order then,
and the last one is not touched. -/
theorem bubbleUpFrom_last_iff (ho : h.Ordered N) (hi : i<h.size-1) (hlt : h.prio i<p)
    (hfirst : h.size-1≠parent N (h.size-1)*N+1)
    (hs : Sinking N g.prio (h.size-1) p i) :
    LevelOrder.Ordered N (g.bubbleUpFrom N (h.size-1) i a p).prio h.size ↔ h.LastSpared N i p := by
  have hl : 0<h.size-1 := by omega
  have hord : LevelOrder.Ordered N (g.bubbleUpFrom N (h.size-1) i a p).prio (h.size-1) :=
    bubbleUpFrom_ordered hl (.inr hfirst) hs
  have hlast : (g.bubbleUpFrom N (h.size-1) i a p).prio (h.size-1)=h.prio (h.size-1) :=
    ((bubbleUpFrom_prio hl i (h.size-1)).2 fun hs =>
      hi.ne (hs.eq_last hl hfirst rfl)).trans (hg _ hi.ne')
  have hq : parent N (h.size-1)≤ (h.size-1-1)/N := le_rfl
  have hsinks : Sinks N (h.size-1) g p i (parent N (h.size-1)) ↔
      Sinks N (h.size-1) h p i (parent N (h.size-1)) :=
    ⟨Sinks.congr hl fun k hk => (hg k (by omega)).symm,Sinks.congr hl fun k hk => hg k (by omega)⟩
  -- the child of the last node's parent lies below the node that has been raised
  have hchild (hs : Sinks N (h.size-1) h p i (parent N (h.size-1))) :
      g.prio (g.child N (h.size-1) (parent N (h.size-1)))=
        h.prio (h.child N (h.size-1) (parent N (h.size-1))) := by
    have hiq := hs.le hl
    have hqc := (child_spec (h := h) hl hq).1.lt
    rw [child_congr (fun k hk => hg k (by omega)) (Nat.pos_of_neZero N),hg _ (by omega)]
  obtain ⟨h2,h3⟩ := bubbleUpFrom_prio (N := N) (h := g) (p := p) (a := a) hl i
    (parent N (h.size-1))
  rw [hsinks] at h2 h3
  rw [ordered_last_iff (by omega),hlast]
  constructor
  · rintro ⟨-,hle⟩ _ _ _ hs
    rwa [h2 hs hq,min_le_iff,hchild hs] at hle
  · refine fun hsp => ⟨hord,?_⟩
    by_cases hs : Sinks N (h.size-1) h p i (parent N (h.size-1))
    · rw [h2 hs hq,min_le_iff,hchild hs]
      exact hsp hlt hl hfirst hs
    · have hne : parent N (h.size-1)≠i := fun he => hs (he ▸ .here _)
      rw [h3 hs,hg _ hne]
      exact ho _ hl (by omega)

theorem bubbleUp_ordered_iff (ho : h.Ordered N) (hi : i<h.size) (hgs : g.size=h.size)
    (hlt : h.prio i<p) :
    LevelOrder.Ordered N (g.bubbleUp N i a p).prio h.size ↔ h.LastSpared N i p := by
  have hs (n : Nat) (hn : n≤ h.size) (hin : i<n) : Sinking N g.prio n p i := by
    refine ⟨((ho.mono hn).hole i).congr fun k _ hk => hg k hk,hin,fun h0 => ?_⟩
    rw [hg _ (parent_lt h0).ne]
    exact (ho i h0 hi).trans hlt.le
  unfold bubbleUp
  dsimp only
  rw [hgs]
  split_ifs with hl
  · exact iff_of_true (fun k h0 hk => by omega) fun _ h0 => by omega
  have hl : 0<h.size-1 := Nat.pos_of_ne_zero hl
  by_cases hfirst : h.size-1=parent N (h.size-1)*N+1
  · refine iff_of_true ?_ fun _ _ hne => absurd hfirst hne
    have hord := bubbleUpFrom_ordered_first (a := a) hl hfirst (hs (h.size-1+1) (by omega) (by omega))
    rwa [show h.size-1+1=h.size by omega] at hord
  by_cases hil : i=h.size-1
  · obtain ⟨h2,h3⟩ := bubbleUpFrom_self (a := a) (hs _ le_rfl hi) hil hl
    exact iff_of_true h2 h3
  · exact bubbleUpFrom_last_iff hg ho (by omega) hlt hfirst (hs _ (Nat.sub_le _ 1) (by omega))

end

/-- A changed priority keeps the order exactly if it is no higher than it was, or else the last
node, which is passed over, need not move. -/
theorem setPriority_ordered_iff {r : DaryHeap T P × Bool} (ho : h.Ordered N) (hi : i<h.size)
    (ha : h.heapIndex a=some i) (hr : h.setPriority N a p=some r) (hsize : r.1.size=h.size) :
    r.1.Ordered N ↔ h.LastSpared N i p := by
  obtain ⟨j,hj,rfl⟩ := Option.map_eq_some_iff.mp hr
  obtain rfl : i=j := Option.some.inj (ha.symm.trans hj)
  set g : DaryHeap T P := { h with hvec := Function.update h.hvec i ⟨p,(h.hvec i).hnd⟩ } with hg
  have hoff (k : Nat) (hk : k≠i) : g.prio k=h.prio k := by simp [hg,prio,hk]
  unfold Ordered
  rw [hsize]
  split_ifs with hlt
  · exact bubbleUp_ordered_iff hoff ho hi rfl hlt
  · refine iff_of_true (bubbleDown_ordered ⟨?_,hi,fun d hd hdn => ?_⟩) fun h0 => absurd h0 hlt
    · exact (ho.hole i).congr fun k _ hk => hoff k hk
    · rw [hoff d hd.lt.ne']
      have := ho d hd.pos hdn
      rw [hd.parent] at this
      exact (not_lt.mp hlt).trans this

omit [NeZero N] in
/-- A node inserted at the end has no children. -/
theorem insert_ordered {maxSize : Nat} {r : DaryHeap T P × Bool} {mem : Bool} (ho : h.Ordered N)
    (hr : h.insert N maxSize a p mem=some r) (hsize : r.1.size=h.size+1) : r.1.Ordered N := by
  obtain ⟨g,hg,rfl⟩ := Option.map_eq_some_iff.mp hr
  obtain ⟨hgs,hvec,-⟩ := emplaceBack_alike hg
  have hprio : g.prio=h.prio := by
    funext i
    simp [prio,hvec]
  have hgs : g.size=h.size+1 := hgs
  unfold Ordered
  rw [hsize]
  refine bubbleDown_ordered ⟨?_,by omega,fun d hd hdn => ?_⟩
  · rw [hprio,show g.size-1=h.size by omega]
    refine ⟨fun i hi hin his _ => ho i hi (by omega),fun _ c hc hcn => ?_⟩
    have := hc.lt
    omega
  · have := hd.lt
    omega

end DaryHeap

namespace HeapUse

variable {T P : Type} [LinearOrder P] {N maxSize : Nat} [NeZero N] {s s' : HeapUse T P}

/-- The operation does not disturb the order of the heap. -/
def Fits (N : Nat) (s : HeapUse T P) : HeapOp T P → Prop
  | .remove a => ∀ i, s.heap.heapIndex a=some i → s.heap.LastFits N i
  | .setPriority a p => ∀ i, s.heap.heapIndex a=some i → s.heap.LastSpared N i p
  | _ => True

/-- Enough for that, and decidable: the last node fits, or no priority is made greater. -/
def Lowers (N : Nat) (s : HeapUse T P) : HeapOp T P → Prop
  | .remove a => ∀ i ∈ s.heap.heapIndex a, s.heap.LastFits N i
  | .setPriority a p => ∀ i ∈ s.heap.heapIndex a, p≤ s.heap.prio i
  | _ => True

instance (s : HeapUse T P) (k : HeapOp T P) : Decidable (Lowers N s k) := by
  unfold Lowers DaryHeap.LastFits
  split <;> infer_instance

omit [NeZero N] in
theorem Lowers.fits {k : HeapOp T P} (h : s.Lowers N k) : s.Fits N k := by
  cases k with
  | remove a => exact h
  | setPriority a p => exact fun i hi hlt => absurd (h i hi) (not_le.mpr hlt)
  | _ => trivial

omit [NeZero N] in
theorem ordered_of_same {h h' : DaryHeap T P} (hv : h'.hvec=h.hvec) (hs : h'.size=h.size) :
    h'.Ordered N ↔ h.Ordered N := by
  have hprio : h'.prio=h.prio := by
    funext i
    simp [DaryHeap.prio,hv]
  unfold DaryHeap.Ordered
  rw [hprio,hs]

/-- Which operations keep the order. -/
theorem Ok.ordered_iff (h : s.Ok maxSize) (ho : s.heap.Ordered N) {k : HeapOp T P}
    (hs : s.step N maxSize k=some s') : s'.heap.Ordered N ↔ s.Fits N k := by
  cases k with
  | allocate a u mem retry =>
    refine iff_of_true ?_ trivial
    simp only [HeapUse.step] at hs
    split_ifs at hs with ha
    split at hs
    · next h' hr =>
      obtain rfl := Option.some.inj hs
      obtain ⟨h1,h2,-⟩ := DaryHeap.allocate_alike h.bound hr
      exact (ordered_of_same h2 h1).mpr ho
    · obtain rfl := Option.some.inj hs
      exact ho
  | deallocate a mem =>
    refine iff_of_true ?_ trivial
    simp only [HeapUse.step] at hs
    split_ifs at hs with ha
    obtain rfl := Option.some.inj hs
    have hd := (DaryHeap.deallocate_alike h.room mem).1
    exact (ordered_of_same (by rw [hd]) (by rw [hd])).mpr ho
  | insert a p mem =>
    refine iff_of_true ?_ trivial
    simp only [HeapUse.step] at hs
    split_ifs at hs with ha
    obtain ⟨r,hr,rfl⟩ := Option.map_eq_some_iff.mp hs
    exact DaryHeap.insert_ordered ho hr
      (DaryHeap.insert_placed h.linked ha.1 (by simpa [DaryHeap.isQueued] using ha.2) hr).2.1
  | pullRoot =>
    obtain ⟨he,hs⟩ := Option.ite_none_left_eq_some.mp hs
    obtain rfl := Option.some.inj hs
    have hi : 0< s.heap.size := Nat.pos_of_ne_zero (by simpa [DaryHeap.empty] using he)
    refine iff_of_true ?_ trivial
    refine (DaryHeap.removeH_ordered_iff ho hi
      (DaryHeap.removeH_removed (N := N) h.linked hi).size).mpr fun h0 => absurd h0 (lt_irrefl 0)
  | remove a =>
    simp only [HeapUse.step] at hs
    split_ifs at hs with ha
    obtain ⟨h',hr,rfl⟩ := Option.map_eq_some_iff.mp hs
    obtain ⟨i,hai,rfl⟩ := Option.map_eq_some_iff.mp hr
    obtain ⟨hi,-⟩ := h.linked.handle a ha i hai
    refine (DaryHeap.removeH_ordered_iff ho hi
      (DaryHeap.removeH_removed (N := N) h.linked hi).size).trans ⟨fun hf j hj => ?_,fun hf => hf i hai⟩
    obtain rfl := Option.some.inj (hai.symm.trans hj)
    exact hf
  | setPriority a p =>
    simp only [HeapUse.step] at hs
    split_ifs at hs with ha
    obtain ⟨r,hr,rfl⟩ := Option.map_eq_some_iff.mp hs
    obtain ⟨i,hai,-⟩ := Option.map_eq_some_iff.mp hr
    obtain ⟨hi,-⟩ := h.linked.handle a ha i hai
    refine (DaryHeap.setPriority_ordered_iff ho hi hai hr
      (DaryHeap.setPriority_placed h.linked ha hr).1.alike.size).trans
        ⟨fun hf j hj => ?_,fun hf => hf i hai⟩
    obtain rfl := Option.some.inj (hai.symm.trans hj)
    exact hf

omit [NeZero N] in
/-- In a heap that is in order, the root is queued with the least priority. -/
theorem Ok.root_least (h : s.Ok maxSize) (ho : s.heap.Ordered N) {a : Nat} {p : P}
    (ha : s.queue a=some p) :
    s.queue s.heap.getRoot=some s.heap.getRootPriority ∧ s.heap.getRootPriority≤ p := by
  unfold queue at ha
  split_ifs at ha with hA
  obtain ⟨i,hai,rfl⟩ := Option.map_eq_some_iff.mp ha
  obtain ⟨hi,-⟩ := h.linked.handle a hA i hai
  obtain ⟨hm,hidx⟩ := h.linked.node 0 (by omega)
  refine ⟨(queue_of_mem hm).trans ?_,ho.root_le hi⟩
  show (s.heap.heapIndex (s.heap.hvec 0).hnd).map s.heap.prio=_
  rw [hidx]
  rfl

/-- In every run the heap is in order throughout just if every removal finds a last node that
fits, and every raised priority one that is spared. While it is in order, the root is the least. -/
theorem heap_ordered_iff (N maxSize : Nat) [NeZero N] (hvec : Nat → HeapNode P)
    (heapIndex : Nat → Option Nat) (nodeData : Nat → T) (ks : List (HeapOp T P)) :
    ((∀ js s, js <+: ks → runs (HeapUse.step N maxSize) (.new hvec heapIndex nodeData) js=some s →
        s.heap.Ordered N) ↔
      Along (HeapUse.step N maxSize) (Fits N) (.new hvec heapIndex nodeData) ks) ∧
    ∀ s, runs (HeapUse.step N maxSize) (.new hvec heapIndex nodeData) ks=some s → s.heap.Ordered N →
      ∀ a p, s.queue a=some p →
        s.queue s.heap.getRoot=some s.heap.getRootPriority ∧ s.heap.getRootPriority≤ p := by
  refine ⟨?_,fun s hs ho a p ha => ((Ok.new hvec heapIndex nodeData).run hs).1.root_least ho ha⟩
  refine good_iff_along (I := HeapUse.Ok maxSize) (G := fun s => s.heap.Ordered N)
    (fun s k s' h hs => (h.step hs).1) (fun s k s' h ho hs => h.ordered_iff ho hs)
    (.new hvec heapIndex nodeData) ?_ ks
  intro i _ hi
  exact absurd hi (Nat.not_lt_zero i)

theorem heap_ordered_some : ∃ s, runs (HeapUse.step 4 100) anyHeap someInserted=some s ∧
    s.heap.Ordered 4 ∧ s.heap.getRoot=6 := by
  have hroot : (runs (HeapUse.step 4 100) anyHeap someInserted).map (fun s => s.heap.getRoot)=
      some 6 := by decide +kernel
  obtain ⟨s,hs,hroot⟩ := Option.map_eq_some_iff.mp hroot
  have halong : Along (HeapUse.step 4 100) (Lowers 4) anyHeap someInserted := by decide +kernel
  refine ⟨s,hs,?_,hroot⟩
  exact (heap_ordered_iff 4 100 (fun _ => ⟨0,0⟩) (fun _ => some 3) (fun _ => ())
    someInserted).1.mpr (halong.mono fun _ _ h => h.fits) someInserted s (List.prefix_refl _) hs

end HeapUse
end Dinit
