import Dinit.EventLoop.DaryHeap

namespace Dinit

open Framework LevelOrder

namespace DaryHeap

variable {T P : Type} [LinearOrder P] {N : Nat}

/-- What holds of the heap with its hole in every round of `bubble_down` is so when the node
is placed, at the root or below one that is not greater. -/
theorem bubbleDown_rule {M : DaryHeap T P → Nat → Prop} {Q : DaryHeap T P × Bool → Prop} {a : Nat}
    {p : P}
    (hmove : ∀ h pos, M h pos → 0<pos → p<h.prio (parent N pos) →
      M (h.move pos (parent N pos)) (parent N pos))
    (hplace : ∀ h pos, M h pos → (0<pos → h.prio (parent N pos)≤ p) →
      Q (h.place pos a p,pos==0))
    {h : DaryHeap T P} {pos : Nat} (hM : M h pos) : Q (h.bubbleDown N pos a p) := by
  induction h, pos using bubbleDown.induct N p with
  | case1 h pos hpos hlt ih =>
    rw [bubbleDown,dif_pos hpos,if_pos hlt]
    exact ih (hmove h pos hM hpos hlt)
  | case2 h pos hpos hlt =>
    rw [bubbleDown,dif_pos hpos,if_neg hlt]
    have hq := hplace h pos hM fun _ => not_lt.mp hlt
    rwa [beq_false_of_ne hpos.ne'] at hq
  | case3 h pos hpos =>
    rw [bubbleDown,dif_neg hpos]
    obtain rfl : pos=0 := by omega
    exact hplace h 0 hM fun h0 => absurd h0 hpos

/-- The child that `bubble_up` selects. -/
def child (N rmax : Nat) (h : DaryHeap T P) (pos : Nat) : Nat :=
  h.selectChild (pos*N+1) (min (pos*N+1+N) rmax)

/-- The same for `bubble_up`: the node is placed where it has no children, or none that is
smaller. -/
theorem bubbleUpFrom_rule [NeZero N] {rmax : Nat} {M : DaryHeap T P → Nat → Prop}
    {Q : DaryHeap T P → Prop} {a : Nat} {p : P}
    (hmove : ∀ h pos, M h pos → pos≤ (rmax-1)/N → h.prio (h.child N rmax pos)<p →
      M (h.move pos (h.child N rmax pos)) (h.child N rmax pos))
    (hplace : ∀ h pos, M h pos → (pos≤ (rmax-1)/N → p≤ h.prio (h.child N rmax pos)) →
      Q (h.place pos a p))
    {h : DaryHeap T P} {pos : Nat} (hM : M h pos) : Q (h.bubbleUpFrom N rmax pos a p) := by
  induction h, pos using bubbleUpFrom.induct N rmax (p := p) with
  | case1 h pos hpos lchild sel hlt ih =>
    rw [bubbleUpFrom,dif_pos hpos,if_pos hlt]
    exact ih (hmove h pos hM hpos hlt)
  | case2 h pos hpos lchild sel hlt =>
    rw [bubbleUpFrom,dif_pos hpos,if_neg hlt]
    exact hplace h pos hM fun _ => not_lt.mp hlt
  | case3 h pos hpos =>
    rw [bubbleUpFrom,dif_neg hpos]
    exact hplace h pos hM fun h0 => absurd h0 hpos

end DaryHeap

/-- A heap in use, with the handles that are allocated. -/
structure HeapUse (T P : Type) where
  heap : DaryHeap T P
  allocated : List Nat

/-- The operations on a heap; `mem` and `retry` are the outcomes of the allocations that an
operation may make. -/
inductive HeapOp (T P : Type) where
  | allocate (a : Nat) (u : T) (mem retry : Bool)
  | deallocate (a : Nat) (mem : Bool)
  | insert (a : Nat) (pval : P) (mem : Bool)
  | pullRoot
  | remove (a : Nat)
  | setPriority (a : Nat) (p : P)

namespace HeapUse

variable {T P : Type} [LinearOrder P]

/-- A heap just constructed. What the storage and the handles hold is not initialised. -/
def new (hvec : Nat → HeapNode P) (heapIndex : Nat → Option Nat) (nodeData : Nat → T) :
    HeapUse T P :=
  ⟨{ hvec, heapIndex, nodeData, size := 0, capacity := 0, numNodes := 0 },[]⟩

/-- One operation; none if the caller does not keep to what the operation asks for (a handle
that is allocated, queued or not queued, a heap that is not empty). An allocation that throws
changes nothing. -/
def step (N maxSize : Nat) [NeZero N] (s : HeapUse T P) : HeapOp T P → Option (HeapUse T P)
  | .allocate a u mem retry =>
    if a ∈ s.allocated then none
    else some <| match s.heap.allocate maxSize a u mem retry with
      | some h => ⟨h,a::s.allocated⟩
      | none => s
  | .deallocate a mem =>
    if a ∈ s.allocated ∧ ¬s.heap.isQueued a then
      some ⟨s.heap.deallocate mem,s.allocated.erase a⟩
    else none
  | .insert a pval mem =>
    if a ∈ s.allocated ∧ ¬s.heap.isQueued a then
      (s.heap.insert N maxSize a pval mem).map fun r => ⟨r.1,s.allocated⟩
    else none
  | .pullRoot => if s.heap.empty then none else some ⟨s.heap.pullRoot N,s.allocated⟩
  | .remove a =>
    if a ∈ s.allocated then (s.heap.remove N a).map fun h => ⟨h,s.allocated⟩ else none
  | .setPriority a p =>
    if a ∈ s.allocated then (s.heap.setPriority N a p).map fun r => ⟨r.1,s.allocated⟩ else none

end HeapUse
end Dinit
