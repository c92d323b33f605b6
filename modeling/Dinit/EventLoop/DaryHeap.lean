import Dinit.Framework.LevelOrder
import Dinit.Framework.Runs

namespace Dinit

open Framework LevelOrder

/-- `heap_node`: a priority, and the handle that it belongs to by its address. -/
structure HeapNode (P : Type) where
  prio : P
  hnd : Nat

/-- `dary_heap`. Of the storage `hvec` of its vector the first `size` nodes are in use;
`heapIndex` and `nodeData` are the fields of the handles, with `none` for the index -1. -/
structure DaryHeap (T P : Type) where
  hvec : Nat → HeapNode P
  size : Nat
  capacity : Nat
  numNodes : Nat
  heapIndex : Nat → Option Nat
  nodeData : Nat → T

namespace DaryHeap

variable {T P : Type} [LinearOrder P]

def prio (h : DaryHeap T P) (i : Nat) : P := (h.hvec i).prio

def empty (h : DaryHeap T P) : Bool := h.size==0

/-- `get_root`, of a queue that is not empty -/
def getRoot (h : DaryHeap T P) : Nat := (h.hvec 0).hnd

def getRootPriority (h : DaryHeap T P) : P := h.prio 0

def isQueued (h : DaryHeap T P) (a : Nat) : Bool := (h.heapIndex a).isSome

/-- Store a node, and its position in its handle. -/
def place (h : DaryHeap T P) (pos hnd : Nat) (p : P) : DaryHeap T P :=
  { h with
    hvec := Function.update h.hvec pos ⟨p,hnd⟩
    heapIndex := Function.update h.heapIndex hnd (some pos) }

def move (h : DaryHeap T P) (pos src : Nat) : DaryHeap T P :=
  h.place pos (h.hvec src).hnd (h.prio src)

section
variable (N : Nat)

/-- `bubble_down`; whether the node has become the root -/
def bubbleDown (h : DaryHeap T P) (pos ohndl : Nat) (op : P) : DaryHeap T P × Bool :=
  if _ : 0<pos then
    if op<h.prio (parent N pos) then bubbleDown (h.move pos (parent N pos)) (parent N pos) ohndl op
    else (h.place pos ohndl op,false)
  else (h.place pos ohndl op,true)
termination_by pos
decreasing_by exact parent_lt ‹_›

/-- The loop of `bubble_up` for the smallest child, of those from `lchild` up to `rchild` -/
def selectChild (h : DaryHeap T P) (lchild rchild : Nat) : Nat :=
  (List.range' (lchild+1) (rchild-(lchild+1))).foldl
    (fun selchild i => if h.prio i<h.prio selchild then i else selchild) lchild

end

theorem selectChild_spec (h : DaryHeap T P) {lchild rchild : Nat} (hr : lchild< rchild) :
    let c := h.selectChild lchild rchild
    lchild≤ c ∧ c< rchild ∧ ∀ i, lchild≤ i → i< rchild → h.prio c≤ h.prio i := by
  obtain ⟨hmem,hle,hall⟩ := foldl_least h.prio
    (List.range' (lchild+1) (rchild-(lchild+1))) lchild
  simp only [List.mem_range'_1] at hmem hall
  refine ⟨by unfold selectChild; omega,by unfold selectChild; omega,fun i hi hir => ?_⟩
  rcases Nat.eq_or_lt_of_le hi with rfl | hi
  · exact hle
  · exact hall i (by omega)

/-- With no other to compare it with, the first child is the smallest. -/
theorem selectChild_single (h : DaryHeap T P) {lchild rchild : Nat} (hr : rchild≤ lchild+1) :
    h.selectChild lchild rchild=lchild := by
  simp [selectChild,Nat.sub_eq_zero_of_le hr]

section
variable (N : Nat)

theorem lt_selectChild [NeZero N] (h : DaryHeap T P) (pos rchild : Nat) :
    pos<h.selectChild (pos*N+1) rchild := by
  have hN : pos≤ pos*N := Nat.le_mul_of_pos_right pos (Nat.pos_of_neZero N)
  rcases Nat.lt_or_ge (pos*N+1) rchild with hr | hr
  · have := (h.selectChild_spec hr).1
    omega
  · rw [h.selectChild_single (by omega)]
    omega

/-- The loop of `bubble_up`. The last node, at `rmax`, is left out of the comparison unless it is
the first child. -/
def bubbleUpFrom [NeZero N] (rmax : Nat) (h : DaryHeap T P) (pos hnd : Nat) (p : P) : DaryHeap T P :=
  if _ : pos≤ (rmax-1)/N then
    let lchild := pos*N+1
    let selchild := h.selectChild lchild (min (lchild+N) rmax)
    if h.prio selchild<p then bubbleUpFrom rmax (h.move pos selchild) selchild hnd p
    else h.place pos hnd p
  else h.place pos hnd p
termination_by rmax+1-pos
decreasing_by
  have h1 := h.lt_selectChild N pos (min (pos*N+1+N) rmax)
  have h2 := Nat.div_le_self (rmax-1) N
  omega

variable [NeZero N]

def bubbleUp (h : DaryHeap T P) (pos hnd : Nat) (p : P) : DaryHeap T P :=
  let rmax := h.size-1
  if rmax=0 then h else bubbleUpFrom N rmax h pos hnd p

def popBack (h : DaryHeap T P) : DaryHeap T P := { h with size := h.size-1 }

/-- `remove_h`: the last node takes the place of the one removed. -/
def removeH (h : DaryHeap T P) (hidx : Nat) : DaryHeap T P :=
  let h := { h with heapIndex := Function.update h.heapIndex (h.hvec hidx).hnd none }
  if h.size≠hidx+1 then
    (h.bubbleUp N hidx (h.hvec (h.size-1)).hnd (h.prio (h.size-1))).popBack
  else h.popBack

def pullRoot (h : DaryHeap T P) : DaryHeap T P := h.removeH N 0

/-- `remove`, of a handle that is queued -/
def remove (h : DaryHeap T P) (a : Nat) : Option (DaryHeap T P) := (h.heapIndex a).map (h.removeH N)

/-- `set_priority` of a handle that is queued; whether its node becomes the root. The index is
copied to an `int`, so that this is for heaps of at most `2^31` nodes. -/
def setPriority (h : DaryHeap T P) (a : Nat) (p : P) : Option (DaryHeap T P × Bool) :=
  (h.heapIndex a).map fun i =>
    let h' := { h with hvec := Function.update h.hvec i ⟨p,(h.hvec i).hnd⟩ }
    if h.prio i<p then (h'.bubbleUp N i (h.hvec i).hnd p,false)
    else h'.bubbleDown N i (h.hvec i).hnd p

end

/-- `change_capacity`; `mem` tells whether there is memory for it. -/
def changeCapacity (h : DaryHeap T P) (c : Nat) (mem : Bool) : Option (DaryHeap T P) :=
  if mem then some { h with capacity := c } else none

/-- `reserve` of the vector, or none if that throws -/
def reserve (maxSize : Nat) (h : DaryHeap T P) (amount : Nat) (mem : Bool) : Option (DaryHeap T P) :=
  if amount≤ h.capacity then some h
  else if maxSize<amount then none
  else h.changeCapacity amount mem

/-- `allocate`: room for one node more, or none if that throws. `mem` and `retry` tell whether
there is memory for twice the nodes, or else for just these. -/
def allocate (maxSize : Nat) (h : DaryHeap T P) (a : Nat) (u : T) (mem retry : Bool) :
    Option (DaryHeap T P) :=
  if h.numNodes=maxSize then none
  else
    let h := { h with numNodes := h.numNodes+1 }
    let r :=
      if h.capacity<h.numNodes then
        (h.reserve maxSize (if h.numNodes< maxSize/2 then h.numNodes*2 else maxSize) mem).or
          (h.reserve maxSize h.numNodes retry)
      else some h
    r.map fun h => { h with
      nodeData := Function.update h.nodeData a u
      heapIndex := Function.update h.heapIndex a none }

/-- `deallocate`, with `shrink_to` when the room is more than four times what is needed -/
def deallocate (h : DaryHeap T P) (mem : Bool) : DaryHeap T P :=
  let h := { h with numNodes := h.numNodes-1 }
  if h.numNodes<h.capacity/4 then
    if h.numNodes*2<h.capacity then (h.changeCapacity (h.numNodes*2) mem).getD h else h
  else h

/-- The capacity that `emplace_back` asks for when there is no room left. -/
def grownCapacity (maxSize : Nat) (h : DaryHeap T P) : Nat :=
  if maxSize/2≤ h.capacity then maxSize else if h.capacity=0 then 4 else h.capacity*2

/-- `emplace_back`, or none if that throws -/
def emplaceBack (maxSize : Nat) (h : DaryHeap T P) (mem : Bool) : Option (DaryHeap T P) :=
  let r :=
    if h.size+1≤ h.capacity then some h
    else if maxSize<h.size+1 then none
    else h.changeCapacity (h.grownCapacity maxSize) mem
  r.map fun h => { h with size := h.size+1 }

/-- `insert`, of a handle that is not queued; whether its node becomes the root. What
`emplace_back` throws would end the program. -/
def insert (N maxSize : Nat) (h : DaryHeap T P) (a : Nat) (pval : P) (mem : Bool) :
    Option (DaryHeap T P × Bool) :=
  let h := { h with heapIndex := Function.update h.heapIndex a (some h.size) }
  (h.emplaceBack maxSize mem).map fun h => h.bubbleDown N (h.size-1) a pval

end DaryHeap
end Dinit
