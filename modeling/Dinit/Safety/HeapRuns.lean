import Dinit.Safety.HeapQueue
import Mathlib.Data.List.Perm.Subperm

namespace Dinit

open Framework LevelOrder

namespace DaryHeap

variable {T P : Type} [LinearOrder P] {N maxSize : Nat} {A : List Nat} {a : Nat} {p : P}
  {h : DaryHeap T P}

omit [LinearOrder P] in
/-- With room for one node more, `emplace_back` asks for no memory. -/
theorem emplaceBack_eq (hc : h.size<h.capacity) (mem : Bool) :
    h.emplaceBack maxSize mem=some { h with size := h.size+1 } := by
  unfold emplaceBack
  simp [Nat.succ_le_of_lt hc]

omit [LinearOrder P] in
theorem emplaceBack_alike {h' : DaryHeap T P} {mem : Bool} (hr : h.emplaceBack maxSize mem=some h') :
    h'.size=h.size+1 ∧ h'.hvec=h.hvec ∧ h'.heapIndex=h.heapIndex ∧ h'.numNodes=h.numNodes ∧
      h'.nodeData=h.nodeData ∧ h.capacity≤ h'.capacity := by
  unfold emplaceBack at hr
  obtain ⟨g,hg,rfl⟩ := Option.map_eq_some_iff.mp hr
  dsimp only at hg ⊢
  split_ifs at hg with hc hm
  · obtain rfl := Option.some.inj hg
    exact ⟨rfl,rfl,rfl,rfl,rfl,le_rfl⟩
  · unfold changeCapacity at hg
    split_ifs at hg
    obtain rfl := Option.some.inj hg
    refine ⟨rfl,rfl,rfl,rfl,rfl,?_⟩
    simp only [grownCapacity]
    split_ifs <;> omega

/-- `insert` of a handle that is not queued: it is queued then, with the priority given. -/
theorem insert_placed {r : DaryHeap T P × Bool} {mem : Bool} (hl : h.Linked A h.size) (ha : a ∈ A)
    (hq : h.heapIndex a=none) (hr : h.insert N maxSize a p mem=some r) :
    r.1.Linked A (h.size+1) ∧ r.1.size=h.size+1 ∧ r.1.numNodes=h.numNodes ∧
      h.capacity≤ r.1.capacity ∧ r.1.nodeData=h.nodeData ∧ r.1.contents a=some p ∧
      (∀ b ∈ A, b≠a → r.1.contents b=h.contents b) ∧ (r.2=true ↔ r.1.getRoot=a) := by
  obtain ⟨g,hg,rfl⟩ := Option.map_eq_some_iff.mp hr
  obtain ⟨hsize,hvec,hidx,hnum,hdata,hcap⟩ := emplaceBack_alike hg
  have hoff : g.LinkedOff A (h.size+1) h.size a := by
    refine ⟨ha,by omega,fun i hi hin => ?_,fun b hb hba i hbi => ?_⟩
    · obtain ⟨h1,h2⟩ := hl.node i (by omega)
      have hne : (h.hvec i).hnd≠a := fun he => by simp [he,hq] at h2
      rw [hvec,hidx]
      exact ⟨h1,hne,by simpa [hne] using h2⟩
    · rw [hidx] at hbi
      obtain ⟨h1,h2⟩ := hl.handle b hb i (by simpa [hba] using hbi)
      exact ⟨by omega,by omega,by rwa [hvec]⟩
  have hb := bubbleDown_placed (N := N) (p := p) hoff.sifting
  have hpos : g.size-1=h.size := by rw [hsize]; rfl
  rw [hpos]
  refine ⟨hb.1.linked,hb.1.alike.size.trans hsize,hb.1.alike.numNodes.trans hnum,
    hcap.trans_eq hb.1.alike.capacity.symm,hb.1.alike.nodeData.trans hdata,hb.1.self,
    fun b hb' hba => (hb.1.others b hb' hba).trans ?_,hb.2⟩
  simp only [contents,hidx]
  have hprio : g.prio=h.prio := by
    funext i
    simp [prio,hvec]
  rw [hprio,Function.update_of_ne hba]

omit [LinearOrder P] in
theorem reserve_alike {h' : DaryHeap T P} {amount : Nat} {mem : Bool}
    (hr : h.reserve maxSize amount mem=some h') :
    h'={ h with capacity := h'.capacity } ∧ amount≤ h'.capacity := by
  unfold reserve at hr
  split_ifs at hr with hc hm
  · obtain rfl := Option.some.inj hr
    exact ⟨rfl,hc⟩
  · unfold changeCapacity at hr
    split_ifs at hr
    obtain rfl := Option.some.inj hr
    exact ⟨rfl,le_rfl⟩

omit [LinearOrder P] in
theorem allocate_alike {h' : DaryHeap T P} {u : T} {mem retry : Bool} (hn : h.numNodes≤ maxSize)
    (hr : h.allocate maxSize a u mem retry=some h') :
    h'.size=h.size ∧ h'.hvec=h.hvec ∧ h'.heapIndex=Function.update h.heapIndex a none ∧
      h'.nodeData=Function.update h.nodeData a u ∧ h'.numNodes=h.numNodes+1 ∧
      h'.numNodes≤ maxSize ∧ h'.numNodes≤ h'.capacity := by
  unfold allocate at hr
  split_ifs at hr with hmax
  dsimp only at hr
  obtain ⟨g,hg,rfl⟩ := Option.map_eq_some_iff.mp hr
  have hroom : g={ h with numNodes := h.numNodes+1, capacity := g.capacity } ∧
      h.numNodes+1≤ g.capacity := by
    split_ifs at hg with hc hhalf
    · rcases Option.or_eq_some_iff.mp hg with hg | ⟨-,hg⟩
      · obtain ⟨h1,h2⟩ := reserve_alike hg
        exact ⟨h1,by omega⟩
      · exact reserve_alike hg
    · rcases Option.or_eq_some_iff.mp hg with hg | ⟨-,hg⟩
      · obtain ⟨h1,h2⟩ := reserve_alike hg
        exact ⟨h1,by omega⟩
      · exact reserve_alike hg
    · obtain rfl := Option.some.inj hg
      exact ⟨rfl,not_lt.mp hc⟩
  obtain ⟨hg,hcap⟩ := hroom
  rw [hg]
  exact ⟨rfl,rfl,rfl,rfl,rfl,by dsimp only; omega,hcap⟩

omit [LinearOrder P] in
theorem deallocate_alike (hn : h.numNodes≤ h.capacity) (mem : Bool) :
    h.deallocate mem={ h with
      numNodes := h.numNodes-1, capacity := (h.deallocate mem).capacity } ∧
      h.numNodes-1≤ (h.deallocate mem).capacity := by
  unfold deallocate
  dsimp only
  split_ifs with h1 h2
  · cases mem
    · exact ⟨rfl,by simp [changeCapacity]; omega⟩
    · exact ⟨rfl,by simp [changeCapacity]; omega⟩
  · exact ⟨rfl,by dsimp only; omega⟩
  · exact ⟨rfl,by dsimp only; omega⟩

end DaryHeap

/-- What a queue of prioritised handles is for, with the priority of each queued handle: a
handle is inserted and removed, or changes its priority, and pulling the root removes the handle
that was the root. -/
inductive QueueStep {T P : Type} (root : Nat) (m : Nat → Option P) :
    HeapOp T P → (Nat → Option P) → Prop
  | allocate (a : Nat) (u : T) (mem retry : Bool) (h : m a=none) :
      QueueStep root m (.allocate a u mem retry) m
  | deallocate (a : Nat) (mem : Bool) (h : m a=none) : QueueStep root m (.deallocate a mem) m
  | insert (a : Nat) (p : P) (mem : Bool) (h : m a=none) :
      QueueStep root m (.insert a p mem) (Function.update m a (some p))
  | pullRoot (h : (m root).isSome) : QueueStep root m .pullRoot (Function.update m root none)
  | remove (a : Nat) (h : (m a).isSome) : QueueStep root m (.remove a) (Function.update m a none)
  | setPriority (a : Nat) (p : P) (h : (m a).isSome) :
      QueueStep root m (.setPriority a p) (Function.update m a (some p))

theorem QueueStep.allocate_eq {T P : Type} {m m' : Nat → Option P} {root a : Nat} {u : T}
    {mem retry : Bool} (h : QueueStep root m (.allocate a u mem retry) m') : m'=m := by
  cases h
  rfl

theorem QueueStep.deallocate_eq {T P : Type} {m m' : Nat → Option P} {root a : Nat} {mem : Bool}
    (h : QueueStep (T := T) root m (.deallocate a mem) m') : m'=m := by
  cases h
  rfl

/-- A run, each operation with the root before it -/
def QueueRun {T P : Type} : (Nat → Option P) → List (Nat × HeapOp T P) → (Nat → Option P) → Prop
  | m,[],m' => m=m'
  | m,(root,k)::ks,m' => ∃ m₁,QueueStep root m k m₁ ∧ QueueRun m₁ ks m'

namespace HeapUse

variable {T P : Type}

/-- The queue that a heap stands for. -/
def queue (s : HeapUse T P) (a : Nat) : Option P :=
  if a ∈ s.allocated then s.heap.contents a else none

/-- Nodes and handles agree, and there is room for a node of every handle. -/
structure Ok (maxSize : Nat) (s : HeapUse T P) : Prop where
  linked : s.heap.Linked s.allocated s.heap.size
  nodup : s.allocated.Nodup
  numNodes : s.heap.numNodes=s.allocated.length
  bound : s.heap.numNodes≤ maxSize
  room : s.heap.numNodes≤ s.heap.capacity

variable {maxSize : Nat} {s : HeapUse T P} {a : Nat}

theorem Ok.new (hvec : Nat → HeapNode P) (heapIndex : Nat → Option Nat) (nodeData : Nat → T) :
    (HeapUse.new hvec heapIndex nodeData).Ok maxSize :=
  ⟨⟨fun _ hi => absurd hi (Nat.not_lt_zero _),fun _ ha => absurd ha List.not_mem_nil⟩,
    List.nodup_nil,rfl,Nat.zero_le _,le_rfl⟩

/-- A handle that is not queued leaves a node of room. -/
theorem Ok.size_lt (h : s.Ok maxSize) (ha : a ∈ s.allocated) (hq : s.heap.heapIndex a=none) :
    s.heap.size< s.heap.numNodes := by
  have hnd : ((List.range s.heap.size).map fun i => (s.heap.hvec i).hnd).Nodup :=
    List.Nodup.map_on (fun i hi j hj => h.linked.inj (List.mem_range.mp hi) (List.mem_range.mp hj))
      List.nodup_range
  have hsub : (List.range s.heap.size).map (fun i => (s.heap.hvec i).hnd) ⊆ s.allocated.erase a := by
    intro b hb
    obtain ⟨i,hi,rfl⟩ := List.mem_map.mp hb
    obtain ⟨h1,h2⟩ := h.linked.node i (List.mem_range.mp hi)
    exact (List.mem_erase_of_ne fun he => by simp [he,hq] at h2).mpr h1
  have hlen := (hnd.subperm hsub).length_le
  rw [List.length_map,List.length_range,List.length_erase_of_mem ha,← h.numNodes] at hlen
  have := List.length_pos_of_mem ha
  rw [← h.numNodes] at this
  omega

theorem queue_of_mem (ha : a ∈ s.allocated) : s.queue a=s.heap.contents a := if_pos ha

theorem queue_eq_none (hq : a ∈ s.allocated → s.heap.heapIndex a=none) : s.queue a=none := by
  unfold queue
  split_ifs with ha
  · simp [DaryHeap.contents,hq ha]
  · rfl

/-- A queue that differs at one handle. -/
theorem queue_update {t : HeapUse T P} {o : Option P} (ha : a ∈ s.allocated)
    (hA : t.allocated=s.allocated) (hself : t.heap.contents a=o)
    (hother : ∀ b ∈ s.allocated, b≠a → t.heap.contents b=s.heap.contents b) :
    t.queue=Function.update s.queue a o := by
  funext b
  unfold queue
  rw [hA]
  by_cases hba : b=a
  · subst hba
    simp [ha,hself]
  · rw [Function.update_of_ne hba]
    split_ifs with hb
    · exact hother b hb hba
    · rfl

theorem Ok.isSome (h : s.Ok maxSize) {i : Nat} (hi : i< s.heap.size) :
    (s.heap.hvec i).hnd ∈ s.allocated ∧ (s.queue (s.heap.hvec i).hnd).isSome := by
  obtain ⟨hm,hidx⟩ := h.linked.node i hi
  exact ⟨hm,by simp [queue_of_mem hm,DaryHeap.contents,hidx]⟩

variable [LinearOrder P] {N : Nat} [NeZero N] {s' : HeapUse T P}

theorem Ok.allocate (h : s.Ok maxSize) {u : T} {mem retry : Bool}
    (hs : s.step N maxSize (.allocate a u mem retry)=some s') :
    s'.Ok maxSize ∧ QueueStep s.heap.getRoot s.queue (.allocate a u mem retry) s'.queue := by
  simp only [step] at hs
  split_ifs at hs with ha
  have hnone : s.queue a=none := queue_eq_none fun hm => absurd hm ha
  split at hs
  · next h' hr =>
    obtain rfl := Option.some.inj hs
    obtain ⟨h1,h2,h3,-,h4,h5,h6⟩ := DaryHeap.allocate_alike h.bound hr
    have hqueue : (⟨h',a::s.allocated⟩ : HeapUse T P).queue=s.queue := by
      funext b
      by_cases hba : b=a
      · rw [hba,hnone]
        exact queue_eq_none fun _ => by simp [h3]
      · have hc : h'.contents b=s.heap.contents b := by
          have hprio : h'.prio=s.heap.prio := by
            funext i
            simp [DaryHeap.prio,h2]
          simp [DaryHeap.contents,h3,hba,hprio]
        simp [queue,hba,hc]
    refine ⟨⟨⟨fun i hi => ?_,fun b hb i hbi => ?_⟩,List.nodup_cons.mpr ⟨ha,h.nodup⟩,
      by simp [h4,h.numNodes],h5,h6⟩,?_⟩
    · obtain ⟨hm,hidx⟩ := h.linked.node i (h1 ▸ hi)
      have hne : (s.heap.hvec i).hnd≠a := fun he => ha (he ▸ hm)
      simp [h2,h3,hm,hidx,hne]
    · have hba : b≠a := by
        rintro rfl
        simp [h3] at hbi
      have hb : b ∈ s.allocated := by simpa [hba] using hb
      obtain ⟨hi,hib⟩ := h.linked.handle b hb i (by simpa [h3,hba] using hbi)
      exact ⟨h1.symm ▸ hi,by simpa [h2] using hib⟩
    · rw [hqueue]
      exact .allocate a u mem retry hnone
  · obtain rfl := Option.some.inj hs
    exact ⟨h,.allocate a u mem retry hnone⟩

theorem Ok.deallocate (h : s.Ok maxSize) {mem : Bool}
    (hs : s.step N maxSize (.deallocate a mem)=some s') :
    s'.Ok maxSize ∧ QueueStep (T := T) s.heap.getRoot s.queue (.deallocate a mem) s'.queue := by
  simp only [step] at hs
  split_ifs at hs with ha
  obtain ⟨ha,hq⟩ := ha
  have hq : s.heap.heapIndex a=none := by simpa [DaryHeap.isQueued] using hq
  obtain rfl := Option.some.inj hs
  have hnone : s.queue a=none := queue_eq_none fun _ => hq
  obtain ⟨hd,hroom⟩ := DaryHeap.deallocate_alike h.room mem
  have hqueue : (⟨s.heap.deallocate mem,s.allocated.erase a⟩ : HeapUse T P).queue=s.queue := by
    funext b
    by_cases hba : b=a
    · rw [hba,hnone]
      exact queue_eq_none fun hm => absurd hm h.nodup.not_mem_erase
    · have hc : (s.heap.deallocate mem).contents b=s.heap.contents b := by
        rw [hd]
        rfl
      simp [queue,List.mem_erase_of_ne hba,hc]
  refine ⟨⟨⟨fun i hi => ?_,fun b hb i hbi => ?_⟩,h.nodup.erase a,?_,?_,?_⟩,?_⟩
  · rw [hd] at hi ⊢
    obtain ⟨hm,hidx⟩ := h.linked.node i hi
    have hne : (s.heap.hvec i).hnd≠a := fun he => by
      rw [he,hq] at hidx
      cases hidx
    exact ⟨(List.mem_erase_of_ne hne).mpr hm,hidx⟩
  · rw [hd] at hbi ⊢
    exact h.linked.handle b (List.mem_of_mem_erase hb) i hbi
  · rw [hd,List.length_erase_of_mem ha,← h.numNodes]
  · rw [hd]
    exact (Nat.sub_le _ 1).trans h.bound
  · rw [hd]
    exact hroom
  · rw [hqueue]
    exact .deallocate a mem hnone

theorem Ok.insert (h : s.Ok maxSize) {p : P} {mem : Bool}
    (hs : s.step N maxSize (.insert a p mem)=some s') :
    s'.Ok maxSize ∧ QueueStep (T := T) s.heap.getRoot s.queue (.insert a p mem) s'.queue := by
  simp only [step] at hs
  split_ifs at hs with ha
  obtain ⟨ha,hq⟩ := ha
  have hq : s.heap.heapIndex a=none := by simpa [DaryHeap.isQueued] using hq
  obtain ⟨r,hr,rfl⟩ := Option.map_eq_some_iff.mp hs
  obtain ⟨h1,h2,h3,h4,-,h5,h6,-⟩ := DaryHeap.insert_placed h.linked ha hq hr
  refine ⟨⟨by simpa [h2] using h1,h.nodup,h3.trans h.numNodes,h3.trans_le h.bound,
    (h3.trans_le h.room).trans h4⟩,?_⟩
  rw [queue_update (t := ⟨r.1,s.allocated⟩) ha rfl h5 h6]
  exact .insert a p mem (queue_eq_none fun _ => hq)

/-- A node is removed. -/
theorem Ok.removeH (h : s.Ok maxSize) {i : Nat} (hi : i< s.heap.size) :
    (⟨s.heap.removeH N i,s.allocated⟩ : HeapUse T P).Ok maxSize ∧
      (⟨s.heap.removeH N i,s.allocated⟩ : HeapUse T P).queue=
        Function.update s.queue (s.heap.hvec i).hnd none := by
  have hr := DaryHeap.removeH_removed (N := N) h.linked hi
  refine ⟨⟨by simpa [hr.size] using hr.linked,h.nodup,hr.alike.2.1.trans h.numNodes,
    hr.alike.2.1.trans_le h.bound,?_⟩,queue_update (h.isSome hi).1 rfl hr.self hr.others⟩
  rw [hr.alike.1,hr.alike.2.1]
  exact h.room

theorem Ok.setPriority (h : s.Ok maxSize) {p : P}
    (hs : s.step N maxSize (.setPriority a p)=some s') :
    s'.Ok maxSize ∧ QueueStep (T := T) s.heap.getRoot s.queue (.setPriority a p) s'.queue := by
  simp only [step] at hs
  split_ifs at hs with ha
  obtain ⟨r,hr,rfl⟩ := Option.map_eq_some_iff.mp hs
  obtain ⟨hp,-⟩ := DaryHeap.setPriority_placed h.linked ha hr
  have hsome : (s.queue a).isSome := by
    obtain ⟨i,hai,-⟩ := Option.map_eq_some_iff.mp hr
    simp [queue_of_mem ha,DaryHeap.contents,hai]
  refine ⟨⟨by simpa [hp.alike.size] using hp.linked,h.nodup,hp.alike.numNodes.trans h.numNodes,
    hp.alike.numNodes.trans_le h.bound,?_⟩,?_⟩
  · rw [hp.alike.numNodes,hp.alike.capacity]
    exact h.room
  · rw [queue_update (t := ⟨r.1,s.allocated⟩) ha rfl hp.self hp.others]
    exact .setPriority a p hsome

/-- Every operation does to the heap what it does to the queue. -/
theorem Ok.step (h : s.Ok maxSize) {k : HeapOp T P} (hs : s.step N maxSize k=some s') :
    s'.Ok maxSize ∧ QueueStep s.heap.getRoot s.queue k s'.queue := by
  cases k with
  | allocate a u mem retry => exact h.allocate hs
  | deallocate a mem => exact h.deallocate hs
  | insert a p mem => exact h.insert hs
  | pullRoot =>
    obtain ⟨he,hs⟩ := Option.ite_none_left_eq_some.mp hs
    obtain rfl := Option.some.inj hs
    have hi : 0< s.heap.size := Nat.pos_of_ne_zero (by simpa [DaryHeap.empty] using he)
    obtain ⟨hok,hq⟩ := h.removeH (N := N) hi
    refine ⟨hok,?_⟩
    rw [show (⟨s.heap.pullRoot N,s.allocated⟩ : HeapUse T P).queue=_ from hq]
    exact .pullRoot (h.isSome hi).2
  | remove a =>
    simp only [HeapUse.step] at hs
    split_ifs at hs with ha
    obtain ⟨h',hr,rfl⟩ := Option.map_eq_some_iff.mp hs
    obtain ⟨i,hai,rfl⟩ := Option.map_eq_some_iff.mp hr
    obtain ⟨hi,rfl⟩ := h.linked.handle a ha i hai
    obtain ⟨hok,hq⟩ := h.removeH (N := N) hi
    refine ⟨hok,?_⟩
    rw [hq]
    exact .remove _ (h.isSome hi).2
  | setPriority a p => exact h.setPriority hs

/-- The operations of a run, each with what `get_root` gives before it -/
def withRoots (N maxSize : Nat) [NeZero N] : HeapUse T P → List (HeapOp T P) →
    List (Nat × HeapOp T P)
  | _,[] => []
  | s,k::ks => (s.heap.getRoot,k)::((s.step N maxSize k).map (withRoots N maxSize · ks)).getD []

theorem Ok.run (h : s.Ok maxSize) {ks : List (HeapOp T P)}
    (hs : runs (HeapUse.step N maxSize) s ks=some s') :
    s'.Ok maxSize ∧ QueueRun s.queue (s.withRoots N maxSize ks) s'.queue := by
  induction ks generalizing s with
  | nil =>
    obtain rfl := Option.some.inj hs
    exact ⟨h,rfl⟩
  | cons k ks ih =>
    obtain ⟨t,ht,hs⟩ := runs_cons.mp hs
    obtain ⟨hok,hstep⟩ := h.step ht
    obtain ⟨hok',hrun⟩ := ih hok hs
    refine ⟨hok',t.queue,hstep,?_⟩
    rw [ht]
    exact hrun

/-- In every run from a new heap, whatever the memory holds, the heap is the queue that the
operations make, and every handle that is queued knows its node. -/
theorem heap_refines_queue (N maxSize : Nat) [NeZero N] (hvec : Nat → HeapNode P)
    (heapIndex : Nat → Option Nat) (nodeData : Nat → T) (ks : List (HeapOp T P)) (s : HeapUse T P)
    (hs : runs (HeapUse.step N maxSize) (.new hvec heapIndex nodeData) ks=some s) :
    QueueRun (fun _ => none) (withRoots N maxSize (.new hvec heapIndex nodeData) ks) s.queue ∧
      s.heap.Linked s.allocated s.heap.size := by
  obtain ⟨hok,hrun⟩ := (Ok.new hvec heapIndex nodeData).run hs
  refine ⟨?_,hok.linked⟩
  rwa [show (HeapUse.new hvec heapIndex nodeData).queue=fun _ => none from
    funext fun a => queue_eq_none fun ha => absurd ha List.not_mem_nil] at hrun

/-- Of four handles the root is pulled, one gets a higher priority and one is removed; the storage
and the indices hold anything at first. -/
def someInserted : List (HeapOp Unit Nat) :=
  [.allocate 6 () true true,.allocate 7 () true true,.allocate 8 () false true,
    .allocate 9 () true true,.insert 6 40 false,.insert 7 30 false,.insert 8 10 false,
    .insert 9 20 false,.pullRoot,.setPriority 6 15,.remove 7]

def anyHeap : HeapUse Unit Nat := .new (fun _ => ⟨0,0⟩) (fun _ => some 3) fun _ => ()

theorem heap_refines_queue_some : ∃ s, runs (HeapUse.step 4 100) anyHeap someInserted=some s ∧
    QueueRun (fun _ => none) (withRoots 4 100 anyHeap someInserted) s.queue ∧
    s.queue 6=some 15 ∧ s.queue 7=none ∧ s.queue 8=none ∧ s.queue 9=some 20 := by
  have hq : (runs (HeapUse.step 4 100) anyHeap someInserted).map
      (fun s => [s.queue 6,s.queue 7,s.queue 8,s.queue 9])=some [some 15,none,none,some 20] := by
    decide +kernel
  obtain ⟨s,hs,hq⟩ := Option.map_eq_some_iff.mp hq
  obtain ⟨hrun,-⟩ := heap_refines_queue 4 100 (fun _ => ⟨0,0⟩) (fun _ => some 3) (fun _ => ())
    someInserted s hs
  simp only [List.cons.injEq,and_true] at hq
  exact ⟨s,hs,hrun,hq⟩

omit [NeZero N] in
/-- There is room for a handle that is allocated and not queued. -/
theorem Ok.insert_eq (h : s.Ok maxSize) (ha : a ∈ s.allocated) (hq : s.heap.heapIndex a=none)
    (p : P) (mem : Bool) :
    ∃ r,s.heap.insert N maxSize a p mem=some r ∧ r.1.capacity=s.heap.capacity := by
  have hroom : s.heap.size< s.heap.capacity := (h.size_lt ha hq).trans_le h.room
  set g : DaryHeap T P := { s.heap with
    heapIndex := Function.update s.heap.heapIndex a (some s.heap.size) } with hg
  have hback : g.emplaceBack maxSize mem=some { g with size := g.size+1 } :=
    DaryHeap.emplaceBack_eq (h := g) hroom mem
  have hr : s.heap.insert N maxSize a p mem=some (DaryHeap.bubbleDown N
      { g with size := g.size+1 } (g.size+1-1) a p) := by
    unfold DaryHeap.insert
    dsimp only
    rw [← hg,hback]
    rfl
  refine ⟨_,hr,?_⟩
  exact DaryHeap.bubbleDown_rule (M := fun g _ => g.capacity=s.heap.capacity)
    (Q := fun r => r.1.capacity=s.heap.capacity) (fun _ _ hg _ _ => hg) (fun _ _ hg _ => hg) rfl

/-- In every run, inserting a handle that is allocated and not queued asks for no memory, and so
never throws. -/
theorem insert_needs_no_memory (N maxSize : Nat) [NeZero N] (hvec : Nat → HeapNode P)
    (heapIndex : Nat → Option Nat) (nodeData : Nat → T) (ks : List (HeapOp T P)) (s : HeapUse T P)
    (hs : runs (HeapUse.step N maxSize) (.new hvec heapIndex nodeData) ks=some s) (a : Nat)
    (ha : a ∈ s.allocated) (hq : s.heap.isQueued a=false) (p : P) (mem : Bool) :
    ∃ r, s.heap.insert N maxSize a p mem=some r ∧ r.1.capacity=s.heap.capacity :=
  ((Ok.new hvec heapIndex nodeData).run hs).1.insert_eq ha
    (by simpa [DaryHeap.isQueued] using hq) p mem

theorem insert_needs_no_memory_some : ∃ s,
    runs (HeapUse.step 4 100) anyHeap someInserted=some s ∧
    ∃ r, s.heap.insert 4 100 8 3 false=some r ∧ r.1.capacity=s.heap.capacity := by
  have hq : (runs (HeapUse.step 4 100) anyHeap someInserted).map
      (fun s => (s.allocated.contains 8,s.heap.isQueued 8))=some (true,false) := by decide +kernel
  obtain ⟨s,hs,hq⟩ := Option.map_eq_some_iff.mp hq
  obtain ⟨ha,hi⟩ := Prod.ext_iff.mp hq
  exact ⟨s,hs,insert_needs_no_memory 4 100 (fun _ => ⟨0,0⟩) (fun _ => some 3) (fun _ => ())
    someInserted s hs 8 (by simpa using ha) hi 3 false⟩

end HeapUse
end Dinit
