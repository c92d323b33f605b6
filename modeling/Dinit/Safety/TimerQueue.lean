import Dinit.EventLoop.Timers
import Dinit.Safety.HeapOrder
import Dinit.Safety.TimeDivide

namespace Dinit

open Framework

/-- The calls for the timers that are due: each of those that are enabled once, in the order of
their timeouts. `q` are the timeouts, `data` the data of the timers before. -/
structure Reports (q : Nat → Option TimeVal) (data : Nat → TimerData) (curtime : TimeVal)
    (new : List TimerExpiry) : Prop where
  nodup : (new.map (·.handle)).Nodup
  mem : ∀ e, e ∈ new ↔ (∃ t, q e.handle=some t ∧ t≤curtime) ∧ (data e.handle).enabled=true ∧
    e=⟨e.handle,(data e.handle).userdata,(data e.handle).expiryCount+1⟩
  sorted : new.Pairwise fun e f => ∀ t u, q e.handle=some t → q f.handle=some u → t≤u

/-- What becomes of the data of a timer that is due. -/
def TimerData.expire (d : TimerData) : TimerData :=
  if d.enabled then { d with enabled := false, expiryCount := 0 }
  else { d with expiryCount := d.expiryCount+1 }

namespace Reports

variable {q : Nat → Option TimeVal} {data data' : Nat → TimerData} {curtime t : TimeVal} {r : Nat}
  {new : List TimerExpiry}

theorem nil (h : ∀ a t, q a=some t → curtime<t) : Reports q data curtime [] where
  nodup := List.nodup_nil
  mem e := by
    simp only [List.not_mem_nil,false_iff]
    rintro ⟨⟨t,ht,hle⟩,-⟩
    exact (h _ t ht).not_ge hle
  sorted := .nil

section
variable (hr : q r=some t) (hle : t≤curtime) (hmin : ∀ a u, q a=some u → t≤u)
  (hdata : ∀ a, a≠r → data' a=data a) (h : Reports (Function.update q r none) data' curtime new)
include h

theorem ne_root (e : TimerExpiry) (he : e ∈ new) : e.handle≠r := by
  intro heq
  obtain ⟨⟨u,hu,-⟩,-⟩ := (h.mem e).mp he
  simp [heq] at hu

include hdata in
/-- The calls for the other timers are those that have not been made yet. -/
theorem mem_rest (e : TimerExpiry) (he : e.handle≠r) :
    e ∈ new ↔ (∃ t, q e.handle=some t ∧ t≤curtime) ∧ (data e.handle).enabled=true ∧
      e=⟨e.handle,(data e.handle).userdata,(data e.handle).expiryCount+1⟩ := by
  rw [h.mem,Function.update_of_ne he,hdata _ he]

theorem sorted_rest : new.Pairwise fun e f => ∀ t u, q e.handle=some t → q f.handle=some u → t≤u :=
  h.sorted.imp_of_mem fun {e f} he hf hef u v hu hv =>
    hef u v (by rwa [Function.update_of_ne (h.ne_root e he)])
      (by rwa [Function.update_of_ne (h.ne_root f hf)])

include hr hle hmin hdata

/-- The root is due and enabled. -/
theorem cons (hen : (data r).enabled=true) :
    Reports q data curtime (⟨r,(data r).userdata,(data r).expiryCount+1⟩::new) where
  nodup := by
    refine List.nodup_cons.mpr ⟨fun hm => ?_,h.nodup⟩
    obtain ⟨e,he,heq⟩ := List.mem_map.mp hm
    exact h.ne_root e he heq
  mem e := by
    by_cases he : e.handle=r
    · have hnot : e ∉ new := fun hm => h.ne_root e hm he
      simp only [List.mem_cons,hnot,or_false,he]
      exact ⟨fun heq => ⟨⟨t,hr,hle⟩,hen,heq⟩,fun h3 => h3.2.2⟩
    · rw [List.mem_cons,h.mem_rest hdata e he]
      refine or_iff_right fun heq => he ?_
      rw [heq]
  sorted := by
    refine List.pairwise_cons.mpr ⟨fun f _ u v hu hv => ?_,h.sorted_rest⟩
    obtain rfl : t=u := Option.some.inj (hr.symm.trans hu)
    exact hmin _ v hv

omit hr hle hmin in
/-- The root is due, but not enabled. -/
theorem skip (hen : (data r).enabled=false) : Reports q data curtime new where
  nodup := h.nodup
  mem e := by
    by_cases he : e.handle=r
    · refine iff_of_false (fun hm => h.ne_root e hm he) fun h3 => ?_
      rw [he,hen] at h3
      exact Bool.false_ne_true h3.2.1
    · exact h.mem_rest hdata e he
  sorted := h.sorted_rest

end

end Reports

namespace TimerEvents

variable {A : List Nat} {maxSize a : Nat} {u : TimerData} {curtime t : TimeVal} {s : TimerEvents}

/-- The heap with the handles that are allocated. -/
def use (A : List Nat) (s : TimerEvents) : HeapUse TimerData TimeVal := ⟨s.queue,A⟩

/-- The heap is one that its handles agree with, and in order. -/
structure Sound (maxSize : Nat) (A : List Nat) (s : TimerEvents) : Prop where
  ok : (s.use A).Ok maxSize
  ordered : s.queue.Ordered 4

theorem Sound.setData (h : s.Sound maxSize A) :
    { s with queue := s.queue.setData a u }.Sound maxSize A :=
  ⟨⟨⟨h.ok.linked.node,h.ok.linked.handle⟩,h.ok.nodup,h.ok.numNodes,h.ok.bound,h.ok.room⟩,h.ordered⟩

theorem Sound.pos (h : s.Sound maxSize A) (ht : (s.use A).queue a=some t) : 0< s.queue.size := by
  unfold HeapUse.queue at ht
  split_ifs at ht with ha
  obtain ⟨i,hi,-⟩ := Option.map_eq_some_iff.mp ht
  exact Nat.zero_lt_of_lt (h.ok.linked.handle a ha i hi).1

/-- The root, where there is one, is queued with the least timeout. -/
theorem Sound.root (h : s.Sound maxSize A) (hs : 0< s.queue.size) :
    s.queue.getRoot ∈ A ∧ (s.use A).queue s.queue.getRoot=some s.queue.getRootPriority ∧
      ∀ b u, (s.use A).queue b=some u → s.queue.getRootPriority≤u := by
  obtain ⟨hA,hq⟩ := h.ok.isSome hs
  obtain ⟨u,hu⟩ := Option.isSome_iff_exists.mp hq
  exact ⟨hA,(h.ok.root_least h.ordered hu).1,fun b u hb => (h.ok.root_least h.ordered hb).2⟩

/-- The root is removed. -/
theorem Sound.pullRoot (h : s.Sound maxSize A) (hs : 0< s.queue.size) :
    { s with queue := s.queue.pullRoot 4 }.Sound maxSize A ∧
      (HeapUse.mk (s.queue.pullRoot 4) A).queue=
        Function.update (s.use A).queue s.queue.getRoot none ∧
      (s.queue.pullRoot 4).size+1=s.queue.size ∧
      (s.queue.pullRoot 4).nodeData=s.queue.nodeData := by
  have hr := DaryHeap.removeH_removed (N := 4) h.ok.linked hs
  obtain ⟨hok,hq⟩ := h.ok.removeH (N := 4) hs
  have hsize : (s.queue.pullRoot 4).size=s.queue.size-1 := hr.size
  refine ⟨⟨hok,?_⟩,hq,by omega,hr.alike.2.2⟩
  exact (DaryHeap.removeH_ordered_iff h.ordered hs hr.size).mpr fun h0 => absurd h0 (lt_irrefl 0)

theorem Sound.report (h : s.Sound maxSize A) : (s.report a).Sound maxSize A := by
  unfold TimerEvents.report
  dsimp only
  split_ifs
  · exact ⟨h.setData.ok,h.setData.ordered⟩
  · exact h

/-- A round for a timer that expires once. -/
theorem processRoot_spec (curtime : TimeVal) (h : s.Sound maxSize A) (hs : 0< s.queue.size)
    (hi : (s.queue.nodeData s.queue.getRoot).intervalTime=⟨0,0⟩) :
    let r := s.queue.getRoot
    let d := s.queue.nodeData r
    ∃ s',s.processRoot maxSize curtime=some s' ∧ s'.Sound maxSize A ∧
      (s'.use A).queue=Function.update (s.use A).queue r none ∧
      s'.queue.nodeData=Function.update s.queue.nodeData r d.expire ∧
      s'.queue.size+1=s.queue.size ∧ s'.armed=s.armed ∧
      s'.expired=s.expired++(if d.enabled then [⟨r,d.userdata,d.expiryCount+1⟩] else []) := by
  intro r d
  set d' : TimerData := { d with expiryCount := d.expiryCount+1 } with hd'
  set g : TimerEvents := { s with queue := s.queue.setData r d' } with hg
  have hsound : g.Sound maxSize A := h.setData
  obtain ⟨h1,h2,h3,h4⟩ := hsound.pullRoot hs
  have hdata : (g.queue.pullRoot 4).nodeData=Function.update s.queue.nodeData r d' := h4
  set s₁ : TimerEvents := { s with queue := g.queue.pullRoot 4 } with hs₁
  have hs₁' : s₁.Sound maxSize A := ⟨h1.ok,h1.ordered⟩
  have hround : s.processRoot maxSize curtime=some (s₁.report r) := by
    have hzero : (s.queue.nodeData s.queue.getRoot).intervalTime.sec=0 ∧
        (s.queue.nodeData s.queue.getRoot).intervalTime.nsec=0 := by
      rw [hi]
      exact ⟨rfl,rfl⟩
    exact if_pos hzero
  have hen : (s₁.queue.nodeData r).enabled=d.enabled := by
    rw [hs₁,hdata,Function.update_self]
  refine ⟨_,hround,hs₁'.report,?_⟩
  unfold TimerEvents.report TimerData.expire
  dsimp only
  rw [hen]
  split_ifs with hen'
  · refine ⟨h2,?_,h3,rfl,?_⟩
    · simp [hs₁,DaryHeap.setData,hdata,hd']
    · simp [hs₁,hdata,hd']
  · exact ⟨h2,hdata,h3,rfl,(List.append_nil _).symm⟩

/-- Every timer that is queued expires once. -/
def OneShot (A : List Nat) (s : TimerEvents) : Prop :=
  ∀ a ∈ A, (s.queue.nodeData a).intervalTime=⟨0,0⟩

theorem expire_intervalTime (d : TimerData) : d.expire.intervalTime=d.intervalTime := by
  unfold TimerData.expire
  split_ifs <;> rfl

/-- What `process_timer_queue` does with timers that expire once: those that are due are reported
and removed, and no other is touched. -/
structure Drained (A : List Nat) (curtime : TimeVal) (s s' : TimerEvents) : Prop where
  queue : ∀ a, (s'.use A).queue a=((s.use A).queue a).filter (curtime<·)
  data : ∀ a, s'.queue.nodeData a=
    if ((s.use A).queue a).any (·≤curtime) then (s.queue.nodeData a).expire
    else s.queue.nodeData a
  armed : s'.armed=s.armed
  expired : ∃ new,s'.expired=s.expired++new ∧
    Reports (s.use A).queue s.queue.nodeData curtime new

/-- No timer is due. -/
theorem Drained.refl (hall : ∀ a t, (s.use A).queue a=some t → curtime<t) :
    Drained A curtime s s where
  queue a := by
    cases hq : (s.use A).queue a with
    | none => rfl
    | some t => simp [Option.filter,hall a t hq]
  data a := by
    refine (if_neg fun hany => ?_).symm
    obtain ⟨t,ht,hle⟩ := (Option.any_eq_true _ _).mp hany
    exact (hall a t ht).not_ge (of_decide_eq_true hle)
  armed := rfl
  expired := ⟨[],(List.append_nil _).symm,.nil hall⟩

/-- The root is due: what a round has done, and what the rounds after it do. -/
theorem Drained.round {s₁ s' : TimerEvents} {r : Nat} (hroot : (s.use A).queue r=some t)
    (hdue : t≤curtime) (hmin : ∀ b u, (s.use A).queue b=some u → t≤u)
    (hqueue : (s₁.use A).queue=Function.update (s.use A).queue r none)
    (hdata : s₁.queue.nodeData=Function.update s.queue.nodeData r (s.queue.nodeData r).expire)
    (harm : s₁.armed=s.armed)
    (hexp : s₁.expired=s.expired++(if (s.queue.nodeData r).enabled then
      [⟨r,(s.queue.nodeData r).userdata,(s.queue.nodeData r).expiryCount+1⟩] else []))
    (h : Drained A curtime s₁ s') : Drained A curtime s s' := by
  obtain ⟨hq,hd,harm',new,hnew,hrep⟩ := h
  refine ⟨fun a => ?_,fun a => ?_,harm'.trans harm,?_⟩
  · rw [hq,hqueue]
    by_cases har : a=r
    · simp [har,hroot,Option.filter,not_lt.mpr hdue]
    · rw [Function.update_of_ne har]
  · rw [hd,hqueue,hdata]
    by_cases har : a=r
    · simp [har,hroot,hdue]
    · rw [Function.update_of_ne har,Function.update_of_ne har]
  · rw [hqueue] at hrep
    have hdata' (a : Nat) (ha : a≠r) : s₁.queue.nodeData a=s.queue.nodeData a := by
      rw [hdata,Function.update_of_ne ha]
    rw [hnew,hexp,List.append_assoc]
    refine ⟨_,rfl,?_⟩
    cases hen : (s.queue.nodeData r).enabled with
    | true => exact hrep.cons hroot hdue hmin hdata' hen
    | false => exact hrep.skip hdata' hen

theorem OneShot.round {s₁ : TimerEvents} {r : Nat} (hi : s.OneShot A)
    (hdata : s₁.queue.nodeData=Function.update s.queue.nodeData r (s.queue.nodeData r).expire) :
    s₁.OneShot A := by
  intro a ha
  rw [hdata]
  by_cases har : a=r
  · rw [har,Function.update_self,expire_intervalTime,← har]
    exact hi a ha
  · rw [Function.update_of_ne har]
    exact hi a ha

theorem processTimerQueue_drained {s' : TimerEvents} (h : s.Sound maxSize A) (hi : s.OneShot A)
    {fuel : Nat} (hs : s.processTimerQueue maxSize curtime fuel=some s') :
    s'.Sound maxSize A ∧ Drained A curtime s s' := by
  induction fuel generalizing s with
  | zero => cases hs
  | succ fuel ih =>
    unfold processTimerQueue at hs
    split_ifs at hs with hempty hdue
    · obtain rfl := Option.some.inj hs
      have hsize : s.queue.size=0 := by simpa [DaryHeap.empty] using hempty
      refine ⟨h,.refl fun a t ht => ?_⟩
      have := h.pos ht
      omega
    · have hpos : 0< s.queue.size := Nat.pos_of_ne_zero (by simpa [DaryHeap.empty] using hempty)
      obtain ⟨hA,hroot,hmin⟩ := h.root hpos
      obtain ⟨s₁,h1,h2,h3,h4,-,h5,h6⟩ := processRoot_spec curtime h hpos (hi _ hA)
      rw [h1] at hs
      obtain ⟨h7,h8⟩ := ih h2 (hi.round h4) hs
      exact ⟨h7,h8.round hroot hdue hmin h3 h4 h5 h6⟩
    · obtain rfl := Option.some.inj hs
      have hpos : 0< s.queue.size := Nat.pos_of_ne_zero (by simpa [DaryHeap.empty] using hempty)
      exact ⟨h,.refl fun a t ht => (not_le.mp hdue).trans_le ((h.root hpos).2.2 a t ht)⟩

/-- A round for each timer, and one more, is enough. -/
theorem processTimerQueue_isSome (curtime : TimeVal) (h : s.Sound maxSize A) (hi : s.OneShot A)
    {fuel : Nat} (hfuel : s.queue.size<fuel) : ∃ s',s.processTimerQueue maxSize curtime fuel=some s' := by
  induction fuel generalizing s with
  | zero => exact absurd hfuel (Nat.not_lt_zero _)
  | succ fuel ih =>
    unfold processTimerQueue
    split_ifs with hempty hdue
    · exact ⟨s,rfl⟩
    · have hpos : 0< s.queue.size := Nat.pos_of_ne_zero (by simpa [DaryHeap.empty] using hempty)
      obtain ⟨s₁,h1,h2,-,h4,h5,-⟩ :=
        processRoot_spec curtime h hpos (hi _ (h.root hpos).1)
      rw [h1]
      exact ih h2 (hi.round h4) (by omega)
    · exact ⟨s,rfl⟩

end TimerEvents
end Dinit
