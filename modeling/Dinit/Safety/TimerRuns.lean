import Dinit.Safety.TimerQueue

namespace Dinit

open Framework

/-- A time that a descriptor can be armed with. -/
structure TimeVal.Proper (t : TimeVal) : Prop extends t.Normal where
  ne_zero : t≠⟨0,0⟩

theorem settime_proper {armed : Option TimeVal} {t : TimeVal} (ht : t.Proper) :
    settime armed t=some t := by
  unfold settime
  rw [if_pos ⟨ht.sec,ht.nsec,ht.lt⟩,if_neg ht.ne_zero]

namespace TimersUse

variable {maxSize : Nat} {s s' : TimersUse} {a : Nat}

def queue (s : TimersUse) : Nat → Option TimeVal := s.heapUse.queue

/-- The descriptor expires no later than any timer that is queued. -/
def Guarded (s : TimersUse) : Prop :=
  ∀ a t, s.queue a=some t → ∃ t', s.events.armed=some t' ∧ t'≤t

structure Good (maxSize : Nat) (s : TimersUse) : Prop where
  sound : s.events.Sound maxSize s.allocated
  oneShot : s.events.OneShot s.allocated
  proper : ∀ a t, s.queue a=some t → t.Proper
  guarded : s.Guarded

/-- Timers expire once, at a time that the descriptor can be armed with; and the operation does
not disturb the heap. -/
def Fits (s : TimersUse) : TimerOp → Prop
  | .set a timeout interval _ =>
    interval=⟨0,0⟩ ∧ timeout.Proper ∧ HeapUse.Fits 4 s.heapUse (.setPriority a timeout)
  | .stop a => HeapUse.Fits 4 s.heapUse (.remove a)
  | .remove a _ => HeapUse.Fits 4 s.heapUse (.remove a)
  | _ => True

/-- Enough for that, and decidable -/
def Lowers (s : TimersUse) : TimerOp → Prop
  | .set a timeout interval _ =>
    interval=⟨0,0⟩ ∧ timeout.Proper ∧ HeapUse.Lowers 4 s.heapUse (.setPriority a timeout)
  | .stop a => HeapUse.Lowers 4 s.heapUse (.remove a)
  | .remove a _ => HeapUse.Lowers 4 s.heapUse (.remove a)
  | _ => True

instance (t : TimeVal) : Decidable t.Proper :=
  decidable_of_iff ((0≤t.sec ∧ 0≤t.nsec ∧ t.nsec<1000000000) ∧ t≠⟨0,0⟩)
    ⟨fun ⟨⟨h1,h2,h3⟩,h4⟩ => ⟨⟨h1,h2,h3⟩,h4⟩,fun h => ⟨⟨h.sec,h.nsec,h.lt⟩,h.ne_zero⟩⟩

instance (s : TimersUse) (k : TimerOp) : Decidable (s.Lowers k) := by
  unfold Lowers
  split <;> infer_instance

theorem Lowers.fits {k : TimerOp} (h : s.Lowers k) : s.Fits k := by
  cases k with
  | set a timeout interval enable => exact ⟨h.1,h.2.1,h.2.2.fits⟩
  | stop a => exact HeapUse.Lowers.fits (k := .remove a) h
  | remove a mem => exact HeapUse.Lowers.fits (k := .remove a) h
  | _ => trivial

/-- Armed as before, and every timer queued is as late as one that was queued before. -/
theorem Good.guarded_of_later (h : s.Good maxSize) (harm : s'.events.armed=s.events.armed)
    (hq : ∀ b t, s'.queue b=some t → ∃ c u,s.queue c=some u ∧ u≤t) : s'.Guarded := by
  intro b t hb
  obtain ⟨c,u,hc,hle⟩ := hq b t hb
  obtain ⟨t',ht',hle'⟩ := h.guarded c u hc
  exact ⟨t',harm.trans ht',hle'.trans hle⟩

section
variable {e : TimerEvents} {A : List Nat} (h : e.Sound maxSize A)
  (hp : ∀ a t, (e.use A).queue a=some t → t.Proper)
include h hp

/-- The descriptor is armed with the timeout of the root, which is the first. -/
theorem rearm_armed {t : TimeVal} (ha : (e.use A).queue a=some t) :
    e.setTimerFromQueue.armed=some e.queue.getRootPriority ∧
      (e.use A).queue e.queue.getRoot=some e.queue.getRootPriority ∧
      e.queue.getRootPriority≤t := by
  have hs : 0<e.queue.size := h.pos ha
  obtain ⟨-,hroot,hmin⟩ := h.root hs
  have hempty : e.queue.empty=false := by simp [DaryHeap.empty,hs.ne']
  refine ⟨?_,hroot,hmin a t ha⟩
  unfold TimerEvents.setTimerFromQueue
  rw [hempty]
  exact settime_proper (hp _ _ hroot)

theorem Good.rearm (hi : e.OneShot A) : Good maxSize ⟨e.setTimerFromQueue,A⟩ := by
  refine ⟨⟨h.ok,h.ordered⟩,hi,hp,fun b t hb => ?_⟩
  obtain ⟨h1,-,h2⟩ := rearm_armed h hp hb
  exact ⟨_,h1,h2⟩

end

theorem Good.enable (h : s.Good maxSize) {en : Bool} :
    Good maxSize ⟨s.events.enableTimer a en,s.allocated⟩ := by
  have hi (u : TimerData) (hu : u.intervalTime=(s.events.queue.nodeData a).intervalTime) :
      ∀ b ∈ s.allocated, (Function.update s.events.queue.nodeData a u b).intervalTime=⟨0,0⟩ := by
    intro b hb
    by_cases hba : b=a
    · subst hba
      rw [Function.update_self,hu]
      exact h.oneShot b hb
    · rw [Function.update_of_ne hba]
      exact h.oneShot b hb
  unfold TimerEvents.enableTimer
  dsimp only
  split_ifs
  · exact ⟨⟨h.sound.setData.ok,h.sound.ordered⟩,hi _ rfl,h.proper,h.guarded⟩
  · exact ⟨⟨h.sound.setData.ok,h.sound.ordered⟩,hi _ rfl,h.proper,h.guarded⟩

/-- An operation on the heap that gives no timer an earlier timeout than it had. -/
theorem Good.of_heap (h : s.Good maxSize) {k : HeapOp TimerData TimeVal} {g : HeapUse TimerData TimeVal}
    (hs : s.heapUse.step 4 maxSize k=some g) (hf : HeapUse.Fits 4 s.heapUse k)
    (hq : ∀ b t, g.queue b=some t → s.queue b=some t)
    (hi : ∀ b ∈ g.allocated, (g.heap.nodeData b).intervalTime=⟨0,0⟩) :
    Good maxSize ⟨{ s.events with queue := g.heap },g.allocated⟩ :=
  ⟨⟨(h.sound.ok.step hs).1,(h.sound.ok.ordered_iff h.sound.ordered hs).mpr hf⟩,hi,
    fun b t hb => h.proper b t (hq b t hb),
    h.guarded_of_later rfl fun b t hb => ⟨b,t,hq b t hb,le_rfl⟩⟩

theorem Good.add (h : s.Good maxSize) {udata : Nat} {mem retry : Bool}
    (hs : s.step maxSize (.add a udata mem retry)=some s') : s'.Good maxSize := by
  simp only [step] at hs
  split_ifs at hs with ha
  obtain rfl := Option.some.inj hs
  split
  · next queue hr =>
    obtain ⟨-,-,-,hdata,-⟩ := DaryHeap.allocate_alike h.sound.ok.bound hr
    have hstep : s.heapUse.step 4 maxSize (.allocate a (.new udata) mem retry)=
        some ⟨queue,a::s.allocated⟩ := by
      have ha : a ∉ s.heapUse.allocated := ha
      have hr : s.heapUse.heap.allocate maxSize a (.new udata) mem retry=some queue := hr
      simp only [HeapUse.step,if_neg ha,hr]
      rfl
    refine h.of_heap hstep trivial (fun b t hb => ?_) fun b hb => ?_
    · exact (congrFun (h.sound.ok.step hstep).2.allocate_eq b).symm.trans hb
    · rw [hdata]
      by_cases hba : b=a
      · rw [hba,Function.update_self]
        rfl
      · rw [Function.update_of_ne hba]
        exact h.oneShot b (List.mem_of_ne_of_mem hba hb)
  · exact h

/-- A timer that was queued is removed from the heap. -/
theorem Good.remove_queued (h : s.Good maxSize) (ha : a ∈ s.allocated) {queue : TimerQueue}
    (hr : s.events.queue.remove 4 a=some queue) (hf : HeapUse.Fits 4 s.heapUse (.remove a)) :
    Good maxSize ⟨{ s.events with queue := queue },s.allocated⟩ ∧
      (HeapUse.mk queue s.allocated).queue=Function.update s.queue a none := by
  obtain ⟨i,hai,rfl⟩ := Option.map_eq_some_iff.mp hr
  obtain ⟨hi,hia⟩ := h.sound.ok.linked.handle a ha i hai
  have hstep : s.heapUse.step 4 maxSize (.remove a)=
      some ⟨s.events.queue.removeH 4 i,s.allocated⟩ := by
    have ha : a ∈ s.heapUse.allocated := ha
    have hr : s.heapUse.heap.remove 4 a=some (s.events.queue.removeH 4 i) := hr
    simp only [HeapUse.step,if_pos ha,hr]
    rfl
  have hq := (h.sound.ok.removeH (N := 4) hi).2
  rw [hia] at hq
  refine ⟨h.of_heap hstep hf (fun b t hb => ?_) fun b hb => ?_,hq⟩
  · rw [show (HeapUse.mk (s.events.queue.removeH 4 i) s.allocated).queue b=_ from congrFun hq b] at hb
    by_cases hba : b=a
    · simp [hba] at hb
    · rwa [Function.update_of_ne hba] at hb
  · have hdata : (s.events.queue.removeH 4 i).nodeData=s.events.queue.nodeData :=
      (DaryHeap.removeH_removed (N := 4) h.sound.ok.linked hi).alike.2.2
    rw [hdata]
    exact h.oneShot b hb

theorem Good.deallocate (h : s.Good maxSize) (ha : a ∈ s.allocated) (hq : s.queue a=none) {mem : Bool} :
    Good maxSize ⟨{ s.events with queue := s.events.queue.deallocate mem },s.allocated.erase a⟩ := by
  have hidx : s.heapUse.heap.isQueued a=false := by
    have hc : s.heapUse.heap.contents a=none := (HeapUse.queue_of_mem (s := s.heapUse) ha).symm.trans hq
    simpa [DaryHeap.isQueued,DaryHeap.contents] using hc
  have hstep : s.heapUse.step 4 maxSize (.deallocate a mem)=
      some ⟨s.events.queue.deallocate mem,s.allocated.erase a⟩ := by
    have ha : a ∈ s.heapUse.allocated := ha
    simp only [HeapUse.step]
    rw [if_pos ⟨ha,by simp [hidx]⟩]
    rfl
  refine h.of_heap hstep trivial (fun b t hb => ?_) fun b hb => ?_
  · exact (congrFun (h.sound.ok.step hstep).2.deallocate_eq b).symm.trans hb
  · have hdata : (s.events.queue.deallocate mem).nodeData=s.events.queue.nodeData := by
      rw [(DaryHeap.deallocate_alike (h := s.events.queue) h.sound.ok.room mem).1]
    rw [hdata]
    exact h.oneShot b (List.mem_of_mem_erase hb)

theorem Good.remove (h : s.Good maxSize) (ha : a ∈ s.allocated) {mem : Bool}
    (hf : HeapUse.Fits 4 s.heapUse (.remove a)) :
    Good maxSize ⟨s.events.removeTimer a mem,s.allocated.erase a⟩ := by
  unfold TimerEvents.removeTimer
  cases hr : s.events.queue.remove 4 a with
  | none =>
    have hidx : s.events.queue.heapIndex a=none := by simpa [DaryHeap.remove] using hr
    exact h.deallocate ha (HeapUse.queue_eq_none fun _ => hidx)
  | some queue =>
    obtain ⟨h1,h2⟩ := h.remove_queued ha hr hf
    exact h1.deallocate ha ((congrFun h2 a).trans (Function.update_self ..))

theorem Good.stop (h : s.Good maxSize) (ha : a ∈ s.allocated)
    (hf : HeapUse.Fits 4 s.heapUse (.remove a)) :
    Good maxSize ⟨s.events.stopTimer a,s.allocated⟩ := by
  unfold TimerEvents.stopTimer
  split
  · next queue hr =>
    obtain ⟨h1,-⟩ := h.remove_queued ha hr hf
    split_ifs
    · exact .rearm h1.sound h1.proper h1.oneShot
    · exact h1
  · exact h

/-- The timer `a` has got the timeout `p`: the descriptor is armed again if it is the root, or
else it is not, or was earlier before. -/
theorem Good.set_timeout (h : s.Good maxSize) {e : TimerEvents} {first : Bool} {p : TimeVal}
    (hsound : e.Sound maxSize s.allocated) (hi : e.OneShot s.allocated)
    (harm : e.armed=s.events.armed) (hp : p.Proper)
    (hq : (e.use s.allocated).queue=Function.update s.queue a (some p))
    (hfirst : first=false → e.queue.getRoot=a → ∃ p₀,s.queue a=some p₀ ∧ p₀<p) :
    Good maxSize ⟨if first then e.setTimerFromQueue else e,s.allocated⟩ := by
  have hproper (b : Nat) (t : TimeVal) (hb : (e.use s.allocated).queue b=some t) : t.Proper := by
    rw [hq] at hb
    by_cases hba : b=a
    · obtain rfl : p=t := by simpa [hba] using hb
      exact hp
    · exact h.proper b t (by rwa [Function.update_of_ne hba] at hb)
  have hother (b : Nat) (t : TimeVal) (hba : b≠a) (hb : (e.use s.allocated).queue b=some t) :
      s.queue b=some t := by rwa [hq,Function.update_of_ne hba] at hb
  split_ifs with hf
  · exact .rearm hsound hproper hi
  · refine ⟨hsound,hi,hproper,h.guarded_of_later harm fun b t hb => ?_⟩
    by_cases hba : b=a
    · obtain ⟨-,hroot,hmin⟩ := hsound.root (hsound.pos (a := b) (t := t) hb)
      by_cases hra : e.queue.getRoot=a
      · obtain ⟨p₀,h1,h2⟩ := hfirst (by simpa using hf) hra
        obtain rfl : p=t := by
          have hb : (e.use s.allocated).queue b=some t := hb
          simpa [hq,hba] using hb
        exact ⟨a,p₀,h1,h2.le⟩
      · exact ⟨_,_,hother _ _ hra hroot,hmin b t hb⟩
    · exact ⟨b,t,hother b t hba hb,le_rfl⟩

/-- The data of a timer is written, with an interval of zero. -/
theorem Good.setData (h : s.Good maxSize) {u : TimerData} (hu : u.intervalTime=⟨0,0⟩) :
    Good maxSize ⟨{ s.events with queue := s.events.queue.setData a u },s.allocated⟩ := by
  refine ⟨h.sound.setData,fun b hb => ?_,h.proper,h.guarded⟩
  show (Function.update s.events.queue.nodeData a u b).intervalTime=⟨0,0⟩
  by_cases hba : b=a
  · rw [hba,Function.update_self]
    exact hu
  · rw [Function.update_of_ne hba]
    exact h.oneShot b hb

/-- The heap is given the timeout of a timer. -/
theorem Good.place (h : s.Good maxSize) (ha : a ∈ s.allocated) {p : TimeVal}
    {r : TimerQueue × Bool} (hp : p.Proper) (hf : HeapUse.Fits 4 s.heapUse (.setPriority a p))
    (hr : (if s.events.queue.isQueued a then s.events.queue.setPriority 4 a p
      else s.events.queue.insert 4 maxSize a p false)=some r) :
    Good maxSize ⟨if r.2 then { s.events with queue := r.1 }.setTimerFromQueue
      else { s.events with queue := r.1 },s.allocated⟩ := by
  have ha' : a ∈ s.heapUse.allocated := ha
  have hone {d : Nat → TimerData} (hd : d=s.events.queue.nodeData) (b : Nat) (hb : b ∈ s.allocated) :
      (d b).intervalTime=⟨0,0⟩ := by
    rw [hd]
    exact h.oneShot b hb
  split_ifs at hr with hqueued
  · have hr' : s.heapUse.heap.setPriority 4 a p=some r := hr
    have hstep : s.heapUse.step 4 maxSize (.setPriority a p)=some ⟨r.1,s.allocated⟩ := by
      simp only [HeapUse.step,if_pos ha',hr']
      rfl
    obtain ⟨hplaced,-,hfirst⟩ := DaryHeap.setPriority_placed h.sound.ok.linked ha hr
    refine h.set_timeout ⟨(h.sound.ok.step hstep).1,
      (h.sound.ok.ordered_iff h.sound.ordered hstep).mpr hf⟩ (hone hplaced.alike.nodeData) rfl hp
      (HeapUse.queue_update (s := s.heapUse) ha rfl hplaced.self hplaced.others) fun h1 h2 => ?_
    obtain ⟨p₀,h3,h4⟩ := hfirst h1 h2
    exact ⟨p₀,(HeapUse.queue_of_mem (s := s.heapUse) ha).trans h3,h4⟩
  · have hr' : s.heapUse.heap.insert 4 maxSize a p false=some r := hr
    have hidx : s.events.queue.heapIndex a=none := by simpa [DaryHeap.isQueued] using hqueued
    have hstep : s.heapUse.step 4 maxSize (.insert a p false)=some ⟨r.1,s.allocated⟩ := by
      have hq : ¬s.heapUse.heap.isQueued a := hqueued
      simp only [HeapUse.step,if_pos (And.intro ha' hq),hr']
      rfl
    obtain ⟨-,-,-,-,hdata,hself,hothers,hfirst⟩ :=
      DaryHeap.insert_placed h.sound.ok.linked ha hidx hr
    refine h.set_timeout ⟨(h.sound.ok.step hstep).1,
      (h.sound.ok.ordered_iff h.sound.ordered hstep).mpr trivial⟩ (hone hdata) rfl hp
      (HeapUse.queue_update (s := s.heapUse) ha rfl hself hothers) fun h1 h2 => ?_
    rw [hfirst.mpr h2] at h1
    exact absurd h1 (by decide)

theorem Good.set (h : s.Good maxSize) (ha : a ∈ s.allocated) {p interval : TimeVal} {en : Bool}
    (hi : interval=⟨0,0⟩) (hp : p.Proper) (hf : HeapUse.Fits 4 s.heapUse (.setPriority a p))
    {e : TimerEvents} (he : s.events.setTimer maxSize a p interval en=some e) :
    Good maxSize ⟨e,s.allocated⟩ := by
  unfold TimerEvents.setTimer at he
  obtain ⟨r,hr,rfl⟩ := Option.map_eq_some_iff.mp he
  refine (h.setData hi).place ha hp (fun i hai => ?_) hr
  exact DaryHeap.LastSpared.congr (h := s.events.queue) rfl rfl (hf i hai)

/-- A timer that has been set is queued for the time given, and has not expired yet. -/
theorem Good.set_queue (h : s.Good maxSize) (ha : a ∈ s.allocated) {p interval : TimeVal}
    {en : Bool} {e : TimerEvents} (he : s.events.setTimer maxSize a p interval en=some e) :
    queue ⟨e,s.allocated⟩ a=some p ∧
      e.queue.nodeData a=⟨interval,0,en,(s.events.queue.nodeData a).userdata⟩ := by
  unfold TimerEvents.setTimer at he
  obtain ⟨r,hr,rfl⟩ := Option.map_eq_some_iff.mp he
  have hqueue {e : TimerEvents} (hself : e.queue.contents a=some p) :
      queue ⟨e,s.allocated⟩ a=some p := (if_pos ha).trans hself
  have hl := (h.sound.setData (a := a) (u := ⟨interval,0,en,(s.events.queue.nodeData a).userdata⟩)).ok.linked
  have hplaced : r.1.contents a=some p ∧ r.1.nodeData=Function.update s.events.queue.nodeData a
      ⟨interval,0,en,(s.events.queue.nodeData a).userdata⟩ := by
    dsimp only at hr
    split_ifs at hr with hqueued
    · obtain ⟨hp,-⟩ := DaryHeap.setPriority_placed hl ha hr
      exact ⟨hp.self,hp.alike.nodeData⟩
    · have hidx : s.events.queue.heapIndex a=none := by
        simpa [DaryHeap.isQueued,DaryHeap.setData] using hqueued
      obtain ⟨-,-,-,-,hdata,hself,-⟩ := DaryHeap.insert_placed hl ha hidx hr
      exact ⟨hself,hdata⟩
  dsimp only
  split_ifs
  · exact ⟨hqueue hplaced.1,(congrFun hplaced.2 a).trans (Function.update_self ..)⟩
  · exact ⟨hqueue hplaced.1,(congrFun hplaced.2 a).trans (Function.update_self ..)⟩

section
variable (h : s.Good maxSize) {curtime : TimeVal} {fuel : Nat} {e : TimerEvents}
  (he : s.events.processTimerQueue maxSize curtime fuel=some e)
include h he

theorem Good.proper_drained {t : TimeVal} (ha : (e.use s.allocated).queue a=some t) :
    t.Proper ∧ curtime<t := by
  obtain ⟨-,hd⟩ := TimerEvents.processTimerQueue_drained h.sound h.oneShot he
  rw [hd.queue] at ha
  obtain ⟨h1,h2⟩ := Option.filter_eq_some_iff.mp ha
  exact ⟨h.proper a t h1,of_decide_eq_true h2⟩

theorem Good.process : Good maxSize ⟨e.setTimerFromQueue,s.allocated⟩ := by
  obtain ⟨hs,hd⟩ := TimerEvents.processTimerQueue_drained h.sound h.oneShot he
  refine .rearm hs (fun b t hb => (h.proper_drained he hb).1) fun b hb => ?_
  rw [hd.data]
  split_ifs
  · rw [TimerEvents.expire_intervalTime]
    exact h.oneShot b hb
  · exact h.oneShot b hb

end

theorem Good.step (h : s.Good maxSize) {k : TimerOp} (hf : s.Fits k) (hs : s.step maxSize k=some s') :
    s'.Good maxSize := by
  cases k with
  | add a udata mem retry => exact h.add hs
  | remove a mem =>
    obtain ⟨ha,hs⟩ := Option.ite_none_right_eq_some.mp hs
    obtain rfl := Option.some.inj hs
    exact h.remove ha hf
  | enable a en =>
    obtain ⟨ha,hs⟩ := Option.ite_none_right_eq_some.mp hs
    obtain rfl := Option.some.inj hs
    exact h.enable
  | set a timeout interval en =>
    obtain ⟨ha,hs⟩ := Option.ite_none_right_eq_some.mp hs
    obtain ⟨e,he,rfl⟩ := Option.map_eq_some_iff.mp hs
    exact h.set ha hf.1 hf.2.1 hf.2.2 he
  | stop a =>
    obtain ⟨ha,hs⟩ := Option.ite_none_right_eq_some.mp hs
    obtain rfl := Option.some.inj hs
    exact h.stop ha hf
  | process curtime fuel =>
    obtain ⟨e,he,rfl⟩ := Option.map_eq_some_iff.mp hs
    obtain ⟨e',he',rfl⟩ := Option.map_eq_some_iff.mp he
    exact h.process he'

theorem Good.new (hvec : Nat → HeapNode TimeVal) (heapIndex : Nat → Option Nat)
    (nodeData : Nat → TimerData) : (new hvec heapIndex nodeData).Good maxSize := by
  have hnone (a : Nat) (t : TimeVal) (ha : (TimersUse.new hvec heapIndex nodeData).queue a=some t) :
      False := by
    rw [show (TimersUse.new hvec heapIndex nodeData).queue a=none from
      HeapUse.queue_eq_none fun (ha : a ∈ []) => absurd ha List.not_mem_nil] at ha
    cases ha
  exact ⟨⟨HeapUse.Ok.new hvec heapIndex nodeData,fun i _ hi => absurd hi (Nat.not_lt_zero i)⟩,
    fun a ha => absurd ha List.not_mem_nil,fun a t ht => (hnone a t ht).elim,
    fun a t ht => (hnone a t ht).elim⟩

theorem Good.run (h : s.Good maxSize) {ks : List TimerOp} (hf : Along (TimersUse.step maxSize) Fits s ks)
    (hs : runs (TimersUse.step maxSize) s ks=some s') : s'.Good maxSize :=
  runs_inv (fun _ _ _ h hs hf => h.step hf hs) h hf hs

/-- In every run with timers that expire once, and that leaves the heap undisturbed, the
descriptor is armed whenever a timer is queued, and no later than any of them. -/
theorem timers_guarded (maxSize : Nat) (hvec : Nat → HeapNode TimeVal)
    (heapIndex : Nat → Option Nat) (nodeData : Nat → TimerData) (ks : List TimerOp) (s : TimersUse)
    (hs : runs (step maxSize) (new hvec heapIndex nodeData) ks=some s)
    (hf : Along (step maxSize) Fits (new hvec heapIndex nodeData) ks) (a : Nat) (t : TimeVal)
    (ha : s.queue a=some t) : ∃ t',s.events.armed=some t' ∧ t'≤t :=
  ((Good.new hvec heapIndex nodeData).run hf hs).guarded a t ha

/-- Of three timers that are set, one has expired, one is set again for an earlier time, and one is
stopped. A fourth is set then. -/
def someSet : List TimerOp :=
  [.add 6 0 true true,.add 7 1 true true,.add 8 2 false true,.add 9 3 true true,
    .set 6 ⟨9,0⟩ ⟨0,0⟩ true,.set 7 ⟨5,0⟩ ⟨0,0⟩ true,.set 8 ⟨2,0⟩ ⟨0,0⟩ true,.process ⟨3,0⟩ 4,
    .set 6 ⟨4,500⟩ ⟨0,0⟩ true,.stop 7,.set 9 ⟨8,0⟩ ⟨0,0⟩ true]

def anyTimers : TimersUse := .new (fun _ => ⟨⟨0,0⟩,0⟩) (fun _ => some 3) fun _ => .new 0

theorem someSet_fits : Along (step 100) Fits anyTimers someSet := by
  have h : Along (step 100) Lowers anyTimers someSet := by decide +kernel
  exact h.mono fun _ _ h => h.fits

theorem someSet_run : ∃ s,runs (step 100) anyTimers someSet=some s ∧
    [s.queue 6,s.queue 7,s.queue 8,s.queue 9]=[some ⟨4,500⟩,none,none,some ⟨8,0⟩] ∧
    (s.events.queue.nodeData 6).enabled=true ∧ (s.events.queue.nodeData 6).expiryCount=0 ∧
    (s.events.queue.nodeData 6).userdata=0 ∧ s.events.queue.size=2 := by
  have hq : (runs (step 100) anyTimers someSet).map
      (fun s => [s.queue 6,s.queue 7,s.queue 8,s.queue 9])=
        some [some ⟨4,500⟩,none,none,some ⟨8,0⟩] := by decide +kernel
  obtain ⟨s,hs,hq⟩ := Option.map_eq_some_iff.mp hq
  have hd : (runs (step 100) anyTimers someSet).map (fun s =>
      ((s.events.queue.nodeData 6).enabled,(s.events.queue.nodeData 6).expiryCount,
        (s.events.queue.nodeData 6).userdata,s.events.queue.size))=some (true,0,0,2) := by
    decide +kernel
  rw [hs] at hd
  simp only [Option.map_some,Option.some.injEq,Prod.mk.injEq] at hd
  exact ⟨s,hs,hq,hd⟩

theorem timers_guarded_some : ∃ s,runs (step 100) anyTimers someSet=some s ∧
    ∃ t',s.events.armed=some t' ∧ t'≤⟨4,500⟩ := by
  obtain ⟨s,hs,hq,-⟩ := someSet_run
  exact ⟨s,hs,timers_guarded 100 (fun _ => ⟨⟨0,0⟩,0⟩) (fun _ => some 3) (fun _ => .new 0) someSet s hs
    someSet_fits 6 ⟨4,500⟩ (List.cons_eq_cons.mp hq).1⟩

/-- Whenever the descriptor is served in such a run, just the timers that are due are reported,
if enabled, and removed; and it is armed for the first of the others. -/
theorem timers_expire (maxSize : Nat) (hvec : Nat → HeapNode TimeVal)
    (heapIndex : Nat → Option Nat) (nodeData : Nat → TimerData) (ks : List TimerOp) (s : TimersUse)
    (hs : runs (step maxSize) (new hvec heapIndex nodeData) ks=some s)
    (hf : Along (step maxSize) Fits (new hvec heapIndex nodeData) ks) (curtime : TimeVal)
    (fuel : Nat) (hfuel : s.events.queue.size<fuel) :
    ∃ s' new,s.step maxSize (.process curtime fuel)=some s' ∧
      s'.events.expired=s.events.expired++new ∧
      Reports s.queue s.events.queue.nodeData curtime new ∧
      (∀ a, s'.queue a=(s.queue a).filter (curtime<·)) ∧
      ∀ a t, s'.queue a=some t →
        ∃ b t',s'.events.armed=some t' ∧ s'.queue b=some t' ∧ curtime<t' ∧ t'≤t := by
  have h : s.Good maxSize := (Good.new hvec heapIndex nodeData).run hf hs
  obtain ⟨e,he⟩ := TimerEvents.processTimerQueue_isSome curtime h.sound h.oneShot hfuel
  obtain ⟨hsound,hd⟩ := TimerEvents.processTimerQueue_drained h.sound h.oneShot he
  obtain ⟨new,hnew,hrep⟩ := hd.expired
  refine ⟨⟨e.setTimerFromQueue,s.allocated⟩,new,?_,hnew,hrep,hd.queue,fun a t ha => ?_⟩
  · simp only [step,TimerEvents.processTimer,he]
    rfl
  · obtain ⟨h1,h2,h3⟩ := rearm_armed hsound (fun b t hb => (h.proper_drained he hb).1) ha
    exact ⟨_,_,h1,h2,(h.proper_drained he h2).2,h3⟩

/-- The first of the two timers left is due, and the descriptor is armed for the other. -/
theorem timers_expire_some : ∃ s s',∃ new : List TimerExpiry,
    runs (step 100) anyTimers someSet=some s ∧ s.step 100 (.process ⟨6,0⟩ 3)=some s' ∧
    ⟨6,0,1⟩ ∈ new ∧ s'.queue 6=none ∧ s'.queue 9=some ⟨8,0⟩ ∧ ∃ t',s'.events.armed=some t' ∧ t'≤⟨8,0⟩ := by
  obtain ⟨s,hs,hq,he,hc,hu,hsize⟩ := someSet_run
  simp only [List.cons.injEq,and_true] at hq
  obtain ⟨h6,-,-,h9⟩ := hq
  obtain ⟨s',new,h1,-,h2,h3,h4⟩ := timers_expire 100 (fun _ => ⟨⟨0,0⟩,0⟩) (fun _ => some 3)
    (fun _ => .new 0) someSet s hs someSet_fits ⟨6,0⟩ 3 (by omega)
  have hleft : s'.queue 9=some ⟨8,0⟩ := by
    rw [h3,h9]
    rfl
  obtain ⟨b,t',harm,-,-,hle⟩ := h4 9 ⟨8,0⟩ hleft
  refine ⟨s,s',new,hs,h1,(h2.mem _).mpr ⟨⟨_,h6,by decide⟩,he,by rw [hc,hu]; rfl⟩,?_,hleft,t',harm,hle⟩
  rw [h3,h6]
  rfl

end TimersUse
end Dinit
