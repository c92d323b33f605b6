import Mathlib.Data.List.Induction
import Dinit.Run.Flags

namespace Dinit

open Framework Framework.Comp World Relation

/-- What the services and `process_queues` do with the two work queues; a service that is
taken off is named. -/
inductive QueueOp where
  | addPropQueue (i : Nat)
  | popPropQueue (i : Nat)
  | addTransitionQueue (i : Nat)
  | popTransitionQueue (i : Nat)
  deriving DecidableEq

namespace Core

/-- Nothing is queued. -/
def idle (c : Core) : Core := { c with propQueue := .empty, stopQueue := .empty }

def queueOp (c : Core) : QueueOp → Option Core
  | .addPropQueue i => some (c.addPropQueue i)
  | .popPropQueue i =>
    if c.propQueue.first = some i then some { c with propQueue := c.propQueue.popFront i } else none
  | .addTransitionQueue i => some { c with stopQueue := c.stopQueue.add i }
  | .popTransitionQueue i =>
    if c.stopQueue.first = some i then some { c with stopQueue := c.stopQueue.popFront i } else none

/-- A history of the queues; `none` if something is taken off that does not come first. -/
def queueOps (c : Core) (ops : List QueueOp) : Option Core := ops.foldlM queueOp c

/-- Each queue comes to an end, has each service once, and `is_queued` tells which. -/
def QueuesProper (c : Core) : Prop := c.propQueue.Proper ∧ c.stopQueue.Proper

/-- What is added comes to an empty queue, or comes first in it already. -/
def AddsAlone (c : Core) : QueueOp → Prop
  | .addPropQueue i => c.propQueue.first=none ∨ c.propQueue.first=some i
  | .addTransitionQueue i => c.stopQueue.first=none ∨ c.stopQueue.first=some i
  | _ => True

variable {c c' : Core} {ops : List QueueOp} {op : QueueOp}

theorem queueOps_append (c : Core) (ops ops' : List QueueOp) :
    c.queueOps (ops++ops')=(c.queueOps ops).bind fun c => c.queueOps ops' := by
  unfold queueOps
  rw [List.foldlM_append]
  rfl

theorem queueOps_snoc (h : c.queueOps (ops++[op])=some c') :
    ∃ u, c.queueOps ops=some u ∧ u.queueOp op=some c' := by
  rw [queueOps_append,Option.bind_eq_some_iff] at h
  obtain ⟨u,hu,h⟩ := h
  refine ⟨u,hu,?_⟩
  simpa [queueOps] using h

/-- What both queues will give. -/
def QueuesPop (c : Core) (xs ys : List Nat) : Prop := c.propQueue.Pops xs ∧ c.stopQueue.Pops ys

/-- One operation: what is added will be taken off, and only what comes first is. -/
theorem QueuesPop.queueOp {xs ys : List Nat} (h : c.QueuesPop xs ys) (hop : c.queueOp op=some c') :
    ∃ xs' ys', c'.QueuesPop xs' ys' ∧
      match op with
      | .addPropQueue i => i ∈ xs' ∧ (xs'=xs ∨ xs'=i::xs) ∧ ys'=ys
      | .popPropQueue i => xs=i::xs' ∧ ys'=ys
      | .addTransitionQueue i => i ∈ ys' ∧ (ys'=ys ∨ ys'=i::ys) ∧ xs'=xs
      | .popTransitionQueue i => ys=i::ys' ∧ xs'=xs := by
  have hpop {q : Slist Nat} {zs : List Nat} {i : Nat} (hq : q.Pops zs) (hf : q.first=some i) :
      ∃ zs', (q.popFront i).Pops zs' ∧ zs=i::zs' := by
    cases zs with
    | nil =>
      rw [hq.1] at hf
      cases hf
    | cons z zs =>
      obtain rfl : z=i := by simpa [hf] using hq.1.symm
      exact ⟨zs,hq.2,rfl⟩
  cases op with
  | addPropQueue i =>
    obtain rfl : c.addPropQueue i=c' := by simpa [Core.queueOp] using hop
    obtain ⟨zs,hz,hm,he⟩ := h.1.add i
    exact ⟨zs,ys,⟨hz,h.2⟩,hm,he,rfl⟩
  | popPropQueue i =>
    simp only [Core.queueOp] at hop
    split at hop
    · next hf =>
      obtain rfl := Option.some.inj hop
      obtain ⟨zs,hz,he⟩ := hpop h.1 hf
      exact ⟨zs,ys,⟨hz,h.2⟩,he,rfl⟩
    · cases hop
  | addTransitionQueue i =>
    obtain rfl : { c with stopQueue := c.stopQueue.add i }=c' := by simpa [Core.queueOp] using hop
    obtain ⟨zs,hz,hm,he⟩ := h.2.add i
    exact ⟨xs,zs,⟨h.1,hz⟩,hm,he,rfl⟩
  | popTransitionQueue i =>
    simp only [Core.queueOp] at hop
    split at hop
    · next hf =>
      obtain rfl := Option.some.inj hop
      obtain ⟨zs,hz,he⟩ := hpop h.2 hf
      exact ⟨xs,zs,⟨h.1,hz⟩,he,rfl⟩
    · cases hop

theorem idle_pops (c : Core) : c.idle.QueuesPop [] [] := ⟨Slist.pops_empty,Slist.pops_empty⟩

/-- A history: what was queued is still so, or has been taken off; what is queued was so,
or has been added. -/
theorem QueuesPop.queueOps {xs ys : List Nat} (h : c.QueuesPop xs ys)
    (hops : c.queueOps ops=some c') : ∃ xs' ys', c'.QueuesPop xs' ys' ∧
      (∀ i ∈ xs, i ∈ xs' ∨ .popPropQueue i ∈ ops) ∧
      (∀ i ∈ xs', i ∈ xs ∨ .addPropQueue i ∈ ops) ∧
      (∀ i ∈ ys, i ∈ ys' ∨ .popTransitionQueue i ∈ ops) ∧
      ∀ i ∈ ys', i ∈ ys ∨ .addTransitionQueue i ∈ ops := by
  induction ops using List.reverseRecOn generalizing c' with
  | nil =>
    obtain rfl : c=c' := by simpa [Core.queueOps] using hops
    exact ⟨xs,ys,h,fun _ => .inl,fun _ => .inl,fun _ => .inl,fun _ => .inl⟩
  | append_singleton ops op ih =>
    obtain ⟨u,hu,hop⟩ := queueOps_snoc hops
    obtain ⟨xs1,ys1,hp,h1,h2,h3,h4⟩ := ih hu
    obtain ⟨xs2,ys2,hp',hstep⟩ := hp.queueOp hop
    refine ⟨xs2,ys2,hp',?_⟩
    cases op <;> simp only at hstep <;> simp only [List.mem_append,List.mem_singleton] <;>
      obtain ⟨hs1,hs2⟩ := hstep <;> grind

/-- An operation on queues of at most one service each. -/
theorem single_queueOp {xs ys : List Nat} (h : c.QueuesPop xs ys)
    (hs : c.propQueue.Single ∧ c.stopQueue.Single) (hop : c.queueOp op=some c') :
    c'.propQueue.Single ∧ c'.stopQueue.Single ↔ c.AddsAlone op := by
  cases op with
  | addPropQueue i =>
    obtain rfl : c.addPropQueue i=c' := by simpa [Core.queueOp] using hop
    have hi : (c.propQueue.add i).Single ↔ _ := hs.1.add_iff h.1 i
    exact ⟨fun h' => hi.mp h'.1,fun h' => ⟨hi.mpr h',hs.2⟩⟩
  | popPropQueue i =>
    simp only [Core.queueOp] at hop
    split at hop
    · next hf =>
      obtain rfl := Option.some.inj hop
      exact ⟨fun _ => trivial,fun _ => ⟨hs.1.popFront hf,hs.2⟩⟩
    · cases hop
  | addTransitionQueue i =>
    obtain rfl : { c with stopQueue := c.stopQueue.add i }=c' := by simpa [Core.queueOp] using hop
    have hi := hs.2.add_iff h.2 i
    exact ⟨fun h' => hi.mp h'.2,fun h' => ⟨hs.1,hi.mpr h'⟩⟩
  | popTransitionQueue i =>
    simp only [Core.queueOp] at hop
    split at hop
    · next hf =>
      obtain rfl := Option.some.inj hop
      exact ⟨fun _ => trivial,fun _ => ⟨hs.1,hs.2.popFront hf⟩⟩
    · cases hop

theorem QueuesPop.proper_iff {xs ys : List Nat} (h : c.QueuesPop xs ys) :
    c.QueuesProper ↔ c.propQueue.Single ∧ c.stopQueue.Single :=
  ⟨fun hq => ⟨hq.1.single,hq.2.single⟩,fun hq => ⟨h.1.proper hq.1,h.2.proper hq.2⟩⟩

/-- The queues are proper throughout a history exactly if no service is ever added to a
queue that another one is first in. -/
theorem queues_proper_iff (c : Core) (ops : List QueueOp) :
    (∀ pre c', pre <+: ops → c.idle.queueOps pre=some c' → c'.QueuesProper) ↔
      ∀ pre op c', pre++[op] <+: ops → c.idle.queueOps pre=some c' → (c'.queueOp op).isSome →
        c'.AddsAlone op := by
  constructor
  · intro h pre op c' hpre hc' hop
    obtain ⟨u,hu⟩ := Option.isSome_iff_exists.mp hop
    obtain ⟨xs,ys,hp,-⟩ := c.idle_pops.queueOps hc'
    obtain ⟨xs',ys',hp',-⟩ := hp.queueOp hu
    have hu' : c.idle.queueOps (pre++[op])=some u := by
      rw [queueOps_append,hc',Option.bind_some]
      simpa [Core.queueOps] using hu
    have hs := hp.proper_iff.mp (h pre c' ((List.prefix_append _ _).trans hpre) hc')
    exact (single_queueOp hp hs hu).mp (hp'.proper_iff.mp (h _ u hpre hu'))
  · intro h pre
    induction pre using List.reverseRecOn with
    | nil =>
      intro c' _ hc'
      obtain rfl : c.idle=c' := by simpa [Core.queueOps] using hc'
      exact c.idle_pops.proper_iff.mpr ⟨.inl rfl,.inl rfl⟩
    | append_singleton pre op ih =>
      intro c' hpre hc'
      obtain ⟨u,hu,hop⟩ := queueOps_snoc hc'
      obtain ⟨xs,ys,hp,-⟩ := c.idle_pops.queueOps hu
      obtain ⟨xs',ys',hp',-⟩ := hp.queueOp hop
      have hs := hp.proper_iff.mp (ih u ((List.prefix_append _ _).trans hpre) hu)
      have hadd := h pre op u hpre hu (by rw [hop]; rfl)
      exact hp'.proper_iff.mpr ((single_queueOp hp hs hop).mpr hadd)

/-- The last of two services does not look queued; added once more, it makes the list a
cycle. -/
theorem queue_cycle : ¬∀ (c : Core) (ops : List QueueOp) (c' : Core),
    c.idle.queueOps ops=some c' → c'.QueuesProper := by
  intro h
  have hq := (h (loaded [] []) [.addPropQueue 0,.addPropQueue 1,.addPropQueue 0] _ rfl).1.single
  rcases hq with hq | ⟨x,hx,hn⟩
  · revert hq
    decide
  · obtain rfl : 0=x := Option.some.inj hx
    revert hn
    decide

/-- In a history from `c` to `c'`, what has been added to a queue that is now empty has been
taken off since, and what has been taken off had been added since the queue was empty. -/
structure NoneLost (c : Core) (ops : List QueueOp) (c' : Core) : Prop where
  popsProp : ∀ pre i post, ops=pre++.addPropQueue i::post → c'.propQueue.isEmpty=true →
    .popPropQueue i ∈ post
  popsTransition : ∀ pre i post, ops=pre++.addTransitionQueue i::post → c'.stopQueue.isEmpty=true →
    .popTransitionQueue i ∈ post
  addsProp : ∀ before since i post u, ops=before++since++.popPropQueue i::post →
    c.queueOps before=some u → u.propQueue.isEmpty=true → .addPropQueue i ∈ since
  addsTransition : ∀ before since i post u, ops=before++since++.popTransitionQueue i::post →
    c.queueOps before=some u → u.stopQueue.isEmpty=true → .addTransitionQueue i ∈ since

theorem queueOps_split {pre post : List QueueOp} (h : c.queueOps (pre++op::post)=some c') :
    ∃ u v, c.queueOps pre=some u ∧ u.queueOp op=some v ∧ v.queueOps post=some c' := by
  rw [List.append_cons,queueOps_append,Option.bind_eq_some_iff] at h
  obtain ⟨v,hv,h⟩ := h
  obtain ⟨u,hu,hop⟩ := queueOps_snoc hv
  exact ⟨u,v,hu,hop,h⟩

theorem noneLost (c : Core) (h : c.idle.queueOps ops=some c') : NoneLost c.idle ops c' := by
  have hnil {q : Slist Nat} {zs : List Nat} (hq : q.Pops zs) (he : q.isEmpty=true) : zs=[] :=
    hq.eq_nil (Option.isNone_iff_eq_none.mp he)
  refine ⟨?_,?_,?_,?_⟩
  · rintro pre i post rfl he
    obtain ⟨u,v,hu,hop,hv⟩ := queueOps_split h
    obtain ⟨_,_,hp,-⟩ := c.idle_pops.queueOps hu
    obtain ⟨xs,ys,hp,hi,-⟩ := hp.queueOp hop
    obtain ⟨xs',ys',hp',hkept,-⟩ := hp.queueOps hv
    obtain rfl := hnil hp'.1 he
    exact (hkept i hi).resolve_left (by simp)
  · rintro pre i post rfl he
    obtain ⟨u,v,hu,hop,hv⟩ := queueOps_split h
    obtain ⟨_,_,hp,-⟩ := c.idle_pops.queueOps hu
    obtain ⟨xs,ys,hp,hi,-⟩ := hp.queueOp hop
    obtain ⟨xs',ys',hp',-,-,hkept,-⟩ := hp.queueOps hv
    obtain rfl := hnil hp'.2 he
    exact (hkept i hi).resolve_left (by simp)
  · rintro before since i post u rfl hu he
    obtain ⟨v,_,hv,hop,-⟩ := queueOps_split h
    rw [queueOps_append,hu,Option.bind_some] at hv
    obtain ⟨xs,ys,hp,-⟩ := c.idle_pops.queueOps hu
    obtain rfl := hnil hp.1 he
    obtain ⟨xs',ys',hp',-,hadded,-⟩ := hp.queueOps hv
    obtain ⟨_,_,-,hx,-⟩ := hp'.queueOp hop
    exact (hadded i (by simp [hx])).resolve_left (by simp)
  · rintro before since i post u rfl hu he
    obtain ⟨v,_,hv,hop,-⟩ := queueOps_split h
    rw [queueOps_append,hu,Option.bind_some] at hv
    obtain ⟨xs,ys,hp,-⟩ := c.idle_pops.queueOps hu
    obtain rfl := hnil hp.2 he
    obtain ⟨xs',ys',hp',-,-,-,hadded⟩ := hp.queueOps hv
    obtain ⟨_,_,-,hy,-⟩ := hp'.queueOp hop
    exact (hadded i (by simp [hy])).resolve_left (by simp)

/-- `i` is queued for propagation. -/
def Awaits (c : Core) (i : Nat) : Prop := ∃ xs, c.propQueue.Pops xs ∧ i ∈ xs

end Core

/-- A service that is queued stays so until its `do_propagation` is called. -/
theorem EventStep.awaits {w w' : World} {i : Nat} (h : EventStep w w') (hi : w.core.Awaits i) :
    w'.core.Awaits i ∨ w'.trace=(.doPropagation i,w'.core)::w.trace := by
  obtain ⟨xs,hx,hi⟩ := hi
  have hraise {u v : World} (hr : Raises u v) (hu : u.core.propQueue.Pops xs) : v.core.Awaits i := by
    obtain ⟨ys,hy,hxy,-⟩ := hr.queue xs hu
    exact ⟨ys,hy,hxy i hi⟩
  rcases h.raises with hr | hp
  · exact .inl (hraise hr hx)
  · cases hp with
    | pop j hj =>
      cases xs with
      | nil => cases hi
      | cons x xs =>
        obtain rfl : x=j := by simpa [hj] using hx.1.symm
        rcases List.mem_cons.mp hi with rfl | hi
        · exact .inr rfl
        · exact .inl ⟨xs,hx.2,hi⟩
    | next j k u hx' hk hu hf => exact .inl (hraise (v := u) hu hx)
    | skipPin j hx' hp => exact .inl ⟨xs,hx,hi⟩
    | recomputePin j hx' => exact .inl (hraise (v := w.recomputePin j) (raises_recomputePin w j) hx)
    | leave j hj => exact .inl ⟨xs,hx,hi⟩
    | failed j u _ hx' hu hf hr =>
      obtain ⟨ys,hy,hxy,-⟩ := hu.queue xs hx
      obtain ⟨zs,hz,hyz,-⟩ := hr.queue ys hy
      exact .inl ⟨zs,hz,hyz i (hxy i hi)⟩

theorem awaits_until {u w : World} {i : Nat} (h : ReflTransGen EventStep u w)
    (hi : u.core.Awaits i) :
    w.core.Awaits i ∨ ∃ t c, w.trace=t++u.trace ∧ (Call.doPropagation i,c) ∈ t := by
  induction h with
  | refl => exact .inl hi
  | @tail v w _ hs ih =>
    obtain ⟨tw,htw⟩ := hs.grows
    rcases ih with hv | ⟨t,c,ht,hc⟩
    · rcases hs.awaits hv with hw | hw
      · exact .inl hw
      · obtain ⟨tv,htv⟩ : Grows u v :=
          invariant_of_steps (I := Grows u) (fun _ _ hi (hs : EventStep _ _) => hi.trans hs.grows)
            ‹_› (.refl u)
        refine .inr ⟨(.doPropagation i,w.core)::tv,w.core,?_,List.mem_cons_self⟩
        rw [hw,htv,List.cons_append]
    · exact .inr ⟨tw++t,c,by rw [htw,ht,List.append_assoc],List.mem_append_right tw hc⟩

/-- `process_queues` goes on until both queues are empty. -/
theorem processQueues_empties (fuel : Nat) {w w' : World}
    (h : (calls fuel).processQueues w=(some (),w')) :
    w'.core.propQueue.isEmpty=true ∧ w'.core.stopQueue.isEmpty=true := by
  induction fuel generalizing w with
  | zero => cases h
  | succ fuel ih =>
    have h' : processQueues (calls fuel) w=(some (),w') := h
    unfold processQueues at h'
    obtain ⟨c,u,hc,h'⟩ := bind_some h'
    obtain ⟨rfl,rfl⟩ : w.core=c ∧ w=u := by simpa [getCore] using hc
    rcases hp : w.core.propQueue.first with _ | i
    · rcases hs : w.core.stopQueue.first with _ | i
      · rw [hp,hs] at h'
        obtain ⟨-,rfl⟩ := pure_some h'
        exact ⟨by simp [Slist.isEmpty,hp],by simp [Slist.isEmpty,hs]⟩
      · rw [hp,hs] at h'
        obtain ⟨_,u1,-,h'⟩ := bind_some h'
        obtain ⟨_,u2,-,h'⟩ := bind_some h'
        exact ih h'
    · rw [hp] at h'
      obtain ⟨_,u1,-,h'⟩ := bind_some h'
      obtain ⟨_,u2,-,h'⟩ := bind_some h'
      obtain ⟨_,u3,-,h'⟩ := bind_some h'
      exact ih h'

/-- No work is lost: in any history of the queues what is added is taken off again before
the queue is empty, and nothing else is; in any run a queued service is propagated before
the queue is empty; and `process_queues` leaves no propagation flag behind. -/
theorem no_work_lost :
    (∀ (c c' : Core) (ops : List QueueOp), c.idle.queueOps ops=some c' → c.idle.NoneLost ops c') ∧
    (∀ (c : Core) (u w : World) (i : Nat), c.Fresh → ReflTransGen EventStep (World.load c) u →
      (∃ k, (u.core.svc i).flag k=true) ∧ u.ctx=[] ∨ u.core.Awaits i → ReflTransGen EventStep u w →
      w.core.propQueue.isEmpty=true → ∃ t e, w.trace=t++u.trace ∧ (Call.doPropagation i,e) ∈ t) ∧
    (∀ (c : Core) (fuel : Nat) (w w' : World), c.Fresh → ReflTransGen EventStep (World.load c) w →
      w.ctx=[] → (calls fuel).processQueues w=(some (),w') →
      w'.core.propQueue.isEmpty=true ∧ w'.core.stopQueue.isEmpty=true ∧
        ∀ i k, (w'.core.svc i).flag k=false) := by
  refine ⟨fun c c' ops h => Core.noneLost c h,?_,?_⟩
  · intro c u w i hc hu hi hw he
    have hi : u.core.Awaits i := by
      rcases hi with ⟨⟨k,hk⟩,hx⟩ | hi
      · obtain ⟨xs,hp,hq⟩ := flagsQueued_of_steps hu hc.flagsQueued
        rcases hq i k hk with hi | ⟨n,hn,-⟩
        · exact ⟨xs,hp,hi⟩
        · rw [hx] at hn
          cases hn
      · exact hi
    rcases awaits_until hw hi with ⟨xs,hp,hi⟩ | h
    · rw [hp.eq_nil (Option.isNone_iff_eq_none.mp he)] at hi
      cases hi
    · exact h
  · intro c fuel w w' hc hw hx hr
    obtain ⟨hp,hs⟩ := processQueues_empties fuel hr
    refine ⟨hp,hs,fun i k => ?_⟩
    obtain ⟨hsteps,hctx⟩ := ((calls_ok fuel).processQueues w).returned hr
    have hsteps' : ReflTransGen EventStep w w' := ReflTransGen.mono (fun _ _ => .step) _ _ hsteps
    obtain ⟨xs,hpops,hq⟩ := flagsQueued_of_steps (hw.trans hsteps') hc.flagsQueued
    by_contra hk
    rcases hq i k (by simpa using hk) with hi | ⟨n,hn,-⟩
    · rw [hpops.eq_nil (Option.isNone_iff_eq_none.mp hp)] at hi
      cases hi
    · rw [show w'.ctx=w.ctx from hctx,hx] at hn
      cases hn

end Dinit
