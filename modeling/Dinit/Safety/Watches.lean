import Dinit.Control.Callback
import Dinit.Safety.Output

namespace Dinit

open Framework

namespace Hub

/-- There is something to be done for a connection that can be written to. -/
def Wants (o : Output) : Prop := o.outbuf≠[] ∨ o.badConnClose=true

/-- Pending output is watched. -/
def OutWatched (hub : Hub) : Prop :=
  ∀ i c,hub i=some c → Wants c.out → c.outEvents=true

/-- An effect that leaves nothing to be sent: the packet is written at once or given up. -/
def Immediate : Effect → Prop
  | .copy p w _ | .move p w _ => Output.empty.unsent p.bytes w=none
  | .reject | .oomClose => False

/-- The connection whose watches are set at the end of the event. -/
def owner : LoopEvent → Option Nat
  | .accept i | .io i _ _ => some i
  | .other _ => none

def causes : LoopEvent → List (Nat × Effect)
  | .accept _ => []
  | .other es => es
  | .io _ read _ => read.map Prod.fst |>.getD []

/-- Whatever is queued for a connection other than in its own callback is written at once, if
the connection is not watched for output already. -/
def Spares (hub : Hub) (e : LoopEvent) : Prop :=
  ∀ j eff c,(j,eff) ∈ causes e → owner e≠some j → hub j=some c → c.outEvents=false →
    Immediate eff

theorem unsent_empty {o : Output} (h : o.outbuf=[]) (pkt : Packet) (w : WriteResult) :
    o.unsent pkt w=Output.empty.unsent pkt w := by simp [Output.unsent,h,Output.empty]

/-- An effect leaves nothing to be done, or it leaves something. -/
theorem apply_cases (e : Effect) (o : Output) :
    ((o.outbuf=[] → Immediate e) ∧ (Wants (e.apply o) ↔ Wants o)) ∨
      ((o.outbuf=[] → ¬Immediate e) ∧ Wants (e.apply o)) := by
  cases e with
  | reject | oomClose => exact .inr ⟨fun _ h => h,.inr rfl⟩
  | copy p w alloc =>
    rcases Output.queueCopy_cases o p.bytes w alloc with ⟨hs,he⟩ | ⟨hs,-,he⟩ | ⟨k,rest,hs,he⟩
    · refine .inl ⟨fun hn => (unsent_empty hn p.bytes w).symm.trans hs,?_⟩
      rw [Effect.apply,he]
    · refine .inl ⟨fun hn => (unsent_empty hn p.bytes w).symm.trans hs,?_⟩
      rw [Effect.apply,he]
      exact Iff.rfl
    · refine .inr ⟨fun hn => by simp [Immediate,← unsent_empty hn p.bytes w,hs.unsent],?_⟩
      rw [Effect.apply,he]
      cases alloc with
      | false => exact .inr rfl
      | true => exact .inl (by simp)
  | move p w alloc =>
    rcases Output.queueMove_cases o p.bytes w alloc with ⟨hs,-,he⟩ | ⟨hs,-,he⟩ | ⟨k,rest,hs,he⟩
    · refine .inl ⟨fun hn => (unsent_empty hn p.bytes w).symm.trans hs,?_⟩
      rw [Effect.apply,he]
      exact Iff.rfl
    · refine .inl ⟨fun hn => (unsent_empty hn p.bytes w).symm.trans hs,?_⟩
      rw [Effect.apply,he]
      exact Iff.rfl
    · refine .inr ⟨fun hn => by simp [Immediate,← unsent_empty hn p.bytes w,hs.unsent],?_⟩
      rw [Effect.apply,he]
      cases alloc with
      | false => exact .inr rfl
      | true => exact .inl (by simp)

/-- What a connection wants goes on being wanted until it is written to. -/
theorem wants_apply {o : Output} (e : Effect) (h : Wants o) : Wants (e.apply o) := by
  rcases apply_cases e o with ⟨-,hiff⟩ | ⟨-,hw⟩
  · exact hiff.mpr h
  · exact hw

theorem wants_apply_iff {o : Output} (e : Effect) (h : ¬Wants o) :
    Wants (e.apply o) ↔ ¬Immediate e := by
  have hn : o.outbuf=[] := by
    by_contra hn
    exact h (.inl hn)
  rcases apply_cases e o with ⟨hi,hiff⟩ | ⟨hi,hw⟩
  · exact iff_of_false (fun hw => h (hiff.mp hw)) fun hno => hno (hi hn)
  · exact iff_of_true hw (hi hn)

theorem effect_apply (hub : Hub) (e : Nat × Effect) (j : Nat) : hub.effect e j=
    (hub j).map fun c => if e.1=j then { c with out := e.2.apply c.out } else c := by
  by_cases h : j=e.1
  · subst h
    simp [effect,Hub.set]
  · simp [effect,Hub.set,h,Ne.symm h]

/-- What becomes of one connection in the course of an event, short of its own callback. -/
theorem effects_spec {hub : Hub} (es : List (Nat × Effect)) {j : Nat} {c : Watched}
    (h : hub j=some c) : ∃ o,hub.effects es j=some { c with out := o } ∧
      (Wants o ↔ Wants c.out ∨ ∃ eff,(j,eff) ∈ es ∧ ¬Immediate eff) := by
  induction es generalizing hub c with
  | nil => exact ⟨c.out,h,by simp⟩
  | cons e es ih =>
    obtain ⟨i,eff⟩ := e
    have he := effect_apply hub (i,eff) j
    rw [h,Option.map_some] at he
    by_cases hj : i=j
    · subst hj
      rw [if_pos rfl] at he
      obtain ⟨o,ho,hw⟩ := ih he
      refine ⟨o,ho,hw.trans ?_⟩
      simp only [List.mem_cons,Prod.mk.injEq,true_and]
      by_cases hc : Wants c.out
      · exact iff_of_true (.inl (wants_apply eff hc)) (.inl hc)
      · rw [wants_apply_iff eff hc]
        constructor
        · rintro (hi | ⟨eff',hm,hi⟩)
          · exact .inr ⟨eff,.inl rfl,hi⟩
          · exact .inr ⟨eff',.inr hm,hi⟩
        · rintro (hw | ⟨eff',rfl | hm,hi⟩)
          · exact absurd hw hc
          · exact .inl hi
          · exact .inr ⟨eff',hm,hi⟩
    · rw [if_neg hj] at he
      obtain ⟨o,ho,hw⟩ := ih he
      refine ⟨o,ho,hw.trans ?_⟩
      simp only [List.mem_cons,Prod.mk.injEq,Ne.symm hj,false_and,false_or]

theorem effects_none {hub : Hub} {es : List (Nat × Effect)} {j : Nat} (h : hub j=none) :
    hub.effects es j=none := by
  induction es generalizing hub with
  | nil => exact h
  | cons e es ih =>
    refine ih ?_
    rw [effect_apply,h]
    rfl

theorem setWatches_wants (c : Watched) (h : Wants (setWatches c).out) :
    (setWatches c).outEvents=true := by
  rcases h with h | h
  · have hn : c.out.outbuf≠[] := h
    simp [setWatches,hn]
  · have hb : c.out.badConnClose=true := h
    simp [setWatches,hb]

theorem callback_spec {hub hub' : Hub} {i : Nat} {read : Option (List (Nat × Effect) × Bool)}
    {write : Option WriteResult} (h : hub.callback i read write=some hub') :
    ∃ c : Option Watched,
      hub'=(hub.effects (causes (.io i read write))).set i (c.map setWatches) := by
  unfold callback at h
  dsimp only at h
  split at h
  · exact ⟨none,(Option.some.inj h).symm⟩
  · split at h
    · next hn =>
      refine ⟨none,?_⟩
      rw [← Option.some.inj h]
      funext j
      by_cases hj : j=i
      · simpa [Hub.set,hj] using hn
      · simp [Hub.set,hj,causes]
    · obtain ⟨c,-,hc⟩ := Option.map_eq_some_iff.mp h
      exact ⟨c,hc.symm⟩

/-- An event has its effects on the other connections, and leaves its own as it should be. -/
theorem step_spec {hub hub' : Hub} {e : LoopEvent} (h : hub.step e=some hub') :
    (∀ j,owner e≠some j → hub' j=hub.effects (causes e) j) ∧
    ∀ j,owner e=some j → ∀ c,hub' j=some c → Wants c.out → c.outEvents=true := by
  cases e with
  | accept i =>
    obtain rfl := Option.some.inj h
    constructor
    · intro j hj
      have hji : j≠i := fun hji => hj (congrArg some hji.symm)
      simp [Hub.set,hji,causes,effects]
    · intro j hj c hc hw
      obtain rfl := Option.some.inj hj
      obtain rfl : (⟨.empty,true,false⟩ : Watched)=c := by simpa [Hub.set] using hc
      simp [Wants,Output.empty] at hw
  | other es =>
    obtain rfl := Option.some.inj h
    exact ⟨fun _ _ => rfl,fun j hj => by cases hj⟩
  | io i read write =>
    obtain ⟨c,rfl⟩ := callback_spec h
    constructor
    · intro j hj
      have hji : j≠i := fun hji => hj (congrArg some hji.symm)
      simp [Hub.set,hji]
    · intro j hj c' hc hw
      obtain rfl := Option.some.inj hj
      obtain ⟨d,-,rfl⟩ : ∃ d,c=some d ∧ setWatches d=c' := by simpa [Hub.set] using hc
      exact setWatches_wants d hw

/-- An event keeps pending output watched just if it spares the connections that it is not
about. -/
theorem step_outWatched {hub hub' : Hub} {e : LoopEvent} (hw : hub.OutWatched)
    (h : hub.step e=some hub') : hub'.OutWatched ↔ hub.Spares e := by
  obtain ⟨hoff,hown⟩ := step_spec h
  constructor
  · intro hw' j eff c hm hj hc ho
    by_contra hi
    obtain ⟨o,he,hwant⟩ := effects_spec (causes e) hc
    have ht := hw' j _ ((hoff j hj).trans he) (hwant.mpr (.inr ⟨eff,hm,hi⟩))
    exact Bool.false_ne_true (ho.symm.trans ht)
  · intro hs j c' hc' hwant
    by_cases hj : owner e=some j
    · exact hown j hj c' hc' hwant
    · rw [hoff j hj] at hc'
      cases hc : hub j with
      | none =>
        rw [effects_none hc] at hc'
        cases hc'
      | some c =>
        obtain ⟨o,he,hiff⟩ := effects_spec (causes e) hc
        obtain rfl := Option.some.inj (he.symm.trans hc')
        rcases hiff.mp hwant with hwc | ⟨eff,hm,hi⟩
        · exact hw j c hc hwc
        · by_contra ho
          exact hi (hs j eff c hm hj hc (by simpa using ho))

end Hub

/-- Along any events of the main loop, the pending output of every connection is watched at the
end of each of them if and only if no event leaves output pending on a connection that it is
not about and that is not watched already. -/
theorem output_watched (es : List LoopEvent) :
    (∀ fs hub,fs <+: es → Hub.run (fun _ => none) fs=some hub → hub.OutWatched) ↔
      Along Hub.step Hub.Spares (fun _ => none) es :=
  good_iff_along (I := fun _ => True) (fun _ _ _ _ _ => trivial)
    (fun _ _ _ _ hw h => Hub.step_outWatched hw h) trivial (fun _ _ h => by cases h) es

/-- The packet of a `SERVICEEVENT5`: the service with handle 0 has started. -/
def startedEvent : Packet := [101,21,0,0,0,0,0,2,2,0,0,0,0,0,0,0,0,0,0,0,0]

/-- A service event for a connection whose socket is full: its packet is held, and nothing
watches for the socket to be ready. -/
theorem output_unwatched : ∃ hub c,
    Hub.run (fun _ => none) [.accept 0,.other [(0,.move ⟨startedEvent,by simp [startedEvent]⟩ .again true)]]=
      some hub ∧ hub 0=some c ∧ c.out.outbuf=[startedEvent] ∧ c.outEvents=false :=
  ⟨_,⟨⟨[startedEvent],0,0,false,false,[]⟩,true,false⟩,rfl,rfl,rfl,rfl⟩

end Dinit
