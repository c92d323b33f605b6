import Dinit.Run.Queues

namespace Dinit

open Framework Framework.Comp World Relation

/-- The calls of a stop that reaches `x` only: no other service is stopped, and no link is
added or removed. -/
def Call.StopsOnly (x : Nat) : Call → Prop
  | .doStop j _ => j=x
  | .addDep _ _ _ | .rmDep _ => False
  | _ => True

/-- Nothing has changed but the reason noted for a stop. -/
def Svc.SameButReason (s s' : Svc) : Prop := ∃ r, s'={ s with stopReason := r }

theorem Svc.SameButReason.refl (s : Svc) : s.SameButReason s := ⟨s.stopReason,rfl⟩

theorem Svc.SameButReason.trans {s s' s'' : Svc} (h : s.SameButReason s')
    (h' : s'.SameButReason s'') : s.SameButReason s'' := by
  obtain ⟨r,rfl⟩ := h
  obtain ⟨r',rfl⟩ := h'
  exact ⟨r',rfl⟩

/-- The stop of `x`, which is up, does no more to its hard dependent `j` than to note a
reason: `j` is STOPPED, or to stop anyway. -/
def Core.LeftAlone (c : Core) (x j : Nat) : Prop :=
  j≠x ∧ (c.svc j).serviceState=.stopped ∧
      ((c.svc x).forceStop=false ∨ (c.svc j).desiredState=.stopped) ∨
    (c.svc x).forceStop=false ∧ (c.svc j).desiredState=.stopped

instance (c : Core) (x j : Nat) : Decidable (c.LeftAlone x j) := inferInstanceAs (Decidable (_ ∨ _))

/-- Nothing but `x` has changed, and neither what requires `x` nor what holds or is hard
has. -/
structure Spares (x : Nat) (w w' : World) : Prop where
  others : ∀ k, k≠x → (w.core.svc k).SameButReason (w'.core.svc k)
  requiredBy : (w'.core.svc x).requiredBy=(w.core.svc x).requiredBy
  startExplicit : (w'.core.svc x).startExplicit=(w.core.svc x).startExplicit
  forceStop : (w'.core.svc x).forceStop=(w.core.svc x).forceStop
  desiredState : (w.core.svc x).desiredState=.stopped → (w'.core.svc x).desiredState=.stopped
  dependents : (w'.core.svc x).dependents=(w.core.svc x).dependents
  from_ : ∀ l, (w'.core.link l).from_=(w.core.link l).from_
  holdingAcq : ∀ l, (w'.core.link l).holdingAcq=(w.core.link l).holdingAcq
  isHard : ∀ l, (w'.core.link l).isHard=(w.core.link l).isHard
  trace : ∃ t, w'.trace=t++w.trace ∧ ∀ e ∈ t, e.1.StopsOnly x ∧
    ∀ k, (e.2.svc k).requiredBy=(w.core.svc k).requiredBy

namespace Spares

variable {x i l : Nat} {w w' w'' : World}

theorem requirements (h : Spares x w w') (k : Nat) :
    (w'.core.svc k).requiredBy=(w.core.svc k).requiredBy := by
  by_cases hk : k=x
  · rw [hk,h.requiredBy]
  · obtain ⟨r,hr⟩ := h.others k hk
    rw [hr]

theorem trans (h : Spares x w w') (h' : Spares x w' w'') : Spares x w w'' where
  others k hk := (h.others k hk).trans (h'.others k hk)
  requiredBy := h'.requiredBy.trans h.requiredBy
  startExplicit := h'.startExplicit.trans h.startExplicit
  forceStop := h'.forceStop.trans h.forceStop
  desiredState hd := h'.desiredState (h.desiredState hd)
  from_ l := (h'.from_ l).trans (h.from_ l)
  dependents := h'.dependents.trans h.dependents
  holdingAcq l := (h'.holdingAcq l).trans (h.holdingAcq l)
  isHard l := (h'.isHard l).trans (h.isHard l)
  trace := by
    obtain ⟨t,ht,hp⟩ := h.trace
    obtain ⟨t',ht',hp'⟩ := h'.trace
    refine ⟨t'++t,by rw [ht',ht,List.append_assoc],?_⟩
    intro e he
    rcases List.mem_append.mp he with he | he
    · exact ⟨(hp' e he).1,fun k => ((hp' e he).2 k).trans (h.requirements k)⟩
    · exact hp e he

/-- The records are as they were but for the reasons, and the links are. -/
theorem reasons (hs : ∀ k, (w.core.svc k).SameButReason (w'.core.svc k))
    (hl : w'.core.link=w.core.link) (ht : w'.trace=w.trace) : Spares x w w' := by
  obtain ⟨r,hr⟩ := hs x
  refine ⟨fun k _ => hs k,?_,?_,?_,?_,?_,fun l => by rw [hl],fun l => by rw [hl],
    fun l => by rw [hl],[],by simpa using ht,by simp⟩ <;> simp [hr]

theorem same (hs : w'.core.svc=w.core.svc) (hl : w'.core.link=w.core.link)
    (ht : w'.trace=w.trace) : Spares x w w' :=
  reasons (fun k => by rw [hs]; exact .refl _) hl ht

theorem refl (x : Nat) (w : World) : Spares x w w := same rfl rfl rfl

theorem push (w : World) {k : Call} (hk : k.StopsOnly x) : Spares x w (w.push k) :=
  { refl x w with trace := ⟨[(k,w.core)],rfl,by simpa using hk⟩ }

theorem setSvc (w : World) {f : Svc → Svc}
    (hr : (f (w.core.svc x)).requiredBy=(w.core.svc x).requiredBy)
    (he : (f (w.core.svc x)).startExplicit=(w.core.svc x).startExplicit)
    (hf : (f (w.core.svc x)).forceStop=(w.core.svc x).forceStop)
    (hw : (w.core.svc x).desiredState=.stopped → (f (w.core.svc x)).desiredState=.stopped)
    (hd : (f (w.core.svc x)).dependents=(w.core.svc x).dependents) :
    Spares x w (w.onCore fun c => c.setSvc x f) where
  others k hk := by
    rw [onCore_core,Core.setSvc_svc,if_neg hk]
    exact .refl _
  requiredBy := by simpa using hr
  startExplicit := by simpa using he
  forceStop := by simpa using hf
  desiredState := by simpa using hw
  dependents := by simpa using hd
  from_ _ := rfl
  holdingAcq _ := rfl
  isHard _ := rfl
  trace := ⟨[],rfl,by simp⟩

theorem addTransitionQueue (w : World) (x i : Nat) : Spares x w (w.addTransitionQueue i) :=
  (push w (by trivial)).trans (same rfl rfl rfl)

/-- A soft link that holds nothing is broken. -/
theorem breakSoft (w : World) (hh : (w.core.link l).isHard=false)
    (hn : (w.core.link l).holdingAcq=false) : Spares x w (w.breakSoft x l) := by
  have hclear : Spares x w (w.onCore fun c => c.setLink l fun d => { d with waitingOn := false }) := by
    refine ⟨fun _ _ => .refl _,rfl,rfl,rfl,id,rfl,?_,?_,?_,[],rfl,by simp⟩
    · intro k
      by_cases hk : k=l <;> simp [hk]
    · intro k
      by_cases hk : k=l <;> simp [hk]
    · intro k
      by_cases hk : k=l
      · subst hk
        have hreg : (w.core.link k).depType≠.regular := by
          intro h
          simp [Link.isHard,h] at hh
        simpa [Link.isHard,hreg] using hh
      · simp [hk]
  unfold World.breakSoft
  simp only [hh,hn,Bool.false_eq_true,if_false]
  split
  · unfold clearWait dependencyStarted
    dsimp only
    split
    · exact hclear.trans (addTransitionQueue _ x _)
    · exact hclear
  · exact refl x w

theorem beginStop (w : World) (x : Nat) (all : Bool) : Spares x w (w.beginStop x all) := by
  have hset : Spares x w (w.onCore fun c => c.setSvc x fun s =>
      { s with serviceState := .stopping, waitingForDeps := !all }) := setSvc w rfl rfl rfl id rfl
  unfold World.beginStop
  split
  · exact hset.trans (addTransitionQueue _ x x)
  · exact hset

theorem unqueueConsole (w : World) (x : Nat) : Spares x w (w.onCore fun c => c.unqueueConsole x) :=
  (setSvc w (f := fun s => { s with waitingForConsole := false }) rfl rfl rfl id rfl).trans
    (same rfl rfl rfl)

end Spares

section
variable {x i : Nat} {rec : Rec}

theorem returns_getSvc {β : Type} {w : World} {Q : β → World → Prop} {f : Svc → M β}
    (h : Returns (f (w.core.svc i)) w Q) : Returns (getSvc i >>= f) w Q :=
  returns_bind ⟨_,w,rfl,h⟩

theorem returns_onCore {β : Type} {w : World} {Q : β → World → Prop} {f : Core → Core}
    {k : Unit → M β} (h : Returns (k ()) (w.onCore f) Q) : Returns (onCore f >>= k) w Q :=
  returns_bind (returns_modify h)

theorem returns_call {β : Type} {w : World} {Q : β → World → Prop} {c : Call} {k : Unit → M β}
    (h : Returns (k ()) (w.push c) Q) : Returns (call c >>= k) w Q :=
  returns_bind (returns_modify h)

theorem Spares.leftAlone {w w' : World} {j : Nat} (h : Spares x w w')
    (ha : w.core.LeftAlone x j) : w'.core.LeftAlone x j := by
  unfold Core.LeftAlone at *
  rw [h.forceStop]
  by_cases hj : j=x
  · subst hj
    rcases ha with ⟨hne,-⟩ | ⟨hf,hd⟩
    · exact absurd rfl hne
    · exact .inr ⟨hf,h.desiredState hd⟩
  · obtain ⟨r,hr⟩ := h.others j hj
    rw [hr]
    exact ha

/-- What is said of the links to `x` while it is stopped: none holds it, and the hard ones
are of dependents that are left alone. -/
def Core.Spared (c : Core) (x l : Nat) : Prop :=
  (c.link l).holdingAcq=false ∧ ((c.link l).isHard=true → c.LeftAlone x (c.link l).from_)

theorem Spares.spared {w w' : World} {l : Nat} (h : Spares x w w') (hs : w.core.Spared x l) :
    w'.core.Spared x l := by
  unfold Core.Spared at *
  rw [h.holdingAcq,h.isHard,h.from_]
  exact hs.imp_right fun hl hh => h.leftAlone (hl hh)

/-- `x` is up, and a release that leaves nothing to require it will stop it. -/
def Svc.Stoppable (s : Svc) : Prop :=
  s.isStartPinned=false ∧ s.serviceState≠.stopped ∧ s.serviceState≠.stopping

end

end Dinit
