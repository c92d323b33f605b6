import Mathlib.Data.List.Infix
import Dinit.Run.Events

namespace Dinit

open Framework Framework.Comp World Relation

/-- The two ends of each dependency agree about it. -/
structure Core.Linked (c : Core) : Prop where
  dependsOn : ∀ i l, l ∈ (c.svc i).dependsOn →
    (c.link l).from_=i ∧ l ∈ (c.svc (c.link l).to_).dependents
  dependents : ∀ i l, l ∈ (c.svc i).dependents →
    (c.link l).to_=i ∧ l ∈ (c.svc (c.link l).from_).dependsOn
  dependsOn_nodup : ∀ i, (c.svc i).dependsOn.Nodup
  dependents_nodup : ∀ i, (c.svc i).dependents.Nodup
  below : ∀ i l, l ∈ (c.svc i).dependsOn → l<c.nextLink

/-- A service set as it is loaded: nothing is started, required or queued. -/
structure Core.Fresh (c : Core) : Prop where
  svc : ∀ i, c.svc i =
    { settings := (c.svc i).settings
      dependsOn := (c.svc i).dependsOn
      dependents := (c.svc i).dependents }
  waitingOn : ∀ l, (c.link l).waitingOn=false
  holdingAcq : ∀ l, (c.link l).holdingAcq=false
  linked : c.Linked
  propQueue : c.propQueue=.empty
  stopQueue : c.stopQueue=.empty
  consoleQueue : c.consoleQueue=[]

namespace Core

/-- A dependency of a service description: on which service, and of which kind. -/
structure Dep where
  from_ : Nat
  to_ : Nat
  depType : DependencyType := .regular

/-- The link made for the `k`-th of a list of dependencies. -/
def linkOf (deps : List Dep) (k : Nat) : Link :=
  match deps[k]? with
  | some d => { from_ := d.from_, to_ := d.to_, depType := d.depType }
  | none => { from_ := 0, to_ := 0 }

/-- The service set of the given services and dependencies, as it is loaded. -/
def loaded (services : List Settings) (deps : List Dep) : Core where
  svc i :=
    { settings := services.getD i {}
      dependsOn := (List.range deps.length).filter fun k => (linkOf deps k).from_==i
      dependents := (List.range deps.length).filter fun k => (linkOf deps k).to_==i }
  link := linkOf deps
  records := List.range services.length
  nextLink := deps.length
  propQueue := .empty
  stopQueue := .empty
  consoleQueue := []
  activeServices := 0
  restartEnabled := true
  logRelease := false
  logBusy := false
  now := 0

theorem loaded_fresh (services : List Settings) (deps : List Dep) :
    (loaded services deps).Fresh where
  svc _ := rfl
  waitingOn l := by
    simp only [loaded,linkOf]
    split <;> rfl
  holdingAcq l := by
    simp only [loaded,linkOf]
    split <;> rfl
  linked := by
    refine ⟨?_,?_,?_,?_,?_⟩
    · intro i l hl
      simp only [loaded,List.mem_filter,beq_iff_eq] at hl ⊢
      exact ⟨hl.2,hl.1,trivial⟩
    · intro i l hl
      simp only [loaded,List.mem_filter,beq_iff_eq] at hl ⊢
      exact ⟨hl.2,hl.1,trivial⟩
    · exact fun _ => List.nodup_range.filter _
    · exact fun _ => List.nodup_range.filter _
    · intro i l hl
      exact List.mem_range.mp (List.mem_filter.mp hl).1
  propQueue := rfl
  stopQueue := rfl
  consoleQueue := rfl

end Core

namespace World

def load (c : Core) : World := ⟨c,[],[],[]⟩

/-- The event loop wakes up: time has passed, and the system calls that the handler will
make have their outcomes. -/
def poll (w : World) (now : Nat) (sys : List SysResult) : World :=
  { w with core := { w.core with now := now }, sys := sys }

/-- The states between two events. -/
inductive Reachable : World → Prop
  | load (c : Core) (h : c.Fresh) : Reachable (World.load c)
  | event {w w' : World} (h : Reachable w) (now : Nat) (sys : List SysResult) (fuel : Nat)
      (e : Event) (he : e.enabled w.core=true)
      (hr : handle fuel e (w.poll now sys)=(some (),w')) : Reachable w'

/-- The states that a run passes through: those between two events, and those in which the
handler of an event is cut off. -/
inductive Visited : World → Prop
  | reached {w : World} (h : Reachable w) : Visited w
  | within {w : World} (h : Reachable w) (now : Nat) (sys : List SysResult) (fuel : Nat)
      (e : Event) (he : e.enabled w.core=true) : Visited (handle fuel e (w.poll now sys)).2

theorem poll_steps (w : World) (now : Nat) (sys : List SysResult) :
    ReflTransGen EventStep w (w.poll now sys) :=
  .tail (.single (.now now)) (.step (.stop (.sys sys)))

theorem enabled_poll {w : World} {e : Event} (now : Nat) (sys : List SysResult)
    (he : e.enabled w.core=true) : e.enabled (w.poll now sys).core=true := by
  cases e <;> exact he

/-- An event comes and is dealt with. -/
def Handles (w w' : World) : Prop :=
  ∃ now sys fuel e, e.enabled w.core=true ∧ handle fuel e (w.poll now sys)=(some (),w')

theorem Handles.steps {w w' : World} (h : Handles w w') :
    w'.ctx=w.ctx ∧ ReflTransGen EventStep w w' := by
  obtain ⟨now,sys,fuel,e,he,hr⟩ := h
  have hw := handle_within fuel e (w.poll now sys) (enabled_poll now sys he)
  rw [Within,hr] at hw
  exact ⟨hw.2 () rfl,(poll_steps w now sys).trans hw.1⟩

theorem handles_steps {w w' : World} (h : ReflTransGen Handles w w') :
    w'.ctx=w.ctx ∧ ReflTransGen EventStep w w' := by
  induction h with
  | refl => exact ⟨rfl,.refl⟩
  | tail _ h ih => exact ⟨h.steps.1.trans ih.1,ih.2.trans h.steps.2⟩

/-- What is reachable is what a sequence of events leads to. -/
theorem Reachable.handles {w : World} (h : Reachable w) :
    ∃ c, c.Fresh ∧ ReflTransGen Handles (World.load c) w := by
  induction h with
  | load c h => exact ⟨c,h,.refl⟩
  | event _ now sys fuel e he hr ih =>
    obtain ⟨c,hc,hs⟩ := ih
    exact ⟨c,hc,hs.tail ⟨now,sys,fuel,e,he,hr⟩⟩

theorem Reachable.steps {w : World} (h : Reachable w) :
    w.ctx=[] ∧ ∃ c, c.Fresh ∧ ReflTransGen EventStep (World.load c) w := by
  obtain ⟨c,hc,hs⟩ := h.handles
  exact ⟨(handles_steps hs).1,c,hc,(handles_steps hs).2⟩

theorem Reachable.of_handles {c : Core} (hc : c.Fresh) {w : World}
    (h : ReflTransGen Handles (World.load c) w) : Reachable w := by
  induction h with
  | refl => exact .load c hc
  | tail _ h ih =>
    obtain ⟨now,sys,fuel,e,he,hr⟩ := h
    exact .event ih now sys fuel e he hr

theorem Visited.steps {w : World} (h : Visited w) :
    ∃ c, c.Fresh ∧ ReflTransGen EventStep (World.load c) w := by
  cases h with
  | reached h => exact h.steps.2
  | @within w h now sys fuel e he =>
    obtain ⟨_,c,hc,hs⟩ := h.steps
    have hw := handle_within fuel e (w.poll now sys) (enabled_poll now sys he)
    exact ⟨c,hc,(hs.trans (poll_steps w now sys)).trans hw.1⟩

/-- What holds when the set is loaded and is kept by each step, as long as the calls made
meet a condition, holds in every run whose calls meet it. -/
theorem Visited.invariant {Ok : Call × Core → Prop} {I : World → Prop}
    (hload : ∀ c, c.Fresh → I (World.load c))
    (hstep : ∀ w w', (∀ e ∈ w'.trace, Ok e) → I w → EventStep w w' → I w')
    {w : World} (h : Visited w) (hok : ∀ e ∈ w.trace, Ok e) : I w := by
  obtain ⟨c,hc,hs⟩ := h.steps
  exact invariant_of_log _ _ _ (fun s s' hr e he => hr.grows.mem he) hstep hs hok (hload c hc)

/-- One event of a run given by its inputs. -/
structure Input where
  event : Event
  now : Nat
  sys : List SysResult := []

/-- A run of the given inputs; `none` if one of them cannot come or is not dealt with
within the fuel. -/
def run (fuel : Nat) : List Input → World → Option World
  | [], w => some w
  | a::as, w =>
    if a.event.enabled w.core then
      match handle fuel a.event (w.poll a.now a.sys) with
      | (some (),w') => run fuel as w'
      | (none,_) => none
    else none

theorem run_handles {fuel : Nat} {as : List Input} {w w' : World}
    (hr : run fuel as w=some w') : ReflTransGen Handles w w' := by
  induction as generalizing w with
  | nil =>
    obtain rfl : w=w' := by simpa [run] using hr
    exact .refl
  | cons a as ih =>
    unfold run at hr
    split at hr
    · next he =>
      split at hr
      · next w1 h1 => exact .head ⟨a.now,a.sys,fuel,a.event,he,h1⟩ (ih hr)
      · cases hr
    · cases hr

/-- What a run of given inputs shows is so in a state that the set comes to. -/
theorem handles_of_run {c : Core} (fuel : Nat) (as : List Input)
    {p : World → Bool} (h : (run fuel as (World.load c)).any p=true) :
    ∃ w, ReflTransGen Handles (World.load c) w ∧ p w=true := by
  obtain ⟨w,hr,hp⟩ := (Option.any_eq_true _ _).mp h
  exact ⟨w,run_handles hr,hp⟩

theorem reachable_of_run {c : Core} (hc : c.Fresh) (fuel : Nat) (as : List Input)
    {p : World → Bool} (h : (run fuel as (World.load c)).any p=true) :
    ∃ w, Reachable w ∧ p w=true := by
  obtain ⟨w,hr,hp⟩ := handles_of_run fuel as h
  exact ⟨w,.of_handles hc hr,hp⟩

/-- The trace has a call entered in a state that satisfies `p`. -/
def entered (w : World) (k : Call) (p : Core → Bool) : Bool :=
  w.trace.any fun e => decide (e.1=k) && p e.2

theorem entered_iff {w : World} {k : Call} {p : Core → Bool} :
    w.entered k p=true ↔ ∃ c, (k,c) ∈ w.trace ∧ p c=true := by
  simp only [entered,List.any_eq_true,Bool.and_eq_true,decide_eq_true_eq]
  constructor
  · rintro ⟨⟨k',c⟩,he,rfl,hp⟩
    exact ⟨c,he,hp⟩
  · rintro ⟨c,he,hp⟩
    exact ⟨(k,c),he,rfl,hp⟩

end World
end Dinit
