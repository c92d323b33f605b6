import Dinit.Load.Lax
import Dinit.Load.Run

namespace Dinit

open Framework Framework.Comp World Relation

namespace Loader

variable {s s' : Loader}

theorem steps_load (h : ReflTransGen LoadStep s s') : ReflTransGen RequestStep s s' :=
  ReflTransGen.mono (fun _ _ => .load) s s' h

theorem steps_event {w' : World} (h : ReflTransGen EventStep s.world w') :
    ReflTransGen RequestStep s { s with world := w' } := by
  induction h with
  | refl => exact .refl
  | @tail w v _ hs ih => exact ih.tail (.event (s := { s with world := w }) hs)

theorem steps_tidied (h : ReflTransGen RequestStep s s') (ht : s.Tidy) : s'.Tidy :=
  invariant_of_steps (fun _ _ ht hs => hs.tidy ht) h ht

theorem onWorld_some {α : Type} {m : M α} {a : α} (h : onWorld m s=(some a,s')) :
    ∃ w', m s.world=(some a,w') ∧ s'={ s with world := w' } := by
  obtain ⟨h1,rfl⟩ := Prod.mk.inj h
  exact ⟨(m s.world).2,Prod.ext h1 rfl,rfl⟩

/-- The record that is reloaded is replaced or updated, unless that would make a cycle. -/
theorem install_steps {fuel : Nat} {name : String} {file : File} {i : Nat} {d : Draft}
    {r : Except LoadError Nat} (hk : s.Known d) (hu : Unconsumed s (some i) d)
    (hc : Checked s file d i) (hi : i ∈ s.core.records)
    (hreal : (s.core.svc i).getType≠.placeholder)
    (h : install fuel name (some i) file (s.core.svc i).settings.serviceName
      (createsRecord (some i) file s) i d s=(some r,s')) :
    ReflTransGen RequestStep s s' ∧ ∀ e, r=.error e → s'.Known d := by
  unfold install at h
  rw [get_bind,modify_bind] at h
  obtain ⟨cyclic,u,hc2,h⟩ := bind_some h
  have hcyc := reloadCycle_within (R := RequestStep) (s := s)
    (t := s.push (.link i (d.depends.map Prod.fst) d.beforeDeps)) fuel (some i)
    (d.depends.map Prod.fst) i
  obtain ⟨-,rfl,hback⟩ := hcyc.returned hc2
  have hk1 := known_push hk (.link i (d.depends.map Prod.fst) d.beforeDeps)
  have hs1 : RequestStep s (s.push (.link i (d.depends.map Prod.fst) d.beforeDeps)) :=
    .load (.link i d)
  split at h
  · obtain ⟨-,rfl⟩ := pure_some h
    exact ⟨.single hs1,fun _ _ => hk1⟩
  next hcn =>
  have hr : (s.push (.link i (d.depends.map Prod.fst) d.beforeDeps)).Ready (some i) i d :=
    ⟨hk1,hu,fun hr dep hdep => hback (by simpa using hcn) hr dep.1 (List.mem_map_of_mem hdep),
      List.mem_cons_self⟩
  have hc1 : Checked (s.push (.link i (d.depends.map Prod.fst) d.beforeDeps)) file d i :=
    ⟨hc.getType,hc.state,hc.depends⟩
  split at h
  · next hcr =>
    rw [get_bind,modify_bind] at h
    obtain ⟨rfl,rfl⟩ := pure_some h
    have ht : file.settings.recordType≠(s.core.svc i).getType := by
      simpa [createsRecord] using hcr
    exact ⟨.tail (.single hs1) (.replace file i d hr hc1 hi hreal ht),fun _ he => by cases he⟩
  · next hcr =>
    have ht : file.settings.recordType=(s.core.svc i).getType := by
      simpa [createsRecord] using hcr
    obtain ⟨_,u1,h1,h⟩ := bind_some h
    obtain ⟨w1,hw1,rfl⟩ := onWorld_some h1
    obtain ⟨_,u2,h2,h⟩ := bind_some h
    obtain ⟨w2,hw2,rfl⟩ := onWorld_some h2
    obtain ⟨-,rfl⟩ := Prod.mk.inj hw2
    rw [modify_bind,modify_bind] at h
    obtain ⟨rfl,rfl⟩ := pure_some h
    have hmoves := ((updateDependencies_moves (calls_ok fuel) i d s.world).returned hw1).1
    refine ⟨.tail (.single hs1) (.update file i d hr hc1 hi hreal ht hmoves fun hL => ?_),
      fun _ he => by cases he⟩
    obtain ⟨hsteps,-,hg⟩ := (updateDependencies_within (calls_ok fuel) i d s.world hL).returned hw1
    exact ⟨hsteps,hg⟩

section
variable {load : String → Option Nat → Load (Except LoadError Nat)}

/-- The reload of a service. -/
theorem loadTry_steps (hload : ∀ avoid, Loads fun n => load n avoid) {fuel : Nat} {file : File}
    {i : Nat} {r : Except LoadError Nat} (ht : s.Tidy) (hi : i ∈ s.core.records)
    (hreal : (s.core.svc i).getType≠.placeholder)
    (h : loadTry load fuel (s.core.svc i).settings.serviceName (some i) none file s=(some r,s')) :
    ReflTransGen RequestStep s s' := by
  obtain ⟨⟨d,err⟩,u,hu,h⟩ := bind_some h
  obtain ⟨hs,hk,hun,hch⟩ := (gather_within hload fuel (some i)
    (baseName (s.core.svc i).settings.serviceName) file ht (by
      intro j hj
      obtain rfl : i=j := by simpa using hj
      exact ht.below i hi)).returned hu
  have hsu := steps_load hs
  have hclean {v : Loader} (hv : v.Known d) : RequestStep v (v.cleanup none d) :=
    .load (.cleanup none d (by simp) fun htr _ hj => hv.candidates htr hj)
  cases err with
  | some e =>
    dsimp only at h
    rw [modify_bind] at h
    obtain ⟨-,rfl⟩ := pure_some h
    exact hsu.tail (hclean hk)
  | none =>
    obtain ⟨htu,hkeep⟩ := steps_tidy hs ht
    obtain ⟨hset,hmem⟩ := hkeep.real i (ht.below i hi) hreal
    have hreal' : (u.core.svc i).getType≠.placeholder := by
      rw [Svc.getType,hset]
      exact hreal
    dsimp only at h
    rw [get_bind,← hset] at h
    obtain ⟨r1,v,hv,h⟩ := bind_some h
    obtain ⟨hsv,hkv⟩ := install_steps hk (hun rfl) (hch rfl i rfl) (hmem hi) hreal' hv
    cases r1 with
    | error e =>
      dsimp only at h
      rw [modify_bind] at h
      obtain ⟨-,rfl⟩ := pure_some h
      exact (hsu.trans hsv).tail (hclean (hkv e rfl))
    | ok j =>
      obtain ⟨-,rfl⟩ := pure_some h
      exact hsu.trans hsv

theorem loadFrom_steps (hload : ∀ avoid, Loads fun n => load n avoid) {fuel i : Nat}
    {files : String → Except LoadError File} {r : Except LoadError Nat} (ht : s.Tidy)
    (hi : i ∈ s.core.records) (hreal : (s.core.svc i).getType≠.placeholder)
    (h : loadFrom load fuel (s.core.svc i).settings.serviceName (some i) files s=(some r,s')) :
    ReflTransGen RequestStep s s' := by
  unfold loadFrom at h
  cases hf : files (baseName (s.core.svc i).settings.serviceName) with
  | error e =>
    rw [hf] at h
    obtain ⟨-,rfl⟩ := pure_some h
    exact .refl
  | ok file =>
    rw [hf] at h
    exact loadTry_steps hload ht hi hreal h

end

variable {files : String → Except LoadError File} {fuel : Nat}

theorem load_steps {name : String} (ht : s.Tidy)
    (h : (Request.load name).handle files fuel s=(some (),s')) : ReflTransGen RequestStep s s' := by
  obtain ⟨r,u,hu,h⟩ := bind_some h
  obtain ⟨-,rfl⟩ := pure_some h
  exact steps_load ((loadReloadService_within files fuel none name s ht).returned hu).1

theorem reload_steps {i : Nat} (ht : s.Tidy) (hi : i ∈ s.core.records)
    (hreal : (s.core.svc i).getType≠.placeholder)
    (h : (Request.reload i).handle files fuel s=(some (),s')) : ReflTransGen RequestStep s s' := by
  unfold Request.handle at h
  dsimp only at h
  rw [get_bind] at h
  obtain ⟨r,u,hu,h⟩ := bind_some h
  have hsu : ReflTransGen RequestStep s u := by
    cases fuel with
    | zero => cases hu
    | succ fuel =>
      unfold loadReloadService at hu
      rw [get_bind] at hu
      dsimp only at hu
      exact loadFrom_steps (loadReloadService_within files fuel) ht hi hreal hu
  cases r with
  | error e =>
    obtain ⟨-,rfl⟩ := pure_some h
    exact hsu
  | ok j =>
    obtain ⟨w',hw,rfl⟩ := onWorld_some h
    have hq := within_event ((calls_ok fuel).processQueues u.world)
    exact hsu.trans (steps_event (hq.returned hw).1)

theorem unload_steps {i : Nat} (hi : i ∈ s.core.records)
    (hreal : (s.core.svc i).getType≠.placeholder)
    (h : (Request.unload i).handle files fuel s=(some (),s')) : ReflTransGen RequestStep s s' := by
  unfold Request.handle at h
  dsimp only at h
  rw [get_bind] at h
  split at h
  · next hc =>
    obtain ⟨-,rfl⟩ := Prod.mk.inj h
    exact .single (.unload i hi hreal (by simpa using hc.1) hc.2)
  · obtain ⟨-,rfl⟩ := pure_some h
    exact .refl

theorem event_steps {e : Event} {now : Nat} {sys : List SysResult}
    (he : e.enabled s.core=true)
    (h : (Request.event e now sys).handle files fuel s=(some (),s')) :
    ReflTransGen RequestStep s s' := by
  obtain ⟨w',hw,rfl⟩ := onWorld_some h
  have hs := ((handle_within fuel e (s.world.poll now sys) (enabled_poll now sys he)).returned hw).1
  exact steps_event ((poll_steps s.world now sys).trans hs)

/-- The handling of a request is a sequence of steps. -/
theorem handle_steps {q : Request} (ht : s.Tidy) (he : q.enabled s=true)
    (h : q.handle files fuel s=(some (),s')) : ReflTransGen RequestStep s s' := by
  cases q with
  | event e now sys => exact event_steps he h
  | load name => exact load_steps ht h
  | reload i =>
    obtain ⟨hi,hreal⟩ := (Bool.and_eq_true _ _).mp he
    exact reload_steps ht (by simpa using hi) (by simpa using hreal) h
  | unload i =>
    obtain ⟨hi,hreal⟩ := (Bool.and_eq_true _ _).mp he
    exact unload_steps (by simpa using hi) (by simpa using hreal) h

/-- The states between two requests. The descriptions may change from one to the next. -/
inductive Reached : Loader → Prop
  | empty : Reached empty
  | request {s s' : Loader} (h : Reached s) (files : String → Except LoadError File) (fuel : Nat)
      (q : Request) (he : q.enabled s=true) (hr : q.handle files fuel s=(some (),s')) : Reached s'

theorem empty_good : empty.Good where
  sound := by
    refine ⟨⟨?_,?_,fun _ => .nil,fun _ => .nil,?_⟩,fun _ _ => ⟨rfl,rfl⟩,.nil,by simp [empty,core],
      by simp [empty,core],?_,fun _ _ => rfl,rfl⟩ <;>
    · intro i l hl
      cases hl
  tidy := by
    refine ⟨.nil,by simp [empty,core],?_,fun _ _ _ => rfl,?_,fun _ _ => ⟨rfl,rfl,rfl⟩⟩
    · intro i hi
      cases hi
    · intro p k hk
      cases hk
  trusted := by
    intro orig deps before c r he
    cases he
  named := by
    intro i hi
    cases hi

theorem Reached.steps (h : Reached s) : ReflTransGen RequestStep Loader.empty s := by
  induction h with
  | empty => exact .refl
  | request h files fuel q he hr ih =>
    exact ih.trans (handle_steps (steps_tidied ih empty_good.tidy) he hr)

/-- A request adds to the calls of the state machine. -/
theorem RequestStep.trace (h : RequestStep s s') : Grows s.world s'.world := by
  cases h with
  | load h => exact ⟨[],h.trace⟩
  | event h => exact h.grows
  | replace file orig d hr hc ho hreal ht =>
    exact ⟨[],(lax_trace.setConsumer _ _ d).trans (lax_trace.createRecord s file _ orig d)⟩
  | @update w' file orig d hr hc ho hreal ht hm hw =>
    obtain ⟨t,ht⟩ := moves_grows hm
    exact ⟨t,(lax_trace.setConsumer (({ s with world := w' } : Loader).withSettings file orig)
      orig d).trans ht⟩
  | unload i hi hreal hd hs => exact ⟨[],lax_trace.unloadService s i⟩

/-- What holds of the empty set and is kept by each step, in a set in order and as long as
the calls of the loader and of the state machine meet a condition, holds in every run whose
calls meet it. -/
theorem Reached.invariant_calls (Ok : LoadCall × Core × Registry → Prop) (Ok' : Call × Core → Prop)
    {I : Loader → Prop} (hempty : I Loader.empty)
    (hstep : ∀ s s', (∀ e ∈ s'.calls, Ok e) → (∀ e ∈ s'.world.trace, Ok' e) → s.Good → s'.Good →
      I s → RequestStep s s' → I s')
    (hbase : ∀ e, Ok e → LoadOk e) (h : Reached s) (hok : ∀ e ∈ s.calls, Ok e)
    (hok' : ∀ e ∈ s.world.trace, Ok' e) : s.Good ∧ I s := by
  let log (s : Loader) : List ((LoadCall × Core × Registry) ⊕ (Call × Core)) :=
    s.calls.map .inl++s.world.trace.map .inr
  have hlog (s : Loader) : (∀ e ∈ log s, Sum.elim Ok Ok' e) ↔
      (∀ e ∈ s.calls, Ok e) ∧ ∀ e ∈ s.world.trace, Ok' e := by
    rw [List.forall_mem_append,List.forall_mem_map,List.forall_mem_map]
    rfl
  refine invariant_of_log log (Sum.elim Ok Ok') (fun s => s.Good ∧ I s) ?_ ?_ h.steps
    ((hlog s).mpr ⟨hok,hok'⟩) ⟨empty_good,hempty⟩
  · intro s s' hs e he
    rcases List.mem_append.mp he with he | he
    · obtain ⟨k,hk,rfl⟩ := List.mem_map.mp he
      exact List.mem_append_left _ (List.mem_map_of_mem (hs.calls k hk))
    · obtain ⟨k,hk,rfl⟩ := List.mem_map.mp he
      exact List.mem_append_right _ (List.mem_map_of_mem (hs.trace.mem hk))
  · intro s s' hok hi hs
    obtain ⟨hok,hok'⟩ := (hlog s').mp hok
    have hg := hs.good hi.1 fun e he => hbase e (hok e he)
    exact ⟨hg,hstep s s' hok hok' hi.1 hg hi.2 hs⟩

theorem Reached.invariant (Ok : LoadCall × Core × Registry → Prop) {I : Loader → Prop}
    (hempty : I Loader.empty)
    (hstep : ∀ s s', (∀ e ∈ s'.calls, Ok e) → s.Good → s'.Good → I s → RequestStep s s' → I s')
    (hbase : ∀ e, Ok e → LoadOk e) (h : Reached s) (hok : ∀ e ∈ s.calls, Ok e) :
    s.Good ∧ I s :=
  h.invariant_calls Ok (fun _ => True) hempty (fun s s' hok _ => hstep s s' hok) hbase hok
    fun _ _ => trivial

/-- One request of a run given by its inputs. -/
structure Ask where
  files : String → Except LoadError File
  request : Request

/-- A run of the given requests; `none` if one of them cannot be made or is not dealt with
within the fuel. -/
def run (fuel : Nat) : List Ask → Loader → Option Loader
  | [], s => some s
  | a::as, s =>
    if a.request.enabled s then
      match a.request.handle a.files fuel s with
      | (some (),s') => run fuel as s'
      | (none,_) => none
    else none

theorem run_reached {as : List Ask} (h : Reached s) (hr : run fuel as s=some s') : Reached s' := by
  induction as generalizing s with
  | nil =>
    obtain rfl : s=s' := by simpa [run] using hr
    exact h
  | cons a as ih =>
    unfold run at hr
    split at hr
    · next he =>
      split at hr
      · next u hu => exact ih (.request h a.files fuel a.request he hu) hr
      · cases hr
    · cases hr

/-- What a run of given requests shows is so in a state that is reached. -/
theorem reached_of_run (fuel : Nat) (as : List Ask) {p : Loader → Bool}
    (h : (run fuel as empty).any p=true) : ∃ s, Reached s ∧ p s=true := by
  obtain ⟨s,hr,hp⟩ := (Option.any_eq_true _ _).mp h
  exact ⟨s,run_reached .empty hr,hp⟩

end Loader
end Dinit
