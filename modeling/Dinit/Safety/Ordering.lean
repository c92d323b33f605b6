import Dinit.Run.Loose
import Dinit.Load.Handle

namespace Dinit

open Framework Framework.Comp World Relation

/-- No link that is only an ordering holds its target. -/
def Core.OrderingUnheld (c : Core) : Prop :=
  ∀ l, (c.link l).isOnlyOrdering=true → (c.link l).holdingAcq=false

namespace Core.OrderingUnheld

variable {c c' : Core}

/-- No link changes its type or comes to hold its target. -/
theorem of_link (h : c.OrderingUnheld) (hl : ∀ l, (c'.link l).depType=(c.link l).depType ∧
    ((c'.link l).holdingAcq=true → (c.link l).holdingAcq=true)) : c'.OrderingUnheld := by
  intro l ho
  have ht : (c.link l).isOnlyOrdering=true := by
    rw [← ho,Link.isOnlyOrdering,Link.isOnlyOrdering,(hl l).1]
  by_contra hn
  have hh := (hl l).2 (by simpa using hn)
  rw [h l ht] at hh
  cases hh

theorem same (h : c.OrderingUnheld) (hl : c'.link=c.link) : c'.OrderingUnheld :=
  h.of_link fun l => by simp [hl]

/-- The links `ls`, which are more than orderings, come to hold their targets. -/
theorem hold (h : c.OrderingUnheld) (ls : List Nat)
    (hls : ∀ l ∈ ls, (c.link l).isOnlyOrdering=false) :
    (c.setLinks ls fun d => { d with holdingAcq := true }).OrderingUnheld := by
  intro l ho
  rw [setLinks_link] at ho ⊢
  split_ifs at ho ⊢ with hl
  · have ho' : (c.link l).isOnlyOrdering=true := ho
    rw [hls l (by simpa using hl)] at ho'
    cases ho'
  · exact h l ho

theorem acquire (h : c.OrderingUnheld) {l : Nat} (hl : (c.link l).isOnlyOrdering=false) :
    (c.acquire l).OrderingUnheld := by
  unfold Core.acquire
  rw [setLink_eq]
  have hr : (c.require (c.link l).to_).OrderingUnheld := h.same (require_link c _)
  exact hr.hold [l] (by simpa using hl)

theorem linkAt (h : c.OrderingUnheld) (f t : Nat) (depType : DependencyType) (m n : Nat) :
    (c.linkAt f t depType m n).OrderingUnheld := by
  intro l ho
  rw [linkAt_link] at ho ⊢
  split_ifs at ho ⊢
  · rfl
  · exact h l ho

/-- A new dependency holds its target if it is more than an ordering and its source is
active. -/
theorem addDepAt (h : c.OrderingUnheld) (f t : Nat) (depType : DependencyType) (place : Nat) :
    (c.addDepAt f t depType place).OrderingUnheld := by
  have hl := h.linkAt f t depType place (c.svc t).dependents.length
  unfold Core.addDepAt
  dsimp only
  split_ifs with hc
  · refine hl.acquire ?_
    rw [linkAt_link,if_pos rfl]
    simp [Link.isOnlyOrdering,hc.1,hc.2.1]
  · exact hl

theorem rmDep (h : c.OrderingUnheld) (l : Nat) : (c.rmDep l).OrderingUnheld := by
  refine h.same ?_
  unfold Core.rmDep
  split_ifs <;> simp

theorem activate (h : c.OrderingUnheld) {i : Nat}
    (hi : ∀ l ∈ c.softDependents i, (c.link l).isOnlyOrdering=false) :
    (c.activate i).OrderingUnheld :=
  (h.hold (c.softDependents i) hi).same (by simp [Core.activate])

theorem relinks (h : c.OrderingUnheld) (hr : c.Relinks c') : c'.OrderingUnheld := by
  cases hr with
  | records rs => exact h
  | unlink l => exact h
  | rmDep l => exact h.rmDep l
  | linkAt f t depType m n => exact h.linkAt f t depType m n
  | moveDependents i j ls =>
    refine h.of_link fun l => ?_
    rw [moveDependents_link]
    split_ifs <;> exact ⟨rfl,id⟩
  | moveDependencies i j ls =>
    refine h.of_link fun l => ?_
    rw [moveDependencies_link]
    split_ifs <;> exact ⟨rfl,id⟩

end Core.OrderingUnheld

/-- A service that is activated finds no ordering among the links by which active services
would attach to it again, and a dependency that is to be started is more than an ordering. -/
def AttachOk : Call × Core → Prop
  | (.doStart i,c) => (c.svc i).serviceState=.stopped → (c.svc i).pinnedStopped=false →
      ∀ l ∈ c.softDependents i, (c.link l).isOnlyOrdering=false
  | (.startDep l,c) => (c.link l).holdingAcq=false → (c.link l).isOnlyOrdering=false
  | _ => True

instance : DecidablePred AttachOk
  | (.doStart i,c) => inferInstanceAs (Decidable (
      (c.svc i).serviceState=.stopped → (c.svc i).pinnedStopped=false →
      ∀ l ∈ c.softDependents i, (c.link l).isOnlyOrdering=false))
  | (.startDep l,c) => inferInstanceAs (Decidable (
      (c.link l).holdingAcq=false → (c.link l).isOnlyOrdering=false))
  | (.stopped _,_) | (.initiateStart _,_) | (.doPropagation _,_) | (.executeTransition _,_)
  | (.doStop _ _,_) | (.stopDependent _ _,_) | (.allDepsStarted _,_) | (.acquiredConsole _,_)
  | (.bringUp _,_) | (.bringDown _,_) | (.started _,_) | (.failedToStart _ _,_)
  | (.interruptStart _,_) | (.startPsProcess _,_) | (.killPg _ _,_) | (.getpgid _ _,_)
  | (.kill _ _,_) | (.killAll _,_) | (.handleExitStatus _,_) | (.handleExitAgain _,_)
  | (.timerExpired _,_) | (.execStatus _ _,_) | (.stopExecStatus _ _,_) | (.childTerminated _,_)
  | (.stopChildTerminated _,_) | (.addTransitionQueue _,_) | (.unpin _,_) | (.addDep _ _ _,_)
  | (.rmDep _,_) | (.releaseDependency _,_) | (.logServiceStarted _,_)
  | (.startCancelled _,_) | (.readyNotify _,_) => .isTrue trivial

/-- No ordering holds its target, and none did at any call. -/
def World.OrderingUnheld (w : World) : Prop :=
  w.core.OrderingUnheld ∧ ∀ e ∈ w.trace, e.2.OrderingUnheld

/-- A step leaves orderings unheld, if its calls meet the condition. -/
def Attaches : World → World → Prop := Preserves AttachOk World.OrderingUnheld

namespace Attaches

variable {w w' w'' : World}

theorem trans (h : Attaches w w') (h' : Attaches w' w'') : Attaches w w'' := Preserves.trans h h'

theorem onCore {f : Core → Core} (hf : w.core.OrderingUnheld → (f w.core).OrderingUnheld) :
    Attaches w (w.onCore f) :=
  Preserves.onCore fun h => ⟨hf h.1,h.2⟩

theorem of_link {f : Core → Core} (hl : ∀ l, ((f w.core).link l).depType=(w.core.link l).depType ∧
    (((f w.core).link l).holdingAcq=true → (w.core.link l).holdingAcq=true)) :
    Attaches w (w.onCore f) :=
  .onCore fun h => h.of_link hl

theorem same {f : Core → Core} (hl : (f w.core).link=w.core.link) : Attaches w (w.onCore f) :=
  .onCore fun h => h.same hl

theorem push (w : World) (k : Call) : Attaches w (w.push k) := by
  refine ⟨grows_push w k,fun _ h => ⟨h.1,fun e he => ?_⟩⟩
  rcases List.mem_cons.mp he with rfl | he
  · exact h.1
  · exact h.2 e he

end Attaches

theorem loose_attaches : Loose Attaches where
  refl := .refl
  trans := .trans
  push := .push
  plain w i f h := .same rfl
  queue w i := .same rfl
  active w n := .same rfl
  waiting w ls b := by
    refine .of_link fun l => ?_
    rw [Core.setLinks_link]
    split_ifs <;> exact ⟨rfl,id⟩
  unhold w l := by
    refine .of_link fun k => ?_
    rw [Core.setLink_link]
    split_ifs with hk
    · exact ⟨by rw [hk],fun h => by cases h⟩
    · exact ⟨rfl,id⟩
  acquire w l h := .onCore fun hw => hw.acquire h
  attach w i hs hp := by
    refine (Attaches.push w (.doStart i)).trans ⟨grows_onCore _ _,fun hok hw => ⟨?_,hw.2⟩⟩
    exact hw.1.activate (hok _ List.mem_cons_self hs hp)
  release w i := .same (by simp)
  failure w i := .same (by simp)
  unqueue w i := .same rfl
  cancelled w i b h := h.trans (.same (f := fun c => c.setSvc i fun s =>
    { s with startFailed := true, pinnedStarted := false }) rfl)

theorem StopStep.attaches {w w' : World} (h : StopStep w w') : Attaches w w' := by
  have hinterrupted (i : Nat) : Attaches w ((w.onCore fun c => c.setSvc i Svc.interrupted).push
      (.startCancelled i)) :=
    Attaches.trans (.same (f := fun c => c.setSvc i Svc.interrupted) rfl)
      (loose_attaches.push _ (.startCancelled i))
  cases h with
  | misc i f h => exact .same rfl
  | sys rs => exact ⟨.refl w,fun _ => id⟩
  | doStop i r => exact loose_attaches.push w _
  | stopDependent i l h => exact loose_attaches.push w _
  | giveUp i => exact .same rfl
  | dropExplicit i h => exact loose_attaches.dropExplicit w i
  | forceDependent i j => exact .same (by simp)
  | giveUpExplicit j h => exact .same (by simp)
  | propagateStop j f h => exact .same (by simp)
  | breakSoft i l h => exact loose_attaches.breakSoft w i l
  | interruptStart i => exact loose_attaches.push w _
  | killPg i signo h => exact loose_attaches.push w _
  | getpgid i g signo h => exact loose_attaches.push w _
  | kill i target signo h => exact loose_attaches.push w _
  | beginStop i r all h told => exact loose_attaches.beginStop w i all
  | cancelWait i all h hw => exact loose_attaches.cancelWait w i all
  | resetTimer i timeout c hc hi hp hr => exact .same rfl
  | interrupt i h hd hc hp ht => exact hinterrupted i
  | cancelled i all h hd hc hp => exact (hinterrupted i).trans (loose_attaches.beginStop _ i all)

theorem attaches_nextFlag (w : World) : Attaches w w.nextFlag := ⟨.refl w,fun _ => id⟩

theorem attaches_repinned {w w' : World} (h : Repinned w w') : Attaches w w' := by
  refine ⟨h.frame.grows,fun _ hw => ⟨hw.1.same ?_,?_⟩⟩
  · rw [h.core]
  · rw [h.trace]
    exact hw.2

theorem Step.attaches {w w' : World} (h : Step w w') : Attaches w w' := by
  have hset (u : World) (i : Nat) (f : Svc → Svc) : Attaches u (u.onCore fun c => c.setSvc i f) :=
    .same rfl
  have hcore (u : World) (f : Core → Core) (hf : (f u.core).link=u.core.link) (k : Call) :
      Attaches u ((u.onCore f).push k) := (Attaches.same hf).trans (.push _ k)
  have hcancel (u : World) (i : Nat) (b : Bool) : Attaches u (u.cancelStart i b) :=
    loose_attaches.cancelStart u i b
  cases h with
  | stop h => exact h.attaches
  | call k h => exact loose_attaches.push w k
  | popConsole i rest h =>
    exact hcore w (fun c => { c with consoleQueue := rest }) rfl (.acquiredConsole i)
  | popPropagation i h =>
    obtain ⟨hg,hk⟩ := hcore w (fun c => { c with propQueue := c.propQueue.popFront i }) rfl
      (.doPropagation i)
    exact ⟨hg,hk⟩
  | popTransition i hp h =>
    exact hcore w (fun c => { c with stopQueue := c.stopQueue.popFront i }) rfl (.executeTransition i)
  | skipFlag i k h hk hf => exact attaches_nextFlag w
  | skipPin i h hp => exact attaches_nextFlag w
  | recomputePin i h => exact (attaches_repinned (repinned_recomputePin w i)).trans (attaches_nextFlag _)
  | clearRelease i h => exact (hset w i _).trans (attaches_nextFlag _)
  | clearStart i h => exact (hset w i _).trans (attaches_nextFlag _)
  | clearStop i h => exact (hset w i _).trans (attaches_nextFlag _)
  | leavePropagation i h => exact ⟨.refl w,fun _ => id⟩
  | requireDependencies i h hc hp =>
    exact ((loose_attaches.requireDependencies w i).trans (hset _ i _)).trans (attaches_nextFlag _)
  | dropLink i l hl hh hp ht => exact loose_attaches.dropLink w l _
  | failure i h hp => exact ((hset w i _).trans (attaches_nextFlag _)).trans (hcancel _ i true)
  | doStart i => exact loose_attaches.doStart w i
  | initiateStart i hs hd hp => exact loose_attaches.initiateStart w i
  | becomeStarted i => exact loose_attaches.becomeStarted w i
  | becomeStopped i => exact loose_attaches.becomeStopped w i
  | cancelStart i immediate f h => exact (hset w i f).trans (hcancel _ i immediate)
  | cancelStopping i immediate f h hs hn => exact (hset w i f).trans (hcancel _ i immediate)
  | cancelTimeout i f h hp hs hn => exact ((hset w i _).trans (hset _ i f)).trans (hcancel _ i false)
  | forcedStop i => exact .same (by simp)
  | unrecoverableStop i => exact .same (by simp)
  | _ => exact .same rfl

theorem EventStep.attaches {w w' : World} (h : EventStep w w') : Attaches w w' := by
  cases h with
  | step h => exact h.attaches
  | call k h => exact loose_attaches.push w k
  | stopRelease i hr hd hp => exact .same (by simp)
  | pinStart i => exact attaches_repinned (repinned_pinStart w i)
  | unpinStart i c hc => exact attaches_repinned (repinned_unpinStart w i)
  | unpinRelease i c hc hp hq hs hr hd => exact .same (by simp)
  | acquire l j hl h hc =>
    refine ⟨grows_onCore w _,fun hok hw => ⟨hw.1.acquire ?_,hw.2⟩⟩
    exact hok _ (List.mem_of_mem_head? hc) h
  | addDep f t depType h hm => exact .onCore fun hw => hw.addDepAt f t depType _
  | rmDep f l hl h => exact .onCore fun hw => hw.rmDep l
  | expire i h =>
    have h1 : Attaches w (w.onCore fun c => c.setProc i fun p => { p with timerArmed := false }) :=
      .same rfl
    exact (h1.trans (loose_attaches.push _ _)).trans (.same (f := fun c => c.setSvc i Svc.timedOut) rfl)
  | _ => exact .same rfl

theorem Move.attaches {w w' : World} (h : Move w w') : Attaches w w' := by
  cases h with
  | call k => exact loose_attaches.push w k
  | before j i => exact .onCore fun hw => hw.linkAt j i .before 0 0
  | addDep i t depType place => exact .onCore fun hw => hw.addDepAt i t depType place
  | rmDep l => exact .onCore fun hw => hw.rmDep l
  | step h => exact h.attaches

namespace Loader

variable {s s' : Loader}

/-- The loader makes links that hold nothing, and keeps what it moves as it is. -/
theorem lax_orderingUnheld : Lax fun s s' => s.core.OrderingUnheld → s'.core.OrderingUnheld where
  refl _ := id
  trans _ _ _ h h' hs := h' (h hs)
  onCore _ _ hr h := h.relinks hr
  push _ _ := id
  undefined _ := id
  logType _ _ := id
  setLogConsumer _ _ _ := id
  setConsumerFor _ _ _ := id
  allocate _ _ h := h
  delete s i h := by
    refine h.same ?_
    rw [delete_core]
    rfl

theorem orderingUnheld_replaced (h : s.core.OrderingUnheld) (file : File) (fullname : String)
    (orig : Nat) (d : Draft) :
    ((s.createRecord file fullname orig d).2.setConsumer s.reg.nextSvc d).core.OrderingUnheld :=
  lax_orderingUnheld.setConsumer _ _ d (lax_orderingUnheld.createRecord s file fullname orig d h)

theorem RequestStep.unheld (h : RequestStep s s') (hs : s.world.OrderingUnheld)
    (hok : ∀ e ∈ s'.world.trace, AttachOk e) : s'.world.OrderingUnheld := by
  -- the loader makes no calls of the state machine
  have hsame {u : Loader} (hc : u.core.OrderingUnheld) (ht : u.world.trace=s.world.trace) :
      u.world.OrderingUnheld := by
    refine ⟨hc,fun e he => ?_⟩
    rw [ht] at he
    exact hs.2 e he
  cases h with
  | load h =>
    have ht := h.trace
    cases h with
    | dummy name hn => exact hs
    | placeholder n hn => exact hs
    | link orig d => exact hs
    | cleanup dummy d hd hk => exact hsame (lax_orderingUnheld.cleanup s dummy d hs.1) ht
    | create file name reload orig d hr ho hp hro hl hn =>
      exact hsame (orderingUnheld_replaced hs.1 file name orig d) ht
  | event h => exact h.attaches.keeps hok hs
  | replace file orig d hr _ ho hreal ht =>
    refine hsame (orderingUnheld_replaced hs.1 file _ orig d) ?_
    exact (lax_trace.setConsumer _ _ d).trans (lax_trace.createRecord s file _ orig d)
  | @update w' file orig d hr _ ho hreal ht hm hw =>
    have htr := lax_trace.setConsumer (({ s with world := w' } : Loader).withSettings file orig) orig d
    rw [htr] at hok
    have hw' := (preserves_steps (fun _ _ h => h.attaches) hm).keeps hok hs
    refine ⟨?_,fun e he => hw'.2 e (by rwa [htr] at he)⟩
    show (Loader.core _).OrderingUnheld
    rw [setConsumer_core]
    exact hw'.1.same rfl
  | unload i hi hreal hd _ =>
    exact hsame (lax_orderingUnheld.unloadService s i hs.1) (lax_trace.unloadService s i)

/-- No ordering comes to hold its target in a run that meets the condition: none does at any
call or between any two requests. -/
theorem Reached.orderingUnheld (h : Reached s) (hok : ∀ e ∈ s.world.trace, AttachOk e) :
    (∀ e ∈ s.world.trace, e.2.OrderingUnheld) ∧ s.core.OrderingUnheld := by
  have hempty : Loader.empty.world.OrderingUnheld := ⟨fun _ _ => rfl,fun e he => by cases he⟩
  exact (invariant_of_log (fun s : Loader => s.world.trace) AttachOk
    (fun s => s.world.OrderingUnheld) (fun s s' hs e he => hs.trace.mem he)
    (fun s s' hok hi hs => hs.unheld hi hok) h.steps hok hempty).symm

/-- A service "a" that starts after the service "b". -/
def oneAfter : String → Except LoadError File
  | "a" => .ok { lines := [.after "b"], settings := { recordType := .internal }
                 isService := internal_isService }
  | "b" => .ok { settings := { recordType := .internal }, isService := internal_isService }
  | n => .error (.notFound n)

/-- Both are loaded, and one is started before the other. -/
def startBoth (first second : Nat) : List Ask :=
  [⟨oneAfter,.load "b"⟩,⟨oneAfter,.load "a"⟩,⟨oneAfter,.event (.startService first false) 1 []⟩,
    ⟨oneAfter,.event (.startService second false) 2 []⟩]

theorem unheld_in_order : ∃ s : Loader, Reached s ∧ (∀ e ∈ s.world.trace, AttachOk e) ∧
    (s.core.svc 1).serviceState=.started ∧ (s.core.svc 3).serviceState=.started ∧
    s.core.OrderingUnheld := by
  obtain ⟨s,hs,hp⟩ := reached_of_run 10 (startBoth 1 3)
    (p := fun s => decide (∀ e ∈ s.world.trace, AttachOk e) &&
      (s.core.svc 1).serviceState==.started && (s.core.svc 3).serviceState==.started)
    (by decide +kernel)
  simp only [Bool.and_eq_true,decide_eq_true_eq,beq_iff_eq] at hp
  obtain ⟨⟨hok,h1⟩,h3⟩ := hp
  exact ⟨s,hs,hok,h1,h3,(Reached.orderingUnheld hs hok).2⟩

/-- If "a" is started already, its ordering attaches to "b" as a soft dependency would. -/
theorem ordering_attached : ¬∀ s : Loader, Reached s → s.core.OrderingUnheld := by
  intro h
  obtain ⟨s,hs,hp⟩ := reached_of_run 10 (startBoth 3 1)
    (p := fun s => (s.core.link 0).isOnlyOrdering && (s.core.link 0).holdingAcq) (by decide +kernel)
  obtain ⟨ho,hh⟩ := (Bool.and_eq_true _ _).mp hp
  rw [h s hs 0 ho] at hh
  cases hh

end Loader
end Dinit
