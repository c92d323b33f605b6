import Dinit.Run.Loose
import Dinit.Run.Reachable

namespace Dinit

open Framework Framework.Comp World Relation

/-- What is queued for propagation stays so, and a service of which a propagation flag is
raised is queued. -/
structure Raises (w w' : World) : Prop where
  ctx : w'.ctx=w.ctx
  queue : ∀ xs, w.core.propQueue.Pops xs → ∃ ys, w'.core.propQueue.Pops ys ∧
    (∀ i ∈ xs, i ∈ ys) ∧ ∀ i k, (w'.core.svc i).flag k=true → (w.core.svc i).flag k=true ∨ i ∈ ys

namespace Raises

variable {w w' w'' : World} {i : Nat}

theorem refl (w : World) : Raises w w := ⟨rfl,fun xs hx => ⟨xs,hx,fun _ h => h,fun _ _ => .inl⟩⟩

theorem trans (h : Raises w w') (h' : Raises w' w'') : Raises w w'' := by
  refine ⟨h'.ctx.trans h.ctx,fun xs hx => ?_⟩
  obtain ⟨ys,hy,hxy,hf⟩ := h.queue xs hx
  obtain ⟨zs,hz,hyz,hf'⟩ := h'.queue ys hy
  refine ⟨zs,hz,fun i hi => hyz i (hxy i hi),fun i k hk => ?_⟩
  rcases hf' i k hk with hk | hi
  · rcases hf i k hk with hk | hi
    · exact .inl hk
    · exact .inr (hyz i hi)
  · exact .inr hi

/-- No flag is raised, and the queue is left alone. -/
theorem of_flags (hc : w'.ctx=w.ctx) (hq : w'.core.propQueue=w.core.propQueue)
    (hf : ∀ i k, (w'.core.svc i).flag k=true → (w.core.svc i).flag k=true) : Raises w w' := by
  refine ⟨hc,fun xs hx => ⟨xs,?_,fun _ h => h,fun i k hk => .inl (hf i k hk)⟩⟩
  rw [hq]
  exact hx

theorem setSvc (w : World) (i : Nat) (f : Svc → Svc)
    (hf : ∀ k, (f (w.core.svc i)).flag k=true → (w.core.svc i).flag k=true) :
    Raises w (w.onCore fun c => c.setSvc i f) := by
  refine of_flags rfl rfl fun j k hk => ?_
  by_cases hj : j=i
  · subst hj
    exact hf k (by simpa using hk)
  · simpa [hj] using hk

/-- A service of which a flag may be raised is queued. -/
theorem setProp (w : World) (i : Nat) (f : Svc → Svc) (q : Bool)
    (hf : q=false → ∀ k, (f (w.core.svc i)).flag k=true → (w.core.svc i).flag k=true) :
    Raises w (w.onCore fun c => c.setProp i f q) := by
  cases q with
  | false => exact setSvc w i f (hf rfl)
  | true =>
    refine ⟨rfl,fun xs hx => ?_⟩
    obtain ⟨ys,hy,hi,he⟩ := hx.add i
    refine ⟨ys,hy,?_,?_⟩
    · intro j hj
      rcases he with rfl | rfl
      · exact hj
      · exact List.mem_cons_of_mem i hj
    · intro j k hk
      by_cases hj : j=i
      · exact .inr (hj ▸ hi)
      · left
        simpa [hj] using hk

/-- Only fields that have nothing to do with propagation change. -/
theorem queues (w : World) (f : Core → Core) (hs : (f w.core).svc=w.core.svc)
    (hq : (f w.core).propQueue=w.core.propQueue) : Raises w (w.onCore f) := by
  refine of_flags rfl hq fun j k hk => ?_
  rw [World.onCore,hs] at hk
  exact hk

end Raises

theorem Svc.flag_congr {s s' : Svc} (hr : s'.propRequire=s.propRequire)
    (hl : s'.propRelease=s.propRelease) (hf : s'.propFailure=s.propFailure)
    (ha : s'.propStart=s.propStart) (ho : s'.propStop=s.propStop) (k : Nat) :
    s'.flag k=s.flag k := by
  unfold Svc.flag
  split
  · exact hr
  · exact hl
  · exact hf
  · exact ha
  · exact ho
  · rfl

theorem Svc.Plain.flag {s s' : Svc} (h : s.Plain s') (k : Nat) : s'.flag k=s.flag k :=
  flag_congr h.propRequire h.propRelease h.propFailure h.propStart h.propStop k

theorem Svc.Kept.flag {s s' : Svc} (h : s.Kept s') (k : Nat) : s'.flag k=s.flag k :=
  flag_congr h.propRequire h.propRelease h.propFailure h.propStart h.propStop k

/-- A record update that leaves the flags alone. -/
theorem flag_congr {s s' : Svc} (h0 : s'.propRequire=s.propRequire) (h1 : s'.propRelease=s.propRelease)
    (h2 : s'.propFailure=s.propFailure) (h3 : s'.propStart=s.propStart)
    (h4 : s'.propStop=s.propStop) (k : Nat) : s'.flag k=s.flag k := by
  unfold Svc.flag
  split <;> first | assumption | rfl

theorem raises_release (w : World) (i : Nat) : Raises w (w.onCore fun c => c.release i) := by
  refine .setProp w i _ _ fun hq k hk => ?_
  simp only [decide_eq_false_iff_not,not_and,not_not] at hq
  unfold Svc.released at hk
  split_ifs at hk with h0 hp
  · exact hk
  · have hr := hq h0 hp
    unfold Svc.flag at hk ⊢
    split at hk <;> simp_all
  · exact hk

theorem raises_require (w : World) (i : Nat) : Raises w (w.onCore fun c => c.require i) := by
  refine .setProp w i _ _ fun hq k hk => ?_
  have hstart : (w.core.svc i).required.propStart=(w.core.svc i).propStart := by
    simp only [decide_eq_false_iff_not,not_and,not_not] at hq
    by_cases h0 : (w.core.svc i).requiredBy=0
    · by_cases h1 : (w.core.svc i).serviceState=.starting
      · simp [Svc.required,h1]
      · simp [Svc.required,hq h0 h1]
    · simp [Svc.required,h0]
  have he : (w.core.svc i).required.flag k=(w.core.svc i).flag k := by
    refine flag_congr ?_ ?_ ?_ hstart ?_ k <;> rfl
  rwa [he] at hk

theorem raises_want (w : World) (i n : Nat) : Raises w (w.onCore fun c => c.want i n) := by
  refine .setProp w i _ _ fun hq k hk => ?_
  simp only [Bool.not_eq_false'] at hq
  unfold Svc.flag at hk ⊢
  split at hk <;> simp_all

theorem raises_acquire (w : World) (l : Nat) : Raises w (w.onCore fun c => c.acquire l) :=
  (raises_require w (w.core.link l).to_).trans
    (.queues (w.onCore fun c => c.require (w.core.link l).to_)
      (fun c => c.setLink l fun d => { d with holdingAcq := true }) rfl rfl)

theorem raises_activate (w : World) (i : Nat) :
    Raises w ((w.push (.doStart i)).onCore fun c => c.activate i) := by
  have hpush : Raises w (w.push (.doStart i)) := .of_flags rfl rfl fun _ _ => id
  have hsoft : Raises (w.push (.doStart i)) ((w.push (.doStart i)).onCore fun c =>
      { c.setLinks (c.softDependents i) fun d => { d with holdingAcq := true } with
        activeServices := c.activeServices+1 }) := .queues _ _ rfl rfl
  exact (hpush.trans hsoft).trans (raises_want _ i (w.core.softDependents i).length)

theorem loose_raises : Loose Raises where
  refl := .refl
  trans := .trans
  push w k := .of_flags rfl rfl fun _ _ => id
  plain w i f h := .setSvc w i f fun k hk => by rwa [h.flag] at hk
  queue w i := .queues w _ rfl rfl
  active w n := .queues w _ rfl rfl
  waiting w ls b := .queues w _ rfl rfl
  unhold w l := .queues w _ rfl rfl
  acquire w l _ := raises_acquire w l
  attach w i _ _ := raises_activate w i
  release := raises_release
  failure w i := .setProp w i _ true fun h => by cases h
  unqueue w i := .trans (.setSvc w i (fun s => { s with waitingForConsole := false }) fun _ => id)
    (.queues _ (fun c => { c with consoleQueue := (w.core.unqueueConsole i).consoleQueue }) rfl rfl)
  cancelled w i b h := h.trans (.setSvc _ i
    (fun s => { s with startFailed := true, pinnedStarted := false }) fun _ => id)

theorem raises_forcedStop (w : World) (i : Nat) : Raises w (w.onCore fun c => c.forcedStop i) := by
  refine .setProp w i _ _ fun hq k hk => ?_
  simp only [decide_eq_false_iff_not,not_and,not_not] at hq
  have he : (w.core.svc i).forced.flag k=(w.core.svc i).flag k := by
    unfold Svc.forced
    split_ifs with hs
    · rfl
    · refine flag_congr ?_ ?_ ?_ ?_ ?_ k <;> simp [hq hs]
  rwa [he] at hk

theorem raises_unrecoverableStop (w : World) (i : Nat) :
    Raises w (w.onCore fun c => c.unrecoverableStop i) :=
  .trans (.setSvc w i (fun s => { s with desiredState := .stopped }) fun _ => id)
    (raises_forcedStop _ i)

theorem raises_forceDependent (w : World) (i j : Nat) :
    Raises w (w.onCore fun c => c.forceDependent i j) := by
  have heq : w.onCore (fun c => c.forceDependent i j) =
      if (w.core.svc i).forceStop then
        if (w.core.svc i).desiredState = .stopped then
          (w.onCore fun c => c.setSvc j fun s => { s with stopReason := .depfailed }).onCore
            fun c => c.unrecoverableStop j
        else w.onCore fun c => c.forcedStop j
      else w := by
    simp only [World.onCore,Core.forceDependent]
    split_ifs <;> rfl
  rw [heq]
  split_ifs
  · exact .trans (.setSvc w j (fun s => { s with stopReason := .depfailed }) fun _ => id)
      (raises_unrecoverableStop _ j)
  · exact raises_forcedStop w j
  · exact .refl w

theorem raises_interrupted (w : World) (i : Nat) :
    Raises w (w.onCore fun c => c.setSvc i Svc.interrupted) := by
  refine .setSvc w i _ fun k hk => ?_
  unfold Svc.interrupted at hk
  split_ifs at hk <;> exact hk

theorem raises_kept (w : World) (i : Nat) {f : Svc → Svc} {s : Svc}
    (h : s.Kept (f (w.core.svc i))) (hs : ∀ k, s.flag k=(w.core.svc i).flag k) :
    Raises w (w.onCore fun c => c.setSvc i f) :=
  .setSvc w i f fun k hk => by rwa [h.flag,hs] at hk

theorem StopStep.raises {w w' : World} (h : StopStep w w') : Raises w w' := by
  cases h with
  | misc i f h => exact raises_kept w i h fun _ => rfl
  | sys rs => exact .of_flags rfl rfl fun _ _ => id
  | doStop i r => exact loose_raises.push w _
  | stopDependent i l h => exact loose_raises.push w _
  | giveUp i => exact .setSvc w i _ fun _ => id
  | dropExplicit i h => exact loose_raises.dropExplicit w i
  | forceDependent i j => exact raises_forceDependent w i j
  | giveUpExplicit j h =>
    exact .trans (.setSvc w j (fun s => { s with desiredState := .stopped }) fun _ => id)
      (loose_raises.dropExplicit _ j)
  | propagateStop j f h => exact .setProp w j _ true fun h => by cases h
  | breakSoft i l h => exact loose_raises.breakSoft w i l
  | interruptStart i => exact loose_raises.push w _
  | killPg i signo h => exact loose_raises.push w _
  | getpgid i g signo h => exact loose_raises.push w _
  | kill i target signo h => exact loose_raises.push w _
  | beginStop i r all h told => exact loose_raises.beginStop w i all
  | cancelWait i all h hw => exact loose_raises.cancelWait w i all
  | resetTimer i timeout c hc hi hp hr => exact .setSvc w i _ fun _ => id
  | interrupt i h hd hc hp ht => exact (raises_interrupted w i).trans (loose_raises.push _ _)
  | cancelled i all h hd hc hp =>
    exact ((raises_interrupted w i).trans (loose_raises.push _ (.startCancelled i))).trans
      (loose_raises.beginStop _ i all)

theorem raises_addDepAt (w : World) (f t : Nat) (depType : DependencyType) (place : Nat) :
    Raises w (w.onCore fun c => c.addDepAt f t depType place) := by
  have hlink : Raises w (w.onCore fun c =>
      c.linkAt f t depType place (w.core.svc t).dependents.length) := by
    refine .of_flags rfl rfl fun j k hk => ?_
    simp only [onCore_core,Core.linkAt,Core.setSvc_svc,Core.setLink_svc] at hk
    split_ifs at hk <;> simp_all [Svc.flag]
  have hacquire := hlink.trans (raises_acquire _ w.core.nextLink)
  simp only [World.onCore,Core.addDepAt] at hlink hacquire ⊢
  split
  · exact hacquire
  · exact hlink

theorem raises_rmDep (w : World) (l : Nat) : Raises w (w.onCore fun c => c.rmDep l) := by
  have hlink : Raises w (w.onCore fun c => c.unlink l) := by
    refine .of_flags rfl rfl fun j k hk => ?_
    simp only [onCore_core,Core.unlink,Core.setSvc_svc] at hk
    split_ifs at hk <;> simp_all [Svc.flag]
  have hrelease := hlink.trans (raises_release _ (w.core.link l).to_)
  simp only [World.onCore,Core.rmDep] at hlink hrelease ⊢
  split
  · exact hrelease
  · exact hlink

theorem raises_queuePinDpt (w : World) (i : Nat) (pinned : Bool) :
    Raises w (w.queuePinDpt i pinned) :=
  loose_raises.foldl _ (fun w _ => loose_raises.when fun _ =>
    .setProp w _ _ true fun h => by cases h) w

theorem raises_recomputePin (w : World) (i : Nat) : Raises w (w.recomputePin i) :=
  loose_raises.when fun _ => .trans (.setSvc w i (fun s =>
    { s with deptPinnedStarted := w.core.deptPin i }) fun _ => id) (raises_queuePinDpt _ i _)

theorem raises_pinStart (w : World) (i : Nat) : Raises w (w.pinStart i) := by
  unfold World.pinStart
  dsimp only
  split_ifs
  · exact .refl w
  · exact .setSvc w i _ fun _ => id
  · exact (raises_queuePinDpt w i true).trans (.setSvc _ i _ fun _ => id)

theorem raises_unpinStart (w : World) (i : Nat) : Raises w (w.unpinStart i) := by
  unfold World.unpinStart
  dsimp only
  split_ifs
  · exact .setSvc w i _ fun _ => id
  · exact .trans (.setSvc w i (fun s => { s with pinnedStarted := false }) fun _ => id)
      (raises_queuePinDpt _ i false)

/-- The steps of `do_propagation` of the service it is under way for: it takes the next
service off the queue, passes or clears a flag, or is done. -/
inductive PropagationStep (w : World) : World → Prop
  | pop (i : Nat) (h : w.core.propQueue.first=some i) : PropagationStep w (w.popPropagation i)
  | next (i k : Nat) (u : World) (hx : w.ctx.head?=some (i,k)) (hk : k<5) (hu : Raises w u)
      (hf : (u.core.svc i).flag k=false) : PropagationStep w u.nextFlag
  | skipPin (i : Nat) (hx : w.ctx.head?=some (i,5)) (hp : (w.core.svc i).propPinDpt=false) :
      PropagationStep w w.nextFlag
  | recomputePin (i : Nat) (hx : w.ctx.head?=some (i,5)) :
      PropagationStep w (w.recomputePin i).nextFlag
  | leave (i : Nat) (h : w.ctx.head?=some (i,6)) : PropagationStep w w.leavePropagation
  | failed (i : Nat) (u w' : World) (hx : w.ctx.head?=some (i,2)) (hu : Raises w u)
      (hf : (u.core.svc i).flag 2=false) (hw : Raises u.nextFlag w') : PropagationStep w w'

theorem Step.raises {w w' : World} (h : Step w w') : Raises w w' ∨ PropagationStep w w' := by
  have hset (i : Nat) (f : Svc → Svc) (hf : ∀ k, (f (w.core.svc i)).flag k=(w.core.svc i).flag k) :
      Raises w (w.onCore fun c => c.setSvc i f) := .setSvc w i f fun k hk => by rwa [hf] at hk
  have hlow (i : Nat) (f : Svc → Svc)
      (hf : ∀ k, (f (w.core.svc i)).flag k=true → (w.core.svc i).flag k=true) :
      Raises w (w.onCore fun c => c.setSvc i f) := .setSvc w i f hf
  cases h with
  | stop h => exact .inl h.raises
  | call k h => exact .inl (loose_raises.push w k)
  | releaseConsole i => exact .inl (hset i _ fun _ => rfl)
  | consoleLog release busy => exact .inl (.queues w _ rfl rfl)
  | popConsole i rest h =>
    exact .inl (.trans (.queues w (fun c => { c with consoleQueue := rest }) rfl rfl)
      (loose_raises.push _ _))
  | acquired i h => exact .inl (hset i _ fun _ => rfl)
  | queueForConsole i h hc =>
    exact .inl (.trans (hset i (fun s => { s with waitingForConsole := true }) fun _ => rfl)
      (.queues _ (fun c => { c with consoleQueue := w.core.consoleQueue++[i] }) rfl rfl))
  | popPropagation i h => exact .inr (.pop i h)
  | popTransition i hp h =>
    exact .inl (.trans (.queues w (fun c => { c with stopQueue := c.stopQueue.popFront i }) rfl rfl)
      (loose_raises.push _ _))
  | skipFlag i k h hk hf => exact .inr (.next i k w h hk (.refl w) hf)
  | skipPin i h hp => exact .inr (.skipPin i h hp)
  | recomputePin i h => exact .inr (.recomputePin i h)
  | clearRelease i h =>
    refine .inr (.next i 1 _ h (by decide) (hlow i (fun s => { s with propRelease := false }) ?_)
      (by simp [Svc.flag]))
    intro k hk
    unfold Svc.flag at hk ⊢
    split at hk <;> simp_all
  | clearStart i h =>
    refine .inr (.next i 3 _ h (by decide) (hlow i (fun s => { s with propStart := false }) ?_)
      (by simp [Svc.flag]))
    intro k hk
    unfold Svc.flag at hk ⊢
    split at hk <;> simp_all
  | clearStop i h =>
    refine .inr (.next i 4 _ h (by decide) (hlow i (fun s => { s with propStop := false }) ?_)
      (by simp [Svc.flag]))
    intro k hk
    unfold Svc.flag at hk ⊢
    split at hk <;> simp_all
  | leavePropagation i h => exact .inr (.leave i h)
  | requireDependencies i h hc hp =>
    refine .inr (.next i 0 _ h (by decide) ((loose_raises.requireDependencies w i).trans
      (.setSvc _ i (fun s => { s with propRequire := false }) ?_)) (by simp [Svc.flag]))
    intro k hk
    unfold Svc.flag at hk ⊢
    split at hk <;> simp_all
  | dropLink i l hl hh hp ht => exact .inl (loose_raises.dropLink w l _)
  | failure i h hp =>
    refine .inr (.failed i _ _ h (hlow i (fun s =>
      { s with propFailure := false, stopReason := .depfailed, serviceState := .stopped }) ?_)
      (by simp [Svc.flag]) (loose_raises.cancelStart _ i true))
    intro k hk
    unfold Svc.flag at hk ⊢
    split at hk <;> simp_all
  | startExplicit i h hp => exact .inl (hset i _ fun _ => rfl)
  | doStart i => exact .inl (loose_raises.doStart w i)
  | depsStarted i h hn => exact .inl (hset i _ fun _ => rfl)
  | depsStopped i h hs hc => exact .inl (hset i _ fun _ => rfl)
  | initiateStart i hs hd hp => exact .inl (loose_raises.initiateStart w i)
  | becomeStarted i => exact .inl (loose_raises.becomeStarted w i)
  | becomeStopped i => exact .inl (loose_raises.becomeStopped w i)
  | cancelStart i immediate f h =>
    exact .inl ((raises_kept w i h fun _ => rfl).trans (loose_raises.cancelStart _ i immediate))
  | cancelStopping i immediate f h hs hn =>
    exact .inl ((raises_kept w i h fun _ => rfl).trans (loose_raises.cancelStart _ i immediate))
  | cancelTimeout i f h hp hs hn =>
    refine .inl (((raises_interrupted w i).trans (raises_kept _ i (s := (w.core.svc i).interrupted)
      (by simpa using h) ?_)).trans (loose_raises.cancelStart _ i false))
    intro k
    simp
  | setForceStop i f h => exact .inl (raises_kept w i h fun _ => rfl)
  | forcedStop i => exact .inl (raises_forcedStop w i)
  | unrecoverableStop i => exact .inl (raises_unrecoverableStop w i)
  | fork i n f c hc hk h => exact .inl (raises_kept w i h fun _ => rfl)
  | forkStop i n hp he hs => exact .inl (hset i _ fun _ => rfl)
  | restartTimer i h => exact .inl (hset i _ fun _ => rfl)
  | noRestartTimer i h => exact .inl (hset i _ fun _ => rfl)
  | stopRestartTimer i h => exact .inl (hset i _ fun _ => rfl)
  | stopTimer i f h => exact .inl (raises_kept w i h fun _ => rfl)
  | armTimer i timeout hp => exact .inl (hset i _ fun _ => rfl)
  | startTimer i timeout hp => exact .inl (hset i _ fun _ => rfl)
  | stopIssued i b => exact .inl (hset i _ fun _ => rfl)
  | readPid i f hx hb h hk ht => exact .inl (hset i _ fun _ => rfl)
  | trackingChild i => exact .inl (hset i _ fun _ => rfl)

theorem EventStep.raises {w w' : World} (h : EventStep w w') :
    Raises w w' ∨ PropagationStep w w' := by
  have hset (i : Nat) (f : Svc → Svc) (hf : ∀ k, (f (w.core.svc i)).flag k=(w.core.svc i).flag k) :
      Raises w (w.onCore fun c => c.setSvc i f) := .setSvc w i f fun k hk => by rwa [hf] at hk
  cases h with
  | step h => exact h.raises
  | call k h => exact .inl (loose_raises.push w k)
  | now t => exact .inl (.queues w _ rfl rfl)
  | noRestart => exact .inl (.queues w _ rfl rfl)
  | stopExplicit i h => exact .inl (hset i _ fun _ => rfl)
  | stopRelease i hr hd hp =>
    refine .inl (.setProp w i _ _ fun hq k hk => ?_)
    unfold Svc.flag at hk ⊢
    split at hk <;> simp_all
  | pinStart i => exact .inl (raises_pinStart w i)
  | unpinStart i c hc => exact .inl (raises_unpinStart w i)
  | pinStopped i b => exact .inl (hset i _ fun _ => rfl)
  | unpinRelease i c hc hp hq hs hr hd => exact .inl (.setProp w i _ true fun h => by cases h)
  | acquire l j hl h hc => exact .inl (raises_acquire w l)
  | addDep f t depType h hm => exact .inl (raises_addDepAt w f t depType _)
  | rmDep f l hl h => exact .inl (raises_rmDep w l)
  | expire i h =>
    exact .inl (((hset i _ fun _ => rfl).trans (loose_raises.push _ _)).trans
      (.setSvc _ i Svc.timedOut fun _ => id))
  | seen i failed h hp => exact .inl (hset i _ fun _ => rfl)
  | forget i c h => exact .inl (hset i _ fun _ => rfl)
  | stopSeen i failed h hp => exact .inl (hset i _ fun _ => rfl)
  | stopForget i c h => exact .inl (hset i _ fun _ => rfl)
  | reaped i status h => exact .inl (hset i _ fun _ => rfl)
  | stopReaped i status h => exact .inl (hset i _ fun _ => rfl)

namespace World

variable {w w' : World}

/-- Every service with a propagation flag is queued, or its `do_propagation` is under way
and has not come to the flag yet. -/
def FlagsQueued (w : World) : Prop :=
  ∃ xs, w.core.propQueue.Pops xs ∧ ∀ i k, (w.core.svc i).flag k=true →
    i ∈ xs ∨ ∃ n, (i,n) ∈ w.ctx ∧ n ≤ k

theorem FlagsQueued.raises (h : w.FlagsQueued) (hr : Raises w w') : w'.FlagsQueued := by
  obtain ⟨xs,hx,hf⟩ := h
  obtain ⟨ys,hy,hxy,hf'⟩ := hr.queue xs hx
  refine ⟨ys,hy,fun i k hk => ?_⟩
  rw [hr.ctx]
  rcases hf' i k hk with hk | hi
  · exact (hf i k hk).imp (hxy i) id
  · exact .inl hi

/-- The flag at hand is not set. -/
theorem FlagsQueued.next {i k : Nat} (h : w.FlagsQueued) (hx : w.ctx.head?=some (i,k))
    (hf : (w.core.svc i).flag k=false) : w.nextFlag.FlagsQueued := by
  obtain ⟨xs,hp,hq⟩ := h
  refine ⟨xs,hp,fun j m hm => ?_⟩
  rcases hq j m hm with hj | ⟨n,hn,hnm⟩
  · exact .inl hj
  right
  unfold nextFlag
  rcases hctx : w.ctx with _ | ⟨e,rest⟩
  · rw [hctx] at hx
    cases hx
  · rw [hctx] at hx hn
    obtain rfl : e=(i,k) := Option.some.inj hx
    dsimp only
    rcases List.mem_cons.mp hn with he | hn
    · obtain ⟨rfl,rfl⟩ : j=i ∧ n=k := by simpa using he
      have hne : n≠m := by
        rintro rfl
        rw [nextFlag_core,hf] at hm
        cases hm
      exact ⟨n+1,List.mem_cons_self,by omega⟩
    · exact ⟨n,List.mem_cons_of_mem _ hn,hnm⟩

theorem FlagsQueued.pop {i : Nat} (h : w.FlagsQueued) (hi : w.core.propQueue.first=some i) :
    (w.popPropagation i).FlagsQueued := by
  obtain ⟨xs,hp,hq⟩ := h
  cases xs with
  | nil =>
    rw [hp.1] at hi
    cases hi
  | cons x xs =>
    obtain rfl : x=i := by simpa [hi] using hp.1.symm
    refine ⟨xs,hp.2,fun j k hk => ?_⟩
    rcases hq j k hk with hj | ⟨n,hn,hnk⟩
    · rcases List.mem_cons.mp hj with rfl | hj
      · exact .inr ⟨0,List.mem_cons_self,Nat.zero_le k⟩
      · exact .inl hj
    · exact .inr ⟨n,List.mem_cons_of_mem _ hn,hnk⟩

theorem FlagsQueued.leave {i : Nat} (h : w.FlagsQueued) (hx : w.ctx.head?=some (i,6)) :
    w.leavePropagation.FlagsQueued := by
  obtain ⟨xs,hp,hq⟩ := h
  refine ⟨xs,hp,fun j k hk => ?_⟩
  rcases hq j k hk with hj | ⟨n,hn,hnk⟩
  · exact .inl hj
  right
  unfold leavePropagation
  rcases hctx : w.ctx with _ | ⟨e,rest⟩
  · rw [hctx] at hx
    cases hx
  · rw [hctx] at hx hn
    obtain rfl : e=(i,6) := Option.some.inj hx
    rcases List.mem_cons.mp hn with he | hn
    · -- there are no flags after the fifth
      obtain ⟨rfl,rfl⟩ : j=i ∧ n=6 := by simpa using he
      have hk6 : (w.core.svc j).flag k=false := by
        unfold Svc.flag
        split <;> first | omega | rfl
      have hk' : (w.core.svc j).flag k=true := hk
      rw [hk6] at hk'
      cases hk'
    · exact ⟨n,hn,hnk⟩

end World

theorem PropagationStep.flagsQueued {w w' : World} (h : PropagationStep w w')
    (hw : w.FlagsQueued) : w'.FlagsQueued := by
  cases h with
  | pop i h => exact hw.pop h
  | next i k u hx hk hu hf => exact (hw.raises hu).next (by rw [hu.ctx]; exact hx) hf
  | skipPin i hx hp => exact hw.next hx rfl
  | recomputePin i hx =>
    have hu := raises_recomputePin w i
    exact (hw.raises hu).next (by rw [hu.ctx]; exact hx) rfl
  | leave i h => exact hw.leave h
  | failed i u w' hx hu hf hr =>
    exact ((hw.raises hu).next (by rw [hu.ctx]; exact hx) hf).raises hr

theorem EventStep.flagsQueued {w w' : World} (h : EventStep w w') (hw : w.FlagsQueued) :
    w'.FlagsQueued := by
  rcases h.raises with hr | hp
  · exact hw.raises hr
  · exact hp.flagsQueued hw

theorem Core.Fresh.flagsQueued {c : Core} (h : c.Fresh) : (World.load c).FlagsQueued := by
  refine ⟨[],?_,fun i k hk => ?_⟩
  · show c.propQueue.Pops []
    rw [h.propQueue]
    exact Slist.pops_empty
  · have hk' : (c.svc i).flag k=true := hk
    rw [h.svc i] at hk'
    unfold Svc.flag at hk'
    split at hk' <;> cases hk'

theorem flagsQueued_of_steps {w w' : World} (h : ReflTransGen EventStep w w')
    (hw : w.FlagsQueued) : w'.FlagsQueued :=
  invariant_of_steps (fun _ _ hi hs => hs.flagsQueued hi) h hw

end Dinit
