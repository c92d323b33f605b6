import Dinit.Framework.Since
import Dinit.Run.Steady

namespace Dinit

open Framework Framework.Comp World Relation

/-- `s` runs without keeping its REGULAR dependency by the link `l`. -/
structure Core.Adrift (c : Core) (s l : Nat) : Prop where
  dependsOn : l ∈ (c.svc s).dependsOn
  regular : (c.link l).depType=.regular
  runs : (c.svc s).isFundamentallyStopped=false
  unkept : c.keeps l=false

def running (s : Nat) (e : Call × Core) : Bool := !(e.2.svc s).isFundamentallyStopped

/-- `s` lets go of the link `l`: while it runs, `release_dependencies` comes to the link, or the
target fails to start, or the dependency is added; or it does not run yet, and does not keep
the target when it begins to. -/
def letsGo (s l : Nat) (e : Call × Core) : Bool :=
  if running s e then
    match e.1 with
    | .releaseDependency k => k==l && (e.2.link l).holdingAcq
    | .failedToStart t _ => t==(e.2.link l).to_ && (e.2.link l).holdingAcq
    | .addDep f _ _ => f==s && l==e.2.nextLink
    | _ => false
  else !e.2.keeps l

/-- In the calls made so far `s` has let go of the link `l`, and it has run ever since. -/
def letGo (s l : Nat) (past : List (Call × Core)) : Bool := since (running s) (letsGo s l) past

namespace World

/-- If `s` runs adrift of the link `l` then it did before, or it has let go of it. -/
abbrev Explained (s l : Nat) : World → World → Prop :=
  Explains World.trace (running s) (letsGo s l) fun w => w.core.Adrift s l

variable {s i k l : Nat} {ls : List Nat} {w w' : World}

theorem Steady.explained (h : Steady s ls w w') (hg : w.core.SameGraph w'.core)
    (hl : l ∈ ls → w.core.keeps l=false) : Explained s l w w' := by
  intro ha
  obtain ⟨new,hn,hs⟩ := h.calls
  have hr : (w.core.svc s).isFundamentallyStopped=false := h.stopped ▸ ha.runs
  have ht : (w.core.link l).depType=.regular := (h.depType l) ▸ ha.regular
  refine .inl ⟨⟨hg.dependsOn s ▸ ha.dependsOn,ht,hr,?_⟩,new,hn,fun e he => ?_⟩
  · by_contra hk
    have hk' := h.kept l (fun hm => hk (hl hm)) ht (by simpa using hk)
    rw [ha.unkept] at hk'
    cases hk'
  · rw [running,hs e he,hr]
    rfl

theorem Steady.explained_nil (h : Steady s [] w w') (hg : w.core.SameGraph w'.core) :
    Explained s l w w' := h.explained hg fun hl => by cases hl

/-- Each link has one source. -/
theorem not_dependsOn (hL : w.core.Linked) (h : s≠i) (hl : l ∈ (w.core.svc s).dependsOn) :
    l ∉ (w.core.svc i).dependsOn :=
  fun hi => h ((hL.dependsOn s l hl).1.symm.trans (hL.dependsOn i l hi).1)

theorem Steady.explained_source (h : Steady s (w.core.svc i).dependsOn w w')
    (hg : w.core.SameGraph w'.core) (hL : w.core.Linked) (hs : s≠i) : Explained s l w w' := by
  intro ha
  refine h.explained hg (fun hi => absurd hi (not_dependsOn hL hs ?_)) ha
  rw [← hg.dependsOn]
  exact ha.dependsOn

/-- The service that begins to run is seen in the last call made: it keeps its dependencies, or
lets go of them there. -/
theorem explained_setSvc (hn : w.Noted i) {f : Svc → Svc}
    (hd : (f (w.core.svc i)).dependsOn=(w.core.svc i).dependsOn) :
    Explained s l w (w.onCore fun c => c.setSvc i f) := by
  intro ha
  have hdep : l ∈ (w.core.svc s).dependsOn := by
    have := ha.dependsOn
    by_cases hs : s=i
    · subst hs
      rw [← hd]
      simpa using this
    · simpa [hs] using this
  by_cases hr : (w.core.svc s).isFundamentallyStopped=false
  · exact .inl ⟨⟨hdep,ha.regular,hr,ha.unkept⟩,[],rfl,by simp⟩
  · have hs : s=i := by
      by_contra hs
      exact hr (by simpa [hs] using ha.runs)
    subst hs
    obtain ⟨k,c,ht,hc,hl⟩ := hn (by simpa using hr)
    obtain ⟨rest,hrest⟩ := List.head?_eq_some_iff.mp ht
    right
    rw [onCore_trace,hrest]
    apply since_head
    have hk : c.keeps l=false := by
      have hu : w.core.keeps l=false := ha.unkept
      rwa [Core.keeps,← hl] at hu
    simp [letsGo,running,hc,hk]

/-- When `i` fails to start, it is its dependents that let go of it. -/
theorem explained_cancelStart (hL : w.core.Linked) (b : Bool) :
    Explained s l w (w.cancelStart i b) := by
  have hsteady := Steady.cancelStart (s := s) w i b
  have hg := (frame_cancelStart w i b).core.graph
  by_cases hl : l ∈ (w.core.svc i).dependents ∧ w.core.keeps l=true
  · intro ha
    obtain ⟨new,hn,hs⟩ := hsteady.calls
    have hr : (w.core.svc s).isFundamentallyStopped=false := hsteady.stopped.symm.trans ha.runs
    right
    rw [hn]
    refine since_append (fun e he => ?_) (since_head ?_)
    · rw [running,hs e he,push_core,hr]
      rfl
    · have hto := (hL.dependents i l hl.1).1
      have hk := hl.2
      simp only [Core.keeps,Bool.and_eq_true] at hk
      simp [letsGo,running,hr,hto,hk.1]
  · refine ((Steady.push w (.failedToStart i b)).trans hsteady).explained hg fun hm => ?_
    by_contra hk
    exact hl ⟨hm,by simpa using hk⟩

/-- `i` is fundamentally stopped after `initiate_start`. -/
theorem initiateStart_stopped (w : World) (i : Nat) :
    ((w.initiateStart i).core.svc i).isFundamentallyStopped=true := by
  unfold initiateStart
  dsimp only
  split <;> simp [Core.startCheckDependencies,Svc.isFundamentallyStopped]

theorem becomeStopped_stopped (w : World) (i : Nat) :
    ((w.becomeStopped i).core.svc i).isFundamentallyStopped=true := by
  unfold becomeStopped
  dsimp only
  split
  · exact initiateStart_stopped _ i
  · simp only [onCore_core,Core.becomeInactive]
    split_ifs <;> simp [(Svc.released_same _).serviceState,Svc.isFundamentallyStopped]

/-- A service that is stopped is not adrift. -/
theorem explained_stopped (h : (w'.core.svc s).isFundamentallyStopped=true) : Explained s l w w' := by
  refine .of_not fun ha => ?_
  rw [ha.runs] at h
  cases h

theorem explained_initiateStart (hL : w.core.Linked) : Explained s l w (w.initiateStart i) := by
  by_cases hs : s=i
  · subst hs
    exact explained_stopped (initiateStart_stopped w s)
  · exact (Steady.initiateStart w hs rfl).explained_source (frame_initiateStart w i).core.graph hL hs

theorem explained_becomeStopped (hL : w.core.Linked) : Explained s l w (w.becomeStopped i) := by
  by_cases hs : s=i
  · subst hs
    exact explained_stopped (becomeStopped_stopped w s)
  · exact (Steady.becomeStopped w hs).explained_source (frame_becomeStopped w i).core.graph hL hs

theorem explained_onCore {f : Core → Core} (h : Steady s [] w (w.onCore f))
    (hg : w.core.SameGraph (f w.core)) : Explained s l w (w.onCore f) := h.explained_nil hg

theorem explained_repinned (h : Repinned w w') : Explained s l w w' :=
  (Steady.repinned h).explained_nil h.frame.core.graph

theorem explained_push (w : World) (k : Call) : Explained s l w (w.push k) :=
  (Steady.push w k).explained_nil (.refl _)

theorem explained_becomeStarted (w : World) (i : Nat) : Explained s l w (w.becomeStarted i) := by
  have hset : Explained s l w ((w.push (.logServiceStarted i)).onCore fun c =>
      c.setSvc i fun s => { s with serviceState := .started }) :=
    (explained_push w (.logServiceStarted i)).trans (explained_setSvc (noted_push w i _) rfl)
  unfold becomeStarted
  dsimp only
  split
  · exact hset
  · refine hset.trans ((Steady.notifyDependents _ _).explained_nil ?_)
    exact (frame_foldl _ (fun w l => frame_notifyStarted w l) _).core.graph

theorem explained_beginStop (hn : w.Noted i) (all : Bool) : Explained s l w (w.beginStop i all) := by
  refine (explained_setSvc (s := s) hn rfl).trans ((Steady.when fun _ =>
    Steady.addTransitionQueue _ i).explained_nil ?_)
  split
  · exact (frame_addTransitionQueue _ i).core.graph
  · exact .refl _

theorem explained_doStart (hL : w.core.Linked) : Explained s l w (w.doStart i) := by
  have hpush : Explained s l w (w.push (.doStart i)) := explained_push w _
  have hg : w.core.SameGraph (w.core.setSvc i fun s => { s with desiredState := .started }) :=
    Core.graph_setSvc _ i _ ⟨rfl,rfl,rfl⟩
  have hwant : Explained s l w ((w.push (.doStart i)).onCore fun c => c.setSvc i fun s =>
      { s with desiredState := .started }) :=
    hpush.trans (explained_onCore (Steady.setSvc _ fun _ => rfl) hg)
  have hL' : ((w.push (.doStart i)).onCore fun c => c.setSvc i fun s =>
      { s with desiredState := .started }).core.Linked := hL.of_graph hg
  have hactive : Explained s l w ((w.push (.doStart i)).onCore fun c => c.activate i) :=
    hpush.trans (explained_onCore (Steady.activate _ i) (Core.frame_activate _ i).graph)
  unfold doStart
  dsimp only
  split_ifs
  · exact hwant.trans (explained_cancelStart hL' false)
  · exact hwant
  · exact hwant.trans (explained_initiateStart hL')
  · exact hwant
  · exact hactive.trans (explained_initiateStart (hL.of_graph (Core.frame_activate w.core i).graph))

/-- `release_dependencies` drops a link: if its source runs, it lets go. -/
theorem explained_dropLink (hh : (w.core.link k).holdingAcq=true)
    (ht : w.trace.head?=some (.releaseDependency k,w.core)) :
    Explained s l w (w.onCore fun c => c.dropLink k (w.core.link k).to_) := by
  have hsteady : Steady s [k] w (w.onCore fun c => c.dropLink k (w.core.link k).to_) :=
    .dropLink w _ (.inl (by simp))
  by_cases hl : l=k
  · subst hl
    intro ha
    obtain ⟨rest,hrest⟩ := List.head?_eq_some_iff.mp ht
    have hr : (w.core.svc s).isFundamentallyStopped=false := hsteady.stopped.symm.trans ha.runs
    right
    rw [onCore_trace,hrest]
    apply since_head
    simp [letsGo,running,hr,hh]
  · exact hsteady.explained (Core.frame_dropLink _ _ k).graph (by simp [hl])

end World

variable {s l : Nat}

theorem StopStep.explained {w w' : World} (h : StopStep w w') : Explained s l w w' := by
  have hg := h.graphKept.1
  have hsteady (h : Steady s [] w w') : Explained s l w w' := h.explained_nil hg
  -- a start that is cancelled once it is under way
  have hinterrupted (i : Nat) (hs : (w.core.svc i).serviceState=.starting)
      (hd : (w.core.svc i).waitingForDeps=false) :
      Explained s l w ((w.onCore fun c => c.setSvc i Svc.interrupted).push (.startCancelled i)) :=
    (explained_setSvc (noted_running (by simp [Svc.isFundamentallyStopped,hs,hd]))
      (w.core.svc i).interrupted_kept.dependsOn).trans (explained_push _ _)
  cases h with
  | misc i f h => exact hsteady (.setSvc w fun _ => h.stopped)
  | sys rs => exact hsteady (.of_svc rfl rfl rfl)
  | doStop i r => exact explained_push w _
  | stopDependent i l h => exact explained_push w _
  | giveUp i => exact hsteady (.setSvc w fun _ => rfl)
  | dropExplicit i h => exact hsteady (.dropExplicit w i)
  | forceDependent i j => exact hsteady (.forceDependent w i j)
  | giveUpExplicit j h =>
    exact hsteady ((Steady.setSvc w (f := fun s => { s with desiredState := .stopped })
      fun _ => rfl).trans (.dropExplicit _ j))
  | propagateStop j f h =>
    refine hsteady (.setProp w j true ?_)
    rcases h with h | rfl
    · exact h.stopped
    · rfl
  | breakSoft i l h => exact hsteady (.breakSoft w i l)
  | interruptStart i => exact explained_push w _
  | killPg i signo h => exact explained_push w _
  | getpgid i g signo h => exact explained_push w _
  | kill i target signo h => exact explained_push w _
  | beginStop i r all h told =>
    exact explained_beginStop (noted_running (by simp [Svc.isFundamentallyStopped,h])) all
  | cancelWait i all h hw =>
    have hu : Steady s [] w (w.onCore fun c => c.unqueueConsole i) := by
      refine .of_svc ?_ rfl rfl
      by_cases hs : s=i <;> simp [hs,Svc.isFundamentallyStopped]
    exact ((hu.explained_nil (Core.frame_unqueueConsole _ i).graph).trans
      (explained_push _ _)).trans (explained_beginStop (noted_push _ i _) all)
  | resetTimer i timeout c hc hi hp hr => exact hsteady (.setSvc w fun _ => rfl)
  | interrupt i h hd hc hp ht => exact hinterrupted i h hd
  | cancelled i all h hd hc hp =>
    exact (hinterrupted i h hd).trans (explained_beginStop (noted_push _ i _) all)

/-- Every step that sets a service adrift is one in which it lets go. -/
theorem Step.explained {w w' : World} (h : Step w w') (hL : w.core.Linked) :
    Explained s l w w' := by
  have hg := h.graphKept.1
  have hsteady (h : Steady s [] w w') : Explained s l w w' := h.explained_nil hg
  have hset (i : Nat) (f : Svc → Svc)
      (h : (f (w.core.svc i)).isFundamentallyStopped=(w.core.svc i).isFundamentallyStopped) :
      Steady s [] w (w.onCore fun c => c.setSvc i f) := .setSvc w fun _ => h
  have hnext (u : World) : Steady s [] u u.nextFlag := .of_svc rfl rfl rfl
  cases h with
  | stop h => exact h.explained
  | call k h => exact explained_push w _
  | releaseConsole i => exact hsteady (hset i _ rfl)
  | consoleLog release busy => exact hsteady (.of_svc rfl rfl rfl)
  | popConsole i rest h =>
    exact hsteady ⟨rfl,⟨[_],rfl,by simp⟩,fun _ => rfl,fun _ _ _ => id⟩
  | acquired i h => exact hsteady (hset i _ rfl)
  | queueForConsole i h hc =>
    refine hsteady (.of_svc ?_ rfl rfl)
    by_cases hs : s=i <;> simp [hs,Svc.isFundamentallyStopped]
  | popPropagation i h => exact hsteady ⟨rfl,⟨[_],rfl,by simp⟩,fun _ => rfl,fun _ _ _ => id⟩
  | popTransition i hp h =>
    exact hsteady ⟨rfl,⟨[_],rfl,by simp⟩,fun _ => rfl,fun _ _ _ => id⟩
  | skipFlag i k h hk hf => exact hsteady (hnext w)
  | clearRelease i h => exact hsteady ((hset i _ rfl).trans (hnext _))
  | clearStart i h => exact hsteady ((hset i _ rfl).trans (hnext _))
  | clearStop i h => exact hsteady ((hset i _ rfl).trans (hnext _))
  | skipPin i h hp => exact hsteady (hnext w)
  | recomputePin i h => exact hsteady ((Steady.repinned (repinned_recomputePin w i)).trans (hnext _))
  | leavePropagation i h => exact hsteady (.of_svc rfl rfl rfl)
  | requireDependencies i h hc hp =>
    exact hsteady (((Steady.requireDependencies w i).trans (.setSvc _ fun _ => rfl)).trans (hnext _))
  | dropLink i k hk hh hp ht => exact explained_dropLink hh ht
  | failure i h hp =>
    set w1 := (w.onCore fun c => c.setSvc i fun s =>
      { s with propFailure := false, stopReason := .depfailed, serviceState := .stopped }).nextFlag
      with hw1
    have hg1 : w.core.SameGraph w1.core := Core.graph_setSvc w.core i (fun s =>
      { s with propFailure := false, stopReason := .depfailed, serviceState := .stopped })
        ⟨rfl,rfl,rfl⟩
    by_cases hs : s=i
    · subst hs
      refine explained_stopped ((Steady.cancelStart w1 s true).stopped.trans ?_)
      simp [hw1,Svc.isFundamentallyStopped]
    · have h1 : Steady s [] w w1 := (Steady.other w _ hs).trans (hnext _)
      exact (h1.explained_nil hg1).trans (explained_cancelStart (hL.of_graph hg1) true)
  | startExplicit i h hp => exact hsteady (hset i _ rfl)
  | doStart i => exact explained_doStart hL
  | depsStarted i h hn => exact explained_setSvc hn rfl
  | depsStopped i h hs hc =>
    exact explained_setSvc (noted_running (by simp [Svc.isFundamentallyStopped,hs])) rfl
  | initiateStart i hs hd hp => exact explained_initiateStart hL
  | becomeStarted i => exact explained_becomeStarted w i
  | becomeStopped i => exact explained_becomeStopped hL
  | cancelStart i b f h =>
    have hg1 : w.core.SameGraph (w.core.setSvc i f) := Core.graph_setSvc w.core i f h.links
    exact ((hset i f h.stopped).explained_nil hg1).trans
      (explained_cancelStart (hL.of_graph hg1) b)
  | cancelStopping i b f h hs hn =>
    have hg1 : w.core.SameGraph (w.core.setSvc i f) :=
      Core.graph_setSvc w.core i f ⟨h.settings,h.dependsOn,h.dependents⟩
    exact (explained_setSvc hn h.dependsOn).trans (explained_cancelStart (hL.of_graph hg1) b)
  | cancelTimeout i f h hp hs hn =>
    set w1 := w.onCore fun c => c.setSvc i Svc.interrupted with hw1
    have hi := (w.core.svc i).interrupted_kept
    have hg1 : w.core.SameGraph w1.core :=
      Core.graph_setSvc w.core i _ ⟨hi.settings,hi.dependsOn,hi.dependents⟩
    have hk : (w1.core.svc i).Kept (f (w1.core.svc i)) := by simpa [hw1] using h
    have hg2 : w1.core.SameGraph (w1.core.setSvc i f) := Core.graph_setSvc w1.core i f hk.links
    have h2 : Steady s [] w1 (w1.onCore fun c => c.setSvc i f) := .setSvc w1 fun _ => hk.stopped
    exact ((explained_setSvc hn hi.dependsOn).trans (h2.explained_nil hg2)).trans
      (explained_cancelStart (hL.of_graph (hg1.trans hg2)) false)
  | setForceStop i f h => exact hsteady (hset i f h.stopped)
  | forcedStop i => exact hsteady (.setProp w i _ (Svc.forced_same _).stopped)
  | unrecoverableStop i =>
    exact hsteady ((hset i (fun s => { s with desiredState := .stopped }) rfl).trans
      (.setProp _ i _ (Svc.forced_same _).stopped))
  | fork i n f c hc hk h => exact hsteady (hset i f h.stopped)
  | forkStop i n hp he hs => exact hsteady (hset i _ rfl)
  | restartTimer i h => exact hsteady (hset i _ rfl)
  | noRestartTimer i h => exact hsteady (hset i _ rfl)
  | stopRestartTimer i h => exact hsteady (hset i _ rfl)
  | stopTimer i f h => exact hsteady (hset i f h.stopped)
  | armTimer i timeout hp => exact hsteady (hset i _ rfl)
  | startTimer i timeout hp => exact hsteady (hset i _ rfl)
  | stopIssued i b => exact hsteady (hset i _ rfl)
  | readPid i f hx hb h hk ht => exact hsteady (hset i _ rfl)
  | trackingChild i => exact hsteady (hset i _ rfl)

namespace World

variable {s i k l : Nat} {w w' : World}

/-- A new dependency: if its source runs already, it may not be held. -/
theorem explained_addDep (hL : w.core.Linked) {f t : Nat} {depType : DependencyType}
    (h : w.trace.head?=some (.addDep f t depType,w.core)) :
    Explained s l w (w.onCore fun c => c.addDep f t depType) := by
  have hlink : Explained s l w (w.onCore fun c =>
      c.linkAt f t depType (c.svc f).dependsOn.length (c.svc t).dependents.length) := by
    intro ⟨hd,ht,hr,hk⟩
    rw [onCore_core,Core.linkAt_svc] at hr
    change (w.core.svc s).isFundamentallyStopped=false at hr
    rw [onCore_core,Core.linkAt_dependsOn] at hd
    by_cases hl : l=w.core.nextLink
    · have hf : s=f := by
        by_contra hs
        rw [if_neg hs] at hd
        exact absurd (hL.below s l hd) (by omega)
      obtain ⟨rest,hrest⟩ := List.head?_eq_some_iff.mp h
      right
      rw [onCore_trace,hrest]
      apply since_head
      subst hf
      simp [letsGo,running,hr,hl]
    · simp only [onCore_core,Core.keeps,Core.linkAt_link,if_neg hl] at ht hk
      refine .inl ⟨⟨?_,ht,hr,hk⟩,[],rfl,by simp⟩
      split_ifs at hd with hf
      · rw [mem_insertAt] at hd
        rw [hf]
        exact hd.resolve_left hl
      · exact hd
  have hacquire := hlink.trans (explained_onCore (.acquire _ w.core.nextLink)
    (Core.frame_acquire _ _).graph)
  simp only [World.onCore,Core.addDep,Core.addDepAt] at hlink hacquire ⊢
  split
  · exact hacquire
  · exact hlink

theorem explained_rmDep (w : World) (k : Nat) :
    Explained s l w (w.onCore fun c => c.rmDep k) := by
  have hunlink : Explained s l w (w.onCore fun c => c.unlink k) := by
    refine .same (fun ⟨hd,ht,hr,hk⟩ => ⟨?_,ht,?_,hk⟩) rfl
    · rw [onCore_core,Core.unlink_dependsOn] at hd
      split_ifs at hd
      · exact List.mem_of_mem_erase hd
      · exact hd
    · rwa [onCore_core,Core.unlink_svc] at hr
  have hrelease := hunlink.trans (explained_onCore (.release _ (w.core.link k).to_)
    (Core.frame_release _ _).graph)
  simp only [World.onCore,Core.rmDep] at hunlink hrelease ⊢
  split
  · exact hrelease
  · exact hunlink

end World

theorem EventStep.explained {w w' : World} (h : EventStep w w') (hL : w.core.Linked) :
    Explained s l w w' := by
  have hset (i : Nat) (f : Svc → Svc) (hf : (w.core.svc i).SameLinks (f (w.core.svc i)))
      (hs : (f (w.core.svc i)).isFundamentallyStopped=(w.core.svc i).isFundamentallyStopped) :
      Explained s l w (w.onCore fun c => c.setSvc i f) :=
    explained_onCore (.setSvc w fun _ => hs) (Core.graph_setSvc w.core i f hf)
  have hprop (i : Nat) (f : Svc → Svc) (q : Bool) (hf : (w.core.svc i).SameState (f (w.core.svc i))) :
      Explained s l w (w.onCore fun c => c.setProp i f q) :=
    explained_onCore (.setProp w i q hf.stopped) (Core.frame_setProp w.core i f q hf.links hf.procSame).graph
  cases h with
  | step h => exact h.explained hL
  | call k h => exact explained_push w k
  | now t => exact .same (fun ⟨hd,ht,hr,hk⟩ => ⟨hd,ht,hr,hk⟩) rfl
  | noRestart => exact .same (fun ⟨hd,ht,hr,hk⟩ => ⟨hd,ht,hr,hk⟩) rfl
  | stopExplicit i h => exact hset i _ ⟨rfl,rfl,rfl⟩ rfl
  | stopRelease i hr hd hp => exact hprop i _ _ (by constructor <;> rfl)
  | pinStart i => exact explained_repinned (repinned_pinStart w i)
  | unpinStart i c hc => exact explained_repinned (repinned_unpinStart w i)
  | pinStopped i b => exact hset i _ ⟨rfl,rfl,rfl⟩ rfl
  | unpinRelease i c hc hp hq hs hr hd => exact hprop i _ _ (by constructor <;> rfl)
  | acquire k j hl h hc => exact explained_onCore (.acquire w k) (Core.frame_acquire _ k).graph
  | addDep f t depType h hm => exact explained_addDep hL h
  | rmDep f k hl h => exact explained_rmDep w k
  | expire i h =>
    have h1 := (hset i (fun s => { s with proc := { s.proc with timerArmed := false } })
      ⟨rfl,rfl,rfl⟩ rfl).trans (explained_push _ (.timerExpired i))
    exact h1.trans (explained_onCore (.setSvc _ fun _ => rfl) (Core.graph_setSvc _ i _ ⟨rfl,rfl,rfl⟩))
  | seen i failed h hp => exact hset i _ ⟨rfl,rfl,rfl⟩ rfl
  | forget i c h => exact hset i _ ⟨rfl,rfl,rfl⟩ rfl
  | stopSeen i failed h hp => exact hset i _ ⟨rfl,rfl,rfl⟩ rfl
  | stopForget i c h => exact hset i _ ⟨rfl,rfl,rfl⟩ rfl
  | reaped i status h => exact hset i _ ⟨rfl,rfl,rfl⟩ rfl
  | stopReaped i status h => exact hset i _ ⟨rfl,rfl,rfl⟩ rfl

namespace World

/-- Every service that runs without keeping a REGULAR dependency has let go of it. -/
def AdriftLetGo (w : World) : Prop := ∀ s l, w.core.Adrift s l → letGo s l w.trace=true

theorem AdriftLetGo.step {w w' : World} (h : w.AdriftLetGo) (hL : w.core.Linked)
    (hs : EventStep w w') : w'.AdriftLetGo :=
  fun s l => (hs.explained hL).keeps (h s l)

end World

end Dinit
