import Dinit.Run.Needs
import Dinit.Safety.Accounting
import Dinit.Safety.Pins

namespace Dinit

open Framework Framework.Comp World Relation

namespace Core

variable {c c' : Core} {i : Nat}

/-- `i` is not to release its dependencies, and it holds the REGULAR ones unless it is to
require them, or to fail. -/
def Provided (c : Core) (i : Nat) : Prop :=
  (c.svc i).propRelease=false ∧
    ((c.svc i).propRequire=true ∨ (c.svc i).propFailure=true ∨ c.Holds i)

/-- Every service that is wanted is provided for. -/
def WantedProvided (c : Core) : Prop := ∀ i, (c.svc i).desiredState=.started → c.Provided i

/-- What `do_start` has to find: a STOPPED service that has not been released, or one that
was wanted or had its dependencies all along. -/
def MayStart (c : Core) (i : Nat) : Prop :=
  (c.svc i).desiredState=.started ∨ c.Provided i ∨ (c.svc i).serviceState=.stopped ∧
    ((c.svc i).pinnedStopped=true ∨ (c.svc i).propRelease=false ∨ c.Holds i)

instance (c : Core) (i : Nat) : Decidable (c.Provided i) := inferInstanceAs (Decidable (_ ∧ _))

instance (c : Core) (i : Nat) : Decidable (c.MayStart i) := inferInstanceAs (Decidable (_ ∨ _))

theorem Provided.keeps (hp : c.Provided i) (h : c.Sustains c' i) : c'.Provided i := by
  refine ⟨h.svc.unreleased hp.1,?_⟩
  rcases hp.2 with hq | hf | hh
  · exact .inl (h.svc.requiring hq)
  · exact .inr (.inl (h.svc.failing hf))
  · refine .inr (h.links.imp_right fun hl l hm hr => ?_)
    obtain ⟨hm',hr',hh'⟩ := hl l hm hr
    exact hh' (hh l hm' hr')

theorem WantedProvided.keeps (h : c.WantedProvided) (hk : ∀ i, c.KeepsNeeds c' i) :
    c'.WantedProvided :=
  fun i hd => (h i (hk i hd).svc.wanted).keeps (hk i hd)

/-- An activated service is to require its dependencies, unless it has not released them
yet. -/
theorem provided_activate (h : (c.svc i).propRelease=false ∨ c.Holds i) :
    (c.activate i).Provided i := by
  refine ⟨by simp [activate],?_⟩
  by_cases hp : (c.svc i).propRelease=true
  · refine .inr (.inr fun l hm hr => ?_)
    have hh := h.resolve_left (by simp [hp])
    simp only [activate,setProp_svc,if_true,setLinks_svc,setProp_link,setLinks_link] at hm hr ⊢
    split_ifs at hr ⊢
    · rfl
    · exact hh l hm hr
  · simp [activate,hp]

end Core

/-- A start finds a service that may start, a failed start one that may fail; the release that
`unpin` makes up for is that of a service which is not wanted; and a service that is wanted
gets a REGULAR dependency only while it is active, or is to require its dependencies or to
fail. -/
def HoldOk : Call × Core → Prop
  | (.doStart i,c) => c.MayStart i
  | (.failedToStart i _,c) => c.MayFail i
  | (.unpin i,c) => (c.svc i).pinnedStarted=true → (c.svc i).deptPinnedStarted=false →
      (c.svc i).serviceState=.started → (c.svc i).requiredBy=0 → (c.svc i).desiredState≠.started
  | (.addDep f _ depType,c) => depType=.regular → (c.svc f).desiredState=.started →
      (c.svc f).serviceState=.starting ∨ (c.svc f).serviceState=.started ∨
        (c.svc f).propRequire=true ∨ (c.svc f).propFailure=true
  | _ => True

instance : DecidablePred HoldOk
  | (.doStart i,c) => inferInstanceAs (Decidable (c.MayStart i))
  | (.failedToStart i _,c) => inferInstanceAs (Decidable (c.MayFail i))
  | (.unpin i,c) => inferInstanceAs (Decidable ((c.svc i).pinnedStarted=true →
      (c.svc i).deptPinnedStarted=false → (c.svc i).serviceState=.started →
      (c.svc i).requiredBy=0 → (c.svc i).desiredState≠.started))
  | (.addDep f _ depType,c) => inferInstanceAs (Decidable (depType=.regular →
      (c.svc f).desiredState=.started → (c.svc f).serviceState=.starting ∨
        (c.svc f).serviceState=.started ∨ (c.svc f).propRequire=true ∨ (c.svc f).propFailure=true))
  | (.stopped _,_) | (.initiateStart _,_) | (.doPropagation _,_) | (.executeTransition _,_)
  | (.doStop _ _,_) | (.stopDependent _ _,_) | (.allDepsStarted _,_)
  | (.acquiredConsole _,_) | (.bringUp _,_) | (.bringDown _,_) | (.started _,_)
  | (.interruptStart _,_) | (.startPsProcess _,_) | (.killPg _ _,_) | (.getpgid _ _,_)
  | (.kill _ _,_) | (.killAll _,_) | (.handleExitStatus _,_) | (.handleExitAgain _,_)
  | (.timerExpired _,_) | (.execStatus _ _,_) | (.stopExecStatus _ _,_) | (.childTerminated _,_)
  | (.stopChildTerminated _,_) | (.addTransitionQueue _,_) | (.rmDep _,_)
  | (.startDep _,_) | (.releaseDependency _,_) | (.logServiceStarted _,_)
  | (.startCancelled _,_) | (.readyNotify _,_) => .isTrue trivial

namespace Core

variable {c c' : Core} {i j : Nat}

/-- A new dependency is held, or will be required. -/
theorem WantedProvided.addDep (h : c.WantedProvided) (hL : c.Linked) {f t : Nat}
    {depType : DependencyType} (hok : HoldOk (.addDep f t depType,c)) :
    (c.addDep f t depType).WantedProvided := by
  unfold Core.addDep Core.addDepAt
  dsimp only
  generalize (c.svc f).dependsOn.length=place
  generalize (c.svc t).dependents.length=dptPlace
  set c1 := c.linkAt f t depType place dptPlace with hc1
  intro j hd
  by_cases hj : j=f ∧ depType=.regular
  swap
  · have hk : c.KeepsNeeds c1 j := needs_linkAt f t depType place dptPlace hL fun hjf hr => hj ⟨hjf,hr⟩
    split_ifs at hd ⊢
    · have hk' := hk.trans (needs_acquire (l := c.nextLink) j)
      exact (h j (hk' hd).svc.wanted).keeps (hk' hd)
    · exact (h j (hk hd).svc.wanted).keeps (hk hd)
  obtain ⟨rfl,rfl⟩ := hj
  have hsvc := linkAt_svc c j t .regular place dptPlace j
  -- what is held already stays so, and the new link is if the service is active
  have hprov (c2 : Core) (hs : (c1.svc j).Sustained (c2.svc j))
      (hp : c.Provided j) (hheld : ∀ l, (c1.link l).holdingAcq=true → (c2.link l).holdingAcq=true)
      (hty : ∀ l, (c2.link l).depType=(c1.link l).depType)
      (hdep : (c2.svc j).dependsOn=(c1.svc j).dependsOn)
      (hnew : (c2.link c.nextLink).holdingAcq=true ∨ (c.svc j).propRequire=true ∨
        (c.svc j).propFailure=true) : c2.Provided j := by
    refine ⟨hs.unreleased (by rw [hc1,hsvc]; exact hp.1),?_⟩
    have hq (hq : (c.svc j).propRequire=true) : (c2.svc j).propRequire=true :=
      hs.requiring (by rw [hc1,hsvc]; exact hq)
    have hf (hf : (c.svc j).propFailure=true) : (c2.svc j).propFailure=true :=
      hs.failing (by rw [hc1,hsvc]; exact hf)
    rcases hnew with hn | hn | hn
    · rcases hp.2 with hp | hp | hp
      · exact .inl (hq hp)
      · exact .inr (.inl (hf hp))
      · refine .inr (.inr fun l hl hr => ?_)
        rw [hdep] at hl
        rcases linkAt_old j t .regular place dptPlace hL hl with ⟨-,rfl⟩ | ⟨hm,hlink⟩
        · exact hn
        · rw [hty,hc1,hlink] at hr
          exact hheld l (by rw [hc1,hlink]; exact hp l hm hr)
    · exact .inl (hq hn)
    · exact .inr (.inl (hf hn))
  have hsame : (c1.svc j).desiredState=(c.svc j).desiredState := by rw [hc1,hsvc]
  split_ifs at hd ⊢ with hc
  · have hk := needs_acquire (c := c1) (l := c.nextLink) j hd
    refine hprov _ hk.svc (h j (hsame ▸ hk.svc.wanted)) (fun l => ?_) (fun l => ?_) ?_ (.inl ?_)
    · by_cases hl : l=c.nextLink <;> simp [hl]
    · exact (frame_acquire c1 c.nextLink).graph.depType l
    · exact (frame_acquire c1 c.nextLink).graph.dependsOn j
    · simp
  · have hw := hsame ▸ hd
    refine hprov c1 (.refl hd) (h j hw) (fun _ => id) (fun _ => rfl) rfl (.inr ?_)
    rcases hok rfl hw with hs | hs | hs
    · simp [hs] at hc
    · simp [hs] at hc
    · exact hs

end Core

namespace World

variable {w w' : World} {i : Nat}

/-- `i` fails to start; nothing else has changed before. -/
theorem provided_cancelStart (hp : w.core.WantedProvided) {u : World}
    (hu : ∀ j, j≠i → w.core.KeepsNeeds u.core j) (hL : u.core.Linked) (hf : u.core.MayFail i)
    (b : Bool) : (u.cancelStart i b).core.WantedProvided := by
  obtain ⟨hk,hd⟩ := needs_cancelStart hL hf b
  refine hp.keeps fun j hj => ?_
  by_cases hji : j=i
  · subst hji
    exact absurd hj hd
  · exact (hu j hji).trans (hk j) hj

theorem mem_cancelStart (w : World) (i : Nat) (b : Bool) :
    (Call.failedToStart i b,w.core) ∈ (w.cancelStart i b).trace := by
  obtain ⟨t,ht⟩ := cancelling_calls w i b
  show _ ∈ (w.cancelling i b).trace
  rw [ht]
  simp

theorem mem_doStart (w : World) (i : Nat) : (Call.doStart i,w.core) ∈ (w.doStart i).trace := by
  have hgrows : Grows (w.push (.doStart i)) (w.doStart i) := by
    unfold doStart
    dsimp only
    split_ifs
    · exact (grows_onCore _ _).trans (frame_cancelStart _ i false).grows
    · exact grows_onCore _ _
    · exact (grows_onCore _ _).trans (frame_initiateStart _ i).grows
    · exact grows_onCore _ _
    · exact (grows_onCore _ _).trans (frame_initiateStart _ i).grows
  exact hgrows.mem List.mem_cons_self

theorem provided_doStart (hp : w.core.WantedProvided) (hL : w.core.Linked)
    (hok : ∀ e ∈ (w.doStart i).trace, HoldOk e) : (w.doStart i).core.WantedProvided := by
  set want := (w.push (.doStart i)).onCore fun c => c.setSvc i fun s =>
    { s with desiredState := .started } with hwant
  have hother (j : Nat) (hj : j≠i) : w.core.KeepsNeeds want.core j :=
    Core.needs_other (c := w.core) (f := fun s => { s with desiredState := .started }) hj
  have hg : w.core.SameGraph want.core := 
    Core.graph_setSvc w.core i (fun s => { s with desiredState := .started }) ⟨rfl,rfl,rfl⟩
  have hstart : w.core.MayStart i := hok _ (mem_doStart w i)
  -- turned around without requiring its dependencies, it must have them
  have hturn (hs : (w.core.svc i).serviceState≠.stopped) : want.core.WantedProvided := by
    have hi : w.core.Provided i := by
      rcases hstart with hd | hi | ⟨hs',-⟩
      · exact hp i hd
      · exact hi
      · exact absurd hs' hs
    intro j hd
    by_cases hj : j=i
    · subst hj
      simpa [Core.Provided,Core.Holds,hwant] using hi
    · exact (hp j (hother j hj hd).svc.wanted).keeps (hother j hj hd)
  have hactive : (w.core.svc i).pinnedStopped=false →
      (w.core.activate i).WantedProvided := by
    intro hpin j hd
    by_cases hj : j=i
    · subst hj
      refine Core.provided_activate ?_
      rcases hstart with hd' | hi | ⟨-,hs | hs | hs⟩
      · exact .inl (hp j hd').1
      · exact .inl hi.1
      · rw [hpin] at hs
        cases hs
      · exact .inl hs
      · exact .inr hs
    · exact (hp j (Core.needs_activate hj hd).svc.wanted).keeps (Core.needs_activate hj hd)
  unfold doStart at hok ⊢
  dsimp only at hok ⊢
  split_ifs at hok ⊢ with hpin hs hs hi
  · exact provided_cancelStart hp hother (hL.of_graph hg) (hok _ (mem_cancelStart want i false)) false
  · exact hturn hs
  · exact (hturn hs).keeps (needs_initiateStart want i)
  · exact hturn hs
  · exact (hactive (by simpa using hpin)).keeps (needs_initiateStart _ i)

end World

open World

/-- What `do_stop` does takes nothing from a service that is still wanted. -/
theorem StopStep.needs {w w' : World} (h : StopStep w w') : KeepsNeeds w w' := by
  cases h with
  | misc i f h => exact needs_setSvc w i f h.needs
  | sys rs => exact .refl w
  | doStop i r => exact .refl w
  | stopDependent i l h => exact .refl w
  | giveUp i => exact needs_giveUp w i
  | dropExplicit i h => exact Core.needs_dropExplicit
  | forceDependent i j => exact Core.needs_forceDependent j
  | giveUpExplicit j h =>
    exact (needs_giveUp w j).trans fun k => Core.needs_dropExplicit k
  | propagateStop j f h =>
    refine needs_setProp w j _ true ?_ fun hd => ?_
    · rcases h with h | rfl
      · exact h.dependsOn
      · rfl
    · rcases h with h | rfl
      · have hs := h.needs.sustained hd
        exact ⟨hs.wanted,hs.unreleased,hs.requiring,hs.failing⟩
      · cases hd
  | breakSoft i l h => exact needs_breakSoft w i l
  | interruptStart i => exact .refl w
  | killPg i signo h => exact .refl w
  | getpgid i g signo h => exact .refl w
  | kill i target signo h => exact .refl w
  | beginStop i r all h told => exact needs_beginStop w i all
  | cancelWait i all h hw =>
    have hu : KeepsNeeds w ((w.onCore fun c => c.unqueueConsole i).push (.startCancelled i)) :=
      fun j => Core.needs_unqueueConsole j
    exact hu.trans (needs_beginStop _ i all)
  | resetTimer i timeout c hc hi hp hr => exact needs_setSvc w i _ ⟨rfl,rfl,rfl,rfl,rfl⟩
  | interrupt i h hd hc hp ht => exact needs_interrupted w i
  | cancelled i all h hd hc hp =>
    have hi : KeepsNeeds w ((w.onCore fun c => c.setSvc i Svc.interrupted).push
        (.startCancelled i)) := needs_interrupted w i
    exact hi.trans (needs_beginStop _ i all)

/-- Every step leaves the wanted services provided for, if the calls meet the condition. -/
theorem Step.provided {w w' : World} (h : Step w w') (hL : w.core.Linked)
    (hp : w.core.WantedProvided) (hok : ∀ e ∈ w'.trace, HoldOk e) : w'.core.WantedProvided := by
  have hset (i : Nat) (f : Svc → Svc) (hf : (w.core.svc i).SameNeeds (f (w.core.svc i))) :
      (w.onCore fun c => c.setSvc i f).core.WantedProvided := hp.keeps (needs_setSvc w i f hf)
  have hnext {u : World} (h : u.core.WantedProvided) : u.nextFlag.core.WantedProvided := h
  -- a start that fails, with `i` changed just before
  have hcancel (i : Nat) (f : Svc → Svc) (b : Bool)
      (hs : (w.core.svc i).SameLinks (f (w.core.svc i)))
      (hf : (Core.setSvc w.core i f).MayFail i) :
      ((w.onCore fun c => c.setSvc i f).cancelStart i b).core.WantedProvided :=
    provided_cancelStart hp (fun j hj => Core.needs_other hj)
      (hL.of_graph (Core.graph_setSvc w.core i f hs)) hf b
  cases h with
  | stop h => exact hp.keeps h.needs
  | call k h => exact hp
  | releaseConsole i => exact hset i _ ⟨rfl,rfl,rfl,rfl,rfl⟩
  | consoleLog r b => exact hp
  | popConsole i rest h => exact hp
  | acquired i h => exact hset i _ ⟨rfl,rfl,rfl,rfl,rfl⟩
  | queueForConsole i h hc =>
    exact hset i (fun s => { s with waitingForConsole := true }) ⟨rfl,rfl,rfl,rfl,rfl⟩
  | popPropagation i h => exact hp
  | popTransition i hq h => exact hp
  | skipFlag i k h hk hf => exact hp
  | skipPin i h hq => exact hp
  | recomputePin i h => exact hnext (hp.keeps (needs_repinned (repinned_recomputePin w i)))
  | clearRelease i h =>
    exact hnext (hp.keeps (Core.needs_setSvc (f := fun s => { s with propRelease := false }) rfl
      fun hd => ⟨hd,fun _ => rfl,id,id⟩))
  | clearStart i h => exact hnext (hset i _ ⟨rfl,rfl,rfl,rfl,rfl⟩)
  | clearStop i h => exact hnext (hset i _ ⟨rfl,rfl,rfl,rfl,rfl⟩)
  | leavePropagation i h => exact hp
  | requireDependencies i h hc hq =>
    obtain ⟨hk,hh⟩ := needs_requireDependencies w i
    have h1 := hp.keeps hk
    intro j hd
    by_cases hj : j=i
    · subst hj
      have hd1 : ((w.requireDependencies j).core.svc j).desiredState=.started := by
        simpa using hd
      refine ⟨by simpa using (h1 j hd1).1,.inr (.inr ?_)⟩
      simpa [Core.Holds] using hh
    · have hk' := Core.needs_other (c := (w.requireDependencies i).core)
        (f := fun s => { s with propRequire := false }) hj
      exact (h1 j (hk' hd).svc.wanted).keeps (hk' hd)
  | dropLink i l hl hh hq ht =>
    refine hp.keeps fun j => Core.needs_dropLink fun hd hm hr => ?_
    -- only a service that is not wanted releases its dependencies
    obtain rfl : i=j := (hL.dependsOn i l hl).1.symm.trans (hL.dependsOn j l hm).1
    rw [(hp i hd).1] at hq
    cases hq
  | failure i h hq =>
    set f : Svc → Svc := fun s =>
      { s with propFailure := false, stopReason := .depfailed, serviceState := .stopped } with hf
    set u := (w.onCore fun c => c.setSvc i f).nextFlag with hu
    have hother (j : Nat) (hj : j≠i) : w.core.KeepsNeeds u.core j := Core.needs_other (f := f) hj
    have hg : w.core.SameGraph u.core := Core.graph_setSvc w.core i f ⟨rfl,rfl,rfl⟩
    exact provided_cancelStart hp hother (hL.of_graph hg) (hok _ (mem_cancelStart u i true)) true
  | startExplicit i h hq => exact hset i _ ⟨rfl,rfl,rfl,rfl,rfl⟩
  | doStart i => exact provided_doStart hp hL hok
  | depsStarted i h hn => exact hset i _ ⟨rfl,rfl,rfl,rfl,rfl⟩
  | depsStopped i h hs hc => exact hset i _ ⟨rfl,rfl,rfl,rfl,rfl⟩
  | initiateStart i hs hd hq => exact hp.keeps (needs_initiateStart w i)
  | becomeStarted i => exact hp.keeps (needs_becomeStarted w i)
  | becomeStopped i => exact hp.keeps (needs_becomeStopped w i)
  | cancelStart i b f h => exact hcancel i f b h.links (hok _ (mem_cancelStart _ i b))
  | cancelStopping i b f h hs hn =>
    exact hcancel i f b ⟨h.settings,h.dependsOn,h.dependents⟩ (hok _ (mem_cancelStart _ i b))
  | cancelTimeout i f h hq hs hn =>
    have hk := (w.core.svc i).interrupted_kept
    set u := (w.onCore fun c => c.setSvc i Svc.interrupted).onCore fun c => c.setSvc i f with hu
    have hother (j : Nat) (hj : j≠i) : w.core.KeepsNeeds u.core j :=
      (Core.needs_other (f := Svc.interrupted) hj).trans (Core.needs_other (f := f) hj)
    have hg : w.core.SameGraph u.core := by
      refine (Core.graph_setSvc w.core i Svc.interrupted
        ⟨hk.settings,hk.dependsOn,hk.dependents⟩).trans (Core.graph_setSvc _ i f ?_)
      simpa using h.links
    exact provided_cancelStart hp hother (hL.of_graph hg) (hok _ (mem_cancelStart u i false)) false
  | setForceStop i f h =>
    exact hset i f ⟨h.desiredState,h.propRelease,h.propRequire,h.propFailure,h.dependsOn⟩
  | forcedStop i => exact hp.keeps fun j => Core.needs_forcedStop j
  | unrecoverableStop i => exact hp.keeps fun j => Core.needs_unrecoverableStop j
  | fork i n f c hc hk h =>
    exact hset i f ⟨h.desiredState,h.propRelease,h.propRequire,h.propFailure,h.dependsOn⟩
  | forkStop i n hq he hs => exact hset i _ ⟨rfl,rfl,rfl,rfl,rfl⟩
  | restartTimer i h => exact hset i _ ⟨rfl,rfl,rfl,rfl,rfl⟩
  | noRestartTimer i h => exact hset i _ ⟨rfl,rfl,rfl,rfl,rfl⟩
  | stopRestartTimer i h => exact hset i _ ⟨rfl,rfl,rfl,rfl,rfl⟩
  | stopTimer i f h =>
    exact hset i f ⟨h.desiredState,h.propRelease,h.propRequire,h.propFailure,h.dependsOn⟩
  | armTimer i timeout hq => exact hset i _ ⟨rfl,rfl,rfl,rfl,rfl⟩
  | startTimer i timeout hq => exact hset i _ ⟨rfl,rfl,rfl,rfl,rfl⟩
  | stopIssued i b => exact hset i _ ⟨rfl,rfl,rfl,rfl,rfl⟩
  | readPid i f hx hb h hk ht => exact hset i _ ⟨rfl,rfl,rfl,rfl,rfl⟩
  | trackingChild i => exact hset i _ ⟨rfl,rfl,rfl,rfl,rfl⟩

/-- So does every step of an event or a command. -/
theorem EventStep.provided {w w' : World} (h : EventStep w w') (hL : w.core.Linked)
    (hp : w.core.WantedProvided) (hok : ∀ e ∈ w'.trace, HoldOk e) : w'.core.WantedProvided := by
  have hset (i : Nat) (f : Svc → Svc) (hf : (w.core.svc i).SameNeeds (f (w.core.svc i))) :
      (w.onCore fun c => c.setSvc i f).core.WantedProvided := hp.keeps (needs_setSvc w i f hf)
  cases h with
  | step h => exact h.provided hL hp hok
  | call k h => exact hp
  | now t => exact hp
  | noRestart => exact hp
  | stopExplicit i h => exact hset i _ ⟨rfl,rfl,rfl,rfl,rfl⟩
  | stopRelease i hr hd hq =>
    refine hp.keeps (needs_setProp w i _ _ rfl fun hw => ?_)
    rw [show (w.core.svc i).desiredState=.started from hw] at hd
    cases hd
  | pinStart i => exact hp.keeps (needs_repinned (repinned_pinStart w i))
  | unpinStart i c hc => exact hp.keeps (needs_repinned (repinned_unpinStart w i))
  | pinStopped i b => exact hset i _ ⟨rfl,rfl,rfl,rfl,rfl⟩
  | unpinRelease i c hc hpin hdpt hs hr hd =>
    refine hp.keeps (needs_setProp w i _ _ rfl fun hw => ?_)
    exact absurd (hd.symm.trans hw) (hok (.unpin i,c) hc hpin hdpt hs hr)
  | acquire l j hl h hc => exact hp.keeps Core.needs_acquire
  | addDep f t depType h hm => exact hp.addDep hL (hok _ (List.mem_of_mem_head? h))
  | rmDep f l hl h => exact hp.keeps Core.needs_rmDep
  | expire i h =>
    have hk : KeepsNeeds w (w.expire i) := (needs_setSvc w i (fun s => { s with proc := { s.proc with
      timerArmed := false } }) ⟨rfl,rfl,rfl,rfl,rfl⟩).trans
      (needs_setSvc _ i Svc.timedOut ⟨rfl,rfl,rfl,rfl,rfl⟩)
    exact hp.keeps hk
  | seen i failed h hq => exact hset i _ ⟨rfl,rfl,rfl,rfl,rfl⟩
  | forget i c h => exact hset i _ ⟨rfl,rfl,rfl,rfl,rfl⟩
  | stopSeen i failed h hq => exact hset i _ ⟨rfl,rfl,rfl,rfl,rfl⟩
  | stopForget i c h => exact hset i _ ⟨rfl,rfl,rfl,rfl,rfl⟩
  | reaped i status h => exact hset i _ ⟨rfl,rfl,rfl,rfl,rfl⟩
  | stopReaped i status h => exact hset i _ ⟨rfl,rfl,rfl,rfl,rfl⟩

namespace World

/-- Every wanted service is provided for, and `required_by` of no service is less than what
accounts for it. -/
structure Holding (w : World) : Prop where
  linked : w.core.Linked
  provided : w.core.WantedProvided
  covered : ∀ i, 0≤w.core.balance i

variable {w : World}

theorem load_holding {c : Core} (hc : c.Fresh) : (World.load c).Holding where
  linked := hc.linked
  provided i hd := by
    have hd' : (c.svc i).desiredState=.started := hd
    rw [hc.svc i] at hd'
    cases hd'
  covered i := by
    have hr : (c.svc i).requiredBy=0 ∧ (c.svc i).startExplicit=false := by
      rw [hc.svc i]
      exact ⟨rfl,rfl⟩
    show 0≤c.balance i
    simp [Core.balance,Core.accounts,Core.held,hr.1,hr.2,hc.holdingAcq]

theorem Holding.step {w' : World} (h : w.Holding) (hs : EventStep w w')
    (hok : ∀ e ∈ w'.trace, HoldOk e) : w'.Holding where
  linked := eventStep_linked hs h.linked
  provided := hs.provided h.linked h.provided hok
  covered i := by
    have hi := h.covered i
    rcases hs.balanced h.linked with hb | ⟨-,hb⟩
    · rw [hb.core i]
      exact hi
    · exact Int.le_trans hi (hb i)

/-- A dependency that is held is required. -/
theorem Holding.required (h : w.Holding) {i l : Nat} (hl : l ∈ (w.core.svc i).dependsOn)
    (hh : (w.core.link l).holdingAcq=true) : 1≤(w.core.svc (w.core.link l).to_).requiredBy := by
  have hpos : 0<w.core.held (w.core.link l).to_ :=
    List.countP_pos_iff.mpr ⟨l,(h.linked.dependsOn i l hl).2,hh⟩
  have hb := h.covered (w.core.link l).to_
  unfold Core.balance Core.accounts at hb
  omega

/-- Nothing is left to be propagated when the queue is empty. -/
theorem FlagsQueued.none (h : w.FlagsQueued) (hx : w.ctx=[]) (hq : w.core.propQueue.isEmpty=true)
    (i k : Nat) : (w.core.svc i).flag k=false := by
  obtain ⟨xs,hp,hf⟩ := h
  obtain rfl : xs=[] := hp.eq_nil (Option.isNone_iff_eq_none.mp hq)
  by_contra hk
  rcases hf i k (by simpa using hk) with hm | ⟨n,hm,-⟩
  · cases hm
  · rw [hx] at hm
    cases hm

/-- In a run whose calls meet the condition, an active service that is wanted holds its
REGULAR dependencies whenever both queues are empty. -/
theorem Reachable.active_holds (h : Reachable w) (hok : ∀ e ∈ w.trace, HoldOk e)
    (hq : w.core.propQueue.isEmpty=true) (_hs : w.core.stopQueue.isEmpty=true) {i : Nat}
    (_ha : (w.core.svc i).serviceState=.starting ∨ (w.core.svc i).serviceState=.started)
    (hd : (w.core.svc i).desiredState=.started) :
    ∀ l ∈ (w.core.svc i).dependsOn, (w.core.link l).depType=.regular →
      (w.core.link l).holdingAcq=true ∧ 1≤(w.core.svc (w.core.link l).to_).requiredBy := by
  obtain ⟨hx,c,hc,hs⟩ := h.steps
  have hw : w.Holding := invariant_of_log (fun w => w.trace) HoldOk Holding
    (fun s s' hr e he => hr.grows.mem he) (fun s s' hok hi hr => hi.step hr hok) hs hok
    (load_holding hc)
  have hflag := (flagsQueued_of_steps hs hc.flagsQueued).none hx hq i
  intro l hl hr
  have hheld : (w.core.link l).holdingAcq=true := by
    rcases (hw.provided i hd).2 with hreq | hfail | hh
    · exact absurd (hreq.symm.trans (hflag 0)) nofun
    · exact absurd (hfail.symm.trans (hflag 2)) nofun
    · exact hh l hl hr
  exact ⟨hheld,hw.required hl hheld⟩

/-- A process is started and stopped, and started again at once or when it has ended. -/
def startAgain (atOnce : Bool) : List Input :=
  let start : Input := { event := .startService 0 false, now := 4, sys := [{ fork := some 43 }] }
  let ended : Input := { event := .childTerminated 0 {}, now := 5, sys := [{ fork := some 43 }] }
  [{ event := .startService 0 false, now := 1, sys := [{ fork := some 41 }] },
    { event := .execStatus 0 false, now := 2 },
    { event := .stopService 0 false false false, now := 3, sys := [{ pgid := some 42 }] }]++
    (if atOnce then [start,ended] else [ended,start])

/-- If its dependency goes down with it, the process gets it again. -/
theorem held_after_end : ∃ w : World, Reachable w ∧ (∀ e ∈ w.trace, HoldOk e) ∧
    (w.core.svc 0).serviceState=.starting ∧ (w.core.link 0).holdingAcq=true ∧
    1≤(w.core.svc 1).requiredBy := by
  obtain ⟨w,hw,hp⟩ := reachable_of_run (c := processOverInternal) (Core.loaded_fresh _ _) 8
    (startAgain false) (p := fun w => decide (∀ e ∈ w.trace, HoldOk e) &&
      w.core.propQueue.isEmpty && w.core.stopQueue.isEmpty &&
      (w.core.svc 0).serviceState==.starting && (w.core.svc 0).desiredState==.started &&
      (w.core.svc 0).dependsOn.contains 0 && (w.core.link 0).depType==.regular &&
      (w.core.link 0).to_==1) (by decide +kernel)
  simp only [Bool.and_eq_true,decide_eq_true_eq,beq_iff_eq,List.contains_iff_mem] at hp
  obtain ⟨⟨⟨⟨⟨⟨⟨hok,hq⟩,hs⟩,ha⟩,hd⟩,hl⟩,hr⟩,hto⟩ := hp
  obtain ⟨hh,hreq⟩ := hw.active_holds hok hq hs (.inl ha) hd 0 hl hr
  rw [hto] at hreq
  exact ⟨w,hw,hok,ha,hh,hreq⟩

/-- A process that is wanted again while it still runs starts over without it. -/
theorem restarted_unheld : ¬∀ w : World, Reachable w → w.core.propQueue.isEmpty=true →
    w.core.stopQueue.isEmpty=true → ∀ i,
    (w.core.svc i).serviceState=.starting ∨ (w.core.svc i).serviceState=.started →
    (w.core.svc i).desiredState=.started → ∀ l ∈ (w.core.svc i).dependsOn,
      (w.core.link l).depType=.regular → (w.core.link l).holdingAcq=true := by
  intro h
  obtain ⟨w,hw,hp⟩ := reachable_of_run (c := processOverInternal) (Core.loaded_fresh _ _) 8
    (startAgain true) (p := fun w => w.core.propQueue.isEmpty && w.core.stopQueue.isEmpty &&
      (w.core.svc 0).serviceState==.starting && (w.core.svc 0).desiredState==.started &&
      (w.core.svc 0).dependsOn.contains 0 && (w.core.link 0).depType==.regular &&
      !(w.core.link 0).holdingAcq) (by decide +kernel)
  simp only [Bool.and_eq_true,Bool.not_eq_true',beq_iff_eq,List.contains_iff_mem] at hp
  obtain ⟨⟨⟨⟨⟨⟨hq,hs⟩,ha⟩,hd⟩,hl⟩,hr⟩,hh⟩ := hp
  rw [h w hw hq hs 0 (.inl ha) hd 0 hl hr] at hh
  cases hh

end World
end Dinit
