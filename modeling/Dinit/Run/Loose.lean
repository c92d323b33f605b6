import Dinit.Run.Frame

namespace Dinit

open Framework Framework.Comp World Relation

/-- A record update that has nothing to do with propagation, the console, the pins or the
process. -/
structure Svc.Plain (s s' : Svc) : Prop where
  settings : s'.settings=s.settings
  pinnedStopped : s'.pinnedStopped=s.pinnedStopped
  pinnedStarted : s'.pinnedStarted=s.pinnedStarted
  deptPinnedStarted : s'.deptPinnedStarted=s.deptPinnedStarted
  waitingForConsole : s'.waitingForConsole=s.waitingForConsole
  haveConsole : s'.haveConsole=s.haveConsole
  propRequire : s'.propRequire=s.propRequire
  propRelease : s'.propRelease=s.propRelease
  propFailure : s'.propFailure=s.propFailure
  propStart : s'.propStart=s.propStart
  propStop : s'.propStop=s.propStop
  propPinDpt : s'.propPinDpt=s.propPinDpt
  requiredBy : s'.requiredBy=s.requiredBy
  dependsOn : s'.dependsOn=s.dependsOn
  dependents : s'.dependents=s.dependents
  proc : s'.proc={ s.proc with socketOpen := s'.proc.socketOpen }

theorem Core.setLink_eq (c : Core) (l : Nat) (f : Link → Link) : c.setLink l f=c.setLinks [l] f := by
  simp only [setLink,setLinks]
  congr 1
  funext k
  by_cases hk : k=l <;> simp [hk]

/-- The soft dependents of `i` that attach again are counted, and its dependencies will be
required unless they have not been released yet. -/
def Core.want (c : Core) (i n : Nat) : Core :=
  c.setProp i (fun s =>
    { s with
      desiredState := .started
      requiredBy := s.requiredBy+n
      propRequire := !s.propRelease
      propRelease := false }) (!(c.svc i).propRelease)

/-- `failed_to_start`, up to the loss of the pin -/
def World.cancelling (w : World) (i : Nat) (immediateStop : Bool) : World :=
  let w := w.failStart i immediateStop
  let w := if (w.core.svc i).startExplicit then w.onCore fun c => c.dropExplicit i else w
  (w.core.svc i).dependents.foldl (fun w l => w.cancelDependent i l) w

/-- Relations between states that contain the small updates which starting, stopping and
giving up a start are made of. -/
structure Loose (R : World → World → Prop) : Prop where
  refl : ∀ w, R w w
  trans : ∀ {w w' w''}, R w w' → R w' w'' → R w w''
  push : ∀ w k, R w (w.push k)
  plain : ∀ w i f, (w.core.svc i).Plain (f (w.core.svc i)) → R w (w.onCore fun c => c.setSvc i f)
  queue : ∀ w i, R w (w.onCore fun c => { c with stopQueue := c.stopQueue.add i })
  active : ∀ w n, R w (w.onCore fun c => { c with activeServices := c.activeServices+n })
  waiting : ∀ w ls b, R w (w.onCore fun c => c.setLinks ls fun d => { d with waitingOn := b })
  unhold : ∀ w l, R w (w.onCore fun c => c.setLink l fun d => { d with holdingAcq := false })
  acquire : ∀ w l, (w.core.link l).isOnlyOrdering=false → R w (w.onCore fun c => c.acquire l)
  attach : ∀ w i, (w.core.svc i).serviceState=.stopped → (w.core.svc i).pinnedStopped=false →
    R w ((w.push (.doStart i)).onCore fun c => c.activate i)
  release : ∀ w i, R w (w.onCore fun c => c.release i)
  failure : ∀ w i, R w (w.onCore fun c => c.propagateFailure i)
  unqueue : ∀ w i, R w (w.onCore fun c => c.unqueueConsole i)
  cancelled : ∀ w i b, R w (w.cancelling i b) → R w (w.cancelStart i b)

namespace Loose

variable {R : World → World → Prop} (h : Loose R)
include h

theorem foldl {α : Type} {f : World → α → World} (xs : List α) (hf : ∀ w x, R w (f w x)) (w : World) :
    R w (xs.foldl f w) := by
  induction xs generalizing w with
  | nil => exact h.refl w
  | cons x xs ih => exact h.trans (hf w x) (ih (f w x))

theorem when {p : Prop} [Decidable p] {w w' : World} (hw : p → R w w') :
    R w (if p then w' else w) := by
  split
  · next hp => exact hw hp
  · exact h.refl w

theorem addTransitionQueue (w : World) (i : Nat) : R w (w.addTransitionQueue i) :=
  h.trans (h.push w (.addTransitionQueue i)) (h.queue _ i)

theorem dependencyStarted (w : World) (i : Nat) : R w (w.dependencyStarted i) :=
  h.when fun _ => h.addTransitionQueue w i

theorem dependentStopped (w : World) (i : Nat) : R w (w.dependentStopped i) :=
  h.when fun _ => h.addTransitionQueue w i

theorem waitingLink (w : World) (l : Nat) (b : Bool) :
    R w (w.onCore fun c => c.setLink l fun d => { d with waitingOn := b }) := by
  simp only [Core.setLink_eq]
  exact h.waiting w [l] b

theorem clearWait (w : World) (l : Nat) : R w (w.clearWait l) :=
  h.trans (h.waitingLink w l false) (h.dependencyStarted _ _)

theorem notifyStarted (w : World) (l : Nat) : R w (w.notifyStarted l) :=
  h.when fun _ => h.trans (h.dependencyStarted w _) (h.waitingLink _ l false)

theorem dropLink (w : World) (l i : Nat) : R w (w.onCore fun c => c.dropLink l i) :=
  h.trans (h.unhold w l) (h.release _ i)

theorem dropExplicit (w : World) (i : Nat) : R w (w.onCore fun c => c.dropExplicit i) :=
  h.trans (h.plain w i (fun s => { s with startExplicit := false }) (by constructor <;> rfl))
    (h.release _ i)

theorem breakSoft (w : World) (i l : Nat) : R w (w.breakSoft i l) := by
  unfold World.breakSoft
  dsimp only
  split
  · exact h.refl w
  · exact h.trans (h.when fun _ => h.clearWait w l) (h.when fun _ => h.dropLink _ l i)

theorem failStart (w : World) (i : Nat) (b : Bool) : R w (w.failStart i b) :=
  h.trans (h.push w _) (h.trans (h.plain _ i (fun s => { s with desiredState := .stopped })
    (by constructor <;> rfl)) (h.unqueue _ i))

theorem cancelDependent (w : World) (i l : Nat) : R w (w.cancelDependent i l) := by
  unfold World.cancelDependent
  dsimp only
  refine h.trans ?_ (h.when fun _ => h.dropLink _ l i)
  split
  · exact h.when fun _ => h.failure w _
  · exact h.when fun _ => h.clearWait w l

theorem cancelling (w : World) (i : Nat) (b : Bool) : R w (w.cancelling i b) := by
  have hexplicit (u : World) :
      R u (if (u.core.svc i).startExplicit then u.onCore fun c => c.dropExplicit i else u) :=
    h.when fun _ => h.dropExplicit u i
  have hloop (u : World) : R u ((u.core.svc i).dependents.foldl (fun w l => w.cancelDependent i l) u) :=
    h.foldl _ (fun w l => h.cancelDependent w i l) u
  exact h.trans (h.failStart w i b) (h.trans (hexplicit _) (hloop _))

theorem cancelStart (w : World) (i : Nat) (b : Bool) : R w (w.cancelStart i b) :=
  h.cancelled w i b (h.cancelling w i b)

theorem initiateStart (w : World) (i : Nat) : R w (w.initiateStart i) := by
  have hcheck (u : World) : R u (u.onCore fun c => c.startCheckDependencies i) :=
    h.trans (h.waiting u _ true) (h.waiting _ _ true)
  have hstate := h.trans (h.push w (.initiateStart i)) (h.plain _ i (fun s =>
    { s with
      startFailed := false
      startSkipped := false
      serviceState := .starting
      waitingForDeps := true }) (by constructor <;> rfl))
  exact h.trans (h.trans hstate (hcheck _)) (h.when fun _ => h.addTransitionQueue _ i)

theorem doStart (w : World) (i : Nat) : R w (w.doStart i) := by
  have hpush := h.push w (.doStart i)
  have hwant := h.trans hpush (h.plain _ i (fun s => { s with desiredState := .started })
    (by constructor <;> rfl))
  unfold World.doStart
  dsimp only
  split_ifs with hp hs hs hi
  · exact h.trans hwant (h.cancelStart _ i false)
  · exact hwant
  · exact h.trans hwant (h.initiateStart _ i)
  · exact hwant
  · exact h.trans (h.attach w i (by simpa using hs) (by simpa using hp)) (h.initiateStart _ i)

theorem signalDependencies (w : World) (i : Nat) : R w (w.signalDependencies i) :=
  h.foldl _ (fun w _ => h.dependentStopped w _) w

theorem becomeInactive (w : World) (i : Nat) : R w (w.onCore fun c => c.becomeInactive i) := by
  have hstate := h.plain w i (fun s =>
    { s with serviceState := .stopped, proc := { s.proc with socketOpen := false } })
    (by constructor <;> rfl)
  set u := w.onCore fun c => c.setSvc i fun s =>
    { s with serviceState := .stopped, proc := { s.proc with socketOpen := false } } with hu
  have heq : w.onCore (fun c => c.becomeInactive i) =
      if (u.core.svc i).startExplicit then u.onCore fun c => c.dropExplicit i
      else if (u.core.svc i).requiredBy = 0 then
        u.onCore fun c => { c with activeServices := c.activeServices+(-1) }
      else u := by
    simp only [hu,World.onCore,Core.becomeInactive]
    split_ifs <;> rfl
  rw [heq]
  refine h.trans hstate ?_
  split
  · exact h.dropExplicit u i
  · exact h.when fun _ => h.active u (-1)

theorem becomeStopped (w : World) (i : Nat) : R w (w.becomeStopped i) := by
  have hforce := h.plain w i (fun s => { s with forceStop := false }) (by constructor <;> rfl)
  unfold World.becomeStopped
  dsimp only
  split
  · refine h.trans (h.trans hforce (h.signalDependencies _ i)) ?_
    refine h.trans ?_ (h.initiateStart _ i)
    exact h.plain _ i (fun s => { s with serviceState := .stopped }) (by constructor <;> rfl)
  · have hloop (ls : List Nat) (u : World) : R u (ls.foldl (fun w l => w.breakSoft i l) u) :=
      h.foldl ls (fun w l => h.breakSoft w i l) u
    exact h.trans hforce (h.trans (hloop _ _)
      (h.trans (h.signalDependencies _ i) (h.becomeInactive _ i)))

theorem becomeStarted (w : World) (i : Nat) : R w (w.becomeStarted i) := by
  have hstate := h.trans (h.push w (.logServiceStarted i))
    (h.plain _ i (fun s => { s with serviceState := .started }) (by constructor <;> rfl))
  unfold World.becomeStarted
  dsimp only
  split
  · exact hstate
  · exact h.trans hstate (h.foldl _ (fun w l => h.notifyStarted w l) _)

theorem beginStop (w : World) (i : Nat) (all : Bool) : R w (w.beginStop i all) := by
  have hstate := h.plain w i (fun s => { s with serviceState := .stopping, waitingForDeps := !all })
    (by constructor <;> rfl)
  exact h.trans hstate (h.when fun _ => h.addTransitionQueue _ i)

theorem cancelWait (w : World) (i : Nat) (all : Bool) : R w (w.cancelWait i all) :=
  h.trans (h.trans (h.unqueue w i) (h.push _ (.startCancelled i))) (h.beginStop _ i all)

theorem requireDependencies (w : World) (i : Nat) : R w (w.requireDependencies i) := by
  unfold World.requireDependencies
  refine h.foldl _ (fun w l => ?_) w
  split
  · exact h.refl w
  · next hl => exact h.acquire w l (by simpa using hl)

end Loose

namespace World

theorem cancelStart_svc (w : World) (i : Nat) (b : Bool) (j : Nat) :
    (w.cancelStart i b).core.svc j = if j=i then { (w.cancelling i b).core.svc j with
      startFailed := true, pinnedStarted := false } else (w.cancelling i b).core.svc j := by
  by_cases hj : j=i
  · subst hj
    rfl
  · rw [if_neg hj]
    exact if_neg hj

/-- `failed_to_start` is entered first. -/
theorem cancelling_calls (w : World) (i : Nat) (b : Bool) :
    ∃ t, (w.cancelling i b).trace=t++(.failedToStart i b,w.core)::w.trace := by
  have hexplicit (u : World) : Grows u
      (if (u.core.svc i).startExplicit then u.onCore fun c => c.dropExplicit i else u) := by
    split
    · exact grows_onCore u _
    · exact .refl u
  have hloop (ls : List Nat) (u : World) : Grows u (ls.foldl (fun w l => w.cancelDependent i l) u) :=
    (frame_foldl ls (fun w l => frame_cancelDependent w i l) u).grows
  exact (hexplicit (w.failStart i b)).trans (hloop _ _)

end World

/-- The trace is added to, and a property of the state is kept if the calls in it meet a
condition. -/
structure Preserves (Ok : Call × Core → Prop) (I : World → Prop) (w w' : World) : Prop where
  grows : Grows w w'
  keeps : (∀ e ∈ w'.trace, Ok e) → I w → I w'

namespace Preserves

variable {Ok : Call × Core → Prop} {I : World → Prop} {w w' w'' : World}

theorem refl (w : World) : Preserves Ok I w w := ⟨.refl w,fun _ => id⟩

theorem trans (h : Preserves Ok I w w') (h' : Preserves Ok I w' w'') : Preserves Ok I w w'' :=
  ⟨h.grows.trans h'.grows,fun hok hi => h'.keeps hok (h.keeps (fun e he => hok e (h'.grows.mem he)) hi)⟩

theorem onCore {f : Core → Core} (h : I w → I (w.onCore f)) : Preserves Ok I w (w.onCore f) :=
  ⟨grows_onCore w f,fun _ => h⟩

end Preserves

/-- What each step preserves, a run does. -/
theorem preserves_steps {Ok : Call × Core → Prop} {I : World → Prop} {R : World → World → Prop}
    (hR : ∀ w w', R w w' → Preserves Ok I w w') {w w' : World} (h : ReflTransGen R w w') :
    Preserves Ok I w w' := by
  induction h with
  | refl => exact .refl w
  | tail _ hs ih => exact ih.trans (hR _ _ hs)

end Dinit
