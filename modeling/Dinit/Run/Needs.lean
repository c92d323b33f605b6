import Dinit.Run.Graph
import Dinit.Run.Loose

namespace Dinit

open Framework Framework.Comp World Relation

/-- A record update that takes nothing away from a wanted service on which it relies. -/
structure Svc.Sustained (s s' : Svc) : Prop where
  wanted : s.desiredState=.started
  unreleased : s.propRelease=false → s'.propRelease=false
  requiring : s.propRequire=true → s'.propRequire=true
  failing : s.propFailure=true → s'.propFailure=true

theorem Svc.Sustained.trans {s s' s'' : Svc} (h : s.Sustained s') (h' : s'.Sustained s'') :
    s.Sustained s'' :=
  ⟨h.wanted,h'.unreleased ∘ h.unreleased,h'.requiring ∘ h.requiring,h'.failing ∘ h.failing⟩

theorem Svc.Sustained.refl {s : Svc} (h : s.desiredState=.started) : s.Sustained s := ⟨h,id,id,id⟩

/-- A record update of fields that have nothing to do with what the service relies on. -/
structure Svc.SameNeeds (s s' : Svc) : Prop where
  desiredState : s'.desiredState=s.desiredState
  propRelease : s'.propRelease=s.propRelease
  propRequire : s'.propRequire=s.propRequire
  propFailure : s'.propFailure=s.propFailure
  dependsOn : s'.dependsOn=s.dependsOn

theorem Svc.SameNeeds.sustained {s s' : Svc} (h : s.SameNeeds s')
    (hd : s'.desiredState=.started) : s.Sustained s' where
  wanted := h.desiredState.symm.trans hd
  unreleased := h.propRelease.trans
  requiring := h.propRequire.trans
  failing := h.propFailure.trans

theorem Svc.Kept.needs {s s' : Svc} (h : s.Kept s') : s.SameNeeds s' :=
  ⟨h.desiredState,h.propRelease,h.propRequire,h.propFailure,h.dependsOn⟩

theorem Svc.released_sustained {s : Svc} (hd : s.released.desiredState=.started) :
    s.Sustained s.released := by
  unfold released at hd ⊢
  split_ifs at hd ⊢ with h hp
  · exact ⟨hd,id,id,id⟩

theorem Svc.forced_sustained {s : Svc} (hd : s.forced.desiredState=.started) :
    s.Sustained s.forced := by
  unfold forced at hd ⊢
  split_ifs at hd ⊢
  · exact .refl hd
  · exact ⟨hd,id,id,id⟩

namespace Core

/-- `i` holds each of its REGULAR dependencies. -/
def Holds (c : Core) (i : Nat) : Prop :=
  ∀ l ∈ (c.svc i).dependsOn, (c.link l).depType=.regular → (c.link l).holdingAcq=true

instance (c : Core) (i : Nat) : Decidable (c.Holds i) := inferInstanceAs (Decidable (∀ _ ∈ _, _))

/-- No REGULAR dependent that holds `i` would be left without it: each is STARTING, and so
will fail, or is not wanted. -/
def MayFail (c : Core) (i : Nat) : Prop :=
  ∀ l ∈ (c.svc i).dependents, (c.link l).depType=.regular → (c.link l).holdingAcq=true →
    (c.svc (c.link l).from_).serviceState=.starting ∨
      (c.svc (c.link l).from_).desiredState≠.started

instance (c : Core) (i : Nat) : Decidable (c.MayFail i) := inferInstanceAs (Decidable (∀ _ ∈ _, _))

/-- What is so in `c'` of a service that is wanted there, if it was provided for in `c`. -/
structure Sustains (c c' : Core) (i : Nat) : Prop where
  svc : (c.svc i).Sustained (c'.svc i)
  links : (c'.svc i).propFailure=true ∨ ∀ l ∈ (c'.svc i).dependsOn, (c'.link l).depType=.regular →
    l ∈ (c.svc i).dependsOn ∧ (c.link l).depType=.regular ∧
      ((c.link l).holdingAcq=true → (c'.link l).holdingAcq=true)

/-- `i` loses nothing that it relies on, unless it is no longer wanted. -/
def KeepsNeeds (c c' : Core) (i : Nat) : Prop := (c'.svc i).desiredState=.started → c.Sustains c' i

variable {c c' c'' : Core} {i j l : Nat}

theorem KeepsNeeds.refl : c.KeepsNeeds c i := fun hd => ⟨.refl hd,.inr fun _ hl hr => ⟨hl,hr,id⟩⟩

theorem KeepsNeeds.trans (h : c.KeepsNeeds c' i) (h' : c'.KeepsNeeds c'' i) : c.KeepsNeeds c'' i := by
  intro hd
  have h2 := h' hd
  have h1 := h h2.svc.wanted
  refine ⟨h1.svc.trans h2.svc,?_⟩
  rcases h2.links with hf | hl2
  · exact .inl hf
  rcases h1.links with hf | hl1
  · exact .inl (h2.svc.failing hf)
  right
  intro l hl hr
  obtain ⟨hl',hr',hh'⟩ := hl2 l hl hr
  obtain ⟨hl'',hr'',hh''⟩ := hl1 l hl' hr'
  exact ⟨hl'',hr'',hh' ∘ hh''⟩

/-- The links are left alone. -/
theorem needs_of_svc (hl : c'.link=c.link) (hd : (c'.svc i).dependsOn=(c.svc i).dependsOn)
    (hs : (c'.svc i).desiredState=.started → (c.svc i).Sustained (c'.svc i)) : c.KeepsNeeds c' i := by
  intro hw
  refine ⟨hs hw,.inr fun l hm hr => ⟨hd ▸ hm,?_,?_⟩⟩
  · rwa [hl] at hr
  · rw [hl]
    exact id

/-- The records are left alone, and no link is dropped. -/
theorem needs_of_links (hs : c'.svc=c.svc) (ht : ∀ l, (c'.link l).depType=(c.link l).depType)
    (hh : ∀ l, (c.link l).holdingAcq=true → (c'.link l).holdingAcq=true) : c.KeepsNeeds c' i := by
  intro hw
  refine ⟨?_,.inr fun l hm hr => ⟨hs ▸ hm,(ht l).symm.trans hr,hh l⟩⟩
  rw [hs] at hw ⊢
  exact .refl hw

theorem needs_setSvc {f : Svc → Svc} (hd : (f (c.svc i)).dependsOn=(c.svc i).dependsOn)
    (hs : (f (c.svc i)).desiredState=.started → (c.svc i).Sustained (f (c.svc i))) (j : Nat) :
    c.KeepsNeeds (c.setSvc i f) j := by
  by_cases hj : j=i
  · subst hj
    exact needs_of_svc rfl (by simpa using hd) (by simpa using hs)
  · exact needs_of_svc rfl (by simp [hj]) (by simpa [hj] using Svc.Sustained.refl)

/-- The record of `i` alone has changed. -/
theorem needs_other {f : Svc → Svc} (hj : j≠i) : c.KeepsNeeds (c.setSvc i f) j :=
  needs_of_svc rfl (by simp [hj]) (by simpa [hj] using Svc.Sustained.refl)

theorem needs_same {f : Svc → Svc} (h : (c.svc i).SameNeeds (f (c.svc i))) (j : Nat) :
    c.KeepsNeeds (c.setSvc i f) j :=
  needs_setSvc h.dependsOn h.sustained j

theorem needs_setProp {f : Svc → Svc} {q : Bool}
    (hd : (f (c.svc i)).dependsOn=(c.svc i).dependsOn)
    (hs : (f (c.svc i)).desiredState=.started → (c.svc i).Sustained (f (c.svc i))) (j : Nat) :
    c.KeepsNeeds (c.setProp i f q) j := by
  refine (needs_setSvc hd hs j).trans (needs_of_svc ?_ ?_ ?_)
  · rw [setProp_link,setSvc_link]
  · simp
  · simpa using Svc.Sustained.refl

theorem needs_release (j : Nat) : c.KeepsNeeds (c.release i) j :=
  needs_setProp (Svc.released_same _).dependsOn Svc.released_sustained j

theorem needs_require (j : Nat) : c.KeepsNeeds (c.require i) j :=
  needs_setProp rfl (fun hd => ⟨hd,id,id,id⟩) j

theorem needs_acquire (j : Nat) : c.KeepsNeeds (c.acquire l) j := by
  refine (needs_require j).trans (needs_of_links rfl ?_ ?_)
  · intro k
    by_cases hk : k=l <;> simp [hk]
  · intro k
    by_cases hk : k=l <;> simp [hk]

/-- Dropping a link does no harm to a service that does not rely on it. -/
theorem needs_dropLink (h : (c.svc j).desiredState=.started → l ∈ (c.svc j).dependsOn →
    (c.link l).depType=.regular → (c.svc j).propFailure=true) : c.KeepsNeeds (c.dropLink l i) j := by
  refine KeepsNeeds.trans ?_ (needs_release j)
  intro hw
  by_cases hf : (c.svc j).propFailure=true
  · exact ⟨.refl hw,.inl hf⟩
  refine ⟨.refl hw,.inr fun k hm hr => ?_⟩
  have hkl : k≠l := by
    rintro rfl
    exact hf (h hw hm (by simpa using hr))
  simp only [setLink_link,if_neg hkl] at hr ⊢
  exact ⟨hm,hr,id⟩

theorem needs_dropExplicit (j : Nat) : c.KeepsNeeds (c.dropExplicit i) j :=
  (needs_same (f := fun s => { s with startExplicit := false }) ⟨rfl,rfl,rfl,rfl,rfl⟩ j).trans
    (needs_release j)

theorem needs_forcedStop (j : Nat) : c.KeepsNeeds (c.forcedStop i) j :=
  needs_setProp (Svc.forced_same _).dependsOn Svc.forced_sustained j

/-- A service that is given up relies on nothing. -/
theorem needs_giveUp (j : Nat) :
    c.KeepsNeeds (c.setSvc i fun s => { s with desiredState := .stopped }) j :=
  needs_setSvc (f := fun s => { s with desiredState := .stopped }) rfl nofun j

theorem needs_unrecoverableStop (j : Nat) : c.KeepsNeeds (c.unrecoverableStop i) j :=
  (needs_giveUp j).trans (needs_forcedStop j)

theorem needs_propagateFailure (j : Nat) : c.KeepsNeeds (c.propagateFailure i) j :=
  needs_setProp rfl (fun hd => ⟨hd,id,id,fun _ => rfl⟩) j

theorem needs_forceDependent (k j : Nat) : c.KeepsNeeds (c.forceDependent i k) j := by
  unfold forceDependent
  dsimp only
  split_ifs
  · exact (needs_same (f := fun s => { s with stopReason := .depfailed })
      ⟨rfl,rfl,rfl,rfl,rfl⟩ j).trans (needs_unrecoverableStop j)
  · exact needs_forcedStop j
  · exact .refl

theorem needs_unqueueConsole (j : Nat) : c.KeepsNeeds (c.unqueueConsole i) j :=
  (needs_same (f := fun s => { s with waitingForConsole := false })
    ⟨rfl,rfl,rfl,rfl,rfl⟩ j).trans (needs_of_links rfl (fun _ => rfl) fun _ => id)

theorem needs_becomeInactive (j : Nat) : c.KeepsNeeds (c.becomeInactive i) j := by
  have h := needs_same (c := c) (i := i) (f := fun s =>
    { s with serviceState := .stopped, proc := { s.proc with socketOpen := false } })
    ⟨rfl,rfl,rfl,rfl,rfl⟩ j
  unfold becomeInactive
  dsimp only
  split_ifs
  · exact h.trans (needs_dropExplicit j)
  · exact h.trans (needs_of_links rfl (fun _ => rfl) fun _ => id)
  · exact h

theorem needs_waiting (ls : List Nat) (b : Bool) (j : Nat) :
    c.KeepsNeeds (c.setLinks ls fun d => { d with waitingOn := b }) j := by
  refine needs_of_links rfl (fun k => ?_) fun k => ?_
  · rw [setLinks_link]
    split_ifs <;> rfl
  · rw [setLinks_link]
    split_ifs <;> exact id

theorem needs_startCheckDependencies (j : Nat) : c.KeepsNeeds (c.startCheckDependencies i) j :=
  (needs_waiting _ true j).trans (needs_waiting _ true j)

section
variable (f t : Nat) (depType : DependencyType) (place dptPlace : Nat)

/-- The dependencies other than the new one are as before. -/
theorem linkAt_old (hL : c.Linked) {j l : Nat}
    (hl : l ∈ ((c.linkAt f t depType place dptPlace).svc j).dependsOn) :
    j=f ∧ l=c.nextLink ∨ l ∈ (c.svc j).dependsOn ∧
      (c.linkAt f t depType place dptPlace).link l=c.link l := by
  have hold (hm : l ∈ (c.svc j).dependsOn) :
      (c.linkAt f t depType place dptPlace).link l=c.link l := by
    have := hL.below j l hm
    rw [linkAt_link,if_neg (by omega)]
  rw [linkAt_dependsOn] at hl
  split_ifs at hl with hj
  · rcases mem_insertAt.mp hl with hn | hm
    · exact .inl ⟨hj,hn⟩
    · rw [← hj] at hm
      exact .inr ⟨hm,hold hm⟩
  · exact .inr ⟨hl,hold hl⟩

theorem needs_linkAt (hL : c.Linked) (hj : j=f → depType≠.regular) :
    c.KeepsNeeds (c.linkAt f t depType place dptPlace) j := by
  intro hd
  rw [linkAt_svc] at hd
  refine ⟨?_,.inr fun l hl hr => ?_⟩
  · rw [linkAt_svc]
    exact ⟨hd,id,id,id⟩
  · rcases linkAt_old f t depType place dptPlace hL hl with ⟨rfl,rfl⟩ | ⟨hm,hlink⟩
    · rw [linkAt_link,if_pos rfl] at hr
      exact absurd hr (hj rfl)
    · rw [hlink] at hr ⊢
      exact ⟨hm,hr,id⟩

end

/-- A link that goes away is not relied on. -/
theorem needs_unlink (j : Nat) : c.KeepsNeeds (c.unlink l) j := by
  have hdeps {k : Nat} (hk : k ∈ ((c.unlink l).svc j).dependsOn) : k ∈ (c.svc j).dependsOn := by
    rw [unlink_dependsOn] at hk
    split_ifs at hk
    · exact List.mem_of_mem_erase hk
    · exact hk
  intro hw
  rw [unlink_svc] at hw
  refine ⟨?_,.inr fun k hk hr => ⟨hdeps hk,hr,id⟩⟩
  rw [unlink_svc]
  exact ⟨hw,id,id,id⟩

theorem needs_activate (hj : j≠i) : c.KeepsNeeds (c.activate i) j := by
  refine fun hd => ⟨?_,.inr fun l hm hr => ?_⟩
  · simp only [activate,setProp_svc,if_neg hj,setLinks_svc] at hd ⊢
    exact .refl hd
  · simp only [activate,setProp_svc,if_neg hj,setLinks_svc,setProp_link,setLinks_link] at hm hr ⊢
    split_ifs at hr ⊢ <;> simp_all

theorem needs_rmDep (j : Nat) : c.KeepsNeeds (c.rmDep l) j := by
  unfold rmDep
  split
  · exact (needs_unlink j).trans (needs_release j)
  · exact needs_unlink j

end Core

namespace World

/-- No service loses what it relies on, unless it is no longer wanted. -/
def KeepsNeeds (w w' : World) : Prop := ∀ j, w.core.KeepsNeeds w'.core j

variable {w w' w'' : World} {i l : Nat}

theorem KeepsNeeds.refl (w : World) : KeepsNeeds w w := fun _ => .refl

theorem KeepsNeeds.trans (h : KeepsNeeds w w') (h' : KeepsNeeds w' w'') : KeepsNeeds w w'' :=
  fun j => (h j).trans (h' j)

theorem needs_foldl {α : Type} {f : World → α → World} (hf : ∀ w x, KeepsNeeds w (f w x)) (xs : List α)
    (w : World) : KeepsNeeds w (xs.foldl f w) := by
  induction xs generalizing w with
  | nil => exact .refl w
  | cons x xs ih => exact (hf w x).trans (ih _)

/-- An update of fields that are neither records nor links. -/
theorem needs_queues (w : World) (f : Core → Core) (hs : (f w.core).svc=w.core.svc)
    (hl : (f w.core).link=w.core.link) : KeepsNeeds w (w.onCore f) :=
  fun _ => Core.needs_of_links hs (fun l => by rw [onCore_core,hl]) fun l => by
    rw [onCore_core,hl]
    exact id

theorem needs_setSvc (w : World) (i : Nat) (f : Svc → Svc)
    (h : (w.core.svc i).SameNeeds (f (w.core.svc i))) :
    KeepsNeeds w (w.onCore fun c => c.setSvc i f) := Core.needs_same h

theorem needs_setProp (w : World) (i : Nat) (f : Svc → Svc) (q : Bool)
    (hd : (f (w.core.svc i)).dependsOn=(w.core.svc i).dependsOn)
    (hs : (f (w.core.svc i)).desiredState=.started →
      (w.core.svc i).Sustained (f (w.core.svc i))) :
    KeepsNeeds w (w.onCore fun c => c.setProp i f q) := Core.needs_setProp hd hs

theorem needs_giveUp (w : World) (i : Nat) :
    KeepsNeeds w (w.onCore fun c => c.setSvc i fun s => { s with desiredState := .stopped }) :=
  fun j => Core.needs_giveUp j

theorem needs_repinned (h : Repinned w w') : KeepsNeeds w w' := by
  have hl : w'.core.link=w.core.link := by rw [h.core]
  intro j
  refine Core.needs_of_svc hl (by rw [h.svc j]) fun hd => ?_
  rw [h.svc j] at hd ⊢
  exact ⟨hd,id,id,id⟩

theorem needs_addTransitionQueue (w : World) (i : Nat) : KeepsNeeds w (w.addTransitionQueue i) :=
  needs_queues (w.push (.addTransitionQueue i)) _ rfl rfl

theorem needs_dependencyStarted (w : World) (i : Nat) : KeepsNeeds w (w.dependencyStarted i) := by
  unfold dependencyStarted
  dsimp only
  split
  · exact needs_addTransitionQueue w i
  · exact .refl w

theorem needs_dependentStopped (w : World) (i : Nat) : KeepsNeeds w (w.dependentStopped i) := by
  unfold dependentStopped
  dsimp only
  split
  · exact needs_addTransitionQueue w i
  · exact .refl w

theorem needs_waitingLink (w : World) (l : Nat) (b : Bool) :
    KeepsNeeds w (w.onCore fun c => c.setLink l fun d => { d with waitingOn := b }) := by
  simp only [Core.setLink_eq]
  exact Core.needs_waiting [l] b

theorem needs_clearWait (w : World) (l : Nat) : KeepsNeeds w (w.clearWait l) :=
  (needs_waitingLink w l false).trans (needs_dependencyStarted _ _)

theorem needs_notifyStarted (w : World) (l : Nat) : KeepsNeeds w (w.notifyStarted l) := by
  unfold notifyStarted
  split
  · exact (needs_dependencyStarted w _).trans (needs_waitingLink _ l false)
  · exact .refl w

/-- A soft link is broken: nobody relies on it. -/
theorem needs_breakSoft (w : World) (i l : Nat) : KeepsNeeds w (w.breakSoft i l) := by
  have hdrop (u : World) (hu : (u.core.link l).isHard=false) :
      KeepsNeeds u (u.onCore fun c => c.dropLink l i) := by
    refine fun j => Core.needs_dropLink fun _ _ hr => ?_
    simp [Link.isHard,hr] at hu
  unfold breakSoft
  dsimp only
  split_ifs with hh hw ha ha
  · exact .refl w
  · refine (needs_clearWait w l).trans (hdrop _ ?_)
    have hreg : (w.core.link l).depType≠.regular := by
      intro hr
      simp [Link.isHard,hr] at hh
    simp [Link.isHard,hreg]
  · exact hdrop w (by simpa using hh)
  · exact needs_clearWait w l
  · exact .refl w

theorem needs_failStart (w : World) (i : Nat) (b : Bool) : KeepsNeeds w (w.failStart i b) :=
  (needs_giveUp (w.push (.failedToStart i b)) i).trans fun j => Core.needs_unqueueConsole j

/-- No state changes while the start of the dependents is cancelled, and no link comes to hold. -/
theorem cancelDependent_states (w : World) (i l : Nat) :
    (∀ j, ((w.cancelDependent i l).core.svc j).serviceState=(w.core.svc j).serviceState) ∧
    ∀ k, ((w.cancelDependent i l).core.link k).holdingAcq=true →
      (w.core.link k).holdingAcq=true := by
  have hdrop (u : World) (b : Bool) :
      (∀ j, ((if b then u.onCore fun c => c.dropLink l i else u).core.svc j).serviceState =
        (u.core.svc j).serviceState) ∧
      ∀ k, ((if b then u.onCore fun c => c.dropLink l i else u).core.link k).holdingAcq=true →
        (u.core.link k).holdingAcq=true := by
    cases b with
    | false => exact ⟨fun _ => rfl,fun _ => id⟩
    | true =>
      refine ⟨fun j => ?_,fun k => ?_⟩
      · by_cases hj : j=i
        · simp [hj,(Svc.released_same _).serviceState]
        · simp [hj]
      · by_cases hk : k=l <;> simp [hk]
  have hfail (j k : Nat) :
      ((w.core.propagateFailure j).svc k).serviceState=(w.core.svc k).serviceState := by
    by_cases hk : k=j <;> simp [Core.propagateFailure,hk]
  unfold cancelDependent
  dsimp only
  refine ⟨fun j => ((hdrop _ _).1 j).trans ?_,fun k hk => ?_⟩
  · split_ifs
    · exact hfail _ j
    · rfl
    · simp
    · rfl
  · replace hk := (hdrop _ _).2 k hk
    split_ifs at hk
    · simpa [Core.propagateFailure] using hk
    · exact hk
    · by_cases hkl : k=l <;> simpa [hkl] using hk
    · exact hk

/-- A dependent that loses its link is marked as failing, or is not wanted. -/
theorem needs_cancelDependent (hL : w.core.Linked) (h : (w.core.link l).depType=.regular →
    (w.core.link l).holdingAcq=true → (w.core.svc (w.core.link l).from_).serviceState=.starting ∨
      (w.core.svc (w.core.link l).from_).desiredState≠.started) :
    KeepsNeeds w (w.cancelDependent i l) := by
  have hdrop (u : World) (hu : KeepsNeeds w u) (hf : Frame w u) (hn : (w.core.link l).depType=.regular →
      (w.core.link l).holdingAcq=true → (u.core.svc (w.core.link l).from_).desiredState=.started →
        (u.core.svc (w.core.link l).from_).propFailure=true) :
      KeepsNeeds w (if (w.core.link l).holdingAcq then u.onCore fun c => c.dropLink l i else u) := by
    split
    · next hh =>
      refine hu.trans fun j => Core.needs_dropLink fun hd hl hr => ?_
      rw [hf.core.graph.depType] at hr
      obtain rfl : (w.core.link l).from_=j := by
        rw [← hf.core.graph.from_]
        exact ((hL.of_graph hf.core.graph).dependsOn j l hl).1
      exact hn hr hh hd
    · exact hu
  unfold cancelDependent
  dsimp only
  refine hdrop _ ?_ ?_ fun hr hh => ?_
  · split_ifs
    · exact fun j => Core.needs_propagateFailure j
    · exact .refl w
    · exact needs_clearWait w l
    · exact .refl w
  · split_ifs
    · exact frame_onCore w (Core.frame_propagateFailure _ _)
    · exact .refl w
    · exact frame_clearWait w l
    · exact .refl w
  · rw [if_pos (.inl hr)]
    split_ifs with hs
    · intro _
      simp [Core.propagateFailure]
    · intro hd
      exact absurd hd ((h hr hh).resolve_left hs)

theorem needs_cancelDependents (ls : List Nat) (hL : w.core.Linked)
    (h : ∀ l ∈ ls, (w.core.link l).depType=.regular → (w.core.link l).holdingAcq=true →
      (w.core.svc (w.core.link l).from_).serviceState=.starting ∨
        (w.core.svc (w.core.link l).from_).desiredState≠.started) :
    KeepsNeeds w (ls.foldl (fun w l => w.cancelDependent i l) w) := by
  induction ls generalizing w with
  | nil => exact .refl w
  | cons l ls ih =>
    have hk := needs_cancelDependent (i := i) hL (h l List.mem_cons_self)
    have hg := (frame_cancelDependent w i l).core.graph
    obtain ⟨hst,hheld⟩ := cancelDependent_states w i l
    refine hk.trans (ih (hL.of_graph hg) fun k hkm hr hh => ?_)
    rw [hg.depType] at hr
    rw [hg.from_,hst]
    rcases h k (List.mem_cons_of_mem l hkm) hr (hheld k hh) with hs | hd
    · exact .inl hs
    · exact .inr fun hd' => hd (hk _ hd').svc.wanted

/-- When `i` fails to start, it is not wanted any longer, and others are told if they relied
on it. -/
theorem needs_cancelStart (hL : w.core.Linked) (h : w.core.MayFail i) (b : Bool) :
    KeepsNeeds w (w.cancelStart i b) ∧ ((w.cancelStart i b).core.svc i).desiredState≠.started := by
  set w1 := w.failStart i b with hw1
  set w2 := if (w1.core.svc i).startExplicit then w1.onCore fun c => c.dropExplicit i else w1
    with hw2
  have hk1 : KeepsNeeds w w1 := needs_failStart w i b
  have hf1 : Frame w w1 := frame_failStart w i b
  have hstate1 (j : Nat) : (w1.core.svc j).serviceState=(w.core.svc j).serviceState := by
    by_cases hj : j=i <;> simp [hw1,failStart,Core.unqueueConsole,hj]
  have hd1 : (w1.core.svc i).desiredState≠.started := by
    simp [hw1,failStart,Core.unqueueConsole]
  have hk2 : KeepsNeeds w1 w2 := by
    rw [hw2]
    split
    · exact fun j => Core.needs_dropExplicit j
    · exact .refl w1
  have hf2 : Frame w1 w2 := by
    rw [hw2]
    split
    · exact frame_onCore w1 (Core.frame_dropExplicit _ i)
    · exact .refl w1
  have hstate2 (j : Nat) : (w2.core.svc j).serviceState=(w1.core.svc j).serviceState := by
    rw [hw2]
    split
    · by_cases hj : j=i
      · simp [hj,(Svc.released_same _).serviceState]
      · simp [hj]
    · rfl
  have hheld2 (k : Nat) : w2.core.link k=w.core.link k := by
    rw [hw2]
    split <;> simp [hw1,failStart,Core.unqueueConsole]
  have hg := (hf1.trans hf2).core.graph
  have hk3 := needs_cancelDependents (i := i) (w2.core.svc i).dependents (hL.of_graph hg)
    fun l hl hr hh => by
      rw [hg.dependents] at hl
      rw [hheld2] at hr hh
      rw [hheld2,hstate2,hstate1]
      rcases h l hl hr hh with hs | hd
      · exact .inl hs
      · exact .inr fun hd' => hd ((hk1.trans hk2) _ hd').svc.wanted
  have hk4 := needs_setSvc ((w2.core.svc i).dependents.foldl (fun w l => w.cancelDependent i l) w2)
    i (fun s => { s with startFailed := true, pinnedStarted := false }) ⟨rfl,rfl,rfl,rfl,rfl⟩
  have hk := (hk2.trans hk3).trans hk4
  exact ⟨hk1.trans hk,fun hd => hd1 (hk i hd).svc.wanted⟩

theorem needs_initiateStart (w : World) (i : Nat) : KeepsNeeds w (w.initiateStart i) := by
  have h : KeepsNeeds w (((w.push (.initiateStart i)).onCore fun c => c.setSvc i fun s =>
      { s with
        startFailed := false
        startSkipped := false
        serviceState := .starting
        waitingForDeps := true }).onCore fun c => c.startCheckDependencies i) :=
    (needs_setSvc (w.push (.initiateStart i)) i _ ⟨rfl,rfl,rfl,rfl,rfl⟩).trans
      fun j => Core.needs_startCheckDependencies j
  unfold initiateStart
  dsimp only
  split
  · exact h.trans (needs_addTransitionQueue _ i)
  · exact h

theorem needs_signalDependencies (w : World) (i : Nat) : KeepsNeeds w (w.signalDependencies i) :=
  needs_foldl (fun w _ => needs_dependentStopped w _) _ w

theorem needs_becomeStopped (w : World) (i : Nat) : KeepsNeeds w (w.becomeStopped i) := by
  have h0 := needs_setSvc w i (fun s => { s with forceStop := false }) ⟨rfl,rfl,rfl,rfl,rfl⟩
  unfold becomeStopped
  dsimp only
  split
  · exact ((h0.trans (needs_signalDependencies _ i)).trans
      (needs_setSvc _ i _ ⟨rfl,rfl,rfl,rfl,rfl⟩)).trans (needs_initiateStart _ i)
  · exact ((h0.trans (needs_foldl (fun w l => needs_breakSoft w i l) _ _)).trans
      (needs_signalDependencies _ i)).trans fun j => Core.needs_becomeInactive j

theorem needs_becomeStarted (w : World) (i : Nat) : KeepsNeeds w (w.becomeStarted i) := by
  have h := needs_setSvc (w.push (.logServiceStarted i)) i (fun s =>
    { s with serviceState := .started }) ⟨rfl,rfl,rfl,rfl,rfl⟩
  unfold becomeStarted
  dsimp only
  split
  · exact h
  · exact h.trans (needs_foldl (fun w l => needs_notifyStarted w l) _ _)

theorem needs_beginStop (w : World) (i : Nat) (all : Bool) : KeepsNeeds w (w.beginStop i all) := by
  have h := needs_setSvc w i (fun s => { s with serviceState := .stopping, waitingForDeps := !all })
    ⟨rfl,rfl,rfl,rfl,rfl⟩
  unfold beginStop
  dsimp only
  split
  · exact h.trans (needs_addTransitionQueue _ i)
  · exact h

theorem needs_interrupted (w : World) (i : Nat) :
    KeepsNeeds w (w.onCore fun c => c.setSvc i Svc.interrupted) :=
  have hk := (w.core.svc i).interrupted_kept
  needs_setSvc w i _ ⟨hk.desiredState,hk.propRelease,hk.propRequire,hk.propFailure,hk.dependsOn⟩

/-- Requiring the dependencies does no harm, and each of them is held from then on. -/
theorem needs_requireDependencies (w : World) (i : Nat) :
    KeepsNeeds w (w.requireDependencies i) ∧ (w.requireDependencies i).core.Holds i := by
  have hg := (frame_requireDependencies w i).core.graph
  unfold Core.Holds
  rw [hg.dependsOn]
  simp only [hg.depType]
  unfold requireDependencies
  have hloop (ls : List Nat) (u : World) (hu : ∀ l, (u.core.link l).depType=(w.core.link l).depType) :
      KeepsNeeds u (ls.foldl (fun w l =>
        if (w.core.link l).isOnlyOrdering then w else w.onCore fun c => c.acquire l) u) ∧
      ∀ l, (u.core.link l).holdingAcq=true ∨ l ∈ ls ∧ (w.core.link l).depType=.regular →
        ((ls.foldl (fun w l => if (w.core.link l).isOnlyOrdering then w
          else w.onCore fun c => c.acquire l) u).core.link l).holdingAcq=true := by
    induction ls generalizing u with
    | nil => exact ⟨.refl u,fun l hl => hl.resolve_right (by simp)⟩
    | cons k ls ih =>
      rw [List.foldl_cons]
      by_cases ho : (u.core.link k).isOnlyOrdering=true
      · rw [if_pos ho]
        obtain ⟨h1,h2⟩ := ih u hu
        refine ⟨h1,fun l hl => h2 l (hl.imp_right fun ⟨hm,hr⟩ => ⟨?_,hr⟩)⟩
        refine (List.mem_cons.mp hm).resolve_left ?_
        rintro rfl
        rw [← hu] at hr
        simp [Link.isOnlyOrdering,hr] at ho
      · rw [if_neg ho]
        obtain ⟨h1,h2⟩ := ih (u.onCore fun c => c.acquire k) fun l => by
          rw [← hu]
          exact (Core.frame_acquire u.core k).graph.depType l
        refine ⟨KeepsNeeds.trans (fun j => Core.needs_acquire j) h1,fun l hl => h2 l ?_⟩
        by_cases hlk : l=k
        · simp [hlk]
        · simpa [hlk] using hl
  obtain ⟨h1,h2⟩ := hloop (w.core.svc i).dependsOn w fun _ => rfl
  exact ⟨h1,fun l hl hr => h2 l (.inr ⟨hl,hr⟩)⟩

end World
end Dinit
