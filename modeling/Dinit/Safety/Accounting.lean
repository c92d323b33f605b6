import Dinit.Framework.Count
import Dinit.Run.Graph

namespace Dinit

open Framework Framework.Comp World Relation

namespace Core

/-- How many dependents hold `i`. -/
def held (c : Core) (i : Nat) : Nat := (c.svc i).dependents.countP fun l => (c.link l).holdingAcq

/-- The requirements of `i` that are accounted for: its explicit activation, and the
links that hold it. -/
def accounts (c : Core) (i : Nat) : Nat := (c.svc i).startExplicit.toNat+c.held i

/-- `required_by` of every service is what its activation and its dependents account for. -/
def Accounted (c : Core) : Prop := ∀ i, (c.svc i).requiredBy=c.accounts i

/-- By how much `required_by` of `i` exceeds what accounts for it. -/
def balance (c : Core) (i : Nat) : Int := (c.svc i).requiredBy-c.accounts i

theorem accounted_iff (c : Core) : c.Accounted ↔ ∀ i, c.balance i=0 := by
  unfold Accounted balance
  constructor
  · intro h i
    rw [h i]
    omega
  · intro h i
    have := h i
    omega

variable {c : Core} {i l : Nat}

/-- A record update that has nothing to do with requirements. -/
theorem balance_setSvc {f : Svc → Svc} (hr : (f (c.svc i)).requiredBy=(c.svc i).requiredBy)
    (he : (f (c.svc i)).startExplicit=(c.svc i).startExplicit)
    (hd : (f (c.svc i)).dependents=(c.svc i).dependents) (j : Nat) :
    (c.setSvc i f).balance j=c.balance j := by
  by_cases hj : j=i
  · subst hj
    simp [balance,accounts,held,hr,he,hd]
  · simp [balance,accounts,held,hj]

theorem balance_setProp {f : Svc → Svc} {q : Bool}
    (hr : (f (c.svc i)).requiredBy=(c.svc i).requiredBy)
    (he : (f (c.svc i)).startExplicit=(c.svc i).startExplicit)
    (hd : (f (c.svc i)).dependents=(c.svc i).dependents) (j : Nat) :
    (c.setProp i f q).balance j=c.balance j := by
  by_cases hj : j=i
  · subst hj
    simp [balance,accounts,held,hr,he,hd]
  · simp [balance,accounts,held,hj]

/-- Records and held links are the same. -/
theorem balance_same {c' : Core} (hs : c'.svc=c.svc)
    (hl : ∀ l, (c'.link l).holdingAcq=(c.link l).holdingAcq) (j : Nat) :
    c'.balance j=c.balance j := by
  simp [balance,accounts,held,hs,hl]

theorem released_requiredBy (s : Svc) : s.released.requiredBy=s.requiredBy-1 := by
  unfold Svc.released
  split_ifs <;> rfl

theorem released_startExplicit (s : Svc) : s.released.startExplicit=s.startExplicit := by
  unfold Svc.released
  split_ifs <;> rfl

theorem balance_release (j : Nat) :
    (c.release i).balance j=c.balance j-if j=i then 1 else 0 := by
  by_cases hj : j=i
  · subst hj
    simp [balance,accounts,held,released_requiredBy,released_startExplicit,
      (Svc.released_same _).dependents]
    omega
  · simp [balance,accounts,held,hj]

theorem balance_require (j : Nat) :
    (c.require i).balance j=c.balance j+if j=i then 1 else 0 := by
  by_cases hj : j=i
  · subst hj
    simp [balance,accounts,held,Svc.required]
    omega
  · simp [balance,accounts,held,hj]

/-- Setting or clearing the mark of a link of `i` that is not so yet. -/
theorem balance_mark (hL : c.Linked) (hl : l ∈ (c.svc i).dependents) (b : Bool)
    (hb : (c.link l).holdingAcq=!b) (j : Nat) :
    (c.setLink l fun d => { d with holdingAcq := b }).balance j =
      c.balance j+if j=i then (if b then -1 else 1) else 0 := by
  by_cases hj : j=i
  · subst hj
    have hc : (c.setLink l fun d => { d with holdingAcq := b }).held j
        +(if (c.link l).holdingAcq then 1 else 0)=c.held j+if b then 1 else 0 := by
      have h := countP_change (hL.dependents_nodup j) hl
        (p := fun k => (c.link k).holdingAcq)
        (q := fun k => ((c.setLink l fun d => { d with holdingAcq := b }).link k).holdingAcq)
        (by intro k hk; simp [hk])
      simpa [held] using h
    simp only [balance,accounts,setLink_svc,if_true]
    rw [hb] at hc
    cases b <;> simp at hc ⊢ <;> omega
  · have hh : (c.setLink l fun d => { d with holdingAcq := b }).held j=c.held j := by
      apply List.countP_congr
      intro k hk
      have hne : k≠l := by
        rintro rfl
        exact hj ((hL.dependents j k hk).1.symm.trans (hL.dependents i k hl).1)
      simp [hne]
    simp [balance,accounts,hh,hj]

theorem balance_dropLink (hL : c.Linked) (hl : l ∈ (c.svc i).dependents)
    (hh : (c.link l).holdingAcq=true) (j : Nat) : (c.dropLink l i).balance j=c.balance j := by
  rw [dropLink,balance_release,balance_mark hL hl false hh]
  by_cases hj : j=i
  · simp [hj]
  · simp [hj]

theorem balance_acquire (hL : c.Linked) (hl : l ∈ (c.svc (c.link l).to_).dependents) (j : Nat) :
    (c.acquire l).balance j =
      c.balance j+if j=(c.link l).to_ ∧ (c.link l).holdingAcq then 1 else 0 := by
  have hL' : (c.require (c.link l).to_).Linked := hL.of_graph (frame_require c _).graph
  have hl' : l ∈ ((c.require (c.link l).to_).svc (c.link l).to_).dependents := by
    rw [(frame_require c _).graph.dependents]
    exact hl
  by_cases hh : (c.link l).holdingAcq=true
  · have hsame : (c.acquire l).balance j=(c.require (c.link l).to_).balance j := by
      apply balance_same
      · rfl
      · intro k
        by_cases hk : k=l <;> simp [hk,hh]
    rw [hsame,balance_require]
    simp [hh]
  · have hh' : (c.link l).holdingAcq=false := by simpa using hh
    rw [acquire,balance_mark hL' hl' true (by simpa using hh'),balance_require]
    by_cases hj : j=(c.link l).to_
    · simp only [hj,hh',if_true,Bool.false_eq_true,and_false,if_false]
      omega
    · simp [hj]

theorem balance_dropExplicit (he : (c.svc i).startExplicit=true) (j : Nat) :
    (c.dropExplicit i).balance j=c.balance j := by
  rw [dropExplicit,balance_release]
  by_cases hj : j=i
  · subst hj
    simp [balance,accounts,held,he]
    omega
  · simp [balance,accounts,held,hj]

theorem softDependents_spec {k : Nat} (hk : k ∈ c.softDependents i) :
    k ∈ (c.svc i).dependents ∧ (c.link k).holdingAcq=false := by
  obtain ⟨hk,hs⟩ := List.mem_filter.mp hk
  simp only [Bool.and_eq_true,Bool.not_eq_true'] at hs
  exact ⟨hk,hs.1.2⟩

/-- The soft dependents that `do_start` attaches are counted. -/
theorem held_activate (hL : c.Linked) (j : Nat) :
    (c.activate i).held j=c.held j+if j=i then (c.softDependents i).length else 0 := by
  have hheld : (c.activate i).held j=(c.svc j).dependents.countP fun l =>
      decide (l ∈ c.softDependents i) || (c.link l).holdingAcq := by
    unfold held
    rw [(frame_activate c i).graph.dependents]
    apply List.countP_congr
    intro l _
    simp only [activate,setProp_link,setLinks_link]
    by_cases hl : l ∈ c.softDependents i <;> simp [hl]
  rw [hheld]
  by_cases hj : j=i
  · subst hj
    rw [countP_or _ _ _ fun l _ hl => (softDependents_spec (by simpa using hl)).2,if_pos rfl]
    have hfilter : ((c.svc j).dependents.filter fun l => decide (l ∈ c.softDependents j)) =
        c.softDependents j := by
      apply List.filter_congr
      intro l hl
      rw [Bool.eq_iff_iff,decide_eq_true_eq,softDependents,List.mem_filter]
      exact and_iff_right hl
    rw [hfilter]
    rfl
  · rw [if_neg hj]
    apply List.countP_congr
    intro l hl
    have hn : l ∉ c.softDependents i := by
      intro hs
      have hi := (hL.dependents i l (softDependents_spec hs).1).1
      exact hj ((hL.dependents j l hl).1.symm.trans hi)
    simp [hn]

theorem balance_activate (hL : c.Linked) (j : Nat) : (c.activate i).balance j=c.balance j := by
  have hr : ((c.activate i).svc j).requiredBy =
      (c.svc j).requiredBy+if j=i then ((c.softDependents i).length : Int) else 0 := by
    by_cases hj : j=i
    · subst hj
      simp [activate]
    · simp [activate,hj]
  have he : ((c.activate i).svc j).startExplicit=(c.svc j).startExplicit := by
    by_cases hj : j=i
    · subst hj
      simp [activate]
    · simp [activate,hj]
  have hh := held_activate (i := i) hL j
  simp only [balance,accounts,hr,he,hh]
  split <;> push_cast <;> omega

theorem balance_becomeInactive (j : Nat) : (c.becomeInactive i).balance j=c.balance j := by
  unfold becomeInactive
  dsimp only
  have h := balance_setSvc (c := c) (i := i) (f := fun s =>
    { s with serviceState := .stopped, proc := { s.proc with socketOpen := false } }) rfl rfl rfl j
  split_ifs with he
  · rw [balance_dropExplicit he,h]
  · exact h
  · exact h

theorem balance_linkAt (hL : c.Linked) (f t : Nat) (depType : DependencyType)
    (place dptPlace j : Nat) : (c.linkAt f t depType place dptPlace).balance j=c.balance j := by
  have hr : ((c.linkAt f t depType place dptPlace).svc j).requiredBy=(c.svc j).requiredBy := by
    simp only [linkAt,setSvc_svc,setLink_svc]
    split_ifs <;> simp_all
  have he : ((c.linkAt f t depType place dptPlace).svc j).startExplicit=(c.svc j).startExplicit := by
    simp only [linkAt,setSvc_svc,setLink_svc]
    split_ifs <;> simp_all
  have hold (i : Nat) : (c.svc i).dependents.countP
      (fun l => ((c.linkAt f t depType place dptPlace).link l).holdingAcq)=c.held i := by
    apply List.countP_congr
    intro l hl
    have hne : l≠c.nextLink := by
      have := hL.dependents_below hl
      omega
    rw [linkAt_link,if_neg hne]
  have hh : (c.linkAt f t depType place dptPlace).held j=c.held j := by
    rw [held,linkAt_dependents]
    split_ifs with hj
    · rw [(perm_insertAt _ _ _).countP_eq,List.countP_cons_of_neg (by simp),hold,hj]
    · exact hold j
  simp only [balance,accounts,hr,he,hh]

theorem balance_unlink (hl : l ∈ (c.svc (c.link l).to_).dependents) (j : Nat) :
    (c.unlink l).balance j =
      c.balance j+if j=(c.link l).to_ ∧ (c.link l).holdingAcq then 1 else 0 := by
  have hr : ((c.unlink l).svc j).requiredBy=(c.svc j).requiredBy := by
    simp only [unlink,setSvc_svc]
    split_ifs <;> simp_all
  have he : ((c.unlink l).svc j).startExplicit=(c.svc j).startExplicit := by
    simp only [unlink,setSvc_svc]
    split_ifs <;> simp_all
  have hh : (c.unlink l).held j+(if j=(c.link l).to_ ∧ (c.link l).holdingAcq then 1 else 0) =
      c.held j := by
    simp only [held,unlink_dependents,unlink_link]
    by_cases hj : j=(c.link l).to_
    · subst hj
      simpa using countP_erase_add hl fun k => (c.link k).holdingAcq
    · simp [hj]
  simp only [balance,accounts,hr,he]
  split_ifs at hh ⊢ <;> omega

theorem balance_rmDep (hl : l ∈ (c.svc (c.link l).to_).dependents) (j : Nat) :
    (c.rmDep l).balance j=c.balance j := by
  unfold rmDep
  split
  · next hh =>
    rw [balance_release,balance_unlink hl]
    by_cases hj : j=(c.link l).to_ <;> simp [hj,hh]
  · next hh =>
    rw [balance_unlink hl]
    simp [hh]

theorem balance_addDepAt (hL : c.Linked) (f t : Nat) (depType : DependencyType) (place j : Nat) :
    (c.addDepAt f t depType place).balance j=c.balance j := by
  unfold addDepAt
  dsimp only
  split
  · have hL' := Linked.linkAt c f t depType place (c.svc t).dependents.length hL
    rw [balance_acquire hL' (by simp),balance_linkAt hL]
    simp
  · exact balance_linkAt hL f t depType place _ j

/-- `do_propagation` of `i` would require a dependency that it holds already. -/
def RequiresTwice (c : Core) (i : Nat) : Prop :=
  (c.svc i).propRequire=true ∧ ∃ l ∈ (c.svc i).dependsOn,
    (c.link l).isOnlyOrdering=false ∧ (c.link l).holdingAcq=true

instance (c : Core) (i : Nat) : Decidable (c.RequiresTwice i) :=
  inferInstanceAs (Decidable (_ ∧ _))

end Core

namespace World

variable {w : World} {i l : Nat}

/-- `required_by` and what accounts for it have moved together, in the states in which
calls were made in between too. -/
structure Balanced (w w' : World) : Prop where
  core : ∀ j, w'.core.balance j=w.core.balance j
  calls : ∃ t, w'.trace=t++w.trace ∧ ∀ e ∈ t, ∀ j, e.2.balance j=w.core.balance j

theorem Balanced.refl (w : World) : Balanced w w := ⟨fun _ => rfl,[],rfl,by simp⟩

theorem Balanced.trans {w w' w'' : World} (h : Balanced w w') (h' : Balanced w' w'') :
    Balanced w w'' := by
  obtain ⟨t,ht,hb⟩ := h.calls
  obtain ⟨t',ht',hb'⟩ := h'.calls
  refine ⟨fun j => (h'.core j).trans (h.core j),t'++t,by rw [ht',ht,List.append_assoc],?_⟩
  intro e he j
  rcases List.mem_append.mp he with he | he
  · exact (hb' e he j).trans (h.core j)
  · exact hb e he j

theorem balanced_onCore (w : World) (f : Core → Core)
    (h : ∀ j, (f w.core).balance j=w.core.balance j) : Balanced w (w.onCore f) :=
  ⟨h,[],rfl,by simp⟩

theorem balanced_push (w : World) (k : Call) : Balanced w (w.push k) :=
  ⟨fun _ => rfl,[(k,w.core)],rfl,by simp⟩

theorem balanced_setSvc (w : World) (i : Nat) (f : Svc → Svc)
    (hr : (f (w.core.svc i)).requiredBy=(w.core.svc i).requiredBy)
    (he : (f (w.core.svc i)).startExplicit=(w.core.svc i).startExplicit)
    (hd : (f (w.core.svc i)).dependents=(w.core.svc i).dependents) :
    Balanced w (w.onCore fun c => c.setSvc i f) :=
  balanced_onCore w _ (Core.balance_setSvc hr he hd)

theorem balanced_setProp (w : World) (i : Nat) (f : Svc → Svc) (q : Bool)
    (hr : (f (w.core.svc i)).requiredBy=(w.core.svc i).requiredBy)
    (he : (f (w.core.svc i)).startExplicit=(w.core.svc i).startExplicit)
    (hd : (f (w.core.svc i)).dependents=(w.core.svc i).dependents) :
    Balanced w (w.onCore fun c => c.setProp i f q) :=
  balanced_onCore w _ (Core.balance_setProp hr he hd)

/-- An update of fields that are neither records nor links. -/
theorem balanced_queues (w : World) (f : Core → Core) (hs : (f w.core).svc=w.core.svc)
    (hl : (f w.core).link=w.core.link) : Balanced w (w.onCore f) :=
  balanced_onCore w f (Core.balance_same hs fun l => by rw [hl])

theorem balanced_repinned {w w' : World} (h : Repinned w w') : Balanced w w' := by
  refine ⟨fun i => ?_,[],by simp [h.trace],by simp⟩
  unfold Core.balance Core.accounts Core.held
  rw [h.svc i,h.core]

/-- A loop over dependents of `i`, each round of which is balanced. -/
theorem balanced_foldl {f : World → Nat → World} (hf : ∀ w l, Frame w (f w l))
    (hb : ∀ w l, w.core.Linked → l ∈ (w.core.svc i).dependents → Balanced w (f w l))
    {ls : List Nat} (hL : w.core.Linked) (hls : ∀ l ∈ ls, l ∈ (w.core.svc i).dependents) :
    Balanced w (ls.foldl f w) := by
  induction ls generalizing w with
  | nil => exact .refl w
  | cons l ls ih =>
    have hg := (hf w l).core.graph
    refine (hb w l hL (hls l (by simp))).trans (ih (hL.of_graph hg) ?_)
    intro k hk
    rw [hg.dependents]
    exact hls k (by simp [hk])

theorem balanced_addTransitionQueue (w : World) (i : Nat) : Balanced w (w.addTransitionQueue i) :=
  (balanced_push w (.addTransitionQueue i)).trans (balanced_queues _ _ rfl rfl)

theorem balanced_dependencyStarted (w : World) (i : Nat) : Balanced w (w.dependencyStarted i) := by
  unfold dependencyStarted
  dsimp only
  split
  · exact balanced_addTransitionQueue w i
  · exact .refl w

theorem balanced_dependentStopped (w : World) (i : Nat) : Balanced w (w.dependentStopped i) := by
  unfold dependentStopped
  dsimp only
  split
  · exact balanced_addTransitionQueue w i
  · exact .refl w

theorem balanced_waiting (w : World) (l : Nat) (b : Bool) :
    Balanced w (w.onCore fun c => c.setLink l fun d => { d with waitingOn := b }) := by
  refine balanced_onCore w _ (Core.balance_same rfl ?_)
  intro k
  by_cases hk : k=l <;> simp [hk]

theorem balanced_clearWait (w : World) (l : Nat) : Balanced w (w.clearWait l) :=
  (balanced_waiting w l false).trans (balanced_dependencyStarted _ _)

theorem balanced_notifyStarted (w : World) (l : Nat) : Balanced w (w.notifyStarted l) := by
  unfold notifyStarted
  split
  · exact (balanced_dependencyStarted w _).trans (balanced_waiting _ l false)
  · exact .refl w

theorem balanced_dropLink (hL : w.core.Linked) (hl : l ∈ (w.core.svc i).dependents)
    (hh : (w.core.link l).holdingAcq=true) : Balanced w (w.onCore fun c => c.dropLink l i) :=
  balanced_onCore w _ (Core.balance_dropLink hL hl hh)

theorem balanced_breakSoft (hL : w.core.Linked) (hl : l ∈ (w.core.svc i).dependents) :
    Balanced w (w.breakSoft i l) := by
  unfold breakSoft
  dsimp only
  split_ifs with hh ha hw hw
  · exact .refl w
  · have hg := (frame_clearWait w l).core.graph
    refine (balanced_clearWait w l).trans (balanced_dropLink (hL.of_graph hg) ?_ ?_)
    · rw [hg.dependents]
      exact hl
    · simpa using ha
  · exact balanced_dropLink hL hl ha
  · exact balanced_clearWait w l
  · exact .refl w

theorem balanced_cancelDependent (hL : w.core.Linked) (hl : l ∈ (w.core.svc i).dependents) :
    Balanced w (w.cancelDependent i l) := by
  -- what is done before the link is dropped
  have hdrop (u : World) (hf : Frame w u) (hb : Balanced w u)
      (hh : (u.core.link l).holdingAcq=(w.core.link l).holdingAcq) :
      Balanced w (if (w.core.link l).holdingAcq then u.onCore fun c => c.dropLink l i else u) := by
    split
    · next ha =>
      refine hb.trans (balanced_dropLink (hL.of_graph hf.core.graph) ?_ (hh.trans ha))
      rw [hf.core.graph.dependents]
      exact hl
    · exact hb
  unfold cancelDependent
  dsimp only
  apply hdrop
  · split_ifs
    · exact frame_onCore w (Core.frame_propagateFailure _ _)
    · exact .refl w
    · exact frame_clearWait w l
    · exact .refl w
  · split_ifs
    · exact balanced_setProp w _ (fun s => { s with propFailure := true }) true rfl rfl rfl
    · exact .refl w
    · exact balanced_clearWait w l
    · exact .refl w
  · split_ifs <;> simp

theorem balanced_dropExplicit (he : (w.core.svc i).startExplicit=true) :
    Balanced w (w.onCore fun c => c.dropExplicit i) :=
  balanced_onCore w _ (Core.balance_dropExplicit he)

theorem balanced_unqueueConsole (w : World) (i : Nat) :
    Balanced w (w.onCore fun c => c.unqueueConsole i) :=
  (balanced_setSvc w i (fun s => { s with waitingForConsole := false }) rfl rfl rfl).trans
    (balanced_queues _ (fun c => { c with consoleQueue := (w.core.unqueueConsole i).consoleQueue })
      rfl rfl)

theorem balanced_failStart (w : World) (i : Nat) (b : Bool) : Balanced w (w.failStart i b) :=
  ((balanced_push w (.failedToStart i b)).trans
    (balanced_setSvc _ i (fun s => { s with desiredState := .stopped }) rfl rfl rfl)).trans
    (balanced_unqueueConsole _ i)

theorem balanced_cancelStart (hL : w.core.Linked) (b : Bool) : Balanced w (w.cancelStart i b) := by
  have hfail := balanced_failStart w i b
  have hf1 := frame_failStart w i b
  set w1 := w.failStart i b with hw1
  have hexp : Balanced w1
      (if (w1.core.svc i).startExplicit then w1.onCore fun c => c.dropExplicit i else w1) := by
    split
    · next he => exact balanced_dropExplicit he
    · exact .refl w1
  have hf2 : Frame w1
      (if (w1.core.svc i).startExplicit then w1.onCore fun c => c.dropExplicit i else w1) := by
    split
    · exact frame_onCore w1 (Core.frame_dropExplicit _ i)
    · exact .refl w1
  set w2 := if (w1.core.svc i).startExplicit then w1.onCore fun c => c.dropExplicit i else w1
    with hw2
  have hL2 := hL.of_graph (hf1.trans hf2).core.graph
  have hloop := balanced_foldl (i := i) (fun w l => frame_cancelDependent w i l)
    (fun w l hL hl => balanced_cancelDependent hL hl) hL2 (fun l hl => hl)
  exact ((hfail.trans hexp).trans hloop).trans (balanced_setSvc _ i _ rfl rfl rfl)

theorem balanced_initiateStart (w : World) (i : Nat) : Balanced w (w.initiateStart i) := by
  set w1 := (w.push (.initiateStart i)).onCore fun c => c.setSvc i fun s =>
    { s with
      startFailed := false
      startSkipped := false
      serviceState := .starting
      waitingForDeps := true } with hw1
  have h1 : Balanced w w1 := (balanced_push w _).trans (balanced_setSvc _ i _ rfl rfl rfl)
  have h2 : Balanced w1 (w1.onCore fun c => c.startCheckDependencies i) := by
    refine balanced_onCore w1 _ (Core.balance_same rfl ?_)
    intro k
    simp only [Core.startCheckDependencies,Core.setLinks_link]
    split_ifs <;> rfl
  unfold initiateStart
  dsimp only
  split
  · exact (h1.trans h2).trans (balanced_addTransitionQueue _ i)
  · exact h1.trans h2

theorem balanced_doStart (hL : w.core.Linked) : Balanced w (w.doStart i) := by
  have hpush := balanced_push w (.doStart i)
  set w1 := (w.push (.doStart i)).onCore fun c => c.setSvc i fun s =>
    { s with desiredState := .started } with hw1
  have hwant : Balanced w w1 := hpush.trans (balanced_setSvc _ i _ rfl rfl rfl)
  have hgraph : w.core.SameGraph w1.core :=
    Core.graph_setSvc w.core i (fun s => { s with desiredState := .started }) ⟨rfl,rfl,rfl⟩
  have hactivate : Balanced w ((w.push (.doStart i)).onCore fun c => c.activate i) :=
    hpush.trans (balanced_onCore _ _ (Core.balance_activate hL))
  unfold doStart
  dsimp only
  split_ifs
  · exact hwant.trans (balanced_cancelStart (hL.of_graph hgraph) false)
  · exact hwant
  · exact hwant.trans (balanced_initiateStart _ i)
  · exact hwant
  · exact hactivate.trans (balanced_initiateStart _ i)

theorem balanced_signalDependencies (w : World) (i : Nat) : Balanced w (w.signalDependencies i) := by
  unfold signalDependencies
  generalize (w.core.svc i).dependsOn = ls
  induction ls generalizing w with
  | nil => exact .refl w
  | cons l ls ih => exact (balanced_dependentStopped w _).trans (ih _)

theorem balanced_becomeStopped (hL : w.core.Linked) : Balanced w (w.becomeStopped i) := by
  have h0 : Balanced w (w.onCore fun c => c.setSvc i fun s => { s with forceStop := false }) :=
    balanced_setSvc w i _ rfl rfl rfl
  have hg := Core.graph_setSvc w.core i (fun s => { s with forceStop := false }) ⟨rfl,rfl,rfl⟩
  unfold becomeStopped
  dsimp only
  split
  · exact ((h0.trans (balanced_signalDependencies _ i)).trans
      (balanced_setSvc _ i _ rfl rfl rfl)).trans (balanced_initiateStart _ i)
  · have hloop := balanced_foldl (i := i)
      (w := w.onCore fun c => c.setSvc i fun s => { s with forceStop := false })
      (fun w l => frame_breakSoft w i l) (fun w l hL hl => balanced_breakSoft hL hl)
      (hL.of_graph hg) (fun l hl => hl)
    exact ((h0.trans hloop).trans (balanced_signalDependencies _ i)).trans
      (balanced_onCore _ _ Core.balance_becomeInactive)

theorem balanced_becomeStarted (w : World) (i : Nat) : Balanced w (w.becomeStarted i) := by
  have h : Balanced w ((w.push (.logServiceStarted i)).onCore fun c => c.setSvc i fun s =>
      { s with serviceState := .started }) :=
    (balanced_push w _).trans (balanced_setSvc _ i _ rfl rfl rfl)
  unfold becomeStarted
  dsimp only
  split
  · exact h
  · refine h.trans ?_
    generalize (((w.push (.logServiceStarted i)).onCore fun c => c.setSvc i fun s =>
      { s with serviceState := .started }).core.svc i).dependents = ls
    generalize ((w.push (.logServiceStarted i)).onCore fun c => c.setSvc i fun s =>
      { s with serviceState := .started }) = u
    induction ls generalizing u with
    | nil => exact .refl u
    | cons l ls ih => exact (balanced_notifyStarted u l).trans (ih _)

theorem balanced_beginStop (w : World) (i : Nat) (all : Bool) : Balanced w (w.beginStop i all) := by
  have h : Balanced w (w.onCore fun c => c.setSvc i fun s =>
      { s with serviceState := .stopping, waitingForDeps := !all }) :=
    balanced_setSvc w i _ rfl rfl rfl
  unfold beginStop
  dsimp only
  split
  · exact h.trans (balanced_addTransitionQueue _ i)
  · exact h

theorem balanced_interrupted (w : World) (i : Nat) :
    Balanced w (w.onCore fun c => c.setSvc i Svc.interrupted) := by
  have hk := (w.core.svc i).interrupted_kept
  exact balanced_setSvc w i _ hk.requiredBy hk.startExplicit hk.dependents

theorem balanced_forcedStop (w : World) (i : Nat) :
    Balanced w (w.onCore fun c => c.forcedStop i) := by
  apply balanced_setProp
  all_goals
    unfold Svc.forced
    split <;> rfl

theorem balanced_unrecoverableStop (w : World) (i : Nat) :
    Balanced w (w.onCore fun c => c.unrecoverableStop i) :=
  (balanced_setSvc w i (fun s => { s with desiredState := .stopped }) rfl rfl rfl).trans
    (balanced_forcedStop _ i)

theorem balanced_forceDependent (w : World) (i j : Nat) :
    Balanced w (w.onCore fun c => c.forceDependent i j) := by
  refine balanced_onCore w _ fun k => ?_
  unfold Core.forceDependent
  dsimp only
  split_ifs
  · exact ((balanced_setSvc w j (fun s => { s with stopReason := .depfailed }) rfl rfl rfl).trans
      (balanced_unrecoverableStop _ j)).core k
  · exact (balanced_forcedStop w j).core k
  · rfl

/-- Requiring a list of dependencies: each is counted once more, and those that were not
held account for it. -/
theorem balance_requireAll {ls : List Nat} (hn : ls.Nodup) (hL : w.core.Linked)
    (hls : ∀ l ∈ ls, l ∈ (w.core.svc i).dependsOn) :
    let w' := ls.foldl (fun w l =>
      if (w.core.link l).isOnlyOrdering then w else w.onCore fun c => c.acquire l) w
    (∀ j, w.core.balance j≤ w'.core.balance j) ∧ w'.trace=w.trace ∧
      ((∀ l ∈ ls, (w.core.link l).isOnlyOrdering=false → (w.core.link l).holdingAcq=false) →
        Balanced w w') := by
  induction ls generalizing w with
  | nil => exact ⟨fun _ => Int.le_refl _,rfl,fun _ => .refl w⟩
  | cons l ls ih =>
    obtain ⟨hnl,hn⟩ := List.nodup_cons.mp hn
    rw [List.foldl_cons]
    by_cases ho : (w.core.link l).isOnlyOrdering=true
    · rw [if_pos ho]
      obtain ⟨h1,h2,h3⟩ := ih hn hL fun k hk => hls k (by simp [hk])
      exact ⟨h1,h2,fun h => h3 fun k hk => h k (by simp [hk])⟩
    · rw [if_neg ho]
      have hg : w.core.SameGraph (w.onCore fun c => c.acquire l).core :=
        (Core.frame_acquire w.core l).graph
      have hto := (hL.dependsOn i l (hls l (by simp))).2
      have hb := Core.balance_acquire hL hto
      have hother (k : Nat) (hk : k ∈ ls) : (w.onCore fun c => c.acquire l).core.link k =
          w.core.link k := by
        have hne : k≠l := by
          rintro rfl
          exact hnl hk
        simp [hne]
      obtain ⟨h1,h2,h3⟩ := ih hn (hL.of_graph hg) fun k hk => by
        rw [hg.dependsOn]
        exact hls k (by simp [hk])
      refine ⟨fun j => Int.le_trans ?_ (h1 j),h2,?_⟩
      · rw [onCore_core,hb]
        split <;> omega
      · intro hheld
        refine (balanced_onCore w _ fun j => ?_).trans (h3 fun k hk => ?_)
        · rw [hb,hheld l (by simp) (by simpa using ho)]
          simp
        · rw [hother k hk]
          exact hheld k (by simp [hk])

theorem balance_requireDependencies (hL : w.core.Linked) :
    (∀ j, w.core.balance j≤(w.requireDependencies i).core.balance j) ∧
      (w.requireDependencies i).trace=w.trace ∧
      ((∀ l ∈ (w.core.svc i).dependsOn, (w.core.link l).isOnlyOrdering=false →
        (w.core.link l).holdingAcq=false) → Balanced w (w.requireDependencies i)) :=
  balance_requireAll (hL.dependsOn_nodup i) hL fun _ hl => hl

end World

open World

theorem StopStep.balanced {w w' : World} (h : StopStep w w') (hL : w.core.Linked) :
    Balanced w w' := by
  cases h with
  | misc i f h => exact balanced_setSvc w i f h.requiredBy h.startExplicit h.dependents
  | sys rs => exact ⟨fun _ => rfl,[],rfl,by simp⟩
  | doStop i r => exact balanced_push w _
  | stopDependent i l h => exact balanced_push w _
  | giveUp i => exact balanced_setSvc w i _ rfl rfl rfl
  | dropExplicit i h => exact balanced_dropExplicit h
  | forceDependent i j => exact balanced_forceDependent w i j
  | giveUpExplicit j h =>
    exact (balanced_setSvc w j (fun s => { s with desiredState := .stopped }) rfl rfl rfl).trans
      (balanced_dropExplicit (by simpa using h))
  | propagateStop j f h =>
    apply balanced_setProp
    all_goals
      rcases h with h | rfl
      · first
        | exact h.requiredBy
        | exact h.startExplicit
        | exact h.dependents
      · rfl
  | breakSoft i l h => exact balanced_breakSoft hL h
  | interruptStart i => exact balanced_push w _
  | killPg i signo h => exact balanced_push w _
  | getpgid i g signo h => exact balanced_push w _
  | kill i target signo h => exact balanced_push w _
  | beginStop i r all h told => exact balanced_beginStop w i all
  | cancelWait i all h hw =>
    exact ((balanced_unqueueConsole w i).trans (balanced_push _ (.startCancelled i))).trans
      (balanced_beginStop _ i all)
  | resetTimer i timeout c hc hi hp hr => exact balanced_setSvc w i _ rfl rfl rfl
  | interrupt i h hd hc hp ht => exact (balanced_interrupted w i).trans (balanced_push _ _)
  | cancelled i all h hd hc hp =>
    exact ((balanced_interrupted w i).trans (balanced_push _ (.startCancelled i))).trans
      (balanced_beginStop _ i all)

/-- Every step is balanced, but for requiring a dependency twice. -/
theorem Step.balanced {w w' : World} (h : Step w w') (hL : w.core.Linked) :
    Balanced w w' ∨ (∃ i, w.trace.head?=some (.doPropagation i,w.core) ∧ w.core.RequiresTwice i) ∧
      ∀ j, w.core.balance j≤ w'.core.balance j := by
  have hset (i : Nat) (f : Svc → Svc) (hk : (w.core.svc i).Kept (f (w.core.svc i))) :
      Balanced w (w.onCore fun c => c.setSvc i f) :=
    balanced_setSvc w i f hk.requiredBy hk.startExplicit hk.dependents
  have hnext {u : World} (h : Balanced w u) : Balanced w u.nextFlag := ⟨h.core,h.calls⟩
  cases h with
  | stop h => exact .inl (h.balanced hL)
  | call k h => exact .inl (balanced_push w k)
  | releaseConsole i => exact .inl (balanced_setSvc w i _ rfl rfl rfl)
  | consoleLog r b => exact .inl (balanced_queues w _ rfl rfl)
  | popConsole i rest h => exact .inl ((balanced_queues w _ rfl rfl).trans (balanced_push _ _))
  | acquired i h => exact .inl (balanced_setSvc w i _ rfl rfl rfl)
  | queueForConsole i h hc =>
    exact .inl ((balanced_setSvc w i (fun s => { s with waitingForConsole := true })
      rfl rfl rfl).trans (balanced_queues _ (fun c => { c with
        consoleQueue := c.consoleQueue++[i] }) rfl rfl))
  | popPropagation i h =>
    have hp : Balanced w ((w.onCore fun c => { c with propQueue := c.propQueue.popFront i }).push
        (.doPropagation i)) := (balanced_queues w _ rfl rfl).trans (balanced_push _ _)
    exact .inl ⟨hp.core,hp.calls⟩
  | popTransition i hp h => exact .inl ((balanced_queues w _ rfl rfl).trans (balanced_push _ _))
  | skipFlag i k h hk hf => exact .inl (hnext (.refl w))
  | skipPin i h hp => exact .inl (hnext (.refl w))
  | recomputePin i h => exact .inl (hnext (balanced_repinned (repinned_recomputePin w i)))
  | clearRelease i h => exact .inl (hnext (balanced_setSvc w i _ rfl rfl rfl))
  | clearStart i h => exact .inl (hnext (balanced_setSvc w i _ rfl rfl rfl))
  | clearStop i h => exact .inl (hnext (balanced_setSvc w i _ rfl rfl rfl))
  | leavePropagation i h => exact .inl ⟨fun _ => rfl,[],rfl,by simp⟩
  | requireDependencies i h hc hp =>
    obtain ⟨h1,_,h3⟩ := balance_requireDependencies (i := i) hL
    have hclear := balanced_setSvc (w.requireDependencies i) i
      (fun s => { s with propRequire := false }) rfl rfl rfl
    by_cases htwice : w.core.RequiresTwice i
    · refine .inr ⟨⟨i,hc,htwice⟩,fun j => ?_⟩
      exact Int.le_trans (h1 j) (Int.le_of_eq (hclear.core j).symm)
    · refine .inl (hnext ((h3 ?_).trans hclear))
      intro l hl ho
      by_contra hh
      exact htwice ⟨hp,l,hl,ho,by simpa using hh⟩
  | dropLink i l hl hh hp ht => exact .inl (balanced_dropLink hL (hL.dependsOn i l hl).2 hh)
  | failure i h hp =>
    have hk : Balanced w (w.onCore fun c => c.setSvc i fun s =>
        { s with propFailure := false, stopReason := .depfailed, serviceState := .stopped }) :=
      balanced_setSvc w i _ rfl rfl rfl
    refine .inl ((hnext hk).trans (balanced_cancelStart (hL.of_graph ?_) true))
    exact Core.graph_setSvc w.core i (fun s =>
      { s with propFailure := false, stopReason := .depfailed, serviceState := .stopped })
      ⟨rfl,rfl,rfl⟩
  | startExplicit i h hp =>
    refine .inl (balanced_onCore w _ fun j => ?_)
    by_cases hj : j=i
    · subst hj
      simp [Core.balance,Core.accounts,Core.held,h]
      omega
    · simp [Core.balance,Core.accounts,Core.held,hj]
  | doStart i => exact .inl (balanced_doStart hL)
  | depsStarted i h hn => exact .inl (balanced_setSvc w i _ rfl rfl rfl)
  | depsStopped i h hs hc => exact .inl (balanced_setSvc w i _ rfl rfl rfl)
  | initiateStart i hs hd hp => exact .inl (balanced_initiateStart w i)
  | becomeStarted i => exact .inl (balanced_becomeStarted w i)
  | becomeStopped i => exact .inl (balanced_becomeStopped hL)
  | cancelStart i b f h =>
    exact .inl ((hset i f h).trans (balanced_cancelStart
      (hL.of_graph (Core.graph_setSvc w.core i f h.links)) b))
  | cancelStopping i b f h hs hn =>
    exact .inl ((balanced_setSvc w i f h.requiredBy h.startExplicit h.dependents).trans
      (balanced_cancelStart (hL.of_graph (Core.graph_setSvc w.core i f
        ⟨h.settings,h.dependsOn,h.dependents⟩)) b))
  | cancelTimeout i f h hp hs hn =>
    have hb : Balanced w ((w.onCore fun c => c.setSvc i Svc.interrupted).onCore fun c =>
        c.setSvc i f) := by
      refine (balanced_interrupted w i).trans (balanced_setSvc _ i f ?_ ?_ ?_)
      · simpa using h.requiredBy
      · simpa using h.startExplicit
      · simpa using h.dependents
    refine .inl (hb.trans (balanced_cancelStart (hL.of_graph ?_) false))
    have hk := (w.core.svc i).interrupted_kept
    refine (Core.graph_setSvc w.core i Svc.interrupted
      ⟨hk.settings,hk.dependsOn,hk.dependents⟩).trans (Core.graph_setSvc _ i f ?_)
    simpa using h.links
  | setForceStop i f h =>
    exact .inl (balanced_setSvc w i f h.requiredBy h.startExplicit h.dependents)
  | forcedStop i => exact .inl (balanced_forcedStop w i)
  | unrecoverableStop i => exact .inl (balanced_unrecoverableStop w i)
  | fork i n f c hc hk h =>
    exact .inl (balanced_setSvc w i f h.requiredBy h.startExplicit h.dependents)
  | forkStop i n hp he hs => exact .inl (balanced_setSvc w i _ rfl rfl rfl)
  | restartTimer i h => exact .inl (balanced_setSvc w i _ rfl rfl rfl)
  | noRestartTimer i h => exact .inl (balanced_setSvc w i _ rfl rfl rfl)
  | stopRestartTimer i h => exact .inl (balanced_setSvc w i _ rfl rfl rfl)
  | stopTimer i f h =>
    exact .inl (balanced_setSvc w i f h.requiredBy h.startExplicit h.dependents)
  | armTimer i timeout hp => exact .inl (balanced_setSvc w i _ rfl rfl rfl)
  | startTimer i timeout hp => exact .inl (balanced_setSvc w i _ rfl rfl rfl)
  | stopIssued i b => exact .inl (balanced_setSvc w i _ rfl rfl rfl)
  | readPid i f hx hb h hk ht => exact .inl (balanced_setSvc w i _ rfl rfl rfl)
  | trackingChild i => exact .inl (balanced_setSvc w i _ rfl rfl rfl)

/-- Every step of an event or a command is balanced, but for requiring a dependency twice. -/
theorem EventStep.balanced {w w' : World} (h : EventStep w w') (hL : w.core.Linked) :
    Balanced w w' ∨ (∃ i, w.trace.head?=some (.doPropagation i,w.core) ∧ w.core.RequiresTwice i) ∧
      ∀ j, w.core.balance j≤ w'.core.balance j := by
  cases h with
  | step h => exact h.balanced hL
  | call k h => exact .inl (balanced_push w k)
  | now t => exact .inl (balanced_queues w _ rfl rfl)
  | noRestart => exact .inl (balanced_queues w _ rfl rfl)
  | stopExplicit i h =>
    refine .inl (balanced_onCore w _ fun j => ?_)
    by_cases hj : j=i
    · subst hj
      simp [Core.balance,Core.accounts,Core.held,h]
      omega
    · simp [Core.balance,Core.accounts,Core.held,hj]
  | stopRelease i hr hd hp => exact .inl (balanced_setProp w i _ _ rfl rfl rfl)
  | pinStart i => exact .inl (balanced_repinned (repinned_pinStart w i))
  | unpinStart i c hc => exact .inl (balanced_repinned (repinned_unpinStart w i))
  | pinStopped i b => exact .inl (balanced_setSvc w i _ rfl rfl rfl)
  | unpinRelease i c hc hp hq hs hr hd => exact .inl (balanced_setProp w i _ _ rfl rfl rfl)
  | acquire l j hl h hc =>
    have hto : l ∈ (w.core.svc (w.core.link l).to_).dependents := by
      rcases hl with hl | hl
      · exact (hL.dependsOn j l hl).2
      · rwa [(hL.dependents j l hl).1]
    refine .inl (balanced_onCore w _ fun k => ?_)
    rw [Core.balance_acquire hL hto]
    simp [h]
  | addDep f t depType h _ => exact .inl (balanced_onCore w _ (Core.balance_addDepAt hL f t depType _))
  | rmDep f l hl h =>
    exact .inl (balanced_onCore w _ (Core.balance_rmDep (hL.dependsOn f l hl).2))
  | expire i h =>
    exact .inl (((balanced_setSvc w i _ rfl rfl rfl).trans (balanced_push _ _)).trans
      (balanced_setSvc _ i Svc.timedOut rfl rfl rfl))
  | seen i failed h hp => exact .inl (balanced_setSvc w i _ rfl rfl rfl)
  | forget i c h => exact .inl (balanced_setSvc w i _ rfl rfl rfl)
  | stopSeen i failed h hp => exact .inl (balanced_setSvc w i _ rfl rfl rfl)
  | stopForget i c h => exact .inl (balanced_setSvc w i _ rfl rfl rfl)
  | reaped i status h => exact .inl (balanced_setSvc w i _ rfl rfl rfl)
  | stopReaped i status h => exact .inl (balanced_setSvc w i _ rfl rfl rfl)

end Dinit
