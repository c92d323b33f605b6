import Dinit.Safety.Accounting
import Dinit.Safety.Transfer

namespace Dinit

open Framework Framework.Comp World Relation

namespace Core

variable {c c' : Core} {i j l : Nat} {ls : List Nat}

theorem Accounted.of_balance (h : c.Accounted) (hb : ∀ k, c'.balance k=c.balance k) :
    c'.Accounted := by
  rw [accounted_iff] at h ⊢
  intro k
  rw [hb,h]

/-- Nothing requires a record that has just been made, or deleted. -/
theorem Accounted.blank (h : c.Accounted) (i : Nat) (st : Settings) :
    (c.setSvc i fun _ => { settings := st }).Accounted := by
  intro k
  by_cases hk : k=i
  · simp [accounts,held,hk]
  · simpa [accounts,held,hk] using h k

theorem Accounted.records (h : c.Accounted) (hs : c'.svc=c.svc) (hl : c'.link=c.link) :
    c'.Accounted :=
  h.of_balance (balance_same hs fun l => by rw [hl])

/-- A link that holds nothing is taken off. -/
theorem Accounted.unlink (h : c.Accounted) (hL : c.Linked) (hl : l ∈ (c.svc i).dependsOn)
    (hh : (c.link l).holdingAcq=false) : (c.unlink l).Accounted := by
  refine h.of_balance fun k => ?_
  rw [balance_unlink (hL.dependsOn i l hl).2]
  simp [hh]

theorem Accounted.rmDep (h : c.Accounted) (hL : c.Linked) (hl : l ∈ (c.svc i).dependents) :
    (c.rmDep l).Accounted := by
  refine h.of_balance (balance_rmDep ?_)
  rwa [(hL.dependents i l hl).1]

theorem rmDep_link (c : Core) (l : Nat) : (c.rmDep l).link=c.link := by
  unfold Core.rmDep
  split
  · exact release_link ..
  · rfl

/-- Links that hold nothing are led to another service. -/
theorem Accounted.moveDependents (h : c.Accounted) (hij : i≠j)
    (hh : ∀ l ∈ ls, (c.link l).holdingAcq=false) : (c.moveDependents i j ls).Accounted := by
  have hlink (l : Nat) : ((c.moveDependents i j ls).link l).holdingAcq=(c.link l).holdingAcq := by
    rw [moveDependents_link]
    split_ifs <;> rfl
  have hnone : ls.countP (fun l => (c.link l).holdingAcq)=0 := by
    rw [List.countP_eq_zero]
    intro l hl
    simp [hh l hl]
  have hheld (k : Nat) : (c.moveDependents i j ls).held k=c.held k := by
    unfold held
    simp only [hlink]
    rw [moveDependents_dependents _ _ _ _ hij]
    split_ifs with hk hk'
    · rw [List.countP_append,hnone,Nat.zero_add,hk]
    · rw [List.countP_filter,hk']
      apply List.countP_congr
      intro l _
      by_cases hl : l ∈ ls
      · simp [hh l hl]
      · simp [hl]
    · rfl
  intro k
  have hk : ((c.moveDependents i j ls).svc k).requiredBy=(c.svc k).requiredBy ∧
      ((c.moveDependents i j ls).svc k).startExplicit=(c.svc k).startExplicit := by
    simp only [Core.moveDependents,setSvc_svc,setLinks_svc]
    split_ifs <;> simp_all
  rw [hk.1,accounts,hk.2,hheld]
  exact h k

theorem Accounted.moveDependencies (h : c.Accounted) : (c.moveDependencies i j ls).Accounted := by
  have hheld (k : Nat) : (c.moveDependencies i j ls).held k=c.held k := by
    unfold held
    rw [moveDependencies_dependents]
    apply List.countP_congr
    intro l _
    rw [moveDependencies_link]
    split_ifs <;> rfl
  intro k
  have hk : ((c.moveDependencies i j ls).svc k).requiredBy=(c.svc k).requiredBy ∧
      ((c.moveDependencies i j ls).svc k).startExplicit=(c.svc k).startExplicit := by
    simp only [Core.moveDependencies,setSvc_svc,setLinks_svc]
    split_ifs <;> simp_all
  rw [hk.1,accounts,hk.2,hheld]
  exact h k

end Core

namespace Loader

variable {s s' : Loader} {i l : Nat}

theorem accounted_delete (h : s.core.Accounted) (i : Nat) : (s.delete i).core.Accounted := by
  rw [delete_core]
  exact h.blank i {}

theorem accounted_removeService (h : s.core.Accounted) (i : Nat) :
    (s.removeService i).core.Accounted := by
  rcases removeService_core s i with hc | hc <;> rw [hc]
  · exact h
  · exact h.records rfl rfl

theorem accounted_dropPlaceholder (h : s.core.Accounted) (i : Nat) (b : Bool) :
    (s.dropPlaceholder i b).core.Accounted := by
  rcases dropPlaceholder_cases s i b with ⟨hc,-⟩ | ⟨-,-,-,hc⟩ <;> rw [hc]
  · exact h
  · split
    · exact accounted_delete (accounted_removeService h i) i
    · exact accounted_removeService h i

theorem accounted_dropDependency (h : s.core.Accounted) (hL : s.core.Linked)
    (hl : l ∈ (s.core.svc i).dependsOn) (hh : (s.core.link l).holdingAcq=false) :
    (s.dropDependency l).core.Accounted := by
  have h1 : (s.onCore fun c => c.unlink l).core.Accounted := h.unlink hL hl hh
  unfold dropDependency
  dsimp only
  split
  · exact accounted_dropPlaceholder h1 _ true
  · exact h1

theorem accounted_dropDependent (h : s.core.Accounted) (hL : s.core.Linked)
    (hl : l ∈ (s.core.svc i).dependents) : (s.dropDependent l).core.Accounted := by
  have h1 : (s.onCore fun c => c.rmDep l).core.Accounted := h.rmDep hL hl
  exact accounted_dropPlaceholder h1 _ true

/-- A loop that drops dependencies of `i`, none of which is held. -/
theorem accounted_dropDependencies {ls : List Nat} (h : s.core.Accounted) (hL : s.core.Linked)
    (hn : ls.Nodup) (hls : ∀ l ∈ ls, l ∈ (s.core.svc i).dependsOn)
    (hh : ∀ l ∈ ls, (s.core.link l).holdingAcq=false) :
    (ls.foldl dropDependency s).core.Accounted := by
  induction ls generalizing s with
  | nil => exact h
  | cons l ls ih =>
    obtain ⟨hl,hn⟩ := List.nodup_cons.mp hn
    have hmem := hls l List.mem_cons_self
    refine ih (accounted_dropDependency h hL hmem (hh l List.mem_cons_self))
      (dropDependency_linked hL l) hn ?_ ?_
    · intro k hk
      rw [dropDependency_dependsOn,if_pos (hL.dependsOn i l hmem).1.symm]
      refine (List.mem_erase_of_ne ?_).mpr (hls k (List.mem_cons_of_mem l hk))
      rintro rfl
      exact hl hk
    · intro k hk
      rw [(dropDependency_lists s l).link]
      exact hh k (List.mem_cons_of_mem l hk)

/-- A loop that drops dependents of `i`. -/
theorem accounted_dropDependents {ls : List Nat} (h : s.core.Accounted) (hL : s.core.Linked)
    (hn : ls.Nodup) (hls : ∀ l ∈ ls, l ∈ (s.core.svc i).dependents) :
    (ls.foldl dropDependent s).core.Accounted := by
  induction ls generalizing s with
  | nil => exact h
  | cons l ls ih =>
    obtain ⟨hl,hn⟩ := List.nodup_cons.mp hn
    have hmem := hls l List.mem_cons_self
    refine ih (accounted_dropDependent h hL hmem) (dropDependent_linked hL l) hn ?_
    intro k hk
    rw [dropDependent_dependents,if_pos (hL.dependents i l hmem).1.symm]
    refine (List.mem_erase_of_ne ?_).mpr (hls k (List.mem_cons_of_mem l hk))
    rintro rfl
    exact hl hk

theorem accounted_prepareForUnload {extra : List Nat} (h : s.core.Accounted) (hs : s.Sound extra)
    (hb : s.Built extra) (hh : ∀ l ∈ (s.core.svc i).dependsOn, (s.core.link l).holdingAcq=false) :
    (s.prepareForUnload i).core.Accounted := by
  have hL := hs.linked
  have h1 := accounted_dropDependencies h hL (hL.dependsOn_nodup i) (fun _ hl => hl) hh
  have hL1 := (hs.dropDependencies hb (hL.dependsOn_nodup i) fun _ hl => hl).1.sound.linked
  exact accounted_dropDependents h1 hL1 (hL1.dependents_nodup i) fun _ hl => hl

section
variable (file : File) (fullname : String) {orig : Nat} {d : Draft}

/-- The links to `orig` that are held were so before the new record got its own. -/
theorem withLinks_held (s : Loader) (orig : Nat) (d : Draft) {l : Nat}
    (hl : l ∈ ((s.withLinks file fullname orig d).core.svc orig).dependents)
    (hh : ((s.withLinks file fullname orig d).core.link l).holdingAcq=true) :
    l ∈ (s.core.svc orig).dependents ∧
      (s.withLinks file fullname orig d).core.link l=s.core.link l := by
  have hlink (c : Core) (hc : ∀ l, (c.link l).holdingAcq=true → c.link l=s.core.link l ∧
      (l ∈ (c.svc orig).dependents → l ∈ (s.core.svc orig).dependents)) (a b : Nat)
      (depType : DependencyType) : ∀ l, ((c.linkLast a b depType).link l).holdingAcq=true →
      (c.linkLast a b depType).link l=s.core.link l ∧
        (l ∈ ((c.linkLast a b depType).svc orig).dependents → l ∈ (s.core.svc orig).dependents) := by
    intro l hh
    have hne : l≠c.nextLink := by
      rintro rfl
      simp [Core.linkLast] at hh
    rw [Core.linkLast,Core.linkAt_link,if_neg hne] at hh
    obtain ⟨h1,h2⟩ := hc l hh
    refine ⟨by rw [Core.linkLast,Core.linkAt_link,if_neg hne,h1],fun hm => h2 ?_⟩
    rw [Core.linkLast,Core.linkAt_dependents] at hm
    split_ifs at hm with hb
    · rw [mem_insertAt] at hm
      rw [hb]
      exact hm.resolve_left hne
    · exact hm
  have h := withLinks_induct (P := fun c => ∀ l, (c.link l).holdingAcq=true → c.link l=s.core.link l ∧
    (l ∈ (c.svc orig).dependents → l ∈ (s.core.svc orig).dependents)) s file fullname orig d ?_
    (fun c hc dep _ => hlink c hc _ dep.1 dep.2) fun c hc j _ => hlink c hc j _ .before
  · exact ⟨(h l hh).2 hl,(h l hh).1⟩
  · intro l _
    refine ⟨rfl,fun hm => ?_⟩
    by_cases ho : orig=s.reg.nextSvc
    · simp [ho] at hm
    · simpa [ho] using hm

theorem accounted_withLinks (h : s.core.Accounted) (hs : s.Sound []) (orig : Nat) (d : Draft) :
    (s.withLinks file fullname orig d).core.Accounted := by
  obtain ⟨hd,hp⟩ := hs.closed s.reg.nextSvc hs.next
  have hlink (c : Core) (hc : c.Accounted ∧ c.Linked) (a b : Nat) (depType : DependencyType) :
      (c.linkLast a b depType).Accounted ∧ (c.linkLast a b depType).Linked :=
    ⟨hc.1.of_balance fun _ => Core.balance_linkAt hc.2 ..,Core.Linked.linkAt c a b depType _ _ hc.2⟩
  refine (withLinks_induct (P := fun c => c.Accounted ∧ c.Linked) s file fullname orig d
    ⟨h.blank _ _,hs.linked.setSvc hd hp rfl rfl⟩ (fun c hc dep _ => hlink c hc _ dep.1 dep.2)
    fun c hc j _ => hlink c hc j _ .before).1

/-- What the record that is replaced holds, or is held by, is not handed over: none of the
links that move to the new record, and none that goes with the old one, may be held. So it
is when a service is unloaded. -/
def RequireOk : LoadCall × Core × Registry → Prop
  | (.replace orig _,c,_) => ∀ l ∈ (c.svc orig).dependents, (c.link l).depType≠.before →
    (c.link l).holdingAcq=false
  | (.transfer orig,c,_) => ∀ l ∈ (c.svc orig).dependsOn,
    l ∉ c.transfer (c.svc orig).dependsOn.length (c.svc orig).dependsOn →
      (c.link l).holdingAcq=false
  | (.unload i,c,_) => (∀ l ∈ (c.svc i).dependents, (c.link l).depType=.after →
      (c.link l).holdingAcq=false) ∧
    ∀ l ∈ (c.svc i).dependsOn, (c.link l).depType≠.before → (c.link l).holdingAcq=false
  | _ => True

instance : DecidablePred RequireOk := fun e =>
  match e with
  | (.replace _ _,_,_) => inferInstanceAs (Decidable (∀ _ ∈ _, _))
  | (.transfer _,_,_) => inferInstanceAs (Decidable (∀ _ ∈ _, _))
  | (.unload _,_,_) => inferInstanceAs (Decidable (_ ∧ _))
  | (.link _ _ _,_,_) => inferInstanceAs (Decidable True)
  | (.cleanup _ _ _ _,_,_) => inferInstanceAs (Decidable True)
  | (.consume _ _,_,_) => inferInstanceAs (Decidable True)

/-- The new record has the links of the old one, none of which is held. -/
theorem accounted_transferred (h : s.core.Accounted) (hs : s.Sound [])
    (hd : ∀ dep ∈ d.depends, dep.1 ∈ s.core.records) (hb : ∀ j ∈ d.beforeDeps, j ∈ s.core.records)
    (ho : orig ∈ s.core.records) (hok : RequireOk (.replace orig s.reg.nextSvc,s.core,s.reg)) :
    (s.transferred file fullname orig d).core.Accounted := by
  obtain ⟨hne,-,-⟩ := transferred_sound file fullname hs hd hb ho
  obtain ⟨h1,hb1,-⟩ := hs.withLinks file fullname orig hd hb
  have hmem : ∀ l ∈ ((s.withLinks file fullname orig d).core.svc orig).dependents.filter fun l =>
      ((s.withLinks file fullname orig d).core.link l).depType==.before,
      l ∈ ((s.withLinks file fullname orig d).core.svc orig).dependents :=
    fun _ hl => (List.mem_filter.mp hl).1
  have hnodup := (h1.linked.dependents_nodup orig).filter fun l =>
    ((s.withLinks file fullname orig d).core.link l).depType==.before
  have h2 : (s.unclaimed file fullname orig d).core.Accounted :=
    accounted_dropDependents (accounted_withLinks file fullname h hs orig d) h1.linked hnodup hmem
  obtain ⟨hloses,hgone⟩ := h1.dropDependents hb1 hnodup hmem
  have hlink : (s.unclaimed file fullname orig d).core.link =
      (s.withLinks file fullname orig d).core.link :=
    foldl_keep (fun u => u.core.link)
      (fun u l => (dropDependent_lists u l).link.trans (Core.rmDep_link u.core l)) _ _
  rw [transferred_core]
  refine Core.Accounted.moveDependencies (h2.moveDependents hne ?_)
  intro l hl
  by_contra hh
  rw [hlink] at hh
  have hl1 := (hloses.pruned.dependents orig).subset hl
  obtain ⟨hl0,heq⟩ := withLinks_held file fullname s orig d hl1 (by simpa using hh)
  have hbefore : (s.core.link l).depType≠.before := by
    intro hbe
    refine hgone l (List.mem_filter.mpr ⟨hl1,?_⟩) hl
    rw [heq,hbe]
    rfl
  rw [heq] at hh
  exact hh (hok l hl0 hbefore)

theorem accounted_createRecord (h : s.core.Accounted) (hs : s.Sound [])
    (hd : ∀ dep ∈ d.depends, dep.1 ∈ s.core.records) (hb : ∀ j ∈ d.beforeDeps, j ∈ s.core.records)
    (ho : orig ∈ s.core.records)
    (hok : ∀ e ∈ (s.createRecord file fullname orig d).2.calls, RequireOk e) :
    (s.createRecord file fullname orig d).2.core.Accounted := by
  rw [createRecord_transfer] at hok
  have hrep := hok (.replace orig s.reg.nextSvc,s.core,s.reg) (by simp)
  have htr := hok _ List.mem_cons_self
  obtain ⟨hne,h2,hb2⟩ := transferred_sound file fullname hs hd hb ho
  have ha := accounted_transferred file fullname h hs hd hb ho hrep
  have hleft : ∀ l ∈ ((s.transferred file fullname orig d).core.svc orig).dependsOn,
      ((s.transferred file fullname orig d).core.link l).holdingAcq=false := by
    intro l hl
    rw [transferred_core,Core.moveDependencies_dependsOn _ _ _ _ hne,if_neg hne,if_pos rfl] at hl
    obtain ⟨hl,hn⟩ := List.mem_filter.mp hl
    have hn' := hn
    simp only [Bool.not_eq_true',List.contains_eq_mem,decide_eq_false_iff_not] at hn'
    rw [transferred_core,Core.moveDependencies_link,if_neg hn']
    exact htr l hl hn'
  rw [createRecord_snd]
  have hput (u : Loader) (hu : u.core.Accounted) :
      (u.putInPlace orig s.reg.nextSvc).core.Accounted :=
    accounted_delete (s := u.onCore fun c => { c with
      records := c.records.map fun j => if j=orig then s.reg.nextSvc else j })
      (hu.records rfl rfl) orig
  refine hput _ ?_
  have hcore (u : Loader) : (if (u.core.svc s.reg.nextSvc).isProcess then
      u.handConsumer s.reg.nextSvc orig else u).core=u.core := by
    split
    · exact handConsumer_core u _ orig
    · rfl
  show (Loader.retire (s.transferred file fullname orig d) orig d s.reg.nextSvc).core.Accounted
  unfold Loader.retire
  dsimp only
  generalize hu : (if ((s.transferred file fullname orig d).core.svc s.reg.nextSvc).isProcess then
    (s.transferred file fullname orig d).handConsumer s.reg.nextSvc orig
    else s.transferred file fullname orig d)=u
  have huc : u.core=(s.transferred file fullname orig d).core := by
    rw [← hu]
    exact hcore _
  have hus : u.Sound [s.reg.nextSvc] := by
    rw [← hu]
    split
    · exact h2.handConsumer _ orig
    · exact h2
  have hub : u.Built [s.reg.nextSvc] := by
    intro k hk
    rw [huc]
    exact hb2 k hk
  rw [← huc] at ha hleft
  have hp := accounted_prepareForUnload ha hus hub hleft
  split
  · rw [dropConsumed_core]
    exact hp
  · exact hp

end

theorem accounted_addPlaceholder (h : s.core.Accounted) (n : String) :
    (s.addPlaceholder n).core.Accounted := by
  have h1 : (s.core.setSvc s.reg.nextSvc fun _ => { settings := { serviceName := n } }).Accounted :=
    h.blank _ _
  exact h1.records rfl rfl

/-- What is left of the dependencies of a service that is about to be unloaded is not held. -/
theorem accounted_unloading (h : s.core.Accounted) (hs : s.Sound []) (hi : i ∈ s.core.records)
    (hok : RequireOk (.unload i,s.core,s.reg)) : (s.unloading i).core.Accounted ∧
      ∀ l ∈ ((s.unloading i).core.svc i).dependsOn,
        ((s.unloading i).core.link l).holdingAcq=false := by
  obtain ⟨hafter,hdep⟩ := hok
  have hne : i≠s.reg.nextSvc := by
    rintro rfl
    exact hs.next (List.mem_append_left _ hi)
  unfold Loader.unloading
  split_ifs with hc
  · have h1 := accounted_addPlaceholder (s := s.push (.unload i)) h
      (s.core.svc i).settings.serviceName
    have hsvc : ((s.push (.unload i)).addPlaceholder
        (s.core.svc i).settings.serviceName).core.svc i=s.core.svc i :=
      (allocate_svc (s.push (.unload i)) _ false i).trans (if_neg hne)
    refine ⟨Core.Accounted.moveDependencies (h1.moveDependents hne ?_),?_⟩
    · intro l hl
      obtain ⟨hl,ht⟩ := List.mem_filter.mp hl
      exact hafter l hl (by simpa using ht)
    · intro l hl
      have hl' := hl
      rw [leavePlaceholder,onCore_core,push_reg,Core.moveDependencies_dependsOn _ _ _ _ hne,
        if_neg hne,if_pos rfl,Core.moveDependents_dependsOn] at hl'
      obtain ⟨hl',hn⟩ := List.mem_filter.mp hl'
      rw [push_core,hsvc] at hl'
      have hn' : l ∉ (s.leaves i).2 := fun hm => by
        have hm' : l ∈ ((s.push (.unload i)).leaves i).2 := hm
        simp [hm'] at hn
      have hbefore : (s.core.link l).depType≠.before := by
        intro hb
        exact hn' (List.mem_filter.mpr ⟨hl',by simp [hb]⟩)
      have hlink (c : Core) : (((c.moveDependents i s.reg.nextSvc (s.leaves i).1).moveDependencies i
          s.reg.nextSvc (s.leaves i).2).link l).holdingAcq=(c.link l).holdingAcq := by
        rw [Core.moveDependencies_link,Core.moveDependents_link]
        split_ifs <;> rfl
      exact (hlink _).trans (hdep l hl' hbefore)
  · refine ⟨h,fun l hl => hdep l hl fun hb => ?_⟩
    have hnil : (s.leaves i).2=[] := by
      by_contra hn
      exact hc (.inr (.inr hn))
    have hin : l ∈ (s.leaves i).2 := List.mem_filter.mpr ⟨hl,by simp [hb]⟩
    rw [hnil] at hin
    cases hin

theorem accounted_unloadService (h : s.core.Accounted) (hs : s.Sound []) (hi : i ∈ s.core.records)
    (hok : RequireOk (.unload i,s.core,s.reg)) : (s.unloadService i).core.Accounted := by
  obtain ⟨h1,hfree⟩ := accounted_unloading h hs hi hok
  have h2 := accounted_prepareForUnload h1 (hs.unloading hi).1 (by simp [Built]) hfree
  rw [unloadService_eq]
  exact accounted_delete (accounted_removeService h2 i) i

theorem accounted_cleanup (h : s.core.Accounted) (dummy : Option Nat) (d : Draft) :
    (s.cleanup dummy d).core.Accounted := by
  have hdummy (u : Loader) (hu : u.core.Accounted) : (u.dropDummy dummy).core.Accounted := by
    cases dummy with
    | none => exact hu
    | some i => exact accounted_delete (accounted_removeService hu i) i
  rw [cleanup_eq]
  exact List.foldlRecOn (motive := fun u : Loader => u.core.Accounted) (candidates d) _
    (hdummy (s.push _) h) fun u hu x _ => accounted_dropPlaceholder hu x.1 x.2

end Loader

/-- `do_propagation` requires no dependency that is held already. -/
def RequiresOnce : Call × Core → Prop
  | (.doPropagation i,c) => ¬c.RequiresTwice i
  | _ => True

instance : DecidablePred RequiresOnce
  | (.doPropagation i,c) => inferInstanceAs (Decidable (¬c.RequiresTwice i))
  | (.stopped _,_) | (.initiateStart _,_) | (.executeTransition _,_) | (.doStart _,_)
  | (.doStop _ _,_) | (.stopDependent _ _,_) | (.allDepsStarted _,_) | (.acquiredConsole _,_)
  | (.bringUp _,_) | (.bringDown _,_) | (.started _,_) | (.failedToStart _ _,_)
  | (.interruptStart _,_) | (.startPsProcess _,_) | (.killPg _ _,_) | (.getpgid _ _,_)
  | (.kill _ _,_) | (.killAll _,_) | (.handleExitStatus _,_) | (.handleExitAgain _,_)
  | (.timerExpired _,_) | (.execStatus _ _,_) | (.stopExecStatus _ _,_) | (.childTerminated _,_)
  | (.stopChildTerminated _,_) | (.addTransitionQueue _,_) | (.unpin _,_) | (.addDep _ _ _,_)
  | (.rmDep _,_) | (.startDep _,_)
  | (.releaseDependency _,_) | (.logServiceStarted _,_) | (.startCancelled _,_)
  | (.readyNotify _,_) => .isTrue trivial

namespace World

/-- Requirements are accounted for, and were at each call. -/
def AllAccounted (w : World) : Prop := w.core.Accounted ∧ ∀ e ∈ w.trace, e.2.Accounted

theorem Balanced.allAccounted {w w' : World} (h : Balanced w w') (ha : w.AllAccounted) :
    w'.AllAccounted := by
  obtain ⟨t,ht,hb⟩ := h.calls
  refine ⟨ha.1.of_balance h.core,?_⟩
  intro e he
  rw [ht] at he
  rcases List.mem_append.mp he with he | he
  · exact ha.1.of_balance (hb e he)
  · exact ha.2 e he

end World

theorem EventStep.allAccounted {w w' : World} (h : EventStep w w') (hL : w.core.Linked)
    (ha : w.AllAccounted) (hok : ∀ e ∈ w'.trace, RequiresOnce e) : w'.AllAccounted := by
  rcases h.balanced hL with hb | ⟨⟨i,hi,htwice⟩,-⟩
  · exact hb.allAccounted ha
  · exact absurd htwice (hok _ (h.grows.mem (List.mem_of_mem_head? hi)))

theorem UpdateStep.allAccounted {w w' : World} (h : UpdateStep w w') (hL : w.core.Linked)
    (ha : w.AllAccounted) (hok : ∀ e ∈ w'.trace, RequiresOnce e) :
    w'.core.Linked ∧ w'.AllAccounted := by
  cases h with
  | event h => exact ⟨eventStep_linked h hL,h.allAccounted hL ha hok⟩
  | before j i =>
    exact ⟨Core.Linked.linkAt _ j i .before 0 0 hL,
      (balanced_onCore w _ fun _ => Core.balance_linkAt hL ..).allAccounted ha⟩
  | addDep i t depType place h =>
    exact ⟨Core.Linked.addDepAt _ i t depType place hL,
      (balanced_onCore w _ fun _ => Core.balance_addDepAt hL ..).allAccounted ha⟩

theorem UpdateStep.grows {w w' : World} (h : UpdateStep w w') : Grows w w' := by
  cases h with
  | event h => exact h.grows
  | before j i => exact grows_onCore w _
  | addDep i t depType place h => exact grows_onCore w _

namespace Loader

variable {s s' : Loader}

theorem accounted_replaced (file : File) (fullname : String) {reload : Option Nat} {orig : Nat}
    {d : Draft} (h : s.core.Accounted) (hg : s.Good) (hr : s.Ready reload orig d)
    (ho : orig ∈ s.core.records)
    (hok : ∀ e ∈ ((s.createRecord file fullname orig d).2.setConsumer s.reg.nextSvc d).calls,
      RequireOk e) :
    ((s.createRecord file fullname orig d).2.setConsumer s.reg.nextSvc d).core.Accounted := by
  rw [setConsumer_core]
  exact accounted_createRecord file fullname h hg.sound (hr.known.mem hg.trusted) hr.known.before ho
    fun e he => hok e (setConsumer_calls_mem _ d he)

/-- Every step keeps the requirements accounted for, if the calls made meet the condition. -/
theorem RequestStep.allAccounted (h : RequestStep s s') (hg : s.Good) (ha : s.world.AllAccounted)
    (hok : ∀ e ∈ s'.calls, LoadOk e ∧ RequireOk e) (hok' : ∀ e ∈ s'.world.trace, RequiresOnce e) :
    s'.world.AllAccounted := by
  -- the loader makes no calls of the state machine
  have hsame {u : Loader} (hc : u.core.Accounted) (ht : u.world.trace=s.world.trace) :
      u.world.AllAccounted := by
    refine ⟨hc,fun e he => ?_⟩
    rw [ht] at he
    exact ha.2 e he
  have hreq : ∀ e ∈ s'.calls, RequireOk e := fun e he => (hok e he).2
  cases h with
  | load h =>
    have ht := h.trace
    cases h with
    | dummy name hn => exact hsame (accounted_addPlaceholder ha.1 name) ht
    | placeholder n hn => exact hsame (accounted_addPlaceholder ha.1 n) ht
    | link orig d => exact ha
    | cleanup dummy d hd hk => exact hsame (accounted_cleanup ha.1 dummy d) ht
    | create file name reload orig d hr ho hp hro hl hn =>
      have hmem : LoadOk (.link orig (d.depends.map Prod.fst) d.beforeDeps,s.core,s.reg) :=
        (hok _ (replaced_calls file name orig d hr.entry)).1
      exact hsame (accounted_replaced file name ha.1 hg hr hmem hreq) ht
  | event h => exact h.allAccounted hg.sound.linked ha hok'
  | replace file orig d hr _ ho hreal ht =>
    refine hsame (accounted_replaced file _ ha.1 hg hr ho hreq) ?_
    exact (lax_trace.setConsumer _ _ d).trans (lax_trace.createRecord s file _ orig d)
  | @update w' file orig d hr _ ho hreal ht hm hw =>
    have hs := moves_settings hm
    have hsteps := (hw hg.sound.linked).1
    have htr := lax_trace.setConsumer (({ s with world := w' } : Loader).withSettings file orig) orig d
    rw [htr] at hok'
    have hu : w'.core.Linked ∧ w'.AllAccounted :=
      invariant_of_log World.trace RequiresOnce (fun w => w.core.Linked ∧ w.AllAccounted)
        (fun _ _ hu _ => hu.grows.mem) (fun _ _ hok hi hu => hu.allAccounted hi.1 hi.2 hok) hsteps hok'
        ⟨hg.sound.linked,ha⟩
    refine ⟨?_,fun e he => hu.2.2 e (by rwa [htr] at he)⟩
    have hset : (w'.core.setSvc orig fun s => { s with settings := { file.settings with
        serviceName := s.settings.serviceName } }).Accounted :=
      hu.2.1.of_balance (Core.balance_setSvc rfl rfl rfl)
    have hcore := setConsumer_core (({ s with world := w' } : Loader).withSettings file orig) orig d
    show (Loader.core _).Accounted
    rw [hcore]
    exact hset
  | unload i hi hreal hd hs =>
    have hun := hreq (.unload i,s.core,s.reg) (by rw [unloadService_calls]; exact List.mem_cons_self)
    exact hsame (accounted_unloadService ha.1 hg.sound hi hun) (lax_trace.unloadService s i)

/-- What accounts for requirements is complete all the time, in a run that meets the
condition. -/
theorem Reached.allAccounted (h : Reached s) (hok : ∀ e ∈ s.calls, LoadOk e ∧ RequireOk e)
    (hok' : ∀ e ∈ s.world.trace, RequiresOnce e) : s.Good ∧ s.world.AllAccounted := by
  have hempty : Loader.empty.world.AllAccounted :=
    ⟨fun _ => rfl,fun e he => by cases he⟩
  exact h.invariant_calls (fun e => LoadOk e ∧ RequireOk e) RequiresOnce
    (I := fun s => s.world.AllAccounted) hempty
    (fun _ _ hok hok' hg _ ha hs => hs.allAccounted hg ha hok hok') (fun _ he => he.1) hok hok'

/-- `required_by` of each service is its explicit activation and the links that hold it, at
every call and between any two requests of a run that meets the condition. -/
theorem Reached.accounted (h : Reached s) (hok : ∀ e ∈ s.calls, LoadOk e ∧ RequireOk e)
    (hok' : ∀ e ∈ s.world.trace, RequiresOnce e) :
    (∀ e ∈ s.world.trace, e.2.Accounted) ∧ s.core.Accounted ∧
      ∀ i, 0≤(s.core.svc i).requiredBy := by
  obtain ⟨-,ha⟩ := h.allAccounted hok hok'
  refine ⟨ha.2,ha.1,fun i => ?_⟩
  have hi := ha.1 i
  rw [show (s.core.svc i).requiredBy=_ from hi]
  exact Int.natCast_nonneg _

/-- A process service "x" with a dependency on "d". -/
def oneDependency : String → Except LoadError File
  | "x" => .ok { lines := [.dependsOn "d" .regular], settings := { recordType := .process }
                 isService := process_isService }
  | "d" => .ok { settings := { recordType := .internal }, isService := internal_isService }
  | n => .error (.notFound n)

/-- "x" is loaded and started; its process cannot be forked. It is then started again. -/
def startedAgain (pin : Bool) : List Ask :=
  [⟨oneDependency,.load "x"⟩,⟨oneDependency,.event (.startService 3 pin) 1 []⟩,
    ⟨oneDependency,.event (.startService 3 false) 2 [{ fork := some 41 }]⟩]

theorem accounted_started_again : ∃ s : Loader, Reached s ∧
    (∀ e ∈ s.calls, LoadOk e ∧ RequireOk e) ∧ (∀ e ∈ s.world.trace, RequiresOnce e) ∧
    (s.core.svc 2).requiredBy=1 ∧ s.core.Accounted := by
  obtain ⟨s,hs,hp⟩ := reached_of_run 10 (startedAgain false)
    (p := fun s => decide (∀ e ∈ s.calls, LoadOk e ∧ RequireOk e) &&
      decide (∀ e ∈ s.world.trace, RequiresOnce e) && decide ((s.core.svc 2).requiredBy=1))
    (by decide +kernel)
  simp only [Bool.and_eq_true,decide_eq_true_eq] at hp
  obtain ⟨⟨hok,hok'⟩,hr⟩ := hp
  exact ⟨s,hs,hok,hok',hr,(Reached.accounted hs hok hok').2.1⟩

/-- With a pin, the failed start leaves the dependency of "x" held, and the next one
requires it again. -/
theorem required_twice : ¬∀ s : Loader, Reached s → s.core.Accounted := by
  intro h
  obtain ⟨s,hs,hp⟩ := reached_of_run 10 (startedAgain true)
    (p := fun s => decide ((s.core.svc 2).requiredBy=2) && decide (s.core.accounts 2=1))
    (by decide +kernel)
  simp only [Bool.and_eq_true,decide_eq_true_eq] at hp
  have h2 := h s hs 2
  rw [hp.1,hp.2] at h2
  cases h2

end Loader
end Dinit
