import Dinit.Safety.Transfer

namespace Dinit

open Framework Framework.Comp

namespace Loader

variable {s s' s'' : Loader} {i orig : Nat} {d : Draft}

/-- A service knows its log consumer just if that knows what it consumes. -/
structure Consumers (s : Loader) : Prop where
  consumed : ∀ c p, s.reg.consumerFor c=some p →
    c ∈ s.core.records ∧ p ∈ s.core.records ∧ s.reg.logConsumer p=some c
  consumer : ∀ p ∈ s.core.records, ∀ c, s.reg.logConsumer p=some c → s.reg.consumerFor c=some p

/-- No service has got a log consumer that it had not. -/
def Fewer (s s' : Loader) : Prop :=
  ∀ p, s'.reg.logConsumer p=none ∨ s'.reg.logConsumer p=s.reg.logConsumer p

theorem Fewer.refl (s : Loader) : Fewer s s := fun _ => .inr rfl

theorem Fewer.of_eq (h : s'.reg.logConsumer=s.reg.logConsumer) : Fewer s s' :=
  fun p => .inr (congrFun h p)

theorem Fewer.trans (h : Fewer s s') (h' : Fewer s' s'') : Fewer s s'' := by
  intro p
  rcases h' p with h1 | h1
  · exact .inl h1
  · rw [h1]
    exact h p

theorem Fewer.none (h : Fewer s s') {p : Nat} (hp : s.reg.logConsumer p=none) :
    s'.reg.logConsumer p=none := by
  rcases h p with h1 | h1
  · exact h1
  · exact h1.trans hp

theorem Consumers.of_eq (h : s.Consumers) (hr : s'.core.records=s.core.records)
    (hc : s'.reg.consumerFor=s.reg.consumerFor) (hl : s'.reg.logConsumer=s.reg.logConsumer) :
    s'.Consumers := by
  refine ⟨?_,?_⟩
  · rw [hr,hc,hl]
    exact h.consumed
  · rw [hr,hc,hl]
    exact h.consumer

/-- A record that joins the set has no consumer yet. -/
theorem Consumers.join (h : s.Consumers) (ht : s.Tidy) (settings : Settings) (loading : Bool) :
    ((s.allocate settings loading).addService s.reg.nextSvc).Consumers := by
  refine ⟨?_,?_⟩
  · intro c p hc
    obtain ⟨h1,h2,h3⟩ := h.consumed c p hc
    exact ⟨List.mem_append_left _ h1,List.mem_append_left _ h2,h3⟩
  · intro p hp c hc
    rcases List.mem_append.mp hp with hp | hp
    · exact h.consumer p hp c hc
    · rw [List.mem_singleton] at hp
      have hc' : s.reg.logConsumer p=some c := hc
      rw [hp,(ht.unused s.reg.nextSvc (Nat.le_refl _)).2.2] at hc'
      cases hc'

theorem delete_reg_logConsumer (s : Loader) (i p : Nat) : (s.delete i).reg.logConsumer p =
    if p=i ∨ s.reg.consumerFor i=some p then none else s.reg.logConsumer p := by
  unfold delete
  split
  · next q hq =>
    rw [hq]
    simp only [onReg_reg,setLogConsumer,onCore_reg,Option.some.injEq]
    by_cases hp : p=i
    · simp [hp]
    · by_cases hpq : p=q
      · simp [hpq]
      · simp [hp,hpq,Ne.symm hpq]
  · next hq =>
    rw [hq]
    simp

theorem delete_fewer (s : Loader) (i : Nat) : Fewer s (s.delete i) := by
  intro p
  rw [delete_reg_logConsumer]
  split_ifs
  · exact .inl rfl
  · exact .inr rfl

theorem removeService_fewer (s : Loader) (i : Nat) : Fewer s (s.removeService i) :=
  .of_eq (removeService_reg s i).2.2.2

theorem dropPlaceholder_fewer (s : Loader) (i : Nat) (b : Bool) :
    Fewer s (s.dropPlaceholder i b) := by
  unfold dropPlaceholder requires
  dsimp only
  split_ifs
  · exact (removeService_fewer s i).trans (delete_fewer _ i)
  · exact removeService_fewer s i
  · exact .refl s
  all_goals exact .of_eq rfl

/-- A record without a log consumer is deleted; what it consumes may have been told before. -/
theorem Consumers.delete (h : s.Consumers)
    (hin : ∀ k ∈ s.core.records, k≠i → k ∈ s'.core.records)
    (hout : ∀ k ∈ s'.core.records, k≠i ∧ (k ∈ s.core.records ∨ s'.reg.logConsumer k=none))
    (hl : s.reg.logConsumer i=none) (hc : s'.reg.consumerFor=s.reg.consumerFor)
    (hlog : ∀ p, s.reg.consumerFor i≠some p → s'.reg.logConsumer p=s.reg.logConsumer p) :
    (s'.delete i).Consumers := by
  have hrec : (s'.delete i).core.records=s'.core.records := by
    rw [delete_core]
    rfl
  refine ⟨?_,?_⟩
  · intro c p hcp
    rw [delete_consumerFor,hc] at hcp
    split_ifs at hcp with hci
    obtain ⟨h1,h2,h3⟩ := h.consumed c p hcp
    have hpi : p≠i := by
      rintro rfl
      rw [hl] at h3
      cases h3
    have hnot : s.reg.consumerFor i≠some p := by
      intro hp
      rw [(h.consumed i p hp).2.2] at h3
      exact hci (Option.some.inj h3).symm
    rw [hrec,delete_reg_logConsumer,hc,if_neg (by simp [hpi,hnot]),hlog p hnot]
    exact ⟨hin c h1 hci,hin p h2 hpi,h3⟩
  · intro p hp c hpc
    rw [hrec] at hp
    rw [delete_reg_logConsumer,hc] at hpc
    split_ifs at hpc with hn
    have hnot : s.reg.consumerFor i≠some p := fun hp => hn (.inr hp)
    obtain ⟨-,hps | hps⟩ := hout p hp
    · rw [hlog p hnot] at hpc
      have h1 := h.consumer p hps c hpc
      rw [delete_consumerFor,hc,if_neg]
      · exact h1
      · rintro rfl
        exact hnot h1
    · rw [hps] at hpc
      cases hpc

/-- A record without a log consumer leaves the set. -/
theorem Consumers.remove_delete (h : s.Consumers) (hn : s.core.records.Nodup)
    (hl : s.reg.logConsumer i=none) : ((s.removeService i).delete i).Consumers := by
  obtain ⟨-,-,hc,hlog⟩ := removeService_reg s i
  refine h.delete ?_ ?_ hl hc fun p _ => congrFun hlog p
  · intro k hk hki
    rw [removeService_records]
    exact (List.mem_erase_of_ne hki).mpr hk
  · intro k hk
    rw [removeService_records,hn.mem_erase_iff] at hk
    exact ⟨hk.1,.inl hk.2⟩

theorem isUnrefd_logConsumer (h : s.isUnrefd i=true) : s.reg.logConsumer i=none := by
  simp only [isUnrefd,Bool.and_eq_true,Option.isNone_iff_eq_none] at h
  exact h.2

theorem Consumers.dropPlaceholder (h : s.Consumers) (ht : s.Tidy) (i : Nat) (b : Bool) :
    (s.dropPlaceholder i b).Consumers := by
  by_cases hf : s.reg.freed i=true
  · refine h.of_eq ?_ ?_ ?_ <;> simp [Loader.dropPlaceholder,requires,hf]
  by_cases hp : s.core.spare s.reg i=true
  · rw [dropPlaceholder_of_spare (by simpa using hf) hp]
    obtain ⟨hpt,hu⟩ := spare_iff.mp hp
    have hl := isUnrefd_logConsumer hu
    cases b with
    | true => exact h.remove_delete ht.nodup hl
    | false =>
      obtain ⟨-,-,hc,hlog⟩ := removeService_reg s i
      refine ⟨?_,?_⟩
      · intro c p hcp
        have hcp' : (s.removeService i).reg.consumerFor c=some p := hcp
        rw [hc] at hcp'
        obtain ⟨h1,h2,h3⟩ := h.consumed c p hcp'
        have hci : c≠i := by
          rintro rfl
          rw [ht.plain c h1 hpt] at hcp'
          cases hcp'
        have hpi : p≠i := by
          rintro rfl
          rw [hl] at h3
          cases h3
        show c ∈ (s.removeService i).core.records ∧ p ∈ (s.removeService i).core.records ∧
          (s.removeService i).reg.logConsumer p=some c
        rw [removeService_records,hlog]
        exact ⟨(List.mem_erase_of_ne hci).mpr h1,(List.mem_erase_of_ne hpi).mpr h2,h3⟩
      · intro p hps c hpc
        have hps' : p ∈ (s.removeService i).core.records := hps
        have hpc' : (s.removeService i).reg.logConsumer p=some c := hpc
        rw [removeService_records] at hps'
        rw [hlog] at hpc'
        show (s.removeService i).reg.consumerFor c=some p
        rw [hc]
        exact h.consumer p (List.mem_of_mem_erase hps') c hpc'
  · rw [dropPlaceholder_of_not_spare (by simpa using hf) hp]
    exact h

/-- A loop over records or links, each round of which may drop a placeholder. -/
theorem foldl_consumers {α : Type} {f : Loader → α → Loader} (xs : List α)
    (ht : ∀ u x, u.Tidy → (f u x).Tidy) (hc : ∀ u x, u.Tidy → u.Consumers → (f u x).Consumers)
    (hf : ∀ u x, Fewer u (f u x)) (h : s.Tidy) (hs : s.Consumers) :
    (xs.foldl f s).Tidy ∧ (xs.foldl f s).Consumers ∧ Fewer s (xs.foldl f s) := by
  induction xs generalizing s with
  | nil => exact ⟨h,hs,.refl s⟩
  | cons x xs ih =>
    obtain ⟨h1,h2,h3⟩ := ih (ht s x h) (hc s x h hs)
    exact ⟨h1,h2,(hf s x).trans h3⟩

theorem Consumers.dropDependency (h : s.Consumers) (ht : s.Tidy) (l : Nat) :
    (s.dropDependency l).Consumers := by
  have h1 : (s.onCore fun c => c.unlink l).Consumers := h.of_eq rfl rfl rfl
  have ht1 : (s.onCore fun c => c.unlink l).Tidy := ht.onCore rfl (Core.unlink_settings _ l)
  unfold Loader.dropDependency
  dsimp only
  split
  · exact h1.dropPlaceholder ht1 _ true
  · exact h1

theorem dropDependency_fewer (s : Loader) (l : Nat) : Fewer s (s.dropDependency l) := by
  unfold dropDependency
  dsimp only
  split
  · exact dropPlaceholder_fewer (s.onCore fun c => c.unlink l) _ true
  · exact .of_eq rfl

theorem Consumers.dropDependent (h : s.Consumers) (ht : s.Tidy) (l : Nat) :
    (s.dropDependent l).Consumers := by
  have hr : (s.core.rmDep l).records=s.core.records := (Core.rmDep_graph s.core l).records
  have h1 : (s.onCore fun c => c.rmDep l).Consumers := h.of_eq hr rfl rfl
  have ht1 : (s.onCore fun c => c.rmDep l).Tidy := ht.onCore hr (rmDep_settings _ l)
  exact h1.dropPlaceholder ht1 _ true

theorem dropDependent_fewer (s : Loader) (l : Nat) : Fewer s (s.dropDependent l) :=
  dropPlaceholder_fewer (s.onCore fun c => c.rmDep l) _ true

theorem Consumers.prepareForUnload (h : s.Consumers) (ht : s.Tidy) (i : Nat) :
    (s.prepareForUnload i).Tidy ∧ (s.prepareForUnload i).Consumers ∧
      Fewer s (s.prepareForUnload i) := by
  obtain ⟨h1,h2,h3⟩ := foldl_consumers (s.core.svc i).dependsOn (f := Loader.dropDependency)
    (fun u l hu => (tidy_dropDependency hu l).1) (fun u l hu hc => hc.dropDependency hu l)
    dropDependency_fewer ht h
  obtain ⟨h4,h5,h6⟩ := foldl_consumers
    (((s.core.svc i).dependsOn.foldl Loader.dropDependency s).core.svc i).dependents
    (f := Loader.dropDependent) (fun u l hu => (tidy_dropDependent hu l).1)
    (fun u l hu hc => hc.dropDependent hu l) dropDependent_fewer h1 h2
  exact ⟨h4,h5,h3.trans h6⟩

theorem Consumers.withLinks (h : s.Consumers) (file : File) (fullname : String) (orig : Nat) (d : Draft) :
    (s.withLinks file fullname orig d).Consumers ∧ Fewer s (s.withLinks file fullname orig d) := by
  have hr := withLinks_records s file fullname orig d
  have hc := withLinks_keep s file fullname orig d (fun s => s.reg.consumerFor) fun _ _ _ _ => rfl
  have hl := withLinks_keep s file fullname orig d (fun s => s.reg.logConsumer) fun _ _ _ _ => rfl
  exact ⟨h.of_eq hr hc hl,.of_eq hl⟩

theorem Consumers.takeOver (h : s.Consumers) (ht : s.Tidy) (i orig : Nat) :
    (s.takeOver i orig).Consumers ∧ Fewer s (s.takeOver i orig) := by
  obtain ⟨-,h2,h3⟩ := foldl_consumers (f := Loader.dropDependent)
    ((s.core.svc orig).dependents.filter fun l => (s.core.link l).depType==.before)
    (fun u l hu => (tidy_dropDependent hu l).1) (fun u l hu hc => hc.dropDependent hu l)
    dropDependent_fewer ht h
  rw [takeOver_eq]
  exact ⟨h2.of_eq rfl rfl rfl,h3.trans (.of_eq rfl)⟩

theorem dropConsumed_consumers (s : Loader) (orig : Nat) (p : Option Nat) :
    (s.dropConsumed orig p).reg.consumerFor=s.reg.consumerFor ∧
      Fewer s (s.dropConsumed orig p) ∧
      ∀ q, s.reg.consumerFor orig≠some q →
        (s.dropConsumed orig p).reg.logConsumer q=s.reg.logConsumer q := by
  unfold dropConsumed
  split
  · next r hr =>
    split_ifs
    · refine ⟨rfl,?_,?_⟩
      · intro q
        simp only [setLogConsumer,onReg_reg]
        split_ifs
        · exact .inl rfl
        · exact .inr rfl
      · intro q hq
        have hqr : q≠r := by
          rintro rfl
          exact hq hr
        simp [setLogConsumer,hqr]
    · exact ⟨rfl,.refl s,fun _ _ => rfl⟩
  · exact ⟨rfl,.refl s,fun _ _ => rfl⟩

theorem Consumers.retire (h : s.Consumers) (ht : s.Tidy) {i : Nat} (hi : i≠orig)
    (hl : s.reg.logConsumer orig=none) (hli : s.reg.logConsumer i=none) :
    ((s.retire orig d i).putInPlace orig i).Consumers ∧
      Fewer s ((s.retire orig d i).putInPlace orig i) := by
  have hsame : (if (s.core.svc i).isProcess then s.handConsumer i orig else s)=s := by
    unfold handConsumer
    rw [hl]
    exact ite_self s
  unfold Loader.retire
  dsimp only
  rw [hsame]
  obtain ⟨ht1,h1,hf1⟩ := h.prepareForUnload ht orig
  generalize s.prepareForUnload orig=u at ht1 h1 hf1 ⊢
  generalize hv : (if (u.core.svc orig).getType=.process ∨ (u.core.svc orig).getType=.bgprocess then
    u.dropConsumed orig d.consumerOf else u)=v
  obtain ⟨hc,hf2,hlog⟩ := dropConsumed_consumers u orig d.consumerOf
  have hv' : v.core=u.core ∧ v.reg.consumerFor=u.reg.consumerFor ∧ Fewer u v ∧
      ∀ q, u.reg.consumerFor orig≠some q → v.reg.logConsumer q=u.reg.logConsumer q := by
    rw [← hv]
    split_ifs
    · exact ⟨dropConsumed_core u orig _,hc,hf2,hlog⟩
    · exact ⟨rfl,rfl,.refl u,fun _ _ => rfl⟩
  obtain ⟨hcore,hcv,hfv,hlv⟩ := hv'
  have hf : Fewer s v := hf1.trans hfv
  refine ⟨?_,hf.trans ?_⟩
  · refine h1.delete ?_ ?_ (hf1.none hl) hcv hlv
    · intro k hk hko
      refine List.mem_map.mpr ⟨k,?_,if_neg hko⟩
      show k ∈ v.core.records
      rwa [hcore]
    · intro k hk
      rcases mem_replace hk with ⟨rfl,-⟩ | ⟨hk,hko⟩
      · exact ⟨hi,.inr (hf.none hli)⟩
      · have hk' : k ∈ v.core.records := hk
        rw [hcore] at hk'
        exact ⟨hko,.inl hk'⟩
  · exact Fewer.trans (.of_eq rfl) (delete_fewer _ orig)

/-- A record without a log consumer makes way for another. -/
theorem Consumers.createRecord (h : s.Consumers) (ht : s.Tidy) (file : File) (fullname : String)
    (d : Draft) (ho : orig<s.reg.nextSvc) (hl : s.reg.logConsumer orig=none) :
    (s.createRecord file fullname orig d).2.Consumers ∧
      Fewer s (s.createRecord file fullname orig d).2 := by
  obtain ⟨h1,hf1⟩ := h.withLinks file fullname orig d
  have ht1 := (tidy_withLinks file fullname orig d ht).1
  obtain ⟨h2,hf2⟩ := h1.takeOver ht1 s.reg.nextSvc orig
  have ht2 := (tidy_takeOver ht1 s.reg.nextSvc orig).1
  have hf := hf1.trans hf2
  obtain ⟨h3,hf3⟩ := h2.retire (d := d) ht2 (Nat.ne_of_gt ho) (hf.none hl)
    (hf.none (ht.unused s.reg.nextSvc (Nat.le_refl _)).2.2)
  rw [createRecord_snd]
  exact ⟨h3,hf.trans hf3⟩

/-- A consumer is told what it consumes, which nobody else does. -/
theorem Consumers.setConsumer (h : s.Consumers) (hi : i ∈ s.core.records)
    (hc : s.reg.consumerFor i=none ∨ s.reg.consumerFor i=d.consumerOf)
    (hp : ∀ p ∈ d.consumerOf, p ∈ s.core.records ∧
      (s.reg.logConsumer p=none ∨ s.reg.logConsumer p=some i)) :
    (s.setConsumer i d).Consumers := by
  unfold Loader.setConsumer
  dsimp only
  split
  · cases hd : d.consumerOf with
    | none =>
      rw [hd] at hc
      have hc' : s.reg.consumerFor i=none := hc.elim id id
      refine h.of_eq rfl ?_ rfl
      funext k
      simp only [setConsumerFor,onReg_reg,push_reg]
      split_ifs with hk
      · rw [hk,hc']
      · rfl
    | some p =>
      obtain ⟨hpr,hlp⟩ := hp p hd
      refine ⟨?_,?_⟩
      · intro c q hcq
        simp only [setLogConsumer,setConsumerFor,onReg_reg,push_reg] at hcq ⊢
        split_ifs at hcq with hci
        · obtain rfl := Option.some.inj hcq
          rw [hci,if_pos rfl]
          exact ⟨hi,hpr,rfl⟩
        · obtain ⟨h1,h2,h3⟩ := h.consumed c q hcq
          have hqp : q≠p := by
            rintro rfl
            rw [h3] at hlp
            rcases hlp with hlp | hlp
            · cases hlp
            · exact hci (Option.some.inj hlp)
          rw [if_neg hqp]
          exact ⟨h1,h2,h3⟩
      · intro q hq c hqc
        simp only [setLogConsumer,setConsumerFor,onReg_reg,push_reg] at hqc ⊢
        split_ifs at hqc with hqp
        · rw [if_pos (Option.some.inj hqc).symm,hqp]
        · have h1 := h.consumer q hq c hqc
          have hci : c≠i := by
            rintro rfl
            rw [h1,hd] at hc
            rcases hc with hc | hc
            · cases hc
            · exact hqp (Option.some.inj hc)
          rw [if_neg hci]
          exact h1
  · exact h

theorem Consumers.unloadService (h : s.Consumers) (ht : s.Tidy) (i : Nat)
    (hl : s.reg.logConsumer i=none) : (s.unloadService i).Consumers := by
  have h1 : (s.unloading i).Consumers ∧ Fewer s (s.unloading i) := by
    have hp : (s.push (.unload i)).Consumers := h.of_eq rfl rfl rfl
    unfold unloading
    split_ifs
    · have hj := hp.join (tidy_push ht (.unload i))
        { serviceName := ((s.push (.unload i)).core.svc i).settings.serviceName } false
      exact ⟨hj.of_eq rfl rfl rfl,.of_eq rfl⟩
    · exact ⟨hp,.of_eq rfl⟩
  obtain ⟨ht2,h2,hf2⟩ := h1.1.prepareForUnload (tidy_unloading ht i).1 i
  rw [unloadService_eq]
  exact h2.remove_delete ht2.nodup (hf2.none (h1.2.none hl))

theorem Consumers.cleanup (h : s.Consumers) (ht : s.Tidy) {dummy : Option Nat} (d : Draft)
    (hd : ∀ i ∈ dummy, (s.core.svc i).getType=.placeholder)
    (hl : ∀ i ∈ dummy, s.reg.logConsumer i=none) : (s.cleanup dummy d).Consumers := by
  have ht1 := tidy_push ht (.cleanup dummy d.beforeDeps d.afterDeps d.consumerOf.toList)
  have h1 : (s.push (.cleanup dummy d.beforeDeps d.afterDeps d.consumerOf.toList)).Consumers :=
    h.of_eq rfl rfl rfl
  have h2 : ((s.push (.cleanup dummy d.beforeDeps d.afterDeps d.consumerOf.toList)).dropDummy
      dummy).Consumers := by
    cases dummy with
    | none => exact h1
    | some i => exact h1.remove_delete ht1.nodup (hl i rfl)
  obtain ⟨ht2,-⟩ := tidy_dropDummy ht1 _ hd
  rw [cleanup_eq]
  exact (foldl_consumers (candidates d)
    (f := fun s (x : Nat × Bool) => s.dropPlaceholder x.1 x.2)
    (fun u x hu => (tidy_dropPlaceholder hu x.1 x.2).1)
    (fun u x hu hc => hc.dropPlaceholder hu x.1 x.2)
    (fun u x => dropPlaceholder_fewer u x.1 x.2) ht2 h2).2.1

end Loader

/-- What the loader relies on where it changes log consumers: what is replaced, unloaded or
given up has none, and a consumer that is told what it consumes has not consumed anything
else before, and finds that in the set. -/
def ConsumerOk : LoadCall × Core × Registry → Prop
  | (.replace orig _,_,r) => r.logConsumer orig=none
  | (.unload i,_,r) => r.logConsumer i=none
  | (.cleanup dummy _ _ _,_,r) => ∀ i ∈ dummy, r.logConsumer i=none
  | (.consume i consumed,c,r) =>
    (r.consumerFor i=none ∨ r.consumerFor i=consumed) ∧ ∀ p ∈ consumed, p ∈ c.records
  | _ => True

instance : DecidablePred ConsumerOk
  | (.replace orig _,_,r) => inferInstanceAs (Decidable (r.logConsumer orig=none))
  | (.unload i,_,r) => inferInstanceAs (Decidable (r.logConsumer i=none))
  | (.cleanup dummy _ _ _,_,r) => inferInstanceAs (Decidable (∀ i ∈ dummy, r.logConsumer i=none))
  | (.consume i consumed,c,r) => inferInstanceAs (Decidable (
      (r.consumerFor i=none ∨ r.consumerFor i=consumed) ∧ ∀ p ∈ consumed, p ∈ c.records))
  | (.link _ _ _,_,_) | (.transfer _,_,_) => .isTrue trivial

namespace Loader

variable {s s' : Loader} {orig : Nat} {d : Draft}

/-- A consumer is told, unless it is of a type that consumes nothing. -/
theorem setConsumer_told (s : Loader) (i : Nat) (d : Draft) : s.setConsumer i d=s ∨
    (.consume i d.consumerOf,s.core,s.reg) ∈ (s.setConsumer i d).calls := by
  unfold setConsumer
  dsimp only
  split
  · right
    split <;> exact List.mem_cons_self
  · exact .inl rfl

/-- The new record is told what it consumes. -/
theorem Consumers.replaced (h : s.Consumers) (hg : s.Good) (file : File) (fullname : String)
    {reload : Option Nat} (hr : s.Ready reload orig d) (hro : reload=none ∨ reload=some orig)
    (ho : orig ∈ s.core.records)
    (hok : ∀ e ∈ ((s.createRecord file fullname orig d).2.setConsumer s.reg.nextSvc d).calls,
      ConsumerOk e) :
    ((s.createRecord file fullname orig d).2.setConsumer s.reg.nextSvc d).Consumers := by
  have hlt := hg.tidy.below orig ho
  have hrep : ConsumerOk (.replace orig s.reg.nextSvc,s.core,s.reg) := by
    refine hok _ (setConsumer_calls_mem _ d ?_)
    rw [createRecord_transfer]
    simp
  obtain ⟨h1,hf⟩ := h.createRecord hg.tidy file fullname d hlt hrep
  have hnew := (hg.sound.createRecord file fullname (hr.known.mem hg.trusted) hr.known.before ho).2
  have hnot := createRecord_not_mem file fullname (d := d) hlt
  rcases setConsumer_told (s.createRecord file fullname orig d).2 s.reg.nextSvc d with he | he
  · rw [he]
    exact h1
  · obtain ⟨hc,hp⟩ := hok _ he
    refine h1.setConsumer hnew hc fun p hpd => ⟨hp p hpd,.inl ?_⟩
    rcases hf p with hn | hn
    · exact hn
    rcases hr.unconsumed p hpd with hu | hu
    · exact hn.trans hu
    rcases hro with hro | hro
    · exact hn.trans (hu.trans hro)
    · have hco := h1.consumer p (hp p hpd) orig (hn.trans (hu.trans hro))
      exact absurd (h1.consumed orig p hco).1 hnot

/-- Every step keeps the two ends in agreement, if the calls made meet the condition. -/
theorem RequestStep.consumers (h : RequestStep s s') (hg : s.Good) (hc : s.Consumers)
    (hok : ∀ e ∈ s'.calls, LoadOk e ∧ ConsumerOk e) : s'.Consumers := by
  have hmem {orig : Nat} {before depends : List Nat} {c : Core} {r : Registry}
      (he : (.link orig depends before,c,r) ∈ s.calls) : orig ∈ c.records := by
    have hl : LoadOk (.link orig depends before,c,r) := (hok _ (h.calls _ he)).1
    exact hl
  cases h with
  | load h =>
    cases h with
    | dummy fullname hn => exact hc.join hg.tidy _ true
    | placeholder n hn => exact hc.join hg.tidy _ false
    | link orig d => exact hc.of_eq rfl rfl rfl
    | cleanup dummy d hd hk =>
      refine hc.cleanup hg.tidy d hd ?_
      have he := (hok (.cleanup dummy d.beforeDeps d.afterDeps d.consumerOf.toList,s.core,s.reg) (by
        rw [cleanup_calls]
        exact List.mem_cons_self)).2
      exact he
    | create file fullname reload orig d hr ho hp hro hl hn =>
      exact hc.replaced hg file fullname hr hro (hmem hr.entry) fun e he => (hok e he).2
  | event h =>
    have hs : s.world.SameSettings _ := h.settings
    exact hc.of_eq hs.1 rfl rfl
  | replace file orig d hr _ ho hreal ht =>
    exact hc.replaced hg file _ hr (.inr rfl) ho fun e he => (hok e he).2
  | @update w' file orig d hr _ ho hreal ht hm hw =>
    have hs := moves_settings hm
    have h1 : (({ s with world := w' } : Loader).withSettings file orig).Consumers :=
      hc.of_eq hs.1 rfl rfl
    rcases setConsumer_told (({ s with world := w' } : Loader).withSettings file orig) orig d with
      he | he
    · rw [he]
      exact h1
    · obtain ⟨hcc,hp⟩ := (hok _ he).2
      refine h1.setConsumer ?_ hcc fun p hpd => ⟨hp p hpd,hr.unconsumed p hpd⟩
      show orig ∈ w'.core.records
      rw [hs.1]
      exact ho
  | unload i hi hreal hd hs =>
    refine hc.unloadService hg.tidy i ?_
    have he := (hok (.unload i,s.core,s.reg) (by
      rw [unloadService_calls]
      exact List.mem_cons_self)).2
    exact he

/-- The two ends of each log-consumer link agree and are in the set, between any two requests
of a run that meets the condition. -/
theorem Reached.consumers_agree (h : Reached s) (hok : ∀ e ∈ s.calls, LoadOk e ∧ ConsumerOk e) :
    (∀ c ∈ s.core.records,
      (s.core.svc c).getType=.process ∨ (s.core.svc c).getType=.bgprocess →
        ∀ p ∈ s.core.records, s.reg.consumerFor c=some p ↔ s.reg.logConsumer p=some c) ∧
    (∀ c ∈ s.core.records, ∀ p, s.reg.consumerFor c=some p → p ∈ s.core.records) ∧
    ∀ p ∈ s.core.records, ∀ c, s.reg.logConsumer p=some c → c ∈ s.core.records := by
  have hempty : Loader.empty.Consumers := by
    refine ⟨?_,?_⟩
    · intro c p hc
      cases hc
    · intro p hp
      cases hp
  obtain ⟨-,hc⟩ := h.invariant (fun e => LoadOk e ∧ ConsumerOk e) (I := Consumers) hempty
    (fun _ _ hok hg _ hc hs => hs.consumers hg hc hok) (fun _ he => he.1) hok
  refine ⟨?_,?_,?_⟩
  · intro c _ _ p hp
    exact ⟨fun hcp => (hc.consumed c p hcp).2.2,hc.consumer p hp c⟩
  · intro c _ p hcp
    exact (hc.consumed c p hcp).2.1
  · intro p hp c hpc
    exact (hc.consumed c p (hc.consumer p hp c hpc)).1

/-- A service "p" that logs to a pipe, and "c" that consumes its output. -/
def producerAndConsumer : String → Except LoadError File
  | "p" => .ok { settings := { recordType := .process }, logType := .pipe, isService := process_isService }
  | "c" => .ok
    { lines := [.consumerOf "p"], settings := { recordType := .process }, isService := process_isService }
  | n => .error (.notFound n)

/-- The producer is loaded first, and the consumer then loaded and reloaded. -/
theorem consumers_agree_producer_first : ∃ s, Reached s ∧
    (∀ e ∈ s.calls, LoadOk e ∧ ConsumerOk e) ∧ s.reg.consumerFor 3=some 1 ∧
    s.reg.logConsumer 1=some 3 := by
  obtain ⟨s,hs,hp⟩ := reached_of_run 10
    ([⟨producerAndConsumer,.load "p"⟩,⟨producerAndConsumer,.load "c"⟩,
      ⟨producerAndConsumer,.reload 3⟩])
    (p := fun s => decide (∀ e ∈ s.calls, LoadOk e ∧ ConsumerOk e) &&
      decide (s.core.records=[1,3] ∧ (s.core.svc 3).getType=.process ∧ s.reg.consumerFor 3=some 1))
    (by decide +kernel)
  simp only [Bool.and_eq_true,decide_eq_true_eq] at hp
  obtain ⟨hok,hr,ht,hc⟩ := hp
  refine ⟨s,hs,hok,hc,((hs.consumers_agree hok).1 3 ?_ (.inl ht) 1 ?_).mp hc⟩ <;> rw [hr] <;> simp

/-- The consumer is loaded first, and the producer then over its placeholder: the new record
does not know its consumer. -/
theorem consumers_disagree : ¬∀ s, Reached s → ∀ c ∈ s.core.records,
    (s.core.svc c).getType=.process ∨ (s.core.svc c).getType=.bgprocess →
      ∀ p ∈ s.core.records, s.reg.consumerFor c=some p ↔ s.reg.logConsumer p=some c := by
  intro h
  obtain ⟨s,hs,hp⟩ := reached_of_run 10
    ([⟨producerAndConsumer,.load "c"⟩,⟨producerAndConsumer,.load "p"⟩])
    (p := fun s => decide (s.core.records=[2,3] ∧ (s.core.svc 2).getType=.process ∧
      s.reg.consumerFor 2=some 3 ∧ s.reg.logConsumer 3=none)) (by decide +kernel)
  simp only [decide_eq_true_eq] at hp
  obtain ⟨hr,ht,hc,hl⟩ := hp
  have hiff := h s hs 2 (by simp [hr]) (.inl ht) 3 (by simp [hr])
  rw [hl] at hiff
  exact absurd (hiff.mp hc) (by simp)

end Loader
end Dinit
