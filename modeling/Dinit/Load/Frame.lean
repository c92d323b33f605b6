import Dinit.Load.Sound

namespace Dinit

open Framework Framework.Comp World

namespace Loader

/-- Each record is there once, at an address that has been allocated; what is being loaded
has a placeholder for a record, and placeholders consume nothing. -/
structure Tidy (s : Loader) : Prop where
  nodup : s.core.records.Nodup
  below : ∀ i ∈ s.core.records, i<s.reg.nextSvc
  loading : ∀ i, s.reg.isLoading i=true → (s.core.svc i).getType=.placeholder
  plain : ∀ i ∈ s.core.records, (s.core.svc i).getType=.placeholder → s.reg.consumerFor i=none
  consumer : ∀ p k, s.reg.logConsumer p=some k →
    k<s.reg.nextSvc ∧ (k ∈ s.core.records → (s.core.svc k).getType≠.placeholder)
  unused : ∀ i, s.reg.nextSvc≤ i →
    s.reg.isLoading i=false ∧ s.reg.consumerFor i=none ∧ s.reg.logConsumer i=none

/-- What the loading of other services leaves alone: services that are loaded, and the
addresses that were in use. -/
structure Keeps (s s' : Loader) : Prop where
  next : s.reg.nextSvc≤ s'.reg.nextSvc
  real : ∀ i<s.reg.nextSvc, (s.core.svc i).getType≠.placeholder →
    (s'.core.svc i).settings=(s.core.svc i).settings ∧
      (i ∈ s.core.records → i ∈ s'.core.records)
  old : ∀ i<s.reg.nextSvc, i ∈ s'.core.records →
    i ∈ s.core.records ∧ (s'.core.svc i).settings=(s.core.svc i).settings ∧
      s'.reg.isLoading i=s.reg.isLoading i
  fake : ∀ i<s.reg.nextSvc, (s.core.svc i).getType=.placeholder →
    (s'.core.svc i).getType=.placeholder
  calls : ∀ e ∈ s.calls, e ∈ s'.calls

variable {s s' s'' : Loader} {i : Nat}

theorem Keeps.refl (s : Loader) : Keeps s s :=
  ⟨Nat.le_refl _,fun _ _ _ => ⟨rfl,id⟩,fun _ _ h => ⟨h,rfl,rfl⟩,fun _ _ h => h,
    fun _ h => h⟩

theorem Keeps.trans (h : Keeps s s') (h' : Keeps s' s'') : Keeps s s'' where
  next := Nat.le_trans h.next h'.next
  real i hi ht := by
    obtain ⟨h1,h2⟩ := h.real i hi ht
    have hi' : i<s'.reg.nextSvc := Nat.lt_of_lt_of_le hi h.next
    obtain ⟨h3,h4⟩ := h'.real i hi' (by rwa [Svc.getType,h1])
    exact ⟨h3.trans h1,fun hm => h4 (h2 hm)⟩
  old i hi hm := by
    obtain ⟨h1,h2,h3⟩ := h'.old i (Nat.lt_of_lt_of_le hi h.next) hm
    obtain ⟨h4,h5,h6⟩ := h.old i hi h1
    exact ⟨h4,h2.trans h5,h3.trans h6⟩
  fake i hi ht := h'.fake i (Nat.lt_of_lt_of_le hi h.next) (h.fake i hi ht)
  calls e he := h'.calls e (h.calls e he)

/-- The records and what is known of them stay. -/
theorem keeps_of_eq (hr : s'.core.records=s.core.records)
    (hs : ∀ i, (s'.core.svc i).settings=(s.core.svc i).settings)
    (hn : s'.reg.nextSvc=s.reg.nextSvc) (hl : s'.reg.isLoading=s.reg.isLoading)
    (hc : ∀ e ∈ s.calls, e ∈ s'.calls) : Keeps s s' := by
  refine ⟨Nat.le_of_eq hn.symm,?_,?_,?_,hc⟩
  · intro i _ _
    rw [hr]
    exact ⟨hs i,id⟩
  · intro i _ hi
    rw [hr] at hi
    exact ⟨hi,hs i,by rw [hl]⟩
  · intro i _ ht
    rw [Svc.getType,hs]
    exact ht

theorem Tidy.of_eq (h : s.Tidy) (hr : s'.core.records=s.core.records)
    (hs : ∀ i, (s'.core.svc i).settings=(s.core.svc i).settings)
    (hn : s'.reg.nextSvc=s.reg.nextSvc) (hl : s'.reg.isLoading=s.reg.isLoading)
    (hc : s'.reg.consumerFor=s.reg.consumerFor) (hp : s'.reg.logConsumer=s.reg.logConsumer) :
    s'.Tidy := by
  have ht (i : Nat) : (s'.core.svc i).getType=(s.core.svc i).getType := by
    rw [Svc.getType,hs]
    rfl
  refine ⟨?_,?_,?_,?_,?_,?_⟩
  · rw [hr]
    exact h.nodup
  · rw [hr,hn]
    exact h.below
  · intro i hi
    rw [hl] at hi
    rw [ht]
    exact h.loading i hi
  · intro i hi hti
    rw [hr] at hi
    rw [ht] at hti
    rw [hc]
    exact h.plain i hi hti
  · intro p k hk
    rw [hp] at hk
    rw [hn,hr,ht]
    exact h.consumer p k hk
  · rw [hn,hl,hc,hp]
    exact h.unused

theorem delete_nextSvc (s : Loader) (i : Nat) : (s.delete i).reg.nextSvc=s.reg.nextSvc := by
  unfold Loader.delete
  split <;> rfl

theorem delete_calls (s : Loader) (i : Nat) : (s.delete i).calls=s.calls := by
  unfold Loader.delete
  split <;> rfl

theorem delete_isLoading (s : Loader) (i k : Nat) :
    (s.delete i).reg.isLoading k=if k=i then false else s.reg.isLoading k := by
  unfold Loader.delete
  split <;> rfl

theorem delete_consumerFor (s : Loader) (i k : Nat) :
    (s.delete i).reg.consumerFor k=if k=i then none else s.reg.consumerFor k := by
  unfold Loader.delete
  split <;> rfl

theorem delete_logConsumer {p k : Nat} (h : (s.delete i).reg.logConsumer p=some k) :
    p≠i ∧ s.reg.logConsumer p=some k := by
  unfold Loader.delete at h
  split at h
  · simp only [setLogConsumer,onReg_reg,onCore_reg] at h
    split_ifs at h with h1 h2
    exact ⟨h1,h⟩
  · simp only [onReg_reg,onCore_reg] at h
    split_ifs at h with h1
    exact ⟨h1,h⟩

/-- Registers of a record that has gone are empty. -/
theorem Tidy.delete (h : s.Tidy) (hi : i ∉ s.core.records) : (s.delete i).Tidy := by
  have hcore := delete_core s i
  have hrec : (s.delete i).core.records=s.core.records := by
    rw [hcore]
    rfl
  have hsvc {k : Nat} (hk : k≠i) : (s.delete i).core.svc k=s.core.svc k := by
    rw [hcore]
    simp [hk]
  have hne {k : Nat} (hk : k ∈ s.core.records) : k≠i := by
    rintro rfl
    exact hi hk
  refine ⟨?_,?_,?_,?_,?_,?_⟩
  · rw [hrec]
    exact h.nodup
  · rw [hrec,delete_nextSvc]
    exact h.below
  · intro k hk
    rw [delete_isLoading] at hk
    split_ifs at hk with hki
    rw [hsvc hki]
    exact h.loading k hk
  · intro k hk ht
    rw [hrec] at hk
    rw [hsvc (hne hk)] at ht
    rw [delete_consumerFor,if_neg (hne hk)]
    exact h.plain k hk ht
  · intro p k hk
    obtain ⟨h1,h2⟩ := h.consumer p k (delete_logConsumer hk).2
    rw [delete_nextSvc,hrec]
    refine ⟨h1,fun hm => ?_⟩
    rw [hsvc (hne hm)]
    exact h2 hm
  · intro k hk
    rw [delete_nextSvc] at hk
    obtain ⟨h1,h2,h3⟩ := h.unused k hk
    refine ⟨?_,?_,?_⟩
    · rw [delete_isLoading]
      split_ifs
      · rfl
      · exact h1
    · rw [delete_consumerFor]
      split_ifs
      · rfl
      · exact h2
    · by_contra hl
      obtain ⟨q,hq⟩ := Option.ne_none_iff_exists'.mp hl
      rw [(delete_logConsumer hq).2] at h3
      cases h3

/-- A placeholder is deleted. -/
theorem tidy_delete (h : s.Tidy) (ht : (s.core.svc i).getType=.placeholder)
    (hi : i ∉ s.core.records) : (s.delete i).Tidy ∧ Keeps s (s.delete i) := by
  have hcore := delete_core s i
  have hrec : (s.delete i).core.records=s.core.records := by
    rw [hcore]
    rfl
  have hsvc (k : Nat) (hk : k≠i) : (s.delete i).core.svc k=s.core.svc k := by
    rw [hcore]
    simp [hk]
  refine ⟨h.delete hi,?_,?_,?_,?_,by simp [delete_calls]⟩
  · exact Nat.le_of_eq (delete_nextSvc s i).symm
  · intro k _ hk
    have hki : k≠i := by
      rintro rfl
      exact hk ht
    rw [hsvc k hki,hrec]
    exact ⟨rfl,id⟩
  · intro k _ hk
    rw [hrec] at hk
    have hki : k≠i := by
      rintro rfl
      exact hi hk
    rw [hsvc k hki,delete_isLoading,if_neg hki]
    exact ⟨hk,rfl,rfl⟩
  · intro k _ hk
    by_cases hki : k=i
    · subst hki
      rw [hcore]
      simp [Svc.getType]
    · rwa [hsvc k hki]

theorem removeService_records (s : Loader) (i : Nat) :
    (s.removeService i).core.records=s.core.records.erase i := by
  unfold Loader.removeService requires
  split
  · rfl
  · next hc =>
    refine (List.erase_of_not_mem ?_).symm
    simpa using hc

theorem removeService_svc (s : Loader) (i : Nat) : (s.removeService i).core.svc=s.core.svc := by
  rcases removeService_core s i with h | h <;> rw [h]

theorem removeService_reg (s : Loader) (i : Nat) :
    (s.removeService i).reg.nextSvc=s.reg.nextSvc ∧
      (s.removeService i).reg.isLoading=s.reg.isLoading ∧
      (s.removeService i).reg.consumerFor=s.reg.consumerFor ∧
      (s.removeService i).reg.logConsumer=s.reg.logConsumer := by
  unfold Loader.removeService requires
  split <;> exact ⟨rfl,rfl,rfl,rfl⟩

theorem removeService_calls (s : Loader) (i : Nat) : (s.removeService i).calls=s.calls := by
  unfold removeService requires
  split <;> rfl

/-- A record leaves the set, if it is in it. -/
theorem Tidy.removeService (h : s.Tidy) (i : Nat) :
    (s.removeService i).Tidy ∧ i ∉ (s.removeService i).core.records := by
  obtain ⟨hn,hl,hc,hp⟩ := removeService_reg s i
  rw [removeService_records]
  refine ⟨⟨?_,?_,?_,?_,?_,?_⟩,h.nodup.not_mem_erase⟩
  · rw [removeService_records]
    exact h.nodup.erase i
  · rw [removeService_records,hn]
    exact fun k hk => h.below k (List.mem_of_mem_erase hk)
  · rw [hl,removeService_svc]
    exact h.loading
  · rw [removeService_records,hc,removeService_svc]
    exact fun k hk => h.plain k (List.mem_of_mem_erase hk)
  · rw [removeService_records,hn,hp,removeService_svc]
    exact fun p k hk => ⟨(h.consumer p k hk).1,
      fun hm => (h.consumer p k hk).2 (List.mem_of_mem_erase hm)⟩
  · rw [hn,hl,hc,hp]
    exact h.unused

/-- A placeholder leaves the set, if it is in it. -/
theorem tidy_removeService (h : s.Tidy) (ht : (s.core.svc i).getType=.placeholder) :
    (s.removeService i).Tidy ∧ Keeps s (s.removeService i) ∧
      i ∉ (s.removeService i).core.records := by
  obtain ⟨hn,hl,-,-⟩ := removeService_reg s i
  obtain ⟨h1,h2⟩ := h.removeService i
  refine ⟨h1,⟨Nat.le_of_eq hn.symm,?_,?_,?_,by simp [removeService_calls]⟩,h2⟩
  · intro k _ hk
    rw [removeService_svc,removeService_records]
    refine ⟨rfl,fun hm => (List.mem_erase_of_ne ?_).mpr hm⟩
    rintro rfl
    exact hk ht
  · intro k _ hk
    rw [removeService_records] at hk
    rw [removeService_svc,hl]
    exact ⟨List.mem_of_mem_erase hk,rfl,rfl⟩
  · intro k _ hk
    rwa [removeService_svc]

theorem tidy_dropPlaceholder (h : s.Tidy) (i : Nat) (b : Bool) :
    (s.dropPlaceholder i b).Tidy ∧ Keeps s (s.dropPlaceholder i b) := by
  by_cases hf : s.reg.freed i=true
  · have heq : s.dropPlaceholder i b=s.onReg fun r => { r with undefined := true } := by
      simp [dropPlaceholder,requires,hf]
    rw [heq]
    exact ⟨h.of_eq rfl (fun _ => rfl) rfl rfl rfl rfl,keeps_of_eq rfl (fun _ => rfl) rfl rfl fun _ h => h⟩
  · by_cases hp : (s.core.svc i).getType=.placeholder ∧ s.isUnrefd i=true
    · have heq : s.dropPlaceholder i b =
          if b then (s.removeService i).delete i else s.removeService i := by
        simp [dropPlaceholder,requires,hf,hp]
      obtain ⟨h1,h2,h3⟩ := tidy_removeService h hp.1
      have ht : ((s.removeService i).core.svc i).getType=.placeholder := by
        rw [removeService_svc]
        exact hp.1
      obtain ⟨h4,h5⟩ := tidy_delete h1 ht h3
      rw [heq]
      split_ifs
      · exact ⟨h4,h2.trans h5⟩
      · exact ⟨h1,h2⟩
    · have heq : s.dropPlaceholder i b=s := by
        simp only [dropPlaceholder,requires,hf]
        simp [hp]
      rw [heq]
      exact ⟨h,.refl s⟩

/-- A new record is known to nobody. -/
theorem tidy_allocate (h : s.Tidy) (settings : Settings) (loading : Bool)
    (ht : loading=true → settings.recordType=.placeholder) :
    (s.allocate settings loading).Tidy ∧ Keeps s (s.allocate settings loading) := by
  have hsvc := allocate_svc s settings loading
  have hload (k : Nat) : (s.allocate settings loading).reg.isLoading k =
      if k=s.reg.nextSvc then loading else s.reg.isLoading k := rfl
  have hne {k : Nat} (hk : k<s.reg.nextSvc) : k≠s.reg.nextSvc := Nat.ne_of_lt hk
  refine ⟨⟨h.nodup,?_,?_,?_,?_,?_⟩,?_,?_,?_,?_,fun _ h => h⟩
  · exact fun k hk => Nat.lt_succ_of_lt (h.below k hk)
  · intro k hk
    rw [hload] at hk
    rw [hsvc]
    split_ifs at hk ⊢ with hki
    · exact ht hk
    · exact h.loading k hk
  · intro k hk hkt
    rw [hsvc,if_neg (hne (h.below k hk))] at hkt
    exact h.plain k hk hkt
  · intro p k hk
    obtain ⟨h1,h2⟩ := h.consumer p k hk
    rw [hsvc,if_neg (hne h1)]
    exact ⟨Nat.lt_succ_of_lt h1,h2⟩
  · intro k hk
    have hk' : s.reg.nextSvc<k := hk
    rw [hload,if_neg (by omega)]
    exact h.unused k (by omega)
  · exact Nat.le_succ _
  · intro k hk _
    rw [hsvc,if_neg (hne hk)]
    exact ⟨rfl,id⟩
  · intro k hk hm
    rw [hsvc,if_neg (hne hk),hload,if_neg (hne hk)]
    exact ⟨hm,rfl,rfl⟩
  · intro k hk ht
    rwa [hsvc,if_neg (hne hk)]

/-- A new record joins the set. -/
theorem tidy_join (h : s.Tidy) (settings : Settings) (loading : Bool)
    (ht : loading=true → settings.recordType=.placeholder) :
    ((s.allocate settings loading).addService s.reg.nextSvc).Tidy ∧
      Keeps s ((s.allocate settings loading).addService s.reg.nextSvc) := by
  obtain ⟨h1,hk1⟩ := tidy_allocate h settings loading ht
  have hnew : s.reg.nextSvc ∉ s.core.records := fun hi => absurd (h.below _ hi) (Nat.lt_irrefl _)
  have hrec : ((s.allocate settings loading).addService s.reg.nextSvc).core.records =
    s.core.records++[s.reg.nextSvc] := rfl
  have hmem {k : Nat} (hm : k ∈ s.core.records++[s.reg.nextSvc]) :
      k ∈ s.core.records ∨ k=s.reg.nextSvc := by
    simpa using hm
  refine ⟨⟨?_,?_,h1.loading,?_,?_,h1.unused⟩,hk1.next,?_,?_,hk1.fake,fun _ h => h⟩
  · rw [hrec,List.nodup_append]
    refine ⟨h.nodup,by simp,?_⟩
    rintro a ha b hb rfl
    rw [List.mem_singleton.mp hb] at ha
    exact hnew ha
  · intro k hk
    rcases hmem hk with hk | rfl
    · exact h1.below k hk
    · exact Nat.lt_succ_self _
  · intro k hk hkt
    rcases hmem hk with hk | rfl
    · exact h1.plain k hk hkt
    · exact (h.unused _ (Nat.le_refl _)).2.1
  · intro p k hk
    obtain ⟨h2,h3⟩ := h1.consumer p k hk
    refine ⟨h2,fun hm => ?_⟩
    rcases hmem hm with hm | rfl
    · exact h3 hm
    · exact absurd (h.consumer p _ hk).1 (Nat.lt_irrefl _)
  · exact fun k hk ht => ⟨(hk1.real k hk ht).1,
      fun hm => List.mem_append_left _ ((hk1.real k hk ht).2 hm)⟩
  · intro k hk hm
    rcases hmem hm with hm | rfl
    · exact hk1.old k hk hm
    · exact absurd hk (Nat.lt_irrefl _)

section
variable {f : Core → Core}

/-- A change of the links. -/
theorem Tidy.onCore (h : s.Tidy) (hr : (f s.core).records=s.core.records)
    (hs : ∀ i, ((f s.core).svc i).settings=(s.core.svc i).settings) : (s.onCore f).Tidy :=
  h.of_eq hr hs rfl rfl rfl rfl

theorem keeps_onCore (hr : (f s.core).records=s.core.records)
    (hs : ∀ i, ((f s.core).svc i).settings=(s.core.svc i).settings) : Keeps s (s.onCore f) :=
  keeps_of_eq hr hs rfl rfl fun _ h => h

end

theorem tidy_dropDependency (h : s.Tidy) (l : Nat) :
    (s.dropDependency l).Tidy ∧ Keeps s (s.dropDependency l) := by
  have h1 : (s.onCore fun c => c.unlink l).Tidy := h.onCore rfl (Core.unlink_settings _ l)
  have hk1 : Keeps s (s.onCore fun c => c.unlink l) :=
    keeps_onCore rfl (Core.unlink_settings _ l)
  unfold dropDependency
  dsimp only
  split
  · obtain ⟨h2,hk2⟩ := tidy_dropPlaceholder h1 (s.core.link l).to_ true
    exact ⟨h2,hk1.trans hk2⟩
  · exact ⟨h1,hk1⟩

theorem rmDep_settings (c : Core) (l k : Nat) :
    ((c.rmDep l).svc k).settings=(c.svc k).settings := by
  rw [(Core.rmDep_graph c l).settings,Core.unlink_settings]

theorem tidy_dropDependent (h : s.Tidy) (l : Nat) :
    (s.dropDependent l).Tidy ∧ Keeps s (s.dropDependent l) := by
  have hr : (s.core.rmDep l).records=s.core.records := (Core.rmDep_graph s.core l).records
  have h1 : (s.onCore fun c => c.rmDep l).Tidy := h.onCore hr (rmDep_settings _ l)
  have hk1 : Keeps s (s.onCore fun c => c.rmDep l) := keeps_onCore hr (rmDep_settings _ l)
  obtain ⟨h2,hk2⟩ := tidy_dropPlaceholder h1 (s.core.link l).from_ true
  exact ⟨h2,hk1.trans hk2⟩

/-- A loop of changes that keep what is loaded. -/
theorem tidy_foldl {α : Type} {f : Loader → α → Loader} (xs : List α)
    (hf : ∀ (s : Loader) (x : α), s.Tidy → (f s x).Tidy ∧ Keeps s (f s x)) (h : s.Tidy) :
    (xs.foldl f s).Tidy ∧ Keeps s (xs.foldl f s) := by
  induction xs generalizing s with
  | nil => exact ⟨h,.refl s⟩
  | cons x xs ih =>
    obtain ⟨h1,hk1⟩ := hf s x h
    obtain ⟨h2,hk2⟩ := ih h1
    exact ⟨h2,hk1.trans hk2⟩

/-- What no round of a loop changes is the same after it. -/
theorem foldl_keep {α β : Type} {f : Loader → α → Loader} (g : Loader → β)
    (hf : ∀ s x, g (f s x)=g s) (xs : List α) (s : Loader) : g (xs.foldl f s)=g s := by
  induction xs generalizing s with
  | nil => rfl
  | cons x xs ih => exact (ih _).trans (hf s x)

section
variable (s)

theorem dropDependency_nextSvc (l : Nat) : (s.dropDependency l).reg.nextSvc=s.reg.nextSvc := by
  unfold dropDependency
  dsimp only
  split
  · rw [dropPlaceholder_nextSvc]
    rfl
  · rfl

theorem dropDependent_nextSvc (l : Nat) : (s.dropDependent l).reg.nextSvc=s.reg.nextSvc := by
  unfold dropDependent
  rw [dropPlaceholder_nextSvc]
  rfl

theorem prepareForUnload_nextSvc (i : Nat) :
    (s.prepareForUnload i).reg.nextSvc=s.reg.nextSvc := by
  unfold prepareForUnload
  dsimp only
  rw [foldl_keep (fun s => s.reg.nextSvc) dropDependent_nextSvc,
    foldl_keep (fun s => s.reg.nextSvc) dropDependency_nextSvc]

theorem dropPlaceholder_calls (i : Nat) (b : Bool) : (s.dropPlaceholder i b).calls=s.calls := by
  unfold dropPlaceholder requires
  split
  · dsimp only
    split
    · split
      · rw [delete_calls,removeService_calls]
      · rw [removeService_calls]
    · rfl
  · rfl

theorem dropDependency_calls (l : Nat) : (s.dropDependency l).calls=s.calls := by
  unfold dropDependency
  dsimp only
  split
  · rw [dropPlaceholder_calls]
    rfl
  · rfl

theorem dropDependent_calls (l : Nat) : (s.dropDependent l).calls=s.calls := by
  unfold dropDependent
  rw [dropPlaceholder_calls]
  rfl

theorem prepareForUnload_calls (i : Nat) : (s.prepareForUnload i).calls=s.calls := by
  unfold prepareForUnload
  dsimp only
  rw [foldl_keep Loader.calls dropDependent_calls,foldl_keep Loader.calls dropDependency_calls]

end

theorem tidy_prepareForUnload (h : s.Tidy) (i : Nat) :
    (s.prepareForUnload i).Tidy ∧ Keeps s (s.prepareForUnload i) := by
  obtain ⟨h1,hk1⟩ := tidy_foldl (s.core.svc i).dependsOn
    (fun u l hu => tidy_dropDependency hu l) h
  obtain ⟨h2,hk2⟩ := tidy_foldl ((((s.core.svc i).dependsOn.foldl dropDependency s).core.svc
    i).dependents) (fun u l hu => tidy_dropDependent hu l) h1
  exact ⟨h2,hk1.trans hk2⟩

end Loader
end Dinit
