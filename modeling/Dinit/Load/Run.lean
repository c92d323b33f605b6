import Dinit.Load.Update

namespace Dinit

open Framework Framework.Comp World Relation

/-- Events change links and what services are doing. -/
theorem EventStep.settings {w w' : World} (h : EventStep w w') : w.SameSettings w' := by
  rcases h.graph with hg | ⟨f,t,depType,-,-,rfl⟩ | ⟨f,l,-,-,rfl⟩
  · exact .of_graph hg
  · have hg := Core.addDepAt_graph w.core f t depType (w.core.svc f).dependsOn.length
    exact ⟨hg.records,fun k => (hg.settings k).trans (Core.linkAt_settings ..)⟩
  · have hg := Core.rmDep_graph w.core l
    exact ⟨hg.records,fun k => (hg.settings k).trans (Core.unlink_settings ..)⟩

namespace Loader

variable {s s' : Loader}

/-- The links that stay behind when a service is unloaded: "after" links to it and "before"
links from it, which others have made. -/
def leaves (s : Loader) (i : Nat) : List Nat × List Nat :=
  ((s.core.svc i).dependents.filter fun l => (s.core.link l).depType==.after,
    (s.core.svc i).dependsOn.filter fun l => (s.core.link l).depType==.before)

/-- A placeholder for `i` takes the links that others have made. -/
def leavePlaceholder (s : Loader) (i : Nat) : Loader :=
  (s.addPlaceholder (s.core.svc i).settings.serviceName).onCore fun c =>
    (c.moveDependents i s.reg.nextSvc (s.leaves i).1).moveDependencies i s.reg.nextSvc (s.leaves i).2

/-- The service set when a service is about to be prepared for its unloading. -/
def unloading (s : Loader) (i : Nat) : Loader :=
  if (s.reg.logConsumer i).isSome ∨ (s.leaves i).1≠[] ∨ (s.leaves i).2≠[] then
    (s.push (.unload i)).leavePlaceholder i
  else s.push (.unload i)

theorem unloadService_eq (s : Loader) (i : Nat) : s.unloadService i =
    (((s.unloading i).prepareForUnload i).removeService i).delete i := rfl

theorem leaves_disjoint {i l : Nat} (h : l ∈ (s.leaves i).2) : l ∉ (s.leaves i).1 := by
  intro h'
  have h1 := (List.mem_filter.mp h).2
  have h2 := (List.mem_filter.mp h').2
  simp only [beq_iff_eq] at h1 h2
  rw [h1] at h2
  cases h2

theorem Sound.leavePlaceholder (h : s.Sound []) {i : Nat} (hi : i ∈ s.core.records) :
    (s.leavePlaceholder i).Sound [] := by
  have hlt {k : Nat} (hk : k ∈ s.core.records++[]) : k<s.reg.nextSvc := h.below k hk
  have hne : i≠s.reg.nextSvc := Nat.ne_of_lt (hlt (List.mem_append_left _ hi))
  have h1 : (s.addPlaceholder (s.core.svc i).settings.serviceName).Sound [] := h.join _ false
  have hsvc {k : Nat} (hk : k≠s.reg.nextSvc) :
      (s.addPlaceholder (s.core.svc i).settings.serviceName).core.svc k=s.core.svc k :=
    (allocate_svc s _ false k).trans (if_neg hk)
  have hlink : (s.addPlaceholder (s.core.svc i).settings.serviceName).core.link=s.core.link := rfl
  have hnew : s.reg.nextSvc ∈
      (s.addPlaceholder (s.core.svc i).settings.serviceName).core.records++[] := by
    show _ ∈ (s.core.records++[s.reg.nextSvc])++[]
    simp
  have h2 := h1.moveDependents (s.leaves i).1 hne ((h.linked.dependents_nodup i).filter _)
    (by
      intro l hl
      rw [hsvc hne]
      exact (List.mem_filter.mp hl).1) hnew (by
      intro l hl _
      rw [hlink]
      have hd := (h.linked.dependents i l (List.mem_filter.mp hl).1).2
      exact Nat.ne_of_lt (hlt (h.mem hd).1))
  have h3 := h2.moveDependencies (s.leaves i).2 hne ((h.linked.dependsOn_nodup i).filter _)
    (by
      intro l hl
      rw [onCore_core,Core.moveDependents_dependsOn,hsvc hne]
      exact (List.mem_filter.mp hl).1) hnew (by
      intro l hl _
      rw [onCore_core,Core.moveDependents_link,if_neg (leaves_disjoint hl),hlink]
      exact Nat.ne_of_lt (hlt (h.mem (List.mem_filter.mp hl).1).2))
  exact h3

theorem tidy_leavePlaceholder (h : s.Tidy) (i : Nat) :
    (s.leavePlaceholder i).Tidy ∧ Keeps s (s.leavePlaceholder i) := by
  obtain ⟨h1,hk1⟩ := tidy_join h { serviceName := (s.core.svc i).settings.serviceName } false (by simp)
  have hs (c : Core) (k : Nat) : (((c.moveDependents i s.reg.nextSvc (s.leaves i).1).moveDependencies
      i s.reg.nextSvc (s.leaves i).2).svc k).settings=(c.svc k).settings := by
    rw [Core.moveDependencies_settings,Core.moveDependents_settings]
  exact ⟨h1.onCore rfl (hs _),hk1.trans (keeps_onCore rfl (hs _))⟩

theorem Sound.unloading (h : s.Sound []) {i : Nat} (hi : i ∈ s.core.records) :
    (s.unloading i).Sound [] ∧ i ∈ (s.unloading i).core.records := by
  unfold Loader.unloading
  split_ifs
  · exact ⟨(h.push (.unload i)).leavePlaceholder hi,List.mem_append_left _ hi⟩
  · exact ⟨h.push (.unload i),hi⟩

theorem tidy_unloading (h : s.Tidy) (i : Nat) :
    (s.unloading i).Tidy ∧ Keeps s (s.unloading i) := by
  have h1 := tidy_push h (.unload i)
  have hk1 := keeps_push s (.unload i)
  unfold Loader.unloading
  split_ifs
  · obtain ⟨h2,hk2⟩ := tidy_leavePlaceholder h1 i
    exact ⟨h2,hk1.trans hk2⟩
  · exact ⟨h1,hk1⟩

/-- A service is unloaded: the set stays sound. -/
theorem Sound.unloadService (h : s.Sound []) {i : Nat} (hi : i ∈ s.core.records) :
    (s.unloadService i).Sound [] := by
  obtain ⟨h1,hi1⟩ := h.unloading hi
  obtain ⟨h2,hd2,hp2⟩ := h1.prepareForUnload (by simp [Built]) i
  obtain ⟨h3,hn3⟩ := h2.sound.removeService (h2.stays hi1) (by simp) hd2 hp2
  rw [unloadService_eq]
  refine h3.delete hn3 ?_
  rw [removeService_nextSvc]
  exact h2.sound.below i (List.mem_append_left _ (h2.stays hi1))

theorem tidy_unloadService (h : s.Tidy) (i : Nat) : (s.unloadService i).Tidy := by
  obtain ⟨h1,-⟩ := tidy_unloading h i
  obtain ⟨h2,-⟩ := tidy_prepareForUnload h1 i
  obtain ⟨h3,hn3⟩ := h2.removeService i
  rw [unloadService_eq]
  exact h3.delete hn3

theorem unloadService_calls (s : Loader) (i : Nat) :
    (s.unloadService i).calls=(.unload i,s.core,s.reg)::s.calls := by
  rw [unloadService_eq,delete_calls,removeService_calls,prepareForUnload_calls]
  unfold Loader.unloading
  split_ifs <;> rfl

/-- The placeholder that is left has the name of the service, which goes. -/
theorem Named.unloadService (h : s.Named) (ht : s.Tidy) {i : Nat} (hi : i ∈ s.core.records) :
    (s.unloadService i).Named := by
  obtain ⟨h1,hk1⟩ := tidy_unloading ht i
  obtain ⟨h2,hk2⟩ := tidy_prepareForUnload h1 i
  have hmem {k : Nat} (hm : k ∈ (s.unloadService i).core.records) :
      k ∈ ((s.unloading i).prepareForUnload i).core.records ∧ k≠i := by
    rw [unloadService_eq,delete_core] at hm
    have hm' : k ∈ (((s.unloading i).prepareForUnload i).removeService i).core.records := hm
    rw [removeService_records] at hm'
    exact ((h2.nodup.mem_erase_iff).mp hm').symm
  have hsvc {k : Nat} (hk : k≠i) : ((s.unloadService i).core.svc k).settings =
      (((s.unloading i).prepareForUnload i).core.svc k).settings := by
    rw [unloadService_eq,delete_core]
    simp [hk,removeService_svc]
  -- a record that is left is an old one, or the placeholder for `i`
  have hcase {k : Nat} (hm : k ∈ (s.unloadService i).core.records) :
      ∃ j ∈ s.core.records, ((s.unloadService i).core.svc k).settings.serviceName =
        (s.core.svc j).settings.serviceName ∧ (k=j ∧ k≠i ∨ k=s.reg.nextSvc ∧ j=i) := by
    obtain ⟨hm,hki⟩ := hmem hm
    have hklt := h2.below k hm
    rw [prepareForUnload_nextSvc] at hklt
    rw [hsvc hki,(hk2.old k hklt hm).2.1]
    have hm1 := (hk2.old k hklt hm).1
    by_cases hk : k<s.reg.nextSvc
    · obtain ⟨ho,hs,-⟩ := hk1.old k hk hm1
      exact ⟨k,ho,by rw [hs],.inl ⟨rfl,hki⟩⟩
    · have hph : k=s.reg.nextSvc ∧
          ((s.unloading i).core.svc k).settings.serviceName=(s.core.svc i).settings.serviceName := by
        unfold Loader.unloading at hklt hm1 ⊢
        split_ifs at hklt hm1 ⊢ with hc
        · have hk' : k=s.reg.nextSvc := by
            have : k<s.reg.nextSvc+1 := hklt
            omega
          refine ⟨hk',?_⟩
          unfold leavePlaceholder
          rw [onCore_core,Core.moveDependencies_settings,Core.moveDependents_settings,hk']
          have hnew := allocate_svc (s.push (.unload i))
            { serviceName := (s.core.svc i).settings.serviceName } false s.reg.nextSvc
          rw [push_reg,if_pos rfl] at hnew
          have hname := congrArg (fun x : Svc => x.settings.serviceName) hnew
          exact hname
        · exact absurd hklt hk
      exact ⟨i,hi,hph.2,.inr ⟨hph.1,rfl⟩⟩
  intro a ha b hb he
  obtain ⟨ja,hja,hna,hca⟩ := hcase ha
  obtain ⟨jb,hjb,hnb,hcb⟩ := hcase hb
  rw [hna,hnb] at he
  have hj := h ja hja jb hjb he
  rcases hca with ⟨rfl,hai⟩ | ⟨rfl,rfl⟩ <;> rcases hcb with ⟨rfl,hbi⟩ | ⟨rfl,rfl⟩
  · exact hj
  · exact absurd hj hai
  · exact absurd hj.symm hbi
  · rfl

/-- What is known of the links holds in any state with the same graph. -/
theorem Good.world {w' : World} (h : s.Good) (hg : s.core.SameGraph w'.core) :
    ({ s with world := w' } : Loader).Good where
  sound := h.sound.of_graph hg rfl rfl rfl
  tidy := h.tidy.of_eq hg.records hg.settings rfl rfl rfl rfl
  trusted := h.trusted
  named := by
    intro a ha b hb he
    have ha' : a ∈ w'.core.records := ha
    have hb' : b ∈ w'.core.records := hb
    rw [hg.records] at ha' hb'
    refine h.named a ha' b hb' ?_
    rw [← hg.settings,← hg.settings]
    exact he

/-- A change of the links that keeps them sound. -/
theorem Good.onCore (h : s.Good) {f : Core → Core} (hs : (s.onCore f).Sound [])
    (hr : (f s.core).records=s.core.records)
    (hset : ∀ i, ((f s.core).svc i).settings=(s.core.svc i).settings) : (s.onCore f).Good where
  sound := hs
  tidy := h.tidy.onCore hr hset
  trusted := h.trusted
  named := by
    intro a ha b hb he
    rw [onCore_core,hr] at ha hb
    rw [onCore_core,hset,hset] at he
    exact h.named a ha b hb he

theorem Good.linkAt (h : s.Good) {f t : Nat} (depType : DependencyType) (place dptPlace : Nat)
    (hf : f ∈ s.core.records) (ht : t ∈ s.core.records)
    (hft : (s.core.svc f).getType=.placeholder → f≠t) :
    (s.onCore fun c => c.linkAt f t depType place dptPlace).Good :=
  h.onCore (h.sound.linkAt depType place dptPlace (List.mem_append_left _ hf)
    (List.mem_append_left _ ht) hft) rfl fun _ => Core.linkAt_settings ..

theorem Good.unlink (h : s.Good) (l : Nat) : (s.onCore fun c => c.unlink l).Good :=
  h.onCore (h.sound.unlink l) rfl fun _ => Core.unlink_settings ..

/-- Events keep the set in order. -/
theorem Good.event {w' : World} (h : s.Good) (he : EventStep s.world w') :
    ({ s with world := w' } : Loader).Good := by
  rcases he.graph with hg | ⟨f,t,depType,-,hm,rfl⟩ | ⟨f,l,-,-,rfl⟩
  · exact h.world hg
  · have h1 := h.linkAt depType (s.core.svc f).dependsOn.length (s.core.svc t).dependents.length
      hm.from_ hm.to_ fun _ => hm.ne
    exact h1.world (Core.addDepAt_graph s.core f t depType _)
  · exact (h.unlink l).world (Core.rmDep_graph s.core l)

/-- The settings of a service are replaced by others of its type. -/
def withSettings (s : Loader) (file : File) (i : Nat) : Loader :=
  (s.onCore fun c => c.setSvc i fun s => { s with settings := { file.settings with
    serviceName := s.settings.serviceName } }).setLogMode i file.logType

theorem withSettings_svc (s : Loader) (file : File) (i k : Nat) :
    (s.withSettings file i).core.svc k=if k=i then { s.core.svc i with settings :=
      { file.settings with serviceName := (s.core.svc i).settings.serviceName } }
      else s.core.svc k := by
  simp [withSettings,setLogMode]

theorem withSettings_getType (file : File) {i : Nat}
    (ht : file.settings.recordType=(s.core.svc i).getType) (k : Nat) :
    ((s.withSettings file i).core.svc k).getType=(s.core.svc k).getType := by
  rw [withSettings_svc]
  split_ifs with hk
  · rw [hk]
    exact ht
  · rfl

theorem tidy_withSettings (h : s.Tidy) (file : File) {i : Nat}
    (ht : file.settings.recordType=(s.core.svc i).getType) : (s.withSettings file i).Tidy := by
  have htype := withSettings_getType file ht
  refine ⟨h.nodup,h.below,?_,?_,?_,h.unused⟩
  · intro k hk
    rw [htype]
    exact h.loading k hk
  · intro k hk hkt
    rw [htype] at hkt
    exact h.plain k hk hkt
  · intro p k hk
    rw [htype]
    exact h.consumer p k hk

theorem Good.withSettings (h : s.Good) (file : File) {i : Nat}
    (ht : file.settings.recordType=(s.core.svc i).getType) : (s.withSettings file i).Good := by
  have hsvc := withSettings_svc s file i
  have hdep (k : Nat) : ((s.withSettings file i).core.svc k).dependsOn=(s.core.svc k).dependsOn := by
    rw [hsvc]
    split_ifs with hk
    · rw [hk]
    · rfl
  have hdpt (k : Nat) :
      ((s.withSettings file i).core.svc k).dependents=(s.core.svc k).dependents := by
    rw [hsvc]
    split_ifs with hk
    · rw [hk]
    · rfl
  have htype := withSettings_getType file ht
  have hname (k : Nat) : ((s.withSettings file i).core.svc k).settings.serviceName =
      (s.core.svc k).settings.serviceName := by
    rw [hsvc]
    split_ifs with hk
    · rw [hk]
    · rfl
  have hlists : SameLists s.core (s.withSettings file i).core := ⟨hdep,hdpt,rfl,rfl⟩
  refine ⟨⟨hlists.linked h.sound.linked,?_,h.sound.nodup,h.sound.below,h.sound.alive,?_,h.sound.fresh,
    h.sound.defined⟩,tidy_withSettings h.tidy file ht,h.trusted,?_⟩
  · intro k hk
    rw [hdep,hdpt]
    exact h.sound.closed k hk
  · intro k l hl hk
    rw [hdep] at hl
    rw [htype] at hk
    exact h.sound.noSelf k l hl hk
  · intro a ha b hb he
    rw [hname,hname] at he
    exact h.named a ha b hb he

theorem setConsumer_calls_mem (i : Nat) (d : Draft) {e : LoadCall × Core × Registry}
    (he : e ∈ s.calls) : e ∈ (s.setConsumer i d).calls := by
  rcases setConsumer_calls s i d with hc | hc <;> rw [hc]
  · exact he
  · exact List.mem_cons_of_mem _ he

theorem replaced_calls (file : File) (fullname : String) (orig : Nat) (d : Draft)
    {e : LoadCall × Core × Registry} (he : e ∈ s.calls) :
    e ∈ ((s.createRecord file fullname orig d).2.setConsumer s.reg.nextSvc d).calls := by
  refine setConsumer_calls_mem _ d ?_
  obtain ⟨c,r,h⟩ := createRecord_calls s file fullname orig d
  rw [h]
  exact List.mem_cons_of_mem _ (List.mem_cons_of_mem _ he)

theorem Trusted.setConsumer (h : s.Trusted) (i : Nat) (d : Draft) : (s.setConsumer i d).Trusted := by
  refine h.of_calls fun e he => ?_
  rcases setConsumer_calls s i d with hc | hc <;> rw [hc] at he
  · exact .inl he
  · rcases List.mem_cons.mp he with rfl | he
    · exact .inr fun _ _ _ he => by cases he
    · exact .inl he

theorem Trusted.replaced (h : s.Trusted) (file : File) (fullname : String) (orig : Nat) (d : Draft) :
    ((s.createRecord file fullname orig d).2.setConsumer s.reg.nextSvc d).Trusted := by
  refine Trusted.setConsumer (h.of_calls fun e he => ?_) _ d
  obtain ⟨c,r,hc⟩ := createRecord_calls s file fullname orig d
  rw [hc] at he
  rcases List.mem_cons.mp he with rfl | he
  · exact .inr fun _ _ _ he => by cases he
  · rcases List.mem_cons.mp he with rfl | he
    · exact .inr fun _ _ _ he => by cases he
    · exact .inl he

/-- An update in place keeps the set in order. -/
theorem Good.relinked (h : s.Good) {i : Nat} {d : Draft} (hi : i ∈ s.core.records)
    (hreal : (s.core.svc i).getType≠.placeholder)
    (hd : ∀ dep ∈ d.depends, dep.1 ∈ s.core.records)
    (hj : ∀ j ∈ d.beforeDeps, j ∈ s.core.records) :
    (s.onCore fun c => c.relinked i d).Good := by
  let I (c : Core) : Prop := (s.onCore fun _ => c).Good ∧ c.records=s.core.records ∧
    ∀ k, (c.svc k).settings=(s.core.svc k).settings
  have hlink {c : Core} (hc : I c) {a b : Nat} (ha : a ∈ s.core.records) (hb : b ∈ s.core.records)
      (hab : (s.core.svc a).getType=.placeholder → a≠b) (t : DependencyType) (m n : Nat) :
      I (c.linkAt a b t m n) := by
    obtain ⟨h1,h2,h3⟩ := hc
    refine ⟨h1.linkAt t m n ?_ ?_ ?_,h2,fun k => (Core.linkAt_settings ..).trans (h3 k)⟩
    · show a ∈ c.records
      rwa [h2]
    · show b ∈ c.records
      rwa [h2]
    · intro ht
      refine hab ?_
      rw [Svc.getType,← h3]
      exact ht
  have h0 : I s.core := ⟨h,rfl,fun _ => rfl⟩
  have h1 := List.foldlRecOn (motive := I) d.beforeDeps (fun c j => c.linkAt j i .before 0 0) h0
    fun c hc j hjm => hlink hc (hj j hjm) hi (fun ht => by
      rintro rfl
      exact hreal ht) .before 0 0
  have h2 : I (s.core.addLinks i d) := List.foldlRecOn (motive := I) d.depends.zipIdx _ h1
    fun c hc dep hdep => hlink hc hi
      (hd dep.1 (List.fst_mem_of_mem_zipIdx hdep)) (fun ht => absurd ht hreal) _ _ _
  exact (List.foldlRecOn (motive := I) (s.core.staleLinks i) Core.unlink h2 fun c hc l _ =>
    ⟨hc.1.unlink l,hc.2.1,fun k => (Core.unlink_settings ..).trans (hc.2.2 k)⟩).1

/-- Each step of the loading adds to the record of calls. -/
theorem LoadStep.calls (h : LoadStep s s') : ∀ e ∈ s.calls, e ∈ s'.calls := by
  intro e he
  cases h with
  | dummy fullname hn => exact he
  | placeholder n hn => exact he
  | link orig d => exact List.mem_cons_of_mem _ he
  | cleanup dummy d hd hk =>
    rw [cleanup_calls]
    exact List.mem_cons_of_mem _ he
  | create file fullname reload orig d hr ho hp hro hl hn => exact replaced_calls file fullname orig d he

/-- A step in the handling of a request. -/
inductive RequestStep : Loader → Loader → Prop
  | load {s s' : Loader} (h : LoadStep s s') : RequestStep s s'
  | event {s : Loader} {w' : World} (h : EventStep s.world w') :
      RequestStep s { s with world := w' }
  /-- a reload that changes the type of a service -/
  | replace {s : Loader} (file : File) (orig : Nat) (d : Draft)
      (hr : s.Ready (some orig) orig d) (hc : Checked s file d orig) (ho : orig ∈ s.core.records)
      (hreal : (s.core.svc orig).getType≠.placeholder)
      (ht : file.settings.recordType≠(s.core.svc orig).getType) :
      RequestStep s ((s.createRecord file (s.core.svc orig).settings.serviceName orig d).2.setConsumer
        s.reg.nextSvc d)
  /-- a reload in place -/
  | update {s : Loader} {w' : World} (file : File) (orig : Nat) (d : Draft)
      (hr : s.Ready (some orig) orig d) (hc : Checked s file d orig) (ho : orig ∈ s.core.records)
      (hreal : (s.core.svc orig).getType≠.placeholder)
      (ht : file.settings.recordType=(s.core.svc orig).getType)
      (hm : ReflTransGen Move s.world w')
      (hw : s.core.Linked → ReflTransGen UpdateStep s.world w' ∧
        (s.core.relinked orig d).SameGraph w'.core) :
      RequestStep s ((({ s with world := w' } : Loader).withSettings file orig).setConsumer orig d)
  | unload {s : Loader} (i : Nat) (hi : i ∈ s.core.records)
      (hreal : (s.core.svc i).getType≠.placeholder)
      (hd : ∀ l ∈ (s.core.svc i).dependents, (s.core.link l).isOnlyOrdering=true)
      (hs : (s.core.svc i).serviceState=.stopped) : RequestStep s (s.unloadService i)

/-- The record of calls is only ever added to. -/
theorem RequestStep.calls (h : RequestStep s s') : ∀ e ∈ s.calls, e ∈ s'.calls := by
  intro e he
  cases h with
  | load h => exact h.calls e he
  | event h => exact he
  | replace file orig d hr hc ho hreal ht => exact replaced_calls file _ orig d he
  | update file orig d hr hc ho hreal ht hm hw => exact setConsumer_calls_mem orig d he
  | unload i hi hreal hd hs =>
    rw [unloadService_calls]
    exact List.mem_cons_of_mem _ he

/-- A record that is replaced by one of another type. -/
theorem tidy_replaced (h : s.Tidy) (file : File) (fullname : String) {orig : Nat} {d : Draft}
    (ho : orig<s.reg.nextSvc) (hp : ∀ p ∈ d.consumerOf, p ∈ s.core.records) :
    ((s.createRecord file fullname orig d).2.setConsumer s.reg.nextSvc d).Tidy := by
  obtain ⟨h1,u,-,heq,hlt,-,-⟩ := tidy_createRecord file fullname (d := d) h ho
  have hlt1 : s.reg.nextSvc<(s.createRecord file fullname orig d).2.reg.nextSvc := by
    rw [heq,putInPlace_nextSvc,hlt]
    exact Nat.lt_succ_self _
  exact (tidy_setConsumer h1 hlt1 fun p hp' => Nat.lt_trans (h.below p (hp p hp')) hlt1).1

theorem RequestStep.tidy (h : RequestStep s s') (ht : s.Tidy) : s'.Tidy := by
  cases h with
  | load h => exact (h.tidy ht).1
  | event h =>
    have hs : s.world.SameSettings _ := h.settings
    exact ht.of_eq hs.1 hs.2 rfl rfl rfl rfl
  | replace file orig d hr hc ho hreal _ =>
    exact tidy_replaced ht file _ (ht.below orig ho) hr.known.consumer
  | @update w' file orig d hr hc ho hreal htype hm hw =>
    have hs := moves_settings hm
    have h1 : ({ s with world := w' } : Loader).Tidy := ht.of_eq hs.1 hs.2 rfl rfl rfl rfl
    have h2 := tidy_withSettings h1 file (i := orig) (by
      rw [htype,Svc.getType,Svc.getType]
      exact congrArg Settings.recordType (hs.2 orig).symm)
    exact (tidy_setConsumer h2 (ht.below orig ho) fun p hp =>
      ht.below p (hr.known.consumer p hp)).1
  | unload i hi hreal hd hs => exact tidy_unloadService ht i

/-- Every step leaves the set in order, if the calls made meet the condition. -/
theorem RequestStep.good (h : RequestStep s s') (hg : s.Good) (hok : ∀ e ∈ s'.calls, LoadOk e) :
    s'.Good := by
  have ht' := h.tidy hg.tidy
  cases h with
  | load h => exact h.good hg hok
  | event h => exact hg.event h
  | replace file orig d hr hc ho hreal ht =>
    obtain ⟨h1,hnew⟩ := hg.sound.createRecord file (s.core.svc orig).settings.serviceName
      (hr.known.mem hg.trusted) hr.known.before ho
    have hn1 := hg.named.createRecord hg.tidy file d ho rfl
    exact ⟨h1.setConsumer _ d,ht',hg.trusted.replaced file _ orig d,hn1.setConsumer _ d⟩
  | @update w' file orig d hr hc ho hreal ht hm hw =>
    have hs := moves_settings hm
    have h1 := hg.relinked ho hreal (hr.known.mem hg.trusted) hr.known.before
    have h2 : ({ s with world := w' } : Loader).Good := h1.world (hw hg.sound.linked).2
    have htype : file.settings.recordType =
        (({ s with world := w' } : Loader).core.svc orig).getType := by
      rw [ht,Svc.getType,Svc.getType]
      exact congrArg Settings.recordType (hs.2 orig).symm
    have h3 := h2.withSettings file htype
    exact ⟨h3.sound.setConsumer orig d,ht',h3.trusted.setConsumer orig d,h3.named.setConsumer orig d⟩
  | unload i hi hreal hd hs =>
    refine ⟨hg.sound.unloadService hi,ht',?_,hg.named.unloadService hg.tidy hi⟩
    refine hg.trusted.of_calls fun e he => ?_
    rw [unloadService_calls] at he
    rcases List.mem_cons.mp he with rfl | he
    · exact .inr fun _ _ _ he => by cases he
    · exact .inl he

end Loader
end Dinit
