import Dinit.Load.Links

namespace Dinit

open Framework Framework.Comp World

namespace Loader

variable (s : Loader) (i j l : Nat)

section
variable (f : Core → Core) (g : Registry → Registry) (k : LoadCall)

@[simp] theorem onCore_core : (s.onCore f).core=f s.core := rfl
@[simp] theorem onCore_reg : (s.onCore f).reg=s.reg := rfl
@[simp] theorem onReg_core : (s.onReg g).core=s.core := rfl
@[simp] theorem onReg_reg : (s.onReg g).reg=g s.reg := rfl
@[simp] theorem push_core : (s.push k).core=s.core := rfl
@[simp] theorem push_reg : (s.push k).reg=s.reg := rfl
@[simp] theorem setLogConsumer_core (p : Option Nat) : (s.setLogConsumer i p).core=s.core := rfl
@[simp] theorem setConsumerFor_core (p : Option Nat) : (s.setConsumerFor i p).core=s.core := rfl

end

/-- The links of the set, and what is needed to keep them: both ends of each link are
records of the set, or of `extra`, which are records under construction. -/
structure Sound (extra : List Nat) : Prop where
  linked : s.core.Linked
  closed : s.core.LinkedIn (s.core.records++extra)
  nodup : s.core.records.Nodup
  below : ∀ i ∈ s.core.records++extra, i<s.reg.nextSvc
  alive : ∀ i ∈ s.core.records++extra, s.reg.freed i=false
  /-- a placeholder has no link to itself -/
  noSelf : ∀ i l, l ∈ (s.core.svc i).dependsOn → (s.core.svc i).getType=.placeholder →
    (s.core.link l).to_≠i
  fresh : ∀ i, s.reg.nextSvc≤ i → s.reg.freed i=false
  defined : s.reg.undefined=false

/-- No two records have the same name. -/
def Named : Prop :=
  ∀ i ∈ s.core.records, ∀ j ∈ s.core.records,
    (s.core.svc i).settings.serviceName=(s.core.svc j).settings.serviceName → i=j

variable {s i j l} {extra : List Nat}

theorem Sound.mem (h : s.Sound extra) (hl : l ∈ (s.core.svc i).dependsOn) :
    i ∈ s.core.records++extra ∧ (s.core.link l).to_ ∈ s.core.records++extra :=
  ⟨h.closed.from_mem hl,h.linked.to_mem h.closed hl⟩

/-- What the state of the services does leaves the set sound. -/
theorem Sound.of_graph {s' : Loader} (h : s.Sound extra) (hg : s.core.SameGraph s'.core)
    (hn : s'.reg.nextSvc=s.reg.nextSvc) (hf : s'.reg.freed=s.reg.freed)
    (hu : s'.reg.undefined=s.reg.undefined) : s'.Sound extra where
  linked := h.linked.of_graph hg
  closed := by
    rw [hg.records]
    exact h.closed.of_graph hg
  nodup := by
    rw [hg.records]
    exact h.nodup
  below := by
    rw [hg.records,hn]
    exact h.below
  alive := by
    rw [hg.records,hf]
    exact h.alive
  noSelf i l hl ht := by
    rw [hg.dependsOn] at hl
    rw [Svc.getType,hg.settings] at ht
    rw [hg.to_]
    exact h.noSelf i l hl ht
  fresh := by
    rw [hn,hf]
    exact h.fresh
  defined := by
    rw [hu]
    exact h.defined

theorem Sound.onReg (h : s.Sound extra) {g : Registry → Registry}
    (hn : (g s.reg).nextSvc=s.reg.nextSvc) (hf : (g s.reg).freed=s.reg.freed)
    (hu : (g s.reg).undefined=s.reg.undefined) : (s.onReg g).Sound extra :=
  h.of_graph (.refl _) hn hf hu

theorem Sound.push (h : s.Sound extra) (k : LoadCall) : (s.push k).Sound extra :=
  h.of_graph (.refl _) rfl rfl rfl

theorem allocate_svc (s : Loader) (settings : Settings) (loading : Bool) (k : Nat) :
    (s.allocate settings loading).core.svc k =
      if k=s.reg.nextSvc then { settings := settings } else s.core.svc k := by
  simp [allocate]

/-- The next address is free. -/
theorem Sound.next (h : s.Sound extra) : s.reg.nextSvc ∉ s.core.records++extra := by
  intro hi
  have := h.below _ hi
  omega

theorem Sound.allocate (h : s.Sound extra) (settings : Settings) (loading : Bool) :
    (s.allocate settings loading).Sound (s.reg.nextSvc::extra) := by
  obtain ⟨hd,hp⟩ := h.closed _ h.next
  have hsvc := allocate_svc s settings loading
  have hrec : (s.allocate settings loading).core.records=s.core.records := rfl
  have hmem (k : Nat) : k ∈ s.core.records++(s.reg.nextSvc::extra) ↔
      k=s.reg.nextSvc ∨ k ∈ s.core.records++extra := by
    simp only [List.mem_append,List.mem_cons]
    tauto
  refine ⟨?_,?_,h.nodup,?_,?_,?_,?_,h.defined⟩
  · exact h.linked.setSvc (f := fun _ => { settings := settings }) hd hp rfl rfl
  · intro k hk
    rw [hrec,hmem] at hk
    rw [hsvc]
    rw [if_neg fun hn => hk (.inl hn)]
    exact h.closed k fun hk' => hk (.inr hk')
  · intro k hk
    rw [hrec,hmem] at hk
    show k<s.reg.nextSvc+1
    rcases hk with rfl | hk
    · omega
    · have := h.below k hk
      omega
  · intro k hk
    rw [hrec,hmem] at hk
    show s.reg.freed k=false
    rcases hk with rfl | hk
    · exact h.fresh _ (Nat.le_refl _)
    · exact h.alive k hk
  · intro k l hl ht
    rw [hsvc] at hl ht
    split_ifs at hl ht
    · simp at hl
    · exact h.noSelf k l hl ht
  · exact fun k hk => h.fresh k (Nat.le_of_succ_le hk)

theorem Sound.addService (h : s.Sound (i::extra)) (hi : i ∉ s.core.records) :
    (s.addService i).Sound extra := by
  have hmem (k : Nat) : k ∈ (s.core.records++[i])++extra ↔ k ∈ s.core.records++(i::extra) := by
    simp
  refine ⟨?_,?_,?_,?_,?_,h.noSelf,h.fresh,h.defined⟩
  · exact h.linked.of_eq rfl rfl rfl
  · exact fun k hk => h.closed k fun hk' => hk ((hmem k).mpr hk')
  · show (s.core.records++[i]).Nodup
    rw [List.nodup_append]
    refine ⟨h.nodup,by simp,?_⟩
    rintro a ha b hb rfl
    rw [List.mem_singleton.mp hb] at ha
    exact hi ha
  · exact fun k hk => h.below k ((hmem k).mp hk)
  · exact fun k hk => h.alive k ((hmem k).mp hk)

/-- An update of the links that keeps them sound. -/
theorem Sound.onCore (h : s.Sound extra) {f : Core → Core} (hL : (f s.core).Linked)
    (hS : (f s.core).LinkedIn (s.core.records++extra)) (hr : (f s.core).records=s.core.records)
    (hself : ∀ i l, l ∈ ((f s.core).svc i).dependsOn →
      ((f s.core).svc i).getType=.placeholder → ((f s.core).link l).to_≠i) :
    (s.onCore f).Sound extra where
  linked := hL
  closed := by
    show (f s.core).LinkedIn ((f s.core).records++extra)
    rw [hr]
    exact hS
  nodup := by
    show (f s.core).records.Nodup
    rw [hr]
    exact h.nodup
  below := by
    show ∀ i ∈ (f s.core).records++extra, i<s.reg.nextSvc
    rw [hr]
    exact h.below
  alive := by
    show ∀ i ∈ (f s.core).records++extra, s.reg.freed i=false
    rw [hr]
    exact h.alive
  noSelf := hself
  fresh := h.fresh
  defined := h.defined

end Loader

namespace Core

variable (c : Core) (i j l : Nat)

theorem linkAt_settings (k : Nat) (depType : DependencyType) (place dptPlace : Nat) :
    ((c.linkAt i j depType place dptPlace).svc k).settings=(c.svc k).settings := by
  simp only [linkAt,setSvc_svc,setLink_svc]
  split_ifs <;> simp_all

theorem unlink_settings (k : Nat) : ((c.unlink l).svc k).settings=(c.svc k).settings := by
  simp only [unlink,setSvc_svc]
  split_ifs <;> simp_all

theorem moveDependents_settings (ls : List Nat) (k : Nat) :
    ((c.moveDependents i j ls).svc k).settings=(c.svc k).settings := by
  simp only [moveDependents,setSvc_svc]
  split_ifs <;> simp_all [setLinks]

theorem moveDependencies_settings (ls : List Nat) (k : Nat) :
    ((c.moveDependencies i j ls).svc k).settings=(c.svc k).settings := by
  simp only [moveDependencies,setSvc_svc]
  split_ifs <;> simp_all [setLinks]

end Core

namespace Loader

variable {s : Loader} {i j l : Nat} {extra : List Nat}

/-- A new link between two records of the set, or under construction. -/
theorem Sound.linkAt (h : s.Sound extra) (depType : DependencyType) (place dptPlace : Nat)
    (hi : i ∈ s.core.records++extra) (hj : j ∈ s.core.records++extra)
    (hij : (s.core.svc i).getType=.placeholder → i≠j) :
    (s.onCore fun c => c.linkAt i j depType place dptPlace).Sound extra := by
  refine h.onCore (Core.Linked.linkAt _ i j depType place dptPlace h.linked)
    (Core.linkAt_linkedIn h.closed depType place dptPlace hi hj) rfl ?_
  intro k l hl ht
  rw [Svc.getType,Core.linkAt_settings] at ht
  rw [Core.linkAt_dependsOn] at hl
  rw [Core.linkAt_link]
  by_cases hn : l=s.core.nextLink
  · subst hn
    rw [if_pos rfl]
    split_ifs at hl with hk
    · subst hk
      exact fun he => hij ht he.symm
    · have := h.linked.below k _ hl
      omega
  · rw [if_neg hn]
    have hl' : l ∈ (s.core.svc k).dependsOn := by
      split_ifs at hl with hk
      · subst hk
        simpa [hn] using hl
      · exact hl
    exact h.noSelf k l hl' ht

theorem Sound.unlink (h : s.Sound extra) (l : Nat) :
    (s.onCore fun c => c.unlink l).Sound extra := by
  refine h.onCore (h.linked.unlink l) (Core.unlink_linkedIn h.closed l) rfl ?_
  intro k m hm ht
  rw [Svc.getType,Core.unlink_settings] at ht
  rw [Core.unlink_dependsOn] at hm
  refine h.noSelf k m ?_ ht
  split_ifs at hm
  · exact List.mem_of_mem_erase hm
  · exact hm

theorem Sound.rmDep (h : s.Sound extra) (l : Nat) : (s.onCore fun c => c.rmDep l).Sound extra := by
  have hu : (s.onCore fun c => c.unlink l).Sound extra := h.unlink l
  exact hu.of_graph (Core.rmDep_graph s.core l) rfl rfl rfl

theorem Sound.moveDependents (h : s.Sound extra) (ls : List Nat) (hij : i≠j) (hn : ls.Nodup)
    (hls : ∀ l ∈ ls, l ∈ (s.core.svc i).dependents) (hj : j ∈ s.core.records++extra)
    (hself : ∀ l ∈ ls, (s.core.svc j).getType=.placeholder → (s.core.link l).from_≠j) :
    (s.onCore fun c => c.moveDependents i j ls).Sound extra := by
  refine h.onCore (h.linked.moveDependents hij hn hls)
    (Core.moveDependents_linkedIn h.closed hij hj) rfl ?_
  intro k l hl ht
  rw [Svc.getType,Core.moveDependents_settings] at ht
  rw [Core.moveDependents_dependsOn] at hl
  rw [Core.moveDependents_link]
  split_ifs with hm
  · rintro rfl
    exact hself l hm ht (h.linked.dependsOn _ l hl).1
  · exact h.noSelf k l hl ht

theorem Sound.moveDependencies (h : s.Sound extra) (ls : List Nat) (hij : i≠j) (hn : ls.Nodup)
    (hls : ∀ l ∈ ls, l ∈ (s.core.svc i).dependsOn) (hj : j ∈ s.core.records++extra)
    (hself : ∀ l ∈ ls, (s.core.svc j).getType=.placeholder → (s.core.link l).to_≠j) :
    (s.onCore fun c => c.moveDependencies i j ls).Sound extra := by
  refine h.onCore (h.linked.moveDependencies hij hn hls)
    (Core.moveDependencies_linkedIn h.closed hij hj) rfl ?_
  intro k l hl ht
  rw [Svc.getType,Core.moveDependencies_settings] at ht
  rw [Core.moveDependencies_dependsOn _ i j ls hij] at hl
  have hto : ((s.core.moveDependencies i j ls).link l).to_=(s.core.link l).to_ := by
    rw [Core.moveDependencies_link]
    split_ifs <;> rfl
  rw [hto]
  split_ifs at hl with ha hb
  · subst ha
    rcases List.mem_append.mp hl with hl | hl
    · exact h.noSelf k l hl ht
    · exact hself l hl ht
  · subst hb
    exact h.noSelf k l (List.mem_filter.mp hl).1 ht
  · exact h.noSelf k l hl ht

/-- A record that has no links leaves the set. -/
theorem Sound.removeService (h : s.Sound extra) (hi : i ∈ s.core.records) (he : i ∉ extra)
    (hd : (s.core.svc i).dependsOn=[]) (hp : (s.core.svc i).dependents=[]) :
    (s.removeService i).Sound extra ∧ i ∉ (s.removeService i).core.records++extra := by
  have heq : s.removeService i=s.onCore fun c => { c with records := c.records.erase i } := by
    simp [Loader.removeService,Loader.requires,hi]
  have hsub (k : Nat) (hk : k ∈ s.core.records.erase i++extra) : k ∈ s.core.records++extra := by
    rcases List.mem_append.mp hk with hk | hk
    · exact List.mem_append_left _ (List.mem_of_mem_erase hk)
    · exact List.mem_append_right _ hk
  rw [heq]
  refine ⟨⟨?_,?_,h.nodup.erase i,fun k hk => h.below k (hsub k hk),
    fun k hk => h.alive k (hsub k hk),h.noSelf,h.fresh,h.defined⟩,?_⟩
  · exact h.linked.of_eq rfl rfl rfl
  · intro k hk
    by_cases hki : k=i
    · subst hki
      exact ⟨hd,hp⟩
    · refine h.closed k fun hk' => hk ?_
      rcases List.mem_append.mp hk' with hk' | hk'
      · exact List.mem_append_left _ ((List.mem_erase_of_ne hki).mpr hk')
      · exact List.mem_append_right _ hk'
  · intro hk
    rcases List.mem_append.mp hk with hk | hk
    · exact (h.nodup.mem_erase_iff.mp hk).1 rfl
    · exact he hk

/-- A record outside the set is deleted. -/
theorem Sound.delete (h : s.Sound extra) (hi : i ∉ s.core.records++extra)
    (hlt : i<s.reg.nextSvc) : (s.delete i).Sound extra := by
  have hcore : (s.delete i).core=s.core.setSvc i fun _ => {} := by
    unfold Loader.delete
    split <;> rfl
  have hnext : (s.delete i).reg.nextSvc=s.reg.nextSvc := by
    unfold Loader.delete
    split <;> rfl
  have hundef : (s.delete i).reg.undefined=s.reg.undefined := by
    unfold Loader.delete
    split <;> rfl
  have hfreed (k : Nat) (hk : k≠i) : (s.delete i).reg.freed k=s.reg.freed k := by
    unfold Loader.delete
    split <;> simp [Loader.setLogConsumer,hk]
  obtain ⟨hd,hp⟩ := h.closed i hi
  have hrec : (s.delete i).core.records=s.core.records := by
    rw [hcore]
    rfl
  refine ⟨?_,?_,?_,?_,?_,?_,?_,hundef.trans h.defined⟩
  · rw [hcore]
    exact h.linked.setSvc hd hp rfl rfl
  · rw [hrec]
    intro k hk
    rw [hcore]
    by_cases hki : k=i
    · simp [hki]
    · simpa [hki] using h.closed k hk
  · rw [hrec]
    exact h.nodup
  · rw [hrec,hnext]
    exact h.below
  · rw [hrec]
    intro k hk
    rw [hfreed k]
    · exact h.alive k hk
    · rintro rfl
      exact hi hk
  · intro k m hm ht
    rw [hcore] at hm ht ⊢
    by_cases hki : k=i
    · simp [hki] at hm
    · simp only [Core.setSvc_svc,if_neg hki] at hm ht
      exact h.noSelf k m hm ht
  · intro k hk
    rw [hnext] at hk
    rw [hfreed k (by omega)]
    exact h.fresh k hk

theorem delete_core (s : Loader) (i : Nat) : (s.delete i).core=s.core.setSvc i fun _ => {} := by
  unfold Loader.delete
  split <;> rfl

theorem removeService_core (s : Loader) (i : Nat) :
    (s.removeService i).core=s.core ∨
      (s.removeService i).core={ s.core with records := s.core.records.erase i } := by
  unfold Loader.removeService Loader.requires
  split
  · exact .inr rfl
  · exact .inl rfl

theorem removeService_nextSvc (s : Loader) (i : Nat) :
    (s.removeService i).reg.nextSvc=s.reg.nextSvc := by
  unfold Loader.removeService requires
  split <;> rfl

/-- What `dropPlaceholder` can do. -/
theorem dropPlaceholder_cases (s : Loader) (i : Nat) (b : Bool) :
    (s.dropPlaceholder i b).core=s.core ∧ (s.dropPlaceholder i b).reg.nextSvc=s.reg.nextSvc ∨
    ((s.core.svc i).getType=.placeholder ∧ s.isUnrefd i=true ∧ s.reg.freed i=false ∧
      s.dropPlaceholder i b=if b then (s.removeService i).delete i else s.removeService i) := by
  by_cases hf : s.reg.freed i=true
  · refine .inl ?_
    simp [dropPlaceholder,requires,hf]
  · have hf' : s.reg.freed i=false := by simpa using hf
    have heq : s.dropPlaceholder i b=if (s.core.svc i).getType=.placeholder ∧ s.isUnrefd i then
        if b then (s.removeService i).delete i else s.removeService i else s := by
      simp [dropPlaceholder,requires,hf']
    by_cases hp : (s.core.svc i).getType=.placeholder ∧ s.isUnrefd i=true
    · refine .inr ⟨hp.1,hp.2,hf',?_⟩
      rw [heq,if_pos hp]
    · refine .inl ?_
      rw [heq,if_neg hp]
      exact ⟨rfl,rfl⟩

theorem isUnrefd_lists {s : Loader} {i : Nat} (h : s.isUnrefd i=true) :
    (s.core.svc i).dependsOn=[] ∧ (s.core.svc i).dependents=[] := by
  simp only [isUnrefd,Bool.and_eq_true,List.isEmpty_iff] at h
  exact h.1

/-- Lists of links, links and the state of records are the same. -/
structure SameLists (c c' : Core) : Prop where
  dependsOn : ∀ k, (c'.svc k).dependsOn=(c.svc k).dependsOn
  dependents : ∀ k, (c'.svc k).dependents=(c.svc k).dependents
  link : c'.link=c.link
  nextLink : c'.nextLink=c.nextLink

theorem SameLists.refl (c : Core) : SameLists c c := ⟨fun _ => rfl,fun _ => rfl,rfl,rfl⟩

theorem SameLists.trans {c c' c'' : Core} (h : SameLists c c') (h' : SameLists c' c'') :
    SameLists c c'' :=
  ⟨fun k => (h'.dependsOn k).trans (h.dependsOn k),
    fun k => (h'.dependents k).trans (h.dependents k),h'.link.trans h.link,
    h'.nextLink.trans h.nextLink⟩

theorem removeService_lists (s : Loader) (i : Nat) : SameLists s.core (s.removeService i).core := by
  rcases removeService_core s i with h | h <;> rw [h]
  · exact .refl _
  · exact ⟨fun _ => rfl,fun _ => rfl,rfl,rfl⟩

theorem delete_lists (s : Loader) {i : Nat} (hd : (s.core.svc i).dependsOn=[])
    (hp : (s.core.svc i).dependents=[]) : SameLists s.core (s.delete i).core := by
  rw [delete_core]
  refine ⟨?_,?_,rfl,rfl⟩
  · intro k
    by_cases hk : k=i
    · subst hk
      simp [hd]
    · simp [hk]
  · intro k
    by_cases hk : k=i
    · subst hk
      simp [hp]
    · simp [hk]

/-- What is dropped has no links. -/
theorem dropPlaceholder_lists (s : Loader) (i : Nat) (b : Bool) :
    SameLists s.core (s.dropPlaceholder i b).core := by
  have hrem := removeService_lists s i
  rcases dropPlaceholder_cases s i b with ⟨h,-⟩ | ⟨-,hu,-,h⟩
  · rw [h]
    exact .refl _
  · obtain ⟨hd,hp⟩ := isUnrefd_lists hu
    rw [h]
    split_ifs
    · refine hrem.trans (delete_lists _ ?_ ?_)
      · rw [hrem.dependsOn,hd]
      · rw [hrem.dependents,hp]
    · exact hrem

theorem dropPlaceholder_svc (s : Loader) {i k : Nat} (b : Bool) (hk : k≠i) :
    (s.dropPlaceholder i b).core.svc k=s.core.svc k := by
  have hrem : (s.removeService i).core.svc k=s.core.svc k := by
    rcases removeService_core s i with h | h <;> rw [h]
  rcases dropPlaceholder_cases s i b with ⟨h,-⟩ | ⟨-,-,-,h⟩
  · rw [h]
  · rw [h]
    split_ifs
    · rw [delete_core]
      simpa [hk] using hrem
    · exact hrem

/-- Only a placeholder can be dropped. -/
theorem dropPlaceholder_records (s : Loader) (i : Nat) (b : Bool) :
    (s.dropPlaceholder i b).core.records=s.core.records ∨
      (s.core.svc i).getType=.placeholder ∧
        (s.dropPlaceholder i b).core.records=s.core.records.erase i := by
  have hrem : (s.removeService i).core.records=s.core.records ∨
      (s.removeService i).core.records=s.core.records.erase i := by
    rcases removeService_core s i with h | h <;> rw [h]
    · exact .inl rfl
    · exact .inr rfl
  rcases dropPlaceholder_cases s i b with ⟨h,-⟩ | ⟨hp,-,-,h⟩
  · rw [h]
    exact .inl rfl
  · have hsame : (s.dropPlaceholder i b).core.records=(s.removeService i).core.records := by
      rw [h]
      split_ifs
      · rw [delete_core]
        rfl
      · rfl
    rw [hsame]
    exact hrem.imp_right fun h => ⟨hp,h⟩

theorem dropPlaceholder_nextSvc (s : Loader) (i : Nat) (b : Bool) :
    (s.dropPlaceholder i b).reg.nextSvc=s.reg.nextSvc := by
  have hdel (u : Loader) : (u.delete i).reg.nextSvc=u.reg.nextSvc := by
    unfold Loader.delete
    split <;> rfl
  rcases dropPlaceholder_cases s i b with ⟨-,h⟩ | ⟨-,-,-,h⟩
  · exact h
  · rw [h]
    split_ifs
    · rw [hdel,removeService_nextSvc]
    · exact removeService_nextSvc s i

theorem Sound.dropPlaceholder (h : s.Sound extra) (hi : i ∈ s.core.records) (he : i ∉ extra)
    (b : Bool) : (s.dropPlaceholder i b).Sound extra := by
  have hf := h.alive i (List.mem_append_left _ hi)
  by_cases hp : (s.core.svc i).getType=.placeholder ∧ s.isUnrefd i=true
  · obtain ⟨hd,hdpt⟩ := isUnrefd_lists hp.2
    obtain ⟨hs,hn⟩ := h.removeService hi he hd hdpt
    have heq : s.dropPlaceholder i b =
        if b then (s.removeService i).delete i else s.removeService i := by
      simp [Loader.dropPlaceholder,requires,hf,hp]
    rw [heq]
    split_ifs
    · refine hs.delete hn ?_
      rw [removeService_nextSvc]
      exact h.below i (List.mem_append_left _ hi)
    · exact hs
  · have heq : s.dropPlaceholder i b=s := by
      simp only [Loader.dropPlaceholder,requires,hf]
      simp [hp]
    rw [heq]
    exact h

end Loader
end Dinit
