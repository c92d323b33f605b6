import Dinit.Safety.Transfer

namespace Dinit

open Framework Framework.Comp Relation

namespace Core

variable {c c' : Core}

theorem Pruned.edge (h : c.Pruned c') {a b : Nat} (he : c'.Edge a b) : c.Edge a b := by
  obtain ⟨l,hl,rfl⟩ := edge_iff.mp he
  exact edge_iff.mpr ⟨l,(h.dependsOn a).subset hl,(h.to_ l).symm⟩

/-- An edge that stays when the record `x` is loaded over: of the links of `x`, only the
"before" links do. -/
def Stays (c : Core) (x a b : Nat) : Prop :=
  ∃ l ∈ (c.svc a).dependsOn, (c.link l).to_=b ∧ (a=x → (c.link l).depType=.before)

theorem Stays.edge {x a b : Nat} (h : c.Stays x a b) : c.Edge a b := by
  obtain ⟨l,hl,hto,-⟩ := h
  exact edge_iff.mpr ⟨l,hl,hto⟩

theorem stays_reach {x a b : Nat} (h : ReflTransGen (c.Stays x) a b) : ReflTransGen c.Edge a b :=
  ReflTransGen.mono (fun _ _ => Stays.edge) a b h

/-- What leads from `x`, if only its "before" links stay, starts with one of these. -/
theorem stays_front {x b : Nat} (h : ReflTransGen (c.Stays x) x b) : b=x ∨
    ∃ l ∈ (c.svc x).dependsOn, (c.link l).depType=.before ∧ ReflTransGen c.Edge (c.link l).to_ b := by
  rcases ReflTransGen.cases_head h with he | ⟨y,⟨l,hl,rfl,hb⟩,hr⟩
  · exact .inl he.symm
  · exact .inr ⟨l,hl,hb rfl,stays_reach hr⟩

/-- `c'` is `c` with new links, between services that `N` relates. -/
def Grown (c c' : Core) (N : Nat → Nat → Prop) : Prop :=
  c.nextLink≤ c'.nextLink ∧ ∀ a, ∀ l ∈ (c'.svc a).dependsOn, l<c'.nextLink ∧
    (l ∈ (c.svc a).dependsOn ∧ c'.link l=c.link l ∨ N a (c'.link l).to_)

theorem Grown.linkAt {N : Nat → Nat → Prop} (h : c.Grown c' N) {f t : Nat} (ty : DependencyType)
    (m n : Nat) (hn : N f t) : c.Grown (c'.linkAt f t ty m n) N := by
  refine ⟨Nat.le_succ_of_le h.1,?_⟩
  intro a l hl
  have hnext : (c'.linkAt f t ty m n).nextLink=c'.nextLink+1 := rfl
  rw [linkAt_dependsOn] at hl
  rw [hnext,linkAt_link]
  have hold (hl : l ∈ (c'.svc a).dependsOn) : l<c'.nextLink+1 ∧
      (l ∈ (c.svc a).dependsOn ∧
          (if l=c'.nextLink then { from_ := f, to_ := t, depType := ty } else c'.link l)=c.link l ∨
        N a (if l=c'.nextLink then ({ from_ := f, to_ := t, depType := ty } : Link)
          else c'.link l).to_) := by
    obtain ⟨h1,h2⟩ := h.2 a l hl
    rw [if_neg (Nat.ne_of_lt h1)]
    exact ⟨Nat.lt_succ_of_lt h1,h2⟩
  split_ifs at hl with haf
  · rcases mem_insertAt.mp hl with rfl | hl
    · rw [if_pos rfl,haf]
      exact ⟨Nat.lt_succ_self _,.inr hn⟩
    · rw [← haf] at hl
      exact hold hl
  · exact hold hl

theorem Linked.addLinks (h : c.Linked) (i : Nat) (d : Draft) : (c.addLinks i d).Linked ∧
    c.Grown (c.addLinks i d) fun a b => a=i ∧ b ∈ d.depends.map Prod.fst ∨ a ∈ d.beforeDeps ∧ b=i := by
  let P (c' : Core) : Prop := c'.Linked ∧ c.Grown c' fun a b =>
    a=i ∧ b ∈ d.depends.map Prod.fst ∨ a ∈ d.beforeDeps ∧ b=i
  have h0 : P c := ⟨h,Nat.le_refl _,fun a l hl => ⟨h.below a l hl,.inl ⟨hl,rfl⟩⟩⟩
  have h1 := List.foldlRecOn (motive := P) d.beforeDeps (fun c j => c.linkAt j i .before 0 0) h0
    fun c hc j hj => ⟨Linked.linkAt c j i .before 0 0 hc.1,hc.2.linkAt _ _ _ (.inr ⟨hj,rfl⟩)⟩
  exact List.foldlRecOn (motive := P) d.depends.zipIdx _ h1 fun c hc dep hdep =>
    ⟨Linked.linkAt c i dep.1.1 dep.1.2 dep.2 _ hc.1,hc.2.linkAt _ _ _
      (.inl ⟨rfl,List.mem_map_of_mem (List.fst_mem_of_mem_zipIdx hdep)⟩)⟩

theorem foldl_unlink_pruned (c : Core) (ls : List Nat) : c.Pruned (ls.foldl Core.unlink c) := by
  induction ls generalizing c with
  | nil => exact .refl _
  | cons l ls ih => exact (unlink_pruned c l).trans (ih _)

/-- Links that are taken off are gone. -/
theorem Linked.foldl_unlink (h : c.Linked) {ls : List Nat} {l : Nat} (hl : l ∈ ls) (k : Nat) :
    l ∉ ((ls.foldl Core.unlink c).svc k).dependsOn := by
  induction ls generalizing c with
  | nil => cases hl
  | cons m ls ih =>
    rcases List.mem_cons.mp hl with rfl | hl
    · intro hm
      exact (h.unlink_not_mem l k).1 (((foldl_unlink_pruned _ ls).dependsOn k).subset hm)
    · exact ih (h.unlink m) hl

/-- Each dependency after an update in place is an old one, or one that was asked for. -/
theorem Linked.relinked_edge (h : c.Linked) {i : Nat} {d : Draft} {a b : Nat}
    (he : (c.relinked i d).Edge a b) :
    withEdges (c.Stays i) i (· ∈ d.depends.map Prod.fst) (· ∈ d.beforeDeps) a b := by
  obtain ⟨l,hl,rfl⟩ := edge_iff.mp he
  obtain ⟨h1,h2⟩ := h.addLinks i d
  have hpr := foldl_unlink_pruned (c.addLinks i d) (c.staleLinks i)
  have hto : ((c.relinked i d).link l).to_=((c.addLinks i d).link l).to_ := hpr.to_ l
  rw [hto]
  rcases (h2.2 a l ((hpr.dependsOn a).subset hl)).2 with ⟨hs,hlink⟩ | ⟨rfl,hd⟩ | ⟨hj,heq⟩
  · rw [hlink]
    refine .inl ⟨l,hs,rfl,?_⟩
    rintro rfl
    by_contra hb
    refine h1.foldl_unlink (List.mem_append_left _ (List.mem_filter.mpr ⟨hs,?_⟩)) a hl
    simpa using hb
  · exact .inr (.inl ⟨rfl,hd⟩)
  · exact .inr (.inr ⟨hj,heq⟩)

end Core

namespace Loader

variable {s s' : Loader} (file : File) (fullname : String) {orig : Nat} {d : Draft}

/-- The links of the records once the new one has its own. -/
theorem withLinks_links (orig : Nat) (d : Draft) (h : s.Sound []) : s.core.Grown (s.withLinks file fullname orig d).core
    fun a b => a=s.reg.nextSvc ∧ b ∈ d.depends.map Prod.fst ∨ a ∈ d.beforeDeps ∧ b=s.reg.nextSvc := by
  refine withLinks_induct (P := fun c => s.core.Grown c fun a b =>
    a=s.reg.nextSvc ∧ b ∈ d.depends.map Prod.fst ∨ a ∈ d.beforeDeps ∧ b=s.reg.nextSvc) s file fullname
    orig d ⟨Nat.le_refl _,?_⟩
    (fun c hc dep hdep => Core.Grown.linkAt hc _ _ _ (.inl ⟨rfl,List.mem_map_of_mem hdep⟩))
    fun c hc j hj => Core.Grown.linkAt hc _ _ _ (.inr ⟨hj,rfl⟩)
  intro a l hl
  by_cases ha : a=s.reg.nextSvc
  · simp [ha] at hl
  · have hl' : l ∈ (s.core.svc a).dependsOn := by simpa [ha] using hl
    exact ⟨h.linked.below a l hl',.inl ⟨hl',rfl⟩⟩

/-- Where the links of a set come from in which the new record has taken the place of `orig`. -/
theorem createRecord_links (h : s.Sound []) (hd : ∀ dep ∈ d.depends, dep.1 ∈ s.core.records)
    (hb : ∀ j ∈ d.beforeDeps, j ∈ s.core.records) (ho : orig ∈ s.core.records) {a l : Nat}
    (hl : l ∈ ((s.createRecord file fullname orig d).2.core.svc a).dependsOn) :
    (∃ a', l ∈ ((s.withLinks file fullname orig d).core.svc a').dependsOn ∧
      (a'=a ∧ a≠orig ∨ a=s.reg.nextSvc ∧ a'=orig ∧
        ((s.withLinks file fullname orig d).core.link l).depType=.before)) ∧
    (((s.createRecord file fullname orig d).2.core.link l).to_ =
        ((s.withLinks file fullname orig d).core.link l).to_ ∨
      ((s.withLinks file fullname orig d).core.link l).to_=orig ∧
        ((s.createRecord file fullname orig d).2.core.link l).to_=s.reg.nextSvc) := by
  obtain ⟨hne,-,-⟩ := transferred_sound file fullname h hd hb ho
  have hpr := createRecord_pruned file fullname h hd hb ho
  have hloses := unclaimed_loses file fullname h hd hb orig
  have hunc := hloses.pruned
  have htype (k : Nat) : ((s.atTransfer file fullname orig d).link k).depType =
      ((s.withLinks file fullname orig d).core.link k).depType := by
    rw [atTransfer,Core.moveDependents_link]
    split_ifs <;> exact hunc.depType k
  have hsub (k : Nat) {l : Nat} (hl : l ∈ ((s.atTransfer file fullname orig d).svc k).dependsOn) :
      l ∈ ((s.withLinks file fullname orig d).core.svc k).dependsOn := by
    rw [atTransfer,Core.moveDependents_dependsOn] at hl
    exact (hunc.dependsOn k).subset hl
  have hao : a≠orig := by
    rintro rfl
    rw [createRecord_snd,Loader.putInPlace,delete_core] at hl
    simp at hl
  constructor
  · have hl1 := (hpr.dependsOn a).subset hl
    rw [transferred_core,Core.moveDependencies_dependsOn _ _ _ _ hne] at hl1
    split_ifs at hl1 with han
    · rcases List.mem_append.mp hl1 with hl1 | hl1
      · refine ⟨a,?_,.inl ⟨rfl,hao⟩⟩
        rw [han]
        exact hsub _ hl1
      · refine ⟨orig,hsub _ ((Core.transfer_subperm _ _ _).subset hl1),.inr ⟨han,rfl,?_⟩⟩
        rw [← htype]
        exact Core.transfer_before _ _ _ l hl1
    · exact ⟨a,hsub _ hl1,.inl ⟨rfl,hao⟩⟩
  · have hto : ((s.createRecord file fullname orig d).2.core.link l).to_ =
        ((s.atTransfer file fullname orig d).link l).to_ := by
      rw [hpr.to_,transferred_core,Core.moveDependencies_link]
      split_ifs <;> rfl
    rw [hto,atTransfer,Core.moveDependents_link]
    split_ifs with hm
    · refine .inr ⟨?_,rfl⟩
      rw [← hunc.to_]
      exact (hloses.sound.linked.dependents orig l hm).1
    · exact .inl (hunc.to_ l)

/-- The record that `x` stands for in the set before. -/
def standsFor (new orig x : Nat) : Nat := if x=new then orig else x

theorem standsFor_old {new orig x : Nat} (h : x≠new) : standsFor new orig x=x := if_neg h

theorem standsFor_new {new orig : Nat} : standsFor new orig new=orig := if_pos rfl

/-- Each dependency of the new set is one of the old set, or one that was asked for. -/
theorem createRecord_edge (h : s.Sound []) (hd : ∀ dep ∈ d.depends, dep.1 ∈ s.core.records)
    (hb : ∀ j ∈ d.beforeDeps, j ∈ s.core.records) (ho : orig ∈ s.core.records)
    (hself : orig ∉ d.beforeDeps) {a b : Nat}
    (he : (s.createRecord file fullname orig d).2.core.Edge a b) :
    withEdges (s.core.Stays orig) orig (· ∈ d.depends.map Prod.fst) (· ∈ d.beforeDeps)
      (standsFor s.reg.nextSvc orig a) (standsFor s.reg.nextSvc orig b) := by
  have hold {k : Nat} (hk : k ∈ s.core.records) : k≠s.reg.nextSvc := by
    rintro rfl
    exact h.next (List.mem_append_left _ hk)
  obtain ⟨l,hl,rfl⟩ := Core.edge_iff.mp he
  obtain ⟨⟨a',hl',ha⟩,hto⟩ := createRecord_links file fullname h hd hb ho hl
  have hb' : standsFor s.reg.nextSvc orig ((s.createRecord file fullname orig d).2.core.link l).to_ =
      standsFor s.reg.nextSvc orig ((s.withLinks file fullname orig d).core.link l).to_ := by
    rcases hto with hto | ⟨h1,h2⟩
    · rw [hto]
    · rw [h1,h2,standsFor_new,standsFor_old (hold ho)]
  have ha' : standsFor s.reg.nextSvc orig a=standsFor s.reg.nextSvc orig a' := by
    rcases ha with ⟨rfl,-⟩ | ⟨rfl,rfl,-⟩
    · rfl
    · rw [standsFor_new,standsFor_old (hold ho)]
  rw [ha',hb']
  rcases ((withLinks_links file fullname orig d h).2 a' l hl').2 with
    ⟨hs,hlink⟩ | ⟨rfl,hdep⟩ | ⟨hj,hnew⟩
  · have hm := h.mem hs
    simp only [List.append_nil] at hm
    rw [hlink,standsFor_old (hold hm.1),standsFor_old (hold hm.2)]
    refine .inl ⟨l,hs,rfl,?_⟩
    rintro rfl
    rcases ha with ⟨rfl,hne⟩ | ⟨-,-,hbefore⟩
    · exact absurd rfl hne
    · rw [← hlink]
      exact hbefore
  · obtain ⟨dep,hdep,heq⟩ := List.mem_map.mp hdep
    rw [standsFor_new,← heq,standsFor_old (hold (hd dep hdep))]
    exact .inr (.inl ⟨rfl,List.mem_map_of_mem hdep⟩)
  · rw [hnew,standsFor_new,standsFor_old (hold (hb a' hj))]
    exact .inr (.inr ⟨hj,rfl⟩)

end Loader

/-- What the check for cycles leaves out: the service does not come before itself, and no
service that is to come before it (others having said so) leads to one that it is itself to
come before. -/
def CycleOk : LoadCall × Core × Registry → Prop
  | (.link orig _ before,c,_) => orig ∉ before ∧
    ∀ l ∈ (c.svc orig).dependsOn, (c.link l).depType=.before →
      ∀ j ∈ before, ¬ReflTransGen c.Edge (c.link l).to_ j
  | _ => True

namespace Loader

variable {s s' : Loader} (file : File) (fullname : String) {orig : Nat} {d : Draft}

/-- Nothing depends on a service that is being loaded. -/
def Unreached (s : Loader) : Prop := ∀ i, s.reg.isLoading i=true → ∀ j, ¬s.core.Edge j i

/-- The new links close no cycle. -/
theorem Ready.separated {reload : Option Nat} (hr : s.Ready reload orig d) (hg : s.Good)
    (hu : s.Unreached) (hl : reload=none → s.reg.isLoading orig=true)
    (hok : CycleOk (.link orig (d.depends.map Prod.fst) d.beforeDeps,s.core,s.reg)) :
    Separated (s.core.Stays orig) orig (· ∈ d.depends.map Prod.fst) (· ∈ d.beforeDeps) := by
  obtain ⟨hself,hfront⟩ := hok
  refine ⟨?_,?_,?_⟩
  · intro t ht hreach
    obtain ⟨dep,hdep,rfl⟩ := List.mem_map.mp ht
    have hreach := Core.stays_reach hreach
    cases hre : reload with
    | some r => exact hr.back (by simp [hre]) dep hdep hreach
    | none =>
      rcases ReflTransGen.cases_tail hreach with he | ⟨k,-,he⟩
      · have hload := (hr.known.depends dep hdep).2.1
        rw [← he,hl hre] at hload
        cases hload
      · exact hu orig (hl hre) k he
  · intro t j ht hj hreach
    obtain ⟨dep,hdep,rfl⟩ := List.mem_map.mp ht
    have hreach := Core.stays_reach hreach
    rcases hr.known.across dep hdep j hj with hn | ⟨hn,hne⟩
    · exact hn hreach
    · exact hg.sound.linked.not_reach hn hne hreach
  · intro j hj hreach
    rcases Core.stays_front hreach with rfl | ⟨l,hl,hb,hreach⟩
    · exact hself hj
    · exact hfront l hl hb j hj hreach

theorem acyclic_stays (h : Acyclic s.core.Edge) (x : Nat) : Acyclic (s.core.Stays x) :=
  h.mono fun _ _ => Core.Stays.edge

/-- A record is replaced: there is no cycle. -/
theorem acyclic_createRecord (h : Acyclic s.core.Edge) {reload : Option Nat}
    (hr : s.Ready reload orig d) (hg : s.Good) (hu : s.Unreached) (ho : orig ∈ s.core.records)
    (hl : reload=none → s.reg.isLoading orig=true)
    (hok : CycleOk (.link orig (d.depends.map Prod.fst) d.beforeDeps,s.core,s.reg)) :
    Acyclic (s.createRecord file fullname orig d).2.core.Edge :=
  ((acyclic_stays h orig).withEdges (hr.separated hg hu hl hok)).of_map
    (standsFor s.reg.nextSvc orig) fun _ _ he => createRecord_edge file fullname hg.sound
      (hr.known.mem hg.trusted) hr.known.before ho hok.1 he

/-- What is being loaded was so before. -/
def Settles (s s' : Loader) : Prop := ∀ k, s'.reg.isLoading k=true → s.reg.isLoading k=true

theorem lax_settles : Lax Settles where
  refl _ _ h := h
  trans _ _ _ h h' k hk := h k (h' k hk)
  onCore _ _ _ _ h := h
  push _ _ _ h := h
  undefined _ _ h := h
  logType _ _ _ h := h
  setLogConsumer _ _ _ _ h := h
  setConsumerFor _ _ _ _ h := h
  allocate s settings k hk := by
    have hk' : (if k=s.reg.nextSvc then false else s.reg.isLoading k)=true := hk
    split_ifs at hk'
    exact hk'
  delete s i k hk := by
    rw [delete_isLoading] at hk
    split_ifs at hk
    exact hk

theorem cleanup_pruned (s : Loader) (dummy : Option Nat) (d : Draft) :
    s.core.Pruned (s.cleanup dummy d).core := by
  have hdrop (xs : List (Nat × Bool)) (u : Loader) :
      u.core.Pruned (xs.foldl (fun s x => s.dropPlaceholder x.1 x.2) u).core := by
    induction xs generalizing u with
    | nil => exact .refl _
    | cons x xs ih => exact (dropPlaceholder_lists u x.1 x.2).pruned.trans (ih _)
  have hdummy (u : Loader) : u.core.Pruned (u.dropDummy dummy).core := by
    cases dummy with
    | none => exact .refl _
    | some i => exact (removeService_lists u i).pruned.trans (delete_pruned _ i)
  rw [cleanup_eq]
  exact (hdummy (s.push (.cleanup dummy d.beforeDeps d.afterDeps d.consumerOf.toList))).trans
    (hdrop (candidates d) _)

/-- A service that is unloaded is stood for by its placeholder. -/
theorem unloadService_edge (h : s.Sound []) {i : Nat} (hi : i ∈ s.core.records) {a b : Nat}
    (he : (s.unloadService i).core.Edge a b) :
    s.core.Edge (standsFor s.reg.nextSvc i a) (standsFor s.reg.nextSvc i b) := by
  have hold {k : Nat} (hk : k ∈ s.core.records++[]) : k≠s.reg.nextSvc := by
    rintro rfl
    exact h.next hk
  have hne : i≠s.reg.nextSvc := hold (List.mem_append_left _ hi)
  obtain ⟨h1,-⟩ := h.unloading hi
  have hpr : (s.unloading i).core.Pruned (s.unloadService i).core := by
    rw [unloadService_eq]
    exact ((h1.prepareForUnload (by simp [Built]) i).1.pruned.trans
      (removeService_lists _ i).pruned).trans (delete_pruned _ i)
  obtain ⟨l,hl,rfl⟩ := Core.edge_iff.mp he
  have hl := (hpr.dependsOn a).subset hl
  rw [hpr.to_ l]
  have hstay {a l : Nat} (hl : l ∈ (s.core.svc a).dependsOn) :
      s.core.Edge (standsFor s.reg.nextSvc i a) (standsFor s.reg.nextSvc i (s.core.link l).to_) := by
    obtain ⟨hm1,hm2⟩ := h.mem hl
    rw [standsFor_old (hold hm1),standsFor_old (hold hm2)]
    exact Core.edge_iff.mpr ⟨l,hl,rfl⟩
  unfold unloading at hl ⊢
  split_ifs at hl ⊢
  · have hsvc (k : Nat) : ((s.push (.unload i)).addPlaceholder
        (s.core.svc i).settings.serviceName).core.svc k=if k=s.reg.nextSvc then
          { settings := { serviceName := (s.core.svc i).settings.serviceName } } else s.core.svc k :=
      allocate_svc (s.push (.unload i)) _ false k
    have hfrom : ∃ a', l ∈ (s.core.svc a').dependsOn ∧
        standsFor s.reg.nextSvc i a=standsFor s.reg.nextSvc i a' := by
      have hl' := hl
      rw [leavePlaceholder,onCore_core,push_reg,Core.moveDependencies_dependsOn _ _ _ _ hne,
        Core.moveDependents_dependsOn] at hl'
      split_ifs at hl' with han hai
      · refine ⟨i,?_,?_⟩
        · rcases List.mem_append.mp hl' with hl' | hl'
          · rw [push_core,hsvc,if_pos rfl] at hl'
            cases hl'
          · exact (List.mem_filter.mp hl').1
        · rw [han,standsFor_new,standsFor_old hne]
      · refine ⟨i,?_,by rw [hai]⟩
        have hl'' := (List.mem_filter.mp hl').1
        rw [Core.moveDependents_dependsOn,push_core,hsvc,if_neg hne] at hl''
        exact hl''
      · refine ⟨a,?_,rfl⟩
        rw [Core.moveDependents_dependsOn,push_core,hsvc,if_neg han] at hl'
        exact hl'
    have hto : standsFor s.reg.nextSvc i (((s.push (.unload i)).leavePlaceholder i).core.link l).to_ =
        standsFor s.reg.nextSvc i (s.core.link l).to_ := by
      have hlink : (((s.push (.unload i)).leavePlaceholder i).core.link l).to_ =
          if l ∈ (s.leaves i).1 then s.reg.nextSvc else (s.core.link l).to_ := by
        have hto2 (c : Core) : ((((c.moveDependents i s.reg.nextSvc (s.leaves i).1).moveDependencies i
            s.reg.nextSvc (s.leaves i).2).link l).to_) =
              if l ∈ (s.leaves i).1 then s.reg.nextSvc else (c.link l).to_ := by
          rw [Core.moveDependencies_link,Core.moveDependents_link]
          split_ifs <;> rfl
        exact hto2 _
      rw [hlink]
      split_ifs with hm
      · rw [(h.linked.dependents i l (List.mem_filter.mp hm).1).1,standsFor_new,standsFor_old hne]
      · rfl
    obtain ⟨a',ha',heq⟩ := hfrom
    rw [heq,hto]
    exact hstay ha'
  · exact hstay hl

/-- There is no cycle, and nothing depends on a service that is being loaded. -/
structure NoCycle (s : Loader) : Prop where
  acyclic : Acyclic s.core.Edge
  unreached : s.Unreached

/-- Links that only go close no cycle. -/
theorem NoCycle.of_edge (h : s.NoCycle) (he : ∀ a b, s'.core.Edge a b → s.core.Edge a b)
    (hs : Settles s s') : s'.NoCycle :=
  ⟨h.acyclic.mono he,fun i hi j hj => h.unreached i (hs i hi) j (he j i hj)⟩

/-- A record joins the set without links. -/
theorem NoCycle.join (h : s.NoCycle) (hg : s.Good) (settings : Settings) (loading : Bool) :
    ((s.allocate settings loading).addService s.reg.nextSvc).NoCycle := by
  have hedge (a b : Nat)
      (he : ((s.allocate settings loading).addService s.reg.nextSvc).core.Edge a b) :
      s.core.Edge a b := by
    obtain ⟨l,hl,hto⟩ := Core.edge_iff.mp he
    have hl' : l ∈ ((s.allocate settings loading).core.svc a).dependsOn := hl
    rw [allocate_svc] at hl'
    split_ifs at hl'
    · cases hl'
    · exact Core.edge_iff.mpr ⟨l,hl',hto⟩
  refine ⟨h.acyclic.mono hedge,?_⟩
  intro i hi j he
  have he' := hedge j i he
  have hi' : (if i=s.reg.nextSvc then loading else s.reg.isLoading i)=true := hi
  split_ifs at hi' with hin
  · obtain ⟨l,hl,hto⟩ := Core.edge_iff.mp he'
    have hm := (hg.sound.mem hl).2
    rw [hto,hin] at hm
    exact hg.sound.next hm
  · exact h.unreached i hi' j he'

/-- A record is replaced. -/
theorem NoCycle.replaced (h : s.NoCycle) (hg : s.Good) {reload : Option Nat}
    (hr : s.Ready reload orig d) (ho : orig ∈ s.core.records)
    (hl : reload=none → s.reg.isLoading orig=true)
    (hok : CycleOk (.link orig (d.depends.map Prod.fst) d.beforeDeps,s.core,s.reg))
    (hg' : ((s.createRecord file fullname orig d).2.setConsumer s.reg.nextSvc d).Good) :
    ((s.createRecord file fullname orig d).2.setConsumer s.reg.nextSvc d).NoCycle := by
  have hd := hr.known.mem hg.trusted
  refine ⟨?_,?_⟩
  · rw [setConsumer_core]
    exact acyclic_createRecord file fullname h.acyclic hr hg h.unreached ho hl hok
  · intro i hi j he
    have hi' := lax_settles.trans _ _ _ (lax_settles.createRecord s file fullname orig d)
      (lax_settles.setConsumer _ _ d) i hi
    rw [setConsumer_core] at he
    have hmem : i ∈ (s.createRecord file fullname orig d).2.core.records := by
      obtain ⟨l,hl,hto⟩ := Core.edge_iff.mp he
      have hm := (hg'.sound.mem (i := j) (l := l) (by
        rw [setConsumer_core]
        exact hl)).2
      rw [setConsumer_core,hto] at hm
      simpa using hm
    have hin : i≠s.reg.nextSvc := by
      rintro rfl
      rw [(hg.tidy.unused _ (Nat.le_refl _)).1] at hi'
      cases hi'
    have hio : i≠orig := by
      rintro rfl
      exact createRecord_not_mem file fullname (hg.tidy.below i ho) hmem
    have hedge := createRecord_edge file fullname hg.sound hd hr.known.before ho hok.1 he
    rw [standsFor_old hin] at hedge
    rcases hedge with hst | ⟨-,hdep⟩ | ⟨-,heq⟩
    · exact h.unreached i hi' _ hst.edge
    · obtain ⟨dep,hdep',rfl⟩ := List.mem_map.mp hdep
      rw [(hr.known.depends dep hdep').2.1] at hi'
      cases hi'
    · exact hio heq

theorem NoCycle.event {w' : World} (h : s.NoCycle) (hg : s.Good) (he : EventStep s.world w') :
    ({ s with world := w' } : Loader).NoCycle := by
  rcases he.graph with hgr | ⟨f,t,depType,-,hm,rfl⟩ | ⟨f,l,-,-,rfl⟩
  · exact h.of_edge (fun a b => Core.Edge.of_graph hgr) (lax_settles.refl s)
  · have hedge (a b : Nat) (hab : (s.core.addDep f t depType).Edge a b) :
        withEdges s.core.Edge f (· = t) (fun _ => False) a b := by
      have hab := Core.Edge.of_graph (Core.addDepAt_graph s.core f t depType _) hab
      obtain ⟨l,hl,rfl⟩ := Core.edge_iff.mp hab
      rw [Core.linkAt_dependsOn] at hl
      rw [Core.linkAt_link]
      have hold (hl : l ∈ (s.core.svc a).dependsOn) : withEdges s.core.Edge f (· = t)
          (fun _ => False) a ((if l=s.core.nextLink then { from_ := f, to_ := t, depType := depType }
            else s.core.link l) : Link).to_ := by
        rw [if_neg (Nat.ne_of_lt (hg.sound.linked.below a l hl))]
        exact .inl (Core.edge_iff.mpr ⟨l,hl,rfl⟩)
      split_ifs at hl with haf
      · rcases mem_insertAt.mp hl with rfl | hl
        · rw [if_pos rfl]
          exact .inr (.inl ⟨haf,rfl⟩)
        · rw [← haf] at hl
          exact hold hl
      · exact hold hl
    obtain ⟨seen,ht,hseen⟩ := hm.closed
    have hsep : Separated s.core.Edge f (· = t) (fun _ => False) := by
      refine ⟨?_,fun _ _ _ h => h.elim,fun _ h => h.elim⟩
      rintro _ rfl
      refine not_reach_of_closed (S := fun a => a ∈ seen) ?_ ?_ ht hm.ne.symm
      · intro a b ha hab
        obtain ⟨l,hl,rfl⟩ := Core.edge_iff.mp hab
        exact (hseen a ha l hl).1
      · intro a ha hab
        obtain ⟨l,hl,hto⟩ := Core.edge_iff.mp hab
        exact (hseen a ha l hl).2 hto
    refine ⟨(h.acyclic.withEdges hsep).mono hedge,?_⟩
    intro i hi j hj
    rcases hedge j i hj with hold | ⟨-,rfl⟩ | ⟨hf,-⟩
    · exact h.unreached i hi j hold
    · exact hm.real (hg.tidy.loading i hi)
    · exact hf
  · exact h.of_edge (fun a b => (Core.rmDep_pruned s.core l).edge) (lax_settles.refl s)

/-- An update in place closes no cycle. -/
theorem NoCycle.updated {w' : World} (h : s.NoCycle) (hg : s.Good)
    (hr : s.Ready (some orig) orig d) (hreal : (s.core.svc orig).getType≠.placeholder)
    (hok : CycleOk (.link orig (d.depends.map Prod.fst) d.beforeDeps,s.core,s.reg))
    (hw : (s.core.relinked orig d).SameGraph w'.core) :
    ((({ s with world := w' } : Loader).withSettings file orig).setConsumer orig d).NoCycle := by
  have hedge (a b : Nat)
      (he : ((({ s with world := w' } : Loader).withSettings file orig).setConsumer orig d).core.Edge
        a b) : withEdges (s.core.Stays orig) orig (· ∈ d.depends.map Prod.fst) (· ∈ d.beforeDeps) a b := by
    refine hg.sound.linked.relinked_edge (Core.Edge.of_graph hw ?_)
    rw [setConsumer_core] at he
    obtain ⟨l,hl,hto⟩ := Core.edge_iff.mp he
    refine Core.edge_iff.mpr ⟨l,?_,hto⟩
    rw [withSettings_svc] at hl
    split_ifs at hl with ha
    · rw [ha]
      exact hl
    · exact hl
  have hsep := hr.separated hg h.unreached (fun hn => by cases hn) hok
  refine ⟨((acyclic_stays h.acyclic orig).withEdges hsep).mono hedge,?_⟩
  intro i hi j hj
  have hi' : s.reg.isLoading i=true :=
    lax_settles.setConsumer (({ s with world := w' } : Loader).withSettings file orig) orig d i hi
  rcases hedge j i hj with hst | ⟨-,hdep⟩ | ⟨-,rfl⟩
  · exact h.unreached i hi' j hst.edge
  · obtain ⟨dep,hdep',rfl⟩ := List.mem_map.mp hdep
    rw [(hr.known.depends dep hdep').2.1] at hi'
    cases hi'
  · exact hreal (hg.tidy.loading i hi')

/-- Every step closes no cycle, if the calls made meet the condition. -/
theorem RequestStep.noCycle (h : RequestStep s s') (hg : s.Good) (hg' : s'.Good) (hc : s.NoCycle)
    (hok : ∀ e ∈ s'.calls, LoadOk e ∧ CycleOk e) : s'.NoCycle := by
  have hentry {orig : Nat} {d : Draft} {reload : Option Nat} (hr : s.Ready reload orig d) :
      LoadOk (.link orig (d.depends.map Prod.fst) d.beforeDeps,s.core,s.reg) ∧
        CycleOk (.link orig (d.depends.map Prod.fst) d.beforeDeps,s.core,s.reg) :=
    hok _ (h.calls _ hr.entry)
  cases h with
  | load h =>
    cases h with
    | dummy name hn => exact hc.join hg _ true
    | placeholder n hn => exact hc.join hg _ false
    | link orig d => exact hc.of_edge (fun _ _ h => h) (lax_settles.refl s)
    | cleanup dummy d hd hk =>
      exact hc.of_edge (fun _ _ => (cleanup_pruned s dummy d).edge) (lax_settles.cleanup s dummy d)
    | create file name reload orig d hr ho hp hro hl hn =>
      obtain ⟨hmem,hcok⟩ := hentry hr
      exact hc.replaced file name hg hr hmem (fun hn => hl hn hmem) hcok hg'
  | event h => exact hc.event hg h
  | replace file orig d hr _ ho hreal ht =>
    exact hc.replaced file _ hg hr ho (fun hn => by cases hn) (hentry hr).2 hg'
  | @update w' file orig d hr _ ho hreal ht hm hw =>
    have hs := moves_settings hm
    exact hc.updated file hg hr hreal (hentry hr).2 (hw hg.sound.linked).2
  | unload i hi hreal hd hs =>
    refine ⟨hc.acyclic.of_map (standsFor s.reg.nextSvc i) fun _ _ he =>
      unloadService_edge hg.sound hi he,?_⟩
    intro k hk j he
    have hk' := lax_settles.unloadService s i k hk
    have hkn : k≠s.reg.nextSvc := by
      rintro rfl
      rw [(hg.tidy.unused _ (Nat.le_refl _)).1] at hk'
      cases hk'
    have hedge := unloadService_edge hg.sound hi he
    rw [standsFor_old hkn] at hedge
    exact hc.unreached k hk' _ hedge

/-- The dependencies never form a cycle, between any two requests of a run that meets the
condition. -/
theorem Reached.acyclic (h : Reached s) (hok : ∀ e ∈ s.calls, LoadOk e ∧ CycleOk e) :
    Acyclic s.core.Edge := by
  have hedge (a b : Nat) : ¬Loader.empty.core.Edge a b := by
    intro he
    obtain ⟨l,hl,-⟩ := Core.edge_iff.mp he
    cases hl
  have hempty : Loader.empty.NoCycle := by
    refine ⟨?_,fun i _ j => hedge j i⟩
    intro a ha
    obtain ⟨b,he,-⟩ := TransGen.head'_iff.mp ha
    exact hedge a b he
  exact (h.invariant (fun e => LoadOk e ∧ CycleOk e) (I := NoCycle) hempty
    (fun _ _ hok hg hg' hc hs => hs.noCycle hg hg' hc hok) (fun _ he => he.1) hok).2.acyclic

/-- "y" comes before "x", which has a dependency on "w" and comes before the services
`before`. -/
def beforeEachOther (before : List String) : String → Except LoadError File
  | "x" => .ok
    { lines := .dependsOn "w" .regular::before.map .before, settings := { recordType := .process },
      isService := process_isService }
  | "y" => .ok { lines := [.before "x"], settings := { recordType := .process }, isService := process_isService }
  | "w" => .ok { settings := { recordType := .process }, isService := process_isService }
  | n => .error (.notFound n)

/-- A load after which no check is left out. -/
def plainLink : LoadCall × Core × Registry → Bool
  | (.link orig _ before,c,_) =>
    !before.contains orig && (before.isEmpty || (c.svc orig).dependsOn.isEmpty)
  | _ => true

theorem cycleOk_of_plain {e : LoadCall × Core × Registry} (h : plainLink e=true) : CycleOk e := by
  rcases e with ⟨_ | _ | _ | _ | _ | _,c,r⟩
  case link orig depends before =>
    simp only [plainLink,Bool.and_eq_true,Bool.or_eq_true,List.isEmpty_iff] at h
    refine ⟨by simpa using h.1,?_⟩
    intro l hl _ j hj
    rcases h.2 with h | h
    · rw [h] at hj
      cases hj
    · rw [h] at hl
      cases hl
  all_goals trivial

/-- "y" is loaded, and then "x" that it comes before. -/
theorem acyclic_before : ∃ s, Reached s ∧ (∀ e ∈ s.calls, LoadOk e ∧ CycleOk e) ∧
    s.core.targets 5=[4,2] ∧ Acyclic s.core.Edge := by
  obtain ⟨s,hs,hp⟩ := reached_of_run 10
    ([⟨beforeEachOther [],.load "y"⟩,⟨beforeEachOther [],.load "x"⟩])
    (p := fun s => decide (∀ e ∈ s.calls, LoadOk e) && s.calls.all plainLink &&
      decide (s.core.targets 5=[4,2])) (by decide +kernel)
  simp only [Bool.and_eq_true,decide_eq_true_eq,List.all_eq_true] at hp
  obtain ⟨⟨hok,hpl⟩,ht⟩ := hp
  have hok' : ∀ e ∈ s.calls, LoadOk e ∧ CycleOk e :=
    fun e he => ⟨hok e he,cycleOk_of_plain (hpl e he)⟩
  exact ⟨s,hs,hok',ht,hs.acyclic hok'⟩

/-- "y" comes before "x", and "x" before "y": both are loaded. -/
theorem acyclic_before_each_other : ¬∀ s, Reached s → Acyclic s.core.Edge := by
  intro h
  obtain ⟨s,hs,hp⟩ := reached_of_run 10
    ([⟨beforeEachOther ["y"],.load "y"⟩,⟨beforeEachOther ["y"],.load "x"⟩])
    (p := fun s => decide (2 ∈ s.core.targets 5) && decide (5 ∈ s.core.targets 2))
    (by decide +kernel)
  simp only [Bool.and_eq_true,decide_eq_true_eq] at hp
  exact h s hs 5 (.tail (.single hp.1) hp.2)

end Loader
end Dinit
