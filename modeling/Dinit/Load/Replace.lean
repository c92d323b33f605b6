import Dinit.Load.Unlink
import Mathlib.Data.List.Nodup
import Mathlib.Data.List.Perm.Subperm

namespace Dinit

open Framework Framework.Comp World

namespace Core

variable (c : Core)

theorem transferPass_move {l : Nat} (hb : (c.link l).depType=.before) (k : Nat) (ls : List Nat) :
    c.transferPass (l::k::ls) =
      (l::(c.transferPass ls).1,k::(c.transferPass ls).2.1,(c.transferPass ls).2.2) := by
  simp only [transferPass,if_pos hb]

theorem transferPass_last {l : Nat} (hb : (c.link l).depType=.before) :
    c.transferPass [l]=([l],[],true) := by
  simp only [transferPass,if_pos hb]

theorem transferPass_leave {l : Nat} (hb : (c.link l).depType≠.before) (ls : List Nat) :
    c.transferPass (l::ls) =
      ((c.transferPass ls).1,l::(c.transferPass ls).2.1,(c.transferPass ls).2.2) := by
  rw [transferPass.eq_def]
  simp only [if_neg hb]

/-- Each link is either moved or left. -/
theorem transferPass_perm (ls : List Nat) :
    ((c.transferPass ls).1++(c.transferPass ls).2.1).Perm ls := by
  induction ls using transferPass.induct c with
  | case1 => exact .refl _
  | case2 l hb => simp [c.transferPass_last hb]
  | case3 l hb k ls ih =>
    rw [c.transferPass_move hb]
    exact (List.perm_middle.trans (ih.cons k)).cons l
  | case4 l ls hb ih =>
    rw [c.transferPass_leave hb]
    exact List.perm_middle.trans (ih.cons l)

theorem transfer_subperm (fuel : Nat) (ls : List Nat) : (c.transfer fuel ls).Subperm ls := by
  induction fuel generalizing ls with
  | zero => exact List.nil_subperm
  | succ fuel ih =>
    have hp := (c.transferPass_perm ls).subperm
    simp only [transfer]
    split
    · exact ((List.subperm_append_left _).mpr (ih _)).trans hp
    · exact (List.sublist_append_left _ _).subperm.trans hp

theorem transfer_nodup (fuel : Nat) {ls : List Nat} (h : ls.Nodup) : (c.transfer fuel ls).Nodup := by
  obtain ⟨ks,hp,hs⟩ := c.transfer_subperm fuel ls
  exact hp.nodup_iff.mp (h.sublist hs)

end Core

namespace Loader

variable (s : Loader) (file : File) (fullname : String) (orig : Nat) (d : Draft)

/-- The new record with its own links, before it takes those of `orig`. -/
def withLinks : Loader :=
  let i := s.reg.nextSvc
  let settings := { file.settings with serviceName := fullname }
  let s := (s.push (.replace orig i)).allocate settings false
  let s := s.onReg fun r => { r with logType := fun j => if j=i then file.logType else r.logType j }
  let s := d.depends.foldl (fun s dep => s.onCore fun c => c.linkLast i dep.1 dep.2) s
  d.beforeDeps.foldl (fun s j => s.onCore fun c => c.linkLast j i .before) s

/-- The new record takes the links of `orig`, its own "before" dependents aside. -/
def handOver (i : Nat) : Loader :=
  let s := s.onCore fun c => c.moveDependents orig i (c.svc orig).dependents
  let s := s.push (.transfer orig)
  s.onCore fun c =>
    let ls := (c.svc orig).dependsOn
    c.moveDependencies orig i (c.transfer ls.length ls)

theorem takeOver_eq (i : Nat) : s.takeOver i orig =
    (((s.core.svc orig).dependents.filter fun l => (s.core.link l).depType==.before).foldl
      dropDependent s).handOver orig i := rfl

/-- The old record loses its links. -/
def retire (i : Nat) : Loader :=
  let s := if (s.core.svc i).isProcess then s.handConsumer i orig else s
  let s := s.prepareForUnload orig
  let t := (s.core.svc orig).getType
  if t = .process ∨ t = .bgprocess then s.dropConsumed orig d.consumerOf else s

/-- The new record is put in the place of the old one. -/
def putInPlace (i : Nat) : Loader :=
  (s.onCore fun c => { c with records := c.records.map fun j => if j=orig then i else j }).delete orig

theorem createRecord_eq : s.createRecord file fullname orig d =
    (s.reg.nextSvc,((((s.withLinks file fullname orig d).takeOver s.reg.nextSvc orig).retire orig d
      s.reg.nextSvc).putInPlace orig s.reg.nextSvc)) := rfl

theorem createRecord_snd : (s.createRecord file fullname orig d).2 =
    (((s.withLinks file fullname orig d).takeOver s.reg.nextSvc orig).retire orig d
      s.reg.nextSvc).putInPlace orig s.reg.nextSvc :=
  congrArg Prod.snd (createRecord_eq s file fullname orig d)

/-- What the loops that make links leave alone. -/
theorem withLinks_keep {β : Type} (g : Loader → β)
    (hg : ∀ s f t depType, g (s.onCore fun c => c.linkLast f t depType)=g s) :
    g (s.withLinks file fullname orig d)=g (((s.push (.replace orig s.reg.nextSvc)).allocate
      { file.settings with serviceName := fullname } false).onReg fun r => { r with
        logType := fun j => if j=s.reg.nextSvc then file.logType else r.logType j }) := by
  have hdep (i : Nat) := foldl_keep
    (f := fun u (dep : Nat × DependencyType) => u.onCore fun c => c.linkLast i dep.1 dep.2) g
    fun u dep => hg u i dep.1 dep.2
  have hbefore (i : Nat) := foldl_keep
    (f := fun u j => u.onCore fun c => c.linkLast j i .before) g fun u j => hg u j i .before
  exact (hbefore s.reg.nextSvc d.beforeDeps _).trans (hdep s.reg.nextSvc d.depends _)

/-- What holds of the new record without links, and is kept as each is made. -/
theorem withLinks_induct {P : Core → Prop}
    (h : P (s.core.setSvc s.reg.nextSvc fun _ =>
      { settings := { file.settings with serviceName := fullname } }))
    (hd : ∀ c, P c → ∀ dep ∈ d.depends, P (c.linkLast s.reg.nextSvc dep.1 dep.2))
    (hb : ∀ c, P c → ∀ j ∈ d.beforeDeps, P (c.linkLast j s.reg.nextSvc .before)) :
    P (s.withLinks file fullname orig d).core :=
  List.foldlRecOn (motive := fun u : Loader => P u.core) d.beforeDeps _
    (List.foldlRecOn (motive := fun u : Loader => P u.core) d.depends _ h
      fun u hu dep hm => hd u.core hu dep hm) fun u hu j hm => hb u.core hu j hm

theorem withLinks_nextSvc :
    (s.withLinks file fullname orig d).reg.nextSvc=s.reg.nextSvc+1 :=
  withLinks_keep s file fullname orig d (fun s => s.reg.nextSvc) fun _ _ _ _ => rfl

theorem withLinks_calls : (s.withLinks file fullname orig d).calls =
    (.replace orig s.reg.nextSvc,s.core,s.reg)::s.calls :=
  withLinks_keep s file fullname orig d Loader.calls fun _ _ _ _ => rfl

theorem takeOver_nextSvc (i : Nat) : (s.takeOver i orig).reg.nextSvc=s.reg.nextSvc :=
  foldl_keep (fun s => s.reg.nextSvc) dropDependent_nextSvc
    ((s.core.svc orig).dependents.filter fun l => (s.core.link l).depType==.before) s

theorem takeOver_calls (i : Nat) : ∃ c r, (s.takeOver i orig).calls=(.transfer orig,c,r)::s.calls := by
  have h := foldl_keep Loader.calls dropDependent_calls
    ((s.core.svc orig).dependents.filter fun l => (s.core.link l).depType==.before) s
  rw [takeOver_eq]
  generalize (((s.core.svc orig).dependents.filter fun l => (s.core.link l).depType==.before).foldl
    dropDependent s)=u at h ⊢
  refine ⟨u.core.moveDependents orig i (u.core.svc orig).dependents,u.reg,?_⟩
  rw [← h]
  rfl

theorem handConsumer_calls (i : Nat) : (s.handConsumer i orig).calls=s.calls := by
  unfold handConsumer
  split <;> rfl

theorem handConsumer_nextSvc (i : Nat) : (s.handConsumer i orig).reg.nextSvc=s.reg.nextSvc := by
  unfold handConsumer
  split <;> rfl

theorem dropConsumed_calls (p : Option Nat) : (s.dropConsumed orig p).calls=s.calls := by
  unfold dropConsumed
  split
  · split <;> rfl
  · rfl

theorem dropConsumed_nextSvc (p : Option Nat) :
    (s.dropConsumed orig p).reg.nextSvc=s.reg.nextSvc := by
  unfold dropConsumed
  split
  · split <;> rfl
  · rfl

theorem retire_calls (i : Nat) : (s.retire orig d i).calls=s.calls := by
  unfold retire
  dsimp only
  split_ifs <;> simp only [dropConsumed_calls,prepareForUnload_calls,handConsumer_calls]

theorem retire_nextSvc (i : Nat) : (s.retire orig d i).reg.nextSvc=s.reg.nextSvc := by
  unfold retire
  dsimp only
  split_ifs <;> simp only [dropConsumed_nextSvc,prepareForUnload_nextSvc,handConsumer_nextSvc]

theorem withLinks_records : (s.withLinks file fullname orig d).core.records=s.core.records :=
  withLinks_keep s file fullname orig d (fun s => s.core.records) fun _ _ _ _ => rfl

variable {s orig d} {i : Nat} {extra : List Nat}

theorem putInPlace_svc (s : Loader) {orig k : Nat} (i : Nat) (hk : k≠orig) :
    (s.putInPlace orig i).core.svc k=s.core.svc k := by
  unfold putInPlace
  rw [delete_core]
  simp [hk]

theorem putInPlace_records (s : Loader) (orig i : Nat) :
    (s.putInPlace orig i).core.records=s.core.records.map fun j => if j=orig then i else j := by
  unfold putInPlace
  rw [delete_core]
  rfl

theorem putInPlace_calls (s : Loader) (orig i : Nat) : (s.putInPlace orig i).calls=s.calls := by
  unfold putInPlace
  rw [delete_calls]
  rfl

theorem putInPlace_nextSvc (s : Loader) (orig i : Nat) :
    (s.putInPlace orig i).reg.nextSvc=s.reg.nextSvc := by
  unfold putInPlace
  rw [delete_nextSvc]
  rfl

theorem Sound.handConsumer (h : s.Sound extra) (i orig : Nat) :
    (s.handConsumer i orig).Sound extra := by
  unfold Loader.handConsumer
  split
  · exact h.onReg rfl rfl rfl
  · exact h

theorem Sound.dropConsumed (h : s.Sound extra) (orig : Nat) (p : Option Nat) :
    (s.dropConsumed orig p).Sound extra := by
  unfold Loader.dropConsumed
  split
  · split
    · exact h.onReg rfl rfl rfl
    · exact h
  · exact h

theorem handConsumer_core (s : Loader) (i orig : Nat) : (s.handConsumer i orig).core=s.core := by
  unfold Loader.handConsumer
  split <;> rfl

theorem dropConsumed_core (s : Loader) (orig : Nat) (p : Option Nat) :
    (s.dropConsumed orig p).core=s.core := by
  unfold Loader.dropConsumed
  split
  · split <;> rfl
  · rfl

/-- The links of the new record. -/
theorem Sound.linkAll (h : s.Sound [i]) (hb : s.Built [i]) (deps : List (Nat × DependencyType))
    (hd : ∀ dep ∈ deps, dep.1 ∈ s.core.records) :
    (deps.foldl (fun s dep => s.onCore fun c => c.linkLast i dep.1 dep.2) s).Sound [i] ∧
      (deps.foldl (fun s dep => s.onCore fun c => c.linkLast i dep.1 dep.2) s).Built [i] ∧
      (deps.foldl (fun s dep => s.onCore fun c => c.linkLast i dep.1 dep.2) s).core.records =
        s.core.records := by
  induction deps generalizing s with
  | nil => exact ⟨h,hb,rfl⟩
  | cons dep deps ih =>
    have h1 : (s.onCore fun c => c.linkLast i dep.1 dep.2).Sound [i] :=
      h.linkAt dep.2 _ _ (by simp) (List.mem_append_left _ (hd dep List.mem_cons_self))
        fun ht => absurd ht (hb i (by simp))
    have hb1 : (s.onCore fun c => c.linkLast i dep.1 dep.2).Built [i] :=
      hb.onCore fun k => Core.linkAt_settings ..
    exact ih h1 hb1 fun e he => hd e (List.mem_cons_of_mem dep he)

theorem Sound.linkBefore (h : s.Sound [i]) (hb : s.Built [i]) (js : List Nat)
    (hj : ∀ j ∈ js, j ∈ s.core.records) (hi : i ∉ s.core.records) :
    (js.foldl (fun s j => s.onCore fun c => c.linkLast j i .before) s).Sound [i] ∧
      (js.foldl (fun s j => s.onCore fun c => c.linkLast j i .before) s).Built [i] ∧
      (js.foldl (fun s j => s.onCore fun c => c.linkLast j i .before) s).core.records =
        s.core.records := by
  induction js generalizing s with
  | nil => exact ⟨h,hb,rfl⟩
  | cons j js ih =>
    have hjm := hj j List.mem_cons_self
    have h1 : (s.onCore fun c => c.linkLast j i .before).Sound [i] := by
      refine h.linkAt .before _ _ (List.mem_append_left _ hjm) (by simp) ?_
      rintro - rfl
      exact hi hjm
    have hb1 : (s.onCore fun c => c.linkLast j i .before).Built [i] :=
      hb.onCore fun k => Core.linkAt_settings ..
    exact ih h1 hb1 (fun e he => hj e (List.mem_cons_of_mem j he)) hi

theorem Sound.withLinks (orig : Nat) (h : s.Sound []) (hd : ∀ dep ∈ d.depends, dep.1 ∈ s.core.records)
    (hj : ∀ j ∈ d.beforeDeps, j ∈ s.core.records) :
    (s.withLinks file fullname orig d).Sound [s.reg.nextSvc] ∧
      (s.withLinks file fullname orig d).Built [s.reg.nextSvc] ∧
      (s.withLinks file fullname orig d).core.records=s.core.records := by
  have hnew : s.reg.nextSvc ∉ s.core.records := by
    simpa using h.next
  have h1 := ((h.push (.replace orig s.reg.nextSvc)).allocate
    { file.settings with serviceName := fullname } false).onReg
    (g := fun r => { r with
      logType := fun j => if j=s.reg.nextSvc then file.logType else r.logType j }) rfl rfl rfl
  have hb1 : ((((s.push (.replace orig s.reg.nextSvc)).allocate
      { file.settings with serviceName := fullname } false).onReg
      fun r => { r with
        logType := fun j => if j=s.reg.nextSvc then file.logType else r.logType j })).Built
      [s.reg.nextSvc] := by
    intro k hk
    rw [List.mem_singleton.mp hk]
    show (((s.allocate _ false).core.svc s.reg.nextSvc).getType)≠_
    rw [allocate_svc,if_pos rfl]
    exact file.isService
  obtain ⟨h2,hb2,hr2⟩ := h1.linkAll hb1 d.depends hd
  obtain ⟨h3,hb3,hr3⟩ := h2.linkBefore hb2 d.beforeDeps (by
    rw [hr2]
    exact hj) (by
    rw [hr2]
    exact hnew)
  exact ⟨h3,hb3,hr3.trans hr2⟩

theorem Sound.handOver (h : s.Sound [i]) (hb : s.Built [i]) (hi : orig≠i) :
    (s.handOver orig i).Sound [i] ∧ (s.handOver orig i).Built [i] := by
  have hmem : i ∈ s.core.records++[i] := by simp
  have hreal : (s.core.svc i).getType≠.placeholder := hb i (by simp)
  have h1 : (s.onCore fun c => c.moveDependents orig i (c.svc orig).dependents).Sound [i] :=
    h.moveDependents _ hi (h.linked.dependents_nodup orig) (fun _ hl => hl) hmem
      fun _ _ ht => absurd ht hreal
  have hb1 : (s.onCore fun c => c.moveDependents orig i (c.svc orig).dependents).Built [i] :=
    hb.onCore fun k => Core.moveDependents_settings ..
  have h2 := h1.push (.transfer orig)
  have hb2 : ((s.onCore fun c => c.moveDependents orig i (c.svc orig).dependents).push
      (.transfer orig)).Built [i] := hb1
  refine ⟨?_,hb2.onCore fun k => Core.moveDependencies_settings ..⟩
  exact h2.moveDependencies _ hi (Core.transfer_nodup _ _ (h2.linked.dependsOn_nodup orig))
    (fun l hl => (Core.transfer_subperm _ _ _).subset hl) (by simp)
    fun _ _ ht => absurd ht (hb2 i (by simp))

theorem Sound.takeOver (h : s.Sound [i]) (hb : s.Built [i]) (hi : orig≠i) :
    (s.takeOver i orig).Sound [i] ∧ (s.takeOver i orig).Built [i] ∧
      (s.takeOver i orig).core.records.Sublist s.core.records ∧
      (orig ∈ s.core.records → orig ∈ (s.takeOver i orig).core.records) := by
  obtain ⟨h1,-⟩ := h.dropDependents (i := orig) hb
    ((h.linked.dependents_nodup orig).filter fun l => (s.core.link l).depType==.before)
    fun l hl => (List.mem_filter.mp hl).1
  rw [takeOver_eq]
  obtain ⟨h2,hb2⟩ := h1.sound.handOver h1.built hi
  exact ⟨h2,hb2,h1.records,h1.stays⟩

theorem Sound.retire (orig : Nat) (d : Draft) (h : s.Sound [i]) (hb : s.Built [i]) :
    Loses [i] orig s (s.retire orig d i) ∧
      ((s.retire orig d i).core.svc orig).dependsOn=[] ∧
      ((s.retire orig d i).core.svc orig).dependents=[] := by
  unfold Loader.retire
  dsimp only
  generalize hu : (if (s.core.svc i).isProcess then s.handConsumer i orig else s)=u
  have hcore : u.core=s.core := by
    rw [← hu]
    split_ifs
    · exact handConsumer_core s i orig
    · rfl
  have h1 : u.Sound [i] := by
    rw [← hu]
    split_ifs
    · exact h.handConsumer i orig
    · exact h
  have hb1 : u.Built [i] := by
    intro k hk
    rw [hcore]
    exact hb k hk
  obtain ⟨h2,hd2,hp2⟩ := h1.prepareForUnload hb1 orig
  have h3 : Loses [i] orig s (u.prepareForUnload orig) := by
    obtain ⟨hs,hb,hp,hr,ho⟩ := h2
    rw [hcore] at hp hr ho
    exact ⟨hs,hb,hp,hr,ho⟩
  split_ifs
  · rw [dropConsumed_core]
    refine ⟨⟨h3.sound.dropConsumed orig _,?_,?_,?_,?_⟩,hd2,hp2⟩
    · intro k hk
      rw [dropConsumed_core]
      exact h3.built k hk
    all_goals rw [dropConsumed_core]
    · exact h3.pruned
    · exact h3.records
    · exact h3.stays
  · exact ⟨h3,hd2,hp2⟩

/-- The new record leaves the extras: it is in the set instead of `orig`. -/
theorem Sound.putInPlace (h : s.Sound [i]) (hi : i ∉ s.core.records) (ho : orig ∈ s.core.records)
    (hd : (s.core.svc orig).dependsOn=[]) (hp : (s.core.svc orig).dependents=[]) :
    (s.putInPlace orig i).Sound [] := by
  have hne : orig≠i := by
    rintro rfl
    exact hi ho
  have hmem (k : Nat) : k ∈ s.core.records.map (fun j => if j=orig then i else j) ↔
      k=i ∨ k ∈ s.core.records ∧ k≠orig := by
    rw [List.mem_map]
    constructor
    · rintro ⟨j,hj,rfl⟩
      split_ifs with hjo
      · exact .inl rfl
      · exact .inr ⟨hj,hjo⟩
    · rintro (rfl | ⟨hk,hko⟩)
      · exact ⟨orig,ho,if_pos rfl⟩
      · exact ⟨k,hk,if_neg hko⟩
  have hsub (k : Nat) (hk : k ∈ s.core.records.map (fun j => if j=orig then i else j)++[]) :
      k ∈ s.core.records++[i] := by
    rw [List.append_nil,hmem] at hk
    rcases hk with rfl | hk
    · simp
    · exact List.mem_append_left _ hk.1
  have h1 : (s.onCore fun c => { c with
      records := c.records.map fun j => if j=orig then i else j }).Sound [] := by
    refine ⟨h.linked.of_eq rfl rfl rfl,?_,?_,fun k hk => h.below k (hsub k hk),
      fun k hk => h.alive k (hsub k hk),h.noSelf,h.fresh,h.defined⟩
    · intro k hk
      by_cases hko : k=orig
      · subst hko
        exact ⟨hd,hp⟩
      · refine h.closed k fun hk' => hk ?_
        rw [List.append_nil]
        refine (hmem k).mpr ?_
        rcases List.mem_append.mp hk' with hk' | hk'
        · exact .inr ⟨hk',hko⟩
        · exact .inl (List.mem_singleton.mp hk')
    · refine List.Nodup.map_on ?_ h.nodup
      intro a ha b hb hab
      split_ifs at hab with h1 h2 h2
      · rw [h1,h2]
      · rw [← hab] at hb
        exact absurd hb hi
      · rw [hab] at ha
        exact absurd ha hi
      · exact hab
  refine h1.delete ?_ (h.below orig (List.mem_append_left _ ho))
  rw [List.append_nil]
  intro hm
  rcases (hmem orig).mp hm with he | ⟨-,he⟩
  · exact hne he
  · exact he rfl

/-- A new record is made: the set stays sound, and the record is in it. -/
theorem Sound.createRecord (h : s.Sound []) (hd : ∀ dep ∈ d.depends, dep.1 ∈ s.core.records)
    (hj : ∀ j ∈ d.beforeDeps, j ∈ s.core.records) (ho : orig ∈ s.core.records) :
    (s.createRecord file fullname orig d).2.Sound [] ∧
      s.reg.nextSvc ∈ (s.createRecord file fullname orig d).2.core.records := by
  have hnew : s.reg.nextSvc ∉ s.core.records := by
    simpa using h.next
  have hne : orig≠s.reg.nextSvc := by
    rintro rfl
    exact hnew ho
  obtain ⟨h1,hb1,hr1⟩ := h.withLinks file fullname orig hd hj
  obtain ⟨h2,hb2,hr2,ho2⟩ := h1.takeOver hb1 hne
  obtain ⟨h3,hd3,hp3⟩ := h2.retire orig d hb2
  have ho3 := h3.stays (ho2 (by rwa [hr1]))
  rw [createRecord_eq]
  refine ⟨h3.sound.putInPlace ?_ ho3 hd3 hp3,?_⟩
  · intro hm
    have hm' := hr2.subset (h3.records.subset hm)
    rw [hr1] at hm'
    exact hnew hm'
  · show _ ∈ (Loader.putInPlace _ orig s.reg.nextSvc).core.records
    rw [putInPlace_records]
    exact List.mem_map.mpr ⟨orig,ho3,if_pos rfl⟩

theorem tidy_push (h : s.Tidy) (k : LoadCall) : (s.push k).Tidy :=
  h.of_eq rfl (fun _ => rfl) rfl rfl rfl rfl

theorem keeps_push (s : Loader) (k : LoadCall) : Keeps s (s.push k) :=
  keeps_of_eq rfl (fun _ => rfl) rfl rfl fun _ h => List.mem_cons_of_mem _ h

theorem tidy_linkLast (h : s.Tidy) (f t : Nat) (depType : DependencyType) :
    (s.onCore fun c => c.linkLast f t depType).Tidy ∧
      Keeps s (s.onCore fun c => c.linkLast f t depType) :=
  ⟨h.onCore rfl fun _ => Core.linkAt_settings ..,keeps_onCore rfl fun _ => Core.linkAt_settings ..⟩

theorem tidy_withLinks (orig : Nat) (d : Draft) (h : s.Tidy) :
    (s.withLinks file fullname orig d).Tidy ∧ Keeps s (s.withLinks file fullname orig d) ∧
      ((s.withLinks file fullname orig d).core.svc s.reg.nextSvc).settings =
        { file.settings with serviceName := fullname } ∧
      s.reg.nextSvc<(s.withLinks file fullname orig d).reg.nextSvc := by
  obtain ⟨h1,hk1⟩ := tidy_allocate (tidy_push h (.replace orig s.reg.nextSvc))
    { file.settings with serviceName := fullname } false (by simp)
  have hset := congrArg Svc.settings (allocate_svc (s.push (.replace orig s.reg.nextSvc))
    { file.settings with serviceName := fullname } false s.reg.nextSvc)
  rw [push_reg,if_pos rfl] at hset
  have hlt : s.reg.nextSvc<((s.push (.replace orig s.reg.nextSvc)).allocate
    { file.settings with serviceName := fullname } false).reg.nextSvc := Nat.lt_succ_self _
  unfold Loader.withLinks
  dsimp only
  generalize ((s.push (.replace orig s.reg.nextSvc)).allocate
    { file.settings with serviceName := fullname } false)=u at h1 hk1 hset hlt ⊢
  have h2 : (u.onReg fun r => { r with
      logType := fun j => if j=s.reg.nextSvc then file.logType else r.logType j }).Tidy :=
    h1.of_eq rfl (fun _ => rfl) rfl rfl rfl rfl
  have hk2 : Keeps u (u.onReg fun r => { r with
      logType := fun j => if j=s.reg.nextSvc then file.logType else r.logType j }) :=
    keeps_of_eq rfl (fun _ => rfl) rfl rfl fun _ h => h
  obtain ⟨h3,hk3⟩ := tidy_foldl d.depends
    (f := fun s' dep => s'.onCore fun c => c.linkLast s.reg.nextSvc dep.1 dep.2)
    (fun v dep hv => tidy_linkLast hv s.reg.nextSvc dep.1 dep.2) h2
  obtain ⟨h4,hk4⟩ := tidy_foldl d.beforeDeps
    (f := fun s' j => s'.onCore fun c => c.linkLast j s.reg.nextSvc .before)
    (fun v j hv => tidy_linkLast hv j s.reg.nextSvc .before) h3
  have hk : Keeps u _ := (hk2.trans hk3).trans hk4
  refine ⟨h4,((keeps_push s _).trans hk1).trans hk,?_,Nat.lt_of_lt_of_le hlt hk.next⟩
  have hreal : (u.core.svc s.reg.nextSvc).getType≠.placeholder := by
    rw [Svc.getType,hset]
    exact file.isService
  exact (hk.real _ hlt hreal).1.trans hset

theorem tidy_takeOver (h : s.Tidy) (i orig : Nat) :
    (s.takeOver i orig).Tidy ∧ Keeps s (s.takeOver i orig) := by
  obtain ⟨h1,hk1⟩ := tidy_foldl (f := dropDependent)
    ((s.core.svc orig).dependents.filter fun l => (s.core.link l).depType==.before)
    (fun u l hu => tidy_dropDependent hu l) h
  rw [takeOver_eq]
  generalize (((s.core.svc orig).dependents.filter fun l => (s.core.link l).depType==.before).foldl
    dropDependent s)=u at h1 hk1 ⊢
  have h2 : (u.onCore fun c => c.moveDependents orig i (c.svc orig).dependents).Tidy :=
    h1.onCore rfl fun k => Core.moveDependents_settings ..
  have hk2 : Keeps u (u.onCore fun c => c.moveDependents orig i (c.svc orig).dependents) :=
    keeps_onCore rfl fun k => Core.moveDependents_settings ..
  have h3 := tidy_push h2 (.transfer orig)
  have hk3 := keeps_push (u.onCore fun c => c.moveDependents orig i (c.svc orig).dependents)
    (.transfer orig)
  exact ⟨h3.onCore rfl fun k => Core.moveDependencies_settings ..,((hk1.trans hk2).trans hk3).trans
    (keeps_onCore rfl fun k => Core.moveDependencies_settings ..)⟩

theorem tidy_handConsumer (h : s.Tidy) (orig i : Nat) :
    (s.handConsumer i orig).Tidy ∧ Keeps s (s.handConsumer i orig) := by
  unfold Loader.handConsumer
  split
  · next k hk =>
    obtain ⟨h1,h2⟩ := h.consumer orig k hk
    refine ⟨⟨h.nodup,h.below,h.loading,?_,h.consumer,?_⟩,
      keeps_of_eq rfl (fun _ => rfl) rfl rfl fun _ h => h⟩
    · intro j hj ht
      have hjk : j≠k := by
        rintro rfl
        exact h2 hj ht
      simpa [setConsumerFor,hjk] using h.plain j hj ht
    · intro j hj
      have hj' : s.reg.nextSvc≤ j := hj
      have hjk : j≠k := by omega
      simpa [setConsumerFor,hjk] using h.unused j hj'
  · exact ⟨h,.refl s⟩

theorem tidy_setLogConsumer (h : s.Tidy) (p : Nat) {k : Option Nat} (hp : p<s.reg.nextSvc ∨ k=none)
    (hk : ∀ j ∈ k, j<s.reg.nextSvc ∧ (j ∈ s.core.records → (s.core.svc j).getType≠.placeholder)) :
    (s.setLogConsumer p k).Tidy ∧ Keeps s (s.setLogConsumer p k) := by
  refine ⟨⟨h.nodup,h.below,h.loading,h.plain,?_,?_⟩,keeps_of_eq rfl (fun _ => rfl) rfl rfl fun _ h => h⟩
  · intro q j hj
    simp only [setLogConsumer,onReg_reg] at hj
    split_ifs at hj
    · exact hk j hj
    · exact h.consumer q j hj
  · intro j hj
    obtain ⟨h1,h2,h3⟩ := h.unused j hj
    refine ⟨h1,h2,?_⟩
    simp only [setLogConsumer,onReg_reg]
    split_ifs with hjp
    · rcases hp with hp | hp
      · have hj' : s.reg.nextSvc≤ j := hj
        omega
      · exact hp
    · exact h3

theorem tidy_dropConsumed (h : s.Tidy) (orig : Nat) (p : Option Nat) :
    (s.dropConsumed orig p).Tidy ∧ Keeps s (s.dropConsumed orig p) := by
  unfold Loader.dropConsumed
  split
  · split
    · exact tidy_setLogConsumer h _ (.inr rfl) (by simp)
    · exact ⟨h,.refl s⟩
  · exact ⟨h,.refl s⟩

theorem tidy_retire (h : s.Tidy) (orig : Nat) (d : Draft) (i : Nat) :
    (s.retire orig d i).Tidy ∧ Keeps s (s.retire orig d i) := by
  unfold Loader.retire
  dsimp only
  generalize hu : (if (s.core.svc i).isProcess then s.handConsumer i orig else s)=u
  have h1 : u.Tidy ∧ Keeps s u := by
    rw [← hu]
    split_ifs
    · exact tidy_handConsumer h orig i
    · exact ⟨h,.refl s⟩
  obtain ⟨h2,hk2⟩ := tidy_prepareForUnload h1.1 orig
  split_ifs
  · obtain ⟨h3,hk3⟩ := tidy_dropConsumed h2 orig d.consumerOf
    exact ⟨h3,(h1.2.trans hk2).trans hk3⟩
  · exact ⟨h2,h1.2.trans hk2⟩

theorem mem_replace {rs : List Nat} {k : Nat}
    (h : k ∈ rs.map fun j => if j=orig then i else j) : k=i ∧ orig ∈ rs ∨ k ∈ rs ∧ k≠orig := by
  obtain ⟨j,hj,rfl⟩ := List.mem_map.mp h
  split_ifs with hjo
  · rw [hjo] at hj
    exact .inl ⟨rfl,hj⟩
  · exact .inr ⟨hj,hjo⟩

theorem tidy_putInPlace (h : s.Tidy) (hi : i ∉ s.core.records) (hlt : i<s.reg.nextSvc)
    (hne : orig≠i) (hreal : (s.core.svc i).getType≠.placeholder) :
    (s.putInPlace orig i).Tidy := by
  refine Tidy.delete ⟨?_,?_,h.loading,?_,?_,h.unused⟩ ?_
  · refine List.Nodup.map_on ?_ h.nodup
    intro a ha b hb hab
    split_ifs at hab with h1 h2 h2
    · rw [h1,h2]
    · rw [← hab] at hb
      exact absurd hb hi
    · rw [hab] at ha
      exact absurd ha hi
    · exact hab
  · intro k hk
    rcases mem_replace hk with ⟨rfl,-⟩ | ⟨hk,-⟩
    · exact hlt
    · exact h.below k hk
  · intro k hk ht
    rcases mem_replace hk with ⟨rfl,-⟩ | ⟨hk,-⟩
    · exact absurd ht hreal
    · exact h.plain k hk ht
  · intro p k hk
    obtain ⟨h1,h2⟩ := h.consumer p k hk
    refine ⟨h1,fun hm => ?_⟩
    rcases mem_replace hm with ⟨rfl,-⟩ | ⟨hm,-⟩
    · exact hreal
    · exact h2 hm
  · intro hm
    rcases mem_replace hm with ⟨he,-⟩ | ⟨-,he⟩
    · exact hne he
    · exact he rfl

/-- What the making of a record keeps of the others, up to its being put in place. -/
theorem tidy_createRecord (h : s.Tidy) (hi : orig<s.reg.nextSvc) :
    (s.createRecord file fullname orig d).2.Tidy ∧
      ∃ u : Loader, Keeps s u ∧ (s.createRecord file fullname orig d).2=u.putInPlace orig s.reg.nextSvc ∧
        u.reg.nextSvc=s.reg.nextSvc+1 ∧ s.reg.nextSvc ∉ u.core.records ∧
        (u.core.svc s.reg.nextSvc).settings={ file.settings with serviceName := fullname } := by
  have hnew : s.reg.nextSvc ∉ s.core.records := fun hi => absurd (h.below _ hi) (Nat.lt_irrefl _)
  obtain ⟨h1,hk1,hs1,hlt1⟩ := tidy_withLinks file fullname orig d h
  obtain ⟨h2,hk2⟩ := tidy_takeOver h1 s.reg.nextSvc orig
  obtain ⟨h3,hk3⟩ := tidy_retire h2 orig d s.reg.nextSvc
  have hk := hk2.trans hk3
  have hlt := Nat.lt_of_lt_of_le hlt1 hk.next
  have hreal : ((s.withLinks file fullname orig d).core.svc s.reg.nextSvc).getType≠.placeholder := by
    rw [Svc.getType,hs1]
    exact file.isService
  have hset := (hk.real _ hlt1 hreal).1.trans hs1
  have hnew3 : s.reg.nextSvc ∉ (((s.withLinks file fullname orig d).takeOver s.reg.nextSvc
      orig).retire orig d s.reg.nextSvc).core.records := by
    intro hm
    exact hnew (withLinks_records s file fullname orig d ▸ (hk.old _ hlt1 hm).1)
  have hnext : (((s.withLinks file fullname orig d).takeOver s.reg.nextSvc orig).retire orig d
      s.reg.nextSvc).reg.nextSvc=s.reg.nextSvc+1 := by
    rw [retire_nextSvc,takeOver_nextSvc,withLinks_nextSvc]
  rw [createRecord_snd]
  refine ⟨tidy_putInPlace h3 hnew3 hlt (by omega) ?_,_,hk1.trans hk,rfl,hnext,hnew3,hset⟩
  rw [Svc.getType,hset]
  exact file.isService

end Loader
end Dinit
