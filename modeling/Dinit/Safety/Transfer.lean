import Dinit.Safety.Links

namespace Dinit

open Framework Framework.Comp

namespace Core

variable (c : Core)

/-- The links that the loop of `transferPass` looks at. -/
def visits : List Nat → List Nat
  | [] => []
  | l::ls =>
    if (c.link l).depType = .before then
      match ls with
      | [] => [l]
      | _::ls => l::visits ls
    else l::visits ls

/-- Each "before" link is directly followed by a link of another kind. -/
def Spaced : List Nat → Prop
  | [] => True
  | l::ls => ((c.link l).depType=.before → ∃ k ∈ ls.head?, (c.link k).depType≠.before) ∧ Spaced ls

instance : DecidablePred c.Spaced
  | [] => .isTrue trivial
  | l::ls => @instDecidableAnd _ _ (inferInstanceAs (Decidable
      ((c.link l).depType=.before → ∃ k ∈ ls.head?, (c.link k).depType≠.before)))
      (instDecidablePredListNatSpaced ls)

theorem spaced_leave {l : Nat} (hb : (c.link l).depType≠.before) (ls : List Nat) :
    c.Spaced (l::ls) ↔ c.Spaced ls := by
  simp [Spaced,hb]

theorem visits_length (ls : List Nat) : (c.visits ls).length≤ ls.length := by
  induction ls using visits.induct c with
  | case1 => exact Nat.le_refl _
  | case2 l hb => simp [visits,hb]
  | case3 l hb k ls ih =>
    simp only [visits,if_pos hb,List.length_cons]
    omega
  | case4 l ls hb ih =>
    rw [visits.eq_def]
    simp only [if_neg hb,List.length_cons]
    omega

/-- The loop looks at every link only if it has none to move. -/
theorem visits_all (ls : List Nat) : c.visits ls=ls ∧ (c.transferPass ls).2.2=false ↔
    ∀ l ∈ ls, (c.link l).depType≠.before := by
  induction ls using visits.induct c with
  | case1 => simp [visits,transferPass]
  | case2 l hb => simp [c.transferPass_last hb,hb]
  | case3 l hb k ls ih =>
    have hlen := c.visits_length ls
    constructor
    · rintro ⟨hv,-⟩
      have := congrArg List.length hv
      simp only [visits,if_pos hb,List.length_cons] at this
      omega
    · intro h
      exact absurd hb (h l (by simp))
  | case4 l ls hb ih =>
    have hv : c.visits (l::ls)=l::c.visits ls := by
      rw [visits.eq_def]
      simp only [if_neg hb]
    rw [hv,c.transferPass_leave hb]
    simp only [List.cons.injEq,true_and,List.forall_mem_cons,hb,ne_eq,not_false_eq_true]
    exact ih

theorem transferPass_before (ls : List Nat) :
    ∀ l ∈ (c.transferPass ls).1, (c.link l).depType=.before := by
  induction ls using transferPass.induct c with
  | case1 => simp [transferPass]
  | case2 l hb => simpa [c.transferPass_last hb] using hb
  | case3 l hb k ls ih =>
    rw [c.transferPass_move hb]
    simpa [hb] using ih
  | case4 l ls hb ih =>
    rw [c.transferPass_leave hb]
    exact ih

theorem transfer_before (fuel : Nat) (ls : List Nat) :
    ∀ l ∈ c.transfer fuel ls, (c.link l).depType=.before := by
  induction fuel generalizing ls with
  | zero => simp [transfer]
  | succ fuel ih =>
    intro l hl
    simp only [transfer] at hl
    split at hl
    · rcases List.mem_append.mp hl with hl | hl
      · exact c.transferPass_before ls l hl
      · exact ih _ l hl
    · exact c.transferPass_before ls l hl

theorem spaced_of_none {ls : List Nat} (h : ∀ l ∈ ls, (c.link l).depType≠.before) : c.Spaced ls := by
  induction ls with
  | nil => trivial
  | cons l ls ih =>
    rw [c.spaced_leave (h l List.mem_cons_self)]
    exact ih fun k hk => h k (List.mem_cons_of_mem l hk)

/-- One pass moves all "before" links, and ends where it should, only if these are apart. -/
theorem transferPass_all (ls : List Nat) :
    (c.transferPass ls).2.2=false ∧ (∀ l ∈ (c.transferPass ls).2.1, (c.link l).depType≠.before) ↔
      c.Spaced ls := by
  induction ls using transferPass.induct c with
  | case1 => simp [transferPass,Spaced]
  | case2 l hb => simp [c.transferPass_last hb,Spaced,hb]
  | case3 l hb k ls ih =>
    rw [c.transferPass_move hb]
    by_cases hk : (c.link k).depType=.before
    · simp [Spaced,hb,hk]
    · have hs : c.Spaced (l::k::ls) ↔ c.Spaced ls := by
        simp [Spaced,hb,hk]
      rw [hs,← ih]
      simp [hk]
  | case4 l ls hb ih =>
    rw [c.transferPass_leave hb,c.spaced_leave hb,← ih]
    simp [hb]

theorem transfer_inBounds {ls : List Nat} (h : (c.transferPass ls).2.2=false) :
    c.transfer ls.length ls=(c.transferPass ls).1 := by
  cases ls with
  | nil => rfl
  | cons l ls =>
    rw [List.length_cons,transfer]
    simp only [h,Bool.false_eq_true,if_false]

def isBefore (l : Nat) : Bool := (c.link l).depType==.before

/-- All "before" links are moved, within the list, only if they are apart. -/
theorem transfer_all {ls : List Nat} (hn : ls.Nodup) :
    (c.transferPass ls).2.2=false ∧
      (∀ l ∈ ls, l ∉ c.transfer ls.length ls → (c.link l).depType≠.before) ↔ c.Spaced ls := by
  have hp := c.transferPass_perm ls
  have hdis := (List.nodup_append.mp (hp.nodup_iff.mpr hn)).2.2
  have hleft (h : (c.transferPass ls).2.2=false) (l : Nat) :
      l ∈ (c.transferPass ls).2.1 ↔ l ∈ ls ∧ l ∉ c.transfer ls.length ls := by
    rw [c.transfer_inBounds h,← hp.mem_iff,List.mem_append]
    constructor
    · intro hl
      exact ⟨.inr hl,fun hl' => hdis l hl' l hl rfl⟩
    · rintro ⟨hl | hl,hl'⟩
      · exact absurd hl hl'
      · exact hl
  rw [← c.transferPass_all ls]
  refine and_congr_right fun h => ?_
  constructor
  · intro hall l hl
    obtain ⟨h1,h2⟩ := (hleft h l).mp hl
    exact hall l h1 h2
  · intro hall l h1 h2
    exact hall l ((hleft h l).mpr ⟨h1,h2⟩)

/-- Then they are all that is moved. -/
theorem transfer_perm {ls : List Nat} (hn : ls.Nodup)
    (h : ∀ l ∈ ls, l ∉ c.transfer ls.length ls → (c.link l).depType≠.before) :
    (c.transfer ls.length ls).Perm (ls.filter c.isBefore) := by
  refine (List.perm_ext_iff_of_nodup (c.transfer_nodup _ hn) (hn.filter _)).mpr fun l => ?_
  rw [List.mem_filter,isBefore,beq_iff_eq]
  constructor
  · intro hl
    exact ⟨(c.transfer_subperm _ ls).subset hl,c.transfer_before _ ls l hl⟩
  · rintro ⟨hl,hb⟩
    by_contra hl'
    exact h l hl hl' hb

end Core

namespace Loader

variable {s : Loader}

section
variable (s) (file : File) (fullname : String) (orig : Nat) (d : Draft)

/-- The set when the new record has its own links, and the "before" links that `orig` made
are gone. -/
def unclaimed : Loader :=
  (((s.withLinks file fullname orig d).core.svc orig).dependents.filter fun l =>
    ((s.withLinks file fullname orig d).core.link l).depType==.before).foldl dropDependent
      (s.withLinks file fullname orig d)

/-- What the loop finds. -/
def atTransfer : Core :=
  (s.unclaimed file fullname orig d).core.moveDependents orig s.reg.nextSvc
    ((s.unclaimed file fullname orig d).core.svc orig).dependents

/-- The set when the loop has run. -/
def transferred : Loader := (s.withLinks file fullname orig d).takeOver s.reg.nextSvc orig

theorem transferred_core : (s.transferred file fullname orig d).core =
    (s.atTransfer file fullname orig d).moveDependencies orig s.reg.nextSvc
      ((s.atTransfer file fullname orig d).transfer
        ((s.atTransfer file fullname orig d).svc orig).dependsOn.length
        ((s.atTransfer file fullname orig d).svc orig).dependsOn) := rfl

theorem createRecord_transfer : (s.createRecord file fullname orig d).2.calls =
    (.transfer orig,s.atTransfer file fullname orig d,(s.unclaimed file fullname orig d).reg)::
      (.replace orig s.reg.nextSvc,s.core,s.reg)::s.calls := by
  have h : (s.unclaimed file fullname orig d).calls=(s.withLinks file fullname orig d).calls :=
    foldl_keep Loader.calls dropDependent_calls _ _
  rw [createRecord_snd,putInPlace_calls,retire_calls,← withLinks_calls s file fullname orig d,← h]
  rfl

end

section
variable (file : File) (fullname : String) {orig : Nat} {d : Draft}

/-- Links of others are taken off. -/
theorem foldl_dependsOn {f : Loader → Nat → Loader} (hf : ∀ u l, Core.Pruned u.core (f u l).core)
    {k : Nat} (hk : ∀ u l, k≠(u.core.link l).from_ →
      ((f u l).core.svc k).dependsOn=(u.core.svc k).dependsOn)
    (ls : List Nat) (hls : ∀ l ∈ ls, (s.core.link l).from_≠k) :
    ((ls.foldl f s).core.svc k).dependsOn=(s.core.svc k).dependsOn ∧
      s.core.Pruned (ls.foldl f s).core := by
  induction ls generalizing s with
  | nil => exact ⟨rfl,.refl _⟩
  | cons l ls ih =>
    obtain ⟨h1,h2⟩ := ih (s := f s l) fun m hm => by
      rw [(hf s l).from_]
      exact hls m (List.mem_cons_of_mem l hm)
    exact ⟨h1.trans (hk s l (hls l List.mem_cons_self).symm),(hf s l).trans h2⟩

theorem dropDependency_others (u : Loader) (l : Nat) {k : Nat} (hk : k≠(u.core.link l).from_) :
    ((u.dropDependency l).core.svc k).dependsOn=(u.core.svc k).dependsOn := by
  rw [dropDependency_dependsOn,if_neg hk]

theorem dropDependent_others (u : Loader) (l : Nat) {k : Nat} (hk : k≠(u.core.link l).from_) :
    ((u.dropDependent l).core.svc k).dependsOn=(u.core.svc k).dependsOn := by
  rw [dropDependent_dependsOn,if_neg hk]

theorem prepareForUnload_dependsOn {k : Nat} (h : s.core.Linked) (hk : k≠orig)
    (hp : (s.core.svc orig).dependents=[]) :
    ((s.prepareForUnload orig).core.svc k).dependsOn=(s.core.svc k).dependsOn := by
  obtain ⟨h1,hpr⟩ := foldl_dependsOn (s := s) (k := k) dropDependency_pruned
    (fun u l => dropDependency_others u l) (s.core.svc orig).dependsOn fun l hl => by
      rw [(h.dependsOn orig l hl).1]
      exact hk.symm
  have hnil : (((s.core.svc orig).dependsOn.foldl dropDependency s).core.svc orig).dependents=[] := by
    have := hpr.dependents orig
    rw [hp] at this
    exact List.eq_nil_of_sublist_nil this
  unfold prepareForUnload
  dsimp only
  rw [hnil]
  exact h1

theorem delete_pruned (s : Loader) (i : Nat) : s.core.Pruned (s.delete i).core := by
  rw [delete_core]
  refine ⟨?_,?_,fun _ => rfl,fun _ => rfl,fun _ => rfl,rfl⟩
  all_goals
    intro k
    by_cases hk : k=i
    · simp [hk]
    · simp [hk]

theorem putInPlace_pruned (s : Loader) (orig i : Nat) :
    s.core.Pruned (s.putInPlace orig i).core := by
  obtain ⟨h1,h2,h3,h4,h5,h6⟩ := delete_pruned (s.onCore fun c => { c with
    records := c.records.map fun j => if j=orig then i else j }) orig
  exact ⟨h1,h2,h3,h4,h5,h6⟩

/-- A record that is retired takes no link of another with it. -/
theorem retire_dependsOn {i k : Nat} (h : s.core.Linked) (hk : k≠orig)
    (hp : (s.core.svc orig).dependents=[]) :
    ((s.retire orig d i).core.svc k).dependsOn=(s.core.svc k).dependsOn := by
  unfold retire
  dsimp only
  generalize hu : (if (s.core.svc i).isProcess then s.handConsumer i orig else s)=u
  have hcore : u.core=s.core := by
    rw [← hu]
    split_ifs
    · exact handConsumer_core s i orig
    · rfl
  have h1 : ((u.prepareForUnload orig).core.svc k).dependsOn=(s.core.svc k).dependsOn := by
    rw [← hcore] at h hp ⊢
    exact prepareForUnload_dependsOn h hk hp
  split_ifs
  · rw [dropConsumed_core]
    exact h1
  · exact h1

/-- The links of the new record are not "before" links until it takes some over. -/
theorem withLinks_before (hd : ∀ dep ∈ d.depends, dep.2≠.before)
    (hj : s.reg.nextSvc ∉ d.beforeDeps) :
    ∀ l ∈ ((s.withLinks file fullname orig d).core.svc s.reg.nextSvc).dependsOn,
      l<(s.withLinks file fullname orig d).core.nextLink ∧
        ((s.withLinks file fullname orig d).core.link l).depType≠.before := by
  refine withLinks_induct (P := fun c => ∀ l ∈ (c.svc s.reg.nextSvc).dependsOn,
    l<c.nextLink ∧ (c.link l).depType≠.before) s file fullname orig d ?_ ?_ ?_
  · intro l hl
    simp at hl
  · intro c hc dep hdep l hl
    rw [Core.linkLast,Core.linkAt_dependsOn,if_pos rfl,mem_insertAt] at hl
    rw [Core.linkLast,Core.linkAt_link]
    have hn : (c.linkAt s.reg.nextSvc dep.1 dep.2 (c.svc s.reg.nextSvc).dependsOn.length
      (c.svc dep.1).dependents.length).nextLink=c.nextLink+1 := rfl
    rw [hn]
    rcases hl with rfl | hl
    · rw [if_pos rfl]
      exact ⟨Nat.lt_succ_self _,hd dep hdep⟩
    · obtain ⟨h1,h2⟩ := hc l hl
      rw [if_neg (Nat.ne_of_lt h1)]
      exact ⟨Nat.lt_succ_of_lt h1,h2⟩
  · intro c hc j hjm l hl
    have hne : s.reg.nextSvc≠j := by
      rintro rfl
      exact hj hjm
    rw [Core.linkLast,Core.linkAt_dependsOn,if_neg hne] at hl
    obtain ⟨h1,h2⟩ := hc l hl
    rw [Core.linkLast,Core.linkAt_link,if_neg (Nat.ne_of_lt h1)]
    exact ⟨Nat.lt_succ_of_lt h1,h2⟩

/-- The links of `orig`, if the service does not come before itself. -/
theorem withLinks_orig (h : s.Sound []) (ho : orig ∈ s.core.records) (hj : orig ∉ d.beforeDeps) :
    ((s.withLinks file fullname orig d).core.svc orig).dependsOn=(s.core.svc orig).dependsOn ∧
      s.core.nextLink≤(s.withLinks file fullname orig d).core.nextLink ∧
      ∀ l<s.core.nextLink, (s.withLinks file fullname orig d).core.link l=s.core.link l := by
  have hne : orig≠s.reg.nextSvc :=
    Nat.ne_of_lt (h.below orig (List.mem_append_left _ ho))
  have hlink {c : Core} {f t : Nat} {ty : DependencyType} (hf : orig≠f)
      (hc : (c.svc orig).dependsOn=(s.core.svc orig).dependsOn ∧ s.core.nextLink≤ c.nextLink ∧
        ∀ l<s.core.nextLink, c.link l=s.core.link l) :
      ((c.linkLast f t ty).svc orig).dependsOn=(s.core.svc orig).dependsOn ∧
        s.core.nextLink≤(c.linkLast f t ty).nextLink ∧
        ∀ l<s.core.nextLink, (c.linkLast f t ty).link l=s.core.link l := by
    obtain ⟨h1,h2,h3⟩ := hc
    refine ⟨?_,Nat.le_succ_of_le h2,?_⟩
    · rw [Core.linkLast,Core.linkAt_dependsOn,if_neg hf]
      exact h1
    · intro l hl
      rw [Core.linkLast,Core.linkAt_link,if_neg (Nat.ne_of_lt (Nat.lt_of_lt_of_le hl h2))]
      exact h3 l hl
  refine withLinks_induct (P := fun c => (c.svc orig).dependsOn=(s.core.svc orig).dependsOn ∧
    s.core.nextLink≤ c.nextLink ∧ ∀ l<s.core.nextLink, c.link l=s.core.link l) s file fullname orig d
    ⟨by simp [hne],Nat.le_refl _,fun _ _ => rfl⟩ (fun c hc dep _ => hlink hne hc) ?_
  intro c hc j hjm
  refine hlink ?_ hc
  rintro rfl
  exact hj hjm

/-- The old record is gone. -/
theorem createRecord_not_mem (ho : orig<s.reg.nextSvc) :
    orig ∉ (s.createRecord file fullname orig d).2.core.records := by
  rw [createRecord_snd,putInPlace_records]
  intro hm
  rcases mem_replace hm with ⟨he,-⟩ | ⟨-,he⟩
  · omega
  · exact he rfl

/-- What the loop finds in the list of `orig` is what was there, if the service does not
come before itself. -/
theorem atTransfer_dependsOn (h : s.Sound []) (hd : ∀ dep ∈ d.depends, dep.1 ∈ s.core.records)
    (hb : ∀ j ∈ d.beforeDeps, j ∈ s.core.records) (ho : orig ∈ s.core.records)
    (hj : orig ∉ d.beforeDeps)
    (hself : ∀ l ∈ (s.core.svc orig).dependsOn, (s.core.link l).to_≠orig) :
    ((s.atTransfer file fullname orig d).svc orig).dependsOn=(s.core.svc orig).dependsOn ∧
      ∀ l ∈ (s.core.svc orig).dependsOn,
        ((s.atTransfer file fullname orig d).link l).depType=(s.core.link l).depType := by
  obtain ⟨h1,hb1,-⟩ := h.withLinks file fullname orig hd hb
  obtain ⟨hdep,-,hlink⟩ := withLinks_orig file fullname h ho hj
  have hold {l : Nat} (hl : l ∈ (s.core.svc orig).dependsOn) :
      (s.withLinks file fullname orig d).core.link l=s.core.link l :=
    hlink l (h.linked.below orig l hl)
  obtain ⟨h2,hpr⟩ := foldl_dependsOn (s := s.withLinks file fullname orig d) (k := orig)
    dropDependent_pruned (fun u l => dropDependent_others u l)
    (((s.withLinks file fullname orig d).core.svc orig).dependents.filter fun l =>
      ((s.withLinks file fullname orig d).core.link l).depType==.before) (by
      intro l hl hf
      obtain ⟨hto,hfrom⟩ := h1.linked.dependents orig l (List.mem_filter.mp hl).1
      rw [hf,hdep] at hfrom
      rw [hold hfrom] at hto
      exact hself l hfrom hto)
  have htype (l : Nat) : ((s.atTransfer file fullname orig d).link l).depType =
      ((s.withLinks file fullname orig d).core.link l).depType := by
    rw [atTransfer,Core.moveDependents_link]
    split_ifs <;> exact hpr.depType l
  refine ⟨?_,?_⟩
  · rw [atTransfer,Core.moveDependents_dependsOn]
    exact h2.trans hdep
  · intro l hl
    rw [htype,hold hl]

section
variable (h : s.Sound []) (hd : ∀ dep ∈ d.depends, dep.1 ∈ s.core.records)
  (hb : ∀ j ∈ d.beforeDeps, j ∈ s.core.records)
include h hd hb

theorem unclaimed_loses (orig : Nat) : Loses [s.reg.nextSvc] orig (s.withLinks file fullname orig d)
    (s.unclaimed file fullname orig d) := by
  obtain ⟨h1,hb1,-⟩ := h.withLinks file fullname orig hd hb
  exact (h1.dropDependents (i := orig) hb1 ((h1.linked.dependents_nodup orig).filter fun l =>
    ((s.withLinks file fullname orig d).core.link l).depType==.before)
    fun l hl => (List.mem_filter.mp hl).1).1

variable (ho : orig ∈ s.core.records)
include ho

theorem transferred_sound : orig≠s.reg.nextSvc ∧
    (s.transferred file fullname orig d).Sound [s.reg.nextSvc] ∧
    (s.transferred file fullname orig d).Built [s.reg.nextSvc] := by
  have hne : orig≠s.reg.nextSvc := by
    rintro rfl
    exact h.next (List.mem_append_left _ ho)
  obtain ⟨h1,hb1,-⟩ := h.withLinks file fullname orig hd hb
  obtain ⟨h2,hb2,-,-⟩ := h1.takeOver hb1 hne
  exact ⟨hne,h2,hb2⟩

/-- Once the loop has run, links only go. -/
theorem createRecord_pruned : (s.transferred file fullname orig d).core.Pruned
    (s.createRecord file fullname orig d).2.core := by
  obtain ⟨-,h2,hb2⟩ := transferred_sound file fullname h hd hb ho
  rw [createRecord_snd]
  exact (h2.retire orig d hb2).1.pruned.trans (putInPlace_pruned _ _ _)

/-- A record that is made has its "before" links from those that the loop has moved. -/
theorem createRecord_before (ht : ∀ dep ∈ d.depends, dep.2≠.before) :
    ((s.createRecord file fullname orig d).2.core.svc s.reg.nextSvc).dependsOn.filter
        (s.createRecord file fullname orig d).2.core.isBefore =
      (s.atTransfer file fullname orig d).transfer
        ((s.atTransfer file fullname orig d).svc orig).dependsOn.length
        ((s.atTransfer file fullname orig d).svc orig).dependsOn := by
  obtain ⟨hne,h2,-⟩ := transferred_sound file fullname h hd hb ho
  have hpr := createRecord_pruned file fullname h hd hb ho
  have hunc := (unclaimed_loses file fullname h hd hb orig).pruned
  have hnil : ((s.transferred file fullname orig d).core.svc orig).dependents=[] := by
    rw [transferred_core,Core.moveDependencies_dependents,atTransfer,
      Core.moveDependents_dependents _ _ _ _ hne,if_neg hne,if_pos rfl]
    simp
  have hdep : ((s.createRecord file fullname orig d).2.core.svc s.reg.nextSvc).dependsOn =
      ((s.transferred file fullname orig d).core.svc s.reg.nextSvc).dependsOn := by
    rw [createRecord_snd,putInPlace_svc _ _ hne.symm]
    exact retire_dependsOn h2.linked hne.symm hnil
  have htype (l : Nat) : (s.createRecord file fullname orig d).2.core.isBefore l =
      (s.atTransfer file fullname orig d).isBefore l := by
    rw [Core.isBefore,Core.isBefore,hpr.depType,transferred_core,Core.moveDependencies_link]
    split_ifs <;> rfl
  have hown : (((s.atTransfer file fullname orig d).svc s.reg.nextSvc).dependsOn.filter
      (s.createRecord file fullname orig d).2.core.isBefore)=[] := by
    rw [List.filter_eq_nil_iff]
    intro l hl
    rw [htype,Core.isBefore]
    rw [atTransfer,Core.moveDependents_dependsOn] at hl
    obtain ⟨-,hl2⟩ := withLinks_before file fullname ht
      (fun hm => h.next (List.mem_append_left _ (hb _ hm))) l ((hunc.dependsOn _).subset hl)
    rw [atTransfer,Core.moveDependents_link]
    rw [← hunc.depType] at hl2
    split_ifs <;> simpa using hl2
  rw [hdep,transferred_core,Core.moveDependencies_dependsOn _ _ _ _ hne,if_pos rfl,List.filter_append,
    hown,List.nil_append]
  refine List.filter_eq_self.mpr fun l hl => ?_
  rw [htype,Core.isBefore,beq_iff_eq]
  exact Core.transfer_before _ _ _ l hl

end

/-- The "before" links of `orig` are handed over: the new record has them, each once and from
itself, `orig` has none left when the loop has run, and the loop stays within the list. -/
structure HandsOver (s : Loader) (file : File) (fullname : String) (orig : Nat) (d : Draft) :
    Prop where
  links : (((s.createRecord file fullname orig d).2.core.svc s.reg.nextSvc).dependsOn.filter
    (s.createRecord file fullname orig d).2.core.isBefore).Perm
      (((s.atTransfer file fullname orig d).svc orig).dependsOn.filter
        (s.atTransfer file fullname orig d).isBefore)
  ends : ∀ l ∈ ((s.atTransfer file fullname orig d).svc orig).dependsOn.filter
      (s.atTransfer file fullname orig d).isBefore,
    ((s.createRecord file fullname orig d).2.core.link l).from_=s.reg.nextSvc ∧
      ((s.createRecord file fullname orig d).2.core.link l).to_ =
        ((s.atTransfer file fullname orig d).link l).to_
  noneLeft : ((s.transferred file fullname orig d).core.svc orig).dependsOn.filter
    (s.transferred file fullname orig d).core.isBefore=[]
  inBounds : ((s.atTransfer file fullname orig d).transferPass
    ((s.atTransfer file fullname orig d).svc orig).dependsOn).2.2=false

theorem handsOver_iff (h : s.Sound []) (hd : ∀ dep ∈ d.depends, dep.1 ∈ s.core.records)
    (hb : ∀ j ∈ d.beforeDeps, j ∈ s.core.records) (ho : orig ∈ s.core.records)
    (ht : ∀ dep ∈ d.depends, dep.2≠.before) : s.HandsOver file fullname orig d ↔
      (s.atTransfer file fullname orig d).Spaced
        ((s.atTransfer file fullname orig d).svc orig).dependsOn := by
  obtain ⟨hne,-,-⟩ := transferred_sound file fullname h hd hb ho
  have hn : ((s.atTransfer file fullname orig d).svc orig).dependsOn.Nodup := by
    rw [atTransfer,Core.moveDependents_dependsOn]
    exact (unclaimed_loses file fullname h hd hb orig).sound.linked.dependsOn_nodup orig
  have hlinks := createRecord_before file fullname h hd hb ho ht
  have hpr := createRecord_pruned file fullname h hd hb ho
  rw [← Core.transfer_all _ hn]
  -- what is left to `orig` is what has not been moved
  have hleft : ((s.transferred file fullname orig d).core.svc orig).dependsOn.filter
      (s.transferred file fullname orig d).core.isBefore=[] ↔
      ∀ l ∈ ((s.atTransfer file fullname orig d).svc orig).dependsOn,
        l ∉ (s.atTransfer file fullname orig d).transfer
          ((s.atTransfer file fullname orig d).svc orig).dependsOn.length
          ((s.atTransfer file fullname orig d).svc orig).dependsOn →
        ((s.atTransfer file fullname orig d).link l).depType≠.before := by
    rw [transferred_core,Core.moveDependencies_dependsOn _ _ _ _ hne,if_neg hne,if_pos rfl,
      List.filter_eq_nil_iff]
    simp only [List.mem_filter,Bool.not_eq_eq_eq_not,Bool.not_true,List.contains_eq_mem,
      decide_eq_false_iff_not,and_imp,Core.isBefore,beq_iff_eq,Core.moveDependencies_link]
    refine forall_congr' fun l => forall_congr' fun _ => forall_congr' fun hl => ?_
    rw [if_neg hl]
  constructor
  · intro hh
    exact ⟨hh.inBounds,hleft.mp hh.noneLeft⟩
  · rintro ⟨hin,hall⟩
    have hperm := Core.transfer_perm _ hn hall
    refine ⟨?_,?_,hleft.mpr hall,hin⟩
    · rw [hlinks]
      exact hperm
    · intro l hl
      rw [hpr.from_,hpr.to_,transferred_core,Core.moveDependencies_link,if_pos (hperm.mem_iff.mpr hl)]
      exact ⟨rfl,rfl⟩

/-- When a record is replaced, the loop over its links looks at each of them and hands over
every "before" link only if there are none; it hands over all of them, and stays within the
list, only if each is directly followed by a link of another kind. What the loop finds is
what the record had, if the service does not come before itself. -/
theorem createRecord_hands_over (h : s.Good) {reload : Option Nat} (hr : s.Ready reload orig d)
    (ho : orig ∈ s.core.records) :
    (s.HandsOver file fullname orig d ∧ (s.atTransfer file fullname orig d).visits
        ((s.atTransfer file fullname orig d).svc orig).dependsOn =
          ((s.atTransfer file fullname orig d).svc orig).dependsOn ↔
      ∀ l ∈ ((s.atTransfer file fullname orig d).svc orig).dependsOn,
        ((s.atTransfer file fullname orig d).link l).depType≠.before) ∧
    (s.HandsOver file fullname orig d ↔ (s.atTransfer file fullname orig d).Spaced
      ((s.atTransfer file fullname orig d).svc orig).dependsOn) ∧
    (orig ∉ d.beforeDeps → (∀ l ∈ (s.core.svc orig).dependsOn, (s.core.link l).to_≠orig) →
      ((s.atTransfer file fullname orig d).svc orig).dependsOn=(s.core.svc orig).dependsOn ∧
        ∀ l ∈ (s.core.svc orig).dependsOn,
          ((s.atTransfer file fullname orig d).link l).depType=(s.core.link l).depType) := by
  have hd := hr.known.mem h.trusted
  have hiff := handsOver_iff file fullname h.sound hd hr.known.before ho
    fun dep hdep => (hr.known.depends dep hdep).2.2
  refine ⟨?_,hiff,atTransfer_dependsOn file fullname h.sound hd hr.known.before ho⟩
  rw [← Core.visits_all]
  constructor
  · rintro ⟨hh,hv⟩
    exact ⟨hv,hh.inBounds⟩
  · rintro ⟨hv,hin⟩
    refine ⟨hiff.mpr ?_,hv⟩
    exact Core.spaced_of_none _ ((Core.visits_all _ _).mp ⟨hv,hin⟩)

end

/-- Services "y" and "z" that come before "x", and "w". -/
def twoBefore (xType : ServiceType) (hx : xType≠.placeholder) : String → Except LoadError File
  | "x" => .ok { lines := [], settings := { recordType := xType }, isService := hx }
  | "y" => .ok { lines := [.before "x"], settings := { recordType := .process }, isService := process_isService }
  | "z" => .ok { lines := [.before "x"], settings := { recordType := .process }, isService := process_isService }
  | "w" => .ok { lines := [], settings := { recordType := .process }, isService := process_isService }
  | n => .error (.notFound n)

/-- A record that nothing new is asked of is ready to be loaded over. -/
theorem ready_plain (h : Reached s) (hok : ∀ e ∈ s.calls, LoadOk e) {orig : Nat}
    (ho : orig ∈ s.core.records) : (s.push (.link orig [] [])).Good ∧
      (s.push (.link orig [] [])).Ready (some orig) orig {} ∧
        orig ∈ (s.push (.link orig [] [])).core.records := by
  have hg := (h.invariant _ (I := fun _ => True) trivial (fun _ _ _ _ _ _ _ => trivial)
    (fun _ h => h) hok).1
  refine ⟨(LoadStep.link orig {}).good hg ?_,?_,ho⟩
  · intro e he
    rcases List.mem_cons.mp he with rfl | he
    · exact ho
    · exact hok e he
  · exact ⟨⟨by simp,by simp,by simp,by simp,by simp⟩,by simp,by simp,List.mem_cons_self⟩

/-- "x" has a "before" link to "y", and then one of another kind to "w": when a reload
changes the type of "x", the link to "y" is handed over. -/
theorem createRecord_hands_over_apart : ∃ s : Loader, ∃ file : File, s.Good ∧
    s.Ready (some 1) 1 {} ∧ 1 ∈ s.core.records ∧
    ((s.core.svc 1).dependsOn.map fun l => (s.core.link l).depType)=[.before,.waitsFor] ∧
    s.HandsOver file "x" 1 {} := by
  let file : File := { settings := { recordType := .scripted }, isService := by decide }
  obtain ⟨s,hs,hp⟩ := reached_of_run 10
    ([⟨twoBefore .process (by decide),.load "x"⟩,⟨twoBefore .process (by decide),.load "y"⟩,
      ⟨twoBefore .process (by decide),.load "w"⟩,
      ⟨twoBefore .process (by decide),.event (.addServiceDep 1 5 .waitsFor false) 1 []⟩])
    (p := fun s => decide (∀ e ∈ s.calls, LoadOk e) && decide (1 ∈ s.core.records) &&
      decide (((s.core.svc 1).dependsOn.map fun l => (s.core.link l).depType)=[.before,.waitsFor]) &&
      decide (((s.push (.link 1 [] [])).atTransfer file "x" 1 {}).Spaced
        (((s.push (.link 1 [] [])).atTransfer file "x" 1 {}).svc 1).dependsOn)) (by decide +kernel)
  simp only [Bool.and_eq_true,decide_eq_true_eq] at hp
  obtain ⟨⟨⟨hok,ho⟩,hty⟩,hsp⟩ := hp
  obtain ⟨hg,hr,ho'⟩ := ready_plain hs hok ho
  exact ⟨_,file,hg,hr,ho',hty,((createRecord_hands_over file "x" hg hr ho').2.1).mpr hsp⟩

/-- "y" and "z" come before "x", which is then loaded over its placeholder: only one of the
two links is handed over. -/
theorem createRecord_loses_before : ¬∀ (s : Loader) (file : File) (fullname : String) (orig : Nat)
    (reload : Option Nat) (d : Draft), s.Good → s.Ready reload orig d → orig ∈ s.core.records →
    s.HandsOver file fullname orig d ∧ (s.atTransfer file fullname orig d).visits
      ((s.atTransfer file fullname orig d).svc orig).dependsOn =
        ((s.atTransfer file fullname orig d).svc orig).dependsOn := by
  intro h
  let file : File := { settings := { recordType := .process }, isService := process_isService }
  obtain ⟨s,hs,hp⟩ := reached_of_run 10
    ([⟨twoBefore .process (by decide),.load "y"⟩,⟨twoBefore .process (by decide),.load "z"⟩])
    (p := fun s => decide (∀ e ∈ s.calls, LoadOk e) && decide (1 ∈ s.core.records) &&
      decide ((((s.push (.link 1 [] [])).createRecord file "x" 1 {}).2.core.svc 5).dependsOn.length=1 ∧
        (s.push (.link 1 [] [])).reg.nextSvc=5 ∧
        ((((s.push (.link 1 [] [])).atTransfer file "x" 1 {}).svc 1).dependsOn.filter
          ((s.push (.link 1 [] [])).atTransfer file "x" 1 {}).isBefore).length=2)) (by decide +kernel)
  simp only [Bool.and_eq_true,decide_eq_true_eq] at hp
  obtain ⟨⟨hok,ho⟩,h1,hnew,h2⟩ := hp
  obtain ⟨hg,hr,ho'⟩ := ready_plain hs hok ho
  have hlinks := (h _ file "x" 1 (some 1) {} hg hr ho').1.links.length_eq
  rw [hnew,h2] at hlinks
  have hle := List.length_filter_le
    ((s.push (.link 1 [] [])).createRecord file "x" 1 {}).2.core.isBefore
    (((s.push (.link 1 [] [])).createRecord file "x" 1 {}).2.core.svc 5).dependsOn
  omega

end Loader
end Dinit
