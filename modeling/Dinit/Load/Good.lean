import Dinit.Load.Loading

namespace Dinit

open Framework Framework.Comp World Relation

/-- A placeholder that nothing refers to. -/
def Core.spare (c : Core) (r : Registry) (i : Nat) : Bool :=
  (c.svc i).getType==.placeholder && (c.svc i).dependsOn.isEmpty && (c.svc i).dependents.isEmpty
    && (r.logConsumer i).isNone

/-- What the loader relies on where it does not look: what is loaded over is still in the
set; the dummy of a failed load is, too, nothing refers to it, and no placeholder comes up
twice for removal. -/
def LoadOk : LoadCall × Core × Registry → Prop
  | (.link orig _ _,c,_) => orig ∈ c.records
  | (.cleanup dummy before after consumer,c,r) =>
    (∀ i ∈ dummy, i ∈ c.records ∧ (c.svc i).dependsOn=[] ∧ (c.svc i).dependents=[] ∧
      i ∉ before++after++consumer) ∧ ((before++after++consumer).filter (c.spare r)).Nodup
  | _ => True

namespace Loader

variable {s s' : Loader}

theorem spare_iff {i : Nat} : s.core.spare s.reg i=true ↔
    (s.core.svc i).getType=.placeholder ∧ s.isUnrefd i=true := by
  simp only [Core.spare,isUnrefd,Bool.and_eq_true,beq_iff_eq]
  tauto

theorem dropPlaceholder_of_spare {i : Nat} (hf : s.reg.freed i=false)
    (h : s.core.spare s.reg i=true) (b : Bool) : s.dropPlaceholder i b =
      if b then (s.removeService i).delete i else s.removeService i := by
  obtain ⟨hp,hu⟩ := spare_iff.mp h
  simp [dropPlaceholder,requires,hf,hp,hu]

theorem dropPlaceholder_of_not_spare {i : Nat} (hf : s.reg.freed i=false)
    (h : ¬s.core.spare s.reg i=true) (b : Bool) : s.dropPlaceholder i b=s := by
  have hn : ¬((s.core.svc i).getType=.placeholder ∧ s.isUnrefd i=true) :=
    fun hp => h (spare_iff.mpr hp)
  simp only [dropPlaceholder,requires,hf]
  simp [hn]

theorem delete_logConsumer_eq (s : Loader) {i k : Nat} (hc : s.reg.consumerFor i=none) (hk : k≠i) :
    (s.delete i).reg.logConsumer k=s.reg.logConsumer k := by
  unfold delete
  rw [hc]
  simp [hk]

/-- The others stay what they are when a placeholder leaves the set. -/
theorem removed_others {i k : Nat} (hc : s.reg.consumerFor i=none) (hk : k≠i) (b : Bool) :
    let s' := if b then (s.removeService i).delete i else s.removeService i
    s'.core.spare s'.reg k=s.core.spare s.reg k ∧ (k ∈ s.core.records → k ∈ s'.core.records) := by
  obtain ⟨-,-,hcons,hlog⟩ := removeService_reg s i
  have hsvc := removeService_svc s i
  have hmem (hm : k ∈ s.core.records) : k ∈ (s.removeService i).core.records := by
    rw [removeService_records]
    exact (List.mem_erase_of_ne hk).mpr hm
  have hdel : ((s.removeService i).delete i).core.svc k=s.core.svc k := by
    rw [delete_core]
    simp [hk,hsvc]
  cases b with
  | false =>
    refine ⟨?_,hmem⟩
    simp only [Core.spare,Bool.false_eq_true,if_false,hsvc,hlog]
  | true =>
    refine ⟨?_,?_⟩
    · simp only [Core.spare,if_true,hdel]
      rw [delete_logConsumer_eq _ (by rw [hcons]; exact hc) hk,hlog]
    · intro hm
      simp only [if_true,delete_core]
      exact hmem hm

/-- The placeholders that a failed load may have made are looked at, each once. -/
theorem Sound.dropCandidates {xs : List (Nat × Bool)} (h : s.Sound []) (ht : s.Tidy)
    (hm : ∀ x ∈ xs, x.1 ∈ s.core.records)
    (hn : ((xs.map Prod.fst).filter (s.core.spare s.reg)).Nodup) :
    (xs.foldl (fun s x => s.dropPlaceholder x.1 x.2) s).Sound [] := by
  induction xs generalizing s with
  | nil => exact h
  | cons x xs ih =>
    have hx := hm x List.mem_cons_self
    have hf := h.alive x.1 (List.mem_append_left _ hx)
    by_cases hsp : s.core.spare s.reg x.1=true
    · have heq := dropPlaceholder_of_spare hf hsp x.2
      have hc := ht.plain x.1 hx (spare_iff.mp hsp).1
      have hnot : x.1 ∉ xs.map Prod.fst := by
        intro hin
        rw [List.map_cons,List.filter_cons_of_pos hsp,List.nodup_cons] at hn
        exact hn.1 (List.mem_filter.mpr ⟨hin,hsp⟩)
      have hne {y : Nat} (hy : y ∈ xs.map Prod.fst) : y≠x.1 := by
        rintro rfl
        exact hnot hy
      refine ih (h.dropPlaceholder hx (by simp) x.2) (tidy_dropPlaceholder ht x.1 x.2).1 ?_ ?_
      · intro y hy
        show y.1 ∈ (s.dropPlaceholder x.1 x.2).core.records
        rw [heq]
        exact (removed_others hc (hne (List.mem_map_of_mem hy)) x.2).2
          (hm y (List.mem_cons_of_mem x hy))
      · have hsame : ∀ y ∈ xs.map Prod.fst,
            (s.dropPlaceholder x.1 x.2).core.spare (s.dropPlaceholder x.1 x.2).reg y =
              s.core.spare s.reg y := by
          intro y hy
          rw [heq]
          exact (removed_others hc (hne hy) x.2).1
        show (List.filter ((s.dropPlaceholder x.1 x.2).core.spare
          (s.dropPlaceholder x.1 x.2).reg) _).Nodup
        rw [List.filter_congr hsame]
        rw [List.map_cons,List.filter_cons_of_pos hsp,List.nodup_cons] at hn
        exact hn.2
    · simp only [List.foldl_cons,dropPlaceholder_of_not_spare hf hsp]
      refine ih h ht (fun y hy => hm y (List.mem_cons_of_mem x hy)) ?_
      rwa [List.map_cons,List.filter_cons_of_neg hsp] at hn

theorem Sound.cleanup (h : s.Sound []) (ht : s.Tidy) {dummy : Option Nat} {d : Draft}
    (hd : ∀ i ∈ dummy, (s.core.svc i).getType=.placeholder)
    (hm : ∀ i ∈ d.beforeDeps++d.afterDeps++d.consumerOf.toList, i ∈ s.core.records)
    (hok : LoadOk (.cleanup dummy d.beforeDeps d.afterDeps d.consumerOf.toList,s.core,s.reg)) :
    (s.cleanup dummy d).Sound [] := by
  have hfst : (candidates d).map Prod.fst=d.beforeDeps++d.afterDeps++d.consumerOf.toList := by
    simp [candidates,Function.comp_def]
  have hin {x : Nat × Bool} (hx : x ∈ candidates d) :
      x.1 ∈ d.beforeDeps++d.afterDeps++d.consumerOf.toList := by
    rw [← hfst]
    exact List.mem_map_of_mem hx
  obtain ⟨hdummy,hnodup⟩ := hok
  rw [← hfst] at hnodup
  rw [cleanup_eq]
  have h1 := h.push (.cleanup dummy d.beforeDeps d.afterDeps d.consumerOf.toList)
  have ht1 := tidy_push ht (.cleanup dummy d.beforeDeps d.afterDeps d.consumerOf.toList)
  cases dummy with
  | none => exact h1.dropCandidates ht1 (fun x hx => hm x.1 (hin hx)) hnodup
  | some i =>
    obtain ⟨hi,hdep,hdpt,hni⟩ := hdummy i rfl
    obtain ⟨h2,hn2⟩ := h1.removeService hi (by simp) hdep hdpt
    have hlt : i<((s.push (.cleanup (some i) d.beforeDeps d.afterDeps
        d.consumerOf.toList)).removeService i).reg.nextSvc := by
      rw [removeService_nextSvc]
      exact ht.below i hi
    have h3 := h2.delete hn2 hlt
    have ht3 := (tidy_dropDummy ht1 (some i) hd).1
    have hne {k : Nat} (hk : k ∈ (candidates d).map Prod.fst) : k≠i := by
      rintro rfl
      rw [hfst] at hk
      exact hni hk
    have hoth {k : Nat} (hk : k ∈ (candidates d).map Prod.fst) := removed_others
      (s := s.push (.cleanup (some i) d.beforeDeps d.afterDeps d.consumerOf.toList))
      (ht.plain i hi (hd i rfl)) (hne hk) true
    simp only [if_true] at hoth
    refine h3.dropCandidates ht3 ?_ ?_
    · exact fun x hx => (hoth (List.mem_map_of_mem hx)).2 (hm x.1 (hin hx))
    · rw [List.filter_congr fun k hk => (hoth hk).1]
      exact hnodup

theorem createRecord_calls (s : Loader) (file : File) (fullname : String) (orig : Nat) (d : Draft) :
    ∃ c r, (s.createRecord file fullname orig d).2.calls =
      (.transfer orig,c,r)::(.replace orig s.reg.nextSvc,s.core,s.reg)::s.calls := by
  obtain ⟨c,r,h⟩ := takeOver_calls (s.withLinks file fullname orig d) orig s.reg.nextSvc
  refine ⟨c,r,?_⟩
  rw [createRecord_snd,putInPlace_calls,retire_calls,h,withLinks_calls]

theorem setConsumer_calls (s : Loader) (i : Nat) (d : Draft) : (s.setConsumer i d).calls=s.calls ∨
    (s.setConsumer i d).calls=(.consume i d.consumerOf,s.core,s.reg)::s.calls := by
  unfold setConsumer
  dsimp only
  split
  · split <;> exact .inr rfl
  · exact .inl rfl

theorem cleanup_calls (s : Loader) (dummy : Option Nat) (d : Draft) : (s.cleanup dummy d).calls =
    (.cleanup dummy d.beforeDeps d.afterDeps d.consumerOf.toList,s.core,s.reg)::s.calls := by
  rw [cleanup_eq,foldl_keep Loader.calls fun _ _ => dropPlaceholder_calls ..]
  cases dummy with
  | none => rfl
  | some i =>
    show (delete _ i).calls=_
    rw [delete_calls,removeService_calls]
    rfl

/-- The record of a step is only ever added to, and `link` entries only by the step itself. -/
theorem Trusted.of_calls (h : s.Trusted)
    (hc : ∀ e ∈ s'.calls, e ∈ s.calls ∨ ∀ orig deps before, e.1≠.link orig deps before) :
    s'.Trusted := by
  intro orig deps before c r he
  rcases hc _ he with he | he
  · exact h orig deps before c r he
  · exact absurd rfl (he orig deps before)

/-- A service set in order. -/
structure Good (s : Loader) : Prop where
  sound : s.Sound []
  tidy : s.Tidy
  trusted : s.Trusted
  named : s.Named

theorem Named.keeps (h : s.Named) (ht : s'.Tidy) (hk : Keeps s s')
    (hn : s'.reg.nextSvc=s.reg.nextSvc) : s'.Named := by
  intro i hi j hj he
  have hlt {k : Nat} (hm : k ∈ s'.core.records) : k<s.reg.nextSvc := by
    have := ht.below k hm
    omega
  obtain ⟨h1,h2,-⟩ := hk.old i (hlt hi) hi
  obtain ⟨h3,h4,-⟩ := hk.old j (hlt hj) hj
  rw [h2,h4] at he
  exact h i h1 j h3 he

theorem findRecord_none {n : String} (h : s.findRecord n=none) {i : Nat} (hi : i ∈ s.core.records) :
    (s.core.svc i).settings.serviceName≠n := by
  have := List.find?_eq_none.mp h i hi
  simpa using this

/-- A new record with a name that no other has. -/
theorem Named.join (h : s.Named) (ht : s.Tidy) {settings : Settings} (loading : Bool)
    (hn : s.findRecord settings.serviceName=none) :
    ((s.allocate settings loading).addService s.reg.nextSvc).Named := by
  have hsvc (k : Nat) : ((s.allocate settings loading).addService s.reg.nextSvc).core.svc k =
      if k=s.reg.nextSvc then { settings := settings } else s.core.svc k :=
    allocate_svc s settings loading k
  have hmem {k : Nat}
      (hk : k ∈ ((s.allocate settings loading).addService s.reg.nextSvc).core.records) :
      k ∈ s.core.records ∧ k≠s.reg.nextSvc ∨ k=s.reg.nextSvc := by
    have hk' : k ∈ s.core.records++[s.reg.nextSvc] := hk
    rcases List.mem_append.mp hk' with hk' | hk'
    · exact .inl ⟨hk',Nat.ne_of_lt (ht.below k hk')⟩
    · exact .inr (List.mem_singleton.mp hk')
  intro i hi j hj he
  rw [hsvc,hsvc] at he
  rcases hmem hi with ⟨hi,hni⟩ | rfl <;> rcases hmem hj with ⟨hj,hnj⟩ | rfl
  · rw [if_neg hni,if_neg hnj] at he
    exact h i hi j hj he
  · rw [if_neg hni,if_pos rfl] at he
    exact absurd he (findRecord_none hn hi)
  · rw [if_pos rfl,if_neg hnj] at he
    exact absurd he.symm (findRecord_none hn hj)
  · rfl

theorem Sound.join (h : s.Sound []) (settings : Settings) (loading : Bool) :
    ((s.allocate settings loading).addService s.reg.nextSvc).Sound [] := by
  refine (h.allocate settings loading).addService ?_
  have := h.next
  rwa [List.append_nil] at this

theorem Sound.setConsumer (h : s.Sound []) (i : Nat) (d : Draft) : (s.setConsumer i d).Sound [] := by
  unfold Loader.setConsumer
  dsimp only
  split
  · split
    · exact ((h.push _).onReg rfl rfl rfl).onReg rfl rfl rfl
    · exact (h.push _).onReg rfl rfl rfl
  · exact h

/-- The new record has the name of the one that it replaces. -/
theorem Named.createRecord (h : s.Named) (ht : s.Tidy) (file : File) {fullname : String}
    {orig : Nat} (d : Draft) (ho : orig ∈ s.core.records)
    (hn : (s.core.svc orig).settings.serviceName=fullname) :
    (s.createRecord file fullname orig d).2.Named := by
  obtain ⟨ht',u,hk,heq,hlt,hnew,hset⟩ := tidy_createRecord file fullname (d := d) ht (ht.below orig ho)
  have hne : s.reg.nextSvc≠orig := fun h => absurd (ht.below orig ho) (by omega)
  have hi : ((s.createRecord file fullname orig d).2.core.svc
      s.reg.nextSvc).settings.serviceName=fullname := by
    rw [heq,putInPlace_svc u _ hne,hset]
  have hold {k : Nat} (hm : k ∈ (s.createRecord file fullname orig d).2.core.records)
      (hk' : k≠s.reg.nextSvc) : k ∈ s.core.records ∧ k≠orig ∧
        ((s.createRecord file fullname orig d).2.core.svc k).settings=(s.core.svc k).settings := by
    have hkn := ht'.below k hm
    rw [heq,putInPlace_nextSvc,hlt] at hkn
    rw [heq,putInPlace_records] at hm
    rcases mem_replace hm with ⟨rfl,-⟩ | ⟨hm,hko⟩
    · exact absurd rfl hk'
    · obtain ⟨h1,h2,-⟩ := hk.old k (by omega) hm
      rw [heq,putInPlace_svc u _ hko]
      exact ⟨h1,hko,h2⟩
  intro a ha b hb he
  by_cases hai : a=s.reg.nextSvc <;> by_cases hbi : b=s.reg.nextSvc
  · rw [hai,hbi]
  · obtain ⟨h1,h2,h3⟩ := hold hb hbi
    rw [hai,hi,h3,← hn] at he
    exact absurd (h orig ho b h1 he).symm h2
  · obtain ⟨h1,h2,h3⟩ := hold ha hai
    rw [hbi,hi,h3,← hn] at he
    exact absurd (h a h1 orig ho he) h2
  · obtain ⟨h1,-,h3⟩ := hold ha hai
    obtain ⟨h4,-,h6⟩ := hold hb hbi
    rw [h3,h6] at he
    exact h a h1 b h4 he

theorem Named.setConsumer (h : s.Named) (i : Nat) (d : Draft) : (s.setConsumer i d).Named := by
  intro a ha b hb he
  rw [setConsumer_core] at ha hb he
  exact h a ha b hb he

theorem cleanup_nextSvc (s : Loader) (dummy : Option Nat) (d : Draft) :
    (s.cleanup dummy d).reg.nextSvc=s.reg.nextSvc := by
  rw [cleanup_eq,foldl_keep (fun s => s.reg.nextSvc) fun _ _ => dropPlaceholder_nextSvc ..]
  cases dummy with
  | none => rfl
  | some i =>
    show (delete _ i).reg.nextSvc=_
    rw [delete_nextSvc,removeService_nextSvc]
    rfl

/-- A step of the loading keeps the set in order, if the calls made meet the condition. -/
theorem LoadStep.good (hs : LoadStep s s') (h : s.Good) (hok : ∀ e ∈ s'.calls, LoadOk e) :
    s'.Good := by
  obtain ⟨ht',hk⟩ := hs.tidy h.tidy
  cases hs with
  | dummy fullname hn =>
    exact ⟨h.sound.join _ true,ht',h.trusted.of_calls fun e he => .inl he,h.named.join h.tidy true hn⟩
  | placeholder n hn =>
    exact ⟨h.sound.join _ false,ht',h.trusted.of_calls fun e he => .inl he,
      h.named.join h.tidy false hn⟩
  | link orig d =>
    refine ⟨h.sound.push _,ht',?_,h.named⟩
    intro o deps before c r he
    rcases List.mem_cons.mp he with he | he
    · have hmem := hok _ List.mem_cons_self
      cases he
      exact ⟨hmem,s,rfl,rfl,h.sound⟩
    · exact h.trusted o deps before c r he
  | cleanup dummy d hd hm =>
    have hc := cleanup_calls s dummy d
    refine ⟨h.sound.cleanup h.tidy hd (hm h.trusted) (hok _ ?_),ht',?_,
      h.named.keeps ht' hk (cleanup_nextSvc s dummy d)⟩
    · rw [hc]
      exact List.mem_cons_self
    · refine h.trusted.of_calls fun e he => ?_
      rw [hc] at he
      rcases List.mem_cons.mp he with rfl | he
      · exact .inr fun _ _ _ he => by cases he
      · exact .inl he
  | create file fullname reload orig d hr ho hp hro hl hn =>
    obtain ⟨c,r,hcr⟩ := createRecord_calls s file fullname orig d
    have hcs := setConsumer_calls (s.createRecord file fullname orig d).2 s.reg.nextSvc d
    have hmem : orig ∈ s.core.records := hok _ (hk.calls _ hr.entry)
    obtain ⟨h1,-⟩ := h.sound.createRecord file fullname (hr.known.mem h.trusted) hr.known.before hmem
    refine ⟨h1.setConsumer _ d,ht',?_,
      (h.named.createRecord h.tidy file d hmem (hn hmem)).setConsumer _ d⟩
    refine h.trusted.of_calls fun e he => ?_
    have he' : e ∈ (s.createRecord file fullname orig d).2.calls ∨
        e=(.consume s.reg.nextSvc d.consumerOf,(s.createRecord file fullname orig d).2.core,
          (s.createRecord file fullname orig d).2.reg) := by
      rcases hcs with hcs | hcs <;> rw [hcs] at he
      · exact .inl he
      · exact (List.mem_cons.mp he).symm
    rcases he' with he' | rfl
    · rw [hcr] at he'
      rcases List.mem_cons.mp he' with rfl | he'
      · exact .inr fun _ _ _ he => by cases he
      · rcases List.mem_cons.mp he' with rfl | he'
        · exact .inr fun _ _ _ he => by cases he
        · exact .inl he'
    · exact .inr fun _ _ _ he => by cases he

end Loader
end Dinit
