import Dinit.Load.Step

namespace Dinit

open Framework Framework.Comp World Relation

namespace Loader

variable {s s' : Loader} {d : Draft}

theorem findRecord_some {n : String} {i : Nat} (h : s.findRecord n=some i) :
    i ∈ s.core.records ∧ (s.core.svc i).settings.serviceName=n := by
  refine ⟨List.mem_of_find?_eq_some h,?_⟩
  simpa using List.find?_some h

theorem Real.keeps {i : Nat} (h : s.Real i) (hk : Keeps s s') : s'.Real i := by
  obtain ⟨h1,h2⟩ := hk.real i h.below h.getType
  refine ⟨Nat.lt_of_lt_of_le h.below hk.next,?_,?_⟩
  · rw [Svc.getType,h1]
    exact h.getType
  · exact fun hi => h2 (h.mem fun orig deps before c r he => hi orig deps before c r (hk.calls _ he))

theorem Real.not_loading {i : Nat} (h : s.Real i) (ht : s.Tidy) : s.reg.isLoading i=false := by
  cases hl : s.reg.isLoading i with
  | false => rfl
  | true => exact absurd (ht.loading i hl) h.getType

/-- What the lines of a description have given so far. -/
structure Gathered (s : Loader) (d : Draft) : Prop where
  depends : ∀ dep ∈ d.depends, s.Real dep.1 ∧ dep.2≠.before ∧ dep.2≠.after
  before : d.beforeDeps=[]
  consumer : d.consumerOf=none

theorem Gathered.keeps (h : s.Gathered d) (hk : Keeps s s') : s'.Gathered d :=
  ⟨fun dep hd => ⟨(h.depends dep hd).1.keeps hk,(h.depends dep hd).2⟩,h.before,h.consumer⟩

theorem Gathered.add (h : s.Gathered d) {i : Nat} {depType : DependencyType} (hi : s.Real i)
    (hk : depType≠.before ∧ depType≠.after) :
    s.Gathered { d with depends := d.depends++[(i,depType)] } := by
  refine ⟨?_,h.before,h.consumer⟩
  intro dep hd
  rcases List.mem_append.mp hd with hd | hd
  · exact h.depends dep hd
  · rw [List.mem_singleton.mp hd]
    exact ⟨hi,hk⟩

theorem Gathered.known (h : s.Gathered d) (ht : s.Tidy) : s.Known d where
  depends dep hd := by
    obtain ⟨h1,h2,-⟩ := h.depends dep hd
    exact ⟨h1.below,h1.not_loading ht,h2⟩
  mem hi dep hd := (h.depends dep hd).1.mem hi
  before j hj := by
    rw [h.before] at hj
    cases hj
  consumer p hp := by
    rw [h.consumer] at hp
    cases hp
  across dep _ j hj := by
    rw [h.before] at hj
    cases hj

/-- What is promised of the loading of a dependency. -/
def Loads (load : String → Load (Except LoadError Nat)) : Prop :=
  ∀ (n : String) (s : Loader), s.Tidy →
    Within LoadStep (load n) s fun r s' => ∀ i, r=.ok i → s'.Real i

end Loader

open Loader

theorem DependsKind.not_ordering (k : DependsKind) : k.depType≠.before ∧ k.depType≠.after := by
  cases k <;> decide

section
variable {load loadEntry : String → Load (Except LoadError Nat)} {s : Loader}

theorem readDir_within (hload : Loads load) (kind : DependsKind) (ns : List String) (d : Draft)
    (ht : s.Tidy) (hd : s.Gathered d) :
    Within LoadStep (readDir load kind.depType ns d) s fun r s' => s'.Gathered r.1 := by
  induction ns generalizing s d with
  | nil => exact within_pure hd
  | cons n ns ih =>
    refine within_seq (hload n s ht) ?_
    intro r s' hs hr
    obtain ⟨ht',hk⟩ := steps_tidy hs ht
    have hd' := hd.keeps hk
    match r with
    | .ok i => exact ih _ ht' (hd'.add (hr i rfl) kind.not_ordering)
    | .error (.notFound _) => exact ih d ht' hd'
    | .error (.cyclicDependency _) => exact within_pure hd'
    | .error (.load _ _) => exact within_pure hd'

theorem readLines_within (hload : Loads load) (hentry : Loads loadEntry) (name : String)
    (ls : List Line) (d : Draft) (ht : s.Tidy) (hd : s.Gathered d) :
    Within LoadStep (readLines name load loadEntry ls d) s fun r s' => s'.Gathered r.1 := by
  induction ls generalizing s d with
  | nil => exact within_pure hd
  | cons l ls ih =>
    cases l with
    | dependsOn n kind =>
      refine within_seq (hload n s ht) ?_
      intro r s' hs hr
      obtain ⟨ht',hk⟩ := steps_tidy hs ht
      have hd' := hd.keeps hk
      match r with
      | .ok i => exact ih _ ht' (hd'.add (hr i rfl) kind.not_ordering)
      | .error _ => exact within_pure hd'
    | dependsDir ns kind =>
      refine within_seq (readDir_within hentry kind ns d ht hd) ?_
      intro r s' hs hr
      obtain ⟨ht',-⟩ := steps_tidy hs ht
      match r with
      | (d',none) => exact ih d' ht' hr
      | (d',some e) => exact within_pure hr
    | after n => exact ih _ ht ⟨hd.depends,hd.before,hd.consumer⟩
    | before n => exact ih _ ht ⟨hd.depends,hd.before,hd.consumer⟩
    | consumerOf n =>
      exact within_ite (fun _ => within_pure hd) fun _ => ih _ ht ⟨hd.depends,hd.before,hd.consumer⟩
    | bad description => exact within_pure hd

end

section
variable {s : Loader} {d : Draft} {R : Loader → Loader → Prop} {α : Type}

/-- What the making of a placeholder gives. -/
theorem addPlaceholder_new (ht : s.Tidy) (n : String) :
    s.reg.nextSvc ∈ (s.addPlaceholder n).core.records ∧
      (s.addPlaceholder n).reg.isLoading s.reg.nextSvc=false ∧
      ((s.addPlaceholder n).core.svc s.reg.nextSvc).dependents=[] ∧
      (s.addPlaceholder n).reg.logConsumer s.reg.nextSvc=none := by
  refine ⟨?_,?_,?_,(ht.unused _ (Nat.le_refl _)).2.2⟩
  · show _ ∈ s.core.records++[s.reg.nextSvc]
    simp
  · show (if s.reg.nextSvc=s.reg.nextSvc then false else _)=false
    rw [if_pos rfl]
  · show ((s.allocate _ false).core.svc s.reg.nextSvc).dependents=[]
    rw [allocate_svc,if_pos rfl]

theorem tidy_addPlaceholder (ht : s.Tidy) (n : String) : (s.addPlaceholder n).Tidy :=
  (tidy_join ht _ false (by simp)).1

/-- The service to be consumed has no other consumer. -/
def Unconsumed (s : Loader) (reload : Option Nat) (d : Draft) : Prop :=
  ∀ p ∈ d.consumerOf, s.reg.logConsumer p=none ∨ s.reg.logConsumer p=reload

theorem Unconsumed.adds {s' : Loader} {reload : Option Nat} (h : Unconsumed s reload d)
    (hk : s.Known d) (ht : s.Tidy) (ha : Adds s s') : Unconsumed s' reload d := by
  intro p hp
  rw [ha.logConsumer p (ht.below p (hk.consumer p hp))]
  exact h p hp

theorem consumerError_none {name : String} {reload : Option Nat} {file : File} {p : Nat}
    (h : consumerError name reload file s (some p)=none) :
    s.reg.logConsumer p=none ∨ s.reg.logConsumer p=reload := by
  unfold consumerError at h
  split at h
  · cases h
  · by_contra hn
    simp only [not_or] at hn
    simp only [Option.bind_some,consumedError] at h
    split_ifs at h

theorem resolveConsumer_within (name : String) (reload : Option Nat) (file : File) (ht : s.Tidy)
    (hd : s.Gathered d) :
    Within LoadStep (resolveConsumer name reload file d) s fun r s' =>
      Adds s s' ∧ s'.Known r.1 ∧ r.1.beforeDeps=[] ∧ (r.2=none → Unconsumed s' reload r.1) ∧
        r.1.depends=d.depends := by
  have hk := hd.known ht
  have hfound (p : Nat) (hp : d.consumerOfName.bind s.findRecord=some p) : p ∈ s.core.records := by
    obtain ⟨n,-,hn⟩ := Option.bind_eq_some_iff.mp hp
    exact (findRecord_some hn).1
  have hk' : s.Known { d with consumerOf := d.consumerOfName.bind s.findRecord } :=
    ⟨hk.depends,hk.mem,hk.before,hfound,hk.across⟩
  cases he : consumerError name reload file s (d.consumerOfName.bind s.findRecord) with
  | some e =>
    have heq : resolveConsumer name reload file d s=(pure
        ({ d with consumerOf := d.consumerOfName.bind s.findRecord },some e) : Load _) s := by
      simp only [resolveConsumer,he]
      rfl
    exact within_eq heq .refl (within_pure ⟨.refl s,hk',hd.before,by simp,rfl⟩)
  | none =>
    cases hc : d.consumerOfName.bind s.findRecord with
    | some p =>
      rw [hc] at he hk'
      have heq : resolveConsumer name reload file d s =
          (pure ({ d with consumerOf := some p },none) : Load _) s := by
        simp only [resolveConsumer,hc,he]
        split
        · next h => cases h
        · rfl
      refine within_eq heq .refl (within_pure ⟨.refl s,hk',hd.before,?_,rfl⟩)
      rintro - q hq
      obtain rfl := Option.some.inj hq
      exact consumerError_none he
    | none =>
      rw [hc] at hk' he
      cases hn : d.consumerOfName with
      | none =>
        have heq : resolveConsumer name reload file d s =
            (pure ({ d with consumerOf := none },none) : Load _) s := by
          simp only [resolveConsumer,hc,he]
          simp only [hn]
          rfl
        refine within_eq heq .refl (within_pure ⟨.refl s,hk',hd.before,?_,rfl⟩)
        rintro - q hq
        cases hq
      | some n =>
        have hnone : s.findRecord n=none := by simpa [hn] using hc
        have heq : resolveConsumer name reload file d s =
            (pure ({ d with consumerOf := some s.reg.nextSvc },none) : Load _)
              (s.addPlaceholder n) := by
          simp only [resolveConsumer,hc,he]
          simp only [hn]
          rfl
        obtain ⟨h1,-,-,h4⟩ := addPlaceholder_new ht n
        have ha := adds_placeholder s n
        have hka := hk.adds ht ha
        refine within_eq heq (.single (.placeholder n hnone))
          (within_pure ⟨ha,⟨hka.depends,hka.mem,hka.before,?_,hka.across⟩,hd.before,?_,rfl⟩)
        · rintro p hp
          obtain rfl := Option.some.inj hp
          exact h1
        · rintro - p hp
          obtain rfl := Option.some.inj hp
          exact .inl h4

theorem resolveAfter_within (name : String) (ns : List String) (d : Draft) (ht : s.Tidy)
    (hk : s.Known d) (hb : d.beforeDeps=[]) :
    Within LoadStep (resolveAfter name ns d) s fun r s' =>
      Adds s s' ∧ s'.Known r.1 ∧ r.1.beforeDeps=[] ∧ r.1.consumerOf=d.consumerOf ∧
        ∀ dep ∈ r.1.depends, dep ∈ d.depends ∨ dep.2=.after := by
  induction ns generalizing s d with
  | nil => exact within_pure ⟨.refl s,hk,hb,rfl,fun _ h => .inl h⟩
  | cons n ns ih =>
    have hadd {u : Loader} {i : Nat} (hut : u.Tidy) (hu : u.Known d) (hi : i ∈ u.core.records)
        (hl : u.reg.isLoading i=false) :
        u.Known { d with depends := d.depends++[(i,.after)] } := by
      refine ⟨?_,?_,hu.before,hu.consumer,?_⟩
      · intro dep hdep
        rcases List.mem_append.mp hdep with hdep | hdep
        · exact hu.depends dep hdep
        · rw [List.mem_singleton.mp hdep]
          exact ⟨hut.below i hi,hl,by simp⟩
      · intro hin dep hdep
        rcases List.mem_append.mp hdep with hdep | hdep
        · exact hu.mem hin dep hdep
        · rw [List.mem_singleton.mp hdep]
          exact hi
      · intro dep _ j hj
        rw [hb] at hj
        cases hj
    have hstay : Within LoadStep (pure (d,some (LoadError.cyclicDependency name)) : Load _) s
        fun r s' => Adds s s' ∧ s'.Known r.1 ∧ r.1.beforeDeps=[] ∧ r.1.consumerOf=d.consumerOf ∧
          ∀ dep ∈ r.1.depends, dep ∈ d.depends ∨ dep.2=.after :=
      within_pure ⟨.refl s,hk,hb,rfl,fun _ h => .inl h⟩
    have hafter {i : Nat} {dep : Nat × DependencyType}
        (h : dep ∈ d.depends++[(i,DependencyType.after)] ∨ dep.2=.after) :
        dep ∈ d.depends ∨ dep.2=.after := by
      rcases h with h | h
      · rcases List.mem_append.mp h with h | h
        · exact .inl h
        · rw [List.mem_singleton.mp h]
          exact .inr rfl
      · exact .inr h
    by_cases hname : n=name
    · refine within_eq ?_ .refl hstay
      simp only [resolveAfter,if_pos hname]
      rfl
    · cases hf : s.findRecord n with
      | some i =>
        cases hl : s.reg.isLoading i with
        | true =>
          refine within_eq ?_ .refl hstay
          simp only [resolveAfter,if_neg hname,hf,hl]
          rfl
        | false =>
          have hw := ih _ ht (hadd ht hk (findRecord_some hf).1 hl) hb
          refine within_eq ?_ .refl (within_mono hw ?_)
          · simp only [resolveAfter,if_neg hname,hf,hl]
            rfl
          · rintro r s' - ⟨h1,h2,h3,h4,h5⟩
            exact ⟨h1,h2,h3,h4,fun dep h => hafter (h5 dep h)⟩
      | none =>
        obtain ⟨h1,h2,-,-⟩ := addPlaceholder_new ht n
        have ha := adds_placeholder s n
        have ht' := tidy_addPlaceholder ht n
        have hw := ih _ ht' (hadd ht' (hk.adds ht ha) h1 h2) hb
        refine within_eq ?_ (.single (.placeholder n hf)) (within_mono hw ?_)
        · simp only [resolveAfter,if_neg hname,hf]
        · rintro r s' - ⟨h3,h4,h5,h6,h7⟩
          exact ⟨ha.trans h3,h4,h5,h6,fun dep h => hafter (h7 dep h)⟩

theorem resolveBefore_within (fuel : Nat) (name : String) (ns : List String) (d : Draft)
    (ht : s.Tidy) (hk : s.Known d) :
    Within LoadStep (resolveBefore fuel name ns d) s fun r s' =>
      Adds s s' ∧ s'.Known r.1 ∧ r.1.consumerOf=d.consumerOf ∧ r.1.depends=d.depends := by
  induction ns generalizing s d with
  | nil => exact within_pure ⟨.refl s,hk,rfl,rfl⟩
  | cons n ns ih =>
    have hadd {u : Loader} {j : Nat} (hu : u.Known d) (hj : j ∈ u.core.records)
        (hx : ∀ dep ∈ d.depends, ¬ReflTransGen u.core.Edge dep.1 j ∨
          (u.core.svc j).dependents=[] ∧ dep.1≠j) :
        u.Known { d with beforeDeps := d.beforeDeps++[j] } := by
      refine ⟨hu.depends,hu.mem,?_,hu.consumer,?_⟩
      · intro k hkm
        rcases List.mem_append.mp hkm with hkm | hkm
        · exact hu.before k hkm
        · rw [List.mem_singleton.mp hkm]
          exact hj
      · intro dep hdep k hkm
        rcases List.mem_append.mp hkm with hkm | hkm
        · exact hu.across dep hdep k hkm
        · rw [List.mem_singleton.mp hkm]
          exact hx dep hdep
    refine within_ite (fun _ => within_pure ⟨.refl s,hk,rfl,rfl⟩) fun _ => ?_
    refine within_bind ?_
    refine ⟨.refl,?_⟩
    intro u hu
    obtain rfl : s=u := Option.some.inj hu
    show Within LoadStep _ s _
    split
    · next i hi =>
      refine within_seq (Core.within_checkCycle fuel _ i s) ?_
      rintro cyclic _ - ⟨rfl,hx⟩
      refine within_ite (fun _ => within_pure ⟨.refl _,hk,rfl,rfl⟩) fun hc => ?_
      refine ih _ ht (hadd hk (findRecord_some hi).1 fun dep hdep => .inl ?_)
      exact hx (by simpa using hc) dep.1 (List.mem_map_of_mem hdep)
    · next hn =>
      obtain ⟨h1,-,h3,-⟩ := addPlaceholder_new ht n
      have ha := adds_placeholder s n
      refine within_bind (within_modify (.placeholder n hn) ?_)
      refine within_mono (ih _ (tidy_addPlaceholder ht n) (hadd (hk.adds ht ha) h1 fun dep hdep => .inr ⟨h3,?_⟩)) ?_
      · have := (hk.depends dep hdep).1
        omega
      · rintro r s' - ⟨h4,h5⟩
        exact ⟨ha.trans h4,h5⟩

theorem within_get {f : Loader → Load α} {Q : α → Loader → Prop} (h : Within R (f s) s Q) :
    Within R (Comp.get >>= f) s Q := by
  refine within_bind ⟨.refl,?_⟩
  intro u hu
  obtain rfl := Option.some.inj hu
  exact h

/-- `check_settings_for_reload` has found nothing wrong with the reload of `i`. -/
structure Checked (s : Loader) (file : File) (d : Draft) (i : Nat) : Prop where
  getType : (s.core.svc i).serviceState≠.stopped → file.settings.recordType=(s.core.svc i).getType
  state : (s.core.svc i).serviceState=.stopped ∨ (s.core.svc i).serviceState=.started
  depends : (s.core.svc i).serviceState≠.stopped → ∀ dep ∈ d.depends, dep.2=.regular →
    (s.core.svc dep.1).serviceState=.started

theorem checked_of_error (name : String) {file : File} {i : Nat}
    (h : reloadError name file s d i=none) : Checked s file d i := by
  unfold reloadError at h
  dsimp only at h
  split_ifs at h with h1 h2 h3
  simp only [not_and,not_not] at h1 h2
  refine ⟨h1,?_,?_⟩
  · by_cases hs : (s.core.svc i).serviceState=.stopped
    · exact .inl hs
    · exact .inr (h2 hs)
  · intro hs dep hdep hr
    by_contra hn
    refine h3 ⟨hs,?_⟩
    rw [List.any_eq_true]
    exact ⟨dep,hdep,by simp [hr,hn]⟩

/-- The dependencies that are made of "after" constraints come last. -/
theorem Checked.adds {s' : Loader} {file : File} {d' : Draft} {i : Nat} (h : Checked s file d i)
    (hk : s.Known d) (hi : i<s.reg.nextSvc) (ha : Adds s s')
    (hd : ∀ dep ∈ d'.depends, dep ∈ d.depends ∨ dep.2=.after) : Checked s' file d' i := by
  have hsvc := ha.svc i hi
  refine ⟨?_,?_,?_⟩
  · rw [hsvc]
    exact h.getType
  · rw [hsvc]
    exact h.state
  · rw [hsvc]
    intro hs dep hdep hr
    rcases hd dep hdep with hdep | hdep
    · rw [ha.svc dep.1 (hk.depends dep hdep).1]
      exact h.depends hs dep hdep hr
    · rw [hdep] at hr
      cases hr

/-- What is known once everything that a description names has been found. -/
theorem resolve_within (fuel : Nat) (name : String) (reload : Option Nat) (file : File)
    (ht : s.Tidy) (hd : s.Gathered d) (hri : ∀ i ∈ reload, i<s.reg.nextSvc) :
    Within LoadStep (resolve fuel name reload file d) s fun r s' =>
      Adds s s' ∧ s'.Known r.1 ∧ (r.2=none → Unconsumed s' reload r.1) ∧
        (r.2=none → ∀ i ∈ reload, Checked s' file r.1 i) := by
  refine within_get ?_
  dsimp only
  split
  · exact within_pure ⟨.refl s,hd.known ht,by simp,by simp⟩
  next early =>
  have hchecked : ∀ i ∈ reload, Checked s file d i := by
    rintro i hi
    obtain rfl : reload=some i := hi
    refine checked_of_error name ?_
    revert early
    split
    · intro h
      cases h
    · next hr =>
      intro h
      rwa [← Option.some.inj hr] at h
    · next hr => cases hr
  refine within_seq (resolveConsumer_within name reload file ht hd) ?_
  rintro r1 s1 hs1 ⟨ha1,hk1,hb1,hu1,hd1⟩
  have ht1 := (steps_tidy hs1 ht).1
  have hfin {r : Draft × Option LoadError} {u : Loader} (ha : Adds s u)
      (hdd : ∀ dep ∈ r.1.depends, dep ∈ d.depends ∨ dep.2=.after) :
      r.2=none → ∀ i ∈ reload, Checked u file r.1 i :=
    fun _ i hi => (hchecked i hi).adds (hd.known ht) (hri i hi) ha hdd
  refine within_ite (fun _ => within_pure ⟨ha1,hk1,hu1,hfin ha1 ?_⟩) fun he1 => ?_
  · rw [hd1]
    exact fun dep h => .inl h
  have hu1 := hu1 (by simpa using he1)
  refine within_seq (resolveAfter_within name _ r1.1 ht1 hk1 hb1) ?_
  rintro r2 s2 hs2 ⟨ha2,hk2,-,hc2,hd2⟩
  have ht2 := (steps_tidy hs2 ht1).1
  have hu2 : Unconsumed s2 reload r2.1 := by
    intro p hp
    rw [hc2] at hp
    exact hu1.adds hk1 ht1 ha2 p hp
  have ha := ha1.trans ha2
  rw [hd1] at hd2
  refine within_ite (fun _ => within_pure ⟨ha,hk2,fun _ => hu2,hfin ha hd2⟩) fun _ => ?_
  refine within_seq (resolveBefore_within fuel name _ r2.1 ht2 hk2) ?_
  rintro r3 s3 - ⟨ha3,hk3,hc3,hd3⟩
  have hu3 : Unconsumed s3 reload r3.1 := by
    intro p hp
    rw [hc3] at hp
    exact hu2.adds hk2 ht2 ha3 p hp
  have hd3' : ∀ dep ∈ r3.1.depends, dep ∈ d.depends ∨ dep.2=.after := by
    rw [hd3]
    exact hd2
  have ha' := ha.trans ha3
  refine within_ite (fun _ => within_pure ⟨ha',hk3,fun _ => hu3,hfin ha' hd3'⟩) fun _ => ?_
  split
  · exact within_pure ⟨ha',hk3,by simp,by simp⟩
  · exact within_pure ⟨ha',hk3,fun _ => hu3,hfin ha' hd3'⟩

theorem reloadCycle_within {t : Loader} (fuel : Nat) (reload : Option Nat) (deps : List Nat)
    (orig : Nat) :
    Within R (reloadCycle fuel reload s.core deps orig) t fun b u => u=t ∧ (b=false →
      reload.isSome=true → ∀ i ∈ deps, ¬ReflTransGen s.core.Edge i orig) := by
  refine within_ite (fun _ => ?_) fun hr => within_pure ⟨rfl,fun _ h => absurd h hr⟩
  refine within_mono (Core.within_checkCycle fuel deps orig t) ?_
  rintro b u - ⟨rfl,hb⟩
  exact ⟨rfl,fun hf _ => hb hf⟩

theorem known_push (hk : s.Known d) (k : LoadCall) : (s.push k).Known d :=
  ⟨hk.depends,fun hi => hk.mem fun orig deps before c r he =>
    hi orig deps before c r (List.mem_cons_of_mem _ he),hk.before,hk.consumer,hk.across⟩

theorem Loader.Real.setConsumer {i : Nat} (h : s.Real i) (j : Nat) (d : Draft) :
    (s.setConsumer j d).Real i := by
  have hcore := setConsumer_core s j d
  have hreg : (s.setConsumer j d).reg.nextSvc=s.reg.nextSvc := by
    unfold Loader.setConsumer
    dsimp only
    split
    · split <;> rfl
    · rfl
  have hcalls : ∀ e ∈ s.calls, e ∈ (s.setConsumer j d).calls := by
    intro e he
    unfold Loader.setConsumer
    dsimp only
    split
    · split <;> exact List.mem_cons_of_mem _ he
    · exact he
  refine ⟨?_,?_,?_⟩
  · rw [hreg]
    exact h.below
  · rw [hcore]
    exact h.getType
  · intro hi
    rw [hcore]
    exact h.mem fun orig deps before c r he => hi orig deps before c r (hcalls _ he)

/-- The record that is made is in the set. -/
theorem createRecord_real (file : File) (fullname : String) {reload : Option Nat} {orig : Nat}
    (ht : s.Tidy) (hr : s.Ready reload orig d) (ho : orig<s.reg.nextSvc) :
    (s.createRecord file fullname orig d).2.Real s.reg.nextSvc := by
  obtain ⟨-,u,hk,heq,hlt,hnew,hset⟩ := tidy_createRecord file fullname (d := d) ht ho
  have hne : s.reg.nextSvc≠orig := by omega
  refine ⟨?_,?_,?_⟩
  · rw [heq,putInPlace_nextSvc,hlt]
    exact Nat.lt_succ_self _
  · rw [heq,putInPlace_svc u _ hne,Svc.getType,hset]
    exact file.isService
  · intro htr
    have hcalls : ∀ e ∈ s.calls, e ∈ (s.createRecord file fullname orig d).2.calls := by
      intro e he
      rw [heq,putInPlace_calls]
      exact hk.calls e he
    have htr' : s.Trusted := fun orig deps before c r he => htr orig deps before c r (hcalls _ he)
    obtain ⟨hmem,v,hc,hreg,hv⟩ := htr' _ _ _ _ _ hr.entry
    have hs : s.Sound [] := hv.of_graph (by rw [hc]; exact .refl _) (by rw [hreg])
      (by rw [hreg]) (by rw [hreg])
    exact (hs.createRecord file fullname (hr.known.mem htr') hr.known.before hmem).2

/-- A new record is made, unless a cycle is found. -/
theorem install_within (fuel : Nat) (name : String) (reload : Option Nat) (file : File)
    (fullname : String) (orig : Nat) (ht : s.Tidy) (hk : s.Known d) (hu : Unconsumed s reload d)
    (ho : orig<s.reg.nextSvc) (hp : (s.core.svc orig).getType=.placeholder)
    (hro : reload=none ∨ reload=some orig)
    (hl : reload=none → orig ∈ s.core.records → s.reg.isLoading orig=true)
    (hn : orig ∈ s.core.records → (s.core.svc orig).settings.serviceName=fullname) :
    Within LoadStep (install fuel name reload file fullname true orig d) s fun r s' =>
      (∀ i, r=.ok i → s'.Real i) ∧ ∀ e, r=.error e → s'.Known d := by
  refine within_get (within_bind (within_modify (.link orig d) ?_))
  have hk1 := known_push hk (.link orig (d.depends.map Prod.fst) d.beforeDeps)
  have ht1 := tidy_push ht (.link orig (d.depends.map Prod.fst) d.beforeDeps)
  refine within_seq (reloadCycle_within (s := s) fuel reload _ orig) ?_
  rintro cyclic _ - ⟨rfl,hback⟩
  refine within_ite (fun _ => within_pure ⟨?_,fun _ _ => hk1⟩) fun hc => ?_
  · intro i hi
    cases hi
  rw [if_pos rfl]
  have hr : (s.push (.link orig (d.depends.map Prod.fst) d.beforeDeps)).Ready reload orig d :=
    ⟨hk1,hu,fun hr dep hdep => hback (by simpa using hc) hr dep.1 (List.mem_map_of_mem hdep),
      List.mem_cons_self⟩
  refine within_get (within_bind (within_modify
    (.create file fullname reload orig d hr ho hp hro hl hn) (within_pure ⟨?_,?_⟩)))
  · intro i hi
    obtain rfl := Except.ok.inj hi
    exact (createRecord_real file fullname ht1 hr ho).setConsumer _ d
  · intro e he
    cases he

/-- What a failed load leaves for its cleanup. -/
theorem Loader.Known.candidates (hk : s.Known d) (htr : s.Trusted) {i : Nat}
    (hi : i ∈ d.beforeDeps++d.afterDeps++d.consumerOf.toList) : i ∈ s.core.records := by
  simp only [List.mem_append,Option.mem_toList] at hi
  rcases hi with (hi | hi) | hi
  · exact hk.before i hi
  · obtain ⟨dep,hdep,rfl⟩ := List.mem_map.mp hi
    exact hk.mem htr dep (List.mem_filter.mp hdep).1
  · exact hk.consumer i hi

section
variable {load : String → Option Nat → Load (Except LoadError Nat)} {reload : Option Nat}

theorem gather_within (hload : ∀ avoid, Loads fun n => load n avoid) (fuel : Nat)
    (reload : Option Nat) (name : String) (file : File) (ht : s.Tidy) (hri : ∀ i ∈ reload, i<s.reg.nextSvc) :
    Within LoadStep (gather load fuel reload name file) s fun r s' =>
      s'.Known r.1 ∧ (r.2=none → Unconsumed s' reload r.1) ∧
        (r.2=none → ∀ i ∈ reload, Checked s' file r.1 i) := by
  refine within_seq (readLines_within (hload reload) (hload none) name file.lines {} ht
    ⟨by simp,rfl,rfl⟩) ?_
  intro r s' hs hd
  obtain ⟨ht',hk'⟩ := steps_tidy hs ht
  have herr (he : r.2.isSome=true) : r.2≠none := by
    intro hn
    rw [hn] at he
    cases he
  refine within_ite (fun he => within_pure
    ⟨hd.known ht',fun hn => absurd hn (herr he),fun hn => absurd hn (herr he)⟩) fun _ => ?_
  have hri' : ∀ i ∈ reload, i<s'.reg.nextSvc :=
    fun i hi => Nat.lt_of_lt_of_le (hri i hi) hk'.next
  exact within_mono (resolve_within fuel name reload file ht' hd hri') fun _ _ _ h => h.2

/-- `orig` is the dummy of a service that is loaded for the first time, or a placeholder. -/
structure Placed (s : Loader) (reload : Option Nat) (orig : Nat) (fullname : String) : Prop where
  below : orig<s.reg.nextSvc
  getType : (s.core.svc orig).getType=.placeholder
  loading : reload=none → orig ∈ s.core.records → s.reg.isLoading orig=true
  name : orig ∈ s.core.records → (s.core.svc orig).settings.serviceName=fullname

theorem Placed.keeps {s' : Loader} {orig : Nat} {fullname : String}
    (h : Placed s reload orig fullname) (hk : Keeps s s') : Placed s' reload orig fullname where
  below := Nat.lt_of_lt_of_le h.below hk.next
  getType := hk.fake orig h.below h.getType
  loading hr hm := by
    obtain ⟨h1,-,h3⟩ := hk.old orig h.below hm
    rw [h3]
    exact h.loading hr h1
  name hm := by
    obtain ⟨h1,h2,-⟩ := hk.old orig h.below hm
    rw [h2]
    exact h.name h1

theorem createsRecord_placeholder (file : File)
    (h : ∀ i ∈ reload, (s.core.svc i).getType=.placeholder) :
    createsRecord reload file s=true := by
  unfold createsRecord
  split
  · next i =>
    rw [h i rfl]
    simpa using file.isService
  · rfl

theorem loadTry_within (hload : ∀ avoid, Loads fun n => load n avoid) (fuel : Nat)
    (fullname : String) (dummy : Option Nat) (file : File) (ht : s.Tidy)
    (hor : reload.isSome=true ∧ dummy=none ∨ reload=none ∧ dummy.isSome=true)
    (hp : Placed s reload (reload.getD (dummy.getD 0)) fullname) :
    Within LoadStep (loadTry load fuel fullname reload dummy file) s fun r s' =>
      ∀ i, r=.ok i → s'.Real i := by
  have hfail {d : Draft} {e : LoadError} {u : Loader} (hs : ReflTransGen LoadStep s u)
      (hk : u.Known d) : Within LoadStep (do
        modify fun s => s.cleanup dummy d
        throwing e) u fun r s' => ∀ i, r=.ok i → s'.Real i := by
    obtain ⟨htu,hku⟩ := steps_tidy hs ht
    refine within_bind (within_modify (.cleanup dummy d ?_ fun htr i hi => hk.candidates htr hi)
      (within_pure ?_))
    · intro i hi
      have hi' : reload.getD (dummy.getD 0)=i := by
        rcases hor with ⟨-,hd⟩ | ⟨hr,-⟩
        · rw [hd] at hi
          cases hi
        · rw [hr,Option.getD_none,hi]
          rfl
      have := (hp.keeps hku).getType
      rwa [hi'] at this
    · intro i hi
      cases hi
  have hri : ∀ i ∈ reload, i<s.reg.nextSvc := by
    intro i hi
    have := hp.below
    rwa [show reload=some i from hi,Option.getD_some] at this
  refine within_seq (gather_within hload fuel _ (baseName fullname) file ht hri) ?_
  rintro ⟨d,err⟩ s1 hs1 ⟨hk1,hu1,-⟩
  obtain ⟨ht1,hkeep1⟩ := steps_tidy hs1 ht
  cases err with
  | some e => exact hfail hs1 hk1
  | none =>
    have hp1 := hp.keeps hkeep1
    refine within_get ?_
    dsimp only
    have hcr : createsRecord reload file s1=true := by
      refine createsRecord_placeholder file ?_
      intro i hi
      have := hp1.getType
      rwa [show reload=some i from hi,Option.getD_some] at this
    rw [hcr]
    have hro : reload=none ∨ reload=some (reload.getD (dummy.getD 0)) := by
      cases reload <;> simp
    refine within_seq (install_within fuel (baseName fullname) reload file fullname _ ht1 hk1
      (hu1 rfl) hp1.below hp1.getType hro hp1.loading hp1.name) ?_
    rintro r s2 hs2 ⟨hok,herr⟩
    cases r with
    | ok i => exact within_pure hok
    | error e => exact hfail (hs1.trans hs2) (herr e rfl)

theorem loadFrom_within (hload : ∀ avoid, Loads fun n => load n avoid) (fuel : Nat)
    (fullname : String) (files : String → Except LoadError File) (ht : s.Tidy)
    (hnone : reload=none → s.findRecord fullname=none)
    (hsome : ∀ i ∈ reload, s.findRecord fullname=some i ∧ (s.core.svc i).getType=.placeholder) :
    Within LoadStep (loadFrom load fuel fullname reload files) s fun r s' =>
      ∀ i, r=.ok i → s'.Real i := by
  unfold loadFrom
  split
  · refine within_pure ?_
    intro i hi
    cases hi
  · next file _ =>
    cases hr : reload with
    | some i =>
      rw [hr] at hsome
      obtain ⟨hf,hp⟩ := hsome i rfl
      obtain ⟨hm,hn⟩ := findRecord_some hf
      exact loadTry_within hload fuel fullname none file ht (.inl ⟨rfl,rfl⟩)
        ⟨ht.below i hm,hp,(fun h => by cases h),fun _ => hn⟩
    | none =>
      refine within_get (within_bind (within_modify (.dummy fullname (hnone hr)) ?_))
      have ht1 := (tidy_join ht { serviceName := fullname } true fun _ => rfl).1
      have hsvc := allocate_svc s { serviceName := fullname } true s.reg.nextSvc
      rw [if_pos rfl] at hsvc
      refine loadTry_within hload fuel fullname (some s.reg.nextSvc) file ht1 (.inr ⟨rfl,rfl⟩)
        ⟨Nat.lt_succ_self _,?_,fun _ _ => ?_,fun _ => ?_⟩
      · show ((s.allocate _ true).core.svc s.reg.nextSvc).getType=_
        rw [hsvc]
        rfl
      · show (if s.reg.nextSvc=s.reg.nextSvc then true else _)=true
        rw [if_pos rfl]
      · show ((s.allocate _ true).core.svc s.reg.nextSvc).settings.serviceName=_
        rw [hsvc]

/-- The loading of a service is made of steps, and a service that is returned is loaded. -/
theorem loadReloadService_within (files : String → Except LoadError File) (fuel : Nat) :
    ∀ avoid, Loads fun n => loadReloadService files fuel n none avoid := by
  induction fuel with
  | zero => exact fun _ _ _ _ => within_fail
  | succ fuel ih =>
    intro avoid n s ht
    refine within_get ?_
    dsimp only
    cases hf : s.findRecord n with
    | none => exact loadFrom_within ih fuel n files ht (fun _ => hf) (by simp)
    | some i =>
      dsimp only
      split
      · refine within_pure ?_
        intro j hj
        cases hj
      · split
        · next hp =>
          refine within_pure ?_
          intro j hj
          obtain rfl := Except.ok.inj hj
          obtain ⟨hm,-⟩ := findRecord_some hf
          exact ⟨ht.below i hm,hp,fun _ => hm⟩
        · next hp =>
          refine loadFrom_within ih fuel n files ht (fun h => by cases h) ?_
          intro j hj
          obtain rfl := Option.some.inj hj
          exact ⟨hf,by simpa using hp⟩

end
end
end Dinit
