import Dinit.Load.Cycle

namespace Dinit

open Framework Framework.Comp World Relation

namespace Loader

/-- Each time, what was to be loaded over was in the set, which was sound. -/
def Trusted (s : Loader) : Prop :=
  ∀ orig deps before c r, (LoadCall.link orig deps before,c,r) ∈ s.calls →
    orig ∈ c.records ∧ ∃ u : Loader, u.core=c ∧ u.reg=r ∧ u.Sound []

/-- The service has been loaded. -/
structure Real (s : Loader) (i : Nat) : Prop where
  below : i<s.reg.nextSvc
  getType : (s.core.svc i).getType≠.placeholder
  mem : s.Trusted → i ∈ s.core.records

/-- `s'` is `s` with some more placeholders. -/
structure Adds (s s' : Loader) : Prop where
  next : s.reg.nextSvc≤ s'.reg.nextSvc
  records : ∃ ps : List Nat, s'.core.records=s.core.records++ps ∧ ∀ p ∈ ps, s.reg.nextSvc≤ p
  svc : ∀ i<s.reg.nextSvc, s'.core.svc i=s.core.svc i
  link : s'.core.link=s.core.link
  nextLink : s'.core.nextLink=s.core.nextLink
  edge : ∀ i j, s'.core.Edge i j → s.core.Edge i j
  isLoading : ∀ i<s.reg.nextSvc, s'.reg.isLoading i=s.reg.isLoading i
  logConsumer : ∀ i<s.reg.nextSvc, s'.reg.logConsumer i=s.reg.logConsumer i
  consumerFor : ∀ i<s.reg.nextSvc, s'.reg.consumerFor i=s.reg.consumerFor i
  calls : s'.calls=s.calls

variable {s s' s'' : Loader}

theorem Adds.refl (s : Loader) : Adds s s :=
  ⟨Nat.le_refl _,⟨[],by simp,by simp⟩,fun _ _ => rfl,rfl,rfl,fun _ _ h => h,fun _ _ => rfl,
    fun _ _ => rfl,fun _ _ => rfl,rfl⟩

theorem Adds.trans (h : Adds s s') (h' : Adds s' s'') : Adds s s'' where
  next := Nat.le_trans h.next h'.next
  records := by
    obtain ⟨ps,h1,h2⟩ := h.records
    obtain ⟨qs,h3,h4⟩ := h'.records
    refine ⟨ps++qs,by rw [h3,h1,List.append_assoc],?_⟩
    intro p hp
    rcases List.mem_append.mp hp with hp | hp
    · exact h2 p hp
    · exact Nat.le_trans h.next (h4 p hp)
  svc i hi := (h'.svc i (Nat.lt_of_lt_of_le hi h.next)).trans (h.svc i hi)
  link := h'.link.trans h.link
  nextLink := h'.nextLink.trans h.nextLink
  edge i j he := h.edge i j (h'.edge i j he)
  isLoading i hi := (h'.isLoading i (Nat.lt_of_lt_of_le hi h.next)).trans (h.isLoading i hi)
  logConsumer i hi :=
    (h'.logConsumer i (Nat.lt_of_lt_of_le hi h.next)).trans (h.logConsumer i hi)
  consumerFor i hi :=
    (h'.consumerFor i (Nat.lt_of_lt_of_le hi h.next)).trans (h.consumerFor i hi)
  calls := h'.calls.trans h.calls

theorem Adds.mem (h : Adds s s') {i : Nat} (hi : i ∈ s.core.records) : i ∈ s'.core.records := by
  obtain ⟨ps,hp,-⟩ := h.records
  rw [hp]
  exact List.mem_append_left _ hi

theorem Adds.reach (h : Adds s s') {i j : Nat} (hr : ReflTransGen s'.core.Edge i j) :
    ReflTransGen s.core.Edge i j :=
  ReflTransGen.mono h.edge i j hr

theorem adds_placeholder (s : Loader) (n : String) : Adds s (s.addPlaceholder n) := by
  have hsvc (k : Nat) : (s.addPlaceholder n).core.svc k =
      if k=s.reg.nextSvc then { settings := { serviceName := n } } else s.core.svc k :=
    allocate_svc s { serviceName := n } false k
  refine ⟨Nat.le_succ _,⟨[s.reg.nextSvc],rfl,by simp⟩,?_,rfl,rfl,?_,?_,fun _ _ => rfl,
    fun _ _ => rfl,rfl⟩
  · intro i hi
    rw [hsvc,if_neg (Nat.ne_of_lt hi)]
  · intro i j he
    obtain ⟨l,hl,hto⟩ := Core.edge_iff.mp he
    rw [hsvc] at hl
    split_ifs at hl
    · cases hl
    · exact Core.edge_iff.mpr ⟨l,hl,hto⟩
  · intro i hi
    show (if i=s.reg.nextSvc then false else s.reg.isLoading i)=_
    rw [if_neg (Nat.ne_of_lt hi)]

/-- The services named so far are in the set. -/
structure Known (s : Loader) (d : Draft) : Prop where
  depends : ∀ dep ∈ d.depends, dep.1<s.reg.nextSvc ∧ s.reg.isLoading dep.1=false ∧ dep.2≠.before
  mem : s.Trusted → ∀ dep ∈ d.depends, dep.1 ∈ s.core.records
  before : ∀ j ∈ d.beforeDeps, j ∈ s.core.records
  consumer : ∀ p ∈ d.consumerOf, p ∈ s.core.records
  /-- no dependency leads to a service that this one comes before -/
  across : ∀ dep ∈ d.depends, ∀ j ∈ d.beforeDeps,
    ¬ReflTransGen s.core.Edge dep.1 j ∨ (s.core.svc j).dependents=[] ∧ dep.1≠j

theorem Known.adds {d : Draft} (h : s.Known d) (ht : s.Tidy) (ha : Adds s s') : s'.Known d where
  depends dep hd := by
    obtain ⟨h1,h2,h3⟩ := h.depends dep hd
    rw [ha.isLoading _ h1]
    exact ⟨Nat.lt_of_lt_of_le h1 ha.next,h2,h3⟩
  mem hi dep hd := by
    refine ha.mem (h.mem ?_ dep hd)
    intro orig deps before c r he
    rw [← ha.calls] at he
    exact hi orig deps before c r he
  before j hj := ha.mem (h.before j hj)
  consumer p hp := ha.mem (h.consumer p hp)
  across dep hd j hj := by
    rw [ha.svc j (ht.below j (h.before j hj))]
    exact (h.across dep hd j hj).imp_left fun hn hr => hn (ha.reach hr)

/-- Everything is known that is needed for the record `orig` to be loaded over. `reload` is
the record to be reloaded, if that is what happens. -/
structure Ready (s : Loader) (reload : Option Nat) (orig : Nat) (d : Draft) : Prop where
  known : s.Known d
  /-- nobody else consumes the service to be consumed -/
  unconsumed : ∀ p ∈ d.consumerOf, s.reg.logConsumer p=none ∨ s.reg.logConsumer p=reload
  back : reload.isSome=true → ∀ dep ∈ d.depends, ¬ReflTransGen s.core.Edge dep.1 orig
  entry : (.link orig (d.depends.map Prod.fst) d.beforeDeps,s.core,s.reg) ∈ s.calls

/-- A step in the loading of a service. -/
inductive LoadStep : Loader → Loader → Prop
  | dummy {s : Loader} (fullname : String) (h : s.findRecord fullname=none) :
      LoadStep s ((s.allocate { serviceName := fullname } true).addService s.reg.nextSvc)
  | placeholder {s : Loader} (n : String) (h : s.findRecord n=none) :
      LoadStep s (s.addPlaceholder n)
  | link {s : Loader} (orig : Nat) (d : Draft) :
      LoadStep s (s.push (.link orig (d.depends.map Prod.fst) d.beforeDeps))
  | cleanup {s : Loader} (dummy : Option Nat) (d : Draft)
      (hd : ∀ i ∈ dummy, (s.core.svc i).getType=.placeholder)
      (hk : s.Trusted → ∀ i ∈ d.beforeDeps++d.afterDeps++d.consumerOf.toList,
        i ∈ s.core.records) :
      LoadStep s (s.cleanup dummy d)
  | create {s : Loader} (file : File) (fullname : String) (reload : Option Nat) (orig : Nat)
      (d : Draft) (hr : s.Ready reload orig d) (ho : orig<s.reg.nextSvc)
      (hp : (s.core.svc orig).getType=.placeholder)
      (hro : reload=none ∨ reload=some orig)
      (hl : reload=none → orig ∈ s.core.records → s.reg.isLoading orig=true)
      (hn : orig ∈ s.core.records → (s.core.svc orig).settings.serviceName=fullname) :
      LoadStep s ((s.createRecord file fullname orig d).2.setConsumer s.reg.nextSvc d)

/-- The new record is put in the place of a placeholder. -/
theorem Keeps.putInPlace {u : Loader} {orig i : Nat} (h : Keeps s u) (hi : s.reg.nextSvc≤ i)
    (ho : orig<s.reg.nextSvc) (ht : (s.core.svc orig).getType=.placeholder) :
    Keeps s (u.putInPlace orig i) where
  next := by
    rw [putInPlace_nextSvc]
    exact h.next
  real k hk hkt := by
    have hko : k≠orig := by
      rintro rfl
      exact hkt ht
    obtain ⟨h1,h2⟩ := h.real k hk hkt
    rw [putInPlace_svc u i hko,putInPlace_records]
    exact ⟨h1,fun hm => List.mem_map.mpr ⟨k,h2 hm,if_neg hko⟩⟩
  old k hk hm := by
    rw [putInPlace_records] at hm
    rcases mem_replace hm with ⟨rfl,-⟩ | ⟨hm,hko⟩
    · omega
    · have hload : (u.putInPlace orig i).reg.isLoading k=u.reg.isLoading k := by
        unfold Loader.putInPlace
        rw [delete_isLoading,if_neg hko]
        rfl
      rw [putInPlace_svc u i hko,hload]
      exact h.old k hk hm
  fake k hk hkt := by
    by_cases hko : k=orig
    · unfold Loader.putInPlace
      rw [delete_core,hko]
      simp [Svc.getType]
    · rw [putInPlace_svc u i hko]
      exact h.fake k hk hkt
  calls e he := by
    rw [putInPlace_calls]
    exact h.calls e he

theorem setConsumer_core (s : Loader) (i : Nat) (d : Draft) : (s.setConsumer i d).core=s.core := by
  unfold setConsumer
  dsimp only
  split
  · split <;> rfl
  · rfl

theorem tidy_setConsumer (h : s.Tidy) {i : Nat} {d : Draft} (hi : i<s.reg.nextSvc)
    (hp : ∀ p ∈ d.consumerOf, p<s.reg.nextSvc) :
    (s.setConsumer i d).Tidy ∧ Keeps s (s.setConsumer i d) := by
  unfold setConsumer
  dsimp only
  split
  · next ht =>
    have hreal : (s.core.svc i).getType≠.placeholder := by
      rcases ht with ht | ht <;> rw [ht] <;> decide
    have h1 : ((s.push (.consume i d.consumerOf)).setConsumerFor i d.consumerOf).Tidy := by
      refine ⟨h.nodup,h.below,h.loading,?_,h.consumer,?_⟩
      · intro j hj hjt
        have hji : j≠i := by
          rintro rfl
          exact hreal hjt
        simpa [setConsumerFor,hji] using h.plain j hj hjt
      · intro j hj
        have hj' : s.reg.nextSvc≤ j := hj
        have hji : j≠i := by omega
        simpa [setConsumerFor,hji] using h.unused j hj'
    have hk1 : Keeps s ((s.push (.consume i d.consumerOf)).setConsumerFor i d.consumerOf) :=
      keeps_of_eq rfl (fun _ => rfl) rfl rfl fun _ h => List.mem_cons_of_mem _ h
    split
    · next p hp' =>
      obtain ⟨h2,hk2⟩ := tidy_setLogConsumer h1 p (k := some i) (.inl (hp p hp')) (by
        intro j hj
        obtain rfl : i=j := by simpa using hj
        exact ⟨hi,fun _ => hreal⟩)
      exact ⟨h2,hk1.trans hk2⟩
    · exact ⟨h1,hk1⟩
  · exact ⟨h,.refl s⟩

def dropDummy (s : Loader) : Option Nat → Loader
  | some i => (s.removeService i).delete i
  | none => s

/-- The placeholders that a cleanup looks at, and whether it deletes them. -/
def candidates (d : Draft) : List (Nat × Bool) :=
  d.beforeDeps.map (·,true)++d.afterDeps.map (·,false)++d.consumerOf.toList.map (·,true)

theorem cleanup_eq (s : Loader) (dummy : Option Nat) (d : Draft) : s.cleanup dummy d =
    (candidates d).foldl (fun s x => s.dropPlaceholder x.1 x.2)
      ((s.push (.cleanup dummy d.beforeDeps d.afterDeps d.consumerOf.toList)).dropDummy dummy) := by
  simp only [candidates,List.foldl_append,List.foldl_map]
  cases dummy <;> rfl

theorem tidy_dropDummy (h : s.Tidy) (dummy : Option Nat)
    (hd : ∀ i ∈ dummy, (s.core.svc i).getType=.placeholder) :
    (s.dropDummy dummy).Tidy ∧ Keeps s (s.dropDummy dummy) := by
  cases dummy with
  | none => exact ⟨h,.refl s⟩
  | some i =>
    have ht := hd i rfl
    obtain ⟨h1,hk1,hn1⟩ := tidy_removeService h ht
    have ht1 : ((s.removeService i).core.svc i).getType=.placeholder := by
      rw [removeService_svc]
      exact ht
    obtain ⟨h2,hk2⟩ := tidy_delete h1 ht1 hn1
    exact ⟨h2,hk1.trans hk2⟩

theorem tidy_cleanup (h : s.Tidy) {dummy : Option Nat} (d : Draft)
    (hd : ∀ i ∈ dummy, (s.core.svc i).getType=.placeholder) :
    (s.cleanup dummy d).Tidy ∧ Keeps s (s.cleanup dummy d) := by
  have h1 := tidy_push h (.cleanup dummy d.beforeDeps d.afterDeps d.consumerOf.toList)
  have hk1 := keeps_push s (.cleanup dummy d.beforeDeps d.afterDeps d.consumerOf.toList)
  obtain ⟨h2,hk2⟩ := tidy_dropDummy h1 dummy hd
  obtain ⟨h3,hk3⟩ := tidy_foldl (candidates d)
    (f := fun s (x : Nat × Bool) => s.dropPlaceholder x.1 x.2)
    (fun u x hu => tidy_dropPlaceholder hu x.1 x.2) h2
  rw [cleanup_eq]
  exact ⟨h3,(hk1.trans hk2).trans hk3⟩

/-- What a step of the loading leaves alone. -/
theorem LoadStep.tidy (hs : LoadStep s s') (h : s.Tidy) : s'.Tidy ∧ Keeps s s' := by
  cases hs with
  | dummy fullname hn => exact tidy_join h _ true fun _ => rfl
  | placeholder n hn => exact tidy_join h _ false (by simp)
  | link orig d => exact ⟨tidy_push h _,keeps_push s _⟩
  | cleanup dummy d hd hk => exact tidy_cleanup h d hd
  | create file fullname reload orig d hr ho hp hro hl hn =>
    obtain ⟨h1,u,hk,heq,hlt,-,-⟩ := tidy_createRecord file fullname (d := d) h ho
    have hk1 : Keeps s (s.createRecord file fullname orig d).2 := by
      rw [heq]
      exact hk.putInPlace (Nat.le_refl _) ho hp
    have hlt1 : s.reg.nextSvc<(s.createRecord file fullname orig d).2.reg.nextSvc := by
      rw [heq,putInPlace_nextSvc,hlt]
      exact Nat.lt_succ_self _
    obtain ⟨h2,hk2⟩ := tidy_setConsumer (d := d) h1 hlt1 fun p hp =>
      Nat.lt_trans (h.below p (hr.known.consumer p hp)) hlt1
    exact ⟨h2,hk1.trans hk2⟩

theorem steps_tidy (hs : ReflTransGen LoadStep s s') (h : s.Tidy) : s'.Tidy ∧ Keeps s s' := by
  induction hs with
  | refl => exact ⟨h,.refl s⟩
  | tail _ hs ih =>
    obtain ⟨h1,hk1⟩ := hs.tidy ih.1
    exact ⟨h1,ih.2.trans hk1⟩

end Loader
end Dinit
