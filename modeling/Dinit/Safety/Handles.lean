import Dinit.Control.Handles

namespace Dinit

open Framework

namespace Daemon

/-- The two tables of a connection agree, it listens to the services it has handles for and to no
other, and these are loaded. -/
structure Agrees (d : Daemon) (c : Nat) : Prop where
  both : ∀ t,d.conns c=some t → ∀ h s,(h,s) ∈ t.keyService ↔ (s,h) ∈ t.serviceKey
  listens : ∀ s,c ∈ d.listeners s ↔ ∃ t,d.conns c=some t ∧ ∃ h,(h,s) ∈ t.keyService
  live : ∀ t,d.conns c=some t → ∀ h s,(h,s) ∈ t.keyService → s ∈ d.records

def Consistent (d : Daemon) : Prop := ∀ c,d.Agrees c

/-- The handles that a packet names. -/
def handles : HandlePacket → List Nat
  | .findLoad _ _ => []
  | .use hs => hs
  | .startStop h _ | .closeHandle h | .unload h _ | .reload h _ => [h]

/-- The records that are looked at through the tables. -/
def touched (d : Daemon) : Change → List Nat
  | .connect _ | .load _ => []
  | .disconnect c => (d.conns c).elim [] fun t => t.serviceKey.map Prod.fst
  | .packet c p => (d.conns c).elim [] fun t => (handles p).filterMap t.find

/-- Whatever comes next finds only loaded services, and an event of a service only connections
that are there. -/
structure NoDangling (d : Daemon) : Prop where
  touched : ∀ k,∀ s ∈ d.touched k,s ∈ d.records
  listeners : ∀ s,∀ c ∈ d.listeners s,s ∈ d.records ∧ (d.conns c).isSome

/-- If the connection is the only one that listens to the service of the handle, it has no other
handle for it. -/
def Sole (d : Daemon) (c handle : Nat) : Prop :=
  ∀ t s,d.conns c=some t → t.find handle=some s → d.loneListener s=true →
    ∀ h',(h',s) ∈ t.keyService → h'=handle

/-- A service is unloaded or reloaded only over its only handle. -/
def OverOnlyHandle (d : Daemon) : Change → Prop
  | .packet c (.unload handle free) => free=true → d.Sole c handle
  | .packet c (.reload handle _) => d.Sole c handle
  | _ => True

variable {d d' : Daemon} {c : Nat} {t : Tables}

theorem agrees_iff (hc : d.conns c=some t) : d.Agrees c ↔
    (∀ h s,(h,s) ∈ t.keyService ↔ (s,h) ∈ t.serviceKey) ∧
    (∀ s,c ∈ d.listeners s ↔ ∃ h,(h,s) ∈ t.keyService) ∧
    ∀ h s,(h,s) ∈ t.keyService → s ∈ d.records := by
  have hone : ∀ s,(∃ t',d.conns c=some t' ∧ ∃ h,(h,s) ∈ t'.keyService) ↔
      ∃ h,(h,s) ∈ t.keyService := fun s => by
    rw [hc]
    simp
  constructor
  · intro h
    exact ⟨h.both t hc,fun s => (h.listens s).trans (hone s),h.live t hc⟩
  · rintro ⟨hb,hl,hr⟩
    refine ⟨fun t' ht' => ?_,fun s => (hl s).trans (hone s).symm,fun t' ht' => ?_⟩
    · obtain rfl := Option.some.inj (ht'.symm.trans hc)
      exact hb
    · obtain rfl := Option.some.inj (ht'.symm.trans hc)
      exact hr

theorem agrees_none (hc : d.conns c=none) (hl : ∀ s,c ∉ d.listeners s) : d.Agrees c := by
  constructor
  · intro t ht
    exact nomatch hc.symm.trans ht
  · refine fun s => ⟨fun h => absurd h (hl s),?_⟩
    rintro ⟨t,ht,-⟩
    exact nomatch hc.symm.trans ht
  · intro t ht
    exact nomatch hc.symm.trans ht

/-- A connection that is not concerned goes on agreeing, if what it listens to stays loaded. -/
theorem Agrees.frame (h : d.Agrees c) (hc : d'.conns c=d.conns c)
    (hl : ∀ s,c ∈ d'.listeners s ↔ c ∈ d.listeners s)
    (hr : ∀ s ∈ d.records,c ∈ d.listeners s → s ∈ d'.records) : d'.Agrees c := by
  constructor
  · rw [hc]
    exact h.both
  · intro s
    rw [hl,hc]
    exact h.listens s
  · rw [hc]
    intro t ht k s hs
    exact hr s (h.live t ht k s hs) ((h.listens s).mpr ⟨t,ht,k,hs⟩)

/-- A change to one connection. -/
theorem Consistent.change (h : d.Consistent) (hc : ∀ c',c'≠c → d'.conns c'=d.conns c')
    (hl : ∀ c',c'≠c → ∀ s,c' ∈ d'.listeners s ↔ c' ∈ d.listeners s)
    (hr : ∀ c',c'≠c → ∀ s ∈ d.records,c' ∈ d.listeners s → s ∈ d'.records)
    (hown : d'.Agrees c) : d'.Consistent := by
  intro c'
  by_cases he : c'=c
  · rw [he]
    exact hown
  · exact (h c').frame (hc c' he) (hl c' he) (hr c' he)

/-- A service that is not loaded has no listeners. -/
theorem Consistent.not_listening (h : d.Consistent) {r : Nat} (hr : r ∉ d.records) (c : Nat) :
    c ∉ d.listeners r := fun hc => by
  obtain ⟨t,ht,k,hk⟩ := ((h c).listens r).mp hc
  exact hr ((h c).live t ht k r hk)

theorem Consistent.noDangling (h : d.Consistent) : d.NoDangling := by
  constructor
  · intro k s hs
    cases k with
    | connect c | load r => exact absurd hs List.not_mem_nil
    | disconnect c =>
      cases ht : d.conns c with
      | none => simp [touched,ht] at hs
      | some t =>
        obtain ⟨⟨s',k⟩,hm,rfl⟩ : ∃ e ∈ t.serviceKey,e.1=s := by
          simpa [touched,ht] using hs
        exact (h c).live t ht k s' (((h c).both t ht k s').mpr hm)
    | packet c p =>
      cases ht : d.conns c with
      | none => simp [touched,ht] at hs
      | some t =>
        obtain ⟨k,-,hk⟩ : ∃ k ∈ handles p,t.find k=some s := by
          simpa [touched,ht] using hs
        exact (h c).live t ht k s (Tables.find_mem hk)
  · intro s c hc
    obtain ⟨t,ht,k,hk⟩ := ((h c).listens s).mp hc
    exact ⟨(h c).live t ht k s hk,by rw [ht]; rfl⟩

theorem allocate_consistent (h : d.Consistent) (ht : d.conns c=some t) {r : Nat}
    (hr : r ∈ d.records) (memory : Bool) : (d.allocateServiceHandle c t r memory).Consistent := by
  obtain ⟨hb,hl,hv⟩ := (agrees_iff ht).mp (h c)
  cases memory with
  | false => exact h
  | true =>
    -- the connection is added to the listeners, if it is not there already
    have hmem : ∀ c' s,c' ∈ (d.allocateServiceHandle c t r true).listeners s ↔
        c' ∈ d.listeners s ∨ (c'=c ∧ s=r) := by
      intro c' s
      by_cases hh : t.has r=true
      · obtain ⟨k,hk⟩ := Tables.has_iff.mp hh
        have hin : c ∈ d.listeners r := (hl r).mpr ⟨k,(hb k r).mpr hk⟩
        simp only [allocateServiceHandle,hh,if_true]
        refine ⟨.inl,?_⟩
        rintro (hc' | ⟨rfl,rfl⟩)
        · exact hc'
        · exact hin
      · simp only [allocateServiceHandle,hh,if_true]
        by_cases hs : s=r
        · subst hs
          simp [or_comm]
        · simp [hs]
    refine h.change (c := c) (fun c' hne => Function.update_of_ne hne _ _) (fun c' hne s => ?_)
      (fun c' _ s hs _ => hs) ((agrees_iff (Function.update_self ..)).mpr ⟨?_,?_,?_⟩)
    · rw [hmem]
      exact or_iff_left fun hc' => hne hc'.1
    · intro k s
      rw [Tables.allocate,mem_insertKey,List.mem_cons,hb k s]
      simp [and_comm]
    · intro s
      rw [hmem,hl]
      simp only [Tables.allocate,mem_insertKey,exists_or,true_and]
      rw [or_comm]
      exact or_congr_left ⟨fun hs => ⟨_,by rw [hs]⟩,fun ⟨k,hk⟩ => (Prod.ext_iff.mp hk).2⟩
    · intro k s hk
      rcases (mem_insertKey _).mp hk with he | hk
      · obtain ⟨-,rfl⟩ := Prod.mk.inj he
        exact hr
      · exact hv k s hk

theorem allocate_records (d : Daemon) (c : Nat) (t : Tables) (r : Nat) (memory : Bool) :
    (d.allocateServiceHandle c t r memory).records=d.records := by
  cases memory <;> rfl

theorem checkDependents_consistent (c : Nat) {rs : List (Nat × Bool)} (h : d.Consistent)
    (hr : ∀ r ∈ rs,r.1 ∈ d.records) : (checkDependents c rs d).Consistent := by
  induction rs generalizing d with
  | nil => exact h
  | cons r rs ih =>
    have hrs : ∀ q ∈ rs,q.1 ∈ d.records := fun q hq => hr q (List.mem_cons_of_mem r hq)
    rw [checkDependents]
    cases ht : d.conns c with
    | none => exact ih h hrs
    | some t =>
      refine ih (allocate_consistent h ht (hr r List.mem_cons_self) r.2) ?_
      simp only [Option.elim_some,allocate_records]
      exact hrs

/-- What the tables have on a handle. -/
theorem record_cases (t : Tables) (handle : Nat) :
    (t.record handle=none ∧ t.find handle=none) ∨
      ∃ s hs,t.record handle=some ⟨s,hs⟩ ∧ t.find handle=some s := by
  unfold Tables.record
  split
  · next hf => exact .inl ⟨rfl,hf⟩
  · next s hf => exact .inr ⟨s,Tables.find_mem hf,rfl,hf⟩

theorem close_both {handle s : Nat} (hs : (handle,s) ∈ t.keyService)
    (hb : ∀ h s,(h,s) ∈ t.keyService ↔ (s,h) ∈ t.serviceKey) (k s' : Nat) :
    (k,s') ∈ (t.close handle s hs).keyService ↔ (s',k) ∈ (t.close handle s hs).serviceKey := by
  refine ⟨fun hk => ?_,(t.close handle s hs).back s' k⟩
  obtain ⟨hk,hne⟩ := Tables.mem_eraseKey.mp hk
  exact t.nodup.mem_erase_iff.mpr ⟨fun he => hne (Prod.ext_iff.mp he).2,(hb k s').mp hk⟩

/-- Giving up a handle leaves those for other services. -/
theorem eraseKey_other {handle s s' : Nat} (hs : (handle,s) ∈ t.keyService) (hne : s'≠s) (k : Nat) :
    (k,s') ∈ t.eraseKey handle ↔ (k,s') ∈ t.keyService := by
  refine Tables.mem_eraseKey.trans (and_iff_left_of_imp fun hk he => ?_)
  rw [he] at hk
  exact hne (Tables.unique hk hs)

theorem mem_released {c' s s' : Nat} : c' ∈ d.released c t s s' ↔
    c' ∈ d.listeners s' ∧ (c'=c → s'=s → t.has s=true) := by
  unfold released
  split
  · next hh => simp [hh]
  · next hh =>
    by_cases hs : s'=s
    · subst hs
      simp [hh,and_comm]
    · simp [hs]

theorem closeHandle_consistent (h : d.Consistent) (ht : d.conns c=some t) (handle : Nat) :
    (d.processCloseHandle c t handle).Consistent := by
  obtain ⟨hb,hl,hv⟩ := (agrees_iff ht).mp (h c)
  rcases record_cases t handle with ⟨hnone,-⟩ | ⟨s,hs,hrec,-⟩
  · rw [processCloseHandle,hnone]
    exact h
  rw [processCloseHandle,hrec]
  have hb' := close_both hs hb
  refine h.change (c := c) (fun c' hne => Function.update_of_ne hne _ _) (fun c' hne s' => ?_)
    (fun c' _ s' hs' _ => hs') ((agrees_iff (Function.update_self ..)).mpr ⟨hb',fun s' => ?_,?_⟩)
  · exact mem_released.trans (and_iff_left fun he => absurd he hne)
  · -- the connection goes on listening just if it has another handle for the service
    rw [mem_released,hl]
    by_cases hs' : s'=s
    · subst hs'
      rw [Tables.has_iff]
      simp only [← hb',forall_const]
      exact and_iff_right ⟨handle,hs⟩
    · rw [and_iff_left fun _ he => absurd he hs']
      exact exists_congr fun k => (eraseKey_other hs hs' k).symm
  · intro k s' hk
    exact hv k s' (Tables.mem_eraseKey.mp hk).1

/-- The tables still agree after `forget` just if the service had no other handle. -/
theorem forget_both_iff {handle s : Nat} (hs : (handle,s) ∈ t.keyService)
    (hb : ∀ h s,(h,s) ∈ t.keyService ↔ (s,h) ∈ t.serviceKey) :
    (∀ k s',(k,s') ∈ (t.forget handle s hs).keyService ↔
      (s',k) ∈ (t.forget handle s hs).serviceKey) ↔
    ∀ k,(k,s) ∈ t.keyService → k=handle := by
  constructor
  · intro hall k hk
    by_contra hne
    have hm := (hall k s).mp (Tables.mem_eraseKey.mpr ⟨hk,hne⟩)
    exact bne_iff_ne.mp (List.mem_filter.mp hm).2 rfl
  · intro hone k s'
    refine ⟨fun hk => ?_,(t.forget handle s hs).back s' k⟩
    obtain ⟨hk,hne⟩ := Tables.mem_eraseKey.mp hk
    refine List.mem_filter.mpr ⟨(hb k s').mp hk,bne_iff_ne.mpr fun he => hne ?_⟩
    exact hone k (he ▸ hk)

theorem Consistent.only_listener (h : d.Consistent) (ht : d.conns c=some t) {handle s : Nat}
    (hs : (handle,s) ∈ t.keyService) (hone : d.loneListener s=true) : d.listeners s={c} := by
  obtain ⟨a,ha⟩ := Finset.card_eq_one.mp (eq_of_beq hone)
  have hc : c ∈ d.listeners s := ((h c).listens s).mpr ⟨t,ht,handle,hs⟩
  rw [ha,Finset.mem_singleton] at hc
  rw [ha,hc]

/-- After the service of a handle has been given up with all its listeners, there being only one. -/
theorem forget_consistent_iff (h : d.Consistent) (ht : d.conns c=some t) {handle s : Nat}
    (hs : (handle,s) ∈ t.keyService) (hone : d.loneListener s=true)
    (hc : d'.conns=Function.update d.conns c (some (t.forget handle s hs)))
    (hl : ∀ c' s',c' ∈ d'.listeners s' ↔ c' ∈ d.listeners s' ∧ s'≠s)
    (hr : ∀ s' ∈ d.records,s'≠s → s' ∈ d'.records) :
    d'.Consistent ↔ ∀ k,(k,s) ∈ t.keyService → k=handle := by
  obtain ⟨hb,hlis,hv⟩ := (agrees_iff ht).mp (h c)
  have hsing := h.only_listener ht hs hone
  have hself : d'.conns c=some (t.forget handle s hs) := by rw [hc,Function.update_self]
  have hothers : ∀ c',c'≠c → ∀ s',c' ∈ d.listeners s' → s'≠s := by
    rintro c' hne s' hc' rfl
    rw [hsing] at hc'
    exact hne (Finset.mem_singleton.mp hc')
  constructor
  · intro h'
    exact (forget_both_iff hs hb).mp ((agrees_iff hself).mp (h' c)).1
  · intro hall
    refine h.change (c := c) (fun c' hne => ?_) (fun c' hne s' => ?_) (fun c' hne s' hs' hc' => ?_)
      ((agrees_iff hself).mpr ⟨(forget_both_iff hs hb).mpr hall,fun s' => ?_,fun k s' hk => ?_⟩)
    · rw [hc,Function.update_of_ne hne]
    · rw [hl]
      exact and_iff_left_of_imp (hothers c' hne s')
    · exact hr s' hs' (hothers c' hne s' hc')
    · rw [hl,hlis]
      by_cases hs' : s'=s
      · refine ⟨fun hm => absurd hs' hm.2,?_⟩
        rintro ⟨k,hk⟩
        obtain ⟨hk,hne⟩ := Tables.mem_eraseKey.mp hk
        exact absurd (hall k (hs' ▸ hk)) hne
      · rw [and_iff_left hs']
        exact exists_congr fun k => (eraseKey_other hs hs' k).symm
    · obtain ⟨hk,hne⟩ := Tables.mem_eraseKey.mp hk
      exact hr s' (hv k s' hk) fun he => hne (hall k (he ▸ hk))

theorem sole_of_none (ht : d.conns c=some t) {handle : Nat} (hf : t.find handle=none) :
    d.Sole c handle := by
  intro t' s ht' hf'
  rw [← Option.some.inj (ht.symm.trans ht'),hf] at hf'
  exact nomatch hf'

theorem sole_iff (ht : d.conns c=some t) {handle s : Nat} (hf : t.find handle=some s) :
    d.Sole c handle ↔ (d.loneListener s=true → ∀ k,(k,s) ∈ t.keyService → k=handle) := by
  refine ⟨fun h => h t s ht hf,fun h t' s' ht' hf' => ?_⟩
  obtain rfl := Option.some.inj (ht.symm.trans ht')
  obtain rfl := Option.some.inj (hf.symm.trans hf')
  exact h

theorem unload_consistent_iff (h : d.Consistent) (ht : d.conns c=some t) (handle : Nat)
    (free : Bool) :
    (d.processUnloadService c t handle free).Consistent ↔ (free=true → d.Sole c handle) := by
  rcases record_cases t handle with ⟨hnone,hf⟩ | ⟨s,hs,hrec,hf⟩
  · rw [processUnloadService,hnone]
    exact iff_of_true h fun _ => sole_of_none ht hf
  rw [processUnloadService,hrec,sole_iff ht hf]
  by_cases hgo : d.loneListener s=true ∧ free=true
  · obtain ⟨hone,hfree⟩ := hgo
    simp only [hone,hfree,Bool.and_self,if_true,forall_const]
    refine forget_consistent_iff h ht hs hone rfl (fun c' s' => ?_) fun s' hs' hne =>
      Finset.mem_erase.mpr ⟨hne,hs'⟩
    by_cases hs' : s'=s
    · simp [hs']
    · simp [hs']
  · dsimp only
    rw [if_neg (by rwa [Bool.and_eq_true])]
    exact iff_of_true h fun hfree hone => absurd ⟨hone,hfree⟩ hgo

theorem reload_consistent_iff (h : d.Consistent) (ht : d.conns c=some t) (handle : Nat)
    (result : Reload) (hnew : ∀ r,result=.replaced r → r ∉ d.records) :
    (d.processReloadService c t handle result).Consistent ↔ d.Sole c handle := by
  rcases record_cases t handle with ⟨hnone,hf⟩ | ⟨s,hs,hrec,hf⟩
  · rw [processReloadService,hnone]
    exact iff_of_true h (sole_of_none ht hf)
  rw [processReloadService,hrec,sole_iff ht hf]
  by_cases hone : d.loneListener s=true
  · simp only [hone,if_true,forall_const]
    have hsing := h.only_listener ht hs hone
    have hdrop : ∀ c' s',c' ∈ Function.update d.listeners s ((d.listeners s).erase c) s' ↔
        c' ∈ d.listeners s' ∧ s'≠s := by
      intro c' s'
      by_cases hs' : s'=s
      · simp [hs',hsing]
      · simp [hs']
    cases result with
    | failed => exact forget_consistent_iff h ht hs hone rfl hdrop fun s' hs' _ => hs'
    | kept => exact forget_consistent_iff h ht hs hone rfl hdrop fun s' hs' _ => hs'
    | replaced r =>
      -- the new record has no listeners, and so has a record that is not loaded
      have hr := hnew r rfl
      refine forget_consistent_iff h ht hs hone rfl (fun c' s' => ?_) fun s' hs' hne =>
        Finset.mem_insert_of_mem (Finset.mem_erase.mpr ⟨hne,hs'⟩)
      by_cases hs' : s'=r
      · subst hs'
        simp [reloadService,h.not_listening hr c']
      · by_cases he : s'=s
        · subst he
          simp [reloadService,hs']
        · simp [reloadService,hs',he]
  · dsimp only
    rw [if_neg hone]
    exact iff_of_true h fun hone' => absurd hone' hone

theorem process_consistent_iff (h : d.Consistent) (ht : d.conns c=some t) {p : HandlePacket}
    (hp : d.possible p=true) :
    (d.process c t p).Consistent ↔ d.OverOnlyHandle (.packet c p) := by
  cases p with
  | findLoad found memory =>
    refine iff_of_true ?_ trivial
    cases found with
    | none => exact h
    | some r => exact allocate_consistent h ht (of_decide_eq_true hp) memory
  | startStop handle rs =>
    refine iff_of_true ?_ trivial
    have hrs : ∀ r ∈ rs,r.1 ∈ d.records := by simpa [possible] using hp
    rw [process]
    split
    · exact checkDependents_consistent c h hrs
    · exact h
  | use hs => exact iff_of_true h trivial
  | closeHandle handle => exact iff_of_true (closeHandle_consistent h ht handle) trivial
  | unload handle free => exact unload_consistent_iff h ht handle free
  | reload handle result =>
    refine reload_consistent_iff h ht handle result fun r hr => ?_
    rw [hr] at hp
    exact of_decide_eq_true hp

theorem connect_consistent (h : d.Consistent) (hc : d.conns c=none) :
    ({ d with conns := Function.update d.conns c (some .empty) } : Daemon).Consistent := by
  refine h.change (c := c) (fun c' hne => Function.update_of_ne hne _ _) (fun _ _ _ => Iff.rfl)
    (fun _ _ _ hs _ => hs) ((agrees_iff (Function.update_self ..)).mpr ⟨?_,?_,?_⟩)
  · exact fun k s => ⟨fun hk => absurd hk List.not_mem_nil,fun hk => absurd hk List.not_mem_nil⟩
  · intro s
    refine ⟨fun hm => ?_,fun ⟨k,hk⟩ => absurd hk List.not_mem_nil⟩
    obtain ⟨t,ht,-⟩ := ((h c).listens s).mp hm
    exact nomatch hc.symm.trans ht
  · exact fun k s hk => absurd hk List.not_mem_nil

theorem disconnect_consistent (h : d.Consistent) (ht : d.conns c=some t) :
    ({ d with
      listeners := fun s => if t.has s then (d.listeners s).erase c else d.listeners s
      conns := Function.update d.conns c none } : Daemon).Consistent := by
  obtain ⟨hb,hl,-⟩ := (agrees_iff ht).mp (h c)
  refine h.change (c := c) (fun c' hne => Function.update_of_ne hne _ _) (fun c' hne s => ?_)
    (fun _ _ _ hs _ => hs) (agrees_none (Function.update_self ..) fun s hm => ?_)
  · show c' ∈ (if t.has s then (d.listeners s).erase c else d.listeners s) ↔ _
    split
    · exact Finset.mem_erase.trans (and_iff_right hne)
    · exact Iff.rfl
  · dsimp only at hm
    split at hm
    · exact (Finset.mem_erase.mp hm).1 rfl
    · next hno =>
      obtain ⟨k,hk⟩ := (hl s).mp hm
      exact hno (Tables.has_iff.mpr ⟨k,(hb k s).mp hk⟩)

theorem load_consistent (h : d.Consistent) {r : Nat} (hr : r ∉ d.records) :
    ({ d with
      records := insert r d.records
      listeners := Function.update d.listeners r ∅ } : Daemon).Consistent := by
  refine fun c => (h c).frame rfl (fun s => ?_) fun s hs _ => Finset.mem_insert_of_mem hs
  by_cases hs : s=r
  · simp [hs,h.not_listening hr c]
  · simp [hs]

theorem step_consistent_iff (h : d.Consistent) {k : Change} (hk : d.step k=some d') :
    d'.Consistent ↔ d.OverOnlyHandle k := by
  cases k with
  | connect c =>
    rw [step] at hk
    split at hk
    · next hc =>
      obtain rfl := Option.some.inj hk
      exact iff_of_true (connect_consistent h (Option.isNone_iff_eq_none.mp hc)) trivial
    · exact nomatch hk
  | disconnect c =>
    obtain ⟨t,ht,rfl⟩ := Option.map_eq_some_iff.mp hk
    exact iff_of_true (disconnect_consistent h ht) trivial
  | load r =>
    rw [step] at hk
    split at hk
    · exact nomatch hk
    · next hr =>
      obtain rfl := Option.some.inj hk
      exact iff_of_true (load_consistent h hr) trivial
  | packet c p =>
    obtain ⟨t,ht,hk⟩ := Option.bind_eq_some_iff.mp hk
    split at hk
    · next hp =>
      obtain rfl := Option.some.inj hk
      exact process_consistent_iff h ht hp
    · exact nomatch hk

theorem initial_consistent : initial.Consistent := fun _ =>
  agrees_none rfl fun _ => Finset.notMem_empty _

/-- The handle tables stay consistent, and with them no record is looked at that is not loaded,
just if services are unloaded and reloaded only over their only handle. -/
theorem handles_consistent_iff (ks : List Change) :
    (∀ js d,js <+: ks → runs step initial js=some d → d.Consistent ∧ d.NoDangling) ↔
      Along step OverOnlyHandle initial ks := by
  refine good_iff_along (I := fun _ => True) (fun _ _ _ _ _ => trivial) (fun d k d' _ h hk => ?_)
    trivial ⟨initial_consistent,initial_consistent.noDangling⟩ ks
  have hiff := step_consistent_iff h.1 hk
  exact ⟨fun h' => hiff.mp h'.1,fun hover => ⟨hiff.mpr hover,(hiff.mpr hover).noDangling⟩⟩

/-- A service is found twice and unloaded: the connection keeps a handle for what is gone. -/
theorem handle_left_dangling : ∃ d,
    runs step initial [.connect 0,.load 7,.packet 0 (.findLoad (some 7) true),
      .packet 0 (.findLoad (some 7) true),.packet 0 (.unload 1 true)]=some d ∧
    ¬d.Consistent ∧ ¬d.NoDangling ∧ 7 ∈ d.touched (.packet 0 (.use [0])) ∧ 7 ∉ d.records := by
  obtain ⟨d,hd,ht,hr⟩ : ∃ d,runs step initial [.connect 0,.load 7,
      .packet 0 (.findLoad (some 7) true),.packet 0 (.findLoad (some 7) true),
      .packet 0 (.unload 1 true)]=some d ∧ 7 ∈ d.touched (.packet 0 (.use [0])) ∧ 7 ∉ d.records :=
    ⟨_,rfl,by decide,by decide⟩
  have hno : ¬d.NoDangling := fun h => hr (h.touched _ 7 ht)
  exact ⟨d,hd,fun h => hno h.noDangling,hno,ht,hr⟩

end Daemon

end Dinit
