import Mathlib.Data.List.TakeWhile
import Dinit.Control.EnvLayers
import Dinit.Control.EnvSets
import Dinit.Safety.HashSet

namespace Dinit.HashSet

open Framework

variable {α : Type} {k : Keyed α} {s s' : HashSet α} {v w : α} {p : Nat × Nat}
  {r r' : HashSet α × Set α} {o : Op α}

def stored (s : HashSet α) : Nat := s.buckets.flatten.length

/-- The counter counts what is stored, and more buckets are made when it has reached the limit. -/
structure Exact (k : Keyed α) (s : HashSet α) : Prop where
  size : s.size=s.stored
  empty : s.empty=true ↔ s.stored=0
  doubled : ∀ v s' p isNew,doInsert k s v=.ok (s',p,isNew) → s.buckets≠[] →
    s.buckets.length < s'.buckets.length → s.currentLimit≤ s.stored

/-- No element is taken out, other than by `clear`, and there is room on the counter for those
that are stored. -/
def Lasting (k : Keyed α) (r : HashSet α × Set α) (o : Op α) : Prop :=
  (∀ v,o=.erase v → ∀ x∈r.2,k.keyEqualF x v=false) ∧ (∀ p,o≠.eraseAt p) ∧
    ∀ v,o=.insert v → (∀ x∈r.2,k.keyEqualF x v=false) → r.1.stored+1 < 2^64

/-- The buckets and the limit after a new element -/
theorem doInsert_room (h : doInsert k s v=.ok (s',p,true)) :
    s.buckets=[] ∧ s'.buckets.length=4 ∧ s'.currentLimit=3 ∨
    s.buckets≠[] ∧ ∃ s₁,expand k s=.ok s₁ ∧ s'.buckets.length=s₁.buckets.length ∧
      s'.currentLimit=s₁.currentLimit := by
  unfold doInsert at h
  split at h
  · next he =>
    cases h
    exact .inl ⟨List.isEmpty_iff.mp he,Buckets.length_put,rfl⟩
  · next he =>
    refine .inr ⟨fun hnil => he (by rw [hnil]; rfl),?_⟩
    split at h
    · cases h
    · obtain ⟨s₁,hexp,hins⟩ := map_eq_ok.mp h
      cases hins
      exact ⟨s₁,hexp,Buckets.length_put,rfl⟩

/-- More buckets are made only at the limit. -/
theorem currentLimit_le_of_grown {isNew : Bool} (hs : Sound k s)
    (h : doInsert k s v=.ok (s',p,isNew)) (hne : s.buckets≠[])
    (hlt : s.buckets.length < s'.buckets.length) : s.currentLimit≤ s.currentSize := by
  obtain ⟨q,x,hins,-⟩ | ⟨-,s₂,q,hins,-⟩ := doInsert_ok hs v
  · rw [hins] at h
    cases h
    omega
  · rw [h] at hins
    cases hins
    obtain ⟨hnil,-⟩ | ⟨-,s₁,hexp,hlen,-⟩ := doInsert_room h
    · exact absurd hnil hne
    · obtain ⟨s₃,hexp',-,-,hsame,-⟩ := expand_ok hs hne
      rw [hexp] at hexp'
      cases hexp'
      by_contra hge
      rw [hlen,hsame (by omega)] at hlt
      omega

theorem exact_iff_size (hs : Sound k s) : Exact k s ↔ s.currentSize=s.stored := by
  constructor
  · intro h
    exact h.size
  · intro h
    refine ⟨h,?_,fun v s' p isNew hins hne hlt => ?_⟩
    · simp only [empty,decide_eq_true_eq,h]
    · rw [← h]
      exact currentLimit_le_of_grown hs hins hne hlt

/-- How many are stored, after an element is taken out -/
theorem stored_remove {x : α} (h : s.buckets.elem p=some x) :
    stored {s with buckets := s.buckets.remove p}+1=s.stored := by
  have hlen := (Buckets.perm_remove h).length_eq
  rwa [List.length_cons] at hlen

/-- One call keeps the count exact just if it takes no element out. -/
theorem exact_step (hs : Stands k r) (he : Exact k r.1) (h : step k r o=some r') :
    Exact k r'.1 ↔ Lasting k r o := by
  rw [exact_iff_size (stands_step hs h).sound]
  have hsize := (exact_iff_size hs.sound).mp he
  obtain ⟨hc,-⟩ := changed_of_step hs h
  generalize r'.1=s' at hc
  cases hc with
  | @added v p _ hv hadd =>
    have hlen := hadd.perm.length_eq
    rw [List.length_cons] at hlen
    have hstored : s'.stored=r.1.stored+1 := hlen
    have hnew : ∀ x∈r.2,k.keyEqualF x v=false := fun x hx => hv x ((hs.mem x).mpr hx)
    rw [hadd.currentSize,hsize,hstored]
    constructor
    · intro heq
      have hlt := Nat.mod_lt (r.1.stored+1) (Nat.two_pow_pos 64)
      rw [heq] at hlt
      exact ⟨nofun,nofun,fun u _ _ => hlt⟩
    · intro hl
      exact Nat.mod_eq_of_lt (hl.2.2 v rfl hnew)
  | @present v x hx heq =>
    refine iff_of_true hsize ⟨nofun,nofun,fun u hu hnew => ?_⟩
    cases hu
    rw [hnew x ((hs.mem x).mp hx)] at heq
    cases heq
  | @erased v x p hx heq =>
    have hlen := stored_remove hx
    refine iff_of_false (fun h0 => ?_) fun hl => ?_
    · dsimp only at h0
      omega
    · rw [hl.1 v rfl x ((hs.mem x).mp (Buckets.elem_mem_flatten hx))] at heq
      cases heq
  | @absent v hv =>
    refine iff_of_true hsize ⟨fun u hu x hx => ?_,nofun,nofun⟩
    cases hu
    exact hv x ((hs.mem x).mpr hx)
  | @erasedAt x p hx =>
    have hlen := stored_remove hx
    refine iff_of_false (fun h0 => ?_) fun hl => hl.2.1 p rfl
    dsimp only at h0
    omega
  | rehashed hre =>
    have hlen := hre.perm.length_eq
    refine iff_of_true ?_ ⟨nofun,nofun,nofun⟩
    rw [hre.currentSize,hsize]
    exact hlen.symm
  | cleared =>
    exact iff_of_true rfl ⟨nofun,nofun,nofun⟩

/-- The buckets of a set that has not been asked for more of them: there are not many more than
were counted, and they are doubled when the counter has reached three quarters of them. -/
structure Tidy (s : HashSet α) : Prop where
  few : s.buckets.length*3≤ max 12 (8*s.currentSize)
  limit : s.buckets=[] ∧ s.currentSize=0 ∨
    (∃ m,0 < m ∧ s.buckets.length=4*m ∧ s.currentLimit=3*m ∧ s.currentSize≤3*m) ∨
    s.currentLimit=2^64-1 ∧ maxSize/2 < s.buckets.length

theorem tidy_new : Tidy ({} : HashSet α) := ⟨Nat.zero_le _,.inl ⟨rfl,rfl⟩⟩

theorem minBuckets_eq {m : Nat} (h : s.currentSize=3*m) (hm : 4*m≤ maxSize/2) : s.minBuckets=4*m := by
  have hmax : maxSize=384307168202282325 := by decide
  unfold minBuckets bucketsToMax
  rw [if_neg (by dsimp only; omega)]
  dsimp only
  omega

/-- One more element, where there is room for it on the counter -/
theorem Tidy.added (ht : Tidy s) (hs : Sound k s) (h : doInsert k s v=.ok (s',p,true))
    (hsize : s'.currentSize=s.currentSize+1) (hlt : s.currentSize+1 < 2^64) : Tidy s' := by
  have hmax : maxSize=384307168202282325 := by decide
  have hfew := ht.few
  obtain ⟨hnil,hlen,hlim⟩ | ⟨hne,s₁,hexp,hlen,hlim⟩ := doInsert_room h
  · have hzero : s.currentSize=0 := by
      obtain ⟨-,h0⟩ | ⟨m,hm,hl,-⟩ | ⟨-,hl⟩ := ht.limit
      · exact h0
      · rw [hnil,List.length_nil] at hl
        omega
      · rw [hnil,List.length_nil] at hl
        omega
    exact ⟨by omega,.inr (.inl ⟨1,by omega,hlen,hlim,by omega⟩)⟩
  · obtain ⟨s₂,hexp',-,-,hsame,hdouble,hover⟩ := expand_ok hs hne
    rw [hexp] at hexp'
    cases hexp'
    obtain ⟨hnil,-⟩ | ⟨m,hm,hl,hli,hsz⟩ | ⟨hli,hl⟩ := ht.limit
    · exact absurd hnil hne
    · obtain hroom | hfull := Nat.lt_or_ge s.currentSize s.currentLimit
      · rw [hsame hroom] at hlen hlim
        exact ⟨by omega,.inr (.inl ⟨m,hm,by omega,by omega,by omega⟩)⟩
      · by_cases hhalf : s.buckets.length≤ maxSize/2
        · obtain ⟨hlen₁,hlim₁⟩ := hdouble hfull hhalf
          rw [minBuckets_eq (m := m) (by omega) (by omega)] at hlen₁
          rw [Nat.mod_eq_of_lt (by omega)] at hlim₁
          exact ⟨by omega,.inr (.inl ⟨2*m,by omega,by omega,by omega,by omega⟩)⟩
        · rw [hover hfull hhalf] at hlen hlim
          dsimp only at hlen hlim
          exact ⟨by omega,.inr (.inr ⟨hlim,by omega⟩)⟩
    · rw [hsame (by omega)] at hlen hlim
      exact ⟨by omega,.inr (.inr ⟨by omega,by omega⟩)⟩

theorem tidy_step (hs : Stands k r) (ht : Tidy r.1) (h : step k r o=some r') (hc : Counted k r o)
    (ho : ∀ n,o≠.rehash n) : Tidy r'.1 := by
  have hremove : ∀ p,Tidy {r.1 with buckets := r.1.buckets.remove p} := fun p => by
    refine ⟨?_,?_⟩
    · dsimp only
      rw [Buckets.length_remove]
      exact ht.few
    · dsimp only
      rw [Buckets.length_remove]
      refine ht.limit.imp_left fun hnil => ⟨?_,hnil.2⟩
      rw [hnil.1]
      exact List.modify_nil ..
  obtain ⟨s',hs',rfl⟩ := Option.map_eq_some_iff.mp h
  cases o with
  | insert v =>
    obtain ⟨p,x,hins,-⟩ | ⟨hv,s₁,p,hins,hadd⟩ := doInsert_ok hs.sound v
    · simp only [apply,hins] at hs'
      cases hs'
      exact ht
    · simp only [apply,hins] at hs'
      cases hs'
      have hlt := hc v rfl fun x hx => hv x ((hs.mem x).mpr hx)
      have hsize := hadd.currentSize
      rw [Nat.mod_eq_of_lt hlt] at hsize
      exact ht.added hs.sound hins hsize hlt
  | erase v =>
    cases hs'
    unfold erase
    cases find k r.1 v with
    | none => exact ht
    | some p => exact hremove p
  | eraseAt p =>
    obtain ⟨x,-,rfl⟩ := Option.map_eq_some_iff.mp hs'
    exact hremove p
  | rehash n => exact absurd rfl (ho n)
  | clear =>
    cases hs'
    exact tidy_new

theorem tidy_runs {os : List (Op α)} (hs : Stands k r) (ht : Tidy r.1)
    (ho : ∀ o∈os,∀ n,o≠.rehash n) (hc : Along (step k) (Counted k) r os)
    (h : runs (step k) r os=some r') : Tidy r'.1 := by
  induction os generalizing r with
  | nil =>
    cases h
    exact ht
  | cons o os ih =>
    obtain ⟨r₁,hstep,hrest⟩ := runs_cons.mp h
    obtain ⟨hco,hcs⟩ := hc r₁ hstep
    have ht₁ := tidy_step hs ht hstep hco (ho o (List.mem_cons_self ..))
    exact ih (stands_step hs hstep) ht₁ (fun o' hmem => ho o' (List.mem_cons_of_mem _ hmem)) hcs hrest

theorem Lasting.counted (h : Lasting k r o) (hs : Stands k r) (he : Exact k r.1) : Counted k r o := by
  intro v hv hnew
  rw [(exact_iff_size hs.sound).mp he]
  exact h.2.2 v hv hnew

theorem exact_runs {os : List (Op α)} (hs : Stands k r) (he : Exact k r.1)
    (hl : Along (step k) (Lasting k) r os) :
    Along (step k) (Counted k) r os ∧ ∀ r',runs (step k) r os=some r' → Exact k r'.1 := by
  induction os generalizing r with
  | nil =>
    refine ⟨trivial,fun r' h => ?_⟩
    cases h
    exact he
  | cons o os ih =>
    refine ⟨fun r₁ hstep => ?_,fun r' h => ?_⟩
    · obtain ⟨hlo,hls⟩ := hl r₁ hstep
      have he₁ := (exact_step hs he hstep).mpr hlo
      exact ⟨hlo.counted hs he,(ih (stands_step hs hstep) he₁ hls).1⟩
    · obtain ⟨r₁,hstep,hrest⟩ := runs_cons.mp h
      obtain ⟨hlo,hls⟩ := hl r₁ hstep
      have he₁ := (exact_step hs he hstep).mpr hlo
      exact (ih (stands_step hs hstep) he₁ hls).2 r' hrest

theorem exact_new (k : Keyed α) : Exact k {} := (exact_iff_size sound_new).mpr rfl

/-- Throughout a run from a new set the count is exact just if nothing is erased and the counter
has room for all that is stored. Then there are not many more buckets than elements, unless the
set has been asked for them. -/
theorem exact_along (k : Keyed α) (os : List (Op α)) :
    ((∀ js r,js <+: os → runs (step k) ({},∅) js=some r → Exact k r.1) ↔
      Along (step k) (Lasting k) ({},∅) os) ∧
    (Along (step k) (Lasting k) ({},∅) os → (∀ o∈os,∀ n,o≠.rehash n) →
      ∀ r,runs (step k) ({},∅) os=some r → r.1.buckets.length*3≤ max 12 (8*r.1.stored)) := by
  refine ⟨good_iff_along (fun _ _ _ => stands_step) (fun _ _ _ => exact_step) stands_new
    (exact_new k) os,fun hl ho r h => ?_⟩
  obtain ⟨hc,he⟩ := exact_runs stands_new (exact_new k) hl
  have ht := tidy_runs stands_new tidy_new ho hc h
  have hsize : r.1.currentSize=r.1.stored := (he r h).size
  rw [← hsize]
  exact ht.few

theorem along_rounds (hs : Stands k r) (hvw : k.keyEqualF v w=true) (hr : ∀ x,x∉r.2) {n : Nat}
    (hn : r.1.currentSize+n < 2^64) : Along (step k) (Counted k) r (rounds v w n) := by
  induction n generalizing r with
  | zero => exact trivial
  | succ n ih =>
    obtain ⟨r₁,r₂,h₁,h₂,hsize,hs₂,hr₂⟩ := step_round hs hvw hr
    intro t₁ ht₁
    cases h₁.symm.trans ht₁
    refine ⟨fun _ _ _ => by omega,fun t₂ ht₂ => ?_⟩
    cases h₂.symm.trans ht₂
    rw [Nat.mod_eq_of_lt (by omega)] at hsize
    exact ⟨nofun,ih hs₂ hr₂ (by omega)⟩

theorem rounds_no_rehash {n : Nat} : ∀ o∈rounds v w n,∀ m,o≠.rehash m := by
  induction n with
  | zero =>
    intro o ho
    cases ho
  | succ n ih =>
    intro o ho
    obtain rfl | ho := List.mem_cons.mp ho
    · exact nofun
    · obtain rfl | ho := List.mem_cons.mp ho
      · exact nofun
      · exact ih o ho

/-- Buckets are made for elements that are put in and taken out, although nothing is stored. -/
theorem buckets_of_rounds (hvw : k.keyEqualF v w=true) {n : Nat} (hn : n < 2^64) :
    ∃ r,runs (step k) ({},∅) (rounds v w n)=some r ∧ r.1.stored=0 ∧ r.1.size=n ∧
      (4*n≤3*r.1.buckets.length ∨ maxSize/2 < r.1.buckets.length) := by
  have hempty : ∀ x : α,x∉(({},∅) : HashSet α × Set α).2 := fun _ hx => hx
  have hzero : (({},∅) : HashSet α × Set α).1.currentSize=0 := rfl
  obtain ⟨r,hs,hr,hsize,hruns⟩ := runs_rounds stands_new hvw hempty n
  have hrun := hruns []
  rw [List.append_nil] at hrun
  rw [hzero,Nat.zero_add,Nat.mod_eq_of_lt hn] at hsize
  have halong := along_rounds stands_new hvw hempty (by rw [hzero]; omega) (n := n)
  have ht := tidy_runs stands_new tidy_new rounds_no_rehash halong hrun
  refine ⟨r,hrun,?_,hsize,?_⟩
  · have hnil : r.1.buckets.flatten=[] :=
      List.eq_nil_iff_forall_not_mem.mpr fun x hx => hr x ((hs.mem x).mp hx)
    exact List.length_eq_zero_iff.mpr hnil
  · obtain ⟨hnil,h0⟩ | ⟨m,-,hlen,-,hle⟩ | ⟨-,hlen⟩ := ht.limit
    · exact .inl (by omega)
    · exact .inl (by omega)
    · exact .inr hlen

/-- One element is put in and taken out: the count is one, and nothing is stored. When that has
been done 2^40 times, there are more than 2^40 buckets. -/
theorem exact_not_always :
    (∃ r,runs (step plainKeys) ({},∅) [.insert 0,.erase 0]=some r ∧ r.1.size=1 ∧ r.1.stored=0 ∧
      r.1.empty=false ∧ ¬Exact plainKeys r.1) ∧
    ∃ r,runs (step plainKeys) ({},∅) (rounds 0 0 (2^40))=some r ∧ r.1.stored=0 ∧
      2^40 < r.1.buckets.length := by
  constructor
  · obtain ⟨r,hrun,hstored,hsize,-⟩ := buckets_of_rounds (plainKeys.refl 0) (n := 1) (by decide)
    have hne : r.1.currentSize≠0 := fun h0 => by
      rw [size,h0] at hsize
      cases hsize
    refine ⟨r,hrun,hsize,hstored,decide_eq_false hne,fun he => ?_⟩
    have heq := he.size
    rw [hsize,hstored] at heq
    cases heq
  · obtain ⟨r,hrun,hstored,-,hlen⟩ := buckets_of_rounds (plainKeys.refl 0) (n := 2^40) (by decide)
    refine ⟨r,hrun,hstored,?_⟩
    have hmax : maxSize=384307168202282325 := by decide
    omega

end Dinit.HashSet

namespace Dinit.EnvSets

open Framework HashSet

variable {hash : List UInt8 → Nat} {e : EnvSets} {n : EnvName} {value : List UInt8}
  {t : Set (List UInt8)}

/-- A variable is set, and unset, again and again. -/
def pairs (n : EnvName) (value : List UInt8) : Nat → List (List UInt8)
  | 0 => []
  | m+1 => n.setting value::n.bytes::pairs n value m

theorem keyEqualF_setting (n : EnvName) (value : List UInt8) :
    (envSet hash).keyEqualF (n.setting value) n.bytes=true := by
  have hname : varName n.bytes=n.bytes := List.takeWhile_eq_self_iff.mpr fun c hc =>
    bne_iff_ne.mpr fun heq => n.noEq (by rwa [← heq])
  have heq : varName (n.setting value)=varName n.bytes := by rw [n.varName_setting,hname]
  exact beq_iff_eq.mpr heq

theorem setenv_setting (hash : List UInt8 → Nat) (e : EnvSets) (n : EnvName) (value : List UInt8) :
    e.setenv hash (n.setting value)=e.setVar hash (n.setting value) := by
  have hmem : 61∈n.setting value := List.mem_append_right _ (List.mem_cons_self ..)
  have hhead : (n.setting value).head?≠some 61 := by
    unfold EnvName.setting
    cases hb : n.bytes with
    | nil => exact absurd hb n.ne
    | cons c cs =>
      intro heq
      have hc := n.noEq
      rw [hb,Option.some.inj heq] at hc
      exact hc (List.mem_cons_self ..)
  unfold setenv
  rw [if_neg (not_not.mpr hmem),if_neg hhead]

theorem setenv_name (e : EnvSets) (n : EnvName) :
    e.setenv hash n.bytes=e.undefineVar hash n.bytes := if_pos n.noEq

theorem sound_erase {k : Keyed (List UInt8)} {s : HashSet (List UInt8)} (hs : Sound k s)
    (v : List UInt8) : Sound k (HashSet.erase k s v).1 :=
  (changed_of_apply (o := .erase v) hs rfl).sound hs

theorem setVar_ok {v : List UInt8} {s' : HashSet (List UInt8)} {p : Nat × Nat}
    (hins : e.setVars.doInsert (envSet hash) v=.ok (s',p,true))
    (hu : Sound (envNames hash) e.undefine) :
    ∃ e',e.setVar hash v=.ok e' ∧ e'.setVars=s' ∧ Sound (envNames hash) e'.undefine := by
  unfold setVar
  dsimp only
  rw [hins]
  exact ⟨_,rfl,rfl,sound_erase hu _⟩

theorem undefineVar_ok (hu : Sound (envNames hash) e.undefine) (name : List UInt8) :
    ∃ e',e.undefineVar hash name=.ok e' ∧
      e'.setVars=(HashSet.erase (envSet hash) e.setVars name).1 ∧
      Sound (envNames hash) e'.undefine := by
  unfold undefineVar
  dsimp only
  by_cases hk : e.keepParentEnv=true
  · rw [if_pos hk]
    obtain ⟨p,x,hins,-⟩ | ⟨-,s',p,hins,hadd⟩ := doInsert_ok hu name
    · rw [hins]
      exact ⟨_,rfl,rfl,hu⟩
    · rw [hins]
      exact ⟨_,rfl,rfl,hadd.sound⟩
  · rw [if_neg hk]
    exact ⟨_,rfl,rfl,hu⟩

/-- The two requests put an element into the set of the settings and take it out. -/
theorem request_pair (hs : Stands (envSet hash) (e.setVars,t)) (ht : ∀ x,x∉t)
    (hu : Sound (envNames hash) e.undefine) (n : EnvName) (value : List UInt8) :
    ∃ e₁ e₂ r₁ t₂,request hash e (n.setting value)=some e₁ ∧ request hash e₁ n.bytes=some e₂ ∧
      step (envSet hash) (e.setVars,t) (.insert (n.setting value))=some r₁ ∧
      step (envSet hash) r₁ (.erase n.bytes)=some (e₂.setVars,t₂) ∧
      Stands (envSet hash) (e₂.setVars,t₂) ∧ (∀ x,x∉t₂) ∧ Sound (envNames hash) e₂.undefine := by
  obtain ⟨r₁,r₂,h₁,h₂,-,hs₂,hr₂⟩ := step_round hs (keyEqualF_setting n value) ht
  obtain ⟨p,x,-,hx,-⟩ | ⟨-,s',p,hins,-⟩ := doInsert_ok hs.sound (n.setting value)
  · exact absurd ((hs.mem x).mp (Buckets.elem_mem_flatten hx)) (ht x)
  · have hfirst : r₁.1=s' := by
      simp only [step,apply,hins] at h₁
      cases h₁
      rfl
    obtain ⟨e₁,hset,hvars,hu₁⟩ := setVar_ok hins hu
    obtain ⟨e₂,hunset,hvars₂,hu₂⟩ := undefineVar_ok hu₁ n.bytes
    have hsecond : r₂.1=e₂.setVars := by
      rw [hvars₂,hvars,← hfirst]
      cases h₂
      rfl
    have hpair : r₂=(e₂.setVars,r₂.2) := by rw [← hsecond]
    refine ⟨e₁,e₂,r₁,r₂.2,?_,?_,h₁,?_,?_,hr₂,hu₂⟩
    · rw [request,setenv_setting,hset]
      rfl
    · rw [request,setenv_name,hunset]
      rfl
    · rw [← hpair]
      exact h₂
    · rwa [← hpair]

theorem runs_pairs (hs : Stands (envSet hash) (e.setVars,t)) (ht : ∀ x,x∉t)
    (hu : Sound (envNames hash) e.undefine) (n : EnvName) (value : List UInt8) (m : Nat) :
    ∃ e' t',runs (request hash) e (pairs n value m)=some e' ∧
      runs (step (envSet hash)) (e.setVars,t) (rounds (n.setting value) n.bytes m)=
        some (e'.setVars,t') := by
  induction m generalizing e t with
  | zero => exact ⟨e,t,rfl,rfl⟩
  | succ m ih =>
    obtain ⟨e₁,e₂,r₁,t₂,hq₁,hq₂,h₁,h₂,hs₂,ht₂,hu₂⟩ := request_pair hs ht hu n value
    obtain ⟨e',t',hreq,hrun⟩ := ih hs₂ ht₂ hu₂
    exact ⟨e',t',runs_cons.mpr ⟨e₁,hq₁,runs_cons.mpr ⟨e₂,hq₂,hreq⟩⟩,
      runs_cons.mpr ⟨r₁,h₁,runs_cons.mpr ⟨_,h₂,hrun⟩⟩⟩

/-- `SETENV` requests that set and unset one variable make more and more buckets, although nothing
is set afterwards. -/
theorem buckets_of_pairs (hash : List UInt8 → Nat) (n : EnvName) (value : List UInt8) {m : Nat}
    (hm : m < 2^64) :
    ∃ e,runs (request hash) {} (pairs n value m)=some e ∧ e.setVars.stored=0 ∧ e.setVars.size=m ∧
      (4*m≤3*e.setVars.buckets.length ∨ maxSize/2 < e.setVars.buckets.length) := by
  have hempty : ∀ x : List UInt8,x∉(∅ : Set (List UInt8)) := fun _ hx => hx
  obtain ⟨e,t,hreq,hrun⟩ := runs_pairs (e := {}) (stands_new (k := envSet hash)) hempty sound_new n
    value m
  obtain ⟨r,hrun',hstored,hsize,hlen⟩ := buckets_of_rounds (keyEqualF_setting n value) hm
  cases hrun.symm.trans hrun'
  exact ⟨e,hreq,hstored,hsize,hlen⟩

end Dinit.EnvSets
