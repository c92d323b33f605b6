import Dinit.Framework.Graph
import Dinit.Check.Load
import Mathlib.Algebra.GroupWithZero.Nat
import Mathlib.Data.Prod.Lex

namespace Dinit

open Framework Relation

namespace Check

variable {ν : Type} [DecidableEq ν]

/-- The services that a description makes be checked as well -/
def Description.references (d : Description ν) : List ν :=
  d.depends.map (·.1)++d.beforeSvcs++d.afterSvcs++d.consumerOfName.toList

section
variable (descriptions : List (ν × Description ν))

def Refers (a b : ν) : Prop := ∃ d,descriptions.lookup a=some d ∧ b∈d.references

def Chains (a b : ν) : Prop := ∃ d,descriptions.lookup a=some d ∧ d.chainToName=some b

def Consumes (a b : ν) : Prop := ∃ d,descriptions.lookup a=some d ∧ d.consumerOfName=some b

/-- What can be reached from the services that were named, by any kind of reference -/
def Reachable (named : List ν) (x : ν) : Prop :=
  ∃ n∈named,ReflTransGen (fun a b => Refers descriptions a b ∨ Chains descriptions a b) n x

/-- What can be reached without `chain-to` -/
def Reached (named : List ν) (x : ν) : Prop := ∃ n∈named,ReflTransGen (Refers descriptions) n x

/-- The loop ends, and each service that can be reached has been loaded, or at least tried. -/
def Finishes (less : ν → ν → Bool) (named : List ν) : Prop :=
  ∃ fuel st,loop (loadTurn less descriptions) fuel ⟨named,[],0⟩=some st ∧
    ∀ x,Reachable descriptions named x → x∈st.attempted

end

section
variable {descriptions : List (ν × Description ν)} {less : ν → ν → Bool} {named : List ν}

theorem Consumes.refers {a b : ν} (h : Consumes descriptions a b) : Refers descriptions a b := by
  obtain ⟨d,hd,hb⟩ := h
  refine ⟨d,hd,List.mem_append_right _ ?_⟩
  rw [hb]
  exact List.mem_singleton_self b

theorem Reached.tail {a b : ν} (h : Reached descriptions named a) (hab : Refers descriptions a b) :
    Reached descriptions named b := by
  obtain ⟨n,hn,hna⟩ := h
  exact ⟨n,hn,hna.tail hab⟩

theorem lookup_cons_ite {β : Type} (x k : ν) (b : β) (l : List (ν × β)) :
    List.lookup x ((k,b)::l)=if x=k then some b else l.lookup x := by
  rw [List.lookup_cons]
  by_cases h : x=k
  · rw [if_pos h,beq_iff_eq.mpr h]
  · rw [if_neg h,beq_false_of_ne h]

theorem lookup_assign (name x : ν) (sr : ServiceRecord ν) (set : ServiceSet ν) :
    (assign less name sr set).lookup x=if x=name then some sr else set.lookup x := by
  induction set with
  | nil => exact lookup_cons_ite x name sr []
  | cons p set ih =>
    obtain ⟨k,r⟩ := p
    unfold assign
    by_cases hk : name=k
    · rw [if_pos hk,lookup_cons_ite,lookup_cons_ite,← hk]
      by_cases h : x=name
      · rw [if_pos h,if_pos h]
      · rw [if_neg h,if_neg h,if_neg h]
    · rw [if_neg hk]
      by_cases hless : less name k=true
      · rw [if_pos hless,lookup_cons_ite]
      · rw [if_neg hless,lookup_cons_ite,ih,lookup_cons_ite]
        by_cases hxk : x=k
        · have hne : x≠name := fun heq => hk (heq.symm.trans hxk)
          rw [if_pos hxk,if_neg hne,if_pos hxk]
        · rw [if_neg hxk,if_neg hxk]

theorem mem_assign {name : ν} {sr : ServiceRecord ν} {set : ServiceSet ν} {p : ν × ServiceRecord ν}
    (h : p∈assign less name sr set) : p=(name,sr) ∨ p∈set := by
  induction set with
  | nil => exact .inl (List.mem_singleton.mp h)
  | cons q set ih =>
    unfold assign at h
    split at h
    · exact (List.mem_cons.mp h).imp_right (List.mem_cons_of_mem _)
    · split at h
      · exact List.mem_cons.mp h
      · obtain heq | h := List.mem_cons.mp h
        · exact .inr (by rw [heq]; exact List.mem_cons_self ..)
        · exact (ih h).imp_right (List.mem_cons_of_mem _)

/-- Only names that are new are added, and then all are there. -/
theorem addNew_spec (known : ν → Bool) (names l : List ν) :
    ∃ new,addNew known names l=l++new ∧ (∀ x∈new,x∉l ∧ x∈names) ∧
      ∀ x∈names,known x=true ∨ x∈l++new := by
  induction names generalizing l with
  | nil => exact ⟨[],(List.append_nil l).symm,by simp,by simp⟩
  | cons y ys ih =>
    unfold addNew
    rw [List.foldl_cons]
    by_cases hy : (known y || l.contains y)=true
    · rw [if_pos hy]
      obtain ⟨new,heq,hnew,hall⟩ := ih l
      refine ⟨new,heq,fun x hx => ⟨(hnew x hx).1,List.mem_cons_of_mem _ (hnew x hx).2⟩,?_⟩
      intro x hx
      obtain rfl | hx := List.mem_cons.mp hx
      · rw [Bool.or_eq_true,List.contains_iff_mem] at hy
        exact hy.imp_right (List.mem_append_left _)
      · exact hall x hx
    · rw [if_neg hy]
      rw [Bool.or_eq_true,List.contains_iff_mem,not_or] at hy
      obtain ⟨new,heq,hnew,hall⟩ := ih (l++[y])
      have hassoc : l++[y]++new=l++y::new := by simp
      rw [hassoc] at heq hall
      refine ⟨y::new,heq,?_,?_⟩
      · intro x hx
        obtain rfl | hx := List.mem_cons.mp hx
        · exact ⟨hy.2,List.mem_cons_self ..⟩
        · obtain ⟨hnot,hin⟩ := hnew x hx
          exact ⟨fun hl => hnot (List.mem_append_left _ hl),List.mem_cons_of_mem _ hin⟩
      · intro x hx
        obtain rfl | hx := List.mem_cons.mp hx
        · exact .inr (List.mem_append_right _ (List.mem_cons_self ..))
        · exact hall x hx

/-- What a loaded service adds: new names, and the service that it consumes -/
theorem addReferences_spec (name : ν) (d : Description ν) {set : ServiceSet ν} {l : List ν}
    (hknown : ∀ x,(set.lookup x).isSome=true → x∈l) :
    ∃ new,addReferences set (newRecord name d) l=l++new++d.consumerOfName.toList ∧
      (∀ x∈new,x∉l ∧ x∈d.references) ∧
      ∀ x∈d.references,x∈addReferences set (newRecord name d) l := by
  obtain ⟨n1,h1,hnew1,hall1⟩ :=
    addNew_spec (fun name => (set.lookup name).isSome) (d.depends.map (·.1)) l
  obtain ⟨n2,h2,hnew2,hall2⟩ := addNew_spec (fun _ => false) d.beforeSvcs (l++n1)
  obtain ⟨n3,h3,hnew3,hall3⟩ := addNew_spec (fun _ => false) d.afterSvcs (l++n1++n2)
  have heq : addReferences set (newRecord name d) l=
      l++(n1++n2++n3)++d.consumerOfName.toList := by
    have hchain : addNew (fun _ => false) (newRecord name d).chainTo.toList
        (addNew (fun name => (set.lookup name).isSome) (d.depends.map (·.1)) l)=l++n1 := h1
    unfold addReferences
    dsimp only [newRecord] at hchain ⊢
    rw [hchain,h2,h3]
    simp
  refine ⟨n1++n2++n3,heq,?_,?_⟩
  · intro x hx
    unfold Description.references
    simp only [List.mem_append] at hx hnew2 hnew3 ⊢
    obtain (hx | hx) | hx := hx
    · exact ⟨(hnew1 x hx).1,.inl (.inl (.inl (hnew1 x hx).2))⟩
    · exact ⟨fun hl => (hnew2 x hx).1 (.inl hl),.inl (.inl (.inr (hnew2 x hx).2))⟩
    · exact ⟨fun hl => (hnew3 x hx).1 (.inl (.inl hl)),.inl (.inr (hnew3 x hx).2)⟩
  · intro x hx
    rw [heq]
    unfold Description.references at hx
    simp only [List.mem_append] at hx hall1 hall2 hall3 ⊢
    obtain ((hx | hx) | hx) | hx := hx
    · obtain hk | hin | hin := hall1 x hx
      · exact .inl (.inl (hknown x hk))
      · exact .inl (.inl hin)
      · exact .inl (.inr (.inl (.inl hin)))
    · obtain hk | (hin | hin) | hin := hall2 x hx
      · cases hk
      · exact .inl (.inl hin)
      · exact .inl (.inr (.inl (.inl hin)))
      · exact .inl (.inr (.inl (.inr hin)))
    · obtain hk | ((hin | hin) | hin) | hin := hall3 x hx
      · cases hk
      · exact .inl (.inl hin)
      · exact .inl (.inr (.inl (.inl hin)))
      · exact .inl (.inr (.inl (.inr hin)))
      · exact .inl (.inr (.inr hin))
    · exact .inr hx

/-- What holds before each turn of the loop -/
structure Loaded (descriptions : List (ν × Description ν)) (named : List ν) (s : Loading ν) :
    Prop where
  record : ∀ x sr,s.serviceSet.lookup x=some sr →
    ∃ d,descriptions.lookup x=some d ∧ sr=newRecord x d
  entries : ∀ p∈s.serviceSet,s.serviceSet.lookup p.1=some p.2
  listed : ∀ x,(s.serviceSet.lookup x).isSome=true → x∈s.servicesToCheck
  first : named <+: s.servicesToCheck
  reached : ∀ x∈s.servicesToCheck,Reached descriptions named x
  done : ∀ j x d,j<s.index → s.servicesToCheck[j]?=some x → descriptions.lookup x=some d →
    (∀ y∈d.references,y∈s.servicesToCheck) ∧
      ∀ y,d.consumerOfName=some y → ∃ k,j<k ∧ s.servicesToCheck[k]?=some y
  loaded : ∀ j x d,j<s.index → s.servicesToCheck[j]?=some x → descriptions.lookup x=some d →
    s.serviceSet.lookup x=some (newRecord x d)

theorem Loaded.start (named : List ν) : Loaded descriptions named ⟨named,[],0⟩ :=
  ⟨by simp,by simp,by simp,List.prefix_refl _,fun x hx => ⟨x,hx,.refl⟩,by simp,by simp⟩

theorem Loaded.loadService {s : Loading ν} (h : Loaded descriptions named s) (x : ν) :
    loadService descriptions s.serviceSet x=(descriptions.lookup x).map (newRecord x) := by
  unfold Check.loadService
  cases hset : s.serviceSet.lookup x with
  | none => rfl
  | some sr =>
    obtain ⟨d,hd,rfl⟩ := h.record x sr hset
    rw [hd]
    rfl

/-- What one turn does: it stops, or passes over a service that cannot be loaded, or loads one. -/
theorem loadTurn_cases (less : ν → ν → Bool) {s : Loading ν} (h : Loaded descriptions named s) :
    (s.servicesToCheck.length≤ s.index ∧ loadTurn less descriptions s=.stop s) ∨
      ∃ x,s.servicesToCheck[s.index]?=some x ∧
        ((descriptions.lookup x=none ∧
            loadTurn less descriptions s=.next {s with index := s.index+1}) ∨
          ∃ d new,descriptions.lookup x=some d ∧ (∀ y∈new,y∉s.servicesToCheck ∧ y∈d.references) ∧
            (∀ y∈d.references,y∈s.servicesToCheck++new++d.consumerOfName.toList) ∧
            loadTurn less descriptions s=.next ⟨s.servicesToCheck++new++d.consumerOfName.toList,
              assign less x (newRecord x d) s.serviceSet,s.index+1⟩) := by
  unfold loadTurn
  cases hat : s.servicesToCheck[s.index]? with
  | none => exact .inl ⟨List.getElem?_eq_none_iff.mp hat,rfl⟩
  | some x =>
    refine .inr ⟨x,rfl,?_⟩
    dsimp only
    rw [h.loadService x]
    cases hd : descriptions.lookup x with
    | none => exact .inl ⟨rfl,rfl⟩
    | some d =>
      have hmem : x∈s.servicesToCheck := List.mem_of_getElem? hat
      have hknown : ∀ y,((assign less x (newRecord x d) s.serviceSet).lookup y).isSome=true →
          y∈s.servicesToCheck := by
        intro y hy
        rw [lookup_assign] at hy
        by_cases hyx : y=x
        · rw [hyx]
          exact hmem
        · rw [if_neg hyx] at hy
          exact h.listed y hy
      obtain ⟨new,heq,hnew,hall⟩ := addReferences_spec x d hknown
      rw [heq] at hall
      refine .inr ⟨d,new,rfl,hnew,hall,?_⟩
      show Turn.next _=_
      rw [heq]

theorem record_assign {set : ServiceSet ν} {x : ν} {d : Description ν} (hd : descriptions.lookup x=some d)
    (h : ∀ y sr,set.lookup y=some sr → ∃ e,descriptions.lookup y=some e ∧ sr=newRecord y e) {y : ν}
    {sr : ServiceRecord ν} (hy : List.lookup y (assign less x (newRecord x d) set)=some sr) :
    ∃ e,descriptions.lookup y=some e ∧ sr=newRecord y e := by
  rw [lookup_assign] at hy
  by_cases hyx : y=x
  · rw [if_pos hyx] at hy
    cases hy
    exact ⟨d,by rw [hyx]; exact hd,by rw [hyx]⟩
  · rw [if_neg hyx] at hy
    exact h y sr hy

theorem entries_assign {set : ServiceSet ν} {x : ν} {d : Description ν}
    (hd : descriptions.lookup x=some d)
    (h : ∀ y sr,set.lookup y=some sr → ∃ e,descriptions.lookup y=some e ∧ sr=newRecord y e)
    (hset : ∀ p∈set,set.lookup p.1=some p.2) {p : ν × ServiceRecord ν}
    (hp : p∈assign less x (newRecord x d) set) :
    List.lookup p.1 (assign less x (newRecord x d) set)=some p.2 := by
  rw [lookup_assign]
  obtain rfl | hp := mem_assign hp
  · exact if_pos rfl
  · by_cases hpx : p.1=x
    · obtain ⟨e,he,hpe⟩ := h p.1 p.2 (hset p hp)
      rw [hpx,hd] at he
      cases he
      rw [if_pos hpx,hpe,hpx]
    · rw [if_neg hpx]
      exact hset p hp

/-- A service that cannot be loaded is passed over. -/
theorem Loaded.skip {s : Loading ν} (h : Loaded descriptions named s) {x : ν}
    (hat : s.servicesToCheck[s.index]?=some x) (hnone : descriptions.lookup x=none) :
    Loaded descriptions named {s with index := s.index+1} := by
  have hbefore : ∀ {j y d},j<s.index+1 → s.servicesToCheck[j]?=some y → descriptions.lookup y=some d →
      j<s.index := by
    intro j y d hj hy hd
    obtain hlt | heq := Nat.lt_succ_iff_lt_or_eq.mp hj
    · exact hlt
    · rw [heq,hat] at hy
      cases hy
      rw [hnone] at hd
      cases hd
  exact ⟨h.record,h.entries,h.listed,h.first,h.reached,
    fun j y d hj hy hd => h.done j y d (hbefore hj hy hd) hy hd,
    fun j y d hj hy hd => h.loaded j y d (hbefore hj hy hd) hy hd⟩

/-- A service is loaded, and what it refers to is listed. -/
theorem Loaded.load {s : Loading ν} (h : Loaded descriptions named s) {x : ν} {d : Description ν}
    {new : List ν} (hat : s.servicesToCheck[s.index]?=some x) (hd : descriptions.lookup x=some d)
    (hnew : ∀ y∈new,y∉s.servicesToCheck ∧ y∈d.references)
    (hall : ∀ y∈d.references,y∈s.servicesToCheck++new++d.consumerOfName.toList) :
    Loaded descriptions named ⟨s.servicesToCheck++new++d.consumerOfName.toList,
      assign less x (newRecord x d) s.serviceSet,s.index+1⟩ := by
  have hlen := (List.getElem?_eq_some_iff.mp hat).1
  have hold : ∀ j,j<s.servicesToCheck.length →
      (s.servicesToCheck++new++d.consumerOfName.toList)[j]?=s.servicesToCheck[j]? := by
    intro j hj
    rw [List.append_assoc,List.getElem?_append_left hj]
  have hkept : ∀ y∈s.servicesToCheck,y∈s.servicesToCheck++new++d.consumerOfName.toList := by
    intro y hy
    rw [List.append_assoc]
    exact List.mem_append_left _ hy
  have hmem : x∈s.servicesToCheck := List.mem_of_getElem? hat
  have hx : Reached descriptions named x := h.reached x hmem
  constructor
  · exact fun y sr hy => record_assign hd h.record hy
  · exact fun p hp => entries_assign hd h.record h.entries hp
  · intro y hy
    rw [lookup_assign] at hy
    by_cases hyx : y=x
    · rw [hyx]
      exact hkept x hmem
    · rw [if_neg hyx] at hy
      exact hkept y (h.listed y hy)
  · rw [List.append_assoc]
    exact h.first.trans (List.prefix_append _ _)
  · intro y hy
    rw [List.mem_append,List.mem_append] at hy
    obtain (hy | hy) | hy := hy
    · exact h.reached y hy
    · exact hx.tail ⟨d,hd,(hnew y hy).2⟩
    · exact hx.tail ⟨d,hd,List.mem_append_right _ hy⟩
  · intro j y e hj hy he
    obtain hlt | heq := Nat.lt_succ_iff_lt_or_eq.mp hj
    · rw [hold j (by omega)] at hy
      obtain ⟨hrefs,hcons⟩ := h.done j y e hlt hy he
      refine ⟨fun z hz => hkept z (hrefs z hz),fun z hz => ?_⟩
      obtain ⟨k,hk,hkz⟩ := hcons z hz
      exact ⟨k,hk,by rw [hold k (List.getElem?_eq_some_iff.mp hkz).1]; exact hkz⟩
    · rw [heq,hold s.index hlen,hat] at hy
      cases hy
      rw [hd] at he
      cases he
      refine ⟨hall,fun z hz => ?_⟩
      refine ⟨(s.servicesToCheck++new).length,?_,?_⟩
      · rw [List.length_append,heq]
        omega
      · dsimp only
        rw [List.getElem?_append_right (Nat.le_refl _),hz,Nat.sub_self]
        rfl
  · intro j y e hj hy he
    rw [lookup_assign]
    by_cases hyx : y=x
    · rw [hyx,hd] at he
      cases he
      rw [if_pos hyx,hyx]
    · rw [if_neg hyx]
      obtain hlt | heq := Nat.lt_succ_iff_lt_or_eq.mp hj
      · rw [hold j (by omega)] at hy
        exact h.loaded j y e hlt hy he
      · rw [heq,hold s.index hlen,hat] at hy
        exact absurd (Option.some.inj hy).symm hyx

theorem Loaded.next {s s' : Loading ν} (h : Loaded descriptions named s)
    (hturn : loadTurn less descriptions s=.next s') : Loaded descriptions named s' := by
  obtain ⟨-,hstop⟩ | ⟨x,hat,⟨hnone,hnext⟩ | ⟨d,new,hd,hnew,hall,hnext⟩⟩ :=
    loadTurn_cases less h
  · rw [hturn] at hstop
    cases hstop
  · rw [hturn] at hnext
    cases hnext
    exact h.skip hat hnone
  · rw [hturn] at hnext
    cases hnext
    exact h.load hat hd hnew hall

/-- All names that there are -/
def allNames (descriptions : List (ν × Description ν)) (named : List ν) : List ν :=
  named++descriptions.flatMap fun p => p.2.references

theorem Refers.mem {a b : ν} (h : Refers descriptions a b) (named : List ν) :
    b∈allNames descriptions named := by
  obtain ⟨d,hd,hb⟩ := h
  obtain ⟨l₁,l₂,hl,-⟩ := List.lookup_eq_some_iff.mp hd
  refine List.mem_append_right _ (List.mem_flatMap.mpr ⟨(a,d),?_,hb⟩)
  rw [hl]
  exact List.mem_append_right _ (List.mem_cons_self ..)

/-- The names that are not listed yet -/
def missing (descriptions : List (ν × Description ν)) (named l : List ν) : Nat :=
  (allNames descriptions named).countP fun x => !l.contains x

theorem missing_lt {l new : List ν} {y : ν} (hy : y∈new) (hl : y∉l)
    (hall : y∈allNames descriptions named) :
    missing descriptions named (l++new)< missing descriptions named l := by
  refine countP_lt (fun x hx => ?_) hall ?_ ?_
  · simp only [Bool.not_eq_true',List.contains_eq_mem,List.mem_append,decide_eq_false_iff_not,
      not_or] at hx ⊢
    exact hx.1
  · simp [hy]
  · simp [hl]

theorem missing_le {l : List ν} (new : List ν) :
    missing descriptions named (l++new)≤ missing descriptions named l := by
  apply List.countP_mono_left
  intro x _ hx
  simp only [Bool.not_eq_true',List.contains_eq_mem,List.mem_append,decide_eq_false_iff_not,
    not_or] at hx ⊢
  exact hx.1

/-- What is left to do, for each service with the services that it makes be loaded again -/
noncomputable def remaining (descriptions : List (ν × Description ν)) (named : List ν) (s : Loading ν) :
    Nat :=
  ((s.servicesToCheck.drop s.index).map fun x =>
    reachCount (Consumes descriptions) (allNames descriptions named) x+1).sum

/-- No service that is reached consumes itself through others. -/
def NoConsumerCycle (descriptions : List (ν × Description ν)) (named : List ν) : Prop :=
  ∀ x,Reached descriptions named x → ¬TransGen (Consumes descriptions) x x

theorem loadTurn_decreasing (hcyc : NoConsumerCycle descriptions named) {s s' : Loading ν}
    (h : Loaded descriptions named s) (hturn : loadTurn less descriptions s=.next s') :
    Prod.Lex (·<·) (·<·)
      (missing descriptions named s'.servicesToCheck,remaining descriptions named s')
      (missing descriptions named s.servicesToCheck,remaining descriptions named s) := by
  have htodo : ∀ x,s.servicesToCheck[s.index]?=some x →
      s.servicesToCheck.drop s.index=x::s.servicesToCheck.drop (s.index+1) := by
    intro x hat
    obtain ⟨hlt,heq⟩ := List.getElem?_eq_some_iff.mp hat
    rw [List.drop_eq_getElem_cons hlt,heq]
  obtain ⟨-,hstop⟩ | ⟨x,hat,⟨-,hnext⟩ | ⟨d,new,hd,hnew,-,hnext⟩⟩ := loadTurn_cases less h
  · rw [hturn] at hstop
    cases hstop
  · rw [hturn] at hnext
    cases hnext
    refine .right _ ?_
    unfold remaining
    rw [htodo x hat]
    simp
  · rw [hturn] at hnext
    cases hnext
    have hlen := (List.getElem?_eq_some_iff.mp hat).1
    cases new with
    | cons y new =>
      refine .left _ _ ?_
      rw [List.append_assoc]
      obtain ⟨hnot,href⟩ := hnew y (List.mem_cons_self ..)
      exact missing_lt (List.mem_append_left _ (List.mem_cons_self ..)) hnot (Refers.mem ⟨d,hd,href⟩ named)
    | nil =>
      rw [List.append_nil]
      cases hc : d.consumerOfName with
      | none =>
        refine Prod.Lex.right' _ ?_ ?_
        · simp
        · unfold remaining
          rw [htodo x hat]
          simp
      | some c =>
        have hcon : Consumes descriptions x c := ⟨d,hd,hc⟩
        by_cases hin : c∈s.servicesToCheck
        · have hrank : reachCount (Consumes descriptions) (allNames descriptions named) c<
              reachCount (Consumes descriptions) (allNames descriptions named) x :=
            reachCount_lt (fun a b hab => hab.refers.mem named) hcon
              (hcyc c ((h.reached x (List.mem_of_getElem? hat)).tail hcon.refers))
          refine Prod.Lex.right' _ (missing_le [c]) ?_
          unfold remaining
          rw [htodo x hat]
          dsimp only [Option.toList_some]
          rw [List.drop_append_of_le_length hlen,List.map_append,List.sum_append,List.map_cons,
            List.sum_cons]
          simp only [List.map_cons,List.map_nil,List.sum_cons,List.sum_nil,Nat.succ_eq_add_one]
          omega
        · refine .left _ _ ?_
          exact missing_lt (List.mem_singleton_self c) hin (hcon.refers.mem named)

theorem load_ends (less : ν → ν → Bool) (hcyc : NoConsumerCycle descriptions named) :
    ∃ st,LoopEnds (loadTurn less descriptions) ⟨named,[],0⟩ st :=
  ends_of_decreasing (Prod.lex Nat.lt_wfRel Nat.lt_wfRel).wf
    (fun s => (missing descriptions named s.servicesToCheck,remaining descriptions named s))
    (fun _ _ h hturn => ⟨h.next hturn,loadTurn_decreasing hcyc h hturn⟩) (.start named)

/-- Where the loop ends, all that is listed has been dealt with. -/
theorem loaded_at_end {fuel : Nat} {st : Loading ν}
    (h : loop (loadTurn less descriptions) fuel ⟨named,[],0⟩=some st) :
    Loaded descriptions named st ∧ st.servicesToCheck.length≤ st.index := by
  obtain ⟨s,hs,hstop⟩ := loop_inv (fun _ _ h hturn => Loaded.next h hturn) h (Loaded.start named)
  obtain ⟨hle,heq⟩ | ⟨x,-,⟨-,hnext⟩ | ⟨d,new,-,-,-,hnext⟩⟩ := loadTurn_cases less hs
  · rw [hstop] at heq
    cases heq
    exact ⟨hs,hle⟩
  · rw [hstop] at hnext
    cases hnext
  · rw [hstop] at hnext
    cases hnext

/-- At the end, what is listed is just what is reached. -/
theorem mem_at_end {st : Loading ν} (h : Loaded descriptions named st)
    (hend : st.servicesToCheck.length≤ st.index) (x : ν) :
    x∈st.servicesToCheck ↔ Reached descriptions named x := by
  refine ⟨h.reached x,fun hx => ?_⟩
  obtain ⟨n,hn,hnx⟩ := hx
  induction hnx with
  | refl => exact h.first.subset hn
  | tail _ hab ih =>
    obtain ⟨d,hd,hb⟩ := hab
    obtain ⟨j,hj⟩ := List.mem_iff_getElem?.mp ih
    have hlt := (List.getElem?_eq_some_iff.mp hj).1
    exact (h.done j _ d (by omega) hj hd).1 _ hb

/-- A service that consumes itself through others would be listed again and again. -/
theorem no_cycle_at_end {st : Loading ν} (h : Loaded descriptions named st)
    (hend : st.servicesToCheck.length≤ st.index) : NoConsumerCycle descriptions named := by
  have hno : ∀ m j x,st.servicesToCheck.length-j≤ m → st.servicesToCheck[j]?=some x →
      ¬TransGen (Consumes descriptions) x x := by
    intro m
    induction m with
    | zero =>
      intro j x hm hj
      have hlt := (List.getElem?_eq_some_iff.mp hj).1
      omega
    | succ m ih =>
      intro j x hm hj hcyc
      have hlt := (List.getElem?_eq_some_iff.mp hj).1
      obtain ⟨c,⟨d,hd,hc⟩,hcx⟩ := TransGen.head'_iff.mp hcyc
      obtain ⟨k,hjk,hk⟩ := (h.done j x d (by omega) hj hd).2 c hc
      exact ih k c (by omega) hk (TransGen.tail' hcx ⟨d,hd,hc⟩)
  intro x hx
  obtain ⟨j,hj⟩ := List.mem_iff_getElem?.mp ((mem_at_end h hend x).mpr hx)
  exact hno _ j x (Nat.le_refl _) hj

end

/-- `dinit-check` loads each service that can be reached, and ends, just as long as no service it comes
to consumes itself through others, and each that is only named by `chain-to` is come to anyhow. -/
theorem services_loaded (less : ν → ν → Bool) (descriptions : List (ν × Description ν))
    (named : List ν) :
    Finishes descriptions less named ↔ NoConsumerCycle descriptions named ∧
      ∀ x c,Reached descriptions named x → Chains descriptions x c → Reached descriptions named c := by
  constructor
  · intro hfin
    obtain ⟨fuel,st,hloop,hall⟩ := hfin
    obtain ⟨h,hend⟩ := loaded_at_end hloop
    refine ⟨no_cycle_at_end h hend,fun x c hx hc => ?_⟩
    obtain ⟨n,hn,hnx⟩ := hx
    have hreach : Reachable descriptions named c :=
      ⟨n,hn,(ReflTransGen.mono (fun _ _ hab => .inl hab) _ _ hnx).tail (.inr hc)⟩
    exact h.reached c (List.mem_of_mem_take (hall c hreach))
  · intro hcond
    obtain ⟨hcyc,hchain⟩ := hcond
    obtain ⟨st,fuel,hloop⟩ := load_ends less hcyc
    obtain ⟨h,hend⟩ := loaded_at_end hloop
    refine ⟨fuel,st,hloop,fun x hx => ?_⟩
    unfold Loading.attempted
    rw [List.take_of_length_le hend,mem_at_end h hend]
    obtain ⟨n,hn,hnx⟩ := hx
    induction hnx with
    | refl => exact ⟨n,hn,.refl⟩
    | tail _ hab ih => exact hab.elim (fun href => ih.tail href) fun hc => hchain _ _ ih hc

/-- A process that only refers to the service it continues with, or consumes the output of -/
def processWith (chainTo consumerOf : Option String) : Description String :=
  ⟨.process,chainTo,[],[],[],consumerOf,.pipe⟩

/-- Two services that consume each other's output are listed without end, and a service that another
chains to is not tried. -/
theorem services_not_loaded :
    ¬Finishes [("a",processWith none (some "b")),("b",processWith none (some "a"))] (·<·) ["a"] ∧
      ¬Finishes [("a",processWith (some "b") none),("b",processWith none none)] (·<·) ["a"] := by
  constructor
  · intro hfin
    obtain ⟨fuel,st,hloop,-⟩ := hfin
    obtain ⟨h,hend⟩ := loaded_at_end hloop
    refine no_cycle_at_end h hend "a" ⟨"a",List.mem_singleton_self _,.refl⟩ ?_
    have hab : Consumes [("a",processWith none (some "b")),("b",processWith none (some "a"))] "a" "b" :=
      ⟨_,rfl,rfl⟩
    exact .tail (.single hab) ⟨_,rfl,rfl⟩
  · intro hfin
    obtain ⟨fuel,st,hloop,hall⟩ := hfin
    obtain ⟨h,hend⟩ := loaded_at_end hloop
    have hb := hall "b" ⟨"a",List.mem_singleton_self _,.single (.inr ⟨_,rfl,rfl⟩)⟩
    obtain ⟨n,hn,hnb⟩ := (mem_at_end h hend "b").mp (List.mem_of_mem_take hb)
    rw [List.mem_singleton.mp hn] at hnb
    obtain heq | ⟨x,⟨d,hd,hmem⟩,-⟩ := hnb.cases_head
    · exact absurd heq (by decide)
    · cases hd
      cases hmem

end Check

end Dinit
