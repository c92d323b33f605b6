import Mathlib.Algebra.Order.Monoid.Defs
import Mathlib.Order.Interval.Set.OrdConnected

namespace Dinit.Framework.Window

/-- What a limiter does: an interval is opened without a grant or with one, or there is a grant or
a refusal within the interval. -/
inductive Mark
  | reset
  | rollover
  | grant
  | refusal
deriving DecidableEq

def Mark.opens : Mark → Bool
  | .reset => true
  | .rollover => true
  | .grant => false
  | .refusal => false

def Mark.grants : Mark → Bool
  | .reset => false
  | .rollover => true
  | .grant => true
  | .refusal => false

variable {T : Type} [AddCommMonoid T] [LinearOrder T]

structure State (T : Type) where
  opened : T
  count : Nat

/-- One step of a limiter that grants `max` in an interval of length `len` -/
inductive Step (len : T) (max : Nat) : State T → T × Mark → State T → Prop
  | reset {s t} : Step len max s (t,.reset) ⟨t,0⟩
  | rollover {s t} (h : s.opened+len ≤ t) : Step len max s (t,.rollover) ⟨t,1⟩
  | grant {s t} (hc : s.count< max) (ht : t< s.opened+len) :
      Step len max s (t,.grant) ⟨s.opened,s.count+1⟩
  | refusal {s t} (hc : max ≤ s.count) (ht : t< s.opened+len) : Step len max s (t,.refusal) s

inductive Run (len : T) (max : Nat) : State T → List (T × Mark) → State T → Prop
  | nil {s} : Run len max s [] s
  | cons {s s' s'' e h} (hs : Step len max s e s') (hr : Run len max s' h s'') :
      Run len max s (e::h) s''

def NoOpening (h : List (T × Mark)) : Prop := ∀ e ∈ h,e.2.opens=false

def granted (h : List (T × Mark)) : Nat := h.countP fun e => e.2.grants

omit [AddCommMonoid T] [LinearOrder T] in
theorem granted_cons (e : T × Mark) (h : List (T × Mark)) :
    granted (e::h)=granted h+if e.2.grants then 1 else 0 := List.countP_cons

variable {len : T} {max : Nat} {s s' : State T} {h a b c : List (T × Mark)}

theorem Run.split (hr : Run len max s (a++b) s') : ∃ s1,Run len max s a s1 ∧ Run len max s1 b s' := by
  induction a generalizing s with
  | nil => exact ⟨s,.nil,hr⟩
  | cons e a ih =>
    cases hr with
    | cons hs hr =>
      obtain ⟨s1,h1,h2⟩ := ih hr
      exact ⟨s1,.cons hs h1,h2⟩

theorem Step.count_le {e : T × Mark} (hs : Step len max s e s') (hmax : 0< max)
    (hc : s.count ≤ max) : s'.count ≤ max := by
  cases hs with
  | reset => exact Nat.zero_le max
  | rollover _ => exact hmax
  | grant h _ => exact h
  | refusal _ _ => exact hc

/-- The count stays within the limit. -/
theorem Run.count_le (hr : Run len max s h s') (hmax : 0< max) (hc : s.count ≤ max) :
    s'.count ≤ max := by
  induction hr with
  | nil => exact hc
  | cons hs _ ih => exact ih (hs.count_le hmax hc)

theorem Step.opened_le {e : T × Mark} (hs : Step len max s e s') (h : s.opened ≤ e.1) :
    s'.opened ≤ e.1 := by
  cases hs with
  | reset => exact le_refl _
  | rollover _ => exact le_refl _
  | grant _ _ => exact h
  | refusal _ _ => exact h

theorem Step.opening {e : T × Mark} (hs : Step len max s e s') (he : e.2.opens=true) :
    s'.opened=e.1 ∧ s'.count=granted [e] := by
  cases hs with
  | reset => exact ⟨rfl,rfl⟩
  | rollover _ => exact ⟨rfl,rfl⟩
  | grant _ _ => cases he
  | refusal _ _ => cases he

theorem Step.within {e : T × Mark} (hs : Step len max s e s') (he : e.2.opens=false) :
    s'.opened=s.opened ∧ s'.count=s.count+granted [e] := by
  cases hs with
  | reset => cases he
  | rollover _ => cases he
  | grant _ _ => exact ⟨rfl,rfl⟩
  | refusal _ _ => exact ⟨rfl,rfl⟩

/-- As long as no interval is opened, the grants are counted. -/
theorem Run.within (hr : Run len max s h s') (hn : NoOpening h) :
    s'.opened=s.opened ∧ s'.count=s.count+granted h := by
  induction hr with
  | nil => exact ⟨rfl,rfl⟩
  | @cons s s1 s' e h hs _ ih =>
    obtain ⟨ho,hc⟩ := hs.within (hn e List.mem_cons_self)
    obtain ⟨ho',hc'⟩ := ih fun e he => hn e (List.mem_cons_of_mem _ he)
    refine ⟨ho'.trans ho,?_⟩
    rw [hc',hc,granted_cons e h,granted_cons e []]
    simp only [granted,List.countP_nil]
    omega

/-- No more is granted than the limit before the next interval is opened. -/
theorem Run.granted_le (hr : Run len max s (a++b++c) s') (hmax : 0< max) (hc : s.count ≤ max)
    (hn : NoOpening b.tail) : granted b ≤ max := by
  obtain ⟨s2,h12,-⟩ := hr.split
  obtain ⟨s1,h1,h2⟩ := h12.split
  have hc1 := h1.count_le hmax hc
  have hc2 := h2.count_le hmax hc1
  cases h2 with
  | nil => exact Nat.zero_le max
  | @cons _ s3 _ e b hs h2 =>
    have hb := h2.within hn
    have hsum : granted (e::b)=granted [e]+granted b := by
      rw [granted_cons,granted_cons]
      simp only [granted,List.countP_nil]
      omega
    cases he : e.2.opens with
    | true =>
      have ho := hs.opening he
      omega
    | false =>
      have ho := hs.within he
      omega

/-- The current interval is the one that was opened last, and what was granted since is counted. -/
theorem Run.last_opening (hr : Run len max s h s') :
    (NoOpening h ∧ s'.opened=s.opened ∧ s'.count=s.count+granted h) ∨
      ∃ a e b,h=a++e::b ∧ e.2.opens=true ∧ NoOpening b ∧ s'.opened=e.1 ∧
        s'.count=granted (e::b) := by
  induction hr with
  | nil => exact .inl ⟨fun e he => absurd he List.not_mem_nil,rfl,rfl⟩
  | @cons s s1 s' e h hs hr ih =>
    rcases ih with ⟨hn,ho,hc⟩ | ⟨a,e',b,rfl,he,hn,ho,hc⟩
    · cases he : e.2.opens with
      | true =>
        obtain ⟨ho1,hc1⟩ := hs.opening he
        refine .inr ⟨[],e,h,rfl,he,hn,ho.trans ho1,?_⟩
        rw [hc,hc1,granted_cons e h,granted_cons e []]
        simp only [granted,List.countP_nil]
        omega
      | false =>
        have hn' : NoOpening (e::h) := List.forall_mem_cons.mpr ⟨he,hn⟩
        obtain ⟨ho',hc'⟩ := (Run.cons hs hr).within hn'
        exact .inl ⟨hn',ho',hc'⟩
    · exact .inr ⟨e::a,e',b,rfl,he,hn,ho,hc⟩

/-- The interval that is current behind `h` was opened at `t`; `b` is what happened since. -/
def OpenedAt (first : T) (h b : List (T × Mark)) (t : T) : Prop :=
  (b=h ∧ NoOpening h ∧ t=first) ∨ ∃ a e b',h=a++b ∧ b=e::b' ∧ e.2.opens=true ∧ NoOpening b' ∧ t=e.1

/-- A refusal is within an interval in which as much was granted as can be. -/
theorem Run.refused {t : T} (hr : Run len max s (a++(t,.refusal)::c) s') (hmax : 0< max)
    (hc : s.count=0) :
    ∃ b opened,OpenedAt s.opened a b opened ∧ granted b=max ∧ t< opened+len := by
  obtain ⟨s1,h1,h2⟩ := hr.split
  have hle := h1.count_le hmax (by omega)
  cases h2 with
  | cons hs _ =>
    cases hs with
    | refusal hfull ht =>
      rcases h1.last_opening with ⟨hn,ho,hcount⟩ | ⟨a',e,b,rfl,he,hn,ho,hcount⟩
      · exact ⟨a,s.opened,.inl ⟨rfl,hn,rfl⟩,by omega,ho ▸ ht⟩
      · exact ⟨e::b,e.1,.inr ⟨a',e,b,rfl,rfl,he,hn,rfl⟩,by omega,ho ▸ ht⟩

/-- What the state has used of a span: `k` intervals have been used up, and `d` grants of another.
`now` is the time of the last event, and `r` says whether the current interval was reset in the
span. -/
structure Used (S : Set T) (len : T) (max : Nat) (now : T) (r : Bool) (s : State T) (k d : Nat) :
    Prop where
  le : d ≤ max
  counted : r=false → ∀ t ∈ S,now ≤ t → d ≤ s.count
  last : k=0 ∨ (k=1 ∧ s.opened ≤ now ∧ ∀ t ∈ S,t< s.opened+len)
  entered : (k=0 ∧ d=0) ∨ ∃ u ∈ S,u ≤ now ∧ u< s.opened+len

section Used

variable {S : Set T} {now t : T} {r : Bool} {k d : Nat}

/-- Before the span nothing has been used of it. -/
theorem Used.before {v : T} (hu : Used S len max now r s k d) (hS : S.OrdConnected) (ht : now ≤ t)
    (hv : v ∈ S) (htv : t ≤ v) (hn : t ∉ S) : k=0 ∧ d=0 := by
  rcases hu.entered with h0 | ⟨u,hus,hun,-⟩
  · exact h0
  · exact absurd (hS.out hus hv ⟨hun.trans ht,htv⟩) hn

/-- Time passes. -/
theorem Used.later (hu : Used S len max now r s k d) (ht : now ≤ t) : Used S len max t r s k d where
  le := hu.le
  counted := fun hr v hv htv => hu.counted hr v hv (ht.trans htv)
  last := hu.last.imp_right fun h => ⟨h.1,h.2.1.trans ht,h.2.2⟩
  entered := hu.entered.imp_right fun h => by
    obtain ⟨u,hus,hun,huo⟩ := h
    exact ⟨u,hus,hun.trans ht,huo⟩

variable [IsOrderedCancelAddMonoid T]

/-- An interval is opened; `c` may have been granted with it. -/
theorem Used.opened {c : Nat} (hu : Used S len max now r s k d) (hpos : 0< len) (ht : now ≤ t)
    (hc : ∀ v ∈ S,t ≤ v → r=false → d ≤ c) : Used S len max t r ⟨t,c⟩ k d where
  le := hu.le
  counted := fun hr v hv htv => hc v hv htv hr
  last := hu.last.imp_right fun h =>
    ⟨h.1,le_refl t,fun v hv => (h.2.2 v hv).trans_le (by gcongr; exact h.2.1.trans ht)⟩
  entered := hu.entered.imp_right fun h => by
    obtain ⟨u,hus,hun,-⟩ := h
    exact ⟨u,hus,hun.trans ht,(hun.trans ht).trans_lt (lt_add_of_pos_right t hpos)⟩

theorem Used.reset [DecidablePred (· ∈ S)] (hu : Used S len max now r s k d) (hS : S.OrdConnected) (hpos : 0< len)
    (ht : now ≤ t) : Used S len max t (decide (t ∈ S)) ⟨t,0⟩ k d where
  le := hu.le
  counted := fun hr v hv htv => by
    have hn : t ∉ S := by simpa using hr
    rw [(hu.before hS ht hv htv hn).2]
  last := (hu.opened (c := d) hpos ht fun _ _ _ _ => le_refl d).last
  entered := (hu.opened (c := d) hpos ht fun _ _ _ _ => le_refl d).entered

/-- An interval that is opened before or behind the span uses nothing of it. -/
theorem Used.rollover_outside (hu : Used S len max now r s k d) (hS : S.OrdConnected) (hpos : 0< len)
    (ht : now ≤ t) (hn : t ∉ S) : Used S len max t false ⟨t,1⟩ k d where
  le := hu.le
  counted := fun _ v hv htv => by
    rw [(hu.before hS ht hv htv hn).2]
    exact Nat.zero_le 1
  last := (hu.opened (c := d) hpos ht fun _ _ _ _ => le_refl d).last
  entered := (hu.opened (c := d) hpos ht fun _ _ _ _ => le_refl d).entered

/-- An interval that is opened in the span uses it up for the interval before, if there can be no
other in the span. -/
theorem Used.rollover_inside (hu : Used S len max now r s k d) (hpos : 0< len) (hmax : 0< max)
    (hlen : ∀ t ∈ S,∀ u ∈ S,t ≤ u+len) (hopen : s.opened+len ≤ t) (hin : t ∈ S) :
    ∃ k',Used S len max t false ⟨t,1⟩ k' 1 ∧ k*max+d ≤ k'*max := by
  have hk : k=0 := by
    rcases hu.last with h0 | ⟨-,-,hlt⟩
    · exact h0
    · exact absurd hopen (not_le.mpr (hlt t hin))
  have hentered : (0 : Nat)=0 ∧ (1 : Nat)=0 ∨ ∃ u ∈ S,u ≤ t ∧ u< t+len :=
    .inr ⟨t,hin,le_refl t,lt_add_of_pos_right t hpos⟩
  by_cases hlast : ∃ v ∈ S,t+len ≤ v
  · obtain ⟨v,hv,htv⟩ := hlast
    have hd : d=0 := by
      rcases hu.entered with h0 | ⟨u,hus,-,hu⟩
      · exact h0.2
      · have htu : t ≤ u := le_of_add_le_add_right (htv.trans (hlen v hv u hus))
        exact absurd (htu.trans_lt hu) (not_lt.mpr hopen)
    refine ⟨0,⟨hmax,fun _ _ _ _ => le_refl 1,.inl rfl,hentered⟩,?_⟩
    simp [hk,hd]
  · rw [not_exists] at hlast
    have hlt : ∀ v ∈ S,v< t+len := fun v hv => not_le.mp fun h => hlast v ⟨hv,h⟩
    refine ⟨1,⟨hmax,fun _ _ _ _ => le_refl 1,.inr ⟨rfl,le_refl t,hlt⟩,hentered.imp_left ?_⟩,?_⟩
    · rintro ⟨-,h⟩
      cases h
    · have hle := hu.le
      simpa [hk] using hle

omit [IsOrderedCancelAddMonoid T] in
theorem Used.grant [DecidablePred (· ∈ S)] (hu : Used S len max now r s k d) (ht : now ≤ t) (hc : s.count< max)
    (hopen : t< s.opened+len) :
    ∃ d',Used S len max t r ⟨s.opened,s.count+1⟩ k d' ∧
      d+(if decide (t ∈ S) then 1 else 0) ≤ d'+if r && decide (t ∈ S) then 1 else 0 := by
  by_cases hin : t ∈ S ∧ r=false
  · have hd := hu.counted hin.2 t hin.1 ht
    refine ⟨d+1,⟨by omega,fun _ _ _ _ => by simpa using hd,?_,.inr ⟨t,hin.1,le_refl t,hopen⟩⟩,by simp [hin]⟩
    exact (hu.later ht).last
  · refine ⟨d,⟨hu.le,fun hr v hv htv => ?_,(hu.later ht).last,(hu.later ht).entered⟩,?_⟩
    · exact (hu.counted hr v hv (ht.trans htv)).trans (Nat.le_succ _)
    · cases r <;> simp_all

end Used

section Span

variable (S : Set T) [DecidablePred (· ∈ S)]

/-- What is granted in a span of time -/
def grantsIn (h : List (T × Mark)) : Nat := h.countP fun e => e.2.grants && decide (e.1 ∈ S)

/-- What is granted in a span in intervals that were reset in it; `r` says whether the current
interval is one. -/
def enabledIn : Bool → List (T × Mark) → Nat
  | _,[] => 0
  | _,(t,.reset)::h => enabledIn (decide (t ∈ S)) h
  | _,(_,.rollover)::h => enabledIn false h
  | r,(t,.grant)::h => enabledIn r h+if r && decide (t ∈ S) then 1 else 0
  | r,(_,.refusal)::h => enabledIn r h

variable {S}

omit [AddCommMonoid T] [LinearOrder T] in
theorem grantsIn_cons (e : T × Mark) (h : List (T × Mark)) :
    grantsIn S (e::h)=grantsIn S h+if e.2.grants && decide (e.1 ∈ S) then 1 else 0 :=
  List.countP_cons

/-- In a span that is no longer than an interval, there are no more grants than in two intervals,
besides those in intervals that were reset in the span. -/
theorem Run.grantsIn_add_le [IsOrderedCancelAddMonoid T] (hS : S.OrdConnected)
    (hlen : ∀ t ∈ S,∀ u ∈ S,t ≤ u+len) (hpos : 0< len) (hmax : 0< max) (hr : Run len max s h s') :
    ∀ {now : T} {r : Bool} {k d : Nat},(now::h.map Prod.fst).Pairwise (· ≤ ·) →
      Used S len max now r s k d → grantsIn S h+k*max+d ≤ 2*max+enabledIn S r h := by
  induction hr with
  | nil =>
    intro now r k d _ hu
    have hle := hu.le
    have hk : k*max ≤ max := by
      rcases hu.last with rfl | ⟨rfl,-⟩ <;> simp
    simp only [grantsIn,List.countP_nil]
    omega
  | @cons s s1 s' e h hs _ ih =>
    intro now r k d hord hu
    rw [List.map_cons] at hord
    obtain ⟨hnow,htail⟩ := List.pairwise_cons.mp hord
    have ht : now ≤ e.1 := hnow e.1 List.mem_cons_self
    rw [grantsIn_cons]
    cases hs with
    | @reset t =>
      have h' := ih htail (hu.reset hS hpos ht)
      simpa [enabledIn,Mark.grants] using h'
    | @rollover t hopen =>
      by_cases hin : t ∈ S
      · obtain ⟨k',hu',hle⟩ := hu.rollover_inside hpos hmax hlen hopen hin
        have h' := ih htail hu'
        simp only [enabledIn,Mark.grants,hin,decide_true,Bool.and_self,if_true]
        omega
      · have h' := ih htail (hu.rollover_outside hS hpos ht hin)
        simpa [enabledIn,Mark.grants,hin] using h'
    | @grant t hc hopen =>
      obtain ⟨d',hu',hle⟩ := hu.grant (t := t) ht hc hopen
      have h' := ih htail hu'
      simp only [enabledIn,Mark.grants,Bool.true_and]
      omega
    | @refusal t hc hopen =>
      have h' := ih htail (hu.later ht)
      simpa [enabledIn,Mark.grants] using h'

omit [DecidablePred (· ∈ S)] in
theorem Used.initial (now : T) : Used S len max now false s 0 0 :=
  ⟨Nat.zero_le max,fun _ _ _ _ => Nat.zero_le s.count,.inl rfl,.inl ⟨rfl,rfl⟩⟩

omit [AddCommMonoid T] [LinearOrder T] in
theorem grantsIn_empty (he : ∀ t,t ∉ S) (h : List (T × Mark)) : grantsIn S h=0 := by
  refine List.countP_eq_zero.mpr fun e _ => ?_
  simp [he e.1]

theorem Run.grantsIn_le [IsOrderedCancelAddMonoid T] {now : T} (hr : Run len max s h s')
    (hmax : 0< max) (hord : (now::h.map Prod.fst).Pairwise (· ≤ ·)) (hS : S.OrdConnected)
    (hlen : ∀ t ∈ S,∀ u ∈ S,t ≤ u+len) (hpos : 0< len ∨ ∀ t,t ∉ S) :
    grantsIn S h ≤ 2*max+enabledIn S false h := by
  rcases hpos with hpos | he
  · have hle := hr.grantsIn_add_le hS hlen hpos hmax hord (.initial now)
    omega
  · rw [grantsIn_empty he h]
    exact Nat.zero_le _

end Span

end Dinit.Framework.Window
