import Mathlib.Data.List.TakeWhile
import Dinit.Settings.Timespec

namespace Dinit

open Framework.Numeral

namespace Timespec

def Separator (c : UInt8) : Prop := c=46 ∨ c=44

instance (c : UInt8) : Decidable (Separator c) := inferInstanceAs (Decidable (_ ∨ _))

/-- A text is digits, or digits on both sides of a point or a comma, of which there may be none. -/
structure Parts (s int frac : List UInt8) : Prop where
  digits : ∀ c∈int,IsDigit c
  more : ∀ c∈frac,IsDigit c
  text : s=int ∧ frac=[] ∨ ∃ sep,Separator sep ∧ s=int++sep::frac

/-- A decimal numeral: digits, optionally a point or a comma and more digits -/
def Numeral (s int frac : List UInt8) : Prop :=
  Parts s int frac ∧ int≠[] ∧ (s=int ∨ frac≠[])

/-- Without a digit before the point, or behind it, and not refused as too large -/
def Incomplete (s : List UInt8) : Prop :=
  ∃ int frac,Parts s int frac ∧ value int/10< maxSecs ∧ (int=[] ∨ s≠int ∧ frac=[])

/-- The text is rejected, or is a numeral and gives its value, with the fraction cut off behind the
nanoseconds. A numeral that is small enough is not rejected, and nothing overflows. -/
def Exact (paramName : String) (s : List UInt8) : Prop :=
  match parseTimespec paramName s with
  | .ok (sec,nsec) => ∃ int frac,Numeral s int frac ∧ sec=value int ∧
      nsec=value frac*10^9/10^frac.length ∧ nsec<10^9
  | .error (.descriptionError _) => ∀ int frac,Numeral s int frac → ¬value int<timeMax/10
  | .error .overflow => False

/-- Each digit finds the number before it small enough. -/
def Fits : Nat → List UInt8 → Prop
  | _,[] => True
  | n,c::l => n< maxSecs ∧ Fits (n*10+digit c) l

section
variable {paramName : String} {ch : UInt8} {l rest int : List UInt8} {n v : Nat}

theorem Separator.not_digit (h : Separator ch) : ¬IsDigit ch := by
  rcases h with rfl | rfl <;> decide

theorem not_digit_iff : ch<48 ∨ 57<ch ↔ ¬IsDigit ch := by
  unfold IsDigit
  rw [not_and_or,UInt8.not_le,UInt8.not_le]

theorem parseSeconds_separator (h : Separator ch) :
    parseSeconds paramName (ch::rest) n=.ok (n,rest) := if_pos h

theorem parseSeconds_bad (h : ¬Separator ch) (hd : ¬IsDigit ch) :
    parseSeconds paramName (ch::rest) n=.error (badTime paramName) := by
  have hsep : ¬(ch=46 ∨ ch=44) := h
  unfold parseSeconds
  rw [if_neg hsep,if_pos (not_digit_iff.mpr hd)]

theorem parseSeconds_large (hd : IsDigit ch) (hn : maxSecs≤ n) :
    parseSeconds paramName (ch::rest) n=.error (largeTime paramName) := by
  have hsep : ¬(ch=46 ∨ ch=44) := fun h => Separator.not_digit h hd
  unfold parseSeconds
  rw [if_neg hsep,if_neg (fun h => not_digit_iff.mp h hd),if_pos hn]

/-- Below a tenth of the maximum, another digit can be added. -/
theorem parseSeconds_digit (hd : IsDigit ch) (hn : n< maxSecs) :
    parseSeconds paramName (ch::rest) n=parseSeconds paramName rest (n*10+digit ch) := by
  have hsep : ¬(ch=46 ∨ ch=44) := fun h => Separator.not_digit h hd
  have hlt := hd.lt
  have hmul : checked timeMax (n*10)=.ok (n*10) := if_pos (by unfold maxSecs timeMax at *; omega)
  have hadd : checked timeMax (n*10+digit ch)=.ok (n*10+digit ch) :=
    if_pos (by unfold maxSecs timeMax at *; omega)
  rw [parseSeconds,if_neg hsep,if_neg (fun h => not_digit_iff.mp h hd),if_neg (by omega),hmul]
  exact congrArg (· >>= parseSeconds paramName rest) hadd

theorem parseSeconds_no_overflow (l : List UInt8) (n : Nat) :
    parseSeconds paramName l n≠.error .overflow := by
  induction l generalizing n with
  | nil => simp [parseSeconds]
  | cons ch rest ih =>
    by_cases hsep : Separator ch
    · simp [parseSeconds_separator hsep]
    by_cases hd : IsDigit ch
    · by_cases hn : n< maxSecs
      · rw [parseSeconds_digit hd hn]
        exact ih _
      · simp [parseSeconds_large hd (Nat.not_lt.mp hn),largeTime]
    · simp [parseSeconds_bad hsep hd,badTime]

/-- The loop ends behind the integer part, or at the end. -/
theorem parseSeconds_iff :
    parseSeconds paramName l n=.ok (v,rest) ↔ ∃ int,(∀ c∈int,IsDigit c) ∧ Fits n int ∧
      v=valueFrom n int ∧ (l=int ∧ rest=[] ∨ ∃ sep,Separator sep ∧ l=int++sep::rest) := by
  induction l generalizing n with
  | nil =>
    constructor
    · intro h
      cases h
      exact ⟨[],by simp,trivial,rfl,.inl ⟨rfl,rfl⟩⟩
    · intro h
      obtain ⟨int,-,-,rfl,⟨rfl,rfl⟩ | ⟨sep,-,heq⟩⟩ := h
      · rfl
      · simp at heq
  | cons ch tail ih =>
    constructor
    · intro h
      by_cases hsep : Separator ch
      · rw [parseSeconds_separator hsep] at h
        cases h
        exact ⟨[],by simp,trivial,rfl,.inr ⟨ch,hsep,rfl⟩⟩
      by_cases hd : IsDigit ch
      · by_cases hn : n< maxSecs
        · rw [parseSeconds_digit hd hn] at h
          obtain ⟨int,hint,hfits,hv,htext⟩ := ih.mp h
          refine ⟨ch::int,List.forall_mem_cons.mpr ⟨hd,hint⟩,⟨hn,hfits⟩,hv,?_⟩
          obtain ⟨rfl,hrest⟩ | ⟨sep,hs,rfl⟩ := htext
          · exact .inl ⟨rfl,hrest⟩
          · exact .inr ⟨sep,hs,rfl⟩
        · rw [parseSeconds_large hd (Nat.not_lt.mp hn)] at h
          cases h
      · rw [parseSeconds_bad hsep hd] at h
        cases h
    · intro h
      obtain ⟨int,hint,hfits,hv,htext⟩ := h
      cases int with
      | nil =>
        obtain ⟨heq,-⟩ | ⟨sep,hs,heq⟩ := htext
        · cases heq
        · cases heq
          rw [parseSeconds_separator hs,hv]
          rfl
      | cons c int =>
        obtain ⟨hd,hint⟩ := List.forall_mem_cons.mp hint
        obtain ⟨hn,hfits⟩ := hfits
        have hc : ch=c := by
          obtain ⟨heq,-⟩ | ⟨sep,-,heq⟩ := htext <;> exact (List.cons.inj heq).1
        rw [hc,parseSeconds_digit hd hn]
        refine ih.mpr ⟨int,hint,hfits,hv,?_⟩
        obtain ⟨heq,hrest⟩ | ⟨sep,hs,heq⟩ := htext
        · exact .inl ⟨(List.cons.inj heq).2,hrest⟩
        · exact .inr ⟨sep,hs,(List.cons.inj heq).2⟩

theorem le_valueFrom (n : Nat) (l : List UInt8) : n≤ valueFrom n l := by
  rw [valueFrom_eq]
  exact Nat.le_add_right_of_le (Nat.le_mul_of_pos_right n (Nat.pos_of_ne_zero (by simp)))

theorem fits_iff (n : Nat) (l : List UInt8) :
    Fits n l ↔ l=[] ∨ valueFrom n l.dropLast< maxSecs := by
  induction l generalizing n with
  | nil => simp [Fits]
  | cons c l ih =>
    rw [Fits,ih]
    cases l with
    | nil => simp [valueFrom]
    | cons d l =>
      have hle := le_valueFrom (n*10+digit c) (d::l).dropLast
      rw [List.dropLast_cons_cons,valueFrom_cons]
      constructor
      · intro h
        exact .inr (h.2.resolve_left (List.cons_ne_nil _ _))
      · intro h
        have hlt := h.resolve_left (List.cons_ne_nil _ _)
        exact ⟨by omega,.inr hlt⟩

/-- The integer part is taken if its value without the last digit is small enough. -/
theorem fits_zero (h : ∀ c∈int,IsDigit c) : Fits 0 int ↔ value int/10< maxSecs := by
  rw [fits_iff,← value_dropLast h]
  constructor
  · intro hor
    obtain rfl | hlt := hor
    · decide
    · exact hlt
  · exact .inr

theorem parseFraction_bad (hd : ¬IsDigit ch) (insec insecM : Nat) :
    parseFraction paramName (ch::rest) insec insecM=.error (badTime paramName) :=
  if_pos (not_digit_iff.mpr hd)

theorem parseFraction_digit (hd : IsDigit ch) {insec insecM : Nat}
    (hle : insec+digit ch*insecM≤ longMax) :
    parseFraction paramName (ch::rest) insec insecM=
      parseFraction paramName rest (insec+digit ch*insecM) (insecM/10) := by
  have hmul : checked longMax (digit ch*insecM)=.ok (digit ch*insecM) := if_pos (by omega)
  have hadd : checked longMax (insec+digit ch*insecM)=.ok (insec+digit ch*insecM) := if_pos hle
  unfold digit at hmul
  rw [parseFraction,if_neg (fun h => not_digit_iff.mp h hd),hmul]
  exact congrArg (· >>= fun insec => parseFraction paramName rest insec (insecM/10)) hadd

/-- Once the multiplier is zero, digits count no more. -/
theorem parseFraction_zero (l : List UInt8) {insec : Nat} (hle : insec≤ longMax) :
    parseFraction paramName l insec 0=
      if ∀ c∈l,IsDigit c then .ok insec else .error (badTime paramName) := by
  induction l with
  | nil => exact (if_pos (by simp)).symm
  | cons ch rest ih =>
    by_cases hd : IsDigit ch
    · rw [parseFraction_digit hd (by simpa using hle),Nat.mul_zero,Nat.add_zero,Nat.zero_div,ih]
      simp [hd]
    · rw [parseFraction_bad hd,if_neg]
      exact fun h => hd (h ch (List.mem_cons_self ..))

theorem parseFraction_eq (l : List UInt8) {insec k : Nat} (hle : insec+10^(k+1)≤ 10^9) :
    parseFraction paramName l insec (10^k)=
      if ∀ c∈l,IsDigit c then .ok (insec+value l*10^(k+1)/10^l.length)
      else .error (badTime paramName) := by
  induction l generalizing insec k with
  | nil =>
    rw [if_pos (by simp)]
    simp [parseFraction,value,valueFrom]
  | cons ch rest ih =>
    by_cases hd : IsDigit ch
    · have hpart : digit ch*10^k≤ 9*10^k := Nat.mul_le_mul_right _ (Nat.le_of_lt_succ hd.lt)
      have hpow : 10^(k+1)=10*10^k := by rw [Nat.pow_succ,Nat.mul_comm]
      have hpos : 0<10^k := Nat.pos_of_ne_zero (by simp)
      have hmax : 10^9≤ longMax := by decide
      rw [parseFraction_digit hd (by omega)]
      have hall : (∀ c∈ch::rest,IsDigit c) ↔ ∀ c∈rest,IsDigit c := by simp [hd]
      simp only [hall]
      have hsplit : value (ch::rest)*10^(k+1)/10^(ch::rest).length=
          digit ch*10^k+value rest*10^k/10^rest.length := by
        have hlen : 0<10^rest.length := Nat.pos_of_ne_zero (by simp)
        have heq : value (ch::rest)*10^(k+1)=
            (value rest*10^k+digit ch*10^k*10^rest.length)*10 := by
          rw [value_cons,hpow]
          ring
        rw [heq,List.length_cons,Nat.pow_succ,Nat.mul_div_mul_right _ _ (by decide),
          Nat.add_mul_div_right _ _ hlen,Nat.add_comm]
      cases k with
      | zero =>
        rw [Nat.pow_zero,Nat.mul_one,show 1/10=0 from rfl,parseFraction_zero _ (by omega)]
        by_cases hrest : ∀ c∈rest,IsDigit c
        · rw [if_pos hrest,if_pos hrest,hsplit,Nat.pow_zero,Nat.mul_one,Nat.mul_one,
            Nat.div_eq_of_lt (value_lt hrest),Nat.add_zero]
        · rw [if_neg hrest,if_neg hrest]
      | succ k =>
        have hdiv : 10^(k+1)/10=10^k := Nat.mul_div_cancel _ (by decide)
        rw [hdiv,ih (by omega),hsplit,Nat.add_assoc]
    · rw [parseFraction_bad hd,if_neg]
      exact fun h => hd (h ch (List.mem_cons_self ..))

/-- The parts of a text are where the first byte is that is no digit. -/
theorem Parts.eq {s int frac : List UInt8} (h : Parts s int frac) :
    int=s.takeWhile (fun c => IsDigit c) ∧ frac=(s.dropWhile fun c => IsDigit c).tail := by
  obtain ⟨hint,-,⟨rfl,rfl⟩ | ⟨sep,hsep,rfl⟩⟩ := h
  · have hall : ∀ c∈s,decide (IsDigit c)=true := fun c hc => decide_eq_true (hint c hc)
    rw [List.takeWhile_eq_self_iff.mpr hall,List.dropWhile_eq_nil_iff.mpr hall]
    exact ⟨rfl,rfl⟩
  · have hall : ∀ c∈int,decide (IsDigit c)=true := fun c hc => decide_eq_true (hint c hc)
    have hstop : ¬(fun c => decide (IsDigit c)) sep=true := by simpa using hsep.not_digit
    rw [List.takeWhile_append_of_pos hall,List.dropWhile_append_of_pos hall,
      List.takeWhile_cons_of_neg (p := fun c => decide (IsDigit c)) hstop,
      List.dropWhile_cons_of_neg (p := fun c => decide (IsDigit c)) hstop,List.append_nil]
    exact ⟨rfl,rfl⟩

theorem parseFraction_start (paramName : String) (l : List UInt8) :
    parseFraction paramName l 0 100000000=
      if ∀ c∈l,IsDigit c then .ok (value l*10^9/10^l.length) else .error (badTime paramName) := by
  have hle : 0+10^(8+1)≤ 10^9 := by decide
  have heq : parseFraction paramName l 0 (10^8)=_ := parseFraction_eq l hle
  rw [Nat.zero_add] at heq
  exact heq

theorem parseTimespec_bind (s : List UInt8) :
    parseTimespec paramName s=(parseSeconds paramName s 0).bind fun p =>
      (parseFraction paramName p.2 0 100000000).bind fun insec => .ok (p.1,insec) := rfl

/-- What is accepted, and what it gives -/
theorem parseTimespec_iff {s : List UInt8} {sec nsec : Nat} :
    parseTimespec paramName s=.ok (sec,nsec) ↔ ∃ int frac,Parts s int frac ∧
      value int/10< maxSecs ∧ sec=value int ∧ nsec=value frac*10^9/10^frac.length := by
  rw [parseTimespec_bind]
  constructor
  · intro h
    cases hsec : parseSeconds paramName s 0 with
    | error e =>
      rw [hsec] at h
      cases h
    | ok p =>
      obtain ⟨v,rest⟩ := p
      rw [hsec] at h
      obtain ⟨int,hint,hfits,hv,htext⟩ := parseSeconds_iff.mp hsec
      have hfrac := parseFraction_start paramName rest
      by_cases hrest : ∀ c∈rest,IsDigit c
      · rw [if_pos hrest] at hfrac
        change ((parseFraction paramName rest 0 100000000).bind _)=_ at h
        rw [hfrac] at h
        cases h
        exact ⟨int,rest,⟨hint,hrest,htext⟩,(fits_zero hint).mp hfits,hv,rfl⟩
      · rw [if_neg hrest] at hfrac
        change ((parseFraction paramName rest 0 100000000).bind _)=_ at h
        rw [hfrac] at h
        cases h
  · intro h
    obtain ⟨int,frac,⟨hint,hfrac,htext⟩,hlt,rfl,rfl⟩ := h
    have hsec : parseSeconds paramName s 0=.ok (value int,frac) :=
      parseSeconds_iff.mpr ⟨int,hint,(fits_zero hint).mpr hlt,rfl,htext⟩
    have hnsec := parseFraction_start paramName frac
    rw [if_pos hfrac] at hnsec
    rw [hsec]
    change ((parseFraction paramName frac 0 100000000).bind _)=_
    rw [hnsec]
    rfl

theorem parseTimespec_no_overflow (paramName : String) (s : List UInt8) :
    parseTimespec paramName s≠.error .overflow := by
  rw [parseTimespec_bind]
  cases hsec : parseSeconds paramName s 0 with
  | error e =>
    intro h
    cases h
    exact parseSeconds_no_overflow s 0 hsec
  | ok p =>
    have hfrac := parseFraction_start paramName p.2
    intro h
    change ((parseFraction paramName p.2 0 100000000).bind _)=_ at h
    rw [hfrac] at h
    split at h <;> cases h

theorem nsec_lt {frac : List UInt8} (h : ∀ c∈frac,IsDigit c) :
    value frac*10^9/10^frac.length<10^9 := by
  have hlt := value_lt h
  rw [Nat.div_lt_iff_lt_mul (Nat.pos_of_ne_zero (by simp)),Nat.mul_comm (10^9)]
  exact Nat.mul_lt_mul_of_pos_right hlt (by decide)

/-- Times are parsed exactly, but for a text that lacks the digits before the point or behind it. -/
theorem exact_iff (paramName : String) (s : List UInt8) : Exact paramName s ↔ ¬Incomplete s := by
  have hno := parseTimespec_no_overflow paramName s
  unfold Exact
  cases hres : parseTimespec paramName s with
  | ok p =>
    obtain ⟨sec,nsec⟩ := p
    obtain ⟨int,frac,hparts,hlt,hsec,hnsec⟩ := parseTimespec_iff.mp hres
    dsimp only
    constructor
    · intro h
      obtain ⟨int1,frac1,⟨hparts1,hne,hor⟩,-⟩ := h
      intro hinc
      obtain ⟨int2,frac2,hparts2,-,hlack⟩ := hinc
      have hint : int2=int1 := hparts2.eq.1.trans hparts1.eq.1.symm
      have hfrac : frac2=frac1 := hparts2.eq.2.trans hparts1.eq.2.symm
      rw [hint,hfrac] at hlack
      obtain hnil | ⟨hne',hnil⟩ := hlack
      · exact hne hnil
      · exact hor.elim hne' fun h => h hnil
    · intro hinc
      have hnsec_lt := nsec_lt hparts.more
      refine ⟨int,frac,⟨hparts,fun hnil => ?_,?_⟩,hsec,hnsec,by rw [hnsec]; exact hnsec_lt⟩
      · exact hinc ⟨int,frac,hparts,hlt,.inl hnil⟩
      · by_contra hor
        obtain ⟨hne,hnil⟩ := not_or.mp hor
        exact hinc ⟨int,frac,hparts,hlt,.inr ⟨hne,not_not.mp hnil⟩⟩
  | error e =>
    have hnot : ∀ int frac,Parts s int frac → ¬value int/10< maxSecs := by
      intro int frac hparts hlt
      have hok : parseTimespec paramName s=.ok _ :=
        parseTimespec_iff.mpr ⟨int,frac,hparts,hlt,rfl,rfl⟩
      rw [hres] at hok
      cases hok
    cases e with
    | overflow => exact absurd hres hno
    | descriptionError message =>
      refine iff_of_true (fun int frac hnum hlt => ?_) fun hinc => ?_
      · refine hnot int frac hnum.1 ?_
        unfold maxSecs
        omega
      · obtain ⟨int,frac,hparts,hlt,-⟩ := hinc
        exact hnot int frac hparts hlt

/-- Nothing, and a point alone, are taken for no time at all. -/
theorem no_digits_accepted :
    parseTimespec "restart-delay" []=.ok (0,0) ∧ parseTimespec "restart-delay" [46]=.ok (0,0) ∧
      ¬Exact "restart-delay" [] := by
  refine ⟨rfl,rfl,fun h => ?_⟩
  obtain ⟨int,frac,⟨hparts,hne,-⟩,-⟩ := h
  exact hne hparts.eq.1

end
end Timespec
end Dinit
