import Mathlib.Algebra.GroupWithZero.Nat
import Mathlib.Data.Nat.Digits.Lemmas

namespace Dinit.Framework.Numeral

def IsDigit (c : UInt8) : Prop := 48≤ c ∧ c≤ 57

instance (c : UInt8) : Decidable (IsDigit c) := inferInstanceAs (Decidable (_ ∧ _))

instance (l : List UInt8) : Decidable (∀ c∈l,IsDigit c) := List.decidableBAll IsDigit l

def digit (c : UInt8) : Nat := c.toNat-48

/-- The value of digits that follow those of a number -/
def valueFrom (n : Nat) (l : List UInt8) : Nat := l.foldl (fun n c => n*10+digit c) n

/-- The value of digits, the most significant first -/
def value (l : List UInt8) : Nat := valueFrom 0 l

theorem valueFrom_cons (n : Nat) (c : UInt8) (l : List UInt8) :
    valueFrom n (c::l)=valueFrom (n*10+digit c) l := List.foldl_cons ..

theorem valueFrom_append (n : Nat) (l m : List UInt8) :
    valueFrom n (l++m)=valueFrom (valueFrom n l) m := List.foldl_append

theorem valueFrom_eq (n : Nat) (l : List UInt8) : valueFrom n l=n*10^l.length+value l := by
  induction l generalizing n with
  | nil => simp [valueFrom,value]
  | cons c l ih =>
    rw [value,valueFrom_cons,valueFrom_cons,ih,ih (0*10+digit c),List.length_cons,Nat.pow_succ]
    ring

theorem value_cons (c : UInt8) (l : List UInt8) :
    value (c::l)=digit c*10^l.length+value l := by
  rw [value,valueFrom_cons,valueFrom_eq,Nat.zero_mul,Nat.zero_add]

theorem value_snoc (l : List UInt8) (c : UInt8) : value (l++[c])=value l*10+digit c :=
  valueFrom_append 0 l [c]

theorem IsDigit.lt {c : UInt8} (h : IsDigit c) : digit c<10 := by
  have hc : c.toNat≤ 57 := h.2
  unfold digit
  omega

theorem value_lt {l : List UInt8} (h : ∀ c∈l,IsDigit c) : value l<10^l.length := by
  induction l with
  | nil => exact Nat.one_pos
  | cons c l ih =>
    obtain ⟨hc,hl⟩ := List.forall_mem_cons.mp h
    have hlt := ih hl
    have hd : digit c*10^l.length≤ 9*10^l.length :=
      Nat.mul_le_mul_right _ (Nat.le_of_lt_succ hc.lt)
    rw [value_cons,List.length_cons,Nat.pow_succ]
    omega

/-- Without its last digit, a number is a tenth. -/
theorem value_dropLast {l : List UInt8} (h : ∀ c∈l,IsDigit c) : value l.dropLast=value l/10 := by
  rcases List.eq_nil_or_concat l with rfl | ⟨l,c,rfl⟩
  · rfl
  · have hlt := (h c (by simp)).lt
    rw [List.concat_eq_append,List.dropLast_concat,value_snoc]
    omega

/-- The decimal numeral of a number, without leading zeros -/
def ofNat (n : Nat) : List UInt8 :=
  if n=0 then [48] else ((Nat.digits 10 n).map fun d => UInt8.ofNat (48+d)).reverse

/-- The number that a numeral with a sign stands for -/
def toInt : List UInt8 → Int
  | [] => 0
  | c::l => if c=45 then -(value l : Int) else value (c::l)

theorem digit_ofNat {d : Nat} (h : d<10) :
    IsDigit (UInt8.ofNat (48+d)) ∧ digit (UInt8.ofNat (48+d))=d := by
  have heq : (UInt8.ofNat (48+d)).toNat=48+d := UInt8.toNat_ofNat_of_lt' (by
    show _<256
    omega)
  refine ⟨⟨?_,?_⟩,?_⟩
  · show 48≤ (UInt8.ofNat (48+d)).toNat
    omega
  · show (UInt8.ofNat (48+d)).toNat≤ 57
    omega
  · unfold digit
    omega

theorem ofNat_ten (n : Nat) (h : n≠0) :
    ((Nat.digits 10 n).map fun d => UInt8.ofNat (48+d))=
      UInt8.ofNat (48+n%10)::(Nat.digits 10 (n/10)).map fun d => UInt8.ofNat (48+d) := by
  rw [Nat.digits_eq_cons_digits_div (by decide) h,List.map_cons]

theorem ofNat_digits (n : Nat) : ∀ c∈ofNat n,IsDigit c := by
  intro c hc
  unfold ofNat at hc
  split at hc
  · rw [List.mem_singleton.mp hc]
    decide
  · obtain ⟨d,hd,rfl⟩ := List.mem_map.mp (List.mem_reverse.mp hc)
    exact (digit_ofNat (Nat.digits_lt_base (by decide) hd)).1

theorem ofNat_ne_nil (n : Nat) : ofNat n≠[] := by
  unfold ofNat
  split
  · simp
  · next h =>
    have hne : Nat.digits 10 n≠[] := Nat.digits_ne_nil_iff_ne_zero.mpr h
    exact fun hnil => hne (List.map_eq_nil_iff.mp (List.reverse_eq_nil_iff.mp hnil))

/-- The numeral stands for the number. -/
theorem value_ofNat (n : Nat) : value (ofNat n)=n := by
  have hrev : ∀ n,value ((Nat.digits 10 n).map fun d => UInt8.ofNat (48+d)).reverse=n := by
    intro n
    induction n using Nat.strongRecOn with
    | ind n ih =>
      by_cases h : n=0
      · rw [h]
        rfl
      · have hlt := Nat.mod_lt n (show 0<10 by decide)
        rw [ofNat_ten n h,List.reverse_cons,value_snoc,ih _ (by omega),(digit_ofNat hlt).2]
        omega
  unfold ofNat
  split
  · next h =>
    rw [h]
    rfl
  · exact hrev n

/-- No leading zeros -/
theorem head_ofNat {n : Nat} (h : n≠0) : (ofNat n).head?≠some 48 := by
  have hne : Nat.digits 10 n≠[] := Nat.digits_ne_nil_iff_ne_zero.mpr h
  have hlast := Nat.getLast_digit_ne_zero 10 h
  have hlt : (Nat.digits 10 n).getLast hne<10 :=
    Nat.digits_lt_base (by decide) (List.getLast_mem hne)
  rw [ofNat,if_neg h,List.head?_reverse,List.getLast?_map,List.getLast?_eq_some_getLast hne]
  intro heq
  have hdigit := (digit_ofNat hlt).2
  have hzero : UInt8.ofNat (48+(Nat.digits 10 n).getLast hne)=48 := Option.some.inj heq
  rw [hzero] at hdigit
  exact hlast hdigit.symm

/-- As many digits as a larger number has are enough. -/
theorem length_ofNat_le {n m : Nat} (h : n≤ m) (hm : 0< m) :
    (ofNat n).length≤ (Nat.digits 10 m).length := by
  have hlen := Nat.le_length_digits_le 10 n m h
  have hne : Nat.digits 10 m≠[] := Nat.digits_ne_nil_iff_ne_zero.mpr (Nat.ne_of_gt hm)
  have hpos := List.length_pos_iff.mpr hne
  unfold ofNat
  split
  · exact hpos
  · simpa using hlen

theorem toInt_ofNat (n : Nat) : toInt (ofNat n)=n := by
  have hvalue := value_ofNat n
  have hdigits := ofNat_digits n
  cases heq : ofNat n with
  | nil => exact absurd heq (ofNat_ne_nil n)
  | cons c l =>
    rw [heq] at hvalue hdigits
    have hc : c≠45 := fun h => absurd (hdigits c (List.mem_cons_self ..)) (by rw [h]; decide)
    rw [toInt,if_neg hc,hvalue]

end Dinit.Framework.Numeral
