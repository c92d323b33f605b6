import Dinit.Settings.Rlimit

namespace Dinit

/-- A number that `strtoull` reads to its end, and that fits. -/
def Number (t : List UInt8) (v : Nat) : Prop := t≠[] ∧ strtoull t=⟨v,[],false⟩ ∧ v≤ rlimMax

/-- A limit. Whether a number may begin with a minus sign is left open. -/
inductive Limit (negative : Prop) : List UInt8 → Nat → Prop
  | unlimited : Limit negative [45] rlimInfinity
  | number {t v} (h : Number t v) (hs : t.head?=some 45 → negative) : Limit negative t v

inductive Side (negative : Prop) : List UInt8 → Option Nat → Prop
  | unset : Side negative [] none
  | set {t v} (h : Limit negative t v) : Side negative t (some v)

/-- The forms of a resource limit setting, and the soft and the hard limit that they stand for. -/
inductive Denotes (negative : Prop) : List UInt8 → Option Nat → Option Nat → Prop
  | both {t v} (h : Limit negative t v) : Denotes negative t (some v) (some v)
  | sides {x y a b} (hx : Side negative x a) (hy : Side negative y b) :
      Denotes negative (x++58::y) a b

/-- `parse_rlimit` returns, and has set these limits. -/
def Accepts (s : List UInt8) (paramName : String) (rlimit : ServiceRlimits) (a b : Option Nat) :
    Prop := ∃ r,parseRlimit s paramName rlimit=.ok r ∧ r.soft=a ∧ r.hard=b

/-- A number with something behind it that is no part of it. -/
def Overrun (w : List UInt8) (v : Nat) : Prop :=
  ∃ y u,w=y++u ∧ Number y v ∧ y.head?≠some 45 ∧ u≠[] ∧ (strtoull w).nindex=u

/-- A setting with something behind the hard limit. -/
def Unfinished (s : List UInt8) (a b : Option Nat) : Prop :=
  ∃ x y v,s=x++58::y ∧ Side False x a ∧ Overrun y v ∧ b=some v

/-- What is taken for something that it is not. -/
inductive Mistaken : List UInt8 → Prop
  | negative {s a b} (h : Denotes True s a b) (hn : ¬Denotes False s a b) : Mistaken s
  | nul {t u a b} (h : Denotes False t a b) : Mistaken (t++0::u)
  | unfinished {s a b} (h : Unfinished s a b) : Mistaken s

/-- A character that is neither blank nor part of a number. -/
def Stop (c : UInt8) : Prop := c=58 ∨ c=0

theorem Stop.not_space {c : UInt8} (h : Stop c) : isSpace c=false := by
  rcases h with rfl | rfl <;> rfl

theorem Stop.not_digit {c : UInt8} (h : Stop c) (base : Nat) : isDigit base c=false := by
  unfold isDigit
  rcases h with rfl | rfl <;> simp

theorem takeWhile_stop {p : UInt8 → Bool} {c : UInt8} (hc : p c=false) (l u : List UInt8) :
    (l++c::u).takeWhile p=l.takeWhile p := by
  induction l with
  | nil => simp [hc]
  | cons a l ih => simp only [List.cons_append,List.takeWhile_cons,ih]

theorem dropWhile_stop {p : UInt8 → Bool} {c : UInt8} (hc : p c=false) (l u : List UInt8) :
    (l++c::u).dropWhile p=l.dropWhile p++c::u := by
  induction l with
  | nil => simp [hc]
  | cons a l ih =>
    simp only [List.cons_append,List.dropWhile_cons,ih]
    split <;> rfl

theorem numberSign_stop {c : UInt8} (hc : Stop c) (l u : List UInt8) :
    numberSign (l++c::u)=((numberSign l).1,(numberSign l).2++c::u) := by
  cases l with
  | nil => rcases hc with rfl | rfl <;> rfl
  | cons a l =>
    simp only [List.cons_append,numberSign]
    split
    · rfl
    · split <;> rfl

theorem numberBase_stop {c : UInt8} (hc : Stop c) (l u : List UInt8) :
    numberBase (l++c::u)=((numberBase l).1,(numberBase l).2++c::u) := by
  have hd := hc.not_digit 16
  match l with
  | [] =>
    match u with
    | [] => rcases hc with rfl | rfl <;> rfl
    | [d] => rcases hc with rfl | rfl <;> rfl
    | d::e::u => rcases hc with rfl | rfl <;> rfl
  | [a] =>
    match u with
    | [] =>
      simp only [List.cons_append,List.nil_append,numberBase]
      split <;> rfl
    | d::u =>
      have hx : ¬((c=120 ∨ c=88) ∧ isDigit 16 d=true) := by
        rcases hc with rfl | rfl <;> simp
      simp only [List.cons_append,List.nil_append,numberBase,if_neg hx]
      split <;> rfl
  | [a,x] =>
    simp only [List.cons_append,List.nil_append,numberBase,hd]
    split <;> simp
  | a::x::d::l =>
    simp only [List.cons_append,numberBase]
    split
    · split <;> rfl
    · rfl

/-- `strtoull` does not look behind a character that stops it. -/
theorem strtoull_stop {c : UInt8} (hc : Stop c) (l u : List UInt8) :
    strtoull (l++c::u)={strtoull l with nindex := (strtoull l).nindex++c::u} := by
  have hbase := numberBase_stop hc (numberSign (l.dropWhile isSpace)).2 u
  simp only [strtoull,dropWhile_stop hc.not_space,numberSign_stop hc,hbase,
    takeWhile_stop (hc.not_digit _),dropWhile_stop (hc.not_digit _)]
  split
  · rfl
  · split <;> rfl

/-- What is read with something behind it is read in the same way alone, first for each part. -/
theorem dropWhile_take {p : UInt8 → Bool} {a b c : List UInt8} (h : (a++b).dropWhile p=c++b)
    (hc : c≠[]) : a.dropWhile p=c := by
  rw [List.dropWhile_append] at h
  split at h
  · have hlen := congrArg List.length h
    have hle := (List.dropWhile_sublist p (l := b)).length_le
    have hpos := List.length_pos_of_ne_nil hc
    rw [List.length_append] at hlen
    omega
  · exact List.append_cancel_right h

theorem takeWhile_take {p : UInt8 → Bool} {a b : List UInt8} (h : (a++b).dropWhile p=b) :
    a.takeWhile p=(a++b).takeWhile p ∧ a.dropWhile p=[] := by
  have ha : (a++b).takeWhile p=a := by
    have hsplit := List.takeWhile_append_dropWhile (p := p) (l := a++b)
    rw [h] at hsplit
    exact List.append_cancel_right hsplit
  have hall : ∀ x ∈ a,p x=true := by
    rw [← ha]
    exact fun x hx => List.mem_takeWhile_imp hx
  exact ⟨(List.takeWhile_eq_self_iff.mpr hall).trans ha.symm,List.dropWhile_eq_nil_iff.mpr hall⟩

theorem numberSign_suffix (l : List UInt8) : (numberSign l).2 <:+ l := by
  cases l with
  | nil => simp [numberSign]
  | cons c l =>
    simp only [numberSign]
    split
    · exact List.suffix_cons c l
    · split
      · exact List.suffix_cons c l
      · exact List.suffix_rfl

theorem numberSign_take {a b c : List UInt8} {neg : Bool} (h : numberSign (a++b)=(neg,c++b))
    (hc : c≠[]) : numberSign a=(neg,c) := by
  cases a with
  | nil =>
    have hle := (numberSign_suffix b).length_le
    have hpos := List.length_pos_of_ne_nil hc
    rw [List.nil_append] at h
    rw [h,List.length_append] at hle
    omega
  | cons d a =>
    simp only [List.cons_append,numberSign] at h ⊢
    by_cases h45 : d=45
    · simp_all
    by_cases h43 : d=43
    · simp_all
    simp only [h45,h43,if_false,Prod.mk.injEq] at h ⊢
    exact ⟨h.1,List.append_cancel_right h.2⟩

/-- Does the text begin with `0x` and a hexadecimal digit? -/
def Hex (l : List UInt8) : Prop :=
  ∃ x d t,l=48::x::d::t ∧ (x=120 ∨ x=88) ∧ isDigit 16 d=true

theorem numberBase_plain {l : List UInt8} (h : ¬Hex l) :
    numberBase l=(if l.head?=some 48 then 8 else 10,l) := by
  match l with
  | [] => simp [numberBase]
  | [c] =>
    simp only [numberBase,List.head?_cons,Option.some.injEq]
    split <;> rfl
  | [c,x] =>
    simp only [numberBase,List.head?_cons,Option.some.injEq]
    split <;> rfl
  | c::x::d::t =>
    simp only [numberBase,List.head?_cons,Option.some.injEq]
    split
    · next hc =>
      have hn : ¬((x=120 ∨ x=88) ∧ isDigit 16 d=true) := fun hx => h ⟨x,d,t,by rw [hc],hx⟩
      rw [if_neg hn]
    · rfl

theorem numberBase_take {a b c : List UInt8} {base : Nat} (h : numberBase (a++b)=(base,c++b))
    (hc : c≠[]) : numberBase a=(base,c) := by
  have hpos := List.length_pos_of_ne_nil hc
  by_cases hx : Hex (a++b)
  · obtain ⟨x,d,t,hl,hx⟩ := hx
    have hval : numberBase (48::x::d::t)=(16,d::t) := by simp [numberBase,hx]
    rw [hl,hval] at h
    obtain ⟨rfl,ht⟩ := Prod.mk.inj h
    rw [ht] at hl
    have ha : a=48::x::c := List.append_cancel_right hl
    cases c with
    | nil => exact absurd rfl hc
    | cons e c =>
      obtain rfl : d=e := (List.cons.inj ht).1
      rw [ha]
      simp [numberBase,hx]
  · rw [numberBase_plain hx] at h
    obtain ⟨hbase,h⟩ := Prod.mk.inj h
    obtain rfl : a=c := List.append_cancel_right h
    have ha : ¬Hex a := by
      rintro ⟨x,d,t,rfl,hd⟩
      exact hx ⟨x,d,t++b,rfl,hd⟩
    rw [numberBase_plain ha,← hbase,List.head?_append_of_ne_nil _ hc]

theorem numberBase_suffix (l : List UInt8) : (numberBase l).2 <:+ l := by
  by_cases hx : Hex l
  · obtain ⟨x,d,t,rfl,hx⟩ := hx
    have hval : numberBase (48::x::d::t)=(16,d::t) := by simp [numberBase,hx]
    rw [hval]
    exact List.suffix_append [48,x] (d::t)
  · rw [numberBase_plain hx]

theorem strtoull_eq {w t u n : List UInt8} {neg : Bool} {base : Nat} (ht : w.dropWhile isSpace=t)
    (hu : numberSign t=(neg,u)) (hn : numberBase u=(base,n)) :
    strtoull w=if n.takeWhile (isDigit base)=[] then ⟨0,w,false⟩ else
      if ullongMax< numberValue base (n.takeWhile (isDigit base)) then
        ⟨ullongMax,n.dropWhile (isDigit base),true⟩
      else ⟨if neg then (2^64-numberValue base (n.takeWhile (isDigit base)))%2^64
        else numberValue base (n.takeWhile (isDigit base)),n.dropWhile (isDigit base),false⟩ := by
  simp only [strtoull,ht,hu,hn]

/-- A number with something behind it is the same number alone. -/
theorem strtoull_take {w : List UInt8} (h : (strtoull w).nindex≠w) :
    ∃ a,a≠[] ∧ w=a++(strtoull w).nindex ∧ strtoull a=⟨(strtoull w).limit,[],(strtoull w).erange⟩ := by
  obtain ⟨p,ht⟩ := List.dropWhile_suffix isSpace (l := w)
  generalize htw : w.dropWhile isSpace=t at ht
  obtain ⟨q,hu⟩ := numberSign_suffix t
  rcases hsign : numberSign t with ⟨neg,u⟩
  rw [hsign] at hu
  obtain ⟨r,hn⟩ := numberBase_suffix u
  rcases hbase : numberBase u with ⟨base,n⟩
  rw [hbase] at hn
  have hw := strtoull_eq htw hsign hbase
  have hsplit := List.takeWhile_append_dropWhile (p := isDigit base) (l := n)
  have hdigits : n.takeWhile (isDigit base)≠[] := by
    intro hnil
    rw [hw,if_pos hnil] at h
    exact h rfl
  have hindex : (strtoull w).nindex=n.dropWhile (isDigit base) := by
    rw [hw,if_neg hdigits]
    split <;> rfl
  generalize hrest : n.dropWhile (isDigit base)=rest at hsplit hindex hw
  generalize hd : n.takeWhile (isDigit base)=digits at hsplit hdigits hw
  have hqr : q++(r++digits)≠[] := by simp [hdigits]
  have hr : r++digits≠[] := by simp [hdigits]
  have hu' : (r++digits)++rest=u := by rw [List.append_assoc,hsplit,hn]
  have ht' : (q++(r++digits))++rest=t := by rw [List.append_assoc,hu',hu]
  have hw' : (p++(q++(r++digits)))++rest=w := by rw [List.append_assoc,ht',ht]
  have h1 : (p++(q++(r++digits))).dropWhile isSpace=q++(r++digits) := by
    refine dropWhile_take (b := rest) ?_ hqr
    rw [hw',htw,ht']
  have h2 : numberSign (q++(r++digits))=(neg,r++digits) := by
    refine numberSign_take (b := rest) ?_ hr
    rw [ht',hsign,hu']
  have h3 : numberBase (r++digits)=(base,digits) := by
    refine numberBase_take (b := rest) ?_ hdigits
    rw [hu',hbase,hsplit]
  have h4 : digits.takeWhile (isDigit base)=digits ∧ digits.dropWhile (isDigit base)=[] := by
    have hrest' : (digits++rest).dropWhile (isDigit base)=rest := by rw [hsplit,hrest]
    have htake := takeWhile_take hrest'
    rw [hsplit,hd] at htake
    exact htake
  refine ⟨p++(q++(r++digits)),by simp [hdigits],by rw [hindex,hw'],?_⟩
  rw [strtoull_eq h1 h2 h3,h4.1,h4.2,hw,if_neg hdigits,if_neg hdigits]
  split <;> rfl

theorem Number.no_stop {t : List UInt8} {v : Nat} {c : UInt8} (h : Number t v) (hc : Stop c) :
    c ∉ t := by
  intro hmem
  obtain ⟨l,u,rfl⟩ := List.append_of_mem hmem
  have hread := h.2.1
  rw [strtoull_stop hc] at hread
  have hindex := congrArg Conversion.nindex hread
  simp at hindex

theorem Side.no_stop {neg : Prop} {t : List UInt8} {a : Option Nat} {c : UInt8}
    (h : Side neg t a) (hc : Stop c) : c ∉ t := by
  cases h with
  | unset => simp
  | set h =>
    cases h with
    | unlimited => rcases hc with rfl | rfl <;> simp
    | number h hs => exact h.no_stop hc

/-- What `strtoull` reads is a number, perhaps with something behind it. -/
theorem number_or_overrun {w : List UInt8} {v : Nat} (hs : w.head?≠some 45) :
    ((strtoull w).erange=false ∧ (strtoull w).nindex≠w ∧ (strtoull w).limit=v ∧ v≤ rlimMax)
      ↔ Number w v ∨ Overrun w v := by
  constructor
  · rintro ⟨he,hi,rfl,hmax⟩
    obtain ⟨a,ha,hw,hread⟩ := strtoull_take hi
    rw [he] at hread
    have hnumber : Number a (strtoull w).limit := ⟨ha,hread,hmax⟩
    by_cases hu : (strtoull w).nindex=[]
    · rw [hu,List.append_nil] at hw
      left
      rwa [← hw] at hnumber
    · have hhead : a.head?≠some 45 := by
        rwa [hw,List.head?_append_of_ne_nil _ ha] at hs
      exact .inr ⟨a,_,hw,hnumber,hhead,hu,rfl⟩
  · rintro (⟨hne,hread,hmax⟩ | ⟨y,u,rfl,⟨hne,hread,hmax⟩,hhead,hu,hend⟩)
    · rw [hread]
      exact ⟨rfl,hne.symm,rfl,hmax⟩
    · have hi : (strtoull (y++u)).nindex≠y++u := by
        rw [hend]
        intro h
        exact hne (List.append_left_eq_self.mp h.symm)
      obtain ⟨a,ha,hw,hread2⟩ := strtoull_take hi
      rw [hend] at hw
      obtain rfl := List.append_cancel_right hw
      rw [hread] at hread2
      have hlimit := congrArg Conversion.limit hread2
      have herange := congrArg Conversion.erange hread2
      exact ⟨herange.symm,hi,hlimit.symm,hmax⟩

/-- What is behind the colon -/
def Ends (y : List UInt8) (b : Option Nat) : Prop :=
  Side False y b ∨ ∃ v,b=some v ∧ Overrun y v

theorem side_cons {c : UInt8} {t : List UInt8} {b : Option Nat} :
    Side False (c::t) b ↔ ∃ v,b=some v ∧ Limit False (c::t) v := by
  constructor
  · intro h
    cases h with
    | set h => exact ⟨_,rfl,h⟩
  · rintro ⟨v,rfl,h⟩
    exact .set h

theorem limit_iff {t : List UInt8} {v : Nat} :
    Limit False t v ↔ (t=[45] ∧ v=rlimInfinity) ∨ (Number t v ∧ t.head?≠some 45) := by
  constructor
  · intro h
    cases h with
    | unlimited => exact .inl ⟨rfl,rfl⟩
    | number h hs => exact .inr ⟨h,hs⟩
  · rintro (⟨rfl,rfl⟩ | ⟨h,hs⟩)
    · exact .unlimited
    · exact .number h hs

theorem Overrun.head {y : List UInt8} {v : Nat} (h : Overrun y v) : y.head?≠some 45 := by
  obtain ⟨x,u,rfl,hx,hs,-⟩ := h
  rwa [List.head?_append_of_ne_nil _ hx.1]

theorem ends_cons {c : UInt8} {t : List UInt8} {b : Option Nat} (hc : c≠45) :
    Ends (c::t) b ↔ ∃ v,b=some v ∧ (Number (c::t) v ∨ Overrun (c::t) v) := by
  have hhead : (c::t).head?≠some 45 := by simpa using hc
  have hne : c::t≠[45] := by simp [hc]
  simp only [Ends,side_cons,limit_iff,hne,hhead,false_and,false_or,ne_eq,not_false_eq_true,and_true]
  constructor
  · rintro (⟨v,hb,h⟩ | ⟨v,hb,h⟩)
    · exact ⟨v,hb,.inl h⟩
    · exact ⟨v,hb,.inr h⟩
  · rintro ⟨v,hb,h | h⟩
    · exact .inl ⟨v,hb,h⟩
    · exact .inr ⟨v,hb,h⟩

theorem ends_minus {t : List UInt8} {b : Option Nat} :
    Ends (45::t) b ↔ t=[] ∧ b=some rlimInfinity := by
  constructor
  · rintro (h | ⟨v,hb,h⟩)
    · obtain ⟨v,hb,hv⟩ := side_cons.mp h
      rcases limit_iff.mp hv with ⟨ht,hinf⟩ | ⟨-,hs⟩
      · exact ⟨(List.cons.inj ht).2,hinf ▸ hb⟩
      · exact absurd rfl hs
    · exact absurd rfl h.head
  · rintro ⟨rfl,rfl⟩
    exact .inl (.set .unlimited)

/-- `parse_rlimit` from the colon on. -/
theorem parseHardLimit_iff {y : List UInt8} {p : String} {r : ServiceRlimits} (hr : r.hardSet=false)
    (a b : Option Nat) :
    (∃ r',parseHardLimit (58::y) p r=.ok r' ∧ r'.soft=a ∧ r'.hard=b) ↔ r.soft=a ∧ Ends y b := by
  cases y with
  | nil =>
    have hends : Ends [] b ↔ b=none := by
      constructor
      · rintro (h | ⟨v,hb,h⟩)
        · cases h with
          | unset => rfl
          | set h =>
            rcases limit_iff.mp h with ⟨ht,-⟩ | ⟨h,-⟩
            · cases ht
            · exact absurd rfl h.1
        · obtain ⟨x,u,hl,hx,-⟩ := h
          exact absurd (List.append_eq_nil_iff.mp hl.symm).1 hx.1
      · rintro rfl
        exact .inl .unset
    have hcode : parseHardLimit [58] p r=.ok r := rfl
    have hhard : r.hard=none := by simp [ServiceRlimits.hard,hr]
    rw [hends]
    constructor
    · rintro ⟨r',h,rfl,rfl⟩
      obtain rfl := Except.ok.inj (hcode.symm.trans h)
      exact ⟨rfl,hhard⟩
    · rintro ⟨rfl,rfl⟩
      exact ⟨r,hcode,rfl,hhard⟩
  | cons c t =>
    by_cases hc : c=45
    · subst hc
      rw [ends_minus]
      by_cases ht : t=[]
      · subst ht
        constructor
        · rintro ⟨r',h,rfl,rfl⟩
          obtain rfl := Except.ok.inj h
          exact ⟨rfl,rfl,rfl⟩
        · rintro ⟨rfl,-,rfl⟩
          exact ⟨_,rfl,rfl,rfl⟩
      · simp [parseHardLimit,ht]
    · have hread := fun v => number_or_overrun (w := c::t) (v := v) (by simpa using hc)
      simp only [ends_cons hc,← hread]
      simp only [parseHardLimit,List.tail_cons,hc,if_false]
      split
      · next he =>
        constructor
        · rintro ⟨r',h,-⟩
          cases h
        · rintro ⟨-,v,-,hf,-,rfl,hmax⟩
          simp [hf] at he
          omega
      · next he =>
        rw [not_or,Bool.not_eq_true] at he
        split
        · next hi =>
          constructor
          · rintro ⟨r',h,-⟩
            cases h
          · rintro ⟨-,v,-,-,hi',-⟩
            exact absurd hi hi'
        · next hi =>
          constructor
          · rintro ⟨r',h,rfl,rfl⟩
            obtain rfl := Except.ok.inj h
            exact ⟨rfl,_,rfl,he.1,hi,rfl,Nat.not_lt.mp he.2⟩
          · rintro ⟨rfl,v,rfl,-,-,rfl,-⟩
            exact ⟨_,rfl,rfl,rfl⟩

/-- `parse_rlimit` from behind the soft limit on. -/
theorem parseAfterSoft_iff {index : List UInt8} {p : String} {r : ServiceRlimits}
    (hr : r.hardSet=false) (hs : r.softSet=true) (a b : Option Nat) :
    (∃ r',parseAfterSoft index p r=.ok r' ∧ r'.soft=a ∧ r'.hard=b) ↔ some r.rlimCur=a ∧
      ((index=[] ∧ b=a) ∨ ∃ y,index=58::y ∧ Ends y b) := by
  have hsoft : r.soft=some r.rlimCur := by simp [ServiceRlimits.soft,hs]
  cases index with
  | nil =>
    have hends : ¬∃ y,([] : List UInt8)=58::y ∧ Ends y b := by simp
    constructor
    · rintro ⟨r',h,rfl,rfl⟩
      obtain rfl := Except.ok.inj h
      exact ⟨hsoft.symm,.inl ⟨rfl,hsoft.symm⟩⟩
    · rintro ⟨rfl,⟨-,rfl⟩ | h⟩
      · exact ⟨_,rfl,hsoft,rfl⟩
      · exact absurd h hends
  | cons c y =>
    by_cases hc : c=58
    · subst hc
      have hcode : parseAfterSoft (58::y) p r=parseHardLimit (58::y) p r := rfl
      rw [hcode,parseHardLimit_iff hr,hsoft]
      constructor
      · rintro ⟨ha,h⟩
        exact ⟨ha,.inr ⟨y,rfl,h⟩⟩
      · rintro ⟨ha,⟨h,-⟩ | ⟨y',h,hy⟩⟩
        · cases h
        · obtain rfl := (List.cons.inj h).2
          exact ⟨ha,hy⟩
    · simp [parseAfterSoft,hc]

/-- What `parse_rlimit` makes of the text -/
def Reads (c : List UInt8) (a b : Option Nat) : Prop :=
  (∃ v,Limit False c v ∧ a=some v ∧ b=some v) ∨ ∃ x y,c=x++58::y ∧ Side False x a ∧ Ends y b

theorem limit_no_stop {neg : Prop} {t : List UInt8} {v : Nat} {c : UInt8} (h : Limit neg t v)
    (hc : Stop c) : c ∉ t := (Side.set h).no_stop hc

/-- The text up to the colon is found again. -/
theorem colon_inj {x y x' y' : List UInt8} (hx : 58 ∉ x) (hx' : 58 ∉ x')
    (h : x++58::y=x'++58::y') : x=x' ∧ y=y' := by
  have ht := congrArg (List.takeWhile (fun c => c != (58 : UInt8))) h
  have hall : ∀ z : List UInt8,58 ∉ z → z.takeWhile (fun c => c != (58 : UInt8))=z := by
    intro z hz
    refine List.takeWhile_eq_self_iff.mpr fun c hc => ?_
    rw [bne_iff_ne]
    rintro rfl
    exact hz hc
  rw [takeWhile_stop (by simp),takeWhile_stop (by simp),hall x hx,hall x' hx'] at ht
  subst ht
  exact ⟨rfl,(List.cons.inj (List.append_cancel_left h)).2⟩

theorem limit_unique {t : List UInt8} {v w : Nat} (hv : Limit False t v) (hw : Limit False t w) :
    v=w := by
  rcases limit_iff.mp hv with ⟨rfl,rfl⟩ | ⟨hv,hs⟩ <;> rcases limit_iff.mp hw with ⟨ht,hw⟩ | ⟨hw,hs'⟩
  · exact hw.symm
  · exact absurd rfl hs'
  · exact absurd (congrArg List.head? ht) hs
  · exact congrArg Conversion.limit (hv.2.1.symm.trans hw.2.1)

/-- What comes after a soft limit that has been read -/
theorem reads_soft {x : List UInt8} {v : Nat} (hx : Limit False x v) {index : List UInt8}
    (hi : index=[] ∨ index.head?=some 58) (a b : Option Nat) :
    Reads (x++index) a b ↔ some v=a ∧ ((index=[] ∧ b=a) ∨ ∃ y,index=58::y ∧ Ends y b) := by
  have hstop : 58 ∉ x := limit_no_stop hx (.inl rfl)
  constructor
  · rintro (⟨w,hw,rfl,rfl⟩ | ⟨x',y,hxy,hx',hy⟩)
    · cases index with
      | nil =>
        rw [List.append_nil] at hw
        rw [limit_unique hw hx]
        exact ⟨rfl,.inl ⟨rfl,rfl⟩⟩
      | cons c y =>
        obtain rfl : c=58 := by simpa using hi
        exact absurd (by simp) (limit_no_stop hw (.inl rfl))
    · cases index with
      | nil =>
        rw [List.append_nil] at hxy
        exact absurd (by simp [hxy]) hstop
      | cons c t =>
        obtain rfl : c=58 := by simpa using hi
        obtain ⟨rfl,rfl⟩ := colon_inj hstop (hx'.no_stop (.inl rfl)) hxy
        cases hx' with
        | unset =>
          rcases limit_iff.mp hx with ⟨h,-⟩ | ⟨h,-⟩
          · cases h
          · exact absurd rfl h.1
        | set h =>
          rw [limit_unique hx h]
          exact ⟨rfl,.inr ⟨t,rfl,hy⟩⟩
  · rintro ⟨rfl,⟨rfl,rfl⟩ | ⟨y,rfl,hy⟩⟩
    · left
      rw [List.append_nil]
      exact ⟨v,hx,rfl,rfl⟩
    · exact .inr ⟨x,y,rfl,.set hx,hy⟩

theorem not_limit_nil {v : Nat} : ¬Limit False [] v := by
  intro h
  rcases limit_iff.mp h with ⟨h,-⟩ | ⟨h,-⟩
  · cases h
  · exact h.1 rfl

theorem reads_colon {y : List UInt8} {a b : Option Nat} :
    Reads (58::y) a b ↔ none=a ∧ Ends y b := by
  constructor
  · rintro (⟨v,hv,-⟩ | ⟨x,y',hxy,hx,hy⟩)
    · exact absurd List.mem_cons_self (limit_no_stop hv (.inl rfl))
    · have hstop := hx.no_stop (.inl rfl)
      obtain ⟨rfl,rfl⟩ := colon_inj List.not_mem_nil hstop hxy
      cases hx with
      | unset => exact ⟨rfl,hy⟩
      | set h => exact absurd h not_limit_nil
  · rintro ⟨rfl,hy⟩
    exact .inr ⟨[],y,rfl,.unset,hy⟩

theorem reads_minus {t : List UInt8} {a b : Option Nat} (h : Reads (45::t) a b) :
    t=[] ∨ t.head?=some 58 := by
  rcases h with ⟨v,hv,-⟩ | ⟨x,y,hxy,hx,-⟩
  · rcases limit_iff.mp hv with ⟨h,-⟩ | ⟨-,hs⟩
    · exact .inl (List.cons.inj h).2
    · exact absurd rfl hs
  · cases hx with
    | unset => simp at hxy
    | set h =>
      rcases limit_iff.mp h with ⟨rfl,-⟩ | ⟨h,hs⟩
      · right
        rw [(List.cons.inj hxy).2]
        rfl
      · have hhead := congrArg List.head? hxy
        rw [List.head?_append_of_ne_nil _ h.1] at hhead
        exact absurd hhead.symm hs

theorem reads_number {w : List UInt8} {a b : Option Nat} (h58 : w.head?≠some 58)
    (h45 : w.head?≠some 45) (h : Reads w a b) :
    (strtoull w).erange=false ∧ (strtoull w).limit≤ rlimMax ∧ (strtoull w).nindex≠w ∧
      ((strtoull w).nindex=[] ∨ (strtoull w).nindex.head?=some 58) := by
  rcases h with ⟨v,hv,-⟩ | ⟨x,y,rfl,hx,-⟩
  · rcases limit_iff.mp hv with ⟨rfl,-⟩ | ⟨hv,-⟩
    · exact absurd rfl h45
    · rw [hv.2.1]
      exact ⟨rfl,hv.2.2,hv.1.symm,.inl rfl⟩
  · cases hx with
    | unset => exact absurd rfl h58
    | set h =>
      rcases limit_iff.mp h with ⟨rfl,-⟩ | ⟨hv,-⟩
      · exact absurd rfl h45
      · rw [strtoull_stop (.inl rfl),hv.2.1]
        refine ⟨rfl,hv.2.2,?_,.inr rfl⟩
        intro hnil
        exact hv.1 (List.append_left_eq_self.mp hnil.symm)

/-- The limits that `parse_rlimit` accepts a text with -/
theorem accepts_iff (s : List UInt8) (p : String) (r : ServiceRlimits) (a b : Option Nat) :
    Accepts s p r a b ↔ Reads (cString s) a b := by
  unfold Accepts
  generalize hc : cString s=w
  have hs : w≠[] → s≠[] := by
    rintro h rfl
    exact h hc.symm
  by_cases hw : w=[]
  · subst hw
    have hread : ¬Reads [] a b := by
      rintro (⟨v,hv,-⟩ | ⟨x,y,hxy,-⟩)
      · exact not_limit_nil hv
      · simp at hxy
    have hnone : strtoull []=⟨0,[],false⟩ := rfl
    simp only [hread,iff_false,parseRlimit,hc,hnone]
    rintro ⟨r',h,-⟩
    by_cases hs : s=[] <;> simp [hs,rlimMax] at h
  by_cases h58 : w.head?=some 58
  · obtain ⟨t,rfl⟩ : ∃ t,w=58::t := by
      cases w <;> simp_all
    have hcode : parseRlimit s p r=parseHardLimit (58::t) p {r with hardSet := false,softSet := false} := by
      simp [parseRlimit,hc,hs]
    rw [hcode,parseHardLimit_iff rfl,reads_colon]
    rfl
  by_cases h45 : w.head?=some 45
  · obtain ⟨t,rfl⟩ : ∃ t,w=45::t := by
      cases w <;> simp_all
    have hcode : parseRlimit s p r=parseAfterSoft t p
        {r with hardSet := false,softSet := true,rlimCur := rlimInfinity} := by
      simp [parseRlimit,hc,hs]
    rw [hcode,parseAfterSoft_iff rfl rfl]
    by_cases hi : t=[] ∨ t.head?=some 58
    · exact (reads_soft .unlimited hi a b).symm
    · have hread : ¬Reads (45::t) a b := fun h => hi (reads_minus h)
      simp only [hread,iff_false]
      rintro ⟨-,⟨rfl,-⟩ | ⟨y,rfl,-⟩⟩
      · exact hi (.inl rfl)
      · exact hi (.inr rfl)
  by_cases he : (strtoull w).erange=true ∨ rlimMax< (strtoull w).limit
  · have hcode : parseRlimit s p r=.error (p++": too-large value.") := by
      simp [parseRlimit,hc,hs hw,h58,h45,he]
    have hread : ¬Reads w a b := by
      intro h
      obtain ⟨h1,h2,-⟩ := reads_number h58 h45 h
      simp [h1] at he
      omega
    simp [hcode,hread]
  by_cases hi : (strtoull w).nindex=w
  · have hcode : parseRlimit s p r=.error (p++": bad value.") := by
      simp [parseRlimit,hc,hs hw,h58,h45,he,hi]
    have hread : ¬Reads w a b := fun h => (reads_number h58 h45 h).2.2.1 hi
    simp [hcode,hread]
  have hcode : parseRlimit s p r=parseAfterSoft (strtoull w).nindex p
      {r with hardSet := false,softSet := true,rlimCur := (strtoull w).limit} := by
    simp [parseRlimit,hc,hs hw,h58,h45,he,hi]
  rw [hcode,parseAfterSoft_iff rfl rfl]
  rw [not_or,Bool.not_eq_true,Nat.not_lt] at he
  by_cases hstop : (strtoull w).nindex=[] ∨ (strtoull w).nindex.head?=some 58
  · obtain ⟨x,hx,hsplit,hread⟩ := strtoull_take hi
    rw [he.1] at hread
    have hhead : x.head?≠some 45 := by
      rwa [hsplit,List.head?_append_of_ne_nil _ hx] at h45
    have hlimit : Limit False x (strtoull w).limit := limit_iff.mpr (.inr ⟨⟨hx,hread,he.2⟩,hhead⟩)
    have hreads := reads_soft hlimit hstop a b
    rw [← hsplit] at hreads
    exact hreads.symm
  · have hread : ¬Reads w a b := fun h => hstop (reads_number h58 h45 h).2.2.2
    simp only [hread,iff_false]
    rintro ⟨-,⟨hnil,-⟩ | ⟨y,hy,-⟩⟩
    · exact hstop (.inl hnil)
    · exact hstop (.inr (by rw [hy]; rfl))

theorem reads_iff {c : List UInt8} {a b : Option Nat} :
    Reads c a b ↔ Denotes False c a b ∨ Unfinished c a b := by
  constructor
  · rintro (⟨v,hv,rfl,rfl⟩ | ⟨x,y,rfl,hx,hy | ⟨v,rfl,hy⟩⟩)
    · exact .inl (.both hv)
    · exact .inl (.sides hx hy)
    · exact .inr ⟨x,y,v,rfl,hx,hy,rfl⟩
  · rintro (h | ⟨x,y,v,rfl,hx,hy,rfl⟩)
    · cases h with
      | both hv => exact .inl ⟨_,hv,rfl,rfl⟩
      | sides hx hy => exact .inr ⟨_,_,rfl,hx,.inl hy⟩
    · exact .inr ⟨x,y,rfl,hx,.inr ⟨v,rfl,hy⟩⟩

theorem Limit.signed {t : List UInt8} {v : Nat} (h : Limit False t v) : Limit True t v := by
  cases h with
  | unlimited => exact .unlimited
  | number h hs => exact .number h fun _ => trivial

theorem Side.signed {t : List UInt8} {a : Option Nat} (h : Side False t a) : Side True t a := by
  cases h with
  | unset => exact .unset
  | set h => exact .set h.signed

theorem Denotes.signed {s : List UInt8} {a b : Option Nat} (h : Denotes False s a b) :
    Denotes True s a b := by
  cases h with
  | both h => exact .both h.signed
  | sides hx hy => exact .sides hx.signed hy.signed

theorem Denotes.no_nul {neg : Prop} {s : List UInt8} {a b : Option Nat} (h : Denotes neg s a b) :
    0 ∉ s := by
  cases h with
  | both h => exact limit_no_stop h (.inr rfl)
  | sides hx hy =>
    have h1 := hx.no_stop (.inr rfl)
    have h2 := hy.no_stop (.inr rfl)
    simp [h1,h2]

/-- A number with something behind it is no limit. -/
theorem Overrun.not_side {w : List UInt8} {v : Nat} {b : Option Nat} (h : Overrun w v) :
    ¬Side True w b := by
  intro hside
  have hhead := h.head
  obtain ⟨y,u,hw,hy,-,hu,hend⟩ := h
  cases hside with
  | unset => exact hy.1 (List.append_eq_nil_iff.mp hw.symm).1
  | set hl =>
    cases hl with
    | unlimited => exact hhead rfl
    | number h hs =>
      rw [h.2.1] at hend
      exact hu hend.symm

theorem Unfinished.not_denotes {s : List UInt8} {a b a' b' : Option Nat} (h : Unfinished s a b) :
    ¬Denotes True s a' b' := by
  obtain ⟨x,y,v,hs,hx,hy,-⟩ := h
  intro hd
  cases hd with
  | both hl =>
    rw [hs] at hl
    exact limit_no_stop hl (.inl rfl) (by simp)
  | sides hx' hy' =>
    obtain ⟨-,rfl⟩ := colon_inj (hx'.no_stop (.inl rfl)) (hx.no_stop (.inl rfl)) hs
    exact hy.not_side hy'

/-- What is behind the end of the string is behind the hard limit too. -/
theorem Unfinished.append {t : List UInt8} {a b : Option Nat} (h : Unfinished t a b)
    (u : List UInt8) : Unfinished (t++0::u) a b := by
  obtain ⟨x,_,v,rfl,hx,⟨y,w,rfl,hy,hs,hw,hend⟩,hb⟩ := h
  refine ⟨x,(y++w)++0::u,v,by simp,hx,⟨y,w++0::u,by simp,hy,hs,by simp,?_⟩,hb⟩
  rw [strtoull_stop (.inr rfl),hend]

theorem cString_split (s : List UInt8) : cString s=s ∨ ∃ u,s=cString s++0::u := by
  have h := List.takeWhile_append_dropWhile (p := (· != 0)) (l := s)
  cases hd : s.dropWhile (· != 0) with
  | nil =>
    rw [hd,List.append_nil] at h
    exact .inl h
  | cons c u =>
    have hnot := List.head_dropWhile_not (· != 0) (l := s) (by simp [hd])
    obtain rfl : c=0 := by simpa [hd] using hnot
    rw [hd] at h
    exact .inr ⟨u,h.symm⟩

theorem cString_nul {t : List UInt8} (ht : 0 ∉ t) (u : List UInt8) : cString (t++0::u)=t := by
  have hstop : cString (t++0::u)=cString t := takeWhile_stop (by simp) t u
  rw [hstop,cString_eq ht]

/-- If the number ends before the end of the string, it is accepted. -/
theorem Unfinished.reads {s : List UInt8} {a b : Option Nat} (h : Unfinished s a b) :
    Reads (cString s) a b := by
  obtain ⟨x,_,v,rfl,hx,⟨y,w,rfl,hy,hs,hw,hend⟩,rfl⟩ := h
  have hx0 := hx.no_stop (.inr rfl)
  have hy0 := hy.no_stop (.inr rfl)
  rcases cString_split w with hc | ⟨u,hc⟩
  · have hw0 : 0 ∉ w := by
      rw [← hc]
      intro hmem
      exact absurd (List.mem_takeWhile_imp hmem) (by simp)
    rw [cString_eq (by simp [hx0,hy0,hw0])]
    exact reads_iff.mpr (.inr ⟨x,y++w,v,rfl,hx,⟨y,w,rfl,hy,hs,hw,hend⟩,rfl⟩)
  · generalize hz : cString w=z at hc
    subst hc
    have hz0 : 0 ∉ z := by
      rw [← hz]
      intro hmem
      exact absurd (List.mem_takeWhile_imp hmem) (by simp)
    have hs' : x++58::(y++(z++0::u))=(x++58::(y++z))++0::u := by simp
    rw [hs',cString_nul (by simp [hx0,hy0,hz0])]
    rw [← List.append_assoc,strtoull_stop (.inr rfl)] at hend
    have hend' : (strtoull (y++z)).nindex=z := List.append_cancel_right hend
    by_cases hzn : z=[]
    · subst hzn
      rw [List.append_nil]
      exact reads_iff.mpr (.inl (.sides hx (.set (.number hy fun h => absurd h hs))))
    · exact reads_iff.mpr (.inr ⟨x,y++z,v,rfl,hx,⟨y,z,rfl,hy,hs,hzn,hend'⟩,rfl⟩)

/-- A text that is mistaken is accepted without a meaning, or has one and is not accepted. -/
theorem Mistaken.differs {s : List UInt8} (h : Mistaken s) :
    ∃ a b,¬(Reads (cString s) a b ↔ Denotes True s a b) := by
  cases h with
  | @negative _ a b hd hn =>
    refine ⟨a,b,fun h => ?_⟩
    have hread := h.mpr hd
    rw [cString_eq hd.no_nul] at hread
    rcases reads_iff.mp hread with hf | hu
    · exact hn hf
    · exact hu.not_denotes hd
  | @nul t u a b hd =>
    refine ⟨a,b,fun h => ?_⟩
    have hread : Reads (cString (t++0::u)) a b := by
      rw [cString_nul hd.no_nul]
      exact reads_iff.mpr (.inl hd)
    exact (h.mp hread).no_nul (by simp)
  | @unfinished _ a b hu => exact ⟨a,b,fun h => hu.not_denotes (h.mp hu.reads)⟩

/-- A text is accepted with the limits that it stands for, and no other text is accepted, as long
as it is not taken for something that it is not. -/
theorem parseRlimit_iff (s : List UInt8) (p : String) (r : ServiceRlimits) :
    (∀ a b,Accepts s p r a b ↔ Denotes True s a b) ↔ ¬Mistaken s := by
  simp only [accepts_iff]
  constructor
  · intro h hm
    obtain ⟨a,b,hdiff⟩ := hm.differs
    exact hdiff (h a b)
  · intro hm a b
    constructor
    · intro hread
      rcases reads_iff.mp hread with hd | hu
      · rcases cString_split s with hc | ⟨u,hc⟩
        · rw [hc] at hd
          exact hd.signed
        · rw [hc] at hm
          exact absurd (.nul hd) hm
      · rcases cString_split s with hc | ⟨u,hc⟩
        · rw [hc] at hu
          exact absurd (.unfinished hu) hm
        · rw [hc] at hm
          exact absurd (.unfinished (hu.append u)) hm
    · intro hd
      rw [cString_eq hd.no_nul]
      by_cases hf : Denotes False s a b
      · exact reads_iff.mpr (.inl hf)
      · exact absurd (.negative hd hf) hm

/-- `4:5x` is accepted. -/
theorem trailing_accepted : ¬∀ a b,
    Accepts [52,58,53,120] "rlimit-nofile" ⟨7,false,false,0,0⟩ a b ↔ Denotes True [52,58,53,120] a b := by
  intro h
  have hsoft : Number [52] 4 := ⟨by simp,rfl,by decide⟩
  have hhard : Overrun [53,120] 5 := ⟨[53],[120],rfl,⟨by simp,rfl,by decide⟩,by simp,by simp,rfl⟩
  have hu : Unfinished [52,58,53,120] (some 4) (some 5) :=
    ⟨[52],[53,120],5,rfl,.set (.number hsoft (by simp)),hhard,rfl⟩
  exact hu.not_denotes ((h _ _).mp ((accepts_iff _ _ _ _ _).mpr hu.reads))

end Dinit
