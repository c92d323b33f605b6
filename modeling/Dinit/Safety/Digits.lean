import Mathlib.Data.List.Induction
import Dinit.Framework.Numeral
import Dinit.Util.Digits

namespace Dinit

open Framework.Numeral

namespace Digits

/-- What is to be printed: a minus sign for what is negative, and the numeral without leading zeros -/
def text (z : Int) : List UInt8 := (if z<0 then [45] else [])++ofNat z.natAbs

section
variable {p : Nat}

theorem store_append (pre post : List UInt8) (c d : UInt8) :
    store (pre++c::post) pre.length d=some (pre++d::post) := by
  unfold store
  rw [if_pos (by simp),List.set_append_right _ _ (Nat.le_refl _),Nat.sub_self]
  rfl

theorem store_room (pre room : List UInt8) (hp : p=pre.length) (h : 0< room.length) (c : UInt8) :
    store (pre++room) p c=some (pre++c::room.tail) := by
  cases room with
  | nil => cases h
  | cons d room =>
    rw [hp,store_append]
    rfl

/-- The digits are put one after the other into the room that there is. -/
theorem putDigits_eq {n : Nat} (hn : n≠0) (pre room : List UInt8) (hp : p=pre.length)
    (h : (Nat.digits 10 n).length≤ room.length) :
    putDigits (pre++room) p n=
      some (pre++((Nat.digits 10 n).map fun d => UInt8.ofNat (48+d))++
        room.drop (Nat.digits 10 n).length,p+(Nat.digits 10 n).length) := by
  induction n using Nat.strongRecOn generalizing pre room p with
  | ind n ih =>
    have hlen : (Nat.digits 10 n).length=(Nat.digits 10 (n/10)).length+1 := by
      rw [Nat.digits_eq_cons_digits_div (by decide) hn]
      rfl
    have hroom : 0< room.length := by omega
    have htail : room.tail.length=room.length-1 := List.length_tail
    rw [putDigits,store_room pre room hp hroom,Option.bind_some,ofNat_ten n hn,hlen]
    by_cases hlast : n/10=0
    · rw [if_pos hlast,hlast]
      simp
    · rw [if_neg hlast]
      have hp1 : p+1=(pre++[UInt8.ofNat (48+n%10)]).length := by simp [hp]
      have hnext := ih (n/10) (by omega) hlast (pre++[UInt8.ofNat (48+n%10)]) room.tail hp1 (by omega)
      rw [List.append_assoc,List.singleton_append] at hnext
      rw [hnext]
      simp [Nat.add_assoc,Nat.add_comm 1]

theorem swap_append (pre mid post : List UInt8) (a b : UInt8) {q : Nat} (hp : p=pre.length)
    (hq : q=pre.length+mid.length+1) :
    swap (pre++a::(mid++b::post)) p q=some (pre++b::(mid++a::post)) := by
  have hfirst : (pre++a::(mid++b::post))[p]?=some a := by
    rw [hp,List.getElem?_append_right (Nat.le_refl _),Nat.sub_self]
    rfl
  have hsplit : ∀ c d,pre++c::(mid++d::post)=(pre++c::mid)++d::post := by
    intro c d
    simp
  have hqlen : ∀ c,q=(pre++c::mid).length := by
    intro c
    rw [hq,List.length_append,List.length_cons]
    omega
  have hlast : (pre++a::(mid++b::post))[q]?=some b := by
    rw [hsplit,hqlen a,List.getElem?_append_right (Nat.le_refl _),Nat.sub_self]
    rfl
  unfold swap
  rw [hfirst,hlast]
  dsimp only
  rw [hp,List.set_append_right _ _ (Nat.le_refl _),Nat.sub_self,List.set_cons_zero,hsplit,hqlen b,
    List.set_append_right _ _ (Nat.le_refl _),Nat.sub_self,List.set_cons_zero,hsplit]

/-- The loop turns round what is between the two positions. -/
theorem reverseDigits_eq (mid pre post : List UInt8) {q : Nat} (hp : p=pre.length)
    (hq : q+1=pre.length+mid.length) :
    reverseDigits (pre++mid++post) p q=some (pre++mid.reverse++post) := by
  induction mid using List.bidirectionalRec generalizing pre post p q with
  | nil =>
    rw [reverseDigits,if_neg (by simp at hq; omega)]
    rfl
  | singleton a =>
    rw [reverseDigits,if_neg (by simp at hq; omega)]
    rfl
  | cons_append a mid b ih =>
    have hlen : q=pre.length+mid.length+1 := by
      simp at hq
      omega
    have hbefore : pre++(a::(mid++[b]))++post=pre++a::(mid++b::post) := by simp
    have hafter : pre++b::(mid++a::post)=(pre++[b])++mid++(a::post) := by simp
    rw [reverseDigits,if_pos (by omega),hbefore,swap_append pre mid post a b hp hlen,
      Option.bind_some,hafter,ih (pre++[b]) (a::post) (by simp [hp]) (by simp; omega)]
    simp

theorem countDigits_eq (n pow : Nat) : countDigits n pow=pow+(Nat.digits 10 n).length := by
  induction n using Nat.strongRecOn generalizing pow with
  | ind n ih =>
    rw [countDigits]
    by_cases hn : n=0
    · rw [if_pos hn,hn]
      simp
    · rw [if_neg hn,ih (n/10) (by omega),Nat.digits_eq_cons_digits_div (by decide) hn,
        List.length_cons]
      omega

end

section
variable {w : Nat} (signed : Bool) (val : BitVec w)

/-- The absolute value is right for every value, the least one included. -/
theorem magnitude_eq :
    (if decide (asInt signed val<0) then -val else val).toNat=(asInt signed val).natAbs := by
  have hlt := val.isLt
  by_cases h : asInt signed val<0
  · rw [decide_eq_true h,if_pos rfl]
    unfold asInt at h ⊢
    cases signed with
    | false => simp at h; omega
    | true =>
      rw [if_pos rfl] at h ⊢
      have hcond := val.toInt_eq_toNat_cond
      rw [BitVec.toNat_neg]
      split at hcond
      · omega
      · rw [hcond]
        have hpos : 0<val.toNat := by omega
        rw [Nat.mod_eq_of_lt (by omega)]
        omega
  · rw [decide_eq_false h,if_neg (by decide)]
    unfold asInt at h ⊢
    cases signed with
    | false => simp
    | true =>
      rw [if_pos rfl] at h ⊢
      have hcond := val.toInt_eq_toNat_cond
      split at hcond
      · rw [hcond]
        rfl
      · omega

/-- No value of the type has more digits than `type_max_num_digits` says. -/
theorem length_ofNat_le_max (hw : 0<w) :
    (ofNat (asInt signed val).natAbs).length≤ typeMaxNumDigits signed w := by
  have hlt := val.isLt
  have htwo : 2^w=2*2^(w-1) := by
    rw [← Nat.pow_succ']
    congr 1
    omega
  have hpos : 0<2^(w-1) := Nat.pos_of_ne_zero (by simp)
  unfold typeMaxNumDigits
  cases signed with
  | false =>
    rw [if_neg (by decide),countDigits_eq,Nat.zero_add]
    have hall : (BitVec.allOnes w).toNat=2^w-1 := BitVec.toNat_allOnes
    have hval : (asInt false val).natAbs=val.toNat := rfl
    rw [hall,hval]
    exact length_ofNat_le (by omega) (by omega)
  | true =>
    rw [if_pos rfl,countDigits_eq,Nat.zero_add]
    have hmin : (-BitVec.intMin w).toNat=2^(w-1) := by
      rw [BitVec.neg_intMin,BitVec.toNat_intMin]
      exact Nat.mod_eq_of_lt (by omega)
    have hle : (asInt true val).natAbs≤ 2^(w-1) := by
      have hlo := val.le_toInt
      have hhi := val.toInt_lt
      unfold asInt
      rw [if_pos rfl]
      have hcast : ((2^(w-1) : Nat) : Int)=2^(w-1) := by simp
      omega
    refine length_ofNat_le (Nat.le_trans hle ?_) (Nat.lt_of_lt_of_le hpos ?_)
    · rw [hmin]
      exact Nat.le_max_right _ _
    · rw [hmin]
      exact Nat.le_max_right _ _

/-- The digits are put and turned round. -/
theorem putReversed_eq {n : Nat} (hn : n≠0) (pre room : List UInt8) {p : Nat} (hp : p=pre.length)
    (h : (ofNat n).length≤ room.length) :
    ((putDigits (pre++room) p n).bind fun r =>
      (reverseDigits r.1 p (r.2-1)).map fun buf => (buf,r.2))=
      some (pre++ofNat n++room.drop (ofNat n).length,p+(ofNat n).length) := by
  have hne : Nat.digits 10 n≠[] := Nat.digits_ne_nil_iff_ne_zero.mpr hn
  have hpos := List.length_pos_iff.mpr hne
  have hnumeral : ofNat n=((Nat.digits 10 n).map fun d => UInt8.ofNat (48+d)).reverse := if_neg hn
  have hlen : (ofNat n).length=(Nat.digits 10 n).length := by
    rw [hnumeral,List.length_reverse,List.length_map]
  rw [hlen] at h ⊢
  rw [putDigits_eq hn pre room hp h,Option.bind_some]
  dsimp only
  rw [reverseDigits_eq _ pre _ hp (by rw [List.length_map]; omega),hnumeral]
  rfl

theorem putUnsigned_eq (uval : BitVec w) (pre room : List UInt8) {p : Nat} (hp : p=pre.length)
    (h : (ofNat uval.toNat).length≤ room.length) :
    putUnsigned (pre++room) p uval=
      some (pre++ofNat uval.toNat++room.drop (ofNat uval.toNat).length,
        p+(ofNat uval.toNat).length) := by
  unfold putUnsigned
  by_cases hzero : uval=0
  · have hnumeral : ofNat uval.toNat=[48] := by
      rw [hzero]
      rfl
    rw [hnumeral] at h ⊢
    rw [if_pos hzero,store_room pre room hp (by simp at h; omega)]
    simp
  · have hn : uval.toNat≠0 := fun hn => hzero (BitVec.eq_of_toNat_eq hn)
    rw [if_neg hzero,putReversed_eq hn pre room hp h]

/-- `to_dec_digits` puts the text and a nul into the buffer, where there is room for them. -/
theorem toDecDigits_eq (pre room : List UInt8) {p : Nat} (hp : p=pre.length)
    (h : (text (asInt signed val)).length< room.length) :
    toDecDigits signed (pre++room) p val=
      some (pre++text (asInt signed val)++0::room.drop ((text (asInt signed val)).length+1),
        p+(text (asInt signed val)).length) := by
  have hmag := magnitude_eq signed val
  have hend : ∀ t : List UInt8,t.length< room.length →
      store (pre++t++room.drop t.length) (p+t.length) 0=
        some (pre++t++0::room.drop (t.length+1)) := by
    intro t ht
    rw [store_room _ _ (by rw [hp,List.length_append]) (by rw [List.length_drop]; omega),List.tail_drop]
  have hstore := hend _ h
  unfold toDecDigits text at *
  by_cases hneg : asInt signed val<0
  · rw [decide_eq_true hneg,if_pos rfl] at hmag
    rw [if_pos hneg] at h hstore ⊢
    have hlen : ([45]++ofNat (asInt signed val).natAbs).length=
        (ofNat (asInt signed val).natAbs).length+1 := by simp
    rw [hlen] at h hstore ⊢
    have hput := putUnsigned_eq (-val) (pre++[45]) room.tail (p := p+1) (by simp [hp])
      (by rw [hmag,List.length_tail]; omega)
    rw [hmag,List.append_assoc pre,List.singleton_append,List.drop_tail] at hput
    simp only [decide_eq_true hneg,if_true,store_room pre room hp (show 0< room.length by omega) 45,
      Option.map_some,Option.bind_some,hput]
    have hsame : p+1+(ofNat (asInt signed val).natAbs).length=
        p+((ofNat (asInt signed val).natAbs).length+1) := by omega
    rw [hsame]
    rw [List.append_assoc pre [45],hstore]
    rfl
  · rw [decide_eq_false hneg,if_neg (by decide)] at hmag
    rw [if_neg hneg,List.nil_append] at h hstore ⊢
    have hput := putUnsigned_eq val pre room hp (by rw [hmag]; omega)
    rw [hmag] at hput
    simp only [decide_eq_false hneg,Bool.false_eq_true,if_false,Option.bind_some,hput,hstore,
      Option.map_some]

end

section
variable {w : Nat}

theorem text_nonneg {z : Int} (h : 0≤ z) : text z=ofNat z.natAbs := by
  unfold text
  rw [if_neg (by omega),List.nil_append]

theorem text_length (signed : Bool) (val : BitVec w) (hw : 0<w) :
    (text (asInt signed val)).length≤
      typeMaxNumDigits signed w+if asInt signed val<0 then 1 else 0 := by
  have hle := length_ofNat_le_max signed val hw
  unfold text
  split <;> simp <;> omega

theorem text_toInt (z : Int) : toInt (text z)=z := by
  unfold text
  by_cases h : z<0
  · rw [if_pos h]
    show -(value (ofNat z.natAbs) : Int)=z
    rw [value_ofNat]
    omega
  · rw [if_neg h,List.nil_append,toInt_ofNat]
    omega

theorem printString_eq (str pre room : List UInt8) {p : Nat} (hp : p=pre.length)
    (h : str.length< room.length) :
    printString (pre++room) p str=
      some (pre++str++0::room.drop (str.length+1),p+str.length) := by
  induction str generalizing pre room p with
  | nil =>
    rw [printString,store_room pre room hp h]
    simp
  | cons c str ih =>
    rw [List.length_cons] at h
    have hroom : str.length< room.tail.length := by
      rw [List.length_tail]
      omega
    have hnext := ih (pre++[c]) room.tail (p := p+1) (by simp [hp]) hroom
    rw [List.append_assoc pre,List.singleton_append] at hnext
    rw [printString,store_room pre room hp (by omega),Option.bind_some,hnext,List.drop_tail]
    simp [Nat.add_assoc,Nat.add_comm 1]

/-- A variable that is no less than zero fits behind its name. -/
theorem printVariable_eq (name : List UInt8) (v : BitVec 32) (hv : 0≤ v.toInt) {buf : List UInt8}
    (h : name.length+typeMaxNumDigits true 32<buf.length) :
    ∃ rest,printVariable buf name v=
      some (name++text v.toInt++0::rest,name.length+(text v.toInt).length) := by
  have hlen : (text v.toInt).length≤ typeMaxNumDigits true 32 := by
    rw [text_nonneg hv]
    exact length_ofNat_le_max true v (by decide)
  have hname := printString_eq name [] buf rfl (by omega)
  simp only [List.nil_append,List.length_nil,Nat.zero_add] at hname
  have hroom : (text v.toInt).length<(0::buf.drop (name.length+1)).length := by
    rw [List.length_cons,List.length_drop]
    omega
  unfold printVariable
  rw [hname]
  exact ⟨_,toDecDigits_eq true v name (0::buf.drop (name.length+1)) rfl hroom⟩

theorem llMarker_eq (lvl : BitVec 32) (hlvl : 0≤ lvl.toInt) {buf : List UInt8}
    (h : buf.length=markerSize) :
    ∃ rest,llMarker buf lvl=some (60::text lvl.toInt++62::0::rest) := by
  have hlen : (text lvl.toInt).length≤ typeMaxNumDigits true 32 := by
    rw [text_nonneg hlvl]
    exact length_ofNat_le_max true lvl (by decide)
  unfold markerSize at h
  have hfirst : store buf 0 60=some (60::buf.tail) := store_room [] buf rfl (by omega) 60
  have hroom : (text lvl.toInt).length<buf.tail.length := by
    rw [List.length_tail]
    omega
  have hnumber := toDecDigits_eq true lvl [60] buf.tail rfl hroom
  have hbracket : store ([60]++text lvl.toInt++0::buf.tail.drop ((text lvl.toInt).length+1))
      (1+(text lvl.toInt).length) 62=
        some ([60]++text lvl.toInt++62::buf.tail.drop ((text lvl.toInt).length+1)) :=
    store_room _ _ (by rw [List.length_append]; rfl) (by rw [List.length_cons]; omega) 62
  have hlast : 1+(text lvl.toInt).length+1=([60]++text lvl.toInt++[62]).length := by
    simp
    omega
  have hnul := store_room ([60]++text lvl.toInt++[62]) (buf.tail.drop ((text lvl.toInt).length+1))
    hlast (by rw [List.length_drop,List.length_tail]; omega) 0
  rw [List.append_assoc _ [62],List.singleton_append] at hnul
  refine ⟨(buf.tail.drop ((text lvl.toInt).length+1)).tail,?_⟩
  unfold llMarker
  rw [hfirst]
  refine (congrArg (Option.bind · _) hnumber).trans ?_
  refine (congrArg (Option.bind · _) hbracket).trans ?_
  refine hnul.trans ?_
  simp

/-- The digits of a number: a single zero, or no leading one -/
def Canonical (digits : List UInt8) (n : Nat) : Prop :=
  (∀ c∈digits,IsDigit c) ∧ value digits=n ∧
    if n=0 then digits=[48] else digits≠[] ∧ digits.head?≠some 48

theorem ofNat_canonical (n : Nat) : Canonical (ofNat n) n := by
  refine ⟨ofNat_digits n,value_ofNat n,?_⟩
  by_cases hn : n=0
  · rw [if_pos hn,hn]
    rfl
  · rw [if_neg hn]
    exact ⟨ofNat_ne_nil n,head_ofNat hn⟩

/-- Every value of every type is printed as its decimal numeral, with no more digits than
`type_max_num_digits`, and the buffers that are sized by it are large enough. -/
theorem decimal_printing (hw : 0<w) (signed : Bool) (val : BitVec w) :
    (∃ digits,Canonical digits (asInt signed val).natAbs ∧
      digits.length≤ typeMaxNumDigits signed w ∧
      ∃ text,text=(if asInt signed val<0 then [45] else [])++digits ∧ toInt text=asInt signed val ∧
        (∀ pre room,text.length< room.length → toDecDigits signed (pre++room) pre.length val=
          some (pre++text++0::room.drop (text.length+1),pre.length+text.length)) ∧
        ∀ buf,buf.length=decDigitsBufSize signed w →
          ∃ rest,toDecDigits signed buf 0 val=some (text++0::rest,text.length)) ∧
      (∀ lvl : BitVec 32,0≤ lvl.toInt → ∀ buf,buf.length=markerSize →
        ∃ rest,llMarker buf lvl=some (60::text lvl.toInt++62::0::rest)) ∧
      (∀ pid : BitVec 32,0≤ pid.toInt → ∀ buf,buf.length=nbufSize → ∃ rest,
        printVariable buf listenPid pid=
          some (listenPid++text pid.toInt++0::rest,11+(text pid.toInt).length)) ∧
      ∀ csfd : BitVec 32,0≤ csfd.toInt → ∀ buf,buf.length=csenvbufSize → ∃ rest,
        printVariable buf dinitCsFd csfd=
          some (dinitCsFd++text csfd.toInt++0::rest,12+(text csfd.toInt).length) := by
  refine ⟨⟨_,ofNat_canonical _,length_ofNat_le_max signed val hw,text (asInt signed val),rfl,
    text_toInt _,?_,?_⟩,?_,?_,?_⟩
  · intro pre room h
    exact toDecDigits_eq signed val pre room rfl h
  · intro buf hbuf
    have hlen := text_length signed val hw
    have hsign : (if asInt signed val<0 then 1 else 0)≤ if signed then 1 else 0 := by
      cases signed with
      | false => simp [asInt]
      | true => split <;> simp
    have hroom : (text (asInt signed val)).length<buf.length := by
      rw [hbuf]
      unfold decDigitsBufSize
      omega
    have heq := toDecDigits_eq signed val [] buf rfl hroom
    simp only [List.nil_append,List.length_nil,Nat.zero_add] at heq
    exact ⟨_,heq⟩
  · exact fun lvl hlvl buf hbuf => llMarker_eq lvl hlvl hbuf
  · intro pid hpid buf hbuf
    exact printVariable_eq listenPid pid hpid (by
      rw [hbuf]
      exact Nat.lt_succ_self _)
  · intro csfd hcsfd buf hbuf
    exact printVariable_eq dinitCsFd csfd hcsfd (by
      rw [hbuf]
      exact Nat.lt_succ_self _)

/-- The least value of eight bits, and a log level -/
theorem decimal_printing_least :
    (∃ digits rest,Canonical digits 128 ∧ digits.length≤ typeMaxNumDigits true 8 ∧
      toInt ([45]++digits)=-128 ∧
      toDecDigits true (List.replicate (decDigitsBufSize true 8) 0) 0 (128 : BitVec 8)=
        some (([45]++digits)++0::rest,([45]++digits).length)) ∧
      (∃ rest,llMarker (List.replicate markerSize 0) 30=some (60::text 30++62::0::rest)) ∧
      ∃ rest,printVariable (List.replicate nbufSize 0) listenPid 1=
        some (listenPid++text 1++0::rest,11+(text 1).length) := by
  obtain ⟨⟨digits,hdigits,hlen,txt,rfl,hint,-,hbuf⟩,hmarker,hpid,-⟩ :=
    decimal_printing (show 0<8 by decide) true (128 : BitVec 8)
  obtain ⟨rest,hrest⟩ := hbuf _ List.length_replicate
  exact ⟨⟨digits,rest,hdigits,hlen,hint,hrest⟩,hmarker 30 (by decide) _ List.length_replicate,
    hpid 1 (by decide) _ List.length_replicate⟩

end

end Digits
end Dinit
