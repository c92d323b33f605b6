import Dinit.Settings.Expand

namespace Dinit

/-- What is behind the name in braces: `-x`, `+x`, `:-x` or `:+x` -/
structure Alternative where
  colon : Bool
  plus : Bool
  text : List UInt8
  closed : 125∉text

/-- A reference as it is written: `$` or `$/`, and a name that can be in braces -/
structure Form where
  wsplit : Bool
  name : List UInt8
  brace : Bool
  alternative : Option Alternative
  isName : name=[49] ∨ name≠[] ∧ isNumeral (name.headD 0)=false ∧ ∀ c∈name,isNameChar true c=true
  braced : alternative≠none → brace=true

def Alternative.write (a : Alternative) : List UInt8 :=
  (if a.colon then [58] else [])++(if a.plus then 43 else 45)::a.text

namespace Form

/-- What is written behind the `$` -/
def write (f : Form) : List UInt8 :=
  (if f.wsplit then [47] else [])++
    if f.brace then 123::(f.name++((f.alternative.map Alternative.write).getD []++[125])) else f.name

/-- The next character does not belong to the name. -/
def Apart (f : Form) (rest : List UInt8) : Prop :=
  f.brace=true ∨ if f.name=[49] then isNumeral (rest.headD 0)=false
    else isNameChar true (rest.headD 0)=false

/-- The value of the variable or the alternative to it. An argument has to be there, if there is no
alternative to it. -/
def value (f : Form) (varResolve : List UInt8 → Option (List UInt8))
    (argval : Option (List UInt8)) : Except String (List UInt8) :=
  let resolved := if f.name=[49] then argval else varResolve f.name
  match f.alternative with
  | none =>
    if f.name=[49] ∧ argval=none then .error "missing value in argument substitution"
    else .ok (resolved.getD [])
  | some a =>
    let unset := resolved=none ∨ (a.colon=true ∧ resolved=some [])
    if unset then .ok (if a.plus then [] else a.text)
    else .ok (if a.plus then a.text else resolved.getD [])

/-- The reference that is read from it -/
def toRef (f : Form) : VarRef where
  name := f.name
  isArg := decide (f.name=[49])
  wsplit := f.wsplit
  altmode := match f.alternative with
    | none => .none
    | some a => if a.plus then .plus else .minus
  colon := (f.alternative.map Alternative.colon).getD false
  alt := (f.alternative.map Alternative.text).getD []
  len := f.write.length

theorem text_toRef (f : Form) (varResolve : List UInt8 → Option (List UInt8))
    (argval : Option (List UInt8)) :
    f.toRef.text varResolve argval=f.value varResolve argval := by
  unfold VarRef.text toRef value
  simp only [decide_eq_true_eq]
  generalize (if f.name=[49] then argval else varResolve f.name)=resolved
  cases f.alternative with
  | none => rfl
  | some a =>
    have hset : (resolved≠none ∧ (a.colon=false ∨ resolved≠some [])) ↔
        ¬(resolved=none ∨ (a.colon=true ∧ resolved=some [])) := by
      cases a.colon <;> simp
    simp only [Option.map_some,Option.getD_some,hset]
    by_cases h : resolved=none ∨ (a.colon=true ∧ resolved=some [])
    · have hempty : resolved.getD []=[] := by
        obtain rfl | ⟨-,rfl⟩ := h <;> rfl
      cases hp : a.plus <;> simp [h,hempty]
    · cases hp : a.plus <;> simp [h]

end Form

theorem takeWhile_word {p : UInt8 → Bool} {w rest : List UInt8} (hw : ∀ c∈w,p c=true)
    (hr : rest=[] ∨ p (rest.headD 0)=false) : (w++rest).takeWhile p=w := by
  have hstop : rest.takeWhile p=[] := by
    cases rest with
    | nil => rfl
    | cons c rest => simpa using hr
  rw [List.takeWhile_append_of_pos hw,hstop,List.append_nil]

theorem readConfigName_name {name rest : List UInt8}
    (hn : name=[49] ∨ name≠[] ∧ isNumeral (name.headD 0)=false ∧ ∀ c∈name,isNameChar true c=true)
    (hr : if name=[49] then isNumeral (rest.headD 0)=false else isNameChar true (rest.headD 0)=false) :
    readConfigName true (name++rest).length (name++rest)=(name,decide (name=[49])) := by
  obtain rfl | ⟨hne,hnum,hall⟩ := hn
  · have hone : isNumeral 49=true := rfl
    have htake : ([49]++rest).takeWhile isNumeral=[49] :=
      takeWhile_word (by simp [hone]) (.inr (by simpa using hr))
    unfold readConfigName
    rw [htake]
    simp [hone]
  · obtain ⟨c,name,rfl⟩ := List.exists_cons_of_ne_nil hne
    have hc : isNumeral c=false := hnum
    have hname : isNameChar true c=true := hall c List.mem_cons_self
    have h1 : c::name≠[49] := by
      intro h
      rw [(List.cons.inj h).1] at hc
      cases hc
    have h45 : c≠45 := by intro h; rw [h] at hname; cases hname
    have h46 : c≠46 := by intro h; rw [h] at hname; cases hname
    rw [if_neg h1] at hr
    have htake : (c::name++rest).takeWhile (isNameChar true)=c::name :=
      takeWhile_word hall (.inr hr)
    unfold readConfigName
    rw [List.take_length,htake]
    simp [hc,h45,h46,h1]

theorem getD_behind (pre l : List UInt8) (k : Nat) :
    (pre++l).getD (pre.length+k) 0=l.getD k 0 := by
  rw [List.getD,List.getD,List.getElem?_append_right (Nat.le_add_right _ k),Nat.add_sub_cancel_left]

/-- An alternative that is written is read. -/
theorem parseAlt_alternative (pre : List UInt8) (a : Alternative) (rest : List UInt8) (r : VarRef) :
    let i := pre++(a.write++125::rest)
    parseAlt i.length i r pre.length=.ok {r with
      altmode := if a.plus then .plus else .minus
      colon := a.colon
      alt := a.text
      len := (pre++(a.write++[125])).length} := by
  have htext : (a.text++125::rest).takeWhile (·!=125)=a.text :=
    takeWhile_word (fun c hc => by simpa using fun h : c=125 => a.closed (h ▸ hc)) (.inr rfl)
  have hend : (a.text++125::rest).getD a.text.length 0=125 := getD_behind a.text _ 0
  obtain ⟨sign,hw⟩ : ∃ sign : UInt8,sign=if a.plus=true then 43 else 45 := ⟨_,rfl⟩
  have hs58 : sign≠58 := by cases hp : a.plus <;> simp [hw,hp]
  intro i
  unfold parseAlt
  rw [List.take_length]
  cases hc : a.colon with
  | true =>
    have hi : i=(pre++[58,sign])++(a.text++125::rest) := by simp [i,Alternative.write,hc,hw]
    have hlen : (pre++[58,sign]).length=pre.length+1+1 := List.length_append
    have h0 : i.getD pre.length 0=58 := by
      rw [hi,List.append_assoc]; exact getD_behind pre _ 0
    have h1 : i.getD (pre.length+1) 0=sign := by
      rw [hi,List.append_assoc]; exact getD_behind pre _ 1
    have hd : i.drop (pre.length+1+1)=a.text++125::rest := by
      rw [hi,← hlen]; exact List.drop_left
    have h2 : i.getD (pre.length+1+1+a.text.length) 0=125 := by
      rw [hi,← hlen,getD_behind,hend]
    clear_value i
    have hl : (pre++(a.write++[125])).length=pre.length+1+1+a.text.length+1 := by
      simp [Alternative.write,hc]; omega
    simp only [h0,decide_true,if_true,h1,hd,htext,h2,hl]
    cases hp : a.plus <;> simp [hw,hp]
  | false =>
    have hi : i=(pre++[sign])++(a.text++125::rest) := by simp [i,Alternative.write,hc,hw]
    have hlen : (pre++[sign]).length=pre.length+1 := List.length_append
    have h0 : i.getD pre.length 0=sign := by
      rw [hi,List.append_assoc]; exact getD_behind pre _ 0
    have hd : i.drop (pre.length+1)=a.text++125::rest := by
      rw [hi,← hlen]; exact List.drop_left
    have h2 : i.getD (pre.length+1+a.text.length) 0=125 := by
      rw [hi,← hlen,getD_behind,hend]
    clear_value i
    have hl : (pre++(a.write++[125])).length=pre.length+1+a.text.length+1 := by
      simp [Alternative.write,hc]; omega
    simp only [h0,hs58,decide_false,Bool.false_eq_true,if_false,hd,htext,h2,hl]
    cases hp : a.plus <;> simp [hw,hp]

theorem parseAlt_none (pre rest : List UInt8) (r : VarRef) :
    let i := pre++125::rest
    parseAlt i.length i r pre.length=.ok {r with len := pre.length+1} := by
  intro i
  have h0 : i.getD pre.length 0=125 := getD_behind pre _ 0
  have h58 : (125 : UInt8)≠58 := by decide
  unfold parseAlt
  clear_value i
  simp only [h0,h58,decide_false,Bool.false_eq_true,if_false]
  simp

/-- A name character begins neither a split nor a brace. -/
theorem name_head {name : List UInt8} (rest : List UInt8)
    (hn : name=[49] ∨ name≠[] ∧ isNumeral (name.headD 0)=false ∧ ∀ c∈name,isNameChar true c=true) :
    (name++rest).getD 0 0≠47 ∧ (name++rest).getD 0 0≠123 ∧ name≠[] := by
  obtain rfl | ⟨hne,-,hall⟩ := hn
  · simp
  · obtain ⟨c,name,rfl⟩ := List.exists_cons_of_ne_nil hne
    have hc : isNameChar true c=true := hall c List.mem_cons_self
    refine ⟨fun h => ?_,fun h => ?_,hne⟩
    · rw [show c=47 from h] at hc
      cases hc
    · rw [show c=123 from h] at hc
      cases hc

/-- What is behind the name in braces -/
theorem parseAlt_write (f : Form) (pre rest : List UInt8) (r : VarRef)
    (hr : r=⟨f.name,decide (f.name=[49]),f.wsplit,.none,false,[],r.len⟩)
    (hlen : (pre++((f.alternative.map Alternative.write).getD []++[125])).length=f.write.length) :
    let i := pre++((f.alternative.map Alternative.write).getD []++125::rest)
    parseAlt i.length i r pre.length=.ok f.toRef := by
  unfold Form.toRef
  rw [← hlen]
  cases f.alternative with
  | none =>
    have h := parseAlt_none pre rest r
    dsimp only at h ⊢
    simp only [Option.map_none,Option.getD_none,List.nil_append] at h ⊢
    rw [h,hr,List.length_append]
    rfl
  | some a =>
    have h := parseAlt_alternative pre a rest r
    dsimp only at h ⊢
    simp only [Option.map_some,Option.getD_some] at h ⊢
    rw [h,hr]

theorem Form.tail_head (f : Form) :
    ∃ c l,(f.alternative.map Alternative.write).getD []++[125]=c::l ∧ isNumeral c=false ∧
      isNameChar true c=false := by
  cases f.alternative with
  | none => exact ⟨125,[],rfl,rfl,rfl⟩
  | some a =>
    cases hc : a.colon with
    | true => exact ⟨58,_,by simp only [Option.map_some,Option.getD_some,Alternative.write,hc]; rfl,rfl,rfl⟩
    | false =>
      refine ⟨if a.plus then 43 else 45,_,
        by simp only [Option.map_some,Option.getD_some,Alternative.write,hc]; rfl,?_,?_⟩
      · cases a.plus <;> rfl
      · cases a.plus <;> rfl

/-- A reference that is written is read. -/
theorem parseRef_write (f : Form) {rest : List UInt8} (h : f.Apart rest) :
    parseRef (f.write++rest).length (f.write++rest)=.ok f.toRef := by
  obtain ⟨tail,ht⟩ : ∃ tail,tail=if f.brace then
    (f.alternative.map Alternative.write).getD []++[125] else [] := ⟨_,rfl⟩
  obtain ⟨pre,hp⟩ : ∃ pre : List UInt8,pre=(if f.wsplit then [47] else [])++
    if f.brace then [123] else [] := ⟨_,rfl⟩
  obtain ⟨i,hi⟩ : ∃ i,i=f.write++rest := ⟨_,rfl⟩
  have hwrite : f.write=pre++(f.name++tail) := by
    rw [hp,ht,Form.write]
    cases f.brace <;> simp
  have hsplit : i=pre++(f.name++(tail++rest)) := by simp [hi,hwrite]
  obtain ⟨h47,h123,hne⟩ := name_head (tail++rest) f.isName
  -- where the split, the brace and the name are
  have hslash : decide (i.getD 0 0=47)=f.wsplit := by
    rw [hsplit,hp]
    cases f.wsplit with
    | true => rfl
    | false => cases f.brace <;> simp_all
  have hbrace : decide (i.getD (if f.wsplit then 1 else 0) 0=123)=f.brace := by
    rw [hsplit,hp]
    cases f.wsplit <;> cases f.brace <;> simp_all
  have hpos : (if f.brace then (if f.wsplit then 1 else 0)+1 else if f.wsplit then 1 else 0)=
      pre.length := by
    rw [hp]
    cases f.wsplit <;> cases f.brace <;> rfl
  have hname : readConfigName true (i.length-pre.length) (i.drop pre.length)=
      (f.name,decide (f.name=[49])) := by
    have hlen : i.length-pre.length=(f.name++(tail++rest)).length := by
      rw [hsplit,List.length_append,Nat.add_sub_cancel_left]
    rw [hlen,hsplit,List.drop_left]
    refine readConfigName_name f.isName ?_
    cases hb : f.brace with
    | true =>
      obtain ⟨c,l,hc,hnum,hchar⟩ := f.tail_head
      rw [ht,hb,if_pos rfl,hc]
      split
      · exact hnum
      · exact hchar
    | false =>
      have hrest := h.resolve_left (by simp [hb])
      simpa [ht,hb] using hrest
  rw [← hi]
  unfold parseRef
  simp only [hslash,hbrace,hpos,hname,hne,if_false,decide_eq_true_eq]
  rw [if_neg (by tauto)]
  cases hb : f.brace with
  | true =>
    rw [hb,if_pos rfl] at ht
    have halt := parseAlt_write f (pre++f.name) rest
      ⟨f.name,decide (f.name=[49]),f.wsplit,.none,false,[],pre.length+f.name.length⟩ rfl
      (by rw [← ht,hwrite,List.append_assoc])
    have hi' : i=pre++f.name++((f.alternative.map Alternative.write).getD []++125::rest) := by
      rw [hsplit,ht]
      simp
    dsimp only at halt
    rw [← hi',List.length_append] at halt
    exact halt
  | false =>
    have halt : f.alternative=none := by
      by_contra hne
      rw [f.braced hne] at hb
      cases hb
    rw [hb] at ht
    simp [Form.toRef,halt,hwrite,ht]

/-- A form in a token is the piece that has its value. -/
theorem pieces_form (varResolve : List UInt8 → Option (List UInt8)) (argval : Option (List UInt8))
    (f : Form) {rest vw : List UInt8} (h : f.Apart rest) (hv : f.value varResolve argval=.ok vw) :
    pieces varResolve argval (36::(f.write++rest))=(pieces varResolve argval rest).map
      ((if f.wsplit then .split vw else .whole vw)::·) := by
  have hr := parseRef_write f h
  have hhead : (f.write++rest).head?≠some 36 := by
    intro hd
    rw [List.eq_cons_of_mem_head? hd] at hr
    have hnum : isNumeral 36=false := rfl
    have hchar : isNameChar true 36=false := rfl
    simp [parseRef,readConfigName,hnum,hchar] at hr
  rw [← f.text_toRef] at hv
  have hp := pieces_ref varResolve argval hhead hr hv
  have hdrop : (f.write++rest).drop f.toRef.len=rest := List.drop_left
  rw [hp,hdrop]
  rfl

end Dinit
