import Dinit.Settings.Offsets

namespace Dinit

/-- No backslash is left alone at the end. -/
def EscapesClosed (i : List UInt8) : Prop := isOddNumber false i.reverse=false

theorem isOddNumber_append (odd : Bool) (r p : List UInt8) {c : UInt8} (h : c≠92) :
    isOddNumber odd (r++c::p)=isOddNumber odd r := by
  induction r generalizing odd with
  | nil => simp [isOddNumber,h]
  | cons d r ih => simp [isOddNumber,ih]

theorem isOddNumber_pair (odd : Bool) (r : List UInt8) (d : UInt8) :
    isOddNumber odd (r++[d,92])=isOddNumber odd r := by
  induction r generalizing odd with
  | nil => by_cases h : d=92 <;> simp [isOddNumber,h]
  | cons c r ih => simp [isOddNumber,ih]

namespace EscapesClosed

theorem behind {p i : List UInt8} {c : UInt8} (h : EscapesClosed (p++c::i)) (hc : c≠92) :
    EscapesClosed i := by
  simpa [EscapesClosed,isOddNumber_append,hc] using h

theorem tail {i : List UInt8} {c : UInt8} (h : EscapesClosed (c::i)) (hc : c≠92) :
    EscapesClosed i := behind (p := []) h hc

theorem escaped {i : List UInt8} {d : UInt8} (h : EscapesClosed (92::d::i)) : EscapesClosed i := by
  simpa [EscapesClosed,isOddNumber_pair] using h

theorem not_alone : ¬EscapesClosed [92] := by simp [EscapesClosed,isOddNumber]

theorem dropWhile {i : List UInt8} (h : EscapesClosed i) (p : UInt8 → Bool) (hp : p 92=false) :
    EscapesClosed (i.dropWhile p) := by
  induction i with
  | nil => exact h
  | cons c i ih =>
    by_cases hc : p c=true
    · have hne : c≠92 := by rintro rfl; simp [hp] at hc
      simpa [hc] using ih (h.tail hne)
    · simpa [hc] using h

end EscapesClosed

theorem space_ne {c : UInt8} (h : isSpace c=true) : c≠92 := by rintro rfl; simp [isSpace] at h

theorem skipWsLn_eq (count : UInt32) (i : List UInt8) :
    (skipWsLn count i).2=i.dropWhile isSpace := by
  induction i generalizing count with
  | nil => rfl
  | cons c i ih => by_cases h : isSpace c=true <;> simp [skipWsLn,h,ih]

/-- A comment ends behind a newline. -/
theorem skipComment_stop (comment : Bool) (count : UInt32) (i : List UInt8) :
    let j := (skipComment comment count i).2
    j=[] ∨ (comment=false ∧ j=i) ∨ ∃ p c,isSpace c=true ∧ i=p++c::j := by
  induction i generalizing comment count with
  | nil => simp [skipComment]
  | cons c i ih =>
    simp only [skipComment]
    generalize hi : (if c=35 then true else if c=10 then false else comment)=inside
    by_cases h : (!inside && !isSpace c)=true
    · have hc : c≠10 := by rintro rfl; simp [isSpace] at h
      have hh : c≠35 := by rintro rfl; simp_all
      simp_all
    · rw [if_neg h]
      obtain hj | ⟨hin,hj⟩ | ⟨p,d,hd,hj⟩ := ih inside (if c=10 then count+1 else count)
      · exact .inl hj
      · have hs : isSpace c=true := by simpa [hin] using h
        exact .inr (.inr ⟨[],c,hs,by rw [hj]; rfl⟩)
      · exact .inr (.inr ⟨c::p,d,hd,congrArg (c::·) hj⟩)

theorem readQuoted_closed {s : SettingValue} {i : List UInt8} (hi : EscapesClosed i) :
    readQuoted s i≠.error .pastEnd ∧ ∀ t j,readQuoted s i=.ok (t,j) → EscapesClosed j := by
  fun_induction readQuoted s i with
  | case1 s => simp
  | case2 s i =>
    have hj := hi.tail (by decide)
    simpa using hj
  | case3 s hd => exact absurd hi EscapesClosed.not_alone
  | case4 s d i hd ih => exact ih hi.escaped
  | case5 s c i h1 h2 ih => exact ih (hi.tail h2)

theorem readParts_inside (s : SettingValue) (i : List UInt8) (hi : EscapesClosed i) :
    readParts s i≠.error .pastEnd := by
  fun_induction readParts s i with
  | case1 s => simp
  | case2 s i e h =>
    have hq := (readQuoted_closed (s := s.beginPart) (hi.tail (by decide))).1
    rintro ⟨rfl⟩
    exact hq h
  | case3 s i t j h ih =>
    exact ih ((readQuoted_closed (hi.tail (by decide))).2 t j h)
  | case4 s hc => exact absurd hi EscapesClosed.not_alone
  | case5 s d i hc ih => exact ih hi.escaped
  | case6 => simp
  | case7 s c i h1 h2 hs lines d j h ih =>
    apply ih
    have hstop := skipComment_stop false s.lineNum (c::i)
    simp only [h] at hstop
    obtain hj | ⟨-,hj⟩ | ⟨p,e,he,hj⟩ := hstop
    · cases hj
    · rwa [hj]
    · rw [hj] at hi
      exact hi.behind (space_ne he)
  | case8 => simp
  | case9 s c i h1 h2 h3 h4 ih => exact ih (hi.tail h2)

theorem skipWsLn_closed {i : List UInt8} (hi : EscapesClosed i) (n : UInt32) :
    EscapesClosed (skipWsLn n i).2 := by
  rw [skipWsLn_eq]
  exact hi.dropWhile isSpace (by decide)

theorem readSettingValue_inside (v : List UInt8) (op : SettingOp) (n : UInt32) (i : List UInt8)
    (ps : Option (List (UInt32 × UInt32))) (delimiter : UInt8) (hi : EscapesClosed i) :
    readSettingValue v op n i ps delimiter≠.error .pastEnd := by
  have hs := skipWsLn_closed hi n
  unfold readSettingValue
  split
  · exact readParts_inside _ _ hs
  · exact readParts_inside _ _ hs

theorem isContinued_eq (line : List UInt8) : isContinued line=isOddNumber false line.reverse := by
  unfold isContinued
  cases line.reverse with
  | nil => rfl
  | cons c r => by_cases h : c=92 <;> simp [isOddNumber,h]

theorem logicalLine_closed {n m : UInt32} {line l : List UInt8} {input rest : List (List UInt8)}
    (h : logicalLine n line input=.ok (l,m,rest)) : EscapesClosed l := by
  induction input generalizing n line with
  | nil =>
    by_cases hc : isContinued line=true
    · simp [logicalLine,hc] at h
    · simp only [logicalLine,hc] at h
      cases h
      simpa [EscapesClosed,isContinued_eq] using hc
  | cons nextline input ih =>
    by_cases hc : isContinued line=true
    · simp only [logicalLine,hc,if_true] at h
      split at h
      · cases h
      · exact ih h
    · simp only [logicalLine,hc] at h
      cases h
      simpa [EscapesClosed,isContinued_eq] using hc

theorem readConfigName_closed {i : List UInt8} (h : EscapesClosed i) :
    EscapesClosed (i.drop (readConfigName false i.length i).1.length) := by
  unfold readConfigName
  simp only [Bool.false_and,Bool.false_eq_true,if_false,List.take_length]
  split
  · exact h
  · have hd := h.dropWhile (isNameChar false) (by decide)
    have he : i.drop (i.takeWhile (isNameChar false)).length=i.dropWhile (isNameChar false) := by
      conv_lhs => enter [2]; rw [← List.takeWhile_append_dropWhile (p := isNameChar false) (l := i)]
      exact List.drop_left
    rwa [he]

/-- Where the value of a line begins -/
def ServiceLine.value : ServiceLine → Option (UInt32 × List UInt8)
  | .comment => none
  | .includeFile _ n i => some (n,i)
  | .metaCommand _ => none
  | .setting _ _ n i => some (n,i)

theorem settingLine_closed {name : List UInt8} {n m k : UInt32} {i j : List UInt8} {l : ServiceLine}
    (hi : EscapesClosed i) (h : settingLine name n m i=.ok l) (hv : l.value=some (k,j)) :
    EscapesClosed j := by
  have value {c : UInt8} {i : List UInt8} {op : SettingOp} (hi : EscapesClosed (c::i)) (hc : c≠92)
      (h : Except.ok (.setting name op (skipWsLn m i).1 (skipWsLn m i).2)=
        (Except.ok l : Except SettingFault ServiceLine)) : EscapesClosed j := by
    cases h
    simp only [ServiceLine.value,Option.some.injEq,Prod.mk.injEq] at hv
    rw [← hv.2]
    exact skipWsLn_closed (hi.tail hc) m
  unfold settingLine at h
  by_cases hn : name=[]
  · simp [hn,badLine] at h
  rw [if_neg hn] at h
  cases i with
  | nil => simp [badLine] at h
  | cons c i =>
    by_cases h1 : c=61
    · exact value hi (by rw [h1]; decide) (by simpa [h1] using h)
    by_cases h2 : c=58
    · exact value hi (by rw [h2]; decide) (by simpa [h2] using h)
    by_cases h3 : c=43 ∧ i.head?=some 61
    · have ht : i=61::i.tail := List.eq_cons_of_mem_head? h3.2
      have hc : EscapesClosed i := hi.tail (by rw [h3.1]; decide)
      rw [ht] at hc
      exact value hc (by decide) (by simpa [h3] using h)
    · simp [h1,h2,h3,badLine] at h

theorem serviceLine_closed {n m k : UInt32} {line i : List UInt8} {l : ServiceLine}
    (hc : EscapesClosed line) (h : serviceLine n m line=.ok l) (hv : l.value=some (k,i)) :
    EscapesClosed i := by
  have hs := skipWsLn_closed hc m
  unfold serviceLine at h
  generalize skipWsLn m line=start at h hs
  obtain ⟨lines,_ | ⟨c,j⟩⟩ := start
  · cases h; cases hv
  by_cases h1 : c=35
  · simp only [h1,if_true,Except.ok.injEq] at h
    rw [← h] at hv
    cases hv
  by_cases h2 : c=64
  · have hj := readConfigName_closed (hs.tail (by rw [h2]; decide))
    dsimp only at h
    rw [if_neg h1,if_pos h2] at h
    generalize hd : j.drop (readConfigName false j.length j).1.length=r at h hj
    split at h
    · cases h; cases hv; exact hj
    split at h
    · cases h; cases hv; exact hj
    split at h
    · cases h; cases hv
    · cases h
  · dsimp only at h
    rw [if_neg h1,if_neg h2] at h
    exact settingLine_closed (skipWsLn_closed (readConfigName_closed hs) lines) h hv

/-- How a word is written: between quote marks, or with each special character escaped -/
inductive Style where
  | quoted
  | escaped
deriving DecidableEq

structure Word where
  text : List UInt8
  style : Style
  no_newline : 10∉text

def isSpecial (c : UInt8) : Bool := isSpace c || c==34 || c==92 || c==35

def escapeChar (special : UInt8 → Bool) (c : UInt8) : List UInt8 :=
  if special c then [92,c] else [c]

def Word.write (w : Word) : List UInt8 :=
  match w.style with
  | .quoted => 34::w.text.flatMap (escapeChar fun c => c==34 || c==92)++[34]
  | .escaped => w.text.flatMap (escapeChar isSpecial)

/-- A word behind white space. A newline there is a line continuation. -/
structure Part where
  blank : List UInt8
  word : Word
  isBlank : ∀ c∈blank,isSpace c=true

def writeParts (parts : List Part) : List UInt8 := parts.flatMap fun p => p.blank++p.word.write

/-- What is behind the last word -/
structure Trailer where
  blank : List UInt8
  comment : Option (List UInt8)
  isBlank : ∀ c∈blank,isSpace c=true
  no_newline : ∀ text,comment=some text → 10∉text
  separated : comment≠none → blank≠[]

def Trailer.write (t : Trailer) : List UInt8 :=
  t.blank++match t.comment with
    | none => []
    | some text => 35::text

/-- The value: the words, with a blank between them -/
def joinWords : List (List UInt8) → List UInt8
  | [] => []
  | w::ws => w++ws.flatMap (32::·)

/-- Where the words are in the value -/
def layout (start : Nat) : List (List UInt8) → List (Nat × Nat)
  | [] => []
  | w::ws => (start,start+w.length)::layout (start+w.length+1) ws

def position (p : Nat × Nat) : UInt32 × UInt32 := (.ofNat p.1,.ofNat p.2)

theorem joinWords_cons (w v : List UInt8) (ws : List (List UInt8)) :
    joinWords (w::v::ws)=w++32::joinWords (v::ws) := by simp [joinWords]

theorem layout_bound {start : Nat} {ws : List (List UInt8)} {p : Nat × Nat}
    (h : p∈layout start ws) : p.1≤ p.2 ∧ p.2≤ start+(joinWords ws).length := by
  induction ws generalizing start with
  | nil => cases h
  | cons w ws ih =>
    rw [layout,List.mem_cons] at h
    obtain rfl | h := h
    · simp only [joinWords,List.length_append]; omega
    · have hp := ih h
      cases ws with
      | nil => cases h
      | cons v ws => rw [joinWords_cons,List.length_append,List.length_cons]; omega

/-- Each word stands at its position. -/
theorem layout_substring (pre w : List UInt8) (ws : List (List UInt8)) :
    (layout pre.length (w::ws)).map (fun p => ((pre++joinWords (w::ws)).drop p.1).take (p.2-p.1))=
      w::ws := by
  induction ws generalizing pre w with
  | nil => simp [layout,joinWords]
  | cons v ws ih =>
    have hv := ih (pre++w++[32]) v
    have hpre : (pre++w++[32]).length=pre.length+w.length+1 := by simp only [List.length_append]; rfl
    have htext : pre++w++[32]++joinWords (v::ws)=pre++joinWords (w::v::ws) := by
      simp [joinWords_cons]
    rw [hpre,htext] at hv
    rw [layout,List.map_cons,hv]
    simp [joinWords]

theorem substring_layout (ws : List (List UInt8)) (h : (joinWords ws).length<2^32) :
    ((layout 0 ws).map position).map (substring (joinWords ws))=ws := by
  cases ws with
  | nil => rfl
  | cons w ws =>
    have hl := layout_substring [] w ws
    rw [List.length_nil,List.nil_append] at hl
    conv_rhs => rw [← hl]
    rw [List.map_map]
    apply List.map_congr_left
    intro p hp
    have hb := layout_bound hp
    have h1 : (UInt32.ofNat p.1).toNat=p.1 := UInt32.toNat_ofNat_of_lt' (by simp [UInt32.size]; omega)
    have h2 : (UInt32.ofNat p.2).toNat=p.2 := UInt32.toNat_ofNat_of_lt' (by simp [UInt32.size]; omega)
    simp [position,substring,h1,h2]

namespace SettingValue

@[simp] theorem beginPart_inside {s : SettingValue} (h : s.newPart=false) : s.beginPart=s := by
  simp [beginPart,h]

/-- The state behind a word -/
def wordRead (s : SettingValue) (text : List UInt8) : SettingValue :=
  {s with settingVal := s.settingVal++text,partStart := .ofNat s.settingVal.length,newPart := false}

end SettingValue

theorem readQuoted_text (s : SettingValue) (text i : List UInt8) :
    readQuoted s (text.flatMap (escapeChar fun c => c==34 || c==92)++34::i)=
      .ok ({s with settingVal := s.settingVal++text},i) := by
  induction text generalizing s with
  | nil => simp
  | cons c text ih =>
    rw [List.flatMap_cons,List.append_assoc]
    by_cases h : (c==34 || c==92)=true
    · simp [escapeChar,h,ih,SettingValue.append]
    · have hq : c≠34 ∧ c≠92 := by simpa using h
      simp [escapeChar,h,readQuoted_plain s c _ hq.1 hq.2,ih,SettingValue.append]

theorem readParts_char (s : SettingValue) (c : UInt8) (i : List UInt8) :
    readParts s (escapeChar isSpecial c++i)=readParts (s.beginPart.append c) i := by
  by_cases h : isSpecial c=true
  · simp [escapeChar,h]
  · have hc : ((isSpace c=false ∧ c≠34) ∧ c≠92) ∧ c≠35 := by simpa [isSpecial] using h
    simp [escapeChar,h,readParts_plain s c i hc.1.1.2 hc.1.2 hc.1.1.1 hc.2]

theorem readParts_chars {s : SettingValue} (h : s.newPart=false) (text i : List UInt8) :
    readParts s (text.flatMap (escapeChar isSpecial)++i)=
      readParts {s with settingVal := s.settingVal++text} i := by
  induction text generalizing s with
  | nil => simp
  | cons c text ih =>
    rw [List.flatMap_cons,List.append_assoc,readParts_char,SettingValue.beginPart_inside h,
      ih (by exact h)]
    simp [SettingValue.append]

theorem readParts_word {s : SettingValue} (h : s.newPart=true) (w : Word) (i : List UInt8)
    (hw : w.style=.escaped → w.text≠[]) :
    readParts s (w.write++i)=readParts (s.wordRead w.text) i := by
  have hb : s.beginPart={s with partStart := .ofNat s.settingVal.length,newPart := false} := by
    simp [SettingValue.beginPart,h]
  cases hs : w.style with
  | quoted =>
    have hq := readQuoted_text s.beginPart w.text i
    simp only [Word.write,hs,List.cons_append,List.append_assoc,List.nil_append]
    rw [readParts_quote hq,hb]
    rfl
  | escaped =>
    obtain ⟨c,text,ht⟩ := List.exists_cons_of_ne_nil (hw hs)
    simp only [Word.write,hs,ht,List.flatMap_cons,List.append_assoc]
    rw [readParts_char,readParts_chars (by simp [hb,SettingValue.append]),hb]
    simp [SettingValue.wordRead,SettingValue.append]

/-- A word begins with a character that is not white space and begins no comment. -/
theorem Word.write_head (w : Word) (hw : w.style=.escaped → w.text≠[]) :
    ∃ c i,w.write=c::i ∧ isSpace c=false ∧ c≠35 := by
  cases hs : w.style with
  | quoted => exact ⟨34,_,by simp only [write,hs]; rfl,by decide,by decide⟩
  | escaped =>
    obtain ⟨c,text,ht⟩ := List.exists_cons_of_ne_nil (hw hs)
    simp only [write,hs,ht,List.flatMap_cons]
    by_cases h : isSpecial c=true
    · exact ⟨92,_,by simp only [escapeChar,h]; rfl,by decide,by decide⟩
    · have hc : ((isSpace c=false ∧ c≠34) ∧ c≠92) ∧ c≠35 := by simpa [isSpecial] using h
      exact ⟨c,_,by simp only [escapeChar,h]; rfl,hc.1.1.1,hc.2⟩

theorem skipComment_blank {blank : List UInt8} (h : ∀ c∈blank,isSpace c=true) (n : UInt32) :
    ∃ m,∀ i,skipComment false n (blank++i)=skipComment false m i := by
  induction blank generalizing n with
  | nil => exact ⟨n,fun i => rfl⟩
  | cons c blank ih =>
    obtain ⟨m,hm⟩ := ih (fun d hd => h d (List.mem_cons_of_mem c hd)) (if c=10 then n+1 else n)
    refine ⟨m,fun i => ?_⟩
    rw [List.cons_append,skipComment_space n c _ (h c List.mem_cons_self),hm]

theorem skipComment_comment {text : List UInt8} (h : 10∉text) (n : UInt32) :
    skipComment true n text=(n,[]) := by
  induction text with
  | nil => rfl
  | cons c text ih =>
    have hc : 10≠c ∧ 10∉text := by simpa using h
    simp [skipComment,Ne.symm hc.1,ih hc.2]

theorem Trailer.skip (t : Trailer) (n : UInt32) : ∃ m,skipComment false n t.write=(m,[]) := by
  obtain ⟨m,hm⟩ := skipComment_blank t.isBlank n
  refine ⟨m,?_⟩
  rw [write,hm]
  cases hc : t.comment with
  | none => rfl
  | some text => simp [skipComment,skipComment_comment (t.no_newline text hc)]

theorem readParts_trailer (s : SettingValue) (t : Trailer) (h : s.newPart=false)
    (ps : List (UInt32 × UInt32)) (hp : s.partPositions=some ps) :
    ∃ v,readParts s t.write=.ok v ∧ v.settingVal=s.settingVal ∧
      v.partPositions=some (ps++[(s.partStart,.ofNat s.settingVal.length)]) := by
  have hs : s.endPart={s with
      partPositions := some (ps++[(s.partStart,.ofNat s.settingVal.length)]),newPart := true} := by
    simp [SettingValue.endPart,h,hp]
  obtain ⟨m,hm⟩ := t.skip s.lineNum
  cases hb : t.blank with
  | nil =>
    have hc : t.comment=none := by
      by_contra hc
      exact t.separated hc hb
    have ht : t.write=[] := by simp [Trailer.write,hb,hc]
    exact ⟨s.endPart,by rw [ht,readParts_nil],by rw [hs],by rw [hs]⟩
  | cons c blank =>
    have hc : isSpace c=true := t.isBlank c (by simp [hb])
    have ht : ∃ i,t.write=c::i := ⟨_,by rw [Trailer.write,hb]; rfl⟩
    obtain ⟨i,ht⟩ := ht
    rw [ht] at hm ⊢
    exact ⟨_,readParts_last hc hm,by rw [hs],by rw [hs]⟩

/-- Each word that follows is appended to the value, behind a blank, and to the positions. -/
theorem readParts_words (parts : List Part) (t : Trailer) (s : SettingValue)
    (ps : List (UInt32 × UInt32)) (h : s.newPart=false) (hp : s.partPositions=some ps)
    (hsep : ∀ p∈parts,p.blank≠[]) (hw : ∀ p∈parts,p.word.style=.escaped → p.word.text≠[]) :
    ∃ v,readParts s (writeParts parts++t.write)=.ok v ∧
      v.settingVal=s.settingVal++(parts.map (·.word.text)).flatMap (32::·) ∧
      v.partPositions=some (ps++(s.partStart,.ofNat s.settingVal.length)::
        (layout (s.settingVal.length+1) (parts.map (·.word.text))).map position) := by
  induction parts generalizing s ps with
  | nil =>
    obtain ⟨v,hv,ht,hq⟩ := readParts_trailer s t h ps hp
    exact ⟨v,hv,by simpa using ht,hq⟩
  | cons p parts ih =>
    have hpw := hw p List.mem_cons_self
    obtain ⟨c,blank,hb⟩ := List.exists_cons_of_ne_nil (hsep p List.mem_cons_self)
    obtain ⟨d,j,hd,hds,hdh⟩ := p.word.write_head hpw
    have hc : isSpace c=true := p.isBlank c (by simp [hb])
    obtain ⟨m,hm⟩ := skipComment_blank p.isBlank s.lineNum
    -- the blank before the word, then the word itself
    have htext : writeParts (p::parts)++t.write=
        c::(blank++(p.word.write++(writeParts parts++t.write))) := by
      simp [writeParts,hb]
    have hskip : skipComment false s.lineNum
        (c::(blank++(p.word.write++(writeParts parts++t.write))))=
        (if d=10 then m+1 else m,p.word.write++(writeParts parts++t.write)) := by
      have hi := hm (p.word.write++(writeParts parts++t.write))
      rw [hb,List.cons_append] at hi
      rw [hi,hd]
      simp [skipComment,hds,hdh]
    generalize (if d=10 then m+1 else m)=n at hskip
    have hend : s.endPart={s with
        partPositions := some (ps++[(s.partStart,.ofNat s.settingVal.length)]),newPart := true} := by
      simp [SettingValue.endPart,h,hp]
    have hread : (({s.endPart with lineNum := n} : SettingValue).append 32).wordRead p.word.text=
        ⟨s.settingVal++32::p.word.text,some (ps++[(s.partStart,.ofNat s.settingVal.length)]),false,
          .ofNat (s.settingVal.length+1),n⟩ := by
      simp [SettingValue.wordRead,SettingValue.append,hend]
    obtain ⟨v,hv,hval,hpos⟩ := ih
      ⟨s.settingVal++32::p.word.text,some (ps++[(s.partStart,.ofNat s.settingVal.length)]),false,
        .ofNat (s.settingVal.length+1),n⟩ _ rfl rfl (fun q hq => hsep q (List.mem_cons_of_mem p hq))
      (fun q hq => hw q (List.mem_cons_of_mem p hq))
    rw [← hread,← readParts_word (by simp [SettingValue.append,hend]) p.word _ hpw] at hv
    refine ⟨v,?_,?_,?_⟩
    · rw [htext,← hv]
      rw [hd] at hskip ⊢
      exact readParts_next hc hskip
    · rw [hval]
      simp
    · have hlen : (s.settingVal++32::p.word.text).length=
          s.settingVal.length+1+p.word.text.length := by
        simp only [List.length_append,List.length_cons]; omega
      rw [hpos,hlen,List.append_assoc]
      rfl

theorem skipWsLn_blank {blank : List UInt8} (h : ∀ c∈blank,isSpace c=true) (n : UInt32) :
    ∃ m,∀ i,skipWsLn n (blank++i)=skipWsLn m i := by
  induction blank generalizing n with
  | nil => exact ⟨n,fun i => rfl⟩
  | cons c blank ih =>
    obtain ⟨m,hm⟩ := ih (fun d hd => h d (List.mem_cons_of_mem c hd)) (if c=10 then n+1 else n)
    refine ⟨m,fun i => ?_⟩
    rw [List.cons_append,skipWsLn,if_pos (h c List.mem_cons_self),hm]

/-- What is read back, before the positions are cut to 32 bits -/
theorem readSettingValue_words (parts : List Part) (t : Trailer) (prev : List UInt8) (n : UInt32)
    (ps : List (UInt32 × UInt32)) (delimiter : UInt8) (hsep : ∀ p∈parts.tail,p.blank≠[])
    (hw : ∀ p∈parts,p.word.style=.escaped → p.word.text≠[])
    (ht : t.comment≠none → parts≠[]) :
    ∃ v,readSettingValue prev .assign n (writeParts parts++t.write) (some ps) delimiter=.ok v ∧
      v.settingVal=joinWords (parts.map (·.word.text)) ∧
      v.partPositions=some ((layout 0 (parts.map (·.word.text))).map position) := by
  cases parts with
  | nil =>
    have hc : t.comment=none := by
      by_contra hc
      exact ht hc rfl
    obtain ⟨m,hm⟩ := skipWsLn_blank t.isBlank n
    have hskip : skipWsLn n t.write=(m,[]) := by rw [Trailer.write,hc,hm]; rfl
    simp [readSettingValue,writeParts,hskip,SettingValue.endPart,joinWords,layout]
  | cons p parts =>
    have hpw := hw p List.mem_cons_self
    obtain ⟨m,hm⟩ := skipWsLn_blank p.isBlank n
    obtain ⟨d,j,hd,hds,hdh⟩ := p.word.write_head hpw
    have hskip : skipWsLn n (writeParts (p::parts)++t.write)=
        (if d=10 then m+1 else m,p.word.write++(writeParts parts++t.write)) := by
      have hi := hm (p.word.write++(writeParts parts++t.write))
      simp only [writeParts,List.flatMap_cons,List.append_assoc] at hi ⊢
      rw [hi,hd]
      simp [skipWsLn,hds]
    generalize (if d=10 then m+1 else m)=k at hskip
    obtain ⟨v,hv,hval,hpos⟩ := readParts_words parts t
      ((⟨[],some [],true,0,k⟩ : SettingValue).wordRead p.word.text) [] rfl rfl hsep
      (fun q hq => hw q (List.mem_cons_of_mem p hq))
    refine ⟨v,?_,hval,?_⟩
    · rw [← readParts_word rfl p.word _ hpw] at hv
      simpa [readSettingValue,hskip] using hv
    · simpa [SettingValue.wordRead,layout,position] using hpos

/-- The substrings at the part positions are the words that were written. -/
def ParsesBack (parts : List Part) (t : Trailer) : Prop :=
  ∀ (prev : List UInt8) (n : UInt32) (ps : List (UInt32 × UInt32)),
    ∃ v q,readSettingValue prev .assign n (writeParts parts++t.write) (some ps)=.ok v ∧
      v.partPositions=some q ∧ q.map (substring v.settingVal)=parts.map (·.word.text)

/-- Words in quotes or with escapes are read back, and in no logical line of a file does the iterator
leave the line. -/
theorem setting_values_parse_back :
    (∀ (parts : List Part) (t : Trailer),
      (∀ p∈parts.tail,p.blank≠[]) → (∀ p∈parts,p.word.style=.escaped → p.word.text≠[]) →
      (t.comment≠none → parts≠[]) → (joinWords (parts.map (·.word.text))).length<2^32 →
      ParsesBack parts t) ∧
    ∀ (n m k j : UInt32) (line l i : List UInt8) (input rest : List (List UInt8)) (s : ServiceLine),
      logicalLine n line input=.ok (l,m,rest) → serviceLine m k l=.ok s → s.value=some (j,i) →
      ∀ v op ps delimiter,readSettingValue v op j i ps delimiter≠.error .pastEnd := by
  constructor
  · intro parts t hsep hw ht hlen prev n ps
    obtain ⟨v,hv,hval,hpos⟩ := readSettingValue_words parts t prev n ps 32 hsep hw ht
    refine ⟨v,_,hv,hpos,?_⟩
    rw [hval]
    exact substring_layout _ hlen
  · intro n m k j line l i input rest s hl hs hv v op ps delimiter
    have hc := serviceLine_closed (logicalLine_closed hl) hs hv
    exact readSettingValue_inside v op j i ps delimiter hc

/-- `"" a\#` with a comment, and a line that is continued -/
theorem setting_values_parse_back_line :
    ParsesBack [⟨[],⟨[],.quoted,by simp⟩,by simp⟩,⟨[32,10,32],⟨[97,35],.escaped,by simp⟩,by simp [isSpace]⟩]
        ⟨[32],some [120],by simp [isSpace],by simp,by simp⟩ ∧
      readSettingValue [] .assign 1 [98,10,32,99]≠.error .pastEnd :=
  ⟨setting_values_parse_back.1 _ _ (by simp) (by simp) (by simp) (by decide),
    setting_values_parse_back.2 1 2 1 1 [97,61,32,98,92] [97,61,32,98,10,32,99] [98,10,32,99] [[32,99]]
      [] (.setting [97] .assign 1 [98,10,32,99]) (by decide) (by decide) rfl [] .assign none 32⟩

/-- From 2^32 characters on, a position is no longer where the word is. -/
theorem long_word_lost (w : Word) (h : w.text.length=2^32) (hq : w.style=.quoted) :
    ¬ParsesBack [⟨[],w,by simp⟩] ⟨[],none,by simp,by simp,by simp⟩ := by
  intro hp
  obtain ⟨v,q,hv,hvq,hmap⟩ := hp [] 1 []
  obtain ⟨v',hv',-,hpos⟩ := readSettingValue_words [⟨[],w,by simp⟩]
    ⟨[],none,by simp,by simp,by simp⟩ [] 1 [] 32 (by simp) (by simp [hq]) (by simp)
  have he : v=v' := by
    rw [hv'] at hv
    exact (Except.ok.inj hv).symm
  have hqs : q=[(0,0)] := by
    rw [← he,hvq] at hpos
    rw [Option.some.inj hpos]
    simp [layout,position,h]
  have ht : w.text=[] := by simpa [hqs,substring] using hmap.symm
  simp [ht] at h

/-- A word of `n` letters -/
def longWord (n : Nat) : Word :=
  ⟨List.replicate n 97,.quoted,fun h => absurd (List.eq_of_mem_replicate h) (by decide)⟩

theorem longWord_length (n : Nat) : (longWord n).text.length=n := List.length_replicate

/-- An empty word with escapes is not written at all, a comment in place of the first word is an error,
and a long word has no position. -/
theorem words_lost :
    ¬ParsesBack [⟨[],⟨[],.escaped,by simp⟩,by simp⟩] ⟨[],none,by simp,by simp,by simp⟩ ∧
    ¬ParsesBack [] ⟨[32],some [120],by simp [isSpace],by simp,by simp⟩ ∧
    ¬ParsesBack [⟨[],longWord (2^32),by simp⟩] ⟨[],none,by simp,by simp,by simp⟩ := by
  refine ⟨?_,?_,long_word_lost _ (longWord_length _) rfl⟩
  · intro h
    obtain ⟨v,q,hv,hq,hmap⟩ := h [] 1 []
    have hr : readSettingValue [] .assign 1 [] (some [])=.ok ⟨[],some [],true,0,1⟩ := by
      simp [readSettingValue,skipWsLn,SettingValue.endPart]
    have he : v=⟨[],some [],true,0,1⟩ := Except.ok.inj (hv.symm.trans hr)
    have hqs : q=[] := by simpa [he] using hq.symm
    simp [hqs] at hmap
  · intro h
    obtain ⟨v,q,hv,-⟩ := h [] 1 []
    have hskip : skipWsLn 1 [32,35,120]=(1,[35,120]) := rfl
    simp [readSettingValue,writeParts,Trailer.write,hskip,readParts_hash] at hv

end Dinit
