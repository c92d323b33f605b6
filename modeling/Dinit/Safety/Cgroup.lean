import Dinit.Daemon.Cgroup

namespace Dinit

namespace CgroupPath

/-- What follows the first colon -/
def afterColon (s : List UInt8) : Option (List UInt8) := (s.dropWhile (·≠58)).tail?

/-- What follows the second colon -/
def afterColons (s : List UInt8) : Option (List UInt8) := (afterColon s).bind afterColon

/-- `P`, for a line of the form `A:B:/P` -/
def linePath (line : List UInt8) : Option (List UInt8) :=
  match afterColons line with
  | some (47::p) => some p
  | _ => none

/-- The path of a file: it has a single line, with or without a newline, and that is of the form. -/
def pathOf (content : List UInt8) : Option (List UInt8) :=
  let line := if content.getLast?=some 10 then content.dropLast else content
  if 10∈line then none else linePath line

theorem afterColon_split {a t : List UInt8} (ha : 58∉a) : afterColon (a++58::t)=some t := by
  have hdrop : (a++58::t).dropWhile (·≠58)=58::t := by
    rw [List.dropWhile_append_of_pos]
    · rfl
    · intro x hx
      have hne : x≠58 := fun h => ha (h ▸ hx)
      simpa using hne
  unfold afterColon
  rw [hdrop]
  rfl

theorem afterColon_none {a : List UInt8} (ha : 58∉a) : afterColon a=none := by
  have hdrop : a.dropWhile (·≠58)=[] := by
    rw [← List.append_nil a,List.dropWhile_append_of_pos]
    · rfl
    · intro x hx
      have hne : x≠58 := fun h => ha (h ▸ hx)
      simpa using hne
  unfold afterColon
  rw [hdrop]
  rfl

/-- A text with a colon is split at the first one. -/
theorem split_colon {s : List UInt8} (h : 58∈s) : ∃ a t,s=a++58::t ∧ 58∉a := by
  obtain ⟨a,t,heq,ha⟩ := List.eq_append_cons_of_mem h
  exact ⟨a,t,heq,ha⟩

theorem afterColons_split {a b t : List UInt8} (ha : 58∉a) (hb : 58∉b) :
    afterColons (a++58::b++58::t)=some t := by
  have hfirst : afterColon (a++58::b++58::t)=some (b++58::t) := by
    rw [List.append_assoc]
    exact afterColon_split ha
  rw [afterColons,hfirst,Option.bind_some,afterColon_split hb]

theorem afterColons_few {s : List UInt8} (h : s.count 58<2) : afterColons s=none := by
  by_cases hmem : 58∈s
  · obtain ⟨a,t,heq,ha⟩ := split_colon hmem
    have ht : 58∉t := by
      rw [heq,List.count_append,List.count_cons_self] at h
      exact List.count_eq_zero.mp (by omega)
    rw [afterColons,heq,afterColon_split ha,Option.bind_some,afterColon_none ht]
  · rw [afterColons,afterColon_none hmem,Option.bind_none]

/-- The colons of a text, as far as they count: there are fewer than two, or the second is known. -/
inductive Colons (s : List UInt8) : Nat → Nat → Prop
  | few {k p : Nat} : k=s.count 58 → k<2 → Colons s k p
  | two {k p : Nat} {a b t : List UInt8} : s=a++58::b++58::t → 58∉a → 58∉b →
      k=s.count 58 → p=a.length+b.length+1 → Colons s k p

theorem Colons.more {s : List UInt8} {k p : Nat} (h : Colons s k p) {c : UInt8} (hc : c≠58) :
    Colons (s++[c]) k p := by
  have hcount : (s++[c]).count 58=s.count 58 := by
    rw [List.count_append,List.count_cons_of_ne (fun h => hc h)]
    rfl
  cases h with
  | few hk hlt => exact .few (hk.trans hcount.symm) hlt
  | @two a b t heq ha hb hk hp =>
    refine .two (t := t++[c]) ?_ ha hb (hk.trans hcount.symm) hp
    rw [heq,List.append_assoc]
    rfl

theorem Colons.colon {s : List UInt8} {k p : Nat} (h : Colons s k p) :
    Colons (s++[58]) (k+1) (if k+1=2 then s.length else p) := by
  have hcount : (s++[58]).count 58=s.count 58+1 := by
    rw [List.count_append]
    rfl
  cases h with
  | few hk hlt =>
    by_cases hone : k=1
    · have hmem : 58∈s := List.count_pos_iff.mp (by omega)
      obtain ⟨a,b,heq,ha⟩ := split_colon hmem
      have hb : 58∉b := by
        rw [heq,List.count_append,List.count_eq_zero.mpr ha,List.count_cons_self] at hk
        exact List.count_eq_zero.mp (by omega)
      rw [if_pos (by omega)]
      refine .two (t := []) (by rw [heq]) ha hb (by omega) ?_
      rw [heq,List.length_append,List.length_cons]
      omega
    · exact .few (by omega) (by omega)
  | @two a b t heq ha hb hk hp =>
    have htwo : 2≤ k := by
      rw [hk,heq,List.count_append,List.count_append,List.count_cons_self,List.count_cons_self]
      omega
    rw [if_neg (by omega)]
    refine .two (t := t++[58]) ?_ ha hb (by omega) hp
    rw [heq,List.append_assoc]
    rfl

theorem colons_start : Colons [] 0 0 := .few rfl (by decide)

/-- Before a newline, the scan counts the colons. -/
theorem scan_line {s r : List UInt8} {st : Scan} (hr : 10∉r) (hend : st.lineEndPos=none)
    (h : Colons s st.colonCount st.secondColonPos) :
    ∃ st',scan s.length st r=some st' ∧ st'.lineEndPos=none ∧
      Colons (s++r) st'.colonCount st'.secondColonPos := by
  induction r generalizing s st with
  | nil => exact ⟨st,rfl,hend,by rw [List.append_nil]; exact h⟩
  | cons c r ih =>
    have hc : c≠10 := fun hc => hr (by rw [hc]; exact List.mem_cons_self ..)
    have hr' : 10∉r := fun hm => hr (List.mem_cons_of_mem _ hm)
    have hsplit : s++c::r=s++[c]++r := (List.append_cons s c r)
    have hlen : (s++[c]).length=s.length+1 := List.length_append
    unfold scan
    rw [if_neg hc,hend,if_neg (by decide),hsplit,← hlen]
    by_cases hcolon : c=58
    · rw [if_pos hcolon]
      subst hcolon
      exact ih hr' rfl h.colon
    · rw [if_neg hcolon]
      exact ih hr' hend (h.more hcolon)

theorem scan_append {pos : Nat} {st : Scan} (r r' : List UInt8) :
    scan pos st (r++r')=(scan pos st r).bind fun st => scan (pos+r.length) st r' := by
  induction r generalizing pos st with
  | nil => rfl
  | cons c r ih =>
    have hpos : pos+(c::r).length=pos+1+r.length := by
      rw [List.length_cons]
      omega
    rw [List.cons_append,scan,scan,hpos]
    split
    · exact ih
    · split
      · rfl
      · split
        · exact ih
        · exact ih

theorem scan_newlines {pos : Nat} {st : Scan} {r : List UInt8} (h : ∀ c∈r,c=10) :
    scan pos st (10::r)=some {st with lineEndPos := some (pos+r.length)} := by
  induction r generalizing pos st with
  | nil => rfl
  | cons c r ih =>
    have hc : c=10 := h c (List.mem_cons_self ..)
    subst hc
    rw [scan,if_pos rfl,ih fun d hd => h d (List.mem_cons_of_mem _ hd),List.length_cons]
    congr 3
    omega

/-- A byte behind the end of the line that is no newline is on a second line. -/
theorem scan_second {pos : Nat} {st : Scan} {r : List UInt8} (hend : st.lineEndPos.isSome=true)
    (h : ∃ c∈r,c≠10) : scan pos st r=none := by
  induction r generalizing pos st with
  | nil => simp at h
  | cons c r ih =>
    unfold scan
    by_cases hc : c=10
    · rw [if_pos hc]
      obtain ⟨d,hd,hne⟩ := h
      obtain rfl | hd := List.mem_cons.mp hd
      · exact absurd hc hne
      · exact ih rfl ⟨d,hd,hne⟩
    · rw [if_neg hc,if_pos hend]

/-- The reads before a newline -/
theorem readLoop_lines (st : Scan) {s : List UInt8} {before : List (List UInt8)}
    (hchunks : ∀ c∈before,c≠[]) (hnl : 10∉before.flatten) (hend : st.lineEndPos=none)
    (h : Colons s st.colonCount st.secondColonPos) (rest : List (Option (List UInt8))) :
    ∃ st',readLoop s st (before.map some++rest)=readLoop (s++before.flatten) st' rest ∧
      st'.lineEndPos=none ∧ Colons (s++before.flatten) st'.colonCount st'.secondColonPos := by
  induction before generalizing s st with
  | nil =>
    refine ⟨st,?_,hend,?_⟩
    · rw [List.flatten_nil,List.append_nil]
      rfl
    · rw [List.flatten_nil,List.append_nil]
      exact h
  | cons c before ih =>
    have hc : c≠[] := hchunks c (List.mem_cons_self ..)
    have hlen : ¬c.length=0 := fun h0 => hc (List.length_eq_zero_iff.mp h0)
    rw [List.flatten_cons] at hnl
    have hcnl : 10∉c := fun hm => hnl (List.mem_append_left _ hm)
    obtain ⟨st1,hscan,hend1,hcolons⟩ := scan_line hcnl hend h
    obtain ⟨st',hread,hend',hcol'⟩ := ih _ (fun c hm => hchunks c (List.mem_cons_of_mem _ hm))
      (fun hm => hnl (List.mem_append_right _ hm)) hend1 hcolons
    rw [List.append_assoc] at hread hcol'
    refine ⟨st',?_,hend',hcol'⟩
    rw [List.flatten_cons,← hread,List.map_cons,List.cons_append]
    conv_lhs => unfold readLoop
    rw [if_neg hlen,hscan]
    dsimp only
    rw [hend1,if_neg (by decide)]

/-- The read with the first newline: with another byte behind it there is no result, and else it is the
last read. -/
theorem readLoop_newline {s l : List UInt8} (more : List UInt8) {st : Scan} (hl : 10∉l)
    (hend : st.lineEndPos=none) (h : Colons s st.colonCount st.secondColonPos)
    (rest : List (Option (List UInt8))) :
    ((∃ c∈more,c≠10) ∧ readLoop s st (some (l++10::more)::rest)=none) ∨
      (∀ c∈more,c=10) ∧ ∃ k p,Colons (s++l) k p ∧
        readLoop s st (some (l++10::more)::rest)=
          some (s++l++10::more,⟨some ((s++l).length+more.length),k,p⟩) := by
  obtain ⟨st1,hscan,hend1,hcolons⟩ := scan_line hl hend h
  have hlen : ¬(l++10::more).length=0 := by
    rw [List.length_append,List.length_cons]
    omega
  unfold readLoop
  rw [if_neg hlen,scan_append,hscan,Option.bind_some]
  by_cases hall : ∀ c∈more,c=10
  · rw [scan_newlines hall]
    refine .inr ⟨hall,st1.colonCount,st1.secondColonPos,hcolons,?_⟩
    rw [List.length_append,← List.append_assoc]
    rfl
  · have hmore : ∃ d∈more,d≠10 := by simpa using hall
    rw [scan,if_pos rfl,scan_second rfl hmore]
    exact .inl ⟨hmore,rfl⟩

/-- The chunk with the first newline, and where in it that is -/
theorem newline_chunk {chunks : List (List UInt8)} (h : 10∈chunks.flatten) :
    ∃ before l more rest,chunks=before++(l++10::more)::rest ∧ 10∉before.flatten ∧ 10∉l := by
  induction chunks with
  | nil => simp at h
  | cons c chunks ih =>
    by_cases hc : 10∈c
    · obtain ⟨l,more,heq,hl⟩ := List.eq_append_cons_of_mem hc
      exact ⟨[],l,more,chunks,by rw [heq]; rfl,List.not_mem_nil,hl⟩
    · rw [List.flatten_cons] at h
      obtain ⟨before,l,more,rest,heq,hbefore,hl⟩ := ih ((List.mem_append.mp h).resolve_left hc)
      refine ⟨c::before,l,more,rest,by rw [heq]; rfl,fun hm => ?_,hl⟩
      rw [List.flatten_cons] at hm
      exact (List.mem_append.mp hm).elim hc hbefore

section
variable (junk : Nat → UInt8)

theorem at_read {bytes : List UInt8} {i : Nat} {c : UInt8} (h : bytes[i]?=some c) :
    at_ junk bytes i=c := by
  rw [at_,List.getD_eq_getElem?_getD,h]
  rfl

/-- With fewer than two colons there is no path. -/
theorem extractPath_few {bytes : List UInt8} {e k p : Nat} (h : k<2) :
    extractPath junk bytes ⟨some e,k,p⟩=⟨none,false⟩ := by
  unfold extractPath
  dsimp only
  rw [if_pos (by simp [h])]

/-- A second colon with another byte than a slash behind it -/
theorem extractPath_other {bytes : List UInt8} {e k p : Nat} {c : UInt8}
    (hat : bytes[p+1]?=some c) (hc : c≠47) :
    extractPath junk bytes ⟨some e,k,p⟩=⟨none,false⟩ := by
  have hlt : ¬bytes.length≤ p+1 := by
    obtain ⟨h,-⟩ := List.getElem?_eq_some_iff.mp hat
    omega
  unfold extractPath
  dsimp only
  rw [at_read junk hat]
  split
  · rfl
  · rw [decide_eq_false hlt]

/-- A second colon with a slash behind it: what is copied goes to the end of the line. -/
theorem extractPath_slash {bytes : List UInt8} {e k p : Nat} (hk : 2≤ k)
    (hat : bytes[p+1]?=some 47) (he : p+2≤ e) :
    extractPath junk bytes ⟨some e,k,p⟩=
      ⟨some ((List.range (e-(p+2))).map fun i => at_ junk bytes (p+2+i)),bytes.length<e⟩ := by
  have hlt : ¬bytes.length≤ p+1 := by
    obtain ⟨h,-⟩ := List.getElem?_eq_some_iff.mp hat
    omega
  unfold extractPath
  dsimp only [Option.getD_some]
  rw [at_read junk hat,if_neg (by simp; omega),if_neg (by decide),decide_eq_false hlt,Bool.false_or]

/-- What is copied from bytes that were read -/
theorem copied_read {a u v : List UInt8} :
    ((List.range u.length).map fun i => at_ junk (a++u++v) (a.length+i))=u := by
  apply List.ext_getElem?
  intro i
  by_cases hi : i<u.length
  · have hat : (a++u++v)[a.length+i]?=some u[i] := by
      rw [List.append_assoc,List.getElem?_append_right (by omega),Nat.add_sub_cancel_left,
        List.getElem?_append_left hi,List.getElem?_eq_getElem hi]
    rw [List.getElem?_map,List.getElem?_range hi,List.getElem?_eq_getElem hi,Option.map_some,
      at_read junk hat]
  · rw [List.getElem?_eq_none (by simpa using hi),List.getElem?_eq_none (by omega)]

/-- What is known of a text with a second colon, and of the byte behind it -/
theorem two_colons {s a b t : List UInt8} {p : Nat} (heq : s=a++58::b++58::t) (ha : 58∉a) (hb : 58∉b)
    (hp : p=a.length+b.length+1) :
    afterColons s=some t ∧ 2≤ s.count 58 ∧ s.length=p+1+t.length ∧
      ∀ more,(s++more)[p+1]?=(t++more)[0]? := by
  have hlen := congrArg List.length heq
  rw [List.length_append,List.length_append,List.length_cons,List.length_cons] at hlen
  refine ⟨?_,?_,by omega,fun more => ?_⟩
  · rw [heq]
    exact afterColons_split ha hb
  · rw [heq,List.count_append,List.count_append,List.count_cons_self,List.count_cons_self]
    omega
  · have hidx : p+1-(a++58::b).length=1 := by
      rw [List.length_append,List.length_cons]
      omega
    rw [heq,List.append_assoc (a++58::b),List.getElem?_append_right (by
      rw [List.length_append,List.length_cons]
      omega),hidx]
    rfl

/-- With a newline at its end, the line is looked at, and nothing behind what was read. -/
theorem extractPath_line {s more : List UInt8} {k p : Nat} (h : Colons s k p)
    (hmore : ∀ c∈more,c=10) :
    extractPath junk (s++10::more) ⟨some (s.length+more.length),k,p⟩=
      ⟨(linePath s).map (·++more),false⟩ := by
  cases h with
  | few hk hlt =>
    rw [extractPath_few junk hlt,linePath,afterColons_few (by omega)]
    rfl
  | @two a b t heq ha hb hk hp =>
    obtain ⟨hafter,htwo,hlen,hat⟩ := two_colons heq ha hb hp
    rw [← hk] at htwo
    have hat := hat (10::more)
    rw [linePath,hafter]
    cases t with
    | nil => rw [extractPath_other junk hat (by decide)]; rfl
    | cons c u =>
      by_cases hc : c=47
      · subst hc
        rw [List.length_cons] at hlen
        have hlast : 10::more=more++[10] := by
          rw [List.eq_replicate_of_mem hmore,← List.replicate_succ,List.replicate_succ']
        have hbytes : s++10::more=a++58::b++[58,47]++(u++more)++[10] := by
          rw [hlast,heq]
          simp
        have hA : (a++58::b++[58,47]).length=p+2 := by
          rw [List.length_append,List.length_append,List.length_cons]
          simp only [List.length_cons,List.length_nil]
          omega
        have hcount : s.length+more.length-(p+2)=(u++more).length := by
          rw [List.length_append]
          omega
        have hout : ¬(s++10::more).length<s.length+more.length := by
          rw [List.length_append,List.length_cons]
          omega
        rw [extractPath_slash junk htwo hat (by omega),decide_eq_false hout,hcount,hbytes,← hA,
          copied_read]
        rfl
      · rw [extractPath_other junk hat hc]
        split
        · next h47 => exact absurd (List.cons.inj (Option.some.inj h47)).1 hc
        · rfl

/-- Without a newline, a byte behind what was read is looked at or copied where there is a second colon
with nothing or with a slash behind it. -/
theorem extractPath_open {s : List UInt8} {k p : Nat} (h : Colons s k p) :
    (∀ t,afterColons s=some t → ∃ c u,t=c::u ∧ c≠47) ∧ linePath s=none ∧
        extractPath junk s ⟨some (s.length+1),k,p⟩=⟨none,false⟩ ∨
      ¬(∀ t,afterColons s=some t → ∃ c u,t=c::u ∧ c≠47) ∧
        (extractPath junk s ⟨some (s.length+1),k,p⟩).outside=true := by
  cases h with
  | few hk hlt =>
    have hnone : afterColons s=none := afterColons_few (by omega)
    refine .inl ⟨fun t ht => ?_,by rw [linePath,hnone],extractPath_few junk hlt⟩
    rw [hnone] at ht
    cases ht
  | @two a b t heq ha hb hk hp =>
    obtain ⟨hafter,htwo,hlen,hat⟩ := two_colons heq ha hb hp
    rw [← hk] at htwo
    have hat := hat []
    rw [List.append_nil,List.append_nil] at hat
    rw [linePath,hafter]
    cases t with
    | nil =>
      refine .inr ⟨fun hall => ?_,?_⟩
      · obtain ⟨c,u,hcu,-⟩ := hall [] rfl
        cases hcu
      · have hle : s.length≤ p+1 := by
          rw [List.length_nil] at hlen
          omega
        unfold extractPath
        dsimp only [Option.getD_some]
        rw [if_neg (by simp; omega)]
        split
        · exact decide_eq_true hle
        · rw [decide_eq_true hle]
          rfl
    | cons c u =>
      rw [List.length_cons] at hlen
      by_cases hc : c=47
      · subst hc
        refine .inr ⟨fun hall => ?_,?_⟩
        · obtain ⟨c,u',hcu,hne⟩ := hall _ rfl
          exact hne (List.cons.inj hcu).1.symm
        · rw [extractPath_slash junk htwo hat (by omega)]
          simp
      · refine .inl ⟨fun t ht => ⟨c,u,(Option.some.inj ht).symm,hc⟩,?_,extractPath_other junk hat hc⟩
        split
        · next h47 => exact absurd (List.cons.inj (Option.some.inj h47)).1 hc
        · rfl

end

theorem pathOf_open {s : List UInt8} (h : 10∉s) : pathOf s=linePath s := by
  have hlast : ¬s.getLast?=some 10 := fun hl => h (List.mem_of_getLast? hl)
  rw [pathOf,if_neg hlast]
  exact if_neg h

theorem pathOf_line {s : List UInt8} (h : 10∉s) : pathOf (s++[10])=linePath s := by
  rw [pathOf,if_pos List.getLast?_concat,List.dropLast_concat]
  exact if_neg h

/-- There is more than one line where something is behind a newline. -/
theorem pathOf_lines {s t : List UInt8} (h : t≠[]) : pathOf (s++10::t)=none := by
  have hmem : 10∈if (s++10::t).getLast?=some 10 then (s++10::t).dropLast else s++10::t := by
    split
    · rw [List.dropLast_append_of_ne_nil (by simp),List.dropLast_cons_of_ne_nil h]
      simp
    · simp
  exact if_pos hmem

/-- The splits of a content into reads with which the path is found. Without a newline, nothing follows
the second colon that could be a path. With one, the line has no path, or the read that has the newline
has a byte of another line as well, or the newline is the end of the file. -/
def Determined (chunks : List (List UInt8)) : Prop :=
  (10∉chunks.flatten → ∀ t,afterColons chunks.flatten=some t → ∃ c u,t=c::u ∧ c≠47) ∧
    ∀ before l more rest,chunks=before++(l++10::more)::rest → 10∉before.flatten → 10∉l →
      linePath (before.flatten++l)=none ∨ (∃ c∈more,c≠10) ∨ more=[] ∧ rest=[]

theorem findCgroupPath_open (junk : Nat → UInt8) {chunks : List (List UInt8)}
    (h : ∀ c∈chunks,c≠[]) (hnl : 10∉chunks.flatten) :
    findCgroupPath junk none (some (chunks.map some))=⟨pathOf chunks.flatten,false⟩ ↔
      ∀ t,afterColons chunks.flatten=some t → ∃ c u,t=c::u ∧ c≠47 := by
  obtain ⟨⟨e,k,p⟩,hread,hend,hcolons⟩ := readLoop_lines ⟨none,0,0⟩ h hnl rfl
    colons_start []
  rw [List.append_nil,List.nil_append] at hread
  rw [List.nil_append] at hcolons
  obtain rfl : e=none := hend
  have hfind : findCgroupPath junk none (some (chunks.map some))=
      extractPath junk chunks.flatten ⟨some (chunks.flatten.length+1),k,p⟩ := by
    unfold findCgroupPath
    dsimp only
    rw [hread]
    rfl
  rw [hfind,pathOf_open hnl]
  obtain ⟨hall,hline,heq⟩ | ⟨hnot,hout⟩ := extractPath_open junk hcolons
  · rw [heq,hline]
    exact iff_of_true rfl hall
  · refine iff_of_false (fun heq => ?_) hnot
    rw [heq] at hout
    cases hout

theorem findCgroupPath_newline (junk : Nat → UInt8) {before rest : List (List UInt8)}
    {l more : List UInt8} (h : ∀ c∈before++(l++10::more)::rest,c≠[]) (hbefore : 10∉before.flatten)
    (hl : 10∉l) :
    findCgroupPath junk none (some ((before++(l++10::more)::rest).map some))=
        ⟨pathOf (before++(l++10::more)::rest).flatten,false⟩ ↔
      linePath (before.flatten++l)=none ∨ (∃ c∈more,c≠10) ∨ more=[] ∧ rest=[] := by
  have hline : 10∉before.flatten++l := fun hm => (List.mem_append.mp hm).elim hbefore hl
  have hcontent : (before++(l++10::more)::rest).flatten=before.flatten++l++10::(more++rest.flatten) := by
    simp
  obtain ⟨st,hread,hend,hcolons⟩ := readLoop_lines ⟨none,0,0⟩
    (fun c hm => h c (List.mem_append_left _ hm)) hbefore rfl colons_start
    (some (l++10::more)::rest.map some)
  rw [List.nil_append] at hread hcolons
  have hmap : (before++(l++10::more)::rest).map some=
      before.map some++some (l++10::more)::rest.map some := by simp
  rw [hmap,hcontent]
  unfold findCgroupPath
  dsimp only
  rw [hread]
  obtain ⟨hmore,hnone⟩ | ⟨hmore,k,p,hcolons',hsome⟩ :=
    readLoop_newline more hl hend hcolons (rest.map some)
  · have hne : more++rest.flatten≠[] := by
      obtain ⟨c,hc,-⟩ := hmore
      exact List.append_ne_nil_of_left_ne_nil (List.ne_nil_of_mem hc) _
    rw [hnone,pathOf_lines hne]
    exact iff_of_true rfl (.inr (.inl hmore))
  · have hno : ¬∃ c∈more,c≠10 := fun ⟨c,hc,hne⟩ => hne (hmore c hc)
    rw [hsome]
    dsimp only
    rw [if_neg (by decide),extractPath_line junk hcolons' hmore]
    by_cases hend : more=[] ∧ rest=[]
    · obtain ⟨rfl,rfl⟩ := hend
      refine iff_of_true ?_ (.inr (.inr ⟨rfl,rfl⟩))
      rw [List.flatten_nil,List.append_nil,pathOf_line hline]
      simp
    · have hne : more++rest.flatten≠[] := by
        intro hnil
        obtain ⟨hm,hr⟩ := List.append_eq_nil_iff.mp hnil
        refine hend ⟨hm,List.eq_nil_iff_forall_not_mem.mpr fun c hc => ?_⟩
        exact h c (by simp [hc]) (List.flatten_eq_nil_iff.mp hr c hc)
      rw [pathOf_lines hne]
      cases hpath : linePath (before.flatten++l) with
      | none => exact iff_of_true rfl (.inl rfl)
      | some u =>
        refine iff_of_false (by simp) ?_
        simp only [reduceCtorEq,false_or]
        exact fun hor => hor.elim hno hend

/-- The path is the one of the content, and nothing but the content is looked at, exactly for these
splits. -/
theorem cgroup_path (junk : Nat → UInt8) {chunks : List (List UInt8)} (h : ∀ c∈chunks,c≠[]) :
    findCgroupPath junk none (some (chunks.map some))=⟨pathOf chunks.flatten,false⟩ ↔
      Determined chunks := by
  by_cases hnl : 10∈chunks.flatten
  · constructor
    · intro hpath
      refine ⟨fun hno => absurd hnl hno,fun before l more rest heq hbefore hl => ?_⟩
      subst heq
      exact (findCgroupPath_newline junk h hbefore hl).mp hpath
    · intro ⟨_,hdet⟩
      obtain ⟨before,l,more,rest,heq,hbefore,hl⟩ := newline_chunk hnl
      have hcond := hdet before l more rest heq hbefore hl
      subst heq
      exact (findCgroupPath_newline junk h hbefore hl).mpr hcond
  · rw [findCgroupPath_open junk h hnl]
    refine ⟨fun hall => ⟨fun _ => hall,fun before l more rest heq _ _ => ?_⟩,fun hdet => hdet.1 hnl⟩
    refine absurd ?_ hnl
    rw [heq]
    simp

/-- A line that is read at once with its newline -/
theorem determined_line {l : List UInt8} (hl : 10∉l) : Determined [l++[10]] := by
  refine ⟨fun hno => absurd (by simp) hno,fun before l' more rest heq hbefore hl' => ?_⟩
  cases before with
  | nil =>
    obtain ⟨hline,hrest⟩ := List.cons.inj heq
    obtain ⟨-,-,hmore⟩ := (List.append_cons_inj_of_notMem hl List.not_mem_nil).mp hline
    exact .inr (.inr ⟨hmore.symm,hrest.symm⟩)
  | cons b before =>
    obtain ⟨rfl,-⟩ := List.cons.inj heq
    simp at hbefore

/-- `0::/a` -/
theorem cgroup_path_line :
    findCgroupPath (fun _ => 0) none (some [some [48,58,58,47,97,10]])=⟨some [97],false⟩ :=
  (cgroup_path (fun _ => 0) (by simp)).mpr (determined_line (l := [48,58,58,47,97]) (by decide))

/-- `0::/a` without a newline: the byte behind it is copied. With the newline at the end of a read, the
second line is not seen. -/
theorem cgroup_path_wrong :
    findCgroupPath (fun _ => 0) none (some [some [48,58,58,47,97]])=⟨some [97,0],true⟩ ∧
      pathOf [48,58,58,47,97]=some [97] ∧
      findCgroupPath (fun _ => 0) none (some [some [48,58,58,47,97,10],some [49]])=
        ⟨some [97],false⟩ ∧
      pathOf [48,58,58,47,97,10,49]=none := by
  exact ⟨rfl,by decide,rfl,by decide⟩

end CgroupPath

end Dinit
