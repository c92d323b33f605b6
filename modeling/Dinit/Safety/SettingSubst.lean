import Dinit.Settings.Forms
import Dinit.Settings.Parts

namespace Dinit

open Framework

section
variable {line : List UInt8} {a b : Nat}

/-- The next `$` is not before `b`. -/
theorem findDollar_ge (h : 36∉span line a b) {d : Nat} (hd : findDollar line a=some d) : b≤ d := by
  obtain ⟨k,hk,rfl⟩ := Option.map_eq_some_iff.mp hd
  obtain ⟨hlt,heq,-⟩ := List.findIdx?_eq_some_iff_getElem.mp hk
  by_contra hb
  refine h (List.mem_of_getElem? (i := k) ?_)
  rw [span,List.getElem?_take_of_lt (by omega),List.getElem?_eq_getElem hlt]
  exact congrArg some (by simpa using heq)

theorem findDollar_eq (hle : a≤ b) (h : 36∉span line a b) (hb : (line)[b]?=some 36) :
    findDollar line a=some b := by
  have hdrop : (line.drop a)[b-a]?=some 36 := by
    rw [List.getElem?_drop,Nat.add_sub_cancel' hle]
    exact hb
  obtain ⟨hlt,heq⟩ := List.getElem?_eq_some_iff.mp hdrop
  have hfind : (line.drop a).findIdx? (·==36)=some (b-a) := by
    refine List.findIdx?_eq_some_iff_getElem.mpr ⟨hlt,by simp [heq],fun j hj => ?_⟩
    intro hjd
    refine h (List.mem_of_getElem? (i := j) ?_)
    rw [span,List.getElem?_take_of_lt hj,List.getElem?_eq_getElem (by omega)]
    exact congrArg some (by simpa using hjd)
  rw [findDollar,hfind]
  simp [Nat.add_sub_cancel' hle]

theorem plain_of_findDollar (hb : b≤ line.length) (h : ∀ d,findDollar line a=some d → b≤ d) :
    36∉span line a b := by
  intro hmem
  obtain ⟨k,hk,hget⟩ := List.getElem_of_mem hmem
  rw [length_span hb] at hk
  have hd : (line.drop a)[k]?=some 36 := by
    have hs : (span line a b)[k]?=some 36 := by
      rw [List.getElem?_eq_getElem (by rw [length_span hb]; exact hk),hget]
    rwa [span,List.getElem?_take_of_lt hk] at hs
  cases hf : findDollar line a with
  | none =>
    have hnone : (line.drop a).findIdx? (·==36)=none := by simpa [findDollar] using hf
    have hall := List.findIdx?_eq_none_iff.mp hnone 36 (List.mem_of_getElem? hd)
    cases hall
  | some d =>
    have hge := h d hf
    obtain ⟨j,hj,rfl⟩ := Option.map_eq_some_iff.mp hf
    obtain ⟨hlt,-,hfirst⟩ := List.findIdx?_eq_some_iff_getElem.mp hj
    obtain ⟨hlk,hx⟩ := List.getElem?_eq_some_iff.mp hd
    have hno := hfirst k (by omega)
    simp [hx] at hno

end

/-- White space in a value that is split -/
theorem run_split (sp : Splitter UInt8) (w wsp : List UInt8) (hw : ∀ c∈w,isSpace c=false)
    (hs : isSpace (wsp.headD 0)=true) :
    sp.run (Piece.split (w++wsp)).items=
      ((sp.put w).cut).run (Piece.split (wsp.dropWhile isSpace)).items := by
  have plain (l : List UInt8) (hl : ∀ c∈l,isSpace c=false) :
      (Piece.split l).items=l.map .elem := by
    refine List.map_congr_left fun c hc => ?_
    simp [hl c hc]
  have blanks (l : List UInt8) (s : Splitter UInt8) (hs : s.isEmpty=true) :
      s.run (Piece.split l).items=s.run (Piece.split (l.dropWhile isSpace)).items := by
    induction l with
    | nil => rfl
    | cons c l ih =>
      by_cases hc : isSpace c=true
      · have hstep : s.step .blank=s := Splitter.cut_empty hs
        rw [List.dropWhile_cons_of_pos hc,← ih]
        simp only [Piece.items,List.map_cons,hc,if_true]
        exact congrArg (fun u => Splitter.run u _) hstep
      · rw [List.dropWhile_cons_of_neg hc]
  cases wsp with
  | nil => cases hs
  | cons c wsp =>
    have hc : isSpace c=true := hs
    have hitems : (Piece.split (w++c::wsp)).items=
        (Piece.split w).items++.blank::(Piece.split wsp).items := by
      simp [Piece.items,hc]
    rw [hitems,Splitter.run_append,plain w hw,Splitter.run_elems,List.dropWhile_cons_of_pos hc,
      ← blanks wsp _ (Splitter.cut_isEmpty _)]
    rfl

theorem run_unsplit (sp : Splitter UInt8) {vw : List UInt8} (h : ∀ c∈vw,isSpace c=false) :
    sp.run (Piece.split vw).items=sp.put vw := by
  rw [← Splitter.run_elems]
  refine congrArg sp.run (List.map_congr_left fun c hc => ?_)
  simp [h c hc]

/-- The line that has been put together: complete words, and the one that is at `first` -/
structure Building (before : List (List UInt8)) (sp : Splitter UInt8) (r0 : List UInt8)
    (s : SubstState) : Prop where
  laid : Laid true r0 s.done (before++sp.done)
  first : s.first.toNat=r0.length
  inhibit : s.inhibitCollapse=sp.marked

/-- A value up to its first white space, and the rest of it -/
theorem run_value (sp : Splitter UInt8) {vw wsp : List UInt8} {c : UInt8}
    (h : vw.dropWhile (!isSpace ·)=c::wsp) :
    sp.run (Piece.split vw).items=((sp.put (vw.takeWhile (!isSpace ·))).cut).run
      (Piece.split ((c::wsp).dropWhile isSpace)).items := by
  have hvw : vw.takeWhile (!isSpace ·)++c::wsp=vw := by
    rw [← h,List.takeWhile_append_dropWhile]
  have hne : vw.dropWhile (!isSpace ·)≠[] := by simp [h]
  have hc : isSpace c=true := by
    have hnot := List.head_dropWhile_not (!isSpace ·) hne
    simpa [h] using hnot
  conv_lhs => rw [← hvw]
  refine run_split sp _ (c::wsp) (fun d hd => ?_) hc
  simpa using List.mem_takeWhile_imp hd

/-- Nothing is in the word that is being put together. -/
theorem Building.isEmpty_iff {before : List (List UInt8)} {sp : Splitter UInt8} {r0 w : List UInt8}
    {s : SubstState} (hb : Building before sp r0 s) (hr : s.rLine=r0++sp.cur) :
    (s.first.toNat=(s.rLine++w).length ∧ s.inhibitCollapse=false) ↔ (sp.put w).isEmpty=true := by
  rw [hb.first,hb.inhibit,hr]
  simp only [List.length_append,Splitter.isEmpty,Splitter.put,Bool.and_eq_true,List.isEmpty_iff,
    Bool.not_eq_true',List.append_eq_nil_iff]
  refine and_congr_left fun _ => ?_
  rw [← List.length_eq_zero_iff,← List.length_eq_zero_iff]
  omega

/-- Splitting a value splits the words, and the adjustment counts what has been added. -/
theorem splitValue_sim {before : List (List UInt8)} {sp : Splitter UInt8} {r0 vw : List UInt8}
    {s t : SubstState} {n m : Nat} (hb : Building before sp r0 s) (hr : s.rLine=r0++sp.cur)
    (h : splitValue s n vw=.ok (t,m)) :
    ∃ r1,Building before (sp.run (Piece.split vw).items) r1 t ∧
      t.rLine=r1++(sp.run (Piece.split vw).items).cur ∧ t.offadj-m=s.offadj-n := by
  fun_induction splitValue s n vw generalizing sp r0 with
  | case1 s n vw hv =>
    cases h
    have hall : ∀ c∈vw,isSpace c=false := by
      simpa using List.dropWhile_eq_nil_iff.mp hv
    rw [run_unsplit sp hall]
    exact ⟨r0,⟨hb.laid,hb.first,hb.inhibit⟩,by simp [Splitter.put,hr],rfl⟩
  | case2 s n vw c wsp hv rLine hc =>
    rename_i ih
    have he := (hb.isEmpty_iff hr).mp hc
    have hline : rLine=r0++(sp.put (vw.takeWhile (!isSpace ·))).cur := by
      show s.rLine++_=_
      rw [hr,List.append_assoc]
      rfl
    rw [run_value sp hv,Splitter.cut_empty he]
    exact ih ⟨hb.laid,hb.first,hc.2.symm.trans hb.inhibit⟩ hline h
  | case3 => cases h
  | case4 s n vw c wsp hv rLine hc hlong =>
    rename_i ih
    have he : (sp.put (vw.takeWhile (!isSpace ·))).isEmpty=false := by
      rw [← Bool.not_eq_true,← hb.isEmpty_iff hr]
      exact hc
    have hline : rLine=r0++(sp.put (vw.takeWhile (!isSpace ·))).cur := by
      show s.rLine++_=_
      rw [hr,List.append_assoc]
      rfl
    rw [run_value sp hv,Splitter.cut_full he]
    clear_value rLine
    have hlen : (rLine++[32]).length=rLine.length+1 := List.length_append
    have hshort : (rLine++[32]).length< 2^32 := by
      unfold intMax at hlong
      omega
    have hfirst : s.first=.ofNat r0.length := by
      rw [← hb.first,UInt32.ofNat_toNat]
    have hlaid := (hb.laid.word (sp.put (vw.takeWhile (!isSpace ·))).cur).blank
    rw [← hline,← hfirst] at hlaid
    obtain ⟨r1,hb1,hr1,hadj⟩ := @ih ⟨sp.done++[(sp.put (vw.takeWhile (!isSpace ·))).cur],[],false⟩
      (rLine++[32]) ⟨by simpa using hlaid,Laid.toNat_ofNat hshort,rfl⟩ (by simp) h
    refine ⟨r1,hb1,hr1,hadj.trans ?_⟩
    dsimp only
    omega

/-- How far a token has been read: up to `q`, with what is behind `xpos` still to be copied. In it there
has been something to be split, or not. -/
structure InToken (line : List UInt8) (q : Nat) (before : List (List UInt8)) (sp : Splitter UInt8)
    (hs : Bool) (r0 : List UInt8) (s : SubstState) : Prop where
  le : s.xpos≤ q
  inLine : q≤ line.length
  plain : 36∉span line s.xpos q
  text : s.rLine++span line s.xpos q=r0++sp.cur
  building : Building before sp r0 s
  adj : (s.rLine.length : Int)=s.xpos+s.offadj
  bound : s.offadj≤ intMax
  collapse : s.doCollapse=(hs && !sp.marked)

section
variable {line : List UInt8} {varResolve : List UInt8 → Option (List UInt8)}
  {argval : Option (List UInt8)} {q : Nat} {before : List (List UInt8)} {sp : Splitter UInt8}
  {hs : Bool} {r0 : List UInt8} {s t : SubstState}

/-- The new line is as long as the adjustment says. -/
theorem InToken.length (h : InToken line q before sp hs r0 s) :
    ((r0++sp.cur).length : Int)=q+s.offadj := by
  have hl := length_span (a := s.xpos) h.inLine
  have ha := h.adj
  have hle := h.le
  rw [← h.text,List.length_append,hl]
  omega

/-- A character that stands for itself -/
theorem InToken.literal (h : InToken line q before sp hs r0 s) {c : UInt8} (hc : (line)[q]?=some c)
    (h36 : c≠36) : InToken line (q+1) before (sp.put [c]) hs r0 s := by
  obtain ⟨hlt,-⟩ := List.getElem?_eq_some_iff.mp hc
  have hspan := span_succ h.le hc
  refine ⟨h.le.trans (Nat.le_succ q),hlt,?_,?_,⟨h.building.laid,h.building.first,h.building.inhibit⟩,
    h.adj,h.bound,h.collapse⟩
  · rw [hspan,List.mem_append,List.mem_singleton]
    rintro (hm | hm)
    · exact h.plain hm
    · exact h36 hm.symm
  · rw [hspan,← List.append_assoc,h.text,List.append_assoc]
    rfl

/-- `$$` stands for `$`. -/
theorem InToken.dollar (h : InToken line q before sp hs r0 s) (hlen : q+2≤ line.length)
    (h2 : (line.drop (q+1)).getD 0 0=36) (ht : substRef line varResolve argval s q=.ok t) :
    InToken line (q+2) before (sp.put [36]) hs r0 t ∧ t.second=s.second := by
  have hle := h.le
  have hl := length_span (a := s.xpos) h.inLine
  have hadj := h.adj
  have hb := h.bound
  unfold substRef at ht
  dsimp only at ht
  rw [if_pos h2] at ht
  cases ht
  refine ⟨⟨le_refl _,hlen,by simp [span_self],?_,⟨h.building.laid,h.building.first,
    h.building.inhibit⟩,?_,?_,h.collapse⟩,rfl⟩
  · show s.rLine++span line s.xpos q++[36]++span line (q+2) (q+2)=r0++(sp.cur++[36])
    rw [h.text,span_self,List.append_nil,List.append_assoc]
  · show ((s.rLine++span line s.xpos q++[36]).length : Int)=(q+2 : Nat)+(s.offadj-1)
    rw [List.length_append,List.length_append,hl,List.length_singleton]
    omega
  · show s.offadj-1≤ intMax
    omega

/-- The value of a reference, in a line that is copied up to it -/
theorem substValue_sim {wsplit : Bool} {vw : List UInt8} {n : Nat}
    (ht : substValue s wsplit vw=.ok t) (hb : Building before sp r0 s)
    (hr : s.rLine=r0++sp.cur) (hadj : (s.rLine.length : Int)=n+s.offadj)
    (hx : s.xpos=n) (hin : n≤ line.length) :
    let p := if wsplit then Piece.split vw else .whole vw
    ∃ r1,InToken line n before (sp.run p.items) (hs || p.isSplit) r1 t := by
  cases wsplit with
  | false =>
    obtain ⟨hlong,rfl⟩ := checkLength_ok ht
    have hrun : sp.run (Piece.whole vw).items=(sp.mark).put vw := Splitter.run_elems sp.mark vw
    dsimp only at hlong
    simp only [if_false,Bool.false_eq_true,hrun]
    refine ⟨r0,hx.le,hin,by simp [hx,span_self],?_,⟨hb.laid,hb.first,rfl⟩,?_,?_,?_⟩
    · simp [hx,span_self,hr,Splitter.mark,Splitter.put]
    · dsimp only
      rw [List.length_append]
      omega
    · dsimp only
      rw [List.length_append] at hlong ⊢
      omega
    · simp [Splitter.mark,Splitter.put]
  | true =>
    simp only [substValue,if_true] at ht ⊢
    split at ht
    · cases ht
    · next u m hv =>
      obtain ⟨r1,hb1,hr1,hoff⟩ := splitValue_sim hb hr hv
      have hxu := (splitValue_frame hv).1
      obtain ⟨hlong,rfl⟩ := checkLength_ok ht
      dsimp only at hlong
      refine ⟨r1,?_,hin,?_,?_,⟨hb1.laid,hb1.first,hb1.inhibit⟩,?_,?_,?_⟩
      · exact (hxu.trans hx).le
      · simp [hxu,hx,span_self]
      · simp [hxu,hx,span_self,hr1]
      · dsimp only
        omega
      · dsimp only
        omega
      · simp [hb1.inhibit,Piece.isSplit]

/-- A reference -/
theorem InToken.ref (h : InToken line q before sp hs r0 s) (hq : q< line.length)
    {tok rest : List UInt8} (hd : line.drop (q+1)=tok++rest) (hrest : EndsToken rest)
    (he : s.second.toNat=q+1+tok.length) (h36 : (tok++rest).getD 0 0≠36)
    (ht : substRef line varResolve argval s q=.ok t) :
    ∃ r vw r1,parseRef tok.length tok=.ok r ∧ r.text varResolve argval=.ok vw ∧
      r.len≤ tok.length ∧ t.second=s.second ∧
      (let p := if r.wsplit then Piece.split vw else .whole vw
      InToken line (q+1+r.len) before (sp.run p.items) (hs || p.isSplit) r1 t) := by
  have hframe := substRef_frame line varResolve argval ht
  have hlen : tok.length+rest.length=line.length-(q+1) := by
    rw [← List.length_append,← hd,List.length_drop]
  have hle := h.le
  have hl := length_span (a := s.xpos) h.inLine
  have hadj := h.adj
  obtain ⟨hparse,hbound⟩ : parseRef tok.length (tok++rest)=parseRef tok.length tok ∧
      ∀ r,parseRef tok.length tok=.ok r → r.len≤ tok.length := parseRef_stop hrest
  unfold substRef at ht
  dsimp only at ht
  rw [hd,if_neg h36,he,show q+1+tok.length-(q+1)=tok.length by omega,hparse] at ht
  split at ht
  · cases ht
  · next r hr =>
    have hrlen := hbound r hr
    split at ht
    · cases ht
    · next vw hv =>
      have hin : q+1+r.len≤ line.length := by omega
      have hcopied : ((s.rLine++span line s.xpos q).length : Int)=
          (q+1+r.len : Nat)+(s.offadj-(1+r.len : Nat)) := by
        rw [List.length_append,hl]
        omega
      obtain ⟨r1,hsim⟩ := substValue_sim ht
        ⟨h.building.laid,h.building.first,h.building.inhibit⟩ h.text hcopied rfl hin
      exact ⟨r,vw,r1,hr,hv,hrlen,hframe.2,hsim⟩

theorem substToken_stop (h : ∀ d,findDollar line s.xpos=some d → s.second.toNat≤ d) :
    substToken line varResolve argval s=.ok s := by
  rw [substToken]
  split
  · rfl
  · next d hd => rw [if_neg (Nat.not_lt.mpr (h d hd))]

theorem substToken_next {d : Nat} (h : findDollar line s.xpos=some d) (hd : d< s.second.toNat)
    (ht : substToken line varResolve argval s=.ok t) :
    ∃ u,substRef line varResolve argval s d=.ok u ∧ substToken line varResolve argval u=.ok t := by
  rw [substToken] at ht
  split at ht
  · next hnone => rw [hnone] at h; cases h
  · next d' hd' =>
    obtain rfl : d=d' := Option.some.inj (h.symm.trans hd')
    rw [if_pos hd] at ht
    split at ht
    · cases ht
    · next u hu => exact ⟨u,hu,ht⟩

/-- The rest of a token is read piece by piece. -/
theorem substToken_sim {tok rest : List UInt8} (h : InToken line q before sp hs r0 s)
    (hd : line.drop q=tok++rest) (hrest : EndsToken rest) (he : s.second.toNat=q+tok.length)
    (ht : substToken line varResolve argval s=.ok t) :
    ∃ ps r1,pieces varResolve argval tok=.ok ps ∧ t.second=s.second ∧
      InToken line (q+tok.length) before (sp.run (ps.flatMap Piece.items))
        (hs || ps.any Piece.isSplit) r1 t := by
  induction hn : tok.length using Nat.strong_induction_on generalizing tok q sp hs r0 s with
  | _ n ih =>
    have hlen : tok.length+rest.length=line.length-q := by
      rw [← List.length_append,← hd,List.length_drop]
    cases tok with
    | nil =>
      rw [substToken_stop fun d hd' => by
        rw [he]
        exact findDollar_ge h.plain hd'] at ht
      cases ht
      subst hn
      exact ⟨[],r0,pieces_nil ..,rfl,by simpa [Splitter.run] using h⟩
    | cons c tok =>
      have hget : (line)[q]?=some c := by
        rw [← List.head?_drop,hd]
        rfl
      have hdrop : line.drop (q+1)=tok++rest := by
        rw [← List.drop_drop,hd]
        rfl
      rw [List.length_cons] at hlen he hn
      by_cases hc : c=36
      · subst hc
        have hq : q< line.length := by omega
        obtain ⟨u,hu,hut⟩ := substToken_next (findDollar_eq h.le h.plain hget) (by omega) ht
        by_cases h2 : tok.head?=some 36
        · obtain ⟨tok,rfl⟩ : ∃ tok',tok=36::tok' := ⟨_,List.eq_cons_of_mem_head? h2⟩
          rw [List.length_cons] at hlen he hn
          obtain ⟨hin2,hsec2⟩ := h.dollar (by omega) (by rw [hdrop]; rfl) hu
          have hdrop2 : line.drop (q+2)=tok++rest := by
            rw [show q+2=q+1+1 from rfl,← List.drop_drop,hdrop]
            rfl
          obtain ⟨ps,r1,hps,hsec,hin⟩ := ih tok.length (by omega) hin2 hdrop2
            (by rw [hsec2]; omega) hut rfl
          refine ⟨.text [36]::ps,r1,by rw [pieces_dollar,hps]; rfl,hsec.trans hsec2,?_⟩
          rw [← hn,show q+(tok.length+1+1)=q+2+tok.length by omega]
          exact hin
        · have h36 : (tok++rest).getD 0 0≠36 := by
            cases tok with
            | nil =>
              obtain rfl | ⟨x,rfl⟩ := hrest
              · simp
              · simp
            | cons d tok => simpa using h2
          obtain ⟨r,vw,r2,hr,hv,hrlen,hsec2,hin2⟩ := h.ref hq hdrop hrest (by omega) h36 hu
          have hdrop2 : line.drop (q+1+r.len)=tok.drop r.len++rest := by
            rw [← List.drop_drop,hdrop,List.drop_append_of_le_length hrlen]
          have hlen2 : (tok.drop r.len).length=tok.length-r.len := List.length_drop
          obtain ⟨ps,r1,hps,hsec,hin⟩ := ih (tok.drop r.len).length (by omega) hin2 hdrop2
            (by rw [hsec2]; omega) hut rfl
          refine ⟨_::ps,r1,by rw [pieces_ref _ _ h2 hr hv,hps]; rfl,hsec.trans hsec2,?_⟩
          have hq2 : q+1+r.len+(tok.drop r.len).length=q+n := by omega
          rw [hq2] at hin
          rw [List.flatMap_cons,Splitter.run_append,List.any_cons,← Bool.or_assoc]
          exact hin
      · obtain ⟨ps,r1,hps,hsec,hin⟩ := ih tok.length (by omega) (h.literal hget hc) hdrop
          (by omega) ht rfl
        refine ⟨.text [c]::ps,r1,by rw [pieces_literal _ _ hc,hps]; rfl,hsec,?_⟩
        rw [← hn,show q+(tok.length+1)=q+1+tok.length by omega]
        exact hin

end

/-- The words of a token, when it has been read to its end -/
theorem wordsOf_eq (ps : List Piece) :
    wordsOf ps=
      let sp := Splitter.start.run (ps.flatMap Piece.items)
      if ps.any Piece.isSplit=true ∧ sp.isEmpty=true then sp.done else sp.done++[sp.cur] := by
  unfold wordsOf
  by_cases h : ps.any Piece.isSplit=true
  · simp only [h,if_true,true_and]
    exact (Splitter.finish_run _).symm
  · have hblank : ∀ x∈ps.flatMap Piece.items,x.isBlank=false := by
      intro x hx
      obtain ⟨p,hp,hx⟩ := List.mem_flatMap.mp hx
      have hp' : p.isSplit=false := by
        simp only [List.any_eq_true,not_exists,not_and,Bool.not_eq_true] at h
        exact h p hp
      cases p with
      | text t =>
        obtain ⟨c,-,rfl⟩ := List.mem_map.mp hx
        rfl
      | whole t =>
        obtain rfl | hx := List.mem_cons.mp hx
        · rfl
        · obtain ⟨c,-,rfl⟩ := List.mem_map.mp hx
          rfl
      | split t => cases hp'
    rw [if_neg h,Splitter.run_single _ hblank]
    simp [h,Splitter.start]

theorem expandToken_plain (varResolve : List UInt8 → Option (List UInt8))
    (argval : Option (List UInt8)) {tok : List UInt8} (h : 36∉tok) :
    expandToken varResolve argval tok=.ok [tok] := by
  have hp : pieces varResolve argval tok=.ok (tok.map fun c => .text [c]) := by
    induction tok with
    | nil => exact pieces_nil ..
    | cons c tok ih =>
      have hc : 36≠c ∧ 36∉tok := by simpa using h
      rw [pieces_literal _ _ (Ne.symm hc.1),ih hc.2]
      rfl
  have hw : wordsOf (tok.map fun c => .text [c])=[tok] := by
    have hs : (tok.map fun c => Piece.text [c]).any Piece.isSplit=false := by
      simp [Piece.isSplit]
    have he : Item.elems ((tok.map fun c => Piece.text [c]).flatMap Piece.items)=tok := by
      clear h hp hs
      induction tok with
      | nil => rfl
      | cons c tok ih =>
        rw [List.map_cons,List.flatMap_cons]
        exact (Item.elems_elem c _).trans (congrArg (c::·) ih)
    rw [wordsOf,hs,he]
    rfl
  rw [expandToken,hp]
  exact congrArg Except.ok hw

/-- Between two tokens: the new line up to `q`, in words -/
structure Boundary (line : List UInt8) (q : Nat) (b : Bool) (ws : List (List UInt8))
    (s : SubstState) : Prop where
  le : s.xpos≤ q
  inLine : q≤ line.length
  plain : 36∉span line s.xpos q
  laid : Laid b (s.rLine++span line s.xpos q) s.done ws
  adj : (s.rLine.length : Int)=s.xpos+s.offadj
  bound : s.offadj≤ intMax

theorem adjust_eq {p : UInt32} {offadj : Int} {n : Nat} (h : (n : Int)=p.toNat+offadj)
    (hn : n< 2^32) : adjust p offadj=.ofNat n := by
  have hmod : ((p.toNat+offadj)%2^32).toNat=n := by omega
  rw [adjust,hmod]

section
variable {line : List UInt8} {varResolve : List UInt8 → Option (List UInt8)}
  {argval : Option (List UInt8)} {q : Nat} {b : Bool} {ws : List (List UInt8)} {s t : SubstState}

theorem Boundary.length (h : Boundary line q b ws s) :
    ((s.rLine++span line s.xpos q).length : Int)=q+s.offadj := by
  have hl := length_span (a := s.xpos) h.inLine
  have ha := h.adj
  have hle := h.le
  rw [List.length_append,hl]
  omega

theorem Boundary.blank (h : Boundary line q b ws s) (hq : (line)[q]?=some 32) :
    Boundary line (q+1) true ws s := by
  obtain ⟨hlt,-⟩ := List.getElem?_eq_some_iff.mp hq
  have hspan := span_succ h.le hq
  refine ⟨h.le.trans (Nat.le_succ q),hlt,?_,?_,h.adj,h.bound⟩
  · simpa [hspan] using h.plain
  · rw [hspan,← List.append_assoc]
    exact h.laid.blank

theorem Boundary.blanks (h : Boundary line q true ws s) {q' : Nat} (hle : q≤ q')
    (hb : ∀ k,q≤ k → k< q' → (line)[k]?=some 32) : Boundary line q' true ws s := by
  induction q' with
  | zero =>
    obtain rfl : q=0 := by omega
    exact h
  | succ k ih =>
    by_cases hk : q=k+1
    · rwa [← hk]
    · exact (ih (by omega) fun j h1 h2 => hb j h1 (by omega)).blank (hb k (by omega) (Nat.lt_succ_self k))

/-- A token without a `$` is only moved. -/
theorem Boundary.skip {p : UInt32 × UInt32} (h : Boundary line p.1.toNat true ws s)
    (hle : p.1.toNat≤ p.2.toNat) (hin : p.2.toNat≤ line.length) (hline : line.length≤ intMax)
    (hd : ∀ d,findDollar line s.xpos=some d → p.2.toNat≤ d) :
    expandToken varResolve argval (substring line p)=.ok [substring line p] ∧
      Boundary line p.2.toNat false (ws++[substring line p])
        {s with done := s.done++[(adjust p.1 s.offadj,adjust p.2 s.offadj)]} := by
  have hx := h.le
  have hbound := h.bound
  have hplain := plain_of_findDollar hin hd
  have hsplit : span line s.xpos p.1.toNat++span line p.1.toNat p.2.toNat=
      span line s.xpos p.2.toNat := span_append hx hle
  have hlaid := h.laid.word (substring line p)
  have hlen := h.length
  have hword : (substring line p).length=p.2.toNat-p.1.toNat := length_span hin
  rw [substring_eq_span] at hlaid hword ⊢
  unfold intMax at hbound hline
  have h1 : adjust p.1 s.offadj=.ofNat (s.rLine++span line s.xpos p.1.toNat).length :=
    adjust_eq hlen (by omega)
  have h2 : adjust p.2 s.offadj=
      .ofNat (s.rLine++span line s.xpos p.1.toNat++span line p.1.toNat p.2.toNat).length := by
    have hsum : (s.rLine++span line s.xpos p.1.toNat++span line p.1.toNat p.2.toNat).length=
        (s.rLine++span line s.xpos p.1.toNat).length+(p.2.toNat-p.1.toNat) := by
      rw [← hword]
      exact List.length_append
    exact adjust_eq (by omega) (by omega)
  refine ⟨expandToken_plain _ _ fun hmem => hplain ?_,⟨hx.trans hle,hin,hplain,?_,h.adj,h.bound⟩⟩
  · rw [← hsplit]
    exact List.mem_append_right _ hmem
  · show Laid false (s.rLine++span line s.xpos p.2.toNat) _ _
    rw [← hsplit,← List.append_assoc,h1,h2]
    exact hlaid

/-- A token at the start of the loop over its references -/
theorem Boundary.start {p : UInt32 × UInt32} (h : Boundary line p.1.toNat true ws s)
    (hline : line.length≤ intMax) :
    InToken line p.1.toNat ws Splitter.start false (s.rLine++span line s.xpos p.1.toNat) {s with
      first := adjust p.1 s.offadj
      second := p.2
      inhibitCollapse := false
      doCollapse := false} := by
  have hlen := h.length
  have hbound := h.bound
  have hin := h.inLine
  unfold intMax at hline hbound
  have hfirst : adjust p.1 s.offadj=.ofNat (s.rLine++span line s.xpos p.1.toNat).length :=
    adjust_eq hlen (by omega)
  refine ⟨h.le,h.inLine,h.plain,(List.append_nil _).symm,⟨?_,?_,rfl⟩,h.adj,h.bound,rfl⟩
  · simpa [Splitter.start] using h.laid
  · dsimp only
    rw [hfirst]
    exact Laid.toNat_ofNat (by omega)

/-- The end of a token: it stays, or it collapses. -/
theorem InToken.close {before : List (List UInt8)} {sp : Splitter UInt8} {hs : Bool}
    {r0 : List UInt8} (h : InToken line s.second.toNat before sp hs r0 s)
    (hline : line.length≤ intMax) :
    let second := adjust s.second s.offadj
    let done := if s.doCollapse=true ∧ s.first=second then s.done else s.done++[(s.first,second)]
    ∃ b,Boundary line s.second.toNat b
      (before++if hs=true ∧ sp.isEmpty=true then sp.done else sp.done++[sp.cur])
      {s with done := done} := by
  have hlen := h.length
  have hbound := h.bound
  have hin := h.inLine
  have hword : (r0++sp.cur).length=r0.length+sp.cur.length := List.length_append
  unfold intMax at hline hbound
  have hsecond : adjust s.second s.offadj=.ofNat (r0++sp.cur).length := adjust_eq hlen (by omega)
  have hfirst : s.first=.ofNat r0.length := by
    rw [← h.building.first,UInt32.ofNat_toNat]
  have hsame : s.first=adjust s.second s.offadj ↔ sp.cur=[] := by
    rw [hsecond,hfirst,← UInt32.toNat_inj,Laid.toNat_ofNat (by omega),Laid.toNat_ofNat (by omega),
      hword,← List.length_eq_zero_iff]
    omega
  have hcond : (s.doCollapse=true ∧ s.first=adjust s.second s.offadj) ↔
      (hs=true ∧ sp.isEmpty=true) := by
    rw [hsame,h.collapse]
    simp only [Splitter.isEmpty,Bool.and_eq_true,List.isEmpty_iff]
    constructor
    · intro hs
      exact ⟨hs.1.1,hs.2,hs.1.2⟩
    · intro hs
      exact ⟨⟨hs.1,hs.2.2⟩,hs.2.1⟩
  dsimp only
  by_cases hc : hs=true ∧ sp.isEmpty=true
  · have hcur : sp.cur=[] := hsame.mp (hcond.mpr hc).2
    rw [if_pos (hcond.mpr hc),if_pos hc]
    refine ⟨true,h.le,h.inLine,h.plain,?_,h.adj,h.bound⟩
    show Laid true (s.rLine++span line s.xpos s.second.toNat) s.done _
    rw [h.text,hcur,List.append_nil]
    exact h.building.laid
  · rw [if_neg fun h => hc (hcond.mp h),if_neg hc,← List.append_assoc]
    refine ⟨false,h.le,h.inLine,h.plain,?_,h.adj,h.bound⟩
    show Laid false (s.rLine++span line s.xpos s.second.toNat) _ _
    rw [h.text,hsecond,hfirst]
    exact h.building.laid.word sp.cur

/-- What is behind a token that is valid -/
theorem ValidFrom.endsToken {p : UInt32 × UInt32} {ps : List (UInt32 × UInt32)}
    (h : ValidFrom line q (p::ps)) :
    EndsToken (line.drop p.2.toNat) ∧
      line.drop p.1.toNat=substring line p++line.drop p.2.toNat := by
  obtain ⟨-,hle,hin,-,hbehind⟩ := h.head
  constructor
  · by_cases hlt : p.2.toNat< line.length
    · have hget := hbehind hlt
      rw [← List.head?_drop] at hget
      exact .inr ⟨_,List.eq_cons_of_mem_head? hget⟩
    · exact .inl (List.drop_eq_nil_of_le (by omega))
  · unfold substring
    conv_lhs => rw [← List.take_append_drop (p.2.toNat-p.1.toNat) (line.drop p.1.toNat)]
    rw [List.drop_drop,Nat.add_sub_cancel' hle]

/-- One token of the loop, from its start on: its words are those of its own expansion. -/
theorem substTokens_next {p : UInt32 × UInt32} {ps : List (UInt32 × UInt32)} {skipping : Bool}
    (hv : ValidFrom line q (p::ps)) (h : Boundary line p.1.toNat true ws s)
    (hline : line.length≤ intMax)
    (ht : substTokens line varResolve argval skipping s (p::ps)=.ok t) :
    ∃ u w b,expandToken varResolve argval (substring line p)=.ok w ∧
      Boundary line p.2.toNat b (ws++w) u ∧ substTokens line varResolve argval true u ps=.ok t := by
  obtain ⟨-,hle,hin,-,-⟩ := hv.head
  obtain ⟨hrest,hsplit⟩ := hv.endsToken
  rw [substTokens] at ht
  split at ht
  · next hskip =>
    have hd : ∀ d,findDollar line s.xpos=some d → p.2.toNat≤ d := by
      intro d hd
      have hlt := hskip.2
      rw [hd] at hlt
      exact Nat.le_of_lt (by simpa using hlt)
    obtain ⟨he,hb⟩ := h.skip hle hin hline hd
    exact ⟨_,_,_,he,hb,ht⟩
  · split at ht
    · cases ht
    · next u hu =>
      have hword : (substring line p).length=p.2.toNat-p.1.toNat := length_span hin
      obtain ⟨pcs,r1,hp,hsec,hi⟩ := substToken_sim (h.start hline) hsplit hrest
        (by rw [hword]; exact (Nat.add_sub_cancel' hle).symm) hu
      rw [hword,Nat.add_sub_cancel' hle] at hi
      have hsec' : u.second=p.2 := hsec
      rw [← hsec'] at hi
      obtain ⟨b,hb⟩ := hi.close hline
      refine ⟨_,wordsOf pcs,b,by rw [expandToken,hp]; rfl,?_,ht⟩
      rw [wordsOf_eq,← hsec']
      simpa using hb

/-- The loop over the tokens -/
theorem substTokens_sim {ps : List (UInt32 × UInt32)} {skipping : Bool}
    (hv : ValidFrom line q ps) (h : Boundary line q true ws s) (hline : line.length≤ intMax)
    (ht : substTokens line varResolve argval skipping s ps=.ok t) :
    ∃ wss b,List.Forall₂ (fun p w => expandToken varResolve argval (substring line p)=.ok w) ps wss ∧
      Boundary line line.length b (ws++wss.flatten) t := by
  induction ps generalizing q ws s skipping with
  | nil =>
    cases ht
    have hend := h.blanks h.inLine fun k h1 h2 => hv.blank k h2 h1 (by simp)
    exact ⟨[],true,.nil,by simpa using hend⟩
  | cons p ps ih =>
    obtain ⟨hq,hle,hin,hbefore,hbehind⟩ := hv.head
    obtain ⟨u,w,b,hw,hb,hu⟩ := substTokens_next hv (h.blanks hq hbefore) hline ht
    by_cases hlt : p.2.toNat< line.length
    · obtain ⟨wss,b',hall,hend⟩ := ih hv.tail (hb.blank (hbehind hlt)) hu
      exact ⟨w::wss,b',.cons hw hall,by simpa using hend⟩
    · have he : p.2.toNat=line.length := by omega
      obtain rfl := hv.nil_of_end he
      cases hu
      rw [he] at hb
      exact ⟨[w],b,.cons hw .nil,by simpa using hb⟩

end

/-- A line without a `$` stays as it is. -/
theorem expandTokens_plain (varResolve : List UInt8 → Option (List UInt8))
    (argval : Option (List UInt8)) {line : List UInt8} {offsets : List (UInt32 × UInt32)}
    (hv : ValidOffsets line offsets) (hd : findDollar line 0=none) :
    List.Forall₂ (fun p w => expandToken varResolve argval (substring line p)=.ok w) offsets
      (offsets.map fun p => [substring line p]) := by
  rw [List.forall₂_map_right_iff,List.forall₂_same]
  intro p hp
  have hin := (hv.inside p hp).2
  have hplain := plain_of_findDollar (a := 0) hin (by simp [hd])
  have hle := UInt32.le_iff_toNat_le.mp (hv.inside p hp).1
  refine expandToken_plain _ _ fun hmem => hplain ?_
  rw [← span_append (Nat.zero_le _) hle]
  exact List.mem_append_right _ hmem

/-- Each token is expanded by itself, and the new offsets are those of the words. -/
theorem valueVarSubst_words {settingName : String} {line line' : List UInt8}
    {offsets offsets' : List (UInt32 × UInt32)} {varResolve : List UInt8 → Option (List UInt8)}
    {argval : Option (List UInt8)} (hv : ValidOffsets line offsets)
    (h : valueVarSubst line varResolve argval settingName offsets=.ok (line',offsets')) :
    ∃ wss,List.Forall₂ (fun p w => expandToken varResolve argval (substring line p)=.ok w) offsets
        wss ∧ offsets'.map (substring line')=wss.flatten ∧ ValidOffsets line' offsets' := by
  unfold valueVarSubst at h
  split at h
  · next hd =>
    cases h
    refine ⟨_,expandTokens_plain varResolve argval hv hd,?_,hv⟩
    rw [← List.flatMap_def]
    exact List.map_eq_flatMap
  split at h
  · cases h
  · next hline =>
    split at h
    · cases h
    · next s hs =>
      cases h
      have hstart : Boundary line 0 true [] ⟨[],0,0,0,0,[],false,false⟩ :=
        ⟨le_refl _,Nat.zero_le _,by simp [span_self],by simpa [span_self] using Laid.nil,rfl,by decide⟩
      obtain ⟨wss,b,hall,hend⟩ := substTokens_sim hv hstart (Nat.not_lt.mp hline) hs
      have hlen := hend.length
      have hbound := hend.bound
      have hlaid := hend.laid
      rw [span_end] at hlen hlaid
      unfold intMax at hline hbound
      have hshort : (s.rLine++line.drop s.xpos).length<2^32 := by omega
      exact ⟨wss,hall,hlaid.words hshort,hlaid.valid hshort⟩

/-- A token disappears when it is made only of values that are split and have nothing in them. -/
theorem wordsOf_collapse {ps : List Piece} (hne : ps≠[])
    (h : ∀ p∈ps,∃ t,p=.split t ∧ ∀ c∈t,isSpace c=true) : wordsOf ps=[] := by
  have hblank : ∀ x∈ps.flatMap Piece.items,x=.blank := by
    intro x hx
    obtain ⟨p,hp,hx⟩ := List.mem_flatMap.mp hx
    obtain ⟨t,rfl,ht⟩ := h p hp
    obtain ⟨c,hc,rfl⟩ := List.mem_map.mp hx
    exact if_pos (ht c hc)
  have hrun (items : List (Item UInt8)) (hi : ∀ x∈items,x=.blank) :
      Splitter.start.run items=Splitter.start := by
    induction items with
    | nil => rfl
    | cons x items ih =>
      rw [hi x List.mem_cons_self]
      exact ih fun y hy => hi y (List.mem_cons_of_mem x hy)
  have hany : ps.any Piece.isSplit=true := by
    obtain ⟨p,ps,rfl⟩ := List.exists_cons_of_ne_nil hne
    obtain ⟨t,rfl,-⟩ := h p List.mem_cons_self
    rfl
  rw [wordsOf_eq,hrun _ hblank,hany]
  rfl

/-- The words of the new line are those of the tokens, each expanded by itself, and they are its
arguments, as far as they are C strings. A form in a token stands for its value, and a token that has
nothing but empty values to be split disappears. The offsets that `read_setting_value` produces are
valid. -/
theorem substitution_tokenwise :
    (∀ (settingName : String) (line line' : List UInt8) (offsets offsets' : List (UInt32 × UInt32))
      (varResolve : List UInt8 → Option (List UInt8)) (argval : Option (List UInt8)),
      ValidOffsets line offsets →
      valueVarSubst line varResolve argval settingName offsets=.ok (line',offsets') →
      ∃ wss,
        List.Forall₂ (fun p w => expandToken varResolve argval (substring line p)=.ok w) offsets wss ∧
        offsets'.map (substring line')=wss.flatten ∧ ValidOffsets line' offsets' ∧
        separateArgs line' offsets'=wss.flatten.map cStr) ∧
    (∀ (varResolve : List UInt8 → Option (List UInt8)) (argval : Option (List UInt8)) (f : Form)
      (rest vw : List UInt8), f.Apart rest → f.value varResolve argval=.ok vw →
      pieces varResolve argval (36::(f.write++rest))=(pieces varResolve argval rest).map
        ((if f.wsplit then .split vw else .whole vw)::·)) ∧
    (∀ ps,ps≠[] → (∀ p∈ps,∃ t,p=Piece.split t ∧ ∀ c∈t,isSpace c=true) → wordsOf ps=[]) ∧
    ∀ (settingVal i : List UInt8) (ps : List (UInt32 × UInt32)) (op : SettingOp) (n : UInt32)
      (v : SettingValue),
      (op=.plusAssign → ValidOffsets settingVal ps ∧ (settingVal=[] → ps=[])) →
      readSettingValue settingVal op n i (some ps)=.ok v → v.settingVal.length<2^32 →
      ∃ qs,v.partPositions=some qs ∧ ValidOffsets v.settingVal qs := by
  refine ⟨?_,?_,?_,?_⟩
  · intro settingName line line' offsets offsets' varResolve argval hv h
    obtain ⟨wss,hall,hwords,hvalid⟩ := valueVarSubst_words hv h
    refine ⟨wss,hall,hwords,hvalid,?_⟩
    rw [separateArgs_eq hvalid,hwords]
  · intro varResolve argval f rest vw h hv
    exact pieces_form varResolve argval f h hv
  · intro ps hne h
    exact wordsOf_collapse hne h
  · intro settingVal i ps op n v hv h hlen
    exact readSettingValue_valid hv h hlen

/-- `$/A b`, as it is read, with `x y` for `A` -/
theorem substitution_tokenwise_split :
    (∃ wss,
      List.Forall₂ (fun p w => expandToken (fun _ => some [120,32,121]) none
        (substring [36,47,65,32,98] p)=.ok w) [(0,3),(4,5)] wss ∧
      ([(0,1),(2,3),(4,5)] : List (UInt32 × UInt32)).map (substring [120,32,121,32,98])=wss.flatten ∧
      ValidOffsets [120,32,121,32,98] [(0,1),(2,3),(4,5)] ∧
      separateArgs [120,32,121,32,98] [(0,1),(2,3),(4,5)]=wss.flatten.map cStr) ∧
    pieces (fun _ => some [120,32,121]) none (36::([47,65]++[]))=
      (pieces (fun _ => some [120,32,121]) none []).map (Piece.split [120,32,121]::·) ∧
    wordsOf [.split [32]]=[] := by
  obtain ⟨hsubst,hform,hcollapse,hread⟩ := substitution_tokenwise
  have hline : readSettingValue [] .assign 1 [36,47,65,32,98] (some [])=
      .ok ⟨[36,47,65,32,98],some [(0,3),(4,5)],true,4,1⟩ := by decide +kernel
  have hvalid : ValidOffsets [36,47,65,32,98] [(0,3),(4,5)] := by
    obtain ⟨qs,hq,hv⟩ := hread [] _ [] .assign 1 _ nofun hline (by decide)
    cases hq
    exact hv
  refine ⟨hsubst "command" _ _ _ _ _ _ hvalid (by decide +kernel),
    hform _ none ⟨true,[65],false,none,.inr ⟨by simp,rfl,by simp [isNameChar]⟩,by simp⟩ [] _
      (.inr rfl) rfl,hcollapse _ (by simp) ?_⟩
  intro p hp
  exact ⟨[32],List.mem_singleton.mp hp,by simp [isSpace]⟩

/-- An argument ends at a nul byte, and an empty value gets no delimiter when something is appended to
it, so that its argument and the next one are not apart. -/
theorem arguments_lost :
    (ValidOffsets [97,0,98] [(0,3)] ∧ ∃ line' offsets',
      valueVarSubst [97,0,98] (fun _ => none) none "command" [(0,3)]=.ok (line',offsets') ∧
      separateArgs line' offsets'≠offsets'.map (substring line')) ∧
    ∃ v w ps ps' line' offsets',
      readSettingValue [] .assign 1 [34,34] (some [])=.ok v ∧ v.partPositions=some ps ∧
      readSettingValue v.settingVal .plusAssign 2 [102,111,111] (some ps)=.ok w ∧
      w.partPositions=some ps' ∧
      valueVarSubst w.settingVal (fun _ => none) none "command" ps'=.ok (line',offsets') ∧
      separateArgs line' offsets'≠offsets'.map (substring line') := by
  refine ⟨⟨?_,_,_,rfl,by decide⟩,⟨[],some [(0,0)],true,0,1⟩,
    ⟨[102,111,111],some [(0,0),(0,3)],true,0,2⟩,_,_,_,_,by decide +kernel,rfl,by decide +kernel,rfl,rfl,
    by decide⟩
  exact (Laid.word [97,0,98] .nil).valid (by decide)

end Dinit
