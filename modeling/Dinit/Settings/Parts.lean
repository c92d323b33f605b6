import Dinit.Settings.Offsets

namespace Dinit

/-- Tokens that are valid are laid one after another. -/
theorem ValidFrom.laid {line : List UInt8} {q : Nat} {ps qs : List (UInt32 × UInt32)}
    {ws : List (List UInt8)} (hv : ValidFrom line q ps) (hq : q≤ line.length)
    (h : Laid true (span line 0 q) qs ws) :
    ∃ b,Laid b line (qs++ps) (ws++ps.map (substring line)) := by
  have blanks {q q' : Nat} (hle : q≤ q') (hb : ∀ k,q≤ k → k< q' → (line)[k]?=some 32)
      {qs : List (UInt32 × UInt32)} {ws : List (List UInt8)}
      (h : Laid true (span line 0 q) qs ws) : Laid true (span line 0 q') qs ws := by
    rw [← span_append (Nat.zero_le q) hle,span_blank hle hb]
    exact h.blanks _
  induction ps generalizing q qs ws with
  | nil =>
    have hend := blanks hq (fun k h1 h2 => hv.blank k h2 h1 (by simp)) h
    rw [span_end,List.drop_zero] at hend
    exact ⟨true,by simpa using hend⟩
  | cons p ps ih =>
    obtain ⟨hstart,hle,hin,hbefore,hbehind⟩ := hv.head
    have hword := (blanks hstart hbefore h).word (span line p.1.toNat p.2.toNat)
    rw [span_append (Nat.zero_le _) hle,length_span (by omega),length_span hin,Nat.sub_zero,
      Nat.sub_zero,UInt32.ofNat_toNat,UInt32.ofNat_toNat] at hword
    by_cases hlt : p.2.toNat< line.length
    · have hblank := hword.blank
      rw [← span_succ (Nat.zero_le _) (hbehind hlt)] at hblank
      obtain ⟨b,hb⟩ := ih hv.tail hlt hblank
      rw [← substring_eq_span] at hb
      exact ⟨b,by simpa using hb⟩
    · have he : p.2.toNat=line.length := by omega
      obtain rfl := hv.nil_of_end he
      rw [he,span_end,List.drop_zero,← he] at hword
      exact ⟨false,hword⟩

theorem ValidOffsets.laid {line : List UInt8} {ps : List (UInt32 × UInt32)}
    (hv : ValidOffsets line ps) : ∃ b,Laid b line ps (ps.map (substring line)) :=
  have h : Laid true (span line 0 0) [] [] := by rw [span_self]; exact .nil
  ValidFrom.laid hv (Nat.zero_le _) h

/-- A value that is being read, between two parts or inside one -/
inductive Reading (ps : List (UInt32 × UInt32)) : SettingValue → Prop
  | between {v ws start n} : Laid true v ps ws → Reading ps ⟨v,some ps,true,start,n⟩
  | inside {r ws n} (w : List UInt8) : Laid true r ps ws →
      Reading ps ⟨r++w,some ps,false,.ofNat r.length,n⟩

namespace Reading

variable {ps : List (UInt32 × UInt32)} {s t : SettingValue}

theorem beginPart (h : Reading ps s) : Reading ps s.beginPart ∧ s.beginPart.newPart=false := by
  cases h with
  | @between v ws start n h =>
    have hi := Reading.inside (n := n) [] h
    rw [List.append_nil] at hi
    exact ⟨hi,rfl⟩
  | inside w h => exact ⟨.inside w h,rfl⟩

theorem append (h : Reading ps s) (hs : s.newPart=false) (c : UInt8) :
    Reading ps (s.append c) ∧ (s.append c).newPart=false := by
  cases h with
  | between h => cases hs
  | @inside r ws n w h =>
    have hi := Reading.inside (n := n) (w++[c]) h
    rw [← List.append_assoc] at hi
    exact ⟨hi,rfl⟩

/-- A part ends, or there is none that has been begun. -/
theorem endPart (h : Reading ps s) :
    ∃ qs b ws,s.endPart.partPositions=some qs ∧ s.endPart.newPart=true ∧
      Laid b s.endPart.settingVal qs ws := by
  cases h with
  | between h => exact ⟨ps,true,_,rfl,rfl,h⟩
  | inside w h => exact ⟨_,false,_,rfl,rfl,h.word w⟩

theorem readQuoted {i j : List UInt8} (h : Reading ps s) (hs : s.newPart=false)
    (hr : readQuoted s i=.ok (t,j)) : Reading ps t ∧ t.newPart=false := by
  fun_induction Dinit.readQuoted s i with
  | case1 s => cases hr
  | case2 s i => cases hr; exact ⟨h,hs⟩
  | case3 s hd => cases hr
  | case4 s d i hd ih => exact ih (h.append hs d).1 (h.append hs d).2 hr
  | case5 s c i h1 h2 ih => exact ih (h.append hs c).1 (h.append hs c).2 hr

/-- The parts that are read are laid one after another. -/
theorem readParts {i : List UInt8} {v : SettingValue} (h : Reading ps s)
    (hr : readParts s i=.ok v) :
    ∃ qs b ws,v.partPositions=some qs ∧ Laid b v.settingVal qs ws := by
  have plain {ps : List (UInt32 × UInt32)} {s : SettingValue} (h : Reading ps s) (c : UInt8) :
      Reading ps (s.beginPart.append c) := (h.beginPart.1.append h.beginPart.2 c).1
  fun_induction Dinit.readParts s i generalizing ps with
  | case1 s =>
    cases hr
    obtain ⟨qs,b,ws,hq,-,hl⟩ := h.endPart
    exact ⟨qs,b,ws,hq,hl⟩
  | case2 => cases hr
  | case3 s i t j hq ih => exact ih (h.beginPart.1.readQuoted h.beginPart.2 hq).1 hr
  | case4 => cases hr
  | case5 s d i hc ih => exact ih (plain h d) hr
  | case6 s c i h1 h2 hs lines hk =>
    cases hr
    obtain ⟨qs,b,ws,hq,-,hl⟩ := h.endPart
    exact ⟨qs,b,ws,hq,hl⟩
  | case7 s c i h1 h2 hs lines d j hk ih =>
    obtain ⟨qs,b,ws,hq,hn,hl⟩ := h.endPart
    have hb : Reading qs ({s.endPart with lineNum := lines}.append 32) := by
      unfold SettingValue.append
      simp only [hq,hn]
      exact .between hl.blank
    exact ih hb hr
  | case8 => cases hr
  | case9 s c i h1 h2 h3 h4 ih => exact ih (plain h c) hr

end Reading

/-- The offsets that `read_setting_value` produces are valid, for a value that is assigned, and for one
that is appended to a value with parts. -/
theorem readSettingValue_valid {settingVal i : List UInt8} {ps : List (UInt32 × UInt32)}
    {op : SettingOp} {n : UInt32} {v : SettingValue}
    (hv : op=.plusAssign → ValidOffsets settingVal ps ∧ (settingVal=[] → ps=[]))
    (h : readSettingValue settingVal op n i (some ps)=.ok v) (hlen : v.settingVal.length<2^32) :
    ∃ qs,v.partPositions=some qs ∧ ValidOffsets v.settingVal qs := by
  have valid {ps : List (UInt32 × UInt32)} {s : SettingValue} {i : List UInt8} (hs : Reading ps s)
      (h : readParts s i=.ok v) : ∃ qs,v.partPositions=some qs ∧ ValidOffsets v.settingVal qs := by
    obtain ⟨qs,b,ws,hq,hl⟩ := hs.readParts h
    exact ⟨qs,hq,hl.valid hlen⟩
  unfold readSettingValue at h
  dsimp only at h
  by_cases hop : op=.plusAssign
  · obtain ⟨hval,hempty⟩ := hv hop
    rw [if_pos hop] at h
    by_cases hs : settingVal=[]
    · rw [if_pos hs,hempty hs] at h
      exact valid (.between .nil) h
    · obtain ⟨b,hb⟩ := hval.laid
      rw [if_neg hs] at h
      exact valid (.between hb.blank) h
  · rw [if_neg hop] at h
    exact valid (.between .nil) h

end Dinit
