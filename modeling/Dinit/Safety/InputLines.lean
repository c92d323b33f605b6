import Dinit.Safety.OutputStream
import Dinit.Stream.Input

namespace Dinit

namespace Istream

open Ostream

/-- The reads are short or interrupted, and do not fail. -/
def Undisturbed (reads : List Moved) : Prop := ∀ e,.failed e∈reads → e.code=eintr

section
variable {b : Streambuf}

theorem length_zero_iff (b : Streambuf) : b.length=0 ↔ b.contents=[] := by
  rw [← List.length_eq_zero_iff,b.contents_length]
  exact UInt32.toNat_inj.symm

/-- What one read brings into an empty buffer -/
theorem fill_empty (hok : b.toRing.Ok) (hempty : b.contents=[]) (file : List UInt8) {k : Nat}
    (hk : 0<k) :
    (b.fill file (some 16384) (some k)).1.toRing.Ok ∧
      (b.fill file (some 16384) (some k)).1.contents++
        (b.fill file (some 16384) (some k)).2.2=file ∧
      (file=[] ∧ (b.fill file (some 16384) (some k)).2.1=0 ∨
        0<(b.fill file (some 16384) (some k)).2.1 ∧
          (b.fill file (some 16384) (some k)).1.contents≠[]) := by
  obtain ⟨n,hn,hok',hcon,hrest,hres,hcount⟩ := Cpbuffer.fill_spec hok size_ok file (some 16384) (some k)
  have hlen : b.length=0 := (length_zero_iff b).mpr hempty
  have hmax := Cpbuffer.maxCount_pos hok size_ok (by rw [hlen]; decide) 16384 (by decide)
  have hn' := hcount k rfl
  have hroom := Cpbuffer.maxCount_le_room hok size_ok (some 16384)
  have hle : (b.maxCount (some 16384)).toNat≤ 16384 := by
    rw [Cpbuffer.toNat_maxCount hok size_ok]
    exact Nat.min_le_right _ _
  rw [hempty,List.nil_append] at hcon
  refine ⟨hok',by rw [hcon,hrest,List.take_append_drop],?_⟩
  rw [hres,hcon,Option.elim_some,asInt_small (by omega)]
  cases file with
  | nil => exact .inl ⟨rfl,by simp at hn; omega⟩
  | cons c file =>
    rw [List.length_cons] at hn'
    refine .inr ⟨by omega,fun h0 => ?_⟩
    have hzero := congrArg List.length h0
    rw [List.length_take,List.length_cons,List.length_nil] at hzero
    omega

/-- Interrupted reads are made again, until one gives something or the file is at its end. -/
theorem load_spec (hok : b.toRing.Ok) (hempty : b.contents=[]) (file : List UInt8)
    {reads : List Moved} (hr : Undisturbed reads) :
    ∃ r e b' file' reads',load b file 16384 reads=(r,e,b',file',reads') ∧ Undisturbed reads' ∧
      b'.toRing.Ok ∧ b'.contents++file'=file ∧ (file=[] ∧ r=0 ∨ 0< r ∧ b'.contents≠[]) := by
  induction reads with
  | nil =>
    obtain ⟨hok',hsame,hcases⟩ := fill_empty hok hempty file (k := (16384 : UInt32).toNat) (by decide)
    exact ⟨_,_,_,_,_,rfl,hr,hok',hsame,hcases⟩
  | cons m reads ih =>
    have hr' : Undisturbed reads := fun e he => hr e (List.mem_cons_of_mem _ he)
    cases m with
    | failed e =>
      unfold load
      rw [if_pos (hr e (List.mem_cons_self ..))]
      exact ih hr'
    | bytes n =>
      obtain ⟨hok',hsame,hcases⟩ := fill_empty hok hempty file (k := max 1 n) (by omega)
      exact ⟨_,_,_,_,_,rfl,hr',hok',hsame,hcases⟩

theorem loadIntoBuf_spec {s : Istream} (hok : b.toRing.Ok) (hempty : b.contents=[])
    (hr : Undisturbed s.reads) :
    ∃ b' reads',Undisturbed reads' ∧ b'.toRing.Ok ∧
      ((s.file=[] ∧ b'.contents=[] ∧
          loadIntoBuf s b 16384=(-1,b',{s with file := [],reads := reads',eofState := true})) ∨
        ∃ r file',0< r ∧ b'.contents≠[] ∧ b'.contents++file'=s.file ∧
          loadIntoBuf s b 16384=(r,b',{s with file := file',reads := reads'})) := by
  obtain ⟨r,e,b',file',reads',hload,hr',hok',hsame,hcases⟩ := load_spec hok hempty s.file hr
  refine ⟨b',reads',hr',hok',?_⟩
  unfold loadIntoBuf
  rw [hload]
  dsimp only
  obtain ⟨hnil,rfl⟩ | ⟨hpos,hne⟩ := hcases
  · rw [hnil] at hsame
    obtain ⟨hcon,hfile⟩ := List.append_eq_nil_iff.mp hsame
    exact .inl ⟨hnil,hcon,by rw [if_pos rfl,hfile]⟩
  · exact .inr ⟨r,file',hpos,hne,hsame,by rw [if_neg (by omega),if_neg (by omega)]⟩

/-- The first piece of a buffer that is not empty -/
theorem piece_spec (hok : b.toRing.Ok) (hne : b.contents≠[]) :
    0<(b.slice (b.getPtr 0) (b.getContiguousLength (b.getPtr 0))).length ∧
      (b.slice (b.getPtr 0) (b.getContiguousLength (b.getPtr 0))).length=
        (b.getContiguousLength (b.getPtr 0)).toNat ∧
      ∃ more,b.contents=b.slice (b.getPtr 0) (b.getContiguousLength (b.getPtr 0))++more := by
  have hlen : (b.slice (b.getPtr 0) (b.getContiguousLength (b.getPtr 0))).length=
      (b.getContiguousLength (b.getPtr 0)).toNat := by simp [Cpbuffer.slice]
  have hpos : 0<b.length.toNat := by
    rw [← b.contents_length]
    exact List.length_pos_of_ne_nil hne
  have hcontig : (b.getContiguousLength (b.getPtr 0)).toNat=
      b.toRing.contiguousLength (b.toRing.ptr 0) :=
    Cpbuffer.toNat_contiguous hok size_ok (UInt32.lt_iff_toNat_lt.mpr hpos)
  refine ⟨?_,hlen,_,(pieces_eq hok).symm⟩
  rw [hlen,hcontig]
  exact Framework.Ring.contiguous_pos hok hpos

/-- What a line is taken from: up to the delimiter, or to the end of the file -/
inductive Line (delim : UInt8) (bytes : List UInt8) : Bool → List UInt8 → List UInt8 → Prop
  | found {l rest : List UInt8} : bytes=l++delim::rest → delim∉l → Line delim bytes true l rest
  | last : delim∉bytes → Line delim bytes false bytes []

/-- A piece without the delimiter is the start of a line. -/
theorem Line.cons {delim : UInt8} {piece bytes l rest : List UInt8} {found : Bool}
    (h : Line delim bytes found l rest) (hp : delim∉piece) :
    Line delim (piece++bytes) found (piece++l) rest := by
  cases h with
  | found heq hl =>
    exact .found (by rw [heq,List.append_assoc]) fun hm => (List.mem_append.mp hm).elim hp hl
  | last hb => exact .last fun hm => (List.mem_append.mp hm).elim hp hb

theorem Line.splitOn {delim : UInt8} {bytes l rest : List UInt8} {found : Bool}
    (h : Line delim bytes found l rest) :
    bytes.splitOn delim=l::if found then rest.splitOn delim else [] := by
  cases h with
  | found heq hl =>
    rw [heq,List.splitOn_append_cons_self_of_not_mem hl]
    rfl
  | last hb => exact List.splitOn_eq_singleton hb

theorem Line.length_le {delim : UInt8} {bytes l rest : List UInt8} {found : Bool}
    (h : Line delim bytes found l rest) : rest.length≤ bytes.length := by
  cases h with
  | found heq hl =>
    rw [heq,List.length_append,List.length_cons]
    omega
  | last hb => exact Nat.zero_le _

/-- A piece with the delimiter in it -/
theorem line_of_index {delim : UInt8} {piece : List UInt8} (more : List UInt8)
    (h : piece.findIdx (·==delim)<piece.length) :
    Line delim (piece++more) true (piece.take (piece.findIdx (·==delim)))
      ((piece++more).drop (piece.findIdx (·==delim)+1)) := by
  have hat : piece[piece.findIdx (·==delim)]=delim := by
    simpa using List.findIdx_getElem (w := h)
  have hdrop : (piece++more).drop (piece.findIdx (·==delim)+1)=
      piece.drop (piece.findIdx (·==delim)+1)++more := List.drop_append_of_le_length h
  rw [hdrop]
  refine .found ?_ fun hm => ?_
  · have hcut := List.drop_eq_getElem_cons h
    rw [hat] at hcut
    rw [← List.cons_append,← List.append_assoc,← hcut,List.take_append_drop]
  · obtain ⟨i,hi,heq⟩ := List.mem_take_iff_getElem.mp hm
    have hbefore := List.not_of_lt_findIdx (Nat.lt_of_lt_of_le hi (Nat.min_le_left _ _))
    simp [heq] at hbefore

theorem consume_all (hok : b.toRing.Ok) {piece more : List UInt8} {n : UInt32}
    (hsplit : b.contents=piece++more) (hn : piece.length=n.toNat) :
    (b.consume n).toRing.Ok ∧ (b.consume n).contents=more := by
  have hlen := congrArg List.length hsplit
  rw [b.contents_length,List.length_append] at hlen
  obtain ⟨hok',hcon⟩ := consume_spec hok (n := n) (by omega)
  rw [hsplit,← hn,List.drop_left] at hcon
  exact ⟨hok',hcon⟩

/-- The loop takes a line, across as many pieces and reads as it is in. -/
theorem lineLoop_spec {maxSize : Nat} {delim : UInt8} {fuel : Nat} {s : Istream}
    {dest : List UInt8} (hok : b.toRing.Ok) (hne : b.contents≠[]) (hr : Undisturbed s.reads)
    (hfuel : b.contents.length+s.file.length<fuel)
    (hmax : dest.length+b.contents.length+s.file.length≤ maxSize) :
    ∃ found l b' file' reads',Undisturbed reads' ∧ b'.toRing.Ok ∧
      Line delim (b.contents++s.file) found l (b'.contents++file') ∧
      lineLoop maxSize delim fuel s b dest=
        (found,dest++l,{s with
          buf := some b',file := file',reads := reads',eofState := s.eofState || !found}) := by
  induction fuel generalizing b s dest with
  | zero => omega
  | succ fuel ih =>
    obtain ⟨hpos,hlen,more,hsplit⟩ := piece_spec hok hne
    have hcon := congrArg List.length hsplit
    rw [List.length_append] at hcon
    unfold lineLoop
    dsimp only
    generalize b.slice (b.getPtr 0) (b.getContiguousLength (b.getPtr 0))=piece at *
    by_cases hfind : piece.findIdx (·==delim)=piece.length
    · have hnone : delim∉piece := by
        intro hm
        have hlt := List.findIdx_lt_length_of_exists (p := (·==delim)) ⟨delim,hm,by simp⟩
        omega
      obtain ⟨hok1,hmore⟩ := consume_all hok hsplit hlen
      rw [if_pos hfind,if_neg (by omega)]
      have hdest : (dest++piece).length=dest.length+piece.length := List.length_append
      by_cases hempty : (b.consume (b.getContiguousLength (b.getPtr 0))).length=0
      · have hnil := (length_zero_iff _).mp hempty
        have hall : b.contents=piece := by rw [hsplit,← hmore,hnil,List.append_nil]
        rw [if_pos hempty]
        obtain ⟨b1,reads1,hr1,hok2,⟨hfile,hend,hload⟩ | ⟨r,file1,hpos1,hne1,hsame,hload⟩⟩ :=
          loadIntoBuf_spec hok1 hnil hr
        · rw [hload]
          refine ⟨false,piece,b1,[],reads1,hr1,hok2,?_,by simp⟩
          rw [hall,hfile,hend,List.append_nil]
          exact .last hnone
        · have hcount := congrArg List.length hsame
          rw [List.length_append] at hcount
          obtain ⟨found,l,b',file',reads',hr',hok',hline,heq⟩ :=
            @ih _ {s with file := file1,reads := reads1} (dest++piece) hok2 hne1 hr1
              (by dsimp only; omega) (by dsimp only; omega)
          dsimp only at hline
          rw [hsame] at hline
          rw [hload]
          dsimp only
          rw [if_neg (by omega)]
          refine ⟨found,piece++l,b',file',reads',hr',hok',?_,?_⟩
          · rw [hall]
            exact hline.cons hnone
          · rw [heq,List.append_assoc]
      · have hne1 : (b.consume (b.getContiguousLength (b.getPtr 0))).contents≠[] := fun h0 =>
          hempty ((length_zero_iff _).mpr h0)
        rw [if_neg hempty]
        rw [← hmore] at hcon
        obtain ⟨found,l,b',file',reads',hr',hok',hline,heq⟩ := @ih _ s (dest++piece) hok1 hne1 hr
          (by omega) (by omega)
        rw [hmore] at hline
        refine ⟨found,piece++l,b',file',reads',hr',hok',?_,?_⟩
        · rw [hsplit,List.append_assoc]
          exact hline.cons hnone
        · rw [heq,List.append_assoc]
    · have hlt : piece.findIdx (·==delim)<piece.length :=
        Nat.lt_of_le_of_ne List.findIdx_le_length hfind
      have hline := line_of_index (more++s.file) hlt
      have hsize : b.contents.length≤ 16384 := by
        rw [b.contents_length]
        exact hok.len
      have hof : (UInt32.ofNat (piece.findIdx (·==delim)+1)).toNat=piece.findIdx (·==delim)+1 :=
        UInt32.toNat_ofNat_of_lt' (by
          show _<2^32
          omega)
      obtain ⟨hok1,hdrop⟩ := consume_spec hok (n := .ofNat (piece.findIdx (·==delim)+1)) (by
        rw [hof,← b.contents_length]
        omega)
      rw [if_neg hfind,if_neg (by omega)]
      refine ⟨true,piece.take (piece.findIdx (·==delim)),_,s.file,s.reads,hr,hok1,?_,by simp⟩
      rw [hdrop,hof,← List.drop_append_of_le_length (by omega),hsplit,List.append_assoc]
      exact hline

/-- A line may be empty; that is seen before the loop. -/
theorem firstLine_spec (maxSize : Nat) (delim : UInt8) {s : Istream}
    (hok : b.toRing.Ok) (hne : b.contents≠[]) (hr : Undisturbed s.reads)
    (hmax : b.contents.length+s.file.length≤ maxSize) :
    ∃ found l b' file' reads',Undisturbed reads' ∧ b'.toRing.Ok ∧
      Line delim (b.contents++s.file) found l (b'.contents++file') ∧
      firstLine maxSize delim s b=
        (found,l,{s with
          buf := some b',file := file',reads := reads',eofState := s.eofState || !found}) := by
  obtain ⟨hpos,-,more,hsplit⟩ := piece_spec hok hne
  unfold firstLine
  dsimp only
  by_cases hfirst : (b.slice (b.getPtr 0) (b.getContiguousLength (b.getPtr 0))).head?=some delim
  · obtain ⟨piece,hpiece⟩ := List.head?_eq_some_iff.mp hfirst
    have hone : 1≤ b.length.toNat := by
      rw [← b.contents_length]
      exact List.length_pos_of_ne_nil hne
    obtain ⟨hok1,hdrop⟩ := consume_spec hok (n := 1) hone
    rw [if_pos hfirst]
    refine ⟨true,[],_,s.file,s.reads,hr,hok1,.found ?_ List.not_mem_nil,by simp⟩
    rw [hdrop,hsplit,hpiece]
    rfl
  · have hlen := b.contents_length
    rw [if_neg hfirst]
    exact lineLoop_spec hok hne hr (by omega) (by simpa using hmax)

end

/-- A stream that has not failed -/
structure InOrder (s : Istream) : Prop where
  buf : ∃ b,s.buf=some b ∧ b.toRing.Ok
  reads : Undisturbed s.reads
  string : s.stringFailed=false
  io : s.ioError=0

/-- The bytes that no line has been made of -/
def pending (s : Istream) : List UInt8 := s.buf.elim [] Cpbuffer.contents++s.file

section
variable {s : Istream} {delim : UInt8} {maxSize : Nat}

theorem good_eq (h : s.InOrder) : s.good= !s.eofState := by
  obtain ⟨⟨b,hb,-⟩,-,hstring,hio⟩ := h
  cases he : s.eofState <;> simp [good,currentState,hb,hstring,hio,he]

theorem getLineNx_spec (delim : UInt8) (h : s.InOrder) (heof : s.eofState=false) (hmax : s.pending.length≤ maxSize)
    (dest : List UInt8) :
    ∃ found l s',s.getLineNx maxSize dest delim=(found,l,s') ∧ s'.InOrder ∧ s'.eofState= !found ∧
      Line delim s.pending found l s'.pending := by
  have hgood := good_eq h
  obtain ⟨⟨b,hb,hok⟩,hr,hstring,hio⟩ := h
  rw [heof] at hgood
  have hpending : s.pending=b.contents++s.file := by
    unfold pending
    rw [hb]
    rfl
  rw [hpending,List.length_append] at hmax
  unfold getLineNx
  rw [hb]
  dsimp only
  rw [hgood,if_neg (by decide),hpending]
  by_cases hzero : b.length=0
  · have hempty := (length_zero_iff b).mp hzero
    rw [if_pos hzero,hempty,List.nil_append]
    obtain ⟨b1,reads1,hr1,hok1,⟨hfile,hend,hload⟩ | ⟨r,file1,hpos1,hne1,hsame,hload⟩⟩ :=
      loadIntoBuf_spec hok hempty hr
    · rw [hload,hfile]
      refine ⟨false,[],_,rfl,⟨⟨b1,rfl,hok1⟩,hr1,hstring,hio⟩,rfl,?_⟩
      change Line delim [] false [] (b1.contents++[])
      rw [hend]
      exact .last List.not_mem_nil
    · have hcount := congrArg List.length hsame
      rw [List.length_append] at hcount
      obtain ⟨found,l,b',file',reads',hr',hok',hline,heq⟩ :=
        firstLine_spec maxSize delim (s := {s with file := file1,reads := reads1}) hok1 hne1 hr1
          (by dsimp only; omega)
      rw [hload]
      dsimp only
      rw [if_neg (by omega),heq]
      dsimp only at hline
      rw [hsame] at hline
      exact ⟨found,l,_,rfl,⟨⟨b',rfl,hok'⟩,hr',hstring,hio⟩,by simp [heof],hline⟩
  · have hne : b.contents≠[] := fun h0 => hzero ((length_zero_iff b).mpr h0)
    obtain ⟨found,l,b',file',reads',hr',hok',hline,heq⟩ :=
      firstLine_spec maxSize delim hok hne hr hmax
    rw [if_neg hzero,heq]
    exact ⟨found,l,_,rfl,⟨⟨b',rfl,hok'⟩,hr',hstring,hio⟩,by simp [heof],hline⟩

/-- The lines that are still to come -/
def lines (s : Istream) (delim : UInt8) : List (List UInt8) :=
  if s.eofState then [] else s.pending.splitOn delim

/-- A call gives the next line, and no line when there is none. -/
theorem getLineUntilEofNx_spec (delim : UInt8) (h : s.InOrder) (hmax : s.pending.length≤ maxSize)
    (dest : List UInt8) :
    (s.lines delim=[] ∧ s.getLineUntilEofNx maxSize dest delim=(false,dest,s)) ∨
      ∃ l s',s.lines delim=l::s'.lines delim ∧ s.getLineUntilEofNx maxSize dest delim=(true,l,s') ∧
        s'.InOrder ∧ s'.pending.length≤ s.pending.length := by
  have hgood := good_eq h
  unfold getLineUntilEofNx
  cases heof : s.eofState with
  | true =>
    rw [heof] at hgood
    refine .inl ⟨?_,by rw [hgood]; rfl⟩
    unfold lines
    rw [heof]
    rfl
  | false =>
    rw [heof] at hgood
    obtain ⟨found,l,s',hget,horder,heof',hline⟩ := getLineNx_spec delim h heof hmax dest
    have hall : s.lines delim=s.pending.splitOn delim := by
      unfold lines
      rw [heof]
      rfl
    have hrest : s'.lines delim=if found then s'.pending.splitOn delim else [] := by
      unfold lines
      rw [heof']
      cases found <;> rfl
    refine .inr ⟨l,s',by rw [hall,hline.splitOn,hrest],?_,horder,hline.length_le⟩
    · rw [hgood,if_neg (by decide),hget]
      cases found with
      | true => rfl
      | false =>
        dsimp only
        rw [horder.io,horder.string]
        rfl

end

end Istream

end Dinit
