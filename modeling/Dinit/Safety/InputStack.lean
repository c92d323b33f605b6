import Mathlib.Algebra.Group.Int.Defs
import Mathlib.Data.List.Forall2
import Dinit.Safety.InputLines

namespace Dinit

namespace Istream

/-- A stream as it is opened: with a buffer in any state, and without an error -/
structure Opened (s : Istream) : Prop where
  buf : ∃ b,s.buf=some b ∧ Cpbuffer.Reached b
  reads : Undisturbed s.reads
  eof : s.eofState=false
  string : s.stringFailed=false
  io : s.ioError=0

theorem Opened.inOrder {s : Istream} (h : s.Opened) : s.InOrder := by
  obtain ⟨b,hb,hreached⟩ := h.buf
  exact ⟨⟨b,hb,Cpbuffer.ok_reached (by decide) Ostream.size_ok hreached⟩,h.reads,h.string,h.io⟩

theorem Opened.lines {s : Istream} (h : s.Opened) (delim : UInt8) :
    s.lines delim=s.pending.splitOn delim := by
  unfold Istream.lines
  rw [h.eof]
  rfl

/-- What so many calls return: a line, or nothing -/
def callLines (maxSize : Nat) (dest : List UInt8) : Nat → Istream → List (Option (List UInt8))
  | 0,_ => []
  | n+1,s =>
    match s.getLineUntilEofNx maxSize dest 10 with
    | (true,l,s) => some l::callLines maxSize l n s
    | (false,dest,s) => none::callLines maxSize dest n s

theorem take_padded {α : Type} (l : List α) (a : α) (n : Nat) :
    (l++List.replicate (n+1) a).take n=(l++List.replicate n a).take n := by
  have hle : n≤ (l++List.replicate n a).length := by
    rw [List.length_append,List.length_replicate]
    omega
  rw [List.replicate_succ',← List.append_assoc,List.take_append_of_le_length hle]

theorem callLines_eq {maxSize n : Nat} {dest : List UInt8} {s : Istream} (h : s.InOrder)
    (hmax : s.pending.length≤ maxSize) :
    callLines maxSize dest n s=((s.lines 10).map some++List.replicate n none).take n := by
  induction n generalizing s dest with
  | zero => rfl
  | succ n ih =>
    unfold callLines
    obtain ⟨hnone,heq⟩ | ⟨l,s',hline,heq,horder,hle⟩ :=
      getLineUntilEofNx_spec 10 h hmax dest
    · rw [heq,hnone]
      dsimp only
      rw [ih h hmax,hnone,List.map_nil,List.nil_append,List.nil_append,List.replicate_succ,
        List.take_succ_cons]
    · rw [heq,hline]
      dsimp only
      rw [ih horder (Nat.le_trans hle hmax),List.map_cons,List.cons_append,List.take_succ_cons]
      rw [take_padded]

end Istream

namespace FileInputStack

open Istream

/-- The calls on the stack -/
inductive Op
  | push (fileName : List UInt8) (file : Istream) (parentDirFd : Int)
  | getline
  | getlineSameFile

/-- What a call gives: a line with its number, or the news that there is none -/
inductive Event
  | pushed
  | line (l : List UInt8) (num : Option Nat)
  | ended

def event (r : Bool × List UInt8 × FileInputStack) : Event × List UInt8 × FileInputStack :=
  (if r.1 then .line r.2.1 (r.2.2.currentLine.map UInt32.toNat) else .ended,r.2)

def step (maxSize : Nat) (rline : List UInt8) (stack : FileInputStack) :
    Op → Except InputFault (Event × List UInt8 × FileInputStack)
  | .push fileName file parentDirFd => .ok (.pushed,rline,stack.push fileName file parentDirFd)
  | .getline => event <$> stack.getline maxSize rline
  | .getlineSameFile => event <$> stack.getlineSameFile maxSize rline

def run (maxSize : Nat) (rline : List UInt8) (stack : FileInputStack) :
    List Op → Except InputFault (List Event × FileInputStack)
  | [] => .ok ([],stack)
  | op::ops =>
    match step maxSize rline stack op with
    | .error f => .error f
    | .ok (e,rline,stack) =>
      match run maxSize rline stack ops with
      | .error f => .error f
      | .ok (es,stack) => .ok (e::es,stack)

/-- A file that is being read: all of its lines, and how many have been given -/
structure Reading where
  lines : List (List UInt8)
  pos : Nat

/-- The next line of the innermost file that has one; the files that have none are left. -/
def next : List Reading → Event × List Reading
  | [] => (.ended,[])
  | r::rs =>
    match r.lines[r.pos]? with
    | some l => (.line l (some (r.pos+1)),⟨r.lines,r.pos+1⟩::rs)
    | none => next rs

def nextSame : List Reading → Event × List Reading
  | [] => (.ended,[])
  | r::rs =>
    match r.lines[r.pos]? with
    | some l => (.line l (some (r.pos+1)),⟨r.lines,r.pos+1⟩::rs)
    | none => (.ended,r::rs)

/-- How included files are read. A file is cut into lines at its newlines. -/
def read (rs : List Reading) : List Op → List Event
  | [] => []
  | .push _ file _::ops => .pushed::read (⟨file.pending.splitOn 10,0⟩::rs) ops
  | .getline::ops => (next rs).1::read (next rs).2 ops
  | .getlineSameFile::ops => (nextSame rs).1::read (nextSame rs).2 ops

/-- A file of the stack is where it should be. -/
structure Follows (maxSize : Nat) (f : InputFile) (r : Reading) : Prop where
  order : f.stream.InOrder
  size : f.stream.pending.length≤ maxSize
  lines : f.stream.lines 10=r.lines.drop r.pos
  num : f.lineNum=r.pos
  pos : r.pos≤ r.lines.length
  bound : r.lines.length<2^31-1

section
variable {maxSize : Nat} {f : InputFile} {r : Reading} {rline : List UInt8}

theorem Follows.nextLineNum (h : Follows maxSize f r) :
    nextLineNum f.lineNum=.ok (r.pos+1 : Nat) := by
  have hle := h.pos
  have hbound := h.bound
  unfold FileInputStack.nextLineNum
  rw [h.num,if_pos (by omega)]
  rfl

theorem Follows.throwException (h : Follows maxSize f r) : throwException f.stream=.ok () := by
  obtain ⟨b,hb,-⟩ := h.order.buf
  unfold FileInputStack.throwException
  rw [hb,h.order.string,h.order.io]
  rfl

theorem Follows.currentLine (h : Follows maxSize f r) (stack : FileInputStack) :
    (currentLine (f::stack)).map UInt32.toNat=some r.pos := by
  have hle := h.pos
  have hbound := h.bound
  have hmod : (r.pos : Int)%2^32=r.pos := by omega
  show some (UInt32.ofNat (f.lineNum%2^32).toNat).toNat=some r.pos
  rw [h.num,hmod,Int.toNat_natCast,UInt32.toNat_ofNat_of_lt' (show r.pos<2^32 by omega)]

/-- One file, at one call: it gives the line at the position, or it is at its end. -/
theorem Follows.next (h : Follows maxSize f r) (rline : List UInt8) :
    (r.lines[r.pos]?=none ∧
        f.stream.getLineUntilEofNx maxSize rline 10=(false,rline,f.stream)) ∨
      ∃ l stream,r.lines[r.pos]?=some l ∧
        f.stream.getLineUntilEofNx maxSize rline 10=(true,l,stream) ∧
        Follows maxSize {f with stream := stream,lineNum := (r.pos+1 : Nat)} ⟨r.lines,r.pos+1⟩ := by
  have hle := h.pos
  have hbound := h.bound
  obtain ⟨hnone,heq⟩ | ⟨l,stream,hline,heq,horder,hsize⟩ :=
    getLineUntilEofNx_spec 10 h.order h.size rline
  · rw [h.lines,List.drop_eq_nil_iff] at hnone
    exact .inl ⟨List.getElem?_eq_none hnone,heq⟩
  · rw [h.lines] at hline
    have hlt : r.pos< r.lines.length := by
      have hlen := congrArg List.length hline
      rw [List.length_drop,List.length_cons] at hlen
      omega
    rw [List.drop_eq_getElem_cons hlt] at hline
    obtain ⟨hl,hrest⟩ := List.cons.inj hline
    exact .inr ⟨l,stream,by rw [List.getElem?_eq_getElem hlt,hl],heq,horder,
      Nat.le_trans hsize h.size,hrest.symm,rfl,hlt,hbound⟩

/-- The innermost file with a line gives it. -/
theorem getline_spec {stack : FileInputStack} {rs : List Reading}
    (h : List.Forall₂ (Follows maxSize) stack rs) (rline : List UInt8) :
    ∃ rline' stack',event <$> stack.getline maxSize rline=.ok ((next rs).1,rline',stack') ∧
      List.Forall₂ (Follows maxSize) stack' (next rs).2 := by
  induction h with
  | nil => exact ⟨rline,[],rfl,.nil⟩
  | @cons f r stack rs hf hrest ih =>
    have hnum := hf.nextLineNum
    unfold getline next
    obtain ⟨hnone,heq⟩ | ⟨l,stream,hline,heq,hf'⟩ := hf.next rline
    · have hthrow : throwException f.stream=.ok () := hf.throwException
      rw [hnum,heq,hnone]
      dsimp only [bind,Except.bind]
      rw [hthrow]
      exact ih
    · rw [hnum,heq,hline]
      exact ⟨l,_,by rw [← hf'.currentLine]; rfl,.cons hf' hrest⟩

theorem getlineSameFile_spec {stack : FileInputStack} {rs : List Reading}
    (h : List.Forall₂ (Follows maxSize) stack rs) (rline : List UInt8) :
    ∃ rline' stack',event <$> stack.getlineSameFile maxSize rline=.ok ((nextSame rs).1,rline',stack') ∧
      List.Forall₂ (Follows maxSize) stack' (nextSame rs).2 := by
  cases h with
  | nil => exact ⟨rline,[],rfl,.nil⟩
  | @cons f r stack rs hf hrest =>
    have hnum := hf.nextLineNum
    unfold getlineSameFile nextSame
    dsimp only
    obtain ⟨hnone,heq⟩ | ⟨l,stream,hline,heq,hf'⟩ := hf.next rline
    · rw [heq,hnone]
      dsimp only
      rw [hf.throwException]
      exact ⟨rline,_,rfl,.cons hf hrest⟩
    · rw [heq,hline]
      dsimp only
      rw [hnum]
      exact ⟨l,_,by rw [← hf'.currentLine]; rfl,.cons hf' hrest⟩

/-- What can be pushed: a stream as it is opened, with a content that fits in a string and with
fewer than `2^31-1` lines -/
def Op.Fits (maxSize : Nat) : Op → Prop
  | .push _ file _ => file.Opened ∧ file.pending.length≤ maxSize ∧
      (file.pending.splitOn 10).length<2^31-1
  | _ => True

theorem run_spec {ops : List Op} {stack : FileInputStack} {rs : List Reading}
    (hops : ∀ op∈ops,op.Fits maxSize) (h : List.Forall₂ (Follows maxSize) stack rs)
    (rline : List UInt8) : ∃ stack',run maxSize rline stack ops=.ok (read rs ops,stack') := by
  induction ops generalizing stack rs rline with
  | nil => exact ⟨stack,rfl⟩
  | cons op ops ih =>
    have hops' : ∀ op∈ops,op.Fits maxSize := fun op hm => hops op (List.mem_cons_of_mem _ hm)
    have hstep : ∃ e rline' stack' rs',step maxSize rline stack op=.ok (e,rline',stack') ∧
        List.Forall₂ (Follows maxSize) stack' rs' ∧ read rs (op::ops)=e::read rs' ops := by
      cases op with
      | push name file fd =>
        obtain ⟨hopen,hsize,hbound⟩ := hops (.push name file fd) (List.mem_cons_self ..)
        exact ⟨_,_,_,⟨file.pending.splitOn 10,0⟩::rs,rfl,.cons ⟨hopen.inOrder,hsize,hopen.lines 10,rfl,Nat.zero_le _,hbound⟩ h,rfl⟩
      | getline =>
        obtain ⟨rline',stack',heq,hfollows⟩ := getline_spec h rline
        exact ⟨_,_,_,_,heq,hfollows,rfl⟩
      | getlineSameFile =>
        obtain ⟨rline',stack',heq,hfollows⟩ := getlineSameFile_spec h rline
        exact ⟨_,_,_,_,heq,hfollows,rfl⟩
    obtain ⟨e,rline',stack',rs',heq,hfollows,hread⟩ := hstep
    obtain ⟨stack'',hrun⟩ := ih hops' hfollows rline'
    unfold run
    rw [heq]
    dsimp only
    rw [hrun,hread]
    exact ⟨stack'',rfl⟩

/-- The lines that are read are the lines of the files: a stream gives the pieces between the
newlines, and then nothing; a stack gives those of the innermost file first, with their numbers. -/
theorem input_lines (rline : List UInt8) :
    (∀ s : Istream,s.Opened → s.pending.length≤ maxSize → ∀ n,
      callLines maxSize rline n s=
        ((s.pending.splitOn 10).map some++List.replicate n none).take n) ∧
    ∀ ops,(∀ op∈ops,Op.Fits maxSize op) →
      ∃ stack,run maxSize rline [] ops=.ok (read [] ops,stack) := by
  constructor
  · intro s hopen hsize n
    rw [callLines_eq hopen.inOrder hsize,hopen.lines]
  · intro ops hops
    exact run_spec hops .nil rline

end

/-- A content of two lines, in reads of which one is interrupted and one is short -/
def twoLines : Istream :=
  ⟨some ⟨fun _ => 0,0,0⟩,[97,10,98],[.failed ⟨4,by decide⟩,.bytes 1],false,false,0⟩

theorem twoLines_opened : twoLines.Opened := by
  refine ⟨⟨_,rfl,.start _⟩,fun e he => ?_,rfl,rfl,rfl⟩
  have hmem : e=⟨4,by decide⟩ := by simpa [twoLines] using he
  rw [hmem]
  rfl

theorem input_lines_two :
    Istream.callLines 8 [] 3 twoLines=[some [97],some [98],none] ∧
      ∃ stack,run 8 [] [] [.push [] twoLines 3,.getline,.push [] twoLines 4,.getline,
          .getlineSameFile,.getlineSameFile,.getline,.getline]=
        .ok ([.pushed,.line [97] (some 1),.pushed,.line [97] (some 1),.line [98] (some 2),.ended,
          .line [98] (some 2),.ended],stack) := by
  obtain ⟨hstream,hstack⟩ := @input_lines 8 []
  refine ⟨hstream twoLines twoLines_opened (by decide) 3,hstack _ fun op hm => ?_⟩
  have hfits : ∀ fd,(Op.push [] twoLines fd).Fits 8 := fun fd =>
    ⟨twoLines_opened,by decide,by decide⟩
  simp only [List.mem_cons,List.not_mem_nil,or_false] at hm
  obtain rfl | rfl | rfl | rfl | rfl | rfl | rfl | rfl := hm
  · exact hfits 3
  · trivial
  · exact hfits 4
  all_goals trivial

theorem run_failed {maxSize : Nat} {rline : List UInt8} {stack : FileInputStack} {op : Op}
    {ops : List Op} {f : InputFault} (h : step maxSize rline stack op=.error f) :
    run maxSize rline stack (op::ops)=.error f := by
  unfold run
  rw [h]

theorem run_fails_later {maxSize : Nat} {rline rline' : List UInt8} {stack stack' : FileInputStack}
    {op : Op} {ops : List Op} {e : Event} {f : InputFault}
    (h : step maxSize rline stack op=.ok (e,rline',stack'))
    (hf : run maxSize rline' stack' ops=.error f) :
    run maxSize rline stack (op::ops)=.error f := by
  unfold run
  rw [h]
  dsimp only
  rw [hf]

/-- The number of a line is an `int`; the call that finds no line adds one to it as well. -/
theorem run_overflow {maxSize k : Nat} {s : Istream} {ls : List (List UInt8)} (h : s.InOrder)
    (hsize : s.pending.length≤ maxSize) (hls : s.lines 10=ls) (hk : k+ls.length=2^31-1)
    (rline name : List UInt8) (fd : Int) :
    run maxSize rline [⟨s,name,k,fd⟩] (List.replicate (ls.length+1) .getline)=.error .overflow := by
  induction ls generalizing s k rline with
  | nil =>
    rw [List.length_nil] at hk
    have hnum : nextLineNum (k : Int)=.error .overflow := if_neg (by omega)
    refine run_failed ?_
    unfold step getline
    rw [hnum]
    rfl
  | cons l ls ih =>
    rw [List.length_cons] at hk
    have hnum : nextLineNum (k : Int)=.ok (k+1 : Nat) := if_pos (by omega)
    obtain ⟨hnone,-⟩ | ⟨l',s',hline,heq,horder,hle⟩ :=
      getLineUntilEofNx_spec 10 h hsize rline
    · rw [hls] at hnone
      cases hnone
    · rw [hls] at hline
      obtain ⟨rfl,hrest⟩ := List.cons.inj hline
      have hstep : step maxSize rline [⟨s,name,k,fd⟩] .getline=
          .ok (event (true,l,[⟨s',name,(k+1 : Nat),fd⟩])) := by
        unfold step getline
        rw [hnum,heq]
        rfl
      rw [List.length_cons,List.replicate_succ]
      exact run_fails_later hstep
        (ih horder (Nat.le_trans hle hsize) hrest.symm (by omega) l)

/-- A file with `2^31-1` lines: when they have all been read, the next call overflows. -/
theorem line_num_overflow : ∃ file : Istream,file.Opened ∧
    (file.pending.splitOn 10).length=2^31-1 ∧
    run file.pending.length [] [] (.push [] file 3::
      List.replicate ((file.pending.splitOn 10).length+1) .getline)=.error .overflow := by
  obtain ⟨ls,hls,hnl⟩ : ∃ ls : List (List UInt8),ls.length=2^31-1 ∧ ∀ l∈ls,10∉l := by
    refine ⟨.replicate _ [],List.length_replicate,fun l hl => ?_⟩
    rw [List.eq_of_mem_replicate hl]
    exact List.not_mem_nil
  have hne : ls≠[] := fun h0 => by
    rw [h0,List.length_nil] at hls
    omega
  have hsplit := List.splitOn_intercalate 10 hnl hne
  generalize List.intercalate [10] ls=content at hsplit
  have hopen : (Istream.mk (some ⟨fun _ => 0,0,0⟩) content [] false false 0).Opened :=
    ⟨⟨_,rfl,.start _⟩,fun e he => absurd he List.not_mem_nil,rfl,rfl,rfl⟩
  have hpending : (Istream.mk (some ⟨fun _ => 0,0,0⟩) content [] false false 0).pending=content := rfl
  have hlines := hopen.lines 10
  rw [hpending,hsplit] at hlines
  refine ⟨_,hopen,by rw [hpending,hsplit,hls],?_⟩
  rw [hpending,hsplit,← hlines]
  rw [hlines]
  exact run_fails_later rfl
    (run_overflow (k := 0) hopen.inOrder (Nat.le_refl _) hlines (by rw [hls]; rfl) [] [] 3)

end FileInputStack

end Dinit
