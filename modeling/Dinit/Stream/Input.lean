import Mathlib.Algebra.Group.Int.Defs
import Dinit.Stream.Output

namespace Dinit

/-- `istream`, with the bytes of the file that are still to come and what each `read` will do. When
no more is said of the reads, they give as much as fits. -/
structure Istream where
  buf : Option Streambuf
  file : List UInt8
  reads : List Moved
  eofState : Bool
  stringFailed : Bool
  ioError : Nat

namespace Istream

/-- The loop of `load_into_buf`, with the number of bytes (or -1) and the error -/
def load (b : Streambuf) (file : List UInt8) (len : UInt32) :
    List Moved → Int × Nat × Streambuf × List UInt8 × List Moved
  | [] =>
    let f := b.fill file (some len) (some len.toNat)
    (f.2.1,0,f.1,f.2.2,[])
  | .failed e::reads =>
    if e.code=eintr then load b file len reads else (-1,e.code,b,file,reads)
  | .bytes n::reads =>
    let f := b.fill file (some len) (some (max 1 n))
    (f.2.1,0,f.1,f.2.2,reads)

def loadIntoBuf (s : Istream) (b : Streambuf) (len : UInt32) : Int × Streambuf × Istream :=
  match load b s.file len s.reads with
  | (r,errno,b,file,reads) =>
    let s := {s with file := file,reads := reads}
    if r=0 then (-1,b,{s with eofState := true})
    else if r<0 then (-1,b,{s with ioError := errno})
    else (r,b,s)

/-- `current_state`: `eof_bit`, `buffer_fail_bit`, `input_fail_bit` and `io_fail_bit` -/
def currentState (s : Istream) : Nat :=
  (if s.eofState then 0x01 else 0) ||| (if s.buf.isNone then 0x02 else 0) |||
    (if s.stringFailed then 0x04 else 0) ||| (if s.ioError≠0 then 0x08 else 0)

def good (s : Istream) : Bool := s.currentState=0

/-- The loop of `get_line_nx`. Each round takes something from the buffer, which is not empty. A
string has `maxSize` bytes at most. -/
def lineLoop (maxSize : Nat) (delim : UInt8) :
    Nat → Istream → Streambuf → List UInt8 → Bool × List UInt8 × Istream
  | 0,s,b,dest => (false,dest,{s with buf := some b})
  | fuel+1,s,b,dest =>
    let ptr := b.getPtr 0
    let len := b.getContiguousLength ptr
    let piece := b.slice ptr len
    let index := piece.findIdx (·==delim)
    if index=piece.length then
      if maxSize<dest.length+piece.length then
        (false,dest,{s with buf := some b,stringFailed := true})
      else
        let b := b.consume len
        if b.length=0 then
          match loadIntoBuf s b 16384 with
          | (r,b,s) =>
            if r≤ 0 then (false,dest++piece,{s with buf := some b})
            else lineLoop maxSize delim fuel s b (dest++piece)
        else lineLoop maxSize delim fuel s b (dest++piece)
    else if maxSize<dest.length+index then
      (false,dest,{s with buf := some b,stringFailed := true})
    else (true,dest++piece.take index,{s with buf := some (b.consume (.ofNat (index+1)))})

/-- `get_line_nx` from the first byte on: a line may be empty. -/
def firstLine (maxSize : Nat) (delim : UInt8) (s : Istream) (b : Streambuf) :
    Bool × List UInt8 × Istream :=
  let ptr := b.getPtr 0
  let len := b.getContiguousLength ptr
  if (b.slice ptr len).head?=some delim then (true,[],{s with buf := some (b.consume 1)})
  else lineLoop maxSize delim (b.length.toNat+s.file.length+1) s b []

def getLineNx (maxSize : Nat) (s : Istream) (dest : List UInt8) (delim : UInt8) :
    Bool × List UInt8 × Istream :=
  match s.buf with
  | none => (false,dest,s)
  | some b =>
    if !s.good then (false,dest,s)
    else if b.length=0 then
      match loadIntoBuf s b 16384 with
      | (r,b,s) =>
        if r≤ 0 then (false,[],{s with buf := some b}) else firstLine maxSize delim s b
    else firstLine maxSize delim s b

def getLineUntilEofNx (maxSize : Nat) (s : Istream) (dest : List UInt8) (delim : UInt8) :
    Bool × List UInt8 × Istream :=
  if !s.good then (false,dest,s)
  else
    match s.getLineNx maxSize dest delim with
    | (true,dest,s) => (true,dest,s)
    | (false,dest,s) => (!(s.ioError≠0 || s.stringFailed),dest,s)

end Istream

/-- What ends a call in another way: an exception, or an `int` that overflows -/
inductive InputFault
  | badAlloc
  | system (errno : Nat)
  | overflow
deriving DecidableEq

/-- `input_file` of a `file_input_stack` -/
structure InputFile where
  stream : Istream
  fileName : List UInt8
  lineNum : Int
  parentDirFd : Int

/-- `file_input_stack`, from its top on -/
abbrev FileInputStack := List InputFile

namespace FileInputStack

def push (stack : FileInputStack) (fileName : List UInt8) (file : Istream) (parentDirFd : Int) :
    FileInputStack := ⟨file,fileName,0,parentDirFd⟩::stack

/-- `throw_exception_on` with all states but the end of the file -/
def throwException (s : Istream) : Except InputFault Unit :=
  if s.buf.isNone || s.stringFailed then .error .badAlloc
  else if s.ioError≠0 then .error (.system s.ioError)
  else .ok ()

/-- `line_num++` -/
def nextLineNum (n : Int) : Except InputFault Int :=
  if n<2^31-1 then .ok (n+1) else .error .overflow

def getline (maxSize : Nat) (rline : List UInt8) :
    FileInputStack → Except InputFault (Bool × List UInt8 × FileInputStack)
  | [] => .ok (false,rline,[])
  | top::stack => do
    let lineNum ← nextLineNum top.lineNum
    match top.stream.getLineUntilEofNx maxSize rline 10 with
    | (true,rline,stream) => .ok (true,rline,{top with stream := stream,lineNum := lineNum}::stack)
    | (false,rline,stream) =>
      throwException stream
      getline maxSize rline stack

/-- `getline_same_file`: a file that is at its end stays. -/
def getlineSameFile (maxSize : Nat) (rline : List UInt8) :
    FileInputStack → Except InputFault (Bool × List UInt8 × FileInputStack)
  | [] => .ok (false,rline,[])
  | top::stack => do
    match top.stream.getLineUntilEofNx maxSize rline 10 with
    | (true,rline,stream) =>
      let lineNum ← nextLineNum top.lineNum
      .ok (true,rline,{top with stream := stream,lineNum := lineNum}::stack)
    | (false,rline,stream) =>
      throwException stream
      .ok (false,rline,{top with stream := stream}::stack)

/-- `current_line`: the `int` as an `unsigned` -/
def currentLine (stack : FileInputStack) : Option UInt32 :=
  stack.head?.map fun top => .ofNat (top.lineNum%2^32).toNat

end FileInputStack

end Dinit
