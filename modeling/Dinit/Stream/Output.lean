import Mathlib.Algebra.GroupWithZero.Nat
import Dinit.Control.Cpbuffer

namespace Dinit

abbrev Streambuf := Cpbuffer 16384

/-- The number of an error. It is never zero. -/
structure Errno where
  code : Nat
  ne : code≠0

def eintr : Nat := 4

/-- What a `read` or a `writev` does: it fails, or it moves so many bytes at most. -/
inductive Moved
  | failed (e : Errno)
  | bytes (n : Nat)

/-- A descriptor that is written to: the bytes it has accepted, what each `writev` will do, and
`errno` -/
structure Sink where
  accepted : List UInt8
  results : List Moved
  errno : Nat

/-- `writev_unintr` with its pieces put together. The count is kept in an `int`. -/
def writevUnintr (data accepted : List UInt8) (errno : Nat) : List Moved → Option (Int × Sink)
  | [] => none
  | .failed e::results =>
    if e.code=eintr then writevUnintr data accepted e.code results
    else some (-1,⟨accepted,results,e.code⟩)
  | .bytes n::results =>
    let r := asInt (data.take n).length
    if r<1 ∧ errno=eintr then writevUnintr data (accepted++data.take n) errno results
    else some (r,⟨accepted++data.take n,results,errno⟩)

/-- `ostream`. There may be no memory for the buffer. -/
structure Ostream where
  buf : Option Streambuf
  ioError : Nat

namespace Ostream

/-- `current_state`: `buffer_fail_bit` and `io_fail_bit` -/
def currentState (o : Ostream) : Nat :=
  (if o.buf.isNone then 0x02 else 0) ||| (if o.ioError≠0 then 0x08 else 0)

def good (o : Ostream) : Bool := o.currentState=0

def clear (o : Ostream) : Ostream := {o with ioError := 0}

/-- The content of the buffer in one or two pieces -/
def pieces (b : Streambuf) : List UInt8 :=
  let ptr := b.getPtr 0
  let len := b.getContiguousLength ptr
  b.slice ptr len++if b.length≠len then b.slice 0 (b.length-len) else []

/-- The loop of `put`. There is one round for each result at most, and one more. -/
def putLoop (count : Nat) :
    Nat → Streambuf → List UInt8 → Sink → Option (Int × Ostream × Sink)
  | 0,_,_,_ => none
  | fuel+1,b,msg,d =>
    if (16384-b.length).toNat< msg.length then
      match writevUnintr (pieces b++msg) d.accepted d.errno d.results with
      | none => none
      | some (written,d) =>
        if written<0 then
          some (if 0<count-msg.length then (count-msg.length : Nat) else -1,⟨some b,d.errno⟩,d)
        else if b.length.toNat≤ written.toNat then
          let written := written.toNat-b.length.toNat
          let b := b.consume b.length
          if msg.length-written=0 then some (count,⟨some b,0⟩,d)
          else putLoop count fuel b (msg.drop written) d
        else putLoop count fuel (b.consume (.ofNat written.toNat)) msg d
    else some (count,⟨some (b.append msg),0⟩,d)

def put (o : Ostream) (msg : List UInt8) (d : Sink) : Option (Int × Ostream × Sink) :=
  match o.buf with
  | none => some (-1,o,d)
  | some b =>
    if !o.good then some (-1,o,d)
    else if msg.length=0 then some (0,o,d)
    else putLoop msg.length (d.results.length+1) b msg d

def flushLoop : Nat → Streambuf → Sink → Option (Bool × Ostream × Sink)
  | 0,_,_ => none
  | fuel+1,b,d =>
    if 0<b.length then
      match writevUnintr (pieces b) d.accepted d.errno d.results with
      | none => none
      | some (r,d) =>
        if r<0 then some (false,⟨some b,d.errno⟩,d)
        else flushLoop fuel (b.consume (.ofNat r.toNat)) d
    else some (true,⟨some b,0⟩,d)

def flushNx (o : Ostream) (d : Sink) : Option (Bool × Ostream × Sink) :=
  match o.buf with
  | none => some (false,o,d)
  | some b => if !o.good then some (false,o,d) else flushLoop (d.results.length+1) b d

/-- What is in the buffer -/
def pending (o : Ostream) : List UInt8 := o.buf.elim [] Cpbuffer.contents

/-- The calls on a stream -/
inductive Call
  | put (msg : List UInt8)
  | flushNx
  | clear

/-- What a call returns -/
inductive Reply
  | count (ret : Int)
  | flag (ok : Bool)
  | done

def call (o : Ostream) (d : Sink) : Call → Option (Reply × Ostream × Sink)
  | .put msg => (o.put msg d).map fun p => (.count p.1,p.2)
  | .flushNx => (o.flushNx d).map fun p => (.flag p.1,p.2)
  | .clear => some (.done,o.clear,d)

/-- One call after another. There is no result where a call has not returned. -/
def calls (o : Ostream) (d : Sink) : List Call → Option (List Reply × Ostream × Sink)
  | [] => some ([],o,d)
  | c::cs =>
    match o.call d c with
    | none => none
    | some (r,o,d) => (calls o d cs).map fun p => (r::p.1,p.2)

end Ostream

end Dinit
