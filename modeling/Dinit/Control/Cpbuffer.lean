import Dinit.Framework.Ring

namespace Dinit

open Framework

/-- `cpbuffer`: the memory and two numbers of type `unsigned`. A place in the memory is a pointer. -/
structure Cpbuffer (size : UInt32) where
  buf : Nat → UInt8
  curIdx : UInt32
  length : UInt32

/-- A count that is kept in an `int` -/
def asInt (n : Nat) : Int := (n : Int).bmod (2^32)

theorem asInt_small {n : Nat} (h : n<2^31) : asInt n=n := Int.bmod_eq_of_le (by omega) (by omega)

/-- The memory with `s` from the place `p` on -/
def memcpy (buf : Nat → UInt8) (p : Nat) (s : List UInt8) : Nat → UInt8 :=
  fun q => if p≤ q then s.getD (q-p) (buf q) else buf q

namespace Cpbuffer

variable {size : UInt32}

/-- An index that is past the end goes on from the start. -/
def wrap (size pos : UInt32) : UInt32 := if size≤ pos then pos-size else pos

def getPtr (b : Cpbuffer size) (index : UInt32) : UInt32 := wrap size (b.curIdx+index)

def getContiguousLength (b : Cpbuffer size) (ptr : UInt32) : UInt32 :=
  if b.length=0 then 0
  else
    let eidx := wrap size (b.curIdx+b.length)
    if ptr< eidx then eidx-ptr else size-ptr

def at_ (b : Cpbuffer size) (idx : UInt32) : UInt8 := b.buf (wrap size (b.curIdx+idx)).toNat

/-- How much can be read in one piece -/
def maxCount (b : Cpbuffer size) (limit : Option UInt32) : UInt32 :=
  let pos := wrap size (b.curIdx+b.length)
  limit.elim (min (size-pos) (size-b.length)) (min (min (size-pos) (size-b.length)))

/-- `fill`, from a descriptor with the bytes `fd` to come. `read` fails, or it gives some number of
bytes at most. The result is an `int`. -/
def fill (b : Cpbuffer size) (fd : List UInt8) (limit : Option UInt32) (read : Option Nat) :
    Cpbuffer size × Int × List UInt8 :=
  match read with
  | none => (b,-1,fd)
  | some k =>
    let r := min k (b.maxCount limit).toNat
    let pos := wrap size (b.curIdx+b.length)
    ({b with
      buf := memcpy b.buf pos.toNat (fd.take r)
      length := b.length+.ofNat (fd.take r).length},
      asInt (fd.take r).length,fd.drop r)

/-- `fill_to`. When there are no more reads, the file is at its end. -/
def fillTo (rlength : UInt32) (b : Cpbuffer size) (fd : List UInt8) :
    List (Option Nat) → Cpbuffer size × Int × List UInt8
  | [] => (b,if b.length< rlength then 0 else 1,fd)
  | read::reads =>
    if b.length< rlength then
      let f := b.fill fd none read
      if f.2.1≤ 0 then f else fillTo rlength f.1 f.2.2 reads
    else (b,1,fd)

def trimTo (b : Cpbuffer size) (newLength : UInt32) : Cpbuffer size := {b with length := newLength}

def consume (b : Cpbuffer size) (amount : UInt32) : Cpbuffer size :=
  {b with
    curIdx := wrap size (b.curIdx+amount)
    length := b.length-amount}

/-- The memory from `p` on -/
def slice (b : Cpbuffer size) (p length : UInt32) : List UInt8 :=
  (List.range length.toNat).map fun j => b.buf (p.toNat+j)

def extract (b : Cpbuffer size) (index length : UInt32) : List UInt8 :=
  let index := wrap size (index+b.curIdx)
  if size< index+length then
    let half := size-index
    b.slice index half++b.slice 0 (length-half)
  else b.slice index length

def extractString (b : Cpbuffer size) (index length : UInt32) : List UInt8 :=
  let index := wrap size (index+b.curIdx)
  if size< index+length then b.slice index (size-index)++b.slice 0 (length-(size-index))
  else b.slice index length

def append (b : Cpbuffer size) (s : List UInt8) : Cpbuffer size :=
  let index := wrap size (b.curIdx+b.length)
  let len : UInt32 := .ofNat s.length
  let max := size-index
  let buf := memcpy b.buf index.toNat (s.take (min max len).toNat)
  {b with
    buf := if max< len then memcpy buf 0 ((s.drop max.toNat).take (len-max).toNat) else buf
    length := b.length+len}

def reset (b : Cpbuffer size) : Cpbuffer size := {b with curIdx := 0,length := 0}

/-- The bytes in the buffer: as many as its length says, from its index on -/
def contents (b : Cpbuffer size) : List UInt8 :=
  (List.range b.length.toNat).map fun i => b.buf ((b.curIdx.toNat+i)%size.toNat)

theorem contents_length (b : Cpbuffer size) : b.contents.length=b.length.toNat := by
  simp [contents]

theorem contents_getElem? {b : Cpbuffer size} {i : Nat} (h : i< b.length.toNat) :
    b.contents[i]?=some (b.buf ((b.curIdx.toNat+i)%size.toNat)) := by simp [contents,h]

end Cpbuffer

end Dinit
