namespace Dinit.Digits

/-- `type_max_num_digits` with a number to count the digits of -/
def countDigits (num pow : Nat) : Nat :=
  if num=0 then pow else countDigits (num/10) (pow+1)
termination_by num
decreasing_by omega

/-- `type_max_num_digits` for an integral type of `w` bits -/
def typeMaxNumDigits (signed : Bool) (w : Nat) : Nat :=
  if signed then countDigits (max (BitVec.intMax w).toNat (-BitVec.intMin w).toNat) 0
  else countDigits (BitVec.allOnes w).toNat 0

/-- The value of a signed or an unsigned type -/
def asInt {w : Nat} (signed : Bool) (val : BitVec w) : Int := if signed then val.toInt else val.toNat

/-- Storing through a pointer into a buffer. There is no result if it points outside. -/
def store (buf : List UInt8) (p : Nat) (c : UInt8) : Option (List UInt8) :=
  if p<buf.length then some (buf.set p c) else none

/-- `std::swap` of two characters of a buffer -/
def swap (buf : List UInt8) (p q : Nat) : Option (List UInt8) :=
  match buf[p]?,buf[q]? with
  | some a,some b => some ((buf.set p b).set q a)
  | _,_ => none

/-- The digits, the least significant first: the buffer, and where they end -/
def putDigits (buf : List UInt8) (cp uval : Nat) : Option (List UInt8 × Nat) :=
  (store buf cp (.ofNat (48+uval%10))).bind fun buf =>
    if uval/10=0 then some (buf,cp+1) else putDigits buf (cp+1) (uval/10)
termination_by uval
decreasing_by omega

def reverseDigits (buf : List UInt8) (firstDigit lastPos : Nat) : Option (List UInt8) :=
  if firstDigit<lastPos then
    (swap buf firstDigit lastPos).bind fun buf => reverseDigits buf (firstDigit+1) (lastPos-1)
  else some buf
termination_by lastPos-firstDigit
decreasing_by omega

/-- The decimal representation of `uval` -/
def putUnsigned {w : Nat} (buf : List UInt8) (cp : Nat) (uval : BitVec w) :
    Option (List UInt8 × Nat) :=
  if uval=0 then (store buf cp 48).map fun buf => (buf,cp+1)
  else (putDigits buf cp uval.toNat).bind fun p =>
    (reverseDigits p.1 cp (p.2-1)).map fun buf => (buf,p.2)

/-- `to_dec_digits` from a position in a buffer on: the buffer, and where the nul is -/
def toDecDigits {w : Nat} (signed : Bool) (buf : List UInt8) (begin : Nat) (val : BitVec w) :
    Option (List UInt8 × Nat) :=
  let negative := decide (asInt signed val<0)
  let minus := if negative then (store buf begin 45).map fun buf => (buf,begin+1) else some (buf,begin)
  let uval := if negative then -val else val
  minus.bind fun p => (putUnsigned p.1 p.2 uval).bind fun p => (store p.1 p.2 0).map fun buf => (buf,p.2)

/-- The size of the buffer in a `dec_digits_buf` -/
def decDigitsBufSize (signed : Bool) (w : Nat) : Nat :=
  typeMaxNumDigits signed w+(if signed then 1 else 0)+1

/-- `buf_print` of a string: the nul is copied with it. -/
def printString (buf : List UInt8) (p : Nat) : List UInt8 → Option (List UInt8 × Nat)
  | [] => (store buf p 0).map fun buf => (buf,p)
  | c::str => (store buf p c).bind fun buf => printString buf (p+1) str

/-- `buf_print` of a string and an `int` -/
def printVariable (buf : List UInt8) (name : List UInt8) (value : BitVec 32) :
    Option (List UInt8 × Nat) :=
  (printString buf 0 name).bind fun p => toDecDigits true p.1 p.2 value

/-- `"LISTEN_PID="` and `"DINIT_CS_FD="` -/
def listenPid : List UInt8 := [76,73,83,84,69,78,95,80,73,68,61]

def dinitCsFd : List UInt8 := [68,73,78,73,84,95,67,83,95,70,68,61]

def nbufSize : Nat := 11+typeMaxNumDigits true 32+1

def csenvbufSize : Nat := 12+typeMaxNumDigits true 32+1

def markerSize : Nat := 1+typeMaxNumDigits true 32+2

/-- The constructor of `ll_marker` -/
def llMarker (buf : List UInt8) (lvl : BitVec 32) : Option (List UInt8) :=
  (store buf 0 60).bind fun buf => (toDecDigits true buf 1 lvl).bind fun p =>
    (store p.1 p.2 62).bind fun buf => store buf (p.2+1) 0

end Dinit.Digits
