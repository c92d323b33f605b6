import Dinit.Control.EnvFile

namespace Dinit

def digitValue (c : UInt8) : Nat :=
  if 97≤ c then c.toNat-87 else if 65≤ c then c.toNat-55 else c.toNat-48

/-- A digit in a base that `strtoull` chooses -/
def isDigit (base : Nat) (c : UInt8) : Bool :=
  if base=8 then 48≤ c && c≤55
  else if base=10 then 48≤ c && c≤57
  else (48≤ c && c≤57) || (65≤ c && c≤70) || (97≤ c && c≤102)

/-- Is there a minus sign, and what follows the sign -/
def numberSign : List UInt8 → Bool × List UInt8
  | [] => (false,[])
  | c::t => if c=45 then (true,t) else if c=43 then (false,t) else (false,c::t)

/-- The base and the digits, without `0x` -/
def numberBase : List UInt8 → Nat × List UInt8
  | [] => (10,[])
  | [c] => if c=48 then (8,[c]) else (10,[c])
  | [c,x] => if c=48 then (8,[c,x]) else (10,[c,x])
  | c::x::d::t =>
    if c=48 then if (x=120 ∨ x=88) ∧ isDigit 16 d=true then (16,d::t) else (8,c::x::d::t)
    else (10,c::x::d::t)

def numberValue (base : Nat) (digits : List UInt8) : Nat :=
  digits.foldl (fun n c => base*n+digitValue c) 0

/-- The largest `unsigned long long`, and the largest `rlim_t`, which is as wide -/
def ullongMax : Nat := 2^64-1

def rlimMax : Nat := 2^64-1

def rlimInfinity : Nat := 2^64-1

/-- What `strtoull` returns, where it stops, and whether it sets `errno` to `ERANGE` -/
structure Conversion where
  limit : Nat
  nindex : List UInt8
  erange : Bool
deriving DecidableEq

/-- `strtoull` with base 0 -/
def strtoull (nptr : List UInt8) : Conversion :=
  let sign := numberSign (nptr.dropWhile isSpace)
  let number := numberBase sign.2
  let digits := number.2.takeWhile (isDigit number.1)
  let value := numberValue number.1 digits
  if digits=[] then ⟨0,nptr,false⟩
  else if ullongMax< value then ⟨ullongMax,number.2.dropWhile (isDigit number.1),true⟩
  else ⟨if sign.1 then (2^64-value)%2^64 else value,number.2.dropWhile (isDigit number.1),false⟩

structure ServiceRlimits where
  resourceId : Int
  softSet : Bool := false
  hardSet : Bool := false
  rlimCur : Nat := 0
  rlimMax : Nat := 0
deriving DecidableEq

/-- `parse_rlimit` from where `index` is at the colon. -/
def parseHardLimit (index : List UInt8) (paramName : String) (rlimit : ServiceRlimits) :
    Except String ServiceRlimits :=
  match index.tail with
  | [] => .ok rlimit
  | c::t =>
    let rlimit := {rlimit with hardSet := true}
    if c=45 then
      if t≠[] then .error (paramName++": bad value.") else .ok {rlimit with rlimMax := rlimInfinity}
    else
      let limit := strtoull (c::t)
      if limit.erange=true ∨ rlimMax< limit.limit then .error (paramName++": too-large value.")
      else if limit.nindex=c::t then .error (paramName++": bad value.")
      else .ok {rlimit with rlimMax := limit.limit}

/-- `parse_rlimit` from where `index` is behind the soft limit. -/
def parseAfterSoft (index : List UInt8) (paramName : String) (rlimit : ServiceRlimits) :
    Except String ServiceRlimits :=
  if index=[] then .ok {rlimit with hardSet := true,rlimMax := rlimit.rlimCur}
  else if index.head?≠some 58 then .error (paramName++": bad value.")
  else parseHardLimit index paramName rlimit

/-- `parse_rlimit`. An error is given by its text. -/
def parseRlimit (line : List UInt8) (paramName : String) (rlimit : ServiceRlimits) :
    Except String ServiceRlimits :=
  let cline := cString line
  let rlimit := {rlimit with hardSet := false,softSet := false}
  if line=[] then .error (paramName++": bad value.")
  else if cline.head?=some 58 then parseHardLimit cline paramName rlimit
  else
    let rlimit := {rlimit with softSet := true}
    if cline.head?=some 45 then
      parseAfterSoft cline.tail paramName {rlimit with rlimCur := rlimInfinity}
    else
      let limit := strtoull cline
      if limit.erange=true ∨ rlimMax< limit.limit then .error (paramName++": too-large value.")
      else if limit.nindex=cline then .error (paramName++": bad value.")
      else parseAfterSoft limit.nindex paramName {rlimit with rlimCur := limit.limit}

def ServiceRlimits.soft (r : ServiceRlimits) : Option Nat := if r.softSet then some r.rlimCur else none

def ServiceRlimits.hard (r : ServiceRlimits) : Option Nat := if r.hardSet then some r.rlimMax else none

end Dinit
