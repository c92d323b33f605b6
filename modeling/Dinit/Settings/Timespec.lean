import Dinit.Framework.Numeral

namespace Dinit

open Framework.Numeral

/-- What `parse_timespec` can come to besides a time: it throws, or a number is too large for its
type. -/
inductive TimeFault
  | descriptionError (message : String)
  | overflow
deriving DecidableEq

/-- The largest `time_t` and the largest `long` -/
def timeMax : Nat := 2^63-1

def longMax : Nat := 2^63-1

def maxSecs : Nat := timeMax/10

/-- The result of an operation, if its type can hold it -/
def checked (max n : Nat) : Except TimeFault Nat := if n≤ max then .ok n else .error .overflow

def badTime (paramName : String) : TimeFault := .descriptionError ("bad value for "++paramName)

def largeTime (paramName : String) : TimeFault :=
  .descriptionError ("too-large value for "++paramName)

/-- The loop over the integer part; what follows the point or the comma is left. -/
def parseSeconds (paramName : String) : List UInt8 → Nat → Except TimeFault (Nat × List UInt8)
  | [],isec => .ok (isec,[])
  | ch::rest,isec =>
    if ch=46 ∨ ch=44 then .ok (isec,rest)
    else if ch<48 ∨ 57<ch then .error (badTime paramName)
    else if maxSecs≤ isec then .error (largeTime paramName)
    else do
      let isec ← checked timeMax (isec*10)
      let isec ← checked timeMax (isec+(ch.toNat-48))
      parseSeconds paramName rest isec

/-- The loop over the fraction, with the value of a digit in nanoseconds -/
def parseFraction (paramName : String) : List UInt8 → Nat → Nat → Except TimeFault Nat
  | [],insec,_ => .ok insec
  | ch::rest,insec,insecM =>
    if ch<48 ∨ 57<ch then .error (badTime paramName)
    else do
      let part ← checked longMax ((ch.toNat-48)*insecM)
      let insec ← checked longMax (insec+part)
      parseFraction paramName rest insec (insecM/10)

/-- `parse_timespec`: seconds and nanoseconds -/
def parseTimespec (paramName : String) (paramval : List UInt8) : Except TimeFault (Nat × Nat) := do
  let (isec,rest) ← parseSeconds paramName paramval 0
  let insec ← parseFraction paramName rest 0 100000000
  .ok (isec,insec)

end Dinit
