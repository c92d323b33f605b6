import Mathlib.Data.Int.Order.Basic
import Mathlib.Data.Prod.Lex
import Mathlib.Order.Lattice

namespace Dinit

/-- `time_val`, a `timespec` -/
structure TimeVal where
  sec : Int
  nsec : Int
  deriving DecidableEq

namespace TimeVal

/-- `compare_timespec`, and the comparisons of `time_val` -/
instance : LinearOrder TimeVal :=
  LinearOrder.lift' (fun t => toLex (t.sec,t.nsec)) fun s t h => by
    cases s
    cases t
    simpa using h

theorem lt_iff {s t : TimeVal} : s<t ↔ s.sec<t.sec ∨ s.sec=t.sec ∧ s.nsec<t.nsec :=
  Prod.Lex.toLex_lt_toLex

theorem le_iff {s t : TimeVal} : s≤t ↔ s.sec<t.sec ∨ s.sec=t.sec ∧ s.nsec≤t.nsec :=
  Prod.Lex.toLex_le_toLex

def sub (t1 t2 : TimeVal) : TimeVal :=
  if t2.nsec≤t1.nsec then ⟨t1.sec-t2.sec,t1.nsec-t2.nsec⟩
  else ⟨t1.sec-t2.sec-1,1000000000-t2.nsec+t1.nsec⟩

def add (t1 t2 : TimeVal) : TimeVal :=
  if 1000000000≤t1.nsec+t2.nsec then ⟨t1.sec+t2.sec+1,t1.nsec+t2.nsec-1000000000⟩
  else ⟨t1.sec+t2.sec,t1.nsec+t2.nsec⟩

/-- `t <<= 1` -/
def double (t : TimeVal) : TimeVal :=
  if 1000000000≤t.nsec*2 then ⟨t.sec*2+1,t.nsec*2-1000000000⟩ else ⟨t.sec*2,t.nsec*2⟩

/-- `t >>= 1` -/
def halve (t : TimeVal) : TimeVal :=
  ⟨t.sec.tdiv 2,t.nsec.tdiv 2+if t.sec%2=1 then 500000000 else 0⟩

/-- The first loop of `divide_timespec`: `d` is doubled until it has as many seconds as `r`. With
room in an `int` for `k` doublings of `nval`, none if that overflows. -/
def shiftDen (r : TimeVal) : Nat → TimeVal → Nat → Option (TimeVal × Nat)
  | 0,d,nval => if d.sec< r.sec then none else some (d,nval)
  | k+1,d,nval => if d.sec< r.sec then shiftDen r k d.double (nval*2) else some (d,nval)

/-- The second loop: `d` is halved, and subtracted from `r` where it fits. -/
def subtractDen (d : TimeVal) (nval : Nat) (rval : Int) (r : TimeVal) : Int × TimeVal :=
  if 0<nval then
    if d≤ r then subtractDen d.halve (nval/2) (rval+nval) (r.sub d)
    else subtractDen d.halve (nval/2) rval r
  else (rval,r)
termination_by nval

/-- `divide_timespec`: the quotient, and `rem` -/
def divideTimespec (num den : TimeVal) : Option (Int × TimeVal) :=
  if num.sec<den.sec then some (0,num)
  else if num.sec=den.sec then
    if num.nsec<den.nsec then some (0,num)
    else if num.sec=0 then some (num.nsec.tdiv den.nsec,⟨0,num.nsec.tmod den.nsec⟩)
    else some (1,⟨0,num.nsec-den.nsec⟩)
  else
    let r := num.sub den
    if r<den then some (1,r)
    -- 1 can be doubled 30 times in an `int`
    else (shiftDen r 30 den 1).map fun (d,nval) => subtractDen d nval 1 r

end TimeVal
end Dinit
