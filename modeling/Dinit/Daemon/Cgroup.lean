import Mathlib.Data.List.Basic

namespace Dinit

/-- What `find_cgroup_path` leaves: the path, if there is one, and whether a byte of the buffer that
was not read has been examined or copied -/
structure CgroupPath where
  path : Option (List UInt8)
  outside : Bool
deriving DecidableEq

namespace CgroupPath

/-- `line_end_pos`, `colon_count` and `second_colon_pos` -/
structure Scan where
  lineEndPos : Option Nat
  colonCount : Nat
  secondColonPos : Nat

/-- The loop over the bytes of a read, from the position of the first on. There is no result where
there is a second line. -/
def scan (pos : Nat) (st : Scan) : List UInt8 → Option Scan
  | [] => some st
  | c::cs =>
    if c=10 then scan (pos+1) {st with lineEndPos := some pos} cs
    else if st.lineEndPos.isSome then none
    else if c=58 then
      scan (pos+1) {st with
        colonCount := st.colonCount+1
        secondColonPos := if st.colonCount+1=2 then pos else st.secondColonPos} cs
    else scan (pos+1) st cs

/-- The loop over the reads; each gives a list of bytes, none where it fails, and an empty one at the
end of the file. There is room for them, as the buffer is made larger when it is full. There is no
result where the function returns. -/
def readLoop (line : List UInt8) (st : Scan) :
    List (Option (List UInt8)) → Option (List UInt8 × Scan)
  | [] => some (line,{st with lineEndPos := st.lineEndPos.or (some (line.length+1))})
  | none::_ => none
  | some r::reads =>
    if r.length=0 then
      some (line,{st with lineEndPos := st.lineEndPos.or (some (line.length+1))})
    else
      match scan line.length st r with
      | none => none
      | some st =>
        if st.lineEndPos.isSome then some (line++r,st) else readLoop (line++r) st reads

section
variable (junk : Nat → UInt8) (line : List UInt8)

/-- `cgroup_line[i]`: behind what was read, the buffer has anything in it. -/
def at_ (i : Nat) : UInt8 := line.getD i (junk i)

/-- What follows the loop -/
def extractPath (st : Scan) : CgroupPath :=
  let lineEndPos := st.lineEndPos.getD 0
  if st.colonCount<2 || lineEndPos-st.secondColonPos=1 then ⟨none,false⟩
  else if at_ junk line (st.secondColonPos+1)≠47 then
    ⟨none,line.length≤ st.secondColonPos+1⟩
  else
    let firstCharPos := st.secondColonPos+2
    ⟨some ((List.range (lineEndPos-firstCharPos)).map fun i => at_ junk line (firstCharPos+i)),
      line.length≤ st.secondColonPos+1 || line.length<lineEndPos⟩

end

/-- `find_cgroup_path`, with the path there is already, and the reads, if the file can be opened -/
def findCgroupPath (junk : Nat → UInt8) (cgroupsPath : Option (List UInt8))
    (file : Option (List (Option (List UInt8)))) : CgroupPath :=
  if cgroupsPath.isSome then ⟨cgroupsPath,false⟩
  else
    match file with
    | none => ⟨none,false⟩
    | some reads =>
      match readLoop [] ⟨none,0,0⟩ reads with
      | none => ⟨none,false⟩
      | some (line,st) => extractPath junk line st

end CgroupPath

end Dinit
