import Mathlib.Algebra.GroupWithZero.Nat
import Mathlib.Algebra.Group.Int.Defs
import Dinit.Framework.Descriptors
import Dinit.Stream.Output

namespace Dinit

open Framework

namespace Files

/-- What the system finds at a directory. A relative path goes on from the directory, and an absolute
one from the root. The current directory is `.` from itself. -/
structure FileSystem (N : Type) where
  openDir : N → List UInt8 → Except Errno N
  openFile : N → List UInt8 → Except Errno N
  readlink : N → List UInt8 → Except Errno (List UInt8)
  dup : N → Except Errno Unit
  dot : ∀ {d d' : N},openDir d [46]=.ok d' → d'=d

/-- What is done with descriptors -/
inductive Event
  | opened (fd : Int)
  | closed (fd : Int)

/-- The descriptors that are open, `errno`, and what has been done -/
structure Os (N : Type) where
  table : Table N
  errno : Nat
  log : List Event

def atFdcwd : Int := -100

def eloop : Nat := 40

def enoent : Nat := 2

def ebadf : Nat := 9

namespace Os

variable {N : Type}

/-- A descriptor as the one a path is taken from -/
def node (cwd : N) (os : Os N) (fd : Int) : Option N :=
  if fd=atFdcwd then some cwd else if 0≤ fd then os.table.get fd.toNat else none

/-- A call that opens something: its result is the lowest free number. -/
def opening (os : Os N) : Except Errno N → Int × Os N
  | .error e => (-1,{os with errno := e.code})
  | .ok n =>
    let fd := os.table.lowest 0
    (fd,{os with table := os.table.put fd (some n),log := os.log++[.opened fd]})

def openat (os : Os N) (cwd : N) (fd : Int) (call : N → Except Errno N) : Int × Os N :=
  match os.node cwd fd with
  | none => (-1,{os with errno := ebadf})
  | some n => os.opening (call n)

def close (os : Os N) (fd : Int) : Os N :=
  if 0≤ fd ∧ (os.table.get fd.toNat).isSome then
    {os with table := os.table.put fd.toNat none,log := os.log++[.closed fd]}
  else {os with errno := ebadf,log := os.log++[.closed fd]}

def closeIf (os : Os N) (c : Bool) (fd : Int) : Os N := if c then os.close fd else os

end Os

/-- `parent_path` -/
def parentPath (p : List UInt8) : List UInt8 :=
  if p.contains 47 then
    let dir := ((p.reverse.dropWhile (·≠47)).dropWhile (·=47)).reverse
    if dir.length=0 then [47] else dir
  else []

/-- `base_name` -/
def baseName (path : List UInt8) : List UInt8 := (path.reverse.takeWhile (·≠47)).reverse

/-- The directory part and the last part of the target of a link. The last part may be empty; then there
is no path to go on with. A directory part of one byte is taken to be the root. -/
def splitTarget (path : List UInt8) : Option (List UInt8 × List UInt8) :=
  let base := baseName path
  if base.length=path.length then some ([],base)
  else if base.length=0 then none
  else
    let parent := parentPath (path.take (path.length-base.length))
    some (if parent.length=1 then [47] else parent,base)

/-- Where a round of the loop starts: the path, the descriptor it is taken from, and whether that is to
be closed -/
structure Start where
  dirname : List UInt8
  basename : List UInt8
  resolveFd : Int
  closeResolveFd : Bool

/-- How a round ends: the function returns, or there is a link to be followed, or the number of links
overflows. -/
inductive Round (N : Type)
  | done (parent file : Int) (os : Os N)
  | follow (next : Start) (os : Os N)
  | overflow

section
variable {N : Type} (fs : FileSystem N) (cwd : N)

/-- The parent directory: its descriptor, and whether that is to be closed -/
def openParent (s : Start) (os : Os N) : Int × Bool × Os N :=
  if s.dirname.length=0 then (s.resolveFd,s.closeResolveFd,os)
  else
    match os.openat cwd s.resolveFd fun n => fs.openDir n s.dirname with
    | (parent,os) => (parent,true,os.closeIf s.closeResolveFd s.resolveFd)

/-- What follows when the last part is a link -/
def followLink (times : Int) (parent : Int) (closeParent : Bool) (basename : List UInt8) (os : Os N) :
    Round N :=
  if times=0 then .done (-1) eloop (os.closeIf closeParent parent)
  else if times≤ -2^63 then .overflow
  else
    match os.node cwd parent with
    | none =>
      let os := {os with errno := ebadf}.closeIf closeParent parent
      .done (-1) os.errno os
    | some n =>
      match fs.readlink n basename with
      | .error e =>
        let os := {os with errno := e.code}.closeIf closeParent parent
        .done (-1) os.errno os
      | .ok path =>
        match splitTarget path with
        | none => .done (-1) enoent (os.closeIf closeParent parent)
        | some (dirname,basename) => .follow ⟨dirname,basename,parent,true⟩ os

/-- A directory that was not opened gets a descriptor of its own. -/
def ownParent (parent file : Int) (closeParent : Bool) (os : Os N) : Round N :=
  if closeParent then .done parent file os
  else
    match (if parent=atFdcwd then os.openat cwd atFdcwd fun n => fs.openDir n [46]
      else os.openat cwd parent fun n => (fs.dup n).map fun _ => n) with
    | (parent,os) =>
      if parent=-1 then
        let os := os.close file
        .done (-1) os.errno os
      else .done parent file os

def round (times : Int) (s : Start) (os : Os N) : Round N :=
  match openParent fs cwd s os with
  | (parent,closeParent,os) =>
    if parent=-1 ∧ 0<s.dirname.length then .done (-1) os.errno os
    else
      match os.openat cwd parent fun n => fs.openFile n s.basename with
      | (file,os) =>
        if file=-1 then
          if os.errno=eloop then followLink fs cwd times parent closeParent s.basename os
          else
            let os := os.closeIf closeParent parent
            .done (-1) os.errno os
        else ownParent fs cwd parent file closeParent os

end

/-- `open_with_dir` from `begin` on, with `times` links that may be followed. The file system may be
another one in each round. -/
def openLoop {N : Type} (fs : Nat → FileSystem N) (cwd : N) (times : Int) (k : Nat) (s : Start)
    (os : Os N) : Option ((Int × Int) × Os N) :=
  match round (fs k) cwd times s os with
  | .done parent file os => some ((parent,file),os)
  | .overflow => none
  | .follow s os =>
    if times≤ -2^63 then none else openLoop fs cwd (times-1) (k+1) s os
termination_by (times+2^63).toNat

/-- `symloopMax` is what `sysconf` returns. -/
def openWithDir {N : Type} (fs : Nat → FileSystem N) (cwd : N) (symloopMax : Int)
    (dirname basename : List UInt8) (resolveFd : Int) (os : Os N) :
    Option ((Int × Int) × Os N) :=
  openLoop fs cwd symloopMax 0 ⟨dirname,basename,resolveFd,false⟩ os

end Files

end Dinit
