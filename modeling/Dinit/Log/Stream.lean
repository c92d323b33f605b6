import Mathlib.Algebra.Group.Int.Defs
import Dinit.Framework.Ring
import Dinit.Log.Buffer

namespace Dinit

open Framework

/-- What `write` or `writev` does: would block, fails, or accepts so many bytes at most. -/
inductive Write
  | again
  | failed
  | bytes (n : Nat)

/-- `buffered_log_stream`, with its element of `log_current_line` -/
structure LogStream where
  partway : Bool := false
  discarded : Bool := false
  release : Bool := true
  special : Bool := false
  specialBuf : List UInt8 := []
  msgIndex : Nat := 0
  logBuffer : Ring UInt8 4096 := ⟨fun _ => 0,0,0⟩
  currentIndex : Int := 0
  fd : Int := -1
  logCurrentLine : Bool := false

/-- `"dinit: *** log message discarded due to full buffer ***\n"` -/
def discardedNote : List UInt8 :=
  [100,105,110,105,116,58,32,42,42,42,32,108,111,103,32,109,101,115,115,97,103,101,32,100,105,115,99,
    97,114,100,101,100,32,100,117,101,32,116,111,32,102,117,108,108,32,98,117,102,102,101,114,32,42,
    42,42,10]

/-- The bytes at the start of the buffer that are written at once, in one or two spans, and whether
they complete a line -/
def nextLine (r : Ring UInt8 4096) : List UInt8 × Bool :=
  let ptr := r.ptr 0
  let len := r.contiguousLength ptr
  let eptr := (r.slice ptr len).findIdx (·==10)
  if eptr≠len then (r.slice ptr (eptr+1),true)
  else if len≠r.len then
    let rest := r.len-len
    let eptr := (r.slice 0 rest).findIdx (·==10)
    if eptr≠rest then (r.slice ptr len++r.slice 0 (eptr+1),true)
    else (r.slice ptr len++r.slice 0 rest,false)
  else (r.slice ptr len,false)

namespace LogStream

def init (fd : Int) (s : LogStream) : LogStream := {s with fd := fd,release := false}

def commitMsg (s : LogStream) : LogStream := {s with currentIndex := s.logBuffer.len}

/-- `rollback_msg`; the length is unsigned. -/
def rollbackMsg (s : LogStream) : LogStream :=
  {s with logBuffer := s.logBuffer.trimTo (s.currentIndex%2^32).toNat}

def getFree (s : LogStream) : Nat := 4096-s.logBuffer.len

def append (s : LogStream) (text : List UInt8) : LogStream :=
  {s with logBuffer := s.logBuffer.append text}

def markDiscarded (s : LogStream) : LogStream := {s with discarded := true}

def watchRemoved (s : LogStream) : LogStream := {s with fd := -1,release := true}

/-- Begin with the note about a discarded message. -/
def startNote (s : LogStream) : LogStream :=
  if s.partway=false ∧ s.special=false ∧ s.discarded=true then
    {s with specialBuf := discardedNote,special := true,discarded := false,msgIndex := 0}
  else s

/-- `fd_event` for a special message, also with the bytes that were accepted -/
def writeSpecial (w : Write) (s : LogStream) : LogRearm × List UInt8 × LogStream :=
  let start := s.specialBuf.drop s.msgIndex
  let end_ := start.findIdx (·==10)
  match w with
  | .again => (.rearm,[],s)
  | .failed => (.removed,[],s.watchRemoved)
  | .bytes n =>
    let r := min n (end_+1)
    if end_< r then
      (if s.release then .disarm else .rearm,start.take r,
        {s with special := false,discarded := false,msgIndex := 0})
    else (.rearm,start.take r,{s with msgIndex := s.msgIndex+r})

/-- `fd_event` for the circular buffer -/
def writeBuffer (w : Write) (s : LogStream) : LogRearm × List UInt8 × LogStream :=
  if s.currentIndex=0 then (.disarm,[],s)
  else
    let line := nextLine s.logBuffer
    let len := line.1.length
    match w with
    | .again => (.rearm,[],s)
    | .failed => (.removed,[],s.watchRemoved)
    | .bytes n =>
      let r := min n len
      let complete := decide (r=len) && line.2
      let s := {s with logBuffer := s.logBuffer.consume len,partway := !complete}
      if complete then
        let s := {s with currentIndex := s.currentIndex-len}
        (if s.currentIndex=0 ∨ s.release=true then .disarm else .rearm,line.1.take r,s)
      else (.rearm,line.1.take r,s)

def fdEvent (w : Write) (s : LogStream) : LogRearm × List UInt8 × LogStream :=
  let s := s.startNote
  if s.partway=false ∧ s.special=true then s.writeSpecial w else s.writeBuffer w

/-- `flush_for_release` -/
def flushForRelease (w : Write) (s : LogStream) : LogRearm × List UInt8 × LogStream :=
  if s.release then (.rearm,[],s) else fdEvent w {s with release := true}

/-- `push_to_log` -/
def pushToLog (args : List (List UInt8)) (s : LogStream) : LogStream :=
  if s.logCurrentLine=false then s
  else if args.flatten.length≤ s.getFree then (args.foldl append s).commitMsg
  else s.markDiscarded

def doLogPart (s : LogStream) (arg : List UInt8) : LogStream :=
  if s.logCurrentLine=true then
    if arg.length≤ s.getFree then s.append arg
    else {s.rollbackMsg with logCurrentLine := false}.markDiscarded
  else s

def doLogCommit (s : LogStream) : LogStream := if s.logCurrentLine=true then s.commitMsg else s

/-- `log` and the like, if the level is such that the message is logged -/
def log (on : Bool) (args : List (List UInt8)) (s : LogStream) : LogStream :=
  {s with logCurrentLine := on}.pushToLog (args++[[10]])

def logMsgBegin (on : Bool) (args : List (List UInt8)) (s : LogStream) : LogStream :=
  args.foldl doLogPart {s with logCurrentLine := on}

def logMsgEnd (msg : List UInt8) (s : LogStream) : LogStream :=
  ((s.doLogPart msg).doLogPart [10]).doLogCommit

end LogStream

end Dinit
