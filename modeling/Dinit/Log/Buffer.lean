import Dinit.Control.Reply

namespace Dinit

/-- `UINT_MAX` -/
def uintMax : Nat := 2^32-1

/-- The output of a service as a `base_process_service` keeps it. What is in `logBuffer` beyond what
was written there is not known. -/
structure LogBuffer where
  logBufMax : Nat := 0
  logBufSize : Nat := 0
  logBuffer : List (Option UInt8) := []
  capacity : Nat := 0
  logInputFd : Int := -1
  logOutputFd : Int := -1
deriving DecidableEq

/-- `vector::resize` without initialisation -/
def resize (n : Nat) (v : List (Option UInt8)) : List (Option UInt8) :=
  v.take n++List.replicate (n-v.length) none

/-- Copy to memory in a vector; there is no result if it is outside. -/
def copyTo (v : List (Option UInt8)) (at_ : Nat) (data : List UInt8) : Option (List (Option UInt8)) :=
  if at_+data.length≤ v.length then some (v.take at_++(data.map some++v.drop (at_+data.length)))
  else none

/-- The difference of two `size_t` -/
def sizeSub (m n : Nat) : Nat := (2^64+m-n)%2^64

namespace LogBuffer

/-- `ensure_log_buffer_backing`; `alloc` says whether there is memory for a larger buffer. -/
def ensureLogBufferBacking (newSize : Nat) (alloc : Bool) (b : LogBuffer) : Bool × LogBuffer :=
  if b.logBuffer.length< newSize then
    if b.capacity< newSize then
      let newCapacity := max (b.capacity*2%2^32) newSize
      let newCapacity := min newCapacity b.logBufMax
      if alloc then
        (true,{b with
          capacity := max b.capacity newCapacity
          logBuffer := resize newCapacity b.logBuffer})
      else (false,b)
    else (true,{b with logBuffer := resize newSize b.logBuffer})
  else (true,b)

end LogBuffer

/-- What `read` on the output pipe does: nothing to read yet, a failure, or the data that there is,
which is the end of the output if there is none. -/
inductive PipeRead
  | again
  | failed
  | data (bytes : List UInt8)

inductive LogRearm
  | rearm
  | disarm
  | removed
deriving DecidableEq

namespace LogBuffer

/-- The end of the output, or a failure to read it -/
def endOfOutput (b : LogBuffer) : LogBuffer := {b with logInputFd := -1,logOutputFd := -1}

/-- `fd_event` at the limit: read and discard. -/
def discardOutput (r : PipeRead) (b : LogBuffer) : LogRearm × List UInt8 × LogBuffer :=
  match r with
  | .again => (.rearm,[],b)
  | .failed => (.removed,[],b.endOfOutput)
  | .data d =>
    if d.take 1024=[] then (.removed,[],b.endOfOutput) else (.rearm,d.take 1024,b)

/-- `fd_event` with a buffer that is large enough: read to what is free of it. There is no result if
the memory given to `read` is not in the buffer. -/
def readOutput (r : PipeRead) (b : LogBuffer) : Option (LogRearm × List UInt8 × LogBuffer) :=
  let maxRead := sizeSub b.logBuffer.length b.logBufSize
  if b.logBuffer.length< b.logBufSize+maxRead then none
  else
    match r with
    | .again => some (.rearm,[],b)
    | .failed => some (.removed,[],b.endOfOutput)
    | .data d =>
      if d.take maxRead=[] then some (.removed,[],b.endOfOutput)
      else (copyTo b.logBuffer b.logBufSize (d.take maxRead)).map fun v =>
        (.rearm,d.take maxRead,
          {b with logBuffer := v,logBufSize := (b.logBufSize+(d.take maxRead).length)%2^32})

/-- How large the buffer is to be for the next output -/
def wantedSize (b : LogBuffer) : Nat :=
  let maxRead := max (b.logBufMax/8) 256
  let maxRead := min maxRead (b.logBufMax-b.logBufSize)
  (b.logBufSize+maxRead)%2^32

/-- `log_output_watcher::fd_event`, also with the bytes that were read -/
def fdEvent (r : PipeRead) (alloc : Bool) (b : LogBuffer) :
    Option (LogRearm × List UInt8 × LogBuffer) :=
  if b.logBufMax≤ b.logBufSize then some (b.discardOutput r)
  else
    let backing := b.ensureLogBufferBacking b.wantedSize alloc
    if ¬backing.1 then some (.disarm,[],backing.2) else backing.2.readOutput r

/-- `"\n(dinit: note: service restarted)\n"` -/
def restartingMsg : List UInt8 :=
  [10,40,100,105,110,105,116,58,32,110,111,116,101,58,32,115,101,114,118,105,99,101,32,114,101,115,
    116,97,114,116,101,100,41,10]

/-- What `start_ps_process` does with the buffer: is the watch enabled, and what is appended -/
def noteRestart (alloc : Bool) (b : LogBuffer) : Option (Bool × List UInt8 × LogBuffer) :=
  if b.logBufSize=0 then some (true,[],b)
  else
    match b.logBuffer[b.logBufSize-1]? with
    | some (some c) =>
      let msg := if c=10 then restartingMsg.tail else restartingMsg
      let newSize := (b.logBufSize+msg.length)%2^32
      if b.logBufMax≤ newSize then some (false,[],b)
      else
        let backing := b.ensureLogBufferBacking newSize alloc
        let b := backing.2
        if ¬backing.1 then some (false,[],b)
        else (copyTo b.logBuffer b.logBufSize msg).map fun v =>
          (true,msg,{b with logBuffer := v,logBufSize := newSize})
    | _ => none

/-- Read as much of a vector. There is no result if it is outside, or not initialised. -/
def copyOut : List (Option UInt8) → Nat → Option (List UInt8)
  | _,0 => some []
  | some c::v,n+1 => (copyOut v n).map (c::·)
  | _,_+1 => none

def clearLogBuffer (b : LogBuffer) : LogBuffer := {b with logBuffer := [],capacity := 0,logBufSize := 0}

/-- `process_catlog` for a service whose output is buffered: the reply -/
def catlog (flags : UInt8) (b : LogBuffer) : Option (List UInt8 × LogBuffer) :=
  (copyOut b.logBuffer b.logBufSize).map fun content =>
    (73::0::(nativeBytes 4 b.logBufSize++content),if flags &&& 1≠0 then b.clearLogBuffer else b)

def setLogBufMax (maxSize : Nat) (b : LogBuffer) : LogBuffer := {b with logBufMax := maxSize}

end LogBuffer

end Dinit
