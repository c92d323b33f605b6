import Dinit.Control.Reply
import Dinit.Framework.Buffered

namespace Dinit

open Framework Framework.Reader

/-- What a client can throw while it reads: `cp_read_exception` or `dinit_protocol_error`. -/
inductive ClientError
  | read | protocol
deriving DecidableEq

/-- A client, which reads from the control socket through a buffer of 1024 bytes. -/
abbrev Client := Reader UInt8 1024 ClientError

namespace Client

def fillBufferTo (rlength : Nat) : Client Unit := fillTo .read rlength

/-- `rbuffer[0] >= 100`, for a signed `char` -/
def isInfo (x : UInt8) : Bool := decide (100≤ x.toNat) && decide (x.toNat<128)

/-- The loop of `wait_for_reply` -/
def skipInfo : Nat → Client Unit
  | 0 => throw .read
  | fuel+1 => do
    let pktType ← byteAt 0
    if isInfo pktType then do
      fillBufferTo 2
      let pktlen ← byteAt 1
      -- consume one byte so that one byte of the next packet is read
      consume 1
      fillBufferTo pktlen.toNat
      consume ((pktlen.toNat+2^32-1)%2^32)
      skipInfo fuel
    else pure ()

def waitForReply : Client Unit := do
  fillBufferTo 1
  loop skipInfo

/-- `observed_states_t` -/
structure ObservedStates where
  started : Bool := false
  stopped : Bool := false
  failedStart : Bool := false
  stopReason : UInt8 := 0
  exitStatus : Nat := 0
  exitSiCode : Nat := 0
  exitSiStatus : Nat := 0

/-- What is seen in an information packet. Its first byte has been consumed. -/
def observe (handle : UInt32) (pktType : UInt8) (pktlen : Nat) (seen : ObservedStates) :
    Client ObservedStates :=
  if pktType=100 ∨ pktType=101 then
    if pktlen<7 then throw .protocol
    else do
      let evHandle ← Reader.extract 1 4
      let event ← byteAt 5
      if native evHandle=handle.toNat then
        if event=ServiceEvent.failedStart.code then do
          let stopReason ← byteAt 9
          let exitStatus ← Reader.extract 12 4
          let seen := { seen with failedStart := true, stopReason := stopReason }
          if pktType=101 then
            if pktlen<21 then throw .protocol
            else do
              let exitSiStatus ← Reader.extract 16 4
              pure { seen with
                exitSiCode := native exitStatus
                exitSiStatus := native exitSiStatus
                exitStatus := native exitStatus }
          else pure { seen with exitStatus := native exitStatus }
        else pure { seen with
          stopped := seen.stopped || event==ServiceEvent.stopped.code
          started := seen.started || event==ServiceEvent.started.code }
      else pure seen
  else pure seen

/-- The loop of `wait_for_reply` that keeps what it sees of a service. -/
def skipSeen (handle : UInt32) : Nat → ObservedStates → Client ObservedStates
  | 0,_ => throw .read
  | fuel+1,seen => do
    let pktType ← byteAt 0
    if isInfo pktType then do
      fillBufferTo 2
      let pktlen ← byteAt 1
      consume 1
      fillBufferTo pktlen.toNat
      let seen ← observe handle pktType pktlen.toNat seen
      consume ((pktlen.toNat+2^32-1)%2^32)
      skipSeen handle fuel seen
    else pure seen

def waitForReplySeen (handle : UInt32) (seen : ObservedStates) : Client ObservedStates := do
  fillBufferTo 1
  loop fun fuel => skipSeen handle fuel seen

end Client

end Dinit
