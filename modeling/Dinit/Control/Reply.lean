import Dinit.Control.Connection
import Dinit.Service.Record

namespace Dinit

/-- The bytes of an integer as it lies in memory, lowest first. -/
def nativeBytes : Nat → Nat → List UInt8
  | 0,_ => []
  | k+1,n => UInt8.ofNat n::nativeBytes k (n/256)

theorem nativeBytes_length (k n : Nat) : (nativeBytes k n).length=k := by
  induction k generalizing n with
  | zero => rfl
  | succ k ih => rw [nativeBytes,List.length_cons,ih]

theorem native_nativeBytes (k n : Nat) : native (nativeBytes k n)=n%256^k := by
  induction k generalizing n with
  | zero => rw [Nat.pow_zero,Nat.mod_one]; rfl
  | succ k ih =>
    rw [nativeBytes,native,ih,Nat.pow_succ',Nat.mod_mul]
    simp

def ServiceState.code : ServiceState → UInt8
  | .stopped => 0
  | .starting => 1
  | .started => 2
  | .stopping => 3

def StoppedReason.code : StoppedReason → UInt8
  | .normal => 0
  | .deprestart => 1
  | .depfailed => 2
  | .failed => 3
  | .execfailed => 4
  | .timedout => 5
  | .terminated => 6

inductive ServiceEvent
  | started | stopped | failedStart | startCancelled | stopCancelled
deriving DecidableEq

def ServiceEvent.code : ServiceEvent → UInt8
  | .started => 0
  | .stopped => 1
  | .failedStart => 2
  | .startCancelled => 3
  | .stopCancelled => 4

/-- What is reported of a service. -/
structure SvcStatus where
  state : ServiceState
  targetState : ServiceState
  waitingForConsole : Bool
  hasConsole : Bool
  wasStartSkipped : Bool
  isMarkedActive : Bool
  pid : Option UInt32
  stopReason : StoppedReason
  execStage : UInt16
  execErrno : UInt32
  siCode : UInt32
  siStatus : UInt32

namespace SvcStatus

def flags (s : SvcStatus) : UInt8 :=
  (if s.waitingForConsole then 1 else 0)+(if s.hasConsole then 2 else 0)+
    (if s.wasStartSkipped then 4 else 0)+(if s.isMarkedActive then 8 else 0)+
    (if s.pid.isSome then 16 else 0)

/-- The stage of a failed execution, in its place. -/
def stage (s : SvcStatus) : Nat :=
  if s.pid.isNone ∧ s.stopReason=.execfailed then s.execStage.toNat else 0

/-- `fill_status_buffer`: an exit that is not clean is given as -1. -/
def buffer (s : SvcStatus) : List UInt8 :=
  [s.state.code,s.targetState.code,s.flags,s.stopReason.code]++nativeBytes 2 s.stage++
    nativeBytes 4 (match s.pid with
      | some pid => pid.toNat
      | none =>
        if s.stopReason=.execfailed then s.execErrno.toNat
        else if s.siStatus=0 then 0 else 2^32-1)

/-- `fill_status_buffer5` -/
def buffer5 (s : SvcStatus) : List UInt8 :=
  [s.state.code,s.targetState.code,s.flags,s.stopReason.code]++nativeBytes 2 s.stage++
    match s.pid with
    | some pid => nativeBytes 4 pid.toNat++[0,0,0,0]
    | none =>
      if s.stopReason=.execfailed then nativeBytes 4 s.execErrno.toNat++[0,0,0,0]
      else nativeBytes 4 s.siCode.toNat++nativeBytes 4 s.siStatus.toNat

theorem buffer_length (s : SvcStatus) : s.buffer.length=10 := by
  simp [buffer,nativeBytes_length]

theorem buffer5_length (s : SvcStatus) : s.buffer5.length=14 := by
  unfold buffer5
  rcases s.pid with _ | pid
  · by_cases h : s.stopReason=.execfailed <;> simp [h,nativeBytes_length]
  · simp [nativeBytes_length]

end SvcStatus

/-- An information packet that the server sends: about a service, in either form, or about a
variable of the environment. -/
inductive Info
  | serviceEvent (key : UInt32) (event : ServiceEvent) (status : SvcStatus)
  | serviceEvent5 (key : UInt32) (event : ServiceEvent) (status : SvcStatus)
  | environEvent (overridden : Bool) (varAndVal : List UInt8)

/-- The packet. In that of an environment event the length is a 16-bit number, and counts the
nul byte behind the string. -/
def Info.packet : Info → Packet
  | .serviceEvent key event status =>
    [100,17]++nativeBytes 4 key.toNat++[event.code]++status.buffer
  | .serviceEvent5 key event status =>
    [101,21]++nativeBytes 4 key.toNat++[event.code]++status.buffer5
  | .environEvent overridden varAndVal =>
    let ln := (varAndVal.length+1)%2^16
    [102,5,if overridden then 1 else 0]++nativeBytes 2 ln++(varAndVal++[0]).take ln

/-- A service of the service set, as it is listed. -/
structure Listed where
  name : List UInt8
  placeholder : Bool
  status : SvcStatus

/-- The packet for a service: its name is cut, and its length is given in a byte. -/
def Listed.packet (buffer : SvcStatus → List UInt8) (s : Listed) : Packet :=
  62::UInt8.ofNat (min 256 s.name.length)::(buffer s.status++s.name.take 256)

/-- The packets for all services but placeholders, and the one at the end -/
def serviceList (buffer : SvcStatus → List UInt8) (svcs : List Listed) : List UInt8 :=
  (svcs.filter fun s => !s.placeholder).flatMap (Listed.packet buffer)++[63]

def listServices : List Listed → List UInt8 := serviceList SvcStatus.buffer

def listServices5 : List Listed → List UInt8 := serviceList SvcStatus.buffer5

end Dinit
