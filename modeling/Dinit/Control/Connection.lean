import Mathlib.Algebra.GroupWithZero.Nat
import Dinit.Framework.Framing

namespace Dinit

/-- `cp_cmd`: the requests of the control protocol. -/
inductive CpCmd
  | queryVersion | findService | loadService | startService | stopService | wakeService
  | releaseService | unpinService | listServices | unloadService | shutdown | addDep | remDep
  | queryLoadMech | enableService | queryServiceName | reloadService | setEnv | serviceStatus
  | setTrigger | catlog | signal | queryServiceDscDir | closeHandle | getAllEnv | listServices5
  | serviceStatus5 | listenEnv
deriving DecidableEq

def CpCmd.ofByte (b : UInt8) : Option CpCmd :=
  match b.toNat with
  | 0 => some .queryVersion
  | 1 => some .findService
  | 2 => some .loadService
  | 3 => some .startService
  | 4 => some .stopService
  | 5 => some .wakeService
  | 6 => some .releaseService
  | 7 => some .unpinService
  | 8 => some .listServices
  | 9 => some .unloadService
  | 10 => some .shutdown
  | 11 => some .addDep
  | 12 => some .remDep
  | 13 => some .queryLoadMech
  | 14 => some .enableService
  | 15 => some .queryServiceName
  | 16 => some .reloadService
  | 17 => some .setEnv
  | 18 => some .serviceStatus
  | 19 => some .setTrigger
  | 20 => some .catlog
  | 21 => some .signal
  | 22 => some .queryServiceDscDir
  | 23 => some .closeHandle
  | 24 => some .getAllEnv
  | 25 => some .listServices5
  | 26 => some .serviceStatus5
  | 27 => some .listenEnv
  | _ => none

abbrev Packet := List UInt8

/-- An integer as it lies in memory, lowest byte first. -/
def native : List UInt8 → Nat
  | [] => 0
  | b::bs => b.toNat+256*native bs

/-- A request with the arguments its handler takes from the buffer. -/
inductive CpRequest
  | queryVersion
  | findService (serviceName : List UInt8)
  | loadService (serviceName : List UInt8)
  | startService (flags : UInt8) (handle : Nat)
  | stopService (flags : UInt8) (handle : Nat)
  | wakeService (flags : UInt8) (handle : Nat)
  | releaseService (flags : UInt8) (handle : Nat)
  | unpinService (handle : Nat)
  | listServices
  | unloadService (handle : Nat)
  | shutdown (sdType : UInt8)
  | addDep (doEnable : Bool) (depType : UInt8) (fromHandle toHandle : Nat)
  | remDep (depType : UInt8) (fromHandle toHandle : Nat)
  | queryLoadMech
  | queryServiceName (handle : Nat)
  | reloadService (handle : Nat)
  | setEnv (envVar : List UInt8)
  | serviceStatus (handle : Nat)
  | setTrigger (handle : Nat) (triggerVal : UInt8)
  | catlog (flags : UInt8) (handle : Nat)
  | signal (sigNum handle : Nat)
  | queryServiceDscDir (spareOk : Bool) (handle : Nat)
  | closeHandle (handle : Nat)
  | getAllEnv
  | listServices5
  | serviceStatus5 (handle : Nat)
  | listenEnv
deriving DecidableEq

namespace CpRply

def ack : Packet := [50]
def nak : Packet := [51]
def badReq : Packet := [52]
def preAck : Packet := [79]

end CpRply

/-- What a connection works on: the service set and the environment behind it, its service
handles and its socket. A request is carried out by `perform`, which gives the replies;
`queuePacket` writes or queues one, and is false if the socket fails. -/
structure Server (σ : Type) where
  findServiceForKey : Nat → σ → Option Nat
  perform : CpRequest → σ → List Packet × σ
  queuePacket : Packet → σ → Bool × σ

/-- `control_conn_t`. -/
structure Conn (σ : Type) where
  rbuf : List UInt8
  chklen : Nat
  badConnClose : Bool
  env : σ

/-- `rbuf.extract`. -/
def extract (rbuf : List UInt8) (index length : Nat) : List UInt8 :=
  (rbuf.drop index).take length

namespace Conn

variable {σ : Type}

/-- The connection as it is accepted. -/
def accept (s : σ) : Conn σ := ⟨[],0,false,s⟩

/-- `rbuf[index]`. -/
def byteAt (c : Conn σ) (index : Nat) : UInt8 := c.rbuf.getD index 0

def handleAt (c : Conn σ) (index : Nat) : Nat := native (extract c.rbuf index 4)

/-- `rbuf.consume`. -/
def consume (c : Conn σ) (amount : Nat) : Conn σ := { c with rbuf := c.rbuf.drop amount }

/-- `if (!...) return false;` and what comes after it. -/
def orReturn (r : Bool × Conn σ) (f : Conn σ → Bool × Conn σ) : Bool × Conn σ :=
  if r.1 then f r.2 else (false,r.2)

/-- A packet that has not arrived whole: look again when `n` bytes are there. -/
def waitFor (c : Conn σ) (n : Nat) : Bool × Conn σ := (true,{ c with chklen := n })

section
variable (sv : Server σ)

def queuePacket (c : Conn σ) (p : Packet) : Bool × Conn σ :=
  let r := sv.queuePacket p c.env
  (r.1,{ c with env := r.2 })

def queueAll (c : Conn σ) : List Packet → Bool × Conn σ
  | [] => (true,c)
  | p::ps => orReturn (c.queuePacket sv p) fun c => queueAll c ps

/-- Carry a request out and queue its replies. -/
def answer (c : Conn σ) (r : CpRequest) : Bool × Conn σ :=
  let a := sv.perform r c.env
  queueAll sv { c with env := a.2 } a.1

/-- Queue the error response and mark the connection bad. -/
def badReq (c : Conn σ) : Bool × Conn σ :=
  orReturn (c.queuePacket sv CpRply.badReq) fun c => (true,{ c with badConnClose := true })

/-- Clear the packet from the buffer. -/
def clearOut (c : Conn σ) (pktSize : Nat) : Conn σ := { c.consume pktSize with chklen := 0 }

def queryVersion (c : Conn σ) : Bool × Conn σ :=
  orReturn (c.answer sv .queryVersion) fun c => (true,c.consume 1)

def processFindLoad (mk : List UInt8 → CpRequest) (c : Conn σ) : Bool × Conn σ :=
  if c.rbuf.length<4 then c.waitFor 4
  else
    let srvnameLen := native (extract c.rbuf 1 2)
    if srvnameLen=0 ∨ 1024-3<srvnameLen then c.badReq sv
    else
      let c := { c with chklen := srvnameLen+3 }
      if c.rbuf.length<c.chklen then (true,c)
      else (c.clearOut c.chklen).answer sv (mk (extract c.rbuf 3 srvnameLen))

def processCloseHandle (c : Conn σ) : Bool × Conn σ :=
  if c.rbuf.length<5 then c.waitFor 5
  else
    let handle := c.handleAt 1
    let c := c.clearOut 5
    match sv.findServiceForKey handle c.env with
    | none => c.badReq sv
    | some _ => c.answer sv (.closeHandle handle)

def processStartStop (mk : UInt8 → Nat → CpRequest) (c : Conn σ) : Bool × Conn σ :=
  if c.rbuf.length<6 then c.waitFor 6
  else
    let flags := c.byteAt 1
    let handle := c.handleAt 2
    match sv.findServiceForKey handle c.env with
    | none => c.badReq sv
    | some _ =>
      orReturn (if 128≤ flags.toNat then c.queuePacket sv CpRply.preAck else (true,c)) fun c =>
        orReturn (c.answer sv (mk flags handle)) fun c => (true,c.clearOut 6)

/-- The requests about one service that leave the packet in the buffer until they have been
carried out. -/
def processHandle (mk : Nat → CpRequest) (c : Conn σ) : Bool × Conn σ :=
  if c.rbuf.length<5 then c.waitFor 5
  else
    let handle := c.handleAt 1
    match sv.findServiceForKey handle c.env with
    | none => c.badReq sv
    | some _ => orReturn (c.answer sv (mk handle)) fun c => (true,c.clearOut 5)

def processUnpinService : Conn σ → Bool × Conn σ := processHandle sv .unpinService

def processUnloadService : Conn σ → Bool × Conn σ := processHandle sv .unloadService

def processReloadService : Conn σ → Bool × Conn σ := processHandle sv .reloadService

/-- `SHUTDOWN`: any other type than those of `shutdown_type_t`, from `REMAIN` to `KEXEC`, is
taken as an unknown request. -/
def processShutdown (c : Conn σ) : Bool × Conn σ :=
  if c.rbuf.length<2 then c.waitFor 2
  else
    let sdType := c.byteAt 1
    if 1≤ sdType.toNat ∧ sdType.toNat≤6 then
      orReturn (c.answer sv (.shutdown sdType)) fun c => (true,c.clearOut 2)
    else c.badReq sv

def listServices (c : Conn σ) : Bool × Conn σ := (c.clearOut 1).answer sv .listServices

def listServices5 (c : Conn σ) : Bool × Conn σ := (c.clearOut 1).answer sv .listServices5

def queryLoadMech (c : Conn σ) : Bool × Conn σ := (c.clearOut 1).answer sv .queryLoadMech

/-- The requests about one service that clear the packet first and refuse an unknown handle. -/
def processQuery (pktSize index : Nat) (mk : Conn σ → Nat → CpRequest) (c : Conn σ) :
    Bool × Conn σ :=
  if c.rbuf.length<pktSize then c.waitFor pktSize
  else
    let handle := c.handleAt index
    let request := mk c handle
    let c := c.clearOut pktSize
    match sv.findServiceForKey handle c.env with
    | none => c.queuePacket sv CpRply.nak
    | some _ => c.answer sv request

def processServiceStatus : Conn σ → Bool × Conn σ :=
  processQuery sv 5 1 fun _ handle => .serviceStatus handle

def processServiceStatus5 : Conn σ → Bool × Conn σ :=
  processQuery sv 5 1 fun _ handle => .serviceStatus5 handle

def processQueryName : Conn σ → Bool × Conn σ :=
  processQuery sv 6 2 fun _ handle => .queryServiceName handle

def processSetTrigger : Conn σ → Bool × Conn σ :=
  processQuery sv 6 1 fun c handle => .setTrigger handle (c.byteAt 5)

def processCatlog : Conn σ → Bool × Conn σ :=
  processQuery sv 6 2 fun c handle => .catlog (c.byteAt 1) handle

def processSignal : Conn σ → Bool × Conn σ :=
  processQuery sv 9 5 fun c handle => .signal (native (extract c.rbuf 1 4)) handle

def processQueryDscDir : Conn σ → Bool × Conn σ :=
  processQuery sv 6 2 fun c handle => .queryServiceDscDir (c.byteAt 1=0) handle

/-- `add_service_dep` and `rm_service_dep`. A bad dependency type marks the connection bad, but
the request is still carried out. -/
def changeDep (mk : UInt8 → Nat → Nat → CpRequest) (c : Conn σ) : Bool × Conn σ :=
  if c.rbuf.length<10 then c.waitFor 10
  else
    let fromHandle := c.handleAt 2
    let toHandle := c.handleAt 6
    let fromService := sv.findServiceForKey fromHandle c.env
    let toService := sv.findServiceForKey toHandle c.env
    if fromService=none ∨ toService=none ∨ fromService=toService then c.badReq sv
    else
      let depType := c.byteAt 1
      orReturn (if depType=0 ∨ depType=2 ∨ depType=3 then (true,c) else c.badReq sv) fun c =>
        orReturn (c.answer sv (mk depType fromHandle toHandle)) fun c => (true,c.clearOut 10)

def addServiceDep (doEnable : Bool) : Conn σ → Bool × Conn σ := changeDep sv (.addDep doEnable)

def rmServiceDep : Conn σ → Bool × Conn σ := changeDep sv .remDep

def processSetenv (c : Conn σ) : Bool × Conn σ :=
  if c.rbuf.length<4 then c.waitFor 4
  else
    let envvarLen := native (extract c.rbuf 1 2)
    if envvarLen=0 ∨ 1024-3<envvarLen then c.badReq sv
    else
      let c := { c with chklen := envvarLen+3 }
      if c.rbuf.length<c.chklen then (true,c)
      else
        let envVar := extract c.rbuf 3 envvarLen
        -- a name has to stand before the equals sign
        if envVar.head?=some 61 then c.badReq sv
        else orReturn (c.answer sv (.setEnv envVar)) fun c => (true,c.clearOut c.chklen)

/-- Here and in the next handler `chklen` is left as it is. -/
def processGetallenv (c : Conn σ) : Bool × Conn σ :=
  if c.rbuf.length<2 then c.waitFor 2
  else if c.byteAt 1=0 then (c.consume 2).answer sv .getAllEnv
  else c.badReq sv

def processListenenv (c : Conn σ) : Bool × Conn σ := (c.consume 1).answer sv .listenEnv

/-- The cases of `process_packet`. -/
def handler : Option CpCmd → Conn σ → Bool × Conn σ
  | some .queryVersion => queryVersion sv
  | some .findService => processFindLoad sv .findService
  | some .loadService => processFindLoad sv .loadService
  | some .closeHandle => processCloseHandle sv
  | some .startService => processStartStop sv .startService
  | some .stopService => processStartStop sv .stopService
  | some .wakeService => processStartStop sv .wakeService
  | some .releaseService => processStartStop sv .releaseService
  | some .unpinService => processUnpinService sv
  | some .unloadService => processUnloadService sv
  | some .reloadService => processReloadService sv
  | some .shutdown => processShutdown sv
  | some .listServices => listServices sv
  | some .listServices5 => listServices5 sv
  | some .serviceStatus => processServiceStatus sv
  | some .serviceStatus5 => processServiceStatus5 sv
  | some .addDep => addServiceDep sv false
  | some .remDep => rmServiceDep sv
  | some .queryLoadMech => queryLoadMech sv
  | some .enableService => addServiceDep sv true
  | some .queryServiceName => processQueryName sv
  | some .setEnv => processSetenv sv
  | some .getAllEnv => processGetallenv sv
  | some .listenEnv => processListenenv sv
  | some .setTrigger => processSetTrigger sv
  | some .catlog => processCatlog sv
  | some .signal => processSignal sv
  | some .queryServiceDscDir => processQueryDscDir sv
  | none => badReq sv

def processPacket (c : Conn σ) : Bool × Conn σ := handler sv (CpCmd.ofByte (c.byteAt 0)) c

/-- The loop of `data_ready`: whether it was left by a `return`, and the connection then. -/
def processPackets : Nat → Conn σ → Bool × Conn σ
  | 0,c => (false,c)
  | fuel+1,c =>
    if c.rbuf.length<c.chklen then (false,c)
    else
      let r := c.processPacket sv
      if !r.1 || r.2.badConnClose then (true,r.2)
      else processPackets fuel { r.2 with chklen := max r.2.chklen 1 }

/-- `data_ready` for the bytes that `read` gives: true if the connection is to be closed. Every
turn of the loop takes a byte or is the last but one. -/
def dataReady (c : Conn σ) (data : List UInt8) : Bool × Conn σ :=
  if data=[] then (true,c)
  else
    let c := { c with rbuf := c.rbuf++data }
    let r := processPackets sv (c.rbuf.length+2) c
    if r.1 then (false,r.2)
    else if r.2.rbuf.length=1024 then (false,{ r.2 with badConnClose := true })
    else (false,r.2)

/-- One read event; a connection that is marked bad is only written to. -/
def deliver (c : Conn σ) (data : List UInt8) : Conn σ :=
  if c.badConnClose then c else (c.dataReady sv data).2

def run (c : Conn σ) (chunks : List (List UInt8)) : Conn σ := chunks.foldl (deliver sv) c

end

end Conn

end Dinit
