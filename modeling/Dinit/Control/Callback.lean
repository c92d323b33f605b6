import Dinit.Control.Output

namespace Dinit

open Framework

/-- What can happen to the output of a connection in the course of an event: a packet is queued
by either overload, a request is rejected, or memory runs out. -/
inductive Effect
  | copy (p : OutPacket) (w : WriteResult) (alloc : Bool)
  | move (p : OutPacket) (w : WriteResult) (alloc : Bool)
  | reject
  | oomClose

def Effect.apply (o : Output) : Effect → Output
  | .copy p w alloc => (o.queueCopy p.bytes w alloc).2
  | .move p w alloc => (o.queueMove p.bytes w alloc).2
  | .reject => { o with badConnClose := true }
  | .oomClose => { o with badConnClose := true, oomClose := true }

/-- A connection with the watches that are enabled for it. -/
structure Watched where
  out : Output
  inEvents : Bool
  outEvents : Bool

/-- The connections that are open. -/
abbrev Hub := Nat → Option Watched

/-- An event of the main loop. Those that are not about a connection (processes, timers,
signals) have effects on connections all the same, by the service and environment events that
they cause. Data on a connection has effects on this one and on others; the flag says that
`data_ready` asks for the connection to be closed. -/
inductive LoopEvent
  | accept (i : Nat)
  | other (effects : List (Nat × Effect))
  | io (i : Nat) (read : Option (List (Nat × Effect) × Bool)) (write : Option WriteResult)

namespace Hub

def set (hub : Hub) (i : Nat) (c : Option Watched) : Hub := fun j => if j=i then c else hub j

def effect (hub : Hub) (e : Nat × Effect) : Hub :=
  hub.set e.1 ((hub e.1).map fun c => { c with out := e.2.apply c.out })

def effects (hub : Hub) (es : List (Nat × Effect)) : Hub := es.foldl effect hub

/-- The end of `control_conn_cb`. -/
def setWatches (c : Watched) : Watched :=
  { c with
    inEvents := !c.out.badConnClose && decide (c.out.outbufSize<16384)
    outEvents := !c.out.outbuf.isEmpty || c.out.badConnClose }

/-- The part of `control_conn_cb` for `OUT_EVENTS`: no connection if it is closed. -/
def sent (c : Watched) : Option WriteResult → Option (Option Watched)
  | none => some (some c)
  | some w => (c.out.sendData w).map fun r => if r.1 then none else some { c with out := r.2 }

/-- `control_conn_cb` for a connection that is open. -/
def callback (hub : Hub) (i : Nat) (read : Option (List (Nat × Effect) × Bool))
    (write : Option WriteResult) : Option Hub :=
  let hub := hub.effects (read.map Prod.fst |>.getD [])
  if (read.map Prod.snd |>.getD false) then some (hub.set i none)
  else
    match hub i with
    | none => some hub
    | some c => (sent c write).map fun c => hub.set i (c.map setWatches)

/-- A new connection is watched for input. -/
def step (hub : Hub) : LoopEvent → Option Hub
  | .accept i => some (hub.set i (some ⟨.empty,true,false⟩))
  | .other es => some (hub.effects es)
  | .io i read write => hub.callback i read write

def run : Hub → List LoopEvent → Option Hub := runs step

end Hub

end Dinit
