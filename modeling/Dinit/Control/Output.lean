import Dinit.Control.Connection
import Dinit.Framework.Runs

namespace Dinit

open Framework

/-- What `write` makes of the bytes it is given: it takes some of them, or fails. -/
inductive WriteResult
  | wrote (count : Nat)
  | again
  | epipe
  | error
deriving DecidableEq

/-- The output side of `control_conn_t`. Beside its fields there are the bytes that the socket
has accepted. `outbuf_size` is an `unsigned`. -/
structure Output where
  outbuf : List Packet
  outbufSize : Nat
  outpktIndex : Nat
  badConnClose : Bool
  oomClose : Bool
  sent : List UInt8
deriving DecidableEq

namespace Output

def empty : Output := ⟨[],0,0,false,false,[]⟩

/-- Memory has run out while a packet was to be queued. -/
def oom (o : Output) (wasEmpty : Bool) : Bool × Output :=
  (!wasEmpty,{ o with badConnClose := true, oomClose := true })

/-- `queue_packet` for a packet in the caller's memory: the part that has not been written is
copied. `alloc` says that there is memory for it. -/
def queueCopy (o : Output) (pkt : Packet) (w : WriteResult) (alloc : Bool) : Bool × Output :=
  let hold (o : Output) (pkt : Packet) :=
    if alloc then
      (true,{ o with
        outbuf := o.outbuf++[pkt]
        outbufSize := (o.outbufSize+pkt.length)%2^32 })
    else o.oom o.outbuf.isEmpty
  if o.outbuf.isEmpty then
    match w with
    | .epipe | .error => (false,o)
    | .again => hold o pkt
    | .wrote count =>
      let o := { o with sent := o.sent++pkt.take count }
      if pkt.length≤ count then (true,o) else hold o (pkt.drop count)
  else hold o pkt

/-- `queue_packet` for a vector, which is moved into the list whole. It is empty by the time
its size is added. -/
def queueMove (o : Output) (pkt : Packet) (w : WriteResult) (alloc : Bool) : Bool × Output :=
  let hold (o : Output) :=
    if alloc then
      (true,{ o with
        outbuf := o.outbuf++[pkt]
        outbufSize := (o.outbufSize+([] : Packet).length)%2^32 })
    else o.oom o.outbuf.isEmpty
  if o.outbuf.isEmpty then
    let o := { o with outpktIndex := 0 }
    match w with
    | .epipe | .error => (false,o)
    | .again => hold o
    | .wrote count =>
      let o := { o with sent := o.sent++pkt.take count }
      if pkt.length≤ count then (true,o) else hold { o with outpktIndex := count }
  else hold o

/-- The packet `cp_rply::OOM`. -/
def oomReply : Packet := [53]

/-- `send_data`: true if the connection is to be closed. There is nothing to be sent only if
the connection is marked bad, or else the first of an empty list is taken. -/
def sendData (o : Output) (w : WriteResult) : Option (Bool × Output) :=
  match o.outbuf with
  | [] =>
    if o.badConnClose then
      match o.oomClose,w with
      | true,.wrote count => some (true,{ o with sent := o.sent++oomReply.take count })
      | _,_ => some (true,o)
    else none
  | pkt::rest =>
    match w with
    | .epipe | .error => some (true,o)
    | .again => some (false,o)
    | .wrote count =>
      let data := pkt.drop o.outpktIndex
      let o := { o with sent := o.sent++data.take count
                        outpktIndex := o.outpktIndex+min count data.length }
      if o.outpktIndex=pkt.length then
        let o := { o with
          outbufSize := (o.outbufSize+2^32-pkt.length%2^32)%2^32
          outbuf := rest
          outpktIndex := 0 }
        some (!o.oomClose && (o.outbuf.isEmpty && o.badConnClose),o)
      else some (false,o)

end Output

/-- A packet as the callers of `queue_packet` make them: there is at least its type. -/
structure OutPacket where
  bytes : Packet
  ne_nil : bytes≠[]

/-- The calls that change the output, memory permitting, with what the system answers to them.
A request that is rejected has the connection closed when its reply is out. -/
inductive OutCall
  | copy (p : OutPacket) (w : WriteResult)
  | move (p : OutPacket) (w : WriteResult)
  | send (w : WriteResult)
  | reject

namespace Output

/-- The state after a call. `send_data` is called only when there is something to be sent or
the connection is to be closed. -/
def call (o : Output) : OutCall → Option Output
  | .copy p w => some (o.queueCopy p.bytes w true).2
  | .move p w => some (o.queueMove p.bytes w true).2
  | .send w => (o.sendData w).map Prod.snd
  | .reject => some { o with badConnClose := true }

def calls : Output → List OutCall → Option Output := runs call

end Output

end Dinit
