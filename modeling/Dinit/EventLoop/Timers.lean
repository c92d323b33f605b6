import Dinit.EventLoop.HeapRun
import Dinit.EventLoop.TimeVal

namespace Dinit

open Framework

/-- `timer_data`; an interval of zero is that of a timer which expires once. -/
structure TimerData where
  intervalTime : TimeVal
  expiryCount : Int
  enabled : Bool
  userdata : Nat

def TimerData.new (udata : Nat) : TimerData := ⟨⟨0,0⟩,0,true,udata⟩

/-- `timer_queue_t` -/
abbrev TimerQueue := DaryHeap TimerData TimeVal

/-- Write to the `node_data` of a handle. -/
def DaryHeap.setData {T P : Type} (h : DaryHeap T P) (a : Nat) (u : T) : DaryHeap T P :=
  { h with nodeData := Function.update h.nodeData a u }

/-- A call of `receive_timer_expiry` -/
structure TimerExpiry where
  handle : Nat
  userdata : Nat
  intervals : Int
  deriving DecidableEq

/-- The queue of one clock in `timer_base`, and what the descriptor of this clock in
`timer_fd_events` is armed with; `expired` are the calls made so far. -/
structure TimerEvents where
  queue : TimerQueue
  armed : Option TimeVal
  expired : List TimerExpiry

/-- `timerfd_settime` with an absolute time: zero disarms, and a time out of range is refused. -/
def settime (armed : Option TimeVal) (t : TimeVal) : Option TimeVal :=
  if 0≤t.sec ∧ 0≤t.nsec ∧ t.nsec<1000000000 then if t=⟨0,0⟩ then none else some t else armed

namespace TimerEvents

def setTimerFromQueue (s : TimerEvents) : TimerEvents :=
  { s with armed := settime s.armed (if s.queue.empty then ⟨0,0⟩ else s.queue.getRootPriority) }

/-- A timer that has expired is reported if it is enabled, and disabled then. -/
def report (s : TimerEvents) (a : Nat) : TimerEvents :=
  let data := s.queue.nodeData a
  if data.enabled then
    { s with
      queue := s.queue.setData a { data with enabled := false, expiryCount := 0 }
      expired := s.expired++[⟨a,data.userdata,data.expiryCount⟩] }
  else s

/-- A round of the loop of `process_timer_queue`, for a root that is due; none if an `int`
overflows. Where the timeout is read again, the root has been pulled already. -/
def processRoot (maxSize : Nat) (curtime : TimeVal) (s : TimerEvents) : Option TimerEvents :=
  let thandle := s.queue.getRoot
  let data := { s.queue.nodeData thandle with
    expiryCount := (s.queue.nodeData thandle).expiryCount+1 }
  let queue := (s.queue.setData thandle data).pullRoot 4
  if data.intervalTime.sec=0 ∧ data.intervalTime.nsec=0 then
    some ({ s with queue := queue }.report thandle)
  else
    let overrun := curtime.sub queue.getRootPriority
    (overrun.divideTimespec data.intervalTime).bind fun (n,rem) =>
      let queue := queue.setData thandle { data with expiryCount := data.expiryCount+n }
      let newtime := (curtime.add data.intervalTime).sub rem
      (queue.insert 4 maxSize thandle newtime false).map fun (queue,_) =>
        { s with queue := queue }.report thandle

/-- `process_timer_queue`; none if the fuel, for the rounds of the loop, is used up. -/
def processTimerQueue (maxSize : Nat) (curtime : TimeVal) : Nat → TimerEvents → Option TimerEvents
  | 0,_ => none
  | fuel+1,s =>
    if s.queue.empty then some s
    else if s.queue.getRootPriority≤curtime then
      (s.processRoot maxSize curtime).bind (processTimerQueue maxSize curtime fuel)
    else some s

/-- `process_timer`, when the descriptor is readable -/
def processTimer (maxSize : Nat) (curtime : TimeVal) (fuel : Nat) (s : TimerEvents) :
    Option TimerEvents :=
  (s.processTimerQueue maxSize curtime fuel).map setTimerFromQueue

/-- `set_timer` -/
def setTimer (maxSize : Nat) (s : TimerEvents) (a : Nat) (timeout interval : TimeVal)
    (enable : Bool) : Option TimerEvents :=
  let ts := { s.queue.nodeData a with intervalTime := interval, expiryCount := 0, enabled := enable }
  let queue := s.queue.setData a ts
  let r := if queue.isQueued a then queue.setPriority 4 a timeout
    else queue.insert 4 maxSize a timeout false
  r.map fun (queue,first) =>
    if first then { s with queue := queue }.setTimerFromQueue else { s with queue := queue }

/-- `stop_timer_nolock` -/
def stopTimer (s : TimerEvents) (a : Nat) : TimerEvents :=
  match s.queue.remove 4 a with
  | some queue =>
    if s.queue.getRoot=a then { s with queue := queue }.setTimerFromQueue
    else { s with queue := queue }
  | none => s

/-- `remove_timer_nolock` -/
def removeTimer (s : TimerEvents) (a : Nat) (mem : Bool) : TimerEvents :=
  { s with queue := ((s.queue.remove 4 a).getD s.queue).deallocate mem }

/-- `enable_timer_nolock`: an expiry that has not been reported is reported now. -/
def enableTimer (s : TimerEvents) (a : Nat) (enable : Bool) : TimerEvents :=
  let data := s.queue.nodeData a
  if data.expiryCount≠0 ∧ enable then
    { s with
      queue := s.queue.setData a { data with expiryCount := 0 }
      expired := s.expired++[⟨a,data.userdata,data.expiryCount⟩] }
  else { s with queue := s.queue.setData a { data with enabled := enable } }

end TimerEvents

/-- The timers of a clock in use, with the handles that are allocated. -/
structure TimersUse where
  events : TimerEvents
  allocated : List Nat

/-- What is done with timers. `curtime` is the time that the clock has when the descriptor is
served; `mem` and `retry` are the outcomes of allocations. -/
inductive TimerOp where
  | add (a udata : Nat) (mem retry : Bool)
  | remove (a : Nat) (mem : Bool)
  | enable (a : Nat) (enable : Bool)
  | set (a : Nat) (timeout interval : TimeVal) (enable : Bool)
  | stop (a : Nat)
  | process (curtime : TimeVal) (fuel : Nat)

namespace TimersUse

/-- No timers yet, and a descriptor that is not armed. -/
def new (hvec : Nat → HeapNode TimeVal) (heapIndex : Nat → Option Nat)
    (nodeData : Nat → TimerData) : TimersUse :=
  ⟨⟨(HeapUse.new hvec heapIndex nodeData).heap,none,[]⟩,[]⟩

def heapUse (s : TimersUse) : HeapUse TimerData TimeVal := ⟨s.events.queue,s.allocated⟩

/-- One operation, on a timer that is registered. If adding a timer throws, nothing changes. -/
def step (maxSize : Nat) (s : TimersUse) : TimerOp → Option TimersUse
  | .add a udata mem retry =>
    if a ∈ s.allocated then none
    else some <| match s.events.queue.allocate maxSize a (.new udata) mem retry with
      | some queue => ⟨{ s.events with queue := queue },a::s.allocated⟩
      | none => s
  | .remove a mem =>
    if a ∈ s.allocated then some ⟨s.events.removeTimer a mem,s.allocated.erase a⟩ else none
  | .enable a enable =>
    if a ∈ s.allocated then some ⟨s.events.enableTimer a enable,s.allocated⟩ else none
  | .set a timeout interval enable =>
    if a ∈ s.allocated then
      (s.events.setTimer maxSize a timeout interval enable).map fun e => ⟨e,s.allocated⟩
    else none
  | .stop a => if a ∈ s.allocated then some ⟨s.events.stopTimer a,s.allocated⟩ else none
  | .process curtime fuel =>
    (s.events.processTimer maxSize curtime fuel).map fun e => ⟨e,s.allocated⟩

end TimersUse
end Dinit
