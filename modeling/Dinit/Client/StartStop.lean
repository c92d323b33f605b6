import Dinit.Client.Decode

namespace Dinit

open Framework Framework.Reader

namespace Client

/-- The commands of dinitctl that start or stop a service. -/
inductive CtlCmd
  | startService | wakeService | stopService | releaseService | restartService
deriving DecidableEq

def CtlCmd.doStop : CtlCmd → Bool
  | .stopService | .releaseService => true
  | .startService | .wakeService | .restartService => false

/-- The command to the server is `STOPSERVICE`. -/
def CtlCmd.issuesStop : CtlCmd → Bool
  | .stopService | .restartService => true
  | .startService | .wakeService | .releaseService => false

/-- What an event means to one who waits for a service to be stopped or started: that it is, or
that it will not be. -/
def judge (doStop : Bool) : ServiceEvent → Option Bool
  | .stopped => if doStop then some true else none
  | .stopCancelled => if doStop then some false else none
  | .started => if doStop then none else some true
  | .startCancelled => if doStop then none else some false
  | .failedStart => if doStop then none else some false

/-- `process_service_event`, without what it displays; nothing is given where it returns -1. -/
def processServiceEvent (pktlen : Nat) (handle : UInt32) (doStop : Bool) : Client (Option Nat) := do
  let pktType ← byteAt 0
  if pktlen<7 then throw .protocol
  else if pktType=101 ∧ pktlen<21 then throw .protocol
  else do
    let evHandle ← Reader.extract 2 4
    let event ← byteAt 6
    consume pktlen
    if native evHandle=handle.toNat then
      if event=(if doStop then ServiceEvent.stopped else .started).code then pure (some 0)
      else if event=(if doStop then ServiceEvent.stopCancelled else .startCancelled).code then
        pure (some 1)
      else if doStop=false ∧ event=ServiceEvent.failedStart.code then pure (some 1)
      else pure none
    else pure none

/-- The loop of `wait_service_state` -/
def waitLoop (handle : UInt32) (doStop : Bool) : Nat → Client Nat
  | 0 => throw .read
  | fuel+1 => do
    Reader.fillTo .protocol 2
    let pktType ← byteAt 0
    if isInfo pktType then do
      let pktlen ← byteAt 1
      fillBufferTo pktlen.toNat
      if pktType=100 ∨ pktType=101 then do
        match ← processServiceEvent pktlen.toNat handle doStop with
        | some ret => pure ret
        | none => waitLoop handle doStop fuel
      else do
        consume pktlen.toNat
        waitLoop handle doStop fuel
    else throw .protocol

def waitServiceState (handle : UInt32) (doStop : Bool) : Client Nat :=
  loop fun fuel => waitLoop handle doStop fuel

/-- The replies to a command, and what is seen of the service before the last of them -/
def mainReply (handle : UInt32) : Client (UInt8 × ObservedStates) := do
  let seen ← waitForReplySeen handle {}
  let replyPktH ← byteAt 0
  consume 1
  if replyPktH=79 then do
    let seen ← waitForReplySeen handle
      { seen with started := false, stopped := false, failedStart := false }
    let replyPktH ← byteAt 0
    consume 1
    pure (replyPktH,seen)
  else pure (replyPktH,seen)

/-- The end of `start_stop_service`: that a service has been seen to start or to fail is only
displayed. -/
def awaitOutcome (command : CtlCmd) (handle : UInt32) (seen : ObservedStates) : Client Nat :=
  if command=.restartService ∧ seen.stopped=false then do
    let ret ← waitServiceState handle true
    if ret=0 then waitServiceState handle command.doStop else pure 1
  else waitServiceState handle command.doStop

/-- `start_stop_service`, when the command has been issued -/
def startStopService (command : CtlCmd) (handle : UInt32) (waitForService ignoreUnstarted : Bool) :
    Client Nat := do
  let (replyPktH,seen) ← mainReply handle
  if replyPktH=61 then pure 0
  else if replyPktH=68 ∨ replyPktH=67 then pure 1
  else if replyPktH=65 ∧ command.issuesStop then do
    let handles ← readDependents
    let _ ← handles.mapM fun _ => getServiceName
    pure 1
  else if replyPktH=51 ∧ command=.restartService then pure (if ignoreUnstarted then 0 else 1)
  else if replyPktH≠50 then pure 1
  else if waitForService then awaitOutcome command handle seen
  else pure 0

/-- The event of the service with the given handle. -/
def eventOf (handle : UInt32) : Info → Option ServiceEvent
  | .serviceEvent key event _ | .serviceEvent5 key event _ => if key=handle then some event else none
  | .environEvent _ _ => none

/-- What the first event that means something means, and what comes behind it. -/
def firstOutcome (handle : UInt32) (doStop : Bool) : List Info → Option (Bool × List Info)
  | [] => none
  | i::is =>
    match (eventOf handle i).bind (judge doStop) with
    | some r => some (r,is)
    | none => firstOutcome handle doStop is

section
variable {L M : List UInt8} {k fuel : Nat} {b : Buffered UInt8 1024} {handle : UInt32}
  {doStop : Bool} {is : List Info}

/-- What is returned for an outcome. -/
def exitCode (r : Bool) : Nat := if r then 0 else 1

/-- The event of a packet is judged, and the packet is taken. -/
theorem gives_processServiceEvent {key : UInt32} {event : ServiceEvent} {x n : UInt8}
    {t : List UInt8} {pktlen : Nat} (hlen : pktlen=t.length+7) (h21 : x=101 → 21≤ pktlen) :
    Gives (processServiceEvent pktlen handle doStop)
      (x::n::(nativeBytes 4 key.toNat++event.code::(t++M))) pktlen
      (((if key=handle then some event else none).bind (judge doStop)).map exitCode) M 0 := by
  refine (gives_byteAt (x := x) (by omega) rfl).bind ?_
  have hdrop : (x::n::(nativeBytes 4 key.toNat++event.code::(t++M))).drop pktlen=M := by
    have hp : x::n::(nativeBytes 4 key.toNat++event.code::(t++M))=
        (x::n::(nativeBytes 4 key.toNat++event.code::t))++M := by simp
    rw [hp]
    refine List.drop_left' ?_
    simp [nativeBytes_length]
    omega
  rw [if_neg (by omega),if_neg (by intro h; have h' := h21 h.1; omega)]
  refine (gives_extract_append (a := nativeBytes 4 key.toNat) rfl rfl (le_refl _) (by omega)).bind ?_
  refine (gives_byteAt (x := event.code) (by omega) rfl).bind ?_
  refine (gives_consume (by decide) (le_refl _)).bind ?_
  rw [hdrop,native_key,Nat.sub_self]
  by_cases hk : key=handle
  · subst hk
    simp only [if_true]
    cases event <;> cases doStop <;> exact gives_pure _
  · rw [if_neg (by rwa [UInt32.toNat_inj]),if_neg hk]
    exact gives_pure _

variable (handle doStop) in
/-- The same for the packet of an information. -/
theorem gives_processInfo {i : Info} {x n : UInt8} {t : List UInt8} (hp : i.packet=x::n::t)
    (hx : x=100 ∨ x=101) :
    Gives (processServiceEvent i.packet.length handle doStop) (i.packet++M) i.packet.length
      (((eventOf handle i).bind (judge doStop)).map exitCode) M 0 := by
  rcases i with ⟨key,event,status⟩ | ⟨key,event,status⟩ | ⟨o,v⟩
  · rw [Info.serviceEvent_length]
    exact gives_processServiceEvent (t := status.buffer) (by rw [status.buffer_length])
      (fun h => absurd h (by decide))
  · rw [Info.serviceEvent5_length]
    exact gives_processServiceEvent (t := status.buffer5) (by rw [status.buffer5_length])
      (fun _ => le_refl _)
  · have h102 : 102=x := (List.cons.inj hp).1
    rcases hx with h | h <;> rw [← h102] at h <;> exact absurd h (by decide)

/-- One turn of the loop: a packet is taken, and the loop ends if it tells the outcome. -/
theorem waitLoop_turn {i : Info} (hi : i.Sized) (hb : b.At (i.packet++M) k) :
    ∃ b',b'.At M 0 ∧ waitLoop handle doStop (fuel+1) b=
      match (eventOf handle i).bind (judge doStop) with
      | some r => (.ok (exitCode r),b')
      | none => waitLoop handle doStop fuel b' := by
  obtain ⟨x,n,t,hp,hx⟩ := i.packet_cons
  obtain ⟨n',hn,hlen⟩ := hi
  obtain rfl : n=n' := by
    rw [hp] at hn
    exact Option.some.inj hn
  have hlt := n.toNat_lt
  have hpl : 2≤ i.packet.length := by
    rw [hp]
    simp
  have hget0 : (i.packet++M)[0]?=some x := by rw [hp]; rfl
  have hget1 : (i.packet++M)[1]?=some n := by rw [hp]; rfl
  obtain ⟨b1,he1,hb1⟩ := gives_fillTo ClientError.protocol (n := 2) (by decide)
    (by rw [List.length_append]; omega) b hb
  have hl1 := hb1.len
  have he2 := byteAt_run (ε := ClientError) hb1 (by omega) hget0
  have he3 := byteAt_run (ε := ClientError) hb1 (by omega) hget1
  obtain ⟨b4,he4,hb4⟩ := gives_fillBufferTo (n := n.toNat) (by omega)
    (by rw [List.length_append]; omega) b1 hb1
  have hb4' : b4.At (i.packet++M) i.packet.length := hb4.mono (by omega)
  rw [waitLoop,bind_ok he1,bind_ok he2,if_pos hx,bind_ok he3,bind_ok he4,hlen]
  by_cases hs : x=100 ∨ x=101
  · obtain ⟨b5,he5,hb5⟩ := gives_processInfo handle doStop hp hs b4 hb4'
    refine ⟨b5,hb5,?_⟩
    rw [if_pos hs,bind_ok he5]
    cases (eventOf handle i).bind (judge doStop) with
    | some r => rfl
    | none => rfl
  · obtain ⟨b5,he5,hb5⟩ := gives_consume (ε := ClientError) (by decide) (le_refl _) b4 hb4'
    rw [List.drop_left,Nat.sub_self] at hb5
    refine ⟨b5,hb5,?_⟩
    rw [if_neg hs,bind_ok he5]
    rcases i with ⟨key,event,status⟩ | ⟨key,event,status⟩ | ⟨o,v⟩
    · exact absurd (.inl (List.cons.inj hp).1.symm) hs
    · exact absurd (.inr (List.cons.inj hp).1.symm) hs
    · rfl

/-- The loop ends with the first event that tells the outcome. -/
theorem waitLoop_gives {r : Bool} {rest : List Info} (his : ∀ i ∈ is,i.Sized)
    (h : firstOutcome handle doStop is=some (r,rest)) (hf : is.length<fuel) :
    Gives (waitLoop handle doStop fuel) (infoBytes is++M) k (exitCode r) (infoBytes rest++M) 0 := by
  induction is generalizing fuel k with
  | nil => cases h
  | cons i is ih =>
    obtain ⟨fuel,rfl⟩ : ∃ n,fuel=n+1 := ⟨fuel-1,by omega⟩
    intro b hb
    rw [infoBytes,List.flatMap_cons,List.append_assoc] at hb
    rw [List.length_cons] at hf
    obtain ⟨b',hb',he⟩ := waitLoop_turn (his i List.mem_cons_self) hb
    rw [he]
    rw [firstOutcome] at h
    cases hj : (eventOf handle i).bind (judge doStop) with
    | some r' =>
      rw [hj] at h
      obtain ⟨rfl,rfl⟩ := Prod.mk.inj (Option.some.inj h)
      exact ⟨b',rfl,hb'⟩
    | none =>
      rw [hj] at h
      exact ih (fun j hj => his j (List.mem_cons_of_mem i hj)) h (by omega) b' hb'

/-- Without such an event it waits for more. -/
theorem waitLoop_fails (his : ∀ i ∈ is,i.Sized) (h : firstOutcome handle doStop is=none) :
    Fails (waitLoop handle doStop fuel) (infoBytes is) k := by
  induction is generalizing fuel k with
  | nil =>
    cases fuel with
    | zero => exact fails_throw _
    | succ fuel => exact (fails_fillTo ClientError.protocol (by decide)).bind
  | cons i is ih =>
    cases fuel with
    | zero => exact fails_throw _
    | succ fuel =>
      intro b hb
      rw [infoBytes,List.flatMap_cons] at hb
      obtain ⟨b',hb',he⟩ := waitLoop_turn (his i List.mem_cons_self) hb
      rw [he]
      rw [firstOutcome] at h
      cases hj : (eventOf handle i).bind (judge doStop) with
      | some r' =>
        rw [hj] at h
        cases h
      | none =>
        rw [hj] at h
        exact ih (fun j hj => his j (List.mem_cons_of_mem i hj)) h b' hb'

theorem waitServiceState_gives {r : Bool} {rest : List Info} (his : ∀ i ∈ is,i.Sized)
    (h : firstOutcome handle doStop is=some (r,rest)) :
    Gives (waitServiceState handle doStop) (infoBytes is++M) k (exitCode r) (infoBytes rest++M) 0 := by
  have hl := length_le_infoBytes is
  refine gives_loop fun fuel hf => waitLoop_gives his h ?_
  rw [List.length_append] at hf
  omega

theorem waitServiceState_fails (his : ∀ i ∈ is,i.Sized) (h : firstOutcome handle doStop is=none) :
    Fails (waitServiceState handle doStop) (infoBytes is) k :=
  fails_loop fun _ => waitLoop_fails his h

end

/-- The outcome of a command, as the events tell it. A restart is over when the service has
stopped, and then started or failed to. -/
def outcome (handle : UInt32) : CtlCmd → List Info → Option Bool
  | .restartService,is =>
    match firstOutcome handle true is with
    | none => none
    | some (false,_) => some false
    | some (true,rest) => (firstOutcome handle false rest).map Prod.fst
  | command,is => (firstOutcome handle command.doStop is).map Prod.fst

/-- The service has stopped, by these events. -/
def sawStopped (handle : UInt32) (is : List Info) : Bool :=
  is.any fun i => eventOf handle i==some .stopped

/-- What the events behind the reply tell by themselves, for a restart of a service that has or has
not stopped before. -/
def outcomeBehind (handle : UInt32) (command : CtlCmd) (stopped : Bool) (is : List Info) :
    Option Bool :=
  if command=.restartService ∧ stopped=false then outcome handle command is
  else (firstOutcome handle command.doStop is).map Prod.fst

section
variable {M : List UInt8} {k : Nat} {b : Buffered UInt8 1024} {handle : UInt32} {command : CtlCmd}
  {is js : List Info} {seen : ObservedStates}

theorem foldl_see_stopped (is : List Info) (seen : ObservedStates) :
    (is.foldl (·.see handle) seen).stopped=(seen.stopped || sawStopped handle is) := by
  induction is generalizing seen with
  | nil => simp [sawStopped]
  | cons i is ih =>
    have hi : (seen.see handle i).stopped=(seen.stopped || eventOf handle i==some .stopped) := by
      unfold ObservedStates.see eventOf
      rcases i with ⟨key,event,status⟩ | ⟨key,event,status⟩ | ⟨o,v⟩
      · by_cases h : key=handle
        · cases event <;> simp [h]
        · simp [h]
      · by_cases h : key=handle
        · cases event <;> simp [h]
        · simp [h]
      · simp
    rw [List.foldl_cons,ih,hi,sawStopped,sawStopped,List.any_cons,Bool.or_assoc]

theorem firstOutcome_append {doStop : Bool} (is js : List Info) :
    firstOutcome handle doStop (is++js)=
      match firstOutcome handle doStop is with
      | some (r,rest) => some (r,rest++js)
      | none => firstOutcome handle doStop js := by
  induction is with
  | nil => rfl
  | cons i is ih =>
    rw [List.cons_append,firstOutcome,firstOutcome]
    cases (eventOf handle i).bind (judge doStop) with
    | some r => rfl
    | none => exact ih

theorem outcome_of_ne (h : command≠.restartService) (is : List Info) :
    outcome handle command is=(firstOutcome handle command.doStop is).map Prod.fst := by
  cases command with
  | restartService => exact absurd rfl h
  | _ => rfl

theorem outcomeBehind_of_ne (h : command≠.restartService) (stopped : Bool) (is : List Info) :
    outcomeBehind handle command stopped is=outcome handle command is := by
  rw [outcomeBehind,if_neg (fun hr => h hr.1),outcome_of_ne h]

/-- What comes later does not change an outcome. -/
theorem outcome_append_of_some {r : Bool} (h : outcome handle command is=some r) :
    outcome handle command (is++js)=some r := by
  by_cases hc : command=.restartService
  · subst hc
    rw [outcome] at h ⊢
    rw [firstOutcome_append]
    cases hs : firstOutcome handle true is with
    | none =>
      rw [hs] at h
      cases h
    | some p =>
      obtain ⟨_ | _,rest⟩ := p
      · rw [hs] at h
        exact h
      · rw [hs] at h
        simp only at h ⊢
        rw [firstOutcome_append]
        cases hf : firstOutcome handle false rest with
        | none =>
          rw [hf] at h
          cases h
        | some p =>
          rw [hf] at h
          exact h
  · rw [outcome_of_ne hc] at h ⊢
    rw [firstOutcome_append]
    cases hf : firstOutcome handle command.doStop is with
    | none =>
      rw [hf] at h
      cases h
    | some p =>
      rw [hf] at h
      exact h

/-- One who waits for the service to be stopped is told by the event that it has. -/
theorem judge_stopped (event : ServiceEvent) : judge true event=some true ↔ event=.stopped := by
  cases event <;> decide

theorem sawStopped_of_firstOutcome {rest : List Info}
    (h : firstOutcome handle true is=some (true,rest)) : sawStopped handle is=true := by
  induction is with
  | nil => cases h
  | cons i is ih =>
    rw [sawStopped,List.any_cons,Bool.or_eq_true]
    rw [firstOutcome] at h
    cases hj : (eventOf handle i).bind (judge true) with
    | some r =>
      rw [hj] at h
      obtain ⟨rfl,-⟩ := Prod.mk.inj (Option.some.inj h)
      obtain ⟨event,he,hev⟩ := Option.bind_eq_some_iff.mp hj
      rw [he,(judge_stopped event).mp hev]
      exact .inl (beq_self_eq_true _)
    | none =>
      rw [hj] at h
      exact .inr (ih h)

theorem not_sawStopped_of_firstOutcome (h : firstOutcome handle true is=none) :
    sawStopped handle is=false := by
  induction is with
  | nil => rfl
  | cons i is ih =>
    rw [sawStopped,List.any_cons,Bool.or_eq_false_iff]
    rw [firstOutcome] at h
    cases hj : (eventOf handle i).bind (judge true) with
    | some r =>
      rw [hj] at h
      cases h
    | none =>
      rw [hj] at h
      refine ⟨?_,ih h⟩
      rw [beq_eq_false_iff_ne]
      intro he
      rw [he] at hj
      cases hj

/-- Without an outcome before the reply, the events behind it tell it. -/
theorem outcome_append_of_none (h : outcome handle command is=none) :
    outcome handle command (is++js)=outcomeBehind handle command (sawStopped handle is) js := by
  by_cases hc : command=.restartService
  · subst hc
    rw [outcome] at h
    rw [outcome,firstOutcome_append]
    cases hs : firstOutcome handle true is with
    | none =>
      rw [not_sawStopped_of_firstOutcome hs]
      rfl
    | some p =>
      obtain ⟨_ | _,rest⟩ := p
      · rw [hs] at h
        cases h
      · rw [sawStopped_of_firstOutcome hs]
        rw [hs] at h
        simp only at h ⊢
        rw [firstOutcome_append,Option.map_eq_none_iff.mp h]
        rfl
  · rw [outcomeBehind_of_ne hc,outcome_of_ne hc,outcome_of_ne hc,firstOutcome_append]
    rw [outcome_of_ne hc] at h
    rw [Option.map_eq_none_iff.mp h]

variable (handle) in
theorem waitServiceState_run (doStop : Bool) (hjs : ∀ i ∈ js,i.Sized) (hb : b.At (infoBytes js) k) :
    match firstOutcome handle doStop js with
    | some (r,rest) => ∃ b',waitServiceState handle doStop b=(.ok (exitCode r),b') ∧
      b'.At (infoBytes rest) 0
    | none => ∃ e b',waitServiceState handle doStop b=(.error e,b') := by
  cases h : firstOutcome handle doStop js with
  | none =>
    obtain ⟨e,b',he,-⟩ := waitServiceState_fails hjs h b hb
    exact ⟨e,b',he⟩
  | some p =>
    have hg := waitServiceState_gives (M := []) (k := k) hjs h
    rw [List.append_nil,List.append_nil] at hg
    exact hg b hb

theorem mem_of_firstOutcome {doStop r : Bool} {rest : List Info}
    (h : firstOutcome handle doStop js=some (r,rest)) : ∀ i ∈ rest,i ∈ js := by
  induction js with
  | nil => cases h
  | cons j js ih =>
    rw [firstOutcome] at h
    cases hj : (eventOf handle j).bind (judge doStop) with
    | some r' =>
      rw [hj] at h
      obtain ⟨-,rfl⟩ := Prod.mk.inj (Option.some.inj h)
      exact fun i hi => List.mem_cons_of_mem j hi
    | none =>
      rw [hj] at h
      exact fun i hi => List.mem_cons_of_mem j (ih h i hi)

variable (handle command seen) in
/-- The end of `start_stop_service` does as the events behind the reply tell. -/
theorem awaitOutcome_run (hjs : ∀ i ∈ js,i.Sized) (hb : b.At (infoBytes js) k) :
    match outcomeBehind handle command seen.stopped js with
    | some r => ∃ b',awaitOutcome command handle seen b=(.ok (exitCode r),b')
    | none => ∃ e b',awaitOutcome command handle seen b=(.error e,b') := by
  have hlast : ∀ {is : List Info} {b : Buffered UInt8 1024} {k : Nat},(∀ i ∈ is,i.Sized) →
      b.At (infoBytes is) k →
      match (firstOutcome handle command.doStop is).map Prod.fst with
      | some r => ∃ b',waitServiceState handle command.doStop b=(.ok (exitCode r),b')
      | none => ∃ e b',waitServiceState handle command.doStop b=(.error e,b') := by
    intro is b k his hb
    have h := waitServiceState_run handle command.doStop his hb
    cases hf : firstOutcome handle command.doStop is with
    | none =>
      rw [hf] at h
      exact h
    | some p =>
      rw [hf] at h
      exact ⟨h.choose,h.choose_spec.1⟩
  rw [outcomeBehind,awaitOutcome]
  by_cases hc : command=.restartService ∧ seen.stopped=false
  · rw [if_pos hc,if_pos hc]
    obtain ⟨rfl,-⟩ := hc
    have h := waitServiceState_run handle true hjs hb
    rw [outcome]
    cases hs : firstOutcome handle true js with
    | none =>
      rw [hs] at h
      obtain ⟨e,b',he⟩ := h
      exact ⟨e,b',bind_error he⟩
    | some p =>
      obtain ⟨r,rest⟩ := p
      rw [hs] at h
      obtain ⟨b1,he1,hb1⟩ := h
      rw [bind_ok he1]
      cases r with
      | false => exact ⟨b1,rfl⟩
      | true => exact hlast (fun i hi => hjs i (mem_of_firstOutcome hs i hi)) hb1
  · rw [if_neg hc,if_neg hc]
    exact hlast hjs hb

end

end Client

end Dinit
