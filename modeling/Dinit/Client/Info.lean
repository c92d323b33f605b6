import Dinit.Client.Reply

namespace Dinit

open Framework Framework.Reader

namespace Info

/-- A packet that says how long it is. -/
def Sized (i : Info) : Prop := ∃ n ∈ i.packet[1]?,n.toNat=i.packet.length

/-- The first byte, and one that says a length, are in every information packet. -/
theorem packet_cons (i : Info) : ∃ x n t,i.packet=x::n::t ∧ Client.isInfo x=true := by
  rcases i with ⟨key,event,status⟩ | ⟨key,event,status⟩ | ⟨o,v⟩
  · exact ⟨_,_,_,rfl,by decide⟩
  · exact ⟨_,_,_,rfl,by decide⟩
  · exact ⟨_,_,_,rfl,by decide⟩

theorem serviceEvent_length (key : UInt32) (event : ServiceEvent) (status : SvcStatus) :
    (packet (.serviceEvent key event status)).length=17 := by
  simp [packet,nativeBytes_length,status.buffer_length]

theorem serviceEvent5_length (key : UInt32) (event : ServiceEvent) (status : SvcStatus) :
    (packet (.serviceEvent5 key event status)).length=21 := by
  simp [packet,nativeBytes_length,status.buffer5_length]

/-- All but the environment events say how long they are, and these do only if they are without
a string. -/
theorem sized_iff (i : Info) :
    i.Sized ↔ ∀ overridden varAndVal,i=.environEvent overridden varAndVal →
      (varAndVal.length+1)%2^16=0 := by
  rcases i with ⟨key,event,status⟩ | ⟨key,event,status⟩ | ⟨o,v⟩
  · exact iff_of_true ⟨17,rfl,(serviceEvent_length key event status).symm⟩ fun _ _ h => by cases h
  · exact iff_of_true ⟨21,rfl,(serviceEvent5_length key event status).symm⟩ fun _ _ h => by cases h
  · have hlen : (packet (.environEvent o v)).length=5+(v.length+1)%2^16 := by
      have hle : (v.length+1)%2^16≤ v.length+1 := Nat.mod_le _ _
      simp only [packet,List.length_append,List.length_take,nativeBytes_length,List.length_cons,
        List.length_nil]
      omega
    constructor
    · rintro ⟨n,hn,h⟩ o' v' heq
      obtain rfl : 5=n := Option.some.inj hn
      cases heq
      rw [hlen] at h
      have h5 : (5 : UInt8).toNat=5 := rfl
      omega
    · intro h
      refine ⟨5,rfl,?_⟩
      rw [hlen,h o v rfl]
      rfl

end Info

/-- The bytes of information packets, one behind another. -/
def infoBytes (is : List Info) : List UInt8 := is.flatMap Info.packet

namespace Client

/-- What an information packet shows of the service with the given handle. -/
def ObservedStates.see (handle : UInt32) (seen : ObservedStates) : Info → ObservedStates
  | .serviceEvent key event status =>
    if key=handle then
      match event with
      | .started => { seen with started := true }
      | .stopped => { seen with stopped := true }
      | .failedStart => { seen with
        failedStart := true
        stopReason := status.stopReason.code
        exitStatus := native ((status.buffer.drop 6).take 4) }
      | .startCancelled | .stopCancelled => seen
    else seen
  | .serviceEvent5 key event status =>
    if key=handle then
      match event with
      | .started => { seen with started := true }
      | .stopped => { seen with stopped := true }
      | .failedStart => { seen with
        failedStart := true
        stopReason := status.stopReason.code
        exitStatus := native ((status.buffer5.drop 6).take 4)
        exitSiCode := native ((status.buffer5.drop 6).take 4)
        exitSiStatus := native ((status.buffer5.drop 10).take 4) }
      | .startCancelled | .stopCancelled => seen
    else seen
  | .environEvent _ _ => seen

section
variable {L M N : List UInt8} {k j fuel : Nat} {handle : UInt32} {seen : ObservedStates}

theorem gives_fillBufferTo {n : Nat} (hn : n≤1024) (hL : n≤ L.length) :
    Gives (fillBufferTo n) L k () L (max k n) := gives_fillTo ClientError.read hn hL

/-- The type and the length are read, and the packet is in the buffer from its second byte on. -/
theorem gives_header {i : Info} (hi : i.Sized) (hM : M≠[]) {γ : Type} {c : γ}
    {f : UInt8 → Client γ} (h : ∀ n : UInt8,n.toNat=i.packet.length →
      Gives (f n) ((i.packet++M).drop 1) i.packet.length c N j) :
    Gives (do
      fillBufferTo 2
      let pktlen ← byteAt 1
      consume 1
      fillBufferTo pktlen.toNat
      f pktlen) (i.packet++M) k c N j := by
  obtain ⟨n,hn,hlen⟩ := hi
  have hm := List.length_pos_of_ne_nil hM
  have hn1 : 1< i.packet.length := (List.getElem?_eq_some_iff.mp hn).1
  have hlt := n.toNat_lt
  refine (gives_fillBufferTo (by decide) (by rw [List.length_append]; omega)).bind ?_
  refine (gives_byteAt (x := n) (by omega) ?_).bind ?_
  · rw [List.getElem?_append_left hn1]
    exact hn
  refine (gives_consume (by decide) (by omega)).bind ?_
  refine (gives_fillBufferTo (by omega) ?_).bind ?_
  · rw [List.length_drop,List.length_append]
    omega
  exact (h n hlen).mono (by omega) (le_refl _)

/-- The rest of the packet goes, and the first byte of the next one is there. -/
theorem gives_rest {i : Info} (hi : i.Sized) :
    Gives (consume ((i.packet.length+2^32-1)%2^32) : Client Unit) ((i.packet++M).drop 1)
      i.packet.length () M 1 := by
  obtain ⟨n,hn,hlen⟩ := hi
  have hn1 : 1< i.packet.length := (List.getElem?_eq_some_iff.mp hn).1
  have hlt := n.toNat_lt
  have hsub : (i.packet.length+2^32-1)%2^32=i.packet.length-1 := by omega
  have hc : Gives (Reader.consume (i.packet.length-1) : Client Unit) ((i.packet++M).drop 1) _ _ _ _ :=
    gives_consume (by decide) (show i.packet.length-1≤ i.packet.length by omega)
  rw [List.drop_drop,show 1+(i.packet.length-1)=i.packet.length by omega,List.drop_left] at hc
  rw [hsub]
  exact hc.mono (le_refl _) (by omega)

/-- The loop goes past information packets that say how long they are, to the reply. -/
theorem skipInfo_gives {is : List Info} {r : UInt8} (his : ∀ i ∈ is,i.Sized)
    (hr : isInfo r=false) (hk : 1≤ k) (hf : is.length<fuel) :
    Gives (skipInfo fuel) (infoBytes is++r::M) k () (r::M) 1 := by
  induction is generalizing fuel k with
  | nil =>
    obtain ⟨fuel,rfl⟩ : ∃ n,fuel=n+1 := ⟨fuel-1,by omega⟩
    rw [skipInfo]
    refine (gives_byteAt (x := r) hk rfl).bind ?_
    rw [hr]
    exact (gives_pure ()).mono (le_refl _) hk
  | cons i is ih =>
    obtain ⟨fuel,rfl⟩ : ∃ n,fuel=n+1 := ⟨fuel-1,by omega⟩
    rw [List.length_cons] at hf
    have hi := his i List.mem_cons_self
    rw [infoBytes,List.flatMap_cons,List.append_assoc,skipInfo]
    obtain ⟨x,n,t,hp,hx⟩ := i.packet_cons
    refine (gives_byteAt (x := x) hk (by rw [hp]; rfl)).bind ?_
    rw [if_pos hx]
    refine gives_header hi (by simp) fun n hn => ?_
    rw [hn]
    refine (gives_rest hi).bind ?_
    exact ih (fun q hq => his q (List.mem_cons_of_mem i hq)) (le_refl _) (by omega)

theorem length_le_infoBytes (is : List Info) : is.length≤(infoBytes is).length := by
  induction is with
  | nil => exact le_refl _
  | cons i is ih =>
    obtain ⟨x,n,t,hp,-⟩ := i.packet_cons
    rw [infoBytes] at ih ⊢
    rw [List.flatMap_cons,List.length_append,List.length_cons,hp]
    simp only [List.length_cons]
    omega

/-- A loop that goes past information packets has turns enough for them. -/
theorem gives_pastInfo {is : List Info} {r : UInt8} {f : Nat → Client α} {a : α}
    (h : ∀ fuel k,1≤ k → is.length<fuel → Gives (f fuel) (infoBytes is++r::M) k a (r::M) 1) :
    Gives (do fillBufferTo 1; loop f) (infoBytes is++r::M) k a (r::M) 1 := by
  have hlen : 1≤(infoBytes is++r::M).length := by
    rw [List.length_append,List.length_cons]
    omega
  refine (gives_fillBufferTo (by decide) hlen).bind ?_
  have hl := length_le_infoBytes is
  refine gives_loop fun fuel hf => h fuel _ (by omega) ?_
  rw [List.length_append] at hf
  omega

/-- `wait_for_reply` past information packets, however the stream is cut into reads. -/
theorem waitForReply_gives {is : List Info} {r : UInt8} (his : ∀ i ∈ is,i.Sized)
    (hr : isInfo r=false) : Gives waitForReply (infoBytes is++r::M) k () (r::M) 1 :=
  gives_pastInfo fun _ _ hk hf => skipInfo_gives his hr hk hf

/-- `wait_for_reply` with no information packet before the reply. -/
theorem waitForReply_none {r : UInt8} (hr : isInfo r=false) :
    Gives waitForReply (r::M) k () (r::M) 1 :=
  waitForReply_gives (fun _ h => absurd h List.not_mem_nil) hr

/-- Four bytes of a status are extracted. -/
theorem gives_extract_append {a b : List UInt8} {i : Nat} (hL : L.drop i=a++M) (ha : a.take 4=b)
    (hb : 4≤ a.length) (hk : i+4≤ k) :
    Gives (Reader.extract i 4 : Client (List UInt8)) L k b L k := by
  have h : Gives (Reader.extract i 4 : Client (List UInt8)) L k _ L k := gives_extract hk
  rw [hL,List.take_append_of_le_length hb,ha] at h
  exact h

theorem native_key (key : UInt32) : native ((nativeBytes 4 key.toNat).take 4)=key.toNat := by
  show native (nativeBytes 4 key.toNat)=_
  rw [native_nativeBytes]
  exact Nat.mod_eq_of_lt key.toNat_lt

/-- What is seen of a service, when `failed` is what is seen of a failed start. -/
theorem gives_seen {m : Client ObservedStates} {L : List UInt8} {failed : ObservedStates}
    (key : UInt32) (event : ServiceEvent) (hm : Gives m L k failed L k) :
    Gives (if native ((nativeBytes 4 key.toNat).take 4)=handle.toNat then
        if event.code=ServiceEvent.failedStart.code then m
        else pure { seen with
          stopped := seen.stopped || event.code==ServiceEvent.stopped.code
          started := seen.started || event.code==ServiceEvent.started.code }
      else pure seen) L k
      (if key=handle then
        if event=.failedStart then failed
        else { seen with
          stopped := seen.stopped || decide (event=.stopped)
          started := seen.started || decide (event=.started) }
      else seen) L k := by
  rw [native_key]
  by_cases h : key=handle
  · rw [if_pos h,if_pos (congrArg UInt32.toNat h)]
    cases event with
    | failedStart => exact hm
    | _ => exact gives_pure _
  · rw [if_neg h,if_neg (by rwa [UInt32.toNat_inj])]
    exact gives_pure seen

theorem observe_serviceEvent (key : UInt32) (event : ServiceEvent) (status : SvcStatus) :
    Gives (observe handle 100 17 seen)
      (((Info.serviceEvent key event status).packet++M).drop 1) 17
      (seen.see handle (.serviceEvent key event status))
      (((Info.serviceEvent key event status).packet++M).drop 1) 17 := by
  have hsee : seen.see handle (.serviceEvent key event status)=if key=handle then
      if event=.failedStart then { seen with
        failedStart := true
        stopReason := status.stopReason.code
        exitStatus := native ((status.buffer.drop 6).take 4) }
      else { seen with
        stopped := seen.stopped || decide (event=.stopped)
        started := seen.started || decide (event=.started) }
      else seen := by cases event <;> simp [ObservedStates.see]
  rw [observe,if_pos (.inl rfl),if_neg (by decide),hsee]
  refine (gives_extract_append (a := nativeBytes 4 key.toNat) rfl rfl (le_refl _) (by decide)).bind ?_
  refine (gives_byteAt (x := event.code) (by decide) rfl).bind (gives_seen key event ?_)
  refine (gives_byteAt (x := status.stopReason.code) (by decide) rfl).bind ?_
  refine (gives_extract_append (a := status.buffer.drop 6) rfl rfl (le_refl _) (by decide)).bind ?_
  exact gives_pure _

theorem observe_serviceEvent5 (key : UInt32) (event : ServiceEvent) (status : SvcStatus) :
    Gives (observe handle 101 21 seen)
      (((Info.serviceEvent5 key event status).packet++M).drop 1) 21
      (seen.see handle (.serviceEvent5 key event status))
      (((Info.serviceEvent5 key event status).packet++M).drop 1) 21 := by
  have hl := status.buffer5_length
  have hsee : seen.see handle (.serviceEvent5 key event status)=if key=handle then
      if event=.failedStart then { seen with
        failedStart := true
        stopReason := status.stopReason.code
        exitStatus := native ((status.buffer5.drop 6).take 4)
        exitSiCode := native ((status.buffer5.drop 6).take 4)
        exitSiStatus := native ((status.buffer5.drop 10).take 4) }
      else { seen with
        stopped := seen.stopped || decide (event=.stopped)
        started := seen.started || decide (event=.started) }
      else seen := by cases event <;> simp [ObservedStates.see]
  rw [observe,if_pos (.inr rfl),if_neg (by decide),hsee]
  refine (gives_extract_append (a := nativeBytes 4 key.toNat) rfl rfl (le_refl _) (by decide)).bind ?_
  refine (gives_byteAt (x := event.code) (by decide) rfl).bind (gives_seen key event ?_)
  refine (gives_byteAt (x := status.stopReason.code) (by decide) rfl).bind ?_
  refine (gives_extract_append (a := status.buffer5.drop 6) rfl rfl ?_ (by decide)).bind ?_
  · rw [List.length_drop]
    omega
  rw [if_pos rfl,if_neg (by decide)]
  refine (gives_extract_append (M := M) (a := status.buffer5.drop 10) ?_ rfl ?_ (by decide)).bind ?_
  · show ((status.buffer5.drop 6)++M).drop 4=_
    rw [List.drop_append_of_le_length (by rw [List.length_drop]; omega),List.drop_drop]
  · rw [List.length_drop]
    omega
  exact gives_pure _

/-- What is seen is what the packet says of the service, whatever comes behind it. -/
theorem observe_gives {i : Info} (hi : i.Sized) {x n : UInt8} {t : List UInt8}
    (hp : i.packet=x::n::t) :
    Gives (observe handle x i.packet.length seen) ((i.packet++M).drop 1) i.packet.length
      (seen.see handle i) ((i.packet++M).drop 1) i.packet.length := by
  rcases i with ⟨key,event,status⟩ | ⟨key,event,status⟩ | ⟨o,v⟩
  · have hx : 100=x := (List.cons.inj hp).1
    rw [← hx,Info.serviceEvent_length]
    exact observe_serviceEvent key event status
  · have hx : 101=x := (List.cons.inj hp).1
    rw [← hx,Info.serviceEvent5_length]
    exact observe_serviceEvent5 key event status
  · have hx : 102=x := (List.cons.inj hp).1
    rw [← hx]
    exact gives_pure seen

theorem skipSeen_gives {is : List Info} {r : UInt8} (his : ∀ i ∈ is,i.Sized)
    (hr : isInfo r=false) (hk : 1≤ k) (hf : is.length<fuel) :
    Gives (skipSeen handle fuel seen) (infoBytes is++r::M) k (is.foldl (·.see handle) seen)
      (r::M) 1 := by
  induction is generalizing fuel k seen with
  | nil =>
    obtain ⟨fuel,rfl⟩ : ∃ n,fuel=n+1 := ⟨fuel-1,by omega⟩
    rw [skipSeen]
    refine (gives_byteAt (x := r) hk rfl).bind ?_
    rw [hr]
    exact (gives_pure seen).mono (le_refl _) hk
  | cons i is ih =>
    obtain ⟨fuel,rfl⟩ : ∃ n,fuel=n+1 := ⟨fuel-1,by omega⟩
    rw [List.length_cons] at hf
    have hi := his i List.mem_cons_self
    rw [infoBytes,List.flatMap_cons,List.append_assoc,skipSeen]
    obtain ⟨x,n,t,hp,hx⟩ := i.packet_cons
    refine (gives_byteAt (x := x) hk (by rw [hp]; rfl)).bind ?_
    rw [if_pos hx]
    refine gives_header hi (by simp) fun n hn => ?_
    rw [hn]
    refine (observe_gives hi hp).bind ((gives_rest hi).bind ?_)
    exact ih (fun q hq => his q (List.mem_cons_of_mem i hq)) (le_refl _) (by omega)

variable (handle seen) in
/-- The other form of it keeps what the packets show of the service. -/
theorem waitForReplySeen_gives {is : List Info} {r : UInt8} (his : ∀ i ∈ is,i.Sized)
    (hr : isInfo r=false) :
    Gives (waitForReplySeen handle seen) (infoBytes is++r::M) k (is.foldl (·.see handle) seen)
      (r::M) 1 :=
  gives_pastInfo fun _ _ hk hf => skipSeen_gives his hr hk hf

end

end Client

end Dinit
