import Dinit.Client.Decode

namespace Dinit

open Framework Framework.Reader

namespace Client

/-- The process of a service, or how it ended: in the old form, or in that of version 5. -/
inductive Detail
  | pid (pid : Nat)
  | exitStatus (exitStatus : Nat)
  | exitSi (exitSiCode exitSiStatus : Nat)
deriving DecidableEq

/-- What is read of a service. -/
structure Entry where
  name : List UInt8
  current : UInt8
  target : UInt8
  hasConsole : Bool
  waitingConsole : Bool
  wasSkipped : Bool
  markedActive : Bool
  stopReason : UInt8
  detail : Detail
deriving DecidableEq

/-- The name, which may go on at the start of the buffer. -/
def readName (hdrsize nameLen : Nat) : Client (List UInt8) := do
  let contiguous ← contiguousLength hdrsize
  let clength := min contiguous nameLen
  let front ← sliceAt hdrsize clength
  let back ← sliceBase (nameLen-clength)
  pure (front++back)

def readDetail (v5 hasPid : Bool) : Client Detail :=
  if hasPid then do
    let servicePid ← Reader.extract 8 4
    pure (.pid (native servicePid))
  else if v5 then do
    let exitSiCode ← Reader.extract 8 4
    let exitSiStatus ← Reader.extract 12 4
    pure (.exitSi (native exitSiCode) (native exitSiStatus))
  else do
    let exitStatus ← Reader.extract 8 4
    pure (.exitStatus (native exitStatus))

/-- One `SVCINFO` packet -/
def readEntry (v5 : Bool) : Client Entry := do
  let hdrsize := 2+if v5 then 14 else 10
  fillBufferTo hdrsize
  let nameLen ← byteAt 1
  let current ← byteAt 2
  let target ← byteAt 3
  let consoleFlags ← byteAt 4
  let stopReason ← byteAt 5
  let detail ← readDetail v5 (consoleFlags &&& 16!=0)
  fillBufferTo (nameLen.toNat+hdrsize)
  let name ← readName hdrsize nameLen.toNat
  consume (hdrsize+nameLen.toNat)
  pure {
    name := name
    current := current
    target := target
    hasConsole := consoleFlags &&& 2!=0
    waitingConsole := consoleFlags &&& 1!=0
    wasSkipped := consoleFlags &&& 4!=0
    markedActive := consoleFlags &&& 8!=0
    stopReason := stopReason
    detail := detail }

/-- The loop of `list_services`; true when it ends with `LISTDONE` -/
def listLoop (v5 : Bool) : Nat → List Entry → Client (List Entry × Bool)
  | 0,_ => throw .read
  | fuel+1,entries => do
    let replyPktH ← byteAt 0
    if replyPktH=62 then do
      let entry ← readEntry v5
      waitForReply
      listLoop v5 fuel (entries++[entry])
    else pure (entries,replyPktH==63)

/-- `list_services`, from the reply on -/
def listServices (v5 : Bool) : Client (List Entry × Bool) := do
  waitForReply
  loop fun fuel => listLoop v5 fuel []

/-- What is to be read of the process of a service. -/
def Detail.of (v5 : Bool) (s : SvcStatus) : Detail :=
  match s.pid with
  | some n => .pid n.toNat
  | none =>
    if s.stopReason=.execfailed then
      if v5 then .exitSi s.execErrno.toNat 0 else .exitStatus s.execErrno.toNat
    else if v5 then .exitSi s.siCode.toNat s.siStatus.toNat
    else .exitStatus (if s.siStatus=0 then 0 else 2^32-1)

/-- What is to be read of a service. -/
def Entry.of (v5 : Bool) (name : List UInt8) (s : SvcStatus) : Entry where
  name := name
  current := s.state.code
  target := s.targetState.code
  hasConsole := s.hasConsole
  waitingConsole := s.waitingForConsole
  wasSkipped := s.wasStartSkipped
  markedActive := s.isMarkedActive
  stopReason := s.stopReason.code
  detail := .of v5 s

/-- The layout of the version -/
def statusBuffer (v5 : Bool) : SvcStatus → List UInt8 :=
  if v5 then SvcStatus.buffer5 else SvcStatus.buffer

section
variable {L M N : List UInt8} {k j fuel : Nat} {b : Buffered UInt8 1024} {v5 : Bool}

theorem flags_bits (s : SvcStatus) :
    (s.flags &&& 1!=0)=s.waitingForConsole ∧ (s.flags &&& 2!=0)=s.hasConsole ∧
    (s.flags &&& 4!=0)=s.wasStartSkipped ∧ (s.flags &&& 8!=0)=s.isMarkedActive ∧
    (s.flags &&& 16!=0)=s.pid.isSome := by
  unfold SvcStatus.flags
  generalize s.waitingForConsole=w
  generalize s.hasConsole=h
  generalize s.wasStartSkipped=k
  generalize s.isMarkedActive=a
  generalize s.pid.isSome=p
  revert w h k a p
  decide

/-- The first bytes of a status, and the rest of it. -/
theorem statusBuffer_eq (v5 : Bool) (s : SvcStatus) :
    ∃ t,statusBuffer v5 s=s.state.code::s.targetState.code::s.flags::s.stopReason.code::
        (nativeBytes 2 s.stage++t) ∧ t.length=if v5 then 8 else 4 := by
  cases v5 with
  | false => exact ⟨_,rfl,nativeBytes_length _ _⟩
  | true =>
    refine ⟨_,rfl,?_⟩
    have h := s.buffer5_length
    simp only [SvcStatus.buffer5,List.length_append,nativeBytes_length,List.length_cons,
      List.length_nil] at h
    simp only [if_true]
    omega

theorem gives_readName {hdrsize nameLen : Nat} (hk : hdrsize+nameLen≤ k) :
    Gives (readName hdrsize nameLen) L k ((L.drop hdrsize).take nameLen) L k := by
  intro b hb
  refine ⟨b,?_,hb⟩
  have hlen := hb.len
  rw [readName,contiguousLength_bind]
  generalize hc : b.ring.contiguousLength (b.ring.ptr hdrsize)=c
  generalize hx : min c nameLen=x
  show (do
    let front ← sliceAt hdrsize x
    let back ← sliceBase (nameLen-x)
    pure (front++back)) b=_
  rw [bind_ok (sliceAt_run hb (by omega) (by omega))]
  by_cases hcn : c<nameLen
  · obtain rfl : c=x := by omega
    have he := sliceBase_run (ε := ClientError) hb (i := hdrsize) (l := nameLen-c) (by omega)
      (by omega)
    rw [bind_ok he,hc,← List.drop_drop]
    show (Except.ok _,b)=_
    rw [← List.take_add,Nat.add_sub_cancel' (Nat.le_of_lt hcn)]
  · obtain rfl : nameLen=x := by omega
    rw [Nat.sub_self,bind_ok (sliceBase_zero b),List.append_nil]
    rfl

theorem native_four {n : Nat} (h : n<2^32) : native ((nativeBytes 4 n).take 4)=n := by
  show native (nativeBytes 4 n)=n
  rw [native_nativeBytes]
  exact Nat.mod_eq_of_lt h

/-- What the bytes behind the first six of a status say. -/
theorem detail_old (s : SvcStatus) :
    (if s.pid.isSome then Detail.pid (native ((s.buffer.drop 6).take 4))
      else .exitStatus (native ((s.buffer.drop 6).take 4)))=.of false s := by
  have ht : s.buffer.drop 6=nativeBytes 4 (match s.pid with
      | some pid => pid.toNat
      | none =>
        if s.stopReason=.execfailed then s.execErrno.toNat
        else if s.siStatus=0 then 0 else 2^32-1) := rfl
  rw [ht]
  unfold Detail.of
  cases s.pid with
  | some pid => simp [native_four pid.toNat_lt]
  | none =>
    by_cases he : s.stopReason=.execfailed
    · simp [he,native_four s.execErrno.toNat_lt]
    · have hlt : (if s.siStatus=0 then 0 else 2^32-1)<2^32 := by split <;> decide
      simp only [he,if_false,native_four hlt]
      rfl

theorem detail_v5 (s : SvcStatus) :
    (if s.pid.isSome then Detail.pid (native ((s.buffer5.drop 6).take 4))
      else .exitSi (native ((s.buffer5.drop 6).take 4)) (native ((s.buffer5.drop 10).take 4)))=
    .of true s := by
  have h4 : native ([0,0,0,0] : List UInt8)=0 := rfl
  unfold Detail.of SvcStatus.buffer5
  cases s.pid with
  | some pid => exact congrArg Detail.pid (native_four pid.toNat_lt)
  | none =>
    by_cases he : s.stopReason=.execfailed
    · simp only [he,if_true]
      exact congrArg (Detail.exitSi · 0) (native_four s.execErrno.toNat_lt)
    · simp only [he,if_false]
      exact congrArg₂ Detail.exitSi (native_four s.siCode.toNat_lt) (native_four s.siStatus.toNat_lt)

theorem statusBuffer_length (v5 : Bool) (s : SvcStatus) :
    (statusBuffer v5 s).length=if v5 then 14 else 10 := by
  cases v5 with
  | false => exact s.buffer_length
  | true => exact s.buffer5_length

variable (v5) in
theorem gives_readDetail {n : UInt8} {s : SvcStatus} (hk : 2+(if v5 then 14 else 10)≤ k) :
    Gives (readDetail v5 s.pid.isSome) (62::n::(statusBuffer v5 s++M)) k (.of v5 s)
      (62::n::(statusBuffer v5 s++M)) k := by
  have hlen := statusBuffer_length v5 s
  have hdrop : ∀ i,i≤(statusBuffer v5 s).length →
      (62::n::(statusBuffer v5 s++M)).drop (2+i)=(statusBuffer v5 s).drop i++M := by
    intro i hi
    rw [Nat.add_comm,List.drop_succ_cons,List.drop_succ_cons,List.drop_append_of_le_length hi]
  have hext : ∀ i,i+4≤(statusBuffer v5 s).length → Gives (Reader.extract (2+i) 4 : Client _)
      (62::n::(statusBuffer v5 s++M)) k (((statusBuffer v5 s).drop i).take 4)
      (62::n::(statusBuffer v5 s++M)) k := by
    intro i hi
    exact gives_extract_append (hdrop i (by omega)) rfl (by rw [List.length_drop]; omega) (by omega)
  cases v5 with
  | false =>
    have h8 := hext 6 (hlen.symm ▸ by decide)
    rw [← detail_old,readDetail]
    by_cases hp : s.pid.isSome=true
    · rw [if_pos hp,if_pos hp]
      exact h8.bind (gives_pure _)
    · rw [if_neg hp,if_neg hp]
      exact h8.bind (gives_pure _)
  | true =>
    have h8 := hext 6 (hlen.symm ▸ by decide)
    have h12 := hext 10 (hlen.symm ▸ by decide)
    rw [← detail_v5,readDetail]
    by_cases hp : s.pid.isSome=true
    · rw [if_pos hp,if_pos hp]
      exact h8.bind (gives_pure _)
    · rw [if_neg hp,if_neg hp]
      exact h8.bind (h12.bind (gives_pure _))

variable (v5) in
/-- A packet is read as far as its length byte says. -/
theorem gives_readEntry {n : UInt8} {s : SvcStatus} (hn : n.toNat≤ M.length) :
    Gives (readEntry v5) (62::n::(statusBuffer v5 s++M)) k (.of v5 (M.take n.toNat) s)
      (M.drop n.toNat) 0 := by
  have hlen := statusBuffer_length v5 s
  have hlt := n.toNat_lt
  obtain ⟨t,ht,-⟩ := statusBuffer_eq v5 s
  obtain ⟨h1,h2,h4,h8,h16⟩ := flags_bits s
  have hget : ∀ i x,(statusBuffer v5 s++M)[i]?=some x →
      (62::n::(statusBuffer v5 s++M))[i+2]?=some x := fun i x h => h
  generalize hh : 2+(if v5 then 14 else 10)=hdr at *
  have hhdr : hdr=2+(statusBuffer v5 s).length := by rw [hlen,hh]
  have hhi : hdr≤16 := by
    rw [← hh]
    split <;> decide
  have hlo : 12≤ hdr := by
    rw [← hh]
    split <;> decide
  have hLlen : (62::n::(statusBuffer v5 s++M)).length=hdr+M.length := by
    rw [List.length_cons,List.length_cons,List.length_append]
    omega
  have hdropM : (62::n::(statusBuffer v5 s++M)).drop hdr=M := by
    rw [hhdr,Nat.add_comm,List.drop_succ_cons,List.drop_succ_cons,List.drop_left]
  have hdetail := gives_readDetail v5 (n := n) (s := s) (M := M) (k := max k hdr)
    (by omega)
  rw [← h16] at hdetail
  rw [readEntry]
  simp only [hh]
  refine (gives_fillBufferTo (by omega) (by omega)).bind ?_
  refine (gives_byteAt (x := n) (by omega) rfl).bind ?_
  refine (gives_byteAt (x := s.state.code) (by omega) (hget 0 _ (by rw [ht]; rfl))).bind ?_
  refine (gives_byteAt (x := s.targetState.code) (by omega) (hget 1 _ (by rw [ht]; rfl))).bind ?_
  refine (gives_byteAt (x := s.flags) (by omega) (hget 2 _ (by rw [ht]; rfl))).bind ?_
  refine (gives_byteAt (x := s.stopReason.code) (by omega) (hget 3 _ (by rw [ht]; rfl))).bind ?_
  refine hdetail.bind ?_
  refine (gives_fillBufferTo (by omega) (by omega)).bind ?_
  refine (gives_readName (by omega)).bind ?_
  refine (gives_consume (by decide) (show hdr+n.toNat≤ max (max k hdr) (n.toNat+hdr) by omega)).bind ?_
  rw [← List.drop_drop,hdropM,h1,h2,h4,h8]
  exact (gives_pure _).mono (le_refl _) (Nat.zero_le _)

/-- What has been read stays. -/
theorem listLoop_prefix {entries r : List Entry} {done : Bool} {b' : Buffered UInt8 1024}
    (h : listLoop v5 fuel entries b=(.ok (r,done),b')) : ∃ more,r=entries++more := by
  induction fuel generalizing entries b with
  | zero => exact nomatch (Prod.mk.inj h).1
  | succ fuel ih =>
    rw [listLoop] at h
    obtain ⟨x,b1,-,h⟩ := bind_inv h
    by_cases hx : x=62
    · rw [if_pos hx] at h
      obtain ⟨entry,b2,-,h⟩ := bind_inv h
      obtain ⟨-,b3,-,h⟩ := bind_inv h
      obtain ⟨more,hm⟩ := ih h
      exact ⟨entry::more,by rw [hm,List.append_assoc]; rfl⟩
    · rw [if_neg hx] at h
      have hr := congrArg Prod.fst (Except.ok.inj (Prod.mk.inj h).1)
      exact ⟨[],by rw [List.append_nil]; exact hr.symm⟩

/-- The length of a name, as the byte gives it. -/
def nameLength (s : Listed) : Nat := min 256 s.name.length%256

/-- One turn of the loop: the name is taken to be as long as the length byte says. -/
theorem listLoop_turn {s : Listed} (fuel : Nat) (entries : List Entry)
    (hb : b.At (s.packet (statusBuffer v5)++M) 1) :
    ∃ b',listLoop v5 (fuel+1) entries b=(do
        waitForReply
        listLoop v5 fuel (entries++[Entry.of v5 (s.name.take (nameLength s)) s.status])) b' ∧
      b'.At ((s.name.take 256).drop (nameLength s)++M) 0 := by
  have hn : (UInt8.ofNat (min 256 s.name.length)).toNat=nameLength s := UInt8.toNat_ofNat'
  have hle : nameLength s≤ min 256 s.name.length := Nat.mod_le _ _
  have htake : nameLength s≤(s.name.take 256).length := by
    rw [List.length_take]
    exact hle
  have hb' : b.At (62::UInt8.ofNat (min 256 s.name.length)::
      (statusBuffer v5 s.status++(s.name.take 256++M))) 1 := by
    simpa only [Listed.packet,List.cons_append,List.append_assoc] using hb
  obtain ⟨b1,he1,hb1⟩ := gives_readEntry v5 (s := s.status)
    (by rw [hn,List.length_append]; omega) b hb'
  rw [hn,List.take_append_of_le_length htake,List.take_take,
    Nat.min_eq_left (show nameLength s≤256 by omega)] at he1
  rw [hn,List.drop_append_of_le_length htake] at hb1
  refine ⟨b1,?_,hb1⟩
  rw [listLoop,bind_ok (byteAt_run hb' hb'.len rfl),if_pos rfl,bind_ok he1]

theorem waitForReply_list {svcs : List Listed} {buffer : SvcStatus → List UInt8}
    (hb : b.At (svcs.flatMap (Listed.packet buffer)++63::M) k) :
    ∃ b',waitForReply b=(.ok (),b') ∧ b'.At (svcs.flatMap (Listed.packet buffer)++63::M) 1 := by
  cases svcs with
  | nil => exact waitForReply_none (by decide) b hb
  | cons s svcs => exact waitForReply_none (by decide) b hb

/-- The loop goes through all packets and gives what they are to say, if and only if no name is
longer than a byte can tell. -/
theorem listLoop_iff {svcs : List Listed} (entries : List Entry) (hf : svcs.length<fuel)
    (hb : b.At (svcs.flatMap (Listed.packet (statusBuffer v5))++63::M) 1) :
    Ends (listLoop v5 fuel entries) b
        (.ok (entries++svcs.map (fun s => Entry.of v5 (s.name.take 256) s.status),true)) (63::M) ↔
      ∀ s ∈ svcs,s.name.length<256 := by
  induction svcs generalizing fuel b entries with
  | nil =>
    obtain ⟨fuel,rfl⟩ : ∃ n,fuel=n+1 := ⟨fuel-1,by omega⟩
    refine iff_of_true ⟨b,?_,hb.mono (Nat.zero_le _)⟩ fun s hs => absurd hs List.not_mem_nil
    rw [listLoop,bind_ok (byteAt_run hb hb.len rfl),if_neg (by decide),List.map_nil,List.append_nil]
    rfl
  | cons s svcs ih =>
    obtain ⟨fuel,rfl⟩ : ∃ n,fuel=n+1 := ⟨fuel-1,by omega⟩
    rw [List.length_cons] at hf
    rw [List.flatMap_cons,List.append_assoc] at hb
    obtain ⟨b1,he1,hb1⟩ := listLoop_turn fuel entries hb
    by_cases hs : s.name.length<256
    · have hlen : nameLength s=s.name.length := by
        unfold nameLength
        omega
      have htake : s.name.take 256=s.name := List.take_of_length_le (by omega)
      rw [htake,hlen,List.drop_length,List.nil_append] at hb1
      obtain ⟨b2,he2,hb2⟩ := waitForReply_list hb1
      have hi := ih (entries++[Entry.of v5 s.name s.status]) (show svcs.length<fuel by omega) hb2
      rw [List.forall_mem_cons,← hi]
      unfold Ends
      rw [he1,bind_ok he2,hlen,List.take_length,List.append_assoc,List.map_cons,htake]
      exact ⟨fun h => ⟨hs,h⟩,And.right⟩
    · refine iff_of_false ?_ fun h => hs (h s List.mem_cons_self)
      rintro ⟨b2,he2,-⟩
      rw [he1] at he2
      obtain ⟨-,b3,-,he3⟩ := bind_inv he2
      obtain ⟨more,hm⟩ := listLoop_prefix he3
      rw [List.append_assoc] at hm
      have hhead := List.cons.inj (List.append_cancel_left hm)
      have hname := congrArg (fun e => e.name.length) hhead.1
      have hlen : nameLength s=0 := by
        unfold nameLength
        omega
      simp only [Entry.of,List.length_take,hlen] at hname
      omega

theorem length_le_serviceList (svcs : List Listed) (buffer : SvcStatus → List UInt8) :
    svcs.length≤(svcs.flatMap (Listed.packet buffer)).length := by
  induction svcs with
  | nil => exact le_refl _
  | cons s svcs ih =>
    rw [List.flatMap_cons,List.length_append,List.length_cons,Listed.packet]
    simp only [List.length_cons]
    omega

/-- All of the list, from the first byte of the reply on -/
theorem listServices_iff {svcs : List Listed}
    (hb : b.At (svcs.flatMap (Listed.packet (statusBuffer v5))++63::M) 0) :
    Ends (listServices v5) b
        (.ok (svcs.map (fun s => Entry.of v5 (s.name.take 256) s.status),true)) (63::M) ↔
      ∀ s ∈ svcs,s.name.length<256 := by
  obtain ⟨b1,he1,hb1⟩ := waitForReply_list hb
  have hlen := length_le_serviceList svcs (statusBuffer v5)
  have hfuel : svcs.length<b1.stream.length+1 := by
    rw [hb1.stream,List.length_append]
    omega
  have h := listLoop_iff [] hfuel hb1
  unfold Ends
  rw [listServices,bind_ok he1]
  exact h

end

end Client

end Dinit
