import Dinit.Client.Info

namespace Dinit

open Framework Framework.Reader

namespace Client

/-- The state and the handle in a `SERVICERECORD` reply -/
def loadRecord : Client (UInt8 × Nat) := do
  fillBufferTo 6
  let handle ← Reader.extract 2 4
  let state ← byteAt 1
  consume 7
  pure (state,native handle)

/-- `check_load_reply` of dinitctl; nothing is given when it returns 1. -/
def checkLoadReply : Client (Option (UInt8 × Nat)) := do
  let replyPktH ← byteAt 0
  if replyPktH=59 then do
    let record ← loadRecord
    pure (some record)
  else if replyPktH=60 ∨ replyPktH=71 ∨ replyPktH=72 then pure none
  else throw .protocol

/-- `check_load_reply` of dinit-monitor -/
def monitorCheckLoadReply : Client (Option (UInt8 × Nat)) := do
  let replyPktH ← byteAt 0
  if replyPktH=59 then do
    let record ← loadRecord
    pure (some record)
  else if replyPktH=60 then pure none
  else throw .protocol

/-- `if (rbuffer.get_length() == 0) fill_some(rbuffer, socknum)` -/
def fillEmpty : Client Unit := do
  let length ← getLength
  if length=0 then fillSome .read else pure ()

/-- The loop of `get_service_name` -/
def nameLoop (namesize : Nat) : Nat → List UInt8 → Client (List UInt8)
  | 0,_ => throw .read
  | fuel+1,name => do
    fillEmpty
    let length ← getLength
    let toExtract := min length (namesize-name.length)
    let contiguousLen ← contiguousLength 0
    if contiguousLen≤ toExtract then do
      let front ← sliceAt 0 contiguousLen
      consume contiguousLen
      let back ← sliceAt 0 (toExtract-contiguousLen)
      consume (toExtract-contiguousLen)
      let name := name++front++back
      if name.length<namesize then nameLoop namesize fuel name else pure name
    else do
      let front ← sliceAt 0 toExtract
      consume toExtract
      pure (name++front)

/-- `get_service_name`, from the reply on -/
def getServiceName : Client (List UInt8) := do
  waitForReply
  let replyPktH ← byteAt 0
  if replyPktH=66 then do
    fillBufferTo 4
    let namesize ← Reader.extract 2 2
    consume 4
    loop fun fuel => nameLoop (native namesize) fuel []
  else throw .read

/-- The handles of a `DEPENDENTS` reply, one after another -/
def readHandles : Nat → Client (List Nat)
  | 0 => pure []
  | n+1 => do
    tryFillTo 4
    let handle ← Reader.extract 0 4
    consume 4
    let handles ← readHandles n
    pure (native handle::handles)

/-- What `start_stop_service` reads of a `DEPENDENTS` reply, when it has taken its first byte -/
def readDependents : Client (List Nat) := do
  tryFillTo 8
  let number ← Reader.extract 0 8
  consume 8
  readHandles (native number)

/-- The loop of `read_string` -/
def readRest : Nat → Nat → List UInt8 → Client (List UInt8)
  | 0,_,_ => throw .read
  | fuel+1,rlen,r => do
    reset
    fillSome .read
    let length ← getLength
    let clen := min length rlen
    let piece ← sliceAt 0 clen
    if 0< rlen-clen then readRest fuel (rlen-clen) (r++piece)
    else do
      consume clen
      pure (r++piece)

def readString (length : Nat) : Client (List UInt8) := do
  let rbLen ← getLength
  if length≤ rbLen then do
    let r ← Reader.extract 0 length
    consume length
    pure r
  else do
    let r ← Reader.extract 0 rbLen
    loop fun fuel => readRest fuel (length-rbLen) r

section
variable {L M N : List UInt8} {k j fuel : Nat} {b : Buffered UInt8 1024}

theorem gives_fillEmpty (hL : L≠[]) : Gives fillEmpty L k () L 1 := by
  intro b hb
  by_cases h : b.ring.len=0
  · obtain ⟨he,hb'⟩ := fillSome_run ClientError.read (by decide) (hb.mono (Nat.zero_le k)) h hL
    refine ⟨b.fill,?_,hb'⟩
    rw [fillEmpty,getLength_bind,if_pos h]
    exact he
  · refine ⟨b,?_,hb.congr (by omega)⟩
    rw [fillEmpty,getLength_bind,if_neg h]
    rfl

/-- Whatever the pieces that come in, the name is put together from all of them. -/
theorem nameLoop_run (name : List UInt8) {t : List UInt8} (hb : b.At (t++M) 0) (ht : t++M≠[])
    (hf : t.length<fuel) :
    ∃ b',nameLoop (name.length+t.length) fuel name b=(.ok (name++t),b') ∧ b'.At M 0 := by
  induction fuel generalizing b name t with
  | zero => omega
  | succ fuel ih =>
    obtain ⟨b1,he1,hb1⟩ := gives_fillEmpty ht b hb
    have hlen1 := hb1.len
    have hcpos := Ring.contiguous_pos hb1.ok (i := 0) (by omega)
    have hcle := Ring.contiguous_le hb1.ok (i := 0) (by omega)
    have hsub : name.length+t.length-name.length=t.length := by omega
    rw [nameLoop,bind_ok he1,getLength_bind]
    simp only [hsub]
    rw [contiguousLength_bind]
    generalize hc : b1.ring.contiguousLength (b1.ring.ptr 0)=c at *
    generalize hx : min b1.ring.len t.length=x
    have hxt : x≤ t.length := by omega
    have htake : (t++M).take x=t.take x := List.take_append_of_le_length hxt
    have hdrop : (t++M).drop x=t.drop x++M := List.drop_append_of_le_length hxt
    by_cases hcx : c≤ x
    · obtain ⟨b2,he2,hb2⟩ := pieces_eq (by decide) hb1 (by omega) hc hcx (by omega)
      have hpieces : (t++M).take c++((t++M).drop c).take (x-c)=t.take x := by
        rw [← List.take_add,Nat.add_sub_cancel' hcx,htake]
      rw [hdrop] at hb2
      rw [if_pos hcx,he2]
      simp only [List.append_assoc,hpieces,List.length_append,List.length_take,Nat.min_eq_left hxt]
      by_cases hlt : x<t.length
      · rw [if_pos (by omega)]
        have hnum : name.length+t.length=(name++t.take x).length+(t.drop x).length := by
          rw [List.length_append,List.length_take,List.length_drop]
          omega
        obtain ⟨b3,he3,hb3⟩ := ih (name++t.take x) (hb2.mono (Nat.zero_le _))
          (by simp; omega) (by rw [List.length_drop]; omega)
        rw [List.append_assoc,List.take_append_drop] at he3
        rw [hnum]
        exact ⟨b3,he3,hb3⟩
      · rw [if_neg (by omega),List.take_of_length_le (by omega)]
        rw [List.drop_of_length_le (by omega)] at hb2
        exact ⟨b2,rfl,hb2.mono (Nat.zero_le _)⟩
    · obtain ⟨b2,he2,hb2,-⟩ := piece_eq (by decide) hb1 (l := x) (by omega) (by omega)
      have hx' : x=t.length := by omega
      rw [if_neg hcx,he2,htake,List.take_of_length_le (by omega)]
      rw [hdrop,List.drop_of_length_le (by omega)] at hb2
      exact ⟨b2,rfl,hb2.mono (Nat.zero_le _)⟩

theorem fillEmpty_end (hb : b.At [] k) : ∃ b',fillEmpty b=(.error .read,b') ∧ b'.At [] 0 := by
  have hlen := hb.length
  rw [List.length_nil] at hlen
  have hc : b.count=0 := by
    have hle := b.count_le_rest
    omega
  refine ⟨b.fill,?_,hb.fill.mono (Nat.zero_le _)⟩
  rw [fillEmpty,getLength_bind,if_pos (by omega)]
  unfold fillSome
  rw [if_pos hc]

/-- The part of `get_service_name` that finds the size of the name. -/
theorem getServiceName_size {is : List Info} (his : ∀ i ∈ is,i.Sized) {n : Nat} (hn : n<2^16)
    (hb : b.At (infoBytes is++66::0::(nativeBytes 2 n++M)) k) :
    ∃ b',getServiceName b=nameLoop n (b'.stream.length+1) [] b' ∧ b'.At M 0 := by
  have hsize : native (nativeBytes 2 n)=n := by
    rw [native_nativeBytes]
    exact Nat.mod_eq_of_lt hn
  obtain ⟨b1,he1,hb1⟩ := waitForReply_gives his (by decide) b hb
  obtain ⟨b2,he2,hb2⟩ := gives_byteAt (i := 0) (ε := ClientError) (x := 66) (by decide) rfl b1 hb1
  obtain ⟨b3,he3,hb3⟩ := gives_fillBufferTo (n := 4) (by decide) (by simp [nativeBytes_length]) b2 hb2
  have he4 := extract_run (ε := ClientError) hb3 (i := 2) (l := 2) hb3.len
  obtain ⟨b5,he5,hb5⟩ := gives_consume (ε := ClientError) (by decide) (a := 4) (by decide) b3 hb3
  refine ⟨b5,?_,hb5.mono (Nat.zero_le _)⟩
  rw [getServiceName,bind_ok he1,bind_ok he2,if_pos rfl,bind_ok he3,bind_ok he4,bind_ok he5]
  show nameLoop (native (nativeBytes 2 n)) _ [] b5=_
  rw [hsize]

/-- A name is given as it was sent; one that is empty only when more is to come. -/
theorem getServiceName_run {is : List Info} (his : ∀ i ∈ is,i.Sized) {name : List UInt8}
    (hn : name.length<2^16)
    (hb : b.At (infoBytes is++66::0::(nativeBytes 2 name.length++(name++M))) k) :
    ∃ b',getServiceName b=(if name++M=[] then .error .read else .ok name,b') ∧ b'.At M 0 := by
  obtain ⟨b1,he1,hb1⟩ := getServiceName_size his hn hb
  rw [he1]
  by_cases h : name++M=[]
  · obtain ⟨rfl,rfl⟩ := List.append_eq_nil_iff.mp h
    obtain ⟨b2,he2,hb2⟩ := fillEmpty_end hb1
    rw [nameLoop,bind_error he2,if_pos h]
    exact ⟨b2,rfl,hb2⟩
  · rw [if_neg h]
    have hrun := nameLoop_run [] hb1 h
      (show _<b1.stream.length+1 by rw [hb1.stream,List.length_append]; omega)
    rw [List.length_nil,Nat.zero_add,List.nil_append] at hrun
    exact hrun

theorem getServiceName_other {is : List Info} (his : ∀ i ∈ is,i.Sized) {code : UInt8}
    (hc : isInfo code=false) (h66 : code≠66) (hb : b.At (infoBytes is++code::M) k) :
    ∃ b',getServiceName b=(.error .read,b') ∧ b'.At (code::M) 0 := by
  obtain ⟨b1,he1,hb1⟩ := waitForReply_gives his hc b hb
  obtain ⟨b2,he2,hb2⟩ := gives_byteAt (i := 0) (ε := ClientError) (x := code) (by decide) rfl b1 hb1
  refine ⟨b2,?_,hb2.mono (Nat.zero_le _)⟩
  rw [getServiceName,bind_ok he1,bind_ok he2,if_neg h66]
  rfl

theorem readHandles_gives (handles : List UInt32) :
    Gives (readHandles handles.length) (handles.flatMap (fun h => nativeBytes 4 h.toNat)++M) k
      (handles.map UInt32.toNat) M 0 := by
  induction handles generalizing k with
  | nil => exact (gives_pure []).mono (le_refl _) (Nat.zero_le _)
  | cons h handles ih =>
    rw [List.flatMap_cons,List.append_assoc,List.length_cons,readHandles]
    refine (gives_tryFillTo (by decide) (by simp [nativeBytes_length])).bind ?_
    refine (gives_extract_append (a := nativeBytes 4 h.toNat) rfl rfl (le_refl _) (by omega)).bind ?_
    refine (gives_consume (by decide) (show 4≤ max k 4 by omega)).bind ?_
    refine ih.bind ?_
    rw [native_key]
    exact gives_pure _

theorem readDependents_gives {handles : List UInt32} (hlen : handles.length<2^64) :
    Gives readDependents
      (nativeBytes 8 handles.length++(handles.flatMap (fun h => nativeBytes 4 h.toNat)++M)) k
      (handles.map UInt32.toNat) M 0 := by
  have hsize : native (nativeBytes 8 handles.length)=handles.length := by
    rw [native_nativeBytes]
    exact Nat.mod_eq_of_lt hlen
  refine (gives_tryFillTo (by decide) (by simp [nativeBytes_length])).bind ?_
  refine (gives_extract (show 0+8≤ max k 8 by omega)).bind ?_
  refine (gives_consume (by decide) (show 8≤ max k 8 by omega)).bind ?_
  have h := readHandles_gives handles (M := M) (k := max k 8-8)
  rw [← hsize] at h
  exact h

/-- A service record is decoded, unless a read ends behind its sixth byte: seven are taken. -/
theorem loadRecord_iff {state target : UInt8} {handle : UInt32}
    (hb : b.At (59::state::(nativeBytes 4 handle.toNat++target::M)) 1) :
    (∃ b',loadRecord b=(.ok (state,handle.toNat),b') ∧ b'.At M 0) ↔
      ∀ n,(Buffered.fill^[n] b).ring.len≠6 := by
  obtain ⟨ht,ha⟩ := Buffered.fillTo_spec (b.src.rest.length+1) hb (show 6≤1024 by decide)
    (by simp [nativeBytes_length]) (Nat.lt_succ_self _)
  have hiff := Buffered.fillTo_len_iff (b.src.rest.length+1) ht
  generalize hr : (b.fillTo 6 (b.src.rest.length+1)).2=b1 at ha hiff
  have he : fillBufferTo 6 b=(.ok (),b1) := by
    show ((if (b.fillTo 6 (b.src.rest.length+1)).1 then Except.ok () else .error ClientError.read),_)=_
    rw [if_pos ht,hr]
  rw [loadRecord,bind_ok he]
  have hlen := ha.len
  constructor
  · rintro ⟨b',hb',hat⟩ n hn
    have h6 := hiff.mpr ⟨n,hn⟩
    have hover : b'.overrun=((b1.overrun || decide (b1.ring.len<2+4)) ||
        decide (b1.ring.len≤1) || decide (b1.ring.len<7)) := by
      have hsnd := congrArg (fun r => r.2.overrun) hb'
      exact hsnd.symm
    rw [hat.sound,h6] at hover
    simp at hover
  · intro hn
    have h6 : b1.ring.len≠6 := fun h => (hiff.mp h).elim hn
    have ha' := ha.congr (show 7≤ b1.ring.len by omega)
    refine Gives.bind (gives_extract_append (a := nativeBytes 4 handle.toNat) rfl rfl (le_refl _)
      (by decide)) ?_ b1 ha'
    refine (gives_byteAt (x := state) (by decide) rfl).bind ?_
    refine (gives_consume (by decide) (by decide)).bind ?_
    rw [native_key]
    exact gives_pure _

/-- The rest of a string: what is in the buffer has been copied already. -/
theorem readRest_run {t r : List UInt8} (hs : b.overrun=false) (hrest : b.src.rest=t++M)
    (ht : t≠[]) (hf : t.length<fuel) :
    ∃ b',readRest fuel t.length r b=(.ok (r++t),b') ∧ b'.At M 0 := by
  induction fuel generalizing b r t with
  | zero => omega
  | succ fuel ih =>
    have hb0 : Buffered.At (t++M) 0 { b with ring := b.ring.reset } :=
      ⟨Ring.ok_reset (by decide),hrest,Nat.zero_le _,hs⟩
    obtain ⟨he1,hb1⟩ := fillSome_run ClientError.read (by decide) hb0 rfl (by simp [ht])
    generalize hfill : Buffered.fill { b with ring := b.ring.reset }=b1 at he1 hb1
    have hcur : b1.ring.cur=0 := by
      rw [← hfill]
      rfl
    have hlen := hb1.len
    have htpos := List.length_pos_of_ne_nil ht
    have hcon := Ring.contiguous_whole hb1.ok hcur (by omega)
    have hlenL := hb1.length
    rw [readRest,reset_bind,bind_ok he1,getLength_bind]
    generalize hx : min b1.ring.len t.length=x
    have hxt : x≤ t.length := by omega
    have he2 := sliceAt_run (ε := ClientError) (i := 0) hb1 (l := x) (by omega) (by omega)
    rw [List.drop_zero,List.take_append_of_le_length hxt] at he2
    rw [bind_ok he2]
    by_cases hlt : x<t.length
    · rw [if_pos (by omega)]
      have hrest1 := hb1.rest
      rw [show b1.ring.len=x by omega,List.drop_append_of_le_length hxt] at hrest1
      obtain ⟨b3,he3,hb3⟩ := ih (r := r++t.take x) hb1.sound hrest1
        (by rw [Ne,List.drop_eq_nil_iff]; omega) (by rw [List.length_drop]; omega)
      rw [List.append_assoc,List.take_append_drop,List.length_drop] at he3
      exact ⟨b3,he3,hb3⟩
    · rw [if_neg (by omega)]
      have hcons := At_consume (by decide) hb1 (a := x) (by omega)
      rw [List.drop_append_of_le_length hxt,List.drop_of_length_le (by omega)] at hcons
      rw [List.take_of_length_le (by omega)]
      exact ⟨_,rfl,hcons.mono (Nat.zero_le _)⟩

theorem readString_gives {s : List UInt8} : Gives (readString s.length) (s++M) k s M 0 := by
  intro b hb
  rw [readString,getLength_bind]
  by_cases h : s.length≤ b.ring.len
  · have he := extract_run (ε := ClientError) hb (i := 0) (l := s.length) (by omega)
    have hcons := At_consume (by decide) hb h
    rw [List.drop_zero,List.take_left] at he
    rw [List.drop_left] at hcons
    rw [if_pos h,bind_ok he]
    exact ⟨_,rfl,hcons.mono (Nat.zero_le _)⟩
  · have hrest := hb.rest
    rw [List.drop_append_of_le_length (by omega)] at hrest
    have he := extract_run (ε := ClientError) hb (i := 0) (l := b.ring.len) (by omega)
    rw [List.drop_zero,List.take_append_of_le_length (by omega)] at he
    obtain ⟨b',he',hb'⟩ := readRest_run (r := s.take b.ring.len) hb.sound
      hrest (by rw [Ne,List.drop_eq_nil_iff]; omega)
      (show _<b.stream.length+1 by rw [List.length_drop,hb.stream,List.length_append]; omega)
    rw [List.take_append_drop,List.length_drop] at he'
    rw [if_neg h,bind_ok he]
    exact ⟨b',he',hb'⟩

end

end Client

end Dinit
