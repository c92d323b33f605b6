import Dinit.Control.Output

namespace Dinit.Output

open Framework

/-- The bytes that are held in `outbuf`. -/
def total (o : Output) : Nat := (o.outbuf.map List.length).sum

/-- What of a packet cannot be written at once. -/
def unsent (o : Output) (pkt : Packet) (w : WriteResult) : Option Packet :=
  if o.outbuf.isEmpty then
    match w with
    | .epipe | .error => none
    | .again => some pkt
    | .wrote count => if pkt.length≤ count then none else some (pkt.drop count)
  else some pkt

/-- What every call keeps: there are no empty packets, and the index is inside the first. -/
structure Sound (o : Output) : Prop where
  ne_nil : ∀ p ∈ o.outbuf,p≠[]
  small : o.outbufSize<2^32
  index : ∀ p ∈ o.outbuf.head?,o.outpktIndex<p.length
  index_nil : o.outbuf=[] → o.outpktIndex=0

theorem sound_empty : Sound empty := ⟨by simp [empty],by decide,by simp [empty],by simp [empty]⟩

/-- The packet with its first `k` bytes written and `rest` to be held. -/
structure Cut (o : Output) (pkt rest : Packet) (w : WriteResult) (k : Nat) : Prop where
  unsent : o.unsent pkt w=some rest
  rest : rest=pkt.drop k
  start : o.outbuf≠[] → k=0
  lt : pkt≠[] → k<pkt.length

theorem cut_again (o : Output) (pkt : Packet) (h : o.outbuf=[]) :
    Cut o pkt pkt .again 0 := by
  refine ⟨by simp [Output.unsent,h],rfl,fun _ => rfl,List.length_pos_of_ne_nil⟩

theorem cut_wrote (o : Output) (pkt : Packet) {count : Nat} (h : o.outbuf=[])
    (hc : ¬pkt.length≤ count) : Cut o pkt (pkt.drop count) (.wrote count) count := by
  refine ⟨by simp [Output.unsent,h,hc],rfl,fun hn => absurd h hn,fun _ => Nat.lt_of_not_le hc⟩

theorem cut_behind (o : Output) (pkt : Packet) (w : WriteResult) (h : o.outbuf≠[]) :
    Cut o pkt pkt w 0 := by
  refine ⟨by simp [Output.unsent,h],rfl,fun _ => rfl,List.length_pos_of_ne_nil⟩

theorem queueCopy_cases (o : Output) (pkt : Packet) (w : WriteResult) (alloc : Bool) :
    (o.unsent pkt w=none ∧ o.queueCopy pkt w alloc=(false,o)) ∨
    (o.unsent pkt w=none ∧ o.outbuf=[] ∧
      o.queueCopy pkt w alloc=(true,{ o with sent := o.sent++pkt })) ∨
    ∃ k rest,Cut o pkt rest w k ∧ o.queueCopy pkt w alloc=
      if alloc then (true,{ o with
        sent := o.sent++pkt.take k
        outbuf := o.outbuf++[rest]
        outbufSize := (o.outbufSize+rest.length)%2^32 })
      else { o with sent := o.sent++pkt.take k }.oom o.outbuf.isEmpty := by
  by_cases he : o.outbuf=[]
  · cases w with
    | epipe | error => exact .inl ⟨by simp [unsent,he],by simp [queueCopy,he]⟩
    | again => exact .inr (.inr ⟨0,pkt,cut_again o pkt he,by simp [queueCopy,he,oom]⟩)
    | wrote count =>
      by_cases hc : pkt.length≤ count
      · exact .inr (.inl ⟨by simp [unsent,he,hc],he,
          by simp [queueCopy,he,hc,List.take_of_length_le]⟩)
      · exact .inr (.inr ⟨count,_,cut_wrote o pkt he hc,by simp [queueCopy,he,hc]⟩)
  · exact .inr (.inr ⟨0,pkt,cut_behind o pkt w he,by simp [queueCopy,he]⟩)

theorem queueMove_cases (o : Output) (pkt : Packet) (w : WriteResult) (alloc : Bool) :
    (o.unsent pkt w=none ∧ o.outbuf=[] ∧
      o.queueMove pkt w alloc=(false,{ o with outpktIndex := 0 })) ∨
    (o.unsent pkt w=none ∧ o.outbuf=[] ∧
      o.queueMove pkt w alloc=(true,{ o with sent := o.sent++pkt, outpktIndex := 0 })) ∨
    ∃ k rest,Cut o pkt rest w k ∧ o.queueMove pkt w alloc=
      if alloc then (true,{ o with
        sent := o.sent++pkt.take k
        outbuf := o.outbuf++[pkt]
        outbufSize := o.outbufSize%2^32
        outpktIndex := if o.outbuf=[] then k else o.outpktIndex })
      else { o with
        sent := o.sent++pkt.take k
        outpktIndex := if o.outbuf=[] then k else o.outpktIndex }.oom o.outbuf.isEmpty := by
  by_cases he : o.outbuf=[]
  · cases w with
    | epipe | error => exact .inl ⟨by simp [unsent,he],he,by simp [queueMove,he]⟩
    | again => exact .inr (.inr ⟨0,pkt,cut_again o pkt he,by simp [queueMove,he]⟩)
    | wrote count =>
      by_cases hc : pkt.length≤ count
      · exact .inr (.inl ⟨by simp [unsent,he,hc],he,
          by simp [queueMove,he,hc,List.take_of_length_le]⟩)
      · exact .inr (.inr ⟨count,_,cut_wrote o pkt he hc,by simp [queueMove,he,hc]⟩)
  · exact .inr (.inr ⟨0,pkt,cut_behind o pkt w he,by simp [queueMove,he]⟩)

/-- What `send_data` does with the first packet. -/
theorem sendData_cases {o : Output} {w : WriteResult} {r : Bool × Output}
    (h : o.sendData w=some r) :
    r=(true,o) ∨ r=(false,o) ∨
    (o.outbuf=[] ∧ o.oomClose=true ∧ ∃ t,r=(true,{ o with sent := o.sent++t })) ∨
    ∃ pkt rest n,o.outbuf=pkt::rest ∧ n≤(pkt.drop o.outpktIndex).length ∧
      (o.outpktIndex+n≠pkt.length ∧ r=(false,{ o with
        sent := o.sent++(pkt.drop o.outpktIndex).take n
        outpktIndex := o.outpktIndex+n }) ∨
      o.outpktIndex+n=pkt.length ∧ ∃ b,r=(b,{ o with
        sent := o.sent++(pkt.drop o.outpktIndex).take n
        outbufSize := (o.outbufSize+2^32-pkt.length%2^32)%2^32
        outbuf := rest
        outpktIndex := 0 })) := by
  unfold sendData at h
  split at h
  · next he =>
    split at h
    · split at h
      · next ho => exact .inr (.inr (.inl ⟨he,ho,_,(Option.some.inj h).symm⟩))
      · exact .inl (Option.some.inj h).symm
    · cases h
  · next pkt rest he =>
    cases w with
    | epipe | error => exact .inl (Option.some.inj h).symm
    | again => exact .inr (.inl (Option.some.inj h).symm)
    | wrote count =>
      refine .inr (.inr (.inr ⟨pkt,rest,min count (pkt.drop o.outpktIndex).length,he,
        Nat.min_le_right _ _,?_⟩))
      have ht : (pkt.drop o.outpktIndex).take count=
          (pkt.drop o.outpktIndex).take (min count (pkt.drop o.outpktIndex).length) := by
        rw [List.take_eq_take_min]
      simp only [ht] at h
      split at h
      · next hl => exact .inr ⟨hl,_,(Option.some.inj h).symm⟩
      · next hl => exact .inl ⟨hl,(Option.some.inj h).symm⟩

theorem Sound.held {o : Output} (h : o.Sound) {pkt : Packet} {n i : Nat} {t : List UInt8}
    (hp : pkt≠[]) (hn : n<2^32) (hi : o.outbuf=[] → i<pkt.length)
    (ho : o.outbuf≠[] → i=o.outpktIndex) :
    Sound { o with outbuf := o.outbuf++[pkt], outbufSize := n, outpktIndex := i, sent := t } := by
  refine ⟨?_,hn,?_,by simp⟩
  · intro p hm
    rcases List.mem_append.mp hm with hm | hm
    · exact h.ne_nil p hm
    · obtain rfl := List.mem_singleton.mp hm
      exact hp
  · intro p hm
    cases hb : o.outbuf with
    | nil =>
      obtain rfl : pkt=p := by simpa [hb] using hm
      exact hi hb
    | cons q qs =>
      obtain rfl : q=p := by simpa [hb] using hm
      rw [ho (by simp [hb])]
      exact h.index q (by simp [hb])

theorem Sound.queueCopy {o : Output} (h : o.Sound) (p : OutPacket) (w : WriteResult) :
    (o.queueCopy p.bytes w true).2.Sound := by
  rcases queueCopy_cases o p.bytes w true with ⟨-,he⟩ | ⟨-,-,he⟩ | ⟨k,rest,hc,he⟩
  · rw [he]
    exact h
  · rw [he]
    exact ⟨h.ne_nil,h.small,h.index,h.index_nil⟩
  · rw [he,if_pos rfl]
    have hr : rest≠[] := by
      rw [hc.rest]
      simpa using hc.lt p.ne_nil
    refine h.held hr (Nat.mod_lt _ (by decide)) (fun hb => ?_) fun _ => rfl
    rw [h.index_nil hb]
    exact List.length_pos_of_ne_nil hr

theorem Sound.queueMove {o : Output} (h : o.Sound) (p : OutPacket) (w : WriteResult) :
    (o.queueMove p.bytes w true).2.Sound := by
  rcases queueMove_cases o p.bytes w true with ⟨-,hb,he⟩ | ⟨-,hb,he⟩ | ⟨k,rest,hc,he⟩
  · rw [he]
    exact ⟨h.ne_nil,h.small,by simp [hb],fun _ => rfl⟩
  · rw [he]
    exact ⟨h.ne_nil,h.small,by simp [hb],fun _ => rfl⟩
  · rw [he,if_pos rfl]
    refine h.held p.ne_nil (Nat.mod_lt _ (by decide)) (fun hb => ?_) fun hb => if_neg hb
    rw [if_pos hb]
    exact hc.lt p.ne_nil

theorem Sound.sendData {o : Output} (h : o.Sound) {w : WriteResult} {r : Bool × Output}
    (hr : o.sendData w=some r) : r.2.Sound := by
  obtain rfl | rfl | ⟨-,-,t,rfl⟩ | ⟨pkt,rest,n,hb,hn,hl⟩ := sendData_cases hr
  · exact h
  · exact h
  · exact ⟨h.ne_nil,h.small,h.index,h.index_nil⟩
  · have hi := h.index pkt (by simp [hb])
    rw [List.length_drop] at hn
    rcases hl with ⟨hl,rfl⟩ | ⟨hl,b,rfl⟩
    · refine ⟨h.ne_nil,h.small,?_,by simp [hb]⟩
      intro p hp
      obtain rfl : pkt=p := by simpa [hb] using hp
      show o.outpktIndex+n<pkt.length
      omega
    · have hne : ∀ p ∈ rest,p≠[] := fun p hp => h.ne_nil p (by simp [hb,hp])
      refine ⟨hne,Nat.mod_lt _ (by decide),?_,fun _ => rfl⟩
      intro p hp
      exact List.length_pos_of_ne_nil (hne p (List.mem_of_mem_head? hp))

theorem Sound.call {o o' : Output} (h : o.Sound) {k : OutCall} (hr : o.call k=some o') :
    o'.Sound := by
  cases k with
  | copy p w =>
    obtain rfl := Option.some.inj hr
    exact h.queueCopy p w
  | move p w =>
    obtain rfl := Option.some.inj hr
    exact h.queueMove p w
  | send w =>
    obtain ⟨r,hd,rfl⟩ := Option.map_eq_some_iff.mp hr
    exact h.sendData hd
  | reject =>
    obtain rfl := Option.some.inj hr
    exact ⟨h.ne_nil,h.small,h.index,h.index_nil⟩

/-- `outbuf_size` is the size of what is held, and zero just if nothing is; reading is throttled
just if that much is pending. -/
structure Accounted (o : Output) : Prop where
  size : o.outbufSize=o.total
  zero : o.outbufSize=0 ↔ o.outbuf=[]
  limit : o.outbufSize<16384 ↔ o.total<16384

/-- The calls that keep the account: a vector is written at once, and what is copied does not
make four gigabytes. -/
def Keeps (o : Output) : OutCall → Prop
  | .copy p w => ∀ rest ∈ o.unsent p.bytes w,o.total+rest.length<2^32
  | .move p w => o.unsent p.bytes w=none
  | .send _ | .reject => True

theorem total_eq_zero {o : Output} (h : o.Sound) : o.total=0 ↔ o.outbuf=[] := by
  constructor
  · intro ht
    cases hb : o.outbuf with
    | nil => rfl
    | cons p ps =>
      have hp := List.length_pos_of_ne_nil (h.ne_nil p (by simp [hb]))
      simp only [total,hb,List.map_cons,List.sum_cons] at ht
      omega
  · intro hb
    simp [total,hb]

theorem accounted_iff {o : Output} (h : o.Sound) : o.Accounted ↔ o.outbufSize=o.total := by
  constructor
  · exact fun ha => ha.size
  · intro ha
    exact ⟨ha,by rw [ha,total_eq_zero h],by rw [ha]⟩

theorem total_held (o : Output) (pkt : Packet) (n i : Nat) (t : List UInt8) :
    total { o with outbuf := o.outbuf++[pkt], outbufSize := n, outpktIndex := i, sent := t }=
      o.total+pkt.length := by simp [total]

theorem accounted_queueCopy {o : Output} (h : o.Sound) (ha : o.Accounted) (p : OutPacket)
    (w : WriteResult) :
    (o.queueCopy p.bytes w true).2.Accounted ↔ o.Keeps (.copy p w) := by
  rw [accounted_iff (h.queueCopy p w)]
  have hsz := ha.size
  rcases queueCopy_cases o p.bytes w true with ⟨hu,he⟩ | ⟨hu,-,he⟩ | ⟨k,rest,hc,he⟩
  · rw [he]
    simp [Keeps,hu,hsz]
  · rw [he]
    simp only [Keeps,hu,Option.mem_def,reduceCtorEq,false_implies,implies_true,iff_true]
    exact hsz
  · rw [he,if_pos rfl]
    have ht := total_held o rest ((o.outbufSize+rest.length)%2^32) o.outpktIndex
      (o.sent++p.bytes.take k)
    simp only [Keeps,hc.unsent,Option.mem_some_iff,forall_eq']
    rw [ht,hsz]
    constructor
    · intro hm
      have hlt := Nat.mod_lt (o.total+rest.length) (show 2^32>0 by decide)
      omega
    · exact Nat.mod_eq_of_lt

theorem accounted_queueMove {o : Output} (h : o.Sound) (ha : o.Accounted) (p : OutPacket)
    (w : WriteResult) :
    (o.queueMove p.bytes w true).2.Accounted ↔ o.Keeps (.move p w) := by
  rw [accounted_iff (h.queueMove p w)]
  have hsz := ha.size
  rcases queueMove_cases o p.bytes w true with ⟨hu,-,he⟩ | ⟨hu,-,he⟩ | ⟨k,rest,hc,he⟩
  · rw [he]
    simp only [Keeps,hu,iff_true]
    exact hsz
  · rw [he]
    simp only [Keeps,hu,iff_true]
    exact hsz
  · rw [he,if_pos rfl]
    have ht := total_held o p.bytes (o.outbufSize%2^32)
      (if o.outbuf=[] then k else o.outpktIndex) (o.sent++p.bytes.take k)
    have hp := List.length_pos_of_ne_nil p.ne_nil
    have hlt := Nat.mod_eq_of_lt h.small
    simp only [Keeps,hc.unsent,reduceCtorEq,iff_false]
    rw [ht]
    show o.outbufSize%2^32≠_
    omega

theorem accounted_sendData {o : Output} (h : o.Sound) (ha : o.Accounted) {w : WriteResult}
    {r : Bool × Output} (hr : o.sendData w=some r) : r.2.Accounted := by
  rw [accounted_iff (h.sendData hr)]
  have hsz := ha.size
  obtain rfl | rfl | ⟨-,-,t,rfl⟩ | ⟨pkt,rest,n,hb,-,⟨-,rfl⟩ | ⟨-,b,rfl⟩⟩ := sendData_cases hr
  · exact hsz
  · exact hsz
  · exact hsz
  · exact hsz
  · have ht : o.total=pkt.length+(rest.map List.length).sum := by simp [total,hb]
    have hs := h.small
    show (o.outbufSize+2^32-pkt.length%2^32)%2^32=(rest.map List.length).sum
    rw [Nat.mod_eq_of_lt (show pkt.length<2^32 by omega)]
    have hsub : o.outbufSize+2^32-pkt.length=(rest.map List.length).sum+2^32 := by omega
    rw [hsub,Nat.add_mod_right,Nat.mod_eq_of_lt (by omega)]

/-- A call on a connection whose account is right. -/
theorem accounted_call {o o' : Output} (h : o.Sound) (ha : o.Accounted) {k : OutCall}
    (hr : o.call k=some o') : o'.Accounted ↔ o.Keeps k := by
  cases k with
  | copy p w =>
    obtain rfl := Option.some.inj hr
    exact accounted_queueCopy h ha p w
  | move p w =>
    obtain rfl := Option.some.inj hr
    exact accounted_queueMove h ha p w
  | send w =>
    obtain ⟨r,hd,rfl⟩ := Option.map_eq_some_iff.mp hr
    exact iff_of_true (accounted_sendData h ha hd) trivial
  | reject =>
    obtain rfl := Option.some.inj hr
    exact iff_of_true ⟨ha.size,ha.zero,ha.limit⟩ trivial

end Dinit.Output

namespace Dinit

open Framework

/-- Along any calls on a connection, the size that it keeps of its pending output is right after
each of them if and only if every vector that is queued can be written at once (and the
pending output stays below four gigabytes). -/
theorem output_accounted (ks : List OutCall) :
    (∀ js o,js <+: ks → Output.empty.calls js=some o → o.Accounted) ↔
      Along Output.call Output.Keeps Output.empty ks :=
  good_iff_along (fun _ _ _ hs hr => hs.call hr) (fun _ _ _ hs ha hr => Output.accounted_call hs ha hr)
    Output.sound_empty ⟨rfl,by simp [Output.empty],by simp [Output.empty,Output.total]⟩ ks

/-- A reply that is a vector, with the socket full: it is held, and not counted. Once it has been
sent, the counter has wrapped. -/
theorem output_miscounted :
    Output.empty.calls [.move ⟨[59,0,0,0,0,0,3],by simp⟩ .again]=
      some ⟨[[59,0,0,0,0,0,3]],0,0,false,false,[]⟩ ∧
    Output.empty.calls [.move ⟨[59,0,0,0,0,0,3],by simp⟩ .again,.send (.wrote 7)]=
      some ⟨[],4294967289,0,false,false,[59,0,0,0,0,0,3]⟩ := by
  decide

namespace Output

/-- The bytes that are yet to be sent. -/
def pending (o : Output) : List UInt8 := o.outbuf.flatten.drop o.outpktIndex

/-- The bytes of the packets that have been queued. -/
def queued (ks : List OutCall) : List UInt8 :=
  (ks.map fun
    | .copy p _ | .move p _ => p.bytes
    | .send _ | .reject => []).flatten

/-- The call reports no failure to queue a packet. -/
def Succeeds (o : Output) : OutCall → Prop
  | .copy p w => (o.queueCopy p.bytes w true).1=true
  | .move p w => (o.queueMove p.bytes w true).1=true
  | .send _ | .reject => True

/-- Nothing is lost, repeated or reordered. -/
structure Intact (o : Output) (ks : List OutCall) : Prop where
  sound : o.Sound
  memory : o.oomClose=false
  bytes : o.sent++o.pending=queued ks

theorem pending_nil {o : Output} (h : o.outbuf=[]) : o.pending=[] := by simp [pending,h]

theorem pending_cons {o : Output} (hs : o.Sound) {pkt : Packet} {rest : List Packet}
    (h : o.outbuf=pkt::rest) : o.pending=pkt.drop o.outpktIndex++rest.flatten := by
  have hi := hs.index pkt (by simp [h])
  rw [pending,h,List.flatten_cons,List.drop_append_of_le_length (by omega)]

/-- A packet behind others. -/
theorem pending_behind {o : Output} (hs : o.Sound) (h : o.outbuf≠[]) (pkt : Packet) :
    (o.outbuf++[pkt]).flatten.drop o.outpktIndex=o.pending++pkt := by
  obtain ⟨p,ps,hb⟩ := List.exists_cons_of_ne_nil h
  have hi := hs.index p (by simp [hb])
  rw [pending,hb]
  simp only [List.flatten_append,List.flatten_cons,List.flatten_nil,List.append_nil]
  rw [List.drop_append_of_le_length (by simp; omega)]

theorem intact_queueCopy {o : Output} {ks : List OutCall} (h : o.Intact ks) (p : OutPacket)
    (w : WriteResult) (hs : (o.queueCopy p.bytes w true).1=true) :
    (o.queueCopy p.bytes w true).2.sent++(o.queueCopy p.bytes w true).2.pending=
      queued ks++p.bytes := by
  have hb := h.bytes
  rcases queueCopy_cases o p.bytes w true with ⟨-,he⟩ | ⟨-,hn,he⟩ | ⟨k,rest,hc,he⟩
  · rw [he] at hs
    cases hs
  · rw [he]
    rw [pending_nil hn,List.append_nil] at hb
    show (o.sent++p.bytes)++o.pending=_
    rw [pending_nil hn,hb,List.append_nil]
  · rw [he,if_pos rfl]
    show (o.sent++p.bytes.take k)++(o.outbuf++[rest]).flatten.drop o.outpktIndex=_
    by_cases hn : o.outbuf=[]
    · rw [pending_nil hn,List.append_nil] at hb
      rw [h.sound.index_nil hn,hn,hc.rest,hb]
      simp
    · rw [pending_behind h.sound hn,hc.rest,hc.start hn,← hb]
      simp

theorem intact_queueMove {o : Output} {ks : List OutCall} (h : o.Intact ks) (p : OutPacket)
    (w : WriteResult) (hs : (o.queueMove p.bytes w true).1=true) :
    (o.queueMove p.bytes w true).2.sent++(o.queueMove p.bytes w true).2.pending=
      queued ks++p.bytes := by
  have hb := h.bytes
  rcases queueMove_cases o p.bytes w true with ⟨-,hn,he⟩ | ⟨-,hn,he⟩ | ⟨k,rest,hc,he⟩
  · rw [he] at hs
    cases hs
  · rw [he]
    rw [pending_nil hn,List.append_nil] at hb
    show (o.sent++p.bytes)++o.outbuf.flatten.drop 0=_
    rw [hn,hb]
    simp
  · rw [he,if_pos rfl]
    show (o.sent++p.bytes.take k)++
      (o.outbuf++[p.bytes]).flatten.drop (if o.outbuf=[] then k else o.outpktIndex)=_
    by_cases hn : o.outbuf=[]
    · rw [pending_nil hn,List.append_nil] at hb
      rw [if_pos hn,hn,hb]
      simp
    · rw [if_neg hn,pending_behind h.sound hn,hc.start hn,← hb]
      simp

theorem intact_sendData {o : Output} {ks : List OutCall} (h : o.Intact ks) {w : WriteResult}
    {r : Bool × Output} (hr : o.sendData w=some r) :
    r.2.sent++r.2.pending=queued ks ∧ r.2.oomClose=false := by
  have hb := h.bytes
  obtain rfl | rfl | ⟨-,ho,-⟩ | ⟨pkt,rest,n,hp,hn,hl⟩ := sendData_cases hr
  · exact ⟨hb,h.memory⟩
  · exact ⟨hb,h.memory⟩
  · rw [h.memory] at ho
    cases ho
  · have hi := h.sound.index pkt (by simp [hp])
    rw [pending_cons h.sound hp] at hb
    rw [List.length_drop] at hn
    rcases hl with ⟨hl,rfl⟩ | ⟨hl,b,rfl⟩
    · refine ⟨?_,h.memory⟩
      show (o.sent++(pkt.drop o.outpktIndex).take n)++o.outbuf.flatten.drop (o.outpktIndex+n)=_
      rw [hp,List.flatten_cons,List.drop_append_of_le_length (by omega),← hb,← List.drop_drop,
        List.append_assoc,← List.append_assoc (List.take n _),List.take_append_drop]
    · refine ⟨?_,h.memory⟩
      show (o.sent++(pkt.drop o.outpktIndex).take n)++rest.flatten.drop 0=_
      rw [List.drop_zero,List.take_of_length_le (by rw [List.length_drop]; omega),← hb,
        List.append_assoc]

theorem intact_call {o o' : Output} {ks : List OutCall} (h : o.Intact ks) {k : OutCall}
    (hr : o.call k=some o') (hs : o.Succeeds k) : o'.Intact (ks++[k]) := by
  have hsound := h.sound.call hr
  cases k with
  | copy p w =>
    obtain rfl := Option.some.inj hr
    have hb := intact_queueCopy h p w hs
    refine ⟨hsound,?_,by simpa [queued] using hb⟩
    rcases queueCopy_cases o p.bytes w true with ⟨-,he⟩ | ⟨-,-,he⟩ | ⟨k,rest,-,he⟩ <;> rw [he] <;>
      exact h.memory
  | move p w =>
    obtain rfl := Option.some.inj hr
    have hb := intact_queueMove h p w hs
    refine ⟨hsound,?_,by simpa [queued] using hb⟩
    rcases queueMove_cases o p.bytes w true with ⟨-,-,he⟩ | ⟨-,-,he⟩ | ⟨k,rest,-,he⟩ <;> rw [he] <;>
      exact h.memory
  | send w =>
    obtain ⟨r,hd,rfl⟩ := Option.map_eq_some_iff.mp hr
    obtain ⟨hb,ho⟩ := intact_sendData h hd
    exact ⟨hsound,ho,by simpa [queued] using hb⟩
  | reject =>
    obtain rfl := Option.some.inj hr
    exact ⟨hsound,h.memory,by simpa [queued,pending] using h.bytes⟩

end Output

/-- As long as no packet is reported lost, what the socket has accepted and what is still
pending are the bytes of the queued packets, in the order in which they were queued. -/
theorem output_intact (ks : List OutCall) (o : Output) (h : Output.empty.calls ks=some o)
    (hs : Along Output.call Output.Succeeds Output.empty ks) :
    o.sent++o.pending=Output.queued ks := by
  have hi : Output.empty.Intact [] := ⟨Output.sound_empty,rfl,rfl⟩
  have hstep : ∀ s js k s',Output.Intact s js → s.call k=some s' → s.Succeeds k →
      s'.Intact (js++[k]) := fun _ _ _ _ hq hr hk => Output.intact_call hq hr hk
  exact (runs_induct hstep hi hs h).bytes

/-- A vector of which the socket takes two bytes at first, and a packet behind it. -/
theorem output_intact_split :
    let ks : List OutCall := [.move ⟨[59,2,7,0,0,0,3],by simp⟩ (.wrote 2),
      .copy ⟨[50],by simp⟩ .again,.send (.wrote 3),.send .again]
    ∃ o,Output.empty.calls ks=some o ∧ o.sent=[59,2,7,0,0] ∧ o.sent++o.pending=Output.queued ks := by
  refine ⟨⟨[[59,2,7,0,0,0,3],[50]],1,5,false,false,[59,2,7,0,0]⟩,by decide,rfl,
    output_intact _ _ (by decide) ?_⟩
  simp [Along,Output.Succeeds,Output.call,Output.queueMove,Output.queueCopy,Output.empty]

end Dinit
