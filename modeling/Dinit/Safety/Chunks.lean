import Dinit.Control.Packets

namespace Dinit

open Framework

variable {σ : Type}

/-- What a packet makes of a connection that has nothing else in its buffer. -/
def Server.react (sv : Server σ) (p : Packet) (s : σ × Bool) : σ × Bool :=
  (Conn.processPacket sv ⟨p,0,s.2,s.1⟩).2.view

/-- What is to come of a stream of requests: each is handled on its own, in order, until one
of them closes the connection; what is left over is the beginning of the next. -/
def Server.expected (sv : Server σ) (s : σ) (stream : List UInt8) : (σ × Bool) × List UInt8 :=
  packets.drain sv.react Prod.snd (s,false) stream

/-- A `GETALLENV` request with a request of a single byte behind it, before anything has closed
the connection. -/
def Server.Stalls (sv : Server σ) (s : σ) (stream : List UInt8) : Prop :=
  ∃ q x t,q++[24,0,x] <+: stream ∧ sv.expected s q=((t,false),[]) ∧ packetLength [x]=1

theorem Server.Stalls.mono {sv : Server σ} {s : σ} {a b : List UInt8} (h : sv.Stalls s a)
    (hab : a <+: b) : sv.Stalls s b := by
  obtain ⟨q,x,t,hq,ht,hx⟩ := h
  exact ⟨q,x,t,hq.trans hab,ht,hx⟩

namespace Conn

/-- What has come of the stream so far. -/
def left (c : Conn σ) : (σ × Bool) × List UInt8 :=
  (c.view,if c.badConnClose then [] else c.rbuf)

/-- Every read gives at least a byte, and no more than there is space for. -/
def Fits (sv : Server σ) : Conn σ → List (List UInt8) → Prop
  | _,[] => True
  | c,data::chunks =>
    (c.badConnClose=false → data≠[] ∧ c.rbuf.length+data.length≤1024) ∧
      Fits sv (c.deliver sv data) chunks

variable {sv : Server σ} {s : σ}

/-- An open connection between two packets, the stream up to there being `done`. -/
def Between (sv : Server σ) (s : σ) (done : List UInt8) (c : Conn σ) : Prop :=
  c.badConnClose=false ∧ sv.expected s done=(c.view,[])

theorem Between.expected {done : List UInt8} {c : Conn σ} (h : Between sv s done c)
    (b : List UInt8) : sv.expected s (done++b)=packets.drain sv.react Prod.snd c.view b :=
  packets.drain_boundary _ _ h.2 b

/-- A request that the connection survives. -/
theorem Between.takes {done : List UInt8} {c : Conn σ} (hw : sv.Writable)
    (h : Between sv s done c) (hn : packetLength c.rbuf≤ c.rbuf.length)
    (ho : (c.processPacket sv).2.badConnClose=false) :
    Between sv s (done++c.rbuf.take (packetLength c.rbuf)) (c.processPacket sv).2 := by
  obtain ⟨k,hk,-⟩ := processPacket_takes hw c hn
  have hv : (c.processPacket sv).2.view=sv.react (c.rbuf.take (packetLength c.rbuf)) c.view := hk.view
  refine ⟨ho,?_⟩
  rw [h.expected,hv]
  refine packets.drain_take _ _ h.1 hn ?_
  exact (congrArg Prod.snd hv).symm.trans ho

/-- What the connection waits for is not more than the next request needs, whatever it may be. -/
def Ready (sv : Server σ) (s : σ) (stream : List UInt8) (c : Conn σ) : Prop :=
  ∀ data,data≠[] → ¬sv.Stalls s (stream++data) → c.chklen≤ packetLength (c.rbuf++data)

theorem ready_of_le {stream : List UInt8} {c : Conn σ} (h : c.chklen≤ packetLength c.rbuf) :
    Ready sv s stream c := by
  intro data _ _
  exact h.trans (packets.grows c.rbuf data)

/-- A stale `chklen` of two does no harm unless a request of a single byte comes next. -/
theorem packetLength_of_not_stalls {q b : List UInt8} {t : σ} (hq : sv.expected s q=((t,false),[]))
    (hb : b≠[]) (hs : ¬sv.Stalls s (q++[24,0]++b)) : 2≤ packetLength b := by
  obtain ⟨x,b,rfl⟩ := List.exists_cons_of_ne_nil hb
  have hx : packetLength [x]≠1 := by
    intro hx
    refine hs ⟨q,x,t,?_,hq,hx⟩
    exact ⟨b,by simp⟩
  have hp := packetLength_pos [x]
  have hg : packetLength [x]≤ packetLength ([x]++b) := packets.grows [x] b
  rw [List.singleton_append] at hg
  omega

/-- An open connection that has done all it can with what it has of the stream. -/
structure Waits (sv : Server σ) (s : σ) (stream : List UInt8) (c : Conn σ) : Prop where
  between : ∃ done,stream=done++c.rbuf ∧ Between sv s done c
  incomplete : c.rbuf.length<packetLength c.rbuf
  ready : Ready sv s stream c

/-- A connection that the stream has closed. -/
def Closed (sv : Server σ) (s : σ) (stream : List UInt8) (c : Conn σ) : Prop :=
  c.badConnClose=true ∧ sv.expected s stream=(c.view,[])

theorem Waits.left {stream : List UInt8} {c : Conn σ} (h : Waits sv s stream c) :
    c.left=sv.expected s stream := by
  obtain ⟨⟨done,rfl,hb⟩,hi,-⟩ := h
  rw [hb.expected,packets.drain_incomplete sv.react Prod.snd (s := c.view) hb.1 hi]
  simp [Conn.left,hb.1]

theorem Closed.left {stream : List UInt8} {c : Conn σ} (h : Closed sv s stream c) :
    c.left=sv.expected s stream := by
  rw [h.2]
  simp [Conn.left,h.1]

theorem Between.closes {done : List UInt8} {c : Conn σ} (hw : sv.Writable)
    (h : Between sv s done c) (hn : packetLength c.rbuf≤ c.rbuf.length)
    (ho : (c.processPacket sv).2.badConnClose=true) :
    Closed sv s (done++c.rbuf) (c.processPacket sv).2 := by
  obtain ⟨k,hk,-⟩ := processPacket_takes hw c hn
  have hv : (c.processPacket sv).2.view=sv.react (c.rbuf.take (packetLength c.rbuf)) c.view := hk.view
  refine ⟨ho,?_⟩
  rw [h.expected,packets.drain_complete sv.react Prod.snd (s := c.view) h.1 hn,hv]
  exact packets.drain_closed _ _ _ ((congrArg Prod.snd hv).symm.trans ho)

/-- How the loop may end. -/
def Settled (sv : Server σ) (s : σ) (stream : List UInt8) (r : Bool × Conn σ) : Prop :=
  r.1=true ∧ Closed sv s stream r.2 ∨
    r.1=false ∧ r.2.rbuf.length< r.2.chklen ∧ Waits sv s stream r.2

theorem processPackets_stop {c : Conn σ} (h : c.rbuf.length<c.chklen) (fuel : Nat) :
    processPackets sv (fuel+1) c=(false,c) := if_pos h

theorem processPackets_close {c : Conn σ} (h : ¬c.rbuf.length<c.chklen) (fuel : Nat)
    (hb : (c.processPacket sv).2.badConnClose=true) :
    processPackets sv (fuel+1) c=(true,(c.processPacket sv).2) := by
  rw [processPackets,if_neg h]
  simp [hb]

theorem processPackets_next {c : Conn σ} (h : ¬c.rbuf.length<c.chklen) (fuel : Nat)
    (hk : (c.processPacket sv).1=true) (hb : (c.processPacket sv).2.badConnClose=false) :
    processPackets sv (fuel+1) c=processPackets sv fuel
      { (c.processPacket sv).2 with chklen := max (c.processPacket sv).2.chklen 1 } := by
  rw [processPackets,if_neg h]
  simp [hk,hb]

theorem packetLength_getAllEnv {c : Conn σ} (hl : 0<c.rbuf.length) (h : c.byteAt 0=24) :
    packetLength c.rbuf=2 := by
  cases hb : c.rbuf with
  | nil => simp [hb] at hl
  | cons x b =>
    obtain rfl : x=24 := (byteAt_zero hb).symm.trans h
    rw [packetLength_cons]
    rfl

theorem cons_of_byteAt {c : Conn σ} {x y : UInt8} (hl : 2≤ c.rbuf.length) (hx : c.byteAt 0=x)
    (hy : c.byteAt 1=y) : ∃ b,c.rbuf=x::y::b := by
  match hb : c.rbuf,hl with
  | x'::y'::b,_ =>
    simp only [byteAt,hb,List.getD_cons_zero,List.getD_cons_succ] at hx hy
    exact ⟨b,by rw [hx,hy]⟩

/-- Only `GETALLENV` requests whose reserved byte is zero leave the connection open. -/
theorem getAllEnv_reserved (hw : sv.Writable) {c : Conn σ} (h : c.byteAt 0=24)
    (hl : 2≤ c.rbuf.length) (ho : (c.processPacket sv).2.badConnClose=false) : c.byteAt 1=0 := by
  by_contra hr
  have hc : CpCmd.ofByte 24=some .getAllEnv := rfl
  simp [processPacket,h,hc,handler,processGetallenv,Nat.not_lt.mpr hl,hr,badReq_eq hw] at ho

/-- A request that is there closes the connection, or the loop goes on behind it, at the next
request or with the `chklen` that `GETALLENV` has left. -/
theorem processPackets_takes (hw : sv.Writable) {c : Conn σ} {done : List UInt8} {fuel : Nat}
    (hb : Between sv s done c) (hk : c.chklen≤ packetLength c.rbuf)
    (hn : packetLength c.rbuf≤ c.rbuf.length) (hs : ¬sv.Stalls s (done++c.rbuf)) :
    Settled sv s (done++c.rbuf) (processPackets sv (fuel+1) c) ∨
      ∃ done' c',done++c.rbuf=done'++c'.rbuf ∧ Between sv s done' c' ∧
        c'.rbuf.length<c.rbuf.length ∧ 1≤ c'.chklen ∧
        processPackets sv (fuel+1) c=processPackets sv fuel c' ∧
        (c'.chklen≤ packetLength c'.rbuf ∨
          c'.rbuf=[] ∧ c'.chklen=2 ∧ ∃ t,done'=done++[24,0] ∧ sv.expected s done=((t,false),[])) := by
  have hlt : ¬c.rbuf.length<c.chklen := by omega
  have hp := packetLength_pos c.rbuf
  obtain ⟨k,ht,hk'⟩ := processPacket_takes hw c hn
  cases ho : (c.processPacket sv).2.badConnClose with
  | true =>
    refine .inl (.inl ?_)
    rw [processPackets_close hlt fuel ho]
    exact ⟨rfl,hb.closes hw hn ho⟩
  | false =>
    refine .inr ⟨done++c.rbuf.take (packetLength c.rbuf),
      { (c.processPacket sv).2 with chklen := max (c.processPacket sv).2.chklen 1 },?_,
      hb.takes hw hn ho,?_,le_max_right _ _,processPackets_next hlt fuel ht.ok ho,?_⟩
    · simp [(ht.rest ho).1]
    · simp only [(ht.rest ho).1,List.length_drop]
      omega
    · simp only [(ht.rest ho).1,(ht.rest ho).2]
      have hp' := packetLength_pos (c.rbuf.drop (packetLength c.rbuf))
      rcases hk' with rfl | ⟨rfl,h1 | h24⟩
      · exact .inl (by omega)
      · exact .inl (by omega)
      · -- the one handler that leaves a `chklen` above one
        have h2 := packetLength_getAllEnv (by omega) h24
        have hr := getAllEnv_reserved hw h24 (by omega) ho
        obtain ⟨b,hcb⟩ := cons_of_byteAt (by omega) h24 hr
        have hd : c.rbuf=[24,0]++c.rbuf.drop 2 := by simp [hcb]
        rw [h2] at hk ⊢
        by_cases he : c.rbuf.drop 2=[]
        · by_cases h1 : c.chklen=2
          · refine .inr ⟨he,by omega,c.env,?_,?_⟩
            · simp [hcb]
            · rw [hb.2,view,hb.1]
          · have hp' := packetLength_pos (c.rbuf.drop 2)
            exact .inl (by omega)
        · have hq : sv.expected s done=((c.env,false),[]) := by rw [hb.2,view,hb.1]
          rw [hd,← List.append_assoc] at hs
          have h := packetLength_of_not_stalls hq he hs
          exact .inl (by omega)

/-- The loop handles every request that the buffer has, and no other. -/
theorem processPackets_settled (hw : sv.Writable) (fuel : Nat) {c : Conn σ} {done : List UInt8}
    (hb : Between sv s done c) (h0 : c.rbuf≠[] ∨ 1≤ c.chklen)
    (hk : c.chklen≤ packetLength c.rbuf) (hs : ¬sv.Stalls s (done++c.rbuf))
    (hf : c.rbuf.length+1<fuel) :
    Settled sv s (done++c.rbuf) (processPackets sv fuel c) := by
  induction fuel generalizing c done with
  | zero => omega
  | succ fuel ih =>
    by_cases hlt : c.rbuf.length<c.chklen
    · rw [processPackets_stop hlt]
      exact .inr ⟨rfl,hlt,⟨done,rfl,hb⟩,hlt.trans_le hk,ready_of_le hk⟩
    · by_cases hn : packetLength c.rbuf≤ c.rbuf.length
      · obtain h | ⟨done',c',hd,hb',hl,h1,he,hk'⟩ := processPackets_takes hw hb hk hn hs
        · exact h
        · rw [he,hd]
          rw [hd] at hs
          rcases hk' with hk' | ⟨hnil,h2,t,rfl,hq⟩
          · exact ih hb' (.inr h1) hk' hs (by omega)
          · obtain ⟨fuel,rfl⟩ : ∃ n,fuel=n+1 := ⟨fuel-1,by omega⟩
            have hlt' : c'.rbuf.length<c'.chklen := by simp [hnil,h2]
            rw [processPackets_stop hlt']
            refine .inr ⟨rfl,hlt',⟨_,rfl,hb'⟩,by simp [hnil,packetLength_nil],?_⟩
            intro data hdata hst
            simp only [hnil,List.append_nil,List.nil_append] at hst ⊢
            rw [h2]
            exact packetLength_of_not_stalls hq hdata hst
      · -- the handler of a request that is not there whole only sets `chklen`
        have hlen : 1≤ c.rbuf.length := by
          rcases h0 with h0 | h0
          · exact List.length_pos_of_ne_nil h0
          · omega
        have hw' := processPacket_waits sv c hlen (by omega)
        have hp := packetLength_pos c.rbuf
        obtain ⟨fuel,rfl⟩ : ∃ n,fuel=n+1 := ⟨fuel-1,by omega⟩
        rw [processPackets_next hlt _ (by rw [hw']; rfl) (by rw [hw']; exact hb.1),hw',
          processPackets_stop (by simp only [waitFor]; omega)]
        refine .inr ⟨rfl,?_,⟨done,rfl,hb⟩,?_,ready_of_le ?_⟩ <;> simp only [waitFor] <;> omega

/-- A connection that has kept up with the stream. -/
def Kept (sv : Server σ) (s : σ) (stream : List UInt8) (c : Conn σ) : Prop :=
  Closed sv s stream c ∨ Waits sv s stream c

theorem Kept.left {stream : List UInt8} {c : Conn σ} (h : Kept sv s stream c) :
    c.left=sv.expected s stream := by
  rcases h with h | h
  · exact h.left
  · exact h.left

theorem Closed.append {stream : List UInt8} {c : Conn σ} (h : Closed sv s stream c)
    (data : List UInt8) : Closed sv s (stream++data) c := by
  refine ⟨h.1,?_⟩
  have hd := packets.drain_boundary sv.react Prod.snd h.2 data
  exact hd.trans (packets.drain_closed _ _ _ h.1)

theorem kept_accept (sv : Server σ) (s : σ) : Kept sv s [] (accept s) := by
  refine .inr ⟨⟨[],rfl,rfl,?_⟩,packetLength_pos [],ready_of_le (Nat.zero_le _)⟩
  exact packets.drain_incomplete _ _ rfl (by decide)

/-- One read event. -/
theorem Waits.dataReady (hw : sv.Writable) {stream data : List UInt8} {c : Conn σ}
    (h : Waits sv s stream c) (hd : data≠[]) (hs : ¬sv.Stalls s (stream++data)) :
    Closed sv s (stream++data) (c.dataReady sv data).2 ∨
      Waits sv s (stream++data) (c.dataReady sv data).2 ∧
        (c.dataReady sv data).2.rbuf.length<(c.dataReady sv data).2.chklen := by
  obtain ⟨⟨done,rfl,hb⟩,hi,hr⟩ := h
  have hk := hr data hd hs
  rw [List.append_assoc] at hs ⊢
  have hset := processPackets_settled (c := { c with rbuf := c.rbuf++data }) hw
    ((c.rbuf++data).length+2) hb (.inl (by simp [hd])) hk hs (Nat.lt_succ_self _)
  simp only [Conn.dataReady,if_neg hd]
  rcases hset with ⟨ht,hc⟩ | ⟨hf,hlt,hwt⟩
  · rw [if_pos ht]
    exact .inl hc
  · have hl := packetLength_le (processPackets sv ((c.rbuf++data).length+2)
      { c with rbuf := c.rbuf++data }).2.rbuf
    have hi' := hwt.incomplete
    rw [if_neg (by rw [hf]; exact Bool.false_ne_true),if_neg (by omega)]
    exact .inr ⟨hwt,hlt⟩

theorem Kept.deliver (hw : sv.Writable) {stream data : List UInt8} {c : Conn σ}
    (h : Kept sv s stream c) (hd : c.badConnClose=false → data≠[])
    (hs : ¬sv.Stalls s (stream++data)) : Kept sv s (stream++data) (c.deliver sv data) := by
  rcases h with h | h
  · rw [Conn.deliver,if_pos h.1]
    exact .inl (h.append data)
  · have ho : c.badConnClose=false := h.between.elim fun _ hb => hb.2.1
    rw [Conn.deliver,if_neg (by simp [ho])]
    rcases h.dataReady hw (hd ho) hs with hc | ⟨hc,-⟩
    · exact .inl hc
    · exact .inr hc

theorem Kept.run (hw : sv.Writable) {chunks : List (List UInt8)} {stream : List UInt8}
    {c : Conn σ} (h : Kept sv s stream c) (hf : c.Fits sv chunks)
    (hs : ¬sv.Stalls s (stream++chunks.flatten)) :
    Kept sv s (stream++chunks.flatten) (c.run sv chunks) := by
  induction chunks generalizing stream c with
  | nil =>
    rw [List.flatten_nil,List.append_nil]
    exact h
  | cons data chunks ih =>
    rw [List.flatten_cons,← List.append_assoc] at hs ⊢
    have hd := h.deliver hw (fun ho => (hf.1 ho).1) fun hst =>
      hs (hst.mono (List.prefix_append _ _))
    exact ih hd hf.2 hs

theorem run_append (c : Conn σ) (a b : List (List UInt8)) :
    c.run sv (a++b)=(c.run sv a).run sv b := List.foldl_append

theorem fits_append {c : Conn σ} {a b : List (List UInt8)} (ha : c.Fits sv a)
    (hb : (c.run sv a).Fits sv b) : c.Fits sv (a++b) := by
  induction a generalizing c with
  | nil => exact hb
  | cons data a ih => exact ⟨ha.1,ih ha.2 hb⟩

/-- There is always space for another byte. -/
theorem Kept.space {stream : List UInt8} {c : Conn σ} (h : Kept sv s stream c)
    (ho : c.badConnClose=false) : c.rbuf.length+1≤1024 := by
  rcases h with h | h
  · simp [h.1] at ho
  · have hi := h.incomplete
    have hl := packetLength_le c.rbuf
    omega

/-- A stream may come in byte by byte. -/
theorem fits_bytes (hw : sv.Writable) {stream : List UInt8} (hs : ¬sv.Stalls s stream) :
    (accept s).Fits sv (stream.map fun x => [x]) := by
  induction stream using List.reverseRecOn with
  | nil => trivial
  | append_singleton q x ih =>
    have hq := ih fun h => hs (h.mono (List.prefix_append _ _))
    have hk := (kept_accept sv s).run hw hq (by
      rw [List.nil_append,← List.flatMap_def,List.flatMap_singleton']
      exact fun h => hs (h.mono (List.prefix_append _ _)))
    rw [List.map_append]
    exact fits_append hq ⟨fun ho => ⟨by simp,hk.space ho⟩,trivial⟩

theorem Kept.eq {stream r : List UInt8} {c : Conn σ} {t : σ} (h : Kept sv s stream c)
    (he : sv.expected s stream=((t,false),r)) : c=⟨r,c.chklen,false,t⟩ ∧ Waits sv s stream c := by
  have hl := h.left.trans he
  rcases h with h | h
  · have hb : c.badConnClose=false := congrArg (fun l => l.1.2) hl
    simp [h.1] at hb
  · obtain ⟨-,-,ho,-⟩ := h.between
    have hr : c.rbuf=r := by simpa [Conn.left,ho] using congrArg Prod.snd hl
    have ht : c.env=t := congrArg (fun l => l.1.1) hl
    obtain ⟨b,k,bad,e⟩ := c
    subst hr ht ho
    exact ⟨rfl,h⟩

theorem dataReady_getAllEnv (hw : sv.Writable) (t : σ) :
    ∃ t',(Conn.mk [24] 2 false t).dataReady sv [0]=(false,⟨[],2,false,t'⟩) := by
  have hp : ∃ t',processPacket sv ⟨[24,0],2,false,t⟩=(true,⟨[],2,false,t'⟩) := by
    simp only [processPacket,byteAt,List.getD_cons_zero,show CpCmd.ofByte 24=some .getAllEnv from rfl,
      handler,processGetallenv,answer_eq hw]
    exact ⟨_,rfl⟩
  obtain ⟨t',ht⟩ := hp
  refine ⟨t',?_⟩
  have hl : processPackets sv 4 ⟨[24,0],2,false,t⟩=(false,⟨[],2,false,t'⟩) := by
    rw [processPackets_next (by simp) _ (by rw [ht]) (by rw [ht]),ht]
    exact processPackets_stop (by simp) 2
  simp [Conn.dataReady,hl]

/-- The `chklen` that `GETALLENV` leaves keeps a single byte in the buffer. -/
theorem dataReady_stale (t : σ) (x : UInt8) :
    (Conn.mk [] 2 false t).dataReady sv [x]=(false,⟨[x],2,false,t⟩) := by
  have hl : processPackets sv 3 ⟨[x],2,false,t⟩=(false,⟨[x],2,false,t⟩) :=
    processPackets_stop (by simp) 2
  simp [Conn.dataReady,hl]

/-- Byte by byte, a stream that has not stalled is kept up with. -/
theorem kept_bytes (hw : sv.Writable) {stream : List UInt8} (hs : ¬sv.Stalls s stream) :
    Kept sv s stream ((accept s).run sv (stream.map fun x => [x])) := by
  have hf : (stream.map fun x => [x]).flatten=stream := by
    rw [← List.flatMap_def,List.flatMap_singleton']
  have h := (kept_accept sv s).run hw (fits_bytes hw hs) (by rwa [List.nil_append,hf])
  rwa [List.nil_append,hf] at h

/-- `GETALLENV`, when its two bytes come apart, leaves `chklen` at two. -/
theorem getAllEnv_apart (hw : sv.Writable) {q : List UInt8} {t : σ}
    (hq : sv.expected s q=((t,false),[])) (hs : ¬sv.Stalls s (q++[24,0])) :
    ∃ t',(accept s).run sv ((q++[24,0]).map fun x => [x])=⟨[],2,false,t'⟩ := by
  have hs1 : ¬sv.Stalls s (q++[24]) := fun h => hs (h.mono ⟨[0],by simp⟩)
  have hs0 : ¬sv.Stalls s q := fun h => hs (h.mono (List.prefix_append _ _))
  obtain ⟨-,h0⟩ := (kept_bytes hw hs0).eq hq
  rw [List.map_append,run_append]
  generalize (accept s).run sv (q.map fun x => [x])=c at h0 ⊢
  obtain ⟨-,-,ho,-⟩ := h0.between
  have he : sv.expected s (q++[24])=((t,false),[24]) := by
    have hd := packets.drain_boundary sv.react Prod.snd hq [24]
    exact hd.trans (packets.drain_incomplete _ _ rfl (by decide))
  have h1 : (c.dataReady sv [24]).2=⟨[24],2,false,t⟩ := by
    rcases h0.dataReady hw (List.cons_ne_nil 24 []) hs1 with hc | ⟨hc,hlt⟩
    · have hnil := congrArg Prod.snd (hc.2.symm.trans he)
      simp at hnil
    · have hk := hc.ready [0] (by simp) (by simpa using hs)
      obtain ⟨h1,-⟩ := Kept.eq (.inr hc) he
      rw [h1] at hlt hk ⊢
      have hk2 : (c.dataReady sv [24]).2.chklen=2 := le_antisymm hk hlt
      rw [hk2]
  obtain ⟨t',ht⟩ := dataReady_getAllEnv hw t
  refine ⟨t',?_⟩
  have hd1 : c.deliver sv [24]=⟨[24],2,false,t⟩ := by
    rw [Conn.deliver,ho]
    exact h1
  have hd2 : (Conn.mk [24] 2 false t).deliver sv [0]=⟨[],2,false,t'⟩ := congrArg Prod.snd ht
  simp only [run,List.map_cons,List.map_nil,List.foldl_cons,List.foldl_nil,hd1,hd2]

/-- If `GETALLENV` can stall the connection, it does so when the bytes come in one by one. -/
theorem exists_left_over (hw : sv.Writable) {q : List UInt8} {x : UInt8} {t : σ}
    (hq : sv.expected s q=((t,false),[])) (hx : packetLength [x]=1)
    (hs : ¬sv.Stalls s (q++[24,0])) :
    ∃ chunks,chunks.flatten=q++[24,0,x] ∧ (accept s).Fits sv chunks ∧
      ((accept s).run sv chunks).left≠sv.expected s (q++[24,0,x]) := by
  obtain ⟨t',ht⟩ := getAllEnv_apart hw hq hs
  have hk := kept_bytes hw hs
  rw [ht] at hk
  refine ⟨((q++[24,0]).map fun x => [x])++[[x]],?_,fits_append (fits_bytes hw hs) ?_,?_⟩
  · rw [List.flatten_append,← List.flatMap_def,List.flatMap_singleton']
    simp
  · rw [ht]
    exact ⟨fun _ => ⟨by simp,by simp⟩,trivial⟩
  · have he : sv.expected s (q++[24,0])=((t',false),[]) := hk.left.symm
    have hd : sv.expected s (q++[24,0]++[x])=packets.drain sv.react Prod.snd (t',false) [x] :=
      packets.drain_boundary _ _ he [x]
    have hnil : (sv.expected s (q++[24,0,x])).2=[] := by
      rw [show q++[24,0,x]=q++[24,0]++[x] by simp,hd,
        packets.drain_complete sv.react Prod.snd rfl (show packetLength [x]≤[x].length by simp [hx])]
      have hz : [x].drop (packets.need [x])=[] := List.drop_eq_nil_of_le (show 1≤ packetLength [x] by simp [hx])
      rw [hz]
      exact packets.drain_nil _ _ _
    intro hl
    have hr := (congrArg Prod.snd hl).trans hnil
    have hd3 : (Conn.mk [] 2 false t').deliver sv [x]=⟨[x],2,false,t'⟩ :=
      congrArg Prod.snd (dataReady_stale t' x)
    rw [run_append,ht] at hr
    simp [run,hd3,Conn.left] at hr

end Conn

/-- However the bytes that have arrived of a stream were split into reads, the server has
handled exactly the complete requests among them, each on its own and in order, and keeps the
beginning of the next: if and only if no `GETALLENV` request has a request of a single byte
right behind it. -/
theorem chunks_exact (sv : Server σ) (hw : sv.Writable) (s : σ) (stream : List UInt8) :
    (∀ chunks : List (List UInt8),chunks.flatten <+: stream → (Conn.accept s).Fits sv chunks →
      ((Conn.accept s).run sv chunks).left=sv.expected s chunks.flatten) ↔
      ¬sv.Stalls s stream := by
  constructor
  · rintro h ⟨q,x,t,hq⟩
    -- the first place where it can happen
    induction hn : q.length using Nat.strong_induction_on generalizing q x t with
    | _ n ih =>
      obtain ⟨hpre,ht,hx⟩ := hq
      have hs : ¬sv.Stalls s (q++[24,0]) := by
        rintro ⟨q',x',t',hpre',ht',hx'⟩
        have hl := hpre'.length_le
        simp only [List.length_append,List.length_cons,List.length_nil] at hl
        have hsub : q++[24,0] <+: q++[24,0,x] := ⟨[x],by simp⟩
        exact ih q'.length (by omega) q' x' t' ⟨hpre'.trans (hsub.trans hpre),ht',hx'⟩ rfl
      obtain ⟨chunks,hc,hf,hne⟩ := Conn.exists_left_over hw ht hx hs
      have hr := h chunks (hc ▸ hpre) hf
      rw [hc] at hr
      exact hne hr
  · intro hs chunks hpre hf
    have hk := (Conn.kept_accept sv s).run hw hf fun h => hs (h.mono hpre)
    exact hk.left

/-- A server with no service and an empty environment, as far as the requests below go; its
state is what it has replied. -/
def Server.bare : Server (List Packet) where
  findServiceForKey _ _ := none
  perform r s :=
    match r with
    | .queryVersion => ([[58,1,0,5,0]],s)
    | .findService _ | .loadService _ => ([[60]],s)
    | .listServices | .listServices5 => ([[63]],s)
    | .getAllEnv => ([[78,0,0,0,0,0,0,0,0]],s)
    | _ => ([CpRply.ack],s)
  queuePacket p s := (true,s++[p])

/-- Two `GETALLENV` requests in a row are answered however they are split. -/
theorem chunks_exact_twice : Server.bare.Writable ∧
    ∀ chunks : List (List UInt8),chunks.flatten <+: [24,0,24,0] →
      (Conn.accept []).Fits Server.bare chunks →
      ((Conn.accept []).run Server.bare chunks).left=Server.bare.expected [] chunks.flatten := by
  refine ⟨fun _ _ => rfl,(chunks_exact Server.bare (fun _ _ => rfl) [] [24,0,24,0]).mpr ?_⟩
  rintro ⟨q,x,t,hpre,-,hx⟩
  have hl := hpre.length_le
  match q with
  | [] =>
    obtain rfl : x=24 := by simpa using hpre
    exact absurd hx (by decide)
  | [a] => simp at hpre
  | a::b::q =>
    rw [List.length_append,List.length_cons,List.length_cons] at hl
    simp only [List.length_cons,List.length_nil] at hl
    omega

/-- `GETALLENV` and `QUERYVERSION`. In one read both are answered; byte by byte the second
stays in the buffer. -/
theorem chunks_stalled :
    ([[24],[0],[0]] : List (List UInt8)).flatten=[24,0,0] ∧
    (Conn.accept []).Fits Server.bare [[24,0,0]] ∧
    (Conn.accept []).Fits Server.bare [[24],[0],[0]] ∧
    ((Conn.accept []).run Server.bare [[24,0,0]]).left=
      (([[78,0,0,0,0,0,0,0,0],[58,1,0,5,0]],false),[]) ∧
    ((Conn.accept []).run Server.bare [[24],[0],[0]]).left=
      (([[78,0,0,0,0,0,0,0,0]],false),[0]) := by
  refine ⟨rfl,⟨fun _ => by decide,trivial⟩,
    ⟨fun _ => by decide,fun _ => by decide,fun _ => by decide,trivial⟩,by decide,by decide⟩

end Dinit
