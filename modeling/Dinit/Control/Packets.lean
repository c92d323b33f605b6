import Dinit.Control.Connection

namespace Dinit

open Framework

/-- The size of a request with a string: its length stands in the two bytes after the command,
and one that is refused is refused with the fourth byte. -/
def stringSize (b : List UInt8) : Nat :=
  if b.length<4 then 4
  else
    let len := native (extract b 1 2)
    if len=0 ∨ 1024-3<len then 4 else len+3

/-- The size of a request, as far as it can be told from the part of it that is there. -/
def CpCmd.pktSize (cmd : CpCmd) (b : List UInt8) : Nat :=
  match cmd with
  | .queryVersion | .listServices | .listServices5 | .queryLoadMech | .listenEnv => 1
  | .shutdown | .getAllEnv => 2
  | .unpinService | .unloadService | .reloadService | .serviceStatus | .serviceStatus5
  | .closeHandle => 5
  | .startService | .stopService | .wakeService | .releaseService | .queryServiceName
  | .setTrigger | .catlog | .queryServiceDscDir => 6
  | .signal => 9
  | .addDep | .remDep | .enableService => 10
  | .findService | .loadService | .setEnv => stringSize b

/-- The bytes that the request at the head of `b` takes; an unknown command is refused by its
first byte. -/
def packetLength (b : List UInt8) : Nat :=
  match CpCmd.ofByte (b.getD 0 0) with
  | none => 1
  | some cmd => if b=[] then 1 else cmd.pktSize b

theorem stringSize_ge (b : List UInt8) : 4≤ stringSize b := by
  unfold stringSize
  split
  · exact le_refl _
  · simp only
    split <;> omega

theorem stringSize_le (b : List UInt8) : stringSize b≤1024 := by
  unfold stringSize
  split
  · decide
  · simp only
    split <;> omega

theorem extract_append (b c : List UInt8) {i j : Nat} (h : i+j≤ b.length) :
    extract (b++c) i j=extract b i j := by
  rw [extract,extract,List.drop_append_of_le_length (by omega),
    List.take_append_of_le_length (by rw [List.length_drop]; omega)]

theorem stringSize_append (b c : List UInt8) (h : 4≤ b.length) :
    stringSize (b++c)=stringSize b := by
  have hc : ¬(b++c).length<4 := by
    rw [List.length_append]
    omega
  unfold stringSize
  rw [if_neg hc,if_neg (Nat.not_lt.mpr h),extract_append b c (by omega)]

theorem CpCmd.pktSize_pos (cmd : CpCmd) (b : List UInt8) : 0<cmd.pktSize b := by
  have h := stringSize_ge b
  cases cmd <;> simp only [CpCmd.pktSize] <;> omega

theorem CpCmd.pktSize_le (cmd : CpCmd) (b : List UInt8) : cmd.pktSize b≤1024 := by
  have h := stringSize_le b
  cases cmd <;> simp only [CpCmd.pktSize] <;> omega

theorem CpCmd.pktSize_append (cmd : CpCmd) (b c : List UInt8) (h : cmd.pktSize b≤ b.length) :
    cmd.pktSize (b++c)=cmd.pktSize b := by
  cases cmd <;> try rfl
  all_goals exact stringSize_append b c (le_trans (stringSize_ge b) h)

theorem CpCmd.pktSize_grows (cmd : CpCmd) (b c : List UInt8) :
    cmd.pktSize b≤ cmd.pktSize (b++c) := by
  have h : stringSize b≤ stringSize (b++c) := by
    by_cases hb : b.length<4
    · have hs : stringSize b=4 := if_pos hb
      exact hs ▸ stringSize_ge (b++c)
    · exact (stringSize_append b c (by omega)).ge
  cases cmd <;> first | exact le_refl _ | exact h

theorem CpCmd.ofByte_getAllEnv {x : UInt8} (h : CpCmd.ofByte x=some .getAllEnv) : x=24 := by
  unfold CpCmd.ofByte at h
  split at h <;> simp at h
  rename_i hx
  exact UInt8.toNat_inj.mp hx

theorem packetLength_nil : packetLength []=1 := by decide

theorem packetLength_cons (x : UInt8) (b : List UInt8) :
    packetLength (x::b)=((CpCmd.ofByte x).map fun cmd => cmd.pktSize (x::b)).getD 1 := by
  cases h : CpCmd.ofByte x <;> simp [packetLength,h]

theorem packetLength_pos (b : List UInt8) : 0<packetLength b := by
  cases b with
  | nil => simp [packetLength_nil]
  | cons x b =>
    rw [packetLength_cons]
    cases CpCmd.ofByte x with
    | none => simp
    | some cmd => simpa using cmd.pktSize_pos (x::b)

/-- Every request fits into the buffer. -/
theorem packetLength_le (b : List UInt8) : packetLength b≤1024 := by
  cases b with
  | nil => simp [packetLength_nil]
  | cons x b =>
    rw [packetLength_cons]
    cases CpCmd.ofByte x with
    | none => simp
    | some cmd => simpa using cmd.pktSize_le (x::b)

/-- The framing of the control protocol. -/
def packets : Framing UInt8 where
  need := packetLength
  pos := packetLength_pos
  stable b c h := by
    cases b with
    | nil => simp [packetLength_nil] at h
    | cons x b =>
      rw [List.cons_append,packetLength_cons,packetLength_cons]
      rw [packetLength_cons] at h
      cases hx : CpCmd.ofByte x with
      | none => rfl
      | some cmd =>
        rw [hx] at h
        exact cmd.pktSize_append (x::b) c h
  grows b c := by
    cases b with
    | nil => exact packetLength_nil ▸ packetLength_pos c
    | cons x b =>
      rw [List.cons_append,packetLength_cons,packetLength_cons]
      cases hx : CpCmd.ofByte x with
      | none => simp
      | some cmd => exact cmd.pktSize_grows (x::b) c

/-- No reply is lost: the socket takes what is written to it, now or later. -/
def Server.Writable {σ : Type} (sv : Server σ) : Prop := ∀ p s, (sv.queuePacket p s).1=true

/-- The state after a list of replies. -/
def Server.queued {σ : Type} (sv : Server σ) (ps : List Packet) (s : σ) : σ :=
  ps.foldl (fun s p => (sv.queuePacket p s).2) s

namespace Conn

variable {σ : Type} {sv : Server σ}

theorem queuePacket_eq (hw : sv.Writable) (c : Conn σ) (p : Packet) :
    c.queuePacket sv p=(true,{ c with env := (sv.queuePacket p c.env).2 }) := by
  simp [queuePacket,hw p c.env]

theorem queueAll_eq (hw : sv.Writable) (c : Conn σ) (ps : List Packet) :
    c.queueAll sv ps=(true,{ c with env := sv.queued ps c.env }) := by
  induction ps generalizing c with
  | nil => rfl
  | cons p ps ih =>
    rw [queueAll,queuePacket_eq hw]
    exact ih { c with env := (sv.queuePacket p c.env).2 }

theorem answer_eq (hw : sv.Writable) (c : Conn σ) (r : CpRequest) :
    c.answer sv r=
      (true,{ c with env := sv.queued (sv.perform r c.env).1 (sv.perform r c.env).2 }) :=
  queueAll_eq hw _ _

theorem badReq_eq (hw : sv.Writable) (c : Conn σ) :
    c.badReq sv=
      (true,{ c with env := (sv.queuePacket CpRply.badReq c.env).2, badConnClose := true }) := by
  simp [badReq,queuePacket_eq hw,orReturn]

/-- The part of a connection that a packet decides. -/
def view (c : Conn σ) : σ × Bool := (c.env,c.badConnClose)

/-- The connection with only the first `n` bytes of its buffer. -/
def cut (c : Conn σ) (n : Nat) : Conn σ := { c with rbuf := c.rbuf.take n, chklen := 0 }

theorem cut_byteAt (c : Conn σ) {n i : Nat} (h : i<n) : (c.cut n).byteAt i=c.byteAt i := by
  simp [cut,byteAt,List.getD_eq_getElem?_getD,List.getElem?_take_of_lt h]

theorem cut_extract (c : Conn σ) {n i j : Nat} (h : i+j≤ n) :
    extract (c.cut n).rbuf i j=extract c.rbuf i j := by
  simp only [cut,extract,List.drop_take,List.take_take]
  rw [Nat.min_eq_left (by omega)]

theorem cut_handleAt (c : Conn σ) {n i : Nat} (h : i+4≤ n) :
    (c.cut n).handleAt i=c.handleAt i := by
  rw [handleAt,cut_extract c h,handleAt]

@[simp] theorem cut_env (c : Conn σ) (n : Nat) : (c.cut n).env=c.env := rfl

@[simp] theorem cut_badConnClose (c : Conn σ) (n : Nat) :
    (c.cut n).badConnClose=c.badConnClose := rfl

theorem cut_length (c : Conn σ) {n : Nat} (h : n≤ c.rbuf.length) :
    (c.cut n).rbuf.length=n := by simp [cut,h]

/-- A handler that takes exactly the first `n` bytes of the buffer: what comes after them has
no say in what it does and stays in the buffer, with `chklen` at `k`, unless the connection is
marked bad. -/
structure Takes (f : Conn σ → Bool × Conn σ) (n k : Nat) (c : Conn σ) : Prop where
  ok : (f c).1=true
  view : (f c).2.view=(f (c.cut n)).2.view
  rest : (f c).2.badConnClose=false → (f c).2.rbuf=c.rbuf.drop n ∧ (f c).2.chklen=k

section
variable (hw : sv.Writable) (c : Conn σ)
include hw

theorem takes_badReq (n k : Nat) : Takes (badReq sv) n k c := by
  constructor <;> simp [badReq_eq hw,view]

theorem takes_queryVersion : Takes (queryVersion sv) 1 c.chklen c := by
  constructor <;> simp [queryVersion,answer_eq hw,orReturn,view,consume]

theorem takes_answer (r : CpRequest) :
    Takes (fun c => (c.clearOut 1).answer sv r) 1 0 c := by
  constructor <;> simp [answer_eq hw,view,clearOut,consume]

theorem takes_processListenenv : Takes (processListenenv sv) 1 c.chklen c := by
  constructor <;> simp [processListenenv,answer_eq hw,view,consume]

theorem takes_processHandle (mk : Nat → CpRequest) (h : 5≤ c.rbuf.length) :
    Takes (processHandle sv mk) 5 0 c := by
  have hc := cut_handleAt c (n := 5) (i := 1) (by omega)
  have hl := cut_length c h
  constructor <;> cases hs : sv.findServiceForKey (c.handleAt 1) c.env <;>
    simp [processHandle,hl,hc,hs,Nat.not_lt.mpr h,badReq_eq hw,answer_eq hw,orReturn,view,
      clearOut,consume]

theorem takes_processCloseHandle (h : 5≤ c.rbuf.length) :
    Takes (processCloseHandle sv) 5 0 c := by
  have hc := cut_handleAt c (n := 5) (i := 1) (by omega)
  have hl := cut_length c h
  constructor <;> cases hs : sv.findServiceForKey (c.handleAt 1) c.env <;>
    simp [processCloseHandle,hl,hc,hs,Nat.not_lt.mpr h,badReq_eq hw,answer_eq hw,view,
      clearOut,consume]

theorem takes_processStartStop (mk : UInt8 → Nat → CpRequest) (h : 6≤ c.rbuf.length) :
    Takes (processStartStop sv mk) 6 0 c := by
  have hb := cut_byteAt c (n := 6) (i := 1) (by omega)
  have hc := cut_handleAt c (n := 6) (i := 2) (by omega)
  have hl := cut_length c h
  constructor <;> cases hs : sv.findServiceForKey (c.handleAt 2) c.env <;>
    by_cases hf : 128≤(c.byteAt 1).toNat <;>
    simp [processStartStop,hl,hb,hc,hs,hf,Nat.not_lt.mpr h,badReq_eq hw,answer_eq hw,
      queuePacket_eq hw,orReturn,view,clearOut,consume]

theorem takes_processShutdown (h : 2≤ c.rbuf.length) : Takes (processShutdown sv) 2 0 c := by
  have hb := cut_byteAt c (n := 2) (i := 1) (by omega)
  have hl := cut_length c h
  constructor <;> by_cases ht : 1≤(c.byteAt 1).toNat ∧ (c.byteAt 1).toNat≤6 <;>
    simp [processShutdown,hl,hb,ht,Nat.not_lt.mpr h,badReq_eq hw,answer_eq hw,orReturn,view,
      clearOut,consume]

theorem takes_processGetallenv (h : 2≤ c.rbuf.length) :
    Takes (processGetallenv sv) 2 c.chklen c := by
  have hb := cut_byteAt c (n := 2) (i := 1) (by omega)
  have hl := cut_length c h
  constructor <;> by_cases ht : c.byteAt 1=0 <;>
    simp [processGetallenv,hl,hb,ht,Nat.not_lt.mpr h,badReq_eq hw,answer_eq hw,view,consume]

theorem takes_processQuery {n i : Nat} {mk : Conn σ → Nat → CpRequest} (hi : i+4≤ n)
    (hm : ∀ handle, mk (c.cut n) handle=mk c handle) (h : n≤ c.rbuf.length) :
    Takes (processQuery sv n i mk) n 0 c := by
  have hc := cut_handleAt c hi
  have hl := cut_length c h
  constructor <;> cases hs : sv.findServiceForKey (c.handleAt i) c.env <;>
    simp [processQuery,hl,hc,hs,hm,Nat.not_lt.mpr h,queuePacket_eq hw,answer_eq hw,view,
      clearOut,consume]

theorem takes_processSetTrigger (h : 6≤ c.rbuf.length) : Takes (processSetTrigger sv) 6 0 c := by
  refine takes_processQuery hw c (by decide) (fun handle => ?_) h
  rw [cut_byteAt c (by decide)]

theorem takes_changeDep (mk : UInt8 → Nat → Nat → CpRequest) (h : 10≤ c.rbuf.length) :
    Takes (changeDep sv mk) 10 0 c := by
  have hb := cut_byteAt c (n := 10) (i := 1) (by omega)
  have hf := cut_handleAt c (n := 10) (i := 2) (by omega)
  have ht := cut_handleAt c (n := 10) (i := 6) (by omega)
  have hl := cut_length c h
  constructor <;>
    by_cases hs : sv.findServiceForKey (c.handleAt 2) c.env=none ∨
      sv.findServiceForKey (c.handleAt 6) c.env=none ∨
      sv.findServiceForKey (c.handleAt 2) c.env=sv.findServiceForKey (c.handleAt 6) c.env <;>
    by_cases hd : c.byteAt 1=0 ∨ c.byteAt 1=2 ∨ c.byteAt 1=3 <;>
    simp [changeDep,hl,hb,hf,ht,hs,hd,Nat.not_lt.mpr h,badReq_eq hw,answer_eq hw,orReturn,view,
      clearOut,consume]

omit hw in
/-- A request with a name in it: either the length of the name is bad, which shows in four bytes,
or the whole name is there. -/
theorem takes_string {f : Conn σ → Bool × Conn σ} (h : stringSize c.rbuf≤ c.rbuf.length)
    (hbad : (native (extract c.rbuf 1 2)=0 ∨ 1024-3<native (extract c.rbuf 1 2)) →
      (c.cut 4).rbuf.length=4 → extract (c.cut 4).rbuf 1 2=extract c.rbuf 1 2 →
      ¬c.rbuf.length<4 → Takes f 4 0 c)
    (hgood : ∀ n,native (extract c.rbuf 1 2)=n → ¬(n=0 ∨ 1024-3<n) →
      (c.cut (n+3)).rbuf.length=n+3 → extract (c.cut (n+3)).rbuf 1 2=extract c.rbuf 1 2 →
      extract (c.cut (n+3)).rbuf 3 n=extract c.rbuf 3 n →
      ¬c.rbuf.length<4 → ¬n+3<4 → ¬c.rbuf.length<n+3 → Takes f (n+3) 0 c) :
    Takes f (stringSize c.rbuf) 0 c := by
  have h4 := stringSize_ge c.rbuf
  have hl := cut_length c h
  have he := cut_extract c (n := stringSize c.rbuf) (i := 1) (j := 2) (by omega)
  have hn : ¬c.rbuf.length<4 := by omega
  have hs : stringSize c.rbuf=if native (extract c.rbuf 1 2)=0 ∨ 1024-3<native (extract c.rbuf 1 2) then 4
      else native (extract c.rbuf 1 2)+3 := if_neg hn
  by_cases hb : native (extract c.rbuf 1 2)=0 ∨ 1024-3<native (extract c.rbuf 1 2)
  · rw [if_pos hb] at hs
    rw [hs] at hl he ⊢
    exact hbad hb hl he hn
  · rw [if_neg hb] at hs
    rw [hs] at h h4 hl he ⊢
    exact hgood _ rfl hb hl he (cut_extract c (by omega)) hn (Nat.not_lt.mpr h4) (Nat.not_lt.mpr h)

theorem takes_processFindLoad (mk : List UInt8 → CpRequest)
    (h : stringSize c.rbuf≤ c.rbuf.length) :
    Takes (processFindLoad sv mk) (stringSize c.rbuf) 0 c := by
  refine takes_string c h (fun hb hl he hn => ?_) fun n hlen hb hl he hx hn h4 h => ?_
  · constructor <;> simp [processFindLoad,hl,he,hn,hb,badReq_eq hw,view]
  · constructor <;>
      simp [processFindLoad,hlen,hl,he,hx,hn,hb,h,h4,answer_eq hw,view,clearOut,consume]

theorem takes_processSetenv (h : stringSize c.rbuf≤ c.rbuf.length) :
    Takes (processSetenv sv) (stringSize c.rbuf) 0 c := by
  refine takes_string c h (fun hb hl he hn => ?_) fun n hlen hb hl he hx hn h4 h => ?_
  · constructor <;> simp [processSetenv,hl,he,hn,hb,badReq_eq hw,view]
  · constructor <;> by_cases hv : (extract c.rbuf 3 n).head?=some 61 <;>
      simp [processSetenv,hlen,hl,he,hx,hn,hb,hv,h,h4,badReq_eq hw,answer_eq hw,orReturn,view,
        clearOut,consume]

end

theorem Takes.congr {f g : Conn σ → Bool × Conn σ} {n k : Nat} {c : Conn σ} (h : Takes g n k c)
    (hc : f c=g c) (hn : f (c.cut n)=g (c.cut n)) : Takes f n k c := by
  obtain ⟨h1,h2,h3⟩ := h
  constructor
  · rw [hc]
    exact h1
  · rw [hc,hn]
    exact h2
  · rw [hc]
    exact h3

theorem takes_handler (hw : sv.Writable) (cmd : CpCmd) (c : Conn σ)
    (h : cmd.pktSize c.rbuf≤ c.rbuf.length) :
    ∃ k, Takes (handler sv (some cmd)) (cmd.pktSize c.rbuf) k c ∧
      (k=0 ∨ k=c.chklen ∧ (cmd.pktSize c.rbuf=1 ∨ cmd=.getAllEnv)) := by
  cases cmd with
  | queryVersion => exact ⟨_,takes_queryVersion hw c,.inr ⟨rfl,.inl rfl⟩⟩
  | listenEnv => exact ⟨_,takes_processListenenv hw c,.inr ⟨rfl,.inl rfl⟩⟩
  | getAllEnv => exact ⟨_,takes_processGetallenv hw c h,.inr ⟨rfl,.inr rfl⟩⟩
  | findService | loadService => exact ⟨_,takes_processFindLoad hw c _ h,.inl rfl⟩
  | setEnv => exact ⟨_,takes_processSetenv hw c h,.inl rfl⟩
  | startService | stopService | wakeService | releaseService =>
    exact ⟨_,takes_processStartStop hw c _ h,.inl rfl⟩
  | unpinService | unloadService | reloadService =>
    exact ⟨_,takes_processHandle hw c _ h,.inl rfl⟩
  | listServices | listServices5 | queryLoadMech => exact ⟨_,takes_answer hw c _,.inl rfl⟩
  | shutdown => exact ⟨_,takes_processShutdown hw c h,.inl rfl⟩
  | addDep | remDep | enableService => exact ⟨_,takes_changeDep hw c _ h,.inl rfl⟩
  | closeHandle => exact ⟨_,takes_processCloseHandle hw c h,.inl rfl⟩
  | queryServiceName | serviceStatus | serviceStatus5 =>
    exact ⟨_,takes_processQuery hw c (by decide) (fun _ => rfl) h,.inl rfl⟩
  | setTrigger => exact ⟨_,takes_processSetTrigger hw c h,.inl rfl⟩
  | catlog | queryServiceDscDir =>
    refine ⟨_,takes_processQuery hw c (by decide) (fun handle => ?_) h,.inl rfl⟩
    rw [cut_byteAt c (by decide)]
  | signal =>
    refine ⟨_,takes_processQuery hw c (by decide) (fun handle => ?_) h,.inl rfl⟩
    rw [cut_extract c (by decide)]

theorem handler_waits (cmd : CpCmd) (c : Conn σ) (h1 : 1≤ c.rbuf.length)
    (h : c.rbuf.length<cmd.pktSize c.rbuf) :
    handler sv (some cmd) c=c.waitFor (cmd.pktSize c.rbuf) := by
  cases cmd with
  | queryVersion | listenEnv | listServices | listServices5 | queryLoadMech =>
    simp only [CpCmd.pktSize] at h
    omega
  | findService | loadService | setEnv =>
    simp only [CpCmd.pktSize,stringSize] at h ⊢
    by_cases h4 : c.rbuf.length<4
    · simp [handler,processFindLoad,processSetenv,h4]
    · rw [if_neg h4] at h ⊢
      by_cases hb : native (extract c.rbuf 1 2)=0 ∨ 1024-3<native (extract c.rbuf 1 2)
      · rw [if_pos hb] at h
        omega
      · rw [if_neg hb] at h ⊢
        simp [handler,processFindLoad,processSetenv,h4,hb,h,waitFor]
  | _ => exact if_pos h

theorem byteAt_zero {c : Conn σ} {x : UInt8} {b : List UInt8} (h : c.rbuf=x::b) :
    c.byteAt 0=x := by simp [byteAt,h]

/-- A request that is there is taken whole, and nothing else with it. -/
theorem processPacket_takes (hw : sv.Writable) (c : Conn σ)
    (h : packetLength c.rbuf≤ c.rbuf.length) :
    ∃ k, Takes (processPacket sv) (packetLength c.rbuf) k c ∧
      (k=0 ∨ k=c.chklen ∧ (packetLength c.rbuf=1 ∨ c.byteAt 0=24)) := by
  have hp := packetLength_pos c.rbuf
  have hn := cut_byteAt c hp
  cases hb : c.rbuf with
  | nil => simp [hb,packetLength_nil] at h
  | cons x b =>
    have hx := byteAt_zero hb
    rw [← hb]
    cases hc : CpCmd.ofByte x with
    | none =>
      have hl : packetLength c.rbuf=1 := by simp [hb,packetLength_cons,hc]
      refine ⟨0,(takes_badReq hw c _ 0).congr ?_ ?_,.inl rfl⟩
      · simp [processPacket,handler,hx,hc]
      · simp [processPacket,handler,hn,hx,hc]
    | some cmd =>
      have hl : packetLength c.rbuf=cmd.pktSize c.rbuf := by simp [hb,packetLength_cons,hc]
      rw [hl] at h hn ⊢
      obtain ⟨k,hk,hk'⟩ := takes_handler hw cmd c h
      refine ⟨k,hk.congr ?_ ?_,?_⟩
      · simp [processPacket,hx,hc]
      · simp [processPacket,hn,hx,hc]
      · rcases hk' with hk' | ⟨hk',h1 | rfl⟩
        · exact .inl hk'
        · exact .inr ⟨hk',.inl h1⟩
        · exact .inr ⟨hk',.inr (hx.trans (CpCmd.ofByte_getAllEnv hc))⟩

variable (sv) in
/-- For a request that is not there whole, `chklen` becomes what it needs at least. -/
theorem processPacket_waits (c : Conn σ) (h1 : 1≤ c.rbuf.length)
    (h : c.rbuf.length<packetLength c.rbuf) :
    c.processPacket sv=c.waitFor (packetLength c.rbuf) := by
  cases hb : c.rbuf with
  | nil => simp [hb] at h1
  | cons x b =>
    have hx := byteAt_zero hb
    rw [← hb]
    cases hc : CpCmd.ofByte x with
    | none =>
      simp [hb,packetLength_cons,hc] at h
    | some cmd =>
      have hl : packetLength c.rbuf=cmd.pktSize c.rbuf := by simp [hb,packetLength_cons,hc]
      rw [hl] at h ⊢
      rw [processPacket,hx,hc]
      exact handler_waits cmd c h1 h

end Conn

end Dinit
