import Dinit.Log.Buffer

namespace Dinit

/-- What happens to the output of a service; the loader admits limits up to `UINT_MAX/2`. -/
inductive LogEvent
  | output (r : PipeRead) (alloc : Bool)
  | restart (alloc : Bool)
  | query (flags : UInt8)
  | reload (maxSize : Nat) (h : maxSize≤ uintMax/2)

namespace LogBuffer

/-- The step for an event, with the bytes that are read or appended. -/
def step (b : LogBuffer) : LogEvent → Option (List UInt8 × LogBuffer)
  | .output r alloc => (b.fdEvent r alloc).map (·.2)
  | .restart alloc => (b.noteRestart alloc).map (·.2)
  | .query flags => (b.catlog flags).map fun o => ([],o.2)
  | .reload maxSize _ => some ([],b.setLogBufMax maxSize)

/-- What is to be kept: what came since the last clear, output up to the limit. -/
def keep (limit : Nat) (kept : List UInt8) (e : LogEvent) (came : List UInt8) : List UInt8 :=
  match e with
  | .output _ _ => kept++came.take (limit-kept.length)
  | .restart _ => kept++came
  | .query flags => if flags &&& 1≠0 then [] else kept
  | .reload _ _ => kept

/-- The buffer holds these bytes. -/
def Holds (b : LogBuffer) (kept : List UInt8) : Prop :=
  b.logBufSize≤ b.logBuffer.length ∧ copyOut b.logBuffer b.logBufSize=some kept

/-- In every state the buffer holds what is to be kept, no step uses memory outside it, and what is
stored does not grow beyond the limit. -/
def Bounded : LogBuffer → List UInt8 → List LogEvent → Prop
  | b,kept,[] => b.Holds kept
  | b,kept,e::es => b.Holds kept ∧ ∃ came b',b.step e=some (came,b') ∧
      b'.logBufSize≤ max b.logBufSize b.logBufMax ∧ Bounded b' (keep b.logBufMax kept e came) es

/-- There is no more output than has room, or the buffer is no larger than the limit, or nothing
more is stored. -/
def Fits (b : LogBuffer) : LogEvent → Prop
  | .output (.data d) _ => b.logBufMax≤ b.logBufSize ∨ b.logBuffer.length≤ b.logBufMax ∨
      b.logBufSize+d.length≤ b.logBufMax
  | _ => True

/-- No output comes that does not fit. -/
def AllFit : LogBuffer → List LogEvent → Prop
  | _,[] => True
  | b,e::es => b.Fits e ∧ ∀ came b',b.step e=some (came,b') → AllFit b' es

/-- The part of the buffer that is in use was written, and no size is out of range. -/
structure Filled (b : LogBuffer) (content : List UInt8) : Prop where
  limit : b.logBufMax≤ uintMax/2
  size : b.logBufSize=content.length
  length : b.logBuffer.length≤ uintMax/2
  content : ∃ rest,b.logBuffer=content.map some++rest

theorem copyOut_append (content : List UInt8) (rest : List (Option UInt8)) :
    copyOut (content.map some++rest) content.length=some content := by
  induction content with
  | nil => simp [copyOut]
  | cons c content ih => simp [copyOut,ih]

theorem Filled.le {b : LogBuffer} {content : List UInt8} (h : b.Filled content) :
    b.logBufSize≤ b.logBuffer.length := by
  obtain ⟨rest,hrest⟩ := h.content
  rw [h.size,hrest,List.length_append,List.length_map]
  omega

theorem Filled.copyOut_eq {b : LogBuffer} {content : List UInt8} (h : b.Filled content) :
    copyOut b.logBuffer b.logBufSize=some content := by
  obtain ⟨rest,hrest⟩ := h.content
  rw [h.size,hrest,copyOut_append]

theorem Filled.holds {b : LogBuffer} {content kept : List UInt8} (h : b.Filled content) :
    b.Holds kept ↔ kept=content := by
  unfold Holds
  rw [h.copyOut_eq]
  constructor
  · rintro ⟨-,hk⟩
    exact (Option.some.inj hk).symm
  · rintro rfl
    exact ⟨h.le,rfl⟩

theorem sizeSub_eq {m n : Nat} (h : n≤ m) (hm : m≤ uintMax/2) : sizeSub m n=m-n := by
  unfold sizeSub
  unfold uintMax at hm
  omega

/-- A larger buffer has the same contents. -/
theorem resize_filled {v rest : List (Option UInt8)} {content : List UInt8} {n : Nat}
    (hv : v=content.map some++rest) (hn : content.length≤ n) :
    (resize n v).length=n ∧ ∃ rest',resize n v=content.map some++rest' := by
  constructor
  · unfold resize
    rw [List.length_append,List.length_take,List.length_replicate]
    omega
  · refine ⟨rest.take (n-content.length)++List.replicate (n-v.length) none,?_⟩
    unfold resize
    rw [hv,List.take_append]
    simp [List.take_of_length_le,hn]

/-- `ensure_log_buffer_backing` keeps the contents; if it succeeds, there is as much room, and the
buffer is as it was or within the limit. -/
structure Backed (b b' : LogBuffer) (content : List UInt8) : Prop where
  filled : b'.Filled content
  limit : b'.logBufMax=b.logBufMax
  length : b'.logBuffer.length=b.logBuffer.length ∨ b'.logBuffer.length≤ b.logBufMax

theorem Filled.resize {b : LogBuffer} {content : List UInt8} {n c : Nat} (h : b.Filled content)
    (hn : content.length≤ n) (hmax : n≤ b.logBufMax) :
    Backed b {b with capacity := c,logBuffer := resize n b.logBuffer} content ∧
      (Dinit.resize n b.logBuffer).length=n := by
  obtain ⟨rest,hrest⟩ := h.content
  obtain ⟨hlen,hcontent⟩ := resize_filled hrest hn
  have hlimit := h.limit
  exact ⟨⟨⟨h.limit,h.size,by rw [hlen]; omega,hcontent⟩,rfl,.inr (by rw [hlen]; exact hmax)⟩,hlen⟩

theorem ensure_backed {b : LogBuffer} {content : List UInt8} {newSize : Nat} (alloc : Bool)
    (h : b.Filled content) (hsize : content.length≤ newSize) (hmax : newSize≤ b.logBufMax) :
    Backed b (b.ensureLogBufferBacking newSize alloc).2 content ∧
      ((b.ensureLogBufferBacking newSize alloc).1=true →
        newSize≤ (b.ensureLogBufferBacking newSize alloc).2.logBuffer.length) := by
  unfold ensureLogBufferBacking
  split
  · split
    · have hcap : newSize≤ min (max (b.capacity*2%2^32) newSize) b.logBufMax := by omega
      cases alloc with
      | false => exact ⟨⟨h,rfl,.inl rfl⟩,fun h => nomatch h⟩
      | true =>
        obtain ⟨hb,hlen⟩ := h.resize (c := max b.capacity
          (min (max (b.capacity*2%2^32) newSize) b.logBufMax)) (hsize.trans hcap) (by omega)
        exact ⟨hb,fun _ => hcap.trans (le_of_eq hlen.symm)⟩
    · obtain ⟨hb,hlen⟩ := h.resize (c := b.capacity) hsize hmax
      exact ⟨hb,fun _ => le_of_eq hlen.symm⟩
  · next hlt => exact ⟨⟨h,rfl,.inl rfl⟩,fun _ => Nat.not_lt.mp hlt⟩

theorem ensure_enough {b : LogBuffer} {newSize : Nat} (alloc : Bool)
    (h : newSize≤ b.logBuffer.length) : b.ensureLogBufferBacking newSize alloc=(true,b) :=
  if_neg (Nat.not_lt.mpr h)

/-- What is written behind the contents is added to them. -/
theorem copyTo_filled {b : LogBuffer} {content data : List UInt8} (h : b.Filled content)
    (hlen : content.length+data.length≤ b.logBuffer.length) :
    ∃ v,copyTo b.logBuffer b.logBufSize data=some v ∧
      Filled {b with logBuffer := v,logBufSize := content.length+data.length} (content++data) ∧
      v.length=b.logBuffer.length := by
  obtain ⟨rest,hrest⟩ := h.content
  have hv : copyTo b.logBuffer b.logBufSize data=
      some (content.map some++(data.map some++rest.drop data.length)) := by
    unfold copyTo
    rw [h.size,if_pos hlen,hrest]
    simp [List.drop_append]
  refine ⟨_,hv,⟨h.limit,by simp,?_,⟨rest.drop data.length,by simp⟩⟩,?_⟩
  · have hle := h.length
    rw [hrest] at hle hlen
    simp at hle hlen ⊢
    omega
  · rw [hrest] at hlen ⊢
    simp at hlen ⊢
    omega

/-- What comes of an event: the code stores it all. -/
def stored (content : List UInt8) (limit : Nat) (e : LogEvent) (came : List UInt8) : List UInt8 :=
  match e with
  | .output _ _ => if limit≤ content.length then content else content++came
  | .restart _ => content++came
  | .query flags => if flags &&& 1≠0 then [] else content
  | .reload _ _ => content

theorem Filled.endOfOutput {b : LogBuffer} {content : List UInt8} (h : b.Filled content) :
    b.endOfOutput.Filled content := ⟨h.limit,h.size,h.length,h.content⟩

/-- What comes when there is no room is not stored, and so it fits. -/
theorem fits_full {b : LogBuffer} {r : PipeRead} {alloc : Bool} (h : b.logBufMax≤ b.logBufSize) :
    b.Fits (.output r alloc) := by
  cases r with
  | data d => exact .inl h
  | again => trivial
  | failed => trivial

theorem discardOutput_filled {b : LogBuffer} {content : List UInt8} (h : b.Filled content)
    (r : PipeRead) : (b.discardOutput r).2.2.Filled content := by
  unfold discardOutput
  cases r with
  | again => exact h
  | failed => exact h.endOfOutput
  | data d =>
    by_cases hd : d.take 1024=[]
    · simp only [hd,if_true]
      exact h.endOfOutput
    · simp only [hd,if_false]
      exact h

/-- What is read is stored, and it is as much as the buffer has room for. -/
theorem readOutput_filled {b : LogBuffer} {content : List UInt8} (h : b.Filled content)
    (r : PipeRead) : ∃ after came b',b.readOutput r=some (after,came,b') ∧
      b'.Filled (content++came) ∧
      came=match r with
        | .data d => d.take (b.logBuffer.length-b.logBufSize)
        | _ => [] := by
  have hsub : sizeSub b.logBuffer.length b.logBufSize=b.logBuffer.length-b.logBufSize :=
    sizeSub_eq h.le h.length
  have hle := h.le
  have hmem : ¬b.logBuffer.length< b.logBufSize+(b.logBuffer.length-b.logBufSize) := by omega
  unfold readOutput
  rw [hsub]
  simp only [if_neg hmem]
  cases r with
  | again => exact ⟨_,_,_,rfl,by simpa using h,rfl⟩
  | failed => exact ⟨_,_,_,rfl,by simpa using h.endOfOutput,rfl⟩
  | data d =>
    by_cases hd : d.take (b.logBuffer.length-b.logBufSize)=[]
    · simp only [hd,if_true]
      exact ⟨_,_,_,rfl,by simpa using h.endOfOutput,rfl⟩
    · simp only [if_neg hd]
      generalize hdata : d.take (b.logBuffer.length-b.logBufSize)=data
      have hlen : data.length≤ b.logBuffer.length-b.logBufSize := by
        rw [← hdata]
        exact List.length_take_le _ _
      have hsize := h.size
      have hroom : content.length+data.length≤ b.logBuffer.length := by omega
      obtain ⟨v,hv,hf,-⟩ := copyTo_filled h hroom
      rw [hv]
      have hlength := h.length
      have hu : uintMax/2=2147483647 := rfl
      refine ⟨_,_,_,rfl,?_,rfl⟩
      rw [h.size,Nat.mod_eq_of_lt (by omega)]
      exact hf

theorem wantedSize_eq {b : LogBuffer} {content : List UInt8} (h : b.Filled content)
    (hroom : b.logBufSize< b.logBufMax) :
    b.logBufSize< b.wantedSize ∧ b.wantedSize≤ b.logBufMax := by
  have hlimit := h.limit
  have hu : uintMax/2=2147483647 := rfl
  unfold wantedSize
  dsimp only
  rw [Nat.mod_eq_of_lt (by omega)]
  omega

/-- What is read is stored, unless the limit is reached. It is within the limit if it fits. -/
theorem fdEvent_filled {b : LogBuffer} {content : List UInt8} (h : b.Filled content) (r : PipeRead)
    (alloc : Bool) : ∃ after came b',b.fdEvent r alloc=some (after,came,b') ∧
      b'.Filled (stored content b.logBufMax (.output r alloc) came) ∧
      (b.Fits (.output r alloc) ↔
        b.logBufMax≤ content.length ∨ content.length+came.length≤ b.logBufMax) := by
  have hsize := h.size
  unfold fdEvent
  by_cases hfull : b.logBufMax≤ b.logBufSize
  · rw [if_pos hfull]
    have hfull' := hfull
    rw [hsize] at hfull'
    refine ⟨_,_,_,rfl,?_,iff_of_true (fits_full hfull) (.inl hfull')⟩
    unfold stored
    dsimp only
    rw [if_pos hfull']
    exact discardOutput_filled h r
  · rw [if_neg hfull]
    obtain ⟨hlt,hmax⟩ := wantedSize_eq h (Nat.not_le.mp hfull)
    have hle : content.length≤ b.wantedSize := by omega
    obtain ⟨hb,hroom⟩ := ensure_backed alloc h hle hmax
    have henough : b.wantedSize≤ b.logBuffer.length →
        b.ensureLogBufferBacking b.wantedSize alloc=(true,b) := ensure_enough alloc
    generalize b.ensureLogBufferBacking b.wantedSize alloc=backing at hb hroom henough
    have hstored : ∀ came,stored content b.logBufMax (.output r alloc) came=content++came := by
      intro came
      exact if_neg (by omega)
    simp only [hstored]
    by_cases hok : backing.1=true
    · obtain ⟨after,came,b',hread,hfilled,hcame⟩ := readOutput_filled hb.filled r
      refine ⟨after,came,b',by simpa [hok] using hread,hfilled,?_⟩
      have hsize' := hb.filled.size
      have hlength := hb.length
      cases r with
      | again => exact iff_of_true trivial (.inr (by rw [hcame,List.length_nil]; omega))
      | failed => exact iff_of_true trivial (.inr (by rw [hcame,List.length_nil]; omega))
      | data d =>
        have hcount : came.length=min (backing.2.logBuffer.length-content.length) d.length := by
          rw [hcame,hsize',List.length_take]
        have hsame : b.wantedSize≤ b.logBuffer.length →
            backing.2.logBuffer.length=b.logBuffer.length := fun hw => by rw [henough hw]
        unfold Fits
        dsimp only
        omega
    · have hshort : b.logBuffer.length< b.wantedSize := by
        refine Nat.not_le.mp fun hw => hok ?_
        rw [henough hw]
      refine ⟨.disarm,[],backing.2,by simp [hok],by simpa using hb.filled,?_⟩
      have hfits : b.Fits (.output r alloc) := by
        cases r with
        | data d => exact .inr (.inl (by omega))
        | again => trivial
        | failed => trivial
      exact iff_of_true hfits (.inr (by rw [List.length_nil]; omega))

/-- The note is added whole, or not at all. -/
theorem noteRestart_filled {b : LogBuffer} {content : List UInt8} (h : b.Filled content)
    (alloc : Bool) : ∃ on came b',b.noteRestart alloc=some (on,came,b') ∧
      b'.Filled (content++came) ∧ (came=[] ∨ content.length+came.length≤ b.logBufMax) := by
  have hsize := h.size
  have hlength := h.length
  have hle := h.le
  have hu : uintMax/2=2147483647 := rfl
  unfold noteRestart
  by_cases h0 : b.logBufSize=0
  · rw [if_pos h0]
    exact ⟨_,_,_,rfl,by simpa using h,.inl rfl⟩
  · rw [if_neg h0]
    obtain ⟨rest,hrest⟩ := h.content
    have hlast : content.length-1< content.length := by omega
    have hget : b.logBuffer[b.logBufSize-1]?=some (some content[content.length-1]) := by
      rw [hrest,hsize,List.getElem?_append_left (by rw [List.length_map]; exact hlast)]
      simp [hlast]
    rw [hget]
    dsimp only
    generalize hmsg : (if content[content.length-1]=10 then restartingMsg.tail else restartingMsg)=msg
    have hshort : msg.length≤ 34 := by
      rw [← hmsg]
      split
      · exact Nat.le_succ 33
      · exact Nat.le_refl 34
    have hmod : (b.logBufSize+msg.length)%2^32=content.length+msg.length := by
      rw [hsize]
      exact Nat.mod_eq_of_lt (by omega)
    rw [hmod]
    by_cases hmax : b.logBufMax≤ content.length+msg.length
    · rw [if_pos hmax]
      exact ⟨_,_,_,rfl,by simpa using h,.inl rfl⟩
    · rw [if_neg hmax]
      have hwanted : content.length+msg.length≤ b.logBufMax := by omega
      obtain ⟨hb,hroom⟩ := ensure_backed alloc h (Nat.le_add_right _ _) hwanted
      generalize b.ensureLogBufferBacking (content.length+msg.length) alloc=backing at hb hroom
      by_cases hok : backing.1=true
      · obtain ⟨v,hv,hf,-⟩ := copyTo_filled hb.filled (hroom hok)
        simp only [hok,hv]
        exact ⟨_,_,_,rfl,hf,.inr (by omega)⟩
      · simp only [hok]
        exact ⟨_,_,_,rfl,by simpa using hb.filled,.inl rfl⟩

theorem catlog_filled {b : LogBuffer} {content : List UInt8} (h : b.Filled content) (flags : UInt8) :
    ∃ reply b',b.catlog flags=some (reply,b') ∧
      b'.Filled (if flags &&& 1≠0 then [] else content) := by
  unfold catlog
  rw [h.copyOut_eq]
  refine ⟨_,_,rfl,?_⟩
  split
  · exact ⟨h.limit,rfl,Nat.zero_le _,⟨[],rfl⟩⟩
  · exact h

theorem keep_output {content came : List UInt8} {limit : Nat} (r : PipeRead) (alloc : Bool) :
    keep limit content (.output r alloc) came=stored content limit (.output r alloc) came ↔
      limit≤ content.length ∨ content.length+came.length≤ limit := by
  unfold keep stored
  dsimp only
  by_cases hfull : limit≤ content.length
  · have h0 : limit-content.length=0 := by omega
    simp [h0,hfull]
  · rw [if_neg hfull,List.append_cancel_left_eq,List.take_eq_self_iff]
    omega

theorem stored_output {content came : List UInt8} {limit : Nat} (r : PipeRead) (alloc : Bool)
    (h : limit≤ content.length ∨ content.length+came.length≤ limit) :
    (stored content limit (.output r alloc) came).length≤ max content.length limit := by
  unfold stored
  dsimp only
  split
  · exact Nat.le_max_left _ _
  · rw [List.length_append]
    omega

/-- Each step stores what comes, and that is what is to be kept exactly if it fits. -/
theorem step_filled {b : LogBuffer} {content : List UInt8} (h : b.Filled content) (e : LogEvent) :
    ∃ came b',b.step e=some (came,b') ∧ b'.Filled (stored content b.logBufMax e came) ∧
      (b.Fits e → b'.logBufSize≤ max b.logBufSize b.logBufMax) ∧
      (b.Fits e ↔ keep b.logBufMax content e came=stored content b.logBufMax e came) := by
  have hsize := h.size
  cases e with
  | output r alloc =>
    obtain ⟨after,came,b',hr,hf,hfits⟩ := fdEvent_filled h r alloc
    refine ⟨came,b',by simp [step,hr],hf,fun hfit => ?_,hfits.trans (keep_output r alloc).symm⟩
    rw [hf.size,hsize]
    exact stored_output r alloc (hfits.mp hfit)
  | restart alloc =>
    obtain ⟨on,came,b',hr,hf,hlen⟩ := noteRestart_filled h alloc
    refine ⟨came,b',by simp [step,hr],hf,fun _ => ?_,iff_of_true trivial rfl⟩
    rw [hf.size,hsize,List.length_append]
    rcases hlen with rfl | hlen
    · exact Nat.le_max_left _ _
    · omega
  | query flags =>
    obtain ⟨reply,b',hr,hf⟩ := catlog_filled h flags
    refine ⟨[],b',by simp [step,hr],hf,fun _ => ?_,iff_of_true trivial rfl⟩
    rw [hf.size,hsize]
    split
    · exact Nat.zero_le _
    · exact Nat.le_max_left _ _
  | reload maxSize hmax =>
    refine ⟨[],b.setLogBufMax maxSize,rfl,⟨hmax,h.size,h.length,h.content⟩,
      fun _ => Nat.le_max_left _ _,iff_of_true trivial rfl⟩

theorem Bounded.now {b : LogBuffer} {kept : List UInt8} {es : List LogEvent}
    (h : b.Bounded kept es) : b.Holds kept := by
  cases es with
  | nil => exact h
  | cons e es => exact h.1

theorem bounded_iff_of_filled {b : LogBuffer} {content : List UInt8} (h : b.Filled content)
    (es : List LogEvent) : b.Bounded content es ↔ b.AllFit es := by
  induction es generalizing b content with
  | nil => exact iff_of_true (h.holds.mpr rfl) trivial
  | cons e es ih =>
    obtain ⟨came,b',hstep,hf,hgrow,hfits⟩ := step_filled h e
    have hih := ih hf
    unfold Bounded AllFit
    constructor
    · rintro ⟨-,came2,b2,hstep2,-,hrest⟩
      obtain ⟨rfl,rfl⟩ := Prod.mk.inj (Option.some.inj (hstep.symm.trans hstep2))
      have hkeep := hf.holds.mp hrest.now
      rw [hkeep] at hrest
      refine ⟨hfits.mpr hkeep,fun came2 b2 hstep2 => ?_⟩
      obtain ⟨rfl,rfl⟩ := Prod.mk.inj (Option.some.inj (hstep.symm.trans hstep2))
      exact hih.mp hrest
    · rintro ⟨hfit,hall⟩
      refine ⟨h.holds.mpr rfl,came,b',hstep,hgrow hfit,?_⟩
      rw [hfits.mp hfit]
      exact hih.mpr (hall came b' hstep)

/-- The buffer of a service is bounded in a run exactly if no output comes that does not fit. -/
theorem bounded_iff (es : List LogEvent) : Bounded {} [] es ↔ AllFit {} es :=
  bounded_iff_of_filled ⟨Nat.zero_le _,rfl,Nat.zero_le _,⟨[],rfl⟩⟩ es

/-- Output fills a buffer of three bytes after the limit was lowered to two. -/
theorem lowered_limit_exceeded : ¬Bounded {} [] [.reload 3 (by decide),
    .output (.data [97]) true,.reload 2 (by decide),.output (.data [98,99]) true] := by
  rw [bounded_iff_of_filled ⟨Nat.zero_le _,rfl,Nat.zero_le _,⟨[],rfl⟩⟩]
  rintro ⟨-,h1⟩
  obtain ⟨-,h2⟩ := h1 _ _ rfl
  obtain ⟨-,h3⟩ := h2 _ _ rfl
  obtain ⟨h4,-⟩ := h3 _ _ rfl
  have hfull : ¬(2≤ 1 ∨ 3≤ 2 ∨ 1+2≤ 2) := by decide
  exact hfull h4

end LogBuffer

end Dinit
