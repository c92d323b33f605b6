import Dinit.Log.Stream

namespace Dinit

open Framework

/-- What is put out: messages, and notes about messages that were discarded -/
inductive LogItem
  | note
  | message (m : List UInt8)

def LogItem.bytes : LogItem → List UInt8
  | .note => discardedNote
  | .message m => m

def LogItem.message? : LogItem → Option (List UInt8)
  | .note => none
  | .message m => some m

def messages (items : List LogItem) : List (List UInt8) := items.filterMap LogItem.message?

def output (items : List LogItem) : List UInt8 := (items.map LogItem.bytes).flatten

/-- What happens to a log stream -/
inductive StreamEvent
  | log (on : Bool) (args : List (List UInt8))
  | begin_ (on : Bool) (args : List (List UInt8))
  | part (arg : List UInt8)
  | end_ (msg : List UInt8)
  | writable (w : Write)
  | init (fd : Int)
  | release (w : Write)

/-- A log stream in a run: whether there is a message in parts and what was given of it, the messages
that were committed, and the bytes that were accepted -/
structure StreamTrace where
  stream : LogStream := {}
  inMessage : Bool := false
  given : List UInt8 := []
  committed : List (List UInt8) := []
  accepted : List UInt8 := []

namespace StreamTrace

def step (t : StreamTrace) : StreamEvent → StreamTrace
  | .log on args =>
    {t with
      stream := t.stream.log on args
      committed := t.committed++
        if on=true ∧ (args++[[10]]).flatten.length≤ t.stream.getFree then [(args++[[10]]).flatten]
        else []}
  | .begin_ on args =>
    {t with stream := t.stream.logMsgBegin on args,inMessage := true,given := args.flatten}
  | .part arg => {t with stream := t.stream.doLogPart arg,given := t.given++arg}
  | .end_ msg =>
    let s := t.stream.logMsgEnd msg
    {t with
      stream := s
      inMessage := false
      given := []
      committed := t.committed++if s.logCurrentLine=true then [t.given++msg++[10]] else []}
  | .writable w =>
    let out := t.stream.fdEvent w
    {t with stream := out.2.2,accepted := t.accepted++out.2.1}
  | .init fd => {t with stream := t.stream.init fd}
  | .release w =>
    let out := t.stream.flushForRelease w
    {t with stream := out.2.2,accepted := t.accepted++out.2.1}

/-- No message comes between the parts of another, and parts belong to a message. -/
def Orderly (t : StreamTrace) : StreamEvent → Prop
  | .log _ _ | .begin_ _ _ => t.inMessage=false
  | .part _ | .end_ _ => t.inMessage=true
  | _ => True

/-- What is stored of a message that is not committed -/
def unfinished (t : StreamTrace) : List UInt8 :=
  if t.inMessage=true ∧ t.stream.logCurrentLine=true then t.given else []

end StreamTrace

/-- What is not yet written of a special message -/
def LogStream.noteRest (s : LogStream) : List UInt8 :=
  if s.special=true then s.specialBuf.drop s.msgIndex else []

/-- What was accepted and what is still to be written are the committed messages in order, and whole
notes between them; and `current_index` is the number of their bytes in the buffer. -/
def StreamTrace.Intact (t : StreamTrace) : Prop :=
  ∃ items pending,messages items=t.committed ∧
    output items=t.accepted++t.stream.noteRest++pending ∧
    t.stream.logBuffer.contents=pending++t.unfinished ∧ t.stream.currentIndex=pending.length

/-- A write for the stream goes well: a note begins before a whole message, and what is written from
the buffer is accepted whole or not at all. -/
structure WritesWhole (s : LogStream) (committed : List (List UInt8)) (w : Write) : Prop where
  note : s.partway=false → s.special=false → s.discarded=true →
    ∃ k,(committed.drop k).flatten=s.logBuffer.contents.take s.currentIndex.toNat
  line : ¬(s.startNote.partway=false ∧ s.startNote.special=true) → s.currentIndex≠0 →
    ∀ n,w=.bytes n → (nextLine s.logBuffer).1.length≤ n

def StreamTrace.Fits (t : StreamTrace) : StreamEvent → Prop
  | .writable w => WritesWhole t.stream t.committed w
  | .release w => t.stream.release=false → WritesWhole {t.stream with release := true} t.committed w
  | _ => True

/-- The states that a stream gets to, where each step meets a condition. -/
inductive StreamRun (ok : StreamTrace → StreamEvent → Prop) : StreamTrace → Prop
  | start : StreamRun ok {}
  | step {t e} (h : StreamRun ok t) (ho : t.Orderly e) (hk : ok t e) : StreamRun ok (t.step e)

/-- A stream with `u` behind what is committed: `done` is written, and `n` bytes of the messages in
`queue`, where `n` is within the first. -/
structure LogStream.Sound (s : LogStream) (committed : List (List UInt8)) (accepted u : List UInt8)
    (done : List LogItem) (queue : List (List UInt8)) (n : Nat) : Prop where
  ring : s.logBuffer.Ok
  committed : committed=messages done++queue
  accepted : accepted++s.noteRest=output done++queue.flatten.take n
  contents : s.logBuffer.contents=queue.flatten.drop n++u
  index : s.currentIndex=(queue.flatten.drop n).length
  inside : n=0 ∨ ∃ m q,queue=m::q ∧ n< m.length
  lines : ∀ m ∈ queue,∃ l,m=l++[10]
  partway : s.partway=false
  note : s.special=true → s.specialBuf=discardedNote ∧ s.msgIndex< discardedNote.length

theorem messages_append (a b : List LogItem) : messages (a++b)=messages a++messages b :=
  List.filterMap_append

theorem output_append (a b : List LogItem) : output (a++b)=output a++output b := by
  simp [output]

theorem messages_map (queue : List (List UInt8)) : messages (queue.map .message)=queue := by
  induction queue with
  | nil => rfl
  | cons m queue ih => simpa [messages,LogItem.message?] using ih

theorem output_map (queue : List (List UInt8)) : output (queue.map .message)=queue.flatten := by
  induction queue with
  | nil => rfl
  | cons m queue ih => simpa [output,LogItem.bytes] using ih

theorem LogStream.Sound.intact {t : StreamTrace} {done : List LogItem} {queue : List (List UInt8)}
    {n : Nat} (h : t.stream.Sound t.committed t.accepted t.unfinished done queue n) : t.Intact := by
  refine ⟨done++queue.map .message,queue.flatten.drop n,?_,?_,h.contents,h.index⟩
  · rw [messages_append,messages_map,h.committed]
  · rw [output_append,output_map,h.accepted,List.append_assoc,List.take_append_drop]

theorem findIdx_lt {l : List UInt8} (h : 10 ∈ l) : l.findIdx (·==10)< l.length :=
  List.findIdx_lt_length_of_exists ⟨10,h,rfl⟩

theorem findIdx_appended (l u : List UInt8) :
    (l++u).findIdx (·==10)=
      if l.findIdx (·==10)< l.length then l.findIdx (·==10) else u.findIdx (·==10)+l.length :=
  List.findIdx_append

/-- The spans that are written are the first line. -/
theorem nextLine_eq {r : Ring UInt8 4096} (h : r.Ok) (hmem : 10 ∈ r.contents) :
    nextLine r=(r.contents.take (r.contents.findIdx (·==10)+1),true) := by
  have hpos : 0< r.len := by
    have hne := List.length_pos_of_mem hmem
    rwa [Ring.contents_length] at hne
  have hle := Ring.contiguous_le h hpos
  have hfirst : ∀ l≤ r.contiguousLength (r.ptr 0),r.slice (r.ptr 0) l=r.contents.take l := by
    intro l hl
    rw [Ring.slice_contiguous h (i := 0) (by omega) hl,List.drop_zero]
  have hsecond : ∀ l≤ r.len-r.contiguousLength (r.ptr 0),
      r.slice 0 l=(r.contents.drop (r.contiguousLength (r.ptr 0))).take l := by
    intro l hl
    have hw := Ring.slice_wrapped h (l := l) hpos (by omega)
    rwa [Nat.zero_add] at hw
  have hlt := findIdx_lt hmem
  rw [Ring.contents_length] at hlt
  have hsplit := List.take_append_drop (r.contiguousLength (r.ptr 0)) r.contents
  have hidx := findIdx_appended (r.contents.take (r.contiguousLength (r.ptr 0)))
    (r.contents.drop (r.contiguousLength (r.ptr 0)))
  rw [hsplit,List.length_take,Ring.contents_length,Nat.min_eq_left (by omega)] at hidx
  unfold nextLine
  dsimp only
  rw [hfirst _ (le_refl _)]
  generalize hc : r.contiguousLength (r.ptr 0)=c at *
  generalize hi : (r.contents.take c).findIdx (·==10)=i at *
  have hic : i≤ c := by
    rw [← hi]
    refine List.findIdx_le_length.trans ?_
    exact List.length_take_le _ _
  by_cases hin : i=c
  · rw [if_neg (by simpa using hin)]
    rw [if_neg (by omega)] at hidx
    have hcl : c≠r.len := by
      rintro rfl
      rw [List.drop_of_length_le (by rw [Ring.contents_length])] at hidx
      simp at hidx
      omega
    rw [if_pos hcl,hsecond _ (le_refl _),List.take_of_length_le (by
      rw [List.length_drop,Ring.contents_length])]
    generalize (r.contents.drop c).findIdx (·==10)=e at hidx ⊢
    rw [if_pos (by omega),hsecond _ (by omega),← List.take_add,hidx,Nat.add_comm e c,Nat.add_assoc]
  · rw [if_pos hin,hfirst _ (by omega)]
    rw [if_pos (by omega)] at hidx
    rw [hidx]

/-- Among what is left of messages that are lines, the first line is the rest of the first message or
a part of it. -/
theorem first_message {queue : List (List UInt8)} {n : Nat} (hne : queue.flatten.drop n≠[])
    (hin : n=0 ∨ ∃ m q,queue=m::q ∧ n< m.length) (hl : ∀ m ∈ queue,∃ l,m=l++[10]) :
    ∃ m q,queue=m::q ∧ n< m.length ∧ 10 ∈ queue.flatten.drop n ∧
      n+((queue.flatten.drop n).findIdx (·==10)+1)≤ m.length := by
  obtain ⟨m,q,rfl,hn⟩ : ∃ m q,queue=m::q ∧ n< m.length := by
    rcases hin with rfl | h
    · cases queue with
      | nil => exact absurd rfl hne
      | cons m q =>
        obtain ⟨l,rfl⟩ := hl m List.mem_cons_self
        exact ⟨_,q,rfl,by simp⟩
    · exact h
  obtain ⟨l,rfl⟩ := hl m List.mem_cons_self
  rw [List.length_append,List.length_singleton] at hn
  have hdrop : ((l++[10])::q).flatten.drop n=(l++[10]).drop n++q.flatten := by
    rw [List.flatten_cons,List.drop_append_of_le_length (by simp; omega)]
  have hmem : 10 ∈ (l++[(10 : UInt8)]).drop n := by
    rw [List.drop_append_of_le_length (by omega)]
    simp
  have hlt := findIdx_lt hmem
  have hidx := findIdx_appended ((l++[10]).drop n) q.flatten
  rw [if_pos hlt] at hidx
  refine ⟨_,q,rfl,by simpa using hn,?_,?_⟩
  · rw [hdrop]
    exact List.mem_append_left _ hmem
  · rw [hdrop,hidx]
    rw [List.length_drop] at hlt
    omega

namespace LogStream

variable {s : LogStream} {committed : List (List UInt8)} {accepted u : List UInt8}
  {done : List LogItem} {queue : List (List UInt8)} {n : Nat}

/-- A line from the buffer is accepted whole. -/
theorem Sound.line_written (h : s.Sound committed accepted u done queue n) (hs : s.special=false)
    (hi : s.currentIndex≠0) :
    (nextLine s.logBuffer).2=true ∧ ∃ done' queue' n',
      Sound {s with
        logBuffer := s.logBuffer.consume (nextLine s.logBuffer).1.length
        currentIndex := s.currentIndex-(nextLine s.logBuffer).1.length}
        committed (accepted++(nextLine s.logBuffer).1) u done' queue' n' := by
  have hpending : queue.flatten.drop n≠[] := by
    intro hnil
    rw [h.index,hnil] at hi
    exact hi rfl
  obtain ⟨m,q,rfl,hn,hmem,hle⟩ := first_message hpending h.inside h.lines
  have hcontents := h.contents
  have hidx := findIdx_appended ((m::q).flatten.drop n) u
  have hlt := findIdx_lt hmem
  rw [if_pos hlt,← hcontents] at hidx
  have hline := nextLine_eq h.ring (by rw [hcontents]; exact List.mem_append_left _ hmem)
  have hk : ((m::q).flatten.drop n).findIdx (·==10)+1≤ ((m::q).flatten.drop n).length := hlt
  rw [hidx,hcontents,List.take_append_of_le_length hk] at hline
  generalize ((m::q).flatten.drop n).findIdx (·==10)+1=k at hle hk hline
  rw [hline]
  have hlen : (((m::q).flatten.drop n).take k).length=k := by rw [List.length_take,Nat.min_eq_left hk]
  have hbuf : k≤ s.logBuffer.len := by
    have hc := congrArg List.length hcontents
    rw [Ring.contents_length,List.length_append] at hc
    omega
  have hring := (Ring.ok_consume h.ring hbuf (by decide)).1
  have hrest : (s.logBuffer.consume k).contents=(m::q).flatten.drop (n+k)++u := by
    rw [Ring.contents_consume h.ring hbuf (by decide),hcontents,List.drop_append_of_le_length hk,
      List.drop_drop]
  have hindex : s.currentIndex-k=((m::q).flatten.drop (n+k)).length := by
    rw [h.index,← List.drop_drop,List.length_drop (l := (m::q).flatten.drop n)]
    omega
  have hsent : accepted++((m::q).flatten.drop n).take k=output done++(m::q).flatten.take (n+k) := by
    have ha := h.accepted
    unfold noteRest at ha
    rw [if_neg (by simp [hs]),List.append_nil] at ha
    rw [List.take_add,← List.append_assoc,ha]
  have hnote : ∀ b i,noteRest {s with logBuffer := b,currentIndex := i}=[] := fun _ _ =>
    if_neg (by simp [hs])
  refine ⟨rfl,?_⟩
  rw [hlen]
  by_cases hend : n+k=m.length
  · have hdrop : (m::q).flatten.drop (n+k)=q.flatten := by
      rw [hend,List.flatten_cons,List.drop_left]
    rw [hdrop] at hrest hindex
    refine ⟨done++[.message m],q,0,⟨hring,?_,?_,hrest,hindex,.inl rfl,?_,h.partway,h.note⟩⟩
    · rw [h.committed,messages_append,List.append_assoc]
      rfl
    · rw [hnote,List.append_nil,hsent,hend,List.flatten_cons,List.take_left,output_append]
      simp [output,LogItem.bytes]
    · exact fun m' hm => h.lines m' (List.mem_cons_of_mem m hm)
  · refine ⟨done,m::q,n+k,⟨hring,h.committed,?_,hrest,hindex,.inr ⟨m,q,rfl,by omega⟩,h.lines,
      h.partway,h.note⟩⟩
    rw [hnote,List.append_nil,hsent]

theorem Sound.watchRemoved (h : s.Sound committed accepted u done queue n) :
    s.watchRemoved.Sound committed accepted u done queue n :=
  ⟨h.ring,h.committed,h.accepted,h.contents,h.index,h.inside,h.lines,h.partway,h.note⟩

/-- A write from the buffer that is accepted whole, or not at all. -/
theorem Sound.writeBuffer (h : s.Sound committed accepted u done queue n) (hs : s.special=false)
    (w : Write) (hw : s.currentIndex≠0 → ∀ n,w=.bytes n → (nextLine s.logBuffer).1.length≤ n) :
    ∃ done' queue' n',(s.writeBuffer w).2.2.Sound committed (accepted++(s.writeBuffer w).2.1) u
      done' queue' n' := by
  unfold LogStream.writeBuffer
  by_cases hi : s.currentIndex=0
  · rw [if_pos hi]
    exact ⟨done,queue,n,by simpa using h⟩
  · rw [if_neg hi]
    cases w with
    | again => exact ⟨done,queue,n,by simpa using h⟩
    | failed => exact ⟨done,queue,n,by simpa using h.watchRemoved⟩
    | bytes b =>
      obtain ⟨hcomplete,done',queue',n',h'⟩ := h.line_written hs hi
      have hmin : min b (nextLine s.logBuffer).1.length=(nextLine s.logBuffer).1.length :=
        Nat.min_eq_right (hw hi b rfl)
      refine ⟨done',queue',n',?_⟩
      simp only [hmin,hcomplete,decide_true,Bool.and_self,if_true,List.take_length]
      simpa only [h.partway,Bool.not_true] using h'

theorem discardedNote_line : ∀ i< discardedNote.length,
    (discardedNote.drop i).findIdx (·==10)+1=(discardedNote.drop i).length := by decide

/-- A special message may be accepted in pieces. -/
theorem Sound.writeSpecial (h : s.Sound committed accepted u done queue n) (hs : s.special=true)
    (w : Write) : (s.writeSpecial w).2.2.Sound committed (accepted++(s.writeSpecial w).2.1) u
      done queue n := by
  obtain ⟨hbuf,hi⟩ := h.note hs
  have hline := discardedNote_line s.msgIndex hi
  have ha := h.accepted
  unfold noteRest at ha
  rw [if_pos hs,hbuf] at ha
  unfold LogStream.writeSpecial
  rw [hbuf]
  cases w with
  | again => simpa using h
  | failed => simpa using h.watchRemoved
  | bytes b =>
    dsimp only
    generalize hr : min b ((discardedNote.drop s.msgIndex).findIdx (·==10)+1)=r
    split
    · next hend =>
      have hall : (discardedNote.drop s.msgIndex).take r=discardedNote.drop s.msgIndex :=
        List.take_of_length_le (by omega)
      refine ⟨h.ring,h.committed,?_,h.contents,h.index,h.inside,h.lines,h.partway,fun h => nomatch h⟩
      rw [hall]
      simpa [noteRest] using ha
    · next hend =>
      have hlen := List.length_drop (l := discardedNote) (i := s.msgIndex)
      refine ⟨h.ring,h.committed,?_,h.contents,h.index,h.inside,h.lines,h.partway,
        fun _ => ⟨rfl,by dsimp only; omega⟩⟩
      rw [← ha,List.append_assoc]
      unfold noteRest
      rw [if_pos hs]
      dsimp only
      rw [← List.drop_drop,List.take_append_drop]

/-- Whole messages are left in the buffer only between two messages. -/
theorem Sound.between (h : s.Sound committed accepted u done queue n) {k : Nat}
    (hk : (committed.drop k).flatten=s.logBuffer.contents.take s.currentIndex.toNat) : n=0 := by
  have hpending : s.logBuffer.contents.take s.currentIndex.toNat=queue.flatten.drop n := by
    rw [h.contents,h.index,Int.toNat_natCast,List.take_left]
  rw [hpending,h.committed] at hk
  rcases h.inside with h0 | ⟨m,q,rfl,hn⟩
  · exact h0
  have hlen := congrArg List.length hk
  rw [List.length_drop,List.flatten_cons,List.length_append] at hlen
  rcases Nat.lt_or_ge (messages done).length k with hlt | hle
  · obtain ⟨j,rfl⟩ := Nat.exists_eq_add_of_lt hlt
    have hdrop : (messages done++m::q).drop ((messages done).length+j+1)=q.drop j := by
      rw [Nat.add_assoc,List.drop_length_add_append]
      rfl
    rw [hdrop] at hlen
    have hsub : (q.drop j).flatten.length≤ q.flatten.length := by
      conv => rhs; rw [← List.take_append_drop j q,List.flatten_append,List.length_append]
      omega
    omega
  · rw [List.drop_append_of_le_length hle,List.flatten_append,List.length_append,List.flatten_cons,
      List.length_append] at hlen
    omega

/-- A note begins between two messages. -/
theorem Sound.startNote (h : s.Sound committed accepted u done queue n)
    (hb : s.partway=false → s.special=false → s.discarded=true →
      ∃ k,(committed.drop k).flatten=s.logBuffer.contents.take s.currentIndex.toNat) :
    ∃ done',s.startNote.Sound committed accepted u done' queue n := by
  unfold LogStream.startNote
  split
  · next hdue =>
    obtain ⟨hp,hs,hd⟩ := hdue
    obtain ⟨k,hk⟩ := hb hp hs hd
    obtain rfl := h.between hk
    have ha := h.accepted
    unfold noteRest at ha
    rw [if_neg (by simp [hs]),List.append_nil,List.take_zero,List.append_nil] at ha
    refine ⟨done++[.note],h.ring,?_,?_,h.contents,h.index,h.inside,h.lines,h.partway,
      fun _ => ⟨rfl,Nat.succ_pos _⟩⟩
    · rw [h.committed,messages_append]
      simp [messages,LogItem.message?]
    · rw [output_append,← ha]
      simp [noteRest,output,LogItem.bytes]
  · exact ⟨done,h⟩

/-- The step for a writability event. -/
theorem Sound.fdEvent (h : s.Sound committed accepted u done queue n) {w : Write}
    (hw : WritesWhole s committed w) :
    ∃ done' queue' n',(s.fdEvent w).2.2.Sound committed (accepted++(s.fdEvent w).2.1) u
      done' queue' n' := by
  obtain ⟨done',h'⟩ := h.startNote hw.note
  have hi : s.startNote.currentIndex=s.currentIndex ∧ s.startNote.logBuffer=s.logBuffer := by
    unfold LogStream.startNote
    split <;> exact ⟨rfl,rfl⟩
  unfold LogStream.fdEvent
  dsimp only
  split
  · next hspecial => exact ⟨done',queue,n,h'.writeSpecial hspecial.2 w⟩
  · next hspecial =>
    have hs : s.startNote.special=false := by simpa [h'.partway] using hspecial
    refine h'.writeBuffer hs w ?_
    rw [hi.1,hi.2]
    exact hw.line hspecial

/-- Text that there is room for is added behind what is stored of the message. -/
theorem Sound.append (h : s.Sound committed accepted u done queue n) {arg : List UInt8}
    (ha : arg.length≤ s.getFree) : (s.append arg).Sound committed accepted (u++arg) done queue n := by
  have hlen := h.ring.len
  unfold getFree at ha
  have hroom : s.logBuffer.len+arg.length≤ 4096 := by omega
  obtain ⟨hring,hcontents⟩ := Ring.contents_append h.ring hroom
  refine ⟨hring,h.committed,h.accepted,?_,h.index,h.inside,h.lines,h.partway,h.note⟩
  rw [← List.append_assoc,← h.contents]
  exact hcontents

/-- What is not committed is taken back. -/
theorem Sound.rollback (h : s.Sound committed accepted u done queue n) :
    s.rollbackMsg.Sound committed accepted [] done queue n := by
  have hc := congrArg List.length h.contents
  rw [Ring.contents_length,List.length_append] at hc
  have hring := h.ring.len
  have hindex : (s.currentIndex%2^32).toNat=(queue.flatten.drop n).length := by
    rw [h.index]
    omega
  obtain ⟨hok,hcontents⟩ := Ring.contents_trimTo h.ring (n := (queue.flatten.drop n).length) (by omega)
  unfold rollbackMsg
  rw [hindex]
  refine ⟨hok,h.committed,h.accepted,?_,h.index,h.inside,h.lines,h.partway,h.note⟩
  rw [hcontents,h.contents,List.take_left,List.append_nil]

/-- A change of what is not part of the record of messages -/
theorem Sound.of_eq {s' : LogStream} (h : s.Sound committed accepted u done queue n)
    (hbuf : s'.logBuffer=s.logBuffer) (hnote : s'.noteRest=s.noteRest)
    (hindex : s'.currentIndex=s.currentIndex) (hp : s'.partway=s.partway)
    (hs : s'.special=s.special ∧ s'.specialBuf=s.specialBuf ∧ s'.msgIndex=s.msgIndex) :
    s'.Sound committed accepted u done queue n where
  ring := hbuf ▸ h.ring
  committed := h.committed
  accepted := hnote ▸ h.accepted
  contents := hbuf ▸ h.contents
  index := hindex.trans h.index
  inside := h.inside
  lines := h.lines
  partway := hp.trans h.partway
  note := by
    rw [hs.1,hs.2.1,hs.2.2]
    exact h.note

/-- What is stored becomes a message, a line. -/
theorem Sound.commit (h : s.Sound committed accepted u done queue n) (hu : ∃ l,u=l++[10]) :
    s.commitMsg.Sound (committed++[u]) accepted [] done (queue++[u]) n := by
  have hle : n≤ queue.flatten.length := by
    rcases h.inside with rfl | ⟨m,q,rfl,hn⟩
    · exact Nat.zero_le _
    · rw [List.flatten_cons,List.length_append]
      omega
  have hflat : (queue++[u]).flatten=queue.flatten++u := by simp
  refine ⟨h.ring,?_,?_,?_,?_,?_,?_,h.partway,h.note⟩
  · rw [h.committed,List.append_assoc]
  · rw [hflat,List.take_append_of_le_length hle]
    exact h.accepted
  · rw [hflat,List.drop_append_of_le_length hle,List.append_nil]
    exact h.contents
  · rw [hflat,List.drop_append_of_le_length hle,← h.contents,Ring.contents_length]
    rfl
  · rcases h.inside with rfl | ⟨m,q,rfl,hn⟩
    · exact .inl rfl
    · exact .inr ⟨m,q++[u],rfl,hn⟩
  · intro m hm
    rcases List.mem_append.mp hm with hm | hm
    · exact h.lines m hm
    · rw [List.mem_singleton.mp hm]
      exact hu

/-- `do_log_part`: the text is added, or the message is discarded. -/
theorem Sound.doLogPart (h : s.Sound committed accepted u done queue n)
    (hu : s.logCurrentLine=false → u=[]) (arg : List UInt8) :
    (s.doLogPart arg).Sound committed accepted
      (if (s.doLogPart arg).logCurrentLine=true then u++arg else []) done queue n := by
  unfold LogStream.doLogPart
  split
  · next hon =>
    split
    · next hfree =>
      have hline : (s.append arg).logCurrentLine=true := hon
      rw [if_pos hline]
      exact h.append hfree
    · exact h.rollback.of_eq rfl rfl rfl rfl ⟨rfl,rfl,rfl⟩
  · next hoff =>
    have hnil := hu (by simpa using hoff)
    exact hnil ▸ h

theorem doLogPart_off {s : LogStream} {arg : List UInt8} (h : (s.doLogPart arg).logCurrentLine=true) :
    s.logCurrentLine=true := by
  unfold LogStream.doLogPart at h
  split at h
  · assumption
  · exact h

theorem doLogParts_off {s : LogStream} {args : List (List UInt8)}
    (h : (args.foldl LogStream.doLogPart s).logCurrentLine=true) : s.logCurrentLine=true := by
  induction args generalizing s with
  | nil => exact h
  | cons arg args ih => exact doLogPart_off (ih h)

theorem Sound.doLogParts (h : s.Sound committed accepted u done queue n)
    (hu : s.logCurrentLine=false → u=[]) (args : List (List UInt8)) :
    (args.foldl LogStream.doLogPart s).Sound committed accepted
      (if (args.foldl LogStream.doLogPart s).logCurrentLine=true then u++args.flatten else [])
      done queue n := by
  induction args generalizing s u with
  | nil =>
    rw [List.foldl_nil,List.flatten_nil,List.append_nil]
    split
    · exact h
    · next hoff => exact hu (by simpa using hoff) ▸ h
  | cons arg args ih =>
    have h1 := ih (h.doLogPart hu arg) (fun hoff => if_neg (by simp [hoff]))
    rw [List.foldl_cons,List.flatten_cons,← List.append_assoc]
    split at h1
    · next hon =>
      rw [if_pos hon]
      rwa [if_pos (doLogParts_off hon)] at h1
    · next hoff =>
      rw [if_neg hoff]
      exact h1

theorem Sound.appendAll (h : s.Sound committed accepted u done queue n) {args : List (List UInt8)}
    (ha : args.flatten.length≤ s.getFree) :
    (args.foldl LogStream.append s).Sound committed accepted (u++args.flatten) done queue n := by
  induction args generalizing s u with
  | nil => simpa using h
  | cons arg args ih =>
    rw [List.flatten_cons,List.length_append] at ha
    have hroom : arg.length≤ s.getFree := by omega
    have h1 := h.append hroom
    have hc := congrArg List.length h.contents
    have hc1 := congrArg List.length h1.contents
    rw [Ring.contents_length,List.length_append] at hc hc1
    rw [List.length_append] at hc1
    have h2 := ih h1 (by unfold getFree at ha ⊢; omega)
    rwa [List.append_assoc,← List.flatten_cons] at h2

/-- A whole message is committed, or discarded whole. -/
theorem Sound.log (h : s.Sound committed accepted [] done queue n) (on : Bool)
    (args : List (List UInt8)) :
    ∃ queue',(s.log on args).Sound (committed++
      if on=true ∧ (args++[[10]]).flatten.length≤ s.getFree then [(args++[[10]]).flatten] else [])
      accepted [] done queue' n := by
  have hset : Sound {s with logCurrentLine := on} committed accepted [] done queue n :=
    h.of_eq rfl rfl rfl rfl ⟨rfl,rfl,rfl⟩
  unfold LogStream.log
  cases on with
  | false => exact ⟨queue,by simpa [LogStream.pushToLog] using hset⟩
  | true =>
    generalize hs : ({s with logCurrentLine := true} : LogStream)=s1 at hset ⊢
    have hon : ¬s1.logCurrentLine=false := by simp [← hs]
    have hgetFree : s1.getFree=s.getFree := by rw [← hs]; rfl
    unfold LogStream.pushToLog
    rw [if_neg hon,hgetFree]
    by_cases hfree : (args++[[10]]).flatten.length≤ s.getFree
    · have hall : (args++[[10]]).flatten.length≤ s1.getFree := hgetFree ▸ hfree
      have happ := hset.appendAll hall
      rw [List.nil_append] at happ
      refine ⟨queue++[(args++[[10]]).flatten],?_⟩
      rw [if_pos hfree,if_pos ⟨rfl,hfree⟩]
      exact happ.commit ⟨args.flatten,by simp⟩
    · refine ⟨queue,?_⟩
      rw [if_neg hfree,if_neg (fun h => hfree h.2),List.append_nil]
      exact hset.of_eq rfl rfl rfl rfl ⟨rfl,rfl,rfl⟩

/-- The last part completes the message as a line, if it was not discarded. -/
theorem Sound.logMsgEnd (h : s.Sound committed accepted u done queue n)
    (hu : s.logCurrentLine=false → u=[]) (msg : List UInt8) :
    ∃ queue',(s.logMsgEnd msg).Sound (committed++
      if (s.logMsgEnd msg).logCurrentLine=true then [u++msg++[10]] else []) accepted []
      done queue' n := by
  have h1 := h.doLogParts hu [msg,[10]]
  have hflag : (s.logMsgEnd msg).logCurrentLine=((s.doLogPart msg).doLogPart [10]).logCurrentLine := by
    unfold LogStream.logMsgEnd LogStream.doLogCommit
    split <;> rfl
  rw [hflag]
  unfold LogStream.logMsgEnd LogStream.doLogCommit
  simp only [List.foldl_cons,List.foldl_nil,List.flatten_cons,List.flatten_nil,List.append_nil,
    ← List.append_assoc] at h1
  by_cases hon : ((s.doLogPart msg).doLogPart [10]).logCurrentLine=true
  · rw [if_pos hon] at h1
    refine ⟨queue++[u++msg++[10]],?_⟩
    rw [if_pos hon,if_pos hon]
    exact h1.commit ⟨u++msg,rfl⟩
  · rw [if_neg hon] at h1
    refine ⟨queue,?_⟩
    rw [if_neg hon,if_neg hon,List.append_nil]
    exact h1

theorem logMsgEnd_off {s : LogStream} {msg : List UInt8}
    (h : (s.logMsgEnd msg).logCurrentLine=true) : s.logCurrentLine=true := by
  have hparts : ([msg,[10]].foldl LogStream.doLogPart s).logCurrentLine=true := by
    unfold LogStream.logMsgEnd LogStream.doLogCommit at h
    split at h <;> exact h
  exact doLogParts_off hparts

theorem writeSpecial_line (s : LogStream) (w : Write) :
    (s.writeSpecial w).2.2.logCurrentLine=s.logCurrentLine := by
  unfold LogStream.writeSpecial
  cases w with
  | again => rfl
  | failed => rfl
  | bytes n =>
    dsimp only
    split <;> rfl

theorem writeBuffer_line (s : LogStream) (w : Write) :
    (s.writeBuffer w).2.2.logCurrentLine=s.logCurrentLine := by
  unfold LogStream.writeBuffer
  split
  · rfl
  · cases w with
    | again => rfl
    | failed => rfl
    | bytes n =>
      dsimp only
      split <;> rfl

theorem fdEvent_line (s : LogStream) (w : Write) :
    (s.fdEvent w).2.2.logCurrentLine=s.logCurrentLine := by
  have hstart : s.startNote.logCurrentLine=s.logCurrentLine := by
    unfold LogStream.startNote
    split <;> rfl
  unfold LogStream.fdEvent
  dsimp only
  split
  · rw [writeSpecial_line,hstart]
  · rw [writeBuffer_line,hstart]

end LogStream

namespace StreamTrace

/-- A state of a run in which all writes go well -/
def Good (t : StreamTrace) : Prop :=
  ∃ done queue n,t.stream.Sound t.committed t.accepted t.unfinished done queue n

theorem good_step {t : StreamTrace} {e : StreamEvent} (h : t.Good) (ho : t.Orderly e)
    (hk : t.Fits e) : (t.step e).Good := by
  obtain ⟨done,queue,n,h⟩ := h
  have hflag : t.stream.logCurrentLine=false → t.unfinished=[] := fun hoff =>
    if_neg (by simp [hoff])
  cases e with
  | log on args =>
    have hnil : t.unfinished=[] := if_neg (by simp [show t.inMessage=false from ho])
    rw [hnil] at h
    obtain ⟨queue',h'⟩ := h.log on args
    refine ⟨done,queue',n,?_⟩
    have hnil' : (t.step (.log on args)).unfinished=[] := if_neg (by simp [step,show t.inMessage=false from ho])
    rw [hnil']
    exact h'
  | begin_ on args =>
    have hnil : t.unfinished=[] := if_neg (by simp [show t.inMessage=false from ho])
    rw [hnil] at h
    have hset : LogStream.Sound {t.stream with logCurrentLine := on} t.committed t.accepted [] done
        queue n := h.of_eq rfl rfl rfl rfl ⟨rfl,rfl,rfl⟩
    have h' := hset.doLogParts (fun _ => rfl) args
    refine ⟨done,queue,n,?_⟩
    simpa [unfinished,step,LogStream.logMsgBegin] using h'
  | part arg =>
    have h' := h.doLogPart hflag arg
    refine ⟨done,queue,n,?_⟩
    have hu : (t.step (.part arg)).unfinished=
        if (t.stream.doLogPart arg).logCurrentLine=true then t.unfinished++arg else [] := by
      by_cases hon : (t.stream.doLogPart arg).logCurrentLine=true
      · simp [unfinished,step,hon,LogStream.doLogPart_off hon,show t.inMessage=true from ho]
      · simp [unfinished,step,hon]
    rw [hu]
    exact h'
  | end_ msg =>
    obtain ⟨queue',h'⟩ := h.logMsgEnd hflag msg
    refine ⟨done,queue',n,?_⟩
    have hu : (t.step (.end_ msg)).unfinished=[] := if_neg (by simp [step])
    have hc : (if (t.stream.logMsgEnd msg).logCurrentLine=true then [t.unfinished++msg++[10]] else [])=
        if (t.stream.logMsgEnd msg).logCurrentLine=true then [t.given++msg++[10]] else [] := by
      by_cases hon : (t.stream.logMsgEnd msg).logCurrentLine=true
      · simp [unfinished,hon,LogStream.logMsgEnd_off hon,show t.inMessage=true from ho]
      · simp [hon]
    rw [hu]
    rw [hc] at h'
    exact h'
  | writable w =>
    obtain ⟨done',queue',n',h'⟩ := h.fdEvent hk
    refine ⟨done',queue',n',?_⟩
    have hu : (t.step (.writable w)).unfinished=t.unfinished := by
      simp only [unfinished,step,LogStream.fdEvent_line]
    rw [hu]
    exact h'
  | init fd => exact ⟨done,queue,n,h.of_eq rfl rfl rfl rfl ⟨rfl,rfl,rfl⟩⟩
  | release w =>
    cases hr : t.stream.release with
    | true =>
      refine ⟨done,queue,n,?_⟩
      have hstep : t.step (.release w)=t := by simp [step,LogStream.flushForRelease,hr]
      rw [hstep]
      exact h
    | false =>
      have hset : LogStream.Sound {t.stream with release := true} t.committed t.accepted t.unfinished
          done queue n := h.of_eq rfl rfl rfl rfl ⟨rfl,rfl,rfl⟩
      obtain ⟨done',queue',n',h'⟩ := hset.fdEvent (hk hr)
      refine ⟨done',queue',n',?_⟩
      have hflush : t.stream.flushForRelease w=LogStream.fdEvent w {t.stream with release := true} := by
        simp [LogStream.flushForRelease,hr]
      have hu : (t.step (.release w)).unfinished=t.unfinished := by
        simp only [unfinished,step,hflush,LogStream.fdEvent_line]
      rw [hu]
      unfold step
      dsimp only
      rw [hflush]
      exact h'

/-- The log comes out intact in every run in which all writes go well. -/
theorem stream_intact {t : StreamTrace} (h : StreamRun Fits t) : t.Intact := by
  have hgood : t.Good := by
    induction h with
    | start =>
      refine ⟨[],[],0,⟨by decide,Nat.zero_le _⟩,rfl,rfl,rfl,rfl,.inl rfl,?_,rfl,fun h => nomatch h⟩
      exact fun m hm => absurd hm List.not_mem_nil
    | step _ ho hk ih => exact good_step ih ho hk
  obtain ⟨done,queue,n,hs⟩ := hgood
  exact hs.intact

/-- A line that is written by one call -/
def oneLine (n : Nat) : StreamTrace :=
  (step {} (.log true [[97]])).step (.writable (.bytes n))

theorem stream_intact_oneLine : (oneLine 2).Intact := by
  refine stream_intact (.step (.step .start rfl trivial) trivial ⟨fun _ _ h => (nomatch h),?_⟩)
  intro _ _ n hn
  cases hn
  decide

/-- Where one byte of two is accepted, the other is lost. -/
theorem half_line_lost : ¬∀ t,StreamRun (fun _ _ => True) t → t.Intact := by
  intro h
  have hrun : StreamRun (fun _ _ => True) (oneLine 1) :=
    .step (.step .start rfl trivial) trivial trivial
  obtain ⟨items,pending,-,-,hc,hi⟩ := h _ hrun
  have hlen := congrArg List.length hc
  rw [Ring.contents_length,List.length_append] at hlen
  have h0 : (oneLine 1).stream.logBuffer.len=0 := by decide
  have h2 : (oneLine 1).stream.currentIndex=2 := by decide
  omega

end StreamTrace

end Dinit
