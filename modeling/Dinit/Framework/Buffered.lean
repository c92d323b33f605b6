import Dinit.Framework.Ring
import Mathlib.Order.Lattice
import Mathlib.Order.Defs.LinearOrder
import Mathlib.Order.MinMax

namespace Dinit.Framework

/-- What is yet to be read, and how many elements each read gives at most: the reads cut the
stream into chunks of any size. -/
structure Source (β : Type) where
  rest : List β
  chunk : Nat → Nat
  reads : Nat

/-- A circular buffer that is filled from a source, and whether more has been looked at in it or
taken from it than was there. -/
structure Buffered (β : Type) (size : Nat) where
  ring : Ring β size
  src : Source β
  overrun : Bool

namespace Buffered

variable {β : Type} {size : Nat}

/-- The elements of the buffer, and all that are to come. -/
def stream (b : Buffered β size) : List β := b.ring.contents++b.src.rest

/-- The number of elements that the next read gives: at least one, if there are any and there is
space for it. -/
def count (b : Buffered β size) : Nat :=
  min (min b.ring.room (max 1 (b.src.chunk b.src.reads))) b.src.rest.length

/-- One read. -/
def fill (b : Buffered β size) : Buffered β size :=
  ⟨b.ring.store (b.src.rest.take b.count),
    { b.src with rest := b.src.rest.drop b.count, reads := b.src.reads+1 },b.overrun⟩

/-- Read until there are `n` elements; false at the end of the stream. -/
def fillTo (n : Nat) : Nat → Buffered β size → Bool × Buffered β size
  | 0,b => (false,b)
  | fuel+1,b =>
    if n≤ b.ring.len then (true,b)
    else if b.count=0 then (false,b.fill)
    else fillTo n fuel b.fill

/-- A buffer in order, with at least `k` elements in it; it and the source have the elements
`L`. -/
structure At (L : List β) (k : Nat) (b : Buffered β size) : Prop where
  ok : b.ring.Ok
  stream : b.stream=L
  len : k≤ b.ring.len
  sound : b.overrun=false

section
variable {b : Buffered β size} {L : List β} {k : Nat}

theorem At.mono (h : b.At L k) {j : Nat} (hj : j≤ k) : b.At L j :=
  ⟨h.ok,h.stream,hj.trans h.len,h.sound⟩

/-- Looking at what is there changes nothing. -/
theorem looked (b : Buffered β size) {o : Bool} (ho : o=false) :
    { b with overrun := b.overrun || o }=b := by rw [ho,Bool.or_false]

theorem At.length (h : b.At L k) : b.ring.len+b.src.rest.length=L.length := by
  rw [← h.stream,Buffered.stream,List.length_append,Ring.contents_length]

/-- What is still to come. -/
theorem At.rest (h : b.At L k) : b.src.rest=L.drop b.ring.len := by
  rw [← h.stream,Buffered.stream,← Ring.contents_length,List.drop_left]

/-- The stream as far as it is in the buffer. -/
theorem At.drop_take (h : b.At L k) {i l : Nat} (hl : i+l≤ b.ring.len) :
    (L.drop i).take l=(b.ring.contents.drop i).take l := by
  rw [← h.stream,Buffered.stream,
    List.drop_append_of_le_length (by rw [Ring.contents_length]; omega),
    List.take_append_of_le_length (by rw [List.length_drop,Ring.contents_length]; omega)]

theorem count_le_room (b : Buffered β size) : b.count≤ b.ring.room :=
  (Nat.min_le_left _ _).trans (Nat.min_le_left _ _)

theorem count_le_rest (b : Buffered β size) : b.count≤ b.src.rest.length := Nat.min_le_right _ _

theorem At.fill (h : b.At L k) : b.fill.At L (k+b.count) := by
  have hd : (b.src.rest.take b.count).length=b.count := by
    rw [List.length_take]
    exact Nat.min_eq_left b.count_le_rest
  have hr : (b.src.rest.take b.count).length≤ b.ring.room := by
    rw [hd]
    exact b.count_le_room
  refine ⟨Ring.ok_store h.ok hr,?_,?_,h.sound⟩
  · show (b.ring.store _).contents++b.src.rest.drop b.count=L
    rw [Ring.contents_store h.ok hr,List.append_assoc,List.take_append_drop]
    exact h.stream
  · show k+b.count≤ b.ring.len+_
    rw [hd]
    exact Nat.add_le_add_right h.len _

theorem fill_len (b : Buffered β size) : b.fill.ring.len=b.ring.len+b.count := by
  show b.ring.len+(b.src.rest.take b.count).length=_
  rw [List.length_take,Nat.min_eq_left b.count_le_rest]

/-- A read gives nothing only if there is no space or nothing more to come. -/
theorem count_pos (h : b.ring.Ok) (hs : b.ring.len<size) (hr : b.src.rest≠[]) : 0<b.count := by
  have hp := Ring.ptr_lt h (i := b.ring.len) h.len
  have hl := List.length_pos_of_ne_nil hr
  unfold count Ring.room
  omega

theorem fillTo_spec (fuel : Nat) {n : Nat} (h : b.At L k) (hn : n≤ size) (hL : n≤ L.length)
    (hf : b.src.rest.length<fuel) :
    (fillTo n fuel b).1=true ∧ (fillTo n fuel b).2.At L (max k n) := by
  induction fuel generalizing b with
  | zero => omega
  | succ fuel ih =>
    rw [fillTo]
    by_cases hlen : n≤ b.ring.len
    · rw [if_pos hlen]
      exact ⟨rfl,h.ok,h.stream,max_le h.len hlen,h.sound⟩
    · have hrest : b.src.rest≠[] := by
        intro hnil
        have hl := h.length
        rw [hnil] at hl
        simp only [List.length_nil] at hl
        omega
      have hc := count_pos h.ok (by omega) hrest
      have hl := b.count_le_rest
      rw [if_neg hlen,if_neg (by omega)]
      refine ih (h.fill.mono (Nat.le_add_right _ _)) ?_
      show (b.src.rest.drop b.count).length<fuel
      rw [List.length_drop]
      omega

/-- Past the end of the stream. -/
theorem fillTo_end (fuel : Nat) {n : Nat} (h : b.At L k) (hL : L.length<n) :
    (fillTo n fuel b).1=false ∧ (fillTo n fuel b).2.At L k := by
  induction fuel generalizing b with
  | zero => exact ⟨rfl,h⟩
  | succ fuel ih =>
    have hl := h.length
    have hfill := h.fill.mono (Nat.le_add_right _ _)
    rw [fillTo,if_neg (by omega)]
    split
    · exact ⟨rfl,hfill⟩
    · exact ih hfill

theorem At.congr (h : b.At L k) {j : Nat} (hj : j≤ b.ring.len) : b.At L j :=
  ⟨h.ok,h.stream,hj,h.sound⟩

theorem len_le_iterate (n : Nat) (b : Buffered β size) : b.ring.len≤(fill^[n] b).ring.len := by
  induction n generalizing b with
  | zero => exact le_refl _
  | succ n ih =>
    rw [Function.iterate_succ_apply]
    refine le_trans ?_ (ih b.fill)
    rw [fill_len]
    exact Nat.le_add_right _ _

/-- There are exactly `n` elements in the end, if a read ends just there. -/
theorem fillTo_len_iff (fuel : Nat) {n : Nat} (h : (fillTo n fuel b).1=true) :
    (fillTo n fuel b).2.ring.len=n ↔ ∃ i,(Buffered.fill^[i] b).ring.len=n := by
  induction fuel generalizing b with
  | zero => cases h
  | succ fuel ih =>
    rw [fillTo] at h ⊢
    by_cases hlen : n≤ b.ring.len
    · rw [if_pos hlen]
      constructor
      · intro heq
        exact ⟨0,heq⟩
      · rintro ⟨i,hi⟩
        have hle := len_le_iterate i b
        show b.ring.len=n
        omega
    · rw [if_neg hlen] at h ⊢
      by_cases hc : b.count=0
      · rw [if_pos hc] at h
        cases h
      · rw [if_neg hc] at h ⊢
        rw [ih h]
        constructor
        · rintro ⟨i,hi⟩
          exact ⟨i+1,hi⟩
        · rintro ⟨i,hi⟩
          cases i with
          | zero => exact absurd (Nat.le_of_eq hi.symm) hlen
          | succ i => exact ⟨i,hi⟩

end

end Buffered

/-- A program that reads from a buffer, and may give up. -/
abbrev Reader (β : Type) (size : Nat) (ε : Type) := ExceptT ε (StateM (Buffered β size))

namespace Reader

variable {β ε α γ : Type} {size : Nat}

/-- Fill the buffer to `n` elements, or give up with `eof`. -/
def fillTo (eof : ε) (n : Nat) : Reader β size ε Unit := fun b =>
  let r := b.fillTo n (b.src.rest.length+1)
  (if r.1 then .ok () else .error eof,r.2)

/-- Fill the buffer to `n` elements, or as far as it goes. -/
def tryFillTo (n : Nat) : Reader β size ε Unit := fun b =>
  (.ok (),(b.fillTo n (b.src.rest.length+1)).2)

/-- Fill the buffer with some more elements, or give up with `eof`. -/
def fillSome (eof : ε) : Reader β size ε Unit := fun b =>
  (if b.count=0 then .error eof else .ok (),b.fill)

def getLength : Reader β size ε Nat := fun b => (.ok b.ring.len,b)

def byteAt (i : Nat) : Reader β size ε β := fun b =>
  (.ok (b.ring.get i),{ b with overrun := b.overrun || decide (b.ring.len≤ i) })

def extract (i l : Nat) : Reader β size ε (List β) := fun b =>
  (.ok (b.ring.extract i l),{ b with overrun := b.overrun || decide (b.ring.len< i+l) })

def consume (a : Nat) : Reader β size ε Unit := fun b =>
  (.ok (),{ b with ring := b.ring.consume a, overrun := b.overrun || decide (b.ring.len<a) })

def reset : Reader β size ε Unit := fun b => (.ok (),{ b with ring := b.ring.reset })

/-- How many elements are in one piece, from the element `i` on. -/
def contiguousLength (i : Nat) : Reader β size ε Nat := fun b =>
  (.ok (b.ring.contiguousLength (b.ring.ptr i)),b)

/-- The memory from the element `i` on, which is there as far as the elements are in one
piece. -/
def sliceAt (i l : Nat) : Reader β size ε (List β) := fun b =>
  (.ok (b.ring.slice (b.ring.ptr i) l),{ b with
    overrun := b.overrun || decide (0<l ∧ (b.ring.len≤ i ∨ b.ring.contiguousLength (b.ring.ptr i)<l)) })

/-- The memory from its start on, which is there as far as the elements have come round to. -/
def sliceBase (l : Nat) : Reader β size ε (List β) := fun b =>
  (.ok (b.ring.slice 0 l),{ b with
    overrun := b.overrun || decide (0<l ∧ b.ring.cur+b.ring.len<size+l) })

/-- A loop that has as many turns as there are elements, and one more. -/
def loop (f : Nat → Reader β size ε α) : Reader β size ε α := fun b => f (b.stream.length+1) b

/-- From every buffer with at least `k` of the elements `L`, however the rest of them comes in,
the program gives `a` and leaves the elements `M`, at least `j` of them in the buffer. -/
def Gives (m : Reader β size ε α) (L : List β) (k : Nat) (a : α) (M : List β) (j : Nat) : Prop :=
  ∀ b : Buffered β size,b.At L k → ∃ b',m b=(.ok a,b') ∧ b'.At M j

/-- From every such buffer the program gives up. -/
def Fails (m : Reader β size ε α) (L : List β) (k : Nat) : Prop :=
  ∀ b : Buffered β size,b.At L k → ∃ e b',m b=(.error e,b') ∧ b'.overrun=false

/-- The program ends in this way and leaves these elements, in a buffer that is in order and of
which nothing was used that was not there. -/
def Ends (m : Reader β size ε α) (b : Buffered β size) (out : Except ε α) (M : List β) : Prop :=
  ∃ b',m b=(out,b') ∧ b'.At M 0

section
variable {m : Reader β size ε α} {f : α → Reader β size ε γ} {L M N : List β} {k j i : Nat}
  {a : α} {c : γ}

theorem bind_ok {b b' : Buffered β size} (h : m b=(.ok a,b')) : (m >>= f) b=f a b' := by
  show ExceptT.bindCont f (m b).1 (m b).2=_
  rw [h]
  rfl

theorem bind_error {b b' : Buffered β size} {e : ε} (h : m b=(.error e,b')) :
    (m >>= f) b=(.error e,b') := by
  show ExceptT.bindCont f (m b).1 (m b).2=_
  rw [h]
  rfl

/-- A result that is passed on in another form. -/
theorem bind_pure_iff {g : α → γ} (hg : Function.Injective g) {b b' : Buffered β size} :
    (m >>= fun r => pure (g r)) b=(.ok (g a),b') ↔ m b=(.ok a,b') := by
  obtain ⟨out,b1,h⟩ : ∃ out b1,m b=(out,b1) := ⟨_,_,rfl⟩
  cases out with
  | error e =>
    rw [bind_error h,h]
    exact iff_of_false (fun h => nomatch (Prod.mk.inj h).1) fun h => nomatch (Prod.mk.inj h).1
  | ok x =>
    rw [bind_ok h,h]
    constructor
    · intro heq
      obtain ⟨hout,hb⟩ := Prod.mk.inj heq
      rw [hg (Except.ok.inj hout),hb]
    · intro heq
      obtain ⟨hout,hb⟩ := Prod.mk.inj heq
      rw [Except.ok.inj hout,hb]
      rfl

theorem bind_inv {b b' : Buffered β size} (h : (m >>= f) b=(.ok c,b')) :
    ∃ a b1,m b=(.ok a,b1) ∧ f a b1=(.ok c,b') := by
  obtain ⟨out,b1,hm⟩ : ∃ out b1,m b=(out,b1) := ⟨_,_,rfl⟩
  cases out with
  | error e =>
    rw [bind_error hm] at h
    exact nomatch (Prod.mk.inj h).1
  | ok a =>
    rw [bind_ok hm] at h
    exact ⟨a,b1,hm,h⟩

theorem getLength_bind (f : Nat → Reader β size ε γ) (b : Buffered β size) :
    (getLength >>= f) b=f b.ring.len b := rfl

theorem contiguousLength_bind (f : Nat → Reader β size ε γ) (i : Nat) (b : Buffered β size) :
    (contiguousLength i >>= f) b=f (b.ring.contiguousLength (b.ring.ptr i)) b := rfl

theorem reset_bind (f : Unit → Reader β size ε γ) (b : Buffered β size) :
    (reset >>= f) b=f () { b with ring := b.ring.reset } := rfl

theorem Gives.bind (hm : Gives m L k a M j) (hf : Gives (f a) M j c N i) :
    Gives (m >>= f) L k c N i := by
  intro b hb
  obtain ⟨b1,h1,hb1⟩ := hm b hb
  obtain ⟨b2,h2,hb2⟩ := hf b1 hb1
  exact ⟨b2,(bind_ok h1).trans h2,hb2⟩

theorem Fails.bind (hm : Fails m L k) : Fails (m >>= f) L k := by
  intro b hb
  obtain ⟨e,b1,he,hb1⟩ := hm b hb
  exact ⟨e,b1,bind_error he,hb1⟩

theorem Gives.mono (h : Gives m L k a M j) {k' j' : Nat} (hk : k≤ k') (hj : j'≤ j) :
    Gives m L k' a M j' := by
  intro b hb
  obtain ⟨b',h',hb'⟩ := h b (hb.mono hk)
  exact ⟨b',h',hb'.mono hj⟩

theorem gives_pure (a : α) : Gives (pure a : Reader β size ε α) L k a L k :=
  fun b hb => ⟨b,rfl,hb⟩

theorem fails_throw (e : ε) : Fails (throw e : Reader β size ε α) L k :=
  fun b hb => ⟨e,b,rfl,hb.sound⟩

theorem gives_loop {f : Nat → Reader β size ε α} (h : ∀ fuel>L.length,Gives (f fuel) L k a M j) :
    Gives (loop f) L k a M j := by
  intro b hb
  exact h (b.stream.length+1) (by rw [hb.stream]; exact Nat.lt_succ_self _) b hb

theorem fails_loop {f : Nat → Reader β size ε α} (h : ∀ fuel,Fails (f fuel) L k) :
    Fails (loop f) L k := fun b hb => h (b.stream.length+1) b hb

theorem gives_fillTo (eof : ε) {n : Nat} (hn : n≤ size) (hL : n≤ L.length) :
    Gives (fillTo eof n : Reader β size ε Unit) L k () L (max k n) := by
  intro b hb
  obtain ⟨ht,ha⟩ := Buffered.fillTo_spec (b.src.rest.length+1) hb hn hL (Nat.lt_succ_self _)
  refine ⟨_,?_,ha⟩
  unfold fillTo
  simp only [ht,if_true]

theorem At_consume {b : Buffered β size} (hs : size≤ 2^31) (hb : b.At L k) {a : Nat}
    (ha : a≤ b.ring.len) :
    Buffered.At (L.drop a) (b.ring.len-a) { b with
      ring := b.ring.consume a
      overrun := b.overrun || decide (b.ring.len<a) } := by
  obtain ⟨hok,hl⟩ := Ring.ok_consume hb.ok ha hs
  refine ⟨hok,?_,hl.ge,by simpa [hb.sound] using ha⟩
  show (b.ring.consume a).contents++b.src.rest=_
  rw [Ring.contents_consume hb.ok ha hs,← hb.stream,Buffered.stream,
    List.drop_append_of_le_length (by rw [Ring.contents_length]; exact ha)]

theorem gives_tryFillTo {n : Nat} (hn : n≤ size) (hL : n≤ L.length) :
    Gives (tryFillTo n : Reader β size ε Unit) L k () L (max k n) := by
  intro b hb
  obtain ⟨-,ha⟩ := Buffered.fillTo_spec (b.src.rest.length+1) hb hn hL (Nat.lt_succ_self _)
  exact ⟨_,rfl,ha⟩

/-- Filling an empty buffer gives at least one element. -/
theorem fillSome_run (eof : ε) {b : Buffered β size} (hs : 0<size) (hb : b.At L 0)
    (h0 : b.ring.len=0) (hL : L≠[]) :
    (fillSome eof : Reader β size ε Unit) b=(.ok (),b.fill) ∧ b.fill.At L 1 := by
  have hl := List.length_pos_of_ne_nil hL
  have hr : b.src.rest≠[] := by
    intro hnil
    have hlen := hb.length
    rw [hnil,List.length_nil] at hlen
    omega
  have hc := Buffered.count_pos hb.ok (by omega) hr
  refine ⟨?_,hb.fill.mono (by omega)⟩
  unfold fillSome
  rw [if_neg (by omega)]

/-- The elements of one piece. -/
theorem sliceAt_run {b : Buffered β size} (hb : b.At L k) {l : Nat} (hl : i+l≤ b.ring.len)
    (hc : l≤ b.ring.contiguousLength (b.ring.ptr i)) :
    (sliceAt i l : Reader β size ε (List β)) b=(.ok ((L.drop i).take l),b) := by
  have ho : decide (0<l ∧ (b.ring.len≤ i ∨ b.ring.contiguousLength (b.ring.ptr i)<l))=false := by
    rw [decide_eq_false_iff_not]
    omega
  have hslice : b.ring.slice (b.ring.ptr i) l=(L.drop i).take l := by
    rw [Ring.slice_contiguous hb.ok hl hc,← hb.drop_take hl]
  unfold sliceAt
  rw [hslice,b.looked ho]

theorem sliceBase_zero (b : Buffered β size) :
    (sliceBase 0 : Reader β size ε (List β)) b=(.ok [],b) := by
  have ho : decide (0<0 ∧ b.ring.cur+b.ring.len<size+0)=false := by simp
  unfold sliceBase
  rw [b.looked ho]
  rfl

/-- The elements of the other piece, which is at the start of the memory. -/
theorem sliceBase_run {b : Buffered β size} (hb : b.At L k) {l : Nat} (hi : i<b.ring.len)
    (hl : i+b.ring.contiguousLength (b.ring.ptr i)+l≤ b.ring.len) :
    (sliceBase l : Reader β size ε (List β)) b=
      (.ok ((L.drop (i+b.ring.contiguousLength (b.ring.ptr i))).take l),b) := by
  have ho : decide (0<l ∧ b.ring.cur+b.ring.len<size+l)=false := by
    have hcur := hb.ok.cur
    have hlen := hb.ok.len
    have hp := b.ring.ptr_cases i
    have hn := b.ring.ptr_cases b.ring.len
    have hcon := Ring.contiguous_cases hb.ok hi
    rw [decide_eq_false_iff_not]
    omega
  unfold sliceBase
  rw [Ring.slice_wrapped hb.ok hi hl,← hb.drop_take hl,b.looked ho]

/-- The elements are taken in one piece. -/
theorem piece_eq (hs : size≤ 2^31) {b : Buffered β size} (hb : b.At L k) {l : Nat}
    (hl : l≤ b.ring.len) (hc : l≤ b.ring.contiguousLength (b.ring.ptr 0)) :
    ∃ b',(∀ {γ} (f : List β → Reader β size ε γ),
        (do let p ← sliceAt 0 l; consume l; f p) b=f (L.take l) b') ∧
      b'.At (L.drop l) (b.ring.len-l) ∧ b'.ring=b.ring.consume l := by
  refine ⟨_,fun f => ?_,At_consume hs hb hl,rfl⟩
  rw [bind_ok (sliceAt_run hb (by omega) hc)]
  rfl

/-- The elements are taken in two pieces, the first of them as long as it can be. -/
theorem pieces_eq (hs : size≤ 2^31) {b : Buffered β size} (hb : b.At L k) (h0 : 0<b.ring.len)
    {c l : Nat} (hc : b.ring.contiguousLength (b.ring.ptr 0)=c) (hcl : c≤ l) (hl : l≤ b.ring.len) :
    ∃ b',(∀ {γ} (f : List β → List β → Reader β size ε γ),
        (do let p ← sliceAt 0 c; consume c; let q ← sliceAt 0 (l-c); consume (l-c); f p q) b=
          f (L.take c) ((L.drop c).take (l-c)) b') ∧ b'.At (L.drop l) (b.ring.len-l) := by
  obtain ⟨b1,he1,hb1,hr⟩ := piece_eq hs hb (hcl.trans hl) hc.ge
  have hlen : b1.ring.len=b.ring.len-c := by
    rw [hr]
    exact (Ring.ok_consume hb.ok (hcl.trans hl) hs).2
  have hcon : l-c≤ b1.ring.contiguousLength (b1.ring.ptr 0) := by
    by_cases h : c<b.ring.len
    · subst hc
      rw [hr,Ring.contiguous_consume hb.ok h0 hs h]
      omega
    · omega
  obtain ⟨b2,he2,hb2,-⟩ := piece_eq hs hb1 (l := l-c) (by omega) hcon
  refine ⟨b2,fun f => ?_,?_⟩
  · rw [he1,he2]
  · rw [List.drop_drop,Nat.add_sub_cancel' hcl] at hb2
    exact hb2.mono (by omega)

theorem Ends.unique {b : Buffered β size} {out out' : Except ε α} (h : Ends m b out M)
    (h' : Ends m b out' N) : out=out' := by
  obtain ⟨b1,h1,-⟩ := h
  obtain ⟨b2,h2,-⟩ := h'
  exact (Prod.mk.inj (h1.symm.trans h2)).1

theorem fails_fillTo (eof : ε) {n : Nat} (hL : L.length<n) :
    Fails (fillTo eof n : Reader β size ε Unit) L k := by
  intro b hb
  obtain ⟨hf,ha⟩ := Buffered.fillTo_end (b.src.rest.length+1) hb hL
  refine ⟨eof,_,?_,ha.sound⟩
  unfold fillTo
  simp [hf]

theorem byteAt_run {b : Buffered β size} (hb : b.At L k) {x : β} (hi : i<b.ring.len)
    (hx : L[i]?=some x) : (byteAt i : Reader β size ε β) b=(.ok x,b) := by
  have ho : decide (b.ring.len≤ i)=false := by simpa using hi
  have hg : b.ring.get i=x := by
    rw [← hb.stream,Buffered.stream,List.getElem?_append_left (by rw [Ring.contents_length]; exact hi),
      Ring.contents_getElem? i hi] at hx
    exact Option.some.inj hx
  unfold byteAt
  rw [hg,b.looked ho]

theorem gives_byteAt {x : β} (hi : i<k) (hx : L[i]?=some x) :
    Gives (byteAt i : Reader β size ε β) L k x L k :=
  fun b hb => ⟨b,byteAt_run hb (Nat.lt_of_lt_of_le hi hb.len) hx,hb⟩

theorem extract_run {b : Buffered β size} (hb : b.At L k) {l : Nat} (hle : i+l≤ b.ring.len) :
    (extract i l : Reader β size ε (List β)) b=(.ok ((L.drop i).take l),b) := by
  have ho : decide (b.ring.len< i+l)=false := by simpa using hle
  have hg : b.ring.extract i l=(L.drop i).take l := by
    rw [Ring.extract_eq hb.ok hle,← hb.drop_take hle]
  unfold extract
  rw [hg,b.looked ho]

theorem gives_extract {l : Nat} (h : i+l≤ k) :
    Gives (extract i l : Reader β size ε (List β)) L k ((L.drop i).take l) L k :=
  fun b hb => ⟨b,extract_run hb (h.trans hb.len),hb⟩

theorem gives_consume (hs : size≤ 2^31) {a : Nat} (h : a≤ k) :
    Gives (consume a : Reader β size ε Unit) L k () (L.drop a) (k-a) := by
  intro b hb
  have hlen := hb.len
  have hc := At_consume hs hb (h.trans hlen)
  exact ⟨_,rfl,hc.mono (by omega)⟩

end

end Reader

end Dinit.Framework
