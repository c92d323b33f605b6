import Dinit.Safety.Cpbuffer
import Dinit.Stream.Output

namespace Dinit

open Framework

/-- What is counted in an `int` without loss -/
def Moved.Small : Moved → Prop
  | .failed _ => True
  | .bytes n => n<2^31

/-- Without a loss, `writev` accepts as many bytes as it says, or it fails and accepts none. -/
theorem writevUnintr_spec {data accepted : List UInt8} {errno : Nat} {results : List Moved}
    {r : Int} {d : Sink} (hs : ∀ m∈results,m.Small)
    (h : writevUnintr data accepted errno results=some (r,d)) :
    (∃ t,results=t++d.results ∧ t≠[]) ∧
      ((r<0 ∧ d.accepted=accepted ∧ d.errno≠0) ∨
        ∃ n≤ data.length,r=n ∧ d.accepted=accepted++data.take n) := by
  induction results generalizing accepted errno with
  | nil => simp [writevUnintr] at h
  | cons m results ih =>
    have hs' : ∀ m∈results,m.Small := fun m hm => hs m (List.mem_cons_of_mem _ hm)
    cases m with
    | failed e =>
      unfold writevUnintr at h
      by_cases hint : e.code=eintr
      · rw [if_pos hint] at h
        obtain ⟨⟨t,ht,-⟩,hcases⟩ := ih hs' h
        exact ⟨⟨.failed e::t,by rw [ht]; rfl,by simp⟩,hcases⟩
      · rw [if_neg hint] at h
        cases h
        exact ⟨⟨[.failed e],rfl,by simp⟩,.inl ⟨by decide,rfl,e.ne⟩⟩
    | bytes n =>
      have hn : n<2^31 := hs (.bytes n) (List.mem_cons_self ..)
      have hlen := List.length_take (i := n) (l := data)
      have hr : asInt (data.take n).length=(data.take n).length := asInt_small (by omega)
      unfold writevUnintr at h
      rw [hr] at h
      dsimp only at h
      by_cases hint : ((data.take n).length : Int)<1 ∧ errno=eintr
      · have hnone : data.take n=[] := List.length_eq_zero_iff.mp (by omega)
        rw [if_pos hint,hnone,List.append_nil] at h
        obtain ⟨⟨t,ht,-⟩,hcases⟩ := ih hs' h
        exact ⟨⟨.bytes n::t,by rw [ht]; rfl,by simp⟩,hcases⟩
      · rw [if_neg hint] at h
        cases h
        refine ⟨⟨[.bytes n],rfl,by simp⟩,.inr ⟨(data.take n).length,by omega,rfl,?_⟩⟩
        rw [hlen,← List.take_take,List.take_length]

/-- What brings `writev` forward: it is not interrupted, and it accepts something. -/
def Moved.Advances : Moved → Prop
  | .failed e => e.code≠eintr
  | .bytes n => 0<n ∧ n<2^31

theorem Moved.Advances.small {m : Moved} (h : m.Advances) : m.Small := by
  cases m with
  | failed e => trivial
  | bytes n => exact h.2

theorem writevUnintr_advances {data : List UInt8} (accepted : List UInt8) (errno : Nat) {m : Moved}
    (results : List Moved) (hdata : data≠[]) (hm : m.Advances) :
    ∃ r d,writevUnintr data accepted errno (m::results)=some (r,d) ∧ d.results=results ∧ r≠0 := by
  cases m with
  | failed e =>
    refine ⟨-1,⟨accepted,results,e.code⟩,?_,rfl,by decide⟩
    unfold writevUnintr
    rw [if_neg hm]
  | bytes n =>
    obtain ⟨hpos,hn⟩ := hm
    have hlen := List.length_take (i := n) (l := data)
    have hdlen := List.length_pos_of_ne_nil hdata
    have hr : asInt (data.take n).length=(data.take n).length := asInt_small (by omega)
    refine ⟨(data.take n).length,⟨accepted++data.take n,results,errno⟩,?_,rfl,by omega⟩
    unfold writevUnintr
    rw [hr]
    dsimp only
    rw [if_neg (by omega)]

namespace Ostream

theorem size_ok : (16384 : UInt32).toNat≤ 2^31 := by decide

section
variable {b : Streambuf}

/-- The pieces that are written are the content. -/
theorem pieces_eq (h : b.toRing.Ok) : pieces b=b.contents := by
  have hlen : b.toRing.len=b.length.toNat := rfl
  unfold pieces
  dsimp only
  by_cases hzero : b.length=0
  · have hcontig : b.getContiguousLength (b.getPtr 0)=0 := by
      unfold Cpbuffer.getContiguousLength
      rw [if_pos hzero]
    rw [hcontig,if_neg (by simp [hzero])]
    simp [Cpbuffer.slice,Cpbuffer.contents,hzero]
  · have hpos : 0<b.length.toNat := Nat.pos_of_ne_zero fun h0 => hzero (UInt32.toNat_inj.mp h0)
    have hcontig : (b.getContiguousLength (b.getPtr 0)).toNat=
        b.toRing.contiguousLength (b.toRing.ptr 0) :=
      Cpbuffer.toNat_contiguous h size_ok (UInt32.lt_iff_toNat_lt.mpr hpos)
    have hptr : (b.getPtr 0).toNat=b.toRing.ptr 0 := Cpbuffer.toNat_ptr h size_ok (by decide)
    have hle := Ring.contiguous_le h (i := 0) (by omega)
    have hfirst := Ring.slice_contiguous h (i := 0) hle (Nat.le_refl _)
    rw [Cpbuffer.slice_toRing,hptr,hcontig,Cpbuffer.contents_toRing h,hfirst,List.drop_zero]
    by_cases hsplit : b.length≠b.getContiguousLength (b.getPtr 0)
    · have hsub : (b.length-b.getContiguousLength (b.getPtr 0)).toNat=
          b.toRing.len-b.toRing.contiguousLength (b.toRing.ptr 0) := by
        rw [UInt32.toNat_sub_of_le _ _ (UInt32.le_iff_toNat_le.mpr (by rw [hcontig]; omega)),hcontig]
        rfl
      have hsecond := Ring.slice_wrapped h (i := 0)
        (l := b.toRing.len-b.toRing.contiguousLength (b.toRing.ptr 0)) (by omega) (by omega)
      have hlast := b.toRing.contents_length
      rw [if_pos hsplit,Cpbuffer.slice_toRing,hsub]
      change _++b.toRing.slice 0 _=_
      rw [hsecond,Nat.zero_add,List.take_of_length_le (l := List.drop _ _),List.take_append_drop]
      rw [List.length_drop]
      omega
    · have heq : b.toRing.contents.length=b.toRing.contiguousLength (b.toRing.ptr 0) := by
        rw [Ring.contents_length,← hcontig,hlen,Decidable.not_not.mp hsplit]
      rw [if_neg hsplit,List.append_nil,← heq,List.take_length]

theorem consume_spec (h : b.toRing.Ok) {n : UInt32} (hn : n.toNat≤ b.length.toNat) :
    (b.consume n).toRing.Ok ∧ (b.consume n).contents=b.contents.drop n.toNat := by
  obtain ⟨hok,heffect⟩ := Cpbuffer.run_spec (by decide) size_ok h (o := .consume n)
    (UInt32.le_iff_toNat_le.mpr hn)
  exact ⟨hok,heffect⟩

/-- What the loop of `put` leaves: each byte is accepted, in the buffer, or not counted. -/
structure PutDone (b : Streambuf) (msg : List UInt8) (d : Sink) (count : Nat) (ret : Int)
    (o : Ostream) (d' : Sink) : Prop where
  ok : ∀ b∈o.buf,b.toRing.Ok
  results : ∃ t,d.results=t++d'.results
  kept : ∃ rest,d'.accepted++o.pending++rest=d.accepted++b.contents++msg ∧
    rest.length≤ count ∧ (ret=count ∧ rest=[] ∨
      o.ioError≠0 ∧ rest≠[] ∧ (ret=(count-rest.length : Nat) ∧ rest.length<count ∨
        ret=-1 ∧ rest.length=count))

/-- A round of the loop moves bytes to the descriptor, and the rounds that follow go on from there. -/
theorem PutDone.step {b' : Streambuf} {msg msg' : List UInt8} {d d1 d' : Sink} {count : Nat}
    {ret : Int} {o : Ostream} (h : PutDone b' msg' d1 count ret o d')
    (hres : ∃ t,d.results=t++d1.results)
    (hsame : d1.accepted++b'.contents++msg'=d.accepted++b.contents++msg) :
    PutDone b msg d count ret o d' := by
  obtain ⟨t,ht⟩ := hres
  obtain ⟨u,hu⟩ := h.results
  exact ⟨h.ok,⟨t++u,by rw [ht,hu,List.append_assoc]⟩,by rw [← hsame]; exact h.kept⟩

/-- The whole content and a part of the message have been accepted. -/
theorem all_accepted (hok : b.toRing.Ok) (acc msg : List UInt8) {n : Nat} (hn : b.length.toNat≤ n) :
    (b.consume b.length).contents=[] ∧
      acc++(b.contents++msg).take n++msg.drop (n-b.length.toNat)=acc++b.contents++msg := by
  obtain ⟨-,hcon⟩ := consume_spec hok (Nat.le_refl b.length.toNat)
  have hlen := b.contents_length
  constructor
  · rw [hcon,← hlen,List.drop_length]
  · rw [List.take_append,List.take_of_length_le (by omega),hlen]
    simp

/-- A part of the content has been accepted. -/
theorem part_accepted (hok : b.toRing.Ok) (acc msg : List UInt8) {n : Nat} (hn : n≤ b.length.toNat) :
    (b.consume (.ofNat n)).toRing.Ok ∧
      acc++(b.contents++msg).take n++(b.consume (.ofNat n)).contents=acc++b.contents := by
  have hlt := b.length.toNat_lt
  have hof : (UInt32.ofNat n).toNat=n := UInt32.toNat_ofNat_of_lt' (by
    show n<2^32
    omega)
  obtain ⟨hok',hcon⟩ := consume_spec hok (n := .ofNat n) (by omega)
  have hlen := b.contents_length
  refine ⟨hok',?_⟩
  rw [hcon,hof,List.take_append_of_le_length (by omega),List.append_assoc,List.take_append_drop]

theorem putLoop_spec {count fuel : Nat} {msg : List UInt8} {d : Sink} {ret : Int} {o : Ostream}
    {d' : Sink} (hok : b.toRing.Ok) (hs : ∀ m∈d.results,m.Small) (hmsg : msg≠[])
    (hcount : msg.length≤ count) (h : putLoop count fuel b msg d=some (ret,o,d')) :
    PutDone b msg d count ret o d' := by
  induction fuel generalizing b msg d with
  | zero => cases h
  | succ fuel ih =>
    have hlen : b.length.toNat≤ 16384 := hok.len
    unfold putLoop at h
    by_cases hfull : (16384-b.length).toNat< msg.length
    · rw [if_pos hfull,pieces_eq hok] at h
      cases hw : writevUnintr (b.contents++msg) d.accepted d.errno d.results with
      | none =>
        rw [hw] at h
        cases h
      | some p =>
        obtain ⟨written,d1⟩ := p
        rw [hw] at h
        dsimp only at h
        obtain ⟨⟨t,ht,-⟩,⟨hneg,hacc,herr⟩ | ⟨n,hn,rfl,hacc⟩⟩ := writevUnintr_spec hs hw
        · rw [if_pos hneg] at h
          cases h
          refine ⟨fun b' hb' => by cases hb'; exact hok,⟨t,ht⟩,msg,?_,hcount,.inr ⟨herr,hmsg,?_⟩⟩
          · show d'.accepted++b.contents++msg=_
            rw [hacc]
          · by_cases hpart : 0<count-msg.length
            · rw [if_pos hpart]
              exact .inl ⟨rfl,by omega⟩
            · rw [if_neg hpart]
              exact .inr ⟨rfl,by omega⟩
        · have hs1 : ∀ m∈d1.results,m.Small := fun m hm =>
            hs m (by rw [ht]; exact List.mem_append_right _ hm)
          rw [if_neg (by omega),Int.toNat_natCast] at h
          by_cases hall : b.length.toNat≤ n
          · obtain ⟨hempty,hsame⟩ := all_accepted hok d.accepted msg hall
            obtain ⟨hok1,-⟩ := consume_spec hok (Nat.le_refl b.length.toNat)
            rw [if_pos hall] at h
            by_cases hend : msg.length-(n-b.length.toNat)=0
            · rw [if_pos hend] at h
              cases h
              have hdrop : msg.drop (n-b.length.toNat)=[] := List.drop_eq_nil_of_le (by omega)
              refine ⟨fun b' hb' => by cases hb'; exact hok1,⟨t,ht⟩,[],?_,Nat.zero_le _,.inl ⟨rfl,rfl⟩⟩
              show d'.accepted++(b.consume b.length).contents++[]=_
              rw [hempty,hacc,← hsame,hdrop,List.append_nil]
            · rw [if_neg hend] at h
              have hdone := ih hok1 hs1 (fun h0 => hend (by
                rw [← List.length_drop,h0]
                rfl)) (by rw [List.length_drop]; omega) h
              refine hdone.step ⟨t,ht⟩ ?_
              rw [hacc,hempty,List.append_nil]
              exact hsame
          · obtain ⟨hok1,hsame⟩ := part_accepted hok d.accepted msg (Nat.le_of_not_le hall)
            rw [if_neg hall] at h
            refine (ih hok1 hs1 hmsg hcount h).step ⟨t,ht⟩ ?_
            rw [hacc,hsame]
    · have hsub : (16384-b.length).toNat=16384-b.length.toNat :=
        UInt32.toNat_sub_of_le _ _ (UInt32.le_iff_toNat_le.mpr hlen)
      obtain ⟨hok1,heffect⟩ := Cpbuffer.run_spec (by decide) size_ok hok (o := .append msg) (by
        show b.length.toNat+msg.length≤ 16384
        omega)
      rw [if_neg hfull] at h
      cases h
      refine ⟨fun b' hb' => ?_,⟨[],rfl⟩,[],?_,Nat.zero_le _,.inl ⟨rfl,rfl⟩⟩
      · cases hb'
        exact hok1
      · show d'.accepted++(b.append msg).contents++[]=_
        rw [List.append_nil,List.append_assoc]
        exact congrArg (_++·) heffect

/-- With as many results that bring it forward as there are bytes, the loop ends. -/
theorem putLoop_returns {count fuel : Nat} {b : Streambuf} {msg : List UInt8} {d : Sink}
    (hok : b.toRing.Ok) (hmsg : msg≠[]) (hadv : ∀ m∈d.results,m.Advances)
    (hn : b.contents.length+msg.length≤ d.results.length)
    (hfuel : b.contents.length+msg.length<fuel) : ∃ p,putLoop count fuel b msg d=some p := by
  induction fuel generalizing b msg d with
  | zero => omega
  | succ fuel ih =>
    have hlen := b.contents_length
    have hpos := List.length_pos_of_ne_nil hmsg
    obtain ⟨accepted,results,errno⟩ := d
    cases results with
    | nil =>
      dsimp only [List.length_nil] at hn
      omega
    | cons m results =>
      have hm := hadv m (List.mem_cons_self ..)
      have hadv' : ∀ k∈results,k.Advances := fun k hmem => hadv k (List.mem_cons_of_mem _ hmem)
      have hs : ∀ k∈m::results,k.Small := fun k hmem => (hadv k hmem).small
      obtain ⟨r,d1,hw,hres,hr⟩ := writevUnintr_advances accepted errno results
        (List.append_ne_nil_of_right_ne_nil b.contents hmsg) hm
      dsimp only [List.length_cons] at hn
      unfold putLoop
      dsimp only
      rw [pieces_eq hok,hw]
      dsimp only
      by_cases hfull : (16384-b.length).toNat< msg.length
      · rw [if_pos hfull]
        obtain ⟨-,⟨hneg,-,-⟩ | ⟨n,hle,rfl,-⟩⟩ := writevUnintr_spec hs hw
        · exact ⟨_,if_pos hneg⟩
        · rw [if_neg (by omega),Int.toNat_natCast]
          rw [List.length_append] at hle
          by_cases hall : b.length.toNat≤ n
          · obtain ⟨hempty,-⟩ := all_accepted hok accepted msg hall
            obtain ⟨hok1,-⟩ := consume_spec hok (Nat.le_refl b.length.toNat)
            have hdrop := List.length_drop (i := n-b.length.toNat) (l := msg)
            rw [if_pos hall]
            by_cases hend : msg.length-(n-b.length.toNat)=0
            · exact ⟨_,if_pos hend⟩
            · rw [if_neg hend]
              refine ih hok1 (fun h0 => ?_) (by rw [hres]; exact hadv') ?_ ?_
              · rw [h0] at hdrop
                exact hend hdrop.symm
              · rw [hempty,hres,List.length_nil]
                omega
              · rw [hempty,List.length_nil]
                omega
          · obtain ⟨hok1,hsame⟩ := part_accepted hok accepted msg (Nat.le_of_not_le hall)
            have hcount := congrArg List.length hsame
            rw [List.length_append,List.length_append,List.length_append,List.length_take,
              List.length_append] at hcount
            rw [if_neg hall]
            exact ih hok1 hmsg (by rw [hres]; exact hadv') (by rw [hres]; omega) (by omega)
      · rw [if_neg hfull]
        exact ⟨_,rfl⟩

/-- A flush moves the content, or a part of it. -/
theorem flushLoop_spec {fuel : Nat} {d : Sink} {ok : Bool} {o : Ostream} {d' : Sink}
    (hok : b.toRing.Ok) (hs : ∀ m∈d.results,m.Small) (h : flushLoop fuel b d=some (ok,o,d')) :
    (∀ b∈o.buf,b.toRing.Ok) ∧ (∃ t,d.results=t++d'.results) ∧
      d'.accepted++o.pending=d.accepted++b.contents ∧
      (ok=true ∧ o.pending=[] ∨ ok=false ∧ o.ioError≠0) := by
  induction fuel generalizing b d with
  | zero => cases h
  | succ fuel ih =>
    unfold flushLoop at h
    by_cases hmore : 0<b.length
    · rw [if_pos hmore,pieces_eq hok] at h
      cases hw : writevUnintr b.contents d.accepted d.errno d.results with
      | none =>
        rw [hw] at h
        cases h
      | some p =>
        obtain ⟨written,d1⟩ := p
        rw [hw] at h
        dsimp only at h
        obtain ⟨⟨t,ht,-⟩,⟨hneg,hacc,herr⟩ | ⟨n,hn,rfl,hacc⟩⟩ := writevUnintr_spec hs hw
        · rw [if_pos hneg] at h
          cases h
          refine ⟨fun b' hb' => by cases hb'; exact hok,⟨t,ht⟩,?_,.inr ⟨rfl,herr⟩⟩
          rw [hacc]
          rfl
        · have hs1 : ∀ m∈d1.results,m.Small := fun m hm =>
            hs m (by rw [ht]; exact List.mem_append_right _ hm)
          have hlen := b.contents_length
          obtain ⟨hok1,hsame⟩ := part_accepted hok d.accepted [] (n := n) (by omega)
          rw [if_neg (by omega),Int.toNat_natCast] at h
          obtain ⟨hok2,⟨u,hu⟩,hkept,hend⟩ := ih hok1 hs1 h
          refine ⟨hok2,⟨t++u,by rw [ht,hu,List.append_assoc]⟩,?_,hend⟩
          rw [hkept,hacc,← hsame,List.append_nil]
    · have hzero : b.length.toNat=0 := by
        rw [UInt32.lt_iff_toNat_lt] at hmore
        exact Nat.eq_zero_of_not_pos hmore
      have hempty : b.contents=[] := List.length_eq_zero_iff.mp (by rw [b.contents_length,hzero])
      rw [if_neg hmore] at h
      cases h
      exact ⟨fun b' hb' => by cases hb'; exact hok,⟨[],rfl⟩,rfl,.inl ⟨rfl,hempty⟩⟩

end

section
variable {o o' : Ostream} {d d' : Sink}

theorem good_eq (b : Streambuf) (e : Nat) : (Ostream.mk (some b) e).good=true ↔ e=0 := by
  by_cases he : e=0 <;> simp [good,currentState,he]

theorem good_none (e : Nat) : (Ostream.mk none e).good=false := by
  by_cases he : e=0 <;> simp [good,currentState,he]

theorem not_good (h : o.ioError≠0) : o.good=false := by
  obtain ⟨b | b,e⟩ := o
  · exact good_none e
  · exact Bool.eq_false_iff.mpr fun hg => h ((good_eq b e).mp hg)

/-- The part of a message that the call has accepted -/
def taken : Call → Reply → List UInt8
  | .put msg,.count ret => msg.take ret.toNat
  | _,_ => []

/-- The buffer, if there is one, is in order. -/
def Ok (o : Ostream) : Prop := ∀ b∈o.buf,b.toRing.Ok

/-- A message is put away in so many rounds. -/
theorem put_returns (hok : o.Ok) {msg : List UInt8} (hadv : ∀ m∈d.results,m.Advances)
    (hn : o.pending.length+msg.length≤ d.results.length) : ∃ p,o.put msg d=some p := by
  obtain ⟨buf,e⟩ := o
  unfold put
  cases buf with
  | none => exact ⟨_,rfl⟩
  | some b =>
    dsimp only
    by_cases hgood : (Ostream.mk (some b) e).good=true
    · rw [hgood,if_neg (by decide)]
      by_cases hzero : msg.length=0
      · exact ⟨_,if_pos hzero⟩
      · rw [if_neg hzero]
        have hn' : b.contents.length+msg.length≤ d.results.length := hn
        exact putLoop_returns (hok b rfl) (fun hnil => hzero (by rw [hnil]; rfl)) hadv hn' (by omega)
    · rw [Bool.eq_false_iff.mpr hgood]
      exact ⟨_,rfl⟩

/-- What a call does: nothing is lost, doubled or put in another order. Where it has not done all,
the stream is not good, and a stream that is not good accepts nothing. -/
structure Effect (o : Ostream) (d : Sink) (c : Call) (r : Reply) (o' : Ostream) (d' : Sink) :
    Prop where
  kept : d'.accepted++o'.pending=d.accepted++o.pending++taken c r
  idle : o.good=false → d'=d ∧ (c≠.clear → o'=o)
  reply : match c,r with
    | .put msg,.count ret => -1≤ ret ∧ ret≤ msg.length ∧ (ret< msg.length → o'.good=false)
    | .flushNx,.flag ok => if ok then o'.pending=[] else o'.good=false
    | .clear,.done => o'.ioError=0
    | _,_ => False

theorem effect_idle (hgood : o.good=false) {c : Call} (msg : List UInt8) (hc : c=.put msg) :
    Effect o d c (.count (-1)) o d := by
  subst hc
  refine ⟨by simp [taken],fun _ => ⟨rfl,fun _ => rfl⟩,by decide,?_,fun _ => hgood⟩
  omega

/-- What comes before the rest of a message -/
theorem append_cancel {x y msg rest : List UInt8} (h : x++rest=y++msg)
    (hle : rest.length≤ msg.length) : x=y++msg.take (msg.length-rest.length) := by
  have hlen := congrArg List.length h
  rw [List.length_append,List.length_append] at hlen
  have htake := congrArg (List.take x.length) h
  rw [List.take_left,List.take_append,List.take_of_length_le (by omega)] at htake
  have hcount : x.length-y.length=msg.length-rest.length := by omega
  rw [hcount] at htake
  exact htake

theorem PutDone.effect {b : Streambuf} {msg : List UInt8} {ret : Int}
    (h : PutDone b msg d msg.length ret o' d') :
    Effect ⟨some b,0⟩ d (.put msg) (.count ret) o' d' := by
  obtain ⟨rest,hsame,hle,hcases⟩ := h.kept
  have hgood : (Ostream.mk (some b) 0).good=true := (good_eq b 0).mpr rfl
  have hkept := append_cancel hsame hle
  refine ⟨?_,fun hbad => absurd (hgood.symm.trans hbad) (by decide),?_⟩
  · rw [hkept]
    change d.accepted++b.contents++_=d.accepted++b.contents++msg.take ret.toNat
    obtain ⟨rfl,rfl⟩ | ⟨-,-,⟨rfl,-⟩ | ⟨rfl,hall⟩⟩ := hcases
    · rfl
    · rfl
    · rw [hall,Nat.sub_self]
      rfl
  · obtain ⟨rfl,rfl⟩ | ⟨herr,-,hret⟩ := hcases
    · exact ⟨by omega,Int.le_refl _,fun hlt => absurd hlt (Int.lt_irrefl _)⟩
    · exact ⟨by omega,by omega,fun _ => not_good herr⟩

theorem put_spec {msg : List UInt8} {ret : Int} (hok : o.Ok) (hs : ∀ m∈d.results,m.Small)
    (h : o.put msg d=some (ret,o',d')) :
    o'.Ok ∧ (∃ t,d.results=t++d'.results) ∧ Effect o d (.put msg) (.count ret) o' d' := by
  obtain ⟨buf,e⟩ := o
  unfold put at h
  cases buf with
  | none =>
    cases h
    exact ⟨hok,⟨[],rfl⟩,effect_idle (good_none e) msg rfl⟩
  | some b =>
    dsimp only at h
    by_cases hgood : (Ostream.mk (some b) e).good=true
    · rw [hgood] at h
      by_cases hzero : msg.length=0
      · have hnil : msg=[] := List.length_eq_zero_iff.mp hzero
        rw [if_neg (by decide),if_pos hzero] at h
        cases h
        refine ⟨hok,⟨[],rfl⟩,by simp [taken],fun _ => ⟨rfl,fun _ => rfl⟩,by decide,by omega,?_⟩
        intro hlt
        omega
      · rw [if_neg (by decide),if_neg hzero] at h
        have he := (good_eq b e).mp hgood
        subst he
        have hdone := putLoop_spec (hok b rfl) hs (fun hnil => hzero (by rw [hnil]; rfl))
          (Nat.le_refl _) h
        exact ⟨hdone.ok,hdone.results,hdone.effect⟩
    · have hbad := Bool.eq_false_iff.mpr hgood
      rw [hbad] at h
      cases h
      exact ⟨hok,⟨[],rfl⟩,effect_idle hbad msg rfl⟩

theorem flushNx_spec {ok : Bool} (hok : o.Ok) (hs : ∀ m∈d.results,m.Small)
    (h : o.flushNx d=some (ok,o',d')) :
    o'.Ok ∧ (∃ t,d.results=t++d'.results) ∧ Effect o d .flushNx (.flag ok) o' d' := by
  obtain ⟨buf,e⟩ := o
  unfold flushNx at h
  cases buf with
  | none =>
    cases h
    exact ⟨hok,⟨[],rfl⟩,by simp [taken],fun _ => ⟨rfl,fun _ => rfl⟩,good_none e⟩
  | some b =>
    dsimp only at h
    by_cases hgood : (Ostream.mk (some b) e).good=true
    · rw [hgood,if_neg (by decide)] at h
      have he := (good_eq b e).mp hgood
      subst he
      obtain ⟨hok',hres,hkept,hend⟩ := flushLoop_spec (hok b rfl) hs h
      refine ⟨hok',hres,by rw [hkept]; simp [taken,pending],
        fun hbad => absurd (hgood.symm.trans hbad) (by decide),?_⟩
      obtain ⟨rfl,hempty⟩ | ⟨rfl,herr⟩ := hend
      · exact hempty
      · exact not_good herr
    · have hbad := Bool.eq_false_iff.mpr hgood
      rw [hbad] at h
      cases h
      exact ⟨hok,⟨[],rfl⟩,by simp [taken],fun _ => ⟨rfl,fun _ => rfl⟩,hbad⟩

/-- What one call does -/
theorem call_spec {c : Call} {r : Reply} (hok : o.Ok) (hs : ∀ m∈d.results,m.Small)
    (h : o.call d c=some (r,o',d')) :
    o'.Ok ∧ (∀ m∈d'.results,m.Small) ∧ Effect o d c r o' d' := by
  have hpass : (∃ t,d.results=t++d'.results) → ∀ m∈d'.results,m.Small := by
    intro ⟨t,ht⟩ m hm
    exact hs m (by rw [ht]; exact List.mem_append_right _ hm)
  cases c with
  | put msg =>
    obtain ⟨⟨ret,o1,d1⟩,hput,heq⟩ := Option.map_eq_some_iff.mp h
    cases heq
    obtain ⟨hok',hres,heffect⟩ := put_spec hok hs hput
    exact ⟨hok',hpass hres,heffect⟩
  | flushNx =>
    obtain ⟨⟨ok,o1,d1⟩,hflush,heq⟩ := Option.map_eq_some_iff.mp h
    cases heq
    obtain ⟨hok',hres,heffect⟩ := flushNx_spec hok hs hflush
    exact ⟨hok',hpass hres,heffect⟩
  | clear =>
    cases h
    exact ⟨hok,hs,by simp [taken,pending,clear],fun _ => ⟨rfl,fun hc => absurd rfl hc⟩,rfl⟩

/-- What a run of calls does -/
theorem calls_spec {cs : List Call} {rs : List Reply} (hok : o.Ok) (hs : ∀ m∈d.results,m.Small)
    (h : o.calls d cs=some (rs,o',d')) :
    o'.Ok ∧ (∀ m∈d'.results,m.Small) ∧
      d'.accepted++o'.pending=d.accepted++o.pending++(List.zipWith taken cs rs).flatten ∧
      (o.good=false → .clear∉cs → d'=d) := by
  induction cs generalizing o d rs with
  | nil =>
    cases h
    exact ⟨hok,hs,by simp,fun _ _ => rfl⟩
  | cons c cs ih =>
    unfold calls at h
    cases hc : o.call d c with
    | none =>
      rw [hc] at h
      cases h
    | some p =>
      obtain ⟨r,o1,d1⟩ := p
      rw [hc] at h
      obtain ⟨⟨rs1,o2,d2⟩,hcs,heq⟩ := Option.map_eq_some_iff.mp h
      cases heq
      obtain ⟨hok1,hs1,heffect⟩ := call_spec hok hs hc
      obtain ⟨hok2,hs2,hkept,hidle⟩ := ih hok1 hs1 hcs
      refine ⟨hok2,hs2,?_,fun hbad hclear => ?_⟩
      · rw [hkept,heffect.kept,List.append_assoc]
        rfl
      · obtain ⟨hsame,hkeep⟩ := heffect.idle hbad
        have hstream := hkeep fun hc0 => hclear (by rw [hc0]; exact List.mem_cons_self ..)
        rw [hstream] at hidle
        rw [hidle hbad fun hm => hclear (List.mem_cons_of_mem _ hm),hsame]

/-- Buffered output is faithful as long as no `writev` accepts `2^31` bytes or more: after each call
of a run, what has been accepted and what is in the buffer are what the calls have taken, and the
next call does what it says. -/
theorem output_faithful (hb : ∀ b∈o.buf,Cpbuffer.Reached b) (hs : ∀ m∈d.results,m.Small)
    {cs : List Call} {rs : List Reply} (h : o.calls d cs=some (rs,o',d')) :
    d'.accepted++o'.pending=d.accepted++o.pending++(List.zipWith taken cs rs).flatten ∧
      (o.good=false → .clear∉cs → d'=d) ∧
      ∀ c r o2 d2,o'.call d' c=some (r,o2,d2) → Effect o' d' c r o2 d2 := by
  have hok : o.Ok := fun b hmem => Cpbuffer.ok_reached (by decide) size_ok (hb b hmem)
  obtain ⟨hok',hs',hkept,hidle⟩ := calls_spec hok hs h
  exact ⟨hkept,hidle,fun c r o2 d2 hc => (call_spec hok' hs' hc).2.2⟩

/-- An empty buffer that `n` bytes have gone through -/
def usedUp (n : Nat) : Streambuf :=
  ⟨((⟨fun _ => 0,0,0⟩ : Streambuf).append (List.replicate n 0)).buf,.ofNat n,0⟩

theorem reached_usedUp {n : Nat} (hn : n<16384) : Cpbuffer.Reached (usedUp n) := by
  have hnat : (UInt32.ofNat n).toNat=n := UInt32.toNat_ofNat_of_lt (Nat.lt_trans hn (by decide))
  have hfull : Cpbuffer.Reached ((⟨fun _ => 0,0,0⟩ : Streambuf).append (List.replicate n 0)) :=
    .op (o := .append (List.replicate n 0)) (.start _) (by
      show (0 : UInt32).toNat+(List.replicate n (0 : UInt8)).length≤ _
      rw [List.length_replicate]
      exact Nat.le_of_lt (by simpa using hn))
  have hend := hfull.op (o := .consume (.ofNat n)) (by
    show UInt32.ofNat n≤ 0+.ofNat (List.replicate n (0 : UInt8)).length
    rw [List.length_replicate,UInt32.zero_add]
    exact UInt32.le_refl _)
  have heq : (((⟨fun _ => 0,0,0⟩ : Streambuf).append (List.replicate n 0)).consume (.ofNat n))=usedUp n := by
    have hlt : ¬(16384 : UInt32)≤ .ofNat n := by
      rw [UInt32.le_iff_toNat_le,hnat]
      exact Nat.not_le.mpr hn
    unfold Cpbuffer.consume usedUp
    simp only [Cpbuffer.append,List.length_replicate,UInt32.zero_add,Cpbuffer.wrap,if_neg hlt,
      UInt32.sub_self]
  exact heq ▸ hend

/-- Over the end of the memory three bytes are put, of which two are written before an error; after
that the rest goes out in front of another byte. -/
def partialWrites : Sink := ⟨[],[.bytes 2,.failed ⟨11,by decide⟩,.bytes 1,.bytes 5],0⟩

def putAndFlush : List Call := [.put [1,2,3],.flushNx,.clear,.put [4],.flushNx]

theorem output_faithful_wrapped : ∃ rs o d,
    (Ostream.mk (some (usedUp 16383)) 0).calls partialWrites putAndFlush=some (rs,o,d) ∧
    d.accepted++o.pending=(List.zipWith taken putAndFlush rs).flatten ∧ d.accepted=[1,2,3,4] := by
  have hb : ∀ b∈(Ostream.mk (some (usedUp 16383)) 0).buf,Cpbuffer.Reached b := by
    intro b hb
    rw [← Option.mem_some.mp hb]
    exact reached_usedUp (by decide)
  have hs : ∀ m∈partialWrites.results,m.Small := by simp [partialWrites,Moved.Small]
  obtain ⟨p,hp,hacc⟩ : ∃ p,(Ostream.mk (some (usedUp 16383)) 0).calls partialWrites putAndFlush=some p ∧
      p.2.2.accepted=[1,2,3,4] := by
    have h : ((Ostream.mk (some (usedUp 16383)) 0).calls partialWrites putAndFlush).map
        (fun p => p.2.2.accepted)=some [1,2,3,4] := by decide +kernel
    exact Option.map_eq_some_iff.mp h
  obtain ⟨rs,o,d⟩ := p
  exact ⟨rs,o,d,hp,(output_faithful hb hs hp).1,hacc⟩

/-- Where the count is negative as an `int`, the loop ends at once. -/
theorem putLoop_overflow {b : Streambuf} {msg : List UInt8} {fuel : Nat} {w : Int}
    (hfull : (16384-b.length).toNat< msg.length)
    (hw : writevUnintr (pieces b++msg) d.accepted d.errno d.results=some (w,d')) (hneg : w<0) :
    putLoop msg.length (fuel+1) b msg d=some (-1,⟨some b,d'.errno⟩,d') := by
  unfold putLoop
  rw [if_pos hfull,hw]
  dsimp only
  rw [if_pos hneg,if_neg (by omega)]

/-- All of such a message is accepted, and `put` returns -1. -/
theorem put_overflow (msg : List UInt8) (hneg : asInt msg.length<0) (hlong : 16384< msg.length) :
    (Ostream.mk (some ⟨fun _ => 0,0,0⟩) 0).put msg ⟨[],[.bytes msg.length],0⟩=
      some (-1,⟨some ⟨fun _ => 0,0,0⟩,0⟩,⟨msg,[],0⟩) := by
  have hpieces : pieces (⟨fun _ => 0,0,0⟩ : Streambuf)=[] := rfl
  have hfull : (16384-(⟨fun _ => 0,0,0⟩ : Streambuf).length).toNat< msg.length := hlong
  have hgood : (Ostream.mk (some (⟨fun _ => 0,0,0⟩ : Streambuf)) 0).good=true := (good_eq _ 0).mpr rfl
  have hw : writevUnintr (pieces (⟨fun _ => 0,0,0⟩ : Streambuf)++msg) [] 0 [.bytes msg.length]=
      some (asInt msg.length,⟨msg,[],0⟩) := by
    rw [hpieces]
    simp [writevUnintr,eintr]
  unfold put
  dsimp only
  rw [hgood,if_neg (by decide),if_neg (by omega)]
  exact putLoop_overflow (d := ⟨[],[.bytes msg.length],0⟩) hfull hw hneg

theorem put_overflow_effect {msg : List UInt8} (hlong : 16384< msg.length) :
    ¬Effect ⟨some ⟨fun _ => 0,0,0⟩,0⟩ ⟨[],[.bytes msg.length],0⟩ (.put msg) (.count (-1))
      ⟨some ⟨fun _ => 0,0,0⟩,0⟩ ⟨msg,[],0⟩ := by
  intro heffect
  have hkept := congrArg List.length heffect.kept
  simp [pending,taken,Cpbuffer.contents] at hkept
  simp [hkept] at hlong

/-- A count of `2^31` is lost in the `int`. -/
theorem count_overflow : ∃ msg r o' d',msg.length=2^31 ∧
    (Ostream.mk (some ⟨fun _ => 0,0,0⟩) 0).call ⟨[],[.bytes msg.length],0⟩ (.put msg)=
      some (r,o',d') ∧
    ¬Effect ⟨some ⟨fun _ => 0,0,0⟩,0⟩ ⟨[],[.bytes msg.length],0⟩ (.put msg) r o' d' := by
  obtain ⟨msg,hlen⟩ : ∃ msg : List UInt8,msg.length=2^31 := ⟨.replicate _ 0,List.length_replicate⟩
  have hlong : 16384< msg.length := by
    rw [hlen]
    decide
  have hput := put_overflow msg (by rw [hlen]; decide) hlong
  exact ⟨msg,.count (-1),_,_,hlen,by simp only [call,hput,Option.map_some],put_overflow_effect hlong⟩

end

end Ostream

end Dinit
