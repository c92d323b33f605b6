import Dinit.Control.Cpbuffer

namespace Dinit

open Framework

namespace Cpbuffer

variable {size : UInt32}

/-- The buffer with numbers that do not overflow -/
def toRing (b : Cpbuffer size) : Ring UInt8 size.toNat := ⟨b.buf,b.curIdx.toNat,b.length.toNat⟩

theorem toNat_wrap (pos : UInt32) : (wrap size pos).toNat=Ring.wrap size.toNat pos.toNat := by
  unfold wrap Ring.wrap
  by_cases h : size≤ pos
  · have hle := UInt32.le_iff_toNat_le.mp h
    rw [if_pos h,if_pos hle,UInt32.toNat_sub_of_le _ _ h]
  · have hlt : ¬size.toNat≤ pos.toNat := fun hle => h (UInt32.le_iff_toNat_le.mpr hle)
    rw [if_neg h,if_neg hlt]

section
variable {b : Cpbuffer size}

theorem toNat_add {p q : UInt32} (h : p.toNat+q.toNat< 2^32) : (p+q).toNat=p.toNat+q.toNat := by
  rw [UInt32.toNat_add]
  exact Nat.mod_eq_of_lt h

/-- An index that is in the content, or at its end, is a place in the memory. -/
theorem toNat_ptr (h : b.toRing.Ok) (hs : size.toNat≤ 2^31) {i : UInt32} (hi : i.toNat≤ size.toNat) :
    (wrap size (b.curIdx+i)).toNat=b.toRing.ptr i.toNat := by
  have hcur : b.curIdx.toNat< size.toNat := h.cur
  rw [toNat_wrap,toNat_add (by omega)]
  rfl

theorem toNat_end (h : b.toRing.Ok) (hs : size.toNat≤ 2^31) :
    (wrap size (b.curIdx+b.length)).toNat=b.toRing.ptr b.toRing.len := toNat_ptr h hs h.len

theorem contents_toRing (h : b.toRing.Ok) : b.contents=b.toRing.contents := by
  have hcur : b.curIdx.toNat< size.toNat := h.cur
  have hlen : b.length.toNat≤ size.toNat := h.len
  refine List.map_congr_left fun i hi => ?_
  have hlt : i< b.length.toNat := List.mem_range.mp hi
  have hp := b.toRing.ptr_cases i
  have hmod : (b.curIdx.toNat+i)%size.toNat=b.toRing.ptr i := by
    have hc : b.toRing.cur=b.curIdx.toNat := rfl
    obtain ⟨hle,heq⟩ | ⟨hle,heq⟩ := hp
    · rw [Nat.mod_eq_sub_mod (by omega),Nat.mod_eq_of_lt (by omega)]
      omega
    · rw [Nat.mod_eq_of_lt (by omega)]
      omega
  rw [hmod]
  rfl

theorem toRing_trimTo (n : UInt32) : (b.trimTo n).toRing=b.toRing.trimTo n.toNat := rfl

theorem toRing_consume (n : UInt32) : (b.consume n).toRing=b.toRing.consume n.toNat := by
  have hcur : (wrap size (b.curIdx+n)).toNat=Ring.wrap size.toNat ((b.curIdx.toNat+n.toNat)%2^32) := by
    rw [toNat_wrap,UInt32.toNat_add]
  have hlen : (b.length-n).toNat=(b.length.toNat+2^32-n.toNat%2^32)%2^32 := by
    have hn := n.toNat_lt
    rw [UInt32.toNat_sub,Nat.mod_eq_of_lt (a := n.toNat) hn]
    omega
  unfold toRing consume Ring.consume
  rw [hcur,hlen]

/-- What is stored in one piece is stored behind the content. -/
theorem toRing_store (h : b.toRing.Ok) (hs : size.toNat≤ 2^31) {s : List UInt8}
    (hroom : s.length≤ b.toRing.room) :
    ({b with
      buf := memcpy b.buf (wrap size (b.curIdx+b.length)).toNat s
      length := b.length+.ofNat s.length} : Cpbuffer size).toRing=b.toRing.store s := by
  have hlen : b.length.toNat≤ size.toNat := h.len
  have hfree : s.length≤ size.toNat-b.length.toNat := Nat.le_trans hroom (Nat.min_le_right _ _)
  have hof : (UInt32.ofNat s.length).toNat=s.length := UInt32.toNat_ofNat_of_lt' (by
    show s.length< 2^32
    omega)
  have hsum : (b.length+.ofNat s.length).toNat=b.length.toNat+s.length := by
    rw [toNat_add (by omega),hof]
  unfold toRing Ring.store
  dsimp only
  rw [hsum,toNat_end h hs]
  rfl

theorem toNat_maxCount (h : b.toRing.Ok) (hs : size.toNat≤ 2^31) (limit : Option UInt32) :
    (b.maxCount limit).toNat=limit.elim b.toRing.room fun l => min b.toRing.room l.toNat := by
  have hlen : b.length≤ size := UInt32.le_iff_toNat_le.mpr h.len
  have hpos := toNat_end h hs
  have hptr := Ring.ptr_lt h h.len
  have hle : wrap size (b.curIdx+b.length)≤ size := UInt32.le_iff_toNat_le.mpr (by omega)
  have hmin (x y : UInt32) : (min x y).toNat=min x.toNat y.toNat := UInt32.toNat_min x y
  have hroom : (min (size-wrap size (b.curIdx+b.length)) (size-b.length)).toNat=b.toRing.room := by
    rw [hmin,UInt32.toNat_sub_of_le _ _ hle,UInt32.toNat_sub_of_le _ _ hlen,hpos]
    rfl
  cases limit with
  | none => exact hroom
  | some limit =>
    show (min (min (size-wrap size (b.curIdx+b.length)) (size-b.length)) limit).toNat=_
    rw [hmin,hroom]
    rfl

theorem maxCount_le_room (h : b.toRing.Ok) (hs : size.toNat≤ 2^31) (limit : Option UInt32) :
    (b.maxCount limit).toNat≤ b.toRing.room := by
  rw [toNat_maxCount h hs]
  cases limit with
  | none => exact Nat.le_refl _
  | some l => exact Nat.min_le_left _ _

/-- Where there is room, something can be read. -/
theorem maxCount_pos (h : b.toRing.Ok) (hs : size.toNat≤ 2^31) (hroom : b.length< size)
    (limit : UInt32) (hl : 0<limit.toNat) : 0<(b.maxCount (some limit)).toNat := by
  have hlt : b.length.toNat< size.toNat := UInt32.lt_iff_toNat_lt.mp hroom
  have hptr := Ring.ptr_lt h h.len
  have hpos : 0<b.toRing.room := by
    show 0< min (size.toNat-b.toRing.ptr b.toRing.len) (size.toNat-b.length.toNat)
    omega
  rw [toNat_maxCount h hs]
  exact Nat.lt_min.mpr ⟨hpos,hl⟩

theorem toRing_append (h : b.toRing.Ok) (hs : size.toNat≤ 2^31) {s : List UInt8}
    (hroom : b.length.toNat+s.length≤ size.toNat) : (b.append s).toRing=b.toRing.append s := by
  have hof : (UInt32.ofNat s.length).toNat=s.length := UInt32.toNat_ofNat_of_lt' (by
    show s.length< 2^32
    omega)
  have hend := toNat_end h hs
  have hptr := Ring.ptr_lt h h.len
  have hcur : b.curIdx.toNat< size.toNat := h.cur
  have hsum : (b.length+.ofNat s.length).toNat=b.length.toNat+s.length := by
    rw [toNat_add (by omega),hof]
  have hle : wrap size (b.curIdx+b.length)≤ size := UInt32.le_iff_toNat_le.mpr (by omega)
  have hmax : (size-wrap size (b.curIdx+b.length)).toNat=size.toNat-b.toRing.ptr b.toRing.len := by
    rw [UInt32.toNat_sub_of_le _ _ hle,hend]
  have hiff : size-wrap size (b.curIdx+b.length)<.ofNat s.length ↔
      size.toNat-b.toRing.ptr b.toRing.len< s.length := by
    rw [UInt32.lt_iff_toNat_lt,hmax,hof]
  unfold append Ring.append
  dsimp only
  by_cases hlong : size.toNat-b.toRing.ptr b.toRing.len< s.length
  · have hlt := hiff.mpr hlong
    have hrest : (.ofNat s.length-(size-wrap size (b.curIdx+b.length))).toNat=
        s.length-(size.toNat-b.toRing.ptr b.toRing.len) := by
      rw [UInt32.toNat_sub_of_le _ _ (UInt32.le_of_lt hlt),hof,hmax]
    have hfirst : (s.take (size.toNat-b.toRing.ptr b.toRing.len)).length=
        size.toNat-b.toRing.ptr b.toRing.len := List.length_take_of_le (Nat.le_of_lt hlong)
    have hdrop := List.length_drop (i := size.toNat-b.toRing.ptr b.toRing.len) (l := s)
    have hlen : (b.toRing.store (s.take (size.toNat-b.toRing.ptr b.toRing.len))).len=
        b.length.toNat+(size.toNat-b.toRing.ptr b.toRing.len) := by
      show b.toRing.len+_=_
      rw [hfirst]
      rfl
    -- the second piece begins at the start of the memory
    have hwrapped : Ring.ptr (b.toRing.store (s.take (size.toNat-b.toRing.ptr b.toRing.len)))
        (b.toRing.store (s.take (size.toNat-b.toRing.ptr b.toRing.len))).len=0 := by
      have hp := b.toRing.ptr_cases b.toRing.len
      have hq := (b.toRing.store (s.take (size.toNat-b.toRing.ptr b.toRing.len))).ptr_cases
        (b.toRing.store (s.take (size.toNat-b.toRing.ptr b.toRing.len))).len
      have hc : (b.toRing.store (s.take (size.toNat-b.toRing.ptr b.toRing.len))).cur=b.curIdx.toNat :=
        rfl
      have hc' : b.toRing.cur=b.curIdx.toNat := rfl
      have hl : b.toRing.len=b.length.toNat := rfl
      omega
    rw [if_pos hlt,if_pos hlong,UInt32.toNat_min,hmax,hof,hrest,Nat.min_eq_left (Nat.le_of_lt hlong),
      hend,List.take_of_length_le (Nat.le_of_eq hdrop),Ring.store,hwrapped,hlen,hdrop]
    have htotal : b.length.toNat+s.length=b.length.toNat+(size.toNat-b.toRing.ptr b.toRing.len)+
        (s.length-(size.toNat-b.toRing.ptr b.toRing.len)) := by omega
    rw [← htotal,← hsum]
    rfl
  · have hge := fun hlt => hlong (hiff.mp hlt)
    have hall : s.take (size.toNat-b.toRing.ptr b.toRing.len)=s :=
      List.take_of_length_le (Nat.not_lt.mp hlong)
    rw [if_neg hge,if_neg hlong,UInt32.toNat_min,hmax,hof,Nat.min_eq_right (Nat.not_lt.mp hlong),
      hend,hall,List.take_length]
    unfold toRing
    dsimp only
    rw [hsum]
    rfl

/-- What a `read` gives is added, and taken off what is to come. -/
theorem fill_spec (h : b.toRing.Ok) (hs : size.toNat≤ 2^31) (fd : List UInt8)
    (limit : Option UInt32) (read : Option Nat) :
    ∃ n≤ fd.length,(b.fill fd limit read).1.toRing.Ok ∧
      (b.fill fd limit read).1.contents=b.contents++fd.take n ∧ (b.fill fd limit read).2.2=fd.drop n ∧
      (b.fill fd limit read).2.1=read.elim (-1) (fun _ => asInt n) ∧
      ∀ k,read=some k → n=min (min k (b.maxCount limit).toNat) fd.length := by
  cases read with
  | none => exact ⟨0,Nat.zero_le _,h,by simp [fill],by simp [fill],rfl,fun k hk => nomatch hk⟩
  | some k =>
    have hmax := maxCount_le_room h hs limit
    have hlen := List.length_take (i := min k (b.maxCount limit).toNat) (l := fd)
    have hroom : (fd.take (min k (b.maxCount limit).toNat)).length≤ b.toRing.room := by omega
    have hring : (b.fill fd limit (some k)).1.toRing=
        b.toRing.store (fd.take (min k (b.maxCount limit).toNat)) := toRing_store h hs hroom
    have hok : (b.fill fd limit (some k)).1.toRing.Ok := by
      rw [hring]
      exact Ring.ok_store h hroom
    have htake : fd.take (fd.take (min k (b.maxCount limit).toNat)).length=
        fd.take (min k (b.maxCount limit).toNat) := by
      rw [hlen,← List.take_take,List.take_length]
    have hdrop : fd.drop (fd.take (min k (b.maxCount limit).toNat)).length=
        fd.drop (min k (b.maxCount limit).toNat) := by
      rw [hlen]
      by_cases hk : min k (b.maxCount limit).toNat≤ fd.length
      · rw [Nat.min_eq_left hk]
      · rw [Nat.min_eq_right (by omega),List.drop_length,List.drop_of_length_le (by omega)]
    have hcon : (b.fill fd limit (some k)).1.contents=
        b.contents++fd.take (min k (b.maxCount limit).toNat) := by
      rw [contents_toRing hok,hring,Ring.contents_store h hroom,contents_toRing h]
    have hres : (b.fill fd limit (some k)).2.1=
        asInt (fd.take (min k (b.maxCount limit).toNat)).length := by simp only [fill]
    refine ⟨(fd.take (min k (b.maxCount limit).toNat)).length,List.length_take_le' _ _,hok,
      by rw [hcon,htake],hdrop.symm,by rw [hres,Option.elim_some],fun k' hk' => ?_⟩
    cases hk'
    exact hlen

/-- `fill_to` adds what its reads give. When it says that there is enough, there is. -/
theorem fillTo_spec (h : b.toRing.Ok) (hs : size.toNat≤ 2^31) (rlength : UInt32) (fd : List UInt8)
    (reads : List (Option Nat)) :
    ∃ n≤ fd.length,(b.fillTo rlength fd reads).1.toRing.Ok ∧
      (b.fillTo rlength fd reads).1.contents=b.contents++fd.take n ∧
      (b.fillTo rlength fd reads).2.2=fd.drop n := by
  induction reads generalizing b fd with
  | nil => exact ⟨0,Nat.zero_le _,h,by simp [fillTo],by simp [fillTo]⟩
  | cons read reads ih =>
    unfold fillTo
    by_cases hmore : b.length< rlength
    · obtain ⟨n,hn,hok,hcon,hrest,-,-⟩ := fill_spec h hs fd none read
      simp only [if_pos hmore]
      by_cases hend : (b.fill fd none read).2.1≤ 0
      · rw [if_pos hend]
        exact ⟨n,hn,hok,hcon,hrest⟩
      · rw [if_neg hend]
        obtain ⟨m,hm,hok',hcon',hrest'⟩ := ih hok (b.fill fd none read).2.2
        have hlen : (b.fill fd none read).2.2.length=fd.length-n := by rw [hrest,List.length_drop]
        refine ⟨n+m,by omega,hok',?_,?_⟩
        · rw [hcon',hcon,hrest,List.append_assoc,List.take_add]
        · rw [hrest',hrest,List.drop_drop]
    · simp only [if_neg hmore]
      exact ⟨0,Nat.zero_le _,h,by simp,by simp⟩

theorem toNat_index (h : b.toRing.Ok) (hs : size.toNat≤ 2^31) {i : UInt32} (hi : i.toNat≤ size.toNat) :
    (wrap size (i+b.curIdx)).toNat=b.toRing.ptr i.toNat := by
  rw [UInt32.add_comm]
  exact toNat_ptr h hs hi

theorem slice_toRing (p l : UInt32) : b.slice p l=b.toRing.slice p.toNat l.toNat := rfl

theorem extract_toRing (h : b.toRing.Ok) (hs : size.toNat≤ 2^31) {i l : UInt32}
    (hl : i.toNat+l.toNat≤ b.length.toNat) : b.extract i l=b.toRing.extract i.toNat l.toNat := by
  have hlen : b.length.toNat≤ size.toNat := h.len
  have hptr := toNat_index h hs (i := i) (by omega)
  have hlt := Ring.ptr_lt h (i := i.toNat) (by omega)
  have hle : wrap size (i+b.curIdx)≤ size := UInt32.le_iff_toNat_le.mpr (by omega)
  have hhalf : (size-wrap size (i+b.curIdx)).toNat=size.toNat-b.toRing.ptr i.toNat := by
    rw [UInt32.toNat_sub_of_le _ _ hle,hptr]
  have hiff : size< wrap size (i+b.curIdx)+l ↔ size.toNat< b.toRing.ptr i.toNat+l.toNat := by
    rw [UInt32.lt_iff_toNat_lt,toNat_add (by omega),hptr]
  unfold extract Ring.extract
  dsimp only
  by_cases hlong : size.toNat< b.toRing.ptr i.toNat+l.toNat
  · have hsub : size-wrap size (i+b.curIdx)≤ l := UInt32.le_iff_toNat_le.mpr (by omega)
    rw [if_pos (hiff.mpr hlong),if_pos hlong,slice_toRing,slice_toRing,hhalf,hptr,
      UInt32.toNat_sub_of_le _ _ hsub,hhalf]
    rfl
  · rw [if_neg (fun hw => hlong (hiff.mp hw)),if_neg hlong,slice_toRing,hptr]

/-- Both ways to copy out give the bytes of the content. -/
theorem extract_spec (h : b.toRing.Ok) (hs : size.toNat≤ 2^31) {i l : UInt32}
    (hl : i.toNat+l.toNat≤ b.length.toNat) :
    b.extract i l=(b.contents.drop i.toNat).take l.toNat ∧
      b.extractString i l=(b.contents.drop i.toNat).take l.toNat := by
  have hext : b.extract i l=(b.contents.drop i.toNat).take l.toNat := by
    rw [extract_toRing h hs hl,Ring.extract_eq h hl,contents_toRing h]
  exact ⟨hext,hext⟩

theorem at_spec (h : b.toRing.Ok) (hs : size.toNat≤ 2^31) {i : UInt32} (hi : i< b.length) :
    b.contents[i.toNat]?=some (b.at_ i) := by
  have hlt : i.toNat< b.length.toNat := UInt32.lt_iff_toNat_lt.mp hi
  have hlen : b.length.toNat≤ size.toNat := h.len
  rw [contents_toRing h,Ring.contents_getElem? _ hlt]
  show some (b.buf (b.toRing.ptr i.toNat))=some (b.buf _)
  rw [toNat_ptr h hs (by omega)]

/-- Where the byte `i` of the content is -/
def place (b : Cpbuffer size) (i : Nat) : Nat := (b.curIdx.toNat+i)%size.toNat

/-- How many bytes of the content are one after another in the memory, from the byte `i` on -/
def InOnePiece (b : Cpbuffer size) (i c : Nat) : Prop :=
  i+c≤ b.length.toNat ∧ ∀ j< c,b.place (i+j)=b.place i+j

theorem place_eq (h : b.toRing.Ok) {i : Nat} (hi : i≤ size.toNat) : b.place i=b.toRing.ptr i := by
  have hcur : b.toRing.cur< size.toNat := h.cur
  have hc : b.toRing.cur=b.curIdx.toNat := rfl
  have hp := b.toRing.ptr_cases i
  unfold place
  obtain ⟨hle,heq⟩ | ⟨hle,heq⟩ := hp
  · rw [Nat.mod_eq_sub_mod (by omega),Nat.mod_eq_of_lt (by omega)]
    omega
  · rw [Nat.mod_eq_of_lt (by omega)]
    omega

theorem toNat_contiguous (h : b.toRing.Ok) (hs : size.toNat≤ 2^31) {i : UInt32} (hi : i< b.length) :
    (b.getContiguousLength (b.getPtr i)).toNat=b.toRing.contiguousLength (b.toRing.ptr i.toNat) := by
  have hlt : i.toNat< b.length.toNat := UInt32.lt_iff_toNat_lt.mp hi
  have hlen : b.length.toNat≤ size.toNat := h.len
  have hptr : (b.getPtr i).toNat=b.toRing.ptr i.toNat := toNat_ptr h hs (by omega)
  have hin := Ring.ptr_lt h (i := i.toNat) (by omega)
  have hend := toNat_end h hs
  have hne : ¬b.length=0 := by
    intro h0
    rw [h0] at hlt
    exact Nat.not_lt_zero _ hlt
  have hne' : ¬b.toRing.len=0 := by
    show ¬b.length.toNat=0
    omega
  have hiff : b.getPtr i< wrap size (b.curIdx+b.length) ↔
      b.toRing.ptr i.toNat< b.toRing.ptr b.toRing.len := by rw [UInt32.lt_iff_toNat_lt,hptr,hend]
  unfold getContiguousLength Ring.contiguousLength
  rw [if_neg hne,if_neg hne']
  dsimp only
  by_cases hbefore : b.toRing.ptr i.toNat< b.toRing.ptr b.toRing.len
  · rw [if_pos (hiff.mpr hbefore),if_pos hbefore,
      UInt32.toNat_sub_of_le _ _ (UInt32.le_of_lt (hiff.mpr hbefore)),hptr,hend]
  · have hle : b.getPtr i≤ size := UInt32.le_iff_toNat_le.mpr (by omega)
    rw [if_neg (fun hw => hbefore (hiff.mp hw)),if_neg hbefore,UInt32.toNat_sub_of_le _ _ hle,hptr]

/-- The contiguous length is as long as a piece of the content can be. -/
theorem contiguous_spec (h : b.toRing.Ok) (hs : size.toNat≤ 2^31) {i : UInt32} (hi : i< b.length) :
    b.InOnePiece i.toNat (b.getContiguousLength (b.getPtr i)).toNat ∧
      ∀ c,b.InOnePiece i.toNat c → c≤ (b.getContiguousLength (b.getPtr i)).toNat := by
  have hlt : i.toNat< b.toRing.len := UInt32.lt_iff_toNat_lt.mp hi
  have hlen : b.toRing.len≤ size.toNat := h.len
  have hl : b.toRing.len=b.length.toNat := rfl
  have hcur : b.toRing.cur< size.toNat := h.cur
  have hle := Ring.contiguous_le h hlt
  have hcases := Ring.contiguous_cases h hlt
  have hp := b.toRing.ptr_cases i.toNat
  have hn := b.toRing.ptr_cases b.toRing.len
  rw [toNat_contiguous h hs hi]
  constructor
  · refine ⟨hle,fun j hj => ?_⟩
    rw [place_eq h (by omega),place_eq h (by omega)]
    have hq := b.toRing.ptr_cases (i.toNat+j)
    omega
  · intro c ⟨hc,hplace⟩
    by_contra hmore
    have hj := hplace (b.toRing.contiguousLength (b.toRing.ptr i.toNat)) (by omega)
    rw [place_eq h (by omega),place_eq h (by omega)] at hj
    have hin := Ring.ptr_lt h (i := i.toNat+b.toRing.contiguousLength (b.toRing.ptr i.toNat)) (by omega)
    have hq := b.toRing.ptr_cases (i.toNat+b.toRing.contiguousLength (b.toRing.ptr i.toNat))
    omega

end

/-- The operations that change the buffer -/
inductive Op where
  | fill (fd : List UInt8) (limit : Option UInt32) (read : Option Nat)
  | fillTo (rlength : UInt32) (fd : List UInt8) (reads : List (Option Nat))
  | append (s : List UInt8)
  | consume (amount : UInt32)
  | trimTo (newLength : UInt32)
  | reset

def run (b : Cpbuffer size) : Op → Cpbuffer size
  | .fill fd limit read => (b.fill fd limit read).1
  | .fillTo rlength fd reads => (b.fillTo rlength fd reads).1
  | .append s => b.append s
  | .consume amount => b.consume amount
  | .trimTo newLength => b.trimTo newLength
  | .reset => b.reset

/-- The caller appends within the free space, and takes off or keeps no more than there is. -/
def Allowed (b : Cpbuffer size) : Op → Prop
  | .append s => b.length.toNat+s.length≤ size.toNat
  | .consume amount => amount≤ b.length
  | .trimTo newLength => newLength≤ b.length
  | _ => True

instance (b : Cpbuffer size) : (o : Op) → Decidable (Allowed b o)
  | .append s => inferInstanceAs (Decidable (b.length.toNat+s.length≤ size.toNat))
  | .consume amount => inferInstanceAs (Decidable (amount≤ b.length))
  | .trimTo newLength => inferInstanceAs (Decidable (newLength≤ b.length))
  | .fill .. | .fillTo .. | .reset => isTrue trivial

/-- What an operation does to a queue of bytes. The bytes that are read come off the file. -/
def Effect (b : Cpbuffer size) : Op → Prop
  | .fill fd limit read => ∃ n≤ fd.length,(b.fill fd limit read).1.contents=b.contents++fd.take n ∧
      (b.fill fd limit read).2.2=fd.drop n
  | .fillTo rlength fd reads => ∃ n≤ fd.length,
      (b.fillTo rlength fd reads).1.contents=b.contents++fd.take n ∧
      (b.fillTo rlength fd reads).2.2=fd.drop n
  | .append s => (b.append s).contents=b.contents++s
  | .consume amount => (b.consume amount).contents=b.contents.drop amount.toNat
  | .trimTo newLength => (b.trimTo newLength).contents=b.contents.take newLength.toNat
  | .reset => b.reset.contents=[]

/-- The states that the operations lead to -/
inductive Reached : Cpbuffer size → Prop
  | start (buf : Nat → UInt8) : Reached ⟨buf,0,0⟩
  | op {b : Cpbuffer size} {o : Op} : Reached b → Allowed b o → Reached (b.run o)

/-- Each operation keeps the index in the memory and does what it does to a queue. -/
theorem run_spec (hpos : 0< size.toNat) (hs : size.toNat≤ 2^31) {b : Cpbuffer size} (h : b.toRing.Ok)
    {o : Op} (ho : b.Allowed o) : (b.run o).toRing.Ok ∧ b.Effect o := by
  cases o with
  | fill fd limit read =>
    obtain ⟨n,hn,hok,hcon,hrest,-,-⟩ := fill_spec h hs fd limit read
    exact ⟨hok,n,hn,hcon,hrest⟩
  | fillTo rlength fd reads =>
    obtain ⟨n,hn,hok,hcon,hrest⟩ := fillTo_spec h hs rlength fd reads
    exact ⟨hok,n,hn,hcon,hrest⟩
  | append s =>
    have hring := toRing_append h hs (s := s) ho
    obtain ⟨hok,hcon⟩ := Ring.contents_append h (show b.toRing.len+s.length≤ size.toNat from ho)
    have hok' : (b.append s).toRing.Ok := by
      rw [hring]
      exact hok
    refine ⟨hok',?_⟩
    show (b.append s).contents=_
    rw [contents_toRing hok',hring,hcon,contents_toRing h]
  | consume amount =>
    have hle : amount.toNat≤ b.toRing.len := UInt32.le_iff_toNat_le.mp ho
    have hok' : (b.consume amount).toRing.Ok := by
      rw [toRing_consume]
      exact (Ring.ok_consume h hle hs).1
    refine ⟨hok',?_⟩
    show (b.consume amount).contents=_
    rw [contents_toRing hok',toRing_consume,Ring.contents_consume h hle hs,contents_toRing h]
  | trimTo newLength =>
    have hle : newLength.toNat≤ b.toRing.len := UInt32.le_iff_toNat_le.mp ho
    obtain ⟨hok,hcon⟩ := Ring.contents_trimTo h hle
    refine ⟨hok,?_⟩
    show (b.trimTo newLength).contents=_
    rw [contents_toRing (b := b.trimTo newLength) hok,toRing_trimTo,hcon,contents_toRing h]
  | reset => exact ⟨Ring.ok_reset (r := b.toRing) hpos,rfl⟩

theorem ok_reached (hpos : 0< size.toNat) (hs : size.toNat≤ 2^31) {b : Cpbuffer size} (h : Reached b) :
    b.toRing.Ok := by
  induction h with
  | start buf => exact ⟨hpos,Nat.zero_le _⟩
  | op _ ho ih => exact (run_spec hpos hs ih ho).1

/-- Up to a size of `2^31`, the buffer is a queue with a bound: in every state the index is in the
memory, the content fits, each operation has its effect, and a query sees the content. -/
theorem cpbuffer_queue (hpos : 0< size.toNat) (hs : size.toNat≤ 2^31) {b : Cpbuffer size}
    (h : Reached b) :
    b.curIdx< size ∧ b.contents.length≤ size.toNat ∧ (∀ o,b.Allowed o → b.Effect o) ∧
      (∀ i l : UInt32,i.toNat+l.toNat≤ b.contents.length →
        b.extract i l=(b.contents.drop i.toNat).take l.toNat ∧
        b.extractString i l=(b.contents.drop i.toNat).take l.toNat) ∧
      ∀ i : UInt32,i.toNat< b.contents.length →
        b.contents[i.toNat]?=some (b.at_ i) ∧
        b.InOnePiece i.toNat (b.getContiguousLength (b.getPtr i)).toNat ∧
        ∀ c,b.InOnePiece i.toNat c → c≤ (b.getContiguousLength (b.getPtr i)).toNat := by
  have hok := ok_reached hpos hs h
  have hlen := b.contents_length
  refine ⟨UInt32.lt_iff_toNat_lt.mpr hok.cur,?_,fun o ho => (run_spec hpos hs hok ho).2,?_,?_⟩
  · rw [hlen]
    exact hok.len
  · intro i l hl
    exact extract_spec hok hs (by omega)
  · intro i hi
    have hlt : i< b.length := UInt32.lt_iff_toNat_lt.mpr (by omega)
    exact ⟨at_spec hok hs hlt,contiguous_spec hok hs hlt⟩

/-- Four bytes of memory, with a content that goes around the end -/
theorem cpbuffer_queue_wrapped :
    Effect ((((⟨fun _ => 0,0,0⟩ : Cpbuffer 4).append [1,2,3]).consume 2).append [4,5]) (.append [6]) := by
  have hfirst : Reached ((⟨fun _ => 0,0,0⟩ : Cpbuffer 4).append [1,2,3]) :=
    .op (o := .append [1,2,3]) (.start _) (by decide)
  have hsecond : Reached (((⟨fun _ => 0,0,0⟩ : Cpbuffer 4).append [1,2,3]).consume 2) :=
    .op (o := .consume 2) hfirst (by decide)
  have hthird : Reached ((((⟨fun _ => 0,0,0⟩ : Cpbuffer 4).append [1,2,3]).consume 2).append [4,5]) :=
    .op (o := .append [4,5]) hsecond (by decide)
  obtain ⟨-,-,heffect,-⟩ := cpbuffer_queue (by decide) (by decide) hthird
  exact heffect (.append [6]) (by decide)

theorem append_curIdx (b : Cpbuffer size) (s : List UInt8) : (b.append s).curIdx=b.curIdx := rfl

section
variable (mem : Nat → UInt8)

/-- A buffer of the greatest size that has been filled but for one byte -/
def nearlyFull : Cpbuffer 4294967295 :=
  (⟨mem,0,0⟩ : Cpbuffer 4294967295).append (List.replicate 4294967294 0)

def drained : Cpbuffer 4294967295 := (nearlyFull mem).consume 4294967294

/-- Two bytes that go around the end of the memory -/
def atEnd : Cpbuffer 4294967295 := (drained mem).append [1,2]

theorem nearlyFull_index : (nearlyFull mem).curIdx=0 ∧ (nearlyFull mem).length=4294967294 := by
  unfold nearlyFull append
  dsimp only
  rw [List.length_replicate]
  decide

theorem drained_index : (drained mem).curIdx=4294967294 ∧ (drained mem).length=0 := by
  obtain ⟨hcur,hlen⟩ := nearlyFull_index mem
  unfold drained consume
  dsimp only
  rw [hcur,hlen]
  decide

theorem atEnd_index : (atEnd mem).curIdx=4294967294 ∧ (atEnd mem).length=2 := by
  obtain ⟨hcur,hlen⟩ := drained_index mem
  unfold atEnd append
  dsimp only
  rw [hcur,hlen]
  decide

/-- The second of the bytes is at the start of the memory. -/
theorem atEnd_buf : (atEnd mem).buf 0=2 := by
  obtain ⟨hcur,hlen⟩ := drained_index mem
  have hindex : wrap 4294967295 (4294967294+0)=4294967294 := by decide
  unfold atEnd append
  dsimp only
  rw [hcur,hlen,hindex]
  rfl

theorem atEnd_append_buf : ((atEnd mem).append [3]).buf 0=3 := by
  obtain ⟨hcur,hlen⟩ := atEnd_index mem
  have hindex : wrap 4294967295 (4294967294+2)=0 := by decide
  unfold append
  dsimp only
  rw [hcur,hlen,hindex]
  rfl

theorem atEnd_reached : Reached (atEnd mem) := by
  have hfull : Reached (nearlyFull mem) := by
    refine .op (o := .append (List.replicate 4294967294 0)) (.start mem) ?_
    show 0+_≤ _
    rw [List.length_replicate]
    decide
  have hdrained : Reached (drained mem) := by
    refine .op (o := .consume 4294967294) hfull ?_
    show _≤ _
    rw [(nearlyFull_index mem).2]
    decide
  refine .op (o := .append [1,2]) hdrained ?_
  show _+2≤ _
  rw [(drained_index mem).2]
  decide

/-- With the greatest size, what is added goes over the last byte of the content: the sum of the
index and the length is past `2^32`. -/
theorem index_overflow : Reached (atEnd fun _ => 0) ∧ Allowed (atEnd fun _ => 0) (.append [3]) ∧
    ¬Effect (atEnd fun _ => 0) (.append [3]) := by
  obtain ⟨hcur,hlen⟩ := atEnd_index fun _ => 0
  refine ⟨atEnd_reached _,?_,fun heffect => ?_⟩
  · show (atEnd fun _ => 0).length.toNat+[(3 : UInt8)].length≤ _
    rw [hlen]
    decide
  · have hmod : ((4294967294 : UInt32).toNat+1)%(4294967295 : UInt32).toNat=0 := by decide
    have hbefore : (atEnd fun _ => 0).contents[1]?=some 2 := by
      rw [contents_getElem? (by rw [hlen]; decide),hcur,hmod,atEnd_buf]
    have hafter : ((atEnd fun _ => 0).append [3]).contents[1]?=some 3 := by
      have hcur' := hcur
      rw [← append_curIdx _ [3]] at hcur'
      have hlen' : ((atEnd fun _ => 0).append [3]).length=3 := by
        unfold append
        dsimp only
        rw [hlen]
        decide
      rw [contents_getElem? (by rw [hlen']; decide),hcur',hmod,atEnd_append_buf]
    have heq : ((atEnd fun _ => 0).append [3]).contents=(atEnd fun _ => 0).contents++[3] := heffect
    rw [heq,List.getElem?_append_left (by rw [contents_length,hlen]; decide),hbefore] at hafter
    exact absurd hafter (by decide)

end

end Cpbuffer

end Dinit
