import Mathlib.Algebra.GroupWithZero.Nat
import Mathlib.Data.List.Basic

namespace Dinit.Framework

/-- A circular buffer of fixed size: `len` elements from the index `cur` on. -/
structure Ring (β : Type) (size : Nat) where
  buf : Nat → β
  cur : Nat
  len : Nat

namespace Ring

variable {β : Type} {size : Nat}

/-- An index past the end goes on from the start. -/
def wrap (size p : Nat) : Nat := if size≤ p then p-size else p

/-- Where the element `i` is. -/
def ptr (r : Ring β size) (i : Nat) : Nat := wrap size (r.cur+i)

def get (r : Ring β size) (i : Nat) : β := r.buf (r.ptr i)

/-- The elements, in order. -/
def contents (r : Ring β size) : List β := (List.range r.len).map r.get

/-- The memory from `p` on. -/
def slice (r : Ring β size) (p l : Nat) : List β := (List.range l).map fun j => r.buf (p+j)

/-- How many elements can be added in one piece. -/
def room (r : Ring β size) : Nat := min (size-r.ptr r.len) (size-r.len)

/-- Add elements in one piece. -/
def store (r : Ring β size) (data : List β) : Ring β size :=
  { r with
    buf := fun p => if r.ptr r.len≤ p then data.getD (p-r.ptr r.len) (r.buf p) else r.buf p
    len := r.len+data.length }

/-- Remove elements from the start. The index and the length are 32-bit numbers, and taken off
is whatever is asked for. -/
def consume (r : Ring β size) (amount : Nat) : Ring β size :=
  { r with
    cur := wrap size ((r.cur+amount)%2^32)
    len := (r.len+2^32-amount%2^32)%2^32 }

/-- Copy elements, in two pieces if they go past the end of the memory. -/
def extract (r : Ring β size) (index length : Nat) : List β :=
  let p := r.ptr index
  if size<p+length then r.slice p (size-p)++r.slice 0 (length-(size-p)) else r.slice p length

/-- How many elements are in one piece from the place `p` on. -/
def contiguousLength (r : Ring β size) (p : Nat) : Nat :=
  if r.len=0 then 0
  else if p< r.ptr r.len then r.ptr r.len-p
  else size-p

/-- Add elements, in two pieces if they go past the end of the memory. -/
def append (r : Ring β size) (data : List β) : Ring β size :=
  let maxLen := size-r.ptr r.len
  let r1 := r.store (data.take maxLen)
  if maxLen< data.length then r1.store (data.drop maxLen) else r1

/-- Keep as many elements. -/
def trimTo (r : Ring β size) (newLength : Nat) : Ring β size := { r with len := newLength }

/-- The buffer without anything in it. -/
def reset (r : Ring β size) : Ring β size := { r with cur := 0, len := 0 }

structure Ok (r : Ring β size) : Prop where
  cur : r.cur<size
  len : r.len≤ size

section
variable {r : Ring β size}

theorem contents_length : r.contents.length=r.len := by simp [contents]

theorem contents_getElem? (i : Nat) (h : i< r.len) : r.contents[i]?=some (r.get i) := by
  simp [contents,h]

theorem slice_length (p l : Nat) : (r.slice p l).length=l := by simp [slice]

theorem ptr_cases (r : Ring β size) (i : Nat) :
    size≤ r.cur+i ∧ r.ptr i+size=r.cur+i ∨ r.cur+i<size ∧ r.ptr i=r.cur+i := by
  unfold ptr wrap
  split <;> omega

theorem ptr_lt (h : r.Ok) {i : Nat} (hi : i≤ size) : r.ptr i<size := by
  have hc := h.cur
  have hp := r.ptr_cases i
  omega

/-- A slice whose elements lie one after another. -/
theorem slice_eq {i l p : Nat} (hl : i+l≤ r.len) (h : ∀ j<l,r.ptr (i+j)=p+j) :
    r.slice p l=(r.contents.drop i).take l := by
  apply List.ext_getElem?
  intro j
  by_cases hj : j<l
  · rw [List.getElem?_take_of_lt hj,List.getElem?_drop,contents_getElem? _ (by omega)]
    simp [slice,hj,get,h j hj]
  · rw [List.getElem?_eq_none (by rw [slice_length]; omega),List.getElem?_eq_none]
    rw [List.length_take]
    omega

theorem extract_eq (h : r.Ok) {i l : Nat} (hl : i+l≤ r.len) :
    r.extract i l=(r.contents.drop i).take l := by
  have hc := h.cur
  have hlen := h.len
  have hp := r.ptr_cases i
  unfold extract
  simp only
  split
  · have h1 : r.slice (r.ptr i) (size-r.ptr i)=(r.contents.drop i).take (size-r.ptr i) := by
      refine slice_eq (by omega) fun j hj => ?_
      have hq := r.ptr_cases (i+j)
      omega
    have h2 : r.slice 0 (l-(size-r.ptr i))=
        (r.contents.drop (i+(size-r.ptr i))).take (l-(size-r.ptr i)) := by
      refine slice_eq (by omega) fun j hj => ?_
      have hq := r.ptr_cases (i+(size-r.ptr i)+j)
      omega
    rw [h1,h2,← List.drop_drop,← List.take_add,Nat.add_sub_cancel' (by omega)]
  · refine slice_eq hl fun j hj => ?_
    have hq := r.ptr_cases (i+j)
    omega

theorem contiguous_cases (h : r.Ok) {i : Nat} (hi : i< r.len) :
    r.ptr i< r.ptr r.len ∧ r.ptr i+r.contiguousLength (r.ptr i)=r.ptr r.len ∨
    r.ptr r.len≤ r.ptr i ∧ r.ptr i+r.contiguousLength (r.ptr i)=size := by
  have hlen := h.len
  have hp := ptr_lt h (i := i) (by omega)
  unfold contiguousLength
  rw [if_neg (by omega)]
  split <;> omega

theorem contiguous_le (h : r.Ok) {i : Nat} (hi : i< r.len) :
    i+r.contiguousLength (r.ptr i)≤ r.len := by
  have hc := h.cur
  have hlen := h.len
  have hp := r.ptr_cases i
  have hq := r.ptr_cases r.len
  have hcon := contiguous_cases h hi
  omega

theorem contiguous_pos (h : r.Ok) {i : Nat} (hi : i< r.len) :
    0< r.contiguousLength (r.ptr i) := by
  have hlen := h.len
  have hp := ptr_lt h (i := i) (by omega)
  have hcon := contiguous_cases h hi
  omega

/-- From the place of an element on, the elements are in one piece as far as it says. -/
theorem slice_contiguous (h : r.Ok) {i l : Nat} (hl : i+l≤ r.len)
    (hc : l≤ r.contiguousLength (r.ptr i)) :
    r.slice (r.ptr i) l=(r.contents.drop i).take l := by
  have hcur := h.cur
  have hlen := h.len
  have hp := r.ptr_cases i
  have hn := r.ptr_cases r.len
  refine slice_eq hl fun j hj => ?_
  have hq := r.ptr_cases (i+j)
  have hcon := contiguous_cases h (i := i) (by omega)
  omega

/-- What comes after the piece is at the start of the memory. -/
theorem slice_wrapped (h : r.Ok) {i l : Nat} (hi : i< r.len)
    (hl : i+r.contiguousLength (r.ptr i)+l≤ r.len) :
    r.slice 0 l=(r.contents.drop (i+r.contiguousLength (r.ptr i))).take l := by
  have hcur := h.cur
  have hlen := h.len
  have hp := r.ptr_cases i
  have hn := r.ptr_cases r.len
  have hcon := contiguous_cases h hi
  refine slice_eq hl fun j hj => ?_
  have hq := r.ptr_cases (i+r.contiguousLength (r.ptr i)+j)
  omega

theorem consume_cur (h : r.Ok) {a : Nat} (ha : a≤ r.len) (hs : size≤ 2^31) :
    (r.consume a).cur=r.ptr a := by
  have hcur := h.cur
  have hlen := h.len
  show wrap size ((r.cur+a)%2^32)=_
  rw [Nat.mod_eq_of_lt (by omega)]
  rfl

theorem ok_consume (h : r.Ok) {a : Nat} (ha : a≤ r.len) (hs : size≤ 2^31) :
    (r.consume a).Ok ∧ (r.consume a).len=r.len-a := by
  have hlen := h.len
  have hl : (r.consume a).len=r.len-a := by
    show (r.len+2^32-a%2^32)%2^32=_
    rw [Nat.mod_eq_of_lt (show a<2^32 by omega)]
    omega
  refine ⟨⟨?_,by omega⟩,hl⟩
  rw [consume_cur h ha hs]
  exact ptr_lt h (by omega)

theorem contents_consume (h : r.Ok) {a : Nat} (ha : a≤ r.len) (hs : size≤ 2^31) :
    (r.consume a).contents=r.contents.drop a := by
  have hcur := h.cur
  have hlen := h.len
  obtain ⟨-,hl⟩ := ok_consume h ha hs
  apply List.ext_getElem?
  intro i
  rw [List.getElem?_drop]
  by_cases hi : i< r.len-a
  · rw [contents_getElem? _ (by omega),contents_getElem? _ (by omega)]
    have hp : (r.consume a).ptr i=r.ptr (a+i) := by
      have h1 := (r.consume a).ptr_cases i
      have h2 := r.ptr_cases (a+i)
      have h3 := r.ptr_cases a
      have h4 := consume_cur h ha hs
      omega
    show some (r.buf ((r.consume a).ptr i))=some (r.buf (r.ptr (a+i)))
    rw [hp]
  · rw [List.getElem?_eq_none (by rw [contents_length]; omega),
      List.getElem?_eq_none (by rw [contents_length]; omega)]

/-- From the start of the memory on, all elements are in one piece. -/
theorem contiguous_whole (h : r.Ok) (hc : r.cur=0) (hl : 0< r.len) :
    r.contiguousLength (r.ptr 0)=r.len := by
  have hlen := h.len
  have hp := r.ptr_cases 0
  have hn := r.ptr_cases r.len
  have hcon := contiguous_cases h hl
  omega

/-- When a piece has been taken, what was behind it is in one piece. -/
theorem contiguous_consume (h : r.Ok) (hl : 0< r.len) (hs : size≤ 2^31)
    (hc : r.contiguousLength (r.ptr 0)< r.len) :
    (r.consume (r.contiguousLength (r.ptr 0))).contiguousLength
      ((r.consume (r.contiguousLength (r.ptr 0))).ptr 0)=r.len-r.contiguousLength (r.ptr 0) := by
  have hcur := h.cur
  have hlen := h.len
  have hle := contiguous_le h hl
  obtain ⟨hok,hl'⟩ := ok_consume h (Nat.le_of_lt hc) hs
  have hcur' := consume_cur h (Nat.le_of_lt hc) hs
  have hp := r.ptr_cases 0
  have hn := r.ptr_cases r.len
  have hp' := r.ptr_cases (r.contiguousLength (r.ptr 0))
  have hcon := contiguous_cases h hl
  have hcon' := contiguous_cases hok (i := 0) (by omega)
  have hq := (r.consume (r.contiguousLength (r.ptr 0))).ptr_cases 0
  have hq' := (r.consume (r.contiguousLength (r.ptr 0))).ptr_cases
    (r.consume (r.contiguousLength (r.ptr 0))).len
  omega

theorem ok_store (h : r.Ok) {data : List β} (hd : data.length≤ r.room) : (r.store data).Ok := by
  have hlen := h.len
  have hr : data.length≤ size-r.len := Nat.le_trans hd (Nat.min_le_right _ _)
  exact ⟨h.cur,by simp only [store]; omega⟩

theorem contents_store (h : r.Ok) {data : List β} (hd : data.length≤ r.room) :
    (r.store data).contents=r.contents++data := by
  have hcur := h.cur
  have hlen := h.len
  have hr : data.length≤ size-r.len := Nat.le_trans hd (Nat.min_le_right _ _)
  have hr' : data.length≤ size-r.ptr r.len := Nat.le_trans hd (Nat.min_le_left _ _)
  have hn := r.ptr_cases r.len
  apply List.ext_getElem?
  intro i
  by_cases hi : i< r.len+data.length
  · rw [contents_getElem? i hi]
    have hp := r.ptr_cases i
    show some (if r.ptr r.len≤ r.ptr i then data.getD (r.ptr i-r.ptr r.len) (r.buf (r.ptr i))
      else r.buf (r.ptr i))=_
    by_cases hlt : i< r.len
    · rw [List.getElem?_append_left (by rw [contents_length]; exact hlt),contents_getElem? i hlt]
      split
      · rw [List.getD_eq_getElem?_getD,List.getElem?_eq_none (by omega)]
        rfl
      · rfl
    · rw [List.getElem?_append_right (by rw [contents_length]; omega),contents_length,
        if_pos (by omega)]
      have hk : r.ptr i-r.ptr r.len=i-r.len := by omega
      rw [hk,List.getD_eq_getElem?_getD,List.getElem?_eq_getElem (show i-r.len<data.length by omega),
        Option.getD_some]
  · rw [List.getElem?_eq_none (by rw [contents_length]; show _≤ i; simp only [store]; omega),
      List.getElem?_eq_none (by rw [List.length_append,contents_length]; omega)]

/-- What is added is behind what was there, if there is room for it. -/
theorem contents_append (h : r.Ok) {data : List β} (hd : r.len+data.length≤ size) :
    (r.append data).Ok ∧ (r.append data).contents=r.contents++data := by
  have hcur := h.cur
  have hp := r.ptr_cases r.len
  have hlt := ptr_lt h h.len
  have htake : (data.take (size-r.ptr r.len)).length≤ r.room := by
    unfold room
    rw [List.length_take]
    omega
  have h1 := ok_store h htake
  have hc1 := contents_store h htake
  unfold append
  dsimp only
  split
  · next hlong =>
    have hlen1 : (r.store (data.take (size-r.ptr r.len))).len=r.len+(size-r.ptr r.len) := by
      unfold store
      dsimp only
      rw [List.length_take]
      omega
    have hp1 := (r.store (data.take (size-r.ptr r.len))).ptr_cases
      (r.store (data.take (size-r.ptr r.len))).len
    have hcur1 : (r.store (data.take (size-r.ptr r.len))).cur=r.cur := rfl
    have hdrop : (data.drop (size-r.ptr r.len)).length
        ≤ (r.store (data.take (size-r.ptr r.len))).room := by
      unfold room
      rw [List.length_drop]
      omega
    refine ⟨ok_store h1 hdrop,?_⟩
    rw [contents_store h1 hdrop,hc1,List.append_assoc,List.take_append_drop]
  · next hshort =>
    rw [List.take_of_length_le (by omega)] at h1 hc1 ⊢
    exact ⟨h1,hc1⟩

theorem contents_trimTo (h : r.Ok) {n : Nat} (hn : n≤ r.len) :
    (r.trimTo n).Ok ∧ (r.trimTo n).contents=r.contents.take n := by
  refine ⟨⟨h.cur,Nat.le_trans hn h.len⟩,?_⟩
  unfold contents trimTo
  rw [← List.map_take,List.take_range,Nat.min_eq_left hn]
  rfl

theorem ok_reset (h : 0<size) : r.reset.Ok := ⟨h,Nat.zero_le _⟩

end

end Ring

end Dinit.Framework
