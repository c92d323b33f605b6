import Dinit.EventLoop.TimeVal
import Dinit.Framework.Division

namespace Dinit.TimeVal

open Framework Division

def toNs (t : TimeVal) : Int := t.sec*1000000000+t.nsec

/-- A time that is not negative, with less than a second of nanoseconds. -/
structure Normal (t : TimeVal) : Prop where
  sec : 0≤t.sec
  nsec : 0≤t.nsec
  lt : t.nsec<1000000000

variable {s t d r num den : TimeVal}

theorem Normal.nonneg (h : t.Normal) : 0≤t.toNs := by
  have := h.sec
  have := h.nsec
  unfold toNs
  omega

theorem Normal.lt_iff (hs : s.Normal) (ht : t.Normal) : s<t ↔ s.toNs<t.toNs := by
  obtain ⟨h1,h2,h3⟩ := hs
  obtain ⟨h4,h5,h6⟩ := ht
  rw [TimeVal.lt_iff,toNs,toNs]
  omega

theorem Normal.le_iff (hs : s.Normal) (ht : t.Normal) : s≤t ↔ s.toNs≤t.toNs := by
  rw [← not_lt,ht.lt_iff hs,not_lt]

theorem Normal.sub (hs : s.Normal) (ht : t.Normal) (h : t≤ s) : (s.sub t).Normal := by
  have hle := (ht.le_iff hs).mp h
  obtain ⟨h1,h2,h3⟩ := hs
  obtain ⟨h4,h5,h6⟩ := ht
  unfold toNs at hle
  unfold TimeVal.sub
  split_ifs <;> constructor <;> dsimp only <;> omega

theorem Normal.add (hs : s.Normal) (ht : t.Normal) : (s.add t).Normal := by
  obtain ⟨h1,h2,h3⟩ := hs
  obtain ⟨h4,h5,h6⟩ := ht
  unfold TimeVal.add
  split_ifs <;> constructor <;> dsimp only <;> omega

theorem Normal.double (h : t.Normal) : t.double.Normal := by
  obtain ⟨h1,h2,h3⟩ := h
  unfold TimeVal.double
  split_ifs <;> constructor <;> dsimp only <;> omega

theorem Normal.halve (h : t.Normal) : t.halve.Normal := by
  obtain ⟨h1,h2,h3⟩ := h
  unfold TimeVal.halve
  rw [Int.tdiv_eq_ediv_of_nonneg h1,Int.tdiv_eq_ediv_of_nonneg h2]
  split_ifs <;> constructor <;> dsimp only <;> omega

end Dinit.TimeVal
