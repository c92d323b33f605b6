import Dinit.Control.Reply
import Mathlib.Data.List.TakeWhile

namespace Dinit

/-- A string that ends at its nul byte, which is left out -/
structure CString where
  bytes : List UInt8
  no_nul : 0∉bytes

/-- What is a C string at the start of the bytes -/
def cStr (s : List UInt8) : List UInt8 := s.takeWhile (·!=0)

theorem cStr_eq {s : List UInt8} (h : 0∉s) : cStr s=s := by
  refine List.takeWhile_eq_self_iff.mpr fun c hc => ?_
  simp only [bne_iff_ne,ne_eq]
  rintro rfl
  exact h hc

/-- `PATH_MAX` on Linux -/
def pathMax : Nat := 4096

/-- `getcwd`: the working directory with its nul byte has to fit. There is none if the directory
cannot be found. -/
def getcwd (cwd : Option CString) (size : Nat) : Option CString :=
  cwd.filter fun wd => wd.bytes.length< size

/-- The loop that doubles the size until the working directory fits, and ends before it is no longer
a number of 32 bits -/
def getcwdLoop (cwd : Option CString) : Nat → Nat → Option CString
  | 0,_ => none
  | fuel+1,tryPathSize =>
    match getcwd cwd tryPathSize with
    | some wd => some wd
    | none =>
      let newTryPathSize := tryPathSize*2%2^32
      if newTryPathSize< tryPathSize then none else getcwdLoop cwd fuel newTryPathSize

/-- A string behind its length, as far as the length says -/
def sizedString (s : CString) : List UInt8 :=
  nativeBytes 4 s.bytes.length++s.bytes.take (s.bytes.length%2^32)

/-- `query_load_mech`: the reply. A loader that looks in directories has the type 1. -/
def queryLoadMech (setTypeId : Nat) (cwd : Option CString) (dirs : List CString) : List UInt8 :=
  if setTypeId=1 then
    match getcwdLoop cwd 32 pathMax with
    | none => [51]
    | some wd =>
      let sdirs := dirs.length%2^32
      let behind := sizedString wd++(dirs.take sdirs).flatMap sizedString
      64::1::(nativeBytes 4 (10+behind.length)++(nativeBytes 4 sdirs++behind))
  else [51]

/-- Doubling goes on until there is room, which there is for less than half of what 32 bits count. -/
theorem getcwdLoop_fits {wd : CString} (h : wd.bytes.length< 2^31) (fuel : Nat) {k : Nat} (hk : k≤ 31)
    (hf : 31-k< fuel) : getcwdLoop (some wd) fuel (2^k)=some wd := by
  induction fuel generalizing k with
  | zero => omega
  | succ fuel ih =>
    rw [getcwdLoop]
    by_cases hfit : wd.bytes.length< 2^k
    · have hsome : getcwd (some wd) (2^k)=some wd := if_pos (decide_eq_true hfit)
      rw [hsome]
    · have hlt : k< 31 := by
        by_contra hge
        rw [show k=31 by omega] at hfit
        exact hfit h
      have hpow : 2^k*2%2^32=2^(k+1) := by
        rw [← Nat.pow_succ]
        exact Nat.mod_eq_of_lt (Nat.pow_lt_pow_right (by decide) (by omega))
      have hmore : ¬2^(k+1)< 2^k := Nat.not_lt.mpr (Nat.pow_le_pow_right (by decide) (Nat.le_succ k))
      have hnone : getcwd (some wd) (2^k)=none :=
        if_neg (by rw [decide_eq_true_eq]; exact hfit)
      rw [hnone]
      dsimp only
      rw [hpow,if_neg hmore]
      exact ih (by omega) (by omega)

/-- Without room the loop ends when the size is no longer a number of 32 bits. -/
theorem getcwdLoop_none {wd : CString} (h : 2^31≤ wd.bytes.length) (fuel : Nat) {k : Nat}
    (hk : k≤ 31) : getcwdLoop (some wd) fuel (2^k)=none := by
  induction fuel generalizing k with
  | zero => rfl
  | succ fuel ih =>
    have hle : 2^k≤ 2^31 := Nat.pow_le_pow_right (by decide) hk
    have hnone : getcwd (some wd) (2^k)=none :=
      if_neg (by rw [decide_eq_true_eq]; omega)
    rw [getcwdLoop,hnone]
    dsimp only
    by_cases hlt : k< 31
    · have hpow : 2^k*2%2^32=2^(k+1) := by
        rw [← Nat.pow_succ]
        exact Nat.mod_eq_of_lt (Nat.pow_lt_pow_right (by decide) (by omega))
      have hmore : ¬2^(k+1)< 2^k := Nat.not_lt.mpr (Nat.pow_le_pow_right (by decide) (Nat.le_succ k))
      rw [hpow,if_neg hmore]
      exact ih (by omega)
    · rw [show k=31 by omega]
      exact if_pos (by decide)

theorem queryLoadMech_nak {wd : CString} (h : 2^31≤ wd.bytes.length) (dirs : List CString) :
    queryLoadMech 1 (some wd) dirs=[51] := by
  have hroom : getcwdLoop (some wd) 32 pathMax=none := getcwdLoop_none h 32 (k := 12) (by decide)
  rw [queryLoadMech,if_pos rfl,hroom]

theorem queryLoadMech_fits {wd : CString} (h : wd.bytes.length< 2^31) (dirs : List CString) :
    queryLoadMech 1 (some wd) dirs=
      let behind := sizedString wd++(dirs.take (dirs.length%2^32)).flatMap sizedString
      64::1::(nativeBytes 4 (10+behind.length)++(nativeBytes 4 (dirs.length%2^32)++behind)) := by
  have hroom : getcwdLoop (some wd) 32 pathMax=some wd :=
    getcwdLoop_fits h 32 (k := 12) (by decide) (by decide)
  rw [queryLoadMech,if_pos rfl,hroom]

theorem sizedString_eq {s : CString} (h : s.bytes.length< 2^32) :
    sizedString s=nativeBytes 4 s.bytes.length++s.bytes := by
  rw [sizedString,Nat.mod_eq_of_lt h,List.take_length]

end Dinit
