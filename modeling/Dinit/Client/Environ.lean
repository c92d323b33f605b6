import Dinit.Client.Decode
import Dinit.Control.Environment

namespace Dinit

open Framework Framework.Reader

namespace Client

/-- The first nul byte among the `n` bytes from the byte `i` on -/
def findNul (i : Nat) : Nat → Client (Option Nat)
  | 0 => pure none
  | n+1 => do
    let x ← byteAt i
    if x=0 then pure (some i) else findNul (i+1) n

/-- The loop of `get_remote_env`. In a turn of it a byte is taken, or one is read. -/
def envLoop : Nat → Nat → List UInt8 → Environment → Client Environment
  | 0,_,_,_ => throw .read
  | fuel+1,dataSize,envVar,menv => do
    let contigLen ← contiguousLength 0
    let checkLen := min contigLen dataSize
    match ← findNul 0 checkLen with
    | some i => do
      let portion ← sliceAt 0 i
      consume (i+1)
      let menv := menv.setVar (envVar++portion)
      if dataSize-(i+1)=0 then pure menv
      else envLoop fuel (dataSize-(i+1)) [] menv
    | none => do
      let portion ← sliceAt 0 checkLen
      consume checkLen
      if dataSize-checkLen=0 then throw .protocol
      else do
        fillEmpty
        envLoop fuel (dataSize-checkLen) (envVar++portion) menv

/-- `get_remote_env`, from the reply on -/
def getRemoteEnv (menv : Environment) : Client Environment := do
  waitForReply
  let replyPktH ← byteAt 0
  if replyPktH=78 then do
    tryFillTo 9
    let dataSize ← Reader.extract 1 8
    consume 9
    if native dataSize=0 then pure menv
    else do
      fillEmpty
      loop fun fuel => envLoop (2*fuel) (native dataSize) [] menv
  else throw .protocol

section
variable {L M u : List UInt8} {k fuel : Nat} {b : Buffered UInt8 1024} {ss : List (List UInt8)}
  {envVar : List UInt8} {menv : Environment}

/-- Without a nul byte in the rest of a variable, the first is the one behind it. -/
theorem findNul_run {i n : Nat} (hb : b.At L k) (hL : L.drop i=u++0::M) (hu : 0 ∉ u)
    (hn : i+n≤ b.ring.len) :
    findNul i n b=(.ok (if u.length<n then some (i+u.length) else none),b) := by
  induction n generalizing i u with
  | zero => rfl
  | succ n ih =>
    cases u with
    | nil =>
      have hx : L[i]?=some 0 := by
        have h := congrArg List.head? hL
        rwa [List.head?_drop] at h
      rw [findNul,bind_ok (byteAt_run hb (by omega) hx),if_pos rfl,List.length_nil,
        if_pos (Nat.succ_pos n)]
      rfl
    | cons x u =>
      have hx : L[i]?=some x := by
        have h := congrArg List.head? hL
        rwa [List.head?_drop] at h
      have hd : L.drop (i+1)=u++0::M := by
        rw [← List.drop_drop,hL]
        rfl
      have h0 : x≠0 := fun h => hu (h ▸ List.mem_cons_self)
      rw [findNul,bind_ok (byteAt_run hb (by omega) hx),if_neg h0,
        ih hd (fun h => hu (List.mem_cons_of_mem x h)) (by omega),List.length_cons]
      by_cases h : u.length<n
      · rw [if_pos h,if_pos (by omega),Nat.add_assoc,Nat.add_comm 1]
      · rw [if_neg h,if_neg (by omega)]

theorem contiguousLength_zero (h : b.ring.len=0) :
    b.ring.contiguousLength (b.ring.ptr 0)=0 := if_pos h

variable (envVar menv) in
/-- The variables are put together and set one after another, wherever the reads end. -/
theorem envLoop_run (hu : 0 ∉ u) (hss : ∀ s ∈ ss,0 ∉ s) (hb : b.At (u++0::(envBytes ss++M)) 0)
    (hf : 2*(u.length+1+(envBytes ss).length)≤ fuel+min 1 b.ring.len) :
    Ends (envLoop fuel (u.length+1+(envBytes ss).length) envVar menv) b
      (.ok (ss.foldl Environment.setVar (menv.setVar (envVar++u)))) M := by
  induction fuel generalizing b u ss envVar menv with
  | zero => omega
  | succ fuel ih =>
    have hlen := hb.length
    simp only [List.length_append,List.length_cons] at hlen
    have hcle : b.ring.contiguousLength (b.ring.ptr 0)≤ b.ring.len := by
      by_cases h0 : b.ring.len=0
      · rw [contiguousLength_zero h0]
        exact Nat.zero_le _
      · have hle := Ring.contiguous_le hb.ok (i := 0) (by omega)
        omega
    have hcpos : min 1 b.ring.len≤ b.ring.contiguousLength (b.ring.ptr 0) := by
      by_cases h0 : b.ring.len=0
      · omega
      · have hpos := Ring.contiguous_pos hb.ok (i := 0) (by omega)
        omega
    unfold Ends
    rw [envLoop,contiguousLength_bind]
    generalize hc : b.ring.contiguousLength (b.ring.ptr 0)=c at *
    generalize hds : u.length+1+(envBytes ss).length=ds at *
    generalize hx : min c ds=x
    have hfind := findNul_run (i := 0) (n := x) hb rfl hu (by omega)
    rw [bind_ok hfind,Nat.zero_add]
    by_cases hux : u.length<x
    · rw [if_pos hux]
      simp only
      have hslice := sliceAt_run (ε := ClientError) (i := 0) hb (l := u.length) (by omega) (by omega)
      rw [List.drop_zero,List.take_left] at hslice
      have hcons := At_consume (by decide) hb (a := u.length+1) (by omega)
      have hdrop : (u++0::(envBytes ss++M)).drop (u.length+1)=envBytes ss++M := by
        rw [← List.drop_drop,List.drop_left]
        rfl
      rw [hdrop] at hcons
      rw [bind_ok hslice]
      show Ends (if ds-(u.length+1)=0 then pure (menv.setVar (envVar++u))
        else envLoop fuel (ds-(u.length+1)) [] (menv.setVar (envVar++u))) _ _ M
      have hsub : ds-(u.length+1)=(envBytes ss).length := by omega
      rw [hsub]
      cases ss with
      | nil => exact ⟨_,rfl,hcons.mono (Nat.zero_le _)⟩
      | cons s ss =>
        have hbytes : envBytes (s::ss)=s++0::envBytes ss := by simp [envBytes]
        have hsize : (envBytes (s::ss)).length=s.length+1+(envBytes ss).length := by
          rw [hbytes,List.length_append,List.length_cons]
          omega
        rw [hbytes,List.append_assoc,List.cons_append] at hcons
        rw [hsize,if_neg (by omega)]
        have hfuel : 2*(s.length+1+(envBytes ss).length)≤ fuel := by omega
        exact ih [] (menv.setVar (envVar++u)) (hss s List.mem_cons_self) (fun t ht => hss t (List.mem_cons_of_mem s ht))
          (hcons.mono (Nat.zero_le _)) (hfuel.trans (Nat.le_add_right _ _))
    · rw [if_neg hux]
      simp only
      obtain ⟨b1,he1,hb1,-⟩ := piece_eq (by decide) hb (l := x) (by omega) (by omega)
      have hxu : x≤ u.length := by omega
      rw [List.drop_append_of_le_length hxu] at hb1
      obtain ⟨b2,he2,hb2⟩ := gives_fillEmpty (by simp) b1 hb1
      rw [he1,if_neg (by omega),bind_ok he2,List.take_append_of_le_length hxu]
      have hlen2 := hb2.len
      have hsub : ds-x=(u.drop x).length+1+(envBytes ss).length := by
        rw [List.length_drop]
        omega
      rw [hsub]
      have hi := ih (envVar++u.take x) menv
        (fun h => hu (List.mem_of_mem_drop h)) hss (hb2.mono (Nat.zero_le _))
        (by rw [List.length_drop]; omega)
      rw [List.append_assoc,List.take_append_drop] at hi
      exact hi

theorem getRemoteEnv_run (hss : ∀ s ∈ ss,0 ∉ s) (hsize : (envBytes ss).length<2^64)
    (hb : b.At (78::(nativeBytes 8 (envBytes ss).length++(envBytes ss++M))) k) :
    Ends (getRemoteEnv menv) b (.ok (ss.foldl Environment.setVar menv)) M := by
  have hnat : native (nativeBytes 8 (envBytes ss).length)=(envBytes ss).length := by
    rw [native_nativeBytes]
    exact Nat.mod_eq_of_lt hsize
  obtain ⟨b1,he1,hb1⟩ := waitForReply_none (by decide) b hb
  have he2 := byteAt_run (ε := ClientError) hb1 hb1.len (x := 78) rfl
  obtain ⟨b3,he3,hb3⟩ := gives_tryFillTo (ε := ClientError) (n := 9) (by decide)
    (by simp [nativeBytes_length]) b1 hb1
  have he4 := extract_run (ε := ClientError) hb3 (i := 1) (l := 8) hb3.len
  obtain ⟨b5,he5,hb5⟩ := gives_consume (ε := ClientError) (by decide) (a := 9) (by decide) b3 hb3
  have hb5' : b5.At (envBytes ss++M) 0 := hb5.mono (Nat.zero_le _)
  unfold Ends
  rw [getRemoteEnv,bind_ok he1,bind_ok he2,if_pos rfl,bind_ok he3,bind_ok he4,bind_ok he5]
  show Ends (if native (nativeBytes 8 (envBytes ss).length)=0 then pure menv else do
    fillEmpty
    loop fun fuel => envLoop (2*fuel) (native (nativeBytes 8 (envBytes ss).length)) [] menv) b5 _ M
  rw [hnat]
  cases ss with
  | nil => exact ⟨b5,rfl,hb5'⟩
  | cons s ss =>
    have hbytes : envBytes (s::ss)=s++0::envBytes ss := by simp [envBytes]
    have hlen : (envBytes (s::ss)).length=s.length+1+(envBytes ss).length := by
      rw [hbytes,List.length_append,List.length_cons]
      omega
    rw [hbytes,List.append_assoc,List.cons_append] at hb5'
    obtain ⟨b6,he6,hb6⟩ := gives_fillEmpty (by simp) b5 hb5'
    have hl6 := hb6.length
    simp only [List.length_append,List.length_cons] at hl6
    unfold Ends
    rw [hlen,if_neg (by omega),bind_ok he6]
    refine envLoop_run _ _ (hss s List.mem_cons_self) (fun t ht => hss t (List.mem_cons_of_mem s ht))
      (hb6.mono (Nat.zero_le _)) ?_
    rw [hb6.stream,List.length_append,List.length_cons,List.length_append]
    omega

end

end Client

end Dinit
