import Dinit.Client.Listing
import Dinit.Control.LoadMech

namespace Dinit

open Framework Framework.Reader

/-- `combine_paths` -/
def combinePaths (p1 p2 : List UInt8) : List UInt8 :=
  if p2=[] then p1
  else if p1=[] then p2
  else if p2.head?=some 47 then p2
  else if p1.getLast?=some 47 then p1++p2
  else p1++47::p2

theorem length_le_combinePaths (p1 p2 : List UInt8) : p2.length≤(combinePaths p1 p2).length := by
  unfold combinePaths
  split
  · simp_all
  split
  · exact le_refl _
  split
  · exact le_refl _
  split
  · simp
  · simp only [List.length_append,List.length_cons]; omega

namespace Client

/-- The directories, each of them in the working directory -/
def readPaths (dinitCwd : List UInt8) : Nat → Client (List (List UInt8))
  | 0 => pure []
  | n+1 => do
    fillBufferTo 4
    let plen ← Reader.extract 0 4
    consume 4
    let sdRelPath ← readString (native plen)
    let paths ← readPaths dinitCwd n
    pure (combinePaths dinitCwd (cStr sdRelPath)::paths)

/-- `get_service_description_dirs`, from the reply on. There is nothing when it throws
`dinit_unknown_sd_conf`. -/
def getServiceDescriptionDirs : Client (Option (List (List UInt8))) := do
  waitForReply
  let replyPktH ← byteAt 0
  if replyPktH=64 then do
    fillBufferTo 6
    let setType ← byteAt 1
    if setType=1 then do
      let _pktsize ← Reader.extract 2 4
      fillBufferTo 14
      let pathEntries ← Reader.extract 6 4
      let cwdLen ← Reader.extract 10 4
      consume 14
      let dinitCwd ← readString (native cwdLen)
      let paths ← readPaths dinitCwd (native pathEntries)
      pure (some paths)
    else pure none
  else throw .protocol

section
variable {M : List UInt8} {k : Nat}

variable (dinitCwd : List UInt8) in
theorem readPaths_gives {dirs : List CString} (hd : ∀ d∈dirs,d.bytes.length< 2^32) :
    Gives (readPaths dinitCwd dirs.length) (dirs.flatMap sizedString++M) k
      (dirs.map fun d => combinePaths dinitCwd d.bytes) M 0 := by
  induction dirs generalizing k with
  | nil => exact (gives_pure []).mono (le_refl _) (Nat.zero_le _)
  | cons d dirs ih =>
    have hlen := hd d List.mem_cons_self
    have hi := fun j => ih (k := j) fun e he => hd e (List.mem_cons_of_mem d he)
    rw [List.flatMap_cons,List.append_assoc,sizedString_eq hlen,List.append_assoc,List.length_cons,
      readPaths]
    refine (gives_fillBufferTo (by decide) (by simp [nativeBytes_length])).bind ?_
    refine (gives_extract_append (a := nativeBytes 4 d.bytes.length) rfl rfl (le_refl _)
      (by omega)).bind ?_
    refine (gives_consume (by decide) (show 4≤ max k 4 by omega)).bind ?_
    rw [native_four hlen]
    refine (readString_gives (s := d.bytes)).bind ?_
    refine (hi 0).bind ?_
    rw [cStr_eq d.no_nul]
    exact gives_pure _

/-- All of the reply, whatever its size field says -/
theorem getServiceDescriptionDirs_gives {wd : CString} {dirs : List CString} {n : Nat}
    (hwd : wd.bytes.length< 2^32) (hn : dirs.length< 2^32)
    (hd : ∀ d∈dirs,d.bytes.length< 2^32) :
    Gives getServiceDescriptionDirs
      (64::1::(nativeBytes 4 n++(nativeBytes 4 dirs.length++
        (nativeBytes 4 wd.bytes.length++(wd.bytes++(dirs.flatMap sizedString++M)))))) k
      (some (dirs.map fun d => combinePaths wd.bytes d.bytes)) M 0 := by
  have hpaths := readPaths_gives wd.bytes (M := M) (k := 0) hd
  rw [getServiceDescriptionDirs]
  refine (waitForReply_none (by decide)).bind ?_
  refine (gives_byteAt (x := 64) (by decide) rfl).bind ?_
  rw [if_pos rfl]
  refine (gives_fillBufferTo (by decide) (by simp [nativeBytes_length])).bind ?_
  refine (gives_byteAt (x := 1) (by decide) rfl).bind ?_
  rw [if_pos rfl]
  refine (gives_extract (show 2+4≤ max 1 6 by decide)).bind ?_
  refine (gives_fillBufferTo (n := 14) (by decide) (by simp [nativeBytes_length]; omega)).bind ?_
  refine (gives_extract_append (i := 6) (a := nativeBytes 4 dirs.length) rfl rfl (le_refl _)
    (by decide)).bind ?_
  refine (gives_extract_append (i := 10) (a := nativeBytes 4 wd.bytes.length) rfl rfl (le_refl _)
    (by decide)).bind ?_
  refine (gives_consume (by decide) (show 14≤ max (max 1 6) 14 by decide)).bind ?_
  rw [native_four hwd,native_four hn]
  refine (readString_gives (s := wd.bytes)).bind ?_
  exact hpaths.bind (gives_pure _)

theorem getServiceDescriptionDirs_nak {b : Buffered UInt8 1024} (hb : b.At (51::M) k) :
    ∃ b',getServiceDescriptionDirs b=(.error .protocol,b') ∧ b'.At (51::M) 0 := by
  obtain ⟨b1,he1,hb1⟩ := waitForReply_none (by decide) b hb
  obtain ⟨b2,he2,hb2⟩ := gives_byteAt (i := 0) (ε := ClientError) (x := 51) (by decide) rfl b1 hb1
  refine ⟨b2,?_,hb2.mono (Nat.zero_le _)⟩
  rw [getServiceDescriptionDirs,bind_ok he1,bind_ok he2,if_neg (by decide)]
  rfl

end

end Client

end Dinit
