import Dinit.Client.LoadMech
import Dinit.Safety.Listing

namespace Dinit

open Framework Framework.Reader

/-- The directories that are to be read, in order -/
def loadPath (cwd : CString) (dirs : List CString) : List (List UInt8) :=
  dirs.map fun d => combinePaths cwd.bytes d.bytes

/-- The load path comes out as it went in, however the reply is cut into reads, and all of the reply is
taken, if the numbers in it are large enough to count what there is. -/
theorem load_path_transferred (cwd : CString) (dirs : List CString) (rest : List UInt8)
    (b : Buffered UInt8 1024) (hcwd : cwd.bytes.length< 2^31) (hn : dirs.length≤ 2^31)
    (hd : ∀ d∈dirs,d.bytes.length< 2^32)
    (hb : b.At (queryLoadMech 1 (some cwd) dirs++rest) 0) :
    Ends Client.getServiceDescriptionDirs b (.ok (some (loadPath cwd dirs))) rest := by
  have hwd : cwd.bytes.length< 2^32 := by omega
  have hcount : dirs.length< 2^32 := by omega
  rw [queryLoadMech_fits hcwd,Nat.mod_eq_of_lt hcount,List.take_length] at hb
  dsimp only at hb
  generalize 10+(sizedString cwd++dirs.flatMap sizedString).length=n at hb
  rw [sizedString_eq hwd] at hb
  simp only [List.cons_append,List.append_assoc] at hb
  exact Client.getServiceDescriptionDirs_gives hwd hcount hd b hb

/-- The root directory -/
def rootDir : CString := ⟨[47],by decide⟩

theorem load_path_two :
    let dirs : List CString := [⟨[47,97],by decide⟩,⟨[98],by decide⟩]
    Ends Client.getServiceDescriptionDirs (emptyRead (queryLoadMech 1 (some rootDir) dirs++[]))
      (.ok (some [[47,97],[47,98]])) [] :=
  load_path_transferred rootDir [⟨[47,97],by decide⟩,⟨[98],by decide⟩] [] _ (by decide) (by decide)
    (by decide) (emptyRead_at _)

/-- A directory with so many letters -/
def longDir (n : Nat) : CString :=
  ⟨List.replicate n 97,fun h => absurd (List.eq_of_mem_replicate h) (by decide)⟩

theorem longDir_length (n : Nat) : (longDir n).bytes.length=n := List.length_replicate

/-- The root directory, so many times -/
def manyDirs (n : Nat) : List CString := List.replicate n rootDir

theorem manyDirs_length (n : Nat) : (manyDirs n).length=n := List.length_replicate

/-- The load path is read back as something else. -/
def LosesPath (cwd : CString) (dirs : List CString) : Prop :=
  ¬Ends Client.getServiceDescriptionDirs (emptyRead (queryLoadMech 1 (some cwd) dirs++[]))
    (.ok (some (loadPath cwd dirs))) []

theorem lost_of_reply {cwd : CString} {dirs sent : List CString}
    (hreply : queryLoadMech 1 (some cwd) dirs=queryLoadMech 1 (some cwd) sent)
    (hcwd : cwd.bytes.length< 2^31) (hn : sent.length≤ 2^31) (hd : ∀ d∈sent,d.bytes.length< 2^32)
    (hne : loadPath cwd dirs≠loadPath cwd sent) : LosesPath cwd dirs := by
  intro h
  rw [hreply] at h
  have hsent := load_path_transferred cwd sent [] _ hcwd hn hd (emptyRead_at _)
  exact hne (Option.some.inj (Except.ok.inj (h.unique hsent)))

/-- The length of a directory of 2^32 letters is 0 in 32 bits. -/
theorem long_dir_reply {d : CString} (h : d.bytes.length=2^32) : LosesPath rootDir [d] := by
  have hempty : sizedString d=sizedString ⟨[],by decide⟩ := by
    unfold sizedString
    rw [h]
    rfl
  have hreply : queryLoadMech 1 (some rootDir) [d]=
      queryLoadMech 1 (some rootDir) [⟨[],by decide⟩] := by
    rw [queryLoadMech_fits (by decide),queryLoadMech_fits (by decide)]
    simp [hempty]
  refine lost_of_reply hreply (by decide) (by decide) (by decide) ?_
  · intro heq
    have hpath : (combinePaths rootDir.bytes d.bytes).length=(combinePaths rootDir.bytes []).length :=
      congrArg List.length (List.cons.inj heq).1
    have hle := length_le_combinePaths rootDir.bytes d.bytes
    have hroot : (combinePaths rootDir.bytes []).length=1 := rfl
    omega

/-- So is the number of directories, if there are 2^32. -/
theorem many_dirs_reply {dirs : List CString} (h : dirs.length=2^32) : LosesPath rootDir dirs := by
  have hreply : queryLoadMech 1 (some rootDir) dirs=queryLoadMech 1 (some rootDir) [] := by
    rw [queryLoadMech_fits (by decide),queryLoadMech_fits (by decide),h]
    rfl
  refine lost_of_reply hreply (by decide) (by decide) (by simp) ?_
  · intro heq
    have hlen := congrArg List.length heq
    rw [loadPath,List.length_map,h] at hlen
    cases hlen

/-- The reply is no load path when there is no room for the working directory. -/
theorem long_cwd_reply {cwd : CString} (h : 2^31≤ cwd.bytes.length) : LosesPath cwd [] := by
  intro hload
  rw [queryLoadMech_nak h] at hload
  obtain ⟨b',hnak,hb'⟩ := Client.getServiceDescriptionDirs_nak (M := []) (emptyRead_at ([51]++[]))
  cases hload.unique ⟨b',hnak,hb'⟩

/-- A long directory, many of them and a long working directory are not read back. -/
theorem load_path_lost :
    LosesPath rootDir [longDir (2^32)] ∧ LosesPath rootDir (manyDirs (2^32)) ∧
      LosesPath (longDir (2^31)) [] :=
  ⟨long_dir_reply (longDir_length _),many_dirs_reply (manyDirs_length _),
    long_cwd_reply (longDir_length _).ge⟩

end Dinit
