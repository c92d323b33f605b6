import Dinit.Files.OpenWithDir

namespace Dinit

open Framework

namespace Files

variable {N : Type}

/-- What a call has open of its own after an event. It may only close what it has opened. -/
def own (owned : Option (List Int)) : Event → Option (List Int)
  | .opened fd => owned.map (fd::·)
  | .closed fd => owned.bind fun l => if l.contains fd then some (l.erase fd) else none

def replay (log : List Event) : Option (List Int) := log.foldl own (some [])

theorem replay_append (log : List Event) (e : Event) : replay (log++[e])=own (replay log) e := by
  unfold replay
  rw [List.foldl_append]
  rfl

/-- The call has just these open, and all other numbers are as they were. -/
structure Balanced (t : Table N) (os : Os N) (owned : List Int) : Prop where
  log : replay os.log=some owned
  nodup : owned.Nodup
  mine : ∀ fd∈owned,∃ n : Nat,fd=n ∧ t.get n=none ∧ (os.table.get n).isSome=true
  others : ∀ n : Nat,(n : Int)∉owned → os.table.get n=t.get n

theorem Balanced.start {os : Os N} (h : os.log=[]) : Balanced os.table os [] :=
  ⟨by rw [h]; rfl,.nil,by simp,fun _ _ => rfl⟩

theorem Balanced.errno {t : Table N} {os : Os N} {l : List Int} (h : Balanced t os l) (e : Nat) :
    Balanced t {os with errno := e} l := ⟨h.log,h.nodup,h.mine,h.others⟩

/-- What is open is not the lowest free number. -/
theorem node_ne_lowest {cwd n : N} {os : Os N} {fd : Int} (h : os.node cwd fd=some n) :
    fd≠os.table.lowest 0 := by
  intro heq
  unfold Os.node at h
  have hcwd : fd≠atFdcwd := by
    unfold atFdcwd
    omega
  rw [if_neg hcwd,if_pos (by omega),heq,Int.toNat_natCast,Table.get_lowest] at h
  cases h

theorem node_nat (cwd : N) (os : Os N) (fd : Nat) : os.node cwd fd=os.table.get fd := by
  have hcwd : (fd : Int)≠atFdcwd := by
    unfold atFdcwd
    omega
  unfold Os.node
  rw [if_neg hcwd,if_pos (by omega),Int.toNat_natCast]

/-- The descriptor that is opened is a new one. -/
theorem Balanced.opened {t : Table N} {os : Os N} {l : List Int} (h : Balanced t os l) (n : N) :
    Balanced t (os.opening (.ok n)).2 ((os.table.lowest 0 : Nat)::l) ∧
      ((os.table.lowest 0 : Nat) : Int)∉l := by
  have hnew : ((os.table.lowest 0 : Nat) : Int)∉l := by
    intro hm
    obtain ⟨m,hfd,-,hopen⟩ := h.mine _ hm
    rw [← Int.ofNat.inj hfd,Table.get_lowest] at hopen
    cases hopen
  have hfree : t.get (os.table.lowest 0)=none := by rw [← h.others _ hnew,Table.get_lowest]
  refine ⟨⟨?_,List.nodup_cons.mpr ⟨hnew,h.nodup⟩,?_,?_⟩,hnew⟩
  · show replay (os.log++[.opened (os.table.lowest 0)])=_
    rw [replay_append,h.log]
    rfl
  · intro fd hfd
    obtain rfl | hfd := List.mem_cons.mp hfd
    · refine ⟨_,rfl,hfree,?_⟩
      show ((os.table.put _ (some n)).get _).isSome=true
      rw [Table.get_put,if_pos rfl]
      rfl
    · obtain ⟨m,heq,hnone,hopen⟩ := h.mine fd hfd
      refine ⟨m,heq,hnone,?_⟩
      show ((os.table.put _ (some n)).get m).isSome=true
      rw [Table.get_put]
      split
      · rfl
      · exact hopen
  · intro m hm
    have hne : m≠os.table.lowest 0 := fun heq => hm (by rw [heq]; exact List.mem_cons_self ..)
    show (os.table.put _ (some n)).get m=_
    rw [Table.get_put,if_neg hne]
    exact h.others m fun hml => hm (List.mem_cons_of_mem _ hml)

/-- Closing one of its own leaves the rest. -/
theorem Balanced.close {t : Table N} {os : Os N} {l : List Int} (h : Balanced t os l) {fd : Int}
    (hm : fd∈l) :
    Balanced t (os.close fd) (l.erase fd) ∧ (os.close fd).errno=os.errno ∧
      ∀ m : Nat,(m : Int)≠fd → (os.close fd).table.get m=os.table.get m := by
  obtain ⟨n,rfl,hnone,hopen⟩ := h.mine fd hm
  have hclose : os.close n={os with
      table := os.table.put n none,log := os.log++[.closed n]} := by
    unfold Os.close
    rw [Int.toNat_natCast,if_pos ⟨by omega,hopen⟩]
  have hget : ∀ m : Nat,m≠n → (os.table.put n none).get m=os.table.get m := by
    intro m hne
    rw [Table.get_put,if_neg hne]
  rw [hclose]
  refine ⟨⟨?_,h.nodup.erase _,?_,?_⟩,rfl,fun m hne => hget m fun heq => hne (by rw [heq])⟩
  · show replay (os.log++[.closed n])=_
    rw [replay_append,h.log]
    show (if l.contains (n : Int) then some (l.erase n) else none)=_
    rw [if_pos (List.contains_iff_mem.mpr hm)]
  · intro x hx
    obtain ⟨hne,hxl⟩ := (h.nodup.mem_erase_iff).mp hx
    obtain ⟨m,rfl,hm0,hmo⟩ := h.mine x hxl
    refine ⟨m,rfl,hm0,?_⟩
    show ((os.table.put n none).get m).isSome=true
    rw [hget m fun heq => hne (by rw [heq])]
    exact hmo
  · intro m hml
    show (os.table.put n none).get m=_
    by_cases heq : m=n
    · rw [Table.get_put,if_pos heq,heq,hnone]
    · rw [hget m heq]
      exact h.others m fun hin => hml ((h.nodup.mem_erase_iff).mpr ⟨fun h0 => heq (Int.ofNat.inj h0),hin⟩)

/-- What a flag and a descriptor say that is to be closed -/
def held (c : Bool) (fd : Int) : List Int := if c then [fd] else []

theorem Balanced.closeIf {t : Table N} {os : Os N} {l : List Int} {c : Bool} {fd : Int}
    (h : Balanced t os (l++held c fd)) :
    Balanced t (os.closeIf c fd) l ∧ (os.closeIf c fd).errno=os.errno ∧
      ∀ m : Nat,(m : Int)∈l → (os.closeIf c fd).table.get m=os.table.get m := by
  cases c with
  | false =>
    have hl : l++held false fd=l := List.append_nil l
    rw [hl] at h
    exact ⟨h,rfl,fun _ _ => rfl⟩
  | true =>
    have hl : l++held true fd=l++[fd] := rfl
    rw [hl] at h
    have hnot : fd∉l := fun hm => by
      have hdis := (List.nodup_append.mp h.nodup).2.2
      exact hdis fd hm fd (List.mem_singleton_self _) rfl
    obtain ⟨hbal,herr,hget⟩ := h.close (List.mem_append_right l (List.mem_singleton_self fd))
    rw [List.erase_append_right _ hnot,List.erase_cons_head,List.append_nil] at hbal
    refine ⟨hbal,herr,fun m hm => hget m fun heq => hnot (by rw [← heq]; exact hm)⟩

/-- The directory part and the last part of the target of a link, by which the system finds the file.
Without a last part there is no file that is meant. -/
def targetParts (path : List UInt8) : Option (List UInt8 × List UInt8) :=
  let base := (path.reverse.takeWhile (·≠47)).reverse
  let dir := path.take (path.length-base.length)
  if dir=[] then some ([],base)
  else if base=[] then none
  else
    let dir := (dir.reverse.dropWhile (·=47)).reverse
    some (if dir=[] then [47] else dir,base)

/-- The target is in a directory with a name of one byte, and not in the root. -/
def ShortDirectory (path : List UInt8) : Prop := ∃ c name,c≠47 ∧ targetParts path=some ([c],name)

/-- What is before the last part ends in a slash. -/
theorem parentPath_take {path : List UInt8}
    (hne : path.take (path.length-(baseName path).length)≠[]) :
    parentPath (path.take (path.length-(baseName path).length))=
      let dir := ((path.take (path.length-(baseName path).length)).reverse.dropWhile (·=47)).reverse
      if dir=[] then [47] else dir := by
  have hrev : (path.take (path.length-(baseName path).length)).reverse=
      path.reverse.dropWhile (·≠47) := by
    have hle : (path.reverse.takeWhile (·≠47)).length≤ path.length := by
      simpa using (List.takeWhile_sublist (l := path.reverse) (·≠47)).length_le
    have hdrop : (path.reverse.takeWhile (·≠47)++path.reverse.dropWhile (·≠47)).drop
        (path.reverse.takeWhile (·≠47)).length=path.reverse.dropWhile (·≠47) := List.drop_left
    rw [List.takeWhile_append_dropWhile] at hdrop
    rw [List.reverse_take]
    unfold baseName
    rw [List.length_reverse,Nat.sub_sub_self hle]
    exact hdrop
  generalize path.take (path.length-(baseName path).length)=dir at hrev hne
  cases hd : dir.reverse with
  | nil => exact absurd (List.reverse_eq_nil_iff.mp hd) hne
  | cons c cs =>
    have hc : c=47 := by
      have h := List.head?_dropWhile_not (·≠47) path.reverse
      rw [← hrev,hd] at h
      simpa using h
    have hmem : dir.contains 47=true := by
      rw [List.contains_iff_mem,← List.mem_reverse,hd,hc]
      exact List.mem_cons_self
    have hdrop : (c::cs).dropWhile (·≠47)=c::cs := by simp [hc]
    simp only [parentPath,hmem,if_true,hd,hdrop,List.length_eq_zero_iff]

/-- The function differs from the system in directories with a name of one byte. -/
theorem splitTarget_eq (path : List UInt8) :
    splitTarget path=(targetParts path).map fun q => (if q.1.length=1 then [47] else q.1,q.2) := by
  have hle : (baseName path).length≤ path.length := by
    unfold baseName
    simpa using (List.takeWhile_sublist (l := path.reverse) (·≠47)).length_le
  have hbase : (path.reverse.takeWhile (·≠47)).reverse=baseName path := rfl
  have hdir : path.take (path.length-(baseName path).length)=[] ↔
      (baseName path).length=path.length := by
    rw [← List.length_eq_zero_iff,List.length_take]
    omega
  simp only [splitTarget,targetParts,hbase]
  by_cases h : (baseName path).length=path.length
  · rw [if_pos h,if_pos (hdir.mpr h)]
    rfl
  · have hne := fun he => h (hdir.mp he)
    rw [if_neg h,if_neg hne]
    by_cases hb : baseName path=[]
    · rw [if_pos (by rw [hb]; rfl),if_pos hb]
      rfl
    · rw [if_neg (by simpa using hb),if_neg hb,parentPath_take hne]
      rfl

theorem splitTarget_of_not_short {path : List UInt8} (h : ¬ShortDirectory path) :
    splitTarget path=targetParts path := by
  rw [splitTarget_eq]
  cases ht : targetParts path with
  | none => rfl
  | some q =>
    obtain ⟨dir,name⟩ := q
    by_cases hl : dir.length=1
    · obtain ⟨c,rfl⟩ := List.length_eq_one_iff.mp hl
      obtain rfl : c=47 := by_contra fun hc => h ⟨c,name,hc,ht⟩
      rfl
    · simp [hl]
section
variable (fs : FileSystem N)

/-- The directory that a path is in -/
def parentOf (r : N) (dirname : List UInt8) : Except Errno N :=
  if dirname.length=0 then .ok r else fs.openDir r dirname

/-- The last part is a link, and there is a path to go on with, as `cut` has it. -/
def Link (cut : List UInt8 → Option (List UInt8 × List UInt8)) (r : N)
    (dirname basename : List UInt8) (d : N) (dirname' basename' : List UInt8) : Prop :=
  parentOf fs r dirname=.ok d ∧ (∃ e,fs.openFile d basename=.error e ∧ e.code=eloop) ∧
    ∃ path,fs.readlink d basename=.ok path ∧ cut path=some (dirname',basename')

end

/-- A new descriptor for the directory that was given, which is the current one or another -/
def copyDir (fs : FileSystem N) (resolveFd : Int) (d : N) : Except Errno N :=
  if resolveFd=atFdcwd then fs.openDir d [46] else (fs.dup d).map fun _ => d

/-- What should be found: the directory and the file, or the error of the step that fails. `opened`
says that the directory to start from has a descriptor of the function's own, and `cut` takes the
target of a link apart. -/
inductive Resolves (cut : List UInt8 → Option (List UInt8 × List UInt8))
    (fs : Nat → FileSystem N) (resolveFd : Int) :
    Int → Nat → Bool → N → List UInt8 → List UInt8 → Except Errno (N × N) → Prop
  | parentError {t : Int} {k : Nat} {opened : Bool} {r : N} {dn bn : List UInt8} {e : Errno} :
      parentOf (fs k) r dn=.error e →
      Resolves cut fs resolveFd t k opened r dn bn (.error e)
  | fileError {t : Int} {k : Nat} {opened : Bool} {r d : N} {dn bn : List UInt8} {e : Errno} :
      parentOf (fs k) r dn=.ok d → (fs k).openFile d bn=.error e → e.code≠eloop →
      Resolves cut fs resolveFd t k opened r dn bn (.error e)
  | file {t : Int} {k : Nat} {opened : Bool} {r d f : N} {dn bn : List UInt8} :
      parentOf (fs k) r dn=.ok d → (fs k).openFile d bn=.ok f →
      (opened=false → dn.length=0 → copyDir (fs k) resolveFd d=.ok d) →
      Resolves cut fs resolveFd t k opened r dn bn (.ok (d,f))
  | copyError {t : Int} {k : Nat} {r d f : N} {dn bn : List UInt8} {e : Errno} :
      parentOf (fs k) r dn=.ok d → (fs k).openFile d bn=.ok f → dn.length=0 →
      copyDir (fs k) resolveFd d=.error e →
      Resolves cut fs resolveFd t k false r dn bn (.error e)
  | tooMany {k : Nat} {opened : Bool} {r d : N} {dn bn : List UInt8} {e : Errno} :
      parentOf (fs k) r dn=.ok d → (fs k).openFile d bn=.error e → e.code=eloop →
      Resolves cut fs resolveFd 0 k opened r dn bn (.error e)
  | readlinkError {t : Int} {k : Nat} {opened : Bool} {r d : N} {dn bn : List UInt8} {e e' : Errno} :
      parentOf (fs k) r dn=.ok d → (fs k).openFile d bn=.error e → e.code=eloop → t≠0 →
      (fs k).readlink d bn=.error e' →
      Resolves cut fs resolveFd t k opened r dn bn (.error e')
  | noFile {t : Int} {k : Nat} {opened : Bool} {r d : N} {dn bn path : List UInt8} {e e' : Errno} :
      parentOf (fs k) r dn=.ok d → (fs k).openFile d bn=.error e → e.code=eloop → t≠0 →
      (fs k).readlink d bn=.ok path → cut path=none → e'.code=enoent →
      Resolves cut fs resolveFd t k opened r dn bn (.error e')
  | follow {t : Int} {k : Nat} {opened : Bool} {r d : N} {dn bn dn' bn' : List UInt8}
      {out : Except Errno (N × N)} :
      Link (fs k) cut r dn bn d dn' bn' → t≠0 →
      Resolves cut fs resolveFd (t-1) (k+1) (opened || dn.length≠0) d dn' bn' out →
      Resolves cut fs resolveFd t k opened r dn bn out

/-- The walk from here comes to a link with the target `path`, which is followed. -/
inductive ComesTo (fs : Nat → FileSystem N) (path : List UInt8) :
    Int → Nat → N → List UInt8 → List UInt8 → Prop
  | here {t : Int} {k : Nat} {r d : N} {dn bn : List UInt8} {e : Errno} :
      parentOf (fs k) r dn=.ok d → (fs k).openFile d bn=.error e → e.code=eloop → t≠0 →
      (fs k).readlink d bn=.ok path → ComesTo fs path t k r dn bn
  | follow {t : Int} {k : Nat} {r d : N} {dn bn dn' bn' : List UInt8} :
      Link (fs k) targetParts r dn bn d dn' bn' → t≠0 → ComesTo fs path (t-1) (k+1) d dn' bn' →
      ComesTo fs path t k r dn bn

/-- There is a path to go on with whichever way the target is taken apart. -/
theorem link_split_iff {fs : FileSystem N} {r : N} {dn bn : List UInt8} :
    (∃ d dn' bn',Link fs splitTarget r dn bn d dn' bn') ↔
      ∃ d dn' bn',Link fs targetParts r dn bn d dn' bn' := by
  constructor
  · rintro ⟨d,dn',bn',hpar,hfile,path,hread,hsplit⟩
    rw [splitTarget_eq,Option.map_eq_some_iff] at hsplit
    obtain ⟨q,hq,-⟩ := hsplit
    exact ⟨d,q.1,q.2,hpar,hfile,path,hread,hq⟩
  · rintro ⟨d,dn',bn',hpar,hfile,path,hread,hparts⟩
    exact ⟨d,_,_,hpar,hfile,path,hread,by rw [splitTarget_eq,hparts]; rfl⟩

/-- What the function looks for is what the system means, unless it comes to a directory with a name of
one byte. -/
theorem Resolves.parts {fs : Nat → FileSystem N} {fd t : Int} {k : Nat} {opened : Bool} {r : N}
    {dn bn : List UInt8} {out : Except Errno (N × N)}
    (h : Resolves splitTarget fs fd t k opened r dn bn out)
    (hs : ∀ path,ComesTo fs path t k r dn bn → ¬ShortDirectory path) :
    Resolves targetParts fs fd t k opened r dn bn out := by
  induction h with
  | parentError hpar => exact .parentError hpar
  | fileError hpar hfile hloop => exact .fileError hpar hfile hloop
  | file hpar hfile hcopy => exact .file hpar hfile hcopy
  | copyError hpar hfile hdir hcopy => exact .copyError hpar hfile hdir hcopy
  | tooMany hpar hfile hloop => exact .tooMany hpar hfile hloop
  | readlinkError hpar hfile hloop ht hread => exact .readlinkError hpar hfile hloop ht hread
  | noFile hpar hfile hloop ht hread hsplit hcode =>
    rw [splitTarget_of_not_short (hs _ (.here hpar hfile hloop ht hread))] at hsplit
    exact .noFile hpar hfile hloop ht hread hsplit hcode
  | follow hlink ht _ ih =>
    obtain ⟨hpar,⟨e,hfile,hloop⟩,path,hread,hsplit⟩ := hlink
    rw [splitTarget_of_not_short (hs _ (.here hpar hfile hloop ht hread))] at hsplit
    have hlink : Link _ targetParts _ _ _ _ _ _ := ⟨hpar,⟨e,hfile,hloop⟩,path,hread,hsplit⟩
    exact .follow hlink ht (ih fun path hc => hs path (.follow hlink ht hc))

/-- What is returned: two new descriptors for what should be found, or the error; and nothing else is
open. -/
def Returned (t : Table N) (parent file : Int) (os : Os N) : Except Errno (N × N) → Prop
  | .error e => parent=-1 ∧ file=e.code ∧ Balanced t os []
  | .ok (d,f) => ∃ p q : Nat,parent=p ∧ file=q ∧ os.table.get p=some d ∧ os.table.get q=some f ∧
      ∃ l,l.Perm [parent,file] ∧ Balanced t os l

section
variable {fs : FileSystem N} {cwd : N} {t : Table N} {os : Os N}

/-- A call that opens something, from a descriptor that there is -/
theorem openat_eq {fd : Int} {n : N} (h : os.node cwd fd=some n) (call : N → Except Errno N) :
    os.openat cwd fd call=os.opening (call n) := by
  unfold Os.openat
  rw [h]

theorem get_opened (os : Os N) (n : N) :
    (os.opening (.ok n)).2.table.get (os.table.lowest 0)=some n ∧
      ∀ m : Nat,m≠os.table.lowest 0 → (os.opening (.ok n)).2.table.get m=os.table.get m := by
  constructor
  · show (os.table.put _ (some n)).get _=_
    rw [Table.get_put,if_pos rfl]
  · intro m hm
    show (os.table.put _ (some n)).get m=_
    rw [Table.get_put,if_neg hm]

/-- The parent directory is opened from a descriptor of the function's own, or from the one given. -/
theorem openParent_spec (fs : FileSystem N) (cwd : N) {s : Start} {r : N} (hr : os.node cwd s.resolveFd=some r)
    (h : Balanced t os (held s.closeResolveFd s.resolveFd)) :
    (∃ e os',parentOf fs r s.dirname=.error e ∧ 0<s.dirname.length ∧
        openParent fs cwd s os=(-1,true,os') ∧ os'.errno=e.code ∧ Balanced t os' []) ∨
      ∃ d p c os',parentOf fs r s.dirname=.ok d ∧ openParent fs cwd s os=(p,c,os') ∧
        os'.node cwd p=some d ∧ Balanced t os' (held c p) ∧ (0<s.dirname.length → p≠-1) ∧
        c=(s.closeResolveFd || s.dirname.length≠0) ∧ (c=false → p=s.resolveFd) := by
  unfold openParent parentOf
  by_cases hdir : s.dirname.length=0
  · rw [if_pos hdir,if_pos hdir]
    refine .inr ⟨r,_,_,_,rfl,rfl,hr,h,fun hpos => absurd hdir (by omega),by simp [hdir],fun _ => rfl⟩
  · rw [if_neg hdir,if_neg hdir,openat_eq hr]
    cases hopen : fs.openDir r s.dirname with
    | error e =>
      obtain ⟨hbal,herr,-⟩ := (h.errno e.code).closeIf (l := [])
      exact .inl ⟨e,_,rfl,by omega,rfl,herr,hbal⟩
    | ok d =>
      obtain ⟨hbal,-⟩ := h.opened d
      obtain ⟨hbal',-,hget⟩ := Balanced.closeIf (l := [((os.table.lowest 0 : Nat) : Int)]) hbal
      refine .inr ⟨d,_,true,_,rfl,rfl,?_,hbal',fun _ => ?_,by simp [hdir],fun hc => nomatch hc⟩
      · rw [node_nat]
        exact (hget _ (List.mem_singleton_self _)).trans (get_opened os d).1
      · show ((os.table.lowest 0 : Nat) : Int)≠-1
        omega

/-- A link is followed, or there is an error. -/
theorem followLink_spec (fs : FileSystem N) (times : Int) (bn : List UInt8) {p : Int} {c : Bool} {d : N}
    (hd : os.node cwd p=some d) (h : Balanced t os (held c p)) :
    (times=0 ∧ ∃ os',followLink fs cwd times p c bn os=.done (-1) eloop os' ∧ Balanced t os' []) ∨
      (times≠0 ∧ ((times≤ -2^63 ∧ followLink fs cwd times p c bn os=.overflow) ∨
        (∃ e os',fs.readlink d bn=.error e ∧
          followLink fs cwd times p c bn os=.done (-1) e.code os' ∧ Balanced t os' []) ∨
        (∃ path os',fs.readlink d bn=.ok path ∧ splitTarget path=none ∧
          followLink fs cwd times p c bn os=.done (-1) enoent os' ∧ Balanced t os' []) ∨
        ∃ path dn' bn',fs.readlink d bn=.ok path ∧ splitTarget path=some (dn',bn') ∧
          followLink fs cwd times p c bn os=.follow ⟨dn',bn',p,true⟩ os)) := by
  unfold followLink
  by_cases hzero : times=0
  · rw [if_pos hzero]
    exact .inl ⟨hzero,_,rfl,(h.closeIf (l := [])).1⟩
  · rw [if_neg hzero]
    refine .inr ⟨hzero,?_⟩
    by_cases hmin : times≤ -2^63
    · exact .inl ⟨hmin,if_pos hmin⟩
    · rw [if_neg hmin,hd]
      dsimp only
      cases hread : fs.readlink d bn with
      | error e =>
        obtain ⟨hbal,herr,-⟩ := (h.errno e.code).closeIf (l := [])
        refine .inr (.inl ⟨e,_,rfl,?_,hbal⟩)
        dsimp only
        rw [herr]
      | ok path =>
        dsimp only
        cases hsplit : splitTarget path with
        | none => exact .inr (.inr (.inl ⟨path,_,rfl,hsplit,rfl,(h.closeIf (l := [])).1⟩))
        | some q => exact .inr (.inr (.inr ⟨path,q.1,q.2,rfl,hsplit,rfl⟩))

/-- With the file open, the directory is returned as well; one that was given is copied. -/
theorem ownParent_spec (fs : FileSystem N) {p : Int} {q : Nat} {c : Bool} {d f : N} (hd : os.node cwd p=some d)
    (hf : os.table.get q=some f) (h : Balanced t os ((q : Int)::held c p)) :
    ((c=false → copyDir fs p d=.ok d) ∧ ∃ p' os',
        ownParent fs cwd p q c os=.done p' q os' ∧ Returned t p' q os' (.ok (d,f))) ∨
      c=false ∧ ∃ e os',copyDir fs p d=.error e ∧
        ownParent fs cwd p q c os=.done (-1) e.code os' ∧ Balanced t os' [] := by
  unfold ownParent
  cases c with
  | true =>
    have hheld : (q : Int)::held true p=[(q : Int),p] := rfl
    rw [hheld] at h
    obtain ⟨m,rfl,-,-⟩ := h.mine p (by simp)
    rw [node_nat] at hd
    exact .inl ⟨(nomatch ·),m,os,rfl,m,q,rfl,rfl,hd,hf,_,List.Perm.swap _ _ _,h⟩
  | false =>
    have hheld : (q : Int)::held false p=[(q : Int)] := rfl
    rw [hheld] at h
    have hcall : (if p=atFdcwd then os.openat cwd atFdcwd fun n => fs.openDir n [46]
        else os.openat cwd p fun n => (fs.dup n).map fun _ => n)=os.opening (copyDir fs p d) := by
      unfold copyDir
      by_cases hp : p=atFdcwd
      · rw [if_pos hp,if_pos hp]
        rw [hp] at hd
        exact openat_eq hd _
      · rw [if_neg hp,if_neg hp]
        exact openat_eq hd _
    rw [hcall]
    have hsame : ∀ d',copyDir fs p d=.ok d' → d'=d := by
      intro d' hcopy
      unfold copyDir at hcopy
      by_cases hp : p=atFdcwd
      · rw [if_pos hp] at hcopy
        exact fs.dot hcopy
      · rw [if_neg hp] at hcopy
        cases hdup : fs.dup d with
        | error e =>
          rw [hdup] at hcopy
          cases hcopy
        | ok u =>
          rw [hdup] at hcopy
          cases hcopy
          rfl
    cases hcopy : copyDir fs p d with
    | error e =>
      obtain ⟨hbal,herr,-⟩ := (h.errno e.code).close (List.mem_singleton_self _)
      rw [List.erase_cons_head] at hbal
      refine .inr ⟨rfl,e,_,rfl,?_,hbal⟩
      show Round.done _ _ _=_
      rw [herr]
    | ok d' =>
      obtain rfl := hsame d' hcopy
      obtain ⟨hbal,hnew⟩ := h.opened d'
      obtain ⟨hget,hother⟩ := get_opened os d'
      have hq : q≠os.table.lowest 0 := Table.ne_lowest hf
      refine .inl ⟨fun _ => rfl,(os.table.lowest 0 : Nat),_,?_,os.table.lowest 0,q,rfl,rfl,hget,
        (hother q hq).trans hf,_,List.Perm.refl _,hbal⟩
      have hne : ((os.table.lowest 0 : Nat) : Int)≠-1 := by omega
      dsimp only [Os.opening]
      rw [if_neg hne]
      rfl

/-- The last part cannot be opened. -/
theorem round_error {times : Int} {s : Start} {p : Int} {c : Bool} {os1 : Os N} {d : N} {e : Errno}
    (hopen : openParent fs cwd s os=(p,c,os1)) (hne : 0<s.dirname.length → p≠-1)
    (hd : os1.node cwd p=some d) (hfile : fs.openFile d s.basename=.error e) :
    round fs cwd times s os=
      if e.code=eloop then followLink fs cwd times p c s.basename {os1 with errno := e.code}
      else .done (-1) (({os1 with errno := e.code} : Os N).closeIf c p).errno
        (({os1 with errno := e.code} : Os N).closeIf c p) := by
  unfold round
  rw [hopen]
  dsimp only
  rw [if_neg (fun hand => hne hand.2 hand.1),openat_eq hd,hfile]
  dsimp only [Os.opening]
  exact if_pos rfl

/-- The last part is open. -/
theorem round_file {times : Int} {s : Start} {p : Int} {c : Bool} {os1 : Os N} {d f : N}
    (hopen : openParent fs cwd s os=(p,c,os1)) (hne : 0<s.dirname.length → p≠-1)
    (hd : os1.node cwd p=some d) (hfile : fs.openFile d s.basename=.ok f) :
    round fs cwd times s os=
      ownParent fs cwd p (os1.table.lowest 0 : Nat) c (os1.opening (.ok f)).2 := by
  unfold round
  rw [hopen]
  dsimp only
  rw [if_neg (fun hand => hne hand.2 hand.1),openat_eq hd,hfile]
  have hnat : ((os1.table.lowest 0 : Nat) : Int)≠-1 := by omega
  dsimp only [Os.opening]
  exact if_neg hnat

/-- Closing a descriptor leaves the others open. -/
theorem node_close {fd : Int} {m : Nat} (hne : (m : Int)≠fd) (os : Os N) :
    (os.close fd).table.get m=os.table.get m := by
  unfold Os.close
  split
  · next hopen =>
    have hm : m≠fd.toNat := by omega
    show (os.table.put fd.toNat none).get m=_
    rw [Table.get_put,if_neg hm]
  · rfl

/-- The parent directory is there, whoever owns the descriptor it is opened from. -/
theorem openParent_ok {s : Start} {r d : N} (hr : os.node cwd s.resolveFd=some r)
    (hpar : parentOf fs r s.dirname=.ok d) :
    ∃ p c os',openParent fs cwd s os=(p,c,os') ∧ os'.node cwd p=some d ∧
      (0<s.dirname.length → p≠-1) := by
  unfold parentOf at hpar
  unfold openParent
  by_cases hdir : s.dirname.length=0
  · rw [if_pos hdir] at hpar
    cases hpar
    rw [if_pos hdir]
    exact ⟨_,_,_,rfl,hr,fun hpos => absurd hdir (by omega)⟩
  · rw [if_neg hdir] at hpar
    rw [if_neg hdir,openat_eq hr,hpar]
    have hnew : ((os.table.lowest 0 : Nat) : Int)≠s.resolveFd := (node_ne_lowest hr).symm
    have hget := (get_opened os d).1
    refine ⟨_,_,_,rfl,?_,fun _ => ?_⟩
    · show Os.node cwd _ ((os.table.lowest 0 : Nat) : Int)=_
      rw [node_nat]
      unfold Os.closeIf
      split
      · rw [node_close hnew]
        exact hget
      · exact hget
    · show ((os.table.lowest 0 : Nat) : Int)≠-1
      omega

/-- The last part is a link, which may still turn out not to be readable. -/
def IsLink (fs : FileSystem N) (r : N) (dirname basename : List UInt8) : Prop :=
  ∃ d,parentOf fs r dirname=.ok d ∧ ∃ e,fs.openFile d basename=.error e ∧ e.code=eloop

theorem Link.isLink {cut : List UInt8 → Option (List UInt8 × List UInt8)} {r d : N}
    {dn bn dn' bn' : List UInt8} (h : Link fs cut r dn bn d dn' bn') : IsLink fs r dn bn :=
  ⟨d,h.1,h.2.1⟩

/-- What a link leads to: the round follows it, if the limit is not reached. -/
theorem round_isLink (times : Int) {s : Start} {r : N} (hr : os.node cwd s.resolveFd=some r)
    (h : IsLink fs r s.dirname s.basename) :
    ∃ d p c os',parentOf fs r s.dirname=.ok d ∧ os'.node cwd p=some d ∧
      round fs cwd times s os=followLink fs cwd times p c s.basename os' := by
  obtain ⟨d,hpar,e,hfile,hloop⟩ := h
  obtain ⟨p,c,os1,hopen,hd,hne⟩ := openParent_ok hr hpar
  refine ⟨d,p,c,{os1 with errno := e.code},hpar,hd,?_⟩
  rw [round_error hopen hne hd hfile,if_pos hloop]

theorem round_link (times : Int) {s : Start} {r d : N} {dn' bn' : List UInt8}
    (hr : os.node cwd s.resolveFd=some r) (h : Link fs splitTarget r s.dirname s.basename d dn' bn')
    (hzero : times≠0) :
    ∃ p os',os'.node cwd p=some d ∧
      round fs cwd times s os=if times≤ -2^63 then .overflow else .follow ⟨dn',bn',p,true⟩ os' := by
  obtain ⟨hpar,-,path,hread,hsplit⟩ := id h
  obtain ⟨d1,p,c,os1,hpar1,hd,hround⟩ := round_isLink times hr h.isLink
  have hsame : d1=d := by
    rw [hpar] at hpar1
    exact (Except.ok.inj hpar1).symm
  rw [hsame] at hd
  refine ⟨p,os1,hd,?_⟩
  rw [hround]
  unfold followLink
  rw [if_neg hzero,hd]
  dsimp only
  rw [hread]
  dsimp only
  rw [hsplit]

/-- What a round does that starts from a descriptor of the function's own, or from the one given. -/
theorem round_spec (fs : Nat → FileSystem N) (k : Nat) (times : Int) {s : Start} {r : N}
    (hr : os.node cwd s.resolveFd=some r) (h : Balanced t os (held s.closeResolveFd s.resolveFd)) :
    (∃ p f os' out,round (fs k) cwd times s os=.done p f os' ∧ Returned t p f os' out ∧
        Resolves splitTarget fs s.resolveFd times k s.closeResolveFd r s.dirname s.basename out) ∨
      round (fs k) cwd times s os=.overflow ∨
      ∃ d dn' bn' p os',Link (fs k) splitTarget r s.dirname s.basename d dn' bn' ∧ times≠0 ∧
        round (fs k) cwd times s os=.follow ⟨dn',bn',p,true⟩ os' ∧ os'.node cwd p=some d ∧
        Balanced t os' (held (s.closeResolveFd || s.dirname.length≠0) p) := by
  obtain ⟨e,os1,hpar,hpos,hopen,herr,hbal⟩ | ⟨d,p,c,os1,hpar,hopen,hd,hbal,hne,hc,hp⟩ :=
    openParent_spec (fs k) cwd hr h
  · have hround : round (fs k) cwd times s os=.done (-1) e.code os1 := by
      unfold round
      rw [hopen]
      dsimp only
      rw [if_pos ⟨rfl,hpos⟩,herr]
    exact .inl ⟨_,_,_,.error e,hround,⟨rfl,rfl,hbal⟩,.parentError hpar⟩
  · cases hfile : (fs k).openFile d s.basename with
    | error e =>
      rw [round_error hopen hne hd hfile]
      by_cases hloop : e.code=eloop
      · rw [if_pos hloop]
        have hd1 : Os.node cwd {os1 with errno := e.code} p=some d := hd
        obtain ⟨hzero,os2,hres,hbal2⟩ | ⟨hzero,hcase⟩ :=
          followLink_spec (fs k) times s.basename hd1 (hbal.errno e.code)
        · rw [hres,hzero,← hloop]
          exact .inl ⟨_,_,_,.error e,rfl,⟨rfl,rfl,hbal2⟩,.tooMany hpar hfile hloop⟩
        · obtain ⟨-,hres⟩ | ⟨e',os2,hread,hres,hbal2⟩ | ⟨path,os2,hread,hsplit,hres,hbal2⟩ |
            ⟨path,dn',bn',hread,hsplit,hres⟩ := hcase
          · exact .inr (.inl hres)
          · rw [hres]
            exact .inl ⟨_,_,_,.error e',rfl,⟨rfl,rfl,hbal2⟩,
              .readlinkError hpar hfile hloop hzero hread⟩
          · rw [hres]
            exact .inl ⟨_,_,_,.error ⟨enoent,by decide⟩,rfl,⟨rfl,rfl,hbal2⟩,
              .noFile hpar hfile hloop hzero hread hsplit rfl⟩
          · rw [hres]
            exact .inr (.inr ⟨d,dn',bn',p,_,⟨hpar,⟨e,hfile,hloop⟩,path,hread,hsplit⟩,hzero,rfl,
              hd1,by rw [← hc]; exact hbal.errno e.code⟩)
      · rw [if_neg hloop]
        obtain ⟨hbal2,herr,-⟩ := (hbal.errno e.code).closeIf (l := [])
        rw [herr]
        exact .inl ⟨_,_,_,.error e,rfl,⟨rfl,rfl,hbal2⟩,.fileError hpar hfile hloop⟩
    | ok f =>
      rw [round_file hopen hne hd hfile]
      obtain ⟨hbal1,-⟩ := hbal.opened f
      obtain ⟨hget,hother⟩ := get_opened os1 f
      have hd1 : (os1.opening (.ok f)).2.node cwd p=some d := by
        have hp0 : p≠os1.table.lowest 0 := node_ne_lowest hd
        rw [← hd]
        unfold Os.node
        split
        · rfl
        · split
          · exact hother p.toNat (by omega)
          · rfl
      -- Without a directory of its own, the one that was given is copied.
      have hsame : c=false → p=s.resolveFd ∧ s.closeResolveFd=false ∧ s.dirname.length=0 := by
        intro hfalse
        rw [hfalse] at hc
        exact ⟨hp hfalse,by simpa using hc.symm⟩
      obtain ⟨hcopy,p',os2,hres,hret⟩ | ⟨hfalse,e,os2,hcopy,hres,hbal2⟩ :=
        ownParent_spec (fs k) hd1 hget hbal1
      · rw [hres]
        refine .inl ⟨_,_,_,_,rfl,hret,.file hpar hfile fun hopened hdir => ?_⟩
        have hfalse : c=false := by
          rw [hc,hopened]
          simpa using hdir
        rw [← (hsame hfalse).1]
        exact hcopy hfalse
      · rw [hres]
        obtain ⟨hpeq,hnot,hdir⟩ := hsame hfalse
        rw [hpeq] at hcopy
        refine .inl ⟨_,_,_,.error e,rfl,⟨rfl,rfl,hbal2⟩,?_⟩
        rw [hnot]
        exact .copyError hpar hfile hdir hcopy

/-- Once a descriptor of its own is used, it does not matter which one was given. -/
theorem Resolves.anyFd {fs : Nat → FileSystem N} {fd fd' times : Int} {k : Nat} {r : N}
    {dn bn : List UInt8} {out : Except Errno (N × N)} {opened : Bool}
    (h : Resolves splitTarget fs fd times k opened r dn bn out) (hopened : opened=true) :
    Resolves splitTarget fs fd' times k opened r dn bn out := by
  induction h with
  | parentError hpar => exact .parentError hpar
  | fileError hpar hfile hloop => exact .fileError hpar hfile hloop
  | file hpar hfile hcopy =>
    refine .file hpar hfile fun hfalse => ?_
    rw [hopened] at hfalse
    cases hfalse
  | copyError hpar hfile hdir hcopy => cases hopened
  | tooMany hpar hfile hloop => exact .tooMany hpar hfile hloop
  | readlinkError hpar hfile hloop ht hread => exact .readlinkError hpar hfile hloop ht hread
  | noFile hpar hfile hloop ht hread hsplit hcode =>
    exact .noFile hpar hfile hloop ht hread hsplit hcode
  | follow hlink ht _ ih => exact .follow hlink ht (ih (by rw [hopened]; rfl))

theorem openLoop_done {fs : Nat → FileSystem N} {times : Int} {k : Nat} {s : Start} {p f : Int}
    {os' : Os N} (h : round (fs k) cwd times s os=.done p f os') :
    openLoop fs cwd times k s os=some ((p,f),os') := by
  rw [openLoop,h]

theorem openLoop_follow {fs : Nat → FileSystem N} {times : Int} {k : Nat} {s : Start} (s' : Start)
    (os' : Os N) (h : round (fs k) cwd times s os=.follow s' os') (hmin : ¬times≤ -2^63) :
    openLoop fs cwd times k s os=openLoop fs cwd (times-1) (k+1) s' os' := by
  rw [openLoop,h]
  exact if_neg hmin

/-- A link is followed, by the path that was given. -/
def FollowsLink (fs : Nat → FileSystem N) (times : Int) (k : Nat) (r : N) (s : Start) : Prop :=
  times≠0 ∧ ∃ d dn' bn',Link (fs k) targetParts r s.dirname s.basename d dn' bn'

/-- The whole run, as long as no link is followed from a directory that was given -/
theorem openLoop_returned {fs : Nat → FileSystem N} {times : Int} {k : Nat} {s : Start} {r : N}
    {p f : Int} {os' : Os N} (hr : os.node cwd s.resolveFd=some r)
    (h : Balanced t os (held s.closeResolveFd s.resolveFd))
    (hown : s.closeResolveFd=true ∨ s.dirname.length≠0 ∨ ¬FollowsLink fs times k r s)
    (hrun : openLoop fs cwd times k s os=some ((p,f),os')) :
    ∃ out,Resolves splitTarget fs s.resolveFd times k s.closeResolveFd r s.dirname s.basename out ∧
      Returned t p f os' out := by
  fun_induction openLoop fs cwd times k s os generalizing r with
  | case1 times k s os p1 f1 os1 hround =>
    cases hrun
    obtain ⟨p2,f2,os2,out,hres,hret,hout⟩ | hres | ⟨d,dn',bn',p2,os2,-,-,hres,-⟩ :=
      round_spec fs k times hr h
    · rw [hround] at hres
      cases hres
      exact ⟨out,hout,hret⟩
    · rw [hround] at hres
      cases hres
    · rw [hround] at hres
      cases hres
  | case2 => cases hrun
  | case3 => cases hrun
  | case4 times k s os s1 os1 hround hmin ih =>
    obtain ⟨p2,f2,os2,out,hres,-⟩ | hres | ⟨d,dn',bn',p2,os2,hlink,hzero,hres,hd,hbal⟩ :=
      round_spec fs k times hr h
    · rw [hround] at hres
      cases hres
    · rw [hround] at hres
      cases hres
    · rw [hround] at hres
      cases hres
      have hopened : (s.closeResolveFd || s.dirname.length≠0)=true := by
        obtain hclose | hdir | hnot := hown
        · rw [hclose]
          rfl
        · rw [Bool.or_eq_true]
          exact .inr (decide_eq_true hdir)
        · exact absurd ⟨hzero,link_split_iff.mp ⟨d,dn',bn',hlink⟩⟩ hnot
      rw [hopened] at hbal
      obtain ⟨out,hout,hret⟩ := ih hd hbal (.inl rfl) hrun
      refine ⟨out,.follow hlink hzero ?_,hret⟩
      rw [hopened]
      exact hout.anyFd rfl

/-- Something was closed that is not the function's own, or the next thing to close is not. -/
def Astray (os : Os N) : Prop := replay os.log=some [] ∨ replay os.log=none

/-- What is returned has not been opened, or what is not its own was closed. -/
def Broken (os : Os N) : Prop := replay os.log=none ∨ ∃ fd,replay os.log=some [fd]

theorem Broken.not_returned {os : Os N} (h : Broken os) {p f : Int} {out : Except Errno (N × N)} :
    ¬Returned t p f os out := by
  intro hret
  cases out with
  | error e =>
    have hlog := hret.2.2.log
    obtain hnone | ⟨fd,hsome⟩ := h
    · rw [hnone] at hlog
      cases hlog
    · rw [hsome] at hlog
      cases hlog
  | ok q =>
    obtain ⟨-,-,-,-,-,-,l,hperm,hbal⟩ := hret
    have hlog := hbal.log
    obtain hnone | ⟨fd,hsome⟩ := h
    · rw [hnone] at hlog
      cases hlog
    · rw [hsome] at hlog
      cases hlog
      cases hperm.length_eq

/-- What is closed is not the function's own. -/
theorem Astray.close {os : Os N} (h : Astray os) (fd : Int) : replay (os.close fd).log=none := by
  have hlog : (os.close fd).log=os.log++[.closed fd] := by
    unfold Os.close
    split
    · rfl
    · rfl
  rw [hlog,replay_append]
  obtain hsome | hnone := h
  · rw [hsome]
    rfl
  · rw [hnone]
    rfl

/-- A call that opens something: nothing was opened, or a new descriptor -/
theorem openat_cases (os : Os N) (cwd : N) (fd : Int) (call : N → Except Errno N) :
    (∃ e,os.openat cwd fd call=(-1,{os with errno := e})) ∨
      ∃ n m,os.node cwd fd=some m ∧
        os.openat cwd fd call=(((os.table.lowest 0 : Nat) : Int),(os.opening (.ok n)).2) := by
  unfold Os.openat
  cases hnode : os.node cwd fd with
  | none => exact .inl ⟨_,rfl⟩
  | some m =>
    dsimp only
    cases call m with
    | error e => exact .inl ⟨_,rfl⟩
    | ok n => exact .inr ⟨n,m,rfl,rfl⟩

theorem Astray.opening {os : Os N} (h : Astray os) (n : N) :
    replay (os.opening (.ok n)).2.log=some [((os.table.lowest 0 : Nat) : Int)] ∨
      replay (os.opening (.ok n)).2.log=none := by
  have hlog : (os.opening (.ok n)).2.log=os.log++[.opened (os.table.lowest 0 : Nat)] := rfl
  rw [hlog,replay_append]
  obtain hsome | hnone := h
  · rw [hsome]
    exact .inl rfl
  · rw [hnone]
    exact .inr rfl

theorem openParent_astray (fs : FileSystem N) (cwd : N) {s : Start} (h : Astray os) (hc : s.closeResolveFd=true) :
    ∃ p os',openParent fs cwd s os=(p,true,os') ∧ Astray os' ∧
      (0<s.dirname.length → replay os'.log=none) := by
  unfold openParent
  rw [hc]
  by_cases hdir : s.dirname.length=0
  · rw [if_pos hdir]
    exact ⟨_,_,rfl,h,fun hpos => absurd hdir (by omega)⟩
  · rw [if_neg hdir]
    refine ⟨_,_,rfl,?_⟩
    suffices hnone : replay ((os.openat cwd s.resolveFd fun n => fs.openDir n s.dirname).2.close
        s.resolveFd).log=none from ⟨.inr hnone,fun _ => hnone⟩
    obtain ⟨e,heq⟩ | ⟨n,m,hnode,heq⟩ := openat_cases os cwd s.resolveFd fun n => fs.openDir n s.dirname
    · rw [heq]
      have herr : Astray {os with errno := e} := h
      exact herr.close _
    · rw [heq]
      obtain hsome | hnone := h.opening n
      · have hne := node_ne_lowest hnode
        have hlog : ∀ os : Os N,(os.close s.resolveFd).log=os.log++[.closed s.resolveFd] := by
          intro os
          unfold Os.close
          split
          · rfl
          · rfl
        rw [hlog,replay_append,hsome]
        simp [own,hne]
      · exact Astray.close (.inr hnone) _

theorem followLink_astray (fs : FileSystem N) (cwd : N) (times p : Int) (bn : List UInt8) (h : Astray os) :
    (∃ f os',followLink fs cwd times p true bn os=.done (-1) f os' ∧ Broken os') ∨
      followLink fs cwd times p true bn os=.overflow ∨
      ∃ s',followLink fs cwd times p true bn os=.follow s' os ∧ s'.closeResolveFd=true := by
  unfold followLink
  have hclose : ∀ e : Nat,Broken (({os with errno := e} : Os N).closeIf true p) := by
    intro e
    have herr : Astray {os with errno := e} := h
    exact .inl (herr.close p)
  by_cases hzero : times=0
  · rw [if_pos hzero]
    exact .inl ⟨_,_,rfl,hclose os.errno⟩
  · rw [if_neg hzero]
    by_cases hmin : times≤ -2^63
    · exact .inr (.inl (if_pos hmin))
    · rw [if_neg hmin]
      cases os.node cwd p with
      | none => exact .inl ⟨_,_,rfl,hclose ebadf⟩
      | some n =>
        dsimp only
        cases fs.readlink n bn with
        | error e => exact .inl ⟨_,_,rfl,hclose e.code⟩
        | ok path =>
          dsimp only
          cases splitTarget path with
          | none => exact .inl ⟨_,_,rfl,hclose os.errno⟩
          | some q => exact .inr (.inr ⟨_,rfl,rfl⟩)

theorem round_astray (fs : FileSystem N) (cwd : N) (times : Int) {s : Start} (h : Astray os) (hc : s.closeResolveFd=true) :
    (∃ p f os',round fs cwd times s os=.done p f os' ∧ Broken os') ∨
      round fs cwd times s os=.overflow ∨
      ∃ s' os',round fs cwd times s os=.follow s' os' ∧ s'.closeResolveFd=true ∧ Astray os' := by
  obtain ⟨p,os1,hopen,hastray,hnone⟩ := openParent_astray fs cwd h hc
  unfold round
  rw [hopen]
  dsimp only
  by_cases hfail : p=-1 ∧ 0<s.dirname.length
  · rw [if_pos hfail]
    exact .inl ⟨_,_,_,rfl,.inl (hnone hfail.2)⟩
  · rw [if_neg hfail]
    obtain ⟨e,heq⟩ | ⟨n,m,-,heq⟩ := openat_cases os1 cwd p fun n => fs.openFile n s.basename
    · rw [heq]
      dsimp only
      rw [if_pos rfl]
      have herr : Astray {os1 with errno := e} := hastray
      by_cases hloop : e=eloop
      · rw [if_pos hloop]
        obtain ⟨f,os2,hres,hbroken⟩ | hres | ⟨s',hres,hclose⟩ :=
          followLink_astray fs cwd times p s.basename herr
        · exact .inl ⟨_,_,_,hres,hbroken⟩
        · exact .inr (.inl hres)
        · exact .inr (.inr ⟨s',_,hres,hclose,herr⟩)
      · rw [if_neg hloop]
        exact .inl ⟨_,_,_,rfl,.inl (herr.close p)⟩
    · rw [heq]
      dsimp only
      have hfile : ((os1.table.lowest 0 : Nat) : Int)≠-1 := by omega
      rw [if_neg hfile]
      refine .inl ⟨p,((os1.table.lowest 0 : Nat) : Int),_,if_pos rfl,?_⟩
      obtain hsome | hlost := hastray.opening n
      · exact .inr ⟨_,hsome⟩
      · exact .inl hlost

/-- A run that goes astray does not get right again. -/
theorem openLoop_astray {fs : Nat → FileSystem N} {times : Int} {k : Nat} {s : Start} {p f : Int}
    {os' : Os N} (h : Astray os) (hc : s.closeResolveFd=true)
    (hrun : openLoop fs cwd times k s os=some ((p,f),os')) : Broken os' := by
  fun_induction openLoop fs cwd times k s os with
  | case1 times k s os p1 f1 os1 hround =>
    cases hrun
    obtain ⟨p2,f2,os2,hres,hbroken⟩ | hres | ⟨s',os2,hres,-⟩ :=
      round_astray (fs k) cwd times h hc
    · rw [hround] at hres
      cases hres
      exact hbroken
    · rw [hround] at hres
      cases hres
    · rw [hround] at hres
      cases hres
  | case2 => cases hrun
  | case3 => cases hrun
  | case4 times k s os s1 os1 hround hmin ih =>
    obtain ⟨p2,f2,os2,hres,-⟩ | hres | ⟨s',os2,hres,hclose,hastray⟩ :=
      round_astray (fs k) cwd times h hc
    · rw [hround] at hres
      cases hres
    · rw [hround] at hres
      cases hres
    · rw [hround] at hres
      cases hres
      exact ih hastray hclose hrun

end

/-- From the directory it was given the function goes through a link, and closes that directory. -/
theorem openWithDir_astray {fs : Nat → FileSystem N} {cwd : N} {symloopMax : Int}
    {dirname basename : List UInt8} {resolveFd : Int} {os os' : Os N} {r : N} {p f : Int}
    (hlog : os.log=[]) (hr : os.node cwd resolveFd=some r) (hdir : dirname.length=0)
    (hlink : FollowsLink fs symloopMax 0 r ⟨dirname,basename,resolveFd,false⟩)
    (hrun : openWithDir fs cwd symloopMax dirname basename resolveFd os=some ((p,f),os')) :
    Broken os' := by
  obtain ⟨hzero,hlink⟩ := hlink
  obtain ⟨d,dn',bn',hlink⟩ := link_split_iff.mpr hlink
  obtain ⟨p1,os1,-,hround⟩ := round_link symloopMax hr hlink hzero
  unfold openWithDir openLoop at hrun
  by_cases hmin : symloopMax≤ -2^63
  · rw [hround,if_pos hmin] at hrun
    cases hrun
  · rw [if_neg hmin] at hround
    rw [hround] at hrun
    dsimp only at hrun
    rw [if_neg hmin] at hrun
    obtain ⟨p2,f2,os2,out2,hres,-⟩ | hres | ⟨d2,dn2,bn2,p2,os2,-,-,hres,-,hbal⟩ :=
      round_spec fs 0 symloopMax (s := ⟨dirname,basename,resolveFd,false⟩) hr
        (.start hlog : Balanced os.table os (held false resolveFd))
    · rw [hround] at hres
      cases hres
    · rw [hround] at hres
      cases hres
    · rw [hround] at hres
      cases hres
      rw [hdir] at hbal
      exact openLoop_astray (.inl hbal.log) rfl hrun

/-- The descriptors that the function opens are closed again, and none that it was given, with the two
that it returns being new, just as long as it does not go through a link from the directory it was
given without opening one: the next round then closes that one. What it finds is the file that is meant
and its directory, or the error of the step that fails, if none of the links that it comes to leads to a
directory with a name of one byte too. -/
theorem descriptor_ownership (fs : Nat → FileSystem N) (cwd : N) (symloopMax : Int)
    (dirname basename : List UInt8) (resolveFd : Int) (os os' : Os N) (r : N) (p f : Int)
    (hlog : os.log=[]) (hr : os.node cwd resolveFd=some r)
    (hrun : openWithDir fs cwd symloopMax dirname basename resolveFd os=some ((p,f),os')) :
    ((∃ out,Returned os.table p f os' out) ↔
      dirname.length≠0 ∨ ¬FollowsLink fs symloopMax 0 r ⟨dirname,basename,resolveFd,false⟩) ∧
    (dirname.length≠0 ∨ ¬FollowsLink fs symloopMax 0 r ⟨dirname,basename,resolveFd,false⟩ →
      (∀ path,ComesTo fs path symloopMax 0 r dirname basename → ¬ShortDirectory path) →
      ∃ out,Resolves targetParts fs resolveFd symloopMax 0 false r dirname basename out ∧
        Returned os.table p f os' out) := by
  have hreturned (hcond : dirname.length≠0 ∨
      ¬FollowsLink fs symloopMax 0 r ⟨dirname,basename,resolveFd,false⟩) :=
    openLoop_returned (s := ⟨dirname,basename,resolveFd,false⟩) hr
      (.start hlog : Balanced os.table os (held false resolveFd)) (.inr hcond) hrun
  refine ⟨⟨?_,?_⟩,?_⟩
  · rintro ⟨out,hret⟩
    by_contra hcond
    rw [not_or,not_not,not_not] at hcond
    exact (openWithDir_astray hlog hr hcond.1 hcond.2 hrun).not_returned hret
  · intro hcond
    obtain ⟨out,-,hret⟩ := hreturned hcond
    exact ⟨out,hret⟩
  · intro hcond hshort
    obtain ⟨out,hout,hret⟩ := hreturned hcond
    exact ⟨out,hout.parts hshort,hret⟩

def linkError : Errno := ⟨eloop,by decide⟩

/-- The last part `s` is a link to `to/f` in every directory. -/
def linkFs : FileSystem Nat where
  openDir d path :=
    if path=[46] then .ok d else if path=[116,111] then .ok 1 else .error ⟨enoent,by decide⟩
  openFile _ base := if base=[115] then .error linkError else .ok 2
  readlink _ _ := .ok [116,111,47,102]
  dup _ := .ok ()
  dot := by
    intro d d' h
    rw [if_pos rfl] at h
    cases h
    rfl

/-- The caller has a directory open, after its standard streams. -/
def linkOs : Os Nat := ⟨⟨[some 9,some 9,some 9,some 0]⟩,0,[]⟩

/-- All links lead to `to/f`. -/
theorem linkFs_not_short {t : Int} {k : Nat} {r : Nat} {dn bn path : List UInt8}
    (h : ComesTo (fun _ => linkFs) path t k r dn bn) : ¬ShortDirectory path := by
  induction h with
  | here _ _ _ _ hread =>
    obtain rfl := Except.ok.inj hread
    rintro ⟨c,name,-,hparts⟩
    have hto : targetParts [116,111,47,102]=some ([116,111],[102]) := rfl
    rw [hto] at hparts
    cases hparts
  | follow _ _ _ ih => exact ih

theorem descriptor_ownership_link :
    ∃ os',openWithDir (fun _ => linkFs) 0 8 [116,111] [115] 3 linkOs=some ((5,4),os') ∧
      ∃ out,Resolves targetParts (fun _ => linkFs) 3 8 0 false 0 [116,111] [115] out ∧
        Returned linkOs.table 5 4 os' out := by
  have hrun : openWithDir (fun _ => linkFs) 0 8 [116,111] [115] 3 linkOs=some ((5,4),
      ⟨⟨[some 9,some 9,some 9,some 0,some 2,some 1]⟩,eloop,
        [.opened 4,.opened 5,.closed 4,.opened 4]⟩) := by
    unfold openWithDir
    rw [openLoop_follow ⟨[116,111],[102],4,true⟩
      ⟨⟨[some 9,some 9,some 9,some 0,some 1]⟩,eloop,[.opened 4]⟩ rfl (by decide)]
    exact openLoop_done rfl
  exact ⟨_,hrun,(descriptor_ownership (fun _ => linkFs) 0 8 [116,111] [115] 3 linkOs _ 0 5 4 rfl rfl
    hrun).2 (.inl (by decide)) fun _ => linkFs_not_short⟩

/-- With no directory part the link is looked up from the caller's descriptor, and this one is closed:
its number is the file's then. -/
theorem caller_closed :
    ∃ os',openWithDir (fun _ => linkFs) 0 8 [] [115] 3 linkOs=some ((4,3),os') ∧
      os'.log=[.opened 4,.closed 3,.opened 3] ∧
      ¬∃ out,Resolves targetParts (fun _ => linkFs) 3 8 0 false 0 [] [115] out ∧
        Returned linkOs.table 4 3 os' out := by
  have hrun : openWithDir (fun _ => linkFs) 0 8 [] [115] 3 linkOs=some ((4,3),
      ⟨⟨[some 9,some 9,some 9,some 2,some 1]⟩,eloop,[.opened 4,.closed 3,.opened 3]⟩) := by
    unfold openWithDir
    rw [openLoop_follow ⟨[116,111],[102],3,true⟩
      ⟨⟨[some 9,some 9,some 9,some 0]⟩,eloop,[]⟩ rfl (by decide)]
    exact openLoop_done rfl
  refine ⟨_,hrun,rfl,?_⟩
  intro hout
  obtain ⟨out,-,hret⟩ := hout
  have hbroken : Broken (⟨⟨[some 9,some 9,some 9,some 2,some 1]⟩,eloop,
      [.opened 4,.closed 3,.opened 3]⟩ : Os Nat) := .inl rfl
  exact hbroken.not_returned hret

/-- The last part `s` is a link to `d/f` in every directory. There is such a file in `d`, and one with this
name in the root. -/
def shortFs : FileSystem Nat where
  openDir d path :=
    if path=[46] then .ok d
    else if path=[116,111] then .ok 1
    else if path=[100] then .ok 2
    else if path=[47] then .ok 3
    else .error ⟨enoent,by decide⟩
  openFile d base := if base=[115] then .error linkError else .ok (d+10)
  readlink _ _ := .ok [100,47,102]
  dup _ := .ok ()
  dot := by
    intro d d' h
    rw [if_pos rfl] at h
    cases h
    rfl

/-- The one in the root is returned. -/
theorem short_directory :
    ∃ os',openWithDir (fun _ => shortFs) 0 8 [116,111] [115] 3 linkOs=some ((5,4),os') ∧
      os'.table.get 5=some 3 ∧ os'.table.get 4=some 13 ∧
      Resolves targetParts (fun _ => shortFs) 3 8 0 false 0 [116,111] [115] (.ok (2,12)) := by
  have hrun : openWithDir (fun _ => shortFs) 0 8 [116,111] [115] 3 linkOs=some ((5,4),
      ⟨⟨[some 9,some 9,some 9,some 0,some 13,some 3]⟩,eloop,
        [.opened 4,.opened 5,.closed 4,.opened 4]⟩) := by
    unfold openWithDir
    rw [openLoop_follow ⟨[47],[102],4,true⟩
      ⟨⟨[some 9,some 9,some 9,some 0,some 1]⟩,eloop,[.opened 4]⟩ rfl (by decide)]
    exact openLoop_done rfl
  refine ⟨_,hrun,rfl,rfl,?_⟩
  have hlink : Link shortFs targetParts 0 [116,111] [115] 1 [100] [102] :=
    ⟨rfl,⟨linkError,rfl,rfl⟩,[100,47,102],rfl,rfl⟩
  exact .follow hlink (by decide) (.file rfl rfl fun h => absurd h (by decide))

end Files

end Dinit
