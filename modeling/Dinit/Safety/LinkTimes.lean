import Mathlib.Logic.Relation
import Dinit.Safety.OpenWithDir

namespace Dinit

namespace Files

variable {N : Type}

/-- Where a chain of links is: a directory, and a path from there -/
abbrev Place (N : Type) := N × List UInt8 × List UInt8

/-- A link leads from one place to another. -/
def LinkStep (fs : FileSystem N) (a b : Place N) : Prop :=
  Link fs targetParts a.1 a.2.1 a.2.2 b.1 b.2.1 b.2.2

/-- The chain comes to a place that leads to itself. -/
def Cyclic (fs : FileSystem N) (a : Place N) : Prop :=
  ∃ c,Relation.ReflTransGen (LinkStep fs) a c ∧ Relation.TransGen (LinkStep fs) c c

theorem Cyclic.next {fs : FileSystem N} {a : Place N} (h : Cyclic fs a) :
    ∃ b,LinkStep fs a b ∧ Cyclic fs b := by
  obtain ⟨c,hac,hcc⟩ := h
  cases hac using Relation.ReflTransGen.head_induction_on with
  | refl =>
    obtain ⟨b,hstep,hbc⟩ := Relation.TransGen.head'_iff.mp hcc
    exact ⟨b,hstep,_,hbc,hcc⟩
  | head hstep hbc => exact ⟨_,hstep,c,hbc,hcc⟩

/-- The rounds that a run comes to, with the number of links that may still be followed -/
inductive Reached (fs : FileSystem N) (cwd : N) (limit : Int) (s : Start) (os : Os N) :
    Int → Start → Os N → Prop
  | start : Reached fs cwd limit s os limit s os
  | next {times : Int} {s1 s2 : Start} {os1 os2 : Os N} :
      Reached fs cwd limit s os times s1 os1 → round fs cwd times s1 os1=.follow s2 os2 →
      Reached fs cwd limit s os (times-1) s2 os2

/-- The function returns, it counts no link below zero, and a cyclic chain is an error. -/
structure Terminates (fs : FileSystem N) (cwd r : N) (limit : Int) (s : Start) (os : Os N) : Prop where
  returns : ∃ res,openLoop (fun _ => fs) cwd limit 0 s os=some res
  counts : ∀ times s1 os1 r1,Reached fs cwd limit s os times s1 os1 →
    os1.node cwd s1.resolveFd=some r1 → IsLink fs r1 s1.dirname s1.basename → 0≤ times
  loops : Cyclic fs (r,s.dirname,s.basename) →
    ∃ os',openLoop (fun _ => fs) cwd limit 0 s os=some ((-1,(eloop : Int)),os')

section
variable {fs : FileSystem N} {cwd : N}

/-- A link is followed only while the count is not zero. -/
theorem followLink_follow {times p : Int} {c : Bool} {bn : List UInt8} {os os' : Os N} {s' : Start}
    (h : followLink fs cwd times p c bn os=.follow s' os') : times≠0 := by
  intro hzero
  unfold followLink at h
  rw [if_pos hzero] at h
  cases h

theorem followLink_ne_overflow {times p : Int} {c : Bool} {bn : List UInt8} {os : Os N}
    (hmin : ¬times≤ -2^63) : followLink fs cwd times p c bn os≠.overflow := by
  unfold followLink
  rw [if_neg hmin]
  split
  · exact (nomatch ·)
  · split
    · exact (nomatch ·)
    · split
      · exact (nomatch ·)
      · split
        · exact (nomatch ·)
        · exact (nomatch ·)

theorem ownParent_done (fs : FileSystem N) (cwd : N) (parent file : Int) (c : Bool) (os : Os N) :
    ∃ p f os',ownParent fs cwd parent file c os=.done p f os' := by
  unfold ownParent
  split
  · exact ⟨_,_,_,rfl⟩
  · generalize (if parent=atFdcwd then os.openat cwd atFdcwd fun n => fs.openDir n [46]
      else os.openat cwd parent fun n => (fs.dup n).map fun _ => n)=q
    dsimp only
    by_cases hq : q.1=-1
    · rw [if_pos hq]
      exact ⟨_,_,_,rfl⟩
    · rw [if_neg hq]
      exact ⟨_,_,_,rfl⟩

/-- A round returns, or it comes to a link. -/
theorem round_cases (fs : FileSystem N) (cwd : N) (times : Int) (s : Start) (os : Os N) :
    (∃ p f os',round fs cwd times s os=.done p f os') ∨
      ∃ p c os',round fs cwd times s os=followLink fs cwd times p c s.basename os' := by
  unfold round
  dsimp only
  split
  · exact .inl ⟨_,_,_,rfl⟩
  · split
    · split
      · exact .inr ⟨_,_,_,rfl⟩
      · exact .inl ⟨_,_,_,rfl⟩
    · exact .inl (ownParent_done ..)

theorem round_follow {times : Int} {s s' : Start} {os os' : Os N}
    (h : round fs cwd times s os=.follow s' os') : times≠0 := by
  obtain ⟨p,f,os1,hround⟩ | ⟨p,c,os1,hround⟩ := round_cases fs cwd times s os
  · rw [hround] at h
    cases h
  · rw [hround] at h
    exact followLink_follow h

theorem round_ne_overflow {times : Int} {s : Start} {os : Os N} (hmin : ¬times≤ -2^63) :
    round fs cwd times s os≠.overflow := by
  obtain ⟨p,f,os1,hround⟩ | ⟨p,c,os1,hround⟩ := round_cases fs cwd times s os
  · rw [hround]
    exact (nomatch ·)
  · rw [hround]
    exact followLink_ne_overflow hmin

/-- A round that does not come to a link returns. -/
theorem round_notLink (times : Int) {s : Start} {os : Os N} {r : N}
    (hr : os.node cwd s.resolveFd=some r) (hlink : ¬IsLink fs r s.dirname s.basename) :
    ∃ p f os',round fs cwd times s os=.done p f os' := by
  cases hpar : parentOf fs r s.dirname with
  | error e =>
    have hdir : s.dirname.length≠0 := by
      intro hzero
      unfold parentOf at hpar
      rw [if_pos hzero] at hpar
      cases hpar
    unfold parentOf at hpar
    rw [if_neg hdir] at hpar
    unfold round openParent
    rw [if_neg hdir,openat_eq hr,hpar]
    exact ⟨_,_,_,if_pos ⟨rfl,by omega⟩⟩
  | ok d =>
    obtain ⟨p,c,os1,hopen,hd,hne⟩ := openParent_ok hr hpar
    cases hfile : fs.openFile d s.basename with
    | error e =>
      rw [round_error hopen hne hd hfile,if_neg fun hloop => hlink ⟨d,hpar,e,hfile,hloop⟩]
      exact ⟨_,_,_,rfl⟩
    | ok f =>
      rw [round_file hopen hne hd hfile]
      exact ownParent_done ..

/-- At the limit a link is an error. -/
theorem round_zero {s : Start} {os : Os N} {r : N} (hr : os.node cwd s.resolveFd=some r)
    (h : IsLink fs r s.dirname s.basename) : ∃ os',round fs cwd 0 s os=.done (-1) eloop os' := by
  obtain ⟨d,p,c,os1,-,-,hround⟩ := round_isLink 0 hr h
  rw [hround]
  unfold followLink
  exact ⟨_,if_pos rfl⟩

end

section
variable {fs : FileSystem N} {cwd : N}

/-- From a count that is not negative the loop ends, since each link takes one off it. -/
theorem openLoop_returns {times : Int} (k : Nat) (s : Start) (os : Os N) (h : 0≤ times) :
    ∃ res,openLoop (fun _ => fs) cwd times k s os=some res := by
  fun_induction openLoop (fun _ => fs) cwd times k s os with
  | case1 => exact ⟨_,rfl⟩
  | case2 times k s os hround => exact absurd hround (round_ne_overflow (by omega))
  | case3 times k s os s1 os1 hround hmin => omega
  | case4 times k s os s1 os1 hround hmin ih =>
    have hzero := round_follow hround
    exact ih (by omega)

/-- The links that are followed from here on lead to no directory with a name of one byte. -/
def LongOnly (fs : FileSystem N) (times : Int) (k : Nat) (a : Place N) : Prop :=
  ∀ path,ComesTo (fun _ => fs) path times k a.1 a.2.1 a.2.2 → ¬ShortDirectory path

/-- There the function goes on as the system does. -/
theorem LongOnly.link {times : Int} {k : Nat} {a b : Place N} (h : LongOnly fs times k a)
    (hlink : LinkStep fs a b) (hzero : times≠0) :
    Link fs splitTarget a.1 a.2.1 a.2.2 b.1 b.2.1 b.2.2 ∧ LongOnly fs (times-1) (k+1) b := by
  obtain ⟨hpar,⟨e,hfile,hloop⟩,path,hread,hparts⟩ := id hlink
  have hshort := h path (.here hpar hfile hloop hzero hread)
  refine ⟨⟨hpar,⟨e,hfile,hloop⟩,path,hread,(splitTarget_of_not_short hshort).trans hparts⟩,?_⟩
  exact fun p hp => h p (.follow hlink hzero hp)

/-- On a chain that has no end the count is used up. -/
theorem openLoop_cyclic {times : Int} (k : Nat) (s : Start) (os : Os N) {r : N} (h : 0≤ times)
    (hr : os.node cwd s.resolveFd=some r) (hcyc : Cyclic fs (r,s.dirname,s.basename))
    (hlong : LongOnly fs times k (r,s.dirname,s.basename)) :
    ∃ os',openLoop (fun _ => fs) cwd times k s os=some ((-1,(eloop : Int)),os') := by
  induction hn : times.toNat generalizing times k s os r with
  | zero =>
    obtain ⟨b,hlink,-⟩ := hcyc.next
    have hzero : times=0 := by omega
    obtain ⟨os',hround⟩ := round_zero hr (Link.isLink hlink)
    rw [hzero]
    exact ⟨os',openLoop_done hround⟩
  | succ n ih =>
    obtain ⟨b,hlink,hb⟩ := hcyc.next
    have hmin : ¬times≤ -2^63 := by omega
    obtain ⟨hlink,hlong⟩ := hlong.link hlink (by omega)
    obtain ⟨p,os1,hd,hround⟩ := round_link times hr hlink (by omega)
    rw [if_neg hmin] at hround
    rw [openLoop_follow _ _ hround hmin]
    exact ih (k+1) ⟨b.2.1,b.2.2,p,true⟩ os1 (by omega) hd hb hlong (by omega)

/-- From a negative count the loop goes on for ever on such a chain, until the count overflows. -/
theorem openLoop_overflows {times : Int} (k : Nat) (s : Start) (os : Os N) {r : N} (h : times<0)
    (hr : os.node cwd s.resolveFd=some r) (hcyc : Cyclic fs (r,s.dirname,s.basename))
    (hlong : LongOnly fs times k (r,s.dirname,s.basename)) :
    openLoop (fun _ => fs) cwd times k s os=none := by
  induction hn : (times+2^63).toNat generalizing times k s os r with
  | zero =>
    obtain ⟨b,hlink,-⟩ := hcyc.next
    have hmin : times≤ -2^63 := by omega
    obtain ⟨hlink,-⟩ := hlong.link hlink (by omega)
    obtain ⟨p,os1,-,hround⟩ := round_link times hr hlink (by omega)
    rw [if_pos hmin] at hround
    rw [openLoop,hround]
  | succ n ih =>
    obtain ⟨b,hlink,hb⟩ := hcyc.next
    have hmin : ¬times≤ -2^63 := by omega
    obtain ⟨hlink,hlong⟩ := hlong.link hlink (by omega)
    obtain ⟨p,os1,hd,hround⟩ := round_link times hr hlink (by omega)
    rw [if_neg hmin] at hround
    rw [openLoop_follow _ _ hround hmin]
    exact ih (k+1) ⟨b.2.1,b.2.2,p,true⟩ os1 (by omega) hd hb hlong (by omega)

theorem Reached.nonneg {limit times : Int} {s s1 : Start} {os os1 : Os N}
    (h : Reached fs cwd limit s os times s1 os1) (hlimit : 0≤ limit) : 0≤ times := by
  induction h with
  | start => exact hlimit
  | next _ hround ih =>
    have hzero := round_follow hround
    omega

/-- Without a link there is only one round. -/
theorem Reached.only {limit times : Int} {s s1 : Start} {os os1 : Os N} {p f : Int} {os' : Os N}
    (h : Reached fs cwd limit s os times s1 os1) (hdone : round fs cwd limit s os=.done p f os') :
    times=limit ∧ s1=s ∧ os1=os := by
  induction h with
  | start => exact ⟨rfl,rfl,rfl⟩
  | next _ hround ih =>
    obtain ⟨rfl,rfl,rfl⟩ := ih
    rw [hdone] at hround
    cases hround

end

/-- The function returns after finitely many links, with `ELOOP` for a cyclic chain, only if the limit is
not negative, as it is where the system sets none, or there is no link to follow. That is enough, unless
the chain is cyclic and has a link to a directory with a name of one byte. -/
theorem link_times (fs : FileSystem N) (cwd : N) (limit : Int) (dirname basename : List UInt8)
    (resolveFd : Int) (os : Os N) (r : N) (hr : os.node cwd resolveFd=some r) :
    (Terminates fs cwd r limit ⟨dirname,basename,resolveFd,false⟩ os →
      0≤ limit ∨ ¬IsLink fs r dirname basename) ∧
    (0≤ limit ∨ ¬IsLink fs r dirname basename →
      (Cyclic fs (r,dirname,basename) → LongOnly fs limit 0 (r,dirname,basename)) →
      Terminates fs cwd r limit ⟨dirname,basename,resolveFd,false⟩ os) := by
  refine ⟨fun h => ?_,fun h hlong => ?_⟩
  · by_cases hlink : IsLink fs r dirname basename
    · exact .inl (h.counts limit _ os r .start hr hlink)
    · exact .inr hlink
  · by_cases hlimit : 0≤ limit
    · exact ⟨openLoop_returns 0 _ os hlimit,fun _ _ _ _ hreached _ _ => hreached.nonneg hlimit,
        fun hcyc => openLoop_cyclic 0 _ os hlimit hr hcyc (hlong hcyc)⟩
    · have hlink : ¬IsLink fs r dirname basename := h.resolve_left hlimit
      obtain ⟨p,f,os1,hround⟩ :=
        round_notLink limit (s := ⟨dirname,basename,resolveFd,false⟩) hr hlink
      refine ⟨⟨_,openLoop_done hround⟩,?_,?_⟩
      · intro times s1 os2 r1 hreached hr1 hlink1
        obtain ⟨-,rfl,rfl⟩ := hreached.only hround
        have hsame : r1=r := by
          rw [hr] at hr1
          exact (Option.some.inj hr1).symm
        rw [hsame] at hlink1
        exact absurd hlink1 hlink
      · intro hcyc
        obtain ⟨b,hb,-⟩ := hcyc.next
        exact absurd (Link.isLink hb) hlink

/-- The last part is a link to `s` in every directory. -/
def loopFs : FileSystem Nat where
  openDir := linkFs.openDir
  openFile _ _ := .error linkError
  readlink _ _ := .ok [115]
  dup := linkFs.dup
  dot := linkFs.dot

theorem loopFs_long (times : Int) (k : Nat) (a : Place Nat) : LongOnly loopFs times k a := by
  obtain ⟨r,dn,bn⟩ := a
  intro path h
  dsimp only at h
  induction h with
  | here _ _ _ _ hread =>
    obtain rfl := Except.ok.inj hread
    rintro ⟨c,name,-,hparts⟩
    have hs : targetParts [115]=some ([],[115]) := rfl
    rw [hs] at hparts
    cases hparts
  | follow _ _ _ ih => exact ih

theorem loopFs_cyclic : Cyclic loopFs (0,[116,111],[115]) := by
  have hself : LinkStep loopFs (1,[],[115]) (1,[],[115]) :=
    ⟨rfl,⟨linkError,rfl,rfl⟩,[115],rfl,rfl⟩
  have hfirst : LinkStep loopFs (0,[116,111],[115]) (1,[],[115]) :=
    ⟨rfl,⟨linkError,rfl,rfl⟩,[115],rfl,rfl⟩
  exact ⟨_,.single hfirst,.single hself⟩

theorem link_times_eight : Terminates loopFs 0 0 8 ⟨[116,111],[115],atFdcwd,false⟩ linkOs :=
  (link_times loopFs 0 8 [116,111] [115] atFdcwd linkOs 0 rfl).2 (.inl (by decide))
    fun _ => loopFs_long 8 0 _

/-- Where the system sets no limit, `sysconf` returns `-1`. -/
theorem no_limit :
    openWithDir (fun _ => loopFs) 0 (-1) [116,111] [115] atFdcwd linkOs=none ∧
      ¬Terminates loopFs 0 0 (-1) ⟨[116,111],[115],atFdcwd,false⟩ linkOs := by
  have hnone : openLoop (fun _ => loopFs) 0 (-1) 0 ⟨[116,111],[115],atFdcwd,false⟩ linkOs=none :=
    openLoop_overflows 0 _ linkOs (by decide) rfl loopFs_cyclic (loopFs_long _ _ _)
  refine ⟨hnone,fun h => ?_⟩
  obtain ⟨res,hres⟩ := h.returns
  rw [hnone] at hres
  cases hres

theorem enoent_ne : enoent≠0 := by decide

/-- In `to` the last part `s` is a link to `d/s`, and in `to/d` one to `../s`. -/
def shortLoopFs : FileSystem Nat where
  openDir d path :=
    if path=[46] then .ok d
    else if path=[116,111] then .ok 1
    else if d=1 ∧ path=[100] then .ok 2
    else if d=2 ∧ path=[46,46] then .ok 1
    else if path=[47] then .ok 3
    else .error ⟨enoent,enoent_ne⟩
  openFile d base :=
    if d=3 then .error ⟨enoent,enoent_ne⟩
    else if base=[115] then .error linkError
    else .error ⟨enoent,enoent_ne⟩
  readlink d _ := if d=1 then .ok [100,47,115] else .ok [46,46,47,115]
  dup _ := .ok ()
  dot := by
    intro d d' h
    rw [if_pos rfl] at h
    cases h
    rfl

/-- The links lead from one to the other, and the function looks for `s` in the root. -/
theorem short_cycle : Cyclic shortLoopFs (0,[116,111],[115]) ∧
    ¬Terminates shortLoopFs 0 0 8 ⟨[116,111],[115],atFdcwd,false⟩ linkOs := by
  have hfirst : LinkStep shortLoopFs (0,[116,111],[115]) (1,[100],[115]) :=
    ⟨rfl,⟨linkError,rfl,rfl⟩,[100,47,115],rfl,rfl⟩
  have hdown : LinkStep shortLoopFs (1,[100],[115]) (2,[46,46],[115]) :=
    ⟨rfl,⟨linkError,rfl,rfl⟩,[46,46,47,115],rfl,rfl⟩
  have hup : LinkStep shortLoopFs (2,[46,46],[115]) (1,[100],[115]) :=
    ⟨rfl,⟨linkError,rfl,rfl⟩,[100,47,115],rfl,rfl⟩
  have hcyc : Cyclic shortLoopFs (0,[116,111],[115]) :=
    ⟨_,.single hfirst,.head hdown (.single hup)⟩
  refine ⟨hcyc,fun h => ?_⟩
  obtain ⟨os',hrun⟩ := h.loops hcyc
  rw [openLoop_follow ⟨[47],[115],4,true⟩
    ⟨⟨[some 9,some 9,some 9,some 0,some 1]⟩,eloop,[.opened 4]⟩ rfl (by decide),
    openLoop_done (p := -1) (f := (enoent : Int)) rfl] at hrun
  cases hrun

end Files

end Dinit
