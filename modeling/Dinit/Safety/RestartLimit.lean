import Dinit.Framework.Window
import Dinit.Run.Reachable
import Dinit.Run.Spared
import Mathlib.Algebra.Order.Ring.Nat
import Mathlib.Order.Interval.Finset.Nat

namespace Dinit

open Framework Framework.Comp Framework.Window

/-- Where the restart interval of a service stands -/
def World.limit (w : World) (i : Nat) : Window.State Nat :=
  ⟨(w.core.svc i).proc.restartIntervalTime,(w.core.svc i).proc.restartIntervalCount⟩

def World.restartInterval (w : World) (i : Nat) : Nat := (w.core.svc i).settings.restartInterval

def World.maxRestarts (w : World) (i : Nat) : Nat :=
  (w.core.svc i).settings.maxRestartIntervalCount

/-- Nothing that restart limiting reads is changed, and time does not go back. -/
structure LimitKept (i : Nat) (w w' : World) : Prop where
  settings : (w'.core.svc i).settings=(w.core.svc i).settings
  limit : w'.limit i=w.limit i
  now : w.core.now ≤ w'.core.now

/-- What an answer of `check_restart` is. -/
def checkMark (w : World) (i : Nat) (ok : Bool) : Mark :=
  let s := w.core.svc i
  if ¬ok then .refusal
  else if w.core.now-s.proc.restartIntervalTime< s.settings.restartInterval then .grant
  else .rollover

/-- The consultations of `check_restart` and the resets by `bring_up`, with the clock readings. What
happens between them is left open, but that it leaves the restart interval alone. -/
inductive Consults (rec : Rec) (i : Nat) : World → List (Nat × Mark) → World → Prop
  | nil {w} : Consults rec i w [] w
  | other {w w1 w2 h} (hk : LimitKept i w w1) (hr : Consults rec i w1 h w2) : Consults rec i w h w2
  | check {w w1 w2 h ok} (hc : checkRestart i w=(some ok,w1)) (hr : Consults rec i w1 h w2) :
      Consults rec i w ((w.core.now,checkMark w i ok)::h) w2
  | bringUp {w w0 w1 w2 h ok} (hs : openSocket i w=(some true,w0))
      (ha : (w0.core.svc i).inAutoRestart=false) (hb : procBringUp rec i w=(some ok,w1))
      (hr : Consults rec i w1 h w2) : Consults rec i w ((w.core.now,.reset)::h) w2

/-- The result of a computation that returns -/
theorem Returns.result {α : Type} {m : M α} {w w' : World} {a : α} {Q : α → World → Prop}
    (h : Returns m w Q) (hm : m w=(some a,w')) : Q a w' := by
  obtain ⟨b,w'',hb,hq⟩ := h
  obtain ⟨rfl,rfl⟩ : b=a ∧ w''=w' := by simpa [hm] using hb.symm
  exact hq

theorem setSvc_self (w : World) (i : Nat) (f : Svc → Svc) :
    ((w.onCore fun c => c.setSvc i f).core.svc i)=f (w.core.svc i) := if_pos rfl

theorem setProc_self (w : World) (i : Nat) (f : Proc → Proc) :
    ((w.onCore fun c => c.setProc i f).core.svc i)=
      { w.core.svc i with proc := f (w.core.svc i).proc } := if_pos rfl

/-- `check_restart` is a step of a limiter. -/
theorem checkRestart_step {w w' : World} {i : Nat} {ok : Bool}
    (ht : (w.core.svc i).getType=.process ∨ (w.core.svc i).getType=.bgprocess)
    (hmax : 0< w.maxRestarts i)
    (hle : (w.limit i).opened ≤ w.core.now) (hc : checkRestart i w=(some ok,w')) :
    Window.Step (w.restartInterval i) (w.maxRestarts i) (w.limit i)
      (w.core.now,checkMark w i ok) (w'.limit i) ∧
    (w'.core.svc i).settings=(w.core.svc i).settings ∧ w'.core.now=w.core.now := by
  refine Returns.result (Q := fun ok w' => Window.Step _ _ _ (_,checkMark w i ok) (w'.limit i) ∧
    (w'.core.svc i).settings=(w.core.svc i).settings ∧ w'.core.now=w.core.now) ?_ hc
  unfold checkRestart World.restartInterval World.maxRestarts
  unfold World.maxRestarts at hmax
  apply returns_getSvc
  refine returns_bind ⟨_,w,rfl,?_⟩
  simp only [World.limit] at hle
  refine returns_ite (fun _ => ?_) fun hn => absurd ⟨ht,Nat.ne_of_gt hmax⟩ hn
  apply returns_ite
  · intro hin
    have hlt : w.core.now< (w.core.svc i).proc.restartIntervalTime+
        (w.core.svc i).settings.restartInterval := by omega
    apply returns_ite
    · intro hfull
      refine returns_onCore (returns_pure ⟨?_,by rw [setSvc_self],rfl⟩)
      simpa [World.limit,setSvc_self,checkMark] using
        Window.Step.refusal (s := w.limit i) hfull hlt
    · intro hfull
      have hmark : checkMark w i true=.grant := by simp [checkMark,hin]
      refine returns_onCore (returns_pure ⟨?_,by rw [setProc_self],rfl⟩)
      rw [hmark]
      simpa [World.limit,setProc_self] using
        Window.Step.grant (s := w.limit i) (Nat.not_le.mp hfull) hlt
  · intro hout
    have hge : (w.core.svc i).proc.restartIntervalTime+
        (w.core.svc i).settings.restartInterval ≤ w.core.now := by omega
    have hmark : checkMark w i true=.rollover := by simp [checkMark,hout]
    refine returns_onCore (returns_pure ⟨?_,by rw [setProc_self],rfl⟩)
    rw [hmark]
    simpa [World.limit,setProc_self] using
      Window.Step.rollover (s := w.limit i) hge

/-- The settings and the clock are as before. -/
def SameSettings (i : Nat) (w w' : World) : Prop :=
  (w'.core.svc i).settings=(w.core.svc i).settings ∧ w'.core.now=w.core.now

theorem returns_sysResult (w : World) : Returns sysResult w fun _ w' => w'.core=w.core := by
  cases hw : w.sys with
  | nil => exact ⟨{},w,by simp [sysResult,hw],rfl⟩
  | cons r rs => exact ⟨r,{ w with sys := rs },by simp [sysResult,hw],rfl⟩

theorem openSocket_kept (w : World) (i : Nat) :
    Returns (openSocket i) w fun _ w' => SameSettings i w w' := by
  unfold openSocket
  apply returns_getSvc
  apply returns_ite
  · intro _
    exact returns_pure ⟨rfl,rfl⟩
  · intro _
    refine returns_seq (returns_sysResult w) fun r w1 h1 => ?_
    refine returns_onCore (returns_pure ⟨?_,?_⟩)
    · rw [setProc_self,h1]
    · have hnow := congrArg Core.now h1
      exact hnow

theorem startPsProcess_kept (w : World) (i : Nat) :
    Returns (startPsProcess i) w fun _ w' => SameSettings i w w' ∧
      (w'.core.svc i).proc.lastStartTime=w.core.now ∧
      (w'.core.svc i).proc.restartIntervalCount=(w.core.svc i).proc.restartIntervalCount := by
  unfold startPsProcess
  apply returns_call
  refine returns_bind ⟨_,_,rfl,?_⟩
  apply returns_onCore
  refine returns_seq (returns_sysResult _) fun r w1 h1 => ?_
  have hset : SameSettings i w w1 ∧ (w1.core.svc i).proc.lastStartTime=w.core.now ∧
      (w1.core.svc i).proc.restartIntervalCount=(w.core.svc i).proc.restartIntervalCount := by
    unfold SameSettings
    rw [h1,setProc_self]
    exact ⟨⟨rfl,rfl⟩,rfl,rfl⟩
  cases hfork : r.fork with
  | none => exact returns_pure hset
  | some n =>
    apply returns_getSvc
    refine returns_onCore (returns_pure ?_)
    unfold SameSettings
    rw [setProc_self]
    exact hset

theorem resetStopstartTimer_interval (p : Proc) (t : Nat) :
    (p.resetStopstartTimer t).restartIntervalTime=p.restartIntervalTime ∧
      (p.resetStopstartTimer t).restartIntervalCount=p.restartIntervalCount := by
  unfold Proc.resetStopstartTimer Proc.armStopstartTimer Proc.stopStopstartTimer
  split_ifs <;> exact ⟨rfl,rfl⟩

/-- `bring_up` opens an interval, if it is not for an automatic restart. -/
theorem procBringUp_reset {rec : Rec} {w w0 w' : World} {i : Nat} {ok : Bool}
    (hs : openSocket i w=(some true,w0)) (ha : (w0.core.svc i).inAutoRestart=false)
    (hb : procBringUp rec i w=(some ok,w')) :
    w'.limit i=⟨w.core.now,0⟩ ∧ SameSettings i w w' := by
  have h0 := Returns.result (openSocket_kept w i) hs
  refine Returns.result (Q := fun _ w' => w'.limit i=⟨w.core.now,0⟩ ∧ SameSettings i w w') ?_ hb
  unfold procBringUp
  refine returns_bind ⟨true,w0,hs,?_⟩
  refine returns_ite (fun h => absurd rfl h) fun _ => ?_
  apply returns_getSvc
  refine returns_ite (fun h => absurd h (by simp [ha])) fun _ => ?_
  apply returns_onCore
  refine returns_seq (startPsProcess_kept _ i) fun ok w1 h1 => ?_
  apply returns_onCore
  obtain ⟨⟨hset,hnow⟩,hstart,hcount⟩ := h1
  rw [setProc_self] at hset hcount
  have hreset : (w1.onCore fun c => c.setProc i fun p =>
      { p with restartIntervalTime := p.lastStartTime }).limit i=⟨w.core.now,0⟩ ∧
      SameSettings i w (w1.onCore fun c => c.setProc i fun p =>
        { p with restartIntervalTime := p.lastStartTime }) := by
    unfold World.limit SameSettings
    rw [setProc_self,hcount,hstart,hset]
    refine ⟨?_,h0.1,hnow.trans h0.2⟩
    rw [← h0.2]
    rfl
  cases ok with
  | false => exact returns_pure hreset
  | true =>
    refine returns_onCore (returns_pure ?_)
    unfold World.limit SameSettings at hreset ⊢
    rw [setProc_self]
    rw [(resetStopstartTimer_interval _ _).1,(resetStopstartTimer_interval _ _).2]
    exact hreset

/-- Restarts are limited, and the interval was not opened in the future. -/
structure Limited (i : Nat) (w : World) : Prop where
  type : (w.core.svc i).getType=.process ∨ (w.core.svc i).getType=.bgprocess
  max : 0< w.maxRestarts i
  opened : (w.limit i).opened ≤ w.core.now

theorem Limited.of_settings {i : Nat} {w w1 : World} (hw : Limited i w)
    (hset : (w1.core.svc i).settings=(w.core.svc i).settings)
    (ho : (w1.limit i).opened ≤ w1.core.now) : Limited i w1 where
  type := by
    unfold Svc.getType
    rw [hset]
    exact hw.type
  max := by
    unfold World.maxRestarts
    rw [hset]
    exact hw.max
  opened := ho

theorem restartInterval_eq {i : Nat} {w w1 : World}
    (hset : (w1.core.svc i).settings=(w.core.svc i).settings) :
    w1.restartInterval i=w.restartInterval i := congrArg Settings.restartInterval hset

theorem maxRestarts_eq {i : Nat} {w w1 : World}
    (hset : (w1.core.svc i).settings=(w.core.svc i).settings) :
    w1.maxRestarts i=w.maxRestarts i := congrArg Settings.maxRestartIntervalCount hset

/-- The history is a run of a limiter, in the order of time. -/
def RunsFrom (i : Nat) (w : World) (h : List (Nat × Mark)) (w' : World) : Prop :=
  Window.Run (w.restartInterval i) (w.maxRestarts i) (w.limit i) h (w'.limit i) ∧
    (w.core.now::h.map Prod.fst).Pairwise (· ≤ ·)

theorem RunsFrom.cons {i : Nat} {w w1 w2 : World} {m : Mark} {h : List (Nat × Mark)}
    (hs : Window.Step (w.restartInterval i) (w.maxRestarts i) (w.limit i) (w.core.now,m) (w1.limit i))
    (hset : SameSettings i w w1) (hr : RunsFrom i w1 h w2) : RunsFrom i w ((w.core.now,m)::h) w2 := by
  obtain ⟨hrun,hord⟩ := hr
  rw [restartInterval_eq hset.1,maxRestarts_eq hset.1] at hrun
  rw [hset.2] at hord
  refine ⟨.cons hs hrun,List.pairwise_cons.mpr ⟨?_,hord⟩⟩
  intro t hmem
  cases hmem with
  | head => exact le_refl _
  | tail _ hmem => exact (List.pairwise_cons.mp hord).1 t hmem

theorem Consults.runs {rec : Rec} {i : Nat} {w w' : World} {h : List (Nat × Mark)}
    (hr : Consults rec i w h w') (hw : Limited i w) : RunsFrom i w h w' := by
  induction hr with
  | nil => exact ⟨.nil,List.pairwise_singleton _ _⟩
  | other hk _ ih =>
    have ho := hw.opened.trans hk.now
    rw [← hk.limit] at ho
    obtain ⟨hrun,hord⟩ := ih (hw.of_settings hk.settings ho)
    rw [restartInterval_eq hk.settings,maxRestarts_eq hk.settings,hk.limit] at hrun
    obtain ⟨hhead,htail⟩ := List.pairwise_cons.mp hord
    exact ⟨hrun,List.pairwise_cons.mpr ⟨fun t hmem => hk.now.trans (hhead t hmem),htail⟩⟩
  | check hc _ ih =>
    obtain ⟨hs,hset⟩ := checkRestart_step hw.type hw.max hw.opened hc
    have ho := hs.opened_le hw.opened
    rw [← hset.2] at ho
    exact .cons hs hset (ih (hw.of_settings hset.1 ho))
  | bringUp hb ha hp _ ih =>
    obtain ⟨hlimit,hset⟩ := procBringUp_reset hb ha hp
    have ho : _ ≤ _ := le_of_eq ((congrArg Window.State.opened hlimit).trans hset.2.symm)
    exact .cons (hlimit ▸ .reset) hset (ih (hw.of_settings hset.1 ho))

/-- Between two openings of the restart interval no more restarts are granted than the limit; a
restart is refused only if that many were granted since less than the interval; a span of time as
long as the interval contains no more grants than twice the limit, besides those that resets in it
enable; and the count stays within the limit. -/
theorem restarts_limited {rec : Rec} {i : Nat} {w w' : World} {h : List (Nat × Mark)}
    (hr : Consults rec i w h w')
    (ht : (w.core.svc i).getType=.process ∨ (w.core.svc i).getType=.bgprocess)
    (hmax : 0< w.maxRestarts i) (hfresh : w.limit i=⟨0,0⟩) :
    (∀ a b c,h=a++b++c → NoOpening b.tail → granted b ≤ w.maxRestarts i) ∧
    (∀ a t c,h=a++(t,.refusal)::c → ∃ b opened,OpenedAt 0 a b opened ∧
      granted b=w.maxRestarts i ∧ t< opened+w.restartInterval i) ∧
    (∀ x,grantsIn (Set.Ico x (x+w.restartInterval i)) h
        ≤ 2*w.maxRestarts i+enabledIn (Set.Ico x (x+w.restartInterval i)) false h ∧
      grantsIn (Set.Ioc x (x+w.restartInterval i)) h
        ≤ 2*w.maxRestarts i+enabledIn (Set.Ioc x (x+w.restartInterval i)) false h ∧
      (0< w.restartInterval i → grantsIn (Set.Icc x (x+w.restartInterval i)) h
        ≤ 2*w.maxRestarts i+enabledIn (Set.Icc x (x+w.restartInterval i)) false h)) ∧
    (w'.limit i).count ≤ w.maxRestarts i := by
  have hopened : (w.limit i).opened ≤ w.core.now := by
    rw [hfresh]
    exact Nat.zero_le _
  obtain ⟨hrun,hord⟩ := hr.runs ⟨ht,hmax,hopened⟩
  rw [hfresh] at hrun
  have hspan := fun S [DecidablePred (· ∈ S)] => hrun.grantsIn_le (S := S) hmax hord
  refine ⟨?_,?_,fun x => ⟨?_,?_,fun hpos => ?_⟩,hrun.count_le hmax (Nat.zero_le _)⟩
  · rintro a b c rfl hn
    exact hrun.granted_le hmax (Nat.zero_le _) hn
  · rintro a t c rfl
    exact hrun.refused hmax rfl
  · refine hspan _ Set.ordConnected_Ico (fun t ht u hu => ?_) ?_
    · have h1 := ht.2
      have h2 := hu.1
      omega
    · by_cases hpos : 0< w.restartInterval i
      · exact .inl hpos
      · right
        rintro t ⟨h1,h2⟩
        omega
  · refine hspan _ Set.ordConnected_Ioc (fun t ht u hu => ?_) ?_
    · have h1 := ht.2
      have h2 := hu.1
      omega
    · by_cases hpos : 0< w.restartInterval i
      · exact .inl hpos
      · right
        rintro t ⟨h1,h2⟩
        omega
  · refine hspan _ Set.ordConnected_Icc (fun t ht u hu => ?_) (.inl hpos)
    have h1 := ht.2
    have h2 := hu.1
    omega

/-- `check_restart`, at a later time -/
def consultAt (i t : Nat) (w : World) : World := (checkRestart i (w.poll t [])).2

theorem Consults.consultAt {rec : Rec} {i t : Nat} {w w' : World} {h : List (Nat × Mark)} (ok : Bool)
    (hnow : w.core.now ≤ t) (hok : (checkRestart i (w.poll t [])).1=some ok)
    (hr : Consults rec i (consultAt i t w) h w') :
    Consults rec i w ((t,checkMark (w.poll t []) i ok)::h) w' := by
  have hk : LimitKept i w (w.poll t []) := ⟨rfl,rfl,hnow⟩
  exact .other hk (.check (Prod.ext hok rfl) hr)

/-- A process service, five nanoseconds after the clock started, whose child can be forked -/
def oneProcess : World :=
  (World.load (Core.loaded [{recordType := .process}] [])).poll 5 [{ fork := some 41 }]

/-- `bring_up` opens the interval; three restarts are granted in it and a fourth is refused, and
after ten seconds one is granted again. -/
def restartHistory : List (Nat × Mark) :=
  [(5,.reset),(6,.grant),(7,.grant),(8,.grant),(9,.refusal),(10000000005,.rollover)]

theorem restarts_limited_process : ∃ w',Consults (calls 0) 0 oneProcess restartHistory w' ∧
    (w'.limit 0).count ≤ 3 ∧ grantsIn (Set.Ico 5 (5+10000000000)) restartHistory
      ≤ 6+enabledIn (Set.Ico 5 (5+10000000000)) false restartHistory := by
  have hup : procBringUp (calls 0) 0 oneProcess=
      (some true,(procBringUp (calls 0) 0 oneProcess).2) := Prod.ext (by decide +kernel) rfl
  have hrun : Consults (calls 0) 0 oneProcess restartHistory _ :=
    .bringUp rfl rfl hup <|
    .consultAt true (by decide +kernel) (by decide +kernel) <|
    .consultAt true (by decide +kernel) (by decide +kernel) <|
    .consultAt true (by decide +kernel) (by decide +kernel) <|
    .consultAt false (by decide +kernel) (by decide +kernel) <|
    .consultAt true (by decide +kernel) (by decide +kernel) .nil
  obtain ⟨-,-,hspan,hcount⟩ := restarts_limited hrun (.inl rfl) (by decide) rfl
  exact ⟨_,hrun,hcount,(hspan 5).1⟩

end Dinit
