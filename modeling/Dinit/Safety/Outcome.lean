import Dinit.Client.StartStop
import Dinit.Safety.Listing

namespace Dinit

open Framework Framework.Reader Client

/-- What is sent to a client that has issued a command: events before it is processed, those that
processing it causes, and those behind the reply, which says that the service is to change its
state or that it is in that state already. A restart is acknowledged before it is processed. -/
structure Session where
  command : CtlCmd
  handle : UInt32
  before : List Info
  during : List Info
  behind : List Info
  already : Bool
  sized : ∀ i ∈ before++during++behind,i.Sized

namespace Session

def reply (s : Session) : UInt8 := if s.already then 61 else 50

def bytes (s : Session) : List UInt8 :=
  infoBytes s.before++((if s.command=.restartService then [79] else [])++
    (infoBytes s.during++s.reply::infoBytes s.behind))

/-- The outcome of the command: success when the service is in the state already, and otherwise
what the events since the command was processed tell, as soon as they tell it. -/
def expected (s : Session) : Option Bool :=
  if s.already then some true else outcome s.handle s.command (s.during++s.behind)

/-- The client returns exactly when there is an outcome, and returns it. -/
def Told (s : Session) (ignoreUnstarted : Bool) (b : Buffered UInt8 1024) : Prop :=
  ∀ code,(∃ b',startStopService s.command s.handle true ignoreUnstarted b=(.ok code,b')) ↔
    s.expected.map exitCode=some code

theorem reply_cases (s : Session) : s.reply=61 ∧ s.already=true ∨ s.reply=50 ∧ s.already=false := by
  unfold reply
  cases s.already with
  | false => exact .inr ⟨rfl,rfl⟩
  | true => exact .inl ⟨rfl,rfl⟩

theorem isInfo_reply (s : Session) : isInfo s.reply=false := by
  rcases s.reply_cases with ⟨h,-⟩ | ⟨h,-⟩ <;> rw [h] <;> decide

theorem reply_ne (s : Session) : s.reply≠79 := by
  rcases s.reply_cases with ⟨h,-⟩ | ⟨h,-⟩ <;> rw [h] <;> decide

theorem infoBytes_append (is js : List Info) : infoBytes (is++js)=infoBytes is++infoBytes js :=
  List.flatMap_append

/-- The reply that counts is found. For a restart, what was seen is what has happened since the first
acknowledgement. -/
theorem mainReply_run (s : Session) {b : Buffered UInt8 1024} {k : Nat} (hb : b.At s.bytes k) :
    ∃ seen b',mainReply s.handle b=(.ok (s.reply,seen),b') ∧ b'.At (infoBytes s.behind) 0 ∧
      (s.command=.restartService → seen.stopped=sawStopped s.handle s.during) := by
  have hsized := s.sized
  have hhead : (s.reply::infoBytes s.behind)[0]?=some s.reply := rfl
  by_cases hc : s.command=.restartService
  · rw [bytes,if_pos hc] at hb
    obtain ⟨b1,he1,hb1⟩ := waitForReplySeen_gives s.handle {} (r := 79)
      (fun i hi => hsized i (by simp [hi])) (by decide) b hb
    generalize s.before.foldl (fun x => x.see s.handle) ({} : ObservedStates)=seen at he1
    have he2 := byteAt_run (ε := ClientError) hb1 hb1.len (x := 79) rfl
    obtain ⟨b3,he3,hb3⟩ := gives_consume (ε := ClientError) (by decide) (le_refl 1) b1 hb1
    obtain ⟨b4,he4,hb4⟩ := waitForReplySeen_gives s.handle
      { seen with started := false, stopped := false, failedStart := false }
      (fun i hi => hsized i (by simp [hi])) s.isInfo_reply b3 hb3
    have he5 := byteAt_run (ε := ClientError) hb4 hb4.len hhead
    obtain ⟨b6,he6,hb6⟩ := gives_consume (ε := ClientError) (by decide) (le_refl 1) b4 hb4
    refine ⟨s.during.foldl (fun x => x.see s.handle)
      { seen with started := false, stopped := false, failedStart := false },b6,?_,hb6,fun _ => ?_⟩
    · rw [mainReply,bind_ok he1,bind_ok he2,bind_ok he3,if_pos rfl,bind_ok he4,bind_ok he5,
        bind_ok he6]
      rfl
    · rw [foldl_see_stopped]
      rfl
  · rw [bytes,if_neg hc,List.nil_append,← List.append_assoc,← infoBytes_append] at hb
    have hsub : ∀ i ∈ s.before++s.during,i.Sized :=
      fun i hi => hsized i (List.mem_append_left _ hi)
    obtain ⟨b1,he1,hb1⟩ := waitForReplySeen_gives s.handle {} hsub
      s.isInfo_reply b hb
    generalize (s.before++s.during).foldl (fun x => x.see s.handle) ({} : ObservedStates)=seen at he1
    have he2 := byteAt_run (ε := ClientError) hb1 hb1.len hhead
    obtain ⟨b3,he3,hb3⟩ := gives_consume (ε := ClientError) (by decide) (le_refl 1) b1 hb1
    refine ⟨seen,b3,?_,hb3,fun h => absurd h hc⟩
    rw [mainReply,bind_ok he1,bind_ok he2,bind_ok he3,if_neg s.reply_ne]
    rfl

/-- Before the reply nothing tells the outcome, or what is behind it tells the same. -/
def Spread (s : Session) : Prop :=
  s.already=true ∨ outcome s.handle s.command s.during=none ∨
    outcomeBehind s.handle s.command (sawStopped s.handle s.during) s.behind=
      outcome s.handle s.command s.during

theorem startStopService_already (s : Session) {b : Buffered UInt8 1024} {k : Nat}
    (hb : b.At s.bytes k) (h : s.already=true) (ignoreUnstarted : Bool) :
    ∃ b',startStopService s.command s.handle true ignoreUnstarted b=(.ok 0,b') := by
  obtain ⟨seen,b1,he1,-,-⟩ := s.mainReply_run hb
  refine ⟨b1,?_⟩
  rw [startStopService,bind_ok he1,reply,if_pos h]
  rfl

/-- With an acknowledgement, the client does as the events behind it tell. -/
theorem startStopService_run (s : Session) {b : Buffered UInt8 1024} {k : Nat}
    (hb : b.At s.bytes k) (h : s.already=false) (ignoreUnstarted : Bool) :
    match outcomeBehind s.handle s.command (sawStopped s.handle s.during) s.behind with
    | some r => ∃ b',startStopService s.command s.handle true ignoreUnstarted b=(.ok (exitCode r),b')
    | none => ∃ e b',startStopService s.command s.handle true ignoreUnstarted b=(.error e,b') := by
  obtain ⟨seen,b1,he1,hb1,hseen⟩ := s.mainReply_run hb
  have hr : s.reply=50 := by
    rw [reply,h]
    rfl
  have heq : startStopService s.command s.handle true ignoreUnstarted b=
      awaitOutcome s.command s.handle seen b1 := by
    rw [startStopService,bind_ok he1,hr]
    rfl
  have hrun := awaitOutcome_run s.handle s.command seen
    (fun i hi => s.sized i (by simp [hi])) hb1
  rw [heq]
  by_cases hc : s.command=.restartService
  · rw [← hseen hc]
    exact hrun
  · rw [outcomeBehind_of_ne hc] at hrun ⊢
    exact hrun

/-- What is returned is told by the code. -/
theorem returns_iff {m : Client Nat} {b : Buffered UInt8 1024} {o : Option Bool}
    (h : match o with
      | some r => ∃ b',m b=(.ok (exitCode r),b')
      | none => ∃ e b',m b=(.error e,b')) (code : Nat) :
    (∃ b',m b=(.ok code,b')) ↔ o.map exitCode=some code := by
  cases o with
  | none =>
    obtain ⟨e,b1,he⟩ := h
    refine iff_of_false ?_ (by simp)
    rintro ⟨b',hb'⟩
    rw [he] at hb'
    exact nomatch (Prod.mk.inj hb').1
  | some r =>
    obtain ⟨b1,he⟩ := h
    constructor
    · rintro ⟨b',hb'⟩
      rw [he] at hb'
      exact congrArg some (Except.ok.inj (Prod.mk.inj hb').1)
    · intro hcode
      exact ⟨b1,Option.some.inj hcode ▸ he⟩

theorem same_code_iff {o o' : Option Bool} :
    (∀ code,o.map exitCode=some code ↔ o'.map exitCode=some code) ↔ o=o' := by
  constructor
  · intro h
    have h0 := h 0
    have h1 := h 1
    revert h0 h1
    rcases o with _ | _ | _ <;> rcases o' with _ | _ | _ <;> simp [exitCode]
  · rintro rfl code
    exact Iff.rfl

end Session

/-- The client returns the outcome of its command, and when there is one, if and only if nothing
told it before the reply, or the same is told once more behind it. -/
theorem outcome_told_iff (s : Session) (ignoreUnstarted : Bool) (b : Buffered UInt8 1024)
    (hb : b.At s.bytes 0) : s.Told ignoreUnstarted b ↔ s.Spread := by
  by_cases h : s.already=true
  · refine iff_of_true (fun code => ?_) (.inl h)
    rw [Session.expected,if_pos h]
    exact Session.returns_iff (o := some true)
      (s.startStopService_already hb h ignoreUnstarted) code
  · have hrun := s.startStopService_run hb (by simpa using h) ignoreUnstarted
    have htold : s.Told ignoreUnstarted b ↔
        outcomeBehind s.handle s.command (sawStopped s.handle s.during) s.behind=
          outcome s.handle s.command (s.during++s.behind) := by
      unfold Session.Told
      rw [Session.expected,if_neg h,← Session.same_code_iff]
      exact forall_congr' fun code => iff_congr (Session.returns_iff hrun code) Iff.rfl
    rw [htold]
    cases hd : outcome s.handle s.command s.during with
    | none =>
      refine iff_of_true ?_ (.inr (.inl hd))
      rw [outcome_append_of_none hd]
    | some r =>
      rw [outcome_append_of_some hd]
      constructor
      · intro heq
        exact .inr (.inr (heq.trans hd.symm))
      · rintro (ha | hn | heq)
        · exact absurd ha h
        · rw [hd] at hn
          cases hn
        · exact heq.trans hd

/-- The packets for an event of a service. -/
def eventPackets (event : ServiceEvent) : List Info :=
  [.serviceEvent5 1 event startedStatus,.serviceEvent 1 event startedStatus]

theorem eventPackets_sized (events : List ServiceEvent) :
    ∀ i ∈ events.flatMap eventPackets,i.Sized := by
  intro i hi
  refine (Info.sized_iff i).mpr ?_
  rintro o v rfl
  obtain ⟨event,-,hmem⟩ := List.mem_flatMap.mp hi
  simp [eventPackets] at hmem

/-- A command for a service, with these events before and behind the acknowledgement. -/
def ackSession (command : CtlCmd) (during behind : List ServiceEvent) : Session where
  command := command
  handle := 1
  before := []
  during := during.flatMap eventPackets
  behind := behind.flatMap eventPackets
  already := false
  sized := by
    rw [List.nil_append,← List.flatMap_append]
    exact eventPackets_sized _

/-- A start that succeeds later. -/
theorem start_told :
    (ackSession .startService [] [.started]).Told false
      (emptyRead (ackSession .startService [] [.started]).bytes) :=
  (outcome_told_iff _ false _ (emptyRead_at _)).mpr (.inr (.inl rfl))

/-- A restart that fails while it is processed: the client goes on waiting for an event. -/
theorem failed_restart_not_told :
    let s := ackSession .restartService [.stopped,.failedStart] []
    s.expected=some false ∧ ¬s.Told false (emptyRead s.bytes) ∧
      ∃ e b',startStopService .restartService 1 true false (emptyRead s.bytes)=(.error e,b') := by
  intro s
  have hexp : s.expected=some false := rfl
  have hrun := s.startStopService_run (emptyRead_at s.bytes) rfl false
  have herr : ∃ e b',startStopService .restartService 1 true false (emptyRead s.bytes)=
      (.error e,b') := hrun
  refine ⟨hexp,fun h => ?_,herr⟩
  obtain ⟨b',hb'⟩ := (h 1).mpr (by rw [hexp]; rfl)
  obtain ⟨e,b1,he⟩ := herr
  exact nomatch (Prod.mk.inj (he.symm.trans hb')).1

end Dinit
