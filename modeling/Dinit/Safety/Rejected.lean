import Dinit.Control.Packets
import Dinit.Run.Reachable

namespace Dinit

def CpRequest.isDep : CpRequest → Bool
  | .addDep _ _ _ _ | .remDep _ _ _ => true
  | _ => false

/-- What requests are carried out on, in the state `ψ`: the service set, the environment and the
handles. A change of a dependency is acknowledged or refused; no other request is answered with
`BADREQ` once it is carried out. -/
structure Services (ψ : Type) where
  findServiceForKey : Nat → ψ → Option Nat
  changeDep : CpRequest → ψ → Bool × ψ
  perform : CpRequest → ψ → List Packet × ψ
  accepted : ∀ r s,CpRply.badReq ∉ (perform r s).1

/-- The commands that change a dependency. -/
def CpCmd.changesDep (cmd : CpCmd) : Prop := cmd=.addDep ∨ cmd=.remDep ∨ cmd=.enableService

namespace Services

variable {ψ : Type} (v : Services ψ)

/-- The server, with the packets that have been queued for the connection. -/
def server : Server (ψ × List Packet) where
  findServiceForKey key s := v.findServiceForKey key s.1
  perform r s :=
    if r.isDep then
      let a := v.changeDep r s.1
      ([if a.1 then CpRply.ack else CpRply.nak],(a.2,s.2))
    else
      let a := v.perform r s.1
      (a.1,(a.2,s.2))
  queuePacket p s := (true,(s.1,s.2++[p]))

theorem writable : v.server.Writable := fun _ _ => rfl

theorem queued_eq (ps : List Packet) (s : ψ × List Packet) :
    v.server.queued ps s=(s.1,s.2++ps) := by
  induction ps generalizing s with
  | nil => simp [Server.queued]
  | cons p ps ih =>
    have h := ih (s.1,s.2++[p])
    rw [List.append_assoc] at h
    exact h

/-- A request that is rejected: one reply, a connection that is to be closed, and no change. -/
def Harmless (c : Conn (ψ × List Packet)) (r : Bool × Conn (ψ × List Packet)) : Prop :=
  ∃ replies,r.2.env.2=c.env.2++replies ∧ (CpRply.badReq ∈ replies →
    replies=[CpRply.badReq] ∧ r.2.badConnClose=true ∧ r.2.env.1=c.env.1)

section
variable {v} {c : Conn (ψ × List Packet)}

theorem harmless_quiet {r : Bool × Conn (ψ × List Packet)} (h : r.2.env=c.env) : Harmless c r :=
  ⟨[],by rw [h,List.append_nil],fun hm => absurd hm List.not_mem_nil⟩

theorem harmless_badReq {c' : Conn (ψ × List Packet)} (h : c'.env=c.env) :
    Harmless c (c'.badReq v.server) := by
  refine ⟨[CpRply.badReq],?_,fun _ => ⟨rfl,?_,?_⟩⟩
  · rw [Conn.badReq_eq v.writable,← h]
    rfl
  · rw [Conn.badReq_eq v.writable]
  · rw [Conn.badReq_eq v.writable,← h]
    rfl

theorem badReq_not_mem_perform (r : CpRequest) (s : ψ × List Packet) :
    CpRply.badReq ∉ (v.server.perform r s).1 := by
  unfold server
  simp only
  split
  · split <;> simp [CpRply.badReq,CpRply.ack,CpRply.nak]
  · exact v.accepted r s.1

theorem perform_log (r : CpRequest) (s : ψ × List Packet) : (v.server.perform r s).2.2=s.2 := by
  unfold server
  simp only
  split <;> rfl

/-- A request that is carried out, behind other replies. -/
theorem harmless_answer {c' : Conn (ψ × List Packet)} (replies : List Packet)
    (hlog : c'.env.2=c.env.2++replies) (hpre : CpRply.badReq ∉ replies) (r : CpRequest) :
    Harmless c (c'.answer v.server r) := by
  refine ⟨replies++(v.server.perform r c'.env).1,?_,fun hm => ?_⟩
  · rw [Conn.answer_eq v.writable,queued_eq,perform_log,hlog,List.append_assoc]
  · rcases List.mem_append.mp hm with hm | hm
    · exact absurd hm hpre
    · exact absurd hm (badReq_not_mem_perform r c'.env)

theorem harmless_perform {c' : Conn (ψ × List Packet)} (h : c'.env=c.env) (r : CpRequest) :
    Harmless c (c'.answer v.server r) :=
  harmless_answer [] (by rw [h,List.append_nil]) List.not_mem_nil r

/-- Clearing the packet afterwards does not matter. -/
theorem harmless_orReturn {x : Bool × Conn (ψ × List Packet)}
    {g : Conn (ψ × List Packet) → Bool × Conn (ψ × List Packet)} (h : Harmless c x)
    (hg : ∀ c1,(g c1).2.env=c1.env ∧ (g c1).2.badConnClose=c1.badConnClose) :
    Harmless c (Conn.orReturn x g) := by
  obtain ⟨replies,hlog,hbad⟩ := h
  unfold Conn.orReturn
  split
  · obtain ⟨he,hb⟩ := hg x.2
    refine ⟨replies,by rw [he,hlog],fun hm => ?_⟩
    rw [he,hb]
    exact hbad hm
  · exact ⟨replies,hlog,hbad⟩

theorem orReturn_true (c : Conn (ψ × List Packet))
    (f : Conn (ψ × List Packet) → Bool × Conn (ψ × List Packet)) : Conn.orReturn (true,c) f=f c := rfl

theorem harmless_nak {c' : Conn (ψ × List Packet)} (h : c'.env=c.env) :
    Harmless c (c'.queuePacket v.server CpRply.nak) :=
  ⟨[CpRply.nak],by rw [← h]; rfl,fun hm => absurd hm (by decide)⟩

theorem harmless_processFindLoad (mk : List UInt8 → CpRequest) :
    Harmless c (c.processFindLoad v.server mk) := by
  unfold Conn.processFindLoad
  split
  · exact harmless_quiet rfl
  · simp only
    split
    · exact harmless_badReq rfl
    · split
      · exact harmless_quiet rfl
      · exact harmless_perform rfl _

theorem harmless_processCloseHandle : Harmless c (c.processCloseHandle v.server) := by
  unfold Conn.processCloseHandle
  split
  · exact harmless_quiet rfl
  · simp only
    split
    · exact harmless_badReq rfl
    · exact harmless_perform rfl _

theorem harmless_processStartStop (mk : UInt8 → Nat → CpRequest) :
    Harmless c (c.processStartStop v.server mk) := by
  unfold Conn.processStartStop
  split
  · exact harmless_quiet rfl
  · simp only
    split
    · exact harmless_badReq rfl
    · split
      · rw [Conn.queuePacket_eq v.writable,orReturn_true]
        refine harmless_orReturn (harmless_answer [CpRply.preAck] rfl (by decide) _) ?_
        exact fun _ => ⟨rfl,rfl⟩
      · rw [orReturn_true]
        exact harmless_orReturn (harmless_perform rfl _) fun _ => ⟨rfl,rfl⟩

theorem harmless_processHandle (mk : Nat → CpRequest) :
    Harmless c (c.processHandle v.server mk) := by
  unfold Conn.processHandle
  split
  · exact harmless_quiet rfl
  · simp only
    split
    · exact harmless_badReq rfl
    · exact harmless_orReturn (harmless_perform rfl _) fun _ => ⟨rfl,rfl⟩

theorem harmless_processShutdown : Harmless c (c.processShutdown v.server) := by
  unfold Conn.processShutdown
  split
  · exact harmless_quiet rfl
  · simp only
    split
    · exact harmless_orReturn (harmless_perform rfl _) fun _ => ⟨rfl,rfl⟩
    · exact harmless_badReq rfl

theorem harmless_processQuery (pktSize index : Nat)
    (mk : Conn (ψ × List Packet) → Nat → CpRequest) :
    Harmless c (c.processQuery v.server pktSize index mk) := by
  unfold Conn.processQuery
  split
  · exact harmless_quiet rfl
  · simp only
    split
    · exact harmless_nak rfl
    · exact harmless_perform rfl _

theorem harmless_processSetenv : Harmless c (c.processSetenv v.server) := by
  unfold Conn.processSetenv
  split
  · exact harmless_quiet rfl
  · simp only
    split
    · exact harmless_badReq rfl
    · split
      · exact harmless_quiet rfl
      · split
        · exact harmless_badReq rfl
        · exact harmless_orReturn (harmless_perform rfl _) fun _ => ⟨rfl,rfl⟩

theorem harmless_processGetallenv : Harmless c (c.processGetallenv v.server) := by
  unfold Conn.processGetallenv
  split
  · exact harmless_quiet rfl
  · split
    · exact harmless_perform rfl _
    · exact harmless_badReq rfl

/-- A change of a dependency of a type that is not allowed, between two services that are
known. -/
def BadType (v : Services ψ) (c : Conn (ψ × List Packet)) : Prop :=
  10≤ c.rbuf.length ∧
  v.findServiceForKey (c.handleAt 2) c.env.1≠none ∧ v.findServiceForKey (c.handleAt 6) c.env.1≠none ∧
  v.findServiceForKey (c.handleAt 2) c.env.1≠v.findServiceForKey (c.handleAt 6) c.env.1 ∧
  ¬(c.byteAt 1=0 ∨ c.byteAt 1=2 ∨ c.byteAt 1=3)

/-- It is rejected, and carried out and answered all the same. -/
theorem harmless_changeDep_iff (mk : UInt8 → Nat → Nat → CpRequest)
    (hmk : ∀ t f g,(mk t f g).isDep=true) :
    Harmless c (c.changeDep v.server mk) ↔ ¬v.BadType c := by
  unfold Conn.changeDep BadType
  split
  · next hlen => exact iff_of_true (harmless_quiet rfl) fun h => by omega
  · next hlen =>
    simp only
    split
    · next hsvc =>
      refine iff_of_true (harmless_badReq rfl) ?_
      rintro ⟨-,hf,ht,hne,-⟩
      rcases hsvc with h | h | h
      · exact hf h
      · exact ht h
      · exact hne h
    · next hsvc =>
      split
      · next htype =>
        rw [orReturn_true]
        refine iff_of_true (harmless_orReturn (harmless_perform rfl _) fun _ => ⟨rfl,rfl⟩) ?_
        exact fun h => h.2.2.2.2 htype
      · next htype =>
        refine iff_of_false ?_ (not_not.mpr ⟨by omega,fun h => hsvc (.inl h),
          fun h => hsvc (.inr (.inl h)),fun h => hsvc (.inr (.inr h)),htype⟩)
        rw [Conn.badReq_eq v.writable,orReturn_true,Conn.answer_eq v.writable,orReturn_true,queued_eq,
          perform_log]
        rintro ⟨replies,hlog,hbad⟩
        have hdep : ∃ p,(v.server.perform (mk (c.byteAt 1) (c.handleAt 2) (c.handleAt 6))
            (v.server.queuePacket CpRply.badReq c.env).2).1=[p] := by
          unfold server
          simp only [hmk,if_true]
          exact ⟨_,rfl⟩
        obtain ⟨p,hp⟩ := hdep
        have hreplies : replies=[CpRply.badReq,p] := by
          have hl : (c.env.2++[CpRply.badReq])++[p]=c.env.2++replies := by
            rw [← hp]
            exact hlog
          rw [List.append_assoc] at hl
          exact (List.append_cancel_left hl).symm
        have hone := (hbad (by rw [hreplies]; exact List.mem_cons_self)).1
        rw [hreplies] at hone
        cases hone

theorem harmless_handler {cmd : CpCmd} (h : ¬cmd.changesDep) :
    Harmless c (Conn.handler v.server (some cmd) c) := by
  cases cmd with
  | addDep => exact absurd (.inl rfl) h
  | remDep => exact absurd (.inr (.inl rfl)) h
  | enableService => exact absurd (.inr (.inr rfl)) h
  | queryVersion => exact harmless_orReturn (harmless_perform rfl _) fun _ => ⟨rfl,rfl⟩
  | findService | loadService => exact harmless_processFindLoad _
  | closeHandle => exact harmless_processCloseHandle
  | startService | stopService | wakeService | releaseService => exact harmless_processStartStop _
  | unpinService | unloadService | reloadService => exact harmless_processHandle _
  | shutdown => exact harmless_processShutdown
  | listServices | listServices5 | queryLoadMech | listenEnv => exact harmless_perform rfl _
  | setEnv => exact harmless_processSetenv
  | getAllEnv => exact harmless_processGetallenv
  | serviceStatus | serviceStatus5 | queryServiceName | setTrigger | catlog | signal
  | queryServiceDscDir => exact harmless_processQuery _ _ _

end

end Services

/-- A request that is rejected has no effect but its one reply and the closing of the connection, if
and only if it is not a change of a dependency of a type that is not allowed. -/
theorem rejected_harmless_iff {ψ : Type} (v : Services ψ) (c : Conn (ψ × List Packet)) :
    Services.Harmless c (c.processPacket v.server) ↔
      ¬((∃ cmd ∈ CpCmd.ofByte (c.byteAt 0),cmd.changesDep) ∧ v.BadType c) := by
  unfold Conn.processPacket
  cases CpCmd.ofByte (c.byteAt 0) with
  | none => exact iff_of_true (Services.harmless_badReq rfl) fun ⟨⟨x,hx,_⟩,_⟩ => nomatch hx
  | some cmd =>
    by_cases h : cmd.changesDep
    · have hiff : Services.Harmless c (Conn.handler v.server (some cmd) c) ↔ ¬v.BadType c := by
        rcases h with rfl | rfl | rfl
        · exact Services.harmless_changeDep_iff _ fun _ _ _ => rfl
        · exact Services.harmless_changeDep_iff _ fun _ _ _ => rfl
        · exact Services.harmless_changeDep_iff _ fun _ _ _ => rfl
      rw [hiff]
      exact not_congr ⟨fun hbad => ⟨⟨cmd,rfl,h⟩,hbad⟩,And.right⟩
    · refine iff_of_true (Services.harmless_handler h) ?_
      rintro ⟨⟨x,hx,hc⟩,-⟩
      exact h (Option.some.inj hx ▸ hc)

def DependencyType.ofByte (b : UInt8) : DependencyType :=
  match b.toNat with
  | 0 => .regular
  | 1 => .soft
  | 2 => .waitsFor
  | 3 => .milestone
  | 4 => .before
  | 5 => .after
  | _ => .other b

/-- The running services, of which only dependencies are changed. The handle of a service is its
number. -/
def depServices (fuel : Nat) : Services World where
  findServiceForKey key w := if key ∈ w.core.records then some key else none
  changeDep r w :=
    match r with
    | .addDep enable depType f t =>
      let type := DependencyType.ofByte depType
      let w' := (handle fuel (.addServiceDep f t type enable) w).2
      ((findDep w'.core f t type).isSome,w')
    | .remDep depType f t =>
      let type := DependencyType.ofByte depType
      ((findDep w.core f t type).isSome,(handle fuel (.rmServiceDep f t type) w).2)
    | _ => (false,w)
  perform _ w := ([],w)
  accepted _ _ := List.not_mem_nil

/-- Two services, and a request for a dependency of the type `BEFORE` of the first on the second. -/
def beforeRequest : Conn (World × List Packet) where
  rbuf := [11,4,0,0,0,0,1,0,0,0]
  chklen := 0
  badConnClose := false
  env := (.load (.loaded [{ recordType := .internal },{ recordType := .internal }] []),[])

/-- The request is rejected, and the dependency is made. -/
theorem rejected_but_carried_out :
    let r := (beforeRequest.processPacket (depServices 20).server).2
    ¬Services.Harmless beforeRequest (beforeRequest.processPacket (depServices 20).server) ∧
    r.env.2=[CpRply.badReq,CpRply.ack] ∧ (findDep r.env.1.core 0 1 .before).isSome=true := by
  refine ⟨fun h => ?_,by decide,by decide⟩
  have hbad := (Services.harmless_changeDep_iff (v := depServices 20) (c := beforeRequest)
    (.addDep false) fun _ _ _ => rfl).mp h
  exact hbad ⟨by decide,by decide,by decide,by decide,by decide⟩

end Dinit
