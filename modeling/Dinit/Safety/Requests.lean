import Mathlib.Data.List.Chain
import Dinit.Client.Request
import Dinit.Safety.Chunks

namespace Dinit

open Framework Client

theorem CpCmd.ofByte_byte (cmd : CpCmd) : CpCmd.ofByte cmd.byte=some cmd := by
  cases cmd <;> rfl

theorem CpCmd.head_packet {cmd : CpCmd} {b : Packet} :
    packetLength (cmd.byte::b)=cmd.pktSize (cmd.byte::b) := by
  rw [packetLength_cons,cmd.ofByte_byte]
  rfl

namespace Client

theorem handleBytes_length (handle : UInt32) : (handleBytes handle).length=4 :=
  nativeBytes_length 4 _

theorem native_handleBytes (handle : UInt32) : native (handleBytes handle)=handle.toNat := by
  rw [handleBytes,native_nativeBytes]
  exact Nat.mod_eq_of_lt handle.toNat_lt

/-- A string whose length the server accepts. -/
def StringOk (str : List UInt8) : Prop := 0< str.length ∧ str.length≤1021

theorem stringPacket_eq {cmd : CpCmd} {str : List UInt8} (h : StringOk str) :
    stringPacket cmd str=cmd.byte::nativeBytes 2 str.length++str := by
  have h1 := h.2
  unfold stringPacket
  rw [Nat.mod_eq_of_lt (by omega),List.take_length]

theorem stringPacket_length (cmd : CpCmd) {str : List UInt8} (h : StringOk str) :
    (stringPacket cmd str).length=str.length+3 := by
  rw [stringPacket_eq h]
  simp [nativeBytes_length]
  omega

theorem extract_stringPacket (cmd : CpCmd) {str : List UInt8} (h : StringOk str) :
    native (extract (stringPacket cmd str) 1 2)=str.length ∧
      extract (stringPacket cmd str) 3 str.length=str := by
  have h1 := h.2
  have h2 := nativeBytes_length 2 str.length
  rw [stringPacket_eq h]
  constructor
  · have h3 : extract (cmd.byte::nativeBytes 2 str.length++str) 1 2=nativeBytes 2 str.length := by
      simp [extract,h2]
    rw [h3,native_nativeBytes]
    exact Nat.mod_eq_of_lt (by omega)
  · have h3 : (cmd.byte::nativeBytes 2 str.length).length=3 := by simp [h2]
    rw [extract,List.drop_left' h3,List.take_length]

theorem stringSize_stringPacket {cmd : CpCmd} {str : List UInt8} (h : StringOk str) :
    stringSize (stringPacket cmd str)=(stringPacket cmd str).length := by
  have h1 := stringPacket_length cmd h
  have h2 := h.1
  have h3 := h.2
  unfold stringSize
  rw [if_neg (by omega),(extract_stringPacket cmd h).1,h1]
  dsimp only
  rw [if_neg (by omega)]

def CtlCmd.request : CtlCmd → UInt8 → Nat → CpRequest
  | .startService => .startService
  | .wakeService => .wakeService
  | .releaseService => .releaseService
  | .stopService | .restartService => .stopService

namespace CtlRequest

/-- What the server cannot take for anything else: a service has a name of a length that it
accepts, a variable has a name, and the dependency is of a type that may be changed. -/
def Valid : CtlRequest → Prop
  | issueLoadService serviceName _ => StringOk serviceName
  | doSetenv envVar => StringOk envVar ∧ envVar.head?≠some 61
  | addRemoveDependency _ depType _ _ =>
    depType=.regular ∨ depType=.waitsFor ∨ depType=.milestone
  | _ => True

/-- What `do_setenv` sends for a variable with a name. -/
theorem setenvVar_valid {getenv : List UInt8 → Option (List UInt8)} {unset : Bool}
    {envp envVar : List UInt8} (h : setenvVar getenv unset envp=some envVar)
    (hn : envp.head?.any (·≠61)) : (doSetenv envVar).Valid := by
  obtain ⟨x,b,rfl⟩ : ∃ x b,envp=x::b := List.exists_cons_of_ne_nil fun he => by simp [he] at hn
  have hx : x≠61 := by simpa using hn
  simp only [setenvVar,Option.ite_none_left_eq_some,Option.some.injEq] at h
  obtain ⟨-,hl,he⟩ := h
  rw [he] at hl
  obtain ⟨c,rfl⟩ : ∃ c,envVar=x::c := by
    split at he
    · exact ⟨_,he.symm⟩
    · exact ⟨b,he.symm⟩
  exact ⟨⟨Nat.succ_pos _,by omega⟩,by simpa using hx⟩

/-- What a request asks of the server. -/
def meaning : CtlRequest → CpRequest
  | queryVersion => .queryVersion
  | issueLoadService serviceName true => .findService serviceName
  | issueLoadService serviceName false => .loadService serviceName
  | startStopService command doPin doForce handle =>
    command.request (command.flags doPin doForce) handle.toNat
  | unpinService handle => .unpinService handle.toNat
  | unloadService handle => .unloadService handle.toNat
  | reloadService handle => .reloadService handle.toNat
  | listServices true => .listServices5
  | listServices false => .listServices
  | serviceStatus true handle => .serviceStatus5 handle.toNat
  | serviceStatus false handle => .serviceStatus handle.toNat
  | addRemoveDependency true depType fromHandle toHandle =>
    .addDep false depType.code fromHandle.toNat toHandle.toNat
  | addRemoveDependency false depType fromHandle toHandle =>
    .remDep depType.code fromHandle.toNat toHandle.toNat
  | enableDisableService true fromHandle toHandle =>
    .addDep true DependencyType.waitsFor.code fromHandle.toNat toHandle.toNat
  | enableDisableService false fromHandle toHandle =>
    .remDep DependencyType.waitsFor.code fromHandle.toNat toHandle.toNat
  | shutdownDinit => .shutdown 2
  | getServiceName handle => .queryServiceName handle.toNat
  | getServiceDescriptionDir handle => .queryServiceDscDir true handle.toNat
  | doSetenv envVar => .setEnv envVar
  | triggerService handle triggerValue => .setTrigger handle.toNat (if triggerValue then 1 else 0)
  | signalSend sigNum handle => .signal sigNum.toNat handle.toNat
  | catServiceLog handle doClear => .catlog (if doClear then 1 else 0) handle.toNat
  | getAllEnv => .getAllEnv
  | requestEnviron => .listenEnv
  | queryLoadMech => .queryLoadMech

/-- The packet of a request is one packet. -/
theorem whole_packet (r : CtlRequest) (hv : r.Valid) : packets.Whole r.packet := by
  show packetLength r.packet=r.packet.length
  have hl (handle : UInt32) := handleBytes_length handle
  cases r with
  | issueLoadService serviceName findOnly =>
    have h1 (cmd : CpCmd) : packetLength (stringPacket cmd serviceName)=
        cmd.pktSize (stringPacket cmd serviceName) := CpCmd.head_packet
    cases findOnly <;>
      simp [packet,h1,CpCmd.pktSize,stringSize_stringPacket (show StringOk serviceName from hv)]
  | doSetenv envVar =>
    have h1 : packetLength (stringPacket .setEnv envVar)=
        CpCmd.setEnv.pktSize (stringPacket .setEnv envVar) := CpCmd.head_packet
    simp [packet,h1,CpCmd.pktSize,stringSize_stringPacket hv.1]
  | startStopService command doPin doForce handle =>
    cases command <;> simp [packet,CpCmd.head_packet,CpCmd.pktSize,CtlCmd.pcommand,hl]
  | listServices v5 => cases v5 <;> simp [packet,CpCmd.head_packet,CpCmd.pktSize]
  | serviceStatus v5 handle => cases v5 <;> simp [packet,CpCmd.head_packet,CpCmd.pktSize,hl]
  | addRemoveDependency add depType fromHandle toHandle =>
    cases add <;> simp [packet,CpCmd.head_packet,CpCmd.pktSize,hl]
  | enableDisableService enable fromHandle toHandle =>
    cases enable <;> simp [packet,CpCmd.head_packet,CpCmd.pktSize,hl]
  | _ => simp [packet,CpCmd.head_packet,CpCmd.pktSize,hl]

end CtlRequest
end Client

variable {σ : Type} {sv : Server σ} {s : σ}

/-- A reply comes before the request is carried out, if that is asked for. -/
def CpRequest.preAck : CpRequest → Bool
  | .startService flags _ | .stopService flags _ | .wakeService flags _
  | .releaseService flags _ => 128≤ flags.toNat
  | _ => false

/-- A request is carried out, and then the replies are sent. -/
def Server.carry (sv : Server σ) (r : CpRequest) (s : σ) : σ :=
  sv.queued (sv.perform r s).1 (sv.perform r s).2

def Server.serve (sv : Server σ) (r : CpRequest) (s : σ) : σ :=
  sv.carry r (if r.preAck then (sv.queuePacket CpRply.preAck s).2 else s)

/-- The handles of a request are those of services; the two of a dependency differ. -/
def CpRequest.Known (sv : Server σ) (s : σ) : CpRequest → Prop
  | .startService _ h | .stopService _ h | .wakeService _ h | .releaseService _ h
  | .unpinService h | .unloadService h | .queryServiceName h | .reloadService h
  | .serviceStatus h | .setTrigger h _ | .catlog _ h | .signal _ h | .queryServiceDscDir _ h
  | .closeHandle h | .serviceStatus5 h => sv.findServiceForKey h s≠none
  | .addDep _ _ f t | .remDep _ f t => sv.findServiceForKey f s≠none ∧
      sv.findServiceForKey t s≠none ∧ sv.findServiceForKey f s≠sv.findServiceForKey t s
  | _ => True

namespace Conn

theorem handleAt_append {a b : List UInt8} (h : UInt32) (k : Nat) (bad : Bool) (s : σ) :
    handleAt ⟨a++handleBytes h++b,k,bad,s⟩ a.length=h.toNat := by
  rw [handleAt,← native_handleBytes h]
  simp [extract,← handleBytes_length h]

section
variable {c : Conn σ} (hw : sv.Writable)
include hw

theorem answer_view (r : CpRequest) : (c.answer sv r).2.view=(sv.carry r c.env,c.badConnClose) := by
  simp [answer_eq hw,view,Server.carry]

theorem answer_consume_view (r : CpRequest) (f : Conn σ → Conn σ) (hf : ∀ c,(f c).view=c.view) :
    (orReturn (c.answer sv r) fun c => (true,f c)).2.view=(sv.carry r c.env,c.badConnClose) := by
  rw [← answer_view hw r]
  simp [orReturn,answer_eq hw,hf]

theorem processHandle_view (mk : Nat → CpRequest) (h : 5≤ c.rbuf.length)
    (hi : sv.findServiceForKey (c.handleAt 1) c.env≠none) :
    (processHandle sv mk c).2.view=(sv.carry (mk (c.handleAt 1)) c.env,c.badConnClose) := by
  obtain ⟨i,hi⟩ := Option.ne_none_iff_exists'.mp hi
  simp [processHandle,Nat.not_lt.mpr h,hi,answer_eq hw,orReturn,view,clearOut,consume,Server.carry]

theorem processQuery_view {n j : Nat} (mk : Conn σ → Nat → CpRequest) (h : n≤ c.rbuf.length)
    (hi : sv.findServiceForKey (c.handleAt j) c.env≠none) :
    (processQuery sv n j mk c).2.view=(sv.carry (mk c (c.handleAt j)) c.env,c.badConnClose) := by
  obtain ⟨i,hi⟩ := Option.ne_none_iff_exists'.mp hi
  simp [processQuery,Nat.not_lt.mpr h,hi,answer_eq hw,view,clearOut,consume,Server.carry]

theorem processStartStop_view (mk : UInt8 → Nat → CpRequest) (h : 6≤ c.rbuf.length)
    (hi : sv.findServiceForKey (c.handleAt 2) c.env≠none)
    (hm : (mk (c.byteAt 1) (c.handleAt 2)).preAck=decide (128≤ (c.byteAt 1).toNat)) :
    (processStartStop sv mk c).2.view=
      (sv.serve (mk (c.byteAt 1) (c.handleAt 2)) c.env,c.badConnClose) := by
  obtain ⟨i,hi⟩ := Option.ne_none_iff_exists'.mp hi
  by_cases hf : 128≤ (c.byteAt 1).toNat <;>
    simp [processStartStop,Nat.not_lt.mpr h,hi,hm,hf,answer_eq hw,queuePacket_eq hw,orReturn,view,
      clearOut,consume,Server.serve,Server.carry]

theorem changeDep_view (mk : UInt8 → Nat → Nat → CpRequest) (h : 10≤ c.rbuf.length)
    (hf : sv.findServiceForKey (c.handleAt 2) c.env≠none)
    (ht : sv.findServiceForKey (c.handleAt 6) c.env≠none)
    (hne : sv.findServiceForKey (c.handleAt 2) c.env≠sv.findServiceForKey (c.handleAt 6) c.env)
    (hd : c.byteAt 1=0 ∨ c.byteAt 1=2 ∨ c.byteAt 1=3) :
    (changeDep sv mk c).2.view=
      (sv.carry (mk (c.byteAt 1) (c.handleAt 2) (c.handleAt 6)) c.env,c.badConnClose) := by
  simp [changeDep,Nat.not_lt.mpr h,hf,ht,hne,hd,answer_eq hw,orReturn,view,clearOut,consume,
    Server.carry]

theorem processFindLoad_view (mk : List UInt8 → CpRequest) {cmd : CpCmd} {str : List UInt8}
    (h : StringOk str) (hc : c.rbuf=stringPacket cmd str) :
    (processFindLoad sv mk c).2.view=(sv.carry (mk str) c.env,c.badConnClose) := by
  have h1 := h.1
  have h2 := h.2
  have hl := stringPacket_length cmd h
  obtain ⟨h3,h4⟩ := extract_stringPacket cmd h
  unfold processFindLoad
  simp only [hc,hl,h3]
  rw [if_neg (by omega),if_neg (by omega),if_neg (by omega),answer_view hw,h4]
  rfl

theorem processSetenv_view {str : List UInt8} (h : StringOk str) (hs : str.head?≠some 61)
    (hc : c.rbuf=stringPacket .setEnv str) :
    (processSetenv sv c).2.view=(sv.carry (.setEnv str) c.env,c.badConnClose) := by
  have h1 := h.1
  have h2 := h.2
  have hl := stringPacket_length .setEnv h
  obtain ⟨h3,h4⟩ := extract_stringPacket .setEnv h
  unfold processSetenv
  simp only [hc,hl,h3]
  rw [if_neg (by omega),if_neg (by omega),if_neg (by omega)]
  simp only [h4]
  rw [if_neg hs]
  simp [answer_eq hw,orReturn,view,clearOut,consume,Server.carry]

end

end Conn

namespace Client.CtlRequest

section
variable (hw : sv.Writable) {handle : UInt32} (hi : sv.findServiceForKey handle.toNat s≠none)
include hw hi

/-- The requests with a handle behind the command. -/
theorem view_handle (mk : Nat → CpRequest) (x : UInt8) :
    (Conn.processHandle sv mk ⟨x::handleBytes handle,0,false,s⟩).2.view=
      (sv.carry (mk handle.toNat) s,false) := by
  have hn : Conn.handleAt ⟨x::handleBytes handle,0,false,s⟩ 1=handle.toNat := by
    simpa using Conn.handleAt_append (a := [x]) (b := []) handle 0 false s
  have h := Conn.processHandle_view hw (c := ⟨x::handleBytes handle,0,false,s⟩) mk
    (by simp [handleBytes_length]) (by rwa [hn])
  rwa [hn] at h

/-- The requests with something before or after the handle. -/
theorem view_query {mk : Conn σ → Nat → CpRequest} {p : Packet} {n j : Nat} {r : CpRequest}
    (a b : List UInt8) (hp : p=a++handleBytes handle++b) (hj : a.length=j)
    (hn : n≤ a.length+4+b.length) (hr : mk ⟨p,0,false,s⟩ handle.toNat=r) :
    (Conn.processQuery sv n j mk ⟨p,0,false,s⟩).2.view=(sv.carry r s,false) := by
  subst hp hj
  have hh := Conn.handleAt_append (a := a) (b := b) handle 0 false s
  have hv := Conn.processQuery_view hw (c := ⟨a++handleBytes handle++b,0,false,s⟩) (n := n) mk
    (by simp [handleBytes_length]; omega) (by rwa [hh])
  rwa [hh,hr] at hv

theorem view_startStop (mk : UInt8 → Nat → CpRequest) (x flags : UInt8)
    (hm : (mk flags handle.toNat).preAck=decide (128≤ flags.toNat)) :
    (Conn.processStartStop sv mk ⟨x::flags::handleBytes handle,0,false,s⟩).2.view=
      (sv.serve (mk flags handle.toNat) s,false) := by
  have hn : Conn.handleAt ⟨x::flags::handleBytes handle,0,false,s⟩ 2=handle.toNat := by
    simpa using Conn.handleAt_append (a := [x,flags]) (b := []) handle 0 false s
  have h := Conn.processStartStop_view hw (c := ⟨x::flags::handleBytes handle,0,false,s⟩) mk
    (by simp [handleBytes_length]) (by rwa [hn]) (by rw [hn]; exact hm)
  rwa [hn] at h

end

theorem view_dep (hw : sv.Writable) {f t : UInt32} (mk : UInt8 → Nat → Nat → CpRequest)
    (x y : UInt8) (hf : sv.findServiceForKey f.toNat s≠none)
    (ht : sv.findServiceForKey t.toNat s≠none)
    (hne : sv.findServiceForKey f.toNat s≠sv.findServiceForKey t.toNat s)
    (hd : y=0 ∨ y=2 ∨ y=3) :
    (Conn.changeDep sv mk ⟨[x,y]++handleBytes f++handleBytes t,0,false,s⟩).2.view=
      (sv.carry (mk y f.toNat t.toNat) s,false) := by
  have h1 : Conn.handleAt ⟨[x,y]++handleBytes f++handleBytes t,0,false,s⟩ 2=f.toNat :=
    Conn.handleAt_append f 0 false s
  have h2 : Conn.handleAt ⟨[x,y]++handleBytes f++handleBytes t,0,false,s⟩ 6=t.toNat := by
    have h := Conn.handleAt_append (a := [x,y]++handleBytes f) (b := []) t 0 false s
    simpa [handleBytes_length] using h
  have h := Conn.changeDep_view hw (c := ⟨[x,y]++handleBytes f++handleBytes t,0,false,s⟩) mk
    (by simp [handleBytes_length]) (by rw [h1]; exact hf) (by rw [h2]; exact ht)
    (by rw [h1,h2]; exact hne) hd
  rwa [h1,h2] at h

/-- The server takes the packet of a request for what it is. -/
theorem react_packet (hw : sv.Writable) (r : CtlRequest) (hv : r.Valid) (hk : r.meaning.Known sv s) :
    sv.react r.packet (s,false)=(sv.serve r.meaning s,false) := by
  cases r with
  | queryVersion => exact Conn.answer_consume_view hw .queryVersion (·.consume 1) fun _ => rfl
  | issueLoadService serviceName findOnly =>
    cases findOnly with
    | true => exact Conn.processFindLoad_view hw .findService hv rfl
    | false => exact Conn.processFindLoad_view hw .loadService hv rfl
  | startStopService command doPin doForce handle =>
    cases command with
    | startService => exact view_startStop hw hk .startService _ _ rfl
    | wakeService => exact view_startStop hw hk .wakeService _ _ rfl
    | releaseService => exact view_startStop hw hk .releaseService _ _ rfl
    | stopService => exact view_startStop hw hk .stopService _ _ rfl
    | restartService => exact view_startStop hw hk .stopService _ _ rfl
  | unpinService handle => exact view_handle hw hk .unpinService _
  | unloadService handle => exact view_handle hw hk .unloadService _
  | reloadService handle => exact view_handle hw hk .reloadService _
  | listServices v5 =>
    cases v5 with
    | true => exact Conn.answer_view hw .listServices5
    | false => exact Conn.answer_view hw .listServices
  | serviceStatus v5 handle =>
    cases v5 with
    | true =>
      exact view_query hw hk [CpCmd.serviceStatus5.byte] [] (by simp [packet]) rfl (by simp) rfl
    | false =>
      exact view_query hw hk [CpCmd.serviceStatus.byte] [] (by simp [packet]) rfl (by simp) rfl
  | addRemoveDependency add depType fromHandle toHandle =>
    have hd : depType.code=0 ∨ depType.code=2 ∨ depType.code=3 := by
      rcases hv with rfl | rfl | rfl <;> simp [DependencyType.code]
    cases add with
    | true => exact view_dep hw (.addDep false) _ _ hk.1 hk.2.1 hk.2.2 hd
    | false => exact view_dep hw .remDep _ _ hk.1 hk.2.1 hk.2.2 hd
  | enableDisableService enable fromHandle toHandle =>
    cases enable with
    | true => exact view_dep hw (.addDep true) _ _ hk.1 hk.2.1 hk.2.2 (.inr (.inl rfl))
    | false => exact view_dep hw .remDep _ _ hk.1 hk.2.1 hk.2.2 (.inr (.inl rfl))
  | shutdownDinit => exact Conn.answer_consume_view hw (.shutdown 2) (·.clearOut 2) fun _ => rfl
  | getServiceName handle =>
    exact view_query hw hk [CpCmd.queryServiceName.byte,0] [] (by simp [packet]) rfl (by simp) rfl
  | getServiceDescriptionDir handle =>
    exact view_query hw hk [CpCmd.queryServiceDscDir.byte,0] [] (by simp [packet]) rfl (by simp) rfl
  | doSetenv envVar => exact Conn.processSetenv_view hw hv.1 hv.2 rfl
  | triggerService handle triggerValue =>
    refine view_query hw hk [CpCmd.setTrigger.byte] [if triggerValue then 1 else 0]
      (by simp [packet]) rfl (by simp) ?_
    simp [meaning,Conn.byteAt,packet,handleBytes_length]
  | signalSend sigNum handle =>
    have hl := handleBytes_length sigNum
    refine view_query hw hk (CpCmd.signal.byte::handleBytes sigNum) [] (by simp [packet])
      (by simp [hl]) (by simp [hl]) ?_
    simp [meaning,extract,packet,← hl,native_handleBytes]
  | catServiceLog handle doClear =>
    exact view_query hw hk [CpCmd.catlog.byte,if doClear then 1 else 0] [] (by simp [packet]) rfl
      (by simp) rfl
  | getAllEnv => exact Conn.answer_view hw .getAllEnv
  | requestEnviron => exact Conn.answer_view hw .listenEnv
  | queryLoadMech => exact Conn.answer_view hw .queryLoadMech

/-- The requests of a session, each with the handles of services that are there by then. -/
def Session (sv : Server σ) : σ → List CtlRequest → Prop
  | _,[] => True
  | s,r::rs => (r.Valid ∧ r.meaning.Known sv s) ∧ Session sv (sv.serve r.meaning s) rs

/-- The request for the environment is not followed by a request of a single byte. -/
def Apart (a b : CtlRequest) : Prop := a=.getAllEnv → b.packet.length≠1

theorem Session.valid {rs : List CtlRequest} (h : Session sv s rs) : ∀ r ∈ rs,r.Valid := by
  induction rs generalizing s with
  | nil => simp
  | cons r rs ih =>
    intro q hq
    rcases List.mem_cons.mp hq with rfl | hq
    · exact h.1.1
    · exact ih h.2 q hq

theorem Session.whole {rs : List CtlRequest} (h : Session sv s rs) :
    ∀ p ∈ rs.map packet,packets.Whole p := by
  intro p hp
  obtain ⟨r,hr,rfl⟩ := List.mem_map.mp hp
  exact whole_packet r (h.valid r hr)

/-- None of the requests closes the connection. -/
theorem Session.open (hw : sv.Writable) {rs : List CtlRequest} (h : Session sv s rs) :
    Framing.Open sv.react Prod.snd (s,false) (rs.map packet) := by
  induction rs generalizing s with
  | nil => rfl
  | cons r rs ih =>
    refine ⟨rfl,?_⟩
    rw [react_packet hw r h.1.1 h.1.2]
    exact ih h.2

theorem Session.react (hw : sv.Writable) {rs : List CtlRequest} (h : Session sv s rs) :
    (rs.map packet).foldl (fun s p => sv.react p s) (s,false)=
      (rs.foldl (fun s r => sv.serve r.meaning s) s,false) := by
  induction rs generalizing s with
  | nil => rfl
  | cons r rs ih =>
    simp only [List.map_cons,List.foldl_cons]
    rw [react_packet hw r h.1.1 h.1.2]
    exact ih h.2

theorem Session.expected (hw : sv.Writable) {rs : List CtlRequest} (h : Session sv s rs) :
    sv.expected s (rs.map packet).flatten=
      ((rs.foldl (fun s r => sv.serve r.meaning s) s,false),[]) := by
  rw [Server.expected,packets.drain_flatten _ _ h.whole (h.open hw),h.react hw]

theorem packet_ne_nil (r : CtlRequest) : r.packet≠[] := by
  cases r <;> simp [packet,stringPacket]

theorem getAllEnv_of_packet {r : CtlRequest} {b : Packet} (h : r.packet=24::b) : r=getAllEnv := by
  cases r with
  | getAllEnv => rfl
  | startStopService command => cases command <;> simp [packet,CtlCmd.pcommand,CpCmd.byte] at h
  | issueLoadService _ x | listServices x | serviceStatus x | addRemoveDependency x
  | enableDisableService x => cases x <;> simp [packet,stringPacket,CpCmd.byte] at h
  | _ => simp [packet,stringPacket,CpCmd.byte] at h

/-- Nothing of a session stays in the buffer for the `chklen` that `GETALLENV` leaves. -/
theorem Session.not_stalls {rs : List CtlRequest} (h : Session sv s rs) (ha : rs.IsChain Apart) :
    ¬sv.Stalls s (rs.map packet).flatten := by
  rintro ⟨q,x,t,hq,hd,hx⟩
  obtain ⟨n,rfl⟩ := packets.boundary _ _ h.whole ((List.prefix_append _ _).trans hq) hd rfl
  have hs : (rs.map packet).flatten=
      ((rs.map packet).take n).flatten++((rs.drop n).map packet).flatten := by
    rw [List.map_drop,← List.flatten_append,List.take_append_drop]
  rw [hs,List.prefix_append_right_inj] at hq
  have hv := fun r hr => h.valid r (List.mem_of_mem_drop (i := n) hr)
  have hc := ha.drop n
  -- the two requests at the place
  match rs.drop n,hq,hv,hc with
  | [],hq,_,_ => simp at hq
  | r::rest,hq,hv,hc =>
    obtain ⟨y,b,hr⟩ := List.exists_cons_of_ne_nil (packet_ne_nil r)
    obtain rfl : y=24 := by
      rw [List.map_cons,List.flatten_cons,hr] at hq
      exact ((List.cons_prefix_cons.mp hq).1).symm
    obtain rfl := getAllEnv_of_packet hr
    have hq : [x] <+: (rest.map packet).flatten := by simpa [packet,CpCmd.byte] using hq
    match rest,hq,hv,hc with
    | [],hq,_,_ => simp at hq
    | r::rest,hq,hv,hc =>
      obtain ⟨y,b,hr⟩ := List.exists_cons_of_ne_nil (packet_ne_nil r)
      obtain rfl : y=x := by
        rw [List.map_cons,List.flatten_cons,hr] at hq
        exact ((List.cons_prefix_cons.mp hq).1).symm
      have hl : packetLength (y::b)=(y::b).length := by
        rw [← hr]
        exact whole_packet r (hv r (by simp))
      have h1 : packetLength ([y]++b)=packetLength [y] := packets.stable [y] b (le_of_eq hx)
      refine hc.rel rfl ?_
      rw [hr,← hl]
      exact h1.trans hx

end Client.CtlRequest

/-- What a client sends, whichever requests it makes and however the bytes are split on the way,
the server carries out as what was meant, each once and in order, and nothing is left over. -/
theorem Client.requests_served (sv : Server σ) (hw : sv.Writable) (s : σ) (rs : List CtlRequest)
    (h : CtlRequest.Session sv s rs) (ha : rs.IsChain CtlRequest.Apart)
    (chunks : List (List UInt8)) (hc : chunks.flatten=(rs.map CtlRequest.packet).flatten)
    (hf : (Conn.accept s).Fits sv chunks) :
    ((Conn.accept s).run sv chunks).env=rs.foldl (fun s r => sv.serve r.meaning s) s ∧
      ((Conn.accept s).run sv chunks).rbuf=[] ∧
      ((Conn.accept s).run sv chunks).badConnClose=false := by
  have hk := (Conn.kept_accept sv s).run hw hf (by rw [hc]; exact h.not_stalls ha)
  rw [List.nil_append,hc] at hk
  obtain ⟨he,-⟩ := hk.eq (h.expected hw)
  rw [he]
  exact ⟨rfl,rfl,rfl⟩

/-- `Server.bare` with two services. -/
def Server.two : Server (List Packet) :=
  { Server.bare with findServiceForKey := fun h _ => if h<2 then some h else none }

/-- A restart, pinned and gentle, between two requests without a handle. -/
theorem Client.requests_served_restart :
    let c := (Conn.accept []).run Server.two [[0,4],[135,1,0],[0,0,17,3,0,65],[61,98]]
    c.env=[[58,1,0,5,0],[79],[50],[50]] ∧ c.rbuf=[] ∧ c.badConnClose=false := by
  have h := requests_served Server.two (fun _ _ => rfl) []
    [.queryVersion,.startStopService .restartService true false 1,.doSetenv [65,61,98]]
    ⟨⟨trivial,trivial⟩,⟨trivial,Option.some_ne_none 1⟩,
      ⟨⟨⟨by decide,by decide⟩,by decide⟩,trivial⟩,trivial⟩
    (by simp [CtlRequest.Apart]) [[0,4],[135,1,0],[0,0,17,3,0,65],[61,98]] (by decide)
    ⟨fun _ => by decide,fun _ => by decide,fun _ => by decide,fun _ => by decide,trivial⟩
  exact ⟨h.1.trans (by decide),h.2⟩

end Dinit
