import Dinit.Client.Listing

namespace Dinit

open Framework Framework.Reader

/-- The reply of the server to the command for the version -/
def listReply (v5 : Bool) (svcs : List Listed) : List UInt8 :=
  if v5 then listServices5 svcs else listServices svcs

/-- The services to be listed, in order, each with its name as far as it is sent. -/
def listEntries (v5 : Bool) (svcs : List Listed) : List Client.Entry :=
  (svcs.filter fun s => !s.placeholder).map fun s => .of v5 (s.name.take 256) s.status

theorem listReply_eq (v5 : Bool) (svcs : List Listed) (rest : List UInt8) :
    listReply v5 svcs++rest=
      (svcs.filter fun s => !s.placeholder).flatMap (Listed.packet (Client.statusBuffer v5))++
        63::rest := by
  cases v5 with
  | false => exact List.append_assoc _ _ _
  | true => exact List.append_assoc _ _ _

/-- The list comes out as it went in, however it is cut into reads, if and only if every name that
is listed has less than 256 bytes. -/
theorem listing_iff (v5 : Bool) (svcs : List Listed) (rest : List UInt8) (b : Buffered UInt8 1024)
    (hb : b.At (listReply v5 svcs++rest) 0) :
    Ends (Client.listServices v5) b (.ok (listEntries v5 svcs,true)) (63::rest) ↔
      ∀ s ∈ svcs,s.placeholder=false → s.name.length<256 := by
  rw [listReply_eq] at hb
  refine (Client.listServices_iff hb).trans ?_
  simp only [List.mem_filter,Bool.not_eq_true',and_imp]

/-- A started service without a process -/
def startedStatus : SvcStatus where
  state := .started
  targetState := .started
  waitingForConsole := false
  hasConsole := false
  wasStartSkipped := false
  isMarkedActive := true
  pid := none
  stopReason := .normal
  execStage := 0
  execErrno := 0
  siCode := 0
  siStatus := 0

/-- A buffer that is empty, with everything to come. -/
def emptyRead (rest : List UInt8) : Buffered UInt8 1024 :=
  ⟨⟨fun _ => 0,0,0⟩,⟨rest,fun _ => 1024,0⟩,false⟩

theorem emptyRead_at (rest : List UInt8) : (emptyRead rest).At rest 0 :=
  ⟨⟨show 0<1024 by decide,Nat.zero_le _⟩,rfl,le_refl _,rfl⟩

/-- One service, with a name of so many bytes. -/
def oneService (n : Nat) : List Listed := [⟨List.replicate n 97,false,startedStatus⟩]

theorem listing_four :
    Ends (Client.listServices true) (emptyRead (listReply true (oneService 4)++[]))
      (.ok (listEntries true (oneService 4),true)) [63] := by
  refine (listing_iff true (oneService 4) [] _ (emptyRead_at _)).mpr ?_
  intro s hs _
  obtain rfl := List.mem_singleton.mp hs
  decide

theorem oneService_length {n : Nat}
    (h : Ends (Client.listServices true) (emptyRead (listReply true (oneService n)++[]))
      (.ok (listEntries true (oneService n),true)) [63]) : n<256 := by
  have hb := emptyRead_at (listReply true (oneService n)++[])
  rw [listReply_eq] at h hb
  have hlt := (Client.listServices_iff hb).mp h ⟨List.replicate n 97,false,startedStatus⟩
    List.mem_cons_self
  rwa [List.length_replicate] at hlt

/-- A name of 256 bytes is taken for an empty one, and its bytes for the packets that follow. -/
theorem listing_out_of_step :
    ¬Ends (Client.listServices true) (emptyRead (listReply true (oneService 256)++[]))
      (.ok (listEntries true (oneService 256),true)) [63] :=
  fun h => absurd (oneService_length h) (by decide)

end Dinit
