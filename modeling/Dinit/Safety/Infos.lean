import Dinit.Client.Info

namespace Dinit

open Framework Framework.Reader Client

/-- A packet that answers a request: its first byte is less than 100. -/
structure ReplyPacket where
  code : UInt8
  body : List UInt8
  reply : code<100

/-- What the server sends on a connection. -/
inductive Emitted
  | info (i : Info)
  | reply (r : ReplyPacket)

def Emitted.bytes : Emitted → List UInt8
  | .info i => i.packet
  | .reply r => r.code::r.body

/-- The bytes of packets, one behind another. -/
def emittedBytes (ps : List Emitted) : List UInt8 := ps.flatMap Emitted.bytes

/-- The length byte of each information packet is its length, and `wait_for_reply`, in both
forms and however the bytes come in, goes past information packets to the reply behind them. -/
structure Skippable (ps : List Emitted) : Prop where
  length : ∀ i,Emitted.info i ∈ ps → ∃ n ∈ i.packet[1]?,n.toNat=i.packet.length
  plain : ∀ before (is : List Info) r behind,ps=before++(is.map .info++.reply r::behind) →
    Gives waitForReply (emittedBytes (is.map .info++.reply r::behind)) 0 ()
      (emittedBytes (.reply r::behind)) 1
  seen : ∀ before (is : List Info) r behind,ps=before++(is.map .info++.reply r::behind) →
    ∀ handle seen,∃ seen',Gives (waitForReplySeen handle seen)
      (emittedBytes (is.map .info++.reply r::behind)) 0 seen' (emittedBytes (.reply r::behind)) 1

theorem isInfo_reply (r : ReplyPacket) : isInfo r.code=false := by
  have h : r.code.toNat<100 := r.reply
  simp [isInfo,h]

theorem emittedBytes_infos (is : List Info) (r : ReplyPacket) (behind : List Emitted) :
    emittedBytes (is.map .info++.reply r::behind)=
      infoBytes is++r.code::(r.body++emittedBytes behind) := by
  simp [emittedBytes,infoBytes,List.flatMap_map,Emitted.bytes]

/-- Information packets can be skipped exactly when no environment event is among them, but for
one whose string has no 16-bit length. -/
theorem infos_skipped_iff (ps : List Emitted) :
    Skippable ps ↔ ∀ overridden varAndVal,
      Emitted.info (.environEvent overridden varAndVal) ∈ ps → (varAndVal.length+1)%2^16=0 := by
  constructor
  · intro h overridden varAndVal hmem
    exact (Info.sized_iff _).mp (h.length _ hmem) _ _ rfl
  · intro h
    have hsized : ∀ i,Emitted.info i ∈ ps → i.Sized := by
      intro i hi
      refine (Info.sized_iff i).mpr ?_
      rintro overridden varAndVal rfl
      exact h overridden varAndVal hi
    have hsub : ∀ before (is : List Info) r behind,ps=before++(is.map .info++.reply r::behind) →
        ∀ i ∈ is,i.Sized := by
      rintro before is r behind rfl i hi
      refine hsized i ?_
      simp [hi]
    refine ⟨hsized,?_,?_⟩
    · intro before is r behind heq
      rw [emittedBytes_infos]
      exact waitForReply_gives (hsub before is r behind heq) (isInfo_reply r)
    · intro before is r behind heq handle seen
      rw [emittedBytes_infos]
      exact ⟨_,waitForReplySeen_gives _ _ (hsub before is r behind heq) (isInfo_reply r)⟩

/-- The setting of `A=1` and the acknowledgement of it. -/
def setA : List Emitted := [.info (.environEvent false [65,61,49]),.reply ⟨50,[],by decide⟩]

/-- All of them in one read. -/
def setARead : Buffered UInt8 1024 := ⟨⟨fun _ => 0,0,0⟩,⟨emittedBytes setA,fun _ => 1024,0⟩,false⟩

/-- The string is taken for a reply. -/
theorem infos_not_skipped :
    ¬Skippable setA ∧
    (waitForReply setARead).2.stream=[65,61,49,0,50] := by
  refine ⟨fun h => ?_,by decide⟩
  obtain ⟨n,hn,hlen⟩ := h.length _ List.mem_cons_self
  obtain rfl : 5=n := Option.some.inj hn
  exact absurd hlen (by decide)

end Dinit
