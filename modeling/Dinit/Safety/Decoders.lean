import Dinit.Client.Decode

namespace Dinit

open Framework Framework.Reader Client

/-- A reply that is read by one of the decoders. Before that to a query for a name there can be
information packets. -/
inductive Answer
  | record (monitor : Bool) (state : ServiceState) (handle : UInt32) (target : ServiceState)
  | noRecord (monitor : Bool) (code : UInt8) (other : code≠59)
  | name (is : List Info) (sized : ∀ i ∈ is,i.Sized) (s : List UInt8) (length : s.length<2^16)
  | noName (is : List Info) (sized : ∀ i ∈ is,i.Sized) (code : UInt8)
    (reply : isInfo code=false) (other : code≠66)
  | dependents (handles : List UInt32) (length : handles.length<2^64)
  | string (s : List UInt8)

namespace Answer

/-- What the server sends, from where the decoder starts. -/
def bytes : Answer → List UInt8
  | .record _ state handle target =>
    59::state.code::(nativeBytes 4 handle.toNat++[target.code])
  | .noRecord _ code _ => [code]
  | .name is _ s _ => infoBytes is++66::0::(nativeBytes 2 s.length++s)
  | .noName is _ code _ _ => infoBytes is++[code]
  | .dependents handles _ =>
    nativeBytes 8 handles.length++handles.flatMap fun h => nativeBytes 4 h.toNat
  | .string s => s

/-- How much of it is in the buffer already. -/
def present : Answer → Nat
  | .record .. | .noRecord .. => 1
  | _ => 0

def loadDecoder (monitor : Bool) : Client (Option (UInt8 × Nat)) :=
  if monitor then monitorCheckLoadReply else checkLoadReply

/-- The decoder of a reply does what it has to with it, and leaves what is behind it. -/
def Decoded (rest : List UInt8) (b : Buffered UInt8 1024) : Answer → Prop
  | .record monitor state handle _ =>
    Ends (loadDecoder monitor) b (.ok (some (state.code,handle.toNat))) rest
  | .noRecord monitor code _ =>
    Ends (loadDecoder monitor) b
      (if code=60 ∨ monitor=false ∧ (code=71 ∨ code=72) then .ok none else .error .protocol)
      (code::rest)
  | .name _ _ s _ => Ends getServiceName b (if s++rest=[] then .error .read else .ok s) rest
  | .noName _ _ code _ _ => Ends getServiceName b (.error .read) (code::rest)
  | .dependents handles _ => Ends readDependents b (.ok (handles.map UInt32.toNat)) rest
  | .string s => Ends (readString s.length) b (.ok s) rest

/-- A service record of which a read gives the sixth byte last. -/
def Cut (b : Buffered UInt8 1024) : Answer → Prop
  | .record .. => ∃ n,(Buffered.fill^[n] b).ring.len=6
  | _ => False

theorem loadDecoder_record {monitor : Bool} {rest : List UInt8} {b : Buffered UInt8 1024}
    (hb : b.At (59::rest) 1) {r : UInt8 × Nat} {M : List UInt8} :
    Ends (loadDecoder monitor) b (.ok (some r)) M ↔ ∃ b',loadRecord b=(.ok r,b') ∧ b'.At M 0 := by
  have he := byteAt_run (ε := ClientError) hb hb.len (x := 59) rfl
  have heq : loadDecoder monitor b=(do
      let record ← loadRecord
      pure (some record) : Client (Option (UInt8 × Nat))) b := by
    cases monitor with
    | false => exact (bind_ok he).trans rfl
    | true => exact (bind_ok he).trans rfl
  unfold Ends
  rw [heq]
  exact exists_congr fun b' => and_congr_left fun _ => bind_pure_iff fun _ _ h => Option.some.inj h

theorem loadDecoder_other {monitor : Bool} {code : UInt8} (h : code≠59) {rest : List UInt8}
    {b : Buffered UInt8 1024} (hb : b.At (code::rest) 1) :
    Ends (loadDecoder monitor) b
      (if code=60 ∨ monitor=false ∧ (code=71 ∨ code=72) then .ok none else .error .protocol)
      (code::rest) := by
  have he := byteAt_run (ε := ClientError) hb hb.len (x := code) rfl
  refine ⟨b,?_,hb.mono (Nat.zero_le _)⟩
  cases monitor with
  | false =>
    refine (bind_ok he).trans ?_
    rw [if_neg h]
    simp only [true_and]
    split <;> rfl
  | true =>
    refine (bind_ok he).trans ?_
    rw [if_neg h]
    simp only [Bool.true_eq_false,false_and,or_false]
    split <;> rfl

end Answer

/-- However a reply is cut into reads, its decoder gives the same and leaves the same, except for
a service record of which a read ends with the sixth byte. -/
theorem decoded_iff (a : Answer) (rest : List UInt8) (b : Buffered UInt8 1024)
    (hb : b.At (a.bytes++rest) a.present) : a.Decoded rest b ↔ ¬a.Cut b := by
  cases a with
  | record monitor state handle target =>
    have hb' : b.At (59::state.code::(nativeBytes 4 handle.toNat++target.code::rest)) 1 := hb
    refine (Answer.loadDecoder_record hb').trans ((loadRecord_iff hb').trans ?_)
    exact not_exists.symm
  | noRecord monitor code h =>
    exact iff_of_true (Answer.loadDecoder_other h hb) fun h => h
  | name is his s hlen =>
    refine iff_of_true ?_ fun h => h
    simp only [Answer.bytes,List.append_assoc,List.cons_append] at hb
    exact getServiceName_run his hlen hb
  | noName is his code hr h =>
    refine iff_of_true ?_ fun h => h
    simp only [Answer.bytes,List.append_assoc,List.cons_append,List.nil_append] at hb
    exact getServiceName_other his hr h hb
  | dependents handles hlen =>
    refine iff_of_true ?_ fun h => h
    rw [Answer.bytes,List.append_assoc] at hb
    exact readDependents_gives hlen b hb
  | string s => exact iff_of_true (readString_gives (s := s) b hb) fun h => h

/-- The record of a service that is started. -/
def startedRecord : Answer := .record false .started 1 .started

/-- A buffer with the first bytes of a record, and the rest to come. -/
def recordRead (n : Nat) : Buffered UInt8 1024 :=
  ⟨⟨fun i => startedRecord.bytes.getD i 0,0,n⟩,⟨startedRecord.bytes.drop n,fun _ => 1024,0⟩,false⟩

theorem startedRecord_decoded :
    (recordRead 7).At (startedRecord.bytes++[]) 1 ∧ startedRecord.Decoded [] (recordRead 7) := by
  have hat : (recordRead 7).At (startedRecord.bytes++[]) 1 :=
    ⟨⟨by decide,by decide⟩,by decide,by decide,rfl⟩
  refine ⟨hat,(decoded_iff startedRecord [] (recordRead 7) hat).mpr ?_⟩
  rintro ⟨n,hn⟩
  have hle := Buffered.len_le_iterate n (recordRead 7)
  rw [hn] at hle
  exact absurd hle (by decide)

/-- Cut behind the sixth byte, the buffer is left with more than it can hold. -/
theorem startedRecord_overrun :
    (recordRead 6).At (startedRecord.bytes++[]) 1 ∧ ¬startedRecord.Decoded [] (recordRead 6) ∧
    (checkLoadReply (recordRead 6)).2.ring.len=2^32-1 := by
  refine ⟨⟨⟨by decide,by decide⟩,by decide,by decide,rfl⟩,?_,by decide⟩
  rintro ⟨b',he,hat⟩
  have hover : (checkLoadReply (recordRead 6)).2.overrun=true := by decide
  have hb' : (checkLoadReply (recordRead 6)).2=b' := congrArg Prod.snd he
  rw [hb',hat.sound] at hover
  cases hover

end Dinit
