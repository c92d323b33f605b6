import Mathlib.Data.List.Basic
import Mathlib.Data.List.Infix

namespace Dinit.Framework

/-- How a stream is cut into packets: `need b` units have to be there before the packet at
the head of `b` is complete. What follows a complete packet has no say in where it ends, and
an incomplete one never needs less once more of it is there. -/
structure Framing (β : Type) where
  need : List β → Nat
  pos : ∀ b, 0<need b
  stable : ∀ b c, need b≤ b.length → need (b++c)=need b
  grows : ∀ b c, need b≤ need (b++c)

namespace Framing

variable {β σ : Type} (F : Framing β) (act : List β → σ → σ) (closed : σ → Bool)

/-- The packets of a stream, one after another, until one of them closes it: the state they
lead to and what is left over. -/
def drain (s : σ) (b : List β) : σ × List β :=
  if closed s then (s,[])
  else if F.need b≤ b.length then drain (act (b.take (F.need b)) s) (b.drop (F.need b))
  else (s,b)
termination_by b.length
decreasing_by
  have h := F.pos b
  simp only [List.length_drop]
  omega

theorem drain_closed {s : σ} (b : List β) (h : closed s=true) :
    F.drain act closed s b=(s,[]) := by
  rw [drain]
  simp [h]

theorem drain_complete {s : σ} {b : List β} (hs : closed s=false) (h : F.need b≤ b.length) :
    F.drain act closed s b=
      F.drain act closed (act (b.take (F.need b)) s) (b.drop (F.need b)) := by
  rw [drain]
  simp [hs,h]

theorem drain_incomplete {s : σ} {b : List β} (hs : closed s=false) (h : b.length<F.need b) :
    F.drain act closed s b=(s,b) := by
  rw [drain]
  simp [hs,Nat.not_le.mpr h]

/-- A packet on its own needs what it needs in the stream. -/
theorem need_take {b : List β} (h : F.need b≤ b.length) : F.need (b.take (F.need b))=F.need b := by
  have hl : (b.take (F.need b)).length=F.need b := by simp [h]
  have hg := F.grows (b.take (F.need b)) (b.drop (F.need b))
  rw [List.take_append_drop] at hg
  have hs := F.stable (b.take (F.need b)) (b.drop (F.need b)) (by omega)
  rw [List.take_append_drop] at hs
  exact hs.symm

/-- One packet. -/
theorem drain_take {s : σ} {b : List β} (hs : closed s=false) (h : F.need b≤ b.length)
    (ht : closed (act (b.take (F.need b)) s)=false) :
    F.drain act closed s (b.take (F.need b))=(act (b.take (F.need b)) s,[]) := by
  have hn := F.need_take h
  have hl : (b.take (F.need b)).length=F.need b := by simp [h]
  rw [drain_complete F act closed hs (by omega),hn,List.take_take,min_self,
    List.drop_take,Nat.sub_self,List.take_zero]
  exact drain_incomplete F act closed ht (F.pos [])

theorem drain_nil (s : σ) : (F.drain act closed s []).2=[] := by
  cases hs : closed s with
  | true => rw [drain_closed F act closed _ hs]
  | false => rw [drain_incomplete F act closed (b := []) hs (F.pos [])]

/-- Cut anywhere, the two parts of a stream have the packets of the whole. -/
theorem drain_append (s : σ) (a b : List β) :
    F.drain act closed s (a++b)=
      F.drain act closed (F.drain act closed s a).1 ((F.drain act closed s a).2++b) := by
  fun_induction drain F act closed s a with
  | case1 s a hs => rw [drain_closed F act closed _ hs,drain_closed F act closed _ hs]
  | case2 s a hs ha ih =>
    have hn := F.stable a b ha
    have hl : F.need (a++b)≤(a++b).length := by
      rw [hn,List.length_append]
      omega
    rw [drain_complete F act closed (by simpa using hs) hl,hn,List.take_append_of_le_length ha,
      List.drop_append_of_le_length ha]
    exact ih
  | case3 s a hs ha => rfl

/-- A prefix that leaves nothing over is where the packets of the rest begin. -/
theorem drain_boundary {s t : σ} {a : List β} (h : F.drain act closed s a=(t,[]))
    (b : List β) : F.drain act closed s (a++b)=F.drain act closed t b := by
  rw [drain_append,h]
  rfl

/-- A packet with nothing behind it. -/
def Whole (p : List β) : Prop := F.need p=p.length

theorem Whole.need_append {p : List β} (h : F.Whole p) (b : List β) : F.need (p++b)=p.length :=
  (F.stable p b (le_of_eq h)).trans h

theorem Whole.drain_append {p : List β} (h : F.Whole p) {s : σ} (hs : closed s=false)
    (b : List β) : F.drain act closed s (p++b)=F.drain act closed (act p s) b := by
  have hn := h.need_append F b
  rw [drain_complete F act closed hs (by rw [hn]; simp),hn,List.take_left,List.drop_left]

/-- The state before each packet and after the last, as they are taken, is not closed. -/
def Open : σ → List (List β) → Prop
  | s,[] => closed s=false
  | s,p::ps => closed s=false ∧ Open (act p s) ps

variable {ps : List (List β)} (hw : ∀ p ∈ ps,F.Whole p)
include hw

/-- A stream of whole packets. -/
theorem drain_flatten {s : σ} (ho : Open act closed s ps) :
    F.drain act closed s ps.flatten=(ps.foldl (fun s p => act p s) s,[]) := by
  induction ps generalizing s with
  | nil => exact drain_incomplete F act closed ho (F.pos [])
  | cons p ps ih =>
    rw [List.flatten_cons,Whole.drain_append F act closed (hw p List.mem_cons_self) ho.1]
    exact ih (fun q hq => hw q (List.mem_cons_of_mem p hq)) ho.2

/-- Where nothing is left over of such a stream, a packet has ended. -/
theorem boundary {s t : σ} {q : List β} (hq : q <+: ps.flatten)
    (hd : F.drain act closed s q=(t,[])) (ht : closed t=false) : ∃ n,q=(ps.take n).flatten := by
  induction ps generalizing s q with
  | nil => exact ⟨0,List.prefix_nil.mp hq⟩
  | cons p ps ih =>
    have hs : closed s=false := by
      by_contra hs
      rw [drain_closed F act closed q (by simpa using hs)] at hd
      rw [(Prod.mk.inj hd).1,ht] at hs
      exact hs rfl
    have hp := hw p List.mem_cons_self
    rw [List.flatten_cons] at hq
    rcases List.prefix_or_prefix_of_prefix hq (List.prefix_append p ps.flatten) with hqp | ⟨q,rfl⟩
    · -- less than a packet is left over as it is
      obtain ⟨b,rfl⟩ := hqp
      by_cases hn : F.need q≤ q.length
      · have hb : b=[] := by
          have h1 : F.need (q++b)=(q++b).length := hp
          rw [F.stable q b hn,List.length_append] at h1
          exact List.length_eq_zero_iff.mp (by omega)
        exact ⟨1,by simp [hb]⟩
      · rw [drain_incomplete F act closed hs (not_le.mp hn)] at hd
        exact ⟨0,(Prod.mk.inj hd).2⟩
    · rw [Whole.drain_append F act closed hp hs] at hd
      obtain ⟨n,rfl⟩ := ih (fun p' hp' => hw p' (List.mem_cons_of_mem p hp'))
        ((List.prefix_append_right_inj p).mp hq) hd
      exact ⟨n+1,by simp⟩

end Framing

end Dinit.Framework
