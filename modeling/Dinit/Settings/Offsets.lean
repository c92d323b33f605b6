import Dinit.Control.LoadMech
import Dinit.Settings.Value

namespace Dinit

/-- The text at a position, `[start,end)` -/
def substring (s : List UInt8) (p : UInt32 × UInt32) : List UInt8 :=
  (s.drop p.1.toNat).take (p.2.toNat-p.1.toNat)

/-- The text of the line from `a` up to `b` -/
def span (line : List UInt8) (a b : Nat) : List UInt8 := (line.drop a).take (b-a)

section
variable {line : List UInt8} {a b c : Nat}

theorem span_self : span line a a=[] := by simp [span]

theorem span_append (h1 : a≤ b) (h2 : b≤ c) : span line a b++span line b c=span line a c := by
  unfold span
  have hc : c-a=(b-a)+(c-b) := by omega
  rw [hc,List.take_add,List.drop_drop,Nat.add_sub_cancel' h1]

theorem span_one {x : UInt8} (h : (line)[a]?=some x) : span line a (a+1)=[x] := by
  obtain ⟨hlt,hx⟩ := List.getElem?_eq_some_iff.mp h
  rw [span,Nat.add_sub_cancel_left,List.drop_eq_getElem_cons hlt,hx]
  rfl

theorem span_succ {x : UInt8} (hle : a≤ b) (h : (line)[b]?=some x) :
    span line a (b+1)=span line a b++[x] := by
  rw [← span_append hle (Nat.le_succ b),span_one h]

theorem length_span (h : b≤ line.length) : (span line a b).length=b-a := by
  rw [span,List.length_take,List.length_drop]
  omega

theorem span_end : span line a line.length=line.drop a := by
  rw [span,← List.length_drop,List.take_length]

theorem span_blank (hle : a≤ b) (h : ∀ k,a≤ k → k< b → (line)[k]?=some 32) :
    span line a b=List.replicate (b-a) 32 := by
  induction b with
  | zero =>
    obtain rfl : a=0 := by omega
    exact span_self
  | succ b ih =>
    by_cases hab : a=b+1
    · rw [hab,span_self,Nat.sub_self]
      rfl
    · have hi := ih (by omega) fun k h1 h2 => h k h1 (by omega)
      rw [span_succ (by omega) (h b (by omega) (Nat.lt_succ_self b)),hi,
        show b+1-a=(b-a)+1 by omega,List.replicate_succ']

theorem substring_eq_span (p : UInt32 × UInt32) :
    substring line p=span line p.1.toNat p.2.toNat := rfl

end

/-- `separate_args`, without the null pointer at the end: a nul byte is stored behind each part, then
each argument is the C string from the start of its part on. -/
def separateArgs (s : List UInt8) (argIndices : List (UInt32 × UInt32)) : List (List UInt8) :=
  let t := argIndices.foldl (fun t p => if p.2.toNat< s.length then t.set p.2.toNat 0 else t) s
  argIndices.map fun p => cStr (t.drop p.1.toNat)

/-- From the character `q` on, the offsets are those of tokens in order, apart from each other
and in the line, with blanks around them. -/
structure ValidFrom (line : List UInt8) (q : Nat) (offsets : List (UInt32 × UInt32)) : Prop where
  start : ∀ p∈offsets,q≤ p.1.toNat
  inside : ∀ p∈offsets,p.1≤ p.2 ∧ p.2.toNat≤ line.length
  ordered : offsets.Pairwise fun p p' => p.2< p'.1
  blank : ∀ k<line.length,q≤ k → (∀ p∈offsets,¬(p.1.toNat≤ k ∧ k< p.2.toNat)) → (line)[k]?=some 32

/-- Offsets of tokens in order, apart from each other and in the line, with blanks around them -/
def ValidOffsets (line : List UInt8) (offsets : List (UInt32 × UInt32)) : Prop :=
  ValidFrom line 0 offsets

/-- A line that is put together from words and blanks, the positions of the words, and whether another
word can follow -/
inductive Laid : Bool → List UInt8 → List (UInt32 × UInt32) → List (List UInt8) → Prop
  | nil : Laid true [] [] []
  | blank {b r ps ws} : Laid b r ps ws → Laid true (r++[32]) ps ws
  | word {r ps ws} (w : List UInt8) : Laid true r ps ws →
      Laid false (r++w) (ps++[(.ofNat r.length,.ofNat (r++w).length)]) (ws++[w])

namespace Laid

variable {b : Bool} {r : List UInt8} {ps : List (UInt32 × UInt32)} {ws : List (List UInt8)}

theorem toNat_ofNat {n : Nat} (h : n< 2^32) : (UInt32.ofNat n).toNat=n :=
  UInt32.toNat_ofNat_of_lt' h

theorem blanks (h : Laid true r ps ws) (n : Nat) : Laid true (r++List.replicate n 32) ps ws := by
  induction n with
  | zero => simpa using h
  | succ n ih =>
    rw [List.replicate_succ',← List.append_assoc]
    exact ih.blank

/-- The words are inside, and those before another one end before the last character. -/
theorem inside (h : Laid b r ps ws) (hr : r.length< 2^32) :
    ∀ p∈ps,p.1≤ p.2 ∧ p.2.toNat≤ r.length ∧ (b=true → p.2.toNat< r.length) := by
  induction h with
  | nil => simp
  | blank h ih =>
    intro p hp
    rw [List.length_append,List.length_singleton] at hr ⊢
    obtain ⟨h1,h2,-⟩ := ih (by omega) p hp
    exact ⟨h1,by omega,fun _ => by omega⟩
  | @word r ps ws w h ih =>
    intro p hp
    have hlen : (r++w).length=r.length+w.length := List.length_append
    obtain hp | hp := List.mem_append.mp hp
    · obtain ⟨h1,h2,-⟩ := ih (by omega) p hp
      exact ⟨h1,by omega,nofun⟩
    · rw [List.mem_singleton.mp hp]
      refine ⟨?_,?_,nofun⟩
      · rw [UInt32.le_iff_toNat_le,toNat_ofNat (by omega),toNat_ofNat hr]
        omega
      · rw [toNat_ofNat hr]

theorem substring_append {p : UInt32 × UInt32} (h : p.2.toNat≤ r.length) (h1 : p.1≤ p.2)
    (t : List UInt8) : substring (r++t) p=substring r p := by
  have hle : p.1.toNat≤ p.2.toNat := UInt32.le_iff_toNat_le.mp h1
  unfold substring
  rw [List.drop_append_of_le_length (by omega),List.take_append_of_le_length]
  rw [List.length_drop]
  omega

/-- The words are at their positions. -/
theorem words (h : Laid b r ps ws) (hr : r.length< 2^32) : ps.map (substring r)=ws := by
  have keep {r t : List UInt8} {b : Bool} {ps : List (UInt32 × UInt32)} {ws : List (List UInt8)}
      (h : Laid b r ps ws) (hr : r.length< 2^32) (hw : ps.map (substring r)=ws) :
      ps.map (substring (r++t))=ws := by
    rw [← hw]
    refine List.map_congr_left fun p hp => ?_
    obtain ⟨h1,h2,-⟩ := h.inside hr p hp
    exact substring_append h2 h1 t
  induction h with
  | nil => rfl
  | @blank b r ps ws h ih =>
    rw [List.length_append] at hr
    exact keep h (by omega) (ih (by omega))
  | @word r ps ws w h ih =>
    have hlen : (r++w).length=r.length+w.length := List.length_append
    have hlast : substring (r++w) (.ofNat r.length,.ofNat (r++w).length)=w := by
      unfold substring
      dsimp only
      rw [toNat_ofNat hr,toNat_ofNat (by omega),List.drop_left,hlen,Nat.add_sub_cancel_left,
        List.take_length]
    rw [List.map_append,keep h (by omega) (ih (by omega)),List.map_singleton,hlast]

theorem valid (h : Laid b r ps ws) (hr : r.length< 2^32) : ValidOffsets r ps := by
  induction h with
  | nil => exact ⟨by simp,by simp,.nil,by simp⟩
  | @blank b r ps ws h ih =>
    rw [List.length_append,List.length_singleton] at hr
    have hv := ih (by omega)
    refine ⟨fun p hp => Nat.zero_le _,fun p hp => ?_,hv.ordered,fun k hk _ hout => ?_⟩
    · have hp := hv.inside p hp
      rw [List.length_append,List.length_singleton]
      exact ⟨hp.1,by omega⟩
    · rw [List.length_append,List.length_singleton] at hk
      by_cases hlt : k< r.length
      · rw [List.getElem?_append_left hlt]
        exact hv.blank k hlt (Nat.zero_le _) hout
      · obtain rfl : k=r.length := by omega
        simp
  | @word r ps ws w h ih =>
    have hlen : (r++w).length=r.length+w.length := List.length_append
    have hv := ih (by omega)
    have hin := h.inside (by omega)
    have hall := (Laid.word w h).inside hr
    refine ⟨fun p hp => Nat.zero_le _,fun p hp => ⟨(hall p hp).1,(hall p hp).2.1⟩,?_,?_⟩
    · refine List.pairwise_append.mpr ⟨hv.ordered,List.pairwise_singleton _ _,fun p hp p' hp' => ?_⟩
      rw [List.mem_singleton.mp hp',UInt32.lt_iff_toNat_lt,toNat_ofNat (by omega)]
      exact (hin p hp).2.2 rfl
    · intro k hk _ hout
      have hk' : k< r.length := by
        by_contra hge
        refine hout _ (List.mem_append_right ps (List.mem_singleton_self _)) ?_
        rw [toNat_ofNat hr,toNat_ofNat (by omega)]
        omega
      rw [List.getElem?_append_left hk']
      exact hv.blank k hk' (Nat.zero_le _) fun p hp => hout p (List.mem_append_left _ hp)

end Laid

namespace ValidFrom

variable {line : List UInt8} {q : Nat} {p : UInt32 × UInt32} {ps : List (UInt32 × UInt32)}

/-- The first token: blanks are before it, and if a character is behind it, that is a blank too. -/
theorem head (h : ValidFrom line q (p::ps)) :
    q≤ p.1.toNat ∧ p.1.toNat≤ p.2.toNat ∧ p.2.toNat≤ line.length ∧
      (∀ k,q≤ k → k< p.1.toNat → (line)[k]?=some 32) ∧
      (p.2.toNat< line.length → (line)[p.2.toNat]?=some 32) := by
  obtain ⟨hle,hlen⟩ := h.inside p List.mem_cons_self
  have hle' : p.1.toNat≤ p.2.toNat := UInt32.le_iff_toNat_le.mp hle
  have hord := (List.pairwise_cons.mp h.ordered).1
  have hq := h.start p List.mem_cons_self
  have later {p' : UInt32 × UInt32} (hp' : p'∈ps) : p.2.toNat< p'.1.toNat :=
    UInt32.lt_iff_toNat_lt.mp (hord p' hp')
  refine ⟨hq,hle',hlen,fun k hk hlt => h.blank k (by omega) hk fun p' hp' => ?_,
    fun hlt => h.blank _ hlt (by omega) fun p' hp' => ?_⟩
  · obtain rfl | hp' := List.mem_cons.mp hp'
    · omega
    · have hl := later hp'
      omega
  · obtain rfl | hp' := List.mem_cons.mp hp'
    · omega
    · have hl := later hp'
      omega

/-- The tokens behind the first one -/
theorem tail (h : ValidFrom line q (p::ps)) : ValidFrom line (p.2.toNat+1) ps := by
  have hord := List.pairwise_cons.mp h.ordered
  have hq := h.start p List.mem_cons_self
  have hle : p.1.toNat≤ p.2.toNat :=
    UInt32.le_iff_toNat_le.mp (h.inside p List.mem_cons_self).1
  refine ⟨fun p' hp' => ?_,fun p' hp' => h.inside p' (List.mem_cons_of_mem p hp'),hord.2,
    fun k hk hle hout => h.blank k hk (by omega) fun p' hp' => ?_⟩
  · have hlt := UInt32.lt_iff_toNat_lt.mp (hord.1 p' hp')
    omega
  · obtain rfl | hp' := List.mem_cons.mp hp'
    · omega
    · exact hout p' hp'

theorem apart (h : ValidFrom line q ps) : ∀ p∈ps,∀ p'∈ps,
    p=p' ∨ p.2.toNat< p'.1.toNat ∨ p'.2.toNat< p.1.toNat := by
  have hord := h.ordered.imp fun {p p'} h => UInt32.lt_iff_toNat_lt.mp h
  intro p hp p' hp'
  exact List.Pairwise.forall_of_forall_of_flip (R := fun p p' => p=p' ∨ p.2.toNat< p'.1.toNat ∨
    p'.2.toNat< p.1.toNat) (fun p _ => Or.inl rfl) (hord.imp fun h => Or.inr (Or.inl h))
    (hord.imp fun h => Or.inr (Or.inr h)) hp hp'

theorem nil_of_end (h : ValidFrom line q (p::ps)) (he : p.2.toNat=line.length) : ps=[] := by
  cases ps with
  | nil => rfl
  | cons p' ps =>
    obtain ⟨hle,hlen⟩ := h.inside p' (by simp)
    have hlt := UInt32.lt_iff_toNat_lt.mp ((List.pairwise_cons.mp h.ordered).1 p' (by simp))
    have hle' := UInt32.le_iff_toNat_le.mp hle
    omega

end ValidFrom

/-- What is in the line when the nul bytes have been stored -/
theorem getElem?_marked (s : List UInt8) (ps : List (UInt32 × UInt32)) (t : List UInt8)
    (ht : t.length=s.length) (k : Nat) :
    (ps.foldl (fun t p => if p.2.toNat< s.length then t.set p.2.toNat 0 else t) t)[k]?=
      if k< s.length ∧ ∃ p∈ps,p.2.toNat=k then some 0 else t[k]? := by
  induction ps generalizing t with
  | nil => simp
  | cons p ps ih =>
    have hlen : (if p.2.toNat< s.length then t.set p.2.toNat 0 else t).length=s.length := by
      split
      · rw [List.length_set,ht]
      · exact ht
    rw [List.foldl_cons,ih _ hlen]
    by_cases hk : k< s.length ∧ ∃ p'∈ps,p'.2.toNat=k
    · obtain ⟨hlt,p',hp',he⟩ := hk
      rw [if_pos ⟨hlt,p',hp',he⟩,if_pos ⟨hlt,p',List.mem_cons_of_mem p hp',he⟩]
    rw [if_neg hk]
    by_cases hp : p.2.toNat=k
    · by_cases hlt : k< s.length
      · have hlt' : k< t.length := by rw [ht]; exact hlt
        have hp' : p.2.toNat< s.length := by rw [hp]; exact hlt
        rw [if_pos hp',hp,List.getElem?_set_self hlt']
        exact (if_pos ⟨hlt,p,List.mem_cons_self,hp⟩).symm
      · have hp' : ¬p.2.toNat< s.length := by rw [hp]; exact hlt
        rw [if_neg hp']
        exact (if_neg fun h => hlt h.1).symm
    · have hnot : ¬(k< s.length ∧ ∃ p'∈p::ps,p'.2.toNat=k) := by
        intro h
        obtain ⟨hlt,p',hp',he⟩ := h
        obtain rfl | hp' := List.mem_cons.mp hp'
        · exact hp he
        · exact hk ⟨hlt,p',hp',he⟩
      rw [if_neg hnot]
      split
      · exact List.getElem?_set_ne hp
      · rfl

theorem cStr_append (w t : List UInt8) (ht : t.head?.getD 0=0) : cStr (w++t)=cStr w := by
  have h0 : t.takeWhile (·!=0)=[] := by
    cases t with
    | nil => rfl
    | cons c t => rw [show c=0 from ht]; rfl
  induction w with
  | nil => exact h0
  | cons c w ih =>
    unfold cStr at ih ⊢
    by_cases hc : c=0
    · simp [hc]
    · simp [hc,ih]

/-- Each argument is the text of its token, as far as that is a C string. -/
theorem separateArgs_eq {line : List UInt8} {ps : List (UInt32 × UInt32)}
    (h : ValidOffsets line ps) : separateArgs line ps=(ps.map (substring line)).map cStr := by
  unfold separateArgs
  rw [List.map_map]
  refine List.map_congr_left fun p hp => ?_
  obtain ⟨hle,hlen⟩ := h.inside p hp
  have hle' := UInt32.le_iff_toNat_le.mp hle
  generalize ht : ps.foldl
    (fun t p => if p.2.toNat< line.length then t.set p.2.toNat 0 else t) line=t
  have hget := getElem?_marked line ps line rfl
  rw [ht] at hget
  have hsplit : t.drop p.1.toNat=
      (t.drop p.1.toNat).take (p.2.toNat-p.1.toNat)++t.drop p.2.toNat := by
    conv_lhs => rw [← List.take_append_drop (p.2.toNat-p.1.toNat) (t.drop p.1.toNat)]
    rw [List.drop_drop,Nat.add_sub_cancel' hle']
  -- no nul byte is stored inside the token, since no token ends there
  have hinside : (t.drop p.1.toNat).take (p.2.toNat-p.1.toNat)=substring line p := by
    refine List.ext_getElem? fun k => ?_
    unfold substring
    by_cases hk : k< p.2.toNat-p.1.toNat
    · rw [List.getElem?_take_of_lt hk,List.getElem?_take_of_lt hk,List.getElem?_drop,
        List.getElem?_drop,hget]
      refine if_neg fun hmark => ?_
      obtain ⟨-,p',hp',hend⟩ := hmark
      obtain rfl | hlt | hlt := h.apart p hp p' hp'
      · omega
      · have hle'' := UInt32.le_iff_toNat_le.mp (h.inside p' hp').1
        omega
      · omega
    · rw [List.getElem?_take_eq_none (by omega),List.getElem?_take_eq_none (by omega)]
  have hbehind : (t.drop p.2.toNat).head?.getD 0=0 := by
    rw [List.head?_drop,hget]
    by_cases hk : p.2.toNat< line.length
    · rw [if_pos ⟨hk,p,hp,rfl⟩]
      rfl
    · rw [if_neg fun h => hk h.1,List.getElem?_eq_none (by omega)]
      rfl
  rw [hsplit,hinside]
  exact cStr_append _ _ hbehind

end Dinit
