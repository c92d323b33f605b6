import Mathlib.Data.List.Infix

namespace Dinit.Framework

variable {σ α : Type}

/-- An entry that is not among the new ones was there before. -/
theorem suffix_of_not_mem {e : α} {past new old : List α} (hn : e ∉ new)
    (h : (e::past) <:+ new++old) : (e::past) <:+ old := by
  induction new with
  | nil => exact h
  | cons x new ih =>
    rcases List.suffix_cons_iff.mp h with h | h
    · cases h
      exact absurd List.mem_cons_self hn
    · exact ih (fun hm => hn (List.mem_cons_of_mem x hm)) h

/-- `q` was so at some entry of a history, newest first, and `p` has been so ever since. -/
def since (p q : α → Bool) : List α → Bool
  | [] => false
  | e::past => q e || p e && since p q past

section
variable {p q : α → Bool} {past new : List α} {e : α}

theorem since_head (h : q e=true) : since p q (e::past)=true := by
  rw [since,h,Bool.true_or]

theorem since_append (hn : ∀ x ∈ new,p x=true) (h : since p q past=true) :
    since p q (new++past)=true := by
  induction new with
  | nil => exact h
  | cons x new ih =>
    rw [List.cons_append,since,hn x List.mem_cons_self,
      ih fun y hy => hn y (List.mem_cons_of_mem x hy)]
    simp

end

section
variable (history : σ → List α) (p q : α → Bool) (I : σ → Prop)

/-- If `I` is so after the step from `s` to `s'`, it was so before and `p` in all that has come
to the history, or the history shows how it has come to be so. -/
def Explains (s s' : σ) : Prop := I s' →
  (I s ∧ ∃ new,history s'=new++history s ∧ ∀ e ∈ new,p e=true) ∨ since p q (history s')=true

end

namespace Explains

variable {history : σ → List α} {p q : α → Bool} {I : σ → Prop} {s s' s'' : σ}

theorem of_not (h : ¬I s') : Explains history p q I s s' := fun hi => absurd hi h

theorem same (hi : I s' → I s) (h : history s'=history s) : Explains history p q I s s' :=
  fun hi' => .inl ⟨hi hi',[],h,by simp⟩

theorem trans (h : Explains history p q I s s') (h' : Explains history p q I s' s'') :
    Explains history p q I s s'' := by
  intro hi
  rcases h' hi with ⟨hi',new',hn',hp'⟩ | hs
  · rcases h hi' with ⟨hi,new,hn,hp⟩ | hs
    · refine .inl ⟨hi,new'++new,by rw [hn',hn,List.append_assoc],fun e he => ?_⟩
      exact (List.mem_append.mp he).elim (hp' e) (hp e)
    · rw [hn']
      exact .inr (since_append hp' hs)
  · exact .inr hs

/-- What the history explains it still explains after the step. -/
theorem keeps (h : Explains history p q I s s') (hs : I s → since p q (history s)=true) (hi : I s') :
    since p q (history s')=true := by
  rcases h hi with ⟨hi,new,hn,hp⟩ | hs
  · rw [hn]
    exact since_append hp (hs hi)
  · exact hs

end Explains

end Dinit.Framework
