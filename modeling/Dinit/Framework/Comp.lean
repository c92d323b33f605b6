import Mathlib.Logic.Relation

namespace Dinit.Framework

open Relation

/-- A computation over a state `σ`. The recursion of the modelled code is cut by a fuel
argument: a computation that has not returned by then gives no value, and the state in
which it was cut. -/
def Comp (σ α : Type) : Type := σ → Option α × σ

namespace Comp

variable {σ α β : Type}

def ret (a : α) : Comp σ α := fun s => (some a,s)

def andThen (m : Comp σ α) (f : α → Comp σ β) : Comp σ β := fun s =>
  match m s with
  | (none,s') => (none,s')
  | (some a,s') => f a s'

instance : Monad (Comp σ) where
  pure := ret
  bind := andThen

def get : Comp σ σ := fun s => (some s,s)

def modify (f : σ → σ) : Comp σ Unit := fun s => (some (),f s)

/-- Cut off here. -/
def fail : Comp σ α := fun s => (none,s)

/-- A range-based `for` loop over a list that the body leaves alone. -/
def forEach (xs : List α) (f : α → Comp σ Unit) : Comp σ Unit :=
  match xs with
  | [] => ret ()
  | x::xs => andThen (f x) fun _ => forEach xs f

theorem get_bind (f : σ → Comp σ β) (s : σ) : (get >>= f) s=f s s := rfl

theorem modify_bind (f : σ → σ) (k : Unit → Comp σ β) (s : σ) : (modify f >>= k) s=k () (f s) := rfl

theorem pure_some {a b : α} {s s' : σ} (h : (pure a : Comp σ α) s=(some b,s')) : a=b ∧ s=s' := by
  simpa [pure,ret] using h

/-- Every run of `m` from `s`, also one that is cut off, is a sequence of `R`-steps; one
that returns ends in `Q`. -/
def Within (R : σ → σ → Prop) (m : Comp σ α) (s : σ) (Q : α → σ → Prop) : Prop :=
  ReflTransGen R s (m s).2 ∧ ∀ a, (m s).1=some a → Q a (m s).2

section
variable {R R' : σ → σ → Prop} {m : Comp σ α} {s : σ} {Q Q' : α → σ → Prop}

theorem within_pure {a : α} (h : Q a s) : Within R (pure a) s Q := by
  refine ⟨.refl,?_⟩
  intro b hb
  obtain rfl : a=b := by simpa [pure,ret] using hb
  exact h

theorem within_fail : Within R (fail : Comp σ α) s Q := by
  refine ⟨.refl,?_⟩
  intro a h
  cases h

/-- An update, seen as several steps. -/
theorem within_modify_steps {f : σ → σ} {Q : Unit → σ → Prop} (hstep : ReflTransGen R s (f s))
    (h : Q () (f s)) : Within R (modify f) s Q :=
  ⟨hstep,fun _ _ => h⟩

theorem within_modify {f : σ → σ} {Q : Unit → σ → Prop} (hstep : R s (f s)) (h : Q () (f s)) :
    Within R (modify f) s Q :=
  within_modify_steps (.single hstep) h

theorem within_bind {f : α → Comp σ β} {Q : β → σ → Prop}
    (h : Within R m s fun a s' => Within R (f a) s' Q) : Within R (m >>= f) s Q := by
  obtain ⟨hs,hm⟩ := h
  simp only [Within,bind,andThen]
  rcases hms : m s with ⟨_ | a,s'⟩
  · rw [hms] at hs
    exact ⟨hs,by simp⟩
  · rw [hms] at hs
    have hf := hm a (by rw [hms])
    rw [hms] at hf
    exact ⟨hs.trans hf.1,hf.2⟩

theorem within_mono (h : Within R m s Q)
    (hq : ∀ a s', ReflTransGen R s s' → Q a s' → Q' a s') : Within R m s Q' :=
  ⟨h.1,fun a ha => hq a _ h.1 (h.2 a ha)⟩

theorem within_and (h : Within R m s Q) (h' : Within R m s Q') :
    Within R m s fun a s' => Q a s' ∧ Q' a s' :=
  ⟨h.1,fun a ha => ⟨h.2 a ha,h'.2 a ha⟩⟩

theorem within_sub (h : Within R m s Q) (hr : ∀ s s', R s s' → R' s s') : Within R' m s Q :=
  ⟨ReflTransGen.mono hr s _ h.1,h.2⟩

/-- The rule of a computation in the middle of a sequence: what follows is proved from
any state it can end in. -/
theorem within_seq {f : α → Comp σ β} {Q' : β → σ → Prop} (h : Within R m s Q)
    (hf : ∀ a s', ReflTransGen R s s' → Q a s' → Within R (f a) s' Q') :
    Within R (m >>= f) s Q' :=
  within_bind (within_mono h hf)

theorem within_step {f : σ → σ} {k : Unit → Comp σ β} {Q : β → σ → Prop} (hstep : R s (f s))
    (h : Within R (k ()) (f s) Q) : Within R (modify f >>= k) s Q :=
  within_bind (within_modify hstep h)

/-- What a computation does in `s` is what another does in a state that is reached. -/
theorem within_eq {n : Comp σ α} {s' : σ} (heq : m s=n s') (hs : ReflTransGen R s s')
    (h : Within R n s' Q) : Within R m s Q := by
  rw [Within,heq]
  exact ⟨hs.trans h.1,h.2⟩

theorem Within.returned {a : α} {s' : σ} (h : Within R m s Q) (hm : m s=(some a,s')) :
    ReflTransGen R s s' ∧ Q a s' := by
  rw [Within,hm] at h
  exact ⟨h.1,h.2 a rfl⟩

/-- What a sequence returns is returned by its last part. -/
theorem bind_some {f : α → Comp σ β} {b : β} {s' : σ} (h : (m >>= f) s=(some b,s')) :
    ∃ a u, m s=(some a,u) ∧ f a u=(some b,s') := by
  simp only [bind,andThen] at h
  rcases hm : m s with ⟨_ | a,u⟩
  · rw [hm] at h
    cases h
  · rw [hm] at h
    exact ⟨a,u,rfl,h⟩

theorem within_ite {p : Prop} [Decidable p] {m' : Comp σ α} (ht : p → Within R m s Q)
    (hf : ¬p → Within R m' s Q) : Within R (if p then m else m') s Q := by
  split
  · next h => exact ht h
  · next h => exact hf h

/-- A loop keeps what each round of it keeps. -/
theorem within_forEach {xs : List α} {f : α → Comp σ Unit} {I : σ → Prop} (hi : I s)
    (hf : ∀ x ∈ xs, ∀ s, I s → Within R (f x) s fun _ s' => I s') :
    Within R (forEach xs f) s fun _ s' => I s' := by
  induction xs generalizing s with
  | nil => exact within_pure hi
  | cons x xs ih =>
    refine within_bind (within_mono (hf x (by simp) s hi) ?_)
    intro _ s' _ hi'
    exact ih hi' fun y hy => hf y (by simp [hy])

/-- An invariant that every step keeps is kept by every sequence of steps. -/
theorem invariant_of_steps {I : σ → Prop} (hstep : ∀ s s', I s → R s s' → I s') {s s' : σ}
    (h : ReflTransGen R s s') (hi : I s) : I s' := by
  induction h with
  | refl => exact hi
  | tail _ hs ih => exact hstep _ _ ih hs

/-- An invariant under a condition on a log that only grows: every step keeps it as long
as the entries up to then meet the condition. -/
theorem invariant_of_log {ε : Type} (log : σ → List ε) (Ok : ε → Prop) (I : σ → Prop)
    (hgrow : ∀ s s', R s s' → ∀ e ∈ log s, e ∈ log s')
    (hstep : ∀ s s', (∀ e ∈ log s', Ok e) → I s → R s s' → I s') {s s' : σ}
    (h : ReflTransGen R s s') (hok : ∀ e ∈ log s', Ok e) (hi : I s) : I s' := by
  induction h with
  | refl => exact hi
  | @tail u v _ hs ih =>
    have hu : ∀ e ∈ log u, Ok e := fun e he => hok e (hgrow u v hs e he)
    exact hstep u v hok (ih hu) hs

end
/-- `m` returns from `s`, in a state in which `Q` holds. -/
def Returns (m : Comp σ α) (s : σ) (Q : α → σ → Prop) : Prop := ∃ a s', m s=(some a,s') ∧ Q a s'

section
variable {m : Comp σ α} {s : σ} {Q Q' : α → σ → Prop}

theorem bind_eq {f : α → Comp σ β} {a : α} {s' : σ} (h : m s=(some a,s')) : (m >>= f) s=f a s' := by
  simp only [bind,andThen,h]

theorem returns_pure {a : α} (h : Q a s) : Returns (pure a) s Q := ⟨a,s,rfl,h⟩

theorem returns_modify {f : σ → σ} {Q : Unit → σ → Prop} (h : Q () (f s)) :
    Returns (modify f) s Q :=
  ⟨(),f s,rfl,h⟩

theorem returns_bind {f : α → Comp σ β} {Q : β → σ → Prop}
    (h : Returns m s fun a s' => Returns (f a) s' Q) : Returns (m >>= f) s Q := by
  obtain ⟨a,s',hm,b,s'',hf,hq⟩ := h
  exact ⟨b,s'',(bind_eq hm).trans hf,hq⟩

theorem returns_mono (h : Returns m s Q) (hq : ∀ a s', Q a s' → Q' a s') : Returns m s Q' := by
  obtain ⟨a,s',hm,h⟩ := h
  exact ⟨a,s',hm,hq a s' h⟩

theorem returns_seq {f : α → Comp σ β} {Q' : β → σ → Prop} (h : Returns m s Q)
    (hf : ∀ a s', Q a s' → Returns (f a) s' Q') : Returns (m >>= f) s Q' :=
  returns_bind (returns_mono h hf)

theorem returns_ite {p : Prop} [Decidable p] {m' : Comp σ α} (ht : p → Returns m s Q)
    (hf : ¬p → Returns m' s Q) : Returns (if p then m else m') s Q := by
  split
  · next h => exact ht h
  · next h => exact hf h

end
end Comp
end Dinit.Framework
