import Mathlib.Data.List.Basic

namespace Dinit.Framework

/-- A computation that goes on after an error, with what it has found so far -/
abbrev Noting (ε ρ α : Type) := StateT (List ρ) (Except ε) α

namespace Noting

variable {ε ρ α β : Type}

def note (r : ρ) : Noting ε ρ Unit := modify fun log => log++[r]

def fail (e : ε) : Noting ε ρ α := fun _ => .error e

@[simp] theorem pure_run (v : α) (log : List ρ) :
    (pure v : Noting ε ρ α) log=.ok (v,log) := rfl

@[simp] theorem note_run (r : ρ) (log : List ρ) :
    note (ε := ε) r log=.ok ((),log++[r]) := rfl

@[simp] theorem fail_run (e : ε) (log : List ρ) : fail (α := α) e log=.error e := rfl

theorem bind_ok {y : Noting ε ρ α} {g : α → Noting ε ρ β} {log : List ρ} {v : β × List ρ} :
    (y >>= g) log=.ok v ↔ ∃ a log',y log=.ok (a,log') ∧ g a log'=.ok v := by
  have h : (y >>= g) log=(y log).bind fun p => g p.1 p.2 := rfl
  rw [h]
  cases y log with
  | error e => simp [Except.bind]
  | ok p => simp [Except.bind,Prod.ext_iff,and_comm]

/-- One computation stops at the first error, the other notes errors and warnings and goes on. As long
as there are only warnings, they come to the same. -/
structure Agrees (warning : ρ → Prop) (x : Except ε α) (y : Noting ε ρ α) : Prop where
  accepted : ∀ {v : α},x=.ok v → ∀ log,∃ ws,y log=.ok (v,log++ws) ∧ ∀ w∈ws,warning w
  clean : ∀ {v : α} {log log' : List ρ},y log=.ok (v,log') →
    ∃ ws,log'=log++ws ∧ ((∀ w∈ws,warning w) → x=.ok v)

namespace Agrees

variable {warning : ρ → Prop} {x : Except ε α} {y : Noting ε ρ α} {f : α → Except ε β}
  {g : α → Noting ε ρ β}

theorem pure (v : α) : Agrees (ε := ε) warning (.ok v) (Pure.pure v) where
  accepted h log := by
    cases h
    exact ⟨[],by simp⟩
  clean h := by
    cases h
    exact ⟨[],by simp⟩

/-- What is thrown in both is not noted. -/
theorem fail (e : ε) : Agrees warning (.error e : Except ε α) (Noting.fail e) where
  accepted := nofun
  clean := nofun

theorem warn {r : ρ} (hr : warning r) : Agrees (ε := ε) warning (.ok ()) (note r) where
  accepted _ log := ⟨[r],rfl,by simpa using hr⟩
  clean h := by
    cases h
    exact ⟨[r],rfl,fun _ => rfl⟩

/-- An error stops the one, and the other notes it and goes on with whatever there is. -/
theorem error {r : ρ} (hr : ¬warning r) (e : ε) (v : α) :
    Agrees warning (.error e) (note r >>= fun _ => Pure.pure v) where
  accepted := nofun
  clean h := by
    cases h
    exact ⟨[r],rfl,fun h => absurd (h r (List.mem_singleton_self r)) hr⟩

theorem bind (h : Agrees warning x y) (hf : ∀ a,Agrees warning (f a) (g a)) :
    Agrees warning (x >>= f) (y >>= g) where
  accepted := by
    intro v hv log
    cases x with
    | error e => exact nomatch hv
    | ok a =>
      obtain ⟨ws,hy,hw⟩ := h.accepted rfl log
      obtain ⟨ws',hg,hw'⟩ := (hf a).accepted hv (log++ws)
      refine ⟨ws++ws',bind_ok.mpr ⟨a,log++ws,hy,by simpa using hg⟩,fun w hm => ?_⟩
      exact (List.mem_append.mp hm).elim (hw w) (hw' w)
  clean := by
    intro v log log' hv
    obtain ⟨a,mid,hy,hg⟩ := bind_ok.mp hv
    obtain ⟨ws,rfl,hx⟩ := h.clean hy
    obtain ⟨ws',rfl,hf⟩ := (hf a).clean hg
    refine ⟨ws++ws',by simp,fun hw => ?_⟩
    rw [hx fun w hm => hw w (List.mem_append_left _ hm)]
    exact hf fun w hm => hw w (List.mem_append_right _ hm)

theorem ite {c : Prop} [Decidable c] {x' : Except ε α} {y' : Noting ε ρ α} (h : Agrees warning x y)
    (h' : Agrees warning x' y') : Agrees warning (if c then x else x') (if c then y else y') := by
  split
  · exact h
  · exact h'

/-- A loop over a list -/
theorem foldlM {L : Type} {f : α → L → Except ε α} {g : α → L → Noting ε ρ α}
    (h : ∀ a l,Agrees warning (f a l) (g a l)) (ls : List L) (a : α) :
    Agrees warning (ls.foldlM f a) (ls.foldlM g a) := by
  induction ls generalizing a with
  | nil => exact pure a
  | cons l ls ih =>
    rw [List.foldlM_cons,List.foldlM_cons]
    exact (h a l).bind ih

end Agrees

end Noting

end Dinit.Framework
