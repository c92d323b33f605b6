import Dinit.Framework.Loop
import Dinit.Util.LinkedSet

namespace Dinit.CheckCycle

open Framework

/-- How `check_cycle` ends: it returns, or throws `service_cyclic_dependency`, or a set fails. -/
inductive Verdict where
  | returned
  | cyclic
  | failed
  deriving DecidableEq

/-- `std::hash` and `std::equal_to` of pointers to services -/
def pointers {κ : Type} [DecidableEq κ] (hash : κ → Nat) : Keyed κ where
  hashF := hash
  keyEqualF a b := decide (a=b)
  construct a := a
  refl _ := decide_eq_true rfl
  symm _ _ h := decide_eq_true (of_decide_eq_true h).symm
  trans _ _ _ hab hbc := decide_eq_true ((of_decide_eq_true hab).trans (of_decide_eq_true hbc))
  hash_eq _ _ h := congrArg hash (of_decide_eq_true h)
  construct_equal _ := decide_eq_true rfl

section
variable {κ : Type} [DecidableEq κ] (hash : κ → Nat) (dependencies : κ → List κ) (orig : κ)

/-- The loop over the services that a list of dependencies leads to -/
def addAll : List κ → LinkedSet κ → Except Verdict (LinkedSet κ)
  | [],pending => .ok pending
  | to_::rest,pending =>
    if to_=orig then .error .cyclic
    else
      match pending.addBack (pointers hash) to_ with
      | .ok (pending,_) => addAll rest pending
      | .error _ => .error .failed

/-- The loop over the pending services, at the record `i`; `expanded` are the services whose
dependencies have been gone through. -/
structure Walk (κ : Type) where
  pending : LinkedSet κ
  i : Option Nat
  expanded : List κ := []

def turn (w : Walk κ) : Turn (Walk κ) (Verdict × List κ) :=
  match w.i with
  | none => .stop (.returned,w.expanded)
  | some addr =>
    match w.pending.deref addr with
    | none => .stop (.failed,w.expanded)
    | some service =>
      let expanded := w.expanded++[service]
      match addAll hash orig (dependencies service) w.pending with
      | .error v => .stop (v,expanded)
      | .ok pending => .next {pending := pending,i := pending.next addr,expanded := expanded}

/-- What comes of `check_cycle` within so many turns of the second loop, and what was expanded -/
def checkCycle (deps : List κ) (turns : Nat) : Option (Verdict × List κ) :=
  match addAll hash orig deps {} with
  | .error v => some (v,[])
  | .ok pending => loop (turn hash dependencies orig) turns {pending := pending,i := pending.first}

end
end Dinit.CheckCycle
