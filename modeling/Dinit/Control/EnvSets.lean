import Dinit.Control.Environment
import Dinit.Util.HashSet

namespace Dinit

/-- The three sets of an `environment`, as it keeps them -/
structure EnvSets where
  keepParentEnv : Bool := true
  importFromParent : HashSet (List UInt8) := {}
  undefine : HashSet (List UInt8) := {}
  setVars : HashSet (List UInt8) := {}

namespace EnvSets

variable (hash : List UInt8 → Nat)

/-- `hash_sv` and `dinit_equal_to` -/
def envNames : Keyed (List UInt8) where
  hashF s := hash s
  keyEqualF a b := a==b
  construct a := a
  refl := beq_self_eq_true
  symm a b h := by rw [beq_iff_eq] at *; exact h.symm
  trans a b c hab hbc := by rw [beq_iff_eq] at *; exact hab.trans hbc
  hash_eq a b h := congrArg hash (beq_iff_eq.mp h)
  construct_equal := beq_self_eq_true

/-- `hash_env_name` and `env_equal_name`. What is looked up is an assignment, or a name, which has
no `=` in it. -/
def envSet : Keyed (List UInt8) where
  hashF s := hash (varName s)
  keyEqualF a b := varName a==varName b
  construct a := a
  refl a := beq_self_eq_true (varName a)
  symm a b h := by rw [beq_iff_eq] at *; exact h.symm
  trans a b c hab hbc := by rw [beq_iff_eq] at *; exact hab.trans hbc
  hash_eq a b h := congrArg hash (beq_iff_eq.mp h)
  construct_equal a := beq_self_eq_true (varName a)

def setVar (e : EnvSets) (varAndVal : List UInt8) : Except HashSet.Fault EnvSets :=
  let name := varName (cString varAndVal)
  (e.setVars.doInsert (envSet hash) varAndVal).map fun r =>
    {e with
      importFromParent := (e.importFromParent.erase (envNames hash) name).1
      undefine := (e.undefine.erase (envNames hash) name).1
      -- the element that is there already becomes the new assignment
      setVars :=
        if r.2.2 then r.1
        else {r.1 with buckets := r.1.buckets.modify r.2.1.1 fun c => c.set r.2.1.2 varAndVal}}

def undefineVar (e : EnvSets) (name : List UInt8) : Except HashSet.Fault EnvSets :=
  let e := {e with
    importFromParent := (e.importFromParent.erase (envNames hash) name).1
    setVars := (e.setVars.erase (envSet hash) name).1}
  if e.keepParentEnv then
    (e.undefine.doInsert (envNames hash) name).map fun r => {e with undefine := r.1}
  else .ok e

/-- A `SETENV` request for a variable of the daemon's environment -/
def setenv (e : EnvSets) (envVar : List UInt8) : Except HashSet.Fault EnvSets :=
  if 61∉envVar then e.undefineVar hash envVar
  else if envVar.head?=some 61 then .ok e
  else e.setVar hash envVar

/-- A request where it does not fail -/
def request (e : EnvSets) (envVar : List UInt8) : Option EnvSets := (e.setenv hash envVar).toOption

end EnvSets
end Dinit
