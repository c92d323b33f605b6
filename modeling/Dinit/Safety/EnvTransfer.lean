import Dinit.Client.Environ
import Dinit.Safety.Listing

namespace Dinit

open Framework Framework.Reader

namespace Environment

/-- The settings of an environment when these variables have been set in it, one after another: each
name has the setting that came last, and the others stay. -/
structure Has (env menv : Environment) (vars : List (List UInt8)) : Prop where
  set : ∀ before s behind,vars=before++s::behind → (∀ t ∈ behind,varName t≠varName s) →
    env.getVar (varName s)=some s
  rest : ∀ name,(∀ s ∈ vars,varName s≠name) → env.getVar name=menv.getVar name

theorem has_foldl (menv : Environment) (vars : List (List UInt8)) :
    (vars.foldl setVar menv).Has menv vars := by
  constructor
  · rintro before s behind rfl h
    have hnone : behind.reverse.find? (fun t => varName t==varName s)=none := by
      rw [List.find?_eq_none]
      intro t ht
      simpa using h t (List.mem_reverse.mp ht)
    rw [getVar_foldl,List.reverse_append,List.reverse_cons,List.append_assoc,List.find?_append,hnone]
    simp
  · intro name h
    have hnone : vars.reverse.find? (fun t => varName t==name)=none := by
      rw [List.find?_eq_none]
      intro t ht
      simpa using h t (List.mem_reverse.mp ht)
    rw [getVar_foldl,hnone]
    rfl

end Environment

/-- All variables of the environment of the server come to be set by the client, each of them once
and as it is, however the packet is cut into reads, and all of the packet is taken. -/
theorem environment_transferred (environ : List (List UInt8)) (env menv : Environment)
    (rest : List UInt8) (b : Buffered UInt8 1024)
    (hsize : (envBytes (env.build environ).envList).length<2^64)
    (hb : b.At (processGetallenvReply environ env++rest) 0) :
    Ends (Client.getRemoteEnv menv) b
        (.ok ((env.build environ).envList.foldl Environment.setVar menv)) rest ∧
      Environment.Has ((env.build environ).envList.foldl Environment.setVar menv) menv
        (env.build environ).envList := by
  refine ⟨?_,Environment.has_foldl menv _⟩
  rw [processGetallenvReply] at hb
  simp only [List.cons_append,List.append_assoc] at hb
  exact Client.getRemoteEnv_run (Environment.clean_build environ env) hsize hb

/-- An environment with `A=1`, and `B` set to nothing. -/
theorem environment_two :
    let environ : List (List UInt8) := [[65,61,49]]
    let env : Environment := Environment.setVar {} [66,61]
    Ends (Client.getRemoteEnv {}) (emptyRead (processGetallenvReply environ env++[]))
        (.ok ([[65,61,49],[66,61]].foldl Environment.setVar {})) [] := by
  intro environ env
  exact (environment_transferred environ env {} [] _ (by decide) (emptyRead_at _)).1

end Dinit
