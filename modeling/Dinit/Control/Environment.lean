import Dinit.Control.Reply

namespace Dinit

/-- A string as it lies before its first nul byte. -/
def cString (s : List UInt8) : List UInt8 := s.takeWhile (· != 0)

/-- The part of `NAME=VALUE` before the `=` -/
def varName (s : List UInt8) : List UInt8 := s.takeWhile (· != 61)

/-- `environment`: the sets are lists, in the order in which they are gone through. There is one
setting for each name at most. -/
structure Environment where
  keepParentEnv : Bool := true
  importFromParent : List (List UInt8) := []
  undefine : List (List UInt8) := []
  setVars : List (List UInt8) := []
  unique : (setVars.map varName).Nodup := by exact List.nodup_nil

/-- `env_map` -/
structure EnvMap where
  envList : List (List UInt8) := []
  varMap : List (List UInt8 × Nat) := []

namespace EnvMap

def lookup (m : EnvMap) (name : List UInt8) : Option Nat :=
  (m.varMap.find? fun e => e.1==name).map Prod.snd

/-- A new variable. One of the name that is in the map already stays in it. -/
def push (m : EnvMap) (name s : List UInt8) : EnvMap where
  envList := m.envList++[s]
  varMap := if (m.lookup name).isSome then m.varMap else m.varMap++[(name,m.envList.length)]

/-- A variable of the parent, which is ignored if it has no `=`. -/
def addParent (excluded : List (List UInt8)) (m : EnvMap) (s : List UInt8) : EnvMap :=
  let s := cString s
  if 61 ∈ s ∧ varName s ∉ excluded then m.push (varName s) s else m

/-- A variable that is imported by its name. -/
def addImport (environ : List (List UInt8)) (m : EnvMap) (name : List UInt8) : EnvMap :=
  match environ.find? fun s => 61 ∈ cString s ∧ varName (cString s)=name with
  | none => m
  | some s => m.push name (cString s)

/-- A variable that is set, in the place of the one of the same name. -/
def addSet (exclude : List (List UInt8)) (m : EnvMap) (s : List UInt8) : EnvMap :=
  if varName s ∈ exclude then m
  else
    match m.lookup (varName s) with
    | some pos => { m with envList := m.envList.set pos (cString s) }
    | none => m.push (varName s) (cString s)

/-- No variable has a nul byte in it. -/
def Clean (m : EnvMap) : Prop := ∀ s ∈ m.envList,0 ∉ s

section
variable {m : EnvMap}

theorem not_mem_cString (s : List UInt8) : 0 ∉ cString s := by
  intro h
  have hall := List.all_eq_true.mp (List.all_takeWhile (p := (· != 0)) (l := s)) 0 h
  simp at hall

theorem clean_push (h : m.Clean) (name s : List UInt8) : (m.push name (cString s)).Clean := by
  intro t ht
  rcases List.mem_append.mp ht with ht | ht
  · exact h t ht
  · rw [List.mem_singleton.mp ht]
    exact not_mem_cString s

theorem clean_addParent (excluded : List (List UInt8)) (h : m.Clean) (s : List UInt8) :
    (m.addParent excluded s).Clean := by
  unfold addParent
  simp only
  split
  · exact clean_push h _ s
  · exact h

theorem clean_addImport (environ : List (List UInt8)) (h : m.Clean) (name : List UInt8) :
    (m.addImport environ name).Clean := by
  unfold addImport
  split
  · exact h
  · exact clean_push h name _

theorem clean_addSet (exclude : List (List UInt8)) (h : m.Clean) (s : List UInt8) :
    (m.addSet exclude s).Clean := by
  unfold addSet
  split
  · exact h
  · split
    · intro t ht
      rcases List.mem_or_eq_of_mem_set ht with ht | rfl
      · exact h t ht
      · exact not_mem_cString s
    · exact clean_push h _ s

theorem clean_foldl {f : EnvMap → List UInt8 → EnvMap} (hf : ∀ m s,Clean m → Clean (f m s))
    (vars : List (List UInt8)) (h : m.Clean) : (vars.foldl f m).Clean := by
  induction vars generalizing m with
  | nil => exact h
  | cons s vars ih => exact ih (hf m s h)

end

end EnvMap

/-- `getenv`, with the name in front -/
def getenv (environ : List (List UInt8)) (name : List UInt8) : Option (List UInt8) :=
  (environ.find? fun s => 61 ∈ cString s ∧ varName (cString s)=name).map cString

namespace Environment

/-- `build`, over the variables that the process was started with -/
def buildWithout (environ : List (List UInt8)) (env : Environment) (exclude : List (List UInt8)) :
    EnvMap :=
  let parent :=
    if env.keepParentEnv then environ.foldl (EnvMap.addParent (env.undefine++exclude)) {}
    else env.importFromParent.foldl (EnvMap.addImport environ) {}
  env.setVars.foldl (EnvMap.addSet exclude) parent

def build (environ : List (List UInt8)) (env : Environment) : EnvMap := env.buildWithout environ []

theorem clean_build (environ : List (List UInt8)) (env : Environment) : (env.build environ).Clean := by
  have h0 : EnvMap.Clean {} := fun s hs => absurd hs List.not_mem_nil
  refine EnvMap.clean_foldl (fun m s h => EnvMap.clean_addSet _ h s) env.setVars ?_
  split
  · exact EnvMap.clean_foldl (fun m s h => EnvMap.clean_addParent _ h s) environ h0
  · exact EnvMap.clean_foldl (fun m s h => EnvMap.clean_addImport _ h s) env.importFromParent h0

/-- The settings with one more, which takes the place of the one of the same name. -/
def insertVar (setVars : List (List UInt8)) (s : List UInt8) : List (List UInt8) :=
  if varName s ∈ setVars.map varName then
    setVars.map fun t => if varName t=varName s then s else t
  else setVars++[s]

theorem insertVar_names (setVars : List (List UInt8)) (s : List UInt8) :
    (insertVar setVars s).map varName=
      if varName s ∈ setVars.map varName then setVars.map varName
      else setVars.map varName++[varName s] := by
  unfold insertVar
  split
  · rw [List.map_map]
    apply List.map_congr_left
    intro t _
    by_cases h : varName t=varName s
    · simp [h]
    · simp [h]
  · rw [List.map_append]
    rfl

theorem nodup_insertVar {setVars : List (List UInt8)} (h : (setVars.map varName).Nodup)
    (s : List UInt8) : ((insertVar setVars s).map varName).Nodup := by
  rw [insertVar_names]
  split
  · exact h
  · next hn => exact List.nodup_append.mpr ⟨h,by simp,by simpa using hn⟩

/-- `set_var`, without a notification -/
def setVar (env : Environment) (s : List UInt8) : Environment where
  keepParentEnv := env.keepParentEnv
  importFromParent := env.importFromParent.erase (varName (cString s))
  undefine := env.undefine.erase (varName (cString s))
  setVars := insertVar env.setVars s
  unique := nodup_insertVar env.unique s

/-- The setting of a name. -/
def getVar (env : Environment) (name : List UInt8) : Option (List UInt8) :=
  env.setVars.find? fun s => varName s==name

/-- `get`, as `NAME=VALUE` -/
def get (environ : List (List UInt8)) (env : Environment) (name : List UInt8) :
    Option (List UInt8) :=
  match env.getVar name with
  | some s => some s
  | none =>
    if ¬env.keepParentEnv ∧ name ∉ env.importFromParent then none else getenv environ name

/-- What an environment has of a name from its parent, which is the environment of the process. -/
def inherited (environ : List (List UInt8)) (env : Environment) (exclude : List (List UInt8))
    (n : List UInt8) : Option (List UInt8) :=
  if env.keepParentEnv then if n ∈ env.undefine++exclude then none else getenv environ n
  else if n ∈ env.importFromParent then getenv environ n else none

theorem getVar_setVar (env : Environment) (s name : List UInt8) :
    (env.setVar s).getVar name=if varName s=name then some s else env.getVar name := by
  show (insertVar env.setVars s).find? _=_
  unfold insertVar
  by_cases hmem : varName s ∈ env.setVars.map varName
  · have hname : ∀ t,varName (if varName t=varName s then s else t)=varName t := by
      intro t
      split
      · next h => exact h.symm
      · rfl
    rw [if_pos hmem,List.find?_map]
    simp only [Function.comp_def,hname]
    cases hf : env.setVars.find? (fun t => varName t==name) with
    | none =>
      have hne : varName s≠name := by
        rintro rfl
        obtain ⟨t,ht,heq⟩ := List.mem_map.mp hmem
        have hnot := List.find?_eq_none.mp hf t ht
        simp [heq] at hnot
      rw [if_neg hne,getVar,hf]
      rfl
    | some t =>
      have ht : varName t=name := by simpa using List.find?_some hf
      subst ht
      by_cases h : varName s=varName t
      · simp [h]
      · simp [h,Ne.symm h,getVar,hf]
  · rw [if_neg hmem,List.find?_append]
    by_cases h : varName s=name
    · have hnone : env.setVars.find? (fun t => varName t==name)=none := by
        rw [List.find?_eq_none]
        intro t ht heq
        refine hmem (List.mem_map.mpr ⟨t,ht,?_⟩)
        rw [h]
        simpa using heq
      simp [h,hnone]
    · simp [h,getVar]

/-- What is set one after another: the last setting of a name counts. -/
theorem getVar_foldl (vars : List (List UInt8)) (env : Environment) (name : List UInt8) :
    (vars.foldl setVar env).getVar name=
      ((vars.reverse.find? fun s => varName s==name).or (env.getVar name)) := by
  induction vars generalizing env with
  | nil => simp
  | cons s vars ih =>
    rw [List.foldl_cons,ih,getVar_setVar,List.reverse_cons,List.find?_append]
    by_cases h : varName s=name
    · simp [h]
    · simp [h]

end Environment

/-- The variables of an environment, each with a nul byte behind it -/
def envBytes (env : List (List UInt8)) : List UInt8 := env.flatMap fun s => s++[0]

/-- `process_getallenv`: the reply -/
def processGetallenvReply (environ : List (List UInt8)) (env : Environment) : List UInt8 :=
  let envBlock := envBytes (env.build environ).envList
  78::(nativeBytes 8 envBlock.length++envBlock)

end Dinit
