import Mathlib.Data.List.Nodup
import Mathlib.Data.List.TakeWhile
import Dinit.Control.Environment

namespace Dinit

theorem cString_eq {s : List UInt8} (h : 0 ∉ s) : cString s=s := by
  refine List.takeWhile_eq_self_iff.mpr fun x hx => bne_iff_ne.mpr ?_
  rintro rfl
  exact h hx

/-- The names of the variables in a list, where what has no `=` is not counted. -/
def varNames (vars : List (List UInt8)) : List (List UInt8) :=
  ((vars.map cString).filter fun s => 61 ∈ s).map varName

/-- The variables that the process was started with: no two of one name. -/
structure SystemEnv where
  vars : List (List UInt8)
  distinct : (varNames vars).Nodup

theorem getenv_cons (s : List UInt8) (environ : List (List UInt8)) (name : List UInt8) :
    getenv (s::environ) name=
      if 61 ∈ cString s ∧ varName (cString s)=name then some (cString s) else getenv environ name := by
  unfold getenv
  rw [List.find?_cons]
  by_cases h : 61 ∈ cString s ∧ varName (cString s)=name
  · simp [h]
  · simp [h]

theorem getenv_name {environ : List (List UInt8)} {name s : List UInt8}
    (h : getenv environ name=some s) : varName s=name ∧ name ∈ varNames environ := by
  obtain ⟨t,ht,rfl⟩ := Option.map_eq_some_iff.mp h
  obtain ⟨h61,hname⟩ : 61 ∈ cString t ∧ varName (cString t)=name := by
    simpa using List.find?_some ht
  refine ⟨hname,List.mem_map.mpr ⟨cString t,List.mem_filter.mpr ⟨?_,by simpa using h61⟩,hname⟩⟩
  exact List.mem_map_of_mem (List.mem_of_find?_eq_some ht)

namespace EnvMap

/-- The variable of a name. -/
def entry (m : EnvMap) (name : List UInt8) : Option (List UInt8) :=
  (m.lookup name).bind fun i => m.envList[i]?

/-- `lookup`: what is behind `NAME=` -/
def value (m : EnvMap) (name : List UInt8) : Option (List UInt8) :=
  (m.entry name).map (List.drop (name.length+1))

/-- Each name is in the list once, and the map has the place of it. -/
structure Indexed (m : EnvMap) : Prop where
  nodup : (m.envList.map varName).Nodup
  index : ∀ name i,m.lookup name=some i ↔ (m.envList.map varName)[i]?=some name

section
variable {m : EnvMap} {name s : List UInt8}

theorem indexed_empty : Indexed {} := ⟨List.nodup_nil,fun name i => by simp [lookup]⟩

theorem Indexed.lookup_none (h : m.Indexed) : m.lookup name=none ↔ name ∉ m.envList.map varName := by
  constructor
  · intro hn hm
    obtain ⟨i,hi⟩ := List.mem_iff_getElem?.mp hm
    rw [(h.index name i).mpr hi] at hn
    cases hn
  · intro hm
    cases hl : m.lookup name with
    | none => rfl
    | some i => exact absurd (List.mem_of_getElem? ((h.index name i).mp hl)) hm

theorem entry_none (h : m.Indexed) : m.entry name=none ↔ m.lookup name=none := by
  cases hl : m.lookup name with
  | none => simp [entry,hl]
  | some i =>
    have hi := (h.index name i).mp hl
    rw [List.getElem?_map] at hi
    obtain ⟨s,hs,-⟩ := Option.map_eq_some_iff.mp hi
    simp [entry,hl,hs]

theorem lookup_push (hn : m.lookup name=none) (n : List UInt8) :
    (m.push name s).lookup n=if n=name then some m.envList.length else m.lookup n := by
  have hmap : (m.push name s).varMap=m.varMap++[(name,m.envList.length)] := by
    show (if (m.lookup name).isSome then _ else _)=_
    rw [hn]
    rfl
  unfold lookup
  rw [hmap,List.find?_append]
  by_cases h : n=name
  · subst h
    have hf : m.varMap.find? (fun e => e.1==n)=none := Option.map_eq_none_iff.mp hn
    simp [hf]
  · simp [h,Ne.symm h]

/-- A variable with a new name is put behind the others. -/
theorem indexed_push (h : m.Indexed) (hn : m.lookup name=none) (hs : varName s=name) :
    (m.push name s).Indexed ∧
      ∀ n,(m.push name s).entry n=if n=name then some s else m.entry n := by
  have hnew := h.lookup_none.mp hn
  refine ⟨⟨?_,fun n i => ?_⟩,fun n => ?_⟩
  · show ((m.envList++[s]).map varName).Nodup
    rw [List.map_append,List.map_cons,hs]
    exact List.nodup_append.mpr ⟨h.nodup,by simp,by simpa using hnew⟩
  · rw [lookup_push hn]
    show _ ↔ ((m.envList++[s]).map varName)[i]?=some n
    rw [List.map_append,List.map_cons,List.map_nil,hs]
    by_cases hi : i<(m.envList.map varName).length
    · rw [List.getElem?_append_left hi,← h.index]
      rw [List.length_map] at hi
      split
      · next he =>
        subst he
        rw [hn]
        refine iff_of_false (fun hx => ?_) (by simp)
        have := Option.some.inj hx
        omega
      · exact Iff.rfl
    · rw [List.getElem?_append_right (by omega)]
      split
      · next he =>
        subst he
        rw [List.length_map] at hi ⊢
        by_cases he : i=m.envList.length
        · simp [he]
        · have : i-m.envList.length≠0 := by omega
          simp [Ne.symm he,this]
      · next hne =>
        refine iff_of_false (fun hx => hi ?_) ?_
        · have := (h.index n i).mp hx
          exact (List.getElem?_eq_some_iff.mp this).1
        · intro hx
          have hm := List.mem_of_getElem? hx
          exact hne (List.mem_singleton.mp hm)
  · unfold entry
    rw [lookup_push hn]
    show (if n=name then some m.envList.length else m.lookup n).bind (fun i => (m.envList++[s])[i]?)=_
    split
    · simp
    · cases hl : m.lookup n with
      | none => rfl
      | some i =>
        have hi := (List.getElem?_eq_some_iff.mp ((h.index n i).mp hl)).1
        rw [List.length_map] at hi
        exact List.getElem?_append_left hi

/-- A variable takes the place of the one of the same name. -/
theorem indexed_set (h : m.Indexed) {pos : Nat} (hl : m.lookup name=some pos) (hs : varName s=name) :
    Indexed { m with envList := m.envList.set pos s } ∧
      ∀ n,entry { m with envList := m.envList.set pos s } n=if n=name then some s else m.entry n := by
  have hpos := (h.index name pos).mp hl
  have hnames : (m.envList.set pos s).map varName=m.envList.map varName := by
    rw [List.map_set,hs]
    apply List.ext_getElem?
    intro i
    rw [List.getElem?_set]
    split
    · next he =>
      subst he
      rw [if_pos (List.getElem?_eq_some_iff.mp hpos).1,hpos]
    · rfl
  refine ⟨⟨?_,fun n i => ?_⟩,fun n => ?_⟩
  · show ((m.envList.set pos s).map varName).Nodup
    rw [hnames]
    exact h.nodup
  · show m.lookup n=some i ↔ ((m.envList.set pos s).map varName)[i]?=some n
    rw [hnames]
    exact h.index n i
  · show (m.lookup n).bind (fun i => (m.envList.set pos s)[i]?)=_
    have hlt := (List.getElem?_eq_some_iff.mp hpos).1
    rw [List.length_map] at hlt
    split
    · next he =>
      subst he
      simp [hl,hlt]
    · next hne =>
      cases hi : m.lookup n with
      | none => simp [entry,hi]
      | some i =>
        have hip : pos≠i := by
          rintro rfl
          exact hne (Option.some.inj (((h.index n pos).mp hi).symm.trans hpos))
        simp [entry,hi,hip]

/-- The variables of the parent, without those that are excluded. -/
theorem indexed_addParent (excluded : List (List UInt8)) {environ : List (List UInt8)}
    (hd : (varNames environ).Nodup) (h : m.Indexed)
    (hnew : ∀ n ∈ varNames environ,m.lookup n=none) :
    (environ.foldl (addParent excluded) m).Indexed ∧
      ∀ n,(environ.foldl (addParent excluded) m).entry n=
        if n ∈ varNames environ ∧ n ∉ excluded then getenv environ n else m.entry n := by
  induction environ generalizing m with
  | nil => exact ⟨h,fun n => by simp [varNames]⟩
  | cons s environ ih =>
    rw [List.foldl_cons]
    by_cases h61 : 61 ∈ cString s
    · have hnames : varNames (s::environ)=varName (cString s)::varNames environ := by
        simp [varNames,h61]
      rw [hnames] at hd hnew ⊢
      obtain ⟨hs,hd⟩ := List.nodup_cons.mp hd
      have hrest : ∀ n ∈ varNames environ,m.lookup n=none := fun n hn =>
        hnew n (List.mem_cons_of_mem _ hn)
      by_cases hex : varName (cString s) ∈ excluded
      · have hskip : addParent excluded m s=m := if_neg fun hc => hc.2 hex
        rw [hskip]
        obtain ⟨hi,he⟩ := ih hd h hrest
        refine ⟨hi,fun n => ?_⟩
        rw [he,getenv_cons]
        by_cases hn : varName (cString s)=n
        · subst hn
          simp [hs,hex]
        · simp [hn,Ne.symm hn]
      · have hpush : addParent excluded m s=m.push (varName (cString s)) (cString s) :=
          if_pos ⟨h61,hex⟩
        have hn0 := hnew _ List.mem_cons_self
        obtain ⟨hi0,he0⟩ := indexed_push h hn0 (s := cString s) rfl
        rw [hpush]
        obtain ⟨hi,he⟩ := ih hd hi0 fun n hn => by
          have hne : n≠varName (cString s) := fun heq => hs (heq ▸ hn)
          rw [lookup_push hn0,if_neg hne]
          exact hrest n hn
        refine ⟨hi,fun n => ?_⟩
        rw [he,he0,getenv_cons]
        by_cases hn : varName (cString s)=n
        · subst hn
          simp [hs,hex,h61]
        · simp [hn,Ne.symm hn]
    · have hskip : addParent excluded m s=m := if_neg fun hc => h61 hc.1
      have hnames : varNames (s::environ)=varNames environ := by simp [varNames,h61]
      rw [hskip]
      rw [hnames] at hd hnew ⊢
      obtain ⟨hi,he⟩ := ih hd h hnew
      refine ⟨hi,fun n => ?_⟩
      have hg : getenv (s::environ) n=getenv environ n := by
        rw [getenv_cons]
        exact if_neg fun hc => h61 hc.1
      rw [he,hg]

theorem addImport_eq (environ : List (List UInt8)) (m : EnvMap) (name : List UInt8) :
    addImport environ m name=(getenv environ name).elim m fun s => m.push name s := by
  unfold addImport getenv
  cases environ.find? fun s => 61 ∈ cString s ∧ varName (cString s)=name with
  | none => rfl
  | some s => rfl

/-- Variables that are imported one by one, when `get` finds them. -/
theorem indexed_imports {get : List UInt8 → Option (List UInt8)}
    (hget : ∀ n s,get n=some s → varName s=n) {names : List (List UInt8)} (hd : names.Nodup)
    (h : m.Indexed) (hnew : ∀ n ∈ names,m.lookup n=none) :
    (names.foldl (fun m n => (get n).elim m fun s => m.push n s) m).Indexed ∧
      ∀ n,(names.foldl (fun m n => (get n).elim m fun s => m.push n s) m).entry n=
        if n ∈ names then get n else m.entry n := by
  induction names generalizing m with
  | nil => exact ⟨h,fun n => by simp⟩
  | cons name names ih =>
    obtain ⟨hs,hd⟩ := List.nodup_cons.mp hd
    have hn0 := hnew name List.mem_cons_self
    have hrest : ∀ n ∈ names,m.lookup n=none := fun n hn => hnew n (List.mem_cons_of_mem _ hn)
    rw [List.foldl_cons]
    cases hg : get name with
    | none =>
      obtain ⟨hi,he⟩ := ih hd h hrest
      refine ⟨hi,fun n => ?_⟩
      rw [Option.elim_none,he]
      by_cases hn : n=name
      · subst hn
        rw [if_neg hs,if_pos List.mem_cons_self,hg]
        exact (entry_none h).mpr hn0
      · simp [hn]
    | some s =>
      obtain ⟨hi0,he0⟩ := indexed_push h hn0 (hget name s hg)
      obtain ⟨hi,he⟩ := ih hd hi0 fun n hn => by
        have hne : n≠name := fun heq => hs (heq ▸ hn)
        rw [lookup_push hn0,if_neg hne]
        exact hrest n hn
      refine ⟨hi,fun n => ?_⟩
      rw [Option.elim_some,he,he0]
      by_cases hn : n=name
      · subst hn
        simp [hs,hg]
      · simp [hn]

/-- The own settings, over what is there. -/
theorem indexed_sets (exclude : List (List UInt8)) {vars : List (List UInt8)}
    (hd : (vars.map varName).Nodup) (h0 : ∀ s ∈ vars,0 ∉ s) (h : m.Indexed) :
    (vars.foldl (addSet exclude) m).Indexed ∧
      ∀ n,(vars.foldl (addSet exclude) m).entry n=
        if n ∈ exclude then m.entry n
        else (vars.find? fun s => varName s==n).or (m.entry n) := by
  induction vars generalizing m with
  | nil => exact ⟨h,fun n => by simp⟩
  | cons s vars ih =>
    obtain ⟨hs,hd⟩ := List.nodup_cons.mp hd
    have hc : cString s=s := cString_eq (h0 s List.mem_cons_self)
    rw [List.foldl_cons]
    have hstep : (addSet exclude m s).Indexed ∧ ∀ n,(addSet exclude m s).entry n=
        if n=varName s ∧ n ∉ exclude then some s else m.entry n := by
      by_cases hex : varName s ∈ exclude
      · have hskip : addSet exclude m s=m := if_pos hex
        rw [hskip]
        refine ⟨h,fun n => (if_neg ?_).symm⟩
        rintro ⟨rfl,hn⟩
        exact hn hex
      · unfold addSet
        rw [if_neg hex,hc]
        have hcond : ∀ n,(n=varName s ∧ n ∉ exclude) ↔ n=varName s := fun n =>
          and_iff_left_of_imp fun he => he ▸ hex
        simp only [hcond]
        cases hl : m.lookup (varName s) with
        | none => exact indexed_push h hl rfl
        | some pos => exact indexed_set h hl rfl
    obtain ⟨hi,he⟩ := ih hd (fun t ht => h0 t (List.mem_cons_of_mem s ht)) hstep.1
    refine ⟨hi,fun n => ?_⟩
    rw [he,hstep.2]
    by_cases hex : n ∈ exclude
    · simp [hex]
    · rw [if_neg hex,if_neg hex,List.find?_cons]
      by_cases hn : n=varName s
      · subst hn
        have hnone : vars.find? (fun t => varName t==varName s)=none := by
          rw [List.find?_eq_none]
          intro t ht heq
          exact hs (List.mem_map.mpr ⟨t,ht,eq_of_beq heq⟩)
        simp [hnone,hex]
      · have hb : (varName s==n)=false := beq_eq_false_iff_ne.mpr (Ne.symm hn)
        simp only [hn,hb,false_and,if_false]

end

end EnvMap

/-- A name of a variable -/
structure EnvName where
  bytes : List UInt8
  ne : bytes≠[]
  noEq : 61 ∉ bytes
  noNul : 0 ∉ bytes

/-- `NAME=VALUE` -/
def EnvName.setting (n : EnvName) (v : List UInt8) : List UInt8 := n.bytes++61::v

theorem EnvName.varName_setting (n : EnvName) (v : List UInt8) : varName (n.setting v)=n.bytes := by
  have h : ∀ x ∈ n.bytes,(x != 61)=true := fun x hx => bne_iff_ne.mpr fun he => n.noEq (he ▸ hx)
  rw [EnvName.setting,varName,List.takeWhile_append_of_pos h]
  simp

theorem EnvName.drop_setting (n : EnvName) (v : List UInt8) :
    (n.setting v).drop (n.bytes.length+1)=v := by
  rw [EnvName.setting,← List.drop_drop,List.drop_left]
  rfl

namespace Environment

/-- The settings of other names. -/
def without (setVars : List (List UInt8)) (name : List UInt8) : List (List UInt8) :=
  setVars.filter fun s => varName s != name

theorem nodup_without {setVars : List (List UInt8)} (h : (setVars.map varName).Nodup)
    (name : List UInt8) : ((without setVars name).map varName).Nodup :=
  h.sublist (List.filter_sublist.map varName)

/-- `import_parent_var` -/
def importParentVar (env : Environment) (name : List UInt8) : Environment where
  keepParentEnv := env.keepParentEnv
  undefine := env.undefine.erase name
  setVars := without env.setVars name
  importFromParent :=
    if env.keepParentEnv then env.importFromParent else env.importFromParent.insert name
  unique := nodup_without env.unique name

/-- `undefine_var`, without a notification -/
def undefineVar (env : Environment) (name : List UInt8) : Environment where
  keepParentEnv := env.keepParentEnv
  importFromParent := env.importFromParent.erase name
  setVars := without env.setVars name
  undefine := if env.keepParentEnv then env.undefine.insert name else env.undefine
  unique := nodup_without env.unique name

def clearNoInherit (_ : Environment) : Environment where
  keepParentEnv := false

/-- `build` over an environment that is over that of the process -/
def buildOver (environ : List (List UInt8)) (env parentEnv : Environment) : EnvMap :=
  let parent :=
    if env.keepParentEnv then parentEnv.buildWithout environ env.undefine
    else env.importFromParent.foldl
      (fun m name => (parentEnv.get environ name).elim m fun s => m.push name (cString s)) {}
  env.setVars.foldl (EnvMap.addSet []) parent

end Environment

/-- An operation on an environment -/
inductive EnvOp
  | setVar (n : EnvName) (v : List UInt8) (noNul : 0 ∉ v)
  | importParentVar (n : EnvName)
  | undefineVar (n : EnvName)
  | clearNoInherit

def EnvOp.apply (env : Environment) : EnvOp → Environment
  | .setVar n v _ => env.setVar (n.setting v)
  | .importParentVar n => env.importParentVar n.bytes
  | .undefineVar n => env.undefineVar n.bytes
  | .clearNoInherit => env.clearNoInherit

/-- The environment after some operations on a new one. -/
def Environment.after (ops : List EnvOp) : Environment := ops.foldl EnvOp.apply {}

end Dinit
