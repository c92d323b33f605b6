import Dinit.Control.EnvLayers

namespace Dinit

/-- The last operation on a name. -/
inductive LastOp
  | set (v : List UInt8)
  | undefined
  | imported

def EnvOp.last (n : List UInt8) (l : Option LastOp) : EnvOp → Option LastOp
  | .setVar m v _ => if m.bytes=n then some (.set v) else l
  | .importParentVar m => if m.bytes=n then some .imported else l
  | .undefineVar m => if m.bytes=n then some .undefined else l
  | .clearNoInherit => none

/-- The last operation on a name, since the environment was cleared. -/
def lastOp (ops : List EnvOp) (n : List UInt8) : Option LastOp := ops.foldl (EnvOp.last n) none

namespace Environment

/-- No name is in two of the sets. -/
structure Disjoint (env : Environment) : Prop where
  setUndefine : (env.setVars.map varName).Disjoint env.undefine
  setImport : (env.setVars.map varName).Disjoint env.importFromParent
  undefineImport : env.undefine.Disjoint env.importFromParent

structure Sound (env : Environment) : Prop where
  importNodup : env.importFromParent.Nodup
  undefineNodup : env.undefine.Nodup
  importKeep : env.keepParentEnv=true → env.importFromParent=[]
  undefineKeep : env.keepParentEnv=false → env.undefine=[]
  clean : ∀ s ∈ env.setVars,0 ∉ s

/-- What the sets have on a name, after the last operation on it. -/
def Tracks (env : Environment) (n : List UInt8) : Option LastOp → Prop
  | some (.set v) => env.getVar n=some (n++61::v) ∧ n ∉ env.undefine ∧ n ∉ env.importFromParent
  | some .undefined => env.getVar n=none ∧ n ∉ env.importFromParent ∧
      (env.keepParentEnv=true → n ∈ env.undefine)
  | some .imported => env.getVar n=none ∧ n ∉ env.undefine ∧
      (env.keepParentEnv=false → n ∈ env.importFromParent)
  | none => env.getVar n=none ∧ n ∉ env.undefine ∧ n ∉ env.importFromParent

variable {env : Environment}

theorem getVar_none {n : List UInt8} : env.getVar n=none ↔ n ∉ env.setVars.map varName := by
  rw [getVar,List.find?_eq_none,List.mem_map]
  constructor
  · rintro h ⟨s,hs,he⟩
    exact h s hs (beq_iff_eq.mpr he)
  · intro h s hs he
    exact h ⟨s,hs,beq_iff_eq.mp he⟩

theorem find_without (vars : List (List UInt8)) (name n : List UInt8) :
    (without vars name).find? (fun s => varName s==n)=
      if n=name then none else vars.find? fun s => varName s==n := by
  unfold without
  rw [List.find?_filter]
  split
  · next h =>
    subst h
    rw [List.find?_eq_none]
    simp
  · next h =>
    congr 1
    funext s
    by_cases hs : varName s=n
    · simp [hs,h]
    · simp [hs]

theorem setting_noNul (n : EnvName) {v : List UInt8} (hv : 0 ∉ v) : 0 ∉ n.setting v := by
  rw [EnvName.setting,List.mem_append,List.mem_cons]
  rintro (h | h | h)
  · exact n.noNul h
  · exact absurd h (by decide)
  · exact hv h

theorem varName_cString (n : EnvName) {v : List UInt8} (hv : 0 ∉ v) :
    varName (cString (n.setting v))=n.bytes := by
  rw [cString_eq (setting_noNul n hv),n.varName_setting]

theorem sound_apply (h : env.Sound) (op : EnvOp) : (op.apply env).Sound := by
  have hw : ∀ name,∀ s ∈ without env.setVars name,0 ∉ s := fun name s hs =>
    h.clean s (List.mem_filter.mp hs).1
  cases op with
  | setVar n v hv =>
    refine ⟨h.importNodup.erase _,h.undefineNodup.erase _,fun hk => ?_,fun hk => ?_,fun s hs => ?_⟩
    · show env.importFromParent.erase _=[]
      rw [h.importKeep hk]
      rfl
    · show env.undefine.erase _=[]
      rw [h.undefineKeep hk]
      rfl
    · replace hs : s ∈ insertVar env.setVars (n.setting v) := hs
      unfold insertVar at hs
      split at hs
      · obtain ⟨t,ht,rfl⟩ := List.mem_map.mp hs
        split
        · exact setting_noNul n hv
        · exact h.clean t ht
      · rcases List.mem_append.mp hs with hs | hs
        · exact h.clean s hs
        · rw [List.mem_singleton.mp hs]
          exact setting_noNul n hv
  | importParentVar n =>
    refine ⟨?_,h.undefineNodup.erase _,fun hk => ?_,fun hk => ?_,hw _⟩
    · show (if _ then _ else _ : List _).Nodup
      split
      · exact h.importNodup
      · exact h.importNodup.insert
    · exact (if_pos hk).trans (h.importKeep hk)
    · show env.undefine.erase _=[]
      rw [h.undefineKeep hk]
      rfl
  | undefineVar n =>
    refine ⟨h.importNodup.erase _,?_,fun hk => ?_,fun hk => ?_,hw _⟩
    · show (if _ then _ else _ : List _).Nodup
      split
      · exact h.undefineNodup.insert
      · exact h.undefineNodup
    · show env.importFromParent.erase _=[]
      rw [h.importKeep hk]
      rfl
    · have hk' : ¬env.keepParentEnv=true := fun ht => Bool.false_ne_true (hk.symm.trans ht)
      exact (if_neg hk').trans (h.undefineKeep hk)
  | clearNoInherit => exact ⟨.nil,.nil,fun _ => rfl,fun _ => rfl,fun s hs => nomatch hs⟩

theorem mem_insert_if {b : Bool} {l : List (List UInt8)} {name n : List UInt8} :
    n ∈ (if b then l.insert name else l) ↔ (b=true ∧ n=name) ∨ n ∈ l := by
  cases b with
  | false => simp
  | true => simp [List.mem_insert_iff]

theorem tracks_apply (h : env.Sound) {n : List UInt8} {l : Option LastOp} (ht : env.Tracks n l)
    (op : EnvOp) : (op.apply env).Tracks n (EnvOp.last n l op) := by
  cases op with
  | setVar m v hv =>
    have hvar : (env.setVar (m.setting v)).getVar n=
        if m.bytes=n then some (m.setting v) else env.getVar n := by
      rw [getVar_setVar,m.varName_setting]
    have hund : n ∈ (env.setVar (m.setting v)).undefine ↔ n≠m.bytes ∧ n ∈ env.undefine := by
      show n ∈ env.undefine.erase _ ↔ _
      rw [varName_cString m hv]
      exact h.undefineNodup.mem_erase_iff
    have himp : n ∈ (env.setVar (m.setting v)).importFromParent ↔
        n≠m.bytes ∧ n ∈ env.importFromParent := by
      show n ∈ env.importFromParent.erase _ ↔ _
      rw [varName_cString m hv]
      exact h.importNodup.mem_erase_iff
    show (env.setVar (m.setting v)).Tracks n (if m.bytes=n then some (.set v) else l)
    by_cases hn : m.bytes=n
    · subst hn
      simp only [Tracks,if_true,hvar,hund,himp,ne_eq,not_true_eq_false,false_and,not_false_eq_true,
        and_true]
      rfl
    · rw [if_neg hn]
      simp only [Tracks,hvar,hund,himp,if_neg hn,ne_eq,Ne.symm hn,not_false_eq_true,true_and]
      exact ht
  | importParentVar m =>
    have hvar : (env.importParentVar m.bytes).getVar n=
        if n=m.bytes then none else env.getVar n := find_without ..
    have hund : n ∈ (env.importParentVar m.bytes).undefine ↔ n≠m.bytes ∧ n ∈ env.undefine :=
      h.undefineNodup.mem_erase_iff
    have himp : n ∈ (env.importParentVar m.bytes).importFromParent ↔
        (env.keepParentEnv=false ∧ n=m.bytes) ∨ n ∈ env.importFromParent := by
      show n ∈ (if env.keepParentEnv=true then _ else _) ↔ _
      cases env.keepParentEnv with
      | false => simp [List.mem_insert_iff]
      | true => simp
    show (env.importParentVar m.bytes).Tracks n (if m.bytes=n then some .imported else l)
    by_cases hn : m.bytes=n
    · subst hn
      simp only [Tracks,if_true,hvar,hund,himp,ne_eq,not_true_eq_false,false_and,not_false_eq_true,
        and_true,true_and]
      exact fun hk => .inl hk
    · rw [if_neg hn]
      simp only [Tracks,hvar,hund,himp,ne_eq,Ne.symm hn,not_false_eq_true,true_and,and_false,
        false_or]
      exact ht
  | undefineVar m =>
    have hvar : (env.undefineVar m.bytes).getVar n=
        if n=m.bytes then none else env.getVar n := find_without ..
    have himp : n ∈ (env.undefineVar m.bytes).importFromParent ↔
        n≠m.bytes ∧ n ∈ env.importFromParent := h.importNodup.mem_erase_iff
    have hund : n ∈ (env.undefineVar m.bytes).undefine ↔
        (env.keepParentEnv=true ∧ n=m.bytes) ∨ n ∈ env.undefine := mem_insert_if
    show (env.undefineVar m.bytes).Tracks n (if m.bytes=n then some .undefined else l)
    by_cases hn : m.bytes=n
    · subst hn
      simp only [Tracks,if_true,hvar,hund,himp,ne_eq,not_true_eq_false,false_and,not_false_eq_true,
        and_true,true_and]
      exact fun hk => .inl hk
    · rw [if_neg hn]
      simp only [Tracks,hvar,hund,himp,ne_eq,Ne.symm hn,not_false_eq_true,true_and,and_false,
        false_or]
      exact ht
  | clearNoInherit => exact ⟨rfl,List.not_mem_nil,List.not_mem_nil⟩

/-- The sets follow the operations. -/
theorem tracks_after (ops : List EnvOp) (n : List UInt8) :
    (after ops).Sound ∧ (after ops).Tracks n (lastOp ops n) := by
  have hrun : ∀ {env : Environment} {l : Option LastOp},env.Sound → env.Tracks n l →
      (ops.foldl EnvOp.apply env).Sound ∧
        (ops.foldl EnvOp.apply env).Tracks n (ops.foldl (EnvOp.last n) l) := by
    induction ops with
    | nil => exact fun h ht => ⟨h,ht⟩
    | cons op ops ih => exact fun h ht => ih (sound_apply h op) (tracks_apply h ht op)
  refine hrun ⟨.nil,.nil,fun _ => rfl,fun _ => rfl,fun s hs => ?_⟩
    ⟨rfl,List.not_mem_nil,List.not_mem_nil⟩
  exact absurd hs List.not_mem_nil

theorem sound_after (ops : List EnvOp) : (after ops).Sound := (tracks_after ops []).1

theorem disjoint_after (ops : List EnvOp) : (after ops).Disjoint := by
  have hset : ∀ n,n ∈ (after ops).setVars.map varName →
      n ∉ (after ops).undefine ∧ n ∉ (after ops).importFromParent := by
    intro n hn
    have hsome : (after ops).getVar n≠none := fun h => getVar_none.mp h hn
    have ht := (tracks_after ops n).2
    cases hl : lastOp ops n with
    | none =>
      rw [hl] at ht
      exact absurd ht.1 hsome
    | some op =>
      rw [hl] at ht
      cases op with
      | set v => exact ht.2
      | undefined | imported => exact absurd ht.1 hsome
  have hs := sound_after ops
  refine ⟨fun n hn => (hset n hn).1,fun n hn => (hset n hn).2,fun n hu hi => ?_⟩
  cases hk : (after ops).keepParentEnv with
  | false => exact absurd (hs.undefineKeep hk ▸ hu) List.not_mem_nil
  | true => exact absurd (hs.importKeep hk ▸ hi) List.not_mem_nil

theorem entry_buildWithout (e : SystemEnv) (hs : env.Sound) (exclude : List (List UInt8)) :
    (env.buildWithout e.vars exclude).Indexed ∧
      ∀ n,(env.buildWithout e.vars exclude).entry n=
        if n ∈ exclude then env.inherited e.vars exclude n
        else (env.getVar n).or (env.inherited e.vars exclude n) := by
  have hnone : ∀ n,EnvMap.lookup {} n=none := fun _ => rfl
  have hbase : (if env.keepParentEnv then
        e.vars.foldl (EnvMap.addParent (env.undefine++exclude)) {}
      else env.importFromParent.foldl (EnvMap.addImport e.vars) {}).Indexed ∧
      ∀ n,(if env.keepParentEnv then e.vars.foldl (EnvMap.addParent (env.undefine++exclude)) {}
        else env.importFromParent.foldl (EnvMap.addImport e.vars) {}).entry n=
          env.inherited e.vars exclude n := by
    unfold inherited
    split
    · obtain ⟨hi,he⟩ := EnvMap.indexed_addParent (env.undefine++exclude) e.distinct
        EnvMap.indexed_empty fun n _ => hnone n
      refine ⟨hi,fun n => ?_⟩
      rw [he]
      by_cases hex : n ∈ env.undefine++exclude
      · rw [if_neg fun h => h.2 hex,if_pos hex]
        rfl
      · rw [if_neg hex]
        split
        · rfl
        · next hn =>
          cases hg : getenv e.vars n with
          | none => rfl
          | some s => exact absurd ⟨(getenv_name hg).2,hex⟩ hn
    · have himp : EnvMap.addImport e.vars=
          fun m n => (getenv e.vars n).elim m fun s => m.push n s := by
        funext m n
        exact EnvMap.addImport_eq e.vars m n
      rw [himp]
      exact EnvMap.indexed_imports (fun n s h => (getenv_name h).1) hs.importNodup
        EnvMap.indexed_empty fun n _ => hnone n
  obtain ⟨hi,he⟩ := EnvMap.indexed_sets exclude env.unique hs.clean hbase.1
  refine ⟨hi,fun n => ?_⟩
  rw [← hbase.2 n]
  exact he n

theorem entry_build (e : SystemEnv) (hs : env.Sound) :
    (env.build e.vars).Indexed ∧
      ∀ n,(env.build e.vars).entry n=(env.getVar n).or (env.inherited e.vars [] n) := by
  obtain ⟨hi,he⟩ := entry_buildWithout e hs []
  refine ⟨hi,fun n => ?_⟩
  rw [build,he,if_neg List.not_mem_nil]

theorem get_name {environ : List (List UInt8)} {n s : List UInt8} (hs : env.Sound)
    (h : env.get environ n=some s) : cString s=s ∧ varName s=n := by
  unfold get at h
  split at h
  · next t ht =>
    obtain rfl := Option.some.inj h
    exact ⟨cString_eq (hs.clean t (List.mem_of_find?_eq_some ht)),by simpa using List.find?_some ht⟩
  · split at h
    · cases h
    · refine ⟨?_,(getenv_name h).1⟩
      obtain ⟨t,-,rfl⟩ := Option.map_eq_some_iff.mp h
      exact cString_eq (EnvMap.not_mem_cString t)

theorem entry_buildOver (e : SystemEnv) {parent : Environment} (hp : parent.Sound) (hs : env.Sound) :
    (env.buildOver e.vars parent).Indexed ∧
      ∀ n,(env.buildOver e.vars parent).entry n=(env.getVar n).or
        (if env.keepParentEnv then (parent.buildWithout e.vars env.undefine).entry n
        else if n ∈ env.importFromParent then parent.get e.vars n else none) := by
  have hbase : (if env.keepParentEnv then parent.buildWithout e.vars env.undefine
      else env.importFromParent.foldl
        (fun m n => (parent.get e.vars n).elim m fun s => m.push n (cString s)) {}).Indexed ∧
      ∀ n,(if env.keepParentEnv then parent.buildWithout e.vars env.undefine
        else env.importFromParent.foldl
          (fun m n => (parent.get e.vars n).elim m fun s => m.push n (cString s)) {}).entry n=
        if env.keepParentEnv then (parent.buildWithout e.vars env.undefine).entry n
        else if n ∈ env.importFromParent then parent.get e.vars n else none := by
    split
    · exact ⟨(entry_buildWithout e hp env.undefine).1,fun _ => rfl⟩
    · have himp : (fun (m : EnvMap) n => (parent.get e.vars n).elim m fun s => m.push n (cString s))=
          fun m n => (parent.get e.vars n).elim m fun s => m.push n s := by
        funext m n
        cases hg : parent.get e.vars n with
        | none => rfl
        | some s => rw [Option.elim_some,(get_name hp hg).1]; rfl
      rw [himp]
      exact EnvMap.indexed_imports (fun n s h => (get_name hp h).2) hs.importNodup
        EnvMap.indexed_empty fun n _ => rfl
  obtain ⟨hi,he⟩ := EnvMap.indexed_sets [] env.unique hs.clean hbase.1
  refine ⟨hi,fun n => ?_⟩
  have h := he n
  rw [if_neg List.not_mem_nil,hbase.2 n] at h
  exact h

end Environment

/-- An environment over another: each name is there once, and has the value that the last operation
on it has given it, or none, or the one of the parent if that is kept. -/
structure Layered (environ : List (List UInt8)) (child parent : List EnvOp) : Prop where
  indexed : ((Environment.after child).buildOver environ (Environment.after parent)).Indexed
  set : ∀ n : EnvName,∀ v,lastOp child n.bytes=some (.set v) →
    ((Environment.after child).buildOver environ (Environment.after parent)).value n.bytes=some v
  undefined : ∀ n : EnvName,lastOp child n.bytes=some .undefined →
    ((Environment.after child).buildOver environ (Environment.after parent)).value n.bytes=none
  kept : (Environment.after child).keepParentEnv=true → ∀ n : EnvName,lastOp child n.bytes=none →
    ((Environment.after child).buildOver environ (Environment.after parent)).value n.bytes=
      ((Environment.after parent).build environ).value n.bytes
  cleared : (Environment.after child).keepParentEnv=false → ∀ n : EnvName,
    lastOp child n.bytes=none →
      ((Environment.after child).buildOver environ (Environment.after parent)).value n.bytes=none

/-- No name that the child undefines is one that the parent imports by itself and the process has. -/
def UndefinedSpared (environ : List (List UInt8)) (child parent : List EnvOp) : Prop :=
  ∀ n : EnvName,n.bytes ∈ (Environment.after child).undefine →
    n.bytes ∈ (Environment.after parent).importFromParent → getenv environ n.bytes=none

namespace Environment

/-- With nothing excluded but what the child undefines, the parent gives what it has. -/
theorem entry_spared (e : SystemEnv) {parent : Environment} (hp : parent.Sound)
    {exclude : List (List UInt8)} {n : List UInt8} (hn : n ∉ exclude) :
    (parent.buildWithout e.vars exclude).entry n=(parent.build e.vars).entry n := by
  rw [(entry_buildWithout e hp exclude).2,(entry_build e hp).2,if_neg hn]
  simp [inherited,hn]

theorem layered_of_spared (e : SystemEnv) {child parent : List EnvOp}
    (h : UndefinedSpared e.vars child parent) : Layered e.vars child parent := by
  have hp := sound_after parent
  have hc := sound_after child
  obtain ⟨hi,he⟩ := entry_buildOver e hp hc
  refine ⟨hi,fun n v hl => ?_,fun n hl => ?_,fun hk n hl => ?_,fun hk n hl => ?_⟩
  all_goals
    have ht := (tracks_after child n.bytes).2
    rw [hl] at ht
    unfold EnvMap.value
    rw [he]
  · rw [ht.1]
    exact congrArg some (n.drop_setting v)
  · obtain ⟨hg,hni,hu⟩ := ht
    rw [hg,Option.none_or]
    cases hk : (after child).keepParentEnv with
    | false => simp [hni]
    | true =>
      rw [if_pos rfl,(entry_buildWithout e hp _).2,if_pos (hu hk)]
      unfold inherited
      split
      · rw [if_pos (List.mem_append_right _ (hu hk))]
        rfl
      · split
        · next hm => rw [h n (hu hk) hm]; rfl
        · rfl
  · obtain ⟨hg,hnu,-⟩ := ht
    rw [hg,Option.none_or,if_pos hk,entry_spared e hp hnu]
  · obtain ⟨hg,-,hni⟩ := ht
    rw [hg,Option.none_or,if_neg (by simp [hk]),if_neg hni]
    rfl

theorem spared_of_layered (e : SystemEnv) {child parent : List EnvOp}
    (h : Layered e.vars child parent) : UndefinedSpared e.vars child parent := by
  intro n hu hi
  have hp := sound_after parent
  have hc := sound_after child
  have hkc : (after child).keepParentEnv=true := by
    cases hk : (after child).keepParentEnv with
    | true => rfl
    | false => exact absurd (hc.undefineKeep hk ▸ hu) List.not_mem_nil
  have hkp : ¬(after parent).keepParentEnv=true := fun hk =>
    absurd (hp.importKeep hk ▸ hi) List.not_mem_nil
  have hg : (after child).getVar n.bytes=none := getVar_none.mpr fun hm =>
    (disjoint_after child).setUndefine hm hu
  -- the last operation on it can only have been the one that undefines it
  have hl : lastOp child n.bytes=some .undefined := by
    have ht := (tracks_after child n.bytes).2
    cases hl : lastOp child n.bytes with
    | none => rw [hl] at ht; exact absurd hu ht.2.1
    | some op =>
      rw [hl] at ht
      cases op with
      | undefined => rfl
      | set v => exact absurd hu ht.2.1
      | imported => exact absurd hu ht.2.1
  have hnone := h.undefined n hl
  unfold EnvMap.value at hnone
  rw [(entry_buildOver e hp hc).2,hg,Option.none_or,if_pos hkc,(entry_buildWithout e hp _).2,
    if_pos hu,inherited,if_neg hkp,if_pos hi] at hnone
  exact Option.map_eq_none_iff.mp hnone

end Environment

/-- The sets of an environment stay disjoint, and what is built over another is layered as it should
be just if nothing is undefined that the parent imports by itself. -/
theorem layered_iff (e : SystemEnv) (child parent : List EnvOp) :
    ((∀ ops,(Environment.after ops).Disjoint) ∧ Layered e.vars child parent) ↔
      UndefinedSpared e.vars child parent := by
  constructor
  · rintro ⟨-,h⟩
    exact Environment.spared_of_layered e h
  · exact fun h => ⟨Environment.disjoint_after,Environment.layered_of_spared e h⟩

/-- The variable `A`. -/
def nameA : EnvName := ⟨[65],by decide,by decide,by decide⟩

/-- The parent imports `A` by itself and the child undefines it: it has it nevertheless. -/
theorem undefined_still_there : ∃ e : SystemEnv,¬((∀ ops,(Environment.after ops).Disjoint) ∧
    Layered e.vars [.undefineVar nameA] [.clearNoInherit,.importParentVar nameA]) := by
  refine ⟨⟨[[65,61,49]],by decide⟩,fun h => ?_⟩
  have hnone := h.2.undefined nameA rfl
  exact absurd hnone (by decide)

theorem getenv_setting {environ : List (List UInt8)} {n : EnvName} :
    ((getenv environ n.bytes).map (List.drop (n.bytes.length+1))).map n.setting=
      getenv environ n.bytes := by
  cases hg : getenv environ n.bytes with
  | none => rfl
  | some s =>
    obtain ⟨t,ht,rfl⟩ := Option.map_eq_some_iff.mp hg
    obtain ⟨h61,hname⟩ : 61 ∈ cString t ∧ varName (cString t)=n.bytes := by
      simpa using List.find?_some ht
    have hsplit := List.takeWhile_append_dropWhile (p := (· != 61)) (l := cString t)
    cases hd : (cString t).dropWhile (· != 61) with
    | nil =>
      have hall := List.dropWhile_eq_nil_iff.mp hd 61 h61
      exact absurd hall (by decide)
    | cons x rest =>
      have hx : x=61 := by
        have hne : (cString t).dropWhile (· != 61)≠[] := by simp [hd]
        have hnot := List.head_dropWhile_not (· != 61) hne
        simpa [hd] using hnot
      have heq : cString t=n.setting rest := by
        rw [← hsplit,hd,hx,EnvName.setting,← hname]
        rfl
      rw [heq,Option.map_some,Option.map_some,n.drop_setting]

/-- `get` finds what the environment that is built has of a name, unless the name is undefined and
the process has it. -/
theorem get_agrees_iff (e : SystemEnv) (ops : List EnvOp) (n : EnvName) :
    (Environment.after ops).get e.vars n.bytes=
        (((Environment.after ops).build e.vars).value n.bytes).map n.setting ↔
      (n.bytes ∈ (Environment.after ops).undefine → getenv e.vars n.bytes=none) := by
  have hs := Environment.sound_after ops
  have ht := (Environment.tracks_after ops n.bytes).2
  unfold EnvMap.value
  rw [(Environment.entry_build e hs).2,Environment.get]
  cases hg : (Environment.after ops).getVar n.bytes with
  | some s =>
    -- the last operation was the one that set it
    have hset : ∃ v,s=n.setting v ∧ n.bytes ∉ (Environment.after ops).undefine := by
      rw [Environment.Tracks.eq_def,hg] at ht
      split at ht
      · next v _ => exact ⟨v,Option.some.inj ht.1,ht.2.1⟩
      · cases ht.1
      · cases ht.1
      · cases ht.1
    obtain ⟨v,rfl,hu⟩ := hset
    refine iff_of_true ?_ fun h => absurd h hu
    rw [Option.some_or,Option.map_some,Option.map_some,n.drop_setting]
  | none =>
    rw [Option.none_or,Environment.inherited,List.append_nil]
    dsimp only
    cases hk : (Environment.after ops).keepParentEnv with
    | true =>
      rw [if_neg (by simp),if_pos rfl]
      by_cases hu : n.bytes ∈ (Environment.after ops).undefine
      · rw [if_pos hu]
        exact ⟨fun h _ => h,fun h => h hu⟩
      · rw [if_neg hu,getenv_setting]
        exact iff_of_true rfl fun h => absurd h hu
    | false =>
      rw [hs.undefineKeep hk]
      refine iff_of_true ?_ fun h => absurd h List.not_mem_nil
      by_cases hi : n.bytes ∈ (Environment.after ops).importFromParent
      · simp only [hi,not_true_eq_false,and_false,if_false,Bool.false_eq_true,if_true]
        exact getenv_setting.symm
      · simp [hi]

/-- `A` is undefined, and found by `get` nevertheless. -/
theorem undefined_found : ∃ e : SystemEnv,
    (Environment.after [.undefineVar nameA]).get e.vars nameA.bytes≠
      (((Environment.after [.undefineVar nameA]).build e.vars).value nameA.bytes).map
        nameA.setting := by
  refine ⟨⟨[[65,61,49]],by decide⟩,?_⟩
  decide

end Dinit
