import Dinit.Safety.SettingGroups

namespace Dinit

open Framework

variable {δ σ : Type}

theorem processServiceLines_known {c : LineContext δ σ} {ls : List SettingLine}
    {x y : LineState δ σ} (h : processServiceLines c ls x=.ok y) :
    ∀ l∈ls,(l.group c.build).isSome := by
  induction ls generalizing x with
  | nil => simp
  | cons l ls ih =>
    intro l' hl
    obtain ⟨z,hz,h⟩ := (settingFootprint c).run_cons_ok.mp h
    rcases List.mem_cons.mp hl with rfl | hl
    · obtain ⟨id,hid,-⟩ := processServiceLine_own c hz
      simp [hid]
    · exact ih h l' hl

/-- What a description comes to, a group of settings at a time: it is accepted if it has no line
but of known settings and, for every group, its lines would be accepted if there were no others;
and what is made of the group is what they would make of it. -/
theorem lines_by_group (c : LineContext δ σ) (ls : List SettingLine) (x y : LineState δ σ) :
    processServiceLines c ls x=.ok y ↔ (∀ l∈ls,(l.group c.build).isSome) ∧
      ∀ g : SettingId,∃ y',
        processServiceLines c (ls.filter fun l => l.group c.build=some g) x=.ok y' ∧
          g.view y=g.view y' := by
  constructor
  · intro h
    refine ⟨processServiceLines_known h,fun g => ?_⟩
    exact (settingFootprint c).run_iff.mp h (some g)
  · rintro ⟨hk,h⟩
    refine (settingFootprint c).run_iff.mpr fun g => ?_
    cases g with
    | some g => exact h g
    | none =>
      have hn : (settingFootprint c).only none ls=[] := by
        refine List.filter_eq_nil_iff.mpr fun l hl hg => ?_
        have hs := hk l hl
        rw [show l.group c.build=none from of_decide_eq_true hg] at hs
        exact Bool.false_ne_true hs
      rw [hn]
      exact ⟨x,rfl,rfl⟩

namespace SettingId

/-- Once a line of the setting with such an operator comes, an earlier one might as well not be there. -/
def Replaces (δ σ : Type) (op : SettingOp) (id : SettingId) : Prop :=
  ∀ (c : LineContext δ σ) (l l' : SettingLine) (x y z : LineState δ σ),l'.settingOp=op →
    id.process c l x=.ok y → id.process c l' y=.ok z → id.process c l' x=.ok z

/-- The settings of which something is kept of an earlier line -/
def keepsEarlier (op : SettingOp) : SettingId → Bool
  | .command | .stopCommand | .securebits => op=.plusAssign
  | .envFile | .socketUid | .dependsOn | .dependsMs | .waitsFor | .waitsForD | .dependsOnD
  | .dependsMsD | .after | .before | .logfile | .logfileUid | .options | .loadOptions | .runAs
  | .readyNotification | .rlimitNofile | .rlimitCore | .rlimitData | .rlimitAddrspace => true
  | _ => false

/-- A step that sets a value over the earlier one, whatever that was -/
theorem replaces_of_value {α : Type} (set : α → ServiceSettings δ → ServiceSettings δ)
    {f f' : LineState δ σ → Except LineFault (LineState δ σ)}
    (val : LineState δ σ → Except LineFault α) (val' : Except LineFault α)
    (hf : ∀ x,f x=(val x).map fun v => (set v x.1,x.2))
    (hf' : ∀ x,f' x=val'.map fun v => (set v x.1,x.2)) {x y z : LineState δ σ} (hy : f x=.ok y)
    (hz : f' y=.ok z) (h : ∀ v v' s,set v' (set v s)=set v' s) : f' x=.ok z := by
  rw [hf] at hy
  rw [hf'] at hz ⊢
  cases hv : val x with
  | error e => simp [hv,Except.map] at hy
  | ok v =>
    obtain rfl : (set v x.1,x.2)=y := by simpa [hv,Except.map] using hy
    cases hv' : val' with
    | error e => simp [hv',Except.map] at hz
    | ok v' =>
      obtain rfl : (set v' (set v x.1),x.2)=z := by simpa [hv',Except.map] using hz
      simp [h,Except.map]

theorem replaces_setParsed {α : Type} {set : α → ServiceSettings δ → ServiceSettings δ}
    {l l' : SettingLine} {parse parse' : List UInt8 → Except LineFault α} {x y z : LineState δ σ}
    (hy : setParsed l parse set x=.ok y) (hz : setParsed l' parse' set y=.ok z)
    (h : ∀ v v' s,set v' (set v s)=set v' s) : setParsed l' parse' set x=.ok z :=
  replaces_of_value set (fun _ => readValue l >>= parse) (readValue l' >>= parse')
    (fun _ => bind_map _ _ _) (fun _ => bind_map _ _ _) hy hz h

theorem replaces_setResolved {c : LineContext δ σ}
    {set : List UInt8 → ServiceSettings δ → ServiceSettings δ} {l l' : SettingLine}
    {settingName : String} {check check' : List UInt8 → Except LineFault (List UInt8)}
    {x y z : LineState δ σ} (hy : setResolved c l settingName check set x=.ok y)
    (hz : setResolved c l' settingName check' set y=.ok z)
    (h : ∀ v v' s,set v' (set v s)=set v' s) : setResolved c l' settingName check' set x=.ok z :=
  replaces_of_value set (fun _ => readValueResolved c l settingName >>= check)
    (readValueResolved c l' settingName >>= check') (fun _ => bind_map _ _ _)
    (fun _ => bind_map _ _ _) hy hz h

theorem replaces_setCommand {get : ServiceSettings δ → List UInt8 × List (UInt32 × UInt32)}
    {set : List UInt8 × List (UInt32 × UInt32) → ServiceSettings δ → ServiceSettings δ}
    {l l' : SettingLine} (hop : l'.settingOp≠.plusAssign) {x y z : LineState δ σ}
    (hy : setCommand l get set x=.ok y) (hz : setCommand l' get set y=.ok z)
    (h : ∀ v v' s,set v' (set v s)=set v' s) : setCommand l' get set x=.ok z := by
  have hr (v : List UInt8 × List (UInt32 × UInt32)) : readCommand l' v=readCommand l' ([],[]) := by
    simp [readCommand,readSettingValue,hop]
  exact replaces_of_value set (fun s => readCommand l (get s.1)) (readCommand l' ([],[]))
    (setCommand_map l) (fun s => hr (get s.1) ▸ setCommand_map l' s) hy hz h

theorem replaces_setInittab {c : LineContext δ σ}
    {set : List UInt8 → ServiceSettings δ → ServiceSettings δ}
    {l l' : SettingLine} {size : Nat} {excInfo : String} {x y z : LineState δ σ}
    (hy : setInittab c l size excInfo set x=.ok y) (hz : setInittab c l' size excInfo set y=.ok z)
    (h : ∀ v v' s,set v' (set v s)=set v' s) : setInittab c l' size excInfo set x=.ok z := by
  cases hu : c.build.useUtmpx with
  | true =>
    exact replaces_of_value set _ _ (setInittab_map c l hu _ _ _) (setInittab_map c l' hu _ _ _)
      hy hz h
  | false =>
    exact replaces_of_value (fun (_ : List UInt8) s => s) _ _ (setInittab_stub c l hu _ _ _)
      (setInittab_stub c l' hu _ _ _) hy hz fun _ _ _ => rfl

theorem replaces_setSecurebits {c : LineContext δ σ} {l l' : SettingLine}
    (hop : l'.settingOp≠.plusAssign) {x y z : LineState δ σ} (hy : setSecurebits c l x=.ok y)
    (hz : setSecurebits c l' y=.ok z) : setSecurebits c l' x=.ok z := by
  let words (l : SettingLine) (n : Nat) := readIndices l >>= fun ws => foldWords securebit
    (fun w => settingExc c.name l.inputPos (literal "unknown securebits flag: "++w) "securebits") n ws
  have hm (l : SettingLine) (s : LineState δ σ) : setSecurebits c l s=
      (words l (if l.settingOp≠.plusAssign then 0 else s.1.secbits)).map fun v =>
        ({s.1 with secbits := v},s.2) := bind_map _ _ _
  refine replaces_of_value (fun v s => {s with secbits := v}) _ (words l' 0) (hm l) (fun s => ?_)
    hy hz fun _ _ _ => rfl
  rw [hm,if_pos hop]

theorem replaces_of_not_keeps {op : SettingOp} {id : SettingId} (h : id.keepsEarlier op=false) :
    id.Replaces δ σ op := by
  intro c l l' x y z hop hy hz
  cases id <;> simp only [process] at hy hz ⊢
  case command | stopCommand =>
    have hp : l'.settingOp≠.plusAssign := by simpa [keepsEarlier,hop] using h
    exact replaces_setCommand hp hy hz fun _ _ _ => rfl
  case securebits =>
    have hp : l'.settingOp≠.plusAssign := by simpa [keepsEarlier,hop] using h
    exact replaces_setSecurebits hp hy hz
  case inittabId | inittabLine => exact replaces_setInittab hy hz fun _ _ _ => rfl
  case capabilities =>
    exact replaces_of_value (fun v s => {s with capabilities := some v}) _ _
      (setCapabilities_map c l) (setCapabilities_map c l') hy hz fun _ _ _ => rfl
  case consumerOf =>
    exact replaces_setResolved hy hz fun _ _ _ => rfl
  case envFile | socketUid | dependsOn | dependsMs | waitsFor | waitsForD | dependsOnD | dependsMsD
      | after | before | logfile | logfileUid | options | loadOptions | runAs | readyNotification
      | rlimitNofile | rlimitCore | rlimitData | rlimitAddrspace => simp [keepsEarlier] at h
  all_goals exact replaces_setParsed hy hz fun _ _ _ => rfl

end SettingId

/-- Nothing in it that has a special meaning in a value -/
def Plain (w : List UInt8) : Prop := ∀ c∈w,c≠34 ∧ c≠92 ∧ isSpace c=false ∧ c≠35

instance (w : List UInt8) : Decidable (Plain w) := List.decidableBAll _ w

theorem readParts_plainWord {s : SettingValue} (hs : s.newPart=false) {w : List UInt8} (hw : Plain w) :
    readParts s w=.ok {s with settingVal := s.settingVal++w}.endPart := by
  induction w generalizing s with
  | nil => simp
  | cons c w ih =>
    obtain ⟨hq,hb,hn,hh⟩ := hw c List.mem_cons_self
    have hp : s.beginPart=s := by simp [SettingValue.beginPart,hs]
    rw [readParts_plain s c w hq hb hn hh,hp,
      ih (s := s.append c) hs fun d hd => hw d (List.mem_cons_of_mem c hd)]
    simp [SettingValue.append]

theorem skipWsLn_word {w : List UInt8} (hw : Plain w) (count : UInt32) :
    skipWsLn count w=(count,w) := by
  cases w with
  | nil => rfl
  | cons c w =>
    obtain ⟨-,-,hn,-⟩ := hw c List.mem_cons_self
    have h10 : c≠10 := by rintro rfl; exact absurd hn (by decide)
    simp [skipWsLn,hn,h10]

theorem readSettingValue_word {w : List UInt8} (hw : Plain w) (hne : w≠[]) (v : List UInt8)
    (op : SettingOp) (lineNum : UInt32) (ps : Option (List (UInt32 × UInt32))) :
    let before := if op=.plusAssign ∧ v≠[] then v++[32] else []
    readSettingValue v op lineNum w ps=.ok (SettingValue.endPart ⟨before++w,
      if op=.plusAssign then ps else ps.map fun _ => [],false,.ofNat before.length,lineNum⟩) := by
  obtain ⟨c,w,rfl⟩ := List.exists_cons_of_ne_nil hne
  obtain ⟨hq,hb,hn,hh⟩ := hw c List.mem_cons_self
  have hw' : Plain w := fun d hd => hw d (List.mem_cons_of_mem c hd)
  have hr (a : List UInt8) (ps : Option (List (UInt32 × UInt32))) (n : UInt32) :
      readParts ⟨a,ps,true,n,lineNum⟩ (c::w)=
        .ok (SettingValue.endPart ⟨a++c::w,ps,false,.ofNat a.length,lineNum⟩) := by
    rw [readParts_plain _ c w hq hb hn hh,readParts_plainWord rfl hw']
    simp [SettingValue.append,SettingValue.beginPart]
  by_cases hop : op=.plusAssign
  · by_cases hv : v=[] <;> simp [readSettingValue,skipWsLn_word hw,hr,hop,hv]
  · simp [readSettingValue,skipWsLn_word hw,hr,hop]

theorem readValue_word {w : List UInt8} (hw : Plain w) (setting : List UInt8) (op : SettingOp)
    (n : UInt32) (fd : Int) : readValue ⟨setting,op,n,fd,w⟩=.ok w := by
  by_cases hne : w=[]
  · simp [readValue,readSettingValue,hne,skipWsLn,SettingValue.endPart]
  · simp [readValue,readSettingValue_word hw hne,SettingValue.endPart]

theorem readIndices_word {w : List UInt8} (hw : Plain w) (hne : w≠[]) (hl : w.length<2^32)
    (setting : List UInt8) (op : SettingOp) (n : UInt32) (fd : Int) :
    readIndices ⟨setting,op,n,fd,w⟩=.ok [w] := by
  have hm : w.length%4294967296=w.length := Nat.mod_eq_of_lt hl
  simp [readIndices,readSettingValue_word hw hne,SettingValue.endPart,hm]

theorem readValueResolved_word {w : List UInt8} (hw : Plain w) (hd : findDollar w 0=none)
    (c : LineContext δ σ) (setting : List UInt8) (op : SettingOp) (n : UInt32) (fd : Int)
    (settingName : String) :
    readValueResolved c ⟨setting,op,n,fd,w⟩ settingName=.ok w := by
  simp [readValueResolved,readValue_word hw,valueVarSubst,hd,bind,Except.bind]

namespace SettingId

section
variable {w : List UInt8} (hw : Plain w) {setting : List UInt8} {op : SettingOp} {n : UInt32}
  {fd : Int} (s : LineState δ σ)
include hw

theorem setParsed_word {α : Type} (parse : List UInt8 → Except LineFault α)
    (set : α → ServiceSettings δ → ServiceSettings δ) :
    setParsed ⟨setting,op,n,fd,w⟩ parse set s=(parse w).map fun v => (set v s.1,s.2) := by
  cases h : parse w <;> simp [setParsed,readValue_word hw,h,Except.map,bind,Except.bind]

theorem setWords_word {α : Type} (hne : w≠[]) (hl : w.length<2^32) (c : LineContext δ σ)
    (get : ServiceSettings δ → α) (word : α → List UInt8 → Option α) (excInfo settingName : String)
    (set : α → ServiceSettings δ → ServiceSettings δ) {v : α} (hv : word (get s.1) w=some v) :
    setWords c ⟨setting,op,n,fd,w⟩ get word excInfo settingName set s=.ok (set v s.1,s.2) := by
  simp [setWords,readIndices_word hw hne hl,foldWords,hv,bind,Except.bind]

theorem setResolved_word (hd : findDollar w 0=none) (c : LineContext δ σ) (settingName : String)
    (set : List UInt8 → ServiceSettings δ → ServiceSettings δ) :
    setResolved c ⟨setting,op,n,fd,w⟩ settingName .ok set s=.ok (set w s.1,s.2) := by
  simp [setResolved,readValueResolved_word hw hd,bind,Except.bind]

theorem addDependency_word (hd : findDollar w 0=none) (c : LineContext δ σ) (settingName : String)
    (depType : DependencyType) {d : δ} {t : σ} (hl : c.loadService (cString w) s.2=.ok (d,t)) :
    addDependency c ⟨setting,op,n,fd,w⟩ settingName depType s=
      .ok ({s.1 with depends := s.1.depends++[(d,depType)]},t) := by
  simp [addDependency,readValueResolved_word hw hd,hl,bind,Except.bind]

theorem addDepDir_word (hd : findDollar w 0=none) (c : LineContext δ σ) (settingName : String)
    (depType : DependencyType) {ds : List (δ × DependencyType)} {t : σ}
    (hl : c.processDepDir s.1.depends w depType s.2=.ok (ds,t)) :
    addDepDir c ⟨setting,op,n,fd,w⟩ settingName depType s=.ok ({s.1 with depends := ds},t) := by
  simp [addDepDir,readValueResolved_word hw hd,hl,bind,Except.bind]

theorem setCommand_word (hne : w≠[]) (get : ServiceSettings δ → List UInt8 × List (UInt32 × UInt32))
    (set : List UInt8 × List (UInt32 × UInt32) → ServiceSettings δ → ServiceSettings δ) :
    let before := if op=.plusAssign ∧ (get s.1).1≠[] then (get s.1).1++[32] else []
    setCommand ⟨setting,op,n,fd,w⟩ get set s=.ok (set (before++w,
      (if op=.plusAssign then (get s.1).2 else [])++
        [(.ofNat before.length,.ofNat (before++w).length)]) s.1,s.2) := by
  by_cases hop : op=.plusAssign <;>
    simp [setCommand,readSettingValue_word hw hne,SettingValue.endPart,hop]

theorem setEnvFile_word (hd : findDollar w 0=none) (c : LineContext δ σ) {rfd : Int}
    (hr : c.dup fd=some rfd) : setEnvFile c ⟨setting,op,n,fd,w⟩ s=
      .ok (if w.head?=some 47 then ({s.1 with envFile := w},s.2)
        else ({s.1 with envFile := w,envFileDirFd := rfd},s.2)) := by
  by_cases h : w.head?=some 47 <;>
    simp [setEnvFile,readValueResolved_word hw hd,h,hr,bind,Except.bind]

theorem setRlimit_word (c : LineContext δ σ) (resourceId : Int) (paramName : String)
    {limits limits' : ServiceRlimits} (hs : s.1.rlimits=[] ∧ limits={resourceId} ∨
      s.1.rlimits=[limits] ∧ limits.resourceId=resourceId)
    (hp : parseRlimit w paramName limits=.ok limits') :
    setRlimit c ⟨setting,op,n,fd,w⟩ resourceId paramName s=.ok ({s.1 with rlimits := [limits']},s.2) := by
  obtain ⟨hs,rfl⟩ | ⟨hs,hr⟩ := hs
  · simp [setRlimit,readValue_word hw,hs,updateRlimits,hp,bind,Except.bind]
  · simp [setRlimit,readValue_word hw,hs,updateRlimits,hr,hp,bind,Except.bind]

end

/-- A context in which all goes well -/
def easyContext [Inhabited δ] : LineContext δ σ where
  build := ⟨true,true,true,true,true,true⟩
  name := literal "boot"
  serviceArg := none
  lookupVar _ := none
  loadService _ w := .ok (default,w)
  processDepDir ds _ depType w := .ok (ds++[(default,depType)],w)
  users := ⟨fun _ => .ok (some (1,7)),fun _ => .ok none⟩
  capIabFromText _ := .ok true
  dup := some

def easyStart [Inhabited σ] : LineState δ σ := ({autoRestart := .never},default)

def easyLine (op : SettingOp) (s : String) : SettingLine := ⟨[],op,1,3,literal s⟩

variable [Inhabited δ] [Inhabited σ] {op : SettingOp} {id : SettingId}

/-- Two lines whose first one leaves a trace -/
theorem not_replaces_of {β : Type} (a b : String) (F G : LineState δ σ → LineState δ σ)
    (hF : ∀ s,id.process easyContext (easyLine op a) s=.ok (F s))
    (hG : ∀ s,id.process easyContext (easyLine op b) s=.ok (G s))
    (f : ServiceSettings δ → β) (v v' : β) (hv : f (G (F easyStart)).1=v)
    (hv' : f (G easyStart).1=v') (hne : v≠v') : ¬id.Replaces δ σ op := by
  intro h
  have he := (h _ _ _ _ _ _ rfl (hF easyStart) (hG _)).symm.trans (hG easyStart)
  rw [← hv,← hv',Except.ok.inj he] at hne
  exact hne rfl

/-- The hard limit of the first line stays behind, though it is not in force any more. -/
theorem not_replaces_setRlimit (resourceId : Int) (paramName : String)
    (hp : ∀ l (s : LineState δ σ),
      id.process easyContext l s=setRlimit easyContext l resourceId paramName s) :
    ¬id.Replaces δ σ op := by
  let first : ServiceRlimits :=
    {resourceId,softSet := true,hardSet := true,rlimCur := 1,rlimMax := 2}
  let second (hard : Nat) : ServiceRlimits :=
    {resourceId,softSet := true,hardSet := false,rlimCur := 3,rlimMax := hard}
  have h1 : parseRlimit (literal "1:2") paramName {resourceId}=.ok first := rfl
  have h2 : parseRlimit (literal "3:") paramName first=.ok (second 2) := rfl
  have h3 : parseRlimit (literal "3:") paramName {resourceId}=.ok (second 0) := rfl
  have word {s : LineState δ σ} {w : String} {limits limits' : ServiceRlimits}
      (hw : Plain (literal w)) (h : parseRlimit (literal w) paramName limits=.ok limits')
      (hs : s.1.rlimits=[] ∧ limits={resourceId} ∨
        s.1.rlimits=[limits] ∧ limits.resourceId=resourceId) :
      id.process easyContext (easyLine op w) s=.ok ({s.1 with rlimits := [limits']},s.2) :=
    (hp ..).trans (setRlimit_word hw s easyContext resourceId paramName hs h)
  let s : LineState δ σ := ({(easyStart : LineState δ σ).1 with rlimits := [first]},default)
  have hy := word (s := easyStart) (by decide) h1 (.inl ⟨rfl,rfl⟩)
  have hz := word (s := s) (by decide) h2 (.inr ⟨rfl,rfl⟩)
  have ht := word (s := easyStart) (by decide) h3 (.inl ⟨rfl,rfl⟩)
  intro h
  have he := (h _ _ _ _ _ _ rfl hy hz).symm.trans ht
  have hr := congrArg (fun s : LineState δ σ => s.1.rlimits.map (·.rlimMax)) (Except.ok.inj he)
  simp [second] at hr

/-- The group that a user's name has set stays behind a number, which names none. -/
theorem not_replaces_setUid (settingName : String)
    (set : UInt32 × Option UInt32 → ServiceSettings δ → ServiceSettings δ)
    (hp : ∀ l (s : LineState δ σ),
      id.process easyContext l s=setUid easyContext l settingName set s)
    (gid : ServiceSettings δ → UInt32) (hset : ∀ v s,gid (set v s)=v.2.getD (gid s))
    (hstart : gid (easyStart : LineState δ σ).1=.ofNat unsignedMax) : ¬id.Replaces δ σ op := by
  refine not_replaces_of "u" "5" (fun s => (set (1,some 7) s.1,s.2))
    (fun s => (set (5,none) s.1,s.2)) ?_ ?_ gid 7 (.ofNat unsignedMax) ?_ ?_ (by decide)
  · intro s
    rw [hp]
    exact (setParsed_word (by decide) _ _ _).trans rfl
  · intro s
    rw [hp]
    exact (setParsed_word (by decide) _ _ _).trans rfl
  · simp [hset]
  · simp [hset,hstart]

/-- A dependency that comes twice is there twice. -/
theorem not_replaces_depends (depType : DependencyType)
    (hp : ∀ s : LineState δ σ,id.process easyContext (easyLine op "a") s=
      .ok ({s.1 with depends := s.1.depends++[(default,depType)]},s.2)) : ¬id.Replaces δ σ op :=
  not_replaces_of "a" "a" _ _ hp hp (·.depends.length) 2 1 rfl rfl (by decide)

theorem not_replaces_addDependency (settingName : String) (depType : DependencyType)
    (hp : ∀ l (s : LineState δ σ),
      id.process easyContext l s=addDependency easyContext l settingName depType s) :
    ¬id.Replaces δ σ op :=
  not_replaces_depends depType fun s =>
    (hp _ s).trans (addDependency_word (by decide) s rfl _ _ _ rfl)

theorem not_replaces_addDepDir (settingName : String) (depType : DependencyType)
    (hp : ∀ l (s : LineState δ σ),
      id.process easyContext l s=addDepDir easyContext l settingName depType s) :
    ¬id.Replaces δ σ op :=
  not_replaces_depends depType fun s =>
    (hp _ s).trans (addDepDir_word (by decide) s rfl _ _ _ rfl)

/-- So is a name in a list. -/
theorem not_replaces_setResolved (settingName : String)
    (set : List UInt8 → ServiceSettings δ → ServiceSettings δ)
    (hp : ∀ l (s : LineState δ σ),
      id.process easyContext l s=setResolved easyContext l settingName .ok set s)
    (names : ServiceSettings δ → List (List UInt8)) (hset : ∀ v s,names (set v s)=names s++[v])
    (hstart : names (easyStart : LineState δ σ).1=[]) : ¬id.Replaces δ σ op := by
  have hword (s : LineState δ σ) := (hp (easyLine op "a") s).trans
    (setResolved_word (by decide) s rfl easyContext settingName set)
  refine not_replaces_of "a" "a" _ _ hword hword (fun t => (names t).length) 2 1 ?_ ?_ (by decide) <;>
    simp [hset,hstart]

/-- A command that is added to keeps its first part. -/
theorem not_replaces_setCommand (get : ServiceSettings δ → List UInt8 × List (UInt32 × UInt32))
    (set : List UInt8 × List (UInt32 × UInt32) → ServiceSettings δ → ServiceSettings δ)
    (hp : ∀ l (s : LineState δ σ),id.process easyContext l s=setCommand l get set s)
    (hset : ∀ v s,get (set v s)=v) (hstart : get (easyStart : LineState δ σ).1=([],[])) :
    ¬id.Replaces δ σ .plusAssign := by
  have hword {w : String} (hw : Plain (literal w)) (hne : literal w≠[]) (s : LineState δ σ) :=
    (hp (easyLine .plusAssign w) s).trans (setCommand_word hw s hne get set)
  refine not_replaces_of "a" "b" _ _ (hword (by decide) (by decide)) (hword (by decide) (by decide))
    (fun t => (get t).1) [97,32,98] [98] ?_ ?_ (by decide)
  · simp only [hset,hstart]
    rfl
  · simp only [hset,hstart]
    rfl

theorem not_replaces_of_keeps (h : id.keepsEarlier op=true) : ¬id.Replaces δ σ op := by
  cases id <;> simp only [keepsEarlier,decide_eq_true_eq,Bool.false_eq_true] at h
  case socketUid =>
    exact not_replaces_setUid "socket-uid" _ (fun _ _ => rfl) (·.socketUidGid) (fun _ _ => rfl) rfl
  case logfileUid =>
    exact not_replaces_setUid "logfile-uid" _ (fun _ _ => rfl) (·.logfileUidGid) (fun _ _ => rfl) rfl
  case runAs =>
    exact not_replaces_setUid "run-as" _ (fun _ _ => rfl) (·.runAsUidGid) (fun _ _ => rfl) rfl
  case dependsOn => exact not_replaces_addDependency "depends-on" .regular fun _ _ => rfl
  case dependsMs => exact not_replaces_addDependency "depends-ms" .milestone fun _ _ => rfl
  case waitsFor => exact not_replaces_addDependency "waits-for" .waitsFor fun _ _ => rfl
  case waitsForD => exact not_replaces_addDepDir "waits-for.d" .waitsFor fun _ _ => rfl
  case dependsOnD => exact not_replaces_addDepDir "depends-on.d" .regular fun _ _ => rfl
  case dependsMsD => exact not_replaces_addDepDir "depends-ms.d" .milestone fun _ _ => rfl
  case after =>
    exact not_replaces_setResolved "after" (fun v s => {s with afterSvcs := s.afterSvcs++[v]})
      (fun _ _ => rfl) (·.afterSvcs) (fun _ _ => rfl) rfl
  case before =>
    exact not_replaces_setResolved "before" (fun v s => {s with beforeSvcs := s.beforeSvcs++[v]})
      (fun _ _ => rfl) (·.beforeSvcs) (fun _ _ => rfl) rfl
  case logfile =>
    refine not_replaces_of "f" "" (fun s => ({s.1 with
        logfile := [102]
        logType := if s.1.logType=.none then .logfile else s.1.logType},s.2))
      (fun s => ({s.1 with logfile := []},s.2)) (fun s => ?_) (fun s => ?_) (·.logType) .logfile
      .none rfl rfl (by decide) <;> simp only [process,setValue]
    · refine (setParsed_word (by decide) _ _ _).trans ?_
      simp [Except.map,literal]
    · exact (setParsed_word (by decide) _ _ _).trans rfl
  case readyNotification =>
    refine not_replaces_of "pipefd:3" "pipevar:X" (fun s => ({s.1 with readinessFd := 3},s.2))
      (fun s => ({s.1 with readinessVar := [88]},s.2)) ?_ ?_ (·.readinessFd) 3 (-1) rfl rfl
      (by decide) <;> intro s <;> simp only [process] <;>
      exact (setParsed_word (by decide) _ _ _).trans rfl
  case options =>
    refine not_replaces_of "skippable" "starts-log"
      (fun s => ({s.1 with onstartFlags := {s.1.onstartFlags with skippable := true}},s.2))
      (fun s => ({s.1 with onstartFlags := {s.1.onstartFlags with logReady := true}},s.2))
      ?_ ?_ (·.onstartFlags.skippable) true false rfl rfl (by decide) <;> intro s <;>
      simp only [process] <;>
      exact setWords_word (by decide) _ (by decide) (by decide) _ _ _ _ _ _ rfl
  case loadOptions =>
    refine not_replaces_of "export-passwd-vars" "export-service-name"
      (fun s => ({s.1 with exportPasswdVars := true},s.2))
      (fun s => ({s.1 with exportServiceName := true},s.2)) (fun s => ?_) (fun s => ?_)
      (·.exportPasswdVars) true false rfl rfl (by decide) <;> simp only [process]
    · exact setWords_word (v := (true,s.1.exportServiceName)) (by decide) _ (by decide)
        (by decide) _ _ _ _ _ _ rfl
    · exact setWords_word (v := (s.1.exportPasswdVars,true)) (by decide) _ (by decide)
        (by decide) _ _ _ _ _ _ rfl
  case securebits =>
    subst h
    refine not_replaces_of "noroot" "keep-caps" (fun s => ({s.1 with secbits := s.1.secbits|||1},s.2))
      (fun s => ({s.1 with secbits := s.1.secbits|||16},s.2)) ?_ ?_ (·.secbits) 17 16
      (by simp [easyStart]) (by simp [easyStart]) (by decide) <;> intro s <;>
      simp only [process,setSecurebits] <;>
      exact setWords_word (by decide) _ (by decide) (by decide) _ _ _ _ _ _ rfl
  case envFile =>
    refine not_replaces_of "e" "/e" (fun s => ({s.1 with envFile := [101],envFileDirFd := 3},s.2))
      (fun s => ({s.1 with envFile := [47,101]},s.2)) ?_ ?_ (·.envFileDirFd) 3 (-1) rfl rfl
      (by decide) <;> intro s <;> simp only [process] <;>
      exact (setEnvFile_word (by decide) _ rfl _ rfl).trans rfl
  case command =>
    subst h
    exact not_replaces_setCommand (fun s => (s.command,s.commandOffsets))
      (fun v s => {s with command := v.1,commandOffsets := v.2}) (fun _ _ => rfl) (fun _ _ => rfl) rfl
  case stopCommand =>
    subst h
    exact not_replaces_setCommand (fun s => (s.stopCommand,s.stopCommandOffsets))
      (fun v s => {s with stopCommand := v.1,stopCommandOffsets := v.2}) (fun _ _ => rfl)
      (fun _ _ => rfl) rfl
  case rlimitNofile => exact not_replaces_setRlimit rlimitNofileId "rlimit-nofile" fun _ _ => rfl
  case rlimitCore => exact not_replaces_setRlimit rlimitCoreId "rlimit-core" fun _ _ => rfl
  case rlimitData => exact not_replaces_setRlimit rlimitDataId "rlimit-data" fun _ _ => rfl
  case rlimitAddrspace => exact not_replaces_setRlimit rlimitAsId "rlimit-addrspace" fun _ _ => rfl

end SettingId

/-- For which settings a line makes an earlier one as if it had not been. For a setting that is
added to with `+=`, it does not; but it does for the capabilities. -/
theorem setting_replaces_iff (δ σ : Type) [Inhabited δ] [Inhabited σ] (op : SettingOp)
    (id : SettingId) : id.Replaces δ σ op ↔ id.keepsEarlier op=false := by
  constructor
  · intro h
    by_contra hk
    exact SettingId.not_replaces_of_keeps (Bool.not_eq_false _ ▸ hk) h
  · exact SettingId.replaces_of_not_keeps

end Dinit
