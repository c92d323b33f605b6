import Dinit.Framework.Footprint
import Dinit.Settings.Line

namespace Dinit

open Framework

variable {δ σ : Type}

namespace SettingId

/-- The settings that share something are known by one of them. -/
def group : SettingId → SettingId
  | .dependsMs | .waitsFor | .waitsForD | .dependsOnD | .dependsMsD => .dependsOn
  | .logType => .logfile
  | .termsignal => .termSignal
  | .rlimitCore | .rlimitData | .rlimitAddrspace => .rlimitNofile
  | id => id

def View (δ σ : Type) : SettingId → Type
  | .type => ServiceType
  | .command | .stopCommand => List UInt8 × List (UInt32 × UInt32)
  | .workingDir | .socketListen | .pidFile | .chainTo | .consumerOf | .runInCgroup | .inittabId
  | .inittabLine => List UInt8
  | .envFile => List UInt8 × Int
  | .socketPermissions | .logfilePermissions | .ioprio => Int
  | .socketUid | .logfileUid => UInt32 × UInt32
  | .runAs => UInt32 × UInt32 × UInt32
  | .socketGid | .logfileGid => UInt32
  | .dependsOn => List (δ × DependencyType) × σ
  | .after | .before => List (List UInt8)
  | .logfile => List UInt8 × LogType
  | .logBufferSize | .restartLimitCount | .termSignal | .securebits => Nat
  | .restart => AutoRestartMode
  | .smoothRecovery => Bool
  | .options => ServiceFlags
  | .loadOptions => Bool × Bool
  | .restartLimitInterval | .restartDelay | .stopTimeout | .startTimeout => Nat × Nat
  | .readyNotification => Int × List UInt8
  | .nice | .oomScoreAdj => Option Int
  | .rlimitNofile => List ServiceRlimits
  | .capabilities => Option (List UInt8)
  | .dependsMs | .waitsFor | .waitsForD | .dependsOnD | .dependsMsD | .logType | .termsignal
  | .rlimitCore | .rlimitData | .rlimitAddrspace => Unit

/-- What the settings of a group are kept in -/
def view : (g : SettingId) → LineState δ σ → g.View δ σ
  | .type,s => s.1.serviceType
  | .command,s => (s.1.command,s.1.commandOffsets)
  | .workingDir,s => s.1.workingDir
  | .envFile,s => (s.1.envFile,s.1.envFileDirFd)
  | .socketListen,s => s.1.socketPath
  | .socketPermissions,s => s.1.socketPerms
  | .socketUid,s => (s.1.socketUid,s.1.socketUidGid)
  | .socketGid,s => s.1.socketGid
  | .stopCommand,s => (s.1.stopCommand,s.1.stopCommandOffsets)
  | .pidFile,s => s.1.pidFile
  | .dependsOn,s => (s.1.depends,s.2)
  | .after,s => s.1.afterSvcs
  | .before,s => s.1.beforeSvcs
  | .logfile,s => (s.1.logfile,s.1.logType)
  | .logfilePermissions,s => s.1.logfilePerms
  | .logfileUid,s => (s.1.logfileUid,s.1.logfileUidGid)
  | .logfileGid,s => s.1.logfileGid
  | .logBufferSize,s => s.1.maxLogBufferSz
  | .consumerOf,s => s.1.consumerOfName
  | .restart,s => s.1.autoRestart
  | .smoothRecovery,s => s.1.smoothRecovery
  | .options,s => s.1.onstartFlags
  | .loadOptions,s => (s.1.exportPasswdVars,s.1.exportServiceName)
  | .termSignal,s => s.1.termSignal
  | .restartLimitInterval,s => s.1.restartInterval
  | .restartDelay,s => s.1.restartDelay
  | .restartLimitCount,s => s.1.maxRestarts
  | .stopTimeout,s => s.1.stopTimeout
  | .startTimeout,s => s.1.startTimeout
  | .runAs,s => (s.1.runAsUid,s.1.runAsUidGid,s.1.runAsGid)
  | .chainTo,s => s.1.chainToName
  | .readyNotification,s => (s.1.readinessFd,s.1.readinessVar)
  | .inittabId,s => s.1.inittabId
  | .inittabLine,s => s.1.inittabLine
  | .nice,s => s.1.nice
  | .rlimitNofile,s => s.1.rlimits
  | .runInCgroup,s => s.1.runInCgroup
  | .capabilities,s => s.1.capabilities
  | .securebits,s => s.1.secbits
  | .ioprio,s => s.1.ioprio
  | .oomScoreAdj,s => s.1.oomAdj
  | .dependsMs,_ | .waitsFor,_ | .waitsForD,_ | .dependsOnD,_ | .dependsMsD,_ | .logType,_
  | .termsignal,_ | .rlimitCore,_ | .rlimitData,_ | .rlimitAddrspace,_ => ()

/-- The settings from the parts of all groups -/
def ofViews (v : ∀ g : SettingId,g.View δ σ) : LineState δ σ :=
  ({command := (v .command).1,commandOffsets := (v .command).2
    stopCommand := (v .stopCommand).1,stopCommandOffsets := (v .stopCommand).2
    workingDir := v .workingDir,pidFile := v .pidFile
    envFile := (v .envFile).1,envFileDirFd := (v .envFile).2
    exportPasswdVars := (v .loadOptions).1,exportServiceName := (v .loadOptions).2
    serviceType := v .type,depends := (v .dependsOn).1
    beforeSvcs := v .before,afterSvcs := v .after
    logType := (v .logfile).2,logfile := (v .logfile).1,logfilePerms := v .logfilePermissions
    logfileUid := (v .logfileUid).1,logfileUidGid := (v .logfileUid).2
    logfileGid := v .logfileGid,maxLogBufferSz := v .logBufferSize
    onstartFlags := v .options,termSignal := v .termSignal
    autoRestart := v .restart,smoothRecovery := v .smoothRecovery
    socketPath := v .socketListen,socketPerms := v .socketPermissions
    socketUid := (v .socketUid).1,socketUidGid := (v .socketUid).2,socketGid := v .socketGid
    restartInterval := v .restartLimitInterval,maxRestarts := v .restartLimitCount
    restartDelay := v .restartDelay,stopTimeout := v .stopTimeout
    startTimeout := v .startTimeout,rlimits := v .rlimitNofile
    readinessFd := (v .readyNotification).1,readinessVar := (v .readyNotification).2
    runAsUid := (v .runAs).1,runAsUidGid := (v .runAs).2.1,runAsGid := (v .runAs).2.2
    nice := v .nice,chainToName := v .chainTo,consumerOfName := v .consumerOf
    runInCgroup := v .runInCgroup,capabilities := v .capabilities,secbits := v .securebits
    ioprio := v .ioprio,oomAdj := v .oomScoreAdj
    inittabId := v .inittabId,inittabLine := v .inittabLine},(v .dependsOn).2)

theorem ofViews_view (s : LineState δ σ) : ofViews (fun g => g.view s)=s := rfl

theorem view_ext {s t : LineState δ σ} (h : ∀ g : SettingId,g.view s=g.view t) : s=t := by
  have hv : (fun g : SettingId => g.view s)=fun g => g.view t := funext h
  rw [← ofViews_view s,hv,ofViews_view t]

/-- A function that sets the part of a group, from what that part is -/
structure SetOwn {δ : Type} {α : Type} (g : SettingId)
    (set : α → ServiceSettings δ → ServiceSettings δ) : Prop where
  frame : ∀ (σ : Type) (v : α) (s : LineState δ σ) (h : SettingId),h≠g →
    h.view s=h.view (set v s.1,s.2) := by
      intro σ v s h hh
      cases h <;> first | rfl | exact absurd rfl hh
  own : ∀ (σ : Type) (v : α) (s t : LineState δ σ),g.view s=g.view t →
    g.view (set v s.1,s.2)=g.view (set v t.1,t.2) := by
      intro σ v s t h
      first | rfl | exact h

/-- A step that works on the part of a group -/
structure StepOwn (g : SettingId) (f : LineState δ σ → Except LineFault (LineState δ σ)) : Prop where
  frame : ∀ {x y : LineState δ σ} {h : SettingId},f x=.ok y → h≠g → h.view x=h.view y
  own : ∀ {x x' y : LineState δ σ},g.view x=g.view x' → f x=.ok y →
    ∃ y',f x'=.ok y' ∧ g.view y=g.view y'

/-- A value that depends on the part of the group at most is set. -/
theorem StepOwn.of_value {α : Type} {g : SettingId} {f : LineState δ σ → Except LineFault (LineState δ σ)}
    {set : α → ServiceSettings δ → ServiceSettings δ} (hs : SetOwn g set)
    (val : LineState δ σ → Except LineFault α)
    (hf : ∀ x,f x=(val x).map fun v => (set v x.1,x.2))
    (hv : ∀ x x',g.view x=g.view x' → val x=val x') : StepOwn g f where
  frame := by
    intro x y h hy hh
    rw [hf] at hy
    cases he : val x with
    | error e => simp [he,Except.map] at hy
    | ok v =>
      obtain rfl : (set v x.1,x.2)=y := by simpa [he,Except.map] using hy
      exact hs.frame σ v x h hh
  own := by
    intro x x' y hx hy
    rw [hf] at hy
    cases he : val x with
    | error e => simp [he,Except.map] at hy
    | ok v =>
      obtain rfl : (set v x.1,x.2)=y := by simpa [he,Except.map] using hy
      refine ⟨(set v x'.1,x'.2),?_,hs.own σ v x x' hx⟩
      rw [hf,← hv x x' hx,he]
      rfl

section
variable (c : LineContext δ σ) (l : SettingLine) {α : Type} {g : SettingId}

theorem bind_map {α β γ : Type} (a : Except LineFault α) (b : α → Except LineFault β) (f : β → γ) :
    (a >>= fun s => b s >>= fun v => .ok (f v))=(a >>= b).map f := by
  cases a with
  | error e => rfl
  | ok s => cases h : b s <;> simp [bind,Except.bind,Except.map,h]

variable {set : α → ServiceSettings δ → ServiceSettings δ} (hs : SetOwn g set)
include hs

theorem own_setParsed (parse : List UInt8 → Except LineFault α) :
    StepOwn (σ := σ) g (setParsed l parse set) :=
  .of_value hs (fun _ => readValue l >>= parse) (fun _ => bind_map _ _ _) fun _ _ _ => rfl

theorem own_setWords (get : ServiceSettings δ → α) (word : α → List UInt8 → Option α)
    (excInfo settingName : String)
    (hg : ∀ s t : LineState δ σ,g.view s=g.view t → get s.1=get t.1) :
    StepOwn g (setWords c l get word excInfo settingName set) := by
  refine .of_value hs (fun s => readIndices l >>= fun ws => foldWords word
    (fun w => settingExc c.name l.inputPos (literal excInfo++w) settingName) (get s.1) ws)
    (fun _ => bind_map _ _ _) fun s t h => ?_
  rw [hg s t h]

end

theorem own_setResolved (c : LineContext δ σ) (l : SettingLine) {g : SettingId}
    {set : List UInt8 → ServiceSettings δ → ServiceSettings δ} (hs : SetOwn g set)
    (settingName : String) (check : List UInt8 → Except LineFault (List UInt8)) :
    StepOwn g (setResolved c l settingName check set) :=
  .of_value hs (fun _ => readValueResolved c l settingName >>= check) (fun _ => bind_map _ _ _)
    fun _ _ _ => rfl

/-- What is read for a command that is `v` so far -/
def readCommand (l : SettingLine) (v : List UInt8 × List (UInt32 × UInt32)) :
    Except LineFault (List UInt8 × List (UInt32 × UInt32)) :=
  (readSettingValue v.1 l.settingOp l.inputPos l.i (some v.2)).mapError SettingFault.lineFault
    |>.map fun v => (v.settingVal,v.partPositions.getD [])

theorem setCommand_map (l : SettingLine)
    {get : ServiceSettings δ → List UInt8 × List (UInt32 × UInt32)}
    {set : List UInt8 × List (UInt32 × UInt32) → ServiceSettings δ → ServiceSettings δ}
    (s : LineState δ σ) :
    setCommand l get set s=(readCommand l (get s.1)).map fun v => (set v s.1,s.2) := by
  cases h : readSettingValue (get s.1).1 l.settingOp l.inputPos l.i (some (get s.1).2) <;>
    simp [setCommand,readCommand,h,Except.map,Except.mapError]

theorem own_setCommand (l : SettingLine) {g : SettingId}
    {get : ServiceSettings δ → List UInt8 × List (UInt32 × UInt32)}
    {set : List UInt8 × List (UInt32 × UInt32) → ServiceSettings δ → ServiceSettings δ}
    (hs : SetOwn g set) (hg : ∀ s t : LineState δ σ,g.view s=g.view t → get s.1=get t.1) :
    StepOwn g (setCommand (σ := σ) l get set) := by
  exact .of_value hs (fun s => readCommand l (get s.1)) (setCommand_map l) fun s t h => by
    rw [hg s t h]

variable (c : LineContext δ σ) (l : SettingLine)

theorem own_setRlimit (resourceId : Int) (paramName : String) :
    StepOwn .rlimitNofile (setRlimit c l resourceId paramName) := by
  have hs : SetOwn (δ := δ) .rlimitNofile fun rlimits s => {s with rlimits} := {}
  refine .of_value hs (fun s => readValue l >>= fun str => updateRlimits (fun limits =>
    (parseRlimit str paramName limits).mapError fun e => lineExc c.name l.inputPos (literal e))
    resourceId s.1.rlimits) (fun s => ?_) fun s t h => ?_
  · refine Eq.trans ?_ (bind_map _ _ _)
    unfold setRlimit
    congr! with str
    cases parseRlimit str paramName _ <;> rfl
  · rw [show s.1.rlimits=t.1.rlimits from h]

theorem setInittab_map (hu : c.build.useUtmpx=true) (size : Nat) (excInfo : String)
    (set : List UInt8 → ServiceSettings δ → ServiceSettings δ) (s : LineState δ σ) :
    setInittab c l size excInfo set s=(readValue l >>= fun str =>
      if size< str.length then .error (lineExc c.name l.inputPos (literal excInfo))
      else .ok (strncpy size str)).map fun v => (set v s.1,s.2) := by
  cases h : readValue l with
  | error e => simp [setInittab,h,Except.map,bind,Except.bind]
  | ok str =>
    by_cases hl : size< str.length <;> simp [setInittab,h,hl,hu,Except.map,bind,Except.bind]

theorem setInittab_stub (hu : c.build.useUtmpx=false) (size : Nat) (excInfo : String)
    (set : List UInt8 → ServiceSettings δ → ServiceSettings δ) (s : LineState δ σ) :
    setInittab c l size excInfo set s=(readValue l).map fun _ => (s.1,s.2) := by
  cases h : readValue l <;> simp [setInittab,h,hu,Except.map,bind,Except.bind]

theorem own_setInittab {g : SettingId} {set : List UInt8 → ServiceSettings δ → ServiceSettings δ}
    (hs : SetOwn g set) (size : Nat) (excInfo : String) :
    StepOwn g (setInittab c l size excInfo set) := by
  cases hu : c.build.useUtmpx with
  | true =>
    exact .of_value hs (fun _ => readValue l >>= fun str =>
      if size< str.length then .error (lineExc c.name l.inputPos (literal excInfo))
      else .ok (strncpy size str)) (setInittab_map c l hu size excInfo set) fun _ _ _ => rfl
  | false =>
    have hs : SetOwn g fun (_ : List UInt8) (s : ServiceSettings δ) => s :=
      { frame := fun _ _ _ _ _ => rfl,own := fun _ _ _ _ h => h }
    exact .of_value hs (fun _ => readValue l) (setInittab_stub c l hu size excInfo set)
      fun _ _ _ => rfl

theorem setCapabilities_map (s : LineState δ σ) :
    setCapabilities c l s=
      (readCapabilities c l).map fun v => ({s.1 with capabilities := some v},s.2) := by
  cases h : readCapabilities c l <;> simp [setCapabilities,h,Except.map,bind,Except.bind]

theorem own_setCapabilities : StepOwn .capabilities (setCapabilities c l) := by
  have hs : SetOwn (δ := δ) .capabilities fun v s => {s with capabilities := some v} := {}
  exact .of_value hs (fun _ => readCapabilities c l) (setCapabilities_map c l) fun _ _ _ => rfl

theorem own_setEnvFile : StepOwn .envFile (setEnvFile c l) := by
  have hs : SetOwn (δ := δ) .envFile fun (v : List UInt8 × Option Int) s =>
      {s with envFile := v.1,envFileDirFd := v.2.getD s.envFileDirFd} :=
    { own := fun _ v _ _ h => congrArg (fun p : List UInt8 × Int => (v.1,v.2.getD p.2)) h }
  refine .of_value hs (fun _ => readValueResolved c l "env-file" >>= fun envFile =>
    if envFile.head?=some 47 then .ok (envFile,none)
    else (c.dup l.resolveFd).elim (.error (.systemError "dup")) fun rfd => .ok (envFile,some rfd))
    (fun s => ?_) fun _ _ _ => rfl
  cases h : readValueResolved c l "env-file" with
  | error e => simp [setEnvFile,h,Except.map,bind,Except.bind]
  | ok envFile =>
    by_cases hr : envFile.head?=some 47
    · simp [setEnvFile,h,hr,Except.map,bind,Except.bind]
    · cases hd : c.dup l.resolveFd <;>
        simp [setEnvFile,h,hr,hd,Except.map,bind,Except.bind]

/-- A step on the dependencies and what they are loaded into -/
theorem own_depends {f : LineState δ σ → Except LineFault (LineState δ σ)}
    (val : List (δ × DependencyType) → σ → Except LineFault (List (δ × DependencyType) × σ))
    (hf : ∀ s,f s=(val s.1.depends s.2).map fun v => ({s.1 with depends := v.1},v.2)) :
    StepOwn .dependsOn f where
  frame := by
    intro x y h hy hh
    rw [hf] at hy
    cases he : val x.1.depends x.2 with
    | error e => simp [he,Except.map] at hy
    | ok v =>
      obtain rfl : ({x.1 with depends := v.1},v.2)=y := by simpa [he,Except.map] using hy
      cases h <;> first | rfl | exact absurd rfl hh
  own := by
    intro x x' y hx hy
    obtain ⟨hd,hw⟩ : x.1.depends=x'.1.depends ∧ x.2=x'.2 := Prod.mk.inj hx
    rw [hf] at hy
    cases he : val x.1.depends x.2 with
    | error e => simp [he,Except.map] at hy
    | ok v =>
      obtain rfl : ({x.1 with depends := v.1},v.2)=y := by simpa [he,Except.map] using hy
      refine ⟨({x'.1 with depends := v.1},v.2),?_,rfl⟩
      rw [hf,← hd,← hw,he]
      rfl

theorem own_addDependency (settingName : String) (depType : DependencyType) :
    StepOwn .dependsOn (addDependency c l settingName depType) := by
  refine own_depends (fun depends w => do
    let dependencyName ← readValueResolved c l settingName
    let v ← c.loadService (cString dependencyName) w
    .ok (depends++[(v.1,depType)],v.2)) fun s => ?_
  cases h : readValueResolved c l settingName with
  | error e => simp [addDependency,h,Except.map,bind,Except.bind]
  | ok n =>
    cases hl : c.loadService (cString n) s.2 <;>
      simp [addDependency,h,hl,Except.map,bind,Except.bind]

theorem own_addDepDir (settingName : String) (depType : DependencyType) :
    StepOwn .dependsOn (addDepDir c l settingName depType) := by
  refine own_depends (fun depends w => do
    let waitsford ← readValueResolved c l settingName
    c.processDepDir depends waitsford depType w) fun s => ?_
  cases h : readValueResolved c l settingName with
  | error e => simp [addDepDir,h,Except.map,bind,Except.bind]
  | ok n =>
    cases hl : c.processDepDir s.1.depends n depType s.2 <;>
      simp [addDepDir,h,hl,Except.map,bind,Except.bind]

/-- Every setting works on the part of its group. -/
theorem own_process (id : SettingId) : StepOwn id.group (id.process c l) := by
  unfold process group
  cases id with
  | command | stopCommand =>
    refine own_setCommand l ?_ fun _ _ h => h
    exact {}
  | envFile => exact own_setEnvFile c l
  | capabilities => exact own_setCapabilities c l
  | securebits =>
    refine own_setWords c l ?_ _ _ _ _ fun _ _ h =>
      congrArg (fun n : Nat => if l.settingOp≠.plusAssign then 0 else n) h
    exact {}
  | options | loadOptions =>
    refine own_setWords c l ?_ _ _ _ _ fun _ _ h => h
    exact {}
  | socketUid | logfileUid =>
    refine own_setParsed l ?_ _
    exact { own := fun _ v _ _ h => congrArg (fun p : UInt32 × UInt32 => (v.1,v.2.getD p.2)) h }
  | runAs =>
    refine own_setParsed l ?_ _
    exact { own := fun _ v _ _ h =>
              congrArg (fun p : UInt32 × UInt32 × UInt32 => (v.1,v.2.getD p.2.1,p.2.2)) h }
  | dependsOn | dependsMs | waitsFor => exact own_addDependency c l _ _
  | waitsForD | dependsOnD | dependsMsD => exact own_addDepDir c l _ _
  | after | before =>
    refine own_setResolved c l ?_ _ _
    exact { own := fun _ v _ _ h => congrArg (fun ns : List (List UInt8) => ns++[v]) h }
  | consumerOf =>
    refine own_setResolved c l ?_ _ _
    exact {}
  | logfile =>
    refine own_setParsed l ?_ _
    exact { own := fun _ v _ _ h =>
              congrArg (fun p : List UInt8 × LogType =>
                (v,if v≠[] ∧ p.2=.none then LogType.logfile else p.2)) h }
  | logType =>
    refine own_setParsed l ?_ _
    exact { own := fun _ v _ _ h => congrArg (fun p : List UInt8 × LogType => (p.1,v)) h }
  | readyNotification =>
    refine own_setParsed l { frame := ?_,own := ?_ } _
    · rintro σ (fd | name) s h hh <;> cases h <;> first | rfl | exact absurd rfl hh
    · rintro σ (fd | name) s t h
      · exact congrArg (fun p : Int × List UInt8 => (fd,p.2)) h
      · exact congrArg (fun p : Int × List UInt8 => (p.1,name)) h
  | inittabId | inittabLine =>
    refine own_setInittab c l ?_ _ _
    exact {}
  | rlimitNofile | rlimitCore | rlimitData | rlimitAddrspace => exact own_setRlimit c l _ _
  | _ =>
    refine own_setParsed l ?_ _
    exact {}

end SettingId

/-- The group of the setting that a line names, if there is one -/
def SettingLine.group (b : BuildOptions) (l : SettingLine) : Option SettingId :=
  (findSetting b l.setting).map fun details => details.settingId.group

variable (c : LineContext δ σ)

theorem processServiceLine_own {l : SettingLine} {x y : LineState δ σ}
    (h : processServiceLine c l x=.ok y) : ∃ id : SettingId,l.group c.build=some id.group ∧
      processServiceLine c l=id.process c l := by
  unfold processServiceLine at h ⊢
  unfold SettingLine.group
  cases hf : findSetting c.build l.setting with
  | none => simp [hf] at h
  | some details =>
    by_cases hp : l.settingOp=.plusAssign ∧ details.suppPlusAssign=false
    · simp [hf,hp] at h
    · exact ⟨details.settingId,rfl,by simp [hp]⟩

def settingFootprint : Footprint (LineState δ σ) SettingLine (Option SettingId) LineFault
    fun g => match g with | none => Unit | some g => g.View δ σ where
  step := processServiceLine c
  group := SettingLine.group c.build
  view g s := match g with | none => () | some g => g.view s
  ext h := SettingId.view_ext fun g => h (some g)
  frame := by
    intro l x y g h hg
    obtain ⟨id,hid,hp⟩ := processServiceLine_own c h
    rw [hp] at h
    cases g with
    | none => rfl
    | some g => exact (id.own_process c l).frame h fun he => hg (by rw [hid,he])
  own := by
    intro l x x' y hx h
    obtain ⟨id,hid,hp⟩ := processServiceLine_own c h
    rw [hid] at hx ⊢
    rw [hp] at h ⊢
    exact (id.own_process c l).own hx h

end Dinit
