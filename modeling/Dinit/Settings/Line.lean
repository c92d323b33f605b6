import Dinit.Settings.Params

namespace Dinit

/-- `service_flags_t` -/
structure ServiceFlags where
  rwReady : Bool := false
  logReady : Bool := false
  runsOnConsole : Bool := false
  startsOnConsole : Bool := false
  sharesConsole : Bool := false
  unmaskIntr : Bool := false
  passCsFd : Bool := false
  startInterruptible : Bool := false
  skippable : Bool := false
  signalProcessOnly : Bool := false
  alwaysChain : Bool := false
  killAllOnStop : Bool := false
  noNewPrivs : Bool := false
deriving DecidableEq

/-- `service_settings_wrapper`, for dependencies of the type `δ`. The capabilities are kept as the text
they are given by. -/
structure ServiceSettings (δ : Type) where
  command : List UInt8 := []
  commandOffsets : List (UInt32 × UInt32) := []
  stopCommand : List UInt8 := []
  stopCommandOffsets : List (UInt32 × UInt32) := []
  workingDir : List UInt8 := []
  pidFile : List UInt8 := []
  envFile : List UInt8 := []
  envFileDirFd : Int := -1
  exportPasswdVars : Bool := false
  exportServiceName : Bool := false
  serviceType : ServiceType := .internal
  depends : List (δ × DependencyType) := []
  beforeSvcs : List (List UInt8) := []
  afterSvcs : List (List UInt8) := []
  logType : LogType := .none
  logfile : List UInt8 := []
  logfilePerms : Int := 0o600
  logfileUid : UInt32 := .ofNat unsignedMax
  logfileUidGid : UInt32 := .ofNat unsignedMax
  logfileGid : UInt32 := .ofNat unsignedMax
  maxLogBufferSz : Nat := 4096
  onstartFlags : ServiceFlags := {}
  termSignal : Nat := sigTerm
  autoRestart : AutoRestartMode
  smoothRecovery : Bool := false
  socketPath : List UInt8 := []
  socketPerms : Int := 0o666
  socketUid : UInt32 := .ofNat unsignedMax
  socketUidGid : UInt32 := .ofNat unsignedMax
  socketGid : UInt32 := .ofNat unsignedMax
  restartInterval : Nat × Nat := (10,0)
  maxRestarts : Nat := 3
  restartDelay : Nat × Nat := (0,200000000)
  stopTimeout : Nat × Nat := (10,0)
  startTimeout : Nat × Nat := (60,0)
  rlimits : List ServiceRlimits := []
  readinessFd : Int := -1
  readinessVar : List UInt8 := []
  runAsUid : UInt32 := .ofNat unsignedMax
  runAsUidGid : UInt32 := .ofNat unsignedMax
  runAsGid : UInt32 := .ofNat unsignedMax
  nice : Option Int := none
  chainToName : List UInt8 := []
  consumerOfName : List UInt8 := []
  runInCgroup : List UInt8 := []
  capabilities : Option (List UInt8) := none
  secbits : Nat := 0
  ioprio : Int := -1
  oomAdj : Option Int := none
  inittabId : List UInt8 := List.replicate 4 0
  inittabLine : List UInt8 := List.replicate 32 0
deriving DecidableEq

/-- A line from behind the setting's name and the operator, with its number and the directory of its
file -/
structure SettingLine where
  setting : List UInt8
  settingOp : SettingOp
  inputPos : UInt32
  resolveFd : Int
  i : List UInt8
deriving DecidableEq

/-- What the lines of a description are processed with. Dependencies are loaded, and directories of them
read, with an effect on `σ`; `capIabFromText` says whether a text stands for capabilities, or fails
for want of memory. -/
structure LineContext (δ σ : Type) where
  build : BuildOptions
  name : List UInt8
  serviceArg : Option (List UInt8)
  lookupVar : List UInt8 → Option (List UInt8)
  loadService : List UInt8 → σ → Except LineFault (δ × σ)
  processDepDir : List (δ × DependencyType) → List UInt8 → DependencyType → σ →
    Except LineFault (List (δ × DependencyType) × σ)
  users : UserDatabase
  capIabFromText : List UInt8 → Except Unit Bool
  dup : Int → Option Int

/-- The settings so far, and what the dependencies have been loaded into -/
abbrev LineState (δ σ : Type) := ServiceSettings δ × σ

/-- `read_setting_value` into a new string -/
def readValue (l : SettingLine) : Except LineFault (List UInt8) :=
  match readSettingValue [] .assign l.inputPos l.i none with
  | .error e => .error e.lineFault
  | .ok v => .ok v.settingVal

/-- `read_setting_value` with the list of its parts, which are given as texts -/
def readIndices (l : SettingLine) : Except LineFault (List (List UInt8)) :=
  match readSettingValue [] .assign l.inputPos l.i (some []) with
  | .error e => .error e.lineFault
  | .ok v => .ok ((v.partPositions.getD []).map fun p =>
      (v.settingVal.drop p.1.toNat).take (p.2-p.1).toNat)

/-- `starts_with` -/
def startsWith (s : List UInt8) (pfx : String) : Bool := (literal pfx).isPrefixOf (cString s)

/-- `find_rlimits`, with what is then made of the limits -/
def updateRlimits (f : ServiceRlimits → Except LineFault ServiceRlimits) (resourceId : Int) :
    List ServiceRlimits → Except LineFault (List ServiceRlimits)
  | [] => do
    let limits ← f {resourceId}
    .ok [limits]
  | limits::rest =>
    if limits.resourceId=resourceId then do
      let limits ← f limits
      .ok (limits::rest)
    else do
      let rest ← updateRlimits f resourceId rest
      .ok (limits::rest)

/-- `strncpy` into a field of such a size -/
def strncpy (size : Nat) (s : List UInt8) : List UInt8 :=
  ((cString s).take size)++List.replicate (size-(cString s).length) 0

/-- `IOPRIO_PRIO_VALUE` -/
def ioprioPrioValue (cls data : Nat) : Int := ((cls<<<13)|||data : Nat)

def rlimitNofileId : Int := 7
def rlimitCoreId : Int := 4
def rlimitDataId : Int := 2
def rlimitAsId : Int := 9

def ServiceType.ofText (s : List UInt8) : Option ServiceType :=
  if s=literal "scripted" then some .scripted
  else if s=literal "process" then some .process
  else if s=literal "bgprocess" then some .bgprocess
  else if s=literal "internal" then some .internal
  else if s=literal "triggered" then some .triggered
  else none

def LogType.ofText (s : List UInt8) : Option LogType :=
  if s=literal "file" then some .logfile
  else if s=literal "buffer" then some .buffer
  else if s=literal "none" then some .none
  else if s=literal "pipe" then some .pipe
  else none

def AutoRestartMode.ofText (s : List UInt8) : Option AutoRestartMode :=
  if s=literal "yes" ∨ s=literal "true" then some .always
  else if s=literal "on-failure" then some .onFailure
  else if s=literal "no" ∨ s=literal "false" then some .never
  else none

def recoveryOfText (s : List UInt8) : Option Bool :=
  if s=literal "yes" ∨ s=literal "true" then some true
  else if s=literal "no" ∨ s=literal "false" then some false
  else none

/-- A word of the `options` setting -/
def ServiceFlags.option (b : BuildOptions) (f : ServiceFlags) (s : List UInt8) :
    Option ServiceFlags :=
  if s=literal "starts-rwfs" then some {f with rwReady := true}
  else if s=literal "starts-log" then some {f with logReady := true}
  else if s=literal "runs-on-console" then
    -- a service that runs on the console starts on it too
    some {f with runsOnConsole := true,startsOnConsole := true,sharesConsole := false}
  else if s=literal "starts-on-console" then
    some {f with startsOnConsole := true,sharesConsole := false}
  else if s=literal "shares-console" then
    some {f with sharesConsole := true,runsOnConsole := false,startsOnConsole := false}
  else if s=literal "unmask-intr" then some {f with unmaskIntr := true}
  else if s=literal "pass-cs-fd" then some {f with passCsFd := true}
  else if s=literal "start-interruptible" then some {f with startInterruptible := true}
  else if s=literal "skippable" then some {f with skippable := true}
  else if s=literal "signal-process-only" then some {f with signalProcessOnly := true}
  else if s=literal "always-chain" then some {f with alwaysChain := true}
  else if s=literal "kill-all-on-stop" then some {f with killAllOnStop := true}
  else if b.supportCapabilities=true ∧ s=literal "no-new-privs" then some {f with noNewPrivs := true}
  else none

/-- A word of the `load-options` setting: are the user's variables and the service's name exported -/
def loadOption (f : Bool × Bool) (s : List UInt8) : Option (Bool × Bool) :=
  if s=literal "export-passwd-vars" then some (true,f.2)
  else if s=literal "export-service-name" then some (f.1,true)
  else if s=literal "sub-vars" then some f
  else none

/-- A word of the `securebits` setting -/
def securebit (secbits : Nat) (s : List UInt8) : Option Nat :=
  if s=literal "keep-caps" then some (secbits|||16)
  else if s=literal "keep-caps-locked" then some (secbits|||32)
  else if s=literal "no-setuid-fixup" then some (secbits|||4)
  else if s=literal "no-setuid-fixup-locked" then some (secbits|||8)
  else if s=literal "noroot" then some (secbits|||1)
  else if s=literal "noroot-locked" then some (secbits|||2)
  else none

/-- The loop over the words of a setting, up to one that is not known -/
def foldWords {α : Type} (word : α → List UInt8 → Option α) (unknown : List UInt8 → LineFault) :
    α → List (List UInt8) → Except LineFault α
  | a,[] => .ok a
  | a,w::ws =>
    match word a w with
    | some a => foldWords word unknown a ws
    | none => .error (unknown w)

section
variable {δ σ : Type} (c : LineContext δ σ) (l : SettingLine)

/-- A value that is read, parsed and set -/
def setParsed {α : Type} (parse : List UInt8 → Except LineFault α)
    (set : α → ServiceSettings δ → ServiceSettings δ) (s : LineState δ σ) :
    Except LineFault (LineState δ σ) := do
  let str ← readValue l
  let v ← parse str
  .ok (set v s.1,s.2)

/-- A value that is set as it is read -/
def setValue (set : List UInt8 → ServiceSettings δ → ServiceSettings δ) :
    LineState δ σ → Except LineFault (LineState δ σ) := setParsed l .ok set

/-- A value that is one of a few words -/
def setChoice {α : Type} (choice : List UInt8 → Option α) (excInfo : List UInt8 → List UInt8)
    (settingName : String) (set : α → ServiceSettings δ → ServiceSettings δ) :
    LineState δ σ → Except LineFault (LineState δ σ) :=
  setParsed l (fun str =>
    match choice str with
    | some v => .ok v
    | none => .error (settingExc c.name l.inputPos (excInfo str) settingName)) set

def setTime (paramname : String) (set : Nat × Nat → ServiceSettings δ → ServiceSettings δ) :
    LineState δ σ → Except LineFault (LineState δ σ) :=
  setParsed l (fun str =>
    match parseTimespec paramname str with
    | .ok ts => .ok ts
    | .error e => .error (e.lineFault c.name l.inputPos)) set

/-- A value whose words are gone through. They have an effect on what there is already. -/
def setWords {α : Type} (get : ServiceSettings δ → α)
    (word : α → List UInt8 → Option α) (excInfo : String) (settingName : String)
    (set : α → ServiceSettings δ → ServiceSettings δ) (s : LineState δ σ) :
    Except LineFault (LineState δ σ) := do
  let ws ← readIndices l
  let unknown (w : List UInt8) := settingExc c.name l.inputPos (literal excInfo++w) settingName
  let v ← foldWords word unknown (get s.1) ws
  .ok (set v s.1,s.2)

/-- `command` and `stop-command`, to which more may be added -/
def setCommand (get : ServiceSettings δ → List UInt8 × List (UInt32 × UInt32))
    (set : List UInt8 × List (UInt32 × UInt32) → ServiceSettings δ → ServiceSettings δ)
    (s : LineState δ σ) : Except LineFault (LineState δ σ) :=
  match readSettingValue (get s.1).1 l.settingOp l.inputPos l.i (some (get s.1).2) with
  | .error e => .error e.lineFault
  | .ok v => .ok (set (v.settingVal,v.partPositions.getD []) s.1,s.2)

/-- `read_value_resolved` -/
def readValueResolved (settingName : String) : Except LineFault (List UInt8) := do
  let rval ← readValue l
  match valueVarSubst rval c.lookupVar c.serviceArg settingName [(0,.ofNat rval.length)] with
  | .error e => .error e.lineFault
  | .ok (line,_) => .ok line

/-- A value that is set with its variables replaced -/
def setResolved (settingName : String) (check : List UInt8 → Except LineFault (List UInt8))
    (set : List UInt8 → ServiceSettings δ → ServiceSettings δ) (s : LineState δ σ) :
    Except LineFault (LineState δ σ) := do
  let v ← readValueResolved c l settingName
  let v ← check v
  .ok (set v s.1,s.2)

/-- A service that is depended on is loaded. -/
def addDependency (settingName : String) (depType : DependencyType) (s : LineState δ σ) :
    Except LineFault (LineState δ σ) := do
  let dependencyName ← readValueResolved c l settingName
  let (svc,w) ← c.loadService (cString dependencyName) s.2
  .ok ({s.1 with depends := s.1.depends++[(svc,depType)]},w)

def addDepDir (settingName : String) (depType : DependencyType) (s : LineState δ σ) :
    Except LineFault (LineState δ σ) := do
  let waitsford ← readValueResolved c l settingName
  let (depends,w) ← c.processDepDir s.1.depends waitsford depType s.2
  .ok ({s.1 with depends},w)

def setUid (settingName : String)
    (set : UInt32 × Option UInt32 → ServiceSettings δ → ServiceSettings δ) :
    LineState δ σ → Except LineFault (LineState δ σ) :=
  setParsed l (fun str => parseUidParam c.name l.inputPos c.users str settingName) set

def setRlimit (resourceId : Int) (paramName : String) (s : LineState δ σ) :
    Except LineFault (LineState δ σ) := do
  let str ← readValue l
  let rlimits ← updateRlimits (fun limits =>
    match parseRlimit str paramName limits with
    | .ok limits => .ok limits
    | .error e => .error (lineExc c.name l.inputPos (literal e))) resourceId s.1.rlimits
  .ok ({s.1 with rlimits},s.2)

/-- `inittab-id` and `inittab-line`, for fields of such a size -/
def setInittab (size : Nat) (excInfo : String)
    (set : List UInt8 → ServiceSettings δ → ServiceSettings δ) (s : LineState δ σ) :
    Except LineFault (LineState δ σ) := do
  let str ← readValue l
  if c.build.useUtmpx then
    if size< str.length then .error (lineExc c.name l.inputPos (literal excInfo))
    else .ok (set (strncpy size str) s.1,s.2)
  else .ok s

/-- The value of `ready-notification`: a descriptor or a variable -/
def parseReadiness (notifySetting : List UInt8) : Except LineFault (Int ⊕ List UInt8) :=
  if startsWith notifySetting "pipefd:" then do
    let fd ← parseUnumParam c.name l.inputPos (notifySetting.drop 7) intMax
    .ok (.inl fd)
  else if startsWith notifySetting "pipevar:" then
    let readinessVar := notifySetting.drop 8
    if readinessVar=[] then .error (settingExc c.name l.inputPos
      (literal "invalid pipevar variable name") "ready-notification")
    else .ok (.inr readinessVar)
  else .error (settingExc c.name l.inputPos (literal "unrecognised setting: "++notifySetting)
    "ready-notification")

def parseIoprio (ioprioStr : List UInt8) : Except LineFault Int :=
  if ioprioStr=literal "none" then .ok 0
  else if startsWith ioprioStr "realtime:" then do
    let nval ← parseUnumParam c.name l.inputPos (ioprioStr.drop 9) 7
    .ok (ioprioPrioValue 1 nval)
  else if startsWith ioprioStr "best-effort:" then do
    let nval ← parseUnumParam c.name l.inputPos (ioprioStr.drop 12) 7
    .ok (ioprioPrioValue 2 nval)
  else if ioprioStr=literal "idle" then .ok (ioprioPrioValue 3 0)
  else .error (settingExc c.name l.inputPos (literal "invalid value for ioprio: "++ioprioStr)
    "ioprio")

/-- `capabilities`. The string that is read into is a new one, and so there is nothing in it that more
could be added to. -/
def readCapabilities : Except LineFault (List UInt8) :=
  match readSettingValue [] l.settingOp l.inputPos l.i none 44 with
  | .error e => .error e.lineFault
  | .ok v =>
    let bad := settingExc c.name l.inputPos (literal "invalid capabilities: "++v.settingVal)
      "capabilities"
    if v.settingVal=[] then .error bad
    else
      match c.capIabFromText (cString v.settingVal) with
      | .error () => .error .badAlloc
      | .ok false => .error bad
      | .ok true => .ok v.settingVal

def setCapabilities (s : LineState δ σ) : Except LineFault (LineState δ σ) := do
  let v ← readCapabilities c l
  .ok ({s.1 with capabilities := some v},s.2)

/-- `securebits` -/
def setSecurebits : LineState δ σ → Except LineFault (LineState δ σ) :=
  setWords c l (fun s => if l.settingOp≠.plusAssign then 0 else s.secbits) securebit
    "unknown securebits flag: " "securebits" fun v s => {s with secbits := v}

/-- `env-file`. The directory is duplicated if the name is relative to it. -/
def setEnvFile (s : LineState δ σ) : Except LineFault (LineState δ σ) := do
  let envFile ← readValueResolved c l "env-file"
  if envFile.head?=some 47 then .ok ({s.1 with envFile},s.2)
  else
    match c.dup l.resolveFd with
    | none => .error (.systemError "dup")
    | some rfd => .ok ({s.1 with envFile,envFileDirFd := rfd},s.2)

/-- The cases of `process_service_line` -/
def SettingId.process : SettingId → LineState δ σ → Except LineFault (LineState δ σ)
  | .command => setCommand l (fun s => (s.command,s.commandOffsets))
      fun v s => {s with command := v.1,commandOffsets := v.2}
  | .workingDir => setValue l fun v s => {s with workingDir := v}
  | .envFile => setEnvFile c l
  | .runInCgroup => setValue l fun v s => {s with runInCgroup := v}
  | .capabilities => setCapabilities c l
  | .securebits => setSecurebits c l
  | .nice => setParsed l
      (fun str => parseSnumParam c.name l.inputPos str (-1073741824) 1073741823)
      fun v s => {s with nice := some v}
  | .ioprio => setParsed l (parseIoprio c l) fun v s => {s with ioprio := v}
  | .oomScoreAdj => setParsed l (fun str => parseSnumParam c.name l.inputPos str (-1000) 1000)
      fun v s => {s with oomAdj := some v}
  | .socketListen => setValue l fun v s => {s with socketPath := v}
  | .socketPermissions => setParsed l
      (fun str => parsePerms c.name l.inputPos str "socket-permissions")
      fun v s => {s with socketPerms := v}
  | .socketUid => setUid c l "socket-uid"
      fun v s => {s with socketUid := v.1,socketUidGid := v.2.getD s.socketUidGid}
  | .socketGid => setParsed l (fun str => parseGidParam c.name l.inputPos c.users str "socket-gid")
      fun v s => {s with socketGid := v}
  | .stopCommand => setCommand l (fun s => (s.stopCommand,s.stopCommandOffsets))
      fun v s => {s with stopCommand := v.1,stopCommandOffsets := v.2}
  | .pidFile => setValue l fun v s => {s with pidFile := v}
  | .dependsOn => addDependency c l "depends-on" .regular
  | .dependsMs => addDependency c l "depends-ms" .milestone
  | .waitsFor => addDependency c l "waits-for" .waitsFor
  | .waitsForD => addDepDir c l "waits-for.d" .waitsFor
  | .dependsOnD => addDepDir c l "depends-on.d" .regular
  | .dependsMsD => addDepDir c l "depends-ms.d" .milestone
  | .after => setResolved c l "after" .ok fun v s => {s with afterSvcs := s.afterSvcs++[v]}
  | .before => setResolved c l "before" .ok fun v s => {s with beforeSvcs := s.beforeSvcs++[v]}
  | .logfile => setValue l fun v s => {s with
      logfile := v
      logType := if v≠[] ∧ s.logType=.none then .logfile else s.logType}
  | .logfilePermissions => setParsed l
      (fun str => parsePerms c.name l.inputPos str "logfile-permissions")
      fun v s => {s with logfilePerms := v}
  | .logfileUid => setUid c l "logfile-uid"
      fun v s => {s with logfileUid := v.1,logfileUidGid := v.2.getD s.logfileUidGid}
  | .logfileGid => setParsed l
      (fun str => parseGidParam c.name l.inputPos c.users str "logfile-gid")
      fun v s => {s with logfileGid := v}
  | .logType => setChoice c l LogType.ofText (fun _ => literal
      "log type must be one of: \"file\", \"buffer\", \"pipe\", or \"none\"") "log-type"
      fun v s => {s with logType := v}
  | .logBufferSize => setParsed l (fun str => parseUnumParam c.name l.inputPos str (unsignedMax/2))
      fun v s => {s with maxLogBufferSz := v}
  | .consumerOf => setResolved c l "consumer-of"
      (fun v => if v=c.name then .error (settingExc c.name l.inputPos
        (literal "service cannot be its own consumer") "consumer-of") else .ok v)
      fun v s => {s with consumerOfName := v}
  | .restart => setChoice c l AutoRestartMode.ofText (fun _ => literal
      "restart must be one of: \"yes\", \"true\", \"no\", \"false\" or \"on-failure\"") "restart"
      fun v s => {s with autoRestart := v}
  | .smoothRecovery => setChoice c l recoveryOfText (fun _ => literal
      "smooth-recovery must be one of: \"yes\", \"true\", \"no\" or \"false\"") "smooth-recovery"
      fun v s => {s with smoothRecovery := v}
  | .type => setChoice c l ServiceType.ofText (fun _ => literal
      ("service type must be one of: \"scripted\", \"process\", \"bgprocess\", "++
        "\"internal\" or \"triggered\"")) "type"
      fun v s => {s with serviceType := v}
  | .options => setWords c l (·.onstartFlags) (ServiceFlags.option c.build) "unknown option: "
      "options" fun v s => {s with onstartFlags := v}
  | .loadOptions => setWords c l (fun s => (s.exportPasswdVars,s.exportServiceName)) loadOption
      "unknown load option: " "load-options"
      fun v s => {s with exportPasswdVars := v.1,exportServiceName := v.2}
  | .termSignal => setChoice c l signalNameToNumber
      (literal "unknown/unsupported termination signal: "++·) "term-signal"
      fun v s => {s with termSignal := v}
  | .termsignal => setChoice c l signalNameToNumber
      (literal "unknown/unsupported termination signal: "++·) "termsignal"
      fun v s => {s with termSignal := v}
  | .restartLimitInterval => setTime c l "restart-limit-interval"
      fun v s => {s with restartInterval := v}
  | .restartDelay => setTime c l "restart-delay" fun v s => {s with restartDelay := v}
  | .restartLimitCount => setParsed l (fun str => parseUnumParam c.name l.inputPos str intMax)
      fun v s => {s with maxRestarts := v}
  | .stopTimeout => setTime c l "stop-timeout" fun v s => {s with stopTimeout := v}
  | .startTimeout => setTime c l "start-timeout" fun v s => {s with startTimeout := v}
  | .runAs => setUid c l "run-as"
      fun v s => {s with runAsUid := v.1,runAsUidGid := v.2.getD s.runAsUidGid}
  | .chainTo => setValue l fun v s => {s with chainToName := v}
  | .readyNotification => setParsed l (parseReadiness c l) fun v s =>
      match v with
      | .inl fd => {s with readinessFd := fd}
      | .inr name => {s with readinessVar := name}
  | .inittabId => setInittab c l 4 "inittab-id setting is too long"
      fun v s => {s with inittabId := v}
  | .inittabLine => setInittab c l 32 "inittab-line setting is too long"
      fun v s => {s with inittabLine := v}
  | .rlimitNofile => setRlimit c l rlimitNofileId "rlimit-nofile"
  | .rlimitCore => setRlimit c l rlimitCoreId "rlimit-core"
  | .rlimitData => setRlimit c l rlimitDataId "rlimit-data"
  | .rlimitAddrspace => setRlimit c l rlimitAsId "rlimit-addrspace"

def processServiceLine (s : LineState δ σ) : Except LineFault (LineState δ σ) :=
  match findSetting c.build l.setting with
  | none => .error (lineExc c.name l.inputPos
      (literal "unknown setting: '"++l.setting++literal "'."))
  | some details =>
    if l.settingOp=.plusAssign ∧ details.suppPlusAssign=false then
      .error (lineExc c.name l.inputPos
        (literal "cannot use '+=' with setting '"++l.setting++literal "'"))
    else details.settingId.process c l s

/-- All the lines of a description -/
def processServiceLines (ls : List SettingLine) (s : LineState δ σ) :
    Except LineFault (LineState δ σ) := ls.foldlM (fun s l => processServiceLine c l s) s

end

end Dinit
