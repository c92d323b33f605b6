import Dinit.Load.Registry
import Dinit.Settings.Rlimit
import Dinit.Settings.Subst
import Dinit.Settings.Timespec

namespace Dinit

/-- The bytes of a string of the source -/
def literal (s : String) : List UInt8 := s.toList.map fun c => .ofNat c.toNat

/-- What the settings of a description throw. A `service_description_exc` has the name of the service,
the setting's name and the line as far as they are given to it. -/
inductive LineFault where
  | descriptionExc (serviceName : Option (List UInt8)) (excInfo : List UInt8)
      (settingName : Option (List UInt8)) (inputPos : Option UInt32)
  | loadExc (serviceName excInfo : List UInt8)
  | systemError (what : String)
  | lengthError
  | badAlloc
  | pastEnd
  | overflow
deriving DecidableEq

/-- What `std::stoull` and its like throw. -/
inductive StoFault where
  | invalidArgument
  | outOfRange
deriving DecidableEq

/-- `std::stoull` with base 0: the number, and how many bytes it takes -/
def stoull (str : List UInt8) : Except StoFault (Nat × Nat) :=
  let nptr := cString str
  let r := strtoull nptr
  if r.nindex=nptr then .error .invalidArgument
  else if r.erange then .error .outOfRange
  else .ok (r.limit,nptr.length-r.nindex.length)

/-- The digits of a number of type `long long` with its sign. -/
def signedNumber (neg : Bool) (base : Nat) (digits : List UInt8) : Option Int :=
  let value := numberValue base digits
  if neg then if value≤2^63 then some (-value) else none
  else if value<2^63 then some value else none

/-- `std::stoll` with base 0 -/
def stoll (str : List UInt8) : Except StoFault (Int × Nat) :=
  let nptr := cString str
  let sign := numberSign (nptr.dropWhile isSpace)
  let number := numberBase sign.2
  let digits := number.2.takeWhile (isDigit number.1)
  if digits=[] then .error .invalidArgument
  else
    match signedNumber sign.1 number.1 digits with
    | none => .error .outOfRange
    | some v => .ok (v,nptr.length-(number.2.dropWhile (isDigit number.1)).length)

/-- `std::stoi` with base 8 -/
def stoiOctal (str : List UInt8) : Except StoFault (Int × Nat) :=
  let nptr := cString str
  let sign := numberSign (nptr.dropWhile isSpace)
  let digits := sign.2.takeWhile (isDigit 8)
  if digits=[] then .error .invalidArgument
  else
    match signedNumber sign.1 8 digits with
    | none => .error .outOfRange
    | some v =>
      if -2^31≤ v ∧ v<2^31 then .ok (v,nptr.length-(sign.2.dropWhile (isDigit 8)).length)
      else .error .outOfRange

def numErrMsg : List UInt8 :=
  literal "specified value contains invalid numeric characters or is outside allowed range."

/-- The largest `unsigned`, which is the largest `uid_t` and `gid_t` too, and stands for none. -/
def unsignedMax : Nat := 2^32-1

/-- The user and the group database: what is found, or the error's text -/
structure UserDatabase where
  getpwnam : List UInt8 → Except (List UInt8) (Option (UInt32 × UInt32))
  getgrnam : List UInt8 → Except (List UInt8) (Option UInt32)

section
variable (servicename : List UInt8) (inputPos : UInt32)

/-- A `service_description_exc` for the line, of the service -/
def lineExc (excInfo : List UInt8) : LineFault :=
  .descriptionExc (some servicename) excInfo none (some inputPos)

def settingExc (excInfo : List UInt8) (settingName : String) : LineFault :=
  .descriptionExc (some servicename) excInfo (some (literal settingName)) (some inputPos)

def uidErrMsg : List UInt8 :=
  literal "specified user id contains invalid numeric characters or is outside allowed range."

def gidErrMsg : List UInt8 :=
  literal "specified group id contains invalid numeric characters or is outside allowed range."

/-- `parse_uid_param`: the user, and the primary group if the user is given by name -/
def parseUidParam (db : UserDatabase) (param : List UInt8) (settingName : String) :
    Except LineFault (UInt32 × Option UInt32) :=
  match stoull param with
  | .ok (v,ind) =>
    if unsignedMax<v ∨ ind≠param.length then
      .error (lineExc servicename inputPos (literal settingName++literal ": "++uidErrMsg))
    else .ok (.ofNat v,none)
  -- here the setting's name is left out
  | .error .outOfRange => .error (lineExc servicename inputPos uidErrMsg)
  | .error .invalidArgument =>
    match db.getpwnam (cString param) with
    | .ok (some (uid,gid)) => .ok (uid,some gid)
    | .ok none => .error (lineExc servicename inputPos
        (literal settingName++literal ": specified user \""++param++
          literal "\" does not exist in system database."))
    | .error e => .error (lineExc servicename inputPos
        (literal "error accessing user database: "++e))

def parseGidParam (db : UserDatabase) (param : List UInt8) (settingName : String) :
    Except LineFault UInt32 :=
  match stoull param with
  | .ok (v,ind) =>
    if unsignedMax<v ∨ ind≠param.length then
      .error (lineExc servicename inputPos (literal settingName++literal ": "++gidErrMsg))
    else .ok (.ofNat v)
  | .error .outOfRange =>
    .error (lineExc servicename inputPos (literal settingName++literal ": "++gidErrMsg))
  | .error .invalidArgument =>
    match db.getgrnam (cString param) with
    | .ok (some gid) => .ok gid
    | .ok none => .error (lineExc servicename inputPos
        (literal settingName++literal ": specified group \""++param++
          literal "\" does not exist in system database."))
    | .error e => .error (lineExc servicename inputPos
        (literal "error accessing group database: "++e))

/-- `parse_perms`. The name of the setting and the message are the wrong way round in the
exception. -/
def parsePerms (paramval : List UInt8) (paramname : String) : Except LineFault Int :=
  let bad : LineFault :=
    settingExc servicename inputPos (literal paramname) "badly-formed or out-of-range numeric value"
  match stoiOctal paramval with
  | .ok (perms,ind) => if ind≠paramval.length then .error bad else .ok perms
  | .error _ => .error bad

def parseUnumParam (param : List UInt8) (max : Nat) : Except LineFault Nat :=
  match stoull param with
  | .ok (v,ind) =>
    if max<v ∨ ind≠param.length then .error (lineExc servicename inputPos numErrMsg) else .ok v
  | .error _ => .error (lineExc servicename inputPos numErrMsg)

def parseSnumParam (param : List UInt8) (min max : Int) : Except LineFault Int :=
  match stoll param with
  | .ok (v,ind) =>
    if v< min ∨ max<v ∨ ind≠param.length then .error (lineExc servicename inputPos numErrMsg)
    else .ok v
  | .error _ => .error (lineExc servicename inputPos numErrMsg)

end

def TimeFault.lineFault (servicename : List UInt8) (inputPos : UInt32) : TimeFault → LineFault
  | .descriptionError message => lineExc servicename inputPos (literal message)
  | .overflow => .overflow

def SettingFault.lineFault : SettingFault → LineFault
  | .descriptionExc lineNum excInfo => .descriptionExc none (literal excInfo) none (some lineNum)
  | .pastEnd => .pastEnd

def SubstFault.lineFault : SubstFault → LineFault
  | .descriptionExc settingName excInfo =>
    .descriptionExc none (literal excInfo) (some (literal settingName)) none
  | .lengthError => .lengthError

def sigQuit : Nat := 3
def sigCont : Nat := 18
def sigStop : Nat := 19

def signalToIntMap : List (String × Nat) :=
  [("none",0),("NONE",0),("HUP",sigHup),("INT",sigInt),("QUIT",sigQuit),("KILL",sigKill),
    ("USR1",sigUsr1),("USR2",sigUsr2),("TERM",sigTerm),("CONT",sigCont),("STOP",sigStop)]

/-- `signal_name_to_number`, with nothing for a signal that is not known -/
def signalNameToNumber (signame : List UInt8) : Option Nat :=
  (signalToIntMap.find? fun signal => literal signal.1=signame).map Prod.snd

/-- `setting_id_t` -/
inductive SettingId where
  | type | command | workingDir | envFile | socketListen | socketPermissions | socketUid | socketGid
  | stopCommand | pidFile | dependsOn | dependsMs | waitsFor | waitsForD | dependsOnD | dependsMsD
  | after | before | logfile | logfilePermissions | logfileUid | logfileGid | logType
  | logBufferSize | consumerOf | restart | smoothRecovery | options | loadOptions | termSignal
  | termsignal | restartLimitInterval | restartDelay | restartLimitCount | stopTimeout
  | startTimeout | runAs | chainTo | readyNotification | inittabId | inittabLine | nice
  | rlimitNofile | rlimitCore | rlimitData | rlimitAddrspace | runInCgroup | capabilities
  | securebits | ioprio | oomScoreAdj
deriving DecidableEq

structure SettingDetails where
  settingStr : String
  settingId : SettingId
  suppColon : Bool
  suppAssign : Bool
  suppPlusAssign : Bool
deriving DecidableEq

/-- What is chosen when the program is built. -/
structure BuildOptions where
  supportCgroups : Bool
  supportCapabilities : Bool
  supportIoprio : Bool
  supportOomAdj : Bool
  useUtmpx : Bool
  useInitgroups : Bool

/-- The table, without the end marker -/
def allSettings (b : BuildOptions) : List SettingDetails :=
  [⟨"type",.type,false,true,false⟩,
    ⟨"command",.command,false,true,true⟩,
    ⟨"working-dir",.workingDir,false,true,false⟩,
    ⟨"env-file",.envFile,false,true,false⟩,
    ⟨"socket-listen",.socketListen,false,true,false⟩,
    ⟨"socket-permissions",.socketPermissions,false,true,false⟩,
    ⟨"socket-uid",.socketUid,false,true,false⟩,
    ⟨"socket-gid",.socketGid,false,true,false⟩,
    ⟨"stop-command",.stopCommand,false,true,true⟩,
    ⟨"pid-file",.pidFile,false,true,false⟩,
    ⟨"depends-on",.dependsOn,true,false,false⟩,
    ⟨"depends-ms",.dependsMs,true,false,false⟩,
    ⟨"waits-for",.waitsFor,true,false,false⟩,
    ⟨"waits-for.d",.waitsForD,true,false,false⟩,
    ⟨"depends-on.d",.dependsOnD,true,false,false⟩,
    ⟨"depends-ms.d",.dependsMsD,true,false,false⟩,
    ⟨"after",.after,true,false,false⟩,
    ⟨"before",.before,true,false,false⟩,
    ⟨"logfile",.logfile,false,true,false⟩,
    ⟨"logfile-permissions",.logfilePermissions,false,true,false⟩,
    ⟨"logfile-uid",.logfileUid,false,true,false⟩,
    ⟨"logfile-gid",.logfileGid,false,true,false⟩,
    ⟨"log-type",.logType,false,true,false⟩,
    ⟨"log-buffer-size",.logBufferSize,false,true,false⟩,
    ⟨"consumer-of",.consumerOf,false,true,false⟩,
    ⟨"restart",.restart,false,true,false⟩,
    ⟨"smooth-recovery",.smoothRecovery,false,true,false⟩,
    ⟨"options",.options,true,true,false⟩,
    ⟨"load-options",.loadOptions,true,true,false⟩,
    ⟨"term-signal",.termSignal,false,true,false⟩,
    ⟨"termsignal",.termsignal,false,true,false⟩,
    ⟨"restart-limit-interval",.restartLimitInterval,false,true,false⟩,
    ⟨"restart-delay",.restartDelay,false,true,false⟩,
    ⟨"restart-limit-count",.restartLimitCount,false,true,false⟩,
    ⟨"stop-timeout",.stopTimeout,false,true,false⟩,
    ⟨"start-timeout",.startTimeout,false,true,false⟩,
    ⟨"run-as",.runAs,false,true,false⟩,
    ⟨"chain-to",.chainTo,false,true,false⟩,
    ⟨"ready-notification",.readyNotification,false,true,false⟩,
    ⟨"inittab-id",.inittabId,false,true,false⟩,
    ⟨"inittab-line",.inittabLine,false,true,false⟩,
    ⟨"rlimit-nofile",.rlimitNofile,false,true,false⟩,
    ⟨"rlimit-core",.rlimitCore,false,true,false⟩,
    ⟨"rlimit-data",.rlimitData,false,true,false⟩,
    ⟨"rlimit-addrspace",.rlimitAddrspace,false,true,false⟩,
    ⟨"nice",.nice,false,true,false⟩]++
  (if b.supportCgroups then [⟨"run-in-cgroup",.runInCgroup,false,true,false⟩] else [])++
  (if b.supportCapabilities then
    [⟨"capabilities",.capabilities,false,true,true⟩,⟨"securebits",.securebits,false,true,true⟩]
  else [])++
  (if b.supportIoprio then [⟨"ioprio",.ioprio,false,true,false⟩] else [])++
  (if b.supportOomAdj then [⟨"oom-score-adj",.oomScoreAdj,false,true,false⟩] else [])

/-- The search in `process_service_line` -/
def findSetting (b : BuildOptions) (setting : List UInt8) : Option SettingDetails :=
  (allSettings b).find? fun details => literal details.settingStr=setting

end Dinit
