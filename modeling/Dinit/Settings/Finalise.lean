import Dinit.Framework.Reports
import Dinit.Settings.Line

namespace Dinit

open Framework

/-- How `finalise` tells what it finds: errors, warnings if they are wanted, and a path in which a
variable cannot be replaced -/
structure FinaliseReports (m : Type → Type) where
  reportError : List UInt8 → m Unit
  reportLint : Option (List UInt8 → m Unit)
  unresolved : String → SubstFault → m Unit

/-- What `finalise` takes from outside. The environment that variables are looked up in is made from
the settings. -/
structure FinaliseContext (δ : Type) where
  build : BuildOptions
  varSubst : ServiceSettings δ → List UInt8 → Option (List UInt8)
  serviceArg : Option (List UInt8)
  getuid : UInt32
  getgid : UInt32

/-- `uid_t` and `gid_t` -1 -/
def noId : UInt32 := .ofNat unsignedMax

section
variable {δ : Type} (e : FinaliseContext δ) (s : ServiceSettings δ)

def ServiceType.runsProcess (t : ServiceType) : Prop :=
  t=.process ∨ t=.bgprocess ∨ t=.scripted

instance (t : ServiceType) : Decidable t.runsProcess := inferInstanceAs (Decidable (_ ∨ _ ∨ _))

/-- The warnings about what a service without a process has no use for -/
def ignoredLint : List (Bool × String) :=
  let ignored (what : String) :=
    what++" specified, but ignored for the specified (or default) service type."
  [(s.command≠[],ignored "'command'"),(s.stopCommand≠[],ignored "'stop-command'"),
    (s.workingDir≠[],ignored "'working-dir'"),
    (e.build.supportCgroups ∧ s.runInCgroup≠[],ignored "'run-in-cgroup'"),
    (e.build.supportCapabilities ∧ s.capabilities.isSome,ignored "'capabilities'"),
    (e.build.supportCapabilities ∧ s.secbits≠0,ignored "'securebits'"),
    (s.runAsUid≠noId,ignored "'run-as'"),(s.socketPath≠[],ignored "'socket-listen'"),
    (e.build.useUtmpx ∧ (s.inittabId.headD 0≠0 ∨ s.inittabLine.headD 0≠0),
      ignored "'inittab_line' or 'inittab_id'"),
    (s.onstartFlags.signalProcessOnly ∨ s.onstartFlags.startInterruptible,
      ignored "signal options were"),
    (s.onstartFlags.passCsFd,ignored "option 'pass_cs_fd' was"),
    (s.onstartFlags.skippable,ignored "option 'skippable' was"),
    (e.build.supportCapabilities ∧ s.onstartFlags.noNewPrivs,ignored "option 'no_new_privs' was"),
    (s.logType≠.none,ignored "option 'log_type' was"),
    (s.nice.isSome,ignored "option 'nice' was"),
    (e.build.supportIoprio ∧ 0≤ s.ioprio,ignored "option 'ioprio' was"),
    (e.build.supportOomAdj ∧ s.oomAdj.isSome,ignored "option 'oom-score-adj' was")]

def logfileLint : List (Bool × String) :=
  [(s.logType≠.logfile ∧ s.logfile≠[],
      "option 'logfile' was specified, but selected log type is not 'file'"),
    (s.logType=.logfile ∧ s.logfile=[],
      "option 'logfile' not set, but selected log type is 'file'")]

def lintChecks : List (Bool × String) :=
  (if s.serviceType=.internal ∨ s.serviceType=.triggered then ignoredLint e s else [])++
    logfileLint s

/-- The checks of the settings as they are given: whether they fail, and what is reported then -/
def earlyChecks : List (Bool × String) :=
  let bgprocess : Bool := s.serviceType=.bgprocess
  [(bgprocess && s.pidFile=[],
      "process ID file ('pid-file') not specified for bgprocess service."),
    (bgprocess && (s.readinessFd≠-1 || s.readinessVar≠[]),
      "readiness notification ('ready-notification') is not supported for bgprocess services."),
    (s.onstartFlags.killAllOnStop && s.serviceType≠.internal && s.serviceType≠.scripted,
      "kill-all-on-stop can only be set on scripted or internal services.")]

/-- The users and groups that are used where none is given -/
def setOwners : ServiceSettings δ :=
  let logfileGid := if s.logfileGid=noId then s.logfileUidGid else s.logfileGid
  {s with
    socketGid := if s.socketGid=noId then s.socketUidGid else s.socketGid
    logfileUid := if s.logfileUid=noId then e.getuid else s.logfileUid
    logfileGid := if logfileGid=noId then e.getgid else logfileGid
    runAsGid :=
      if e.build.useInitgroups then
        if s.runAsUidGid=noId ∧ s.runAsGid=noId then e.getgid else s.runAsGid
      else if s.runAsGid=noId then s.runAsUidGid else s.runAsGid}

variable {m : Type → Type} [Monad m] (r : FinaliseReports m)

/-- The checks that fail are reported one after another. -/
def reportAll (report : List UInt8 → m Unit) (checks : List (Bool × String)) : m Unit :=
  checks.foldlM (fun _ check => if check.1 then report (literal check.2) else pure ()) ()

/-- `do_resolve`. A value that cannot be resolved stays as it is. -/
def doResolve (settingName : String) (settingValue : List UInt8) : m (List UInt8) :=
  match valueVarSubst settingValue (e.varSubst s) e.serviceArg settingName
      [(0,.ofNat settingValue.length)] with
  | .ok (v,_) => pure v
  | .error fault => do
    r.unresolved settingName fault
    pure settingValue

def reportLints : m Unit :=
  match r.reportLint with
  | none => pure ()
  | some lint => reportAll lint (lintChecks e s)

/-- `finalise` -/
def finalise : m (ServiceSettings δ) := do
  reportAll r.reportError
    [(s.serviceType.runsProcess && s.command=[],"'command' setting not specified.")]
  reportLints e s r
  reportAll r.reportError (earlyChecks s)
  let socketPath ← doResolve e s r "socket-listen" s.socketPath
  let logfile ← doResolve e s r "logfile" s.logfile
  let workingDir ← doResolve e s r "working-dir" s.workingDir
  let pidFile ← doResolve e s r "pid-file" s.pidFile
  let t := setOwners e {s with socketPath,workingDir,pidFile,logfile :=
    if s.logType≠.logfile then [] else logfile}
  reportAll r.reportError
    [(s.serviceType≠.process && s.serviceType≠.bgprocess && s.consumerOfName≠[],
      "only a process or bgprocess service can be a log consumer ('consumer-of') another service.")]
  pure t

end

/-- What the loader of services makes of a report: it throws. -/
def throwReports (name : List UInt8) : FinaliseReports (Except LineFault) where
  reportError msg := .error (.loadExc name msg)
  reportLint := none
  unresolved _ fault := .error fault.lineFault

/-- What `dinit-check` has to say about a description: what a line has thrown, an error, or a warning -/
inductive CheckReport where
  | exception (e : LineFault)
  | error (msg : List UInt8)
  | lint (msg : List UInt8)
deriving DecidableEq

/-- What `dinit-check` makes of a report. A string that is too long is not caught. -/
def checkReports : FinaliseReports (Noting LineFault CheckReport) where
  reportError msg := .note (.error msg)
  reportLint := some fun msg => .note (.lint msg)
  unresolved settingName
    | .descriptionExc _ excInfo =>
      .note (.error (literal (settingName++": ")++literal excInfo))
    | .lengthError => .fail SubstFault.lengthError.lineFault

/-- The name of a description: that of the service up to an `@` -/
def descriptionName (fullname : List UInt8) : List UInt8 := fullname.takeWhile (·≠64)

/-- The argument of a service: its name behind the `@` -/
def serviceArgument (fullname : List UInt8) : Option (List UInt8) := (fullname.dropWhile (·≠64)).tail?

section
variable {δ σ : Type} (c : LineContext δ σ) (e : FinaliseContext δ) (fullname : List UInt8)

/-- `load_reload_service` processes lines with the name of the description and the argument. -/
def LineContext.forLoad : LineContext δ σ :=
  {c with name := descriptionName fullname,serviceArg := serviceArgument fullname}

def FinaliseContext.forLoad : FinaliseContext δ := {e with serviceArg := serviceArgument fullname}

/-- `dinit-check` processes them with the full name, and with an empty argument if there is none. -/
def LineContext.forCheck : LineContext δ σ :=
  {c with name := fullname,serviceArg := some ((serviceArgument fullname).getD [])}

def FinaliseContext.forCheck : FinaliseContext δ := {e with serviceArg := none}

/-- What `load_reload_service` makes of the lines of a description -/
def loadSettings (ls : List SettingLine) (s : LineState δ σ) : Except LineFault (LineState δ σ) := do
  let s ← processServiceLines c ls s
  let settings ← finalise e s.1 (throwReports c.name)
  .ok (settings,s.2)

/-- A line in `dinit-check`. It goes on with what an exception has left. -/
def checkLine (left : SettingLine → LineState δ σ → LineState δ σ) (s : LineState δ σ)
    (l : SettingLine) : Noting LineFault CheckReport (LineState δ σ) :=
  match processServiceLine c l s with
  | .ok s => pure s
  | .error (.descriptionExc serviceName excInfo settingName inputPos) => do
    Noting.note (.exception (.descriptionExc (serviceName.getD c.name) excInfo settingName inputPos))
    pure (left l s)
  | .error fault => .fail fault

/-- What `dinit-check` makes of them -/
def checkSettings (left : SettingLine → LineState δ σ → LineState δ σ) (ls : List SettingLine)
    (s : LineState δ σ) : Noting LineFault CheckReport (LineState δ σ) := do
  let s ← ls.foldlM (checkLine c left) s
  let settings ← finalise e s.1 checkReports
  pure (settings,s.2)

end

end Dinit
