import Dinit.Load.Registry

namespace Dinit

open Framework Framework.Comp

abbrev Load := Comp Loader

/-- The name of a service without its argument. -/
def baseName (fullname : String) : String :=
  String.ofList (fullname.toList.takeWhile fun ch => ch != '@')

namespace Core

/-- A new link, at the end of both lists. -/
def linkLast (c : Core) (from_ to_ : Nat) (depType : DependencyType) : Core :=
  c.linkAt from_ to_ depType (c.svc from_).dependsOn.length (c.svc to_).dependents.length

/-- Have the links `ls` to `i` lead to `j` instead, before those that do. -/
def moveDependents (c : Core) (i j : Nat) (ls : List Nat) : Core :=
  let c := c.setLinks ls fun d => { d with to_ := j }
  let c := c.setSvc i fun s => { s with dependents := s.dependents.filter fun l => !ls.contains l }
  c.setSvc j fun s => { s with dependents := ls++s.dependents }

/-- Have the links `ls` of `i` come from `j` instead, after its own. -/
def moveDependencies (c : Core) (i j : Nat) (ls : List Nat) : Core :=
  let c := c.setLinks ls fun d => { d with from_ := j }
  let c := c.setSvc i fun s => { s with dependsOn := s.dependsOn.filter fun l => !ls.contains l }
  c.setSvc j fun s => { s with dependsOn := s.dependsOn++ls }

/-- The services that `i` depends on. -/
def targets (c : Core) (i : Nat) : List Nat := (c.svc i).dependsOn.map fun l => (c.link l).to_

/-- The walk of `check_cycle`: whether one of the services `todo` leads to `orig`. Those
that are `done` do not. -/
def walk (c : Core) (orig : Nat) : Nat → List Nat → List Nat → Load Bool
  | 0, _, _ => fail
  | _+1, _, [] => pure false
  | fuel+1, done, i::todo =>
    if (c.targets i).contains orig then pure true
    else
      let new := (c.targets i).filter fun j => !(i::todo++done).contains j
      walk c orig fuel (i::done) (todo++new.eraseDups)

/-- `check_cycle`: whether `orig` is one of `deps` or one of them leads to it. -/
def checkCycle (c : Core) (fuel : Nat) (deps : List Nat) (orig : Nat) : Load Bool :=
  if deps.contains orig then pure true else c.walk orig fuel [] deps.eraseDups

/-- One pass of the loop that hands "before" links over: those that it moves, those that
it leaves, and whether it goes past the end. After a link that it moves, it passes over
the next one. -/
def transferPass (c : Core) : List Nat → List Nat × List Nat × Bool
  | [] => ([],[],false)
  | l::ls =>
    if (c.link l).depType = .before then
      match ls with
      | [] => ([l],[],true)
      | k::ls =>
        let r := transferPass c ls
        (l::r.1,k::r.2.1,r.2.2)
    else
      let r := transferPass c ls
      (r.1,l::r.2.1,r.2.2)

/-- The links that the loop moves. What follows the end of the list is its beginning, as
`std::list` is circular in the standard library at hand. -/
def transfer (c : Core) : Nat → List Nat → List Nat
  | 0, _ => []
  | fuel+1, ls =>
    let r := c.transferPass ls
    if r.2.2 then r.1++transfer c fuel r.2.1 else r.1

end Core

/-- What has been gathered for a service that is being loaded. -/
structure Draft where
  depends : List (Nat × DependencyType) := []
  afterSvcs : List String := []
  beforeSvcs : List String := []
  consumerOfName : Option String := none
  beforeDeps : List Nat := []
  consumerOf : Option Nat := none
  deriving Repr

/-- The dependencies that a service is started after only. -/
def Draft.afterDeps (d : Draft) : List Nat :=
  (d.depends.filter fun dep => dep.2==.after).map Prod.fst

namespace Loader

/-- `exception_cleanup`. Memory aside, nothing is thrown once there is a new record. -/
def cleanup (s : Loader) (dummy : Option Nat) (d : Draft) : Loader :=
  let s := s.push (.cleanup dummy d.beforeDeps d.afterDeps d.consumerOf.toList)
  let s := match dummy with
    | some i => (s.removeService i).delete i
    | none => s
  let s := d.beforeDeps.foldl (fun s i => s.dropPlaceholder i true) s
  let s := d.afterDeps.foldl (fun s i => s.dropPlaceholder i false) s
  d.consumerOf.toList.foldl (fun s i => s.dropPlaceholder i true) s

/-- `prepare_for_unload` for one dependency: the link goes, and nothing is released. -/
def dropDependency (s : Loader) (l : Nat) : Loader :=
  let d := s.core.link l
  let s := s.onCore fun c => c.unlink l
  if d.depType = .after then s.dropPlaceholder d.to_ true else s

/-- `rm_dep` of a link to a STOPPED service, whose release stops nothing. -/
def dropDependent (s : Loader) (l : Nat) : Loader :=
  let d := s.core.link l
  (s.onCore fun c => c.rmDep l).dropPlaceholder d.from_ true

/-- `prepare_for_unload` of a STOPPED service. The code clears `depends_on` after its first
loop, which does not read it. -/
def prepareForUnload (s : Loader) (i : Nat) : Loader :=
  let s := (s.core.svc i).dependsOn.foldl dropDependency s
  (s.core.svc i).dependents.foldl dropDependent s

/-- The new record `i` takes the dependents and "before" dependencies of `orig`. -/
def takeOver (s : Loader) (i orig : Nat) : Loader :=
  let s := ((s.core.svc orig).dependents.filter fun l => (s.core.link l).depType==.before).foldl
    dropDependent s
  let s := s.onCore fun c => c.moveDependents orig i (c.svc orig).dependents
  let s := s.push (.transfer orig)
  s.onCore fun c =>
    let ls := (c.svc orig).dependsOn
    c.moveDependencies orig i (c.transfer ls.length ls)

/-- The log consumer of `orig` is told that `i` takes its place. -/
def handConsumer (s : Loader) (i orig : Nat) : Loader :=
  match s.reg.logConsumer orig with
  | some k => s.setConsumerFor k (some i)
  | none => s

/-- `orig` no longer consumes what it did, unless its replacement does. -/
def dropConsumed (s : Loader) (orig : Nat) (consumed : Option Nat) : Loader :=
  match s.reg.consumerFor orig with
  | some p => if some p ≠ consumed then s.setLogConsumer p none else s
  | none => s

/-- A new record takes the place of `orig`, which is STOPPED: of a dummy or a placeholder
if the service is loaded, of the old record if a reload changes its type. -/
def createRecord (s : Loader) (file : File) (fullname : String) (orig : Nat) (d : Draft) :
    Nat × Loader :=
  let i := s.reg.nextSvc
  let settings := { file.settings with serviceName := fullname }
  let s := (s.push (.replace orig i)).allocate settings false
  let s := s.onReg fun r => { r with logType := fun j => if j=i then file.logType else r.logType j }
  let s := d.depends.foldl (fun s dep => s.onCore fun c => c.linkLast i dep.1 dep.2) s
  let s := d.beforeDeps.foldl (fun s j => s.onCore fun c => c.linkLast j i .before) s
  let s := s.takeOver i orig
  let s := if (s.core.svc i).isProcess then s.handConsumer i orig else s
  let s := s.prepareForUnload orig
  let t := (s.core.svc orig).getType
  let s := if t = .process ∨ t = .bgprocess then s.dropConsumed orig d.consumerOf else s
  let s := s.onCore fun c => { c with records := c.records.map fun j => if j=orig then i else j }
  (i,s.delete orig)

/-- `set_log_mode`. What a record has that is of no type with output is not looked at. -/
def setLogMode (s : Loader) (i : Nat) (logType : LogType) : Loader :=
  s.onReg fun r => { r with logType := fun j => if j=i then logType else r.logType j }

/-- A process service is told what it consumes, and the other end who consumes it. -/
def setConsumer (s : Loader) (i : Nat) (d : Draft) : Loader :=
  let t := (s.core.svc i).getType
  if t = .process ∨ t = .bgprocess then
    let s := (s.push (.consume i d.consumerOf)).setConsumerFor i d.consumerOf
    match d.consumerOf with
    | some p => s.setLogConsumer p (some i)
    | none => s
  else s

/-- `unload_service` -/
def unloadService (s : Loader) (i : Nat) : Loader :=
  let c := s.core
  let after := (c.svc i).dependents.filter fun l => (c.link l).depType==.after
  let before := (c.svc i).dependsOn.filter fun l => (c.link l).depType==.before
  let ph := s.reg.nextSvc
  let s := s.push (.unload i)
  let s :=
    if (s.reg.logConsumer i).isSome ∨ after ≠ [] ∨ before ≠ [] then
      (s.addPlaceholder (c.svc i).settings.serviceName).onCore fun c =>
        (c.moveDependents i ph after).moveDependencies i ph before
    else s
  ((s.prepareForUnload i).removeService i).delete i

end Loader

/-- Throw. -/
def throwing {α : Type} (e : LoadError) : Load (Except LoadError α) := pure (.error e)

section
variable (fuel : Nat) (name : String) (reload : Option Nat) (file : File)

/-- The state machine runs within the set. -/
def onWorld {α : Type} (m : M α) : Load α := fun s =>
  ((m s.world).1,{ s with world := (m s.world).2 })

/-- One more `load_service`, for each entry of a directory of dependencies. -/
def readDir (load : String → Load (Except LoadError Nat)) (depType : DependencyType) :
    List String → Draft → Load (Draft × Option LoadError)
  | [], d => pure (d,none)
  | n::ns, d => do
    match ← load n with
    | .ok i => readDir load depType ns { d with depends := d.depends++[(i,depType)] }
    | .error (.notFound _) => readDir load depType ns d
    | .error e => pure (d,some e)

/-- The lines of a description; `load` and `loadEntry` are `load_service` for the
dependencies that lines and directories name. -/
def readLines (load loadEntry : String → Load (Except LoadError Nat)) :
    List Line → Draft → Load (Draft × Option LoadError)
  | [], d => pure (d,none)
  | .dependsOn n kind::ls, d => do
    match ← load n with
    | .ok i => readLines load loadEntry ls { d with depends := d.depends++[(i,kind.depType)] }
    | .error _ => pure (d,some (.load name "could not load dependency."))
  | .dependsDir ns kind::ls, d => do
    let r ← readDir loadEntry kind.depType ns d
    match r.2 with
    | none => readLines load loadEntry ls r.1
    | some e => pure (r.1,some e)
  | .after n::ls, d => readLines load loadEntry ls { d with afterSvcs := d.afterSvcs++[n] }
  | .before n::ls, d => readLines load loadEntry ls { d with beforeSvcs := d.beforeSvcs++[n] }
  | .consumerOf n::ls, d =>
    if n = name then pure (d,some (.load name "service cannot be its own consumer"))
    else readLines load loadEntry ls { d with consumerOfName := some n }
  | .bad description::_, d => pure (d,some (.load name description))

/-- `finalise`: what is wrong with the settings as a whole -/
def finaliseError (d : Draft) : Option LoadError :=
  match file.finalError with
  | some description => some (.load name description)
  | none =>
    if file.settings.recordType ≠ .process ∧ file.settings.recordType ≠ .bgprocess
        ∧ d.consumerOfName ≠ none then
      some (.load name "only a process or bgprocess service can be a log consumer ('consumer-of') another service.")
    else none

/-- The type of a service that has output. -/
def hasOutput (t : ServiceType) : Bool := t==.process || t==.bgprocess || t==.scripted

/-- `check_settings_for_reload`, and the check of the log consumer that follows it -/
def reloadError (s : Loader) (d : Draft) (i : Nat) : Option LoadError :=
  let r := s.core.svc i
  let t := file.settings.recordType
  if r.serviceState ≠ .stopped ∧ t ≠ r.getType then
    some (.load name "cannot change type of non-stopped service.")
  else if r.serviceState ≠ .stopped ∧ r.serviceState ≠ .started then
    some (.load name "cannot alter settings for service which is currently starting/stopping.")
  else if r.serviceState ≠ .stopped ∧ d.depends.any (fun dep =>
      dep.2==.regular && (s.core.svc dep.1).serviceState != .started) then
    some (.load name "cannot add non-started dependency")
  else if r.serviceState ≠ .stopped ∧ (file.altersFixed
      ∨ r.settings.startsOnConsole ≠ file.settings.startsOnConsole
      ∨ r.isProcess ∧ s.reg.logType i ≠ file.logType) then
    some (.load name "cannot change a setting for running service.")
  else if s.reg.logConsumer i ≠ none ∧ (¬hasOutput t ∨ file.logType ≠ .pipe) then
    some (.load name "service has output consumer")
  else none

/-- A reload makes a new record only if the type changes. -/
def createsRecord (s : Loader) : Bool :=
  match reload with
  | some i => file.settings.recordType != (s.core.svc i).getType
  | none => true

/-- The reload of a running process service would change what it consumes. -/
def changesConsumed (s : Loader) (consumed : Option Nat) : Bool :=
  let t := file.settings.recordType
  match reload with
  | some i => (s.core.svc i).serviceState != .stopped && (t==.process || t==.bgprocess)
      && s.reg.consumerFor i != consumed
  | none => false

/-- What is wrong with the service `p` that this one is to consume. -/
def consumedError (s : Loader) (p : Nat) : Option LoadError :=
  let t := (s.core.svc p).getType
  if ¬(hasOutput t ∨ t = .placeholder) then
    some (.load name "the 'consumer-of' setting specifies a service of a type that does not produce output")
  else if t ≠ .placeholder ∧ s.reg.logType p ≠ .pipe then
    some (.load name "the 'consumer-of' setting specifies a service that does not log via a pipe ('log-type = pipe')")
  else if s.reg.logConsumer p ≠ none ∧ s.reg.logConsumer p ≠ reload then
    some (.load name "the 'consumer-of' setting specifies a service that already has a consumer")
  else none

def consumerError (s : Loader) (consumed : Option Nat) : Option LoadError :=
  if changesConsumed reload file s consumed then
    some (.load name "cannot change consumed service ('consumer-of') when not stopped")
  else consumed.bind (consumedError name reload s)

/-- Find the service to be consumed, or make a placeholder for it. -/
def resolveConsumer (d : Draft) : Load (Draft × Option LoadError) := fun s =>
  let consumed := d.consumerOfName.bind s.findRecord
  let d' := { d with consumerOf := consumed }
  match consumerError name reload file s consumed with
  | some e => (some (d',some e),s)
  | none =>
    match d.consumerOfName, consumed with
    | some n, none =>
      (some ({ d with consumerOf := some s.reg.nextSvc },none),s.addPlaceholder n)
    | _, _ => (some (d',none),s)

/-- "after" constraints, which may be on placeholders -/
def resolveAfter : List String → Draft → Load (Draft × Option LoadError)
  | [], d => pure (d,none)
  | n::ns, d => fun s =>
    if n = name then (some (d,some (.cyclicDependency name)),s)
    else match s.findRecord n with
      | some i =>
        if s.reg.isLoading i then (some (d,some (.cyclicDependency name)),s)
        else resolveAfter ns { d with depends := d.depends++[(i,.after)] } s
      | none =>
        resolveAfter ns { d with depends := d.depends++[(s.reg.nextSvc,.after)] }
          (s.addPlaceholder n)

/-- "before" constraints: no dependency of this service may lead to the other one. -/
def resolveBefore : List String → Draft → Load (Draft × Option LoadError)
  | [], d => pure (d,none)
  | n::ns, d => do
    if n = name then pure (d,some (.cyclicDependency name))
    else do
      let s ← get
      match s.findRecord n with
      | some i => do
        let cyclic ← s.core.checkCycle fuel (d.depends.map Prod.fst) i
        if cyclic then pure (d,some (.cyclicDependency name))
        else resolveBefore ns { d with beforeDeps := d.beforeDeps++[i] }
      | none => do
        modify fun s => s.addPlaceholder n
        resolveBefore ns { d with beforeDeps := d.beforeDeps++[s.reg.nextSvc] }

/-- Everything between the last line and the making of the record. -/
def resolve (d : Draft) : Load (Draft × Option LoadError) := do
  let s ← get
  let early := match finaliseError name file d, reload with
    | some e, _ => some e
    | none, some i => reloadError name file s d i
    | none, none => none
  match early with
  | some e => pure (d,some e)
  | none => do
    let r ← resolveConsumer name reload file d
    if r.2.isSome then pure r
    else do
      let r ← resolveAfter name r.1.afterSvcs r.1
      if r.2.isSome then pure r
      else do
        let r ← resolveBefore fuel name r.1.beforeSvcs r.1
        if r.2.isSome then pure r
        else match file.substError with
          | some description => pure (r.1,some (.load name description))
          | none => pure r

/-- `update_depenencies`, once the cycle check has passed: the new links come first, then
the old ones go. -/
def updateDependencies (rec : Rec) (i : Nat) (d : Draft) : M Unit := do
  let c ← getCore
  forEach d.beforeDeps fun j => onCore fun c => c.linkAt j i .before 0 0
  forEach d.depends.zipIdx fun dep => do
    call (.addDep i dep.1.1 dep.1.2)
    onCore fun c => c.addDepAt i dep.1.1 dep.1.2 dep.2
  forEach ((c.svc i).dependsOn.filter fun l => (c.link l).depType != .before) (rmDepLink rec)
  forEach ((c.svc i).dependents.filter fun l => (c.link l).depType==.before) (rmDepLink rec)

/-- The check for cycles when a record is loaded over. -/
def reloadCycle (c : Core) (deps : List Nat) (orig : Nat) : Load Bool :=
  if reload.isSome then c.checkCycle fuel deps orig else pure false

/-- Make the new record, or update the one that is reloaded. `orig` is the record that is
loaded over. -/
def install (fullname : String) (creates : Bool) (orig : Nat) (d : Draft) :
    Load (Except LoadError Nat) := do
  let s ← get
  modify fun s => s.push (.link orig (d.depends.map Prod.fst) d.beforeDeps)
  let cyclic ← reloadCycle fuel reload s.core (d.depends.map Prod.fst) orig
  if cyclic then throwing (.cyclicDependency name)
  else if creates then do
    let s ← get
    let r := s.createRecord file fullname orig d
    modify fun _ => r.2.setConsumer r.1 d
    pure (.ok r.1)
  else do
    onWorld (updateDependencies (calls fuel) orig d)
    onWorld (setSvc orig fun s => { s with settings := { file.settings with
      serviceName := s.settings.serviceName } })
    modify fun s => s.setLogMode orig file.logType
    modify fun s => s.setConsumer orig d
    pure (.ok orig)

end

section
variable (load : String → Option Nat → Load (Except LoadError Nat)) (fuel : Nat) (fullname : String)
  (reload : Option Nat)

/-- Read a description, and find what it names. -/
def gather (name : String) (file : File) : Load (Draft × Option LoadError) := do
  let r ← readLines name (fun n => load n reload) (fun n => load n none) file.lines {}
  if r.2.isSome then pure r else resolve fuel name reload file r.1

/-- `load_reload_service` within its `try`: whatever is thrown, the cleanup is done. -/
def loadTry (dummy : Option Nat) (file : File) : Load (Except LoadError Nat) := do
  let name := baseName fullname
  let r ← gather load fuel reload name file
  match r.2 with
  | some e => do
    modify fun s => s.cleanup dummy r.1
    throwing e
  | none => do
    let s ← get
    let creates := createsRecord reload file s
    match ← install fuel name reload file fullname creates (reload.getD (dummy.getD 0)) r.1 with
    | .error e => do
      modify fun s => s.cleanup dummy r.1
      throwing e
    | .ok i => pure (.ok i)

/-- `load_reload_service`, for a service that has to be read from its description. A new
service has a dummy for a record while it is loaded. -/
def loadFrom (files : String → Except LoadError File) : Load (Except LoadError Nat) := do
  match files (baseName fullname) with
  | .error e => throwing e
  | .ok file =>
    if reload.isSome then loadTry load fuel fullname reload none file
    else do
      let s ← get
      modify fun s => (s.allocate { serviceName := fullname } true).addService s.reg.nextSvc
      loadTry load fuel fullname reload (some s.reg.nextSvc) file

end

/-- `load_reload_service`; `avoid` is the service whose reload asks for this one. -/
def loadReloadService (files : String → Except LoadError File) :
    Nat → String → Option Nat → Option Nat → Load (Except LoadError Nat)
  | 0, _, _, _ => fail
  | fuel+1, fullname, reload, avoid => do
    let s ← get
    let load := fun n avoid => loadReloadService files fuel n none avoid
    match reload, s.findRecord fullname with
    | none, some i =>
      if some i = avoid ∨ s.reg.isLoading i then
        throwing (.cyclicDependency (baseName fullname))
      else if (s.core.svc i).getType ≠ .placeholder then pure (.ok i)
      else loadFrom load fuel fullname (some i) files
    | _, _ => loadFrom load fuel fullname reload files

end Dinit
