import Dinit.Control.Event

namespace Dinit

open Framework Framework.Comp

inductive LogType where
  | none | logfile | buffer | pipe
  deriving DecidableEq, Repr

/-- What loading a service can throw. -/
inductive LoadError where
  | notFound (name : String)
  | cyclicDependency (name : String)
  | load (name description : String)
  deriving DecidableEq, Repr

/-- The kinds of dependency that a description can ask for by its own. -/
inductive DependsKind where
  | regular | milestone | waitsFor
  deriving DecidableEq, Repr

def DependsKind.depType : DependsKind → DependencyType
  | .regular => .regular
  | .milestone => .milestone
  | .waitsFor => .waitsFor

/-- A line of a service description that names other services, or one that is in error.
A directory of dependencies gives the names of its entries. -/
inductive Line where
  | dependsOn (name : String) (kind : DependsKind)
  | dependsDir (names : List String) (kind : DependsKind)
  | after (name : String)
  | before (name : String)
  | consumerOf (name : String)
  | bad (description : String)
  deriving DecidableEq, Repr

/-- A service description. `finalError` is what `finalise` finds wrong with the settings,
`substError` a substitution that fails in the command, and `altersFixed` says that it
differs from the loaded service in a setting that a running service must keep (console
sharing, PID file, utmp entry). -/
structure File where
  lines : List Line := []
  settings : Settings := {}
  logType : LogType := .none
  finalError : Option String := none
  substError : Option String := none
  altersFixed : Bool := false
  isService : settings.recordType≠.placeholder

theorem process_isService : ServiceType.process≠.placeholder := by decide

theorem internal_isService : ServiceType.internal≠.placeholder := by decide

/-- What is known of the records besides: `nextSvc` is the next address to be allocated,
`freed` the records that have been deleted, and `undefined` says that the code has run
into undefined behaviour. -/
structure Registry where
  nextSvc : Nat := 0
  freed : Nat → Bool := fun _ => false
  isLoading : Nat → Bool := fun _ => false
  logConsumer : Nat → Option Nat := fun _ => none
  consumerFor : Nat → Option Nat := fun _ => none
  logType : Nat → LogType := fun _ => .none
  undefined : Bool := false

/-- The points of the loader whose order and arguments a run keeps. -/
inductive LoadCall where
  /-- the record `orig` is to be loaded over, with new links to `depends` and from the
  services that this one comes `before` -/
  | link (orig : Nat) (depends before : List Nat)
  /-- the dependencies of a record are handed over to the one that replaces it -/
  | transfer (orig : Nat)
  /-- a load has failed: its dummy, and the placeholders that it may have made -/
  | cleanup (dummy : Option Nat) (before after consumer : List Nat)
  | replace (orig new : Nat)
  | consume (i : Nat) (consumed : Option Nat)
  | unload (i : Nat)
  deriving DecidableEq, Repr

/-- The service set with its loader. -/
structure Loader where
  world : World
  reg : Registry
  calls : List (LoadCall × Core × Registry)

namespace Loader

/-- A set without services. -/
def empty : Loader where
  world :=
    { core :=
        { svc := fun _ => {}
          link := fun _ => { from_ := 0, to_ := 0 }
          records := []
          nextLink := 0
          propQueue := .empty
          stopQueue := .empty
          consoleQueue := []
          activeServices := 0
          restartEnabled := true
          logRelease := false
          logBusy := false
          now := 0 }
      trace := []
      sys := []
      ctx := [] }
  reg := {}
  calls := []

def core (s : Loader) : Core := s.world.core

def onCore (s : Loader) (f : Core → Core) : Loader := { s with world := s.world.onCore f }

def onReg (s : Loader) (f : Registry → Registry) : Loader := { s with reg := f s.reg }

def push (s : Loader) (k : LoadCall) : Loader := { s with calls := (k,s.core,s.reg)::s.calls }

/-- The code does `f`, which has no defined outcome unless `ok`. -/
def requires (s : Loader) (ok : Bool) (f : Loader → Loader) : Loader :=
  if ok then f s else s.onReg fun r => { r with undefined := true }

/-- `find_service` with placeholders -/
def findRecord (s : Loader) (name : String) : Option Nat :=
  s.core.records.find? fun i => (s.core.svc i).settings.serviceName==name

def isUnrefd (s : Loader) (i : Nat) : Bool :=
  (s.core.svc i).dependsOn.isEmpty && (s.core.svc i).dependents.isEmpty
    && (s.reg.logConsumer i).isNone

/-- A new record, at the next address. -/
def allocate (s : Loader) (settings : Settings) (loading : Bool) : Loader :=
  let i := s.reg.nextSvc
  (s.onCore fun c => c.setSvc i fun _ => { settings := settings }).onReg fun r =>
    { r with nextSvc := i+1, isLoading := fun j => if j=i then loading else r.isLoading j }

def addService (s : Loader) (i : Nat) : Loader :=
  s.onCore fun c => { c with records := c.records++[i] }

/-- `remove_service`: what is not there cannot be erased. -/
def removeService (s : Loader) (i : Nat) : Loader :=
  s.requires (s.core.records.contains i) fun s =>
    s.onCore fun c => { c with records := c.records.erase i }

def setLogConsumer (s : Loader) (i : Nat) (consumer : Option Nat) : Loader :=
  s.onReg fun r => { r with logConsumer := fun j => if j=i then consumer else r.logConsumer j }

def setConsumerFor (s : Loader) (i : Nat) (consumed : Option Nat) : Loader :=
  s.onReg fun r => { r with consumerFor := fun j => if j=i then consumed else r.consumerFor j }

/-- Deletion of a record. A consumer takes itself off the service that it consumes. -/
def delete (s : Loader) (i : Nat) : Loader :=
  let s := match s.reg.consumerFor i with
    | some p => s.setLogConsumer p none
    | none => s
  (s.onCore fun c => c.setSvc i fun _ => {}).onReg fun r =>
    { r with
      freed := fun j => if j=i then true else r.freed j
      isLoading := fun j => if j=i then false else r.isLoading j
      logConsumer := fun j => if j=i then none else r.logConsumer j
      consumerFor := fun j => if j=i then none else r.consumerFor j }

def addPlaceholder (s : Loader) (name : String) : Loader :=
  (s.allocate { serviceName := name } false).addService s.reg.nextSvc

/-- Remove a placeholder that nothing refers to, and delete it if `andDelete`. -/
def dropPlaceholder (s : Loader) (i : Nat) (andDelete : Bool) : Loader :=
  s.requires (!s.reg.freed i) fun s =>
    if (s.core.svc i).getType = .placeholder ∧ s.isUnrefd i then
      if andDelete then (s.removeService i).delete i else s.removeService i
    else s

end Loader
end Dinit
