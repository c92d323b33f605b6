import Dinit.Service.Transition

namespace Dinit

open Framework Framework.Comp

section
variable (rec : Rec)

def stop (i : Nat) (bringDown_ : Bool) : M Unit := do
  let s ← getSvc i
  if s.startExplicit then
    setSvc i fun s => { s with startExplicit := false, requiredBy := s.requiredBy-1 }
  else pure ()
  let s ← getSvc i
  if bringDown_ ∨ s.requiredBy = 0 then setSvc i fun s => { s with desiredState := .stopped }
  else pure ()
  if s.isStartPinned then pure ()
  else do
    if s.requiredBy = 0 then
      onCore fun c => c.setProp i (fun s => { s with propRelease := !s.propRequire }) (!s.propRequire)
    else pure ()
    if (bringDown_ ∨ s.requiredBy = 0) ∧ s.serviceState ≠ .stopped then do
      setSvc i fun s => { s with stopReason := .normal }
      rec.doStop i false
    else pure ()

/-- `restart`: false if the service is in the wrong state for it. -/
def restart (i : Nat) : M Bool := do
  let s ← getSvc i
  if s.serviceState = .started then do
    setSvc i fun s => { s with stopReason := .normal, forceStop := true }
    rec.doStop i true
    return true
  else return false

def pinStart (i : Nat) : M Unit := modify fun w => w.pinStart i

def pinStop (i : Nat) : M Unit := setSvc i fun s => { s with pinnedStopped := true }

/-- The started half of `unpin`; false if the service stays pinned by a dependent. -/
def unpinStarted (i : Nat) : M Bool := do
  modify fun w => w.unpinStart i
  let s ← getSvc i
  if s.deptPinnedStarted then return false
  else do
    if s.serviceState = .started then do
      if s.requiredBy = 0 then
        onCore fun c => c.setProp i (fun s => { s with propRelease := true }) true
      else pure ()
      if s.desiredState = .stopped ∨ s.forceStop then do
        rec.doStop i false
        rec.processQueues
      else pure ()
    else pure ()
    return true

def unpin (i : Nat) : M Unit := do
  call (.unpin i)
  let s ← getSvc i
  let goOn ← if s.pinnedStarted then unpinStarted rec i else pure true
  if goOn then setSvc i fun s => { s with pinnedStopped := false } else pure ()

def setTrigger (i : Nat) (newTrigger : Bool) : M Unit := do
  setSvc i fun s => { s with isTriggered := newTrigger }
  let s ← getSvc i
  if s.isTriggered ∧ s.serviceState = .starting ∧ ¬s.waitingForDeps then started rec i
  else pure ()

def startDep (l : Nat) : M Unit := do
  call (.startDep l)
  let d ← getLink l
  if ¬d.holdingAcq then onCore fun c => c.acquire l else pure ()

namespace Core

/-- A new link, at the given places of `depends_on` and of `dependents`. -/
def linkAt (c : Core) (from_ to_ : Nat) (depType : DependencyType) (place dptPlace : Nat) : Core :=
  let l := c.nextLink
  let c := { c with nextLink := l+1 }
  let c := c.setLink l fun _ => { from_ := from_, to_ := to_, depType := depType }
  let c := c.setSvc from_ fun s => { s with dependsOn := insertAt s.dependsOn place l }
  c.setSvc to_ fun s => { s with dependents := insertAt s.dependents dptPlace l }

/-- `add_dep` at a place of `depends_on`: the new link holds its target if its source is
active. -/
def addDepAt (c : Core) (from_ to_ : Nat) (depType : DependencyType) (place : Nat) : Core :=
  let f := c.svc from_
  let t := c.svc to_
  let c' := c.linkAt from_ to_ depType place t.dependents.length
  if depType ≠ .before ∧ depType ≠ .after
      ∧ (depType = .regular ∨ t.serviceState = .started ∨ t.serviceState = .starting)
      ∧ (f.serviceState = .starting ∨ f.serviceState = .started) then
    c'.acquire c.nextLink
  else c'

/-- `add_dep` -/
def addDep (c : Core) (from_ to_ : Nat) (depType : DependencyType) : Core :=
  c.addDepAt from_ to_ depType (c.svc from_).dependsOn.length

/-- Take a link off both lists. -/
def unlink (c : Core) (l : Nat) : Core :=
  let d := c.link l
  let c := c.setSvc d.to_ fun s => { s with dependents := s.dependents.erase l }
  c.setSvc d.from_ fun s => { s with dependsOn := s.dependsOn.erase l }

/-- `rm_dep`, up to the stop that the release of the target may issue -/
def rmDep (c : Core) (l : Nat) : Core :=
  if (c.link l).holdingAcq then (c.unlink l).release (c.link l).to_ else c.unlink l

end Core

def addDep (from_ to_ : Nat) (depType : DependencyType) : M Nat := do
  call (.addDep from_ to_ depType)
  let c ← getCore
  onCore fun c => c.addDep from_ to_ depType
  return c.nextLink

/-- `rm_dep` of one link. The code erases it from `depends_on` at the very end; nothing
that the release calls reads that list. -/
def rmDepLink (l : Nat) : M Unit := do
  call (.rmDep l)
  let d ← getLink l
  onCore fun c => c.rmDep l
  if d.holdingAcq then stopReleased rec d.to_ else pure ()

/-- The link of the given type between two services. -/
def findDep (c : Core) (from_ to_ : Nat) (depType : DependencyType) : Option Nat :=
  (c.svc from_).dependsOn.find? fun l => (c.link l).to_==to_ && (c.link l).depType==depType

def rmDep (from_ to_ : Nat) (depType : DependencyType) : M Unit := do
  let c ← getCore
  match findDep c from_ to_ depType with
  | some l => rmDepLink rec l
  | none => pure ()

/-- The search of `add_service_dep` for a circular dependency: whether a service in
`queue` leads to `from_`. `marks` have been queued already. -/
def leadsTo (c : Core) (from_ : Nat) : Nat → List Nat → List Nat → M Bool
  | 0, _, _ => fail
  | _+1, _, [] => pure false
  | fuel+1, marks, sr::queue =>
    let tos := (c.svc sr).dependsOn.map fun l => (c.link l).to_
    if tos.contains from_ then pure true
    else
      let new := (tos.filter fun t => !marks.contains t).eraseDups
      leadsTo c from_ fuel (new++marks) (new.reverse++queue)

/-- STARTSERVICE -/
def startService (i : Nat) (pin : Bool) : M Unit := do
  let s ← getSvc i
  let c ← getCore
  if c.isShuttingDown then pure ()
  else if (s.serviceState = .stopped ∨ s.serviceState = .stopping) ∧ s.pinnedStopped then pure ()
  else do
    if pin then pinStart i else pure ()
    modify fun w => w.start i
    rec.processQueues

/-- `check_dependents`: a REGULAR dependent holds the service. -/
def checkDependents (c : Core) (i : Nat) : Bool :=
  (c.svc i).dependents.any fun l => (c.link l).depType==.regular && (c.link l).holdingAcq

/-- STOPSERVICE -/
def stopService (i : Nat) (pin gentle restart_ : Bool) : M Unit := do
  let s ← getSvc i
  let c ← getCore
  if restart_ ∧ c.isShuttingDown then pure ()
  else if (s.serviceState = .started ∨ s.serviceState = .starting) ∧ s.isStartPinned then pure ()
  else if gentle ∧ checkDependents c i then pure ()
  else if restart_ then do
    let ok ← restart rec i
    if ok then rec.processQueues else pure ()
  else do
    if pin then pinStop i else pure ()
    stop rec i true
    forcedStop i
    rec.processQueues

/-- WAKESERVICE -/
def wakeService (i : Nat) (pin : Bool) : M Unit := do
  let s ← getSvc i
  let c ← getCore
  if c.isShuttingDown then pure ()
  else if (s.serviceState = .stopped ∨ s.serviceState = .stopping) ∧ s.pinnedStopped then pure ()
  else do
    forEach s.dependents fun l => do
      let d ← getLink l
      if ¬d.isOnlyOrdering then do
        let f ← getSvc d.from_
        if f.serviceState = .started ∨ f.serviceState = .starting then startDep l else pure ()
      else pure ()
    if pin then pinStart i else pure ()
    rec.processQueues

/-- RELEASESERVICE -/
def releaseService (i : Nat) (pin : Bool) : M Unit := do
  if pin then pinStop i else pure ()
  stop rec i false
  rec.processQueues

/-- UNPINSERVICE -/
def unpinService (i : Nat) : M Unit := do
  unpin rec i
  rec.processQueues

/-- ADD_DEP, and ENABLESERVICE with `enable`. A dependency type that is not allowed is
answered with BADREQ and then handled like the others. -/
def addServiceDep (fuel from_ to_ : Nat) (depType : DependencyType) (enable : Bool) : M Unit := do
  let f ← getSvc from_
  let t ← getSvc to_
  if depType = .regular ∧ f.serviceState ≠ .stopped ∧ t.serviceState ≠ .started then pure ()
  else do
    let c ← getCore
    let circular ← leadsTo c from_ fuel [] [to_]
    if circular then pure ()
    else do
      let l ← match findDep c from_ to_ depType with
        | some l => pure l
        | none => do
          let l ← addDep from_ to_ depType
          rec.processQueues
          pure l
      let f ← getSvc from_
      let c ← getCore
      if enable ∧ (f.serviceState = .started ∨ f.serviceState = .starting)
          ∧ ¬c.isShuttingDown then do
        startDep l
        rec.processQueues
      else pure ()

/-- RM_DEP -/
def rmServiceDep (from_ to_ : Nat) (depType : DependencyType) : M Unit := do
  rmDep rec from_ to_ depType
  rec.processQueues

/-- SETTRIGGER -/
def processSetTrigger (i : Nat) (trigger : Bool) : M Unit := do
  setTrigger rec i trigger
  rec.processQueues

/-- `stop_all_services` -/
def stopAllServices : M Unit := do
  onCore fun c => { c with restartEnabled := false }
  let c ← getCore
  forEach c.records fun i => do
    stop rec i false
    unpin rec i
  rec.processQueues

end
end Dinit
