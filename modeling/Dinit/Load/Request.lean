import Dinit.Load.Service
import Dinit.Run.Reachable

namespace Dinit

open Framework Framework.Comp

/-- What is asked of a service set: loading, reloading and unloading of services, and the
events that it handles. -/
inductive Request where
  | event (e : Event) (now : Nat) (sys : List SysResult)
  | load (name : String)
  | reload (i : Nat)
  | unload (i : Nat)
  deriving Repr

namespace Request

/-- Requests name services by handle, which placeholders do not have. -/
def enabled (s : Loader) : Request → Bool
  | .event e _ _ => e.enabled s.core
  | .load _ => true
  | .reload i | .unload i => s.core.records.contains i && (s.core.svc i).getType != .placeholder

/-- Handle a request, with the service descriptions as they are now. -/
def handle (files : String → Except LoadError File) (fuel : Nat) : Request → Load Unit
  | .event e now sys => fun s =>
    onWorld (Dinit.handle fuel e) { s with world := s.world.poll now sys }
  | .load name => do
    let _ ← loadReloadService files fuel name none none
  | .reload i => do
    let s ← get
    match ← loadReloadService files fuel (s.core.svc i).settings.serviceName (some i) (some i) with
    | .ok _ => onWorld (calls fuel).processQueues
    | .error _ => pure ()
  | .unload i => do
    let s ← get
    if ((s.core.svc i).dependents.all fun l => (s.core.link l).isOnlyOrdering)
        ∧ (s.core.svc i).serviceState = .stopped then
      modify fun s => s.unloadService i
    else pure ()

end Request
end Dinit
