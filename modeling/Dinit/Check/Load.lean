import Dinit.Framework.Loop
import Dinit.Load.Registry

namespace Dinit

open Framework

namespace Check

/-- A service description, as `load_service` reads it; a name that is empty there is `none`. -/
structure Description (ν : Type) where
  serviceType : ServiceType
  chainToName : Option ν
  depends : List (ν × DependencyType)
  beforeSvcs : List ν
  afterSvcs : List ν
  consumerOfName : Option ν
  logType : LogType

/-- `service_record` -/
structure ServiceRecord (ν : Type) where
  name : ν
  serviceType : ServiceType
  chainTo : Option ν
  dependencies : List (ν × DependencyType)
  beforeSvcs : List ν
  afterSvcs : List ν
  consumerOfName : Option ν
  logType : LogType

/-- `service_set`, in the order of the names -/
abbrev ServiceSet (ν : Type) := List (ν × ServiceRecord ν)

/-- `services_to_check`, the index into it, and what has been loaded -/
structure Loading (ν : Type) where
  servicesToCheck : List ν
  serviceSet : ServiceSet ν
  index : Nat

section
variable {ν : Type} [DecidableEq ν]

/-- The constructor of `service_record`: it does not store `chain_to_p`. -/
def newRecord (name : ν) (d : Description ν) : ServiceRecord ν :=
  ⟨name,d.serviceType,none,d.depends,d.beforeSvcs,d.afterSvcs,d.consumerOfName,d.logType⟩

def assign (less : ν → ν → Bool) (name : ν) (sr : ServiceRecord ν) : ServiceSet ν → ServiceSet ν
  | [] => [(name,sr)]
  | (k,r)::set =>
    if name=k then (name,sr)::set
    else if less name k then (name,sr)::(k,r)::set
    else (k,r)::assign less name sr set

/-- `load_service`: there is none when it throws `service_load_exc`. -/
def loadService (descriptions : List (ν × Description ν)) (set : ServiceSet ν) (name : ν) :
    Option (ServiceRecord ν) :=
  match set.lookup name with
  | some sr => some sr
  | none => (descriptions.lookup name).map (newRecord name)

/-- Those of the names are added that are neither known nor to be checked already. -/
def addNew (known : ν → Bool) (names servicesToCheck : List ν) : List ν :=
  names.foldl (fun l name => if known name || l.contains name then l else l++[name]) servicesToCheck

/-- What a service that has been loaded adds to the services to check. The service that it consumes is
added without being looked for. -/
def addReferences (set : ServiceSet ν) (sr : ServiceRecord ν) (servicesToCheck : List ν) : List ν :=
  let l := addNew (fun name => (set.lookup name).isSome) (sr.dependencies.map (·.1)) servicesToCheck
  let l := addNew (fun _ => false) sr.chainTo.toList l
  let l := addNew (fun _ => false) sr.beforeSvcs l
  let l := addNew (fun _ => false) sr.afterSvcs l
  l++sr.consumerOfName.toList

/-- One turn of the loop over `services_to_check` -/
def loadTurn (less : ν → ν → Bool) (descriptions : List (ν × Description ν)) (s : Loading ν) :
    Turn (Loading ν) (Loading ν) :=
  match s.servicesToCheck[s.index]? with
  | none => .stop s
  | some name =>
    match loadService descriptions s.serviceSet name with
    | none => .next {s with index := s.index+1}
    | some sr =>
      let set := assign less name sr s.serviceSet
      .next ⟨addReferences set sr s.servicesToCheck,set,s.index+1⟩

/-- The names that have been given to `load_service` -/
def Loading.attempted (s : Loading ν) : List ν := s.servicesToCheck.take s.index

end

end Check

end Dinit
