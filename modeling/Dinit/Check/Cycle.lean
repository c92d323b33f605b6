import Dinit.Check.Load

namespace Dinit

open Framework

namespace Check

/-- What the secondary checks report of a service and the one that it consumes -/
inductive Problem (ν : Type)
  | notPipe (name consumed : ν)
  | notProcess (name consumed : ν)

/-- The search: which services are marked, and `service_chain`, with its last entry first -/
structure Search (ν : Type) where
  visited : ν → Bool
  cycleFree : ν → Bool
  chain : List (ν × Nat)

section
variable {ν : Type} [DecidableEq ν]

/-- The check of `consumer-of`. There is no result where the service that is consumed has not been
loaded: the warning then takes its name from `service_set.end()`. -/
def checkConsumer (set : ServiceSet ν) (name : ν) (sr : ServiceRecord ν) : Option (List (Problem ν)) :=
  match sr.consumerOfName with
  | none => some []
  | some c =>
    match set.lookup c with
    | none => none
    | some consumed =>
      if consumed.logType≠.pipe then some [.notPipe name c]
      else if consumed.serviceType=.process ∨ consumed.serviceType=.bgprocess ∨
        consumed.serviceType=.scripted then some []
      else some [.notProcess name c]

/-- `dependencies.emplace_back` for a service, if it has been loaded -/
def addDependency (name : ν) (dep : ν × DependencyType) (set : ServiceSet ν) : ServiceSet ν :=
  set.map fun p =>
    if p.1=name then (p.1,{p.2 with dependencies := p.2.dependencies++[dep]}) else p

/-- Ordering links as dependencies -/
def addOrdering (name : ν) (sr : ServiceRecord ν) (set : ServiceSet ν) : ServiceSet ν :=
  let set := sr.beforeSvcs.foldl (fun set b => addDependency b (name,.before) set) set
  sr.afterSvcs.foldl (fun set a =>
    if (set.lookup a).isSome then addDependency name (a,.after) set else set) set

/-- The loop over `service_set` -/
def secondaryChecks : ServiceSet ν → ServiceSet ν → Option (ServiceSet ν × List (Problem ν))
  | [],set => some (set,[])
  | (name,sr)::rest,set =>
    (checkConsumer set name sr).bind fun problems =>
      (secondaryChecks rest (addOrdering name sr set)).map fun r => (r.1,problems++r.2)

/-- The dependencies of a service, where one that has not been loaded is `nullptr` -/
def links (set : ServiceSet ν) (name : ν) : List (Option ν) :=
  match set.lookup name with
  | none => []
  | some sr => sr.dependencies.map fun dep => if (set.lookup dep.1).isSome then some dep.1 else none

def mark (flags : ν → Bool) (name : ν) : ν → Bool := fun n => n=name || flags n

/-- `++prev_index` -/
def nextIndex : List (ν × Nat) → List (ν × Nat)
  | [] => []
  | (name,index)::rest => (name,index+1)::rest

/-- Clear the entries before the first one of this service. -/
def fromFirst (name : ν) (chain : List (ν × Nat)) : List (ν × Nat) :=
  (chain.reverse.dropWhile fun p => p.1≠name).reverse

/-- One turn of the depth first traversal. It ends with a cycle in the chain, or with no chain. -/
def searchTurn (links : ν → List (Option ν)) (s : Search ν) : Turn (Search ν) (Search ν) :=
  match s.chain with
  | [] => .stop s
  | (name,index)::rest =>
    match (links name)[index]? with
    | none =>
      let s := {s with cycleFree := mark s.cycleFree name,chain := nextIndex rest}
      if rest.length=0 then .stop s else .next s
    | some none => .next {s with chain := (name,index+1)::rest}
    | some (some dep) =>
      if s.visited dep && !s.cycleFree dep then .stop {s with chain := fromFirst dep s.chain}
      else .next {s with visited := mark s.visited dep,chain := (dep,0)::s.chain}

/-- The loop over the services that were named; each traversal may take so many turns. -/
def searchRoots (fuel : Nat) (set : ServiceSet ν) : List ν → Search ν → Option (Search ν)
  | [],s => some s
  | root::roots,s =>
    if (set.lookup root).isNone || s.visited root then searchRoots fuel set roots s
    else
      match loop (searchTurn (links set)) fuel {s with chain := [(root,0)]} with
      | none => none
      | some s => if s.chain.length=0 then searchRoots fuel set roots s else some s

/-- The cycle that is printed: each service, with the dependency that leads on -/
def report (set : ServiceSet ν) (chain : List (ν × Nat)) : List (ν × Option (ν × DependencyType)) :=
  chain.reverse.map fun p => (p.1,(set.lookup p.1).bind fun sr => sr.dependencies[p.2]?)

/-- What `dinit-check` does after loading -/
def checkCycles (fuel : Nat) (num : Nat) (st : Loading ν) :
    Option (List (Problem ν) × List (ν × Option (ν × DependencyType))) :=
  (secondaryChecks st.serviceSet st.serviceSet).bind fun r =>
    (searchRoots fuel r.1 (st.servicesToCheck.take num) ⟨fun _ => false,fun _ => false,[]⟩).map
      fun s => (r.2,report r.1 s.chain)

end

end Check

end Dinit
