import Dinit.Safety.CheckLoad
import Dinit.Safety.CheckSearch

namespace Dinit

open Framework Relation

namespace Check

variable {ν : Type} [DecidableEq ν]

section
variable (set : ServiceSet ν)

def isLoaded (name : ν) : Bool := (set.lookup name).isSome

/-- The dependencies that follow for one service from the ordering links of another -/
def ordering (loaded : ν → Bool) (p : ν × ServiceRecord ν) (a : ν) : List (ν × DependencyType) :=
  (p.2.beforeSvcs.filter (·=a)).map (fun _ => (p.1,.before))++
    if a=p.1 then (p.2.afterSvcs.filter loaded).map fun b => (b,.after) else []

/-- All dependencies of a service, in the order in which they are looked at -/
def allDependencies (a : ν) : List (ν × DependencyType) :=
  match set.lookup a with
  | none => []
  | some sr => sr.dependencies++set.flatMap fun p => ordering (isLoaded set) p a

def allLinks (a : ν) : List (Option ν) :=
  (allDependencies set a).map fun dep => if isLoaded set dep.1 then some dep.1 else none

/-- The graph over the loaded services: dependencies, and what follows from `before` and `after` -/
def Edge (a b : ν) : Prop :=
  ∃ ra rb,set.lookup a=some ra ∧ set.lookup b=some rb ∧
    (b∈ra.dependencies.map (·.1) ∨ a∈rb.beforeSvcs ∨ b∈ra.afterSvcs)

/-- The dependency that is printed is one of the graph, and of the kind that is printed. -/
def Indicated (a : ν) (dep : ν × DependencyType) : Prop :=
  ∃ ra rb,set.lookup a=some ra ∧ set.lookup dep.1=some rb ∧
    (dep∈ra.dependencies ∨ dep.2=.before ∧ a∈rb.beforeSvcs ∨ dep.2=.after ∧ dep.1∈ra.afterSvcs)

/-- The report is a cycle: each service leads to the next by the dependency that is printed, the last
to the first, and none is repeated. -/
structure SimpleCycle (cycle : List (ν × Option (ν × DependencyType))) : Prop where
  nodup : (cycle.map (·.1)).Nodup
  joined : ∀ k a d,cycle[k]?=some (a,d) → ∃ dep,d=some dep ∧ Indicated set a dep ∧
    (cycle[(k+1)%cycle.length]?).map (·.1)=some dep.1

end

/-- A cycle is reported just if there is one, and then it is a simple one. -/
def FindsCycle (num : Nat) (st : Loading ν) : Prop :=
  ∃ fuel problems cycle,checkCycles fuel num st=some (problems,cycle) ∧
    (cycle≠[] ↔ ∃ a,TransGen (Edge st.serviceSet) a a) ∧
    (cycle≠[] → SimpleCycle st.serviceSet cycle)

/-- When the check is right: each service that is consumed is loaded; a cycle can be reached from one
of the named services; and the first such service does not have itself as the first of its links that
lead to a cycle. -/
structure CycleSeen (set : ServiceSet ν) (named : List ν) : Prop where
  consumed : ∀ p∈set,∀ c,p.2.consumerOfName=some c → isLoaded set c=true
  reached : (∃ a,TransGen (Edge set) a a) → ∃ root∈named,LeadsToCycle (Edge set) root
  other : ∀ front root back,named=front++root::back → (∀ n∈front,¬LeadsToCycle (Edge set) n) →
    LeadsToCycle (Edge set) root → ¬∃ i,FirstToCycle (allLinks set) root i root

section
variable {set set' set'' : ServiceSet ν} {f g : ν → List (ν × DependencyType)}

/-- The records of one set have more dependencies than those of another. -/
def Extends (set set' : ServiceSet ν) (f : ν → List (ν × DependencyType)) : Prop :=
  ∀ a,set'.lookup a=(set.lookup a).map fun sr => {sr with dependencies := sr.dependencies++f a}

theorem Extends.refl (set : ServiceSet ν) : Extends set set fun _ => [] := by
  intro a
  cases set.lookup a with
  | none => rfl
  | some sr => simp

theorem Extends.trans (h : Extends set set' f) (h' : Extends set' set'' g) :
    Extends set set'' fun a => f a++g a := by
  intro a
  rw [h' a,h a]
  cases set.lookup a with
  | none => rfl
  | some sr => simp

theorem Extends.loaded (h : Extends set set' f) : isLoaded set'=isLoaded set := by
  funext a
  unfold isLoaded
  rw [h a,Option.isSome_map]

theorem Extends.congr (h : Extends set set' f) (hfg : ∀ a,f a=g a) : Extends set set' g := by
  intro a
  rw [h a,hfg a]

theorem addDependency_extends (name : ν) (dep : ν × DependencyType) (set : ServiceSet ν) :
    Extends set (addDependency name dep set) fun a => if name=a then [dep] else [] := by
  intro a
  induction set with
  | nil => rfl
  | cons p set ih =>
    obtain ⟨k,sr⟩ := p
    have htail : List.lookup a (addDependency name dep ((k,sr)::set))=
        if a=k then some (if k=name then {sr with dependencies := sr.dependencies++[dep]} else sr)
        else List.lookup a (addDependency name dep set) := by
      unfold addDependency
      rw [List.map_cons]
      by_cases hk : k=name
      · rw [if_pos hk,lookup_cons_ite,if_pos hk]
      · rw [if_neg hk,lookup_cons_ite,if_neg hk]
    rw [htail,ih,lookup_cons_ite]
    by_cases hak : a=k
    · rw [if_pos hak,if_pos hak]
      by_cases hk : k=name
      · rw [if_pos hk]
        simp [hak,hk]
      · rw [if_neg hk]
        simp [hak,Ne.symm hk]
    · rw [if_neg hak,if_neg hak]

theorem beforeLinks_extends (name : ν) (bs : List ν) (set : ServiceSet ν) :
    Extends set (bs.foldl (fun set b => addDependency b (name,.before) set) set) fun a =>
      (bs.filter (·=a)).map fun _ => (name,.before) := by
  induction bs generalizing set with
  | nil => exact .refl set
  | cons b bs ih =>
    rw [List.foldl_cons]
    refine ((addDependency_extends b (name,.before) set).trans (ih _)).congr fun a => ?_
    by_cases hb : b=a
    · simp [hb]
    · simp [hb]

theorem afterLinks_extends (name : ν) (as : List ν) (set : ServiceSet ν) :
    Extends set (as.foldl (fun set a =>
      if (set.lookup a).isSome then addDependency name (a,.after) set else set) set) fun a =>
      if a=name then (as.filter (isLoaded set)).map fun b => (b,.after) else [] := by
  induction as generalizing set with
  | nil =>
    refine (Extends.refl set).congr fun a => ?_
    simp
  | cons b as ih =>
    rw [List.foldl_cons]
    by_cases hb : (set.lookup b).isSome=true
    · rw [if_pos hb]
      have hadd := addDependency_extends name (b,.after) set
      refine (hadd.trans (ih _)).congr fun a => ?_
      have hloaded : isLoaded set b=true := hb
      rw [hadd.loaded,List.filter_cons_of_pos hloaded]
      by_cases ha : a=name
      · simp [ha]
      · simp [ha,Ne.symm ha]
    · rw [if_neg hb]
      refine (ih set).congr fun a => ?_
      have hloaded : ¬isLoaded set b=true := hb
      rw [List.filter_cons_of_neg hloaded]

theorem addOrdering_extends (p : ν × ServiceRecord ν) (set : ServiceSet ν) :
    Extends set (addOrdering p.1 p.2 set) (ordering (isLoaded set) p) := by
  have hbefore := beforeLinks_extends p.1 p.2.beforeSvcs set
  refine (hbefore.trans (afterLinks_extends p.1 p.2.afterSvcs _)).congr fun a => ?_
  rw [hbefore.loaded]
  rfl

/-- The loop over the services adds what follows from the ordering links, in the order of the names. -/
theorem secondaryChecks_extends {rest : ServiceSet ν} {problems : List (Problem ν)}
    (h : secondaryChecks rest set=some (set',problems)) :
    Extends set set' fun a => rest.flatMap fun p => ordering (isLoaded set) p a := by
  induction rest generalizing set problems with
  | nil =>
    cases h
    exact .refl _
  | cons p rest ih =>
    obtain ⟨pr,-,h⟩ := Option.bind_eq_some_iff.mp h
    obtain ⟨r,hr,heq⟩ := Option.map_eq_some_iff.mp h
    cases heq
    have hadd := addOrdering_extends p set
    refine (hadd.trans (ih hr)).congr fun a => ?_
    rw [hadd.loaded,List.flatMap_cons]

theorem checkConsumer_isSome (set : ServiceSet ν) (name : ν) (sr : ServiceRecord ν) :
    (checkConsumer set name sr).isSome=true ↔
      ∀ c,sr.consumerOfName=some c → isLoaded set c=true := by
  unfold checkConsumer isLoaded
  cases hcon : sr.consumerOfName with
  | none => exact iff_of_true rfl fun _ h => nomatch h
  | some c =>
    dsimp only
    have hiff : (∀ d,some c=some d → (set.lookup d).isSome=true) ↔ (set.lookup c).isSome=true :=
      ⟨fun h => h c rfl,fun h d hd => by cases hd; exact h⟩
    rw [hiff]
    cases hc : set.lookup c with
    | none => exact Iff.rfl
    | some consumed =>
      refine iff_of_true ?_ rfl
      dsimp only
      split
      · rfl
      · split
        · rfl
        · rfl

/-- There is a result if each service that is consumed has been loaded. -/
theorem secondaryChecks_isSome (rest : ServiceSet ν) (set : ServiceSet ν) :
    (secondaryChecks rest set).isSome=true ↔
      ∀ p∈rest,∀ c,p.2.consumerOfName=some c → isLoaded set c=true := by
  induction rest generalizing set with
  | nil => simp [secondaryChecks]
  | cons p rest ih =>
    have hcheck := checkConsumer_isSome set p.1 p.2
    have hrest := ih (addOrdering p.1 p.2 set)
    rw [(addOrdering_extends p set).loaded] at hrest
    have heq : secondaryChecks (p::rest) set=(checkConsumer set p.1 p.2).bind fun problems =>
        (secondaryChecks rest (addOrdering p.1 p.2 set)).map fun r => (r.1,problems++r.2) := rfl
    rw [List.forall_mem_cons,← hcheck,← hrest,heq]
    cases checkConsumer set p.1 p.2 with
    | none => simp
    | some problems => simp

/-- After the secondary checks, the dependencies are all those of the graph. -/
theorem Extends.links (h : Extends set set' fun a => set.flatMap fun p => ordering (isLoaded set) p a) :
    links set'=allLinks set := by
  funext a
  unfold Check.links allLinks allDependencies
  have hloaded : ∀ b,(set'.lookup b).isSome=isLoaded set b := fun b => congrFun h.loaded b
  rw [h a]
  cases set.lookup a with
  | none => rfl
  | some sr =>
    dsimp only [Option.map_some]
    apply List.map_congr_left
    intro dep _
    rw [hloaded]

theorem mem_ordering {loaded : ν → Bool} {p : ν × ServiceRecord ν} {a : ν} {dep : ν × DependencyType} :
    dep∈ordering loaded p a ↔ (a∈p.2.beforeSvcs ∧ dep=(p.1,.before)) ∨
      (a=p.1 ∧ dep.1∈p.2.afterSvcs ∧ loaded dep.1=true ∧ dep.2=.after) := by
  unfold ordering
  rw [List.mem_append]
  constructor
  · intro h
    obtain h | h := h
    · obtain ⟨b,hb,heq⟩ := List.mem_map.mp h
      obtain ⟨hmem,hba⟩ := List.mem_filter.mp hb
      rw [decide_eq_true_iff] at hba
      rw [hba] at hmem
      exact .inl ⟨hmem,heq.symm⟩
    · by_cases ha : a=p.1
      · rw [if_pos ha] at h
        obtain ⟨b,hb,heq⟩ := List.mem_map.mp h
        obtain ⟨hmem,hload⟩ := List.mem_filter.mp hb
        rw [← heq]
        exact .inr ⟨ha,hmem,hload,rfl⟩
      · rw [if_neg ha] at h
        cases h
  · intro h
    obtain ⟨hmem,heq⟩ | ⟨ha,hmem,hload,hkind⟩ := h
    · refine .inl (List.mem_map.mpr ⟨a,List.mem_filter.mpr ⟨hmem,decide_eq_true rfl⟩,heq.symm⟩)
    · rw [if_pos ha]
      refine .inr (List.mem_map.mpr ⟨dep.1,List.mem_filter.mpr ⟨hmem,hload⟩,?_⟩)
      rw [← hkind]

/-- The entries of a set, each under its name -/
def Named (set : ServiceSet ν) : Prop := ∀ p∈set,set.lookup p.1=some p.2

theorem mem_of_lookup {a : ν} {sr : ServiceRecord ν} (h : set.lookup a=some sr) : (a,sr)∈set := by
  obtain ⟨l₁,l₂,hl,-⟩ := List.lookup_eq_some_iff.mp h
  rw [hl]
  exact List.mem_append_right _ (List.mem_cons_self ..)

/-- What is looked at are just the dependencies that are to be printed. -/
theorem indicated_iff (hset : Named set) {a : ν} {dep : ν × DependencyType} :
    (dep∈allDependencies set a ∧ isLoaded set dep.1=true) ↔ Indicated set a dep := by
  unfold allDependencies Indicated isLoaded
  cases ha : set.lookup a with
  | none => simp
  | some ra =>
    dsimp only
    rw [List.mem_append,List.mem_flatMap]
    constructor
    · intro h
      obtain ⟨hdep,hload⟩ := h
      obtain ⟨rb,hb⟩ := Option.isSome_iff_exists.mp hload
      refine ⟨ra,rb,rfl,hb,?_⟩
      obtain hdep | ⟨p,hp,hord⟩ := hdep
      · exact .inl hdep
      · obtain ⟨hmem,heq⟩ | ⟨hap,hmem,-,hkind⟩ := mem_ordering.mp hord
        · have hpb := hset p hp
          rw [heq] at hb
          rw [hpb] at hb
          cases hb
          exact .inr (.inl ⟨by rw [heq],hmem⟩)
        · have hpa := hset p hp
          rw [← hap,ha] at hpa
          cases hpa
          exact .inr (.inr ⟨hkind,hmem⟩)
    · intro h
      obtain ⟨ra',rb,hra,hb,hcase⟩ := h
      cases hra
      refine ⟨?_,by rw [hb]; rfl⟩
      obtain hdep | ⟨hkind,hmem⟩ | ⟨hkind,hmem⟩ := hcase
      · exact .inl hdep
      · refine .inr ⟨(dep.1,rb),mem_of_lookup hb,mem_ordering.mpr (.inl ⟨hmem,?_⟩)⟩
        rw [← hkind]
      · refine .inr ⟨(a,ra),mem_of_lookup ha,mem_ordering.mpr (.inr ⟨rfl,hmem,?_,hkind⟩)⟩
        rw [hb]
        rfl

theorem linkTo_iff (hset : Named set) : LinkTo (allLinks set)=Edge set := by
  funext a b
  apply propext
  unfold LinkTo allLinks
  rw [List.mem_map]
  constructor
  · intro h
    obtain ⟨dep,hdep,heq⟩ := h
    by_cases hload : isLoaded set dep.1=true
    · rw [if_pos hload] at heq
      cases heq
      obtain ⟨ra,rb,ha,hb,hcase⟩ := (indicated_iff hset).mp ⟨hdep,hload⟩
      refine ⟨ra,rb,ha,hb,?_⟩
      obtain hin | ⟨-,hin⟩ | ⟨-,hin⟩ := hcase
      · exact .inl (List.mem_map_of_mem hin)
      · exact .inr (.inl hin)
      · exact .inr (.inr hin)
    · rw [if_neg hload] at heq
      cases heq
  · intro h
    obtain ⟨ra,rb,ha,hb,hcase⟩ := h
    have hind : ∃ dep : ν × DependencyType,dep.1=b ∧ Indicated set a dep := by
      obtain hin | hin | hin := hcase
      · obtain ⟨dep,hdep,rfl⟩ := List.mem_map.mp hin
        exact ⟨dep,rfl,ra,rb,ha,hb,.inl hdep⟩
      · exact ⟨(b,.before),rfl,ra,rb,ha,hb,.inr (.inl ⟨rfl,hin⟩)⟩
      · exact ⟨(b,.after),rfl,ra,rb,ha,hb,.inr (.inr ⟨rfl,hin⟩)⟩
    obtain ⟨dep,rfl,hdep⟩ := hind
    obtain ⟨hmem,hload⟩ := (indicated_iff hset).mpr hdep
    exact ⟨dep,hmem,if_pos hload⟩

theorem searchRoots_mono {n m : Nat} {roots : List ν} {s s' : Search ν}
    (h : searchRoots n set roots s=some s') (hle : n≤ m) : searchRoots m set roots s=some s' := by
  induction roots generalizing s with
  | nil => exact h
  | cons root roots ih =>
    unfold searchRoots at h ⊢
    split
    · next hskip =>
      rw [if_pos hskip] at h
      exact ih h
    · next hskip =>
      rw [if_neg hskip] at h
      cases hloop : loop (searchTurn (links set)) n {s with chain := [(root,0)]} with
      | none =>
        rw [hloop] at h
        cases h
      | some s1 =>
        rw [hloop] at h
        rw [loop_mono hloop hle]
        dsimp only at h ⊢
        split
        · next hnil =>
          rw [if_pos hnil] at h
          exact ih h
        · next hnil =>
          rw [if_neg hnil] at h
          exact h

theorem searchRoots_unique {n m : Nat} {roots : List ν} {s s1 s2 : Search ν}
    (h : searchRoots n set roots s=some s1) (h' : searchRoots m set roots s=some s2) : s1=s2 := by
  have hmax := searchRoots_mono h (Nat.le_max_left n m)
  rw [searchRoots_mono h' (Nat.le_max_right n m)] at hmax
  exact (Option.some.inj hmax).symm

/-- Between the roots nothing that has been visited is not free of cycles. -/
structure Idle (set : ServiceSet ν) (s : Search ν) : Prop where
  done : ∀ v,s.visited v=true → s.cycleFree v=true
  spared : ∀ v,LeadsToCycle (LinkTo (links set)) v → s.visited v=false ∧ s.cycleFree v=false
  chain : s.chain=[]

/-- What the search over the roots comes to -/
def Searched (set : ServiceSet ν) (roots : List ν) (s : Search ν) : Prop :=
  ((∀ r∈roots,¬LeadsToCycle (LinkTo (links set)) r) ∧ s.chain=[]) ∨
    ∃ front root back y chain,roots=front++root::back ∧
      (∀ r∈front,¬LeadsToCycle (LinkTo (links set)) r) ∧ LeadsToCycle (LinkTo (links set)) root ∧
      s.chain=fromFirst y chain ∧ Found (links set) root y chain

theorem Searched.cons {root : ν} {roots : List ν} {s : Search ν} (h : Searched set roots s)
    (hroot : ¬LeadsToCycle (LinkTo (links set)) root) : Searched set (root::roots) s := by
  obtain ⟨hall,hchain⟩ | ⟨front,r,back,y,chain,heq,hfront,hrest⟩ := h
  · exact .inl ⟨List.forall_mem_cons.mpr ⟨hroot,hall⟩,hchain⟩
  · exact .inr ⟨root::front,r,back,y,chain,by rw [heq]; rfl,
      List.forall_mem_cons.mpr ⟨hroot,hfront⟩,hrest⟩

theorem linkTo_loaded {a b : ν} (h : LinkTo (links set) a b) :
    (set.lookup a).isSome=true ∧ b∈set.map (·.1) := by
  unfold LinkTo links at h
  cases ha : set.lookup a with
  | none =>
    rw [ha] at h
    cases h
  | some sr =>
    rw [ha] at h
    obtain ⟨dep,-,heq⟩ := List.mem_map.mp h
    split at heq
    · next hload =>
      cases heq
      obtain ⟨rb,hb⟩ := Option.isSome_iff_exists.mp hload
      exact ⟨rfl,List.mem_map_of_mem (mem_of_lookup hb)⟩
    · cases heq

/-- What is skipped as a root leads to no cycle. -/
theorem Idle.skipped {root : ν} {s : Search ν} (hs : Idle set s)
    (hskip : ((set.lookup root).isNone || s.visited root)=true) :
    ¬LeadsToCycle (LinkTo (links set)) root := by
  intro hroot
  obtain ⟨y,hxy,-⟩ := hroot.next
  obtain hnone | hvis := Bool.or_eq_true_iff.mp hskip
  · have hsome := (linkTo_loaded hxy).1
    rw [← Option.not_isNone,hnone] at hsome
    cases hsome
  · rw [(hs.spared root hroot).1] at hvis
    cases hvis

theorem Idle.explored {s : Search ν} (hs : Idle set s) (root : ν) :
    Explored (links set) {s with chain := [(root,0)]} := by
  refine ⟨fun v hv hfree => ?_,.singleton _⟩
  rw [hs.done v hv] at hfree
  cases hfree

theorem Idle.hunts {s : Search ν} (hs : Idle set s) (root : ν) :
    Hunts (links set) root {s with chain := [(root,0)]} := by
  refine ⟨hs.explored root,fun v hv => (hs.spared v hv).2,.singleton _,[],rfl,.nil,fun v hv => ?_⟩
  dsimp only
  rw [(hs.spared v hv).1]
  simp

/-- A root that leads to no cycle has been gone through. -/
theorem Idle.after {root : ν} {k : Nat} {s s1 : Search ν} (hs : Idle set s)
    (hroot : ¬LeadsToCycle (LinkTo (links set)) root) (hchain : s1.chain=[(root,k)])
    (hs1 : Explored (links set) s1) (hspare : Spares (links set) {s with chain := [(root,0)]} s1) :
    Idle set {s1 with cycleFree := mark s1.cycleFree root,chain := []} := by
  refine ⟨fun v hv => ?_,fun v hv => ?_,rfl⟩
  · by_contra hfree
    have hfree' := Bool.not_eq_true _ ▸ hfree
    unfold mark at hfree'
    rw [Bool.or_eq_false_iff,decide_eq_false_iff_not] at hfree'
    have hin := hs1.inChain v hv hfree'.2
    rw [hchain] at hin
    exact hfree'.1 (List.mem_singleton.mp hin)
  · have hne : v≠root := fun heq => hroot (by rw [← heq]; exact hv)
    obtain ⟨hv1,hf1⟩ := hspare v hv
    obtain ⟨hv2,hf2⟩ := hs.spared v hv
    dsimp only at hv1 hf1 ⊢
    refine ⟨hv1.trans hv2,?_⟩
    unfold mark
    rw [hf1,hf2]
    simp [hne]

/-- The search over the roots ends, at the first that leads to a cycle. -/
theorem searchRoots_searched (roots : List ν) {s : Search ν} (hs : Idle set s) :
    ∃ fuel s',searchRoots fuel set roots s=some s' ∧ Searched set roots s' := by
  have hn : ∀ a b,LinkTo (links set) a b → b∈set.map (·.1) := fun a b h => (linkTo_loaded h).2
  induction roots generalizing s with
  | nil => exact ⟨0,s,rfl,.inl ⟨by simp,hs.chain⟩⟩
  | cons root roots ih =>
    by_cases hskip : ((set.lookup root).isNone || s.visited root)=true
    · obtain ⟨fuel,s',hrun,hres⟩ := ih hs
      refine ⟨fuel,s',?_,hres.cons (hs.skipped hskip)⟩
      unfold searchRoots
      rw [if_pos hskip]
      exact hrun
    by_cases hroot : LeadsToCycle (LinkTo (links set)) root
    · obtain ⟨s',y,chain,⟨fuel,hloop⟩,hchain,hfound⟩ := hunt hn (hs.hunts root) rfl hroot
      have hne : ¬s'.chain.length=0 := by
        intro hzero
        have hnil := hfound.cycle.1.ne_nil
        rw [← hchain,List.length_eq_zero_iff.mp hzero] at hnil
        exact hnil rfl
      refine ⟨fuel,s',?_,.inr ⟨[],root,roots,y,chain,rfl,by simp,hroot,hchain,hfound⟩⟩
      unfold searchRoots
      rw [if_neg hskip,hloop]
      exact if_neg hne
    · obtain ⟨s1,hgoes,hchain1,hs1,hspare⟩ :=
        explores hn hroot {s with chain := [(root,0)]} [] rfl (hs.explored root)
      obtain ⟨n,hloop⟩ := hgoes.ends (.stop (searchTurn_end hchain1 (List.getElem?_length _)))
      obtain ⟨m,s',hrun,hres⟩ := ih (hs.after hroot hchain1 hs1 hspare)
      refine ⟨max n m,s',?_,hres.cons hroot⟩
      unfold searchRoots
      rw [if_neg hskip,loop_mono hloop (Nat.le_max_left n m)]
      exact (if_pos rfl).trans (searchRoots_mono hrun (Nat.le_max_right n m))

/-- What is printed of the links that are gone along is a dependency of the graph. -/
theorem link_indicated (hset : Named set)
    (hext : Extends set set' fun a => set.flatMap fun p => ordering (isLoaded set) p a) {a b : ν}
    {i : Nat} (h : (links set' a)[i]?=some (some b)) :
    ∃ dep,((set'.lookup a).bind fun sr => sr.dependencies[i]?)=some dep ∧ Indicated set a dep ∧
      dep.1=b := by
  rw [hext.links] at h
  unfold allLinks at h
  rw [List.getElem?_map] at h
  obtain ⟨dep,hdep,heq⟩ := Option.map_eq_some_iff.mp h
  by_cases hload : isLoaded set dep.1=true
  · rw [if_pos hload] at heq
    refine ⟨dep,?_,(indicated_iff hset).mp ⟨List.mem_of_getElem? hdep,hload⟩,Option.some.inj heq⟩
    rw [hext a]
    unfold allDependencies at hdep
    cases ha : set.lookup a with
    | none =>
      rw [ha] at hdep
      cases hdep
    | some sr =>
      rw [ha] at hdep
      exact hdep
  · rw [if_neg hload] at heq
    cases heq

/-- A chain that goes round is printed as a cycle of the graph. -/
theorem report_simple (hset : Named set)
    (hext : Extends set set' fun a => set.flatMap fun p => ordering (isLoaded set) p a)
    {chain : List (ν × Nat)} (h : GoesRound (links set') chain.reverse) :
    SimpleCycle set (report set' chain) ↔ (chain.reverse.map (·.1)).Nodup := by
  have hnames : (report set' chain).map (·.1)=chain.reverse.map (·.1) := by
    unfold report
    rw [List.map_map]
    rfl
  refine ⟨fun hsimple => by rw [← hnames]; exact hsimple.nodup,fun hnodup => ?_⟩
  refine ⟨by rw [hnames]; exact hnodup,fun k a d hk => ?_⟩
  unfold report at hk ⊢
  rw [List.getElem?_map] at hk
  obtain ⟨p,hp,heq⟩ := Option.map_eq_some_iff.mp hk
  cases heq
  obtain ⟨q,hq,hlink⟩ := h.joined k p hp
  obtain ⟨dep,hdep,hind,hname⟩ := link_indicated hset hext hlink.1
  refine ⟨dep,hdep,hind,?_⟩
  rw [List.length_map,List.getElem?_map,hq,hname]
  rfl

/-- What is reported if the search begins at these services -/
def Reported (set : ServiceSet ν) (roots : List ν) (cycle : List (ν × Option (ν × DependencyType))) :
    Prop :=
  ((∀ r∈roots,¬LeadsToCycle (Edge set) r) ∧ cycle=[]) ∨
    ∃ front root back,roots=front++root::back ∧ (∀ r∈front,¬LeadsToCycle (Edge set) r) ∧
      LeadsToCycle (Edge set) root ∧ cycle≠[] ∧
      (SimpleCycle set cycle ↔ ¬∃ i,FirstToCycle (allLinks set) root i root)

theorem Searched.reported (hset : Named set)
    (hext : Extends set set' fun a => set.flatMap fun p => ordering (isLoaded set) p a)
    {roots : List ν} {s : Search ν} (h : Searched set' roots s) :
    Reported set roots (report set' s.chain) := by
  unfold Searched at h
  rw [hext.links,linkTo_iff hset] at h
  obtain ⟨hall,hchain⟩ | ⟨front,root,back,y,chain,heq,hfront,hroot,hchain,hfound⟩ := h
  · refine .inl ⟨hall,?_⟩
    rw [hchain]
    rfl
  · obtain ⟨hround,hnodup⟩ := hfound.cycle
    have hne : report set' s.chain≠[] := by
      unfold report
      rw [hchain]
      exact fun hnil => hround.ne_nil (List.map_eq_nil_iff.mp hnil)
    refine .inr ⟨front,root,back,heq,hfront,hroot,hne,?_⟩
    rw [← hnodup,hchain]
    rw [← hext.links] at hround
    exact report_simple hset hext hround

omit [DecidableEq ν] in
/-- The first service that leads to a cycle is the same, however the list is split. -/
theorem first_unique {P : ν → Prop} {front front' back back' : List ν} {root root' : ν}
    (h : front++root::back=front'++root'::back') (hfront : ∀ r∈front,¬P r) (hroot : P root)
    (hfront' : ∀ r∈front',¬P r) (hroot' : P root') : root=root' := by
  classical
  have hfind : ∀ (front back : List ν) (root : ν),(∀ r∈front,¬P r) → P root →
      (front++root::back).find? (fun r => decide (P r))=some root := by
    intro front back root hfront hroot
    refine List.find?_eq_some_iff_append.mpr ⟨decide_eq_true hroot,front,back,rfl,fun r hr => ?_⟩
    rw [decide_eq_false (hfront r hr)]
    rfl
  have heq := hfind front back root hfront hroot
  rw [h,hfind front' back' root' hfront' hroot'] at heq
  exact (Option.some.inj heq).symm

end

section
variable {descriptions : List (ν × Description ν)} {named : List ν} {st : Loading ν}
  {problems : List (Problem ν)} {cycle : List (ν × Option (ν × DependencyType))}

/-- The search begins at the services that were named. -/
theorem checkCycles_eq (h : Loaded descriptions named st) {set' : ServiceSet ν}
    (hsec : secondaryChecks st.serviceSet st.serviceSet=some (set',problems)) (fuel : Nat) :
    checkCycles fuel named.length st=
      (searchRoots fuel set' named ⟨fun _ => false,fun _ => false,[]⟩).map fun s =>
        (problems,report set' s.chain) := by
  unfold checkCycles
  rw [hsec,← List.prefix_iff_eq_take.mp h.first]
  rfl

theorem checkCycles_unique {n m num : Nat}
    {r r' : List (Problem ν) × List (ν × Option (ν × DependencyType))}
    (h : checkCycles n num st=some r) (h' : checkCycles m num st=some r') : r=r' := by
  unfold checkCycles at h h'
  obtain ⟨sec,hsec,hmap⟩ := Option.bind_eq_some_iff.mp h
  obtain ⟨s,hs,heq⟩ := Option.map_eq_some_iff.mp hmap
  rw [hsec,Option.bind_some] at h'
  obtain ⟨s',hs',heq'⟩ := Option.map_eq_some_iff.mp h'
  rw [← heq,← heq',searchRoots_unique hs hs']

theorem start_idle (set : ServiceSet ν) : Idle set ⟨fun _ => false,fun _ => false,[]⟩ :=
  ⟨fun _ hv => hv,fun _ _ => ⟨rfl,rfl⟩,rfl⟩

/-- There is a report if each service that is consumed has been loaded. -/
theorem checkCycles_some (h : Loaded descriptions named st)
    (hcon : ∀ p∈st.serviceSet,∀ c,p.2.consumerOfName=some c → isLoaded st.serviceSet c=true) :
    ∃ fuel problems cycle,checkCycles fuel named.length st=some (problems,cycle) := by
  obtain ⟨⟨set',problems⟩,hsec⟩ :=
    Option.isSome_iff_exists.mp ((secondaryChecks_isSome st.serviceSet st.serviceSet).mpr hcon)
  obtain ⟨fuel,s,hrun,-⟩ := searchRoots_searched named (start_idle set')
  exact ⟨fuel,problems,report set' s.chain,by rw [checkCycles_eq h hsec,hrun]; rfl⟩

/-- What is reported, and when -/
theorem checkCycles_reported (h : Loaded descriptions named st) {fuel : Nat}
    (hrun : checkCycles fuel named.length st=some (problems,cycle)) :
    (∀ p∈st.serviceSet,∀ c,p.2.consumerOfName=some c → isLoaded st.serviceSet c=true) ∧
      Reported st.serviceSet named cycle := by
  cases hsec : secondaryChecks st.serviceSet st.serviceSet with
  | none =>
    unfold checkCycles at hrun
    rw [hsec] at hrun
    cases hrun
  | some r =>
    obtain ⟨set',found⟩ := r
    refine ⟨(secondaryChecks_isSome st.serviceSet st.serviceSet).mp (by rw [hsec]; rfl),?_⟩
    rw [checkCycles_eq h hsec] at hrun
    obtain ⟨s,hs,heq⟩ := Option.map_eq_some_iff.mp hrun
    cases heq
    obtain ⟨n,s',hs',hsearched⟩ := searchRoots_searched named (start_idle set')
    rw [searchRoots_unique hs hs']
    exact hsearched.reported h.entries (secondaryChecks_extends hsec)

/-- After loading, a cycle is reported just if there is one, and it is a simple one, if and only if each
service that is consumed is loaded, a cycle, if any, can be reached from a named service, and the first of
these does not lead to a cycle through itself first. -/
theorem cycle_found {less : ν → ν → Bool} {fuel : Nat}
    (hload : loop (loadTurn less descriptions) fuel ⟨named,[],0⟩=some st) :
    FindsCycle named.length st ↔ CycleSeen st.serviceSet named := by
  have h := (loaded_at_end hload).1
  constructor
  · intro hfinds
    obtain ⟨n,problems,cycle,hrun,hiff,hsimple⟩ := hfinds
    obtain ⟨hcon,hrep⟩ := checkCycles_reported h hrun
    refine ⟨hcon,fun hcyc => ?_,fun front root back heq hfront hroot => ?_⟩
    · obtain ⟨-,hnil⟩ | ⟨front,root,back,heq,-,hroot,-,-⟩ := hrep
      · exact absurd hnil (hiff.mpr hcyc)
      · refine ⟨root,?_,hroot⟩
        rw [heq]
        exact List.mem_append_right _ (List.mem_cons_self ..)
    · obtain ⟨hall,-⟩ | ⟨front',root',back',heq',hfront',hroot',hne,hself⟩ := hrep
      · refine absurd hroot (hall root ?_)
        rw [heq]
        exact List.mem_append_right _ (List.mem_cons_self ..)
      · rw [first_unique (heq.symm.trans heq') hfront hroot hfront' hroot']
        exact hself.mp (hsimple hne)
  · intro hseen
    obtain ⟨hcon,hreached,hother⟩ := hseen
    obtain ⟨n,problems,cycle,hrun⟩ := checkCycles_some h hcon
    obtain ⟨-,hrep⟩ := checkCycles_reported h hrun
    refine ⟨n,problems,cycle,hrun,?_,?_⟩
    · obtain ⟨hall,hnil⟩ | ⟨front,root,back,heq,-,hroot,hne,-⟩ := hrep
      · refine iff_of_false (fun hne => hne hnil) fun hcyc => ?_
        obtain ⟨root,hmem,hroot⟩ := hreached hcyc
        exact hall root hmem hroot
      · refine iff_of_true hne ?_
        obtain ⟨c,-,hc⟩ := hroot
        exact ⟨c,hc⟩
    · intro hne
      obtain ⟨-,hnil⟩ | ⟨front,root,back,heq,hfront,hroot,-,hself⟩ := hrep
      · exact absurd hnil hne
      · exact hself.mpr (hother front root back heq hfront hroot)

end

/-- A process with these dependencies, and to be started before these -/
def dependent (depends before : List String) : Description String :=
  ⟨.process,none,depends.map fun name => (name,.regular),before,[],none,.none⟩

/-- Two services that depend on each other -/
def eachOther : List (String × Description String) :=
  [("a",dependent ["b"] []),("b",dependent ["a"] [])]

theorem cycle_found_mutual :
    ∃ st,loop (loadTurn (·<·) eachOther) 4 ⟨["a"],[],0⟩=some st ∧ FindsCycle ["a"].length st := by
  have hload : loop (loadTurn (·<·) eachOther) 4 ⟨["a"],[],0⟩=some ⟨["a","b"],
      [("a",newRecord "a" (dependent ["b"] [])),("b",newRecord "b" (dependent ["a"] []))],2⟩ := rfl
  refine ⟨_,hload,(cycle_found hload).mpr ⟨?_,?_,?_⟩⟩
  · intro p hp c hc
    have hnone : p.2.consumerOfName=none := by
      obtain heq | hp := List.mem_cons.mp hp
      · rw [heq]
        rfl
      · rw [List.mem_singleton.mp hp]
        rfl
    rw [hnone] at hc
    cases hc
  · intro _
    refine ⟨"a",List.mem_singleton_self _,.of_cycle ?_⟩
    exact .tail (.single (b := "b") ⟨_,_,rfl,rfl,.inl (List.mem_singleton_self _)⟩)
      ⟨_,_,rfl,rfl,.inl (List.mem_singleton_self _)⟩
  · intro front root back heq _ _ hself
    obtain ⟨i,hi,-⟩ := hself
    cases front with
    | cons r front => simp at heq
    | nil =>
      obtain ⟨rfl,-⟩ := List.cons.inj heq
      have hlinks : some "a"∈[some "b"] := List.mem_of_getElem? hi
      simp at hlinks

/-- A cycle is not seen behind a service that is started before it, and a service that depends on itself
is printed twice. -/
theorem cycle_not_found :
    (∃ st,loop (loadTurn (·<·) [("a",dependent [] ["b"]),("b",dependent ["c"] []),
        ("c",dependent ["b"] [])]) 4 ⟨["a"],[],0⟩=some st ∧ ¬FindsCycle 1 st) ∧
      ∃ st,loop (loadTurn (·<·) [("a",dependent ["a"] [])]) 4 ⟨["a"],[],0⟩=some st ∧
        ¬FindsCycle 1 st := by
  refine ⟨⟨_,rfl,fun hfinds => ?_⟩,⟨_,rfl,fun hfinds => ?_⟩⟩
  · obtain ⟨n,problems,cycle,hrun,hiff,-⟩ := hfinds
    have hnil : (problems,cycle)=([],[]) := checkCycles_unique hrun (m := 2) rfl
    cases hnil
    refine hiff.mpr ⟨"b",?_⟩ rfl
    exact .tail (.single (b := "c") ⟨_,_,rfl,rfl,.inl (List.mem_singleton_self _)⟩)
      ⟨_,_,rfl,rfl,.inl (List.mem_singleton_self _)⟩
  · obtain ⟨n,problems,cycle,hrun,-,hsimple⟩ := hfinds
    have htwice : (problems,cycle)=([],[("a",some ("a",.regular)),("a",some ("a",.regular))]) :=
      checkCycles_unique hrun (m := 2) rfl
    cases htwice
    have hnodup := (hsimple (List.cons_ne_nil _ _)).nodup
    simp at hnodup

end Check

end Dinit
