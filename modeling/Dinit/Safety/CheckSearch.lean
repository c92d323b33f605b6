import Mathlib.Data.List.Chain
import Mathlib.Data.List.TakeWhile
import Mathlib.Data.Nat.Find
import Dinit.Framework.Graph
import Dinit.Check.Cycle

namespace Dinit

open Framework Relation

namespace Check

variable {ν : Type}

/-- A service has a loaded one among its links. -/
def LinkTo (links : ν → List (Option ν)) (a b : ν) : Prop := some b∈links a

section
variable {links : ν → List (Option ν)} {s s' : Search ν} {rest : List (ν × Nat)} {x y : ν} {i : Nat}

/-- What has been visited is free of cycles, or still in the chain, which is a path. -/
structure Explored (links : ν → List (Option ν)) (s : Search ν) : Prop where
  inChain : ∀ v,s.visited v=true → s.cycleFree v=false → v∈s.chain.map (·.1)
  path : s.chain.IsChain fun p q => LinkTo links q.1 p.1

/-- The marks of the services that lead to a cycle are the same. -/
def Spares (links : ν → List (Option ν)) (s s' : Search ν) : Prop :=
  ∀ v,LeadsToCycle (LinkTo links) v → s'.visited v=s.visited v ∧ s'.cycleFree v=s.cycleFree v

theorem Spares.refl (s : Search ν) : Spares links s s := fun _ _ => ⟨rfl,rfl⟩

/-- From all that is in the chain there is a path to its last entry. -/
theorem path_to_last {p : ν × Nat} (h : (p::rest).IsChain fun p q => LinkTo links q.1 p.1) {v : ν}
    (hv : v∈(p::rest).map (·.1)) : ReflTransGen (LinkTo links) v p.1 := by
  induction rest generalizing p with
  | nil =>
    rw [List.map_cons,List.map_nil,List.mem_singleton] at hv
    rw [hv]
  | cons q rest ih =>
    obtain ⟨hqp,hrest⟩ := List.isChain_cons_cons.mp h
    rw [List.map_cons] at hv
    obtain heq | hv := List.mem_cons.mp hv
    · rw [heq]
    · exact (ih hrest hv).tail hqp

/-- The index of the last entry does not matter to the path. -/
theorem isChain_index {R : ν × Nat → ν × Nat → Prop} (hR : ∀ a k k' q,R (a,k) q → R (a,k') q)
    {j : Nat} (h : ((x,i)::rest).IsChain R) : ((x,j)::rest).IsChain R := by
  cases rest with
  | nil => exact .singleton _
  | cons q rest =>
    obtain ⟨hqp,hrest⟩ := List.isChain_cons_cons.mp h
    exact List.isChain_cons_cons.mpr ⟨hR x i j q hqp,hrest⟩

theorem Explored.index (hs : Explored links s) (h : s.chain=(x,i)::rest) (j : Nat) :
    Explored links {s with chain := (x,j)::rest} := by
  obtain ⟨hin,hpath⟩ := hs
  rw [h] at hin hpath
  exact ⟨hin,isChain_index (fun _ _ _ _ => id) hpath⟩

/-- A service that leads to no cycle has not been visited, unless it is free of cycles. -/
theorem Explored.fresh (hs : Explored links s) (h : s.chain=(x,i)::rest) (hxy : LinkTo links x y)
    (hy : ¬LeadsToCycle (LinkTo links) y) (hvis : s.visited y=true) : s.cycleFree y=true := by
  by_contra hfree
  have hin := hs.inChain y hvis (Bool.not_eq_true _ ▸ hfree)
  have hpath := hs.path
  rw [h] at hin hpath
  exact hy (.of_cycle (TransGen.tail' (path_to_last hpath hin) hxy))

/-- The first of a service's links that leads to a cycle -/
def FirstToCycle (links : ν → List (Option ν)) (x : ν) (i : Nat) (y : ν) : Prop :=
  (links x)[i]?=some (some y) ∧ LeadsToCycle (LinkTo links) y ∧
    ∀ j z,j< i → (links x)[j]?=some (some z) → ¬LeadsToCycle (LinkTo links) z

theorem FirstToCycle.unique {z : ν} {j : Nat} (h : FirstToCycle links x i y)
    (h' : FirstToCycle links x j z) : i=j ∧ y=z := by
  obtain ⟨hy,hly,hfirst⟩ := h
  obtain ⟨hz,hlz,hfirst'⟩ := h'
  have hij : i=j := by
    obtain hlt | heq | hlt := Nat.lt_trichotomy i j
    · exact absurd hly (hfirst' i y hlt hy)
    · exact heq
    · exact absurd hlz (hfirst j z hlt hz)
  rw [hij,hz] at hy
  cases hy
  exact ⟨hij,rfl⟩

theorem exists_firstToCycle (h : LeadsToCycle (LinkTo links) x) : ∃ i y,FirstToCycle links x i y := by
  classical
  have hex : ∃ (i : Nat) (y : ν),(links x)[i]?=some (some y) ∧ LeadsToCycle (LinkTo links) y := by
    obtain ⟨y,hxy,hy⟩ := h.next
    obtain ⟨i,hi⟩ := List.mem_iff_getElem?.mp hxy
    exact ⟨i,y,hi,hy⟩
  obtain ⟨y,hi,hy⟩ := Nat.find_spec hex
  exact ⟨Nat.find hex,y,hi,hy,fun j z hj hz hlz => Nat.find_min hex hj ⟨z,hz,hlz⟩⟩

variable [DecidableEq ν]

/-- A service is put at the end of the chain. -/
theorem Explored.down (hs : Explored links s) (h : s.chain=(x,i)::rest) (hxy : LinkTo links x y) :
    Explored links {s with visited := mark s.visited y,chain := (y,0)::(x,i)::rest} := by
  obtain ⟨hin,hpath⟩ := hs
  rw [h] at hin hpath
  refine ⟨fun v hv hfree => ?_,List.isChain_cons_cons.mpr ⟨hxy,hpath⟩⟩
  rw [List.map_cons]
  by_cases heq : v=y
  · rw [heq]
    exact List.mem_cons_self ..
  · refine List.mem_cons_of_mem _ (hin v ?_ hfree)
    unfold mark at hv
    simpa [heq] using hv

/-- The last service is taken from the chain, as free of cycles. -/
theorem Explored.up (hs : Explored links s) (h : s.chain=(y,i)::rest) :
    Explored links {s with cycleFree := mark s.cycleFree y,chain := nextIndex rest} := by
  obtain ⟨hin,hpath⟩ := hs
  rw [h] at hin hpath
  have hnames : (nextIndex rest).map (·.1)=rest.map (·.1) := by
    cases rest with
    | nil => rfl
    | cons q rest => rfl
  constructor
  · intro v hv hfree
    unfold mark at hfree
    rw [Bool.or_eq_false_iff,decide_eq_false_iff_not] at hfree
    rw [hnames]
    have hmem := hin v hv hfree.2
    rw [List.map_cons] at hmem
    exact (List.mem_cons.mp hmem).resolve_left hfree.1
  · cases rest with
    | nil => exact .nil
    | cons q rest =>
      exact isChain_index (fun _ _ _ _ => id) (List.isChain_cons_cons.mp hpath).2

theorem searchTurn_up (h : s.chain=(x,i)::rest) (hi : (links x)[i]?=none) (hrest : rest.length≠0) :
    searchTurn links s=.next {s with cycleFree := mark s.cycleFree x,chain := nextIndex rest} := by
  unfold searchTurn
  rw [h]
  dsimp only
  rw [hi]
  exact if_neg hrest

theorem searchTurn_end (h : s.chain=[(x,i)]) (hi : (links x)[i]?=none) :
    searchTurn links s=.stop {s with cycleFree := mark s.cycleFree x,chain := []} := by
  unfold searchTurn
  rw [h]
  dsimp only
  rw [hi]
  exact if_pos rfl

theorem searchTurn_null (h : s.chain=(x,i)::rest) (hi : (links x)[i]?=some none) :
    searchTurn links s=.next {s with chain := (x,i+1)::rest} := by
  unfold searchTurn
  rw [h]
  dsimp only
  rw [hi]

theorem searchTurn_down (h : s.chain=(x,i)::rest) (hi : (links x)[i]?=some (some y))
    (hy : s.visited y=true → s.cycleFree y=true) :
    searchTurn links s=.next {s with visited := mark s.visited y,chain := (y,0)::(x,i)::rest} := by
  unfold searchTurn
  rw [h]
  dsimp only
  rw [hi]
  dsimp only
  rw [if_neg]
  intro hand
  obtain ⟨hvis,hfree⟩ := Bool.and_eq_true_iff.mp hand
  rw [hy hvis] at hfree
  cases hfree

theorem searchTurn_found (h : s.chain=(x,i)::rest) (hi : (links x)[i]?=some (some y))
    (hvis : s.visited y=true) (hfree : s.cycleFree y=false) :
    searchTurn links s=.stop {s with chain := fromFirst y ((x,i)::rest)} := by
  unfold searchTurn
  rw [h]
  dsimp only
  rw [hi]
  dsimp only
  rw [hvis,hfree]
  exact if_pos rfl

/-- All that a service leads to is looked at, and it is still there. -/
def Explores (links : ν → List (Option ν)) (x : ν) : Prop :=
  ∀ s rest,s.chain=(x,0)::rest → Explored links s →
    ∃ s',Goes (searchTurn links) s s' ∧ s'.chain=(x,(links x).length)::rest ∧ Explored links s' ∧
      Spares links s s'

/-- The links of a service are gone through, as far as none leads to a cycle. -/
theorem advance (hexp : ∀ y,LinkTo links x y → ¬LeadsToCycle (LinkTo links) y → Explores links y)
    {k : Nat} (hk : k≤ (links x).length) (hik : i≤ k)
    (hfree : ∀ j z,i≤ j → j<k → (links x)[j]?=some (some z) → ¬LeadsToCycle (LinkTo links) z)
    (h : s.chain=(x,i)::rest) (hs : Explored links s) :
    ∃ s',Goes (searchTurn links) s s' ∧ s'.chain=(x,k)::rest ∧ Explored links s' ∧
      Spares links s s' := by
  induction hn : k-i generalizing i s with
  | zero =>
    have heq : i=k := by omega
    exact ⟨s,.refl,by rw [h,heq],hs,.refl s⟩
  | succ n ih =>
    have hlt : i<(links x).length := by omega
    cases hlink : (links x)[i] with
    | none =>
      have hat : (links x)[i]?=some none := by rw [List.getElem?_eq_getElem hlt,hlink]
      have hturn := searchTurn_null h hat
      have hchain1 : ({s with chain := (x,i+1)::rest} : Search ν).chain=(x,i+1)::rest := rfl
      obtain ⟨s',hgoes,hchain,hs',hspare⟩ := ih (by omega) (fun j z hj => hfree j z (by omega)) hchain1
        (hs.index h (i+1)) (by omega)
      exact ⟨s',.head hturn hgoes,hchain,hs',hspare⟩
    | some y =>
      have hat : (links x)[i]?=some (some y) := by rw [List.getElem?_eq_getElem hlt,hlink]
      have hxy : LinkTo links x y := List.mem_of_getElem? hat
      have hy := hfree i y (Nat.le_refl i) (by omega) hat
      -- down to the service, through all that it leads to, and up again
      have hdown := searchTurn_down h hat (hs.fresh h hxy hy)
      have hsub := hexp y hxy hy {s with visited := mark s.visited y,chain := (y,0)::(x,i)::rest}
        ((x,i)::rest) rfl (hs.down h hxy)
      obtain ⟨s1,hgoes1,hchain1,hs1,hspare1⟩ := hsub
      have hup := searchTurn_up hchain1 (List.getElem?_length _) (by simp)
      have hchain2 : ({s1 with cycleFree := mark s1.cycleFree y,chain := nextIndex ((x,i)::rest)} :
          Search ν).chain=(x,i+1)::rest := rfl
      obtain ⟨s',hgoes,hchain,hs',hspare⟩ := ih (by omega) (fun j z hj => hfree j z (by omega)) hchain2
        (hs1.up hchain1) (by omega)
      refine ⟨s',.head hdown (hgoes1.trans (.head hup hgoes)),hchain,hs',fun v hv => ?_⟩
      have hne : v≠y := fun heq => hy (by rw [← heq]; exact hv)
      obtain ⟨hv1,hf1⟩ := hspare1 v hv
      obtain ⟨hv2,hf2⟩ := hspare v hv
      rw [hv2,hf2]
      simp only [mark] at hv1 hf1 ⊢
      rw [hv1,hf1]
      simp [hne]

/-- All that is reached from a service that leads to no cycle is gone through. -/
theorem explores {nodes : List ν} (hn : ∀ a b,LinkTo links a b → b∈nodes)
    (hx : ¬LeadsToCycle (LinkTo links) x) : Explores links x := by
  induction hm : reachCount (LinkTo links) nodes x using Nat.strongRecOn generalizing x with
  | ind m ih =>
    have hnext : ∀ y,LinkTo links x y → ¬LeadsToCycle (LinkTo links) y := fun y hxy hy =>
      hx (.head hxy hy)
    intro s rest h hs
    refine advance (fun y hxy hy => ?_) (Nat.le_refl _) (Nat.zero_le _)
      (fun j z _ _ hz => hnext z (List.mem_of_getElem? hz)) h hs
    have hlt := reachCount_lt hn hxy fun hcyc => hy (.of_cycle hcyc)
    exact ih _ (by rw [← hm]; exact hlt) hy rfl

/-- The search follows the first links that lead to a cycle, from a root. All in the chain behind the
root have been visited, and each is there once. -/
structure Hunts (links : ν → List (Option ν)) (root : ν) (s : Search ν) : Prop where
  explored : Explored links s
  notFree : ∀ v,LeadsToCycle (LinkTo links) v → s.cycleFree v=false
  follows : s.chain.IsChain fun p q => FirstToCycle links q.1 q.2 p.1
  behind : ∃ names,s.chain.map (·.1)=names++[root] ∧ names.Nodup ∧
    ∀ v,LeadsToCycle (LinkTo links) v → (s.visited v=true ↔ v∈names)

/-- The chain in which a cycle is found: the last entry leads to one behind the root. -/
structure Found (links : ν → List (Option ν)) (root y : ν) (chain : List (ν × Nat)) : Prop where
  follows : chain.IsChain fun p q => FirstToCycle links q.1 q.2 p.1
  last : ∀ p∈chain.head?,FirstToCycle links p.1 p.2 y
  behind : ∃ names,chain.map (·.1)=names++[root] ∧ names.Nodup ∧ y∈names

theorem hunt {nodes : List ν} (hn : ∀ a b,LinkTo links a b → b∈nodes) {root : ν}
    (hs : Hunts links root s) (h : s.chain=(x,0)::rest) (hx : LeadsToCycle (LinkTo links) x) :
    ∃ s' y chain,LoopEnds (searchTurn links) s s' ∧ s'.chain=fromFirst y chain ∧
      Found links root y chain := by
  classical
  induction hm : nodes.countP (fun v => LeadsToCycle (LinkTo links) v ∧ s.visited v=false)
    using Nat.strongRecOn generalizing s x rest with
  | ind m ih =>
    obtain ⟨k,y,hk⟩ := exists_firstToCycle hx
    have hat := hk.1
    have hlen := (List.getElem?_eq_some_iff.mp hat).1
    obtain ⟨s1,hgoes,hchain,hexp,hspare⟩ := advance (fun z _ hz => explores hn hz)
      (Nat.le_of_lt hlen) (Nat.zero_le k) (fun j z _ hj hz => hk.2.2 j z hj hz) h hs.explored
    obtain ⟨-,hfree,hfollows,names,hnames,hnodup,hvisited⟩ := hs
    rw [h] at hfollows hnames
    have hfollows1 : ((x,k)::rest).IsChain fun p q => FirstToCycle links q.1 q.2 p.1 :=
      isChain_index (fun _ _ _ _ => id) hfollows
    by_cases hvis : s1.visited y=true
    · have hfree1 : s1.cycleFree y=false := by
        rw [(hspare y hk.2.1).2]
        exact hfree y hk.2.1
      refine ⟨_,y,(x,k)::rest,hgoes.ends (.stop (searchTurn_found hchain hat hvis hfree1)),rfl,
        hfollows1,?_,names,hnames,hnodup,?_⟩
      · intro p hp
        cases hp
        exact hk
      · rw [(hspare y hk.2.1).1] at hvis
        exact (hvisited y hk.2.1).mp hvis
    · have hnot : y∉names := fun hin => hvis (by
        rw [(hspare y hk.2.1).1]
        exact (hvisited y hk.2.1).mpr hin)
      have hdown := searchTurn_down hchain hat fun hv => absurd hv hvis
      have hnext : Hunts links root
          {s1 with visited := mark s1.visited y,chain := (y,0)::(x,k)::rest} := by
        refine ⟨hexp.down hchain (List.mem_of_getElem? hat),fun v hv => ?_,
          List.isChain_cons_cons.mpr ⟨hk,hfollows1⟩,y::names,?_,List.nodup_cons.mpr ⟨hnot,hnodup⟩,
          fun v hv => ?_⟩
        · rw [(hspare v hv).2]
          exact hfree v hv
        · rw [List.map_cons,List.cons_append,← hnames]
          rfl
        · unfold mark
          rw [Bool.or_eq_true,decide_eq_true_iff,(hspare v hv).1,hvisited v hv,List.mem_cons]
      have hfewer : nodes.countP (fun v => LeadsToCycle (LinkTo links) v ∧
          mark s1.visited y v=false)< m := by
        rw [← hm]
        refine countP_lt (fun v hv => ?_) (hn x y (List.mem_of_getElem? hat)) ?_ ?_
        · rw [decide_eq_true_iff] at hv ⊢
          obtain ⟨hlv,hmark⟩ := hv
          unfold mark at hmark
          rw [Bool.or_eq_false_iff,(hspare v hlv).1] at hmark
          exact ⟨hlv,hmark.2⟩
        · simp [mark]
        · rw [decide_eq_true_iff]
          refine ⟨hk.2.1,?_⟩
          rw [← (hspare y hk.2.1).1]
          exact Bool.not_eq_true _ ▸ hvis
      obtain ⟨s',z,chain,hends,hcut,hfound⟩ := ih _ hfewer hnext rfl hk.2.1 rfl
      exact ⟨s',z,chain,hgoes.ends (.next hdown hends),hcut,hfound⟩

/-- The chain that is printed goes round: each entry leads to the next, and the last to the first. -/
structure GoesRound (links : ν → List (Option ν)) (cycle : List (ν × Nat)) : Prop where
  ne_nil : cycle≠[]
  joined : ∀ k p,cycle[k]?=some p →
    ∃ q,cycle[(k+1)%cycle.length]?=some q ∧ FirstToCycle links p.1 p.2 q.1

omit [DecidableEq ν] in
theorem goesRound_of_chain {cycle : List (ν × Nat)} {p : ν × Nat}
    (h : (p::cycle).IsChain fun p q => FirstToCycle links p.1 p.2 q.1)
    (hlast : ∀ q∈(p::cycle).getLast?,FirstToCycle links q.1 q.2 p.1) : GoesRound links (p::cycle) := by
  refine ⟨List.cons_ne_nil _ _,fun k q hq => ?_⟩
  obtain ⟨hlt,heq⟩ := List.getElem?_eq_some_iff.mp hq
  by_cases hnext : k+1<(p::cycle).length
  · rw [Nat.mod_eq_of_lt hnext]
    refine ⟨(p::cycle)[k+1],List.getElem?_eq_getElem hnext,?_⟩
    rw [← heq]
    exact List.isChain_iff_getElem.mp h k hnext
  · have hk : k=(p::cycle).length-1 := by omega
    have hlen : k+1=(p::cycle).length := by omega
    rw [hlen,Nat.mod_self]
    refine ⟨p,rfl,hlast q ?_⟩
    rw [List.getLast?_eq_getElem?,← hk]
    exact hq

omit [DecidableEq ν] in
/-- A root whose first link to a cycle is another service is not come to again. -/
theorem ne_root {root : ν} {r : ν × Nat} {c : List (ν × Nat)} (hr : r.1=root)
    (h : (r::c).IsChain fun p q => FirstToCycle links p.1 p.2 q.1)
    (hlast : ∀ p∈(r::c).getLast?,FirstToCycle links p.1 p.2 y) (hnodup : (c.map (·.1)).Nodup)
    (hy : y∈c.map (·.1)) (hself : ¬∃ i,FirstToCycle links root i root) : r.1≠y := by
  intro heq
  have hyroot : y=root := heq.symm.trans hr
  rw [hyroot] at hy hlast
  obtain ⟨q,hq,hqroot⟩ := List.mem_map.mp hy
  obtain ⟨front,back,rfl⟩ := List.append_of_mem hq
  cases back with
  | nil =>
    have hq := hlast q (by rw [← List.cons_append,List.getLast?_append]; rfl)
    rw [hqroot] at hq
    exact hself ⟨_,hq⟩
  | cons z back =>
    have hsuffix : q::z::back <:+ r::(front++q::z::back) := ⟨r::front,rfl⟩
    have hz : FirstToCycle links q.1 q.2 z.1 := (List.isChain_cons_cons.mp (h.suffix hsuffix)).1
    rw [hqroot] at hz
    cases front with
    | nil =>
      have hnext := (List.isChain_cons_cons.mp h).1
      rw [hr,hqroot] at hnext
      exact hself ⟨_,hnext⟩
    | cons w front =>
      have hnext := (List.isChain_cons_cons.mp h).1
      rw [hr] at hnext
      have hsame := (hnext.unique hz).2
      simp [hsame] at hnodup

omit [DecidableEq ν] in
/-- A root whose first link to a cycle is itself is the only service in the chain. -/
theorem chain_of_self {root : ν} {r : ν × Nat} {c : List (ν × Nat)} (hr : r.1=root)
    (h : (r::c).IsChain fun p q => FirstToCycle links p.1 p.2 q.1) (hnodup : (c.map (·.1)).Nodup)
    (hc : c≠[]) {i : Nat} (hself : FirstToCycle links root i root) : c.map (·.1)=[root] := by
  cases c with
  | nil => exact absurd rfl hc
  | cons w c =>
    obtain ⟨hnext,hrest⟩ := List.isChain_cons_cons.mp h
    rw [hr] at hnext
    have hw : w.1=root := (hnext.unique hself).2
    cases c with
    | nil => rw [List.map_cons,List.map_nil,hw]
    | cons z c =>
      have hz := (List.isChain_cons_cons.mp hrest).1
      rw [hw] at hz
      simp [hw,(hz.unique hself).2] at hnodup

/-- The entries from the first one of a service on -/
theorem Found.cycle {root : ν} {chain : List (ν × Nat)} (h : Found links root y chain) :
    GoesRound links (fromFirst y chain).reverse ∧
      (((fromFirst y chain).reverse.map (·.1)).Nodup ↔ ¬∃ i,FirstToCycle links root i root) := by
  obtain ⟨hfollows,hlast,names,hnames,hnodup,hy⟩ := h
  obtain ⟨c,rfl⟩ : ∃ c,chain=c.reverse := ⟨chain.reverse,chain.reverse_reverse.symm⟩
  unfold fromFirst
  rw [List.reverse_reverse,List.reverse_reverse]
  rw [List.isChain_reverse] at hfollows
  rw [List.head?_reverse] at hlast
  have hroot : c.map (·.1)=root::names.reverse := by
    have hrev := congrArg List.reverse hnames
    rw [← List.map_reverse,List.reverse_reverse,List.reverse_append] at hrev
    exact hrev
  cases c with
  | nil => cases hroot
  | cons r c =>
    rw [List.map_cons] at hroot
    obtain ⟨hr,hc⟩ := List.cons.inj hroot
    have hnodupc : (c.map (·.1)).Nodup := by
      rw [hc]
      exact List.nodup_reverse.mpr hnodup
    have hyc : y∈c.map (·.1) := by
      rw [hc]
      exact List.mem_reverse.mpr hy
    obtain ⟨front,hsplit⟩ := List.dropWhile_suffix (l := r::c) fun p => p.1≠y
    cases hdrop : (r::c).dropWhile fun p => p.1≠y with
    | nil =>
      obtain ⟨q,hq,hqy⟩ := List.mem_map.mp hyc
      have hne := List.dropWhile_eq_nil_iff.mp hdrop q (List.mem_cons_of_mem _ hq)
      simp [hqy] at hne
    | cons p cycle =>
      have hp : p.1=y := by
        have hhead := List.head?_dropWhile_not (fun p : ν × Nat => decide (p.1≠y)) (r::c)
        rw [hdrop] at hhead
        simpa using hhead
      rw [hdrop] at hsplit
      have hround : GoesRound links (p::cycle) := by
        refine goesRound_of_chain (hfollows.suffix ⟨front,hsplit⟩) fun q hq => ?_
        rw [hp]
        refine hlast q ?_
        rw [← hsplit,List.getLast?_append,hq]
        rfl
      refine ⟨hround,fun hnd hself => ?_,fun hself => ?_⟩
      · obtain ⟨i,hi⟩ := hself
        have hcne : c≠[] := fun hnil => by
          rw [hnil] at hyc
          cases hyc
        have hall := chain_of_self hr hfollows hnodupc hcne hi
        rw [hall,List.mem_singleton] at hyc
        rw [List.dropWhile_cons_of_neg (by simp [hr,hyc])] at hdrop
        rw [← hdrop,List.map_cons,hall,hr] at hnd
        simp at hnd
      · have hne := ne_root hr hfollows hlast hnodupc hyc hself
        rw [List.dropWhile_cons_of_pos (by simpa using hne)] at hdrop
        have hsuffix : p::cycle <:+ c := by
          rw [← hdrop]
          exact List.dropWhile_suffix _
        exact hnodupc.sublist (hsuffix.sublist.map _)

end

end Check

end Dinit
