import Dinit.Load.CheckCycle
import Dinit.Load.Cycle

namespace Dinit.CheckCycle

open Framework Relation

variable {κ : Type} [DecidableEq κ] {hash : κ → Nat} {dependencies : κ → List κ} {orig : κ}
  {l : LinkedSet κ} {vs ts deps : List κ}

/-- What is not there yet is put at the end, one after the other. -/
def merge (vs ts : List κ) : List κ := ts.foldl (fun vs t => if t∈vs then vs else vs++[t]) vs

theorem merge_cons (t : κ) : merge vs (t::ts)=merge (if t∈vs then vs else vs++[t]) ts := rfl

theorem prefix_merge (vs ts : List κ) : vs <+: merge vs ts := by
  induction ts generalizing vs with
  | nil => exact List.prefix_rfl
  | cons t ts ih =>
    rw [merge_cons]
    split
    · exact ih vs
    · exact (List.prefix_append vs [t]).trans (ih _)

theorem mem_merge {x : κ} : x∈merge vs ts ↔ x∈vs ∨ x∈ts := by
  induction ts generalizing vs with
  | nil => simp [merge]
  | cons t ts ih =>
    rw [merge_cons,ih,List.mem_cons]
    split
    · next ht =>
      constructor
      · tauto
      · intro hor
        obtain hin | rfl | hin := hor
        · exact .inl hin
        · exact .inl ht
        · exact .inr hin
    · rw [List.mem_append,List.mem_singleton,or_assoc]

theorem nodup_merge (h : vs.Nodup) : (merge vs ts).Nodup := by
  induction ts generalizing vs with
  | nil => exact h
  | cons t ts ih =>
    rw [merge_cons]
    split
    · exact ih h
    · next ht =>
      refine ih (List.nodup_append.mpr ⟨h,List.nodup_singleton t,fun a ha b hb hab => ht ?_⟩)
      rwa [← List.mem_singleton.mp hb,← hab]

/-- The loop throws just if one of the dependencies leads to `orig`. -/
theorem addAll_cyclic (h : l.Lists (pointers hash) vs) (ho : orig∈ts) :
    addAll hash orig ts l=.error .cyclic := by
  induction ts generalizing l vs with
  | nil => cases ho
  | cons t ts ih =>
    unfold addAll
    by_cases ht : t=orig
    · rw [if_pos ht]
    · rw [if_neg ht]
      have hrest := (List.mem_cons.mp ho).resolve_left (Ne.symm ht)
      obtain ⟨-,hadd⟩ | ⟨-,l',hadd,hl'⟩ := h.addBack t
      · rw [hadd]
        exact ih h hrest
      · rw [hadd]
        exact ih hl' hrest

theorem addAll_ok (h : l.Lists (pointers hash) vs) (ho : orig∉ts) :
    ∃ l',addAll hash orig ts l=.ok l' ∧ l'.Lists (pointers hash) (merge vs ts) := by
  induction ts generalizing l vs with
  | nil => exact ⟨l,rfl,h⟩
  | cons t ts ih =>
    rw [List.mem_cons,not_or] at ho
    unfold addAll
    rw [if_neg (Ne.symm ho.1),merge_cons]
    obtain ⟨⟨x,hx,heq⟩,hadd⟩ | ⟨hall,l',hadd,hl'⟩ := h.addBack t
    · have hin : t∈vs := by
        rw [← of_decide_eq_true heq]
        exact hx
      rw [hadd,if_pos hin]
      exact ih h ho.2
    · have hnot : t∉vs := fun hin => of_decide_eq_false (hall t hin) rfl
      rw [hadd,if_neg hnot]
      exact ih hl' ho.2

/-- A service is one of the dependencies, or can be reached from one of them. -/
def Reached (dependencies : κ → List κ) (deps : List κ) (s : κ) : Prop :=
  ∃ d∈deps,ReflTransGen (fun a b => b∈dependencies a) d s

omit [DecidableEq κ] in
/-- Links do not lead out of what they are closed on. -/
theorem mem_of_reach {nodes : List κ} (hnodes : ∀ s∈nodes,∀ t∈dependencies s,t∈nodes) {d s : κ}
    (hd : d∈nodes) (h : ReflTransGen (fun a b => b∈dependencies a) d s) : s∈nodes := by
  induction h with
  | refl => exact hd
  | tail _ hlink ih => exact hnodes _ ih _ hlink

/-- Where the second loop stands: `vs` are the pending services, and those before number `n` have
been expanded. -/
structure Stands (hash : κ → Nat) (dependencies : κ → List κ) (orig : κ) (deps : List κ)
    (w : Walk κ) (vs : List κ) (n : Nat) : Prop where
  lists : w.pending.Lists (pointers hash) vs
  nodup : vs.Nodup
  i : w.i=if n < vs.length then some n else none
  le : n≤vs.length
  expanded : w.expanded=vs.take n
  roots : ∀ d∈deps,d∈vs
  reached : ∀ s∈vs,Reached dependencies deps s
  other : orig∉vs
  closed : ∀ s∈vs.take n,∀ t∈dependencies s,t∈vs

variable {w : Walk κ} {n : Nat}

theorem Stands.step_cyclic (h : Stands hash dependencies orig deps w vs n) (hn : n < vs.length)
    (ho : orig∈dependencies vs[n]) :
    turn hash dependencies orig w=.stop (.cyclic,vs.take (n+1)) := by
  have hi := h.i
  rw [if_pos hn] at hi
  unfold turn
  rw [hi]
  dsimp only
  rw [h.lists.deref_eq,List.getElem?_eq_getElem hn]
  dsimp only
  rw [addAll_cyclic h.lists ho,h.expanded,List.take_append_getElem]

theorem Stands.step (h : Stands hash dependencies orig deps w vs n) (hn : n < vs.length)
    (ho : orig∉dependencies vs[n]) :
    ∃ w',turn hash dependencies orig w=.next w' ∧
      Stands hash dependencies orig deps w' (merge vs (dependencies vs[n])) (n+1) := by
  have hi := h.i
  rw [if_pos hn] at hi
  obtain ⟨l',hadd,hl'⟩ := addAll_ok h.lists ho
  have hpre := prefix_merge vs (dependencies vs[n])
  have hlen := hpre.length_le
  have htake : (merge vs (dependencies vs[n])).take (n+1)=vs.take (n+1) := by
    obtain ⟨rest,hrest⟩ := hpre
    rw [← hrest,List.take_append_of_le_length hn]
  have hmem : vs[n]∈vs := List.getElem_mem hn
  refine ⟨{pending := l',i := l'.next n,expanded := w.expanded++[vs[n]]},?_,hl',
    nodup_merge h.nodup,hl'.next n,by omega,?_,fun d hd => mem_merge.mpr (.inl (h.roots d hd)),
    fun s hs => ?_,fun hin => ?_,fun s hs t ht => ?_⟩
  · unfold turn
    rw [hi]
    dsimp only
    rw [h.lists.deref_eq,List.getElem?_eq_getElem hn]
    dsimp only
    rw [hadd]
  · dsimp only
    rw [htake,h.expanded,List.take_append_getElem]
  · obtain hin | hin := mem_merge.mp hs
    · exact h.reached s hin
    · obtain ⟨d,hd,hreach⟩ := h.reached _ hmem
      exact ⟨d,hd,hreach.tail hin⟩
  · exact (mem_merge.mp hin).elim h.other ho
  · rw [htake,← List.take_append_getElem hn,List.mem_append,List.mem_singleton] at hs
    obtain hs | rfl := hs
    · exact mem_merge.mpr (.inl (h.closed s hs t ht))
    · exact mem_merge.mpr (.inr ht)

theorem Stands.stop (h : Stands hash dependencies orig deps w vs n) (hn : ¬n < vs.length) :
    turn hash dependencies orig w=.stop (.returned,vs) := by
  have hi := h.i
  rw [if_neg hn] at hi
  unfold turn
  rw [hi]
  dsimp only
  rw [h.expanded,List.take_of_length_le (by omega)]

/-- When every pending service has been expanded, `orig` cannot be reached. -/
theorem Stands.not_reached (h : Stands hash dependencies orig deps w vs n) (hn : ¬n < vs.length) :
    ¬Reached dependencies deps orig := by
  have hall : vs.take n=vs := List.take_of_length_le (by omega)
  have hclosed := h.closed
  rw [hall] at hclosed
  intro ⟨d,hd,hreach⟩
  exact h.other (mem_of_reach hclosed (h.roots d hd) hreach)

theorem Stands.length_le {nodes : List κ} (hnodes : ∀ s∈nodes,∀ t∈dependencies s,t∈nodes)
    (hd : ∀ d∈deps,d∈nodes) (h : Stands hash dependencies orig deps w vs n) :
    vs.length≤nodes.length := by
  have hsub : vs⊆nodes := by
    intro s hs
    obtain ⟨d,hdd,hreach⟩ := h.reached s hs
    exact mem_of_reach hnodes (hd d hdd) hreach
  exact (List.subperm_of_subset h.nodup hsub).length_le

/-- In a finite graph the second loop ends: it throws just if `orig` can be reached, and has
expanded no service twice. -/
theorem Stands.ends {nodes : List κ} (hnodes : ∀ s∈nodes,∀ t∈dependencies s,t∈nodes)
    (hd : ∀ d∈deps,d∈nodes) (h : Stands hash dependencies orig deps w vs n) :
    ∃ v e,LoopEnds (turn hash dependencies orig) w (v,e) ∧ v≠.failed ∧
      (v=.cyclic ↔ Reached dependencies deps orig) ∧ e.Nodup := by
  induction hm : nodes.length-n generalizing w vs n with
  | zero =>
    have hn : ¬n < vs.length := by
      have hlen := h.length_le hnodes hd
      omega
    exact ⟨_,_,.stop (h.stop hn),nofun,iff_of_false nofun (h.not_reached hn),h.nodup⟩
  | succ m ih =>
    by_cases hn : n < vs.length
    · by_cases ho : orig∈dependencies vs[n]
      · obtain ⟨d,hdd,hreach⟩ := h.reached vs[n] (List.getElem_mem hn)
        exact ⟨_,_,.stop (h.step_cyclic hn ho),nofun,iff_of_true rfl ⟨d,hdd,hreach.tail ho⟩,
          h.nodup.sublist (List.take_sublist _ _)⟩
      · obtain ⟨w',hturn,hw'⟩ := h.step hn ho
        obtain ⟨v,e,hends,hrest⟩ := ih hw' (by omega)
        exact ⟨v,e,.next hturn hends,hrest⟩
    · exact ⟨_,_,.stop (h.stop hn),nofun,iff_of_false nofun (h.not_reached hn),h.nodup⟩

theorem stands_start {l : LinkedSet κ} (h : l.Lists (pointers hash) (merge [] deps)) (ho : orig∉deps) :
    Stands hash dependencies orig deps {pending := l,i := l.first} (merge [] deps) 0 where
  lists := h
  nodup := nodup_merge List.nodup_nil
  i := by
    dsimp only
    rw [h.first]
    by_cases hnil : merge [] deps=[]
    · rw [if_pos hnil,hnil]
      rfl
    · rw [if_neg hnil,if_pos (List.length_pos_of_ne_nil hnil)]
  le := Nat.zero_le _
  expanded := rfl
  roots d hd := mem_merge.mpr (.inr hd)
  reached s hs := ⟨s,(mem_merge.mp hs).resolve_left List.not_mem_nil,.refl⟩
  other hin := (mem_merge.mp hin).elim List.not_mem_nil ho
  closed s hs := absurd hs List.not_mem_nil

theorem checkCycle_ends (hash : κ → Nat) (orig : κ) {nodes : List κ}
    (hnodes : ∀ s∈nodes,∀ t∈dependencies s,t∈nodes) (hd : ∀ d∈deps,d∈nodes) :
    ∃ turns v e,(∀ m ≥ turns,checkCycle hash dependencies orig deps m=some (v,e)) ∧ v≠.failed ∧
      (v=.cyclic ↔ Reached dependencies deps orig) ∧ e.Nodup := by
  unfold checkCycle
  by_cases ho : orig∈deps
  · rw [addAll_cyclic LinkedSet.lists_new ho]
    exact ⟨0,.cyclic,[],fun _ _ => rfl,nofun,iff_of_true rfl ⟨orig,ho,.refl⟩,List.nodup_nil⟩
  · obtain ⟨l,hadd,hl⟩ := addAll_ok (LinkedSet.lists_new (k := pointers hash)) ho
    rw [hadd]
    obtain ⟨v,e,⟨turns,hends⟩,hrest⟩ := (stands_start hl ho).ends hnodes hd
    exact ⟨turns,v,e,fun m hm => loop_mono hends hm,hrest⟩

/-- On a finite graph `check_cycle` ends. It throws just if `orig` is one of the dependencies or can
be reached from one of them, and it goes through the dependencies of no service twice. -/
theorem cyclic_iff_reached {κ : Type} [DecidableEq κ] (hash : κ → Nat) (dependencies : κ → List κ)
    (nodes : List κ) (hnodes : ∀ s∈nodes,∀ t∈dependencies s,t∈nodes) (orig : κ) {deps : List κ}
    (hd : ∀ d∈deps,d∈nodes) :
    ∃ turns v e,(∀ m ≥ turns,checkCycle hash dependencies orig deps m=some (v,e)) ∧ v≠.failed ∧
      (v=.cyclic ↔ ∃ d∈deps,ReflTransGen (fun a b => b∈dependencies a) d orig) ∧ e.Nodup :=
  checkCycle_ends hash orig hnodes hd

/-- Three services that depend on each other in a circle, none of them on the fourth -/
theorem cyclic_iff_reached_circle :
    (∀ s∈[0,1,2],∀ t∈[[1],[2],[0,1]].getD s [],t∈[0,1,2]) ∧
    ∃ turns v e,(∀ m ≥ turns,
        checkCycle (fun a => a) (fun s => [[1],[2],[0,1]].getD s []) 3 [0,2] m=some (v,e)) ∧
      v≠.failed ∧
      (v=.cyclic ↔ ∃ d∈[0,2],ReflTransGen (fun a b => b∈[[1],[2],[0,1]].getD a []) d 3) ∧ e.Nodup :=
  ⟨by decide,cyclic_iff_reached (fun a => a) (fun s => [[1],[2],[0,1]].getD s []) [0,1,2] (by decide) 3
    (by decide)⟩

end Dinit.CheckCycle

namespace Dinit.Core

open Framework Relation

variable {c : Core} {orig fuel : Nat} {s s' : Loader}

theorem walk_true {done todo : List Nat} (h : c.walk orig fuel done todo s=(some true,s')) :
    ∃ i∈todo,ReflTransGen c.Edge i orig := by
  induction fuel generalizing done todo with
  | zero => cases h
  | succ fuel ih =>
    cases todo with
    | nil => cases h
    | cons i todo =>
      simp only [walk] at h
      split at h
      · next hin =>
        have hedge : c.Edge i orig := by simpa [Edge] using hin
        exact ⟨i,List.mem_cons_self ..,.single hedge⟩
      · obtain ⟨j,hj,hreach⟩ := ih h
        obtain hj | hj := List.mem_append.mp hj
        · exact ⟨j,List.mem_cons_of_mem _ hj,hreach⟩
        · rw [List.mem_eraseDups,List.mem_filter] at hj
          exact ⟨i,List.mem_cons_self ..,.head hj.1 hreach⟩

theorem checkCycle_true {deps : List Nat} (h : c.checkCycle fuel deps orig s=(some true,s')) :
    ∃ i∈deps,ReflTransGen c.Edge i orig := by
  unfold checkCycle at h
  split at h
  · next hin => exact ⟨orig,by simpa using hin,.refl⟩
  · obtain ⟨i,hi,hreach⟩ := walk_true h
    exact ⟨i,List.mem_eraseDups.mp hi,hreach⟩

/-- The check that the loader's model makes is the outcome of the loops over the set. -/
theorem checkCycle_agrees (hash : Nat → Nat) (nodes : List Nat)
    (hnodes : ∀ i∈nodes,∀ j∈c.targets i,j∈nodes) {deps : List Nat} (hd : ∀ i∈deps,i∈nodes) {b : Bool}
    (h : c.checkCycle fuel deps orig s=(some b,s')) :
    ∃ turns e,∀ m ≥ turns,CheckCycle.checkCycle hash c.targets orig deps m=
      some (if b then .cyclic else .returned,e) := by
  obtain ⟨turns,v,e,hrun,hv,hiff,-⟩ := CheckCycle.checkCycle_ends hash orig hnodes hd
  have hverdict : v=if b then .cyclic else .returned := by
    cases b with
    | true => exact hiff.mpr (checkCycle_true h)
    | false =>
      have hno : v≠.cyclic := fun heq => by
        obtain ⟨i,hi,hreach⟩ := hiff.mp heq
        exact checkCycle_false h hi hreach
      cases v with
      | returned => rfl
      | cyclic => exact absurd rfl hno
      | failed => exact absurd rfl hv
  rw [← hverdict]
  exact ⟨turns,e,hrun⟩

end Dinit.Core
