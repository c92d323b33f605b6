import Dinit.Load.Relinked
import Dinit.Run.Spared
import Dinit.Safety.Requirements

namespace Dinit

open Framework Framework.Comp World Relation

/-- What tells whether a service is up and stays so. -/
structure Svc.SameStanding (s s' : Svc) : Prop where
  serviceState : s'.serviceState=s.serviceState
  desiredState : s'.desiredState=s.desiredState
  pinnedStarted : s'.pinnedStarted=s.pinnedStarted
  deptPinnedStarted : s'.deptPinnedStarted=s.deptPinnedStarted
  forceStop : s'.forceStop=s.forceStop
  propStop : s'.propStop=s.propStop

theorem Svc.SameStanding.refl (s : Svc) : s.SameStanding s := by constructor <;> rfl

theorem Svc.SameStanding.trans {s s' s'' : Svc} (h : s.SameStanding s') (h' : s'.SameStanding s'') :
    s.SameStanding s'' := by
  constructor
  · exact h'.serviceState.trans h.serviceState
  · exact h'.desiredState.trans h.desiredState
  · exact h'.pinnedStarted.trans h.pinnedStarted
  · exact h'.deptPinnedStarted.trans h.deptPinnedStarted
  · exact h'.forceStop.trans h.forceStop
  · exact h'.propStop.trans h.propStop

theorem Svc.SameStanding.stoppable {s s' : Svc} (h : s.SameStanding s') (hs : s'.Stoppable) :
    s.Stoppable := by
  unfold Stoppable isStartPinned at *
  rwa [h.pinnedStarted,h.deptPinnedStarted,h.serviceState] at hs

/-- A service that is STOPPED, or is to stop, stays so, and is not forced to. -/
structure Svc.StaysDown (s s' : Svc) : Prop where
  stopped : s.serviceState=.stopped → s'.serviceState=.stopped
  toStop : s.desiredState=.stopped → s'.desiredState=.stopped
  forceStop : s'.forceStop=s.forceStop

theorem Svc.StaysDown.trans {s s' s'' : Svc} (h : s.StaysDown s') (h' : s'.StaysDown s'') :
    s.StaysDown s'' where
  stopped hs := h'.stopped (h.stopped hs)
  toStop hd := h'.toStop (h.toStop hd)
  forceStop := h'.forceStop.trans h.forceStop

theorem Svc.SameStanding.staysDown {s s' : Svc} (h : s.SameStanding s') : s.StaysDown s' where
  stopped := h.serviceState.trans
  toStop := h.desiredState.trans
  forceStop := h.forceStop

theorem Svc.SameButReason.standing {s s' : Svc} (h : s.SameButReason s') : s.SameStanding s' := by
  obtain ⟨r,rfl⟩ := h
  constructor <;> rfl

namespace Core

variable {c c' : Core} {l x : Nat} {ls : List Nat}

/-- A dependent that the stop of `x` leaves alone is left alone later too. -/
theorem LeftAlone.mono {j : Nat} (h : c.LeftAlone x j)
    (hd : ∀ k, (c.svc k).StaysDown (c'.svc k)) : c'.LeftAlone x j := by
  unfold LeftAlone at *
  rw [(hd x).forceStop]
  exact h.imp (fun h => ⟨h.1,(hd j).stopped h.2.1,h.2.2.imp_right (hd j).toStop⟩)
    fun h => ⟨h.1,(hd j).toStop h.2⟩

/-- Something else than the links `ls` requires `x`. -/
def WantedBeside (c : Core) (ls : List Nat) (x : Nat) : Prop :=
  (c.svc x).startExplicit=true ∨
    ∃ l ∈ (c.svc x).dependents, l ∉ ls ∧ (c.link l).holdingAcq=true

/-- Every hard dependent of `x` holds it, or is left alone by its stop. -/
def HardHeld (c : Core) (x : Nat) : Prop :=
  ∀ l ∈ (c.svc x).dependents, (c.link l).isHard=true →
    (c.link l).holdingAcq=true ∨ c.LeftAlone x (c.link l).from_

/-- Without the links `ls` to it, `x` either goes on as it does or stops without telling
another service to. -/
def Droppable (c : Core) (ls : List Nat) (x : Nat) : Prop :=
  (c.svc x).Stoppable → c.WantedBeside ls x ∨ c.HardHeld x

theorem rmDep_requiredBy (c : Core) (l k : Nat) : ((c.rmDep l).svc k).requiredBy =
    (c.svc k).requiredBy-if (c.link l).holdingAcq && (c.link l).to_==k then 1 else 0 := by
  unfold rmDep
  split
  · next hh =>
    rw [release_svc]
    split
    · next hk =>
      subst hk
      rw [released_requiredBy,unlink_svc]
      simp [hh]
    · next hk =>
      rw [unlink_svc]
      simp [Ne.symm hk]
  · next hh =>
    rw [unlink_svc]
    simp [hh]

theorem rmDep_startExplicit (c : Core) (l k : Nat) :
    ((c.rmDep l).svc k).startExplicit=(c.svc k).startExplicit := by
  unfold rmDep
  split
  · rw [release_svc]
    split
    · next hk =>
      subst hk
      rw [released_startExplicit,unlink_svc]
    · rw [unlink_svc]
  · rw [unlink_svc]

theorem WantedBeside.pos (h : c.WantedBeside ls x) (hb : 0 ≤ c.balance x) :
    0<(c.svc x).requiredBy := by
  have ha : 0<c.accounts x := by
    unfold accounts
    rcases h with h | ⟨l,hl,-,hh⟩
    · rw [h,Bool.toNat_true]
      omega
    · have : 0<c.held x := List.countP_pos_iff.mpr ⟨l,hl,hh⟩
      omega
  unfold balance at hb
  omega

end Core

/-- What the removal of the link `l` does, with the stop that it may issue. -/
structure Removed (l : Nat) (w w' : World) : Prop where
  graph : (w.core.unlink l).SameGraph w'.core
  holdingAcq : ∀ k, (w'.core.link k).holdingAcq=(w.core.link k).holdingAcq
  isHard : ∀ k, (w'.core.link k).isHard=(w.core.link k).isHard
  requiredBy : ∀ k, (w'.core.svc k).requiredBy =
    (w.core.svc k).requiredBy-if (w.core.link l).holdingAcq && (w.core.link l).to_==k then 1 else 0
  startExplicit : ∀ k, (w'.core.svc k).startExplicit=(w.core.svc k).startExplicit
  standing : ∀ k, (w'.core.svc k).requiredBy≠0 ∨ (w.core.link l).to_≠k →
    (w.core.svc k).SameStanding (w'.core.svc k)
  staysDown : ∀ k, (w.core.svc k).StaysDown (w'.core.svc k)
  trace : ∃ t, w'.trace=t++(Call.rmDep l,w.core)::w.trace ∧ ∀ e ∈ t,
    e.1.StopsOnly (w.core.link l).to_ ∧ (w'.core.svc (w.core.link l).to_).requiredBy=0 ∧
      ∀ k, (e.2.svc k).requiredBy=(w'.core.svc k).requiredBy

section
variable {l x : Nat} {ls : List Nat} {w w' : World}

theorem Removed.dependents (h : Removed l w w') (k : Nat) : (w'.core.svc k).dependents =
    if k=(w.core.link l).to_ then (w.core.svc k).dependents.erase l else (w.core.svc k).dependents := by
  rw [h.graph.dependents,Core.unlink_dependents]

/-- Other links to a service stay. -/
theorem Removed.mem_dependents (h : Removed l w w') {k m : Nat} (hm : m ∈ (w.core.svc k).dependents)
    (hne : m≠l) : m ∈ (w'.core.svc k).dependents := by
  rw [h.dependents]
  split
  · exact (List.mem_erase_of_ne hne).mpr hm
  · exact hm

theorem Removed.of_mem_dependents (h : Removed l w w') {k m : Nat}
    (hm : m ∈ (w'.core.svc k).dependents) : m ∈ (w.core.svc k).dependents := by
  rw [h.dependents] at hm
  split at hm
  · exact List.mem_of_mem_erase hm
  · exact hm

theorem Removed.to_ (h : Removed l w w') (k : Nat) : (w'.core.link k).to_=(w.core.link k).to_ := by
  rw [h.graph.to_,Core.unlink_link]

theorem Removed.from_ (h : Removed l w w') (k : Nat) :
    (w'.core.link k).from_=(w.core.link k).from_ := by
  rw [h.graph.from_,Core.unlink_link]

theorem Removed.balance (h : Removed l w w')
    (hl : l ∈ (w.core.svc (w.core.link l).to_).dependents) (k : Nat) :
    w'.core.balance k=w.core.balance k := by
  rw [← Core.balance_rmDep hl k]
  unfold Core.balance Core.accounts Core.held
  rw [h.requiredBy,Core.rmDep_requiredBy,h.startExplicit,Core.rmDep_startExplicit,h.graph.dependents,
    (Core.rmDep_graph w.core l).dependents,Core.rmDep_link]
  simp only [h.holdingAcq]

theorem Removed.wanted (h : Removed l w w') (hw : w.core.WantedBeside (l::ls) x) :
    w'.core.WantedBeside ls x := by
  rcases hw with hw | ⟨m,hm,hne,hh⟩
  · exact .inl ((h.startExplicit x).trans hw)
  · refine .inr ⟨m,h.mem_dependents hm ?_,fun hml => hne (List.mem_cons_of_mem l hml),?_⟩
    · rintro rfl
      exact hne List.mem_cons_self
    · rw [h.holdingAcq]
      exact hh

theorem Removed.hardHeld (h : Removed l w w') (hw : w.core.HardHeld x) : w'.core.HardHeld x := by
  intro m hm hh
  rw [h.isHard] at hh
  rw [h.holdingAcq,h.from_]
  exact (hw m (h.of_mem_dependents hm) hh).imp_right fun hl => hl.mono h.staysDown

/-- How many of the links `ls` hold `x`. -/
def Core.holding (c : Core) (ls : List Nat) (x : Nat) : Nat :=
  ls.countP fun l => (c.link l).holdingAcq && (c.link l).to_==x

/-- The links `xs` are being removed, `ls` are to come. `u` is where this began. -/
structure Removing (u : World) (xs ls : List Nat) (w : World) : Prop where
  linked : w.core.Linked
  nodup : ls.Nodup
  mem : ∀ l ∈ ls, l ∈ (w.core.svc (w.core.link l).to_).dependents
  balance : ∀ k, 0 ≤ w.core.balance k
  drop : ∀ l ∈ ls, (w.core.link l).holdingAcq=true → w.core.Droppable ls (w.core.link l).to_
  nextLink : w.core.nextLink=u.core.nextLink
  to_ : ∀ k, (w.core.link k).to_=(u.core.link k).to_
  isHard : ∀ k, (w.core.link k).isHard=(u.core.link k).isHard
  holdingAcq : ∀ k, (w.core.link k).holdingAcq=(u.core.link k).holdingAcq
  requiredBy : ∀ k, (w.core.svc k).requiredBy-u.core.holding ls k =
    (u.core.svc k).requiredBy-u.core.holding xs k
  wanted : ∀ k, u.core.WantedBeside xs k →
    w.core.WantedBeside ls k ∧ (u.core.svc k).SameStanding (w.core.svc k)
  trace : ∃ t, w.trace=t++u.trace ∧
    (∀ l, t.countP (fun e => e.1==.rmDep l)+ls.count l=xs.count l) ∧
    ∀ k, u.core.WantedBeside xs k → ∀ e ∈ t, 0<(e.2.svc k).requiredBy ∧ ∀ r, e.1≠.doStop k r

theorem Removing.next {u : World} {xs : List Nat} (h : Removing u xs (l::ls) w)
    (hr : Removed l w w') : Removing u xs ls w' := by
  obtain ⟨hnl,hn⟩ := List.nodup_cons.mp h.nodup
  have hl := h.mem l List.mem_cons_self
  have hb (k : Nat) : 0 ≤ w'.core.balance k := by
    rw [hr.balance hl]
    exact h.balance k
  have hmem (k : Nat) (hk : k ∈ ls) : k ∈ (w'.core.svc (w'.core.link k).to_).dependents := by
    rw [hr.to_]
    refine hr.mem_dependents (h.mem k (List.mem_cons_of_mem l hk)) ?_
    rintro rfl
    exact hnl hk
  have hwant (k : Nat) (hk : u.core.WantedBeside xs k) : w'.core.WantedBeside ls k :=
    hr.wanted (h.wanted k hk).1
  refine ⟨(h.linked.unlink l).of_graph hr.graph,hn,hmem,hb,?_,?_,?_,?_,?_,?_,?_,?_⟩
  · intro k hk hh
    -- `k` still holds its target, which therefore has not been stopped
    have hpos : 0<(w'.core.svc (w'.core.link k).to_).requiredBy :=
      Core.WantedBeside.pos (.inr ⟨k,hmem k hk,List.not_mem_nil,hh⟩) (hb _)
    intro hs
    rw [hr.holdingAcq] at hh
    have hd := h.drop k (List.mem_cons_of_mem l hk) hh
    rw [hr.to_] at hpos hs ⊢
    rcases hd ((hr.standing _ (.inl (by omega))).stoppable hs) with hw | hw
    · exact .inl (hr.wanted hw)
    · exact .inr (hr.hardHeld hw)
  · exact hr.graph.nextLink.trans h.nextLink
  · exact fun k => (hr.to_ k).trans (h.to_ k)
  · exact fun k => (hr.isHard k).trans (h.isHard k)
  · exact fun k => (hr.holdingAcq k).trans (h.holdingAcq k)
  · intro k
    have hk := h.requiredBy k
    rw [Core.holding,List.countP_cons] at hk
    rw [hr.requiredBy,h.holdingAcq,h.to_]
    unfold Core.holding at hk ⊢
    split_ifs at hk ⊢ <;> push_cast at hk <;> omega
  · intro k hk
    have hpos := (hwant k hk).pos (hb k)
    exact ⟨hwant k hk,(h.wanted k hk).2.trans (hr.standing k (.inl (by omega)))⟩
  · obtain ⟨t,ht,hc,hp⟩ := h.trace
    obtain ⟨t',ht',hp'⟩ := hr.trace
    refine ⟨t'++(Call.rmDep l,w.core)::t,by rw [ht',ht]; simp,?_,?_⟩
    · intro k
      have hzero : t'.countP (fun e => e.1==.rmDep k)=0 := by
        rw [List.countP_eq_zero]
        intro e he hk
        have hs := (hp' e he).1
        rw [beq_iff_eq.mp hk] at hs
        exact hs
      have hck := hc k
      rw [List.count_cons] at hck
      rw [List.countP_append,hzero,List.countP_cons,Nat.zero_add]
      by_cases hkl : l=k
      · subst hkl
        simp only [beq_self_eq_true,if_true] at hck ⊢
        omega
      · have h1 : (Call.rmDep l==Call.rmDep k)=false := by simp [hkl]
        have h2 : (l==k)=false := by simp [hkl]
        rw [h2] at hck
        rw [h1]
        simpa using hck
    · intro k hk e he
      have hpos := (hwant k hk).pos (hb k)
      rcases List.mem_append.mp he with he | he
      · obtain ⟨hs,hz,hq⟩ := hp' e he
        refine ⟨by rw [hq]; exact hpos,?_⟩
        intro r hd
        rw [hd] at hs
        have hkl : k=(w.core.link l).to_ := hs
        rw [hkl] at hpos
        omega
      · rcases List.mem_cons.mp he with rfl | he
        · refine ⟨(h.wanted k hk).1.pos (h.balance k),?_⟩
          intro r hd
          cases hd
        · exact hp k hk e he

end

namespace Core

variable {c c' : Core} {i j l t : Nat} {ds : List (Nat × DependencyType)}

/-- Links have been added to `c`: those of the service `i`, which is up, to `ds`, and
"before" links. -/
structure Added (c : Core) (ds : List (Nat × DependencyType)) (c' : Core) : Prop where
  linked : c'.Linked
  balance : ∀ k, c'.balance k=c.balance k
  nextLink : c.nextLink ≤ c'.nextLink
  link : ∀ l, l<c.nextLink → c'.link l=c.link l
  dependents : ∀ k l, l<c.nextLink → (l ∈ (c'.svc k).dependents ↔ l ∈ (c.svc k).dependents)
  isHard : ∀ l, c.nextLink ≤ l → l<c'.nextLink → (c'.link l).isHard=true →
    (c'.link l).holdingAcq=true
  standing : ∀ k, (c.svc k).SameStanding (c'.svc k)
  startExplicit : ∀ k, (c'.svc k).startExplicit=(c.svc k).startExplicit
  requiredBy : ∀ k, k ∉ ds.map Prod.fst → (c'.svc k).requiredBy=(c.svc k).requiredBy
  regular : ∀ t, (t,DependencyType.regular) ∈ ds → ∃ l ∈ (c'.svc t).dependents,
    c.nextLink ≤ l ∧ (c'.link l).holdingAcq=true

theorem Added.refl (h : c.Linked) : c.Added [] c :=
  ⟨h,fun _ => rfl,Nat.le_refl _,fun _ _ => rfl,fun _ _ _ => Iff.rfl,
    fun l h1 h2 => absurd h2 (by omega),fun _ => .refl _,fun _ => rfl,fun _ _ => rfl,by simp⟩

/-- Links other than the new one are in the same lists. -/
theorem mem_linkAt_dependents (c : Core) (f t : Nat) (depType : DependencyType)
    (place dptPlace : Nat) {k l : Nat} (hl : l≠c.nextLink) :
    l ∈ ((c.linkAt f t depType place dptPlace).svc k).dependents ↔ l ∈ (c.svc k).dependents := by
  rw [linkAt_dependents]
  split
  · next h => simp [hl,h]
  · rfl

theorem Added.before (h : c.Added ds c') (j i : Nat) :
    c.Added ds (c'.linkAt j i .before 0 0) where
  linked := Linked.linkAt _ _ _ _ _ _ h.linked
  balance k := (balance_linkAt h.linked ..).trans (h.balance k)
  nextLink := Nat.le_succ_of_le h.nextLink
  link l hl := by
    have := h.nextLink
    rw [linkAt_link,if_neg (by omega),h.link l hl]
  dependents k l hl := by
    have := h.nextLink
    rw [mem_linkAt_dependents _ _ _ _ _ _ (by omega),h.dependents k l hl]
  isHard l hl hl' hh := by
    rw [linkAt_link] at hh ⊢
    split at hh
    · cases hh
    · next hne =>
      rw [if_neg hne]
      have hlt : l<c'.nextLink+1 := hl'
      exact h.isHard l hl (by omega) hh
  standing k := by
    refine (h.standing k).trans ?_
    rw [linkAt_svc]
    constructor <;> rfl
  startExplicit k := by
    rw [linkAt_svc]
    exact h.startExplicit k
  requiredBy k hk := by
    rw [linkAt_svc]
    exact h.requiredBy k hk
  regular t ht := by
    obtain ⟨l,hl,hn,hh⟩ := h.regular t ht
    have hlt := h.linked.dependents_below hl
    refine ⟨l,(mem_linkAt_dependents _ _ _ _ _ _ (by omega)).mpr hl,hn,?_⟩
    rw [linkAt_link,if_neg (by omega)]
    exact hh

theorem addDepAt_link_ne (c : Core) (f t : Nat) (depType : DependencyType) (place : Nat)
    (hl : l≠c.nextLink) : (c.addDepAt f t depType place).link l=c.link l := by
  unfold addDepAt
  dsimp only
  split <;> simp [hl]

/-- The new link of a service that is up holds a regular dependency. -/
theorem addDepAt_holds (c : Core) (f t place : Nat) (h : (c.svc f).serviceState=.started) :
    ((c.addDepAt f t .regular place).link c.nextLink).holdingAcq=true := by
  unfold addDepAt
  dsimp only
  rw [if_pos (by simp [h])]
  simp

theorem addDepAt_isHard (c : Core) (f t : Nat) (depType : DependencyType) (place : Nat)
    (h : ((c.addDepAt f t depType place).link c.nextLink).isHard=true) : depType=.regular := by
  unfold addDepAt at h
  dsimp only at h
  split at h <;> simpa [Link.isHard] using h

theorem addDepAt_standing (c : Core) (f t : Nat) (depType : DependencyType) (place k : Nat) :
    (c.svc k).SameStanding ((c.addDepAt f t depType place).svc k) ∧
      ((c.addDepAt f t depType place).svc k).startExplicit=(c.svc k).startExplicit ∧
      (k≠t → ((c.addDepAt f t depType place).svc k).requiredBy=(c.svc k).requiredBy) := by
  have hl : (c.svc k).SameStanding ((c.linkAt f t depType place (c.svc t).dependents.length).svc k) ∧
      ((c.linkAt f t depType place (c.svc t).dependents.length).svc k).startExplicit =
        (c.svc k).startExplicit ∧
      ((c.linkAt f t depType place (c.svc t).dependents.length).svc k).requiredBy =
        (c.svc k).requiredBy := by
    rw [linkAt_svc]
    exact ⟨by constructor <;> rfl,rfl,rfl⟩
  unfold addDepAt
  dsimp only
  split
  · rw [acquire_svc,linkAt_link,if_pos rfl]
    dsimp only
    split
    · next hk =>
      subst hk
      refine ⟨hl.1.trans (by constructor <;> rfl),hl.2.1,fun hne => absurd rfl hne⟩
    · exact ⟨hl.1,hl.2.1,fun _ => hl.2.2⟩
  · exact ⟨hl.1,hl.2.1,fun _ => hl.2.2⟩

theorem Added.addDep (h : c.Added ds c') (hs : (c.svc i).serviceState=.started) (t : Nat)
    (depType : DependencyType) (place : Nat) :
    c.Added (ds++[(t,depType)]) (c'.addDepAt i t depType place) := by
  have hs' : (c'.svc i).serviceState=.started := (h.standing i).serviceState.trans hs
  have hg := addDepAt_graph c' i t depType place
  have hmem {k l : Nat} (hl : l≠c'.nextLink) :
      l ∈ ((c'.addDepAt i t depType place).svc k).dependents ↔ l ∈ (c'.svc k).dependents := by
    rw [hg.dependents,mem_linkAt_dependents _ _ _ _ _ _ hl]
  have hn : (c'.addDepAt i t depType place).nextLink=c'.nextLink+1 := hg.nextLink
  have hle := h.nextLink
  refine ⟨Linked.addDepAt _ _ _ _ _ h.linked,?_,by omega,?_,?_,?_,?_,?_,?_,?_⟩
  · exact fun k => (balance_addDepAt h.linked ..).trans (h.balance k)
  · intro l hl
    rw [addDepAt_link_ne _ _ _ _ _ (by omega),h.link l hl]
  · intro k l hl
    rw [hmem (by omega),h.dependents k l hl]
  · intro l hl hl' hh
    by_cases hne : l=c'.nextLink
    · subst hne
      obtain rfl := addDepAt_isHard _ _ _ _ _ hh
      exact addDepAt_holds _ _ _ _ hs'
    · rw [addDepAt_link_ne _ _ _ _ _ hne] at hh ⊢
      exact h.isHard l hl (by omega) hh
  · exact fun k => (h.standing k).trans (addDepAt_standing ..).1
  · exact fun k => (addDepAt_standing ..).2.1.trans (h.startExplicit k)
  · intro k hk
    rw [List.map_append,List.mem_append,not_or] at hk
    rw [(addDepAt_standing ..).2.2 (by simpa using hk.2)]
    exact h.requiredBy k hk.1
  · intro k hk
    rcases List.mem_append.mp hk with hk | hk
    · obtain ⟨l,hl,hln,hh⟩ := h.regular k hk
      have hlt := h.linked.dependents_below hl
      refine ⟨l,(hmem (by omega)).mpr hl,hln,?_⟩
      rw [addDepAt_link_ne _ _ _ _ _ (by omega)]
      exact hh
    · obtain ⟨rfl,rfl⟩ : k=t ∧ DependencyType.regular=depType := by simpa using hk
      refine ⟨c'.nextLink,?_,hle,addDepAt_holds _ _ _ _ hs'⟩
      rw [hg.dependents,linkAt_dependents,if_pos rfl]
      simp

end Core

section
variable {i : Nat} {d : Draft} {w : World}

end

instance (s : Svc) : Decidable s.Stoppable := by
  unfold Svc.Stoppable
  infer_instance

instance (c : Core) (ls : List Nat) (x : Nat) : Decidable (c.Droppable ls x) := by
  unfold Core.Droppable Core.WantedBeside Core.HardHeld
  infer_instance

namespace Loader

end Loader
end Dinit
