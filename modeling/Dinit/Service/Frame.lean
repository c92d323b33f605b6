import Mathlib.Tactic.Set
import Mathlib.Tactic.SplitIfs
import Mathlib.Tactic.Tauto
import Dinit.Control.Event

namespace Dinit

open Framework Framework.Comp

namespace Svc

variable (s : Svc)

/-- Record functions that leave everything about the state, the process and the links
of the service alone. -/
structure SameState (s s' : Svc) : Prop where
  settings : s'.settings=s.settings
  serviceState : s'.serviceState=s.serviceState
  pinnedStopped : s'.pinnedStopped=s.pinnedStopped
  pinnedStarted : s'.pinnedStarted=s.pinnedStarted
  deptPinnedStarted : s'.deptPinnedStarted=s.deptPinnedStarted
  waitingForDeps : s'.waitingForDeps=s.waitingForDeps
  waitingForConsole : s'.waitingForConsole=s.waitingForConsole
  haveConsole : s'.haveConsole=s.haveConsole
  propFailure : s'.propFailure=s.propFailure
  dependsOn : s'.dependsOn=s.dependsOn
  dependents : s'.dependents=s.dependents
  proc : s'.proc=s.proc

theorem required_same : s.SameState s.required := by constructor <;> rfl

theorem released_same : s.SameState s.released := by
  unfold released
  split_ifs <;> constructor <;> rfl

theorem forced_same : s.SameState s.forced := by
  unfold forced
  split_ifs <;> constructor <;> rfl

end Svc

namespace Core

variable (c : Core) (i j l k : Nat) (f : Svc → Svc) (g : Link → Link)

@[simp] theorem setSvc_svc : (c.setSvc i f).svc j = if j=i then f (c.svc i) else c.svc j := rfl
@[simp] theorem setSvc_link : (c.setSvc i f).link=c.link := rfl
@[simp] theorem setSvc_records : (c.setSvc i f).records=c.records := rfl
@[simp] theorem setSvc_nextLink : (c.setSvc i f).nextLink=c.nextLink := rfl
@[simp] theorem setSvc_propQueue : (c.setSvc i f).propQueue=c.propQueue := rfl
@[simp] theorem setSvc_stopQueue : (c.setSvc i f).stopQueue=c.stopQueue := rfl
@[simp] theorem setSvc_consoleQueue : (c.setSvc i f).consoleQueue=c.consoleQueue := rfl
@[simp] theorem setProc_eq (f : Proc → Proc) :
    c.setProc i f=c.setSvc i fun s => { s with proc := f s.proc } := rfl

/-- Only what an update makes of the record it is for matters. -/
theorem setSvc_congr {f g : Svc → Svc} (h : f (c.svc i)=g (c.svc i)) :
    c.setSvc i f=c.setSvc i g := by
  simp only [setSvc,h]

theorem setSvc_setSvc (f g : Svc → Svc) :
    (c.setSvc i f).setSvc i g=c.setSvc i fun s => g (f s) := by
  simp only [setSvc,if_true]
  congr 1
  funext j
  split_ifs <;> rfl

@[simp] theorem setLink_svc : (c.setLink l g).svc=c.svc := rfl
@[simp] theorem setLink_link : (c.setLink l g).link k = if k=l then g (c.link l) else c.link k := rfl
@[simp] theorem setLink_records : (c.setLink l g).records=c.records := rfl
@[simp] theorem setLink_nextLink : (c.setLink l g).nextLink=c.nextLink := rfl
@[simp] theorem setLink_propQueue : (c.setLink l g).propQueue=c.propQueue := rfl
@[simp] theorem setLink_stopQueue : (c.setLink l g).stopQueue=c.stopQueue := rfl
@[simp] theorem setLink_consoleQueue : (c.setLink l g).consoleQueue=c.consoleQueue := rfl

@[simp] theorem setLinks_svc (ls : List Nat) : (c.setLinks ls g).svc=c.svc := rfl
@[simp] theorem setLinks_link (ls : List Nat) :
    (c.setLinks ls g).link k = if k ∈ ls then g (c.link k) else c.link k := by
  simp [setLinks]
@[simp] theorem setLinks_records (ls : List Nat) : (c.setLinks ls g).records=c.records := rfl
@[simp] theorem setLinks_nextLink (ls : List Nat) : (c.setLinks ls g).nextLink=c.nextLink := rfl
@[simp] theorem setLinks_propQueue (ls : List Nat) : (c.setLinks ls g).propQueue=c.propQueue := rfl
@[simp] theorem setLinks_stopQueue (ls : List Nat) : (c.setLinks ls g).stopQueue=c.stopQueue := rfl
@[simp] theorem setLinks_consoleQueue (ls : List Nat) :
    (c.setLinks ls g).consoleQueue=c.consoleQueue := rfl

@[simp] theorem addPropQueue_svc : (c.addPropQueue i).svc=c.svc := rfl
@[simp] theorem addPropQueue_link : (c.addPropQueue i).link=c.link := rfl
@[simp] theorem addPropQueue_records : (c.addPropQueue i).records=c.records := rfl
@[simp] theorem addPropQueue_nextLink : (c.addPropQueue i).nextLink=c.nextLink := rfl
@[simp] theorem addPropQueue_propQueue : (c.addPropQueue i).propQueue=c.propQueue.add i := rfl
@[simp] theorem addPropQueue_stopQueue : (c.addPropQueue i).stopQueue=c.stopQueue := rfl
@[simp] theorem addPropQueue_consoleQueue : (c.addPropQueue i).consoleQueue=c.consoleQueue := rfl

@[simp] theorem setProp_svc (q : Bool) :
    (c.setProp i f q).svc j = if j=i then f (c.svc i) else c.svc j := by
  cases q <;> rfl
@[simp] theorem setProp_link (q : Bool) : (c.setProp i f q).link=c.link := by cases q <;> rfl
@[simp] theorem setProp_records (q : Bool) : (c.setProp i f q).records=c.records := by
  cases q <;> rfl
@[simp] theorem setProp_nextLink (q : Bool) : (c.setProp i f q).nextLink=c.nextLink := by
  cases q <;> rfl
@[simp] theorem setProp_propQueue (q : Bool) : (c.setProp i f q).propQueue =
    if q then c.propQueue.add i else c.propQueue := by
  cases q <;> rfl
@[simp] theorem setProp_stopQueue (q : Bool) : (c.setProp i f q).stopQueue=c.stopQueue := by
  cases q <;> rfl
@[simp] theorem setProp_consoleQueue (q : Bool) :
    (c.setProp i f q).consoleQueue=c.consoleQueue := by
  cases q <;> rfl

@[simp] theorem require_svc :
    (c.require i).svc j = if j=i then (c.svc i).required else c.svc j := by
  simp [require]
@[simp] theorem require_link : (c.require i).link=c.link := by simp [require]
@[simp] theorem require_records : (c.require i).records=c.records := by simp [require]
@[simp] theorem require_nextLink : (c.require i).nextLink=c.nextLink := by simp [require]
@[simp] theorem require_stopQueue : (c.require i).stopQueue=c.stopQueue := by simp [require]
@[simp] theorem require_consoleQueue : (c.require i).consoleQueue=c.consoleQueue := by simp [require]

@[simp] theorem release_svc :
    (c.release i).svc j = if j=i then (c.svc i).released else c.svc j := by
  simp [release]
@[simp] theorem release_link : (c.release i).link=c.link := by simp [release]
@[simp] theorem release_records : (c.release i).records=c.records := by simp [release]
@[simp] theorem release_nextLink : (c.release i).nextLink=c.nextLink := by simp [release]
@[simp] theorem release_stopQueue : (c.release i).stopQueue=c.stopQueue := by simp [release]
@[simp] theorem release_consoleQueue : (c.release i).consoleQueue=c.consoleQueue := by simp [release]

@[simp] theorem forcedStop_svc :
    (c.forcedStop i).svc j = if j=i then (c.svc i).forced else c.svc j := by
  simp [forcedStop]
@[simp] theorem forcedStop_link : (c.forcedStop i).link=c.link := by simp [forcedStop]
@[simp] theorem forcedStop_records : (c.forcedStop i).records=c.records := by simp [forcedStop]
@[simp] theorem forcedStop_nextLink : (c.forcedStop i).nextLink=c.nextLink := by simp [forcedStop]
@[simp] theorem forcedStop_stopQueue : (c.forcedStop i).stopQueue=c.stopQueue := by simp [forcedStop]
@[simp] theorem forcedStop_consoleQueue : (c.forcedStop i).consoleQueue=c.consoleQueue := by simp [forcedStop]

@[simp] theorem acquire_svc :
    (c.acquire l).svc j = if j=(c.link l).to_ then (c.svc j).required else c.svc j := by
  by_cases h : j=(c.link l).to_ <;> simp [acquire,h]
@[simp] theorem acquire_link :
    (c.acquire l).link k = if k=l then { c.link l with holdingAcq := true } else c.link k := by
  simp [acquire]
@[simp] theorem acquire_stopQueue : (c.acquire l).stopQueue=c.stopQueue := by simp [acquire]
@[simp] theorem acquire_consoleQueue : (c.acquire l).consoleQueue=c.consoleQueue := by
  simp [acquire]
@[simp] theorem acquire_nextLink : (c.acquire l).nextLink=c.nextLink := by simp [acquire]

@[simp] theorem dropLink_svc :
    (c.dropLink l i).svc j = if j=i then (c.svc i).released else c.svc j := by
  simp [dropLink]
@[simp] theorem dropLink_link :
    (c.dropLink l i).link k = if k=l then { c.link l with holdingAcq := false } else c.link k := by
  simp [dropLink]
@[simp] theorem dropLink_stopQueue : (c.dropLink l i).stopQueue=c.stopQueue := by simp [dropLink]
@[simp] theorem dropLink_consoleQueue : (c.dropLink l i).consoleQueue=c.consoleQueue := by
  simp [dropLink]
@[simp] theorem dropLink_nextLink : (c.dropLink l i).nextLink=c.nextLink := by simp [dropLink]

@[simp] theorem dropExplicit_svc : (c.dropExplicit i).svc j =
    if j=i then Svc.released { c.svc i with startExplicit := false } else c.svc j := by
  by_cases h : j=i <;> simp [dropExplicit,h]
@[simp] theorem dropExplicit_link : (c.dropExplicit i).link=c.link := by simp [dropExplicit]
@[simp] theorem dropExplicit_stopQueue : (c.dropExplicit i).stopQueue=c.stopQueue := by
  simp [dropExplicit]
@[simp] theorem dropExplicit_consoleQueue : (c.dropExplicit i).consoleQueue=c.consoleQueue := by
  simp [dropExplicit]
@[simp] theorem dropExplicit_nextLink : (c.dropExplicit i).nextLink=c.nextLink := by
  simp [dropExplicit]

@[simp] theorem unrecoverableStop_svc : (c.unrecoverableStop i).svc j =
    if j=i then Svc.forced { c.svc i with desiredState := .stopped } else c.svc j := by
  by_cases h : j=i <;> simp [unrecoverableStop,h]
@[simp] theorem unrecoverableStop_link : (c.unrecoverableStop i).link=c.link := by
  simp [unrecoverableStop]
@[simp] theorem unrecoverableStop_stopQueue : (c.unrecoverableStop i).stopQueue=c.stopQueue := by
  simp [unrecoverableStop]
@[simp] theorem unrecoverableStop_consoleQueue :
    (c.unrecoverableStop i).consoleQueue=c.consoleQueue := by
  simp [unrecoverableStop]
@[simp] theorem unrecoverableStop_nextLink : (c.unrecoverableStop i).nextLink=c.nextLink := by
  simp [unrecoverableStop]

theorem forceDependent_svc_ne (h : k≠j) : (c.forceDependent i j).svc k=c.svc k := by
  unfold forceDependent
  dsimp only
  split_ifs <;> simp [h]
theorem forceDependent_svc : (c.forceDependent i j).svc j =
    if (c.svc i).forceStop then
      if (c.svc i).desiredState=.stopped then
        Svc.forced { c.svc j with stopReason := .depfailed, desiredState := .stopped }
      else (c.svc j).forced
    else c.svc j := by
  unfold forceDependent
  dsimp only
  split_ifs <;> simp
@[simp] theorem forceDependent_link : (c.forceDependent i j).link=c.link := by
  unfold forceDependent
  dsimp only
  split_ifs <;> simp

@[simp] theorem unlink_link : (c.unlink l).link=c.link := rfl

theorem linkAt_proc (t : Nat) (depType : DependencyType) (place dptPlace : Nat) :
    ((c.linkAt i t depType place dptPlace).svc j).proc=(c.svc j).proc := by
  simp only [linkAt,setSvc_svc,setLink_svc]
  split_ifs <;> simp_all

theorem addDepAt_proc (t : Nat) (depType : DependencyType) (place : Nat) :
    ((c.addDepAt i t depType place).svc j).proc=(c.svc j).proc := by
  unfold addDepAt
  dsimp only
  split
  · rw [acquire_svc]
    split <;> exact linkAt_proc c i j t depType _ _
  · exact linkAt_proc c i j t depType _ _

theorem rmDep_proc : ((c.rmDep l).svc j).proc=(c.svc j).proc := by
  have hunlink : ((c.unlink l).svc j).proc=(c.svc j).proc := by
    simp only [unlink,setSvc_svc]
    split_ifs <;> simp_all
  unfold rmDep
  split
  · rw [release_svc]
    split
    · next h => rw [(Svc.released_same _).proc,← h,hunlink]
    · exact hunlink
  · exact hunlink

@[simp] theorem propagateFailure_svc : (c.propagateFailure i).svc j =
    if j=i then { c.svc i with propFailure := true } else c.svc j := by
  simp [propagateFailure]
@[simp] theorem propagateFailure_link : (c.propagateFailure i).link=c.link := by
  simp [propagateFailure]
@[simp] theorem propagateFailure_stopQueue : (c.propagateFailure i).stopQueue=c.stopQueue := by
  simp [propagateFailure]

@[simp] theorem unqueueConsole_svc : (c.unqueueConsole i).svc j =
    if j=i then { c.svc i with waitingForConsole := false } else c.svc j := by
  simp [unqueueConsole]
@[simp] theorem unqueueConsole_link : (c.unqueueConsole i).link=c.link := rfl
@[simp] theorem unqueueConsole_propQueue : (c.unqueueConsole i).propQueue=c.propQueue := rfl
@[simp] theorem unqueueConsole_stopQueue : (c.unqueueConsole i).stopQueue=c.stopQueue := rfl

end Core

/-- The calls that the atomic updates of the state machine make themselves. -/
def Call.IsMinor : Call → Prop
  | .addTransitionQueue _ | .initiateStart _ | .failedToStart _ _ | .doStart _
  | .logServiceStarted _ | .startCancelled _ => True
  | _ => False

namespace World

variable (w : World) (i j l : Nat) (f : Core → Core) (k : Call)

@[simp] theorem onCore_core : (w.onCore f).core=f w.core := rfl
@[simp] theorem onCore_trace : (w.onCore f).trace=w.trace := rfl
@[simp] theorem onCore_ctx : (w.onCore f).ctx=w.ctx := rfl
@[simp] theorem push_core : (w.push k).core=w.core := rfl
@[simp] theorem push_trace : (w.push k).trace=(k,w.core)::w.trace := rfl
@[simp] theorem push_ctx : (w.push k).ctx=w.ctx := rfl
@[simp] theorem nextFlag_core : w.nextFlag.core=w.core := rfl
@[simp] theorem nextFlag_trace : w.nextFlag.trace=w.trace := rfl

@[simp] theorem addTransitionQueue_core : (w.addTransitionQueue i).core =
    { w.core with stopQueue := w.core.stopQueue.add i } := rfl
@[simp] theorem addTransitionQueue_trace : (w.addTransitionQueue i).trace =
    (.addTransitionQueue i,w.core)::w.trace := rfl
@[simp] theorem addTransitionQueue_ctx : (w.addTransitionQueue i).ctx=w.ctx := rfl

/-- Only the transition queue and the trace differ. -/
structure Queued (w w' : World) : Prop where
  svc : w'.core.svc=w.core.svc
  link : w'.core.link=w.core.link
  propQueue : w'.core.propQueue=w.core.propQueue
  consoleQueue : w'.core.consoleQueue=w.core.consoleQueue
  records : w'.core.records=w.core.records
  nextLink : w'.core.nextLink=w.core.nextLink
  ctx : w'.ctx=w.ctx

theorem Queued.refl : Queued w w := by constructor <;> rfl

theorem addTransitionQueue_queued : Queued w (w.addTransitionQueue i) := by constructor <;> rfl

theorem dependencyStarted_queued : Queued w (w.dependencyStarted i) := by
  unfold dependencyStarted
  dsimp only
  split
  · exact addTransitionQueue_queued w i
  · exact Queued.refl w

theorem dependentStopped_queued : Queued w (w.dependentStopped i) := by
  unfold dependentStopped
  dsimp only
  split
  · exact addTransitionQueue_queued w i
  · exact Queued.refl w

@[simp] theorem dependencyStarted_svc : (w.dependencyStarted i).core.svc=w.core.svc :=
  (dependencyStarted_queued w i).svc
@[simp] theorem dependencyStarted_link : (w.dependencyStarted i).core.link=w.core.link :=
  (dependencyStarted_queued w i).link
@[simp] theorem dependencyStarted_propQueue :
    (w.dependencyStarted i).core.propQueue=w.core.propQueue :=
  (dependencyStarted_queued w i).propQueue
@[simp] theorem dependencyStarted_ctx : (w.dependencyStarted i).ctx=w.ctx :=
  (dependencyStarted_queued w i).ctx
@[simp] theorem dependentStopped_svc : (w.dependentStopped i).core.svc=w.core.svc :=
  (dependentStopped_queued w i).svc
@[simp] theorem dependentStopped_link : (w.dependentStopped i).core.link=w.core.link :=
  (dependentStopped_queued w i).link
@[simp] theorem dependentStopped_propQueue :
    (w.dependentStopped i).core.propQueue=w.core.propQueue :=
  (dependentStopped_queued w i).propQueue
@[simp] theorem dependentStopped_ctx : (w.dependentStopped i).ctx=w.ctx :=
  (dependentStopped_queued w i).ctx

@[simp] theorem clearWait_svc : (w.clearWait l).core.svc=w.core.svc := by
  simp [clearWait]
@[simp] theorem clearWait_link (k : Nat) : (w.clearWait l).core.link k =
    if k=l then { w.core.link l with waitingOn := false } else w.core.link k := by
  simp [clearWait]
@[simp] theorem clearWait_propQueue : (w.clearWait l).core.propQueue=w.core.propQueue := by
  simp [clearWait]
@[simp] theorem clearWait_ctx : (w.clearWait l).ctx=w.ctx := by simp [clearWait]

@[simp] theorem notifyStarted_svc : (w.notifyStarted l).core.svc=w.core.svc := by
  unfold notifyStarted
  split <;> simp
@[simp] theorem notifyStarted_link (k : Nat) : (w.notifyStarted l).core.link k =
    if k=l then { w.core.link l with waitingOn := false } else w.core.link k := by
  unfold notifyStarted
  split
  · simp
  · next h =>
    split
    · next hk =>
      subst hk
      cases hl : w.core.link k
      simp_all
    · rfl
@[simp] theorem notifyStarted_propQueue : (w.notifyStarted l).core.propQueue=w.core.propQueue := by
  unfold notifyStarted
  split <;> simp
@[simp] theorem notifyStarted_ctx : (w.notifyStarted l).ctx=w.ctx := by
  unfold notifyStarted
  split <;> simp

theorem breakSoft_svc : (w.breakSoft i l).core.svc j =
    if j=i ∧ (w.core.link l).isHard=false ∧ (w.core.link l).holdingAcq=true
    then (w.core.svc i).released else w.core.svc j := by
  unfold breakSoft
  dsimp only
  split_ifs <;> simp_all
@[simp] theorem breakSoft_ctx : (w.breakSoft i l).ctx=w.ctx := by
  unfold breakSoft
  dsimp only
  split_ifs <;> simp

theorem foldl_svc {f : World → Nat → World} (h : ∀ w l, (f w l).core.svc=w.core.svc)
    (ls : List Nat) (w : World) : (ls.foldl f w).core.svc=w.core.svc := by
  induction ls generalizing w with
  | nil => rfl
  | cons l ls ih => rw [List.foldl_cons,ih,h]

theorem foldl_link {f : World → Nat → World} (h : ∀ w l, (f w l).core.link=w.core.link)
    (ls : List Nat) (w : World) : (ls.foldl f w).core.link=w.core.link := by
  induction ls generalizing w with
  | nil => rfl
  | cons l ls ih => rw [List.foldl_cons,ih,h]

@[simp] theorem signalDependencies_svc : (w.signalDependencies i).core.svc=w.core.svc :=
  foldl_svc (fun w _ => dependentStopped_svc w _) _ w

@[simp] theorem signalDependencies_link : (w.signalDependencies i).core.link=w.core.link :=
  foldl_link (fun w _ => dependentStopped_link w _) _ w

@[simp] theorem becomeStarted_svc : (w.becomeStarted i).core.svc j =
    if j=i then { w.core.svc i with serviceState := .started } else w.core.svc j := by
  unfold becomeStarted
  dsimp only
  split
  · simp
  · rw [foldl_svc fun w l => notifyStarted_svc w l]
    simp

@[simp] theorem beginStop_svc (all : Bool) : (w.beginStop i all).core.svc j =
    if j=i then { w.core.svc i with serviceState := .stopping, waitingForDeps := !all }
    else w.core.svc j := by
  cases all <;> simp [beginStop]
@[simp] theorem beginStop_link (all : Bool) : (w.beginStop i all).core.link=w.core.link := by
  cases all <;> simp [beginStop]
@[simp] theorem beginStop_propQueue (all : Bool) :
    (w.beginStop i all).core.propQueue=w.core.propQueue := by
  cases all <;> simp [beginStop]
@[simp] theorem beginStop_ctx (all : Bool) : (w.beginStop i all).ctx=w.ctx := by
  cases all <;> simp [beginStop]

@[simp] theorem cancelWait_svc (all : Bool) : (w.cancelWait i all).core.svc j =
    if j=i then { w.core.svc i with
      serviceState := .stopping, waitingForDeps := !all, waitingForConsole := false }
    else w.core.svc j := by
  by_cases hj : j=i <;> simp [cancelWait,hj]
@[simp] theorem cancelWait_link (all : Bool) : (w.cancelWait i all).core.link=w.core.link := by
  simp [cancelWait]

/-- The trace only grows. -/
def Grows (w w' : World) : Prop := ∃ t, w'.trace=t++w.trace

theorem Grows.refl : Grows w w := ⟨[],rfl⟩

variable {w} in
theorem Grows.trans {w' w'' : World} (h : Grows w w') (h' : Grows w' w'') : Grows w w'' := by
  obtain ⟨t,ht⟩ := h
  obtain ⟨t',ht'⟩ := h'
  exact ⟨t'++t,by rw [ht',ht,List.append_assoc]⟩

variable {w} in
theorem Grows.mem {w' : World} (h : Grows w w') {e : Call × Core} (he : e ∈ w.trace) :
    e ∈ w'.trace := by
  obtain ⟨t,ht⟩ := h
  rw [ht]
  exact List.mem_append_right t he

/-- The calls made in between all satisfy `P`. -/
def GrowsBy (P : Call → Prop) (w w' : World) : Prop :=
  ∃ t, w'.trace=t++w.trace ∧ ∀ e ∈ t, P e.1

section
variable {P : Call → Prop} {w}

variable (w) in
theorem GrowsBy.refl : GrowsBy P w w := ⟨[],rfl,by simp⟩

theorem GrowsBy.trans {w' w'' : World} (h : GrowsBy P w w') (h' : GrowsBy P w' w'') :
    GrowsBy P w w'' := by
  obtain ⟨t,ht,hp⟩ := h
  obtain ⟨t',ht',hp'⟩ := h'
  refine ⟨t'++t,by rw [ht',ht,List.append_assoc],?_⟩
  intro e he
  rcases List.mem_append.mp he with he | he
  · exact hp' e he
  · exact hp e he

theorem GrowsBy.grows {w' : World} (h : GrowsBy P w w') : Grows w w' := by
  obtain ⟨t,ht,_⟩ := h
  exact ⟨t,ht⟩

/-- An entry that was not there is one of the calls made in between. -/
theorem GrowsBy.entry {w' : World} (h : GrowsBy P w w') {e : Call × Core} (he : e ∈ w'.trace) :
    e ∈ w.trace ∨ P e.1 := by
  obtain ⟨t,ht,hp⟩ := h
  rw [ht] at he
  rcases List.mem_append.mp he with he | he
  · exact .inr (hp e he)
  · exact .inl he

theorem GrowsBy.mono {Q : Call → Prop} {w' : World} (h : GrowsBy P w w') (hq : ∀ k, P k → Q k) :
    GrowsBy Q w w' := by
  obtain ⟨t,ht,hp⟩ := h
  exact ⟨t,ht,fun e he => hq e.1 (hp e he)⟩

theorem growsBy_same {u : World} (h : u.trace=w.trace) : GrowsBy P w u := ⟨[],h,by simp⟩

variable (w) in
theorem growsBy_push (h : P k) : GrowsBy P w (w.push k) :=
  ⟨[(k,w.core)],rfl,by simpa using h⟩

end

/-- A call made after the state has changed. -/
theorem growsBy_onCore_push {P : Call → Prop} (h : P k) : GrowsBy P w ((w.onCore f).push k) :=
  ⟨[(k,f w.core)],rfl,by simpa using h⟩

theorem grows_push : Grows w (w.push k) := ⟨[(k,w.core)],rfl⟩

theorem grows_onCore : Grows w (w.onCore f) := ⟨[],rfl⟩

end World

end Dinit
