import Dinit.Load.Step

namespace Dinit

open Framework Framework.Comp

/-- What the loader does to the list of records and to links. -/
inductive Core.Relinks (c : Core) : Core → Prop
  | records (rs : List Nat) : c.Relinks { c with records := rs }
  | unlink (l : Nat) : c.Relinks (c.unlink l)
  | rmDep (l : Nat) : c.Relinks (c.rmDep l)
  | linkAt (f t : Nat) (depType : DependencyType) (place dptPlace : Nat) :
      c.Relinks (c.linkAt f t depType place dptPlace)
  | moveDependents (i j : Nat) (ls : List Nat) : c.Relinks (c.moveDependents i j ls)
  | moveDependencies (i j : Nat) (ls : List Nat) : c.Relinks (c.moveDependencies i j ls)

namespace Loader

/-- A relation that the operations of the loader keep to, whichever records and links they
are about. -/
structure Lax (R : Loader → Loader → Prop) : Prop where
  refl : ∀ s, R s s
  trans : ∀ s s' s'', R s s' → R s' s'' → R s s''
  onCore : ∀ s f, s.core.Relinks (f s.core) → R s (s.onCore f)
  push : ∀ s k, R s (s.push k)
  undefined : ∀ s : Loader, R s (s.onReg fun r => { r with undefined := true })
  logType : ∀ (s : Loader) f, R s (s.onReg fun r => { r with logType := f })
  setLogConsumer : ∀ s i k, R s (s.setLogConsumer i k)
  setConsumerFor : ∀ s i p, R s (s.setConsumerFor i p)
  allocate : ∀ s settings, R s (s.allocate settings false)
  delete : ∀ s i, R s (s.delete i)

variable {R : Loader → Loader → Prop} (h : Lax R)
include h

theorem Lax.removeService (s : Loader) (i : Nat) : R s (s.removeService i) := by
  unfold Loader.removeService requires
  split
  · exact h.onCore s _ (.records _)
  · exact h.undefined s

theorem Lax.dropPlaceholder (s : Loader) (i : Nat) (b : Bool) : R s (s.dropPlaceholder i b) := by
  unfold Loader.dropPlaceholder requires
  dsimp only
  split_ifs
  · exact h.trans _ _ _ (h.removeService s i) (h.delete _ i)
  · exact h.removeService s i
  · exact h.refl s
  · exact h.undefined s

theorem Lax.foldl {α : Type} {f : Loader → α → Loader} (hf : ∀ u x, R u (f u x)) (xs : List α)
    (s : Loader) : R s (xs.foldl f s) := by
  induction xs generalizing s with
  | nil => exact h.refl s
  | cons x xs ih => exact h.trans _ _ _ (hf s x) (ih _)

theorem Lax.dropDependency (s : Loader) (l : Nat) : R s (s.dropDependency l) := by
  have h1 := h.onCore s (fun c => c.unlink l) (.unlink l)
  unfold Loader.dropDependency
  dsimp only
  split
  · exact h.trans _ _ _ h1 (h.dropPlaceholder _ _ true)
  · exact h1

theorem Lax.dropDependent (s : Loader) (l : Nat) : R s (s.dropDependent l) :=
  h.trans _ _ _ (h.onCore s (fun c => c.rmDep l) (.rmDep l)) (h.dropPlaceholder _ _ true)

theorem Lax.prepareForUnload (s : Loader) (i : Nat) : R s (s.prepareForUnload i) :=
  h.trans _ _ _ (h.foldl h.dropDependency _ s) (h.foldl h.dropDependent _ _)

theorem Lax.withLinks (s : Loader) (file : File) (fullname : String) (orig : Nat) (d : Draft) :
    R s (s.withLinks file fullname orig d) := by
  have h1 := h.trans _ _ _ (h.push s (.replace orig s.reg.nextSvc))
    (h.allocate _ { file.settings with serviceName := fullname })
  have h2 := h.trans _ _ _ h1 (h.logType _ fun j =>
    if j=s.reg.nextSvc then file.logType else s.reg.logType j)
  have h3 := h.trans _ _ _ h2 (h.foldl (f := fun u (dep : Nat × DependencyType) =>
    u.onCore fun c => c.linkLast s.reg.nextSvc dep.1 dep.2) (fun u _ => h.onCore u _ (.linkAt ..))
    d.depends _)
  exact h.trans _ _ _ h3 (h.foldl (f := fun u j => u.onCore fun c =>
    c.linkLast j s.reg.nextSvc .before) (fun u _ => h.onCore u _ (.linkAt ..)) d.beforeDeps _)

theorem Lax.takeOver (s : Loader) (i orig : Nat) : R s (s.takeOver i orig) := by
  have h1 (u : Loader) : R u (u.handOver orig i) :=
    h.trans _ _ _ (h.trans _ _ _ (h.onCore u _ (.moveDependents ..)) (h.push _ (.transfer orig)))
      (h.onCore _ _ (.moveDependencies ..))
  rw [takeOver_eq]
  exact h.trans _ _ _ (h.foldl h.dropDependent ((s.core.svc orig).dependents.filter fun l =>
    (s.core.link l).depType==.before) s) (h1 _)

theorem Lax.handConsumer (s : Loader) (i orig : Nat) : R s (s.handConsumer i orig) := by
  unfold Loader.handConsumer
  split
  · exact h.setConsumerFor s _ _
  · exact h.refl s

theorem Lax.dropConsumed (s : Loader) (orig : Nat) (p : Option Nat) :
    R s (s.dropConsumed orig p) := by
  unfold Loader.dropConsumed
  split
  · split
    · exact h.setLogConsumer s _ _
    · exact h.refl s
  · exact h.refl s

theorem Lax.retire (s : Loader) (orig : Nat) (d : Draft) (i : Nat) : R s (s.retire orig d i) := by
  have h1 : R s (if (s.core.svc i).isProcess then s.handConsumer i orig else s) := by
    split
    · exact h.handConsumer s i orig
    · exact h.refl s
  unfold Loader.retire
  dsimp only
  generalize (if (s.core.svc i).isProcess then s.handConsumer i orig else s)=u at h1 ⊢
  have h2 := h.trans _ _ _ h1 (h.prepareForUnload u orig)
  split
  · exact h.trans _ _ _ h2 (h.dropConsumed _ orig d.consumerOf)
  · exact h2

theorem Lax.createRecord (s : Loader) (file : File) (fullname : String) (orig : Nat) (d : Draft) :
    R s (s.createRecord file fullname orig d).2 := by
  rw [createRecord_snd]
  have h1 := h.trans _ _ _ (h.withLinks s file fullname orig d) (h.takeOver _ s.reg.nextSvc orig)
  have h2 := h.trans _ _ _ h1 (h.retire _ orig d s.reg.nextSvc)
  exact h.trans _ _ _ (h.trans _ _ _ h2 (h.onCore _ _ (.records _))) (h.delete _ orig)

theorem Lax.setConsumer (s : Loader) (i : Nat) (d : Draft) : R s (s.setConsumer i d) := by
  have h1 := h.trans _ _ _ (h.push s (.consume i d.consumerOf)) (h.setConsumerFor _ i d.consumerOf)
  unfold Loader.setConsumer
  dsimp only
  split
  · split
    · exact h.trans _ _ _ h1 (h.setLogConsumer _ _ _)
    · exact h1
  · exact h.refl s

theorem Lax.cleanup (s : Loader) (dummy : Option Nat) (d : Draft) : R s (s.cleanup dummy d) := by
  have h1 := h.push s (.cleanup dummy d.beforeDeps d.afterDeps d.consumerOf.toList)
  have h2 (u : Loader) : R u (u.dropDummy dummy) := by
    cases dummy with
    | none => exact h.refl u
    | some i => exact h.trans _ _ _ (h.removeService u i) (h.delete _ i)
  rw [cleanup_eq]
  exact h.trans _ _ _ (h.trans _ _ _ h1 (h2 _))
    (h.foldl (fun u (x : Nat × Bool) => h.dropPlaceholder u x.1 x.2) (candidates d) _)

theorem Lax.unloadService (s : Loader) (i : Nat) : R s (s.unloadService i) := by
  have h1 := h.push s (.unload i)
  have h2 (u : Loader) (n : String) : R u (u.addPlaceholder n) :=
    h.trans _ _ _ (h.allocate u { serviceName := n }) (h.onCore _ _ (.records _))
  have h3 (u : Loader) (i j : Nat) (ls ms : List Nat) :
      R u (u.onCore fun c => (c.moveDependents i j ls).moveDependencies i j ms) :=
    h.trans _ _ _ (h.onCore u (fun c => c.moveDependents i j ls) (.moveDependents ..))
      (h.onCore _ (fun c => c.moveDependencies i j ms) (.moveDependencies ..))
  unfold Loader.unloadService
  dsimp only
  refine h.trans _ _ _ (h.trans _ _ _ ?_ (h.removeService _ i)) (h.delete _ i)
  refine h.trans _ _ _ ?_ (h.prepareForUnload _ i)
  split
  · exact h.trans _ _ _ (h.trans _ _ _ h1 (h2 _ _)) (h3 _ _ _ _ _)
  · exact h1

omit h

/-- The loader makes no calls of the state machine. -/
theorem lax_trace : Lax fun s s' => s'.world.trace=s.world.trace where
  refl _ := rfl
  trans _ _ _ h h' := h'.trans h
  onCore _ _ _ := rfl
  push _ _ := rfl
  undefined _ := rfl
  logType _ _ := rfl
  setLogConsumer _ _ _ := rfl
  setConsumerFor _ _ _ := rfl
  allocate _ _ := rfl
  delete s i := by
    unfold Loader.delete
    dsimp only
    split <;> rfl

theorem LoadStep.trace {s s' : Loader} (h : LoadStep s s') : s'.world.trace=s.world.trace := by
  cases h with
  | dummy fullname h => rfl
  | placeholder n h => rfl
  | link orig d => rfl
  | cleanup dummy d hd hk => exact lax_trace.cleanup s dummy d
  | create file fullname reload orig d hr ho hp hro hl hn =>
    exact (lax_trace.setConsumer _ _ d).trans (lax_trace.createRecord s file fullname orig d)

end Loader
end Dinit
