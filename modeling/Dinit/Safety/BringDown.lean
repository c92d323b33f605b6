import Dinit.Run.LetGo

namespace Dinit

open Framework Framework.Comp World Relation

/-- The check reads nothing of the service itself but its dependents. -/
theorem Core.stopCheck_congr {c c' : Core} {t : Nat} (hl : c'.link=c.link)
    (hd : (c'.svc t).dependents=(c.svc t).dependents) :
    c'.stopCheckDependents t=c.stopCheckDependents t := by
  unfold stopCheckDependents
  rw [hl,hd]

/-- The calls other than that of `bring_down`. -/
def Call.Keeping (k : Call) : Prop := ∀ t, k≠.bringDown t

theorem Call.IsMinor.keeping {k : Call} (h : k.IsMinor) : k.Keeping := by
  rintro t rfl
  exact h

theorem Step.bringDown {w w' : World} (h : Step w w') :
    (∃ t, w'=w.push (.bringDown t) ∧ w.DownOk t) ∨ GrowsBy Call.Keeping w w' := by
  have hsame (ht : w'.trace=w.trace) : GrowsBy Call.Keeping w w' := growsBy_same ht
  have hminor {u v : World} (h : GrowsBy Call.IsMinor u v) : GrowsBy Call.Keeping u v :=
    h.mono fun _ => Call.IsMinor.keeping
  have hone (e : Call × Core) (he : e.1.Keeping) (ht : w'.trace=e::w.trace) :
      GrowsBy Call.Keeping w w' := ⟨[e],ht,by simpa using he⟩
  cases h with
  | stop h =>
    refine .inr (h.growsBy.mono ?_)
    rintro k hk t rfl
    exact hk trivial
  | call k h =>
    by_cases hk : ∃ t, k=.bringDown t
    · obtain ⟨t,rfl⟩ := hk
      exact .inl ⟨t,rfl,h⟩
    · exact .inr (growsBy_push w k fun t ht => hk ⟨t,ht⟩)
  | popConsole i rest h => exact .inr (hone _ (by rintro t ⟨⟩) rfl)
  | popPropagation i h => exact .inr (hone _ (by rintro t ⟨⟩) rfl)
  | popTransition i hp h => exact .inr (hone _ (by rintro t ⟨⟩) rfl)
  | recomputePin i h => exact .inr (hminor (repinned_recomputePin w i).frame.calls)
  | requireDependencies i h hc hp => exact .inr (hminor (frame_requireDependencies w i).calls)
  | failure i h hp => exact .inr (hminor (frame_cancelStart _ i true).calls)
  | doStart i => exact .inr (hminor (frame_doStart w i).calls)
  | initiateStart i hs hd hp => exact .inr (hminor (frame_initiateStart w i).calls)
  | becomeStarted i => exact .inr (hminor (frame_becomeStarted w i).calls)
  | becomeStopped i => exact .inr (hminor (frame_becomeStopped w i).calls)
  | cancelStart i b f h => exact .inr (hminor (frame_cancelStart _ i b).calls)
  | cancelStopping i b f h hs hn => exact .inr (hminor (frame_cancelStart _ i b).calls)
  | cancelTimeout i f h hp hs hn => exact .inr (hminor (frame_cancelStart _ i false).calls)
  | _ => exact .inr (hsame rfl)

/-- Nothing but `bring_down` itself is entered in the step that enters it. -/
theorem EventStep.bringDown {w w' : World} (h : EventStep w w') :
    (∃ t, w'=w.push (.bringDown t) ∧ w.DownOk t) ∨ GrowsBy Call.Keeping w w' := by
  have hsame (ht : w'.trace=w.trace) : GrowsBy Call.Keeping w w' := growsBy_same ht
  cases h with
  | step h => exact h.bringDown
  | call k h =>
    refine .inr (growsBy_push w k ?_)
    rintro t rfl
    exact h
  | pinStart i =>
    exact .inr ((repinned_pinStart w i).frame.calls.mono fun _ => Call.IsMinor.keeping)
  | unpinStart i c hc =>
    exact .inr ((repinned_unpinStart w i).frame.calls.mono fun _ => Call.IsMinor.keeping)
  | expire i h => exact .inr ⟨[_],rfl,by simp [Call.Keeping]⟩
  | _ => exact .inr (hsame rfl)

namespace World

/-- What is known when `t` is brought down in the state `c` after the calls `past`. -/
structure Downed (t : Nat) (c : Core) (past : List (Call × Core)) : Prop where
  linked : c.Linked
  checked : c.stopCheckDependents t=true
  adrift : ∀ s l, c.Adrift s l → letGo s l past=true
  last : ∃ e rest, past=e::rest ∧ (e.1=.executeTransition t ∨ ∃ signo, e.1=.killAll signo) ∧
    ∀ s, (e.2.svc s).isFundamentallyStopped=(c.svc s).isFundamentallyStopped

/-- `execute_transition` has made its check in this very state, or has only sent signals since. -/
theorem DownOk.downed {w : World} {t : Nat} (h : w.DownOk t) (hL : w.core.Linked)
    (ha : w.AdriftLetGo) : Downed t w.core w.trace := by
  obtain ⟨c,pre,rest,hp,hkill,hs,hc,hl,hne,ht⟩ := h
  refine ⟨hL,?_,ha,?_⟩
  · rw [Core.stopCheck_congr hl (by rw [ht])]
    exact hc
  · cases pre with
    | nil =>
      refine ⟨_,rest,hp,.inl rfl,fun s => ?_⟩
      by_cases hst : s=t
      · subst hst
        rw [ht]
        simp [Svc.isFundamentallyStopped,hs]
      · rw [hne s hst]
    | cons e pre =>
      obtain ⟨signo,rfl⟩ := hkill e List.mem_cons_self
      exact ⟨_,_,hp,.inr ⟨signo,rfl⟩,fun _ => rfl⟩

/-- What is known now, and was at each call of `bring_down`. -/
structure DownSound (w : World) : Prop where
  linked : w.core.Linked
  adrift : w.AdriftLetGo
  downed : ∀ t c past, ((Call.bringDown t,c)::past) <:+ w.trace → Downed t c past

variable {w w' : World}

theorem DownSound.step (h : w.DownSound) (hs : EventStep w w') : w'.DownSound := by
  refine ⟨eventStep_linked hs h.linked,h.adrift.step h.linked hs,fun t c past hd => ?_⟩
  rcases hs.bringDown with ⟨u,rfl,hu⟩ | ⟨new,hn,hq⟩
  · rcases List.suffix_cons_iff.mp hd with hd | hd
    · cases hd
      exact hu.downed h.linked h.adrift
    · exact h.downed t c past hd
  · rw [hn] at hd
    exact h.downed t c past (suffix_of_not_mem (fun hm => hq _ hm t rfl) hd)

end World
end Dinit
