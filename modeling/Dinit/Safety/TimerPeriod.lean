import Dinit.Safety.TimerQueue

namespace Dinit.TimerEvents

open Framework

variable {A : List Nat} {maxSize : Nat} {curtime t u interval : TimeVal} {s : TimerEvents}

/-- The timeout that is read when the root has been pulled: the first of the others, or that of the
root itself if there is no other. -/
inductive Reread (A : List Nat) (s : TimerEvents) : TimeVal → Prop
  | alone (h : s.queue.size=1) : Reread A s s.queue.getRootPriority
  | other (b : Nat) (u : TimeVal) (hb : b≠s.queue.getRoot) (hu : (s.use A).queue b=some u)
      (hmin : ∀ c v, c≠s.queue.getRoot → (s.use A).queue c=some v → u≤v) : Reread A s u

theorem Reread.normal (hu : Reread A s u) (hn : ∀ a t, (s.use A).queue a=some t → t.Normal)
    (h : s.Sound maxSize A) : u.Normal := by
  cases hu with
  | alone hsize => exact hn _ _ (h.root (by omega)).2.1
  | other b u hb hu hmin => exact hn b u hu

end Dinit.TimerEvents
