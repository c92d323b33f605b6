import Dinit.Service.ConsoleQueue

namespace Dinit.ConsoleQueue

open Framework

variable {α : Type} [DecidableEq α] {q : Dlist α} {xs xs' : List α}

theorem dlistStep_of_listStep {out out' : List α} {o : Op α} (hq : q.Holds xs)
    (h : listStep (xs,out) o=some (xs',out')) :
    ∃ q',dlistStep (q,out) o=some (q',out') ∧ q'.Holds xs' := by
  cases o with
  | append e =>
    obtain ⟨he,heq⟩ := Option.ite_none_left_eq_some.mp h
    cases heq
    obtain ⟨q',hstep,hq'⟩ := hq.append he
    exact ⟨q',by simp [dlistStep,hstep],hq'⟩
  | popFront =>
    cases xs with
    | nil => cases h
    | cons e rest =>
      cases h
      obtain ⟨q',hstep,hq'⟩ := hq.popFront
      exact ⟨q',by simp [dlistStep,hstep],hq'⟩
  | unlink e =>
    obtain ⟨he,heq⟩ := Option.ite_none_right_eq_some.mp h
    cases heq
    obtain ⟨q',hstep,hq'⟩ := hq.unlink he
    exact ⟨q',by simp [dlistStep,hstep],hq'⟩

theorem runs_of_listRuns {out out' : List α} {os : List (Op α)} (hq : q.Holds xs)
    (h : runs listStep (xs,out) os=some (xs',out')) :
    ∃ q',runs dlistStep (q,out) os=some (q',out') ∧ q'.Holds xs' := by
  induction os generalizing q xs out with
  | nil =>
    cases h
    exact ⟨q,rfl,hq⟩
  | cons o os ih =>
    obtain ⟨⟨ys,mid⟩,hstep,hrest⟩ := runs_cons.mp h
    obtain ⟨q',hq',hholds⟩ := dlistStep_of_listStep hq hstep
    obtain ⟨r,hr,hres⟩ := ih hholds hrest
    exact ⟨r,runs_cons.mpr ⟨_,hq',hr⟩,hres⟩

/-- Over any calls that its callers may make, a `dlist` is the list on which the same calls are
made: they return the same elements, no null pointer is followed, and afterwards the nodes of the
elements make a ring, with every other node leading nowhere. -/
theorem dlist_is_queue {α : Type} [DecidableEq α] {os : List (Op α)} {xs popped : List α}
    (h : runs listStep ([],[]) os=some (xs,popped)) :
    ∃ q : Dlist α,runs dlistStep (Dlist.empty,[]) os=some (q,popped) ∧
      q.first=xs.head? ∧ q.tail=xs.getLast? ∧ q.isEmpty=xs.isEmpty ∧ q.Ring xs ∧
      (∀ e,q.isQueued e=true ↔ e∈xs) ∧ ∀ e,e∉xs → q.next e=none ∧ q.prev e=none := by
  obtain ⟨q,hruns,hq⟩ := runs_of_listRuns Dlist.holds_empty h
  exact ⟨q,hruns,hq.first,hq.tail_eq,hq.isEmpty_eq,hq.ring,hq.isQueued_iff,hq.free⟩

/-- Four are put in, the second and the last are unlinked, and the first is taken off. -/
theorem dlist_is_queue_four :
    runs listStep ([],[]) [.append 1,.append 2,.append 3,.append 4,.unlink 2,.unlink 4,.popFront]=
      some ([3],[1]) ∧
    ∃ q : Dlist Nat,runs dlistStep (Dlist.empty,[])
        [.append 1,.append 2,.append 3,.append 4,.unlink 2,.unlink 4,.popFront]=some (q,[1]) ∧
      q.first=[3].head? ∧ q.tail=[3].getLast? ∧ q.isEmpty=[3].isEmpty ∧ q.Ring [3] ∧
      (∀ e,q.isQueued e=true ↔ e∈[3]) ∧ ∀ e,e∉[3] → q.next e=none ∧ q.prev e=none :=
  ⟨by decide,dlist_is_queue (by decide)⟩

/-- `unqueue_console` needs no promise from its caller. -/
theorem unqueueConsole_holds (hq : q.Holds xs) (e : α) :
    ∃ q',unqueueConsole q e=some q' ∧ q'.Holds (xs.erase e) := by
  unfold unqueueConsole
  by_cases he : e∈xs
  · rw [if_pos ((hq.isQueued_iff e).mpr he)]
    exact hq.unlink he
  · rw [if_neg fun h => he ((hq.isQueued_iff e).mp h),List.erase_of_not_mem he]
    exact ⟨q,rfl,hq⟩

theorem pullConsoleQueue_holds (hq : q.Holds xs) :
    ∃ q',pullConsoleQueue q=some (xs.head?,q') ∧ q'.Holds xs.tail := by
  unfold pullConsoleQueue
  rw [hq.isEmpty_eq]
  cases xs with
  | nil => exact ⟨q,rfl,hq⟩
  | cons e rest =>
    obtain ⟨q',hpop,hq'⟩ := hq.popFront
    exact ⟨q',by simp [hpop],hq'⟩

theorem appendConsoleQueue_holds {e : α} (hq : q.Holds xs) (he : e∉xs) :
    ∃ q',appendConsoleQueue q e=some (q',xs.isEmpty) ∧ q'.Holds (xs++[e]) := by
  obtain ⟨q',happ,hq'⟩ := hq.append he
  exact ⟨q',by simp [appendConsoleQueue,happ,hq.isEmpty_eq],hq'⟩

omit [DecidableEq α] in
theorem isConsoleQueueEmpty_eq (hq : q.Holds xs) : isConsoleQueueEmpty q=xs.isEmpty := hq.isEmpty_eq

omit [DecidableEq α] in
theorem isQueuedForConsole_iff (hq : q.Holds xs) (e : α) :
    isQueuedForConsole q e=true ↔ e∈xs := hq.isQueued_iff e

/-- The list that the services' model keeps for the console queue is what the `dlist` stands for. -/
theorem unqueueConsole_core {q : Dlist Nat} (c : Core) (i : Nat) (hq : q.Holds c.consoleQueue)
    (hw : (c.svc i).waitingForConsole=true) :
    ∃ q',unqueueConsole q i=some q' ∧ q'.Holds (c.unqueueConsole i).consoleQueue := by
  have hlist : (c.unqueueConsole i).consoleQueue=c.consoleQueue.erase i := if_pos hw
  rw [hlist]
  exact unqueueConsole_holds hq i

end Dinit.ConsoleQueue
