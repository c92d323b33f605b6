import Mathlib.Logic.Relation
import Dinit.Framework.Count

namespace Dinit.Framework

open Relation

variable {α β : Type}

/-- No node leads back to itself. -/
def Acyclic (E : α → α → Prop) : Prop := ∀ a, ¬TransGen E a a

theorem Acyclic.mono {E F : α → α → Prop} (h : Acyclic F) (hf : ∀ a b, E a b → F a b) :
    Acyclic E :=
  fun a ha => h a (TransGen.mono hf a a ha)

/-- A graph that maps to one without cycles has none. -/
theorem Acyclic.of_map {E : α → α → Prop} {F : β → β → Prop} (h : Acyclic F) (f : α → β)
    (hf : ∀ a b, E a b → F (f a) (f b)) : Acyclic E :=
  fun a ha => h (f a) (TransGen.lift f hf a a ha)

/-- What a closed set of nodes has no edge to, is not reached from it. -/
theorem not_reach_of_closed {E : α → α → Prop} {S : α → Prop} {x : α}
    (hc : ∀ a b, S a → E a b → S b) (hx : ∀ a, S a → ¬E a x) {a : α} (ha : S a) (hax : a≠x) :
    ¬ReflTransGen E a x := by
  intro h
  have hall : ∀ b, ReflTransGen E a b → S b := by
    intro b hb
    induction hb with
    | refl => exact ha
    | tail _ he ih => exact hc _ _ ih he
  rcases ReflTransGen.cases_tail h with he | ⟨b,hb,he⟩
  · exact hax he.symm
  · exact hx b (hall b hb) he

/-- A node from which a cycle can be reached -/
def LeadsToCycle (E : α → α → Prop) (a : α) : Prop := ∃ c, ReflTransGen E a c ∧ TransGen E c c

theorem LeadsToCycle.of_cycle {E : α → α → Prop} {a : α} (h : TransGen E a a) : LeadsToCycle E a :=
  ⟨a,.refl,h⟩

theorem LeadsToCycle.head {E : α → α → Prop} {a b : α} (hab : E a b) (h : LeadsToCycle E b) :
    LeadsToCycle E a := by
  obtain ⟨c,hbc,hcc⟩ := h
  exact ⟨c,.head hab hbc,hcc⟩

theorem LeadsToCycle.next {E : α → α → Prop} {a : α} (h : LeadsToCycle E a) :
    ∃ b, E a b ∧ LeadsToCycle E b := by
  obtain ⟨c,hac,hcc⟩ := h
  obtain heq | ⟨b,hab,hbc⟩ := hac.cases_head
  · obtain ⟨b,hcb,hbc⟩ := TransGen.head'_iff.mp hcc
    rw [heq]
    exact ⟨b,hcb,c,hbc,hcc⟩
  · exact ⟨b,hab,c,hbc,hcc⟩

open Classical in
/-- How many of the nodes can be reached from a node -/
noncomputable def reachCount (E : α → α → Prop) (nodes : List α) (a : α) : Nat :=
  nodes.countP fun b => TransGen E a b

/-- Along an edge to a node that is on no cycle, fewer nodes can be reached. -/
theorem reachCount_lt {E : α → α → Prop} {nodes : List α} (hn : ∀ a b, E a b → b∈nodes) {a b : α}
    (h : E a b) (hb : ¬TransGen E b b) : reachCount E nodes b< reachCount E nodes a := by
  classical
  refine countP_lt (fun c hc => ?_) (hn a b h) (decide_eq_false hb) (decide_eq_true (.single h))
  exact decide_eq_true (.head h (of_decide_eq_true hc))

/-- A node `x` gets edges to `D`, and edges from `A`. -/
def withEdges (E : α → α → Prop) (x : α) (D A : α → Prop) (a b : α) : Prop :=
  E a b ∨ (a=x ∧ D b) ∨ (A a ∧ b=x)

section
variable {E : α → α → Prop} {x : α} {D A : α → Prop}

/-- How a path of the larger graph goes, if the new edges cannot be used twice. -/
inductive Detour (E : α → α → Prop) (x : α) (D A : α → Prop) (u v : α) : Prop
  | old (h : TransGen E u v)
  | out (d : α) (hd : D d) (hu : ReflTransGen E u x) (hv : ReflTransGen E d v)
  | into (a : α) (ha : A a) (hu : ReflTransGen E u a) (hv : ReflTransGen E x v)
  | both (a d : α) (ha : A a) (hd : D d) (hu : ReflTransGen E u a) (hv : ReflTransGen E d v)

/-- No new dependency leads to `x` or to a new dependent, and `x` leads to none of these. -/
structure Separated (E : α → α → Prop) (x : α) (D A : α → Prop) : Prop where
  back : ∀ d, D d → ¬ReflTransGen E d x
  across : ∀ d a, D d → A a → ¬ReflTransGen E d a
  front : ∀ a, A a → ¬ReflTransGen E x a

theorem detour_of_path (hs : Separated E x D A) {u v : α}
    (h : TransGen (withEdges E x D A) u v) : Detour E x D A u v := by
  induction h with
  | single h =>
    rcases h with h | ⟨rfl,hd⟩ | ⟨ha,rfl⟩
    · exact .old (.single h)
    · exact .out _ hd .refl .refl
    · exact .into _ ha .refl .refl
  | tail _ h ih =>
    rcases h with h | ⟨rfl,hd⟩ | ⟨ha,rfl⟩
    · cases ih with
      | old hp => exact .old (hp.tail h)
      | out d hd hu hv => exact .out d hd hu (hv.tail h)
      | into a ha hu hv => exact .into a ha hu (hv.tail h)
      | both a d ha hd hu hv => exact .both a d ha hd hu (hv.tail h)
    · cases ih with
      | old hp => exact .out _ hd hp.to_reflTransGen .refl
      | out d hd' hu hv => exact absurd hv (hs.back d hd')
      | into a ha hu hv => exact .both a _ ha hd hu .refl
      | both a d ha hd' hu hv => exact absurd hv (hs.back d hd')
    · cases ih with
      | old hp => exact .into _ ha hp.to_reflTransGen .refl
      | out d hd hu hv => exact absurd hv (hs.across d _ hd ha)
      | into a ha' hu hv => exact absurd hv (hs.front _ ha)
      | both a d ha' hd hu hv => exact absurd hv (hs.across d _ hd ha)

/-- Edges to and from one node that are separated close no cycle. -/
theorem Acyclic.withEdges (h : Acyclic E) (hs : Separated E x D A) :
    Acyclic (withEdges E x D A) := by
  intro u hu
  cases detour_of_path hs hu with
  | old hp => exact h u hp
  | out d hd hx hv => exact hs.back d hd (hv.trans hx)
  | into a ha hx hv => exact hs.front a ha (hv.trans hx)
  | both a d ha hd hx hv => exact hs.across d a hd ha (hv.trans hx)

end
end Dinit.Framework
