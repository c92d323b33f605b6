import Mathlib.Algebra.GroupWithZero.Nat
import Mathlib.Logic.Function.Basic
import Mathlib.Order.Defs.LinearOrder
import Mathlib.Tactic.Order
import Mathlib.Tactic.Tauto

namespace Dinit.Framework.LevelOrder

/-- The parent of a position in the level order of a tree with fan-out `N`. -/
def parent (N i : Nat) : Nat := (i-1)/N

theorem parent_lt {N i : Nat} (hi : 0< i) : parent N i< i := by
  have := Nat.div_le_self (i-1) N
  unfold parent
  omega

/-- The position `c` is a child of `p`; the root is nobody's child. -/
structure IsChild (N p c : Nat) : Prop where
  pos : 0<c
  parent : parent N c=p

theorem IsChild.lt {N p c : Nat} (h : IsChild N p c) : p<c := h.parent ▸ parent_lt h.pos

theorem isChild_iff {N p c : Nat} (hN : 0< N) : IsChild N p c ↔ p*N+1≤ c ∧ c≤ p*N+N := by
  have hdiv (k : Nat) : k/N=p ↔ p*N≤ k ∧ k<p*N+N := by
    have := Nat.div_eq_iff (x := k) (y := p) hN
    omega
  constructor
  · rintro ⟨hc,hp⟩
    have := (hdiv (c-1)).mp hp
    omega
  · rintro ⟨h1,h2⟩
    exact ⟨by omega,(hdiv (c-1)).mpr (by omega)⟩

variable {P : Type} [LinearOrder P]

/-- No position holds less than its parent. -/
def Ordered (N : Nat) (key : Nat → P) (n : Nat) : Prop :=
  ∀ i, 0< i → i<n → key (parent N i)≤ key i

/-- What is at the position `h` is to be replaced: all is in order around it, and the
children of `h` are no less than its parent. -/
structure Hole (N : Nat) (key : Nat → P) (n h : Nat) : Prop where
  off : ∀ i, 0< i → i<n → i≠h → parent N i≠h → key (parent N i)≤ key i
  above : 0<h → ∀ c, IsChild N h c → c<n → key (parent N h)≤ key c

variable {N n i p c : Nat} {key key' : Nat → P} {x : P}

theorem Ordered.mono {m : Nat} (h : Ordered N key n) (hm : m≤ n) : Ordered N key m :=
  fun i hi him => h i hi (him.trans_le hm)

/-- The root holds the least. -/
theorem Ordered.root_le (h : Ordered N key n) (hi : i<n) : key 0≤ key i := by
  induction i using Nat.strong_induction_on with
  | h i ih =>
    by_cases h0 : i=0
    · rw [h0]
    · have hp : parent N i< i := parent_lt (by omega)
      exact (ih _ hp (hp.trans hi)).trans (h i (by omega) hi)

theorem Ordered.congr (h : Ordered N key n) (hk : ∀ i, i<n → key' i=key i) : Ordered N key' n := by
  intro i hi hn
  rw [hk i hn,hk _ ((parent_lt hi).trans hn)]
  exact h i hi hn

/-- The last position, and those before it. -/
theorem ordered_last_iff (hn : 1<n) :
    Ordered N key n ↔ Ordered N key (n-1) ∧ key (parent N (n-1))≤ key (n-1) := by
  constructor
  · exact fun h => ⟨h.mono (Nat.sub_le n 1),h (n-1) (by omega) (by omega)⟩
  · rintro ⟨h,hl⟩ i hi hin
    by_cases hil : i=n-1
    · rw [hil]
      exact hl
    · exact h i hi (by omega)

theorem Ordered.hole (h : Ordered N key n) (i : Nat) : Hole N key n i where
  off j hj hn _ _ := h j hj hn
  above hi c hc hn := by
    have h1 := h c hc.pos hn
    rw [hc.parent] at h1
    exact (h i hi (hc.lt.trans hn)).trans h1

/-- A hole does not depend on what is in it. -/
theorem Hole.congr (h : Hole N key n i) (hk : ∀ j, j<n → j≠i → key' j=key j) : Hole N key' n i where
  off j hj hn hji hpi := by
    rw [hk j hn hji,hk _ ((parent_lt hj).trans hn) hpi]
    exact h.off j hj hn hji hpi
  above hi c hc hn := by
    have hp : parent N i< i := parent_lt hi
    rw [hk c hn hc.lt.ne',hk _ (hp.trans (hc.lt.trans hn)) hp.ne]
    exact h.above hi c hc hn

/-- The parent moves into the hole. -/
theorem Hole.up (h : Hole N key n i) (hi : 0< i) (hn : i<n) :
    Hole N (Function.update key i (key (parent N i))) n (parent N i) := by
  have hp : parent N i< i := parent_lt hi
  -- what lies below the parent now lay below it before, or below the hole
  have hbelow (j : Nat) (hj : 0<j) (hjn : j<n) (hji : j≠i) (hpj : parent N j=i ∨ parent N j=parent N i) :
      key (parent N i)≤ key j := by
    rcases hpj with hpj | hpj
    · exact h.above hi j ⟨hj,hpj⟩ hjn
    · rw [← hpj]
      exact h.off j hj hjn hji (by omega)
  constructor
  · intro j hj hjn hjp hpp
    have hji : j≠i := fun e => hpp (by rw [e])
    rw [Function.update_of_ne hji]
    by_cases hpi : parent N j=i
    · rw [hpi,Function.update_self]
      exact hbelow j hj hjn hji (.inl hpi)
    · rw [Function.update_of_ne hpi]
      exact h.off j hj hjn hji hpi
  · intro h0 d hd hdn
    have hpp : parent N (parent N i)<parent N i := parent_lt h0
    have hup : key (parent N (parent N i))≤ key (parent N i) :=
      h.off _ h0 (hp.trans hn) hp.ne (by omega)
    rw [Function.update_of_ne (show parent N (parent N i)≠i by omega)]
    by_cases hdi : d=i
    · rw [hdi,Function.update_self]
      exact hup
    · rw [Function.update_of_ne hdi]
      exact hup.trans (hbelow d hd.pos hdn hdi (.inr hd.parent))

/-- The least child moves into the hole. -/
theorem Hole.down (h : Hole N key n p) (hc : IsChild N p c) (hn : c<n)
    (hmin : ∀ d, IsChild N p d → d<n → key c≤ key d) :
    Hole N (Function.update key p (key c)) n c := by
  constructor
  · intro j hj hjn hjc hpc
    by_cases hjp : j=p
    · subst hjp
      rw [Function.update_self,Function.update_of_ne (parent_lt hj).ne]
      exact h.above hj c hc hn
    · rw [Function.update_of_ne hjp]
      by_cases hpp : parent N j=p
      · rw [hpp,Function.update_self]
        exact hmin j ⟨hj,hpp⟩ hjn
      · rw [Function.update_of_ne hpp]
        exact h.off j hj hjn hjp hpp
  · intro _ d hd hdn
    have hdp : d≠p := (hc.lt.trans hd.lt).ne'
    rw [hc.parent,Function.update_self,Function.update_of_ne hdp]
    have hoff := h.off d hd.pos hdn hdp (by rw [hd.parent]; exact hc.lt.ne')
    rwa [hd.parent] at hoff

/-- What may be put into the hole. -/
theorem Hole.fill_iff (h : Hole N key n i) (hi : i<n) : Ordered N (Function.update key i x) n ↔
    (0< i → key (parent N i)≤ x) ∧ ∀ d, IsChild N i d → d<n → x≤ key d := by
  constructor
  · intro ho
    refine ⟨fun h0 => ?_,fun d hd hdn => ?_⟩
    · have := ho i h0 hi
      rwa [Function.update_self,Function.update_of_ne (parent_lt h0).ne] at this
    · have := ho d hd.pos hdn
      rwa [hd.parent,Function.update_self,Function.update_of_ne hd.lt.ne'] at this
  · rintro ⟨hup,hdown⟩ j hj hjn
    by_cases hji : j=i
    · subst hji
      rw [Function.update_self,Function.update_of_ne (parent_lt hj).ne]
      exact hup hj
    · rw [Function.update_of_ne hji]
      by_cases hpi : parent N j=i
      · rw [hpi,Function.update_self]
        exact hdown j ⟨hj,hpi⟩ hjn
      · rw [Function.update_of_ne hpi]
        exact h.off j hj hjn hji hpi

/-- The hole sinks with a key `x` in hand that may stand below what is above the hole. -/
structure Sinking (N : Nat) (key : Nat → P) (n : Nat) (x : P) (p : Nat) : Prop where
  hole : Hole N key n p
  lt : p<n
  above : 0<p → key (parent N p)≤ x

theorem Sinking.down (h : Sinking N key n x p) (hc : IsChild N p c) (hn : c<n)
    (hmin : ∀ d, IsChild N p d → d<n → key c≤ key d) (hlt : key c<x) :
    Sinking N (Function.update key p (key c)) n x c := by
  refine ⟨h.hole.down hc hn hmin,hn,fun _ => ?_⟩
  rw [hc.parent,Function.update_self]
  exact hlt.le

theorem Sinking.fill (h : Sinking N key n x p) (hd : ∀ d, IsChild N p d → d<n → x≤ key d) :
    Ordered N (Function.update key p x) n :=
  (h.hole.fill_iff h.lt).mpr ⟨h.above,hd⟩

/-- The hole rises with a key `x` in hand that may stand above what is below the hole. -/
structure Rising (N : Nat) (key : Nat → P) (n : Nat) (x : P) (i : Nat) : Prop where
  hole : Hole N key n i
  lt : i<n
  below : ∀ d, IsChild N i d → d<n → x≤ key d

theorem Rising.up (h : Rising N key n x i) (hi : 0< i) (hlt : x<key (parent N i)) :
    Rising N (Function.update key i (key (parent N i))) n x (parent N i) := by
  have hp : parent N i< i := parent_lt hi
  refine ⟨h.hole.up hi h.lt,hp.trans h.lt,fun d hd hdn => ?_⟩
  by_cases hdi : d=i
  · rw [hdi,Function.update_self]
    exact hlt.le
  · have hoff := h.hole.off d hd.pos hdn hdi (by rw [hd.parent]; exact hp.ne)
    rw [hd.parent] at hoff
    rw [Function.update_of_ne hdi]
    exact hlt.le.trans hoff

theorem Rising.fill (h : Rising N key n x i) (hu : 0< i → key (parent N i)≤ x) :
    Ordered N (Function.update key i x) n :=
  (h.hole.fill_iff h.lt).mpr ⟨hu,h.below⟩

/-- Looking for the least of some positions, one after the other. -/
theorem foldl_least (key : Nat → P) (is : List Nat) (j : Nat) :
    let r := is.foldl (fun sel i => if key i<key sel then i else sel) j
    (r=j ∨ r ∈ is) ∧ key r≤ key j ∧ ∀ i ∈ is, key r≤ key i := by
  induction is generalizing j with
  | nil => exact ⟨.inl rfl,le_rfl,by simp⟩
  | cons i is ih =>
    obtain ⟨hmem,hle,hall⟩ := ih (if key i<key j then i else j)
    simp only [List.foldl_cons]
    split_ifs at hmem hle hall ⊢ with hlt
    · refine ⟨.inr (by simpa using hmem),hle.trans hlt.le,?_⟩
      simpa using ⟨hle,hall⟩
    · refine ⟨by tauto,hle,?_⟩
      simpa using ⟨hle.trans (not_lt.mp hlt),hall⟩

end Dinit.Framework.LevelOrder
