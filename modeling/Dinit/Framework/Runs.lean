import Mathlib.Data.List.Infix

namespace Dinit.Framework

variable {σ κ : Type} (step : σ → κ → Option σ)

/-- The state after the steps `ks`, if each of them has one. -/
def runs : σ → List κ → Option σ
  | s,[] => some s
  | s,k::ks => (step s k).bind fun s' => runs s' ks

/-- Each of the steps `ks` that is taken starts in a state with `P`. -/
def Along (P : σ → κ → Prop) : σ → List κ → Prop
  | _,[] => True
  | s,k::ks => ∀ s' ∈ step s k,P s k ∧ Along P s' ks

instance decidableAlong {P : σ → κ → Prop} [∀ s k,Decidable (P s k)] :
    (s : σ) → (ks : List κ) → Decidable (Along step P s ks)
  | _,[] => .isTrue trivial
  | s,k::ks =>
    have (s' : σ) : Decidable (Along step P s' ks) := decidableAlong s' ks
    inferInstanceAs (Decidable (∀ s' ∈ step s k,P s k ∧ Along step P s' ks))

variable {step}

theorem Along.mono {P Q : σ → κ → Prop} (hpq : ∀ s k,P s k → Q s k) {s : σ} {ks : List κ}
    (h : Along step P s ks) : Along step Q s ks := by
  induction ks generalizing s with
  | nil => trivial
  | cons k ks ih => exact fun s' hs' => ⟨hpq s k (h s' hs').1,ih (h s' hs').2⟩

theorem runs_cons {s s' : σ} {k : κ} {ks : List κ} :
    runs step s (k::ks)=some s' ↔ ∃ t,step s k=some t ∧ runs step t ks=some s' :=
  Option.bind_eq_some_iff

/-- What every step keeps that starts in a state with `P` holds after all of them. -/
theorem runs_induct {P : σ → κ → Prop} {Q : σ → List κ → Prop}
    (hs : ∀ s js k s',Q s js → step s k=some s' → P s k → Q s' (js++[k]))
    {s s' : σ} {js ks : List κ} (h0 : Q s js) (hp : Along step P s ks)
    (h : runs step s ks=some s') : Q s' (js++ks) := by
  induction ks generalizing s js with
  | nil =>
    obtain rfl := Option.some.inj h
    rw [List.append_nil]
    exact h0
  | cons k ks ih =>
    obtain ⟨t,ht,h⟩ := runs_cons.mp h
    obtain ⟨hk,hks⟩ := hp t ht
    have hq := ih (hs s js k t h0 ht hk) hks h
    rwa [List.append_assoc] at hq

/-- The same, for what does not depend on the steps so far. -/
theorem runs_inv {P : σ → κ → Prop} {I : σ → Prop}
    (hs : ∀ s k s',I s → step s k=some s' → P s k → I s') {s s' : σ} {ks : List κ} (h0 : I s)
    (hp : Along step P s ks) (h : runs step s ks=some s') : I s' :=
  @runs_induct σ κ step P (fun s _ => I s) (fun s _ k s' => hs s k s') s s' [] ks h0 hp h

/-- Let every step keep `I`, and keep `G` just if it starts in a state with `P`. Then `G` holds
throughout just if every step does. -/
theorem good_iff_along {I G : σ → Prop} {P : σ → κ → Prop}
    (hI : ∀ s k s',I s → step s k=some s' → I s')
    (hG : ∀ s k s',I s → G s → step s k=some s' → (G s' ↔ P s k))
    {s : σ} (hs : I s) (hg : G s) (ks : List κ) :
    (∀ js s',js <+: ks → runs step s js=some s' → G s') ↔ Along step P s ks := by
  induction ks generalizing s with
  | nil =>
    refine ⟨fun _ => trivial,fun _ js s' hjs h => ?_⟩
    obtain rfl := List.prefix_nil.mp hjs
    obtain rfl := Option.some.inj h
    exact hg
  | cons k ks ih =>
    constructor
    · intro hall t ht
      have hgt : G t := hall [k] t ⟨ks,rfl⟩ (runs_cons.mpr ⟨t,ht,rfl⟩)
      refine ⟨(hG s k t hs hg ht).mp hgt,(ih (hI s k t hs ht) hgt).mp fun js s' hjs h => ?_⟩
      exact hall (k::js) s' (List.cons_prefix_cons.mpr ⟨rfl,hjs⟩) (runs_cons.mpr ⟨t,ht,h⟩)
    · intro hp js s' hjs h
      match js with
      | [] =>
        obtain rfl := Option.some.inj h
        exact hg
      | j::js =>
        obtain ⟨rfl,hpre⟩ := List.cons_prefix_cons.mp hjs
        obtain ⟨t,ht,h⟩ := runs_cons.mp h
        obtain ⟨hk,hks⟩ := hp t ht
        have hgt := (hG s j t hs hg ht).mpr hk
        exact (ih (hI s j t hs ht) hgt).mpr hks js s' hpre h

end Dinit.Framework
