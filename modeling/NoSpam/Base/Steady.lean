import Mathlib.Data.List.Basic
import Mathlib.Tactic.SplitIfs

/-!
# Steady computations

A computation over a hidden state is steady under an invariant when its result is the same from
all states that satisfy the invariant, and it leaves such a state.  Steadiness is what makes a
program with global variables behave like a function; it is closed under sequencing and choice.
-/

variable {σ α β : Type}

/-- The result does not depend on the state, as long as the state satisfies `P`, and the state
goes on satisfying `P`. -/
def Steady (P : σ → Prop) (x : StateM σ α) : Prop :=
  ∀ s t, P s → P t → (x s).1 = (x t).1 ∧ P (x s).2

namespace Steady

variable {P : σ → Prop}

theorem pure (a : α) : Steady P (Pure.pure a : StateM σ α) := fun _ _ hs _ => ⟨rfl, hs⟩

theorem bind {x : StateM σ α} {f : α → StateM σ β} (hx : Steady P x)
    (hf : ∀ a, Steady P (f a)) : Steady P (x >>= f) := by
  intro s t hs ht
  obtain ⟨heq, hs'⟩ := hx s t hs ht
  obtain ⟨-, ht'⟩ := hx t s ht hs
  have hrun : ∀ u : σ, (x >>= f) u = f (x u).1 (x u).2 := fun _ => rfl
  rw [hrun, hrun, ← heq]
  exact hf _ _ _ hs' ht'

theorem ite {c : Prop} [Decidable c] {x y : StateM σ α} (hx : c → Steady P x)
    (hy : ¬ c → Steady P y) : Steady P (if c then x else y) := by
  split_ifs with h
  · exact hx h
  · exact hy h

/-- A step that overwrites the state in the same way from everywhere. -/
theorem set {s : σ} (h : P s) : Steady P (MonadStateOf.set s : StateM σ PUnit) :=
  fun _ _ _ _ => ⟨rfl, h⟩

/-- A computation that reads the state is steady when the invariant leaves only one state. -/
theorem of_subsingleton {x : StateM σ α} (hP : ∀ s t, P s → P t → s = t)
    (h : ∀ s, P s → P (x s).2) : Steady P x := by
  intro s t hs ht
  obtain rfl := hP s t hs ht
  exact ⟨rfl, h s hs⟩

end Steady
