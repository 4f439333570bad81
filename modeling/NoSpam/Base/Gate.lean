import Mathlib.Data.List.Perm.Basic

/-!
# Gated pipelines

A pipeline of stages that write into slots of a state, with one flag that closes the pipeline: a
stage runs only while the flag is down, and it raises the flag exactly when it leaves a hit in its
own slot.  Then at most one slot ever holds a hit (`Exclusive`), so that whoever looks for a hit
finds the same one in whatever order the slots are visited (`find?_eq_of_perm`).
-/

namespace Gate

variable {σ ι : Type*} (hit : σ → ι → Prop) (closed : σ → Prop)

/-- The flag is up exactly when some slot holds a hit, and at most one does. -/
structure Exclusive (s : σ) : Prop where
  closed_iff : closed s ↔ ∃ i, hit s i
  unique : ∀ i j, hit s i → hit s j → i = j

/-- A stage that writes slot `i`: from a state without hits it leaves none elsewhere, and it raises
the flag exactly when it leaves one in its own slot. -/
def Stage (i : ι) (f : σ → σ) : Prop :=
  ∀ s, ¬ closed s → (∀ j, ¬ hit s j) →
    (∀ j, j ≠ i → ¬ hit (f s) j) ∧ (closed (f s) ↔ hit (f s) i)

/-- Run a stage unless the flag is up. -/
def guarded [DecidablePred closed] (f : σ → σ) (s : σ) : σ := if closed s then s else f s

variable {hit closed}

theorem Exclusive.of_none {s : σ} (h : ¬ closed s) (h' : ∀ i, ¬ hit s i) : Exclusive hit closed s :=
  ⟨⟨fun hc => absurd hc h, fun ⟨i, hi⟩ => absurd hi (h' i)⟩, fun i _ hi => absurd hi (h' i)⟩

theorem Exclusive.none_of_open {s : σ} (h : Exclusive hit closed s) (hc : ¬ closed s) (i : ι) :
    ¬ hit s i := fun hi => hc (h.closed_iff.2 ⟨i, hi⟩)

/-- A guarded stage keeps the hit unique. -/
theorem Stage.exclusive [DecidablePred closed] {i : ι} {f : σ → σ} (hf : Stage hit closed i f)
    {s : σ} (h : Exclusive hit closed s) : Exclusive hit closed (guarded closed f s) := by
  unfold guarded
  split_ifs with hc
  · exact h
  · obtain ⟨hother, hclosed⟩ := hf s hc (h.none_of_open hc)
    have honly : ∀ j, hit (f s) j → j = i := fun j hj => by
      by_contra hne
      exact hother j hne hj
    refine ⟨⟨fun h' => ⟨i, hclosed.1 h'⟩, ?_⟩,
      fun j k hj hk => (honly j hj).trans (honly k hk).symm⟩
    rintro ⟨j, hj⟩
    rw [honly j hj] at hj
    exact hclosed.2 hj

/-- A step that touches neither the flag nor any hit keeps the hit unique. -/
theorem Exclusive.congr {s t : σ} (h : Exclusive hit closed s) (hc : closed t ↔ closed s)
    (hh : ∀ i, hit t i ↔ hit s i) : Exclusive hit closed t := by
  refine ⟨?_, fun i j hi hj => h.unique i j ((hh i).1 hi) ((hh j).1 hj)⟩
  rw [hc, h.closed_iff]
  exact exists_congr fun i => (hh i).symm

/-- A unique hit is found first in every order of the slots. -/
theorem find?_eq_of_perm {p : ι → Bool} {l l' : List ι} (hl : l.Perm l')
    (h : ∀ i j, p i = true → p j = true → i = j) : l.find? p = l'.find? p := by
  have key : ∀ {l l' : List ι}, l.Perm l' → ∀ i, l.find? p = some i → l'.find? p = some i := by
    intro l l' hl i hi
    have hp : p i = true := List.find?_some hi
    have hm : i ∈ l' := hl.subset (List.mem_of_find?_eq_some hi)
    cases hf : l'.find? p with
    | none => exact absurd hp (by simpa using List.find?_eq_none.1 hf i hm)
    | some j => rw [h j i (List.find?_some hf) hp]
  cases hf : l.find? p with
  | some i => exact (key hl i hf).symm
  | none =>
    cases hf' : l'.find? p with
    | none => rfl
    | some j => rw [key hl.symm j hf'] at hf; cases hf

end Gate
