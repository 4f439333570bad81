import Mathlib.Data.List.Basic
import Mathlib.Tactic.SplitIfs

/-!
# Edits of a table

An edit names some keys of a table and gives each a new value or removes it.  Edits applied one
after the other act like a single one in which the last edit that names a key decides (`seqAll`).
A batch that collects the new values and the removals apart, and applies the removals last, does
the same except for the keys that are removed by one edit and set again by a later one
(`apply_batch_eq_iff`).
-/

/-- An edit: for each key nothing, a new value, or removal. -/
abbrev Patch (κ ν : Type*) := κ → Option (Option ν)

namespace Patch

variable {κ ν : Type*}

/-- The table after an edit. -/
def apply (p : Patch κ ν) (t : κ → Option ν) : κ → Option ν := fun k => (p k).getD (t k)

/-- Edits one after the other, as one edit. -/
def seqAll : List (Patch κ ν) → Patch κ ν
  | [], _ => none
  | p :: ps, k => (seqAll ps k).or (p k)

/-- The edit removes the key. -/
def removes (p : Patch κ ν) (k : κ) : Bool :=
  match p k with
  | some none => true
  | _ => false

/-- The last value that edits give a key. -/
def lastSet : List (Patch κ ν) → κ → Option ν
  | [], _ => none
  | p :: ps, k => (lastSet ps k).or (p k).join

/-- All new values, then all removals. -/
def batch (ps : List (Patch κ ν)) : Patch κ ν := fun k =>
  if ps.any (removes · k) then some none else (lastSet ps k).map some

/-- The key is removed by one edit and set by a later one, after which no edit names it. -/
def Revived (ps : List (Patch κ ν)) (k : κ) : Prop :=
  ∃ l p r v, ps = l ++ p :: r ∧ l.any (removes · k) = true ∧ p k = some (some v) ∧
    ∀ q ∈ r, q k = none

variable {p : Patch κ ν} {ps : List (Patch κ ν)} {k : κ}

theorem removes_iff : removes p k = true ↔ p k = some none := by
  unfold removes
  split
  · simp_all
  · simp_all

theorem apply_seqAll (t : κ → Option ν) :
    apply (seqAll ps) t = ps.foldl (fun t p => apply p t) t := by
  induction ps generalizing t with
  | nil => rfl
  | cons p ps ih =>
    rw [List.foldl_cons, ← ih]
    funext k
    rw [apply, apply, apply, seqAll]
    cases seqAll ps k <;> rfl

theorem seqAll_eq_none_iff : seqAll ps k = none ↔ ∀ p ∈ ps, p k = none := by
  induction ps with
  | nil => simp [seqAll]
  | cons p ps ih => rw [seqAll, Option.or_eq_none_iff, ih, and_comm, List.forall_mem_cons]

/-- The last edit that names a key decides. -/
theorem exists_of_seqAll_eq_some {x : Option ν} (h : seqAll ps k = some x) :
    ∃ l p r, ps = l ++ p :: r ∧ p k = some x ∧ ∀ q ∈ r, q k = none := by
  induction ps with
  | nil => cases h
  | cons p ps ih =>
    rw [seqAll] at h
    cases hps : seqAll ps k with
    | some y =>
      rw [hps, Option.some_or] at h
      obtain ⟨l, q, r, rfl, hq, hr⟩ := ih (hps.trans h)
      exact ⟨p :: l, q, r, rfl, hq, hr⟩
    | none =>
      rw [hps, Option.none_or] at h
      exact ⟨[], p, ps, rfl, h, seqAll_eq_none_iff.1 hps⟩

theorem seqAll_append_cons {l r : List (Patch κ ν)} {x : Option ν} (hp : p k = some x)
    (hr : ∀ q ∈ r, q k = none) : seqAll (l ++ p :: r) k = some x := by
  induction l with
  | nil => rw [List.nil_append, seqAll, seqAll_eq_none_iff.2 hr, hp, Option.none_or]
  | cons q l ih => rw [List.cons_append, seqAll, ih, Option.some_or]

theorem lastSet_map_congr {α : Type*} {f g : α → Patch κ ν} {as : List α}
    (h : ∀ a ∈ as, f a k = g a k) : lastSet (as.map f) k = lastSet (as.map g) k := by
  induction as with
  | nil => rfl
  | cons a as ih =>
    obtain ⟨ha, has⟩ := List.forall_mem_cons.1 h
    rw [List.map_cons, List.map_cons, lastSet, lastSet, ha, ih has]

/-- Without removals the last value decides. -/
theorem seqAll_eq_lastSet (h : ps.any (removes · k) = false) :
    seqAll ps k = (lastSet ps k).map some := by
  induction ps with
  | nil => rfl
  | cons p ps ih =>
    rw [List.any_cons, Bool.or_eq_false_iff] at h
    rw [seqAll, lastSet, ih h.2]
    cases hp : p k with
    | none => simp
    | some x =>
      cases x with
      | none => exact absurd (removes_iff.2 hp) (by simp [h.1])
      | some v => cases lastSet ps k <;> rfl

/-- A removed key that ends with a value is revived. -/
theorem revived_of_seqAll {v : ν} (hrem : ps.any (removes · k) = true)
    (h : seqAll ps k = some (some v)) : Revived ps k := by
  obtain ⟨l, p, r, rfl, hp, hr⟩ := exists_of_seqAll_eq_some h
  refine ⟨l, p, r, v, rfl, ?_, hp, hr⟩
  obtain ⟨q, hq, hqk⟩ := List.any_eq_true.1 hrem
  have hqk' := removes_iff.1 hqk
  rcases List.mem_append.1 hq with hq | hq
  · exact List.any_eq_true.2 ⟨q, hq, hqk⟩
  · rcases List.mem_cons.1 hq with rfl | hq
    · rw [hp] at hqk'
      cases hqk'
    · rw [hr q hq] at hqk'
      cases hqk'

/-- **A batch does what its edits do one after the other** except for the keys it revives. -/
theorem apply_batch_eq_iff (t : κ → Option ν) :
    apply (batch ps) t k = ps.foldl (fun t p => apply p t) t k ↔ ¬ Revived ps k := by
  rw [← apply_seqAll]
  cases hrem : ps.any (removes · k) with
  | false =>
    have hseq := seqAll_eq_lastSet hrem
    have hnot : ¬ Revived ps k := by
      rintro ⟨l, p, r, v, rfl, hl, -⟩
      rw [List.any_append, hl] at hrem
      cases hrem
    simp only [apply, batch, hrem, hseq, hnot]
    simp
  | true =>
    have hbatch : apply (batch ps) t k = none := by
      rw [apply, batch, if_pos hrem]
      rfl
    rw [hbatch]
    cases hseq : seqAll ps k with
    | none =>
      obtain ⟨p, hp, hpk⟩ := List.any_eq_true.1 hrem
      rw [removes_iff, seqAll_eq_none_iff.1 hseq p hp] at hpk
      cases hpk
    | some x =>
      cases x with
      | none =>
        refine ⟨fun _ => ?_, fun _ => ?_⟩
        · rintro ⟨l, p, r, v, rfl, -, hp, hr⟩
          rw [seqAll_append_cons hp hr] at hseq
          cases hseq
        · rw [apply, hseq]
          rfl
      | some v =>
        refine ⟨fun h => ?_, fun h => absurd (revived_of_seqAll hrem hseq) h⟩
        rw [apply, hseq] at h
        cases h

end Patch
