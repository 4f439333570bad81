import Mathlib.Data.List.AList
import Mathlib.Data.List.Sort

/-!
# Tables visited in the order of their keys

A program that walks a hash by its sorted keys sees the entries in an order that depends on the
key set alone.  Entries added to a table therefore leave the walk over the old keys as it was
(`filter_sortedKeys`), and the first key that the walk finds is the least one there is to find
(`le_of_find?_sortedKeys`).
-/

namespace Table

variable {α : Type*} {β : α → Type*} [LE α] [DecidableLE α]

/-- The keys of a table in order. -/
def sortedKeys (t : AList β) : List α := t.keys.insertionSort (· ≤ ·)

theorem mem_sortedKeys {t : AList β} {a : α} : a ∈ sortedKeys t ↔ a ∈ t := by
  rw [sortedKeys, List.mem_insertionSort, AList.mem_keys]

theorem nodup_sortedKeys (t : AList β) : (sortedKeys t).Nodup :=
  (List.perm_insertionSort _ _).nodup_iff.2 t.nodupKeys

variable [DecidableEq α] [Std.Total fun a b : α => a ≤ b] [IsTrans α (· ≤ ·)]
  [Std.Antisymm fun a b : α => a ≤ b]

/-- Keys added to a table do not disturb the order of the others. -/
theorem filter_sortedKeys {s t : AList β} (h : ∀ a, a ∈ s → a ∈ t) :
    (sortedKeys t).filter (· ∈ s) = sortedKeys s := by
  have hperm : ((sortedKeys t).filter (· ∈ s)).Perm (sortedKeys s) := by
    rw [List.perm_ext_iff_of_nodup ((nodup_sortedKeys t).filter _) (nodup_sortedKeys s)]
    intro a
    simp only [List.mem_filter, mem_sortedKeys, decide_eq_true_eq, and_iff_right_iff_imp]
    exact h a
  exact hperm.eq_of_pairwise (fun a b _ _ => antisymm)
    ((List.pairwise_insertionSort _ _).filter _) (List.pairwise_insertionSort _ _)

omit [DecidableEq α] [Std.Antisymm fun a b : α => a ≤ b] in
/-- What a search by sorted keys finds first is the least. -/
theorem le_of_find?_sortedKeys {t : AList β} {p : α → Bool} {a b : α}
    (ha : (sortedKeys t).find? p = some a) (hb : b ∈ t) (hp : p b = true) : a ≤ b := by
  obtain ⟨-, before, after, hsplit, hbefore⟩ := List.find?_eq_some_iff_append.1 ha
  have hsorted : (sortedKeys t).Pairwise (· ≤ ·) := List.pairwise_insertionSort _ _
  have hmem : b ∈ sortedKeys t := mem_sortedKeys.2 hb
  rw [hsplit] at hsorted hmem
  rcases List.mem_append.1 hmem with hmem | hmem
  · have hnot := hbefore b hmem
    rw [hp] at hnot
    cases hnot
  · rcases List.mem_cons.1 hmem with rfl | hmem
    · exact Std.Total.total b b |>.elim id id
    · exact (List.pairwise_cons.1 (List.pairwise_append.1 hsorted).2.1).1 b hmem

end Table
