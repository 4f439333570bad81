import Mathlib.Logic.Function.Basic
import Mathlib.Data.List.Basic
import Mathlib.Tactic.SplitIfs

/-!
# A store of files

Files as a partial map from paths to contents, under the operations that move a file without
copying it: `write` (create or replace), `unlink`, `link`, which gives an existing file a second
name provided that name is free, and `rename`, which takes the place of any file there.
-/

/-- Files by path. -/
abbrev Store (κ ν : Type*) := κ → Option ν

namespace Store

variable {κ ν : Type*} [DecidableEq κ]

/-- Create or replace the file at `k`. -/
def write (k : κ) (v : ν) (s : Store κ ν) : Store κ ν := Function.update s k (some v)

/-- Remove the file at `k`. -/
def unlink (k : κ) (s : Store κ ν) : Store κ ν := Function.update s k none

/-- Give the file at `k` the second name `k'`; without effect when there is no file at `k` or
there is one at `k'`. -/
def link (k k' : κ) (s : Store κ ν) : Store κ ν := Function.update s k' ((s k').or (s k))

/-- Give the file at `k` the name `k'` instead; without effect when there is no file at `k`. -/
def rename (k k' : κ) (s : Store κ ν) : Store κ ν :=
  match s k with
  | some v => write k' v (unlink k s)
  | none => s

/-- Remove the files at several paths. -/
def unlinkAll : List κ → Store κ ν → Store κ ν
  | [], s => s
  | k :: ks, s => unlinkAll ks (unlink k s)

variable {k k' x : κ} {v : ν} {s : Store κ ν}

@[simp] theorem write_self : write k v s k = some v := Function.update_self ..

@[simp] theorem write_of_ne (h : x ≠ k) : write k v s x = s x := Function.update_of_ne h ..

@[simp] theorem unlink_self : unlink k s k = none := Function.update_self ..

@[simp] theorem unlink_of_ne (h : x ≠ k) : unlink k s x = s x := Function.update_of_ne h ..

@[simp] theorem link_self : link k k' s k' = (s k').or (s k) := Function.update_self ..

@[simp] theorem link_of_ne (h : x ≠ k') : link k k' s x = s x := Function.update_of_ne h ..

theorem rename_target (h : s k = some v) : rename k k' s k' = some v := by
  rw [rename, h]
  exact write_self

theorem rename_source (h : s k ≠ none) (hne : k ≠ k') : rename k k' s k = none := by
  obtain ⟨v, hv⟩ := Option.ne_none_iff_exists'.1 h
  rw [rename, hv]
  exact (write_of_ne hne).trans unlink_self

theorem rename_of_ne (h : x ≠ k) (h' : x ≠ k') : rename k k' s x = s x := by
  rw [rename]
  cases s k with
  | some v => exact (write_of_ne h').trans (unlink_of_ne h)
  | none => rfl

theorem unlinkAll_of_not_mem {ks : List κ} (h : x ∉ ks) : unlinkAll ks s x = s x := by
  induction ks generalizing s with
  | nil => rfl
  | cons k ks ih =>
    rw [List.mem_cons, not_or] at h
    rw [unlinkAll, ih h.2, unlink_of_ne h.1]

end Store
