import Mathlib.Logic.Function.Basic
import Mathlib.Data.List.Basic
import Mathlib.Tactic.SplitIfs

/-!
# Files behind names

A directory leads from names to files, every file having at most one name.  A process that has
opened a file writes to that file whatever becomes of its name: opening empties the file under a
name or makes a new one, and renaming and unlinking concern the names only.
-/

/-- A directory and its files; numbers from `next` on have not been given to any file. -/
structure Fs (ν β : Type*) where
  dir : ν → Option ℕ
  file : ℕ → List β
  next : ℕ
  dir_lt : ∀ {a i}, dir a = some i → i < next
  dir_inj : ∀ {a b i}, dir a = some i → dir b = some i → a = b

namespace Fs

variable {ν β : Type*} (fs : Fs ν β)

/-- What a reader of the name gets. -/
def content (a : ν) : Option (List β) := (fs.dir a).map fs.file

/-- Change the bytes of a file. -/
def put (i : ℕ) (l : List β) : Fs ν β := { fs with file := Function.update fs.file i l }

@[simp] theorem dir_put (i : ℕ) (l : List β) : (fs.put i l).dir = fs.dir := rfl

@[simp] theorem file_put_self (i : ℕ) (l : List β) : (fs.put i l).file i = l :=
  Function.update_self ..

theorem content_put_of_ne {a : ν} {i : ℕ} (h : fs.dir a ≠ some i) (l : List β) :
    (fs.put i l).content a = fs.content a := by
  unfold content
  rw [dir_put]
  cases hdir : fs.dir a with
  | none => rfl
  | some j =>
    have hne : j ≠ i := fun he => h (by rw [hdir, he])
    exact congrArg some (Function.update_of_ne hne _ _)

theorem content_eq_some_iff {a : ν} {l : List β} :
    fs.content a = some l ↔ ∃ i, fs.dir a = some i ∧ fs.file i = l := Option.map_eq_some_iff

/-- Put data at an offset; what lies between the end and the offset is filled up. -/
def overwrite (zero : β) (off : ℕ) (data l : List β) : List β :=
  l.take off ++ List.replicate (off - l.length) zero ++ data ++ l.drop (off + data.length)

/-- Writing on where the writer has stopped. -/
theorem overwrite_take (zero : β) {l : List β} {off : ℕ} (h : off ≤ l.length) (n : ℕ) :
    overwrite zero off ((l.drop off).take n) (l.take off) =
      l.take (off + ((l.drop off).take n).length) := by
  have hlength : (l.take off).length = off := List.length_take_of_le h
  have hdrop : ∀ k, (l.take off).drop (off + k) = [] := fun k =>
    List.drop_eq_nil_of_le (by omega)
  have hdata : (l.drop off).take ((l.drop off).take n).length = (l.drop off).take n := by
    rw [List.length_take, ← List.take_eq_take_min]
  rw [overwrite, hdrop, hlength, Nat.sub_self, List.replicate_zero, List.append_nil,
    List.append_nil, List.take_of_length_le (Nat.le_of_eq hlength), List.take_add, hdata]

/-- Writing on behind what has replaced the head of a file. -/
theorem overwrite_append_drop (zero : β) (head data l : List β) :
    overwrite zero head.length data (head ++ l.drop head.length) =
      (head ++ data) ++ l.drop (head ++ data).length := by
  have hfill : head.length - (head ++ l.drop head.length).length = 0 := by
    rw [List.length_append]
    omega
  rw [overwrite, List.take_left, hfill, List.replicate_zero, List.append_nil, ← List.drop_drop,
    List.drop_left, List.drop_drop, List.length_append]

/-- Write data at an offset of an open file. -/
def pwrite (zero : β) (i off : ℕ) (data : List β) : Fs ν β :=
  fs.put i (overwrite zero off data (fs.file i))

theorem file_pwrite (zero : β) {i off : ℕ} {l : List β} (h : off ≤ l.length)
    (hi : fs.file i = l.take off) (n : ℕ) :
    (fs.pwrite zero i off ((l.drop off).take n)).file i =
      l.take (off + ((l.drop off).take n).length) := by
  rw [pwrite, file_put_self, hi, overwrite_take zero h]

variable [DecidableEq ν]

/-- Let a name lead to a file that no other name leads to, or nowhere. -/
def point (a : ν) (o : Option ℕ)
    (h : ∀ i, o = some i → i < fs.next ∧ ∀ b, fs.dir b = some i → b = a) : Fs ν β where
  dir := Function.update fs.dir a o
  file := fs.file
  next := fs.next
  dir_lt := by
    intro b i hb
    by_cases hba : b = a
    · rw [hba, Function.update_self] at hb
      exact (h i hb).1
    · rw [Function.update_of_ne hba] at hb
      exact fs.dir_lt hb
  dir_inj := by
    intro b c i hb hc
    by_cases hba : b = a
    · rw [hba, Function.update_self] at hb
      by_cases hca : c = a
      · rw [hba, hca]
      · rw [Function.update_of_ne hca] at hc
        exact absurd ((h i hb).2 c hc) hca
    · rw [Function.update_of_ne hba] at hb
      by_cases hca : c = a
      · rw [hca, Function.update_self] at hc
        exact absurd ((h i hc).2 b hb) hba
      · rw [Function.update_of_ne hca] at hc
        exact fs.dir_inj hb hc

@[simp] theorem dir_point_self (a : ν) (o : Option ℕ)
    (h : ∀ i, o = some i → i < fs.next ∧ ∀ b, fs.dir b = some i → b = a) :
    (fs.point a o h).dir a = o := Function.update_self ..

@[simp] theorem dir_point_of_ne {a b : ν} (hne : b ≠ a) (o : Option ℕ)
    (h : ∀ i, o = some i → i < fs.next ∧ ∀ b, fs.dir b = some i → b = a) :
    (fs.point a o h).dir b = fs.dir b := Function.update_of_ne hne ..

/-- One more file, empty and without a name. -/
def alloc : Fs ν β where
  dir := fs.dir
  file := Function.update fs.file fs.next []
  next := fs.next + 1
  dir_lt := fun h => Nat.lt_succ_of_lt (fs.dir_lt h)
  dir_inj := fs.dir_inj

/-- Let a name lead to a new file. -/
def create (a : ν) : Fs ν β :=
  fs.alloc.point a (some fs.next) (by
    rintro i ⟨⟩
    exact ⟨Nat.lt_succ_self _, fun b hb => absurd (fs.dir_lt hb) (Nat.lt_irrefl _)⟩)

/-- Open the file under a name for writing, emptying it or making it; the file is returned. -/
def openTrunc (a : ν) : ℕ × Fs ν β :=
  match fs.dir a with
  | some i => (i, fs.put i [])
  | none => (fs.next, fs.create a)

/-- Open the file under a name for writing as it is, or make it; the file is returned. -/
def openCreate (a : ν) : ℕ × Fs ν β :=
  match fs.dir a with
  | some i => (i, fs)
  | none => (fs.next, fs.create a)

/-- Take a name away. -/
def unlink (a : ν) : Fs ν β := fs.point a none (by rintro i ⟨⟩)

/-- Rename a file, in the place of any other file of that name; without effect when there is no
such file. -/
def rename (a b : ν) : Fs ν β :=
  match h : fs.dir a with
  | none => fs
  | some i => (fs.unlink a).point b (some i) (by
      rintro j ⟨⟩
      refine ⟨fs.dir_lt h, fun c hc => ?_⟩
      by_cases hca : c = a
      · rw [hca, unlink, dir_point_self] at hc
        cases hc
      · rw [unlink, dir_point_of_ne fs hca] at hc
        exact absurd (fs.dir_inj hc h) hca)

variable {fs} {a b : ν}

theorem dir_openTrunc : (fs.openTrunc a).2.dir a = some (fs.openTrunc a).1 := by
  unfold openTrunc
  cases h : fs.dir a with
  | some i => exact h
  | none => exact Function.update_self ..

theorem file_openTrunc : (fs.openTrunc a).2.file (fs.openTrunc a).1 = [] := by
  unfold openTrunc
  cases h : fs.dir a with
  | some i => exact Function.update_self ..
  | none => exact Function.update_self ..

theorem dir_openCreate : (fs.openCreate a).2.dir a = some (fs.openCreate a).1 := by
  unfold openCreate
  cases h : fs.dir a with
  | some i => exact h
  | none => exact Function.update_self ..

theorem file_openCreate :
    (fs.openCreate a).2.file (fs.openCreate a).1 = (fs.content a).getD [] := by
  unfold openCreate content
  cases h : fs.dir a with
  | some i => rfl
  | none => exact Function.update_self ..

theorem content_point_of_ne (h : b ≠ a) {o : Option ℕ}
    (ho : ∀ i, o = some i → i < fs.next ∧ ∀ b, fs.dir b = some i → b = a) :
    (fs.point a o ho).content b = fs.content b := by
  rw [content, dir_point_of_ne fs h]
  rfl

omit [DecidableEq ν] in
theorem content_alloc : fs.alloc.content b = fs.content b := by
  unfold content
  cases hb : fs.alloc.dir b with
  | none => rw [show fs.dir b = none from hb]; rfl
  | some i =>
    have hb' : fs.dir b = some i := hb
    rw [hb']
    exact congrArg some (Function.update_of_ne (Nat.ne_of_lt (fs.dir_lt hb')) _ _)

theorem content_create_of_ne (h : b ≠ a) : (fs.create a).content b = fs.content b := by
  rw [create, content_point_of_ne h, content_alloc]

theorem content_openTrunc_of_ne (h : b ≠ a) : (fs.openTrunc a).2.content b = fs.content b := by
  unfold openTrunc
  cases ha : fs.dir a with
  | some i => exact content_put_of_ne fs (fun hb => h (fs.dir_inj hb ha)) []
  | none => exact content_create_of_ne h

theorem content_unlink_self : (fs.unlink a).content a = none := by
  rw [content, unlink, dir_point_self, Option.map_none]

theorem content_unlink_of_ne (h : b ≠ a) : (fs.unlink a).content b = fs.content b :=
  content_point_of_ne h _

theorem content_rename_target (h : fs.content a ≠ none) :
    (fs.rename a b).content b = fs.content a := by
  unfold rename
  split
  · rename_i hdir
    exact absurd (by rw [content, hdir, Option.map_none]) h
  · rename_i i hdir
    rw [content, dir_point_self]
    exact (congrArg (Option.map fs.file) hdir).symm

theorem rename_of_none (h : fs.content a = none) : fs.rename a b = fs := by
  unfold rename
  split
  · rfl
  · rename_i i hdir
    rw [content, hdir] at h
    cases h

end Fs
