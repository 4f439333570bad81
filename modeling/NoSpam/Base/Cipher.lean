import NoSpam.Base.Text

/-!
# Keystreams

A text under the exclusive or with a keystream (`xorFrom`).  Applied twice it gives the text back;
a text in pieces is treated piece by piece, each with the keystream from its place on; and with a
periodic keystream, blocks of whole periods are all treated alike (`xorFrom_block`).
-/

namespace Text

variable {key : ℕ → UInt8}

/-- The text with the keystream from place `i` on. -/
def xorFrom (key : ℕ → UInt8) : ℕ → Bytes → Bytes
  | _, [] => []
  | i, c :: l => (key i ^^^ c) :: xorFrom key (i + 1) l

theorem length_xorFrom (key : ℕ → UInt8) (i : ℕ) (l : Bytes) :
    (xorFrom key i l).length = l.length := by
  induction l generalizing i with
  | nil => rfl
  | cons c l ih => rw [xorFrom, List.length_cons, List.length_cons, ih]

theorem xorFrom_eq_mapIdx (key : ℕ → UInt8) (i : ℕ) (l : Bytes) :
    xorFrom key i l = l.mapIdx fun j c => key (i + j) ^^^ c := by
  induction l generalizing i with
  | nil => rfl
  | cons c l ih =>
    rw [xorFrom, ih, List.mapIdx_cons]
    simp only [Nat.add_zero, Nat.add_assoc, Nat.add_comm 1]

theorem xorFrom_append (key : ℕ → UInt8) (i : ℕ) (l r : Bytes) :
    xorFrom key i (l ++ r) = xorFrom key i l ++ xorFrom key (i + l.length) r := by
  induction l generalizing i with
  | nil => rfl
  | cons c l ih =>
    rw [List.cons_append, xorFrom, xorFrom, ih, List.cons_append, List.length_cons]
    simp only [Nat.add_comm, Nat.add_left_comm]

/-- Applied twice, the keystream is gone. -/
theorem xorFrom_xorFrom (key : ℕ → UInt8) (i : ℕ) (l : Bytes) :
    xorFrom key i (xorFrom key i l) = l := by
  induction l generalizing i with
  | nil => rfl
  | cons c l ih => rw [xorFrom, xorFrom, ih, ← UInt8.xor_assoc, UInt8.xor_self, UInt8.zero_xor]

theorem xorFrom_add {p : ℕ} (hkey : ∀ i, key (i + p) = key i) (i : ℕ) (l : Bytes) :
    xorFrom key (i + p) l = xorFrom key i l := by
  induction l generalizing i with
  | nil => rfl
  | cons c l ih => rw [xorFrom, xorFrom, hkey, Nat.add_right_comm, ih]

theorem xorFrom_mul {p : ℕ} (hkey : ∀ i, key (i + p) = key i) (n : ℕ) (l : Bytes) :
    xorFrom key (n * p) l = xorFrom key 0 l := by
  induction n with
  | zero => rw [Nat.zero_mul]
  | succ n ih => rw [Nat.succ_mul, xorFrom_add hkey, ih]

/-- After a block of whole periods, or at the end of the text, the keystream begins again. -/
theorem xorFrom_block {p : ℕ} (hkey : ∀ i, key (i + p) = key i) (n : ℕ) (l : Bytes) :
    xorFrom key 0 l = xorFrom key 0 (l.take (n * p)) ++ xorFrom key 0 (l.drop (n * p)) := by
  have hsplit := xorFrom_append key 0 (l.take (n * p)) (l.drop (n * p))
  rw [List.take_append_drop, Nat.zero_add] at hsplit
  rw [hsplit]
  rcases Nat.lt_or_ge l.length (n * p) with hl | hl
  · rw [List.drop_eq_nil_of_le hl.le]
    rfl
  · rw [List.length_take, Nat.min_eq_left hl, xorFrom_mul hkey]

end Text
