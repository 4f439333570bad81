import Mathlib.Data.List.Infix
import Mathlib.Data.List.TakeWhile

/-!
# Streams read through bounded buffers

Two ways a reader can lose text that the writer wrote completely.  `IStream.getline` is the C++
stream operation of that name: it stores at most `n - 1` symbols of a line, and a line that does
not fit makes the stream fail, after which every later `getline` stores nothing.  `Delivery` is a
text on its way through a pipe, cut into pieces by the system; one `read` returns the first piece
only, and no more of it than the buffer holds.
-/

namespace Buffered

variable {α : Type*}

/-! ## Lines in bounded buffers -/

/-- An input stream: the text not yet extracted, and whether none of the failure flags is set. -/
structure IStream (α : Type*) where
  rest : List α
  good : Bool
  deriving DecidableEq

section Getline

variable [DecidableEq α]

/-- Extract up to `room` symbols of a line; stored symbols, the text left, and whether the
terminator was found. -/
def scanLine (nl : α) : ℕ → List α → List α × List α × Bool
  | _, [] => ([], [], false)
  | 0, c :: l => if c = nl then ([], l, true) else ([], c :: l, false)
  | room + 1, c :: l =>
      if c = nl then ([], l, true)
      else (c :: (scanLine nl room l).1, (scanLine nl room l).2)

/-- `istream::getline (s, n)`: what it stores in `s`, and the stream afterwards. -/
def IStream.getline (nl : α) (n : ℕ) (s : IStream α) : List α × IStream α :=
  if s.good then
    ((scanLine nl (n - 1) s.rest).1,
      ⟨(scanLine nl (n - 1) s.rest).2.1, (scanLine nl (n - 1) s.rest).2.2⟩)
  else ([], s)

theorem scanLine_append {nl : α} {l : List α} (h : nl ∉ l) (r : List α) (room : ℕ) :
    scanLine nl room (l ++ nl :: r) =
      if l.length ≤ room then (l, r, true) else (l.take room, l.drop room ++ nl :: r, false) := by
  induction l generalizing room with
  | nil => cases room <;> simp [scanLine]
  | cons c l ih =>
    simp only [List.mem_cons, not_or] at h
    cases room with
    | zero => simp [scanLine, Ne.symm h.1]
    | succ room =>
      rw [List.cons_append, scanLine, if_neg (Ne.symm h.1), ih h.2]
      by_cases hl : l.length ≤ room <;> simp [hl]

/-- A line that fits is read whole. -/
theorem getline_of_fits {nl : α} {l : List α} {n : ℕ} (h : nl ∉ l) (hl : l.length < n)
    (r : List α) : IStream.getline nl n ⟨l ++ nl :: r, true⟩ = (l, ⟨r, true⟩) := by
  simp [IStream.getline, scanLine_append h, Nat.le_sub_one_of_lt hl]

/-- A line that does not fit is cut, and the stream has failed. -/
theorem getline_of_too_long {nl : α} {l : List α} {n : ℕ} (h : nl ∉ l) (hl : n ≤ l.length)
    (hn : 0 < n) (r : List α) :
    (IStream.getline nl n ⟨l ++ nl :: r, true⟩).1 = l.take (n - 1) ∧
      (IStream.getline nl n ⟨l ++ nl :: r, true⟩).2.good = false := by
  have : ¬ l.length ≤ n - 1 := by omega
  simp [IStream.getline, scanLine_append h, this]

@[simp] theorem getline_of_failed {nl : α} {n : ℕ} {s : IStream α} (h : s.good = false) :
    IStream.getline nl n s = ([], s) := by
  simp [IStream.getline, h]

/-- What is stored is the line, cut at the end of the room. -/
theorem scanLine_fst (nl : α) (room : ℕ) (l : List α) :
    (scanLine nl room l).1 = (l.take room).takeWhile (· ≠ nl) := by
  induction l generalizing room with
  | nil => simp [scanLine]
  | cons c l ih =>
    cases room with
    | zero =>
      rw [scanLine]
      split_ifs <;> rfl
    | succ room =>
      rw [scanLine, List.take_succ_cons]
      split_ifs with hc
      · rw [List.takeWhile_cons_of_neg (by simpa using hc)]
      · rw [List.takeWhile_cons_of_pos (by simpa using hc), ih room]

theorem nl_not_mem_scanLine (nl : α) (room : ℕ) (l : List α) : nl ∉ (scanLine nl room l).1 := by
  rw [scanLine_fst]
  intro hmem
  have hne := List.mem_takeWhile_imp hmem
  simp at hne

theorem length_scanLine_le (nl : α) (room : ℕ) (l : List α) :
    (scanLine nl room l).1.length ≤ room := by
  rw [scanLine_fst]
  exact (List.takeWhile_sublist _).length_le.trans (List.length_take_le room l)

/-- Whatever the stream holds, the stored line holds no terminator. -/
theorem nl_not_mem_getline (nl : α) (n : ℕ) (s : IStream α) :
    nl ∉ (IStream.getline nl n s).1 := by
  unfold IStream.getline
  split_ifs
  · exact nl_not_mem_scanLine _ _ _
  · simp

/-- Whatever the stream holds, the stored line fits the buffer. -/
theorem length_getline_le (nl : α) (n : ℕ) (s : IStream α) :
    (IStream.getline nl n s).1.length ≤ n - 1 := by
  unfold IStream.getline
  split_ifs
  · exact length_scanLine_le _ _ _
  · simp

end Getline

/-! ## Text delivered in pieces -/

/-- The non-empty pieces in which a pipe hands a text to its reader. -/
structure Delivery (l : List α) where
  pieces : List (List α)
  flatten_eq : pieces.flatten = l
  ne_nil : ∀ p ∈ pieces, p ≠ []

namespace Delivery

variable {l : List α}

/-- What one `read` into a buffer of `n` symbols returns. -/
def firstRead (d : Delivery l) (n : ℕ) : List α := (d.pieces.headD []).take n

theorem firstRead_prefix (d : Delivery l) (n : ℕ) : d.firstRead n <+: l := by
  obtain ⟨pieces, rfl, -⟩ := d
  cases pieces with
  | nil => simp [firstRead]
  | cons p ps => exact (List.take_prefix n p).trans (List.prefix_append p ps.flatten)

/-- One `read` returns the whole text exactly when the text came in one piece that the buffer
holds. -/
theorem firstRead_eq_iff (d : Delivery l) (n : ℕ) :
    d.firstRead n = l ↔ d.pieces.length ≤ 1 ∧ l.length ≤ n := by
  obtain ⟨pieces, rfl, hne⟩ := d
  cases pieces with
  | nil => simp [firstRead]
  | cons p ps =>
    simp only [firstRead, List.headD_cons, List.flatten_cons, List.length_cons]
    constructor
    · intro h
      have hlen := congrArg List.length h
      simp only [List.length_take, List.length_append] at hlen
      have hzero : ps.flatten.length = 0 := by omega
      have hps : ps = [] := by
        rcases ps with _ | ⟨q, qs⟩
        · rfl
        · have hq := hne q (by simp)
          rw [List.length_eq_zero_iff, List.flatten_cons, List.append_eq_nil_iff] at hzero
          exact absurd hzero.1 hq
      subst hps
      simp only [List.length_nil, List.flatten_nil, List.append_nil] at hlen ⊢
      exact ⟨by omega, by omega⟩
    · rintro ⟨hps, hlen⟩
      have : ps = [] := List.length_eq_zero_iff.1 (by omega)
      subst this
      simp only [List.flatten_nil, List.append_nil] at hlen ⊢
      exact List.take_of_length_le hlen

end Delivery

end Buffered
