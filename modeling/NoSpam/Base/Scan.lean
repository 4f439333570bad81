import Mathlib.Data.List.Basic

/-!
# Patterns that never go back

A pattern of runs of symbols of a class and of single symbols, in which no run can end but where the
next piece begins, needs no search: each run is taken as long as it is.  `scan` reads such a pattern
at the beginning of a text, and `scan_append` says that it takes apart what was put together from
words that its pieces stop at.
-/

namespace Scan

variable {α : Type*}

/-- A run, not empty, of symbols of a class, or one symbol. -/
inductive Piece (α : Type*)
  | run (p : α → Bool)
  | one (c : α)

/-- What a piece takes from the beginning of a text, and what follows it. -/
def Piece.take [DecidableEq α] : Piece α → List α → Option (List α × List α)
  | .run p, l => if l.takeWhile p = [] then none else some (l.takeWhile p, l.dropWhile p)
  | .one _, [] => none
  | .one c, d :: l => if d = c then some ([d], l) else none

/-- What the pieces take one after the other, and what follows them all. -/
def scan [DecidableEq α] : List (Piece α) → List α → Option (List (List α) × List α)
  | [], l => some ([], l)
  | p :: ps, l => (p.take l).bind fun t => (scan ps t.2).map fun r => (t.1 :: r.1, r.2)

/-- The piece takes the word and stops at the text. -/
def Piece.Stops : Piece α → List α → List α → Prop
  | .run p, w, r => w ≠ [] ∧ (∀ c ∈ w, p c = true) ∧ ∀ c ∈ r.head?, p c = false
  | .one c, w, _ => w = [c]

/-- The words one after the other before a text. -/
def joined (ws : List (List α)) (r : List α) : List α := ws.foldr (· ++ ·) r

/-- Every piece takes its word and stops at what follows. -/
def Reads : List (Piece α) → List (List α) → List α → Prop
  | [], [], _ => True
  | p :: ps, w :: ws, r => p.Stops w (joined ws r) ∧ Reads ps ws r
  | _, _, _ => False

variable {p : Piece α} {w r : List α}

/-- A run stops at a word that has no symbol of its class. -/
theorem stops_run {p : α → Bool} {v : List α} (hw : w ≠ []) (h : ∀ c ∈ w, p c = true)
    (hv : v ≠ []) (hstop : ∀ c ∈ v, p c = false) : (Piece.run p).Stops w (v ++ r) := by
  refine ⟨hw, h, fun c hc => hstop c ?_⟩
  obtain ⟨d, v, rfl⟩ := List.exists_cons_of_ne_nil hv
  rw [List.cons_append, List.head?_cons] at hc
  obtain rfl := Option.some.inj hc
  exact List.mem_cons_self

variable [DecidableEq α]

theorem take_append (h : p.Stops w r) : p.take (w ++ r) = some (w, r) := by
  cases p with
  | run p =>
    obtain ⟨hne, hall, hstop⟩ := h
    have htake : r.takeWhile p = [] ∧ r.dropWhile p = r := by
      cases r with
      | nil => exact ⟨rfl, rfl⟩
      | cons c r =>
        have hc : p c = false := hstop c rfl
        simp [hc]
    rw [Piece.take, List.takeWhile_append_of_pos hall, List.dropWhile_append_of_pos hall, htake.1,
      htake.2, List.append_nil, if_neg hne]
  | one c =>
    obtain rfl : w = [c] := h
    exact if_pos rfl

/-- A text put together from words that the pieces stop at is taken apart again. -/
theorem scan_append {ps : List (Piece α)} {ws : List (List α)} (h : Reads ps ws r) :
    scan ps (joined ws r) = some (ws, r) := by
  induction ps generalizing ws with
  | nil =>
    cases ws with
    | nil => rfl
    | cons w ws => exact absurd h not_false
  | cons p ps ih =>
    cases ws with
    | nil => exact absurd h not_false
    | cons w ws =>
      have htake : p.take (joined (w :: ws) r) = some (w, joined ws r) := take_append h.1
      rw [scan, htake, Option.bind_some, ih h.2]
      rfl

/-- A pattern that begins with a run takes nothing where the text does not. -/
theorem scan_run_eq_none {p : α → Bool} {ps : List (Piece α)} {c : α} (hc : p c = false)
    (l : List α) : scan (.run p :: ps) (c :: l) = none := by
  rw [scan, Piece.take, List.takeWhile_cons_of_neg (by simp [hc]), if_pos rfl, Option.bind_none]

end Scan
