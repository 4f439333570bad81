import NoSpam.Base.Text

/-!
# Strings of C

Arrays of bytes under the functions of C: a string is what stands before the first NUL.  `none` is
behaviour that C leaves undefined: no NUL in the array, or no room for what is copied.  `strtok` is
given the text that is left and gives the rest back.
-/

namespace CString

open Text

/-- The string in an array. -/
def ofArray (a : Bytes) : Option Bytes := if 0 ∈ a then some (a.takeWhile (· ≠ 0)) else none

/-- `strcpy` into an array with so much room. -/
def strcpy (room : ℕ) (src : Bytes) : Option Bytes := if src.length < room then some src else none

/-- `strcat` behind the string in an array with so much room. -/
def strcat (room : ℕ) (dst : Option Bytes) (src : Bytes) : Option Bytes :=
  dst.bind fun s => strcpy room (s ++ src)

/-- `s[strlen(s)-1] = 0`. -/
def chop (s : Option Bytes) : Option Bytes :=
  s.bind fun s => if s = [] then none else some s.dropLast

/-- `strtok` for one separator: the token, if there is one, and what is left. -/
def strtok (sep : UInt8) (s : Bytes) : Option Bytes × Bytes :=
  let s := s.dropWhile (· = sep)
  if s = [] then (none, []) else (some (s.takeWhile (· ≠ sep)), (s.dropWhile (· ≠ sep)).tail)

/-- The first two tokens. -/
def tokens (sep : UInt8) (s : Bytes) : Option Bytes × Option Bytes :=
  let (key, rest) := strtok sep s
  (key, (strtok sep rest).1)

variable {a s t src : Bytes} {room : ℕ} {sep : UInt8}

theorem ofArray_length_lt (h : ofArray a = some s) : s.length < a.length := by
  unfold ofArray at h
  split_ifs at h with hnul
  obtain rfl := Option.some.inj h
  have hle := (List.takeWhile_prefix (l := a) (· ≠ 0)).length_le
  refine lt_of_le_of_ne hle fun heq => ?_
  have hself := (List.takeWhile_prefix (l := a) (· ≠ 0)).eq_of_length heq
  have hne := List.takeWhile_eq_self_iff.1 hself 0 hnul
  exact absurd hne (by decide)

/-- An array that starts with a NUL holds the empty string. -/
theorem ofArray_eq_nil_iff : ofArray a = some [] ↔ a.head? = some 0 := by
  cases a with
  | nil => simp [ofArray]
  | cons c a =>
    rw [ofArray, List.head?_cons, Option.some_inj]
    by_cases hc : c = 0
    · subst hc
      rw [if_pos List.mem_cons_self, List.takeWhile_cons_of_neg (by decide)]
      exact iff_of_true rfl rfl
    · refine iff_of_false (fun h => ?_) hc
      split_ifs at h
      rw [List.takeWhile_cons_of_pos (by simpa using hc)] at h
      cases h

theorem strcat_some : strcat room (some s) src = strcpy room (s ++ src) := rfl

theorem chop_eq_some_iff {o : Option Bytes} : chop o = some t ↔ ∃ c, o = some (t ++ [c]) := by
  cases o with
  | none => exact iff_of_false nofun (by rintro ⟨c, h⟩; cases h)
  | some s =>
    rw [chop, Option.bind_some]
    split_ifs with hs
    · refine iff_of_false nofun ?_
      rintro ⟨c, h⟩
      have hnil := Option.some.inj h
      rw [hs] at hnil
      exact absurd hnil.symm (List.append_ne_nil_of_right_ne_nil _ (List.cons_ne_nil _ _))
    · rw [Option.some_inj]
      constructor
      · rintro rfl
        exact ⟨s.getLast hs, by rw [List.dropLast_append_getLast hs]⟩
      · rintro ⟨c, h⟩
        rw [Option.some.inj h, List.dropLast_concat]

theorem chop_concat (t : Bytes) (c : UInt8) : chop (some (t ++ [c])) = some t :=
  chop_eq_some_iff.2 ⟨c, rfl⟩

/-- A token before a separator. -/
theorem strtok_append_cons (ht : sep ∉ t) (hne : t ≠ []) (r : Bytes) :
    strtok sep (t ++ sep :: r) = (some t, r) := by
  obtain ⟨c, t, rfl⟩ := List.exists_cons_of_ne_nil hne
  have hc : c ≠ sep := fun h => ht (h ▸ List.mem_cons_self)
  have hskip : ((c :: t) ++ sep :: r).dropWhile (· = sep) = (c :: t) ++ sep :: r :=
    List.dropWhile_cons_of_neg (by simpa using hc)
  have hcut := takeWhile_append_cons (p := (· ≠ sep)) (c := sep) (l := c :: t)
    (fun x hx => by simpa using fun h : x = sep => ht (h ▸ hx)) (by simp) r
  rw [strtok, hskip, if_neg (List.append_ne_nil_of_left_ne_nil hne _), hcut.1, hcut.2]
  rfl

/-- The last token. -/
theorem strtok_of_not_mem (ht : sep ∉ t) (hne : t ≠ []) : strtok sep t = (some t, []) := by
  obtain ⟨c, t, rfl⟩ := List.exists_cons_of_ne_nil hne
  have hc : c ≠ sep := fun h => ht (h ▸ List.mem_cons_self)
  have hskip : (c :: t).dropWhile (· = sep) = c :: t :=
    List.dropWhile_cons_of_neg (by simpa using hc)
  have hall : ∀ x ∈ c :: t, (decide (x ≠ sep)) = true :=
    fun x hx => by simpa using fun h : x = sep => ht (h ▸ hx)
  rw [strtok, hskip, if_neg hne, List.takeWhile_eq_self_iff.2 hall,
    List.dropWhile_eq_nil_iff.2 hall]
  rfl

/-- A name and a value. -/
theorem tokens_append_cons (ht : sep ∉ t) (hne : t ≠ []) {r : Bytes} (hr : sep ∉ r)
    (hr' : r ≠ []) : tokens sep (t ++ sep :: r) = (some t, some r) := by
  simp only [tokens, strtok_append_cons ht hne, strtok_of_not_mem hr hr']

end CString
