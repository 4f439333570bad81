import NoSpam.Base.Numeric
import NoSpam.Base.Runs
import NoSpam.Dynamic.Limiter

/-!
# The rate that is entered

The forms for the three rates accept any numbers and store them as `Counts/Seconds/Block`.  The
engine takes the first runs of digits with slashes between them, and where there are none it is left
with the captures of an earlier match.  `enforced_iff` says for which numbers the rate that is
entered is the one that is enforced, after every earlier match.
-/

namespace NoSpam.Dynamic

open Text Perl

open Php (isNumeric intval number)

/-! ## The form -/

/-- `$Counts` and `$Seconds`. -/
def kept (Counts Seconds : Bytes) : Bytes × Bytes :=
  if intval Counts = 0 ∨ intval Seconds = 0 then (bytes "0", bytes "0") else (Counts, Seconds)

/-- The value that the forms of `sendratepersubject.ns`, `sendrateperfrom.ns` and `connrateperip.ns`
store, if they accept what is entered. -/
def rateForm (Counts Seconds Block : Bytes) : Option Bytes :=
  if !isNumeric Counts || !isNumeric Seconds || !isNumeric Block then none
  else
    let k := kept Counts Seconds
    some (k.1 ++ 47 :: (k.2 ++ 47 :: Block))

/-! ## The engine -/

/-- No line end. -/
def OneLine (v : Bytes) : Prop := 10 ∉ v ∧ 13 ∉ v

instance (v : Bytes) : Decidable (OneLine v) := inferInstanceAs (Decidable (_ ∧ _))

/-- What `Config::Tiny` may make of a value: on one line it comes back but for white space around
it, and of another nothing is known. -/
def Read (v held : Bytes) : Prop :=
  OneLine v → ∃ a b, (∀ c ∈ a, isSpace c = true) ∧ (∀ c ∈ b, isSpace c = true) ∧ v = a ++ held ++ b

/-- The numbers that the three subs pass on, if they do. -/
def limit (caps : Captures) (held : Bytes) : Option (ℕ × ℕ × ℕ) :=
  let c := parseRate caps (orElse held (bytes "0/0/0"))
  if c.c1.isNone || c.c2.isNone then none
  else some (captured c.c1, captured c.c2, captured c.c3)

/-- No limit is applied. -/
def Unlimited (caps : Captures) (held : Bytes) : Prop :=
  match limit caps held with
  | none => True
  | some (num, sec, _) => num = 0 ∨ sec = 0

/-- The limit that is enforced has these numbers. -/
def Enforced (caps : Captures) (held : Bytes) (c s b : ℚ) : Prop :=
  (∃ num sec denySec : ℕ, limit caps held = some (num, sec, denySec) ∧ num = c ∧ sec = s ∧
      denySec = b) ∧
    (Unlimited caps held ↔ c = 0 ∨ s = 0)

/-- The digits that the engine finds are the numbers that were entered. -/
structure Exact (Counts Seconds Block : Bytes) : Prop where
  counts : (kept Counts Seconds).1.rtakeWhile isDigit ≠ [] ∧
    value ((kept Counts Seconds).1.rtakeWhile isDigit) = number Counts
  seconds : (kept Counts Seconds).2 ≠ [] ∧ (∀ c ∈ (kept Counts Seconds).2, isDigit c = true) ∧
    value (kept Counts Seconds).2 = number Seconds
  block : Block.takeWhile isDigit ≠ [] ∧ value (Block.takeWhile isDigit) = number Block
  oneLine : OneLine (kept Counts Seconds).1 ∧ OneLine Block

/-- The captures of the earlier match are these numbers. -/
def LeftOver (caps : Captures) (c s b : ℕ) : Prop :=
  caps.c1.isSome ∧ caps.c2.isSome ∧ captured caps.c1 = c ∧ captured caps.c2 = s ∧
    captured caps.c3 = b

/-! ## The call -/

section Call

variable {tr : Bytes → Bytes} {attached : Bool} {now : Time} {caps : Captures} {held key : Bytes}
  {ns : Namespace}

theorem isOverrunRatePer_eq : isOverrunRatePer tr attached now caps (orElse held (bytes "0/0/0"))
      key ns =
    if !isTrue key then (false, tr (bytes "need param"), ns)
    else
      match limit caps held with
      | none => (false, tr (bytes "not set"), ns)
      | some (num, sec, denySec) => isOverrunRatePerXXX tr attached now key num sec denySec ns := by
  unfold isOverrunRatePer limit
  dsimp only
  split_ifs <;> rfl

/-- Where no limit is applied, nothing is recorded and nobody is refused. -/
theorem isOverrunRatePer_of_unlimited (h : Unlimited caps held) : ∃ reason,
    isOverrunRatePer tr attached now caps (orElse held (bytes "0/0/0")) key ns =
      (false, reason, ns) := by
  rw [isOverrunRatePer_eq]
  split_ifs with hkey
  · exact ⟨_, rfl⟩
  unfold Unlimited at h
  cases hlimit : limit caps held with
  | none => exact ⟨_, rfl⟩
  | some l =>
    obtain ⟨num, sec, denySec⟩ := l
    rw [hlimit] at h
    simp only [isOverrunRatePerXXX, Bool.or_eq_true, decide_eq_true_eq, if_pos h]
    exact ⟨_, rfl⟩

end Call

/-! ## The numbers that are passed -/

section Numbers

variable {caps : Captures} {held v : Bytes}

theorem captured_digits {l : Bytes} (h : ∀ c ∈ l, isDigit c = true) :
    captured (some l) = value l := by
  have hhead : ∀ c t, l = c :: t → c ≠ 45 ∧ c ≠ 43 := by
    rintro c t rfl
    have hc := h c List.mem_cons_self
    constructor
    · rintro rfl
      cases hc
    · rintro rfl
      cases hc
  rw [captured, Option.getD_some, num, atoi, Php.dropWhile_isSpace_digits h]
  cases l with
  | nil => rfl
  | cons c t =>
    obtain ⟨hminus, hplus⟩ := hhead c t rfl
    simp only [if_neg hminus, if_neg hplus, List.takeWhile_eq_self_iff.2 h]
    rfl

theorem orElse_of_findRuns {n : ℕ} {rs : List Bytes} (h : findRuns 47 (n + 1) held = some rs) :
    orElse held (bytes "0/0/0") = held := by
  rw [orElse, if_pos]
  by_contra hfalse
  rcases isTrue_eq_false_iff.1 (by simpa using hfalse) with rfl | rfl
  · cases h
  · rw [findRuns_of_not_mem (by decide)] at h
    cases h

/-- Three runs of digits are the numbers. -/
theorem limit_of_three {x y z : Bytes} (hx : ∀ c ∈ x, isDigit c = true)
    (hy : ∀ c ∈ y, isDigit c = true) (hz : ∀ c ∈ z, isDigit c = true)
    (h : findRuns 47 2 held = some [x, y, z]) :
    limit caps held = some (value x, value y, value z) := by
  have hparse : parseRate caps held = ⟨some x, some y, some z⟩ := by
    rw [parseRate, h]
    rfl
  unfold limit
  rw [orElse_of_findRuns h, hparse]
  simp [captured_digits hx, captured_digits hy, captured_digits hz]

theorem enforced_of_limit {num sec denySec : ℕ} (h : limit caps held = some (num, sec, denySec))
    (c s b : ℚ) : Enforced caps held c s b ↔ (num = c ∧ sec = s ∧ denySec = b) := by
  constructor
  · rintro ⟨⟨num', sec', denySec', h', hvalues⟩, -⟩
    rw [h] at h'
    obtain ⟨rfl, rfl, rfl⟩ := h'
    exact hvalues
  · rintro ⟨rfl, rfl, rfl⟩
    refine ⟨⟨num, sec, denySec, h, rfl, rfl, rfl⟩, ?_⟩
    rw [Unlimited, h]
    simp only [Nat.cast_eq_zero]

/-- A rate that the first pattern does not find is not enforced after every match. -/
theorem exists_not_enforced (h : findRuns 47 2 (orElse held (bytes "0/0/0")) = none) (c s b : ℚ) :
    ∃ caps, ¬Enforced caps held c s b := by
  have hlimit : ∀ n : ℕ, limit ⟨some (decimal n), some (decimal n), some (decimal n)⟩ held =
      some (n, n, n) := by
    intro n
    have hn : captured (some (decimal n)) = n := by
      rw [captured_digits fun c => isDigit_of_mem_decimal, value_decimal]
    unfold limit
    rw [parseRate, h]
    simp [hn]
  by_contra hall
  push Not at hall
  have hzero := (enforced_of_limit (hlimit 0) c s b).1 (hall _)
  have hone := (enforced_of_limit (hlimit 1) c s b).1 (hall _)
  rw [← hzero.1] at hone
  exact absurd hone.1 (by norm_num)

/-- White space around a value does not matter to the patterns. -/
theorem Read.findRuns_eq (h : Read v held) (hv : OneLine v) (n : ℕ) :
    findRuns 47 n held = findRuns 47 n v := by
  have hblank : ∀ c : UInt8, isSpace c = true → isDigit c = false ∧ c ≠ 47 := by
    intro c hc
    constructor
    · by_contra hdigit
      rw [not_isSpace_of_isDigit (by simpa using hdigit)] at hc
      cases hc
    · rintro rfl
      cases hc
  obtain ⟨a, b, ha, hb, rfl⟩ := h hv
  rw [findRuns_append_right (fun c hc => hblank c (hb c hc)),
    findRuns_append_left fun c hc => (hblank c (ha c hc)).1]

theorem read_self (v : Bytes) : Read v v := fun _ =>
  ⟨[], [], fun _ hc => absurd hc List.not_mem_nil, fun _ hc => absurd hc List.not_mem_nil, by simp⟩

/-- Of a value with a line end nothing is known. -/
theorem exists_not_enforced_of_not_oneLine (hv : ¬OneLine v) (c s b : ℚ) :
    ∃ held, Read v held ∧ ¬Enforced {} held c s b := by
  have hlimit : ∀ n : ℕ, limit {} (decimal n ++ 47 :: (decimal n ++ 47 :: decimal n)) =
      some (n, n, n) := by
    intro n
    have hdigits : ∀ c ∈ decimal n, isDigit c = true := fun c => isDigit_of_mem_decimal
    have hslash : 47 ∉ decimal n := fun h => absurd (hdigits 47 h) (by decide)
    have htake := List.takeWhile_eq_self_iff.2 hdigits
    have hrtake := List.rtakeWhile_eq_self_iff.2 hdigits
    have hfind := @findRuns_three 47 rfl _ _ _ hslash hslash hslash
    have hall : (decimal n).all isDigit = true := List.all_eq_true.2 hdigits
    rw [htake, hrtake, if_pos ⟨decimal_ne_nil n, ⟨decimal_ne_nil n, hall⟩, decimal_ne_nil n⟩]
      at hfind
    rw [limit_of_three hdigits hdigits hdigits hfind, value_decimal]
  by_contra hall
  push Not at hall
  have hzero := (enforced_of_limit (hlimit 0) c s b).1 (hall _ fun h => absurd h hv)
  have hone := (enforced_of_limit (hlimit 1) c s b).1 (hall _ fun h => absurd h hv)
  rw [← hzero.1] at hone
  exact absurd hone.1 (by norm_num)

end Numbers

/-! ## The rate that is entered -/

section Entered

variable {Counts Seconds Block v : Bytes}

theorem rateForm_eq_some (h : rateForm Counts Seconds Block = some v) :
    v = (kept Counts Seconds).1 ++ 47 :: ((kept Counts Seconds).2 ++ 47 :: Block) ∧
      47 ∉ (kept Counts Seconds).1 ∧ 47 ∉ (kept Counts Seconds).2 ∧ 47 ∉ Block := by
  have hslash : ∀ {b : Bytes}, isNumeric b = true → 47 ∉ b := fun hb hmem => by
    rcases Php.isNumeral_of_mem hb hmem with hc | hc <;> cases hc
  unfold rateForm at h
  split_ifs at h with haccept
  simp only [Bool.or_eq_true, Bool.not_eq_true', not_or, Bool.not_eq_false] at haccept
  obtain ⟨⟨hcounts, hseconds⟩, hblock⟩ := haccept
  refine ⟨(Option.some.inj h).symm, ?_, ?_, hslash hblock⟩
  · unfold kept
    split_ifs
    · decide
    · exact hslash hcounts
  · unfold kept
    split_ifs
    · decide
    · exact hslash hseconds

theorem oneLine_append {a b : Bytes} : OneLine (a ++ 47 :: b) ↔ OneLine a ∧ OneLine b := by
  simp only [OneLine, List.mem_append, List.mem_cons, not_or]
  tauto

/-- The rate that is entered is the one that is enforced, after every match, if and only if the
digits that the engine finds are the numbers. -/
theorem entered_enforced_iff (h : rateForm Counts Seconds Block = some v) :
    (∀ held, Read v held → ∀ caps,
        Enforced caps held (number Counts) (number Seconds) (number Block)) ↔
      Exact Counts Seconds Block := by
  obtain ⟨hv, hcounts, hseconds, hblock⟩ := rateForm_eq_some h
  have hfind := @findRuns_three 47 rfl _ _ _ hcounts hseconds hblock
  rw [← hv] at hfind
  have hdigits : ∀ c ∈ (kept Counts Seconds).1.rtakeWhile isDigit, isDigit c = true := fun c hc =>
    List.mem_rtakeWhile_imp hc
  have hdigits' : ∀ c ∈ Block.takeWhile isDigit, isDigit c = true := fun c hc =>
    List.mem_takeWhile_imp hc
  constructor
  · intro hall
    have honeLine : OneLine v := by
      by_contra hnot
      obtain ⟨held, hread, hne⟩ := exists_not_enforced_of_not_oneLine hnot _ _ _
      exact hne (hall held hread _)
    have htrue : orElse v (bytes "0/0/0") = v :=
      if_pos (isTrue_of_mem (c := 47) (by simp [hv]) (by decide))
    split_ifs at hfind with hruns
    · have hsecond := List.all_eq_true.1 hruns.2.1.2
      have hlimit := @limit_of_three {} _ _ _ _ hdigits hsecond hdigits' hfind
      obtain ⟨hc, hs, hb⟩ := (enforced_of_limit hlimit _ _ _).1 (hall v (read_self v) {})
      rw [hv, oneLine_append, oneLine_append] at honeLine
      exact ⟨⟨hruns.1, hc⟩, ⟨hruns.2.1.1, hsecond, hs⟩, ⟨hruns.2.2, hb⟩,
        honeLine.1, honeLine.2.2⟩
    · obtain ⟨caps, hne⟩ := @exists_not_enforced v (by rw [htrue, hfind]) _ _ _
      exact absurd (hall v (read_self v) caps) hne
  · intro hexact held hread caps
    have hline : OneLine (kept Counts Seconds).2 := by
      constructor
      · exact fun hmem => absurd (hexact.seconds.2.1 10 hmem) (by decide)
      · exact fun hmem => absurd (hexact.seconds.2.1 13 hmem) (by decide)
    have honeLine : OneLine v := by
      rw [hv, oneLine_append, oneLine_append]
      exact ⟨hexact.oneLine.1, hline, hexact.oneLine.2⟩
    have hall := List.all_eq_true.2 hexact.seconds.2.1
    rw [if_pos ⟨hexact.counts.1, ⟨hexact.seconds.1, hall⟩, hexact.block.1⟩,
      ← hread.findRuns_eq honeLine] at hfind
    rw [enforced_of_limit (limit_of_three hdigits hexact.seconds.2.1 hdigits' hfind)]
    exact ⟨hexact.counts.2, hexact.seconds.2.2, hexact.block.2⟩

end Entered

/-! ## Two parts -/

section TwoParts

variable {x y : Bytes} (hx : x ≠ [] ∧ ∀ c ∈ x, isDigit c = true)
  (hy : y ≠ [] ∧ ∀ c ∈ y, isDigit c = true)

include hx hy

theorem oneLine_two : OneLine (x ++ 47 :: y) := by
  rw [oneLine_append]
  exact ⟨⟨fun h => absurd (hx.2 10 h) (by decide), fun h => absurd (hx.2 13 h) (by decide)⟩,
    fun h => absurd (hy.2 10 h) (by decide), fun h => absurd (hy.2 13 h) (by decide)⟩

/-- The second pattern is tried where the third capture is not defined. -/
theorem parseRate_two (caps : Captures) {held : Bytes} (h : Read (x ++ 47 :: y) held) :
    parseRate caps (orElse held (bytes "0/0/0")) =
      if caps.c3.isSome then caps else ⟨some x, some y, none⟩ := by
  have hline := oneLine_two hx hy
  obtain ⟨hone, htwo⟩ := @findRuns_two 47 rfl _ _ hx hy
  rw [← h.findRuns_eq hline] at hone htwo
  rw [orElse_of_findRuns hone, parseRate, htwo, hone]

theorem two_enforced_iff (caps : Captures) :
    (∀ held, Read (x ++ 47 :: y) held → Enforced caps held (value x) (value y) 0) ↔
      caps.c3 = none ∨ LeftOver caps (value x) (value y) 0 := by
  cases hc3 : caps.c3 with
  | none =>
    refine iff_of_true (fun held hread => ?_) (.inl rfl)
    have hlimit : limit caps held = some (value x, value y, 0) := by
      unfold limit
      rw [parseRate_two hx hy caps hread, hc3]
      simp only [Option.isSome_none, Bool.false_eq_true, if_false, Option.isNone_some,
        Bool.or_self, captured_digits hx.2, captured_digits hy.2]
      rfl
    rw [enforced_of_limit hlimit]
    exact ⟨rfl, rfl, Nat.cast_zero⟩
  | some z =>
    have hlimit : ∀ held, Read (x ++ 47 :: y) held → limit caps held =
        if caps.c1.isNone || caps.c2.isNone then none
        else some (captured caps.c1, captured caps.c2, captured caps.c3) := by
      intro held hread
      unfold limit
      rw [parseRate_two hx hy caps hread]
      simp only [hc3, Option.isSome_some, if_true]
    rw [or_iff_right (by simp)]
    constructor
    · intro hall
      obtain ⟨⟨num, sec, denySec, h, hnum, hsec, hdeny⟩, -⟩ := hall _ (read_self _)
      rw [hlimit _ (read_self _)] at h
      split_ifs at h with hnone
      simp only [Bool.or_eq_true, not_or, Bool.not_eq_true, Option.isNone_eq_false_iff] at hnone
      obtain ⟨rfl, rfl, rfl⟩ := h
      exact ⟨hnone.1, hnone.2, Nat.cast_injective hnum, Nat.cast_injective hsec,
        Nat.cast_injective (hdeny.trans Nat.cast_zero.symm)⟩
    · rintro ⟨h1, h2, hnum, hsec, hdeny⟩ held hread
      have hnone : ¬(caps.c1.isNone || caps.c2.isNone) = true := by
        simp only [Bool.or_eq_true, not_or, Bool.not_eq_true, Option.isNone_eq_false_iff]
        exact ⟨h1, h2⟩
      have hsome := hlimit held hread
      rw [if_neg hnone, hnum, hsec, hdeny] at hsome
      rw [enforced_of_limit hsome]
      exact ⟨rfl, rfl, Nat.cast_zero⟩

end TwoParts

/-- **The rate that is entered is enforced**, after every match, if and only if the digits that the
engine finds are its numbers; one of two parts is if and only if the earlier match has left no third
capture, or the same numbers. -/
theorem enforced_iff {Counts Seconds Block v x y : Bytes}
    (h : rateForm Counts Seconds Block = some v) (hx : x ≠ [] ∧ ∀ c ∈ x, isDigit c = true)
    (hy : y ≠ [] ∧ ∀ c ∈ y, isDigit c = true) :
    ((∀ held, Read v held → ∀ caps,
          Enforced caps held (number Counts) (number Seconds) (number Block)) ↔
        Exact Counts Seconds Block) ∧
      ∀ caps, (∀ held, Read (x ++ 47 :: y) held → Enforced caps held (value x) (value y) 0) ↔
        caps.c3 = none ∨ LeftOver caps (value x) (value y) 0 :=
  ⟨entered_enforced_iff h, two_enforced_iff hx hy⟩

/-- Six mails in a minute, with a ban and without one. -/
theorem enforced_six : (∀ held, Read (bytes "6/60/600") held → ∀ caps,
      Enforced caps held (number (bytes "6")) (number (bytes "60")) (number (bytes "600"))) ∧
    ∀ held, Read (bytes "6/60") held →
      Enforced {} held (value (bytes "6")) (value (bytes "60")) 0 := by
  have h := enforced_iff (x := bytes "6") (y := bytes "60")
    (show rateForm (bytes "6") (bytes "60") (bytes "600") = some (bytes "6/60/600") by decide)
    (by decide +kernel) (by decide +kernel)
  have hnumber : ∀ l : Bytes, (∀ c ∈ l, isDigit c = true) → (value l : ℚ) = number l := fun l hl =>
    (Php.number_digits hl).symm
  refine ⟨h.1.2 ⟨⟨by decide, ?_⟩, ⟨by decide, by decide +kernel, ?_⟩, ⟨by decide, ?_⟩, by decide⟩,
    (h.2 {}).2 (.inl rfl)⟩
  · exact hnumber (bytes "6") (by decide +kernel)
  · exact hnumber (bytes "60") (by decide +kernel)
  · exact hnumber (bytes "600") (by decide +kernel)

/-- The engine takes a thousand for three. -/
theorem not_enforced_thousand : rateForm (bytes "1e3") (bytes "60") (bytes "600") =
      some (bytes "1e3/60/600") ∧ number (bytes "1e3") = 1000 ∧
    limit {} (bytes "1e3/60/600") = some (3, 60, 600) ∧
    ¬∀ held, Read (bytes "1e3/60/600") held → ∀ caps,
      Enforced caps held (number (bytes "1e3")) (number (bytes "60")) (number (bytes "600")) := by
  have hnumber : number (bytes "1e3") = 1000 := by decide +kernel
  have hlimit : limit {} (bytes "1e3/60/600") = some (3, 60, 600) := by decide +kernel
  refine ⟨by decide, hnumber, hlimit, fun h => ?_⟩
  have hthree := ((enforced_of_limit hlimit _ _ _).1 (h _ (read_self _) {})).1
  rw [hnumber] at hthree
  exact absurd hthree (by norm_num)

end NoSpam.Dynamic
