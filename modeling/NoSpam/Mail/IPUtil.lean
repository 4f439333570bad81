import NoSpam.Base.Binary
import NoSpam.Base.Runs
import NoSpam.Content.Rule

/-!
# Ranges of addresses

`AKA::IPUtil`, of which `AKA::Mail::Content::Rule` has a copy: an address as an integer and back,
the last address of a network, and the test of an address against an address, a range or a network.
A sub reads the captures of the last match that has succeeded, and before one in it has, those are
its caller's.
-/

namespace NoSpam.IPUtil

open Text Perl

/-! ## The program -/

/-- The captures `$1` to `$4`. -/
structure Captures where
  c1 : Option Bytes := none
  c2 : Option Bytes := none
  c3 : Option Bytes := none
  c4 : Option Bytes := none
  deriving DecidableEq

/-- The separators of `(\d+)\.(\d+)\.(\d+)\.(\d+)`. -/
def dots : List UInt8 := [46, 46, 46]

/-- A capture as a number; captured text begins with its digits. -/
def octet (c : Option Bytes) : ℕ := value ((c.getD []).takeWhile isDigit)

/-- `+`: beyond 64 bits it is the sum of doubles. -/
def add (a b : ℕ) : ℕ :=
  if a + b < 2 ^ 64 then a + b else Content.round53 (Content.round53 a + Content.round53 b)

/-- Whether a match succeeds, and the captures after it. -/
def tryMatch (caps : Captures) (m : Option Captures) : Bool × Captures :=
  (m.isSome, m.getD caps)

/-- `/0*(\d+)\.0*(\d+)\.0*(\d+)\.0*(\d+)/`; the zeros it leaves out do not count in a number. -/
def matchOctets (ip : Bytes) : Option Captures :=
  (findRunsBy dots ip).map fun runs => ⟨runs[0]?, runs[1]?, runs[2]?, runs[3]?⟩

/-- `ip2int`. -/
def ip2int (caps : Captures) (ip : Bytes) : Option ℕ :=
  if !isTrue ip then none
  else
    let caps := (tryMatch caps (matchOctets ip)).2
    some (add (add (add (shl (octet caps.c1) 24) (shl (octet caps.c2) 16))
      (shl (octet caps.c3) 8)) (octet caps.c4))

/-- `bin2dec`. -/
def bin2dec (bin : Bytes) : ℕ := packBits ((List.replicate 32 48 ++ bin).rtake 32)

/-- `int2ip`; `pack` keeps the last 32 bits. -/
def int2ip (int : ℕ) : Bytes :=
  let bin := binary 32 (uv int)
  let ip1 := bin2dec (bin.take 8)
  let ip2 := bin2dec ((bin.drop 8).take 8)
  let ip3 := bin2dec ((bin.drop 16).take 8)
  let ip4 := bin2dec ((bin.drop 24).take 8)
  joinFields 46 [decimal ip1, decimal ip2, decimal ip3, decimal ip4]

/-- `ipbitmask2broadcast`. -/
def ipbitmask2broadcast (caps : Captures) (ip : Bytes) (bitmask : ℕ) : Bytes :=
  let ip_long := (ip2int caps ip).getD 0
  let bitmask := (List.replicate bitmask (48 : UInt8) ++ List.replicate 32 49).take 32
  int2ip (uv ip_long ||| bin2dec bitmask)

/-- `/^(\d+\.\d+\.\d+\.\d+)$/`; the end may be a line end. -/
def matchSingle (ip_range : Bytes) : Option Captures :=
  (runsBy dots (chomp ip_range)).bind fun runs =>
    if joinFields 46 runs = chomp ip_range then some { c1 := some (chomp ip_range) } else none

/-- `/(\d+\.\d+\.\d+\.\d+)\-(\d+\.\d+\.\d+\.\d+)/`. -/
def matchRange (ip_range : Bytes) : Option Captures :=
  (findRunsBy (dots ++ 45 :: dots) ip_range).map fun runs =>
    { c1 := some (joinFields 46 (runs.take 4)), c2 := some (joinFields 46 (runs.drop 4)) }

/-- `/(\d+\.\d+\.\d+\.\d+)\/(\d+)/`. -/
def matchNet (ip_range : Bytes) : Option Captures :=
  (findRunsBy (dots ++ [47]) ip_range).map fun runs =>
    { c1 := some (joinFields 46 (runs.take 4)), c2 := runs[4]? }

/-- `is_ip_in_range`. -/
def isIpInRange (caps : Captures) (ip : Bytes) (ip_range : Option Bytes) : Bool :=
  match ip_range with
  | none => false
  | some ip_range =>
    let (isSingle, caps) := tryMatch caps (matchSingle ip_range)
    if isSingle then ip = caps.c1.getD []
    else
      let (isRange, caps) := tryMatch caps (matchRange ip_range)
      if isRange then
        let (ip_start, ip_end) := (caps.c1.getD [], caps.c2.getD [])
        let ip_long := (ip2int caps ip).getD 0
        let start_long := (ip2int caps ip_start).getD 0
        let end_long := (ip2int caps ip_end).getD 0
        ip_long ≥ start_long && ip_long ≤ end_long
      else
        let (isNet, caps) := tryMatch caps (matchNet ip_range)
        if isNet then
          let bits : ℤ := 32 - octet caps.c2
          let match_long := (ip2int caps (caps.c1.getD [])).getD 0
          let ip_long := (ip2int caps ip).getD 0
          shr ip_long bits = shr match_long bits
        else false

/-! ## Four runs of digits -/

/-- A run of digits. -/
def IsRun (f : Bytes) : Prop := f ≠ [] ∧ ∀ c ∈ f, isDigit c = true

/-- Four runs of digits. -/
structure Quad (runs : List Bytes) : Prop where
  length_eq : runs.length = 4
  digits : ∀ f ∈ runs, IsRun f

namespace Quad

variable {runs : List Bytes} (h : Quad runs)

theorem joinFields_four (x y z w : Bytes) :
    joinFields 46 [x, y, z, w] = x ++ 46 :: (y ++ 46 :: (z ++ 46 :: w)) := by
  simp [joinFields_cons]

include h

theorem exists_eq :
    ∃ x y z w, runs = [x, y, z, w] ∧ IsRun x ∧ IsRun y ∧ IsRun z ∧ IsRun w := by
  obtain ⟨x, y, z, w, rfl⟩ := List.length_eq_four.1 h.length_eq
  exact ⟨x, y, z, w, rfl, h.digits x (by simp), h.digits y (by simp), h.digits z (by simp),
    h.digits w (by simp)⟩

/-- The runs are found before a separator. -/
theorem runsBy_append {sep : UInt8} (hsep : isDigit sep = false) (seps : List UInt8) (r : Bytes) :
    runsBy (dots ++ sep :: seps) (joinFields 46 runs ++ sep :: r) =
      (runsBy seps r).map (runs ++ ·) := by
  have hdot : isDigit 46 = false := rfl
  obtain ⟨x, y, z, w, rfl, hx, hy, hz, hw⟩ := h.exists_eq
  rw [joinFields_four, dots]
  simp only [List.cons_append, List.append_assoc, List.nil_append]
  rw [runsBy_cons_append hdot hx, runsBy_cons_append hdot hy, runsBy_cons_append hdot hz,
    runsBy_cons_append hsep hw, Option.map_map, Option.map_map, Option.map_map]
  rfl

/-- The runs are found at the end. -/
theorem runsBy_eq : runsBy dots (joinFields 46 runs) = some runs := by
  have hdot : isDigit 46 = false := rfl
  obtain ⟨x, y, z, w, rfl, hx, hy, hz, hw⟩ := h.exists_eq
  rw [joinFields_four, dots, runsBy_cons_append hdot hx, runsBy_cons_append hdot hy,
    runsBy_cons_append hdot hz, runsBy_nil_eq hw]
  rfl

theorem matchOctets_eq :
    matchOctets (joinFields 46 runs) = some ⟨runs[0]?, runs[1]?, runs[2]?, runs[3]?⟩ := by
  rw [matchOctets, findRunsBy_of_runsBy h.runsBy_eq]
  rfl

theorem dot_mem : 46 ∈ joinFields 46 runs := by
  obtain ⟨x, y, z, w, rfl, -⟩ := h.exists_eq
  rw [joinFields_four]
  exact List.mem_append_right _ List.mem_cons_self

theorem isTrue_joinFields : isTrue (joinFields 46 runs) = true :=
  isTrue_of_mem h.dot_mem (by decide)

end Quad

/-- The addresses that a range pattern captures. -/
theorem exists_quad_of_matchRange {r : Bytes} {c : Captures} (h : matchRange r = some c) :
    ∃ s e, Quad s ∧ Quad e ∧
      c = { c1 := some (joinFields 46 s), c2 := some (joinFields 46 e) } := by
  obtain ⟨runs, hruns, rfl⟩ := Option.map_eq_some_iff.1 h
  obtain ⟨hlength, hdigits, -⟩ := mem_of_findRunsBy hruns
  have hlength : runs.length = 8 := hlength
  exact ⟨runs.take 4, runs.drop 4,
    ⟨by rw [List.length_take, hlength]; rfl, fun f hf => hdigits f (List.mem_of_mem_take hf)⟩,
    ⟨by rw [List.length_drop, hlength], fun f hf => hdigits f (List.mem_of_mem_drop hf)⟩, rfl⟩

/-- The address and the mask that a network pattern captures. -/
theorem exists_quad_of_matchNet {r : Bytes} {c : Captures} (h : matchNet r = some c) :
    ∃ q m, Quad q ∧ IsRun m ∧
      c = { c1 := some (joinFields 46 q), c2 := some m } := by
  obtain ⟨runs, hruns, rfl⟩ := Option.map_eq_some_iff.1 h
  obtain ⟨hlength, hdigits, -⟩ := mem_of_findRunsBy hruns
  have hlength : runs.length = 5 := hlength
  have hlt : 4 < runs.length := by omega
  refine ⟨runs.take 4, runs[4], ⟨by rw [List.length_take, hlength]; rfl,
    fun f hf => hdigits f (List.mem_of_mem_take hf)⟩, hdigits _ (List.getElem_mem hlt), ?_⟩
  rw [List.getElem?_eq_getElem hlt]

/-! ## The three notations -/

section Notations

variable {caps c : Captures} {ip r : Bytes}

theorem isIpInRange_of_single (h : matchSingle r = some c) :
    isIpInRange caps ip (some r) = decide (ip = c.c1.getD []) := by
  simp only [isIpInRange, tryMatch, h, Option.isSome_some, if_true, Option.getD_some]

theorem isIpInRange_of_range (hsingle : matchSingle r = none) (h : matchRange r = some c) :
    isIpInRange caps ip (some r) =
      decide ((ip2int c (c.c1.getD [])).getD 0 ≤ (ip2int c ip).getD 0 ∧
        (ip2int c ip).getD 0 ≤ (ip2int c (c.c2.getD [])).getD 0) := by
  simp only [isIpInRange, tryMatch, hsingle, h, Option.isSome_none, Option.isSome_some, if_true,
    Option.getD_some, Bool.false_eq_true, if_false, ge_iff_le, Bool.decide_and]

theorem isIpInRange_of_net (hsingle : matchSingle r = none) (hrange : matchRange r = none)
    (h : matchNet r = some c) :
    isIpInRange caps ip (some r) =
      decide (shr ((ip2int c ip).getD 0) (32 - octet c.c2) =
        shr ((ip2int c (c.c1.getD [])).getD 0) (32 - octet c.c2)) := by
  simp only [isIpInRange, tryMatch, hsingle, hrange, h, Option.isSome_none, Option.isSome_some,
    if_true, Option.getD_some, Bool.false_eq_true, if_false]

theorem isIpInRange_of_none (hsingle : matchSingle r = none) (hrange : matchRange r = none)
    (h : matchNet r = none) : isIpInRange caps ip (some r) = false := by
  simp only [isIpInRange, tryMatch, hsingle, hrange, h, Option.isSome_none, Bool.false_eq_true,
    if_false]

/-- What an earlier match in the caller has captured does not matter. -/
theorem isIpInRange_congr (caps caps' : Captures) (ip : Bytes) (ip_range : Option Bytes) :
    isIpInRange caps ip ip_range = isIpInRange caps' ip ip_range := by
  cases ip_range with
  | none => rfl
  | some r =>
    cases hsingle : matchSingle r with
    | some c => rw [isIpInRange_of_single hsingle, isIpInRange_of_single hsingle]
    | none =>
      cases hrange : matchRange r with
      | some c => rw [isIpInRange_of_range hsingle hrange, isIpInRange_of_range hsingle hrange]
      | none =>
        cases hnet : matchNet r with
        | some c =>
          rw [isIpInRange_of_net hsingle hrange hnet, isIpInRange_of_net hsingle hrange hnet]
        | none =>
          rw [isIpInRange_of_none hsingle hrange hnet, isIpInRange_of_none hsingle hrange hnet]

end Notations

end NoSpam.IPUtil
