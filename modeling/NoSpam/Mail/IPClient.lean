import NoSpam.Mail.IPNotations

/-!
# Clients that are no addresses

A client that is not a dotted quad is given a number all the same: `ip2int` takes a quad that stands
somewhere in the text, nothing and `0` count as zero, and after a match that has failed the octets
are what the caller's match has captured, that is the address and the mask, or the two ends, of the
range itself.  `outside_iff` says when such a client is outside of a range.
-/

namespace NoSpam.IPUtil

open Text Perl Login

/-! ## The number of a client -/

/-- A dotted quad. -/
def isDottedQuad (ip : Bytes) : Bool :=
  (ip.splitOn 46).length = 4 && (ip.splitOn 46).all fun f => f ≠ [] && f.all isDigit

/-- The number of four octets. -/
def quadNumber (m : Captures) : ℕ :=
  add (add (add (shl (octet m.c1) 24) (shl (octet m.c2) 16)) (shl (octet m.c3) 8)) (octet m.c4)

/-- The number of an end of a range. -/
def endNumber (t : Option Bytes) : ℕ := quadNumber ((matchOctets (t.getD [])).getD {})

/-- The number that a client counts as, for a range with the captures `c`. -/
def standIn (c : Captures) (ip : Bytes) : ℕ :=
  if ip = [] ∨ ip = [48] then 0 else quadNumber ((matchOctets ip).getD c)

/-- The number that the client counts as is outside of the range. -/
def Excluded (ip r : Bytes) : Prop :=
  match matchSingle r, matchRange r, matchNet r with
  | none, some c, _ => ¬(endNumber c.c1 ≤ standIn c ip ∧ standIn c ip ≤ endNumber c.c2)
  | none, none, some c =>
      shr (standIn c ip) (32 - octet c.c2) ≠ shr (endNumber c.c1) (32 - octet c.c2)
  | _, _, _ => True

section Numbers

variable {caps c : Captures} {ip r : Bytes} {runs : List Bytes}

theorem ip2int_getD (caps : Captures) (ip : Bytes) : (ip2int caps ip).getD 0 = standIn caps ip := by
  rw [ip2int, standIn]
  by_cases htrue : isTrue ip = true
  · have hne : ¬(ip = [] ∨ ip = [48]) := fun h => by
      rw [isTrue_eq_false_iff.2 h] at htrue
      cases htrue
    rw [if_neg hne, if_neg (by simp [htrue]), Option.getD_some, tryMatch, quadNumber]
  · rw [Bool.not_eq_true] at htrue
    rw [if_pos (isTrue_eq_false_iff.1 htrue), if_pos (by simp [htrue]), Option.getD_none]

theorem standIn_joinFields (h : Quad runs) (c : Captures) :
    standIn c (joinFields 46 runs) = endNumber (some (joinFields 46 runs)) := by
  have hne : ¬(joinFields 46 runs = [] ∨ joinFields 46 runs = [48]) := fun he => by
    have htrue := h.isTrue_joinFields
    rw [isTrue_eq_false_iff.2 he] at htrue
    cases htrue
  rw [standIn, if_neg hne, endNumber, Option.getD_some, h.matchOctets_eq]
  rfl

/-- The number of a quad that a range pattern has captured. -/
theorem ip2int_joinFields (h : Quad runs) (c : Captures) :
    (ip2int c (joinFields 46 runs)).getD 0 = endNumber (some (joinFields 46 runs)) := by
  rw [ip2int_getD]
  exact standIn_joinFields h c

/-- What a single entry is compared with is a dotted quad. -/
theorem isDottedQuad_of_matchSingle (h : matchSingle r = some c) :
    isDottedQuad (c.c1.getD []) = true := by
  obtain ⟨runs, hruns, hc⟩ := Option.bind_eq_some_iff.1 h
  split_ifs at hc with hjoin
  obtain rfl := Option.some.inj hc
  obtain ⟨hlength, hdigits, -⟩ := mem_of_runsBy hruns
  have hdot : ∀ f ∈ runs, 46 ∉ f := fun f hf hmem => by
    have hdigit := (hdigits f hf).2 46 hmem
    cases hdigit
  have hne : runs ≠ [] := by
    rintro rfl
    cases hlength
  have hsplit : (chomp r).splitOn 46 = runs := by
    rw [← hjoin]
    exact List.splitOn_intercalate 46 hdot hne
  have hall : (runs.all fun f => f ≠ [] && f.all isDigit) = true :=
    List.all_eq_true.2 fun f hf => by
      rw [Bool.and_eq_true, decide_eq_true_eq, List.all_eq_true]
      exact hdigits f hf
  rw [Option.getD_some, isDottedQuad, hsplit, hall, hlength]
  rfl

/-- A client that is no dotted quad is outside of a range if and only if the number that it counts
as is. -/
theorem isIpInRange_eq_false_iff (hip : isDottedQuad ip = false) (caps : Captures) (r : Bytes) :
    isIpInRange caps ip (some r) = false ↔ Excluded ip r := by
  rw [Excluded]
  cases hsingle : matchSingle r with
  | some c =>
    have hne : ip ≠ c.c1.getD [] := by
      rintro rfl
      rw [isDottedQuad_of_matchSingle hsingle] at hip
      cases hip
    rw [isIpInRange_of_single hsingle, decide_eq_false hne]
    exact iff_of_true rfl trivial
  | none =>
    cases hrange : matchRange r with
    | some c =>
      obtain ⟨s, e, hs, he, hc⟩ := exists_quad_of_matchRange hrange
      have hstart : (ip2int c (c.c1.getD [])).getD 0 = endNumber c.c1 := by
        rw [hc]
        exact ip2int_joinFields hs _
      have hend : (ip2int c (c.c2.getD [])).getD 0 = endNumber c.c2 := by
        rw [hc]
        exact ip2int_joinFields he _
      rw [isIpInRange_of_range hsingle hrange, hstart, hend, ip2int_getD]
      exact decide_eq_false_iff_not
    | none =>
      cases hnet : matchNet r with
      | some c =>
        obtain ⟨q, m, hq, -, hc⟩ := exists_quad_of_matchNet hnet
        have hstart : (ip2int c (c.c1.getD [])).getD 0 = endNumber c.c1 := by
          rw [hc]
          exact ip2int_joinFields hq _
        rw [isIpInRange_of_net hsingle hrange hnet, hstart, ip2int_getD]
        exact decide_eq_false_iff_not
      | none =>
        rw [isIpInRange_of_none hsingle hrange hnet]
        exact iff_of_true rfl trivial

/-- The first octet of an address. -/
theorem octet_text (v : Address) : octet (some v.text) = v.a := by
  have hdot : isDigit 46 = false := rfl
  rw [octet, Option.getD_some, v.text_eq, (takeWhile_append_cons (decimal_digits _).2 hdot _).1,
    value_decimal]

theorem quadNumber_two {m : Captures} {x y : ℕ} (h1 : octet m.c1 = x) (h2 : octet m.c2 = y)
    (h3 : m.c3 = none) (h4 : m.c4 = none) (hx : x < 256) (hy : y < 256) :
    quadNumber m = x * 2 ^ 24 + y * 2 ^ 16 := by
  have hnone : octet none = 0 := rfl
  have hsum : add (x * 2 ^ 24) (y * 2 ^ 16) = x * 2 ^ 24 + y * 2 ^ 16 := by
    rw [add, if_pos (by omega)]
  have hzero : add (x * 2 ^ 24 + y * 2 ^ 16) 0 = x * 2 ^ 24 + y * 2 ^ 16 := by
    rw [add, Nat.add_zero, if_pos (by omega)]
  have hshift : shl 0 8 = 0 := by simp [shl, uv]
  simp only [quadNumber, h1, h2, h3, h4, hnone]
  rw [shl_of_lt (by omega), shl_of_lt (by omega), hshift, hsum, hzero, hzero]

theorem endNumber_text (v : Address) : endNumber (some v.text) = v.number := by
  have hnumber := ip2int_getD {} v.text
  rw [ip2int_text, Option.getD_some] at hnumber
  rw [hnumber]
  exact (standIn_joinFields (quad_octets v) {}).symm

/-- A client without a quad in it counts, for a network, as the address whose first octet is that of
the network and whose second is the number of its bits. -/
theorem excluded_net_iff (hne : ip ≠ [] ∧ ip ≠ [48]) (hip : matchOctets ip = none) (n : Address)
    {b : ℕ} (hb : b ≤ 32) :
    Excluded ip (n.text ++ 47 :: decimal b) ↔
      (n.a * 2 ^ 24 + b * 2 ^ 16) / 2 ^ (32 - b) ≠ n.number / 2 ^ (32 - b) := by
  have ha := n.a.isLt
  have hn := n.number_lt
  have hclient : standIn { c1 := some n.text, c2 := some (decimal b) } ip =
      n.a * 2 ^ 24 + b * 2 ^ 16 := by
    rw [standIn, if_neg (by simp [hne.1, hne.2]), hip, Option.getD_none]
    exact quadNumber_two (octet_text n) (octet_decimal b) rfl rfl ha (by omega)
  simp only [Excluded, matchSingle_net, matchRange_net, matchNet_text, hclient, endNumber_text,
    octet_decimal, bits_eq hb]
  rw [shr_of_lt (by omega), shr_of_lt (by omega)]

end Numbers

/-! ## The answer -/

/-- A client that is no dotted quad is outside of a range if and only if the number that it counts
as is, and no answer depends on what an earlier match has captured. -/
theorem outside_iff {ip : Bytes} (hip : isDottedQuad ip = false) (r : Bytes) :
    ((∀ caps, isIpInRange caps ip (some r) = false) ↔ Excluded ip r) ∧
      ∀ caps caps' ip' r', isIpInRange caps ip' r' = isIpInRange caps' ip' r' :=
  ⟨⟨fun h => (isIpInRange_eq_false_iff hip {} r).1 (h {}),
    fun h caps => (isIpInRange_eq_false_iff hip caps r).2 h⟩, isIpInRange_congr⟩

/-- What an earlier match has captured makes no difference. -/
theorem outside_loopback :
    isIpInRange {} (bytes "::1") (some (bytes "192.168.0.0/24")) = false ∧
      isIpInRange ((matchOctets (bytes "192.168.0.7")).getD {}) (bytes "::1")
        (some (bytes "192.168.0.0/24")) = false := by
  have hip : isDottedQuad (bytes "::1") = false := by decide +kernel
  have hexcluded : Excluded (bytes "::1") (bytes "192.168.0.0/24") :=
    (isIpInRange_eq_false_iff hip {} _).1 (by decide +kernel)
  exact ⟨(outside_iff hip _).1.2 hexcluded _, (outside_iff hip _).1.2 hexcluded _⟩

/-- The loopback address of the newer protocol is in the network 10. -/
theorem not_forall_outside :
    ¬∀ ip r caps, isDottedQuad ip = false → isIpInRange caps ip (some r) = false := by
  intro h
  have hin : isIpInRange {} (bytes "::1") (some (bytes "10.0.0.0/8")) = true := by decide +kernel
  rw [h (bytes "::1") (bytes "10.0.0.0/8") {} (by decide +kernel)] at hin
  cases hin

end NoSpam.IPUtil
