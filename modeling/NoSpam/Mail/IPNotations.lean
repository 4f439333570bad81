import NoSpam.Login.AddressList
import NoSpam.Mail.IPUtil

/-!
# The notations of a range

On addresses as they are written, `ip2int` is the number of the address and `int2ip` its text
(`ip2int_text`, `int2ip_eq`), and a range is read in one of three ways: an address is compared as a
text, the ends of an interval as numbers, and a network by the high bits.  A network is the interval
from its first address to its broadcast address.
-/

namespace NoSpam.IPUtil

open Text Perl Login

/-! ## Addresses -/

section Addresses

variable {caps : Captures} (v n : Address)

theorem decimal_digits (n : ℕ) : decimal n ≠ [] ∧ ∀ c ∈ decimal n, isDigit c = true :=
  ⟨decimal_ne_nil n, fun _ => isDigit_of_mem_decimal⟩

theorem octet_decimal (n : ℕ) : octet (some (decimal n)) = n := by
  rw [octet, Option.getD_some, takeWhile_decimal, value_decimal]

theorem quad_octets : Quad (v.octets.map decimal) :=
  ⟨rfl, fun f hf => by
    obtain ⟨k, -, rfl⟩ := List.mem_map.1 hf
    exact decimal_digits k⟩

theorem joinFields_octets : joinFields 46 (v.octets.map decimal) = v.text := rfl

theorem isTrue_text : isTrue v.text = true := (quad_octets v).isTrue_joinFields

theorem runsBy_text : runsBy dots v.text = some (v.octets.map decimal) := (quad_octets v).runsBy_eq

/-- The number of an address. -/
theorem ip2int_text : ip2int caps v.text = some v.number := by
  have ha := v.a.isLt
  have hb := v.b.isLt
  have hc := v.c.isLt
  have hd := v.d.isLt
  have hadd : ∀ {x y : ℕ}, x + y < 2 ^ 64 → add x y = x + y := fun h => if_pos h
  have hoctets : matchOctets v.text =
      some ⟨some (decimal v.a), some (decimal v.b), some (decimal v.c), some (decimal v.d)⟩ :=
    (quad_octets v).matchOctets_eq
  rw [ip2int, isTrue_text, hoctets]
  simp only [Bool.not_true, Bool.false_eq_true, if_false, tryMatch, Option.getD_some,
    octet_decimal]
  rw [shl_of_lt (by omega), shl_of_lt (by omega), shl_of_lt (by omega),
    hadd (x := v.a * 2 ^ 24) (by omega), hadd (x := v.a * 2 ^ 24 + v.b * 2 ^ 16) (by omega),
    hadd (by omega), Address.number]

end Addresses

/-! ## Integers -/

section Integers

theorem bin2dec_eq {b : Bytes} (h : b.length ≤ 32) : bin2dec b = packBits b := by
  have hdrop : (List.replicate 32 48 ++ b).rtake 32 = List.replicate (32 - b.length) 48 ++ b := by
    rw [List.rtake_eq_reverse_take_reverse, List.reverse_append, List.take_append,
      List.length_reverse, List.take_of_length_le (by simpa using h), List.reverse_replicate,
      List.take_replicate, List.reverse_append, List.reverse_reverse, List.reverse_replicate,
      min_eq_left (by omega)]
  rw [bin2dec, hdrop, packBits_append, packBits_replicate_zero, Nat.zero_mul, Nat.zero_add]

theorem bin2dec_binary (n : ℕ) : bin2dec (binary 8 n) = n % 256 := by
  exact (bin2dec_eq (by rw [length_binary]; decide)).trans (packBits_binary 8 n)

/-- The address of a number. -/
theorem int2ip_eq {n : ℕ} (h : n < 2 ^ 64) : int2ip n = (Address.ofNumber n).text := by
  have hbytes : binary 32 n =
      binary 8 (n / 2 ^ 24) ++ (binary 8 (n / 2 ^ 16) ++ (binary 8 (n / 2 ^ 8) ++ binary 8 n)) := by
    rw [binary_add 8 24 n, binary_add 8 16 n, binary_add 8 8 n]
  have htake : ∀ m (r : Bytes), (binary 8 m ++ r).take 8 = binary 8 m := fun m r => by
    rw [List.take_left' (length_binary 8 m)]
  have hdrop : ∀ k m (r : Bytes), (binary 8 m ++ r).drop (k + 8) = r.drop k := fun k m r => by
    rw [Nat.add_comm, ← List.drop_drop, List.drop_left' (length_binary 8 m)]
  have hlast : (binary 8 n).take 8 = binary 8 n :=
    List.take_of_length_le (by rw [length_binary])
  rw [int2ip, uv_of_lt h, hbytes, hdrop 0, hdrop 8, hdrop 16, hdrop 0, hdrop 8, hdrop 0,
    List.drop_zero, List.drop_zero, List.drop_zero, htake, htake, htake, hlast, bin2dec_binary,
    bin2dec_binary, bin2dec_binary, bin2dec_binary]
  rfl

/-- The broadcast address of a network. -/
theorem ipbitmask2broadcast_text {caps : Captures} (n : Address) {b : ℕ} (hb : b ≤ 32) :
    ipbitmask2broadcast caps n.text b =
      (Address.ofNumber (n.number / 2 ^ (32 - b) * 2 ^ (32 - b) + (2 ^ (32 - b) - 1))).text := by
  have hmask : (List.replicate b (48 : UInt8) ++ List.replicate 32 49).take 32 =
      List.replicate b 48 ++ List.replicate (32 - b) 49 := by
    rw [List.take_append, List.take_of_length_le (by simpa using hb), List.length_replicate,
      List.take_replicate, min_eq_left (Nat.sub_le 32 b)]
  have hones : bin2dec (List.replicate b 48 ++ List.replicate (32 - b) 49) = 2 ^ (32 - b) - 1 := by
    rw [bin2dec_eq (by simp; omega), packBits_append, packBits_replicate_zero,
      packBits_replicate_one, Nat.zero_mul, Nat.zero_add]
  have hlt := n.number_lt
  have hlow : 2 ^ (32 - b) - 1 < 2 ^ 32 := by
    have hpow : 2 ^ (32 - b) ≤ 2 ^ 32 := Nat.pow_le_pow_right Nat.two_pos (Nat.sub_le 32 b)
    omega
  have hor : n.number ||| (2 ^ (32 - b) - 1) < 2 ^ 32 := Nat.or_lt_two_pow hlt hlow
  rw [ipbitmask2broadcast, ip2int_text, Option.getD_some, uv_of_lt (by omega), hmask, hones,
    int2ip_eq (by omega), lor_two_pow_sub_one]

end Integers

/-! ## The three branches -/

section Branches

variable {caps : Captures} {r : Bytes} (v n lo hi : Address)

theorem mem_chomp {c : UInt8} (hc : c ∈ r) (h : c ≠ 10) : c ∈ chomp r := by
  rw [chomp]
  split_ifs with hlast
  · obtain ⟨l, rfl⟩ := List.getLast?_eq_some_iff.1 hlast
    rw [List.dropLast_concat]
    rcases List.mem_append.1 hc with hc | hc
    · exact hc
    · exact absurd (List.mem_singleton.1 hc) h
  · exact hc

theorem chomp_of_not_mem (h : 10 ∉ r) : chomp r = r :=
  if_neg fun hlast => h (List.mem_of_getLast? hlast)

/-- A text with another symbol than digits and dots is no address. -/
theorem matchSingle_eq_none {c : UInt8} (hc : c ∈ r) (hdigit : isDigit c = false) (hdot : c ≠ 46)
    (hnl : c ≠ 10) : matchSingle r = none := by
  rw [matchSingle, Option.bind_eq_none_iff]
  intro runs hruns
  refine if_neg fun hjoin => ?_
  have hmem : c ∈ joinFields 46 runs := hjoin ▸ mem_chomp hc hnl
  rcases mem_of_mem_joinFields hmem with rfl | ⟨f, hf, hcf⟩
  · exact hdot rfl
  · rw [((mem_of_runsBy hruns).2.1 f hf).2 c hcf] at hdigit
    cases hdigit

theorem newline_not_mem_text : 10 ∉ v.text := fun h => by
  rcases v.isDigit_or_dot h with hc | hc <;> cases hc

theorem matchSingle_text : matchSingle n.text = some { c1 := some n.text } := by
  rw [matchSingle, chomp_of_not_mem (newline_not_mem_text n), runsBy_text]
  exact if_pos rfl

theorem matchRange_text :
    matchRange (lo.text ++ 45 :: hi.text) =
      some { c1 := some lo.text, c2 := some hi.text } := by
  have hfind := @Quad.runsBy_append _ (quad_octets lo) 45 rfl dots hi.text
  rw [runsBy_text, joinFields_octets, Option.map_some] at hfind
  rw [matchRange, findRunsBy_of_runsBy hfind]
  rfl

theorem matchSingle_net (b : ℕ) : matchSingle (n.text ++ 47 :: decimal b) = none :=
  matchSingle_eq_none (c := 47) (by simp) rfl (by decide) (by decide)

theorem matchRange_net (b : ℕ) : matchRange (n.text ++ 47 :: decimal b) = none := by
  have hdash : 45 ∉ n.text ++ 47 :: decimal b := by
    rw [List.mem_append, List.mem_cons]
    rintro (h | h | h)
    · rcases n.isDigit_or_dot h with hc | hc <;> cases hc
    · cases h
    · have hc := isDigit_of_mem_decimal h
      cases hc
  rw [matchRange, @findRunsBy_of_not_mem 45 _ _ (by decide) hdash]
  rfl

theorem matchNet_text (b : ℕ) :
    matchNet (n.text ++ 47 :: decimal b) =
      some { c1 := some n.text, c2 := some (decimal b) } := by
  have hfind := @Quad.runsBy_append _ (quad_octets n) 47 rfl [] (decimal b)
  rw [runsBy_nil_eq (decimal_digits b), joinFields_octets, Option.map_some] at hfind
  rw [matchNet, findRunsBy_of_runsBy hfind]
  rfl

theorem isIpInRange_single : isIpInRange caps v.text (some n.text) = decide (v = n) := by
  rw [isIpInRange_of_single (matchSingle_text n)]
  exact decide_eq_decide.2 Address.text_injective.eq_iff

theorem isIpInRange_interval :
    isIpInRange caps v.text (some (lo.text ++ 45 :: hi.text)) =
      decide (lo.number ≤ v.number ∧ v.number ≤ hi.number) := by
  have hsingle : matchSingle (lo.text ++ 45 :: hi.text) = none :=
    matchSingle_eq_none (c := 45) (by simp) rfl (by decide) (by decide)
  rw [isIpInRange_of_range hsingle (matchRange_text lo hi)]
  simp only [Option.getD_some, ip2int_text]

/-- The bits that a network leaves to the address. -/
theorem bits_eq {b : ℕ} (hb : b ≤ 32) : (32 : ℤ) - b = ((32 - b : ℕ) : ℤ) := by omega

theorem isIpInRange_net {b : ℕ} (hb : b ≤ 32) :
    isIpInRange caps v.text (some (n.text ++ 47 :: decimal b)) =
      decide (v.number / 2 ^ (32 - b) = n.number / 2 ^ (32 - b)) := by
  have hv := v.number_lt
  have hn := n.number_lt
  rw [isIpInRange_of_net (matchSingle_net n b) (matchRange_net n b) (matchNet_text n b)]
  simp only [Option.getD_some, ip2int_text, octet_decimal, bits_eq hb]
  rw [shr_of_lt (by omega), shr_of_lt (by omega)]

end Branches

/-! ## One network -/

/-- The first address of a network. -/
def cleared (n : Address) (b : ℕ) : Address :=
  Address.ofNumber (n.number / 2 ^ (32 - b) * 2 ^ (32 - b))

/-- The numbers with the same high bits. -/
theorem div_two_pow_eq_iff (x y k : ℕ) :
    x / 2 ^ k = y / 2 ^ k ↔ y / 2 ^ k * 2 ^ k ≤ x ∧ x ≤ y / 2 ^ k * 2 ^ k + (2 ^ k - 1) := by
  have hpos := Nat.two_pow_pos k
  rw [Nat.div_eq_iff hpos]
  omega

/-- A network ends with the addresses at the latest. -/
theorem network_end_le {n k : ℕ} (hn : n < 2 ^ 32) (hk : k ≤ 32) :
    n / 2 ^ k * 2 ^ k + 2 ^ k ≤ 2 ^ 32 := by
  have hpow : 2 ^ 32 = 2 ^ (32 - k) * 2 ^ k := by rw [← pow_add, Nat.sub_add_cancel hk]
  have hhigh : n / 2 ^ k < 2 ^ (32 - k) := by
    rw [Nat.div_lt_iff_lt_mul (Nat.two_pow_pos k), ← hpow]
    exact hn
  calc n / 2 ^ k * 2 ^ k + 2 ^ k = (n / 2 ^ k + 1) * 2 ^ k := by rw [Nat.add_mul, Nat.one_mul]
    _ ≤ 2 ^ (32 - k) * 2 ^ k := Nat.mul_le_mul_right _ hhigh
    _ = 2 ^ 32 := hpow.symm

/-- The last address of a network is an address. -/
theorem broadcast_lt (n : Address) {k : ℕ} (hk : k ≤ 32) :
    n.number / 2 ^ k * 2 ^ k + (2 ^ k - 1) < 2 ^ 32 := by
  have hle := network_end_le n.number_lt hk
  have hpos := Nat.two_pow_pos k
  omega

theorem isIpInRange_net_eq_interval {caps : Captures} (a n : Address) {b : ℕ} (hb : b ≤ 32) :
    isIpInRange caps a.text (some (n.text ++ 47 :: decimal b)) =
      isIpInRange caps a.text
        (some ((cleared n b).text ++ 45 :: ipbitmask2broadcast caps n.text b)) := by
  have hlast := broadcast_lt n (Nat.sub_le 32 b)
  rw [ipbitmask2broadcast_text n hb, isIpInRange_interval, isIpInRange_net a n hb, cleared,
    Address.number_ofNumber (by omega), Address.number_ofNumber hlast]
  exact decide_eq_decide.2 (div_two_pow_eq_iff _ _ _)

/-- The notations agree: a network is the interval from its first to its broadcast address, an
address is the network of 32 bits and the interval from it to itself, and `ip2int` and `int2ip` are
inverse to each other. -/
theorem notations_agree (caps : Captures) :
    (∀ (a n : Address) (b : Fin 33),
      isIpInRange caps a.text (some (n.text ++ 47 :: decimal b)) =
        isIpInRange caps a.text
          (some ((cleared n b).text ++ 45 :: ipbitmask2broadcast caps n.text b))) ∧
    (∀ a n : Address,
      isIpInRange caps a.text (some n.text) =
          isIpInRange caps a.text (some (n.text ++ 47 :: decimal 32)) ∧
        isIpInRange caps a.text (some n.text) =
          isIpInRange caps a.text (some (n.text ++ 45 :: n.text))) ∧
    (∀ a : Address, (ip2int caps a.text).map int2ip = some a.text) ∧
    ∀ m : Fin (2 ^ 32), ip2int caps (int2ip m) = some m.val := by
  refine ⟨fun a n b => isIpInRange_net_eq_interval a n (Nat.le_of_lt_succ b.isLt),
    fun a n => ⟨?_, ?_⟩, fun a => ?_, fun m => ?_⟩
  · rw [isIpInRange_single, isIpInRange_net a n le_rfl, Nat.sub_self, pow_zero, Nat.div_one,
      Nat.div_one]
    exact decide_eq_decide.2 Address.number_injective.eq_iff.symm
  · rw [isIpInRange_single, isIpInRange_interval]
    refine decide_eq_decide.2 ⟨fun h => ?_, fun h => ?_⟩
    · rw [h]
      exact ⟨le_rfl, le_rfl⟩
    · exact Address.number_injective (le_antisymm h.2 h.1)
  · have hlt := a.number_lt
    rw [ip2int_text, Option.map_some, int2ip_eq (by omega), Address.ofNumber_number]
  · have hlt := m.isLt
    rw [int2ip_eq (by omega), ip2int_text, Address.number_ofNumber hlt]

end NoSpam.IPUtil
