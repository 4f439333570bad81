import NoSpam.Mail.IPClient

/-!
# The entries of the address lists

`setList` lets an entry into a list of addresses if `checkipaddr` does, and the filter asks
`is_ip_in_range` about it.  The form reads octets and a mask with `intval`, the filter with patterns
that look for digits; `understood_iff` says which of the accepted entries mean the same for both.
-/

namespace NoSpam.Admin

open Text Perl Php Login IPUtil

/-! ## The purpose -/

/-- The octets that the form reads from an entry are those of the address. -/
def Says (s : Bytes) (n : Address) : Prop :=
  ((part 47 s 0).splitOn 46).map intval = n.octets.map fun k => (k : ℤ)

/-- The bits of the network that the form reads from an entry. -/
def bits (s : Bytes) : ℕ := if 47 ∈ s then maskBits s else 32

/-- The filter takes the entry for an address, or for a network with at most 32 bits. -/
def Recognised (s : Bytes) : Prop :=
  (matchSingle s).isSome ∨
    matchRange s = none ∧ ∃ c ∈ matchNet s, octet c.c2 ≤ 32

/-- The filter takes the entry for an address or a network, and finds in it the addresses of the
network that the form has read. -/
def Understood (s : Bytes) : Prop :=
  ∃ n, Says s n ∧ Recognised s ∧
    ∀ caps (a : Address), isIpInRange caps a.text (some s) = true ↔
      a.number / 2 ^ (32 - bits s) = n.number / 2 ^ (32 - bits s)

/-- An entry without a slash is an address as it is written; in one with a slash the filter finds
no range, and the first network that it finds has the bits and the mask that the form reads. -/
def Readable (s : Bytes) : Prop :=
  if 47 ∈ s then
    matchRange s = none ∧ ∃ n c, Says s n ∧ matchNet s = some c ∧ octet c.c2 = maskBits s ∧
      uv (endNumber c.c1) / 2 ^ (32 - maskBits s) = n.number / 2 ^ (32 - maskBits s)
  else ∃ n : Address, s = n.text

/-! ## What the form accepts -/

section Accepted

variable {s : Bytes}

theorem isNumeral_of_isOctets (h : isOctets s = true) {c : UInt8} (hc : c ∈ s) :
    c = 46 ∨ isSpace c = true ∨ isNumeral c = true := by
  rw [isOctets, Bool.and_eq_true, List.all_eq_true] at h
  have hjoin : joinFields 46 (s.splitOn 46) = s := by rw [joinFields, List.intercalate_splitOn]
  rw [← hjoin] at hc
  rcases mem_of_mem_joinFields hc with hdot | ⟨f, hf, hcf⟩
  · exact .inl hdot
  · have hnum := h.2 f hf
    rw [Bool.and_eq_true] at hnum
    exact .inr (isNumeral_of_mem hnum.1 hcf)

/-- An entry with a slash has a network. -/
theorem head_ne_slash_of_checkipaddr (h : checkipaddr s true = true) : s.head? ≠ some 47 := by
  intro hhead
  rw [checkipaddr, if_neg (by simp [hhead])] at h
  rcases isNumeral_of_isOctets h (List.mem_of_mem_head? hhead) with hc | hc | hc
  all_goals cases hc

theorem isOctets_of_checkipaddr (h : checkipaddr s true = true) (hslash : 47 ∉ s) :
    isOctets s = true := by
  rwa [checkipaddr, if_neg fun hc => hslash hc.1] at h

/-- Octets do not end with a line end. -/
theorem chomp_of_isOctets (h : isOctets s = true) : chomp s = s := by
  refine if_neg fun hlast => ?_
  obtain ⟨t, rfl⟩ := List.getLast?_eq_some_iff.1 hlast
  obtain ⟨gs, g, -, hsplit⟩ := @splitOn_concat 46 10 (by decide) t
  rw [isOctets, Bool.and_eq_true, List.all_eq_true, hsplit] at h
  have hnum := h.2 (g ++ [10]) (List.mem_append_right _ List.mem_cons_self)
  rw [not_isNumeric_concat rfl g] at hnum
  cases hnum

theorem says_text (n : Address) : Says n.text n := by
  have hslash : 47 ∉ n.text := fun hmem => by
    rcases n.isDigit_or_dot hmem with hc | hc <;> cases hc
  rw [Says, part_of_not_mem hslash, if_pos rfl, n.splitOn_text, List.map_map]
  exact List.map_congr_left fun k _ => atoi_decimal k

end Accepted

/-! ## Networks -/

section Networks

/-- A network that lies in another has at least as many bits. -/
theorem block_le {n j k : ℕ} (hn : n < 2 ^ 32) (hj : j ≤ 32)
    (h : ∀ a < 2 ^ 32, a / 2 ^ j = n / 2 ^ j → a / 2 ^ k = n / 2 ^ k) : j ≤ k := by
  by_contra hlt
  rw [Nat.not_le] at hlt
  have hkj : 2 ^ k < 2 ^ j := Nat.pow_lt_pow_right Nat.one_lt_two hlt
  have hpos := Nat.two_pow_pos j
  have htop := network_end_le hn hj
  have hfirst := h (n / 2 ^ j * 2 ^ j) (by omega) (Nat.mul_div_cancel _ hpos)
  have hnext := h (n / 2 ^ j * 2 ^ j + 2 ^ k) (by omega) (by
    rw [Nat.add_comm, Nat.add_mul_div_right _ _ hpos, Nat.div_eq_of_lt hkj, Nat.zero_add])
  rw [Nat.add_div_right _ (Nat.two_pow_pos k), hfirst] at hnext
  omega

/-- Two networks with the same addresses have the same bits. -/
theorem network_eq {q n j k : ℕ} (hn : n < 2 ^ 32) (hj : j ≤ 32) (hk : k ≤ 32)
    (h : ∀ a < 2 ^ 32, a / 2 ^ j = q / 2 ^ j ↔ a / 2 ^ k = n / 2 ^ k) :
    j = k ∧ q / 2 ^ k = n / 2 ^ k := by
  have hq : n / 2 ^ j = q / 2 ^ j := (h n hn).2 rfl
  have hjk : j = k := by
    refine le_antisymm (block_le hn hj fun a ha haj => (h a ha).1 (haj.trans hq)) ?_
    exact block_le hn hk fun a ha hak => ((h a ha).2 hak).trans hq.symm
  rw [← hjk]
  exact ⟨rfl, hq.symm⟩

end Networks

/-! ## What the filter understands -/

section Filter

variable {s : Bytes}

theorem matchSingle_of_slash (h : 47 ∈ s) : matchSingle s = none :=
  matchSingle_eq_none h rfl (by decide) (by decide)

theorem matchNet_of_not_slash (h : 47 ∉ s) : matchNet s = none := by
  rw [matchNet, @findRunsBy_of_not_mem 47 _ _ (by decide) h]
  rfl

/-- The answer for a network. -/
theorem isIpInRange_of_matchNet {c caps : Captures} (hslash : 47 ∈ s) (hrange : matchRange s = none)
    (hnet : matchNet s = some c) (hc : octet c.c2 ≤ 32) (a : Address) :
    isIpInRange caps a.text (some s) =
      decide (a.number / 2 ^ (32 - octet c.c2) =
        uv (endNumber c.c1) / 2 ^ (32 - octet c.c2)) := by
  obtain ⟨q, m, hq, -, rfl⟩ := exists_quad_of_matchNet hnet
  have hbits := @bits_eq (octet (some m)) hc
  have hlt := a.number_lt
  rw [isIpInRange_of_net (matchSingle_of_slash hslash) hrange hnet]
  simp only [Option.getD_some, ip2int_text, ip2int_joinFields hq, hbits, shr_natCast]
  rw [uv_of_lt (n := a.number) (by omega)]

/-- An entry without a slash that the filter understands is an address as it is written. -/
theorem exists_text_of_understood (hslash : 47 ∉ s) (hchomp : chomp s = s) (h : Understood s) :
    ∃ n : Address, s = n.text := by
  obtain ⟨n, -, hrecognised, hmeans⟩ := h
  have hsingle : (matchSingle s).isSome := by
    refine hrecognised.resolve_right ?_
    rintro ⟨-, c, hnet, -⟩
    rw [matchNet_of_not_slash hslash] at hnet
    cases hnet
  obtain ⟨c, hc⟩ := Option.isSome_iff_exists.1 hsingle
  have htext : c.c1 = some s := by
    obtain ⟨runs, -, hsome⟩ := Option.bind_eq_some_iff.1 hc
    split_ifs at hsome
    rw [← Option.some.inj hsome, hchomp]
  have hin := (hmeans {} n).2 rfl
  rw [isIpInRange_of_single hc, htext, decide_eq_true_eq] at hin
  exact ⟨n, hin.symm⟩

/-- The form and the filter agree about an accepted entry if and only if it is readable. -/
theorem understood_iff (h : checkipaddr s true = true) : Understood s ↔ Readable s := by
  have hhead := head_ne_slash_of_checkipaddr h
  rw [Readable]
  by_cases hslash : 47 ∈ s
  · have hmask := maskBits_le h hslash hhead
    have hbits : bits s = maskBits s := if_pos hslash
    rw [if_pos hslash]
    constructor
    · rintro ⟨n, hsays, hrecognised, hmeans⟩
      have hnot : ¬(matchSingle s).isSome := by simp [matchSingle_of_slash hslash]
      obtain ⟨hrange, c, hnet, hc⟩ := hrecognised.resolve_left hnot
      have hsame : ∀ a < 2 ^ 32, a / 2 ^ (32 - octet c.c2) =
          uv (endNumber c.c1) / 2 ^ (32 - octet c.c2) ↔
            a / 2 ^ (32 - maskBits s) = n.number / 2 ^ (32 - maskBits s) := fun a ha => by
        have hin := hmeans {} (Address.ofNumber a)
        rwa [isIpInRange_of_matchNet hslash hrange hnet hc, decide_eq_true_eq,
          Address.number_ofNumber ha, hbits] at hin
      obtain ⟨hk, hq⟩ := network_eq n.number_lt (Nat.sub_le _ _) (Nat.sub_le _ _) hsame
      exact ⟨hrange, n, c, hsays, hnet, by omega, hq⟩
    · rintro ⟨hrange, n, c, hsays, hnet, hc, hq⟩
      refine ⟨n, hsays, .inr ⟨hrange, c, hnet, by omega⟩, fun caps a => ?_⟩
      rw [isIpInRange_of_matchNet hslash hrange hnet (by omega), hc, hbits, hq, decide_eq_true_eq]
  · have hbits : bits s = 32 := if_neg hslash
    have hchomp := chomp_of_isOctets (isOctets_of_checkipaddr h hslash)
    have hone : ∀ a n : Address, a.number / 2 ^ (32 - bits s) = n.number / 2 ^ (32 - bits s) ↔
        a = n := fun a n => by
      rw [hbits, Nat.sub_self, pow_zero, Nat.div_one, Nat.div_one, Address.number_injective.eq_iff]
    rw [if_neg hslash]
    constructor
    · exact exists_text_of_understood hslash hchomp
    · rintro ⟨n, rfl⟩
      refine ⟨n, says_text n, .inl ?_, fun caps a => ?_⟩
      · rw [matchSingle_text]
        rfl
      · rw [hone, isIpInRange_single, decide_eq_true_eq]

theorem understood_ten : Understood (bytes "10.0.0.1") :=
  (understood_iff (by decide +kernel)).2
    ((if_neg (by decide)).mpr ⟨⟨10, 0, 0, 1⟩, by decide +kernel⟩)

/-- An octet with a zero before it is accepted, and the entry holds no address. -/
theorem not_forall_understood : ¬∀ s, checkipaddr s true = true → Understood s := by
  intro h
  obtain ⟨n, hn⟩ := exists_text_of_understood (s := bytes "192.168.01.1") (by decide +kernel)
    (by decide +kernel) (h _ (by decide +kernel))
  have hsplit : (bytes "192.168.01.1").splitOn 46 =
      [bytes "192", bytes "168", bytes "01", bytes "1"] := by decide +kernel
  rw [hn, n.splitOn_text] at hsplit
  have hoctet : decimal n.c = bytes "01" := (List.cons.inj (List.cons.inj
    (List.cons.inj hsplit).2).2).1
  have hvalue : (n.c : ℕ) = 1 := by
    rw [← value_decimal n.c, hoctet]
    decide +kernel
  rw [hvalue] at hoctet
  exact absurd hoctet (by decide +kernel)

end Filter

end NoSpam.Admin
