import NoSpam.Admin.Profile
import NoSpam.Base.Numeric
import NoSpam.Base.Word

/-!
# The addresses an administrator may come from

`login.ns` reads the list of addresses from the record of the administrator: with `+` it says which
addresses are let in, with `-` which are kept out, and without a sign it says nothing.  An entry is
an address or a network.  The integers have 32 bits here, as on the machines the product runs on.
-/

namespace NoSpam.Login

open Text Php Admin

/-! ## The check -/

/-- `ValidateIP`. -/
def validateIP (v s : Bytes) : Bool :=
  if looseEq v s then true
  else if 47 ∉ s ∨ s.head? = some 47 then false
  else
    let word (ip : Bytes) : Long := quadWord (long (part 46 ip 0)) (long (part 46 ip 1))
      (long (part 46 ip 2)) (long (part 46 ip 3))
    let mask := maskWord (long (part 47 s 1))
    word (part 47 s 0) &&& mask = word v &&& mask

/-- The entries of a list without its sign. -/
def entries (ips : Bytes) : List Bytes := (ips.splitOn 44).map trim

/-- The check of the address. -/
def addressCheck (ip remote : Bytes) : Bool :=
  match trim ip with
  | [] => true
  | c :: l => if c = 43 ∨ c = 45 then (entries l).any (validateIP remote) ^^ (c = 45) else true

/-- `getAdminInfo`; of an administrator who is not found nothing is known. -/
def getAdminInfo (id file : Bytes) : Record :=
  ((readProfile file).find? fun r => r.id = id).getD {}

/-- The check of the address at a login.  The code that `getAdminInfo` returns is not looked at: it
is sought under a name with a dollar sign, and null is as good as `OK`. -/
def addressAllowed (id file remote : Bytes) : Bool := addressCheck (getAdminInfo id file).ip remote

/-! ## The purpose -/

/-- An address. -/
structure Address where
  a : Fin 256
  b : Fin 256
  c : Fin 256
  d : Fin 256
  deriving DecidableEq

namespace Address

/-- The octets. -/
def octets (v : Address) : List ℕ := [v.a, v.b, v.c, v.d]

/-- The canonical text. -/
def text (v : Address) : Bytes := joinFields 46 (v.octets.map decimal)

/-- The address as a number. -/
def number (v : Address) : ℕ := v.a * 2 ^ 24 + v.b * 2 ^ 16 + v.c * 2 ^ 8 + v.d

/-- The address of a number. -/
def ofNumber (n : ℕ) : Address :=
  ⟨Fin.ofNat 256 (n / 2 ^ 24), Fin.ofNat 256 (n / 2 ^ 16), Fin.ofNat 256 (n / 2 ^ 8),
    Fin.ofNat 256 n⟩

end Address

/-- The octets of the entry are canonical decimals. -/
def Canonical (e : Bytes) : Prop := ∃ n : Address, part 47 e 0 = n.text

/-- The bits of an entry that is a network. -/
def maskBits (e : Bytes) : ℕ := (intval (part 47 e 1)).toNat

/-- The address is the entry, or lies in its network. -/
def Covers (e : Bytes) (v : Address) : Prop :=
  ∃ n : Address, part 47 e 0 = n.text ∧
    if 47 ∈ e then v.number / 2 ^ (32 - maskBits e) = n.number / 2 ^ (32 - maskBits e) else v = n

/-- The address is in an entry of the list. -/
def Listed (ips : Bytes) (v : Address) : Prop := ∃ e ∈ entries ips, Covers e v

/-- The signs. -/
def isSign (c : UInt8) : Bool := c = 43 || c = 45

/-- What the list says about an address. -/
def Admitted (ip : Bytes) (v : Address) : Prop :=
  match trim ip with
  | [] => True
  | c :: l => if c = 43 then Listed l v else if c = 45 then ¬Listed l v else True

/-- The entries of a list with a sign are canonical. -/
def CanonicalList (ip : Bytes) : Prop :=
  ∀ c l, trim ip = c :: l → isSign c = true → ∀ e ∈ entries l, Canonical e

/-- The mask is a number of bits. -/
def MaskFits (e : Bytes) : Prop := 0 ≤ intval (part 47 e 1) ∧ intval (part 47 e 1) ≤ 32

/-- The address is let through by an entry: by any network of 31 or 32 bits, and, where the entry is
a network that is not canonical or has no number of bits, by `ValidateIP`. -/
def Reaches (e : Bytes) (v : Address) : Prop :=
  (47 ∈ e → Canonical e ∧ MaskFits e) ∧ (Covers e v ∨ 47 ∈ e ∧ 30 < maskBits e) ∨
    ¬(47 ∈ e → Canonical e ∧ MaskFits e) ∧ validateIP v.text e = true

/-- What the check makes of a list. -/
def Passes (ip : Bytes) (v : Address) : Prop :=
  match trim ip with
  | [] => True
  | c :: l =>
      if c = 43 then ∃ e ∈ entries l, Reaches e v
      else if c = 45 then ¬∃ e ∈ entries l, Reaches e v else True

/-- The masks of a list with a sign have at most 30 bits, or its networks hold every address. -/
def MasksRight (ip : Bytes) : Prop :=
  ∀ c l, trim ip = c :: l → isSign c = true →
    (∀ e ∈ entries l, 47 ∈ e → maskBits e ≤ 30) ∨ ∀ v, Listed l v

/-! ## Addresses -/

namespace Address

variable (v n : Address)

theorem dot_not_mem : ∀ f ∈ v.octets.map decimal, 46 ∉ f := by
  intro f hf hdot
  obtain ⟨k, -, rfl⟩ := List.mem_map.1 hf
  have h := isDigit_of_mem_decimal hdot
  cases h

theorem splitOn_text : v.text.splitOn 46 = v.octets.map decimal :=
  List.splitOn_intercalate 46 v.dot_not_mem (List.cons_ne_nil _ _)

theorem text_injective : Function.Injective text := by
  intro v n h
  have hsplit := congrArg (List.splitOn 46) h
  rw [splitOn_text, splitOn_text, List.map_inj_right fun _ _ => decimal_inj] at hsplit
  obtain ⟨a, b, c, d⟩ := v
  obtain ⟨a', b', c', d'⟩ := n
  simp only [octets, List.cons.injEq, Fin.val_inj, and_true] at hsplit
  obtain ⟨rfl, rfl, rfl, rfl⟩ := hsplit
  rfl

theorem text_eq : v.text = decimal v.a ++ 46 :: (decimal v.b ++ 46 :: (decimal v.c ++
    46 :: decimal v.d)) := by
  simp [text, octets, joinFields_cons]

theorem isDigit_or_dot {c : UInt8} (h : c ∈ v.text) : isDigit c = true ∨ c = 46 := by
  simp only [text_eq, List.mem_append, List.mem_cons] at h
  rcases h with h | h | h | h | h | h | h
  all_goals first | exact .inl (isDigit_of_mem_decimal h) | exact .inr h

/-- An address is no number. -/
theorem not_isNumeric : isNumeric v.text = false := by
  have hdigits : ∀ n : ℕ, ∀ c ∈ decimal n, isDigit c = true := fun n c => isDigit_of_mem_decimal
  obtain ⟨x, t, hx⟩ := List.exists_cons_of_ne_nil (decimal_ne_nil v.a)
  have hdigit : isDigit x = true := hdigits v.a x (by simp [hx])
  have htext : v.text = x :: (t ++ 46 :: (decimal v.b ++ 46 :: (decimal v.c ++
      46 :: decimal v.d))) := by
    rw [text_eq, hx]
    rfl
  have hspace : v.text.dropWhile isSpace = v.text := by
    rw [htext, List.dropWhile_cons_of_neg (by simp [not_isSpace_of_isDigit hdigit])]
  have hsign : dropSign v.text = v.text := by
    rw [htext, dropSign, if_neg]
    rintro (rfl | rfl) <;> cases hdigit
  have hhex : isHex v.text = false := by
    cases hl : isHex v.text with
    | false => rfl
    | true =>
      unfold isHex at hl
      split at hl
      · rename_i c l he
        have hc := v.isDigit_or_dot (c := c) (by simp [he])
        simp only [Bool.and_eq_true, Bool.or_eq_true, decide_eq_true_eq] at hl
        obtain ⟨⟨rfl | rfl, -⟩, -⟩ := hl <;> rcases hc with hc | hc <;> cases hc
      · cases hl
  have hfloat : isFloat v.text = false := by
    obtain ⟨htake, hdrop⟩ := takeWhile_append_cons (c := 46) (hdigits v.a) rfl
      (decimal v.b ++ 46 :: (decimal v.c ++ 46 :: decimal v.d))
    obtain ⟨-, hdrop'⟩ := takeWhile_append_cons (c := 46) (hdigits v.b) rfl
      (decimal v.c ++ 46 :: decimal v.d)
    rw [isFloat, text_eq, hdrop]
    simp only [if_true, hdrop']
    simp [isExponent]
  unfold isNumeric
  simp only [hspace, hsign, hhex, hfloat, Bool.or_self]

theorem part_text (i : ℕ) : part 46 v.text i = (v.octets.map decimal).getD i [] := by
  rw [part, splitOn_text]

theorem number_lt : v.number < 2 ^ 32 := by
  have ha := v.a.isLt
  have hb := v.b.isLt
  have hc := v.c.isLt
  have hd := v.d.isLt
  rw [number]
  omega

theorem number_ofNumber {n : ℕ} (h : n < 2 ^ 32) : (ofNumber n).number = n := by
  simp only [number, ofNumber, Fin.ofNat, Fin.val_mk]
  omega

theorem number_injective : Function.Injective number := by
  intro v n h
  obtain ⟨a, b, c, d⟩ := v
  obtain ⟨a', b', c', d'⟩ := n
  simp only [number] at h
  simp only [mk.injEq, Fin.ext_iff]
  omega

theorem ofNumber_number : ofNumber v.number = v :=
  number_injective (number_ofNumber v.number_lt)

end Address

/-! ## One entry -/

section Entry

variable {e : Bytes} {v : Address}

/-- The word of an address. -/
theorem toNat_quadWord_text (v : Address) :
    (quadWord (long (part 46 v.text 0)) (long (part 46 v.text 1)) (long (part 46 v.text 2))
      (long (part 46 v.text 3))).toNat = v.number := by
  have hlong : ∀ n : Fin 256, long (decimal n) = (n : ℕ) := fun n =>
    long_decimal (n.isLt.trans (by decide))
  have ha : long (part 46 v.text 0) = (v.a : ℕ) := by
    rw [v.part_text]
    exact hlong _
  have hb : long (part 46 v.text 1) = (v.b : ℕ) := by
    rw [v.part_text]
    exact hlong _
  have hc : long (part 46 v.text 2) = (v.c : ℕ) := by
    rw [v.part_text]
    exact hlong _
  have hd : long (part 46 v.text 3) = (v.d : ℕ) := by
    rw [v.part_text]
    exact hlong _
  rw [ha, hb, hc, hd, toNat_quadWord v.a.isLt v.b.isLt v.c.isLt v.d.isLt, Address.number]

theorem covers_iff {n : Address} (hn : part 47 e 0 = n.text) :
    Covers e v ↔
      if 47 ∈ e then v.number / 2 ^ (32 - maskBits e) = n.number / 2 ^ (32 - maskBits e)
      else v = n := by
  constructor
  · rintro ⟨n', hn', h⟩
    rw [hn] at hn'
    rwa [← Address.text_injective hn'] at h
  · exact fun h => ⟨n, hn, h⟩

/-- The bits of a network that the check has accepted. -/
theorem maskFits_of_checkipaddr (h : checkipaddr e true = true) (hslash : 47 ∈ e)
    (hhead : e.head? ≠ some 47) : MaskFits e := by
  rw [checkipaddr, if_pos ⟨hslash, hhead, rfl⟩] at h
  simp only [Bool.and_eq_true, decide_eq_true_eq] at h
  obtain ⟨⟨⟨-, hlow⟩, hhigh⟩, -⟩ := h
  exact ⟨hlow, hhigh⟩

theorem MaskFits.maskBits_le (h : MaskFits e) : maskBits e ≤ 32 := by
  have hle := h.2
  rw [maskBits]
  omega

theorem maskBits_le (h : checkipaddr e true = true) (hslash : 47 ∈ e) (hhead : e.head? ≠ some 47) :
    maskBits e ≤ 32 := (maskFits_of_checkipaddr h hslash hhead).maskBits_le

theorem MaskFits.long_eq (h : MaskFits e) : long (part 47 e 1) = maskBits e := by
  rw [long_eq_intval (by have := h.1; omega) (by have := h.2; omega), maskBits,
    Int.toNat_of_nonneg h.1]

theorem head_ne_slash (hcanonical : Canonical e) : e.head? ≠ some 47 := by
  obtain ⟨n, hn⟩ := hcanonical
  intro h
  obtain ⟨l, rfl⟩ : ∃ l, e = 47 :: l := by
    cases e with
    | nil => cases h
    | cons c l => exact ⟨l, by rw [Option.some.inj h]⟩
  have hnil : part 47 (47 :: l) 0 = [] := part_append List.not_mem_nil l 0
  rw [hnil, n.text_eq] at hn
  exact absurd (congrArg List.length hn) (by simp)

/-- The check of an entry is right, unless it is a network of more than 30 bits: such a network
holds every address for it. -/
theorem validateIP_iff (hfits : 47 ∈ e → MaskFits e) (hcanonical : Canonical e) :
    validateIP v.text e = true ↔ Covers e v ∨ 47 ∈ e ∧ 30 < maskBits e := by
  have hhead := head_ne_slash hcanonical
  obtain ⟨n, hn⟩ := hcanonical
  rw [covers_iff hn, validateIP, looseEq_of_not_isNumeric v.not_isNumeric]
  by_cases hslash : 47 ∈ e
  · have hne : v.text ≠ e := by
      rintro rfl
      rcases v.isDigit_or_dot hslash with hc | hc <;> cases hc
    have hle := (hfits hslash).maskBits_le
    rw [decide_eq_false hne, if_neg Bool.false_ne_true, if_neg (by simp [hslash, hhead]),
      if_pos hslash, hn, (hfits hslash).long_eq]
    simp only [decide_eq_true_eq, hslash, true_and]
    by_cases hbits : 30 < maskBits e
    · rw [maskWord_of_lt hbits hle, BitVec.and_zero, BitVec.and_zero]
      exact iff_of_true rfl (.inr hbits)
    · rw [maskWord_of_le (Nat.not_lt.1 hbits), and_mask_eq_iff, toNat_quadWord_text,
        toNat_quadWord_text, or_iff_left hbits]
      exact eq_comm
  · have he : e = n.text := by rw [← hn, part_of_not_mem hslash, if_pos rfl]
    have hnot : ¬(47 ∈ e ∧ 30 < maskBits e) := fun hc => hslash hc.1
    have hv : v.text = e ↔ v = n := by rw [he, Address.text_injective.eq_iff]
    rw [if_neg hslash, or_iff_left hnot, if_pos (Or.inl hslash)]
    simp [hv]

/-- An entry that is neither a network nor an address lets no one through. -/
theorem not_validateIP (hslash : 47 ∉ e) (hcanonical : ¬Canonical e) :
    validateIP v.text e = false := by
  have hne : v.text ≠ e := by
    rintro rfl
    exact hcanonical ⟨v, by rw [part_of_not_mem hslash, if_pos rfl]⟩
  rw [validateIP, looseEq_of_not_isNumeric v.not_isNumeric, decide_eq_false hne,
    if_neg Bool.false_ne_true, if_pos (Or.inl hslash)]

theorem validateIP_iff_reaches : validateIP v.text e = true ↔ Reaches e v := by
  unfold Reaches
  by_cases hlegit : 47 ∈ e → Canonical e ∧ MaskFits e
  · rw [and_iff_right hlegit, or_iff_left fun h => h.1 hlegit]
    by_cases hcanonical : Canonical e
    · exact validateIP_iff (fun hslash => (hlegit hslash).2) hcanonical
    · have hslash : 47 ∉ e := fun hslash => hcanonical (hlegit hslash).1
      rw [not_validateIP hslash hcanonical]
      refine iff_of_false Bool.false_ne_true ?_
      rintro (⟨n, hn, -⟩ | ⟨hmem, -⟩)
      · exact hcanonical ⟨n, hn⟩
      · exact hslash hmem
  · simp [hlegit]

end Entry

/-! ## The list -/

theorem splitOn_concat {sep c : UInt8} (hc : c ≠ sep) (l : Bytes) :
    ∃ gs g, l.splitOn sep = gs ++ [g] ∧ (l ++ [c]).splitOn sep = gs ++ [g ++ [c]] := by
  obtain ⟨gs, g, hgs⟩ := (List.eq_nil_or_concat' (l.splitOn sep)).resolve_left
    (List.splitOn_ne_nil sep l)
  refine ⟨gs, g, hgs, ?_⟩
  have hmem : ∀ f ∈ gs ++ [g], sep ∉ f := fun f hf => not_mem_of_mem_splitOn (l := l) (hgs ▸ hf)
  have hjoin : l ++ [c] = joinFields sep (gs ++ [g ++ [c]]) := by
    rw [joinFields_concat, ← List.append_assoc, ← joinFields_concat, ← hgs, joinFields,
      List.intercalate_splitOn]
  rw [hjoin, joinFields, List.splitOn_intercalate sep]
  · intro f hf
    rcases List.mem_append.1 hf with hf | hf
    · exact hmem f (List.mem_append_left _ hf)
    · rw [List.mem_singleton.1 hf, List.mem_append, List.mem_singleton]
      rintro (hg | rfl)
      · exact hmem g (List.mem_append_right _ List.mem_cons_self) hg
      · exact hc rfl
  · simp

theorem not_isTrim_comma {c : UInt8} (h : isTrim c = true) : c ≠ 44 := by
  rintro rfl
  cases h

/-- Blanks around a list are blanks around its entries. -/
theorem entries_trim (l : Bytes) : entries (trim l) = entries l := by
  have hend : ∀ l : Bytes, entries (rtrim l) = entries l := by
    intro l
    induction l using List.reverseRecOn with
    | nil => rfl
    | append_singleton l c ih =>
      by_cases hc : isTrim c = true
      · obtain ⟨gs, g, hgs, hgs'⟩ := splitOn_concat (not_isTrim_comma hc) l
        rw [rtrim_concat hc, ih, entries, entries, hgs, hgs', List.map_append, List.map_append,
          List.map_singleton, List.map_singleton, trim_concat hc]
      · have hself : rtrim (l ++ [c]) = l ++ [c] := List.rdropWhile_concat_neg isTrim l c hc
        rw [hself]
  have hfront : ∀ l : Bytes, entries (l.dropWhile isTrim) = entries l := by
    intro l
    induction l with
    | nil => rfl
    | cons c l ih =>
      by_cases hc : isTrim c = true
      · obtain ⟨g, gs, hgs⟩ := List.exists_cons_of_ne_nil (List.splitOn_ne_nil 44 l)
        rw [List.dropWhile_cons_of_pos hc, ih, entries, entries,
          List.splitOn_cons_eq_if_modifyHead,
          if_neg (by simpa using not_isTrim_comma hc), hgs, List.modifyHead_cons, List.map_cons,
          List.map_cons, trim_cons hc]
      · rw [List.dropWhile_cons_of_neg hc]
  rw [trim, hfront, hend]

/-- The entries of an accepted list with a sign have been checked. -/
theorem checkipaddr_of_mem_entries {ip l : Bytes} {c : UInt8} (h : isIpFormatOK ip = true)
    (htrim : trim ip = c :: l) (hsign : isSign c = true) :
    ∀ e ∈ entries l, checkipaddr e true = true := by
  have hc : c = 43 ∨ c = 45 := by simpa [isSign] using hsign
  rw [isIpFormatOK, htrim] at h
  simp only [if_pos hc] at h
  intro e he
  rw [← entries_trim] at he
  obtain ⟨f, hf, rfl⟩ := List.mem_map.1 he
  exact List.all_eq_true.1 h f hf

/-- What the check makes of any list. -/
theorem addressCheck_iff_passes (ip : Bytes) (v : Address) :
    addressCheck ip v.text = true ↔ Passes ip v := by
  rw [addressCheck, Passes]
  cases trim ip with
  | nil => exact iff_of_true rfl trivial
  | cons c l =>
    have hany : (entries l).any (validateIP v.text) = true ↔ ∃ e ∈ entries l, Reaches e v := by
      rw [List.any_eq_true]
      exact exists_congr fun e => and_congr_right fun _ => validateIP_iff_reaches
    dsimp only
    by_cases hplus : c = 43
    · subst hplus
      simp [hany]
    · by_cases hminus : c = 45
      · subst hminus
        simp [← hany]
      · simp [hplus, hminus]

/-- The check of an accepted list is right for every address if and only if its masks have at most
30 bits, or its networks hold every address anyhow. -/
theorem addressCheck_iff {ip : Bytes} (h : isIpFormatOK ip = true) (hcanonical : CanonicalList ip) :
    (∀ v : Address, addressCheck ip v.text = true ↔ Admitted ip v) ↔ MasksRight ip := by
  cases htrim : trim ip with
  | nil =>
    have hright : MasksRight ip := fun c l hcl => by
      rw [htrim] at hcl
      cases hcl
    refine iff_of_true (fun v => ?_) hright
    rw [addressCheck, Admitted, htrim]
    exact iff_of_true rfl trivial
  | cons c l =>
    by_cases hsign : isSign c = true
    · have hentries := checkipaddr_of_mem_entries h htrim hsign
      have hall := hcanonical c l htrim hsign
      have hany : ∀ v : Address, (entries l).any (validateIP v.text) = true ↔
          Listed l v ∨ ∃ e ∈ entries l, 47 ∈ e ∧ 30 < maskBits e := by
        intro v
        rw [List.any_eq_true, Listed, ← exists_or]
        refine exists_congr fun e => ?_
        rw [← and_or_left]
        refine and_congr_right fun he => validateIP_iff (fun hslash => ?_) (hall e he)
        exact maskFits_of_checkipaddr (hentries e he) hslash (head_ne_slash (hall e he))
      have hcheck : ∀ v : Address, (addressCheck ip v.text = true ↔ Admitted ip v) ↔
          ((entries l).any (validateIP v.text) = true ↔ Listed l v) := by
        intro v
        rw [addressCheck, Admitted, htrim]
        simp only [isSign, Bool.or_eq_true, decide_eq_true_eq] at hsign
        rcases hsign with rfl | rfl
        · simp only [true_or, if_true, show ((43 : UInt8) = 45) = False from by decide,
            decide_false, Bool.bne_false]
        · simp only [or_true, if_true, show ((45 : UInt8) = 43) = False from by decide, if_false,
            decide_true, Bool.bne_true, Bool.not_eq_true']
          rw [← Bool.not_eq_true, not_iff_not]
      rw [forall_congr' hcheck]
      have hright : MasksRight ip ↔
          (∀ e ∈ entries l, 47 ∈ e → maskBits e ≤ 30) ∨ ∀ v, Listed l v := by
        constructor
        · exact fun hm => hm c l htrim hsign
        · intro hm c' l' htrim' _
          rw [htrim] at htrim'
          obtain ⟨-, rfl⟩ := List.cons.inj htrim'
          exact hm
      rw [hright]
      simp only [hany]
      by_cases hbits : ∀ e ∈ entries l, 47 ∈ e → maskBits e ≤ 30
      · refine iff_of_true (fun v => or_iff_left ?_) (.inl hbits)
        rintro ⟨e, he, hslash, hlt⟩
        exact absurd (hbits e he hslash) (Nat.not_le.2 hlt)
      · rw [or_iff_right hbits]
        push Not at hbits
        exact forall_congr' fun v => ⟨fun hv => hv.1 (.inr hbits), fun hv => ⟨fun _ => hv, .inl⟩⟩
    · have hright : MasksRight ip := fun c' l' htrim' hsign' => by
        rw [htrim] at htrim'
        obtain ⟨rfl, -⟩ := List.cons.inj htrim'
        exact absurd hsign' hsign
      refine iff_of_true (fun v => ?_) hright
      simp only [isSign, Bool.or_eq_true, decide_eq_true_eq, not_or] at hsign
      rw [addressCheck, Admitted, htrim]
      simp [hsign]

end NoSpam.Login
