import NoSpam.Base.Pattern
import NoSpam.Base.Php
import NoSpam.Mail.SpamChecker

/-!
# Lists of domains

The entries of the white and the black list of domains are spliced into regular expressions, as the
domain of the sender is when the names of the client are searched for it.  `bySuffix_iff` says when
that finds the entries under which a domain stands.
-/

namespace NoSpam.Spam

open Text Perl Conf

/-- The matching of a pattern in which dots, and a `$` at the end, have a meaning. -/
def isDomainMatch (text pattern : Bytes) : Bool :=
  if pattern.getLast? = some 36 then endsWith pattern.dropLast text
  else (findPattern pattern text).isSome

/-- The search for such a pattern, which compiles. -/
def searchDomain (pattern : Bytes) : Option (Bytes → Bool) :=
  some fun text => isDomainMatch text pattern

/-- A domain name. -/
structure DomainName where
  name : Bytes
  labels : ∀ label ∈ name.splitOn 46,
    label ≠ [] ∧ ∀ c ∈ label, (Php.isAlpha c || isDigit c || c = 45) = true

/-- The lists of a configuration. -/
def withDomains (config : Lists) (white black : List DomainName) : Lists :=
  { config with
    WhiteDomainList := white.map DomainName.name
    BlackDomainList := black.map DomainName.name }

/-! ## What is expected -/

/-- A domain stands under an entry: it is the same or ends in a dot and the entry. -/
def Under (entry domain : Bytes) : Prop := domain = entry ∨ ∃ host, domain = host ++ 46 :: entry

/-- An entry under which a domain stands. -/
def Listed (list : List DomainName) (domain : Bytes) : Prop := ∃ d ∈ list, Under d.name domain

/-- The lists find what stands under their entries, and a sender is traced by the names of the
client that stand under the sender's domain. -/
structure BySuffix (k : Checker) (config : Lists) (white black : List DomainName)
    (sender : DomainName) (domain : Bytes) (ptr_domain : List Bytes) : Prop where
  white_iff : isWhiteDomain searchDomain (withDomains config white black) domain = some true ↔
    Listed white domain
  black_iff : isBlackDomain searchDomain (withDomains config white black) domain = some true ↔
    Listed black domain
  ptr_iff : ({ k with search := searchDomain } : Checker).isPtr sender.name ptr_domain =
      some true ↔
    ∃ ptr ∈ ptr_domain, Under sender.name ptr

/-- A text ends like an entry, each dot of which may stand for any symbol; a line end may follow. -/
def EndsLike (entry domain : Bytes) : Prop :=
  ∃ host w, (domain = host ++ w ∨ domain = host ++ w ++ [10]) ∧ Matches entry w

/-- A text holds something like an entry anywhere. -/
def Holds (entry domain : Bytes) : Prop := ∃ y w z, domain = y ++ w ++ z ∧ Matches entry w

/-- A domain that ends like an entry stands under one; if domains are not checked, it stands under
none. -/
def Told (BlockDomain : Bytes) (list : List DomainName) (domain : Bytes) : Prop :=
  if uc BlockDomain = bytes "Y" then (∃ d ∈ list, EndsLike d.name domain) → Listed list domain
  else ¬Listed list domain

/-- No domain or name looks like an entry that it does not stand under. -/
structure Plain (config : Lists) (white black : List DomainName) (sender : DomainName)
    (domain : Bytes) (ptr_domain : List Bytes) : Prop where
  white : Told config.BlockDomain white domain
  black : Told config.BlockDomain black domain
  ptr : (∃ ptr ∈ ptr_domain, Holds sender.name ptr) → ∃ ptr ∈ ptr_domain, Under sender.name ptr

/-! ## Matching -/

section Matching

variable {entry domain : Bytes}

theorem isDomainMatch_end :
    isDomainMatch domain (entry ++ [36]) = true ↔ EndsLike entry domain := by
  rw [isDomainMatch, if_pos (by simp), List.dropLast_concat]
  exact endsWith_iff

theorem EndsLike.of_under (h : Under entry domain) : EndsLike entry domain := by
  rcases h with rfl | ⟨host, rfl⟩
  · exact ⟨[], domain, .inl rfl, Matches.refl domain⟩
  · exact ⟨host ++ [46], entry, .inl (by rw [List.append_assoc]; rfl), Matches.refl entry⟩

theorem Holds.of_under (h : Under entry domain) : Holds entry domain := by
  rcases h with rfl | ⟨host, rfl⟩
  · exact ⟨[], domain, [], (List.append_nil _).symm, Matches.refl domain⟩
  · exact ⟨host ++ [46], entry, [], by rw [List.append_nil, List.append_assoc]; rfl,
      Matches.refl entry⟩

/-- The last symbol of a domain name is no sign of the pattern language. -/
theorem DomainName.getLast?_ne (d : DomainName) : d.name.getLast? ≠ some 36 := by
  intro hlast
  have hmem : 36 ∈ joinFields 46 (d.name.splitOn 46) := by
    rw [joinFields, List.intercalate_splitOn]
    exact List.mem_of_getLast? hlast
  rcases mem_of_mem_joinFields hmem with hdot | ⟨label, hlabel, hsymbol⟩
  · exact absurd hdot (by decide)
  · exact absurd ((d.labels label hlabel).2 36 hsymbol) (by decide)

theorem isDomainMatch_name (d : DomainName) :
    isDomainMatch domain d.name = true ↔ Holds d.name domain := by
  rw [isDomainMatch, if_neg d.getLast?_ne]
  exact isSome_findPattern_iff

/-- A search for patterns that compile finds the entries that match. -/
theorem anyM_isMatch (list : List Bytes) (f : Bytes → Bytes) (g : Bytes → Bytes) :
    list.anyM (fun e => isMatch searchDomain (f e) (g e)) =
      some (list.any fun e => isDomainMatch (f e) (g e)) :=
  List.anyM_pure

/-- A list tells a domain exactly if nothing else looks like it. -/
theorem found_iff (BlockDomain : Bytes) (list : List DomainName) :
    (found BlockDomain (fun e => isMatch searchDomain domain (e ++ [36]))
        (list.map DomainName.name) = some true ↔
      Listed list domain) ↔ Told BlockDomain list domain := by
  rw [found, Told]
  by_cases hon : uc BlockDomain = bytes "Y"
  · rw [if_neg (not_not.2 hon), if_pos hon]
    have hany : (list.map DomainName.name).any (fun e => isDomainMatch domain (e ++ [36])) = true ↔
        ∃ d ∈ list, EndsLike d.name domain := by
      simp only [List.any_map, List.any_eq_true, Function.comp_apply, isDomainMatch_end]
    rw [anyM_isMatch _ (fun _ => domain), Option.some_inj, hany]
    refine ⟨Iff.mp, fun h => ⟨h, ?_⟩⟩
    rintro ⟨d, hd, hunder⟩
    exact ⟨d, hd, .of_under hunder⟩
  · rw [if_pos hon, if_neg hon]
    simp

end Matching

/-- **When domains are told by their suffix**: for all lists, every domain, and every sender and
client, exactly if nothing looks like an entry without standing under one. -/
theorem bySuffix_iff (k : Checker) (config : Lists) (white black : List DomainName)
    (sender : DomainName) (domain : Bytes) (ptr_domain : List Bytes) :
    BySuffix k config white black sender domain ptr_domain ↔
      Plain config white black sender domain ptr_domain := by
  have hany : ({ k with search := searchDomain } : Checker).isPtr sender.name ptr_domain =
      some true ↔ ∃ ptr ∈ ptr_domain, Holds sender.name ptr := by
    have hptr : ({ k with search := searchDomain } : Checker).isPtr sender.name ptr_domain =
        some (ptr_domain.any fun ptr => isDomainMatch ptr sender.name) :=
      anyM_isMatch ptr_domain id fun _ => sender.name
    simp only [hptr, Option.some_inj, List.any_eq_true, isDomainMatch_name]
  have hptr : (({ k with search := searchDomain } : Checker).isPtr sender.name ptr_domain =
      some true ↔
      ∃ ptr ∈ ptr_domain, Under sender.name ptr) ↔
      ((∃ ptr ∈ ptr_domain, Holds sender.name ptr) →
        ∃ ptr ∈ ptr_domain, Under sender.name ptr) := by
    rw [hany]
    refine ⟨Iff.mp, fun h => ⟨h, ?_⟩⟩
    rintro ⟨ptr, hmem, hunder⟩
    exact ⟨ptr, hmem, .of_under hunder⟩
  constructor
  · exact fun ⟨hwhite, hblack, hname⟩ =>
      ⟨(found_iff _ _).1 hwhite, (found_iff _ _).1 hblack, hptr.1 hname⟩
  · exact fun ⟨hwhite, hblack, hname⟩ =>
      ⟨(found_iff _ _).2 hwhite, (found_iff _ _).2 hblack, hptr.2 hname⟩

/-- `partner.cn`. -/
def partnerCn : DomainName where
  name := bytes "partner.cn"
  labels := by decide +kernel

/-- Another domain with the same end is on the white list. -/
theorem partner_look_alike :
    isWhiteDomain searchDomain (withDomains partnerLists [partnerCn] [])
        (bytes "evilpartner.cn") = some true ∧
      ¬BySuffix literalChecker partnerLists [partnerCn] [] partnerCn
        (bytes "evilpartner.cn") [] := by
  have hmatch : isWhiteDomain searchDomain (withDomains partnerLists [partnerCn] [])
      (bytes "evilpartner.cn") = some true := by decide +kernel
  refine ⟨hmatch, fun h => ?_⟩
  obtain ⟨d, hd, hunder⟩ := h.white_iff.1 hmatch
  obtain rfl := List.mem_singleton.1 hd
  rcases hunder with hsame | ⟨host, hsuffix⟩
  · exact absurd hsame (by decide +kernel)
  · have hend : 46 :: bytes "partner.cn" <:+ bytes "evilpartner.cn" := ⟨host, hsuffix.symm⟩
    exact absurd hend (by decide +kernel)

end NoSpam.Spam
