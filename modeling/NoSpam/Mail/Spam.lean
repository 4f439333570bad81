import NoSpam.Base.Scalar

/-!
# White and black lists of the filter

`cut_comma_to_array_ref` of `AKA::Mail::Conf` reads a list of the configuration, and the functions
of `AKA::Mail::Spam` ask whether an address or a domain is in one.  Entries are patterns or ranges:
the search for a pattern, which need not compile, and `is_ip_in_range` are arguments.
-/

namespace NoSpam.Spam

open Text Perl

/-- `s/#.*//`. -/
def stripComment (b : Bytes) : Bytes :=
  b.takeWhile (· ≠ 35) ++ (b.dropWhile (· ≠ 35)).dropWhile (· ≠ 10)

/-- `cut_comma_to_array_ref`. -/
def cutCommaToArrayRef (conf_line : Bytes) : List Bytes :=
  if conf_line = [] then []
  else ((fields 44 conf_line).filter (· ≠ [])).map stripComment

/-- The lists of the section `SpamEngine`, and the switches that turn them on. -/
structure Lists where
  BlockIP : Bytes := bytes "N"
  BlackIPList : List Bytes := []
  WhiteIPList : List Bytes := []
  BlockDomain : Bytes := bytes "N"
  BlackDomainList : List Bytes := []
  WhiteDomainList : List Bytes := []
  BlockFrom : Bytes := bytes "N"
  BlackFromList : List Bytes := []
  WhiteFromList : List Bytes := []

/-- `init_config`: what becomes of the values in the section. -/
def initLists (values : Bytes → Bytes) : Lists where
  BlockIP := orElse (values (bytes "BlockIP")) (bytes "N")
  BlackIPList := cutCommaToArrayRef (values (bytes "BlackIPList"))
  WhiteIPList := cutCommaToArrayRef (values (bytes "WhiteIPList"))
  BlockDomain := orElse (values (bytes "BlockDomain")) (bytes "N")
  BlackDomainList := cutCommaToArrayRef (values (bytes "BlackDomainList"))
  WhiteDomainList := cutCommaToArrayRef (values (bytes "WhiteDomainList"))
  BlockFrom := orElse (values (bytes "BlockFrom")) (bytes "N")
  BlackFromList := cutCommaToArrayRef (values (bytes "BlackFromList"))
  WhiteFromList := cutCommaToArrayRef (values (bytes "WhiteFromList"))

/-- The loop over a list, which ends at the first entry that the test finds, or dies in one. -/
def found (block : Bytes) (test : Bytes → Option Bool) (list : List Bytes) : Option Bool :=
  if uc block ≠ bytes "Y" then some false else list.anyM test

section Tests

variable (is_ip_in_range : Bytes → Bytes → Bool) (search : Bytes → Option (Bytes → Bool))
  (config : Lists)

/-- `$text=~/$pattern/`. -/
def isMatch (text pattern : Bytes) : Option Bool := (search pattern).map (· text)

/-- `is_black_ip`. -/
def isBlackIP (ip : Bytes) : Option Bool :=
  found config.BlockIP (fun e => some (is_ip_in_range ip e)) config.BlackIPList

/-- `is_white_ip`. -/
def isWhiteIP (ip : Bytes) : Option Bool :=
  found config.BlockIP (fun e => some (is_ip_in_range ip e)) config.WhiteIPList

/-- `is_black_domain`: `$domain=~/$_$/`. -/
def isBlackDomain (domain : Bytes) : Option Bool :=
  found config.BlockDomain (fun e => isMatch search domain (e ++ [36])) config.BlackDomainList

/-- `is_white_domain`: `$domain=~/$_$/`. -/
def isWhiteDomain (domain : Bytes) : Option Bool :=
  found config.BlockDomain (fun e => isMatch search domain (e ++ [36])) config.WhiteDomainList

/-- `is_white_addr`: `$addr=~/^$_$/`. -/
def isWhiteAddr (addr : Bytes) : Option Bool :=
  found config.BlockFrom (fun e => isMatch search addr (94 :: (e ++ [36]))) config.WhiteFromList

/-- `is_black_addr`: `$addr=~/^$_$/`. -/
def isBlackAddr (addr : Bytes) : Option Bool :=
  found config.BlockFrom (fun e => isMatch search addr (94 :: (e ++ [36]))) config.BlackFromList

end Tests

/-! ## Reading a list -/

theorem stripComment_append {key : Bytes} (h : 35 ∉ key) {note : Bytes} (hnote : 10 ∉ note) :
    stripComment (key ++ 35 :: note) = key := by
  have hkey : ∀ c ∈ key, decide (c ≠ 35) = true := fun c hc =>
    decide_eq_true fun he => h (he ▸ hc)
  have hnone : (35 :: note).dropWhile (· ≠ 10) = [] := by
    rw [List.dropWhile_eq_nil_iff]
    intro c hc
    refine decide_eq_true ?_
    rintro rfl
    rcases List.mem_cons.1 hc with hc | hc
    · cases hc
    · exact hnote hc
  rw [stripComment, List.takeWhile_append_of_pos hkey, List.dropWhile_append_of_pos hkey,
    List.takeWhile_cons_of_neg (by decide), List.dropWhile_cons_of_neg (by decide), hnone,
    List.append_nil, List.append_nil]

/-- Entries with their notes, read without them. -/
theorem cutCommaToArrayRef_joinFields {items : List (Bytes × Bytes)}
    (h : ∀ e ∈ items, 35 ∉ e.1 ∧ 10 ∉ e.2 ∧ 44 ∉ e.1 ++ 35 :: e.2) :
    cutCommaToArrayRef (joinFields 44 (items.map fun e => e.1 ++ 35 :: e.2)) =
      items.map Prod.fst := by
  have hne : ∀ f ∈ items.map (fun e => e.1 ++ 35 :: e.2), f ≠ [] := by
    rw [List.forall_mem_map]
    intro e _
    simp
  have hfields : fields 44 (joinFields 44 (items.map fun e => e.1 ++ 35 :: e.2)) =
      items.map fun e => e.1 ++ 35 :: e.2 := by
    rw [fields_joinFields_iff]
    exact ⟨List.forall_mem_map.2 fun e he => (h e he).2.2,
      fun hnil => hne _ (List.getLast_mem hnil)⟩
  have hread : (items.map fun e => e.1 ++ 35 :: e.2).map stripComment = items.map Prod.fst := by
    rw [List.map_map]
    exact List.map_congr_left fun e he => stripComment_append (h e he).1 (h e he).2.1
  rw [cutCommaToArrayRef]
  split_ifs with hnil
  · rw [hnil] at hfields
    rw [← hread, ← hfields]
    rfl
  · rw [hfields, List.filter_eq_self.2 fun f hf => by simpa using hne f hf, hread]

theorem exists_of_anyM {α : Type*} {test : α → Option Bool} {list : List α}
    (h : list.anyM test = some true) : ∃ e ∈ list, test e = some true := by
  induction list with
  | nil => cases h
  | cons e list ih =>
    rw [List.anyM_cons] at h
    cases htest : test e with
    | none =>
      rw [htest] at h
      cases h
    | some b =>
      rw [htest] at h
      cases b with
      | true => exact ⟨e, List.mem_cons_self, htest⟩
      | false =>
        obtain ⟨f, hf, hfound⟩ := ih h
        exact ⟨f, List.mem_cons_of_mem e hf, hfound⟩

/-- A list is asked only if it is turned on. -/
theorem exists_of_found {block : Bytes} {test : Bytes → Option Bool} {list : List Bytes}
    (h : found block test list = some true) : ∃ e ∈ list, test e = some true := by
  rw [found] at h
  split_ifs at h
  · cases h
  · exact exists_of_anyM h

end NoSpam.Spam
