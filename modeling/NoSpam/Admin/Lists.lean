import NoSpam.Admin.ConfFile
import NoSpam.Admin.Profile
import NoSpam.Mail.Spam

/-!
# White and black lists of the web interface

`NoSPAMConf` stores a list of entries with notes as `entry#note,entry#note` in one parameter of the
configuration.  `setList` writes it, `getList` reads it back for the web interface and
`cut_comma_to_array_ref` for the filter.  Commas in notes are replaced; signs `#` are not, and an
entry may be empty: `same_iff` says which lists mean the same to both readers.
-/

namespace NoSpam.Admin.ConfFile

open Text Php Spam

/-! ## Writing and reading -/

/-- `str_replace(",","，",$note)`. -/
def replaceComma (note : Bytes) : Bytes :=
  note.flatMap fun c => if c = 44 then [239, 188, 140] else [c]

/-- What is kept of a note. -/
def storedNote (note : Bytes) : Bytes := trim (replaceComma note)

/-- What is kept of an entry and its note. -/
def stored (e : Bytes × Bytes) : Bytes × Bytes := (trim e.1, storedNote e.2)

/-- `trim($key)."#".trim(...)`. -/
def item (e : Bytes × Bytes) : Bytes := (stored e).1 ++ 35 :: (stored e).2

/-- The lists whose entries are addresses. -/
def isIPList (sList : Bytes) : Bool :=
  sList = bytes "WhiteIPList" || sList = bytes "BlackIPList" ||
    sList = bytes "WhiteIPConcurList" || sList = bytes "WhiteIPRateList"

/-- `setList`; nothing is left of the call if it dies. -/
def setList (params : Params) (sList : Bytes) (aParam : Assoc Bytes Bytes) (sSection : Bytes) :
    Option Params :=
  if isIPList sList && aParam.entries.any (fun e => !checkipaddr e.1 true) then none
  else some (setParam params sList (trim (joinFields 44 (aParam.entries.map item))) sSection)

/-- `getList`. -/
def getList (params : Params) (sList sSection : Bytes) : Assoc Bytes Bytes :=
  let str := getParam params sList sSection
  if trim str = [] then Assoc.empty
  else Assoc.ofList ((str.splitOn 44).map fun value => (part 35 value 0, part 35 value 1))

/-! ## What the administrator entered -/

/-- An entry and its note, which has no line end. -/
structure IsItem (e : Bytes × Bytes) : Prop where
  comma : 44 ∉ e.1
  sharp : 35 ∉ e.1
  newline : 10 ∉ e.1
  note : 10 ∉ e.2

instance (e : Bytes × Bytes) : Decidable (IsItem e) :=
  decidable_of_iff (44 ∉ e.1 ∧ 35 ∉ e.1 ∧ 10 ∉ e.1 ∧ 10 ∉ e.2)
    ⟨fun ⟨h₁, h₂, h₃, h₄⟩ => ⟨h₁, h₂, h₃, h₄⟩, fun ⟨h₁, h₂, h₃, h₄⟩ => ⟨h₁, h₂, h₃, h₄⟩⟩

/-- The entries, trimmed, with their notes as they are kept. -/
def entered (m : Assoc Bytes Bytes) : Assoc Bytes Bytes :=
  .ofList (m.entries.map stored)

/-- The list means the same everywhere: the web interface reads back what was entered, the filter
has the entries in their order and no empty one, and what it finds in the list it finds through an
entry. -/
structure Same (params : Params) (sList sSection : Bytes) (m : Assoc Bytes Bytes) : Prop where
  web : getList params sList sSection = entered m
  filter : cutCommaToArrayRef (getParam params sList sSection) = m.entries.map (trim ·.1)
  nonempty : [] ∉ cutCommaToArrayRef (getParam params sList sSection)
  found : ∀ block test, found block test (cutCommaToArrayRef (getParam params sList sSection)) =
    some true → ∃ e ∈ m.entries, test (trim e.1) = some true

/-! ## Reading what was written -/

theorem comma_not_mem_replaceComma (note : Bytes) : 44 ∉ replaceComma note := by
  intro h
  obtain ⟨c, _, hc⟩ := List.mem_flatMap.1 h
  split_ifs at hc with h44
  · revert hc
    decide
  · exact h44 (List.mem_singleton.1 hc).symm

theorem newline_not_mem_replaceComma {note : Bytes} (h : 10 ∉ note) : 10 ∉ replaceComma note := by
  intro hmem
  obtain ⟨c, hnote, hc⟩ := List.mem_flatMap.1 hmem
  split_ifs at hc with h44
  · revert hc
    decide
  · exact h (List.mem_singleton.1 hc ▸ hnote)

theorem trim_item (e : Bytes × Bytes) : trim (item e) = item e :=
  trim_append_cons rfl (trim_trim e.1) (trim_trim _)

theorem joinFields_cons_cons (f g : Bytes) (fs : List Bytes) :
    joinFields 44 (f :: g :: fs) = f ++ 44 :: joinFields 44 (g :: fs) := by
  rw [joinFields_cons, joinFields_cons, List.flatMap_cons, List.cons_append]

theorem trim_joinFields {ls : List Bytes} (h : ∀ l ∈ ls, trim l = l) :
    trim (joinFields 44 ls) = joinFields 44 ls := by
  cases ls with
  | nil => rfl
  | cons f fs =>
    induction fs generalizing f with
    | nil =>
      rw [joinFields_cons, List.flatMap_nil, List.append_nil]
      exact h f List.mem_cons_self
    | cons g fs ih =>
      obtain ⟨hf, hfs⟩ := List.forall_mem_cons.1 h
      rw [joinFields_cons_cons]
      exact trim_append_cons rfl hf (ih g hfs)

section Stored

variable {params params' : Params} {sList sSection : Bytes} {m : Assoc Bytes Bytes}

theorem getParam_setParam (params : Params) (key value sec : Bytes) :
    getParam (setParam params key value sec) key sec = value := by
  have hparam := param_setParam params key value sec sec key
  rw [if_pos ⟨rfl, rfl⟩, param] at hparam
  rw [getParam]
  cases hl : (setParam params key value sec).lookup sec with
  | none =>
    rw [hl] at hparam
    cases hparam
  | some values =>
    rw [hl, Option.bind_some] at hparam
    simp only [hparam, Option.getD_some]

theorem getParam_setList (h : setList params sList m sSection = some params') :
    getParam params' sList sSection = joinFields 44 (m.entries.map item) := by
  rw [setList] at h
  split_ifs at h
  rw [← Option.some.inj h, getParam_setParam]
  exact trim_joinFields (List.forall_mem_map.2 fun e _ => trim_item e)

theorem isItem_stored {e : Bytes × Bytes} (h : IsItem e) :
    35 ∉ (stored e).1 ∧ 10 ∉ (stored e).2 ∧ 44 ∉ (stored e).1 ++ 35 :: (stored e).2 := by
  refine ⟨fun hmem => h.sharp (mem_of_mem_trim hmem),
    fun hmem => newline_not_mem_replaceComma h.note (mem_of_mem_trim hmem), ?_⟩
  rw [List.mem_append, List.mem_cons]
  rintro (hmem | hmem | hmem)
  · exact h.comma (mem_of_mem_trim hmem)
  · cases hmem
  · exact comma_not_mem_replaceComma e.2 (mem_of_mem_trim hmem)

/-- The filter reads the entries in their order. -/
theorem cutCommaToArrayRef_setList (hm : ∀ e ∈ m.entries, IsItem e)
    (h : setList params sList m sSection = some params') :
    cutCommaToArrayRef (getParam params' sList sSection) = m.entries.map (trim ·.1) := by
  have hread := @cutCommaToArrayRef_joinFields (m.entries.map stored)
    (List.forall_mem_map.2 fun e he => isItem_stored (hm e he))
  rw [List.map_map, List.map_map] at hread
  rw [getParam_setList h]
  exact hread

/-- A note, as far as `getList` reads it. -/
def readNote (note : Bytes) : Bytes := part 35 note 0

theorem readNote_eq_self_iff (note : Bytes) : readNote note = note ↔ 35 ∉ note := by
  refine ⟨fun h => h ▸ sep_not_mem_part 35 note 0, fun h => ?_⟩
  rw [readNote, part_of_not_mem h, if_pos rfl]

/-- The web interface reads the notes up to a sign `#`. -/
theorem getList_setList (hm : ∀ e ∈ m.entries, IsItem e)
    (h : setList params sList m sSection = some params') :
    getList params' sList sSection = (entered m).mapVal readNote := by
  have hitems : ∀ e ∈ m.entries, part 35 (item e) 0 = (stored e).1 ∧
      part 35 (item e) 1 = readNote (stored e).2 := by
    intro e he
    have hkey := (isItem_stored (hm e he)).1
    rw [item, part_append hkey, part_append hkey]
    exact ⟨rfl, rfl⟩
  have hmap : (m.entries.map fun e => (part 35 (item e) 0, part 35 (item e) 1)) =
      (m.entries.map stored).map fun e => (e.1, readNote e.2) := by
    rw [List.map_map]
    exact List.map_congr_left fun e he => Prod.ext (hitems e he).1 (hitems e he).2
  have htrim := trim_joinFields (List.forall_mem_map.2 fun e (_ : e ∈ m.entries) => trim_item e)
  rw [getList, getParam_setList h, entered, ← Assoc.ofList_map, ← hmap]
  simp only [htrim]
  cases hes : m.entries with
  | nil => rfl
  | cons e es =>
    rw [← hes]
    have hne : m.entries.map item ≠ [] := by simp [hes]
    have hsplit : (joinFields 44 (m.entries.map item)).splitOn 44 = m.entries.map item :=
      List.splitOn_intercalate 44
        (List.forall_mem_map.2 fun e he => (isItem_stored (hm e he)).2.2) hne
    have htext : joinFields 44 (m.entries.map item) ≠ [] := by
      intro hnil
      rw [hnil, List.splitOn_nil, hes, List.map_cons, item] at hsplit
      simp at hsplit
    rw [if_neg htext, hsplit, List.map_map]
    rfl

/-- No entry is empty, and no note that is kept has a sign `#` in it. -/
def Plain (m : Assoc Bytes Bytes) : Prop :=
  (∀ e ∈ m.entries, trim e.1 ≠ []) ∧ ∀ e ∈ (entered m).entries, 35 ∉ e.2

/-- **One list, two readers.**  A list that `setList` stores means the same to the web interface and
to the filter if and only if none of its entries is empty and none of its notes has a sign `#`. -/
theorem same_iff (hm : ∀ e ∈ m.entries, IsItem e)
    (h : setList params sList m sSection = some params') :
    Same params' sList sSection m ↔ Plain m := by
  have hfilter := cutCommaToArrayRef_setList hm h
  have hempty : [] ∉ m.entries.map (trim ·.1) ↔ ∀ e ∈ m.entries, trim e.1 ≠ [] := by
    simp [List.mem_map]
  have hweb : getList params' sList sSection = entered m ↔
      ∀ e ∈ (entered m).entries, 35 ∉ e.2 := by
    rw [getList_setList hm h, Assoc.mapVal_eq_self_iff]
    exact forall₂_congr fun e _ => readNote_eq_self_iff e.2
  constructor
  · intro hsame
    have hnonempty := hsame.nonempty
    rw [hfilter] at hnonempty
    exact ⟨hempty.1 hnonempty, hweb.1 hsame.web⟩
  · rintro ⟨hentries, hnotes⟩
    refine ⟨hweb.2 hnotes, hfilter, ?_, fun block test hfound => ?_⟩
    · rw [hfilter]
      exact hempty.2 hentries
    · obtain ⟨f, hf, htest⟩ := exists_of_found hfound
      rw [hfilter] at hf
      obtain ⟨e, he, rfl⟩ := List.mem_map.1 hf
      exact ⟨e, he, htest⟩

end Stored

/-- Two domains with their notes. -/
def sampleList : Assoc Bytes Bytes :=
  .ofList [(bytes "a.cn", bytes "ours, all"), (bytes " b.cn", [])]

theorem same_sampleList :
    Same (setParam Assoc.empty (bytes "WhiteDomainList")
        (trim (joinFields 44 (sampleList.entries.map item))) (bytes "SpamEngine"))
      (bytes "WhiteDomainList") (bytes "SpamEngine") sampleList :=
  (same_iff (by decide) (show setList Assoc.empty (bytes "WhiteDomainList") sampleList
    (bytes "SpamEngine") = some _ from rfl)).2 (by unfold Plain; decide)

/-- An empty entry is stored and read as one by the filter, and what follows a sign `#` in a note is
lost. -/
theorem not_same_empty_entry :
    (∃ params', setList Assoc.empty (bytes "WhiteDomainList") (.ofList [([], bytes "office")])
        (bytes "SpamEngine") = some params' ∧
      cutCommaToArrayRef (getParam params' (bytes "WhiteDomainList") (bytes "SpamEngine")) = [[]] ∧
      ¬Same params' (bytes "WhiteDomainList") (bytes "SpamEngine")
        (.ofList [([], bytes "office")])) ∧
    ∃ params', setList Assoc.empty (bytes "WhiteDomainList")
        (.ofList [(bytes "a.cn", bytes "room #3")]) (bytes "SpamEngine") = some params' ∧
      (getList params' (bytes "WhiteDomainList") (bytes "SpamEngine")).entries =
        [(bytes "a.cn", bytes "room ")] ∧
      ¬Same params' (bytes "WhiteDomainList") (bytes "SpamEngine")
        (.ofList [(bytes "a.cn", bytes "room #3")]) := by
  refine ⟨⟨_, rfl, by decide, fun h => h.nonempty (by decide)⟩, ⟨_, rfl, by decide, fun h => ?_⟩⟩
  have hweb := congrArg Assoc.entries h.web
  revert hweb
  decide

end NoSpam.Admin.ConfFile
