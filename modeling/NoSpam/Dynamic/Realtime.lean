import Mathlib.Data.Finset.Sort
import Mathlib.Data.List.Lex
import NoSpam.Base.Assoc
import NoSpam.Base.Capture
import NoSpam.Base.Columns
import NoSpam.Base.Html
import NoSpam.Base.Url
import NoSpam.Dynamic.Limiter

/-!
# Realtime management

`realtime.ns` lists the records of a namespace, as `get_DynamicEngineDBData` prints them, and
deletes those that are chosen, with `del_DynamicEngineKeyItem`.  The keys are texts that the senders
have chosen.  The page acts on the sender it shows if and only if every key is of a kind that goes
through all this unchanged (`actsOnShown_iff`).
-/

namespace NoSpam.Dynamic

open Text Perl

open Php (urlencode urldecode htmlentities unhtmlentities cstr trim intval isSimple decodedAgain)

open Form (Browser addSlashes)

/-! ## The engine's interface -/

/-- The key of a stamp. -/
def stampKey (t : Time) : Bytes := decimal t.1 ++ 46 :: decimal t.2

/-- The keys of the stamps, sorted. -/
def stampKeys (r : Record) : List Bytes :=
  ((r.stamps.image fun t => (stampKey t).map UInt8.toNat).sort (· ≤ ·)).map (List.map UInt8.ofNat)

/-- The seconds of the stamps. -/
def sentTimes (r : Record) : List Bytes := (stampKeys r).map fun s => s.takeWhile isDigit

/-- `s/,/，/g`, in UTF-8. -/
def substCommas (item : Bytes) : Bytes :=
  item.flatMap fun c => if c = 44 then [239, 188, 140] else [c]

/-- One line; the record is sought under the item without commas. -/
def printItem (nsObj : Assoc Bytes Record) (item : Bytes) : Bytes :=
  let item := substCommas item
  let r := (nsObj.lookup item).getD {}
  joinFields 44 (item :: (r.denyTo.elim [] decimal) :: sentTimes r) ++ [10]

/-- `get_DynamicEngineDBData`: what it prints.  The timer is one of the keys. -/
def getDynamicEngineDBData (nsObj : Assoc Bytes Record) : Bytes :=
  ((timerKey :: nsObj.entries.map Prod.fst).filter fun item =>
    !contains (bytes "_AMD_") item).flatMap (printItem nsObj)

/-- `del_dynamic_info_ns_item`. -/
def delDynamicInfoNsItem (nsObj : Assoc Bytes Record) (item : Bytes) :
    Option (Assoc Bytes Record) :=
  if !isTrue item then none else some (nsObj.unset item)

/-- The loop of `del_DynamicEngineKeyItem`. -/
def delItems (nsObj : Assoc Bytes Record) : List Bytes → ℕ × Assoc Bytes Record
  | [] => (0, nsObj)
  | item :: param =>
      match delDynamicInfoNsItem nsObj item with
      | none => (10, nsObj)
      | some nsObj => delItems nsObj param

/-- `del_DynamicEngineKeyItem`: its code, and the namespace then. -/
def delDynamicEngineKeyItem (nsObj : Assoc Bytes Record) (param : List Bytes) :
    ℕ × Assoc Bytes Record :=
  if !isTrue (param.headD []) then (5, nsObj) else delItems nsObj param

/-! ## The page -/

/-- The lines that `exec` returns: without the white space at their ends. -/
def execLines (output : Bytes) : List Bytes := (lines 10 output).map fun l => l.rdropWhile isSpace

/-- A row of the table. -/
structure Row where
  content : Bytes
  openTime : Option ℤ
  sendTime : List Bytes

/-- `$SendCount`. -/
def Row.sendCount (row : Row) : ℕ := row.sendTime.length

/-- The row of a line. -/
def rowOfLine (line : Bytes) : Row :=
  let value := line.splitOn 44
  { content := value.getD 0 []
    openTime := if trim (value.getD 1 []) = [] then none else some (intval (value.getD 1 []))
    sendTime := value.drop 2 }

/-- The rows, before they are sorted and put on pages. -/
def pageRows (nsObj : Assoc Bytes Record) : List Row :=
  (execLines (getDynamicEngineDBData nsObj)).map rowOfLine

/-- The argument for a row whose button is pressed: its content goes through the link, PHP reads it
and `del` decodes it again. -/
def buttonArg (content : Bytes) : Bytes :=
  cstr (urldecode (addSlashes (urldecode (urlencode content))))

/-- The argument for a row that is ticked: its content goes through the attribute of the box. -/
def tickArg (b : Browser) (content : Bytes) : Bytes :=
  cstr (unhtmlentities (addSlashes (b.value (htmlentities content))))

/-! ## The purpose -/

/-- The records of a namespace, under the keys that `add_dynamic_info` gives them. -/
structure Content where
  records : Assoc Bytes Record
  added : ∀ e ∈ records.entries, ∃ key, Perl.isTrue key = true ∧ recordKey key = e.1

/-- Every key is listed once with what is recorded for it, and nothing else; what is chosen from the
list is deleted, and nothing else. -/
structure ActsOnShown (b : Browser) (m : Content) : Prop where
  listed : List.Perm ((pageRows m.records).map fun r => (r.content, r.openTime, r.sendCount))
    (m.records.entries.map fun e => (e.1, e.2.denyTo.map Int.ofNat, e.2.stamps.card))
  button : ∀ r ∈ pageRows m.records,
    delDynamicEngineKeyItem m.records [buttonArg r.content] = (0, m.records.unset r.content)
  ticked : ∀ rs : List Row, rs ≠ [] → (∀ r ∈ rs, r ∈ pageRows m.records) →
    delDynamicEngineKeyItem m.records (rs.map fun r => tickArg b r.content) =
      (0, m.records.filter fun e => e.1 ∉ rs.map Row.content)

/-- A key that goes through it all unchanged. -/
structure Unchanged (b : Browser) (key : Bytes) : Prop where
  comma : 44 ∉ key
  newline : 10 ∉ key
  reserved : contains (bytes "_AMD_") key = false
  simple : isSimple key = true
  ticked : tickArg b key = key

/-! ## Lines and rows -/

section Rows

variable {nsObj : Assoc Bytes Record} {key : Bytes} {r : Record}

theorem stampKey_injective : Function.Injective stampKey := by
  intro t t' h
  have hdot : ∀ n : ℕ, 46 ∉ decimal n := fun n hn => absurd (isDigit_of_mem_decimal hn) (by decide)
  obtain ⟨hsec, hmic⟩ := Pattern.append_cons_cancel (hdot _) (hdot _) h
  exact Prod.ext (decimal_inj hsec) (decimal_inj hmic)

theorem length_stampKeys (r : Record) : (stampKeys r).length = r.stamps.card := by
  rw [stampKeys, List.length_map, Finset.length_sort, Finset.card_image_of_injective]
  intro t t' h
  refine stampKey_injective (List.map_injective_iff.2 (fun c d => ?_) h)
  exact UInt8.toNat_inj.1

theorem isDigit_of_mem_sentTimes {s : Bytes} (h : s ∈ sentTimes r) : ∀ c ∈ s, isDigit c = true := by
  obtain ⟨k, -, rfl⟩ := List.mem_map.1 h
  exact fun c hc => List.mem_takeWhile_imp hc

theorem substCommas_of_not_mem (h : 44 ∉ key) : substCommas key = key := by
  rw [substCommas, List.flatMap_congr fun c hc => if_neg fun hcomma : c = 44 => h (hcomma ▸ hc)]
  exact List.flatMap_singleton' key

/-- The fields of a line. -/
def lineFields (key : Bytes) (r : Record) : List Bytes :=
  key :: (r.denyTo.elim [] decimal) :: sentTimes r

theorem isDigit_of_mem_tail {f : Bytes} (h : f ∈ (lineFields key r).tail) :
    ∀ c ∈ f, isDigit c = true := by
  rcases List.mem_cons.1 h with rfl | h
  · cases r.denyTo with
    | none => exact fun c hc => absurd hc List.not_mem_nil
    | some d => exact fun c hc => isDigit_of_mem_decimal hc
  · exact isDigit_of_mem_sentTimes h

theorem not_mem_of_mem_lineFields {f : Bytes} {c : UInt8} (hc : isDigit c = false) (h : c ∉ key)
    (hf : f ∈ lineFields key r) : c ∉ f := by
  rcases List.mem_cons.1 hf with rfl | hf
  · exact h
  · intro hmem
    rw [@isDigit_of_mem_tail key _ _ hf c hmem] at hc
    cases hc

/-- A line ends with a comma or a digit. -/
theorem rdropWhile_line (key : Bytes) (r : Record) :
    (joinFields 44 (lineFields key r) ++ [10]).rdropWhile isSpace =
      joinFields 44 (lineFields key r) := by
  obtain ⟨fs, f, hfs⟩ := (List.eq_nil_or_concat' (lineFields key r).tail).resolve_left
    (List.cons_ne_nil _ _)
  have hdigits : ∀ c ∈ f, isDigit c = true :=
    @isDigit_of_mem_tail key r _ (by rw [hfs]; simp)
  have hline : joinFields 44 (lineFields key r) = joinFields 44 (key :: fs) ++ 44 :: f := by
    have hcons : lineFields key r = (key :: fs) ++ [f] := congrArg (key :: ·) hfs
    rw [hcons, joinFields_concat, ← joinFields_append_sep 44 (List.cons_ne_nil _ _)]
    simp
  rw [List.rdropWhile_concat_pos isSpace _ _ (by rfl), List.rdropWhile_eq_self_iff]
  intro hne
  have hmem : (joinFields 44 (lineFields key r)).getLast hne ∈ 44 :: f := by
    simp only [hline]
    rw [List.getLast_append_of_ne_nil _ (List.cons_ne_nil 44 f)]
    exact List.getLast_mem _
  rcases List.mem_cons.1 hmem with he | he
  · rw [he]
    decide
  · rw [not_isSpace_of_isDigit (hdigits _ he)]
    exact Bool.false_ne_true

theorem trim_decimal_ne_nil (n : ℕ) : trim (decimal n) ≠ [] := by
  have htrim : ∀ c ∈ decimal n, Php.isTrim c = false := by
    intro c hc
    by_contra h
    have hdigit := Php.not_isDigit_of_isTrim (by simpa using h)
    rw [isDigit_of_mem_decimal hc] at hdigit
    cases hdigit
  obtain ⟨c, t, hct⟩ := List.exists_cons_of_ne_nil (decimal_ne_nil n)
  rw [trim, Php.rtrim_eq_self htrim, hct,
    List.dropWhile_cons_of_neg (by simp [htrim c (by simp [hct])])]
  exact List.cons_ne_nil c t

/-- The row of a record whose key has no comma. -/
theorem rowOfLine_line (h : 44 ∉ key) : rowOfLine (joinFields 44 (lineFields key r)) =
    ⟨key, r.denyTo.map Int.ofNat, sentTimes r⟩ := by
  have hsplit : (joinFields 44 (lineFields key r)).splitOn 44 = lineFields key r :=
    List.splitOn_intercalate 44 (fun f hf => not_mem_of_mem_lineFields rfl h hf)
      (List.cons_ne_nil _ _)
  unfold rowOfLine
  rw [hsplit]
  cases hdeny : r.denyTo with
  | none =>
    have hfields : lineFields key r = key :: [] :: sentTimes r := by rw [lineFields, hdeny]; rfl
    rw [hfields]
    rfl
  | some d =>
    have hfields : lineFields key r = key :: decimal d :: sentTimes r := by
      rw [lineFields, hdeny]
      rfl
    have hvalue : intval (decimal d) = Int.ofNat d := atoi_decimal d
    simp only [hfields, List.getD_cons_zero, List.getD_cons_succ, if_neg (trim_decimal_ne_nil d),
      hvalue, Option.map_some, List.drop_succ_cons, List.drop_zero]

/-- The rows where no key has a comma or a line end. -/
theorem pageRows_eq (h : ∀ e ∈ nsObj.entries, 44 ∉ e.1 ∧ 10 ∉ e.1) :
    pageRows nsObj = (nsObj.entries.filter fun e => !contains (bytes "_AMD_") e.1).map fun e =>
      ⟨e.1, e.2.denyTo.map Int.ofNat, sentTimes e.2⟩ := by
  set shown := nsObj.entries.filter fun e => !contains (bytes "_AMD_") e.1 with hshown
  have hmem : ∀ e ∈ shown, e ∈ nsObj.entries := fun e he => List.mem_of_mem_filter he
  have hprint : getDynamicEngineDBData nsObj =
      (shown.map fun e => joinFields 44 (lineFields e.1 e.2)).flatMap (· ++ [10]) := by
    rw [getDynamicEngineDBData, List.filter_cons_of_neg (by decide), List.filter_map,
      List.flatMap_map, List.flatMap_map]
    refine List.flatMap_congr fun e he => ?_
    have hlookup : nsObj.lookup e.1 = some e.2 := Assoc.mem_entries_iff.1 (hmem e he)
    rw [printItem, substCommas_of_not_mem (h e (hmem e he)).1, hlookup]
    rfl
  have hlines : ∀ l ∈ shown.map fun e => joinFields 44 (lineFields e.1 e.2), 10 ∉ l := by
    intro l hl hnl
    obtain ⟨e, he, rfl⟩ := List.mem_map.1 hl
    rcases mem_of_mem_joinFields hnl with hc | ⟨f, hf, hc⟩
    · cases hc
    · exact not_mem_of_mem_lineFields rfl (h e (hmem e he)).2 hf hc
  rw [pageRows, execLines, hprint, lines_flatMap hlines, List.map_map, List.map_map, List.map_map]
  refine List.map_congr_left fun e he => ?_
  simp only [Function.comp_apply, rdropWhile_line]
  exact rowOfLine_line (h e (hmem e he)).1

/-- No comma and no line end is shown. -/
theorem not_mem_content {row : Row} (h : row ∈ pageRows nsObj) :
    44 ∉ row.content ∧ 10 ∉ row.content := by
  obtain ⟨line, hline, rfl⟩ := List.mem_map.1 h
  obtain ⟨l, hl, rfl⟩ := List.mem_map.1 hline
  obtain ⟨f, fs, hfs⟩ := List.exists_cons_of_ne_nil
    (List.splitOn_ne_nil 44 (l.rdropWhile isSpace))
  have hcontent : (rowOfLine (l.rdropWhile isSpace)).content = f := by
    rw [rowOfLine, hfs]
    rfl
  have hf : f ∈ (l.rdropWhile isSpace).splitOn 44 := by
    rw [hfs]
    exact List.mem_cons_self
  have hnl : 10 ∉ l.rdropWhile isSpace := by
    have hdropLast := not_mem_dropLast_of_mem_lines hl
    rcases List.eq_nil_or_concat' l with rfl | ⟨l, c, rfl⟩
    · exact List.not_mem_nil
    · rw [List.dropLast_concat] at hdropLast
      by_cases hc : isSpace c = true
      · rw [List.rdropWhile_concat_pos isSpace _ _ hc]
        exact fun hmem => hdropLast ((List.rdropWhile_prefix isSpace _).subset hmem)
      · rw [List.rdropWhile_concat_neg isSpace _ _ hc, List.mem_append, List.mem_singleton]
        rintro (hmem | rfl)
        · exact hdropLast hmem
        · exact hc rfl
  rw [hcontent]
  exact ⟨not_mem_of_mem_splitOn hf, fun hmem => hnl (mem_of_mem_splitOn hf hmem)⟩

end Rows

/-! ## Deletions -/

section Deletions

variable {nsObj : Assoc Bytes Record} {key item : Bytes} {b : Browser}

theorem buttonArg_eq_iff (key : Bytes) : buttonArg key = key ↔ isSimple key = true := by
  rw [buttonArg, Php.urldecode_urlencode]
  exact Php.decodedAgain_eq_iff key

theorem delDynamicEngineKeyItem_singleton (nsObj : Assoc Bytes Record) (item : Bytes) :
    delDynamicEngineKeyItem nsObj [item] =
      if Perl.isTrue item then (0, nsObj.unset item) else (5, nsObj) := by
  rw [delDynamicEngineKeyItem, List.headD_cons]
  cases hitem : Perl.isTrue item with
  | false => rfl
  | true => simp [delItems, delDynamicInfoNsItem, hitem]

/-- Only the key itself deletes the record. -/
theorem deletes_iff (hkey : key ∈ nsObj.entries.map Prod.fst) (htrue : Perl.isTrue key = true) :
    delDynamicEngineKeyItem nsObj [item] = (0, nsObj.unset key) ↔ item = key := by
  rw [delDynamicEngineKeyItem_singleton]
  constructor
  · intro h
    split_ifs at h with hitem
    · obtain ⟨e, he, rfl⟩ := List.mem_map.1 hkey
      by_contra hne
      have hlookup := congrArg (fun m => m.2.lookup e.1) h
      simp only [Assoc.lookup_unset, if_neg (Ne.symm hne), if_true] at hlookup
      rw [Assoc.mem_entries_iff.1 he] at hlookup
      cases hlookup
    · cases congrArg Prod.fst h
  · rintro rfl
    rw [if_pos htrue]

theorem delItems_eq {items : List Bytes} (h : ∀ item ∈ items, Perl.isTrue item = true) :
    delItems nsObj items = (0, nsObj.filter fun e => e.1 ∉ items) := by
  induction items generalizing nsObj with
  | nil =>
    have hall : nsObj.filter (fun e => e.1 ∉ ([] : List Bytes)) = nsObj :=
      Assoc.ext (List.filter_eq_self.2 fun e _ => by simp)
    rw [delItems, hall]
  | cons item items ih =>
    rw [List.forall_mem_cons] at h
    have hfilter : (nsObj.unset item).filter (fun e => e.1 ∉ items) =
        nsObj.filter fun e => e.1 ∉ item :: items := by
      refine Assoc.ext ?_
      simp only [Assoc.unset, Assoc.filter, List.filter_filter]
      exact List.filter_congr fun e _ => by simp [Bool.and_comm]
    rw [delItems, delDynamicInfoNsItem, h.1]
    exact (ih h.2).trans (congrArg (Prod.mk 0) hfilter)

end Deletions

/-! ## The keys decide -/

section Keys

variable {b : Browser} {m : Content}

theorem isTrue_key {e : Bytes × Record} (h : e ∈ m.records.entries) : Perl.isTrue e.1 = true := by
  obtain ⟨key, hkey, he⟩ := m.added e h
  rw [← he]
  exact isTrue_recordKey hkey

theorem unchanged_of_actsOnShown (h : ActsOnShown b m) :
    ∀ e ∈ m.records.entries, Unchanged b e.1 := by
  have hshown : ∀ e ∈ m.records.entries, 44 ∉ e.1 ∧ 10 ∉ e.1 := by
    intro e he
    obtain ⟨row, hrow, hcontent⟩ := List.mem_map.1
      (h.listed.mem_iff.2 (List.mem_map_of_mem he))
    rw [← congrArg Prod.fst hcontent]
    exact not_mem_content hrow
  have hrows := pageRows_eq hshown
  have hlength := h.listed.length_eq
  rw [hrows, List.length_map, List.length_map, List.length_map] at hlength
  have hreserved := List.length_filter_eq_length_iff.1 hlength
  rw [List.filter_eq_self.2 hreserved] at hrows
  intro e he
  have hrow : (⟨e.1, e.2.denyTo.map Int.ofNat, sentTimes e.2⟩ : Row) ∈ pageRows m.records := by
    rw [hrows]
    exact List.mem_map_of_mem he
  have hkey := List.mem_map_of_mem (f := Prod.fst) he
  have hbutton := (deletes_iff hkey (isTrue_key he)).1 (h.button _ hrow)
  have hticked := h.ticked [_] (List.cons_ne_nil _ _) (List.forall_mem_singleton.2 hrow)
  have hunset : (m.records.filter fun e' => e'.1 ∉ [e.1]) = m.records.unset e.1 :=
    Assoc.ext (List.filter_congr fun e' _ => by simp)
  rw [List.map_singleton, List.map_singleton, hunset] at hticked
  exact {
    comma := (hshown e he).1
    newline := (hshown e he).2
    reserved := by simpa using hreserved e he
    simple := (buttonArg_eq_iff e.1).1 hbutton
    ticked := (deletes_iff hkey (isTrue_key he)).1 hticked }

theorem actsOnShown_of_unchanged (h : ∀ e ∈ m.records.entries, Unchanged b e.1) :
    ActsOnShown b m := by
  have hrows : pageRows m.records = m.records.entries.map fun e =>
      ⟨e.1, e.2.denyTo.map Int.ofNat, sentTimes e.2⟩ := by
    rw [pageRows_eq fun e he => ⟨(h e he).comma, (h e he).newline⟩,
      List.filter_eq_self.2 fun e he => by simp [(h e he).reserved]]
  have hentry : ∀ r ∈ pageRows m.records, ∃ e ∈ m.records.entries, e.1 = r.content := by
    intro r hr
    rw [hrows] at hr
    obtain ⟨e, he, rfl⟩ := List.mem_map.1 hr
    exact ⟨e, he, rfl⟩
  refine ⟨?_, fun r hr => ?_, fun rs hne hrs => ?_⟩
  · rw [hrows, List.map_map]
    refine List.Perm.of_eq (List.map_congr_left fun e _ => ?_)
    simp only [Function.comp_apply, Row.sendCount, sentTimes, List.length_map, length_stampKeys]
  · obtain ⟨e, he, hcontent⟩ := hentry r hr
    rw [← hcontent, deletes_iff (List.mem_map_of_mem he) (isTrue_key he), buttonArg_eq_iff]
    exact (h e he).simple
  · have hargs : (rs.map fun r => tickArg b r.content) = rs.map Row.content := by
      refine List.map_congr_left fun r hr => ?_
      obtain ⟨e, he, hcontent⟩ := hentry r (hrs r hr)
      rw [← hcontent]
      exact (h e he).ticked
    have htrue : ∀ item ∈ rs.map Row.content, Perl.isTrue item = true := by
      refine List.forall_mem_map.2 fun r hr => ?_
      obtain ⟨e, he, hcontent⟩ := hentry r (hrs r hr)
      rw [← hcontent]
      exact isTrue_key he
    obtain ⟨r, rs, rfl⟩ := List.exists_cons_of_ne_nil hne
    rw [hargs, delDynamicEngineKeyItem, List.map_cons, List.headD_cons,
      htrue r.content (by simp)]
    exact delItems_eq htrue

/-- **The page acts on the sender it shows** if and only if every key goes through the line, the
link and the form unchanged. -/
theorem actsOnShown_iff (b : Browser) (m : Content) :
    ActsOnShown b m ↔ ∀ e ∈ m.records.entries, Unchanged b e.1 :=
  ⟨unchanged_of_actsOnShown, actsOnShown_of_unchanged⟩

end Keys

/-- A key of ordinary characters, without commas, plus signs, per cent signs and the reserved word.
-/
theorem unchanged_of_ordinary (b : Browser) {key : Bytes} (h : key.all Php.isOrdinary = true)
    (hkey : ∀ c ∈ key, c ≠ 37 ∧ c ≠ 43 ∧ c ≠ 44)
    (hreserved : contains (bytes "_AMD_") key = false) :
    Unchanged b key where
  comma hmem := (hkey 44 hmem).2.2 rfl
  newline hmem := absurd (List.all_eq_true.1 h 10 hmem) (by decide)
  reserved := hreserved
  simple := by
    clear hreserved
    induction key with
    | nil => rfl
    | cons c key ih =>
      rw [List.all_cons, Bool.and_eq_true] at h
      rw [List.forall_mem_cons] at hkey
      have hspecial : Php.isSpecial c = false := by
        by_contra hs
        simp only [Php.isSpecial, Bool.not_eq_false, Bool.or_eq_true, decide_eq_true_eq] at hs
        rcases hs with ((rfl | rfl) | rfl) | rfl <;> exact absurd h.1 (by decide)
      simp [isSimple, hspecial, hkey.1, ih h.2 hkey.2]
  ticked := by
    have hzero : ∀ c ∈ key, c ≠ 0 := by
      rintro c hc rfl
      exact absurd (List.all_eq_true.1 h 0 hc) (by decide)
    rw [tickArg, Php.kept_htmlentities h, cstr, List.takeWhile_eq_self_iff]
    exact fun c hc => by simpa using hzero c hc

/-- A sender whose address has a plus sign. -/
def plusSender : Content where
  records := ⟨[(bytes "a+b@example.com", { stamps := {(1000, 5)} })], List.nodup_singleton _⟩
  added := List.forall_mem_singleton.2 ⟨bytes "a+b@example.com", by decide, by decide⟩

/-- The button deletes another address. -/
theorem not_actsOnShown_plusSender : ¬ActsOnShown Browser.verbatim plusSender ∧
    buttonArg (bytes "a+b@example.com") = bytes "a b@example.com" := by
  refine ⟨fun h => ?_, by decide +kernel⟩
  have hsimple := (unchanged_of_actsOnShown h _ List.mem_cons_self).simple
  exact absurd hsimple (by decide)

end NoSpam.Dynamic
