import NoSpam.Base.Run
import NoSpam.Login.Effect

/-!
# To whom a failed login is counted

An id comes from the client as it is.  A failure whose line is clean is read back under its address
and its id, and the failures of the other addresses stay what they are (`attributed_of_clean`); a
failure with a separator in its id, or with a line that does not fit in the buffer of the reader, is
read back as something else.  So the lists come back in every request exactly when every line that
is added is clean (`meets_attributed_iff`).
-/

namespace NoSpam.Login

open Text Php Machine

/-- The object that a save leaves on file is the one that was saved: the blocks, the failures that
count for each index, and the times of each address. -/
structure SameLists (l l' : LoginBlackList) : Prop where
  blocks : l'.aBlockList = l.aBlockList
  ids : ∀ key, l'.aLoginfailListID.get key = l.inForce key
  ips : ∀ ip, (l'.aLoginfailListIP.get ip).Perm (l.aLoginfailListIP.get ip)

/-- Nothing has changed for the addresses other than `ip`. -/
structure OthersUnchanged (ip : Bytes) (l l' : LoginBlackList) : Prop where
  blocks : ∀ ip', ip' ≠ ip → l'.aBlockList.lookup ip' = l.aBlockList.lookup ip'
  ids : ∀ key, part 58 key 0 ≠ ip → l'.aLoginfailListID.get key = l.aLoginfailListID.get key
  ips : ∀ ip', ip' ≠ ip → (l'.aLoginfailListIP.get ip').Perm (l.aLoginfailListIP.get ip')

/-- The next constructor builds the lists that the request had, and finds the other addresses as
they were. -/
structure Attributed (c : Limits) (st : Stored) (a : Attempt) : Prop where
  same : SameLists ((load st).addLoginfailList c a) (load (request c st a))
  others : OthersUnchanged a.sIP (load st) (load (request c st a))

section Clean

variable {c : Limits} {st : Stored} {a : Attempt} (h : st.Clean) (hip : isAddress a.sIP = true)

theorem get_recordIP (bs : List (Bytes × ℤ)) (fs : List Failure) (ip id ip' : Bytes) (time : ℤ) :
    ((ofFailures bs fs).record ip id time).aLoginfailListIP.get ip' =
      ((kept ip time fs ++ [Failure.mk id ip time]).filter (·.ip = ip')).map Failure.time := by
  rw [times_kept, LoginBlackList.record, Assoc.get_put, get_failuresIP, get_failuresIP]

theorem get_forgetIP (bs : List (Bytes × ℤ)) (fs : List Failure) (c : Limits) (ip id ip' : Bytes)
    (now : ℤ) :
    (((ofFailures bs fs).addBlockList c ip now).forget ip id).aLoginfailListIP.get ip' =
      ((others ip fs).filter (·.ip = ip')).map Failure.time := by
  rw [times_others, LoginBlackList.forget, LoginBlackList.addBlockList, Assoc.get_unset,
    get_failuresIP]

theorem map_time_ofKey (key : Bytes) (times : List ℤ) :
    (times.map (ofKey key)).map Failure.time = times := by
  rw [List.map_map]
  exact List.map_id times

/-! ## Clean lines come back -/

theorem object_of_blocks (hb : st.Blocks c a) :
    (load st).addLoginfailList c a =
      ((ofFailures st.blocks st.failures).addBlockList c a.sIP a.now).forget a.sIP a.sID :=
  if_pos hb

theorem object_of_not_blocks (hb : ¬ st.Blocks c a) :
    (load st).addLoginfailList c a =
      (ofFailures st.blocks st.failures).record a.sIP a.sID a.time :=
  if_neg hb

include h in
/-- The lists of a request that does not block come back. -/
theorem sameLists_record (hb : ¬ st.Blocks c a) (hclean : a.failure.Clean) :
    SameLists ((load st).addLoginfailList c a) (load (request c st a)) := by
  have hsaved := savedFailures_record h.failure_plain st.blocks hclean.toPlain
  have hall := (failures_of_perm (clean_kept h hclean) hsaved []).2
  rw [request_of_not_blocks hb, load_of_failures rfl hall, object_of_not_blocks hb]
  refine ⟨rfl, fun key => ?_, fun ip => ?_⟩
  · rw [get_failuresID, filter_savedFailures (isKey_of_record h.failure_plain hclean.toPlain),
      map_time_ofKey]
  · rw [get_failuresIP, get_recordIP]
    exact (hsaved.filter _).map _

include h hip in
/-- The lists of a request that blocks come back. -/
theorem sameLists_forget (hb : st.Blocks c a) (hclean : CleanBlock (a.block c)) :
    SameLists ((load st).addLoginfailList c a) (load (request c st a)) := by
  have hsaved := savedFailures_forget h.failure_plain hip st.blocks c a.now a.sID
  have hall := (failures_of_perm (clean_others h a.sIP) hsaved []).2
  rw [request_of_blocks hb, load_of_failures (readBlock_blockText (clean_put h hclean)) hall,
    object_of_blocks hb]
  refine ⟨Assoc.ofList_entries _, fun key => ?_, fun ip => ?_⟩
  · rw [get_failuresID, filter_savedFailures (isKey_of_forget h.failure_plain), map_time_ofKey]
  · rw [get_failuresIP, get_forgetIP]
    exact (hsaved.filter _).map _

include h hip in
/-- The other addresses keep their lists, in the object of the request and so on file. -/
theorem othersUnchanged_of_same
    (hsame : SameLists ((load st).addLoginfailList c a) (load (request c st a))) :
    OthersUnchanged a.sIP (load st) (load (request c st a)) := by
  by_cases hb : st.Blocks c a
  · rw [object_of_blocks hb] at hsame
    refine ⟨fun ip hne => ?_, fun key hne => ?_, fun ip hne => ?_⟩
    · rw [hsame.blocks, LoginBlackList.forget, LoginBlackList.addBlockList, Assoc.lookup_put,
        if_neg hne]
      rfl
    · rw [hsame.ids, inForce_forget_other h.failure_plain hip st.blocks c a.now a.sID hne]
      rfl
    · refine (hsame.ips ip).trans ?_
      rw [get_forgetIP, times_others, if_neg hne, ← get_failuresIP st.blocks]
      rfl
  · rw [object_of_not_blocks hb] at hsame
    refine ⟨fun ip _ => congrArg (Assoc.lookup · ip) hsame.blocks, fun key hne => ?_,
      fun ip hne => ?_⟩
    · rw [hsame.ids, inForce_record_other h.failure_plain hip st.blocks a.sID a.time hne]
      rfl
    · refine (hsame.ips ip).trans ?_
      rw [get_recordIP, times_kept, if_neg hne, ← get_failuresIP st.blocks]
      rfl

include h hip in
theorem attributed_of_clean (hclean : a.Clean c st) : Attributed c st a := by
  have hsame : SameLists ((load st).addLoginfailList c a) (load (request c st a)) := by
    by_cases hb : st.Blocks c a
    · rw [Attempt.Clean, if_pos hb] at hclean
      exact sameLists_forget h hip hb hclean
    · rw [Attempt.Clean, if_neg hb] at hclean
      exact sameLists_record h hb hclean
  exact ⟨hsame, othersUnchanged_of_same h hip hsame⟩

end Clean

/-! ## Other lines do not -/

theorem eq_append_of_part {sep : UInt8} {l : Bytes} (h : part sep l 1 ≠ []) :
    ∃ r, l = part sep l 0 ++ sep :: r := by
  have hmem : sep ∈ l := by
    by_contra hnot
    exact h (part_of_not_mem hnot 1)
  obtain ⟨s, t, rfl, hs⟩ := List.eq_append_cons_of_mem hmem
  exact ⟨t, by rw [part_append hs, if_pos rfl]⟩

/-- Under an id with a separator nothing is ever read. -/
theorem key_ne_of_not_plain {ip id text : Bytes} (hip : isAddress ip = true)
    (hid : isPlainId id = false) (htext : 58 ∉ text) :
    ∀ f ∈ readFailures text, f.key ≠ failKey ip id := by
  intro f hf hkey
  obtain ⟨p, hp, rfl⟩ := List.mem_map.1 hf
  have hpiece := (List.takeWhile_subset _) hp
  have h58 : ∀ n, (58 : UInt8) ∉ part 32 p n := fun n hmem =>
    htext (mem_of_mem_pieces hpiece (mem_of_mem_part hmem))
  have hparts : part 32 p 1 = ip := by
    have hpart := congrArg (part 58 · 0) hkey
    rw [part_failKey_zero hip] at hpart
    simpa [Failure.key, failKey, readFailure, part_append (h58 1)] using hpart
  have hid' : part 32 p 0 = id := by
    rw [Failure.key, failKey, failKey, readFailure, hparts] at hkey
    exact (List.cons.inj (List.append_cancel_left hkey)).2
  have hfield : part 32 p 1 ≠ [] := by
    rw [hparts]
    exact ne_nil_of_isAddress hip
  obtain ⟨r, hr⟩ := eq_append_of_part hfield
  have h10 : (10 : UInt8) ∉ id := by
    intro hmem
    refine not_mem_dropLast_of_mem_pieces hpiece ?_
    rw [hr, List.dropLast_append_cons, hid']
    exact List.mem_append_left _ hmem
  have hplain : isPlainId id = true :=
    isPlainId_iff.2 ⟨hid' ▸ sep_not_mem_part 32 p 0, hid' ▸ h58 0, h10⟩
  rw [hid] at hplain
  cases hplain

theorem colon_not_mem_failureText (l : LoginBlackList) : 58 ∉ l.saveLoginfailList := by
  intro h
  obtain ⟨f, hf, hline⟩ := List.mem_flatMap.1 h
  obtain ⟨e, -, hf⟩ := List.mem_flatMap.1 hf
  rw [savedEntry_eq] at hf
  obtain ⟨t, -, rfl⟩ := List.mem_map.1 hf
  have htime : (58 : UInt8) ∉ showInt t := not_mem_showInt rfl (by decide) t
  simp [Failure.line, ofKey, sep_not_mem_part, htime] at hline

theorem not_isAddress_of_mem {b : Bytes} (h : (10 : UInt8) ∈ b) : isAddress b = false := by
  by_contra hip
  exact not_mem_of_isAddress (by simpa using hip) rfl (by decide) h

/-- The second field of the end of a line, if there is one, has the line end in it. -/
theorem not_isAddress_part {l : Bytes} (h : l.count 32 ≤ 1) :
    isAddress (part 32 (l ++ [10]) 1) = false := by
  by_cases hmem : (32 : UInt8) ∈ l
  · obtain ⟨s, t, rfl, hs⟩ := List.eq_append_cons_of_mem hmem
    rw [List.count_append, List.count_cons_self] at h
    have ht : (32 : UInt8) ∉ t ++ [10] := by
      rw [List.mem_append, not_or]
      exact ⟨List.count_eq_zero.1 (by omega), by decide⟩
    rw [List.append_assoc, List.cons_append, part_append hs, if_neg (by decide),
      part_of_not_mem ht]
    exact not_isAddress_of_mem (List.mem_append_right t (List.mem_singleton_self 10))
  · have hnot : (32 : UInt8) ∉ l ++ [10] := by
      rw [List.mem_append, not_or]
      exact ⟨hmem, by decide⟩
    rw [part_of_not_mem hnot]
    rfl

/-- A line that does not fit is read as a failure of something that is no address. -/
theorem exists_not_isAddress {fs : List Failure} {f : Failure} (hfs : ∀ f ∈ fs, f.Plain)
    (hf : f ∈ fs) (hlong : ¬ f.line.length < 1024) :
    ∃ g ∈ readFailures (failureText fs), isAddress g.ip = false := by
  have hplain := hfs f hf
  have hnl := hplain.newline_not_mem_body
  have hbodies : ∀ l ∈ fs.map Failure.body, 10 ∉ l :=
    List.forall_mem_map.2 fun f hf => (hfs f hf).newline_not_mem_body
  have hlen : 1023 ≤ f.body.length := by
    rw [f.line_eq, List.length_append, List.length_singleton] at hlong
    omega
  have hread : ∀ p ∈ pieces 10 1023 1023 (f.body ++ [10]),
      readFailure p ∈ readFailures (failureText fs) := by
    intro p hp
    rw [readFailures, failureText_eq]
    exact List.mem_map_of_mem
      ((mem_readLines_columnText hbodies).2 ⟨f.body, List.mem_map_of_mem hf, hp⟩)
  have hcount : f.body.count 32 = 2 := by
    have hid := (isPlainId_iff.1 hplain.id).1
    have hip : (32 : UInt8) ∉ f.ip := not_mem_of_isAddress hplain.ip rfl (by decide)
    have htime : (32 : UInt8) ∉ showInt f.time := not_mem_showInt rfl (by decide) f.time
    simp [Failure.body, List.count_eq_zero.2 hid, List.count_eq_zero.2 hip,
      List.count_eq_zero.2 htime]
  by_cases hblank : (32 : UInt8) ∈ f.body.take 1023
  · -- at most one blank is left for the last piece
    obtain ⟨d, hd, hmem⟩ := exists_drop_mem_pieces hnl (by decide) hlen
    refine ⟨_, hread _ hmem, ?_⟩
    have hleft : (f.body.drop d).count 32 ≤ 1 := by
      have hsplit := congrArg (List.count 32) (List.take_append_drop 1023 f.body)
      have hpos := List.count_pos_iff.2 hblank
      have hsub := ((List.drop_sublist_drop_left f.body hd).count_le (32 : UInt8))
      rw [List.count_append, hcount] at hsplit
      omega
    exact not_isAddress_part hleft
  · refine ⟨_, hread (f.body.take 1023) ?_, ?_⟩
    · rw [pieces_of_le hnl (by decide) hlen]
      exact List.mem_cons_self
    · have hnone := part_of_not_mem hblank 1
      rw [if_neg (by decide)] at hnone
      rw [readFailure, hnone]
      rfl

/-- A line that does not fit is read as a block of something that is no address. -/
theorem exists_block_not_isAddress {bs : List (Bytes × ℤ)} {e : Bytes × ℤ} (he : e ∈ bs)
    (hbs : ∀ e ∈ bs, isAddress e.1 = true) (hlong : ¬ (blockLine e).length < 1024) :
    ∃ e' ∈ (readLines (blockText bs)).map readBlock, isAddress e'.1 = false := by
  have hnl : ∀ e ∈ bs, 10 ∉ blockBody e := by
    intro e he
    have hip : (10 : UInt8) ∉ e.1 := not_mem_of_isAddress (hbs e he) rfl (by decide)
    have htime : (10 : UInt8) ∉ showInt e.2 := not_mem_showInt rfl (by decide) e.2
    simp [blockBody, hip, htime]
  have hlen : 1023 ≤ (blockBody e).length := by
    rw [blockLine_eq, List.length_append, List.length_singleton] at hlong
    omega
  obtain ⟨d, hd, hmem⟩ := exists_drop_mem_pieces (hnl e he) (by decide) hlen
  refine ⟨readBlock ((blockBody e).drop d ++ [10]), ?_, ?_⟩
  · rw [blockText_eq]
    refine List.mem_map_of_mem ((mem_readLines_columnText (List.forall_mem_map.2 hnl)).2 ?_)
    exact ⟨blockBody e, List.mem_map_of_mem he, hmem⟩
  · -- the address is shorter than a piece
    have hip := length_of_isAddress (hbs e he)
    have hnumber : (blockBody e).drop d = (showInt e.2).drop (d - (e.1.length + 1)) := by
      rw [blockBody, List.drop_append, List.drop_eq_nil_of_le (by omega), List.nil_append]
      rw [show d - e.1.length = d - (e.1.length + 1) + 1 by omega, List.drop_succ_cons]
    have hnot : (32 : UInt8) ∉ (blockBody e).drop d ++ [10] := by
      have htime : (32 : UInt8) ∉ showInt e.2 := not_mem_showInt rfl (by decide) e.2
      rw [hnumber, List.mem_append, not_or]
      exact ⟨fun h => htime (List.mem_of_mem_drop h), by decide⟩
    have hfirst := part_of_not_mem hnot 0
    rw [if_pos rfl] at hfirst
    rw [readBlock, hfirst]
    exact not_isAddress_of_mem (List.mem_append_right _ (List.mem_singleton_self 10))

section Unclean

variable {c : Limits} {st : Stored} {a : Attempt} (h : st.Clean) (hip : isAddress a.sIP = true)

include h hip in
theorem isAddress_of_mem_put {e : Bytes × ℤ}
    (he : e ∈ ((Assoc.ofList st.blocks).put (a.block c).1 (a.block c).2).entries) :
    isAddress e.1 = true := by
  rcases Assoc.fst_mem_putEntry (List.mem_map_of_mem he) with hkey | hold
  · exact hkey ▸ hip
  · rw [Assoc.entries_ofList h.nodup_blocks] at hold
    obtain ⟨e', he', hkey⟩ := List.mem_map.1 hold
    exact hkey ▸ (h.block_clean e' he').ip

include h hip in
/-- A block whose line does not fit is not read back. -/
theorem not_sameLists_forget (hb : st.Blocks c a) (hclean : ¬ CleanBlock (a.block c)) :
    ¬ SameLists ((load st).addLoginfailList c a) (load (request c st a)) := by
  intro hsame
  have hlong : ¬ (blockLine (a.block c)).length < 1024 := fun hfits => hclean ⟨hip, hfits⟩
  have hmem : a.block c ∈ ((Assoc.ofList st.blocks).put (a.block c).1 (a.block c).2).entries :=
    Assoc.mem_entries_iff.2 ((Assoc.lookup_put _ _ _ _).trans (if_pos rfl))
  obtain ⟨e, he, hnot⟩ := exists_block_not_isAddress hmem
    (fun e he => isAddress_of_mem_put h hip he) hlong
  obtain ⟨v, hv⟩ := Assoc.exists_lookup_ofList he
  have hblocks := hsame.blocks
  rw [object_of_blocks hb, request_of_blocks hb] at hblocks
  have hentry : (e.1, v) ∈ ((Assoc.ofList st.blocks).put (a.block c).1 (a.block c).2).entries := by
    rw [Assoc.mem_entries_iff, ← hv]
    exact congrArg (Assoc.lookup · e.1) hblocks.symm
  have haddress := isAddress_of_mem_put h hip hentry
  rw [hnot] at haddress
  cases haddress

include h hip in
/-- A failure under an id with a separator is not read back. -/
theorem not_sameLists_of_not_plain (hb : ¬ st.Blocks c a) (hid : isPlainId a.sID = false) :
    ¬ SameLists ((load st).addLoginfailList c a) (load (request c st a)) := by
  intro hsame
  have hids := hsame.ids (failKey a.sIP a.sID)
  have hmem : a.time ∈ ((kept a.sIP a.time st.failures ++ [Failure.mk a.sID a.sIP a.time]).filter
      (·.key = failKey a.sIP a.sID)).map Failure.time := by
    refine List.mem_map_of_mem (a := Failure.mk a.sID a.sIP a.time) (List.mem_filter.2 ⟨?_, ?_⟩)
    · exact List.mem_append_right _ (List.mem_singleton_self _)
    · exact decide_eq_true rfl
  rw [object_of_not_blocks hb, inForce_record h.failure_plain hip] at hids
  rw [← hids, request_of_not_blocks hb] at hmem
  have htext := colon_not_mem_failureText
    ((ofFailures st.blocks st.failures).record a.sIP a.sID a.time)
  have hread := key_ne_of_not_plain hip hid htext
  rw [load, get_failuresID, List.mem_map] at hmem
  obtain ⟨f, hf, -⟩ := hmem
  obtain ⟨hf, hkey⟩ := List.mem_filter.1 hf
  exact hread f hf (by simpa using hkey)

include h in
/-- A failure whose line does not fit is not read back. -/
theorem not_sameLists_of_long (hb : ¬ st.Blocks c a) (hplain : a.failure.Plain)
    (hlong : ¬ a.failure.line.length < 1024) :
    ¬ SameLists ((load st).addLoginfailList c a) (load (request c st a)) := by
  intro hsame
  have hsaved := savedFailures_record h.failure_plain st.blocks hplain
  have hall : ∀ f ∈ kept a.sIP a.time st.failures ++ [a.failure], f.Plain := by
    refine List.forall_mem_append.2 ⟨fun f hf => ?_, List.forall_mem_singleton.2 hplain⟩
    exact h.failure_plain f (List.mem_filter.1 hf).1
  have hnew : a.failure ∈
      ((ofFailures st.blocks st.failures).record a.sIP a.sID a.time).savedFailures :=
    hsaved.mem_iff.2 (List.mem_append_right _ (List.mem_singleton_self _))
  obtain ⟨g, hg, hnot⟩ := exists_not_isAddress (fun f hf => hall f (hsaved.mem_iff.1 hf)) hnew hlong
  have hips := hsame.ips g.ip
  rw [object_of_not_blocks hb, request_of_not_blocks hb, load, get_failuresIP, get_recordIP] at hips
  have hmem := hips.mem_iff.1 (time_mem_of_mem hg)
  obtain ⟨f, hf, -⟩ := List.mem_map.1 hmem
  obtain ⟨hf, hkey⟩ := List.mem_filter.1 hf
  have haddress := (hall f hf).ip
  rw [decide_eq_true_eq] at hkey
  rw [hkey, hnot] at haddress
  cases haddress

include h hip in
theorem clean_of_attributed (hattributed : Attributed c st a) : a.Clean c st := by
  have hsame := hattributed.same
  rw [Attempt.Clean]
  split_ifs with hb
  · by_contra hclean
    exact not_sameLists_forget h hip hb hclean hsame
  · cases hid : isPlainId a.sID with
    | false => exact absurd hsame (not_sameLists_of_not_plain h hip hb hid)
    | true =>
      have hplain : a.failure.Plain := ⟨hip, hid⟩
      by_contra hclean
      exact not_sameLists_of_long h hb hplain (fun hfits => hclean ⟨hplain, hfits⟩) hsame

end Unclean

/-! ## Sequences of requests -/

/-- **The failures are attributed to those who made them** in every request of a sequence exactly
when every line that a request adds is clean. -/
theorem meets_attributed_iff (c : Limits) {st : Stored} (h : st.Clean) {as : List Attempt}
    (hips : ∀ a ∈ as, isAddress a.sIP = true) :
    Meets (request c) (Attributed c) st as ↔
      Meets (request c) (fun st a => a.Clean c st) st as := by
  induction as generalizing st with
  | nil => exact Iff.rfl
  | cons a as ih =>
    obtain ⟨hip, hips⟩ := List.forall_mem_cons.1 hips
    constructor
    · rintro ⟨hattributed, hrest⟩
      have hclean := clean_of_attributed h hip hattributed
      exact ⟨hclean, (ih (request_clean h hip hclean) hips).1 hrest⟩
    · rintro ⟨hclean, hrest⟩
      exact ⟨attributed_of_clean h hip hclean, (ih (request_clean h hip hclean) hips).2 hrest⟩

/-- The clean case at work: two clients, the first of them with two ids. -/
theorem meets_attributed_two_clients :
    Meets (request ⟨15, 5, 15⟩) (Attributed ⟨15, 5, 15⟩) ⟨[], []⟩
      [⟨bytes "10.0.0.1", bytes "admin", 1000, 1000⟩,
        ⟨bytes "10.0.0.2", bytes "admin", 1010, 1010⟩,
        ⟨bytes "10.0.0.1", bytes "root", 1020, 1020⟩] := by
  refine (meets_attributed_iff ⟨15, 5, 15⟩ Stored.clean_empty ?_).2 ?_
  · decide
  · decide +kernel

/-- An id with a line of its own: the client `10.0.0.1` adds a failure of `10.0.0.2`. -/
def forgery : Attempt := ⟨bytes "10.0.0.1", bytes "x 10.0.0.2 1000\ny", 1000, 1000⟩

theorem load_forgery :
    (load (request ⟨15, 5, 15⟩ ⟨[], []⟩ forgery)).aLoginfailListIP.get (bytes "10.0.0.2") =
      [1000] := by
  decide +kernel

theorem not_meets_attributed_forgery :
    ¬ Meets (request ⟨15, 5, 15⟩) (Attributed ⟨15, 5, 15⟩) ⟨[], []⟩ [forgery] := by
  rintro ⟨h, -⟩
  have hother := h.others.ips (bytes "10.0.0.2") (by decide)
  rw [load_forgery] at hother
  exact List.cons_ne_nil _ _ hother.eq_nil

end NoSpam.Login
