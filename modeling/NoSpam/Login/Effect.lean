import NoSpam.Login.BlackList

/-!
# What a request does to the lists

A save writes, under every index, the times that the address still counts
(`filter_savedFailures`).  So a request that does not block keeps the failures of the others and of
the last five minutes and adds its own, and a request that blocks keeps those of the others only
(`failures_of_not_blocks`, `failures_of_blocks`); the files stay clean (`request_clean`).
-/

namespace NoSpam.Login

open Text Php

/-! ## What a save writes -/

/-- The times under an index that the list of the address holds too. -/
def LoginBlackList.inForce (l : LoginBlackList) (key : Bytes) : List ℤ :=
  (l.aLoginfailListID.get key).filter ((l.aLoginfailListIP.get (part 58 key 0)).contains ·)

/-- The failure at a time under an index. -/
def ofKey (key : Bytes) (t : ℤ) : Failure := ⟨part 58 key 1, part 58 key 0, t⟩

theorem savedEntry_eq (l : LoginBlackList) (e : Bytes × List ℤ) :
    l.savedEntry e =
      (e.2.filter ((l.aLoginfailListIP.get (part 58 e.1 0)).contains ·)).map (ofKey e.1) := by
  unfold LoginBlackList.savedEntry Assoc.get
  cases l.aLoginfailListIP.lookup (part 58 e.1 0) with
  | none => simp
  | some times => rfl

/-- An index that is an address and an id. -/
def IsKey (key : Bytes) : Prop := failKey (part 58 key 0) (part 58 key 1) = key

theorem Failure.Plain.isKey {f : Failure} (h : f.Plain) : IsKey f.key := by
  rw [IsKey, h.part_key.1, h.part_key.2]
  rfl

theorem Failure.Plain.ofKey_key {f : Failure} (h : f.Plain) : ofKey f.key f.time = f := by
  rw [ofKey, h.part_key.1, h.part_key.2]

/-- Under an index a save writes the times in force, in their order. -/
theorem filter_savedFailures {l : LoginBlackList}
    (h : ∀ e ∈ l.aLoginfailListID.entries, IsKey e.1) (key : Bytes) :
    l.savedFailures.filter (·.key = key) = (l.inForce key).map (ofKey key) := by
  have hentries : ∀ es : List (Bytes × List ℤ), (∀ e ∈ es, IsKey e.1) → (es.map Prod.fst).Nodup →
      (es.flatMap l.savedEntry).filter (·.key = key) =
        ((((Assoc.find key es).getD []).filter
          ((l.aLoginfailListIP.get (part 58 key 0)).contains ·)).map (ofKey key)) := by
    intro es hes hnodup
    induction es with
    | nil => rfl
    | cons e es ih =>
      obtain ⟨hkey, hes⟩ := List.forall_mem_cons.1 hes
      obtain ⟨hnot, hnodup⟩ := List.nodup_cons.1 hnodup
      have hmem : ∀ f ∈ l.savedEntry e, f.key = e.1 := by
        rw [savedEntry_eq]
        exact List.forall_mem_map.2 fun t _ => hkey
      rw [List.flatMap_cons, List.filter_append, ih hes hnodup, Assoc.find]
      by_cases he : e.1 = key
      · have hnone : Assoc.find key es = none :=
          Assoc.find_eq_none_iff.2 fun e' he' hk => hnot (he ▸ hk ▸ List.mem_map_of_mem he')
        rw [if_pos he, hnone, List.filter_eq_self.2 fun f hf => by simpa using (hmem f hf).trans he,
          savedEntry_eq, he]
        simp
      · rw [if_neg he, List.filter_eq_nil_iff.2 fun f hf => by simpa [hmem f hf] using he,
          List.nil_append]
  exact hentries _ h l.aLoginfailListID.nodup

/-! ## What a request does to the failures -/

section Effect

variable {bs : List (Bytes × ℤ)} {fs : List Failure}

theorem get_failuresID (bs : List (Bytes × ℤ)) (fs : List Failure) (key : Bytes) :
    (ofFailures bs fs).aLoginfailListID.get key =
      (fs.filter (·.key = key)).map Failure.time := by
  rw [ofFailures, Assoc.get_collect, List.filter_map, List.map_map]
  rfl

theorem get_failuresIP (bs : List (Bytes × ℤ)) (fs : List Failure) (ip : Bytes) :
    (ofFailures bs fs).aLoginfailListIP.get ip = (fs.filter (·.ip = ip)).map Failure.time := by
  rw [ofFailures, Assoc.get_collect, List.filter_map, List.map_map]
  rfl

theorem exists_of_mem_entriesID {e : Bytes × List ℤ}
    (h : e ∈ (ofFailures bs fs).aLoginfailListID.entries) : ∃ f ∈ fs, f.key = e.1 := by
  have hlookup := Assoc.mem_entries_iff.1 h
  rw [ofFailures, Assoc.lookup_collect] at hlookup
  split_ifs at hlookup with hnil
  rw [Assoc.get_collect, List.map_eq_nil_iff, List.filter_eq_nil_iff] at hnil
  push Not at hnil
  obtain ⟨x, hx, hkey⟩ := hnil
  obtain ⟨f, hf, rfl⟩ := List.mem_map.1 hx
  exact ⟨f, hf, by simpa using hkey⟩

theorem ip_of_key {f : Failure} (hf : f.Plain) {key : Bytes} (h : f.key = key) :
    f.ip = part 58 key 0 := by
  rw [← h, hf.part_key.1]

theorem filter_key_eq_map (hfs : ∀ f ∈ fs, f.Plain) (key : Bytes) :
    fs.filter (·.key = key) = ((fs.filter (·.key = key)).map Failure.time).map (ofKey key) := by
  rw [List.map_map]
  refine (List.map_id _).symm.trans (List.map_congr_left fun f hf => ?_)
  obtain ⟨hmem, hkey⟩ := List.mem_filter.1 hf
  rw [decide_eq_true_eq] at hkey
  rw [Function.comp_apply, ← hkey, (hfs f hmem).ofKey_key]
  rfl

/-- Lists with the same failures under every index have the same failures. -/
theorem perm_of_filter_key {fs fs' : List Failure}
    (h : ∀ key, fs.filter (·.key = key) = fs'.filter (·.key = key)) : fs.Perm fs' := by
  rw [List.perm_iff_count]
  intro f
  have hcount : ∀ l : List Failure, l.count f = (l.filter (·.key = f.key)).count f := fun l =>
    (List.count_filter (by simp)).symm
  rw [hcount fs, hcount fs', h]

/-- The failures that a new failure of the address leaves: the others, and its own of the last five
minutes. -/
def kept (ip : Bytes) (time : ℤ) (fs : List Failure) : List Failure :=
  fs.filter fun f => f.ip ≠ ip ∨ time - 60 * 5 < f.time

/-- The failures of the other addresses. -/
def others (ip : Bytes) (fs : List Failure) : List Failure := fs.filter fun f => f.ip ≠ ip

theorem filter_ip_singleton (f : Failure) (ip : Bytes) :
    [f].filter (·.ip = ip) = if ip = f.ip then [f] else [] := by
  by_cases h : ip = f.ip
  · rw [if_pos h, List.filter_cons_of_pos (by simpa using h.symm), List.filter_nil]
  · rw [if_neg h, List.filter_cons_of_neg (by simpa using Ne.symm h), List.filter_nil]

/-- The failures of an address are left by a filter that all of them pass. -/
theorem filter_ip_filter {ip : Bytes} {q : Failure → Bool}
    (h : ∀ f : Failure, f.ip = ip → q f = true) (fs : List Failure) :
    (fs.filter q).filter (·.ip = ip) = fs.filter (·.ip = ip) := by
  rw [List.filter_filter]
  refine List.filter_congr fun f _ => ?_
  by_cases hf : f.ip = ip
  · rw [h f hf, Bool.and_true]
  · simp [hf]

theorem filter_ip_others (ip ip' : Bytes) (fs : List Failure) :
    (others ip fs).filter (·.ip = ip') = if ip' = ip then [] else fs.filter (·.ip = ip') := by
  rw [others]
  split_ifs with he
  · rw [List.filter_filter, List.filter_eq_nil_iff]
    intro f _
    simp [he]
  · refine filter_ip_filter (fun f hf => ?_) fs
    exact decide_eq_true fun h => he (hf.symm.trans h)

theorem filter_ip_kept (ip ip' : Bytes) (time : ℤ) (fs : List Failure) :
    (kept ip time fs).filter (·.ip = ip') =
      if ip' = ip then (fs.filter (·.ip = ip)).filter (time - 60 * 5 < ·.time)
      else fs.filter (·.ip = ip') := by
  rw [kept]
  split_ifs with he
  · rw [List.filter_filter, List.filter_filter]
    refine List.filter_congr fun f _ => ?_
    by_cases hf : f.ip = ip <;> simp [he, hf]
  · refine filter_ip_filter (fun f hf => ?_) fs
    exact decide_eq_true (.inl fun h => he (hf.symm.trans h))

theorem mem_addTime {time t : ℤ} {times : List ℤ} :
    t ∈ addTime time times ↔ t ∈ times ∧ time - 60 * 5 < t ∨ t = time := by
  simp [addTime]

theorem times_kept (fs : List Failure) (id ip ip' : Bytes) (time : ℤ) :
    ((kept ip time fs ++ [Failure.mk id ip time]).filter (·.ip = ip')).map Failure.time =
      if ip' = ip then addTime time ((fs.filter (·.ip = ip)).map Failure.time)
      else (fs.filter (·.ip = ip')).map Failure.time := by
  rw [List.filter_append, List.map_append, filter_ip_kept, filter_ip_singleton]
  split_ifs with he
  · rw [addTime, List.filter_map]
    rfl
  · rw [List.map_nil, List.append_nil]

theorem times_others (fs : List Failure) (ip ip' : Bytes) :
    ((others ip fs).filter (·.ip = ip')).map Failure.time =
      if ip' = ip then [] else (fs.filter (·.ip = ip')).map Failure.time := by
  rw [filter_ip_others]
  split_ifs <;> rfl

theorem map_time_filter {p : Failure → Bool} {q : ℤ → Bool} {fs : List Failure}
    (h : ∀ f ∈ fs, q f.time = p f) :
    (fs.map Failure.time).filter q = (fs.filter p).map Failure.time := by
  rw [List.filter_map]
  exact congrArg _ (List.filter_congr fun f hf => h f hf)

theorem mem_failures_key {f : Failure} {key : Bytes} (hfs : ∀ f ∈ fs, f.Plain)
    (h : f ∈ fs.filter (·.key = key)) : f ∈ fs ∧ f.ip = part 58 key 0 := by
  obtain ⟨hmem, hkey⟩ := List.mem_filter.1 h
  exact ⟨hmem, ip_of_key (hfs f hmem) (by simpa using hkey)⟩

theorem time_mem_of_mem {f : Failure} (h : f ∈ fs) :
    f.time ∈ (fs.filter (·.ip = f.ip)).map Failure.time :=
  List.mem_map_of_mem (List.mem_filter.2 ⟨h, by simp⟩)

variable {ip id : Bytes} (hfs : ∀ f ∈ fs, f.Plain) (hip : isAddress ip = true)

include hip in
theorem part_failKey_zero (id : Bytes) : part 58 (failKey ip id) 0 = ip := by
  have h58 : (58 : UInt8) ∉ ip := not_mem_of_isAddress hip rfl (by decide)
  simp [failKey, part_append h58]

include hfs in
/-- Of the failures under an index of the address, those of the last five minutes are in force. -/
theorem filter_contains_addTime {key : Bytes} (hkey : part 58 key 0 = ip) (time : ℤ) :
    ((fs.filter (·.key = key)).map Failure.time).filter
        ((addTime time ((fs.filter (·.ip = ip)).map Failure.time)).contains ·) =
      ((kept ip time fs).filter (·.key = key)).map Failure.time := by
  have hpast : ∀ f ∈ fs.filter (·.key = key),
      (addTime time ((fs.filter (·.ip = ip)).map Failure.time)).contains f.time =
        decide (f.ip ≠ ip ∨ time - 60 * 5 < f.time) := by
    intro f hf
    obtain ⟨hmem, hf⟩ := mem_failures_key hfs hf
    have htime := time_mem_of_mem hmem
    rw [hf.trans hkey] at htime
    rw [Bool.eq_iff_iff, List.contains_iff_mem, mem_addTime, decide_eq_true_eq]
    constructor
    · rintro (⟨-, h⟩ | h)
      · exact Or.inr h
      · exact Or.inr (by omega)
    · rintro (h | h)
      · exact absurd (hf.trans hkey) h
      · exact Or.inl ⟨htime, h⟩
  rw [map_time_filter hpast, kept, List.filter_filter, List.filter_filter]
  simp only [Bool.and_comm]

include hfs in
/-- All failures under an index of another address are in force. -/
theorem filter_contains_other {key : Bytes} :
    ((fs.filter (·.key = key)).map Failure.time).filter
        (((fs.filter (·.ip = part 58 key 0)).map Failure.time).contains ·) =
      (fs.filter (·.key = key)).map Failure.time := by
  rw [List.filter_eq_self]
  refine List.forall_mem_map.2 fun f hf => ?_
  obtain ⟨hmem, hf⟩ := mem_failures_key hfs hf
  rw [List.contains_iff_mem, ← hf]
  exact time_mem_of_mem hmem

include hfs in
theorem filter_key_kept_other {key : Bytes} (hkey : part 58 key 0 ≠ ip) (time : ℤ) :
    (kept ip time fs).filter (·.key = key) = fs.filter (·.key = key) := by
  rw [kept, List.filter_filter]
  refine List.filter_congr fun f hf => ?_
  by_cases hk : f.key = key
  · have hne : f.ip ≠ ip := by rwa [ip_of_key (hfs f hf) hk]
    simp [hk, hne]
  · simp [hk]

theorem filter_key_singleton (f : Failure) (key : Bytes) :
    [f].filter (·.key = key) = if key = f.key then [f] else [] := by
  by_cases h : key = f.key
  · rw [if_pos h, List.filter_cons_of_pos (by simpa using h.symm), List.filter_nil]
  · rw [if_neg h, List.filter_cons_of_neg (by simpa using Ne.symm h), List.filter_nil]

theorem filter_contains_self (time : ℤ) (times times' : List ℤ) :
    (addTime time times).filter ((addTime time times').contains ·) =
      times.filter ((addTime time times').contains ·) ++ [time] := by
  have hnew : [time].filter ((addTime time times').contains ·) = [time] :=
    List.filter_eq_self.2 (by simp [addTime])
  have htimes : addTime time times = times.filter (time - 60 * 5 < ·) ++ [time] := rfl
  rw [htimes, List.filter_append, hnew, List.filter_filter]
  congr 1
  refine List.filter_congr fun t _ => ?_
  rw [Bool.and_eq_left_iff_imp, List.contains_iff_mem, mem_addTime, decide_eq_true_eq]
  rintro (⟨-, h⟩ | h)
  · exact h
  · omega

include hfs hip in
/-- The times in force after a failure of a client. -/
theorem inForce_record (bs : List (Bytes × ℤ)) (id : Bytes) (time : ℤ) (key : Bytes) :
    ((ofFailures bs fs).record ip id time).inForce key =
      ((kept ip time fs ++ [Failure.mk id ip time]).filter (·.key = key)).map Failure.time := by
  simp only [LoginBlackList.inForce, LoginBlackList.record, Assoc.get_put, get_failuresID,
    get_failuresIP]
  rw [List.filter_append, List.map_append, filter_key_singleton]
  by_cases hown : part 58 key 0 = ip
  · simp only [if_pos hown]
    by_cases hkey : key = failKey ip id
    · rw [if_pos hkey, if_pos (show key = Failure.key ⟨id, ip, time⟩ from hkey), ← hkey,
        filter_contains_self, filter_contains_addTime hfs hown]
      rfl
    · rw [if_neg hkey, if_neg (show key ≠ Failure.key ⟨id, ip, time⟩ from hkey),
        filter_contains_addTime hfs hown, List.map_nil, List.append_nil]
  · have hkey : key ≠ failKey ip id := by
      rintro rfl
      exact hown (part_failKey_zero hip id)
    rw [if_neg hkey, if_neg (show key ≠ Failure.key ⟨id, ip, time⟩ from hkey), if_neg hown,
      filter_contains_other hfs, filter_key_kept_other hfs hown, List.map_nil, List.append_nil]

include hfs hip in
/-- The times in force of the other addresses are all of theirs. -/
theorem inForce_record_other (bs : List (Bytes × ℤ)) (id : Bytes) (time : ℤ) {key : Bytes}
    (hother : part 58 key 0 ≠ ip) :
    ((ofFailures bs fs).record ip id time).inForce key =
      (ofFailures bs fs).aLoginfailListID.get key := by
  have hkey : key ≠ failKey ip id := by
    rintro rfl
    exact hother (part_failKey_zero hip id)
  simp only [LoginBlackList.inForce, LoginBlackList.record, Assoc.get_put, get_failuresID,
    get_failuresIP]
  rw [if_neg hkey, if_neg hother, filter_contains_other hfs]

include hfs hip in
theorem inForce_forget_other (bs : List (Bytes × ℤ)) (c : Limits) (now : ℤ) (id : Bytes)
    {key : Bytes} (hother : part 58 key 0 ≠ ip) :
    (((ofFailures bs fs).addBlockList c ip now).forget ip id).inForce key =
      (ofFailures bs fs).aLoginfailListID.get key := by
  have hkey : key ≠ failKey ip id := by
    rintro rfl
    exact hother (part_failKey_zero hip id)
  simp only [LoginBlackList.inForce, LoginBlackList.forget, LoginBlackList.addBlockList,
    Assoc.get_unset, get_failuresID, get_failuresIP]
  rw [if_neg hkey, if_neg hother, filter_contains_other hfs]

include hfs hip in
/-- The times in force after a block of a client. -/
theorem inForce_forget (bs : List (Bytes × ℤ)) (c : Limits) (now : ℤ) (id key : Bytes) :
    (((ofFailures bs fs).addBlockList c ip now).forget ip id).inForce key =
      ((others ip fs).filter (·.key = key)).map Failure.time := by
  simp only [LoginBlackList.inForce, LoginBlackList.forget, LoginBlackList.addBlockList,
    Assoc.get_unset, get_failuresID, get_failuresIP]
  rw [others, List.filter_filter]
  by_cases hown : part 58 key 0 = ip
  · have hnone : fs.filter (fun f => decide (f.key = key) && decide (f.ip ≠ ip)) = [] := by
      refine List.filter_eq_nil_iff.2 fun f hf => ?_
      rw [Bool.and_eq_true, decide_eq_true_eq, decide_eq_true_eq]
      rintro ⟨hkey, hne⟩
      exact hne ((ip_of_key (hfs f hf) hkey).trans hown)
    rw [if_pos hown, hnone]
    simp
  · have hkey : key ≠ failKey ip id := by
      rintro rfl
      exact hown (part_failKey_zero hip id)
    rw [if_neg hkey, if_neg hown, filter_contains_other hfs]
    refine congrArg _ (List.filter_congr fun f hf => ?_)
    by_cases hk : f.key = key
    · have hne : f.ip ≠ ip := by rwa [ip_of_key (hfs f hf) hk]
      simp [hk, hne]
    · simp [hk]

include hfs in
theorem isKey_of_mem_entriesID (bs : List (Bytes × ℤ)) {e : Bytes × List ℤ}
    (h : e ∈ (ofFailures bs fs).aLoginfailListID.entries) : IsKey e.1 := by
  obtain ⟨f, hf, hkey⟩ := exists_of_mem_entriesID h
  exact hkey ▸ (hfs f hf).isKey

include hfs in
theorem isKey_of_record {bs : List (Bytes × ℤ)} {time : ℤ} (hnew : (Failure.mk id ip time).Plain) :
    ∀ e ∈ ((ofFailures bs fs).record ip id time).aLoginfailListID.entries, IsKey e.1 := by
  intro e he
  rcases Assoc.fst_mem_putEntry (List.mem_map_of_mem he) with hkey | hold
  · exact hkey ▸ hnew.isKey
  · obtain ⟨e', he', hkey⟩ := List.mem_map.1 hold
    exact hkey ▸ isKey_of_mem_entriesID hfs bs he'

include hfs in
theorem isKey_of_forget {bs : List (Bytes × ℤ)} {c : Limits} {now : ℤ} :
    ∀ e ∈ (((ofFailures bs fs).addBlockList c ip now).forget ip id).aLoginfailListID.entries,
      IsKey e.1 :=
  fun _ he => isKey_of_mem_entriesID hfs bs (List.mem_filter.1 he).1

include hfs in
/-- A save after a failure of a client with a plain id writes the failures kept and the new one. -/
theorem savedFailures_record (bs : List (Bytes × ℤ)) {time : ℤ}
    (hnew : (Failure.mk id ip time).Plain) :
    ((ofFailures bs fs).record ip id time).savedFailures.Perm
      (kept ip time fs ++ [Failure.mk id ip time]) := by
  have hclean : ∀ f ∈ kept ip time fs ++ [Failure.mk id ip time], f.Plain := by
    refine List.forall_mem_append.2 ⟨fun f hf => hfs f (List.mem_filter.1 hf).1, ?_⟩
    exact List.forall_mem_singleton.2 hnew
  refine perm_of_filter_key fun key => ?_
  rw [filter_savedFailures (isKey_of_record hfs hnew), inForce_record hfs hnew.ip,
    ← filter_key_eq_map hclean]

include hfs hip in
/-- A save after a block writes the failures of the other addresses. -/
theorem savedFailures_forget (bs : List (Bytes × ℤ)) (c : Limits) (now : ℤ) (id : Bytes) :
    (((ofFailures bs fs).addBlockList c ip now).forget ip id).savedFailures.Perm
      (others ip fs) := by
  have hclean : ∀ f ∈ others ip fs, f.Plain := fun f hf => hfs f (List.mem_filter.1 hf).1
  refine perm_of_filter_key fun key => ?_
  rw [filter_savedFailures (isKey_of_forget hfs), inForce_forget hfs hip,
    ← filter_key_eq_map hclean]

end Effect

/-! ## Requests -/

/-- The failures on file. -/
def Stored.failures (st : Stored) : List Failure := readFailures st.loginFailList

/-- The blocks on file. -/
def Stored.blocks (st : Stored) : List (Bytes × ℤ) := (readLines st.ipDenyList).map readBlock

/-- The request blocks its address. -/
def Stored.Blocks (c : Limits) (st : Stored) (a : Attempt) : Prop :=
  (load st).blocks c a.sIP a.sID a.time = true

instance (c : Limits) (st : Stored) (a : Attempt) : Decidable (st.Blocks c a) :=
  inferInstanceAs (Decidable (_ = true))

/-- The failure that a request adds. -/
def Attempt.failure (a : Attempt) : Failure := ⟨a.sID, a.sIP, a.time⟩

/-- The block that a request adds. -/
def Attempt.block (c : Limits) (a : Attempt) : Bytes × ℤ :=
  (a.sIP, a.now + 60 * c.iDenyTimeAfterMaxLogin)

/-- The line that the request adds is clean. -/
def Attempt.Clean (c : Limits) (st : Stored) (a : Attempt) : Prop :=
  if st.Blocks c a then CleanBlock (a.block c) else a.failure.Clean

instance (c : Limits) (st : Stored) (a : Attempt) : Decidable (a.Clean c st) := by
  unfold Attempt.Clean
  infer_instance

/-- No lists are on file. -/
theorem Stored.clean_empty : Stored.Clean ⟨[], []⟩ :=
  ⟨⟨[], by simp, List.nodup_nil, rfl⟩, ⟨[], by simp, rfl⟩⟩

namespace Stored.Clean

variable {c : Limits} {st : Stored} {a : Attempt} (h : st.Clean)

include h in
theorem failure_clean : ∀ f ∈ st.failures, f.Clean := by
  obtain ⟨fs, hfs, htext⟩ := h.failList
  rwa [Stored.failures, htext, readFailures_failureText hfs]

include h in
theorem failure_plain : ∀ f ∈ st.failures, f.Plain := fun f hf => (h.failure_clean f hf).toPlain

include h in
theorem block_clean : ∀ e ∈ st.blocks, CleanBlock e := by
  obtain ⟨bs, hbs, -, htext⟩ := h.denyList
  rwa [Stored.blocks, htext, readBlock_blockText hbs]

include h in
theorem nodup_blocks : (st.blocks.map Prod.fst).Nodup := by
  obtain ⟨bs, hbs, hnodup, htext⟩ := h.denyList
  rwa [Stored.blocks, htext, readBlock_blockText hbs]

end Stored.Clean

theorem failures_of_perm {fs fs' : List Failure} (hfs : ∀ f ∈ fs, f.Clean) (h : fs'.Perm fs)
    (deny : Bytes) : (Stored.mk deny (failureText fs')).failures.Perm fs ∧
      ∀ f ∈ fs', f.Clean := by
  have hclean : ∀ f ∈ fs', f.Clean := fun f hf => hfs f (h.mem_iff.1 hf)
  refine ⟨?_, hclean⟩
  rwa [Stored.failures, readFailures_failureText hclean]

section Request

variable {c : Limits} {st : Stored} {a : Attempt}

theorem request_of_blocks (hb : st.Blocks c a) :
    request c st a =
      ⟨blockText ((Assoc.ofList st.blocks).put (a.block c).1 (a.block c).2).entries,
        failureText (((ofFailures st.blocks st.failures).addBlockList c a.sIP a.now).forget
          a.sIP a.sID).savedFailures⟩ := by
  unfold Stored.Blocks at hb
  rw [request, if_pos hb, LoginBlackList.addLoginfailList, if_pos hb]
  rfl

theorem request_of_not_blocks (hb : ¬ st.Blocks c a) :
    request c st a =
      ⟨st.ipDenyList,
        failureText
          ((ofFailures st.blocks st.failures).record a.sIP a.sID a.time).savedFailures⟩ := by
  unfold Stored.Blocks at hb
  rw [request, if_neg hb, LoginBlackList.addLoginfailList, if_neg hb]
  rfl

variable (h : st.Clean)

include h in
theorem clean_others (ip : Bytes) : ∀ f ∈ others ip st.failures, f.Clean :=
  fun f hf => h.failure_clean f (List.mem_filter.1 hf).1

include h in
theorem clean_kept (hclean : a.failure.Clean) :
    ∀ f ∈ kept a.sIP a.time st.failures ++ [a.failure], f.Clean := by
  refine List.forall_mem_append.2 ⟨fun f hf => ?_, List.forall_mem_singleton.2 hclean⟩
  exact h.failure_clean f (List.mem_filter.1 hf).1

include h in
/-- A request that blocks leaves the failures of the others. -/
theorem failures_of_blocks (hip : isAddress a.sIP = true) (hb : st.Blocks c a) :
    (request c st a).failures.Perm (others a.sIP st.failures) := by
  have hsaved := savedFailures_forget h.failure_plain hip st.blocks c a.now a.sID
  rw [request_of_blocks hb]
  exact (failures_of_perm (clean_others h a.sIP) hsaved _).1

include h in
/-- A request that does not block adds its failure. -/
theorem failures_of_not_blocks (hb : ¬ st.Blocks c a) (hclean : a.failure.Clean) :
    (request c st a).failures.Perm (kept a.sIP a.time st.failures ++ [a.failure]) := by
  have hsaved := savedFailures_record h.failure_plain st.blocks hclean.toPlain
  rw [request_of_not_blocks hb]
  exact (failures_of_perm (clean_kept h hclean) hsaved _).1

include h in
theorem clean_put {e : Bytes × ℤ} (he : CleanBlock e) :
    ∀ e' ∈ ((Assoc.ofList st.blocks).put e.1 e.2).entries, CleanBlock e' := by
  intro e' he'
  have hlookup := Assoc.mem_entries_iff.1 (show (e'.1, e'.2) ∈ _ from he')
  rw [Assoc.lookup_put] at hlookup
  split_ifs at hlookup with hkey
  · rwa [show e' = e from Prod.ext hkey (Option.some.inj hlookup).symm]
  · have hmem := Assoc.mem_entries_iff.2 hlookup
    rw [Assoc.entries_ofList h.nodup_blocks] at hmem
    exact h.block_clean e' hmem

include h in
/-- Clean files stay clean. -/
theorem request_clean (hip : isAddress a.sIP = true) (hclean : a.Clean c st) :
    (request c st a).Clean := by
  by_cases hb : st.Blocks c a
  · rw [Attempt.Clean, if_pos hb] at hclean
    have hsaved := savedFailures_forget h.failure_plain hip st.blocks c a.now a.sID
    rw [request_of_blocks hb]
    exact ⟨⟨_, clean_put h hclean, Assoc.nodup _, rfl⟩,
      ⟨_, (failures_of_perm (clean_others h a.sIP) hsaved []).2, rfl⟩⟩
  · rw [Attempt.Clean, if_neg hb] at hclean
    have hsaved := savedFailures_record h.failure_plain st.blocks hclean.toPlain
    rw [request_of_not_blocks hb]
    exact ⟨h.denyList, ⟨_, (failures_of_perm (clean_kept h hclean) hsaved []).2, rfl⟩⟩

end Request

end NoSpam.Login
