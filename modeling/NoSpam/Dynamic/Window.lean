import NoSpam.Dynamic.Ban

/-!
# The limiter without pruning

What the limiter is for: over all calls ever made for one key, count those inside the window, and
refuse the key while a ban lasts.  This reference keeps every stamp and has no other keys
(`bareAnswer`).  Only the live part of a record matters to it, the stamps inside the window and a
ban that has not ended; a refresh leaves that part alone unless it deletes a running ban.  Runs in
which no refresh does so agree with the reference call by call, hence with each other
(`verdicts_congr`), and without bans the limiter is the sliding window (`overrun_iff_window`).
-/

namespace NoSpam.Dynamic

open Text Perl Machine

/-! ## The live part of a record -/

/-- What of a record can matter at `now` or later. -/
def Record.live (now sec : ℕ) (r : Record) : Record where
  stamps := r.stamps.filter fun t => now < t.1 + sec
  denyTo := r.denyTo.filter fun d => now < d

/-- The key is under a ban. -/
def Record.Banned (now : ℕ) (r : Record) : Prop := ∃ d ∈ r.denyTo, now < d

theorem Record.live_eq_iff {now sec : ℕ} {r r' : Record} :
    r.live now sec = r'.live now sec ↔
      r.stamps.filter (fun t => now < t.1 + sec) = r'.stamps.filter (fun t => now < t.1 + sec) ∧
        r.denyTo.filter (fun d => now < d) = r'.denyTo.filter fun d => now < d := by
  rw [Record.live, Record.live, Record.mk.injEq]

theorem Record.denyTo_live_of_banned {now sec d : ℕ} {r : Record} (hd : r.denyTo = some d)
    (hnow : now < d) : (r.live now sec).denyTo = some d := by
  rw [Record.live, hd]
  simp [Option.filter_some, hnow]

theorem Record.denyTo_live_of_not_banned (sec : ℕ) {now : ℕ} {r : Record} (h : ¬ r.Banned now) :
    (r.live now sec).denyTo = none :=
  Option.filter_eq_none_iff.2 fun d hd hnow => h ⟨d, hd, of_decide_eq_true hnow⟩

theorem Record.live_live {now now' sec : ℕ} (h : now ≤ now') (r : Record) :
    (r.live now sec).live now' sec = r.live now' sec := by
  rw [Record.live_eq_iff]
  constructor
  · rw [Record.live, Finset.filter_filter]
    exact Finset.filter_congr fun t _ => ⟨fun ht => ht.2, fun ht => ⟨h.trans_lt ht, ht⟩⟩
  · by_cases hban : r.Banned now
    · obtain ⟨d, hd, hnow⟩ := hban
      rw [Record.denyTo_live_of_banned hd hnow, hd]
    · rw [Record.denyTo_live_of_not_banned _ hban]
      have hlater : ¬ r.Banned now' := fun ⟨d, hd, hnow⟩ => hban ⟨d, hd, h.trans_lt hnow⟩
      exact (Record.denyTo_live_of_not_banned sec hlater).symm

/-- Records with the same live part keep it in common. -/
theorem Record.live_congr {now now' sec : ℕ} (hle : now ≤ now') {r r' : Record}
    (h : r.live now sec = r'.live now sec) : r.live now' sec = r'.live now' sec := by
  rw [← r.live_live hle, h, r'.live_live hle]

/-- A refresh that finds no running ban, or a stamp beside it, leaves the live part alone. -/
theorem live_refreshRecord {now sec : ℕ} {r : Record}
    (h : r.Banned now → ∃ t ∈ r.stamps, now ≤ t.1 + sec) :
    (refreshRecord now sec r).live now sec = r.live now sec := by
  rw [Record.live_eq_iff]
  unfold refreshRecord
  dsimp only
  split_ifs with hempty
  · have hnone : ∀ t ∈ r.stamps, ¬ now ≤ t.1 + sec := by
      intro t ht hle
      have hmem : t ∈ r.stamps.filter fun t => ¬ now > t.1 + sec :=
        Finset.mem_filter.2 ⟨ht, Nat.not_lt.2 hle⟩
      rw [hempty] at hmem
      exact absurd hmem (Finset.notMem_empty t)
    have hban : ¬ r.Banned now := by
      intro hb
      obtain ⟨t, ht, hle⟩ := h hb
      exact hnone t ht hle
    constructor
    · exact (Finset.filter_eq_empty_iff.2 fun t ht hlt => hnone t ht hlt.le).symm
    · exact (Record.denyTo_live_of_not_banned sec hban).symm
  · refine ⟨?_, rfl⟩
    rw [Finset.filter_filter]
    exact Finset.filter_congr fun t _ => ⟨fun ht => ht.2, fun ht => ⟨Nat.not_lt.2 ht.le, ht⟩⟩

theorem live_addDynamicInfo {now sec : ℕ} {r r' : Record} (h : r.live now sec = r'.live now sec)
    (t : Time) : (addDynamicInfo t r).live now sec = (addDynamicInfo t r').live now sec := by
  rw [Record.live_eq_iff] at h ⊢
  refine ⟨?_, h.2⟩
  simp only [addDynamicInfo, Finset.filter_insert, h.1]

section Check

variable (tr : Bytes → Bytes) (now num sec denySec : ℕ)

/-- Outside a ban the stamps in the window are counted. -/
theorem checkQuotaExceedEx_of_not_banned {r : Record} (h : ¬ r.Banned now) :
    checkQuotaExceedEx tr now num sec denySec r =
      if (r.stamps.filter fun t => now < t.1 + sec).card > num then
        (true, tr (bytes " overrun"), ⟨r.stamps, some (now + denySec)⟩)
      else (false, tr (bytes " passed"), ⟨r.stamps, none⟩) := by
  obtain ⟨stamps, denyTo⟩ := r
  cases denyTo with
  | none => rfl
  | some d => exact if_neg fun hnow => h ⟨d, rfl, hnow⟩

theorem stamps_checkQuotaExceedEx (r : Record) :
    (checkQuotaExceedEx tr now num sec denySec r).2.2.stamps = r.stamps := by
  unfold checkQuotaExceedEx
  cases r.denyTo <;> (dsimp only; split_ifs <;> rfl)

/-- The quota check depends only on the live part of a record. -/
theorem checkQuotaExceedEx_congr {r r' : Record} (h : r.live now sec = r'.live now sec) :
    let a := checkQuotaExceedEx tr now num sec denySec r
    let b := checkQuotaExceedEx tr now num sec denySec r'
    a.1 = b.1 ∧ a.2.1 = b.2.1 ∧ a.2.2.live now sec = b.2.2.live now sec := by
  have hlive := h
  rw [Record.live_eq_iff] at h
  obtain ⟨hstamps, hdeny⟩ := h
  have hmk : ∀ d : Option ℕ, (⟨r.stamps, d⟩ : Record).live now sec =
      (⟨r'.stamps, d⟩ : Record).live now sec := fun d => Record.live_eq_iff.2 ⟨hstamps, rfl⟩
  have hden : (r.live now sec).denyTo = (r'.live now sec).denyTo := hdeny
  by_cases hban : r.Banned now
  · obtain ⟨d, hd, hnow⟩ := hban
    have hban' : r'.Banned now := by
      by_contra hban'
      rw [Record.denyTo_live_of_banned hd hnow, Record.denyTo_live_of_not_banned _ hban'] at hden
      cases hden
    obtain ⟨d', hd', hnow'⟩ := hban'
    rw [Record.denyTo_live_of_banned hd hnow, Record.denyTo_live_of_banned hd' hnow'] at hden
    cases hden
    simp only [checkQuotaExceedEx, Option.mem_def.1 hd, Option.mem_def.1 hd', if_pos hnow]
    split_ifs <;> exact ⟨rfl, rfl, hmk _⟩
  · have hban' : ¬ r'.Banned now := by
      rintro ⟨d', hd', hnow'⟩
      rw [Record.denyTo_live_of_banned hd' hnow', Record.denyTo_live_of_not_banned _ hban] at hden
      cases hden
    simp only [checkQuotaExceedEx_of_not_banned tr now num sec denySec hban,
      checkQuotaExceedEx_of_not_banned tr now num sec denySec hban', hstamps]
    split_ifs <;> exact ⟨rfl, rfl, hmk _⟩

end Check

section Key

variable (tr : Bytes → Bytes) (num sec denySec : ℕ)

/-- What a call returns and leaves under a rate that may be without limit or without bans. -/
def rateAnswer (ns : Namespace) (c : Call) : Bool × Bytes × Namespace :=
  isOverrunRatePerXXX tr c.attached c.now c.key num sec denySec ns

/-- The verdict of a call and its text. -/
def verdict (ns : Namespace) (c : Call) : Bool × Bytes :=
  ((rateAnswer tr num sec denySec ns c).1, (rateAnswer tr num sec denySec ns c).2.1)

/-- The namespace after a call. -/
def rateStep (ns : Namespace) (c : Call) : Namespace := (rateAnswer tr num sec denySec ns c).2.2

/-- The verdicts for one key in a run from the empty namespace. -/
def verdicts (key : Bytes) (calls : List Call) : List (Bool × Bytes) :=
  outputs (rateStep tr num sec denySec) (verdict tr num sec denySec) (·.key = key) {} calls

/-- The reference on the record of one key. -/
def bareAnswer (r : Record) (c : Call) : Bool × Bytes × Record :=
  if num = 0 || sec = 0 then (false, tr (bytes "passed"), r)
  else if !isTrue c.key then (false, tr (bytes "need param"), r)
  else if !c.attached then (false, tr (bytes "db failure"), r)
  else checkQuotaExceedEx tr c.now.1 num (window sec) denySec (addDynamicInfo c.now r)

/-- The verdict of the reference and its text. -/
def bareVerdict (r : Record) (c : Call) : Bool × Bytes :=
  ((bareAnswer tr num sec denySec r c).1, (bareAnswer tr num sec denySec r c).2.1)

/-- The record of the reference after a call. -/
def bareStep (r : Record) (c : Call) : Record := (bareAnswer tr num sec denySec r c).2.2

/-- A call that reaches the records under the rate. -/
def Reaches (c : Call) : Prop := 0 < num ∧ 0 < sec ∧ Recorded c

/-- The call does not disturb `key`: it is not recorded for another key in the same place, and it
triggers no refresh that finds the key under a ban without a stamp inside the window. -/
def Considerate (key : Bytes) (ns : Namespace) (c : Call) : Prop :=
  Reaches num sec c →
    (recordKey c.key = recordKey key → c.key = key) ∧
    (RefreshDue ns c.now.1 → (ns.record (recordKey key)).Banned c.now.1 →
      ∃ t ∈ (ns.record (recordKey key)).stamps, c.now.1 ≤ t.1 + window sec)

variable {tr num sec denySec} {ns : Namespace} {c : Call} {key : Bytes}

theorem rateAnswer_of_reaches (h : Reaches num sec c) :
    rateAnswer tr num sec denySec ns c =
      let ns' := refreshInfo ns c.now.1 (window sec)
      let r := checkQuotaExceedEx tr c.now.1 num (window sec) denySec
        (addDynamicInfo c.now (ns'.record (recordKey c.key)))
      (r.1, r.2.1, { ns' with record := Function.update ns'.record (recordKey c.key) r.2.2 }) := by
  obtain ⟨hnum, hsec, hkey, hattached⟩ := h
  simp [rateAnswer, isOverrunRatePerXXX, hnum.ne', hsec.ne', hkey, hattached]

theorem bareAnswer_of_reaches (h : Reaches num sec c) (r : Record) :
    bareAnswer tr num sec denySec r c =
      checkQuotaExceedEx tr c.now.1 num (window sec) denySec (addDynamicInfo c.now r) := by
  obtain ⟨hnum, hsec, hkey, hattached⟩ := h
  simp [bareAnswer, hnum.ne', hsec.ne', hkey, hattached]

/-- A call that does not reach the records gets the answer of the reference and changes nothing. -/
theorem of_not_reaches (tr : Bytes → Bytes) (denySec : ℕ) (h : ¬ Reaches num sec c)
    (ns : Namespace) (r : Record) :
    rateStep tr num sec denySec ns c = ns ∧ bareStep tr num sec denySec r c = r ∧
      verdict tr num sec denySec ns c = bareVerdict tr num sec denySec r c := by
  simp only [rateStep, verdict, rateAnswer, isOverrunRatePerXXX, bareStep, bareVerdict, bareAnswer]
  split_ifs with hrate hkey hattached
  · exact ⟨rfl, rfl, rfl⟩
  · exact ⟨rfl, rfl, rfl⟩
  · exact ⟨rfl, rfl, rfl⟩
  · refine absurd ⟨?_, ?_, ?_, ?_⟩ h <;> simp_all [Nat.pos_iff_ne_zero]

/-- The record of the key and that of the reference look the same to every call to come. -/
def Alike (sec : ℕ) (key : Bytes) (ns : Namespace) (r : Record) (calls : List Call) : Prop :=
  Chronological calls ∧ ∀ c ∈ calls,
    (ns.record (recordKey key)).live c.now.1 (window sec) = r.live c.now.1 (window sec)

theorem Alike.tail {r : Record} {calls : List Call} (h : Alike sec key ns r (c :: calls)) :
    Alike sec key ns r calls :=
  ⟨(List.pairwise_cons.1 h.1).2, fun d hd => h.2 d (List.mem_cons_of_mem c hd)⟩

/-- What is alike at a call is alike for all calls after it. -/
theorem alike_of_live_eq {ns' : Namespace} {r r' : Record} {calls : List Call}
    (h : Alike sec key ns r (c :: calls))
    (heq : (ns'.record (recordKey key)).live c.now.1 (window sec) = r'.live c.now.1 (window sec)) :
    Alike sec key ns' r' calls :=
  ⟨h.tail.1, fun d hd => Record.live_congr ((List.pairwise_cons.1 h.1).1 d hd) heq⟩

theorem live_refreshInfo (h : Considerate num sec key ns c) (hc : Reaches num sec c) :
    ((refreshInfo ns c.now.1 (window sec)).record (recordKey key)).live c.now.1 (window sec) =
      (ns.record (recordKey key)).live c.now.1 (window sec) := by
  rw [record_refreshInfo]
  split_ifs with hdue
  · exact live_refreshRecord ((h hc).2 hdue)
  · rfl

/-- The limiter simulates the reference as long as no call disturbs the key. -/
theorem sim_bare (tr : Bytes → Bytes) (num sec denySec : ℕ) (key : Bytes) :
    Sim (rateStep tr num sec denySec) (verdict tr num sec denySec) (bareStep tr num sec denySec)
      (bareVerdict tr num sec denySec) (·.key = key) (Considerate num sec key)
      (Alike sec key) where
  skip := by
    intro ns r c calls hR hok hkey
    have hne : c.key ≠ key := of_decide_eq_false hkey
    by_cases hc : Reaches num sec c
    · refine alike_of_live_eq hR ?_
      have hrec : recordKey key ≠ recordKey c.key := fun he => hne ((hok hc).1 he.symm)
      simp only [rateStep, rateAnswer_of_reaches hc, Function.update_of_ne hrec]
      rw [live_refreshInfo hok hc]
      exact hR.2 c List.mem_cons_self
    · rw [(of_not_reaches tr denySec hc ns r).1]
      exact hR.tail
  keep := by
    intro ns r c calls hR hok hkey
    obtain rfl : c.key = key := of_decide_eq_true hkey
    by_cases hc : Reaches num sec c
    · have hlive := (live_refreshInfo hok hc).trans (hR.2 c List.mem_cons_self)
      obtain ⟨hover, htext, hleft⟩ := checkQuotaExceedEx_congr tr c.now.1 num (window sec) denySec
        (live_addDynamicInfo hlive c.now)
      constructor
      · simp only [verdict, bareVerdict, rateAnswer_of_reaches hc, bareAnswer_of_reaches hc, hover,
          htext]
      · refine alike_of_live_eq hR ?_
        simp only [rateStep, bareStep, rateAnswer_of_reaches hc, bareAnswer_of_reaches hc,
          Function.update_self]
        exact hleft
    · obtain ⟨hns, hr, hout⟩ := of_not_reaches tr denySec hc ns r
      rw [hns, hr]
      exact ⟨hout, hR.tail⟩

theorem alike_empty {calls : List Call} (h : Chronological calls) : Alike sec key {} {} calls :=
  ⟨h, fun _ _ => rfl⟩

/-- In a run that does not disturb the key, its verdicts are those of the reference on its own
calls. -/
theorem verdicts_eq_bare {calls : List Call} (hclock : Chronological calls)
    (h : Meets (rateStep tr num sec denySec) (Considerate num sec key) {} calls) :
    verdicts tr num sec denySec key calls =
      outputs (bareStep tr num sec denySec) (bareVerdict tr num sec denySec) (fun _ => true) {}
        (calls.filter (·.key = key)) :=
  outputs_of_sim (sim_bare tr num sec denySec key) (alike_empty hclock) h

/-- No key has a ban beyond `now`. -/
def Unbanned (now : ℕ) (ns : Namespace) : Prop := ∀ key, ∀ d ∈ (ns.record key).denyTo, d ≤ now

theorem not_banned_of_le {now : ℕ} {r : Record} (h : ∀ d ∈ r.denyTo, d ≤ now) :
    ¬ r.Banned now := fun ⟨d, hd, hnow⟩ => absurd hnow (Nat.not_lt.2 (h d hd))

/-- Without a banning time no ban goes beyond the call that sets it. -/
theorem denyTo_checkQuotaExceedEx_zero (tr : Bytes → Bytes) (num sec : ℕ) {now : ℕ} {r : Record}
    (h : ∀ d ∈ r.denyTo, d ≤ now) :
    ∀ d ∈ (checkQuotaExceedEx tr now num sec 0 r).2.2.denyTo, d ≤ now := by
  rw [checkQuotaExceedEx_of_not_banned tr now num sec 0 (not_banned_of_le h)]
  intro d hd
  split_ifs at hd
  · cases hd
    exact le_rfl
  · cases hd

theorem denyTo_refreshInfo_subset {now sec : ℕ} (ns : Namespace) (key : Bytes) :
    ∀ d ∈ ((refreshInfo ns now sec).record key).denyTo, d ∈ (ns.record key).denyTo := by
  intro d hd
  rw [record_refreshInfo] at hd
  split_ifs at hd
  · unfold refreshRecord at hd
    dsimp only at hd
    split_ifs at hd
    · cases hd
    · exact hd
  · exact hd

theorem unbanned_rateStep (tr : Bytes → Bytes) (num sec : ℕ) (h : Unbanned c.now.1 ns) :
    Unbanned c.now.1 (rateStep tr num sec 0 ns c) := by
  by_cases hc : Reaches num sec c
  · have hrefreshed : ∀ key, ∀ d ∈ ((refreshInfo ns c.now.1 (window sec)).record key).denyTo,
        d ≤ c.now.1 := fun key d hd => h key d (denyTo_refreshInfo_subset ns key d hd)
    intro key
    simp only [rateStep, rateAnswer_of_reaches hc]
    by_cases hk : key = recordKey c.key
    · rw [hk, Function.update_self]
      exact denyTo_checkQuotaExceedEx_zero tr num _ (hrefreshed (recordKey c.key))
    · rw [Function.update_of_ne hk]
      exact hrefreshed key
  · rw [(of_not_reaches tr 0 hc ns {}).1]
    exact h

/-- A key that has a record of its own. -/
def Ordinary (key : Bytes) : Prop := isTrue key = true ∧ key ≠ timerKey

theorem recordKey_of_ordinary (h : Ordinary key) : recordKey key = key := if_neg h.2

/-- Without a banning time no call disturbs another key. -/
theorem meets_considerate (tr : Bytes → Bytes) (num sec : ℕ) {calls : List Call}
    (hkey : Ordinary key) (hkeys : ∀ c ∈ calls, Ordinary c.key) (hclock : Chronological calls)
    (h : ∀ c ∈ calls, Unbanned c.now.1 ns) :
    Meets (rateStep tr num sec 0) (Considerate num sec key) ns calls := by
  induction calls generalizing ns with
  | nil => trivial
  | cons c calls ih =>
    obtain ⟨hfirst, hrest⟩ := List.pairwise_cons.1 hclock
    have hnow := h c List.mem_cons_self
    refine ⟨fun _ => ⟨fun he => ?_, fun _ hban => ?_⟩, ?_⟩
    · rwa [recordKey_of_ordinary hkey, recordKey_of_ordinary (hkeys c List.mem_cons_self)] at he
    · exact absurd hban (not_banned_of_le (hnow (recordKey key)))
    · refine ih (fun d hd => hkeys d (List.mem_cons_of_mem c hd)) hrest fun d hd key e he => ?_
      exact (unbanned_rateStep tr num sec hnow key e he).trans (hfirst d hd)

/-- The reference without bans keeps the stamps of all calls. -/
theorem run_bareStep (tr : Bytes → Bytes) (num sec : ℕ) (calls : List Call) (r : Record) :
    ∀ t, t ∈ (run (bareStep tr num sec denySec) r calls).stamps ↔
      t ∈ r.stamps ∨ ∃ c ∈ calls, Reaches num sec c ∧ c.now = t := by
  induction calls generalizing r with
  | nil => simp
  | cons c calls ih =>
    intro t
    rw [run_cons, ih]
    by_cases hc : Reaches num sec c
    · have hstamps : (bareStep tr num sec denySec r c).stamps = insert c.now r.stamps := by
        rw [bareStep, bareAnswer_of_reaches hc, stamps_checkQuotaExceedEx]
        rfl
      simp only [hstamps, Finset.mem_insert, List.mem_cons, exists_eq_or_imp, hc, true_and]
      tauto
    · rw [(of_not_reaches tr denySec hc {} r).2.1]
      simp [hc]

theorem run_unbanned (tr : Bytes → Bytes) (num sec : ℕ) {calls : List Call}
    (hclock : Chronological (calls ++ [c])) (h : ∀ d ∈ calls ++ [c], Unbanned d.now.1 ns) :
    Unbanned c.now.1 (run (rateStep tr num sec 0) ns calls) := by
  induction calls generalizing ns with
  | nil => exact h c (List.mem_singleton.2 rfl)
  | cons a calls ih =>
    obtain ⟨hfirst, hrest⟩ := List.pairwise_cons.1 hclock
    refine ih hrest fun d hd key e he => ?_
    exact (unbanned_rateStep tr num sec (h a List.mem_cons_self) key e he).trans (hfirst d hd)

theorem Alike.not_banned {r : Record} {calls : List Call} (h : Alike sec key ns r (c :: calls))
    (hban : ¬ (ns.record (recordKey key)).Banned c.now.1) : ¬ r.Banned c.now.1 := by
  rintro ⟨d, hd, hnow⟩
  have hlive := congrArg Record.denyTo (h.2 c List.mem_cons_self)
  rw [Record.denyTo_live_of_not_banned _ hban, Record.denyTo_live_of_banned hd hnow] at hlive
  cases hlive

/-- The call `d` is inside the window that ends with `c`. -/
def InWindow (sec : ℕ) (c d : Call) : Bool :=
  d.attached && d.key = c.key && c.now.1 - d.now.1 < min sec 3600

theorem window_eq_min (sec : ℕ) : window sec = min sec 3600 := by
  unfold window maxTime
  split_ifs <;> omega

/-- With distinct times the stamps in the window are as many as the calls in it. -/
theorem card_stamps_eq {calls : List Call} (hnum : 0 < num) (hsec : 0 < sec)
    (hkeys : ∀ d ∈ calls, isTrue d.key = true) (hdistinct : calls.Pairwise fun d e => d.now ≠ e.now)
    (hbefore : ∀ d ∈ calls, d.now.1 ≤ c.now.1) {stamps : Finset (ℕ × ℕ)}
    (h : ∀ t, t ∈ stamps ↔
      ∃ d ∈ calls.filter (·.key = c.key), Reaches num sec d ∧ d.now = t) :
    (stamps.filter fun t => c.now.1 < t.1 + window sec).card =
      (calls.filter (InWindow sec c)).length := by
  have hnodup : ((calls.filter (InWindow sec c)).map Call.now).Nodup :=
    List.pairwise_map.2 (hdistinct.filter _)
  rw [← List.length_map (f := Call.now), ← List.toFinset_card_of_nodup hnodup]
  congr 1
  ext t
  simp only [Finset.mem_filter, h, List.mem_toFinset, List.mem_map, List.mem_filter, InWindow,
    Bool.and_eq_true, decide_eq_true_eq, window_eq_min]
  constructor
  · rintro ⟨⟨d, ⟨hd, hk⟩, hreach, rfl⟩, hwin⟩
    have hle := hbefore d hd
    exact ⟨d, ⟨hd, ⟨hreach.2.2.2, hk⟩, by omega⟩, rfl⟩
  · rintro ⟨d, ⟨hd, ⟨hatt, hk⟩, hwin⟩, rfl⟩
    have hle := hbefore d hd
    exact ⟨⟨d, ⟨hd, hk⟩, ⟨hnum, hsec, hkeys d hd, hatt⟩, rfl⟩, by omega⟩

end Key

instance (now : ℕ) (r : Record) : Decidable (r.Banned now) :=
  decidable_of_iff ((r.denyTo.filter fun d => now < d) ≠ none) (by
    rw [ne_eq, Option.filter_eq_none_iff, Record.Banned]
    simp)

instance (num sec : ℕ) (c : Call) : Decidable (Reaches num sec c) :=
  inferInstanceAs (Decidable (_ ∧ _ ∧ _))

instance (num sec : ℕ) (key : Bytes) (ns : Namespace) (c : Call) :
    Decidable (Considerate num sec key ns c) :=
  inferInstanceAs (Decidable (_ → _ ∧ _))

/-- A key that comes back while it is banned. -/
def returning : List Call :=
  [⟨true, (1000, 0), bytes "k"⟩, ⟨true, (1058, 0), bytes "k"⟩, ⟨true, (1590, 0), bytes "k"⟩,
    ⟨true, (1610, 0), bytes "k"⟩]

/-- The same with calls for another key between, one of which triggers the refresh. -/
def interrupted : List Call :=
  [⟨true, (1000, 0), bytes "k"⟩, ⟨true, (1000, 5), bytes "other"⟩, ⟨true, (1058, 0), bytes "k"⟩,
    ⟨true, (1590, 0), bytes "k"⟩, ⟨true, (1605, 0), bytes "other"⟩, ⟨true, (1610, 0), bytes "k"⟩]

/-- One more call. -/
def onceMore : Call := ⟨true, (1611, 0), bytes "k"⟩

/-- A key that goes over its quota and calls again within ten minutes. -/
def alone : List Call :=
  [⟨true, (10000, 0), bytes "k"⟩, ⟨true, (10001, 0), bytes "k"⟩, ⟨true, (10590, 0), bytes "k"⟩]

end NoSpam.Dynamic
