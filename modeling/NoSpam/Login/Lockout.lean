import NoSpam.Base.Run
import NoSpam.Login.Effect

/-!
# When a login is locked out

The failures of an address since its last block, from the sequence of its requests (`sinceBlock`),
against the lists that the requests keep.  What is on file of an address are its failures of the
five minutes before its last one (`Tracks`), and no list exceeds its maximum, so the oldest time of
a list and its length tell what a count of the recent times would (`reached_lookup_iff`).  The test
takes a failure of exactly five minutes ago for recent and the filter does not: a request in the
second of another one of its address no longer finds what that one has filtered out.  With positive
maxima this is the only way in which the lock-out can miss (`meets_exact_iff`).
-/

namespace NoSpam.Login

open Text Php Machine

/-- The files, and the requests that led to them, each with whether it has blocked its address. -/
structure Watch where
  st : Stored
  past : List (Attempt × Bool)

/-- One request. -/
def Watch.step (c : Limits) (w : Watch) (a : Attempt) : Watch :=
  ⟨request c w.st a, w.past ++ [(a, decide (w.st.Blocks c a))]⟩

/-- No lists and no requests. -/
def Watch.start : Watch := ⟨⟨[], []⟩, []⟩

/-- One request in view of an address: a block takes its failures away, a failure is added. -/
def sinceStep (ip : Bytes) (fs : List Attempt) (e : Attempt × Bool) : List Attempt :=
  if e.1.sIP = ip then if e.2 then [] else fs ++ [e.1] else fs

/-- The failures of an address since its last block. -/
def sinceBlock (ip : Bytes) (past : List (Attempt × Bool)) : List Attempt :=
  past.foldl (sinceStep ip) []

/-- Those of the failures that satisfy `recent` reach a maximum: the ones of the id the maximum for
a user, or all of them the maximum for an address. -/
def Reach (c : Limits) (past : List (Attempt × Bool)) (a : Attempt) (recent : ℤ → Bool) : Prop :=
  c.iUserMaxLoginRetry ≤
      ((sinceBlock a.sIP past).filter fun f => f.sID = a.sID && recent f.time).length ∨
    c.iIPMaxLoginRetry ≤ ((sinceBlock a.sIP past).filter fun f => recent f.time).length

/-- The request is to block its address: the failures of at most five minutes ago reach a
maximum. -/
def Due (c : Limits) (past : List (Attempt × Bool)) (a : Attempt) : Prop :=
  Reach c past a fun t => a.time - 300 ≤ t

/-- No list is longer than its maximum. -/
structure Bounded (c : Limits) (l : LoginBlackList) : Prop where
  ids : ∀ key times, l.aLoginfailListID.lookup key = some times →
    (times.length : ℤ) ≤ c.iUserMaxLoginRetry
  ips : ∀ ip times, l.aLoginfailListIP.lookup ip = some times →
    (times.length : ℤ) ≤ c.iIPMaxLoginRetry

/-- The request blocks its address exactly when it is to, and leaves no list too long. -/
def Exact (c : Limits) (w : Watch) (a : Attempt) : Prop :=
  (w.st.Blocks c a ↔ Due c w.past a) ∧ Bounded c (load (request c w.st a))

/-- The maxima are positive, and a request that is to block its address is the first of the address
in its second, or the failures of less than five minutes ago reach a maximum. -/
def Prompt (c : Limits) (w : Watch) (a : Attempt) : Prop :=
  (1 ≤ c.iUserMaxLoginRetry ∧ 1 ≤ c.iIPMaxLoginRetry) ∧
    (Due c w.past a → (∀ f ∈ sinceBlock a.sIP w.past, f.time < a.time) ∨
      Reach c w.past a fun t => a.time - 300 < t)

/-! ## Lists and counts -/

/-- The entry under a key whose values are `times`. -/
def entry (times : List ℤ) : Option (List ℤ) := if times = [] then none else some times

theorem reached_entry_iff {time max : ℤ} (hmax : 1 ≤ max) (times : List ℤ) :
    reached time max (entry times) = true ↔
      (∀ t ∈ times, time - 300 ≤ t) ∧ max ≤ times.length := by
  unfold entry
  split_ifs with hnil
  · subst hnil
    simp [reached]
    omega
  · obtain ⟨m, hm⟩ := Option.isSome_iff_exists.1 (List.isSome_min?_of_ne_nil hnil)
    obtain ⟨hmem, hle⟩ := List.min?_eq_some_iff.1 hm
    simp only [reached, hm, Option.getD_some, Bool.and_eq_true, decide_eq_true_eq]
    constructor
    · rintro ⟨hmin, hlen⟩
      refine ⟨fun t ht => ?_, by omega⟩
      have := hle t ht
      omega
    · rintro ⟨hall, hlen⟩
      have := hall m hmem
      exact ⟨by omega, by omega⟩

/-- For a list that is not too long, the test is a count of the recent times. -/
theorem reached_lookup_iff {time max : ℤ} (hmax : 1 ≤ max) {times : List ℤ}
    (hlen : (times.length : ℤ) ≤ max) :
    reached time max (entry times) = true ↔
      max ≤ (times.filter (time - 300 ≤ ·)).length := by
  rw [reached_entry_iff hmax]
  constructor
  · rintro ⟨hall, hle⟩
    rwa [List.filter_eq_self.2 fun t ht => decide_eq_true (hall t ht)]
  · intro hle
    have hsub := List.length_filter_le (fun t => decide (time - 300 ≤ t)) times
    have heq : (times.filter (time - 300 ≤ ·)).length = times.length := by omega
    refine ⟨fun t ht => ?_, by omega⟩
    simpa using List.length_filter_eq_length_iff.1 heq t ht

/-- A list that the test does not find full has room for the new time. -/
theorem length_addTime_le {time max : ℤ} (hmax : 1 ≤ max) {times : List ℤ}
    (hlen : (times.length : ℤ) ≤ max) (hnot : ¬ reached time max (entry times) = true) :
    ((addTime time times).length : ℤ) ≤ max := by
  rw [reached_entry_iff hmax] at hnot
  rw [addTime, List.length_append, List.length_singleton, Nat.cast_add, Nat.cast_one]
  have hle := List.length_filter_le (fun t => decide (time - 60 * 5 < t)) times
  by_cases hall : ∀ t ∈ times, time - 300 ≤ t
  · have hroom : ¬ max ≤ times.length := fun h => hnot ⟨hall, h⟩
    omega
  · push Not at hall
    obtain ⟨t, ht, hold⟩ := hall
    have hlt : (times.filter (time - 60 * 5 < ·)).length < times.length := by
      refine List.length_filter_lt_length_iff_exists.2 ⟨t, ht, ?_⟩
      rw [decide_eq_true_eq]
      omega
    omega

/-! ## What is on file -/

/-- The failures of the five minutes before the last of them. -/
def fresh (fs : List Attempt) : List Attempt :=
  fs.filter fun f => ∀ g ∈ fs, g.time - 300 < f.time

/-- The files are clean and hold, of every address, its failures of the five minutes before its
last one, and no list is too long. -/
structure Tracks (c : Limits) (w : Watch) : Prop where
  clean : w.st.Clean
  stored : ∀ ip, (w.st.failures.filter (·.ip = ip)).Perm
    ((fresh (sinceBlock ip w.past)).map Attempt.failure)
  ids : ∀ key, ((w.st.failures.filter (·.key = key)).length : ℤ) ≤ c.iUserMaxLoginRetry
  ips : ∀ ip, ((w.st.failures.filter (·.ip = ip)).length : ℤ) ≤ c.iIPMaxLoginRetry

theorem lookup_failuresID (st : Stored) (key : Bytes) :
    (load st).aLoginfailListID.lookup key =
      entry ((st.failures.filter (·.key = key)).map Failure.time) := by
  rw [entry, ← get_failuresID st.blocks]
  exact Assoc.lookup_collect _ key

theorem lookup_failuresIP (st : Stored) (ip : Bytes) :
    (load st).aLoginfailListIP.lookup ip =
      entry ((st.failures.filter (·.ip = ip)).map Failure.time) := by
  rw [entry, ← get_failuresIP st.blocks]
  exact Assoc.lookup_collect _ ip

theorem eq_of_entry {times times' : List ℤ} (h : entry times = some times') : times' = times := by
  unfold entry at h
  split_ifs at h
  exact (Option.some.inj h).symm

theorem Tracks.bounded {c : Limits} {w : Watch} (h : Tracks c w) : Bounded c (load w.st) := by
  refine ⟨fun key times hkey => ?_, fun ip times hip => ?_⟩
  · rw [lookup_failuresID] at hkey
    rw [eq_of_entry hkey, List.length_map]
    exact h.ids key
  · rw [lookup_failuresIP] at hip
    rw [eq_of_entry hip, List.length_map]
    exact h.ips ip

theorem sinceBlock_append (ip : Bytes) (past : List (Attempt × Bool)) (e : Attempt × Bool) :
    sinceBlock ip (past ++ [e]) = sinceStep ip (sinceBlock ip past) e := by
  rw [sinceBlock, List.foldl_append]
  rfl

theorem mem_sinceBlock {ip : Bytes} {past : List (Attempt × Bool)} {f : Attempt}
    (h : f ∈ sinceBlock ip past) : f.sIP = ip ∧ ∃ e ∈ past, e.1 = f := by
  induction past using List.reverseRecOn with
  | nil => cases h
  | append_singleton past e ih =>
    rw [sinceBlock_append, sinceStep] at h
    have hpast : f ∈ sinceBlock ip past → f.sIP = ip ∧ ∃ e' ∈ past ++ [e], e'.1 = f := by
      intro hf
      obtain ⟨hip, e', he', heq⟩ := ih hf
      exact ⟨hip, e', List.mem_append_left _ he', heq⟩
    split_ifs at h with hip hblock
    · cases h
    · rcases List.mem_append.1 h with h | h
      · exact hpast h
      · obtain rfl := List.mem_singleton.1 h
        exact ⟨hip, e, List.mem_append_right _ (List.mem_singleton_self e), rfl⟩
    · exact hpast h

section Step

variable {c : Limits} {w : Watch} {a : Attempt} (h : Tracks c w)
  (hpast : ∀ e ∈ w.past, e.1.time ≤ a.time) (hclean : a.failure.Clean)
  (hblock : CleanBlock (a.block c)) (hmax : 1 ≤ c.iUserMaxLoginRetry ∧ 1 ≤ c.iIPMaxLoginRetry)

include hpast in
theorem time_le_of_mem {ip : Bytes} : ∀ f ∈ sinceBlock ip w.past, f.time ≤ a.time := by
  intro f hf
  obtain ⟨-, e, he, rfl⟩ := mem_sinceBlock hf
  exact hpast e he

theorem key_eq_iff {f : Failure} (hf : f.Plain) {ip id : Bytes} (hip : isAddress ip = true) :
    f.key = failKey ip id ↔ f.ip = ip ∧ f.id = id := by
  constructor
  · intro hkey
    have hip' : f.ip = ip := by rw [ip_of_key hf hkey, part_failKey_zero hip]
    refine ⟨hip', ?_⟩
    rw [Failure.key, failKey, failKey, hip'] at hkey
    exact (List.cons.inj (List.append_cancel_left hkey)).2
  · rintro ⟨rfl, rfl⟩
    rfl

include h hclean in
/-- The failures under the index of the request, of those of its address. -/
theorem filter_key_eq (q : ℤ → Bool) :
    (((w.st.failures.filter (·.key = a.failure.key)).map Failure.time).filter q).length =
      ((fresh (sinceBlock a.sIP w.past)).filter fun f => f.sID = a.sID && q f.time).length := by
  have hkey : w.st.failures.filter (·.key = a.failure.key) =
      (w.st.failures.filter (·.ip = a.sIP)).filter (·.id = a.sID) := by
    rw [List.filter_filter]
    refine List.filter_congr fun f hf => ?_
    have hiff : f.key = failKey a.sIP a.sID ↔ f.ip = a.sIP ∧ f.id = a.sID :=
      key_eq_iff (h.clean.failure_plain f hf) hclean.ip
    rw [Bool.eq_iff_iff, Bool.and_eq_true, decide_eq_true_eq, decide_eq_true_eq, decide_eq_true_eq,
      and_comm]
    exact hiff
  rw [hkey]
  have hperm := (((h.stored a.sIP).filter (·.id = a.sID)).map Failure.time).filter q
  rw [hperm.length_eq]
  simp only [List.filter_map, List.length_map, List.filter_filter, Function.comp_def,
    Attempt.failure, Bool.and_comm]
  rfl

include h in
theorem filter_ip_eq (q : ℤ → Bool) :
    (((w.st.failures.filter (·.ip = a.sIP)).map Failure.time).filter q).length =
      ((fresh (sinceBlock a.sIP w.past)).filter fun f => q f.time).length := by
  have hperm := ((h.stored a.sIP).map Failure.time).filter q
  rw [hperm.length_eq, List.map_map, List.filter_map, List.length_map]
  rfl

theorem filter_fresh {fs : List Attempt} {p q : Attempt → Bool}
    (h : ∀ f ∈ fs, ((∀ g ∈ fs, g.time - 300 < f.time) ∧ p f = true) ↔ q f = true) :
    (fresh fs).filter p = fs.filter q := by
  rw [fresh, List.filter_filter]
  refine List.filter_congr fun f hf => ?_
  rw [Bool.eq_iff_iff, Bool.and_eq_true, decide_eq_true_eq, and_comm]
  exact h f hf

include h hclean hmax in
/-- Whether a request blocks is a count of the recent failures on file. -/
theorem blocks_iff :
    w.st.Blocks c a ↔
      c.iUserMaxLoginRetry ≤ ((fresh (sinceBlock a.sIP w.past)).filter fun f =>
          f.sID = a.sID && decide (a.time - 300 ≤ f.time)).length ∨
        c.iIPMaxLoginRetry ≤ ((fresh (sinceBlock a.sIP w.past)).filter fun f =>
          decide (a.time - 300 ≤ f.time)).length := by
  have hid := h.ids a.failure.key
  have hip := h.ips a.sIP
  rw [← List.length_map Failure.time] at hid hip
  rw [← filter_key_eq h hclean (fun t => decide (a.time - 300 ≤ t)),
    ← filter_ip_eq h (fun t => decide (a.time - 300 ≤ t)), ← reached_lookup_iff hmax.1 hid,
    ← reached_lookup_iff hmax.2 hip, ← lookup_failuresID, ← lookup_failuresIP,
    ← Bool.or_eq_true]
  exact Iff.rfl

include h hclean hmax in
/-- The first request of an address in its second blocks exactly when it is to. -/
theorem blocks_iff_of_first (hfirst : ∀ f ∈ sinceBlock a.sIP w.past, f.time < a.time) :
    w.st.Blocks c a ↔ Due c w.past a := by
  have hrecent : ∀ f ∈ sinceBlock a.sIP w.past, a.time - 300 ≤ f.time →
      ∀ g ∈ sinceBlock a.sIP w.past, g.time - 300 < f.time := by
    intro f _ hf g hg
    have := hfirst g hg
    omega
  rw [blocks_iff h hclean hmax, Due, Reach,
    filter_fresh (q := fun f => f.sID = a.sID && decide (a.time - 300 ≤ f.time)),
    filter_fresh (q := fun f => decide (a.time - 300 ≤ f.time))]
  · intro f hf
    rw [decide_eq_true_eq]
    exact ⟨fun hf' => hf'.2, fun hf' => ⟨hrecent f hf hf', hf'⟩⟩
  · intro f hf
    rw [Bool.and_eq_true, decide_eq_true_eq, decide_eq_true_eq]
    exact ⟨fun hf' => hf'.2, fun hf' => ⟨hrecent f hf hf'.2, hf'⟩⟩

include h hpast hclean hmax in
/-- A later request of an address in its second counts the failures of less than five minutes
ago. -/
theorem blocks_iff_of_not_first (hfirst : ¬ ∀ f ∈ sinceBlock a.sIP w.past, f.time < a.time) :
    w.st.Blocks c a ↔ Reach c w.past a fun t => a.time - 300 < t := by
  push Not at hfirst
  obtain ⟨g, hg, hgt⟩ := hfirst
  have hrecent : ∀ f : Attempt, (∀ g ∈ sinceBlock a.sIP w.past, g.time - 300 < f.time) ↔
      a.time - 300 < f.time := by
    intro f
    constructor
    · intro hf
      have := hf g hg
      omega
    · intro hf g' hg'
      have := time_le_of_mem hpast g' hg'
      omega
  rw [blocks_iff h hclean hmax, Reach,
    filter_fresh (q := fun f => f.sID = a.sID && decide (a.time - 300 < f.time)),
    filter_fresh (q := fun f => decide (a.time - 300 < f.time))]
  · intro f hf
    rw [hrecent, decide_eq_true_eq, decide_eq_true_eq]
    omega
  · intro f hf
    rw [hrecent, Bool.and_eq_true, Bool.and_eq_true, decide_eq_true_eq, decide_eq_true_eq,
      decide_eq_true_eq]
    constructor
    · exact fun hf' => ⟨hf'.2.1, hf'.1⟩
    · exact fun hf' => ⟨hf'.2, hf'.1, by omega⟩

theorem fresh_append {fs : List Attempt} (hle : ∀ f ∈ fs, f.time ≤ a.time) :
    fresh (fs ++ [a]) = fs.filter (fun f => a.time - 300 < f.time) ++ [a] := by
  rw [fresh, List.filter_append]
  congr 1
  · refine List.filter_congr fun f _ => decide_eq_decide.2 ⟨fun hf => ?_, fun hf g hg => ?_⟩
    · exact hf a (List.mem_append_right _ (List.mem_singleton_self a))
    · rcases List.mem_append.1 hg with hg | hg
      · have := hle g hg
        omega
      · rwa [List.mem_singleton.1 hg]
  · refine List.filter_eq_self.2 (List.forall_mem_singleton.2 (decide_eq_true fun g hg => ?_))
    rcases List.mem_append.1 hg with hg | hg
    · have := hle g hg
      omega
    · rw [List.mem_singleton.1 hg]
      omega

theorem fresh_filter {fs : List Attempt} (hle : ∀ f ∈ fs, f.time ≤ a.time) :
    (fresh fs).filter (fun f => a.time - 300 < f.time) =
      fs.filter fun f => a.time - 300 < f.time := by
  refine filter_fresh fun f _ => ?_
  rw [decide_eq_true_eq]
  refine ⟨fun hf => hf.2, fun hf => ⟨fun g hg => ?_, hf⟩⟩
  have := hle g hg
  omega

include h hpast in
/-- What a request that does not block leaves of each address. -/
theorem stored_of_not_blocks (hb : ¬ w.st.Blocks c a) (hclean : a.failure.Clean) (ip : Bytes) :
    ((request c w.st a).failures.filter (·.ip = ip)).Perm
      ((fresh (sinceBlock ip (w.step c a).past)).map Attempt.failure) := by
  refine ((failures_of_not_blocks h.clean hb hclean).filter _).trans ?_
  rw [Watch.step, sinceBlock_append, sinceStep, decide_eq_false hb, List.filter_append,
    filter_ip_kept, filter_ip_singleton]
  by_cases hip : ip = a.sIP
  · subst hip
    have hle : ∀ f ∈ sinceBlock a.sIP w.past, f.time ≤ a.time := time_le_of_mem hpast
    have hrecent : (fun f : Failure => decide (a.time - 300 < f.time)) ∘ Attempt.failure =
        fun f : Attempt => decide (a.time - 300 < f.time) := rfl
    have hkept := (h.stored a.sIP).filter fun f => a.time - 300 < f.time
    rw [List.filter_map, hrecent, fresh_filter hle] at hkept
    rw [if_pos rfl, if_pos (show a.sIP = a.failure.ip from rfl), if_pos rfl,
      if_neg Bool.false_ne_true, fresh_append hle, List.map_append]
    exact hkept.append_right _
  · rw [if_neg hip, if_neg (show ip ≠ a.failure.ip from hip), if_neg (Ne.symm hip),
      List.append_nil]
    exact h.stored ip

include h in
/-- What a request that blocks leaves of each address. -/
theorem stored_of_blocks (hb : w.st.Blocks c a) (hip : isAddress a.sIP = true) (ip : Bytes) :
    ((request c w.st a).failures.filter (·.ip = ip)).Perm
      ((fresh (sinceBlock ip (w.step c a).past)).map Attempt.failure) := by
  refine ((failures_of_blocks h.clean hip hb).filter _).trans ?_
  rw [Watch.step, sinceBlock_append, sinceStep, decide_eq_true hb, filter_ip_others]
  by_cases hip : ip = a.sIP
  · rw [if_pos hip, if_pos hip.symm]
    rfl
  · rw [if_neg hip, if_neg (Ne.symm hip)]
    exact h.stored ip

theorem length_filter_filter_le {α : Type*} (p q : α → Bool) (l : List α) :
    ((l.filter p).filter q).length ≤ (l.filter q).length := by
  rw [List.filter_comm]
  exact List.length_filter_le p _

include hclean in
/-- Of the failures under its index a request keeps those of the last five minutes. -/
theorem filter_key_kept_own {fs : List Failure} (hfs : ∀ f ∈ fs, f.Plain) :
    ((kept a.sIP a.time fs).filter (·.key = a.failure.key)).length + 1 =
      (addTime a.time ((fs.filter (·.key = a.failure.key)).map Failure.time)).length := by
  have hkey : (kept a.sIP a.time fs).filter (·.key = a.failure.key) =
      (fs.filter (·.key = a.failure.key)).filter (a.time - 60 * 5 < ·.time) := by
    rw [kept, List.filter_filter, List.filter_filter]
    refine List.filter_congr fun f hf => ?_
    by_cases hk : f.key = a.failure.key
    · have hip : f.ip = a.sIP := by
        rw [ip_of_key (hfs f hf) hk]
        exact part_failKey_zero hclean.ip a.sID
      simp [hk, hip]
    · simp [hk]
  rw [hkey, addTime, List.filter_map, List.length_append, List.length_map]
  rfl

include h hpast hclean hblock hmax in
/-- A request keeps the lists in step with the failures. -/
theorem tracks_step : Tracks c (w.step c a) := by
  have hnext : (request c w.st a).Clean :=
    request_clean h.clean hclean.ip (by unfold Attempt.Clean; split_ifs <;> assumption)
  by_cases hb : w.st.Blocks c a
  · have hperm := failures_of_blocks h.clean hclean.ip hb
    refine ⟨hnext, stored_of_blocks h hb hclean.ip, fun key => ?_, fun ip => ?_⟩
    · have hle := length_filter_filter_le (fun f => decide (f.ip ≠ a.sIP))
        (fun f => decide (f.key = key)) w.st.failures
      have hold := h.ids key
      rw [Watch.step, (hperm.filter _).length_eq, others]
      omega
    · have hle := length_filter_filter_le (fun f => decide (f.ip ≠ a.sIP))
        (fun f => decide (f.ip = ip)) w.st.failures
      have hold := h.ips ip
      rw [Watch.step, (hperm.filter _).length_eq, others]
      omega
  · have hperm := failures_of_not_blocks h.clean hb hclean
    have hnot := hb
    rw [Stored.Blocks, LoginBlackList.blocks, Bool.or_eq_true, lookup_failuresID, lookup_failuresIP,
      not_or] at hnot
    refine ⟨hnext, stored_of_not_blocks h hpast hb hclean, fun key => ?_, fun ip => ?_⟩
    · have hold := h.ids key
      rw [Watch.step, (hperm.filter _).length_eq, List.filter_append, filter_key_singleton,
        List.length_append]
      split_ifs with hkey
      · subst hkey
        rw [List.length_singleton, filter_key_kept_own hclean h.clean.failure_plain]
        refine length_addTime_le hmax.1 ?_ hnot.1
        rwa [List.length_map]
      · have hle := length_filter_filter_le
          (fun f => decide (f.ip ≠ a.sIP ∨ a.time - 60 * 5 < f.time))
          (fun f => decide (f.key = key)) w.st.failures
        rw [kept, List.length_nil]
        omega
    · have hold := h.ips ip
      rw [Watch.step, (hperm.filter _).length_eq, ← List.length_map Failure.time, Attempt.failure,
        times_kept]
      rw [← List.length_map Failure.time] at hold
      split_ifs with hip
      · subst hip
        exact length_addTime_le hmax.2 hold hnot.2
      · exact hold

end Step

/-! ## Sequences of requests -/

theorem tracks_start {c : Limits} (hmax : 1 ≤ c.iUserMaxLoginRetry ∧ 1 ≤ c.iIPMaxLoginRetry) :
    Tracks c Watch.start := by
  have hnone : Watch.start.st.failures = [] := rfl
  refine ⟨Stored.clean_empty, fun _ => List.Perm.nil, fun _ => ?_, fun _ => ?_⟩
  · rw [hnone, List.filter_nil, List.length_nil]
    omega
  · rw [hnone, List.filter_nil, List.length_nil]
    omega

theorem reach_mono {c : Limits} {past : List (Attempt × Bool)} {a : Attempt} {p q : ℤ → Bool}
    (h : ∀ t, p t = true → q t = true) (hreach : Reach c past a p) : Reach c past a q := by
  refine hreach.imp (fun hid => hid.trans ?_) (fun hip => hip.trans ?_)
  · refine Int.ofNat_le.2 (List.monotone_filter_right _ fun f hf => ?_).length_le
    rw [Bool.and_eq_true] at hf ⊢
    exact ⟨hf.1, h _ hf.2⟩
  · exact Int.ofNat_le.2 (List.monotone_filter_right _ fun f hf => h _ hf).length_le

/-- A request is exact when it is prompt. -/
theorem exact_iff {c : Limits} {w : Watch} {a : Attempt} (h : Tracks c w)
    (hpast : ∀ e ∈ w.past, e.1.time ≤ a.time) (hclean : a.failure.Clean)
    (hblock : CleanBlock (a.block c))
    (hmax : 1 ≤ c.iUserMaxLoginRetry ∧ 1 ≤ c.iIPMaxLoginRetry) : Exact c w a ↔ Prompt c w a := by
  have hbounded : Bounded c (load (request c w.st a)) :=
    (tracks_step h hpast hclean hblock hmax).bounded
  rw [Exact, Prompt, and_iff_left hbounded, and_iff_right hmax]
  by_cases hfirst : ∀ f ∈ sinceBlock a.sIP w.past, f.time < a.time
  · exact ⟨fun _ _ => Or.inl hfirst, fun _ => blocks_iff_of_first h hclean hmax hfirst⟩
  · have hdue : (Reach c w.past a fun t => a.time - 300 < t) → Due c w.past a :=
      reach_mono fun t ht => by
        rw [decide_eq_true_eq] at ht ⊢
        omega
    rw [blocks_iff_of_not_first h hpast hclean hmax hfirst, or_iff_right hfirst]
    exact ⟨fun hiff => hiff.2, fun himp => ⟨hdue, himp⟩⟩

/-- Without positive maxima the first request is to block its address and does not. -/
theorem not_exact_start {c : Limits} (hmax : ¬ (1 ≤ c.iUserMaxLoginRetry ∧ 1 ≤ c.iIPMaxLoginRetry))
    (a : Attempt) : ¬ Exact c .start a := by
  rintro ⟨hiff, -⟩
  have hnot : ¬ Watch.start.st.Blocks c a := by
    rw [Stored.Blocks, LoginBlackList.blocks, lookup_failuresID, lookup_failuresIP]
    exact Bool.false_ne_true
  refine hnot (hiff.2 ?_)
  have hnone : sinceBlock a.sIP Watch.start.past = [] := rfl
  rw [Due, Reach, hnone, List.filter_nil, List.filter_nil, List.length_nil]
  omega

theorem meets_exact_iff_of_tracks {c : Limits} {w : Watch} {as : List Attempt} (h : Tracks c w)
    (hmax : 1 ≤ c.iUserMaxLoginRetry ∧ 1 ≤ c.iIPMaxLoginRetry)
    (hpast : ∀ e ∈ w.past, ∀ a ∈ as, e.1.time ≤ a.time)
    (hclean : ∀ a ∈ as, a.failure.Clean ∧ CleanBlock (a.block c))
    (hsorted : as.Pairwise fun a b => a.time ≤ b.time) :
    Meets (Watch.step c) (Exact c) w as ↔ Meets (Watch.step c) (Prompt c) w as := by
  induction as generalizing w with
  | nil => exact Iff.rfl
  | cons a as ih =>
    obtain ⟨⟨hfailure, hblock⟩, hclean⟩ := List.forall_mem_cons.1 hclean
    obtain ⟨hlater, hsorted⟩ := List.pairwise_cons.1 hsorted
    have hbefore : ∀ e ∈ w.past, e.1.time ≤ a.time := fun e he => hpast e he a List.mem_cons_self
    have hnext : ∀ e ∈ (w.step c a).past, ∀ b ∈ as, e.1.time ≤ b.time := by
      refine List.forall_mem_append.2 ⟨fun e he b hb => ?_, List.forall_mem_singleton.2 hlater⟩
      exact hpast e he b (List.mem_cons_of_mem a hb)
    rw [meets_cons, meets_cons, exact_iff h hbefore hfailure hblock hmax,
      ih (tracks_step h hbefore hfailure hblock hmax) hnext hclean hsorted]

/-- Where the lines of a sequence in the order of time are clean, the lock-out is exact in every
request if and only if every request is prompt. -/
theorem meets_exact_iff_of_clean (c : Limits) {as : List Attempt}
    (hclean : ∀ a ∈ as, a.failure.Clean ∧ CleanBlock (a.block c))
    (hsorted : as.Pairwise fun a b => a.time ≤ b.time) :
    Meets (Watch.step c) (Exact c) .start as ↔ Meets (Watch.step c) (Prompt c) .start as := by
  by_cases hmax : 1 ≤ c.iUserMaxLoginRetry ∧ 1 ≤ c.iIPMaxLoginRetry
  · exact meets_exact_iff_of_tracks (tracks_start hmax) hmax
      (fun e he => absurd he List.not_mem_nil) hclean hsorted
  · cases as with
    | nil => exact Iff.rfl
    | cons a as =>
      exact iff_of_false (fun h => not_exact_start hmax a h.1) fun h => hmax h.1.1

/-- The lines of a request are read in one piece. -/
def Fits (c : Limits) (a : Attempt) : Prop :=
  a.failure.line.length < 1024 ∧ (blockLine (a.block c)).length < 1024

instance (c : Limits) (a : Attempt) : Decidable (Fits c a) := inferInstanceAs (Decidable (_ ∧ _))

/-- **The lock-out fires exactly when it should**, in every request of a sequence in the order of
time with plain ids, if the lines of every request fit and every request is prompt; and if the lines
fit, only then. -/
theorem meets_exact_iff (c : Limits) {as : List Attempt} (hplain : ∀ a ∈ as, a.failure.Plain)
    (hsorted : as.Pairwise fun a b => a.time ≤ b.time) :
    (Meets (Watch.step c) (fun w a => Fits c a ∧ Prompt c w a) .start as →
      Meets (Watch.step c) (Exact c) .start as) ∧
    ((∀ a ∈ as, Fits c a) →
      (Meets (Watch.step c) (Exact c) .start as ↔ Meets (Watch.step c) (Prompt c) .start as)) := by
  have hiff : (∀ a ∈ as, Fits c a) →
      (Meets (Watch.step c) (Exact c) .start as ↔ Meets (Watch.step c) (Prompt c) .start as) := by
    intro hfits
    refine meets_exact_iff_of_clean c (fun a ha => ?_) hsorted
    exact ⟨⟨hplain a ha, (hfits a ha).1⟩, ⟨(hplain a ha).ip, (hfits a ha).2⟩⟩
  refine ⟨fun h => ?_, hiff⟩
  obtain ⟨hfits, hprompt⟩ := meets_and.1 h
  exact (hiff (forall_mem_of_meets hfits)).2 hprompt

instance (c : Limits) (past : List (Attempt × Bool)) (a : Attempt) (recent : ℤ → Bool) :
    Decidable (Reach c past a recent) :=
  inferInstanceAs (Decidable (_ ∨ _))

instance (c : Limits) (past : List (Attempt × Bool)) (a : Attempt) : Decidable (Due c past a) :=
  inferInstanceAs (Decidable (Reach ..))

instance (c : Limits) (w : Watch) (a : Attempt) : Decidable (Prompt c w a) :=
  inferInstanceAs (Decidable (_ ∧ (_ → _ ∨ _)))

/-- A client that is locked out with its third attempt. -/
theorem meets_exact_third_attempt :
    Meets (Watch.step ⟨15, 2, 15⟩) (Exact ⟨15, 2, 15⟩) .start
      [⟨bytes "10.0.0.1", bytes "admin", 1000, 1000⟩,
        ⟨bytes "10.0.0.1", bytes "admin", 1200, 1200⟩,
        ⟨bytes "10.0.0.1", bytes "admin", 1300, 1300⟩] :=
  (meets_exact_iff ⟨15, 2, 15⟩ (by decide +kernel) (by decide)).1 (by decide +kernel)

/-- The third attempt again, but in the second of the one before it and five minutes after the
first. -/
theorem not_meets_exact_same_second :
    ¬ Meets (Watch.step ⟨15, 2, 15⟩) (Exact ⟨15, 2, 15⟩) .start
      [⟨bytes "10.0.0.1", bytes "admin", 1000, 1000⟩,
        ⟨bytes "10.0.0.1", bytes "admin", 1300, 1300⟩,
        ⟨bytes "10.0.0.1", bytes "admin", 1300, 1300⟩] := by
  rintro ⟨-, -, ⟨hiff, -⟩, -⟩
  revert hiff
  decide +kernel

end NoSpam.Login
