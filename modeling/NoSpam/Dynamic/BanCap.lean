import NoSpam.Dynamic.Ban

/-!
# The longest ban

Runs of calls in one namespace, each under a rate of its own, with the time of the last call for
every key beside the namespace.  A ban is too long where it is extended while it has less than
`max_deny_time` left, or begins with a configured time that is longer (`capped_iff_meets`).
-/

namespace NoSpam.Dynamic

open Text Perl Machine

/-- A call with the rate it is made under. -/
structure RatedCall extends Call where
  num : ℕ
  sec : ℕ
  denySec : ℕ

/-- A namespace, and when the last call for each key was made. -/
structure Clocked where
  ns : Namespace := {}
  last : Bytes → ℕ := fun _ => 0

/-- No ban ends later than `max_deny_time` after the last call for its key. -/
def Capped (s : Clocked) : Prop :=
  ∀ key, ∀ d ∈ (s.ns.record key).denyTo, d ≤ s.last key + maxDenyTime

/-- The call gets as far as the record of its key. -/
def RatedCall.Recorded (c : RatedCall) : Prop :=
  c.num ≠ 0 ∧ c.sec ≠ 0 ∧ isTrue c.key = true ∧ c.attached = true

instance (c : RatedCall) : Decidable c.Recorded := inferInstanceAs (Decidable (_ ∧ _ ∧ _ ∧ _))

section Cap

variable (tr : Bytes → Bytes)

/-- The namespace and the clocks after a call. -/
def clockedStep (s : Clocked) (c : RatedCall) : Clocked where
  ns := (isOverrunRatePerXXX tr c.attached c.now c.key c.num c.sec c.denySec s.ns).2.2
  last := Function.update s.last (recordKey c.key) c.now.1

/-- The record that a call finds after the refresh, with its own stamp. -/
def found (ns : Namespace) (c : RatedCall) : Record :=
  addDynamicInfo c.now ((refreshInfo ns c.now.1 (window c.sec)).record (recordKey c.key))

/-- The stamps of the record are more than the quota. -/
def OverQuota (r : Record) (c : RatedCall) : Prop :=
  c.num < (r.stamps.filter fun t => c.now.1 < t.1 + window c.sec).card

/-- A running ban with at most `max_deny_time` left has room for its extension, and one that begins
is short enough.  A call that does not get as far leaves a ban that is short enough. -/
def WithinCap (s : Clocked) (c : RatedCall) : Prop :=
  if c.Recorded then
    match (found s.ns c).denyTo with
    | some d =>
        if c.now.1 < d then d ≤ c.now.1 + maxDenyTime → d + c.denySec ≤ c.now.1 + maxDenyTime
        else OverQuota (found s.ns c) c → c.denySec ≤ maxDenyTime
    | none => OverQuota (found s.ns c) c → c.denySec ≤ maxDenyTime
  else ∀ d ∈ (s.ns.record (recordKey c.key)).denyTo, d ≤ c.now.1 + maxDenyTime

variable {tr} {s : Clocked} {c : RatedCall}

theorem clockedStep_of_not_recorded (h : ¬c.Recorded) : (clockedStep tr s c).ns = s.ns := by
  rw [clockedStep, isOverrunRatePerXXX]
  split_ifs with hrate hkey hattached
  · rfl
  · rfl
  · rfl
  · simp only [Bool.or_eq_true, decide_eq_true_eq, not_or] at hrate
    simp only [Bool.not_eq_true, Bool.not_eq_false'] at hkey hattached
    exact absurd ⟨hrate.1, hrate.2, by simpa using hkey, by simpa using hattached⟩ h

/-- The record of the key after a call. -/
theorem record_self (h : c.Recorded) :
    (clockedStep tr s c).ns.record (recordKey c.key) =
      (checkQuotaExceedEx tr c.now.1 c.num (window c.sec) c.denySec (found s.ns c)).2.2 := by
  obtain ⟨hnum, hsec, hkey, hattached⟩ := h
  simp only [clockedStep, isOverrunRatePerXXX, hnum, hsec, hkey, hattached, found]
  simp

/-- The record of another key after a call. -/
theorem record_other (h : c.Recorded) {key : Bytes} (hkey : key ≠ recordKey c.key) :
    (clockedStep tr s c).ns.record key =
      (refreshInfo s.ns c.now.1 (window c.sec)).record key := by
  obtain ⟨hnum, hsec, htrue, hattached⟩ := h
  simp only [clockedStep, isOverrunRatePerXXX, hnum, hsec, htrue, hattached]
  simp [Function.update_of_ne hkey]

/-- The ban that is left in the record. -/
theorem denyTo_checkQuotaExceedEx_le_iff (r : Record) :
    (∀ d ∈ (checkQuotaExceedEx tr c.now.1 c.num (window c.sec) c.denySec r).2.2.denyTo,
        d ≤ c.now.1 + maxDenyTime) ↔
      match r.denyTo with
      | some d =>
          if c.now.1 < d then d ≤ c.now.1 + maxDenyTime → d + c.denySec ≤ c.now.1 + maxDenyTime
          else OverQuota r c → c.denySec ≤ maxDenyTime
      | none => OverQuota r c → c.denySec ≤ maxDenyTime := by
  cases hban : r.denyTo with
  | none =>
    by_cases hover : OverQuota r c
    · have hcount : (r.stamps.filter fun t => c.now.1 < t.1 + window c.sec).card > c.num := hover
      simp only [checkQuotaExceedEx, hban, if_pos hcount, Option.mem_some_iff, forall_eq', hover,
        true_imp_iff]
      omega
    · have hcount : ¬(r.stamps.filter fun t => c.now.1 < t.1 + window c.sec).card > c.num := hover
      simp only [checkQuotaExceedEx, hban, if_neg hcount]
      exact iff_of_true (fun d hd => by cases hd) fun h => absurd h hover
  | some d =>
    by_cases hnow : c.now.1 < d
    · simp only [checkQuotaExceedEx, hban, if_pos hnow]
      by_cases hlong : d - c.now.1 > maxDenyTime
      · simp only [if_pos hlong, Option.mem_some_iff, forall_eq']
        omega
      · simp only [if_neg hlong, Option.mem_some_iff, forall_eq']
        omega
    · by_cases hover : OverQuota r c
      · have hcount : (r.stamps.filter fun t => c.now.1 < t.1 + window c.sec).card > c.num := hover
        simp only [checkQuotaExceedEx, hban, if_neg hnow, if_pos hcount, Option.mem_some_iff,
          forall_eq', hover, true_imp_iff]
        omega
      · have hcount : ¬(r.stamps.filter fun t => c.now.1 < t.1 + window c.sec).card > c.num := hover
        simp only [checkQuotaExceedEx, hban, if_neg hnow, if_neg hcount]
        exact iff_of_true (fun d hd => by cases hd) fun h => absurd h hover

/-- The ban of the key after a call is short enough if and only if the call is within the cap. -/
theorem withinCap_iff (tr : Bytes → Bytes) :
    WithinCap s c ↔ ∀ d ∈ ((clockedStep tr s c).ns.record (recordKey c.key)).denyTo,
      d ≤ c.now.1 + maxDenyTime := by
  rw [WithinCap]
  split_ifs with h
  · rw [record_self h, denyTo_checkQuotaExceedEx_le_iff]
  · rw [clockedStep_of_not_recorded h]

/-- A call leaves the other keys no longer ban than they had. -/
theorem denyTo_other {key : Bytes} (hkey : key ≠ recordKey c.key) {d : ℕ}
    (hd : d ∈ ((clockedStep tr s c).ns.record key).denyTo) : d ∈ (s.ns.record key).denyTo := by
  by_cases h : c.Recorded
  · rw [record_other h hkey, record_refreshInfo] at hd
    split_ifs at hd with hdue
    · rw [refreshRecord] at hd
      split_ifs at hd
      · cases hd
      · exact hd
    · exact hd
  · rwa [clockedStep_of_not_recorded h] at hd

/-- A call within the cap keeps every ban short enough. -/
theorem Capped.step (hs : Capped s) (hc : WithinCap s c) : Capped (clockedStep tr s c) := by
  intro key d hd
  by_cases hkey : key = recordKey c.key
  · have hlast : (clockedStep tr s c).last key = c.now.1 := by
      rw [hkey]
      exact Function.update_self ..
    rw [hlast]
    rw [hkey] at hd
    exact (withinCap_iff tr).1 hc d hd
  · have hlast : (clockedStep tr s c).last key = s.last key := Function.update_of_ne hkey ..
    rw [hlast]
    exact hs key d (denyTo_other hkey hd)

theorem withinCap_of_capped (h : Capped (clockedStep tr s c)) : WithinCap s c := by
  refine (withinCap_iff tr).2 fun d hd => ?_
  have hle := h (recordKey c.key) d hd
  have hlast : (clockedStep tr s c).last (recordKey c.key) = c.now.1 := Function.update_self ..
  rwa [hlast] at hle

/-- **The longest ban**: in a run no ban ever ends later than `max_deny_time` after the last call
for its key if and only if every call of the run is within the cap. -/
theorem capped_iff_meets (tr : Bytes → Bytes) (calls : List RatedCall) :
    (∀ calls', calls' <+: calls → Capped (run (clockedStep tr) {} calls')) ↔
      Meets (clockedStep tr) WithinCap {} calls :=
  forall_prefix_iff_meets (fun _ hs => hs) (fun _ _ hs hc => hs.step hc)
    (fun _ _ _ h => withinCap_of_capped h) fun key d hd => by cases hd

end Cap

/-- A key that goes over a quota of one call and calls again, under a ban of a day. -/
def overAndAgain : List RatedCall :=
  [⟨⟨true, (1000, 0), bytes "k"⟩, 1, 60, 86400⟩, ⟨⟨true, (1000, 1), bytes "k"⟩, 1, 60, 86400⟩,
    ⟨⟨true, (1001, 0), bytes "k"⟩, 1, 60, 86400⟩]

/-- The third call moves the end of the ban from 87400 to 173800. -/
theorem not_forall_capped : ¬∀ calls, Capped (run (clockedStep id) {} calls) := by
  intro h
  have hle := h overAndAgain (bytes "k") 173800 (by decide +kernel)
  have hlast : (run (clockedStep id) {} overAndAgain).last (bytes "k") = 1001 := by decide +kernel
  rw [hlast] at hle
  exact absurd hle (by decide)

end NoSpam.Dynamic
