import Mathlib.Data.Finset.Prod
import NoSpam.Conf

/-!
# The rate limiter

`AKA::Mail::Dynamic`: for each key of a namespace the time stamps of the calls made for it and,
under `_DENY_TO_`, the end of the ban it is under.  Every call first lets `refresh_info` prune the
namespace when the last pruning is old enough, then records itself, and last counts the stamps
inside the window.
-/

namespace NoSpam.Dynamic

open Text Perl

/-- The record of a key.  A record without stamps and without a ban is an absent one. -/
structure Record where
  stamps : Finset (ℕ × ℕ) := ∅
  denyTo : Option ℕ := none
  deriving DecidableEq

/-- A namespace: the time of the last refresh and the records. -/
structure Namespace where
  lastRefresh : ℕ := 0
  record : Bytes → Record := fun _ => {}

/-- Seconds and microseconds. -/
abbrev Time := ℕ × ℕ

/-- The reserved key of the timer. -/
def timerKey : Bytes := bytes "_AMD_LAST_REFRESH_TIME_"

/-- The key under which calls for `key` are recorded. -/
def recordKey (key : Bytes) : Bytes :=
  if key = timerKey then bytes "__AMD_LAST_REFRESH_TIME__" else key

/-- The longest window. -/
def maxTime : ℕ := 3600

/-- The time between two refreshes. -/
def cleanInterval : ℕ := 600

/-- The longest ban. -/
def maxDenyTime : ℕ := 86400

/-- `refresh_info` on one record: the stamps outside the window are deleted, and with the last of
them the record, whether a ban is left in it or not. -/
def refreshRecord (now sec : ℕ) (r : Record) : Record :=
  let stamps := r.stamps.filter fun t => ¬ now > t.1 + sec
  if stamps = ∅ then {} else { r with stamps }

/-- A refresh is due. -/
def RefreshDue (ns : Namespace) (now : ℕ) : Prop := now > ns.lastRefresh + cleanInterval

instance (ns : Namespace) (now : ℕ) : Decidable (RefreshDue ns now) :=
  inferInstanceAs (Decidable (_ > _))

/-- `refresh_info` when it is due, with the timer set. -/
def refreshInfo (ns : Namespace) (now sec : ℕ) : Namespace :=
  if RefreshDue ns now then
    { lastRefresh := now, record := fun key => refreshRecord now sec (ns.record key) }
  else ns

/-- `add_dynamic_info` on the record of the key. -/
def addDynamicInfo (now : Time) (r : Record) : Record := { r with stamps := insert now r.stamps }

/-- Write a number for a placeholder of a translated text. -/
def expand (placeholder : Bytes) (n : ℕ) (text : Bytes) : Bytes :=
  match findPattern placeholder text with
  | some m => m.1 ++ decimal n ++ m.2
  | none => text

/-- `check_quota_exceed_ex`: whether the key is over its quota, the reason, and its record.  A key
under a ban has its ban extended, unless more than `max_deny_time` of it is left. -/
def checkQuotaExceedEx (tr : Bytes → Bytes) (now num sec denySec : ℕ) (r : Record) :
    Bool × Bytes × Record :=
  let denied (wait : ℕ) : Bytes :=
    expand (bytes "{wait_time}") (wait / 60) (tr (bytes " overrun deny {wait_time} minutes."))
  let count (r : Record) : Bool × Bytes × Record :=
    if (r.stamps.filter fun t => now < t.1 + sec).card > num then
      (true, tr (bytes " overrun"), { r with denyTo := some (now + denySec) })
    else (false, tr (bytes " passed"), r)
  match r.denyTo with
  | some denyTo =>
      if now < denyTo then
        if denyTo - now > maxDenyTime then
          (true, denied maxDenyTime, { r with denyTo := some (now + maxDenyTime) })
        else (true, denied (denyTo - now + denySec), { r with denyTo := some (denyTo + denySec) })
      else count { r with denyTo := none }
  | none => count r

/-- The window a configured number of seconds stands for. -/
def window (sec : ℕ) : ℕ := if sec > maxTime then maxTime else sec

/-- `is_overrun_rate_per_XXX` on one namespace. -/
def isOverrunRatePerXXX (tr : Bytes → Bytes) (attached : Bool) (now : Time) (key : Bytes)
    (num sec denySec : ℕ) (ns : Namespace) : Bool × Bytes × Namespace :=
  if num = 0 || sec = 0 then (false, tr (bytes "passed"), ns)
  else if !isTrue key then (false, tr (bytes "need param"), ns)
  else if !attached then (false, tr (bytes "db failure"), ns)
  else
    let ns' := refreshInfo ns now.1 (window sec)
    let answer := checkQuotaExceedEx tr now.1 num (window sec) denySec
      (addDynamicInfo now (ns'.record (recordKey key)))
    (answer.1, answer.2.1,
      { ns' with record := Function.update ns'.record (recordKey key) answer.2.2 })

/-! ## The configured rates -/

/-- The regular expression captures `$1`, `$2` and `$3`. -/
structure Captures where
  c1 : Option Bytes := none
  c2 : Option Bytes := none
  c3 : Option Bytes := none
  deriving DecidableEq

/-- `num/sec/deny_sec` or `num/sec` as the three subs read them.  `caps` are the captures of the
last match in the caller: they remain visible where the first match fails. -/
def parseRate (caps : Captures) (rate : Bytes) : Captures :=
  let caps := match findRuns 47 2 rate with
    | some [a, b, c] => ⟨some a, some b, some c⟩
    | _ => caps
  if caps.c3.isSome then caps
  else
    match findRuns 47 1 rate with
    | some [a, b] => ⟨some a, some b, none⟩
    | _ => caps

/-- The number a capture stands for. -/
def captured (c : Option Bytes) : ℕ := (num (c.getD [])).toNat

/-- The common body of `is_overrun_rate_per_subject`, `is_overrun_rate_per_mailfrom` and
`is_overrun_rate_per_ip`. -/
def isOverrunRatePer (tr : Bytes → Bytes) (attached : Bool) (now : Time) (caps : Captures)
    (rate key : Bytes) (ns : Namespace) : Bool × Bytes × Namespace :=
  if !isTrue key then (false, tr (bytes "need param"), ns)
  else
    let c := parseRate caps rate
    if c.c1.isNone || c.c2.isNone then (false, tr (bytes "not set"), ns)
    else
      isOverrunRatePerXXX tr attached now key (captured c.c1) (captured c.c2) (captured c.c3) ns

/-- The tied hash: one namespace for each kind of key. -/
structure DynamicInfo where
  subject : Namespace := {}
  fromNs : Namespace := {}
  ip : Namespace := {}

section PerKind

variable (tr : Bytes → Bytes) (attached : Bool) (now : Time) (caps : Captures)
  (cfg : Conf.DynamicEngine) (key : Bytes) (info : DynamicInfo)

/-- `is_overrun_rate_per_subject`. -/
def isOverrunRatePerSubject : Bool × Bytes × DynamicInfo :=
  let r := isOverrunRatePer tr attached now caps (orElse cfg.sendRatePerSubject (bytes "0/0/0")) key
    info.subject
  (r.1, r.2.1, { info with subject := r.2.2 })

/-- `is_overrun_rate_per_mailfrom`. -/
def isOverrunRatePerMailfrom : Bool × Bytes × DynamicInfo :=
  let r := isOverrunRatePer tr attached now caps (orElse cfg.sendRatePerFrom (bytes "0/0/0")) key
    info.fromNs
  (r.1, r.2.1, { info with fromNs := r.2.2 })

/-- `is_overrun_rate_per_ip`. -/
def isOverrunRatePerIp : Bool × Bytes × DynamicInfo :=
  let r := isOverrunRatePer tr attached now caps (orElse cfg.connRatePerIP (bytes "0/0/0")) key
    info.ip
  (r.1, r.2.1, { info with ip := r.2.2 })

end PerKind

/-! ## Refresh and recording, record by record -/

@[simp] theorem record_refreshInfo (ns : Namespace) (now sec : ℕ) (key : Bytes) :
    (refreshInfo ns now sec).record key =
      if RefreshDue ns now then refreshRecord now sec (ns.record key) else ns.record key := by
  unfold refreshInfo
  split_ifs <;> rfl

/-- A refresh keeps the ban of a record that keeps a stamp. -/
theorem denyTo_refreshRecord {now sec : ℕ} {r : Record}
    (h : ∃ t ∈ r.stamps, now ≤ t.1 + sec) : (refreshRecord now sec r).denyTo = r.denyTo := by
  obtain ⟨t, ht, hnow⟩ := h
  have hne : (r.stamps.filter fun t => ¬ now > t.1 + sec) ≠ ∅ :=
    Finset.ne_empty_of_mem (Finset.mem_filter.2 ⟨ht, Nat.not_lt.2 hnow⟩)
  simp only [refreshRecord, if_neg hne]

theorem isTrue_recordKey {key : Bytes} (h : isTrue key = true) : isTrue (recordKey key) = true := by
  unfold recordKey
  split_ifs
  · decide
  · exact h

end NoSpam.Dynamic
