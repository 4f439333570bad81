import NoSpam.Dynamic.BanCap
import NoSpam.Dynamic.Window

/-!
# A shared namespace

All senders share a namespace: their calls trigger its refreshes, the rates may change between the
calls, and the administrator deletes keys or all of them.  None of it adds anything to the record of
a key, so the record stays below that of the reference, which sees the calls for the key alone
(`below_record`).  A call is refused only where the reference refuses it, and a key whose own calls
stay within their rates is never refused.
-/

namespace NoSpam.Dynamic

open Text Perl Machine

/-! ## What happens to a namespace -/

/-- `del_dynamic_info_ns_item` on a namespace; to delete the timer is to reset it. -/
def Namespace.delDynamicInfoNsItem (ns : Namespace) (item : Bytes) : Namespace :=
  if !isTrue item then ns
  else if item = timerKey then { ns with lastRefresh := 0 }
  else { ns with record := Function.update ns.record item {} }

/-- `clean_dynamic_info_ns` leaves an empty namespace, whatever there was. -/
def Namespace.cleanDynamicInfoNs (_ns : Namespace) : Namespace := {}

/-- A call, and what the administrator does in between. -/
inductive Event
  | call (c : RatedCall)
  | del (item : Bytes)
  | clean

section Step

variable (tr : Bytes → Bytes)

/-- The call returns overrun. -/
def callOverrun (ns : Namespace) (c : RatedCall) : Bool :=
  (rateAnswer tr c.num c.sec c.denySec ns c.toCall).1

/-- The namespace after an event. -/
def eventStep (ns : Namespace) : Event → Namespace
  | .call c => rateStep tr c.num c.sec c.denySec ns c.toCall
  | .del item => ns.delDynamicInfoNsItem item
  | .clean => ns.cleanDynamicInfoNs

/-- The reference refuses the call. -/
def soleOverrun (r : Record) (c : RatedCall) : Bool :=
  (bareAnswer tr c.num c.sec c.denySec r c.toCall).1

/-- The record of the reference after a call. -/
def soleStep (r : Record) (c : RatedCall) : Record :=
  bareStep tr c.num c.sec c.denySec r c.toCall

end Step

/-- The call is recorded in the same place as calls for the key. -/
def Own (key : Bytes) (c : RatedCall) : Prop := recordKey c.key = recordKey key

instance (key : Bytes) (c : RatedCall) : Decidable (Own key c) :=
  inferInstanceAs (Decidable (_ = _))

/-- The calls for a key. -/
def ownCalls (key : Bytes) : List Event → List RatedCall
  | [] => []
  | .call c :: events => if Own key c then c :: ownCalls key events else ownCalls key events
  | .del _ :: events => ownCalls key events
  | .clean :: events => ownCalls key events

/-- The call does not find a ban that is moved down to `max_deny_time`. -/
def Uncut (r : Record) (c : RatedCall) : Prop := ∀ d ∈ r.denyTo, d ≤ c.now.1 + maxDenyTime

instance (r : Record) (c : RatedCall) : Decidable (Uncut r c) :=
  inferInstanceAs (Decidable (∀ d ∈ r.denyTo, _))

/-! ## One record below another -/

/-- No stamp that the other does not have, and no ban that ends later. -/
structure Record.Below (r r' : Record) : Prop where
  stamps : r.stamps ⊆ r'.stamps
  denyTo : ∀ d ∈ r.denyTo, ∃ d' ∈ r'.denyTo, d ≤ d'

namespace Record.Below

variable {r r' r'' : Record}

theorem refl (r : Record) : r.Below r := ⟨Finset.Subset.refl _, fun d hd => ⟨d, hd, le_rfl⟩⟩

theorem trans (h : r.Below r') (h' : r'.Below r'') : r.Below r'' where
  stamps := h.stamps.trans h'.stamps
  denyTo d hd := by
    obtain ⟨d', hd', hle⟩ := h.denyTo d hd
    obtain ⟨d'', hd'', hle'⟩ := h'.denyTo d' hd'
    exact ⟨d'', hd'', hle.trans hle'⟩

theorem empty (r : Record) : Record.Below {} r := ⟨Finset.empty_subset _, fun d hd => by cases hd⟩

theorem banned (h : r.Below r') {now : ℕ} (hban : r.Banned now) : r'.Banned now := by
  obtain ⟨d, hd, hnow⟩ := hban
  obtain ⟨d', hd', hle⟩ := h.denyTo d hd
  exact ⟨d', hd', hnow.trans_le hle⟩

theorem refreshRecord (r : Record) (now sec : ℕ) : (refreshRecord now sec r).Below r := by
  unfold Dynamic.refreshRecord
  dsimp only
  split_ifs
  · exact Below.empty r
  · exact ⟨Finset.filter_subset _ _, fun d hd => ⟨d, hd, le_rfl⟩⟩

theorem addDynamicInfo (h : r.Below r') (now : Time) :
    (addDynamicInfo now r).Below (addDynamicInfo now r') :=
  ⟨Finset.insert_subset_insert now h.stamps, h.denyTo⟩

end Record.Below

theorem below_refreshInfo (ns : Namespace) (now sec : ℕ) (key : Bytes) :
    ((refreshInfo ns now sec).record key).Below (ns.record key) := by
  rw [record_refreshInfo]
  split_ifs
  · exact Record.Below.refreshRecord _ _ _
  · exact Record.Below.refl _

/-! ## The quota check keeps the order -/

section Check

variable {tr : Bytes → Bytes} {now num sec denySec : ℕ} {r r' : Record}

/-- A running ban that is not moved down refuses the call and is extended. -/
theorem checkQuotaExceedEx_of_uncut (tr : Bytes → Bytes) (num sec denySec : ℕ) {d : ℕ}
    (hd : r.denyTo = some d) (hnow : now < d) (hcut : d ≤ now + maxDenyTime) :
    (checkQuotaExceedEx tr now num sec denySec r).1 = true ∧
      (checkQuotaExceedEx tr now num sec denySec r).2.2 = ⟨r.stamps, some (d + denySec)⟩ := by
  have hroom : ¬d - now > maxDenyTime := by omega
  simp only [checkQuotaExceedEx, hd, if_pos hnow, if_neg hroom, and_self]

theorem below_checkQuotaExceedEx (h : r.Below r') (hcut : ∀ d ∈ r'.denyTo, d ≤ now + maxDenyTime) :
    ((checkQuotaExceedEx tr now num sec denySec r).1 = true →
      (checkQuotaExceedEx tr now num sec denySec r').1 = true) ∧
    (checkQuotaExceedEx tr now num sec denySec r).2.2.Below
      (checkQuotaExceedEx tr now num sec denySec r').2.2 := by
  by_cases hban' : r'.Banned now
  · obtain ⟨d', hd', hnow'⟩ := hban'
    obtain ⟨hover, hleft⟩ := checkQuotaExceedEx_of_uncut tr num sec denySec hd' hnow' (hcut d' hd')
    refine ⟨fun _ => hover, ?_, ?_⟩
    · rw [stamps_checkQuotaExceedEx, stamps_checkQuotaExceedEx]
      exact h.stamps
    · -- whatever the smaller record holds, its ban ends by then
      rw [hleft]
      intro e he
      refine ⟨d' + denySec, rfl, ?_⟩
      by_cases hban : r.Banned now
      · obtain ⟨d, hd, hnow⟩ := hban
        obtain ⟨d'', hd'', hle⟩ := h.denyTo d hd
        obtain rfl : d'' = d' := Option.some_inj.1 (hd''.symm.trans hd')
        rw [(checkQuotaExceedEx_of_uncut tr num sec denySec hd hnow
          (hle.trans (hcut _ hd'))).2] at he
        obtain rfl : d + denySec = e := Option.some_inj.1 he
        omega
      · rw [checkQuotaExceedEx_of_not_banned tr now num sec denySec hban] at he
        split_ifs at he
        · obtain rfl : now + denySec = e := Option.some_inj.1 he
          omega
        · cases he
  · have hban : ¬r.Banned now := fun hban => hban' (h.banned hban)
    have hcount : (r.stamps.filter fun t => now < t.1 + sec).card ≤
        (r'.stamps.filter fun t => now < t.1 + sec).card :=
      Finset.card_le_card (Finset.filter_subset_filter _ h.stamps)
    rw [checkQuotaExceedEx_of_not_banned tr now num sec denySec hban,
      checkQuotaExceedEx_of_not_banned tr now num sec denySec hban']
    by_cases hover : (r.stamps.filter fun t => now < t.1 + sec).card > num
    · rw [if_pos hover, if_pos (hover.trans_le hcount)]
      exact ⟨fun _ => rfl, h.stamps, fun d hd => ⟨d, hd, le_rfl⟩⟩
    · rw [if_neg hover]
      refine ⟨fun hfalse => absurd hfalse Bool.false_ne_true, ?_⟩
      split_ifs <;> exact ⟨h.stamps, fun d hd => by cases hd⟩

end Check

/-- The reference passes a call that does not reach the records. -/
theorem bareAnswer_of_not_reaches {tr : Bytes → Bytes} {num sec denySec : ℕ} {c : Call}
    (h : ¬Reaches num sec c) (r : Record) : (bareAnswer tr num sec denySec r c).1 = false := by
  rw [bareAnswer]
  split_ifs with hrate hkey hattached
  · rfl
  · rfl
  · rfl
  · refine absurd ⟨?_, ?_, ?_, ?_⟩ h <;> simp_all [Nat.pos_iff_ne_zero]

/-! ## The record of a key in a run -/

section Run

variable {tr : Bytes → Bytes} {key : Bytes} {ns : Namespace} {r : Record} {c : RatedCall}

/-- An event that is not a call for the key adds nothing to its record. -/
theorem below_eventStep_of_not_own {e : Event} (h : ∀ c, e = .call c → ¬Own key c) :
    ((eventStep tr ns e).record (recordKey key)).Below (ns.record (recordKey key)) := by
  cases e with
  | call c =>
    have hne : recordKey key ≠ recordKey c.key := fun he => h c rfl he.symm
    by_cases hc : Reaches c.num c.sec c.toCall
    · simp only [eventStep, rateStep, rateAnswer_of_reaches hc, Function.update_of_ne hne]
      exact below_refreshInfo _ _ _ _
    · rw [eventStep, (of_not_reaches tr c.denySec hc ns {}).1]
      exact Record.Below.refl _
  | del item =>
    rw [eventStep, Namespace.delDynamicInfoNsItem]
    split_ifs
    · exact Record.Below.refl _
    · exact Record.Below.refl _
    · by_cases hitem : recordKey key = item
      · simp only [hitem, Function.update_self]
        exact Record.Below.empty _
      · simp only [Function.update_of_ne hitem]
        exact Record.Below.refl _
  | clean => exact Record.Below.empty _

/-- A call for the key keeps its record below that of the reference, and is refused only where the
reference refuses it. -/
theorem below_eventStep_of_own (hown : Own key c) (h : (ns.record (recordKey key)).Below r)
    (hcut : Uncut r c) :
    (callOverrun tr ns c = true → soleOverrun tr r c = true) ∧
      ((eventStep tr ns (.call c)).record (recordKey key)).Below (soleStep tr r c) := by
  by_cases hc : Reaches c.num c.sec c.toCall
  · rw [callOverrun, soleOverrun, eventStep, soleStep, rateStep, bareStep, rateAnswer_of_reaches hc,
      bareAnswer_of_reaches hc, ← hown]
    rw [← hown] at h
    simp only [Function.update_self]
    exact below_checkQuotaExceedEx
      (((below_refreshInfo _ _ _ _).trans h).addDynamicInfo c.now) hcut
  · obtain ⟨hns, hr, hout⟩ := of_not_reaches tr c.denySec hc ns r
    rw [eventStep, soleStep, hns, hr]
    refine ⟨fun hover => ?_, h⟩
    rw [soleOverrun]
    rw [callOverrun] at hover
    have hfst := congrArg Prod.fst hout
    simp only [verdict, bareVerdict] at hfst
    rwa [← hfst]

theorem ownCalls_cons_of_own (hown : Own key c) (events : List Event) :
    ownCalls key (.call c :: events) = c :: ownCalls key events := by
  rw [ownCalls, if_pos hown]

theorem ownCalls_cons_of_not_own {e : Event} (h : ∀ c, e = .call c → ¬Own key c)
    (events : List Event) : ownCalls key (e :: events) = ownCalls key events := by
  cases e with
  | call c => rw [ownCalls, if_neg (h c rfl)]
  | del item => rfl
  | clean => rfl

/-- Over a run, the record of a key stays below that of the reference on the calls for it. -/
theorem below_record {events : List Event} (h : (ns.record (recordKey key)).Below r)
    (hcut : Meets (soleStep tr) Uncut r (ownCalls key events)) :
    ((run (eventStep tr) ns events).record (recordKey key)).Below
      (run (soleStep tr) r (ownCalls key events)) := by
  induction events generalizing ns r with
  | nil => exact h
  | cons e events ih =>
    by_cases hown : ∃ c, e = .call c ∧ Own key c
    · obtain ⟨c, rfl, hown⟩ := hown
      rw [ownCalls_cons_of_own hown] at hcut ⊢
      exact ih (below_eventStep_of_own hown h hcut.1).2 hcut.2
    · have hnot : ∀ c, e = .call c → ¬Own key c := fun c he ho => hown ⟨c, he, ho⟩
      rw [ownCalls_cons_of_not_own hnot] at hcut ⊢
      exact ih ((below_eventStep_of_not_own hnot).trans h) hcut

theorem soleOverrun_of_callOverrun {before : List Event}
    (hcut : Meets (soleStep tr) Uncut {} (ownCalls c.key before ++ [c]))
    (h : callOverrun tr (run (eventStep tr) {} before) c = true) :
    soleOverrun tr (run (soleStep tr) {} (ownCalls c.key before)) c = true := by
  rw [meets_append] at hcut
  exact (below_eventStep_of_own rfl (below_record (Record.Below.empty _) hcut.1) hcut.2.1).1 h

/-- **The shared namespace is safe**: whatever the calls for other keys, the refreshes, the changes
of the rates and the administrator do, a call is refused only where the reference, which sees the
calls for its key alone and prunes nothing, refuses it too. -/
theorem refused_by_reference (before : List Event) (c : RatedCall)
    (hcut : Meets (soleStep tr) Uncut {} (ownCalls c.key before ++ [c]))
    (h : callOverrun tr (run (eventStep tr) {} before) c = true) :
    soleOverrun tr (run (soleStep tr) {} (ownCalls c.key before)) c = true :=
  soleOverrun_of_callOverrun hcut h

/-- A call for `key` at a time, one allowed in a minute and an hour of ban. -/
def hourly (key : Bytes) (now : ℕ) : RatedCall := ⟨⟨true, (now, 0), key⟩, 1, 60, 3600⟩

/-- A key over its rate between the calls of another, with the ban of the other deleted. -/
def busy : List Event :=
  [.call (hourly (bytes "a") 1000), .call (hourly (bytes "b") 1001),
    .call (hourly (bytes "a") 1002), .call (hourly (bytes "b") 1003), .del (bytes "b")]

theorem refused_by_reference_busy :
    soleOverrun id (run (soleStep id) {} (ownCalls (bytes "a") busy)) (hourly (bytes "a") 1010) =
      true :=
  refused_by_reference busy (hourly (bytes "a") 1010) (by decide) (by decide)

/-! ## Keys within their rates -/

/-- The stamps after a call. -/
def stampStep (stamps : Finset Time) (c : RatedCall) : Finset Time :=
  if c.Recorded then insert c.now stamps else stamps

/-- The rate of the call allows the stamps in its window, its own one included. -/
def Allowed (stamps : Finset Time) (c : RatedCall) : Prop :=
  c.Recorded → ((insert c.now stamps).filter fun t => c.now.1 < t.1 + window c.sec).card ≤ c.num

instance (stamps : Finset Time) (c : RatedCall) : Decidable (Allowed stamps c) :=
  inferInstanceAs (Decidable (_ → _))

/-- Every call is allowed after the calls before it. -/
def WithinRate (calls : List RatedCall) : Prop := Meets stampStep Allowed ∅ calls

theorem reaches_iff (c : RatedCall) : Reaches c.num c.sec c.toCall ↔ c.Recorded := by
  simp only [Reaches, RatedCall.Recorded, Dynamic.Recorded, Nat.pos_iff_ne_zero]

/-- The reference passes a call that is allowed, and leaves its stamp without a ban. -/
theorem sole_of_allowed (tr : Bytes → Bytes) {stamps : Finset Time} (h : Allowed stamps c) :
    soleOverrun tr ⟨stamps, none⟩ c = false ∧
      soleStep tr ⟨stamps, none⟩ c = ⟨stampStep stamps c, none⟩ := by
  by_cases hc : c.Recorded
  · have hban : ¬(addDynamicInfo c.now ⟨stamps, none⟩).Banned c.now.1 := by
      rintro ⟨d, hd, -⟩
      cases hd
    rw [soleOverrun, soleStep, bareStep, stampStep, if_pos hc,
      bareAnswer_of_reaches ((reaches_iff c).2 hc), checkQuotaExceedEx_of_not_banned _ _ _ _ _ hban]
    have hcount : ¬(((addDynamicInfo c.now ⟨stamps, none⟩).stamps.filter
        fun t => c.now.1 < t.1 + window c.sec).card > c.num) := Nat.not_lt.2 (h hc)
    rw [if_neg hcount]
    exact ⟨rfl, rfl⟩
  · have hnot : ¬Reaches c.num c.sec c.toCall := fun hr => hc ((reaches_iff c).1 hr)
    obtain ⟨-, hr, -⟩ := of_not_reaches tr c.denySec hnot {} ⟨stamps, none⟩
    rw [stampStep, if_neg hc]
    exact ⟨bareAnswer_of_not_reaches hnot _, hr⟩

/-- Keys within their rates never get a ban from the reference. -/
theorem run_sole_of_within {calls : List RatedCall} {stamps : Finset Time}
    (h : Meets stampStep Allowed stamps calls) :
    run (soleStep tr) ⟨stamps, none⟩ calls = ⟨run stampStep stamps calls, none⟩ ∧
      Meets (soleStep tr) Uncut ⟨stamps, none⟩ calls := by
  induction calls generalizing stamps with
  | nil => exact ⟨rfl, trivial⟩
  | cons c calls ih =>
    obtain ⟨hfirst, hrest⟩ := h
    have hstep := (sole_of_allowed tr hfirst).2
    obtain ⟨hrun, hmeets⟩ := ih hrest
    rw [run_cons, run_cons, meets_cons, hstep]
    exact ⟨hrun, (fun d hd => by cases hd), hmeets⟩

theorem callOverrun_of_within {before : List Event}
    (h : WithinRate (ownCalls c.key before ++ [c])) :
    callOverrun tr (run (eventStep tr) {} before) c = false := by
  by_contra hover
  have hsole := soleOverrun_of_callOverrun (run_sole_of_within h).2
    (Bool.eq_true_of_not_eq_false hover)
  rw [WithinRate, meets_append] at h
  have hrun : run (soleStep tr) {} (ownCalls c.key before) = _ := (run_sole_of_within h.1).1
  rw [hrun, (sole_of_allowed tr h.2.1).1] at hsole
  cases hsole

/-- **No one is refused for the traffic of others**: a key whose own calls stay within the rates
they are made under is never refused, whatever else happens to the namespace. -/
theorem passed_within_rate (tr : Bytes → Bytes) (before : List Event) (c : RatedCall)
    (h : WithinRate (ownCalls c.key before ++ [c])) :
    callOverrun tr (run (eventStep tr) {} before) c = false :=
  callOverrun_of_within h

/-- A key within its rate between the calls of another that is not. -/
def modest : List Event :=
  [.call (hourly (bytes "a") 1000), .call (hourly (bytes "b") 1001),
    .call (hourly (bytes "b") 1002)]

theorem passed_within_rate_modest :
    callOverrun id (run (eventStep id) {} modest) (hourly (bytes "a") 1060) = false :=
  passed_within_rate id modest (hourly (bytes "a") 1060) (by unfold WithinRate; decide)

end Run

end NoSpam.Dynamic
