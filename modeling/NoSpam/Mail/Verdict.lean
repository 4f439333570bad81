import NoSpam.Mail.Process

/-!
# The verdict

At the action loop at most one engine has an action that drops the mail: every engine raises the
drop flag exactly when its own action drops the mail, and none runs once the flag is up.  The loop
therefore does the same in every order of the engine hash.
-/

namespace NoSpam

open Text Perl Conf Content Gate

/-- The entry of engine `e` drops the mail. -/
def Drops (a : Aka) (e : Engine) : Prop := ifActionIsDrop (a.engine e).action = true

instance (a : Aka) (e : Engine) : Decidable (Drops a e) := inferInstanceAs (Decidable (_ = _))

/-! ## Each engine settles its own entry -/

/-- From a mail that nothing drops: only engine `e` may have come to drop it, and then the flag is
up. -/
def Settled (e : Engine) (a : Aka) : Prop :=
  (∀ e', e' ≠ e → ¬ Drops a e') ∧ (a.drop = true ↔ Drops a e)

section Settled

variable {a : Aka} {e : Engine}

theorem settled_of_none (hd : ¬ a.drop = true) (hn : ∀ e, ¬ Drops a e) : Settled e a :=
  ⟨fun e' _ => hn e', by simp [hd, hn e]⟩

theorem drops_setEntry_of_ne {x : Entry} {e' : Engine} (h : e' ≠ e) :
    Drops (a.setEntry e x) e' ↔ Drops a e' := by
  rw [Drops, Drops, Aka.engine_setEntry_of_ne _ _ _ _ h]

/-- An entry stored together with the flag it calls for. -/
theorem settled_setEntry_dropIf (hd : ¬ a.drop = true) (hn : ∀ e, ¬ Drops a e) (x : Entry) :
    Settled e ((a.setEntry e x).dropIf (ifActionIsDrop x.action)) := by
  have hd' : a.drop = false := by simpa using hd
  refine ⟨fun e' he' h => hn e' ((drops_setEntry_of_ne he').1 h), ?_⟩
  rw [Drops, Aka.engine_dropIf, Aka.engine_setEntry_self, Aka.drop_dropIf, Aka.drop_setEntry, hd',
    Bool.false_or]

/-- An entry that does not drop the mail, stored without touching the flag. -/
theorem settled_setEntry (hd : ¬ a.drop = true) (hn : ∀ e, ¬ Drops a e) {x : Entry}
    (hx : ifActionIsDrop x.action = false) : Settled e (a.setEntry e x) := by
  refine ⟨fun e' he' h => hn e' ((drops_setEntry_of_ne he').1 h), ?_⟩
  rw [Drops, Aka.engine_setEntry_self, Aka.drop_setEntry, hx]
  simpa using hd

end Settled

section Engines

variable (cfg : Config) (o : Outside) {a : Aka}

theorem settled_quarantineEngine (hd : ¬ a.drop = true) (hn : ∀ e, ¬ Drops a e) :
    Settled .quarantine (quarantineEngine cfg o a) := by
  unfold quarantineEngine
  split_ifs
  · exact settled_of_none hd hn
  · cases quarantineEntry cfg o a with
    | some x =>
      simp only [Aka.engine_setEntry_self]
      exact settled_setEntry_dropIf hd hn x
    | none =>
      have hq : ifActionIsDrop (a.engine .quarantine).action = false := by
        simpa [Drops] using hn .quarantine
      refine settled_of_none ?_ hn
      simp only [Aka.drop_dropIf, hq, Bool.or_false]
      exact hd

theorem action_antivirusSkips {x : Entry} (h : antivirusSkips cfg o a = some x) :
    x.action = actionPass := by
  unfold antivirusSkips at h
  dsimp only at h
  split_ifs at h <;> (cases h; rfl)

theorem settled_antivirusEngine (hd : ¬ a.drop = true) (hn : ∀ e, ¬ Drops a e) :
    Settled .antivirus (antivirusEngine cfg o a) := by
  unfold antivirusEngine
  cases hx : antivirusSkips cfg o a with
  | some x =>
    refine settled_setEntry hd hn ?_
    rw [action_antivirusSkips cfg o hx]
    exact ifActionIsDrop_pass
  | none =>
    simp only [Aka.engine_setEntry_self]
    exact settled_setEntry_dropIf hd hn _

theorem action_dynamicSkips {x : Entry} (h : dynamicSkips cfg o a = some x) :
    x.action = actionPass := by
  unfold dynamicSkips at h
  dsimp only at h
  split_ifs at h <;> (cases h; rfl)

/-- A check that decides raises the flag exactly when its entry drops the mail. -/
theorem drop_dynamicCheck {key whiteDesc overrunDesc : Bytes} {white : Bool}
    {limiter : Dynamic.DynamicInfo → Bool × Bytes × Dynamic.DynamicInfo}
    {info info' : Dynamic.DynamicInfo} {x : Entry} {drop : Bool}
    (h : dynamicCheck key white whiteDesc overrunDesc limiter info = (some (x, drop), info')) :
    drop = ifActionIsDrop x.action := by
  unfold dynamicCheck at h
  dsimp only at h
  split_ifs at h
  all_goals
    simp only [Prod.mk.injEq, Option.some.injEq, reduceCtorEq, false_and] at h
  all_goals
    obtain ⟨⟨rfl, rfl⟩, -⟩ := h
    rfl

theorem drop_dynamicChecks {info info' : Dynamic.DynamicInfo} {x : Entry} {drop : Bool}
    (h : dynamicChecks cfg o a info = (some (x, drop), info')) :
    drop = ifActionIsDrop x.action := by
  unfold dynamicChecks at h
  split at h
  · rename_i hm
    cases h
    exact drop_dynamicCheck hm
  · split at h
    · rename_i hs
      cases h
      exact drop_dynamicCheck hs
    · exact drop_dynamicCheck h

theorem settled_dynamicEngine (info : Dynamic.DynamicInfo) (hd : ¬ a.drop = true)
    (hn : ∀ e, ¬ Drops a e) : Settled .dynamic (dynamicEngine cfg o a info).1 := by
  unfold dynamicEngine
  cases hx : dynamicSkips cfg o a with
  | some x =>
    refine settled_setEntry hd hn ?_
    rw [action_dynamicSkips cfg o hx]
    exact ifActionIsDrop_pass
  | none =>
    dsimp only
    split
    · rename_i x drop info' hc
      rw [drop_dynamicChecks cfg o hc]
      exact settled_setEntry_dropIf hd hn x
    · exact settled_setEntry hd hn ifActionIsDrop_pass

theorem settled_spamEngine (hd : ¬ a.drop = true) (hn : ∀ e, ¬ Drops a e) :
    Settled .spam (spamEngine cfg o a) := by
  unfold spamEngine
  simp only [Aka.engine_setEntry_self]
  exact settled_setEntry_dropIf hd hn _

theorem action_contentSkips {x : Entry} (h : contentSkips cfg o a = some x) :
    x.action = actionPass := by
  unfold contentSkips at h
  dsimp only at h
  split_ifs at h <;> (cases h; rfl)

theorem settled_contentEngine (file : Option Bytes) (c : Filter) (hd : ¬ a.drop = true)
    (hn : ∀ e, ¬ Drops a e) : Settled .content (contentEngine cfg o file a c).1 := by
  unfold contentEngine
  cases hx : contentSkips cfg o a with
  | some x =>
    refine settled_setEntry hd hn ?_
    rw [action_contentSkips cfg o hx]
    exact ifActionIsDrop_pass
  | none =>
    simp only [Aka.engine_setEntry_self]
    exact settled_setEntry_dropIf hd hn _

theorem action_archiveEntry (isFile : Bool) :
    (archiveEntry cfg o isFile a).action = actionPass := by
  unfold archiveEntry
  split_ifs <;> rfl

theorem drops_archiveEngine (isFile : Bool) (e : Engine) :
    Drops (archiveEngine cfg o isFile a) e ↔ e ≠ .archive ∧ Drops a e := by
  unfold archiveEngine
  by_cases he : e = .archive
  · subst he
    rw [Drops, Aka.engine_setEntry_self, action_archiveEntry]
    simp
  · simp [drops_setEntry_of_ne he, he]

end Engines

/-! ## The pipeline -/

namespace Mail

variable (o : Outside)

/-- At most one engine drops the mail. -/
def Unique (a : Aka) : Prop := ∀ e e', Drops a e → Drops a e' → e = e'

/-- The hit and the flag of the pipeline. -/
abbrev Sole (m : Mail) : Prop := Exclusive (fun m : Mail => Drops m.aka) Dropped m

theorem start_drops_nothing (m : Mail) (e : Engine) : ¬ Drops (m.start o).aka e := by
  have h : (m.start o).aka.engine = (initEngineInfo o.tr m.aka).engine := by
    unfold start getMailBaseInfo readEnvelope
    dsimp only
    split
    · rfl
    · split_ifs <;> rfl
  rw [Drops, h, ifActionIsDrop_initEngineInfo]
  decide

theorem sole_firstStages {m : Mail} (h : Sole m) : Sole (firstStages o m) := by
  refine Stage.exclusive (i := .spam) ?_ (Stage.exclusive (i := .dynamic) ?_
    (Stage.exclusive (i := .antivirus) ?_ (Stage.exclusive (i := .quarantine) ?_ h)))
  · exact fun m hd hn => settled_spamEngine m.config o hd hn
  · exact fun m hd hn => settled_dynamicEngine m.config o m.dynamicInfo hd hn
  · exact fun m hd hn => settled_antivirusEngine m.config o hd hn
  · exact fun m hd hn => settled_quarantineEngine m.config o hd hn

/-- At the action loop at most one engine drops the mail. -/
theorem unique_runEngines (m : Mail) : Unique ((m.start o).runEngines o).aka := by
  have key : ∀ m : Mail, (∀ e, ¬ Drops m.aka e) →
      Unique (Gate.guarded Dropped (contentStage o) (firstStages o m)).aka := by
    intro m hn
    by_cases hd : Dropped m
    · have hid : Gate.guarded Dropped (contentStage o) (firstStages o m) = m := by
        simp [Gate.guarded, firstStages, hd]
      rw [hid]
      exact fun e _ he => absurd he (hn e)
    · have hsole := sole_firstStages o (Exclusive.of_none hd hn)
      refine (Stage.exclusive (i := .content) ?_ hsole).unique
      exact fun m hd hn => settled_contentEngine m.config o _ m.content hd hn
  intro e e' he he'
  unfold runEngines archiveStage at he he'
  exact key (m.start o) (start_drops_nothing o m) e e'
    ((drops_archiveEngine _ o _ e).1 he).2 ((drops_archiveEngine _ o _ e').1 he').2

/-- The loop acts on the first engine in its order that drops the mail. -/
theorem actionLoop_eq (m : Mail) (order : List Engine) :
    actionLoop o order m = (order.find? fun e => Drops m.aka e).map fun e => m.act o e := by
  induction order with
  | nil => rfl
  | cons e es ih =>
    by_cases h : Drops m.aka e
    · have htrue := isTrue_of_ifActionIsDrop h
      have hpass : (m.aka.engine e).action ≠ actionPass := by
        intro hp
        rw [Drops, hp, ifActionIsDrop_pass] at h
        cases h
      have hdrop := h
      simp only [Drops, ifActionIsDrop, Bool.or_eq_true, decide_eq_true_eq] at hdrop
      rw [List.find?_cons_of_pos (by simpa using h), Option.map_some, actionLoop]
      simp only [htrue, hpass, Bool.not_true, Bool.false_eq_true, if_false]
      split_ifs with hr hd hq
      · rfl
      · rfl
      · rfl
      · exact absurd hdrop (by simp [hr, hd, hq])
    · rw [List.find?_cons_of_neg (by simpa using h), ← ih, actionLoop]
      simp only [Drops, ifActionIsDrop, Bool.or_eq_true, decide_eq_true_eq, not_or] at h
      simp only [h.1.1, h.1.2, h.2, if_false, ite_self]

/-- The engine in pipeline order whose action decides about the mail. -/
def decider (m : Mail) : Option Engine := Engine.all.find? fun e => Drops m.aka e

/-- The end of a mail as the first engine in pipeline order that drops it decides. -/
def verdict (m : Mail) : Mail :=
  match decider m with
  | some e => m.act o e
  | none => (actionRcpts m).requeue o

theorem finish_eq_verdict {m : Mail} (h : Unique m.aka) (order : HashOrder) :
    m.finish o order = m.verdict o := by
  have hfind : order.1.find? (fun e => Drops m.aka e) = decider m :=
    find?_eq_of_perm order.2 fun e e' he he' => h e e' (by simpa using he) (by simpa using he')
  rw [finish, actionLoop_eq, hfind, verdict]
  cases decider m <;> rfl

theorem process_verdict (m : Mail) (order : HashOrder) :
    m.process o order =
      if m.licenseOk then ((m.start o).runEngines o).verdict o else (m.start o).requeue o := by
  rw [process, finish_eq_verdict o (unique_runEngines o m)]
  cases m.licenseOk <;> rfl

theorem process_of_licensed {m : Mail} (h : m.licenseOk = true) (order : HashOrder) :
    m.process o order = ((m.start o).runEngines o).verdict o := by
  rw [process_verdict, if_pos h]

/-- Without a licence the mail is passed on as it is. -/
theorem process_of_unlicensed {m : Mail} (h : m.licenseOk = false) (order : HashOrder) :
    m.process o order = (m.start o).requeue o := by
  rw [process_verdict, h, if_neg Bool.false_ne_true]

/-- An engine that drops the mail decides about it. -/
theorem decider_eq_some {m : Mail} (h : Unique m.aka) {e : Engine} (he : Drops m.aka e) :
    decider m = some e := by
  cases hf : decider m with
  | some e' => rw [h e' e (by simpa using List.find?_some hf) he]
  | none => exact absurd he (by simpa using List.find?_eq_none.1 hf e e.mem_all)

/-- **The verdict does not depend on the order of the engine hash**: at most one engine drops the
mail, and in every order the mail ends as the first of them in pipeline order decides. -/
theorem process_eq_verdict (m : Mail) :
    Unique ((m.start o).runEngines o).aka ∧
      ∀ order, m.process o order =
        if m.licenseOk then ((m.start o).runEngines o).verdict o else (m.start o).requeue o :=
  ⟨unique_runEngines o m, process_verdict o m⟩

end Mail

end NoSpam
