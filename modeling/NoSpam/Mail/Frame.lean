import NoSpam.Mail.Verdict

/-!
# What the steps leave alone

Every engine writes its own entry of the engine hash and the drop flag, and nothing else that is
known about the mail.  And apart from the content engine, nothing that happens to a mail looks at
the content filter (`Blind`).
-/

namespace NoSpam

open Text Perl Conf Content Gate

/-- Entry `e` and the flag may have changed, and nothing else. -/
def Writes (e : Engine) (a b : Aka) : Prop := ∃ x c, b = (a.setEntry e x).dropIf c

section Writes

variable {e : Engine} {a b : Aka}

theorem Writes.refl (e : Engine) (a : Aka) : Writes e a a := by
  refine ⟨a.engine e, false, ?_⟩
  unfold Aka.setEntry Aka.dropIf
  rw [Function.update_eq_self, Bool.or_false]

theorem Writes.setEntry (x : Entry) : Writes e a (a.setEntry e x) :=
  ⟨x, false, by rw [Aka.dropIf, Bool.or_false]⟩

theorem Writes.setEntry_dropIf (x : Entry) (c : Bool) : Writes e a ((a.setEntry e x).dropIf c) :=
  ⟨x, c, rfl⟩

theorem Writes.engine_of_ne (h : Writes e a b) {e' : Engine} (he : e' ≠ e) :
    b.engine e' = a.engine e' := by
  obtain ⟨x, c, rfl⟩ := h
  rw [Aka.engine_dropIf, Aka.engine_setEntry_of_ne _ _ _ _ he]

variable (cfg : Config) (o : Outside)

theorem writes_quarantineEngine : Writes .quarantine a (quarantineEngine cfg o a) := by
  unfold quarantineEngine
  split_ifs
  · exact Writes.refl _ _
  · cases quarantineEntry cfg o a with
    | some x => exact Writes.setEntry_dropIf x _
    | none => exact ⟨a.engine .quarantine, _, by
        rw [Aka.setEntry, Function.update_eq_self]⟩

theorem writes_antivirusEngine : Writes .antivirus a (antivirusEngine cfg o a) := by
  unfold antivirusEngine
  cases antivirusSkips cfg o a with
  | some x => exact Writes.setEntry x
  | none => exact Writes.setEntry_dropIf _ _

theorem writes_dynamicEngine (info : Dynamic.DynamicInfo) :
    Writes .dynamic a (dynamicEngine cfg o a info).1 := by
  unfold dynamicEngine
  cases dynamicSkips cfg o a with
  | some x => exact Writes.setEntry x
  | none =>
    dsimp only
    split
    · exact Writes.setEntry_dropIf _ _
    · exact Writes.setEntry _

theorem writes_spamEngine : Writes .spam a (spamEngine cfg o a) := Writes.setEntry_dropIf _ _

theorem writes_contentEngine (file : Option Bytes) (c : Filter) :
    Writes .content a (contentEngine cfg o file a c).1 := by
  unfold contentEngine
  cases contentSkips cfg o a with
  | some x => exact Writes.setEntry x
  | none => exact Writes.setEntry_dropIf _ _

theorem writes_archiveEngine (isFile : Bool) : Writes .archive a (archiveEngine cfg o isFile a) :=
  Writes.setEntry _

end Writes

namespace Mail

/-- The same mail, apart from the engines' entries and their own data. -/
structure SameMail (m m' : Mail) : Prop where
  config : m'.config = m.config
  licenseOk : m'.licenseOk = m.licenseOk
  fs : m'.fs = m.fs
  sent : m'.sent = m.sent
  aka : m'.aka = { m.aka with engine := m'.aka.engine, drop := m'.aka.drop }

section SameMail

variable {m m' m'' : Mail} {e : Engine}

theorem SameMail.refl (m : Mail) : SameMail m m := ⟨rfl, rfl, rfl, rfl, rfl⟩

theorem SameMail.trans (h : SameMail m m') (h' : SameMail m' m'') : SameMail m m'' := by
  refine ⟨h'.config.trans h.config, h'.licenseOk.trans h.licenseOk, h'.fs.trans h.fs,
    h'.sent.trans h.sent, ?_⟩
  have haka := h'.aka
  rw [h.aka] at haka
  exact haka

theorem SameMail.of_writes (h : Writes e m.aka m'.aka) (hconfig : m'.config = m.config)
    (hlic : m'.licenseOk = m.licenseOk) (hfs : m'.fs = m.fs) (hsent : m'.sent = m.sent) :
    SameMail m m' := by
  obtain ⟨x, c, hx⟩ := h
  refine ⟨hconfig, hlic, hfs, hsent, ?_⟩
  rw [hx]
  rfl

/-- A stage that writes entry `e`. -/
def StageWrites (e : Engine) (f : Mail → Mail) : Prop :=
  ∀ m, SameMail m (f m) ∧ Writes e m.aka (f m).aka

theorem stageWrites_guarded {f : Mail → Mail} (h : StageWrites e f) :
    StageWrites e (guarded Dropped f) := by
  intro m
  unfold guarded
  split_ifs
  · exact ⟨SameMail.refl m, Writes.refl e m.aka⟩
  · exact h m

variable (o : Outside)

theorem stageWrites_quarantineStage : StageWrites .quarantine (quarantineStage o) := fun m =>
  have h := writes_quarantineEngine (a := m.aka) m.config o
  ⟨.of_writes h rfl rfl rfl rfl, h⟩

theorem stageWrites_antivirusStage : StageWrites .antivirus (antivirusStage o) := fun m =>
  have h := writes_antivirusEngine (a := m.aka) m.config o
  ⟨.of_writes h rfl rfl rfl rfl, h⟩

theorem stageWrites_dynamicStage : StageWrites .dynamic (dynamicStage o) := fun m =>
  have h := writes_dynamicEngine (a := m.aka) m.config o m.dynamicInfo
  ⟨.of_writes h rfl rfl rfl rfl, h⟩

theorem stageWrites_spamStage : StageWrites .spam (spamStage o) := fun m =>
  have h := writes_spamEngine (a := m.aka) m.config o
  ⟨.of_writes h rfl rfl rfl rfl, h⟩

theorem stageWrites_contentStage : StageWrites .content (contentStage o) := fun m =>
  have h := writes_contentEngine (a := m.aka) m.config o (m.fs m.aka.emlfilename) m.content
  ⟨.of_writes h rfl rfl rfl rfl, h⟩

theorem stageWrites_archiveStage : StageWrites .archive (archiveStage o) := fun m =>
  have h := writes_archiveEngine (a := m.aka) m.config o (m.fs m.aka.emlfilename).isSome
  ⟨.of_writes h rfl rfl rfl rfl, h⟩

/-- The pipeline changes only entries and the flag, and the quarantine entry only in its first
stage. -/
theorem runEngines_frame (m : Mail) :
    SameMail m (m.runEngines o) ∧
      (m.runEngines o).aka.engine .quarantine =
        (guarded Dropped (quarantineStage o) m).aka.engine .quarantine := by
  have h₁ := stageWrites_guarded (stageWrites_quarantineStage o) m
  have h₂ := stageWrites_guarded (stageWrites_antivirusStage o)
    (guarded Dropped (quarantineStage o) m)
  have h₃ := stageWrites_guarded (stageWrites_dynamicStage o)
    (guarded Dropped (antivirusStage o) (guarded Dropped (quarantineStage o) m))
  have h₄ := stageWrites_guarded (stageWrites_spamStage o) (guarded Dropped (dynamicStage o)
    (guarded Dropped (antivirusStage o) (guarded Dropped (quarantineStage o) m)))
  have h₅ := stageWrites_guarded (stageWrites_contentStage o) (firstStages o m)
  have h₆ := stageWrites_archiveStage o (guarded Dropped (contentStage o) (firstStages o m))
  refine ⟨h₁.1.trans (h₂.1.trans (h₃.1.trans (h₄.1.trans (h₅.1.trans h₆.1)))), ?_⟩
  exact (h₆.2.engine_of_ne (by decide)).trans ((h₅.2.engine_of_ne (by decide)).trans
    ((h₄.2.engine_of_ne (by decide)).trans ((h₃.2.engine_of_ne (by decide)).trans
      (h₂.2.engine_of_ne (by decide)))))

end SameMail

/-! ## What does not look at the content filter -/

section Blind

/-- The same mail in an object with another content filter. -/
def withContent (c : Filter) (m : Mail) : Mail := { m with content := c }

/-- The step does the same to everything else, whatever the content filter. -/
def Blind (f : Mail → Mail) : Prop := ∀ m c, ∃ c', f (m.withContent c) = (f m).withContent c'

variable (o : Outside)

theorem Blind.comp {f g : Mail → Mail} (hf : Blind f) (hg : Blind g) : Blind fun m => f (g m) := by
  intro m c
  obtain ⟨c', hc'⟩ := hg m c
  show ∃ c'', f (g (m.withContent c)) = _
  rw [hc']
  exact hf _ _

theorem withContent_start (m : Mail) (c : Filter) :
    (m.withContent c).start o = (m.start o).withContent c := rfl

theorem guarded_withContent {f : Mail → Mail} {c : Filter}
    (hf : ∀ m, f (m.withContent c) = (f m).withContent c) (m : Mail) :
    guarded Dropped f (m.withContent c) = (guarded Dropped f m).withContent c := by
  unfold guarded
  by_cases hd : Dropped m
  · rw [if_pos hd]
    exact if_pos hd
  · rw [if_neg hd, ← hf]
    exact if_neg hd

theorem withContent_firstStages (m : Mail) (c : Filter) :
    firstStages o (m.withContent c) = (firstStages o m).withContent c := by
  unfold firstStages
  rw [guarded_withContent (f := quarantineStage o) (c := c) fun _ => rfl,
    guarded_withContent (f := antivirusStage o) (c := c) fun _ => rfl,
    guarded_withContent (f := dynamicStage o) (c := c) fun _ => rfl,
    guarded_withContent (f := spamStage o) (c := c) fun _ => rfl]

theorem blind_ite {p : Mail → Prop} [DecidablePred p] {f g : Mail → Mail}
    (hp : ∀ m c, p (m.withContent c) ↔ p m) (hf : Blind f) (hg : Blind g) :
    Blind fun m => if p m then f m else g m := by
  intro m c
  by_cases h : p m
  · obtain ⟨c', hc'⟩ := hf m c
    exact ⟨c', by simp only [if_pos h, if_pos ((hp m c).2 h), hc']⟩
  · obtain ⟨c', hc'⟩ := hg m c
    exact ⟨c', by simp only [if_neg h, if_neg (fun h' => h ((hp m c).1 h')), hc']⟩

theorem blind_actionRcpts : Blind actionRcpts := by
  refine blind_ite (fun _ _ => Iff.rfl) (fun _ c => ⟨c, rfl⟩) ?_
  refine blind_ite (fun _ _ => Iff.rfl) (fun _ c => ⟨c, rfl⟩) ?_
  refine blind_ite (fun _ _ => Iff.rfl) ?_ ?_
  · exact blind_ite (fun _ _ => Iff.rfl) (fun _ c => ⟨c.clean, rfl⟩) fun _ c => ⟨c, rfl⟩
  · exact blind_ite (fun _ _ => Iff.rfl) (fun _ c => ⟨c, rfl⟩) fun _ c => ⟨c, rfl⟩

theorem blind_qmailRequeue (q : QueueWorld) : Blind (qmailRequeue q) := by
  intro m c
  unfold qmailRequeue
  cases q.qmailRequeue with
  | some f =>
    by_cases ha : q.Accepted
    · exact ⟨c.clean, by simp only [if_pos ha]; rfl⟩
    · exact ⟨c.clean, by simp only [if_neg ha]; rfl⟩
  | none =>
    by_cases ha : q.Accepted
    · exact ⟨c, by simp only [if_pos ha]; rfl⟩
    · exact ⟨c, by simp only [if_neg ha]⟩

theorem blind_requeue : Blind (requeue o) := by
  intro m c
  obtain ⟨c', hc'⟩ := blind_qmailRequeue (queueFor o m) m c
  refine ⟨c'.clean, ?_⟩
  rw [requeue_eq, requeue_eq]
  show cleanup (qmailRequeue (queueFor o m) (m.withContent c)) = _
  rw [hc']
  rfl

theorem blind_act (e : Engine) : Blind (act o e) := by
  refine blind_ite (fun _ _ => Iff.rfl) (fun _ c => ⟨c.clean, rfl⟩) ?_
  exact blind_ite (fun _ _ => Iff.rfl) (fun _ c => ⟨c.clean, rfl⟩) fun _ c => ⟨c, rfl⟩

theorem blind_verdict : Blind (verdict o) := by
  intro m c
  have hdec : decider (m.withContent c) = decider m := rfl
  unfold verdict
  rw [hdec]
  cases decider m with
  | some e => exact blind_act o e m c
  | none => exact (blind_requeue o).comp blind_actionRcpts m c

end Blind

end Mail

end NoSpam
