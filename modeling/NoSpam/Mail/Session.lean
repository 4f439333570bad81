import NoSpam.Base.Run
import NoSpam.Content.Steady
import NoSpam.Mail.Frame
import NoSpam.Mail.Transport

/-!
# Mails handled by one object

The prefork child keeps its `AKA::Mail` object from mail to mail.  What is carried over is the
content filter: it is clean again after every end of a mail but one, the quarantine, which does not
call `cleanup`.  In a run in which no mail takes that end from the content engine and no mail marks
a GA rule, every mail gets the content verdict that an object just made gives.
-/

namespace NoSpam

open Text Perl Conf Content Gate Machine

namespace Mail

/-- An object just made, in the same world. -/
def renew (c : Filter) (m : Mail) : Mail := { m with content := c, aka := {} }

/-- The content entry and the reply. -/
def outcome (m : Mail) : Entry × Resp := (m.aka.engine .content, m.aka.resp)

theorem outcome_of_blind {f : Mail → Mail} (hf : Blind f) (m : Mail) (c : Filter) :
    (f (m.withContent c)).outcome = (f m).outcome := by
  obtain ⟨c', hc'⟩ := hf m c
  rw [hc']
  rfl

/-! ## What becomes of the content filter -/

section Ends

variable (o : Outside)

theorem content_requeue (m : Mail) : (m.requeue o).content = m.content.clean := by
  unfold requeue qmailRequeue
  dsimp only
  split
  all_goals
    split_ifs <;> rfl

theorem content_actionRcpts (m : Mail) :
    (actionRcpts m).content = m.content ∨ (actionRcpts m).content = m.content.clean := by
  unfold actionRcpts
  dsimp only
  split_ifs
  all_goals first | exact Or.inl rfl | exact Or.inr rfl

/-- Every end of a mail but the quarantine cleans the content filter. -/
theorem content_verdict (m : Mail) :
    (m.verdict o).content = m.content.clean ∨
      (m.verdict o).content = m.content ∧
        ∃ e, decider m = some e ∧ (m.aka.engine e).action = actionQuarantine := by
  unfold verdict
  cases hdec : decider m with
  | none =>
    refine Or.inl ?_
    dsimp only
    rw [content_requeue]
    rcases content_actionRcpts m with h | h
    · rw [h]
    · rw [h]
      rfl
  | some e =>
    have hdrop : Drops m.aka e := by simpa using List.find?_some hdec
    simp only [Drops, ifActionIsDrop, Bool.or_eq_true, decide_eq_true_eq] at hdrop
    dsimp only
    unfold act
    dsimp only
    split_ifs with hr hd
    · exact Or.inl rfl
    · exact Or.inl rfl
    · refine Or.inr ⟨rfl, e, rfl, ?_⟩
      rcases hdrop with (h | h) | h
      · exact absurd h hr
      · exact absurd h hd
      · exact h

end Ends

/-! ## A filter that has come through -/

section Intact

variable (P : SizeBounds → Prop) (types : List FileType) (db userdb : FilterDB)

/-- The content filter is as it was loaded, as far as a mail can tell. -/
structure Intact (c : Filter) : Prop where
  parser : c.parser = { types }
  ruler : c.ruler.From P db userdb

/-- The content entry for the message file, by the rules as loaded. -/
def freshEntry (o : Outside) (file : Option Bytes) : Entry :=
  match file with
  | none => ran (bytes "0") (o.tr (bytes "internal error")) actionPass true
  | some message => Filter.entryOf ((o.mime message).bind fun e =>
      (freshMatch o.checkSingleKeywordRule (mailInfo types e) db userdb).map Prod.snd)

variable {P types db userdb} {c : Filter}

theorem intact_new (hempty : P {}) : Intact P types db userdb (Filter.new types db userdb) :=
  ⟨rfl, rfl, Extends.refl db, hempty⟩

theorem Intact.clean (h : Intact P types db userdb c) : Intact P types db userdb c.clean := by
  obtain ⟨hparser, hruler⟩ := h
  refine ⟨?_, hruler⟩
  show c.parser.clean = _
  rw [hparser]
  rfl

/-- Only a rule puts a mail into quarantine. -/
theorem exists_of_action_freshEntry {o : Outside} {file : Option Bytes}
    (h : (freshEntry types db userdb o file).action = actionQuarantine) :
    ∃ e ∈ file.bind o.mime,
      ∃ x ∈ freshMatch o.checkSingleKeywordRule (mailInfo types e) db userdb,
        x.2.action = actionQuarantine := by
  have hpass : actionPass ≠ actionQuarantine := by decide
  have hnull : actionNull ≠ actionQuarantine := by decide
  unfold freshEntry at h
  cases file with
  | none => exact absurd h hpass
  | some message =>
    dsimp only at h
    cases he : o.mime message with
    | none =>
      rw [he] at h
      exact absurd h hnull
    | some e =>
      rw [he, Option.bind_some] at h
      cases hx : freshMatch o.checkSingleKeywordRule (mailInfo types e) db userdb with
      | none =>
        rw [hx] at h
        exact absurd h hnull
      | some x =>
        rw [hx] at h
        exact ⟨e, he, x, hx, h⟩

/-- An intact filter gives the entry of a filter just loaded, and cleaning it makes it intact
again, unless the mail marks a GA rule. -/
theorem process_of_intact (hdb : db.AllSizes (SteadySize P))
    (huserdb : userdb.AllSizes (SteadySize P)) (hempty : P {})
    (h : Intact P types db userdb c) (o : Outside) (file : Option Bytes) :
    let r := c.process o.tr o.checkSingleKeywordRule o.mime file
    r.1 = freshEntry types db userdb o file ∧
      ((∀ e ∈ file.bind o.mime, ¬ Marks o.checkSingleKeywordRule (mailInfo types e) db userdb) →
        Intact P types db userdb r.2.clean) := by
  cases file with
  | none => exact ⟨rfl, fun _ => h.clean⟩
  | some message =>
    obtain ⟨hparser, hruler⟩ := h
    obtain ⟨parser, ruler⟩ := c
    dsimp only at hparser hruler ⊢
    subst hparser
    unfold Filter.process Filter.getRule freshEntry
    dsimp only [Option.bind_some]
    cases o.mime message with
    | none => exact ⟨rfl, fun _ => ⟨rfl, hruler⟩⟩
    | some e =>
      obtain ⟨hmatch, hfrom⟩ := getMatchRule_from o.checkSingleKeywordRule (mailInfo types e) hdb
        huserdb hempty hruler
      refine ⟨?_, fun hmarks => ⟨rfl, hfrom (hmarks e rfl)⟩⟩
      rw [Option.bind_some, ← hmatch]
      rfl

end Intact

/-! ## One mail -/

section Step

variable {P : SizeBounds → Prop} {types : List FileType} {db userdb : FilterDB} {m : Mail}

/-- The entity that the content engine is going to match against the rules, if it comes to that. -/
def filtered (m : Mail) (r : Request) : Option Entity :=
  let b := firstStages r.outside ((m.receive recvMailInfoEx r).start r.outside)
  if m.licenseOk && !b.aka.drop && (contentSkips b.config r.outside b.aka).isNone then
    (b.fs b.aka.emlfilename).bind r.outside.mime
  else none

variable (types db userdb) in
/-- The mail matches, by the rules as loaded, no rule that puts it into quarantine, and it marks no
GA rule. -/
def Tidy (m : Mail) (r : Request) : Prop :=
  ∀ e ∈ m.filtered r,
    (∀ x ∈ freshMatch r.outside.checkSingleKeywordRule (mailInfo types e) db userdb,
      x.2.action ≠ actionQuarantine) ∧
      ¬ Marks r.outside.checkSingleKeywordRule (mailInfo types e) db userdb

instance (m : Mail) (r : Request) : Decidable (Tidy types db userdb m r) :=
  inferInstanceAs (Decidable (∀ e ∈ m.filtered r, _ ∧ _))

variable (hdb : db.AllSizes (SteadySize P)) (huserdb : userdb.AllSizes (SteadySize P))
  (hempty : P {}) (o : Outside)
include hdb huserdb hempty

/-- The content engine leaves the entry that a filter just loaded gives. -/
theorem aka_contentStage (h : Intact P types db userdb m.content) :
    (contentStage o m).aka =
      match contentSkips m.config o m.aka with
      | some x => m.aka.setEntry .content x
      | none =>
        let x := freshEntry types db userdb o (m.fs m.aka.emlfilename)
        (m.aka.setEntry .content x).dropIf (ifActionIsDrop x.action) := by
  unfold contentStage contentEngine
  dsimp only
  cases contentSkips m.config o m.aka with
  | some x => rfl
  | none =>
    dsimp only
    rw [(process_of_intact hdb huserdb hempty h o _).1, Aka.engine_setEntry_self]

theorem contentStage_withContent {c c' : Filter} (h : Intact P types db userdb c)
    (h' : Intact P types db userdb c') :
    ∃ c'', contentStage o (m.withContent c) =
      (contentStage o (m.withContent c')).withContent c'' := by
  have haka : (contentStage o (m.withContent c)).aka = (contentStage o (m.withContent c')).aka := by
    rw [aka_contentStage hdb huserdb hempty o (m := m.withContent c) h,
      aka_contentStage hdb huserdb hempty o (m := m.withContent c') h']
    rfl
  refine ⟨(contentStage o (m.withContent c)).content, ?_⟩
  unfold withContent at haka ⊢
  rw [← haka]
  rfl

theorem runEngines_withContent {c c' : Filter} (h : Intact P types db userdb c)
    (h' : Intact P types db userdb c') :
    ∃ c'', runEngines o (m.withContent c) = (runEngines o (m.withContent c')).withContent c'' := by
  unfold runEngines
  rw [withContent_firstStages, withContent_firstStages]
  unfold guarded
  by_cases hd : Dropped (firstStages o m)
  · refine ⟨c, ?_⟩
    rw [if_pos (show Dropped ((firstStages o m).withContent c) from hd),
      if_pos (show Dropped ((firstStages o m).withContent c') from hd)]
    rfl
  · rw [if_neg (show ¬ Dropped ((firstStages o m).withContent c) from hd),
      if_neg (show ¬ Dropped ((firstStages o m).withContent c') from hd)]
    obtain ⟨c'', hc''⟩ := contentStage_withContent hdb huserdb hempty o (m := firstStages o m) h h'
    refine ⟨c'', ?_⟩
    rw [hc'']
    rfl

/-- With one intact filter or another, a mail comes out the same. -/
theorem outcome_process {c c' : Filter} (h : Intact P types db userdb c)
    (h' : Intact P types db userdb c') (order : HashOrder) :
    ((m.withContent c).process o order).outcome = ((m.withContent c').process o order).outcome := by
  cases hlic : m.licenseOk with
  | true =>
    obtain ⟨c'', hc''⟩ := runEngines_withContent hdb huserdb hempty o (m := m.start o) h h'
    rw [process_of_licensed o (m := m.withContent c) hlic,
      process_of_licensed o (m := m.withContent c') hlic, withContent_start, withContent_start,
      hc'', outcome_of_blind (blind_verdict o)]
  | false =>
    rw [process_of_unlicensed o (m := m.withContent c) hlic,
      process_of_unlicensed o (m := m.withContent c') hlic, withContent_start, withContent_start,
      outcome_of_blind (blind_requeue o), outcome_of_blind (blind_requeue o)]

omit hdb huserdb hempty in
theorem content_firstStages (m : Mail) : (firstStages o m).content = m.content := by
  show (firstStages o (m.withContent m.content)).content = m.content
  rw [withContent_firstStages]
  rfl

omit hdb huserdb hempty in
/-- While the flag is down no engine has dropped the mail. -/
theorem drops_nothing_firstStages (hd : ¬ Dropped (firstStages o (m.start o))) (e : Engine) :
    ¬ Drops (firstStages o (m.start o)).aka e := by
  have hstart : ¬ Dropped (m.start o) := by
    intro h
    apply hd
    rw [firstStages]
    simp only [guarded, if_pos h]
    exact h
  exact (sole_firstStages o (Exclusive.of_none hstart (start_drops_nothing o m))).none_of_open hd e

omit hdb huserdb hempty in
/-- With the flag up the content engine does not run, with the flag down it does. -/
theorem runEngines_eq (m : Mail) :
    m.runEngines o = archiveStage o (if Dropped (firstStages o m) then firstStages o m
      else contentStage o (firstStages o m)) := rfl

omit hdb huserdb hempty in
/-- When no engine before it drops the mail, only the content engine can. -/
theorem eq_content_of_decider (hd : ¬ Dropped (firstStages o (m.start o))) {e : Engine}
    (h : decider ((m.start o).runEngines o) = some e) : e = .content := by
  have hdrops : Drops ((m.start o).runEngines o).aka e := by simpa using List.find?_some h
  rw [runEngines_eq, if_neg hd] at hdrops
  obtain ⟨-, hcontent⟩ := (drops_archiveEngine _ o _ e).1 hdrops
  have hsettled := settled_contentEngine (firstStages o (m.start o)).config o
    ((firstStages o (m.start o)).fs (firstStages o (m.start o)).aka.emlfilename)
    (firstStages o (m.start o)).content hd (drops_nothing_firstStages o hd)
  by_contra hne
  exact hsettled.1 e hne hcontent

omit hdb huserdb hempty in
/-- What the content engine sees of a mail that it looks at. -/
theorem filtered_of_runs (hlic : m.licenseOk = true) {r : Request} {b : Mail}
    (hb : b = firstStages r.outside ((m.receive recvMailInfoEx r).start r.outside))
    (hd : ¬ Dropped b) (hskip : contentSkips b.config r.outside b.aka = none) :
    m.filtered r = (b.fs b.aka.emlfilename).bind r.outside.mime := by
  have hdrop : b.aka.drop = false := by simpa [Dropped] using hd
  unfold filtered
  dsimp only
  rw [← hb, hlic, hdrop, hskip]
  rfl

omit hdb huserdb hempty in
/-- The entry that the content engine makes when it runs is still there at the end. -/
theorem engine_content_of_runs {b : Mail} (hskip : contentSkips b.config o b.aka = none) :
    (archiveStage o (contentStage o b)).aka.engine .content =
      (b.content.process o.tr o.checkSingleKeywordRule o.mime (b.fs b.aka.emlfilename)).1 := by
  unfold archiveStage archiveEngine contentStage contentEngine
  dsimp only
  rw [Aka.engine_setEntry_of_ne _ _ _ _ (by decide), hskip]
  simp

/-- The engines leave a filter that is intact after cleaning, and even without when the content
engine has put the mail into quarantine. -/
theorem content_runEngines (h : Intact P types db userdb m.content) (hlic : m.licenseOk = true)
    {r : Request} (ht : Tidy types db userdb m r) :
    let x := ((m.receive recvMailInfoEx r).start r.outside).runEngines r.outside
    Intact P types db userdb x.content.clean ∧
      ∀ e, decider x = some e → (x.aka.engine e).action = actionQuarantine →
        Intact P types db userdb x.content := by
  set b := firstStages r.outside ((m.receive recvMailInfoEx r).start r.outside) with hb
  have hcontent : Intact P types db userdb b.content := by
    rw [hb, content_firstStages]
    exact h
  intro x
  -- unless the content engine has looked at the mail, the filter is what it was
  have hunused : x.content = b.content → Intact P types db userdb x.content.clean ∧
      ∀ e, decider x = some e → (x.aka.engine e).action = actionQuarantine →
        Intact P types db userdb x.content := by
    intro hsame
    rw [hsame]
    exact ⟨hcontent.clean, fun _ _ _ => hcontent⟩
  by_cases hd : Dropped b
  · apply hunused
    show (runEngines r.outside _).content = _
    rw [runEngines_eq, if_pos hd]
    rfl
  have hx : x = archiveStage r.outside (contentStage r.outside b) := by
    show runEngines r.outside _ = _
    rw [runEngines_eq, if_neg hd]
  have hxc : x.content = (contentEngine b.config r.outside (b.fs b.aka.emlfilename) b.aka
      b.content).2 := by
    rw [hx]
    rfl
  cases hskip : contentSkips b.config r.outside b.aka with
  | some y =>
    apply hunused
    rw [hxc, contentEngine, hskip]
  | none =>
    have hfiltered := filtered_of_runs hlic hb hd hskip
    have htidy := fun e he => ht e (hfiltered ▸ he)
    obtain ⟨hentry, hclean⟩ := process_of_intact hdb huserdb hempty hcontent r.outside
      (b.fs b.aka.emlfilename)
    rw [hxc, contentEngine, hskip]
    refine ⟨hclean fun e he => (htidy e he).2, fun e he hq => ?_⟩
    obtain rfl := eq_content_of_decider r.outside (m := m.receive recvMailInfoEx r) hd he
    have hfresh : x.aka.engine .content =
        freshEntry types db userdb r.outside (b.fs b.aka.emlfilename) := by
      rw [← hentry, hx]
      exact engine_content_of_runs r.outside hskip
    rw [hfresh] at hq
    obtain ⟨e, he, y, hy, hyq⟩ := exists_of_action_freshEntry hq
    exact absurd hyq ((htidy e he).1 y hy)

/-- A tidy mail leaves an intact filter. -/
theorem content_netProcessEx (h : Intact P types db userdb m.content) {r : Request}
    (ht : Tidy types db userdb m r) : Intact P types db userdb (m.netProcessEx r).content := by
  unfold netProcessEx
  cases hlic : m.licenseOk with
  | false =>
    rw [process_of_unlicensed r.outside (m := m.receive recvMailInfoEx r) hlic, content_requeue]
    exact h.clean
  | true =>
    rw [process_of_licensed r.outside (m := m.receive recvMailInfoEx r) hlic]
    obtain ⟨hclean, hquarantine⟩ := content_runEngines hdb huserdb hempty h hlic ht
    rcases content_verdict r.outside
      (((m.receive recvMailInfoEx r).start r.outside).runEngines r.outside)
      with hv | ⟨hv, e, he, hq⟩
    · rw [hv]
      exact hclean
    · rw [hv]
      exact hquarantine e he hq

end Step

/-! ## Runs -/

/-- **Mails do not influence each other**: with settled sizes, after any run of tidy mails through
one object, the next mail gets the content entry and the reply that an object just made gives it. -/
theorem outcome_after_run (types : List FileType) (db userdb : FilterDB)
    (hsizes : SizesSettled db userdb) (m : Mail) (rs : List Request)
    (h : Meets (fun m r => m.netProcessEx r) (Tidy types db userdb)
      (m.renew (Filter.new types db userdb)) rs) (r : Request) :
    let m' := run (fun m r => m.netProcessEx r) (m.renew (Filter.new types db userdb)) rs
    (m'.netProcessEx r).outcome =
      ((m'.renew (Filter.new types db userdb)).netProcessEx r).outcome := by
  obtain ⟨P, hempty, hdb, huserdb⟩ := hsizes.exists_invariant
  intro m'
  have hintact : Intact P types db userdb m'.content :=
    run_invariant (I := fun m : Mail => Intact P types db userdb m.content)
      (fun _ _ hi ht => content_netProcessEx hdb huserdb hempty hi ht) (intact_new hempty) h
  exact outcome_process hdb huserdb hempty r.outside (m := m'.receive recvMailInfoEx r) hintact
    (intact_new hempty) r.order

/-- One rule: mails about pills get the action. -/
def pills (action : Bytes) (actionParam : Bytes := []) : FilterDB :=
  (∅ : FilterDB).insert (bytes "1")
    { ruleId := bytes "1"
      ruleKeyword := some (.hash [(bytes "keyword", bytes "pills")])
      action
      actionParam }

/-- An object that filters inbound mails. -/
def inboundFilter (db : FilterDB) : Mail where
  config :=
    { contentEngine := { contentFilterEngine := bytes "Y", protectDirection := bytes "In" } }
  licenseOk := true
  content := Filter.new fileTypes db ∅

/-- An inbound mail for one recipient. -/
def inboundMail (message : Bytes) : Request where
  stdin := bytes "\n192.0.2.1\n\n/spool/1\nFa@x.org" ++ 0 :: bytes "Tb@y.org" ++ [0, 0, 10]
  file := bytes "/spool/1"
  message
  outside := .plain
  order := ⟨Engine.all, .refl _⟩

theorem outcome_after_rejection :
    let m := run (fun m r => m.netProcessEx r) ((inboundFilter (pills actionReject)).renew
      (Filter.new fileTypes (pills actionReject) ∅)) [inboundMail (bytes "pills")]
    (m.netProcessEx (inboundMail (bytes "hello"))).outcome =
      ((m.renew (Filter.new fileTypes (pills actionReject) ∅)).netProcessEx
        (inboundMail (bytes "hello"))).outcome :=
  outcome_after_run fileTypes (pills actionReject) ∅ (by decide) _ _ (by decide) _

/-- After a mail in quarantine the next one gets its entry. -/
theorem outcome_after_quarantine :
    let m := run (fun m r => m.netProcessEx r) ((inboundFilter (pills actionQuarantine)).renew
      (Filter.new fileTypes (pills actionQuarantine) ∅)) [inboundMail (bytes "pills")]
    (m.netProcessEx (inboundMail (bytes "hello"))).outcome ≠
      ((m.renew (Filter.new fileTypes (pills actionQuarantine) ∅)).netProcessEx
        (inboundMail (bytes "hello"))).outcome := by
  decide

end Mail

end NoSpam
