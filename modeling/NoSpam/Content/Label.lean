import NoSpam.Base.Run
import NoSpam.Content.Priority

/-!
# What matching does to the rule databases

`get_match_rule` is to look rules up, mail after mail, and to change none (`LeavesAlone`).  It
notes the type of a matched user rule in the GA database, under the id of the user rule, where
`user_filterdb` was meant: the entry under this id is made or changed.  The databases stay as they
were loaded, and every mail gets the rule that it would get first, exactly when no mail of the run
makes such a note (`leavesAlone_iff`).
-/

namespace NoSpam.Content

open Text Perl

variable (kw : KeywordRule → MailInfo → Bool) (m : MailInfo) (db userdb : FilterDB)

/-- The rule object has the rules of these databases. -/
def Ruler.Holds (r : Ruler) (db userdb : FilterDB) : Prop :=
  (∀ id, r.filterdb.lookup id = db.lookup id) ∧ ∀ id, r.userFilterdb.lookup id = userdb.lookup id

/-- The rule object after one more mail. -/
def checkMail (r : Ruler) (m : MailInfo) : Ruler := (getMatchRule kw r m).2

/-- After every mail of the run the databases are as loaded, and the rule for the mail was the one
that a rule object just loaded returns. -/
def LeavesAlone (ms : List MailInfo) : Prop :=
  ∀ before m after, ms = before ++ m :: after →
    (getMatchRule kw (Machine.run (checkMail kw) ⟨db, userdb, {}⟩ before) m).1 =
        (getMatchRule kw ⟨db, userdb, {}⟩ m).1 ∧
      (Machine.run (checkMail kw) ⟨db, userdb, {}⟩ (before ++ [m])).Holds db userdb

/-- The mail matches no GA rule but a user rule, and the GA database has no entry with the mark
`user` under its id. -/
def Labels : Prop :=
  firstRule kw m db = none ∧
    ∃ id ∈ firstRule kw m userdb, (db.lookup id).map RuleInfo.idType ≠ some (bytes "user")

instance : Decidable (Labels kw m db userdb) := inferInstanceAs (Decidable (_ ∧ _))

variable {kw m db userdb}

/-- The note changes what stands under the id of the user rule, unless the mark is there. -/
theorem labelled_lookup_iff (kw : KeywordRule → MailInfo → Bool) (m : MailInfo) (userdb : FilterDB)
    {ga : FilterDB} (hga : ∀ id, ga.lookup id = db.lookup id) :
    (∀ id, (labelled kw m db userdb ga).lookup id = db.lookup id) ↔ ¬ Labels kw m db userdb := by
  unfold labelled Labels
  cases hid : firstRule kw m db with
  | some id => simpa using hga
  | none =>
    cases hid' : firstRule kw m userdb with
    | none => simpa using hga
    | some id =>
      simp only [true_and, Option.mem_def, Option.some.injEq, exists_eq_left', not_not]
      constructor
      · intro h
        rw [← h id, AList.lookup_insert]
        rfl
      · intro hmark id'
        obtain ⟨r, hr, htype⟩ := Option.map_eq_some_iff.1 hmark
        by_cases he : id' = id
        · rw [he, AList.lookup_insert, hga, hr, Option.getD_some, ← htype]
        · rw [AList.lookup_insert_ne he, hga]

section Run

variable {P : SizeBounds → Prop}

/-- The rule object has come to this state by mails that make no note. -/
structure Ruler.Unlabelled (P : SizeBounds → Prop) (db userdb : FilterDB) (r : Ruler) : Prop where
  user : r.userFilterdb = userdb
  ga : ∀ id, r.filterdb.lookup id = db.lookup id
  bounds : P r.bounds

theorem Ruler.Unlabelled.from {r : Ruler} (h : r.Unlabelled P db userdb) : r.From P db userdb := by
  refine ⟨h.user, ⟨fun id _ => h.ga id, fun id hid r' hr' => ?_⟩, h.bounds⟩
  rw [h.ga id] at hr'
  exact absurd (AList.lookup_isSome.1 (Option.isSome_iff_exists.2 ⟨r', hr'⟩)) hid

theorem Ruler.Unlabelled.holds {r : Ruler} (h : r.Unlabelled P db userdb) : r.Holds db userdb :=
  ⟨h.ga, fun id => by rw [h.user]⟩

variable (hdb : db.AllSizes (SteadySize P)) (huserdb : userdb.AllSizes (SteadySize P))
  (hempty : P {})

include hdb huserdb hempty

/-- One mail: the rule is that of a rule object just loaded, and the databases have their rules
afterwards exactly when no note is made. -/
theorem getMatchRule_unlabelled (m : MailInfo) {r : Ruler} (h : r.Unlabelled P db userdb) :
    (getMatchRule kw r m).1 = freshMatch kw m db userdb ∧
      ((checkMail kw r m).Holds db userdb ↔ ¬ Labels kw m db userdb) ∧
      (¬ Labels kw m db userdb → (checkMail kw r m).Unlabelled P db userdb) := by
  obtain ⟨b, hb, heq⟩ := getMatchRule_eq kw m hdb huserdb hempty h.from
  have hlookup := labelled_lookup_iff kw m userdb h.ga
  unfold checkMail
  rw [heq]
  exact ⟨rfl, ⟨fun hholds => hlookup.1 hholds.1, fun hlabels => ⟨hlookup.2 hlabels, fun _ => rfl⟩⟩,
    fun hlabels => ⟨rfl, hlookup.2 hlabels, hb⟩⟩

theorem run_unlabelled {ms : List MailInfo} (h : ∀ m ∈ ms, ¬ Labels kw m db userdb) :
    (Machine.run (checkMail kw) ⟨db, userdb, {}⟩ ms).Unlabelled P db userdb := by
  have hmeets : Machine.Meets (checkMail kw) (fun _ m => ¬ Labels kw m db userdb)
      ⟨db, userdb, {}⟩ ms := Machine.meets_of_forall_mem h
  exact Machine.run_invariant
    (fun r m hr hm => (getMatchRule_unlabelled hdb huserdb hempty m hr).2.2 hm)
    ⟨rfl, fun _ => rfl, hempty⟩ hmeets

/-- A run that leaves the databases alone has no mail that makes a note: the first such mail would
leave a database that differs. -/
theorem not_labels_of_leavesAlone {ms : List MailInfo} (h : LeavesAlone kw db userdb ms) :
    ∀ m ∈ ms, ¬ Labels kw m db userdb := by
  induction ms using List.reverseRecOn with
  | nil => exact fun m hm => absurd hm List.not_mem_nil
  | append_singleton ms m ih =>
    have hbefore : ∀ m' ∈ ms, ¬ Labels kw m' db userdb := by
      refine ih fun before m' after hsplit => h before m' (after ++ [m]) ?_
      rw [hsplit, List.append_assoc, List.cons_append]
    have hrun := run_unlabelled hdb huserdb hempty hbefore
    have hholds := (h ms m [] rfl).2
    rw [Machine.run_append, Machine.run_cons, Machine.run_nil] at hholds
    have hm := (getMatchRule_unlabelled hdb huserdb hempty m hrun).2.1.1 hholds
    intro m' hm'
    rcases List.mem_append.1 hm' with hm' | hm'
    · exact hbefore m' hm'
    · rw [List.mem_singleton.1 hm']
      exact hm

end Run

/-- **The databases are left alone**, and every mail gets the rule it would get first, exactly when
no mail of the run matches a user rule, and no GA rule, without an entry marked `user` under the id
of the user rule in the GA database. -/
theorem leavesAlone_iff (h : SizesSettled db userdb) (ms : List MailInfo) :
    LeavesAlone kw db userdb ms ↔ ∀ m ∈ ms, ¬ Labels kw m db userdb := by
  obtain ⟨P, hempty, hdb, huserdb⟩ := h.exists_invariant
  refine ⟨not_labels_of_leavesAlone hdb huserdb hempty, fun hms before m after hsplit => ?_⟩
  subst hsplit
  have hbefore := run_unlabelled hdb huserdb hempty fun m' hm' =>
    hms m' (List.mem_append_left _ hm')
  have hloaded : (Ruler.mk db userdb {}).Unlabelled P db userdb := ⟨rfl, fun _ => rfl, hempty⟩
  obtain ⟨hrule, -, hnext⟩ := getMatchRule_unlabelled hdb huserdb hempty m hbefore
  refine ⟨?_, ?_⟩
  · rw [hrule]
    exact (getMatchRule_unlabelled hdb huserdb hempty m hloaded).1.symm
  · rw [Machine.run_append, Machine.run_cons, Machine.run_nil]
    exact (hnext (hms m (List.mem_append_right _ List.mem_cons_self))).holds

/-- A mail with this text. -/
def mailSaying (text : Bytes) : MailInfo := { blankMail with bodyText := text }

/-- One rule, number 1, with a keyword. -/
def ruleSaying (text : Bytes) : FilterDB :=
  AList.singleton (decimal 1) { ruleId := decimal 1, ruleKeyword := some (.hash [(text, [])]) }

/-- A keyword is the whole text. -/
def isText (keyword : KeywordRule) (m : MailInfo) : Bool := keyword = [(m.bodyText, [])]

theorem leavesAlone_ga :
    SizesSettled (ruleSaying (bytes "b")) (ruleSaying (bytes "a")) ∧
      (LeavesAlone isText (ruleSaying (bytes "b")) (ruleSaying (bytes "a"))
          [mailSaying (bytes "b"), mailSaying (bytes "c"), mailSaying (bytes "b")] ↔
        ∀ m ∈ [mailSaying (bytes "b"), mailSaying (bytes "c"), mailSaying (bytes "b")],
          ¬ Labels isText m (ruleSaying (bytes "b")) (ruleSaying (bytes "a"))) ∧
      ∀ m ∈ [mailSaying (bytes "b"), mailSaying (bytes "c"), mailSaying (bytes "b")],
        ¬ Labels isText m (ruleSaying (bytes "b")) (ruleSaying (bytes "a")) :=
  have hsizes : SizesSettled (ruleSaying (bytes "b")) (ruleSaying (bytes "a")) := by decide
  ⟨hsizes, leavesAlone_iff hsizes _, by decide⟩

theorem not_leavesAlone_user :
    (getMatchRule isText ⟨ruleSaying (bytes "b"), ruleSaying (bytes "a"), {}⟩
        (mailSaying (bytes "b"))).1.map (fun r => r.2.idType) = some [] ∧
      (getMatchRule isText
        (Machine.run (checkMail isText) ⟨ruleSaying (bytes "b"), ruleSaying (bytes "a"), {}⟩
          [mailSaying (bytes "a")]) (mailSaying (bytes "b"))).1.map (fun r => r.2.idType) =
        some (bytes "user") ∧
      ¬ LeavesAlone isText (ruleSaying (bytes "b")) (ruleSaying (bytes "a"))
        [mailSaying (bytes "a"), mailSaying (bytes "b")] := by
  refine ⟨by decide, by decide, fun h => ?_⟩
  have hrule := (h [mailSaying (bytes "a")] (mailSaying (bytes "b")) [] rfl).1
  exact absurd hrule (by decide)

end NoSpam.Content
