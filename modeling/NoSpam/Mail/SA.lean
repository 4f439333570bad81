import Mathlib.Data.Rat.Defs
import NoSpam.Base.Assoc
import NoSpam.Base.Columns
import NoSpam.Base.Scalar
import NoSpam.Domain.Reset

/-!
# The settings of SpamAssassin

`AKA::Mail::SA` writes `local.cf` from the factory's section, the options set in the web interface
and the tests that are switched off.  `content` is the text; `read` is what SpamAssassin makes of
it, where the last assignment wins, and `read_content` says where each assignment comes from.
-/

namespace NoSpam.SA

open Text Perl
open NoSpam.Domain (words)

/-! ## The rule files -/

/-- `[A-Z]`. -/
def isUpper (c : UInt8) : Bool := 65 ≤ c && c ≤ 90

/-- `[A-Z]\S+[A-Z]`. -/
def isRuleWord (w : Bytes) : Bool := 3 ≤ w.length && w.head?.any isUpper && w.getLast?.any isUpper

/-- What `/\S+\s+([A-Z]\S+[A-Z])\s+/` captures: the first such word that has a word before it and
white space behind it. -/
def ruleOf (line : Bytes) : Option Bytes :=
  let ws := words line
  (if line.getLast?.any isWhite then ws.tail else ws.tail.dropLast).find? isRuleWord

/-- `_SA_load_rule_from_cf`. -/
def loadRuleFromCf (file : Bytes) : List Bytes :=
  (lines 10 file).filterMap fun l => ruleOf (chomp l)

/-- `/^\d+_.+\.cf$/`. -/
def isCf (name : Bytes) : Bool :=
  match name.takeWhile isDigit, name.dropWhile isDigit with
  | _ :: _, 95 :: rest =>
      let stem := chomp rest
      3 < stem.length && bytes ".cf" <:+ stem && 10 ∉ stem
  | _, _ => false

/-- `_SA_get_all_rulename`, on the names and contents of the directory. -/
def getAllRulename (cf_dir : List (Bytes × Bytes)) : List Bytes :=
  (cf_dir.filter fun f => isCf f.1).flatMap fun f => loadRuleFromCf f.2

/-- A test that is switched off: `/^$_/` for some entry. -/
def isDisabled (DisabledTests : List Bytes) (rule : Bytes) : Bool :=
  DisabledTests.any fun t => (dropPattern t rule).isSome

/-! ## The options -/

/-- `$conf_map`. -/
def confMap : List (Bytes × Bytes) :=
  [(bytes "BayesEnabled", bytes "use_bayes"),
    (bytes "BayesMinSpamKnowledge", bytes "bayes_min_ham_num"),
    (bytes "BayesMinNonSpamKnowledge", bytes "bayes_min_spam_num"),
    (bytes "BayesAutoLearn", bytes "bayes_auto_learn"),
    (bytes "BayesAutoLearnNonSpamScore", bytes "bayes_auto_learn_threshold_nonspam"),
    (bytes "BayesAutoLearnSpamScore", bytes "bayes_auto_learn_threshold_spam"),
    (bytes "RBLDisabled", bytes "skip_rbl_checks"),
    (bytes "RBLTimeout", bytes "rbl_timeout"),
    (bytes "DCCEnabled", bytes "use_dcc"),
    (bytes "DCCTimeout", bytes "dcc_timeout"),
    (bytes "DCCBodyMax", bytes "dcc_body_max"),
    (bytes "DCCFuz1Max", bytes "dcc_fuz1_max"),
    (bytes "DCCFuz2Max", bytes "dcc_fuz2_max"),
    (bytes "PyzorEnabled", bytes "use_pyzor"),
    (bytes "PyzorTimeout", bytes "pyzor_timeout"),
    (bytes "PyzorMax", bytes "pyzor_max"),
    (bytes "RazorEnabled", bytes "use_razor2"),
    (bytes "RazorTimeout", bytes "razor_timeout"),
    (bytes "AWLEnabled", bytes "use_auto_whitelist"),
    (bytes "AWLFactor", bytes "auto_whitelist_factor")]

/-- `_get_conf_bool`. -/
def confBool (val : Bytes) : Bytes :=
  if uc val = bytes "Y" then bytes "1" else if uc val = bytes "N" then bytes "0" else val

/-- The options converted. -/
def converted (web : Assoc Bytes Bytes) : List (Bytes × Bytes) :=
  web.entries.filterMap fun e => (Assoc.find e.1 confMap).map fun key => (key, confBool e.2)

/-- `$local_cf_hash`: the factory's section, then the options converted. -/
def localCf (sa web : Assoc Bytes Bytes) : Assoc Bytes Bytes :=
  (converted web).foldl (fun h e => h.put e.1 e.2)
    (Assoc.ofList (sa.entries.filter fun e => e.1 ≠ bytes "FactoryScore"))

/-! ## The factory's scores -/

/-- A word cut at its last `#` with a digit behind it. -/
def scoreAt : Bytes → Option (Bytes × Bytes)
  | [] => none
  | c :: w =>
      match scoreAt w with
      | some (name, score) => some (c :: name, score)
      | none => if c = 35 && w.head?.any isDigit then some ([], w.takeWhile isDigit) else none

/-- What `/(\S+)#(\d+)/` captures. -/
def scoreItem (item : Bytes) : Option (Bytes × Bytes) :=
  (words item).findSome? fun w => (scoreAt w).filter fun s => s.1 ≠ []

/-- The scores in the order of their items. -/
def scores (sa : Assoc Bytes Bytes) : List (Bytes × Bytes) :=
  (fields 44 ((sa.lookup (bytes "FactoryScore")).getD [])).filterMap scoreItem

/-! ## The text -/

/-- The factory's section, the web configuration and the rule files; neither configuration has a
line end in a key or a value, and the tests are plain names. -/
structure Settings where
  sa : Assoc Bytes Bytes
  web : Assoc Bytes Bytes
  DisabledTests : List Bytes
  cf_dir : List (Bytes × Bytes)
  sa_line : ∀ e ∈ sa.entries, 10 ∉ e.1 ∧ 10 ∉ e.2
  web_line : ∀ e ∈ web.entries, 10 ∉ e.1 ∧ 10 ∉ e.2
  tests_plain : ∀ t ∈ DisabledTests, ∀ c ∈ t, (isUpper c || isDigit c || c = 95) = true

/-- The orders in which the hashes are walked through. -/
structure Order (s : Settings) where
  sa : Assoc Bytes Bytes
  web : Assoc Bytes Bytes
  local_cf_hash : Assoc Bytes Bytes
  disabled_rules : List Bytes
  sa_same : sa.lookup = s.sa.lookup
  web_same : web.lookup = s.web.lookup
  hash_same : local_cf_hash.lookup = (localCf sa web).lookup
  rules_same : ∀ r, r ∈ disabled_rules ↔
    r ∈ getAllRulename s.cf_dir ∧ isDisabled s.DisabledTests r = true

/-- The lines of the options. -/
def optionLines (local_cf_hash : Assoc Bytes Bytes) : List Bytes :=
  (local_cf_hash.entries.filter fun e => e.2 ≠ []).map fun e => e.1 ++ 32 :: e.2

/-- The line of a score. -/
def scoreLine (name score : Bytes) : Bytes := bytes "score " ++ (name ++ 32 :: score)

/-- `get_local_cf_content`. -/
def content (s : Settings) (o : Order s) : Bytes :=
  (optionLines o.local_cf_hash ++ (scores o.sa).map (fun e => scoreLine e.1 e.2) ++
    o.disabled_rules.map fun r => scoreLine r (bytes "0")).flatMap (· ++ [10])

/-! ## Reading it -/

/-- What a line of `local.cf` sets. -/
inductive Target
  | option (key : Bytes)
  | score (name : Bytes)
  deriving DecidableEq

/-- A line of `local.cf`. -/
def assignment (line : Bytes) : Option (Target × Bytes) :=
  match cutAt 32 line with
  | (_, none) => none
  | (key, some rest) =>
    if key = bytes "score" then
      match cutAt 32 rest with
      | (_, none) => none
      | (name, some score) => some (.score name, score)
    else some (.option key, rest)

/-- The last assignment to a target. -/
def lastOf (l : List (Target × Bytes)) (t : Target) : Option Bytes :=
  ((l.filter fun a => a.1 = t).getLast?).map Prod.snd

/-- What the text sets a target to. -/
def read (text : Bytes) (t : Target) : Option Bytes :=
  lastOf ((lines 10 text).filterMap fun l => assignment (chomp l)) t

/-! ## Words -/

theorem isWhite_of_mem_splitOnP {l w : Bytes} (h : w ∈ l.splitOnP isWhite) :
    ∀ c ∈ w, isWhite c = false := by
  induction l generalizing w with
  | nil =>
    rw [List.splitOnP_nil, List.mem_singleton] at h
    rw [h]
    exact fun c hc => absurd hc List.not_mem_nil
  | cons c l ih =>
    rw [List.splitOnP_cons_eq_if_modifyHead] at h
    split_ifs at h with hc
    · rcases List.mem_cons.1 h with rfl | h
      · exact fun c hc => absurd hc List.not_mem_nil
      · exact ih h
    · obtain ⟨g, gs, hgs⟩ := List.exists_cons_of_ne_nil (List.splitOnP_ne_nil isWhite l)
      rw [hgs, List.modifyHead_cons] at h
      rcases List.mem_cons.1 h with rfl | h
      · rw [List.forall_mem_cons]
        exact ⟨by simpa using hc, ih (by rw [hgs]; exact List.mem_cons_self)⟩
      · exact ih (by rw [hgs]; exact List.mem_cons_of_mem g h)

/-- No white space. -/
def IsWord (w : Bytes) : Prop := ∀ c ∈ w, isWhite c = false

instance (w : Bytes) : Decidable (IsWord w) := List.decidableBAll _ w

theorem isWord_of_mem_words {l w : Bytes} (h : w ∈ words l) : IsWord w :=
  isWhite_of_mem_splitOnP (List.mem_filter.1 h).1

theorem IsWord.not_mem {w : Bytes} (h : IsWord w) {c : UInt8} (hc : isWhite c = true) : c ∉ w :=
  fun hmem => by rw [h c hmem] at hc; cases hc

theorem isWord_of_ruleOf {line r : Bytes} (h : ruleOf line = some r) : IsWord r := by
  have hmem := List.mem_of_find?_eq_some h
  refine isWord_of_mem_words (List.mem_of_mem_tail (?_ : r ∈ (words line).tail))
  split_ifs at hmem
  · exact hmem
  · exact List.dropLast_subset _ hmem

theorem isWord_of_mem_getAllRulename {cf_dir : List (Bytes × Bytes)} {r : Bytes}
    (h : r ∈ getAllRulename cf_dir) : IsWord r := by
  obtain ⟨f, -, hf⟩ := List.mem_flatMap.1 h
  obtain ⟨l, -, hl⟩ := List.mem_filterMap.1 hf
  exact isWord_of_ruleOf hl

/-- A word cut in two is the two and what is between them. -/
theorem subset_of_scoreAt {w name score : Bytes} (h : scoreAt w = some (name, score)) :
    name ⊆ w ∧ score ⊆ w := by
  induction w generalizing name with
  | nil => cases h
  | cons c w ih =>
    rw [scoreAt] at h
    cases hrec : scoreAt w with
    | some s =>
      obtain ⟨name', score'⟩ := s
      rw [hrec] at h
      obtain ⟨rfl, rfl⟩ := Prod.mk.inj (Option.some.inj h)
      obtain ⟨hname, hscore⟩ := ih hrec
      exact ⟨List.cons_subset_cons c hname,
        List.Subset.trans hscore (List.subset_cons_self c w)⟩
    | none =>
      rw [hrec] at h
      dsimp only at h
      split_ifs at h
      obtain ⟨rfl, rfl⟩ := Prod.mk.inj (Option.some.inj h)
      exact ⟨List.nil_subset _,
        List.Subset.trans (List.takeWhile_prefix _).subset (List.subset_cons_self c w)⟩

theorem isWord_of_scoreItem {item name score : Bytes} (h : scoreItem item = some (name, score)) :
    IsWord name ∧ IsWord score := by
  obtain ⟨w, hw, hs⟩ := List.exists_of_findSome?_eq_some h
  obtain ⟨hname, hscore⟩ := subset_of_scoreAt (Option.filter_eq_some_iff.1 hs).1
  have hword := isWord_of_mem_words hw
  exact ⟨fun c hc => hword c (hname hc), fun c hc => hword c (hscore hc)⟩

/-! ## What the patterns find -/

/-- Capital letters at both ends, and something between them. -/
def Capital (w : Bytes) : Prop :=
  ∃ a m b, w = a :: (m ++ [b]) ∧ m ≠ [] ∧ isUpper a = true ∧ isUpper b = true

/-- The word is the first with capital letters at its ends that has a word before it and white space
behind it. -/
def Named (line name : Bytes) : Prop :=
  ∃ type before after, words line = type :: (before ++ name :: after) ∧
    (∀ w ∈ before, ¬Capital w) ∧ Capital name ∧ (after = [] → line.getLast?.any isWhite = true)

/-- The test is named in a line of a rule file, and one of the entries begins its name. -/
def Off (s : Settings) (name : Bytes) : Prop :=
  (∃ f ∈ s.cf_dir, isCf f.1 = true ∧ ∃ line ∈ lines 10 f.2, Named (chomp line) name) ∧
    ∃ t ∈ s.DisabledTests, t <+: name

/-- A `#` with a digit behind it. -/
def Marked (w : Bytes) : Prop := ∃ a d b, w = a ++ 35 :: d :: b ∧ isDigit d = true

/-- The word is cut at its last `#` with a digit behind it, and at the end of the digits. -/
def CutsTo (w name score : Bytes) : Prop :=
  ∃ rest, w = name ++ 35 :: (score ++ rest) ∧ score ≠ [] ∧ (∀ c ∈ score, isDigit c = true) ∧
    (∀ c ∈ rest.head?, isDigit c = false) ∧ ¬Marked (score ++ rest)

/-- The item gives the name the score: they are cut from the first word that can be cut behind its
first symbol. -/
def Gives (item name score : Bytes) : Prop :=
  name ≠ [] ∧ ∃ before w after, words item = before ++ w :: after ∧ CutsTo w name score ∧
    ∀ u ∈ before, ∀ n v, CutsTo u n v → n = []

/-- The last item that gives the name a score gives it this one. -/
def Scored (sa : Assoc Bytes Bytes) (name score : Bytes) : Prop :=
  ∃ before item after,
    fields 44 ((sa.lookup (bytes "FactoryScore")).getD []) = before ++ item :: after ∧
      Gives item name score ∧ ∀ i ∈ after, ∀ v, ¬Gives i name v

theorem isRuleWord_iff (w : Bytes) : isRuleWord w = true ↔ Capital w := by
  simp only [isRuleWord, Bool.and_eq_true, decide_eq_true_eq, Option.any_eq_true]
  constructor
  · rintro ⟨⟨hlength, a, ha, hupper⟩, b, hb, hupper'⟩
    obtain ⟨m, rfl⟩ := List.head?_eq_some_iff.1 ha
    obtain ⟨l, hl⟩ := List.getLast?_eq_some_iff.1 hb
    cases l with
    | nil =>
      rw [hl] at hlength
      simp at hlength
    | cons c m' =>
      obtain ⟨rfl, rfl⟩ := List.cons.inj hl
      refine ⟨a, m', b, rfl, ?_, hupper, hupper'⟩
      rintro rfl
      simp at hlength
  · rintro ⟨a, m, b, rfl, hm, ha, hb⟩
    have hpos := List.length_pos_of_ne_nil hm
    refine ⟨⟨?_, a, rfl, ha⟩, b, ?_, hb⟩
    · simp only [List.length_cons, List.length_append, List.length_nil]
      omega
    · rw [← List.cons_append, List.getLast?_concat]

theorem ruleOf_eq_some_iff (line name : Bytes) : ruleOf line = some name ↔ Named line name := by
  have hfirst : ∀ (ws : List Bytes), ws.find? isRuleWord = some name ↔
      Capital name ∧ ∃ before after, ws = before ++ name :: after ∧ ∀ w ∈ before, ¬Capital w := by
    intro ws
    simp only [List.find?_eq_some_iff_append, isRuleWord_iff, Bool.not_eq_true', ← Bool.not_eq_true]
  unfold ruleOf Named
  cases words line with
  | nil => simp
  | cons type ws =>
    simp only [List.tail_cons, List.cons.injEq, hfirst]
    cases hspace : line.getLast?.any isWhite with
    | true =>
      simp only [if_true]
      constructor
      · rintro ⟨hname, before, after, rfl, hbefore⟩
        exact ⟨type, before, after, ⟨rfl, rfl⟩, hbefore, hname, fun _ => trivial⟩
      · rintro ⟨_, before, after, ⟨-, rfl⟩, hbefore, hname, -⟩
        exact ⟨hname, before, after, rfl, hbefore⟩
    | false =>
      simp only [Bool.false_eq_true, if_false]
      constructor
      · rintro ⟨hname, before, after, hws, hbefore⟩
        have hne : ws ≠ [] := by
          rintro rfl
          simp at hws
        refine ⟨type, before, after ++ [ws.getLast hne], ⟨rfl, ?_⟩, hbefore, hname, fun h => ?_⟩
        · rw [← List.cons_append, ← List.append_assoc, ← hws, List.dropLast_append_getLast]
        · simp at h
      · rintro ⟨_, before, after, ⟨-, rfl⟩, hbefore, hname, hafter⟩
        have hne : after ≠ [] := fun hnil => (hafter hnil).elim
        refine ⟨hname, before, after.dropLast, ?_, hbefore⟩
        rw [List.dropLast_append_of_ne_nil (by simp), List.dropLast_cons_of_ne_nil hne]

theorem off_iff (s : Settings) (name : Bytes) : Off s name ↔
    name ∈ getAllRulename s.cf_dir ∧ isDisabled s.DisabledTests name = true := by
  have hplain : ∀ t ∈ s.DisabledTests, ((dropPattern t name).isSome = true ↔ t <+: name) := by
    intro t ht
    have hdot : 46 ∉ t := fun hmem => absurd (s.tests_plain t ht 46 hmem) (by decide)
    rw [dropPattern_literal hdot]
    split_ifs with hpre
    · exact iff_of_true rfl hpre
    · exact iff_of_false Bool.false_ne_true hpre
  refine and_congr ?_ ?_
  · simp only [getAllRulename, List.mem_flatMap, List.mem_filter, loadRuleFromCf,
      List.mem_filterMap, ruleOf_eq_some_iff, and_assoc]
  · rw [isDisabled, List.any_eq_true]
    exact exists_congr fun t => and_congr_right fun ht => (hplain t ht).symm

section Scores

variable {w : Bytes} {c : UInt8}

theorem marked_cons_iff :
    Marked (c :: w) ↔ (c = 35 ∧ w.head?.any isDigit = true) ∨ Marked w := by
  constructor
  · rintro ⟨a, d, b, heq, hd⟩
    cases a with
    | nil =>
      obtain ⟨rfl, rfl⟩ := List.cons.inj heq
      exact .inl ⟨rfl, hd⟩
    | cons x a =>
      obtain ⟨rfl, rfl⟩ := List.cons.inj heq
      exact .inr ⟨a, d, b, rfl, hd⟩
  · rintro (⟨rfl, hd⟩ | ⟨a, d, b, rfl, hd⟩)
    · cases w with
      | nil => cases hd
      | cons d b => exact ⟨[], d, b, rfl, hd⟩
    · exact ⟨c :: a, d, b, rfl, hd⟩

theorem scoreAt_eq_none_iff : scoreAt w = none ↔ ¬Marked w := by
  induction w with
  | nil =>
    refine iff_of_true rfl ?_
    rintro ⟨a, d, b, heq, -⟩
    simp at heq
  | cons c w ih =>
    rw [scoreAt, marked_cons_iff]
    cases hrec : scoreAt w with
    | some s =>
      rw [hrec] at ih
      have hmarked : Marked w := by simpa using ih
      simp [hmarked]
    | none =>
      rw [hrec] at ih
      simp only [true_iff] at ih
      by_cases hc : c = 35 ∧ w.head?.any isDigit = true
      · simp [hc]
      · simp [hc, ih]

theorem CutsTo.marked {name score : Bytes} (h : CutsTo w name score) : Marked w := by
  obtain ⟨rest, rfl, hne, hdigits, -, -⟩ := h
  obtain ⟨d, b, rfl⟩ := List.exists_cons_of_ne_nil hne
  exact ⟨name, d, b ++ rest, rfl, hdigits d List.mem_cons_self⟩

theorem scoreAt_eq_some_iff {name score : Bytes} :
    scoreAt w = some (name, score) ↔ CutsTo w name score := by
  induction w generalizing name score with
  | nil =>
    refine iff_of_false nofun ?_
    rintro ⟨rest, heq, -⟩
    simp at heq
  | cons c w ih =>
    rw [scoreAt]
    cases hrec : scoreAt w with
    | some s =>
      obtain ⟨n, v⟩ := s
      obtain ⟨rest, hw, hv⟩ := ih.1 hrec
      constructor
      · intro h
        obtain ⟨rfl, rfl⟩ := Prod.mk.inj (Option.some.inj h)
        exact ⟨rest, by rw [hw]; rfl, hv⟩
      · rintro ⟨rest', hw', hv'⟩
        cases name with
        | nil =>
          obtain ⟨-, hw'⟩ := List.cons.inj hw'
          exact absurd (CutsTo.marked ⟨rest, hw, hv⟩) (hw' ▸ hv'.2.2.2)
        | cons x name =>
          obtain ⟨rfl, htail⟩ := List.cons.inj hw'
          have hcut : scoreAt w = some (name, score) := ih.2 ⟨rest', htail, hv'⟩
          obtain ⟨rfl, rfl⟩ := Prod.mk.inj (Option.some.inj (hrec.symm.trans hcut))
          rfl
    | none =>
      have hunmarked := scoreAt_eq_none_iff.1 hrec
      dsimp only
      split_ifs with hc
      · simp only [Bool.and_eq_true, decide_eq_true_eq] at hc
        obtain ⟨rfl, hdigit⟩ := hc
        have hsplit := List.takeWhile_append_dropWhile (p := isDigit) (l := w)
        constructor
        · intro h
          obtain ⟨rfl, rfl⟩ := Prod.mk.inj (Option.some.inj h)
          refine ⟨w.dropWhile isDigit, by rw [hsplit]; rfl, ?_, fun c => List.mem_takeWhile_imp,
            fun c hc => ?_, by rwa [hsplit]⟩
          · cases w with
            | nil => cases hdigit
            | cons d b => simp [List.takeWhile_cons_of_pos (show isDigit d = true from hdigit)]
          · have hhead := List.head?_dropWhile_not isDigit w
            rw [Option.mem_def.1 hc] at hhead
            simpa using hhead
        · rintro ⟨rest, heq, hne, hdigits, hrest, -⟩
          cases name with
          | nil =>
            obtain ⟨-, rfl⟩ := List.cons.inj heq
            rw [takeWhile_append_of_head hrest, List.takeWhile_eq_self_iff.2 hdigits]
          | cons x name =>
            obtain ⟨-, rfl⟩ := List.cons.inj heq
            obtain ⟨d, b, rfl⟩ := List.exists_cons_of_ne_nil hne
            exact absurd ⟨name, d, b ++ rest, rfl, hdigits d List.mem_cons_self⟩ hunmarked
      · refine iff_of_false nofun fun h => ?_
        have hmarked := h.marked
        simp only [Bool.and_eq_true, decide_eq_true_eq] at hc
        rw [marked_cons_iff] at hmarked
        exact hmarked.elim hc hunmarked

theorem scoreItem_eq_some_iff {item name score : Bytes} :
    scoreItem item = some (name, score) ↔ Gives item name score := by
  have hnone : ∀ u, (scoreAt u).filter (fun s => s.1 ≠ []) = none ↔
      ∀ n v, CutsTo u n v → n = [] := by
    intro u
    rw [Option.filter_eq_none_iff]
    constructor
    · intro h n v hcut
      have hfalse := h (n, v) (scoreAt_eq_some_iff.2 hcut)
      simpa using hfalse
    · rintro h ⟨n, v⟩ hs
      simpa using h n v (scoreAt_eq_some_iff.1 hs)
  have hsome : ∀ u, (scoreAt u).filter (fun s => s.1 ≠ []) = some (name, score) ↔
      CutsTo u name score ∧ name ≠ [] := by
    intro u
    rw [Option.filter_eq_some_iff, scoreAt_eq_some_iff, decide_eq_true_eq]
  rw [scoreItem, List.findSome?_eq_some_iff]
  simp only [hnone, hsome, Gives]
  constructor
  · rintro ⟨before, w, after, hwords, ⟨hcut, hne⟩, hbefore⟩
    exact ⟨hne, before, w, after, hwords, hcut, hbefore⟩
  · rintro ⟨hne, before, w, after, hwords, hcut, hbefore⟩
    exact ⟨before, w, after, hwords, ⟨hcut, hne⟩, hbefore⟩

end Scores

/-! ## Assignments -/

section Assignments

variable {l r : List (Target × Bytes)} {t : Target} {v : Bytes}

theorem lastOf_append (l r : List (Target × Bytes)) (t : Target) :
    lastOf (l ++ r) t = (lastOf r t).or (lastOf l t) := by
  rw [lastOf, List.filter_append, List.getLast?_append, Option.map_or]
  rfl

theorem mem_of_lastOf (h : lastOf l t = some v) : (t, v) ∈ l := by
  obtain ⟨a, ha, rfl⟩ := Option.map_eq_some_iff.1 h
  obtain ⟨hmem, ht⟩ := List.mem_filter.1 (List.mem_of_getLast? ha)
  rw [decide_eq_true_eq] at ht
  rwa [← ht]

theorem lastOf_eq_none_iff : lastOf l t = none ↔ ∀ v, (t, v) ∉ l := by
  rw [lastOf, Option.map_eq_none_iff, List.getLast?_eq_none_iff, List.filter_eq_nil_iff]
  constructor
  · exact fun h v hmem => h (t, v) hmem (decide_eq_true rfl)
  · rintro h ⟨t', v⟩ hmem heq
    rw [decide_eq_true_eq] at heq
    exact h v (heq ▸ hmem)

/-- If all assignments to a target agree, the last one is any of them. -/
theorem lastOf_eq_some_of_agree (hagree : ∀ w, (t, w) ∈ l → w = v) (h : (t, v) ∈ l) :
    lastOf l t = some v := by
  cases hlast : lastOf l t with
  | none => exact absurd h (lastOf_eq_none_iff.1 hlast v)
  | some w => rw [hagree w (mem_of_lastOf hlast)]

theorem assignment_scoreLine {name : Bytes} (h : IsWord name) (score : Bytes) :
    assignment (scoreLine name score) = some (.score name, score) := by
  have hscore : cutAt 32 (scoreLine name score) = (bytes "score", some (name ++ 32 :: score)) :=
    cutAt_append (show 32 ∉ bytes "score" by decide) (name ++ 32 :: score)
  have hname : cutAt 32 (name ++ 32 :: score) = (name, some score) :=
    cutAt_append (h.not_mem (by decide)) score
  simp only [assignment, hscore, hname, if_true]

/-- The assignments of the options. -/
def optionAssignments (local_cf_hash : Assoc Bytes Bytes) : List (Target × Bytes) :=
  (optionLines local_cf_hash).filterMap assignment

/-- The score that the last of the factory's items in which a name is found gives it. -/
def scoreOf (sa : Assoc Bytes Bytes) (name : Bytes) : Option Bytes :=
  (((scores sa).filter fun e => e.1 = name).getLast?).map Prod.snd

instance (s : Settings) (name : Bytes) : Decidable (Off s name) :=
  decidable_of_iff _ (off_iff s name).symm

/-- The score is that of the last item which gives the name one. -/
theorem scored_iff {sa : Assoc Bytes Bytes} {name score : Bytes} :
    Scored sa name score ↔ scoreOf sa name = some score := by
  have hsome : ∀ i v, ((scoreItem i).filter fun e => e.1 = name).map Prod.snd = some v ↔
      Gives i name v := by
    intro i v
    rw [← scoreItem_eq_some_iff, Option.map_eq_some_iff]
    constructor
    · rintro ⟨⟨n, v⟩, h, rfl⟩
      obtain ⟨hitem, hn⟩ := Option.filter_eq_some_iff.1 h
      rw [← of_decide_eq_true hn]
      exact hitem
    · exact fun h => ⟨(name, v), Option.filter_eq_some_iff.2 ⟨h, decide_eq_true rfl⟩, rfl⟩
  have hnone : ∀ i, ((scoreItem i).filter fun e => e.1 = name).map Prod.snd = none ↔
      ∀ v, ¬Gives i name v := by
    intro i
    rw [Option.eq_none_iff_forall_ne_some]
    exact forall_congr' fun v => not_congr (hsome i v)
  rw [scoreOf, scores, List.filter_filterMap, List.getLast?_filterMap, List.map_findSome?,
    List.findSome?_eq_some_iff, Scored]
  simp only [Function.comp_apply, hsome, hnone]
  constructor
  · rintro ⟨before, item, after, hitems, hitem, hafter⟩
    refine ⟨after.reverse, item, before.reverse, by simp [hitems], hitem, fun i hi => ?_⟩
    exact hafter i (List.mem_reverse.1 hi)
  · rintro ⟨after, item, before, hitems, hitem, hafter⟩
    refine ⟨before.reverse, item, after.reverse, ?_, hitem, fun i hi => ?_⟩
    · rw [← List.reverse_reverse (fields 44 _), hitems]
      simp
    · exact hafter i (List.mem_reverse.1 hi)

theorem not_scored_iff {sa : Assoc Bytes Bytes} {name : Bytes} :
    (∀ d, ¬Scored sa name d) ↔ scoreOf sa name = none := by
  rw [Option.eq_none_iff_forall_ne_some]
  exact forall_congr' fun d => not_congr scored_iff

theorem isWord_of_mem_scores {sa : Assoc Bytes Bytes} {e : Bytes × Bytes} (h : e ∈ scores sa) :
    IsWord e.1 ∧ IsWord e.2 := by
  obtain ⟨item, -, hitem⟩ := List.mem_filterMap.1 h
  exact isWord_of_scoreItem hitem

theorem filterMap_scores (sa : Assoc Bytes Bytes) :
    ((scores sa).map fun e => scoreLine e.1 e.2).filterMap assignment =
      (scores sa).map fun e => (Target.score e.1, e.2) := by
  rw [List.filterMap_map, ← List.filterMap_eq_map]
  exact List.filterMap_congr fun e he => assignment_scoreLine (isWord_of_mem_scores he).1 e.2

theorem lastOf_scores (sa : Assoc Bytes Bytes) (name : Bytes) :
    lastOf ((scores sa).map fun e => (Target.score e.1, e.2)) (.score name) = scoreOf sa name := by
  have hfilter : ((fun a : Target × Bytes => decide (a.1 = Target.score name)) ∘
      fun e : Bytes × Bytes => (Target.score e.1, e.2)) = fun e => decide (e.1 = name) := by
    funext e
    simp
  rw [lastOf, List.filter_map, hfilter, List.getLast?_map, Option.map_map]
  rfl

theorem lastOf_scores_option (sa : Assoc Bytes Bytes) (key : Bytes) :
    lastOf ((scores sa).map fun e => (Target.score e.1, e.2)) (.option key) = none := by
  rw [lastOf_eq_none_iff]
  intro v hmem
  obtain ⟨e, -, he⟩ := List.mem_map.1 hmem
  cases he

theorem filterMap_rules {rules : List Bytes} (h : ∀ r ∈ rules, IsWord r) :
    (rules.map fun r => scoreLine r (bytes "0")).filterMap assignment =
      rules.map fun r => (Target.score r, bytes "0") := by
  rw [List.filterMap_map, ← List.filterMap_eq_map]
  exact List.filterMap_congr fun r hr => assignment_scoreLine (h r hr) _

theorem lastOf_rules (rules : List Bytes) (name : Bytes) :
    lastOf (rules.map fun r => (Target.score r, bytes "0")) (.score name) =
      if name ∈ rules then some (bytes "0") else none := by
  split_ifs with hmem
  · refine lastOf_eq_some_of_agree (fun w hw => ?_) (List.mem_map.2 ⟨name, hmem, rfl⟩)
    obtain ⟨r, -, hr⟩ := List.mem_map.1 hw
    exact (Prod.mk.inj hr).2.symm
  · rw [lastOf_eq_none_iff]
    intro v hv
    obtain ⟨r, hr, heq⟩ := List.mem_map.1 hv
    obtain ⟨hname, -⟩ := Prod.mk.inj heq
    obtain rfl := Target.score.inj hname
    exact hmem hr

theorem lastOf_rules_option (rules : List Bytes) (key : Bytes) :
    lastOf (rules.map fun r => (Target.score r, bytes "0")) (.option key) = none := by
  rw [lastOf_eq_none_iff]
  intro v hmem
  obtain ⟨e, -, he⟩ := List.mem_map.1 hmem
  cases he

end Assignments

/-! ## The options -/

section Options

variable {sa web : Assoc Bytes Bytes} {key val : Bytes}

theorem mem_converted_iff : (key, val) ∈ converted web ↔
    ∃ w v, web.lookup w = some v ∧ Assoc.find w confMap = some key ∧ confBool v = val := by
  rw [converted, List.mem_filterMap]
  constructor
  · rintro ⟨⟨w, v⟩, hmem, h⟩
    obtain ⟨k, hk, heq⟩ := Option.map_eq_some_iff.1 h
    obtain ⟨rfl, rfl⟩ := Prod.mk.inj heq
    exact ⟨w, v, Assoc.mem_entries_iff.1 hmem, hk, rfl⟩
  · rintro ⟨w, v, hw, hk, rfl⟩
    exact ⟨(w, v), Assoc.mem_entries_iff.2 hw, by rw [hk]; rfl⟩

/-- No two options of the web interface become the same one. -/
theorem confMap_injective {w w' : Bytes} (h : Assoc.find w confMap = some key)
    (h' : Assoc.find w' confMap = some key) : w = w' := by
  have hnodup : (confMap.map Prod.snd).Nodup := by decide +kernel
  have heq := List.inj_on_of_nodup_map hnodup (Assoc.mem_of_find h) (Assoc.mem_of_find h') rfl
  exact (Prod.mk.inj heq).1

theorem nodup_converted (web : Assoc Bytes Bytes) : ((converted web).map Prod.fst).Nodup := by
  have hkeys : ∀ l : List (Bytes × Bytes), (l.map Prod.fst).Nodup →
      ((l.filterMap fun e => (Assoc.find e.1 confMap).map fun key => (key, confBool e.2)).map
        Prod.fst).Nodup := by
    intro l hl
    induction l with
    | nil => exact List.nodup_nil
    | cons e l ih =>
      obtain ⟨hnot, hl⟩ := List.nodup_cons.1 hl
      rw [List.filterMap_cons]
      cases hfind : Assoc.find e.1 confMap with
      | none => exact ih hl
      | some key =>
        refine List.nodup_cons.2 ⟨fun hmem => hnot ?_, ih hl⟩
        obtain ⟨a, ha, hkey⟩ := List.mem_map.1 hmem
        obtain ⟨e', he', hconv⟩ := List.mem_filterMap.1 ha
        obtain ⟨k, hk, rfl⟩ := Option.map_eq_some_iff.1 hconv
        obtain rfl : k = key := hkey
        rw [confMap_injective hfind hk]
        exact List.mem_map_of_mem he'
  exact hkeys web.entries web.nodup

theorem lookup_foldl_put {κ ν : Type*} [DecidableEq κ] {l : List (κ × ν)}
    (h : (l.map Prod.fst).Nodup) (m : Assoc κ ν) (k : κ) :
    (l.foldl (fun m e => m.put e.1 e.2) m).lookup k = (Assoc.find k l).or (m.lookup k) := by
  induction l generalizing m with
  | nil => rfl
  | cons e l ih =>
    obtain ⟨hnot, hl⟩ := List.nodup_cons.1 h
    rw [List.foldl_cons, ih hl, Assoc.lookup_put, Assoc.find]
    by_cases hk : e.1 = k
    · have hnone : Assoc.find k l = none := by
        rw [Assoc.find_eq_none_iff]
        rintro e' he' rfl
        exact hnot (hk ▸ List.mem_map_of_mem he')
      rw [hnone, if_pos hk.symm, if_pos hk]
      rfl
    · rw [if_neg (Ne.symm hk), if_neg hk]

theorem find_converted_iff {l : List (Bytes × Bytes)} (h : (l.map Prod.fst).Nodup) :
    Assoc.find key l = some val ↔ (key, val) ∈ l :=
  ⟨Assoc.mem_of_find, Assoc.find_of_mem h⟩

/-- What is in the hash: the options converted, and for the other keys the factory's section. -/
theorem lookup_localCf_iff : (localCf sa web).lookup key = some val ↔
    (∃ w v, web.lookup w = some v ∧ Assoc.find w confMap = some key ∧ confBool v = val) ∨
      (∀ w v, web.lookup w = some v → Assoc.find w confMap ≠ some key) ∧
        key ≠ bytes "FactoryScore" ∧ sa.lookup key = some val := by
  have hsection :
      (Assoc.ofList (sa.entries.filter fun e => e.1 ≠ bytes "FactoryScore")).lookup key =
        some val ↔ key ≠ bytes "FactoryScore" ∧ sa.lookup key = some val := by
    have hnodup := sa.nodup.sublist
      ((List.filter_sublist (p := fun e => e.1 ≠ bytes "FactoryScore")).map Prod.fst)
    rw [← Assoc.mem_entries_iff, Assoc.entries_ofList hnodup, List.mem_filter,
      Assoc.mem_entries_iff, decide_eq_true_eq, and_comm]
  rw [localCf, lookup_foldl_put (nodup_converted web), ← mem_converted_iff, Option.or_eq_some_iff,
    find_converted_iff (nodup_converted web), hsection]
  refine or_congr_right (and_congr_left fun _ => ?_)
  rw [Assoc.find_eq_none_iff]
  constructor
  · intro h w v hw hk
    exact h _ (mem_converted_iff.2 ⟨w, v, hw, hk, rfl⟩) rfl
  · rintro h ⟨k, v⟩ hmem rfl
    obtain ⟨w, v', hw, hk, -⟩ := mem_converted_iff.1 hmem
    exact h w v' hw hk

/-- The hash is the same in whatever order the configurations are walked through. -/
theorem lookup_localCf_congr {sa' web' : Assoc Bytes Bytes} (hsa : sa'.lookup = sa.lookup)
    (hweb : web'.lookup = web.lookup) : (localCf sa' web').lookup = (localCf sa web).lookup := by
  funext k
  refine Option.ext fun v => ?_
  rw [lookup_localCf_iff, lookup_localCf_iff, hsa, hweb]

end Options

/-! ## The lines -/

section Lines

variable {s : Settings} (o : Order s)

theorem line_of_lookup {e : Bytes × Bytes} (h : (localCf s.sa s.web).lookup e.1 = some e.2) :
    10 ∉ e.1 ∧ 10 ∉ e.2 := by
  rcases lookup_localCf_iff.1 h with ⟨w, v, hw, hk, hv⟩ | ⟨-, -, hsa⟩
  · have hkeys : ∀ a ∈ confMap, 10 ∉ a.2 := by decide +kernel
    refine ⟨hkeys _ (Assoc.mem_of_find hk), ?_⟩
    have hline := (s.web_line _ (Assoc.mem_entries_iff.2 hw)).2
    rw [← hv, confBool]
    split_ifs
    · decide
    · decide
    · exact hline
  · exact s.sa_line _ (Assoc.mem_entries_iff.2 hsa)

theorem lookup_hash : o.local_cf_hash.lookup = (localCf s.sa s.web).lookup :=
  o.hash_same.trans (lookup_localCf_congr o.sa_same o.web_same)

theorem scores_order : scores o.sa = scores s.sa := by
  rw [scores, scores, o.sa_same]

theorem line_not_mem {name score : Bytes} (hname : IsWord name) (hscore : IsWord score) :
    10 ∉ scoreLine name score := by
  have hline : ∀ c : UInt8, c ∈ bytes "score " → c ≠ 10 := by decide +kernel
  intro hmem
  rcases List.mem_append.1 hmem with hmem | hmem
  · exact hline 10 hmem rfl
  · rcases List.mem_append.1 hmem with hmem | hmem
    · exact hname.not_mem (by decide) hmem
    · rcases List.mem_cons.1 hmem with hmem | hmem
      · cases hmem
      · exact hscore.not_mem (by decide) hmem

/-- **Where each assignment comes from**: the tests that are off, the factory's scores, and the
options, the first of these that has one. -/
theorem read_content (t : Target) :
    read (content s o) t =
      match t with
      | .score name =>
          if Off s name then some (bytes "0")
          else (scoreOf s.sa name).or (lastOf (optionAssignments o.local_cf_hash) t)
      | .option _ => lastOf (optionAssignments o.local_cf_hash) t := by
  have hrules : ∀ r ∈ o.disabled_rules, IsWord r := fun r hr =>
    isWord_of_mem_getAllRulename ((o.rules_same r).1 hr).1
  have hzero : IsWord (bytes "0") := by decide +kernel
  have hlines : ∀ l ∈ optionLines o.local_cf_hash ++
      (scores o.sa).map (fun e => scoreLine e.1 e.2) ++
      o.disabled_rules.map fun r => scoreLine r (bytes "0"), 10 ∉ l := by
    intro l hl
    rcases List.mem_append.1 hl with hl | hl
    · rcases List.mem_append.1 hl with hl | hl
      · obtain ⟨e, he, rfl⟩ := List.mem_map.1 hl
        have hlookup := Assoc.mem_entries_iff.1 (List.mem_filter.1 he).1
        rw [lookup_hash] at hlookup
        obtain ⟨hkey, hval⟩ := line_of_lookup hlookup
        simp [hkey, hval]
      · obtain ⟨e, he, rfl⟩ := List.mem_map.1 hl
        exact line_not_mem (isWord_of_mem_scores he).1 (isWord_of_mem_scores he).2
    · obtain ⟨r, hr, rfl⟩ := List.mem_map.1 hl
      exact line_not_mem (hrules r hr) hzero
  have hread : ∀ ls : List Bytes, (ls.map (· ++ [10])).filterMap (fun l => assignment (chomp l)) =
      ls.filterMap assignment := by
    intro ls
    rw [List.filterMap_map]
    refine List.filterMap_congr fun l _ => ?_
    simp [chomp]
  have hoff : ∀ name, name ∈ o.disabled_rules ↔ Off s name := fun name =>
    (o.rules_same name).trans (off_iff s name).symm
  rw [read, content, lines_flatMap hlines, hread, List.filterMap_append, List.filterMap_append,
    filterMap_scores, filterMap_rules hrules, lastOf_append, lastOf_append, scores_order]
  cases t with
  | option key => rw [lastOf_rules_option, lastOf_scores_option]; rfl
  | score name =>
    rw [lastOf_rules, lastOf_scores]
    simp only [hoff]
    split_ifs <;> rfl

end Lines

end NoSpam.SA
