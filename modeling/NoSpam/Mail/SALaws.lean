import NoSpam.Mail.SA

/-!
# What the settings are to realise

The tests named in the web interface are to have the score 0, the factory's scores are to hold for
the others, and the options of the web interface are to hold in the place of the factory's, in
whatever order the hashes are walked through.  `realises_iff` says for which settings they do.
-/

namespace NoSpam.SA

open Text Perl
open NoSpam.Domain (words)

/-! ## What is expected -/

/-- Upper-case letters, digits and underscores. -/
def IsPlain (name : Bytes) : Prop :=
  name ≠ [] ∧ ∀ c ∈ name, (isUpper c || isDigit c || c = 95) = true

/-- A line `type NAME ...` of a rule file. -/
def Defined (cf_dir : List (Bytes × Bytes)) (name : Bytes) : Prop :=
  ∃ f ∈ cf_dir, isCf f.1 = true ∧ ∃ line ∈ lines 10 f.2,
    ∃ type more, words (chomp line) = type :: name :: more ∧ more ≠ []

/-- A test that is to be switched off. -/
def Disabled (s : Settings) (name : Bytes) : Prop :=
  Defined s.cf_dir name ∧ ∃ t ∈ s.DisabledTests, t ≠ [] ∧ t <+: name

/-- A number without a sign. -/
def unsignedValue (b : Bytes) : Option ℚ :=
  let whole := b.takeWhile isDigit
  match b.dropWhile isDigit with
  | [] => if whole = [] then none else some (value whole)
  | c :: frac =>
      if c = 46 && frac.all isDigit && (whole ≠ [] || frac ≠ []) then
        some (value whole + value frac / 10 ^ frac.length)
      else none

/-- A decimal number. -/
def decimalValue (b : Bytes) : Option ℚ :=
  match b with
  | [] => none
  | c :: r =>
      if c = 45 then (unsignedValue r).map (- ·)
      else if c = 43 then unsignedValue r
      else unsignedValue (c :: r)

/-- The value of an item `NAME#value`. -/
def itemValue (name item : Bytes) : Option ℚ :=
  match cutAt 35 item with
  | (key, some v) => if key = name then decimalValue v else none
  | _ => none

/-- The value with which a name is listed. -/
def listed (s : Settings) (name : Bytes) : Option ℚ :=
  ((fields 44 ((s.sa.lookup (bytes "FactoryScore")).getD [])).filterMap (itemValue name)).getLast?

/-- The settings realise the configuration. -/
structure Realises (s : Settings) : Prop where
  disabled : ∀ name, IsPlain name → Disabled s name → ∀ o : Order s,
    (read (content s o) (.score name)).bind decimalValue = some 0
  listed : ∀ name, IsPlain name → ¬Disabled s name → ∀ v, listed s name = some v → ∀ o : Order s,
    (read (content s o) (.score name)).bind decimalValue = some v
  others : ∀ name, IsPlain name → ¬Disabled s name → SA.listed s name = none → ∀ o : Order s,
    read (content s o) (.score name) =
      lastOf (optionAssignments o.local_cf_hash) (.score name)
  overrides : ∀ e ∈ confMap, ∀ v, s.web.lookup e.1 = some v → ∀ o : Order s,
    read (content s o) (.option e.2) = if confBool v = [] then none else some (confBool v)
  ordered : ∀ (o o' : Order s) t, read (content s o) t = read (content s o') t

/-- The option is one of the web interface, converted, or it stands in the factory's section and no
option of the web interface becomes it. -/
def Chosen (s : Settings) (key val : Bytes) : Prop :=
  (∃ w v, s.web.lookup w = some v ∧ Assoc.find w confMap = some key ∧ confBool v = val) ∨
    (∀ w v, s.web.lookup w = some v → Assoc.find w confMap ≠ some key) ∧
      key ≠ bytes "FactoryScore" ∧ s.sa.lookup key = some val

/-- The line of an option sets the target to the value. -/
def Sets (s : Settings) (t : Target) (v : Bytes) : Prop :=
  ∃ key val, Chosen s key val ∧ val ≠ [] ∧ assignment (key ++ 32 :: val) = some (t, v)

/-- What is set neither by the factory's scores nor by a test that is off. -/
def Left (s : Settings) : Target → Prop
  | .option _ => True
  | .score name => ¬Off s name ∧ ∀ d, ¬Scored s.sa name d

/-- The name is left with a score of this value: by the last item that gives it one, or without such
an item by a line of an option. -/
def Valued (s : Settings) (name : Bytes) (x : ℚ) : Prop :=
  (∃ d, Scored s.sa name d ∧ decimalValue d = some x) ∨
    (∀ d, ¬Scored s.sa name d) ∧ ∃ v, Sets s (.score name) v ∧ decimalValue v = some x

/-- The patterns find the names and the scores, and no two options set the same. -/
structure Suits (s : Settings) : Prop where
  disabled : ∀ name, IsPlain name → Disabled s name → ¬Off s name → Valued s name 0
  listed : ∀ name, IsPlain name → ¬Disabled s name → ∀ v, SA.listed s name = some v →
    if Off s name then v = 0 else Valued s name v
  others : ∀ name, IsPlain name → ¬Disabled s name → SA.listed s name = none →
    if Off s name then ∀ v, Sets s (.score name) v ↔ v = bytes "0"
    else ∀ v, Scored s.sa name v → ∀ w, Sets s (.score name) w ↔ w = v
  unset : ∀ e ∈ confMap, ∀ v, s.web.lookup e.1 = some v → confBool v = [] →
    ∀ w, ¬Sets s (.option e.2) w
  coherent : ∀ t, Left s t → ∀ v w, Sets s t v → Sets s t w → v = w

/-! ## The options under every order -/

section Orders

variable {s : Settings} {t : Target} {v : Bytes}

theorem mem_optionAssignments_iff (o : Order s) :
    (t, v) ∈ optionAssignments o.local_cf_hash ↔ Sets s t v := by
  rw [optionAssignments, optionLines, List.mem_filterMap]
  constructor
  · rintro ⟨l, hl, hassign⟩
    obtain ⟨⟨key, val⟩, he, rfl⟩ := List.mem_map.1 hl
    obtain ⟨he, hval⟩ := List.mem_filter.1 he
    refine ⟨key, val, lookup_localCf_iff.1 ?_, of_decide_eq_true hval, hassign⟩
    rw [← lookup_hash o]
    exact Assoc.mem_entries_iff.1 he
  · rintro ⟨key, val, hchosen, hval, hassign⟩
    have hlookup : (localCf s.sa s.web).lookup key = some val := lookup_localCf_iff.2 hchosen
    rw [← lookup_hash o] at hlookup
    exact ⟨_, List.mem_map.2 ⟨(key, val), List.mem_filter.2
      ⟨Assoc.mem_entries_iff.2 hlookup, decide_eq_true hval⟩, rfl⟩, hassign⟩

/-- What only one value is set to has this value in every order. -/
theorem lastOf_of_sets (o : Order s) (hunique : ∀ w, Sets s t w → w = v) (h : Sets s t v) :
    lastOf (optionAssignments o.local_cf_hash) t = some v :=
  lastOf_eq_some_of_agree (fun w hw => hunique w ((mem_optionAssignments_iff o).1 hw))
    ((mem_optionAssignments_iff o).2 h)

theorem lastOf_eq_none (o : Order s) :
    lastOf (optionAssignments o.local_cf_hash) t = none ↔ ∀ w, ¬Sets s t w := by
  rw [lastOf_eq_none_iff]
  exact forall_congr' fun w => not_congr (mem_optionAssignments_iff o)

theorem sets_of_lastOf (o : Order s)
    (h : lastOf (optionAssignments o.local_cf_hash) t = some v) : Sets s t v :=
  (mem_optionAssignments_iff o).1 (mem_of_lastOf h)

/-- The hashes in the order in which they are stored. -/
def storedOrder (s : Settings) : Order s where
  sa := s.sa
  web := s.web
  local_cf_hash := localCf s.sa s.web
  disabled_rules := (getAllRulename s.cf_dir).filter (isDisabled s.DisabledTests)
  sa_same := rfl
  web_same := rfl
  hash_same := rfl
  rules_same _ := List.mem_filter

/-- A hash with an entry moved to the end. -/
def moveLast (m : Assoc Bytes Bytes) (key val : Bytes) : Assoc Bytes Bytes where
  entries := (m.unset key).entries ++ [(key, val)]
  nodup := by
    rw [List.map_append, List.nodup_append]
    refine ⟨(m.unset key).nodup, List.nodup_singleton key, ?_⟩
    intro k hk k' hk' heq
    obtain ⟨e, he, rfl⟩ := List.mem_map.1 hk
    rw [List.map_singleton, List.mem_singleton] at hk'
    have hne := of_decide_eq_true (List.mem_filter.1 he).2
    exact hne (heq.trans hk')

theorem lookup_moveLast {m : Assoc Bytes Bytes} {key val : Bytes} (h : m.lookup key = some val) :
    (moveLast m key val).lookup = m.lookup := by
  funext k
  refine Option.ext fun v => ?_
  rw [← Assoc.mem_entries_iff, moveLast, List.mem_append, List.mem_singleton,
    Assoc.mem_entries_iff, Assoc.lookup_unset]
  split_ifs with hk
  · rw [hk, h]
    simp [eq_comm]
  · simp [hk]

/-- Any of the values to which a target is set can be the one that wins. -/
theorem exists_order_of_sets (h : Sets s t v) :
    ∃ o : Order s, lastOf (optionAssignments o.local_cf_hash) t = some v := by
  obtain ⟨key, val, hchosen, hval, hassign⟩ := h
  have hlookup : (localCf s.sa s.web).lookup key = some val := lookup_localCf_iff.2 hchosen
  refine ⟨{ storedOrder s with
    local_cf_hash := moveLast (localCf s.sa s.web) key val
    hash_same := lookup_moveLast hlookup }, ?_⟩
  have hlast : optionAssignments (moveLast (localCf s.sa s.web) key val) =
      optionAssignments ((localCf s.sa s.web).unset key) ++ [(t, v)] := by
    have hone : [(key, val)].filter (fun e : Bytes × Bytes => e.2 ≠ []) = [(key, val)] :=
      List.filter_cons_of_pos (decide_eq_true hval)
    rw [optionAssignments, optionAssignments, optionLines, optionLines, moveLast,
      List.filter_append, List.map_append, List.filterMap_append, hone, List.map_singleton,
      List.filterMap_cons_some hassign, List.filterMap_nil]
  dsimp only
  rw [hlast, lastOf_append, lastOf_eq_some_of_agree (fun w hw => ?_) (List.mem_singleton.2 rfl)]
  · rfl
  · exact (Prod.mk.inj (List.mem_singleton.1 hw)).2

end Orders

/-! ## The settings -/

section Laws

variable {s : Settings} {name : Bytes}

theorem decimalValue_zero : decimalValue (bytes "0") = some 0 := by decide +kernel

/-- The score that a name has been left with. -/
theorem read_score (o : Order s) (hoff : ¬Off s name) :
    read (content s o) (.score name) =
      (scoreOf s.sa name).or (lastOf (optionAssignments o.local_cf_hash) (.score name)) := by
  rw [read_content]
  exact if_neg hoff

theorem read_score_off (o : Order s) (hoff : Off s name) :
    read (content s o) (.score name) = some (bytes "0") := by
  rw [read_content]
  exact if_pos hoff

theorem read_option (o : Order s) (key : Bytes) :
    read (content s o) (.option key) = lastOf (optionAssignments o.local_cf_hash) (.option key) :=
  read_content o _

theorem read_left (o : Order s) {t : Target} (h : Left s t) :
    read (content s o) t = lastOf (optionAssignments o.local_cf_hash) t := by
  cases t with
  | option key => exact read_option o key
  | score name => rw [read_score o h.1, not_scored_iff.1 h.2, Option.none_or]

/-- When a name that is not off has a value in every order. -/
theorem value_iff (hcoherent : ∀ t, Left s t → ∀ v w, Sets s t v → Sets s t w → v = w)
    (hoff : ¬Off s name) (x : ℚ) :
    (∀ o : Order s, (read (content s o) (.score name)).bind decimalValue = some x) ↔
      Valued s name x := by
  simp only [Valued, scored_iff, ← Option.eq_none_iff_forall_ne_some]
  cases hscore : scoreOf s.sa name with
  | some d =>
    simp only [read_score _ hoff, hscore, Option.some_or, reduceCtorEq, false_and, or_false,
      Option.some_inj, exists_eq_left', Option.bind_some]
    exact ⟨fun h => h (storedOrder s), fun h _ => h⟩
  | none =>
    have hleft : Left s (.score name) := ⟨hoff, not_scored_iff.2 hscore⟩
    simp only [read_score _ hoff, hscore, Option.none_or, reduceCtorEq, false_and, exists_false,
      true_and, false_or]
    constructor
    · intro h
      obtain ⟨v, hv, hx⟩ := Option.bind_eq_some_iff.1 (h (storedOrder s))
      exact ⟨v, sets_of_lastOf _ hv, hx⟩
    · rintro ⟨v, hv, hx⟩ o
      rw [lastOf_of_sets o (fun w hw => hcoherent _ hleft w v hw hv) hv]
      exact hx

/-- When the options set a target to one value in every order. -/
theorem lastOf_eq_some_iff {t : Target} {v : Bytes} :
    (∀ o : Order s, lastOf (optionAssignments o.local_cf_hash) t = some v) ↔
      ∀ w, Sets s t w ↔ w = v := by
  constructor
  · intro h w
    constructor
    · intro hw
      obtain ⟨o, ho⟩ := exists_order_of_sets hw
      exact Option.some.inj (ho.symm.trans (h o))
    · rintro rfl
      exact sets_of_lastOf _ (h (storedOrder s))
  · exact fun h o => lastOf_of_sets o (fun w hw => (h w).1 hw) ((h v).2 rfl)

theorem others_iff :
    (∀ o : Order s, read (content s o) (.score name) =
        lastOf (optionAssignments o.local_cf_hash) (.score name)) ↔
      if Off s name then ∀ v, Sets s (.score name) v ↔ v = bytes "0"
      else ∀ v, Scored s.sa name v → ∀ w, Sets s (.score name) w ↔ w = v := by
  simp only [scored_iff]
  split_ifs with hoff
  · simp only [read_score_off _ hoff, eq_comm (a := some (bytes "0"))]
    exact lastOf_eq_some_iff
  · cases hscore : scoreOf s.sa name with
    | none => simp [read_score _ hoff, hscore]
    | some v =>
      simp only [read_score _ hoff, hscore, Option.some_or, Option.some_inj, forall_eq,
        eq_comm (a := some v)]
      exact lastOf_eq_some_iff

/-- Every option of the table sets what it stands for. -/
theorem sets_of_confMap {e : Bytes × Bytes} (he : e ∈ confMap) {v : Bytes}
    (hv : s.web.lookup e.1 = some v) (hne : confBool v ≠ []) :
    Sets s (.option e.2) (confBool v) := by
  have hkeys : (confMap.map Prod.fst).Nodup := by decide +kernel
  have hnames : ∀ e ∈ confMap, 32 ∉ e.2 ∧ e.2 ≠ bytes "score" := by decide +kernel
  refine ⟨e.2, confBool v,
    .inl ⟨e.1, v, hv, Assoc.find_of_mem hkeys he, rfl⟩, hne, ?_⟩
  have hcut : cutAt 32 (e.2 ++ 32 :: confBool v) = (e.2, some (confBool v)) :=
    cutAt_append (hnames e he).1 _
  simp only [assignment, hcut, (hnames e he).2, if_false]

/-- **When the settings realise the configuration**: for every factory section, web configuration
and all rule files, exactly if the patterns find the names that are meant and the scores that are
listed, and no two entries of the hash set the same to different values. -/
theorem realises_iff (s : Settings) : Realises s ↔ Suits s := by
  constructor
  · intro h
    have hcoherent : ∀ t, Left s t → ∀ v w, Sets s t v → Sets s t w → v = w := by
      intro t hleft v w hv hw
      obtain ⟨o, ho⟩ := exists_order_of_sets hv
      obtain ⟨o', ho'⟩ := exists_order_of_sets hw
      have hsame := h.ordered o o' t
      rw [read_left o hleft, read_left o' hleft, ho, ho'] at hsame
      exact Option.some.inj hsame
    refine ⟨fun name hplain hdis hoff => ?_, fun name hplain hdis v hv => ?_,
      fun name hplain hdis hnone => ?_, fun e he v hv hnil => ?_, hcoherent⟩
    · exact (value_iff hcoherent hoff 0).1 (h.disabled name hplain hdis)
    · split_ifs with hoff
      · have hzero := h.listed name hplain hdis v hv (storedOrder s)
        rw [read_score_off _ hoff, Option.bind_some, decimalValue_zero] at hzero
        exact (Option.some.inj hzero).symm
      · exact (value_iff hcoherent hoff v).1 (h.listed name hplain hdis v hv)
    · exact others_iff.1 (h.others name hplain hdis hnone)
    · have hunset := h.overrides e he v hv (storedOrder s)
      rw [if_pos hnil, read_option, lastOf_eq_none] at hunset
      exact hunset
  · intro h
    refine ⟨fun name hplain hdis o => ?_, fun name hplain hdis v hv o => ?_,
      fun name hplain hdis hnone => ?_, fun e he v hv o => ?_, fun o o' t => ?_⟩
    · by_cases hoff : Off s name
      · rw [read_score_off o hoff, Option.bind_some, decimalValue_zero]
      · exact (value_iff h.coherent hoff 0).2 (h.disabled name hplain hdis hoff) o
    · have hlisted := h.listed name hplain hdis v hv
      by_cases hoff : Off s name
      · rw [if_pos hoff] at hlisted
        rw [read_score_off o hoff, Option.bind_some, decimalValue_zero, hlisted]
      · rw [if_neg hoff] at hlisted
        exact (value_iff h.coherent hoff v).2 hlisted o
    · exact others_iff.2 (h.others name hplain hdis hnone)
    · rw [read_option]
      split_ifs with hnil
      · exact (lastOf_eq_none o).2 (h.unset e he v hv hnil)
      · have hsets := sets_of_confMap he hv hnil
        exact lastOf_of_sets o (fun w hw => h.coherent (.option e.2) trivial w _ hw hsets) hsets
    · have hsame : Left s t → read (content s o) t = read (content s o') t := by
        intro hleft
        rw [read_left o hleft, read_left o' hleft]
        by_cases hex : ∃ v, Sets s t v
        · obtain ⟨v, hv⟩ := hex
          rw [lastOf_of_sets o (fun w hw => h.coherent t hleft w v hw hv) hv,
            lastOf_of_sets o' (fun w hw => h.coherent t hleft w v hw hv) hv]
        · rw [not_exists] at hex
          rw [(lastOf_eq_none o).2 hex, (lastOf_eq_none o').2 hex]
      cases t with
      | option key => exact hsame trivial
      | score name =>
        by_cases hoff : Off s name
        · rw [read_score_off o hoff, read_score_off o' hoff]
        · cases hscore : scoreOf s.sa name with
          | none => exact hsame ⟨hoff, not_scored_iff.2 hscore⟩
          | some d =>
            rw [read_score o hoff, read_score o' hoff, hscore, Option.some_or, Option.some_or]

/-- One of the factory's scores. -/
def razorScore : Settings where
  sa := ⟨[(bytes "FactoryScore", bytes "RAZOR2_CHECK#2.500")], List.nodup_singleton _⟩
  web := Assoc.empty
  DisabledTests := []
  cf_dir := []
  sa_line := by decide +kernel
  web_line := nofun
  tests_plain := nofun

/-- The score 2.5 is written as 2. -/
theorem score_cut_short :
    read (content razorScore (storedOrder razorScore)) (.score (bytes "RAZOR2_CHECK")) =
        some (bytes "2") ∧
      ¬Realises razorScore := by
  have hread : read (content razorScore (storedOrder razorScore)) (.score (bytes "RAZOR2_CHECK")) =
      some (bytes "2") := by decide +kernel
  refine ⟨hread, fun h => ?_⟩
  have hdis : ¬Disabled razorScore (bytes "RAZOR2_CHECK") := by
    rintro ⟨⟨f, hf, -⟩, -⟩
    cases hf
  have hlisted := h.listed (bytes "RAZOR2_CHECK") ⟨by decide, by decide +kernel⟩ hdis (5 / 2)
    (by decide +kernel) (storedOrder razorScore)
  rw [hread] at hlisted
  exact absurd hlisted (by decide +kernel)

end Laws

end NoSpam.SA
