import NoSpam.Base.Run
import NoSpam.Log.Line

/-!
# The report on the mail log

The processes that handle mails take the time of a mail first, and append its line to the log when
they have got its lock; `get_LogSimpleAnaylize` adds up the lines between two times, and stops at
the first line that is later.  The totals are those of the mails logged (`sums`) for every two
times, and every line is read back, exactly when every process appends a clean line under a time of
ten digits while no line of a later time is in the file (`logReadsBack_iff`).
-/

namespace NoSpam.Log

open Text Perl Machine

/-! ## The report -/

/-- What the report counts: the mails, those of each kind, and how often each sender, address and
rule occurs. -/
@[ext] structure Totals where
  totalNum : ℕ := 0
  maybeSpamNum : ℕ := 0
  spamNum : ℕ := 0
  virusNum : ℕ := 0
  overrunNum : ℕ := 0
  fromTop : Bytes → ℕ := fun _ => 0
  ipTop : Bytes → ℕ := fun _ => 0
  ruleTop : Bytes → ℕ := fun _ => 0

/-- `$top{$key} += 1 if ( $key )`. -/
def countUp (top : Bytes → ℕ) (key : Bytes) : Bytes → ℕ :=
  if isTrue key then Function.update top key (top key + 1) else top

/-- The counting of one line. -/
def Totals.add (t : Totals) (r : Row) : Totals :=
  let t := { t with totalNum := t.totalNum + 1 }
  let t :=
    if isTrue r.dynamic then { t with overrunNum := t.overrunNum + 1 }
    else if isTrue r.virus then { t with virusNum := t.virusNum + 1 }
    else if isTrue r.spam then
      { t with
        maybeSpamNum := if num r.spam = 1 then t.maybeSpamNum + 1 else t.maybeSpamNum
        spamNum := if 1 < num r.spam then t.spamNum + 1 else t.spamNum }
    else t
  { t with
    fromTop := countUp t.fromTop r.mailFrom
    ipTop := countUp t.ipTop r.ip
    ruleTop := countUp t.ruleTop r.rule }

/-- The loop over the lines, with the first ten bytes of a line as its time. -/
def scan (start stop : ℤ) : Totals → List Bytes → Totals
  | t, [] => t
  | t, line :: rest =>
      let timestamp := num (line.take 10)
      if timestamp < start then scan start stop t rest
      else if timestamp > stop then t
      else scan start stop (t.add (readRow line)) rest

/-- `get_LogSimpleAnaylize`, up to the printing of the totals; nothing when it returns 10. -/
def getLogSimpleAnaylize (start stop : Bytes) (file : Option Bytes) : Option Totals :=
  if isTrue start && isTrue stop then
    file.map fun text => scan (num start) (num stop) {} (lines 10 text)
  else none

/-- Neither over the limit nor a virus, but some kind of spam. -/
def Row.isSpam (r : Row) : Bool := !isTrue r.dynamic && !isTrue r.virus && isTrue r.spam

/-- The totals over a list of mails. -/
def sums (rs : List Row) : Totals where
  totalNum := rs.length
  maybeSpamNum := rs.countP fun r => r.isSpam && num r.spam = 1
  spamNum := rs.countP fun r => r.isSpam && 1 < num r.spam
  virusNum := rs.countP fun r => !isTrue r.dynamic && isTrue r.virus
  overrunNum := rs.countP fun r => isTrue r.dynamic
  fromTop := fun key => rs.countP fun r => isTrue key && r.mailFrom = key
  ipTop := fun key => rs.countP fun r => isTrue key && r.ip = key
  ruleTop := fun key => rs.countP fun r => isTrue key && r.rule = key

theorem countUp_countP (f : Row → Bytes) (rs : List Row) (r : Row) :
    countUp (fun key => rs.countP fun r => isTrue key && f r = key) (f r) =
      fun key => (rs ++ [r]).countP fun r => isTrue key && f r = key := by
  funext key
  rw [List.countP_append, List.countP_singleton]
  unfold countUp
  by_cases htrue : isTrue (f r) = true
  · rw [if_pos htrue]
    by_cases hkey : key = f r
    · rw [hkey, Function.update_self]
      simp [htrue]
    · rw [Function.update_of_ne hkey]
      simp [Ne.symm hkey]
  · rw [if_neg htrue]
    have hnone : ¬ (isTrue key && decide (f r = key)) = true := by
      rintro h
      rw [Bool.and_eq_true, decide_eq_true_eq] at h
      exact htrue (h.2 ▸ h.1)
    rw [if_neg hnone, Nat.add_zero]

theorem sums_append (rs : List Row) (r : Row) : sums (rs ++ [r]) = (sums rs).add r := by
  have hfrom := countUp_countP Row.mailFrom rs r
  have hip := countUp_countP Row.ip rs r
  have hrule := countUp_countP Row.rule rs r
  unfold Totals.add
  dsimp only
  by_cases hover : isTrue r.dynamic = true
  · rw [if_pos hover]
    simp [sums, hfrom, hip, hrule, Row.isSpam, hover]
  · rw [if_neg hover]
    by_cases hvirus : isTrue r.virus = true
    · rw [if_pos hvirus]
      simp [sums, hfrom, hip, hrule, Row.isSpam, hover, hvirus]
    · rw [if_neg hvirus]
      by_cases hspam : isTrue r.spam = true
      · rw [if_pos hspam]
        have hone : ∀ (c : Prop) [Decidable c] (n : ℕ),
            (n + if c then 1 else 0) = if c then n + 1 else n := by
          intro c _ n
          split_ifs <;> rfl
        simp [sums, hfrom, hip, hrule, Row.isSpam, hover, hvirus, hspam, List.countP_append, hone]
      · rw [if_neg hspam]
        simp [sums, hfrom, hip, hrule, Row.isSpam, hover, hvirus, hspam]

theorem foldl_add (rs : List Row) : rs.foldl Totals.add {} = sums rs := by
  induction rs using List.reverseRecOn with
  | nil => rfl
  | append_singleton rs r ih =>
    rw [List.foldl_append, List.foldl_cons, List.foldl_nil, ih, sums_append]

/-! ## The lines of a log -/

/-- The mail is between two times. -/
def Between (start stop : ℤ) (ml : MailLog) : Prop := start ≤ ml.unixTime ∧ ml.unixTime ≤ stop

instance (start stop : ℤ) (ml : MailLog) : Decidable (Between start stop ml) :=
  inferInstanceAs (Decidable (_ ∧ _))

section Lines

variable {start stop : ℤ} {l : List MailLog}

/-- The first ten bytes of a line are its time, as long as that has not more digits. -/
theorem num_take_logCsv {ml : MailLog} (h : ml.unixTime < 10 ^ 10) :
    num (ml.logCsv.take 10) = ml.unixTime := by
  have hlength : (decimal ml.unixTime).length ≤ 10 := (length_decimal_le_iff _ 9).2 h
  obtain ⟨r, hr⟩ : ∃ r, ml.logCsv = decimal ml.unixTime ++ 44 :: r := by
    refine ⟨columnText 44 ml.beforeOverrun.tail ++
      (ml.isOverrun ++ 44 :: (ml.afterOverrun ++ [10])), ?_⟩
    rw [logCsv_eq, MailLog.beforeOverrun, columnText_cons, List.append_assoc, List.cons_append]
    rfl
  rw [hr, List.take_append, List.take_of_length_le hlength]
  have hne : (decimal ml.unixTime).dropWhile isSpace ≠ [] := by
    rw [dropWhile_decimal]
    exact decimal_ne_nil _
  rw [num, atoi_append hne, atoi_decimal]
  intro c hc
  cases hk : 10 - (decimal ml.unixTime).length with
  | zero => simp [hk] at hc
  | succ k =>
    rw [hk, List.take_succ_cons, List.head?_cons, Option.mem_some_iff] at hc
    rw [← hc]
    rfl

theorem lines_log (h : ∀ ml ∈ l, Clean ml) :
    lines 10 (l.flatMap MailLog.logCsv) = l.map MailLog.logCsv := by
  have hnl : ∀ t ∈ l.map MailLog.text, 10 ∉ t :=
    List.forall_mem_map.2 fun ml hml => (h ml hml).newline
  have hlines := lines_flatMap hnl
  rwa [List.flatMap_map, List.map_map] at hlines

/-- One line of the loop. -/
theorem scan_cons {ml : MailLog} (h : Clean ml) (ht : ml.unixTime < 10 ^ 10) (t : Totals)
    (rest : List Bytes) :
    scan start stop t (ml.logCsv :: rest) =
      if (ml.unixTime : ℤ) < start then scan start stop t rest
      else if (ml.unixTime : ℤ) > stop then t
      else scan start stop (t.add ml.row) rest := by
  rw [scan, num_take_logCsv ht, readRow_logCsv h.comma]

/-- In a file in the order of the times, the loop adds up the mails between the two times. -/
theorem scan_of_pairwise (h : ∀ ml ∈ l, Clean ml ∧ ml.unixTime < 10 ^ 10)
    (hs : l.Pairwise fun ml ml' => ml.unixTime ≤ ml'.unixTime) (t : Totals) :
    scan start stop t (l.map MailLog.logCsv) =
      ((l.filter (Between start stop)).map MailLog.row).foldl Totals.add t := by
  induction l generalizing t with
  | nil => rfl
  | cons ml l ih =>
    obtain ⟨⟨hclean, htime⟩, hl⟩ := List.forall_mem_cons.1 h
    obtain ⟨hlater, hs⟩ := List.pairwise_cons.1 hs
    rw [List.map_cons, scan_cons hclean htime]
    split_ifs with hearly hlate
    · have hout : ¬ Between start stop ml := fun hb => absurd hb.1 (not_le.2 hearly)
      rw [ih hl hs, List.filter_cons_of_neg (by simpa using hout)]
    · have hnone : (ml :: l).filter (Between start stop) = [] := by
        rw [List.filter_eq_nil_iff]
        intro ml' hmem hb
        have hle : ml.unixTime ≤ ml'.unixTime := by
          rcases List.mem_cons.1 hmem with rfl | hmem
          · exact le_rfl
          · exact hlater ml' hmem
        have hstop := (of_decide_eq_true hb).2
        omega
      rw [hnone]
      rfl
    · have hin : Between start stop ml := ⟨not_lt.1 hearly, not_lt.1 hlate⟩
      rw [ih hl hs, List.filter_cons_of_pos (by simpa using hin), List.map_cons, List.foldl_cons]

theorem totalNum_add (t : Totals) (r : Row) : (t.add r).totalNum = t.totalNum + 1 := by
  unfold Totals.add
  dsimp only
  split_ifs <;> rfl

/-- What stands behind a line that is too late is not counted. -/
theorem totalNum_scan_le {ml : MailLog} {before : List MailLog} (after : List Bytes)
    (h : ∀ ml' ∈ before ++ [ml], Clean ml' ∧ ml'.unixTime < 10 ^ 10)
    (hstart : start ≤ ml.unixTime) (hlate : stop < ml.unixTime) (t : Totals) :
    (scan start stop t (before.map MailLog.logCsv ++ ml.logCsv :: after)).totalNum ≤
      t.totalNum + before.countP (Between start stop) := by
  induction before generalizing t with
  | nil =>
    obtain ⟨hclean, htime⟩ := h ml (List.mem_singleton.2 rfl)
    rw [List.map_nil, List.nil_append, scan_cons hclean htime, if_neg (not_lt.2 hstart),
      if_pos hlate]
    exact Nat.le_add_right _ _
  | cons ml' before ih =>
    obtain ⟨⟨hclean, htime⟩, hbefore⟩ := List.forall_mem_cons.1 h
    have hle : before.countP (Between start stop) ≤ (ml' :: before).countP (Between start stop) :=
      (List.sublist_cons_self ml' before).countP_le
    rw [List.map_cons, List.cons_append, scan_cons hclean htime]
    split_ifs with hearly hlate'
    · exact (ih hbefore t).trans (Nat.add_le_add_left hle _)
    · exact Nat.le_add_right _ _
    · have hin : decide (Between start stop ml') = true :=
        decide_eq_true ⟨not_lt.1 hearly, not_lt.1 hlate'⟩
      have hone : (ml' :: before).countP (Between start stop) =
          before.countP (Between start stop) + 1 := List.countP_cons_of_pos hin
      refine (ih hbefore (t.add ml'.row)).trans ?_
      rw [totalNum_add, hone]
      omega

theorem scan_of_early {ls : List Bytes} (h : ∀ line ∈ ls, num (line.take 10) < start) (t : Totals) :
    scan start stop t ls = t := by
  induction ls with
  | nil => rfl
  | cons line ls ih =>
    obtain ⟨hline, hls⟩ := List.forall_mem_cons.1 h
    rw [scan, if_pos hline, ih hls]

end Lines

/-! ## The processes -/

/-- What happens to the log: a process takes the time and the data of a mail, appends the line it
has made of them, or finds that the log cannot be opened. -/
inductive Event (ι : Type)
  | stamp (child : ι) (now : ℕ) (headSubject : Bytes) (aka : Aka)
  | append (child : ι)
  | openFails (child : ι)

/-- The lines still to be written, the file, and the mails whose lines are in it. -/
structure LogState (ι : Type) where
  pending : ι → Option MailLog := fun _ => none
  file : Option Bytes := none
  logged : List MailLog := []

section Processes

variable {ι : Type} [DecidableEq ι]

/-- One event; `log_csv` appends under the lock of the file. -/
def logStep (s : LogState ι) : Event ι → LogState ι
  | .stamp child now headSubject aka =>
      { s with
        pending := Function.update s.pending child (some (getMailLogFromInfo now headSubject aka)) }
  | .append child =>
      match s.pending child with
      | none => s
      | some ml =>
        { pending := Function.update s.pending child none
          file := some (s.file.getD [] ++ ml.logCsv)
          logged := s.logged ++ [ml] }
  | .openFails child => { s with pending := Function.update s.pending child none }

/-- Every line is read back, and every report is on the mails logged. -/
def LogReadsBack (s : LogState ι) : Prop :=
  (∀ ml ∈ s.logged, RoundTrips ml) ∧
    ∀ start stop totals, getLogSimpleAnaylize start stop s.file = some totals →
      totals = sums ((s.logged.filter (Between (num start) (num stop))).map MailLog.row)

/-- A line that is appended is clean, has a time of ten digits, and finds no later one. -/
def InOrder (s : LogState ι) : Event ι → Prop
  | .append child =>
      ∀ ml ∈ s.pending child,
        Clean ml ∧ ml.unixTime < 10 ^ 10 ∧ ∀ ml' ∈ s.logged, ml'.unixTime ≤ ml.unixTime
  | _ => True

/-- Clean lines in the order of their times. -/
def Orderly (l : List MailLog) : Prop :=
  (∀ ml ∈ l, Clean ml ∧ ml.unixTime < 10 ^ 10) ∧
    l.Pairwise fun ml ml' => ml.unixTime ≤ ml'.unixTime

/-- The file that these mails make. -/
def logFile (l : List MailLog) : Option Bytes :=
  if l = [] then none else some (l.flatMap MailLog.logCsv)

theorem orderly_append {l : List MailLog} {ml : MailLog} :
    Orderly (l ++ [ml]) ↔ Orderly l ∧ Clean ml ∧ ml.unixTime < 10 ^ 10 ∧
      ∀ ml' ∈ l, ml'.unixTime ≤ ml.unixTime := by
  simp only [Orderly, List.forall_mem_append, List.pairwise_append, List.pairwise_singleton,
    List.mem_singleton, forall_eq, true_and]
  tauto

/-- One event keeps the log in order exactly when it is in order itself. -/
theorem orderly_logStep (s : LogState ι) (e : Event ι) :
    Orderly (logStep s e).logged ↔ Orderly s.logged ∧ InOrder s e := by
  cases e with
  | stamp child now headSubject aka => simp [logStep, InOrder]
  | openFails child => simp [logStep, InOrder]
  | append child =>
    simp only [logStep, InOrder]
    cases hpending : s.pending child with
    | none => simp
    | some ml => simp [orderly_append]

theorem orderly_run_iff (es : List (Event ι)) :
    Orderly (run logStep {} es).logged ↔ Meets logStep InOrder {} es := by
  induction es using List.reverseRecOn with
  | nil => simp [Orderly]
  | append_singleton es e ih =>
    rw [run_append, run_cons, run_nil, orderly_logStep, ih, meets_append, meets_cons]
    simp

theorem file_run (es : List (Event ι)) :
    (run logStep {} es).file = logFile (run logStep {} es).logged := by
  have hstep : ∀ (s : LogState ι) (e : Event ι), s.file = logFile s.logged → True →
      (logStep s e).file = logFile (logStep s e).logged := by
    intro s e h _
    cases e with
    | stamp child now headSubject aka => exact h
    | openFails child => exact h
    | append child =>
      simp only [logStep]
      cases hpending : s.pending child with
      | none => exact h
      | some ml =>
        simp only [h, logFile]
        by_cases hl : s.logged = [] <;> simp [hl]
  exact run_invariant hstep rfl (meets_of_forall fun _ _ => trivial)

theorem num_zero_decimal (n : ℕ) : num (48 :: decimal n) = n := by
  have htake : (48 :: decimal n).takeWhile isDigit = 48 :: decimal n := by
    rw [List.takeWhile_cons_of_pos (by decide), takeWhile_decimal]
  have hvalue : value (48 :: decimal n) = n := value_decimal n
  unfold num atoi
  rw [List.dropWhile_cons_of_neg (by decide)]
  simp [htake, hvalue]

omit [DecidableEq ι] in
/-- The report on one second counts the mails of that second. -/
theorem totalNum_of_readsBack {s : LogState ι} (hfile : s.file = logFile s.logged)
    (h : LogReadsBack s) (n : ℕ) :
    (scan n n {} (s.logged.map MailLog.logCsv)).totalNum = s.logged.countP (Between n n) := by
  by_cases hl : s.logged = []
  · rw [hl]
    rfl
  · have hclean : ∀ ml ∈ s.logged, Clean ml := fun ml hml => (roundTrips_iff ml).1 (h.1 ml hml)
    have htrue : isTrue (48 :: decimal n) = true := by simp [Perl.isTrue, decimal_ne_nil]
    have hreport : getLogSimpleAnaylize (48 :: decimal n) (48 :: decimal n) s.file =
        some (scan n n {} (s.logged.map MailLog.logCsv)) := by
      rw [getLogSimpleAnaylize, htrue, hfile, logFile, if_neg hl, num_zero_decimal,
        ← lines_log hclean]
      rfl
    rw [h.2 _ _ _ hreport, num_zero_decimal, List.countP_eq_length_filter]
    exact List.length_map _

omit [DecidableEq ι] in
/-- The lines of a log that is read back are clean, and a time of more digits would show in the
report on its second. -/
theorem clean_of_readsBack {s : LogState ι} (hfile : s.file = logFile s.logged)
    (h : LogReadsBack s) : ∀ ml ∈ s.logged, Clean ml ∧ ml.unixTime < 10 ^ 10 := by
  intro ml hml
  refine ⟨(roundTrips_iff ml).1 (h.1 ml hml), ?_⟩
  by_contra hlong
  have hearly : ∀ line ∈ s.logged.map MailLog.logCsv, num (line.take 10) < (ml.unixTime : ℤ) := by
    intro line _
    have hbound := (atoi_bounds (List.length_take_le 10 line)).2
    rw [num]
    omega
  have hzero := totalNum_of_readsBack hfile h ml.unixTime
  rw [scan_of_early hearly] at hzero
  have hin : Between ml.unixTime ml.unixTime ml := ⟨le_rfl, le_rfl⟩
  exact List.countP_eq_zero.1 hzero.symm ml hml (decide_eq_true hin)

omit [DecidableEq ι] in
/-- A line before an earlier one would show in the report on the second of the earlier one. -/
theorem le_of_readsBack {s : LogState ι} (hfile : s.file = logFile s.logged) (h : LogReadsBack s)
    {before after : List MailLog} {ml ml' : MailLog} (hsplit : s.logged = before ++ ml :: after)
    (hml' : ml' ∈ after) : ml.unixTime ≤ ml'.unixTime := by
  by_contra hlater
  have hlines : ∀ ml'' ∈ before ++ [ml], Clean ml'' ∧ ml''.unixTime < 10 ^ 10 := by
    intro ml'' hml''
    refine clean_of_readsBack hfile h ml'' ?_
    rw [hsplit]
    simp only [List.mem_append, List.mem_cons] at hml'' ⊢
    tauto
  have hle := @totalNum_scan_le ml'.unixTime ml'.unixTime ml before (after.map MailLog.logCsv)
    hlines (by omega) (by omega) {}
  have hone := totalNum_of_readsBack hfile h ml'.unixTime
  have hin : Between ml'.unixTime ml'.unixTime ml' := ⟨le_rfl, le_rfl⟩
  have hpos : 0 < after.countP (Between ml'.unixTime ml'.unixTime) :=
    List.countP_pos_iff.2 ⟨ml', hml', decide_eq_true hin⟩
  have hafter : after.countP (Between ml'.unixTime ml'.unixTime) ≤
      (ml :: after).countP (Between ml'.unixTime ml'.unixTime) :=
    (List.sublist_cons_self ml after).countP_le
  rw [hsplit, List.map_append, List.map_cons, List.countP_append] at hone
  rw [hone] at hle
  simp only at hle
  omega

omit [DecidableEq ι] in
/-- A log that is read back is in order. -/
theorem orderly_of_readsBack {s : LogState ι} (hfile : s.file = logFile s.logged)
    (h : LogReadsBack s) : Orderly s.logged := by
  refine ⟨clean_of_readsBack hfile h, ?_⟩
  have hsuffix : ∀ after before, s.logged = before ++ after →
      after.Pairwise fun ml ml' : MailLog => ml.unixTime ≤ ml'.unixTime := by
    intro after
    induction after with
    | nil => exact fun _ _ => List.Pairwise.nil
    | cons ml after ih =>
      intro before hsplit
      refine List.pairwise_cons.2 ⟨fun ml' => le_of_readsBack hfile h hsplit, ?_⟩
      exact ih (before ++ [ml]) (by simp [hsplit])
  exact hsuffix s.logged [] rfl

omit [DecidableEq ι] in
theorem readsBack_of_orderly {s : LogState ι} (hfile : s.file = logFile s.logged)
    (h : Orderly s.logged) : LogReadsBack s := by
  refine ⟨fun ml hml => (roundTrips_iff ml).2 (h.1 ml hml).1, fun start stop totals hreport => ?_⟩
  rw [getLogSimpleAnaylize, hfile, logFile] at hreport
  split_ifs at hreport with htimes hl
  · cases hreport
  · rw [Option.map_some, Option.some.injEq, lines_log fun ml hml => (h.1 ml hml).1,
      scan_of_pairwise h.1 h.2, foldl_add] at hreport
    exact hreport.symm

/-- **The log is read back**, line by line and in every report, exactly when the processes append
clean lines, under times of ten digits, and never an earlier one behind a later one. -/
theorem logReadsBack_iff (es : List (Event ι)) :
    LogReadsBack (run logStep {} es) ↔ Meets logStep InOrder {} es := by
  rw [← orderly_run_iff]
  exact ⟨orderly_of_readsBack (file_run es), readsBack_of_orderly (file_run es)⟩

end Processes

/-- A mail without virus to the recipients of this envelope. -/
def mailTo (envelope : Bytes) : Aka :=
  { readEnvelope { fd1 := bytes "Fa@x.cn" ++ 0 :: envelope } with
    tcpremoteip := bytes "10.0.0.1"
    size := 900
    engine := fun _ => { result := bytes "0" } }

/-- A mail to one recipient. -/
def toOne : Aka := mailTo (bytes "Tb@x.cn" ++ [0, 0])

/-- A mail to two recipients. -/
def toTwo : Aka := mailTo (bytes "Tb@x.cn" ++ 0 :: bytes "Tc@x.cn" ++ [0, 0])

/-- The report on the mails of ten seconds. -/
def reportOf (stop : Bytes) (es : List (Event Bool)) : Option Totals :=
  getLogSimpleAnaylize (bytes "1100000000") stop (run logStep {} es).file

/-- A process logs a mail to two recipients. -/
def oneMail : List (Event Bool) :=
  [.stamp false 1100000005 (bytes "hi") toTwo, .append false]

/-- Two processes log a mail each, the later one first. -/
def twoMails : List (Event Bool) :=
  [.stamp false 1100000005 (bytes "hi") toOne, .stamp true 1100000006 (bytes "hi") toOne,
    .append true, .append false]

/-- The mail to two recipients is counted as a virus, the reader finding the size in the place of
the result; of the two mails the report up to the first second counts none. -/
theorem not_logReadsBack :
    ((reportOf (bytes "1100000009") oneMail).map Totals.virusNum = some 1 ∧
        ¬ LogReadsBack (run logStep {} oneMail)) ∧
      (reportOf (bytes "1100000005") twoMails).map Totals.totalNum = some 0 ∧
        ¬ LogReadsBack (run logStep {} twoMails) := by
  have hvirus : (reportOf (bytes "1100000009") oneMail).map Totals.virusNum = some 1 := by
    decide +kernel
  have htotal : (reportOf (bytes "1100000005") twoMails).map Totals.totalNum = some 0 := by
    decide +kernel
  refine ⟨⟨hvirus, fun h => ?_⟩, htotal, fun h => ?_⟩
  · obtain ⟨t, ht, hone⟩ := Option.map_eq_some_iff.1 hvirus
    rw [h.2 _ _ t ht] at hone
    exact absurd hone (by decide +kernel)
  · obtain ⟨t, ht, hzero⟩ := Option.map_eq_some_iff.1 htotal
    rw [h.2 _ _ t ht] at hzero
    exact absurd hzero (by decide +kernel)

end NoSpam.Log
