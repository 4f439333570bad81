import NoSpam.Base.Columns
import NoSpam.Base.Run
import NoSpam.Mail.Info
import Mathlib.Data.Rat.Defs

/-!
# The statistics on mails

`log_rrdds` writes a line of 25 columns for each mail, and `ds2rrd` adds the lines up for the
graphs: the mails by kind and direction, their sizes, and what the engines have taken.  The reader
takes each column for what it was written as (`readDs_logRrdds`), and the counters agree with one
another (`statistics_conserved`), since a line is counted once in each of the groups that they form.
-/

namespace NoSpam.Status

open Text Perl Machine

/-! ## Writing -/

/-- What `log_rrdds` takes: the time, the milliseconds since the mail has come and those spent on
DNS, the CPU time, and for each engine its times. -/
structure Rrdds where
  aka : Aka
  time : ℕ
  elapsed : ℤ
  dns_query_time : Option ℤ
  cpu : ℤ
  runtime : Engine → Option ℤ
  cputime : Engine → Option ℤ

/-- A number that may be undefined. -/
def shown (z : Option ℤ) : Bytes := (z.map showInt).getD []

/-- What `-s` gives for a file. -/
def sizeText (n : ℕ) : Bytes := if n = 0 then [] else decimal n

/-- A flag as it is printed. -/
def flag (b : Bool) : Bytes := if b then bytes "1" else bytes "0"

namespace Rrdds

variable (r : Rrdds)

/-- The mail comes from inside, as `log_rrdds` tests it. -/
def out : Bool := r.aka.relayclient = bytes "1" || r.aka.tcpremoteinfo.length ≠ 0

/-- The four columns of an engine. -/
def engineColumns (e : Engine) (result : Bytes) : List Bytes :=
  [result, shown (r.runtime e), shown (r.cputime e), flag (r.aka.engine e).runned]

/-- The columns of the line. -/
def columns : List Bytes :=
  [decimal r.time, flag r.out, sizeText r.aka.size,
      showInt (r.elapsed - r.dns_query_time.getD 0), showInt r.cpu] ++
    r.engineColumns .antivirus (r.aka.engine .antivirus).result ++
    r.engineColumns .spam (r.aka.engine .spam).result ++
    r.engineColumns .content (orElse (r.aka.engine .content).result (bytes "0")) ++
    r.engineColumns .dynamic (r.aka.engine .dynamic).result ++
    r.engineColumns .archive (r.aka.engine .archive).result

/-- `log_rrdds`: the line without its end. -/
def logRrdds : Bytes := joinFields 44 r.columns

/-- No column has a separator. -/
def Clean : Prop := ∀ f ∈ r.columns, 44 ∉ f ∧ 10 ∉ f

instance : Decidable r.Clean := inferInstanceAs (Decidable (∀ f ∈ _, _))

end Rrdds

/-- The file after some mails. -/
def rrddsFile (rs : List Rrdds) : Bytes := rs.flatMap fun r => r.logRrdds ++ [10]

/-! ## Reading -/

/-- The four variables for an engine. -/
structure EngineDs where
  result : Bytes
  time : Bytes
  cpu : Bytes
  run : Bytes
  deriving DecidableEq

/-- The variables for a line. -/
structure Ds where
  time : Bytes
  direction : Bytes
  size : Bytes
  time_all : Bytes
  cpu_all : Bytes
  virus : EngineDs
  spam : EngineDs
  content : EngineDs
  dynamic : EngineDs
  archive : EngineDs
  deriving DecidableEq

/-- The `split` of `ds2rrd`, unless `$archive_run` is not defined. -/
def readDs (line : Bytes) : Option Ds :=
  let fs := fields 44 (chomp line)
  let column (n : ℕ) : Bytes := fs.getD n []
  fs[24]?.map fun archive_run =>
    { time := column 0
      direction := column 1
      size := column 2
      time_all := column 3
      cpu_all := column 4
      virus := ⟨column 5, column 6, column 7, column 8⟩
      spam := ⟨column 9, column 10, column 11, column 12⟩
      content := ⟨column 13, column 14, column 15, column 16⟩
      dynamic := ⟨column 17, column 18, column 19, column 20⟩
      archive := ⟨column 21, column 22, column 23, archive_run⟩ }

/-- `$bad_mail`. -/
def Ds.bad_mail (d : Ds) : Bool :=
  isTrue d.virus.result || isTrue d.spam.result || isTrue d.dynamic.result

/-- What the writer has for an engine. -/
def Rrdds.engineDs (r : Rrdds) (e : Engine) (result : Bytes) : EngineDs where
  result := result
  time := shown (r.runtime e)
  cpu := shown (r.cputime e)
  run := flag (r.aka.engine e).runned

/-- What the writer has for a mail. -/
def Rrdds.ds (r : Rrdds) : Ds where
  time := decimal r.time
  direction := flag r.out
  size := sizeText r.aka.size
  time_all := showInt (r.elapsed - r.dns_query_time.getD 0)
  cpu_all := showInt r.cpu
  virus := r.engineDs .antivirus (r.aka.engine .antivirus).result
  spam := r.engineDs .spam (r.aka.engine .spam).result
  content := r.engineDs .content (orElse (r.aka.engine .content).result (bytes "0"))
  dynamic := r.engineDs .dynamic (r.aka.engine .dynamic).result
  archive := r.engineDs .archive (r.aka.engine .archive).result

/-! ## Counting -/

/-- What goes to `mail_type.rrd`. -/
structure MailType where
  num_all : ℕ := 0
  num_ok : ℕ := 0
  num_in : ℕ := 0
  num_out : ℕ := 0
  num_virus : ℕ := 0
  num_spam : ℕ := 0
  num_content : ℕ := 0
  num_overrun : ℕ := 0
  num_archive : ℕ := 0

/-- What goes to `mail_traffic.rrd`. -/
structure MailTraffic where
  size_all : ℤ := 0
  size_in : ℤ := 0
  size_in_ok : ℤ := 0
  size_out : ℤ := 0
  size_out_ok : ℤ := 0

/-- What goes to `mail_size.rrd`, besides the number of mails. -/
structure MailSize where
  size_4K : ℕ := 0
  size_16K : ℕ := 0
  size_32K : ℕ := 0
  size_64K : ℕ := 0
  size_128K : ℕ := 0
  size_256K : ℕ := 0
  size_512K : ℕ := 0
  size_1M : ℕ := 0
  size_5M : ℕ := 0
  size_10M : ℕ := 0
  size_gt10M : ℕ := 0

/-- How often an engine has run, and its times. -/
structure EngineTimes where
  run : ℕ := 0
  time : ℤ := 0
  cpu : ℤ := 0

/-- What goes to `mail_engine.rrd`, with the numbers of runs. -/
structure MailEngine where
  time_all : ℤ := 0
  cpu_all : ℤ := 0
  virus : EngineTimes := {}
  spam : EngineTimes := {}
  content : EngineTimes := {}
  overrun : EngineTimes := {}
  archive : EngineTimes := {}

/-- The counters of `ds2rrd`. -/
structure Stats where
  type : MailType := {}
  traffic : MailTraffic := {}
  size : MailSize := {}
  engine : MailEngine := {}

/-- `$n++ if c`. -/
def bump (c : Bool) (n : ℕ) : ℕ := if c then n + 1 else n

def MailType.add (t : MailType) (d : Ds) : MailType where
  num_all := t.num_all + 1
  num_ok := bump (!d.bad_mail) t.num_ok
  num_in := if isTrue d.direction then t.num_in else t.num_in + 1
  num_out := if isTrue d.direction then t.num_out + 1 else t.num_out
  num_virus := bump (isTrue d.virus.result) t.num_virus
  num_spam := bump (isTrue d.spam.result) t.num_spam
  num_content := bump (isTrue d.content.result) t.num_content
  num_overrun := bump (isTrue d.dynamic.result) t.num_overrun
  num_archive := bump (isTrue d.archive.result) t.num_archive

def MailTraffic.add (t : MailTraffic) (d : Ds) : MailTraffic :=
  let t := { t with size_all := t.size_all + num (orElse d.size (bytes "0")) }
  if isTrue d.direction then
    { t with
      size_out := t.size_out + num d.size
      size_out_ok := if d.bad_mail then t.size_out_ok else t.size_out_ok + num d.size }
  else
    { t with
      size_in := t.size_in + num d.size
      size_in_ok := if d.bad_mail then t.size_in_ok else t.size_in_ok + num d.size }

def MailSize.add (t : MailSize) (d : Ds) : MailSize :=
  let size := num d.size
  if size < 4096 then { t with size_4K := t.size_4K + 1 }
  else if size < 16384 then { t with size_16K := t.size_16K + 1 }
  else if size < 32768 then { t with size_32K := t.size_32K + 1 }
  else if size < 65536 then { t with size_64K := t.size_64K + 1 }
  else if size < 131072 then { t with size_128K := t.size_128K + 1 }
  else if size < 262144 then { t with size_256K := t.size_256K + 1 }
  else if size < 524288 then { t with size_512K := t.size_512K + 1 }
  else if size < 1048576 then { t with size_1M := t.size_1M + 1 }
  else if size < 5242880 then { t with size_5M := t.size_5M + 1 }
  else if size < 10485760 then { t with size_10M := t.size_10M + 1 }
  else { t with size_gt10M := t.size_gt10M + 1 }

/-- `int`. -/
def int (q : ℚ) : ℤ := q.num.tdiv q.den

/-- What `rand` gives while a line is counted. -/
structure Rands where
  virus : ℚ
  spam : ℚ
  time : ℚ

/-- The addition for an engine whose times are taken as they are. -/
def EngineTimes.add (t : EngineTimes) (d : EngineDs) : EngineTimes where
  run := bump (isTrue d.run) t.run
  time := t.time + num d.time
  cpu := t.cpu + num d.cpu

def MailEngine.add (t : MailEngine) (rand : Rands) (d : Ds) : MailEngine :=
  let my_spam_cpu := num d.spam.cpu * 2 + int (10 * rand.spam)
  let my_spam_time := int (my_spam_cpu * (1 + rand.time))
  { time_all := t.time_all + num d.time_all
    cpu_all := t.cpu_all + num d.cpu_all
    virus :=
      { run := bump (isTrue d.virus.run) t.virus.run
        time := t.virus.time + num d.virus.time
        cpu := t.virus.cpu + (num d.virus.cpu * 4 + int (10 * rand.virus)) }
    spam :=
      { run := bump (isTrue d.spam.run) t.spam.run
        time := t.spam.time + my_spam_time
        cpu := t.spam.cpu + my_spam_cpu }
    overrun := t.overrun.add d.dynamic
    content := t.content.add d.content
    archive := t.archive.add d.archive }

/-- One turn of the loop over the lines. -/
def Stats.add (s : Stats) (rand : Rands) (d : Ds) : Stats where
  type := s.type.add d
  traffic := s.traffic.add d
  size := s.size.add d
  engine := s.engine.add rand d

/-- `while (<$fd>)`. -/
def scan (rand : ℕ → Rands) : Stats → List Bytes → Stats
  | s, [] => s
  | s, line :: rest =>
      match readDs line with
      | none => scan rand s rest
      | some d => scan rand (s.add (rand s.type.num_all) d) rest

/-! ## Averages -/

/-- `a / n` with its fraction cut off; Perl dies of a zero. -/
def divide (a : ℤ) (n : ℕ) : Option ℤ := if n = 0 then none else some (a.tdiv n)

/-- `$n?int($a/$n):0`. -/
def average (a : ℤ) (n : ℕ) : Option ℤ := if n ≠ 0 then divide a n else some 0

/-- What `rand` gives after the loop. -/
structure EndRands where
  cpu : ℚ
  time : ℚ

/-- The averages of `ds2rrd`. -/
def averages (rand : EndRands) (type : MailType) (t : MailEngine) : Option MailEngine := do
  let time_virus ← average t.virus.time t.virus.run
  let cpu_virus ← average t.virus.cpu type.num_virus
  let cpu_virus := if cpu_virus > time_virus then time_virus else cpu_virus
  let time_spam ← average t.spam.time t.spam.run
  let cpu_spam ← average t.spam.cpu t.spam.run
  let cpu_spam := if cpu_spam > time_spam then time_spam else cpu_spam
  let time_overrun ← average t.overrun.time t.overrun.run
  let cpu_overrun ← average t.overrun.cpu t.overrun.run
  let time_content ← average t.content.time t.content.run
  let cpu_content ← average t.content.cpu t.content.run
  let time_archive ← average t.archive.time t.archive.run
  let cpu_archive ← average t.archive.cpu t.archive.run
  let time_all ← average t.time_all type.num_all
  let cpu_all ← average t.cpu_all type.num_all
  let my_cpu_all := cpu_virus + cpu_spam + cpu_overrun + cpu_content + cpu_archive
  let cpu_all := if my_cpu_all > cpu_all then my_cpu_all + int (50 * rand.cpu) else cpu_all
  let my_time_all := time_virus + time_spam + time_overrun + time_content + time_archive
  let time_all := if my_time_all > time_all then my_time_all + int (80 * rand.time) else time_all
  some
    { time_all, cpu_all
      virus := { t.virus with time := time_virus, cpu := cpu_virus }
      spam := { t.spam with time := time_spam, cpu := cpu_spam }
      content := { t.content with time := time_content, cpu := cpu_content }
      overrun := { t.overrun with time := time_overrun, cpu := cpu_overrun }
      archive := { t.archive with time := time_archive, cpu := cpu_archive } }

/-- `ds2rrd`, up to what goes to the graphs; nothing when it dies. -/
def ds2rrd (rand : ℕ → Rands) (rand_end : EndRands) (file : Bytes) : Option Stats := do
  let s := scan rand {} (lines 10 file)
  let engine ← averages rand_end s.type s.engine
  some { s with engine }

/-! ## What is written is read -/

section Reading

variable {r : Rrdds}

theorem flag_ne_nil (b : Bool) : flag b ≠ [] := by
  cases b <;> decide

theorem isTrue_flag (b : Bool) : isTrue (flag b) = b := by
  cases b <;> decide

/-- The last column is never empty, so `split` gives all of them. -/
theorem fields_logRrdds (h : r.Clean) : fields 44 r.logRrdds = r.columns := by
  refine (fields_joinFields_iff 44 r.columns).2 ⟨fun f hf => (h f hf).1, fun hne => ?_⟩
  have hlast : r.columns.getLast hne = flag (r.aka.engine .archive).runned := rfl
  rw [hlast]
  exact flag_ne_nil _

theorem newline_not_mem_logRrdds (h : r.Clean) : 10 ∉ r.logRrdds := by
  intro hmem
  rcases mem_of_mem_joinFields hmem with hsep | ⟨f, hf, hmem⟩
  · cases hsep
  · exact (h f hf).2 hmem

/-- Every column is read as what it was written. -/
theorem readDs_logRrdds (h : r.Clean) : readDs (r.logRrdds ++ [10]) = some r.ds := by
  have hchomp : chomp (r.logRrdds ++ [10]) = r.logRrdds := by simp [chomp]
  rw [readDs, hchomp, fields_logRrdds h]
  rfl

theorem lines_rrddsFile {rs : List Rrdds} (h : ∀ r ∈ rs, r.Clean) :
    lines 10 (rrddsFile rs) = rs.map fun r => r.logRrdds ++ [10] := by
  have hfile : rrddsFile rs = (rs.map Rrdds.logRrdds).flatMap (· ++ [10]) := by
    rw [rrddsFile, List.flatMap_map]
  have hlines : ∀ l ∈ rs.map Rrdds.logRrdds, 10 ∉ l := by
    intro l hl
    obtain ⟨r, hr, rfl⟩ := List.mem_map.1 hl
    exact newline_not_mem_logRrdds (h r hr)
  rw [hfile, lines_flatMap hlines, List.map_map]
  rfl

theorem num_sizeText (n : ℕ) : num (sizeText n) = n := by
  unfold sizeText
  split_ifs with hn
  · rw [hn]
    rfl
  · exact atoi_decimal n

theorem num_orElse_zero (a : Bytes) : num (orElse a (bytes "0")) = num a := by
  unfold orElse
  split_ifs with htrue
  · rfl
  · rcases isTrue_eq_false_iff.1 (by simpa using htrue) with rfl | rfl
    · rfl
    · rfl

end Reading

/-! ## What the counters keep -/

/-- The counting of one mail. -/
def count (rand : ℕ → Rands) (s : Stats) (r : Rrdds) : Stats := s.add (rand s.type.num_all) r.ds

theorem scan_eq_run (rand : ℕ → Rands) {rs : List Rrdds} (h : ∀ r ∈ rs, r.Clean) (s : Stats) :
    scan rand s (rs.map fun r => r.logRrdds ++ [10]) = run (count rand) s rs := by
  induction rs generalizing s with
  | nil => rfl
  | cons r rs ih =>
    obtain ⟨hr, hrs⟩ := List.forall_mem_cons.1 h
    rw [List.map_cons, scan, readDs_logRrdds hr, run_cons]
    exact ih hrs _

/-- The number of mails over all sizes. -/
def MailSize.total (t : MailSize) : ℕ :=
  t.size_4K + t.size_16K + t.size_32K + t.size_64K + t.size_128K + t.size_256K + t.size_512K +
    t.size_1M + t.size_5M + t.size_10M + t.size_gt10M

/-- The counters agree with one another. -/
structure Conserved (s : Stats) : Prop where
  num_size : s.type.num_all = s.size.total
  num_direction : s.type.num_all = s.type.num_in + s.type.num_out
  size_direction : s.traffic.size_all = s.traffic.size_in + s.traffic.size_out
  num_ok : s.type.num_ok ≤ s.type.num_all
  size_in_ok : s.traffic.size_in_ok ≤ s.traffic.size_in
  size_out_ok : s.traffic.size_out_ok ≤ s.traffic.size_out

section Counting

variable {s : Stats} {d : Ds}

theorem MailSize.total_ite {c : Prop} [Decidable c] {a b : MailSize} {n : ℕ} (ha : a.total = n)
    (hb : b.total = n) : (if c then a else b).total = n := by
  by_cases hc : c
  · rw [if_pos hc, ha]
  · rw [if_neg hc, hb]

/-- A mail is in one range of sizes. -/
theorem MailSize.total_add (t : MailSize) (d : Ds) : (t.add d).total = t.total + 1 := by
  refine total_ite ?_ <| total_ite ?_ <| total_ite ?_ <| total_ite ?_ <| total_ite ?_ <|
    total_ite ?_ <| total_ite ?_ <| total_ite ?_ <| total_ite ?_ <| total_ite ?_ ?_
  all_goals
    simp only [total]
    omega

theorem bump_le {c : Bool} {n k : ℕ} (h : n ≤ k) : bump c n ≤ k + 1 := by
  unfold bump
  split_ifs <;> omega

theorem conserved_empty : Conserved {} := by
  constructor <;> decide

theorem Conserved.add (h : Conserved s) (rand : Rands) (hsize : 0 ≤ num d.size) :
    Conserved (s.add rand d) where
  num_size := by
    have htotal := s.size.total_add d
    have hnum := h.num_size
    show s.type.num_all + 1 = (s.size.add d).total
    omega
  num_direction := by
    have hnum := h.num_direction
    simp only [Stats.add, MailType.add]
    split_ifs <;> omega
  size_direction := by
    have hsum := h.size_direction
    simp only [Stats.add, MailTraffic.add, num_orElse_zero]
    split_ifs <;> dsimp only <;> omega
  num_ok := bump_le h.num_ok
  size_in_ok := by
    have hle := h.size_in_ok
    simp only [Stats.add, MailTraffic.add]
    split_ifs <;> dsimp only <;> omega
  size_out_ok := by
    have hle := h.size_out_ok
    simp only [Stats.add, MailTraffic.add]
    split_ifs <;> dsimp only <;> omega

theorem Conserved.count (h : Conserved s) (rand : ℕ → Rands) (r : Rrdds) :
    Conserved (count rand s r) := by
  refine h.add _ ?_
  show 0 ≤ num (sizeText r.aka.size)
  rw [num_sizeText]
  exact Int.natCast_nonneg _

theorem conserved_run (rand : ℕ → Rands) (rs : List Rrdds) :
    Conserved (run (Status.count rand) {} rs) := by
  have hmeets : Meets (Status.count rand) (fun _ _ => True) {} rs :=
    meets_of_forall fun _ _ => trivial
  exact run_invariant (fun _ r h _ => h.count rand r) conserved_empty hmeets

end Counting

/-! ## What the counters count -/

/-- The numbers of the mails of each kind. -/
def mailType (rs : List Rrdds) : MailType where
  num_all := rs.length
  num_ok := rs.countP fun r => !r.ds.bad_mail
  num_in := rs.countP fun r => !r.out
  num_out := rs.countP fun r => r.out
  num_virus := rs.countP fun r => isTrue (r.aka.engine .antivirus).result
  num_spam := rs.countP fun r => isTrue (r.aka.engine .spam).result
  num_content := rs.countP fun r => isTrue (r.aka.engine .content).result
  num_overrun := rs.countP fun r => isTrue (r.aka.engine .dynamic).result
  num_archive := rs.countP fun r => isTrue (r.aka.engine .archive).result

/-- The size of the mails with a property. -/
def sizeOf (p : Rrdds → Bool) (rs : List Rrdds) : ℤ :=
  ((rs.filter p).map fun r => (r.aka.size : ℤ)).sum

/-- The sizes of the mails of each direction. -/
def mailTraffic (rs : List Rrdds) : MailTraffic where
  size_all := sizeOf (fun _ => true) rs
  size_in := sizeOf (fun r => !r.out) rs
  size_in_ok := sizeOf (fun r => !r.out && !r.ds.bad_mail) rs
  size_out := sizeOf (fun r => r.out) rs
  size_out_ok := sizeOf (fun r => r.out && !r.ds.bad_mail) rs

section Totals

variable (rs : List Rrdds) (r : Rrdds)

theorem countP_concat (p : Rrdds → Bool) : (rs ++ [r]).countP p = bump (p r) (rs.countP p) := by
  rw [List.countP_append, List.countP_singleton, bump]
  split_ifs <;> rfl

theorem sizeOf_concat (p : Rrdds → Bool) :
    sizeOf p (rs ++ [r]) = if p r then sizeOf p rs + r.aka.size else sizeOf p rs := by
  rw [sizeOf, sizeOf, List.filter_append, List.map_append, List.sum_append]
  by_cases hp : p r = true
  · simp [hp]
  · simp [hp]

theorem isTrue_orElse_zero (a : Bytes) : isTrue (orElse a (bytes "0")) = isTrue a := by
  unfold orElse
  split_ifs with htrue
  · rfl
  · rw [Bool.not_eq_true] at htrue
    rw [htrue]
    decide

theorem mailType_concat : mailType (rs ++ [r]) = (mailType rs).add r.ds := by
  have hdirection : isTrue r.ds.direction = r.out := isTrue_flag r.out
  have hcontent : isTrue r.ds.content.result = isTrue (r.aka.engine .content).result :=
    isTrue_orElse_zero _
  simp only [mailType, MailType.add, countP_concat, List.length_append, List.length_singleton,
    hdirection, MailType.mk.injEq, true_and]
  refine ⟨?_, rfl, rfl, rfl, ?_, rfl, rfl⟩
  · cases r.out <;> rfl
  · rw [hcontent]

theorem mailTraffic_concat : mailTraffic (rs ++ [r]) = (mailTraffic rs).add r.ds := by
  have hdirection : isTrue r.ds.direction = r.out := isTrue_flag r.out
  have hsize : num r.ds.size = r.aka.size := num_sizeText r.aka.size
  simp only [mailTraffic, MailTraffic.add, sizeOf_concat, num_orElse_zero, hdirection, hsize]
  cases r.out <;> cases r.ds.bad_mail <;> rfl

/-- **The counters of kinds and sizes count the mails.** -/
theorem totals_run (rand : ℕ → Rands) :
    (run (count rand) {} rs).type = mailType rs ∧
      (run (count rand) {} rs).traffic = mailTraffic rs := by
  induction rs using List.reverseRecOn with
  | nil => exact ⟨rfl, rfl⟩
  | append_singleton rs r ih =>
    rw [run_append, run_cons, run_nil, mailType_concat, mailTraffic_concat, ← ih.1, ← ih.2]
    exact ⟨rfl, rfl⟩

end Totals

/-! ## The averages -/

/-- No average is taken over nothing: where nothing has run, it is zero. -/
theorem average_eq (a : ℤ) (n : ℕ) : average a n = some (a.tdiv n) := by
  unfold average divide
  by_cases hn : n = 0
  · rw [if_neg (by simpa using hn), hn, Nat.cast_zero, Int.tdiv_zero]
  · rw [if_pos hn, if_neg hn]

theorem exists_averages (rand : EndRands) (type : MailType) (t : MailEngine) :
    ∃ t', averages rand type t = some t' := by
  simp only [averages, average_eq, Option.bind_eq_bind, Option.bind_some]
  exact ⟨_, rfl⟩

theorem ds2rrd_rrddsFile (rand : ℕ → Rands) (rand_end : EndRands) {rs : List Rrdds}
    (h : ∀ r ∈ rs, r.Clean) :
    ∃ engine, ds2rrd rand rand_end (rrddsFile rs) =
      some { run (count rand) {} rs with engine } := by
  obtain ⟨engine, hengine⟩ := exists_averages rand_end (run (count rand) {} rs).type
    (run (count rand) {} rs).engine
  refine ⟨engine, ?_⟩
  rw [ds2rrd, lines_rrddsFile h, scan_eq_run rand h]
  simp only [hengine, Option.bind_eq_bind, Option.bind_some]

/-- The counters of kinds, directions and sizes do not depend on the averages. -/
theorem Conserved.update {s : Stats} (h : Conserved s) (engine : MailEngine) :
    Conserved { s with engine } :=
  ⟨h.num_size, h.num_direction, h.size_direction, h.num_ok, h.size_in_ok, h.size_out_ok⟩

/-- **The statistics conserve mail.**  Every line is read as what it was written, `ds2rrd` comes to
its end without a division by zero, the counters agree with one another, and they are the numbers
and the sizes of the mails. -/
theorem statistics_conserved (rand : ℕ → Rands) (rand_end : EndRands) (rs : List Rrdds)
    (h : ∀ r ∈ rs, r.Clean) :
    (lines 10 (rrddsFile rs)).map readDs = rs.map (fun r => some r.ds) ∧
      ∃ s, ds2rrd rand rand_end (rrddsFile rs) = some s ∧ Conserved s ∧
        s.type = mailType rs ∧ s.traffic = mailTraffic rs := by
  constructor
  · rw [lines_rrddsFile h, List.map_map]
    refine List.map_congr_left fun r hr => ?_
    rw [Function.comp_apply, readDs_logRrdds (h r hr)]
  · obtain ⟨engine, hds2rrd⟩ := ds2rrd_rrddsFile rand rand_end h
    exact ⟨_, hds2rrd, (conserved_run rand rs).update engine, totals_run rs rand⟩

/-- A mail from outside, without a virus. -/
def sampleRrdds : Rrdds where
  aka := { size := 5000, engine := fun _ => ran (bytes "0") [] [] true }
  time := 1081651143
  elapsed := 420
  dns_query_time := some 30
  cpu := 90
  runtime _ := some 12
  cputime _ := none

/-- A mail from inside, with one. -/
def sampleVirus : Rrdds :=
  { sampleRrdds with
    aka :=
      { size := 0
        relayclient := bytes "1"
        engine := fun _ => ran (bytes "Eicar") [] [] true } }

theorem statistics_conserved_two :
    ∃ s, ds2rrd (fun _ => ⟨0, 0, 0⟩) ⟨0, 0⟩ (rrddsFile [sampleRrdds, sampleVirus]) = some s ∧
      s.type.num_in = 1 ∧ s.type.num_ok = 1 ∧ s.traffic.size_all = 5000 := by
  have hclean : ∀ r ∈ [sampleRrdds, sampleVirus], r.Clean := by decide +kernel
  obtain ⟨s, hs, -, htype, htraffic⟩ :=
    (statistics_conserved (fun _ => ⟨0, 0, 0⟩) ⟨0, 0⟩ [sampleRrdds, sampleVirus] hclean).2
  refine ⟨s, hs, ?_⟩
  rw [htype, htraffic]
  decide

end NoSpam.Status
