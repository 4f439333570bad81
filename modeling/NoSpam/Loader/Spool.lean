import NoSpam.Base.Inode
import NoSpam.Loader.Submit

/-!
# Spooling the message

Before anything else the loader copies descriptor 0 into a file under `tmp` and renames it into
`new`.  The file is opened without being emptied, a short `write` counts as a whole one, and nobody
asks `close` whether it succeeded.  `spooled_iff` says when the file holds what was read, or else
the client exits with a status that is not 0: the left-over file must not be longer than the
message, and every byte must be written.
-/

namespace NoSpam.Loader

open Text Perl

/-- `BUF_LEN`. -/
def bufLen : ℕ := 2048

/-- What a `read` delivers before the end of its input. -/
structure Piece where
  data : Bytes
  ne_nil : data ≠ []
  length_le : data.length ≤ bufLen

/-- One turn of the copy loop, with the results that the system gives: `read` fails, `write` fails,
or `write` takes so many bytes of the piece. -/
inductive Turn
  | readFails
  | writeFails (p : Piece)
  | wrote (p : Piece) (n : Fin (p.data.length + 1))

namespace Turn

/-- The bytes that `read` has delivered. -/
def data : Turn → Bytes
  | readFails => []
  | writeFails p => p.data
  | wrote p _ => p.data

/-- The bytes that `write` has taken. -/
def taken : Turn → Bytes
  | readFails => []
  | writeFails _ => []
  | wrote p n => p.data.take n

/-- One of the calls returns an error. -/
def fails : Turn → Bool
  | readFails => true
  | writeFails _ => true
  | wrote _ _ => false

/-- The piece is written up to its end. -/
def Full : Turn → Prop
  | readFails => False
  | writeFails _ => False
  | wrote p n => n = p.data.length

instance (t : Turn) : Decidable t.Full := by
  cases t <;> unfold Full <;> infer_instance

end Turn

/-- The results of the system calls: after the last turn `read` returns 0.  A `close` that fails
leaves in the file whatever the file system has kept of it. -/
structure Calls where
  opens : Bool
  turns : List Turn
  closeFails : Option Bytes
  renames : Bool

/-- How the loader exits: the text for the SMTP server and the status. -/
structure Exit where
  smtpMsg : Bytes
  exitCode : ℕ

/-- `qns_err_n_exist`, while `emlfile` is still empty and there is no file to remove. -/
def qnsErrNExist (smtpMsg : String) (exitCode : ℕ) : Exit := ⟨bytes smtpMsg ++ [13, 10], exitCode⟩

/-- The name under which the message is collected. -/
def tmpEmlfile (time pid : ℕ) : Bytes :=
  bytes "/home/NoSPAM/spool/working/tmp/emlfile.gw.nospam." ++ decimal time ++ 46 :: decimal pid

/-- The copy loop, from the offset that the descriptor has reached. -/
def copyLoop (fd : ℕ) : Fs Bytes UInt8 → ℕ → List Turn → Except Exit (Fs Bytes UInt8)
  | fs, _, [] => .ok fs
  | _, _, .readFails :: _ => .error (qnsErrNExist "443 qns_loader can't read file." 150)
  | _, _, .writeFails _ :: _ => .error (qnsErrNExist "443 qns_loader can't write file." 150)
  | fs, off, .wrote p n :: ts => copyLoop fd (fs.pwrite 0 fd off (p.data.take n)) (off + n) ts

/-- `close`, whose result is not looked at. -/
def closeFile (fd : ℕ) (fs : Fs Bytes UInt8) : Option Bytes → Fs Bytes UInt8
  | none => fs
  | some kept => fs.put fd kept

theorem dir_closeFile (fd : ℕ) (fs : Fs Bytes UInt8) (o : Option Bytes) :
    (closeFile fd fs o).dir = fs.dir := by
  cases o <;> rfl

/-- `dump_stdin_to_file`: the path of the message file, and the files then. -/
def dumpStdinToFile (time pid : ℕ) (fs : Fs Bytes UInt8) (c : Calls) :
    Except Exit (Bytes × Fs Bytes UInt8) :=
  if c.opens then do
    let opened := fs.openCreate (tmpEmlfile time pid)
    let copied ← copyLoop opened.1 opened.2 0 c.turns
    let closed := closeFile opened.1 copied c.closeFails
    if c.renames then
      pure (emlfile time pid, closed.rename (tmpEmlfile time pid) (emlfile time pid))
    else .error (qnsErrNExist "443 qns_loader can't rename file." 150)
  else .error (qnsErrNExist "443 qns_loader can't open file." 150)

namespace Calls

variable (c : Calls)

/-- The bytes of the message that are read. -/
def received : Bytes := c.turns.flatMap Turn.data

/-- The bytes of the message that the writes have taken. -/
def taken : Bytes := c.turns.flatMap Turn.taken

/-- A call whose result is looked at returns an error. -/
def Fails : Prop := c.opens = false ∨ (∃ t ∈ c.turns, t.fails = true) ∨ c.renames = false

/-- Every piece is written up to its end. -/
def Whole : Prop := ∀ t ∈ c.turns, t.Full

instance : Decidable c.Whole := inferInstanceAs (Decidable (∀ t ∈ c.turns, t.Full))

/-- What the file holds after `close`, when it held `leftover` before. -/
def kept (leftover : Bytes) : Bytes :=
  c.closeFails.getD (c.taken ++ leftover.drop c.taken.length)

end Calls

/-- The message is spooled completely or refused. -/
def Spooled (time pid : ℕ) (fs : Fs Bytes UInt8) (c : Calls) : Prop :=
  match dumpStdinToFile time pid fs c with
  | .ok (path, fs) => fs.content path = some c.received
  | .error e => e.exitCode ≠ 0

/-- The file that is opened does not spoil the message and nothing of it is lost: a failing `close`
has kept all of it; else it is written up to its end over a left-over file that is not longer, or
the writes stop where the left-over file goes on as the message does. -/
def Unspoiled (leftover : Bytes) (c : Calls) : Prop :=
  match c.closeFails with
  | some kept => kept = c.received
  | none =>
    if c.Whole then leftover.length ≤ c.received.length
    else c.taken <+: c.received ∧
      leftover.drop c.taken.length = c.received.drop c.taken.length

section Copy

variable {fd : ℕ} {fs fs' : Fs Bytes UInt8} {ts : List Turn}

/-- The loop returns an error as soon as one of its calls does. -/
theorem copyLoop_of_fails (h : ∃ t ∈ ts, t.fails = true) (off : ℕ) :
    ∃ msg, copyLoop fd fs off ts = .error (qnsErrNExist msg 150) := by
  induction ts generalizing fs off with
  | nil =>
    obtain ⟨t, ht, -⟩ := h
    cases ht
  | cons t ts ih =>
    cases t with
    | readFails => exact ⟨_, rfl⟩
    | writeFails p => exact ⟨_, rfl⟩
    | wrote p n =>
      obtain ⟨t, ht, hfails⟩ := h
      rcases List.mem_cons.1 ht with rfl | ht
      · cases hfails
      · exact ih ⟨t, ht, hfails⟩ _

/-- What the loop writes replaces the head of the file that it finds; no name is changed. -/
theorem copyLoop_of_not_fails (h : ∀ t ∈ ts, t.fails = false) {head leftover : Bytes}
    (hfile : fs.file fd = head ++ leftover.drop head.length) :
    ∃ fs', copyLoop fd fs head.length ts = .ok fs' ∧ fs'.dir = fs.dir ∧
      fs'.file fd = (head ++ ts.flatMap Turn.taken) ++
        leftover.drop (head ++ ts.flatMap Turn.taken).length := by
  induction ts generalizing fs head with
  | nil => exact ⟨fs, rfl, rfl, by simpa using hfile⟩
  | cons t ts ih =>
    cases t with
    | readFails => cases h _ List.mem_cons_self
    | writeFails p => cases h _ List.mem_cons_self
    | wrote p n =>
      have hwrite : (fs.pwrite 0 fd head.length (p.data.take n)).file fd =
          (head ++ p.data.take n) ++ leftover.drop (head ++ p.data.take n).length := by
        rw [Fs.pwrite, Fs.file_put_self, hfile, Fs.overwrite_append_drop]
      obtain ⟨fs', hok, hdir, hfile'⟩ := ih (fun t ht => h t (List.mem_cons_of_mem _ ht)) hwrite
      have hoff : head.length + n = (head ++ p.data.take n).length := by
        rw [List.length_append, List.length_take_of_le (Nat.le_of_lt_succ n.isLt)]
      refine ⟨fs', ?_, hdir, ?_⟩
      · rw [copyLoop, hoff]
        exact hok
      · rw [List.flatMap_cons, ← List.append_assoc]
        exact hfile'

end Copy

/-- Writes that all take the whole of their piece take the message. -/
theorem Calls.taken_eq_received {c : Calls} (h : c.Whole) : c.taken = c.received := by
  apply List.flatMap_congr
  intro t ht
  have hfull := h t ht
  cases t with
  | readFails => cases hfull
  | writeFails p => cases hfull
  | wrote p n => exact List.take_of_length_le (Nat.le_of_eq hfull.symm)

theorem kept_eq_received_iff {leftover : Bytes} {c : Calls} :
    c.kept leftover = c.received ↔ Unspoiled leftover c := by
  unfold Calls.kept Unspoiled
  cases c.closeFails with
  | some kept => exact Iff.rfl
  | none =>
    rw [Option.getD_none]
    split_ifs with hwhole
    · rw [c.taken_eq_received hwhole, List.append_right_eq_self]
      exact List.drop_eq_nil_iff
    · constructor
      · intro h
        have hdrop := congrArg (List.drop c.taken.length) h
        rw [List.drop_left] at hdrop
        exact ⟨⟨_, h⟩, hdrop⟩
      · rintro ⟨⟨rest, hrest⟩, hdrop⟩
        rw [hdrop, ← hrest, List.drop_left]

section Exactness

variable {time pid : ℕ} {fs : Fs Bytes UInt8} {c : Calls}

/-- After the copy the collected file is there under its first name, and only the renaming is
left. -/
theorem dumpStdinToFile_copied (hopens : c.opens = true) (hturns : ∀ t ∈ c.turns, t.fails = false) :
    ∃ closed : Fs Bytes UInt8,
      closed.content (tmpEmlfile time pid) =
          some (c.kept ((fs.content (tmpEmlfile time pid)).getD [])) ∧
        dumpStdinToFile time pid fs c =
          if c.renames then
            .ok (emlfile time pid, closed.rename (tmpEmlfile time pid) (emlfile time pid))
          else .error (qnsErrNExist "443 qns_loader can't rename file." 150) := by
  obtain ⟨copied, hcopied, hdir, hfile⟩ := @copyLoop_of_not_fails _ _ _ hturns [] _
    (@Fs.file_openCreate _ _ fs _ (tmpEmlfile time pid))
  have hname : copied.dir (tmpEmlfile time pid) = some (fs.openCreate (tmpEmlfile time pid)).1 :=
    (congrFun hdir _).trans Fs.dir_openCreate
  refine ⟨closeFile (fs.openCreate (tmpEmlfile time pid)).1 copied c.closeFails, ?_, ?_⟩
  · rw [Fs.content_eq_some_iff]
    refine ⟨_, (congrFun (dir_closeFile ..) _).trans hname, ?_⟩
    unfold closeFile Calls.kept
    cases c.closeFails with
    | none => exact hfile
    | some kept => exact Fs.file_put_self ..
  · unfold dumpStdinToFile
    rw [List.length_nil] at hcopied
    rw [if_pos hopens]
    simp only [hcopied]
    rfl

theorem dumpStdinToFile_of_fails (h : c.Fails) :
    ∃ msg, dumpStdinToFile time pid fs c = .error (qnsErrNExist msg 150) := by
  by_cases hopens : c.opens = true
  · by_cases hturns : ∃ t ∈ c.turns, t.fails = true
    · obtain ⟨msg, hmsg⟩ := @copyLoop_of_fails (fs.openCreate (tmpEmlfile time pid)).1
        (fs.openCreate (tmpEmlfile time pid)).2 _ hturns 0
      refine ⟨msg, ?_⟩
      unfold dumpStdinToFile
      rw [if_pos hopens]
      simp only [hmsg]
      rfl
    · have hrenames : c.renames = false := by
        rcases h with h | h | h
        · rw [h] at hopens
          cases hopens
        · exact absurd h hturns
        · exact h
      obtain ⟨closed, -, hdump⟩ := @dumpStdinToFile_copied time pid fs c
        hopens fun t ht => by simpa using fun hfails => hturns ⟨t, ht, hfails⟩
      exact ⟨_, hdump.trans (if_neg (by simp [hrenames]))⟩
  · exact ⟨_, if_neg hopens⟩

/-- With no error the path is returned, and the file there is the one that has been written to. -/
theorem dumpStdinToFile_of_not_fails (h : ¬c.Fails) :
    ∃ fs', dumpStdinToFile time pid fs c = .ok (emlfile time pid, fs') ∧
      fs'.content (emlfile time pid) =
        some (c.kept ((fs.content (tmpEmlfile time pid)).getD [])) := by
  unfold Calls.Fails at h
  push Not at h
  obtain ⟨hopens, hturns, hrenames⟩ := h
  obtain ⟨closed, hcontent, hdump⟩ := @dumpStdinToFile_copied time pid fs c
    (by simpa using hopens) fun t ht => by simpa using hturns t ht
  refine ⟨_, hdump.trans (if_pos (by simpa using hrenames)), ?_⟩
  rw [Fs.content_rename_target (by rw [hcontent]; exact Option.some_ne_none _), hcontent]

theorem spooled_of_not_fails (h : ¬c.Fails) :
    Spooled time pid fs c ↔
      c.kept ((fs.content (tmpEmlfile time pid)).getD []) = c.received := by
  obtain ⟨fs', hok, hcontent⟩ :=
    @dumpStdinToFile_of_not_fails time pid fs c h
  rw [Spooled, hok]
  simp only [hcontent, Option.some_inj]

/-- A message is spooled completely or refused if and only if a call whose result is looked at
returns an error, or the file is not spoilt. -/
theorem spooled_iff :
    Spooled time pid fs c ↔
      c.Fails ∨ Unspoiled ((fs.content (tmpEmlfile time pid)).getD []) c := by
  by_cases h : c.Fails
  · obtain ⟨msg, hmsg⟩ := @dumpStdinToFile_of_fails time pid fs c h
    have hstatus : (qnsErrNExist msg 150).exitCode ≠ 0 := Nat.succ_ne_zero 149
    rw [Spooled, hmsg]
    exact iff_of_true hstatus (.inl h)
  · rw [spooled_of_not_fails h, or_iff_right h, kept_eq_received_iff]

/-- On a disk with room for one more byte a message of two bytes is spooled without its second
byte, and accepted. -/
theorem spooled_cut_short :
    ¬∀ (time pid : ℕ) (fs : Fs Bytes UInt8) (c : Calls), Spooled time pid fs c := by
  intro hall
  let fs : Fs Bytes UInt8 := ⟨fun _ => none, fun _ => [], 0, nofun, nofun⟩
  let c : Calls :=
    { opens := true
      turns := [.wrote ⟨bytes "Hi", by decide, by decide⟩ 1]
      closeFails := none
      renames := true }
  have hfails : ¬c.Fails := by
    unfold Calls.Fails
    decide
  have hkept := (spooled_of_not_fails hfails).1 (hall 0 1 fs c)
  revert hkept
  decide

end Exactness

end NoSpam.Loader
