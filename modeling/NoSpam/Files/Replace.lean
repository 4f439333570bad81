import NoSpam.Base.Inode
import NoSpam.Base.Run
import NoSpam.Base.Scalar

/-!
# Replacing a file

`write_file` of `NoSPAM.pl` and `savetofile` of the web interface are there to replace a file in the
same way: they take the lock `$file.lock`, write `$file.new`, and rename it, `savetofile` under the
lock and `write_file` after it has released it.  But `write_file` opens the new file with
`open (LFD, ">$filename.new", 0644)`, whose three arguments make `>$filename.new` the mode, so that
it gets no further.  Any number of calls run at once, a step each at a time, and any of them may
fail or be killed.  At every moment the file holds what it held at first or what a call of
`savetofile` was given (`atomic_run`).
-/

namespace NoSpam.Files

open Text Perl Machine

/-- The names of a file that is replaced. -/
inductive Path
  | target
  | new
  deriving DecidableEq

/-- The two functions that replace files. -/
inductive Writer
  | writeFile
  | savetofile
  deriving DecidableEq

/-- A file that is replaced, which all callers name by its absolute path. -/
structure Target where
  path : Bytes
  absolute : path.head? = some 47

/-- Whether the `open` of the new file names a mode that Perl or PHP knows. -/
def Writer.opens (file : Target) : Writer → Bool
  | .writeFile => isOpenMode (62 :: (file.path ++ bytes ".new"))
  | .savetofile => true

/-- A call with the content it is given. -/
structure Call where
  writer : Writer
  content : Bytes

/-- Where a call is.  After its `open` a call has written so many bytes to a file; `failing` leads
to the `unlink` of `$file.new`, and `holding` is past the work, but still under the lock. -/
inductive Phase
  | ready
  | started
  | locked
  | writing (file off : ℕ)
  | failing
  | closed
  | unlocked
  | holding
  | finished
  deriving DecidableEq

/-- The steps of the calls, with the outcomes that the system may give them. -/
inductive Event (ι : Type)
  | call (w : ι)
  | getLock (w : ι)
  | noLock (w : ι)
  | openNew (w : ι)
  | openFails (w : ι)
  | write (w : ι) (n : ℕ)
  | close (w : ι)
  | writeFails (w : ι)
  | unlinkNew (w : ι)
  | unlock (w : ι)
  | unlockFails (w : ι)
  | rename (w : ι) (ok : Bool)
  | exit (w : ι)

/-- The files, the holder of the lock, and the calls. -/
structure State (ι : Type) where
  fs : Fs Path UInt8
  lock : Option ι := none
  phase : ι → Phase := fun _ => .ready

section Steps

variable {ι : Type} [DecidableEq ι]

/-- One call goes on to a phase. -/
def State.to (s : State ι) (w : ι) (p : Phase) : State ι :=
  { s with phase := Function.update s.phase w p }

/-- The lock without this holder. -/
def State.release (s : State ι) (w : ι) : Option ι := if s.lock = some w then none else s.lock

/-- `write_file` does nothing when it gets no content. -/
def Call.skips (c : Call) : Bool := c.writer = .writeFile && !isTrue c.content

variable (file : Target) (calls : ι → Call)

/-! Each step is without effect when the call is elsewhere. -/

/-- The call starts. -/
def State.call (s : State ι) (w : ι) : State ι :=
  if s.phase w = .ready then s.to w (if (calls w).skips then .finished else .started) else s

/-- The lock is free and taken. -/
def State.getLock (s : State ι) (w : ι) : State ι :=
  if s.phase w = .started ∧ s.lock = none then { s.to w .locked with lock := some w } else s

/-- The lock file cannot be opened or locked. -/
def State.noLock (s : State ι) (w : ι) : State ι :=
  if s.phase w = .started then s.to w .finished else s

/-- `open` of the new file, which `savetofile` manages to do. -/
def State.openNew (s : State ι) (w : ι) : State ι :=
  if s.phase w = .locked ∧ (calls w).writer.opens file = true then
    { s.to w (.writing (s.fs.openTrunc .new).1 0) with fs := (s.fs.openTrunc .new).2 }
  else s

/-- The new file is not opened: `write_file` returns 30 with the lock, where the unknown mode does
not end the process; `savetofile` finds that it cannot write. -/
def State.openFails (s : State ι) (w : ι) : State ι :=
  if s.phase w = .locked then
    s.to w (match (calls w).writer with | .writeFile => .holding | .savetofile => .failing)
  else s

/-- So many of the bytes that remain reach the file. -/
def State.write (s : State ι) (w : ι) (n : ℕ) : State ι :=
  match s.phase w with
  | .writing i off =>
    let data := ((calls w).content.drop off).take n
    { s.to w (.writing i (off + data.length)) with fs := s.fs.pwrite 0 i off data }
  | _ => s

/-- `close`, with everything written. -/
def State.close (s : State ι) (w : ι) : State ι :=
  match s.phase w with
  | .writing _ off => if off = (calls w).content.length then s.to w .closed else s
  | _ => s

/-- Not everything could be written. -/
def State.writeFails (s : State ι) (w : ι) : State ι :=
  match s.phase w with
  | .writing _ _ => s.to w .failing
  | _ => s

/-- `unlink` of the new file: `write_file` returns 40 with the lock, `savetofile` dies. -/
def State.unlinkNew (s : State ι) (w : ι) : State ι :=
  if s.phase w = .failing then
    match (calls w).writer with
    | .writeFile => { s.to w .holding with fs := s.fs.unlink .new }
    | .savetofile => { s.to w .finished with fs := s.fs.unlink .new, lock := s.release w }
  else s

/-- The lock is released, by `write_file` before it renames and by `savetofile` after. -/
def State.unlock (s : State ι) (w : ι) : State ι :=
  match (calls w).writer, s.phase w with
  | .writeFile, .closed => { s.to w .unlocked with lock := s.release w }
  | .savetofile, .holding => { s.to w .finished with lock := s.release w }
  | _, _ => s

/-- `write_file` finds that the lock cannot be released. -/
def State.unlockFails (s : State ι) (w : ι) : State ι :=
  match (calls w).writer, s.phase w with
  | .writeFile, .closed => s.to w .holding
  | _, _ => s

/-- `rename`, which may fail. -/
def State.rename (s : State ι) (w : ι) (ok : Bool) : State ι :=
  let fs := if ok then s.fs.rename .new .target else s.fs
  match (calls w).writer, s.phase w with
  | .writeFile, .unlocked => { s.to w .finished with fs }
  | .savetofile, .closed => { s.to w .holding with fs }
  | _, _ => s

/-- The process of the call ends, at any point. -/
def State.exit (s : State ι) (w : ι) : State ι :=
  if s.phase w = .ready then s else { s.to w .finished with lock := s.release w }

/-- One step of one call. -/
def step (s : State ι) : Event ι → State ι
  | .call w => s.call calls w
  | .getLock w => s.getLock w
  | .noLock w => s.noLock w
  | .openNew w => s.openNew file calls w
  | .openFails w => s.openFails calls w
  | .write w n => s.write calls w n
  | .close w => s.close calls w
  | .writeFails w => s.writeFails w
  | .unlinkNew w => s.unlinkNew calls w
  | .unlock w => s.unlock calls w
  | .unlockFails w => s.unlockFails calls w
  | .rename w ok => s.rename calls w ok
  | .exit w => s.exit w

/-- The file holds what it held at first, or what a call that has started was given, which is one of
`savetofile`. -/
def Atomic (initial : Option Bytes) (s : State ι) : Prop :=
  s.fs.content .target = initial ∨
    ∃ w, (calls w).writer = .savetofile ∧ s.phase w ≠ .ready ∧
      s.fs.content .target = some (calls w).content

/-! ## The invariant -/

/-- The call is under the lock. -/
def Phase.HasLock : Phase → Prop
  | .locked | .writing _ _ | .failing | .closed | .holding => True
  | _ => False

/-- What a call knows of the new file between its `open` and its `rename`. -/
def Phase.Fact (c : Call) (fs : Fs Path UInt8) : Phase → Prop
  | .writing i off =>
      c.writer = .savetofile ∧ fs.dir .new = some i ∧ off ≤ c.content.length ∧
        fs.file i = c.content.take off
  | .closed => c.writer = .savetofile ∧ fs.content .new = some c.content
  | .unlocked => False
  | _ => True

theorem Phase.fact_of_not_hasLock {p : Phase} (h : ¬ p.HasLock) {c : Call} {fs : Fs Path UInt8}
    (hfact : p.Fact c fs) (fs' : Fs Path UInt8) : p.Fact c fs' := by
  cases p <;> first | trivial | exact hfact.elim | exact absurd trivial h

/-- What holds at every moment. -/
structure Inv (initial : Option Bytes) (s : State ι) : Prop where
  lock : ∀ w, (s.phase w).HasLock → s.lock = some w
  fact : ∀ w, (s.phase w).Fact (calls w) s.fs
  atomic : Atomic calls initial s

variable {file} {calls} {initial : Option Bytes} {s : State ι}

omit [DecidableEq ι] in
theorem Inv.eq_of_hasLock (h : Inv calls initial s) {w w' : ι} (hw : (s.phase w).HasLock)
    (hw' : (s.phase w').HasLock) : w' = w :=
  Option.some.inj ((h.lock w' hw').symm.trans (h.lock w hw))

omit [DecidableEq ι] in
/-- One call goes on.  The others keep the lock and what they know, and the file is what it was or
what the call was given. -/
theorem Inv.move (h : Inv calls initial s) {s' : State ι} {w : ι} {p : Phase}
    (hw : s'.phase w = p) (hframe : ∀ w', w' ≠ w → s'.phase w' = s.phase w') (hp : p ≠ .ready)
    (hself : p.HasLock → s'.lock = some w)
    (hothers : ∀ w', w' ≠ w → (s.phase w').HasLock → s'.lock = some w')
    (hfact : p.Fact (calls w) s'.fs)
    (hkept : ∀ w', w' ≠ w → (s.phase w').Fact (calls w') s'.fs)
    (htarget : s'.fs.content .target = s.fs.content .target ∨
      (calls w).writer = .savetofile ∧ s'.fs.content .target = some (calls w).content) :
    Inv calls initial s' := by
  constructor
  · intro w' hw'
    by_cases he : w' = w
    · rw [he, hw] at hw'
      rw [he, hself hw']
    · rw [hframe w' he] at hw'
      exact hothers w' he hw'
  · exact forall_of_frame (P := fun w' p => p.Fact (calls w') s'.fs) hw hframe hfact hkept
  · have hstarted : ∀ w', s.phase w' ≠ .ready → s'.phase w' ≠ .ready := by
      intro w' hw'
      by_cases he : w' = w
      · rw [he, hw]
        exact hp
      · rwa [hframe w' he]
    rcases htarget with htarget | ⟨hwriter, htarget⟩
    · rcases h.atomic with hat | ⟨w', hwriter, hw', hat⟩
      · exact Or.inl (htarget.trans hat)
      · exact Or.inr ⟨w', hwriter, hstarted w' hw', htarget.trans hat⟩
    · exact Or.inr ⟨w, hwriter, hw ▸ hp, htarget⟩

/-- A step that changes neither the lock nor the files. -/
theorem Inv.to (h : Inv calls initial s) {w : ι} {p : Phase} (hp : p ≠ .ready)
    (hlock : p.HasLock → (s.phase w).HasLock) (hfact : p.Fact (calls w) s.fs) :
    Inv calls initial (s.to w p) :=
  h.move (Function.update_self ..) (fun _ he => Function.update_of_ne he ..) hp
    (fun hlocked => h.lock w (hlock hlocked)) (fun w' _ hw' => h.lock w' hw') hfact
    (fun w' _ => h.fact w') (Or.inl rfl)

/-- A step that gives the lock back, if the call had it. -/
theorem Inv.done (h : Inv calls initial s) {w : ι} {p : Phase} (hp : p ≠ .ready)
    (hlock : ¬ p.HasLock) (hfact : p.Fact (calls w) s.fs) :
    Inv calls initial { s.to w p with lock := s.release w } := by
  refine h.move (Function.update_self ..) (fun _ he => Function.update_of_ne he ..) hp
    (fun hlocked => absurd hlocked hlock) (fun w' he hw' => ?_) hfact (fun w' _ => h.fact w')
    (Or.inl rfl)
  have hholder := h.lock w' hw'
  have hne : s.lock ≠ some w := fun hw => he (Option.some.inj (hholder.symm.trans hw))
  exact (if_neg hne).trans hholder

omit [DecidableEq ι] in
/-- A call under the lock may change the files: the others know nothing of them. -/
theorem Inv.kept (h : Inv calls initial s) {w : ι} (hw : (s.phase w).HasLock)
    (fs : Fs Path UInt8) : ∀ w', w' ≠ w → (s.phase w').Fact (calls w') fs :=
  fun w' he => Phase.fact_of_not_hasLock (fun hw' => he (h.eq_of_hasLock hw hw')) (h.fact w') fs

theorem Inv.call (h : Inv calls initial s) (w : ι) : Inv calls initial (s.call calls w) := by
  unfold State.call
  split_ifs
  · exact h.to (by simp) (fun h => h.elim) trivial
  · exact h.to (by simp) (fun h => h.elim) trivial
  · exact h

theorem Inv.getLock (h : Inv calls initial s) (w : ι) : Inv calls initial (s.getLock w) := by
  unfold State.getLock
  split_ifs with hw
  · have hfree : ∀ w', ¬ (s.phase w').HasLock := fun w' hw' => by
      have hholder := h.lock w' hw'
      rw [hw.2] at hholder
      cases hholder
    exact h.move (Function.update_self ..) (fun _ he => Function.update_of_ne he ..) (by simp)
      (fun _ => rfl) (fun w' _ hw' => absurd hw' (hfree w')) trivial (fun w' _ => h.fact w')
      (Or.inl rfl)
  · exact h

theorem Inv.noLock (h : Inv calls initial s) (w : ι) : Inv calls initial (s.noLock w) := by
  unfold State.noLock
  split_ifs
  · exact h.to (by simp) (fun h => h.elim) trivial
  · exact h

theorem Writer.eq_savetofile_of_opens {w : Writer} (h : w.opens file = true) :
    w = .savetofile := by
  cases w with
  | writeFile =>
    obtain ⟨path, hpath⟩ : ∃ path, file.path = 47 :: path := by
      have habsolute := file.absolute
      cases hpath : file.path with
      | nil => simp [hpath] at habsolute
      | cons c path => exact ⟨path, by simpa [hpath] using habsolute⟩
    rw [Writer.opens, hpath, List.cons_append, isOpenMode_path] at h
    cases h
  | savetofile => rfl

theorem Inv.openNew (h : Inv calls initial s) (w : ι) :
    Inv calls initial (s.openNew file calls w) := by
  unfold State.openNew
  split_ifs with hw
  · have hlocked : (s.phase w).HasLock := by
      rw [hw.1]
      trivial
    exact h.move (Function.update_self ..) (fun _ he => Function.update_of_ne he ..) (by simp)
      (fun _ => h.lock w hlocked) (fun w' _ hw' => h.lock w' hw')
      ⟨Writer.eq_savetofile_of_opens hw.2, Fs.dir_openTrunc, Nat.zero_le _,
        Fs.file_openTrunc.trans List.take_zero.symm⟩
      (h.kept hlocked _) (Or.inl (Fs.content_openTrunc_of_ne (by simp)))
  · exact h

theorem Inv.openFails (h : Inv calls initial s) (w : ι) :
    Inv calls initial (s.openFails calls w) := by
  unfold State.openFails
  split_ifs with hw
  · have hlocked : (s.phase w).HasLock := by
      rw [hw]
      trivial
    cases (calls w).writer with
    | writeFile => exact h.to (by simp) (fun _ => hlocked) trivial
    | savetofile => exact h.to (by simp) (fun _ => hlocked) trivial
  · exact h

theorem Inv.write (h : Inv calls initial s) (w : ι) (n : ℕ) :
    Inv calls initial (s.write calls w n) := by
  unfold State.write
  have hfact := h.fact w
  cases hw : s.phase w with
  | writing i off =>
    have hlocked : (s.phase w).HasLock := by
      rw [hw]
      trivial
    rw [hw] at hfact
    obtain ⟨hwriter, hdir, hle, hfile⟩ := hfact
    have htarget : s.fs.dir .target ≠ some i := fun ht => by cases s.fs.dir_inj ht hdir
    refine h.move (Function.update_self ..) (fun _ he => Function.update_of_ne he ..) (by simp)
      (fun _ => h.lock w hlocked) (fun w' _ hw' => h.lock w' hw') ⟨hwriter, hdir, ?_, ?_⟩
      (h.kept hlocked _) (Or.inl (Fs.content_put_of_ne _ htarget _))
    · rw [List.length_take, List.length_drop]
      omega
    · exact Fs.file_pwrite _ 0 hle hfile n
  | _ => exact h

theorem Inv.close (h : Inv calls initial s) (w : ι) : Inv calls initial (s.close calls w) := by
  unfold State.close
  have hfact := h.fact w
  cases hw : s.phase w with
  | writing i off =>
    rw [hw] at hfact
    obtain ⟨hwriter, hdir, -, hfile⟩ := hfact
    dsimp only
    split_ifs with hoff
    · refine h.to (by simp) (fun _ => by rw [hw]; trivial) ⟨hwriter, ?_⟩
      rw [hoff, List.take_length] at hfile
      exact (Fs.content_eq_some_iff _).2 ⟨i, hdir, hfile⟩
    · exact h
  | _ => exact h

theorem Inv.writeFails (h : Inv calls initial s) (w : ι) : Inv calls initial (s.writeFails w) := by
  unfold State.writeFails
  cases hw : s.phase w with
  | writing i off => exact h.to (by simp) (fun _ => by rw [hw]; trivial) trivial
  | _ => exact h

theorem Inv.unlinkNew (h : Inv calls initial s) (w : ι) :
    Inv calls initial (s.unlinkNew calls w) := by
  unfold State.unlinkNew
  split_ifs with hw
  · have hlocked : (s.phase w).HasLock := by
      rw [hw]
      trivial
    have htarget : (s.fs.unlink .new).content .target = s.fs.content .target :=
      Fs.content_unlink_of_ne (by simp)
    cases (calls w).writer with
    | writeFile =>
      exact h.move (Function.update_self ..) (fun _ he => Function.update_of_ne he ..) (by simp)
        (fun _ => h.lock w hlocked) (fun w' _ hw' => h.lock w' hw') trivial (h.kept hlocked _)
        (Or.inl htarget)
    | savetofile =>
      exact h.move (Function.update_self ..) (fun _ he => Function.update_of_ne he ..) (by simp)
        (fun hp => hp.elim) (fun w' he hw' => absurd (h.eq_of_hasLock hlocked hw') he) trivial
        (h.kept hlocked _) (Or.inl htarget)
  · exact h

theorem Inv.unlock (h : Inv calls initial s) (w : ι) : Inv calls initial (s.unlock calls w) := by
  unfold State.unlock
  have hfact := h.fact w
  cases hwriter : (calls w).writer with
  | writeFile =>
    cases hw : s.phase w with
    | closed =>
      -- `write_file` has not opened the file that it would have closed
      rw [hw] at hfact
      cases hwriter.symm.trans hfact.1
    | _ => exact h
  | savetofile =>
    cases s.phase w with
    | holding => exact h.done (by simp) (fun h => h.elim) trivial
    | _ => exact h

theorem Inv.unlockFails (h : Inv calls initial s) (w : ι) :
    Inv calls initial (s.unlockFails calls w) := by
  unfold State.unlockFails
  cases (calls w).writer with
  | writeFile =>
    cases hw : s.phase w with
    | closed => exact h.to (by simp) (fun _ => by rw [hw]; trivial) trivial
    | _ => exact h
  | savetofile => exact h

theorem Inv.rename (h : Inv calls initial s) (w : ι) (ok : Bool) :
    Inv calls initial (s.rename calls w ok) := by
  unfold State.rename
  have hfact := h.fact w
  dsimp only
  cases hwriter : (calls w).writer with
  | writeFile =>
    cases hw : s.phase w with
    | unlocked =>
      rw [hw] at hfact
      exact hfact.elim
    | _ => exact h
  | savetofile =>
    cases hw : s.phase w with
    | closed =>
      have hlocked : (s.phase w).HasLock := by
        rw [hw]
        trivial
      rw [hw] at hfact
      refine h.move (Function.update_self ..) (fun _ he => Function.update_of_ne he ..) (by simp)
        (fun _ => h.lock w hlocked) (fun w' _ hw' => h.lock w' hw') trivial (h.kept hlocked _) ?_
      cases ok with
      | false => exact Or.inl rfl
      | true =>
        refine Or.inr ⟨hwriter, ?_⟩
        rw [if_pos rfl, Fs.content_rename_target (by simp [hfact.2]), hfact.2]
    | _ => exact h

theorem Inv.exit (h : Inv calls initial s) (w : ι) : Inv calls initial (s.exit w) := by
  unfold State.exit
  split_ifs
  · exact h
  · exact h.done (by simp) (fun h => h.elim) trivial

/-- Every step keeps the invariant. -/
theorem Inv.step (h : Inv calls initial s) (e : Event ι) :
    Inv calls initial (step file calls s e) := by
  cases e with
  | call w => exact h.call w
  | getLock w => exact h.getLock w
  | noLock w => exact h.noLock w
  | openNew w => exact h.openNew w
  | openFails w => exact h.openFails w
  | write w n => exact h.write w n
  | close w => exact h.close w
  | writeFails w => exact h.writeFails w
  | unlinkNew w => exact h.unlinkNew w
  | unlock w => exact h.unlock w
  | unlockFails w => exact h.unlockFails w
  | rename w ok => exact h.rename w ok
  | exit w => exact h.exit w

omit [DecidableEq ι] in
theorem inv_start (fs : Fs Path UInt8) : Inv calls (fs.content .target) { fs } :=
  ⟨fun _ h => h.elim, fun _ => trivial, Or.inl rfl⟩

/-- **The file is replaced as a whole**: at every moment of every run the file holds what it held at
first or what a call of `savetofile` that has started was given. -/
theorem atomic_run (file : Target) (calls : ι → Call) (fs : Fs Path UInt8) (es : List (Event ι)) :
    Atomic calls (fs.content .target) (run (step file calls) { fs } es) := by
  have hinv : Inv calls (fs.content .target) (run (step file calls) { fs } es) :=
    run_invariant (fun _ e hs _ => Inv.step hs e) (inv_start fs)
      (meets_of_forall fun _ _ => trivial)
  exact hinv.atomic

end Steps

/-- The file with its first content, and no new file. -/
def before : Fs Path UInt8 where
  dir := fun a => match a with | .target => some 0 | .new => none
  file := fun _ => bytes "old\n"
  next := 1
  dir_lt := by
    intro a i h
    cases a <;> simp at h
    omega
  dir_inj := by
    intro a b i ha hb
    cases a <;> cases b <;> simp at ha hb ⊢

/-- One call of either kind. -/
def twoCalls : Bool → Call
  | false => ⟨.writeFile, bytes "one\n"⟩
  | true => ⟨.savetofile, bytes "two\n"⟩

/-- A call of `write_file` between the steps of `savetofile`, which goes through. -/
example :
    (run (step ⟨bytes "/etc/hosts", by decide⟩ twoCalls) { fs := before }
      [.call false, .call true, .getLock false, .openNew false, .write false 4, .close false,
        .unlock false, .openFails false, .exit false, .getLock true, .openNew true, .write true 4,
        .close true, .rename false true, .rename true true]).fs.content .target =
      some (bytes "two\n") := by
  decide

end NoSpam.Files
