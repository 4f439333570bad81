import Mathlib.Data.Fintype.Basic
import Mathlib.Data.Int.Notation
import Mathlib.Logic.Function.Basic
import NoSpam.Base.Run

/-!
# The status of the virus scanner

Any number of processes use `AKA::Mail::AntiVirus`, a step each at a time.  The status is up when
the file `OK` is there; `set_clamd_down` and `set_clamd_up` rename the file `ERR` to it and back, or
make the one that is missing.  A restart sets the status down before it tries the lock, and only the
process that has the lock sets it up again: a process that does not get the lock can leave the
status down for good, if the other one has set it up already.  If this does not happen, a finished
restart leaves the status up (`status_up_of_meets`), and where it happens, nobody is left to set the
status up (`covered_iff_meets`).
-/

namespace NoSpam.Clamd

open Machine

/-- The two setters of the status. -/
inductive Direction
  | down
  | up
  deriving DecidableEq

/-- Where a setter is: the test for the file that it renames, the rename, the test for the other
file, its making, and the new time of modification. -/
inductive SetStep
  | test
  | rename
  | testOther
  | create
  | utime
  deriving DecidableEq

/-- What a process has called. -/
inductive Task
  | isClamdUp
  | restartClamd
  | setClamdDown
  | setClamdUp
  deriving DecidableEq

/-- Where a process is.  The phases up to `touch` are those of `is_clamd_up`, the others those of
`restart_clamd` and of the setters. -/
inductive Phase
  | idle
  | returned (result : Bool)
  | testOK
  | testERR
  | age
  | touch
  | down (p : SetStep)
  | opening
  | locking
  | restarting
  | sleeping
  | up (p : SetStep)
  | unlocking
  deriving DecidableEq

structure Proc where
  task : Task := .isClamdUp
  phase : Phase := .idle
  deriving DecidableEq

/-- A call of `restart_clamd`, by itself or from `is_clamd_up`. -/
def Task.restarts : Task → Bool
  | .isClamdUp | .restartClamd => true
  | .setClamdDown | .setClamdUp => false

/-- In a restart, and the status has still to be set up by it, or the lock to be tried. -/
def Proc.covers (p : Proc) : Bool :=
  p.task.restarts &&
    match p.phase with
    | .down _ | .opening | .locking | .restarting | .sleeping => true
    | .up q => q ≠ .utime
    | _ => false

/-- Inside a restart. -/
def Proc.inside (p : Proc) : Bool :=
  p.covers || p.task.restarts && (p.phase = .up .utime || p.phase = .unlocking)

/-- The files with their times of modification, the lock, what the last command returned, and the
processes. -/
structure State (ι : Type) where
  clock : ℕ
  ok : Option ℕ := none
  err : Option ℕ := none
  holder : Option ι := none
  lastRestart : Option Bool := none
  proc : ι → Proc := fun _ => {}

/-- The steps: the time goes on, a process makes a call, or it goes on; `outcome` says whether the
lock file can be opened, or whether the command succeeds. -/
inductive Event (ι : Type)
  | tick (n : ℕ)
  | call (w : ι) (task : Task)
  | go (w : ι) (outcome : Bool)

namespace State

section Files

variable {ι : Type} (s : State ι)

/-- The file that a setter renames. -/
def source : Direction → Option ℕ
  | .down => s.ok
  | .up => s.err

/-- The file that a setter leaves. -/
def target : Direction → Option ℕ
  | .down => s.err
  | .up => s.ok

/-- The file that a setter leaves is made or changed. -/
def setTarget : Direction → Option ℕ → State ι
  | .down, f => { s with err := f }
  | .up, f => { s with ok := f }

/-- `rename`. -/
def renameFile (d : Direction) : State ι :=
  match d, s.source d with
  | _, none => s
  | .down, some m => { s with ok := none, err := some m }
  | .up, some m => { s with ok := some m, err := none }

/-- One step of a setter, and the next one. -/
def setter (d : Direction) : SetStep → State ι × Option SetStep
  | .test => (s, some (if (s.source d).isSome then .rename else .testOther))
  | .rename => (s.renameFile d, some .utime)
  | .testOther => (s, some (if (s.target d).isSome then .utime else .create))
  | .create => (s.setTarget d (some s.clock), some .utime)
  | .utime => (s.setTarget d ((s.target d).map fun _ => s.clock), none)

/-- `set_clamd_down`. -/
def setClamdDown : SetStep → State ι × Option SetStep := s.setter .down

/-- `set_clamd_up`. -/
def setClamdUp : SetStep → State ι × Option SetStep := s.setter .up

end Files

variable {ι : Type} [DecidableEq ι] (s : State ι) (w : ι)

/-- A process is changed. -/
def setProc (p : Proc) : State ι := { s with proc := Function.update s.proc w p }

/-- A process goes on. -/
def goTo (phase : Phase) : State ι := s.setProc w { s.proc w with phase := phase }

/-- The end of `restart_clamd`; `is_clamd_up` returns 1 after it. -/
def finished : Phase := if (s.proc w).task = .isClamdUp then .returned true else .idle

/-- A process makes a call. -/
def call (task : Task) : State ι :=
  match (s.proc w).phase with
  | .idle | .returned _ =>
      s.setProc w ⟨task, match task with
        | .isClamdUp => .testOK
        | .restartClamd | .setClamdDown => .down .test
        | .setClamdUp => .up .test⟩
  | _ => s

/-- The next step of a process. -/
def go (outcome : Bool) : State ι :=
  match (s.proc w).phase with
  | .idle | .returned _ => s
  | .testOK => s.goTo w (if s.ok.isSome then .returned true else .testERR)
  | .testERR => s.goTo w (if s.err.isSome then .age else .touch)
  | .age =>
      s.goTo w (if (s.clock : ℤ) - (s.err.getD 0 : ℕ) < 600 then .returned false else .touch)
  | .touch => goTo { s with err := s.err.map fun _ => s.clock } w (.down .test)
  | .down p =>
      match s.setClamdDown p with
      | (s', some p) => s'.goTo w (.down p)
      | (s', none) =>
          s'.goTo w (if (s.proc w).task.restarts then .opening else .idle)
  | .opening => s.goTo w (if outcome then .locking else s.finished w)
  | .locking =>
      match s.holder with
      | none => goTo { s with holder := some w } w .restarting
      | some _ => s.goTo w (s.finished w)
  | .restarting => goTo { s with lastRestart := some outcome } w .sleeping
  | .sleeping => s.goTo w (.up .test)
  | .up p =>
      match s.setClamdUp p with
      | (s', some p) => s'.goTo w (.up p)
      | (s', none) => s'.goTo w (if (s.proc w).task.restarts then .unlocking else .idle)
  | .unlocking => goTo { s with holder := none } w (s.finished w)

/-- One step. -/
def step (s : State ι) : Event ι → State ι
  | .tick n => { s with clock := s.clock + n }
  | .call w task => s.call w task
  | .go w outcome => s.go w outcome

end State

section Processes

variable {ι : Type}

/-- A process gives a restart up: it cannot open the lock file, or does not get the lock. -/
def GivesUp (s : State ι) (w : ι) (outcome : Bool) : Prop :=
  (s.proc w).phase = .opening ∧ outcome = false ∨
    (s.proc w).phase = .locking ∧ s.holder.isSome = true

/-- The next step of a process renames `OK`, outside of a restart. -/
def SetsDown (s : State ι) (w : ι) : Prop :=
  (s.proc w).phase = .down .rename ∧ (s.proc w).task.restarts = false ∧ s.ok.isSome = true

/-- Once the last command has succeeded, a process gives a restart up only if the status is up or
another process is in a restart that has still to set it up, and a call of `set_clamd_down` by
itself sets the status down only if there is such a process. -/
def Careful (s : State ι) : Event ι → Prop
  | .go w outcome => s.lastRestart = some true →
      (GivesUp s w outcome → s.ok.isSome = true ∨ ∃ w', w' ≠ w ∧ (s.proc w').covers = true) ∧
      (SetsDown s w → ∃ w', (s.proc w').covers = true)
  | _ => True

/-- When no process is inside a restart and the last command has succeeded, the status is up. -/
def StatusUp (s : State ι) : Prop :=
  (∀ w, (s.proc w).inside = false) → s.lastRestart = some true → s.ok.isSome = true

/-- Once the last command has succeeded, the status is up, or a process is in a restart that has
still to set it up. -/
def Covered (s : State ι) : Prop :=
  s.lastRestart = some true → s.ok.isSome = true ∨ ∃ w, (s.proc w).covers = true

/-- There is a file of the status. -/
def State.Filed (s : State ι) : Prop := s.ok.isSome = true ∨ s.err.isSome = true

/-- Only restarts try the lock, and `set_clamd_up` renames what it has found. -/
structure Sound (s : State ι) (p : Proc) : Prop where
  filed : p.phase = .up .rename → s.Filed
  restarts : p.phase = .opening ∨ p.phase = .locking ∨ p.phase = .restarting →
    p.task.restarts = true

/-- What every careful step keeps. -/
structure Inv (s : State ι) : Prop where
  sound : ∀ w, Sound s (s.proc w)
  up : Covered s

/-! ## The setters -/

section Setters

variable {s : State ι}

theorem setter_proc (d : Direction) (p : SetStep) : (s.setter d p).1.proc = s.proc := by
  cases p with
  | rename =>
    simp only [State.setter, State.renameFile]
    split <;> rfl
  | _ => cases d <;> rfl

theorem setter_lastRestart (d : Direction) (p : SetStep) :
    (s.setter d p).1.lastRestart = s.lastRestart := by
  cases p with
  | rename =>
    simp only [State.setter, State.renameFile]
    split <;> rfl
  | _ => cases d <;> rfl

theorem filed_setter (d : Direction) (p : SetStep) (h : s.Filed) : (s.setter d p).1.Filed := by
  cases p with
  | test | testOther => exact h
  | rename =>
    simp only [State.setter, State.renameFile]
    split
    · exact h
    · exact Or.inr rfl
    · exact Or.inl rfl
  | create =>
    cases d with
    | down => exact Or.inr rfl
    | up => exact Or.inl rfl
  | utime =>
    cases d with
    | down => exact h.imp_right fun herr => (Option.isSome_map ..).trans herr
    | up => exact h.imp_left fun hok => (Option.isSome_map ..).trans hok

/-- Only the rename of `set_clamd_down` takes the status away. -/
theorem ok_setClamdDown {p : SetStep} (hp : p ≠ .rename) :
    (s.setClamdDown p).1.ok = s.ok := by
  cases p with
  | rename => exact absurd rfl hp
  | _ => rfl

theorem ok_setClamdUp (p : SetStep) (h : s.ok.isSome = true) :
    (s.setClamdUp p).1.ok.isSome = true := by
  cases p with
  | test | testOther => exact h
  | rename =>
    simp only [State.setClamdUp, State.setter, State.renameFile]
    split
    · exact h
    · contradiction
    · rfl
  | create => rfl
  | utime => simpa [State.setClamdUp, State.setter, State.setTarget, State.target] using h

/-- `set_clamd_up` renames what it has found. -/
theorem filed_of_setClamdUp {p : SetStep} (h : (s.setClamdUp p).2 = some .rename) :
    (s.setClamdUp p).1.Filed := by
  cases p with
  | test =>
    refine Or.inr (?_ : s.err.isSome = true)
    by_contra herr
    simp [State.setClamdUp, State.setter, State.source, eq_false_of_ne_true herr] at h
  | testOther =>
    simp only [State.setClamdUp, State.setter] at h
    split at h <;> cases h
  | _ => cases h

/-- When only the time is left to be set, the status is up. -/
theorem ok_of_setClamdUp {p : SetStep} (hp : p = .rename → s.Filed)
    (h : (s.setClamdUp p).2 = some .utime) : (s.setClamdUp p).1.ok.isSome = true := by
  cases p with
  | test =>
    simp only [State.setClamdUp, State.setter] at h
    split at h <;> cases h
  | testOther =>
    refine (?_ : s.ok.isSome = true)
    by_contra hok
    simp [State.setClamdUp, State.setter, State.target, eq_false_of_ne_true hok] at h
  | rename =>
    simp only [State.setClamdUp, State.setter, State.renameFile]
    split
    · rename_i hsource
      rcases hp rfl with hok | herr
      · exact hok
      · rw [show s.err = none from hsource] at herr
        cases herr
    · contradiction
    · rfl
  | create => rfl
  | utime => cases h

end Setters

/-! ## Steps of a process -/

theorem not_covers_of_not_restarts {p : Proc} (h : p.task.restarts = false) : p.covers = false := by
  rw [Proc.covers, h, Bool.false_and]

section Steps

variable {s s' : State ι} {w : ι} {phase : Phase}

/-- The phases that `Sound` says nothing about. -/
def Phase.Plain : Phase → Prop
  | .opening | .locking | .restarting | .up .rename => False
  | _ => True

theorem sound_of_plain {p : Proc} (h : p.phase.Plain) : Sound s p :=
  ⟨fun hp => by rw [hp] at h; exact h.elim, fun hp => by
    rcases hp with hp | hp | hp <;> rw [hp] at h <;> exact h.elim⟩

theorem sound_of_restarts {p : Proc} (hrename : p.phase ≠ .up .rename)
    (h : p.task.restarts = true) : Sound s p :=
  ⟨fun hphase => absurd hphase hrename, fun _ => h⟩

theorem sound_finished : Sound s { s.proc w with phase := s.finished w } := by
  unfold State.finished
  split <;> exact sound_of_plain trivial

variable [DecidableEq ι]

theorem setProc_proc_self {p : Proc} : (s.setProc w p).proc w = p := Function.update_self ..

theorem setProc_proc_of_ne {p : Proc} {w' : ι} (h : w' ≠ w) :
    (s.setProc w p).proc w' = s.proc w' :=
  Function.update_of_ne h ..

theorem goTo_proc_self : (s.goTo w phase).proc w = { s.proc w with phase := phase } :=
  setProc_proc_self

theorem goTo_proc_of_ne {w' : ι} (h : w' ≠ w) : (s.goTo w phase).proc w' = s.proc w' :=
  setProc_proc_of_ne h

/-- A process goes on after a change of the files. -/
theorem Inv.move (h : Inv s) (hproc : s'.proc = s.proc) (hfiled : s.Filed → s'.Filed)
    (hsound : Sound s' { s.proc w with phase := phase })
    (hup : s'.lastRestart = some true →
      s'.ok.isSome = true ∨ ∃ w', ((s'.goTo w phase).proc w').covers = true) :
    Inv (s'.goTo w phase) := by
  have hself : (s'.goTo w phase).proc w = { s.proc w with phase := phase } := by
    rw [goTo_proc_self, hproc]
  have hother : ∀ w', w' ≠ w → (s'.goTo w phase).proc w' = s.proc w' := fun w' hne => by
    rw [goTo_proc_of_ne hne, hproc]
  exact ⟨forall_of_frame (P := fun _ p => Sound (s'.goTo w phase) p) hself hother
    ⟨hsound.filed, hsound.restarts⟩ fun w' _ =>
      ⟨fun hw' => hfiled ((h.sound w').filed hw'), (h.sound w').restarts⟩, hup⟩

/-- Afterwards the process has still to set the status up. -/
theorem Inv.move_of_covers (h : Inv s) (hproc : s'.proc = s.proc) (hfiled : s.Filed → s'.Filed)
    (hsound : Sound s' { s.proc w with phase := phase })
    (hw : ({ s.proc w with phase := phase } : Proc).covers = true) : Inv (s'.goTo w phase) :=
  h.move hproc hfiled hsound fun _ => Or.inr ⟨w, by rw [goTo_proc_self, hproc, hw]⟩

/-- The process had not to set the status up before, and leaves it up if it is. -/
theorem Inv.move_of_not_covers (h : Inv s) (hproc : s'.proc = s.proc)
    (hlast : s'.lastRestart = s.lastRestart) (hfiled : s.Filed → s'.Filed)
    (hsound : Sound s' { s.proc w with phase := phase })
    (hok : s.ok.isSome = true → s'.ok.isSome = true) (hw : (s.proc w).covers = false) :
    Inv (s'.goTo w phase) := by
  refine h.move hproc hfiled hsound fun hup => ?_
  rcases h.up (hlast ▸ hup) with hs | ⟨w', hw'⟩
  · exact Or.inl (hok hs)
  · have hne : w' ≠ w := by
      rintro rfl
      rw [hw] at hw'
      cases hw'
    exact Or.inr ⟨w', by rw [goTo_proc_of_ne hne, hproc, hw']⟩

/-- A process gives the restart up. -/
theorem Inv.giveUp (h : Inv s)
    (hup : s.lastRestart = some true →
      s.ok.isSome = true ∨ ∃ w', w' ≠ w ∧ (s.proc w').covers = true) :
    Inv (s.goTo w (s.finished w)) := by
  refine h.move rfl id sound_finished fun hlast => (hup hlast).imp_right ?_
  rintro ⟨w', hne, hw'⟩
  exact ⟨w', by rw [goTo_proc_of_ne hne, hw']⟩

/-- A step of `set_clamd_down`. -/
theorem Inv.stepDown (h : Inv s) {p : SetStep} (hw : (s.proc w).phase = .down p)
    (hsound : Sound (s.setClamdDown p).1 { s.proc w with phase := phase })
    (hcovers : (s.proc w).task.restarts = true →
      ({ s.proc w with phase := phase } : Proc).covers = true)
    (hlone : s.lastRestart = some true → SetsDown s w → ∃ w', (s.proc w').covers = true) :
    Inv ((s.setClamdDown p).1.goTo w phase) := by
  have hproc : (s.setClamdDown p).1.proc = s.proc := setter_proc .down p
  have hlast : (s.setClamdDown p).1.lastRestart = s.lastRestart := setter_lastRestart .down p
  have hfiled : s.Filed → (s.setClamdDown p).1.Filed := filed_setter .down p
  cases hr : (s.proc w).task.restarts with
  | true => exact h.move_of_covers hproc hfiled hsound (hcovers hr)
  | false =>
    have hnot := not_covers_of_not_restarts hr
    by_cases hp : p = .rename
    · -- The status is taken away: one of the others has to set it up.
      refine h.move hproc hfiled hsound fun hup => Or.inr ?_
      rw [hlast] at hup
      obtain ⟨w', hw'⟩ : ∃ w', (s.proc w').covers = true := by
        rcases h.up hup with hok | hothers
        · exact hlone hup ⟨hp ▸ hw, hr, hok⟩
        · exact hothers
      have hne : w' ≠ w := by
        rintro rfl
        rw [hnot] at hw'
        cases hw'
      exact ⟨w', by rw [goTo_proc_of_ne hne, hproc, hw']⟩
    · exact h.move_of_not_covers hproc hlast hfiled hsound
        (fun hok => by rwa [ok_setClamdDown hp]) hnot

/-- A step of `set_clamd_up`. -/
theorem Inv.stepUp (h : Inv s) {p : SetStep}
    (hsound : Sound (s.setClamdUp p).1 { s.proc w with phase := phase })
    (hcovers : (s.proc w).covers = true → (s.setClamdUp p).1.ok.isSome = true ∨
      ({ s.proc w with phase := phase } : Proc).covers = true) :
    Inv ((s.setClamdUp p).1.goTo w phase) := by
  have hproc : (s.setClamdUp p).1.proc = s.proc := setter_proc .up p
  have hlast : (s.setClamdUp p).1.lastRestart = s.lastRestart := setter_lastRestart .up p
  have hfiled : s.Filed → (s.setClamdUp p).1.Filed := filed_setter .up p
  cases hc : (s.proc w).covers with
  | true =>
    refine h.move hproc hfiled hsound fun _ => (hcovers hc).imp_right fun hself => ?_
    exact ⟨w, by rw [goTo_proc_self, hproc, hself]⟩
  | false => exact h.move_of_not_covers hproc hlast hfiled hsound (ok_setClamdUp p) hc

/-- A step of `set_clamd_down`, and where the process goes from it. -/
theorem Inv.setDown (h : Inv s) {p : SetStep} (hw : (s.proc w).phase = .down p)
    (hlone : s.lastRestart = some true → SetsDown s w → ∃ w', (s.proc w').covers = true) :
    ∀ r, s.setClamdDown p = r → Inv (match r with
      | (s', some q) => s'.goTo w (.down q)
      | (s', none) => s'.goTo w (if (s.proc w).task.restarts then .opening else .idle)) := by
  rintro ⟨s', next⟩ hr
  have hs' : s' = (s.setClamdDown p).1 := by rw [hr]
  rw [hs']
  cases next with
  | some q =>
    exact h.stepDown hw (sound_of_plain trivial) (fun hr => by simp [Proc.covers, hr]) hlone
  | none =>
    cases htask : (s.proc w).task.restarts with
    | true =>
      exact h.stepDown hw (sound_of_restarts (by simp) htask)
        (fun _ => by simp [Proc.covers, htask]) hlone
    | false =>
      refine h.stepDown hw (sound_of_plain trivial) (fun htask' => ?_) hlone
      rw [htask] at htask'
      cases htask'

/-- A step of `set_clamd_up`, and where the process goes from it. -/
theorem Inv.setUp (h : Inv s) {p : SetStep} (hw : (s.proc w).phase = .up p) :
    ∀ r, s.setClamdUp p = r → Inv (match r with
      | (s', some q) => s'.goTo w (.up q)
      | (s', none) => s'.goTo w (if (s.proc w).task.restarts then .unlocking else .idle)) := by
  rintro ⟨s', next⟩ hr
  have hs' : s' = (s.setClamdUp p).1 := by rw [hr]
  have hnext : next = (s.setClamdUp p).2 := by rw [hr]
  rw [hs']
  cases next with
  | some q =>
    refine h.stepUp ⟨fun hphase => ?_, by simp⟩ fun hcovers => ?_
    · cases hphase
      exact filed_of_setClamdUp hnext.symm
    · by_cases hutime : q = .utime
      · refine Or.inl (ok_of_setClamdUp (fun hp => ?_) (hutime ▸ hnext.symm))
        exact (h.sound w).filed (hp ▸ hw)
      · simp only [Proc.covers, hw, Bool.and_eq_true] at hcovers
        exact Or.inr (by simp [Proc.covers, hcovers.1, hutime])
  | none =>
    -- only the last step of the setter has no next one
    have hp : p = .utime := by
      cases p with
      | utime => rfl
      | _ => cases hnext
    refine h.stepUp ?_ fun hcovers => ?_
    · split <;> exact sound_of_plain trivial
    · simp [Proc.covers, hw, hp] at hcovers

/-- One step of a process. -/
theorem Inv.go (h : Inv s) {outcome : Bool} (hok : Careful s (.go w outcome)) :
    Inv (s.go w outcome) := by
  unfold State.go
  cases hw : (s.proc w).phase with
  | idle | returned => exact h
  | testOK | testERR | age =>
    refine h.move_of_not_covers rfl rfl id ?_ id (by simp [Proc.covers, hw])
    split <;> exact sound_of_plain trivial
  | touch =>
    refine h.move_of_not_covers rfl rfl ?_
      (sound_of_plain trivial) id (by simp [Proc.covers, hw])
    exact fun hfiled => hfiled.imp_right fun herr => (Option.isSome_map ..).trans herr
  | down p => exact h.setDown hw (fun hup => (hok hup).2) _ rfl
  | opening =>
    have hr := (h.sound w).restarts (Or.inl hw)
    cases outcome with
    | false => exact h.giveUp fun hup => (hok hup).1 (Or.inl ⟨hw, rfl⟩)
    | true =>
      exact h.move_of_covers rfl id (sound_of_restarts (by simp) hr) (by simp [Proc.covers, hr])
  | locking =>
    have hr := (h.sound w).restarts (Or.inr (Or.inl hw))
    cases hheld : s.holder with
    | some v =>
      exact h.giveUp fun hup => (hok hup).1 (Or.inr ⟨hw, by rw [hheld]; rfl⟩)
    | none =>
      exact h.move_of_covers rfl id (sound_of_restarts (by simp) hr) (by simp [Proc.covers, hr])
  | restarting =>
    have hr := (h.sound w).restarts (Or.inr (Or.inr hw))
    exact h.move_of_covers rfl id (sound_of_restarts (by simp) hr) (by simp [Proc.covers, hr])
  | sleeping =>
    have hsound : Sound s { s.proc w with phase := .up .test } :=
      sound_of_plain trivial
    cases hr : (s.proc w).task.restarts with
    | true => exact h.move_of_covers rfl id hsound (by simp [Proc.covers, hr])
    | false => exact h.move_of_not_covers rfl rfl id hsound id (not_covers_of_not_restarts hr)
  | up p => exact h.setUp hw _ rfl
  | unlocking =>
    exact h.move_of_not_covers rfl rfl id sound_finished id (by simp [Proc.covers, hw])

/-- A process starts anew. -/
theorem Inv.start (h : Inv s) {p : Proc} (hw : (s.proc w).covers = false) (hp : Sound s p) :
    Inv (s.setProc w p) := by
  refine ⟨?_, fun hup => (h.up hup).imp_right ?_⟩
  · exact forall_of_frame (P := fun _ p' => Sound (s.setProc w p) p') setProc_proc_self
      (fun _ hne => setProc_proc_of_ne hne) ⟨hp.filed, hp.restarts⟩ fun w' _ =>
        ⟨(h.sound w').filed, (h.sound w').restarts⟩
  · rintro ⟨w', hw'⟩
    have hne : w' ≠ w := by
      rintro rfl
      rw [hw] at hw'
      cases hw'
    exact ⟨w', by rw [setProc_proc_of_ne hne, hw']⟩

theorem Inv.call (h : Inv s) (task : Task) : Inv (s.call w task) := by
  unfold State.call
  cases hw : (s.proc w).phase with
  | idle | returned =>
    refine h.start (by simp [Proc.covers, hw]) (sound_of_plain ?_)
    cases task <;> trivial
  | _ => exact h

/-- A careful step keeps the invariant. -/
theorem inv_step (h : Inv s) {e : Event ι} (hok : Careful s e) : Inv (s.step e) := by
  cases e with
  | tick n => exact ⟨fun w => ⟨(h.sound w).filed, (h.sound w).restarts⟩, h.up⟩
  | call w task => exact h.call task
  | go w outcome => exact h.go hok

omit [DecidableEq ι] in
theorem Inv.statusUp (h : Inv s) : StatusUp s := by
  intro hnone hup
  refine (h.up hup).resolve_right ?_
  rintro ⟨w, hw⟩
  have hout := hnone w
  rw [Proc.inside, hw] at hout
  cases hout

omit [DecidableEq ι] in
theorem not_covers_finished : ({ s.proc w with phase := s.finished w } : Proc).covers = false := by
  unfold State.finished
  split <;> simp [Proc.covers]

/-- What covers a state after a step of a process that does not, covers it before. -/
theorem exists_covers_of_goTo (hproc : s'.proc = s.proc)
    (hw : ({ s.proc w with phase := phase } : Proc).covers = false)
    (h : ∃ w', ((s'.goTo w phase).proc w').covers = true) :
    ∃ w', w' ≠ w ∧ (s.proc w').covers = true := by
  obtain ⟨w', hw'⟩ := h
  have hne : w' ≠ w := by
    rintro rfl
    rw [goTo_proc_self, hproc, hw] at hw'
    cases hw'
  exact ⟨w', hne, by rwa [goTo_proc_of_ne hne, hproc] at hw'⟩

/-- A step that is not careful leaves the status down, and nobody is to set it up. -/
theorem careful_of_covered {e : Event ι} (h : Covered (s.step e)) : Careful s e := by
  cases e with
  | tick n => trivial
  | call w task => trivial
  | go w outcome =>
    intro hup
    constructor
    · intro hgives
      have hgo : s.go w outcome = s.goTo w (s.finished w) := by
        unfold State.go
        rcases hgives with ⟨hw, rfl⟩ | ⟨hw, hheld⟩
        · rw [hw]
          rfl
        · obtain ⟨v, hv⟩ := Option.isSome_iff_exists.1 hheld
          simp only [hw, hv]
      rw [State.step, hgo] at h
      exact (h hup).imp_right (exists_covers_of_goTo rfl not_covers_finished)
    · rintro ⟨hw, hlone, hok⟩
      obtain ⟨m, hm⟩ := Option.isSome_iff_exists.1 hok
      have hgo : s.go w outcome =
          State.goTo { s with ok := none, err := some m } w (.down .utime) := by
        simp only [State.go, hw, State.setClamdDown, State.setter, State.renameFile,
          State.source, hm]
      rw [State.step, hgo] at h
      have hself : ({ s.proc w with phase := .down .utime } : Proc).covers = false :=
        not_covers_of_not_restarts hlone
      have hothers := (h hup).resolve_left Bool.false_ne_true
      obtain ⟨w', -, hw'⟩ := exists_covers_of_goTo rfl hself hothers
      exact ⟨w', hw'⟩

omit [DecidableEq ι] in
theorem inv_of_idle (hidle : ∀ w, (s.proc w).phase = .idle) (hs : StatusUp s) : Inv s := by
  refine ⟨fun w => sound_of_plain (by rw [hidle w]; trivial), fun hup =>
    Or.inl (hs (fun w => ?_) hup)⟩
  simp [Proc.inside, Proc.covers, hidle w]

/-- **No restart leaves the status down** in a run whose steps are all careful: whenever no process
is inside a restart and the last command has succeeded, the file `OK` is there. -/
theorem status_up_of_meets {s : State ι} (hidle : ∀ w, (s.proc w).phase = .idle) (hs : StatusUp s)
    {es : List (Event ι)} (h : Meets State.step Careful s es) :
    StatusUp (run State.step s es) := by
  exact (run_invariant (I := Inv) (fun _ _ hinv hok => inv_step hinv hok) (inv_of_idle hidle hs)
    h).statusUp

/-- In every state of a run the status is up or to be set up, if and only if all steps are careful.
-/
theorem covered_iff_meets {s : State ι} (hidle : ∀ w, (s.proc w).phase = .idle) (hs : StatusUp s)
    {es : List (Event ι)} :
    (∀ es', es' <+: es → Covered (run State.step s es')) ↔ Meets State.step Careful s es :=
  forall_prefix_iff_meets (I := Inv) (fun _ hinv => hinv.up) (fun _ _ hinv hok => inv_step hinv hok)
    (fun _ _ _ hstep => careful_of_covered hstep) (inv_of_idle hidle hs)

end Steps

end Processes

/-! ## Two processes -/

section TwoProcesses

instance {ι : Type} (s : State ι) (w : ι) (outcome : Bool) : Decidable (GivesUp s w outcome) :=
  inferInstanceAs (Decidable (_ ∨ _))

instance {ι : Type} (s : State ι) (w : ι) : Decidable (SetsDown s w) :=
  inferInstanceAs (Decidable (_ ∧ _))

instance {ι : Type} [DecidableEq ι] [Fintype ι] (s : State ι) :
    ∀ e : Event ι, Decidable (Careful s e)
  | .go _ _ => inferInstanceAs (Decidable (_ → _))
  | .tick _ => .isTrue trivial
  | .call _ _ => .isTrue trivial

instance {ι : Type} [Fintype ι] (s : State ι) : Decidable (StatusUp s) :=
  inferInstanceAs (Decidable (_ → _))

/-- The status is up, and no process does anything. -/
def quiet : State (Fin 2) := { clock := 1000, ok := some 900 }

/-- A process goes on for some steps, all of which succeed. -/
def goOn (w : Fin 2) (n : ℕ) : List (Event (Fin 2)) := List.replicate n (.go w true)

/-- Both find the scanner dead.  The second asks for the lock while the first restarts it. -/
theorem status_up_second_waits :
    StatusUp (run State.step quiet
      ([.call 0 .restartClamd, .call 1 .restartClamd] ++ goOn 0 6 ++ goOn 1 6 ++ goOn 0 5)) :=
  status_up_of_meets (by decide) (by decide) (by decide +kernel)

/-- The second sets the status down after the first has set it up, and before it gives the lock
back.  From then on `is_clamd_up` says no. -/
theorem status_left_down :
    ¬ StatusUp (run State.step quiet
      ([.call 0 .restartClamd, .call 1 .restartClamd] ++ goOn 0 10 ++ goOn 1 5 ++ goOn 0 1)) ∧
    ((run State.step quiet
      ([.call 0 .restartClamd, .call 1 .restartClamd] ++ goOn 0 10 ++ goOn 1 5 ++ goOn 0 1 ++
        [.call 1 .isClamdUp] ++ goOn 1 3)).proc 1).phase = .returned false := by
  decide +kernel

end TwoProcesses

end NoSpam.Clamd
