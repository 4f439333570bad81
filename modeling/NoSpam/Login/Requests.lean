import Mathlib.Logic.Function.Basic
import NoSpam.Base.Run
import NoSpam.Login.Effect

/-!
# Login requests at the same time

Any number of requests of `login.ns`, a step each at a time: the constructor reads the two files one
after the other, `isDenied` may take an expired block away, `addLoginfailList` and `addBlockList`
change the lists of the request, and each list is written back as a whole (`savetofile` replaces a
file at once).  The lock is held for a save only, so a request can write a list over one that
another has saved after this one was read, and what the other has added is gone.  As long as no
request does that, and the lines are clean, every failure and every block stays on file until its
time is over (`nothing_forgotten_of_meets`).
-/

namespace NoSpam.Login

open Text Machine

/-- A client: the address it comes from and the id it gives. -/
structure Client where
  sIP : Bytes
  sID : Bytes
  genuine : isAddress sIP = true

/-- Where a request is.  `unblocking` is in `isDenied` before the save, `savingBlock` and
`recording` are past the change of the lists and before the save, with the time that was set. -/
inductive Phase
  | start
  | constructing
  | constructed
  | unblocking (refused : Bool)
  | passed
  | refused
  | blocking
  | savingBlock (t : ℤ)
  | forgetting
  | recording (t : ℤ)
  | done
  deriving DecidableEq

/-- A request: its object, and how often each file had been saved when the request read it or saved
it itself. -/
structure Local where
  phase : Phase := .start
  list : LoginBlackList := ⟨.empty, .empty, .empty⟩
  denySeen : ℕ := 0
  failSeen : ℕ := 0

/-- The files, the time, and the requests.  `failures` and `blocks` are what is not to be forgotten:
the failures that no block has consumed, and the blocks. -/
structure State (ι : Type) where
  stored : Stored
  clock : ℤ
  failures : List Failure
  blocks : List (Bytes × ℤ)
  req : ι → Local := fun _ => {}
  denySaves : ℕ := 0
  failSaves : ℕ := 0

/-- The steps. -/
inductive Event (ι : Type)
  | tick (n : ℕ)
  | loadDenyList (w : ι)
  | loadFailList (w : ι)
  | isDenied (w : ι)
  | succeed (w : ι)
  | addLoginfailList (w : ι)
  | addBlockList (w : ι)
  | saveBlockList (w : ι)
  | saveLoginfailList (w : ι)

/-- The blocks on file, as the constructor reads them. -/
def Stored.blockList (st : Stored) : Assoc Bytes ℤ := Assoc.ofList st.blocks

/-- Files as they are found, and no request yet. -/
def State.init {ι : Type} (st : Stored) (clock : ℤ) : State ι where
  stored := st
  clock := clock
  failures := st.failures
  blocks := st.blocks

section Steps

variable {ι : Type} [DecidableEq ι] (c : Limits) (who : ι → Client)

/-- The failure of a request at a time. -/
def Client.failure (u : Client) (t : ℤ) : Failure := ⟨u.sID, u.sIP, t⟩

/-- One request goes on. -/
def State.to (s : State ι) (w : ι) (l : Local) : State ι :=
  { s with req := Function.update s.req w l }

/-! Each step is without effect when the request is elsewhere. -/

/-- `IPDENYLIST` is read. -/
def State.loadDenyList (s : State ι) (w : ι) : State ι :=
  if (s.req w).phase = .start then
    s.to w { s.req w with
      phase := .constructing
      list := { (s.req w).list with aBlockList := s.stored.blockList }
      denySeen := s.denySaves }
  else s

/-- `LOGINFAILLIST` is read. -/
def State.loadFailList (s : State ι) (w : ι) : State ι :=
  if (s.req w).phase = .constructing then
    s.to w { s.req w with
      phase := .constructed
      list := { load s.stored with aBlockList := (s.req w).list.aBlockList }
      failSeen := s.failSaves }
  else s

/-- `isDenied`, up to the save; a second time from `getDeniedTime` when the first one refuses. -/
def State.deny (s : State ι) (w : ι) (again : Bool) : State ι :=
  match (s.req w).list.aBlockList.lookup (who w).sIP with
  | none => s.to w { s.req w with phase := if again then .done else .passed }
  | some t =>
      if t < s.clock then
        s.to w { s.req w with
          phase := .unblocking again
          list := { (s.req w).list with
            aBlockList := (s.req w).list.aBlockList.unset (who w).sIP } }
      else s.to w { s.req w with phase := if again then .done else .refused }

/-- A call of `isDenied`. -/
def State.isDenied (s : State ι) (w : ι) : State ι :=
  match (s.req w).phase with
  | .constructed => s.deny who w false
  | .refused => s.deny who w true
  | _ => s

/-- The password is right. -/
def State.succeed (s : State ι) (w : ι) : State ι :=
  if (s.req w).phase = .passed then s.to w { s.req w with phase := .done } else s

/-- `addLoginfailList`: the failures of the address are consumed by a block, or there is a new
one. -/
def State.addLoginfailList (s : State ι) (w : ι) : State ι :=
  if (s.req w).phase = .passed then
    if (s.req w).list.blocks c (who w).sIP (who w).sID s.clock then
      { s.to w { s.req w with phase := .blocking } with failures := others (who w).sIP s.failures }
    else
      { s.to w { s.req w with
          phase := .recording s.clock
          list := (s.req w).list.record (who w).sIP (who w).sID s.clock } with
        failures := s.failures ++ [(who w).failure s.clock] }
  else s

/-- The end of a block that is made now. -/
def State.denyTime (s : State ι) : ℤ := s.clock + 60 * c.iDenyTimeAfterMaxLogin

/-- `addBlockList`, up to the save. -/
def State.addBlockList (s : State ι) (w : ι) : State ι :=
  if (s.req w).phase = .blocking then
    { s.to w { s.req w with
        phase := .savingBlock (s.denyTime c)
        list := (s.req w).list.addBlockList c (who w).sIP s.clock } with
      blocks := s.blocks ++ [((who w).sIP, s.denyTime c)] }
  else s

/-- A request has saved its list of blocks and goes on. -/
def State.saveDeny (s : State ι) (w : ι) (p : Phase) (l : LoginBlackList) : State ι :=
  { s.to w { s.req w with phase := p, list := l, denySeen := s.denySaves + 1 } with
    stored := { s.stored with ipDenyList := (s.req w).list.saveBlockList }
    denySaves := s.denySaves + 1 }

/-- `saveBlockList`, from `isDenied` or from `addBlockList`; after the latter the failures of the
address are taken out of the lists. -/
def State.saveBlockList (s : State ι) (w : ι) : State ι :=
  match (s.req w).phase with
  | .unblocking again => s.saveDeny w (if again then .done else .passed) (s.req w).list
  | .savingBlock _ => s.saveDeny w .forgetting ((s.req w).list.forget (who w).sIP (who w).sID)
  | _ => s

/-- A request has saved its failures and ends. -/
def State.saveFail (s : State ι) (w : ι) : State ι :=
  { s.to w { s.req w with phase := .done, failSeen := s.failSaves + 1 } with
    stored := { s.stored with loginFailList := (s.req w).list.saveLoginfailList }
    failSaves := s.failSaves + 1 }

/-- `saveLoginfailList`. -/
def State.saveLoginfailList (s : State ι) (w : ι) : State ι :=
  match (s.req w).phase with
  | .forgetting | .recording _ => s.saveFail w
  | _ => s

/-- One step of one request, or the time goes on. -/
def State.step (s : State ι) : Event ι → State ι
  | .tick n => { s with clock := s.clock + n }
  | .loadDenyList w => s.loadDenyList w
  | .loadFailList w => s.loadFailList w
  | .isDenied w => s.isDenied who w
  | .succeed w => s.succeed w
  | .addLoginfailList w => s.addLoginfailList c who w
  | .addBlockList w => s.addBlockList c who w
  | .saveBlockList w => s.saveBlockList who w
  | .saveLoginfailList w => s.saveLoginfailList w

/-- The next step saves the list of blocks. -/
def Phase.SavesBlocks : Phase → Prop
  | .unblocking _ | .savingBlock _ => True
  | _ => False

/-- The next step saves the failures. -/
def Phase.SavesFailures : Phase → Prop
  | .forgetting | .recording _ => True
  | _ => False

instance : DecidablePred Phase.SavesBlocks := fun p => by
  unfold Phase.SavesBlocks
  split <;> infer_instance

instance : DecidablePred Phase.SavesFailures := fun p => by
  unfold Phase.SavesFailures
  split <;> infer_instance

/-- A list is saved only if no other request has saved it since this one read it, and the line of a
new failure or block is clean. -/
def Careful (s : State ι) : Event ι → Prop
  | .addLoginfailList w => (s.req w).phase = .passed →
      (s.req w).list.blocks c (who w).sIP (who w).sID s.clock = false →
        ((who w).failure s.clock).Clean
  | .addBlockList w => (s.req w).phase = .blocking → CleanBlock ((who w).sIP, s.denyTime c)
  | .saveBlockList w => (s.req w).phase.SavesBlocks → (s.req w).denySeen = s.denySaves
  | .saveLoginfailList w => (s.req w).phase.SavesFailures → (s.req w).failSeen = s.failSaves
  | _ => True

instance (s : State ι) (e : Event ι) : Decidable (Careful c who s e) := by
  unfold Careful
  split <;> infer_instance

/-- When no request is under way, the failures of the last five minutes and the blocks that have not
expired are on file. -/
def NothingForgotten (s : State ι) : Prop :=
  (∀ w, (s.req w).phase = .start ∨ (s.req w).phase = .done) →
    (∀ f ∈ s.failures, s.clock - 300 < f.time → f ∈ s.stored.failures) ∧
      ∀ e ∈ s.blocks, s.clock ≤ e.2 → s.stored.blockList.lookup e.1 = some e.2

/-! ## The invariant -/

/-- The same failures in the lists. -/
def SameFailures (l l' : LoginBlackList) : Prop :=
  l.aLoginfailListID = l'.aLoginfailListID ∧ l.aLoginfailListIP = l'.aLoginfailListIP

theorem SameFailures.record {l l' : LoginBlackList} (h : SameFailures l l') (ip id : Bytes)
    (t : ℤ) : SameFailures (l.record ip id t) (l'.record ip id t) := by
  rw [SameFailures, LoginBlackList.record, LoginBlackList.record, h.1, h.2]
  exact ⟨rfl, rfl⟩

theorem SameFailures.forget {l l' : LoginBlackList} (h : SameFailures l l') (ip id : Bytes) :
    SameFailures (l.forget ip id) (l'.forget ip id) := by
  rw [SameFailures, LoginBlackList.forget, LoginBlackList.forget, h.1, h.2]
  exact ⟨rfl, rfl⟩

/-- A save writes what the lists of failures say. -/
theorem SameFailures.savedFailures {l l' : LoginBlackList} (h : SameFailures l l') :
    l.savedFailures = l'.savedFailures := by
  unfold LoginBlackList.savedFailures LoginBlackList.savedEntry
  rw [h.1, h.2]

/-- What a request knows of the blocks `m` on file, while nobody else has saved them. -/
def Phase.BlocksFact (ip : Bytes) (clock : ℤ) (own m : Assoc Bytes ℤ) : Phase → Prop
  | .start | .forgetting | .recording _ | .done => True
  | .constructing | .constructed | .refused => own = m
  | .unblocking _ => own = m.unset ip ∧ ∃ t, m.lookup ip = some t ∧ t < clock
  | .passed | .blocking => own = m ∧ m.lookup ip = none
  | .savingBlock t => own = m.put ip t ∧ m.lookup ip = none

/-- What a request knows of the failures on file, while nobody else has saved them.  From a block
on, the failures of the address that have come since are still to be saved. -/
def Phase.FailuresFact (u : Client) (pending : Prop) (own l : LoginBlackList) : Phase → Prop
  | .start | .constructing | .done => True
  | .constructed | .refused | .unblocking _ | .passed => SameFailures own l
  | .blocking | .savingBlock _ => SameFailures own l ∧ pending
  | .forgetting => SameFailures own (l.forget u.sIP u.sID) ∧ pending
  | .recording t => SameFailures own (l.record u.sIP u.sID t)

/-- What a request is about to save is clean. -/
def Phase.Sound (u : Client) (clock : ℤ) : Phase → Prop
  | .savingBlock t => CleanBlock (u.sIP, t)
  | .recording t => t ≤ clock ∧ (u.failure t).Clean
  | _ => True

variable (s : State ι)

/-- A request is about to save this failure. -/
def PendingFailure (f : Failure) : Prop :=
  ∃ w, (s.req w).phase = .recording f.time ∧ (who w).failure f.time = f

/-- A request is about to save this block. -/
def PendingBlock (e : Bytes × ℤ) : Prop :=
  ∃ w, (s.req w).phase = .savingBlock e.2 ∧ (who w).sIP = e.1

/-- The failures of an address that are not to be forgotten are all still to be saved. -/
def OnlyPending (ip : Bytes) : Prop := ∀ f ∈ s.failures, f.ip = ip → PendingFailure who s f

/-- What holds in every state of a careful run. -/
structure Inv : Prop where
  clean : s.stored.Clean
  seen : ∀ w, (s.req w).denySeen ≤ s.denySaves ∧ (s.req w).failSeen ≤ s.failSaves
  sound : ∀ w, (s.req w).phase.Sound (who w) s.clock
  blocksFact : ∀ w, (s.req w).denySeen = s.denySaves →
    (s.req w).phase.BlocksFact (who w).sIP s.clock (s.req w).list.aBlockList s.stored.blockList
  failuresFact : ∀ w, (s.req w).failSeen = s.failSaves →
    (s.req w).phase.FailuresFact (who w) (OnlyPending who s (who w).sIP) (s.req w).list
      (load s.stored)
  failures : ∀ f ∈ s.failures, s.clock - 300 < f.time →
    f ∈ s.stored.failures ∨ PendingFailure who s f
  blocks : ∀ e ∈ s.blocks, s.clock ≤ e.2 →
    s.stored.blockList.lookup e.1 = some e.2 ∨ PendingBlock who s e

variable {who s}

theorem Phase.FailuresFact.mono {u : Client} {pending pending' : Prop} {own l : LoginBlackList}
    (h : pending → pending') {p : Phase} (hp : p.FailuresFact u pending own l) :
    p.FailuresFact u pending' own l := by
  cases p <;> first | exact hp | exact hp.imp_right h

theorem Phase.BlocksFact.mono {ip : Bytes} {clock clock' : ℤ} {own m : Assoc Bytes ℤ}
    (h : clock ≤ clock') {p : Phase} (hp : p.BlocksFact ip clock own m) :
    p.BlocksFact ip clock' own m := by
  cases p with
  | unblocking again =>
    obtain ⟨hown, t, ht, hlt⟩ := hp
    exact ⟨hown, t, ht, hlt.trans_le h⟩
  | _ => exact hp

theorem Phase.Sound.mono {u : Client} {clock clock' : ℤ} (h : clock ≤ clock') {p : Phase}
    (hp : p.Sound u clock) : p.Sound u clock' := by
  cases p with
  | recording t => exact ⟨hp.1.trans h, hp.2⟩
  | _ => exact hp

omit [DecidableEq ι] in
theorem Inv.tick (h : Inv who s) (n : ℕ) : Inv who { s with clock := s.clock + n } := by
  have hle : s.clock ≤ s.clock + n := by omega
  refine ⟨h.clean, h.seen, fun w => (h.sound w).mono hle, fun w hw => (h.blocksFact w hw).mono hle,
    h.failuresFact, fun f hf hlive => h.failures f hf ?_, fun e he hlive => h.blocks e he ?_⟩
  · have hlive' : s.clock + n - 300 < f.time := hlive
    omega
  · exact hle.trans hlive

omit [DecidableEq ι] in
theorem saves_nothing_of_phase {w : ι} {p : Phase} (hw : (s.req w).phase = p)
    (hp : ¬ p.SavesFailures ∧ ∀ t, p ≠ .savingBlock t) :
    ¬ (s.req w).phase.SavesFailures ∧ ∀ t, (s.req w).phase ≠ .savingBlock t := by
  rw [hw]
  exact hp

/-- One request goes on without a save.  It keeps what it is about to save, and what is new among
the failures and blocks it is about to save. -/
theorem Inv.move (h : Inv who s) {w : ι} {l : Local} {fs : List Failure}
    {bs : List (Bytes × ℤ)} {s' : State ι}
    (hs' : s' = { s.to w l with failures := fs, blocks := bs })
    (hold : ¬ (s.req w).phase.SavesFailures ∧ ∀ t, (s.req w).phase ≠ .savingBlock t)
    (hseen : l.denySeen ≤ s.denySaves ∧ l.failSeen ≤ s.failSaves)
    (hsound : l.phase.Sound (who w) s.clock)
    (hblocks : l.denySeen = s.denySaves →
      l.phase.BlocksFact (who w).sIP s.clock l.list.aBlockList s.stored.blockList)
    (hfailures : l.failSeen = s.failSaves →
      l.phase.FailuresFact (who w) (OnlyPending who s' (who w).sIP) l.list (load s.stored))
    (hfs : ∀ f ∈ fs, f ∈ s.failures ∨ PendingFailure who s' f)
    (hbs : ∀ e ∈ bs, e ∈ s.blocks ∨ PendingBlock who s' e) : Inv who s' := by
  have hself : s'.req w = l := by rw [hs']; exact Function.update_self ..
  have hother : ∀ w', w' ≠ w → s'.req w' = s.req w' := by
    intro w' hw'
    rw [hs']
    exact Function.update_of_ne hw' ..
  have hpending : ∀ f, PendingFailure who s f → PendingFailure who s' f := by
    rintro f ⟨w', hw', hf⟩
    refine ⟨w', ?_, hf⟩
    rw [hother w', hw']
    rintro rfl
    exact hold.1 (by rw [hw']; trivial)
  have hpendingBlock : ∀ e, PendingBlock who s e → PendingBlock who s' e := by
    rintro e ⟨w', hw', he⟩
    refine ⟨w', ?_, he⟩
    rw [hother w', hw']
    rintro rfl
    exact hold.2 _ hw'
  have honly : ∀ ip, OnlyPending who s ip → OnlyPending who s' ip := by
    intro ip hip f hf hfip
    have hmem : f ∈ fs := by rwa [hs'] at hf
    exact (hfs f hmem).elim (fun hf => hpending f (hip f hf hfip)) id
  have hfields : s'.stored = s.stored ∧ s'.clock = s.clock ∧ s'.denySaves = s.denySaves ∧
      s'.failSaves = s.failSaves := by
    rw [hs']
    exact ⟨rfl, rfl, rfl, rfl⟩
  obtain ⟨hstored, hclock, hdeny, hfail⟩ := hfields
  refine ⟨hstored ▸ h.clean, ?_, ?_, ?_, ?_, fun f hf hlive => ?_, fun e he hlive => ?_⟩
  · rw [hdeny, hfail]
    exact forall_of_frame (P := fun _ l => l.denySeen ≤ s.denySaves ∧ l.failSeen ≤ s.failSaves)
      hself hother hseen fun w' _ => h.seen w'
  · rw [hclock]
    exact forall_of_frame (P := fun w' l => l.phase.Sound (who w') s.clock) hself hother hsound
      fun w' _ => h.sound w'
  · rw [hclock, hdeny, hstored]
    exact forall_of_frame (P := fun w' l => l.denySeen = s.denySaves →
      l.phase.BlocksFact (who w').sIP s.clock l.list.aBlockList s.stored.blockList) hself hother
      hblocks fun w' _ => h.blocksFact w'
  · rw [hfail, hstored]
    exact forall_of_frame (P := fun w' l => l.failSeen = s.failSaves →
      l.phase.FailuresFact (who w') (OnlyPending who s' (who w').sIP) l.list (load s.stored)) hself
      hother hfailures fun w' _ hfresh => (h.failuresFact w' hfresh).mono (honly _)
  · rw [hstored]
    rw [hclock] at hlive
    have hmem : f ∈ fs := by rwa [hs'] at hf
    exact (hfs f hmem).elim (fun hf => (h.failures f hf hlive).imp_right (hpending f)) Or.inr
  · rw [hstored]
    rw [hclock] at hlive
    have hmem : e ∈ bs := by rwa [hs'] at he
    exact (hbs e hmem).elim (fun he => (h.blocks e he hlive).imp_right (hpendingBlock e)) Or.inr

theorem Inv.loadDenyList (h : Inv who s) (w : ι) : Inv who (s.loadDenyList w) := by
  unfold State.loadDenyList
  split_ifs with hw
  · refine h.move rfl ?_ ⟨Nat.le_refl _, (h.seen w).2⟩ trivial (fun _ => rfl) (fun _ => trivial)
      (fun f hf => Or.inl hf) (fun e he => Or.inl he)
    rw [hw]
    exact ⟨fun h => h, by simp⟩
  · exact h

theorem Inv.loadFailList (h : Inv who s) (w : ι) : Inv who (s.loadFailList w) := by
  unfold State.loadFailList
  split_ifs with hw
  · have hblocks := h.blocksFact w
    rw [hw] at hblocks
    refine h.move rfl ?_ ⟨(h.seen w).1, Nat.le_refl _⟩ trivial hblocks (fun _ => ⟨rfl, rfl⟩)
      (fun f hf => Or.inl hf) (fun e he => Or.inl he)
    rw [hw]
    exact ⟨fun h => h, by simp⟩
  · exact h

/-- `isDenied` of a request that knows the lists on file. -/
theorem Inv.deny (h : Inv who s) {w : ι} {again : Bool}
    (hw : (s.req w).phase = .constructed ∨ (s.req w).phase = .refused) :
    Inv who (s.deny who w again) := by
  have hold : ¬ (s.req w).phase.SavesFailures ∧ ∀ t, (s.req w).phase ≠ .savingBlock t := by
    rcases hw with hw | hw <;> rw [hw] <;> exact ⟨fun h => h, by simp⟩
  have hblocks : (s.req w).denySeen = s.denySaves →
      (s.req w).list.aBlockList = s.stored.blockList := by
    have hfact := h.blocksFact w
    rcases hw with hw | hw <;> rw [hw] at hfact <;> exact hfact
  have hfailures : (s.req w).failSeen = s.failSaves →
      SameFailures (s.req w).list (load s.stored) := by
    have hfact := h.failuresFact w
    rcases hw with hw | hw <;> rw [hw] at hfact <;> exact hfact
  unfold State.deny
  cases hlookup : (s.req w).list.aBlockList.lookup (who w).sIP with
  | none =>
    refine h.move rfl hold (h.seen w) ?_ ?_ ?_ (fun f hf => Or.inl hf) (fun e he => Or.inl he)
    · cases again <;> trivial
    · cases again with
      | true => exact fun _ => trivial
      | false => exact fun hfresh => ⟨hblocks hfresh, hblocks hfresh ▸ hlookup⟩
    · cases again with
      | true => exact fun _ => trivial
      | false => exact hfailures
  | some t =>
    dsimp only
    split_ifs with ht
    · refine h.move rfl hold (h.seen w) trivial (fun hfresh => ⟨?_, t, ?_, ht⟩) hfailures
        (fun f hf => Or.inl hf) (fun e he => Or.inl he)
      · exact congrArg (Assoc.unset · (who w).sIP) (hblocks hfresh)
      · rw [← hblocks hfresh, hlookup]
    · exact h.move rfl hold (h.seen w) trivial (fun _ => trivial) (fun _ => trivial)
        (fun f hf => Or.inl hf) (fun e he => Or.inl he)
    · exact h.move rfl hold (h.seen w) trivial hblocks hfailures
        (fun f hf => Or.inl hf) (fun e he => Or.inl he)

theorem Inv.isDenied (h : Inv who s) (w : ι) : Inv who (s.isDenied who w) := by
  unfold State.isDenied
  cases hw : (s.req w).phase with
  | constructed => exact h.deny (Or.inl hw)
  | refused => exact h.deny (Or.inr hw)
  | _ => exact h

theorem Inv.succeed (h : Inv who s) (w : ι) : Inv who (s.succeed w) := by
  unfold State.succeed
  split_ifs with hw
  · refine h.move rfl ?_ (h.seen w) trivial (fun _ => trivial) (fun _ => trivial)
      (fun f hf => Or.inl hf) (fun e he => Or.inl he)
    rw [hw]
    exact ⟨fun h => h, by simp⟩
  · exact h

variable {c}

theorem Inv.addLoginfailList (h : Inv who s) {w : ι}
    (hok : Careful c who s (.addLoginfailList w)) : Inv who (s.addLoginfailList c who w) := by
  unfold State.addLoginfailList
  split_ifs with hw hblocks
  · have hold := saves_nothing_of_phase hw ⟨fun h => h, by simp⟩
    have hfact := h.blocksFact w
    have hfailures := h.failuresFact w
    rw [hw] at hfact hfailures
    refine h.move rfl hold (h.seen w) trivial hfact
      (fun hfresh => ⟨hfailures hfresh, fun f hf hip => ?_⟩)
      (fun f hf => Or.inl (List.mem_filter.1 hf).1) (fun e he => Or.inl he)
    have hne := (List.mem_filter.1 hf).2
    rw [decide_eq_true_eq] at hne
    exact absurd hip hne
  · have hold := saves_nothing_of_phase hw ⟨fun h => h, by simp⟩
    have hfailures := h.failuresFact w
    rw [hw] at hfailures
    have hclean := hok hw (by simpa using hblocks)
    refine h.move rfl hold (h.seen w) ⟨le_refl _, hclean⟩ (fun _ => trivial) (fun hfresh => ?_)
      (fun f hf => ?_) (fun e he => Or.inl he)
    · exact (hfailures hfresh).record (who w).sIP (who w).sID s.clock
    · refine (List.mem_append.1 hf).imp_right fun hf => ?_
      rw [List.mem_singleton.1 hf]
      exact ⟨w, by simp [State.to, Client.failure], rfl⟩
  · exact h

theorem Inv.addBlockList (h : Inv who s) {w : ι} (hok : Careful c who s (.addBlockList w)) :
    Inv who (s.addBlockList c who w) := by
  unfold State.addBlockList
  split_ifs with hw
  · have hold := saves_nothing_of_phase hw ⟨fun h => h, by simp⟩
    have hfact := h.blocksFact w
    have hfailures := h.failuresFact w
    rw [hw] at hfact hfailures
    refine h.move rfl hold (h.seen w) (hok hw) (fun hfresh => ⟨?_, (hfact hfresh).2⟩)
      (fun hfresh => ⟨(hfailures hfresh).1, ?_⟩) (fun f hf => Or.inl hf) (fun e he => ?_)
    · exact congrArg (Assoc.put · (who w).sIP _) (hfact hfresh).1
    · intro f hf hip
      obtain ⟨w', hw', hf'⟩ := (hfailures hfresh).2 f hf hip
      refine ⟨w', ?_, hf'⟩
      have hne : w' ≠ w := by
        rintro rfl
        rw [hw] at hw'
        cases hw'
      rw [← hw']
      exact congrArg Local.phase (Function.update_of_ne hne ..)
    · refine (List.mem_append.1 he).imp_right fun he => ?_
      rw [List.mem_singleton.1 he]
      exact ⟨w, by simp [State.to], rfl⟩
  · exact h

theorem Stored.blockList_of_clean {st : Stored} {m : Assoc Bytes ℤ}
    (hclean : ∀ e ∈ m.entries, CleanBlock e) (htext : st.ipDenyList = blockText m.entries) :
    st.blockList = m := by
  rw [Stored.blockList, Stored.blocks, htext, readBlock_blockText hclean, Assoc.ofList_entries]

theorem clean_blockList {st : Stored} (h : st.Clean) {e : Bytes × ℤ}
    (he : e ∈ st.blockList.entries) : CleanBlock e := by
  rw [Stored.blockList, Assoc.entries_ofList h.nodup_blocks] at he
  exact h.block_clean e he

/-- A save of the blocks by a request that knows them.  The others have to read them again. -/
theorem Inv.saveDeny (h : Inv who s) {w : ι} {p : Phase} {l : LoginBlackList}
    (hold : ¬ (s.req w).phase.SavesFailures)
    (hclean : ∀ e ∈ (s.req w).list.aBlockList.entries, CleanBlock e)
    (hnew : ∀ t, p ≠ .savingBlock t ∧ p ≠ .recording t)
    (hblocks : p.BlocksFact (who w).sIP s.clock l.aBlockList (s.req w).list.aBlockList)
    (hfailures : (s.req w).failSeen = s.failSaves →
      p.FailuresFact (who w) (OnlyPending who s (who w).sIP) l (load s.stored))
    (hkept : ∀ e : Bytes × ℤ, s.clock ≤ e.2 → s.stored.blockList.lookup e.1 = some e.2 →
      (s.req w).list.aBlockList.lookup e.1 = some e.2)
    (hsaved : ∀ t, (s.req w).phase = .savingBlock t →
      (s.req w).list.aBlockList.lookup (who w).sIP = some t) :
    Inv who (s.saveDeny w p l) := by
  have hself : (s.saveDeny w p l).req w =
      { s.req w with phase := p, list := l, denySeen := s.denySaves + 1 } :=
    Function.update_self ..
  have hother : ∀ w', w' ≠ w → (s.saveDeny w p l).req w' = s.req w' := fun w' hw' =>
    Function.update_of_ne hw' ..
  have hlist : (s.saveDeny w p l).stored.blockList = (s.req w).list.aBlockList :=
    Stored.blockList_of_clean hclean rfl
  have hpending : ∀ f, PendingFailure who s f → PendingFailure who (s.saveDeny w p l) f := by
    rintro f ⟨w', hw', hf⟩
    refine ⟨w', ?_, hf⟩
    rw [hother w', hw']
    rintro rfl
    exact hold (by rw [hw']; trivial)
  have honly : ∀ ip, OnlyPending who s ip → OnlyPending who (s.saveDeny w p l) ip :=
    fun ip hip f hf hfip => hpending f (hip f hf hfip)
  refine ⟨⟨⟨_, hclean, Assoc.nodup _, rfl⟩, h.clean.failList⟩, ?_, ?_, ?_, ?_,
    fun f hf hlive => ?_, fun e he hlive => ?_⟩
  · exact forall_of_frame (P := fun _ l => l.denySeen ≤ s.denySaves + 1 ∧ l.failSeen ≤ s.failSaves)
      hself hother ⟨Nat.le_refl _, (h.seen w).2⟩ fun w' _ =>
        ⟨(h.seen w').1.trans (Nat.le_succ _), (h.seen w').2⟩
  · have hsound : p.Sound (who w) s.clock := by
      cases p with
      | savingBlock t => exact absurd rfl (hnew t).1
      | recording t => exact absurd rfl (hnew t).2
      | _ => trivial
    exact forall_of_frame (P := fun w' l => l.phase.Sound (who w') s.clock) hself hother hsound
      fun w' _ => h.sound w'
  · rw [hlist]
    refine forall_of_frame (P := fun w' l => l.denySeen = s.denySaves + 1 →
      l.phase.BlocksFact (who w').sIP s.clock l.list.aBlockList (s.req w).list.aBlockList) hself
      hother (fun _ => hblocks) fun w' _ hfresh => ?_
    -- the others have not read the list that has just been saved
    have hseen := (h.seen w').1
    omega
  · exact forall_of_frame (P := fun w' r => r.failSeen = s.failSaves →
      r.phase.FailuresFact (who w') (OnlyPending who (s.saveDeny w p l) (who w').sIP) r.list
        (load s.stored)) hself hother (fun hfresh => (hfailures hfresh).mono (honly _))
      fun w' _ hfresh => (h.failuresFact w' hfresh).mono (honly _)
  · exact (h.failures f hf hlive).imp_right (hpending f)
  · rw [hlist]
    rcases h.blocks e he hlive with hfile | ⟨w', hw', hip⟩
    · exact Or.inl (hkept e hlive hfile)
    · by_cases hw : w' = w
      · subst hw
        exact Or.inl (hip ▸ hsaved e.2 hw')
      · exact Or.inr ⟨w', by rw [hother w' hw, hw'], hip⟩

theorem Inv.saveBlockList (h : Inv who s) {w : ι} (hok : Careful c who s (.saveBlockList w)) :
    Inv who (s.saveBlockList who w) := by
  have hblocks := h.blocksFact w
  have hfailures := h.failuresFact w
  have hsound := h.sound w
  unfold State.saveBlockList
  cases hw : (s.req w).phase with
  | unblocking again =>
    rw [hw] at hblocks hfailures
    have hfresh : (s.req w).denySeen = s.denySaves := hok (by rw [hw]; trivial)
    obtain ⟨hown, t, ht, hlt⟩ := hblocks hfresh
    refine h.saveDeny (by rw [hw]; exact id) (fun e he => ?_) ?_ ?_ ?_ (fun e hlive he => ?_)
      (fun t' ht' => ?_)
    · rw [hown] at he
      exact clean_blockList h.clean (List.mem_filter.1 he).1
    · cases again <;> simp
    · cases again with
      | true => trivial
      | false => exact ⟨rfl, by rw [hown, Assoc.lookup_unset, if_pos rfl]⟩
    · cases again with
      | true => exact fun _ => trivial
      | false => exact hfailures
    · rw [hown, Assoc.lookup_unset, if_neg, he]
      intro hip
      rw [hip, ht] at he
      have heq := Option.some.inj he
      omega
    · rw [hw] at ht'
      cases ht'
  | savingBlock t =>
    rw [hw] at hblocks hfailures hsound
    have hfresh : (s.req w).denySeen = s.denySaves := hok (by rw [hw]; trivial)
    obtain ⟨hown, hnone⟩ := hblocks hfresh
    refine h.saveDeny (by rw [hw]; exact id) (fun e he => ?_) (by simp) trivial
      (fun hfresh => ⟨(hfailures hfresh).1.forget _ _, (hfailures hfresh).2⟩)
      (fun e _ he => ?_) (fun t' ht' => ?_)
    · have hlookup := Assoc.mem_entries_iff.1 (show (e.1, e.2) ∈ _ from he)
      rw [hown, Assoc.lookup_put] at hlookup
      split_ifs at hlookup with hkey
      · rwa [show e = ((who w).sIP, t) from Prod.ext hkey (Option.some.inj hlookup).symm]
      · exact clean_blockList h.clean (Assoc.mem_entries_iff.2 hlookup)
    · rw [hown, Assoc.lookup_put, if_neg, he]
      intro hip
      rw [hip, hnone] at he
      cases he
    · rw [hw] at ht'
      cases ht'
      rw [hown, Assoc.lookup_put, if_pos rfl]
  | _ => exact h

/-- A save of the failures by a request.  The others have to read them again. -/
theorem Inv.saveFail (h : Inv who s) {w : ι} (hold : (s.req w).phase.SavesFailures)
    (hclean : ∀ f ∈ (s.req w).list.savedFailures, f.Clean)
    (hkept : ∀ f ∈ s.failures, s.clock - 300 < f.time → f ∈ s.stored.failures →
      f ∈ (s.req w).list.savedFailures ∨ PendingFailure who s f)
    (hsaved : ∀ t, (s.req w).phase = .recording t →
      (who w).failure t ∈ (s.req w).list.savedFailures) :
    Inv who (s.saveFail w) := by
  have hself : (s.saveFail w).req w =
      { s.req w with phase := .done, failSeen := s.failSaves + 1 } :=
    Function.update_self ..
  have hother : ∀ w', w' ≠ w → (s.saveFail w).req w' = s.req w' := fun w' hw' =>
    Function.update_of_ne hw' ..
  have hfile : (s.saveFail w).stored.failures = (s.req w).list.savedFailures :=
    readFailures_failureText hclean
  have hpending : ∀ f, PendingFailure who s f →
      f ∈ (s.req w).list.savedFailures ∨ PendingFailure who (s.saveFail w) f := by
    rintro f ⟨w', hw', hf⟩
    by_cases hw : w' = w
    · subst hw
      exact Or.inl (hf ▸ hsaved f.time hw')
    · exact Or.inr ⟨w', by rw [hother w' hw, hw'], hf⟩
  refine ⟨⟨h.clean.denyList, ⟨_, hclean, rfl⟩⟩, ?_, ?_, ?_, ?_, fun f hf hlive => ?_,
    fun e he hlive => ?_⟩
  · exact forall_of_frame (P := fun _ l => l.denySeen ≤ s.denySaves ∧ l.failSeen ≤ s.failSaves + 1)
      hself hother ⟨(h.seen w).1, Nat.le_refl _⟩ fun w' _ =>
        ⟨(h.seen w').1, (h.seen w').2.trans (Nat.le_succ _)⟩
  · exact forall_of_frame (P := fun w' l => l.phase.Sound (who w') s.clock) hself hother trivial
      fun w' _ => h.sound w'
  · exact forall_of_frame (P := fun w' l => l.denySeen = s.denySaves →
      l.phase.BlocksFact (who w').sIP s.clock l.list.aBlockList s.stored.blockList) hself hother
      (fun _ => trivial) fun w' _ => h.blocksFact w'
  · refine forall_of_frame (P := fun w' l => l.failSeen = s.failSaves + 1 →
      l.phase.FailuresFact (who w') (OnlyPending who (s.saveFail w) (who w').sIP) l.list
        (load (s.saveFail w).stored)) hself hother (fun _ => trivial) fun w' _ hfresh => ?_
    -- the others have not read the list that has just been saved
    have hseen := (h.seen w').2
    omega
  · rw [hfile]
    rcases h.failures f hf hlive with hmem | hmem
    · exact (hkept f hf hlive hmem).elim Or.inl (hpending f)
    · exact hpending f hmem
  · refine (h.blocks e he hlive).imp_right ?_
    rintro ⟨w', hw', hip⟩
    refine ⟨w', ?_, hip⟩
    rw [hother w', hw']
    rintro rfl
    rw [hw'] at hold
    exact hold

theorem Inv.saveLoginfailList (h : Inv who s) {w : ι}
    (hok : Careful c who s (.saveLoginfailList w)) : Inv who (s.saveLoginfailList w) := by
  have hfailures := h.failuresFact w
  have hsound := h.sound w
  have hplain := h.clean.failure_plain
  unfold State.saveLoginfailList
  cases hw : (s.req w).phase with
  | forgetting =>
    have hold : (s.req w).phase.SavesFailures := by rw [hw]; trivial
    rw [hw] at hfailures
    obtain ⟨hsame, honly⟩ := hfailures (hok hold)
    have hsaved : (s.req w).list.savedFailures.Perm (others (who w).sIP s.stored.failures) :=
      hsame.savedFailures ▸ savedFailures_forget hplain (who w).genuine s.stored.blocks
        ⟨0, 0, 0⟩ 0 (who w).sID
    refine h.saveFail hold (fun f hf => ?_) (fun f hf _ hmem => ?_) (fun t ht => ?_)
    · exact clean_others h.clean _ f (hsaved.mem_iff.1 hf)
    · by_cases hip : f.ip = (who w).sIP
      · exact Or.inr (honly f hf hip)
      · exact Or.inl (hsaved.mem_iff.2 (List.mem_filter.2 ⟨hmem, decide_eq_true hip⟩))
    · rw [hw] at ht
      cases ht
  | recording t =>
    have hold : (s.req w).phase.SavesFailures := by rw [hw]; trivial
    rw [hw] at hfailures hsound
    have hsame : SameFailures _ ((load s.stored).record _ _ _) := hfailures (hok hold)
    have hsaved : (s.req w).list.savedFailures.Perm
        (kept (who w).sIP t s.stored.failures ++ [(who w).failure t]) :=
      hsame.savedFailures ▸ savedFailures_record hplain s.stored.blocks hsound.2.toPlain
    refine h.saveFail hold (fun f hf => ?_) (fun f _ hlive hmem => Or.inl ?_) (fun t' ht' => ?_)
    · rcases List.mem_append.1 (hsaved.mem_iff.1 hf) with hf | hf
      · exact h.clean.failure_clean f (List.mem_filter.1 hf).1
      · rw [List.mem_singleton.1 hf]
        exact hsound.2
    · refine hsaved.mem_iff.2 (List.mem_append_left _ (List.mem_filter.2 ⟨hmem, ?_⟩))
      have hle := hsound.1
      exact decide_eq_true (Or.inr (by omega))
    · rw [hw] at ht'
      cases ht'
      exact hsaved.mem_iff.2 (List.mem_append_right _ (List.mem_singleton_self _))
  | _ => exact h

/-- A careful step keeps the invariant. -/
theorem inv_step (h : Inv who s) {e : Event ι} (hok : Careful c who s e) :
    Inv who (s.step c who e) := by
  cases e with
  | tick n => exact h.tick n
  | loadDenyList w => exact h.loadDenyList w
  | loadFailList w => exact h.loadFailList w
  | isDenied w => exact h.isDenied w
  | succeed w => exact h.succeed w
  | addLoginfailList w => exact h.addLoginfailList hok
  | addBlockList w => exact h.addBlockList hok
  | saveBlockList w => exact h.saveBlockList hok
  | saveLoginfailList w => exact h.saveLoginfailList hok

omit [DecidableEq ι] in
theorem inv_init {st : Stored} (hst : st.Clean) (clock : ℤ) : Inv who (State.init st clock) := by
  refine ⟨hst, fun _ => ⟨Nat.le_refl _, Nat.le_refl _⟩, fun _ => trivial, fun _ _ => trivial,
    fun _ _ => trivial, fun f hf _ => Or.inl hf, fun e he _ => Or.inl ?_⟩
  rw [← Assoc.mem_entries_iff, Stored.blockList]
  exact (Assoc.entries_ofList hst.nodup_blocks).symm ▸ he

omit [DecidableEq ι] in
theorem Inv.nothingForgotten (h : Inv who s) : NothingForgotten s := by
  intro hidle
  refine ⟨fun f hf hlive => (h.failures f hf hlive).resolve_right ?_,
    fun e he hlive => (h.blocks e he hlive).resolve_right ?_⟩
  · rintro ⟨w, hw, -⟩
    rcases hidle w with h' | h' <;> rw [h'] at hw <;> cases hw
  · rintro ⟨w, hw, -⟩
    rcases hidle w with h' | h' <;> rw [h'] at hw <;> cases hw

/-- **No failed login is forgotten** in a run whose steps are all careful: whenever no request is
under way, the failures of the last five minutes that no block has consumed, and the blocks that
have not expired, are on file. -/
theorem nothing_forgotten_of_meets (c : Limits) (who : ι → Client) {st : Stored} (hst : st.Clean)
    (clock : ℤ) {es : List (Event ι)}
    (h : Meets (State.step c who) (Careful c who) (State.init st clock) es) :
    NothingForgotten (run (State.step c who) (State.init st clock) es) := by
  have hinv : Inv who (run (State.step c who) (State.init st clock) es) :=
    run_invariant (I := Inv who) (fun _ _ hinv hok => inv_step hinv hok) (inv_init hst clock) h
  exact hinv.nothingForgotten

/-- Two clients. -/
def twoClients : Bool → Client
  | false => ⟨bytes "10.0.0.1", bytes "admin", by decide⟩
  | true => ⟨bytes "10.0.0.2", bytes "admin", by decide⟩

/-- The steps of a request whose login fails, after the lists are read. -/
def failedLogin (w : Bool) : List (Event Bool) :=
  [.isDenied w, .addLoginfailList w, .saveLoginfailList w]

/-- The steps of a constructor. -/
def construct (w : Bool) : List (Event Bool) := [.loadDenyList w, .loadFailList w]

/-- One request after the other. -/
theorem nothing_forgotten_one_by_one :
    NothingForgotten (run (State.step ⟨15, 5, 15⟩ twoClients) (State.init ⟨[], []⟩ 1000)
      (construct false ++ failedLogin false ++ construct true ++ failedLogin true)) :=
  nothing_forgotten_of_meets ⟨15, 5, 15⟩ twoClients Stored.clean_empty 1000 (by decide +kernel)

/-- The second request reads the lists before the first has saved them. -/
theorem failure_forgotten :
    ¬ NothingForgotten (run (State.step ⟨15, 5, 15⟩ twoClients) (State.init ⟨[], []⟩ 1000)
      (construct false ++ construct true ++ failedLogin false ++ failedLogin true)) := by
  intro h
  have hidle := h (by decide +kernel)
  have hkept := hidle.1 ⟨bytes "admin", bytes "10.0.0.1", 1000⟩ (by decide +kernel)
    (by decide +kernel)
  revert hkept
  decide +kernel

end Steps

end NoSpam.Login
