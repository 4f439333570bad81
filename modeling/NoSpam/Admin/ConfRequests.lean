import Mathlib.Logic.Function.Basic
import NoSpam.Admin.ConfFile
import NoSpam.Base.Run

/-!
# Requests that change the configuration at the same time

Any number of requests, each with an object of the class `ConfFile`, a step each at a time: the
constructor loads the whole file, `setParam` and `delParam` change the array of the object, and
`save` writes the whole array back.  `savetofile` holds its lock while it writes and no longer, so a
request can write back a file that another has saved after this one has loaded it, and what the
other has set is gone.  As long as no request does that, and what is saved fits on its lines,
every parameter has the value that a request has set or the one it had at first
(`nothing_lost_of_meets`).
-/

namespace NoSpam.Admin.ConfRequests

open Text Machine ConfFile

/-- A call of `setParam` or, without a value, of `delParam`. -/
structure Change where
  sec : Bytes
  key : Bytes
  value : Option Bytes

/-- The array after the call. -/
def Change.apply (c : Change) (params : Params) : Params :=
  match c.value with
  | some value => setParam params c.key value c.sec
  | none => delParam params c.key c.sec

/-- What the first call of a list has made of a parameter, if one has changed it. -/
def lastChange (cs : List Change) (sec key : Bytes) : Option (Option Bytes) :=
  (cs.find? fun c => sec = c.sec ∧ key = c.key).map Change.value

/-- A request: its object, the calls that it has made (the last one first), whether some of them
have not been saved, whether it has shown an error message, and how often the file had been saved
when the request loaded it or saved it itself. -/
structure Local where
  params : Option Params := none
  changes : List Change := []
  unsaved : Bool := false
  message : Bool := false
  seen : ℕ := 0

/-- The file, if there is one, and the requests. -/
structure State (ι : Type) where
  file : Option Bytes
  saves : ℕ := 0
  req : ι → Local := fun _ => {}

/-- The ways `savetofile` ends. -/
inductive Outcome
  | written
  | diskFull
  | notLocked

/-- The steps. -/
inductive Event (ι : Type)
  | load (w : ι)
  | change (w : ι) (c : Change)
  | save (w : ι) (o : Outcome)

/-- What the constructor loads now. -/
def State.params {ι : Type} (s : State ι) : Params := parseIni (s.file.getD [])

section Steps

variable {ι : Type} [DecidableEq ι] (Privilege : ι → Option Bytes)

/-- One request goes on. -/
def State.to (s : State ι) (w : ι) (l : Local) : State ι :=
  { s with req := Function.update s.req w l }

/-- The constructor; a file that does not exist is created. -/
def State.load (s : State ι) (w : ι) : State ι :=
  match (s.req w).params with
  | some _ => s
  | none =>
      { s.to w { s.req w with params := some s.params, seen := s.saves } with
        file := some (s.file.getD []) }

/-- `setParam` or `delParam`. -/
def State.change (s : State ι) (w : ι) (c : Change) : State ι :=
  match (s.req w).params with
  | none => s
  | some params =>
      s.to w { s.req w with
        params := some (c.apply params)
        changes := c :: (s.req w).changes
        unsaved := true }

/-- `save`: a request without the permission, and one whose file is not written, shows a message. -/
def State.save (s : State ι) (w : ι) (o : Outcome) : State ι :=
  match (s.req w).params with
  | none => s
  | some params =>
      if adminPerm (Privilege w) PERM_ADMIN_WRITE then
        match o with
        | .written =>
            { s.to w { s.req w with unsaved := false, seen := s.saves + 1 } with
              file := some (ConfFile.save (Privilege w) params (s.file.getD []))
              saves := s.saves + 1 }
        | .diskFull | .notLocked => s.to w { s.req w with message := true }
      else s.to w { s.req w with message := true }

/-- One step of one request. -/
def State.step (s : State ι) : Event ι → State ι
  | .load w => s.load w
  | .change w c => s.change w c
  | .save w o => s.save Privilege w o

/-- No request is under way with a change, and none has shown an error message. -/
def Finished (s : State ι) : Prop :=
  ∀ w, (s.req w).unsaved = false ∧ (s.req w).message = false

/-- When all requests have finished without a message, the parameters that they have changed are as
they have left them, and the others are as they were in the file at first. -/
def NothingLost (file : Option Bytes) (s : State ι) : Prop :=
  Finished s →
    (∀ w sec key v, lastChange (s.req w).changes sec key = some v → param s.params sec key = v) ∧
      ∀ sec key, (∀ w, lastChange (s.req w).changes sec key = none) →
        param s.params sec key = param (parseIni (file.getD [])) sec key

/-- The requests change pairwise different parameters. -/
def Different (es : List (Event ι)) : Prop :=
  ∀ w w' c c', .change w c ∈ es → .change w' c' ∈ es → c.sec = c'.sec → c.key = c'.key → w = w'

/-- A request that saves has loaded the file after the last save, or has made that save itself, and
what it writes fits on its lines. -/
def Careful (s : State ι) : Event ι → Prop
  | .save w .written =>
      ∀ params ∈ (s.req w).params, adminPerm (Privilege w) PERM_ADMIN_WRITE = true →
        (s.req w).seen = s.saves ∧ IsConf params
  | _ => True

instance (s : State ι) : (e : Event ι) → Decidable (Careful Privilege s e)
  | .save w .written => inferInstanceAs (Decidable (∀ params ∈ (s.req w).params,
      adminPerm (Privilege w) PERM_ADMIN_WRITE = true →
        (s.req w).seen = s.saves ∧ IsConf params))
  | .save _ .diskFull | .save _ .notLocked | .load _ | .change _ _ => isTrue trivial

variable {Privilege} {s : State ι} {w : ι} {file : Option Bytes} {es : List (Event ι)}

/-! ## One call -/

theorem lastChange_cons (c : Change) (cs : List Change) (sec key : Bytes) :
    lastChange (c :: cs) sec key =
      if sec = c.sec ∧ key = c.key then some c.value else lastChange cs sec key := by
  rw [lastChange, List.find?_cons]
  by_cases h : sec = c.sec ∧ key = c.key
  · rw [if_pos h, decide_eq_true h]
    rfl
  · rw [if_neg h, decide_eq_false h]
    rfl

theorem exists_of_lastChange {cs : List Change} {sec key : Bytes} {v : Option Bytes}
    (h : lastChange cs sec key = some v) : ∃ c ∈ cs, c.sec = sec ∧ c.key = key := by
  obtain ⟨c, hc, -⟩ := Option.map_eq_some_iff.1 h
  obtain ⟨hsec, hkey⟩ : sec = c.sec ∧ key = c.key := by simpa using List.find?_some hc
  exact ⟨c, List.mem_of_find?_eq_some hc, hsec.symm, hkey.symm⟩

theorem Change.param_apply (c : Change) (params : Params) (sec key : Bytes) :
    param (c.apply params) sec key =
      if sec = c.sec ∧ key = c.key then c.value else param params sec key := by
  rw [apply]
  cases c.value with
  | some value => exact param_setParam params c.key value c.sec sec key
  | none => exact param_delParam params c.key c.sec sec key

/-! ## The steps -/

theorem State.to_req_self (s : State ι) (w : ι) (l : Local) : (s.to w l).req w = l :=
  Function.update_self ..

theorem State.to_req_of_ne (s : State ι) {w w' : ι} (h : w' ≠ w) (l : Local) :
    (s.to w l).req w' = s.req w' := Function.update_of_ne h ..

/-- What holds of a request in a run whose saves are all careful.  A request that knows the file has
its own changes on top of it, and changes that are saved are in the file. -/
structure Local.Inv (es : List (Event ι)) (saves : ℕ) (file : Params) (w : ι) (r : Local) :
    Prop where
  changes_mem : ∀ c ∈ r.changes, .change w c ∈ es
  not_started : r.params = none → r.changes = []
  seen_le : r.seen ≤ saves
  fresh : ∀ params ∈ r.params, r.seen = saves → ∀ sec key,
    param params sec key = (lastChange r.changes sec key).getD (param file sec key)
  saved : r.unsaved = false → ∀ sec key v,
    lastChange r.changes sec key = some v → param file sec key = v

/-- What holds in such a run. -/
structure Inv (file : Option Bytes) (es : List (Event ι)) (s : State ι) : Prop where
  req : ∀ w, (s.req w).Inv es s.saves s.params w
  untouched : ∀ sec key, (∀ w, lastChange (s.req w).changes sec key = none) →
    param s.params sec key = param (parseIni (file.getD [])) sec key

omit [DecidableEq ι] in
theorem inv_init (file : Option Bytes) (es : List (Event ι)) :
    Inv file es ({ file := file } : State ι) := by
  refine ⟨fun w => ⟨fun c hc => absurd hc List.not_mem_nil, fun _ => rfl, Nat.le_refl _,
    fun params hp => absurd hp (by simp), fun _ sec key v hv => ?_⟩, fun _ _ _ => rfl⟩
  cases hv

/-- A step that adds nothing to the changes of a request and does not touch the file. -/
theorem Inv.to (h : Inv file es s) {r : Local} (hr : r.Inv es s.saves s.params w)
    (hchanges : ∀ sec key, lastChange r.changes sec key = none →
      lastChange (s.req w).changes sec key = none) : Inv file es (s.to w r) := by
  have hself := s.to_req_self w r
  have hother := fun w' (hw' : w' ≠ w) => s.to_req_of_ne hw' r
  refine ⟨forall_of_frame (P := fun w' r => r.Inv es s.saves s.params w') hself hother hr
    fun w' _ => h.req w', fun sec key hnone => h.untouched sec key fun w' => ?_⟩
  exact forall_of_frame (P := fun w' r => lastChange r.changes sec key = none →
    lastChange (s.req w').changes sec key = none) hself hother (hchanges sec key)
    (fun _ _ => id) w' (hnone w')

theorem Inv.load (h : Inv file es s) (w : ι) : Inv file es (s.load w) := by
  unfold State.load
  cases hw : (s.req w).params with
  | some params => exact h
  | none =>
    have hreq := h.req w
    have hempty := hreq.not_started hw
    have hto : Inv file es (s.to w { s.req w with params := some s.params, seen := s.saves }) := by
      refine h.to ⟨hreq.changes_mem, fun _ => hempty, Nat.le_refl _,
        fun params hp _ sec key => ?_, hreq.saved⟩ fun _ _ => id
      rw [← Option.some.inj hp, hempty]
      rfl
    exact ⟨hto.req, hto.untouched⟩

theorem Inv.change (h : Inv file es s) {c : Change} (hmem : .change w c ∈ es) :
    Inv file es (s.change w c) := by
  unfold State.change
  cases hw : (s.req w).params with
  | none => exact h
  | some params =>
    have hreq := h.req w
    refine h.to ⟨fun c' hc' => ?_, fun hp => absurd hp (by simp), hreq.seen_le,
      fun params' hp hseen sec key => ?_, fun hsaved => absurd hsaved (by simp)⟩
      fun sec key hlast => ?_
    · rcases List.mem_cons.1 hc' with rfl | hc'
      · exact hmem
      · exact hreq.changes_mem c' hc'
    · rw [← Option.some.inj hp, c.param_apply, lastChange_cons]
      split_ifs
      · rfl
      · exact hreq.fresh params hw hseen sec key
    · rw [lastChange_cons] at hlast
      split_ifs at hlast
      exact hlast

theorem Inv.message (h : Inv file es s) (w : ι) :
    Inv file es (s.to w { s.req w with message := true }) :=
  have hreq := h.req w
  h.to ⟨hreq.changes_mem, hreq.not_started, hreq.seen_le, hreq.fresh, hreq.saved⟩ fun _ _ => id

omit [DecidableEq ι] in
/-- A save by a request that knows the file.  The others have to load it again, and what they have
changed is not what this one has changed. -/
theorem Inv.written (h : Inv file es s) (hdiff : Different es) {params : Params}
    (hw : (s.req w).params = some params) (hseen : (s.req w).seen = s.saves) {s' : State ι}
    (hself : s'.req w = { s.req w with unsaved := false, seen := s.saves + 1 })
    (hother : ∀ w', w' ≠ w → s'.req w' = s.req w') (hsaves : s'.saves = s.saves + 1)
    (hfile : ∀ sec key, param s'.params sec key = param params sec key) : Inv file es s' := by
  have hreq := h.req w
  have hfresh := hreq.fresh params hw hseen
  refine ⟨forall_of_frame (P := fun w' r => r.Inv es s'.saves s'.params w') hself hother ?_
    fun w' hw' => ?_, fun sec key hnone => ?_⟩
  · rw [hsaves]
    refine ⟨hreq.changes_mem, hreq.not_started, Nat.le_refl _, fun params' hp _ sec key => ?_,
      fun _ sec key v hlast => ?_⟩
    · have heq : params' = params := Option.some.inj (hp.symm.trans hw)
      rw [heq, hfile, hfresh]
      cases lastChange (s.req w).changes sec key <;> rfl
    · rw [hfile, hfresh, hlast]
      rfl
  · have hreq' := h.req w'
    have hle := hreq'.seen_le
    rw [hsaves]
    refine ⟨hreq'.changes_mem, hreq'.not_started, hle.trans (Nat.le_succ _),
      fun _ _ hseen' => ?_, fun hsaved sec key v hlast => ?_⟩
    · omega
    · have hnone : lastChange (s.req w).changes sec key = none := by
        refine Option.eq_none_iff_forall_ne_some.2 fun v' hlast' => hw' ?_
        obtain ⟨c', hc', hsec', hkey'⟩ := exists_of_lastChange hlast
        obtain ⟨c, hc, hsec, hkey⟩ := exists_of_lastChange hlast'
        exact hdiff w' w c' c (hreq'.changes_mem c' hc') (hreq.changes_mem c hc)
          (hsec'.trans hsec.symm) (hkey'.trans hkey.symm)
      rw [hfile, hfresh, hnone]
      exact hreq'.saved hsaved sec key v hlast
  · have hnone' : ∀ w', lastChange (s.req w').changes sec key = none := fun w' => by
      rw [← hnone w']
      exact forall_of_frame (P := fun w' r => lastChange (s.req w').changes sec key =
        lastChange r.changes sec key) hself hother rfl (fun _ _ => rfl) w'
    rw [hfile, hfresh, hnone' w]
    exact h.untouched sec key hnone'

theorem Inv.save (h : Inv file es s) (hdiff : Different es) {o : Outcome}
    (hok : Careful Privilege s (.save w o)) : Inv file es (s.save Privilege w o) := by
  unfold State.save
  cases hw : (s.req w).params with
  | none => exact h
  | some params =>
    simp only
    split_ifs with hperm
    · cases o with
      | written =>
        obtain ⟨hseen, hconf⟩ := hok params hw hperm
        refine h.written hdiff hw hseen (Function.update_self ..)
          (fun w' hw' => Function.update_of_ne hw' ..) rfl fun sec key => ?_
        rw [State.params, Option.getD_some, save_of_adminPerm hperm, parseIni_trim,
          param_parseIni_iniText hconf]
      | diskFull => exact h.message w
      | notLocked => exact h.message w
    · exact h.message w

theorem inv_step (hdiff : Different es) (h : Inv file es s) {e : Event ι}
    (hok : e ∈ es ∧ Careful Privilege s e) : Inv file es (s.step Privilege e) := by
  cases e with
  | load w => exact h.load w
  | change w c => exact h.change hok.1
  | save w o => exact h.save hdiff hok.2

omit [DecidableEq ι] in
theorem Inv.nothingLost (h : Inv file es s) : NothingLost file s := fun hfinished =>
  ⟨fun w sec key v hlast => (h.req w).saved (hfinished w).1 sec key v hlast, h.untouched⟩

/-- **No change of the configuration is lost** in a run of requests that change different parameters
and whose saves are all careful. -/
theorem nothing_lost_of_meets (Privilege : ι → Option Bytes) (file : Option Bytes)
    {es : List (Event ι)} (hdiff : Different es)
    (h : Meets (State.step Privilege) (Careful Privilege) { file := file } es) :
    NothingLost file (run (State.step Privilege) { file := file } es) := by
  have hmem : Meets (State.step Privilege) (fun _ e => e ∈ es) { file := file } es :=
    meets_of_forall_mem fun _ => id
  have hinv : Inv file es (run (State.step Privilege) { file := file } es) :=
    run_invariant (fun _ _ hinv hok => inv_step hdiff hinv hok) (inv_init file es)
      (meets_and.2 ⟨hmem, h⟩)
  exact hinv.nothingLost

/-- Two administrators, each with a parameter. -/
def twoChanges : Bool → Change
  | false => ⟨bytes "Spam", bytes "Engine", some (bytes "Y")⟩
  | true => ⟨bytes "Virus", bytes "Engine", some (bytes "N")⟩

/-- The file that they find. -/
def sampleFile : Bytes := bytes "[Spam]\nEngine=N\n\n[Virus]\nEngine=Y"

/-- The steps of a request after its constructor. -/
def edit (w : Bool) : List (Event Bool) := [.change w (twoChanges w), .save w .written]

/-- A run of loads and edits changes different sections. -/
theorem different_of_edit {es : List (Event Bool)}
    (h : ∀ e ∈ es, ∃ w, e = .load w ∨ e ∈ edit w) : Different es := by
  have htwo : ∀ w c, .change w c ∈ es → c = twoChanges w := by
    intro w c hc
    obtain ⟨v, hload | hedit⟩ := h _ hc
    · cases hload
    · rcases List.mem_pair.1 hedit with hedit | hedit
      · cases hedit
        rfl
      · cases hedit
  intro w w' c c' hc hc' hsec _
  rw [htwo w c hc, htwo w' c' hc'] at hsec
  cases w <;> cases w' <;> first | rfl | exact absurd hsec (by decide)

/-- One request after the other. -/
theorem nothing_lost_one_by_one :
    NothingLost (some sampleFile) (run (State.step fun _ => some (bytes "7"))
      { file := some sampleFile } (.load false :: edit false ++ .load true :: edit true)) :=
  nothing_lost_of_meets (fun _ => some (bytes "7")) (some sampleFile)
    (different_of_edit (List.forall_mem_append.2
      ⟨List.forall_mem_cons.2 ⟨⟨_, .inl rfl⟩, fun _ he => ⟨_, .inr he⟩⟩,
        List.forall_mem_cons.2 ⟨⟨_, .inl rfl⟩, fun _ he => ⟨_, .inr he⟩⟩⟩))
    (by decide +kernel)

/-- The second request loads the file before the first has saved it. -/
theorem change_lost :
    Different (.load false :: .load true :: edit false ++ edit true) ∧
      ¬ NothingLost (some sampleFile) (run (State.step fun _ => some (bytes "7"))
        { file := some sampleFile } (.load false :: .load true :: edit false ++ edit true)) := by
  refine ⟨different_of_edit (List.forall_mem_append.2
    ⟨List.forall_mem_cons.2 ⟨⟨_, .inl rfl⟩, List.forall_mem_cons.2 ⟨⟨_, .inl rfl⟩,
      fun _ he => ⟨_, .inr he⟩⟩⟩, fun _ he => ⟨_, .inr he⟩⟩), fun h => ?_⟩
  have hkept := (h fun w => by cases w <;> decide +kernel).1 false (bytes "Spam")
    (bytes "Engine") (some (bytes "Y")) (by decide +kernel)
  revert hkept
  decide +kernel

end Steps

end NoSpam.Admin.ConfRequests
