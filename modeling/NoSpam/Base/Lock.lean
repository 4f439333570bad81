import NoSpam.Base.Run

/-!
# Processes and locks

Processes run their operations concurrently on a shared state.  An operation takes a lock, reads a
value, computes a new one from it and writes that back before it releases the lock, or is answered
without any of that.  Where an operation does not read what operations under other locks write
(`Access.Framed`), every schedule comes to the same as a sequence of the operations, each in one go
(`serial_run`): the state, the answers, and the operations of each process in their order.
-/

namespace Lock

open Machine

/-! ## Operations -/

/-- What an operation does: the answer it gets at once, or its lock, the value it reads, what it
makes of the value and how it writes the result. -/
structure Access (κ ν α β γ : Type*) where
  early : β → Option γ
  lock : β → κ
  read : β → α → ν
  act : β → ν → ν × γ
  write : β → ν → α → α

variable {ι κ ν α β γ : Type*}

/-- An operation that has been carried out, for whom, and its answer. -/
structure Entry (ι β γ : Type*) where
  who : ι
  op : β
  answer : γ

namespace Access

variable (A : Access κ ν α β γ)

/-- The shared state after an operation in one go. -/
def apply (a : α) (b : β) : α :=
  if (A.early b).isSome then a else A.write b (A.act b (A.read b a)).1 a

/-- The answer to an operation in one go. -/
def answer (a : α) (b : β) : γ := (A.early b).getD (A.act b (A.read b a)).2

/-- An operation does not read what operations under other locks write. -/
def Framed : Prop :=
  ∀ b b' v a, A.lock b ≠ A.lock b' → A.read b (A.write b' v a) = A.read b a

/-- The shared state after an entry. -/
def replay (a : α) (e : Entry ι β γ) : α := A.apply a e.op

/-- Every entry has the answer of its operation after those before it. -/
def Serial (a : α) (log : List (Entry ι β γ)) : Prop :=
  Meets A.replay (fun a e => e.answer = A.answer a e.op) a log

end Access

/-! ## Schedules -/

/-- How far a process is with its operation. -/
inductive Phase (ν β : Type*)
  | out
  | entered (b : β)
  | loaded (b : β) (v : ν)
  | stored (b : β)

/-- The operation a process holds a lock for. -/
def Phase.op : Phase ν β → Option β
  | .out => none
  | .entered b => some b
  | .loaded b _ => some b
  | .stored b => some b

/-- The operation that has begun and is not carried out yet. -/
def Phase.pending : Phase ν β → List β
  | .out => []
  | .entered b => [b]
  | .loaded b _ => [b]
  | .stored _ => []

/-- The shared state, who holds which lock, and of each process its phase and the operations to
come.  The log has the operations in the order in which they were carried out. -/
structure State (ι κ ν α β γ : Type*) where
  shared : α
  holder : κ → Option ι
  phase : ι → Phase ν β
  todo : ι → List β
  log : List (Entry ι β γ)

/-- What a schedule lets a process do; a process may die at any point. -/
inductive Action (ι : Type*)
  | enter (i : ι)
  | load (i : ι)
  | store (i : ι)
  | leave (i : ι)
  | die (i : ι)

section Step

variable [DecidableEq ι] [DecidableEq κ] (A : Access κ ν α β γ)

/-- The processes with their programs, before any of them has begun. -/
def start (a : α) (programs : ι → List β) : State ι κ ν α β γ :=
  ⟨a, fun _ => none, fun _ => .out, programs, []⟩

/-- The next action.  One that the process cannot take now, or not under this lock, leaves
everything as it is; the locks of a process that dies are released. -/
def step (s : State ι κ ν α β γ) : Action ι → State ι κ ν α β γ
  | .enter i =>
      match s.phase i, s.todo i with
      | .out, b :: rest =>
          match A.early b with
          | some g => { s with todo := Function.update s.todo i rest, log := s.log ++ [⟨i, b, g⟩] }
          | none =>
              if s.holder (A.lock b) = none then
                { s with
                  holder := Function.update s.holder (A.lock b) (some i)
                  phase := Function.update s.phase i (.entered b)
                  todo := Function.update s.todo i rest }
              else s
      | _, _ => s
  | .load i =>
      match s.phase i with
      | .entered b => { s with phase := Function.update s.phase i (.loaded b (A.read b s.shared)) }
      | _ => s
  | .store i =>
      match s.phase i with
      | .loaded b v =>
          { s with
            shared := A.write b (A.act b v).1 s.shared
            phase := Function.update s.phase i (.stored b)
            log := s.log ++ [⟨i, b, (A.act b v).2⟩] }
      | _ => s
  | .leave i =>
      match s.phase i with
      | .stored b =>
          { s with
            holder := Function.update s.holder (A.lock b) none
            phase := Function.update s.phase i .out }
      | _ => s
  | .die i =>
      { s with
        holder := fun k => if s.holder k = some i then none else s.holder k
        phase := Function.update s.phase i .out
        todo := Function.update s.todo i [] }

end Step

/-! ## The invariant -/

section Laws

variable {A : Access κ ν α β γ} {a₀ : α} {s : State ι κ ν α β γ}

/-- The process holds the lock of its operation, and what it has read is still there. -/
def Sound (A : Access κ ν α β γ) (a : α) (holder : κ → Option ι) (i : ι) (p : Phase ν β) : Prop :=
  ∀ b, p.op = some b →
    holder (A.lock b) = some i ∧ A.early b = none ∧ ∀ v, p = .loaded b v → v = A.read b a

/-- All processes are sound, and the state and the answers are those of the log. -/
structure Inv (A : Access κ ν α β γ) (a₀ : α) (s : State ι κ ν α β γ) : Prop where
  sound : ∀ i, Sound A s.shared s.holder i (s.phase i)
  shared : s.shared = run A.replay a₀ s.log
  serial : A.Serial a₀ s.log

theorem sound_out (a : α) (holder : κ → Option ι) (i : ι) : Sound A a holder i .out :=
  fun b hop => by cases hop

/-- No two processes are at operations under one lock. -/
theorem Inv.exclusive (h : Inv A a₀ s) {i j : ι} {b b' : β} (hi : (s.phase i).op = some b)
    (hj : (s.phase j).op = some b') (hlock : A.lock b = A.lock b') : i = j := by
  have hheld := (h.sound i b hi).1
  rw [hlock, (h.sound j b' hj).1] at hheld
  exact (Option.some.inj hheld).symm

theorem serial_concat {log : List (Entry ι β γ)} {e : Entry ι β γ} (h : A.Serial a₀ log)
    (he : e.answer = A.answer (run A.replay a₀ log) e.op) : A.Serial a₀ (log ++ [e]) :=
  meets_append.2 ⟨h, he, trivial⟩

theorem inv_start (a : α) (programs : ι → List β) :
    Inv A a (start a programs : State ι κ ν α β γ) where
  sound i := sound_out _ _ i
  shared := rfl
  serial := trivial

variable [DecidableEq ι]

/-- The others stay sound where neither the locks of their operations nor what these read change. -/
theorem sound_update {a a' : α} {holder holder' : κ → Option ι} {phase : ι → Phase ν β} {i : ι}
    {p : Phase ν β} (h : ∀ j, Sound A a holder j (phase j)) (hself : Sound A a' holder' i p)
    (hother : ∀ j b, j ≠ i → (phase j).op = some b →
      holder' (A.lock b) = holder (A.lock b) ∧ A.read b a' = A.read b a) :
    ∀ j, Sound A a' holder' j (Function.update phase i p j) := by
  apply forall_of_frame (f := phase) (w := i) (b := p) (Function.update_self ..)
    (fun j hj => Function.update_of_ne hj ..) hself
  intro j hj b hop
  obtain ⟨hheld, hlate, hfresh⟩ := h j b hop
  obtain ⟨hholder, hread⟩ := hother j b hj hop
  exact ⟨hholder.trans hheld, hlate, fun v hv => (hfresh v hv).trans hread.symm⟩

variable [DecidableEq κ]

/-! ## What an action can do -/

/-- The moves of a schedule. -/
inductive Moves (A : Access κ ν α β γ) (s : State ι κ ν α β γ) :
    Action ι → State ι κ ν α β γ → Prop
  | stay (a : Action ι) : Moves A s a s
  | early {i : ι} {b : β} {rest : List β} {g : γ} (hphase : s.phase i = .out)
      (htodo : s.todo i = b :: rest) (hearly : A.early b = some g) :
      Moves A s (.enter i)
        { s with todo := Function.update s.todo i rest, log := s.log ++ [⟨i, b, g⟩] }
  | enter {i : ι} {b : β} {rest : List β} (hphase : s.phase i = .out)
      (htodo : s.todo i = b :: rest) (hearly : A.early b = none)
      (hfree : s.holder (A.lock b) = none) :
      Moves A s (.enter i)
        { s with
          holder := Function.update s.holder (A.lock b) (some i)
          phase := Function.update s.phase i (.entered b)
          todo := Function.update s.todo i rest }
  | load {i : ι} {b : β} (hphase : s.phase i = .entered b) :
      Moves A s (.load i)
        { s with phase := Function.update s.phase i (.loaded b (A.read b s.shared)) }
  | store {i : ι} {b : β} {v : ν} (hphase : s.phase i = .loaded b v) :
      Moves A s (.store i)
        { s with
          shared := A.write b (A.act b v).1 s.shared
          phase := Function.update s.phase i (.stored b)
          log := s.log ++ [⟨i, b, (A.act b v).2⟩] }
  | leave {i : ι} {b : β} (hphase : s.phase i = .stored b) :
      Moves A s (.leave i)
        { s with
          holder := Function.update s.holder (A.lock b) none
          phase := Function.update s.phase i .out }
  | die (i : ι) :
      Moves A s (.die i)
        { s with
          holder := fun k => if s.holder k = some i then none else s.holder k
          phase := Function.update s.phase i .out
          todo := Function.update s.todo i [] }

theorem moves_step (s : State ι κ ν α β γ) (a : Action ι) : Moves A s a (step A s a) := by
  cases a with
  | enter i =>
    rw [step]
    split
    · next b rest hphase htodo =>
      split
      · next g hearly => exact .early hphase htodo hearly
      · next hearly =>
        split_ifs with hfree
        · exact .enter hphase htodo hearly hfree
        · exact .stay _
    · exact .stay _
  | load i =>
    rw [step]
    split
    · next b hphase => exact .load hphase
    · exact .stay _
  | store i =>
    rw [step]
    split
    · next b v hphase => exact .store hphase
    · exact .stay _
  | leave i =>
    rw [step]
    split
    · next b hphase => exact .leave hphase
    · exact .stay _
  | die i => exact .die i

/-- One action keeps the invariant. -/
theorem Inv.step (hframe : A.Framed) (h : Inv A a₀ s) (a : Action ι) :
    Inv A a₀ (Lock.step A s a) := by
  have hmove := moves_step (A := A) s a
  generalize Lock.step A s a = s' at hmove
  cases hmove with
  | stay => exact h
  | early hphase htodo hearly =>
    refine ⟨h.sound, ?_, serial_concat h.serial ?_⟩
    · rw [run_append, ← h.shared, run_cons, run_nil, Access.replay, Access.apply, hearly]
      rfl
    · simp [Access.answer, hearly]
  | @enter i b rest hphase htodo hearly hfree =>
    refine ⟨sound_update h.sound ?_ ?_, h.shared, h.serial⟩
    · intro c hop
      obtain rfl : b = c := Option.some.inj hop
      exact ⟨Function.update_self .., hearly, fun v hv => by cases hv⟩
    · intro j c hj hop
      have hne : A.lock c ≠ A.lock b := by
        intro he
        have hheld := (h.sound j c hop).1
        rw [he, hfree] at hheld
        cases hheld
      exact ⟨Function.update_of_ne hne .., rfl⟩
  | @load i b hphase =>
    obtain ⟨hheld, hlate, -⟩ := h.sound i b (by rw [hphase, Phase.op])
    refine ⟨sound_update h.sound ?_ fun j c hj hop => ⟨rfl, rfl⟩, h.shared, h.serial⟩
    intro c hop
    obtain rfl : b = c := Option.some.inj hop
    refine ⟨hheld, hlate, fun v hv => ?_⟩
    cases hv
    rfl
  | @store i b v hphase =>
    have hop : (s.phase i).op = some b := by rw [hphase, Phase.op]
    obtain ⟨hheld, hlate, hfresh⟩ := h.sound i b hop
    have hread := hfresh v hphase
    refine ⟨sound_update h.sound ?_ ?_, ?_, serial_concat h.serial ?_⟩
    · intro c hc
      obtain rfl : b = c := Option.some.inj hc
      exact ⟨hheld, hlate, fun w hw => by cases hw⟩
    · -- the other processes work under other locks, and do not see the write
      intro j c hj hc
      exact ⟨rfl, hframe c b _ _ fun he => hj (h.exclusive hc hop he)⟩
    · rw [run_append, ← h.shared, run_cons, run_nil, Access.replay, Access.apply, hlate, hread]
      rfl
    · rw [← h.shared, Access.answer, hlate, hread]
      rfl
  | @leave i b hphase =>
    have hop : (s.phase i).op = some b := by rw [hphase, Phase.op]
    refine ⟨sound_update h.sound (sound_out _ _ i) ?_, h.shared, h.serial⟩
    intro j c hj hc
    have hne : A.lock c ≠ A.lock b := fun he => hj (h.exclusive hc hop he)
    exact ⟨Function.update_of_ne hne .., rfl⟩
  | die i =>
    refine ⟨sound_update h.sound (sound_out _ _ i) ?_, h.shared, h.serial⟩
    intro j c hj hc
    have hne : ¬s.holder (A.lock c) = some i := by
      rw [(h.sound j c hc).1]
      exact fun he => hj (Option.some.inj he)
    exact ⟨if_neg hne, rfl⟩

/-! ## The order of a process -/

/-- The operations of a process in the log. -/
def opsOf (i : ι) (log : List (Entry ι β γ)) : List β := (log.filter (·.who = i)).map Entry.op

/-- All operations of a process, carried out, begun and to come. -/
def progress (s : State ι κ ν α β γ) (i : ι) : List β :=
  opsOf i s.log ++ ((s.phase i).pending ++ s.todo i)

/-- The process has nothing left to do. -/
def Finished (s : State ι κ ν α β γ) (i : ι) : Prop := (s.phase i).pending = [] ∧ s.todo i = []

theorem opsOf_concat (i : ι) (log : List (Entry ι β γ)) (e : Entry ι β γ) :
    opsOf i (log ++ [e]) = opsOf i log ++ if e.who = i then [e.op] else [] := by
  by_cases he : e.who = i <;> simp [opsOf, he]

/-- An action moves operations of a process on, and loses none unless the process dies. -/
theorem progress_step (s : State ι κ ν α β γ) (a : Action ι) (j : ι) :
    progress (step A s a) j <+: progress s j ∧
      (a ≠ .die j → progress (step A s a) j = progress s j) := by
  have hmove := moves_step (A := A) s a
  generalize step A s a = s' at hmove
  have hkeep (h : progress s' j = progress s j) :
      progress s' j <+: progress s j ∧ (a ≠ .die j → progress s' j = progress s j) :=
    ⟨h ▸ List.prefix_rfl, fun _ => h⟩
  cases hmove with
  | stay => exact hkeep rfl
  | @early i b rest g hphase htodo hearly =>
    apply hkeep
    by_cases hj : i = j
    · subst hj
      simp [progress, opsOf_concat, hphase, htodo, Phase.pending]
    · simp [progress, opsOf_concat, hj, Function.update_of_ne (Ne.symm hj)]
  | @enter i b rest hphase htodo hearly hfree =>
    apply hkeep
    by_cases hj : i = j
    · subst hj
      simp [progress, hphase, htodo, Phase.pending]
    · simp [progress, Function.update_of_ne (Ne.symm hj)]
  | @load i b hphase =>
    apply hkeep
    by_cases hj : i = j
    · subst hj
      simp [progress, hphase, Phase.pending]
    · simp [progress, Function.update_of_ne (Ne.symm hj)]
  | @store i b v hphase =>
    apply hkeep
    by_cases hj : i = j
    · subst hj
      simp [progress, opsOf_concat, hphase, Phase.pending]
    · simp [progress, opsOf_concat, hj, Function.update_of_ne (Ne.symm hj)]
  | @leave i b hphase =>
    apply hkeep
    by_cases hj : i = j
    · subst hj
      simp [progress, hphase, Phase.pending]
    · simp [progress, Function.update_of_ne (Ne.symm hj)]
  | die i =>
    by_cases hj : i = j
    · subst hj
      refine ⟨?_, fun hne => absurd rfl hne⟩
      simp [progress, Phase.pending]
    · apply hkeep
      simp [progress, Function.update_of_ne (Ne.symm hj)]

theorem progress_run (as : List (Action ι)) (s : State ι κ ν α β γ) (j : ι) :
    progress (run (step A) s as) j <+: progress s j ∧
      (.die j ∉ as → progress (run (step A) s as) j = progress s j) := by
  induction as generalizing s with
  | nil => exact ⟨List.prefix_rfl, fun _ => rfl⟩
  | cons a as ih =>
    obtain ⟨hfront, hkeep⟩ := progress_step (A := A) s a j
    obtain ⟨hfront', hkeep'⟩ := ih (step A s a)
    refine ⟨hfront'.trans hfront, fun hnot => ?_⟩
    rw [List.mem_cons, not_or] at hnot
    exact (hkeep' hnot.2).trans (hkeep (Ne.symm hnot.1))

/-! ## Whole schedules -/

/-- After every schedule, the shared state and all answers are those of the operations in the order
of the log, each in one go; and each process has carried out its program in order up to some point,
all of it if it has not died and has nothing left to do. -/
theorem serial_run (hframe : A.Framed) (a : α) (programs : ι → List β) (as : List (Action ι)) :
    let s := run (step A) (start a programs) as
    A.Serial a s.log ∧ s.shared = run A.replay a s.log ∧
      ∀ i, opsOf i s.log <+: programs i ∧
        (.die i ∉ as → Finished s i → opsOf i s.log = programs i) := by
  intro s
  have hinv : Inv A a s :=
    @run_invariant _ _ _ (fun _ _ => True) _ _ _ (fun _ b h _ => h.step hframe b)
      (inv_start a programs) (meets_of_forall fun _ _ => trivial)
  refine ⟨hinv.serial, hinv.shared, fun i => ?_⟩
  obtain ⟨hfront, hkeep⟩ := progress_run (A := A) as (start a programs) i
  have hstart : progress (start a programs : State ι κ ν α β γ) i = programs i := rfl
  rw [hstart] at hfront hkeep
  refine ⟨(List.prefix_append _ _).trans hfront, fun halive hdone => ?_⟩
  have hall := hkeep halive
  rwa [progress, hdone.1, hdone.2, List.append_nil, List.append_nil] at hall

end Laws

end Lock
