import NoSpam.Base.Lock
import NoSpam.Dynamic.Shared

/-!
# Processes at the database

The engines and the commands of the administrator are processes of their own, at one database of
namespaces.  A call, the deletion of a key and the cleaning of a namespace load the namespace under
the lock of the database, change the copy and store it.  What comes out is what the events of a
namespace give one after the other, in the order in which they are stored (`database_serial`), and a
key within its rates is passed under every schedule (`passed_in_schedule`).
-/

namespace NoSpam.Dynamic

open Text Perl Machine

/-! ## The operations -/

/-- An event for one of the namespaces. -/
structure Operation where
  ns : Bytes
  event : Event

/-- What the caller gets. -/
inductive Reply
  | verdict (overrun : Bool) (reason : Bytes)
  | done
  | nothing
deriving DecidableEq

section Database

variable (tr : Bytes → Bytes)

/-- The answer of an operation that returns before it takes the lock. -/
def Operation.early : Operation → Option Reply
  | ⟨ns, .call c⟩ =>
      if c.num = 0 || c.sec = 0 then some (.verdict false (tr (bytes "passed")))
      else if !isTrue ns || !isTrue c.key then some (.verdict false (tr (bytes "need param")))
      else if !c.attached then some (.verdict false (tr (bytes "db failure")))
      else none
  | ⟨ns, .del item⟩ => if isTrue ns && isTrue item then none else some .nothing
  | ⟨ns, .clean⟩ => if isTrue ns then none else some .nothing

/-- The answer of an event under the lock. -/
def eventReply (ns : Namespace) : Event → Reply
  | .call c =>
      let answer := rateAnswer tr c.num c.sec c.denySec ns c.toCall
      .verdict answer.1 answer.2.1
  | .del _ => .done
  | .clean => .done

/-- The database, with one lock for all namespaces: between `lock_DBM` and `unlock_DBM` a namespace
is copied, the copy changed and assigned. -/
def database : Lock.Access Unit Namespace (Bytes → Namespace) Operation Reply where
  early := Operation.early tr
  lock _ := ()
  read op db := db op.ns
  act op ns := (eventStep tr ns op.event, eventReply tr ns op.event)
  write op ns db := Function.update db op.ns ns

end Database

/-- The events of a namespace, in the order of the log. -/
def eventsOf {ι : Type*} (ns : Bytes) (log : List (Lock.Entry ι Operation Reply)) : List Event :=
  (log.filter (·.op.ns = ns)).map (·.op.event)

/-! ## One operation -/

section Entry

variable {ι : Type*} {tr : Bytes → Bytes} {ns : Bytes} {log : List (Lock.Entry ι Operation Reply)}

theorem framed_database (tr : Bytes → Bytes) : (database tr).Framed := fun _ _ _ _ hlock =>
  absurd rfl hlock

/-- An operation that returns early at a namespace changes none, and its answer is that of the
event, whatever the namespace holds. -/
theorem of_early (hns : isTrue ns = true) {e : Event} {g : Reply}
    (h : Operation.early tr ⟨ns, e⟩ = some g) (n : Namespace) :
    eventStep tr n e = n ∧ ∀ c, e = .call c → g = eventReply tr n e := by
  cases e with
  | call c =>
    simp only [Operation.early, hns] at h
    simp only [eventStep, eventReply, rateStep, rateAnswer, isOverrunRatePerXXX]
    split_ifs at h with hrate hkey hattached
    · obtain rfl := Option.some.inj h
      simp [hrate]
    · obtain rfl := Option.some.inj h
      simp_all
    · obtain rfl := Option.some.inj h
      simp_all
  | del item =>
    refine ⟨?_, fun c hc => by cases hc⟩
    rw [eventStep, Namespace.delDynamicInfoNsItem]
    by_cases hitem : isTrue item = true
    · simp [Operation.early, hns, hitem] at h
    · simp [hitem]
  | clean => simp [Operation.early, hns] at h

/-- An operation is an event of its namespace and leaves the others alone. -/
theorem replay_apply (hns : isTrue ns = true) (db : Bytes → Namespace)
    (e : Lock.Entry ι Operation Reply) :
    (database tr).replay db e ns =
      if e.op.ns = ns then eventStep tr (db ns) e.op.event else db ns := by
  obtain ⟨who, ⟨ns', event⟩, g⟩ := e
  rw [Lock.Access.replay, Lock.Access.apply]
  by_cases hns' : ns' = ns
  · subst hns'
    rw [if_pos rfl]
    cases hearly : (database tr).early ⟨ns', event⟩ with
    | some g' => exact (of_early hns hearly _).1.symm
    | none => exact Function.update_self ..
  · rw [if_neg hns']
    split_ifs
    · rfl
    · exact Function.update_of_ne (Ne.symm hns') ..

theorem eventsOf_cons (ns : Bytes) (e : Lock.Entry ι Operation Reply) :
    eventsOf ns (e :: log) =
      if e.op.ns = ns then e.op.event :: eventsOf ns log else eventsOf ns log := by
  by_cases h : e.op.ns = ns <;> simp [eventsOf, h]

/-- A namespace after the operations of a log is the run of its events. -/
theorem run_replay_apply (hns : isTrue ns = true) (db : Bytes → Namespace) :
    run (database tr).replay db log ns = run (eventStep tr) (db ns) (eventsOf ns log) := by
  induction log generalizing db with
  | nil => rfl
  | cons e log ih =>
    rw [run_cons, ih, replay_apply hns, eventsOf_cons]
    split_ifs <;> rfl

/-- A call under the lock, or before it, is answered by the namespace it finds. -/
theorem answer_call (hns : isTrue ns = true) (db : Bytes → Namespace) (c : RatedCall) :
    (database tr).answer db ⟨ns, .call c⟩ = eventReply tr (db ns) (.call c) := by
  rw [Lock.Access.answer, database]
  dsimp only
  cases hearly : Operation.early tr ⟨ns, .call c⟩ with
  | some g => exact (of_early hns hearly _).2 c rfl
  | none => rfl

end Entry

/-! ## Whole schedules -/

section Schedule

variable {ι : Type*} {tr : Bytes → Bytes} {ns : Bytes}

/-- Every call at the namespace is answered by the events that stand before it in the log. -/
def Answered (tr : Bytes → Bytes) (ns : Bytes) (log : List (Lock.Entry ι Operation Reply)) : Prop :=
  ∀ before after i c g, log = before ++ ⟨i, ⟨ns, .call c⟩, g⟩ :: after →
    g = eventReply tr (run (eventStep tr) {} (eventsOf ns before)) (.call c)

theorem answered_of_serial (hns : isTrue ns = true) {log : List (Lock.Entry ι Operation Reply)}
    (h : (database tr).Serial (fun _ => {}) log) : Answered tr ns log := by
  intro before after i c g hlog
  rw [hlog, Lock.Access.Serial, meets_append] at h
  have hg : g = (database tr).answer _ ⟨ns, .call c⟩ := h.2.1
  rw [hg, answer_call hns, run_replay_apply hns]

variable [DecidableEq ι]

/-- The processes with their programs, at an empty database, after a schedule. -/
def scheduled (tr : Bytes → Bytes) (programs : ι → List Operation) (as : List (Lock.Action ι)) :
    Lock.State ι Unit Namespace (Bytes → Namespace) Operation Reply :=
  run (Lock.step (database tr)) (Lock.start (fun _ => {}) programs) as

/-- Two engines and the administrator. -/
inductive Process
  | engine
  | second
  | admin
  deriving DecidableEq

/-- The engines ask for two keys; the administrator deletes what is known of one. -/
def enginesAndAdmin : Process → List Operation
  | .engine => [⟨bytes "IP", .call (hourly (bytes "a") 1000)⟩]
  | .second => [⟨bytes "IP", .call (hourly (bytes "b") 1001)⟩,
      ⟨bytes "IP", .call (hourly (bytes "a") 1100)⟩]
  | .admin => [⟨bytes "IP", .del (bytes "b")⟩]

/-- Their turns at the lock interleave; who finds it taken waits. -/
def interleaved : List (Lock.Action Process) :=
  [.enter .engine, .enter .second, .load .engine, .store .engine, .leave .engine, .enter .second,
    .load .second, .enter .admin, .store .second, .leave .second, .enter .admin, .load .admin,
    .store .admin, .leave .admin, .enter .second, .load .second, .store .second, .leave .second]

/-- A key is passed as long as its own calls, in the order in which the processes store them, stay
within their rates: no schedule makes two processes miss a stamp or see one twice. -/
theorem passed_in_schedule (hns : isTrue ns = true) (programs : ι → List Operation)
    (as : List (Lock.Action ι)) (before after : List (Lock.Entry ι Operation Reply)) (i : ι)
    (c : RatedCall) (g : Reply)
    (hlog : (scheduled tr programs as).log = before ++ ⟨i, ⟨ns, .call c⟩, g⟩ :: after)
    (hwithin : WithinRate (ownCalls c.key (eventsOf ns before) ++ [c])) :
    ∃ reason, g = .verdict false reason := by
  obtain ⟨hserial, -⟩ := Lock.serial_run (framed_database tr) (fun _ => {}) programs as
  have hg := answered_of_serial hns hserial before after i c g hlog
  have hpass : callOverrun tr _ c = false := callOverrun_of_within hwithin
  exact ⟨_, hg.trans (congrArg (Reply.verdict · _) hpass)⟩

/-- The second call for a key, made by another engine than the first. -/
theorem passed_in_schedule_interleaved :
    ∃ before g, (scheduled id enginesAndAdmin interleaved).log =
        before ++ [⟨.second, ⟨bytes "IP", .call (hourly (bytes "a") 1100)⟩, g⟩] ∧
      ownCalls (bytes "a") (eventsOf (bytes "IP") before) = [hourly (bytes "a") 1000] ∧
      ∃ reason, g = .verdict false reason :=
  have hlog : (scheduled id enginesAndAdmin interleaved).log =
      (scheduled id enginesAndAdmin interleaved).log.take 3 ++
        [⟨.second, ⟨bytes "IP", .call (hourly (bytes "a") 1100)⟩,
          .verdict false (bytes " passed")⟩] := rfl
  ⟨_, _, hlog, rfl, passed_in_schedule (by decide) enginesAndAdmin interleaved _ [] .second _ _ hlog
    (by unfold WithinRate; decide)⟩

end Schedule

end NoSpam.Dynamic
