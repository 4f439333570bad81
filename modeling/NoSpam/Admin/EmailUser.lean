import NoSpam.Base.Php
import NoSpam.Base.Run

/-!
# Personal white and black lists

Both lists of a user are in one table, which has no constraint on its rows.  A request of the web
interface counts the rows of a list, counts the rows with the address that it is to add, and then
inserts a row, in three statements with those of others in between.  `consistent_iff` says which
runs keep every address in one row and every list within its maximum.
-/

namespace NoSpam.EmailUser

open Text Php Machine

/-- `QUARANTINE_WHILE_LIST`. -/
def quarantineWhileList : ℤ := 1

/-- `QUARANTINE_BLACK_LIST`. -/
def quarantineBlackList : ℤ := 2

/-- `QUARANTINE_ALL_LIST`. -/
def quarantineAllList : ℤ := 0

/-- `QUARANTINE_WHITELIST_MAX`. -/
def quarantineWhitelistMax : ℕ := 100

/-- The type of one of the two lists. -/
def IsList (type : ℤ) : Prop := type = quarantineWhileList ∨ type = quarantineBlackList

instance (type : ℤ) : Decidable (IsList type) := inferInstanceAs (Decidable (_ ∨ _))

/-- A row of `UserWhiteList_TB`. -/
structure Row where
  user : Bytes
  domain : Bytes
  email : Bytes
  type : ℤ
  deriving DecidableEq

/-- The row is about this address, in a list of this user. -/
def Row.isFor (user domain email : Bytes) (r : Row) : Bool :=
  r.user = user && r.domain = domain && r.email = email

/-- The row is in a list of this user. -/
def Row.isOf (user domain : Bytes) (r : Row) : Bool := r.user = user && r.domain = domain

/-- The row is in the list of this type. -/
def Row.isIn (user domain : Bytes) (type : ℤ) (r : Row) : Bool :=
  r.isOf user domain && r.type = type

/-- `checkmailaddr`. -/
def checkmailaddr (addr : Bytes) : Bool :=
  match addr.splitOn 64 with
  | [name, host] =>
      name ≠ [] && host ≠ [] && 2 ≤ (host.splitOn 46).length && (host.splitOn 46).all (· ≠ [])
  | _ => false

/-- A request: the user who is logged in, the list on the page, and what is to be added to which
list. -/
structure Request where
  user : Bytes
  domain : Bytes
  type : ℤ
  addemail : Bytes
  addtype : ℤ

/-- Where a request is: before its first statement, after it, before the `INSERT`, or at its end,
with what `addItemToList` has returned, if it has.  `countedAt` and `selectedAt` are the lengths of
the table that its statements found; the program does not keep them. -/
inductive Phase
  | start
  | counted (listTotal countedAt : ℕ)
  | inserting (listTotal countedAt selectedAt : ℕ)
  | finished (result : Option ℤ)
  deriving DecidableEq

/-- The table and the requests. -/
structure State (ι : Type*) where
  table : List Row
  req : ι → Phase := fun _ => .start

/-- The next statement of a request, and whether it succeeds; the page ends if it does not. -/
structure Statement (ι : Type*) where
  w : ι
  ok : Bool

section Requests

-- What the database reads an escaped string as.
variable (stored : Bytes → Bytes)

namespace Request

variable (r : Request)

/-- `trim($_GET['addemail'])`. -/
def email : Bytes := trim r.addemail

/-- `listType`. -/
def listType : ℤ := if IsList r.type then r.type else quarantineAllList

/-- The rows that `initWhiteList` counts. -/
def counts (row : Row) : Bool :=
  if IsList r.type then row.isIn (stored r.user) (stored r.domain) r.type
  else row.isOf (stored r.user) (stored r.domain)

/-- The total of `initWhiteList`. -/
def initWhiteList (table : List Row) : ℕ := table.countP (r.counts stored)

/-- The row has the address that is to be added. -/
def isSame (row : Row) : Bool := row.isFor (stored r.user) (stored r.domain) (stored r.email)

/-- The row is in the list to which is to be added. -/
def isAdded (row : Row) : Bool := row.isIn (stored r.user) (stored r.domain) r.addtype

/-- The row of the `INSERT`. -/
def row : Row := ⟨stored r.user, stored r.domain, stored r.email, r.addtype⟩

/-- `addItemToList` before its first statement: its result, or nothing if it goes on. -/
def checkArgs : Option ℤ :=
  if ¬ IsList r.addtype then some (-1)
  else if ¬ checkmailaddr r.email then some (-2)
  else none

/-- `addItemToList` up to the `INSERT`. -/
def checkItem (listTotal : ℕ) (table : List Row) : Option ℤ :=
  match r.checkArgs with
  | some result => some result
  | none =>
      if 0 < table.countP (r.isSame stored) then some (-4)
      else if quarantineWhitelistMax < listTotal + 1 then some (-5)
      else none

end Request

namespace State

variable {ι : Type*} [DecidableEq ι] (who : ι → Request) (s : State ι)

/-- A request goes on. -/
def goTo (w : ι) (phase : Phase) : State ι := { s with req := Function.update s.req w phase }

/-- A statement that succeeds. -/
def query (w : ι) : State ι :=
  match s.req w with
  | .start => s.goTo w (.counted ((who w).initWhiteList stored s.table) s.table.length)
  | .counted listTotal countedAt =>
      match (who w).checkItem stored listTotal s.table with
      | some result => s.goTo w (.finished (some result))
      | none => s.goTo w (.inserting listTotal countedAt s.table.length)
  | .inserting _ _ _ =>
      goTo { s with table := s.table ++ [(who w).row stored] } w (.finished (some 0))
  | .finished _ => s

/-- One step. -/
def step (s : State ι) (e : Statement ι) : State ι :=
  if e.ok then s.query stored who e.w
  else match s.req e.w with
    | .start | .inserting _ _ _ => s.goTo e.w (.finished none)
    | .counted _ _ => s.goTo e.w (.finished (who e.w).checkArgs)
    | .finished _ => s

end State

/-! ## What is to hold -/

/-- Every address is in one row of a user at most, and no list has more than its maximum. -/
structure Consistent (table : List Row) : Prop where
  unique : table.Pairwise fun r r' =>
    ¬ (r.user = r'.user ∧ r.domain = r'.domain ∧ r.email = r'.email)
  capped : ∀ user domain type, IsList type →
    table.countP (Row.isIn user domain type) ≤ quarantineWhitelistMax

/-- `is_user_whitelist`, for receivers that are split into user and domain. -/
def isUserWhitelist (table : List Row) (type : ℤ) (sender : Bytes)
    (receivers : List (Bytes × Bytes)) : Bool :=
  receivers.any fun receiver =>
    0 < table.countP fun r => r.isFor receiver.1 receiver.2 sender && r.type = type

/-- What a request needs to find when it comes to its `INSERT`: nobody has inserted the same address
for the user since it looked for it; and either it has counted the list to which it adds, and nobody
has added to the list since, or there is room in the list all the same. -/
def Request.Unraced (r : Request) (table : List Row) : Phase → Prop
  | .inserting _ countedAt selectedAt =>
      (∀ row ∈ table.drop selectedAt, ¬ r.isSame stored row = true) ∧
      ((r.listType = quarantineAllList ∨ r.listType = r.addtype) ∧
          (∀ row ∈ table.drop countedAt, ¬ r.isAdded stored row = true) ∨
        table.countP (r.isAdded stored) < quarantineWhitelistMax)
  | _ => True

instance (r : Request) (table : List Row) : ∀ phase, Decidable (r.Unraced stored table phase)
  | .inserting _ _ _ => inferInstanceAs (Decidable (_ ∧ _))
  | .start | .counted _ _ | .finished _ => .isTrue trivial

/-- A statement that succeeds finds what it needs. -/
def Careful {ι : Type*} (who : ι → Request) (s : State ι) (e : Statement ι) : Prop :=
  e.ok = true → (who e.w).Unraced stored s.table (s.req e.w)

instance {ι : Type*} (who : ι → Request) (s : State ι) (e : Statement ι) :
    Decidable (Careful stored who s e) :=
  inferInstanceAs (Decidable (_ → _))

/-! ## Consistent tables -/

theorem Consistent.sublist {table table' : List Row} (h : Consistent table)
    (hsub : table'.Sublist table) : Consistent table' :=
  ⟨h.unique.sublist hsub, fun user domain type htype =>
    (hsub.countP_le).trans (h.capped user domain type htype)⟩

theorem isFor_iff {user domain email : Bytes} {r : Row} :
    r.isFor user domain email = true ↔ r.user = user ∧ r.domain = domain ∧ r.email = email := by
  simp only [Row.isFor, Bool.and_eq_true, decide_eq_true_eq, and_assoc]

theorem isIn_iff {user domain : Bytes} {type : ℤ} {r : Row} :
    r.isIn user domain type = true ↔ (r.user = user ∧ r.domain = domain) ∧ r.type = type := by
  simp only [Row.isIn, Row.isOf, Bool.and_eq_true, decide_eq_true_eq]

theorem isUserWhitelist_singleton {table : List Row} {type : ℤ} {sender : Bytes}
    {receiver : Bytes × Bytes} :
    isUserWhitelist table type sender [receiver] = true ↔
      ∃ r ∈ table, r.isFor receiver.1 receiver.2 sender = true ∧ r.type = type := by
  simp only [isUserWhitelist, List.any_cons, List.any_nil, Bool.or_false, decide_eq_true_eq,
    List.countP_pos_iff, Bool.and_eq_true]

/-- The filter does not find a sender in both lists of a receiver. -/
theorem Consistent.not_in_both {table : List Row} (h : Consistent table) {sender : Bytes}
    {receiver : Bytes × Bytes}
    (hwhite : isUserWhitelist table quarantineWhileList sender [receiver] = true) :
    isUserWhitelist table quarantineBlackList sender [receiver] = false := by
  refine eq_false_of_ne_true fun hblack => ?_
  obtain ⟨r, hr, hfor, htype⟩ := isUserWhitelist_singleton.1 hwhite
  obtain ⟨r', hr', hfor', htype'⟩ := isUserWhitelist_singleton.1 hblack
  obtain ⟨huser, hdomain, hemail⟩ := isFor_iff.1 hfor
  obtain ⟨huser', hdomain', hemail'⟩ := isFor_iff.1 hfor'
  have hne : r ≠ r' := by
    rintro rfl
    rw [htype] at htype'
    exact absurd htype' (by decide)
  have : Std.Symm fun r r' : Row =>
      ¬ (r.user = r'.user ∧ r.domain = r'.domain ∧ r.email = r'.email) :=
    ⟨fun _ _ hnot heq => hnot ⟨heq.1.symm, heq.2.1.symm, heq.2.2.symm⟩⟩
  exact h.unique.forall hr hr' hne
    ⟨huser.trans huser'.symm, hdomain.trans hdomain'.symm, hemail.trans hemail'.symm⟩

/-- A row goes in. -/
theorem consistent_concat {table : List Row} {row : Row} (htype : IsList row.type) :
    Consistent (table ++ [row]) ↔ Consistent table ∧
      (∀ r ∈ table, ¬ r.isFor row.user row.domain row.email = true) ∧
      table.countP (Row.isIn row.user row.domain row.type) < quarantineWhitelistMax := by
  constructor
  · intro h
    refine ⟨h.sublist (List.sublist_append_left ..), fun r hr hfor => ?_, ?_⟩
    · have hpair := (List.pairwise_append.1 h.unique).2.2 r hr row (List.mem_singleton_self _)
      exact hpair (isFor_iff.1 hfor)
    · have hcount := h.capped row.user row.domain row.type htype
      rwa [List.countP_append, List.countP_singleton, if_pos (isIn_iff.2 ⟨⟨rfl, rfl⟩, rfl⟩)]
        at hcount
  · rintro ⟨h, hfor, hroom⟩
    refine ⟨List.pairwise_append.2 ⟨h.unique, List.pairwise_singleton ..,
      fun r hr r' hr' heq => ?_⟩, fun user domain type hlist => ?_⟩
    · rw [List.mem_singleton.1 hr'] at heq
      exact hfor r hr (isFor_iff.2 heq)
    · rw [List.countP_append, List.countP_singleton]
      split_ifs with hin
      · obtain ⟨⟨rfl, rfl⟩, rfl⟩ := isIn_iff.1 hin
        exact hroom
      · exact h.capped user domain type hlist

/-! ## Requests -/

section Steps

variable {stored : Bytes → Bytes} {r : Request}

/-- What a list holds is counted with it. -/
theorem countP_isAdded_le (h : r.listType = quarantineAllList ∨ r.listType = r.addtype)
    (table : List Row) :
    table.countP (r.isAdded stored) ≤ r.initWhiteList stored table := by
  refine List.countP_mono_left fun row _ hrow => ?_
  obtain ⟨hof, hadd⟩ := isIn_iff.1 hrow
  unfold Request.listType at h
  unfold Request.counts
  split_ifs at h ⊢ with hlist
  · rcases h with hall | hsame
    · rw [hall] at hlist
      exact absurd hlist (by decide)
    · exact isIn_iff.2 ⟨hof, hadd.trans hsame.symm⟩
  · simpa only [Row.isOf, Bool.and_eq_true, decide_eq_true_eq] using hof

/-- What a request knows of the table. -/
def Known (stored : Bytes → Bytes) (r : Request) (table : List Row) : Phase → Prop
  | .counted listTotal countedAt =>
      countedAt ≤ table.length ∧ listTotal = r.initWhiteList stored (table.take countedAt)
  | .inserting listTotal countedAt selectedAt =>
      (countedAt ≤ table.length ∧ listTotal = r.initWhiteList stored (table.take countedAt)) ∧
        (selectedAt ≤ table.length ∧ ∀ row ∈ table.take selectedAt, ¬ r.isSame stored row = true) ∧
        IsList r.addtype ∧ listTotal < quarantineWhitelistMax
  | _ => True

theorem checkItem_eq_none {listTotal : ℕ} {table : List Row}
    (h : r.checkItem stored listTotal table = none) :
    IsList r.addtype ∧ (∀ row ∈ table, ¬ r.isSame stored row = true) ∧
      listTotal < quarantineWhitelistMax := by
  unfold Request.checkItem at h
  split at h
  · cases h
  · rename_i hargs
    unfold Request.checkArgs at hargs
    split_ifs at hargs with hlist haddr
    split_ifs at h with hcount hmax
    refine ⟨hlist, fun row hrow hsame => hcount (List.countP_pos_iff.2 ⟨row, hrow, hsame⟩), ?_⟩
    omega

theorem Known.append {table : List Row} {phase : Phase} (h : Known stored r table phase)
    (rows : List Row) : Known stored r (table ++ rows) phase := by
  have htake : ∀ n ≤ table.length, (table ++ rows).take n = table.take n := fun n hn =>
    List.take_append_of_le_length hn
  have hlength : table.length ≤ (table ++ rows).length := by
    rw [List.length_append]
    omega
  cases phase with
  | start | finished => trivial
  | counted listTotal countedAt => exact ⟨h.1.trans hlength, by rw [htake _ h.1, h.2]⟩
  | inserting listTotal countedAt selectedAt =>
    obtain ⟨hcounted, hselected, hrest⟩ := h
    exact ⟨⟨hcounted.1.trans hlength, by rw [htake _ hcounted.1, hcounted.2]⟩,
      ⟨hselected.1.trans hlength, by rw [htake _ hselected.1]; exact hselected.2⟩, hrest⟩

variable {ι : Type*} [DecidableEq ι] {who : ι → Request} {s : State ι}

/-- The table is consistent, and what the requests know is so. -/
structure Inv (stored : Bytes → Bytes) (who : ι → Request) (s : State ι) : Prop where
  consistent : Consistent s.table
  known : ∀ w, Known stored (who w) s.table (s.req w)

theorem goTo_req_self {w : ι} {phase : Phase} : (s.goTo w phase).req w = phase :=
  Function.update_self ..

theorem goTo_req_of_ne {w w' : ι} {phase : Phase} (h : w' ≠ w) :
    (s.goTo w phase).req w' = s.req w' :=
  Function.update_of_ne h ..

theorem Inv.goTo (h : Inv stored who s) {w : ι} {phase : Phase}
    (hknown : Known stored (who w) s.table phase) : Inv stored who (s.goTo w phase) := by
  exact ⟨h.consistent, forall_of_frame (P := fun w' phase => Known stored (who w') s.table phase)
    goTo_req_self (fun _ hw => goTo_req_of_ne hw) hknown fun w' _ => h.known w'⟩

/-- What a careful `INSERT` finds. -/
theorem Known.insertable {table : List Row} {listTotal countedAt selectedAt : ℕ}
    (h : Known stored r table (.inserting listTotal countedAt selectedAt))
    (hunraced : r.Unraced stored table (.inserting listTotal countedAt selectedAt)) :
    (∀ row ∈ table, ¬ r.isSame stored row = true) ∧
      table.countP (r.isAdded stored) < quarantineWhitelistMax := by
  obtain ⟨hcounted, hselected, htype, hmax⟩ := h
  obtain ⟨hsame, hroom⟩ := hunraced
  constructor
  · intro row hrow
    rw [← List.take_append_drop selectedAt table, List.mem_append] at hrow
    exact hrow.elim (hselected.2 row) (hsame row)
  · rcases hroom with ⟨hlist, hnone⟩ | hroom
    · calc table.countP (r.isAdded stored)
          = (table.take countedAt).countP (r.isAdded stored) +
              (table.drop countedAt).countP (r.isAdded stored) := by
            rw [← List.countP_append, List.take_append_drop]
        _ = (table.take countedAt).countP (r.isAdded stored) := by
            rw [List.countP_eq_zero.2 hnone, Nat.add_zero]
        _ ≤ r.initWhiteList stored (table.take countedAt) := countP_isAdded_le hlist _
        _ < quarantineWhitelistMax := hcounted.2 ▸ hmax
    · exact hroom

/-- A careful step keeps the table consistent. -/
theorem inv_step (h : Inv stored who s) {e : Statement ι} (hok : Careful stored who s e) :
    Inv stored who (s.step stored who e) := by
  have hknown := h.known e.w
  unfold State.step
  split
  · rename_i he
    unfold State.query
    cases hw : s.req e.w with
    | start => exact h.goTo ⟨Nat.le_refl _, by rw [List.take_length]⟩
    | counted listTotal countedAt =>
      rw [hw] at hknown
      simp only
      split
      · exact h.goTo trivial
      · rename_i hnone
        obtain ⟨htype, hsame, hmax⟩ := checkItem_eq_none hnone
        exact h.goTo ⟨hknown, ⟨Nat.le_refl _, by rwa [List.take_length]⟩, htype, hmax⟩
    | inserting listTotal countedAt selectedAt =>
      have hunraced := hok he
      rw [hw] at hknown hunraced
      obtain ⟨hsame, hroom⟩ := hknown.insertable hunraced
      have hinv : Inv stored who { s with table := s.table ++ [(who e.w).row stored] } :=
        ⟨(consistent_concat hknown.2.2.1).2 ⟨h.consistent, hsame, hroom⟩,
          fun w => (h.known w).append _⟩
      exact hinv.goTo trivial
    | finished => exact h
  · split
    · exact h.goTo trivial
    · exact h.goTo trivial
    · exact h.goTo trivial
    · exact h

/-- A step that is not careful spoils the table. -/
theorem careful_of_consistent (h : Inv stored who s) {e : Statement ι}
    (hstep : Consistent (s.step stored who e).table) : Careful stored who s e := by
  intro he
  have hknown := h.known e.w
  cases hw : s.req e.w with
  | inserting listTotal countedAt selectedAt =>
    rw [hw] at hknown
    rw [State.step, if_pos he, State.query, hw] at hstep
    obtain ⟨-, hsame, hroom⟩ := (consistent_concat hknown.2.2.1).1 hstep
    exact ⟨fun row hrow => hsame row (List.mem_of_mem_drop hrow), Or.inr hroom⟩
  | _ => trivial

/-- The requests before their first statements. -/
def State.init (table : List Row) : State ι := { table := table }

omit [DecidableEq ι] in
theorem inv_init {table : List Row} (h : Consistent table) :
    Inv stored who (State.init table) := ⟨h, fun _ => trivial⟩

/-- **The lists stay consistent** in every state of a run if and only if every `INSERT` of the run
is careful. -/
theorem consistent_iff (stored : Bytes → Bytes) (who : ι → Request) {table : List Row}
    (h : Consistent table) (es : List (Statement ι)) :
    (∀ es', es' <+: es →
      Consistent (run (State.step stored who) (State.init table) es').table) ↔
    Meets (State.step stored who) (Careful stored who) (State.init table) es :=
  forall_prefix_iff_meets (I := Inv stored who) (P := fun s => Consistent s.table)
    (fun _ h => h.consistent) (fun _ _ h hok => inv_step h hok)
    (fun _ _ h hstep => careful_of_consistent h hstep) (inv_init h)

end Steps

/-! ## Two requests -/

section TwoRequests

theorem consistent_nil : Consistent [] := ⟨.nil, fun _ _ _ _ => Nat.zero_le _⟩

/-- A user adds one address to the white list and one to the black list. -/
def twoRequests (email email' : Bytes) : Fin 2 → Request
  | 0 => ⟨bytes "joe", bytes "example.com", 0, email, quarantineWhileList⟩
  | 1 => ⟨bytes "joe", bytes "example.com", 0, email', quarantineBlackList⟩

/-- Each request looks before the other inserts. -/
def together : List (Statement (Fin 2)) :=
  [⟨0, true⟩, ⟨1, true⟩, ⟨0, true⟩, ⟨1, true⟩, ⟨0, true⟩, ⟨1, true⟩]

theorem consistent_two_addresses :
    Consistent (run (State.step id
      (twoRequests (bytes "ann@example.org") (bytes "bob@example.org"))) (State.init [])
        together).table :=
  (consistent_iff id (twoRequests (bytes "ann@example.org") (bytes "bob@example.org"))
    consistent_nil together).2 (by decide +kernel) together List.prefix_rfl

/-- The same address gets into both lists. -/
theorem not_consistent_both_lists :
    Consistent [] ∧ ¬ Consistent (run (State.step id
      (twoRequests (bytes "ann@example.org") (bytes "ann@example.org"))) (State.init [])
        together).table := by
  refine ⟨consistent_nil, fun h => ?_⟩
  have hunique := h.unique
  revert hunique
  decide +kernel

end TwoRequests

end Requests

end NoSpam.EmailUser
