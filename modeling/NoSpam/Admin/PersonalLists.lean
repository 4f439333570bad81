import NoSpam.Admin.EmailUser

/-!
# Whose requests change whose lists

The white and black lists of all users are in one table, with an `AutoID` in each row by which a
user deletes it.  The database numbers the rows of all users in one row.  The requests that add a
row run their statements between those of others.  But for the `AutoID`, what a request does, what
its page shows and what the filter answers for a receiver depend on the requests of that user alone:
the others might as well not have been made (`isolated`).
-/

namespace NoSpam.EmailUser

open Text Php Machine

/-! ## The table with its `AutoID` -/

/-- The rows with their `AutoID`, and the requests that add. -/
structure Lists (ι : Type*) where
  rows : List (ℕ × Row)
  req : ι → Phase := fun _ => .start

/-- The table without `AutoID`. -/
def Lists.state {ι : Type*} (s : Lists ι) : State ι := ⟨s.rows.map Prod.snd, s.req⟩

/-- The `AutoID` of the next row, `INTEGER PRIMARY KEY`: one more than the largest in the table. -/
def Lists.nextID {ι : Type*} (s : Lists ι) : ℕ := (s.rows.map Prod.fst).foldr max 0 + 1

/-- The next statement of a request that adds; or the `DELETE` of `delItemFromList`, and whether it
succeeds. -/
inductive Event (ι : Type*)
  | add (statement : Statement ι)
  | del (user domain id : Bytes) (ok : Bool)

/-- The `INSERT` is next. -/
def Phase.inserts : Phase → Bool
  | .inserting _ _ _ => true
  | _ => false

/-- `getWhiteList`: the rows of a page, in the order of the table. -/
def getWhiteList (user domain : Bytes) (listType : ℤ) (listTotal : ℕ) (start num : ℤ)
    (rows : List (ℕ × Row)) : List (ℕ × Row) :=
  if listTotal = 0 then []
  else
    let first := (if start < 1 ∨ (listTotal : ℤ) < start then 1 else start) - 1
    let limit := if num < 0 ∨ (listTotal : ℤ) < first + num then (listTotal : ℤ) else num
    let mine := rows.filter fun r =>
      if IsList listType then r.2.isIn user domain listType else r.2.isOf user domain
    (mine.drop first.toNat).take limit.toNat

section Lists

variable {ι : Type*} [DecidableEq ι] (stored : Bytes → Bytes) (who : ι → Request)

/-- The row that a statement inserts. -/
def inserted (s : State ι) (st : Statement ι) : Option Row :=
  if st.ok && (s.req st.w).inserts then some ((who st.w).row stored) else none

/-- `delItemFromList`: the row has this `AutoID`, which is not zero. -/
def isNamed (id : Bytes) (r : ℕ × Row) : Bool := long id ≠ 0 && (r.1 : ℤ) = long id

/-- One statement. -/
def Lists.step (s : Lists ι) : Event ι → Lists ι
  | .add st =>
      { rows := s.rows ++ ((inserted stored who s.state st).map (s.nextID, ·)).toList
        req := (s.state.step stored who st).req }
  | .del user domain id ok =>
      if ok then
        { s with
          rows := s.rows.filter fun r =>
            !(r.2.isOf (stored user) (stored domain) && isNamed id r) }
      else s

/-- The user who is logged in. -/
def Request.owner (r : Request) : Bytes × Bytes := (stored r.user, stored r.domain)

/-- Whose event it is. -/
def Event.owner : Event ι → Bytes × Bytes
  | .add st => (who st.w).owner stored
  | .del user domain _ _ => (stored user, stored domain)

end Lists

/-- A statement puts at most one row at the end of the table. -/
theorem table_step {ι : Type*} [DecidableEq ι] {stored : Bytes → Bytes} {who : ι → Request}
    (s : State ι) (st : Statement ι) :
    (s.step stored who st).table = s.table ++ (inserted stored who s st).toList := by
  rw [inserted, State.step]
  cases hok : st.ok with
  | false => cases hreq : s.req st.w <;> simp [State.goTo]
  | true =>
    rw [State.query]
    cases hreq : s.req st.w with
    | start => simp [Phase.inserts, State.goTo]
    | counted listTotal countedAt =>
      simp only [Phase.inserts, if_true]
      cases (who st.w).checkItem stored listTotal s.table <;> simp [State.goTo]
    | inserting listTotal countedAt selectedAt => simp [Phase.inserts, State.goTo]
    | finished result => simp [Phase.inserts]

/-- Without `AutoID` the statements are those of the requests that add. -/
theorem state_step_add {ι : Type*} [DecidableEq ι] {stored : Bytes → Bytes} {who : ι → Request}
    (s : Lists ι) (st : Statement ι) :
    (s.step stored who (.add st)).state = s.state.step stored who st := by
  have htable : (s.step stored who (.add st)).state.table = (s.state.step stored who st).table := by
    rw [table_step, Lists.state, Lists.step, List.map_append]
    cases inserted stored who s.state st <;> rfl
  exact congrArg (State.mk · (s.state.step stored who st).req) htable

/-! ## What some users see -/

section Seen

variable {stored : Bytes → Bytes} {P : Bytes × Bytes → Bool}

/-- The row belongs to one of the users. -/
def Row.ownedBy (P : Bytes × Bytes → Bool) (row : Row) : Bool := P (row.user, row.domain)

/-- Where a request is, without the lengths that the program does not keep. -/
def Phase.seen : Phase → Phase
  | .start => .start
  | .counted listTotal _ => .counted listTotal 0
  | .inserting listTotal _ _ => .inserting listTotal 0 0
  | .finished result => .finished result

/-- The next phase of a request, from the rows of some users, its own among them. -/
def nextSeen (stored : Bytes → Bytes) (r : Request) (ok : Bool) (own : List Row) : Phase → Phase
  | .start => if ok then .counted (r.initWhiteList stored own) 0 else .finished none
  | .counted listTotal _ =>
      if ok then
        match r.checkItem stored listTotal own with
        | some result => .finished (some result)
        | none => .inserting listTotal 0 0
      else .finished r.checkArgs
  | .inserting _ _ _ => .finished (if ok then some 0 else none)
  | .finished result => .finished result

@[simp] theorem inserts_seen (p : Phase) : p.seen.inserts = p.inserts := by
  cases p <;> rfl

theorem ownedBy_of_isOf {user domain : Bytes} {row : Row} (hP : P (user, domain) = true)
    (h : row.isOf user domain = true) : row.ownedBy P = true := by
  simp only [Row.isOf, Bool.and_eq_true, decide_eq_true_eq] at h
  rw [Row.ownedBy, h.1, h.2]
  exact hP

/-- Rows of one of the users are counted among the rows of the users. -/
theorem countP_filter_ownedBy {p : Row → Bool} (h : ∀ row, p row = true → row.ownedBy P = true)
    (table : List Row) : (table.filter (Row.ownedBy P)).countP p = table.countP p := by
  rw [List.countP_filter]
  apply List.countP_congr
  intro row _
  rw [Bool.and_eq_true]
  exact ⟨And.left, fun hp => ⟨hp, h row hp⟩⟩

variable {r : Request}

theorem initWhiteList_filter (hP : P (r.owner stored) = true) (table : List Row) :
    r.initWhiteList stored (table.filter (Row.ownedBy P)) = r.initWhiteList stored table := by
  apply countP_filter_ownedBy
  intro row hrow
  rw [Request.counts] at hrow
  split_ifs at hrow
  · rw [Row.isIn, Bool.and_eq_true] at hrow
    exact ownedBy_of_isOf hP hrow.1
  · exact ownedBy_of_isOf hP hrow

theorem checkItem_filter (hP : P (r.owner stored) = true) (listTotal : ℕ) (table : List Row) :
    r.checkItem stored listTotal (table.filter (Row.ownedBy P)) =
      r.checkItem stored listTotal table := by
  have hcount : (table.filter (Row.ownedBy P)).countP (r.isSame stored) =
      table.countP (r.isSame stored) := by
    apply countP_filter_ownedBy
    intro row hrow
    obtain ⟨huser, hdomain, -⟩ := isFor_iff.1 hrow
    rw [Row.ownedBy, huser, hdomain]
    exact hP
  rw [Request.checkItem, Request.checkItem, hcount]

variable {ι : Type*}

/-- The rows of the users. -/
def ownRows (P : Bytes × Bytes → Bool) (s : Lists ι) : List (ℕ × Row) :=
  s.rows.filter fun r => r.2.ownedBy P

theorem table_filter (s : Lists ι) :
    s.state.table.filter (Row.ownedBy P) = (ownRows P s).map Prod.snd := by
  rw [Lists.state, List.filter_map]
  rfl

theorem isUserWhitelist_filter {receivers : List (Bytes × Bytes)}
    (h : ∀ receiver ∈ receivers, P receiver = true) (table : List Row) (type : ℤ)
    (sender : Bytes) :
    isUserWhitelist (table.filter (Row.ownedBy P)) type sender receivers =
      isUserWhitelist table type sender receivers := by
  have hcount : ∀ receiver ∈ receivers,
      (table.filter (Row.ownedBy P)).countP
          (fun r => r.isFor receiver.1 receiver.2 sender && r.type = type) =
        table.countP fun r => r.isFor receiver.1 receiver.2 sender && r.type = type := by
    intro receiver hreceiver
    apply countP_filter_ownedBy
    intro row hrow
    rw [Bool.and_eq_true] at hrow
    obtain ⟨huser, hdomain, -⟩ := isFor_iff.1 hrow.1
    rw [Row.ownedBy, huser, hdomain]
    exact h receiver hreceiver
  rw [isUserWhitelist, isUserWhitelist, Bool.eq_iff_iff, List.any_eq_true, List.any_eq_true]
  constructor
  · rintro ⟨receiver, hreceiver, hpos⟩
    exact ⟨receiver, hreceiver, by rwa [hcount receiver hreceiver] at hpos⟩
  · rintro ⟨receiver, hreceiver, hpos⟩
    exact ⟨receiver, hreceiver, by rwa [hcount receiver hreceiver]⟩

theorem getWhiteList_filter {user domain : Bytes} (hP : P (user, domain) = true) (listType : ℤ)
    (listTotal : ℕ) (start num : ℤ) (s : Lists ι) :
    getWhiteList user domain listType listTotal start num (ownRows P s) =
      getWhiteList user domain listType listTotal start num s.rows := by
  have hmine : ((ownRows P s).filter fun r =>
      if IsList listType then r.2.isIn user domain listType else r.2.isOf user domain) =
        s.rows.filter fun r =>
          if IsList listType then r.2.isIn user domain listType else r.2.isOf user domain := by
    rw [ownRows, List.filter_filter]
    apply List.filter_congr
    intro r _
    have howned (hof : r.2.isOf user domain = true) : r.2.ownedBy P = true := ownedBy_of_isOf hP hof
    split_ifs
    · cases hin : r.2.isIn user domain listType with
      | false => rfl
      | true =>
        rw [Row.isIn, Bool.and_eq_true] at hin
        rw [howned hin.1, Bool.and_true]
    · cases hof : r.2.isOf user domain with
      | false => rfl
      | true => rw [howned hof, Bool.and_true]
  rw [getWhiteList, getWhiteList, hmine]

/-- But for the `AutoID`, a page shows the rows without it. -/
theorem map_getWhiteList (user domain : Bytes) (listType : ℤ) (listTotal : ℕ) (start num : ℤ)
    (rows : List (ℕ × Row)) :
    (getWhiteList user domain listType listTotal start num rows).map Prod.snd =
      (getWhiteList user domain listType listTotal start num
        ((rows.map Prod.snd).map (0, ·))).map Prod.snd := by
  rw [getWhiteList, getWhiteList]
  split_ifs
  · rfl
  all_goals
    simp only [List.map_take, List.map_drop, List.map_map, List.filter_map]
    rfl

theorem map_getWhiteList_congr {rows rows' : List (ℕ × Row)}
    (h : rows.map Prod.snd = rows'.map Prod.snd) (user domain : Bytes) (listType : ℤ)
    (listTotal : ℕ) (start num : ℤ) :
    (getWhiteList user domain listType listTotal start num rows).map Prod.snd =
      (getWhiteList user domain listType listTotal start num rows').map Prod.snd := by
  rw [map_getWhiteList, h, ← map_getWhiteList]

theorem foldr_max_le_iff {l : List ℕ} {n : ℕ} : l.foldr max 0 ≤ n ↔ ∀ a ∈ l, a ≤ n := by
  induction l with
  | nil => simp
  | cons a l ih => rw [List.foldr_cons, max_le_iff, ih, List.forall_mem_cons]

theorem nextID_le_iff {s : Lists ι} {n : ℕ} : s.nextID ≤ n + 1 ↔ ∀ r ∈ s.rows, r.1 ≤ n := by
  rw [Lists.nextID, Nat.add_le_add_iff_right, foldr_max_le_iff, List.forall_mem_map]

/-- Different rows have different positive numbers, and so many more fit into an integer. -/
structure Numbered (more : ℕ) (s : Lists ι) : Prop where
  nodup : (s.rows.map Prod.fst).Nodup
  pos : ∀ r ∈ s.rows, 0 < r.1
  room : s.nextID + more ≤ 2 ^ 31

theorem Numbered.mono {s : Lists ι} {more : ℕ} (h : Numbered (more + 1) s) : Numbered more s :=
  ⟨h.nodup, h.pos, by have hroom := h.room; omega⟩

theorem Numbered.insert {s : Lists ι} {more : ℕ} (h : Numbered (more + 1) s) (row : Row)
    (req : ι → Phase) : Numbered more { rows := s.rows ++ [(s.nextID, row)], req := req } := by
  have hlt : ∀ r ∈ s.rows, r.1 ≤ s.nextID - 1 := nextID_le_iff.1 (Nat.le_refl _)
  have hnextID : 0 < s.nextID := Nat.succ_pos _
  refine ⟨?_, fun r hr => ?_, ?_⟩
  · rw [List.map_append, List.map_singleton, List.nodup_append]
    refine ⟨h.nodup, List.nodup_singleton _, ?_⟩
    rintro _ hmem _ hnew rfl
    obtain ⟨r, hr, heq⟩ := List.mem_map.1 hmem
    rw [List.mem_singleton.1 hnew] at heq
    have hle := hlt r hr
    omega
  · rcases List.mem_append.1 hr with hr | hr
    · exact h.pos r hr
    · rw [List.mem_singleton.1 hr]
      exact hnextID
  · have hnext : Lists.nextID { rows := s.rows ++ [(s.nextID, row)], req := req } ≤
        s.nextID + 1 := by
      refine nextID_le_iff.2 fun r hr => ?_
      rcases List.mem_append.1 hr with hr | hr
      · exact (hlt r hr).trans (Nat.sub_le _ _)
      · rw [List.mem_singleton.1 hr]
    have hroom := h.room
    omega

theorem Numbered.filter {s : Lists ι} {more : ℕ} (h : Numbered more s) (p : ℕ × Row → Bool) :
    Numbered more { s with rows := s.rows.filter p } := by
  have hlt : ∀ r ∈ s.rows, r.1 ≤ s.nextID - 1 := nextID_le_iff.1 (Nat.le_refl _)
  have hnextID : 0 < s.nextID := Nat.succ_pos _
  refine ⟨(List.filter_sublist.map Prod.fst).nodup h.nodup,
    fun r hr => h.pos r (List.mem_of_mem_filter hr), ?_⟩
  have hnext : Lists.nextID { s with rows := s.rows.filter p } ≤ s.nextID - 1 + 1 :=
    nextID_le_iff.2 fun r hr => hlt r (List.mem_of_mem_filter hr)
  have hroom := h.room
  omega

theorem Numbered.lt {s : Lists ι} {more : ℕ} (h : Numbered more s) {r : ℕ × Row}
    (hr : r ∈ s.rows) : r.1 < 2 ^ 31 := by
  have hle : r.1 ≤ s.nextID - 1 := nextID_le_iff.1 (Nat.le_refl _) r hr
  have hnextID : 0 < s.nextID := Nat.succ_pos _
  have hroom := h.room
  omega

/-- A row of the users is in one place. -/
theorem Numbered.place {s : Lists ι} {more i k : ℕ} (h : Numbered more s)
    (hi : i < (ownRows P s).length) (hk : k < (ownRows P s).length) :
    (ownRows P s)[i].1 = (ownRows P s)[k].1 ↔ i = k := by
  have hnodup : ((ownRows P s).map Prod.fst).Nodup :=
    (List.filter_sublist.map Prod.fst).nodup h.nodup
  have hinj := @List.Nodup.getElem_inj_iff _ _ hnodup i (by simpa using hi) k (by simpa using hk)
  simpa using hinj

variable [DecidableEq ι] {who : ι → Request}

/-- A statement of a request looks at the rows of its user only. -/
theorem seen_step (s : State ι) (st : Statement ι) (hP : P ((who st.w).owner stored) = true) :
    ((s.step stored who st).req st.w).seen =
      nextSeen stored (who st.w) st.ok (s.table.filter (Row.ownedBy P)) (s.req st.w).seen := by
  rw [State.step]
  cases hok : st.ok with
  | false =>
    rw [if_neg Bool.false_ne_true]
    cases hreq : s.req st.w with
    | start => exact congrArg Phase.seen goTo_req_self
    | counted listTotal countedAt => exact congrArg Phase.seen goTo_req_self
    | inserting listTotal countedAt selectedAt => exact congrArg Phase.seen goTo_req_self
    | finished result => exact congrArg Phase.seen hreq
  | true =>
    rw [if_pos rfl, State.query]
    cases hreq : s.req st.w with
    | start => simp [Phase.seen, nextSeen, goTo_req_self, initWhiteList_filter hP]
    | counted listTotal countedAt =>
      simp only [Phase.seen, nextSeen, checkItem_filter hP, if_true]
      cases (who st.w).checkItem stored listTotal s.table <;> simp [goTo_req_self]
    | inserting listTotal countedAt selectedAt =>
      simp [Phase.seen, nextSeen, State.goTo]
    | finished result => simp [Phase.seen, nextSeen, hreq]

/-- A statement leaves the other requests where they are. -/
theorem req_step_of_ne (s : State ι) (st : Statement ι) {w : ι} (hw : w ≠ st.w) :
    (s.step stored who st).req w = s.req w := by
  rw [State.step]
  split_ifs
  · rw [State.query]
    cases hreq : s.req st.w with
    | start => exact goTo_req_of_ne hw
    | counted listTotal countedAt =>
      simp only
      split <;> exact goTo_req_of_ne hw
    | inserting listTotal countedAt selectedAt => exact goTo_req_of_ne hw
    | finished result => rfl
  · cases hreq : s.req st.w <;> first | exact goTo_req_of_ne hw | rfl

/-- The users see the same in both states, but for the `AutoID`. -/
structure Alike (stored : Bytes → Bytes) (who : ι → Request) (P : Bytes × Bytes → Bool)
    (s t : Lists ι) : Prop where
  rows : s.state.table.filter (Row.ownedBy P) = t.state.table.filter (Row.ownedBy P)
  req : ∀ w, P ((who w).owner stored) = true → (s.req w).seen = (t.req w).seen

/-- The rows of the users, with whether a deletion names them. -/
def places (P : Bytes × Bytes → Bool) (s : Lists ι) (id : Bytes) : List Bool :=
  (ownRows P s).map (isNamed id)

/-- The rows of the users after a deletion, from their rows before it and the places that it
names. -/
theorem table_step_del (s : Lists ι) (user domain id : Bytes) :
    (s.step stored who (.del user domain id true)).state.table.filter (Row.ownedBy P) =
      (((s.state.table.filter (Row.ownedBy P)).zip (places P s id)).filter fun r =>
        !(r.1.isOf (stored user) (stored domain) && r.2)).map Prod.fst := by
  rw [table_filter, table_filter, places, List.zip_map', List.filter_map, List.map_map, Lists.step,
    if_pos rfl, ownRows, List.filter_comm]
  rfl

/-- An event of another user changes nothing that the users see. -/
theorem alike_step_of_other {s t : Lists ι} (h : Alike stored who P s t) {e : Event ι}
    (hP : P (e.owner stored who) = false) : Alike stored who P (s.step stored who e) t := by
  cases e with
  | add st =>
    have hst : P ((who st.w).owner stored) = false := hP
    refine ⟨?_, fun w hw => ?_⟩
    · have hrow : ((who st.w).row stored).ownedBy P = false := hst
      rw [state_step_add, table_step, List.filter_append, h.rows, inserted]
      split_ifs <;> simp [hrow]
    · have hne : w ≠ st.w := by
        rintro rfl
        rw [hst] at hw
        cases hw
      rw [← h.req w hw, Lists.step]
      exact congrArg Phase.seen (req_step_of_ne s.state st hne)
  | del user domain id ok =>
    cases ok with
    | false => exact h
    | true =>
      refine ⟨?_, h.req⟩
      rw [← h.rows, table_filter, table_filter, Lists.step, if_pos rfl, ownRows, List.filter_comm]
      congr 1
      apply List.filter_eq_self.2
      intro r hr
      have howned : r.2.ownedBy P = true := (List.mem_filter.1 hr).2
      have hnot : r.2.isOf (stored user) (stored domain) = false := by
        by_contra hof
        simp only [Bool.not_eq_false, Row.isOf, Bool.and_eq_true, decide_eq_true_eq] at hof
        rw [Row.ownedBy, hof.1, hof.2] at howned
        exact Bool.false_ne_true (hP.symm.trans howned)
      rw [hnot]
      rfl

/-- A statement of one of the users does the same in both states. -/
theorem alike_step_add {s t : Lists ι} (h : Alike stored who P s t) {st : Statement ι}
    (hP : P ((who st.w).owner stored) = true) :
    Alike stored who P (s.step stored who (.add st)) (t.step stored who (.add st)) := by
  have hinserted : inserted stored who s.state st = inserted stored who t.state st := by
    have hseen := congrArg Phase.inserts (h.req st.w hP)
    rw [inserts_seen, inserts_seen] at hseen
    rw [inserted, inserted, Lists.state, Lists.state]
    simp only [hseen]
  refine ⟨?_, fun w hw => ?_⟩
  · rw [state_step_add, state_step_add, table_step, table_step, List.filter_append,
      List.filter_append, h.rows, hinserted]
  · rw [Lists.step, Lists.step]
    by_cases hne : w = st.w
    · subst hne
      dsimp only
      rw [seen_step s.state st hP, seen_step t.state st hP, h.rows]
      exact congrArg _ (h.req st.w hP)
    · dsimp only
      rw [req_step_of_ne s.state st hne, req_step_of_ne t.state st hne]
      exact h.req w hw

/-- Deletions that name the same places do the same. -/
theorem alike_step_del {s t : Lists ι} (h : Alike stored who P s t) {user domain id id' : Bytes}
    {ok : Bool} (hplaces : places P s id = places P t id') :
    Alike stored who P (s.step stored who (.del user domain id ok))
      (t.step stored who (.del user domain id' ok)) := by
  cases ok with
  | false => exact h
  | true =>
    refine ⟨?_, h.req⟩
    rw [table_step_del, table_step_del, h.rows, hplaces]

/-! ## Whole runs -/

/-- The second run is the first without the events of the others: the users' requests run the same
statements, and their deletions name the rows in the same places, whatever their `AutoID` is. -/
inductive Alone (stored : Bytes → Bytes) (who : ι → Request) (P : Bytes × Bytes → Bool) :
    Lists ι → Lists ι → List (Event ι) → List (Event ι) → Prop
  | nil (s t : Lists ι) : Alone stored who P s t [] []
  | other {s t : Lists ι} {e : Event ι} {events own : List (Event ι)} :
      P (e.owner stored who) = false →
      Alone stored who P (s.step stored who e) t events own →
      Alone stored who P s t (e :: events) own
  | add {s t : Lists ι} {st : Statement ι} {events own : List (Event ι)} :
      P ((who st.w).owner stored) = true →
      Alone stored who P (s.step stored who (.add st)) (t.step stored who (.add st)) events own →
      Alone stored who P s t (.add st :: events) (.add st :: own)
  | del {s t : Lists ι} {user domain id id' : Bytes} {ok : Bool} {events own : List (Event ι)} :
      P (stored user, stored domain) = true →
      places P s id = places P t id' →
      Alone stored who P (s.step stored who (.del user domain id ok))
        (t.step stored who (.del user domain id' ok)) events own →
      Alone stored who P s t (.del user domain id ok :: events) (.del user domain id' ok :: own)

theorem alike_run {s t : Lists ι} {events own : List (Event ι)}
    (halone : Alone stored who P s t events own) (h : Alike stored who P s t) :
    Alike stored who P (run (Lists.step stored who) s events)
      (run (Lists.step stored who) t own) := by
  induction halone with
  | nil s t => exact h
  | other hP _ ih => exact ih (alike_step_of_other h hP)
  | add hP _ ih => exact ih (alike_step_add h hP)
  | del _ hplaces _ ih => exact ih (alike_step_del h hplaces)

/-- **The lists of a user are the user's own**: take any users, any run of the requests of
everybody, statement by statement in any order, and the run of their requests alone.  The filter
answers for their addresses, their pages show and their requests do and return just the same. -/
theorem isolated {s : Lists ι} {events own : List (Event ι)}
    (halone : Alone stored who P s s events own) :
    (∀ type sender receivers, (∀ receiver ∈ receivers, P receiver = true) →
      isUserWhitelist (run (Lists.step stored who) s events).state.table type sender receivers =
        isUserWhitelist (run (Lists.step stored who) s own).state.table type sender receivers) ∧
      (∀ user domain listType listTotal start num, P (user, domain) = true →
        (getWhiteList user domain listType listTotal start num
            (run (Lists.step stored who) s events).rows).map Prod.snd =
          (getWhiteList user domain listType listTotal start num
            (run (Lists.step stored who) s own).rows).map Prod.snd) ∧
      ∀ w, P ((who w).owner stored) = true →
        ((run (Lists.step stored who) s events).req w).seen =
          ((run (Lists.step stored who) s own).req w).seen := by
  have halike := alike_run halone ⟨rfl, fun _ _ => rfl⟩
  refine ⟨fun type sender receivers hreceivers => ?_,
    fun user domain listType listTotal start num hP => ?_, halike.req⟩
  · rw [← isUserWhitelist_filter hreceivers,
      ← isUserWhitelist_filter hreceivers (Lists.state _).table, halike.rows]
  · rw [← getWhiteList_filter hP, ← getWhiteList_filter hP]
    apply map_getWhiteList_congr
    rw [← table_filter, ← table_filter, halike.rows]

/-! ## The run of the users alone -/

theorem Numbered.step {s : Lists ι} {more : ℕ} (h : Numbered (more + 1) s) (e : Event ι) :
    Numbered more (s.step stored who e) := by
  cases e with
  | add st =>
    rw [Lists.step]
    cases inserted stored who s.state st with
    | none =>
      rw [Option.map_none, Option.toList_none, List.append_nil]
      exact ⟨h.nodup, h.pos, h.mono.room⟩
    | some row => exact h.insert row _
  | del user domain id ok =>
    rw [Lists.step]
    split_ifs
    · exact h.mono.filter _
    · exact h.mono

theorem isNamed_decimal {n : ℕ} (hpos : 0 < n) (hn : n < 2 ^ 31) (r : ℕ × Row) :
    isNamed (decimal n) r = decide (r.1 = n) := by
  rw [isNamed, long_decimal hn, Bool.eq_iff_iff]
  simp [hpos.ne']

omit [DecidableEq ι] in
/-- Every deletion has one that names the same places. -/
theorem exists_places {s t : Lists ι} {more : ℕ} (h : Alike stored who P s t)
    (hs : Numbered more s) (ht : Numbered more t) (id : Bytes) :
    ∃ id', places P s id = places P t id' := by
  have hlength : (ownRows P s).length = (ownRows P t).length := by
    have hrows := congrArg List.length h.rows
    rwa [table_filter, table_filter, List.length_map, List.length_map] at hrows
  by_cases hex : ∃ k, ∃ hk : k < (ownRows P s).length, isNamed id (ownRows P s)[k] = true
  · obtain ⟨k, hk, hnamed⟩ := hex
    have hk' : k < (ownRows P t).length := hlength ▸ hk
    have hmem : (ownRows P t)[k] ∈ t.rows := List.mem_of_mem_filter (List.getElem_mem hk')
    refine ⟨decimal (ownRows P t)[k].1, List.ext_getElem (by simp [places, hlength]) ?_⟩
    intro i hi hi'
    simp only [places, List.length_map] at hi hi'
    simp only [places, List.getElem_map]
    rw [isNamed_decimal (ht.pos _ hmem) (ht.lt hmem), Bool.eq_iff_iff, decide_eq_true_eq,
      ht.place hi' hk', ← hs.place hi hk]
    simp only [isNamed, Bool.and_eq_true, decide_eq_true_eq] at hnamed ⊢
    rw [and_iff_right hnamed.1, ← hnamed.2, Int.natCast_inj]
  · refine ⟨[48], List.ext_getElem (by simp [places, hlength]) ?_⟩
    intro i hi hi'
    simp only [places, List.length_map] at hi
    have hnot : isNamed id (ownRows P s)[i] = false := by
      by_contra hnamed
      exact hex ⟨i, hi, by simpa using hnamed⟩
    simp only [places, List.getElem_map, hnot]
    rfl

/-- As long as an integer can hold the numbers, there is such a run. -/
theorem exists_alone {s t : Lists ι} {events : List (Event ι)} (h : Alike stored who P s t)
    (hs : Numbered events.length s) (ht : Numbered events.length t) :
    ∃ own, Alone stored who P s t events own := by
  induction events generalizing s t with
  | nil => exact ⟨[], .nil s t⟩
  | cons e events ih =>
    cases hP : P (e.owner stored who) with
    | false =>
      obtain ⟨own, hown⟩ := ih (alike_step_of_other h hP) (hs.step e) ht.mono
      exact ⟨own, .other hP hown⟩
    | true =>
      cases e with
      | add st =>
        obtain ⟨own, hown⟩ := ih (alike_step_add h hP) (hs.step _) (ht.step _)
        exact ⟨.add st :: own, .add hP hown⟩
      | del user domain id ok =>
        obtain ⟨id', hplaces⟩ := exists_places h hs ht id
        obtain ⟨own, hown⟩ := ih (alike_step_del h hplaces) (hs.step _) (ht.step _)
        exact ⟨.del user domain id' ok :: own, .del hP hplaces hown⟩

end Seen

/-- Two requests of one user and one of another. -/
def annAndEve : Fin 3 → Request
  | 0 => ⟨bytes "ann", bytes "a.cn", 1, bytes "carl@c.cn", 1⟩
  | 1 => ⟨bytes "ann", bytes "a.cn", 1, bytes "dora@d.cn", 1⟩
  | 2 => ⟨bytes "eve", bytes "a.cn", 1, bytes "carl@c.cn", 2⟩

/-- The second user adds the first row and cannot delete the first user's, which are the second and
the third; the first user deletes the third. -/
def crossed : List (Event (Fin 3)) :=
  [.add ⟨0, true⟩, .add ⟨2, true⟩, .add ⟨2, true⟩, .add ⟨0, true⟩, .add ⟨2, true⟩, .add ⟨0, true⟩,
    .del (bytes "eve") (bytes "a.cn") (bytes "2") true, .add ⟨1, true⟩, .add ⟨1, true⟩,
    .add ⟨1, true⟩, .del (bytes "ann") (bytes "a.cn") (bytes "3") true]

/-- The first user's events alone: the row to delete is now the second. -/
def uncrossed : List (Event (Fin 3)) :=
  [.add ⟨0, true⟩, .add ⟨0, true⟩, .add ⟨0, true⟩, .add ⟨1, true⟩, .add ⟨1, true⟩, .add ⟨1, true⟩,
    .del (bytes "ann") (bytes "a.cn") (bytes "2") true]

/-- The first user. -/
def isAnn (u : Bytes × Bytes) : Bool := u = (bytes "ann", bytes "a.cn")

theorem alone_crossed :
    Alone id annAndEve isAnn ⟨[], fun _ => .start⟩ ⟨[], fun _ => .start⟩ crossed uncrossed :=
  .add (by decide) <| .other (by decide) <| .other (by decide) <| .add (by decide) <|
    .other (by decide) <| .add (by decide) <| .other (by decide) <| .add (by decide) <|
    .add (by decide) <| .add (by decide) <| .del (by decide) (by decide) <| .nil _ _

theorem isolated_crossed :
    (getWhiteList (bytes "ann") (bytes "a.cn") 0 2 1 10
      (run (Lists.step id annAndEve) ⟨[], fun _ => .start⟩ crossed).rows).map Prod.snd =
        [⟨bytes "ann", bytes "a.cn", bytes "carl@c.cn", 1⟩] :=
  ((isolated alone_crossed).2.1 (bytes "ann") (bytes "a.cn") 0 2 1 10 (by decide)).trans (by decide)

end NoSpam.EmailUser
