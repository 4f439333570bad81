import NoSpam.Base.Pattern
import NoSpam.Mail.WriteQueue

/-!
# Where a header ends

Two loops read the header of a mail: `get_mail_base_info` for its subject and its sender, and
`write_queue` for its header action.  The first ends at an empty line, the second at a line end of
any kind.  `headers_agree_iff` says for which messages they end at the same line.
-/

namespace NoSpam.WriteQueue

open Text Perl

/-! ## The program -/

/-- Letters, digits, dots, hyphens and underscores. -/
def isAddressSymbol (c : UInt8) : Bool := Php.isAlpha c || isDigit c || c = 46 || c = 45 || c = 95

/-- What `/([a-z0-9\.\-_]+\S+?\@\S+\.\S+[a-z0-9])/i` captures from the start of a word on: all up to
its last letter or digit. -/
def addressAt (word : Bytes) : Option Bytes :=
  let address := word.rdropWhile fun c => !(Php.isAlpha c || isDigit c)
  let domain := ((address.drop 2).dropWhile (· ≠ 64)).drop 2
  if (word.head?.map isAddressSymbol).getD false && 46 ∈ domain.take (domain.length - 2) then
    some address
  else none

/-- The first address in a text. -/
def findAddress : Bytes → Option Bytes
  | [] => none
  | c :: text =>
      match addressAt ((c :: text).takeWhile (!isWhite ·)) with
      | some address => some address
      | none => findAddress text

/-- The sender in a header line, when it is a `From` line. -/
def mailFromOf (line : Bytes) : Option Bytes :=
  if line.take 6 = bytes "From: " && line.length > 6 then
    some ((findAddress (line.drop 6)).getD [])
  else none

/-- `$mail_from`: the last sender of a header. -/
def mailFrom (message : Bytes) : Bytes :=
  ((headerLines message).filterMap mailFromOf).getLastD []

section Loop

variable (c : Setting) (a : Aka)

/-- The lines that the loop of `write_queue` reads before the one at which `$still_headers` is
reset. -/
def queueHeader (has : Bytes → Bool) : State → List Bytes → List Bytes
  | _, [] => []
  | s, line :: rest =>
      match edit has s line with
      | (_, none, s) => line :: queueHeader has s rest
      | (_, some edited, s) =>
          if isBlank (tagged c a edited) then [] else line :: queueHeader has s rest

/-- The header action as the loop begins. -/
def State.initial : State :=
  ⟨(a.engine .content).desc, headerActionOf (a.engine .content).action⟩

/-- The header of a message as `write_queue` reads it, for any way in which the regular expression
is searched. -/
def headerSent (search : Bytes → Option (Bytes → Bool)) (message : Bytes) : Option (List Bytes) :=
  (finds a search message).map fun has =>
    queueHeader c a has (State.initial a) (lines 10 message)

/-! ## What is expected -/

/-- The two loops end at the same line, and no other lines than those before it have a say in the
subject and in the sender. -/
structure Agree (decode : Decoders) (message : Bytes) (sent : List Bytes) : Prop where
  same_end : (headerLines message).length = sent.length
  subject_eq : subject decode message =
    ((sent.map chomp).filterMap (subjectOf decode)).getLastD []
  mailFrom_eq : mailFrom message = ((sent.map chomp).filterMap mailFromOf).getLastD []

/-- The lines after the header action: the first one that is found is dropped or replaced. -/
def edited (has : Bytes → Bool) (s : State) (ls : List Bytes) : List (Option Bytes) :=
  match s.todo with
  | none | some .addhdr => ls.map some
  | some act => (ls.map some).set (ls.findIdx has) (renewed act s.pf_param)

/-- A line is a lone line feed, or it is blank after the header action. -/
def endsOne (line : Bytes × Option Bytes) : Bool := line.1 = [10] || line.2.any isBlank

/-- The first line that is a lone line feed or blank after the header action is both, if there is
one. -/
def EndsAtLineFeed (search : Bytes → Option (Bytes → Bool)) (message : Bytes) : Prop :=
  ∃ has ∈ finds a search message,
    ∀ line ∈ ((lines 10 message).zip (edited has (State.initial a) (lines 10 message))).find?
      endsOne, line.1 = [10] ∧ line.2.any isBlank = true

end Loop

/-! ## The loop of `write_queue` -/

section Queue

variable {c : Setting} {a : Aka} {has : Bytes → Bool}

theorem edited_eq_editRun (s : State) (ls : List Bytes) :
    edited has s ls = (editRun has s ls).1 := by
  obtain ⟨pf_param, todo⟩ := s
  cases todo with
  | none => rw [editRun_done]; rfl
  | some act =>
    cases act with
    | addhdr =>
      cases ls with
      | nil => rfl
      | cons line ls => simp only [edited, editRun, edit, editRun_done, List.map_cons]
    | delhdr => exact (editRun_fst (by decide) pf_param ls).symm
    | chghdr => exact (editRun_fst (by decide) pf_param ls).symm

/-- The loop reads up to the first line that is blank after the header action. -/
theorem queueHeader_eq_take (s : State) (ls : List Bytes) :
    queueHeader c a has s ls = ls.take ((edited has s ls).findIdx (·.any isBlank)) := by
  rw [edited_eq_editRun]
  induction ls generalizing s with
  | nil => rfl
  | cons line ls ih =>
    rw [queueHeader, editRun, List.findIdx_cons]
    obtain ⟨out, edited, s'⟩ := edit has s line
    cases edited with
    | none =>
      simp only [Option.any_none, cond_false, List.take_succ_cons, ih]
    | some edited =>
      simp only [Option.any_some, isBlank_tagged, ih]
      cases isBlank edited with
      | true => rfl
      | false => simp only [Bool.false_eq_true, if_false, cond_false, List.take_succ_cons]

/-- The block is put before the line at which the header ends. -/
theorem writeHeader_eq_queueHeader (s : State) (ls : List Bytes) :
    ∃ (out pf_param line : Bytes), writeHeader c a has s ls = out ++
      if (queueHeader c a has s ls).length = ls.length then []
      else block c a pf_param ++ line ++
        (ls.drop ((queueHeader c a has s ls).length + 1)).flatten := by
  induction ls generalizing s with
  | nil => exact ⟨[], [], [], rfl⟩
  | cons line ls ih =>
    rw [writeHeader, queueHeader]
    obtain ⟨out, edited, s'⟩ := edit has s line
    obtain ⟨out', pf_param, line', hrest⟩ := ih s'
    cases edited with
    | none =>
      refine ⟨out ++ out', pf_param, line', ?_⟩
      simp only [hrest, List.length_cons, Nat.add_right_cancel_iff, List.drop_succ_cons,
        List.append_assoc]
    | some edited =>
      dsimp only
      by_cases hblank : isBlank (tagged c a edited) = true
      · refine ⟨out, s'.pf_param, tagged c a edited, ?_⟩
        simp only [if_pos hblank, List.length_nil, List.length_cons, List.append_assoc,
          List.drop_succ_cons, List.drop_zero, (Nat.succ_ne_zero _).symm, if_false]
      · refine ⟨out ++ tagged c a edited ++ out', pf_param, line', ?_⟩
        simp only [if_neg hblank, hrest, List.length_cons, Nat.add_right_cancel_iff,
          List.drop_succ_cons, List.append_assoc]

end Queue

/-! ## The loop of `get_mail_base_info` -/

/-- The loop reads up to the first lone line feed. -/
theorem headerLines_eq (message : Bytes) :
    headerLines message = ((lines 10 message).takeWhile (· ≠ [10])).map chomp := by
  obtain ⟨n, hn⟩ : ∃ n, message.length = n := ⟨_, rfl⟩
  induction n using Nat.strong_induction_on generalizing message with
  | h n ih =>
    by_cases hmem : 10 ∈ message
    · obtain ⟨line, rest, hsplit, hline⟩ := List.eq_append_cons_of_mem hmem
      have hrest := ih rest.length (by rw [← hn, hsplit]; simp; omega) rest rfl
      have hchomp : chomp (line ++ [10]) = line := by simp [chomp]
      rw [headerLines] at hrest
      rw [headerLines, hsplit, lines_append_cons hline,
        List.splitOn_append_cons_self_of_not_mem hline, List.takeWhile_cons, List.takeWhile_cons,
        hrest]
      by_cases hnil : line = []
      · simp [hnil]
      · simp [hnil, hchomp]
    · have hchomp : chomp message = message := by
        rw [chomp, if_neg fun hlast => hmem (List.mem_of_getLast? hlast)]
      rw [headerLines, List.splitOn_eq_singleton hmem]
      by_cases hnil : message = []
      · rw [hnil]
        rfl
      · have hne : message ≠ [10] := by
          rintro rfl
          exact hmem List.mem_cons_self
        rw [lines_of_not_mem hmem hnil]
        simp [hnil, hne, hchomp]

/-- Two searches over columns of one length end at the same place exactly if the first find of
either is a find of both. -/
theorem findIdx_eq_findIdx_iff {α β : Type*} (p : α → Bool) (q : β → Bool) :
    ∀ {l : List α} {m : List β}, l.length = m.length →
      (l.findIdx p = m.findIdx q ↔
        ∀ x ∈ (l.zip m).find? fun x => p x.1 || q x.2, p x.1 = true ∧ q x.2 = true)
  | [], [], _ => by simp
  | x :: l, y :: m, h => by
    have ih := findIdx_eq_findIdx_iff p q (Nat.succ.inj h)
    rw [List.zip_cons_cons, List.find?_cons, List.findIdx_cons, List.findIdx_cons]
    cases hp : p x <;> cases hq : q y <;> simp [hp, hq, ih]

theorem takeWhile_eq_take_findIdx {α : Type*} (p : α → Bool) (l : List α) :
    l.takeWhile (!p ·) = l.take (l.findIdx p) := by
  induction l with
  | nil => rfl
  | cons x l ih =>
    rw [List.takeWhile_cons, List.findIdx_cons]
    cases p x with
    | true => rfl
    | false => simp [ih]

/-! ## The two loops -/

/-- **When the two loops agree**: for every message, every verdict and every search, exactly if the
first line that is a lone line feed or ends the header for `write_queue` is both, or there is
none. -/
theorem headers_agree_iff (c : Setting) (a : Aka) (decode : Decoders)
    (search : Bytes → Option (Bytes → Bool)) (message : Bytes) :
    (∃ sent ∈ headerSent c a search message, Agree decode message sent) ↔
      EndsAtLineFeed a search message := by
  have hread : headerLines message =
      ((lines 10 message).take ((lines 10 message).findIdx (· = [10]))).map chomp := by
    rw [headerLines_eq, ← takeWhile_eq_take_findIdx]
    simp only [← decide_not]
  have hlines (has : Bytes → Bool) :
      (lines 10 message).length = (edited has (State.initial a) (lines 10 message)).length := by
    rw [edited_eq_editRun, length_editRun]
  have hsearch (has : Bytes → Bool) := findIdx_eq_findIdx_iff (fun line : Bytes => line = [10])
    (fun line : Option Bytes => line.any isBlank) (hlines has)
  unfold headerSent EndsAtLineFeed
  simp only [Option.mem_map, queueHeader_eq_take]
  constructor
  · rintro ⟨_, ⟨has, hhas, rfl⟩, h⟩
    have hend := h.same_end
    rw [hread, List.length_map, List.length_take, List.length_take,
      Nat.min_eq_left List.findIdx_le_length,
      Nat.min_eq_left (List.findIdx_le_length.trans_eq (hlines has).symm)] at hend
    refine ⟨has, hhas, fun line hline => ?_⟩
    simpa only [decide_eq_true_eq] using (hsearch has).1 hend line hline
  · rintro ⟨has, hhas, h⟩
    have hend := (hsearch has).2 fun line hline => by
      simpa only [decide_eq_true_eq] using h line hline
    refine ⟨_, ⟨has, hhas, rfl⟩, ?_, ?_, ?_⟩
    · rw [hread, hend, List.length_map]
    · rw [← hend, ← hread, subject]
    · rw [← hend, ← hread, mailFrom]

/-- A message with line ends of both kinds and a subject in its text. -/
def plantedSubject : Bytes :=
  bytes "From: ann@a.cn\r\nSubject: one\r\n\r\nFrom: eve@b.cn\nSubject: two\n\nText\n"

/-- The subject and the sender are taken from the text. -/
theorem subject_of_text :
    headerSent allMarks {} (fun key => some (hasKey key)) plantedSubject =
        some [bytes "From: ann@a.cn\r\n", bytes "Subject: one\r\n"] ∧
      subject ⟨id, id⟩ plantedSubject = bytes "two" ∧
      mailFrom plantedSubject = bytes "eve@b.cn" ∧
      ¬∃ sent ∈ headerSent allMarks {} (fun key => some (hasKey key)) plantedSubject,
        Agree ⟨id, id⟩ plantedSubject sent :=
  have hsent : headerSent allMarks {} (fun key => some (hasKey key)) plantedSubject =
      some [bytes "From: ann@a.cn\r\n", bytes "Subject: one\r\n"] := by decide +kernel
  ⟨hsent, by decide +kernel, by decide +kernel, fun ⟨sent, hmem, h⟩ => by
    rw [hsent] at hmem
    obtain rfl := Option.some_inj.1 hmem
    exact absurd h.same_end (by decide +kernel)⟩

end NoSpam.WriteQueue
