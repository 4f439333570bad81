import NoSpam.Base.Pattern
import NoSpam.Base.Php
import NoSpam.Mail.Envelope
import NoSpam.Mail.Requeue

/-!
# Actions on the recipients

A content rule can add a recipient, delete one or put one in the place of all.  `action_rcpts` works
on the recipients as they stand in the envelope, and it searches the one to delete with a regular
expression that its parameter is spliced into.  `recipients_exact_iff` says when the recipients come
out as the rule means it.
-/

namespace NoSpam.Recipients

open Text Perl Conf Content Envelope

/-! ## The program -/

/-- What the search for a pattern in a text comes to: the pattern may not compile. -/
inductive Search (text : Bytes)
  | dies
  | fails
  | found (before matched after : Bytes) (split : text = before ++ matched ++ after)

/-- The text without the match. -/
def Search.removed {text : Bytes} : Search text → Option Bytes
  | .dies => none
  | .fails => some text
  | .found before _ after _ => some (before ++ after)

/-- A way to search for patterns, as the regular expressions of Perl are one. -/
abbrev Searcher := (pattern text : Bytes) → Search text

/-- The mail with other recipients. -/
def withRecips (m : Mail) (envRecips : Bytes) : Mail := { m with aka := { m.aka with envRecips } }

/-- `action_rcpts` with such a search; nothing comes back when it dies. -/
def actionRcptsBy (search : Searcher) (m : Mail) : Option Mail :=
  let x := m.aka.engine .content
  if !x.enabled || !isTrue x.action then some m
  else if x.action = actionAddrcpt then
    some (withRecips m (84 :: x.desc ++ 0 :: m.aka.envRecips))
  else if x.action = actionDelrcpt then
    match (search (84 :: x.desc ++ [0]) m.aka.envRecips).removed with
    | none => none
    | some envRecips =>
        some (if envRecips.length < 3 then withRecips m.cleanup envRecips
          else withRecips m envRecips)
  else if x.action = actionChgrcpt then some (withRecips m (84 :: x.desc ++ [0, 0]))
  else some m

/-! ## What is expected -/

/-- `[\w\d\.-_=+]`, where `.-_` is a range. -/
def isAddressSymbol (c : UInt8) : Bool :=
  Php.isAlpha c || isDigit c || (46 ≤ c && c ≤ 95) || c = 43

/-- `/^[\w\d\.-_=+]+\@[\w\d\.-_=+]+$/`. -/
def IsAddress (param : Bytes) : Prop :=
  (chomp param).all isAddressSymbol = true ∧ 64 ∈ (chomp param).tail.dropLast

instance (param : Bytes) : Decidable (IsAddress param) := inferInstanceAs (Decidable (_ ∧ _))

/-- The recipients as the rule means them. -/
def expected (action param : Bytes) (recips : List Bytes) : List Bytes :=
  if ¬IsAddress param then recips
  else if action = actionAddrcpt then param :: recips
  else if action = actionDelrcpt then recips.erase param
  else [param]

/-- Recipients on the wire. -/
def WellFormed (envRecips : Bytes) : Prop :=
  ∃ recips : List Bytes, (∀ r ∈ recips, 0 ∉ r) ∧ envRecips = encodeRecips recips

/-- The recipients come out as the rule means it, and a mail without any is not queued. -/
def Exact (search : Searcher) (m : Mail) (recips : List Bytes) : Prop :=
  let x := m.aka.engine .content
  ∃ m', actionRcptsBy search m = some m' ∧
    m'.aka.envRecips = encodeRecips (expected x.action x.desc recips) ∧
    WellFormed m'.aka.envRecips ∧
    (expected x.action x.desc recips = [] → ∀ o, (m'.requeue o).sent = m.sent)

/-- The match and the first recipient that equals the parameter leave the same when they are taken
out: they are in the same place, or repeat each other over the text between them. -/
def Aligned (param : Bytes) (recips : List Bytes) (before matched : Bytes) : Prop :=
  let head := (recips.takeWhile (· ≠ param)).flatMap fun r => 84 :: r ++ [0]
  let own := 84 :: param ++ [0]
  ∃ between, (head = before ++ between ∧ matched ++ between = between ++ own) ∨
    (before = head ++ between ∧ own ++ between = between ++ matched)

/-- The action and its parameter suit the recipients. -/
def Apt (search : Searcher) (action param : Bytes) (recips : List Bytes) : Prop :=
  if action = actionAddrcpt then IsAddress param
  else if action = actionDelrcpt then
    match search (84 :: param ++ [0]) (encodeRecips recips) with
    | .dies => False
    | .fails => IsAddress param → param ∉ recips
    | .found before matched _ _ =>
        if IsAddress param ∧ param ∈ recips then Aligned param recips before matched
        else matched = []
  else IsAddress param ∨ encodeRecips recips = 84 :: param ++ [0, 0]

/-! ## Texts -/

section Texts

variable {α : Type*}

/-- What two pieces of a text leave behind is the same exactly if they repeat each other. -/
theorem append_eq_append_iff_aligned {u w v b d a : List α} (h : u ++ w ++ v = b ++ d ++ a) :
    u ++ v = b ++ a ↔ ∃ t, (b = u ++ t ∧ w ++ t = t ++ d) ∨ (u = b ++ t ∧ d ++ t = t ++ w) := by
  constructor
  · intro heq
    rcases List.append_eq_append_iff.1 heq with ⟨t, rfl, rfl⟩ | ⟨t, rfl, rfl⟩
    · refine ⟨t, .inl ⟨rfl, ?_⟩⟩
      have hsplit : u ++ (w ++ t ++ a) = u ++ (t ++ d ++ a) := by
        simpa only [List.append_assoc] using h
      exact List.append_cancel_right (List.append_cancel_left hsplit)
    · refine ⟨t, .inr ⟨rfl, ?_⟩⟩
      have hsplit : b ++ (d ++ t ++ v) = b ++ (t ++ w ++ v) := by
        simpa only [List.append_assoc] using h.symm
      exact List.append_cancel_right (List.append_cancel_left hsplit)
  · rintro ⟨t, ⟨rfl, hshift⟩ | ⟨rfl, hshift⟩⟩
    · have hsplit : u ++ (w ++ v) = u ++ (w ++ (t ++ a)) := by
        rw [← List.append_assoc w t a, hshift]
        simpa only [List.append_assoc] using h
      rw [List.append_cancel_left (List.append_cancel_left hsplit), List.append_assoc]
    · have hsplit : b ++ (d ++ (t ++ v)) = b ++ (d ++ a) := by
        rw [← List.append_assoc d t v, hshift]
        simpa only [List.append_assoc] using h
      rw [← List.append_cancel_left (List.append_cancel_left hsplit), List.append_assoc]

end Texts

/-! ## Envelopes -/

section Wire

variable {param : Bytes} {recips : List Bytes}

theorem encodeRecips_cons (r : Bytes) (rs : List Bytes) :
    encodeRecips (r :: rs) = 84 :: r ++ [0] ++ encodeRecips rs := by
  rw [encodeRecips, encodeRecips, List.flatMap_cons, List.append_assoc]

/-- The first recipient that equals the parameter, and what is around it. -/
theorem encodeRecips_of_mem (h : param ∈ recips) :
    ∃ after, encodeRecips recips =
        (recips.takeWhile (· ≠ param)).flatMap (fun r => 84 :: r ++ [0]) ++
          (84 :: param ++ [0]) ++ after ∧
      encodeRecips (recips.erase param) =
        (recips.takeWhile (· ≠ param)).flatMap (fun r => 84 :: r ++ [0]) ++ after := by
  induction recips with
  | nil => cases h
  | cons r rs ih =>
    by_cases hr : r = param
    · refine ⟨encodeRecips rs, ?_, ?_⟩
      · rw [List.takeWhile_cons_of_neg (by simp [hr]), encodeRecips_cons, hr]
        rfl
      · rw [List.takeWhile_cons_of_neg (by simp [hr]), hr, List.erase_cons_head]
        rfl
    · obtain ⟨after, hall, herase⟩ := ih ((List.mem_cons.1 h).resolve_left (Ne.symm hr))
      refine ⟨after, ?_, ?_⟩
      · rw [List.takeWhile_cons_of_pos (by simp [hr]), encodeRecips_cons, hall, List.flatMap_cons]
        simp only [List.append_assoc]
      · rw [List.takeWhile_cons_of_pos (by simp [hr]), List.erase_cons_tail (by simpa using hr),
          encodeRecips_cons, herase, List.flatMap_cons]
        simp only [List.append_assoc]

theorem nul_not_mem_of_isAddress (h : IsAddress param) : 0 ∉ param := by
  intro hmem
  have hall := List.all_eq_true.1 h.1
  have hchomp : 0 ∈ chomp param := by
    rw [chomp]
    split_ifs with hlast
    · obtain ⟨l, rfl⟩ := List.getLast?_eq_some_iff.1 hlast
      rw [List.dropLast_concat]
      rcases List.mem_append.1 hmem with hmem | hmem
      · exact hmem
      · exact absurd (List.mem_singleton.1 hmem) (by decide)
    · exact hmem
  exact absurd (hall 0 hchomp) (by decide)

theorem wellFormed_expected (action : Bytes) (h : ∀ r ∈ recips, 0 ∉ r) :
    WellFormed (encodeRecips (expected action param recips)) := by
  refine ⟨_, fun r hr => ?_, rfl⟩
  unfold expected at hr
  split_ifs at hr with haddress hadd hdel
  · rcases List.mem_cons.1 hr with rfl | hr
    · exact nul_not_mem_of_isAddress haddress
    · exact h r hr
  · exact h r (List.mem_of_mem_erase hr)
  · rw [List.mem_singleton.1 hr]
    exact nul_not_mem_of_isAddress haddress
  · exact h r hr

end Wire

/-! ## The action -/

section Action

variable {search : Searcher} {m : Mail} {param : Bytes} {recips : List Bytes}

/-- A mail whose message is no longer there is not queued. -/
theorem sent_requeue (o : Outside) (h : m.fs m.aka.emlfilename = none) :
    (m.requeue o).sent = m.sent := by
  have hqueue : ¬(Mail.queueFor o m).Accepted := by
    rw [QueueWorld.Accepted, QueueWorld.queueStatus, Mail.queueFor, h]
    simp
  rw [Mail.requeue_eq, Mail.cleanup, Mail.qmailRequeue, if_neg hqueue]
  dsimp only
  cases (Mail.queueFor o m).qmailRequeue <;> rfl

/-- What is left of the recipients when one is deleted. -/
theorem removed_eq_iff :
    (search (84 :: param ++ [0]) (encodeRecips recips)).removed =
        some (encodeRecips (expected actionDelrcpt param recips)) ↔
      Apt search actionDelrcpt param recips := by
  have hexpected : expected actionDelrcpt param recips =
      if IsAddress param ∧ param ∈ recips then recips.erase param else recips := by
    rw [expected, if_neg (show actionDelrcpt ≠ actionAddrcpt by decide), if_pos rfl]
    split_ifs with haddress hboth hboth
    · rfl
    · exact List.erase_of_not_mem fun hmem => hboth ⟨haddress, hmem⟩
    · exact absurd hboth.1 haddress
    · rfl
  unfold Apt
  rw [hexpected, if_neg (show actionDelrcpt ≠ actionAddrcpt by decide), if_pos rfl]
  cases hcases : search (84 :: param ++ [0]) (encodeRecips recips) with
  | dies => exact iff_of_false nofun id
  | fails =>
    rw [Search.removed, Option.some_inj]
    dsimp only
    by_cases hmem : IsAddress param ∧ param ∈ recips
    · obtain ⟨rest, hall, herase⟩ := encodeRecips_of_mem hmem.2
      rw [if_pos hmem, herase]
      refine iff_of_false (fun heq => ?_) fun hout => hout hmem.1 hmem.2
      rw [hall] at heq
      have hlength := congrArg List.length heq
      simp only [List.length_append, List.length_cons] at hlength
      omega
    · rw [if_neg hmem]
      exact iff_of_true rfl fun haddress hin => hmem ⟨haddress, hin⟩
  | found before matched after hsplit =>
    rw [Search.removed, Option.some_inj]
    dsimp only
    by_cases hmem : IsAddress param ∧ param ∈ recips
    · obtain ⟨rest, hall, herase⟩ := encodeRecips_of_mem hmem.2
      rw [if_pos hmem, if_pos hmem, herase]
      exact append_eq_append_iff_aligned (hsplit.symm.trans hall)
    · rw [if_neg hmem, if_neg hmem, hsplit, List.append_assoc, List.append_cancel_left_eq,
        List.self_eq_append_left]

/-- An action on the recipients. -/
def IsRcptAction (action : Bytes) : Prop :=
  action = actionAddrcpt ∨ action = actionDelrcpt ∨ action = actionChgrcpt

/-! ### A search for dots -/

/-- The search for a pattern whose only metacharacter is the dot. -/
def searchDots : Searcher := fun pattern text =>
  match h : findPattern pattern text with
  | none => .fails
  | some m =>
    let matched := (text.drop m.1.length).take (text.length - m.1.length - m.2.length)
    .found m.1 matched m.2 (by
      obtain ⟨w, hw, -⟩ := exists_of_findPattern h
      have hmatched : matched = w := by
        simp [matched, hw]
      rw [hmatched]
      exact hw)

theorem removed_searchDots (pattern text : Bytes) :
    (searchDots pattern text).removed = some (substPattern pattern text) := by
  unfold searchDots substPattern
  split
  · rename_i h
    rw [h]
    rfl
  · rename_i m h
    rw [Search.removed, h]

/-- With this search the action is the one of the model of `process`. -/
theorem actionRcptsBy_searchDots (m : Mail) :
    actionRcptsBy searchDots m = some (Mail.actionRcpts m) := by
  unfold actionRcptsBy Mail.actionRcpts
  simp only [removed_searchDots]
  split_ifs <;> rfl

/-! ### The three actions -/

/-- An addition or a change searches for nothing, and leaves a recipient. -/
theorem exact_edit_iff {rest : Bytes}
    (hrun : actionRcptsBy search m = some (withRecips m (84 :: rest)))
    (hrecips : ∀ r ∈ recips, 0 ∉ r) :
    Exact search m recips ↔ 84 :: rest = encodeRecips
      (expected (m.aka.engine .content).action (m.aka.engine .content).desc recips) := by
  constructor
  · rintro ⟨m', hm, henv, -, -⟩
    rw [hrun] at hm
    obtain rfl := Option.some.inj hm
    exact henv
  · intro heq
    refine ⟨_, hrun, heq, ?_, fun hnil => ?_⟩
    · rw [withRecips]
      dsimp only
      rw [heq]
      exact wellFormed_expected _ hrecips
    · rw [hnil] at heq
      exact absurd (List.cons.inj heq).1 (by decide)

theorem exact_addrcpt_iff (henabled : (m.aka.engine .content).enabled = true)
    (haction : (m.aka.engine .content).action = actionAddrcpt)
    (hrecips : ∀ r ∈ recips, 0 ∉ r) (henv : m.aka.envRecips = encodeRecips recips) :
    Exact search m recips ↔ IsAddress (m.aka.engine .content).desc := by
  have hrun : actionRcptsBy search m =
      some (withRecips m (84 :: (m.aka.engine .content).desc ++ 0 :: m.aka.envRecips)) := by
    rw [actionRcptsBy, henabled, haction]
    rfl
  rw [exact_edit_iff hrun hrecips, expected, haction, if_pos rfl, henv]
  by_cases haddress : IsAddress (m.aka.engine .content).desc
  · rw [if_neg (not_not.2 haddress), encodeRecips_cons]
    exact iff_of_true (by simp) haddress
  · rw [if_pos haddress]
    refine iff_of_false (fun heq => ?_) haddress
    have hlength : (84 :: (m.aka.engine .content).desc ++ 0 :: encodeRecips recips).length =
        (encodeRecips recips).length := congrArg List.length heq
    rw [List.length_append, List.length_cons, List.length_cons] at hlength
    omega

theorem exact_chgrcpt_iff (henabled : (m.aka.engine .content).enabled = true)
    (haction : (m.aka.engine .content).action = actionChgrcpt)
    (hrecips : ∀ r ∈ recips, 0 ∉ r) :
    Exact search m recips ↔ IsAddress (m.aka.engine .content).desc ∨
      encodeRecips recips = 84 :: (m.aka.engine .content).desc ++ [0, 0] := by
  have hrun : actionRcptsBy search m =
      some (withRecips m (84 :: (m.aka.engine .content).desc ++ [0, 0])) := by
    rw [actionRcptsBy, henabled, haction]
    rfl
  rw [exact_edit_iff hrun hrecips, expected, haction,
    if_neg (show actionChgrcpt ≠ actionAddrcpt by decide),
    if_neg (show actionChgrcpt ≠ actionDelrcpt by decide)]
  by_cases haddress : IsAddress (m.aka.engine .content).desc
  · rw [if_neg (not_not.2 haddress), encodeRecips_cons]
    exact iff_of_true (by simp [encodeRecips]) (.inl haddress)
  · rw [if_pos haddress]
    exact ⟨fun heq => .inr heq.symm, fun h => (h.resolve_left haddress).symm⟩

theorem exact_delrcpt_iff (henabled : (m.aka.engine .content).enabled = true)
    (haction : (m.aka.engine .content).action = actionDelrcpt)
    (hrecips : ∀ r ∈ recips, 0 ∉ r) (henv : m.aka.envRecips = encodeRecips recips) :
    Exact search m recips ↔ Apt search actionDelrcpt (m.aka.engine .content).desc recips := by
  obtain ⟨param, hparam⟩ : ∃ param, (m.aka.engine .content).desc = param := ⟨_, rfl⟩
  rw [hparam]
  rw [← removed_eq_iff, ← henv]
  cases hremoved : (search (84 :: param ++ [0]) m.aka.envRecips).removed with
  | none =>
    have hrun : actionRcptsBy search m = none := by
      rw [actionRcptsBy, henabled, haction, hparam, hremoved]
      rfl
    rw [Exact, hrun]
    exact iff_of_false (by rintro ⟨m', hm, -⟩; cases hm) nofun
  | some envRecips =>
    have hrun : actionRcptsBy search m =
        some (if envRecips.length < 3 then withRecips m.cleanup envRecips
          else withRecips m envRecips) := by
      rw [actionRcptsBy, henabled, haction, hparam, hremoved]
      rfl
    rw [Exact, hrun, haction, hparam, Option.some_inj]
    constructor
    · rintro ⟨m', hm, heq, -, -⟩
      obtain rfl := Option.some.inj hm
      rw [← heq]
      split_ifs <;> rfl
    · rintro rfl
      refine ⟨_, rfl, ?_, ?_, fun hnil o => ?_⟩
      · split_ifs <;> rfl
      · have hwell := @wellFormed_expected param recips actionDelrcpt hrecips
        split_ifs <;> exact hwell
      · rw [hnil, if_pos (by decide), sent_requeue o (Function.update_self ..)]
        rfl

/-- **When the recipients come out as the rule means it**: for every way to search, every parameter
and all recipients, exactly if the parameter of an addition or a change is an address, or the change
changes nothing; and if the match of a deletion is the first recipient that equals the parameter. -/
theorem recipients_exact_iff (henabled : (m.aka.engine .content).enabled = true)
    (haction : IsRcptAction (m.aka.engine .content).action)
    (hrecips : ∀ r ∈ recips, 0 ∉ r) (henv : m.aka.envRecips = encodeRecips recips) :
    Exact search m recips ↔
      Apt search (m.aka.engine .content).action (m.aka.engine .content).desc recips := by
  rcases haction with hadd | hdel | hchg
  · rw [exact_addrcpt_iff henabled hadd hrecips henv, Apt, if_pos hadd]
  · rw [exact_delrcpt_iff henabled hdel hrecips henv, hdel]
  · rw [exact_chgrcpt_iff henabled hchg hrecips, Apt, hchg,
      if_neg (show actionChgrcpt ≠ actionAddrcpt by decide),
      if_neg (show actionChgrcpt ≠ actionDelrcpt by decide)]

/-- A mail to recipients, and an action with a parameter. -/
def letter (recips : List Bytes) (action param : Bytes) : Mail :=
  { Mail.empty with
    aka :=
      { envRecips := encodeRecips recips
        engine := fun _ => ran (bytes "1") param action true } }

/-- A recipient that is there twice, and another. -/
def twiceAnn : List Bytes := [bytes "bob@b.cn", bytes "ann@a.cn", bytes "ann@a.cn"]

theorem exact_twiceAnn :
    Exact searchDots (letter twiceAnn actionDelrcpt (bytes "ann@a.cn")) twiceAnn :=
  (recipients_exact_iff rfl (.inr (.inl rfl)) (by decide +kernel) rfl).2
    ⟨[], .inl ⟨by decide, by decide⟩⟩

/-- What is no address becomes a recipient. -/
theorem nonsense_added :
    (Mail.actionRcpts (letter [bytes "ann@a.cn"] actionAddrcpt (bytes "nonsense"))).aka.envRecips =
        encodeRecips [bytes "nonsense", bytes "ann@a.cn"] ∧
      ¬Exact searchDots (letter [bytes "ann@a.cn"] actionAddrcpt (bytes "nonsense"))
        [bytes "ann@a.cn"] := by
  refine ⟨rfl, ?_⟩
  rintro ⟨m', hm, henv, -, -⟩
  rw [actionRcptsBy_searchDots] at hm
  obtain rfl := Option.some.inj hm
  exact absurd henv (by decide +kernel)

end Action

end NoSpam.Recipients
