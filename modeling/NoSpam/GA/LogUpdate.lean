import NoSpam.Base.Run
import NoSpam.Content.Steady
import NoSpam.GA.Packet
import NoSpam.GA.RulePackage

/-!
# Requests for logs

The centre asks for the mails of a time, from an address, of a size and with keywords.
`parse_logreq_to_filterdb` makes a rule of the request, and `GAISC_resp_log_update` runs the mails
of the log through it before it replies.  Whether the reply is reached depends on the rule and on
the mails that are looked at (`answered_iff`): several keywords without a size make an array of what
is then read as a hash.
-/

namespace NoSpam.GA

open Text Perl Content

/-! ## The request -/

/-- `split /SEP/, $line, n`. -/
def splitLimit (sep : UInt8) : ℕ → Bytes → List Bytes
  | n + 2, l =>
      if sep ∈ l then
        l.takeWhile (· ≠ sep) :: splitLimit sep (n + 1) (l.dropWhile (· ≠ sep)).tail
      else [l]
  | _, l => [l]

/-- One of the `@log_reqs`, empty if it is missing. -/
def logPart (line : Bytes) (i : ℕ) : Bytes := (splitLimit 44 8 line).getD i []

/-- What `parse_logreq_to_filterdb` returns. -/
structure LogReq where
  rule : FilterInfo (SubRules KeywordEntry)
  startTime : Bytes
  endTime : Bytes
  ip : Bytes

/-- The size of a request, if it is true; `/^\d+$/` allows for a line end. -/
def logSize (size sizeType : Bytes) : Option SizeEntry :=
  if isTrue size then
    some
      { key := firstOne sizeType
        sizevalue :=
          some
            (if chomp size ≠ [] && (chomp size).all isDigit then sizevalueOf (chomp size)
            else size) }
  else none

/-- The keywords of a request, in one hash or in an array of hashes. -/
def logKeywords (text : Bytes) (entry : KeywordEntry) : SubRules KeywordEntry :=
  match fields 59 text with
  | k :: k' :: ks =>
      .array ((k :: k' :: ks).map fun keyword => { entry with keyword := some keyword })
  | ks => .hash { entry with keyword := ks.head? }

/-- `parse_logreq_to_filterdb`. -/
def parseLogreqToFilterdb (stamp line : Bytes) : LogReq where
  rule :=
    { ruleKeyword := logKeywords (logPart line 3) { type := 0, key := some 7, decode := some 1 }
      updateTime := stamp
      size := logSize (logPart line 5) (logPart line 6)
      keywordLogic := some (if logPart line 4 = bytes "01" then bytes "AND" else bytes "OR")
      ruleComment := (splitLimit 44 8 line)[7]? }
  startTime := orElse (logPart line 0) (bytes "0")
  endTime := orElse (logPart line 1) (bytes "0")
  ip := logPart line 2

/-! ## The rule -/

section Check

variable (single : KeywordEntry → Option Bool) (logic : Bytes)

/-- The loop of `check_keyword_rule` over several keywords, when the check of one may die. -/
def checkKeywords : List KeywordEntry → Option Bool
  | [] => some (logic ≠ bytes "OR")
  | r :: rs => do
      let holds ← single r
      if logic = bytes "OR" then if holds then some true else checkKeywords rs
      else if logic = bytes "NOT" then if holds then some false else checkKeywords rs
      else if holds then checkKeywords rs else some false

/-- `check_keyword_rule`, when the check of one may die. -/
def checkKeywordPart : SubRules KeywordEntry → Option Bool
  | .array rs => checkKeywords single logic rs
  | .hash r => (single r).map fun holds => if logic = bytes "NOT" then !holds else holds

end Check

/-- What the server has and does: whether the rule databases can be loaded, the files in the
directory of the log and what can be read of each, `MIME::Parser`, the table of file types, `<` on
texts, the search of a text for a pattern, which dies of an invalid one, and the check of a keyword,
which may die. -/
structure LogHost where
  loads : Bool := true
  names : List Bytes
  opens : Bytes → Option Bytes
  entity : Bytes → Option Entity
  types : List FileType := fileTypes
  less : Bytes → Bytes → Bool
  search : Bytes → Bytes → Option Bool
  checkSingleKeywordRule : KeywordEntry → MailInfo → Option Bool
  stamp : Bytes

/-- The size part of a rule as the checks see it.  There is a hash even if the request has no size:
`defined $rule_info->{size}->{sizevalue}` makes one. -/
def sizeRule (r : FilterInfo (SubRules KeywordEntry)) : SizeRule where
  key := ((r.size.bind SizeEntry.key).map decimal).getD []
  sizevalue := (r.size.bind SizeEntry.sizevalue).getD []

section Response

variable (host : LogHost)

/-- `check_keyword_rule` on a mail. -/
def LogHost.checkKeyword (r : FilterInfo (SubRules KeywordEntry)) (m : MailInfo) : Option Bool :=
  checkKeywordPart (fun k => host.checkSingleKeywordRule k m)
    (orElse (r.keywordLogic.getD []) (bytes "AND")) r.ruleKeyword

/-- `check_all_rule_backend` on the one rule of the request. -/
def checkLogRule (r : FilterInfo (SubRules KeywordEntry)) (m : MailInfo) (b : SizeBounds) :
    Option (Bool × SizeBounds) :=
  let size := checkSizeRule (bytes "AND") (.hash (sizeRule r)) m b
  if size.1 then (host.checkKeyword r m).map fun holds => (holds, size.2)
  else some (false, size.2)

/-- Whether a mail is one that the request asks for, and the bounds its size leaves. -/
def selectMail (req : LogReq) (m : MailInfo) (b : SizeBounds) : Option (Bool × SizeBounds) :=
  match if req.ip = [] then some true else host.search req.ip m.head.content with
  | none => none
  | some false => some (false, b)
  | some true =>
    if (req.rule.size.bind SizeEntry.sizevalue).isSome then checkLogRule host req.rule m b
    else
      match req.rule.ruleKeyword with
      -- `$rule_info->{rule_keyword}->{keyword}` on an array
      | .array _ => none
      | .hash k => if k.keyword.getD [] ≠ [] then checkLogRule host req.rule m b else some (true, b)

/-- The parser object, the package globals, and the mails that are to be sent. -/
structure LogState where
  parser : Parser
  bounds : SizeBounds
  mails : List Bytes := []

/-- The turn of the loop for a file that was opened. -/
def logMail (req : LogReq) (st : LogState) (eml : Bytes × Bytes) : Option LogState :=
  match st.parser.getMailInfo (host.entity eml.2) with
  | (none, _) => none
  | (some m, parser) =>
    (selectMail host req m st.bounds).map fun (selected, bounds) =>
      { parser := parser.clean
        bounds
        mails := if selected then st.mails ++ [eml.1] else st.mails }

/-- `/^(\d{14})\-\d+\.eml/`. -/
def emlTime (name : Bytes) : Option Bytes :=
  let time := name.take 14
  match name.drop 14 with
  | 45 :: rest =>
      if time.all isDigit && rest.takeWhile isDigit ≠ [] &&
          bytes ".eml" <+: rest.dropWhile isDigit then
        some time
      else none
  | _ => none

/-- `get_file_list`. -/
def getFileList : List Bytes := host.names.filter fun name => bytes ".eml" <:+: name

/-- The files of the log that the loop opens, and what is in them. -/
def openedFiles (req : LogReq) : List (Bytes × Bytes) :=
  (getFileList host).filterMap fun name => do
    let time ← emlTime name
    if isTrue req.startTime && isTrue req.endTime &&
        (host.less time req.startTime || host.less req.endTime time) then
      none
    else (host.opens name).map fun content => (name, content)

/-- `CATE_LOGRULE_RESULT`. -/
def cateLogruleResult : Bytes := bytes "0000000006"

/-- `GAISC_resp_log_update` up to the reply, which has the fields of one's own packets otherwise,
and the mails that logs are made of. -/
def respLogUpdate (own pkg : Pkg) (b : SizeBounds) : Option (Pkg × List Bytes) :=
  let req := parseLogreqToFilterdb host.stamp pkg.data
  if !host.loads then none
  else
    ((openedFiles host req).foldlM (logMail host req)
      { parser := { types := host.types }, bounds := b }).map fun st =>
        ({ own with data_cate := cateLogruleResult, data := dataSucc }, st.mails)

/-! ## What an answer depends on -/

/-- Nothing dies on a mail: it can be parsed, the address is a pattern, and if that is found in the
head of the mail then the check of the keywords returns where the request has a size and the size is
the one of the mail, or there is at most one keyword where the request has no size. -/
def Safe (line : Bytes) (b : SizeBounds) (content : Bytes) : Prop :=
  ∃ e, host.entity content = some e ∧
    let m := mailInfo host.types e
    let rule := (parseLogreqToFilterdb host.stamp line).rule
    let ip := logPart line 2
    (ip = [] ∨ (host.search ip m.head.content).isSome = true) ∧
      (ip = [] ∨ host.search ip m.head.content = some true →
        if isTrue (logPart line 5) then
          (checkSizeRule (bytes "AND") (.hash (sizeRule rule)) m b).1 = true →
            (host.checkKeyword rule m).isSome = true
        else (fields 59 (logPart line 3)).length ≤ 1)

/-! ## The checks -/

variable {host} {line : Bytes} {m : MailInfo} {b : SizeBounds}

theorem isArray_logKeywords (text : Bytes) (entry : KeywordEntry) :
    (∃ rs, logKeywords text entry = .array rs) ∧ 2 ≤ (fields 59 text).length ∨
      (∃ k, logKeywords text entry = .hash k) ∧ (fields 59 text).length ≤ 1 := by
  unfold logKeywords
  split
  · rename_i k k' ks heq
    refine Or.inl ⟨⟨_, rfl⟩, ?_⟩
    rw [heq]
    exact Nat.le_add_left 2 ks.length
  · rename_i hfew
    refine Or.inr ⟨⟨_, rfl⟩, ?_⟩
    cases hfields : fields 59 text with
    | nil => exact Nat.zero_le 1
    | cons k ks =>
      cases ks with
      | nil => exact le_rfl
      | cons k' ks => exact absurd hfields (hfew k k' ks)

theorem size_parseLogreq (stamp : Bytes) :
    ((parseLogreqToFilterdb stamp line).rule.size.bind SizeEntry.sizevalue).isSome =
      isTrue (logPart line 5) := by
  unfold parseLogreqToFilterdb logSize
  by_cases h : isTrue (logPart line 5) = true
  · rw [h]
    rfl
  · rw [Bool.eq_false_of_not_eq_true h]
    rfl

/-- A rule without a size matches no mail, and its keywords are not looked at. -/
theorem checkLogRule_of_no_size {r : FilterInfo (SubRules KeywordEntry)} (h : r.size = none) :
    checkLogRule host r m b = some (false, b) := by
  have hrule : sizeRule r = ⟨[], []⟩ := by
    rw [sizeRule, h]
    rfl
  rw [checkLogRule, hrule]
  rfl

theorem isSome_checkLogRule_iff (r : FilterInfo (SubRules KeywordEntry)) :
    (checkLogRule host r m b).isSome = true ↔
      ((checkSizeRule (bytes "AND") (.hash (sizeRule r)) m b).1 = true →
        (host.checkKeyword r m).isSome = true) := by
  unfold checkLogRule
  dsimp only
  split_ifs with hsize
  · rw [Option.isSome_map]
    exact ⟨fun h _ => h, fun h => h hsize⟩
  · exact iff_of_true rfl fun h => absurd h hsize

/-- With the address found, a mail is selected or not, unless an array is taken for a hash or the
check of a keyword dies. -/
theorem isSome_selectMail_of_found
    (h : logPart line 2 = [] ∨ host.search (logPart line 2) m.head.content = some true) :
    (selectMail host (parseLogreqToFilterdb host.stamp line) m b).isSome = true ↔
      if isTrue (logPart line 5) then
        (checkSizeRule (bytes "AND")
            (.hash (sizeRule (parseLogreqToFilterdb host.stamp line).rule)) m b).1 = true →
          (host.checkKeyword (parseLogreqToFilterdb host.stamp line).rule m).isSome = true
      else (fields 59 (logPart line 3)).length ≤ 1 := by
  have hfound : (if (parseLogreqToFilterdb host.stamp line).ip = [] then some true
      else host.search (parseLogreqToFilterdb host.stamp line).ip m.head.content) = some true := by
    rcases h with h | h
    · exact if_pos h
    · split_ifs
      · rfl
      · exact h
  rw [selectMail, hfound]
  dsimp only
  rw [size_parseLogreq]
  by_cases hsize : isTrue (logPart line 5) = true
  · rw [if_pos hsize, if_pos hsize]
    exact isSome_checkLogRule_iff _
  · rw [if_neg hsize, if_neg hsize]
    have hnone : (parseLogreqToFilterdb host.stamp line).rule.size = none := if_neg hsize
    rcases isArray_logKeywords (logPart line 3) { type := 0, key := some 7, decode := some 1 } with
      ⟨⟨rs, hrs⟩, hmany⟩ | ⟨⟨k, hk⟩, hfew⟩
    · have hkeyword : (parseLogreqToFilterdb host.stamp line).rule.ruleKeyword = .array rs := hrs
      rw [hkeyword]
      exact iff_of_false (fun h => by cases h) (by omega)
    · have hkeyword : (parseLogreqToFilterdb host.stamp line).rule.ruleKeyword = .hash k := hk
      rw [hkeyword]
      refine iff_of_true ?_ hfew
      dsimp only
      split_ifs
      · rw [checkLogRule_of_no_size hnone]
        rfl
      · rfl

theorem isSome_selectMail_iff :
    (selectMail host (parseLogreqToFilterdb host.stamp line) m b).isSome = true ↔
      (logPart line 2 = [] ∨ (host.search (logPart line 2) m.head.content).isSome = true) ∧
        (logPart line 2 = [] ∨ host.search (logPart line 2) m.head.content = some true →
          if isTrue (logPart line 5) then
            (checkSizeRule (bytes "AND")
                (.hash (sizeRule (parseLogreqToFilterdb host.stamp line).rule)) m b).1 = true →
              (host.checkKeyword (parseLogreqToFilterdb host.stamp line).rule m).isSome = true
          else (fields 59 (logPart line 3)).length ≤ 1) := by
  by_cases hfound : logPart line 2 = [] ∨ host.search (logPart line 2) m.head.content = some true
  · have hvalid : logPart line 2 = [] ∨
        (host.search (logPart line 2) m.head.content).isSome = true := by
      refine hfound.imp_right fun h => ?_
      rw [h]
      rfl
    rw [isSome_selectMail_of_found hfound, and_iff_right hvalid, forall_prop_of_true hfound]
  · rw [not_or] at hfound
    have hip : (parseLogreqToFilterdb host.stamp line).ip = logPart line 2 := rfl
    rw [selectMail, hip, if_neg hfound.1, or_iff_right hfound.1, or_iff_right hfound.1]
    cases hsearch : host.search (logPart line 2) m.head.content with
    | none => exact iff_of_false (fun h => by cases h) fun h => by cases h.1
    | some here =>
      cases here with
      | true => exact absurd hsearch hfound.2
      | false => exact iff_of_true rfl ⟨rfl, fun h => by cases h⟩

/-- What a mail leaves of the bounds is what the comparison with the size has left. -/
theorem bounds_selectMail {req : LogReq} {selected : Bool} {b' : SizeBounds}
    (h : selectMail host req m b = some (selected, b')) :
    b' = b ∨ b' = (checkSizeRule (bytes "AND") (.hash (sizeRule req.rule)) m b).2 := by
  have hrule : ∀ {selected b'}, checkLogRule host req.rule m b = some (selected, b') →
      b' = (checkSizeRule (bytes "AND") (.hash (sizeRule req.rule)) m b).2 := by
    intro selected b' h
    unfold checkLogRule at h
    dsimp only at h
    split_ifs at h
    · obtain ⟨holds, -, heq⟩ := Option.map_eq_some_iff.1 h
      exact (congrArg Prod.snd heq).symm
    · exact (congrArg Prod.snd (Option.some.inj h)).symm
  unfold selectMail at h
  split at h
  · cases h
  · exact Or.inl (congrArg Prod.snd (Option.some.inj h)).symm
  · split_ifs at h
    · exact Or.inr (hrule h)
    · split at h
      · cases h
      · split_ifs at h
        · exact Or.inr (hrule h)
        · exact Or.inl (congrArg Prod.snd (Option.some.inj h)).symm

/-! ## The answer -/

/-- One turn of the loop, with a clean parser and bounds for which the size has the same answers. -/
theorem isSome_logMail_iff {st : LogState} (hparser : st.parser = { types := host.types })
    (hsame : ∀ m, (checkSizeRule (bytes "AND")
        (.hash (sizeRule (parseLogreqToFilterdb host.stamp line).rule)) m st.bounds).1 =
      (checkSizeRule (bytes "AND")
        (.hash (sizeRule (parseLogreqToFilterdb host.stamp line).rule)) m b).1)
    (eml : Bytes × Bytes) :
    (logMail host (parseLogreqToFilterdb host.stamp line) st eml).isSome = true ↔
      Safe host line b eml.2 := by
  unfold logMail Safe
  rw [hparser]
  cases host.entity eml.2 with
  | none =>
    refine iff_of_false (fun h => by cases h) ?_
    rintro ⟨e, he, -⟩
    cases he
  | some e =>
    have hsafe := @isSome_selectMail_iff host line (mailInfo host.types e) st.bounds
    rw [hsame] at hsafe
    dsimp only [Parser.getMailInfo]
    rw [Option.isSome_map, hsafe]
    constructor
    · exact fun h => ⟨e, rfl, h⟩
    · rintro ⟨e', he, h⟩
      obtain rfl := Option.some.inj he
      exact h

/-- After a turn the parser is clean, and the bounds are the old ones or those of the size. -/
theorem state_logMail {req : LogReq} {st st' : LogState} {eml : Bytes × Bytes}
    (hparser : st.parser = { types := host.types }) (h : logMail host req st eml = some st') :
    st'.parser = { types := host.types } ∧
      (st'.bounds = st.bounds ∨
        ∃ m, st'.bounds =
          (checkSizeRule (bytes "AND") (.hash (sizeRule req.rule)) m st.bounds).2) := by
  unfold logMail at h
  rw [hparser] at h
  cases he : host.entity eml.2 with
  | none =>
    rw [he] at h
    cases h
  | some e =>
    rw [he] at h
    obtain ⟨⟨selected, b'⟩, hselect, rfl⟩ := Option.map_eq_some_iff.1 h
    exact ⟨rfl, (bounds_selectMail hselect).imp_right fun hb => ⟨_, hb⟩⟩

/-- **A request for logs is answered** exactly when the rule databases can be loaded and nothing
dies on any of the mails that the loop opens. -/
theorem answered_iff (own pkg : Pkg) (b : SizeBounds) :
    (respLogUpdate host own pkg b).isSome = true ↔
      host.loads = true ∧
        ∀ eml ∈ openedFiles host (parseLogreqToFilterdb host.stamp pkg.data),
          Safe host pkg.data b eml.2 := by
  obtain ⟨P, hPb, hsteady⟩ :=
    exists_steadySize (sizeRule (parseLogreqToFilterdb host.stamp pkg.data).rule).sizevalue b
  have hsize : ∀ m, Steady P (checkSizeRule (bytes "AND")
      (.hash (sizeRule (parseLogreqToFilterdb host.stamp pkg.data).rule)) m) := by
    intro m
    refine steady_checkSubRules _ fun r hr => ?_
    rw [SubRules.toList, List.mem_singleton] at hr
    rw [hr]
    exact steady_checkSingleSizeRule hsteady m
  -- the bounds a mail finds are not those of the start, but the size has the same answer for them
  have hstep : ∀ (st : LogState) (eml : Bytes × Bytes),
      st.parser = { types := host.types } ∧ P st.bounds →
        ((logMail host (parseLogreqToFilterdb host.stamp pkg.data) st eml).isSome = true ↔
          Safe host pkg.data b eml.2) :=
    fun st eml hst => isSome_logMail_iff hst.1 (fun m => (hsize m _ _ hst.2 hPb).1) eml
  have hkept : ∀ (st : LogState) (eml : Bytes × Bytes) (st' : LogState),
      st.parser = { types := host.types } ∧ P st.bounds →
        logMail host (parseLogreqToFilterdb host.stamp pkg.data) st eml = some st' →
          st'.parser = { types := host.types } ∧ P st'.bounds := by
    intro st eml st' hst h
    obtain ⟨hparser, hbounds | ⟨m, hbounds⟩⟩ := state_logMail hst.1 h
    · exact ⟨hparser, hbounds ▸ hst.2⟩
    · exact ⟨hparser, hbounds ▸ (hsize m _ _ hst.2 hst.2).2⟩
  have hrun := @Machine.isSome_foldlM_iff _ _ { parser := { types := host.types }, bounds := b }
    (openedFiles host (parseLogreqToFilterdb host.stamp pkg.data)) _ _ _ hstep hkept ⟨rfl, hPb⟩
  rw [← hrun, respLogUpdate]
  cases host.loads with
  | false => simp
  | true => simp

end Response

/-- A server with one mail in its log. -/
def oneMail : LogHost where
  names := [bytes "20040411021903-7.eml"]
  opens _ := some []
  entity _ := some (.mk ⟨[], []⟩ (bytes "text/plain") none none [])
  less _ _ := false
  search _ _ := some true
  checkSingleKeywordRule _ _ := some true
  stamp := []

/-- A request for the mails with one of two words. -/
def twoWords : Pkg := { ping with data := bytes "20040411000000,20040412000000,,a;b,00" }

/-- The request is not answered: two words without a size. -/
theorem two_words_unanswered :
    ¬ ∀ pkg, (respLogUpdate oneMail ping pkg {}).isSome = true := fun h =>
  absurd (h twoWords) (by decide +kernel)

end NoSpam.GA
