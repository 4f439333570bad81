import NoSpam.Command.Quarantine
import NoSpam.Mail.Copies
import NoSpam.Mail.Frame
import NoSpam.Mail.Session

/-!
# From the administrator's quarantine back to the recipients

A mail that the content engine puts into quarantine, and the order to pass it on.  The mail is
stored once for every registered recipient under one name, and the info file that remains names
the last of them.
-/

namespace NoSpam

open Text Perl Conf Quarantine Command

/-! ## Passing a mail on -/

namespace Command

/-- The order to pass a file on. -/
def passOn (file : Bytes) : Input := ⟨49 :: 44 :: (file ++ [44, 70]), true, true⟩

theorem parseOrder_passOn {file : Bytes} (hne : file ≠ []) (h : 44 ∉ file) :
    parseOrder (chomp (passOn file).line) = some ⟨[49], file, [70]⟩ := by
  have hlast : (passOn file).line.getLast? = some 70 := by
    have happend : (passOn file).line = (49 :: 44 :: (file ++ [44])) ++ [70] := by simp [passOn]
    rw [happend, List.getLast?_concat]
  have hchomp : chomp (passOn file).line = (passOn file).line := by
    unfold chomp
    rw [hlast, if_neg (by decide)]
  have hall : ∀ x ∈ file, decide (x ≠ 44) = true := by
    intro x hx
    rw [decide_eq_true_eq]
    rintro rfl
    exact h hx
  obtain ⟨htake, hdrop⟩ := takeWhile_append_cons hall
    (by decide : decide ((44 : UInt8) ≠ 44) = false) [70]
  have hparse : parseHere (passOn file).line = some ⟨[49], file, [70]⟩ := by
    have hdigit : isDigit 49 = true := rfl
    have hcomma : isDigit 44 = false := rfl
    have hword : isWord 70 = true := rfl
    have huc : uc [70] = [70] := rfl
    unfold parseHere passOn
    dsimp only
    rw [List.takeWhile_cons_of_pos hdigit, List.dropWhile_cons_of_pos hdigit,
      List.takeWhile_cons_of_neg (by simp [hcomma]), List.dropWhile_cons_of_neg (by simp [hcomma])]
    dsimp only
    rw [htake, hdrop]
    simp [hne, hword, huc]
  rw [hchomp]
  unfold passOn at hparse ⊢
  dsimp only at hparse ⊢
  rw [parseOrder, hparse, Option.some_or]

/-- What an order to pass a file on sends. -/
theorem sent_passOn {file : Bytes} (hne : file ≠ []) (h : 44 ∉ file) (fs : Store Bytes Bytes) :
    (Desk.processLine ⟨fs, [], []⟩ (passOn file)).sent =
      let info := ((fs (infoPath file)).map getQuarantineInfo).getD ⟨[], [], [], [], [], []⟩
      match fs file with
      | some message => [(sendEnvelope info.mailfrom info.mailto, message)]
      | none => [] := by
  have hF : bytes "F" = [70] := by decide
  unfold Desk.processLine
  rw [parseOrder_passOn hne h]
  unfold Desk.perform Desk.info Desk.send passOn
  dsimp only
  rw [if_pos hF.symm, if_pos rfl, if_pos rfl]
  cases fs file <;> rfl

/-- A list of one recipient is sent as it is. -/
theorem sendEnvelope_of_one {sender r : Bytes} (hr : 44 ∉ r) (e : Envelope) (hs : e.sender = sender)
    (he : e.recips = [r]) : sendEnvelope sender r = e.encode := by
  unfold sendEnvelope Envelope.encode Envelope.encodeRecips
  rw [if_neg hr, hs, he]
  simp

end Command

/-! ## What the engines have left -/

/-- The registered recipients are known only from a list in a file. -/
theorem qUsers_of_quarantineEntry (cfg : Config) (o : Outside) {a : Aka} {x : Entry}
    (h : quarantineEntry cfg o a = some x) :
    x.qUsers = if cfg.quarantineEngine.userListDB = some (bytes "File") then fields 44 a.recips
      else [] := by
  unfold quarantineEntry at h
  cases hdb : cfg.quarantineEngine.userListDB with
  | none =>
    rw [hdb] at h
    obtain rfl := Option.some.inj h
    rfl
  | some db =>
    rw [hdb] at h
    dsimp only at h
    by_cases hdis : db = bytes "Disabled"
    · rw [if_pos hdis] at h
      obtain rfl := Option.some.inj h
      rw [hdis, if_neg (by decide)]
      rfl
    · rw [if_neg hdis] at h
      by_cases hfile : db = bytes "File"
      · rw [if_pos hfile] at h
        rw [hfile, if_pos rfl]
        unfold isUserExist at h
        by_cases hnil : fields 44 a.recips = []
        · rw [if_pos hnil] at h
          obtain rfl := Option.some.inj h
          rw [hnil]
          rfl
        · rw [if_neg hnil] at h
          obtain rfl := Option.some.inj h
          rfl
      · rw [if_neg hfile] at h
        cases h

theorem quarantineEntry_eq_none (cfg : Config) (o : Outside) {a : Aka}
    (h : quarantineEntry cfg o a = none) :
    cfg.quarantineEngine.userListDB ≠ some (bytes "File") := by
  intro hdb
  unfold quarantineEntry at h
  rw [hdb] at h
  dsimp only at h
  rw [if_neg (by decide), if_pos rfl] at h
  cases hu : isUserExist (fields 44 a.recips) with
  | none =>
    rw [hu] at h
    cases h
  | some q =>
    rw [hu] at h
    cases h

theorem qUsers_quarantineEngine (cfg : Config) (o : Outside) {a : Aka}
    (h : (a.engine .quarantine).qUsers = []) :
    ((quarantineEngine cfg o a).engine .quarantine).qUsers =
      if ¬ quarantineSkips a = true ∧ cfg.quarantineEngine.userListDB = some (bytes "File") then
        fields 44 a.recips
      else [] := by
  unfold quarantineEngine
  by_cases hskip : quarantineSkips a = true
  · rw [if_pos hskip, if_neg (fun hc => hc.1 hskip), h]
  rw [if_neg hskip, if_congr (and_iff_right hskip) rfl rfl]
  cases hentry : quarantineEntry cfg o a with
  | none =>
    rw [if_neg (quarantineEntry_eq_none cfg o hentry), Aka.engine_dropIf]
    exact h
  | some x =>
    rw [Aka.engine_dropIf, Aka.engine_setEntry_self]
    exact qUsers_of_quarantineEntry cfg o hentry

namespace Mail

/-- The mail is filed for the recipients found in the user list. -/
def Filed (cfg : Config) (r : Request) (e : Envelope) : Prop :=
  (¬ quarantineSkips (recvMailInfoEx r.stdin) = true ∧
      cfg.quarantineEngine.userListDB = some (bytes "File")) ∧
    fields 44 (joinFields 44 e.recips) ≠ []

/-- The mail as the engines find it. -/
def entering (r : Request) (m : Mail) : Mail := (m.receive recvMailInfoEx r).start r.outside

section Facts

variable {r : Request} {e : Envelope} (hc : Loader.Carries r e) (m : Mail)
include hc

/-- What the engines are told about a mail of the loader. -/
theorem aka_entering :
    (m.entering r).aka.returnpath = e.sender ∧ (m.entering r).aka.recips = joinFields 44 e.recips ∧
      (m.entering r).aka.emlfilename = r.file ∧ (m.entering r).aka.drop = false ∧
      ((m.entering r).aka.engine .quarantine).qUsers = [] ∧
      quarantineSkips (m.entering r).aka = quarantineSkips (recvMailInfoEx r.stdin) := by
  have hfile : (m.receive recvMailInfoEx r).fs (m.receive recvMailInfoEx r).aka.emlfilename =
      some r.message := by
    show Store.write r.file r.message m.fs (recvMailInfoEx r.stdin).emlfilename = _
    rw [hc.emlfilename, Store.write_self]
  obtain ⟨hsender, hrecips⟩ :=
    e.readEnvelope_of_encode (a := initEngineInfo r.outside.tr (recvMailInfoEx r.stdin)) hc.fd1
  unfold entering start getMailBaseInfo
  rw [hfile]
  refine ⟨hsender, hrecips, ?_, ?_, ?_, ?_⟩
  · rw [← hc.emlfilename]
    unfold readEnvelope
    dsimp only
    split_ifs <;> rfl
  all_goals
    unfold readEnvelope
    dsimp only
    split_ifs <;> rfl

/-- The recipients for whom the mail is filed. -/
theorem registered_runEngines :
    registered ((m.entering r).runEngines r.outside).aka =
      if ¬ quarantineSkips (recvMailInfoEx r.stdin) = true ∧
          m.config.quarantineEngine.userListDB = some (bytes "File") then
        fields 44 (joinFields 44 e.recips)
      else [] := by
  obtain ⟨-, hrecips, -, hdrop, husers, hskips⟩ := aka_entering hc m
  obtain ⟨hsame, hentry⟩ := runEngines_frame r.outside (m.entering r)
  have hopen : ¬ Dropped (m.entering r) := by
    rw [Dropped, hdrop]
    decide
  have hqUsers : ((quarantineStage r.outside (m.entering r)).aka.engine .quarantine).qUsers =
      if ¬ quarantineSkips (recvMailInfoEx r.stdin) = true ∧
          m.config.quarantineEngine.userListDB = some (bytes "File") then
        fields 44 (joinFields 44 e.recips)
      else [] := by
    rw [← hskips, ← hrecips]
    exact qUsers_quarantineEngine (m.entering r).config r.outside husers
  have hx : ((m.entering r).runEngines r.outside).aka.recips = joinFields 44 e.recips := by
    rw [hsame.aka]
    exact hrecips
  unfold registered
  rw [hx, hentry, Gate.guarded, if_neg hopen, hqUsers]
  split_ifs
  · exact List.filter_eq_self.2 fun x hx => by simpa using hx
  · exact List.filter_eq_nil_iff.2 fun x _ => by simp

end Facts

/-- The quarantine holds the mail under a name, with an info file, and the order to pass it on sends
it from its sender to all of its recipients. -/
def Releasable (e : Envelope) (path message : Bytes) (fs : Store Bytes Bytes) : Prop :=
  fs path = some message ∧ (fs (infoPath path)).isSome ∧
    ∃ e' : Envelope, e'.sender = e.sender ∧ (∀ r ∈ e.recips, r ∈ e'.recips) ∧
      (Desk.processLine ⟨fs, [], []⟩ (passOn path)).sent = [(e'.encode, message)]

section Releasable

variable {e : Envelope} {path message : Bytes} {fs fs' : Store Bytes Bytes}

theorem releasable_congr (hne : path ≠ []) (hcomma : 44 ∉ path) (h : fs path = fs' path)
    (hinfo : fs (infoPath path) = fs' (infoPath path)) :
    Releasable e path message fs ↔ Releasable e path message fs' := by
  unfold Releasable
  rw [sent_passOn hne hcomma, sent_passOn hne hcomma, h, hinfo]

/-- A mail stored with an info for one recipient can be passed on to all of its recipients when
they are all this one. -/
theorem releasable_iff_of_info (hne : path ≠ []) (hcomma : 44 ∉ path) {i : Info} {rcpt : Bytes}
    (hi : i.mailfrom = e.sender) (hto : i.mailto = rcpt) (hsolid : Solid rcpt) (hto44 : 44 ∉ rcpt)
    (hinfo : fs (infoPath path) = some (makeInfoContent i)) :
    Releasable e path message fs ↔ fs path = some message ∧ ∀ r ∈ e.recips, r = rcpt := by
  have hspace : ∀ {b : Bytes}, Solid b → 10 ∉ b := fun hb h10 => absurd (hb 10 h10).2 (by decide)
  obtain ⟨hfrom, hmailto⟩ := getQuarantineInfo_makeInfoContent i
    (by rw [hi]; exact hspace e.solid_sender) (by rw [hto]; exact hspace hsolid)
  let e₁ : Envelope := ⟨e.sender, [rcpt], e.solid_sender, by simpa using hsolid⟩
  have hsend : sendEnvelope (getQuarantineInfo (makeInfoContent i)).mailfrom
      (getQuarantineInfo (makeInfoContent i)).mailto = e₁.encode := by
    rw [hfrom, hmailto, hi, hto]
    exact sendEnvelope_of_one hto44 e₁ rfl rfl
  unfold Releasable
  rw [sent_passOn hne hcomma, hinfo]
  dsimp only [Option.map_some, Option.getD_some]
  rw [hsend]
  constructor
  · rintro ⟨hstored, -, e', -, hall, hsent⟩
    rw [hstored] at hsent
    have hencode : e₁.encode = e'.encode := by simpa using hsent
    refine ⟨hstored, fun r hr => ?_⟩
    have hmem := hall r hr
    rw [← (Envelope.encode_injective hencode).2] at hmem
    exact List.mem_singleton.1 hmem
  · rintro ⟨hstored, hall⟩
    refine ⟨hstored, rfl, e₁, rfl, fun r hr => List.mem_singleton.2 (hall r hr), ?_⟩
    rw [hstored]

end Releasable

theorem solid_of_mem_fields (e : Envelope) {f : Bytes}
    (h : f ∈ fields 44 (joinFields 44 e.recips)) : Solid f := by
  intro c hc
  rcases mem_of_mem_joinFields (mem_of_mem_fields h hc) with rfl | ⟨r, hr, hc⟩
  · decide
  · exact e.solid_recips r hr c hc

/-- All recipients are one. -/
def OneRecipient (e : Envelope) : Prop :=
  ∃ rcpt, rcpt ≠ [] ∧ 44 ∉ rcpt ∧ e.recips ≠ [] ∧ ∀ r ∈ e.recips, r = rcpt

/-- The recipients looked up are all the last of them exactly when the mail has only one. -/
theorem forall_eq_getLast_iff (e : Envelope) (h : fields 44 (joinFields 44 e.recips) ≠ []) :
    (∀ r ∈ e.recips, r = (fields 44 (joinFields 44 e.recips)).getLast h) ↔ OneRecipient e := by
  constructor
  · intro hall
    refine ⟨_, getLast_fields_ne_nil h, not_mem_of_mem_fields (List.getLast_mem h), ?_, hall⟩
    rintro hnil
    rw [hnil] at h
    exact h rfl
  · rintro ⟨rcpt, hne, hcomma, hrecips, hall⟩ r hr
    have hfields : fields 44 (joinFields 44 e.recips) = e.recips := by
      rw [fields_joinFields_iff]
      refine ⟨fun x hx => ?_, fun hx => ?_⟩
      · rwa [hall x hx]
      · rwa [hall _ (List.getLast_mem hx)]
    have hsubset : fields 44 (joinFields 44 e.recips) ⊆ e.recips := by
      rw [hfields]
      exact List.Subset.refl _
    rw [hall r hr, hall _ (hsubset (List.getLast_mem h))]

section Main

variable {r : Request} {e : Envelope} (hc : Loader.Carries r e) (m : Mail)
include hc

theorem not_prefix_file : ¬ quarantinedir <+: r.file := by
  obtain ⟨time, pid, hname⟩ := hc.name
  rw [hname]
  exact not_prefix_emlfile time pid

theorem comma_not_mem_adminPath : 44 ∉ adminPath (baseName r.file) := by
  obtain ⟨time, pid, hname⟩ := hc.name
  have hfile : 44 ∉ r.file := by
    rw [hname]
    exact Loader.not_mem_emlfile (by decide) (by decide) (by decide) time pid
  have hbase : 44 ∉ baseName r.file := fun h => hfile ((List.rtakeWhile_suffix _ _).subset h)
  unfold adminPath
  simp only [List.mem_append, hbase, or_false, not_or]
  decide

omit hc in
theorem adminPath_ne_nil (filename : Bytes) : adminPath filename ≠ [] := by
  unfold adminPath
  simp [quarantinedir, bytes]

section Stored

variable (hlic : m.licenseOk = true)
  (hq : (((m.entering r).runEngines r.outside).aka.engine .content).action = actionQuarantine)
include hlic hq

omit hc in
/-- What a mail quarantined by its content leaves in the files. -/
theorem fs_netProcessEx :
    (m.netProcessEx r).fs =
      quarantineAction .admin (bytes "C")
        (((m.entering r).runEngines r.outside).aka.engine .content).desc
        ((m.entering r).runEngines r.outside).aka (Store.write r.file r.message m.fs) := by
  have hdrops : Drops ((m.entering r).runEngines r.outside).aka .content := by
    rw [Drops, hq]
    decide
  have hunique : Unique ((m.entering r).runEngines r.outside).aka :=
    unique_runEngines r.outside (m.receive recvMailInfoEx r)
  have hfs := (runEngines_frame r.outside (m.entering r)).1.fs
  unfold netProcessEx
  rw [process_of_licensed r.outside (m := m.receive recvMailInfoEx r) hlic]
  show (((m.entering r).runEngines r.outside).verdict r.outside).fs = _
  rw [verdict, decider_eq_some hunique hdrops]
  unfold act
  dsimp only
  rw [hq, if_neg (by decide), if_neg (by decide)]
  show quarantineAction .admin (bytes "C") _ _ ((m.entering r).runEngines r.outside).fs = _
  rw [hfs]
  rfl

/-- A mail that is filed is stored by the first turn, under a name that was free, and the last turn
has written the info file. -/
theorem stored_of_filed (hfiled : Filed m.config r e) :
    (m.netProcessEx r).fs (adminPath (baseName r.file)) =
        (m.fs (adminPath (baseName r.file))).or (some r.message) ∧
      ∃ i : Info, i.mailfrom = e.sender ∧
        i.mailto = (fields 44 (joinFields 44 e.recips)).getLast hfiled.2 ∧
        (m.netProcessEx r).fs (infoPath (adminPath (baseName r.file))) =
          some (makeInfoContent i) := by
  obtain ⟨hsender, -, heml, -, -, -⟩ := aka_entering hc m
  have hframe := (runEngines_frame r.outside (m.entering r)).1.aka
  have hregistered := registered_runEngines hc m
  rw [if_pos hfiled.1] at hregistered
  rw [fs_netProcessEx m hlic hq, quarantineAction_eq]
  set x := ((m.entering r).runEngines r.outside).aka
  have heml' : x.emlfilename = r.file := by rw [hframe]; exact heml
  have hsender' : x.returnpath = e.sender := by rw [hframe]; exact hsender
  have hnot : ¬ quarantinedir <+: x.emlfilename := by
    rw [heml']
    exact not_prefix_file hc
  have htarget : ∀ rcpt, target .admin x rcpt = some (adminPath (baseName r.file)) := fun rcpt => by
    rw [target, heml']
  have hcopy : IsCopyName x (adminPath (baseName r.file)) := isCopyName_of_target (htarget [])
  have hsplit : ∀ rcpt ∈ registered x, 44 ∉ rcpt := fun _ => comma_not_mem_of_registered
  constructor
  · cases hreg : registered x with
    | nil => exact absurd (hregistered.symm.trans hreg) hfiled.2
    | cons r₁ rs =>
      have hne := (hcopy.ne_emlfilename hnot).1
      rw [hreg] at hsplit
      rw [heml'] at hne
      rw [turns_copy hsplit hnot hcopy, if_pos (htarget r₁), heml', Store.write_self,
        Store.write_of_ne hne]
  · have hall : (registered x).filter
        (fun rcpt => target .admin x rcpt = some (adminPath (baseName r.file))) = registered x :=
      List.filter_eq_self.2 fun rcpt _ => by simpa using htarget rcpt
    refine ⟨infoOf x (bytes "C") (x.engine .content).desc _, hsender', rfl, ?_⟩
    rw [turns_info hsplit hnot hcopy, hall, hregistered, List.getLast?_eq_some_getLast hfiled.2]

/-- A mail that is not filed leaves the administrator's quarantine as it was. -/
theorem kept_of_not_filed (hfiled : ¬ Filed m.config r e) :
    (m.netProcessEx r).fs (adminPath (baseName r.file)) = m.fs (adminPath (baseName r.file)) ∧
      (m.netProcessEx r).fs (infoPath (adminPath (baseName r.file))) =
        m.fs (infoPath (adminPath (baseName r.file))) := by
  obtain ⟨-, -, heml, -, -, -⟩ := aka_entering hc m
  have hnone : registered ((m.entering r).runEngines r.outside).aka = [] := by
    rw [registered_runEngines hc m]
    split_ifs with hfile
    · by_contra hfields
      exact hfiled ⟨hfile, hfields⟩
    · rfl
  have htarget : target .admin (m.entering r).aka [] = some (adminPath (baseName r.file)) := by
    rw [target, heml]
  have hcopy : IsCopyName (m.entering r).aka (adminPath (baseName r.file)) :=
    isCopyName_of_target htarget
  have hne := hcopy.ne_emlfilename (by rw [heml]; exact not_prefix_file hc)
  rw [heml] at hne
  rw [fs_netProcessEx m hlic hq, quarantineAction_eq, hnone, List.foldl_nil]
  exact ⟨Store.write_of_ne hne.1, Store.write_of_ne hne.2⟩

/-- **The administrator's quarantine loses neither mail nor recipients** exactly when the mail is
filed, has only one recipient and finds its name free or taken by itself; a mail that is not filed
is there only if it was before. -/
theorem releasable_iff :
    Releasable e (adminPath (baseName r.file)) r.message (m.netProcessEx r).fs ↔
      (Filed m.config r e ∧ OneRecipient e ∧
          (m.fs (adminPath (baseName r.file)) = none ∨
            m.fs (adminPath (baseName r.file)) = some r.message)) ∨
        (¬ Filed m.config r e ∧ Releasable e (adminPath (baseName r.file)) r.message m.fs) := by
  have hne := adminPath_ne_nil (baseName r.file)
  have hcomma := comma_not_mem_adminPath hc
  by_cases hfiled : Filed m.config r e
  · obtain ⟨hstored, i, hfrom, hto, hinfo⟩ := stored_of_filed hc m hlic hq hfiled
    have hlast := List.getLast_mem hfiled.2
    have hslot : (m.fs (adminPath (baseName r.file))).or (some r.message) = some r.message ↔
        m.fs (adminPath (baseName r.file)) = none ∨
          m.fs (adminPath (baseName r.file)) = some r.message := by
      cases m.fs (adminPath (baseName r.file)) <;> simp
    rw [releasable_iff_of_info hne hcomma hfrom hto (solid_of_mem_fields e hlast)
      (not_mem_of_mem_fields hlast) hinfo, hstored, hslot, forall_eq_getLast_iff e hfiled.2]
    simp only [hfiled, true_and, not_true_eq_false, false_and, or_false]
    exact and_comm
  · obtain ⟨hpath, hinfo⟩ := kept_of_not_filed hc m hlic hq hfiled
    rw [releasable_congr hne hcomma hpath hinfo]
    simp only [hfiled, false_and, not_false_eq_true, true_and, false_or]

end Stored

end Main

/-- An object that puts mails about pills into quarantine, with a list of users in a file. -/
def pillsQuarantine : Mail where
  config :=
    { quarantineEngine := { userListDB := some (bytes "File") }
      contentEngine := { contentFilterEngine := bytes "Y", protectDirection := bytes "InOut" } }
  licenseOk := true
  content := Content.Filter.new Content.fileTypes (pills actionQuarantine) ∅

/-- An envelope for one recipient. -/
def forOne : Envelope where
  sender := bytes "d@x.org"
  recips := [bytes "b@y.org"]
  solid_sender := by decide
  solid_recips := by decide

/-- A mail about pills, from inside or from outside. -/
def pillsMail (relayclient : Bool) (e : Envelope) : Request where
  stdin := Loader.transfer ⟨relayclient, bytes "192.0.2.1", [], by decide, by decide⟩
    (Loader.emlfile 1 1) e.encode
  file := Loader.emlfile 1 1
  message := bytes "pills"
  outside := .plain
  order := ⟨Engine.all, .refl _⟩

theorem carries_pillsMail (relayclient : Bool) (e : Envelope) :
    Loader.Carries (pillsMail relayclient e) e := by
  have hip : 10 ∉ bytes "192.0.2.1" := by decide
  obtain ⟨heml, hfd1⟩ := Loader.recvMailInfoEx_transfer
    ⟨relayclient, bytes "192.0.2.1", [], by decide, by decide⟩ hip List.not_mem_nil
    (Loader.isWhite_emlfile 1 1) (Loader.isWhite_encode e)
  exact ⟨⟨1, 1, rfl⟩, heml, hfd1⟩

theorem releasable_inbound :
    Releasable forOne (adminPath (baseName (pillsMail false forOne).file)) (bytes "pills")
      (pillsQuarantine.netProcessEx (pillsMail false forOne)).fs := by
  refine (releasable_iff (carries_pillsMail false forOne) pillsQuarantine rfl
    (by decide +kernel)).2 ?_
  refine Or.inl ⟨?_, ?_, Or.inl rfl⟩
  · exact ⟨⟨by decide +kernel, rfl⟩, by decide⟩
  · exact ⟨bytes "b@y.org", by decide, by decide, by decide, by decide⟩

/-- A mail from inside is put into no quarantine, and it is gone. -/
theorem not_releasable_outbound :
    (((pillsQuarantine.entering (pillsMail true forOne)).runEngines .plain).aka.engine
      .content).action =
        actionQuarantine ∧
      ¬ Releasable forOne (adminPath (baseName (pillsMail true forOne).file)) (bytes "pills")
        (pillsQuarantine.netProcessEx (pillsMail true forOne)).fs := by
  refine ⟨by decide +kernel, ?_⟩
  rintro ⟨hstored, -⟩
  exact absurd hstored (by decide +kernel)

end Mail

end NoSpam
