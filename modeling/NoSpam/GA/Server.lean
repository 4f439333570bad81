import NoSpam.Base.Run
import NoSpam.Files.ConfigTiny
import NoSpam.GA.LogUpdate
import NoSpam.GA.RuleUpdate

/-!
# The server for the centre

`GAISC_server` takes one connection after the other, reads a command from each and carries it out.
A ping brings the account of the file server, which goes into the configuration file, and is
answered with the address of the gateway.  When the process dies it is started again, reads the
configuration and asks the centre for the account.  Over all of this the configuration keeps
everything but the account (`ready_run`), as long as no field of an account contains a carriage
return: `Config::Tiny` would take what follows for a line of its own.
-/

namespace NoSpam.GA

open Text Perl Content ConfigTiny Admin.ConfFile

/-! ## Commands -/

/-- `CATE_MAILRULE_NOTIFY`. -/
def cateMailruleNotify : Bytes := bytes "0000000096"

/-- `CATE_LOGRULE_NOTIFY`. -/
def cateLogruleNotify : Bytes := bytes "0000000094"

/-- `CATE_PING`. -/
def catePing : Bytes := bytes "0000000095"

/-- `CATE_PONG`. -/
def catePong : Bytes := bytes "0000000005"

/-- `CATE_REQ_LINK`. -/
def cateReqLink : Bytes := bytes "0000000001"

/-- What a connection meets: what the other side sends, the file server, the machine, the log, the
bounds that the checks of sizes have left, the time, and whether the centre can be reached for the
notification about logs. -/
structure Visit (ρ : Type) where
  stream : Bytes
  ftp : FtpServer
  machine : Machine ρ
  host : LogHost
  bounds : SizeBounds
  stamp : Bytes
  notified : Bool := true

/-- The configuration file, the configuration that the process has read if it is running, and the
other files. -/
structure Server where
  confFile : Bytes
  process : Option (Assoc Bytes Bytes)
  files : Store Bytes Bytes

/-- The first four fields in a row that are not empty. -/
def fourFields : List Bytes → Option (List Bytes)
  | a :: b :: c :: d :: fs =>
      if a ≠ [] ∧ b ≠ [] ∧ c ≠ [] ∧ d ≠ [] then some [a, b, c, d]
      else fourFields (b :: c :: d :: fs)
  | _ => none

/-- `/([^,]+),([^,]+),([^,]+),([^,]+)/`. -/
def matchLink (data : Bytes) : Option (List Bytes) := fourFields (data.splitOn 44)

/-- The names of the four fields in the configuration. -/
def ftpNames : List Bytes :=
  [bytes "FTPDir", bytes "FTPPort", bytes "FTPUser", bytes "FTPPass"]

/-- `get_conf`. -/
def getConf (file : Bytes) : Assoc Bytes Bytes :=
  ((readString file).map fun C => sect C root).getD Assoc.empty

/-- `_update_config`: the file, unless it cannot be read and there is no object to be written. -/
def updateConfig (config : List (Bytes × Bytes)) (file : Bytes) : Option Bytes :=
  (readString file).map fun C => writeString (assignAll C root config)

/-- A value of the configuration, empty if there is none. -/
def confValue (gaisc : Assoc Bytes Bytes) (key : Bytes) : Bytes := (gaisc.lookup key).getD []

/-- `_make_pkg` without fields of a request. -/
def makePkg (gaisc : Assoc Bytes Bytes) (stamp : Bytes) : Pkg where
  data_id := confValue gaisc (bytes "DataIdentifier")
  sys_id := confValue gaisc (bytes "SystemIdentifier")
  gw_id := confValue gaisc (bytes "GatewayIdentifier")
  timestamp := stamp
  data_cate := cateReqLink
  data := []

/-- `GAISC_resp_ping`: the answer and the server. -/
def respPing (stamp : Bytes) (pkg : Pkg) (s : Server) : Option Pkg × Server :=
  match matchLink pkg.data with
  | none => (none, s)
  | some fs =>
      match updateConfig (ftpNames.zip fs) s.confFile with
      | none => (none, { s with process := none })
      | some file =>
          let gaisc := getConf file
          let data := confValue gaisc (bytes "LocalIP") ++
            44 :: (confValue gaisc (bytes "LocalPort") ++ [44])
          (some { makePkg gaisc stamp with data_cate := catePong, data },
            { s with confFile := file, process := some gaisc })

section Protocol

variable {ρ : Type}

/-- `process_protocol`: the answer, if there is one, and the server. -/
def processProtocol (gaisc : Assoc Bytes Bytes) (v : Visit ρ) (s : Server) :
    Option Pkg × Server :=
  match readCommand v.stream with
  | none => (none, s)
  | some pkg =>
      if pkg.data_cate = cateMailruleNotify then
        match respRuleUpdate v.ftp v.machine pkg s.files with
        | (some reply, files) => (some reply, { s with files })
        | (none, files) => (none, { s with files, process := none })
      else if pkg.data_cate = cateLogruleNotify then
        match respLogUpdate v.host (makePkg gaisc v.stamp) pkg v.bounds with
        | none => (none, { s with process := none })
        | some (reply, mails) =>
            -- without a connection, `close $socket` has nothing to close
            (some reply, if mails ≠ [] ∧ v.notified = false then { s with process := none } else s)
      else if pkg.data_cate = catePing then respPing v.stamp pkg s
      else (none, s)

/-- The start of a process, with what can be read as the answer of the centre to
`GAISC_get_ftp_info`. -/
def boot (link : Bytes) (s : Server) : Server :=
  match (recvPkg link).bind fun pkg => matchLink pkg.data with
  | none => { s with process := some (getConf s.confFile) }
  | some fs =>
      match updateConfig (ftpNames.zip fs) s.confFile with
      | none => s
      | some file => { s with confFile := file, process := some (getConf file) }

/-- A connection, and a start of the process by its supervisor. -/
inductive ServerEvent (ρ : Type)
  | visit (v : Visit ρ)
  | boot (link : Bytes)

/-- The server after an event: connections are taken by a running process, and only a process that
has died is started. -/
def serverStep (s : Server) : ServerEvent ρ → Server
  | .visit v =>
      match s.process with
      | none => s
      | some gaisc => (processProtocol gaisc v s).2
  | .boot link =>
      match s.process with
      | none => boot link s
      | some _ => s

/-! ## The account -/

/-- The account that an event brings. -/
def ServerEvent.link : ServerEvent ρ → Option (List Bytes)
  | .visit v =>
      (readCommand v.stream).bind fun pkg =>
        if pkg.data_cate = catePing then matchLink pkg.data else none
  | .boot link => (recvPkg link).bind fun pkg => matchLink pkg.data

/-- The account that an event leaves: a ping needs a process, and a start that there is none. -/
def accepted (s : Server) (e : ServerEvent ρ) : Option (List Bytes) :=
  match e with
  | .visit _ => if s.process.isSome then e.link else none
  | .boot _ => if s.process.isSome then none else e.link

/-- The last account of a run. -/
def lastLink : Server → List (ServerEvent ρ) → Option (List Bytes)
  | _, [] => none
  | s, e :: es => (lastLink (serverStep s e) es).or (accepted s e)

/-- No field of the account has a carriage return. -/
def ServerEvent.Calm (e : ServerEvent ρ) : Prop := ∀ fs ∈ e.link, ∀ f ∈ fs, 13 ∉ f

end Protocol

/-- The properties of a configuration with an account in the section without a header. -/
def overlay (link : Option (List Bytes)) (C : Params) (ns k : Bytes) : Option Bytes :=
  if ns = root then
    (link.bind fun fs => (Assoc.find k (ftpNames.zip fs)).map strip).or (param C ns k)
  else param C ns k

/-- The file holds the configuration with the account, and so does a running process. -/
structure Ready (C : Params) (link : Option (List Bytes)) (s : Server) : Prop where
  file : ∃ C', readString s.confFile = some C' ∧ ∀ ns k, param C' ns k = overlay link C ns k
  process : ∀ gaisc ∈ s.process, ∀ k, gaisc.lookup k = overlay link C root k

/-! ## The fields of an account -/

theorem length_of_fourFields {l fs : List Bytes} (h : fourFields l = some fs) : fs.length = 4 := by
  induction l using fourFields.induct with
  | case1 a b c d rest hne =>
    rw [fourFields, if_pos hne] at h
    rw [← Option.some_inj.1 h]
    rfl
  | case2 a b c d rest hne ih =>
    rw [fourFields, if_neg hne] at h
    exact ih h
  | case3 l hl =>
    rw [fourFields] at h
    · cases h
    · exact hl

theorem mem_of_fourFields {l fs : List Bytes} (h : fourFields l = some fs) {f : Bytes}
    (hf : f ∈ fs) : f ∈ l := by
  induction l using fourFields.induct with
  | case1 a b c d rest hne =>
    rw [fourFields, if_pos hne] at h
    rw [← Option.some_inj.1 h] at hf
    exact (List.prefix_append [a, b, c, d] rest).subset hf
  | case2 a b c d rest hne ih =>
    rw [fourFields, if_neg hne] at h
    exact List.mem_cons_of_mem a (ih h)
  | case3 l hl =>
    rw [fourFields] at h
    · cases h
    · exact hl

theorem data_of_matchPkg {ending line : Bytes} {pkg : Pkg} (h : matchPkg ending line = some pkg) :
    10 ∉ pkg.data := by
  rw [matchPkg] at h
  obtain ⟨d, hd, rfl⟩ := Option.map_eq_some_iff.1 h
  intro hmem
  have hline := (List.drop_suffix _ _).subset ((Pattern.longest_prefix hd).subset hmem)
  simpa using List.mem_takeWhile_imp hline

/-- The data of an account stand on one line. -/
theorem ten_not_mem_link {ρ : Type} {e : ServerEvent ρ} {fs : List Bytes} (h : fs ∈ e.link)
    {f : Bytes} (hf : f ∈ fs) : 10 ∉ f := by
  have hfields : ∀ pkg : Pkg, 10 ∉ pkg.data → matchLink pkg.data = some fs → 10 ∉ f := by
    intro pkg hdata hlink hmem
    exact hdata (mem_of_mem_splitOn (mem_of_fourFields hlink hf) hmem)
  cases e with
  | visit v =>
    obtain ⟨pkg, hread, hlink⟩ := Option.bind_eq_some_iff.1 h
    split_ifs at hlink
    exact hfields pkg (data_of_matchPkg hread) hlink
  | boot link =>
    obtain ⟨pkg, hread, hlink⟩ := Option.bind_eq_some_iff.1 h
    exact hfields pkg (data_of_matchPkg hread) hlink

theorem length_of_link {ρ : Type} {e : ServerEvent ρ} {fs : List Bytes} (h : fs ∈ e.link) :
    fs.length = 4 := by
  cases e with
  | visit v =>
    obtain ⟨pkg, -, hlink⟩ := Option.bind_eq_some_iff.1 h
    split_ifs at hlink
    exact length_of_fourFields hlink
  | boot link =>
    obtain ⟨pkg, -, hlink⟩ := Option.bind_eq_some_iff.1 h
    exact length_of_fourFields hlink

theorem oneLine_of_calm {ρ : Type} {e : ServerEvent ρ} (h : e.Calm) {fs : List Bytes}
    (hfs : fs ∈ e.link) : ∀ f ∈ fs, OneLine f := by
  intro f hf c hc
  have h13 : c ≠ 13 := fun he => h fs hfs f hf (he ▸ hc)
  have h10 : c ≠ 10 := fun he => ten_not_mem_link hfs hf (he ▸ hc)
  simp [isEol, h13, h10]

/-! ## Accounts in the configuration -/

theorem find_zip_isSome (names : List Bytes) {fs : List Bytes} (h : fs.length = names.length)
    (k : Bytes) :
    (Assoc.find k (names.zip fs)).isSome ↔ k ∈ names := by
  induction names generalizing fs with
  | nil => simp [Assoc.find]
  | cons n names ih =>
    obtain ⟨f, fs, rfl⟩ := List.exists_cons_of_length_eq_add_one h
    rw [List.zip_cons_cons, Assoc.find, List.mem_cons]
    by_cases hk : n = k
    · simp [hk]
    · rw [if_neg hk, ih (by simpa using h)]
      simp [Ne.symm hk]

/-- A later account replaces an earlier one. -/
theorem overlay_of_overlay {C C' : Params} {link : Option (List Bytes)} {fs : List Bytes}
    (hfs : fs.length = 4) (hlink : ∀ fs ∈ link, fs.length = 4)
    (h : ∀ ns k, param C' ns k = overlay link C ns k) (ns k : Bytes) :
    overlay (some fs) C' ns k = overlay (some fs) C ns k := by
  rw [overlay, overlay, h, overlay]
  by_cases hns : ns = root
  · rw [if_pos hns, if_pos hns, if_pos hns, Option.bind_some]
    by_cases hk : k ∈ ftpNames
    · obtain ⟨v, hv⟩ := Option.isSome_iff_exists.1 ((find_zip_isSome ftpNames hfs k).2 hk)
      rw [hv]
      rfl
    · have hnone : (link.bind fun fs => (Assoc.find k (ftpNames.zip fs)).map strip) = none := by
        cases link with
        | none => rfl
        | some fs' =>
          have hnot := mt (find_zip_isSome ftpNames (hlink fs' rfl) k).1 hk
          rw [Option.bind_some, Option.not_isSome_iff_eq_none.1 hnot]
          rfl
      rw [hnone, Option.none_or]
  · rw [if_neg hns, if_neg hns, if_neg hns]

set_option maxRecDepth 4000 in
/-- The rows of an account are read back. -/
theorem rowBack_zip {fs : List Bytes} (h : ∀ f ∈ fs, OneLine f) :
    ∀ p ∈ ftpNames.zip fs, RowBack p.1 p.2 := by
  intro p hp
  have hname := (List.of_mem_zip hp).1
  have hvalue := h p.2 (List.of_mem_zip hp).2
  have hkey : OneLine p.1 ∧ p.1 ≠ [] ∧ 61 ∉ p.1 ∧ strip p.1 = p.1 ∧ p.1.head? = some 70 := by
    have hall : ∀ n ∈ ftpNames,
        OneLine n ∧ n ≠ [] ∧ 61 ∉ n ∧ strip n = n ∧ n.head? = some 70 := by decide
    exact hall p.1 hname
  obtain ⟨hone, hne, h61, hstrip, hhead⟩ := hkey
  have hheader : headerName (p.1 ++ 61 :: p.2) = none := by
    by_contra hsome
    have hfirst := ((headerName_isSome_iff _).1 (Option.isSome_iff_ne_none.2 hsome)).1
    rw [List.head?_append_of_ne_nil _ hne, hhead] at hfirst
    exact absurd hfirst (by decide)
  have hcomment : p.1.head? ≠ some 35 ∧ p.1.head? ≠ some 59 := by
    rw [hhead]
    decide
  refine ⟨?_, readLine_row hne h61 hstrip hcomment hheader⟩
  intro c hc
  rcases List.mem_append.1 hc with hc | hc
  · exact hone c hc
  · rcases List.mem_cons.1 hc with rfl | hc
    · rfl
    · exact hvalue c hc

theorem writable_assignAll {C : Params} (h : Writable C) {l : List (Bytes × Bytes)}
    (hl : ∀ p ∈ l, RowBack p.1 p.2) : Writable (assignAll C root l) := by
  induction l generalizing C with
  | nil => exact h
  | cons p l ih =>
    obtain ⟨hp, hrest⟩ := List.forall_mem_cons.1 hl
    exact ih (h.assign (Or.inl rfl) hp) hrest

/-- **A new account**: the file is written, and has the new account and everything else as it was.
-/
theorem updateConfig_eq {C : Params} {file : Bytes} (h : readString file = some C) {fs : List Bytes}
    (hlen : fs.length = 4) (hfs : ∀ f ∈ fs, OneLine f) :
    ∃ file' C', updateConfig (ftpNames.zip fs) file = some file' ∧ readString file' = some C' ∧
      ∀ ns k, param C' ns k = overlay (some fs) C ns k := by
  have hsettled := settled_readString h
  have hwritable := writable_assignAll hsettled.writable (rowBack_zip hfs)
  obtain ⟨C', hread, hparam⟩ := readString_writeString_of_writable hwritable
  have hnodup : ((ftpNames.zip fs).map Prod.fst).Nodup := by
    have hle : ftpNames.length ≤ fs.length := hlen.ge
    rw [List.map_fst_zip hle]
    decide
  refine ⟨writeString (assignAll C root (ftpNames.zip fs)), C', ?_, hread, fun ns k => ?_⟩
  · rw [updateConfig, h, Option.map_some]
  · have hold : (param C ns k).map strip = param C ns k := by
      cases hv : param C ns k with
      | none => rfl
      | some v => rw [Option.map_some, (hsettled.param hv).2]
    rw [hparam, param_assignAll hnodup, overlay, Option.bind_some]
    split_ifs
    · rw [Option.map_or, hold]
    · exact hold

/-! ## Steps and runs -/

section Run

variable {ρ : Type} {C : Params} {link : Option (List Bytes)} {s : Server}

theorem lookup_getConf {file : Bytes} {C' : Params} (h : readString file = some C') (k : Bytes) :
    (getConf file).lookup k = param C' root k := by
  rw [getConf, h, Option.map_some, Option.getD_some, lookup_sect]

/-- A file with a new account, and a process that has read it. -/
theorem ready_updateConfig (h : Ready C link s) (hlink : ∀ fs ∈ link, fs.length = 4)
    {fs : List Bytes} (hlen : fs.length = 4) (hfs : ∀ f ∈ fs, OneLine f) :
    ∃ file, updateConfig (ftpNames.zip fs) s.confFile = some file ∧
      Ready C (some fs) { s with confFile := file, process := some (getConf file) } := by
  obtain ⟨C', hread, hparam⟩ := h.file
  obtain ⟨file, C'', hupdate, hread', hparam'⟩ := updateConfig_eq hread hlen hfs
  have hover : ∀ ns k, param C'' ns k = overlay (some fs) C ns k := fun ns k =>
    (hparam' ns k).trans (overlay_of_overlay hlen hlink hparam ns k)
  refine ⟨file, hupdate, ⟨C'', hread', hover⟩, fun gaisc hgaisc k => ?_⟩
  rw [← Option.some_inj.1 hgaisc, lookup_getConf hread', hover]

/-- The process dies, or other files change. -/
theorem Ready.died (h : Ready C link s) (files : Store Bytes Bytes) :
    Ready C link { s with files, process := none } :=
  ⟨h.file, fun _ hg => by cases hg⟩

/-- What a command does to the configuration: a ping with an account writes it, and nothing else
does anything but end the process. -/
theorem ready_processProtocol (h : Ready C link s) (hlink : ∀ fs ∈ link, fs.length = 4)
    {gaisc : Assoc Bytes Bytes} {v : Visit ρ} (hcalm : (ServerEvent.visit v).Calm) :
    Ready C ((ServerEvent.visit v).link.or link) (processProtocol gaisc v s).2 := by
  rw [processProtocol]
  cases hread : readCommand v.stream with
  | none =>
    have hnone : (ServerEvent.visit v).link = none := by rw [ServerEvent.link, hread]; rfl
    rw [hnone]
    exact h
  | some pkg =>
    have hlinks : (ServerEvent.visit v).link =
        if pkg.data_cate = catePing then matchLink pkg.data else none := by
      rw [ServerEvent.link, hread]
      rfl
    dsimp only
    by_cases hrule : pkg.data_cate = cateMailruleNotify
    · have hping : pkg.data_cate ≠ catePing := by
        rw [hrule]
        decide
      rw [hlinks, if_neg hping, if_pos hrule, Option.none_or]
      split
      · exact ⟨h.file, h.process⟩
      · exact h.died _
    · rw [if_neg hrule]
      by_cases hlog : pkg.data_cate = cateLogruleNotify
      · have hping : pkg.data_cate ≠ catePing := by
          rw [hlog]
          decide
        rw [hlinks, if_neg hping, if_pos hlog, Option.none_or]
        split
        · exact h.died _
        · dsimp only
          split_ifs
          · exact h.died _
          · exact h
      · rw [if_neg hlog, hlinks]
        by_cases hping : pkg.data_cate = catePing
        · rw [if_pos hping, if_pos hping, respPing]
          cases hmatch : matchLink pkg.data with
          | none => exact h
          | some fs =>
            have hfs : fs ∈ (ServerEvent.visit v).link := by rw [hlinks, if_pos hping, hmatch]; rfl
            obtain ⟨file, hupdate, hready⟩ :=
              ready_updateConfig h hlink (length_of_link hfs) (oneLine_of_calm hcalm hfs)
            simp only [hupdate]
            exact hready
        · rw [if_neg hping, if_neg hping, Option.none_or]
          exact h

theorem ready_boot (h : Ready C link s) (hlink : ∀ fs ∈ link, fs.length = 4) {answer : Bytes}
    (hcalm : (ServerEvent.boot answer : ServerEvent ρ).Calm) :
    Ready C ((ServerEvent.boot answer : ServerEvent ρ).link.or link) (boot answer s) := by
  rw [boot]
  cases hmatch : (ServerEvent.boot answer : ServerEvent ρ).link with
  | none =>
    have hnone : ((recvPkg answer).bind fun pkg => matchLink pkg.data) = none := hmatch
    obtain ⟨C', hread, hparam⟩ := h.file
    rw [hnone, Option.none_or]
    refine ⟨h.file, fun gaisc hgaisc k => ?_⟩
    rw [← Option.some_inj.1 hgaisc, lookup_getConf hread, hparam]
  | some fs =>
    have hsome : ((recvPkg answer).bind fun pkg => matchLink pkg.data) = some fs := hmatch
    obtain ⟨file, hupdate, hready⟩ :=
      ready_updateConfig h hlink (length_of_link hmatch) (oneLine_of_calm hcalm hmatch)
    rw [hsome]
    simp only [hupdate]
    exact hready

/-- What an event does to the configuration. -/
theorem ready_serverStep (h : Ready C link s) (hlink : ∀ fs ∈ link, fs.length = 4)
    {e : ServerEvent ρ} (hcalm : e.Calm) :
    Ready C ((accepted s e).or link) (serverStep s e) := by
  cases e with
  | visit v =>
    rw [serverStep, accepted]
    cases hprocess : s.process with
    | none => exact h
    | some gaisc => exact ready_processProtocol h hlink hcalm
  | boot answer =>
    rw [serverStep, accepted]
    cases hprocess : s.process with
    | none => exact ready_boot h hlink hcalm
    | some gaisc => exact h

theorem length_of_accepted {e : ServerEvent ρ} {fs : List Bytes} (h : fs ∈ accepted s e) :
    fs.length = 4 := by
  cases e with
  | visit v =>
    rw [accepted] at h
    split_ifs at h
    · exact length_of_link h
    · cases h
  | boot answer =>
    rw [accepted] at h
    split_ifs at h
    · cases h
    · exact length_of_link h

theorem length_of_lastLink {events : List (ServerEvent ρ)} {fs : List Bytes}
    (h : fs ∈ lastLink s events) : fs.length = 4 := by
  induction events generalizing s with
  | nil => cases h
  | cons e events ih =>
    rcases Option.or_eq_some_iff.1 h with h | ⟨-, h⟩
    · exact ih h
    · exact length_of_accepted h

/-- Over a run, the configuration keeps everything but the account. -/
theorem ready_run (h : Ready C link s) (hlink : ∀ fs ∈ link, fs.length = 4)
    {events : List (ServerEvent ρ)} (hcalm : ∀ e ∈ events, e.Calm) :
    Ready C ((lastLink s events).or link) (Machine.run serverStep s events) := by
  induction events generalizing s link with
  | nil => exact h
  | cons e events ih =>
    obtain ⟨he, hrest⟩ := List.forall_mem_cons.1 hcalm
    have hlen : ∀ fs ∈ (accepted s e).or link, fs.length = 4 := by
      intro fs hfs
      rcases Option.or_eq_some_iff.1 hfs with hfs | ⟨-, hfs⟩
      · exact length_of_accepted hfs
      · exact hlink fs hfs
    rw [lastLink, Option.or_assoc]
    exact ih (ready_serverStep h hlink he) hlen hrest

/-- **Only the account changes**: after any run of connections and restarts, the configuration can
be read, it has the last account that a ping or a start has brought, everything else is as it was at
the beginning, and a running process works with what is in the file. -/
theorem configuration_kept (hstart : readString s.confFile = some C) (hdown : s.process = none)
    (events : List (ServerEvent ρ)) (hcalm : ∀ e ∈ events, e.Calm) :
    ∃ C', readString (Machine.run serverStep s events).confFile = some C' ∧
      (∀ ns k, param C' ns k = overlay (lastLink s events) C ns k) ∧
      ∀ gaisc ∈ (Machine.run serverStep s events).process, ∀ k,
        gaisc.lookup k = param C' root k := by
  have hready : Ready C none s := ⟨⟨C, hstart, fun ns k => by simp [overlay]⟩, by simp [hdown]⟩
  have h := ready_run hready (fun fs hfs => by cases hfs) hcalm
  rw [Option.or_none] at h
  obtain ⟨C', hread, hparam⟩ := h.file
  exact ⟨C', hread, hparam, fun gaisc hg k => (h.process gaisc hg k).trans (hparam root k).symm⟩

/-! ## The answer to a ping -/

/-- A value of a configuration, empty if there is none. -/
def setting (C : Params) (key : Bytes) : Bytes := (param C root key).getD []

/-- The answer that a gateway with this configuration gives to a ping. -/
def pong (C : Params) (stamp : Bytes) : Pkg where
  data_id := setting C (bytes "DataIdentifier")
  sys_id := setting C (bytes "SystemIdentifier")
  gw_id := setting C (bytes "GatewayIdentifier")
  timestamp := stamp
  data_cate := catePong
  data := setting C (bytes "LocalIP") ++ 44 :: (setting C (bytes "LocalPort") ++ [44])

/-- What does not belong to the account does not depend on it. -/
theorem overlay_of_not_mem {key : Bytes} (hkey : key ∉ ftpNames)
    (hlink : ∀ fs ∈ link, fs.length = 4) : overlay link C root key = param C root key := by
  rw [overlay, if_pos rfl]
  cases link with
  | none => rfl
  | some fs =>
    have hnot := mt (find_zip_isSome ftpNames (hlink fs rfl) key).1 hkey
    rw [Option.bind_some, Option.not_isSome_iff_eq_none.1 hnot]
    rfl

theorem confValue_of_ready (h : Ready C link s) (hlink : ∀ fs ∈ link, fs.length = 4)
    {gaisc : Assoc Bytes Bytes} (hg : gaisc ∈ s.process) {key : Bytes} (hkey : key ∉ ftpNames) :
    confValue gaisc key = setting C key := by
  rw [confValue, h.process gaisc hg key, overlay_of_not_mem hkey hlink, setting]

/-- A ping with an account is answered from the configuration, and the process goes on. -/
theorem respPing_eq (h : Ready C link s) (hlink : ∀ fs ∈ link, fs.length = 4) {pkg : Pkg}
    {fs : List Bytes} (hmatch : matchLink pkg.data = some fs) (hfs : ∀ f ∈ fs, OneLine f)
    (stamp : Bytes) :
    (respPing stamp pkg s).1 = some (pong C stamp) ∧
      (respPing stamp pkg s).2.process.isSome = true := by
  have hlen := length_of_fourFields hmatch
  obtain ⟨file, hupdate, hready⟩ := ready_updateConfig h hlink hlen hfs
  have hvalue : ∀ key, key ∉ ftpNames → confValue (getConf file) key = setting C key :=
    fun key hkey => confValue_of_ready hready (fun fs' h' => Option.some_inj.1 h' ▸ hlen) rfl hkey
  rw [respPing]
  simp only [hmatch, hupdate]
  refine ⟨?_, rfl⟩
  rw [makePkg, pong, hvalue _ (by decide), hvalue _ (by decide), hvalue _ (by decide),
    hvalue _ (by decide), hvalue _ (by decide)]

theorem processProtocol_ping {gaisc : Assoc Bytes Bytes} {v : Visit ρ} {pkg : Pkg}
    (hread : readCommand v.stream = some pkg) (hping : pkg.data_cate = catePing) :
    processProtocol gaisc v s = respPing v.stamp pkg s := by
  have hrule : ¬catePing = cateMailruleNotify := by decide
  have hlog : ¬catePing = cateLogruleNotify := by decide
  rw [processProtocol, hread]
  simp only [hping, if_neg hrule, if_neg hlog, if_true]

/-- What is sent can be received. -/
theorem recvPkg_sendPkg {pkg : Pkg} (h : pkg.Framed) (hdata : pkg.data ≠ []) :
    recvPkg (sendPkg pkg) = some pkg := by
  have hline : 10 ∉ pkg.data ++ bytes "E" := by
    rw [List.mem_append, not_or]
    exact ⟨h.data_line, by decide⟩
  have hread := readLine_sendPkg h []
  rw [List.append_nil] at hread
  rw [recvPkg, hread]
  exact matchPkg_eq h hdata hline [10] fun c hc => (Option.mem_some_iff.1 hc).symm

end Run

/-! ## A configuration -/

/-- A configuration of the gateway. -/
def gatewayConf : Bytes :=
  bytes ("DataIdentifier=GAISC\nSystemIdentifier=000000DZYJ\nGatewayIdentifier=0987654321\n" ++
    "LocalIP=10.0.0.2\nLocalPort=9000\nServerIP=10.0.0.1\nFTPDir=old\n")

/-- A connection on which the other side sends this. -/
def visitOf (stream : Bytes) : Visit Unit where
  stream
  ftp := allFiles
  machine := plainMachine
  host := oneMail
  bounds := {}
  stamp := bytes "20040417212923"

/-- A gateway before its first start. -/
def gateway : Server := ⟨gatewayConf, none, fun _ => none⟩

/-- A start without an answer, a ping, and something that is no command. -/
def calmEvents : List (ServerEvent Unit) :=
  [.boot [], .visit (visitOf (sendPkg ping)), .visit (visitOf (bytes "HELO"))]

set_option maxRecDepth 8000 in
theorem configuration_kept_gateway :
    ∃ C', readString (Machine.run serverStep gateway calmEvents).confFile = some C' ∧
      (∀ ns k, param C' ns k = overlay (lastLink gateway calmEvents)
        ((readString gatewayConf).getD Assoc.empty) ns k) ∧
      ∀ gaisc ∈ (Machine.run serverStep gateway calmEvents).process, ∀ k,
        gaisc.lookup k = param C' root k := by
  have hsome : (readString gatewayConf).isSome = true := by decide
  obtain ⟨C, hC⟩ := Option.isSome_iff_exists.1 hsome
  rw [hC]
  exact configuration_kept hC rfl calmEvents (by unfold ServerEvent.Calm; decide)

set_option maxRecDepth 8000 in
/-- What stands behind a carriage return in an account is a line of its own, and the configuration
cannot be read from then on. -/
theorem configuration_lost :
    let hostile := sendPkg { ping with data := bytes "d,21,u,p\rq," }
    let s := Machine.run serverStep gateway [.boot [], .visit (visitOf hostile)]
    readString s.confFile = none := by
  decide

end NoSpam.GA
