import Mathlib.Data.List.AList
import NoSpam.Base.Capture
import NoSpam.Base.Columns
import NoSpam.Content.Rule

/-!
# The rules of the centre

A rule comes from the centre as a file of lines `GAISC.RUL.NAME=value`.  `_file2pkg` reads it into a
hash, and `_pkg2filter` makes a rule of the filter from it: each component sets fields of its own,
in the order of the hash, and the keywords are put in at the end.
-/

namespace NoSpam.GA

open Text Perl Pattern Content

/-! ## The package -/

/-- The components of a rule, without line ends in their names and values. -/
structure Package where
  components : AList fun _ : Bytes => Bytes
  newline_not_mem : ∀ e ∈ components.entries, 10 ∉ e.1 ∧ 10 ∉ e.2

/-- `/^GAISC\.RUL\.(.+)=(.+)/`, on a chomped line. -/
def matchComponent (line : Bytes) : Option (Bytes × Bytes) :=
  if bytes "GAISC.RUL." <+: line then
    match cutLast 61 (· ≠ []) (line.drop 10) with
    | some (name, val) => if name ≠ [] then some (name, val) else none
    | none => none
  else none

/-- The loop of `_file2pkg`. -/
def readComponents (ls : List Bytes) : AList fun _ : Bytes => Bytes :=
  ls.foldl
    (fun db line =>
      match matchComponent (chomp line) with
      | some (name, val) => db.insert (lc name) val
      | none => db)
    ∅

theorem newline_not_mem_lc {b : Bytes} (h : 10 ∉ b) : 10 ∉ lc b := by
  intro hmem
  obtain ⟨c, hc, hlc⟩ := List.mem_map.1 hmem
  have hten : c = 10 := by
    unfold lcByte at hlc
    split_ifs at hlc with hrange
    · rw [Bool.and_eq_true, decide_eq_true_eq, decide_eq_true_eq, UInt8.le_iff_toNat_le,
        UInt8.le_iff_toNat_le] at hrange
      have hsum := congrArg UInt8.toNat hlc
      rw [UInt8.toNat_add] at hsum
      simp at hsum hrange
      omega
    · exact hlc
  exact h (hten ▸ hc)

theorem newline_not_mem_matchComponent {line name val : Bytes} (h : 10 ∉ line)
    (hmatch : matchComponent line = some (name, val)) : 10 ∉ name ∧ 10 ∉ val := by
  unfold matchComponent at hmatch
  split_ifs at hmatch
  split at hmatch
  · rename_i hcut
    split_ifs at hmatch
    obtain ⟨rfl, rfl⟩ := Prod.mk.inj (Option.some.inj hmatch)
    have hdrop : 10 ∉ line.drop 10 := fun hmem => h (List.mem_of_mem_drop hmem)
    rw [eq_of_cutLast hcut, List.mem_append, List.mem_cons, not_or, not_or] at hdrop
    exact ⟨hdrop.1, hdrop.2.2⟩
  · cases hmatch

theorem newline_not_mem_readComponents {ls : List Bytes} (h : ∀ l ∈ ls, 10 ∉ l.dropLast) :
    ∀ e ∈ (readComponents ls).entries, 10 ∉ e.1 ∧ 10 ∉ e.2 := by
  induction ls using List.reverseRecOn with
  | nil => exact fun e he => by cases he
  | append_singleton ls line ih =>
    rw [List.forall_mem_append, List.forall_mem_singleton] at h
    have hread : readComponents (ls ++ [line]) =
        match matchComponent (chomp line) with
        | some (name, val) => (readComponents ls).insert (lc name) val
        | none => readComponents ls := by
      rw [readComponents, List.foldl_concat]
      rfl
    rw [hread]
    cases hmatch : matchComponent (chomp line) with
    | none => exact ih h.1
    | some p =>
      obtain ⟨hname, hval⟩ := newline_not_mem_matchComponent (not_mem_chomp h.2) hmatch
      intro e he
      dsimp only at he
      rw [AList.entries_insert] at he
      rcases List.mem_cons.1 he with rfl | he
      · exact ⟨newline_not_mem_lc hname, hval⟩
      · exact ih h.1 e ((List.kerase_sublist _ _).subset he)

/-- `_file2pkg`: the type of the package, and its components. -/
def file2pkg (content : Bytes) : Bytes × Package :=
  (chomp (lc ((lines 10 content).headD [])),
    { components := readComponents (lines 10 content).tail
      newline_not_mem := newline_not_mem_readComponents fun _ hl =>
        not_mem_dropLast_of_mem_lines (List.mem_of_mem_tail hl) })

/-! ## The rule -/

/-- What is to be found in a mail for a keyword. -/
structure KeywordEntry where
  key : Option ℕ := none
  type : ℕ := 0
  decode : Option ℤ := none
  keyword : Option Bytes := none
deriving DecidableEq

/-- What the size of a mail is compared with. -/
structure SizeEntry where
  key : Option ℕ := none
  sizevalue : Option Bytes := none
deriving DecidableEq

/-- `$rule_info`, with `κ` for its keywords. -/
structure FilterInfo (κ : Type) where
  ruleKeyword : κ
  idType : Bytes := bytes "GAISC"
  updateTime : Bytes
  createTime : Option Bytes := none
  expireTime : Option Bytes := none
  size : Option SizeEntry := none
  keywordLogic : Option Bytes := none
  action : Option ℕ := none
  realtimeUpload : Option Bytes := none
  alarmlevel : Option Bytes := none
  ruleComment : Option Bytes := none

/-- The id and the rule while the components are put in, with one hash for all keywords. -/
structure Draft where
  ruleid : Option Bytes := none
  info : FilterInfo KeywordEntry

/-! ## The components -/

/-- The position of the first `1`, counted from 1. -/
def firstOne (val : Bytes) : Option ℕ := (val.findIdx? (· = 49)).map (· + 1)

/-- `$keyword_keymap`. -/
def keywordKeymap : ℕ → Option ℕ
  | 1 => some 1
  | 2 => some 2
  | 3 => some 3
  | 4 => some 4
  | 5 => some 5
  | 6 => some 6
  | 7 => some 7
  | 8 => some 8
  | 9 => some 8
  | 10 => some 4
  | 11 => some 9
  | _ => none

/-- `$keyword_logicmap`. -/
def keywordLogicmap (val : Bytes) : Option Bytes :=
  if val = bytes "00" then some (bytes "OR")
  else if val = bytes "01" then some (bytes "AND")
  else none

/-- `$action_map`, by the digit. -/
def actionMap : UInt8 → Option ℕ
  | 49 => some 1
  | 50 => some 6
  | 51 => some 7
  | 52 => some 5
  | 53 => some 5
  | _ => none

/-- `$realtime_map`, by the digit. -/
def realtimeMap : UInt8 → Option Bytes
  | 49 => some (bytes "YES")
  | 50 => some (bytes "NO")
  | _ => none

/-- A whole number as Perl prints it, from 2 ^ 64 with fifteen digits and an exponent. -/
def printWhole (n : ℕ) : Bytes :=
  if n < 2 ^ 64 then decimal n
  else if 2 ^ 1024 ≤ n then bytes "Inf"
  else
    let e := Nat.log 10 n
    let unit := 10 ^ (e - 14)
    let q := n / unit
    let r := n % unit
    let m := if 2 * r > unit || (2 * r = unit && q % 2 = 1) then q + 1 else q
    let digits := (decimal m).rdropWhile (· = 48)
    let point := if digits.tail = [] then [] else 46 :: digits.tail
    digits.take 1 ++ point ++ bytes "e+" ++ decimal (if m = 10 ^ 15 then e + 1 else e)

/-- `int($val*FACTOR)` in double precision, for a factor over 2 ^ 53. -/
def scaled (val factor : ℕ) : ℕ := round53 (round53 val * factor) / 2 ^ 53

/-- The size of a rule, seven to thirteen tenths of the length where that is a number. -/
def sizevalueOf (val : Bytes) : Bytes :=
  if val ≠ [] && val.all isDigit then
    if 2 ^ 1024 ≤ round53 (value val) then bytes "Inf-Inf"
    else
      printWhole (scaled (value val) 6305039478318694) ++ 45 ::
        printWhole (scaled (value val) 11709359031163290)
  else val

/-- The components that a rule is made from. -/
inductive Component
  | ruleid
  | time
  | expiretime
  | infolength
  | infotype
  | rulekeytype
  | keywordtype
  | decode
  | rule
  | alertrule
deriving DecidableEq

/-- The name of a component in a package. -/
def Component.name : Component → Bytes
  | ruleid => bytes "ruleid"
  | time => bytes "time"
  | expiretime => bytes "expiretime"
  | infolength => bytes "infolength"
  | infotype => bytes "infotype"
  | rulekeytype => bytes "rulekeytype"
  | keywordtype => bytes "keywordtype"
  | decode => bytes "decode"
  | rule => bytes "rule"
  | alertrule => bytes "alertrule"

/-- The components in the order they are asked for. -/
def Component.all : List Component :=
  [ruleid, time, expiretime, infolength, infotype, rulekeytype, keywordtype, decode, rule,
    alertrule]

/-- `/^NAME$/`: the component that a name asks for; a line end may follow. -/
def Component.ofName (name : Bytes) : Option Component :=
  Component.all.find? fun c => name = c.name || name = c.name ++ [10]

/-- `infotype`: the key of the size. -/
def setSizeKey (val : Bytes) (size : Option SizeEntry) : Option SizeEntry :=
  match firstOne val with
  | some n => some { size.getD {} with key := some n }
  | none => size

/-- `rulekeytype`: the key of the keywords, and the type 6 for addresses. -/
def setKeywordKey (val : Bytes) (entry : KeywordEntry) : KeywordEntry :=
  match firstOne val with
  | some pos => { entry with key := keywordKeymap pos, type := if pos = 11 then 6 else 0 }
  | none => entry

/-- What a component does to the rule. -/
def Component.set (val : Bytes) (d : Draft) : Component → Draft
  | ruleid => { d with ruleid := some val }
  | time => { d with info.createTime := some val }
  | expiretime => { d with info.expireTime := some val }
  | infolength =>
      { d with info.size := some { d.info.size.getD {} with sizevalue := some (sizevalueOf val) } }
  | infotype => { d with info.size := setSizeKey val d.info.size }
  | rulekeytype => { d with info.ruleKeyword := setKeywordKey val d.info.ruleKeyword }
  | keywordtype => { d with info.keywordLogic := keywordLogicmap val }
  | decode => { d with info.ruleKeyword := { d.info.ruleKeyword with decode := some (num val) } }
  | rule =>
      match val with
      | [action, level] =>
          { d with
            info.action := some ((actionMap action).getD 6)
            info.realtimeUpload := some ((realtimeMap level).getD (bytes "NO"))
            info.alarmlevel := some [level] }
      | _ => d
  | alertrule => { d with info.ruleComment := some val }

/-- One turn of the loop of `_pkg2filter`. -/
def putComponent (d : Draft) (e : Sigma fun _ : Bytes => Bytes) : Draft :=
  match Component.ofName e.1 with
  | some c => c.set e.2 d
  | none => d

/-- The keywords of a text, put into the hash, or into an array of its copies where there are
several. -/
def putKeywords (text : Bytes) (entry : KeywordEntry) : Option (SubRules KeywordEntry) :=
  if text = [] then none
  else
    match fields 44 text with
    | k :: k' :: ks =>
        some (.array ((k :: k' :: ks).map fun keyword => { entry with keyword := some keyword }))
    | ks => some (.hash { entry with keyword := ks.head? })

/-- The id and the rule. -/
structure Filter where
  ruleid : Option Bytes
  info : FilterInfo (Option (SubRules KeywordEntry))

/-- `_pkg2filter`, at a time and with the order in which the hash is visited. -/
def pkg2filter (stamp : Bytes) (pkg : Package) (order : List (Sigma fun _ : Bytes => Bytes)) :
    Filter :=
  let d := order.foldl putComponent { info := { ruleKeyword := {}, updateTime := stamp } }
  let text := (pkg.components.lookup (bytes "keyword")).getD []
  { ruleid := d.ruleid
    info := { d.info with ruleKeyword := putKeywords text d.info.ruleKeyword } }

/-! ## The purpose -/

/-- The text of the keywords. -/
def Package.keyword (pkg : Package) : Bytes := (pkg.components.lookup (bytes "keyword")).getD []

/-- The key, the type and the decode flag of a package. -/
def Package.entry (pkg : Package) : KeywordEntry :=
  let pos := (pkg.components.lookup (bytes "rulekeytype")).bind firstOne
  { key := pos.bind keywordKeymap
    type := if pos = some 11 then 6 else 0
    decode := (pkg.components.lookup (bytes "decode")).map num }

/-- The keyword entries of a rule. -/
def Filter.keywords (f : Filter) : List KeywordEntry :=
  (f.info.ruleKeyword.map SubRules.toList).getD []

/-- The rule is the same for all orders of the hash, and has one entry for each keyword, with the
key, the type and the decode flag of the package. -/
structure Translated (pkg : Package) : Prop where
  order : ∀ stamp order order', order.Perm pkg.components.entries →
    order'.Perm pkg.components.entries → pkg2filter stamp pkg order = pkg2filter stamp pkg order'
  keywords : ∀ stamp order, order.Perm pkg.components.entries →
    (pkg2filter stamp pkg order).keywords =
      (fields 44 pkg.keyword).map fun keyword => { pkg.entry with keyword := some keyword }

/-! ## The order of the hash -/

section

variable {pkg : Package} {c c' : Component} {v w : Bytes}

theorem setSizeKey_sizevalue (val : Bytes) (sizevalue : Option Bytes) (size : Option SizeEntry) :
    setSizeKey val (some { size.getD {} with sizevalue }) =
      some { (setSizeKey val size).getD {} with sizevalue } := by
  unfold setSizeKey
  cases firstOne val <;> rfl

theorem setKeywordKey_decode (val : Bytes) (decode : Option ℤ) (entry : KeywordEntry) :
    setKeywordKey val { entry with decode } = { setKeywordKey val entry with decode } := by
  unfold setKeywordKey
  cases firstOne val <;> rfl

theorem set_rule_comm (hne : c ≠ .rule) (d : Draft) :
    Component.rule.set v (c.set w d) = c.set w (Component.rule.set v d) := by
  cases c with
  | rule => exact absurd rfl hne
  | _ =>
    match v with
    | [] | [_] | [_, _] | _ :: _ :: _ :: _ => rfl

/-- Two components set different fields, or different parts of one. -/
theorem set_comm (hne : c ≠ c') (d : Draft) : c.set v (c'.set w d) = c'.set w (c.set v d) := by
  by_cases hrule : c = .rule
  · subst hrule
    exact set_rule_comm hne.symm d
  by_cases hrule' : c' = .rule
  · subst hrule'
    exact (set_rule_comm hne d).symm
  cases c <;> cases c' <;> first
    | contradiction
    | rfl
    | (simp only [Component.set, setSizeKey_sizevalue]; done)
    | simp only [Component.set, setKeywordKey_decode]

theorem name_of_ofName {name : Bytes} (hname : 10 ∉ name) (h : Component.ofName name = some c) :
    name = c.name := by
  have hmatch := List.find?_some h
  rw [Bool.or_eq_true, decide_eq_true_eq, decide_eq_true_eq] at hmatch
  refine hmatch.resolve_right fun hend => hname ?_
  rw [hend]
  exact List.mem_append_right _ (List.mem_singleton_self 10)

/-- Components of different names can change places. -/
theorem putComponent_comm {e e' : Sigma fun _ : Bytes => Bytes} (he : 10 ∉ e.1) (he' : 10 ∉ e'.1)
    (hne : e.1 ≠ e'.1) (d : Draft) :
    putComponent (putComponent d e) e' = putComponent (putComponent d e') e := by
  unfold putComponent
  cases h : Component.ofName e.1 with
  | none => rfl
  | some c =>
    cases h' : Component.ofName e'.1 with
    | none => rfl
    | some c' =>
      refine set_comm (fun heq => hne ?_) d
      rw [name_of_ofName he h, name_of_ofName he' h', heq]

/-- The rule does not depend on the order of the hash. -/
theorem pkg2filter_perm (stamp : Bytes) {order order' : List (Sigma fun _ : Bytes => Bytes)}
    (h : order.Perm pkg.components.entries) (h' : order'.Perm pkg.components.entries) :
    pkg2filter stamp pkg order = pkg2filter stamp pkg order' := by
  have hcomm : ∀ e ∈ order, ∀ e' ∈ order, ∀ d,
      putComponent (putComponent d e) e' = putComponent (putComponent d e') e := by
    intro e he e' he' d
    have hmem := h.mem_iff.1 he
    have hmem' := h.mem_iff.1 he'
    by_cases hname : e.1 = e'.1
    · have heq : e = e' := pkg.components.nodupKeys.eq_of_fst_eq hmem hmem' hname
      rw [heq]
    · exact putComponent_comm (pkg.newline_not_mem e hmem).1 (pkg.newline_not_mem e' hmem').1
        hname d
  unfold pkg2filter
  rw [(h.trans h'.symm).foldl_eq' hcomm]

end

/-! ## The keywords -/

section

variable {pkg : Package} {order : List (Sigma fun _ : Bytes => Bytes)}

/-- What only one component changes, is as that component has left it. -/
theorem foldl_of_only {β : Type} (view : Draft → β) (name : Bytes) (f : Bytes → β → β)
    (hself : ∀ d v, view (putComponent d ⟨name, v⟩) = f v (view d))
    (hother : ∀ d (e : Sigma fun _ : Bytes => Bytes), 10 ∉ e.1 → e.1 ≠ name →
      view (putComponent d e) = view d)
    (hnodup : order.NodupKeys) (hnl : ∀ e ∈ order, 10 ∉ e.1) (d : Draft) :
    view (order.foldl putComponent d) =
      (order.dlookup name).elim (view d) fun v => f v (view d) := by
  induction order generalizing d with
  | nil => rfl
  | cons e order ih =>
    obtain ⟨he, hnl⟩ := List.forall_mem_cons.1 hnl
    obtain ⟨hnew, hnodup⟩ := List.nodupKeys_cons.1 hnodup
    rw [List.foldl_cons, ih hnodup hnl]
    by_cases hname : e.1 = name
    · obtain ⟨k, v⟩ := e
      dsimp only at hname hnew
      subst hname
      rw [List.dlookup_cons_eq, List.dlookup_eq_none.2 hnew, hself]
      rfl
    · rw [List.dlookup_cons_ne _ _ (Ne.symm hname), hother d e he hname]

theorem fields_eq_nil_iff {l : Bytes} : fields 44 l = [] ↔ ∀ c ∈ l, c = 44 := by
  have hsplit : fields 44 l = [] ↔ ∀ f ∈ l.splitOn 44, f = [] := by
    rw [fields, List.rdropWhile_eq_nil_iff]
    simp only [List.isEmpty_iff]
  rw [hsplit]
  constructor
  · intro h c hc
    rw [← @List.intercalate_splitOn _ l _ _ 44] at hc
    rcases mem_of_mem_joinFields hc with hc | ⟨f, hf, hc⟩
    · exact hc
    · rw [h f hf] at hc
      cases hc
  · intro h f hf
    refine List.eq_nil_iff_forall_not_mem.2 fun c hc => ?_
    have hcomma := h c (mem_of_mem_splitOn hf hc)
    exact not_mem_of_mem_splitOn hf (hcomma ▸ hc)

theorem putComponent_of_ofName {c : Component} {name : Bytes}
    (h : Component.ofName name = some c) (d : Draft) (v : Bytes) :
    putComponent d ⟨name, v⟩ = c.set v d := by
  rw [putComponent, h]

/-- A component of another name does not touch what only `c` sets. -/
theorem view_putComponent {β : Type} {view : Draft → β} {c : Component}
    (h : ∀ c' ≠ c, ∀ v d, view (c'.set v d) = view d) (d : Draft)
    {e : Sigma fun _ : Bytes => Bytes} (he : 10 ∉ e.1) (hne : e.1 ≠ c.name) :
    view (putComponent d e) = view d := by
  unfold putComponent
  cases hname : Component.ofName e.1 with
  | none => rfl
  | some c' =>
    refine h c' (fun heq => hne ?_) e.2 d
    rw [name_of_ofName he hname, heq]

/-- A rule without two digits or with them leaves the keywords as they are. -/
theorem ruleKeyword_set_rule (v : Bytes) (d : Draft) :
    (Component.rule.set v d).info.ruleKeyword = d.info.ruleKeyword := by
  match v with
  | [] | [_] | [_, _] | _ :: _ :: _ :: _ => rfl

/-- The key, the type and the keyword of the hash, which the key type of the rule sets. -/
def keyView (d : Draft) : Option ℕ × ℕ × Option Bytes :=
  (d.info.ruleKeyword.key, d.info.ruleKeyword.type, d.info.ruleKeyword.keyword)

theorem keyView_set {c : Component} (hc : c ≠ .rulekeytype) (v : Bytes) (d : Draft) :
    keyView (c.set v d) = keyView d := by
  cases c with
  | rulekeytype => exact absurd rfl hc
  | rule => rw [keyView, ruleKeyword_set_rule, keyView]
  | _ => rfl

/-- The flag of the hash. -/
def decodeView (d : Draft) : Option ℤ := d.info.ruleKeyword.decode

theorem decodeView_set {c : Component} (hc : c ≠ .decode) (v : Bytes) (d : Draft) :
    decodeView (c.set v d) = decodeView d := by
  cases c with
  | decode => exact absurd rfl hc
  | rule => rw [decodeView, ruleKeyword_set_rule, decodeView]
  | rulekeytype =>
    simp only [decodeView, Component.set, setKeywordKey]
    cases firstOne v <;> rfl
  | _ => rfl

/-- The key, the type and the flag behind the loop. -/
theorem ruleKeyword_foldl (h : order.Perm pkg.components.entries) (stamp : Bytes) :
    (order.foldl putComponent { info := { ruleKeyword := {}, updateTime := stamp } }
      ).info.ruleKeyword = pkg.entry := by
  have hnodup : order.NodupKeys := (List.perm_nodupKeys h).2 pkg.components.nodupKeys
  have hnl : ∀ e ∈ order, 10 ∉ e.1 := fun e he => (pkg.newline_not_mem e (h.mem_iff.1 he)).1
  have hlookup : ∀ name, order.dlookup name = pkg.components.lookup name := fun name =>
    List.perm_dlookup name hnodup h
  have hkey := foldl_of_only keyView (bytes "rulekeytype")
    (fun v p => (firstOne v).elim p fun pos =>
      (keywordKeymap pos, if pos = 11 then 6 else 0, p.2.2))
    (fun d v => by
      rw [putComponent_of_ofName (by decide : _ = some Component.rulekeytype)]
      simp only [keyView, Component.set, setKeywordKey]
      cases firstOne v <;> rfl)
    (fun d e he hne => view_putComponent (fun c hc v d => keyView_set hc v d) d he hne) hnodup hnl
    { info := { ruleKeyword := {}, updateTime := stamp } }
  have hdecode := foldl_of_only decodeView (bytes "decode") (fun v _ => some (num v))
    (fun d v => by rw [putComponent_of_ofName (by decide : _ = some Component.decode)]; rfl)
    (fun d e he hne => view_putComponent (fun c hc v d => decodeView_set hc v d) d he hne) hnodup
    hnl { info := { ruleKeyword := {}, updateTime := stamp } }
  have hviews : ∀ d : Draft, d.info.ruleKeyword =
      ⟨(keyView d).1, (keyView d).2.1, decodeView d, (keyView d).2.2⟩ := fun _ => rfl
  rw [hviews, hkey, hdecode, hlookup, hlookup, Package.entry]
  cases pkg.components.lookup (bytes "decode") <;>
  · cases pkg.components.lookup (bytes "rulekeytype") with
    | none => rfl
    | some v =>
      rw [Option.elim_some, Option.bind_some]
      cases firstOne v with
      | none => rfl
      | some pos => simp [keyView, decodeView]

theorem keywords_pkg2filter (h : order.Perm pkg.components.entries) (stamp : Bytes) :
    (pkg2filter stamp pkg order).keywords =
      ((putKeywords pkg.keyword pkg.entry).map SubRules.toList).getD [] := by
  rw [← ruleKeyword_foldl h stamp]
  rfl

/-- One entry for each keyword, unless there are only commas. -/
theorem toList_putKeywords_iff {text : Bytes} {entry : KeywordEntry} :
    ((putKeywords text entry).map SubRules.toList).getD [] =
        (fields 44 text).map (fun keyword => { entry with keyword := some keyword }) ↔
      text = [] ∨ ∃ c ∈ text, c ≠ 44 := by
  have hfields := fields_eq_nil_iff (l := text)
  unfold putKeywords
  by_cases hnil : text = []
  · subst hnil
    exact iff_of_true rfl (.inl rfl)
  · rw [if_neg hnil]
    cases hks : fields 44 text with
    | nil =>
      refine iff_of_false (fun h => by cases h) ?_
      rintro (h | ⟨c, hc, hne⟩)
      · exact hnil h
      · exact hne (hfields.1 hks c hc)
    | cons k ks =>
      have hsome : ∃ c ∈ text, c ≠ 44 := by
        by_contra hall
        push Not at hall
        rw [hfields.2 hall] at hks
        cases hks
      refine iff_of_true ?_ (.inr hsome)
      cases ks with
      | nil => rfl
      | cons k' ks => rfl

/-- **When a package is translated into its rule**: for all packages, whatever the order of the
hash, exactly if the text of the keywords is missing or has more than commas in it. -/
theorem translated_iff (pkg : Package) :
    Translated pkg ↔ pkg.keyword = [] ∨ ∃ c ∈ pkg.keyword, c ≠ 44 := by
  constructor
  · intro h
    have hkeywords := h.keywords [] _ (List.Perm.refl _)
    rw [keywords_pkg2filter (List.Perm.refl _)] at hkeywords
    exact toList_putKeywords_iff.1 hkeywords
  · intro h
    refine ⟨fun stamp _ _ => pkg2filter_perm stamp, fun stamp order horder => ?_⟩
    rw [keywords_pkg2filter horder]
    exact toList_putKeywords_iff.2 h

end

/-- A comma for the keywords gives an entry without a keyword. -/
theorem comma_untranslated : ¬ ∀ content, Translated (file2pkg content).2 := by
  intro h
  have hkeywords := (h (bytes "RuleAddModify\nGAISC.RUL.RULEID=7\nGAISC.RUL.KEYWORD=,\n")).keywords
    [] _ (List.Perm.refl _)
  exact absurd hkeywords (by decide +kernel)

end NoSpam.GA
