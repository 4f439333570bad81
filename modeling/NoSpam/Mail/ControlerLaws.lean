import NoSpam.Mail.Controler

/-!
# Edits of the tables of qmail

An edit by line changes the entry that was listed there and nothing else, for all files and for all
entries that are read from their line as they were written (`parseRoute_routeLine`,
`parseAssign_assignLine`, `parseVirt_virtLine`).  The user `0` of a virtual domain is taken for no
user, and a user without a domain for a domain (`done_iff_sound`).
-/

namespace NoSpam.Controler

open Text Perl Pattern LineTable

/-! ## Lines that are written and read -/

section

variable {s : State} {t : Table} {f : List Bytes → List Bytes} {ls : List Bytes}

theorem strip_strip (l : Bytes) : strip (strip l) = strip l := by
  rw [strip, strip, List.filter_filter]
  simp

theorem strip_of_forall {l : Bytes} (h : ∀ c ∈ l, isWhite c = false) : strip l = l := by
  refine List.filter_eq_self.2 fun c hc => ?_
  have hspace := h c hc
  rw [Bool.and_eq_true, decide_eq_true_eq, decide_eq_true_eq]
  refine ⟨?_, ?_⟩ <;>
  · rintro rfl
    cases hspace

theorem strip_of_mem_fileLines {content l : Bytes} (h : l ∈ fileLines content) : strip l = l := by
  obtain ⟨l', -, rfl⟩ := List.mem_map.1 h
  exact strip_strip l'

/-- Stripped lines are read as they were written. -/
theorem fileLines_columnText (h : ∀ l ∈ ls, strip l = l) : fileLines (columnText 10 ls) = ls := by
  have hnl : ∀ l ∈ ls, 10 ∉ l := by
    intro l hl hmem
    rw [← h l hl] at hmem
    exact absurd (List.of_mem_filter hmem) (by decide)
  have hlines := lines_columnText_append hnl []
  rw [List.append_nil] at hlines
  rw [fileLines, hlines, show lines 10 ([] : Bytes) = [] from rfl, List.append_nil, List.map_map]
  refine (List.map_congr_left fun l hl => ?_).trans (List.map_id ls)
  have hstrip : strip (l ++ [10]) = strip l := by simp [strip]
  exact hstrip.trans (h l hl)

/-- An edit changes one file, whose lines are read back as they were left. -/
theorem fileLines_editLines (hcache : s.cache t = none)
    (h : ∀ l ∈ f (fileLines (s.files t)), strip l = l) :
    fileLines ((editLines t f s).files t) = f (fileLines (s.files t)) := by
  have hfile : (editLines t f s).files t = columnText 10 (f (fileLines (s.files t))) := by
    simp [editLines, readFileLines, hcache, flushFileLines]
  rw [hfile, fileLines_columnText h]

theorem files_editLines (hcache : ∀ t, s.cache t = none) {t' : Table} (h : t' ≠ t) :
    (editLines t f s).files t' = s.files t' := by
  simp [editLines, readFileLines, hcache, flushFileLines, Function.update_of_ne h]

theorem splice_one_of_lt {i : ℕ} (h : i < ls.length) (l : Bytes) :
    splice ls i 1 [l] = ls.set i l := by
  rw [splice, List.set_eq_take_append_cons_drop, if_pos h, List.append_assoc]
  rfl

theorem splice_nil (ls : List Bytes) (i : ℕ) : splice ls i 1 [] = ls.eraseIdx i := by
  rw [splice, List.append_nil, List.eraseIdx_eq_take_drop_succ]

end

/-! ## Entries that are written and read -/

section

variable {a b : Bytes}

/-- Symbols that can stand in a written line. -/
def Solid (l : Bytes) : Prop := ∀ c ∈ l, c ≠ 35 ∧ isWhite c = false

theorem CleanField.solid {f : Bytes} (h : CleanField f) : Solid f :=
  fun c hc => ⟨(h c hc).2.1, (h c hc).2.2.2⟩

theorem CleanField.colon_not_mem {f : Bytes} (h : CleanField f) : 58 ∉ f :=
  fun hmem => (h 58 hmem).1 rfl

theorem CleanField.at_not_mem {f : Bytes} (h : CleanField f) : 64 ∉ f :=
  fun hmem => (h 64 hmem).2.2.1 rfl

theorem Solid.append (ha : Solid a) (hb : Solid b) : Solid (a ++ b) := fun c hc =>
  (List.mem_append.1 hc).elim (ha c) (hb c)

theorem Solid.cons {c : UInt8} (hc : c ≠ 35 ∧ isWhite c = false) (hb : Solid b) : Solid (c :: b) :=
  List.forall_mem_cons.2 ⟨hc, hb⟩

theorem solid_of_isDigit (h : ∀ c ∈ a, isDigit c = true) : Solid a := by
  intro c hc
  refine ⟨?_, not_isWhite_of_isDigit (h c hc)⟩
  rintro rfl
  exact absurd (h 35 hc) (by decide)

theorem Solid.word_uncomment (h : Solid a) : word (uncomment a) = a := by
  have huncomment : uncomment a = a :=
    List.takeWhile_eq_self_iff.2 fun c hc => decide_eq_true (h c hc).1
  rw [huncomment]
  exact List.takeWhile_eq_self_iff.2 fun c hc => by rw [(h c hc).2, Bool.not_false]

end

/-! ## Routes -/

section

variable {r : Route}

theorem isTrue_port_iff (h : r.Clean) : Perl.isTrue r.port = true ↔ r.port ≠ [] := by
  have hzero : r.port ≠ [48] := h.2.2.2
  simp [Perl.isTrue, hzero]

theorem solid_routeLine (h : r.Clean) : Solid (routeLine r) := by
  obtain ⟨hfrom, hto, hport, -⟩ := h
  refine (hfrom.solid.append (.cons (by decide) hto.solid)).append ?_
  split_ifs
  · exact .cons (by decide) (solid_of_isDigit hport)
  · exact fun c hc => by cases hc

theorem parseRoute_routeLine (h : r.Clean) : parseRoute (routeLine r) = some r := by
  have hword := (solid_routeLine h).word_uncomment
  have hport := isTrue_port_iff h
  obtain ⟨hfrom, hto, hdigits, -⟩ := h
  have hnames : cutLast 58 (fun _ => true) (r.fromName ++ 58 :: r.toName) =
      some (r.fromName, r.toName) := cutLast_append hto.colon_not_mem rfl
  rw [parseRoute, hword, routeLine]
  obtain ⟨fromName, toName, port⟩ := r
  dsimp only at hfrom hto hdigits hnames hport ⊢
  cases port with
  | nil =>
    have hshort : (cutLast 58 startsWithDigit (fromName ++ 58 :: toName)).bind (fun p =>
        (cutLast 58 (fun _ => true) p.1).map fun names =>
          (⟨names.1, names.2, p.2.takeWhile isDigit⟩ : Route)) = none := by
      cases hok : startsWithDigit toName with
      | false =>
        rw [cutLast_append_of_not hfrom.colon_not_mem hto.colon_not_mem hok, Option.bind_none]
      | true =>
        rw [cutLast_append hto.colon_not_mem hok, Option.bind_some,
          cutLast_of_not_mem hfrom.colon_not_mem, Option.map_none]
    rw [if_neg (by decide), List.append_nil, hshort, hnames, Option.none_or, Option.map_some]
  | cons c port =>
    have hcolon : 58 ∉ c :: port := fun hmem => absurd (hdigits 58 hmem) (by decide)
    have hok : startsWithDigit (c :: port) = true := hdigits c List.mem_cons_self
    have hall : (c :: port).takeWhile isDigit = c :: port :=
      List.takeWhile_eq_self_iff.2 hdigits
    have hlong : cutLast 58 startsWithDigit (fromName ++ 58 :: toName ++ 58 :: c :: port) =
        some (fromName ++ 58 :: toName, c :: port) := cutLast_append hcolon hok
    rw [if_pos (hport.2 (List.cons_ne_nil c port)), hlong, Option.bind_some, hnames,
      Option.map_some, hall, Option.some_or]

end

/-! ## Virtual domains -/

section

variable {v : Virt} {l : Bytes}

theorem solid_virtLine (h : v.Clean) : Solid (virtLine v) := by
  obtain ⟨huser, hdomain, hprepend⟩ := h
  refine Solid.append ?_ (.cons (by decide) hprepend.solid)
  split_ifs
  · exact huser.solid.append (.cons (by decide) hdomain.solid)
  · exact hdomain.solid

/-- A user that is read has a domain. -/
theorem user_of_parseVirt (h : parseVirt l = some v) : v.user = [] ∨ v.domain ≠ [] := by
  unfold parseVirt at h
  split at h
  · cases h
  · split at h
    · rename_i hcut
      split_ifs at h
      · obtain rfl := Option.some.inj h
        exact .inr (of_decide_eq_true (ok_of_cutLast hcut))
      · obtain rfl := Option.some.inj h
        exact .inl rfl
    · obtain rfl := Option.some.inj h
      exact .inl rfl

/-- A line without a user is read without one. -/
theorem parseVirt_domain {domain prepend : Bytes} (hdomain : CleanField domain)
    (hprepend : CleanField prepend) :
    parseVirt (domain ++ 58 :: prepend) = some ⟨[], domain, prepend⟩ := by
  have hsolid : Solid (domain ++ 58 :: prepend) :=
    hdomain.solid.append (.cons (by decide) hprepend.solid)
  rw [parseVirt, hsolid.word_uncomment, cutLast_append hprepend.colon_not_mem rfl]
  dsimp only
  rw [cutLast_of_not_mem hdomain.at_not_mem]

/-- Exactly the entries of sound requests are read as they were written. -/
theorem parseVirt_virtLine_iff (h : v.Clean) :
    parseVirt (virtLine v) = some v ↔
      v.user = [] ∨ v.user ≠ bytes "0" ∧ v.domain ≠ [] := by
  have hsolid := solid_virtLine h
  obtain ⟨huser, hdomain, hprepend⟩ := h
  by_cases htrue : Perl.isTrue v.user = true
  · have hne : v.user ≠ [] ∧ v.user ≠ [48] := by
      simpa [Perl.isTrue] using htrue
    constructor
    · intro hread
      exact .inr ⟨hne.2, (user_of_parseVirt hread).resolve_left hne.1⟩
    · intro hsound
      have hdom : v.domain ≠ [] := (hsound.resolve_left hne.1).2
      rw [parseVirt, hsolid.word_uncomment, virtLine, if_pos htrue,
        cutLast_append hprepend.colon_not_mem rfl]
      dsimp only
      rw [cutLast_append hdomain.at_not_mem (decide_eq_true hdom)]
      exact if_pos hne.1
  · have hread : parseVirt (virtLine v) = some ⟨[], v.domain, v.prepend⟩ := by
      rw [virtLine, if_neg htrue]
      exact parseVirt_domain hdomain hprepend
    rw [Bool.not_eq_true, isTrue_eq_false_iff] at htrue
    rw [hread]
    constructor
    · intro hsame
      exact .inl (congrArg Virt.user (Option.some.inj hsame)).symm
    · intro hsound
      have hnil : v.user = [] := hsound.elim id fun h => htrue.resolve_right h.1
      obtain ⟨user, domain, prepend⟩ := v
      dsimp only at hnil
      rw [hnil]

end

/-! ## Assignments -/

section

variable {a : Assign}

theorem colon_not_mem_assign (h : a.Clean) :
    ∀ f ∈ [a.mode :: a.address, a.user, a.uid, a.gid, a.home, a.dash, a.preext, []], 58 ∉ f := by
  obtain ⟨hmode, hfields⟩ := h
  simp only [List.forall_mem_cons] at hfields ⊢
  obtain ⟨haddress, huser, huid, hgid, hhome, hdash, hpreext, -⟩ := hfields
  refine ⟨?_, huser.colon_not_mem, huid.colon_not_mem, hgid.colon_not_mem, hhome.colon_not_mem,
    hdash.colon_not_mem, hpreext.colon_not_mem, List.not_mem_nil, fun f hf => by cases hf⟩
  rw [List.mem_cons, not_or]
  refine ⟨?_, haddress.colon_not_mem⟩
  rcases hmode with hmode | hmode <;> rw [hmode] <;> decide

theorem parseAssign_assignLine (h : a.Clean) : parseAssign (assignLine a) = some a := by
  have hsplit : (assignLine a).splitOn 58 =
      [a.mode :: a.address, a.user, a.uid, a.gid, a.home, a.dash, a.preext, []] :=
    List.splitOn_intercalate 58 (colon_not_mem_assign h) (List.cons_ne_nil _ _)
  obtain ⟨hmode, hfields⟩ := h
  have haddress : word a.address = a.address :=
    List.takeWhile_eq_self_iff.2 fun c hc => by
      rw [(hfields a.address List.mem_cons_self c hc).2.2.2, Bool.not_false]
  rw [parseAssign, hsplit]
  simp only [List.getD_cons_zero, List.getD_cons_succ]
  rw [if_pos hmode, haddress]

theorem solid_assignLine (h : a.Clean) : Solid (assignLine a) := by
  intro c hc
  rcases mem_of_mem_joinFields hc with rfl | ⟨f, hf, hc⟩
  · decide
  · obtain ⟨hmode, hfields⟩ := h
    rcases List.mem_cons.1 hf with rfl | hf
    · rcases List.mem_cons.1 hc with rfl | hc
      · rcases hmode with hmode | hmode <;> rw [hmode] <;> decide
      · exact (hfields a.address List.mem_cons_self).solid c hc
    · have hclean : CleanField f ∨ f = [] := by
        simp only [List.mem_cons, List.not_mem_nil, or_false] at hf
        simp only [List.forall_mem_cons] at hfields
        obtain ⟨-, huser, huid, hgid, hhome, hdash, hpreext, -⟩ := hfields
        rcases hf with rfl | rfl | rfl | rfl | rfl | rfl | rfl
        · exact .inl huser
        · exact .inl huid
        · exact .inl hgid
        · exact .inl hhome
        · exact .inl hdash
        · exact .inl hpreext
        · exact .inr rfl
      rcases hclean with hclean | rfl
      · exact hclean.solid c hc
      · cases hc

theorem assignLine_ne_dot (h : a.Clean) : assignLine a ≠ dot := by
  intro hdot
  have hread := parseAssign_assignLine h
  rw [hdot] at hread
  cases hread

end

/-! ## The edits -/

section

variable {s : State} {t : Table} {f : List Bytes → List Bytes} {front : Bool}

theorem Solid.strip_eq {l : Bytes} (h : Solid l) : strip l = l :=
  strip_of_forall fun c hc => (h c hc).2

/-- The lines behind an edit of the lines. -/
theorem fileLines_edit {β : Type} {print : β → Bytes} {edit : Edit β}
    (hcache : ∀ t, s.cache t = none)
    (hf : f (fileLines (s.files t)) = edit.onLines front print (fileLines (s.files t)))
    (hsolid : edit.New fun e => Solid (print e)) :
    fileLines ((editLines t f s).files t) =
      edit.onLines front print (fileLines (s.files t)) := by
  rw [fileLines_editLines (hcache t), hf]
  rw [hf]
  exact forall_mem_onLines (fun l => strip_of_mem_fileLines) (hsolid.mono fun e => Solid.strip_eq)

/-- An edit of the lines has done what it is for if the new line is read as it was written. -/
theorem edited_iff {β : Type} {parse : Bytes → Option β} {print : β → Bytes} {edit : Edit β}
    {list : State → List (Listed β)} (hlist : ∀ s, list s = listing parse (fileLines (s.files t)))
    (hcache : ∀ t, s.cache t = none) (hknown : edit.Known (list s))
    (hf : f (fileLines (s.files t)) = edit.onLines front print (fileLines (s.files t)))
    (hsolid : edit.New fun e => Solid (print e)) :
    Edited t list front print edit s (editLines t f s) ↔
      edit.New fun e => parse (print e) = some e := by
  have hlines := fileLines_edit hcache hf hsolid
  rw [hlist] at hknown
  constructor
  · intro h
    have hentries := h.entries
    rw [hlist, hlist, map_val_listing, map_val_listing, hlines] at hentries
    exact eq_some_of_entries_onLines hknown hentries
  · intro h
    refine ⟨?_, hlines, fun t' ht' => files_editLines hcache ht'⟩
    rw [hlist, hlist, map_val_listing, map_val_listing, hlines]
    exact entries_onLines hknown h

theorem run_route {edit : Edit Route} (hknown : edit.Known (listRoutes s)) :
    ∃ f, (Request.route edit).run s = editLines .routes f s ∧
      f (fileLines (s.files .routes)) =
        edit.onLines false routeLine (fileLines (s.files .routes)) := by
  cases edit with
  | create r => exact ⟨(· ++ [routeLine r]), rfl, rfl⟩
  | modify old r =>
    exact ⟨(splice · old.line 1 [routeLine r]), rfl,
      splice_one_of_lt (line_lt_of_mem_listing hknown) _⟩
  | delete old => exact ⟨(splice · old.line 1 []), rfl, splice_nil _ _⟩

theorem run_virt {edit : Edit Virt} (hknown : edit.Known (listVirts s)) :
    ∃ f, (Request.virt edit).run s = editLines .virts f s ∧
      f (fileLines (s.files .virts)) =
        edit.onLines false virtLine (fileLines (s.files .virts)) := by
  cases edit with
  | create v => exact ⟨(· ++ [virtLine v]), rfl, rfl⟩
  | modify old v =>
    exact ⟨(splice · old.line 1 [virtLine v]), rfl,
      splice_one_of_lt (line_lt_of_mem_listing hknown) _⟩
  | delete old => exact ⟨(splice · old.line 1 []), rfl, splice_nil _ _⟩

theorem done_route {edit : Edit Route} (hcache : ∀ t, s.cache t = none)
    (hfresh : (Request.route edit).Fresh s) (hclean : (Request.route edit).Clean) :
    (Request.route edit).Done s ((Request.route edit).run s) := by
  have hknown : edit.Known (listRoutes s) := hfresh
  obtain ⟨f, hrun, hf⟩ := run_route hknown
  rw [hrun]
  exact (edited_iff (fun _ => rfl) hcache hknown hf (hclean.mono fun r => solid_routeLine)).2
    (hclean.mono fun r => parseRoute_routeLine)

theorem done_virt_iff {edit : Edit Virt} (hcache : ∀ t, s.cache t = none)
    (hfresh : (Request.virt edit).Fresh s) (hclean : (Request.virt edit).Clean) :
    (Request.virt edit).Done s ((Request.virt edit).run s) ↔ (Request.virt edit).Sound := by
  have hknown : edit.Known (listVirts s) := hfresh
  obtain ⟨f, hrun, hf⟩ := run_virt hknown
  rw [hrun]
  refine (edited_iff (fun _ => rfl) hcache hknown hf (hclean.mono fun v => solid_virtLine)).trans ?_
  cases edit with
  | create v => exact parseVirt_virtLine_iff hclean
  | modify old v => exact parseVirt_virtLine_iff hclean
  | delete old => exact Iff.rfl

/-! ## The edits of the assignments -/

theorem takeWhile_terminated {body : List Bytes} (h : dot ∉ body) :
    (body ++ [dot]).takeWhile (· ≠ dot) = body := by
  have hall : ∀ l ∈ body, decide (l ≠ dot) = true := by
    intro l hl
    rw [decide_eq_true_eq]
    rintro rfl
    exact h hl
  rw [List.takeWhile_append_of_pos hall]
  simp

/-- An edit of the lines before the dot. -/
theorem onLines_terminated {edit : Edit Assign} {body : List Bytes}
    (hknown : edit.Known (listing parseAssign body)) :
    edit.onLines true assignLine (body ++ [dot]) =
      edit.onLines true assignLine body ++ [dot] := by
  cases edit with
  | create a => rfl
  | modify old a => exact List.set_append_left _ _ (line_lt_of_mem_listing hknown)
  | delete old => exact List.eraseIdx_append_of_lt_length (line_lt_of_mem_listing hknown) _

theorem run_assign {edit : Edit Assign} {body : List Bytes}
    (hbody : fileLines (s.files .assigns) = body ++ [dot])
    (hknown : edit.Known (listing parseAssign body)) :
    ∃ f, (Request.assign edit).run s = editLines .assigns f s ∧
      f (fileLines (s.files .assigns)) =
        edit.onLines true assignLine (fileLines (s.files .assigns)) := by
  rw [hbody]
  cases edit with
  | create a =>
    refine ⟨fun ls => splice ls 0 0 [assignLine a] ++ if dot ∈ ls then [] else [dot], rfl, ?_⟩
    dsimp only
    rw [if_pos (List.mem_append_right _ (List.mem_singleton_self dot)), List.append_nil]
    rfl
  | modify old a => exact ⟨(·.set old.line (assignLine a)), rfl, rfl⟩
  | delete old => exact ⟨(splice · old.line 1 []), rfl, splice_nil _ _⟩

theorem done_assign {edit : Edit Assign} (hcache : ∀ t, s.cache t = none)
    (hfresh : (Request.assign edit).Fresh s) (hclean : (Request.assign edit).Clean) :
    (Request.assign edit).Done s ((Request.assign edit).run s) := by
  obtain ⟨hknown, body, hbody, hdot⟩ := hfresh
  have hlist : listAssigns s = listing parseAssign body := by
    rw [listAssigns, hbody, takeWhile_terminated hdot]
  rw [hlist] at hknown
  have hsolid : edit.New fun a => Solid (assignLine a) := hclean.mono fun a => solid_assignLine
  have hread : edit.New fun a => parseAssign (assignLine a) = some a :=
    hclean.mono fun a => parseAssign_assignLine
  obtain ⟨f, hrun, hf⟩ := run_assign hbody hknown
  have hlines := fileLines_edit hcache hf hsolid
  have hold : ∀ l ∈ body, l ≠ dot := by
    rintro l hl rfl
    exact hdot hl
  have hdot' : dot ∉ edit.onLines true assignLine body := fun hmem =>
    forall_mem_onLines hold (hclean.mono fun a => assignLine_ne_dot) dot hmem rfl
  have hbody' : fileLines ((editLines .assigns f s).files .assigns) =
      edit.onLines true assignLine body ++ [dot] := by
    rw [hlines, hbody, onLines_terminated hknown]
  rw [hrun]
  refine ⟨⟨?_, hlines, fun t' ht' => files_editLines hcache ht'⟩, _, hbody', hdot'⟩
  rw [hlist, listAssigns, hbody', takeWhile_terminated hdot', map_val_listing, map_val_listing]
  exact entries_onLines hknown hread

/-- **When an edit changes only the addressed entry**: for all files, all requests that come from
a listing of them and all clean new entries, exactly if a new virtual domain has no user, or a user
other than `0` and a domain. -/
theorem done_iff_sound {request : Request} (hcache : ∀ t, s.cache t = none)
    (hfresh : request.Fresh s) (hclean : request.Clean) :
    request.Done s (request.run s) ↔ request.Sound := by
  cases request with
  | route edit => exact iff_of_true (done_route hcache hfresh hclean) trivial
  | virt edit => exact done_virt_iff hcache hfresh hclean
  | assign edit => exact iff_of_true (done_assign hcache hfresh hclean) trivial

end

/-- The files of a server with two virtual domains. -/
def twoVirts : State where
  files t := match t with
    | .routes => bytes "a.cn:10.0.0.1\n"
    | .virts => bytes "a.cn:list\nann@b.cn:ann\n"
    | .assigns => bytes "=ann:ann:500:500:/home/ann:::\n.\n"
  cache _ := none

/-- A virtual domain for `bob`. -/
def newVirt : Request := .virt (.create ⟨bytes "bob", bytes "b.cn", bytes "bob"⟩)

theorem done_newVirt : newVirt.Done twoVirts (newVirt.run twoVirts) :=
  (@done_iff_sound twoVirts newVirt (fun _ => rfl) trivial
    ⟨by decide +kernel, by decide +kernel, by decide +kernel⟩).2
      (.inr ⟨by decide +kernel, by decide +kernel⟩)

/-- The user `0` of a virtual domain is lost. -/
theorem user_zero_lost :
    ¬ ∀ (s : State) (request : Request), (∀ t, s.cache t = none) → request.Fresh s →
      request.Clean → request.Done s (request.run s) := by
  intro h
  have hdone := h twoVirts (.virt (.create ⟨bytes "0", bytes "b.cn", bytes "zero"⟩)) (fun _ => rfl)
    trivial ⟨by decide +kernel, by decide +kernel, by decide +kernel⟩
  exact absurd hdone.entries (by decide +kernel)

end NoSpam.Controler
