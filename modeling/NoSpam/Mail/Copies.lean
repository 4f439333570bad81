import NoSpam.Loader.Submit
import NoSpam.Mail.Quarantine

/-!
# The copies in quarantine

Every turn of the loop of `quarantine_action` ends with the message file losing its first name, so
only the first turn finds something to give a second name.  The info files are written in every
turn.
-/

namespace NoSpam.Quarantine

open Text Perl Conf

variable (qType : QuarantineType) (a : Aka) (reason desc : Bytes)

/-- The name of the copy for a recipient. -/
def target (r : Bytes) : Option Bytes :=
  match qType with
  | .admin => some (adminPath (baseName a.emlfilename))
  | .user => (parseAddress r).map fun p => userPath p.1 p.2 (baseName a.emlfilename)

/-- One turn of the loop. -/
def turn (fs : Store Bytes Bytes) (r : Bytes) : Store Bytes Bytes :=
  quarantine qType a.emlfilename (infoOf a reason desc r) fs

theorem quarantineAction_eq (fs : Store Bytes Bytes) :
    quarantineAction qType reason desc a fs = (registered a).foldl (turn qType a reason desc) fs :=
  rfl

theorem turn_eq {r : Bytes} (h : 44 ∉ r) (fs : Store Bytes Bytes) :
    turn qType a reason desc fs r =
      Store.unlink a.emlfilename (match target qType a r with
        | some p => deposit a.emlfilename p (infoOf a reason desc r) fs
        | none => fs) := by
  unfold turn quarantine target
  cases qType with
  | admin => rfl
  | user =>
    have hfields := fields_of_not_mem h
    dsimp only [infoOf] at hfields ⊢
    rw [hfields]
    by_cases hr : r = []
    · subst hr
      rfl
    · rw [if_neg hr, List.foldl_cons, List.foldl_nil, depositUser]
      cases parseAddress r <;> rfl

/-! ## Names in the quarantine -/

/-- A name that a copy of the mail can have. -/
def IsCopyName (p : Bytes) : Prop :=
  ∃ dir, p = (quarantinedir ++ 47 :: dir) ++ 47 :: baseName a.emlfilename

variable {qType a}

theorem isCopyName_of_target {r p : Bytes} (h : target qType a r = some p) : IsCopyName a p := by
  have hslash : bytes "/" = [47] := by decide
  unfold target at h
  cases qType with
  | admin =>
    obtain rfl := Option.some.inj h
    exact ⟨sysdir, by simp [adminPath, hslash]⟩
  | user =>
    obtain ⟨⟨user, domain⟩, -, rfl⟩ := Option.map_eq_some_iff.1 h
    exact ⟨domain ++ 47 :: user, by simp [userPath, hslash]⟩

/-- A copy is never an info file. -/
theorem IsCopyName.ne_infoPath {p p' : Bytes} (h : IsCopyName a p) (h' : IsCopyName a p') :
    p ≠ infoPath p' := by
  obtain ⟨dir, rfl⟩ := h
  obtain ⟨dir', rfl⟩ := h'
  intro he
  have hbase : 47 ∉ baseName a.emlfilename := sep_not_mem_lastField _ _
  have hinfo : 47 ∉ baseName a.emlfilename ++ bytes ".info" := by
    rw [List.mem_append, not_or]
    exact ⟨hbase, by decide⟩
  have hlast := congrArg (lastField 47) he
  rw [infoPath, List.append_assoc _ _ (bytes ".info"), List.cons_append, lastField_append hbase,
    lastField_append hinfo] at hlast
  have hlen := congrArg List.length hlast
  rw [List.length_append] at hlen
  have hfive : (bytes ".info").length = 5 := by decide
  omega

theorem infoPath_injective {p p' : Bytes} (h : infoPath p = infoPath p') : p = p' :=
  List.append_cancel_right h

/-- The loader has spooled the message under the name that the mail object knows. -/
structure Spooled (a : Aka) (message : Bytes) (fs : Store Bytes Bytes) : Prop where
  name : ∃ time pid, a.emlfilename = Loader.emlfile time pid
  file : fs a.emlfilename = some message

theorem not_prefix_emlfile (time pid : ℕ) : ¬ quarantinedir <+: Loader.emlfile time pid := by
  intro h
  have htake := List.prefix_iff_eq_take.1 h
  have hlen : quarantinedir.length = 23 := by decide
  rw [hlen, Loader.emlfile, List.append_assoc, List.take_append_of_le_length (by decide)] at htake
  exact absurd htake (by decide)

theorem Spooled.not_prefix {message : Bytes} {fs : Store Bytes Bytes} (h : Spooled a message fs) :
    ¬ quarantinedir <+: a.emlfilename := by
  obtain ⟨time, pid, hname⟩ := h.name
  rw [hname]
  exact not_prefix_emlfile time pid

/-- Neither a copy nor an info file is the spooled file. -/
theorem IsCopyName.ne_emlfilename {p : Bytes} (h : IsCopyName a p)
    (ha : ¬ quarantinedir <+: a.emlfilename) : p ≠ a.emlfilename ∧ infoPath p ≠ a.emlfilename := by
  obtain ⟨dir, rfl⟩ := h
  constructor
  · intro he
    apply ha
    rw [← he]
    simp
  · intro he
    apply ha
    rw [← he]
    simp [infoPath]

/-! ## One turn, and all of them -/

section Turns

variable {reason desc} {fs : Store Bytes Bytes} {r p : Bytes}

theorem turn_emlfilename (h : 44 ∉ r) : turn qType a reason desc fs r a.emlfilename = none := by
  rw [turn_eq _ _ _ _ h, Store.unlink_self]

/-- The copy: a turn for this name links what is left of the message file. -/
theorem turn_copy (h : 44 ∉ r) (ha : ¬ quarantinedir <+: a.emlfilename) (hp : IsCopyName a p) :
    turn qType a reason desc fs r p =
      if target qType a r = some p then (fs p).or (fs a.emlfilename) else fs p := by
  obtain ⟨hpe, -⟩ := hp.ne_emlfilename ha
  rw [turn_eq _ _ _ _ h, Store.unlink_of_ne hpe]
  cases ht : target qType a r with
  | none => rfl
  | some q =>
    have hq := isCopyName_of_target ht
    dsimp only [deposit]
    by_cases hqp : q = p
    · subst hqp
      rw [if_pos rfl, Store.link_self, Store.write_of_ne (hq.ne_infoPath hq),
        Store.write_of_ne (hq.ne_emlfilename ha).2.symm]
    · rw [if_neg (by simpa using hqp), Store.link_of_ne (Ne.symm hqp),
        Store.write_of_ne (hp.ne_infoPath hq)]

/-- The info file: a turn for this name writes it. -/
theorem turn_info (h : 44 ∉ r) (ha : ¬ quarantinedir <+: a.emlfilename) (hp : IsCopyName a p) :
    turn qType a reason desc fs r (infoPath p) =
      if target qType a r = some p then some (makeInfoContent (infoOf a reason desc r))
      else fs (infoPath p) := by
  obtain ⟨-, hpe⟩ := hp.ne_emlfilename ha
  rw [turn_eq _ _ _ _ h, Store.unlink_of_ne hpe]
  cases ht : target qType a r with
  | none => rfl
  | some q =>
    have hq := isCopyName_of_target ht
    dsimp only [deposit]
    rw [Store.link_of_ne (hq.ne_infoPath hp).symm]
    by_cases hqp : q = p
    · subst hqp
      rw [if_pos rfl, Store.write_self]
    · rw [if_neg (by simpa using hqp), Store.write_of_ne fun he => hqp (infoPath_injective he).symm]

variable {rs : List Bytes}

/-- Without the message file no turn changes a copy. -/
theorem turns_copy_of_gone (h : ∀ r ∈ rs, 44 ∉ r) (ha : ¬ quarantinedir <+: a.emlfilename)
    (hp : IsCopyName a p) (hgone : fs a.emlfilename = none) :
    rs.foldl (turn qType a reason desc) fs p = fs p := by
  induction rs generalizing fs with
  | nil => rfl
  | cons r rs ih =>
    rw [List.foldl_cons, ih (fun r' hr' => h r' (List.mem_cons_of_mem r hr'))
      (turn_emlfilename (h r List.mem_cons_self)), turn_copy (h r List.mem_cons_self) ha hp, hgone]
    simp

/-- Only the first turn makes a copy. -/
theorem turns_copy (h : ∀ r' ∈ r :: rs, 44 ∉ r') (ha : ¬ quarantinedir <+: a.emlfilename)
    (hp : IsCopyName a p) :
    (r :: rs).foldl (turn qType a reason desc) fs p =
      if target qType a r = some p then (fs p).or (fs a.emlfilename) else fs p := by
  have hr := h r List.mem_cons_self
  rw [List.foldl_cons, turns_copy_of_gone (fun r' hr' => h r' (List.mem_cons_of_mem r hr')) ha hp
    (turn_emlfilename hr), turn_copy hr ha hp]

/-- The info file is the one that the last turn for this name has written. -/
theorem turns_info (h : ∀ r' ∈ rs, 44 ∉ r') (ha : ¬ quarantinedir <+: a.emlfilename)
    (hp : IsCopyName a p) :
    rs.foldl (turn qType a reason desc) fs (infoPath p) =
      match (rs.filter fun r' => target qType a r' = some p).getLast? with
      | some r' => some (makeInfoContent (infoOf a reason desc r'))
      | none => fs (infoPath p) := by
  induction rs using List.reverseRecOn with
  | nil => rfl
  | append_singleton rs r ih =>
    rw [List.foldl_append, List.foldl_cons, List.foldl_nil,
      turn_info (h r (by simp)) ha hp, ih fun r' hr' => h r' (by simp [hr']), List.filter_append]
    by_cases ht : target qType a r = some p
    · rw [if_pos ht, List.filter_cons_of_pos (by simpa using ht), List.filter_nil,
        List.getLast?_concat]
    · rw [if_neg ht, List.filter_cons_of_neg (by simpa using ht), List.filter_nil, List.append_nil]

end Turns

/-! ## The copies of registered recipients -/

theorem comma_not_mem_of_registered {r : Bytes} (h : r ∈ registered a) : 44 ∉ r :=
  not_mem_of_mem_fields (List.mem_of_mem_filter h)

/-- Every registered recipient has the message and an info file in his directory. -/
def Kept (a : Aka) (message : Bytes) (fs : Store Bytes Bytes) : Prop :=
  ∀ r ∈ registered a, ∃ p ∈ target .user a r, fs p = some message ∧ (fs (infoPath p)).isSome

/-- Every registered recipient has an address, and his directory has the message already, or is
that of the first registered recipient and has no file of that name. -/
def OneDirectory (a : Aka) (message : Bytes) (fs : Store Bytes Bytes) : Prop :=
  ∀ r ∈ registered a, ∃ p ∈ target .user a r,
    fs p = some message ∨ fs p = none ∧ (registered a).head?.bind (target .user a) = some p

theorem kept_iff_oneDirectory {message : Bytes} {fs : Store Bytes Bytes}
    (h : Spooled a message fs) :
    Kept a message (quarantineAction .user reason desc a fs) ↔ OneDirectory a message fs := by
  have hcomma : ∀ r ∈ registered a, 44 ∉ r := fun r => comma_not_mem_of_registered
  have hnot := h.not_prefix
  unfold Kept OneDirectory
  rw [quarantineAction_eq]
  refine forall₂_congr fun r hr => exists_congr fun p => and_congr_right fun hp => ?_
  have hname := isCopyName_of_target hp
  have hinfo : ((registered a).foldl (turn .user a reason desc) fs (infoPath p)).isSome = true := by
    rw [turns_info hcomma hnot hname]
    have hmem : r ∈ (registered a).filter fun r' => target .user a r' = some p :=
      List.mem_filter.2 ⟨hr, by simpa using hp⟩
    cases hl : ((registered a).filter fun r' => target .user a r' = some p).getLast? with
    | none =>
      rw [List.getLast?_eq_none_iff.1 hl] at hmem
      exact absurd hmem List.not_mem_nil
    | some r' => rfl
  rw [and_iff_left hinfo]
  cases hreg : registered a with
  | nil =>
    rw [hreg] at hr
    exact absurd hr List.not_mem_nil
  | cons r₁ rs =>
    rw [hreg] at hcomma
    rw [turns_copy hcomma hnot hname, h.file, List.head?_cons, Option.bind_some]
    by_cases ht : target .user a r₁ = some p
    · rw [if_pos ht]
      cases fs p <;> simp [ht]
    · rw [if_neg ht]
      simp [ht]

end NoSpam.Quarantine

namespace NoSpam.Mail

open Text Conf Quarantine

/-- **Every registered recipient keeps a copy** of a mail that the spam or the antivirus engine puts
into quarantine exactly when all of them share one directory. -/
theorem act_kept_iff (o : Outside) {e : Engine} (he : e = .spam ∨ e = .antivirus) (m : Mail)
    (hq : (m.aka.engine e).action = actionQuarantine) {message : Bytes}
    (h : Spooled m.aka message m.fs) :
    Kept m.aka message (m.act o e).fs ↔ OneDirectory m.aka message m.fs := by
  have huser : (quarantineOf e).1 = .user := by
    rcases he with rfl | rfl <;> rfl
  have hfs : (m.act o e).fs =
      quarantineAction .user (quarantineOf e).2 (m.aka.engine e).desc m.aka m.fs := by
    unfold act
    dsimp only
    rw [hq, if_neg (by decide), if_neg (by decide), huser]
    rfl
  rw [hfs]
  exact kept_iff_oneDirectory _ _ h

/-- A mail with a virus, for registered recipients. -/
def infected (recips : List Bytes) : Mail where
  config := {}
  licenseOk := true
  content := Content.Filter.new Content.fileTypes ∅ ∅
  aka :=
    { emlfilename := Loader.emlfile 1 1
      returnpath := bytes "a@x.org"
      recips := joinFields 44 recips
      engine := fun e =>
        if e = .antivirus then ran (bytes "1") (bytes "EICAR") actionQuarantine true
        else if e = .quarantine then { qUsers := recips } else {} }
  fs := Store.write (Loader.emlfile 1 1) (bytes "virus") fun _ => none

theorem spooled_infected (recips : List Bytes) :
    Spooled (infected recips).aka (bytes "virus") (infected recips).fs := by
  refine ⟨⟨1, 1, rfl⟩, ?_⟩
  show Store.write (Loader.emlfile 1 1) (bytes "virus") (fun _ => none) (Loader.emlfile 1 1) = _
  exact Store.write_self

/-- Two recipients with one directory. -/
theorem kept_two_spellings :
    Kept (infected [bytes "b@y.org", bytes "B@Y.org"]).aka (bytes "virus")
      ((infected [bytes "b@y.org", bytes "B@Y.org"]).act .plain .antivirus).fs :=
  (act_kept_iff .plain (Or.inr rfl) _ rfl (spooled_infected _)).2
    (by unfold OneDirectory; decide +kernel)

/-- The second of two recipients has no copy. -/
theorem not_kept_two_recipients :
    ¬ Kept (infected [bytes "b@y.org", bytes "c@y.org"]).aka (bytes "virus")
      ((infected [bytes "b@y.org", bytes "c@y.org"]).act .plain .antivirus).fs := by
  unfold Kept
  decide +kernel

end NoSpam.Mail
