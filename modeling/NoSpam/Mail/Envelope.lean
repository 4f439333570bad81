import NoSpam.Mail.Process

/-!
# Envelopes

The envelope of a mail as qmail writes it, and what `get_mail_base_info` reads from a piece of it.
The recipients come out joined by commas; the sender and the recipients as they stood in the
envelope are what `qmail_requeue` writes again.
-/

namespace NoSpam

open Text Perl

/-- Neither a NUL nor white space. -/
def Solid (b : Bytes) : Prop := ∀ c ∈ b, c ≠ 0 ∧ isWhite c = false

instance (b : Bytes) : Decidable (Solid b) := List.decidableBAll _ b

/-- An envelope. -/
structure Envelope where
  sender : Bytes
  recips : List Bytes
  solid_sender : Solid sender
  solid_recips : ∀ r ∈ recips, Solid r

theorem Solid.nul_not_mem {b : Bytes} (h : Solid b) : 0 ∉ b := fun hm => (h 0 hm).1 rfl

namespace Envelope

variable (e : Envelope)

/-- The recipients on the wire. -/
def encodeRecips (recips : List Bytes) : Bytes := recips.flatMap (fun r => 84 :: r ++ [0]) ++ [0]

/-- The envelope on the wire. -/
def encode : Bytes := 70 :: e.sender ++ 0 :: encodeRecips e.recips

theorem two_le_count_encode : 2 ≤ e.encode.count 0 := by
  rw [encode, encodeRecips]
  simp only [List.cons_append, List.count_append, List.count_cons, List.count_nil,
    beq_self_eq_true, if_true]
  omega

theorem nul_cons_encodeRecips (recips : List Bytes) :
    0 :: encodeRecips recips = recips.flatMap (fun r => 0 :: 84 :: r) ++ [0, 0] := by
  induction recips with
  | nil => rfl
  | cons r rs ih =>
    rw [encodeRecips] at ih ⊢
    simp only [List.flatMap_cons, List.cons_append, List.append_assoc, List.nil_append] at ih ⊢
    rw [ih]

/-- The recipients end in a symbol of the last one, or in its `T`. -/
theorem rdropWhile_recips {r : Bytes} {rs : List Bytes} (hr : 0 ∉ r) (hrs : ∀ x ∈ rs, 0 ∉ x) :
    (r ++ rs.flatMap fun x => 0 :: 84 :: x).rdropWhile (· = 0) =
      r ++ rs.flatMap fun x => 0 :: 84 :: x := by
  rw [List.rdropWhile_eq_self_iff]
  intro hne
  simp only [decide_eq_true_eq]
  rcases List.eq_nil_or_concat rs with rfl | ⟨rs', x, rfl⟩
  · intro h0
    simp only [List.flatMap_nil, List.append_nil] at h0 hne
    exact hr (h0 ▸ List.getLast_mem hne)
  · intro h0
    have hx := hrs x (by simp)
    have hlast := List.getLast?_eq_some_getLast hne
    rw [h0] at hlast
    simp only [List.concat_eq_append, List.flatMap_append, List.flatMap_cons, List.flatMap_nil,
      List.append_nil, List.getLast?_append, List.getLast?_cons_cons] at hlast
    cases x with
    | nil => simp at hlast
    | cons c x =>
      have hmem : (0 : UInt8) ∈ c :: x := by
        apply List.mem_of_getLast?
        simpa using hlast
      exact hx hmem

theorem replacePair_recips {r : Bytes} {rs : List Bytes} (hr : 0 ∉ r) (hrs : ∀ x ∈ rs, 0 ∉ x) :
    replacePair 0 84 44 (r ++ rs.flatMap fun x => 0 :: 84 :: x) = joinFields 44 (r :: rs) := by
  rw [joinFields_cons, replacePair_append hr]
  congr 1
  clear hr
  induction rs with
  | nil => rfl
  | cons x rs ih =>
    rw [List.flatMap_cons, List.cons_append, List.cons_append, replacePair_pair,
      replacePair_append (hrs x (by simp)), ih fun y hy => hrs y (by simp [hy])]
    rfl

theorem recipsOf_terminated (stale l : Bytes) :
    recipsOf stale (84 :: (l ++ [0])) = replacePair 0 84 44 (l.rdropWhile (· = 0)) := by
  simp [recipsOf]

/-- The recipients are read as they stand, with commas between them. -/
theorem recipsOf_encodeRecips {recips : List Bytes} (h : ∀ r ∈ recips, 0 ∉ r) (stale : Bytes) :
    recipsOf stale (encodeRecips recips) = joinFields 44 recips := by
  cases recips with
  | nil => rfl
  | cons r rs =>
    have hr := h r (by simp)
    have hrs : ∀ x ∈ rs, 0 ∉ x := fun x hx => h x (by simp [hx])
    have hwire : encodeRecips (r :: rs) =
        84 :: (r ++ rs.flatMap (fun x => 0 :: 84 :: x) ++ [0] ++ [0]) := by
      have hnul := nul_cons_encodeRecips rs
      rw [encodeRecips] at hnul ⊢
      simp only [List.flatMap_cons, List.cons_append, List.append_assoc, List.nil_append] at hnul ⊢
      rw [hnul]
    rw [hwire, recipsOf_terminated, List.rdropWhile_concat_pos _ _ _ (by decide),
      rdropWhile_recips hr hrs, replacePair_recips hr hrs]

theorem encodeRecips_injective {rs rs' : List Bytes} (h : ∀ r ∈ rs, 0 ∉ r) (h' : ∀ r ∈ rs', 0 ∉ r)
    (he : encodeRecips rs = encodeRecips rs') : rs = rs' := by
  have hcons : ∀ (r : Bytes) (rs : List Bytes),
      encodeRecips (r :: rs) = 84 :: (r ++ 0 :: encodeRecips rs) := by
    intro r rs
    simp [encodeRecips]
  induction rs generalizing rs' with
  | nil =>
    cases rs' with
    | nil => rfl
    | cons r' rs' =>
      rw [hcons] at he
      exact absurd (List.head_eq_of_cons_eq he) (by decide)
  | cons r rs ih =>
    cases rs' with
    | nil =>
      rw [hcons] at he
      exact absurd (List.head_eq_of_cons_eq he) (by decide)
    | cons r' rs' =>
      rw [hcons, hcons, List.cons_inj_right] at he
      have hcut := congrArg (cutAt 0) he
      rw [cutAt_append (h r List.mem_cons_self), cutAt_append (h' r' List.mem_cons_self)] at hcut
      obtain ⟨rfl, hrest⟩ := Prod.mk.inj hcut
      rw [ih (fun x hx => h x (List.mem_cons_of_mem r hx))
        (fun x hx => h' x (List.mem_cons_of_mem r hx)) (Option.some.inj hrest)]

/-- The wire determines the envelope. -/
theorem encode_injective {e e' : Envelope} (h : e.encode = e'.encode) :
    e.sender = e'.sender ∧ e.recips = e'.recips := by
  rw [encode, encode, List.cons_append, List.cons_append, List.cons_inj_right] at h
  have hcut := congrArg (cutAt 0) h
  rw [cutAt_append e.solid_sender.nul_not_mem, cutAt_append e'.solid_sender.nul_not_mem] at hcut
  obtain ⟨hsender, hrecips⟩ := Prod.mk.inj hcut
  exact ⟨hsender, encodeRecips_injective (fun r hr => (e.solid_recips r hr).nul_not_mem)
    (fun r hr => (e'.solid_recips r hr).nul_not_mem) (Option.some.inj hrecips)⟩

/-! ## What the mail object knows of it -/

/-- The mail has the sender and the recipients of the envelope, and `qmail_requeue` would write the
envelope. -/
def Known (a : Aka) : Prop :=
  a.returnpath = e.sender ∧ fields 44 a.recips = e.recips ∧ Mail.envelope a = e.encode

theorem envelope_readEnvelope {a : Aka} (h : a.fd1.head? = some 70) :
    Mail.envelope (readEnvelope a) = if 0 ∈ a.fd1 then a.fd1 else a.fd1 ++ [0] := by
  have hcut := cutAt_fst_append 0 a.fd1
  obtain ⟨l, hl⟩ : ∃ l, a.fd1 = 70 :: l := by
    cases hfd : a.fd1 with
    | nil => simp [hfd] at h
    | cons c l => exact ⟨l, by simpa [hfd] using h⟩
  have hfst : (cutAt 0 a.fd1).1 = 70 :: (cutAt 0 l).1 := by rw [hl, cutAt, if_neg (by decide)]
  have htrue : isTrue (cutAt 0 a.fd1).1 = true := by
    rw [hfst]
    simp [Perl.isTrue]
  unfold Mail.envelope readEnvelope
  simp only [hfst, List.head?_cons, if_true]
  rw [← hfst, htrue, Bool.true_or, if_pos rfl, hcut]

instance (a : Aka) : Decidable (e.Known a) := inferInstanceAs (Decidable (_ ∧ _))

theorem readEnvelope_of_encode {a : Aka} (h : a.fd1 = e.encode) :
    (readEnvelope a).returnpath = e.sender ∧ (readEnvelope a).recips = joinFields 44 e.recips := by
  have hsender : 0 ∉ 70 :: e.sender := by
    simp [e.solid_sender.nul_not_mem]
  have hcut : cutAt 0 a.fd1 = (70 :: e.sender, some (encodeRecips e.recips)) := by
    rw [h, encode, cutAt_append hsender]
  unfold readEnvelope
  simp only [hcut, List.head?_cons, if_true, Option.getD_some, List.tail_cons, true_and]
  exact recipsOf_encodeRecips (fun r hr => (e.solid_recips r hr).nul_not_mem) _

/-- The whole envelope is read right when no comma stands in a recipient and the last recipient is
not empty. -/
theorem known_iff_of_encode {a : Aka} (h : a.fd1 = e.encode) :
    e.Known (readEnvelope a) ↔
      (∀ r ∈ e.recips, 44 ∉ r) ∧ ∀ hne : e.recips ≠ [], e.recips.getLast hne ≠ [] := by
  have hread := e.readEnvelope_of_encode h
  have henv : Mail.envelope (readEnvelope a) = e.encode := by
    rw [envelope_readEnvelope (by rw [h]; rfl), h, if_pos (by simp [encode])]
  unfold Known
  rw [hread.1, hread.2, henv, fields_joinFields_iff]
  simp

/-- A proper piece of the envelope is written again as it stands, or with a NUL. -/
theorem not_known_of_piece {a : Aka} (hne : a.fd1 ≠ []) (hpiece : a.fd1 <+: e.encode)
    (h : a.fd1 ≠ e.encode) : ¬ e.Known (readEnvelope a) := by
  rintro ⟨-, -, henv⟩
  have hhead : a.fd1.head? = some 70 := by
    cases hfd : a.fd1 with
    | nil => exact absurd hfd hne
    | cons c l =>
      rw [hfd, encode, List.cons_append, List.cons_prefix_cons] at hpiece
      rw [hpiece.1, List.head?_cons]
  rw [envelope_readEnvelope hhead] at henv
  split_ifs at henv with h0
  · exact h henv
  · have hcount := congrArg (List.count 0) henv
    rw [List.count_append, List.count_eq_zero.2 h0, List.count_singleton_self] at hcount
    have htwo := e.two_le_count_encode
    omega

theorem encode_ne_default (h : e.recips = []) : e.encode ≠ [70, 0, 84, 0, 0] := by
  intro he
  rw [encode, h, List.cons_append, List.cons_inj_right] at he
  cases hs : e.sender with
  | nil => simp [hs, encodeRecips] at he
  | cons c l =>
    rw [hs, List.cons_append, List.cons.injEq] at he
    exact (e.solid_sender c (by simp [hs])).1 he.1

/-- A mail without an envelope gets the empty one. -/
theorem not_known_of_unread {a : Aka} (hreturn : a.envReturnpath = []) (hrecips : a.envRecips = [])
    (h : a.recips = []) : ¬ e.Known a := by
  rintro ⟨-, hfields, henv⟩
  rw [h] at hfields
  apply e.encode_ne_default hfields.symm
  rw [← henv, Mail.envelope, hreturn, hrecips]
  rfl

/-- Nothing that is free of NULs is read as an envelope. -/
theorem not_known_of_nul_free {a : Aka} (h : 0 ∉ a.fd1) : ¬ e.Known (readEnvelope a) := by
  have hcut := cutAt_of_not_mem h
  rintro ⟨-, hfields, henv⟩
  by_cases hhead : a.fd1.head? = some 70
  · rw [envelope_readEnvelope hhead, if_neg h] at henv
    have hcount := congrArg (List.count 0) henv
    rw [List.count_append, List.count_eq_zero.2 h, List.count_singleton_self] at hcount
    have htwo := e.two_le_count_encode
    omega
  · have hrecips : (readEnvelope a).recips = [] := by
      unfold readEnvelope
      simp only [hcut, if_neg hhead]
    rw [hrecips] at hfields
    have hempty := hfields.symm
    rw [fields, List.splitOn_nil] at hempty
    unfold Mail.envelope readEnvelope at henv
    simp only [hcut, if_neg hhead, Option.getD_none] at henv
    split_ifs at henv with htrue
    · apply hhead
      cases hfd : a.fd1 with
      | nil => simp [hfd, Perl.isTrue] at htrue
      | cons c l =>
        rw [hfd, encode, List.cons_append, List.cons_append, List.cons.injEq] at henv
        rw [henv.1, List.head?_cons]
    · exact e.encode_ne_default hempty henv.symm

/-- A mail object that has just received its lines knows the envelope when the message file is
there and the fifth line is read right. -/
theorem known_getMailBaseInfo_iff {a b : Aka} (hfd1 : a.fd1 = b.fd1)
    (hreturn : a.envReturnpath = []) (henv : a.envRecips = []) (hrecips : a.recips = [])
    (decode : Decoders) (file : Option Bytes) :
    e.Known (getMailBaseInfo decode file a) ↔ file.isSome ∧ e.Known (readEnvelope b) := by
  cases file with
  | none =>
    simp only [Option.isSome_none, Bool.false_eq_true, false_and, iff_false]
    exact e.not_known_of_unread hreturn henv hrecips
  | some message =>
    simp only [Option.isSome_some, true_and]
    unfold getMailBaseInfo Known Mail.envelope readEnvelope
    rw [hfd1]
    dsimp only
    split_ifs <;> rfl

end Envelope

end NoSpam
