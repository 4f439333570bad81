import NoSpam.Base.Stream
import NoSpam.Mail.Envelope
import NoSpam.Mail.Session

/-!
# The mail on its way to the daemon

The loader spools the message, takes the envelope from descriptor 1 with a single `read`, and sends
the daemon five lines: four facts about the client and the envelope.
-/

namespace NoSpam.Loader

open Text Perl Buffered

/-- The environment the SMTP server has set for the loader; its values are C strings. -/
structure Client where
  relayclient : Bool
  tcpremoteip : Bytes
  tcpremoteinfo : Bytes
  nul_not_mem_ip : 0 ∉ tcpremoteip
  nul_not_mem_info : 0 ∉ tcpremoteinfo

/-- The name that `dump_stdin_to_file` gives the message file. -/
def emlfile (time pid : ℕ) : Bytes :=
  bytes "/home/NoSPAM/spool/working/new/emlfile.gw.nospam." ++ decimal time ++ 46 :: decimal pid

/-- `grab_envelope_hdrs`. -/
def grabEnvelopeHdrs {l : Bytes} (d : Delivery l) : Bytes := d.firstRead 2048

/-- `qmail_hdrs::valid`: the first five bytes of the buffer, whatever it held beyond the text, are
not those of the empty envelope. -/
def valid (stack : ℕ → UInt8) (hdrs : Bytes) : Bool :=
  hdrs ≠ [] &&
    (List.range 5).any fun i => ([70, 0, 84, 0, 0] : Bytes).getD i 0 ≠ hdrs.getD i (stack i)

/-- The lines before the envelope. -/
def preamble (c : Client) (emlfile : Bytes) : Bytes :=
  (if c.relayclient then [49] else []) ++ 10 :: (c.tcpremoteip ++ 10 :: (c.tcpremoteinfo ++
    10 :: (emlfile ++ [10])))

/-- What the loader writes to the daemon. -/
def transfer (c : Client) (emlfile hdrs : Bytes) : Bytes := preamble c emlfile ++ (hdrs ++ [10])

/-- The loader's request, unless it finds the envelope invalid. -/
def submit (c : Client) (time pid : ℕ) (stack : ℕ → UInt8) {l : Bytes} (d : Delivery l)
    (message : Bytes) (o : Outside) (order : HashOrder) : Option Request :=
  if valid stack (grabEnvelopeHdrs d) then
    some
      { stdin := transfer c (emlfile time pid) (grabEnvelopeHdrs d)
        file := emlfile time pid
        message
        outside := o
        order }
  else none

/-! ## The five lines -/

section Lines

variable (c : Client) {file hdrs : Bytes}

theorem fd1_recvMailInfoEx (input : Bytes) :
    (recvMailInfoEx input).fd1 =
      (stripLineEnds (readLine 10 (dropLines 10 4 input)).1).filter (!isWhite ·) := rfl

/-- No NUL stands before the envelope. -/
theorem nul_not_mem_preamble (h : 0 ∉ file) : 0 ∉ preamble c file := by
  have hip := c.nul_not_mem_ip
  have hinfo := c.nul_not_mem_info
  unfold preamble
  split_ifs <;> simp [hip, hinfo, h]

/-- With a line end in a value, what is read for the envelope is a line from before it. -/
theorem nul_not_mem_fd1 (hfile : 0 ∉ file) (h : 5 ≤ (preamble c file).count 10) (rest : Bytes) :
    0 ∉ (recvMailInfoEx (preamble c file ++ rest)).fd1 := by
  have hcount := count_dropLines 10 4 (preamble c file)
  have hmem : 10 ∈ dropLines 10 4 (preamble c file) := List.count_pos_iff.1 (by omega)
  rw [fd1_recvMailInfoEx, dropLines_append (by omega), readLine_append_of_mem hmem]
  intro h0
  have hline := List.mem_of_mem_filter (List.mem_of_mem_filter h0)
  have hlines : 0 ∈ dropLines 10 4 (preamble c file) := by
    rw [← readLine_fst_append_snd 10 (dropLines 10 4 (preamble c file))]
    exact List.mem_append_left _ hline
  exact nul_not_mem_preamble c hfile ((dropLines_suffix 10 4 _).subset hlines)

theorem count_preamble (hfile : 10 ∉ file) :
    (preamble c file).count 10 = 4 + c.tcpremoteip.count 10 + c.tcpremoteinfo.count 10 := by
  have hrelay : (if c.relayclient then [49] else [] : Bytes).count 10 = 0 := by
    split_ifs <;> rfl
  unfold preamble
  simp only [List.count_append, List.count_cons_self, hrelay, List.count_eq_zero.2 hfile,
    List.count_nil]
  omega

theorem stripLineEnds_line {l : Bytes} (h : ∀ b ∈ l, isWhite b = false) :
    stripLineEnds (l ++ [10]) = l := by
  have hself : l.filter (fun b => b ≠ 13 && b ≠ 10) = l := by
    apply List.filter_eq_self.2
    intro b hb
    have hspace := h b hb
    simp only [Bool.and_eq_true, decide_eq_true_eq]
    refine ⟨?_, ?_⟩
    all_goals
      rintro rfl
      exact absurd hspace (by decide)
  unfold stripLineEnds
  rw [List.filter_append, hself]
  exact List.append_nil l

theorem nl_not_mem {l : Bytes} (h : ∀ b ∈ l, isWhite b = false) : 10 ∉ l :=
  fun hm => absurd (h 10 hm) (by decide)

/-- Without line ends in the values, the lines are read as they were meant. -/
theorem recvMailInfoEx_transfer (hip : 10 ∉ c.tcpremoteip) (hinfo : 10 ∉ c.tcpremoteinfo)
    (hfile : ∀ b ∈ file, isWhite b = false) (hhdrs : ∀ b ∈ hdrs, isWhite b = false) :
    (recvMailInfoEx (transfer c file hdrs)).emlfilename = file ∧
      (recvMailInfoEx (transfer c file hdrs)).fd1 = hdrs := by
  have hrelay : 10 ∉ (if c.relayclient then [49] else [] : Bytes) := by
    split_ifs <;> decide
  have hfilter : hdrs.filter (!isWhite ·) = hdrs :=
    List.filter_eq_self.2 fun b hb => by rw [hhdrs b hb, Bool.not_false]
  unfold transfer preamble recvMailInfoEx recvLines
  simp only [List.append_assoc, List.cons_append, readLine_append hrelay, readLine_append hip,
    readLine_append hinfo, readLine_append (nl_not_mem hfile), readLine_append (nl_not_mem hhdrs),
    List.nil_append, stripLineEnds_line hfile, stripLineEnds_line hhdrs, hfilter, and_self]

theorem not_mem_emlfile {b : UInt8}
    (hb : b ∉ bytes "/home/NoSPAM/spool/working/new/emlfile.gw.nospam.")
    (hdigit : isDigit b = false) (hdot : b ≠ 46) (time pid : ℕ) : b ∉ emlfile time pid := by
  have hdecimal : ∀ n, b ∉ decimal n := fun n hm => by
    rw [isDigit_of_mem_decimal hm] at hdigit
    cases hdigit
  rw [emlfile, List.append_assoc, List.mem_append, List.mem_append, List.mem_cons]
  rintro (hm | hm | hm | hm)
  · exact hb hm
  · exact hdecimal time hm
  · exact hdot hm
  · exact hdecimal pid hm

theorem nul_not_mem_emlfile (time pid : ℕ) : 0 ∉ emlfile time pid :=
  not_mem_emlfile (by decide) (by decide) (by decide) time pid

theorem isWhite_emlfile (time pid : ℕ) : ∀ b ∈ emlfile time pid, isWhite b = false := by
  intro b hb
  by_contra hspace
  rw [Bool.not_eq_false] at hspace
  refine not_mem_emlfile ?_ ?_ ?_ time pid hb
  · intro hm
    have hall : (bytes "/home/NoSPAM/spool/working/new/emlfile.gw.nospam.").all
        (!isWhite ·) = true := by
      decide
    simpa [hspace] using List.all_eq_true.1 hall b hm
  · by_contra hdigit
    rw [not_isWhite_of_isDigit (by simpa using hdigit)] at hspace
    cases hspace
  · rintro rfl
    cases hspace

end Lines

/-- A request of the loader that holds the whole envelope, as the daemon reads it. -/
structure Carries (r : Request) (e : Envelope) : Prop where
  name : ∃ time pid, r.file = emlfile time pid
  emlfilename : (recvMailInfoEx r.stdin).emlfilename = r.file
  fd1 : (recvMailInfoEx r.stdin).fd1 = e.encode

/-! ## The envelope arrives -/

section Arrival

variable (e : Envelope)

/-- A whole envelope is taken for invalid only when its last recipient is empty. -/
theorem valid_encode (h : ∀ hne : e.recips ≠ [], e.recips.getLast hne ≠ []) (stack : ℕ → UInt8) :
    valid stack e.encode = true := by
  have hrange : List.range 5 = [0, 1, 2, 3, 4] := rfl
  unfold valid
  rw [hrange, Envelope.encode, Envelope.encodeRecips]
  cases hs : e.sender with
  | cons x l =>
    have hx := (e.solid_sender x (by simp [hs])).1
    simp [Ne.symm hx]
  | nil =>
    cases hr : e.recips with
    | nil => simp
    | cons r rs =>
      cases r with
      | cons x l =>
        have hx := (e.solid_recips (x :: l) (by simp [hr]) x (by simp)).1
        simp [Ne.symm hx]
      | nil =>
        cases rs with
        | nil => exact absurd (by simp [hr]) (h (by simp [hr]))
        | cons r rs => simp

/-- The envelope comes in one piece that the buffer holds, its recipients survive a list with
commas, and no value of the environment is more than a line. -/
structure Uncut (d : Delivery e.encode) (c : Client) : Prop where
  one_piece : d.pieces.length ≤ 1
  length_le : e.encode.length ≤ 2048
  no_comma : ∀ r ∈ e.recips, 44 ∉ r
  last_ne : ∀ hne : e.recips ≠ [], e.recips.getLast hne ≠ []
  ip_line : 10 ∉ c.tcpremoteip
  info_line : 10 ∉ c.tcpremoteinfo

theorem isWhite_encode : ∀ b ∈ e.encode, isWhite b = false := by
  intro b hb
  simp only [Envelope.encode, Envelope.encodeRecips, List.cons_append, List.mem_cons,
    List.mem_append, List.mem_flatMap, List.not_mem_nil, or_false] at hb
  rcases hb with rfl | hb | rfl | ⟨r, hr, rfl | hb | rfl⟩ | rfl
  · rfl
  · exact (e.solid_sender b hb).2
  · rfl
  · rfl
  · exact (e.solid_recips r hr b hb).2
  · rfl
  · rfl

variable {e}

/-- What the mail object knows once it has received the request. -/
theorem known_start_iff (m : Mail) (r : Request) :
    e.Known ((m.receive recvMailInfoEx r).start r.outside).aka ↔
      (Store.write r.file r.message m.fs (recvMailInfoEx r.stdin).emlfilename).isSome ∧
        e.Known (readEnvelope (recvMailInfoEx r.stdin)) :=
  e.known_getMailBaseInfo_iff (a := initEngineInfo r.outside.tr (recvMailInfoEx r.stdin))
    (b := recvMailInfoEx r.stdin) rfl rfl rfl rfl r.outside.decode _

variable (d : Delivery e.encode) (c : Client) (time pid : ℕ) (stack : ℕ → UInt8)
  (message : Bytes) (o : Outside) (order : HashOrder) (m : Mail)

variable {d c time pid stack message o order} in
theorem eq_of_mem_submit {r : Request} (hr : r ∈ submit c time pid stack d message o order) :
    valid stack (grabEnvelopeHdrs d) = true ∧
      r = ⟨transfer c (emlfile time pid) (grabEnvelopeHdrs d), emlfile time pid, message, o,
        order⟩ := by
  unfold submit at hr
  split_ifs at hr with hvalid
  · exact ⟨hvalid, (Option.some.inj hr).symm⟩
  · cases hr

/-- What the loader has read of an envelope has no white space. -/
theorem isWhite_grabEnvelopeHdrs : ∀ b ∈ grabEnvelopeHdrs d, isWhite b = false :=
  fun b hb => isWhite_encode e b ((d.firstRead_prefix 2048).subset hb)

/-- An envelope that is read at once arrives whole. -/
theorem carries_of_submit {r : Request} (hr : r ∈ submit c time pid stack d message o order)
    (hip : 10 ∉ c.tcpremoteip) (hinfo : 10 ∉ c.tcpremoteinfo)
    (hwhole : grabEnvelopeHdrs d = e.encode) : Carries r e := by
  obtain ⟨-, rfl⟩ := eq_of_mem_submit hr
  obtain ⟨heml, hfd1⟩ := recvMailInfoEx_transfer c hip hinfo (isWhite_emlfile time pid)
    (isWhite_grabEnvelopeHdrs d)
  exact ⟨⟨time, pid, rfl⟩, heml, hfd1.trans hwhole⟩

/-- With a line end in a value of the environment the daemon reads no envelope. -/
theorem not_known_of_line_end (h : 10 ∈ c.tcpremoteip ∨ 10 ∈ c.tcpremoteinfo) (hdrs : Bytes) :
    ¬ e.Known (readEnvelope (recvMailInfoEx (transfer c (emlfile time pid) hdrs))) := by
  apply e.not_known_of_nul_free
  apply nul_not_mem_fd1 c (nul_not_mem_emlfile time pid)
  rw [count_preamble c (nl_not_mem (isWhite_emlfile time pid))]
  have hcount : 0 < c.tcpremoteip.count 10 ∨ 0 < c.tcpremoteinfo.count 10 :=
    h.imp List.count_pos_iff.2 List.count_pos_iff.2
  omega

/-- An envelope that is known has come through uncut. -/
theorem uncut_of_known {r : Request} (hr : r ∈ submit c time pid stack d message o order)
    (h : e.Known ((m.receive recvMailInfoEx r).start r.outside).aka) : Uncut e d c := by
  obtain ⟨hvalid, rfl⟩ := eq_of_mem_submit hr
  rw [known_start_iff] at h
  obtain ⟨-, hknown⟩ := h
  dsimp only at hknown
  have hip : 10 ∉ c.tcpremoteip := fun hm =>
    not_known_of_line_end c time pid (Or.inl hm) _ hknown
  have hinfo : 10 ∉ c.tcpremoteinfo := fun hm =>
    not_known_of_line_end c time pid (Or.inr hm) _ hknown
  obtain ⟨-, hfd1⟩ := recvMailInfoEx_transfer c hip hinfo (isWhite_emlfile time pid)
    (isWhite_grabEnvelopeHdrs d)
  have hwhole : grabEnvelopeHdrs d = e.encode := by
    by_contra hpiece
    have hne : grabEnvelopeHdrs d ≠ [] := by
      intro hnil
      simp [valid, hnil] at hvalid
    rw [← hfd1] at hne hpiece
    refine e.not_known_of_piece hne ?_ hpiece hknown
    rw [hfd1]
    exact d.firstRead_prefix 2048
  obtain ⟨hcomma, hlast⟩ := (e.known_iff_of_encode (hfd1.trans hwhole)).1 hknown
  obtain ⟨hone, hlen⟩ := (d.firstRead_eq_iff 2048).1 hwhole
  exact ⟨hone, hlen, hcomma, hlast, hip, hinfo⟩

/-- An uncut envelope is submitted and known. -/
theorem exists_known_of_uncut (h : Uncut e d c) :
    ∃ r ∈ submit c time pid stack d message o order,
      e.Known ((m.receive recvMailInfoEx r).start r.outside).aka := by
  have hwhole : grabEnvelopeHdrs d = e.encode :=
    (d.firstRead_eq_iff 2048).2 ⟨h.one_piece, h.length_le⟩
  have hvalid : valid stack (grabEnvelopeHdrs d) = true := by
    rw [hwhole]
    exact valid_encode e h.last_ne stack
  obtain ⟨r, hr⟩ : ∃ r, r ∈ submit c time pid stack d message o order := by
    unfold submit
    rw [if_pos hvalid]
    exact ⟨_, rfl⟩
  have hc := carries_of_submit d c time pid stack message o order hr h.ip_line h.info_line hwhole
  refine ⟨r, hr, (known_start_iff m r).2 ⟨?_, ?_⟩⟩
  · rw [hc.emlfilename, Store.write_self]
    rfl
  · exact (e.known_iff_of_encode hc.fd1).2 ⟨h.no_comma, h.last_ne⟩

/-- **No recipient is lost** exactly when the envelope is uncut: then the daemon knows the sender
and all recipients in their order, and would hand on the same envelope. -/
theorem known_iff_uncut :
    (∃ r ∈ submit c time pid stack d message o order,
        e.Known ((m.receive recvMailInfoEx r).start r.outside).aka) ↔ Uncut e d c := by
  constructor
  · rintro ⟨r, hr, hknown⟩
    exact uncut_of_known d c time pid stack message o order m hr hknown
  · exact exists_known_of_uncut d c time pid stack message o order m

end Arrival

/-- An envelope with two recipients. -/
def twoRecips : Envelope where
  sender := bytes "a@x.org"
  recips := [bytes "b@y.org", bytes "c@y.org"]
  solid_sender := by decide
  solid_recips := by decide

/-- The pipe delivers it in two pieces, the first of which ends after the first recipient. -/
def inTwoPieces : Delivery twoRecips.encode where
  pieces := [twoRecips.encode.take 18, twoRecips.encode.drop 18]
  flatten_eq := by decide
  ne_nil := by decide

/-- The second recipient is lost. -/
theorem not_known_inTwoPieces :
    ¬ ∃ r ∈ submit ⟨false, bytes "192.0.2.1", [], by decide, by decide⟩ 1 1 (fun _ => 0) inTwoPieces
        (bytes "hello") .plain ⟨Engine.all, .refl _⟩,
      twoRecips.Known (((Mail.inboundFilter ∅).receive recvMailInfoEx r).start r.outside).aka := by
  decide

end NoSpam.Loader
