import NoSpam.Base.Stream
import NoSpam.Mail.Session

/-!
# The reply on its way back

The loader reads the three lines of a reply into buffers of 4, 256 and 4 bytes.  A line that does
not fit leaves the stream failed, so that every line after it is read as empty, and an empty exit
code is 0: the mail counts as accepted.
-/

namespace NoSpam.Loader

open Text Perl Buffered

/-- What the C string in a buffer holds. -/
def cString (buf : Bytes) : Bytes := buf.takeWhile (· ≠ 0)

/-- The text shown to the client. -/
def resultText (code info : Bytes) : Bytes :=
  if code ≠ [] || info ≠ [] then code ++ 32 :: info else []

/-- The reading half of the loader's `net_process`: the result text and the exit code. -/
def readReply (input : Bytes) : Bytes × ℤ :=
  let l1 := IStream.getline 10 4 ⟨input, true⟩
  let l2 := IStream.getline 10 256 l1.2
  let l3 := IStream.getline 10 4 l2.2
  (resultText (cString l1.1) (cString l2.1), atoi (cString l3.1))

section CString

variable {buf : Bytes}

theorem cString_of_not_mem (h : 0 ∉ buf) : cString buf = buf := by
  apply List.takeWhile_eq_self_iff.2
  intro c hc
  simp only [decide_eq_true_eq]
  rintro rfl
  exact h hc

theorem mem_of_mem_cString {c : UInt8} (h : c ∈ cString buf) : c ∈ buf ∧ c ≠ 0 :=
  ⟨(List.takeWhile_prefix _).subset h, by simpa using List.mem_takeWhile_imp h⟩

theorem length_cString_le (buf : Bytes) : (cString buf).length ≤ buf.length :=
  (List.takeWhile_prefix _).length_le

end CString

theorem mem_resultText {c : UInt8} (hc : c ≠ 32) (code info : Bytes) :
    c ∈ resultText code info ↔ c ∈ code ∨ c ∈ info := by
  unfold resultText
  split_ifs with h
  · simp [hc]
  · simp_all

theorem resultText_inj_right {code info info' : Bytes}
    (h : resultText code info = resultText code info') : info = info' := by
  unfold resultText at h
  by_cases hc : code = []
  · by_cases hi : info = [] <;> by_cases hi' : info' = [] <;> simp_all
  · simpa [hc] using h

/-! ## Replies -/

/-- A reply with a code of at most three characters and an integer exit code. -/
structure Reply where
  smtpCode : Bytes
  smtpInfo : Bytes
  exitCode : ℤ
  length_le : smtpCode.length ≤ 3

namespace Reply

variable (r : Reply)

/-- The reply as `process` leaves it. -/
def resp : Resp := ⟨r.smtpCode, r.smtpInfo, showInt r.exitCode⟩

/-- What the loader makes of the reply that the daemon prints. -/
def received : Bytes × ℤ := readReply (sendMailInfoEx r.resp).flatten

/-- The reply arrives as it was sent. -/
def Unchanged : Prop := r.received = (resultText r.smtpCode r.smtpInfo, r.exitCode)

/-- A text that is one line and one C string, and that Perl does not take for false. -/
def Plain (b : Bytes) : Prop := 10 ∉ b ∧ 0 ∉ b ∧ b ≠ [48]

instance (b : Bytes) : Decidable (Plain b) := inferInstanceAs (Decidable (_ ∧ _))

/-- Every line of the reply fits its buffer. -/
structure Fits : Prop where
  code : Plain r.smtpCode
  info : Plain r.smtpInfo
  length_info : r.smtpInfo.length ≤ 255
  exit_low : -100 < r.exitCode
  exit_high : r.exitCode < 1000

theorem orElse_of_plain {b : Bytes} (h : Plain b) : orElse b [] = b := orElse_nil_eq_iff.2 h.2.2

theorem orElse_showInt (z : ℤ) : orElse (showInt z) (bytes "0") = showInt z := by
  unfold orElse
  split_ifs with h
  · rfl
  · rcases isTrue_eq_false_iff.1 (by simpa using h) with h0 | h0
    · have hz := atoi_showInt z
      rw [h0] at hz
      rw [← hz]
      decide
    · rw [h0]
      decide

theorem flatten_sendMailInfoEx :
    (sendMailInfoEx r.resp).flatten =
      orElse r.smtpCode [] ++
        10 :: (orElse r.smtpInfo [] ++ 10 :: (showInt r.exitCode ++ 10 :: [])) := by
  simp [sendMailInfoEx, replyLines, resp, orElse_showInt]

/-- A reply that fits its buffers is read as it was sent. -/
theorem unchanged_of_fits (h : r.Fits) : r.Unchanged := by
  have hcode := r.length_le
  have hinfo := h.length_info
  have hexit : (showInt r.exitCode).length ≤ 3 := by
    apply (length_showInt_le_iff r.exitCode 1).2
    have hlow := h.exit_low
    have hhigh := h.exit_high
    omega
  have hnl : 10 ∉ showInt r.exitCode := not_mem_showInt (by decide) (by decide) _
  have hnul : 0 ∉ showInt r.exitCode := not_mem_showInt (by decide) (by decide) _
  unfold Unchanged received readReply
  rw [flatten_sendMailInfoEx, orElse_of_plain h.code, orElse_of_plain h.info,
    getline_of_fits h.code.1 (by omega)]
  dsimp only
  rw [getline_of_fits h.info.1 (by omega)]
  dsimp only
  rw [getline_of_fits hnl (by omega), cString_of_not_mem h.code.2.1, cString_of_not_mem h.info.2.1,
    cString_of_not_mem hnul, atoi_showInt]

/-- No symbol of a reply that arrives unchanged is a line end or a NUL. -/
theorem not_mem_of_unchanged (h : r.Unchanged) {c : UInt8} (hc : c = 10 ∨ c = 0) :
    c ∉ r.smtpCode ∧ c ∉ r.smtpInfo := by
  have h32 : c ≠ 32 := by rcases hc with rfl | rfl <;> decide
  have hread : c ∉ r.received.1 := by
    unfold received readReply
    dsimp only
    rw [mem_resultText h32]
    rintro (hm | hm)
    all_goals
      obtain ⟨hm, hne⟩ := mem_of_mem_cString hm
      rcases hc with rfl | rfl
      · exact nl_not_mem_getline _ _ _ hm
      · exact hne rfl
  rw [h, mem_resultText h32, not_or] at hread
  exact hread

/-- The stream after the code, when that is a line. -/
def afterCode : IStream UInt8 := ⟨orElse r.smtpInfo [] ++ 10 :: (showInt r.exitCode ++ [10]), true⟩

theorem received_of_line (h : 10 ∉ r.smtpCode) :
    r.received =
      let l2 := IStream.getline 10 256 r.afterCode
      (resultText (cString (orElse r.smtpCode [])) (cString l2.1),
        atoi (cString (IStream.getline 10 4 l2.2).1)) := by
  have hsub := orElse_nil_sublist r.smtpCode
  have hlen := hsub.length_le.trans r.length_le
  unfold received readReply
  rw [flatten_sendMailInfoEx, getline_of_fits (fun hm => h (hsub.subset hm)) (by omega)]
  rfl

theorem plain_code_of_unchanged (h : r.Unchanged) : Plain r.smtpCode := by
  obtain ⟨hnl, -⟩ := not_mem_of_unchanged r h (Or.inl rfl)
  obtain ⟨hnul, -⟩ := not_mem_of_unchanged r h (Or.inr rfl)
  refine ⟨hnl, hnul, fun hzero => ?_⟩
  have hread := congrArg (fun x => x.1.head?) (h.symm.trans (r.received_of_line hnl))
  have hempty : cString (orElse [48] []) = [] := by decide
  simp only [hzero, hempty] at hread
  unfold resultText at hread
  split_ifs at hread <;> simp_all

/-- With a plain code, the second line has to arrive as it is. -/
theorem info_of_unchanged (h : r.Unchanged) :
    cString (IStream.getline 10 256 r.afterCode).1 = r.smtpInfo := by
  have hcode := plain_code_of_unchanged r h
  have hread := congrArg Prod.fst (h.symm.trans (r.received_of_line hcode.1))
  dsimp only at hread
  rw [orElse_of_plain hcode, cString_of_not_mem hcode.2.1] at hread
  exact (resultText_inj_right hread).symm

/-- A text that does not fit its buffer turns every exit code into 0. -/
theorem exitCode_received_of_too_long (hcode : 10 ∉ r.smtpCode) (hinfo : 10 ∉ r.smtpInfo)
    (hlong : 256 ≤ r.smtpInfo.length) : r.received.2 = 0 := by
  have hplain : orElse r.smtpInfo [] = r.smtpInfo := by
    apply orElse_nil_eq_iff.2
    intro hzero
    rw [hzero] at hlong
    exact absurd hlong (by decide)
  obtain ⟨-, hfailed⟩ := getline_of_too_long hinfo hlong (by decide) (showInt r.exitCode ++ [10])
  rw [r.received_of_line hcode, afterCode, hplain]
  dsimp only
  rw [getline_of_failed hfailed]
  rfl

/-- **The reply arrives unchanged** exactly when code and text are plain lines, the text has at most
255 bytes, and the exit code has at most three characters. -/
theorem unchanged_iff_fits : r.Unchanged ↔ r.Fits := by
  refine ⟨fun h => ?_, r.unchanged_of_fits⟩
  have hcode := plain_code_of_unchanged r h
  obtain ⟨-, hnl⟩ := not_mem_of_unchanged r h (Or.inl rfl)
  obtain ⟨-, hnul⟩ := not_mem_of_unchanged r h (Or.inr rfl)
  have hinfo := info_of_unchanged r h
  have hlength : r.smtpInfo.length ≤ 255 := by
    rw [← hinfo]
    exact (length_cString_le _).trans (length_getline_le 10 256 r.afterCode)
  have hzero : r.smtpInfo ≠ [48] := by
    intro hzero
    rw [afterCode, hzero] at hinfo
    have hempty : orElse [48] [] = ([] : Bytes) := by decide
    rw [hempty, getline_of_fits List.not_mem_nil (by decide)] at hinfo
    have hnil : cString ([] : Bytes) ≠ [48] := by decide
    exact hnil hinfo
  have hexit := congrArg Prod.snd (h.symm.trans (r.received_of_line hcode.1))
  dsimp only at hexit
  have hbounds := atoi_bounds (k := 1)
    ((length_cString_le _).trans (length_getline_le 10 4 (IStream.getline 10 256 r.afterCode).2))
  rw [← hexit] at hbounds
  exact ⟨hcode, ⟨hnl, hnul, hzero⟩, hlength, by simpa using hbounds.1, by simpa using hbounds.2⟩

end Reply

/-- The parameter of a rule that rejects with a text of 256 bytes. -/
def longText : Bytes := List.replicate 256 120

/-- A mail rejected with a long text, and the loader reads exit code 0. -/
theorem not_unchanged_longText :
    ((Mail.inboundFilter (Mail.pills Conf.actionReject longText)).netProcessEx
        (Mail.inboundMail (bytes "pills"))).aka.resp =
        Reply.resp ⟨bytes "553", longText, 150, by decide⟩ ∧
      ¬ Reply.Unchanged ⟨bytes "553", longText, 150, by decide⟩ ∧
      (Reply.received ⟨bytes "553", longText, 150, by decide⟩).2 = 0 := by
  have hline : 10 ∉ longText := fun h => absurd (List.eq_of_mem_replicate h) (by decide)
  have hlong : 256 ≤ longText.length := by rw [longText, List.length_replicate]
  have hexit : (Reply.received ⟨bytes "553", longText, 150, by decide⟩).2 = 0 :=
    Reply.exitCode_received_of_too_long _ (by decide) hline hlong
  refine ⟨by decide +kernel, fun h => ?_, hexit⟩
  have h150 := (congrArg Prod.snd h).symm.trans hexit
  exact absurd h150 (by decide)

end NoSpam.Loader
