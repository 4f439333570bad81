import NoSpam.Base.Capture
import NoSpam.Base.Scalar

/-!
# The packets of the centre

`AKA::Mail::GA::GAISC` talks to the centre in lines: five fields of fixed width, the data, and an
`E`.  `_send_pkg` writes such a line, `_recv_pkg` reads a reply and `_parse_GAISC` a command, whose
data ends with a comma.  Both readers look for the last end on the line, so the data is whatever
stands before it (`codec_lossless`).
-/

namespace NoSpam.GA

open Text Perl

/-- The fields of a packet. -/
structure Pkg where
  data_id : Bytes
  sys_id : Bytes
  gw_id : Bytes
  timestamp : Bytes
  data_cate : Bytes
  data : Bytes
  deriving DecidableEq

namespace Pkg

/-- The fields of fixed width, as they are sent. -/
def header (pkg : Pkg) : Bytes :=
  pkg.data_id ++ (pkg.sys_id ++ (pkg.gw_id ++ (pkg.timestamp ++ pkg.data_cate)))

/-- Fields of the widths of the protocol and data, none of them with a line end. -/
structure Framed (pkg : Pkg) : Prop where
  data_id : pkg.data_id.length = 5
  sys_id : pkg.sys_id.length = 10
  gw_id : pkg.gw_id.length = 10
  timestamp : pkg.timestamp.length = 14
  data_cate : pkg.data_cate.length = 10
  header_line : 10 ∉ pkg.header
  data_line : 10 ∉ pkg.data

end Pkg

/-- `DATA_SUCC`. -/
def dataSucc : Bytes := bytes "0000000001"

/-- `DATA_FAIL`. -/
def dataFail : Bytes := bytes "0000000002"

/-! ## Sending and receiving -/

/-- What `_send_pkg` prints. -/
def sendPkg (pkg : Pkg) : Bytes := pkg.header ++ (pkg.data ++ bytes "E\n")

/-- `/^(.{5})(.{10})(.{10})(.{14})(.{10})(.+)END/`. -/
def matchPkg (ending line : Bytes) : Option Pkg :=
  let line := line.takeWhile (· ≠ 10)
  (Pattern.longest [ending] (line.drop 49)).map fun data =>
    { data_id := line.take 5
      sys_id := (line.drop 5).take 10
      gw_id := (line.drop 15).take 10
      timestamp := (line.drop 25).take 14
      data_cate := (line.drop 39).take 10
      data }

/-- `_recv_pkg`, on what can be read from the socket. -/
def recvPkg (stream : Bytes) : Option Pkg := matchPkg (bytes "E") (readLine 10 stream).1

/-- `_parse_GAISC`. -/
def parseGAISC (line : Bytes) : Option Pkg := matchPkg (bytes ",E") line

/-- The command that `process_protocol` reads from the socket. -/
def readCommand (stream : Bytes) : Option Pkg := parseGAISC (chomp (readLine 10 stream).1)

/-! ## Reading back -/

section ReadBack

variable {pkg : Pkg}

/-- A header is cut where it was put together. -/
theorem take_drop_header (h : pkg.Framed) (r : Bytes) :
    (pkg.header ++ r).take 5 = pkg.data_id ∧ ((pkg.header ++ r).drop 5).take 10 = pkg.sys_id ∧
      ((pkg.header ++ r).drop 15).take 10 = pkg.gw_id ∧
      ((pkg.header ++ r).drop 25).take 14 = pkg.timestamp ∧
      ((pkg.header ++ r).drop 39).take 10 = pkg.data_cate ∧ (pkg.header ++ r).drop 49 = r := by
  have hcut : ∀ (a b : Bytes) (n k : ℕ), a.length = n → (a ++ b).drop (n + k) = b.drop k := by
    rintro a b n k rfl
    rw [List.drop_append, List.drop_of_length_le (Nat.le_add_right _ k), List.nil_append,
      Nat.add_sub_cancel_left]
  simp only [Pkg.header, List.append_assoc]
  refine ⟨List.take_left' h.data_id, ?_, ?_, ?_, ?_, ?_⟩
  · rw [hcut _ _ 5 0 h.data_id, List.drop_zero, List.take_left' h.sys_id]
  · rw [hcut _ _ 5 10 h.data_id, hcut _ _ 10 0 h.sys_id, List.drop_zero, List.take_left' h.gw_id]
  · rw [hcut _ _ 5 20 h.data_id, hcut _ _ 10 10 h.sys_id, hcut _ _ 10 0 h.gw_id, List.drop_zero,
      List.take_left' h.timestamp]
  · rw [hcut _ _ 5 34 h.data_id, hcut _ _ 10 24 h.sys_id, hcut _ _ 10 14 h.gw_id,
      hcut _ _ 14 0 h.timestamp, List.drop_zero, List.take_left' h.data_cate]
  · rw [hcut _ _ 5 44 h.data_id, hcut _ _ 10 34 h.sys_id, hcut _ _ 10 24 h.gw_id,
      hcut _ _ 14 10 h.timestamp, hcut _ _ 10 0 h.data_cate, List.drop_zero]

/-- What stands between a header and an end is the data, whatever it looks like. -/
theorem matchPkg_eq (h : pkg.Framed) {ending d : Bytes} (hd : d ≠ []) (hline : 10 ∉ d ++ ending)
    (r : Bytes) (hr : ∀ c ∈ r.head?, c = 10) :
    matchPkg ending (pkg.header ++ (d ++ (ending ++ r))) = some { pkg with data := d } := by
  have hcut : (pkg.header ++ (d ++ (ending ++ r))).takeWhile (· ≠ 10) =
      pkg.header ++ (d ++ ending) := by
    have hstop : ∀ c ∈ r.head?, decide (c ≠ 10) = false := fun c hc => by simp [hr c hc]
    rw [← List.append_assoc d, ← List.append_assoc, takeWhile_append_of_head hstop,
      List.takeWhile_eq_self_iff]
    intro c hc
    rw [decide_eq_true_eq]
    rintro rfl
    rcases List.mem_append.1 hc with hc | hc
    · exact h.header_line hc
    · exact hline hc
  obtain ⟨hid, hsys, hgw, htime, hcate, hrest⟩ := take_drop_header h (d ++ ending)
  simp only [matchPkg, hcut, hid, hsys, hgw, htime, hcate, hrest]
  rw [Pattern.longest_singleton_append hd]
  rfl

/-- A packet is a line. -/
theorem readLine_sendPkg (h : pkg.Framed) (rest : Bytes) :
    (readLine 10 (sendPkg pkg ++ rest)).1 = sendPkg pkg := by
  have hline : 10 ∉ pkg.header ++ (pkg.data ++ bytes "E") := by
    simp only [List.mem_append, not_or]
    exact ⟨h.header_line, h.data_line, by decide⟩
  have hend : sendPkg pkg = pkg.header ++ (pkg.data ++ bytes "E") ++ [10] := by
    rw [sendPkg, List.append_assoc, List.append_assoc]
    rfl
  rw [hend, List.append_assoc, List.singleton_append, readLine_append hline]

/-- **The codec is lossless**: `_recv_pkg` reads back what `_send_pkg` has written, and the reader
of commands reads it back without the comma at the end of its data. -/
theorem codec_lossless (h : pkg.Framed) (hdata : pkg.data ≠ []) (rest : Bytes) :
    recvPkg (sendPkg pkg ++ rest) = some pkg ∧
      ∀ d, d ≠ [] → pkg.data = d ++ bytes "," →
        parseGAISC (sendPkg pkg) = some { pkg with data := d } ∧
          readCommand (sendPkg pkg ++ rest) = some { pkg with data := d } := by
  refine ⟨?_, fun d hd hcomma => ?_⟩
  · rw [recvPkg, readLine_sendPkg h]
    have hline : 10 ∉ pkg.data ++ bytes "E" := by
      rw [List.mem_append, not_or]
      exact ⟨h.data_line, by decide⟩
    exact matchPkg_eq h hdata hline [10] fun c hc => (Option.mem_some_iff.1 hc).symm
  · have hline : 10 ∉ d ++ bytes ",E" := by
      have hdline := h.data_line
      rw [hcomma, List.mem_append, not_or] at hdline
      rw [List.mem_append, not_or]
      exact ⟨hdline.1, by decide⟩
    have hsend : sendPkg pkg = pkg.header ++ (d ++ (bytes ",E" ++ [10])) := by
      rw [sendPkg, hcomma, List.append_assoc d]
      rfl
    have hchomp : chomp (sendPkg pkg) = pkg.header ++ (d ++ (bytes ",E" ++ [])) := by
      have hlast : sendPkg pkg = pkg.header ++ (d ++ (bytes ",E" ++ [])) ++ [10] := by
        rw [hsend]
        simp only [List.append_assoc, List.nil_append]
      rw [hlast, chomp, List.getLast?_concat, if_pos rfl, List.dropLast_concat]
    constructor
    · rw [hsend]
      exact matchPkg_eq h hd hline [10] fun c hc => (Option.mem_some_iff.1 hc).symm
    · rw [readCommand, readLine_sendPkg h, hchomp]
      exact matchPkg_eq h hd hline [] fun c hc => by cases hc

end ReadBack

/-- A command of the centre. -/
def ping : Pkg where
  data_id := bytes "GAISC"
  sys_id := bytes "000000DZYJ"
  gw_id := bytes "0987654321"
  timestamp := bytes "20040417212923"
  data_cate := bytes "0000000095"
  data := bytes "DZYJ,21,test,test,"

theorem codec_lossless_ping :
    recvPkg (sendPkg ping ++ []) = some ping ∧
      ∀ d, d ≠ [] → ping.data = d ++ bytes "," →
        parseGAISC (sendPkg ping) = some { ping with data := d } ∧
          readCommand (sendPkg ping ++ []) = some { ping with data := d } :=
  codec_lossless ⟨rfl, rfl, rfl, rfl, rfl, by decide, by decide⟩ (by decide) []

end NoSpam.GA
