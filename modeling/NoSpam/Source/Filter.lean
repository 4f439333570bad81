import NoSpam.Source.Encrypt

/-!
# The source filter

`Loader.xs` decrypts a script while Perl reads it.  The filter reads blocks of whole periods of the
keystream into a buffer, decrypts them and answers requests for lines and for blocks from it.
`FILTER_READ` delivers the bytes it is asked for, or what there is before the end of the file; the
buffers grow as they must, and no other filter is on top.
-/

namespace NoSpam.Source

open Text

def BLOCKNUM : ℕ := 512

def HEADERSIZE : ℕ := 2

/-- The data of the filter, and what the next filter has still to deliver. -/
structure Filter where
  firstTime : Bool := true
  decrypted : Bytes := []
  offset : ℕ := 0
  len : ℕ := 0
  deleted : Bool := false
  rest : Bytes

/-! ## Reading blocks -/

/-- `FILTER_READ`, for a line if `maxlen` is zero: the bytes, and what is left. -/
def filterRead (rest : Bytes) (maxlen : ℕ) : Bytes × Bytes :=
  if maxlen = 0 then readLine 10 rest else (rest.take maxlen, rest.drop maxlen)

theorem filterRead_append (rest : Bytes) (maxlen : ℕ) :
    (filterRead rest maxlen).1 ++ (filterRead rest maxlen).2 = rest := by
  rw [filterRead]
  split_ifs
  · exact readLine_fst_append_snd 10 rest
  · exact List.take_append_drop maxlen rest

/-- The loop of `ReadBlock`: `i` bytes of `size` are missing. -/
def readBlockLoop (size i : ℕ) (sv rest : Bytes) : ℕ × Bytes × Bytes :=
  let read := filterRead rest i
  if read.1.length = 0 then (if i = size then 0 else size - i, sv, read.2)
  else if read.1.length = i then (size, sv ++ read.1, read.2)
  else readBlockLoop size (i - read.1.length) (sv ++ read.1) read.2
termination_by rest.length
decreasing_by
  rename_i hread _
  have hsplit := congrArg List.length (filterRead_append rest i)
  rw [List.length_append] at hsplit
  change ¬(filterRead rest i).1.length = 0 at hread
  change (filterRead rest i).2.length < rest.length
  omega

/-- `ReadBlock`: the number of bytes, the bytes, and what is left. -/
def readBlock (size : ℕ) (rest : Bytes) : ℕ × Bytes × Bytes := readBlockLoop size size [] rest

theorem readBlock_eq {size : ℕ} (h : 0 < size) (rest : Bytes) :
    readBlock size rest = (min size rest.length, rest.take size, rest.drop size) := by
  have hread : ∀ (i : ℕ) (rest : Bytes), i ≠ 0 →
      filterRead rest i = (rest.take i, rest.drop i) := fun i rest hi => if_neg hi
  rw [readBlock, readBlockLoop, hread size rest h.ne']
  simp only [List.length_take]
  rcases Nat.lt_or_ge rest.length size with hlt | hge
  · rw [Nat.min_eq_right hlt.le, List.take_of_length_le hlt.le, List.drop_eq_nil_of_le hlt.le]
    by_cases hnil : rest.length = 0
    · rw [if_pos hnil, if_pos trivial, hnil, List.length_eq_zero_iff.1 hnil]
    · rw [if_neg hnil, if_neg hlt.ne, readBlockLoop, hread _ _ (by omega), if_pos (by simp),
        if_neg (by omega), List.nil_append, List.drop_nil]
      congr 1
      omega
  · rw [Nat.min_eq_left hge, if_neg h.ne', if_pos rfl, List.nil_append]

/-- `Decrypt`. -/
def decryptBlock (in_buffer : Bytes) : Bytes :=
  in_buffer.mapIdx fun i c => XOR.getD (i % BLOCKSIZE) 0 ^^^ c

/-- `preDecrypt`: what follows the fingerprint, if it is one. -/
def preDecrypt (rest : Bytes) : Option Bytes :=
  let (n, buffer, rest) := readBlock HEADERSIZE rest
  if n ≠ HEADERSIZE then none
  else if buffer.getD 0 0 ≠ 0xfe ∨ buffer.getD 1 0 ≠ 0x01 then none
  else some rest

/-! ## Answering requests -/

/-- The return value of a call, `buf_sv` and the filter after it. -/
structure Reply where
  ret : ℕ
  buf : Bytes
  filter : Filter

/-- What is left from last time. -/
def Filter.left (f : Filter) : Bytes := (f.decrypted.drop f.offset).take f.len

/-- The first part of the loop: a reply from what is left, or `buf_sv` with all of it. -/
def Filter.answer (f : Filter) (buf : Bytes) (maxlen : ℕ) : Reply ⊕ Bytes :=
  if f.len = 0 then .inr buf
  else if maxlen ≠ 0 then
    let buf := buf ++ f.left.take (if f.len < maxlen then f.len else maxlen)
    let f :=
      if f.len ≤ maxlen then { f with offset := 0, len := 0 }
      else { f with offset := f.offset + maxlen, len := f.len - maxlen }
    .inl ⟨buf.length, buf, f⟩
  else if 10 ∈ f.left then
    let line := (readLine 10 f.left).1
    .inl ⟨(buf ++ line).length, buf ++ line,
      { f with offset := f.offset + line.length, len := f.len - line.length }⟩
  else .inr (buf ++ f.left)

/-- The loop of `Loader_decrypt`. -/
def Filter.serve (f : Filter) (buf : Bytes) (maxlen : ℕ) : Reply :=
  match f.answer buf maxlen with
  | .inl reply => reply
  | .inr buf =>
      let block := readBlock (BLOCKSIZE * BLOCKNUM) f.rest
      if block.1 = 0 then
        ⟨buf.length, buf, { f with offset := 0, len := 0, deleted := true, rest := block.2.2 }⟩
      else
        Filter.serve
          { f with
            decrypted := decryptBlock block.2.1
            offset := 0
            len := block.2.1.length
            rest := block.2.2 } buf maxlen
termination_by f.rest.length
decreasing_by
  rename_i hn
  change ¬(readBlock (BLOCKSIZE * BLOCKNUM) f.rest).1 = 0 at hn
  rw [readBlock_eq (by decide)] at hn ⊢
  simp only [List.length_drop, BLOCKSIZE, BLOCKNUM] at hn ⊢
  omega

/-- `Loader_decrypt`; a filter that is deleted is passed over. -/
def loaderDecrypt (f : Filter) (buf : Bytes) (maxlen : ℕ) : Option Reply :=
  if f.deleted then
    let read := filterRead f.rest maxlen
    some ⟨if read.1 = [] then 0 else (buf ++ read.1).length, buf ++ read.1,
      { f with rest := read.2 }⟩
  else if f.firstTime then
    match preDecrypt f.rest with
    | none => none
    | some rest =>
        some (Filter.serve { f with firstTime := false, offset := 0, len := 0, rest := rest } buf
          maxlen)
  else some (f.serve buf maxlen)

/-- Requests one after the other, each with its maximal length and what `buf_sv` holds before. -/
def replies : Filter → List (ℕ × Bytes) → Option (List Reply)
  | _, [] => some []
  | f, r :: rs => do
      let reply ← loaderDecrypt f r.2 r.1
      let rest ← replies reply.filter rs
      return reply :: rest

/-! ## What the filter has still to deliver -/

/-- The plain text that the filter has still to deliver. -/
def Filter.pending (f : Filter) : Bytes := f.left ++ xorFrom keyAt 0 f.rest

/-- A filter at work: what is left lies in the buffer, and a deleted filter has nothing left. -/
structure Filter.Working (f : Filter) : Prop where
  started : f.firstTime = false
  bound : f.offset + f.len ≤ f.decrypted.length
  deleted : f.deleted = true → f.len = 0 ∧ f.rest = []

/-- What a reply to a request for `maxlen` bytes, or for a line, has to be when `text` is still to
be delivered: `piece` comes, and nothing only at the end. -/
structure Serves (text buf : Bytes) (maxlen : ℕ) (piece : Bytes) (r : Reply) : Prop where
  pending : text = piece ++ r.filter.pending
  working : r.filter.Working
  buf_eq : r.buf = buf ++ piece
  ret_eq : text ≠ [] ∨ buf = [] → r.ret = r.buf.length
  ne_nil : text ≠ [] → piece ≠ []
  line : maxlen = 0 → piece = (readLine 10 text).1
  block : 0 < maxlen → piece.length ≤ maxlen

theorem decryptBlock_eq (b : Bytes) : decryptBlock b = xorFrom keyAt 0 b := by
  rw [decryptBlock, xorFrom_eq_mapIdx]
  simp only [Nat.zero_add]
  rfl

section Working

variable {f : Filter} {buf : Bytes} {maxlen : ℕ}

theorem Filter.Working.length_left (h : f.Working) : f.left.length = f.len := by
  rw [Filter.left, List.length_take, List.length_drop]
  have := h.bound
  omega

/-- What is left after the first `n` bytes. -/
theorem left_advance (f : Filter) (n : ℕ) :
    Filter.left { f with offset := f.offset + n, len := f.len - n } = f.left.drop n := by
  rw [Filter.left, Filter.left, List.drop_take, List.drop_drop]

theorem Filter.Working.advance (h : f.Working) {n : ℕ} (hn : n ≤ f.len) (hd : f.len ≠ 0) :
    Filter.Working { f with offset := f.offset + n, len := f.len - n } where
  started := h.started
  bound := by
    have := h.bound
    simp only
    omega
  deleted hdel := absurd (h.deleted hdel).1 hd

/-- A reply with the first `n` bytes of what is left. -/
theorem serves_take {f' : Filter} {n : ℕ} (h : f.Working) (hf' : f'.Working) (hpos : 0 < n)
    (hn : n ≤ f.len) (hleft : f'.left = f.left.drop n) (hrest : f'.rest = f.rest)
    (hline : maxlen = 0 → f.left.take n = (readLine 10 f.pending).1)
    (hblock : 0 < maxlen → n ≤ maxlen) :
    Serves f.pending buf maxlen (f.left.take n)
      ⟨(buf ++ f.left.take n).length, buf ++ f.left.take n, f'⟩ where
  pending := by
    rw [Filter.pending, Filter.pending, hleft, hrest, ← List.append_assoc,
      List.take_append_drop]
  working := hf'
  buf_eq := rfl
  ret_eq _ := rfl
  ne_nil _ hnil := by
    have hlen := congrArg List.length hnil
    rw [List.length_take, h.length_left, Nat.min_eq_left hn, List.length_nil] at hlen
    omega
  line := hline
  block hmax := (List.length_take_le _ _).trans (hblock hmax)

theorem Filter.Working.emptied (h : f.Working) (hd : f.len ≠ 0) :
    Filter.Working { f with offset := 0, len := 0 } :=
  ⟨h.started, Nat.zero_le _, fun hdel => absurd (h.deleted hdel).1 hd⟩

/-- A reply from what is left. -/
theorem serves_of_answer {r : Reply} (h : f.Working) (ha : f.answer buf maxlen = .inl r) :
    ∃ piece, Serves f.pending buf maxlen piece r := by
  have hlen := h.length_left
  rw [Filter.answer] at ha
  have hall : Filter.left { f with offset := 0, len := 0 } = f.left.drop f.len := by
    rw [← hlen, List.drop_length]
    exact List.take_zero
  split_ifs at ha with hd hmax hlt hle hle hmem
  · rw [← Sum.inl.inj ha]
    exact ⟨_, serves_take h (h.emptied hd) (Nat.pos_of_ne_zero hd) le_rfl hall rfl
      (fun h0 => absurd h0 hmax) fun _ => hle⟩
  · exact absurd hlt.le hle
  · obtain rfl : f.len = maxlen := by omega
    rw [← Sum.inl.inj ha]
    exact ⟨_, serves_take h (h.emptied hd) (Nat.pos_of_ne_zero hd) le_rfl hall rfl
      (fun h0 => absurd h0 hmax) fun _ => hle⟩
  · rw [← Sum.inl.inj ha]
    have hn : maxlen ≤ f.len := by omega
    exact ⟨_, serves_take h (h.advance hn hd) (Nat.pos_of_ne_zero hmax) hn (left_advance f maxlen)
      rfl (fun h0 => absurd h0 hmax) fun _ => le_rfl⟩
  · rw [← Sum.inl.inj ha]
    have hsplit := readLine_fst_append_snd 10 f.left
    have htake : f.left.take (readLine 10 f.left).1.length = (readLine 10 f.left).1 :=
      (List.prefix_iff_eq_take.1 ⟨_, hsplit⟩).symm
    have hn : (readLine 10 f.left).1.length ≤ f.len := by
      have hle := congrArg List.length hsplit
      rw [List.length_append, hlen] at hle
      omega
    have hpos : 0 < (readLine 10 f.left).1.length := by
      obtain ⟨line, _, hline⟩ := exists_line_of_mem hmem
      simp [hline]
    have hserves : Serves f.pending buf maxlen _ _ :=
      serves_take h (h.advance hn hd) hpos hn (left_advance f _) rfl
        (fun _ => by rw [htake, Filter.pending, readLine_append_of_mem hmem])
        fun h0 => absurd (not_not.1 hmax) h0.ne'
    rw [htake] at hserves
    exact ⟨_, hserves⟩

theorem eq_of_answer {buf' : Bytes} (h : f.Working) (ha : f.answer buf maxlen = .inr buf') :
    buf' = buf ++ f.left ∧ (f.left = [] ∨ maxlen = 0 ∧ 10 ∉ f.left) := by
  have hlen := h.length_left
  rw [Filter.answer] at ha
  split_ifs at ha with hn hmax hmem
  · have hleft : f.left = [] := List.length_eq_zero_iff.1 (hlen.trans hn)
    rw [hleft, List.append_nil]
    exact ⟨(Sum.inr.inj ha).symm, Or.inl rfl⟩
  · exact ⟨(Sum.inr.inj ha).symm, Or.inr ⟨not_not.1 hmax, hmem⟩⟩

/-- At the end of the file there is only what was left. -/
theorem serves_end (h : f.Working) (hrest : f.rest = []) (hleft : f.left = [] ∨ maxlen = 0 ∧
    10 ∉ f.left) (dropped : Bytes) (hdropped : dropped = []) :
    Serves f.pending buf maxlen f.left
      ⟨(buf ++ f.left).length, buf ++ f.left,
        { f with offset := 0, len := 0, deleted := true, rest := dropped }⟩ := by
  have hpending : f.pending = f.left := by
    rw [Filter.pending, hrest]
    exact List.append_nil _
  rw [hpending, hdropped]
  refine ⟨?_, ⟨h.started, Nat.zero_le _, fun _ => ⟨rfl, rfl⟩⟩, rfl, fun _ => rfl, id, ?_, ?_⟩
  · exact (List.append_nil _).symm
  · intro h0
    rcases hleft with hnil | ⟨-, hmem⟩
    · rw [hnil]
      rfl
    · rw [readLine_of_not_mem hmem]
  · intro hpos
    rcases hleft with hnil | ⟨h0, -⟩
    · rw [hnil]
      exact Nat.zero_le _
    · omega

/-- What was left comes first. -/
theorem Serves.prepend {l text piece : Bytes} {r : Reply} (hl : l = [] ∨ maxlen = 0 ∧ 10 ∉ l)
    (htext : text ≠ []) (h : Serves text (buf ++ l) maxlen piece r) :
    Serves (l ++ text) buf maxlen (l ++ piece) r where
  pending := by rw [List.append_assoc, ← h.pending]
  working := h.working
  buf_eq := by rw [h.buf_eq, List.append_assoc]
  ret_eq _ := h.ret_eq (Or.inl htext)
  ne_nil _ hnil := h.ne_nil htext (List.append_eq_nil_iff.1 hnil).2
  line h0 := by
    rw [h.line h0]
    rcases hl with rfl | ⟨-, hmem⟩
    · rfl
    · rw [readLine_append_of_not_mem hmem]
  block hpos := by
    rcases hl with rfl | ⟨h0, -⟩
    · exact h.block hpos
    · omega

theorem serves_serve (h : f.Working) :
    ∃ piece, Serves f.pending buf maxlen piece (f.serve buf maxlen) := by
  induction f, buf using Filter.serve.induct maxlen with
  | case1 f buf r ha =>
    rw [Filter.serve, ha]
    exact serves_of_answer h ha
  | case2 f buf buf' ha block hn =>
    obtain ⟨rfl, hleft⟩ := eq_of_answer h ha
    have hblock : block = _ := readBlock_eq (by decide) f.rest
    have hrest : f.rest = [] := by
      rw [hblock] at hn
      simp only [BLOCKSIZE, BLOCKNUM] at hn
      exact List.length_eq_zero_iff.1 (by omega)
    have hdropped : block.2.2 = [] := by
      rw [hblock, hrest]
      rfl
    rw [Filter.serve, ha]
    simp only [block] at hn hdropped
    simp only [if_pos hn]
    exact ⟨f.left, serves_end h hrest hleft _ hdropped⟩
  | case3 f buf buf' ha block hn ih =>
    obtain ⟨rfl, hleft⟩ := eq_of_answer h ha
    have hblock : block = _ := readBlock_eq (by decide) f.rest
    have hne : f.rest ≠ [] := by
      rintro hnil
      rw [hblock, hnil] at hn
      exact hn rfl
    have hdel : f.deleted = true → False := fun hd => hne (h.deleted hd).2
    obtain ⟨piece, hpiece⟩ := ih ⟨h.started, (Nat.zero_add _).trans_le (by
      rw [decryptBlock_eq, length_xorFrom]), fun hd => (hdel hd).elim⟩
    rw [Filter.serve, ha]
    simp only [block] at hn
    simp only [if_neg hn]
    have hpending : xorFrom keyAt 0 f.rest =
        Filter.pending
          { f with
            decrypted := decryptBlock block.2.1
            offset := 0
            len := block.2.1.length
            rest := block.2.2 } := by
      have hkey := xorFrom_block keyAt_add BLOCKNUM f.rest
      rw [Nat.mul_comm BLOCKNUM] at hkey
      rw [Filter.pending, Filter.left, List.drop_zero, decryptBlock_eq,
        List.take_of_length_le (length_xorFrom _ _ _).le, hblock]
      exact hkey
    have htext : xorFrom keyAt 0 f.rest ≠ [] := by
      rw [← List.length_pos_iff, length_xorFrom]
      exact List.length_pos_of_ne_nil hne
    rw [Filter.pending]
    rw [← hpending] at hpiece
    exact ⟨f.left ++ piece, hpiece.prepend hleft htext⟩

theorem loaderDecrypt_working (h : f.Working) (buf : Bytes) (maxlen : ℕ) :
    ∃ r piece, loaderDecrypt f buf maxlen = some r ∧ Serves f.pending buf maxlen piece r := by
  rw [loaderDecrypt]
  by_cases hd : f.deleted = true
  · obtain ⟨hlen, hrest⟩ := h.deleted hd
    have hread : filterRead f.rest maxlen = ([], []) := by
      rw [hrest, filterRead]
      split_ifs
      · rfl
      · rw [List.take_nil, List.drop_nil]
    have hleft : f.left = [] := List.length_eq_zero_iff.1 (h.length_left.trans hlen)
    have hpending : f.pending = [] := by
      rw [Filter.pending, hleft, hrest]
      rfl
    simp only [hd, if_true, hread]
    rw [hpending]
    refine ⟨_, [], rfl, ?_, ⟨h.started, h.bound, fun _ => ⟨hlen, rfl⟩⟩, rfl, ?_, absurd rfl,
      fun _ => rfl, fun _ => Nat.zero_le _⟩
    · exact (congrArg (· ++ []) hleft).symm
    · rintro (hne | rfl)
      · exact absurd rfl hne
      · rfl
  · rw [if_neg hd, h.started, if_neg (by decide)]
    obtain ⟨piece, hpiece⟩ : ∃ piece, Serves f.pending buf maxlen piece (f.serve buf maxlen) :=
      serves_serve h
    exact ⟨_, piece, rfl, hpiece⟩

theorem preDecrypt_fingerprint (rest : Bytes) : preDecrypt (Fingerprint ++ rest) = some rest := by
  have hlen : HEADERSIZE = Fingerprint.length := rfl
  rw [preDecrypt, readBlock_eq (by decide), hlen, List.take_left, List.drop_left]
  simp [Fingerprint]

/-- The first request. -/
theorem loaderDecrypt_first (text buf : Bytes) (maxlen : ℕ) :
    ∃ r piece, loaderDecrypt { rest := Fingerprint ++ xorFrom keyAt 0 text } buf maxlen = some r ∧
      Serves text buf maxlen piece r := by
  obtain ⟨piece, hpiece⟩ := @serves_serve
    { firstTime := false, rest := xorFrom keyAt 0 text } buf maxlen
    ⟨rfl, le_rfl, fun hd => absurd hd Bool.false_ne_true⟩
  have hpending : Filter.pending { firstTime := false, rest := xorFrom keyAt 0 text } = text :=
    xorFrom_xorFrom keyAt 0 text
  rw [hpending] at hpiece
  refine ⟨_, piece, ?_, hpiece⟩
  rw [loaderDecrypt]
  simp only [Bool.false_eq_true, if_false, if_true, preDecrypt_fingerprint]

end Working

/-! ## Any requests -/

/-- The replies bring the text: every piece is what is asked for, a line or not more than so many
bytes, and only at the end nothing comes. -/
def Delivers : Bytes → List (ℕ × Bytes) → List Reply → Prop
  | _, [], [] => True
  | text, (maxlen, buf) :: requests, r :: rs =>
      ∃ piece rest, text = piece ++ rest ∧ r.buf = buf ++ piece ∧
        (text ≠ [] ∨ buf = [] → r.ret = r.buf.length) ∧ (text ≠ [] → piece ≠ []) ∧
        (maxlen = 0 → piece = (readLine 10 text).1) ∧ (0 < maxlen → piece.length ≤ maxlen) ∧
        Delivers rest requests rs
  | _, _, _ => False

/-- What the replies have appended. -/
def pieces (requests : List (ℕ × Bytes)) (rs : List Reply) : List Bytes :=
  List.zipWith (fun request r => r.buf.drop request.2.length) requests rs

theorem Serves.delivers {text buf piece : Bytes} {maxlen : ℕ} {r : Reply}
    (h : Serves text buf maxlen piece r) {requests : List (ℕ × Bytes)} {rs : List Reply}
    (hrs : Delivers r.filter.pending requests rs) :
    Delivers text ((maxlen, buf) :: requests) (r :: rs) :=
  ⟨piece, _, h.pending, h.buf_eq, h.ret_eq, h.ne_nil, h.line, h.block, hrs⟩

theorem replies_working {f : Filter} (h : f.Working) (requests : List (ℕ × Bytes)) :
    ∃ rs, replies f requests = some rs ∧ Delivers f.pending requests rs := by
  induction requests generalizing f with
  | nil => exact ⟨[], rfl, trivial⟩
  | cons request requests ih =>
    obtain ⟨r, piece, hr, hpiece⟩ := loaderDecrypt_working h request.2 request.1
    obtain ⟨rs, hrs, hdelivers⟩ := ih hpiece.working
    refine ⟨r :: rs, ?_, hpiece.delivers hdelivers⟩
    rw [replies, hr, Option.bind_eq_bind, Option.bind_some, hrs]
    rfl

/-- **Any requests.**  The filter brings the plain text of what it reads. -/
theorem replies_first (text : Bytes) (requests : List (ℕ × Bytes)) :
    ∃ rs, replies { rest := Fingerprint ++ xorFrom keyAt 0 text } requests = some rs ∧
      Delivers text requests rs := by
  cases requests with
  | nil => exact ⟨[], rfl, trivial⟩
  | cons request requests =>
    obtain ⟨r, piece, hr, hpiece⟩ := loaderDecrypt_first text request.2 request.1
    obtain ⟨rs, hrs, hdelivers⟩ := replies_working hpiece.working requests
    refine ⟨r :: rs, ?_, hpiece.delivers hdelivers⟩
    rw [replies, hr, Option.bind_eq_bind, Option.bind_some, hrs]
    rfl

/-- Who asks often enough has it all. -/
theorem flatten_pieces_of_delivers {text : Bytes} {requests : List (ℕ × Bytes)} {rs : List Reply}
    (h : Delivers text requests rs) (hlen : text.length ≤ requests.length) :
    (pieces requests rs).flatten = text := by
  induction requests generalizing text rs with
  | nil =>
    rw [List.length_nil, Nat.le_zero, List.length_eq_zero_iff] at hlen
    rw [hlen]
    rfl
  | cons request requests ih =>
    cases rs with
    | nil => exact h.elim
    | cons r rs =>
      obtain ⟨piece, rest, rfl, hbuf, -, hne, -, -, hrest⟩ := h
      have hpiece : r.buf.drop request.2.length = piece := by
        rw [hbuf]
        exact List.drop_left
      have hshort : rest.length ≤ requests.length := by
        rw [List.length_append, List.length_cons] at hlen
        rcases piece with _ | ⟨c, l⟩
        · have hnil : rest = [] := by
            by_contra hrest
            exact hne (by simpa using hrest) rfl
          rw [hnil]
          exact Nat.zero_le _
        · rw [List.length_cons] at hlen
          omega
      rw [pieces, List.zipWith_cons_cons, List.flatten_cons, hpiece, ← pieces, ih hrest hshort]

/-! ## What the encryptor wrote -/

/-- The text comes back: Perl reads the lines after the one with `use` through the filter, whatever
it asks for, and `decrypt` writes the text. -/
structure Recovered (sharp_bang text : Bytes) : Prop where
  filter : ∃ rest, afterUse (lines 10 (encrypt text)) = some rest ∧
    ∀ requests, ∃ rs, replies { rest := rest } requests = some rs ∧
      Delivers (body text) requests rs ∧
      ((body text).length ≤ requests.length → (pieces requests rs).flatten = body text)
  decrypt : (decrypt sharp_bang (encrypt text)).2 = .written text

/-- **What was encrypted is recovered**, by the filter and by `decrypt`, if and only if the text is
not a single `#!` line without a line end, and has a `#!` line if an earlier file of the same run of
`decrypt` had one. -/
theorem recovered_iff (sharp_bang text : Bytes) :
    Recovered sharp_bang text ↔ ¬IsLoneSharpBang text ∧
      (isSharpBang (readLine 10 text).1 = true ∨ Perl.isTrue sharp_bang = false) := by
  constructor
  · intro h
    refine ⟨fun hlone => ?_, ?_⟩
    · have hdied := h.decrypt
      rw [decrypt_encrypt_of_lone hlone] at hdied
      cases hdied
    · by_contra hor
      rw [not_or, Bool.not_eq_true, Bool.not_eq_false] at hor
      have hwritten := h.decrypt
      rw [decrypt_encrypt_of_not_sharpBang hor.1, if_pos hor.2, Decrypted.written.injEq] at hwritten
      have hnil : sharp_bang = [] := List.append_left_eq_self.1 hwritten
      rw [hnil] at hor
      exact absurd hor.2 (by decide)
  · rintro ⟨hlone, hbang⟩
    refine ⟨⟨_, afterUse_encrypt hlone, fun requests => ?_⟩, ?_⟩
    · obtain ⟨rs, hrs, hdelivers⟩ := replies_first (body text) requests
      rw [xorBlocks_eq]
      exact ⟨rs, hrs, hdelivers, flatten_pieces_of_delivers hdelivers⟩
    · by_cases h : isSharpBang (readLine 10 text).1 = true
      · exact decrypt_encrypt_of_sharpBang h (by_contra fun hmem => hlone ⟨h, hmem⟩) sharp_bang
      · have hfalse := hbang.resolve_left h
        rw [decrypt_encrypt_of_not_sharpBang (by simpa using h), hfalse]
        rfl

/-- A `#!` line without a line end, and a file decrypted after another one. -/
theorem not_recovered_lone :
    ¬Recovered [] (bytes "#!/usr/bin/perl") ∧
      ¬Recovered (bytes "#!/usr/bin/perl\n") (bytes "1;\n") := by
  refine ⟨fun h => ?_, fun h => ?_⟩
  · have hdied := h.decrypt
    rw [decrypt_encrypt_of_lone ⟨by decide, by decide⟩] at hdied
    cases hdied
  · have hwritten := h.decrypt
    rw [decrypt_encrypt_of_not_sharpBang (by decide), Decrypted.written.injEq] at hwritten
    revert hwritten
    decide

end NoSpam.Source
