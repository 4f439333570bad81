import NoSpam.Base.Cipher
import NoSpam.Base.Columns
import NoSpam.Base.Scalar

/-!
# Encrypted scripts

The factory scripts `encrypt` and `decrypt`.  An encrypted script has the `#!` line of the plain
one, if that has one, a line `use AKA::Loader ;`, a fingerprint, and the rest of the text under a
keystream.  The files can be read and written here, and they are texts for `-T`.
-/

namespace NoSpam.Source

open Text Perl

def XOR : Bytes := bytes "okboy&zixia@2004-03-07"

def BLOCKSIZE : ℕ := 22

def Fingerprint : Bytes := [0xfe, 0x01]

/-- `"use AKA::Loader ;\n"`. -/
def useLine : Bytes := bytes "use AKA::Loader ;\n"

/-- `/^#!/`. -/
def isSharpBang (line : Bytes) : Bool := [35, 33].isPrefixOf line

/-- `while ($size = read(F, $block, $BLOCKSIZE)) { print O ($block ^ substr($XOR, 0, $size)) }`. -/
def xorBlocks (text : Bytes) : Bytes :=
  if text = [] then []
  else
    let block := text.take BLOCKSIZE
    List.zipWith (· ^^^ ·) block (XOR.take block.length) ++ xorBlocks (text.drop BLOCKSIZE)
termination_by text.length
decreasing_by
  rw [List.length_drop, BLOCKSIZE]
  have hpos := List.length_pos_of_ne_nil ‹text ≠ []›
  omega

/-- What `encrypt` writes for a text. -/
def encrypt (text : Bytes) : Bytes :=
  let (line, rest) := readLine 10 text
  if isSharpBang line then line ++ (useLine ++ (Fingerprint ++ xorBlocks rest))
  else useLine ++ (Fingerprint ++ xorBlocks text)

/-- `/use\s+AKA::Loader\s*;/` at the start of a text. -/
def usesLoaderAt (l : Bytes) : Bool :=
  match l.dropPrefix? (bytes "use") with
  | none => false
  | some r =>
      r.takeWhile isWhite ≠ [] &&
        match (r.dropWhile isWhite).dropPrefix? (bytes "AKA::Loader") with
        | none => false
        | some r => (r.dropWhile isWhite).head? = some 59

/-- `/use\s+AKA::Loader\s*;/`. -/
def usesLoader (line : Bytes) : Bool := line.tails.any usesLoaderAt

/-- What becomes of a file. -/
inductive Decrypted
  | died
  | skipped
  | written (text : Bytes)
  deriving DecidableEq

/-- `decrypt`, from the line on that has to be the one with `use`. -/
def decryptFrom (sharp_bang a rest : Bytes) : Decrypted :=
  if !usesLoader a then .died
  else if rest = [] then .died
  else if rest.take Fingerprint.length ≠ Fingerprint then .skipped
  else
    .written ((if isTrue sharp_bang then sharp_bang else []) ++
      xorBlocks (rest.drop Fingerprint.length))

/-- `decrypt` on one of its files: `$sharp_bang`, which an earlier file may have set, afterwards,
and what becomes of the file. -/
def decrypt (sharp_bang file : Bytes) : Bytes × Decrypted :=
  let (a, rest) := readLine 10 file
  if isSharpBang a then (a, decryptFrom a (readLine 10 rest).1 (readLine 10 rest).2)
  else (sharp_bang, decryptFrom sharp_bang a rest)

/-- What Perl has still to read when it has compiled the line with `use`, the first one that is not
a comment. -/
def afterUse : List Bytes → Option Bytes
  | [] => none
  | l :: ls =>
      if l = useLine then some ls.flatten
      else if l.head? = some 35 then afterUse ls
      else none

/-- The text without its `#!` line. -/
def body (text : Bytes) : Bytes :=
  if isSharpBang (readLine 10 text).1 then (readLine 10 text).2 else text

/-! ## The keystream -/

/-- `XOR[i%BLOCKSIZE]`. -/
def keyAt (i : ℕ) : UInt8 := XOR.getD (i % BLOCKSIZE) 0

theorem keyAt_add (i : ℕ) : keyAt (i + BLOCKSIZE) = keyAt i := by
  rw [keyAt, Nat.add_mod_right, keyAt]

theorem zipWith_drop_XOR {j : ℕ} {l : Bytes} (h : j + l.length ≤ BLOCKSIZE) :
    List.zipWith (· ^^^ ·) l ((XOR.drop j).take l.length) = xorFrom keyAt j l := by
  induction l generalizing j with
  | nil => rfl
  | cons c l ih =>
    rw [List.length_cons] at h
    have hj : j < XOR.length := by
      have hlen : XOR.length = BLOCKSIZE := by decide
      omega
    have hkey : XOR[j] = keyAt j := by
      rw [keyAt, Nat.mod_eq_of_lt (by omega), List.getD_eq_getElem?_getD,
        List.getElem?_eq_getElem hj, Option.getD_some]
    rw [List.drop_eq_getElem_cons hj, List.length_cons, List.take_succ_cons, List.zipWith_cons_cons,
      ih (by omega), xorFrom, hkey, UInt8.xor_comm]

/-- The blocks are under the keystream. -/
theorem xorBlocks_eq (text : Bytes) : xorBlocks text = xorFrom keyAt 0 text := by
  induction text using xorBlocks.induct with
  | case1 =>
    rw [xorBlocks, if_pos rfl]
    rfl
  | case2 text hne ih =>
    have hblock := xorFrom_block keyAt_add 1 text
    rw [Nat.one_mul] at hblock
    have hlen : 0 + (text.take BLOCKSIZE).length ≤ BLOCKSIZE := by
      rw [Nat.zero_add]
      exact List.length_take_le _ _
    have hzip := zipWith_drop_XOR hlen
    rw [List.drop_zero] at hzip
    rw [xorBlocks, if_neg hne, hblock, ih]
    exact congrArg (· ++ _) hzip

theorem xorBlocks_xorBlocks (text : Bytes) : xorBlocks (xorBlocks text) = text := by
  rw [xorBlocks_eq, xorBlocks_eq, xorFrom_xorFrom]

/-! ## Reading an encrypted script -/

/-- A `#!` line without a line end, and nothing else. -/
def IsLoneSharpBang (text : Bytes) : Prop := isSharpBang (readLine 10 text).1 = true ∧ 10 ∉ text

theorem afterUse_useLine (r : Bytes) : afterUse (lines 10 (useLine ++ r)) = some r := by
  have huse : useLine = bytes "use AKA::Loader ;" ++ [10] := by decide
  rw [huse, List.append_assoc, List.singleton_append, lines_append_cons (by decide), ← huse,
    afterUse, if_pos rfl, flatten_lines]

theorem afterUse_sharpBang {line : Bytes} (h : 10 ∉ line) (hbang : isSharpBang line = true)
    (r : Bytes) : afterUse (lines 10 (line ++ 10 :: (useLine ++ r))) = some r := by
  obtain ⟨l, rfl⟩ := List.isPrefixOf_iff_prefix.1 hbang
  have hhead : ([35, 33] ++ l ++ [10]).head? = some 35 := rfl
  have huse : useLine.head? = some 117 := by decide
  have hne : [35, 33] ++ l ++ [10] ≠ useLine := by
    rintro he
    rw [he, huse] at hhead
    cases hhead
  rw [lines_append_cons h, afterUse, if_neg hne, if_pos hhead, afterUse_useLine]

theorem readLine_useLine (r : Bytes) : readLine 10 (useLine ++ r) = (useLine, r) := by
  have huse : useLine = bytes "use AKA::Loader ;" ++ [10] := by decide
  rw [huse, List.append_assoc, List.singleton_append, readLine_append (by decide)]

theorem decryptFrom_useLine (sharp_bang r : Bytes) :
    decryptFrom sharp_bang useLine (Fingerprint ++ xorBlocks r) =
      .written ((if isTrue sharp_bang then sharp_bang else []) ++ r) := by
  have huse : usesLoader useLine = true := by decide
  have hne : Fingerprint ++ xorBlocks r ≠ [] := by simp [Fingerprint]
  rw [decryptFrom, huse, List.take_left, List.drop_left, xorBlocks_xorBlocks, if_neg hne]
  simp

theorem encrypt_of_sharpBang {text : Bytes} (h : isSharpBang (readLine 10 text).1 = true) :
    encrypt text =
      (readLine 10 text).1 ++ (useLine ++ (Fingerprint ++ xorBlocks (body text))) := by
  simp only [encrypt, body, h, if_true]

theorem encrypt_of_not_sharpBang {text : Bytes} (h : isSharpBang (readLine 10 text).1 = false) :
    encrypt text = useLine ++ (Fingerprint ++ xorBlocks (body text)) := by
  simp only [encrypt, body, h, Bool.false_eq_true, if_false]

/-- The first line of a text that has a line end. -/
theorem exists_line_of_mem {text : Bytes} (h : 10 ∈ text) :
    ∃ line, 10 ∉ line ∧ (readLine 10 text).1 = line ++ [10] := by
  obtain ⟨line, rest, rfl, hline⟩ := List.eq_append_cons_of_mem h
  exact ⟨line, hline, by rw [readLine_append hline]⟩

theorem isSharpBang_of_append {line : Bytes} (h : isSharpBang (line ++ [10]) = true) :
    isSharpBang line = true := by
  match line with
  | [] => cases h
  | [c] => simp [isSharpBang, List.isPrefixOf] at h
  | c :: d :: line =>
    simp only [isSharpBang, List.cons_append, List.isPrefixOf, Bool.and_true] at h ⊢
    exact h

section Scripts

variable {text : Bytes}

theorem afterUse_encrypt (h : ¬IsLoneSharpBang text) :
    afterUse (lines 10 (encrypt text)) = some (Fingerprint ++ xorBlocks (body text)) := by
  by_cases hbang : isSharpBang (readLine 10 text).1 = true
  · have hmem : 10 ∈ text := by
      by_contra hnot
      exact h ⟨hbang, hnot⟩
    obtain ⟨line, hline, hfirst⟩ := exists_line_of_mem hmem
    rw [encrypt_of_sharpBang hbang, hfirst, List.append_assoc, List.singleton_append]
    rw [hfirst] at hbang
    exact afterUse_sharpBang hline (isSharpBang_of_append hbang) _
  · rw [encrypt_of_not_sharpBang (by simpa using hbang), afterUse_useLine]

theorem readLine_encrypt (hbang : isSharpBang (readLine 10 text).1 = true) (hmem : 10 ∈ text) :
    readLine 10 (encrypt text) =
      ((readLine 10 text).1, useLine ++ (Fingerprint ++ xorBlocks (body text))) := by
  obtain ⟨line, hline, hfirst⟩ := exists_line_of_mem hmem
  rw [encrypt_of_sharpBang hbang, hfirst, List.append_assoc, List.singleton_append,
    readLine_append hline]

/-- A first line with its line end is true for Perl. -/
theorem isTrue_line (hmem : 10 ∈ text) : isTrue (readLine 10 text).1 = true := by
  obtain ⟨line, -, hfirst⟩ := exists_line_of_mem hmem
  rw [hfirst]
  exact isTrue_of_mem (by simp) (by decide : (10 : UInt8) ≠ 48)

theorem decrypt_encrypt_of_sharpBang (hbang : isSharpBang (readLine 10 text).1 = true)
    (hmem : 10 ∈ text) (sharp_bang : Bytes) :
    (decrypt sharp_bang (encrypt text)).2 = .written text := by
  have htext : (readLine 10 text).1 ++ body text = text := by
    rw [body, if_pos hbang, readLine_fst_append_snd]
  rw [decrypt, readLine_encrypt hbang hmem]
  simp only [hbang, if_true]
  rw [readLine_useLine, decryptFrom_useLine, if_pos (isTrue_line hmem), htext]

theorem decrypt_encrypt_of_not_sharpBang (hbang : isSharpBang (readLine 10 text).1 = false)
    (sharp_bang : Bytes) :
    (decrypt sharp_bang (encrypt text)).2 =
      .written ((if isTrue sharp_bang then sharp_bang else []) ++ text) := by
  have huse : isSharpBang useLine = false := by decide
  have hbody : body text = text := if_neg (by simp [hbang])
  rw [decrypt, encrypt_of_not_sharpBang hbang, readLine_useLine]
  simp only [huse, Bool.false_eq_true, if_false]
  rw [decryptFrom_useLine, hbody]

theorem decrypt_encrypt_of_lone (h : IsLoneSharpBang text) (sharp_bang : Bytes) :
    (decrypt sharp_bang (encrypt text)).2 = .died := by
  obtain ⟨hbang, hmem⟩ := h
  have huse : useLine = bytes "use AKA::Loader ;" ++ [10] := by decide
  have hnot : 10 ∉ bytes "use AKA::Loader ;" := by decide
  have hfirst : readLine 10 text = (text, []) := readLine_of_not_mem hmem
  have hencrypt : encrypt text = (text ++ bytes "use AKA::Loader ;") ++ 10 :: Fingerprint := by
    rw [encrypt_of_sharpBang hbang, body, if_pos hbang, hfirst, huse, xorBlocks, if_pos rfl]
    simp
  have hread : readLine 10 (encrypt text) =
      (text ++ bytes "use AKA::Loader ;" ++ [10], Fingerprint) := by
    rw [hencrypt, readLine_append]
    simp [hmem, hnot]
  have hline : isSharpBang (text ++ bytes "use AKA::Loader ;" ++ [10]) = true := by
    rw [hfirst] at hbang
    obtain ⟨l, rfl⟩ := List.isPrefixOf_iff_prefix.1 hbang
    rfl
  rw [decrypt, hread]
  simp only [hline, if_true]
  rfl

end Scripts

end NoSpam.Source
