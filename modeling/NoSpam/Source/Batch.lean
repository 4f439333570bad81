import NoSpam.Source.Encrypt

/-!
# Batches of scripts

`encrypt` and `decrypt` go through the files on their command line one after another, with their
variables outside the loop.  `encrypt` sets `$line` and `$block` anew for each file.  `decrypt` sets
`$sharp_bang` only at a file with a `#!` line, so that the line of one file stands for the next, and
it dies, with all files that are still to come, at a file it cannot make out.  The files of a batch
are under names of their own.
-/

namespace NoSpam.Source

open Text Perl

/-! ## The two loops -/

/-- The variables of `encrypt`. -/
structure EncryptVars where
  line : Bytes := []
  block : Bytes := []

/-- One turn of the loop in `encrypt`: the variables afterwards, and the file. -/
def encryptFile (_ : EncryptVars) (text : Bytes) : EncryptVars × Bytes :=
  let (line, rest) := readLine 10 text
  let header := if isSharpBang line then line else []
  -- `seek F, 0, 0` for a text without a `#!` line
  let left := if isSharpBang line then rest else text
  -- the last `read` leaves an empty block
  ({ line, block := [] }, header ++ (useLine ++ (Fingerprint ++ xorBlocks left)))

/-- `foreach $file (@ARGV)` of `encrypt`: the files it makes. -/
def encryptBatch : EncryptVars → List Bytes → List Bytes
  | _, [] => []
  | v, text :: texts => (encryptFile v text).2 :: encryptBatch (encryptFile v text).1 texts

/-- `foreach $file (@ARGV)` of `decrypt`: what becomes of the files, as far as it gets. -/
def decryptBatch : Bytes → List Bytes → List Decrypted
  | _, [] => []
  | sharp_bang, file :: files =>
      match decrypt sharp_bang file with
      | (_, .died) => [.died]
      | (sharp_bang, d) => d :: decryptBatch sharp_bang files

/-- The entries at the given places. -/
def picked (l : List Bytes) (order : List ℕ) : List Bytes := order.filterMap (l[·]?)

/-- The text has a `#!` line. -/
def HasSharpBang (text : Bytes) : Prop := isSharpBang (readLine 10 text).1 = true

instance (text : Bytes) : Decidable (HasSharpBang text) := inferInstanceAs (Decidable (_ = true))

instance (text : Bytes) : Decidable (IsLoneSharpBang text) :=
  inferInstanceAs (Decidable (_ ∧ _))

/-! ## `encrypt` -/

/-- No variable of an earlier file gets into a later one. -/
theorem encryptFile_snd (v : EncryptVars) (text : Bytes) :
    (encryptFile v text).2 = encrypt text := by
  by_cases hbang : isSharpBang (readLine 10 text).1 = true
  · simp only [encryptFile, encrypt, hbang, if_true]
  · simp only [encryptFile, encrypt, hbang, Bool.false_eq_true, if_false, List.nil_append]

theorem encryptBatch_eq (v : EncryptVars) (texts : List Bytes) :
    encryptBatch v texts = texts.map encrypt := by
  induction texts generalizing v with
  | nil => rfl
  | cons text texts ih => rw [encryptBatch, encryptFile_snd, ih, List.map_cons]

theorem picked_map (f : Bytes → Bytes) (l : List Bytes) (order : List ℕ) :
    picked (l.map f) order = (picked l order).map f := by
  rw [picked, picked, List.map_filterMap]
  exact congrArg (order.filterMap ·) (funext fun i => List.getElem?_map ..)

/-! ## `decrypt` -/

section Decrypt

variable {text sharp_bang : Bytes} {texts : List Bytes}

theorem mem_of_not_lone (h : ¬IsLoneSharpBang text) (hbang : HasSharpBang text) : 10 ∈ text :=
  by_contra fun hmem => h ⟨hbang, hmem⟩

/-- A text with a `#!` line comes back, and its line stays in the variable. -/
theorem decrypt_encrypt_eq_of_sharpBang (hbang : HasSharpBang text) (h : ¬IsLoneSharpBang text) :
    decrypt sharp_bang (encrypt text) = ((readLine 10 text).1, .written text) := by
  have hmem : 10 ∈ text := mem_of_not_lone h hbang
  refine Prod.ext ?_ (decrypt_encrypt_of_sharpBang hbang hmem sharp_bang)
  rw [decrypt, readLine_encrypt hbang hmem]
  simp only [HasSharpBang] at hbang
  simp only [hbang, if_true]

/-- A text without one comes behind the line of an earlier file. -/
theorem decrypt_encrypt_eq_of_not_sharpBang (hbang : ¬HasSharpBang text) :
    decrypt sharp_bang (encrypt text) =
      (sharp_bang, .written ((if isTrue sharp_bang then sharp_bang else []) ++ text)) := by
  have hfalse : isSharpBang (readLine 10 text).1 = false := by simpa [HasSharpBang] using hbang
  have huse : isSharpBang useLine = false := by decide
  refine Prod.ext ?_ (decrypt_encrypt_of_not_sharpBang hfalse sharp_bang)
  rw [decrypt, encrypt_of_not_sharpBang hfalse, readLine_useLine]
  simp only [huse, Bool.false_eq_true, if_false]

theorem decryptBatch_of_lone (h : IsLoneSharpBang text) (files : List Bytes) :
    decryptBatch sharp_bang (encrypt text :: files) = [.died] := by
  have hdied : (decrypt sharp_bang (encrypt text)).2 = .died := decrypt_encrypt_of_lone h sharp_bang
  rw [decryptBatch, ← Prod.mk.eta (p := decrypt sharp_bang (encrypt text)), hdied]

theorem decryptBatch_of_sharpBang (hbang : HasSharpBang text) (h : ¬IsLoneSharpBang text)
    (files : List Bytes) : decryptBatch sharp_bang (encrypt text :: files) =
      .written text :: decryptBatch (readLine 10 text).1 files := by
  rw [decryptBatch, decrypt_encrypt_eq_of_sharpBang hbang h]

theorem decryptBatch_of_not_sharpBang (hbang : ¬HasSharpBang text) (files : List Bytes) :
    decryptBatch sharp_bang (encrypt text :: files) =
      .written ((if isTrue sharp_bang then sharp_bang else []) ++ text) ::
        decryptBatch sharp_bang files := by
  rw [decryptBatch, decrypt_encrypt_eq_of_not_sharpBang hbang]

/-- A line that stands in the variable goes in front of every text that has none, up to the next
one that has. -/
theorem decryptBatch_written_iff (sharp_bang : Bytes) (texts : List Bytes) :
    decryptBatch sharp_bang (texts.map encrypt) = texts.map .written ↔
      (∀ t ∈ texts, ¬IsLoneSharpBang t) ∧
        texts.Pairwise (fun t u => HasSharpBang t → HasSharpBang u) ∧
        (isTrue sharp_bang = true → ∀ t ∈ texts, HasSharpBang t) := by
  induction texts generalizing sharp_bang with
  | nil => simp [decryptBatch]
  | cons text texts ih =>
    rw [List.map_cons, List.map_cons, List.forall_mem_cons, List.pairwise_cons,
      List.forall_mem_cons]
    by_cases hlone : IsLoneSharpBang text
    · rw [decryptBatch_of_lone hlone]
      simp [hlone]
    by_cases hbang : HasSharpBang text
    · have hline : isTrue (readLine 10 text).1 = true := isTrue_line (mem_of_not_lone hlone hbang)
      rw [decryptBatch_of_sharpBang hbang hlone, List.cons_eq_cons, ih]
      simp only [hlone, hbang, hline, true_and, true_imp_iff, not_false_eq_true]
      constructor
      · rintro ⟨hlones, hpair, hall⟩
        exact ⟨hlones, ⟨hall, hpair⟩, fun _ => hall⟩
      · rintro ⟨hlones, ⟨hall, hpair⟩, -⟩
        exact ⟨hlones, hpair, hall⟩
    · rw [decryptBatch_of_not_sharpBang hbang, List.cons_eq_cons, ih, Decrypted.written.injEq]
      by_cases htrue : isTrue sharp_bang = true
      · have hne : sharp_bang ≠ [] := by
          rintro rfl
          cases htrue
        simp [htrue, hbang, hne]
      · simp [htrue, hbang, hlone]

end Decrypt

/-! ## Both scripts -/

/-- `decrypt` over results of `encrypt`, in any order, gives what it gives for each of them alone,
and that is the text. -/
structure Restored (texts : List Bytes) (order : List ℕ) : Prop where
  alone : decryptBatch [] (picked (encryptBatch {} texts) order) =
    (picked (encryptBatch {} texts) order).map fun file => (decrypt [] file).2
  text : decryptBatch [] (picked (encryptBatch {} texts) order) =
    (picked texts order).map .written

/-- A text that is not a lone `#!` line comes back when it is decrypted alone. -/
theorem decrypt_alone {text : Bytes} (h : ¬IsLoneSharpBang text) :
    (decrypt [] (encrypt text)).2 = .written text := by
  by_cases hbang : HasSharpBang text
  · rw [decrypt_encrypt_eq_of_sharpBang hbang h]
  · rw [decrypt_encrypt_eq_of_not_sharpBang hbang]
    rfl

/-- **A batch is restored** if and only if `decrypt` gets no lone `#!` line, and after a text with a
`#!` line only such texts. -/
theorem batch_restored_iff (texts : List Bytes) (order : List ℕ) :
    Restored texts order ↔
      (∀ t ∈ picked texts order, ¬IsLoneSharpBang t) ∧
        (picked texts order).Pairwise (fun t u => HasSharpBang t → HasSharpBang u) := by
  have hfiles : picked (encryptBatch {} texts) order = (picked texts order).map encrypt := by
    rw [encryptBatch_eq, picked_map]
  have hiff := decryptBatch_written_iff [] (picked texts order)
  constructor
  · intro h
    have htext := h.text
    rw [hfiles, hiff] at htext
    exact ⟨htext.1, htext.2.1⟩
  · rintro ⟨hlone, hpair⟩
    have htext := hiff.2 ⟨hlone, hpair, fun h => by cases h⟩
    refine ⟨?_, by rw [hfiles, htext]⟩
    rw [hfiles, htext, List.map_map]
    exact List.map_congr_left fun t ht => (decrypt_alone (hlone t ht)).symm

/-- A script with a `#!` line, and a module after it. -/
theorem not_restored_after_sharpBang :
    ¬Restored [bytes "#!/usr/bin/perl\nrun();\n", bytes "1;\n"] [0, 1] := by
  intro h
  have hiff := decryptBatch_written_iff [] [bytes "#!/usr/bin/perl\nrun();\n", bytes "1;\n"]
  have htext := h.text
  rw [encryptBatch_eq] at htext
  have hpair := (hiff.1 htext).2.1
  revert hpair
  decide

end NoSpam.Source
