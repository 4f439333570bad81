import NoSpam.Base.Columns
import NoSpam.Base.Pattern
import NoSpam.Loader.Submit
import NoSpam.Mail.Engines

/-!
# The names of viruses

clamd answers the scan of a file with a line that ends in ` FOUND`, with the signature before it.
`catch_virus` looks for `(OK)|(.+) FOUND` behind the name of the file, so a signature that begins
with `OK` is the sign of a clean mail, and the signature `0` is no name.  The name of the file is
taken for a pattern, and what follows the last ` FOUND` is not looked at (`reported_iff`).
-/

namespace NoSpam.VirusName

open Text Perl Conf Loader

/-! ## The answer of clamd -/

/-- What `check_file_socket_tcp` reads on the connection: the first line, chomped. -/
def scanReply (stream : Bytes) : Option Bytes := (lines 10 stream).head?.map chomp

/-- The answer to a scan that finds this signature. -/
def foundReply (file signature : Bytes) : Bytes :=
  file ++ (bytes ": " ++ (signature ++ bytes " FOUND"))

/-- The virus of this name is reported. -/
def Reports (entry : Entry) (name : Bytes) : Prop :=
  entry.result = bytes "1" ∧ entry.desc = name

/-- A signature that is not the sign of a clean mail and is a truth value. -/
def Legible (signature : Bytes) : Prop :=
  ¬ bytes "OK" <+: signature ∧ signature ≠ bytes "0"

/-- An answer that the signature is read from, behind what agrees with the name of the file but
for the dots and before whatever follows the last ` FOUND`. -/
def Yields (file signature answer : Bytes) : Prop :=
  ∃ w rest, answer = w ++ (signature ++ (bytes " FOUND" ++ rest)) ∧
    Matches (file ++ bytes ": ") w ∧ ¬ bytes " FOUND" <:+: rest ∧ ¬ bytes "ERROR" <:+ answer

/-! ## The text before the last sign -/

section

variable {text name : Bytes}

theorem search_eq_some_iff (n : ℕ) :
    beforeFound.search text n = some name ↔
      ∃ k ≤ n, 0 < k ∧ bytes " FOUND" <+: text.drop k ∧ name = text.take k ∧
        ∀ j ≤ n, k < j → ¬ bytes " FOUND" <+: text.drop j := by
  induction n with
  | zero =>
    refine iff_of_false (fun h => by cases h) ?_
    rintro ⟨k, hk, hpos, -⟩
    omega
  | succ n ih =>
    rw [beforeFound.search]
    by_cases hfound : bytes " FOUND" <+: text.drop (n + 1)
    · rw [if_pos hfound, Option.some_inj]
      constructor
      · rintro rfl
        exact ⟨n + 1, le_rfl, n.succ_pos, hfound, rfl, fun j hj hlt => by omega⟩
      · rintro ⟨k, hk, -, -, rfl, hlast⟩
        have heq : k = n + 1 := by
          by_contra hne
          exact hlast (n + 1) le_rfl (by omega) hfound
        rw [heq]
    · rw [if_neg hfound, ih]
      constructor
      · rintro ⟨k, hk, hpos, hpre, hname, hlast⟩
        refine ⟨k, by omega, hpos, hpre, hname, fun j hj hlt => ?_⟩
        rcases Nat.lt_or_ge n j with hj' | hj'
        · rwa [(by omega : j = n + 1)]
        · exact hlast j hj' hlt
      · rintro ⟨k, hk, hpos, hpre, hname, hlast⟩
        have hne : k ≠ n + 1 := by
          rintro rfl
          exact hfound hpre
        exact ⟨k, by omega, hpos, hpre, hname, fun j hj hlt => hlast j (by omega) hlt⟩

/-- The sign has no beginning of itself inside. -/
theorem found_prefix_drop_iff (rest : Bytes) {j : ℕ} (hj : 0 < j) :
    bytes " FOUND" <+: (bytes " FOUND" ++ rest).drop j ↔
      ∃ i, j = 6 + i ∧ bytes " FOUND" <+: rest.drop i := by
  have hbytes : bytes " FOUND" = [32, 70, 79, 85, 78, 68] := by decide
  rcases Nat.lt_or_ge j 6 with hlt | hge
  · refine iff_of_false ?_ (fun ⟨i, hi, _⟩ => by omega)
    rw [hbytes]
    interval_cases j <;> simp [List.cons_prefix_cons]
  · obtain ⟨i, rfl⟩ := Nat.exists_eq_add_of_le hge
    have hlength : (bytes " FOUND").length = 6 := by decide
    rw [← hlength, List.drop_length_add_append]
    constructor
    · intro h
      exact ⟨i, rfl, h⟩
    · rintro ⟨m, hm, h⟩
      rwa [Nat.add_left_cancel hm]

theorem infix_iff_exists_drop {pat l : Bytes} : pat <:+: l ↔ ∃ i, pat <+: l.drop i := by
  constructor
  · rintro ⟨y, z, rfl⟩
    exact ⟨y.length, z, by simp⟩
  · rintro ⟨i, hi⟩
    exact hi.isInfix.trans (List.drop_suffix i l).isInfix

theorem beforeFound_eq_some_iff :
    beforeFound text = some name ↔
      name ≠ [] ∧ ∃ rest, text = name ++ (bytes " FOUND" ++ rest) ∧ ¬ bytes " FOUND" <:+: rest := by
  rw [beforeFound, search_eq_some_iff]
  constructor
  · rintro ⟨k, hk, hpos, ⟨rest, hrest⟩, rfl, hlast⟩
    have hsplit : text = text.take k ++ (bytes " FOUND" ++ rest) := by
      rw [hrest, List.take_append_drop]
    refine ⟨fun hnil => ?_, rest, hsplit, fun hinfix => ?_⟩
    · have hlength := congrArg List.length hnil
      rw [List.length_take, List.length_nil] at hlength
      omega
    · obtain ⟨i, hi⟩ := infix_iff_exists_drop.1 hinfix
      have hdrop := (found_prefix_drop_iff rest (j := 6 + i) (by omega)).2 ⟨i, rfl, hi⟩
      rw [hrest, List.drop_drop] at hdrop
      refine hlast (k + (6 + i)) ?_ (by omega) hdrop
      have hle := hdrop.length_le
      rw [List.length_drop, (by decide : (bytes " FOUND").length = 6)] at hle
      omega
  · rintro ⟨hne, rest, rfl, hrest⟩
    refine ⟨name.length, by simp, List.length_pos_iff.2 hne, ?_, by simp, fun j hj hlt hpre => ?_⟩
    · rw [List.drop_left]
      exact List.prefix_append ..
    · obtain ⟨i, rfl⟩ := Nat.exists_eq_add_of_lt hlt
      rw [add_assoc, ← List.drop_drop, List.drop_left,
        found_prefix_drop_iff rest i.succ_pos] at hpre
      obtain ⟨m, -, hm⟩ := hpre
      exact hrest (infix_iff_exists_drop.2 ⟨m, hm⟩)

end

/-! ## The engine -/

section

variable {file signature answer : Bytes}

theorem ok_prefix_append_iff (hne : signature ≠ []) (rest : Bytes) :
    bytes "OK" <+: signature ++ (bytes " FOUND" ++ rest) ↔ bytes "OK" <+: signature := by
  have hok : bytes "OK" = [79, 75] := by decide
  have hfound : bytes " FOUND" = [32, 70, 79, 85, 78, 68] := by decide
  rw [hok, hfound]
  match signature, hne with
  | [a], _ => simp [List.cons_prefix_cons]
  | a :: b :: l, _ => simp [List.cons_prefix_cons]

theorem not_mem_scanReply {stream : Bytes} (h : scanReply stream = some answer) :
    10 ∉ answer := by
  obtain ⟨line, hline, rfl⟩ := Option.map_eq_some_iff.1 h
  exact not_mem_chomp (not_mem_dropLast_of_mem_lines (List.mem_of_head? hline))

theorem virusName_eq_some_iff (hline : 10 ∉ answer) :
    virusName file answer = some signature ↔
      signature ≠ [] ∧ ¬ bytes "OK" <+: signature ∧ ∃ w rest,
        answer = w ++ (signature ++ (bytes " FOUND" ++ rest)) ∧
          Matches (file ++ bytes ": ") w ∧ ¬ bytes " FOUND" <:+: rest := by
  have htext : ∀ {w text}, answer = w ++ text → text.takeWhile (· ≠ 10) = text := by
    rintro w text rfl
    rw [List.takeWhile_eq_self_iff]
    intro c hc
    exact decide_eq_true fun h => hline (List.mem_append_right _ (h ▸ hc))
  rw [virusName]
  constructor
  · intro h
    cases hdrop : dropPattern (file ++ bytes ": ") answer with
    | none =>
      rw [hdrop] at h
      cases h
    | some text =>
      obtain ⟨w, hsplit, hmatch⟩ := dropPattern_eq_some_iff.1 hdrop
      simp only [hdrop, htext hsplit, Bool.or_eq_true, decide_eq_true_eq] at h
      split_ifs at h with hnot
      obtain ⟨hne, rest, rfl, hrest⟩ := beforeFound_eq_some_iff.1 h
      rw [not_or, ok_prefix_append_iff hne] at hnot
      exact ⟨hne, hnot.2, w, rest, hsplit, hmatch, hrest⟩
  · rintro ⟨hne, hok, w, rest, hsplit, hmatch, hrest⟩
    have hdrop := dropPattern_eq_some_iff.2 ⟨w, hsplit, hmatch⟩
    simp only [hdrop, htext hsplit, Bool.or_eq_true, decide_eq_true_eq]
    rw [if_neg, beforeFound_eq_some_iff]
    · exact ⟨hne, rest, rfl, hrest⟩
    · rw [not_or, ok_prefix_append_iff hne]
      exact ⟨List.append_ne_nil_of_left_ne_nil hne _, hok⟩

/-- An answer of one line is an error if it ends in the word. -/
theorem endsWith_error_iff (hline : 10 ∉ answer) :
    endsWith (bytes "ERROR") answer = true ↔ bytes "ERROR" <:+ answer := by
  rw [endsWith_iff]
  constructor
  · rintro ⟨y, w, rfl | rfl, hmatch⟩
    · rw [hmatch.eq_of_not_mem (by decide)]
      exact List.suffix_append y w
    · exact absurd (List.mem_append_right _ (List.mem_singleton_self 10)) hline
  · rintro ⟨y, rfl⟩
    exact ⟨y, bytes "ERROR", .inl rfl, Matches.refl _⟩

variable {cfg : Config} {o : Outside}

/-- A name that an answer yields is the one that is read from it, unless it looks like `OK`. -/
theorem virusName_of_yields {answer : Bytes} (hline : 10 ∉ answer) (hne : signature ≠ [])
    (hlegible : Legible signature) (h : Yields file signature answer) :
    virusName file answer = some signature := by
  obtain ⟨w, rest, hsplit, hmatch, hrest, -⟩ := h
  exact (virusName_eq_some_iff hline).2 ⟨hne, hlegible.1, w, rest, hsplit, hmatch, hrest⟩

/-- What is reported: a signature that the answer yields. -/
theorem reports_iff (hne : signature ≠ []) {stream : Bytes} (ho : o.clamd = scanReply stream) :
    Reports (catchVirus cfg o file) signature ↔
      o.clamdUp = true ∧ Legible signature ∧
        ∃ answer, o.clamd = some answer ∧ Yields file signature answer := by
  have hfalse : ∀ {desc action : Bytes} {runned : Bool},
      ¬ Reports (ran (bytes "0") desc action runned) signature := by
    rintro desc action runned ⟨hresult, -⟩
    exact absurd (show bytes "0" = bytes "1" from hresult) (by decide)
  rw [catchVirus]
  cases hup : o.clamdUp with
  | false => exact iff_of_false hfalse fun h => by cases h.1
  | true =>
    rw [Bool.not_true, if_neg Bool.false_ne_true]
    cases hanswer : o.clamd with
    | none =>
      refine iff_of_false hfalse ?_
      rintro ⟨-, -, answer, hsome, -⟩
      cases hsome
    | some answer =>
      have hline := not_mem_scanReply (ho.symm.trans hanswer)
      dsimp only
      by_cases herror : endsWith (bytes "ERROR") answer = true
      · rw [if_pos herror]
        refine iff_of_false hfalse ?_
        rintro ⟨-, -, answer', hsome, w, rest, -, -, -, hends⟩
        obtain rfl := Option.some.inj hsome
        exact hends ((endsWith_error_iff hline).1 herror)
      · rw [if_neg herror]
        rw [endsWith_error_iff hline] at herror
        cases hname : virusName file answer with
        | none =>
          refine iff_of_false hfalse ?_
          rintro ⟨-, hlegible, answer', hsome, hyields⟩
          obtain rfl := Option.some.inj hsome
          rw [virusName_of_yields hline hne hlegible hyields] at hname
          cases hname
        | some name =>
          dsimp only [Reports, ran]
          constructor
          · rintro ⟨-, rfl⟩
            have hzero : name ≠ [48] := by
              rintro rfl
              exact hne rfl
            rw [orElse_nil_eq_iff.2 hzero] at hne ⊢
            obtain ⟨-, hok, w, rest, hsplit, hmatch, hrest⟩ := (virusName_eq_some_iff hline).1 hname
            exact ⟨rfl, ⟨hok, hzero⟩, answer, rfl, w, rest, hsplit, hmatch, hrest, herror⟩
          · rintro ⟨-, hlegible, answer', hsome, hyields⟩
            obtain rfl := Option.some.inj hsome
            rw [virusName_of_yields hline hne hlegible hyields] at hname
            obtain rfl := Option.some.inj hname
            exact ⟨rfl, orElse_nil_eq_iff.2 hlegible.2⟩

/-- The answer that finds a signature yields it. -/
theorem yields_foundReply (file signature : Bytes) :
    Yields file signature (foundReply file signature) := by
  refine ⟨file ++ bytes ": ", [], by simp [foundReply], Matches.refl _, by decide, ?_⟩
  rintro ⟨y, hy⟩
  have hlast := congrArg (fun l : Bytes => l.getLast?) hy
  have herror : (bytes "ERROR").getLast? = some 82 := by decide
  have hfound : (bytes " FOUND").getLast? = some 68 := by decide
  simp only [foundReply, ← List.append_assoc, List.getLast?_append, herror, hfound] at hlast
  exact absurd (Option.some.inj hlast) (by decide)

/-- **When a virus is reported as clamd has found it**: for all files of the loader, signatures and
answers, exactly if the answer, where it finds this signature, has one that does not begin with
`OK` and is not `0`, and an answer of another kind does not yield such a signature. -/
theorem reported_iff (cfg : Config) (o : Outside) (time pid : ℕ) (stream : Bytes)
    (hne : signature ≠ []) (ho : o.clamd = scanReply stream) :
    (Reports (catchVirus cfg o (emlfile time pid)) signature ↔
        o.clamdUp = true ∧ o.clamd = some (foundReply (emlfile time pid) signature)) ↔
      (o.clamdUp = true → ∀ answer, o.clamd = some answer →
        if answer = foundReply (emlfile time pid) signature then Legible signature
        else ¬ (Legible signature ∧ Yields (emlfile time pid) signature answer)) := by
  rw [reports_iff hne ho]
  cases o.clamdUp with
  | false => exact iff_of_true (iff_of_false (fun h => by cases h.1) fun h => by cases h.1) nofun
  | true =>
    cases o.clamd with
    | none =>
      refine iff_of_true (iff_of_false ?_ fun h => by cases h.2) nofun
      rintro ⟨-, -, answer, hsome, -⟩
      cases hsome
    | some answer =>
      simp only [true_and, true_imp_iff, Option.some_inj, exists_eq_left', forall_eq']
      split_ifs with hform
      · rw [iff_true_right hform, hform]
        exact and_iff_left (yields_foundReply _ _)
      · rw [iff_false_right hform]

/-- clamd has found this signature in the file. -/
def scanned (signature : Bytes) : Outside :=
  { Outside.plain with clamd := scanReply (foundReply (emlfile 7 1) signature ++ [10]) }

theorem reported_sober :
    Reports (catchVirus {} (scanned (bytes "Worm.Sober")) (emlfile 7 1)) (bytes "Worm.Sober") :=
  ((reported_iff {} (scanned (bytes "Worm.Sober")) 7 1
    (foundReply (emlfile 7 1) (bytes "Worm.Sober") ++ [10]) (by decide) rfl).2 (by
      rintro - answer hanswer
      have hreply : (scanned (bytes "Worm.Sober")).clamd =
          some (foundReply (emlfile 7 1) (bytes "Worm.Sober")) := by decide +kernel
      obtain rfl := Option.some.inj (hanswer.symm.trans hreply)
      rw [if_pos rfl]
      exact ⟨by decide, by decide⟩)).2 ⟨rfl, by decide +kernel⟩

/-- A signature that begins with `OK` passes for a clean mail. -/
theorem ok_signature_unreported :
    ¬ ∀ (cfg : Config) (o : Outside) (time pid : ℕ) (stream signature : Bytes),
      signature ≠ [] → 10 ∉ signature → o.clamd = scanReply stream →
        (Reports (catchVirus cfg o (emlfile time pid)) signature ↔
          o.clamdUp = true ∧ o.clamd = some (foundReply (emlfile time pid) signature)) := by
  intro h
  have hreported := (h {} (scanned (bytes "OKworm.A")) 7 1
    (foundReply (emlfile 7 1) (bytes "OKworm.A") ++ [10]) (bytes "OKworm.A") (by decide)
    (by decide) rfl).2 ⟨rfl, by decide +kernel⟩
  exact absurd hreported.1 (by decide +kernel)

end

end NoSpam.VirusName
