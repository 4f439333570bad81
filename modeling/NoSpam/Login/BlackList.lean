import NoSpam.Base.Assoc
import NoSpam.Base.Php
import NoSpam.Base.Records
import NoSpam.Base.Scalar

/-!
# The login black list

`LoginBlackList` of `classes.ns` keeps two files: `IPDENYLIST` with a line `ip time` for every
blocked address, and `LOGINFAILLIST` with a line `id ip time` for every failed login.  The
constructor reads them, `addLoginfailList` counts a failure or blocks the address, and the lists are
written back.  Lines of clients with plain ids, short enough for the buffer of `fgets`, are read
back as they were written (`readFailures_failureText`, `readBlock_blockText`).
-/

namespace NoSpam.Login

open Text Php

/-- The settings of `params.ns`. -/
structure Limits where
  iDenyTimeAfterMaxLogin : ℤ
  iUserMaxLoginRetry : ℤ
  iIPMaxLoginRetry : ℤ

/-- The arrays of a `LoginBlackList`. -/
structure LoginBlackList where
  aBlockList : Assoc Bytes ℤ
  aLoginfailListID : Assoc Bytes (List ℤ)
  aLoginfailListIP : Assoc Bytes (List ℤ)

/-- The contents of `IPDENYLIST` and of `LOGINFAILLIST`. -/
structure Stored where
  ipDenyList : Bytes
  loginFailList : Bytes
  deriving DecidableEq

/-- A line of `LOGINFAILLIST`. -/
structure Failure where
  id : Bytes
  ip : Bytes
  time : ℤ
  deriving DecidableEq

/-- The arguments of a call of `addLoginfailList` and its readings of the clock: `time` in the call
itself, `now` in `addBlockList`. -/
structure Attempt where
  sIP : Bytes
  sID : Bytes
  time : ℤ
  now : ℤ

/-! ## Reading -/

/-- `while ($line = fgets($fp,1024))`. -/
def readLines (text : Bytes) : List Bytes := (pieces 10 1023 1023 text).takeWhile Perl.isTrue

/-- `list($ip, $time) = explode(" ",$line)`. -/
def readBlock (line : Bytes) : Bytes × ℤ := (part 32 line 0, intval (part 32 line 1))

/-- `list($id, $ip, $time) = explode(" ",$line)`. -/
def readFailure (line : Bytes) : Failure :=
  ⟨part 32 line 0, part 32 line 1, intval (part 32 line 2)⟩

/-- The lines of `LOGINFAILLIST`. -/
def readFailures (text : Bytes) : List Failure := (readLines text).map readFailure

/-- `$ip.":".$id`. -/
def failKey (ip id : Bytes) : Bytes := ip ++ 58 :: id

/-- The index of a failure in `aLoginfailListID`. -/
def Failure.key (f : Failure) : Bytes := failKey f.ip f.id

/-- The arrays that the constructor fills from such lines. -/
def ofFailures (blocks : List (Bytes × ℤ)) (fs : List Failure) : LoginBlackList where
  aBlockList := .ofList blocks
  aLoginfailListID := .collect (fs.map fun f => (f.key, f.time))
  aLoginfailListIP := .collect (fs.map fun f => (f.ip, f.time))

/-- The constructor. -/
def load (st : Stored) : LoginBlackList :=
  ofFailures ((readLines st.ipDenyList).map readBlock) (readFailures st.loginFailList)

/-! ## Writing -/

/-- The line of a blocked address. -/
def blockLine (e : Bytes × ℤ) : Bytes := e.1 ++ 32 :: (showInt e.2 ++ [10])

/-- The line of a failure. -/
def Failure.line (f : Failure) : Bytes := f.id ++ 32 :: (f.ip ++ 32 :: (showInt f.time ++ [10]))

/-- A file of failures. -/
def failureText (fs : List Failure) : Bytes := fs.flatMap Failure.line

/-- A file of blocked addresses. -/
def blockText (bs : List (Bytes × ℤ)) : Bytes := bs.flatMap blockLine

/-- What `saveBlockList` writes. -/
def LoginBlackList.saveBlockList (l : LoginBlackList) : Bytes := blockText l.aBlockList.entries

/-- The failures of one entry of `aLoginfailListID` that `saveLoginfailList` writes. -/
def LoginBlackList.savedEntry (l : LoginBlackList) (e : Bytes × List ℤ) : List Failure :=
  match l.aLoginfailListIP.lookup (part 58 e.1 0) with
  | none => []
  | some times => (e.2.filter (times.contains ·)).map fun t => ⟨part 58 e.1 1, part 58 e.1 0, t⟩

/-- The failures that `saveLoginfailList` writes. -/
def LoginBlackList.savedFailures (l : LoginBlackList) : List Failure :=
  l.aLoginfailListID.entries.flatMap l.savedEntry

/-- What `saveLoginfailList` writes. -/
def LoginBlackList.saveLoginfailList (l : LoginBlackList) : Bytes := failureText l.savedFailures

/-! ## A failed login -/

/-- The oldest time of a list is not more than five minutes ago, and the list has reached its
maximum. -/
def reached (time max : ℤ) : Option (List ℤ) → Bool
  | none => false
  | some times => time ≤ times.min?.getD 0 + 60 * 5 && max - 1 < times.length

/-- `$bBlock`.  The address is asked in any case, as `$Block` is never set. -/
def LoginBlackList.blocks (c : Limits) (l : LoginBlackList) (sIP sID : Bytes) (time : ℤ) : Bool :=
  reached time c.iUserMaxLoginRetry (l.aLoginfailListID.lookup (failKey sIP sID)) ||
    reached time c.iIPMaxLoginRetry (l.aLoginfailListIP.lookup sIP)

/-- `addBlockList`, without the save. -/
def LoginBlackList.addBlockList (c : Limits) (l : LoginBlackList) (sIP : Bytes) (now : ℤ) :
    LoginBlackList :=
  { l with aBlockList := l.aBlockList.put sIP (now + 60 * c.iDenyTimeAfterMaxLogin) }

/-- The failures of an address are taken out. -/
def LoginBlackList.forget (l : LoginBlackList) (sIP sID : Bytes) : LoginBlackList :=
  { l with
    aLoginfailListID := l.aLoginfailListID.unset (failKey sIP sID)
    aLoginfailListIP := l.aLoginfailListIP.unset sIP }

/-- The times of a list that `$filter` keeps, and the new one. -/
def addTime (time : ℤ) (times : List ℤ) : List ℤ := times.filter (time - 60 * 5 < ·) ++ [time]

/-- A failure is added to the lists. -/
def LoginBlackList.record (l : LoginBlackList) (sIP sID : Bytes) (time : ℤ) : LoginBlackList :=
  { l with
    aLoginfailListID := l.aLoginfailListID.put (failKey sIP sID)
      (addTime time (l.aLoginfailListID.get (failKey sIP sID)))
    aLoginfailListIP := l.aLoginfailListIP.put sIP (addTime time (l.aLoginfailListIP.get sIP)) }

/-- `addLoginfailList`, without the saves. -/
def LoginBlackList.addLoginfailList (c : Limits) (l : LoginBlackList) (a : Attempt) :
    LoginBlackList :=
  if l.blocks c a.sIP a.sID a.time then (l.addBlockList c a.sIP a.now).forget a.sIP a.sID
  else l.record a.sIP a.sID a.time

/-- A request whose login fails: the constructor, `addLoginfailList` and its saves. -/
def request (c : Limits) (st : Stored) (a : Attempt) : Stored :=
  let l := (load st).addLoginfailList c a
  { ipDenyList :=
      if (load st).blocks c a.sIP a.sID a.time then l.saveBlockList else st.ipDenyList
    loginFailList := l.saveLoginfailList }

/-! ## Clean lines -/

/-- The address of a client, as the web server gives it: up to fifteen digits and dots. -/
def isAddress (b : Bytes) : Bool :=
  b ≠ [] && b.length ≤ 15 && b.all fun c => isDigit c || c = 46

/-- Neither a blank nor a colon nor a line end. -/
def isPlainId (b : Bytes) : Bool := !b.contains 32 && !b.contains 58 && !b.contains 10

/-- A failure of a client with a plain id. -/
structure Failure.Plain (f : Failure) : Prop where
  ip : isAddress f.ip = true
  id : isPlainId f.id = true

/-- A failure of a client with a plain id, whose line is read at once. -/
structure Failure.Clean (f : Failure) : Prop extends f.Plain where
  fits : f.line.length < 1024

/-- A block of a client, whose line is read at once. -/
structure CleanBlock (e : Bytes × ℤ) : Prop where
  ip : isAddress e.1 = true
  fits : (blockLine e).length < 1024

instance (f : Failure) : Decidable f.Plain :=
  decidable_of_iff (isAddress f.ip = true ∧ isPlainId f.id = true)
    ⟨fun h => ⟨h.1, h.2⟩, fun h => ⟨h.ip, h.id⟩⟩

instance (f : Failure) : Decidable f.Clean :=
  decidable_of_iff (f.Plain ∧ f.line.length < 1024)
    ⟨fun h => ⟨h.1, h.2⟩, fun h => ⟨h.toPlain, h.fits⟩⟩

instance (e : Bytes × ℤ) : Decidable (CleanBlock e) :=
  decidable_of_iff (isAddress e.1 = true ∧ (blockLine e).length < 1024)
    ⟨fun h => ⟨h.1, h.2⟩, fun h => ⟨h.ip, h.fits⟩⟩

/-- The files hold clean lines, one for each blocked address. -/
structure Stored.Clean (st : Stored) : Prop where
  denyList : ∃ bs : List (Bytes × ℤ), (∀ e ∈ bs, CleanBlock e) ∧ (bs.map Prod.fst).Nodup ∧
    st.ipDenyList = blockText bs
  failList : ∃ fs : List Failure, (∀ f ∈ fs, f.Clean) ∧ st.loginFailList = failureText fs

theorem byte_of_isAddress {b : Bytes} (h : isAddress b = true) {c : UInt8} (hc : c ∈ b) :
    isDigit c = true ∨ c = 46 := by
  simp only [isAddress, Bool.and_eq_true, List.all_eq_true, Bool.or_eq_true,
    decide_eq_true_eq] at h
  exact h.2 c hc

theorem not_mem_of_isAddress {b : Bytes} (h : isAddress b = true) {c : UInt8}
    (hd : isDigit c = false) (hc : c ≠ 46) : c ∉ b := by
  intro hmem
  rcases byte_of_isAddress h hmem with hdigit | hdot
  · rw [hd] at hdigit
    cases hdigit
  · exact hc hdot

theorem ne_nil_of_isAddress {b : Bytes} (h : isAddress b = true) : b ≠ [] := by
  simp only [isAddress, Bool.and_eq_true, decide_eq_true_eq] at h
  exact h.1.1

theorem length_of_isAddress {b : Bytes} (h : isAddress b = true) : b.length ≤ 15 := by
  simp only [isAddress, Bool.and_eq_true, decide_eq_true_eq] at h
  exact h.1.2

theorem isPlainId_iff {b : Bytes} : isPlainId b = true ↔ 32 ∉ b ∧ 58 ∉ b ∧ 10 ∉ b := by
  simp [isPlainId, and_assoc]

/-- A number before a line end. -/
theorem intval_showInt_newline (z : ℤ) : intval (showInt z ++ [10]) = z := by
  rw [← intval_rtrim, rtrim_append_newline, intval_rtrim]
  exact atoi_showInt z

theorem not_mem_number {c : UInt8} (hd : isDigit c = false) (hm : c ≠ 45) (hn : c ≠ 10) (z : ℤ) :
    c ∉ showInt z ++ [10] := by
  rw [List.mem_append, List.mem_singleton, not_or]
  exact ⟨not_mem_showInt hd hm z, hn⟩

/-- The line of a failure without its end. -/
def Failure.body (f : Failure) : Bytes := f.id ++ 32 :: (f.ip ++ 32 :: showInt f.time)

theorem Failure.line_eq (f : Failure) : f.line = f.body ++ [10] := by
  simp [Failure.line, Failure.body]

namespace Failure.Plain

variable {f : Failure} (h : f.Plain)

include h in
theorem readFailure_line : readFailure f.line = f := by
  have hid := (isPlainId_iff.1 h.id).1
  have hip : (32 : UInt8) ∉ f.ip := not_mem_of_isAddress h.ip rfl (by decide)
  have htime := not_mem_number (c := 32) rfl (by decide) (by decide) f.time
  simp [readFailure, Failure.line, part_append hid, part_append hip, part_of_not_mem htime,
    intval_showInt_newline]

include h in
theorem part_key : part 58 f.key 0 = f.ip ∧ part 58 f.key 1 = f.id := by
  have hip : (58 : UInt8) ∉ f.ip := not_mem_of_isAddress h.ip rfl (by decide)
  have hid := (isPlainId_iff.1 h.id).2.1
  simp [Failure.key, failKey, part_append hip, part_of_not_mem hid]

include h in
theorem newline_not_mem_body : 10 ∉ f.body := by
  have hid := (isPlainId_iff.1 h.id).2.2
  have hip : (10 : UInt8) ∉ f.ip := not_mem_of_isAddress h.ip rfl (by decide)
  have htime : (10 : UInt8) ∉ showInt f.time := not_mem_showInt rfl (by decide) f.time
  simp [Failure.body, hid, hip, htime]

end Failure.Plain

/-! ## Reading clean files -/

theorem takeWhile_isTrue_lines (ls : List Bytes) :
    (ls.map (· ++ [10])).takeWhile Perl.isTrue = ls.map (· ++ [10]) := by
  rw [List.takeWhile_eq_self_iff]
  refine List.forall_mem_map.2 fun l _ => ?_
  exact Perl.isTrue_of_mem (c := 10) (by simp) (by decide)

/-- The lines of a file are read one after the other, each in one piece or more. -/
theorem mem_readLines_columnText {ls : List Bytes} (h : ∀ l ∈ ls, 10 ∉ l) {p : Bytes} :
    p ∈ readLines (columnText 10 ls) ↔ ∃ l ∈ ls, p ∈ pieces 10 1023 1023 (l ++ [10]) := by
  have htrue : ∀ p ∈ pieces 10 1023 1023 (columnText 10 ls), Perl.isTrue p = true := by
    intro p hp
    rw [pieces_columnText_eq_flatMap, List.mem_flatMap] at hp
    obtain ⟨l, hl, hp⟩ := hp
    rcases mem_pieces_line (h l hl) (by decide) hp with ⟨d, rfl⟩ | ⟨hlen, -⟩
    · exact Perl.isTrue_of_mem (c := 10) (by simp) (by decide)
    · have hnil : p ≠ [] := by
        rintro rfl
        cases hlen
      have hzero : p ≠ [48] := by
        rintro rfl
        cases hlen
      simp [Perl.isTrue, hnil, hzero]
  rw [readLines, List.takeWhile_eq_self_iff.2 htrue, pieces_columnText_eq_flatMap,
    List.mem_flatMap]

/-- Lines that fit in the buffer are read one by one. -/
theorem readLines_columnText {ls : List Bytes} (h : ∀ l ∈ ls, 10 ∉ l ∧ l.length < 1023) :
    readLines (columnText 10 ls) = ls.map (· ++ [10]) := by
  rw [readLines, pieces_columnText h, takeWhile_isTrue_lines]

theorem failureText_eq (fs : List Failure) :
    failureText fs = columnText 10 (fs.map Failure.body) := by
  rw [failureText, columnText, List.flatMap_map]
  exact List.flatMap_congr fun f _ => f.line_eq

theorem readFailures_failureText {fs : List Failure} (h : ∀ f ∈ fs, f.Clean) :
    readFailures (failureText fs) = fs := by
  have hfits : ∀ l ∈ fs.map Failure.body, 10 ∉ l ∧ l.length < 1023 := by
    refine List.forall_mem_map.2 fun f hf => ⟨(h f hf).newline_not_mem_body, ?_⟩
    have hline := (h f hf).fits
    rw [f.line_eq, List.length_append, List.length_singleton] at hline
    omega
  rw [readFailures, failureText_eq, readLines_columnText hfits, List.map_map, List.map_map]
  refine (List.map_congr_left fun f hf => ?_).trans (List.map_id fs)
  rw [Function.comp_apply, Function.comp_apply, ← f.line_eq, (h f hf).readFailure_line]
  rfl

theorem CleanBlock.readBlock_blockLine {e : Bytes × ℤ} (h : CleanBlock e) :
    readBlock (blockLine e) = e := by
  have hip : (32 : UInt8) ∉ e.1 := not_mem_of_isAddress h.ip rfl (by decide)
  have htime := not_mem_number (c := 32) rfl (by decide) (by decide) e.2
  simp [readBlock, blockLine, part_append hip, part_of_not_mem htime, intval_showInt_newline]

/-- The line of a block without its end. -/
def blockBody (e : Bytes × ℤ) : Bytes := e.1 ++ 32 :: showInt e.2

theorem blockLine_eq (e : Bytes × ℤ) : blockLine e = blockBody e ++ [10] := by
  simp [blockLine, blockBody]

theorem CleanBlock.newline_not_mem_body {e : Bytes × ℤ} (h : CleanBlock e) : 10 ∉ blockBody e := by
  have hip : (10 : UInt8) ∉ e.1 := not_mem_of_isAddress h.ip rfl (by decide)
  have htime : (10 : UInt8) ∉ showInt e.2 := not_mem_showInt rfl (by decide) e.2
  simp [blockBody, hip, htime]

theorem blockText_eq (bs : List (Bytes × ℤ)) : blockText bs = columnText 10 (bs.map blockBody) := by
  rw [blockText, columnText, List.flatMap_map]
  exact List.flatMap_congr fun e _ => blockLine_eq e

theorem readBlock_blockText {bs : List (Bytes × ℤ)} (h : ∀ e ∈ bs, CleanBlock e) :
    (readLines (blockText bs)).map readBlock = bs := by
  have hfits : ∀ l ∈ bs.map blockBody, 10 ∉ l ∧ l.length < 1023 := by
    refine List.forall_mem_map.2 fun e he => ⟨(h e he).newline_not_mem_body, ?_⟩
    have hline := (h e he).fits
    rw [blockLine_eq, List.length_append, List.length_singleton] at hline
    omega
  rw [blockText_eq, readLines_columnText hfits, List.map_map, List.map_map]
  refine (List.map_congr_left fun e he => ?_).trans (List.map_id bs)
  rw [Function.comp_apply, Function.comp_apply, ← blockLine_eq, (h e he).readBlock_blockLine]
  rfl

/-- What the constructor finds in files with clean failures. -/
theorem load_of_failures {deny : Bytes} {bs : List (Bytes × ℤ)} {fs : List Failure}
    (hbs : (readLines deny).map readBlock = bs) (hfs : ∀ f ∈ fs, f.Clean) :
    load ⟨deny, failureText fs⟩ = ofFailures bs fs := by
  rw [load, hbs, readFailures_failureText hfs]

end NoSpam.Login
