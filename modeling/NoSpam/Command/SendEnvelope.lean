import NoSpam.Base.Columns
import NoSpam.Command.Quarantine
import NoSpam.Mail.Envelope

/-!
# The envelope of a mail queued again

`send_mail_file_by_queue` writes the envelope from a sender and a text of recipients with commas
between them.  The filter reads it when the mail comes in again: `readEnvelope_sendEnvelope` says
that it reads what was written.
-/

namespace NoSpam.Command

open Text Perl

/-- A sender and recipients. -/
structure Letter where
  sender : Bytes
  recips : List Bytes
  sender_line : ∀ c ∈ sender, c ≠ 10 ∧ c ≠ 0
  recips_ne_nil : recips ≠ []
  ne_nil_of_mem : ∀ r ∈ recips, r ≠ []
  recips_line : ∀ r ∈ recips, ∀ c ∈ r, c ≠ 44 ∧ c ≠ 10 ∧ c ≠ 0

namespace Letter

variable (l : Letter)

/-- The recipients with commas between them. -/
def mailto : Bytes := joinFields 44 l.recips

theorem comma_not_mem {r : Bytes} (h : r ∈ l.recips) : 44 ∉ r :=
  fun hc => (l.recips_line r h 44 hc).1 rfl

theorem nul_not_mem {r : Bytes} (h : r ∈ l.recips) : 0 ∉ r :=
  fun hc => (l.recips_line r h 0 hc).2.2 rfl

theorem fields_mailto : fields 44 l.mailto = l.recips :=
  (fields_joinFields_iff 44 l.recips).2
    ⟨fun _ => l.comma_not_mem, fun hne => l.ne_nil_of_mem _ (List.getLast_mem hne)⟩

end Letter

/-! ## Writing -/

/-- A comma becomes the end of a recipient and the start of the next one. -/
def framed (c : UInt8) : Bytes := if c = 44 then [0, 84] else [c]

theorem flatMap_framed_of_not_mem {r : Bytes} (h : 44 ∉ r) : r.flatMap framed = r := by
  induction r with
  | nil => rfl
  | cons c r ih =>
    rw [List.mem_cons, not_or] at h
    rw [List.flatMap_cons, ih h.2, framed, if_neg (Ne.symm h.1)]
    rfl

theorem flatMap_framed_joinFields {r : Bytes} {rs : List Bytes} (h : ∀ x ∈ r :: rs, 44 ∉ x) :
    (joinFields 44 (r :: rs)).flatMap framed = r ++ rs.flatMap fun x => 0 :: 84 :: x := by
  obtain ⟨hr, hrs⟩ := List.forall_mem_cons.1 h
  rw [joinFields_cons, List.flatMap_append, flatMap_framed_of_not_mem hr]
  congr 1
  induction rs with
  | nil => rfl
  | cons x rs ih =>
    obtain ⟨hx, hrest⟩ := List.forall_mem_cons.1 hrs
    rw [List.flatMap_cons, List.flatMap_append, List.flatMap_cons, flatMap_framed_of_not_mem hx,
      ih (List.forall_mem_cons.2 ⟨hr, hrest⟩) hrest, List.flatMap_cons]
    rfl

/-- A list without an empty recipient does not end in a comma. -/
theorem rdropWhile_mailto (l : Letter) : l.mailto.rdropWhile (· = 44) = l.mailto := by
  have hlast : l.recips.rdropWhile (·.isEmpty) = l.recips := by
    rw [List.rdropWhile_eq_self_iff]
    intro hne
    simpa using l.ne_nil_of_mem _ (List.getLast_mem hne)
  have hcolumns : (columnText 44 l.recips).rdropWhile (· = 44) = l.mailto := by
    rw [rdropWhile_columnText fun _ => l.comma_not_mem, hlast, Letter.mailto]
  rw [← hcolumns]
  exact List.rdropWhile_idempotent _ _

/-- The envelope that is written is the one on the wire. -/
theorem sendEnvelope_mailto (l : Letter) :
    sendEnvelope l.sender l.mailto = 70 :: l.sender ++ 0 :: Envelope.encodeRecips l.recips := by
  have hframed : (if 44 ∈ l.mailto then (l.mailto.rdropWhile (· = 44)).flatMap framed
      else l.mailto) = l.mailto.flatMap framed := by
    split_ifs with hcomma
    · rw [rdropWhile_mailto]
    · rw [flatMap_framed_of_not_mem hcomma]
  obtain ⟨r, rs, hrecips⟩ := List.exists_cons_of_ne_nil l.recips_ne_nil
  have hwire : 84 :: (l.mailto.flatMap framed ++ [0, 0]) = Envelope.encodeRecips l.recips := by
    have hnul := Envelope.nul_cons_encodeRecips rs
    rw [Letter.mailto, hrecips, flatMap_framed_joinFields (by
      rw [← hrecips]
      exact fun _ => l.comma_not_mem), List.append_assoc, ← hnul, Envelope.encodeRecips,
      Envelope.encodeRecips, List.flatMap_cons]
    simp
  rw [← hwire, ← hframed]
  rfl

/-! ## Reading -/

/-- **The filter reads the envelope that was written**: the same sender, the same recipients in the
same order, and two NULs at the end. -/
theorem readEnvelope_sendEnvelope (l : Letter) (a : Aka) :
    let read := readEnvelope { a with fd1 := sendEnvelope l.sender (joinFields 44 l.recips) }
    read.returnpath = l.sender ∧ fields 44 read.recips = l.recips ∧
      ∃ framedRecips, read.envRecips = framedRecips ++ [0, 0] ∧
        framedRecips.getLast? ≠ some 0 := by
  have hsender : 0 ∉ 70 :: l.sender := by
    rw [List.mem_cons, not_or]
    exact ⟨by decide, fun h => (l.sender_line 0 h).2 rfl⟩
  have hcut : cutAt 0 (sendEnvelope l.sender l.mailto) =
      (70 :: l.sender, some (Envelope.encodeRecips l.recips)) := by
    rw [sendEnvelope_mailto, cutAt_append hsender]
  have hrecips := Envelope.recipsOf_encodeRecips (fun r => @Letter.nul_not_mem l r) l.sender
  have hread : fields 44 (joinFields 44 l.recips) = l.recips := l.fields_mailto
  rw [Letter.mailto] at hcut
  simp only [readEnvelope, hcut, List.head?_cons, if_true, List.tail_cons, Option.getD_some,
    hrecips, hread, true_and]
  obtain ⟨rs, r, hlast⟩ := (List.eq_nil_or_concat l.recips).resolve_left l.recips_ne_nil
  rw [List.concat_eq_append] at hlast
  have hmem : r ∈ l.recips := by
    rw [hlast]
    exact List.mem_append_right rs List.mem_cons_self
  refine ⟨rs.flatMap (fun r => 84 :: r ++ [0]) ++ 84 :: r, ?_, ?_⟩
  · rw [hlast, Envelope.encodeRecips]
    simp
  · rw [List.getLast?_append_of_ne_nil _ (List.cons_ne_nil _ _),
      List.getLast?_eq_some_getLast (List.cons_ne_nil _ _),
      List.getLast_cons (l.ne_nil_of_mem r hmem)]
    intro hnul
    exact l.nul_not_mem hmem (Option.some_inj.1 hnul ▸ List.getLast_mem _)

/-- A bounce for two recipients. -/
def bounce : Letter where
  sender := []
  recips := [bytes "ann@a.cn", bytes "Tom Bo@b.cn"]
  sender_line := nofun
  recips_ne_nil := List.cons_ne_nil _ _
  ne_nil_of_mem := by decide +kernel
  recips_line := by decide +kernel

theorem readEnvelope_bounce :
    fields 44
        (readEnvelope { fd1 := sendEnvelope [] (joinFields 44 bounce.recips) }).recips =
      bounce.recips :=
  (readEnvelope_sendEnvelope bounce {}).2.1

end NoSpam.Command
