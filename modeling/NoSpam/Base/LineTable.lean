import Mathlib.Data.List.Basic

/-!
# Tables in lines

A table is a list of lines, some of which are entries.  A listing says of each entry its place among
the entries and the line it stands on.  An edit of the lines at the line of a listed entry is the
same edit of the entries at its place (`entries_onLines`), if the new line is read as the new entry,
and only then (`eq_some_of_entries_onLines`).
-/

namespace LineTable

variable {α β : Type*}

/-- A listed entry. -/
structure Listed (β : Type*) where
  val : β
  idx : ℕ
  line : ℕ

/-- The entries of lines, after `line` lines and `idx` entries. -/
def listingFrom (parse : α → Option β) : ℕ → ℕ → List α → List (Listed β)
  | _, _, [] => []
  | line, idx, l :: ls =>
      match parse l with
      | some e => ⟨e, idx, line⟩ :: listingFrom parse (line + 1) (idx + 1) ls
      | none => listingFrom parse (line + 1) idx ls

/-- The entries of lines. -/
def listing (parse : α → Option β) (ls : List α) : List (Listed β) := listingFrom parse 0 0 ls

/-- An edit of a table. -/
inductive Edit (β : Type*)
  | create (e : β)
  | modify (old : Listed β) (e : β)
  | delete (old : Listed β)

/-- What is to be deleted or modified is on the list. -/
def Edit.Known (es : List (Listed β)) : Edit β → Prop
  | .create _ => True
  | .modify old _ => old ∈ es
  | .delete old => old ∈ es

/-- The new entry of an edit satisfies `p`. -/
def Edit.New (p : β → Prop) : Edit β → Prop
  | .create e => p e
  | .modify _ e => p e
  | .delete _ => True

/-- The edit of the entries; a new entry comes at the front or at the end. -/
def Edit.onEntries (front : Bool) : Edit β → List β → List β
  | .create e, es => if front then e :: es else es ++ [e]
  | .modify old e, es => es.set old.idx e
  | .delete old, es => es.eraseIdx old.idx

/-- The edit of the lines. -/
def Edit.onLines (front : Bool) (print : β → α) : Edit β → List α → List α
  | .create e, ls => if front then print e :: ls else ls ++ [print e]
  | .modify old e, ls => ls.set old.line (print e)
  | .delete old, ls => ls.eraseIdx old.line

variable {parse : α → Option β} {print : β → α} {front : Bool} {ls : List α} {x : Listed β}

theorem map_val_listingFrom (line idx : ℕ) (ls : List α) :
    (listingFrom parse line idx ls).map Listed.val = ls.filterMap parse := by
  induction ls generalizing line idx with
  | nil => rfl
  | cons l ls ih =>
    rw [listingFrom, List.filterMap_cons]
    cases parse l with
    | none => exact ih _ _
    | some e => exact congrArg (e :: ·) (ih _ _)

theorem map_val_listing (ls : List α) : (listing parse ls).map Listed.val = ls.filterMap parse :=
  map_val_listingFrom 0 0 ls

theorem exists_of_mem_listingFrom {line idx : ℕ} (h : x ∈ listingFrom parse line idx ls) :
    ∃ pre l post, ls = pre ++ l :: post ∧ parse l = some x.val ∧ x.line = line + pre.length ∧
      x.idx = idx + (pre.filterMap parse).length := by
  induction ls generalizing line idx with
  | nil => cases h
  | cons l ls ih =>
    rw [listingFrom] at h
    cases hl : parse l with
    | none =>
      rw [hl] at h
      obtain ⟨pre, l', post, rfl, hval, hline, hidx⟩ := ih h
      refine ⟨l :: pre, l', post, rfl, hval, ?_, ?_⟩
      · rw [hline, List.length_cons]
        omega
      · rw [hidx, List.filterMap_cons_none hl]
    | some e =>
      rw [hl] at h
      rcases List.mem_cons.1 h with rfl | h
      · exact ⟨[], l, ls, rfl, hl, rfl, rfl⟩
      · obtain ⟨pre, l', post, rfl, hval, hline, hidx⟩ := ih h
        refine ⟨l :: pre, l', post, rfl, hval, ?_, ?_⟩
        · rw [hline, List.length_cons]
          omega
        · rw [hidx, List.filterMap_cons_some hl, List.length_cons]
          omega

/-- A listed entry stands on its line, behind as many entries as its place says. -/
theorem exists_of_mem_listing (h : x ∈ listing parse ls) :
    ∃ pre l post, ls = pre ++ l :: post ∧ parse l = some x.val ∧ x.line = pre.length ∧
      x.idx = (pre.filterMap parse).length := by
  obtain ⟨pre, l, post, hls, hval, hline, hidx⟩ := exists_of_mem_listingFrom h
  exact ⟨pre, l, post, hls, hval, by rw [hline, Nat.zero_add], by rw [hidx, Nat.zero_add]⟩

theorem line_lt_of_mem_listing (h : x ∈ listing parse ls) : x.line < ls.length := by
  obtain ⟨pre, l, post, rfl, -, hline, -⟩ := exists_of_mem_listing h
  rw [hline, List.length_append, List.length_cons]
  omega

theorem filterMap_split {pre post : List α} {l : α} {e : β} (h : parse l = some e) :
    (pre ++ l :: post).filterMap parse = pre.filterMap parse ++ e :: post.filterMap parse := by
  rw [List.filterMap_append, List.filterMap_cons_some h]

theorem set_split (pre post : List α) (l l' : α) :
    (pre ++ l :: post).set pre.length l' = pre ++ l' :: post := by
  rw [List.set_append_right _ _ (Nat.le_refl _), Nat.sub_self, List.set_cons_zero]

theorem eraseIdx_split (pre post : List α) (l : α) :
    (pre ++ l :: post).eraseIdx pre.length = pre ++ post := by
  rw [List.eraseIdx_append_of_length_le (Nat.le_refl _), Nat.sub_self, List.eraseIdx_cons_zero]

/-- An edit of the lines is the edit of the entries. -/
theorem entries_onLines {edit : Edit β} (hlisted : edit.Known (listing parse ls))
    (hnew : edit.New fun e => parse (print e) = some e) :
    (edit.onLines front print ls).filterMap parse =
      edit.onEntries front (ls.filterMap parse) := by
  cases edit with
  | create e =>
    have hprint : parse (print e) = some e := hnew
    cases front with
    | false => simp [Edit.onLines, Edit.onEntries, List.filterMap_append, hprint]
    | true => simp [Edit.onLines, Edit.onEntries, hprint]
  | modify old e =>
    obtain ⟨pre, l, post, rfl, hval, hline, hidx⟩ := exists_of_mem_listing hlisted
    rw [Edit.onLines, Edit.onEntries, hline, hidx, set_split, filterMap_split hval, set_split,
      filterMap_split hnew]
  | delete old =>
    obtain ⟨pre, l, post, rfl, hval, hline, hidx⟩ := exists_of_mem_listing hlisted
    rw [Edit.onLines, Edit.onEntries, hline, hidx, eraseIdx_split, filterMap_split hval,
      eraseIdx_split, List.filterMap_append]

/-- What the old lines and the new one satisfy, the lines satisfy behind the edit. -/
theorem forall_mem_onLines {p : α → Prop} {edit : Edit β} (h : ∀ l ∈ ls, p l)
    (hnew : edit.New fun e => p (print e)) : ∀ l ∈ edit.onLines front print ls, p l := by
  intro l hl
  cases edit with
  | create e =>
    have hmem : l = print e ∨ l ∈ ls := by
      cases front with
      | false => simpa [Edit.onLines, or_comm] using hl
      | true => simpa [Edit.onLines] using hl
    rcases hmem with rfl | hmem
    · exact hnew
    · exact h l hmem
  | modify old e =>
    rcases List.mem_or_eq_of_mem_set hl with hmem | rfl
    · exact h l hmem
    · exact hnew
  | delete old => exact h l (List.mem_of_mem_eraseIdx hl)

theorem Edit.New.mono {p q : β → Prop} {edit : Edit β} (h : edit.New p) (hpq : ∀ e, p e → q e) :
    edit.New q := by
  cases edit with
  | create e => exact hpq e h
  | modify old e => exact hpq e h
  | delete old => trivial

theorem toList_eq_singleton {o : Option β} {e : β} (h : o.toList = [e]) : o = some e := by
  cases o with
  | none => cases h
  | some e' => rw [List.singleton_inj.1 h]

/-- Where the edits agree, the new line is read as the new entry. -/
theorem eq_some_of_entries_onLines {edit : Edit β} (hlisted : edit.Known (listing parse ls))
    (h : (edit.onLines front print ls).filterMap parse =
      edit.onEntries front (ls.filterMap parse)) :
    edit.New fun e => parse (print e) = some e := by
  have hcons : ∀ (l : α) (r : List α), (l :: r).filterMap parse =
      (parse l).toList ++ r.filterMap parse := by
    intro l r
    rw [List.filterMap_cons]
    cases parse l <;> rfl
  cases edit with
  | create e =>
    cases front with
    | false =>
      have hlast : ls.filterMap parse ++ (parse (print e)).toList = ls.filterMap parse ++ [e] := by
        rw [← List.append_nil (parse (print e)).toList, ← List.filterMap_nil (f := parse), ← hcons,
          ← List.filterMap_append]
        exact h
      exact toList_eq_singleton (List.append_cancel_left hlast)
    | true =>
      have hfirst : (parse (print e)).toList ++ ls.filterMap parse = [e] ++ ls.filterMap parse := by
        rw [← hcons]
        exact h
      exact toList_eq_singleton (List.append_cancel_right hfirst)
  | modify old e =>
    obtain ⟨pre, l, post, rfl, hval, hline, hidx⟩ := exists_of_mem_listing hlisted
    rw [Edit.onLines, Edit.onEntries, hline, hidx, set_split, filterMap_split hval, set_split,
      List.filterMap_append, hcons] at h
    have hmid := List.append_cancel_left h
    exact toList_eq_singleton (@List.append_cancel_right _ _ (post.filterMap parse) [e] hmid)
  | delete old => trivial

end LineTable
