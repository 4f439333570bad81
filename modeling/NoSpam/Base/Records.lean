import NoSpam.Base.Columns

/-!
# Files of records

A record is a row of fields joined by a separator, a file the rows with a line end after each
(`tableText`).  A text has room for as many separators and line ends as its rows call for: what has
the text of a clean file, and not fewer rows, is that file (`rows_eq_of_tableText_eq`).  Read by
pieces of bounded size (`pieces`), a file comes back row by row if every row fits in a piece.
-/

namespace Text

variable {α : Type*}

/-- The text of a file of rows. -/
def tableText (sep nl : α) (rows : List (List (List α))) : List α :=
  columnText nl (rows.map (joinFields sep))

/-- Neither the separator nor the line end is in a field. -/
def CleanRow (sep nl : α) (row : List (List α)) : Prop := ∀ f ∈ row, sep ∉ f ∧ nl ∉ f

instance [DecidableEq α] (sep nl : α) (row : List (List α)) : Decidable (CleanRow sep nl row) :=
  inferInstanceAs (Decidable (∀ f ∈ row, _ ∧ _))

/-! ## Pieces -/

section Pieces

variable [DecidableEq α]

/-- The text in pieces: each ends after a line end or after `room` symbols, the first after `left`
symbols. -/
def pieces (nl : α) (room : ℕ) : ℕ → List α → List (List α)
  | _, [] => []
  | left, c :: l =>
      if c = nl ∨ left ≤ 1 then [c] :: pieces nl room room l
      else
        match pieces nl room (left - 1) l with
        | [] => [[c]]
        | f :: fs => (c :: f) :: fs

theorem pieces_append_cons {nl : α} {room left : ℕ} {l : List α} (h : nl ∉ l) (hl : l.length < left)
    (r : List α) :
    pieces nl room left (l ++ nl :: r) = (l ++ [nl]) :: pieces nl room room r := by
  induction l generalizing left with
  | nil => simp [pieces]
  | cons c l ih =>
    rw [List.mem_cons, not_or] at h
    rw [List.length_cons] at hl
    have hc : ¬(c = nl ∨ left ≤ 1) := by
      rintro (rfl | hle)
      · exact h.1 rfl
      · omega
    rw [List.cons_append, pieces, if_neg hc, ih h.2 (by omega)]
    rfl

/-- Lines that fit are the pieces. -/
theorem pieces_columnText {nl : α} {room : ℕ} {ls : List (List α)}
    (h : ∀ l ∈ ls, nl ∉ l ∧ l.length < room) :
    pieces nl room room (columnText nl ls) = ls.map (· ++ [nl]) := by
  induction ls with
  | nil => rfl
  | cons l ls ih =>
    obtain ⟨hl, hls⟩ := List.forall_mem_cons.1 h
    rw [columnText_cons, pieces_append_cons hl.1 hl.2, ih hls, List.map_cons]

theorem flatten_pieces (nl : α) (room left : ℕ) (l : List α) :
    (pieces nl room left l).flatten = l := by
  induction l generalizing left with
  | nil => rfl
  | cons c l ih =>
    rw [pieces]
    split_ifs
    · rw [List.flatten_cons, ih]
      rfl
    · have htail := ih (left - 1)
      cases hps : pieces nl room (left - 1) l with
      | nil =>
        rw [hps] at htail
        rw [← htail]
        rfl
      | cons f fs =>
        rw [hps] at htail
        rw [← htail]
        rfl

theorem mem_of_mem_pieces {nl c : α} {room left : ℕ} {l p : List α}
    (hp : p ∈ pieces nl room left l) (hc : c ∈ p) : c ∈ l := by
  rw [← flatten_pieces nl room left l]
  exact List.mem_flatten.2 ⟨p, hp, hc⟩

/-- A line end is only at the end of a piece. -/
theorem not_mem_dropLast_of_mem_pieces {nl : α} {room left : ℕ} {l p : List α}
    (hp : p ∈ pieces nl room left l) : nl ∉ p.dropLast := by
  induction l generalizing left p with
  | nil => cases hp
  | cons c l ih =>
    rw [pieces] at hp
    split_ifs at hp with hc
    · rcases List.mem_cons.1 hp with rfl | hp
      · exact List.not_mem_nil
      · exact ih hp
    · rw [not_or] at hc
      cases hps : pieces nl room (left - 1) l with
      | nil =>
        rw [hps] at hp
        rw [List.mem_singleton.1 hp]
        exact List.not_mem_nil
      | cons f fs =>
        rw [hps] at hp
        rcases List.mem_cons.1 hp with rfl | hp
        · have hf := ih (hps ▸ List.mem_cons_self : f ∈ pieces nl room (left - 1) l)
          cases f with
          | nil => exact List.not_mem_nil
          | cons c' f =>
            rw [List.dropLast_cons_cons, List.mem_cons, not_or]
            exact ⟨Ne.symm hc.1, hf⟩
        · exact ih (hps ▸ List.mem_cons_of_mem f hp : p ∈ pieces nl room (left - 1) l)

/-- The first piece begins with a text that fits into it. -/
theorem exists_pieces_eq_cons {nl : α} {l x : List α} (h : nl ∉ l) (hx : x ≠ []) {left : ℕ}
    (hl : l.length ≤ left) (room : ℕ) :
    ∃ y ps, pieces nl room left (l ++ x) = (l ++ y) :: ps ∧ y <+: x := by
  induction l generalizing left with
  | nil =>
    obtain ⟨c, x, rfl⟩ := List.exists_cons_of_ne_nil hx
    have hflatten := flatten_pieces nl room left (c :: x)
    cases hps : pieces nl room left (c :: x) with
    | nil =>
      rw [hps] at hflatten
      cases hflatten
    | cons y ps =>
      rw [hps] at hflatten
      exact ⟨y, ps, hps, ps.flatten, hflatten⟩
  | cons c l ih =>
    rw [List.mem_cons, not_or] at h
    rw [List.length_cons] at hl
    rw [List.cons_append, pieces]
    by_cases hleft : left ≤ 1
    · obtain rfl : l = [] := List.eq_nil_of_length_eq_zero (by omega)
      rw [if_pos (Or.inr hleft)]
      exact ⟨[], _, rfl, List.nil_prefix⟩
    · obtain ⟨y, ps, hps, hy⟩ := @ih h.2 (left - 1) (by omega)
      rw [if_neg (not_or.2 ⟨Ne.symm h.1, hleft⟩), hps]
      exact ⟨y, ps, rfl, hy⟩

omit [DecidableEq α] in
/-- What holds for the first piece and for the others holds for every piece. -/
theorem length_le_of_head_tail {ps : List (List α)} {n : ℕ} (hhead : ∀ p ∈ ps.head?, p.length ≤ n)
    (htail : ∀ p ∈ ps.tail, p.length ≤ n) : ∀ p ∈ ps, p.length ≤ n := by
  intro p hp
  cases ps with
  | nil => cases hp
  | cons q qs =>
    rcases List.mem_cons.1 hp with rfl | hp
    · exact hhead _ rfl
    · exact htail _ hp

/-- No piece has more than `room` symbols, and the first not more than `left`. -/
theorem length_pieces_le (nl : α) {room left : ℕ} (hroom : 0 < room) (hleft : 0 < left)
    (l : List α) :
    (∀ p ∈ (pieces nl room left l).head?, p.length ≤ left) ∧
      ∀ p ∈ (pieces nl room left l).tail, p.length ≤ room := by
  induction l generalizing left with
  | nil => exact ⟨nofun, nofun⟩
  | cons c l ih =>
    rw [pieces]
    split_ifs with hc
    · obtain ⟨hhead, htail⟩ := ih hroom
      refine ⟨fun p hp => ?_, fun p hp => ?_⟩
      · rw [← Option.some.inj hp]
        exact hleft
      · rw [List.tail_cons] at hp
        exact length_le_of_head_tail hhead htail p hp
    · rw [not_or] at hc
      obtain ⟨hhead, htail⟩ := @ih (left - 1) (by omega)
      cases hps : pieces nl room (left - 1) l with
      | nil =>
        refine ⟨fun p hp => ?_, nofun⟩
        rw [← Option.some.inj hp]
        exact hleft
      | cons q qs =>
        rw [hps] at hhead htail
        refine ⟨fun p hp => ?_, htail⟩
        have hq := hhead q rfl
        rw [← Option.some.inj hp, List.length_cons]
        omega

theorem length_le_of_mem_pieces {nl : α} {room : ℕ} {l p : List α} (hroom : 0 < room)
    (hp : p ∈ pieces nl room room l) : p.length ≤ room := by
  obtain ⟨hhead, htail⟩ := length_pieces_le nl hroom hroom l
  exact length_le_of_head_tail hhead htail p hp

/-- The pieces of a line do not depend on what follows it. -/
theorem pieces_append_newline (nl : α) (room : ℕ) {left : ℕ} (l r : List α) :
    pieces nl room left (l ++ nl :: r) =
      pieces nl room left (l ++ [nl]) ++ pieces nl room room r := by
  induction l generalizing left with
  | nil => simp [pieces]
  | cons c l ih =>
    rw [List.cons_append, List.cons_append, pieces, pieces]
    split_ifs with hc
    · rw [ih, List.cons_append]
    · rw [ih]
      have hne : pieces nl room (left - 1) (l ++ [nl]) ≠ [] := by
        cases l with
        | nil => simp [pieces]
        | cons c' l =>
          rw [List.cons_append, pieces]
          split_ifs
          · exact List.cons_ne_nil _ _
          · cases pieces nl room (left - 1 - 1) (l ++ [nl]) <;> exact List.cons_ne_nil _ _
      obtain ⟨f, fs, hfs⟩ := List.exists_cons_of_ne_nil hne
      rw [hfs]
      rfl

/-- A file is read line by line. -/
theorem pieces_columnText_eq_flatMap (nl : α) (room : ℕ) (ls : List (List α)) :
    pieces nl room room (columnText nl ls) =
      ls.flatMap fun l => pieces nl room room (l ++ [nl]) := by
  induction ls with
  | nil => rfl
  | cons l ls ih => rw [columnText_cons, pieces_append_newline, ih, List.flatMap_cons]

/-- A line that does not fit is cut. -/
theorem pieces_of_le {nl : α} {room left : ℕ} {l : List α} (h : nl ∉ l) (hpos : 0 < left)
    (hl : left ≤ l.length) :
    pieces nl room left (l ++ [nl]) = l.take left :: pieces nl room room (l.drop left ++ [nl]) := by
  induction l generalizing left with
  | nil => exact absurd hl (by rw [List.length_nil]; omega)
  | cons c l ih =>
    rw [List.mem_cons, not_or] at h
    rw [List.length_cons] at hl
    rw [List.cons_append, pieces]
    by_cases hleft : left ≤ 1
    · obtain rfl : left = 1 := by omega
      rw [if_pos (Or.inr hleft)]
      rfl
    · have hc : ¬(c = nl ∨ left ≤ 1) := by
        rintro (rfl | hle)
        · exact h.1 rfl
        · exact hleft hle
      obtain ⟨n, rfl⟩ : ∃ n, left = n + 1 := ⟨left - 1, by omega⟩
      rw [if_neg hc, Nat.add_sub_cancel, ih h.2 (by omega) (by omega)]
      rfl

/-- The pieces of a line: it fits, or it is cut and its remainder is read in the same way. -/
theorem pieces_line {nl : α} {room : ℕ} {l : List α} (h : nl ∉ l) (hpos : 0 < room) :
    pieces nl room room (l ++ [nl]) =
      if l.length < room then [l ++ [nl]]
      else l.take room :: pieces nl room room (l.drop room ++ [nl]) := by
  split_ifs with hfits
  · exact pieces_append_cons h hfits []
  · exact pieces_of_le h hpos (Nat.not_lt.1 hfits)

/-- A piece of a line is what remains of it, or it is full. -/
theorem mem_pieces_line {nl : α} {room : ℕ} {l p : List α} (h : nl ∉ l) (hpos : 0 < room)
    (hp : p ∈ pieces nl room room (l ++ [nl])) :
    (∃ d, p = l.drop d ++ [nl]) ∨ p.length = room ∧ nl ∉ p := by
  induction hn : l.length using Nat.strong_induction_on generalizing l with
  | _ n ih =>
    subst hn
    rw [pieces_line h hpos] at hp
    split_ifs at hp with hfits
    · exact Or.inl ⟨0, List.mem_singleton.1 hp⟩
    · rcases List.mem_cons.1 hp with rfl | hp
      · refine Or.inr ⟨?_, fun hmem => h (List.mem_of_mem_take hmem)⟩
        rw [List.length_take]
        omega
      · have hlt : (l.drop room).length < l.length := by
          rw [List.length_drop]
          omega
        rcases ih _ hlt (fun hmem => h (List.mem_of_mem_drop hmem)) hp rfl with ⟨d, rfl⟩ | hfull
        · rw [List.drop_drop]
          exact Or.inl ⟨room + d, rfl⟩
        · exact Or.inr hfull

/-- The last piece of a line that does not fit is what remains after so many symbols. -/
theorem exists_drop_mem_pieces {nl : α} {room : ℕ} {l : List α} (h : nl ∉ l) (hpos : 0 < room)
    (hl : room ≤ l.length) :
    ∃ d, room ≤ d ∧ l.drop d ++ [nl] ∈ pieces nl room room (l ++ [nl]) := by
  induction hn : l.length using Nat.strong_induction_on generalizing l with
  | _ n ih =>
    subst hn
    have hdrop : nl ∉ l.drop room := fun hmem => h (List.mem_of_mem_drop hmem)
    rw [pieces_line h hpos, if_neg (by omega)]
    by_cases hfits : (l.drop room).length < room
    · refine ⟨room, Nat.le_refl _, List.mem_cons_of_mem _ ?_⟩
      rw [pieces_line hdrop hpos, if_pos hfits]
      exact List.mem_cons_self
    · have hlt : (l.drop room).length < l.length := by
        rw [List.length_drop]
        omega
      obtain ⟨d, hd, hmem⟩ := ih _ hlt hdrop (by omega) rfl
      refine ⟨room + d, by omega, List.mem_cons_of_mem _ ?_⟩
      rwa [List.drop_drop] at hmem

end Pieces

/-! ## Rows -/

section Rows

variable [DecidableEq α] {sep nl : α}

omit [DecidableEq α] in
theorem CleanRow.not_mem_joinFields {row : List (List α)} (h : CleanRow sep nl row)
    (hne : nl ≠ sep) : nl ∉ joinFields sep row := by
  intro hmem
  rcases mem_of_mem_joinFields hmem with heq | ⟨f, hf, hnl⟩
  · exact hne heq
  · exact (h f hf).2 hnl

omit [DecidableEq α] in
theorem mem_joinFields {c : α} {f : List α} {row : List (List α)} (hf : f ∈ row) (hc : c ∈ f) :
    c ∈ joinFields sep row := by
  cases row with
  | nil => exact absurd hf List.not_mem_nil
  | cons g row =>
    rw [joinFields_cons, List.mem_append, List.mem_flatMap]
    rcases List.mem_cons.1 hf with rfl | hf
    · exact Or.inl hc
    · exact Or.inr ⟨f, hf, List.mem_cons_of_mem sep hc⟩

theorem count_joinFields (sep : α) {row : List (List α)} (h : row ≠ []) :
    (joinFields sep row).count sep + 1 = (columnText sep row).count sep := by
  rw [← joinFields_append_sep sep h, List.count_append, List.count_singleton_self]

theorem count_columnText {fs : List (List α)} (h : ∀ f ∈ fs, sep ∉ f) :
    (columnText sep fs).count sep = fs.length := by
  induction fs with
  | nil => rfl
  | cons f fs ih =>
    obtain ⟨hf, hfs⟩ := List.forall_mem_cons.1 h
    rw [count_columnText_cons, List.count_eq_zero.2 hf, ih hfs, List.length_cons, Nat.zero_add]

variable {n : ℕ} {row : List (List α)} {rows rows' : List (List (List α))}

theorem le_count_joinFields (sep : α) (h : row.length = n + 1) :
    n ≤ (joinFields sep row).count sep := by
  have hcount := count_joinFields sep (List.ne_nil_of_length_eq_add_one h)
  have hle := length_le_count_columnText sep row
  omega

theorem count_joinFields_of_not_mem (h : row.length = n + 1) (hclean : ∀ f ∈ row, sep ∉ f) :
    (joinFields sep row).count sep = n := by
  have hcount := count_joinFields sep (List.ne_nil_of_length_eq_add_one h)
  rw [count_columnText hclean] at hcount
  omega

theorem not_mem_of_count_joinFields_le (h : row.length = n + 1)
    (hle : (joinFields sep row).count sep ≤ n) : ∀ f ∈ row, sep ∉ f := by
  have hcount := count_joinFields sep (List.ne_nil_of_length_eq_add_one h)
  exact not_mem_of_count_columnText_le (by omega)

theorem count_tableText_cons (hne : sep ≠ nl) (row : List (List α)) :
    (tableText sep nl (row :: rows)).count sep =
      (joinFields sep row).count sep + (tableText sep nl rows).count sep := by
  rw [tableText, List.map_cons, columnText_cons, List.count_append,
    List.count_cons_of_ne (Ne.symm hne)]
  rfl

theorem le_count_tableText (hne : sep ≠ nl) (hw : ∀ row ∈ rows, row.length = n + 1) :
    n * rows.length ≤ (tableText sep nl rows).count sep := by
  induction rows with
  | nil => exact Nat.zero_le _
  | cons row rows ih =>
    obtain ⟨hrow, hrows⟩ := List.forall_mem_cons.1 hw
    rw [count_tableText_cons hne, List.length_cons, Nat.mul_succ, Nat.add_comm]
    exact Nat.add_le_add (le_count_joinFields sep hrow) (ih hrows)

theorem count_tableText (hne : sep ≠ nl) (hw : ∀ row ∈ rows, row.length = n + 1)
    (h : ∀ row ∈ rows, ∀ f ∈ row, sep ∉ f) :
    (tableText sep nl rows).count sep = n * rows.length := by
  induction rows with
  | nil => rfl
  | cons row rows ih =>
    obtain ⟨hrow, hrows⟩ := List.forall_mem_cons.1 hw
    obtain ⟨hclean, hcleans⟩ := List.forall_mem_cons.1 h
    rw [count_tableText_cons hne, count_joinFields_of_not_mem hrow hclean, ih hrows hcleans,
      List.length_cons, Nat.mul_succ, Nat.add_comm]

/-- A text without separators to spare has none in a field. -/
theorem not_mem_of_count_tableText_le (hne : sep ≠ nl) (hw : ∀ row ∈ rows, row.length = n + 1)
    (h : (tableText sep nl rows).count sep ≤ n * rows.length) :
    ∀ row ∈ rows, ∀ f ∈ row, sep ∉ f := by
  induction rows with
  | nil => exact fun row hrow => absurd hrow List.not_mem_nil
  | cons row rows ih =>
    obtain ⟨hrow, hrows⟩ := List.forall_mem_cons.1 hw
    have hle := le_count_joinFields sep hrow
    have hles := le_count_tableText hne hrows
    rw [count_tableText_cons hne, List.length_cons, Nat.mul_succ] at h
    exact List.forall_mem_cons.2
      ⟨not_mem_of_count_joinFields_le hrow (by omega), ih hrows (by omega)⟩

theorem joinFields_injective_of_clean {row row' : List (List α)} (hne : row ≠ [])
    (hne' : row' ≠ []) (h : CleanRow sep nl row) (h' : CleanRow sep nl row')
    (he : joinFields sep row = joinFields sep row') : row = row' := by
  have hsplit := congrArg (List.splitOn sep) he
  rwa [joinFields, joinFields, List.splitOn_intercalate sep (fun f hf => (h f hf).1) hne,
    List.splitOn_intercalate sep (fun f hf => (h' f hf).1) hne'] at hsplit

/-- Clean files with the same text are the same. -/
theorem tableText_injective_of_clean (hne : sep ≠ nl) (hnil : ∀ row ∈ rows, row ≠ [])
    (hnil' : ∀ row ∈ rows', row ≠ []) (h : ∀ row ∈ rows, CleanRow sep nl row)
    (h' : ∀ row ∈ rows', CleanRow sep nl row)
    (he : tableText sep nl rows = tableText sep nl rows') : rows = rows' := by
  have hlines : ∀ {rows : List (List (List α))}, (∀ row ∈ rows, CleanRow sep nl row) →
      (tableText sep nl rows).splitOn nl = rows.map (joinFields sep) ++ [[]] := by
    intro rows hrows
    have hnl : ∀ l ∈ rows.map (joinFields sep), nl ∉ l :=
      List.forall_mem_map.2 fun row hrow => (hrows row hrow).not_mem_joinFields hne.symm
    have hread := splitOn_columnText_append hnl []
    rwa [List.append_nil, List.splitOn_nil] at hread
  have hmap : rows.map (joinFields sep) = rows'.map (joinFields sep) := by
    have hsplit := congrArg (List.splitOn nl) he
    rw [hlines h, hlines h'] at hsplit
    exact List.append_cancel_right hsplit
  have hlength : rows.length = rows'.length := by
    have hlengths := congrArg List.length hmap
    rwa [List.length_map, List.length_map] at hlengths
  refine List.ext_getElem hlength fun i hi hi' => ?_
  have hrow := List.getElem_mem hi
  have hrow' := List.getElem_mem hi'
  have hfields := List.getElem_of_eq hmap (by rwa [List.length_map])
  rw [List.getElem_map, List.getElem_map] at hfields
  exact joinFields_injective_of_clean (hnil _ hrow) (hnil' _ hrow') (h _ hrow) (h' _ hrow') hfields

/-- A file with the text of a clean one, and not fewer rows, is clean: the line ends are all in
place, and with them the separators. -/
theorem clean_of_tableText_eq (hne : sep ≠ nl) (hw : ∀ row ∈ rows, row.length = n + 1)
    (hw' : ∀ row ∈ rows', row.length = n + 1) (hclean : ∀ row ∈ rows', CleanRow sep nl row)
    (he : tableText sep nl rows = tableText sep nl rows') (hlen : rows'.length ≤ rows.length) :
    ∀ row ∈ rows, CleanRow sep nl row := by
  have hlines' : ∀ l ∈ rows'.map (joinFields sep), nl ∉ l :=
    List.forall_mem_map.2 fun row hrow => (hclean row hrow).not_mem_joinFields hne.symm
  have hnl : (tableText sep nl rows).count nl = rows'.length := by
    rw [he, tableText, count_columnText hlines', List.length_map]
  have hle := length_le_count_columnText nl (rows.map (joinFields sep))
  rw [List.length_map] at hle
  have hlength : rows.length = rows'.length := Nat.le_antisymm (hle.trans hnl.le) hlen
  have hlines : ∀ l ∈ rows.map (joinFields sep), nl ∉ l := by
    refine not_mem_of_count_columnText_le ?_
    rw [List.length_map, hlength]
    exact hnl.le
  have hsep : (tableText sep nl rows).count sep ≤ n * rows.length := by
    rw [he, hlength, count_tableText hne hw' fun row hrow f hf => (hclean row hrow f hf).1]
  have hseps := not_mem_of_count_tableText_le hne hw hsep
  exact fun row hrow f hf => ⟨hseps row hrow f hf, fun hmem =>
    hlines _ (List.mem_map_of_mem hrow) (mem_joinFields hf hmem)⟩

/-- **No room for forgery.**  A file with the text of a clean one, and not fewer rows, has its
rows. -/
theorem rows_eq_of_tableText_eq (hne : sep ≠ nl) (hw : ∀ row ∈ rows, row.length = n + 1)
    (hw' : ∀ row ∈ rows', row.length = n + 1) (hclean : ∀ row ∈ rows', CleanRow sep nl row)
    (he : tableText sep nl rows = tableText sep nl rows') (hlen : rows'.length ≤ rows.length) :
    rows = rows' := by
  have hrows := clean_of_tableText_eq hne hw hw' hclean he hlen
  exact tableText_injective_of_clean hne
    (fun row hrow => List.ne_nil_of_length_eq_add_one (hw row hrow))
    (fun row hrow => List.ne_nil_of_length_eq_add_one (hw' row hrow)) hrows hclean he

end Rows

end Text
