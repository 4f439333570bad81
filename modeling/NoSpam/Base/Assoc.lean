import Mathlib.Data.List.Nodup

/-!
# Maps in the order of insertion

Maps whose entries have an order, as the arrays of PHP have one: an entry that is overwritten keeps
its place, a new one comes last (`put`).  Values can be collected in lists under their keys: what
stands under a key is what was pushed there, in the order of the pushes (`get_collect`).
-/

/-- A list of entries with one entry for each key. -/
@[ext]
structure Assoc (κ ν : Type*) where
  entries : List (κ × ν)
  nodup : (entries.map Prod.fst).Nodup

namespace Assoc

variable {κ ν : Type*} [DecidableEq κ]

/-- No entries. -/
def empty : Assoc κ ν := ⟨[], List.nodup_nil⟩

/-- The value of the first entry with this key. -/
def find (k : κ) : List (κ × ν) → Option ν
  | [] => none
  | e :: l => if e.1 = k then some e.2 else find k l

/-- The value under a key. -/
def lookup (m : Assoc κ ν) (k : κ) : Option ν := find k m.entries

/-- Overwrite the first entry with this key, or add one at the end. -/
def putEntry (k : κ) (v : ν) : List (κ × ν) → List (κ × ν)
  | [] => [(k, v)]
  | e :: l => if e.1 = k then (k, v) :: l else e :: putEntry k v l

theorem fst_mem_putEntry {k k' : κ} {v : ν} {l : List (κ × ν)}
    (h : k' ∈ (putEntry k v l).map Prod.fst) : k' = k ∨ k' ∈ l.map Prod.fst := by
  induction l with
  | nil => exact Or.inl (List.mem_singleton.1 h)
  | cons e l ih =>
    rw [putEntry] at h
    split_ifs at h with he
    · rcases List.mem_cons.1 h with rfl | h
      · exact Or.inl rfl
      · exact Or.inr (List.mem_cons_of_mem _ h)
    · rcases List.mem_cons.1 h with rfl | h
      · exact Or.inr List.mem_cons_self
      · exact (ih h).imp_right (List.mem_cons_of_mem _)

theorem nodup_putEntry (k : κ) (v : ν) {l : List (κ × ν)} (h : (l.map Prod.fst).Nodup) :
    ((putEntry k v l).map Prod.fst).Nodup := by
  induction l with
  | nil => exact List.nodup_singleton k
  | cons e l ih =>
    obtain ⟨hnot, hl⟩ := List.nodup_cons.1 h
    rw [putEntry]
    split_ifs with he
    · exact List.nodup_cons.2 ⟨he ▸ hnot, hl⟩
    · refine List.nodup_cons.2 ⟨fun hmem => ?_, ih hl⟩
      rcases fst_mem_putEntry hmem with hk | hmem
      · exact he hk
      · exact hnot hmem

/-- `$m[$k] = $v`. -/
def put (m : Assoc κ ν) (k : κ) (v : ν) : Assoc κ ν :=
  ⟨putEntry k v m.entries, nodup_putEntry k v m.nodup⟩

/-- The entries that satisfy `p`. -/
def filter (m : Assoc κ ν) (p : κ × ν → Bool) : Assoc κ ν :=
  ⟨m.entries.filter p, m.nodup.sublist (List.filter_sublist.map Prod.fst)⟩

/-- `unset($m[$k])`. -/
def unset (m : Assoc κ ν) (k : κ) : Assoc κ ν := m.filter (fun e => e.1 ≠ k)

/-- The entries put one after the other. -/
def ofList (l : List (κ × ν)) : Assoc κ ν := l.foldl (fun m e => m.put e.1 e.2) empty

/-! ## Lookups -/

@[simp] theorem lookup_empty (k : κ) : (empty : Assoc κ ν).lookup k = none := rfl

theorem mem_of_find {k : κ} {v : ν} {l : List (κ × ν)} (h : find k l = some v) : (k, v) ∈ l := by
  induction l with
  | nil => cases h
  | cons e l ih =>
    rw [find] at h
    split_ifs at h with he
    · cases h
      exact he ▸ List.mem_cons_self
    · exact List.mem_cons_of_mem e (ih h)

theorem find_of_mem {e : κ × ν} {l : List (κ × ν)} (hl : (l.map Prod.fst).Nodup) (h : e ∈ l) :
    find e.1 l = some e.2 := by
  induction l with
  | nil => cases h
  | cons e' l ih =>
    obtain ⟨hnot, hl⟩ := List.nodup_cons.1 hl
    rcases List.mem_cons.1 h with rfl | h
    · exact if_pos rfl
    · rw [find, if_neg, ih hl h]
      rintro he
      exact hnot (he ▸ List.mem_map_of_mem h)

theorem mem_entries_iff {m : Assoc κ ν} {k : κ} {v : ν} :
    (k, v) ∈ m.entries ↔ m.lookup k = some v :=
  ⟨find_of_mem m.nodup, mem_of_find⟩

theorem find_putEntry (k k' : κ) (v : ν) (l : List (κ × ν)) :
    find k' (putEntry k v l) = if k' = k then some v else find k' l := by
  induction l with
  | nil =>
    rw [putEntry, find]
    simp only [find, eq_comm]
  | cons e l ih =>
    rw [putEntry]
    split_ifs with he hk hk
    · exact if_pos hk.symm
    · rw [find, find, if_neg (Ne.symm hk), if_neg (he ▸ Ne.symm hk)]
    · rw [find, ih, if_pos hk, if_neg (hk ▸ he)]
    · rw [find, find, ih, if_neg hk]

theorem lookup_put (m : Assoc κ ν) (k k' : κ) (v : ν) :
    (m.put k v).lookup k' = if k' = k then some v else m.lookup k' := find_putEntry k k' v m.entries

/-- The order of the entries does not matter where each key stands once. -/
theorem find_perm {l l' : List (κ × ν)} (h : l.Perm l') (hl : (l'.map Prod.fst).Nodup) (k : κ) :
    find k l = find k l' := by
  have hnodup : (l.map Prod.fst).Nodup := (h.map Prod.fst).nodup_iff.2 hl
  refine Option.ext fun v => ?_
  constructor
  · intro hv
    exact find_of_mem (e := (k, v)) hl (h.subset (mem_of_find hv))
  · intro hv
    exact find_of_mem (e := (k, v)) hnodup (h.symm.subset (mem_of_find hv))

/-- What holds of the entries and of a new one. -/
theorem forall_mem_put {P : κ × ν → Prop} {m : Assoc κ ν} (h : ∀ e ∈ m.entries, P e) {k : κ} {v : ν}
    (hnew : P (k, v)) : ∀ e ∈ (m.put k v).entries, P e := by
  intro e he
  have hl := mem_entries_iff.1 he
  rw [lookup_put] at hl
  split_ifs at hl with hk
  · rwa [show e = (k, v) from Prod.ext hk (Option.some.inj hl).symm]
  · exact h e (mem_entries_iff.2 hl)

theorem putEntry_putEntry (k : κ) (v w : ν) (l : List (κ × ν)) :
    putEntry k w (putEntry k v l) = putEntry k w l := by
  induction l with
  | nil => exact if_pos rfl
  | cons e l ih =>
    rw [putEntry, putEntry]
    split_ifs with he
    · exact if_pos rfl
    · rw [putEntry, if_neg he, ih]

/-- What is overwritten leaves no trace. -/
theorem put_put (m : Assoc κ ν) (k : κ) (v w : ν) : (m.put k v).put k w = m.put k w :=
  Assoc.ext (putEntry_putEntry k v w m.entries)

theorem find_eq_none_iff {k : κ} {l : List (κ × ν)} :
    find k l = none ↔ ∀ e ∈ l, e.1 ≠ k := by
  induction l with
  | nil => simp [find]
  | cons e l ih =>
    rw [find, List.forall_mem_cons, ← ih]
    split_ifs with he <;> simp [he]

theorem lookup_filter (m : Assoc κ ν) (p : κ × ν → Bool) (k : κ) :
    (m.filter p).lookup k = (m.lookup k).filter fun v => p (k, v) := by
  cases h : m.lookup k with
  | none =>
    have hnone := find_eq_none_iff.1 h
    exact find_eq_none_iff.2 fun e he => hnone e (List.mem_filter.1 he).1
  | some v =>
    have hmem := mem_entries_iff.2 h
    by_cases hp : p (k, v) = true
    · rw [Option.filter_some, if_pos hp]
      exact mem_entries_iff.1 (List.mem_filter.2 ⟨hmem, hp⟩)
    · rw [Option.filter_some, if_neg hp]
      refine find_eq_none_iff.2 fun e he hk => ?_
      obtain ⟨he, hpe⟩ := List.mem_filter.1 he
      have hv := find_of_mem m.nodup he
      rw [hk] at hv
      cases hv.symm.trans h
      exact hp (hk ▸ hpe)

theorem lookup_unset (m : Assoc κ ν) (k k' : κ) :
    (m.unset k).lookup k' = if k' = k then none else m.lookup k' := by
  rw [unset, lookup_filter]
  split_ifs with hk
  · cases m.lookup k' with
    | none => rfl
    | some v => rw [Option.filter_some, if_neg (by simpa using hk)]
  · cases m.lookup k' with
    | none => rfl
    | some v => rw [Option.filter_some, if_pos (by simpa using hk)]

/-! ## Entries put in a row -/

theorem putEntry_of_not_mem {k : κ} {l : List (κ × ν)} (h : k ∉ l.map Prod.fst) (v : ν) :
    putEntry k v l = l ++ [(k, v)] := by
  induction l with
  | nil => rfl
  | cons e l ih =>
    rw [List.map_cons, List.mem_cons, not_or] at h
    rw [putEntry, if_neg (Ne.symm h.1), ih h.2, List.cons_append]

theorem entries_foldl_put {m : Assoc κ ν} {l : List (κ × ν)}
    (h : ((m.entries ++ l).map Prod.fst).Nodup) :
    (l.foldl (fun m e => m.put e.1 e.2) m).entries = m.entries ++ l := by
  induction l generalizing m with
  | nil => rw [List.append_nil]; rfl
  | cons e l ih =>
    have hfresh : e.1 ∉ m.entries.map Prod.fst := by
      intro hmem
      rw [List.map_append, List.map_cons] at h
      exact (List.nodup_append.1 h).2.2 _ hmem _ List.mem_cons_self rfl
    have hput : (m.put e.1 e.2).entries = m.entries ++ [e] := putEntry_of_not_mem hfresh e.2
    rw [List.foldl_cons, ih (by rwa [hput, List.append_assoc]), hput, List.append_assoc]
    rfl

/-- Entries with different keys come back as they are. -/
theorem entries_ofList {l : List (κ × ν)} (h : (l.map Prod.fst).Nodup) : (ofList l).entries = l :=
  entries_foldl_put h

theorem ofList_entries (m : Assoc κ ν) : ofList m.entries = m :=
  Assoc.ext (entries_ofList m.nodup)

theorem exists_lookup_foldl_put {m : Assoc κ ν} {l : List (κ × ν)} {k : κ}
    (h : k ∈ l.map Prod.fst ∨ ∃ v, m.lookup k = some v) :
    ∃ v, (l.foldl (fun m e => m.put e.1 e.2) m).lookup k = some v := by
  induction l generalizing m with
  | nil => exact h.resolve_left List.not_mem_nil
  | cons e l ih =>
    refine ih ?_
    rw [lookup_put]
    rcases h with h | ⟨v, h⟩
    · rcases List.mem_cons.1 h with rfl | h
      · exact Or.inr ⟨e.2, if_pos rfl⟩
      · exact Or.inl h
    · refine Or.inr ?_
      split_ifs
      · exact ⟨e.2, rfl⟩
      · exact ⟨v, h⟩

theorem lookup_foldl_put_of_not_mem {m : Assoc κ ν} {l : List (κ × ν)} {k : κ}
    (h : k ∉ l.map Prod.fst) : (l.foldl (fun m e => m.put e.1 e.2) m).lookup k = m.lookup k := by
  induction l generalizing m with
  | nil => rfl
  | cons e l ih =>
    rw [List.map_cons, List.mem_cons, not_or] at h
    rw [List.foldl_cons, ih h.2, lookup_put, if_neg h.1]

theorem exists_lookup_ofList {l : List (κ × ν)} {e : κ × ν} (h : e ∈ l) :
    ∃ v, (ofList l).lookup e.1 = some v :=
  exists_lookup_foldl_put (Or.inl (List.mem_map_of_mem h))

theorem mem_of_lookup_foldl_put {m : Assoc κ ν} {l : List (κ × ν)} {k : κ} {v : ν}
    (h : (l.foldl (fun m e => m.put e.1 e.2) m).lookup k = some v) :
    (k, v) ∈ l ∨ m.lookup k = some v := by
  induction l generalizing m with
  | nil => exact Or.inr h
  | cons e l ih =>
    rcases ih h with hmem | hlookup
    · exact Or.inl (List.mem_cons_of_mem e hmem)
    · rw [lookup_put] at hlookup
      split_ifs at hlookup with hk
      · rw [hk, ← Option.some.inj hlookup]
        exact Or.inl List.mem_cons_self
      · exact Or.inr hlookup

theorem mem_of_lookup_ofList {l : List (κ × ν)} {k : κ} {v : ν} (h : (ofList l).lookup k = some v) :
    (k, v) ∈ l := (mem_of_lookup_foldl_put h).resolve_right (by simp)

/-! ## A function on the values -/

/-- The entries with other values. -/
def mapVal (f : ν → ν) (m : Assoc κ ν) : Assoc κ ν :=
  ⟨m.entries.map fun e => (e.1, f e.2), by
    rw [List.map_map]
    exact m.nodup⟩

omit [DecidableEq κ] in
theorem mem_mapVal {f : ν → ν} {m : Assoc κ ν} {e : κ × ν} :
    e ∈ (m.mapVal f).entries ↔ ∃ e' ∈ m.entries, (e'.1, f e'.2) = e := List.mem_map

theorem putEntry_map (f : ν → ν) (k : κ) (v : ν) (l : List (κ × ν)) :
    putEntry k (f v) (l.map fun e => (e.1, f e.2)) =
      (putEntry k v l).map fun e => (e.1, f e.2) := by
  induction l with
  | nil => rfl
  | cons e l ih =>
    rw [List.map_cons, putEntry, putEntry]
    split_ifs with he
    · rfl
    · rw [ih, List.map_cons]

theorem put_mapVal (f : ν → ν) (m : Assoc κ ν) (k : κ) (v : ν) :
    (m.mapVal f).put k (f v) = (m.put k v).mapVal f :=
  Assoc.ext (putEntry_map f k v m.entries)

theorem foldl_put_mapVal (f : ν → ν) (m : Assoc κ ν) (l : List (κ × ν)) :
    (l.map fun e => (e.1, f e.2)).foldl (fun m e => m.put e.1 e.2) (m.mapVal f) =
      (l.foldl (fun m e => m.put e.1 e.2) m).mapVal f := by
  induction l generalizing m with
  | nil => rfl
  | cons e l ih => rw [List.map_cons, List.foldl_cons, List.foldl_cons, put_mapVal, ih]

theorem ofList_map (f : ν → ν) (l : List (κ × ν)) :
    ofList (l.map fun e => (e.1, f e.2)) = (ofList l).mapVal f := foldl_put_mapVal f empty l

omit [DecidableEq κ] in
theorem mapVal_eq_self_iff {f : ν → ν} {m : Assoc κ ν} :
    m.mapVal f = m ↔ ∀ e ∈ m.entries, f e.2 = e.2 := by
  have hself : (m.entries.map fun e => (e.1, f e.2)) = m.entries ↔
      ∀ e ∈ m.entries, (e.1, f e.2) = e := by
    induction m.entries with
    | nil => simp
    | cons e l ih => rw [List.map_cons, List.cons.injEq, ih, List.forall_mem_cons]
  rw [Assoc.ext_iff]
  refine hself.trans (forall₂_congr fun e _ => ?_)
  rw [Prod.ext_iff]
  exact ⟨fun h => h.2, fun h => ⟨rfl, h⟩⟩

theorem find_map {μ : Type*} (f : ν → μ) (k : κ) (l : List (κ × ν)) :
    find k (l.map fun e => (e.1, f e.2)) = (find k l).map f := by
  induction l with
  | nil => rfl
  | cons e l ih =>
    rw [List.map_cons, find, find, ih]
    split_ifs <;> rfl

theorem lookup_mapVal (f : ν → ν) (m : Assoc κ ν) (k : κ) :
    (m.mapVal f).lookup k = (m.lookup k).map f := find_map f k m.entries

theorem unset_mapVal (f : ν → ν) (m : Assoc κ ν) (k : κ) :
    (m.mapVal f).unset k = (m.unset k).mapVal f :=
  Assoc.ext (List.filter_map ..)

/-! ## Values collected under their keys -/

/-- The values under a key, none if there is no entry. -/
def get (m : Assoc κ (List ν)) (k : κ) : List ν := (m.lookup k).getD []

/-- `array_push($m[$k], $v)`. -/
def push (m : Assoc κ (List ν)) (k : κ) (v : ν) : Assoc κ (List ν) := m.put k (m.get k ++ [v])

/-- The values of a list, pushed one after the other. -/
def collect (l : List (κ × ν)) : Assoc κ (List ν) := l.foldl (fun m e => m.push e.1 e.2) empty

theorem get_put (m : Assoc κ (List ν)) (k k' : κ) (vs : List ν) :
    (m.put k vs).get k' = if k' = k then vs else m.get k' := by
  rw [get, get, lookup_put]
  split_ifs <;> rfl

theorem get_unset (m : Assoc κ (List ν)) (k k' : κ) :
    (m.unset k).get k' = if k' = k then [] else m.get k' := by
  rw [get, get, lookup_unset]
  split_ifs <;> rfl

theorem get_foldl_push (m : Assoc κ (List ν)) (l : List (κ × ν)) (k : κ) :
    (l.foldl (fun m e => m.push e.1 e.2) m).get k =
      m.get k ++ (l.filter (·.1 = k)).map Prod.snd := by
  induction l generalizing m with
  | nil => rw [List.filter_nil, List.map_nil, List.append_nil]; rfl
  | cons e l ih =>
    rw [List.foldl_cons, ih, push, get_put]
    by_cases he : e.1 = k
    · rw [if_pos he.symm, List.filter_cons_of_pos (by simpa using he), he, List.append_assoc]
      rfl
    · rw [if_neg (Ne.symm he), List.filter_cons_of_neg (by simpa using he)]

/-- Under a key stands what was pushed there. -/
theorem get_collect (l : List (κ × ν)) (k : κ) :
    (collect l).get k = (l.filter (·.1 = k)).map Prod.snd := get_foldl_push empty l k

theorem lookup_foldl_push_ne {m : Assoc κ (List ν)} {l : List (κ × ν)} {k : κ}
    (h : m.lookup k ≠ some []) : (l.foldl (fun m e => m.push e.1 e.2) m).lookup k ≠ some [] := by
  induction l generalizing m with
  | nil => exact h
  | cons e l ih =>
    rw [List.foldl_cons]
    refine ih ?_
    rw [push, lookup_put]
    split_ifs
    · simp
    · exact h

/-- There is an entry only where something was pushed. -/
theorem lookup_collect (l : List (κ × ν)) (k : κ) :
    (collect l).lookup k = if (collect l).get k = [] then none else some ((collect l).get k) := by
  have hne : (collect l).lookup k ≠ some [] := lookup_foldl_push_ne (by simp)
  rw [get]
  cases h : (collect l).lookup k with
  | none => rfl
  | some vs =>
    rw [Option.getD_some, if_neg]
    rintro rfl
    exact hne h

end Assoc
