import Mathlib.Data.List.Sort
import NoSpam.Admin.ConfFile
import NoSpam.Base.Scalar

/-!
# Config::Tiny

The engine and the interface to the centre read their configurations with `Config::Tiny`.  A line is
blank or a comment, the header of a section, or a property; any other line makes the whole text
unreadable.  What has been read can be written and read again, whatever the text was
(`readString_writeString`), and the engine reads what the web interface saves with functions of its
own (`readString_save`).
-/

namespace NoSpam.ConfigTiny

open Text Admin Admin.ConfFile
open Perl (isWhite)

/-! ## Reading -/

/-- What is left between `\s*` on both sides. -/
def strip (b : Bytes) : Bytes := (b.dropWhile isWhite).rdropWhile isWhite

/-- `\015` and `\012`.  The line between them, where both stand together, is blank. -/
def isEol (c : UInt8) : Bool := c = 13 || c = 10

/-- The section of the properties before the first header. -/
def root : Bytes := bytes "_"

/-- What a line is. -/
inductive Line
  | blank
  | header (ns : Bytes)
  | property (key value : Bytes)
  | bad
deriving DecidableEq

/-- `/^\[(.+?)\]/`. -/
def headerName : Bytes → Option Bytes
  | 91 :: c :: r => if 93 ∈ r then some (c :: r.takeWhile (· ≠ 93)) else none
  | _ => none

/-- `/^\s*([^=]+?)\s*=\s*(.*?)\s*$/`. -/
def property (line : Bytes) : Option (Bytes × Bytes) :=
  let before := line.takeWhile (· ≠ 61)
  if 61 ∈ line ∧ before ≠ [] then
    -- where there is only white space, the last of it is left for the key
    let key := if strip before = [] then before.drop (before.length - 1) else strip before
    some (key, strip (line.drop (before.length + 1)))
  else none

/-- The branches of the loop of `read_string`. -/
def readLine (line : Bytes) : Line :=
  let rest := line.dropWhile isWhite
  if rest = [] ∨ rest.head? = some 35 ∨ rest.head? = some 59 then .blank
  else
    match headerName rest with
    | some ns => .header ns
    | none =>
        match property line with
        | some (key, value) => .property key value
        | none => .bad

/-- `$self->{$ns} ||= {}`. -/
def ensure (params : Params) (ns : Bytes) : Params :=
  if (params.lookup ns).isNone then params.put ns Assoc.empty else params

/-- One round of the loop: `$ns` and `$self` after a line. -/
def step (s : Bytes × Params) (line : Bytes) : Option (Bytes × Params) :=
  match readLine line with
  | .blank => some s
  | .header ns => some (ns, ensure s.2 ns)
  | .property key value => some (s.1, assign s.2 s.1 key value)
  | .bad => none

/-- The loop over a text. -/
def readText (s : Bytes × Params) (text : Bytes) : Option (Bytes × Params) :=
  (text.splitOnP isEol).foldlM step s

/-- `read_string`, which returns nothing for a text with a syntax error. -/
def readString (text : Bytes) : Option Params := (readText (root, Assoc.empty) text).map Prod.snd

/-! ## Writing -/

/-- `sort keys`. -/
def byKey {β : Type} (l : List (Bytes × β)) : List (Bytes × β) :=
  l.insertionSort fun a b => a.1 ≤ b.1

/-- The sections in the order in which they are written, that without a header first. -/
def bySection (params : Params) : List (Bytes × Assoc Bytes Bytes) :=
  params.entries.filter (·.1 = root) ++ byKey (params.entries.filter (·.1 ≠ root))

/-- The round of `write_string` for a section. -/
def writeSection (contents : Bytes) (e : Bytes × Assoc Bytes Bytes) : Bytes :=
  let contents := if contents ≠ [] then contents ++ [10] else contents
  let contents := if e.1 = root then contents else contents ++ (91 :: (e.1 ++ [93, 10]))
  contents ++ rows (byKey e.2.entries)

/-- `write_string`. -/
def writeString (params : Params) : Bytes := (bySection params).foldl writeSection []

/-! ## What comes back -/

/-- No line end in the text. -/
def OneLine (b : Bytes) : Prop := ∀ c ∈ b, isEol c = false

/-- The row of a property is read as that property, without the white space around its value. -/
def RowBack (key value : Bytes) : Prop :=
  OneLine (key ++ 61 :: value) ∧ readLine (key ++ 61 :: value) = .property key (strip value)

/-- The header of a section is read as that header. -/
def HeaderBack (ns : Bytes) : Prop :=
  OneLine (91 :: (ns ++ [93])) ∧ readLine (91 :: (ns ++ [93])) = .header ns

/-- All headers and rows are read back. -/
def Writable (params : Params) : Prop :=
  ∀ e ∈ params.entries, (e.1 = root ∨ HeaderBack e.1) ∧ ∀ p ∈ e.2.entries, RowBack p.1 p.2

instance (b : Bytes) : Decidable (OneLine b) := inferInstanceAs (Decidable (∀ c ∈ b, _))

instance (key value : Bytes) : Decidable (RowBack key value) :=
  inferInstanceAs (Decidable (_ ∧ _))

instance (ns : Bytes) : Decidable (HeaderBack ns) := inferInstanceAs (Decidable (_ ∧ _))

instance (params : Params) : Decidable (Writable params) :=
  inferInstanceAs (Decidable (∀ e ∈ params.entries, _))

/-! ## Texts line by line -/

theorem readText_line {line : Bytes} (h : OneLine line) (s : Bytes × Params) (text : Bytes) :
    readText s (line ++ 10 :: text) = (step s line).bind fun s => readText s text := by
  rw [readText, List.splitOnP_append_cons_of_forall_mem h 10 rfl, List.foldlM_cons]
  rfl

theorem readText_nil (s : Bytes × Params) : readText s [] = some s := rfl

theorem readText_blank (s : Bytes × Params) (text : Bytes) :
    readText s (10 :: text) = readText s text :=
  have hnil : OneLine [] := fun c hc => by cases hc
  readText_line hnil s text

theorem readText_rows {values : List (Bytes × Bytes)} (h : ∀ p ∈ values, RowBack p.1 p.2)
    (s : Bytes × Params) (text : Bytes) :
    readText s (rows values ++ text) =
      readText (s.1, assignAll s.2 s.1 (values.map fun p => (p.1, strip p.2))) text := by
  induction values generalizing s with
  | nil => rfl
  | cons p values ih =>
    obtain ⟨hp, hvalues⟩ := List.forall_mem_cons.1 h
    have hstep : step s (p.1 ++ 61 :: p.2) = some (s.1, assign s.2 s.1 p.1 (strip p.2)) := by
      rw [step, hp.2]
    rw [rows_cons_append, readText_line hp.1, hstep, Option.bind_some, ih hvalues]
    rfl

theorem readText_header {ns : Bytes} (h : HeaderBack ns) (s : Bytes × Params) (text : Bytes) :
    readText s (91 :: (ns ++ 93 :: 10 :: text)) = readText (ns, ensure s.2 ns) text := by
  have hsplit : 91 :: (ns ++ 93 :: 10 :: text) = (91 :: (ns ++ [93])) ++ 10 :: text := by simp
  have hstep : step s (91 :: (ns ++ [93])) = some (ns, ensure s.2 ns) := by rw [step, h.2]
  rw [hsplit, readText_line h.1, hstep, Option.bind_some]

/-! ## Writing section by section -/

/-- The loop after the rows of a section, with its header unless it is that without one. -/
def sectionStep (s : Bytes × Params) (e : Bytes × List (Bytes × Bytes)) : Bytes × Params :=
  let s := if e.1 = root then s else (e.1, ensure s.2 e.1)
  (s.1, assignAll s.2 s.1 (e.2.map fun p => (p.1, strip p.2)))

/-- A section as its rows are written. -/
def sectionRows (e : Bytes × Assoc Bytes Bytes) : Bytes × List (Bytes × Bytes) :=
  (e.1, byKey e.2.entries)

theorem mem_byKey {β : Type} {l : List (Bytes × β)} {p : Bytes × β} : p ∈ byKey l ↔ p ∈ l :=
  List.mem_insertionSort _

/-- What is read of the contents so far and a section after them. -/
theorem readText_writeSection {contents : Bytes} {s s' : Bytes × Params}
    (hread : ∀ text, readText s (contents ++ text) = readText s' text)
    {e : Bytes × Assoc Bytes Bytes}
    (he : (e.1 = root ∨ HeaderBack e.1) ∧ ∀ p ∈ e.2.entries, RowBack p.1 p.2) (text : Bytes) :
    readText s (writeSection contents e ++ text) =
      readText (sectionStep s' (sectionRows e)) text := by
  have hrows := fun s => readText_rows (fun p hp => he.2 p (mem_byKey.1 hp)) s text
  have hblank : ∀ text, readText s
      ((if contents ≠ [] then contents ++ [10] else contents) ++ text) = readText s' text := by
    intro text
    split_ifs
    · rw [List.append_assoc, hread, List.singleton_append, readText_blank]
    · exact hread text
  rw [writeSection, sectionStep, sectionRows]
  by_cases hroot : e.1 = root
  · simp only [if_pos hroot]
    rw [List.append_assoc, hblank, hrows]
  · simp only [if_neg hroot]
    rw [List.append_assoc, List.append_assoc, hblank]
    have hheader := readText_header (he.1.resolve_left hroot) s' (rows (byKey e.2.entries) ++ text)
    simp only [List.cons_append, List.append_assoc, List.nil_append] at hheader ⊢
    rw [hheader, hrows]

theorem readText_foldl_writeSection {es : List (Bytes × Assoc Bytes Bytes)} {contents : Bytes}
    {s s' : Bytes × Params} (hread : ∀ text, readText s (contents ++ text) = readText s' text)
    (h : ∀ e ∈ es, (e.1 = root ∨ HeaderBack e.1) ∧ ∀ p ∈ e.2.entries, RowBack p.1 p.2)
    (text : Bytes) :
    readText s (es.foldl writeSection contents ++ text) =
      readText ((es.map sectionRows).foldl sectionStep s') text := by
  induction es generalizing contents s' with
  | nil => exact hread text
  | cons e es ih =>
    obtain ⟨he, hes⟩ := List.forall_mem_cons.1 h
    exact ih (readText_writeSection hread he) hes

section Forall

variable {N : Bytes → Prop} {R : Bytes × Bytes → Prop} {params : Params}

theorem forall_mem_sect (h : ∀ e ∈ params.entries, N e.1 ∧ ∀ p ∈ e.2.entries, R p) (ns : Bytes) :
    ∀ p ∈ (sect params ns).entries, R p := by
  rw [sect]
  cases hl : params.lookup ns with
  | none => exact fun p hp => by cases hp
  | some values => exact (h _ (Assoc.mem_entries_iff.2 hl)).2

theorem forall_mem_assign (h : ∀ e ∈ params.entries, N e.1 ∧ ∀ p ∈ e.2.entries, R p)
    {ns key value : Bytes} (hns : N ns) (hrow : R (key, value)) :
    ∀ e ∈ (assign params ns key value).entries, N e.1 ∧ ∀ p ∈ e.2.entries, R p :=
  Assoc.forall_mem_put h ⟨hns, Assoc.forall_mem_put (forall_mem_sect h ns) hrow⟩

end Forall

theorem Writable.assign {params : Params} (h : Writable params) {ns key value : Bytes}
    (hns : ns = root ∨ HeaderBack ns) (hrow : RowBack key value) :
    Writable (assign params ns key value) :=
  forall_mem_assign (N := fun n => n = root ∨ HeaderBack n) (R := fun p => RowBack p.1 p.2)
    h hns hrow

/-! ## Properties one by one -/

theorem param_assign (params : Params) (sec key value s k : Bytes) :
    param (assign params sec key value) s k =
      if s = sec ∧ k = key then some value else param params s k := by
  rw [← setParam_eq, param_setParam]

theorem param_ensure (params : Params) (ns s k : Bytes) :
    param (ensure params ns) s k = param params s k := by
  rw [ensure]
  split_ifs with hnone
  · rw [param, param, Assoc.lookup_put]
    split_ifs with hs
    · rw [hs, Option.isNone_iff_eq_none.1 hnone]
      rfl
    · rfl
  · rfl

theorem param_assignAll {l : List (Bytes × Bytes)} (hl : (l.map Prod.fst).Nodup) (m : Params)
    (sec s k : Bytes) :
    param (assignAll m sec l) s k =
      if s = sec then (Assoc.find k l).or (param m s k) else param m s k := by
  induction l generalizing m with
  | nil => exact (ite_self _).symm
  | cons p l ih =>
    obtain ⟨hnot, hnodup⟩ := List.nodup_cons.1 hl
    rw [assignAll, List.foldl_cons, ← assignAll, ih hnodup, param_assign, Assoc.find]
    by_cases hs : s = sec
    · by_cases hk : k = p.1
      · have hnone : Assoc.find k l = none := by
          refine Assoc.find_eq_none_iff.2 fun q hq hqk => hnot ?_
          rw [← hk, ← hqk]
          exact List.mem_map_of_mem hq
        rw [if_pos hs, if_pos hs, if_pos ⟨hs, hk⟩, if_pos hk.symm, hnone]
        rfl
      · rw [if_pos hs, if_pos hs, if_neg fun h => hk h.2, if_neg (Ne.symm hk)]
    · rw [if_neg hs, if_neg hs, if_neg fun h => hs h.1]

theorem find_byKey {β : Type} {l : List (Bytes × β)} (hl : (l.map Prod.fst).Nodup) (k : Bytes) :
    Assoc.find k (byKey l) = Assoc.find k l :=
  Assoc.find_perm (List.perm_insertionSort _ l) hl k

theorem nodup_byKey {β : Type} {l : List (Bytes × β)} (hl : (l.map Prod.fst).Nodup) :
    ((byKey l).map Prod.fst).Nodup :=
  ((List.perm_insertionSort _ l).map Prod.fst).nodup_iff.2 hl

/-- A section sets its own properties. -/
theorem param_sectionStep {s : Bytes × Params} {e : Bytes × List (Bytes × Bytes)}
    (he : (e.2.map Prod.fst).Nodup) (hroot : e.1 = root → s.1 = root) (ns k : Bytes) :
    param (sectionStep s e).2 ns k =
      if ns = e.1 then ((Assoc.find k e.2).map strip).or (param s.2 ns k)
      else param s.2 ns k := by
  have hnodup : ((e.2.map fun p => (p.1, strip p.2)).map Prod.fst).Nodup := by
    rw [List.map_map]
    exact he
  rw [sectionStep]
  by_cases he : e.1 = root
  · simp only [if_pos he]
    rw [param_assignAll hnodup, Assoc.find_map, hroot he, he]
  · simp only [if_neg he]
    rw [param_assignAll hnodup, Assoc.find_map, param_ensure]

/-- Sections set their own properties where only the first has no header. -/
theorem param_foldl_sectionStep {es : List (Bytes × List (Bytes × Bytes))}
    (hes : (es.map Prod.fst).Nodup) (hkeys : ∀ e ∈ es, (e.2.map Prod.fst).Nodup)
    (hfirst : es.Pairwise fun _ e => e.1 ≠ root) {s : Bytes × Params}
    (hs : ∀ e ∈ es, e.1 = root → s.1 = root) (ns k : Bytes) :
    param (es.foldl sectionStep s).2 ns k =
      (((Assoc.find ns es).bind (Assoc.find k)).map strip).or (param s.2 ns k) := by
  induction es generalizing s with
  | nil => rfl
  | cons e es ih =>
    obtain ⟨hnot, hnodup⟩ := List.nodup_cons.1 hes
    obtain ⟨he, hkeys⟩ := List.forall_mem_cons.1 hkeys
    obtain ⟨hrest, hpairs⟩ := List.pairwise_cons.1 hfirst
    have htail : ∀ e' ∈ es, e'.1 = root → (sectionStep s e).1 = root :=
      fun e' he' hroot => absurd hroot (hrest e' he')
    rw [List.foldl_cons, ih hnodup hkeys hpairs htail,
      param_sectionStep he (hs e List.mem_cons_self), Assoc.find]
    by_cases hns : ns = e.1
    · have hnone : Assoc.find ns es = none := by
        refine Assoc.find_eq_none_iff.2 fun q hq hqk => hnot ?_
        rw [← hns, ← hqk]
        exact List.mem_map_of_mem hq
      rw [if_pos hns, if_pos hns.symm, hnone]
      rfl
    · rw [if_neg hns, if_neg (Ne.symm hns)]

theorem perm_bySection (params : Params) : (bySection params).Perm params.entries := by
  have hnot : (params.entries.filter fun e => e.1 ≠ root) =
      params.entries.filter fun e => !decide (e.1 = root) := by
    refine List.filter_congr fun e _ => ?_
    rw [decide_not]
  rw [bySection, hnot]
  exact ((List.perm_insertionSort _ _).append_left _).trans (List.filter_append_perm _ _)

theorem pairwise_bySection (params : Params) :
    (bySection params).Pairwise fun _ e => e.1 ≠ root := by
  have hrest : ∀ e ∈ byKey (params.entries.filter (·.1 ≠ root)), e.1 ≠ root := by
    intro e he
    simpa using (List.mem_filter.1 (mem_byKey.1 he)).2
  rw [bySection, List.pairwise_append]
  refine ⟨?_, List.pairwise_of_forall_mem_list fun _ _ e he => hrest e he,
    fun _ _ e he => hrest e he⟩
  -- no two sections have the name of that without a header
  have hnodup : params.entries.Pairwise fun d e => d.1 ≠ e.1 := List.pairwise_map.1 params.nodup
  refine (hnodup.filter _).imp_of_mem fun {d e} hd he hne heq => hne ?_
  have hd : d.1 = root := by simpa using (List.mem_filter.1 hd).2
  rw [hd, heq]

/-- **What is written is read back**, without the white space around the values. -/
theorem readString_writeString_of_writable {params : Params} (h : Writable params) :
    ∃ params', readString (writeString params) = some params' ∧
      ∀ ns k, param params' ns k = (param params ns k).map strip := by
  have hperm := perm_bySection params
  have hstart : ∀ text, readText (root, Assoc.empty) ([] ++ text) =
      readText (root, Assoc.empty) text := fun text => rfl
  have hread := readText_foldl_writeSection hstart (fun e he => h e (hperm.subset he)) []
  rw [List.append_nil, readText_nil] at hread
  refine ⟨(((bySection params).map sectionRows).foldl sectionStep (root, Assoc.empty)).2, ?_,
    fun ns k => ?_⟩
  · rw [readString, writeString, hread, Option.map_some]
  · have hnames : ((bySection params).map sectionRows).map Prod.fst =
        (bySection params).map Prod.fst := by
      rw [List.map_map]
      rfl
    have hnodup : (((bySection params).map sectionRows).map Prod.fst).Nodup := by
      rw [hnames]
      exact (hperm.map Prod.fst).nodup_iff.2 params.nodup
    have hkeys : ∀ e ∈ (bySection params).map sectionRows, (e.2.map Prod.fst).Nodup := by
      intro e he
      obtain ⟨d, -, rfl⟩ := List.mem_map.1 he
      exact nodup_byKey d.2.nodup
    have hfirst : ((bySection params).map sectionRows).Pairwise fun _ e => e.1 ≠ root :=
      List.pairwise_map.2 (pairwise_bySection params)
    have hfind : Assoc.find ns ((bySection params).map sectionRows) =
        (params.lookup ns).map fun values => byKey values.entries :=
      (Assoc.find_map (fun values : Assoc Bytes Bytes => byKey values.entries) ns _).trans
        (congrArg _ (Assoc.find_perm hperm params.nodup ns))
    have hempty : param (root, (Assoc.empty : Params)).2 ns k = none := rfl
    rw [param_foldl_sectionStep hnodup hkeys hfirst fun _ _ _ => rfl, hfind, hempty, Option.or_none,
      param]
    cases params.lookup ns with
    | none => rfl
    | some values =>
      rw [Option.map_some, Option.bind_some, Option.bind_some, find_byKey values.nodup]
      rfl

/-! ## White space around a text -/

theorem dropWhile_eq_self {b : Bytes} (h : ∀ c ∈ b.head?, isWhite c = false) :
    b.dropWhile isWhite = b := by
  cases b with
  | nil => rfl
  | cons c b => exact List.dropWhile_cons_of_neg (by simp [h c rfl])

theorem head?_strip {b : Bytes} {c : UInt8} (h : c ∈ (strip b).head?) : isWhite c = false := by
  have hprefix : strip b <+: b.dropWhile isWhite := List.rdropWhile_prefix _ _
  obtain ⟨l, hl⟩ := List.head?_eq_some_iff.1 (Option.mem_def.1 h)
  obtain ⟨r, hr⟩ := hprefix
  rw [hl, List.cons_append] at hr
  by_contra hblank
  have hhead := List.head?_dropWhile_not isWhite b
  rw [← hr, List.head?_cons] at hhead
  simp_all

theorem strip_strip (b : Bytes) : strip (strip b) = strip b := by
  have hdrop : (strip b).dropWhile isWhite = strip b := dropWhile_eq_self fun c hc => head?_strip hc
  rw [strip, hdrop, strip, List.rdropWhile_idempotent]

theorem mem_of_mem_strip {b : Bytes} {c : UInt8} (h : c ∈ strip b) : c ∈ b :=
  (List.dropWhile_suffix isWhite).subset ((List.rdropWhile_prefix _ _).subset h)

theorem dropWhile_eq_nil_iff {b : Bytes} : b.dropWhile isWhite = [] ↔ strip b = [] := by
  constructor
  · intro h
    rw [strip, h, List.rdropWhile_nil]
  · intro h
    rw [strip, List.rdropWhile_eq_nil_iff] at h
    by_contra hne
    obtain ⟨c, l, hl⟩ := List.exists_cons_of_ne_nil hne
    have hhead := List.head?_dropWhile_not isWhite b
    rw [hl] at h hhead
    have hc := h c List.mem_cons_self
    simp_all

/-! ## What a line that was read is written as -/

theorem headerName_isSome_iff (l : Bytes) :
    (headerName l).isSome ↔ l.head? = some 91 ∧ 93 ∈ l.tail.tail := by
  match l with
  | [] => simp [headerName]
  | [c] => simp [headerName]
  | c :: d :: r =>
    by_cases hc : c = 91
    · subst hc
      rw [headerName]
      split_ifs with h <;> simp [h]
    · have hnone : headerName (c :: d :: r) = none := by
        unfold headerName
        split
        · next heq => exact absurd (List.cons.inj heq).1 hc
        · rfl
      simp [hnone, hc]

/-- A line with less in it that begins the same is no header either. -/
theorem headerName_eq_none_of_sublist {l l' : Bytes} (hsub : l'.Sublist l)
    (hhead : l'.head? = l.head?) (h : headerName l = none) : headerName l' = none := by
  by_contra hsome
  obtain ⟨h91, h93⟩ := (headerName_isSome_iff l').1 (Option.isSome_iff_ne_none.2 hsome)
  have hl : (headerName l).isSome :=
    (headerName_isSome_iff l).2 ⟨hhead ▸ h91, hsub.tail.tail.subset h93⟩
  rw [h] at hl
  cases hl

theorem takeWhile_append_eq {key : Bytes} (h : 61 ∉ key) (value : Bytes) :
    (key ++ 61 :: value).takeWhile (· ≠ 61) = key := by
  have hkey : ∀ c ∈ key, decide (c ≠ 61) = true := fun c hc =>
    decide_eq_true fun he => h (he ▸ hc)
  rw [List.takeWhile_append_of_pos hkey, List.takeWhile_cons_of_neg (by simp), List.append_nil]

/-- A key and its value are taken apart where they were put together. -/
theorem property_append {key value : Bytes} (h : 61 ∉ key) (hne : key ≠ []) :
    property (key ++ 61 :: value) =
      some (if strip key = [] then key.drop (key.length - 1) else strip key, strip value) := by
  have hdrop : (key ++ 61 :: value).drop (key.length + 1) = value := by
    rw [List.drop_append]
    simp
  have hsplit : 61 ∈ key ++ 61 :: value ∧ key ≠ [] := ⟨by simp, hne⟩
  rw [property]
  simp only [takeWhile_append_eq h, hdrop, if_pos hsplit]

/-- The row of a key that can be told from a comment and from a header. -/
theorem readLine_row {key value : Bytes} (hne : key ≠ []) (h : 61 ∉ key) (hstrip : strip key = key)
    (hcomment : key.head? ≠ some 35 ∧ key.head? ≠ some 59)
    (hheader : headerName (key ++ 61 :: value) = none) :
    readLine (key ++ 61 :: value) = .property key (strip value) := by
  have hhead : (key ++ 61 :: value).head? = key.head? := List.head?_append_of_ne_nil _ hne
  have hdrop : (key ++ 61 :: value).dropWhile isWhite = key ++ 61 :: value := by
    refine dropWhile_eq_self fun c hc => ?_
    rw [hhead, ← hstrip] at hc
    exact head?_strip hc
  have hskip : ¬(key ++ 61 :: value = [] ∨ (key ++ 61 :: value).head? = some 35 ∨
      (key ++ 61 :: value).head? = some 59) := by
    rw [hhead]
    rintro (hnil | h35 | h59)
    · exact hne (List.append_eq_nil_iff.1 hnil).1
    · exact hcomment.1 h35
    · exact hcomment.2 h59
  rw [readLine, hdrop]
  simp only [if_neg hskip, hheader, property_append h hne, hstrip, if_neg hne]

/-- The row of a key that is white space. -/
theorem readLine_blank_row {c : UInt8} (hc : isWhite c = true) (value : Bytes) :
    readLine ([c] ++ 61 :: value) = .property [c] (strip value) := by
  have hne : c ≠ 61 := by
    rintro rfl
    cases hc
  have hdrop : ([c] ++ 61 :: value).dropWhile isWhite = 61 :: value := by
    rw [List.singleton_append, List.dropWhile_cons_of_pos hc]
    exact dropWhile_eq_self fun d hd => by
      obtain rfl : 61 = d := Option.some_inj.1 hd
      rfl
  have hkey : strip [c] = [] := by
    rw [strip, List.dropWhile_cons_of_pos hc]
    rfl
  rw [readLine, hdrop]
  rw [if_neg (by simp)]
  have hheader : headerName (61 :: value) = none := by
    cases hh : headerName (61 :: value) with
    | none => rfl
    | some ns =>
      have hsome := (headerName_isSome_iff (61 :: value)).1 (by rw [hh]; rfl)
      simp at hsome
  have h61 : 61 ∉ [c] := by simpa using hne.symm
  simp only [hheader, property_append h61 (List.cons_ne_nil c []), if_pos hkey]
  rfl

/-- How a line with a property is taken apart. -/
theorem exists_of_property {line : Bytes} {p : Bytes × Bytes} (h : property line = some p) :
    ∃ before after, line = before ++ 61 :: after ∧ 61 ∉ before ∧ before ≠ [] ∧
      p = (if strip before = [] then before.drop (before.length - 1) else strip before,
        strip after) := by
  by_cases hsplit : 61 ∈ line ∧ line.takeWhile (· ≠ 61) ≠ []
  · obtain ⟨before, after, rfl, h61⟩ := List.eq_append_cons_of_mem hsplit.1
    rw [takeWhile_append_eq h61] at hsplit
    refine ⟨before, after, rfl, h61, hsplit.2, ?_⟩
    rw [property_append h61 hsplit.2] at h
    exact (Option.some_inj.1 h).symm
  · rw [property] at h
    simp only [if_neg hsplit] at h
    cases h

/-- A property that was read has a row that is read back, and its value is stripped. -/
theorem rowBack_of_readLine {line key value : Bytes} (hline : OneLine line)
    (h : readLine line = .property key value) : RowBack key value ∧ strip value = value := by
  rw [readLine] at h
  split_ifs at h with hskip
  cases hheader : headerName (line.dropWhile isWhite) with
  | some ns => simp [hheader] at h
  | none =>
    cases hprop : property line with
    | none => simp [hheader, hprop] at h
    | some p =>
      obtain ⟨before, after, rfl, h61, hne, rfl⟩ := exists_of_property hprop
      simp only [hheader, hprop, Line.property.injEq] at h
      obtain ⟨rfl, rfl⟩ := h
      have hafter : OneLine (61 :: strip after) := by
        intro c hc
        rcases List.mem_cons.1 hc with rfl | hc
        · rfl
        · exact hline c (by simp [mem_of_mem_strip hc])
      refine ⟨?_, strip_strip after⟩
      split_ifs with hblank
      · -- the last symbol of a blank key
        obtain ⟨init, c, rfl⟩ := (List.eq_nil_or_concat' before).resolve_left hne
        have hdrop : (init ++ [c]).drop ((init ++ [c]).length - 1) = [c] := by simp
        have hc : isWhite c = true := by
          have hall := List.dropWhile_eq_nil_iff.1 (dropWhile_eq_nil_iff.2 hblank)
          exact hall c (by simp)
        rw [hdrop]
        refine ⟨?_, readLine_blank_row hc _⟩
        intro d hd
        rcases List.mem_append.1 hd with hd | hd
        · exact hline d (by simp [List.mem_singleton.1 hd])
        · exact hafter d hd
      · have hdrop : (before ++ 61 :: after).dropWhile isWhite =
            before.dropWhile isWhite ++ 61 :: after := by
          rw [List.dropWhile_append, if_neg]
          rw [List.isEmpty_iff, dropWhile_eq_nil_iff]
          exact hblank
        have hprefix : strip before <+: before.dropWhile isWhite := List.rdropWhile_prefix _ _
        have hhead : (strip before).head? = ((before ++ 61 :: after).dropWhile isWhite).head? := by
          obtain ⟨r, hr⟩ := hprefix
          rw [hdrop, ← hr, List.append_assoc, List.head?_append_of_ne_nil _ hblank]
        have hsub : (strip before ++ 61 :: strip after).Sublist
            ((before ++ 61 :: after).dropWhile isWhite) := by
          rw [hdrop]
          refine hprefix.sublist.append (List.Sublist.cons_cons 61 ?_)
          exact (List.rdropWhile_prefix _ _).sublist.trans (List.dropWhile_suffix _).sublist
        rw [not_or, not_or, ← hhead] at hskip
        refine ⟨?_, readLine_row hblank (fun hmem => h61 (mem_of_mem_strip hmem))
          (strip_strip before) hskip.2 (headerName_eq_none_of_sublist hsub ?_ hheader)⟩
        · intro d hd
          rcases List.mem_append.1 hd with hd | hd
          · exact hline d (by simp [mem_of_mem_strip hd])
          · exact hafter d hd
        · rw [← hhead, List.head?_append_of_ne_nil _ hblank]

theorem exists_of_headerName {l ns : Bytes} (h : headerName l = some ns) :
    ∃ c r, l = 91 :: c :: r ∧ 93 ∈ r ∧ ns = c :: r.takeWhile (· ≠ 93) := by
  unfold headerName at h
  split at h
  · next c r =>
    split_ifs at h with h93
    exact ⟨c, r, rfl, h93, (Option.some_inj.1 h).symm⟩
  · cases h

/-- The header of a name that ends with the first bracket. -/
theorem readLine_header (c : UInt8) {r : Bytes} (h : 93 ∉ r) :
    readLine (91 :: (c :: r ++ [93])) = .header (c :: r) := by
  have hdrop : (91 :: (c :: r ++ [93])).dropWhile isWhite = 91 :: (c :: r ++ [93]) :=
    List.dropWhile_cons_of_neg (by decide)
  have hr : ∀ d ∈ r, decide (d ≠ 93) = true := fun d hd => decide_eq_true fun he => h (he ▸ hd)
  have hheader : headerName (91 :: (c :: r ++ [93])) = some (c :: r) := by
    rw [List.cons_append, headerName, if_pos (by simp), List.takeWhile_append_of_pos hr,
      List.takeWhile_cons_of_neg (by simp), List.append_nil]
  rw [readLine, hdrop, if_neg (by simp)]
  simp only [hheader]

/-- A header that was read is written as a header that is read back. -/
theorem headerBack_of_readLine {line ns : Bytes} (hline : OneLine line)
    (h : readLine line = .header ns) : HeaderBack ns := by
  rw [readLine] at h
  split_ifs at h with hskip
  cases hheader : headerName (line.dropWhile isWhite) with
  | none =>
    cases hprop : property line <;> simp [hheader, hprop] at h
  | some name =>
    simp only [hheader, Line.header.injEq] at h
    subst h
    obtain ⟨c, r, hr, h93, rfl⟩ := exists_of_headerName hheader
    have hmem : ∀ d ∈ c :: r.takeWhile (· ≠ 93), d ∈ line := by
      intro d hd
      refine (List.dropWhile_suffix isWhite).subset ?_
      rw [hr]
      exact List.mem_cons_of_mem _ (((List.takeWhile_prefix _).sublist.cons_cons c).subset hd)
    have hnot : 93 ∉ r.takeWhile (· ≠ 93) := fun h => by simpa using List.mem_takeWhile_imp h
    refine ⟨?_, readLine_header c hnot⟩
    intro d hd
    rcases List.mem_cons.1 hd with rfl | hd
    · rfl
    · rcases List.mem_append.1 hd with hd | hd
      · exact hline d (hmem d hd)
      · rw [List.mem_singleton.1 hd]
        rfl

/-! ## What was read is writable -/

/-- Everything in the text has been read from lines. -/
def Settled (params : Params) : Prop :=
  ∀ e ∈ params.entries, (e.1 = root ∨ HeaderBack e.1) ∧
    ∀ p ∈ e.2.entries, RowBack p.1 p.2 ∧ strip p.2 = p.2

theorem Settled.writable {params : Params} (h : Settled params) : Writable params :=
  fun e he => ⟨(h e he).1, fun p hp => ((h e he).2 p hp).1⟩

theorem settled_empty : Settled Assoc.empty := fun e he => by cases he

theorem Settled.sect {params : Params} (h : Settled params) (ns : Bytes) :
    ∀ p ∈ (sect params ns).entries, RowBack p.1 p.2 ∧ strip p.2 = p.2 :=
  forall_mem_sect (N := fun n => n = root ∨ HeaderBack n) h ns

theorem Settled.assign {params : Params} (h : Settled params) {ns key value : Bytes}
    (hns : ns = root ∨ HeaderBack ns) (hrow : RowBack key value ∧ strip value = value) :
    Settled (assign params ns key value) :=
  forall_mem_assign (N := fun n => n = root ∨ HeaderBack n)
    (R := fun p => RowBack p.1 p.2 ∧ strip p.2 = p.2) h hns hrow

theorem Settled.ensure {params : Params} (h : Settled params) {ns : Bytes}
    (hns : HeaderBack ns) : Settled (ensure params ns) := by
  rw [ConfigTiny.ensure]
  split_ifs
  · exact Assoc.forall_mem_put h ⟨Or.inr hns, fun p hp => by cases hp⟩
  · exact h

/-- A line adds what can be written. -/
theorem settled_step {s s' : Bytes × Params} {line : Bytes} (hline : OneLine line)
    (hns : s.1 = root ∨ HeaderBack s.1) (hs : Settled s.2) (h : step s line = some s') :
    (s'.1 = root ∨ HeaderBack s'.1) ∧ Settled s'.2 := by
  rw [step] at h
  cases hread : readLine line with
  | blank =>
    rw [hread] at h
    obtain rfl := Option.some_inj.1 h
    exact ⟨hns, hs⟩
  | header ns =>
    rw [hread] at h
    obtain rfl := Option.some_inj.1 h
    have hheader := headerBack_of_readLine hline hread
    exact ⟨Or.inr hheader, hs.ensure hheader⟩
  | property key value =>
    rw [hread] at h
    obtain rfl := Option.some_inj.1 h
    exact ⟨hns, hs.assign hns (rowBack_of_readLine hline hread)⟩
  | bad =>
    rw [hread] at h
    cases h

theorem settled_foldlM {ls : List Bytes} (hls : ∀ l ∈ ls, OneLine l) {s s' : Bytes × Params}
    (hns : s.1 = root ∨ HeaderBack s.1) (hs : Settled s.2) (h : ls.foldlM step s = some s') :
    Settled s'.2 := by
  induction ls generalizing s with
  | nil =>
    obtain rfl := Option.some_inj.1 h
    exact hs
  | cons l ls ih =>
    obtain ⟨hl, hrest⟩ := List.forall_mem_cons.1 hls
    rw [List.foldlM_cons] at h
    obtain ⟨s₁, hstep, h⟩ := Option.bind_eq_some_iff.1 h
    obtain ⟨hns₁, hs₁⟩ := settled_step hl hns hs hstep
    exact ih hrest hns₁ hs₁ h

theorem oneLine_of_mem_splitOnP {text l : Bytes} (h : l ∈ text.splitOnP isEol) : OneLine l := by
  induction text generalizing l with
  | nil =>
    rw [List.splitOnP_nil, List.mem_singleton] at h
    subst h
    exact fun c hc => by cases hc
  | cons c text ih =>
    rw [List.splitOnP_cons_eq_if_modifyHead] at h
    split_ifs at h with hc
    · rcases List.mem_cons.1 h with rfl | h
      · exact fun c hc => by cases hc
      · exact ih h
    · obtain ⟨f, fs, hfs⟩ := List.exists_cons_of_ne_nil (List.splitOnP_ne_nil isEol text)
      rw [hfs] at h ih
      rcases List.mem_cons.1 h with rfl | h
      · intro d hd
        rcases List.mem_cons.1 hd with rfl | hd
        · simpa using hc
        · exact ih List.mem_cons_self d hd
      · exact ih (List.mem_cons_of_mem f h)

theorem settled_readString {text : Bytes} {params : Params} (h : readString text = some params) :
    Settled params := by
  obtain ⟨s, hread, rfl⟩ := Option.map_eq_some_iff.1 h
  exact settled_foldlM (fun l hl => oneLine_of_mem_splitOnP hl) (Or.inl rfl) settled_empty hread

theorem Settled.param {params : Params} (h : Settled params) {ns k v : Bytes}
    (hv : param params ns k = some v) : RowBack k v ∧ strip v = v := by
  rw [← lookup_sect] at hv
  exact h.sect ns (k, v) (Assoc.mem_entries_iff.2 hv)

/-- **To write what was read loses nothing**: for every text that can be read, what is written of it
can be read again, with the same properties in the same sections. -/
theorem readString_writeString {text : Bytes} {params : Params}
    (h : readString text = some params) :
    ∃ params', readString (writeString params) = some params' ∧
      ∀ ns k, param params' ns k = param params ns k := by
  have hsettled := settled_readString h
  obtain ⟨params', hread, hparam⟩ := readString_writeString_of_writable hsettled.writable
  refine ⟨params', hread, fun ns k => ?_⟩
  rw [hparam]
  cases hv : ConfFile.param params ns k with
  | none => rfl
  | some v => rw [Option.map_some, (hsettled.param hv).2]

/-- A text with a comment, a header and lines that end in different ways. -/
def sample : Bytes := bytes "; centre\n\rFTPUser = gw\r\n[log] all\nsize=\n"

theorem readString_writeString_sample :
    ∃ params', readString (writeString ((readString sample).getD Assoc.empty)) = some params' ∧
      ∀ ns k, param params' ns k = param ((readString sample).getD Assoc.empty) ns k := by
  have hsome : (readString sample).isSome = true := by decide
  obtain ⟨params, hparams⟩ := Option.isSome_iff_exists.1 hsome
  rw [hparams]
  exact readString_writeString hparams

end NoSpam.ConfigTiny
