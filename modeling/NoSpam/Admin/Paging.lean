import Mathlib.Data.List.Flatten
import NoSpam.Mail.QuarantineInfo

/-!
# The pages of the quarantine

The web interface shows the quarantined mails of a user page by page: `PageTool` computes where a
page starts and how many mails it has, and `maillist` collects them.  The ranges of the pages
partition the list, but `maillist` stops one mail behind the end of its range, so each page except
the last also shows the first mail of the next one.
-/

namespace NoSpam.Admin.Paging

open Text QuarantineInfo

/-! ## The pages -/

/-- `PAGENUM`. -/
def pagenum : ℤ := 10

/-- `$allowedPageSizes`. -/
def allowedPageSizes : List ℤ := [10, 20, 40, 80, 100]

/-- `PageTool`. -/
structure PageTool where
  pageSize : ℤ
  pageNo : ℤ
  totalNo : ℤ
  totalPage : ℤ
  start : ℤ
  stop : ℤ
  num : ℤ
deriving DecidableEq

/-- The page size, as the constructor of `PageTool` normalises it. -/
def normalPageSize (pageSize : ℤ) : ℤ :=
  if pageSize < allowedPageSizes.min?.getD 0 ∨ allowedPageSizes.max?.getD 0 < pageSize then pagenum
  else pageSize

/-- The constructor of `PageTool`. -/
def pageTool (pageNo totalNo pageSize : ℤ) : PageTool :=
  let totalNo := max 0 totalNo
  let pageSize := normalPageSize pageSize
  let totalPage := (totalNo - 1 + pageSize).tdiv pageSize
  let pageNo := if pageNo < 1 ∨ totalPage < pageNo then 1 else pageNo
  let start := (pageNo - 1) * pageSize + 1
  let stop := min totalNo (start + pageSize - 1)
  ⟨pageSize, pageNo, totalNo, totalPage, start, stop, stop - start + 1⟩

/-! ## The list of a page -/

/-- What `init_maillist` keeps of a mail. -/
structure Kept where
  info : Bytes
  time : Bytes
  file : Bytes
  pid : Bytes
deriving DecidableEq

/-- A mail on a page, with what its info file says. -/
structure Listed where
  mail : Kept
  shown : Shown
deriving DecidableEq

section

variable (readInfo : Bytes → Option Shown)

/-- The loop of `maillist`, with the number `i` of the mails before. -/
def collect (start stop : ℤ) : ℤ → List Kept → List Listed
  | _, [] => []
  | i, mail :: rest =>
      if i < start then collect start stop (i + 1) rest
      else if stop < i then []
      else
        match readInfo mail.info with
        | none => collect start stop i rest
        | some shown => ⟨mail, shown⟩ :: collect start stop (i + 1) rest

/-- `maillist`: the mails from number `start`, none where the range is not inside the list. -/
def maillist (mails : List Kept) (start num : ℤ) : Option (List Listed) :=
  let start := start - 1
  if start < 0 ∨ num < 0 ∨ (mails.length : ℤ) < start + num then none
  else some (collect readInfo start (start + num) 0 mails)

/-- The page of the quarantine with this number. -/
def page (mails : List Kept) (pageSize pageNo : ℤ) : PageTool :=
  pageTool pageNo mails.length pageSize

/-- What a page shows. -/
def showPage (mails : List Kept) (pageSize pageNo : ℤ) : Option (List Listed) :=
  maillist readInfo mails (page mails pageSize pageNo).start (page mails pageSize pageNo).num

/-- The numbers of the pages. -/
def pageNumbers (mails : List Kept) (pageSize : ℤ) : List ℤ :=
  (List.range (page mails pageSize 1).totalPage.toNat).map fun k : ℕ => (k : ℤ) + 1

/-- The range of a page. -/
def range (p : PageTool) : List ℤ := (List.range p.num.toNat).map fun k : ℕ => p.start + k

/-- What the pages show, one after the other. -/
def walk (mails : List Kept) (pageSize : ℤ) : List Listed :=
  (pageNumbers mails pageSize).flatMap fun pageNo =>
    (showPage readInfo mails pageSize pageNo).getD []

/-- The mails with their info, where the info file can be read. -/
def listed (mails : List Kept) : List Listed :=
  mails.filterMap fun mail => (readInfo mail.info).map fun shown => ⟨mail, shown⟩

/-- The mails with the numbers from `first` to `last`, counted from 1. -/
def items (mails : List Kept) (first last : ℤ) : List Kept :=
  (mails.take last.toNat).drop (first - 1).toNat

/-- Paging as it should be: the ranges of the pages partition the numbers of the mails in their
order, each page shows the mails of its range, and all pages together show each mail once. -/
structure Paged (mails : List Kept) (pageSize : ℤ) : Prop where
  partition : ((pageNumbers mails pageSize).flatMap fun pageNo =>
      range (page mails pageSize pageNo)) =
    (List.range mails.length).map fun k : ℕ => (k : ℤ) + 1
  shows : ∀ pageNo, showPage readInfo mails pageSize pageNo = some (listed readInfo
    (items mails (page mails pageSize pageNo).start
      (min ((page mails pageSize pageNo).start + (page mails pageSize pageNo).num - 1)
        mails.length)))
  once : (walk readInfo mails pageSize).Perm (listed readInfo mails)

end

/-! ## The loop -/

section

variable {readInfo : Bytes → Option Shown} {mails : List Kept} {start stop i : ℤ}

/-- Every info file can be read. -/
def Readable (readInfo : Bytes → Option Shown) (mails : List Kept) : Prop :=
  ∀ mail ∈ mails, (readInfo mail.info).isSome = true

theorem listed_cons (readInfo : Bytes → Option Shown) {mail : Kept} {shown : Shown}
    (h : readInfo mail.info = some shown) (rest : List Kept) :
    listed readInfo (mail :: rest) = ⟨mail, shown⟩ :: listed readInfo rest := by
  rw [listed, List.filterMap_cons_some (by rw [h, Option.map_some])]
  rfl

theorem length_listed (hread : Readable readInfo mails) :
    (listed readInfo mails).length = mails.length := by
  induction mails with
  | nil => rfl
  | cons mail rest ih =>
    obtain ⟨hmail, hrest⟩ := List.forall_mem_cons.1 hread
    obtain ⟨shown, hshown⟩ := Option.isSome_iff_exists.1 hmail
    rw [listed_cons readInfo hshown, List.length_cons, List.length_cons, ih hrest]

/-- From the start on, everything up to the end and one more. -/
theorem collect_of_le (hread : Readable readInfo mails) (hstart : start ≤ i)
    (hstop : i ≤ stop + 1) :
    collect readInfo start stop i mails = listed readInfo (mails.take (stop + 1 - i).toNat) := by
  induction mails generalizing i with
  | nil => rw [List.take_nil, collect, listed, List.filterMap_nil]
  | cons mail rest ih =>
    obtain ⟨hmail, hrest⟩ := List.forall_mem_cons.1 hread
    obtain ⟨shown, hshown⟩ := Option.isSome_iff_exists.1 hmail
    rw [collect, if_neg (not_lt.2 hstart)]
    by_cases hi : stop < i
    · rw [if_pos hi, (by omega : (stop + 1 - i).toNat = 0), List.take_zero, listed,
        List.filterMap_nil]
    · rw [if_neg hi, (by omega : (stop + 1 - i).toNat = (stop + 1 - (i + 1)).toNat + 1),
        List.take_succ_cons, listed_cons readInfo hshown, hshown]
      exact congrArg (_ :: ·) (ih hrest (by omega) (by omega))

theorem collect_eq (hread : Readable readInfo mails) (hi : i ≤ start) (hstop : start ≤ stop + 1) :
    collect readInfo start stop i mails =
      listed readInfo ((mails.drop (start - i).toNat).take (stop + 1 - start).toNat) := by
  induction mails generalizing i with
  | nil => rw [List.drop_nil, List.take_nil, collect, listed, List.filterMap_nil]
  | cons mail rest ih =>
    by_cases hlt : i < start
    · rw [collect, if_pos hlt, ih (List.forall_mem_cons.1 hread).2 (by omega),
        (by omega : (start - i).toNat = (start - (i + 1)).toNat + 1), List.drop_succ_cons]
    · obtain rfl : i = start := by omega
      rw [collect_of_le hread le_rfl hstop, (by omega : (i - i).toNat = 0), List.drop_zero]

theorem maillist_eq (hread : Readable readInfo mails) {skip num : ℕ}
    (hle : skip + num ≤ mails.length) :
    maillist readInfo mails (skip + 1) num =
      some (listed readInfo ((mails.drop skip).take (num + 1))) := by
  rw [maillist, if_neg (by omega), collect_eq hread (by omega) (by omega)]
  congr 4 <;> omega

theorem Readable.drop_take (hread : Readable readInfo mails) (skip num : ℕ) :
    Readable readInfo ((mails.drop skip).take num) :=
  fun mail hmail => hread mail (List.mem_of_mem_drop (List.mem_of_mem_take hmail))

end

/-! ## The constructor -/

section

variable (mails : List Kept) (pageSize : ℤ)

/-- The normalised page size as a natural number. -/
def size (pageSize : ℤ) : ℕ := (normalPageSize pageSize).toNat

theorem cast_size (pageSize : ℤ) : (size pageSize : ℤ) = normalPageSize pageSize ∧
    0 < size pageSize := by
  have hmin : allowedPageSizes.min?.getD 0 = 10 := by decide
  have hmax : allowedPageSizes.max?.getD 0 = 100 := by decide
  have hle : 10 ≤ normalPageSize pageSize := by
    rw [normalPageSize, hmin, hmax]
    split_ifs with h
    · exact le_rfl
    · omega
  rw [size]
  omega

/-- The number of pages. -/
def pages : ℕ := (mails.length + size pageSize - 1) / size pageSize

theorem lt_pages_iff {k : ℕ} : k < pages mails pageSize ↔ k * size pageSize < mails.length := by
  have hpos := (cast_size pageSize).2
  rw [pages, Nat.lt_iff_add_one_le, Nat.le_div_iff_mul_le hpos, Nat.succ_mul]
  omega

theorem totalPage_page (pageNo : ℤ) :
    (page mails pageSize pageNo).totalPage = pages mails pageSize := by
  obtain ⟨hcast, hpos⟩ := cast_size pageSize
  have hsum : max 0 (mails.length : ℤ) - 1 + normalPageSize pageSize =
      ((mails.length + size pageSize - 1 : ℕ) : ℤ) := by omega
  dsimp only [page, pageTool]
  rw [hsum, ← hcast, pages, Int.ofNat_tdiv]

/-- Where a page stands: behind `k` full pages. -/
theorem page_eq (pageNo : ℤ) : ∃ k : ℕ, k * size pageSize ≤ mails.length ∧
    (∀ j < pages mails pageSize, pageNo = (j : ℤ) + 1 → k = j) ∧
    (page mails pageSize pageNo).start = (k * size pageSize : ℕ) + 1 ∧
    (page mails pageSize pageNo).num =
      (min (size pageSize) (mails.length - k * size pageSize) : ℕ) ∧
    (page mails pageSize pageNo).stop =
      (k * size pageSize + min (size pageSize) (mails.length - k * size pageSize) : ℕ) := by
  have htotal := totalPage_page mails pageSize pageNo
  obtain ⟨hcast, hpos⟩ := cast_size pageSize
  have hplace : ∃ k : ℕ, k * size pageSize ≤ mails.length ∧
      (∀ j < pages mails pageSize, pageNo = (j : ℤ) + 1 → k = j) ∧
      (if pageNo < 1 ∨ (page mails pageSize pageNo).totalPage < pageNo then 1 else pageNo) =
        (k : ℤ) + 1 := by
    rw [htotal]
    split_ifs with hout
    · exact ⟨0, by omega, by omega, rfl⟩
    · have hk : (pageNo - 1).toNat < pages mails pageSize := by omega
      exact ⟨(pageNo - 1).toNat, ((lt_pages_iff mails pageSize).1 hk).le, by omega, by omega⟩
  obtain ⟨k, hk, hunique, hno⟩ := hplace
  have hstart : (page mails pageSize pageNo).start = (k * size pageSize : ℕ) + 1 := by
    rw [Nat.cast_mul, hcast, eq_sub_of_add_eq hno.symm]
    rfl
  have hstop : (page mails pageSize pageNo).stop =
      (k * size pageSize + min (size pageSize) (mails.length - k * size pageSize) : ℕ) := by
    have hdef : (page mails pageSize pageNo).stop = min (max 0 (mails.length : ℤ))
        ((page mails pageSize pageNo).start + normalPageSize pageSize - 1) := rfl
    rw [hdef, hstart, ← hcast]
    omega
  have hnum : (page mails pageSize pageNo).num =
      (page mails pageSize pageNo).stop - (page mails pageSize pageNo).start + 1 := rfl
  refine ⟨k, hk, hunique, hstart, ?_, hstop⟩
  rw [hnum, hstop, hstart]
  omega

end

/-! ## The pages of a list -/

section

variable {readInfo : Bytes → Option Shown} {mails : List Kept} {pageSize : ℤ}

/-- A page shows the mails of its range, and the one behind if there is one. -/
theorem showPage_eq (hread : Readable readInfo mails) {pageNo : ℤ} {k : ℕ}
    (hk : k * size pageSize ≤ mails.length)
    (hstart : (page mails pageSize pageNo).start = (k * size pageSize : ℕ) + 1)
    (hnum : (page mails pageSize pageNo).num =
      (min (size pageSize) (mails.length - k * size pageSize) : ℕ)) :
    showPage readInfo mails pageSize pageNo = some (listed readInfo
      ((mails.drop (k * size pageSize)).take
        (min (size pageSize) (mails.length - k * size pageSize) + 1))) := by
  rw [showPage, hstart, hnum]
  exact maillist_eq hread (by omega)

/-- The ranges of the pages partition the numbers of the mails. -/
theorem partition (mails : List Kept) (pageSize : ℤ) :
    (pageNumbers mails pageSize).flatMap (fun pageNo => range (page mails pageSize pageNo)) =
      (List.range mails.length).map fun k : ℕ => (k : ℤ) + 1 := by
  have hupto : ∀ n ≤ pages mails pageSize,
      (List.range n).flatMap (fun k : ℕ => range (page mails pageSize ((k : ℤ) + 1))) =
        (List.range (min mails.length (n * size pageSize))).map fun k : ℕ => (k : ℤ) + 1 := by
    intro n hn
    induction n with
    | zero => simp
    | succ n ih =>
      obtain ⟨k, hk, hunique, hstart, hnum, -⟩ := page_eq mails pageSize ((n : ℤ) + 1)
      obtain rfl := hunique n hn rfl
      rw [List.range_succ, List.flatMap_append, ih (by omega), List.flatMap_singleton, range, hnum,
        hstart, Nat.min_eq_right hk, Nat.succ_mul, Int.toNat_natCast,
        (by omega : min mails.length (k * size pageSize + size pageSize) = k * size pageSize +
          min (size pageSize) (mails.length - k * size pageSize)), List.range_add, List.map_append,
        List.map_map]
      congr 2
      funext j
      simp only [Function.comp_apply]
      push_cast
      ring
  have hall : mails.length ≤ pages mails pageSize * size pageSize :=
    not_lt.1 fun h => lt_irrefl _ ((lt_pages_iff mails pageSize).2 h)
  rw [pageNumbers, totalPage_page, Int.toNat_natCast, List.flatMap_map, hupto _ le_rfl,
    Nat.min_eq_left hall]

/-- A page shows exactly its range if no mail is behind it. -/
theorem showPage_eq_items_iff (hread : Readable readInfo mails) (pageNo : ℤ) :
    showPage readInfo mails pageSize pageNo = some (listed readInfo
      (items mails (page mails pageSize pageNo).start
        (min ((page mails pageSize pageNo).start + (page mails pageSize pageNo).num - 1)
          mails.length))) ↔
      (page mails pageSize pageNo).stop = mails.length := by
  obtain ⟨k, hk, -, hstart, hnum, hstop⟩ := page_eq mails pageSize pageNo
  have hitems : items mails (page mails pageSize pageNo).start
      (min ((page mails pageSize pageNo).start + (page mails pageSize pageNo).num - 1)
        mails.length) = (mails.drop (k * size pageSize)).take
          (min (size pageSize) (mails.length - k * size pageSize)) := by
    rw [items, hstart, hnum, List.drop_take]
    congr 1
    · omega
    · congr 1
      omega
  rw [hitems, showPage_eq hread hk hstart hnum, hstop, Option.some_inj]
  constructor
  · intro h
    have hlength := congrArg List.length h
    rw [length_listed (hread.drop_take _ _), length_listed (hread.drop_take _ _),
      List.length_take, List.length_take, List.length_drop] at hlength
    omega
  · intro h
    rw [List.take_of_length_le (by rw [List.length_drop]; omega),
      List.take_of_length_le (by rw [List.length_drop]; omega)]

/-- What the first pages show: at least their ranges, and one mail more. -/
theorem lt_length_walk (hread : Readable readInfo mails) (hmany : size pageSize < mails.length)
    {n : ℕ} (hone : 1 ≤ n) (hn : n ≤ pages mails pageSize) :
    min mails.length (n * size pageSize) < ((List.range n).flatMap fun k : ℕ =>
      (showPage readInfo mails pageSize ((k : ℤ) + 1)).getD []).length := by
  have hpage : ∀ k < pages mails pageSize,
      ((showPage readInfo mails pageSize ((k : ℤ) + 1)).getD []).length =
        min (min (size pageSize) (mails.length - k * size pageSize) + 1)
          (mails.length - k * size pageSize) := by
    intro j hj
    obtain ⟨k, hk, hunique, hstart, hnum, -⟩ := page_eq mails pageSize ((j : ℤ) + 1)
    obtain rfl := hunique j hj rfl
    rw [showPage_eq hread hk hstart hnum, Option.getD_some, length_listed (hread.drop_take _ _),
      List.length_take, List.length_drop]
  induction n, hone using Nat.le_induction with
  | base =>
    have hfirst := hpage 0 (by omega)
    simp only [List.range_one, List.flatMap_singleton, hfirst]
    omega
  | succ n hone ih =>
    have hlength := hpage n (by omega)
    have hbefore := ih (by omega)
    rw [List.range_succ, List.flatMap_append, List.length_append, List.flatMap_singleton, hlength,
      Nat.succ_mul]
    omega

/-- **When the pages show each mail once**: for all lists of mails with readable info files and all
page sizes, exactly if the list has room on one page. -/
theorem paged_iff (hread : Readable readInfo mails) :
    Paged readInfo mails pageSize ↔ (mails.length : ℤ) ≤ normalPageSize pageSize := by
  obtain ⟨hcast, hpos⟩ := cast_size pageSize
  constructor
  · intro h
    by_contra hmany
    have hpages : 1 ≤ pages mails pageSize := (lt_pages_iff mails pageSize).2 (by omega)
    have hall : mails.length ≤ pages mails pageSize * size pageSize :=
      not_lt.1 fun h => lt_irrefl _ ((lt_pages_iff mails pageSize).2 h)
    have hwalk := lt_length_walk hread (by omega : size pageSize < mails.length) hpages le_rfl
    have hlength := h.once.length_eq
    rw [walk, pageNumbers, totalPage_page, Int.toNat_natCast, List.flatMap_map,
      length_listed hread] at hlength
    omega
  · intro hone
    refine ⟨partition mails pageSize, fun pageNo => ?_, ?_⟩
    · rw [showPage_eq_items_iff hread]
      obtain ⟨k, hk, -, -, -, hstop⟩ := page_eq mails pageSize pageNo
      rw [hstop, Nat.cast_inj]
      cases k with
      | zero => omega
      | succ k =>
        rw [Nat.succ_mul] at hk ⊢
        omega
    · rw [walk, pageNumbers, totalPage_page, Int.toNat_natCast]
      by_cases hnil : mails = []
      · subst hnil
        have hzero : pages [] pageSize = 0 :=
          Nat.eq_zero_of_not_pos fun h =>
            absurd ((lt_pages_iff [] pageSize).1 h) (Nat.not_lt_zero _)
        rw [hzero]
        rfl
      · have hlt : 0 < pages mails pageSize :=
          (lt_pages_iff mails pageSize).2 (by rw [Nat.zero_mul]; exact List.length_pos_iff.2 hnil)
        have hle : ¬ 1 < pages mails pageSize := fun h => by
          have := (lt_pages_iff mails pageSize).1 h
          omega
        obtain ⟨k, hk, hunique, hstart, hnum, -⟩ := page_eq mails pageSize ((0 : ℕ) + 1)
        obtain rfl := hunique 0 hlt rfl
        rw [(by omega : pages mails pageSize = 1), List.range_one, List.map_singleton,
          List.flatMap_singleton, showPage_eq hread hk hstart hnum, Option.getD_some, Nat.zero_mul,
          List.drop_zero, List.take_of_length_le (by omega)]

end

/-- Mails whose info files all say the same. -/
def noInfo (info : Bytes) : Option Shown := some ⟨info, [[]], [], [], [], []⟩

/-- Mails of one second, by the number of the process. -/
def someMails (n : ℕ) : List Kept :=
  (List.range n).map fun pid => ⟨decimal pid, bytes "1", bytes "1." ++ decimal pid, decimal pid⟩

theorem paged_three : Paged noInfo (someMails 3) 10 :=
  (paged_iff (fun _ _ => rfl)).2 (by decide +kernel)

/-- With eleven mails the first page shows all of them, and the second the last one again. -/
theorem eleventh_mail_twice :
    ¬ ∀ readInfo mails pageSize, Readable readInfo mails → Paged readInfo mails pageSize := by
  intro h
  have hexact := (h noInfo (someMails 11) 10 fun _ _ => rfl).shows 1
  exact absurd hexact (by decide +kernel)

end NoSpam.Admin.Paging
