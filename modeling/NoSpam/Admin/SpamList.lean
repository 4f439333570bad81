import NoSpam.Admin.Lists
import NoSpam.Base.Run

/-!
# The page of the white and black lists

`list.ns` shows six lists of the configuration as one table whose rows are numbered from 1.  Each
request builds the table, changes it, and writes one list or all of them back.  Rows are addressed
by their numbers; only `save` looks whether a key is on another list.
-/

namespace NoSpam.Admin.SpamList

open Text Php ConfFile

/-- `$allListTypes`. -/
inductive ListType
  | WhiteIP
  | BlackIP
  | WhiteDomain
  | BlackDomain
  | WhiteFrom
  | BlackFrom
  deriving DecidableEq

namespace ListType

/-- The types in their order. -/
def all : List ListType := [WhiteIP, BlackIP, WhiteDomain, BlackDomain, WhiteFrom, BlackFrom]

/-- The name of a type. -/
def name : ListType → Bytes
  | WhiteIP => bytes "WhiteIP"
  | BlackIP => bytes "BlackIP"
  | WhiteDomain => bytes "WhiteDomain"
  | BlackDomain => bytes "BlackDomain"
  | WhiteFrom => bytes "WhiteFrom"
  | BlackFrom => bytes "BlackFrom"

/-- The parameter of a list. -/
def sList (t : ListType) : Bytes := t.name ++ bytes "List"

/-- The other list of the kind. -/
def opposite : ListType → ListType
  | WhiteIP => BlackIP
  | BlackIP => WhiteIP
  | WhiteDomain => BlackDomain
  | BlackDomain => WhiteDomain
  | WhiteFrom => BlackFrom
  | BlackFrom => WhiteFrom

end ListType

/-- The section of the lists. -/
def SpamEngine : Bytes := bytes "SpamEngine"

/-- A row of `$List`. -/
structure Item where
  type : Bytes
  key : Bytes
  note : Bytes
  deriving DecidableEq

/-- The six lists. -/
abbrev Lists := ListType → Assoc Bytes Bytes

/-- The lists in an array of parameters. -/
def readLists (params : Params) : Lists := fun t => getList params t.sList SpamEngine

/-- The lists in a file. -/
def lists (file : Bytes) : Lists := readLists (parseIni file)

/-- `$List`. -/
def table (L : Lists) : List Item :=
  ListType.all.flatMap fun t => (L t).entries.map fun e => ⟨t.name, e.1, e.2⟩

/-- The row that a text addresses. -/
def row (items : List Item) (key : Bytes) : Option Item :=
  ((items.zipIdx 1).find? fun x => decimal x.2 = key).map Prod.fst

/-- `unset` of the rows that some texts address. -/
def unset (items : List Item) (keys : List Bytes) : List Item :=
  ((items.zipIdx 1).filter fun x => decimal x.2 ∉ keys).map Prod.fst

/-- `$ListBuf[$type]`. -/
def listBuf (items : List Item) (type : Bytes) : Assoc Bytes Bytes :=
  .ofList ((items.filter fun item => item.type = type).map fun item => (item.key, item.note))

/-- `setList` for every type. -/
def setLists (params : Params) (items : List Item) : Option Params :=
  ListType.all.foldlM (fun params t => setList params t.sList (listBuf items t.name) SpamEngine)
    params

/-! ## Export and import -/

/-- A line of `export`. -/
def exportLine (item : Item) : Bytes := item.type ++ 9 :: (item.key ++ 9 :: (item.note ++ [10]))

/-- `export`. -/
def exportText (L : Lists) : Bytes := (table L).flatMap exportLine

/-- A line of a file that is imported. -/
def importLine (line : Bytes) : Option Item :=
  let line := trim line
  if !Perl.isTrue line then none
  else if !Perl.isTrue (part 9 line 0) || !Perl.isTrue (part 9 line 1) then none
  else some ⟨part 9 line 0, part 9 line 1, part 9 line 2⟩

/-- The items of a file that is imported. -/
def importItems (text : Bytes) : List Item := (lines 10 text).filterMap importLine

/-! ## Requests -/

/-- The requests that change the lists; a deletion is sent the number of a row or an array of
them. -/
inductive Request
  | add (option : ListType) (key note : Bytes)
  | modify (option : ListType) (oKey key note : Bytes)
  | del (keys : List Bytes)
  | import (text : Bytes)

/-- The ways a request is refused. -/
inductive Refusal
  | permission
  | exists
  | bothLists
  | ipFormat

/-- The end of `save`: the key is not to be on a list of another type, and the list is written. -/
def saveItem (params : Params) (items : List Item) (option : ListType) (key note : Bytes) :
    Except Refusal Params :=
  if items.any fun item => Perl.lc item.key = Perl.lc key && item.type ≠ option.name then
    .error .bothLists
  else
    let items := items ++ [⟨option.name, key, note⟩]
    match setList params option.sList (listBuf items option.name) SpamEngine with
    | none => .error .ipFormat
    | some params => .ok params

/-- All lists are written. -/
def saveLists (params : Params) (items : List Item) : Except Refusal Params :=
  match setLists params items with
  | none => .error .ipFormat
  | some params => .ok params

/-- What comes of a request: a refusal, or parameters to save.  `save` of a new key looks for it
among the numbers of the rows, and `import` does not ask for a permission. -/
def Request.outcome (Privilege : Option Bytes) (file : Bytes) (r : Request) :
    Except Refusal Params :=
  let params := parseIni file
  let items := table (readLists params)
  match r with
  | .import text => saveLists params (items ++ importItems text)
  | .del keys =>
      if !adminPerm Privilege PERM_ADMIN_WRITE then .error .permission
      else saveLists params (unset items keys)
  | .add option key note =>
      if !adminPerm Privilege PERM_ADMIN_WRITE then .error .permission
      else if (row items key).isSome then .error .exists
      else saveItem params items option key note
  | .modify option oKey key note =>
      if !adminPerm Privilege PERM_ADMIN_WRITE then .error .permission
      else saveItem params (unset items [oKey]) option key note

/-- The file after a request. -/
def step (Privilege : Option Bytes) (file : Bytes) (r : Request) : Bytes :=
  match r.outcome Privilege file with
  | .error _ => file
  | .ok params => ConfFile.save Privilege params file

/-! ## What the administrator expects -/

/-- No key is on both lists of a kind, in any case. -/
def Exclusive (L : Lists) : Prop :=
  ∀ t, ∀ e ∈ (L t).entries, ∀ e' ∈ (L t.opposite).entries, Perl.lc e.1 ≠ Perl.lc e'.1

/-- An entry is in a row that some texts address. -/
def Addressed (L : Lists) (keys : List Bytes) (t : ListType) (k : Bytes) : Prop :=
  ∃ key ∈ keys, ∃ n, row (table L) key = some ⟨t.name, k, n⟩

/-- The change that a request is to make: the entry of the key is set, that of the modified row is
taken away, those of the addressed rows are deleted, and nothing else happens. -/
def Changes (L L' : Lists) : Request → Prop
  | .add option key note => ∀ t k, (L' t).lookup k =
      if t = option ∧ k = trim key then some (storedNote note) else (L t).lookup k
  | .modify option oKey key note =>
      ∃ k₀ n₀, row (table L) oKey = some ⟨option.name, k₀, n₀⟩ ∧
        (trim key = k₀ ∨ (L option).lookup (trim key) = none) ∧
        ∀ t k, (L' t).lookup k =
          if t = option ∧ k = trim key then some (storedNote note)
          else if t = option ∧ k = k₀ then none else (L t).lookup k
  | .del keys => ∀ t k, (Addressed L keys t k → (L' t).lookup k = none) ∧
      (¬ Addressed L keys t k → (L' t).lookup k = (L t).lookup k)
  | .import _ => True

/-- The exported file brings the lists back where there are none. -/
def Restored (Privilege : Option Bytes) (L : Lists) : Prop :=
  ∀ file, (∀ t, lists file t = .empty) → lists (step Privilege file (.import (exportText L))) = L

/-- A request keeps the lists apart, changes what it addresses, and leaves lists that can be
exported and imported. -/
structure Lawful (Privilege : Option Bytes) (file : Bytes) (r : Request) : Prop where
  exclusive : Exclusive (lists (step Privilege file r))
  changes : (∃ params, r.outcome Privilege file = .ok params) →
    Changes (lists file) (lists (step Privilege file r)) r
  restored : adminPerm Privilege PERM_ADMIN_WRITE = true →
    Restored Privilege (lists (step Privilege file r))

/-! ## When it does -/

/-- A key and a note that are kept as they are, but for the commas of the note and the blanks around
it. -/
structure CleanItem (key note : Bytes) : Prop where
  isItem : IsItem (key, note)
  sharp : 35 ∉ note
  tab : 9 ∉ key ∧ 9 ∉ note
  trim_key : trim key = key
  isTrue : Perl.isTrue key = true

instance (key note : Bytes) : Decidable (CleanItem key note) :=
  decidable_of_iff (IsItem (key, note) ∧ 35 ∉ note ∧ (9 ∉ key ∧ 9 ∉ note) ∧ trim key = key ∧
      Perl.isTrue key = true)
    ⟨fun ⟨h₁, h₂, h₃, h₄, h₅⟩ => ⟨h₁, h₂, h₃, h₄, h₅⟩,
      fun ⟨h₁, h₂, h₃, h₄, h₅⟩ => ⟨h₁, h₂, h₃, h₄, h₅⟩⟩

/-- The requests that do: a modified row is one of the list that is written, and its new key is not
that of another row; a file puts no key on both lists of a kind. -/
def Regular (L : Lists) : Request → Prop
  | .add _ key note => CleanItem key note
  | .modify option oKey key note =>
      CleanItem key note ∧ ∃ item ∈ row (table L) oKey, item.type = option.name ∧
        (key = item.key ∨ (L option).lookup key = none)
  | .del _ => True
  | .import text =>
      (∀ item ∈ importItems text, (∃ t ∈ ListType.all, item.type = t.name) →
        CleanItem item.key item.note) ∧
      ∀ t ∈ ListType.all, ∀ item ∈ table L ++ importItems text,
        ∀ item' ∈ table L ++ importItems text, item.type = t.name →
          item'.type = t.opposite.name → Perl.lc item.key ≠ Perl.lc item'.key

instance (L : Lists) : (r : Request) → Decidable (Regular L r)
  | .add _ key note => inferInstanceAs (Decidable (CleanItem key note))
  | .modify _ _ _ _ => inferInstanceAs (Decidable (_ ∧ ∃ _ ∈ _, _))
  | .del _ => isTrue trivial
  | .import _ => inferInstanceAs (Decidable (_ ∧ _))

end NoSpam.Admin.SpamList
