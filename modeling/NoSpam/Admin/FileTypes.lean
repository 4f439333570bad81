import NoSpam.Base.Assoc
import NoSpam.Base.Columns
import NoSpam.Base.Numeric
import NoSpam.Base.Scalar

/-!
# User file types

`filetypes.ns` keeps the file types of the users in a text file, behind a line with a counter from
which the form for a new type takes its number.  `params.ns` reads the file for the pages, and
`load_user_filetype` for the content parser.  What is expected of a run of requests is that every
type gets a number of its own and that both readers read back the table (`Meets`).
-/

namespace NoSpam.Admin.FileTypes

open Text Php

/-! ## The table of the pages -/

/-- `$FileType`: names and extensions under the numbers. -/
abbrev Types := Assoc Bytes (Bytes × Bytes)

/-- The types that `params.ns` adds to those of the file, untranslated. -/
def builtinTypes : List (Bytes × Bytes × Bytes) :=
  [(bytes "1", bytes "ZIP File", []), (bytes "2", bytes "Audio File", []),
    (bytes "3", bytes "Image File", []), (bytes "4", bytes "Text File", []),
    (bytes "5", bytes "Exe File", []), (bytes "6", bytes "Other File", [])]

/-- The type of a line. -/
def typeOfLine (sfiletype : Bytes) : Bytes × Bytes × Bytes :=
  (part 9 sfiletype 0, part 9 sfiletype 1, part 9 sfiletype 2)

/-- The types of the lines after the first. -/
def typesOf (content : Bytes) : Types :=
  Assoc.ofList ((((trim content).splitOn 10).drop 1).map typeOfLine)

/-- `params.ns`: `$MaxTypeID`, which is null without a file, and `$FileType`. -/
def readTypes (file : Option Bytes) : Option ℤ × Types :=
  (file.map fun content => intval (((trim content).splitOn 10).headD []),
    builtinTypes.foldl (fun m e => m.put e.1 e.2) ((file.map typesOf).getD Assoc.empty))

/-! ## The requests -/

/-- The line of a type. -/
def row (e : Bytes × Bytes × Bytes) : Bytes := e.1 ++ 9 :: (e.2.1 ++ 9 :: (e.2.2 ++ [10]))

/-- `savefile`. -/
def savefile (MaxTypeID : Option ℤ) (types : Types) : Bytes :=
  let sorted := types.entries.mergeSort fun e e' => toNumber e.1 ≤ toNumber e'.1
  trim (MaxTypeID.elim [] showInt ++ 10 ::
    (sorted.filter fun e => 150 ≤ toNumber e.1).flatMap row)

/-- The number that the form of `add` offers. -/
def offered (MaxTypeID : Option ℤ) : Bytes :=
  let id := MaxTypeID.getD 0 + 1
  if id < 150 then bytes "150" else showInt id

/-- `$note`: the extensions on their lines become a list with commas. -/
def noteOf (note : Bytes) : Bytes :=
  ((trim note).filter fun c => c ≠ 13).map fun c => if c = 10 then 44 else c

/-- `save`: the file, if the request is accepted. -/
def save (modify : Bool) (id name note : Bytes) (file : Option Bytes) : Option Bytes :=
  let s := readTypes file
  if !isNumeric id then none
  else if modify then some (savefile s.1 (s.2.put id (name, noteOf note)))
  else if (s.2.lookup id).isSome then none
  else some (savefile (some (s.1.getD 0 + 1)) (s.2.put id (name, noteOf note)))

/-- A request: the form for a new type or for one that exists, and what is submitted with it, or a
deletion. -/
inductive Request where
  | add (name note : Bytes)
  | modify (id name note : Bytes)
  | del (ids : List Bytes)

/-- The file after a request, if it is accepted.  What is submitted for a type that exists is not
checked against the table. -/
def Request.run (file : Option Bytes) : Request → Option Bytes
  | .add name note => save false (offered (readTypes file).1) name note file
  | .modify id name note => save true id name note file
  | .del ids =>
      let s := readTypes file
      some (savefile s.1 (ids.foldl Assoc.unset s.2))

/-! ## The engine -/

/-- One round of the loop of `load_user_filetype`. -/
def loadLine (line : Bytes) : Option (Bytes × Bytes × List Bytes) :=
  let line := Perl.chomp line
  if line = [] then none
  else
    let num := part 9 line 0
    let type := part 9 line 1
    let exts := part 9 line 2
    if Perl.isTrue num && Perl.isTrue type && Perl.isTrue exts then
      some (type, num, fields 44 exts)
    else none

/-- `load_user_filetype`: what it adds, numbers and extensions under the names.  There is one
`@exts`, which every type refers to. -/
def loadUserFiletype (file : Option Bytes) : Assoc Bytes (Bytes × List Bytes) :=
  let types := (((file.map (lines 10)).getD []).drop 1).filterMap loadLine
  let exts := (types.getLast?.map fun e => e.2.2).getD []
  Assoc.ofList (types.map fun e => (e.1, e.2.1, exts))

/-! ## The purpose -/

/-- The file, the user types that there are, and the numbers that there have been. -/
structure World where
  file : Option Bytes := none
  table : Types := Assoc.empty
  used : List Bytes := []

/-- What a request does; one that is refused does nothing. -/
def World.step (w : World) (r : Request) : World :=
  match r.run w.file with
  | none => w
  | some file =>
      match r with
      | .add name note =>
          let id := offered (readTypes w.file).1
          { file := file, table := w.table.put id (name, noteOf note), used := id :: w.used }
      | .modify id name note =>
          { w with
            file := file
            table := if (w.table.lookup id).isSome then w.table.put id (name, noteOf note)
              else w.table }
      | .del ids => { w with file := file, table := ids.foldl Assoc.unset w.table }

/-- Both readers read back the table. -/
structure ReadBack (w : World) : Prop where
  pages : ∀ id v, 150 ≤ toNumber id ∧ (readTypes w.file).2.lookup id = some v ↔
    w.table.lookup id = some v
  engine : ∀ type num exts, (loadUserFiletype w.file).lookup type = some (num, exts) ↔
    ∃ note, w.table.lookup num = some (type, note) ∧ exts = fields 44 note

/-- What is expected of a request: a new type is accepted, under a number that there has not been,
and both readers read back the table. -/
structure Good (w : World) (r : Request) : Prop where
  accepted : ∀ name note, r = .add name note → (r.run w.file).isSome
  fresh : ∀ name note, r = .add name note → offered (readTypes w.file).1 ∉ w.used
  readBack : ReadBack (w.step r)

/-- Every request of a run does what is expected. -/
def Meets : World → List Request → Prop
  | _, [] => True
  | w, r :: rs => Good w r ∧ Meets (w.step r) rs

/-- Texts that suit both readers. -/
structure Suits (name note : Bytes) : Prop where
  name : 9 ∉ name ∧ 10 ∉ name ∧ Perl.isTrue name = true
  note : 9 ∉ note ∧ Perl.isTrue note = true

/-- What is submitted for a type is for one that there is, or nothing of it reaches the file. -/
def Addressed (w : World) : Request → Prop
  | .modify id _ _ => (w.table.lookup id).isSome ∨ (isNumeric id = true → toNumber id < 150)
  | _ => True

/-- The request adds the first type, or stores suitable texts for one that there is. -/
def Sound (w : World) : Request → Prop
  | .add name note => w.used = [] ∧ Suits name (noteOf note)
  | .modify id name note => (w.table.lookup id).isSome → Suits name (noteOf note)
  | .del _ => True

/-- Every request of a run is addressed. -/
def AllAddressed : World → List Request → Prop
  | _, [] => True
  | w, r :: rs => Addressed w r ∧ AllAddressed (w.step r) rs

/-- Every request of a run is sound. -/
def AllSound : World → List Request → Prop
  | _, [] => True
  | w, r :: rs => Sound w r ∧ AllSound (w.step r) rs

end NoSpam.Admin.FileTypes
