import NoSpam.Base.Capture
import NoSpam.Base.Columns
import NoSpam.Base.LineTable
import NoSpam.Base.Scalar

/-!
# The tables of qmail

`AKA::Mail::Controler` lists the routes, the virtual domains and the assignments of users from the
files of qmail, and creates, modifies and deletes an entry by the line that a listing has given it.
An edit reads the lines of a file into a cache, changes them there and writes the cache back.
-/

namespace NoSpam.Controler

open Text Perl Pattern LineTable

/-! ## The files and the cache -/

/-- The files: `smtproutes`, `virtualdomains` and `users/assign`. -/
inductive Table
  | routes
  | virts
  | assigns
deriving DecidableEq

/-- The contents of the files, empty where there is none, and `file_cache`. -/
structure State where
  files : Table → Bytes
  cache : Table → Option (List Bytes)

/-- `s/\r|\n//g`. -/
def strip (line : Bytes) : Bytes := line.filter fun c => c ≠ 13 && c ≠ 10

/-- The lines of a file, as all readers take them. -/
def fileLines (content : Bytes) : List Bytes := (lines 10 content).map strip

/-- `read_file_lines`: the lines in the cache, which takes them from the file if need be. -/
def readFileLines (t : Table) (s : State) : List Bytes × State :=
  match s.cache t with
  | some ls => (ls, s)
  | none =>
      (fileLines (s.files t),
        { s with cache := Function.update s.cache t (some (fileLines (s.files t))) })

/-- `flush_file_lines`. -/
def flushFileLines (s : State) : State where
  files t := ((s.cache t).map (columnText 10)).getD (s.files t)
  cache _ := none

/-- The frame of all edits: the lines in the cache are changed and written. -/
def editLines (t : Table) (f : List Bytes → List Bytes) (s : State) : State :=
  let (ls, s) := readFileLines t s
  flushFileLines { s with cache := Function.update s.cache t (some (f ls)) }

/-- `splice` at an offset, with the number of lines that go and the ones that come. -/
def splice (ls : List Bytes) (offset n : ℕ) (new : List Bytes) : List Bytes :=
  ls.take offset ++ new ++ ls.drop (offset + n)

/-! ## Patterns -/

/-- `s/#.*$//`, on a line without its end. -/
def uncomment (line : Bytes) : Bytes := line.takeWhile (· ≠ 35)

/-- `^\S*`. -/
def word (line : Bytes) : Bytes := line.takeWhile (!isWhite ·)

/-- A digit stands first. -/
def startsWithDigit (l : Bytes) : Bool := l.head?.any isDigit

/-! ## Routes -/

/-- A route; the port is empty where there is none. -/
structure Route where
  fromName : Bytes
  toName : Bytes
  port : Bytes
deriving DecidableEq

/-- `/^(\S*):(\S*):(\d+)/`, and `/^(\S*):(\S*)/` where that does not match. -/
def parseRoute (line : Bytes) : Option Route :=
  let w := word (uncomment line)
  let withPort := (cutLast 58 startsWithDigit w).bind fun p =>
    (cutLast 58 (fun _ => true) p.1).map fun names =>
      (⟨names.1, names.2, p.2.takeWhile isDigit⟩ : Route)
  withPort.or ((cutLast 58 (fun _ => true) w).map fun names => ⟨names.1, names.2, []⟩)

/-- `list_routes`. -/
def listRoutes (s : State) : List (Listed Route) := listing parseRoute (fileLines (s.files .routes))

/-- The line of a route. -/
def routeLine (r : Route) : Bytes :=
  r.fromName ++ 58 :: r.toName ++ if isTrue r.port then 58 :: r.port else []

/-- `create_route`. -/
def createRoute (r : Route) : State → State := editLines .routes (· ++ [routeLine r])

/-- `modify_route`. -/
def modifyRoute (old : Listed Route) (r : Route) : State → State :=
  editLines .routes (splice · old.line 1 [routeLine r])

/-- `delete_route`. -/
def deleteRoute (old : Listed Route) : State → State :=
  editLines .routes (splice · old.line 1 [])

/-! ## Virtual domains -/

/-- A virtual domain; the user is empty where there is none. -/
structure Virt where
  user : Bytes
  domain : Bytes
  prepend : Bytes
deriving DecidableEq

/-- `/^(\S+)\@(\S+):(\S*)/`, and `/^(\S*):(\S*)/` where that does not match. -/
def parseVirt (line : Bytes) : Option Virt :=
  match cutLast 58 (fun _ => true) (word (uncomment line)) with
  | none => none
  | some (front, prepend) =>
      match cutLast 64 (· ≠ []) front with
      | some (user, domain) =>
          if user ≠ [] then some ⟨user, domain, prepend⟩ else some ⟨[], front, prepend⟩
      | none => some ⟨[], front, prepend⟩

/-- `list_virts`. -/
def listVirts (s : State) : List (Listed Virt) := listing parseVirt (fileLines (s.files .virts))

/-- The line of a virtual domain. -/
def virtLine (v : Virt) : Bytes :=
  (if isTrue v.user then v.user ++ 64 :: v.domain else v.domain) ++ 58 :: v.prepend

/-- `create_virt`. -/
def createVirt (v : Virt) : State → State := editLines .virts (· ++ [virtLine v])

/-- `modify_virt`. -/
def modifyVirt (old : Listed Virt) (v : Virt) : State → State :=
  editLines .virts (splice · old.line 1 [virtLine v])

/-- `delete_virt`. -/
def deleteVirt (old : Listed Virt) : State → State :=
  editLines .virts (splice · old.line 1 [])

/-! ## Assignments -/

/-- An assignment of a user. -/
structure Assign where
  mode : UInt8
  address : Bytes
  user : Bytes
  uid : Bytes
  gid : Bytes
  home : Bytes
  dash : Bytes
  preext : Bytes
deriving DecidableEq

/-- The line that ends the assignments. -/
def dot : Bytes := bytes "."

/-- The fields between colons, if the first begins with `+` or `=`. -/
def parseAssign (line : Bytes) : Option Assign :=
  let field (i : ℕ) := (line.splitOn 58).getD i []
  match field 0 with
  | [] => none
  | c :: address =>
      if c = 43 ∨ c = 61 then
        some ⟨c, word address, field 1, field 2, field 3, field 4, field 5, field 6⟩
      else none

/-- `list_assigns`. -/
def listAssigns (s : State) : List (Listed Assign) :=
  listing parseAssign ((fileLines (s.files .assigns)).takeWhile (· ≠ dot))

/-- The line of an assignment. -/
def assignLine (a : Assign) : Bytes :=
  joinFields 58 [a.mode :: a.address, a.user, a.uid, a.gid, a.home, a.dash, a.preext, []]

/-- `create_assign`: at the offset 0, since the counter of the loop before is out of scope. -/
def createAssign (a : Assign) : State → State :=
  editLines .assigns fun ls =>
    splice ls 0 0 [assignLine a] ++ if dot ∈ ls then [] else [dot]

/-- `modify_assign`. -/
def modifyAssign (old : Listed Assign) (a : Assign) : State → State :=
  editLines .assigns (·.set old.line (assignLine a))

/-- `delete_assign`. -/
def deleteAssign (old : Listed Assign) : State → State :=
  editLines .assigns (splice · old.line 1 [])

/-! ## Requests -/

/-- An edit of one of the tables. -/
inductive Request
  | route (edit : Edit Route)
  | virt (edit : Edit Virt)
  | assign (edit : Edit Assign)

/-- The request is carried out. -/
def Request.run : Request → State → State
  | .route (.create r) => createRoute r
  | .route (.modify old r) => modifyRoute old r
  | .route (.delete old) => deleteRoute old
  | .virt (.create v) => createVirt v
  | .virt (.modify old v) => modifyVirt old v
  | .virt (.delete old) => deleteVirt old
  | .assign (.create a) => createAssign a
  | .assign (.modify old a) => modifyAssign old a
  | .assign (.delete old) => deleteAssign old

/-! ## The purpose -/

/-- A field without `:`, `#`, `@`, blanks and line ends. -/
def CleanField (f : Bytes) : Prop := ∀ c ∈ f, c ≠ 58 ∧ c ≠ 35 ∧ c ≠ 64 ∧ isWhite c = false

instance (f : Bytes) : Decidable (CleanField f) :=
  decidable_of_iff (f.all fun c => c ≠ 58 && c ≠ 35 && c ≠ 64 && !isWhite c) (by
    simp [CleanField, List.all_eq_true, and_assoc])

/-- A route with clean names and a positive port or none. -/
def Route.Clean (r : Route) : Prop :=
  CleanField r.fromName ∧ CleanField r.toName ∧ (∀ c ∈ r.port, isDigit c = true) ∧
    r.port ≠ bytes "0"

/-- A virtual domain with clean fields. -/
def Virt.Clean (v : Virt) : Prop :=
  CleanField v.user ∧ CleanField v.domain ∧ CleanField v.prepend

/-- An assignment with one of the two modes and clean fields. -/
def Assign.Clean (a : Assign) : Prop :=
  (a.mode = 43 ∨ a.mode = 61) ∧ ∀ f ∈ [a.address, a.user, a.uid, a.gid, a.home, a.dash, a.preext],
    CleanField f

/-- Lines that end with the only dot. -/
def Terminated (ls : List Bytes) : Prop := ∃ body, ls = body ++ [dot] ∧ dot ∉ body

/-- The request comes from a listing of this state. -/
def Request.Fresh (s : State) : Request → Prop
  | .route edit => edit.Known (listRoutes s)
  | .virt edit => edit.Known (listVirts s)
  | .assign edit => edit.Known (listAssigns s) ∧ Terminated (fileLines (s.files .assigns))

/-- The new entry has clean fields. -/
def Request.Clean : Request → Prop
  | .route edit => edit.New Route.Clean
  | .virt edit => edit.New Virt.Clean
  | .assign edit => edit.New Assign.Clean

/-- The next listing has exactly the entry added, changed or removed, the other lines are as they
were, and so are the other files. -/
structure Edited {β : Type} (t : Table) (list : State → List (Listed β)) (front : Bool)
    (print : β → Bytes) (edit : Edit β) (s s' : State) : Prop where
  entries : (list s').map Listed.val = edit.onEntries front ((list s).map Listed.val)
  lines : fileLines (s'.files t) = edit.onLines front print (fileLines (s.files t))
  others : ∀ t', t' ≠ t → s'.files t' = s.files t'

/-- The request has done what it is for. -/
def Request.Done (s s' : State) : Request → Prop
  | .route edit => Edited .routes listRoutes false routeLine edit s s'
  | .virt edit => Edited .virts listVirts false virtLine edit s s'
  | .assign edit => Edited .assigns listAssigns true assignLine edit s s' ∧
      Terminated (fileLines (s'.files .assigns))

/-- A new virtual domain has no user, or a user other than `0` and a domain. -/
def Request.Sound : Request → Prop
  | .virt edit => edit.New fun v => v.user = [] ∨ v.user ≠ bytes "0" ∧ v.domain ≠ []
  | _ => True

end NoSpam.Controler
