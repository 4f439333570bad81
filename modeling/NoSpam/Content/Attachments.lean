import NoSpam.Content.Parser

/-!
# The attachments of a mail

The parser walks the tree of a mail and keeps its leaves in a map by their file names.  The counters
add up over all leaves (`collect_counters`); under a name the last leaf is kept, with the text of
the last one that is a text (`lookup_collect`), so that a leaf can be lost to another of the same
name.
-/

namespace NoSpam.Content

open Text Perl

/-! ## Leaves -/

/-- A part with a body. -/
structure Leaf where
  mimeType : Bytes
  filename : Option Bytes
  body : Body

namespace Leaf

/-- The name under which the leaf is kept. -/
def name (l : Leaf) : Bytes := l.filename.getD (partName l.body.path)

theorem name_of_filename {l : Leaf} {name : Bytes} (h : l.filename = some name) :
    l.name = name := by
  rw [Leaf.name, h, Option.getD_some]

/-- The size of the leaf. -/
def size (l : Leaf) : ℕ := l.body.data.length

/-- The media type before the slash. -/
def type (l : Leaf) : Bytes := orElse ((fields 47 l.mimeType).headD []) (bytes "text")

/-- The media type after the slash. -/
def subtype (l : Leaf) : Bytes := orElse ((fields 47 l.mimeType).tail.headD []) (bytes "plain")

/-- The content of the leaf is loaded: its type is text, or its name ends with `.txt`. -/
def isText (l : Leaf) : Bool :=
  l.type = bytes "text" || (bytes ".txt" <:+ l.name || bytes ".txt\n" <:+ l.name)

/-- The content of the leaf, if it is loaded. -/
def content (l : Leaf) : Bytes := if l.isText then l.body.data else []

end Leaf

mutual

/-- The leaves of an entity in order. -/
def leaves : Entity → List Leaf
  | .mk _ mimeType filename (some b) _ => [⟨mimeType, filename, b⟩]
  | .mk _ _ _ none parts => leavesOf parts

/-- The leaves of several entities. -/
def leavesOf : List Entity → List Leaf
  | [] => []
  | e :: es => leaves e ++ leavesOf es

end

mutual

/-- An entity as `MIME::Parser` delivers it: one with a body has no parts, and its body is in a
file. -/
def Delivered : Entity → Prop
  | .mk _ _ _ (some b) parts => parts = [] ∧ isTrue b.path = true
  | .mk _ _ _ none parts => AllDelivered parts

/-- Several entities as `MIME::Parser` delivers them. -/
def AllDelivered : List Entity → Prop
  | [] => True
  | e :: es => Delivered e ∧ AllDelivered es

end

/-! ## The purpose -/

/-- Every named leaf is in the map under its name, with its own size, type and loaded content, and
the counters are those of the leaves. -/
structure Complete (search : Bytes → Option (Bytes → Bool)) (types : List FileType) (e : Entity)
    (m : MailInfo) : Prop where
  represented : ∀ l ∈ leaves e, ∀ name ∈ l.filename, ∃ part ∈ m.body.lookup name,
    part.nofilename = false ∧ part.size = l.size ∧ part.type = l.type ∧
      part.subtype = l.subtype ∧ part.content = l.content ∧
        getAttachmentTypeWith search name types = some part.typeclass
  bodySize_eq : m.bodySize.getD 0 = ((leaves e).map Leaf.size).sum
  attachmentNum_eq : m.attachmentNum.getD 0 = ((leaves e).filter (·.filename.isSome)).length
  attachmentSize_eq : m.attachmentSize.getD 0 =
    (((leaves e).filter (·.filename.isSome)).map Leaf.size).sum

/-- The content of the last leaf under the name that is a text. -/
def lastText (ls : List Leaf) (name : Bytes) : Bytes :=
  ((ls.filter fun l => l.name = name && l.isText).getLast?).elim [] (·.body.data)

/-- The last leaf under the name of a named leaf is a named one of the same size and type, and the
last text under the name is that of the leaf, or empty if the leaf is no text. -/
def Unspoiled (ls : List Leaf) : Prop :=
  ∀ l ∈ ls, l.filename.isSome = true → ∃ last ∈ (ls.filter (·.name = l.name)).getLast?,
    last.filename.isSome = true ∧ last.size = l.size ∧ last.type = l.type ∧
      last.subtype = l.subtype ∧ lastText ls l.name = l.content

/-! ## The walk -/

section Walk

variable (types : List FileType)

/-- `get_body_info` on a leaf. -/
def collect (m : Collected) (l : Leaf) : Collected :=
  getLeafInfo types l.mimeType l.filename l.body m

mutual

theorem getBodyInfo_eq : ∀ (e : Entity) (m : Collected),
    getBodyInfo types e m = (leaves e).foldl (collect types) m
  | .mk _ _ _ (some _) _, _ => by rw [getBodyInfo, leaves, List.foldl_cons, List.foldl_nil, collect]
  | .mk _ _ _ none parts, m => by rw [getBodyInfo, leaves, getPartsInfo_eq parts m]

theorem getPartsInfo_eq : ∀ (es : List Entity) (m : Collected),
    getPartsInfo types es m = (leavesOf es).foldl (collect types) m
  | [], _ => by rw [getPartsInfo, leavesOf, List.foldl_nil]
  | e :: es, m => by
    rw [getPartsInfo, leavesOf, List.foldl_append, getBodyInfo_eq e m, getPartsInfo_eq es _]

end

mutual

theorem isTrue_path_of_delivered : ∀ (e : Entity), Delivered e →
    ∀ l ∈ leaves e, isTrue l.body.path = true
  | .mk _ _ _ (some b) _, h => by
    rw [Delivered] at h
    rw [leaves]
    exact List.forall_mem_singleton.2 h.2
  | .mk _ _ _ none parts, h => by
    rw [Delivered] at h
    rw [leaves]
    exact isTrue_path_of_allDelivered parts h

theorem isTrue_path_of_allDelivered : ∀ (es : List Entity), AllDelivered es →
    ∀ l ∈ leavesOf es, isTrue l.body.path = true
  | [], _ => by
    rw [leavesOf]
    exact fun _ hl => absurd hl List.not_mem_nil
  | e :: es, h => by
    rw [AllDelivered] at h
    rw [leavesOf, List.forall_mem_append]
    exact ⟨isTrue_path_of_delivered e h.1, isTrue_path_of_allDelivered es h.2⟩

end

/-- The map after a leaf. -/
theorem body_collect {l : Leaf} (h : isTrue l.body.path = true) (m : Collected) :
    (collect types m l).body = m.body.insert l.name
      { nofilename := l.filename.isNone, path := l.body.path, type := l.type, subtype := l.subtype
        content := if l.isText then l.body.data
          else (m.body.lookup l.name).elim [] BodyPart.content
        size := l.size, typeclass := getAttachmentType types l.name } := by
  simp only [collect, getLeafInfo, h, if_true]
  rfl

theorem lastText_concat (ls : List Leaf) (l : Leaf) (name : Bytes) :
    lastText (ls ++ [l]) name =
      if l.name = name ∧ l.isText = true then l.body.data else lastText ls name := by
  rw [lastText, List.filter_append]
  split_ifs with h
  · rw [List.filter_cons_of_pos (by simp [h]), List.filter_nil, List.getLast?_concat]
    rfl
  · rw [List.filter_cons_of_neg (by simpa using h), List.filter_nil, List.append_nil, lastText]

/-- A name without leaves has no text. -/
theorem lastText_of_filter {ls : List Leaf} {name : Bytes}
    (h : (ls.filter (·.name = name)).getLast? = none) : lastText ls name = [] := by
  have hnil : (ls.filter fun l => l.name = name && l.isText) = [] := by
    rw [List.getLast?_eq_none_iff, List.filter_eq_nil_iff] at h
    rw [List.filter_eq_nil_iff]
    intro l hl hboth
    rw [Bool.and_eq_true] at hboth
    exact h l hl hboth.1
  rw [lastText, hnil]
  rfl

/-- What the map holds under a name after the leaves. -/
theorem lookup_collect (ls : List Leaf) (h : ∀ l ∈ ls, isTrue l.body.path = true) (name : Bytes) :
    ((ls.foldl (collect types) {}).body.lookup name) =
      ((ls.filter (·.name = name)).getLast?).map fun last =>
        { nofilename := last.filename.isNone, path := last.body.path, type := last.type
          subtype := last.subtype, content := lastText ls name, size := last.size
          typeclass := getAttachmentType types name } := by
  induction ls using List.reverseRecOn with
  | nil => rfl
  | append_singleton ls l ih =>
    rw [List.forall_mem_append] at h
    have ih := ih h.1
    rw [List.foldl_append, List.foldl_cons, List.foldl_nil,
      body_collect types (h.2 l List.mem_cons_self), List.filter_append]
    by_cases hname : l.name = name
    · subst hname
      rw [AList.lookup_insert, List.filter_cons_of_pos (by simp), List.filter_nil,
        List.getLast?_concat, Option.map_some, ih]
      rw [lastText_concat]
      by_cases htext : l.isText = true
      · rw [if_pos htext, if_pos ⟨rfl, htext⟩]
      · rw [if_neg htext, if_neg fun hboth => htext hboth.2]
        cases hlast : (ls.filter (·.name = l.name)).getLast? with
        | none => rw [lastText_of_filter hlast]; rfl
        | some last => rfl
    · rw [AList.lookup_insert_ne (Ne.symm hname), ih, List.filter_cons_of_neg (by simp [hname]),
        List.filter_nil, List.append_nil, lastText_concat, if_neg fun hboth => hname hboth.1]

/-- The counters after the leaves. -/
theorem collect_counters (ls : List Leaf) (h : ∀ l ∈ ls, isTrue l.body.path = true)
    (m : Collected) :
    (ls.foldl (collect types) m).bodySize.getD 0 =
        m.bodySize.getD 0 + (ls.map Leaf.size).sum ∧
      (ls.foldl (collect types) m).attachmentNum.getD 0 =
        m.attachmentNum.getD 0 + (ls.filter (·.filename.isSome)).length ∧
      (ls.foldl (collect types) m).attachmentSize.getD 0 =
        m.attachmentSize.getD 0 + ((ls.filter (·.filename.isSome)).map Leaf.size).sum := by
  induction ls generalizing m with
  | nil => exact ⟨rfl, rfl, rfl⟩
  | cons l ls ih =>
    rw [List.forall_mem_cons] at h
    have hsize : (collect types m l).bodySize = addTo m.bodySize l.size := by
      simp only [collect, getLeafInfo, h.1, if_true, Leaf.size]
    have hnum : (collect types m l).attachmentNum =
        if l.filename.isSome then addTo m.attachmentNum 1 else m.attachmentNum := rfl
    have hattachment : (collect types m l).attachmentSize =
        if l.filename.isSome then addTo m.attachmentSize l.size else m.attachmentSize := by
      simp only [collect, getLeafInfo, h.1, if_true, Leaf.size]
    obtain ⟨ihsize, ihnum, ihattachment⟩ := ih h.2 (collect types m l)
    rw [hsize] at ihsize
    rw [hnum] at ihnum
    rw [hattachment] at ihattachment
    rw [List.foldl_cons, ihsize, ihnum, ihattachment, List.map_cons, List.sum_cons]
    refine ⟨Nat.add_assoc _ _ _, ?_, ?_⟩
    · by_cases hname : l.filename.isSome = true
      · rw [if_pos hname, List.filter_cons_of_pos (by exact hname), List.length_cons, addTo,
          Option.getD_some]
        omega
      · rw [if_neg hname, List.filter_cons_of_neg (by exact hname)]
    · by_cases hname : l.filename.isSome = true
      · rw [if_pos hname, List.filter_cons_of_pos (by exact hname), List.map_cons, List.sum_cons]
        exact Nat.add_assoc _ _ _
      · rw [if_neg hname, List.filter_cons_of_neg (by exact hname)]

/-- What the parser finds out about an entity that `MIME::Parser` delivers. -/
theorem mailInfo_eq {e : Entity} (h : Delivered e) :
    (mailInfo types e).body = ((leaves e).foldl (collect types) {}).body ∧
      (mailInfo types e).bodySize = ((leaves e).foldl (collect types) {}).bodySize ∧
      (mailInfo types e).attachmentNum = ((leaves e).foldl (collect types) {}).attachmentNum ∧
      (mailInfo types e).attachmentSize = ((leaves e).foldl (collect types) {}).attachmentSize := by
  obtain ⟨head, mimeType, filename, body, parts⟩ := e
  cases parts with
  | nil =>
    rw [← getBodyInfo_eq]
    exact ⟨rfl, rfl, rfl, rfl⟩
  | cons part parts =>
    cases body with
    | none =>
      rw [leaves, ← getPartsInfo_eq]
      exact ⟨rfl, rfl, rfl, rfl⟩
    | some b =>
      rw [Delivered] at h
      cases h.1

end Walk

/-! ## What is kept -/

/-- **No attachment escapes**: where the extensions of the classes have no other signs of the
pattern language than dots, the map holds every named leaf of a mail if and only if none of them is
spoiled by another of its name, and the counters are always those of the leaves. -/
theorem complete_iff {search : Bytes → Option (Bytes → Bool)} {types : List FileType}
    (hsearch : SearchesEnds search types) {e : Entity} (h : Delivered e) :
    Complete search types e (mailInfo types e) ↔ Unspoiled (leaves e) := by
  have hpath := isTrue_path_of_delivered e h
  obtain ⟨hbody, hsize, hnum, hattachment⟩ := mailInfo_eq types h
  obtain ⟨csize, cnum, cattachment⟩ := collect_counters types (leaves e) hpath {}
  have hlookup := lookup_collect types (leaves e) hpath
  constructor
  · intro hcomplete l hl hnamed
    obtain ⟨name, hname⟩ := Option.isSome_iff_exists.1 hnamed
    have hself := Leaf.name_of_filename hname
    obtain ⟨part, hpart, hfile, hpsize, htype, hsubtype, hcontent, -⟩ :=
      hcomplete.represented l hl name hname
    rw [hbody, hlookup] at hpart
    obtain ⟨last, hlast, rfl⟩ := Option.map_eq_some_iff.1 hpart
    rw [hself]
    refine ⟨last, hlast, ?_, hpsize, htype, hsubtype, hcontent⟩
    simpa using hfile
  · intro hunspoiled
    refine ⟨fun l hl name hname => ?_, ?_, ?_, ?_⟩
    · have hself := Leaf.name_of_filename hname
      obtain ⟨last, hlast, hfile, hlsize, htype, hsubtype, hcontent⟩ :=
        hunspoiled l hl (by rw [hname]; rfl)
      rw [hself] at hlast hcontent
      refine ⟨{ nofilename := last.filename.isNone, path := last.body.path, type := last.type
                subtype := last.subtype, content := lastText (leaves e) name, size := last.size
                typeclass := getAttachmentType types name },
        ?_, ?_, hlsize, htype, hsubtype, hcontent, getAttachmentTypeWith_eq hsearch name⟩
      · rw [hbody, hlookup, hlast]
        rfl
      · simpa using hfile
    · rw [hsize, csize]
      exact Nat.zero_add _
    · rw [hnum, cnum]
      exact Nat.zero_add _
    · rw [hattachment, cattachment]
      exact Nat.zero_add _

/-- A mail of the leaves. -/
def mailOf (ls : List Leaf) : Entity :=
  .mk ⟨[], []⟩ (bytes "multipart/mixed") none none
    (ls.map fun l => .mk ⟨[], []⟩ l.mimeType l.filename (some l.body) [])

/-- Two attachments of one name that agree, and one of another name. -/
def twins : Entity :=
  mailOf [⟨bytes "image/gif", some (bytes "a.gif"), ⟨bytes "1", bytes "GIF"⟩⟩,
    ⟨bytes "text/plain", some (bytes "b.exe"), ⟨bytes "2", bytes "x"⟩⟩,
    ⟨bytes "image/gif", some (bytes "a.gif"), ⟨bytes "3", bytes "PNG"⟩⟩]

theorem complete_iff_twins : Complete searchEnd fileTypes twins (mailInfo fileTypes twins) := by
  have hdelivered : Delivered twins :=
    ⟨⟨rfl, by decide⟩, ⟨rfl, by decide⟩, ⟨rfl, by decide⟩, trivial⟩
  refine (complete_iff (searchesEnds_searchEnd fileTypes) hdelivered).2 fun l hl _ => ?_
  rcases List.mem_cons.1 hl with rfl | hl
  · exact ⟨_, rfl, rfl, rfl, rfl, rfl, rfl⟩
  · rcases List.mem_cons.1 hl with rfl | hl
    · exact ⟨_, rfl, rfl, rfl, rfl, rfl, rfl⟩
    · obtain rfl := List.mem_singleton.1 hl
      exact ⟨_, rfl, rfl, rfl, rfl, rfl, rfl⟩

/-- A program is lost to a text of its name that follows it. -/
theorem not_forall_complete :
    ¬∀ (types : List FileType) (e : Entity), Delivered e →
      Complete searchEnd types e (mailInfo types e) := by
  intro h
  obtain ⟨part, hpart, -, hsize, -⟩ :=
    (h fileTypes
      (mailOf [⟨bytes "application/octet-stream", some (bytes "a"), ⟨bytes "1", bytes "MZ"⟩⟩,
        ⟨bytes "text/plain", some (bytes "a"), ⟨bytes "2", bytes "x"⟩⟩])
      ⟨⟨rfl, by decide⟩, ⟨rfl, by decide⟩, trivial⟩).represented
      ⟨bytes "application/octet-stream", some (bytes "a"), ⟨bytes "1", bytes "MZ"⟩⟩
      List.mem_cons_self (bytes "a") rfl
  have hkept : part.size = 1 := by
    obtain rfl := Option.some.inj hpart
    rfl
  rw [hkept] at hsize
  exact absurd hsize (by decide)

end NoSpam.Content
