import NoSpam.Admin.RuleForm

/-!
# Editing a content rule without changing it

What `saveParams` makes of the unchanged form is written out as `Rule.reopened`
(`saveParams_reopened`).  The logic of the attachments is sent under the name of the rule's logic
and replaces it, the type of an attachment is never sent, and a text with a quotation mark, an
apostrophe, a backslash or a character reference comes back as another one.  `keeps_saveParams_iff`
says for which rules nothing of this happens.
-/

namespace NoSpam.Admin.RuleForm

open Text Php Form Perl

/-! ## Names -/

namespace Field

/-- The field with another number. -/
def withIndex (i : ℕ) : Field → Field
  | keyPos _ => keyPos i
  | decode _ => decode i
  | caseSensitive _ => caseSensitive i
  | keyMatchType _ => keyMatchType i
  | keyword _ => keyword i
  | sizePos _ => sizePos i
  | sizeValue _ => sizeValue i
  | fileName _ => fileName i
  | fileType _ => fileType i
  | attachSize _ => attachSize i
  | f => f

/-- The fields, those with a number at 0. -/
def shapes : List Field :=
  [ruleLogic, keywordLogic, keywordNum, keyPos 0, decode 0, caseSensitive 0, keyMatchType 0,
    keyword 0, sizeLogic, sizeNum, sizePos 0, sizeValue 0, attachLogic, attachmentNum, fileName 0,
    fileType 0, attachSize 0, action, actionParam]

theorem withIndex_zero_mem (f : Field) : f.withIndex 0 ∈ shapes := by
  cases f <;> simp [withIndex, shapes]

theorem word_withIndex (i : ℕ) (f : Field) : (f.withIndex i).word = f.word := by
  cases f <;> rfl

theorem withIndex_withIndex (i j : ℕ) (f : Field) :
    (f.withIndex i).withIndex j = f.withIndex j := by
  cases f <;> rfl

theorem withIndex_index (f : Field) : f.withIndex (f.index.getD 0) = f := by
  cases f <;> rfl

theorem eq_of_word_of_mem_shapes : ∀ f ∈ shapes, ∀ g ∈ shapes, f.word = g.word → f = g := by
  decide +kernel

/-- The word and the number tell the field. -/
theorem eq_of_word_of_index {f g : Field} (hword : f.word = g.word) (hindex : f.index = g.index) :
    f = g := by
  have hzero : f.withIndex 0 = g.withIndex 0 :=
    eq_of_word_of_mem_shapes _ f.withIndex_zero_mem _ g.withIndex_zero_mem
      (by rw [word_withIndex, word_withIndex, hword])
  rw [← f.withIndex_index, ← g.withIndex_index, ← hindex, ← withIndex_withIndex 0 _ f, hzero,
    withIndex_withIndex]

end Field

/-- Two fields of one name are one field. -/
theorem Field.name_injective : Function.Injective Field.name := by
  have hword : ∀ f : Field, f.word.filter isDigit = [] := by
    intro f
    cases f <;> rfl
  have hdigits : ∀ o : Option ℕ, (o.elim [] decimal).filter isDigit = o.elim [] decimal := by
    intro o
    cases o with
    | none => rfl
    | some i => exact List.filter_eq_self.2 fun c hc => isDigit_of_mem_decimal hc
  intro f g h
  have hnumber : f.index.elim [] decimal = g.index.elim [] decimal := by
    have hfilter := congrArg (List.filter isDigit) h
    rwa [name, name, List.filter_append, List.filter_append, hword, hword, hdigits,
      hdigits] at hfilter
  have hw : f.word = g.word := by
    rw [name, name, hnumber] at h
    exact List.append_cancel_right h
  have hindex : f.index = g.index := by
    revert hnumber
    cases f.index with
    | none =>
      cases g.index with
      | none => exact fun _ => rfl
      | some j => exact fun hj => absurd hj.symm (decimal_ne_nil j)
    | some i =>
      cases g.index with
      | none => exact fun hi => absurd hi (decimal_ne_nil i)
      | some j => exact fun hij => congrArg some (decimal_inj hij)
  exact eq_of_word_of_index hw hindex

/-! ## What is sent -/

/-- What comes back for a logic. -/
def resentLogic (v : Bytes) : Bytes := if v ∈ logics then v else bytes "AND"

/-- What comes back for a text. -/
def resent (b : Browser) (raw : Bytes) : Bytes := addSlashes (b.value raw)

/-- What comes back for an attribute with a table. -/
def resentKey (table : List ℕ) (v : Bytes) : Bytes := (tableChoice table v).getD []

section Choices

variable (b : Browser) {f : Field}

theorem submit_text (raw : Bytes) : submit b [text f raw] f = some (resent b raw) := by
  rw [submit_cons, submit_nil, Option.none_or, if_pos ⟨rfl, rfl⟩]
  rfl

theorem kept_of_mem_logics {v : Bytes} (h : v ∈ logics) : Kept b v := by
  simp only [logics, List.mem_cons, List.not_mem_nil, or_false] at h
  rcases h with rfl | rfl | rfl
  all_goals exact kept_of_plain b (by decide +kernel) (by decide +kernel)

theorem logicChoice_eq (v : Bytes) : logicChoice v = some (resentLogic v) := by
  by_cases h : v ∈ logics
  · rw [resentLogic, if_pos h]
    simp only [logics, List.mem_cons, List.not_mem_nil, or_false] at h
    rcases h with rfl | rfl | rfl
    all_goals decide
  · rw [resentLogic, if_neg h]
    simp only [logics, List.mem_cons, List.not_mem_nil, or_false, not_or] at h
    obtain ⟨h1, h2, h3⟩ := h
    simp [logicChoice, logics, choice, h1, h2, h3]

theorem resentLogic_mem (v : Bytes) : resentLogic v ∈ logics := by
  unfold resentLogic
  split_ifs with h
  · exact h
  · decide

theorem submit_logicSelect (v : Bytes) :
    submit b [logicSelect f v] f = some (resentLogic v) := by
  rw [submit_cons, submit_nil, Option.none_or, if_pos ⟨rfl, rfl⟩, logicSelect]
  dsimp only
  rw [logicChoice_eq, Option.map_some]
  exact congrArg some (kept_of_mem_logics b (resentLogic_mem v))

/-- Only numbers of the table come back. -/
theorem tableChoice_mem {table : List ℕ} (hne : table ≠ []) (v : Bytes) :
    ∃ k ∈ table, tableChoice table v = some (decimal k) := by
  have hoptions : (table.map fun k => (decimal k, decide (toNumber v = k))) ≠ [] := by
    simpa using hne
  obtain ⟨o, ho, hchoice⟩ := choice_mem hoptions
  obtain ⟨k, hk, rfl⟩ := List.mem_map.1 ho
  exact ⟨k, hk, hchoice⟩

/-- A number of the table comes back as it was. -/
theorem tableChoice_decimal {table : List ℕ} {k : ℕ} (hk : k ∈ table) :
    tableChoice table (decimal k) = some (decimal k) := by
  refine choice_eq_some (List.mem_map.2 ⟨k, hk, ?_⟩) fun o ho hsel => ?_
  · rw [toNumber_decimal, decide_eq_true rfl]
  · obtain ⟨j, -, rfl⟩ := List.mem_map.1 ho
    rw [toNumber_decimal] at hsel
    have hkj : k = j := by exact_mod_cast of_decide_eq_true hsel
    rw [hkj]

/-- An attribute comes back as it was if and only if it is a number of the table. -/
theorem resentKey_eq_iff {table : List ℕ} (hne : table ≠ []) {v : Bytes} :
    resentKey table v = v ↔ ∃ k ∈ table, v = decimal k := by
  constructor
  · intro h
    obtain ⟨k, hk, hchoice⟩ := tableChoice_mem hne v
    rw [resentKey, hchoice] at h
    exact ⟨k, hk, h.symm⟩
  · rintro ⟨k, hk, rfl⟩
    rw [resentKey, tableChoice_decimal hk]
    rfl

theorem submit_tableSelect {table : List ℕ} (hne : table ≠ []) (v : Bytes) :
    submit b [tableSelect f table v] f = some (resentKey table v) := by
  obtain ⟨k, -, hchoice⟩ := tableChoice_mem hne v
  rw [submit_cons, submit_nil, Option.none_or, if_pos ⟨rfl, rfl⟩, tableSelect, resentKey]
  dsimp only
  rw [hchoice, Option.map_some]
  exact congrArg some (kept_decimal b k)

end Choices

/-! ## The parts of the form -/

section Parts

variable {b : Browser} {r : Rule} {f : Field}

theorem part_keywordPart : ∀ c ∈ keywordPart r, c.field.part = .keywords := by
  intro c hc
  unfold keywordPart at hc
  rcases List.mem_append.1 hc with hc | hc
  · split_ifs at hc
    · rw [List.mem_singleton.1 hc]
      rfl
    · cases hc
  · rcases List.mem_cons.1 hc with rfl | hc
    · rfl
    · obtain ⟨i, k, hc⟩ := mem_numbered hc
      simp only [keywordControls, List.mem_cons, List.not_mem_nil, or_false] at hc
      rcases hc with rfl | rfl | rfl | rfl | rfl <;> rfl

theorem part_sizePart : ∀ c ∈ sizePart r, c.field.part = .sizes := by
  intro c hc
  unfold sizePart at hc
  rcases List.mem_append.1 hc with hc | hc
  · split_ifs at hc
    · simp only [List.mem_cons, List.not_mem_nil, or_false] at hc
      rcases hc with rfl | rfl <;> rfl
    · cases hc
  · obtain ⟨i, s, hc⟩ := mem_numbered hc
    simp only [sizeControls, List.mem_cons, List.not_mem_nil, or_false] at hc
    rcases hc with rfl | rfl <;> rfl

theorem part_attachmentPart :
    ∀ c ∈ attachmentPart r, c.field = .ruleLogic ∨ c.field.part = .attachments := by
  intro c hc
  unfold attachmentPart at hc
  rcases List.mem_append.1 hc with hc | hc
  · split_ifs at hc
    · simp only [List.mem_cons, List.not_mem_nil, or_false] at hc
      rcases hc with rfl | rfl
      · exact .inr rfl
      · exact .inl rfl
    · cases hc
  · obtain ⟨i, a, hc⟩ := mem_numbered hc
    simp only [attachmentControls, List.mem_cons, List.not_mem_nil, or_false] at hc
    rcases hc with rfl | rfl | rfl <;> exact .inr rfl

theorem part_actionPart : ∀ c ∈ actionPart r, c.field.part = .action := by
  intro c hc
  simp only [actionPart, List.mem_cons, List.not_mem_nil, or_false] at hc
  rcases hc with rfl | rfl <;> rfl

theorem submit_showinfo : submit b (showinfo r) f =
    ((((submit b (actionPart r) f).or (submit b (attachmentPart r) f)).or
      (submit b (sizePart r) f)).or (submit b (keywordPart r) f)).or
        (submit b [logicSelect .ruleLogic r.ruleLogic] f) := by
  rw [showinfo, ← List.singleton_append, submit_append, submit_append, submit_append,
    submit_append]

/-- A field is sent from its own part. -/
theorem submit_eq_none_of_part {cs : List (Control Field)} {q : Field.Part}
    (h : ∀ c ∈ cs, c.field.part = q) (hf : f.part ≠ q) : submit b cs f = none :=
  submit_eq_none fun c hc he => hf (he ▸ h c hc)

theorem submit_attachmentPart_eq_none (hf : f.part ≠ .attachments) (hr : f ≠ .ruleLogic) :
    submit b (attachmentPart r) f = none := by
  refine submit_eq_none fun c hc he => ?_
  rcases part_attachmentPart c hc with h | h
  · exact hr (he ▸ h)
  · exact hf (he ▸ h)

theorem submit_head_eq_none (hf : f.part ≠ .rule) :
    submit b [logicSelect .ruleLogic r.ruleLogic] f = none := by
  refine submit_eq_none fun c hc he => hf ?_
  rw [← he, List.mem_singleton.1 hc]
  rfl

theorem reopened_keywords (h : f.part = .keywords) :
    reopened b r f = submit b (keywordPart r) f := by
  rw [reopened, submit_showinfo, submit_eq_none_of_part part_actionPart (by simp [h]),
    submit_attachmentPart_eq_none (by simp [h]) (by rintro rfl; cases h),
    submit_eq_none_of_part part_sizePart (by simp [h]), submit_head_eq_none (by simp [h]),
    Option.none_or, Option.none_or, Option.none_or, Option.or_none]

theorem reopened_sizes (h : f.part = .sizes) : reopened b r f = submit b (sizePart r) f := by
  rw [reopened, submit_showinfo, submit_eq_none_of_part part_actionPart (by simp [h]),
    submit_attachmentPart_eq_none (by simp [h]) (by rintro rfl; cases h),
    submit_eq_none_of_part part_keywordPart (by simp [h]), submit_head_eq_none (by simp [h]),
    Option.none_or, Option.none_or, Option.or_none, Option.or_none]

theorem reopened_attachments (h : f.part = .attachments) :
    reopened b r f = submit b (attachmentPart r) f := by
  rw [reopened, submit_showinfo, submit_eq_none_of_part part_actionPart (by simp [h]),
    submit_eq_none_of_part part_sizePart (by simp [h]),
    submit_eq_none_of_part part_keywordPart (by simp [h]), submit_head_eq_none (by simp [h]),
    Option.none_or, Option.or_none, Option.or_none, Option.or_none]

theorem reopened_action (h : f.part = .action) :
    reopened b r f = submit b (actionPart r) f := by
  rw [reopened, submit_showinfo,
    submit_attachmentPart_eq_none (by simp [h]) (by rintro rfl; cases h),
    submit_eq_none_of_part part_sizePart (by simp [h]),
    submit_eq_none_of_part part_keywordPart (by simp [h]), submit_head_eq_none (by simp [h]),
    Option.or_none, Option.or_none, Option.or_none, Option.or_none]

/-- A numbered field is sent from its own item. -/
theorem submit_item {α : Type} {head : List (Control Field)} {g : ℕ → α → List (Control Field)}
    {l : List α} {a : α} {j : ℕ} (hhead : ∀ c ∈ head, c.field.index = none)
    (hitem : ∀ i a, ∀ c ∈ g i a, c.field.index = some i) (ha : l[j]? = some a)
    (hindex : f.index = some (j + 1)) :
    submit b (head ++ numbered g 1 l) f = submit b (g (j + 1) a) f := by
  have hnone : submit b head f = none := submit_eq_none fun c hc he => by
    have hc' := hhead c hc
    rw [he, hindex] at hc'
    cases hc'
  rw [submit_append, hnone, Option.or_none,
    submit_numbered (fun i a hi => submit_eq_none fun c hc he => hi ?_) (Nat.le_add_left 1 j),
    Nat.add_sub_cancel, ha]
  · rfl
  · have hc' := hitem i a c hc
    rw [he, hindex] at hc'
    exact (Option.some.inj hc').symm

/-- A field without a number is sent from the head of its part. -/
theorem submit_part_head {α : Type} {head : List (Control Field)}
    {g : ℕ → α → List (Control Field)} {l : List α}
    (hitem : ∀ i a, ∀ c ∈ g i a, c.field.index = some i) (hindex : f.index = none) :
    submit b (head ++ numbered g 1 l) f = submit b head f := by
  rw [submit_append, submit_numbered_eq_none (fun i a => submit_eq_none fun c hc he => ?_),
    Option.none_or]
  have hc' := hitem i a c hc
  rw [he, hindex] at hc'
  cases hc'

theorem index_keywordControls (i : ℕ) (k : Keyword) :
    ∀ c ∈ keywordControls i k, c.field.index = some i := by
  intro c hc
  simp only [keywordControls, List.mem_cons, List.not_mem_nil, or_false] at hc
  rcases hc with rfl | rfl | rfl | rfl | rfl <;> rfl

theorem index_sizeControls (i : ℕ) (s : Size) : ∀ c ∈ sizeControls i s, c.field.index = some i := by
  intro c hc
  simp only [sizeControls, List.mem_cons, List.not_mem_nil, or_false] at hc
  rcases hc with rfl | rfl <;> rfl

theorem index_attachmentControls (i : ℕ) (a : Attachment) :
    ∀ c ∈ attachmentControls i a, c.field.index = some i := by
  intro c hc
  simp only [attachmentControls, List.mem_cons, List.not_mem_nil, or_false] at hc
  rcases hc with rfl | rfl | rfl <;> rfl

/-- The controls before those of the keywords. -/
def keywordHead (r : Rule) : List (Control Field) :=
  (if r.keywords.length > 0 then [logicSelect .keywordLogic r.keywordLogic] else []) ++
    [text .keywordNum (decimal r.keywords.length)]

theorem keywordPart_eq :
    keywordPart r = keywordHead r ++ numbered keywordControls 1 r.keywords := by
  rw [keywordPart, keywordHead, List.append_assoc]
  rfl

theorem index_keywordHead : ∀ c ∈ keywordHead r, c.field.index = none := by
  intro c hc
  unfold keywordHead at hc
  split_ifs at hc
  · simp only [List.singleton_append, List.mem_cons, List.not_mem_nil, or_false] at hc
    rcases hc with rfl | rfl <;> rfl
  · rw [List.nil_append] at hc
    rw [List.mem_singleton.1 hc]
    rfl

theorem index_of_mem_head {n : ℕ} {c₁ c₂ : Control Field} (h₁ : c₁.field.index = none)
    (h₂ : c₂.field.index = none) :
    ∀ c ∈ if n > 0 then [c₁, c₂] else [], c.field.index = none := by
  intro c hc
  split_ifs at hc
  · simp only [List.mem_cons, List.not_mem_nil, or_false] at hc
    rcases hc with rfl | rfl
    · exact h₁
    · exact h₂
  · cases hc

/-- The controls before those of the sizes. -/
def sizeHead (r : Rule) : List (Control Field) :=
  if r.sizes.length > 0 then
    [text .sizeNum (decimal r.sizes.length), logicSelect .sizeLogic r.sizeLogic] else []

theorem index_sizeHead : ∀ c ∈ sizeHead r, c.field.index = none :=
  index_of_mem_head rfl rfl

/-- The controls before those of the attachments. -/
def attachmentHead (r : Rule) : List (Control Field) :=
  if r.attachments.length > 0 then
    [text .attachmentNum (decimal r.attachments.length), logicSelect .ruleLogic r.attachLogic]
  else []

theorem index_attachmentHead : ∀ c ∈ attachmentHead r, c.field.index = none :=
  index_of_mem_head rfl rfl

end Parts

/-! ## What comes back -/

section Reopened

variable (b : Browser)

def Keyword.reopened (k : Keyword) : Keyword where
  keyword := utf8Encode (resent b (utf8Decode k.keyword))
  key := resentKey keyPosTable k.key
  decode := resentKey [0, 1] k.decode
  type := resentKey keyMatchTypeTable k.type
  caseSensitive := resentKey [0, 1] k.caseSensitive

def Size.reopened (s : Size) : Size where
  key := resentKey sizePosTable s.key
  sizevalue := resent b s.sizevalue

def Attachment.reopened (a : Attachment) : Attachment where
  sizevalue := resent b a.sizevalue
  filename := a.filename.bind fun filename =>
    if isTrue (resent b (utf8Decode filename)) then
      some (utf8Encode (resent b (utf8Decode filename))) else none
  filetype := none

/-- The rule that the unchanged form makes of a rule. -/
def Rule.reopened (r : Rule) : Rule where
  ruleLogic := resentLogic (if r.attachments = [] then r.ruleLogic else r.attachLogic)
  keywordLogic := if r.keywords = [] then [] else resentLogic r.keywordLogic
  keywords := r.keywords.map (Keyword.reopened b)
  sizeLogic := if r.sizes = [] then [] else resentLogic r.sizeLogic
  sizes := r.sizes.map (Size.reopened b)
  attachLogic := []
  attachments := r.attachments.map (Attachment.reopened b)
  action := resentKey actionTable r.action
  actionParam := utf8Encode (resent b (utf8Decode r.actionParam))

variable {b} {r : Rule}

theorem get_text {f : Field} {raw : Bytes}
    (h : RuleForm.reopened b r f = submit b [text f raw] f) :
    (RuleForm.reopened b r).get f = resent b raw := by
  rw [Post.get, h, submit_text]
  rfl

theorem get_tableSelect {f : Field} {table : List ℕ} (hne : table ≠ []) {v : Bytes}
    (h : RuleForm.reopened b r f = submit b [tableSelect f table v] f) :
    (RuleForm.reopened b r).get f = resentKey table v := by
  rw [Post.get, h, submit_tableSelect b hne]
  rfl

theorem savedKeyword_reopened {j : ℕ} {k : Keyword} (hk : r.keywords[j]? = some k) :
    savedKeyword (RuleForm.reopened b r) (j + 1) = k.reopened b := by
  have hitem : ∀ c ∈ keywordControls (j + 1) k, c.field.part = .keywords →
      RuleForm.reopened b r c.field = submit b [c] c.field := by
    intro c hc hpart
    rw [reopened_keywords hpart, keywordPart_eq,
      submit_item index_keywordHead index_keywordControls hk (index_keywordControls _ _ c hc)]
    refine submit_of_mem hc fun c' hc' hf => ?_
    simp only [keywordControls, List.mem_cons, List.not_mem_nil, or_false] at hc hc'
    rcases hc with rfl | rfl | rfl | rfl | rfl <;>
      rcases hc' with rfl | rfl | rfl | rfl | rfl <;> first | rfl | cases hf
  simp only [keywordControls, List.forall_mem_cons] at hitem
  obtain ⟨hkey, hdecode, hcase, htype, hkeyword, -⟩ := hitem
  rw [savedKeyword, get_text (f := .keyword (j + 1)) (hkeyword rfl),
    get_tableSelect (f := .keyPos (j + 1)) (by decide) (hkey rfl),
    get_tableSelect (f := .decode (j + 1)) (by decide) (hdecode rfl),
    get_tableSelect (f := .caseSensitive (j + 1)) (by decide) (hcase rfl),
    get_tableSelect (f := .keyMatchType (j + 1)) (by decide) (htype rfl)]
  rfl

theorem savedSize_reopened {j : ℕ} {s : Size} (hs : r.sizes[j]? = some s) :
    savedSize (RuleForm.reopened b r) (j + 1) = s.reopened b := by
  have hitem : ∀ c ∈ sizeControls (j + 1) s, c.field.part = .sizes →
      RuleForm.reopened b r c.field = submit b [c] c.field := by
    intro c hc hpart
    rw [reopened_sizes hpart, sizePart, ← sizeHead,
      submit_item index_sizeHead index_sizeControls hs (index_sizeControls _ _ c hc)]
    refine submit_of_mem hc fun c' hc' hf => ?_
    simp only [sizeControls, List.mem_cons, List.not_mem_nil, or_false] at hc hc'
    rcases hc with rfl | rfl <;> rcases hc' with rfl | rfl <;> first | rfl | cases hf
  simp only [sizeControls, List.forall_mem_cons] at hitem
  obtain ⟨hkey, hvalue, -⟩ := hitem
  rw [savedSize, get_text (f := .sizeValue (j + 1)) (hvalue rfl),
    get_tableSelect (f := .sizePos (j + 1)) (by decide) (hkey rfl)]
  rfl

theorem savedAttachment_reopened {j : ℕ} {a : Attachment} (ha : r.attachments[j]? = some a) :
    savedAttachment (RuleForm.reopened b r) (j + 1) = a.reopened b := by
  have hitem : ∀ c ∈ attachmentControls (j + 1) a, c.field.part = .attachments →
      RuleForm.reopened b r c.field = submit b [c] c.field := by
    intro c hc hpart
    rw [reopened_attachments hpart, attachmentPart, ← attachmentHead,
      submit_item index_attachmentHead index_attachmentControls ha
        (index_attachmentControls _ _ c hc)]
    refine submit_of_mem hc fun c' hc' hf => ?_
    simp only [attachmentControls, List.mem_cons, List.not_mem_nil, or_false] at hc hc'
    rcases hc with rfl | rfl | rfl <;> rcases hc' with rfl | rfl | rfl <;> first | rfl | cases hf
  simp only [attachmentControls, List.forall_mem_cons] at hitem
  obtain ⟨hname, htype, hsize, -⟩ := hitem
  have htype' : (RuleForm.reopened b r).get (.fileType (j + 1)) = [] := by
    have h := htype rfl
    dsimp only [tableSelect] at h
    rw [Post.get, h, submit_cons, if_neg (by simp [booleanKeyExists])]
    rfl
  have hname' : (RuleForm.reopened b r).get (.fileName (j + 1)) =
      a.filename.elim [] fun filename => resent b (utf8Decode filename) := by
    have h := hname rfl
    dsimp only [text] at h
    rw [Post.get, h, submit_cons]
    cases a.filename with
    | none => rfl
    | some filename =>
      rw [submit_nil, Option.none_or, if_pos ⟨rfl, rfl⟩]
      rfl
  rw [savedAttachment, get_text (f := .attachSize (j + 1)) (hsize rfl), htype', hname',
    Attachment.reopened]
  cases a.filename with
  | none => rfl
  | some filename => rfl

theorem count_of_eq {p : Post} {f : Field} {n : ℕ} (h : p f = some (resent b (decimal n))) :
    p.count f = n := by
  have hn : resent b (decimal n) = decimal n := kept_decimal b n
  rw [Post.count, h, hn, Option.elim_some, toNumber_decimal]
  exact congrArg Int.toNat (Rat.floor_intCast n)

/-- A number of conditions that comes with their logic if there are any. -/
theorem count_of_head {p : Post} {f f' : Field} {n : ℕ} {v : Bytes} (hne : f' ≠ f)
    (h : p f = submit b (if n > 0 then [text f (decimal n), logicSelect f' v] else []) f) :
    p.count f = n := by
  split_ifs at h with hlength
  · apply count_of_eq (b := b)
    rw [h, ← List.singleton_append, submit_append, submit_text, submit_singleton_of_ne hne,
      Option.none_or]
  · rw [Post.count, h]
    exact (Nat.eq_zero_of_not_pos hlength).symm

theorem count_keywordNum : (RuleForm.reopened b r).count .keywordNum = r.keywords.length := by
  apply count_of_eq (b := b)
  rw [reopened_keywords rfl, keywordPart_eq, submit_part_head index_keywordControls rfl,
    keywordHead,
    submit_append, submit_text, Option.some_or]

theorem count_sizeNum : (RuleForm.reopened b r).count .sizeNum = r.sizes.length := by
  have h : RuleForm.reopened b r .sizeNum = submit b (sizeHead r) .sizeNum := by
    rw [reopened_sizes rfl, sizePart, ← sizeHead, submit_part_head index_sizeControls rfl]
  exact count_of_head (fun he => by cases he) h

theorem count_attachmentNum :
    (RuleForm.reopened b r).count .attachmentNum = r.attachments.length := by
  have h : RuleForm.reopened b r .attachmentNum = submit b (attachmentHead r) .attachmentNum := by
    rw [reopened_attachments rfl, attachmentPart, ← attachmentHead,
      submit_part_head index_attachmentControls rfl]
  exact count_of_head (fun he => by cases he) h

theorem get_keywordLogic : (RuleForm.reopened b r).get .keywordLogic =
    if r.keywords = [] then [] else resentLogic r.keywordLogic := by
  have hnum : submit b [text .keywordNum (decimal r.keywords.length)] .keywordLogic = none :=
    submit_singleton_of_ne (by simp [text])
  rw [Post.get, reopened_keywords rfl, keywordPart_eq, submit_part_head index_keywordControls rfl,
    keywordHead, submit_append, hnum, Option.none_or]
  cases r.keywords with
  | nil => rfl
  | cons k ks =>
    rw [if_pos (by simp), submit_logicSelect, if_neg (by simp)]
    rfl

theorem get_sizeLogic : (RuleForm.reopened b r).get .sizeLogic =
    if r.sizes = [] then [] else resentLogic r.sizeLogic := by
  rw [Post.get, reopened_sizes rfl, sizePart, ← sizeHead, submit_part_head index_sizeControls rfl,
    sizeHead]
  cases r.sizes with
  | nil => rfl
  | cons s ss =>
    rw [if_pos (by simp), ← List.singleton_append, submit_append, submit_logicSelect,
      if_neg (by simp)]
    rfl

/-- The logic of the attachments is not sent under its name. -/
theorem get_attachLogic : (RuleForm.reopened b r).get .attachLogic = [] := by
  have h : submit b (attachmentHead r) .attachLogic = none := by
    refine submit_eq_none fun c hc => ?_
    unfold attachmentHead at hc
    split_ifs at hc
    · simp only [List.mem_cons, List.not_mem_nil, or_false] at hc
      rcases hc with rfl | rfl <;> nofun
    · cases hc
  rw [Post.get, reopened_attachments rfl, attachmentPart, ← attachmentHead,
    submit_part_head index_attachmentControls rfl, h]
  rfl

/-- The logic of the attachments takes the place of the rule's. -/
theorem get_ruleLogic : (RuleForm.reopened b r).get .ruleLogic =
    resentLogic (if r.attachments = [] then r.ruleLogic else r.attachLogic) := by
  have h : submit b (attachmentPart r) .ruleLogic = submit b (attachmentHead r) .ruleLogic := by
    rw [attachmentPart, ← attachmentHead, submit_part_head index_attachmentControls rfl]
  rw [Post.get, RuleForm.reopened, submit_showinfo,
    submit_eq_none_of_part part_actionPart (by decide),
    submit_eq_none_of_part part_sizePart (by decide),
    submit_eq_none_of_part part_keywordPart (by decide), submit_logicSelect, h, attachmentHead,
    Option.none_or, Option.or_none, Option.or_none]
  cases r.attachments with
  | nil => rfl
  | cons a as =>
    rw [if_pos (by simp), ← List.singleton_append, submit_append, submit_logicSelect,
      if_neg (by simp)]
    rfl

theorem map_range_eq_map {α β : Type} {l : List α} {F : ℕ → β} {G : α → β}
    (h : ∀ j a, l[j]? = some a → F j = G a) : (List.range l.length).map F = l.map G := by
  apply List.ext_getElem
  · rw [List.length_map, List.length_map, List.length_range]
  · intro j hj hj'
    rw [List.getElem_map, List.getElem_map, List.getElem_range]
    exact h j _ (List.getElem?_eq_getElem _)

/-- What `saveParams` makes of the unchanged form. -/
theorem saveParams_reopened : saveParams (RuleForm.reopened b r) = r.reopened b := by
  have haction : (RuleForm.reopened b r).get .action = resentKey actionTable r.action := by
    apply get_tableSelect (by decide)
    rw [reopened_action rfl, actionPart, ← List.singleton_append, submit_append,
      submit_singleton_of_ne (by simp [text]), Option.none_or]
  have hparam : (RuleForm.reopened b r).get .actionParam = resent b (utf8Decode r.actionParam) := by
    apply get_text
    rw [reopened_action rfl, actionPart, ← List.singleton_append, submit_append, submit_text,
      Option.some_or]
  rw [saveParams, get_ruleLogic, get_keywordLogic, get_sizeLogic, get_attachLogic, haction, hparam,
    count_keywordNum, count_sizeNum, count_attachmentNum,
    map_range_eq_map fun j k hk => savedKeyword_reopened hk,
    map_range_eq_map fun j s hs => savedSize_reopened hs,
    map_range_eq_map fun j a ha => savedAttachment_reopened ha]
  rfl

end Reopened

/-! ## Rules that stay as they are -/

section Exactness

variable (b : Browser)

/-- The keyword stays as it is: its attributes are in the tables, and its text comes back. -/
structure Keyword.Stays (k : Keyword) : Prop where
  key : ∃ n ∈ keyPosTable, k.key = decimal n
  decode : ∃ n ∈ [0, 1], k.decode = decimal n
  type : ∃ n ∈ keyMatchTypeTable, k.type = decimal n
  caseSensitive : ∃ n ∈ [0, 1], k.caseSensitive = decimal n
  keyword : Kept b (utf8Decode k.keyword)

/-- The size stays as it is. -/
structure Size.Stays (s : Size) : Prop where
  key : ∃ n ∈ sizePosTable, s.key = decimal n
  sizevalue : Kept b s.sizevalue

/-- The attachment stays as it is: above all it has no file type. -/
structure Attachment.Stays (a : Attachment) : Prop where
  sizevalue : Kept b a.sizevalue
  filename : ∀ filename ∈ a.filename, Kept b (utf8Decode filename)
  filetype : a.filetype = none

/-- The rule stays as it is.  The logic of its attachments must be empty, and the logic of a rule
with attachments must be the one that the form shows for the empty one. -/
structure Rule.Stays (r : Rule) : Prop where
  ruleLogic : if r.attachments = [] then r.ruleLogic ∈ logics else r.ruleLogic = bytes "AND"
  attachLogic : r.attachLogic = []
  keywordLogic : if r.keywords = [] then r.keywordLogic = [] else r.keywordLogic ∈ logics
  sizeLogic : if r.sizes = [] then r.sizeLogic = [] else r.sizeLogic ∈ logics
  keywords : ∀ k ∈ r.keywords, k.Stays b
  sizes : ∀ s ∈ r.sizes, s.Stays b
  attachments : ∀ a ∈ r.attachments, a.Stays b
  action : ∃ n ∈ actionTable, r.action = decimal n
  actionParam : Kept b (utf8Decode r.actionParam)

/-- What `checkParams` looks at, in the rule that is stored. -/
def Rule.checks (r : Rule) : Bool :=
  (r.keywords.all fun k => keywordOk k.key k.type (utf8Decode k.keyword)) &&
    (r.sizes.all fun s => sizeOk s.sizevalue) && r.attachments.all fun a => sizeOk a.sizevalue

theorem checkParams_eq (p : Post) : checkParams p = (saveParams p).checks := by
  simp only [checkParams, Rule.checks, saveParams, List.all_map, Function.comp_def, savedKeyword,
    savedSize, savedAttachment, utf8Decode_utf8Encode]

variable {b}

theorem resentLogic_eq_iff {v : Bytes} : resentLogic v = v ↔ v ∈ logics := by
  constructor
  · intro h
    rw [← h]
    exact resentLogic_mem v
  · exact fun h => if_pos h

/-- A stored text comes back as it was if and only if what it encodes does. -/
theorem utf8Encode_resent_iff {s t : Bytes} (h : s = utf8Encode t) :
    utf8Encode (resent b (utf8Decode s)) = s ↔ Kept b (utf8Decode s) := by
  rw [h, utf8Decode_utf8Encode]
  constructor
  · intro he
    have hdecode := congrArg utf8Decode he
    rwa [utf8Decode_utf8Encode, utf8Decode_utf8Encode] at hdecode
  · exact fun hk => congrArg utf8Encode hk

theorem map_eq_self_iff {α : Type} {l : List α} {F : α → α} : l.map F = l ↔ ∀ a ∈ l, F a = a := by
  constructor
  · exact fun h => List.map_inj_left.1 (h.trans (List.map_id l).symm)
  · exact fun h => (List.map_inj_left.2 h).trans (List.map_id l)

theorem Keyword.reopened_eq_iff {k : Keyword} {t : Bytes} (h : k.keyword = utf8Encode t) :
    k.reopened b = k ↔ k.Stays b := by
  obtain ⟨keyword, key, decode, type, caseSensitive⟩ := k
  rw [Keyword.reopened, Keyword.mk.injEq, utf8Encode_resent_iff h, resentKey_eq_iff (by decide),
    resentKey_eq_iff (by decide), resentKey_eq_iff (by decide), resentKey_eq_iff (by decide)]
  exact ⟨fun ⟨h1, h2, h3, h4, h5⟩ => ⟨h2, h3, h4, h5, h1⟩,
    fun ⟨h2, h3, h4, h5, h1⟩ => ⟨h1, h2, h3, h4, h5⟩⟩

theorem Size.reopened_eq_iff {s : Size} : s.reopened b = s ↔ s.Stays b := by
  obtain ⟨key, sizevalue⟩ := s
  rw [Size.reopened, Size.mk.injEq, resentKey_eq_iff (by decide)]
  exact ⟨fun ⟨h1, h2⟩ => ⟨h1, h2⟩, fun ⟨h1, h2⟩ => ⟨h1, h2⟩⟩

theorem Attachment.reopened_eq_iff {a : Attachment}
    (h : ∀ filename ∈ a.filename, ∃ t, filename = utf8Encode t ∧ isTrue t = true) :
    a.reopened b = a ↔ a.Stays b := by
  obtain ⟨sizevalue, filename, filetype⟩ := a
  have hname : (filename.bind fun filename =>
      if isTrue (resent b (utf8Decode filename)) then
        some (utf8Encode (resent b (utf8Decode filename))) else none) = filename ↔
      ∀ f ∈ filename, Kept b (utf8Decode f) := by
    cases filename with
    | none => simp
    | some f =>
      obtain ⟨t, rfl, ht⟩ := h f rfl
      simp only [Option.bind_some, Option.mem_some_iff, forall_eq']
      rw [← utf8Encode_resent_iff rfl]
      split_ifs with htrue
      · rw [Option.some_inj]
      · refine iff_of_false nofun fun he => htrue ?_
        rw [utf8Decode_utf8Encode] at he ⊢
        have hdecode := congrArg utf8Decode he
        rw [utf8Decode_utf8Encode, utf8Decode_utf8Encode] at hdecode
        rwa [hdecode]
  rw [Attachment.reopened, Attachment.mk.injEq, hname]
  exact ⟨fun ⟨h1, h2, h3⟩ => ⟨h1, h2, h3.symm⟩, fun ⟨h1, h2, h3⟩ => ⟨h1, h2, h3.symm⟩⟩

theorem savedAttachment_filename (p : Post) (i : ℕ) :
    ∀ filename ∈ (savedAttachment p i).filename,
      ∃ t, filename = utf8Encode t ∧ isTrue t = true := by
  intro filename h
  dsimp only [savedAttachment] at h
  split_ifs at h with htrue
  · exact ⟨_, (Option.some.inj h).symm, htrue⟩
  · cases h

/-- For a rule that `saveParams` stores, the unchanged form makes the same rule if and only if the
rule stays as it is. -/
theorem reopened_eq_iff (p : Post) :
    (saveParams p).reopened b = saveParams p ↔ (saveParams p).Stays b := by
  have hkeywords : (saveParams p).keywords.map (Keyword.reopened b) = (saveParams p).keywords ↔
      ∀ k ∈ (saveParams p).keywords, k.Stays b := by
    rw [map_eq_self_iff]
    refine forall₂_congr fun k hk => ?_
    obtain ⟨i, -, rfl⟩ := List.mem_map.1 hk
    exact Keyword.reopened_eq_iff rfl
  have hsizes : (saveParams p).sizes.map (Size.reopened b) = (saveParams p).sizes ↔
      ∀ s ∈ (saveParams p).sizes, s.Stays b := by
    rw [map_eq_self_iff]
    exact forall₂_congr fun s _ => Size.reopened_eq_iff
  have hattachments :
      (saveParams p).attachments.map (Attachment.reopened b) = (saveParams p).attachments ↔
        ∀ a ∈ (saveParams p).attachments, a.Stays b := by
    rw [map_eq_self_iff]
    refine forall₂_congr fun a ha => ?_
    obtain ⟨i, -, rfl⟩ := List.mem_map.1 ha
    exact Attachment.reopened_eq_iff (savedAttachment_filename p _)
  have hparam : utf8Encode (resent b (utf8Decode (saveParams p).actionParam)) =
      (saveParams p).actionParam ↔ Kept b (utf8Decode (saveParams p).actionParam) :=
    utf8Encode_resent_iff rfl
  revert hkeywords hsizes hattachments hparam
  obtain ⟨rule, keywordLogic, keywords, sizeLogic, sizes, attach, attachments, action, param⟩ :=
    saveParams p
  intro hkeywords hsizes hattachments hparam
  dsimp only at hkeywords hsizes hattachments hparam
  have hsub (l : Prop) [Decidable l] (v : Bytes) :
      (if l then [] else resentLogic v) = v ↔ if l then v = [] else v ∈ logics := by
    split_ifs
    · exact eq_comm
    · exact resentLogic_eq_iff
  rw [Rule.reopened, Rule.mk.injEq]
  dsimp only
  rw [hkeywords, hsizes, hattachments, hparam, hsub, hsub, resentKey_eq_iff (by decide)]
  have hrule : attach = [] → (resentLogic (if attachments = [] then rule else attach) = rule ↔
      if attachments = [] then rule ∈ logics else rule = bytes "AND") := by
    rintro rfl
    split_ifs
    · exact resentLogic_eq_iff
    · exact eq_comm
  constructor
  · rintro ⟨h1, h2, h3, h4, h5, h6, h7, h8, h9⟩
    exact ⟨(hrule h6.symm).1 h1, h6.symm, h2, h4, h3, h5, h7, h8, h9⟩
  · rintro ⟨h1, h6, h2, h4, h3, h5, h7, h8, h9⟩
    exact ⟨(hrule h6).2 h1, h2, h3, h4, h5, h6.symm, h7, h8, h9⟩

/-- For every rule that `saveParams` stores, the unchanged form is accepted and makes the same rule
if and only if the rule stays as it is. -/
theorem keeps_saveParams_iff (b : Browser) (p : Post) (h : checkParams p = true) :
    Keeps b (saveParams p) ↔ (saveParams p).Stays b := by
  rw [Keeps, checkParams_eq, saveParams_reopened, reopened_eq_iff, and_iff_right_iff_imp]
  intro hstays
  rwa [(reopened_eq_iff p).2 hstays, ← checkParams_eq]

/-- A form with one keyword. -/
def samplePost : Post := post
  [(.ruleLogic, bytes "AND"), (.keywordLogic, bytes "OR"), (.keywordNum, bytes "1"),
    (.keyPos 1, bytes "9"), (.decode 1, bytes "0"), (.caseSensitive 1, bytes "0"),
    (.keyMatchType 1, bytes "8"), (.keyword 1, bytes "10.0.0.0/8"), (.action, bytes "1")]

theorem keeps_sample : Keeps .verbatim (saveParams samplePost) :=
  (keeps_saveParams_iff .verbatim samplePost (by decide +kernel)).2
    ((reopened_eq_iff samplePost).1 (by decide +kernel))

/-- A form with one attachment. -/
def attachmentPost : Post := post
  [(.ruleLogic, bytes "OR"), (.attachLogic, bytes "AND"), (.attachmentNum, bytes "1"),
    (.fileName 1, bytes "a.exe"), (.attachSize 1, bytes "0-0"), (.action, bytes "1")]

/-- A rule that matches when one of its parts does becomes one that matches when all of them do. -/
theorem logic_overwritten :
    ¬∀ (b : Browser) (p : Post), checkParams p = true → Keeps b (saveParams p) := by
  intro hall
  have hkeeps := (hall .verbatim attachmentPost (by decide +kernel)).2
  rw [saveParams_reopened] at hkeeps
  have hlogic := congrArg Rule.ruleLogic hkeeps
  revert hlogic
  decide +kernel

end Exactness

end NoSpam.Admin.RuleForm
