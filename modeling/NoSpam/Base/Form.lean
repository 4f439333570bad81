import NoSpam.Base.Decimal

/-!
# Forms

A page writes a form as a list of controls, a browser sends what is in them, and a PHP script finds
it under the names of the controls: the last value where a name occurs twice, and with the slashes
that `magic_quotes_gpc` adds.  The browser is a parameter: of its way to read a quoted attribute
only this much is assumed, that printable ASCII without `&` stands for itself (`decode_plain`).
-/

namespace Form

open Text

/-- A printable ASCII character that begins no character reference and ends no attribute. -/
def isPlain (c : UInt8) : Bool := 32 ≤ c && c ≤ 126 && c ≠ 34 && c ≠ 38

/-- What a browser makes of the characters of a quoted attribute, as it sends them back. -/
structure Browser where
  decode : Bytes → Bytes
  decode_plain : ∀ l : Bytes, l.all isPlain = true → decode l = l

/-- A browser that knows no character references. -/
def Browser.verbatim : Browser := ⟨id, fun _ _ => rfl⟩

/-- The value of an attribute in which a text has been written between quotation marks: it ends at
the first quotation mark of the text. -/
def Browser.value (b : Browser) (raw : Bytes) : Bytes := b.decode (raw.takeWhile (· ≠ 34))

/-- `addslashes`. -/
def addSlashes : Bytes → Bytes
  | [] => []
  | c :: l =>
      if c = 0 then 92 :: 48 :: addSlashes l
      else if c = 34 || c = 39 || c = 92 then 92 :: c :: addSlashes l
      else c :: addSlashes l

/-- A control: its name and the text in its `value` attribute, when it has something to send. -/
structure Control (φ : Type*) where
  field : φ
  value : Option Bytes
  disabled : Bool := false

/-- The option of a `select` that is sent: the last selected one, or else the first. -/
def choice (options : List (Bytes × Bool)) : Option Bytes :=
  ((options.filter Prod.snd).getLast?.or options.head?).map Prod.fst

/-- One of the options is chosen. -/
theorem choice_mem {options : List (Bytes × Bool)} (h : options ≠ []) :
    ∃ o ∈ options, choice options = some o.1 := by
  unfold choice
  cases hlast : (options.filter Prod.snd).getLast? with
  | some o => exact ⟨o, List.mem_of_mem_filter (List.mem_of_getLast? hlast), rfl⟩
  | none =>
    obtain ⟨o, l, rfl⟩ := List.exists_cons_of_ne_nil h
    exact ⟨o, List.mem_cons_self, rfl⟩

/-- An option that is the only one selected is chosen. -/
theorem choice_eq_some {options : List (Bytes × Bool)} {v : Bytes} (h : (v, true) ∈ options)
    (hunique : ∀ o ∈ options, o.2 = true → o.1 = v) : choice options = some v := by
  unfold choice
  cases hlast : (options.filter Prod.snd).getLast? with
  | some o =>
    obtain ⟨hmem, hsel⟩ := List.mem_filter.1 (List.mem_of_getLast? hlast)
    exact congrArg some (hunique o hmem hsel)
  | none =>
    have hmem : (v, true) ∈ options.filter Prod.snd := List.mem_filter.2 ⟨h, rfl⟩
    rw [List.getLast?_eq_none_iff.1 hlast] at hmem
    cases hmem

section Submission

variable {φ : Type*} [DecidableEq φ] (b : Browser)

/-- What the browser sends for a control. -/
def Control.sent (c : Control φ) : Option (φ × Bytes) :=
  if c.disabled then none else c.value.map fun raw => (c.field, b.value raw)

/-- `$_POST` with one more value. -/
def receive (p : φ → Option Bytes) (s : φ × Bytes) : φ → Option Bytes :=
  Function.update p s.1 (some (addSlashes s.2))

/-- `$_POST` after what has been sent. -/
def post (sent : List (φ × Bytes)) : φ → Option Bytes := sent.foldl receive fun _ => none

/-- `$_POST` after the form has been submitted as it is. -/
def submit (cs : List (Control φ)) : φ → Option Bytes := post (cs.filterMap (Control.sent b))

variable {b} {f : φ} {cs cs' : List (Control φ)}

theorem foldl_receive (sent : List (φ × Bytes)) (p : φ → Option Bytes) :
    sent.foldl receive p f = (post sent f).or (p f) := by
  induction sent using List.reverseRecOn with
  | nil => rfl
  | append_singleton sent s ih =>
    rw [post, List.foldl_append, List.foldl_append, List.foldl_cons, List.foldl_cons,
      List.foldl_nil, List.foldl_nil, receive, receive]
    by_cases hf : f = s.1
    · rw [hf, Function.update_self, Function.update_self]
      rfl
    · rw [Function.update_of_ne hf, Function.update_of_ne hf, ih]
      rfl

/-- The controls that come later decide. -/
theorem submit_append : submit b (cs ++ cs') f = (submit b cs' f).or (submit b cs f) := by
  rw [submit, post, List.filterMap_append, List.foldl_append, foldl_receive]
  rfl

@[simp] theorem submit_nil : submit b ([] : List (Control φ)) f = none := rfl

theorem submit_cons (c : Control φ) :
    submit b (c :: cs) f = (submit b cs f).or
      (if c.disabled = false ∧ c.field = f then c.value.map (addSlashes ∘ b.value) else none) := by
  have hc : submit b [c] f =
      if c.disabled = false ∧ c.field = f then c.value.map (addSlashes ∘ b.value) else none := by
    obtain ⟨field, value, disabled⟩ := c
    cases disabled with
    | true => rfl
    | false =>
      cases value with
      | none => split_ifs <;> rfl
      | some raw =>
        simp only [submit, post, Control.sent, List.filterMap_cons, List.filterMap_nil,
          List.foldl_cons, List.foldl_nil, Bool.false_eq_true, if_false, Option.map_some, receive,
          true_and]
        by_cases hf : field = f
        · rw [hf, Function.update_self, if_pos rfl]
          rfl
        · rw [Function.update_of_ne (Ne.symm hf), if_neg hf]
  rw [← List.singleton_append, submit_append, hc]

theorem submit_eq_none (h : ∀ c ∈ cs, c.field ≠ f) : submit b cs f = none := by
  induction cs with
  | nil => rfl
  | cons c cs ih =>
    rw [submit_cons, ih fun c' hc' => h c' (List.mem_cons_of_mem c hc'),
      if_neg fun hc => h c List.mem_cons_self hc.2]
    rfl

theorem submit_singleton_of_ne {c : Control φ} (h : c.field ≠ f) : submit b [c] f = none :=
  submit_eq_none fun c' hc' => by rwa [List.mem_singleton.1 hc']

/-- A control whose name no other control has. -/
theorem submit_of_mem {c : Control φ} (hc : c ∈ cs)
    (hunique : ∀ c' ∈ cs, c'.field = c.field → c' = c) :
    submit b cs c.field = submit b [c] c.field := by
  induction cs with
  | nil => cases hc
  | cons d cs ih =>
    rw [← List.singleton_append, submit_append]
    by_cases hcs : c ∈ cs
    · rw [ih hcs fun c' hc' => hunique c' (List.mem_cons_of_mem d hc')]
      by_cases hd : d.field = c.field
      · rw [hunique d List.mem_cons_self hd, Option.or_self]
      · rw [submit_singleton_of_ne hd, Option.or_none]
    · have hd : c = d := (List.mem_cons.1 hc).resolve_right hcs
      rw [submit_eq_none fun c' hc' hf => hcs ?_, Option.none_or, hd]
      rw [← hunique c' (List.mem_cons_of_mem d hc') hf]
      exact hc'

/-- Controls for the items of a list, with numbers from `n` on. -/
def numbered {α : Type*} (g : ℕ → α → List (Control φ)) : ℕ → List α → List (Control φ)
  | _, [] => []
  | n, a :: l => g n a ++ numbered g (n + 1) l

variable {α : Type*} {g : ℕ → α → List (Control φ)}

theorem submit_numbered_eq_none (h : ∀ i a, submit b (g i a) f = none) (n : ℕ) (l : List α) :
    submit b (numbered g n l) f = none := by
  induction l generalizing n with
  | nil => rfl
  | cons a l ih => rw [numbered, submit_append, ih, h, Option.or_none]

omit [DecidableEq φ] in
theorem mem_numbered {c : Control φ} {n : ℕ} {l : List α} (h : c ∈ numbered g n l) :
    ∃ i a, c ∈ g i a := by
  induction l generalizing n with
  | nil => cases h
  | cons a l ih =>
    rcases List.mem_append.1 h with h | h
    · exact ⟨n, a, h⟩
    · exact ih h

/-- A control whose name holds the number of an item is sent for that item. -/
theorem submit_numbered {j : ℕ} (h : ∀ i a, i ≠ j → submit b (g i a) f = none) {n : ℕ}
    (hn : n ≤ j) (l : List α) :
    submit b (numbered g n l) f = (l[j - n]?).bind fun a => submit b (g j a) f := by
  induction l generalizing n with
  | nil => rfl
  | cons a l ih =>
    rw [numbered, submit_append]
    rcases Nat.eq_or_lt_of_le hn with rfl | hlt
    · have hrest : submit b (numbered g (n + 1) l) f = none := by
        clear ih hn
        suffices ∀ m, n < m → submit b (numbered g m l) f = none from this _ (Nat.lt_succ_self n)
        intro m hm
        induction l generalizing m with
        | nil => rfl
        | cons a l ih =>
          rw [numbered, submit_append, ih _ (Nat.lt_succ_of_lt hm), h _ _ (Nat.ne_of_gt hm),
            Option.or_none]
      rw [hrest, Nat.sub_self]
      rfl
    · rw [h _ _ (Nat.ne_of_lt hlt), ih hlt, Option.or_none]
      have hsub : j - n = (j - (n + 1)) + 1 := by omega
      rw [hsub, List.getElem?_cons_succ]

end Submission

/-! ## Texts that come back as they were -/

/-- The text comes back as it was. -/
def Kept (b : Browser) (raw : Bytes) : Prop := addSlashes (b.value raw) = raw

theorem addSlashes_eq_self {l : Bytes} (h : ∀ c ∈ l, c ≠ 0 ∧ c ≠ 34 ∧ c ≠ 39 ∧ c ≠ 92) :
    addSlashes l = l := by
  induction l with
  | nil => rfl
  | cons c l ih =>
    obtain ⟨h0, h34, h39, h92⟩ := h c List.mem_cons_self
    rw [addSlashes, if_neg h0, if_neg (by simp [h34, h39, h92]),
      ih fun c hc => h c (List.mem_cons_of_mem _ hc)]

/-- A plain text without apostrophes and backslashes. -/
theorem kept_of_plain (b : Browser) {raw : Bytes} (h : raw.all isPlain = true)
    (hquote : ∀ c ∈ raw, c ≠ 39 ∧ c ≠ 92) : Kept b raw := by
  have hplain : ∀ c ∈ raw, c ≠ 0 ∧ c ≠ 34 := by
    intro c hc
    have hp := List.all_eq_true.1 h c hc
    constructor
    all_goals
      rintro rfl
      cases hp
  have hcut : raw.takeWhile (· ≠ 34) = raw :=
    List.takeWhile_eq_self_iff.2 fun c hc => by simpa using (hplain c hc).2
  rw [Kept, Browser.value, hcut, b.decode_plain raw h]
  exact addSlashes_eq_self fun c hc => ⟨(hplain c hc).1, (hplain c hc).2, hquote c hc⟩

theorem kept_decimal (b : Browser) (n : ℕ) : Kept b (decimal n) := by
  refine kept_of_plain b (List.all_eq_true.2 fun c hc => ?_) fun c hc => ?_
  · have hd := isDigit_of_mem_decimal hc
    simp only [isDigit, isPlain, Bool.and_eq_true, decide_eq_true_eq, UInt8.le_iff_toNat_le,
      ne_eq, UInt8.toNat_inj.symm] at hd ⊢
    simp at hd ⊢
    omega
  · have hd := isDigit_of_mem_decimal hc
    constructor
    all_goals
      rintro rfl
      cases hd

end Form
