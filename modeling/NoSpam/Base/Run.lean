import Mathlib.Data.List.Basic

/-!
# Runs of a state machine

A machine is a step function from a state and an input to a state.  `run` feeds it a list of inputs,
and `Meets` says that every input of the list meets a condition in the state it finds.  A step lemma
for inputs that meet the condition gives the run lemma (`run_invariant`), and one for inputs that do
not shows that the condition is exact (`forall_prefix_iff_meets`).  A run of steps that may fail
goes through when none does (`isSome_foldlM_iff`).  A step of one of many parties leaves the others
as they are (`forall_of_frame`).  A machine that some of the inputs do not concern can be compared
with a second one that is fed the others only (`run_of_sim`, `outputs_of_sim`).
-/

namespace Machine

variable {σ α : Type*} (step : σ → α → σ)

/-- The state after a list of inputs. -/
def run (s : σ) (as : List α) : σ := as.foldl step s

/-- Every input meets the condition in the state it finds. -/
def Meets (ok : σ → α → Prop) : σ → List α → Prop
  | _, [] => True
  | s, a :: as => ok s a ∧ Meets ok (step s a) as

instance decidableMeets {ok : σ → α → Prop} [∀ s a, Decidable (ok s a)] :
    ∀ (s : σ) (as : List α), Decidable (Meets step ok s as)
  | _, [] => .isTrue trivial
  | s, a :: as => @instDecidableAnd _ _ _ (decidableMeets (step s a) as)

variable {step} {ok : σ → α → Prop} {s : σ} {as : List α}

@[simp] theorem run_nil : run step s [] = s := rfl

@[simp] theorem run_cons (a : α) : run step s (a :: as) = run step (step s a) as := rfl

theorem run_append (bs : List α) : run step s (as ++ bs) = run step (run step s as) bs :=
  List.foldl_append ..

@[simp] theorem meets_nil : Meets step ok s [] := trivial

@[simp] theorem meets_cons {a : α} :
    Meets step ok s (a :: as) ↔ ok s a ∧ Meets step ok (step s a) as := Iff.rfl

theorem meets_append {bs : List α} :
    Meets step ok s (as ++ bs) ↔ Meets step ok s as ∧ Meets step ok (run step s as) bs := by
  induction as generalizing s with
  | nil => simp
  | cons a as ih => simp [ih, and_assoc]

theorem meets_of_forall (h : ∀ s a, ok s a) : Meets step ok s as := by
  induction as generalizing s with
  | nil => trivial
  | cons a as ih => exact ⟨h s a, ih⟩

theorem meets_of_forall_mem {p : α → Prop} (h : ∀ a ∈ as, p a) :
    Meets step (fun _ a => p a) s as := by
  induction as generalizing s with
  | nil => trivial
  | cons a as ih =>
    exact ⟨h a List.mem_cons_self, ih fun a' ha' => h a' (List.mem_cons_of_mem a ha')⟩

theorem forall_mem_of_meets {p : α → Prop} (h : Meets step (fun _ a => p a) s as) :
    ∀ a ∈ as, p a := by
  induction as generalizing s with
  | nil => exact fun a ha => absurd ha List.not_mem_nil
  | cons a as ih => exact List.forall_mem_cons.2 ⟨h.1, ih h.2⟩

theorem meets_and {ok' : σ → α → Prop} :
    Meets step (fun s a => ok s a ∧ ok' s a) s as ↔ Meets step ok s as ∧ Meets step ok' s as := by
  induction as generalizing s with
  | nil => exact ⟨fun _ => ⟨trivial, trivial⟩, fun _ => trivial⟩
  | cons a as ih => rw [meets_cons, meets_cons, meets_cons, ih, and_and_and_comm]

theorem meets_congr {ok' : σ → α → Prop} (h : ∀ s a, ok s a ↔ ok' s a) :
    Meets step ok s as ↔ Meets step ok' s as := by
  induction as generalizing s with
  | nil => exact Iff.rfl
  | cons a as ih => rw [meets_cons, meets_cons, h, ih]

/-- What every step that meets the condition preserves, every such run preserves. -/
theorem run_invariant {I : σ → Prop} (hstep : ∀ s a, I s → ok s a → I (step s a)) (hs : I s)
    (h : Meets step ok s as) : I (run step s as) := by
  induction as generalizing s with
  | nil => exact hs
  | cons a as ih => exact ih (hstep s a hs h.1) h.2

/-- What holds at every step that meets the condition in a state with the invariant holds at every
step of such a run. -/
theorem meets_of_invariant {I : σ → Prop} {P : σ → α → Prop}
    (hstep : ∀ s a, I s → ok s a → P s a ∧ I (step s a)) (hs : I s) (h : Meets step ok s as) :
    Meets step P s as := by
  induction as generalizing s with
  | nil => trivial
  | cons a as ih =>
    obtain ⟨hP, hI⟩ := hstep s a hs h.1
    exact ⟨hP, ih hI h.2⟩

/-- Where an input that does not meet the condition spoils `P`, a run of inputs that fit meets the
condition if and only if `P` holds in every state that it reaches. -/
theorem forall_prefix_iff_meets_of_fits {I P : σ → Prop} {fits : σ → α → Prop}
    (hP : ∀ s, I s → P s) (hstep : ∀ s a, I s → fits s a → ok s a → I (step s a))
    (hok : ∀ s a, I s → fits s a → P (step s a) → ok s a) (hs : I s)
    (hfits : Meets step fits s as) :
    (∀ as', as' <+: as → P (run step s as')) ↔ Meets step ok s as := by
  induction as generalizing s with
  | nil =>
    refine ⟨fun _ => trivial, fun _ as' has' => ?_⟩
    rw [List.prefix_nil.1 has']
    exact hP s hs
  | cons a as ih =>
    constructor
    · intro hall
      have ha : ok s a :=
        hok s a hs hfits.1 (hall [a] (List.cons_prefix_cons.2 ⟨rfl, List.nil_prefix⟩))
      exact ⟨ha, (ih (hstep s a hs hfits.1 ha) hfits.2).1 fun as' has' =>
        hall (a :: as') (List.cons_prefix_cons.2 ⟨rfl, has'⟩)⟩
    · rintro ⟨ha, hmeets⟩ as' has'
      cases as' with
      | nil => exact hP s hs
      | cons a' as' =>
        obtain ⟨ha', hprefix⟩ := List.cons_prefix_cons.1 has'
        rw [ha']
        exact (ih (hstep s a hs hfits.1 ha) hfits.2).2 hmeets as' hprefix

/-- Where an input that does not meet the condition spoils `P`, a run meets the condition if and
only if `P` holds in every state that it reaches. -/
theorem forall_prefix_iff_meets {I P : σ → Prop} (hP : ∀ s, I s → P s)
    (hstep : ∀ s a, I s → ok s a → I (step s a)) (hok : ∀ s a, I s → P (step s a) → ok s a)
    (hs : I s) : (∀ as', as' <+: as → P (run step s as')) ↔ Meets step ok s as :=
  forall_prefix_iff_meets_of_fits hP (fun s a h _ => hstep s a h) (fun s a h _ => hok s a h) hs
    (meets_of_forall fun _ _ => trivial)

/-! ## A step that may fail -/

/-- Where an invariant decides which inputs the step fails on, a run goes through exactly when there
is no such input. -/
theorem isSome_foldlM_iff {next : σ → α → Option σ} {I : σ → Prop} {P : α → Prop}
    (hP : ∀ s a, I s → ((next s a).isSome = true ↔ P a))
    (hnext : ∀ s a s', I s → next s a = some s' → I s') (hs : I s) :
    (as.foldlM next s).isSome = true ↔ ∀ a ∈ as, P a := by
  induction as generalizing s with
  | nil => simp
  | cons a as ih =>
    rw [List.foldlM_cons, List.forall_mem_cons, ← hP s a hs]
    cases hstep : next s a with
    | none => simp
    | some s' =>
      rw [Option.bind_eq_bind, Option.bind_some, ih (hnext s a s' hs hstep)]
      simp

/-! ## A step of one of many parties -/

/-- What holds of the party that has made a step, and of the others as they were, holds of all. -/
theorem forall_of_frame {ι β : Type*} {P : ι → β → Prop} {f f' : ι → β} {w : ι} {b : β}
    (hself : f' w = b) (hother : ∀ w', w' ≠ w → f' w' = f w') (hw : P w b)
    (h : ∀ w', w' ≠ w → P w' (f w')) : ∀ w', P w' (f' w') := by
  intro w'
  by_cases he : w' = w
  · rw [he, hself]
    exact hw
  · rw [hother w' he]
    exact h w' he

/-! ## Two machines, one of them fed some of the inputs -/

section Simulation

variable {β τ : Type*} {out : σ → α → β} {step' : τ → α → τ} {out' : τ → α → β} {p : α → Bool}

/-- What the machine puts out on the inputs that satisfy `p`. -/
def outputs (step : σ → α → σ) (out : σ → α → β) (p : α → Bool) : σ → List α → List β
  | _, [] => []
  | s, a :: as =>
      if p a then out s a :: outputs step out p (step s a) as else outputs step out p (step s a) as

/-- A relation between the states of two machines, in view of the inputs to come, that the first
keeps on the inputs the second does not get and both keep on the others, with the same output. -/
structure Sim (step : σ → α → σ) (out : σ → α → β) (step' : τ → α → τ) (out' : τ → α → β)
    (p : α → Bool) (ok : σ → α → Prop) (R : σ → τ → List α → Prop) : Prop where
  skip : ∀ s t a as, R s t (a :: as) → ok s a → p a = false → R (step s a) t as
  keep : ∀ s t a as, R s t (a :: as) → ok s a → p a = true →
    out s a = out' t a ∧ R (step s a) (step' t a) as

variable {R : σ → τ → List α → Prop} {t : τ}

/-- Related machines stay related. -/
theorem run_of_sim (h : Sim step out step' out' p ok R) {bs : List α} (hR : R s t (as ++ bs))
    (hmeets : Meets step ok s as) : R (run step s as) (run step' t (as.filter p)) bs := by
  induction as generalizing s t with
  | nil => exact hR
  | cons a as ih =>
    cases hp : p a with
    | false =>
      rw [List.filter_cons_of_neg (by simp [hp])]
      exact ih (h.skip s t a _ hR hmeets.1 hp) hmeets.2
    | true =>
      rw [List.filter_cons_of_pos hp]
      exact ih (h.keep s t a _ hR hmeets.1 hp).2 hmeets.2

/-- Related machines put out the same. -/
theorem outputs_of_sim (h : Sim step out step' out' p ok R) (hR : R s t as)
    (hmeets : Meets step ok s as) :
    outputs step out p s as = outputs step' out' (fun _ => true) t (as.filter p) := by
  induction as generalizing s t with
  | nil => rfl
  | cons a as ih =>
    cases hp : p a with
    | false =>
      rw [List.filter_cons_of_neg (by simp [hp]), outputs, if_neg (by simp [hp])]
      exact ih (h.skip s t a _ hR hmeets.1 hp) hmeets.2
    | true =>
      obtain ⟨hout, hR'⟩ := h.keep s t a _ hR hmeets.1 hp
      rw [List.filter_cons_of_pos hp, outputs, outputs, if_pos hp, if_pos rfl, hout,
        ih hR' hmeets.2]

end Simulation

end Machine
