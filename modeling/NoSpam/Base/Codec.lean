import NoSpam.Base.Decimal
import Mathlib.Data.List.Infix
import Mathlib.Logic.Equiv.Defs

/-!
# Formats that are read from the front

A codec writes a value as a text and reads one from the front of a text.  It reads back what it has
written, whatever follows, if the value fits, and it never reads a value that does not fit.
So codecs can be put one after the other, and a value is read back exactly if it fits
(`read_write_iff`).
-/

open Text

/-- A format for the values of `α`, and the values that it can carry. -/
structure Codec (σ α : Type*) where
  write : α → List σ
  read : List σ → Option (α × List σ)
  Fits : α → Prop
  read_write : ∀ {a : α} (r : List σ), Fits a → read (write a ++ r) = some (a, r)
  fits_of_read : ∀ {l : List σ} {a : α} {r : List σ}, read l = some (a, r) → Fits a

namespace Codec

variable {σ α β : Type*}

theorem read_write_iff (c : Codec σ α) (a : α) (r : List σ) :
    c.read (c.write a ++ r) = some (a, r) ↔ c.Fits a :=
  ⟨c.fits_of_read, c.read_write r⟩

/-! ## Putting codecs together -/

/-- The values of another type that carries the same. -/
def map (c : Codec σ α) (e : α ≃ β) : Codec σ β where
  write b := c.write (e.symm b)
  read l := (c.read l).map fun p => (e p.1, p.2)
  Fits b := c.Fits (e.symm b)
  read_write {b} r h := by
    rw [c.read_write r h]
    simp
  fits_of_read {l b r} h := by
    obtain ⟨⟨a, r'⟩, hread, heq⟩ := Option.map_eq_some_iff.1 h
    obtain ⟨rfl, rfl⟩ := Prod.mk.inj heq
    rw [e.symm_apply_apply]
    exact c.fits_of_read hread

/-- One after the other. -/
def seq (c : Codec σ α) (d : Codec σ β) : Codec σ (α × β) where
  write p := c.write p.1 ++ d.write p.2
  read l := (c.read l).bind fun p => (d.read p.2).map fun q => ((p.1, q.1), q.2)
  Fits p := c.Fits p.1 ∧ d.Fits p.2
  read_write r h := by
    rw [List.append_assoc, c.read_write _ h.1, Option.bind_some, d.read_write _ h.2]
    rfl
  fits_of_read {l p r} h := by
    obtain ⟨⟨a, l'⟩, hc, h⟩ := Option.bind_eq_some_iff.1 h
    obtain ⟨⟨b, r'⟩, hd, heq⟩ := Option.map_eq_some_iff.1 h
    obtain ⟨rfl, rfl⟩ := Prod.mk.inj heq
    exact ⟨c.fits_of_read hc, d.fits_of_read hd⟩

/-- After a fixed text. -/
def after [DecidableEq σ] (key : List σ) (c : Codec σ α) : Codec σ α where
  write a := key ++ c.write a
  read l := if key <+: l then c.read (l.drop key.length) else none
  Fits := c.Fits
  read_write r h := by
    rw [List.append_assoc, if_pos (List.prefix_append ..), List.drop_left]
    exact c.read_write r h
  fits_of_read {l a r} h := by
    split_ifs at h with hkey
    exact c.fits_of_read h

/-- A text after its length. -/
def counted (c : Codec σ ℕ) : Codec σ (List σ) where
  write v := c.write v.length ++ v
  read l := (c.read l).bind fun p =>
    if p.1 ≤ p.2.length then some (p.2.take p.1, p.2.drop p.1) else none
  Fits v := c.Fits v.length
  read_write {v} r h := by
    rw [List.append_assoc, c.read_write _ h, Option.bind_some]
    dsimp only
    rw [if_pos (by rw [List.length_append]; omega), List.take_left, List.drop_left]
  fits_of_read {l v r} h := by
    obtain ⟨⟨n, l'⟩, hc, h⟩ := Option.bind_eq_some_iff.1 h
    dsimp only at h
    split_ifs at h with hle
    obtain ⟨rfl, rfl⟩ := Prod.mk.inj (Option.some.inj h)
    rw [List.length_take, Nat.min_eq_left hle]
    exact c.fits_of_read hc

/-! ## Lines that end in a pair -/

section Lines

variable [DecidableEq σ] {a b : σ}

/-- Up to the first `a` that `b` follows. -/
def upTo (a b : σ) : List σ → Option (List σ × List σ)
  | [] => none
  | [_] => none
  | x :: y :: l =>
      if x = a ∧ y = b then some ([], l) else (upTo a b (y :: l)).map fun p => (x :: p.1, p.2)

theorem upTo_append (hne : a ≠ b) {v : List σ} (h : ¬[a, b] <:+: v) (r : List σ) :
    upTo a b (v ++ a :: b :: r) = some (v, r) := by
  induction v with
  | nil => exact if_pos ⟨rfl, rfl⟩
  | cons x v ih =>
    have hrest := ih fun hv => h (hv.trans (List.suffix_cons x v).isInfix)
    cases v with
    | nil =>
      show upTo a b (x :: a :: b :: r) = _
      rw [upTo, if_neg fun hpair => hne hpair.2]
      rw [List.nil_append] at hrest
      rw [hrest]
      rfl
    | cons y v =>
      have hpair : ¬(x = a ∧ y = b) := by
        rintro ⟨rfl, rfl⟩
        exact h ⟨[], v, rfl⟩
      show upTo a b (x :: y :: (v ++ a :: b :: r)) = _
      rw [upTo, if_neg hpair]
      rw [List.cons_append] at hrest
      rw [hrest]
      rfl

theorem eq_of_upTo {l v r : List σ} (h : upTo a b l = some (v, r)) : l = v ++ a :: b :: r := by
  induction l using upTo.induct a b generalizing v r with
  | case1 => cases h
  | case2 => cases h
  | case3 x y l hpair =>
    rw [upTo, if_pos hpair] at h
    obtain ⟨rfl, rfl⟩ := Prod.mk.inj (Option.some.inj h)
    rw [hpair.1, hpair.2]
    rfl
  | case4 x y l hpair ih =>
    rw [upTo, if_neg hpair] at h
    obtain ⟨⟨v', r'⟩, hread, heq⟩ := Option.map_eq_some_iff.1 h
    obtain ⟨rfl, rfl⟩ := Prod.mk.inj heq
    rw [ih hread]
    rfl

theorem not_infix_of_upTo {l v r : List σ} (h : upTo a b l = some (v, r)) : ¬[a, b] <:+: v := by
  induction l using upTo.induct a b generalizing v r with
  | case1 => cases h
  | case2 => cases h
  | case3 x y l hpair =>
    rw [upTo, if_pos hpair] at h
    obtain ⟨rfl, rfl⟩ := Prod.mk.inj (Option.some.inj h)
    simp
  | case4 x y l hpair ih =>
    rw [upTo, if_neg hpair] at h
    obtain ⟨⟨v', r'⟩, hread, heq⟩ := Option.map_eq_some_iff.1 h
    obtain ⟨rfl, rfl⟩ := Prod.mk.inj heq
    intro hinfix
    rcases List.infix_cons_iff.1 hinfix with hfront | hrest
    · -- the pair at the front would be the one that ends the line
      obtain ⟨w, hw⟩ := hfront
      obtain ⟨hx, hv⟩ := List.cons.inj hw
      have hline : y :: l = v' ++ a :: b :: r' := eq_of_upTo hread
      rw [show v' = b :: w from hv.symm] at hline
      exact hpair ⟨hx.symm, (List.cons.inj hline).1⟩
    · exact ih hread hrest

/-- A text and the pair that ends it. -/
def line (a b : σ) (hne : a ≠ b) : Codec σ (List σ) where
  write v := v ++ [a, b]
  read := upTo a b
  Fits v := ¬[a, b] <:+: v
  read_write {v} r h := by
    rw [List.append_assoc]
    exact upTo_append hne h r
  fits_of_read := not_infix_of_upTo

end Lines

/-! ## Numbers -/

/-- A number in decimal on a line, which every number fits. -/
def numberLine (a b : UInt8) (hne : a ≠ b) (ha : isDigit a = false) : Codec UInt8 ℕ where
  write n := decimal n ++ [a, b]
  read l := (upTo a b l).bind fun p =>
    if p.1 ≠ [] ∧ p.1.all isDigit = true then some (value p.1, p.2) else none
  Fits _ := True
  read_write {n} r _ := by
    have hclean : ¬[a, b] <:+: decimal n := fun h => by
      have hdigit := isDigit_of_mem_decimal (h.subset List.mem_cons_self)
      rw [ha] at hdigit
      cases hdigit
    have hdigits : (decimal n).all isDigit = true :=
      List.all_eq_true.2 fun _ hc => isDigit_of_mem_decimal hc
    rw [List.append_assoc]
    show (upTo a b (decimal n ++ a :: b :: r)).bind _ = _
    rw [upTo_append hne hclean, Option.bind_some, if_pos ⟨decimal_ne_nil n, hdigits⟩, value_decimal]
  fits_of_read _ := trivial

end Codec
