import Mathlib

/-!
# Percent escapes of ASCII text

An escaped text keeps any character but the percent sign as it is, and may write
any ASCII character as a percent sign and two hexadecimal digits. The relation
leaves open which characters are escaped and the letter case of the digits, so a
statement about every escaped form of a text covers every encoder.
-/
namespace Helmoci.PercentEscapes

/-- The value of one hexadecimal digit in either letter case. -/
def hexValue (c : Char) : Option ℕ :=
  if '0' ≤ c ∧ c ≤ '9' then some (c.toNat - 48)
  else if 'a' ≤ c ∧ c ≤ 'f' then some (c.toNat - 87)
  else if 'A' ≤ c ∧ c ≤ 'F' then some (c.toNat - 55)
  else none

/-- `Escapes e s`: the text `e` is an escaped form of `s`. -/
inductive Escapes : List Char → List Char → Prop
  | nil : Escapes [] []
  | literal {e s : List Char} (c : Char) : c ≠ '%' → Escapes e s → Escapes (c :: e) (c :: s)
  | escape {e s : List Char} {x y : ℕ} (c h l : Char) : hexValue h = some x → hexValue l = some y →
      16 * x + y = c.toNat → c.toNat < 128 → Escapes e s → Escapes ('%' :: h :: l :: e) (c :: s)

theorem Escapes.refl {s : List Char} (h : '%' ∉ s) : Escapes s s := by
  induction s with
  | nil => exact .nil
  | cons c s ih =>
      simp only [List.mem_cons, not_or] at h
      exact .literal c (Ne.symm h.1) (ih h.2)

theorem Escapes.append {e₁ s₁ e₂ s₂ : List Char} (h₁ : Escapes e₁ s₁) (h₂ : Escapes e₂ s₂) :
    Escapes (e₁ ++ e₂) (s₁ ++ s₂) := by
  induction h₁ with
  | nil => exact h₂
  | literal c hc _ ih => exact .literal c hc ih
  | escape c h l hx hy hv ha _ ih => exact .escape c h l hx hy hv ha ih

/-- Replace every escape by the character with its value, in one pass. -/
def unescape : List Char → List Char
  | '%' :: h :: l :: s =>
      match hexValue h, hexValue l with
      | some x, some y => Char.ofNat (16 * x + y) :: unescape s
      | _, _ => '%' :: unescape (h :: l :: s)
  | c :: s => c :: unescape s
  | [] => []

theorem unescape_cons {c : Char} (hc : c ≠ '%') (s : List Char) :
    unescape (c :: s) = c :: unescape s := by
  rw [unescape]
  rintro h l t rfl
  exact absurd rfl hc

theorem unescape_of_escapes {e s : List Char} (h : Escapes e s) : unescape e = s := by
  induction h with
  | nil => rfl
  | literal c hc _ ih => rw [unescape_cons hc, ih]
  | escape c h l hx hy hv _ _ ih =>
      simp only [unescape, hx, hy, hv, ih, Char.ofNat_toNat]

end Helmoci.PercentEscapes
