import Helmoci.JsonDocuments
import Helmoci.JsonValues

/-!
# Numbers as JSON text

An integer that fits into 64 bits is kept as it is, and any other number is a float, whose
text a parameter gives. A number is read up to where no digit, fraction or exponent can go
on.
-/
namespace Helmoci.JsonNumbers
open RustText JsonDocuments JsonValues

def numberText : Number → Str
  | .unsigned n => decimal n
  | .negative n => '-' :: decimal n
  | .float text => text

/-- The fraction and the exponent are the text behind the integer. -/
structure Literal where
  negative : Bool
  integer : Str
  behind : Str
deriving DecidableEq

def Literal.text (l : Literal) : Str :=
  (if l.negative then ['-'] else []) ++ (l.integer ++ l.behind)

def readDigits (s : Str) : Option (Str × Str) :=
  let digits := s.takeWhile Char.isDigit
  if digits.isEmpty then none else some (digits, s.dropWhile Char.isDigit)

def readInteger : Str → Option (Str × Str)
  | '0' :: s => some (['0'], s)
  | s => readDigits s

def readFraction : Str → Option (Str × Str)
  | '.' :: s => (readDigits s).map fun (digits, rest) => ('.' :: digits, rest)
  | s => some ([], s)

/-- What stands behind the letter of an exponent. -/
def readPower : Str → Option (Str × Str)
  | [] => none
  | sign :: s =>
    if sign = '+' ∨ sign = '-' then
      (readDigits s).map fun (digits, rest) => (sign :: digits, rest)
    else readDigits (sign :: s)

def readExponent : Str → Option (Str × Str)
  | [] => some ([], [])
  | e :: s =>
    if e = 'e' ∨ e = 'E' then (readPower s).map fun (power, rest) => (e :: power, rest)
    else some ([], e :: s)

def readUnsigned (negative : Bool) (s : Str) : Option (Literal × Str) := do
  let (integer, s) ← readInteger s
  let (fraction, s) ← readFraction s
  let (exponent, s) ← readExponent s
  return (⟨negative, integer, fraction ++ exponent⟩, s)

def readLiteral : Str → Option (Literal × Str)
  | '-' :: s => readUnsigned true s
  | s => readUnsigned false s

/-- An integer that fits into 64 bits, with a sign or without one, or else a float. -/
def numberOf (float : Str → Option Str) (l : Literal) : Option Number :=
  let n := Nat.ofDigitChars 10 l.integer 0
  if l.behind = [] ∧ l.negative = false ∧ n < 2 ^ 64 then some (.unsigned n)
  else if l.behind = [] ∧ l.negative = true ∧ 1 ≤ n ∧ n ≤ 2 ^ 63 then some (.negative n)
  else (float l.text).map .float

def readNumber (float : Str → Option Str) (s : Str) : Option (Number × Str) := do
  let (l, rest) ← readLiteral s
  let n ← numberOf float l
  return (n, rest)

/-- No digit, fraction or exponent can go on here. -/
def EndsNumber (rest : Str) : Prop :=
  ∀ c ∈ rest.head?, c.isDigit = false ∧ c ≠ '.' ∧ c ≠ 'e' ∧ c ≠ 'E'

variable {rest : Str}

theorem readDigits_append (h : EndsNumber rest) {s digits behind : Str}
    (hs : readDigits s = some (digits, behind)) :
    readDigits (s ++ rest) = some (digits, behind ++ rest) := by
  have hstop : rest.takeWhile Char.isDigit = [] ∧ rest.dropWhile Char.isDigit = rest := by
    cases rest with
    | nil => exact ⟨rfl, rfl⟩
    | cons c rest =>
        have hc : c.isDigit = false := (h c rfl).1
        simp [hc]
  have htake : (s ++ rest).takeWhile Char.isDigit = s.takeWhile Char.isDigit := by
    rw [List.takeWhile_append]
    split
    · rename_i hl
      rw [hstop.1, List.append_nil]
      exact ((List.takeWhile_prefix _).eq_of_length hl).symm
    · rfl
  have hdrop : (s ++ rest).dropWhile Char.isDigit = s.dropWhile Char.isDigit ++ rest := by
    have happ := List.takeWhile_append_dropWhile (p := Char.isDigit) (l := s ++ rest)
    rw [htake] at happ
    have hs := List.takeWhile_append_dropWhile (p := Char.isDigit) (l := s)
    have heq : s.takeWhile Char.isDigit ++ (s ++ rest).dropWhile Char.isDigit =
        s.takeWhile Char.isDigit ++ (s.dropWhile Char.isDigit ++ rest) := by
      rw [happ, ← List.append_assoc, hs]
    exact List.append_cancel_left heq
  unfold readDigits at hs ⊢
  rw [htake, hdrop]
  dsimp only at hs ⊢
  split at hs
  · contradiction
  · rename_i hne
    cases hs
    rw [if_neg hne]

theorem readInteger_append (h : EndsNumber rest) {s integer behind : Str}
    (hs : readInteger s = some (integer, behind)) :
    readInteger (s ++ rest) = some (integer, behind ++ rest) := by
  cases s with
  | nil => contradiction
  | cons c s =>
      by_cases hc : c = '0'
      · subst hc
        cases hs
        rfl
      · have hother : ∀ t, readInteger (c :: t) = readDigits (c :: t) := by
          intro t
          unfold readInteger
          split
          · rename_i heq
            cases heq
            contradiction
          · rfl
        rw [hother] at hs
        rw [List.cons_append, hother]
        exact readDigits_append h hs

theorem readFraction_append (h : EndsNumber rest) {s fraction behind : Str}
    (hs : readFraction s = some (fraction, behind)) :
    readFraction (s ++ rest) = some (fraction, behind ++ rest) := by
  have hother : ∀ t : Str, t.head? ≠ some '.' → readFraction t = some ([], t) := by
    intro t ht
    unfold readFraction
    split
    · exact absurd rfl ht
    · rfl
  cases s with
  | nil =>
      cases hs
      apply hother
      intro hd
      exact (h '.' hd).2.1 rfl
  | cons c s =>
      by_cases hc : c = '.'
      · subst hc
        obtain ⟨⟨digits, behind'⟩, hd, heq⟩ := Option.map_eq_some_iff.mp hs
        cases heq
        rw [List.cons_append, readFraction, readDigits_append h hd]
        rfl
      · rw [hother _ (by simpa using hc)] at hs
        cases hs
        exact hother _ (by simpa using hc)

theorem readPower_append (h : EndsNumber rest) {s power behind : Str}
    (hs : readPower s = some (power, behind)) :
    readPower (s ++ rest) = some (power, behind ++ rest) := by
  cases s with
  | nil => contradiction
  | cons sign s =>
      rw [List.cons_append]
      rw [readPower] at hs ⊢
      by_cases hsign : sign = '+' ∨ sign = '-'
      · rw [if_pos hsign] at hs ⊢
        obtain ⟨⟨digits, behind'⟩, hd, heq⟩ := Option.map_eq_some_iff.mp hs
        cases heq
        rw [readDigits_append h hd]
        rfl
      · rw [if_neg hsign] at hs ⊢
        exact readDigits_append h hs

theorem readExponent_append (h : EndsNumber rest) {s exponent behind : Str}
    (hs : readExponent s = some (exponent, behind)) :
    readExponent (s ++ rest) = some (exponent, behind ++ rest) := by
  cases s with
  | nil =>
      cases hs
      cases rest with
      | nil => rfl
      | cons c rest =>
          obtain ⟨-, -, he, hE⟩ := h c rfl
          simp [readExponent, he, hE]
  | cons e s =>
      rw [List.cons_append]
      rw [readExponent] at hs ⊢
      by_cases he : e = 'e' ∨ e = 'E'
      · rw [if_pos he] at hs ⊢
        obtain ⟨⟨power, behind'⟩, hp, heq⟩ := Option.map_eq_some_iff.mp hs
        cases heq
        rw [readPower_append h hp]
        rfl
      · rw [if_neg he] at hs ⊢
        cases hs
        rfl

theorem readUnsigned_append (h : EndsNumber rest) {negative : Bool} {s behind : Str} {l : Literal}
    (hs : readUnsigned negative s = some (l, behind)) :
    readUnsigned negative (s ++ rest) = some (l, behind ++ rest) := by
  simp only [readUnsigned, Option.bind_eq_bind, Option.bind_eq_some_iff] at hs
  obtain ⟨⟨integer, s₁⟩, h₁, ⟨fraction, s₂⟩, h₂, ⟨exponent, s₃⟩, h₃, heq⟩ := hs
  cases heq
  dsimp only at h₂ h₃
  simp only [readUnsigned, readInteger_append h h₁, readFraction_append h h₂,
    readExponent_append h h₃, Option.bind_eq_bind, Option.bind_some]
  rfl

theorem readLiteral_append (h : EndsNumber rest) {s behind : Str} {l : Literal}
    (hs : readLiteral s = some (l, behind)) :
    readLiteral (s ++ rest) = some (l, behind ++ rest) := by
  have hother : ∀ t : Str, t.head? ≠ some '-' → readLiteral t = readUnsigned false t := by
    intro t ht
    unfold readLiteral
    split
    · exact absurd rfl ht
    · rfl
  cases s with
  | nil => contradiction
  | cons c s =>
      by_cases hc : c = '-'
      · subst hc
        exact readUnsigned_append h hs
      · rw [hother _ (by simpa using hc)] at hs
        rw [hother _ (by simpa using hc)]
        exact readUnsigned_append h hs

/-- No digit is printed in front of the others for nothing. -/
theorem head_decimal {n : ℕ} (h : n ≠ 0) : (decimal n).head? ≠ some '0' := by
  rw [decimal, Nat.toList_repr]
  induction n using Nat.strongRecOn with
  | ind n ih =>
      rw [Nat.toDigits_eq_if (by decide)]
      split
      · rename_i hn
        have hall : ∀ n < 10, n ≠ 0 → [n.digitChar].head? ≠ some '0' := by decide
        exact hall n hn h
      · rename_i hn
        rw [List.head?_append_of_ne_nil _ Nat.toDigits_ne_nil]
        exact ih (n / 10) (by omega) (by omega)

theorem readInteger_decimal (n : ℕ) : readInteger (decimal n) = some (decimal n, []) := by
  by_cases hn : n = 0
  · subst hn
    rfl
  · have hd := isDigit_decimal n
    have hne : decimal n ≠ [] := by
      rw [decimal, Nat.toList_repr]
      exact Nat.toDigits_ne_nil
    have hhead := head_decimal hn
    have hread : readInteger (decimal n) = readDigits (decimal n) := by
      unfold readInteger
      split
      · rename_i heq
        rw [heq] at hhead
        exact absurd rfl hhead
      · rfl
    have htake : (decimal n).takeWhile Char.isDigit = decimal n := List.takeWhile_eq_self_iff.mpr hd
    have hdrop : (decimal n).dropWhile Char.isDigit = [] := List.dropWhile_eq_nil_iff.mpr hd
    rw [hread, readDigits, htake, hdrop]
    simp [hne]

theorem readUnsigned_decimal (negative : Bool) (n : ℕ) :
    readUnsigned negative (decimal n) = some (⟨negative, decimal n, []⟩, []) := by
  simp [readUnsigned, readInteger_decimal, readFraction, readExponent]

theorem ofDigitChars_decimal (n : ℕ) : Nat.ofDigitChars 10 (decimal n) 0 = n := by
  rw [decimal, Nat.toList_repr, Nat.ofDigitChars_ten_toDigits]

/-- The text of a float that is printed for itself. -/
def Restored (float : Str → Option Str) (text : Str) : Prop :=
  ∃ l, readLiteral text = some (l, []) ∧ l.behind ≠ [] ∧ float l.text = some text

/-- What is printed for a float has a fraction or an exponent. -/
def FloatTexts (float : Str → Option Str) : Prop :=
  ∀ s text, float s = some text → ∃ l, readLiteral text = some (l, []) ∧ l.behind ≠ []

/-- The numbers that are read from their own text. -/
def Printable (float : Str → Option Str) : Number → Prop
  | .unsigned n => n < 2 ^ 64
  | .negative n => 1 ≤ n ∧ n ≤ 2 ^ 63
  | .float text => Restored float text

theorem readNumber_text {float : Str → Option Str} {n : Number} (hn : Printable float n)
    (h : EndsNumber rest) : readNumber float (numberText n ++ rest) = some (n, rest) := by
  have read : ∀ s l, readLiteral s = some (l, []) → numberOf float l = some n →
      readNumber float (s ++ rest) = some (n, rest) := by
    intro s l hl hnum
    have happ := readLiteral_append h hl
    rw [List.nil_append] at happ
    simp only [readNumber, happ, Option.bind_eq_bind, Option.bind_some, hnum]
    rfl
  cases n with
  | unsigned n =>
      have hlt : n < 2 ^ 64 := hn
      refine read (decimal n) ⟨false, decimal n, []⟩ ?_ ?_
      · have hhead : ∀ c ∈ (decimal n).head?, c ≠ '-' := by
          intro c hc h'
          have hd := isDigit_decimal n c (List.mem_of_head? hc)
          rw [h'] at hd
          exact absurd hd (by decide)
        unfold readLiteral
        split
        · rename_i heq
          exact absurd rfl (hhead '-' (by rw [heq]; rfl))
        · exact readUnsigned_decimal false n
      · simpa [numberOf, ofDigitChars_decimal] using hlt
  | negative n =>
      obtain ⟨hpos, hle⟩ := hn
      exact read ('-' :: decimal n) ⟨true, decimal n, []⟩ (readUnsigned_decimal true n)
        (by simpa [numberOf, ofDigitChars_decimal, hpos] using hle)
  | float text =>
      obtain ⟨l, hl, hbehind, hfloat⟩ := hn
      exact read text l hl (by simp [numberOf, hbehind, hfloat])

theorem inRange_of_numberOf {float : Str → Option Str} {l : Literal} {n : Number}
    (h : numberOf float l = some n) : n.InRange := by
  unfold numberOf at h
  dsimp only at h
  split at h
  · rename_i hl
    cases h
    exact hl.2.2
  · split at h
    · rename_i hl
      cases h
      exact hl.2.2
    · obtain ⟨text, -, rfl⟩ := Option.map_eq_some_iff.mp h
      trivial

theorem numberOf_eq_float {float : Str → Option Str} {l : Literal} {text : Str}
    (h : numberOf float l = some (.float text)) : float l.text = some text := by
  unfold numberOf at h
  dsimp only at h
  split at h
  · cases h
  · split at h
    · cases h
    · obtain ⟨_, ht, heq⟩ := Option.map_eq_some_iff.mp h
      cases heq
      exact ht

theorem head_of_readLiteral {s rest : Str} {l : Literal} (h : readLiteral s = some (l, rest)) :
    ∃ c t, s = c :: t ∧ (c = '-' ∨ c.isDigit = true) := by
  cases s with
  | nil => contradiction
  | cons c s =>
      refine ⟨c, s, rfl, ?_⟩
      by_contra hc
      have hc' : c ≠ '-' ∧ c.isDigit = false := by simpa [not_or] using hc
      have hzero : c ≠ '0' := by
        rintro rfl
        exact absurd hc'.2 (by decide)
      have hlit : readLiteral (c :: s) = none := by
        unfold readLiteral
        split
        · rename_i heq
          cases heq
          exact absurd rfl hc'.1
        · unfold readUnsigned readInteger
          split
          · rename_i heq
            cases heq
            exact absurd rfl hzero
          · simp [readDigits, hc'.2]
      rw [hlit] at h
      contradiction

theorem readNumber_eq_some {float : Str → Option Str} {s rest : Str} {n : Number}
    (h : readNumber float s = some (n, rest)) :
    ∃ l, readLiteral s = some (l, rest) ∧ numberOf float l = some n := by
  simp only [readNumber, Option.bind_eq_bind, Option.bind_eq_some_iff] at h
  obtain ⟨⟨l, _⟩, hl, _, hn, heq⟩ := h
  cases heq
  exact ⟨l, hl, hn⟩

theorem head_of_readNumber {float : Str → Option Str} {s rest : Str} {n : Number}
    (h : readNumber float s = some (n, rest)) :
    ∃ c t, s = c :: t ∧ (c = '-' ∨ c.isDigit = true) := by
  obtain ⟨l, hl, -⟩ := readNumber_eq_some h
  exact head_of_readLiteral hl

end Helmoci.JsonNumbers
