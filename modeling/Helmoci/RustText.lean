import Mathlib

/-!
# Text and bytes as the source's string functions see them

A `&str` is its list of characters and a byte buffer its list of bytes. Lengths of
a `&str` are lengths of its UTF-8 encoding. Only the ASCII functions that the
source calls are listed here, under the names of the Rust functions, `trimMatches`
and `splitOnce` for a single character. Cutting at separators is in
`SegmentedText`.
-/
namespace Helmoci.RustText

abbrev Str := List Char
abbrev Bytes := List UInt8

/-- A string literal. -/
def str (s : String) : Str := s.toList

/-- A byte string literal. -/
def bytes (s : String) : Bytes := (str s).map fun c => UInt8.ofNat c.toNat

/-- `str::len`: the number of UTF-8 bytes. -/
def byteLen (s : Str) : ℕ := (s.map Char.utf8Size).sum

def toAsciiLowercase (s : Str) : Str := s.map Char.toLower

def eqIgnoreAsciiCase (s t : Str) : Bool := toAsciiLowercase s == toAsciiLowercase t

def isAsciiHexdigit (c : Char) : Bool :=
  c.isDigit || ('a' ≤ c && c ≤ 'f') || ('A' ≤ c && c ≤ 'F')

def trimMatches (c : Char) (s : Str) : Str := (s.dropWhile (· == c)).rdropWhile (· == c)

/-- The Unicode property White_Space. -/
def isWhitespace (c : Char) : Bool :=
  let n := c.toNat
  (9 ≤ n && n ≤ 13) || n == 0x20 || n == 0x85 || n == 0xA0 || n == 0x1680 ||
    (0x2000 ≤ n && n ≤ 0x200A) || n == 0x2028 || n == 0x2029 || n == 0x202F || n == 0x205F ||
    n == 0x3000

def trim (s : Str) : Str := (s.dropWhile isWhitespace).rdropWhile isWhitespace

def splitOnce (c : Char) : Str → Option (Str × Str)
  | [] => none
  | d :: s => if d = c then some ([], s) else (splitOnce c s).map fun p => (d :: p.1, p.2)

def decimal (n : ℕ) : Str := (Nat.repr n).toList

theorem splitOnce_eq_some {c : Char} {s a b : Str} (h : splitOnce c s = some (a, b)) :
    s = a ++ c :: b := by
  induction s generalizing a with
  | nil => contradiction
  | cons d s ih =>
      unfold splitOnce at h
      split at h
      · rename_i hd
        simp only [Option.some.injEq, Prod.mk.injEq] at h
        obtain ⟨rfl, rfl⟩ := h
        rw [hd]
        rfl
      · obtain ⟨⟨a', b'⟩, hs, hp⟩ := Option.map_eq_some_iff.mp h
        simp only [Prod.mk.injEq] at hp
        obtain ⟨rfl, rfl⟩ := hp
        rw [ih hs]
        rfl

theorem not_mem_of_splitOnce {c : Char} {s a b : Str} (h : splitOnce c s = some (a, b)) :
    c ∉ a := by
  induction s generalizing a with
  | nil => contradiction
  | cons d s ih =>
      unfold splitOnce at h
      split at h
      · cases h
        simp
      · rename_i hd
        obtain ⟨⟨a', b'⟩, hs, hp⟩ := Option.map_eq_some_iff.mp h
        cases hp
        simp only [List.mem_cons, not_or]
        exact ⟨Ne.symm hd, ih hs⟩

theorem splitOnce_append {c : Char} {a : Str} (h : c ∉ a) (b : Str) :
    splitOnce c (a ++ c :: b) = some (a, b) := by
  induction a with
  | nil => simp [splitOnce]
  | cons d a ih =>
      simp only [List.mem_cons, not_or] at h
      simp [splitOnce, Ne.symm h.1, ih h.2]

/-- A property of the characters of a text is checked on its list, not on all characters. -/
theorem forall_of_all {P : Char → Prop} [DecidablePred P] {s : Str}
    (h : (s.all fun c => decide (P c)) = true) : ∀ c ∈ s, P c := by
  simpa using h

theorem byteLen_eq_length {s : Str} (h : ∀ c ∈ s, c.toNat < 128) : byteLen s = s.length := by
  induction s with
  | nil => rfl
  | cons c s ih =>
      have hc : c.utf8Size = 1 := by
        rw [Char.utf8Size_eq_one_iff, UInt32.le_iff_toNat_le]
        exact Nat.le_of_lt_succ (h c (by simp))
      have hs := ih fun d hd => h d (List.mem_cons_of_mem _ hd)
      unfold byteLen at hs ⊢
      simp [hc, hs]
      omega

/-- A property of ASCII characters is checked on their 128 codes. -/
theorem ascii_forall {P : Char → Prop} (h : ∀ n < 128, P (Char.ofNat n)) {c : Char}
    (hc : c.toNat < 128) : P c := by
  simpa only [Char.ofNat_toNat] using h c.toNat hc

theorem toNat_ofNat_of_lt_ascii {n : ℕ} (h : n < 128) : (Char.ofNat n).toNat = n := by
  have hall : ∀ n < 128, (Char.ofNat n).toNat = n := by decide
  exact hall n h

theorem toNat_lt_of_isAlphanum {c : Char} (h : c.isAlphanum = true) : c.toNat < 128 := by
  simp only [Char.isAlphanum, Char.isAlpha, Char.isUpper, Char.isLower, Char.isDigit,
    Bool.or_eq_true, Bool.and_eq_true, decide_eq_true_eq, ge_iff_le, UInt32.le_iff_toNat_le] at h
  rcases h with (⟨-, h⟩ | ⟨-, h⟩) | ⟨-, h⟩ <;> exact Nat.lt_of_le_of_lt h (by decide)

theorem toLower_eq_self {c : Char} (hc : 128 ≤ c.toNat) : c.toLower = c := by
  unfold Char.toLower
  split
  · rename_i h
    simp only [ge_iff_le, UInt32.le_iff_toNat_le] at h
    change 128 ≤ c.val.toNat at hc
    have h2 : c.val.toNat ≤ 90 := h.2
    omega
  · rfl

@[simp] theorem toLower_toLower (c : Char) : c.toLower.toLower = c.toLower := by
  by_cases hc : c.toNat < 128
  · exact ascii_forall (P := fun c => c.toLower.toLower = c.toLower) (by decide) hc
  · have h := toLower_eq_self (c := c) (by omega)
    rw [h, h]

@[simp] theorem toAsciiLowercase_idem (s : Str) :
    toAsciiLowercase (toAsciiLowercase s) = toAsciiLowercase s := by
  simp [toAsciiLowercase]

end Helmoci.RustText
