import Helmoci.RustText

/-!
# UTF-8 decoding

Decoding takes one character or one ill-formed sequence off the front of the bytes
at a time. An ill-formed sequence is the longest beginning of a character that is
there, or one byte, as the standard library's chunks are. Strict decoding fails on
the first of them and lossy decoding puts a replacement character in its place. Strict
decoding and the encoding of characters undo each other.
-/
namespace Helmoci.Utf8
open RustText

def isContinuation (lo hi : ℕ) (b : UInt8) : Bool := lo ≤ b.toNat && b.toNat ≤ hi

/-- How many bytes follow a leading byte, and the range of the first of them. -/
def sequenceOf (b : ℕ) : Option (ℕ × ℕ × ℕ) :=
  if 0xC2 ≤ b && b ≤ 0xDF then some (1, 0x80, 0xBF)
  else if b = 0xE0 then some (2, 0xA0, 0xBF)
  else if b = 0xED then some (2, 0x80, 0x9F)
  else if 0xE1 ≤ b && b ≤ 0xEF then some (2, 0x80, 0xBF)
  else if b = 0xF0 then some (3, 0x90, 0xBF)
  else if 0xF1 ≤ b && b ≤ 0xF3 then some (3, 0x80, 0xBF)
  else if b = 0xF4 then some (3, 0x80, 0x8F)
  else none

/-- The value of the continuation bytes behind a beginning with value `acc`, or none,
and what is left of the text. -/
def decodeTail : ℕ → ℕ → ℕ → ℕ → Bytes → Option ℕ × Bytes
  | 0, _, _, acc, rest => (some acc, rest)
  | _ + 1, _, _, _, [] => (none, [])
  | n + 1, lo, hi, acc, b :: rest =>
    if isContinuation lo hi b then decodeTail n 0x80 0xBF (64 * acc + (b.toNat - 0x80)) rest
    else (none, b :: rest)

/-- The value of the leading byte without its length bits. -/
def leadingBits (b : ℕ) : ℕ := if b < 0xE0 then b - 0xC0 else if b < 0xF0 then b - 0xE0 else b - 0xF0

def decodeFirst (b : UInt8) (rest : Bytes) : Option Char × Bytes :=
  if b.toNat < 0x80 then (some (Char.ofNat b.toNat), rest)
  else
    match sequenceOf b.toNat with
    | none => (none, rest)
    | some (n, lo, hi) =>
      let (value, rest) := decodeTail n lo hi (leadingBits b.toNat) rest
      (value.map Char.ofNat, rest)

theorem decodeTail_length (n lo hi acc : ℕ) (rest : Bytes) :
    (decodeTail n lo hi acc rest).2.length ≤ rest.length := by
  induction n generalizing lo hi acc rest with
  | zero => exact Nat.le_refl _
  | succ n ih =>
      cases rest with
      | nil => exact Nat.le_refl _
      | cons b rest =>
          unfold decodeTail
          split
          · exact Nat.le_succ_of_le (ih _ _ _ rest)
          · exact Nat.le_refl _

theorem decodeFirst_length (b : UInt8) (rest : Bytes) :
    (decodeFirst b rest).2.length ≤ rest.length := by
  unfold decodeFirst
  split
  · exact Nat.le_refl _
  · split
    · exact Nat.le_refl _
    · exact decodeTail_length _ _ _ _ rest

/-- One unit of fuel for each byte is enough, each step takes at least one. -/
def decodeChars : ℕ → Bytes → List (Option Char)
  | 0, _ => []
  | _ + 1, [] => []
  | fuel + 1, b :: rest =>
    (decodeFirst b rest).1 :: decodeChars fuel (decodeFirst b rest).2

theorem decodeChars_fuel {fuel fuel' : ℕ} {bytes : Bytes} (h : bytes.length ≤ fuel)
    (h' : bytes.length ≤ fuel') : decodeChars fuel bytes = decodeChars fuel' bytes := by
  induction fuel generalizing fuel' bytes with
  | zero =>
      obtain rfl : bytes = [] := List.eq_nil_of_length_eq_zero (Nat.le_zero.mp h)
      cases fuel' <;> rfl
  | succ fuel ih =>
      cases bytes with
      | nil => cases fuel' <;> rfl
      | cons b rest =>
          obtain ⟨fuel', rfl⟩ : ∃ n, fuel' = n + 1 := ⟨fuel' - 1, by simp at h'; omega⟩
          have hl := decodeFirst_length b rest
          simp only [List.length_cons] at h h'
          exact congrArg ((decodeFirst b rest).1 :: ·) (ih (by omega) (by omega))

/-- `str::as_bytes`. -/
def asBytes (s : Str) : Bytes := s.flatMap String.utf8EncodeChar

theorem utf8EncodeChar_of_lt {c : Char} (h : c.toNat < 128) :
    String.utf8EncodeChar c = [UInt8.ofNat c.toNat] := by
  have hc : c.val.toNat ≤ 0x7f := Nat.le_of_lt_succ h
  unfold String.utf8EncodeChar
  exact if_pos hc

/-- `String::from_utf8`. -/
def fromUtf8 (bytes : Bytes) : Option Str := (decodeChars bytes.length bytes).mapM id

/-- `String::from_utf8_lossy`. -/
def fromUtf8Lossy (bytes : Bytes) : Str :=
  (decodeChars bytes.length bytes).map fun c => c.getD (Char.ofNat 0xFFFD)

theorem fromUtf8Lossy_cons (b : UInt8) (rest : Bytes) :
    fromUtf8Lossy (b :: rest) = (decodeFirst b rest).1.getD (Char.ofNat 0xFFFD) ::
      fromUtf8Lossy (decodeFirst b rest).2 := by
  unfold fromUtf8Lossy
  rw [List.length_cons, decodeChars, List.map_cons,
    decodeChars_fuel (decodeFirst_length b rest) (Nat.le_refl _)]

/-- A text that decodes strictly decodes lossily to the same characters. -/
theorem fromUtf8Lossy_of_fromUtf8 {bytes : Bytes} {s : Str} (h : fromUtf8 bytes = some s) :
    fromUtf8Lossy bytes = s := by
  unfold fromUtf8Lossy
  unfold fromUtf8 at h
  generalize decodeChars bytes.length bytes = cs at h
  induction cs generalizing s with
  | nil => simpa using h.symm
  | cons c cs ih =>
      simp only [List.mapM_cons, id_eq, Option.bind_eq_bind, Option.bind_eq_some_iff,
        Option.pure_def, Option.some.injEq] at h
      obtain ⟨d, rfl, t, ht, rfl⟩ := h
      simp [ih ht]

theorem toNat_ofNat_of_lt {n : ℕ} (h : n < 256) : (UInt8.ofNat n).toNat = n := by
  rw [UInt8.toNat_ofNat', Nat.mod_eq_of_lt h]

/-- One continuation byte more. -/
theorem decodeTail_cons {n lo hi acc x : ℕ} (hx : x < 64) (hlo : lo ≤ x + 128)
    (hhi : x + 128 ≤ hi) (rest : Bytes) :
    decodeTail (n + 1) lo hi acc (UInt8.ofNat (x + 128) :: rest) =
      decodeTail n 0x80 0xBF (64 * acc + x) rest := by
  have hv := toNat_ofNat_of_lt (n := x + 128) (by omega)
  have hc : isContinuation lo hi (UInt8.ofNat (x + 128)) = true := by
    rw [isContinuation, hv]
    simp [hlo, hhi]
  rw [decodeTail, if_pos hc, hv, Nat.add_sub_cancel]

theorem decodeTail_succ_eq_some {n lo hi acc v : ℕ} {rest rest' : Bytes} (hlo : 0x80 ≤ lo)
    (hhi : hi ≤ 0xBF) (h : decodeTail (n + 1) lo hi acc rest = (some v, rest')) :
    ∃ x t, x < 64 ∧ lo ≤ x + 128 ∧ x + 128 ≤ hi ∧ rest = UInt8.ofNat (x + 128) :: t ∧
      decodeTail n 0x80 0xBF (64 * acc + x) t = (some v, rest') := by
  cases rest with
  | nil => simp [decodeTail] at h
  | cons b t =>
      unfold decodeTail at h
      split at h
      · rename_i hc
        simp only [isContinuation, Bool.and_eq_true, decide_eq_true_eq] at hc
        refine ⟨b.toNat - 0x80, t, by omega, by omega, by omega, ?_, h⟩
        rw [Nat.sub_add_cancel (by omega), UInt8.ofNat_toNat]
      · simp at h

/-- The leading byte of a character and how many continuation bytes follow it. -/
theorem decodeFirst_of_sequenceOf {b n lo hi : ℕ} (hb : 0x80 ≤ b) (hb' : b < 256)
    (hs : sequenceOf b = some (n, lo, hi)) (rest : Bytes) :
    decodeFirst (UInt8.ofNat b) rest =
      ((decodeTail n lo hi (leadingBits b) rest).1.map Char.ofNat,
        (decodeTail n lo hi (leadingBits b) rest).2) := by
  simp only [decodeFirst, toNat_ofNat_of_lt hb', hs]
  rw [if_neg (by omega)]

theorem sequenceOf_two {b : ℕ} (h : 0xC2 ≤ b) (h' : b ≤ 0xDF) :
    sequenceOf b = some (1, 0x80, 0xBF) := by
  unfold sequenceOf
  grind

/-- The first continuation byte is in the range that its leading byte leaves it. -/
theorem sequenceOf_three {v : ℕ} (h : 0x800 ≤ v) (h' : v < 0x10000)
    (hs : v < 0xD800 ∨ 0xDFFF < v) : ∃ lo hi, sequenceOf (v / 4096 + 0xE0) = some (2, lo, hi) ∧
      lo ≤ v / 64 % 64 + 128 ∧ v / 64 % 64 + 128 ≤ hi := by
  by_cases h₀ : v / 4096 = 0
  · exact ⟨0xA0, 0xBF, by simp [sequenceOf, h₀], by omega, by omega⟩
  · by_cases h₁ : v / 4096 = 13
    · exact ⟨0x80, 0x9F, by simp [sequenceOf, h₁], by omega, by omega⟩
    · refine ⟨0x80, 0xBF, ?_, by omega, by omega⟩
      have hle : 1 ≤ v / 4096 ∧ v / 4096 ≤ 15 := by omega
      simp [sequenceOf, h₀, h₁, hle]

theorem sequenceOf_four {v : ℕ} (h : 0x10000 ≤ v) (h' : v < 0x110000) :
    ∃ lo hi, sequenceOf (v / 262144 + 0xF0) = some (3, lo, hi) ∧
      lo ≤ v / 4096 % 64 + 128 ∧ v / 4096 % 64 + 128 ≤ hi := by
  by_cases h₀ : v / 262144 = 0
  · exact ⟨0x90, 0xBF, by simp [sequenceOf, h₀], by omega, by omega⟩
  · by_cases h₁ : v / 262144 = 4
    · exact ⟨0x80, 0x8F, by simp [sequenceOf, h₁], by omega, by omega⟩
    · refine ⟨0x80, 0xBF, ?_, by omega, by omega⟩
      have hle : 1 ≤ v / 262144 ∧ v / 262144 ≤ 3 := by omega
      simp [sequenceOf, h₀, hle]

/-- An encoded character is decoded and nothing behind it is taken. -/
theorem decodeFirst_utf8EncodeChar (c : Char) (rest : Bytes) : ∃ b t,
    String.utf8EncodeChar c = b :: t ∧ decodeFirst b (t ++ rest) = (some c, rest) := by
  obtain ⟨v, hv⟩ : ∃ v, v = c.toNat := ⟨_, rfl⟩
  have hvalid : v < 0xD800 ∨ 0xDFFF < v ∧ v < 0x110000 := hv ▸ c.valid
  have hc : Char.ofNat v = c := by rw [hv, Char.ofNat_toNat]
  have henc : String.utf8EncodeChar c = if v ≤ 0x7f then [UInt8.ofNat v]
      else if v ≤ 0x7ff then [UInt8.ofNat (v / 64 % 32 + 192), UInt8.ofNat (v % 64 + 128)]
      else if v ≤ 0xffff then [UInt8.ofNat (v / 4096 % 16 + 224),
        UInt8.ofNat (v / 64 % 64 + 128), UInt8.ofNat (v % 64 + 128)]
      else [UInt8.ofNat (v / 262144 % 8 + 240), UInt8.ofNat (v / 4096 % 64 + 128),
        UInt8.ofNat (v / 64 % 64 + 128), UInt8.ofNat (v % 64 + 128)] := by
    rw [hv]
    rfl
  rw [henc]
  split
  · refine ⟨_, _, rfl, ?_⟩
    simp only [decodeFirst, toNat_ofNat_of_lt (show v < 256 by omega), List.nil_append]
    rw [if_pos (by omega), hc]
  · split
    · refine ⟨_, _, rfl, ?_⟩
      rw [decodeFirst_of_sequenceOf (by omega) (by omega)
        (sequenceOf_two (by omega) (by omega))]
      simp only [List.cons_append, List.nil_append]
      rw [decodeTail_cons (by omega) (by omega) (by omega)]
      have hval : 64 * leadingBits (v / 64 % 32 + 192) + v % 64 = v := by
        unfold leadingBits
        rw [if_pos (by omega)]
        omega
      simp [decodeTail, hval, hc]
    · split
      · obtain ⟨lo, hi, hs, hlo, hhi⟩ := sequenceOf_three (v := v) (by omega) (by omega) (by omega)
        have hmod : v / 4096 % 16 = v / 4096 := by omega
        refine ⟨_, _, rfl, ?_⟩
        rw [hmod, decodeFirst_of_sequenceOf (by omega) (by omega) hs]
        simp only [List.cons_append, List.nil_append]
        rw [decodeTail_cons (by omega) hlo hhi, decodeTail_cons (by omega) (by omega) (by omega)]
        have hval : 64 * (64 * leadingBits (v / 4096 + 224) + v / 64 % 64) + v % 64 = v := by
          unfold leadingBits
          rw [if_neg (by omega), if_pos (by omega)]
          omega
        simp [decodeTail, hval, hc]
      · obtain ⟨lo, hi, hs, hlo, hhi⟩ := sequenceOf_four (v := v) (by omega) (by omega)
        have hmod : v / 262144 % 8 = v / 262144 := by omega
        refine ⟨_, _, rfl, ?_⟩
        rw [hmod, decodeFirst_of_sequenceOf (by omega) (by omega) hs]
        simp only [List.cons_append, List.nil_append]
        rw [decodeTail_cons (by omega) hlo hhi, decodeTail_cons (by omega) (by omega) (by omega),
          decodeTail_cons (by omega) (by omega) (by omega)]
        have hval : 64 * (64 * (64 * leadingBits (v / 262144 + 240) + v / 4096 % 64) +
            v / 64 % 64) + v % 64 = v := by
          unfold leadingBits
          rw [if_neg (by omega), if_neg (by omega)]
          omega
        simp [decodeTail, hval, hc]

theorem sequenceOf_eq_some {b n lo hi : ℕ} (h : sequenceOf b = some (n, lo, hi)) :
    0x80 ≤ lo ∧ hi ≤ 0xBF ∧ (n = 1 ∧ 0xC2 ≤ b ∧ b ≤ 0xDF ∨
      n = 2 ∧ 0xE0 ≤ b ∧ b ≤ 0xEF ∧ (b = 0xE0 → 0xA0 ≤ lo) ∧ (b = 0xED → hi ≤ 0x9F) ∨
      n = 3 ∧ 0xF0 ≤ b ∧ b ≤ 0xF4 ∧ (b = 0xF0 → 0x90 ≤ lo) ∧ (b = 0xF4 → hi ≤ 0x8F)) := by
  simp only [sequenceOf, Bool.and_eq_true, decide_eq_true_eq] at h
  split_ifs at h <;> simp only [Option.some.injEq, Prod.mk.injEq] at h <;> omega

theorem utf8EncodeChar_ofNat {v : ℕ} (h : v < 0xD800 ∨ 0xDFFF < v ∧ v < 0x110000) :
    String.utf8EncodeChar (Char.ofNat v) = if v ≤ 0x7f then [UInt8.ofNat v]
      else if v ≤ 0x7ff then [UInt8.ofNat (v / 64 % 32 + 192), UInt8.ofNat (v % 64 + 128)]
      else if v ≤ 0xffff then [UInt8.ofNat (v / 4096 % 16 + 224),
        UInt8.ofNat (v / 64 % 64 + 128), UInt8.ofNat (v % 64 + 128)]
      else [UInt8.ofNat (v / 262144 % 8 + 240), UInt8.ofNat (v / 4096 % 64 + 128),
        UInt8.ofNat (v / 64 % 64 + 128), UInt8.ofNat (v % 64 + 128)] := by
  have hv : (Char.ofNat v).val.toNat = v := by
    rw [Char.ofNat, dif_pos h]
    rfl
  rw [String.utf8EncodeChar, hv]

/-- What is decoded is an encoded character. -/
theorem decodeFirst_eq_some {b : UInt8} {rest rest' : Bytes} {c : Char}
    (h : decodeFirst b rest = (some c, rest')) :
    b :: rest = String.utf8EncodeChar c ++ rest' := by
  unfold decodeFirst at h
  split at h
  · simp only [Prod.mk.injEq, Option.some.injEq] at h
    obtain ⟨rfl, rfl⟩ := h
    rw [utf8EncodeChar_ofNat (by omega), if_pos (by omega), UInt8.ofNat_toNat, List.singleton_append]
  · split at h
    · simp at h
    · rename_i n lo hi hs
      obtain ⟨hlo, hhi, hcases⟩ := sequenceOf_eq_some hs
      simp only [Prod.mk.injEq, Option.map_eq_some_iff] at h
      obtain ⟨⟨v, hv, rfl⟩, hr⟩ := h
      have ht : decodeTail n lo hi (leadingBits b.toNat) rest = (some v, rest') := Prod.ext hv hr
      clear hv hr
      have hb : ∀ m, m = b.toNat → UInt8.ofNat m = b := by
        rintro m rfl
        exact UInt8.ofNat_toNat
      rcases hcases with ⟨rfl, h₁, h₂⟩ | ⟨rfl, h₁, h₂, hlow, hhigh⟩ | ⟨rfl, h₁, h₂, hlow, hhigh⟩
      · obtain ⟨x, t₁, hx, hx₁, hx₂, rfl, ht₁⟩ := decodeTail_succ_eq_some hlo hhi ht
        simp only [decodeTail, Prod.mk.injEq, Option.some.injEq, leadingBits] at ht₁
        obtain ⟨rfl, rfl⟩ := ht₁
        rw [if_pos (by omega), utf8EncodeChar_ofNat (by omega), if_neg (by omega),
          if_pos (by omega)]
        have h₀ : UInt8.ofNat ((64 * (b.toNat - 192) + x) / 64 % 32 + 192) = b := hb _ (by omega)
        have h₁ : (64 * (b.toNat - 192) + x) % 64 = x := by omega
        rw [h₀, h₁]
        rfl
      · obtain ⟨x, t₁, hx, hx₁, hx₂, rfl, ht₁⟩ := decodeTail_succ_eq_some hlo hhi ht
        obtain ⟨y, t₂, hy, -, -, rfl, ht₂⟩ := decodeTail_succ_eq_some (by omega) (by omega) ht₁
        simp only [decodeTail, Prod.mk.injEq, Option.some.injEq, leadingBits] at ht₂
        obtain ⟨rfl, rfl⟩ := ht₂
        rw [if_neg (by omega), if_pos (by omega), utf8EncodeChar_ofNat (by omega),
          if_neg (by omega), if_neg (by omega), if_pos (by omega)]
        have h₀ : UInt8.ofNat ((64 * (64 * (b.toNat - 224) + x) + y) / 4096 % 16 + 224) = b :=
          hb _ (by omega)
        have h₁ : (64 * (64 * (b.toNat - 224) + x) + y) / 64 % 64 = x := by omega
        have h₂ : (64 * (64 * (b.toNat - 224) + x) + y) % 64 = y := by omega
        rw [h₀, h₁, h₂]
        rfl
      · obtain ⟨x, t₁, hx, hx₁, hx₂, rfl, ht₁⟩ := decodeTail_succ_eq_some hlo hhi ht
        obtain ⟨y, t₂, hy, -, -, rfl, ht₂⟩ := decodeTail_succ_eq_some (by omega) (by omega) ht₁
        obtain ⟨z, t₃, hz, -, -, rfl, ht₃⟩ := decodeTail_succ_eq_some (by omega) (by omega) ht₂
        simp only [decodeTail, Prod.mk.injEq, Option.some.injEq, leadingBits] at ht₃
        obtain ⟨rfl, rfl⟩ := ht₃
        rw [if_neg (by omega), if_neg (by omega), utf8EncodeChar_ofNat (by omega),
          if_neg (by omega), if_neg (by omega), if_neg (by omega)]
        have h₀ : UInt8.ofNat ((64 * (64 * (64 * (b.toNat - 240) + x) + y) + z) / 262144 % 8 +
            240) = b := hb _ (by omega)
        have h₁ : (64 * (64 * (64 * (b.toNat - 240) + x) + y) + z) / 4096 % 64 = x := by omega
        have h₂ : (64 * (64 * (64 * (b.toNat - 240) + x) + y) + z) / 64 % 64 = y := by omega
        have h₃ : (64 * (64 * (64 * (b.toNat - 240) + x) + y) + z) % 64 = z := by omega
        rw [h₀, h₁, h₂, h₃]
        rfl

theorem decodeChars_asBytes {s : Str} {fuel : ℕ} (h : (asBytes s).length ≤ fuel) :
    decodeChars fuel (asBytes s) = s.map some := by
  induction s generalizing fuel with
  | nil => cases fuel <;> rfl
  | cons c s ih =>
      obtain ⟨b, t, hb, hd⟩ := decodeFirst_utf8EncodeChar c (asBytes s)
      have he : asBytes (c :: s) = b :: (t ++ asBytes s) := by simp [asBytes, hb]
      rw [he] at h ⊢
      simp only [List.length_cons, List.length_append] at h
      obtain ⟨fuel, rfl⟩ : ∃ n, fuel = n + 1 := ⟨fuel - 1, by omega⟩
      rw [decodeChars, hd, ih (by omega)]
      rfl

@[simp] theorem fromUtf8_asBytes (s : Str) : fromUtf8 (asBytes s) = some s := by
  rw [fromUtf8, decodeChars_asBytes (Nat.le_refl _)]
  induction s with
  | nil => rfl
  | cons c s ih => simp_all

@[simp] theorem fromUtf8Lossy_asBytes (s : Str) : fromUtf8Lossy (asBytes s) = s :=
  fromUtf8Lossy_of_fromUtf8 (fromUtf8_asBytes s)

/-- What is behind an encoded text does not change how it is read. -/
theorem fromUtf8Lossy_append (s : Str) (rest : Bytes) :
    fromUtf8Lossy (asBytes s ++ rest) = s ++ fromUtf8Lossy rest := by
  induction s with
  | nil => rfl
  | cons c s ih =>
      obtain ⟨b, t, hb, hd⟩ := decodeFirst_utf8EncodeChar c (asBytes s ++ rest)
      have he : asBytes (c :: s) ++ rest = b :: (t ++ (asBytes s ++ rest)) := by
        simp [asBytes, hb]
      rw [he, fromUtf8Lossy_cons, hd, ih]
      rfl

theorem asBytes_inj {s t : Str} : asBytes s = asBytes t ↔ s = t := by
  constructor
  · intro h
    have hs := fromUtf8_asBytes s
    rwa [h, fromUtf8_asBytes, Option.some.injEq, eq_comm] at hs
  · exact congrArg asBytes

/-- Strict decoding undoes the encoding. -/
theorem fromUtf8_eq_some {bytes : Bytes} {s : Str} (h : fromUtf8 bytes = some s) :
    bytes = asBytes s := by
  have loop : ∀ (fuel : ℕ) (bytes : Bytes) (s : Str), bytes.length ≤ fuel →
      (decodeChars fuel bytes).mapM id = some s → bytes = asBytes s := by
    intro fuel
    induction fuel with
    | zero =>
        intro bytes s hl h
        obtain rfl : bytes = [] := List.eq_nil_of_length_eq_zero (Nat.le_zero.mp hl)
        simp only [decodeChars, List.mapM_nil, Option.pure_def, Option.some.injEq] at h
        rw [← h]
        rfl
    | succ fuel ih =>
        intro bytes s hl h
        cases bytes with
        | nil =>
            simp only [decodeChars, List.mapM_nil, Option.pure_def, Option.some.injEq] at h
            rw [← h]
            rfl
        | cons b rest =>
            simp only [decodeChars, List.mapM_cons, id_eq, Option.bind_eq_bind,
              Option.bind_eq_some_iff, Option.pure_def, Option.some.injEq] at h
            obtain ⟨c, hc, t, ht, rfl⟩ := h
            have hlen := decodeFirst_length b rest
            simp only [List.length_cons] at hl
            have hrest := ih _ t (by omega) ht
            calc b :: rest = String.utf8EncodeChar c ++ (decodeFirst b rest).2 :=
                  decodeFirst_eq_some (Prod.ext hc rfl)
              _ = asBytes (c :: t) := by rw [hrest, asBytes, asBytes, List.flatMap_cons]
  exact loop _ bytes s (Nat.le_refl _) h

example : fromUtf8Lossy [0x61, 0xE2, 0x82, 0xAC, 0xE2, 0x82, 0x62, 0xFF] =
    ['a', '€', Char.ofNat 0xFFFD, 'b', Char.ofNat 0xFFFD] := by decide

end Helmoci.Utf8
