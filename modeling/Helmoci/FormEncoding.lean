import Helmoci.PercentEscapes
import Helmoci.SegmentedText
import Helmoci.Utf8

/-!
# Form-encoded queries

The parser and the serializer of `application/x-www-form-urlencoded`, on bytes. The
parser turns plus signs into blanks before it decodes escapes, and the serializer
escapes a plus sign, so a serialized text is read back whatever its characters are.
-/
namespace Helmoci.FormEncoding
open RustText SegmentedText PercentEscapes Utf8

/-- The byte of two hexadecimal digits. -/
def escapeValue (h l : UInt8) : Option UInt8 := do
  let x ← hexValue (Char.ofNat h.toNat)
  let y ← hexValue (Char.ofNat l.toNat)
  return UInt8.ofNat (16 * x + y)

/-- Percent signs without two digits behind them stay as they are. -/
def percentDecode : Bytes → Bytes
  | b :: h :: l :: rest =>
    match if b = 37 then escapeValue h l else none with
    | some v => v :: percentDecode rest
    | none => b :: percentDecode (h :: l :: rest)
  | bytes => bytes

def replacePlus (bytes : Bytes) : Bytes := bytes.map fun b => if b = 43 then 32 else b

def decode (bytes : Bytes) : Str := fromUtf8Lossy (percentDecode (replacePlus bytes))

/-- Name and value of every nonempty sequence between ampersands. -/
def parse (input : Bytes) : List (Str × Str) :=
  ((input.splitOn 38).filter fun sequence => !sequence.isEmpty).map fun sequence =>
    (decode (sequence.takeWhile (· != 61)), decode ((sequence.dropWhile (· != 61)).drop 1))

def unreserved (b : UInt8) : Bool :=
  let c := Char.ofNat b.toNat
  b < 128 && (c.isAlphanum || c == '*' || c == '-' || c == '.' || c == '_')

def upperHexDigit (n : ℕ) : Char := Char.ofNat (if n < 10 then 48 + n else 55 + n)

def serializeByte (b : UInt8) : Str :=
  if unreserved b then [Char.ofNat b.toNat]
  else if b = 32 then ['+']
  else ['%', upperHexDigit (b.toNat / 16), upperHexDigit (b.toNat % 16)]

def byteSerialize (bytes : Bytes) : Str := bytes.flatMap serializeByte

example : parse (bytes "n=5&&last=1.0%2B%c3%A4+x&q") = [(str "n", str "5"),
    (str "last", str "1.0+ä x"), (str "q", [])] ∧
    byteSerialize (asBytes (str "1.0+ä x")) = str "1.0%2B%C3%A4+x" := by decide +kernel

theorem byte_forall {P : UInt8 → Prop} (h : ∀ n < 256, P (UInt8.ofNat n)) (b : UInt8) : P b := by
  have hb := h b.toNat (UInt8.toNat_lt b)
  rwa [UInt8.ofNat_toNat] at hb

theorem percentDecode_cons {b : UInt8} (hb : b ≠ 37) (rest : Bytes) :
    percentDecode (b :: rest) = b :: percentDecode rest := by
  cases rest with
  | nil => rfl
  | cons h rest =>
      cases rest with
      | nil => rfl
      | cons l rest => rw [percentDecode, if_neg hb]

theorem percentDecode_escape {h l v : UInt8} (hv : escapeValue h l = some v) (rest : Bytes) :
    percentDecode (37 :: h :: l :: rest) = v :: percentDecode rest := by
  rw [percentDecode, if_pos rfl, hv]

theorem asBytes_cons_ascii {c : Char} (hc : c.toNat < 128) (s : Str) :
    asBytes (c :: s) = UInt8.ofNat c.toNat :: asBytes s := by
  simp [asBytes, utf8EncodeChar_of_lt hc]

/-- One byte that was serialized is read back, whatever follows it. -/
theorem percentDecode_serializeByte (b : UInt8) (rest : Str) :
    percentDecode (replacePlus (asBytes (serializeByte b ++ rest))) =
      b :: percentDecode (replacePlus (asBytes rest)) := by
  unfold serializeByte
  split
  · rename_i hu
    have hplain : ∀ b, unreserved b = true → (Char.ofNat b.toNat).toNat < 128 ∧
        UInt8.ofNat (Char.ofNat b.toNat).toNat = b ∧ b ≠ 43 ∧ b ≠ 37 :=
      byte_forall (by decide +kernel)
    obtain ⟨hlt, hb, hplus, hpercent⟩ := hplain b hu
    rw [List.singleton_append, asBytes_cons_ascii hlt, hb, replacePlus, List.map_cons,
      if_neg hplus, percentDecode_cons hpercent]
    rfl
  · split
    · rename_i hb
      rw [hb]
      exact percentDecode_cons (by decide) _
    · have hdigits : ∀ b : UInt8, (upperHexDigit (b.toNat / 16)).toNat < 128 ∧
          (upperHexDigit (b.toNat % 16)).toNat < 128 ∧
          UInt8.ofNat (upperHexDigit (b.toNat / 16)).toNat ≠ 43 ∧
          UInt8.ofNat (upperHexDigit (b.toNat % 16)).toNat ≠ 43 ∧
          escapeValue (UInt8.ofNat (upperHexDigit (b.toNat / 16)).toNat)
            (UInt8.ofNat (upperHexDigit (b.toNat % 16)).toNat) = some b :=
        byte_forall (by decide +kernel)
      obtain ⟨hh, hl, hh', hl', hv⟩ := hdigits b
      have htext : asBytes (['%', upperHexDigit (b.toNat / 16), upperHexDigit (b.toNat % 16)] ++
          rest) = 37 :: UInt8.ofNat (upperHexDigit (b.toNat / 16)).toNat ::
            UInt8.ofNat (upperHexDigit (b.toNat % 16)).toNat :: asBytes rest := by
        change asBytes ('%' :: upperHexDigit (b.toNat / 16) :: upperHexDigit (b.toNat % 16) ::
          rest) = _
        rw [asBytes_cons_ascii (by decide), asBytes_cons_ascii hh, asBytes_cons_ascii hl]
        rfl
      rw [htext, replacePlus, List.map_cons, List.map_cons, List.map_cons, if_neg hh', if_neg hl']
      exact percentDecode_escape hv _

/-- What was serialized is read back. -/
theorem decode_byteSerialize (s : Str) : decode (asBytes (byteSerialize (asBytes s))) = s := by
  have hall : ∀ bytes : Bytes,
      percentDecode (replacePlus (asBytes (byteSerialize bytes))) = bytes := by
    intro bytes
    induction bytes with
    | nil => rfl
    | cons b bytes ih =>
        have htext : byteSerialize (b :: bytes) = serializeByte b ++ byteSerialize bytes := rfl
        rw [htext, percentDecode_serializeByte, ih]
  rw [decode, hall, fromUtf8Lossy_asBytes]

/-- Text of digits is read as it stands. -/
theorem decode_of_plain {s : Str} (h : ∀ c ∈ s, c.toNat < 128 ∧ c ≠ '%' ∧ c ≠ '+') :
    decode (asBytes s) = s := by
  have hall : percentDecode (replacePlus (asBytes s)) = asBytes s := by
    induction s with
    | nil => rfl
    | cons c s ih =>
        obtain ⟨hlt, hpercent, hplus⟩ := h c (by simp)
        have hne : ∀ d : Char, d.toNat < 128 → c ≠ d → UInt8.ofNat c.toNat ≠ UInt8.ofNat d.toNat := by
          intro d hd hcd he
          have hn := congrArg UInt8.toNat he
          rw [toNat_ofNat_of_lt (by omega), toNat_ofNat_of_lt (by omega)] at hn
          apply hcd
          rw [← Char.ofNat_toNat c, hn, Char.ofNat_toNat]
        have h₁ : UInt8.ofNat c.toNat ≠ 43 := hne '+' (by decide) hplus
        have h₂ : UInt8.ofNat c.toNat ≠ 37 := hne '%' (by decide) hpercent
        rw [asBytes_cons_ascii hlt, replacePlus, List.map_cons, if_neg h₁,
          percentDecode_cons h₂]
        exact congrArg _ (ih fun d hd => h d (List.mem_cons_of_mem _ hd))
  rw [decode, hall, fromUtf8Lossy_asBytes]

theorem asBytes_append (s t : Str) : asBytes (s ++ t) = asBytes s ++ asBytes t :=
  List.flatMap_append

/-- A byte of ASCII text is a character of it. -/
theorem not_mem_asBytes {c : Char} (hc : c.toNat < 128) {s : Str} (h : ∀ d ∈ s, d.toNat < 128)
    (hs : c ∉ s) : UInt8.ofNat c.toNat ∉ asBytes s := by
  induction s with
  | nil => simp [asBytes]
  | cons d s ih =>
      rw [asBytes_cons_ascii (h d (by simp)), List.mem_cons, not_or]
      simp only [List.mem_cons, not_or] at hs
      refine ⟨?_, ih (fun e he => h e (List.mem_cons_of_mem _ he)) hs.2⟩
      intro he
      have hn := congrArg UInt8.toNat he
      have hd := h d (by simp)
      rw [toNat_ofNat_of_lt (by omega), toNat_ofNat_of_lt (by omega)] at hn
      apply hs.1
      rw [← Char.ofNat_toNat c, hn, Char.ofNat_toNat]

/-- Characters of a serialized text. -/
def serializedChar (c : Char) : Bool :=
  c.isAlphanum || ['*', '-', '.', '_', '+', '%'].contains c

theorem serializedChar_of_mem {bytes : Bytes} {c : Char} (h : c ∈ byteSerialize bytes) :
    serializedChar c = true := by
  obtain ⟨b, -, hc⟩ := List.mem_flatMap.mp h
  have hall : ∀ b, (serializeByte b).all serializedChar = true :=
    byte_forall (by decide +kernel)
  exact List.all_eq_true.mp (hall b) c hc

theorem serializedChar_ascii {c : Char} (h : serializedChar c = true) : c.toNat < 128 := by
  simp only [serializedChar, Bool.or_eq_true, List.contains_iff_mem, List.mem_cons,
    List.not_mem_nil, or_false] at h
  rcases h with h | rfl | rfl | rfl | rfl | rfl | rfl
  · exact toNat_lt_of_isAlphanum h
  all_goals decide

section Sequences
variable {name value : Str}

theorem parse_sequence {sequence : Bytes} (hne : sequence ≠ []) (h : (38 : UInt8) ∉ sequence) :
    parse sequence = [(decode (sequence.takeWhile (· != 61)),
      decode ((sequence.dropWhile (· != 61)).drop 1))] := by
  simp [parse, List.splitOn_eq_singleton h, hne]

theorem parse_append {sequence : Bytes} (h : (38 : UInt8) ∉ sequence) (rest : Bytes) :
    parse (sequence ++ 38 :: rest) = parse sequence ++ parse rest := by
  have hsplit : (sequence ++ 38 :: rest).splitOn 38 = sequence.splitOn 38 ++ rest.splitOn 38 := by
    rw [List.splitOn_append_cons_self_of_not_mem h, List.splitOn_eq_singleton h]
    rfl
  rw [parse, hsplit, List.filter_append, List.map_append]
  rfl

/-- A pair of texts without separators in them. -/
theorem parse_pair (hn : ∀ c ∈ name, c.toNat < 128 ∧ c ∉ ['&', '='])
    (hv : ∀ c ∈ value, c.toNat < 128 ∧ c ≠ '&') :
    parse (asBytes (name ++ '=' :: value)) = [(decode (asBytes name), decode (asBytes value))] := by
  have hamp : (38 : UInt8) ∉ asBytes (name ++ '=' :: value) := by
    apply not_mem_asBytes (c := '&') (by decide)
    · intro d hd
      rcases List.mem_append.mp hd with hd | hd
      · exact (hn d hd).1
      · rcases List.mem_cons.mp hd with rfl | hd
        · decide
        · exact (hv d hd).1
    · intro hm
      rcases List.mem_append.mp hm with hm | hm
      · exact (hn _ hm).2 (by simp)
      · rcases List.mem_cons.mp hm with hm | hm
        · exact absurd hm (by decide)
        · exact (hv _ hm).2 rfl
  have hequals : ∀ b ∈ asBytes name, (b != 61) = true := by
    intro b hb
    rw [bne_iff_ne]
    rintro rfl
    apply not_mem_asBytes (c := '=') (by decide) (fun d hd => (hn d hd).1) _ hb
    intro hm
    exact (hn _ hm).2 (by simp)
  have htext : asBytes (name ++ '=' :: value) = asBytes name ++ 61 :: asBytes value := by
    rw [asBytes_append, asBytes_cons_ascii (by decide)]
    rfl
  rw [htext] at hamp ⊢
  rw [parse_sequence (by simp) hamp, List.takeWhile_append_of_pos hequals,
    List.dropWhile_append_of_pos hequals]
  simp

end Sequences

end Helmoci.FormEncoding
