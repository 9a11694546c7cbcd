import Helmoci.RegistryResponses
import Helmoci.RegistryTokens

/-!
# Pull authentication

A request for anything but the public paths has to present one of the configured
tokens, as a bearer token or as the password of Basic credentials. A field value is its
bytes, and what is not visible ASCII is not read as text. Decoding Base64 is the
library's: it undoes the padded encoding and accepts nothing else.
-/
namespace Helmoci.PullAuth
open RustText Utf8 JsonDocuments ServerErrors Helmoci.Configuration ServerOperations RegistryTokens
  RegistryResponses

def publicPaths : List Str := [str "/", str "/healthz", str "/metrics"]

/-- What the check reads of a request: the path and the `Authorization` fields. -/
structure PullRequest where
  path : Str
  authorization : List Bytes
deriving DecidableEq, Repr

def isVisible (b : UInt8) : Bool := (32 ≤ b && b < 127) || b == 9

/-- `HeaderValue::to_str`. -/
def toStr (value : Bytes) : Option Str :=
  if value.all isVisible then some (value.map fun b => Char.ofNat b.toNat) else none

def isAsciiWhitespace (c : Char) : Bool :=
  c == ' ' || c == '\t' || c == '\n' || c == '\r' || c.toNat == 12

section Check
variable (decode : Str → Option Bytes)

def extractToken (headerValue : Str) : Option Str :=
  match splitOnce ' ' headerValue with
  | none => none
  | some (scheme, credentials) =>
    if credentials.isEmpty || credentials.any isAsciiWhitespace then none
    else if eqIgnoreAsciiCase scheme (str "Bearer") then some credentials
    else if !eqIgnoreAsciiCase scheme (str "Basic") then none
    else
      match ((decode credentials).bind fromUtf8).bind (splitOnce ':') with
      | none => none
      | some (_, password) => if password.isEmpty then none else some password

/-- Repeated fields present nothing. -/
def presented : List Bytes → Option Str
  | [value] => (toStr value).bind (extractToken decode)
  | _ => none

def unauthorized : Response :=
  let response := intoResponse .unauthorized
  let challenge := HeaderValue.text (str "Basic realm=\"helmoci\"")
  {response with headers := HeaderMap.insert response.headers (str "www-authenticate") challenge}

/-- What becomes of a request: the inner handler runs, or it is answered at once. -/
inductive Outcome where
  | run
  | respond (response : Response)

def requirePullAuth (settings : Config) (req : PullRequest) : Outcome :=
  if !settings.auth.enabled || publicPaths.contains req.path then .run
  else
    let authorized := (presented decode req.authorization).any fun token =>
      (settings.auth.tokens.filter fun expected => !expected.isEmpty).any fun expected =>
        asBytes expected == asBytes token
    if authorized then .run else .respond unauthorized

end Check

/-- Decoding accepts exactly the encoded texts. -/
def DecodesBase64 (decode : Str → Option Bytes) : Prop :=
  ∀ text data, decode text = some data ↔ text = base64 data

section Decoder

def base64Value (c : Char) : Option ℕ :=
  if c.isUpper then some (c.toNat - 65)
  else if c.isLower then some (c.toNat - 71)
  else if c.isDigit then some (c.toNat + 4)
  else if c = '+' then some 62
  else if c = '/' then some 63
  else none

/-- The bytes between two neighbours of a group of four digits. -/
def firstByte (a b : ℕ) : UInt8 := UInt8.ofNat (4 * a + b / 16)

def secondByte (b c : ℕ) : UInt8 := UInt8.ofNat (b % 16 * 16 + c / 4)

def thirdByte (c d : ℕ) : UInt8 := UInt8.ofNat (c % 4 * 64 + d)

/-- A decoder that can be evaluated. The bits behind the last byte have to be zero. -/
def base64Decode : Str → Option Bytes
  | [] => some []
  | [a, b, '=', '='] => do
    let a ← base64Value a
    let b ← base64Value b
    if b % 16 = 0 then some [firstByte a b] else none
  | [a, b, c, '='] => do
    let a ← base64Value a
    let b ← base64Value b
    let c ← base64Value c
    if c % 4 = 0 then some [firstByte a b, secondByte b c] else none
  | a :: b :: c :: d :: rest => do
    let a ← base64Value a
    let b ← base64Value b
    let c ← base64Value c
    let d ← base64Value d
    let rest ← base64Decode rest
    some (firstByte a b :: secondByte b c :: thirdByte c d :: rest)
  | _ => none

theorem base64Value_digit {n : ℕ} (h : n < 64) : base64Value (base64Digit n) = some n := by
  have hall : ∀ n < 64, base64Value (base64Digit n) = some n := by decide
  exact hall n h

theorem digit_base64Value {c : Char} {n : ℕ} (h : base64Value c = some n) :
    n < 64 ∧ base64Digit n = c := by
  simp only [base64Value, Char.isUpper, Char.isLower, Char.isDigit, Bool.and_eq_true,
    decide_eq_true_eq, ge_iff_le, UInt32.le_iff_toNat_le] at h
  split_ifs at h with h₁ h₂ h₃ h₄ h₅
  · have hb : 65 ≤ c.toNat ∧ c.toNat ≤ 90 := h₁
    obtain rfl := Option.some.inj h
    refine ⟨by omega, ?_⟩
    rw [base64Digit, if_pos (by omega), Nat.add_sub_cancel' hb.1, Char.ofNat_toNat]
  · have hb : 97 ≤ c.toNat ∧ c.toNat ≤ 122 := h₂
    obtain rfl := Option.some.inj h
    refine ⟨by omega, ?_⟩
    rw [base64Digit, if_neg (by omega), if_pos (by omega), Nat.add_sub_cancel' (by omega),
      Char.ofNat_toNat]
  · have hb : 48 ≤ c.toNat ∧ c.toNat ≤ 57 := h₃
    obtain rfl := Option.some.inj h
    refine ⟨by omega, ?_⟩
    rw [base64Digit, if_neg (by omega), if_neg (by omega), if_pos (by omega), Nat.add_sub_cancel,
      Char.ofNat_toNat]
  · obtain rfl := Option.some.inj h
    exact ⟨by decide, by rw [h₄]; decide⟩
  · obtain rfl := Option.some.inj h
    exact ⟨by decide, by rw [h₅]; decide⟩

theorem base64Digit_ne_pad {n : ℕ} (h : n < 64) : base64Digit n ≠ '=' := by
  have hall : ∀ n < 64, base64Digit n ≠ '=' := by decide
  exact hall n h

theorem firstByte_div {a : UInt8} {r : ℕ} (h : r < 16) :
    firstByte (a.toNat / 4) (a.toNat % 4 * 16 + r) = a := by
  have hn : 4 * (a.toNat / 4) + (a.toNat % 4 * 16 + r) / 16 = a.toNat := by omega
  rw [firstByte, hn, UInt8.ofNat_toNat]

theorem secondByte_div {k r : ℕ} {b : UInt8} (h : r < 4) :
    secondByte (k * 16 + b.toNat / 16) (b.toNat % 16 * 4 + r) = b := by
  have hb := b.toNat_lt
  have hn : (k * 16 + b.toNat / 16) % 16 * 16 + (b.toNat % 16 * 4 + r) / 4 = b.toNat := by omega
  rw [secondByte, hn, UInt8.ofNat_toNat]

theorem thirdByte_div {k : ℕ} {c : UInt8} :
    thirdByte (k * 4 + c.toNat / 64) (c.toNat % 64) = c := by
  have hc := c.toNat_lt
  have hn : (k * 4 + c.toNat / 64) % 4 * 64 + c.toNat % 64 = c.toNat := by omega
  rw [thirdByte, hn, UInt8.ofNat_toNat]

theorem base64Decode_base64 (data : Bytes) : base64Decode (base64 data) = some data := by
  induction data using base64.induct with
  | case1 => rfl
  | case2 a =>
      have ha := a.toNat_lt
      have h₁ := base64Value_digit (show a.toNat / 4 < 64 by omega)
      have h₂ := base64Value_digit (show a.toNat % 4 * 16 < 64 by omega)
      have hf : firstByte (a.toNat / 4) (a.toNat % 4 * 16) = a := firstByte_div (r := 0) (by omega)
      simp [base64, base64Decode, h₁, h₂, hf]
  | case3 a b =>
      have ha := a.toNat_lt
      have hb := b.toNat_lt
      have h₁ := base64Value_digit (show a.toNat / 4 < 64 by omega)
      have h₂ := base64Value_digit (show a.toNat % 4 * 16 + b.toNat / 16 < 64 by omega)
      have h₃ := base64Value_digit (show b.toNat % 16 * 4 < 64 by omega)
      have hne := base64Digit_ne_pad (show b.toNat % 16 * 4 < 64 by omega)
      have hf := firstByte_div (a := a) (show b.toNat / 16 < 16 by omega)
      have hs : secondByte (a.toNat % 4 * 16 + b.toNat / 16) (b.toNat % 16 * 4) = b :=
        secondByte_div (r := 0) (by omega)
      have hz : b.toNat % 16 * 4 % 4 = 0 := by omega
      rw [base64, base64Decode]
      · simp [h₁, h₂, h₃, hf, hs, hz]
      · exact hne
  | case4 a b c rest ih =>
      have ha := a.toNat_lt
      have hb := b.toNat_lt
      have hc := c.toNat_lt
      have h₁ := base64Value_digit (show a.toNat / 4 < 64 by omega)
      have h₂ := base64Value_digit (show a.toNat % 4 * 16 + b.toNat / 16 < 64 by omega)
      have h₃ := base64Value_digit (show b.toNat % 16 * 4 + c.toNat / 64 < 64 by omega)
      have h₄ := base64Value_digit (show c.toNat % 64 < 64 by omega)
      have hne := base64Digit_ne_pad (show c.toNat % 64 < 64 by omega)
      have hf := firstByte_div (a := a) (show b.toNat / 16 < 16 by omega)
      have hs := secondByte_div (k := a.toNat % 4) (b := b) (show c.toNat / 64 < 4 by omega)
      have ht := thirdByte_div (k := b.toNat % 16) (c := c)
      simp [base64, base64Decode, h₁, h₂, h₃, h₄, hne, hf, hs, ht, ih]

theorem firstByte_toNat {x y : ℕ} (hx : x < 64) (hy : y < 64) :
    (firstByte x y).toNat = 4 * x + y / 16 := toNat_ofNat_of_lt (by omega)

theorem secondByte_toNat {y z : ℕ} (hz : z < 64) :
    (secondByte y z).toNat = y % 16 * 16 + z / 4 := toNat_ofNat_of_lt (by omega)

theorem thirdByte_toNat {z w : ℕ} (hw : w < 64) :
    (thirdByte z w).toNat = z % 4 * 64 + w := toNat_ofNat_of_lt (by omega)

theorem base64Decode_eq_some {text : Str} {data : Bytes} (h : base64Decode text = some data) :
    text = base64 data := by
  induction text using base64Decode.induct generalizing data with
  | case1 =>
      obtain rfl := Option.some.inj h
      rfl
  | case2 a b =>
      simp only [base64Decode, Option.bind_eq_bind, Option.bind_eq_some_iff] at h
      obtain ⟨x, hx, y, hy, h⟩ := h
      obtain ⟨hx', rfl⟩ := digit_base64Value hx
      obtain ⟨hy', rfl⟩ := digit_base64Value hy
      split at h
      · obtain rfl := Option.some.inj h
        have h₁ : (4 * x + y / 16) / 4 = x := by omega
        have h₂ : (4 * x + y / 16) % 4 * 16 = y := by omega
        rw [base64, firstByte_toNat hx' hy', h₁, h₂]
      · contradiction
  | case3 a b c hne =>
      simp only [base64Decode, Option.bind_eq_bind, Option.bind_eq_some_iff] at h
      obtain ⟨x, hx, y, hy, z, hz, h⟩ := h
      obtain ⟨hx', rfl⟩ := digit_base64Value hx
      obtain ⟨hy', rfl⟩ := digit_base64Value hy
      obtain ⟨hz', rfl⟩ := digit_base64Value hz
      split at h
      · obtain rfl := Option.some.inj h
        have h₁ : (4 * x + y / 16) / 4 = x := by omega
        have h₂ : (4 * x + y / 16) % 4 * 16 + (y % 16 * 16 + z / 4) / 16 = y := by omega
        have h₃ : (y % 16 * 16 + z / 4) % 16 * 4 = z := by omega
        rw [base64, firstByte_toNat hx' hy', secondByte_toNat hz', h₁, h₂, h₃]
      · contradiction
  | case4 a b c d rest hne hne' ih =>
      simp only [base64Decode, Option.bind_eq_bind, Option.bind_eq_some_iff] at h
      obtain ⟨x, hx, y, hy, z, hz, w, hw, t, ht, h⟩ := h
      obtain ⟨hx', rfl⟩ := digit_base64Value hx
      obtain ⟨hy', rfl⟩ := digit_base64Value hy
      obtain ⟨hz', rfl⟩ := digit_base64Value hz
      obtain ⟨hw', rfl⟩ := digit_base64Value hw
      obtain rfl := Option.some.inj h
      have h₁ : (4 * x + y / 16) / 4 = x := by omega
      have h₂ : (4 * x + y / 16) % 4 * 16 + (y % 16 * 16 + z / 4) / 16 = y := by omega
      have h₃ : (y % 16 * 16 + z / 4) % 16 * 4 + (z % 4 * 64 + w) / 64 = z := by omega
      have h₄ : (z % 4 * 64 + w) % 64 = w := by omega
      rw [base64, firstByte_toNat hx' hy', secondByte_toNat hz', thirdByte_toNat hw', h₁, h₂, h₃, h₄,
        ih ht]
  | case5 text h₁ h₂ h₃ h₄ =>
      rw [base64Decode] at h
      · contradiction
      all_goals assumption

theorem base64Decode_decodes : DecodesBase64 base64Decode := by
  intro text data
  constructor
  · exact base64Decode_eq_some
  · rintro rfl
    exact base64Decode_base64 data

end Decoder

/-- A character that a field shows and that is no blank. -/
def isGraphic (c : Char) : Bool := '!' ≤ c && c ≤ '~'

/-- A field that presents the token. A bearer token is of the given kind, while a
password is anything. -/
inductive Presents (carried : Str → Prop) (t : Str) : Bytes → Prop
  | bearer {scheme : Str} : eqIgnoreAsciiCase scheme (str "Bearer") = true → carried t →
      Presents carried t (asBytes (scheme ++ ' ' :: t))
  | basic {scheme user : Str} : eqIgnoreAsciiCase scheme (str "Basic") = true → ':' ∉ user →
      Presents carried t (asBytes (scheme ++ ' ' :: base64 (asBytes (user ++ ':' :: t))))

section Fields

theorem isGraphic_base64 (data : Bytes) : ∀ c ∈ base64 data, isGraphic c = true := by
  have hd : ∀ n, isGraphic (base64Digit n) = true := by
    intro n
    by_cases h : n < 64
    · have hall : ∀ n < 64, isGraphic (base64Digit n) = true := by decide
      exact hall n h
    · have hn : base64Digit n = '/' := by
        rw [base64Digit, if_neg (by omega), if_neg (by omega), if_neg (by omega), if_neg (by omega)]
      rw [hn]
      decide
  have hp : isGraphic '=' = true := by decide
  induction data using base64.induct with
  | case1 => simp [base64]
  | case2 a => simp [base64, hd, hp]
  | case3 a b => simp [base64, hd, hp]
  | case4 a b c rest ih => simpa [base64, hd] using ih

theorem toNat_lt_of_isGraphic {c : Char} (h : isGraphic c = true) :
    32 < c.toNat ∧ c.toNat < 127 := by
  simp only [isGraphic, Bool.and_eq_true, decide_eq_true_eq, Char.le_def,
    UInt32.le_iff_toNat_le] at h
  exact ⟨h.1, Nat.lt_succ_of_le h.2⟩

/-- The scheme of a field is in letters, whatever their case. -/
theorem isGraphic_of_eqIgnoreAsciiCase {scheme word : Str} (hw : word.all Char.isAlpha = true)
    (h : eqIgnoreAsciiCase scheme word = true) : ∀ c ∈ scheme, isGraphic c = true := by
  intro c hc
  have hlower : c.toLower.isLower = true := by
    have heq : toAsciiLowercase scheme = toAsciiLowercase word := eq_of_beq h
    have hmem : c.toLower ∈ toAsciiLowercase word := heq ▸ List.mem_map_of_mem hc
    obtain ⟨d, hd, he⟩ := List.mem_map.mp hmem
    have hl : d.isAlpha = true := List.all_eq_true.mp hw d hd
    rw [← he]
    refine ascii_forall (P := fun d => d.isAlpha = true → d.toLower.isLower = true) (by decide)
      ?_ hl
    simp only [Char.isAlpha, Char.isUpper, Char.isLower, Bool.or_eq_true, Bool.and_eq_true,
      decide_eq_true_eq, ge_iff_le, UInt32.le_iff_toNat_le] at hl
    rcases hl with ⟨-, hl⟩ | ⟨-, hl⟩ <;> exact Nat.lt_of_le_of_lt hl (by decide)
  have hlt : c.toNat < 128 := by
    by_contra hge
    rw [toLower_eq_self (Nat.le_of_not_lt hge)] at hlower
    simp only [Char.isLower, Bool.and_eq_true, decide_eq_true_eq, UInt32.le_iff_toNat_le] at hlower
    exact hge (Nat.lt_of_le_of_lt hlower.2 (by decide))
  exact ascii_forall (P := fun c => c.toLower.isLower = true → isGraphic c = true) (by decide)
    hlt hlower

theorem toStr_asBytes {s : Str} (h : ∀ c ∈ s, c = ' ' ∨ isGraphic c = true) :
    toStr (asBytes s) = some s := by
  have hlt : ∀ c ∈ s, 32 ≤ c.toNat ∧ c.toNat < 127 := by
    intro c hc
    rcases h c hc with rfl | hg
    · decide
    · have := toNat_lt_of_isGraphic hg
      omega
  have hascii : isAscii s = true := by
    refine List.all_eq_true.mpr ?_
    intro c hc
    have := hlt c hc
    exact decide_eq_true (by omega)
  have hnat : ∀ c ∈ s, (UInt8.ofNat c.toNat).toNat = c.toNat := by
    intro c hc
    have := hlt c hc
    exact toNat_ofNat_of_lt (by omega)
  rw [asBytes_of_isAscii hascii, toStr, if_pos]
  · rw [List.map_map, List.map_congr_left (g := id), List.map_id]
    intro c hc
    rw [Function.comp, hnat c hc, Char.ofNat_toNat]
    rfl
  · rw [List.all_map, List.all_eq_true]
    intro c hc
    have hb := hnat c hc
    have := hlt c hc
    simp only [Function.comp, isVisible, Bool.or_eq_true, Bool.and_eq_true, decide_eq_true_eq,
      UInt8.le_iff_toNat_le, UInt8.lt_iff_toNat_lt, hb]
    exact Or.inl ⟨this.1, this.2⟩

/-- A field that is read as text is the encoding of that text, of which all but the
blanks is graphic. -/
theorem toStr_eq_some {value : Bytes} {s : Str} (h : toStr value = some s) :
    value = asBytes s ∧ ∀ c ∈ s, isAsciiWhitespace c = false → isGraphic c = true := by
  unfold toStr at h
  split at h
  · rename_i hv
    have hb : ∀ b ∈ value, b = 9 ∨ 32 ≤ b.toNat ∧ b.toNat < 127 := by
      intro b hb
      have hvis := List.all_eq_true.mp hv b hb
      simp only [isVisible, Bool.or_eq_true, Bool.and_eq_true, decide_eq_true_eq, beq_iff_eq,
        UInt8.le_iff_toNat_le, UInt8.lt_iff_toNat_lt] at hvis
      exact hvis.symm
    have hlt : ∀ b ∈ value, b.toNat < 128 := by
      intro b hm
      rcases hb b hm with rfl | hr
      · decide
      · omega
    obtain rfl := Option.some.inj h
    have hascii : isAscii (value.map fun b => Char.ofNat b.toNat) = true := by
      rw [isAscii, List.all_map, List.all_eq_true]
      intro b hm
      rw [Function.comp, toNat_ofNat_of_lt_ascii (hlt b hm)]
      exact decide_eq_true (hlt b hm)
    constructor
    · rw [asBytes_of_isAscii hascii, List.map_map, List.map_congr_left (g := id), List.map_id]
      intro b hm
      rw [Function.comp, toNat_ofNat_of_lt_ascii (hlt b hm), UInt8.ofNat_toNat]
      rfl
    · intro c hc hw
      obtain ⟨b, hm, rfl⟩ := List.mem_map.mp hc
      exact ascii_forall (P := fun c => (c = '\t' ∨ 32 ≤ c.toNat ∧ c.toNat < 127) →
          isAsciiWhitespace c = false → isGraphic c = true) (by decide)
        (by rw [toNat_ofNat_of_lt_ascii (hlt b hm)]; exact hlt b hm)
        (by
          rcases hb b hm with rfl | hr
          · exact Or.inl rfl
          · rw [toNat_ofNat_of_lt_ascii (hlt b hm)]
            exact Or.inr hr) hw
  · contradiction

/-- The password behind the first colon of what was decoded. -/
theorem basic_password {decode : Str → Option Bytes} (hd : DecodesBase64 decode) {credentials : Str}
    {user password : Str} :
    ((decode credentials).bind fromUtf8).bind (splitOnce ':') = some (user, password) ↔
      ':' ∉ user ∧ credentials = base64 (asBytes (user ++ ':' :: password)) := by
  constructor
  · intro h
    obtain ⟨text, htext, hs⟩ := Option.bind_eq_some_iff.mp h
    obtain ⟨data, hdata, hu⟩ := Option.bind_eq_some_iff.mp htext
    rw [(hd _ _).mp hdata, fromUtf8_eq_some hu, splitOnce_eq_some hs]
    exact ⟨not_mem_of_splitOnce hs, rfl⟩
  · rintro ⟨hu, rfl⟩
    rw [(hd _ _).mpr rfl, Option.bind_some, fromUtf8_asBytes, Option.bind_some, splitOnce_append hu]

theorem base64_ne_nil {data : Bytes} (h : data ≠ []) : base64 data ≠ [] := by
  cases data using base64.induct with
  | case1 => contradiction
  | case2 a => simp [base64]
  | case3 a b => simp [base64]
  | case4 a b c rest => simp [base64]

/-- The tokens of a single field. -/
theorem presented_eq_some_iff {decode : Str → Option Bytes} (hd : DecodesBase64 decode)
    {authorization : List Bytes} {t : Str} : presented decode authorization = some t ↔
      ∃ field, authorization = [field] ∧ t ≠ [] ∧
        Presents (fun t => ∀ c ∈ t, isGraphic c = true) t field := by
  have notBlank : ∀ c, isGraphic c = true → isAsciiWhitespace c = false ∧ c ≠ ' ' := by
    intro c hc
    have hlt := toNat_lt_of_isGraphic hc
    exact ascii_forall (P := fun c => isGraphic c = true → isAsciiWhitespace c = false ∧ c ≠ ' ')
      (by decide) (by omega) hc
  constructor
  · intro h
    obtain ⟨field, rfl, hfield⟩ : ∃ field, authorization = [field] ∧
        (toStr field).bind (extractToken decode) = some t := by
      unfold presented at h
      split at h
      · exact ⟨_, rfl, h⟩
      · cases h
    clear h
    obtain ⟨s, hs, h⟩ := Option.bind_eq_some_iff.mp hfield
    obtain ⟨rfl, hg⟩ := toStr_eq_some hs
    refine ⟨_, rfl, ?_⟩
    unfold extractToken at h
    split at h
    · cases h
    · rename_i scheme credentials hsplit
      obtain rfl := splitOnce_eq_some hsplit
      split at h
      · cases h
      · rename_i hc
        simp only [Bool.or_eq_true, List.isEmpty_iff, not_or, Bool.not_eq_true,
          List.any_eq_false] at hc
        split at h
        · rename_i hbearer
          obtain rfl := Option.some.inj h
          refine ⟨hc.1, .bearer hbearer ?_⟩
          intro c hm
          exact hg c (by simp [hm]) (by simpa using hc.2 c hm)
        · split at h
          · cases h
          · rename_i hbasic
            split at h
            · cases h
            · rename_i user password hp
              obtain ⟨hu, rfl⟩ := (basic_password hd).mp hp
              split at h
              · cases h
              · rename_i hne
                obtain rfl := Option.some.inj h
                exact ⟨by simpa using hne, .basic (by simpa using hbasic) hu⟩
  · rintro ⟨field, rfl, hne, hp⟩
    cases hp with
    | bearer hscheme hcarried =>
        rename_i scheme
        have hletters := isGraphic_of_eqIgnoreAsciiCase (by decide) hscheme
        have hblank : ' ' ∉ scheme := fun hm => (notBlank _ (hletters _ hm)).2 rfl
        have htext : toStr (asBytes (scheme ++ ' ' :: t)) = some (scheme ++ ' ' :: t) := by
          apply toStr_asBytes
          intro c hc
          rcases List.mem_append.mp hc with hc | hc
          · exact Or.inr (hletters c hc)
          · rcases List.mem_cons.mp hc with rfl | hc
            · exact Or.inl rfl
            · exact Or.inr (hcarried c hc)
        have hany : t.any isAsciiWhitespace = false := by
          rw [List.any_eq_false]
          intro c hc
          simp [(notBlank c (hcarried c hc)).1]
        simp [presented, htext, extractToken, splitOnce_append hblank, hne, hany, hscheme]
    | basic hscheme hu =>
        rename_i scheme user
        have hletters := isGraphic_of_eqIgnoreAsciiCase (by decide) hscheme
        have hblank : ' ' ∉ scheme := fun hm => (notBlank _ (hletters _ hm)).2 rfl
        obtain ⟨credentials, hcred⟩ : ∃ s, s = base64 (asBytes (user ++ ':' :: t)) := ⟨_, rfl⟩
        have hgraphic := isGraphic_base64 (asBytes (user ++ ':' :: t))
        rw [← hcred] at hgraphic ⊢
        have htext : toStr (asBytes (scheme ++ ' ' :: credentials)) =
            some (scheme ++ ' ' :: credentials) := by
          apply toStr_asBytes
          intro c hc
          rcases List.mem_append.mp hc with hc | hc
          · exact Or.inr (hletters c hc)
          · rcases List.mem_cons.mp hc with rfl | hc
            · exact Or.inl rfl
            · exact Or.inr (hgraphic c hc)
        have hany : credentials.any isAsciiWhitespace = false := by
          rw [List.any_eq_false]
          intro c hc
          simp [(notBlank c (hgraphic c hc)).1]
        have hcne : credentials ≠ [] := by
          rw [hcred]
          apply base64_ne_nil
          intro h
          exact absurd ((asBytes_inj (t := [])).mp h) (by simp)
        have hbearer : eqIgnoreAsciiCase scheme (str "Bearer") = false := by
          have heq : toAsciiLowercase scheme = toAsciiLowercase (str "Basic") := eq_of_beq hscheme
          rw [eqIgnoreAsciiCase, heq]
          decide
        have hpass := (basic_password hd).mpr ⟨hu, hcred⟩
        simp [presented, htext, extractToken, splitOnce_append hblank, hne, hany, hscheme, hcne,
          hbearer, hpass]

end Fields

section Authorization
variable {decode : Str → Option Bytes}

/-- With authentication on, a request behind the public paths runs exactly when its only
field presents a configured token. A bearer token is in graphic characters, for a field
with any other is refused before the tokens are compared. -/
theorem requirePullAuth_run_iff (hd : DecodesBase64 decode) {settings : Config}
    {req : PullRequest} (henabled : settings.auth.enabled = true)
    (hpath : req.path ∉ publicPaths) : requirePullAuth decode settings req = .run ↔
      ∃ field, req.authorization = [field] ∧ ∃ t ∈ settings.auth.tokens, t ≠ [] ∧
        Presents (fun t => ∀ c ∈ t, isGraphic c = true) t field := by
  have hrun : requirePullAuth decode settings req = .run ↔
      ∃ t, presented decode req.authorization = some t ∧ t ∈ settings.auth.tokens ∧ t ≠ [] := by
    unfold requirePullAuth
    rw [if_neg (by simp [henabled, hpath])]
    dsimp only
    split
    · rename_i h
      simpa [Option.any_eq_true, asBytes_inj] using h
    · rename_i h
      simpa [Option.any_eq_true, asBytes_inj] using h
  rw [hrun]
  constructor
  · rintro ⟨t, hp, ht, -⟩
    obtain ⟨field, ha, hne, hf⟩ := (presented_eq_some_iff hd).mp hp
    exact ⟨field, ha, t, ht, hne, hf⟩
  · rintro ⟨field, ha, t, ht, hne, hf⟩
    exact ⟨t, (presented_eq_some_iff hd).mpr ⟨field, ha, hne, hf⟩, ht, hne⟩

end Authorization

def tokenSettings (token : Str) : Config where
  storage := .memory
  auth := ⟨true, [token]⟩

theorem sekrit_is_run :
    requirePullAuth base64Decode (tokenSettings (str "sekrit"))
      ⟨str "/v2/", [bytes "bAsIc dTpzZWtyaXQ="]⟩ = .run := by
  refine (requirePullAuth_run_iff base64Decode_decodes rfl (by decide)).mpr ?_
  refine ⟨_, rfl, str "sekrit", by decide, by decide, ?_⟩
  exact @Presents.basic _ (str "sekrit") (str "bAsIc") (str "u") (by decide) (by decide)

/-- A configured token with a blank in it is no bearer token. -/
theorem blank_token_is_refused :
    requirePullAuth base64Decode (tokenSettings (str "two words"))
      ⟨str "/v2/", [bytes "Bearer two words"]⟩ = .respond unauthorized ∧
    ¬ ∀ (settings : Config) (req : PullRequest), settings.auth.enabled = true →
      req.path ∉ publicPaths → (requirePullAuth base64Decode settings req = .run ↔
        ∃ field, req.authorization = [field] ∧ ∃ t ∈ settings.auth.tokens, t ≠ [] ∧
          Presents (fun _ => True) t field) := by
  have hrefused : requirePullAuth base64Decode (tokenSettings (str "two words"))
      ⟨str "/v2/", [bytes "Bearer two words"]⟩ = .respond unauthorized := rfl
  refine ⟨hrefused, ?_⟩
  intro h
  have hrun := (h (tokenSettings (str "two words")) ⟨str "/v2/", [bytes "Bearer two words"]⟩ rfl
    (by decide)).mpr ⟨_, rfl, str "two words", by decide, by decide,
      @Presents.bearer _ (str "two words") (str "Bearer") (by decide) trivial⟩
  rw [hrefused] at hrun
  contradiction

end Helmoci.PullAuth
