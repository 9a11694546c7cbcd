import Helmoci.JsonDocuments

/-!
# Media types of manifests

A content type counts if it is one of the four manifest types, with well-formed
parameters or none. A manifest's own field decides its type, and where it has none
the declared type does. `Accept` ranges are matched with their quality, of which only
the sign matters.
-/
namespace Helmoci.ManifestMediaTypes
open RustText JsonDocuments

def octetStreamMediaType : Str := str "application/octet-stream"

def isBlank (c : Char) : Bool := c == ' ' || c == '\t'

def trimBlanks (s : Str) : Str := (s.dropWhile isBlank).rdropWhile isBlank

def isTokenChar (c : Char) : Bool := c.isAlphanum || (str "!#$%&'*+-.^_`|~").contains c

def isQuotable (c : Char) : Bool := 32 ≤ c.toNat && c.toNat ≤ 126 && c != '<' && c != '>'

/-- What stands between the quotes. -/
def quotedBody : Str → Bool
  | [] => true
  | '\\' :: c :: s => isQuotable c && quotedBody s
  | ['\\'] => false
  | c :: s => c != '"' && isQuotable c && quotedBody s

def isQuotedString : Str → Bool
  | '"' :: s => 2 ≤ s.length && s.getLast? == some '"' && quotedBody s.dropLast
  | _ => false

def validMediaTypeParameter (parameter : Str) : Bool :=
  match splitOnce '=' (trimBlanks parameter) with
  | none => false
  | some (name, value) =>
    let name := name.rdropWhile isBlank
    let value := value.dropWhile isBlank
    !name.isEmpty && name.all isTokenChar &&
      (isQuotedString value || (!value.isEmpty && value.all isTokenChar))

def validMediaTypeParameters (parameters : Str) : Bool :=
  (parameters.splitOn ';').all validMediaTypeParameter

def splitEssence (contentType : Str) : Str × Option Str :=
  match splitOnce ';' contentType with
  | some (essence, parameters) => (essence, some parameters)
  | none => (contentType, none)

def normalizedManifestMediaType (contentType : Str) : Option Str :=
  let parts := splitEssence contentType
  if parts.2.any fun p => !validMediaTypeParameters p then none
  else manifestMediaTypes.find? fun known => eqIgnoreAsciiCase (trimBlanks parts.1) known

section Manifests
variable (json : JsonCrate)

def hasSchemaVersion (value : Json) : Bool :=
  ((value.get (str "schemaVersion")).bind Json.asU64) == some 2

/-- The body's own media type, or the declared one where it has none. -/
def manifestMediaType (data : Bytes) (declared : Option Str) : Option Str := do
  let value ← json.value data
  if !hasSchemaVersion value then none
  else
    match value.get (str "mediaType") with
    | some mediaType => mediaType.asStr >>= normalizedManifestMediaType
    | none => declared >>= normalizedManifestMediaType

def inferredCachedManifestMediaType (data : Bytes) : Option Str := do
  let value ← json.value data
  if !hasSchemaVersion value || (value.get (str "mediaType")).isSome then none
  else if (value.get (str "config")).isSome && (value.get (str "layers")).isSome then
    some mediaTypeManifest
  else none

end Manifests

section Accept

def splitSign : Str → Bool × Str
  | '-' :: s => (true, s)
  | '+' :: s => (false, s)
  | s => (false, s)

/-- The exponent of a number behind its `e`. -/
def parseExponent : Str → Option ℤ
  | [] => some 0
  | c :: s =>
    let (negative, digits) := splitSign s
    if c.toLower = 'e' ∧ digits ≠ [] ∧ digits.all Char.isDigit = true then
      let n : ℤ := Nat.ofDigitChars 10 digits 0
      some (if negative then -n else n)
    else none

/-- A number that `f32` rounds to more than zero is more than half the least `f32`. -/
def roundsAboveZero (mantissa : ℕ) (exponent : ℤ) : Bool :=
  if 0 ≤ exponent then 0 < mantissa else 10 ^ (-exponent).toNat < mantissa * 2 ^ 150

/-- The text parses as an `f32` above zero. -/
def isPositiveF32 (text : Str) : Bool :=
  let (negative, s) := splitSign text
  if negative then false
  else if eqIgnoreAsciiCase s (str "inf") || eqIgnoreAsciiCase s (str "infinity") then true
  else
    let whole := s.takeWhile Char.isDigit
    let rest := s.dropWhile Char.isDigit
    let (fraction, rest) := match rest with
      | '.' :: rest => (rest.takeWhile Char.isDigit, rest.dropWhile Char.isDigit)
      | rest => ([], rest)
    match parseExponent rest with
    | none => false
    | some e => (whole ++ fraction != []) &&
        roundsAboveZero (Nat.ofDigitChars 10 (whole ++ fraction) 0) (e - fraction.length)

example : ["1", "0.001", ".5", "5.", "1e-45", "+3E2"].map (fun s => isPositiveF32 (str s)) =
      [true, true, true, true, true, true] ∧
    ["0", "0.0", "-1", "", ".", "1e", "1e-46", "NaN"].map (fun s => isPositiveF32 (str s)) =
      [false, false, false, false, false, false, false, false] := by decide +kernel

def acceptableParameter (parameter : Str) : Bool :=
  match splitOnce '=' (trim parameter) with
  | none => true
  | some (name, value) => !eqIgnoreAsciiCase (trim name) (str "q") || isPositiveF32 (trim value)

def acceptsRange (mediaType range : Str) : Bool :=
  match range.splitOn ';' with
  | [] => false
  | range :: parameters =>
    let range := toAsciiLowercase (trim range)
    parameters.all acceptableParameter &&
      (range == str "*/*" || range == mediaType ||
        match range.dropSuffix? (str "/*") with
        | some kind => (kind ++ ['/']).isPrefixOf mediaType
        | none => false)

def acceptsMediaType (accept : Option Str) (mediaType : Str) : Bool :=
  accept.all fun accept => (accept.splitOn ',').any (acceptsRange mediaType)

end Accept

/-- A normalized type is one of the known ones and stays as it is. -/
theorem normalized_mem {s m : Str} (h : normalizedManifestMediaType s = some m) :
    m ∈ manifestMediaTypes := by
  unfold normalizedManifestMediaType at h
  dsimp only at h
  split at h
  · contradiction
  · exact List.mem_of_find?_eq_some h

theorem normalized_of_mem {m : Str} (h : m ∈ manifestMediaTypes) :
    normalizedManifestMediaType m = some m := by
  have hall : ∀ m ∈ manifestMediaTypes, normalizedManifestMediaType m = some m := by
    decide +kernel
  exact hall m h

theorem manifestMediaType_mem {json : JsonCrate} {data : Bytes} {declared : Option Str} {m : Str}
    (h : manifestMediaType json data declared = some m) : m ∈ manifestMediaTypes := by
  unfold manifestMediaType at h
  obtain ⟨value, -, h⟩ := Option.bind_eq_some_iff.mp h
  split at h
  · contradiction
  · split at h
    · obtain ⟨s, -, h⟩ := Option.bind_eq_some_iff.mp h
      exact normalized_mem h
    · obtain ⟨s, -, h⟩ := Option.bind_eq_some_iff.mp h
      exact normalized_mem h

end Helmoci.ManifestMediaTypes
