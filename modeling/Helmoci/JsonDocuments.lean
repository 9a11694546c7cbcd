import Helmoci.OciDigest
import Helmoci.Utf8

/-!
# Manifests and tag pointers as JSON

The documents that the server writes, as the JSON library prints them: without
blanks, with the fields in the order of their declaration. Reading JSON is a
parameter, on which results rely for the documents that the server has written
itself. A reader for exactly these texts is an instance of it that can be evaluated.
-/
namespace Helmoci.JsonDocuments
open RustText OciDigest Utf8

def mediaTypeManifest : Str := str "application/vnd.oci.image.manifest.v1+json"
def mediaTypeHelmConfig : Str := str "application/vnd.cncf.helm.config.v1+json"
def mediaTypeHelmChart : Str := str "application/vnd.cncf.helm.chart.content.v1.tar+gzip"
def ociIndexMediaType : Str := str "application/vnd.oci.image.index.v1+json"
def dockerManifestMediaType : Str := str "application/vnd.docker.distribution.manifest.v2+json"
def dockerManifestListMediaType : Str :=
  str "application/vnd.docker.distribution.manifest.list.v2+json"

def manifestMediaTypes : List Str :=
  [mediaTypeManifest, ociIndexMediaType, dockerManifestMediaType, dockerManifestListMediaType]

structure OciDescriptor where
  mediaType : Str
  digest : Digest
  size : ℕ
deriving DecidableEq

structure OciManifest where
  schemaVersion : ℕ
  mediaType : Str
  config : OciDescriptor
  layers : List OciDescriptor
deriving DecidableEq

structure TagPointer where
  digest : Digest
  mediaType : Str
  size : ℕ
deriving DecidableEq

/-- A JSON value, with a number as far as it is an unsigned integer. -/
inductive Json where
  | null
  | bool (b : Bool)
  | number (asU64 : Option ℕ)
  | string (s : Str)
  | array (items : List Json)
  | object (members : List (Str × Json))

namespace Json

def get (value : Json) (key : Str) : Option Json :=
  match value with
  | .object members => members.lookup key
  | _ => none

def asU64 : Json → Option ℕ
  | .number n => n
  | _ => none

def asStr : Json → Option Str
  | .string s => some s
  | _ => none

end Json

section Writing

def hexDigit (n : ℕ) : Char := Char.ofNat (if n < 10 then 48 + n else 87 + n)

def escapeJson (c : Char) : Str :=
  if c = '"' then str "\\\""
  else if c = '\\' then str "\\\\"
  else if c.toNat = 8 then str "\\b"
  else if c.toNat = 9 then str "\\t"
  else if c.toNat = 10 then str "\\n"
  else if c.toNat = 12 then str "\\f"
  else if c.toNat = 13 then str "\\r"
  else if c.toNat < 32 then str "\\u00" ++ [hexDigit (c.toNat / 16), hexDigit (c.toNat % 16)]
  else [c]

def jsonString (s : Str) : Str := '"' :: (s.flatMap escapeJson ++ ['"'])

def descriptorText (d : OciDescriptor) (rest : Str) : Str :=
  str "\x7b\"mediaType\":" ++ (jsonString d.mediaType ++ (str ",\"digest\":" ++
    (jsonString d.digest.asStr ++ (str ",\"size\":" ++ (decimal d.size ++ (str "\x7d" ++ rest))))))

def layersText : List OciDescriptor → Str → Str
  | [], rest => rest
  | [d], rest => descriptorText d rest
  | d :: ds, rest => descriptorText d (',' :: layersText ds rest)

def manifestText (m : OciManifest) : Str :=
  str "\x7b\"schemaVersion\":" ++ (decimal m.schemaVersion ++ (str ",\"mediaType\":" ++
    (jsonString m.mediaType ++ (str ",\"config\":" ++ descriptorText m.config
      (str ",\"layers\":[" ++ layersText m.layers (str "]\x7d"))))))

def pointerText (p : TagPointer) : Str :=
  str "\x7b\"digest\":" ++ (jsonString p.digest.asStr ++ (str ",\"mediaType\":" ++
    (jsonString p.mediaType ++ (str ",\"size\":" ++ (decimal p.size ++ str "\x7d")))))

/-- `serde_json::to_vec` at the manifest type. -/
def encodeManifest (m : OciManifest) : Bytes := asBytes (manifestText m)

/-- `serde_json::to_vec` at the pointer type. -/
def encodePointer (p : TagPointer) : Bytes := asBytes (pointerText p)

end Writing

/-- `serde_json::from_slice` at the types that the server reads. -/
structure JsonCrate where
  value : Bytes → Option Json
  manifest : Bytes → Option OciManifest
  pointer : Bytes → Option TagPointer

/-- A manifest as the server builds it. -/
def helmManifest (config layer : Digest) (configSize layerSize : ℕ) : OciManifest where
  schemaVersion := 2
  mediaType := mediaTypeManifest
  config := ⟨mediaTypeHelmConfig, config, configSize⟩
  layers := [⟨mediaTypeHelmChart, layer, layerSize⟩]

/-- What the server has written is read back, its sizes being those of a `u64`. -/
structure JsonLaws (json : JsonCrate) : Prop where
  manifest : ∀ config layer configSize layerSize, configSize < 2 ^ 64 → layerSize < 2 ^ 64 →
    json.manifest (encodeManifest (helmManifest config layer configSize layerSize)) =
      some (helmManifest config layer configSize layerSize)
  pointer : ∀ p : TagPointer, p.mediaType ∈ manifestMediaTypes → p.size < 2 ^ 64 →
    json.pointer (encodePointer p) = some p

section Reading

def plainChar (c : Char) : Bool := c != '"' && c != '\\' && 32 ≤ c.toNat && c.toNat < 128

def readString : Str → Option (Str × Str)
  | '"' :: s =>
    match s.dropWhile (· != '"') with
    | '"' :: rest =>
      if (s.takeWhile (· != '"')).all plainChar then some (s.takeWhile (· != '"'), rest) else none
    | _ => none
  | _ => none

def readU64 (s : Str) : Option (ℕ × Str) :=
  let digits := s.takeWhile Char.isDigit
  let n := Nat.ofDigitChars 10 digits 0
  if digits.isEmpty || 2 ^ 64 ≤ n then none else some (n, s.dropWhile Char.isDigit)

def readDescriptor (s : Str) : Option (OciDescriptor × Str) := do
  let s ← s.dropPrefix? (str "\x7b\"mediaType\":")
  let (mediaType, s) ← readString s
  let s ← s.dropPrefix? (str ",\"digest\":")
  let (digest, s) ← readString s
  let s ← s.dropPrefix? (str ",\"size\":")
  let (size, s) ← readU64 s
  let s ← s.dropPrefix? (str "\x7d")
  let digest ← Digest.parse digest
  return (⟨mediaType, digest, size⟩, s)

/-- A manifest with a single layer. -/
def readManifest (s : Str) : Option OciManifest := do
  let s ← s.dropPrefix? (str "\x7b\"schemaVersion\":")
  let (schemaVersion, s) ← readU64 s
  let s ← s.dropPrefix? (str ",\"mediaType\":")
  let (mediaType, s) ← readString s
  let s ← s.dropPrefix? (str ",\"config\":")
  let (config, s) ← readDescriptor s
  let s ← s.dropPrefix? (str ",\"layers\":[")
  let (layer, s) ← readDescriptor s
  if s = str "]\x7d" then some ⟨schemaVersion, mediaType, config, [layer]⟩ else none

def readPointer (s : Str) : Option TagPointer := do
  let s ← s.dropPrefix? (str "\x7b\"digest\":")
  let (digest, s) ← readString s
  let s ← s.dropPrefix? (str ",\"mediaType\":")
  let (mediaType, s) ← readString s
  let s ← s.dropPrefix? (str ",\"size\":")
  let (size, s) ← readU64 s
  let digest ← Digest.parse digest
  if s = str "\x7d" then some ⟨digest, mediaType, size⟩ else none

def fromAscii (data : Bytes) : Option Str :=
  if data.all (· < 128) then some (data.map fun b => Char.ofNat b.toNat) else none

/-- A reader for manifests and pointers as the server writes them. -/
def compactJson (value : Bytes → Option Json) : JsonCrate where
  value := value
  manifest data := fromAscii data >>= readManifest
  pointer data := fromAscii data >>= readPointer

theorem dropPrefix?_append (s rest : Str) : (s ++ rest).dropPrefix? s = some rest :=
  List.dropPrefix?_append_of_beq _ (beq_self_eq_true _)

theorem jsonString_of_plain {s : Str} (h : ∀ c ∈ s, plainChar c = true) :
    jsonString s = '"' :: (s ++ ['"']) := by
  have hesc : ∀ c, plainChar c = true → escapeJson c = [c] := by
    intro c hc
    simp only [plainChar, Bool.and_eq_true, bne_iff_ne, decide_eq_true_eq] at hc
    have hn := hc.1.2
    rw [escapeJson, if_neg hc.1.1.1, if_neg hc.1.1.2, if_neg (by omega), if_neg (by omega),
      if_neg (by omega), if_neg (by omega), if_neg (by omega), if_neg (by omega)]
  have hs : s.flatMap escapeJson = s := by
    induction s with
    | nil => rfl
    | cons c s ih =>
        rw [List.flatMap_cons, hesc c (h c (by simp)), ih fun d hd => h d (by simp [hd])]
        rfl
  rw [jsonString, hs]

theorem readString_append {s : Str} (h : ∀ c ∈ s, plainChar c = true) (rest : Str) :
    readString (jsonString s ++ rest) = some (s, rest) := by
  have hne : ∀ c ∈ s, (c != '"') = true := by
    intro c hc
    have hp := h c hc
    simp only [plainChar, Bool.and_eq_true] at hp
    exact hp.1.1.1
  have htake : (s ++ '"' :: rest).takeWhile (· != '"') = s := by
    rw [List.takeWhile_append_of_pos hne]
    simp
  have hdrop : (s ++ '"' :: rest).dropWhile (· != '"') = '"' :: rest := by
    rw [List.dropWhile_append_of_pos hne]
    simp
  have hall : s.all plainChar = true := List.all_eq_true.mpr h
  have htext : jsonString s ++ rest = '"' :: (s ++ '"' :: rest) := by
    simp [jsonString_of_plain h]
  rw [htext, readString, hdrop, htake]
  exact if_pos hall

theorem isDigit_decimal (n : ℕ) : ∀ c ∈ decimal n, c.isDigit = true := by
  intro c hc
  rw [decimal, Nat.toList_repr] at hc
  exact Nat.isDigit_of_mem_toDigits (by decide) (by decide) hc

/-- The digits end where the next text begins. -/
theorem readU64_append {n : ℕ} (hn : n < 2 ^ 64) {t : Str}
    (ht : t.head?.any (fun c => !c.isDigit) = true) (rest : Str) :
    readU64 (decimal n ++ (t ++ rest)) = some (n, t ++ rest) := by
  cases t with
  | nil => contradiction
  | cons c t =>
      have hc : c.isDigit = false := by simpa using ht
      have htake : (decimal n ++ (c :: t ++ rest)).takeWhile Char.isDigit = decimal n := by
        rw [List.takeWhile_append_of_pos (isDigit_decimal n)]
        simp [hc]
      have hdrop : (decimal n ++ (c :: t ++ rest)).dropWhile Char.isDigit = c :: t ++ rest := by
        rw [List.dropWhile_append_of_pos (isDigit_decimal n)]
        simp [hc]
      have hdigits : decimal n = Nat.toDigits 10 n := Nat.toList_repr
      unfold readU64
      rw [htake, hdrop, hdigits]
      simpa using hn

theorem toNat_lt_of_isLowerHex {c : Char} (h : isLowerHex c = true) : c.toNat < 128 := by
  simp only [isLowerHex, Char.isDigit, Bool.or_eq_true, Bool.and_eq_true, decide_eq_true_eq,
    Char.le_def, UInt32.le_iff_toNat_le] at h
  rcases h with h | h
  · exact Nat.lt_of_le_of_lt h.2 (by decide)
  · exact Nat.lt_of_le_of_lt h.2 (by decide)

theorem plain_digest (d : Digest) : ∀ c ∈ d.asStr, plainChar c = true := by
  obtain ⟨hexPart, hx, -, hd⟩ := d.asStr_eq
  have hhex : ∀ c, isLowerHex c = true → plainChar c = true := by
    intro c hc
    exact ascii_forall (P := fun c => isLowerHex c = true → plainChar c = true) (by decide)
      (toNat_lt_of_isLowerHex hc) hc
  intro c hc
  rw [hd] at hc
  rcases List.mem_append.mp hc with hc | hc
  · exact List.all_eq_true.mp (show (str "sha256:").all plainChar = true by decide) c hc
  · exact hhex c (List.all_eq_true.mp hx c hc)

theorem plain_mediaType {m : Str} (h : m ∈ mediaTypeHelmConfig :: mediaTypeHelmChart :: manifestMediaTypes) :
    ∀ c ∈ m, plainChar c = true := by
  have hall : ∀ m ∈ mediaTypeHelmConfig :: mediaTypeHelmChart :: manifestMediaTypes,
      m.all plainChar = true := by decide +kernel
  exact List.all_eq_true.mp (hall m h)

theorem plain_manifest : ∀ c ∈ mediaTypeManifest, plainChar c = true :=
  plain_mediaType (by simp [manifestMediaTypes])

theorem plain_helmConfig : ∀ c ∈ mediaTypeHelmConfig, plainChar c = true :=
  plain_mediaType (by simp)

theorem plain_helmChart : ∀ c ∈ mediaTypeHelmChart, plainChar c = true :=
  plain_mediaType (by simp)

theorem readDescriptor_text {d : OciDescriptor} (hm : ∀ c ∈ d.mediaType, plainChar c = true)
    (hs : d.size < 2 ^ 64) (rest : Str) :
    readDescriptor (descriptorText d rest) = some (d, rest) := by
  have hn : ∀ rest, readU64 (decimal d.size ++ (str "\x7d" ++ rest)) =
      some (d.size, str "\x7d" ++ rest) := readU64_append hs (by decide)
  unfold readDescriptor descriptorText
  simp only [dropPrefix?_append, readString_append hm, readString_append (plain_digest d.digest),
    Option.bind_eq_bind, Option.bind_some, hn, Digest.parse_asStr]
  rfl

theorem readManifest_text (config layer : Digest) {configSize layerSize : ℕ}
    (hconfig : configSize < 2 ^ 64) (hlayer : layerSize < 2 ^ 64) :
    readManifest (manifestText (helmManifest config layer configSize layerSize)) =
      some (helmManifest config layer configSize layerSize) := by
  have hn : ∀ rest, readU64 (decimal 2 ++ (str ",\"mediaType\":" ++ rest)) =
      some (2, str ",\"mediaType\":" ++ rest) := readU64_append (by decide) (by decide)
  have hc : ∀ rest, readDescriptor (descriptorText ⟨mediaTypeHelmConfig, config, configSize⟩ rest) =
      some (⟨mediaTypeHelmConfig, config, configSize⟩, rest) :=
    readDescriptor_text plain_helmConfig hconfig
  have hl : ∀ rest, readDescriptor (descriptorText ⟨mediaTypeHelmChart, layer, layerSize⟩ rest) =
      some (⟨mediaTypeHelmChart, layer, layerSize⟩, rest) :=
    readDescriptor_text plain_helmChart hlayer
  unfold readManifest manifestText helmManifest
  simp only [layersText, dropPrefix?_append, readString_append plain_manifest, Option.bind_eq_bind,
    Option.bind_some, hn, hc, hl, if_true]

theorem readPointer_text {p : TagPointer} (hm : p.mediaType ∈ manifestMediaTypes)
    (hs : p.size < 2 ^ 64) : readPointer (pointerText p) = some p := by
  have hn := readU64_append hs (t := str "\x7d") (by decide) []
  rw [List.append_nil] at hn
  have hplain := plain_mediaType (List.mem_cons_of_mem _ (List.mem_cons_of_mem _ hm))
  unfold readPointer pointerText
  simp only [dropPrefix?_append, readString_append hplain, readString_append (plain_digest p.digest),
    Option.bind_eq_bind, Option.bind_some, hn, Digest.parse_asStr, if_true]

end Reading

section Ascii

def isAscii (s : Str) : Bool := s.all fun c => c.toNat < 128

@[simp] theorem isAscii_append (s t : Str) : isAscii (s ++ t) = (isAscii s && isAscii t) :=
  List.all_append

theorem asBytes_of_isAscii {s : Str} (h : isAscii s = true) :
    asBytes s = s.map fun c => UInt8.ofNat c.toNat := by
  unfold asBytes
  induction s with
  | nil => rfl
  | cons c s ih =>
      simp only [isAscii, List.all_cons, Bool.and_eq_true, decide_eq_true_eq] at h
      rw [List.flatMap_cons, utf8EncodeChar_of_lt h.1, ih h.2]
      rfl

theorem fromAscii_asBytes {s : Str} (h : isAscii s = true) : fromAscii (asBytes s) = some s := by
  have hlt : ∀ c ∈ s, c.toNat < 128 := by
    intro c hc
    exact of_decide_eq_true (List.all_eq_true.mp h c hc)
  have hnat : ∀ c ∈ s, (UInt8.ofNat c.toNat).toNat = c.toNat := by
    intro c hc
    have hc := hlt c hc
    rw [UInt8.toNat_ofNat', Nat.mod_eq_of_lt (by omega)]
  have hall : (asBytes s).all (· < 128) = true := by
    rw [asBytes_of_isAscii h, List.all_map, List.all_eq_true]
    intro c hc
    have hn := hnat c hc
    have hl := hlt c hc
    rw [Function.comp, decide_eq_true_eq, UInt8.lt_iff_toNat_lt, hn]
    exact hl
  have hmap : (asBytes s).map (fun b => Char.ofNat b.toNat) = s := by
    rw [asBytes_of_isAscii h, List.map_map, List.map_congr_left (g := id), List.map_id]
    intro c hc
    rw [Function.comp, hnat c hc]
    exact Char.ofNat_toNat c
  rw [fromAscii, if_pos hall, hmap]

theorem isAscii_jsonString {s : Str} (h : ∀ c ∈ s, plainChar c = true) :
    isAscii (jsonString s) = true := by
  have hs : isAscii s = true := by
    apply List.all_eq_true.mpr
    intro c hc
    have hp := h c hc
    simp only [plainChar, Bool.and_eq_true] at hp
    exact hp.2
  rw [jsonString_of_plain h]
  simp only [isAscii, List.all_cons, List.all_append] at hs ⊢
  rw [hs]
  decide

theorem isAscii_decimal (n : ℕ) : isAscii (decimal n) = true := by
  apply List.all_eq_true.mpr
  intro c hc
  have hd := isDigit_decimal n c hc
  simp only [Char.isDigit, Bool.and_eq_true, decide_eq_true_eq, UInt32.le_iff_toNat_le] at hd
  exact decide_eq_true (Nat.lt_of_le_of_lt hd.2 (by decide))

theorem isAscii_descriptorText {d : OciDescriptor} (hm : ∀ c ∈ d.mediaType, plainChar c = true)
    (rest : Str) : isAscii (descriptorText d rest) = isAscii rest := by
  have h₁ : isAscii (str "\x7b\"mediaType\":") = true := by decide
  have h₂ : isAscii (str ",\"digest\":") = true := by decide
  have h₃ : isAscii (str ",\"size\":") = true := by decide
  have h₄ : isAscii (str "\x7d") = true := by decide
  simp [descriptorText, isAscii_jsonString hm, isAscii_jsonString (plain_digest d.digest),
    isAscii_decimal, h₁, h₂, h₃, h₄]

theorem isAscii_manifestText (config layer : Digest) (configSize layerSize : ℕ) :
    isAscii (manifestText (helmManifest config layer configSize layerSize)) = true := by
  have h₁ : isAscii (str "\x7b\"schemaVersion\":") = true := by decide
  have h₂ : isAscii (str ",\"mediaType\":") = true := by decide
  have h₃ : isAscii (str ",\"config\":") = true := by decide
  have h₄ : isAscii (str ",\"layers\":[") = true := by decide
  have h₅ : isAscii (str "]\x7d") = true := by decide
  have hc : ∀ rest, isAscii (descriptorText ⟨mediaTypeHelmConfig, config, configSize⟩ rest) =
      isAscii rest := isAscii_descriptorText plain_helmConfig
  have hl : ∀ rest, isAscii (descriptorText ⟨mediaTypeHelmChart, layer, layerSize⟩ rest) =
      isAscii rest := isAscii_descriptorText plain_helmChart
  unfold manifestText helmManifest
  simp [layersText, isAscii_jsonString plain_manifest, isAscii_decimal, hc, hl, h₁, h₂, h₃, h₄, h₅]

theorem isAscii_pointerText {p : TagPointer} (hm : p.mediaType ∈ manifestMediaTypes) :
    isAscii (pointerText p) = true := by
  have h₁ : isAscii (str "\x7b\"digest\":") = true := by decide
  have h₂ : isAscii (str ",\"mediaType\":") = true := by decide
  have h₃ : isAscii (str ",\"size\":") = true := by decide
  have h₄ : isAscii (str "\x7d") = true := by decide
  have hplain := plain_mediaType (List.mem_cons_of_mem _ (List.mem_cons_of_mem _ hm))
  simp [pointerText, isAscii_jsonString hplain, isAscii_jsonString (plain_digest p.digest),
    isAscii_decimal, h₁, h₂, h₃, h₄]

theorem compactJson_laws (value : Bytes → Option Json) : JsonLaws (compactJson value) where
  manifest config layer configSize layerSize hconfig hlayer := by
    simp only [compactJson, encodeManifest, fromAscii_asBytes (isAscii_manifestText ..),
      Option.bind_eq_bind, Option.bind_some, readManifest_text config layer hconfig hlayer]
  pointer p hm hs := by
    simp only [compactJson, encodePointer, fromAscii_asBytes (isAscii_pointerText hm),
      Option.bind_eq_bind, Option.bind_some, readPointer_text hm hs]

end Ascii

section Lengths

theorem length_asBytes {s : Str} (h : isAscii s = true) : (asBytes s).length = s.length := by
  rw [asBytes_of_isAscii h, List.length_map]

theorem length_jsonString {s : Str} (h : ∀ c ∈ s, plainChar c = true) :
    (jsonString s).length = s.length + 2 := by
  simp [jsonString_of_plain h]

theorem length_digest (d : Digest) : d.asStr.length = 71 := by
  obtain ⟨hexPart, hx, hl, hd⟩ := d.asStr_eq
  have hlt : ∀ c ∈ hexPart, c.toNat < 128 := by
    intro c hc
    exact toNat_lt_of_isLowerHex (List.all_eq_true.mp hx c hc)
  have hp : (str "sha256:").length = 7 := by decide
  rw [byteLen_eq_length hlt] at hl
  rw [hd, List.length_append, hp, hl]

theorem length_descriptorText {d : OciDescriptor} (hm : ∀ c ∈ d.mediaType, plainChar c = true)
    (rest : Str) : (descriptorText d rest).length =
      d.mediaType.length + (decimal d.size).length + 107 + rest.length := by
  have h₁ : (str "\x7b\"mediaType\":").length = 13 := by decide
  have h₂ : (str ",\"digest\":").length = 10 := by decide
  have h₃ : (str ",\"size\":").length = 8 := by decide
  have h₄ : (str "\x7d").length = 1 := by decide
  simp only [descriptorText, List.length_append, length_jsonString hm,
    length_jsonString (plain_digest d.digest), length_digest, h₁, h₂, h₃, h₄]
  omega

theorem length_decimal_le_iff {n k : ℕ} (hk : 0 < k) : (decimal n).length ≤ k ↔ n < 10 ^ k := by
  rw [decimal, Nat.toList_repr]
  exact Nat.length_toDigits_le_iff (by decide) hk

theorem length_decimal_pos (n : ℕ) : 0 < (decimal n).length := by
  rw [decimal, Nat.toList_repr]
  exact Nat.length_toDigits_pos

/-- How long the manifest of a chart is. -/
def manifestLength (configSize layerSize : ℕ) : ℕ :=
  403 + (decimal configSize).length + (decimal layerSize).length

theorem length_encodeManifest (config layer : Digest) (configSize layerSize : ℕ) :
    (encodeManifest (helmManifest config layer configSize layerSize)).length =
      manifestLength configSize layerSize := by
  have h₁ : (str "\x7b\"schemaVersion\":").length = 17 := by decide
  have h₂ : (str ",\"mediaType\":").length = 13 := by decide
  have h₃ : (str ",\"config\":").length = 10 := by decide
  have h₄ : (str ",\"layers\":[").length = 11 := by decide
  have h₅ : (str "]\x7d").length = 2 := by decide
  have hc := length_descriptorText (d := ⟨mediaTypeHelmConfig, config, configSize⟩) plain_helmConfig
  have hl := length_descriptorText (d := ⟨mediaTypeHelmChart, layer, layerSize⟩) plain_helmChart
  have hd : (decimal 2).length = 1 := by decide
  have hlm : mediaTypeManifest.length = 42 := by decide
  have hlc : mediaTypeHelmConfig.length = 40 := by decide
  have hll : mediaTypeHelmChart.length = 51 := by decide
  rw [encodeManifest, length_asBytes (isAscii_manifestText ..)]
  simp only [manifestText, helmManifest, layersText, List.length_append, length_jsonString plain_manifest,
    hc, hl, h₁, h₂, h₃, h₄, h₅, hd, hlm, hlc, hll, manifestLength]
  omega

/-- The sizes in a manifest have up to twenty digits. -/
theorem manifestLength_bounds {configSize layerSize : ℕ} (hconfig : configSize < 2 ^ 64)
    (hlayer : layerSize < 2 ^ 64) :
    405 ≤ manifestLength configSize layerSize ∧ manifestLength configSize layerSize ≤ 443 := by
  have digits : ∀ n < 2 ^ 64, 0 < (decimal n).length ∧ (decimal n).length ≤ 20 := fun n hn =>
    ⟨length_decimal_pos n, (length_decimal_le_iff (by decide)).mpr (Nat.lt_trans hn (by decide))⟩
  have hc := digits configSize hconfig
  have hl := digits layerSize hlayer
  unfold manifestLength
  omega

/-- A pointer to a manifest of any length that a `u64` holds is short. -/
theorem length_encodePointer {p : TagPointer} (hm : p.mediaType ∈ manifestMediaTypes)
    (hs : p.size < 2 ^ 64) : (encodePointer p).length ≤ 250 := by
  have h₁ : (str "\x7b\"digest\":").length = 10 := by decide
  have h₂ : (str ",\"mediaType\":").length = 13 := by decide
  have h₃ : (str ",\"size\":").length = 8 := by decide
  have h₄ : (str "\x7d").length = 1 := by decide
  have hplain := plain_mediaType (List.mem_cons_of_mem _ (List.mem_cons_of_mem _ hm))
  have hl : ∀ m ∈ manifestMediaTypes, m.length ≤ 57 := by decide
  have hlm := hl _ hm
  have hn : (decimal p.size).length ≤ 20 :=
    (length_decimal_le_iff (by decide)).mpr (Nat.lt_trans hs (by decide))
  rw [encodePointer, length_asBytes (isAscii_pointerText hm)]
  simp only [pointerText, List.length_append, length_jsonString hplain,
    length_jsonString (plain_digest p.digest), length_digest, h₁, h₂, h₃, h₄]
  omega

end Lengths

end Helmoci.JsonDocuments
