import Helmoci.ChartIndex
import Helmoci.OciPaths
import Helmoci.PlainUrls

/-!
# Listed versions as tags

The tag list hands out the versions of an index as they are, the route accepts
references of the tag grammar, and the lookup compares a reference with the
versions of the index. A Semantic Version is a tag unless it carries build metadata:
the plus sign is in no tag, and Helm's spelling with an underscore is looked up as
it is written.
-/
namespace Helmoci.ListedTags
open RustText SegmentedText PercentEscapes UrlInterface NameResolver ChartIndex OciPaths OciDigest
  PlainUrls

def isNumericIdentifier (s : Str) : Bool :=
  !s.isEmpty && s.all Char.isDigit && (s.length == 1 || !(['0'].isPrefixOf s))

def isBuildIdentifier (s : Str) : Bool := !s.isEmpty && s.all fun c => c.isAlphanum || c == '-'

def isPrereleaseIdentifier (s : Str) : Bool :=
  isBuildIdentifier s && (!s.all Char.isDigit || isNumericIdentifier s)

def isVersionCore (s : Str) : Bool :=
  let parts := s.splitOn '.'
  parts.length == 3 && parts.all isNumericIdentifier

/-- The text in front of the first `c`, and the one behind it where there is a `c`. -/
def splitOptional (c : Char) (s : Str) : Str × Option Str :=
  match splitOnce c s with
  | some (a, b) => (a, some b)
  | none => (s, none)

/-- Semantic Versioning 2.0.0: `core[-prerelease][+build]`. -/
def isSemVer (s : Str) : Bool :=
  let (version, build) := splitOptional '+' s
  let (core, prerelease) := splitOptional '-' version
  isVersionCore core && prerelease.all (fun p => (p.splitOn '.').all isPrereleaseIdentifier) &&
    build.all fun b => (b.splitOn '.').all isBuildIdentifier

/-- Helm's spelling of a version in OCI references. -/
def ociSpelling (v : Str) : Str := v.map fun c => if c = '+' then '_' else c

def semVerChar (c : Char) : Bool := c.isAlphanum || c == '.' || c == '-' || c == '+'

theorem splitOptional_eq (c : Char) (s : Str) :
    s = (splitOptional c s).1 ++ (splitOptional c s).2.elim [] (c :: ·) := by
  unfold splitOptional
  split
  · rename_i h
    exact splitOnce_eq_some h
  · simp

/-- Text between dots whose parts have only version characters has only such characters. -/
theorem semVerChar_of_parts {p : Str → Bool} {s : Str}
    (hp : ∀ w, p w = true → ∀ c ∈ w, semVerChar c = true) (h : (s.splitOn '.').all p = true) :
    ∀ c ∈ s, semVerChar c = true := by
  intro c hc
  rcases mem_splitOn (x := '.') hc with rfl | ⟨w, hw, hc⟩
  · decide
  · exact hp w (List.all_eq_true.mp h w hw) c hc

theorem semVerChar_of_isBuildIdentifier (w : Str) (h : isBuildIdentifier w = true) :
    ∀ c ∈ w, semVerChar c = true := by
  intro c hc
  simp only [isBuildIdentifier, Bool.and_eq_true, List.all_eq_true, Bool.or_eq_true] at h
  rcases h.2 c hc with h | h <;> simp [semVerChar, h]

theorem semVerChar_of_isNumericIdentifier (w : Str) (h : isNumericIdentifier w = true) :
    ∀ c ∈ w, semVerChar c = true := by
  intro c hc
  simp only [isNumericIdentifier, Bool.and_eq_true, List.all_eq_true] at h
  simp [semVerChar, Char.isAlphanum, h.1.2 c hc]

theorem isVersionCore_head {s : Str} (h : isVersionCore s = true) :
    ∃ d t, s = d :: t ∧ d.isDigit = true := by
  simp only [isVersionCore, Bool.and_eq_true, beq_iff_eq, List.all_eq_true] at h
  cases s with
  | nil => simp at h
  | cons d t =>
      refine ⟨d, t, rfl, ?_⟩
      obtain ⟨w, rest, hw⟩ : ∃ w rest, (d :: t).splitOn '.' = w :: rest :=
        List.exists_cons_of_ne_nil (List.splitOn_ne_nil _ _)
      have hn := h.2 w (by simp [hw])
      have hj : ['.'].intercalate ((d :: t).splitOn '.') = d :: t := List.intercalate_splitOn '.'
      rw [hw] at hj
      simp only [isNumericIdentifier, Bool.and_eq_true, List.all_eq_true] at hn
      obtain ⟨e, w', rfl⟩ := List.exists_cons_of_ne_nil (l := w) (by simpa using hn.1.1)
      have hde : e = d := by
        cases rest with
        | nil => simpa using (List.cons.inj hj).1
        | cons v rest => simpa [List.intercalate_cons_cons] using (List.cons.inj hj).1
      exact hde ▸ hn.1.2 e (by simp)

theorem semVerChar_of_splitOptional {c : Char} {s : Str} (hc : semVerChar c = true)
    (h₁ : ∀ d ∈ (splitOptional c s).1, semVerChar d = true)
    (h₂ : ∀ b ∈ (splitOptional c s).2, ∀ d ∈ b, semVerChar d = true) :
    ∀ d ∈ s, semVerChar d = true := by
  rw [splitOptional_eq c s]
  intro d hd
  rcases List.mem_append.mp hd with hd | hd
  · exact h₁ d hd
  · cases hb : (splitOptional c s).2 with
    | none => simp [hb] at hd
    | some b =>
        simp only [hb, Option.elim_some, List.mem_cons] at hd
        rcases hd with rfl | hd
        · exact hc
        · exact h₂ b hb d hd

/-- A version begins with a digit and has only version characters. -/
theorem isSemVer_chars {s : Str} (h : isSemVer s = true) :
    (∃ d t, s = d :: t ∧ d.isDigit = true) ∧ ∀ c ∈ s, semVerChar c = true := by
  simp only [isSemVer, Bool.and_eq_true, Option.all_eq_true] at h
  obtain ⟨⟨hcore, hpre⟩, hbuild⟩ := h
  have hv := splitOptional_eq '-' (splitOptional '+' s).1
  constructor
  · obtain ⟨d, t, hd, hdig⟩ := isVersionCore_head hcore
    have hs := splitOptional_eq '+' s
    rw [hv, hd, List.cons_append, List.cons_append] at hs
    exact ⟨d, _, hs, hdig⟩
  · have hcs : ∀ c ∈ (splitOptional '-' (splitOptional '+' s).1).1, semVerChar c = true := by
      simp only [isVersionCore, Bool.and_eq_true] at hcore
      exact semVerChar_of_parts semVerChar_of_isNumericIdentifier hcore.2
    refine semVerChar_of_splitOptional (c := '+') (by decide) ?_ ?_
    · refine semVerChar_of_splitOptional (c := '-') (by decide) hcs ?_
      intro p hp
      refine semVerChar_of_parts (p := isPrereleaseIdentifier) ?_ (hpre p hp)
      intro w hw
      simp only [isPrereleaseIdentifier, Bool.and_eq_true] at hw
      exact semVerChar_of_isBuildIdentifier w hw.1
    · intro b hb
      exact semVerChar_of_parts semVerChar_of_isBuildIdentifier (hbuild b hb)

/-- A text of tag characters with a digit first is a valid reference. -/
theorem isValidManifestReference_of_chars {d : Char} {t : Str} (hd : d.isDigit = true)
    (hc : ∀ c ∈ d :: t, c.isAlphanum = true ∨ c = '_' ∨ c = '.' ∨ c = '-')
    (hl : (d :: t).length ≤ 128) : isValidManifestReference (d :: t) = true := by
  have hb : byteLen (d :: t) = (d :: t).length := by
    refine byteLen_eq_length ?_
    intro c hm
    rcases hc c hm with h | rfl | rfl | rfl
    · exact toNat_lt_of_isAlphanum h
    · decide
    · decide
    · decide
  have ht : ∀ c ∈ t, (c.isAlphanum || c == '_' || c == '.' || c == '-') = true := by
    intro c hm
    have := hc c (List.mem_cons_of_mem _ hm)
    simp only [Bool.or_eq_true, beq_iff_eq]
    tauto
  simp only [isValidManifestReference, hb, Bool.or_eq_true, Bool.and_eq_true, List.all_eq_true,
    decide_eq_true_eq]
  exact Or.inr ⟨⟨Or.inl (by simp [Char.isAlphanum, hd]), hl⟩, by simpa using ht⟩

theorem plus_not_mem_of_isValidManifestReference {r : Str}
    (h : isValidManifestReference r = true) : '+' ∉ r := by
  intro hm
  simp only [isValidManifestReference, Bool.or_eq_true] at h
  rcases h with h | h
  · obtain ⟨d, hd⟩ := Option.isSome_iff_exists.mp h
    obtain ⟨hex, hx, -, he⟩ := d.asStr_eq
    rw [Digest.parse_eq_some hd, he] at hm
    rcases List.mem_append.mp hm with hm | hm
    · exact absurd hm (by decide)
    · exact absurd (List.all_eq_true.mp hx _ hm) (by decide)
  · cases r with
    | nil => simp at hm
    | cons c s =>
        simp only [Bool.and_eq_true, List.all_eq_true] at h
        rcases List.mem_cons.mp hm with rfl | hm
        · exact absurd h.1.1 (by decide)
        · exact absurd (h.2 _ hm) (by decide)

theorem ociSpelling_eq_self {v : Str} (h : '+' ∉ v) : ociSpelling v = v := by
  refine (List.map_congr_left ?_).trans (List.map_id v)
  intro c hc
  refine if_neg ?_
  rintro rfl
  exact h hc

/-- The spelling of a version is a tag whatever the version is. -/
theorem isValidManifestReference_ociSpelling {v : Str} (hv : isSemVer v = true)
    (hl : v.length ≤ 128) : isValidManifestReference (ociSpelling v) = true := by
  obtain ⟨⟨d, t, rfl, hd⟩, hc⟩ := isSemVer_chars hv
  have hd' : d ≠ '+' := by
    rintro rfl
    exact absurd hd (by decide)
  have hs : ociSpelling (d :: t) = d :: ociSpelling t := by simp [ociSpelling, hd']
  rw [hs]
  refine isValidManifestReference_of_chars hd ?_ (by simpa [ociSpelling] using hl)
  rw [← hs]
  intro c hm
  obtain ⟨e, he, rfl⟩ := List.mem_map.mp hm
  have := hc e he
  simp only [semVerChar, Bool.or_eq_true, beq_iff_eq] at this
  split
  · exact Or.inr (Or.inl rfl)
  · tauto

/-- Every escaped form of the reference is parsed as a reference of the name. -/
def Routed (decode : PathDecoder) (name t : Str) : Prop :=
  ∀ e, Escapes e t →
    parseOciPath decode (str "/v2/" ++ (name ++ (str "/manifests/" ++ e))) = .manifest name t

/-- One of the two spellings of the version is parsed as a reference of the name and
found in the index. -/
def Pullable (decode : PathDecoder) (lib : UrlCrate) (yaml : IndexParser) (indexText : Str)
    (repo : IndexRepo) (chartName name v : Str) : Prop :=
  ∃ t, (t = v ∨ t = ociSpelling v) ∧ Routed decode name t ∧
    resolveChartUrl lib yaml indexText repo chartName t ≠
      .error (versionNotFound lib repo chartName t)

section Pull
variable {decode : PathDecoder} (hd : DecodesEscapes decode) {lib : UrlCrate}
  {aliases : AliasTable lib} {name : Str} {res : Resolved}
  (hres : resolveName lib name aliases.map = some res)

include hd hres

/-- The parser takes the leading slashes of a name for its own. -/
theorem parseOciPath_name {e t : Str} (he : Escapes e t) :
    name.dropWhile (· == '/') ≠ [] ∧
      parseOciPath decode (str "/v2/" ++ (name ++ (str "/manifests/" ++ e))) =
        parseRest (name.dropWhile (· == '/') ++ (str "/manifests/" ++ t)) := by
  obtain ⟨hp, hs⟩ := percent_not_mem_of_resolveName hres
  have hn : name.dropWhile (· == '/') ≠ [] := by
    intro h
    have he := nonemptySegments_dropWhile name
    rw [h] at he
    exact hs he.symm
  have hesc : Escapes (str "/v2/" ++ (name ++ (str "/manifests/" ++ e)))
      (str "/v2/" ++ (name ++ (str "/manifests/" ++ t))) :=
    .append (.refl (by decide)) (.append (.refl hp) (.append (.refl (by decide)) he))
  refine ⟨hn, ?_⟩
  rw [parseOciPath_of_escapes hd hesc, List.dropWhile_append]
  simp [hn]

/-- A reference is routed back to the name exactly when it is a valid one and the
name has no slash in front. -/
theorem routed_iff {t : Str} (hs : '/' ∉ t) (hp : '%' ∉ t) :
    Routed decode name t ↔ name.head? ≠ some '/' ∧ isValidManifestReference t = true := by
  constructor
  · intro h
    obtain ⟨hn, hr⟩ := parseOciPath_name hd hres (.refl hp)
    have hm := hr.symm.trans (h t (.refl hp))
    have hvalid := isValid_of_parseRest hs hm
    refine ⟨?_, hvalid⟩
    rw [parseRest_manifest hn hvalid] at hm
    have he := (OciRoute.manifest.inj hm).1
    intro hh
    obtain ⟨n, rfl⟩ : ∃ n, name = '/' :: n := by
      cases name with
      | nil => contradiction
      | cons c n => exact ⟨n, by rw [Option.some.inj hh]⟩
    rw [List.dropWhile_cons_of_pos (by decide)] at he
    have hl := List.length_dropWhile_le (· == '/') n
    rw [he, List.length_cons] at hl
    omega
  · rintro ⟨hh, hvalid⟩ e he
    obtain ⟨hn, hr⟩ := parseOciPath_name hd hres he
    have hself : name.dropWhile (· == '/') = name := by
      cases name with
      | nil => rfl
      | cons c n => exact List.dropWhile_cons_of_neg (by simpa using hh)
    rw [hr, parseRest_manifest hn hvalid, hself]

/-- A listed version is pullable exactly when the name is written without a leading
slash and the version has no plus sign or its spelling is a version of its own. -/
theorem pullable_iff {yaml : IndexParser} {text chartName v : Str} {repo : IndexRepo}
    {versions : List Str} (hlist : listVersions lib yaml text repo chartName = .ok versions)
    (hv : v ∈ versions) (hsem : isSemVer v = true) (hlen : v.length ≤ 128) :
    Pullable decode lib yaml text repo chartName name v ↔
      name.head? ≠ some '/' ∧ ('+' ∉ v ∨ ociSpelling v ∈ versions) := by
  have hfree : ∀ c, semVerChar c = false → c ∉ v := by
    intro c hc hm
    rw [(isSemVer_chars hsem).2 c hm] at hc
    contradiction
  have hspell : ∀ c, semVerChar c = false → c ≠ '_' → c ∉ ociSpelling v := by
    intro c hc hu hm
    obtain ⟨d, hdm, hde⟩ := List.mem_map.mp hm
    split at hde
    · exact hu hde.symm
    · exact hfree c hc (hde ▸ hdm)
  have routed : ∀ t, t = v ∨ t = ociSpelling v →
      (Routed decode name t ↔ name.head? ≠ some '/' ∧ isValidManifestReference t = true) := by
    intro t ht
    refine routed_iff hd hres (t := t) ?_ ?_
    · rcases ht with rfl | rfl
      · exact hfree _ (by decide)
      · exact hspell _ (by decide) (by decide)
    · rcases ht with rfl | rfl
      · exact hfree _ (by decide)
      · exact hspell _ (by decide) (by decide)
  have listed : ∀ t, resolveChartUrl lib yaml text repo chartName t ≠
      .error (versionNotFound lib repo chartName t) ↔ t ∈ versions := fun t =>
    (resolveChartUrl_versionNotFound_iff hlist).not_left
  constructor
  · rintro ⟨t, ht, hroute, hfound⟩
    obtain ⟨hhead, hvalid⟩ := (routed t ht).mp hroute
    refine ⟨hhead, ?_⟩
    rcases ht with rfl | rfl
    · exact Or.inl (plus_not_mem_of_isValidManifestReference hvalid)
    · exact Or.inr ((listed _).mp hfound)
  · rintro ⟨hhead, hor⟩
    have hin : ociSpelling v ∈ versions := by
      rcases hor with h | h
      · rwa [ociSpelling_eq_self h]
      · exact h
    exact ⟨ociSpelling v, Or.inr rfl,
      (routed _ (Or.inr rfl)).mpr ⟨hhead, isValidManifestReference_ociSpelling hsem hlen⟩,
      (listed _).mpr hin⟩

end Pull

/-- An index that lists a release and a build of another one. -/
def buildIndex : Str := str ("entries:\n  demo:\n" ++
  "    - {name: demo, version: 1.1.0+build, urls: [y.tgz]}\n" ++
  "    - {name: demo, version: 1.0.0, urls: [z.tgz]}\n")

def buildIndexParser : IndexParser := fun text =>
  if text = buildIndex then
    some ⟨some (collect [(str "demo", [⟨some (str "1.1.0+build"), some [str "y.tgz"]⟩,
      ⟨some (str "1.0.0"), some [str "z.tgz"]⟩])])⟩
  else none

def buildRepo : IndexRepo := ⟨str "https://charts.example.com", .clientSupplied⟩

theorem pullable_release :
    Pullable asciiDecoder plainUrls buildIndexParser buildIndex buildRepo (str "demo")
        (str "charts.example.com/demo") (str "1.0.0") ↔
      (str "charts.example.com/demo").head? ≠ some '/' ∧
        ('+' ∉ str "1.0.0" ∨ ociSpelling (str "1.0.0") ∈ [str "1.1.0+build", str "1.0.0"]) := by
  have hres : resolveName plainUrls (str "charts.example.com/demo")
      (AliasTable.empty plainUrls).map = some (.classic ⟨str "https://charts.example.com",
        str "demo", str "charts.example.com/demo", false, .hostPath⟩) := by decide
  exact pullable_iff asciiDecoder_decodes hres (by decide +kernel) (by decide) (by decide)
    (by decide)

/-- A version with build metadata is listed, and no spelling of it can be pulled. -/
theorem build_is_not_pullable :
    listVersions plainUrls buildIndexParser buildIndex buildRepo (str "demo") =
        .ok [str "1.1.0+build", str "1.0.0"] ∧
      isSemVer (str "1.1.0+build") = true ∧
      resolveName plainUrls (str "charts.example.com/demo") (AliasTable.empty plainUrls).map =
        some (.classic ⟨str "https://charts.example.com", str "demo",
          str "charts.example.com/demo", false, .hostPath⟩) ∧
      ¬ Pullable asciiDecoder plainUrls buildIndexParser buildIndex buildRepo (str "demo")
        (str "charts.example.com/demo") (str "1.1.0+build") := by
  refine ⟨by decide +kernel, by decide, by decide, ?_⟩
  rintro ⟨t, ht, hroute, hfound⟩
  rcases ht with rfl | rfl
  · exact absurd (hroute (str "1.1.0+build") (.refl (by decide))) (by decide)
  · exact hfound (by decide +kernel)

end Helmoci.ListedTags
