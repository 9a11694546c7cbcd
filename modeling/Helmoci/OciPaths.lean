import Helmoci.NameGrammar
import Helmoci.OciDigest
import Helmoci.PercentEscapes

/-!
# OCI Distribution paths

`parse_oci_path` and the printers of the three kinds of path. Percent decoding is
the library's, taken as a parameter; what is relied on is that it undoes every
escaped form of a text. The parser tries the markers in a fixed order and commits
to the first one that occurs anywhere in the path, so a repository name that has a
marker word behind its first segment hides the blob and tag routes.
-/
namespace Helmoci.OciPaths
open RustText SegmentedText PercentEscapes NameGrammar OciDigest

inductive OciRoute where
  | api
  | manifest (name reference : Str)
  | blob (name digest : Str)
  | tags (name : Str)
  | notFound
deriving DecidableEq, Repr

def isValidManifestReference (reference : Str) : Bool :=
  (Digest.parse reference).isSome ||
    match reference with
    | [] => false
    | c :: s => (c.isAlphanum || c == '_') && byteLen reference ≤ 128 &&
        s.all fun c => c.isAlphanum || c == '_' || c == '.' || c == '-'

/-- `percent_decode_str` followed by `decode_utf8`. -/
abbrev PathDecoder := Str → Option Str

def DecodesEscapes (decode : PathDecoder) : Prop :=
  ∀ e s : Str, Escapes e s → decode e = some s

/-- `parse_oci_path` behind the prefix and its slashes. -/
def parseRest (rest : Str) : OciRoute :=
  match splitLast? (str "/manifests/") rest with
  | some (name, reference) =>
    if name.isEmpty || !isValidManifestReference reference then .notFound
    else .manifest name reference
  | none =>
    match splitLast? (str "/blobs/") rest with
    | some (name, digest) =>
      if name.isEmpty || digest.isEmpty || digest.contains '/' then .notFound
      else .blob name digest
    | none =>
      match rest.dropSuffix? (str "/tags/list") with
      | some name =>
        let name := name.rdropWhile (· == '/')
        if name.isEmpty then .notFound else .tags name
      | none => .notFound

def parseOciPath (decode : PathDecoder) (pathname : Str) : OciRoute :=
  match decode pathname with
  | none => .notFound
  | some path =>
    match path.dropPrefix? (str "/v2") with
    | none => .notFound
    | some rest =>
      if !rest.isEmpty && !(['/'].isPrefixOf rest) then .notFound
      else
        let rest := rest.dropWhile (· == '/')
        if rest.isEmpty then .api else parseRest rest

/-- A path under `/v2/` is parsed behind all of its leading slashes. -/
theorem parseOciPath_of_escapes {decode : PathDecoder} (hd : DecodesEscapes decode)
    {e rest : Str} (he : Escapes e (str "/v2/" ++ rest)) :
    parseOciPath decode e =
      if (rest.dropWhile (· == '/')).isEmpty then .api
      else parseRest (rest.dropWhile (· == '/')) := by
  have hp : (str "/v2/" ++ rest).dropPrefix? (str "/v2") = some ('/' :: rest) :=
    List.dropPrefix?_append_of_beq ('/' :: rest) (by decide : str "/v2" == str "/v2")
  have hs : ('/' :: rest).dropWhile (· == '/') = rest.dropWhile (· == '/') := by simp
  have hf : (!('/' :: rest).isEmpty && !(['/'].isPrefixOf ('/' :: rest))) = false := by simp
  simp only [parseOciPath, hd _ _ he, hp, hf, hs, Bool.false_eq_true, if_false]

theorem slash_not_mem_of_isValidManifestReference {r : Str}
    (h : isValidManifestReference r = true) : '/' ∉ r := by
  simp only [isValidManifestReference, Bool.or_eq_true] at h
  rcases h with h | h
  · obtain ⟨d, hd⟩ := Option.isSome_iff_exists.mp h
    rw [Digest.parse_eq_some hd]
    exact d.slash_not_mem
  · cases r with
    | nil => simp
    | cons c s =>
        simp only [Bool.and_eq_true, List.all_eq_true] at h
        intro hm
        rcases List.mem_cons.mp hm with rfl | hm
        · exact absurd h.1.1 (by decide)
        · exact absurd (h.2 _ hm) (by decide)

section Names
variable {segments : List Str}

def manifestPath (name reference : Str) : Str :=
  str "/v2/" ++ (name ++ (str "/manifests/" ++ reference))

def blobPath (name digest : Str) : Str :=
  str "/v2/" ++ (name ++ (str "/blobs/" ++ digest))

def tagsPath (name : Str) : Str := str "/v2/" ++ (name ++ str "/tags/list")

/-- A word printed behind the name is interior, and so is every segment but the first. -/
theorem interior_print (hne : segments ≠ []) (hv : ∀ s ∈ segments, isValidChartName s = true)
    {w d : Str} (hw : '/' ∉ w) (hd : '/' ∉ d) :
    SegmentedText.interior '/' (repositoryName segments ++ marker '/' w ++ d) = segments.tail ++ [w] := by
  obtain ⟨s, t, rfl⟩ := List.exists_cons_of_ne_nil hne
  rw [SegmentedText.interior, splitOn_marker hw, splitOn_repositoryName hne hv, List.splitOn_eq_singleton hd]
  simp [List.dropLast_append_of_ne_nil]

/-- Where another marker word is found, a slash is left behind it. -/
theorem slash_mem_of_splitLast? {n w v a b d : Str} (hw : '/' ∉ w) (hv : '/' ∉ v) (hd : '/' ∉ d)
    (hne : w ≠ v) (h : splitLast? (marker '/' v) (n ++ marker '/' w ++ d) = some (a, b)) :
    '/' ∈ b := by
  by_contra hb
  have hs := congrArg (List.splitOn '/') (splitLast?_sound h)
  rw [splitOn_marker hw, splitOn_marker hv, List.splitOn_eq_singleton hd,
    List.splitOn_eq_singleton hb] at hs
  have ht := List.append_inj_right' hs (by simp)
  exact hne (List.cons.inj ht).1

end Names

/-- A valid reference has no slash, so the last marker is the one in front of it. -/
theorem splitLast?_manifests {name r : Str} (hr : '/' ∉ r) :
    splitLast? (str "/manifests/") (name ++ (str "/manifests/" ++ r)) = some (name, r) := by
  have hm : str "/manifests/" = marker '/' (str "manifests") := by decide
  have hl := splitLast?_marker (a := name) (by decide : '/' ∉ str "manifests") hr
  rw [← hm, List.append_assoc] at hl
  exact hl

theorem parseRest_manifest {name r : Str} (hn : name ≠ [])
    (hr : isValidManifestReference r = true) :
    parseRest (name ++ (str "/manifests/" ++ r)) = .manifest name r := by
  unfold parseRest
  rw [splitLast?_manifests (slash_not_mem_of_isValidManifestReference hr)]
  simp [hn, hr]

theorem isValid_of_parseRest {name r n : Str} (hr : '/' ∉ r)
    (h : parseRest (name ++ (str "/manifests/" ++ r)) = .manifest n r) :
    isValidManifestReference r = true := by
  unfold parseRest at h
  rw [splitLast?_manifests hr] at h
  cases hv : isValidManifestReference r with
  | true => rfl
  | false => simp [hv] at h

/-- A reference or digest with a slash in it is refused, so nothing is parsed. -/
theorem parseRest_of_slash {rest name tail : Str}
    (hl : splitLast? (str "/manifests/") rest = some (name, tail) ∨
      (splitLast? (str "/manifests/") rest = none ∧
        splitLast? (str "/blobs/") rest = some (name, tail)))
    (ht : '/' ∈ tail) : parseRest rest = .notFound := by
  rcases hl with hl | ⟨hl, hb⟩
  · have hr : isValidManifestReference tail = false := by
      rw [← Bool.not_eq_true]
      intro h
      exact slash_not_mem_of_isValidManifestReference h ht
    unfold parseRest
    rw [hl]
    simp [hr]
  · unfold parseRest
    rw [hl, hb]
    simp [ht]

section RoundTrip
variable {segments : List Str} (hne : segments ≠ [])
  (hv : ∀ s ∈ segments, isValidChartName s = true)

include hne hv

theorem parseRest_blob (d : Digest) :
    parseRest (repositoryName segments ++ (str "/blobs/" ++ d.asStr)) =
      if str "manifests" ∈ segments.tail then .notFound
      else .blob (repositoryName segments) d.asStr := by
  rw [← List.append_assoc (repositoryName segments)]
  have hm : str "/manifests/" = marker '/' (str "manifests") := by decide
  have hb : str "/blobs/" = marker '/' (str "blobs") := by decide
  have hw : '/' ∉ str "manifests" := by decide
  have hi := interior_print hne hv (by decide : '/' ∉ str "blobs") d.slash_not_mem
  rw [← hb] at hi
  split
  · rename_i h
    have hin : str "manifests" ∈
        SegmentedText.interior '/' (repositoryName segments ++ str "/blobs/" ++ d.asStr) := by
      rw [hi]
      exact List.mem_append_left _ h
    obtain ⟨a, b, hl⟩ := splitLast?_marker_ne_none hw hin
    rw [← hm] at hl
    refine parseRest_of_slash (Or.inl hl) ?_
    rw [hm, hb] at hl
    exact slash_mem_of_splitLast? (by decide) hw d.slash_not_mem (by decide) hl
  · rename_i h
    have hin : str "manifests" ∉
        SegmentedText.interior '/' (repositoryName segments ++ str "/blobs/" ++ d.asStr) := by
      rw [hi, List.mem_append, not_or]
      exact ⟨h, by decide⟩
    have hl := splitLast?_marker_eq_none hw hin
    have hl' := splitLast?_marker (a := repositoryName segments)
      (by decide : '/' ∉ str "blobs") d.slash_not_mem
    have hc : d.asStr.contains '/' = false := by
      rw [← Bool.not_eq_true, List.contains_iff_mem]
      exact d.slash_not_mem
    have hn : (repositoryName segments).isEmpty = false := by
      simpa using repositoryName_ne_nil hne hv
    have ha : d.asStr.isEmpty = false := by simpa using d.asStr_ne_nil
    rw [← hb] at hl'
    rw [← hm] at hl
    unfold parseRest
    rw [hl, hl']
    simp only [hc, hn, ha, Bool.or_false, Bool.false_eq_true, if_false]

theorem parseRest_tags :
    parseRest (repositoryName segments ++ str "/tags/list") =
      if str "manifests" ∈ segments.tail ∨ str "blobs" ∈ segments.tail then .notFound
      else .tags (repositoryName segments) := by
  have hm : str "/manifests/" = marker '/' (str "manifests") := by decide
  have hb : str "/blobs/" = marker '/' (str "blobs") := by decide
  have ht : repositoryName segments ++ str "/tags/list" =
      repositoryName segments ++ marker '/' (str "tags") ++ str "list" := by
    rw [List.append_assoc]
    congr 1
  have hd : '/' ∉ str "list" := by decide
  have hi := interior_print hne hv (by decide : '/' ∉ str "tags") hd
  rw [← ht] at hi
  have found : ∀ w : Str, '/' ∉ w → w ∈ segments.tail →
      ∃ a b, splitLast? (marker '/' w) (repositoryName segments ++ str "/tags/list") =
        some (a, b) := by
    intro w hw h
    refine splitLast?_marker_ne_none hw ?_
    rw [hi]
    exact List.mem_append_left _ h
  have missing : ∀ w : Str, '/' ∉ w → w ≠ str "tags" → w ∉ segments.tail →
      splitLast? (marker '/' w) (repositoryName segments ++ str "/tags/list") = none := by
    intro w hw hn h
    refine splitLast?_marker_eq_none hw ?_
    rw [hi, List.mem_append, not_or]
    exact ⟨h, by simpa using hn⟩
  by_cases h₁ : str "manifests" ∈ segments.tail
  · obtain ⟨a, b, hl⟩ := found _ (by decide) h₁
    rw [if_pos (Or.inl h₁)]
    refine parseRest_of_slash (Or.inl (by rw [hm]; exact hl)) ?_
    rw [ht] at hl
    exact slash_mem_of_splitLast? (by decide) (by decide) hd (by decide) hl
  · have hl := missing _ (by decide) (by decide) h₁
    rw [← hm] at hl
    by_cases h₂ : str "blobs" ∈ segments.tail
    · obtain ⟨a, b, hl'⟩ := found _ (by decide) h₂
      rw [if_pos (Or.inr h₂)]
      refine parseRest_of_slash (Or.inr ⟨hl, by rw [hb]; exact hl'⟩) ?_
      rw [ht] at hl'
      exact slash_mem_of_splitLast? (by decide) (by decide) hd (by decide) hl'
    · have hl' := missing _ (by decide) (by decide) h₂
      rw [← hb] at hl'
      have hs : (repositoryName segments ++ str "/tags/list").dropSuffix? (str "/tags/list") =
          some (repositoryName segments) :=
        List.dropSuffix?_eq_some_iff.mpr ⟨_, rfl, beq_self_eq_true _⟩
      rw [if_neg (not_or.mpr ⟨h₁, h₂⟩)]
      unfold parseRest
      rw [hl, hl', hs]
      simp [rdropWhile_repositoryName hne hv, repositoryName_ne_nil hne hv]

end RoundTrip

/-- The decoder of ASCII escapes. -/
def asciiDecoder : PathDecoder := fun e => some (unescape e)

theorem asciiDecoder_decodes : DecodesEscapes asciiDecoder :=
  fun _ _ h => congrArg some (unescape_of_escapes h)

/-- Every printed path of the repository, in every escaped form, is parsed back. -/
def ParsesBack (decode : PathDecoder) (name : Str) : Prop :=
  (∀ r e, isValidManifestReference r = true → Escapes e (manifestPath name r) →
    parseOciPath decode e = .manifest name r) ∧
  (∀ (d : Digest) e, Escapes e (blobPath name d.asStr) →
    parseOciPath decode e = .blob name d.asStr) ∧
  ∀ e, Escapes e (tagsPath name) → parseOciPath decode e = .tags name

section Decoded
variable {decode : PathDecoder} (hd : DecodesEscapes decode) {segments : List Str}
  (hne : segments ≠ []) (hv : ∀ s ∈ segments, isValidChartName s = true)

include hd hne hv

/-- The slash-free beginning of the name leaves the parser with the printed text. -/
theorem parseOciPath_print {e rest : Str}
    (he : Escapes e (str "/v2/" ++ (repositoryName segments ++ rest))) :
    parseOciPath decode e = parseRest (repositoryName segments ++ rest) := by
  rw [parseOciPath_of_escapes hd he, dropWhile_repositoryName hne hv]
  have hn := repositoryName_ne_nil hne hv
  simp [hn]

/-- A name is served on all of its routes exactly when no segment behind the first
is one of the words that open the reference part of a path. -/
theorem parsesBack_iff : ParsesBack decode (repositoryName segments) ↔
    str "manifests" ∉ segments.tail ∧ str "blobs" ∉ segments.tail := by
  constructor
  · rintro ⟨-, -, ht⟩
    by_contra h
    have hor : str "manifests" ∈ segments.tail ∨ str "blobs" ∈ segments.tail := by
      by_contra hn
      exact h (not_or.mp hn)
    have he : Escapes (tagsPath (repositoryName segments)) (tagsPath (repositoryName segments)) :=
      .append (.refl (by decide)) (.append (.refl (percent_not_mem_repositoryName hv))
        (.refl (by decide)))
    have hp := ht _ he
    rw [parseOciPath_print hd hne hv he, parseRest_tags hne hv, if_pos hor] at hp
    contradiction
  · rintro ⟨hm, hb⟩
    refine ⟨?_, ?_, ?_⟩
    · intro r e hr he
      rw [parseOciPath_print hd hne hv he, parseRest_manifest (repositoryName_ne_nil hne hv) hr]
    · intro d e he
      rw [parseOciPath_print hd hne hv he, parseRest_blob hne hv, if_neg hm]
    · intro e he
      rw [parseOciPath_print hd hne hv he, parseRest_tags hne hv, if_neg (not_or.mpr ⟨hm, hb⟩)]

end Decoded

theorem parsesBack_acme :
    ParsesBack asciiDecoder (repositoryName [str "acme", str "charts"]) ↔
      str "manifests" ∉ [str "charts"] ∧ str "blobs" ∉ [str "charts"] :=
  parsesBack_iff asciiDecoder_decodes (by decide) (by decide)

/-- The manifest of `acme/manifests` is served while its tags and blobs are not. -/
theorem marker_word_hides_routes :
    (∀ s ∈ [str "acme", str "manifests"], isValidChartName s = true) ∧
      parseOciPath asciiDecoder (str "/v2/acme/manifests/manifests/1.0.0") =
        .manifest (str "acme/manifests") (str "1.0.0") ∧
      parseOciPath asciiDecoder (str "/v2/acme/manifests/tags/list") = .notFound ∧
      ¬ ∀ segments : List Str, segments ≠ [] →
        (∀ s ∈ segments, isValidChartName s = true) →
        ParsesBack asciiDecoder (repositoryName segments) := by
  refine ⟨by decide, by decide, by decide, ?_⟩
  intro h
  obtain ⟨-, -, ht⟩ := h [str "acme", str "manifests"] (by decide) (by decide)
  exact absurd (ht (str "/v2/acme/manifests/tags/list") (Escapes.refl (by decide))) (by decide)

end Helmoci.OciPaths
