import Helmoci.OciPaths
import Helmoci.PlainUrls
import Helmoci.ProxyHosts

/-!
# Keys of tag pointers

A tag's key joins three texts that a client chooses: the host, the name and the tag.
Host and tag are single segments, so the three parts can be read off the key. The name
is resolved without its empty segments but stays in the key as it was written.
-/
namespace Helmoci.StorageKeys
open RustText UrlInterface SegmentedText NameGrammar OciDigest OciPaths NameResolver ProxyHosts
  BlobStorage ServerErrors ServerOperations JsonDocuments PlainUrls

/-- The name under which tags are stored. -/
def fullName : Resolved → Str
  | .classic chart => chart.fullName
  | .oci target => target.fullName

section Segments

theorem validPathSegment_of_chars {s : Str} (hne : s ≠ [])
    (h₁ : s ≠ str ".") (h₂ : s ≠ str "..") (h : ∀ c ∈ s, isAsciiControl c = false) :
    validPathSegment s = true := by
  have hc : s.any isAsciiControl = false := by
    rw [List.any_eq_false]
    intro c hc
    simp [h c hc]
  simp [validPathSegment, hne, h₁, h₂, hc]

/-- Control characters are looked for among the ASCII ones. -/
theorem not_control_of_ascii {P : Char → Prop} (hP : ∀ n < 128, P (Char.ofNat n) →
    isAsciiControl (Char.ofNat n) = false) {c : Char} (h : P c) : isAsciiControl c = false := by
  by_cases hlt : c.toNat < 128
  · exact ascii_forall (P := fun c => P c → isAsciiControl c = false) hP hlt h
  · simp only [isAsciiControl, Bool.or_eq_false_iff, decide_eq_false_iff_not,
      beq_eq_false_iff_ne]
    omega

theorem not_control_of_chartNameChar {c : Char} (h : chartNameChar c = true) :
    isAsciiControl c = false :=
  not_control_of_ascii (P := fun c => chartNameChar c = true) (by decide) h

theorem validPathSegment_of_isValidChartName {s : Str} (h : isValidChartName s = true) :
    validPathSegment s = true := by
  apply validPathSegment_of_chars (isValidChartName_ne_nil h)
  · rintro rfl
    exact absurd h (by decide)
  · rintro rfl
    exact absurd h (by decide)
  · intro c hc
    exact not_control_of_chartNameChar (isValidChartName_all h c hc)

theorem validPathSegment_of_isPublicHostname {lib : UrlCrate} {host : Str}
    (h : isPublicHostname lib host = true) : validPathSegment host = true := by
  obtain ⟨hlen, hlabels⟩ := labels_of_isPublicHostname h
  -- a label that is empty is no label, so dots alone make no name
  have hdots : ∀ dots ∈ [str ".", str ".."], host ≠ dots := by
    intro dots hd hh
    have hempty : ∀ dots ∈ [str ".", str ".."], [] ∈ (toAsciiLowercase dots).splitOn '.' := by
      decide +kernel
    have := hlabels [] (hh ▸ hempty dots hd)
    contradiction
  apply validPathSegment_of_chars (dot_mem_of_isPublicHostname h).1
  · exact hdots _ (by simp)
  · exact hdots _ (by simp)
  · intro c hc
    exact not_control_of_chartNameChar (chartNameChar_of_isPublicHostname h c hc)

/-- A tag that a route admits is one segment. -/
theorem validPathSegment_of_tag {tag : Str} (h : isValidManifestReference tag = true)
    (ht : Digest.parse tag = none) : validPathSegment tag = true := by
  simp only [isValidManifestReference, ht, Option.isSome_none, Bool.false_or] at h
  cases tag with
  | nil => contradiction
  | cons c s =>
      simp only [Bool.and_eq_true, List.all_eq_true, Bool.or_eq_true, beq_iff_eq] at h
      obtain ⟨⟨hc, -⟩, hs⟩ := h
      have hdot : c ≠ '.' := by
        rintro rfl
        exact absurd hc (by decide)
      apply validPathSegment_of_chars (List.cons_ne_nil c s)
      · intro h
        exact hdot (List.cons.inj h).1
      · intro h
        exact hdot (List.cons.inj h).1
      · intro d hd
        apply not_control_of_chartNameChar
        rcases List.mem_cons.mp hd with rfl | hd
        · rcases hc with hc | hc <;> simp [chartNameChar, hc]
        · rcases hs d hd with ((hd | hd) | hd) | hd <;> simp [chartNameChar, hd]

/-- The segments of a name that resolves are fit for a key, but for the empty ones. -/
theorem validPathSegment_of_resolveName {lib : UrlCrate} {aliases : AliasTable lib} {name : Str}
    {res : Resolved} (h : resolveName lib name aliases.map = some res) :
    ∀ s ∈ name.splitOn '/', s ≠ [] → validPathSegment s = true := by
  obtain ⟨first, rest, hs, hf, hr⟩ := segments_of_resolveName h
  intro s hm hne
  have hmem : s ∈ nonemptySegments name := by
    apply List.mem_filter.mpr
    exact ⟨hm, by simpa using hne⟩
  rw [hs] at hmem
  rcases List.mem_cons.mp hmem with rfl | hmem
  · rcases hf with hf | hf
    · exact validPathSegment_of_isValidChartName hf
    · exact validPathSegment_of_isPublicHostname hf
  · exact validPathSegment_of_isValidChartName (hr s hmem)

end Segments

section Keys
variable {scope : TagScope} {tag : Str}

theorem splitOn_tagKey (hh : '/' ∉ scope.proxyHost) (ht : '/' ∉ tag) :
    (tagKey scope tag).splitOn '/' =
      str "tags" :: scope.proxyHost :: (scope.fullName.splitOn '/' ++ [tag]) := by
  have hkey : tagKey scope tag =
      str "tags" ++ '/' :: (scope.proxyHost ++ '/' :: (scope.fullName ++ '/' :: tag)) := rfl
  rw [hkey, List.splitOn_append_cons_self_of_not_mem (by decide),
    List.splitOn_append_cons_self_of_not_mem hh, List.splitOn_append_cons_self,
    List.splitOn_eq_singleton ht]

/-- Nothing is dropped from either end of a tag's key. -/
theorem parsePath_tagKey_eq (hne : tag ≠ []) (ht : '/' ∉ tag) :
    parsePath (tagKey scope tag) =
      if ((tagKey scope tag).splitOn '/').all validPathSegment then some (tagKey scope tag)
      else none := by
  have hpre : (tagKey scope tag).dropPrefix? ['/'] = none := rfl
  have hkey : (tagKey scope tag).isEmpty = false := rfl
  have hsuf : (tagKey scope tag).dropSuffix? ['/'] = none := by
    cases h : (tagKey scope tag).dropSuffix? ['/'] with
    | none => rfl
    | some p =>
        obtain ⟨t, hp, hs⟩ := List.dropSuffix?_eq_some_iff.mp h
        obtain rfl : t = ['/'] := eq_of_beq hs
        have hend : tagKey scope tag =
            (str "tags/" ++ (scope.proxyHost ++ '/' :: (scope.fullName ++ ['/']))) ++ tag := by
          simp [tagKey]
        have hlast : tag.getLast? = some '/' := by
          rw [← List.getLast?_append_of_ne_nil _ hne, ← hend, hp]
          simp
        exact absurd (List.mem_of_getLast? hlast) ht
  unfold parsePath
  simp [hpre, hkey, hsuf]

theorem parsePath_tagKey_isSome_iff (hhost : validPathSegment scope.proxyHost = true)
    (hh : '/' ∉ scope.proxyHost) (hvalid : validPathSegment tag = true) (ht : '/' ∉ tag) :
    (parsePath (tagKey scope tag)).isSome = true ↔
      ∀ s ∈ scope.fullName.splitOn '/', validPathSegment s = true := by
  have hne : tag ≠ [] := by
    rintro rfl
    contradiction
  have htags : validPathSegment (str "tags") = true := by decide
  rw [parsePath_tagKey_eq hne ht, splitOn_tagKey hh ht]
  simp [hhost, hvalid, htags]

/-- The three parts are read off the key. -/
theorem tagKey_inj {scope' : TagScope} {tag' : Str} (hh : '/' ∉ scope.proxyHost)
    (hh' : '/' ∉ scope'.proxyHost) (ht : '/' ∉ tag) (ht' : '/' ∉ tag')
    (h : tagKey scope tag = tagKey scope' tag') : scope = scope' ∧ tag = tag' := by
  have hs := congrArg (List.splitOn '/') h
  rw [splitOn_tagKey hh ht, splitOn_tagKey hh' ht'] at hs
  obtain ⟨hhost, hrest⟩ := List.cons.inj (List.cons.inj hs).2
  obtain ⟨hname, htag⟩ := List.append_inj' hrest rfl
  have hj := congrArg (['/'].intercalate) hname
  rw [List.intercalate_splitOn, List.intercalate_splitOn] at hj
  refine ⟨?_, by simpa using htag⟩
  cases scope
  cases scope'
  congr

/-- A tag's key is no blob's key. -/
theorem tagKey_ne_blobKey (d : Digest) : tagKey scope tag ≠ blobKey d := by
  intro h
  have hhead := congrArg List.head? h
  exact absurd hhead (by simp [tagKey, blobKey, str])

end Keys

/-- What a route says of the name and the reference that it parses. -/
theorem isValid_of_parseOciPath {decode : PathDecoder} {pathname name reference : Str}
    (h : parseOciPath decode pathname = .manifest name reference) :
    isValidManifestReference reference = true := by
  unfold parseOciPath at h
  split at h
  · contradiction
  · split at h
    · contradiction
    · split at h
      · contradiction
      · dsimp only at h
        split at h
        · contradiction
        · unfold parseRest at h
          split at h
          · split at h
            · contradiction
            · rename_i hv
              cases h
              simp only [Bool.or_eq_true, Bool.not_eq_true', not_or, Bool.not_eq_false] at hv
              exact hv.2
          · split at h
            · split at h <;> contradiction
            · split at h
              · dsimp only at h
                split at h <;> contradiction
              · contradiction

theorem fullName_of_resolveName {lib : UrlCrate} {name : Str} {aliases : HashMap Alias}
    {res : Resolved} (h : resolveName lib name aliases = some res) : fullName res = name := by
  unfold resolveName at h
  split at h
  · contradiction
  · split at h
    · split at h
      · split at h
        · split at h
          · cases h
            rfl
          · contradiction
        · contradiction
      · split at h
        · contradiction
        · cases h
          rfl
    · unfold resolveHostPath at h
      split at h
      · dsimp only at h
        split at h
        · contradiction
        · split at h
          · contradiction
          · split at h
            · contradiction
            · cases h
              rfl
      · contradiction

/-- The pointers of a tag are read and written without an invalid-key error. -/
def Accepted (scope : TagScope) (tag : Str) : Prop :=
  (parsePath (tagKey scope tag)).isSome = true ∧
    ∀ op, storagePath op (tagKey scope tag) ≠ .error (storageError op)

theorem accepted_iff {scope : TagScope} {tag : Str} :
    Accepted scope tag ↔ (parsePath (tagKey scope tag)).isSome = true := by
  constructor
  · intro h
    exact h.1
  · intro h
    refine ⟨h, ?_⟩
    intro op
    obtain ⟨path, hp⟩ := Option.isSome_iff_exists.mp h
    simp [storagePath, hp]

section Requests
variable {lib : UrlCrate} {aliases : AliasTable lib} {decode : PathDecoder}
  {value host pathname name reference : Str} {res : Resolved}

/-- The key of an admitted request is a path unless the name has an empty segment. -/
theorem tagKey_accepted_iff (hhost : normalizeProxyHost value = some host)
    (hroute : parseOciPath decode pathname = .manifest name reference)
    (htag : Digest.parse reference = none) (hres : resolveName lib name aliases.map = some res) :
    Accepted ⟨host, fullName res⟩ reference ↔ [] ∉ name.splitOn '/' := by
  obtain ⟨hvalid, hslash⟩ := validPathSegment_of_normalizeProxyHost hhost
  have href := isValid_of_parseOciPath hroute
  rw [accepted_iff, parsePath_tagKey_isSome_iff hvalid hslash (validPathSegment_of_tag href htag)
    (slash_not_mem_of_isValidManifestReference href), fullName_of_resolveName hres]
  constructor
  · intro h hm
    exact absurd (h [] hm) (by decide)
  · intro h s hs
    apply validPathSegment_of_resolveName hres s hs
    rintro rfl
    exact h hs

end Requests

theorem demo_accepted_iff :
    Accepted ⟨str "proxy.test", str "charts.example.com/demo"⟩ (str "1.0.0") ↔
      [] ∉ (str "charts.example.com/demo").splitOn '/' :=
  @tagKey_accepted_iff plainUrls (AliasTable.empty plainUrls) asciiDecoder (str "Proxy.test")
    (str "proxy.test") (str "/v2/charts.example.com/demo/manifests/1.0.0")
    (str "charts.example.com/demo") (str "1.0.0")
    (.classic ⟨str "https://charts.example.com", str "demo", str "charts.example.com/demo", false,
      .hostPath⟩)
    (by decide +kernel) (by decide +kernel) (by decide) (by decide +kernel)

/-- A doubled slash is left out of the repository and kept in the key. -/
theorem doubled_slash_is_kept :
    normalizeProxyHost (str "proxy.test") = some (str "proxy.test") ∧
      parseOciPath asciiDecoder (str "/v2/charts.example.com//demo/manifests/1.0.0") =
        .manifest (str "charts.example.com//demo") (str "1.0.0") ∧
      Digest.parse (str "1.0.0") = none ∧
      resolveName plainUrls (str "charts.example.com//demo") (AliasTable.empty plainUrls).map =
        some (.classic ⟨str "https://charts.example.com", str "demo",
          str "charts.example.com//demo", false, .hostPath⟩) ∧
      (∀ json : JsonCrate, ObjectStore.getTagPointer json
        ⟨str "proxy.test", str "charts.example.com//demo"⟩ (str "1.0.0") =
          liftResult (.error (storageError .tagRead))) ∧
      ¬ Accepted ⟨str "proxy.test", str "charts.example.com//demo"⟩ (str "1.0.0") := by
  have hkey : parsePath (tagKey ⟨str "proxy.test", str "charts.example.com//demo"⟩ (str "1.0.0")) =
      none := by decide +kernel
  refine ⟨by decide +kernel, by decide +kernel, by decide, by decide +kernel, ?_, ?_⟩
  · intro json
    simp [ObjectStore.getTagPointer, storagePath, hkey]
  · rw [accepted_iff, hkey]
    simp

end Helmoci.StorageKeys
