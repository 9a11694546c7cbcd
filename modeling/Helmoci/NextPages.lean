import Helmoci.HostPaths
import Helmoci.LinkFields
import Helmoci.UpstreamPaths

/-!
# The next page of a tag list

The link that the client is given is read by the same scanners as the upstream's, and a
request to its target goes where the upstream's own link leads.
-/
namespace Helmoci.NextPages
open RustText UrlInterface SegmentedText PercentEscapes NameGrammar OciPaths NameResolver
  RegistryTokens ManifestMediaTypes LinkFields UpstreamPaths StorageKeys BlobStorage

section Reprinting

/-- Nothing of the parameters is needed to tell where they end. -/
theorem scanParams_self {quoted : Bool} {s params rest : Str}
    (h : scanParams quoted s = some (params, rest)) :
    scanParams quoted params = some (params, []) := by
  fun_induction scanParams quoted s generalizing params with
  | case1 => contradiction
  | case2 =>
      cases h
      rfl
  | case3 c s ih =>
      obtain ⟨⟨params', rest'⟩, hs, hp⟩ := Option.map_eq_some_iff.mp h
      cases hp
      simp [scanParams, ih hs]
  | case4 quoted c s _ hc =>
      cases h
      obtain ⟨-, rfl⟩ := hc
      rfl
  | case5 quoted c s hslash hc ih =>
      obtain ⟨⟨params', rest'⟩, hs, hp⟩ := Option.map_eq_some_iff.mp h
      cases hp
      rw [scanParams_cons _ (fun h' => by simp_all), ih hs]
      · rfl
      · intro h'
        by_contra hq
        have hquoted : quoted = true := by simpa using hq
        -- an escape at the very end leaves the quoted string open
        cases s with
        | nil => simp [h', hquoted, scanParams] at hs
        | cons d s => exact hslash d s hquoted h' rfl

/-- A blank is the end of the parameters only where no quoted string is open. -/
theorem scanParams_of_concat {b : Char} (hb : isBlank b = true) {quoted : Bool} {s : Str}
    (h : scanParams quoted (s ++ [b]) = some (s ++ [b], [])) :
    scanParams quoted s = some (s, []) := by
  have hquote : b ≠ '"' ∧ b ≠ ',' := by
    constructor <;> rintro rfl <;> exact absurd hb (by decide)
  fun_induction scanParams quoted s with
  | case1 => simp [scanParams, hquote] at h
  | case2 => rfl
  | case3 c s ih =>
      rw [List.cons_append, List.cons_append, scanParams] at h
      obtain ⟨⟨params', rest'⟩, hs, hp⟩ := Option.map_eq_some_iff.mp h
      cases hp
      simp [ih hs]
  | case4 quoted c s _ hc =>
      obtain ⟨rfl, rfl⟩ := hc
      rw [List.cons_append, scanParams_comma] at h
      cases h
  | case5 quoted c s hslash hc ih =>
      have hopen : c = '\\' → quoted = false := by
        intro h'
        by_contra hq
        have hquoted : quoted = true := by simpa using hq
        cases s with
        | nil => simp [h', hquoted, scanParams] at h
        | cons d s => exact hslash d s hquoted h' rfl
      rw [List.cons_append, scanParams_cons hopen (fun h' => by simp_all)] at h
      obtain ⟨⟨params', rest'⟩, hs, hp⟩ := Option.map_eq_some_iff.mp h
      cases hp
      simp [ih hs]

theorem scanParams_rdropWhile {s : Str} (h : scanParams false s = some (s, [])) :
    scanParams false (s.rdropWhile isBlank) = some (s.rdropWhile isBlank, []) := by
  induction s using List.reverseRecOn with
  | nil => exact h
  | append_singleton s b ih =>
      by_cases hb : isBlank b = true
      · rw [List.rdropWhile_concat_pos _ _ _ hb]
        exact ih (scanParams_of_concat hb h)
      · rwa [List.rdropWhile_concat_neg _ _ _ hb]

/-- The parameters of a link of some field. -/
structure PrintedParams (params : Str) : Prop where
  scan : scanParams false params = some (params, [])
  trimmed : params.rdropWhile isBlank = params
  valid : validLinkParams params = true

theorem printedParams_of_nextLinkValue {s rest : Str} {link : LinkValue}
    (h : nextLinkValue s = some (some (link, rest))) :
    PrintedParams link.params ∧ (∀ c ∈ link.params, c ∈ s) ∧ ∀ c ∈ rest, c ∈ s := by
  obtain ⟨uri, behind, params, hskip, -, hscan, hvalid, rfl⟩ := nextLinkValue_eq_some_iff.mp h
  have hsub : ∀ c ∈ params ++ rest, c ∈ s := by
    intro c hc
    apply (List.dropWhile_suffix (l := s) isListBlank).subset
    rw [hskip, scanParams_eq_append hscan]
    simp [List.mem_append.mp hc]
  refine ⟨⟨scanParams_rdropWhile (scanParams_self hscan), List.rdropWhile_idempotent _ _, hvalid⟩,
    ?_, ?_⟩
  · intro c hc
    exact hsub c (List.mem_append_left _ ((List.rdropWhile_prefix _ _).subset hc))
  · intro c hc
    exact hsub c (List.mem_append_right _ hc)

theorem printedParams_of_links {s : Str} {links : List LinkValue} (h : Links s links) :
    ∀ link ∈ links, PrintedParams link.params ∧ ∀ c ∈ link.params, c ∈ s := by
  induction h with
  | done => simp
  | link hs _ ih =>
      obtain ⟨hprinted, hparams, hrest⟩ := printedParams_of_nextLinkValue hs
      intro link hl
      rcases List.mem_cons.mp hl with rfl | hl
      · exact ⟨hprinted, hparams⟩
      · exact ⟨(ih link hl).1, fun c hc => hrest c ((ih link hl).2 c hc)⟩

/-- A target without an angle bracket in front of a link's parameters is one link. -/
theorem parseLinkField_print {uri params : Str} (huri : ∀ c ∈ uri, isFieldChar c = true ∧ c ≠ '>')
    (hp : PrintedParams params) (hc : ∀ c ∈ params, isFieldChar c = true) :
    parseLinkField ('<' :: (uri ++ '>' :: params)) = some [⟨uri, params⟩] := by
  apply parseLinkField_eq_some_iff.mpr
  constructor
  · have hbrackets : isFieldChar '<' = true ∧ isFieldChar '>' = true := by decide
    have hall : uri.all isFieldChar = true := List.all_eq_true.mpr fun c hc => (huri c hc).1
    have hall' : params.all isFieldChar = true := List.all_eq_true.mpr hc
    simp only [List.all_cons, List.all_append, hbrackets, hall, hall', Bool.and_true]
  · have hnext : nextLinkValue ('<' :: (uri ++ '>' :: params)) =
        some (some (⟨uri, params⟩, [])) := by
      apply nextLinkValue_eq_some_iff.mpr
      refine ⟨uri, params, params, rfl, fun hm => (huri _ hm).2 rfl, hp.scan, ?_, ?_⟩
      · rw [hp.trimmed]
        exact hp.valid
      · rw [hp.trimmed]
    exact .link hnext (.done rfl)

end Reprinting

section Resolution
variable {lib : UrlCrate} {target : OciTarget} {reference : Str}

/-- What stands in a query without an escape. -/
def plainQueryChar (c : Char) : Bool :=
  33 ≤ c.toNat && c.toNat ≤ 126 && c != '"' && c != '#' && c != '\'' && c != '<' && c != '>'

/-- What the documentation says of references and queries. -/
structure LinkLaws (lib : UrlCrate) : Prop where
  absolute : ∀ scheme rest u, isRfcScheme scheme = true →
    lib.parse (scheme ++ (str "://" ++ rest)) = some u → u.scheme = toAsciiLowercase scheme
  join_absolute : ∀ base scheme rest, isRfcScheme scheme = true →
    lib.join base (scheme ++ (str "://" ++ rest)) = lib.parse (scheme ++ (str "://" ++ rest))
  relative : ∀ s, ':' ∉ s.takeWhile inFirstSegment → lib.parse s = none
  join_relative : ∀ base s u, ':' ∉ s.takeWhile inFirstSegment → lib.join base s = some u →
    u.scheme = base.scheme
  query : ∀ s u, lib.parse s = some u → u.isHttp = true →
    ∀ q ∈ u.query, q.all plainQueryChar = true
  join_query : ∀ base s u, lib.join base s = some u → u.isHttp = true →
    (∀ q ∈ base.query, q.all plainQueryChar = true) → ∀ q ∈ u.query, q.all plainQueryChar = true
  encodeQuery : ∀ u q, u.isHttp = true → q.all plainQueryChar = true → lib.encodeQuery u q = q

theorem lowercase_scheme : toAsciiLowercase (OciTarget.scheme target) = OciTarget.scheme target := by
  have hfixed : ∀ s ∈ [str "http", str "https"], toAsciiLowercase s = s := by decide
  exact hfixed _ (mem_scheme target)

theorem isRfcScheme_scheme : isRfcScheme (OciTarget.scheme target) = true := by
  have hrfc : ∀ s ∈ [str "http", str "https"], isRfcScheme s = true := by decide
  exact hrfc _ (mem_scheme target)

theorem not_mem_of_splitOnce_eq_none {c : Char} {s : Str} (h : splitOnce c s = none) : c ∉ s := by
  intro hm
  obtain ⟨a, b, rfl, ha⟩ := List.eq_append_cons_of_mem hm
  rw [splitOnce_append ha] at h
  contradiction

/-- A reference has no scheme or the target's. -/
theorem reference_cases (h : isStrictTagLinkReference target reference = true) :
    ':' ∉ reference.takeWhile inFirstSegment ∨
      ∃ scheme rest, reference = scheme ++ (str "://" ++ rest) ∧ isRfcScheme scheme = true ∧
        toAsciiLowercase scheme = OciTarget.scheme target := by
  unfold isStrictTagLinkReference at h
  split at h
  · rename_i hnone
    exact Or.inl (not_mem_of_splitOnce_eq_none hnone)
  · rename_i scheme after hsplit
    simp only [Bool.and_eq_true, eqIgnoreAsciiCase, beq_iff_eq, lowercase_scheme] at h
    obtain ⟨⟨⟨hrfc, hscheme⟩, hslashes⟩, -⟩ := h
    have href : reference =
        scheme ++ ':' :: (after ++ reference.dropWhile inFirstSegment) := by
      have hparts := List.takeWhile_append_dropWhile (p := inFirstSegment) (l := reference)
      rw [splitOnce_eq_some hsplit] at hparts
      simpa using hparts.symm
    have hdrop : reference.drop (scheme.length + 1) =
        after ++ reference.dropWhile inFirstSegment := by
      conv_lhs => rw [href]
      simp
    rw [hdrop] at hslashes
    obtain ⟨rest, hrest⟩ := List.isPrefixOf_iff_prefix.mp hslashes
    refine Or.inr ⟨scheme, rest, ?_, hrfc, hscheme⟩
    rw [href, ← hrest]
    rfl

/-- What a request for the tag list asks of the registry. -/
theorem upstreamUrl_tagsSuffix {url : Url} (h : upstreamUrl lib target (str "tags/list") = .ok url)
    (query : Option Str) :
    upstreamUrl lib target (tagsSuffix query) =
      .ok (if (query.getD []).isEmpty then url else url.setQuery lib (query.getD [])) := by
  have hmark : '?' ∉ str "tags/list" := by decide
  cases query with
  | none => exact h
  | some query =>
      have hsuffix : tagsSuffix (some query) = str "tags/list" ++ '?' :: query := by
        simp [tagsSuffix, str]
      unfold upstreamUrl at h ⊢
      rw [splitOnce_eq_none hmark] at h
      rw [hsuffix, splitOnce_append hmark]
      split at h
      · contradiction
      · cases h
        rfl

theorem tagsUrl_of_upstreamUrl (laws : LinkLaws lib) {url : Url}
    (h : upstreamUrl lib target (str "tags/list") = .ok url) :
    url.scheme = OciTarget.scheme target ∧ url.isHttp = true ∧
      ∀ q ∈ url.query, q.all plainQueryChar = true := by
  have hmark : '?' ∉ str "tags/list" := by decide
  unfold upstreamUrl at h
  rw [splitOnce_eq_none hmark] at h
  split at h
  · contradiction
  · rename_i base hbase
    have hscheme : base.scheme = OciTarget.scheme target := by
      rw [laws.absolute _ _ _ isRfcScheme_scheme hbase, lowercase_scheme]
    have hhttp : base.isHttp = true := isHttp_of_scheme (hscheme ▸ mem_scheme target)
    have hquery := laws.query _ _ hbase hhttp
    cases h
    exact ⟨hscheme, hhttp, hquery⟩

/-- What the link's reference is resolved to. -/
theorem resolvedTagLinkUrl_eq_some (laws : LinkLaws lib) {resolved : Url}
    (h : resolvedTagLinkUrl lib target reference = some resolved) :
    ∃ targetUrl, upstreamUrl lib target (str "tags/list") = .ok targetUrl ∧
      lib.join targetUrl reference = some resolved ∧ resolved.sameOrigin lib targetUrl = true ∧
      resolved.path = targetUrl.path ∧ ∀ q ∈ resolved.query, q.all plainQueryChar = true := by
  unfold resolvedTagLinkUrl at h
  split at h
  · contradiction
  · rename_i href
    obtain ⟨targetUrl, htarget, h⟩ := Option.bind_eq_some_iff.mp h
    obtain ⟨url, hresolved, h⟩ := Option.bind_eq_some_iff.mp h
    have hurl : upstreamUrl lib target (str "tags/list") = .ok targetUrl := by
      cases hu : upstreamUrl lib target (str "tags/list") with
      | error e => simp [hu, Except.toOption] at htarget
      | ok u => simpa [hu, Except.toOption] using htarget
    simp only [Option.ite_none_right_eq_some, Bool.and_eq_true, beq_iff_eq, Option.some.injEq] at h
    obtain ⟨⟨⟨horigin, hpath⟩, -⟩, rfl⟩ := h
    obtain ⟨hscheme, -, hquery⟩ := tagsUrl_of_upstreamUrl laws hurl
    simp only [Bool.or_eq_true, Bool.not_eq_true', not_or, Bool.not_eq_false] at href
    have hjoin : lib.join targetUrl reference = some url ∧
        url.scheme = OciTarget.scheme target := by
      rcases reference_cases href.2 with hrelative | ⟨scheme, rest, rfl, hrfc, hlower⟩
      · rw [laws.relative _ hrelative] at hresolved
        exact ⟨hresolved, (laws.join_relative _ _ _ hrelative hresolved).trans hscheme⟩
      · rw [laws.join_absolute _ _ _ hrfc] at hresolved ⊢
        have hparse : lib.parse (scheme ++ (str "://" ++ rest)) = some url := by
          cases hp : lib.parse (scheme ++ (str "://" ++ rest)) with
          | none => simp [hp] at hresolved
          | some u => simpa [hp] using hresolved
        exact ⟨hparse, (laws.absolute _ _ _ hrfc hparse).trans hlower⟩
    have hhttp : url.isHttp = true := isHttp_of_scheme (hjoin.2 ▸ mem_scheme target)
    exact ⟨targetUrl, hurl, hjoin.1, horigin, hpath,
      laws.join_query _ _ _ hjoin.1 hhttp hquery⟩

end Resolution

section Routing

theorem nonemptySegments_rdropWhile (s : Str) :
    nonemptySegments (s.rdropWhile (· == '/')) = nonemptySegments s := by
  induction s using List.reverseRecOn with
  | nil => rfl
  | append_singleton s c ih =>
      by_cases hc : c = '/'
      · subst hc
        have hs : nonemptySegments (s ++ ['/']) = nonemptySegments s :=
          (nonemptySegments_append s []).trans (by simp [nonemptySegments])
        rw [List.rdropWhile_concat_pos _ _ _ (by decide), ih, hs]
      · rw [List.rdropWhile_concat_neg _ _ _ (by simpa using hc)]

theorem nonemptySegments_trimMatches (s : Str) :
    nonemptySegments (trimMatches '/' s) = nonemptySegments s := by
  rw [trimMatches, nonemptySegments_rdropWhile, nonemptySegments_dropWhile]

/-- Only the full name of a target tells names with the same segments apart. -/
theorem resolveName_of_segments {lib : UrlCrate} {aliases : HashMap Alias} {n n' : Str}
    {target : OciTarget} (hs : nonemptySegments n' = nonemptySegments n)
    (h : resolveName lib n aliases = some (.oci target)) :
    resolveName lib n' aliases = some (.oci {target with fullName := n'}) := by
  unfold resolveName at h ⊢
  rw [hs]
  split at h
  · contradiction
  · rename_i first rest hsegments
    split at h
    · rename_i entry hl
      split at h
      · -- a classic alias
        split at h
        · split at h <;> cases h
        · cases h
      · rename_i registry repo hu
        split at h
        · contradiction
        · rename_i hr
          cases h
          rw [if_neg hr]
    · obtain ⟨_, _, _, -, -, -, hres⟩ := HostPaths.resolveHostPath_eq_some_iff.mp h
      cases hres

theorem splitOn_eq_cons {s : Str} (h : nonemptySegments s ≠ []) :
    ∃ first rest, (s.dropWhile (· == '/')).splitOn '/' = first :: rest ∧ first ≠ [] := by
  cases hd : s.dropWhile (· == '/') with
  | nil =>
      rw [← nonemptySegments_dropWhile, hd] at h
      exact absurd rfl h
  | cons c t =>
      have hc : (c == '/') = false := by
        have := List.head?_dropWhile_not (· == '/') s
        simpa [hd] using this
      cases ht : t.splitOn '/' with
      | nil => exact absurd ht (List.splitOn_ne_nil _ _)
      | cons w rest =>
          refine ⟨c :: w, rest, ?_, List.cons_ne_nil c w⟩
          rw [List.splitOn_cons_eq_if_modifyHead, hc, ht]
          rfl

/-- A tag list is routed to the name without its outer slashes. -/
theorem parseOciPath_tagsPath {decode : PathDecoder} (hd : DecodesEscapes decode) {name : Str}
    (hne : nonemptySegments name ≠ []) (hpercent : '%' ∉ name)
    (hm : str "manifests" ∉ (nonemptySegments name).tail)
    (hb : str "blobs" ∉ (nonemptySegments name).tail) :
    parseOciPath decode (tagsPath name) = .tags (trimMatches '/' name) := by
  obtain ⟨first, rest, hsplit, hfirst⟩ := splitOn_eq_cons hne
  have hsegments : (nonemptySegments name).tail = rest.filter fun w => !w.isEmpty := by
    rw [← nonemptySegments_dropWhile, nonemptySegments, hsplit]
    simp [hfirst]
  have hnonempty : name.dropWhile (· == '/') ≠ [] := by
    intro hnil
    rw [← nonemptySegments_dropWhile, hnil] at hne
    exact hne rfl
  have hdrop : (name ++ str "/tags/list").dropWhile (· == '/') =
      name.dropWhile (· == '/') ++ str "/tags/list" := by
    rw [List.dropWhile_append]
    simp [hnonempty]
  have hprinted : name.dropWhile (· == '/') ++ str "/tags/list" =
      name.dropWhile (· == '/') ++ marker '/' (str "tags") ++ str "list" := by
    rw [List.append_assoc]
    rfl
  have hinterior : SegmentedText.interior '/' (name.dropWhile (· == '/') ++ str "/tags/list") =
      rest ++ [str "tags"] := by
    rw [SegmentedText.interior, hprinted, splitOn_marker (by decide), hsplit,
      List.splitOn_eq_singleton (by decide)]
    simp [List.dropLast_append_of_ne_nil]
  have missing : ∀ w ∈ [str "manifests", str "blobs"], w ∉ (nonemptySegments name).tail →
      splitLast? (marker '/' w) (name.dropWhile (· == '/') ++ str "/tags/list") = none := by
    intro w hw hnot
    have hword : ∀ w ∈ [str "manifests", str "blobs"], '/' ∉ w ∧ w ≠ [] ∧ w ≠ str "tags" := by
      decide
    obtain ⟨hslash, hwne, htags⟩ := hword w hw
    apply splitLast?_marker_eq_none hslash
    rw [hinterior, List.mem_append, not_or]
    constructor
    · intro hin
      rw [hsegments] at hnot
      exact hnot (List.mem_filter.mpr ⟨hin, by simpa using hwne⟩)
    · simpa using htags
  have hsuffix : (name.dropWhile (· == '/') ++ str "/tags/list").dropSuffix? (str "/tags/list") =
      some (name.dropWhile (· == '/')) :=
    List.dropSuffix?_eq_some_iff.mpr ⟨_, rfl, beq_self_eq_true _⟩
  have htrimmed : (trimMatches '/' name).isEmpty = false := by
    rw [List.isEmpty_eq_false_iff]
    intro hnil
    rw [← nonemptySegments_trimMatches, hnil] at hne
    exact hne rfl
  have hescapes : Escapes (tagsPath name) (tagsPath name) :=
    .append (.refl (by decide)) (.append (.refl hpercent) (.refl (by decide)))
  have hmanifests := missing (str "manifests") (by simp) hm
  have hblobs := missing (str "blobs") (by simp) hb
  have hwords : str "/manifests/" = marker '/' (str "manifests") ∧
      str "/blobs/" = marker '/' (str "blobs") := by decide
  rw [← hwords.1] at hmanifests
  rw [← hwords.2] at hblobs
  rw [parseOciPath_of_escapes hd hescapes, hdrop, if_neg (by simp [str]), parseRest, hmanifests,
    hblobs, hsuffix]
  change (if (trimMatches '/' name).isEmpty then OciRoute.notFound else _) = _
  rw [htrimmed]
  rfl

end Routing

section NextLink
variable {lib : UrlCrate} {target : OciTarget}

/-- The path and the query of a request. -/
def requestParts (uri : Str) : Str × Option Str :=
  match splitOnce '?' uri with
  | some (path, query) => (path, some query)
  | none => (uri, none)

/-- The URL that a tag list is asked of when a client requests this. -/
def Asks (lib : UrlCrate) (aliases : AliasTable lib) (decode : PathDecoder) (uri : Str)
    (url : Url) : Prop :=
  ∃ name target, parseOciPath decode (requestParts uri).1 = .tags name ∧
    resolveName lib name aliases.map = some (.oci target) ∧
    upstreamUrl lib target (tagsSuffix (requestParts uri).2) = .ok url

/-- One link-value with a path of the proxy and the upstream's own parameters. -/
structure ProxyLink (target : OciTarget) (next : LinkValue) (query : Option Str) (out : Str) :
    Prop where
  printed : parseLinkField out = some [⟨tagLinkTarget target query, next.params⟩]
  isNext : isNextLink next.params = true
  controls : ∀ c ∈ out, isAsciiControl c = true → c = '\t'

/-- The URL is the resolved link's, but for a query that the registry's own URL brings. -/
structure SamePage (lib : UrlCrate) (tagsUrl resolved url : Url) : Prop where
  origin : url.sameOrigin lib resolved = true
  path : url.path = resolved.path
  query : (resolved.query.getD [] = [] → tagsUrl.query.getD [] = []) →
    url.query.getD [] = resolved.query.getD []

theorem eq_tab_of_isFieldChar {c : Char} (h : isFieldChar c = true)
    (hc : isAsciiControl c = true) : c = '\t' := by
  simp only [isFieldChar, isAsciiControl, Bool.or_eq_true, Bool.and_eq_true, decide_eq_true_eq,
    beq_iff_eq] at h hc
  rcases h with h | h
  · omega
  · exact h

theorem isFieldChar_of_plainQueryChar {c : Char} (h : plainQueryChar c = true) :
    isFieldChar c = true ∧ c ≠ '>' := by
  simp only [plainQueryChar, Bool.and_eq_true, decide_eq_true_eq, bne_iff_ne] at h
  obtain ⟨⟨⟨⟨⟨⟨hlow, hhigh⟩, -⟩, -⟩, -⟩, -⟩, hne⟩ := h
  refine ⟨?_, hne⟩
  simp only [isFieldChar, Bool.or_eq_true, Bool.and_eq_true, decide_eq_true_eq]
  omega

theorem fieldChar_of_name {c : Char} (h : chartNameChar c = true ∨ c = '/') :
    isFieldChar c = true ∧ c ≠ '>' ∧ c ≠ '?' ∧ c ≠ '%' := by
  rcases h with h | rfl
  · refine ⟨?_, ?_, ?_, ?_⟩
    · by_cases hlt : c.toNat < 128
      · exact ascii_forall (P := fun c => chartNameChar c = true → isFieldChar c = true) (by decide)
          hlt h
      · exact absurd (toNat_lt_of_chartNameChar h) hlt
    all_goals
      rintro rfl
      exact absurd h (by decide)
  · decide

theorem tagLinkTarget_chars {query : Option Str}
    (hname : ∀ c ∈ target.fullName, isFieldChar c = true ∧ c ≠ '>')
    (hquery : ∀ q ∈ query, q.all plainQueryChar = true) :
    ∀ c ∈ tagLinkTarget target query, isFieldChar c = true ∧ c ≠ '>' := by
  have hfixed : ∀ c ∈ str "/v2/" ++ (str "/tags/list" ++ ['?']), isFieldChar c = true ∧ c ≠ '>' :=
    forall_of_all (by decide)
  intro c hc
  simp only [tagLinkTarget, List.mem_append] at hc hfixed
  rcases hc with hc | hc | hc | hc
  · exact hfixed c (Or.inl hc)
  · exact hname c hc
  · exact hfixed c (Or.inr (Or.inl hc))
  · cases query with
    | none => cases hc
    | some query =>
        simp only [Option.getD_some] at hc
        split at hc
        · cases hc
        · rcases List.mem_cons.mp hc with rfl | hc
          · decide
          · exact isFieldChar_of_plainQueryChar (List.all_eq_true.mp (hquery query rfl) c hc)

theorem requestParts_tagLinkTarget (hmark : '?' ∉ target.fullName) (query : Option Str) :
    requestParts (tagLinkTarget target query) =
      (tagsPath target.fullName, query.filter (· ≠ [])) := by
  have hpath : '?' ∉ tagsPath target.fullName := by
    simp only [tagsPath, List.mem_append, not_or]
    exact ⟨by decide, hmark, by decide⟩
  have htarget : tagLinkTarget target query =
      tagsPath target.fullName ++ if (query.getD []).isEmpty then [] else '?' :: query.getD [] := by
    simp [tagLinkTarget, tagsPath]
  rw [htarget, requestParts]
  cases query with
  | none => simp [splitOnce_eq_none hpath]
  | some query =>
      cases query with
      | nil => simp [splitOnce_eq_none hpath, Option.filter]
      | cons c query => simp [splitOnce_append hpath, Option.filter]

theorem getD_filter (query : Option Str) : (query.filter (· ≠ [])).getD [] = query.getD [] := by
  cases query with
  | none => rfl
  | some query => cases query <;> rfl

/-- The query of the resolved link is asked for with the path of the tag list. -/
theorem samePage_of_query (laws : LinkLaws lib) {tagsUrl resolved : Url}
    (hhttp : tagsUrl.isHttp = true) (horigin : resolved.sameOrigin lib tagsUrl = true)
    (hpath : resolved.path = tagsUrl.path)
    (hplain : ∀ q ∈ resolved.query, q.all plainQueryChar = true) :
    SamePage lib tagsUrl resolved
      (if (resolved.query.getD []).isEmpty then tagsUrl
        else tagsUrl.setQuery lib (resolved.query.getD [])) := by
  split
  · rename_i hempty
    have hnone : resolved.query.getD [] = [] := List.isEmpty_iff.mp hempty
    exact ⟨Url.sameOrigin_symm horigin, hpath.symm, fun h => (h hnone).trans hnone.symm⟩
  · rename_i hempty
    cases hq : resolved.query with
    | none =>
        rw [hq] at hempty
        exact absurd rfl hempty
    | some query =>
        have hencode := laws.encodeQuery tagsUrl query hhttp (hplain query hq)
        have hhttp' : (tagsUrl.setQuery lib query).isHttp = true := hhttp
        have hsame : (tagsUrl.setQuery lib query).sameOrigin lib tagsUrl = true :=
          (Url.sameOrigin_iff lib hhttp' hhttp).mpr ⟨rfl, rfl, rfl⟩
        refine ⟨Url.sameOrigin_trans hsame (Url.sameOrigin_symm horigin), hpath.symm, ?_⟩
        intro _
        simp [Url.setQuery, hencode, hq]

theorem mem_of_mapM {fields : List Str} {links : List (List LinkValue)}
    (h : fields.mapM parseLinkField = some links) {found : List LinkValue} (hf : found ∈ links) :
    ∃ field, parseLinkField field = some found := by
  induction fields generalizing links with
  | nil =>
      cases h
      cases hf
  | cons field fields ih =>
      simp only [List.mapM_cons, bind, Option.bind_eq_some_iff, pure, Option.some.injEq] at h
      obtain ⟨first, hfirst, rest, hrest, rfl⟩ := h
      rcases List.mem_cons.mp hf with rfl | hf
      · exact ⟨field, hfirst⟩
      · exact ih hrest hf

theorem rewriteTagLinks_eq_some {fields : List Str} {out : Str}
    (h : rewriteTagLinks lib target fields = some out) : ∃ links next resolved,
      fields.mapM parseLinkField = some links ∧
        (links.flatten.filter fun link => isNextLink link.params) = [next] ∧
        resolvedTagLinkUrl lib target next.uri = some resolved ∧
        out = '<' :: (tagLinkTarget target resolved.query ++ '>' :: next.params) := by
  unfold rewriteTagLinks at h
  split at h
  · contradiction
  · split at h
    · contradiction
    · rename_i links hlinks
      obtain ⟨next, hnext, h⟩ := Option.bind_eq_some_iff.mp h
      obtain ⟨resolved, hresolved, h⟩ := Option.bind_eq_some_iff.mp h
      cases h
      exact ⟨links, next, resolved, hlinks, selectNextLink_eq_some_iff.mp hnext, hresolved, rfl⟩

/-- The rewritten link is one link to the proxy, and leads on where the upstream's leads. -/
theorem next_link_leads_on (laws : LinkLaws lib) {aliases : AliasTable lib} {name : Str}
    (hname : resolveName lib name aliases.map = some (.oci target)) {fields : List Str}
    {out : Str} (h : rewriteTagLinks lib target fields = some out) {decode : PathDecoder}
    (hd : DecodesEscapes decode) :
    ∃ links next tagsUrl resolved url,
      fields.mapM parseLinkField = some links ∧
      (links.flatten.filter fun link => isNextLink link.params) = [next] ∧
      upstreamUrl lib target (str "tags/list") = .ok tagsUrl ∧
      lib.join tagsUrl next.uri = some resolved ∧
      ProxyLink target next resolved.query out ∧
      upstreamUrl lib target
        (tagsSuffix (requestParts (tagLinkTarget target resolved.query)).2) = .ok url ∧
      SamePage lib tagsUrl resolved url ∧
      (str "manifests" ∉ (nonemptySegments name).tail →
        str "blobs" ∉ (nonemptySegments name).tail →
        Asks lib aliases decode (tagLinkTarget target resolved.query) url) := by
  obtain ⟨links, next, resolved, hlinks, hnext, hresolved, rfl⟩ := rewriteTagLinks_eq_some h
  obtain ⟨tagsUrl, htags, hjoin, horigin, hpath, hplain⟩ :=
    resolvedTagLinkUrl_eq_some laws hresolved
  obtain ⟨-, hhttp, -⟩ := tagsUrl_of_upstreamUrl laws htags
  have hfull : target.fullName = name := fullName_of_resolveName hname
  have hchars : ∀ c ∈ target.fullName, isFieldChar c = true ∧ c ≠ '>' ∧ c ≠ '?' ∧ c ≠ '%' := by
    rw [hfull]
    intro c hc
    exact fieldChar_of_name (nameChar_of_resolveName hname c hc)
  have hmark : '?' ∉ target.fullName := fun hm => (hchars _ hm).2.2.1 rfl
  -- the next link stands in one of the fields
  have hmem : next ∈ links.flatten ∧ isNextLink next.params = true := by
    have : next ∈ links.flatten.filter fun link => isNextLink link.params := by
      rw [hnext]
      apply List.mem_singleton_self
    simpa using List.mem_filter.mp this
  obtain ⟨found, hfound, hin⟩ := List.mem_flatten.mp hmem.1
  obtain ⟨field, hfield⟩ := mem_of_mapM hlinks hfound
  obtain ⟨hall, hscanned⟩ := parseLinkField_eq_some_iff.mp hfield
  obtain ⟨hprinted, hsub⟩ := printedParams_of_links hscanned next hin
  have hparams : ∀ c ∈ next.params, isFieldChar c = true := fun c hc =>
    List.all_eq_true.mp hall c (hsub c hc)
  have huri : ∀ c ∈ tagLinkTarget target resolved.query, isFieldChar c = true ∧ c ≠ '>' :=
    tagLinkTarget_chars (fun c hc => ⟨(hchars c hc).1, (hchars c hc).2.1⟩) hplain
  have hparse := parseLinkField_print huri hprinted hparams
  have hurl := upstreamUrl_tagsSuffix htags (resolved.query.filter (· ≠ []))
  rw [getD_filter] at hurl
  have hparts := requestParts_tagLinkTarget hmark resolved.query
  refine ⟨links, next, tagsUrl, resolved, _, hlinks, hnext, htags, hjoin,
    ⟨hparse, hmem.2, ?_⟩, by rw [hparts]; exact hurl,
    samePage_of_query laws hhttp horigin hpath hplain, ?_⟩
  · intro c hc
    apply eq_tab_of_isFieldChar
    exact List.all_eq_true.mp (parseLinkField_eq_some_iff.mp hparse).1 c hc
  · intro hm hb
    obtain ⟨hpercent, hne⟩ := percent_not_mem_of_resolveName hname
    refine ⟨trimMatches '/' name, {target with fullName := trimMatches '/' name}, ?_, ?_, ?_⟩
    · rw [hparts, hfull]
      exact parseOciPath_tagsPath hd hne hpercent hm hb
    · exact resolveName_of_segments (nonemptySegments_trimMatches name) hname
    · rw [hparts]
      exact hurl

end NextLink

section Instances
open PlainUrls

theorem parse_cases {s : Str} {u : Url} (h : PlainUrls.parse s = some u) :
    ∃ scheme rest, scheme ∈ [str "http", str "https"] ∧ s = scheme ++ (str "://" ++ rest) ∧
      parseBehind scheme rest = some u := by
  have cut : ∀ (pre : Str) {rest : Str}, s.dropPrefix? pre = some rest → s = pre ++ rest := by
    intro pre rest hd
    obtain ⟨pre', hs, hp⟩ := List.dropPrefix?_eq_some_iff.mp hd
    rw [hs, eq_of_beq hp]
  unfold PlainUrls.parse at h
  split at h
  · rename_i rest hd
    exact ⟨str "https", rest, by simp, cut (str "https://") hd, h⟩
  · split at h
    · rename_i rest hd
      exact ⟨str "http", rest, by simp, cut (str "http://") hd, h⟩
    · contradiction

theorem plainQueryChar_of_queryChar {c : Char} (h : queryChar c = true) :
    plainQueryChar c = true := by
  have hlt : c.toNat < 128 := by
    simp only [queryChar, pathChar, Bool.or_eq_true, beq_iff_eq] at h
    rcases h with ((((h | rfl) | rfl) | rfl) | rfl) | rfl
    · exact toNat_lt_of_chartNameChar h
    all_goals decide
  exact ascii_forall (P := fun c => queryChar c = true → plainQueryChar c = true) (by decide) hlt h

theorem parseTail_query {tail path : Str} {query : Option Str}
    (h : parseTail tail = some (path, query)) : ∀ q ∈ query, q.all plainQueryChar = true := by
  simp only [parseTail, Option.ite_none_right_eq_some, Bool.and_eq_true, Option.some.injEq,
    Prod.mk.injEq] at h
  obtain ⟨⟨-, hall⟩, -, rfl⟩ := h
  intro q hq
  rw [Option.mem_def.mp hq] at hall
  apply List.all_eq_true.mpr
  intro c hc
  exact plainQueryChar_of_queryChar (List.all_eq_true.mp hall c hc)

theorem parseBehind_eq_some {scheme rest : Str} {u : Url} (h : parseBehind scheme rest = some u) :
    u.scheme = scheme ∧ ∀ q ∈ u.query, q.all plainQueryChar = true := by
  simp only [parseBehind, bind] at h
  split at h
  · contradiction
  · obtain ⟨port, -, h⟩ := Option.bind_eq_some_iff.mp h
    obtain ⟨⟨path, query⟩, htail, h⟩ := Option.bind_eq_some_iff.mp h
    cases h
    exact ⟨rfl, parseTail_query htail⟩

theorem join_cases {base u : Url} {s : Str} (h : PlainUrls.join base s = some u) :
    PlainUrls.parse s = some u ∨ PlainUrls.parse s = none ∧ ['/'] <+: s ∧
      ∃ path query, parseTail s = some (path, query) ∧ u = {base with path := path, query := query} := by
  unfold PlainUrls.join at h
  split at h
  · rename_i hp
    cases h
    exact Or.inl hp
  · rename_i hp
    simp only [Option.ite_none_right_eq_some, Bool.and_eq_true, Option.map_eq_some_iff] at h
    obtain ⟨⟨hslash, -⟩, ⟨path, query⟩, htail, rfl⟩ := h
    exact Or.inr ⟨hp, List.isPrefixOf_iff_prefix.mp hslash, path, query, htail, rfl⟩

theorem colon_not_mem_of_isRfcScheme {scheme : Str} (h : isRfcScheme scheme = true) :
    ':' ∉ scheme ∧ ∃ c s, scheme = c :: s ∧ c ≠ '/' := by
  cases scheme with
  | nil => contradiction
  | cons c s =>
      simp only [isRfcScheme, Bool.and_eq_true, List.all_eq_true] at h
      obtain ⟨hc, hs⟩ := h
      constructor
      · intro hm
        rcases List.mem_cons.mp hm with rfl | hm
        · exact absurd hc (by decide)
        · exact absurd (hs _ hm) (by decide)
      · refine ⟨c, s, rfl, ?_⟩
        rintro rfl
        exact absurd hc (by decide)

theorem scheme_of_parse {scheme rest : Str} {u : Url} (hrfc : isRfcScheme scheme = true)
    (h : PlainUrls.parse (scheme ++ (str "://" ++ rest)) = some u) :
    u.scheme = toAsciiLowercase scheme := by
  obtain ⟨scheme', rest', hs, heq, hbehind⟩ := parse_cases h
  have hschemes : ∀ s ∈ [str "http", str "https"], ':' ∉ s ∧ toAsciiLowercase s = s := by decide
  have hcut := splitOnce_append (colon_not_mem_of_isRfcScheme hrfc).1 (str "//" ++ rest)
  have hcut' := splitOnce_append (hschemes _ hs).1 (str "//" ++ rest')
  change splitOnce ':' (scheme ++ (str "://" ++ rest)) = _ at hcut
  rw [heq] at hcut
  obtain ⟨rfl, -⟩ : scheme = scheme' ∧ _ := by
    simpa using hcut.symm.trans hcut'
  rw [(parseBehind_eq_some hbehind).1, (hschemes _ hs).2]

theorem parse_relative {s : Str} (h : ':' ∉ s.takeWhile inFirstSegment) :
    PlainUrls.parse s = none := by
  cases hp : PlainUrls.parse s with
  | none => rfl
  | some u =>
      obtain ⟨scheme, rest, hs, rfl, -⟩ := parse_cases hp
      have hfirst : ∀ s ∈ [str "http", str "https"], s.all inFirstSegment = true := by decide
      have hcolon : (str "://" ++ rest).takeWhile inFirstSegment = [':'] := by
        change List.takeWhile inFirstSegment (':' :: '/' :: ('/' :: rest)) = [':']
        rw [List.takeWhile_cons_of_pos (by decide), List.takeWhile_cons_of_neg (by decide)]
      rw [List.takeWhile_append_of_pos (List.all_eq_true.mp (hfirst scheme hs)),
        hcolon] at h
      simp at h

theorem plainUrls_links : LinkLaws plainUrls where
  absolute scheme rest u hrfc h := scheme_of_parse hrfc h
  join_absolute base scheme rest hrfc := by
    obtain ⟨-, c, s, rfl, hslash⟩ := colon_not_mem_of_isRfcScheme hrfc
    change PlainUrls.join _ _ = PlainUrls.parse _
    unfold PlainUrls.join
    split
    · rename_i hp
      exact hp.symm
    · rename_i hp
      rw [hp]
      simp [Ne.symm hslash]
  relative _ hcolon := parse_relative hcolon
  join_relative base s u hcolon h := by
    rcases join_cases h with hp | ⟨-, -, path, query, -, rfl⟩
    · rw [parse_relative hcolon] at hp
      contradiction
    · rfl
  query s u h _ := by
    obtain ⟨scheme, rest, -, -, hbehind⟩ := parse_cases h
    exact (parseBehind_eq_some hbehind).2
  join_query base s u h _ _ := by
    rcases join_cases h with hp | ⟨-, -, path, query, htail, rfl⟩
    · obtain ⟨scheme, rest, -, -, hbehind⟩ := parse_cases hp
      exact (parseBehind_eq_some hbehind).2
    · exact parseTail_query htail
  encodeQuery _ _ _ _ := rfl

/-- A registry with a repository, and one whose text brings a query. -/
def registryAliases : AliasTable plainUrls where
  map := collect [
    (str "team", ⟨.oci (str "registry.example.com") (str "acme"), false, .none, false⟩),
    (str "odd", ⟨.oci (str "registry.example.com?x=1") (str "acme"), false, .none, false⟩)]
  names := by decide
  upstreams := by
    intro name entry h
    have hm := mem_of_lookup_collect h
    simp only [List.mem_cons, List.not_mem_nil, or_false, Prod.mk.injEq] at hm
    rcases hm with ⟨-, rfl⟩ | ⟨-, rfl⟩
    · exact ⟨str "oci://registry.example.com/acme", by decide⟩
    · exact ⟨str "oci://registry.example.com?x=1/acme", by decide⟩

def demoTarget : OciTarget :=
  ⟨str "registry.example.com", str "acme/demo", str "team/demo", false, .none, false⟩

def demoFields : List Str :=
  [str "</v2/acme/demo/tags/list?n=2&last=a>; rel=prev",
    str "</v2/acme/demo/tags/list?n=2&last=b>; title=\"a, b\"; rel=next"]

theorem demo_link_leads_on :
    ∃ links next tagsUrl resolved url,
      demoFields.mapM parseLinkField = some links ∧
      (links.flatten.filter fun link => isNextLink link.params) = [next] ∧
      upstreamUrl plainUrls demoTarget (str "tags/list") = .ok tagsUrl ∧
      plainUrls.join tagsUrl next.uri = some resolved ∧
      ProxyLink demoTarget next resolved.query
        (str "</v2/team/demo/tags/list?n=2&last=b>; title=\"a, b\"; rel=next") ∧
      upstreamUrl plainUrls demoTarget
        (tagsSuffix (requestParts (tagLinkTarget demoTarget resolved.query)).2) = .ok url ∧
      SamePage plainUrls tagsUrl resolved url ∧
      (str "manifests" ∉ (nonemptySegments (str "team/demo")).tail →
        str "blobs" ∉ (nonemptySegments (str "team/demo")).tail →
        Asks plainUrls registryAliases asciiDecoder (tagLinkTarget demoTarget resolved.query)
          url) :=
  next_link_leads_on plainUrls_links (by decide +kernel) (by decide +kernel) asciiDecoder_decodes

/-- A tab of the upstream's reaches the client, a registry's own query returns, and a
repository named by a marker word has no tag list. -/
theorem next_links_astray :
    (resolveName plainUrls (str "team/demo") registryAliases.map = some (.oci demoTarget) ∧
      ∃ out, rewriteTagLinks plainUrls demoTarget
          [str "</v2/acme/demo/tags/list>;\trel=next"] = some out ∧
        ¬ ∀ c ∈ out, isAsciiControl c = false) ∧
    (∃ target, resolveName plainUrls (str "odd/demo") registryAliases.map = some (.oci target) ∧
      ∃ tagsUrl resolved url, upstreamUrl plainUrls target (str "tags/list") = .ok tagsUrl ∧
        plainUrls.join tagsUrl (str "/v2/acme/demo/tags/list") = some resolved ∧
        rewriteTagLinks plainUrls target [str "</v2/acme/demo/tags/list>; rel=next"] =
          some (str "</v2/odd/demo/tags/list>; rel=next") ∧
        Asks plainUrls registryAliases asciiDecoder (str "/v2/odd/demo/tags/list") url ∧
        url.query.getD [] ≠ resolved.query.getD []) ∧
    ∃ target, resolveName plainUrls (str "team/manifests") registryAliases.map =
        some (.oci target) ∧
      rewriteTagLinks plainUrls target [str "</v2/acme/manifests/tags/list>; rel=next"] =
        some (str "</v2/team/manifests/tags/list>; rel=next") ∧
      parseOciPath asciiDecoder (str "/v2/team/manifests/tags/list") = .notFound := by
  refine ⟨⟨by decide +kernel, str "</v2/team/demo/tags/list>;\trel=next", by decide +kernel, ?_⟩,
    ?_, ?_⟩
  · intro h
    exact absurd (h '\t' (by decide)) (by decide)
  · refine ⟨⟨str "registry.example.com?x=1", str "acme/demo", str "odd/demo", false, .none, false⟩,
      by decide +kernel, ?_⟩
    refine ⟨⟨str "https", [], none, some (.domain (str "registry.example.com")), none,
      str "/v2/acme/demo/tags/list", some (str "x=1/"), none⟩, ⟨str "https", [], none,
      some (.domain (str "registry.example.com")), none, str "/v2/acme/demo/tags/list", none,
      none⟩, ⟨str "https", [], none, some (.domain (str "registry.example.com")), none,
      str "/v2/acme/demo/tags/list", some (str "x=1/"), none⟩, by rfl, by decide +kernel,
      by decide +kernel, ?_, by decide⟩
    exact ⟨str "odd/demo", ⟨str "registry.example.com?x=1", str "acme/demo", str "odd/demo", false,
      .none, false⟩, by decide +kernel, by decide +kernel, by rfl⟩
  · exact ⟨⟨str "registry.example.com", str "acme/manifests", str "team/manifests", false, .none,
      false⟩, by decide +kernel, by decide +kernel, by decide +kernel⟩

end Instances

end Helmoci.NextPages
