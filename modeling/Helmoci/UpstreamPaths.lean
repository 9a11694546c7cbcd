import Helmoci.PassthroughHandler
import Helmoci.PlainCrates
import Helmoci.StorageKeys

/-!
# Where requests to an alias's registry go

The client's path is decoded once, cut at slashes, joined with the alias's repository
and cut again before each segment is pushed. Every segment that reaches the URL has
passed a grammar whose texts need no escape, so the path is read off the request.
-/
namespace Helmoci.UpstreamPaths
open RustText UrlInterface SegmentedText NameGrammar OciDigest OciPaths NameResolver PlainUrls
  ServerErrors EffectPrograms ServerOperations UpstreamRequests RegistryTokens BlobStorage
  ServerState PassthroughHandler StorageKeys PlainCrates

section Handlers
variable (state : AppState)

/-- The path and query of a tag list. -/
def tagsSuffix (query : Option Str) : Str :=
  match query with
  | some query => str "tags/list?" ++ query
  | none => str "tags/list"

/-- The tag list of a registry, before its name and links are rewritten. -/
def upstreamTags (target : OciTarget) (query : Option Str) : Server HttpResponse := do
  let response ← sendToUpstream state target false (tagsSuffix query) none
  if response.status = 404 then
    throw (.nameUnknown (str "upstream repository unknown: " ++ target.fullName))
  else if !response.isSuccess then
    throw (.upstream (str "upstream registry returned HTTP " ++ (decimal response.status ++
      str " for tag list")))
  else return response

end Handlers

/-- The repository that a route is about. -/
def routeName : OciRoute → Option Str
  | .manifest name _ | .blob name _ | .tags name => some name
  | .api | .notFound => none

/-- What stands behind the repository in the upstream's path. -/
def routeSuffix : OciRoute → Str
  | .manifest _ reference => str "manifests/" ++ reference
  | .blob _ digest => str "blobs/" ++ digest
  | .tags _ => str "tags/list"
  | .api | .notFound => []

/-- What a route asks its registry for. -/
def RouteSuffix (query : Option Str) : OciRoute → Str → Prop
  | .manifest _ reference, suffix => suffix = str "manifests/" ++ reference
  | .blob _ digest, suffix => suffix = str "blobs/" ++ digest ∧ (Digest.parse digest).isSome = true
  | .tags _, suffix => suffix = tagsSuffix query
  | .api, _ | .notFound, _ => False

/-- `host[:port]` -/
def authority (host : Str) (port : Option Str) : Str := host ++ port.elim [] (':' :: ·)

/-- A segment that is pushed as it is. -/
def PlainSegment (s : Str) : Prop :=
  s ≠ [] ∧ s ≠ str "." ∧ s ≠ str ".." ∧ ∀ c ∈ s, chartNameChar c = true ∨ c = ':'

/-- What the URL library's documentation says of `http[s]://host[:port]/`, and of pushing
segments that need no escape. -/
structure RegistryLaws (lib : UrlCrate) : Prop where
  parts : ∀ scheme host h port url, scheme ∈ [str "http", str "https"] →
    lib.hostParse host = some h → (∀ p ∈ port, p ≠ [] ∧ p.all Char.isDigit = true) →
    lib.parse (scheme ++ (str "://" ++ (authority host port ++ str "/"))) = some url →
      url.scheme = scheme ∧ url.hasUserinfo = false ∧ url.host = some h ∧
        url.portOrKnownDefault =
          ((port.map fun p => Nat.ofDigitChars 10 p 0).orElse fun _ => knownPort scheme) ∧
        url.path = str "/" ∧ url.query = none ∧ url.fragment = none
  push : ∀ url segments, url.path = str "/" → segments ≠ [] →
    (∀ s ∈ segments, PlainSegment s) →
    lib.pushSegments url segments = (segments.map ('/' :: ·)).flatten

/-- A URL of the alias with this path. -/
structure AliasUrl (entry : Alias) (h : Host) (port : Option Str) (path : Str) (url : Url) :
    Prop where
  scheme : url.scheme = if entry.plainHttp then str "http" else str "https"
  host : url.host = some h
  port : url.portOrKnownDefault =
    ((port.map fun p => Nat.ofDigitChars 10 p 0).orElse fun _ => knownPort url.scheme)
  userinfo : url.hasUserinfo = false
  fragment : url.fragment = none
  path : url.path = path

section Segments

theorem PlainSegment.not_mem {s : Str} (h : PlainSegment s) : '/' ∉ s ∧ '?' ∉ s := by
  have hall : ∀ c, chartNameChar c = true ∨ c = ':' → c ≠ '/' ∧ c ≠ '?' := by
    intro c hc
    constructor
    · rintro rfl
      exact absurd hc (by decide)
    · rintro rfl
      exact absurd hc (by decide)
  constructor
  · intro hm
    exact (hall _ (h.2.2.2 _ hm)).1 rfl
  · intro hm
    exact (hall _ (h.2.2.2 _ hm)).2 rfl

theorem plainSegment_of_isValidChartName {s : Str} (h : isValidChartName s = true) :
    PlainSegment s := by
  refine ⟨isValidChartName_ne_nil h, ?_, ?_, ?_⟩
  · rintro rfl
    exact absurd h (by decide)
  · rintro rfl
    exact absurd h (by decide)
  · intro c hc
    exact Or.inl (isValidChartName_all h c hc)

theorem plainSegment_of_digest (d : Digest) : PlainSegment d.asStr := by
  obtain ⟨hexPart, hx, -, hd⟩ := d.asStr_eq
  have hlen := JsonDocuments.length_digest d
  refine ⟨d.asStr_ne_nil, ?_, ?_, ?_⟩
  · intro h
    rw [h] at hlen
    contradiction
  · intro h
    rw [h] at hlen
    contradiction
  · intro c hc
    rw [hd] at hc
    rcases List.mem_append.mp hc with hc | hc
    · have hall : ∀ c ∈ str "sha256:", chartNameChar c = true ∨ c = ':' :=
        forall_of_all (by decide)
      exact hall c hc
    · have hhex : ∀ c, isLowerHex c = true → chartNameChar c = true := by
        intro c hc
        exact ascii_forall (P := fun c => isLowerHex c = true → chartNameChar c = true) (by decide)
          (JsonDocuments.toNat_lt_of_isLowerHex hc) hc
      exact Or.inl (hhex c (List.all_eq_true.mp hx c hc))

theorem plainSegment_of_reference {r : Str} (h : isValidManifestReference r = true) :
    PlainSegment r := by
  cases hd : Digest.parse r with
  | some d =>
      rw [Digest.parse_eq_some hd]
      exact plainSegment_of_digest d
  | none =>
      have hv := validPathSegment_of_tag h hd
      simp only [validPathSegment, Bool.and_eq_true, Bool.not_eq_true', bne_iff_ne] at hv
      simp only [isValidManifestReference, hd, Option.isSome_none, Bool.false_or] at h
      refine ⟨by simpa using hv.1.1.1, hv.1.1.2, hv.1.2, ?_⟩
      cases r with
      | nil => simp
      | cons c s =>
          simp only [Bool.and_eq_true, List.all_eq_true] at h
          intro d hd
          apply Or.inl
          rcases List.mem_cons.mp hd with rfl | hd
          · have hc := h.1.1
            simp only [Bool.or_eq_true] at hc
            rcases hc with hc | hc <;> simp [chartNameChar, hc]
          · have hc := h.2 d hd
            simp only [Bool.or_eq_true] at hc
            rcases hc with ((hc | hc) | hc) | hc <;> simp [chartNameChar, hc]

end Segments

section Confinement
variable {lib : UrlCrate}

/-- The target of a name whose first segment is an alias of a registry. -/
theorem oci_of_resolveName {name first : Str} {aliases : HashMap Alias} {entry : Alias}
    {registry repo : Str} {target : OciTarget} (hl : aliases.lookup first = some entry)
    (hu : entry.upstream = .oci registry repo) (hf : (nonemptySegments name).head? = some first)
    (h : resolveName lib name aliases = some (.oci target)) :
    target.registry = registry ∧ target.plainHttp = entry.plainHttp ∧
      target.repo = repo ++ '/' :: ['/'].intercalate (nonemptySegments name).tail ∧
      (nonemptySegments name).tail ≠ [] ∧
      ∀ s ∈ (nonemptySegments name).tail, isValidChartName s = true := by
  unfold resolveName at h
  cases hs : nonemptySegments name with
  | nil =>
      rw [hs] at hf
      contradiction
  | cons w rest =>
      rw [hs] at hf h
      obtain rfl : w = first := by simpa using hf
      simp only [hl, hu] at h
      split at h
      · contradiction
      · rename_i hr
        simp only [Bool.or_eq_true, List.isEmpty_iff, Bool.not_eq_true', not_or,
          Bool.not_eq_false, List.all_eq_true] at hr
        cases h
        exact ⟨rfl, rfl, rfl, hr.1, hr.2⟩

theorem splitOnce_eq_none {c : Char} {s : Str} (h : c ∉ s) : splitOnce c s = none := by
  cases hs : splitOnce c s with
  | none => rfl
  | some p =>
      rw [splitOnce_eq_some hs] at h
      simp at h

/-- Every segment behind a slash is the text behind a slash. -/
theorem flatten_splitOn (s : Str) : ((s.splitOn '/').map ('/' :: ·)).flatten = '/' :: s := by
  have hjoin : ∀ l : List Str, l ≠ [] →
      (l.map ('/' :: ·)).flatten = '/' :: ['/'].intercalate l := by
    intro l
    induction l with
    | nil => simp
    | cons w l ih =>
        intro _
        cases l with
        | nil => simp
        | cons v l =>
            have hv := ih (by simp)
            rw [List.map_cons, List.flatten_cons, hv, List.intercalate_cons_cons]
            simp
  rw [hjoin _ (List.splitOn_ne_nil _ _), List.intercalate_splitOn]

/-- The URL of a suffix whose segments need no escape. -/
theorem aliasUrl_of_upstreamUrl (laws : RegistryLaws lib) {target : OciTarget} {entry : Alias}
    {host : Str} {h : Host} {port : Option Str} {repo : Str} {segments suffix : List Str}
    {query : Option Str} {url : Url} (hreg : target.registry = authority host port)
    (hplain : target.plainHttp = entry.plainHttp) (hhost : lib.hostParse host = some h)
    (hport : ∀ p ∈ port, p ≠ [] ∧ p.all Char.isDigit = true)
    (hrepo : target.repo = repo ++ '/' :: ['/'].intercalate segments)
    (hr : ∀ s ∈ repo.splitOn '/', PlainSegment s) (hs : ∀ s ∈ segments, PlainSegment s)
    (hne : segments ≠ []) (hx : ∀ s ∈ suffix, PlainSegment s) (hxne : suffix ≠ [])
    (hurl : upstreamUrl lib target (['/'].intercalate suffix ++ query.elim [] ('?' :: ·)) =
      .ok url) :
    AliasUrl entry h port (str "/v2/" ++ (repo ++ '/' :: (['/'].intercalate segments ++ '/' ::
      ['/'].intercalate suffix))) url ∧
      url.query = (query.filter (· ≠ [])).map (lib.encodeQuery {url with query := none}) := by
  have hq : '?' ∉ ['/'].intercalate suffix := by
    intro hm
    rcases mem_intercalate hm with hm | ⟨w, hw, hm⟩
    · exact absurd hm (by decide)
    · exact (hx w hw).not_mem.2 hm
  have hcut : (splitOnce '?' (['/'].intercalate suffix ++ query.elim [] ('?' :: ·))).getD
      (['/'].intercalate suffix ++ query.elim [] ('?' :: ·), []) =
        (['/'].intercalate suffix, query.getD []) := by
    cases query with
    | none => simp [splitOnce_eq_none hq]
    | some query => simp [splitOnce_append hq]
  have hsegments : target.repo.splitOn '/' = repo.splitOn '/' ++ segments := by
    rw [hrepo, List.splitOn_append_cons_self,
      List.splitOn_intercalate '/' (fun s hm => (hs s hm).not_mem.1) hne]
  have hsuffix : (['/'].intercalate suffix).splitOn '/' = suffix :=
    List.splitOn_intercalate '/' (fun s hm => (hx s hm).not_mem.1) hxne
  unfold upstreamUrl at hurl
  rw [hcut] at hurl
  split at hurl
  · contradiction
  · rename_i base hbase
    rw [hreg] at hbase
    obtain ⟨h₁, h₂, h₃, h₄, h₅, h₆, h₇⟩ :=
      laws.parts _ _ _ _ _ (mem_scheme target) hhost hport hbase
    have hplainAll : ∀ s ∈ str "v2" ::
        (target.repo.splitOn '/' ++ (['/'].intercalate suffix).splitOn '/'), PlainSegment s := by
      rw [hsegments, hsuffix]
      intro s hm
      rcases List.mem_cons.mp hm with rfl | hm
      · exact plainSegment_of_isValidChartName (by decide)
      · rcases List.mem_append.mp hm with hm | hm
        · rcases List.mem_append.mp hm with hm | hm
          · exact hr s hm
          · exact hs s hm
        · exact hx s hm
    have hpath : lib.pushSegments base (str "v2" ::
        (target.repo.splitOn '/' ++ (['/'].intercalate suffix).splitOn '/')) =
        str "/v2/" ++ (repo ++ '/' :: (['/'].intercalate segments ++ '/' ::
          ['/'].intercalate suffix)) := by
      rw [laws.push base _ h₅ (List.cons_ne_nil _ _) hplainAll, List.map_cons, List.flatten_cons, List.map_append,
        List.flatten_append, flatten_splitOn, flatten_splitOn, hrepo]
      simp [str]
    have hscheme : base.scheme = if entry.plainHttp then str "http" else str "https" := by
      rw [h₁, OciTarget.scheme, hplain]
    dsimp only at hurl
    rw [hpath] at hurl
    cases hurl
    by_cases hempty : (query.getD []).isEmpty = true
    · have hnone : query.filter (· ≠ []) = none := by
        cases query with
        | none => rfl
        | some query => simpa [Option.filter] using hempty
      rw [if_pos hempty]
      exact ⟨⟨hscheme, h₃, by rw [← h₁] at h₄; exact h₄, h₂, h₇, rfl⟩, by rw [hnone]; exact h₆⟩
    · have hsome : ∃ text, query = some text ∧ text ≠ [] := by
        cases query with
        | none => simp at hempty
        | some query => exact ⟨query, rfl, by simpa using hempty⟩
      obtain ⟨text, rfl, htext⟩ := hsome
      rw [if_neg hempty]
      refine ⟨⟨hscheme, h₃, by rw [← h₁] at h₄; exact h₄, h₂, h₇, rfl⟩, ?_⟩
      simp [Option.filter, htext, Url.setQuery, h₆]

/-- What a request may be for a route of the alias's repository: the URL is the alias's, with
the client's query on tag lists only. -/
structure RouteUrl (lib : UrlCrate) (entry : Alias) (h : Host) (port : Option Str) (repo name : Str)
    (route : OciRoute) (query : Option Str) (url : Url) : Prop where
  path : AliasUrl entry h port (str "/v2/" ++ (repo ++ '/' ::
    (['/'].intercalate (nonemptySegments name).tail ++ '/' :: routeSuffix route))) url
  query : url.query =
    match route with
    | .tags _ => (query.filter (· ≠ [])).map (lib.encodeQuery {url with query := none})
    | _ => none

/-- The URL that is built for a path stays below the alias's repository. -/
theorem routeUrl_of_upstreamUrl (laws : RegistryLaws lib) {decode : PathDecoder}
    {pathname first name repo host suffix : Str} {h : Host} {port query : Option Str}
    {aliases : HashMap Alias} {entry : Alias} {target : OciTarget} {url : Url}
    (hl : aliases.lookup first = some entry) (hu : entry.upstream = .oci (authority host port) repo)
    (hhost : lib.hostParse host = some h)
    (hport : ∀ p ∈ port, p ≠ [] ∧ p.all Char.isDigit = true)
    (hrepo : ∀ s ∈ repo.splitOn '/', isValidChartName s = true)
    (hf : (nonemptySegments name).head? = some first)
    (hres : resolveName lib name aliases = some (.oci target))
    (hsuffix : RouteSuffix query (parseOciPath decode pathname) suffix)
    (hurl : upstreamUrl lib target suffix = .ok url) :
    RouteUrl lib entry h port repo name (parseOciPath decode pathname) query url := by
  obtain ⟨hreg, hplain, htrepo, hne, hsegs⟩ := oci_of_resolveName hl hu hf hres
  have hr : ∀ s ∈ repo.splitOn '/', PlainSegment s := fun s hs =>
    plainSegment_of_isValidChartName (hrepo s hs)
  have hs : ∀ s ∈ (nonemptySegments name).tail, PlainSegment s := fun s hm =>
    plainSegment_of_isValidChartName (hsegs s hm)
  -- a suffix of two plain segments
  have built : ∀ (word last : Str) (query : Option Str), (∀ s ∈ [word, last], PlainSegment s) →
      upstreamUrl lib target (word ++ '/' :: (last ++ query.elim [] ('?' :: ·))) = .ok url →
      AliasUrl entry h port (str "/v2/" ++ (repo ++ '/' ::
        (['/'].intercalate (nonemptySegments name).tail ++ '/' :: (word ++ '/' :: last)))) url ∧
      url.query = (query.filter (· ≠ [])).map (lib.encodeQuery {url with query := none}) := by
    intro word last query hx hurl
    have hj : ['/'].intercalate [word, last] = word ++ '/' :: last := by simp
    have hcut : upstreamUrl lib target
        (['/'].intercalate [word, last] ++ query.elim [] ('?' :: ·)) = .ok url := by
      simpa [hj] using hurl
    have hb := aliasUrl_of_upstreamUrl laws hreg hplain hhost hport htrepo hr hs hne hx (by simp) hcut
    rwa [hj] at hb
  have hword : ∀ word ∈ [str "manifests", str "blobs", str "tags", str "list"],
      PlainSegment word := by
    have hv : ∀ word ∈ [str "manifests", str "blobs", str "tags", str "list"],
        isValidChartName word = true := by decide
    intro word hm
    exact plainSegment_of_isValidChartName (hv word hm)
  cases hroute : parseOciPath decode pathname with
  | api | notFound =>
      rw [hroute] at hsuffix
      exact hsuffix.elim
  | manifest n reference =>
      rw [hroute] at hsuffix
      obtain rfl : suffix = str "manifests/" ++ reference := hsuffix
      obtain ⟨hpath, hquery⟩ := built (str "manifests") reference none (by
        intro s hm
        rcases List.mem_cons.mp hm with rfl | hm
        · exact hword _ (by simp)
        · rw [List.mem_singleton.mp hm]
          exact plainSegment_of_reference (isValid_of_parseOciPath hroute)) (by
        simpa [str] using hurl)
      exact ⟨hpath, hquery⟩
  | blob n digestStr =>
      rw [hroute] at hsuffix
      obtain ⟨rfl, hdigest⟩ := hsuffix
      obtain ⟨d, hd⟩ := Option.isSome_iff_exists.mp hdigest
      obtain ⟨hpath, hquery⟩ := built (str "blobs") digestStr none (by
        intro s hm
        rcases List.mem_cons.mp hm with rfl | hm
        · exact hword _ (by simp)
        · rw [List.mem_singleton.mp hm, Digest.parse_eq_some hd]
          exact plainSegment_of_digest d) (by simpa [str] using hurl)
      exact ⟨hpath, hquery⟩
  | tags n =>
      rw [hroute] at hsuffix
      obtain rfl : suffix = tagsSuffix query := hsuffix
      obtain ⟨hpath, hquery⟩ := built (str "tags") (str "list") query (by
        intro s hm
        exact hword s (List.mem_cons_of_mem _ (List.mem_cons_of_mem _ hm))) (by
        cases query <;> simpa [tagsSuffix, str] using hurl)
      exact ⟨hpath, hquery⟩

end Confinement

section Registries

/-- The plain URL library, with hosts that are read as in its URLs. -/
def registryUrls : UrlCrate :=
  {plainUrls with hostParse := fun host =>
    if !host.isEmpty && host.all hostChar then some (.domain host) else none}

theorem parsePort_digits {scheme p : Str} (hne : p ≠ []) (hp : p.all Char.isDigit = true)
    {port : Option ℕ} (h : parsePort scheme (':' :: p) = some port) :
    (port.orElse fun _ => knownPort scheme) = some (Nat.ofDigitChars 10 p 0) := by
  have hnumber : p.foldl (fun n c => 10 * n + (c.toNat - 48)) 0 = Nat.ofDigitChars 10 p 0 := rfl
  simp only [parsePort, hp, Bool.and_true, hnumber] at h
  split at h
  · split at h
    · contradiction
    · cases h
      split
      · rename_i hk
        simp [hk]
      · rfl
  · rename_i hn
    simp [hne] at hn

theorem registryUrls_laws : RegistryLaws registryUrls := by
  constructor
  · intro scheme host h port url hs hhost hport hparse
    change (if !host.isEmpty && host.all hostChar then some (Host.domain host) else none) =
      some h at hhost
    split at hhost
    · rename_i hh
      simp only [Bool.and_eq_true, Bool.not_eq_true', List.all_eq_true] at hh
      cases hhost
      change PlainUrls.parse _ = _ at hparse
      rw [parse_scheme hs] at hparse
      have hcolon : ∀ c ∈ host, (c != ':') = true := by
        intro c hc
        rw [bne_iff_ne]
        rintro rfl
        exact absurd (hh.2 _ hc) (by decide)
      have htext : (authority host port).takeWhile (· != ':') = host ∧
          (authority host port).dropWhile (· != ':') = port.elim [] (':' :: ·) := by
        unfold authority
        rw [List.takeWhile_append_of_pos hcolon, List.dropWhile_append_of_pos hcolon]
        cases port <;> simp
      have hall : ∀ c ∈ authority host port, (c != '/' && c != '?') = true := by
        have hchar : ∀ c, hostChar c = true ∨ c = ':' ∨ c.isDigit = true →
            (c != '/' && c != '?') = true := by
          intro c hc
          simp only [Bool.and_eq_true, bne_iff_ne]
          constructor
          · rintro rfl
            exact absurd hc (by decide)
          · rintro rfl
            exact absurd hc (by decide)
        intro c hc
        apply hchar
        rcases List.mem_append.mp hc with hc | hc
        · exact Or.inl (hh.2 c hc)
        · cases port with
          | none => cases hc
          | some p =>
              rcases List.mem_cons.mp hc with rfl | hc
              · exact Or.inr (Or.inl rfl)
              · exact Or.inr (Or.inr (List.all_eq_true.mp (hport p rfl).2 c hc))
      have hslash : (str "/").takeWhile (fun c => c != '/' && c != '?') = [] ∧
          (str "/").dropWhile (fun c => c != '/' && c != '?') = str "/" := by decide
      have htail : parseTail (str "/") = some (str "/", none) := by decide
      simp only [parseBehind, List.takeWhile_append_of_pos hall, List.dropWhile_append_of_pos hall,
        hslash.1, hslash.2, List.append_nil, htext.1, htext.2, htail] at hparse
      split at hparse
      · contradiction
      · obtain ⟨n, hn, hparse⟩ := Option.bind_eq_some_iff.mp hparse
        cases hparse
        refine ⟨rfl, rfl, rfl, ?_, rfl, rfl, rfl⟩
        cases port with
        | none =>
            cases hn
            rfl
        | some p => exact parsePort_digits (hport p rfl).1 (hport p rfl).2 hn
    · contradiction
  · intro url segments hpath _ _
    change url.path.rdropWhile (· == '/') ++ _ = _
    rw [hpath]
    rfl

def teamState : AppState :=
  {plainState with
    crates := {plainCrates with url := registryUrls}
    cfg := {plainConfig with aliases := collect [(str "team",
      ⟨.oci (str "registry.example.com:5000") (str "acme/charts"), false, .none, false⟩)]}}

end Registries

end Helmoci.UpstreamPaths
