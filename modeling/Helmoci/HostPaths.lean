import Helmoci.NameResolver
import Helmoci.PlainUrls

/-!
# Names that spell out a host and a path

A name without an alias is a host, the path of a repository and a chart. The repository's URL is
put together from segments that cannot reach beyond the places they stand in, and its key is the
name without the chart.
-/
namespace Helmoci.HostPaths
open RustText UrlInterface SegmentedText NameGrammar NameResolver PlainUrls

section Urls

/-- Every segment behind a slash. -/
def slashed (path : List Str) : Str := path.flatMap fun s => '/' :: s

def hostPathUrl (host : Str) (path : List Str) : Str := str "https://" ++ (host ++ slashed path)

/-- What a host is known to be that passes for a public one. Its letter case does not matter. -/
structure PublicDomain (lib : UrlCrate) (host : Str) : Prop where
  two : 2 ≤ ((toAsciiLowercase host).splitOn '.').length
  labels : ∀ label ∈ (toAsciiLowercase host).splitOn '.', isHostLabel label = true
  notNumeric : ¬ ∀ label ∈ (toAsciiLowercase host).splitOn '.', isNumericLabel label = true
  notLocal : ¬ str ".local" <:+ toAsciiLowercase host
  notLocalhost : ¬ str ".localhost" <:+ toAsciiLowercase host
  domain : ∀ h, lib.hostParse (toAsciiLowercase host) = some h → ∃ name, h = .domain name

/-- What is relied on from the URL library, for a host of letters, digits and hyphens and a path
that needs no escapes: a parsed host is that of the host parser, and a domain is the text in
lower case. -/
structure HostLaws (lib : UrlCrate) : Prop where
  parse_plain : ∀ host path u, (∀ label ∈ (toAsciiLowercase host).splitOn '.',
    isHostLabel label = true) → (∀ s ∈ path, isValidChartName s = true) →
    lib.parse (hostPathUrl host path) = some u →
    ∃ h, lib.hostParse (toAsciiLowercase host) = some h ∧
      u = ⟨str "https", [], none, some h, none, '/' :: repositoryName path, none, none⟩
  domain : ∀ host name, (∀ label ∈ (toAsciiLowercase host).splitOn '.',
    isHostLabel label = true) → lib.hostParse (toAsciiLowercase host) = some (.domain name) →
    name = toAsciiLowercase host

theorem publicDomain_of_isPublicHostname {lib : UrlCrate} {host : Str}
    (h : isPublicHostname lib host = true) : PublicDomain lib host := by
  obtain ⟨htwo, hlabels⟩ := labels_of_isPublicHostname h
  simp only [isPublicHostname] at h
  split at h
  · cases h
  · split at h
    · cases h
    · rename_i hlocal
      split at h
      · cases h
      · simp only [Bool.or_eq_true, List.isSuffixOf_iff_suffix, not_or] at hlocal
        split at h
        · cases h
        · cases h
        · rename_i hip₄ hip₆
          split at h
          · cases h
          · rename_i hnumeric
            refine ⟨htwo, hlabels, ?_, hlocal.2, hlocal.1.2, ?_⟩
            · intro hall
              exact hnumeric (List.all_eq_true.mpr hall)
            · intro parsed hparsed
              cases parsed with
              | domain name => exact ⟨name, rfl⟩
              | ipv4 text => exact (hip₄ text hparsed).elim
              | ipv6 text => exact (hip₆ text hparsed).elim

theorem slashed_cons (s : Str) (path : List Str) :
    slashed (s :: path) = '/' :: repositoryName (s :: path) := by
  induction path generalizing s with
  | nil => simp [slashed, repositoryName]
  | cons t path ih =>
      have htail := ih t
      simp only [slashed, List.flatMap_cons, repositoryName] at htail ⊢
      rw [htail]
      simp [List.intercalate_cons_cons]

/-- The key of a host and a path is the host with the path behind it. -/
theorem repoKey_repositoryName {path : List Str} (hpath : ∀ s ∈ path, isValidChartName s = true)
    (host : Str) : repoKey host (repositoryName path) = host ++ slashed path := by
  cases path with
  | nil => simp [repoKey, repositoryName, slashed]
  | cons s path =>
      have hne := repositoryName_ne_nil (by simp) hpath
      rw [repoKey, slashed_cons, if_neg (by simpa using hne)]

theorem mem_slashed {c : Char} {path : List Str} (h : c ∈ slashed path) :
    c = '/' ∨ ∃ s ∈ path, c ∈ s := by
  obtain ⟨s, hs, hc⟩ := List.mem_flatMap.mp h
  rcases List.mem_cons.mp hc with rfl | hc
  · exact Or.inl rfl
  · exact Or.inr ⟨s, hs, hc⟩

end Urls

section Names
variable {lib : UrlCrate} {name : Str}

/-- The segments of a name that resolves as a host and a path, and what it resolves to. -/
theorem resolveHostPath_eq_some_iff {segments : List Str} {res : Resolved} :
    resolveHostPath lib segments name = some res ↔
      ∃ host path chartName, segments = host :: (path ++ [chartName]) ∧
        isPublicHostname lib host = true ∧
        (∀ s ∈ path ++ [chartName], isValidChartName s = true) ∧
        res = .classic ⟨hostPathUrl host path, chartName, name, false, .hostPath⟩ := by
  have hurl : ∀ (host : Str) (path : List Str),
      (if path.isEmpty then str "https://" ++ host
        else str "https://" ++ (host ++ '/' :: ['/'].intercalate path)) = hostPathUrl host path := by
    intro host path
    cases path with
    | nil => simp [hostPathUrl, slashed]
    | cons s path =>
        rw [hostPathUrl, slashed_cons]
        rfl
  constructor
  · intro h
    unfold resolveHostPath at h
    split at h
    · rename_i host c rest
      obtain ⟨path, chartName, hsplit⟩ : ∃ path chartName, c :: rest = path ++ [chartName] :=
        ⟨_, _, (List.dropLast_append_getLast (List.cons_ne_nil c rest)).symm⟩
      simp only [hsplit, List.dropLast_concat, List.getLast_concat] at h
      split at h
      · cases h
      · rename_i hpublic
        split at h
        · cases h
        · rename_i hchart
          split at h
          · cases h
          · rename_i hpath
            simp only [Bool.not_eq_true', Bool.not_eq_false] at hpublic hchart hpath
            refine ⟨host, path, chartName, by rw [hsplit], hpublic, ?_, ?_⟩
            · intro s hs
              rcases List.mem_append.mp hs with hs | hs
              · exact List.all_eq_true.mp hpath s hs
              · rw [List.mem_singleton.mp hs]
                exact hchart
            · rw [← hurl]
              exact (Option.some.inj h).symm
    · cases h
  · intro ⟨host, path, chartName, hsegments, hpublic, hvalid, hres⟩
    obtain ⟨c, rest, hsplit⟩ : ∃ c rest, path ++ [chartName] = c :: rest :=
      List.exists_cons_of_ne_nil (by simp)
    have hchart := hvalid chartName (by simp)
    have hpath : path.all isValidChartName = true :=
      List.all_eq_true.mpr fun s hs => hvalid s (List.mem_append_left _ hs)
    rw [hsegments, hsplit, resolveHostPath]
    simp only [← hsplit, List.dropLast_concat, List.getLast_concat, hpublic, hchart, hpath,
      Bool.not_true, Bool.false_eq_true, if_false, hurl, hres]

/-- Nothing of the name can end the host or the path, and no segment is a dot segment. -/
structure Contained (host : Str) (path : List Str) : Prop where
  reserved : ∀ c ∈ ['@', ':', '?', '#', '%', Char.ofNat 92], c ∉ host ++ slashed path
  host : '/' ∉ host
  segments : (slashed path).splitOn '/' = [] :: path
  noDots : ∀ s ∈ path, s ≠ ['.'] ∧ s ≠ ['.', '.']

theorem splitOn_slashed {path : List Str} (h : ∀ s ∈ path, '/' ∉ s) (front : Str)
    (hfront : '/' ∉ front) : (front ++ slashed path).splitOn '/' = front :: path := by
  induction path generalizing front with
  | nil => simp [slashed, List.splitOn_eq_singleton hfront]
  | cons s path ih =>
      have hcons : slashed (s :: path) = '/' :: (s ++ slashed path) := by simp [slashed]
      rw [hcons, List.splitOn_append_cons_self, List.splitOn_eq_singleton hfront,
        ih (fun t ht => h t (List.mem_cons_of_mem s ht)) s (h s List.mem_cons_self)]
      rfl

theorem contained_of_isPublicHostname {host : Str} {path : List Str}
    (hpublic : isPublicHostname lib host = true) (hpath : ∀ s ∈ path, isValidChartName s = true) :
    Contained host path := by
  have hhost := chartNameChar_of_isPublicHostname hpublic
  have hslash : ∀ s ∈ path, '/' ∉ s := fun s hs => not_mem_of_isValidChartName (hpath s hs) rfl
  constructor
  · intro c hc hm
    have hreserved : (['@', ':', '?', '#', '%', Char.ofNat 92].all
        fun c => !chartNameChar c && c != '/') = true := by decide
    have hno := List.all_eq_true.mp hreserved c hc
    simp only [Bool.and_eq_true, Bool.not_eq_true', bne_iff_ne, ne_eq] at hno
    rcases List.mem_append.mp hm with hm | hm
    · rw [hhost c hm] at hno
      cases hno.1
    · rcases mem_slashed hm with rfl | ⟨s, hs, hcs⟩
      · exact hno.2 rfl
      · exact not_mem_of_isValidChartName (hpath s hs) hno.1 hcs
  · intro hm
    exact absurd (hhost '/' hm) (by decide)
  · exact splitOn_slashed hslash [] List.not_mem_nil
  · intro s hs
    constructor
    · rintro rfl
      exact absurd (hpath _ hs) (by decide)
    · rintro rfl
      exact absurd (hpath _ hs) (by decide)

/-- What the URL library makes of the repository's URL, and the key that it has. -/
theorem parse_hostPathUrl (laws : HostLaws lib) {host : Str} {path : List Str} {u : Url}
    (hpublic : isPublicHostname lib host = true) (hpath : ∀ s ∈ path, isValidChartName s = true)
    (h : lib.parse (hostPathUrl host path) = some u) :
    u = ⟨str "https", [], none, some (.domain (toAsciiLowercase host)), none,
      '/' :: repositoryName path, none, none⟩ ∧
      normalizeRepoKey lib (hostPathUrl host path) =
        some (toAsciiLowercase host ++ slashed path) := by
  have hdomain := publicDomain_of_isPublicHostname hpublic
  obtain ⟨parsed, hparsed, hu⟩ := laws.parse_plain host path u hdomain.labels hpath h
  obtain ⟨domain, rfl⟩ := hdomain.domain parsed hparsed
  obtain rfl := laws.domain host domain hdomain.labels hparsed
  refine ⟨hu, ?_⟩
  subst hu
  rw [normalizeRepoKey, h]
  simp only [bind, Option.bind_some, Option.isSome_none, Bool.false_eq_true, if_false, Url.hostStr,
    Option.map_some, Host.text, toAsciiLowercase_idem, trimMatches_repositoryName hpath,
    repoKey_repositoryName hpath]

end Names

section Results
variable {lib : UrlCrate} {aliases : HashMap Alias}

/-- A name without an alias resolves exactly as a public host with chart names behind it. The
repository's URL stays on that host, and its key is the name without the chart. -/
theorem resolveName_hostPath (laws : HostLaws lib) (name : Str)
    (halias : ∀ first ∈ (nonemptySegments name).head?, aliases.lookup first = none) :
    (∀ chart : ClassicChart,
      resolveName lib name aliases = some (.classic chart) ∧ chart.source = .hostPath ↔
        ∃ host path chartName, nonemptySegments name = host :: (path ++ [chartName]) ∧
          isPublicHostname lib host = true ∧
          (∀ s ∈ path ++ [chartName], isValidChartName s = true) ∧
          chart = ⟨hostPathUrl host path, chartName, name, false, .hostPath⟩) ∧
      ∀ host path chartName, nonemptySegments name = host :: (path ++ [chartName]) →
        isPublicHostname lib host = true →
        (∀ s ∈ path ++ [chartName], isValidChartName s = true) →
        PublicDomain lib host ∧ Contained host path ∧
          ∀ u, lib.parse (hostPathUrl host path) = some u →
            u = ⟨str "https", [], none, some (.domain (toAsciiLowercase host)), none,
              '/' :: repositoryName path, none, none⟩ ∧
            normalizeRepoKey lib (hostPathUrl host path) =
              some (toAsciiLowercase host ++ slashed path) := by
  constructor
  · intro chart
    cases hsegments : nonemptySegments name with
    | nil =>
        rw [resolveName, hsegments]
        simp
    | cons first rest =>
        have hnone : aliases.lookup first = none := halias first (by rw [hsegments]; rfl)
        have hresolve : resolveName lib name aliases = resolveHostPath lib (first :: rest) name := by
          rw [resolveName, hsegments]
          simp only [hnone]
        rw [hresolve, resolveHostPath_eq_some_iff]
        constructor
        · intro ⟨⟨host, path, chartName, hsplit, hpublic, hvalid, hchart⟩, _⟩
          exact ⟨host, path, chartName, hsplit, hpublic, hvalid, Resolved.classic.inj hchart⟩
        · intro ⟨host, path, chartName, hsplit, hpublic, hvalid, hchart⟩
          exact ⟨⟨host, path, chartName, hsplit, hpublic, hvalid, congrArg Resolved.classic hchart⟩,
            by rw [hchart]⟩
  · intro host path chartName _ hpublic hvalid
    have hpath : ∀ s ∈ path, isValidChartName s = true :=
      fun s hs => hvalid s (List.mem_append_left _ hs)
    exact ⟨publicDomain_of_isPublicHostname hpublic, contained_of_isPublicHostname hpublic hpath,
      fun u hu => parse_hostPathUrl laws hpublic hpath hu⟩

end Results

section Instances

/-- URLs of a host and path segments, as the library reads them. -/
def parseSegments (s : Str) : Option Url := do
  let rest ← s.dropPrefix? (str "https://")
  match rest.splitOn '/' with
  | [] => none
  | host :: path =>
    let h ← PlainUrls.hostParse (toAsciiLowercase host)
    some ⟨str "https", [], none, some h, none, '/' :: repositoryName path, none, none⟩

def segmentUrls : UrlCrate := {plainUrls with parse := parseSegments}

theorem slash_not_mem_of_labels {host : Str}
    (h : ∀ label ∈ (toAsciiLowercase host).splitOn '.', isHostLabel label = true) :
    '/' ∉ host := by
  intro hm
  have hlow : '/' ∈ toAsciiLowercase host := List.mem_map_of_mem (f := Char.toLower) hm
  rcases mem_splitOn (x := '.') hlow with hdot | ⟨label, hl, hc⟩
  · cases hdot
  · have hlabel := h label hl
    simp only [isHostLabel, Bool.and_eq_true, List.all_eq_true] at hlabel
    exact absurd (hlabel.1.1.2 '/' hc) (by decide)

theorem segmentUrls_laws : HostLaws segmentUrls where
  parse_plain := by
    intro host path u hlabels hpath h
    have hdrop : (hostPathUrl host path).dropPrefix? (str "https://") =
        some (host ++ slashed path) := List.dropPrefix?_append_of_beq _ (beq_self_eq_true _)
    have hslash : ∀ s ∈ path, '/' ∉ s := fun s hs => not_mem_of_isValidChartName (hpath s hs) rfl
    have hparse : parseSegments (hostPathUrl host path) = some u := h
    rw [parseSegments, hdrop] at hparse
    simp only [bind, Option.bind_some, splitOn_slashed hslash host
      (slash_not_mem_of_labels hlabels), Option.bind_eq_some_iff, Option.some.injEq] at hparse
    obtain ⟨parsed, hparsed, hu⟩ := hparse
    exact ⟨parsed, hparsed, hu.symm⟩
  domain := by
    intro host name _ h
    have hparse : PlainUrls.hostParse (toAsciiLowercase host) = some (.domain name) := h
    unfold PlainUrls.hostParse at hparse
    split at hparse
    · cases hparse
    · split at hparse
      · cases hparse
      · cases hparse
        rfl

theorem resolveName_hostPath_team :
    resolveName segmentUrls (str "/Charts.Example.io//team/app") ∅ =
        some (.classic ⟨str "https://Charts.Example.io/team", str "app",
          str "/Charts.Example.io//team/app", false, .hostPath⟩) ∧
      normalizeRepoKey segmentUrls (str "https://Charts.Example.io/team") =
        some (str "charts.example.io/team") := by
  obtain ⟨hiff, hcontained⟩ := @resolveName_hostPath segmentUrls ∅ segmentUrls_laws
    (str "/Charts.Example.io//team/app") (by simp)
  constructor
  · exact ((hiff _).mpr ⟨str "Charts.Example.io", [str "team"], str "app", by decide, by decide,
      by decide, rfl⟩).1
  · exact ((hcontained (str "Charts.Example.io") [str "team"] (str "app") (by decide) (by decide)
      (by decide)).2.2 _ rfl).2

end Instances

end Helmoci.HostPaths
