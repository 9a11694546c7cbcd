import Helmoci.NameResolver
import Helmoci.PlainUrls

/-!
# Rewriting dependency repositories

A dependency of a chart names its repository by URL, and the rewriter replaces it
by a name of the proxy: the alias that serves the repository, or its host and path.
The resolver has to lead such a name back to the repository it came from. It does
for a captured alias. A host path is read segment by segment, and a repository path
that does not consist of chart names is lost on the way.
-/
namespace Helmoci.DependencyRewriting
open RustText UrlInterface NameGrammar NameResolver PlainUrls

structure RewriteContext where
  proxyHost : Str
  /-- Normalized `host/path` to alias name. -/
  classicAliasByRepo : HashMap Str

def rewriteDependencyUrl (lib : UrlCrate) (repoUrl : Str) (ctx : RewriteContext) : Option Str :=
  if repoUrl.isEmpty || ['@'].isPrefixOf repoUrl || (str "alias:").isPrefixOf repoUrl ||
      (str "file:").isPrefixOf repoUrl || (str "oci://").isPrefixOf repoUrl then none
  else do
    let parsed ← lib.parse repoUrl
    if !parsed.isHttp then none
    else
      let host ← parsed.hostStr
      if !isPublicHostname lib host then none
      else
        let key ← normalizeRepoKey lib repoUrl
        match ctx.classicAliasByRepo.lookup key with
        | some name => some (str "oci://" ++ (ctx.proxyHost ++ '/' :: name))
        | none => some (str "oci://" ++ (ctx.proxyHost ++ '/' :: key))

/-- What is relied on from the URL library. The last law is the round trip of a host
through `https://<host>/<path>` where the path needs no escapes. -/
structure UrlLaws (lib : UrlCrate) : Prop where
  isHttp_of_prefix : ∀ s u, lib.parse s = some u →
    str "https:" <+: s ∨ str "http:" <+: s → u.isHttp = true
  host_plain : ∀ s u host, lib.parse s = some u → u.isHttp = true → u.hostStr = some host →
    toAsciiLowercase host = host ∧ '/' ∉ host
  reparse : ∀ s u host segments, lib.parse s = some u → u.isHttp = true →
    u.hostStr = some host → (∀ seg ∈ segments, isValidChartName seg = true) →
    ∃ v, lib.parse (str "https://" ++ repoKey host (repositoryName segments)) = some v ∧
      v.hostStr = some host ∧ v.path = '/' :: repositoryName segments

/-- The proxy name `x/c` resolves to the chart `c` of the repository of the URL `r`. -/
def LeadsBack (lib : UrlCrate) (aliases : HashMap Alias) (r x c : Str) : Prop :=
  ∃ chart u v, resolveName lib (x ++ '/' :: c) aliases = some (.classic chart) ∧
    chart.chartName = c ∧ lib.parse r = some u ∧ lib.parse chart.repoUrl = some v ∧
    v.hostStr = u.hostStr ∧ trimMatches '/' v.path = trimMatches '/' u.path

/-- Some classic alias serves the repository of `r`. -/
def Captured (lib : UrlCrate) (aliases : HashMap Alias) (r : Str) : Prop :=
  ∃ name entry repoUrl, aliases.lookup name = some entry ∧ entry.upstream = .classic repoUrl ∧
    normalizeRepoKey lib repoUrl = normalizeRepoKey lib r

/-- The path, its outer slashes aside, is empty or made of chart names. -/
def plainPath (u : Url) : Bool :=
  let path := trimMatches '/' u.path
  path.isEmpty || (path.splitOn '/').all isValidChartName

theorem nonemptySegments_repoKey {host path : Str} (hh : '/' ∉ host) (hn : host ≠ []) :
    nonemptySegments (repoKey host path) = host :: nonemptySegments path := by
  unfold repoKey
  split
  · rename_i hp
    rw [List.isEmpty_iff.mp hp, nonemptySegments_of_not_mem hh hn]
    rfl
  · rw [nonemptySegments_append, nonemptySegments_of_not_mem hh hn]
    rfl

/-- A path of chart names is joined again from its nonempty segments. -/
theorem repositoryName_nonemptySegments {u : Url} (h : plainPath u = true) :
    (∀ seg ∈ nonemptySegments (trimMatches '/' u.path), isValidChartName seg = true) ∧
      repositoryName (nonemptySegments (trimMatches '/' u.path)) = trimMatches '/' u.path := by
  simp only [plainPath, Bool.or_eq_true, List.isEmpty_iff, List.all_eq_true] at h
  rcases h with h | h
  · rw [h]
    exact ⟨by simp [nonemptySegments], rfl⟩
  · have hf : nonemptySegments (trimMatches '/' u.path) =
        (trimMatches '/' u.path).splitOn '/' := by
      refine List.filter_eq_self.mpr ?_
      intro w hw
      simpa using isValidChartName_ne_nil (h w hw)
    rw [hf]
    exact ⟨h, List.intercalate_splitOn '/'⟩

theorem plainPath_of_repositoryName {u : Url} {segments : List Str}
    (hv : ∀ seg ∈ segments, isValidChartName seg = true)
    (h : trimMatches '/' u.path = repositoryName segments) : plainPath u = true := by
  simp only [plainPath, h, Bool.or_eq_true, List.isEmpty_iff, List.all_eq_true]
  by_cases hs : segments = []
  · exact Or.inl (by rw [hs]; rfl)
  · rw [splitOn_repositoryName hs hv]
    exact Or.inr hv

section HostPath
variable {lib : UrlCrate} {host c name : Str} {segments : List Str}

/-- A host path resolves to its repository exactly when its segments are chart names. -/
theorem resolveHostPath_print (hp : isPublicHostname lib host = true)
    (hc : isValidChartName c = true) :
    resolveHostPath lib (host :: (segments ++ [c])) name =
      if segments.all isValidChartName then
        some (.classic ⟨str "https://" ++ repoKey host (repositoryName segments), c, name, false,
          .hostPath⟩)
      else none := by
  have hk : segments.all isValidChartName = true →
      (if segments.isEmpty then str "https://" ++ host
        else str "https://" ++ (host ++ '/' :: ['/'].intercalate segments)) =
      str "https://" ++ repoKey host (repositoryName segments) := by
    intro hv
    cases segments with
    | nil => rfl
    | cons s t =>
        have hn : (repositoryName (s :: t)).isEmpty = false := by
          simpa using repositoryName_ne_nil (by simp) (List.all_eq_true.mp hv)
        simp only [repoKey, hn, Bool.false_eq_true, if_false]
        rfl
  cases hs : segments ++ [c] with
  | nil => simp at hs
  | cons w t =>
      have hl : (w :: t).getLast (by simp) = c := by simp [← hs]
      have hd : (w :: t).dropLast = segments := by simp [← hs]
      simp only [resolveHostPath, hl, hd, hp, hc, Bool.not_true, Bool.false_eq_true, if_false]
      cases hv : segments.all isValidChartName with
      | false => simp
      | true =>
          rw [hk hv]
          rfl

end HostPath

/-- Removing trailing characters keeps a beginning that ends in another one. -/
theorem prefix_rdropWhile {p : Char → Bool} {a : Str} {d : Char} (hd : p d = false) (t : Str) :
    a ++ [d] <+: (a ++ [d] ++ t).rdropWhile p := by
  induction t using List.reverseRecOn with
  | nil => simp [hd]
  | append_singleton t c ih =>
      rw [← List.append_assoc]
      by_cases hc : p c = true
      · rw [List.rdropWhile_concat_pos _ _ _ hc]
        exact ih
      · rw [List.rdropWhile_concat_neg _ _ _ hc]
        simp

/-- Both spellings of a classic upstream survive the removal of trailing slashes. -/
theorem prefix_of_parse {lib : UrlCrate} {s repoUrl : Str}
    (h : parseAliasUpstream lib s = .ok (.classic repoUrl)) :
    str "https:" <+: repoUrl ∨ str "http:" <+: repoUrl := by
  have keep : ∀ t, str "https:" <+: (str "https://" ++ t).rdropWhile (· == '/') ∧
      str "http:" <+: (str "http://" ++ t).rdropWhile (· == '/') := fun t =>
    ⟨prefix_rdropWhile (a := str "https") (d := ':') (by decide) (str "//" ++ t),
      prefix_rdropWhile (a := str "http") (d := ':') (by decide) (str "//" ++ t)⟩
  unfold parseAliasUpstream at h
  split at h
  · split at h
    · contradiction
    · split at h <;> simp at h
  · split at h
    · rename_i hp
      split at h
      · contradiction
      · split at h
        · contradiction
        · simp only [Except.ok.injEq, AliasUpstream.classic.injEq] at h
          subst h
          simp only [Bool.or_eq_true, List.isPrefixOf_iff_prefix] at hp
          rcases hp with ⟨t, rfl⟩ | ⟨t, rfl⟩
          · exact Or.inl (keep t).1
          · exact Or.inr (keep t).2
    · contradiction

theorem resolveName_of_classic {lib : UrlCrate} {aliases : HashMap Alias} {name x c repoUrl : Str}
    {entry : Alias} (hseg : nonemptySegments x = [name, c])
    (hn : aliases.lookup name = some entry) (hup : entry.upstream = .classic repoUrl)
    (hc : isValidChartName c = true) : resolveName lib x aliases =
      some (.classic ⟨repoUrl, c, x, !entry.store, .configuredAlias⟩) := by
  unfold resolveName
  simp only [hseg, hn, hup, hc, if_true]

theorem resolveName_of_host {lib : UrlCrate} {aliases : HashMap Alias} {x host : Str}
    {rest : List Str} (hseg : nonemptySegments x = host :: rest)
    (hn : aliases.lookup host = none) :
    resolveName lib x aliases = resolveHostPath lib (host :: rest) x := by
  unfold resolveName
  simp only [hseg, hn]

section Rewritten
variable {lib : UrlCrate} (laws : UrlLaws lib) (aliases : AliasTable lib) {r proxyHost x c : Str}

/-- A rewritten URL is an HTTP one with a public host, and its key decides the name. -/
theorem rewriteDependencyUrl_eq_some {ctx : RewriteContext} {y : Str}
    (h : rewriteDependencyUrl lib r ctx = some y) :
    ∃ u host, lib.parse r = some u ∧ u.isHttp = true ∧ u.hostStr = some host ∧
      isPublicHostname lib host = true ∧
      normalizeRepoKey lib r = some (repoKey (toAsciiLowercase host) (trimMatches '/' u.path)) ∧
      y = str "oci://" ++ (ctx.proxyHost ++ '/' ::
        (ctx.classicAliasByRepo.lookup
          (repoKey (toAsciiLowercase host) (trimMatches '/' u.path))).getD
            (repoKey (toAsciiLowercase host) (trimMatches '/' u.path))) := by
  simp only [rewriteDependencyUrl, bind] at h
  split at h
  · contradiction
  · obtain ⟨u, hu, h⟩ := Option.bind_eq_some_iff.mp h
    split at h
    · contradiction
    · rename_i hs
      obtain ⟨host, hh, h⟩ := Option.bind_eq_some_iff.mp h
      split at h
      · contradiction
      · rename_i hp
        obtain ⟨key, hk, h⟩ := Option.bind_eq_some_iff.mp h
        obtain ⟨u', host', hu', hh', rfl⟩ := normalizeRepoKey_eq_some hk
        obtain rfl : u = u' := Option.some.inj (hu.symm.trans hu')
        obtain rfl : host = host' := Option.some.inj (hh.symm.trans hh')
        refine ⟨u, host, hu, by simpa using hs, hh, by simpa using hp, hk, ?_⟩
        split at h <;> rename_i hl <;> simp only [hl, Option.getD_some, Option.getD_none] <;>
          exact (Option.some.inj h).symm

theorem not_mem_of_dot {host : Str} (h : '.' ∈ host) : host ∉ aliases.map := by
  intro hm
  exact not_dot_mem_of_isValidAliasName (aliases.names host hm) h

include laws

/-- The alias that captured a key serves the host and the path of the key. -/
theorem leadsBack_of_captured {u : Url} {host name : Str} (hu : lib.parse r = some u)
    (hs : u.isHttp = true) (hh : u.hostStr = some host)
    (hl : (classicAliasRewriteMap lib aliases.map).lookup
      (repoKey (toAsciiLowercase host) (trimMatches '/' u.path)) = some name)
    (hc : isValidChartName c = true) : LeadsBack lib aliases.map r name c := by
  obtain ⟨entry, repoUrl, hn, hup, hk⟩ := classic_of_rewriteMap hl
  obtain ⟨v, host', hv, hh', he⟩ := normalizeRepoKey_eq_some hk
  obtain ⟨s, hp⟩ := aliases.upstreams name entry hn
  have hv' : v.isHttp = true :=
    laws.isHttp_of_prefix repoUrl v hv (prefix_of_parse (hp.trans (by rw [hup])))
  have hplain := laws.host_plain r u host hu hs hh
  have hplain' := laws.host_plain repoUrl v host' hv hv' hh'
  rw [hplain.1, hplain'.1] at he
  obtain ⟨rfl, hpath⟩ := repoKey_inj hplain.2 hplain'.2 he
  have hname := aliases.names name (AList.lookup_isSome.mp (by simp [hn]))
  have hseg : nonemptySegments (name ++ '/' :: c) = [name, c] := by
    have hs₁ := isValidChartName_of_isValidAliasName hname
    rw [nonemptySegments_append,
      nonemptySegments_of_not_mem (not_mem_of_isValidChartName hs₁ (by decide))
        (isValidChartName_ne_nil hs₁),
      nonemptySegments_of_not_mem (not_mem_of_isValidChartName hc (by decide))
        (isValidChartName_ne_nil hc)]
    rfl
  refine ⟨⟨repoUrl, c, name ++ '/' :: c, !entry.store, .configuredAlias⟩, u, v, ?_, rfl, hu, hv,
    hh'.trans hh.symm, hpath.symm⟩
  exact resolveName_of_classic hseg hn hup hc

/-- A host path leads back to the repository exactly when its path is plain. -/
theorem leadsBack_hostPath_iff {u : Url} {host : Str} (hu : lib.parse r = some u)
    (hs : u.isHttp = true) (hh : u.hostStr = some host) (hp : isPublicHostname lib host = true)
    (hc : isValidChartName c = true) :
    LeadsBack lib aliases.map r (repoKey host (trimMatches '/' u.path)) c ↔
      plainPath u = true := by
  obtain ⟨hlow, hslash⟩ := laws.host_plain r u host hu hs hh
  obtain ⟨hne, hdot⟩ := dot_mem_of_isPublicHostname hp
  have hseg : nonemptySegments (repoKey host (trimMatches '/' u.path) ++ '/' :: c) =
      host :: (nonemptySegments (trimMatches '/' u.path) ++ [c]) := by
    rw [nonemptySegments_append, nonemptySegments_repoKey hslash hne,
      nonemptySegments_of_not_mem (not_mem_of_isValidChartName hc (by decide))
        (isValidChartName_ne_nil hc)]
    rfl
  have hn : aliases.map.lookup host = none :=
    AList.lookup_eq_none.mpr (not_mem_of_dot aliases (hlow ▸ hdot))
  have hr := (@resolveName_of_host lib _ _ _ _ hseg hn).trans
    (resolveHostPath_print hp hc)
  constructor
  · rintro ⟨chart, u', v, hres, -, hu', hv, -, hpath⟩
    obtain rfl : u = u' := Option.some.inj (hu.symm.trans hu')
    rw [hr] at hres
    split at hres
    · rename_i hall
      simp only [Option.some.injEq, Resolved.classic.injEq] at hres
      subst hres
      have hall := List.all_eq_true.mp hall
      obtain ⟨v', hv', -, hvp⟩ := laws.reparse r u host _ hu hs hh hall
      obtain rfl : v = v' := Option.some.inj (hv.symm.trans hv')
      rw [hvp, trimMatches_repositoryName hall] at hpath
      exact plainPath_of_repositoryName hall hpath.symm
    · contradiction
  · intro hplain
    obtain ⟨hall, hjoin⟩ := repositoryName_nonemptySegments hplain
    obtain ⟨v, hv, hvh, hvp⟩ := laws.reparse r u host _ hu hs hh hall
    rw [if_pos (List.all_eq_true.mpr hall)] at hr
    refine ⟨_, u, v, hr, rfl, hu, hv, hvh.trans hh.symm, ?_⟩
    rw [hvp, trimMatches_repositoryName hall, hjoin]

/-- A rewritten dependency leads back to its repository exactly when an alias serves
the repository or the repository's path consists of chart names. -/
theorem rewritten_leadsBack_iff
    (hx : rewriteDependencyUrl lib r ⟨proxyHost, classicAliasRewriteMap lib aliases.map⟩ =
      some (str "oci://" ++ (proxyHost ++ '/' :: x)))
    (hc : isValidChartName c = true) :
    LeadsBack lib aliases.map r x c ↔
      Captured lib aliases.map r ∨ ∃ u, lib.parse r = some u ∧ plainPath u = true := by
  obtain ⟨u, host, hu, hs, hh, hp, hk, hy⟩ := rewriteDependencyUrl_eq_some hx
  have hx' := (List.cons.inj (List.append_cancel_left (List.append_cancel_left hy))).2
  cases hl : (classicAliasRewriteMap lib aliases.map).lookup
      (repoKey (toAsciiLowercase host) (trimMatches '/' u.path)) with
  | some name =>
      simp only [hl, Option.getD_some] at hx'
      subst hx'
      have hcap : Captured lib aliases.map r := by
        obtain ⟨entry, repoUrl, hn, hup, hk'⟩ := classic_of_rewriteMap hl
        exact ⟨x, entry, repoUrl, hn, hup, hk'.trans hk.symm⟩
      exact iff_of_true (leadsBack_of_captured laws aliases hu hs hh hl hc) (Or.inl hcap)
  | none =>
      simp only [hl, Option.getD_none] at hx'
      have hcap : ¬ Captured lib aliases.map r := by
        rintro ⟨name, entry, repoUrl, hn, hup, hk'⟩
        have := rewriteMap_isSome hn hup (hk'.trans hk)
        simp [hl] at this
      have hlow := (laws.host_plain r u host hu hs hh).1
      rw [hlow] at hx'
      rw [hx', leadsBack_hostPath_iff laws aliases hu hs hh hp hc]
      constructor
      · intro h
        exact Or.inr ⟨u, hu, h⟩
      · rintro (h | ⟨u', hu', h⟩)
        · exact (hcap h).elim
        · obtain rfl : u = u' := Option.some.inj (hu.symm.trans hu')
          exact h

end Rewritten

theorem toLower_of_hostChar {c : Char} (h : hostChar c = true) : c.toLower = c := by
  by_cases hc : c.toNat < 128
  · exact ascii_forall (P := fun c => hostChar c = true → c.toLower = c) (by decide) hc h
  · exact toLower_eq_self (by omega)

theorem plainUrls_laws : UrlLaws plainUrls where
  isHttp_of_prefix s u h _ := (parse_eq_some h).1
  host_plain s u host h _ hh := by
    obtain ⟨-, -, name, hn, -, hc⟩ := parse_eq_some h
    obtain rfl : host = name := by simpa [Url.hostStr, hn, Host.text] using hh.symm
    constructor
    · calc toAsciiLowercase host = host.map id :=
            List.map_congr_left fun c hm => toLower_of_hostChar (hc c hm)
        _ = host := List.map_id host
    · intro hm
      exact absurd (hc _ hm) (by decide)
  reparse s u host segments h _ hh hv := by
    obtain ⟨-, -, name, hn, hne, hc⟩ := parse_eq_some h
    obtain rfl : host = name := by simpa [Url.hostStr, hn, Host.text] using hh.symm
    have hp : ∀ c ∈ repositoryName segments, pathChar c = true := by
      intro c hm
      rcases mem_repositoryName hm with rfl | ⟨seg, hs, hm⟩
      · decide
      · simp [pathChar, isValidChartName_all (hv seg hs) c hm]
    cases segments with
    | nil =>
        have hu := parse_https [] hne hc (by simp) (Or.inl rfl)
        rw [List.append_nil] at hu
        exact ⟨_, hu, rfl, rfl⟩
    | cons seg rest =>
        have hn : (repositoryName (seg :: rest)).isEmpty = false := by
          simpa using repositoryName_ne_nil (by simp) hv
        have hu := parse_https ('/' :: repositoryName (seg :: rest)) hne hc
          (List.forall_mem_cons.mpr ⟨by decide, hp⟩) (Or.inr ⟨_, rfl⟩)
        rw [repoKey, if_neg (by simp [hn])]
        exact ⟨_, hu, rfl, rfl⟩

/-- One alias for a repository with a path. -/
def teamAliases : AliasTable plainUrls where
  map := collect [(str "team", ⟨.classic (str "https://charts.example.com/team"), true, .none, false⟩)]
  names := by decide
  upstreams := by
    intro name entry h
    have hm := mem_of_lookup_collect h
    simp only [List.mem_singleton, Prod.mk.injEq] at hm
    obtain ⟨-, rfl⟩ := hm
    exact ⟨str "https://charts.example.com/team/", by decide⟩

theorem stable_leadsBack :
    LeadsBack plainUrls teamAliases.map (str "https://charts.example.com/stable/")
        (str "charts.example.com/stable") (str "nginx") ↔
      Captured plainUrls teamAliases.map (str "https://charts.example.com/stable/") ∨
        ∃ u, plainUrls.parse (str "https://charts.example.com/stable/") = some u ∧
          plainPath u = true := by
  have hx : rewriteDependencyUrl plainUrls (str "https://charts.example.com/stable/")
      ⟨str "proxy.test", classicAliasRewriteMap plainUrls teamAliases.map⟩ =
      some (str "oci://" ++ (str "proxy.test" ++ '/' :: str "charts.example.com/stable")) := by
    decide
  exact rewritten_leadsBack_iff plainUrls_laws teamAliases hx (by decide)

/-- A home directory is rewritten to a name that resolves to nothing. -/
theorem tilde_path_is_lost :
    rewriteDependencyUrl plainUrls (str "https://people.example.com/~ann/charts")
        ⟨str "proxy.test", classicAliasRewriteMap plainUrls teamAliases.map⟩ =
      some (str "oci://proxy.test/people.example.com/~ann/charts") ∧
    isValidChartName (str "nginx") = true ∧
    resolveName plainUrls (str "people.example.com/~ann/charts/nginx") teamAliases.map = none ∧
    ¬ LeadsBack plainUrls teamAliases.map (str "https://people.example.com/~ann/charts")
      (str "people.example.com/~ann/charts") (str "nginx") := by
  have hr : resolveName plainUrls (str "people.example.com/~ann/charts/nginx") teamAliases.map =
      none := by decide
  refine ⟨by decide, by decide, hr, ?_⟩
  rintro ⟨chart, u, v, h, -⟩
  have hx : str "people.example.com/~ann/charts" ++ '/' :: str "nginx" =
      str "people.example.com/~ann/charts/nginx" := by decide
  rw [hx, hr] at h
  contradiction

end Helmoci.DependencyRewriting
