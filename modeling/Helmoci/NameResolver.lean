import Helmoci.NameGrammar

/-!
# Aliases and name resolution

A hash map is an association list without repeated keys, listed in its iteration
order, which is any order. An alias table is a map that carries what the
configuration has checked: every name is a valid alias name and every upstream was
read from a text. A name resolves through the alias of its first segment or, where
there is none, as a host followed by a path.
-/
namespace Helmoci.NameResolver
open RustText UrlInterface SegmentedText NameGrammar

abbrev HashMap (V : Type) := AList fun _ : Str => V

/-- `collect`: a later pair replaces an earlier one with the same key. -/
def collect {V : Type} (pairs : List (Str × V)) : HashMap V :=
  pairs.foldl (fun m p => m.insert p.1 p.2) ∅

section Collect
variable {V : Type}

theorem lookup_foldl_insert (pairs : List (Str × V)) (m : HashMap V) (k : Str) :
    (pairs.foldl (fun m p => m.insert p.1 p.2) m).lookup k =
      (pairs.reverse.lookup k).orElse fun _ => m.lookup k := by
  induction pairs generalizing m with
  | nil => rfl
  | cons p pairs ih =>
      rw [List.foldl_cons, ih, List.reverse_cons, List.lookup_append]
      cases pairs.reverse.lookup k with
      | some v => rfl
      | none =>
          obtain ⟨k', v⟩ := p
          by_cases hk : k = k'
          · subst hk
            simp
          · have hs : List.lookup k [(k', v)] = none := by
              simp [List.lookup, beq_eq_false_iff_ne.mpr hk]
            simp [AList.lookup_insert_ne hk, hs]

theorem lookup_collect (pairs : List (Str × V)) (k : Str) :
    (collect pairs).lookup k = pairs.reverse.lookup k := by
  rw [collect, lookup_foldl_insert]
  cases pairs.reverse.lookup k <;> simp

theorem mem_of_lookup_collect {pairs : List (Str × V)} {k : Str} {v : V}
    (h : (collect pairs).lookup k = some v) : (k, v) ∈ pairs := by
  rw [lookup_collect, List.lookup_eq_some_iff] at h
  obtain ⟨l₁, l₂, hl, -⟩ := h
  rw [← List.mem_reverse, hl]
  simp

theorem lookup_collect_isSome {pairs : List (Str × V)} {k : Str} {v : V} (h : (k, v) ∈ pairs) :
    ((collect pairs).lookup k).isSome = true := by
  rw [lookup_collect, List.lookup_isSome_iff]
  exact ⟨(k, v), List.mem_reverse.mpr h, beq_self_eq_true k⟩

end Collect

inductive UpstreamAuthKind where
  | none
  | gcp
deriving DecidableEq, Repr

inductive AliasUpstream where
  | classic (repoUrl : Str)
  | oci (registry repo : Str)
deriving DecidableEq, Repr

structure Alias where
  upstream : AliasUpstream
  store : Bool
  auth : UpstreamAuthKind
  plainHttp : Bool
deriving DecidableEq, Repr

inductive ClassicSource where
  | configuredAlias
  | hostPath
deriving DecidableEq, Repr

structure ClassicChart where
  repoUrl : Str
  chartName : Str
  fullName : Str
  /-- The chart comes from a `store: false` classic alias. -/
  ephemeral : Bool
  source : ClassicSource
deriving DecidableEq, Repr

structure OciTarget where
  registry : Str
  repo : Str
  fullName : Str
  store : Bool
  auth : UpstreamAuthKind
  plainHttp : Bool
deriving DecidableEq, Repr

inductive Resolved where
  | classic (chart : ClassicChart)
  | oci (target : OciTarget)
deriving DecidableEq, Repr

def parseAliasUpstream (lib : UrlCrate) (s : Str) : Except Str AliasUpstream :=
  match s.dropPrefix? (str "oci://") with
  | some rest =>
    match splitOnce '/' (trimMatches '/' rest) with
    | none => .error (str "oci upstream needs a repo path: " ++ s)
    | some (registry, repo) =>
      if registry.isEmpty || repo.isEmpty then .error (str "invalid oci upstream: " ++ s)
      else .ok (.oci registry (trimMatches '/' repo))
  | none =>
    if (str "https://").isPrefixOf s || (str "http://").isPrefixOf s then
      match lib.parse s with
      | none => .error (str "invalid upstream url " ++ s ++ str ": " ++ lib.parseError s)
      | some parsed =>
        match parsed.hostStr with
        | none => .error (str "upstream url has no host: " ++ s)
        | some _ => .ok (.classic (s.rdropWhile (· == '/')))
    else .error (str "alias upstream must start with oci://, https:// or http://: " ++ s)

structure AliasTable (lib : UrlCrate) where
  map : HashMap Alias
  names : ∀ name ∈ map, isValidAliasName name = true
  upstreams : ∀ name entry, map.lookup name = some entry →
    ∃ s, parseAliasUpstream lib s = .ok entry.upstream

/-- A proxy without aliases. -/
def AliasTable.empty (lib : UrlCrate) : AliasTable lib where
  map := ∅
  names := by simp
  upstreams := by simp

/-- The key `host[/path]`, the path without its outer slashes. -/
def repoKey (host path : Str) : Str := if path.isEmpty then host else host ++ '/' :: path

def normalizeRepoKey (lib : UrlCrate) (url : Str) : Option Str := do
  let parsed ← lib.parse url
  if parsed.port.isSome then none
  else
    let host ← parsed.hostStr
    some (repoKey (toAsciiLowercase host) (trimMatches '/' parsed.path))

def classicAliasRewriteMap (lib : UrlCrate) (aliases : HashMap Alias) : HashMap Str :=
  collect <| aliases.entries.filterMap fun ⟨name, entry⟩ =>
    match entry.upstream with
    | .classic repoUrl => (normalizeRepoKey lib repoUrl).map fun key => (key, name)
    | .oci .. => none

/-- The nonempty segments of a text between slashes. -/
def nonemptySegments (s : Str) : List Str := (s.splitOn '/').filter fun w => !w.isEmpty

def resolveHostPath (lib : UrlCrate) (segments : List Str) (name : Str) : Option Resolved :=
  match segments with
  | host :: chartName :: rest =>
    -- the last segment is the chart, the ones between are the repository's path
    let path := (chartName :: rest).dropLast
    let chartName := (chartName :: rest).getLast (by simp)
    if !isPublicHostname lib host then none
    else if !isValidChartName chartName then none
    else if !path.all isValidChartName then none
    else
      let repoUrl :=
        if path.isEmpty then str "https://" ++ host
        else str "https://" ++ (host ++ '/' :: ['/'].intercalate path)
      some (.classic ⟨repoUrl, chartName, name, false, .hostPath⟩)
  | _ => none

def resolveName (lib : UrlCrate) (name : Str) (aliases : HashMap Alias) : Option Resolved :=
  match nonemptySegments name with
  | [] => none
  | first :: rest =>
    match aliases.lookup first with
    | some entry =>
      match entry.upstream with
      | .classic repoUrl =>
        match rest with
        | [chartName] =>
          if isValidChartName chartName then
            some (.classic ⟨repoUrl, chartName, name, !entry.store, .configuredAlias⟩)
          else none
        | _ => none
      | .oci registry repo =>
        if rest.isEmpty || !rest.all isValidOciRepoSegment then none
        else some (.oci ⟨registry, repo ++ '/' :: ['/'].intercalate rest, name, entry.store,
          entry.auth, entry.plainHttp⟩)
    | none => resolveHostPath lib (first :: rest) name

theorem nonemptySegments_of_not_mem {w : Str} (hw : '/' ∉ w) (hn : w ≠ []) :
    nonemptySegments w = [w] := by
  simp [nonemptySegments, List.splitOn_eq_singleton hw, hn]

theorem nonemptySegments_append (a b : Str) :
    nonemptySegments (a ++ '/' :: b) = nonemptySegments a ++ nonemptySegments b := by
  simp [nonemptySegments, List.splitOn_append_cons_self]

theorem nonemptySegments_dropWhile (s : Str) :
    nonemptySegments (s.dropWhile (· == '/')) = nonemptySegments s := by
  induction s with
  | nil => rfl
  | cons c s ih =>
      by_cases hc : c = '/'
      · subst hc
        have hs : nonemptySegments ('/' :: s) = nonemptySegments s :=
          (nonemptySegments_append [] s).trans (by simp [nonemptySegments])
        rw [List.dropWhile_cons_of_pos (by decide), ih, hs]
      · rw [List.dropWhile_cons_of_neg (by simpa using hc)]

theorem normalizeRepoKey_eq_some {lib : UrlCrate} {url key : Str}
    (h : normalizeRepoKey lib url = some key) : ∃ u host, lib.parse url = some u ∧
      u.hostStr = some host ∧ key = repoKey (toAsciiLowercase host) (trimMatches '/' u.path) := by
  simp only [normalizeRepoKey, bind, Option.bind_eq_some_iff] at h
  obtain ⟨u, hu, h⟩ := h
  split at h
  · contradiction
  · obtain ⟨host, hh, hk⟩ := Option.bind_eq_some_iff.mp h
    exact ⟨u, host, hu, hh, (Option.some.inj hk).symm⟩

/-- A host without a slash can be read off a key, and so can the path. -/
theorem repoKey_inj {h h' p p' : Str} (hh : '/' ∉ h) (hh' : '/' ∉ h')
    (he : repoKey h p = repoKey h' p') : h = h' ∧ p = p' := by
  have cut : ∀ {h p : Str}, '/' ∉ h → (repoKey h p).takeWhile (· != '/') = h ∧
      ((repoKey h p).dropWhile (· != '/')).tail = p := by
    intro h p hh
    have hall : ∀ c ∈ h, (c != '/') = true := by
      intro c hc
      rw [bne_iff_ne]
      rintro rfl
      exact hh hc
    unfold repoKey
    split
    · rename_i hp
      rw [List.isEmpty_iff.mp hp]
      simp [List.takeWhile_eq_self_iff.mpr hall, List.dropWhile_eq_nil_iff.mpr hall]
    · simp [List.takeWhile_append_of_pos hall, List.dropWhile_append_of_pos hall]
  have h₁ := cut (p := p) hh
  have h₂ := cut (p := p') hh'
  rw [he] at h₁
  exact ⟨h₁.1.symm.trans h₂.1, h₁.2.symm.trans h₂.2⟩

section RewriteMap
variable {lib : UrlCrate} {aliases : HashMap Alias} {key name : Str}

/-- What a captured key leads back to. -/
theorem classic_of_rewriteMap
    (h : (classicAliasRewriteMap lib aliases).lookup key = some name) :
    ∃ entry repoUrl, aliases.lookup name = some entry ∧ entry.upstream = .classic repoUrl ∧
      normalizeRepoKey lib repoUrl = some key := by
  obtain ⟨⟨n, entry⟩, hm, hf⟩ := List.mem_filterMap.mp (mem_of_lookup_collect h)
  have hl : aliases.lookup n = some entry := AList.mem_lookup_iff.mpr hm
  cases hu : entry.upstream with
  | oci registry repo => simp [hu] at hf
  | classic repoUrl =>
      simp only [hu, Option.map_eq_some_iff, Prod.mk.injEq] at hf
      obtain ⟨k, hk, rfl, rfl⟩ := hf
      exact ⟨entry, repoUrl, hl, hu, hk⟩

theorem rewriteMap_isSome {entry : Alias} {repoUrl : Str} (hn : aliases.lookup name = some entry)
    (hu : entry.upstream = .classic repoUrl) (hk : normalizeRepoKey lib repoUrl = some key) :
    ((classicAliasRewriteMap lib aliases).lookup key).isSome = true := by
  refine lookup_collect_isSome (v := name) ?_
  refine List.mem_filterMap.mpr ⟨⟨name, entry⟩, AList.mem_lookup_iff.mp hn, ?_⟩
  simp [hu, hk]

end RewriteMap

section Resolved
variable {lib : UrlCrate} {name : Str}

theorem segments_of_resolveHostPath {segments : List Str} {res : Resolved}
    (h : resolveHostPath lib segments name = some res) :
    ∃ host rest, segments = host :: rest ∧ isPublicHostname lib host = true ∧
      ∀ s ∈ rest, isValidChartName s = true := by
  unfold resolveHostPath at h
  split at h
  · rename_i host c rest
    dsimp only at h
    split at h
    · contradiction
    · rename_i hp
      split at h
      · contradiction
      · rename_i hc
        split at h
        · contradiction
        · rename_i hs
          simp only [Bool.not_eq_true, Bool.not_eq_false'] at hp hc hs
          refine ⟨host, c :: rest, rfl, hp, ?_⟩
          rw [← List.dropLast_append_getLast (List.cons_ne_nil c rest)]
          intro s hm
          rcases List.mem_append.mp hm with hm | hm
          · exact List.all_eq_true.mp hs s hm
          · rw [List.mem_singleton.mp hm]
            exact hc
  · contradiction

theorem segments_of_resolveName {aliases : AliasTable lib} {res : Resolved}
    (h : resolveName lib name aliases.map = some res) :
    ∃ first rest, nonemptySegments name = first :: rest ∧
      (isValidChartName first = true ∨ isPublicHostname lib first = true) ∧
      ∀ s ∈ rest, isValidChartName s = true := by
  unfold resolveName at h
  split at h
  · contradiction
  · rename_i first rest hs
    refine ⟨first, rest, hs, ?_⟩
    split at h
    · rename_i entry hl
      have ha := isValidChartName_of_isValidAliasName
        (aliases.names first (AList.lookup_isSome.mp (by simp [hl])))
      refine ⟨Or.inl ha, ?_⟩
      split at h
      · split at h
        · split at h
          · simpa
          · contradiction
        · contradiction
      · split at h
        · contradiction
        · rename_i hr
          simp only [Bool.or_eq_true, Bool.not_eq_true', not_or, Bool.not_eq_false,
            List.all_eq_true] at hr
          exact hr.2
    · obtain ⟨host, t, he, hp, ht⟩ := segments_of_resolveHostPath h
      obtain ⟨rfl, rfl⟩ := List.cons.inj he
      exact ⟨Or.inr hp, ht⟩

/-- What the segments of a resolvable name consist of. -/
theorem nameChar_of_resolveName {aliases : AliasTable lib} {res : Resolved}
    (h : resolveName lib name aliases.map = some res) :
    ∀ c ∈ name, chartNameChar c = true ∨ c = '/' := by
  obtain ⟨first, rest, hs, hf, hr⟩ := segments_of_resolveName h
  intro c hc
  rcases mem_splitOn (x := '/') hc with rfl | ⟨s, hw, hc⟩
  · exact Or.inr rfl
  · apply Or.inl
    have hm : s ∈ nonemptySegments name :=
      List.mem_filter.mpr ⟨hw, by simpa using List.ne_nil_of_mem hc⟩
    rw [hs] at hm
    rcases List.mem_cons.mp hm with rfl | hm
    · rcases hf with hf | hf
      · exact isValidChartName_all hf c hc
      · exact chartNameChar_of_isPublicHostname hf c hc
    · exact isValidChartName_all (hr s hm) c hc

/-- A resolvable name has a segment, and nothing in it needs an escape. -/
theorem percent_not_mem_of_resolveName {aliases : AliasTable lib} {res : Resolved}
    (h : resolveName lib name aliases.map = some res) :
    '%' ∉ name ∧ nonemptySegments name ≠ [] := by
  obtain ⟨first, rest, hs, -, -⟩ := segments_of_resolveName h
  refine ⟨?_, by simp [hs]⟩
  intro hm
  exact absurd (nameChar_of_resolveName h _ hm) (by decide)

end Resolved
end Helmoci.NameResolver
