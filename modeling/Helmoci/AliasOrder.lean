import Helmoci.ChartBuild
import Helmoci.Configuration

/-!
# The order of the alias table

The aliases are a hash map, and the map from repositories to alias names is collected in
its iteration order, which differs between two processes. The last name of a repository
stays. Where two names share a repository, the order decides which one charts point to.
-/
namespace Helmoci.AliasOrder
open RustText UrlInterface NameResolver PlainUrls DependencyRewriting TarUnpacking ChartBuild
  Helmoci.Configuration

section Lookup
variable {K V : Type} [BEq K] [LawfulBEq K] {l : List (K × V)}

/-- Pairs that agree on each key are a function. -/
def Functional (l : List (K × V)) : Prop := ∀ p ∈ l, ∀ q ∈ l, p.1 = q.1 → p.2 = q.2

theorem lookup_eq_some_iff_mem (hl : Functional l) {k : K} {v : V} :
    l.lookup k = some v ↔ (k, v) ∈ l := by
  constructor
  · intro h
    obtain ⟨before, behind, he, -⟩ := List.lookup_eq_some_iff.mp h
    rw [he]
    simp
  · intro h
    obtain ⟨v', hv'⟩ := Option.isSome_iff_exists.mp
      (List.lookup_isSome_iff.mpr ⟨(k, v), h, beq_self_eq_true k⟩)
    obtain ⟨before, behind, he, -⟩ := List.lookup_eq_some_iff.mp hv'
    have hm : (k, v') ∈ l := by
      rw [he]
      simp
    rw [hv']
    exact congrArg some (hl _ hm _ h rfl)

end Lookup

theorem lookup_collect_perm {V : Type} {l l' : List (Str × V)} (hl : Functional l)
    (hp : l.Perm l') (k : Str) : (collect l).lookup k = (collect l').lookup k := by
  have hr : Functional l.reverse := by
    intro p hp q hq
    exact hl p (List.mem_reverse.mp hp) q (List.mem_reverse.mp hq)
  have hr' : Functional l'.reverse := by
    intro p hp' q hq
    exact hl p (hp.mem_iff.mpr (List.mem_reverse.mp hp')) q
      (hp.mem_iff.mpr (List.mem_reverse.mp hq))
  apply Option.ext
  intro v
  rw [lookup_collect, lookup_collect, lookup_eq_some_iff_mem hr, lookup_eq_some_iff_mem hr',
    List.mem_reverse, List.mem_reverse, hp.mem_iff]

section Context
variable {crates : ChartCrates} {ctx ctx' : RewriteContext}

/-- Two contexts that nothing in a build can tell apart. -/
structure SameContext (ctx ctx' : RewriteContext) : Prop where
  proxyHost : ctx.proxyHost = ctx'.proxyHost
  lookup : ∀ key, ctx.classicAliasByRepo.lookup key = ctx'.classicAliasByRepo.lookup key

theorem rewriteDependencyUrl_congr (h : SameContext ctx ctx') (lib : UrlCrate) (repoUrl : Str) :
    rewriteDependencyUrl lib repoUrl ctx = rewriteDependencyUrl lib repoUrl ctx' := by
  unfold rewriteDependencyUrl
  simp only [h.proxyHost, h.lookup]

theorem rewriteDep_congr (h : SameContext ctx ctx') :
    rewriteDep crates ctx = rewriteDep crates ctx' := by
  funext dep
  unfold rewriteDep
  simp only [rewriteDependencyUrl_congr h]

theorem rewriteDependencies_congr (h : SameContext ctx ctx') :
    rewriteDependencies crates ctx = rewriteDependencies crates ctx' := by
  have hlist : rewriteDepsList crates ctx = rewriteDepsList crates ctx' := by
    funext deps
    unfold rewriteDepsList
    rw [rewriteDep_congr h]
  funext value
  unfold rewriteDependencies
  rw [hlist]

theorem rewriteLock_congr (h : SameContext ctx ctx') :
    rewriteLock crates ctx = rewriteLock crates ctx' := by
  funext files
  unfold rewriteLock
  rw [rewriteDependencies_congr h]

theorem buildHelmOciChart_congr (h : SameContext ctx ctx') (limits : ArchiveLimits) (tgz : Bytes) :
    buildHelmOciChart crates ctx limits tgz = buildHelmOciChart crates ctx' limits tgz := by
  unfold buildHelmOciChart rewriteChartDependencies
  rw [h.proxyHost, rewriteDependencies_congr h, rewriteLock_congr h]

end Context

section Order
variable {lib : UrlCrate} {aliases table : HashMap Alias}

/-- The repositories of the classic aliases with their names, in iteration order. -/
def classicPairs (lib : UrlCrate) (aliases : HashMap Alias) : List (Str × Str) :=
  aliases.entries.filterMap fun ⟨name, entry⟩ =>
    match entry.upstream with
    | .classic repoUrl => (normalizeRepoKey lib repoUrl).map fun key => (key, name)
    | .oci .. => none

theorem classicAliasRewriteMap_eq (lib : UrlCrate) (aliases : HashMap Alias) :
    classicAliasRewriteMap lib aliases = collect (classicPairs lib aliases) := rfl

theorem mem_classicPairs {key name : Str} :
    (key, name) ∈ classicPairs lib aliases ↔
      ∃ entry repoUrl, aliases.lookup name = some entry ∧ entry.upstream = .classic repoUrl ∧
        normalizeRepoKey lib repoUrl = some key := by
  unfold classicPairs
  rw [List.mem_filterMap]
  constructor
  · intro ⟨⟨n, entry⟩, hm, hf⟩
    have hl : aliases.lookup n = some entry := AList.mem_lookup_iff.mpr hm
    cases hu : entry.upstream with
    | oci registry repo => simp [hu] at hf
    | classic repoUrl =>
        simp only [hu, Option.map_eq_some_iff, Prod.mk.injEq] at hf
        obtain ⟨k, hk, rfl, rfl⟩ := hf
        exact ⟨entry, repoUrl, hl, hu, hk⟩
  · intro ⟨entry, repoUrl, hl, hu, hk⟩
    refine ⟨⟨name, entry⟩, AList.mem_lookup_iff.mp hl, ?_⟩
    simp [hu, hk]

/-- No repository has two names. -/
def NamesRepositoriesOnce (lib : UrlCrate) (aliases : HashMap Alias) : Prop :=
  ∀ (name name' : Str) (entry entry' : Alias) (repoUrl repoUrl' key : Str),
    aliases.lookup name = some entry → aliases.lookup name' = some entry' →
    entry.upstream = .classic repoUrl → entry'.upstream = .classic repoUrl' →
    normalizeRepoKey lib repoUrl = some key → normalizeRepoKey lib repoUrl' = some key →
    name = name'

theorem functional_classicPairs (h : NamesRepositoriesOnce lib aliases) :
    Functional (classicPairs lib aliases) := by
  intro ⟨key, name⟩ hp ⟨key', name'⟩ hq hkey
  dsimp only at hkey ⊢
  rw [← hkey] at hq
  obtain ⟨entry, repoUrl, hl, hu, hk⟩ := mem_classicPairs.mp hp
  obtain ⟨entry', repoUrl', hl', hu', hk'⟩ := mem_classicPairs.mp hq
  exact h name name' entry entry' repoUrl repoUrl' key hl hl' hu hu' hk hk'

/-- An order in which a name comes last. -/
theorem exists_last {name : Str} {entry : Alias} (h : aliases.lookup name = some entry) :
    ∃ table : HashMap Alias, table.entries.Perm aliases.entries ∧
      ∃ before, table.entries = before ++ [⟨name, entry⟩] := by
  obtain ⟨before, behind, he⟩ := List.append_of_mem (AList.mem_lookup_iff.mp h)
  have hp : (before ++ behind ++ [Sigma.mk name entry]).Perm aliases.entries := by
    rw [he, List.append_assoc]
    exact (List.perm_append_left_iff _).mpr (List.perm_append_singleton _ _)
  let table : HashMap Alias :=
    {entries := before ++ behind ++ [⟨name, entry⟩]
     nodupKeys := (List.perm_nodupKeys hp).mpr aliases.nodupKeys}
  exact ⟨table, hp, before ++ behind, rfl⟩

/-- The last name of a repository is the one that the map keeps. -/
theorem lookup_last {name : Str} {entry : Alias} {repoUrl key : Str}
    {before : List (Sigma fun _ => Alias)} (he : table.entries = before ++ [⟨name, entry⟩]) (hu : entry.upstream = .classic repoUrl)
    (hk : normalizeRepoKey lib repoUrl = some key) :
    (classicAliasRewriteMap lib table).lookup key = some name := by
  rw [classicAliasRewriteMap_eq, lookup_collect, classicPairs, he, List.filterMap_append,
    List.reverse_append]
  simp [hu, hk]

/-- The names that charts are rewritten to, and with them the artifacts, are the same in
every order of the table where no repository has two names, and only there. -/
theorem order_irrelevant_iff (lib : UrlCrate) (aliases : HashMap Alias) :
    (∀ a b : HashMap Alias, a.entries.Perm aliases.entries → b.entries.Perm aliases.entries →
      (∀ key, (classicAliasRewriteMap lib a).lookup key =
        (classicAliasRewriteMap lib b).lookup key) ∧
      ∀ (crates : ChartCrates) (proxyHost : Str) (limits : ArchiveLimits) (tgz : Bytes),
        crates.url = lib →
        buildHelmOciChart crates ⟨proxyHost, classicAliasRewriteMap lib a⟩ limits tgz =
          buildHelmOciChart crates ⟨proxyHost, classicAliasRewriteMap lib b⟩ limits tgz) ↔
    NamesRepositoriesOnce lib aliases := by
  constructor
  · intro h name name' entry entry' repoUrl repoUrl' key hl hl' hu hu' hk hk'
    obtain ⟨a, ha, before, hlast⟩ := exists_last hl
    obtain ⟨b, hb, before', hlast'⟩ := exists_last hl'
    have hsame := (h a b ha hb).1 key
    rw [lookup_last hlast hu hk, lookup_last hlast' hu' hk'] at hsame
    exact Option.some.inj hsame
  · intro h a b ha hb
    have hf := functional_classicPairs h
    have hfa : Functional (classicPairs lib a) := by
      intro p hp q hq
      exact hf p ((ha.filterMap _).mem_iff.mp hp) q ((ha.filterMap _).mem_iff.mp hq)
    have hmap : ∀ key, (classicAliasRewriteMap lib a).lookup key =
        (classicAliasRewriteMap lib b).lookup key :=
      lookup_collect_perm hfa ((ha.trans hb.symm).filterMap _)
    refine ⟨hmap, ?_⟩
    intro crates proxyHost limits tgz _
    apply buildHelmOciChart_congr
    exact ⟨rfl, hmap⟩

end Order

/-- A repository with a stored and an ephemeral alias. -/
def twiceNamed : Config where
  storage := .memory
  auth := {enabled := true, tokens := [str "token"]}
  aliases := collect [(str "keep", {upstream := str "https://charts.example.com/team", store := true}),
    (str "drop", {upstream := str "https://charts.example.com/team/"})]

def keepEntry : Str × Alias :=
  (str "keep", ⟨.classic (str "https://charts.example.com/team"), true, .none, false⟩)

def dropEntry : Str × Alias :=
  (str "drop", ⟨.classic (str "https://charts.example.com/team"), false, .none, false⟩)

/-- A table iterates from the pair that was inserted last. -/
def keepLast : HashMap Alias := collect [keepEntry, dropEntry]

def dropLast : HashMap Alias := collect [dropEntry, keepEntry]

/-- The configuration is accepted, and the order of its aliases names the dependency. -/
theorem order_decides_name :
    ∃ rt, validate plainUrls Char.isAlphanum id twiceNamed [] = .ok rt ∧
      keepLast.entries.Perm rt.aliases.entries ∧ dropLast.entries.Perm rt.aliases.entries ∧
      (classicAliasRewriteMap plainUrls keepLast).lookup (str "charts.example.com/team") ≠
        (classicAliasRewriteMap plainUrls dropLast).lookup (str "charts.example.com/team") ∧
      rewriteDependencyUrl plainUrls (str "https://charts.example.com/team")
          ⟨str "proxy.test", classicAliasRewriteMap plainUrls keepLast⟩ =
        some (str "oci://proxy.test/keep") ∧
      rewriteDependencyUrl plainUrls (str "https://charts.example.com/team")
          ⟨str "proxy.test", classicAliasRewriteMap plainUrls dropLast⟩ =
        some (str "oci://proxy.test/drop") := by
  refine ⟨_, rfl, ?_, ?_, by decide, by decide, by decide⟩
  · decide
  · decide

end Helmoci.AliasOrder
