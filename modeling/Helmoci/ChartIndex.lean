import Helmoci.NameResolver
import Helmoci.ServerErrors

/-!
# Helm repository indexes

The lookups on a repository's `index.yaml`. Decoding the YAML text into its
entries is the library's, taken as a parameter, and so are the URL functions. The
texts of the errors are those a client reads; they name the repository only where
the client supplied it.
-/
namespace Helmoci.ChartIndex
open RustText UrlInterface NameResolver ServerErrors

structure ChartEntry where
  version : Option Str
  urls : Option (List Str)
deriving DecidableEq, Repr

structure IndexFile where
  entries : Option (HashMap (List ChartEntry))

/-- `serde_yaml_ng::from_str` at the index type. -/
abbrev IndexParser := Str → Option IndexFile

inductive Disclosure where
  | clientSupplied
  | hidden
deriving DecidableEq, Repr

structure IndexRepo where
  url : Str
  disclosure : Disclosure
deriving DecidableEq, Repr

def sanitizedRepo (lib : UrlCrate) (repoUrl : Str) : Option Str := do
  let url ← lib.parse repoUrl
  if url.cannotHaveUserinfo then none
  else some (lib.serialize
    {url with query := none, fragment := none, username := [], password := none})

def IndexRepo.suffix (lib : UrlCrate) (repo : IndexRepo) : Str :=
  match repo.disclosure with
  | .hidden => []
  | .clientSupplied => (sanitizedRepo lib repo.url).elim [] fun r => str " at " ++ r

section Index
variable (lib : UrlCrate) (yaml : IndexParser)

def chartEntries (indexText : Str) (repo : IndexRepo) (chartName : Str) :
    Except HelmError (List ChartEntry) :=
  match yaml indexText with
  | none => .error (.invalidIndex (str "Upstream" ++ repo.suffix lib ++
      str (" did not return a valid Helm index.yaml. " ++
        "Check that the path maps to a classic Helm repo.")))
  | some index =>
    match index.entries with
    | none => .error (.invalidIndex (str "Upstream index.yaml" ++ repo.suffix lib ++
        str " did not contain an \"entries\" map."))
    | some entries =>
      match entries.lookup chartName with
      | some (entry :: rest) => .ok (entry :: rest)
      | _ =>
        let available := entries.keys.mergeSort fun a b => decide (a ≤ b)
        let shown := available.take 8
        let hint :=
          if shown.isEmpty then []
          else
            let more := if 8 < available.length then str ", …" else []
            str " Charts in this repo include: " ++ (str ", ").intercalate shown ++ more ++ str "."
        .error (.notFound (str "Chart \"" ++ chartName ++ str "\" was not found" ++
          repo.suffix lib ++ str "." ++ hint ++ str " The chart name is the last path segment."))

/-- The texts of a list without the repeated ones, in order. -/
def dedup (seen : List Str) : List ChartEntry → List Str
  | [] => []
  | entry :: entries =>
    match entry.version with
    | some v => if seen.contains v then dedup seen entries else v :: dedup (v :: seen) entries
    | none => dedup seen entries

/-- Versions as published, each once. -/
def listVersions (indexText : Str) (repo : IndexRepo) (chartName : Str) :
    Except HelmError (List Str) := do
  let entries ← chartEntries lib yaml indexText repo chartName
  return dedup [] entries

def versionNotFound (repo : IndexRepo) (chartName version : Str) : HelmError :=
  .notFound (str "Version \"" ++ (version ++ str "\" was not found for chart \"" ++ chartName ++
    str "\"" ++ repo.suffix lib ++ str ". List available versions: GET /v2/<name>/tags/list"))

/-- The base that relative entries are joined to ends in a slash. -/
def withTrailingSlash (base : Url) : Url :=
  if ['/'].isSuffixOf base.path then base else base.setPath lib (base.path ++ ['/'])

/-- An absolute entry is used as it is, a relative one stays on the repository's host. -/
def resolveDownloadUrl (repoUrl raw chartName version : Str) : Except HelmError Str :=
  match lib.parse raw with
  | some absolute => .ok (lib.serialize absolute)
  | none =>
    match lib.parse repoUrl with
    | none => .error (.invalidIndex (str "Configured Helm repository URL is invalid"))
    | some base =>
      let base := withTrailingSlash lib base
      match lib.join base raw with
      | none => .error (.invalidIndex (str "Chart \"" ++ chartName ++ str "\" version \"" ++
          version ++ str "\" has an invalid download URL"))
      | some resolved =>
        if resolved.scheme ≠ base.scheme ∨ resolved.host ≠ base.host ∨
            resolved.portOrKnownDefault ≠ base.portOrKnownDefault then
          .error (.invalidIndex (str "Chart \"" ++ chartName ++ str "\" version \"" ++ version ++
            str "\" has a relative download URL that points at a different host"))
        else .ok (lib.serialize resolved)

def resolveChartUrl (indexText : Str) (repo : IndexRepo) (chartName version : Str) :
    Except HelmError Str := do
  let entries ← chartEntries lib yaml indexText repo chartName
  match entries.find? fun e => e.version == some version with
  | none => .error (versionNotFound lib repo chartName version)
  | some entry =>
    match (entry.urls.bind List.head?) with
    | none => .error (.notFound (str "Chart \"" ++ (chartName ++ str "\" version \"" ++ version ++
        str "\"" ++ repo.suffix lib ++ str " has no download URL in index.yaml.")))
    | some raw => resolveDownloadUrl lib repo.url raw chartName version

end Index

theorem mem_dedup_iff {seen : List Str} {entries : List ChartEntry} {v : Str} :
    v ∈ dedup seen entries ↔ v ∉ seen ∧ ∃ e ∈ entries, e.version = some v := by
  induction entries generalizing seen with
  | nil => simp [dedup]
  | cons e entries ih =>
      cases he : e.version with
      | none => simp [dedup, he, ih]
      | some w =>
          simp only [dedup, he]
          split
          · rename_i hw
            rw [ih]
            simp only [List.contains_iff_mem] at hw
            constructor
            · rintro ⟨hv, e', he', hv'⟩
              exact ⟨hv, e', List.mem_cons_of_mem _ he', hv'⟩
            · rintro ⟨hv, e', he', hv'⟩
              refine ⟨hv, e', ?_, hv'⟩
              rcases List.mem_cons.mp he' with rfl | he'
              · rw [he] at hv'
                cases hv'
                exact (hv hw).elim
              · exact he'
          · rename_i hw
            simp only [List.contains_iff_mem] at hw
            rw [List.mem_cons, ih]
            constructor
            · rintro (rfl | ⟨hv, e', he', hv'⟩)
              · exact ⟨hw, e, by simp, he⟩
              · exact ⟨fun h => hv (List.mem_cons_of_mem _ h), e', List.mem_cons_of_mem _ he', hv'⟩
            · rintro ⟨hv, e', he', hv'⟩
              by_cases hvw : v = w
              · exact Or.inl hvw
              · refine Or.inr ⟨by simp [hvw, hv], e', ?_, hv'⟩
                rcases List.mem_cons.mp he' with rfl | he'
                · rw [he] at hv'
                  cases hv'
                  exact (hvw rfl).elim
                · exact he'

theorem nodup_dedup (seen : List Str) (entries : List ChartEntry) : (dedup seen entries).Nodup := by
  induction entries generalizing seen with
  | nil => simp [dedup]
  | cons e entries ih =>
      cases he : e.version with
      | none => simpa [dedup, he] using ih seen
      | some w =>
          simp only [dedup, he]
          split
          · exact ih seen
          · refine List.nodup_cons.mpr ⟨?_, ih _⟩
            intro h
            exact (mem_dedup_iff.mp h).1 (by simp)

section Lookup
variable {lib : UrlCrate} {yaml : IndexParser} {text chartName version : Str} {repo : IndexRepo}

theorem listVersions_eq_ok {versions : List Str}
    (h : listVersions lib yaml text repo chartName = .ok versions) :
    ∃ entries, chartEntries lib yaml text repo chartName = .ok entries ∧
      versions = dedup [] entries := by
  unfold listVersions at h
  cases he : chartEntries lib yaml text repo chartName with
  | error e =>
      rw [he] at h
      contradiction
  | ok entries =>
      rw [he] at h
      exact ⟨entries, rfl, (Except.ok.inj h).symm⟩

theorem versionNotFound_ne_resolveDownloadUrl (repoUrl raw name : Str) :
    resolveDownloadUrl lib repoUrl raw name version ≠
      .error (versionNotFound lib repo chartName version) := by
  unfold resolveDownloadUrl versionNotFound
  split
  · simp
  · split
    · simp
    · dsimp only
      split
      · simp
      · split <;> simp

/-- A lookup reports a missing version exactly for the versions that are not listed. -/
theorem resolveChartUrl_versionNotFound_iff {versions : List Str}
    (h : listVersions lib yaml text repo chartName = .ok versions) :
    resolveChartUrl lib yaml text repo chartName version =
      .error (versionNotFound lib repo chartName version) ↔ version ∉ versions := by
  obtain ⟨entries, he, rfl⟩ := listVersions_eq_ok h
  have hm : version ∉ dedup [] entries ↔
      entries.find? (fun e => e.version == some version) = none := by
    simp [mem_dedup_iff, List.find?_eq_none]
  rw [hm, resolveChartUrl, he]
  change (match entries.find? (fun e => e.version == some version) with
    | none => _
    | some entry => _) = _ ↔ _
  cases hf : entries.find? (fun e => e.version == some version) with
  | none => simp
  | some entry =>
      refine iff_of_false ?_ (by simp)
      dsimp only
      split
      · unfold versionNotFound
        intro hc
        have hq := (HelmError.notFound.inj (Except.error.inj hc))
        exact absurd (congrArg List.head? hq) (by simp [str])
      · exact versionNotFound_ne_resolveDownloadUrl _ _ _

end Lookup
end Helmoci.ChartIndex
