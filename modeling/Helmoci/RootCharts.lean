import Helmoci.RewrittenCharts

/-!
# The root files of a chart

A chart's archive keeps its files under the chart's name, and the charts it depends on
under `charts` below. The file at the root is found by its two components. A directory
`charts` at the root is taken for dependencies, so a chart of that name is the exception.
-/
namespace Helmoci.RootCharts
open RustText Utf8 NameGrammar ServerErrors DependencyRewriting TarUnpacking TarPacking ChartBuild
  ChartFrames RewrittenCharts

section Selected
variable (crates : ChartCrates) (ctx : RewriteContext)

/-- The config that one file gives. -/
def configOf (chart : TgzFile) : Except HelmError Bytes :=
  match crates.yaml (fromUtf8Lossy chart.data) with
  | .error e => .error (.invalidChart (str "Chart.yaml is not valid YAML: " ++ e))
  | .ok value =>
    if value.asMapping.isNone then
      .error (.invalidChart (str "Chart.yaml did not parse to an object"))
    else
      match crates.yamlJson value with
      | .error e => .error (.invalidChart (str "Chart.yaml could not be encoded as JSON: " ++ e))
      | .ok json => .ok json

/-- The files with the lock file at this place rewritten, where it can be. -/
def rewriteLockAt (files : List TgzFile) : Option ℕ → List TgzFile
  | none => files
  | some i =>
    match crates.yaml (fromUtf8Lossy ((files[i]?.map TgzFile.data).getD [])) with
    | .error _ => files
    | .ok value =>
      match rewriteDependencies crates ctx value with
      | (_, []) => files
      | (value, _ :: _) =>
        match crates.yamlText value with
        | .error _ => files
        | .ok text => setData files i (asBytes text)

/-- The archive with this chart file and this lock file rewritten. -/
def rewriteAt (tgz : Bytes) (files : List TgzFile) (i : ℕ) (lock : Option ℕ) :
    Except HelmError RewriteResult :=
  match crates.yaml (fromUtf8Lossy ((files[i]?.map TgzFile.data).getD [])) with
  | .error _ => .ok ⟨tgz, false, []⟩
  | .ok value =>
    match rewriteDependencies crates ctx value with
    | (_, []) => .ok ⟨tgz, false, []⟩
    | (value, rewrites) =>
      match crates.yamlText value with
      | .error e => .error (.invalidChart (str "failed to re-encode Chart.yaml: " ++ e))
      | .ok text => do
        let files := rewriteLockAt crates ctx (setData files i (asBytes text)) lock
        return ⟨← packTgz crates.writer files, true, rewrites⟩

variable {crates ctx}

theorem chartConfigFromTgz_of_find {limits : ArchiveLimits} {tgz : Bytes} {files : List TgzFile}
    {chart : TgzFile} (hfiles : (unpackTgzWithLimits crates.platform limits crates.reader tgz).1 =
      .ok files) (hchart : files.find? (fun f => isRootChartFile f.name (str "Chart.yaml")) =
        some chart) : chartConfigFromTgz crates limits tgz = configOf crates chart := by
  unfold chartConfigFromTgz configOf
  rw [hfiles]
  simp only [bind, Except.bind, hchart]
  rfl

theorem rewriteLock_eq (files : List TgzFile) :
    rewriteLock crates ctx files = rewriteLockAt crates ctx files
      (files.findIdx? fun f => isRootChartFile f.name (str "Chart.lock")) := by
  unfold rewriteLock
  cases files.findIdx? fun f => isRootChartFile f.name (str "Chart.lock") with
  | none => rfl
  | some i => rfl

theorem names_setData (files : List TgzFile) (i : ℕ) (data : Bytes) :
    (setData files i data).map TgzFile.name = files.map TgzFile.name := by
  apply List.ext_getElem?
  intro j
  rw [setData, List.getElem?_map, List.getElem?_map, List.getElem?_modify,
    Option.map_eq_map, Option.map_map]
  congr 1
  funext f
  dsimp only [Function.comp_apply]
  split <;> rfl

theorem findIdx?_setData (files : List TgzFile) (i : ℕ) (data : Bytes) (basename : String) :
    (setData files i data).findIdx? (fun f => isRootChartFile f.name (str basename)) =
      files.findIdx? fun f => isRootChartFile f.name (str basename) := by
  apply Option.ext
  exact isFirst_congr basename (names_setData files i data)

theorem rewriteChartDependencies_of_findIdx {limits : ArchiveLimits} {tgz : Bytes}
    {files : List TgzFile} {i : ℕ}
    (hfiles : (unpackTgzWithLimits crates.platform limits crates.reader tgz).1 = .ok files)
    (hi : IsFirst "Chart.yaml" files i) :
    rewriteChartDependencies crates ctx limits tgz =
      if ctx.proxyHost.isEmpty then .ok ⟨tgz, false, []⟩
      else rewriteAt crates ctx tgz files i
        (files.findIdx? fun f => isRootChartFile f.name (str "Chart.lock")) := by
  unfold rewriteChartDependencies rewriteAt
  simp only [rewriteLock_eq, findIdx?_setData]
  split
  · rfl
  · rw [hfiles]
    unfold IsFirst at hi
    simp only [bind, Except.bind, hi]
    cases crates.yaml (fromUtf8Lossy ((files[i]?.map TgzFile.data).getD [])) with
    | error e => rfl
    | ok value =>
        obtain ⟨value', rewrites⟩ : Yaml × List Rewrite := rewriteDependencies crates ctx value
        cases rewrites with
        | nil => rfl
        | cons rewrite rewrites =>
            cases crates.yamlText value' <;> rfl

end Selected

section Root
variable {d : Str} {files : List TgzFile}

/-- The name leads into the directory. -/
def Under (d name : Str) : Prop := ∃ next rest, parts name = d :: next :: rest

theorem isRootChartFile_under (hd : d ≠ str "charts") {name : Str} (h : Under d name)
    (basename : Str) : isRootChartFile name basename = (parts name == [d, basename]) := by
  obtain ⟨next, rest, hparts⟩ := h
  rw [isRootChartFile_eq, hparts]
  cases rest with
  | nil => simp [hd]
  | cons deeper rest => simp

/-- Nothing that lies under `charts` is at the root of a chart. -/
theorem isRootChartFile_charts {name : Str} (h : Under (str "charts") name) (basename : Str) :
    isRootChartFile name basename = false := by
  obtain ⟨next, rest, hparts⟩ := h
  rw [isRootChartFile_eq, hparts]
  cases rest with
  | nil => simp
  | cons deeper rest => rfl

theorem findIdx?_under (hd : d ≠ str "charts") (hu : ∀ f ∈ files, Under d f.name)
    (basename : Str) : files.findIdx? (fun f => isRootChartFile f.name basename) =
      files.findIdx? fun f => parts f.name == [d, basename] := by
  induction files with
  | nil => rfl
  | cons f files ih =>
      rw [List.findIdx?_cons, List.findIdx?_cons,
        isRootChartFile_under hd (hu f List.mem_cons_self) basename,
        ih fun g hg => hu g (List.mem_cons_of_mem f hg)]

theorem findIdx?_eq_of_unique {α : Type} {l : List α} {p : α → Bool} {i : ℕ} {a : α}
    (ha : l[i]? = some a) (hp : p a = true)
    (hu : ∀ j b, l[j]? = some b → p b = true → j = i) : l.findIdx? p = some i := by
  obtain ⟨hi, hget⟩ := List.getElem?_eq_some_iff.mp ha
  rw [List.findIdx?_eq_some_iff_getElem]
  refine ⟨hi, by rw [hget]; exact hp, ?_⟩
  intro j hj hpj
  have := hu j _ (List.getElem?_eq_getElem (by omega)) hpj
  omega

theorem find?_of_findIdx? {α : Type} {l : List α} {p : α → Bool} {i : ℕ} {a : α}
    (h : l.findIdx? p = some i) (ha : l[i]? = some a) : l.find? p = some a := by
  obtain ⟨hi, hp, hfirst⟩ := List.findIdx?_eq_some_iff_getElem.mp h
  obtain ⟨_, hget⟩ := List.getElem?_eq_some_iff.mp ha
  rw [List.find?_eq_some_iff_getElem]
  refine ⟨by rw [← hget]; exact hp, i, hi, hget, ?_⟩
  intro j hj
  simpa using hfirst j hj

/-- In the archive of a chart whose name is not `charts`, the config is made of the one file
at the root, and its dependencies are the ones that are rewritten, next to those of the
lock file beside it. -/
theorem root_is_selected (crates : ChartCrates) (limits : ArchiveLimits) (tgz : Bytes)
    (hd : d ≠ str "charts")
    (hfiles : (unpackTgzWithLimits crates.platform limits crates.reader tgz).1 = .ok files)
    (hu : ∀ f ∈ files, Under d f.name) {i : ℕ} {chart : TgzFile} (hchart : files[i]? = some chart)
    (hroot : parts chart.name = [d, str "Chart.yaml"])
    (honly : ∀ j f, files[j]? = some f → parts f.name = [d, str "Chart.yaml"] → j = i) :
    chartConfigFromTgz crates limits tgz = configOf crates chart ∧
      ∀ ctx, rewriteChartDependencies crates ctx limits tgz =
        if ctx.proxyHost.isEmpty then .ok ⟨tgz, false, []⟩
        else rewriteAt crates ctx tgz files i
          (files.findIdx? fun f => parts f.name == [d, str "Chart.lock"]) := by
  have hfirst : IsFirst "Chart.yaml" files i := by
    rw [IsFirst, findIdx?_under hd hu]
    apply findIdx?_eq_of_unique hchart
    · simpa using hroot
    · intro j f hj hf
      exact honly j f hj (by simpa using hf)
  constructor
  · exact chartConfigFromTgz_of_find hfiles (find?_of_findIdx? hfirst hchart)
  · intro ctx
    rw [rewriteChartDependencies_of_findIdx hfiles hfirst, findIdx?_under hd hu]

/-- A chart called `charts` has no config and keeps its dependencies. -/
theorem charts_is_excluded {crates : ChartCrates} {limits : ArchiveLimits} {tgz : Bytes}
    (hfiles : (unpackTgzWithLimits crates.platform limits crates.reader tgz).1 = .ok files)
    (hu : ∀ f ∈ files, Under (str "charts") f.name) :
    chartConfigFromTgz crates limits tgz =
        .error (.invalidChart (str "Chart.yaml not found in chart archive")) ∧
      ∀ ctx, rewriteChartDependencies crates ctx limits tgz = .ok ⟨tgz, false, []⟩ := by
  have hnone : files.find? (fun f => isRootChartFile f.name (str "Chart.yaml")) = none := by
    rw [List.find?_eq_none]
    intro f hf
    simp [isRootChartFile_charts (hu f hf)]
  constructor
  · unfold chartConfigFromTgz
    rw [hfiles]
    simp only [bind, Except.bind, hnone]
    rfl
  · intro ctx
    apply rewriteChartDependencies_kept hfiles
    intro ⟨_, i, f, _, hi, hf, _⟩
    have hfind := find?_of_findIdx? hi hf
    rw [hnone] at hfind
    cases hfind

end Root

section Instances

/-- A dependency's chart and a lock file stand before the chart's file. -/
def nestedChart : Bytes := framedFiles
  [(bytes "demo/charts/dep/Chart.yaml", asBytes (oneDependencyText (str "https://c.io/d"))),
    (bytes "demo/Chart.lock", asBytes (oneDependencyText (str "https://a.io/b"))),
    (bytes "demo//Chart.yaml", asBytes (oneDependencyText (str "https://a.io/b")))]

def nestedFiles : List TgzFile :=
  [⟨str "demo/charts/dep/Chart.yaml", asBytes (oneDependencyText (str "https://c.io/d")), 0o644, 0⟩,
    ⟨str "demo/Chart.lock", asBytes (oneDependencyText (str "https://a.io/b")), 0o644, 0⟩,
    ⟨str "demo//Chart.yaml", asBytes (oneDependencyText (str "https://a.io/b")), 0o644, 0⟩]

theorem nested_under : ∀ f ∈ nestedFiles, Under (str "demo") f.name := by
  intro f hf
  simp only [nestedFiles, List.mem_cons, List.not_mem_nil, or_false] at hf
  rcases hf with rfl | rfl | rfl
  · exact ⟨str "charts", [str "dep", str "Chart.yaml"], by decide⟩
  · exact ⟨str "Chart.lock", [], by decide⟩
  · exact ⟨str "Chart.yaml", [], by decide⟩

theorem nested_only (j : ℕ) (f : TgzFile) (hf : nestedFiles[j]? = some f)
    (hroot : parts f.name = [str "demo", str "Chart.yaml"]) : j = 2 := by
  rcases j with _ | _ | _ | j
  · cases hf
    exact absurd hroot (by decide)
  · cases hf
    exact absurd hroot (by decide)
  · rfl
  · cases hf

set_option maxRecDepth 4000 in
theorem nested_root_is_selected :
    chartConfigFromTgz framedCrates chartLimits nestedChart =
        .ok (asBytes (oneDependencyText (str "https://a.io/b"))) ∧
      rewriteChartDependencies framedCrates proxyTest chartLimits nestedChart =
        rewriteAt framedCrates proxyTest nestedChart nestedFiles 2 (some 1) := by
  have h := @root_is_selected (str "demo") nestedFiles framedCrates chartLimits nestedChart
    (by decide) (by decide) nested_under 2 _ rfl (by decide) nested_only
  exact ⟨h.1.trans (by decide), h.2 proxyTest⟩

def chartsFile : TgzFile :=
  ⟨str "charts/Chart.yaml", asBytes (oneDependencyText (str "https://a.io/b")), 0o644, 0⟩

def chartsChart : Bytes := framedFiles
  [(bytes "charts/Chart.yaml", asBytes (oneDependencyText (str "https://a.io/b")))]

set_option maxRecDepth 4000 in
/-- The only file of a chart called `charts` is not seen as its root. -/
theorem charts_has_no_root :
    isValidChartName (str "charts") = true ∧
      (unpackTgzWithLimits framedCrates.platform chartLimits framedCrates.reader chartsChart).1 =
        .ok [chartsFile] ∧
      parts chartsFile.name = [str "charts", str "Chart.yaml"] ∧
      chartConfigFromTgz framedCrates chartLimits chartsChart =
        .error (.invalidChart (str "Chart.yaml not found in chart archive")) ∧
      chartConfigFromTgz framedCrates chartLimits chartsChart ≠ configOf framedCrates chartsFile ∧
      rewriteChartDependencies framedCrates proxyTest chartLimits chartsChart ≠
        rewriteAt framedCrates proxyTest chartsChart [chartsFile] 0 none := by
  decide

end Instances

end Helmoci.RootCharts
