import Helmoci.AcceptedArchives
import Helmoci.ChartFrames

/-!
# The config of a rewritten chart

The chart's file is chosen among the files of the upstream archive and once more among
those of the packed one, whose names the writer has changed. Both choices are the same
member unless a file in front of it only becomes a chart's file by its new name.
-/
namespace Helmoci.RewrittenCharts
open RustText Utf8 SegmentedText ServerErrors DependencyRewriting TarUnpacking TarPacking
  ArchiveMeaning AcceptedArchives ChartBuild PlainCrates ChartFrames

section Packed
variable {writer : TarWriter} {reader : TarReader} {platform platform' : Platform}
  {limits : ArchiveLimits}

theorem written_entries {fits : Str → Bool} {header : TarHeader} {path : Str} {data : Bytes}
    {written : List RawEntry} (h : Written fits header path data written) :
    ∀ e ∈ written, e.payload.length = e.size ∧ e.entryType ≠ .xHeader := by
  intro e he
  cases h with
  | named _ =>
      obtain rfl := List.mem_singleton.mp he
      exact ⟨rfl, by simp [member]⟩
  | longNamed cut _ =>
      rcases List.mem_cons.mp he with rfl | he
      · exact ⟨by simp [longNameEntry], by simp [longNameEntry]⟩
      · obtain rfl := List.mem_singleton.mp he
        exact ⟨rfl, by simp [member]⟩

theorem writtenFiles_entries {fits : Str → Bool} {fs : List TgzFile}
    {written : List (List RawEntry)} (h : WrittenFiles fits fs written) :
    ∀ e ∈ written.flatten, e.payload.length = e.size ∧ e.entryType ≠ .xHeader := by
  induction h with
  | nil => simp
  | cons hf _ ih =>
      intro e he
      rw [List.flatten_cons, List.mem_append] at he
      rcases he with he | he
      · exact written_entries hf e he
      · exact ih e he

/-- Without PAX headers the platform does not matter. -/
theorem files_congr_platform {g : Grouping} (h : ∀ e ∈ g.entries, e.entryType ≠ .xHeader) :
    files platform g = files platform' g := by
  apply List.flatMap_congr
  intro group hg
  have hrecords : ∀ platform, groupRecords platform group = [] := by
    intro platform
    apply recordsOf_of_countP
    rw [List.countP_eq_zero]
    intro e he
    have hm : e ∈ g.entries := by
      apply List.mem_append_left
      rw [List.mem_flatMap]
      exact ⟨group, hg, List.mem_append_left _ he⟩
    simpa [isHeaderOf] using h e hm
  unfold groupFiles groupName groupPath
  rw [hrecords platform, hrecords platform']

/-- Where a packed archive unpacks at all, it unpacks to the files as they are stored. -/
theorem eq_stored_of_unpack (format : TarFormat writer reader) {fs fs' : List TgzFile}
    {tgz : Bytes} (h : packTgz writer fs = .ok tgz)
    (hu : (unpackTgzWithLimits platform limits reader tgz).1 = .ok fs') :
    fs' = fs.map (storedFile format.fits) := by
  obtain ⟨written, hw, hread, -⟩ := read_packTgz format h
  have hentries := writtenFiles_entries hw
  have hl : ∀ e ∈ written.flatten, e.payload.length = e.size := fun e he => (hentries e he).1
  obtain ⟨-, hfs'⟩ := accepted_of_unpackTgz hread hl hu
  obtain ⟨-, hfs⟩ := accepted_of_unpackTgz hread hl (unpacks_packTgz format h).largest
  rw [hfs, hfs']
  apply files_congr_platform
  rw [entries_grouping]
  exact fun e he => (hentries e he).2

end Packed

section Names

/-- The components of a path that are not empty. -/
def parts (name : Str) : List Str := (name.splitOn '/').filter fun p => !p.isEmpty

theorem parts_intercalate {words : List Str} (hs : ∀ w ∈ words, '/' ∉ w) (hn : words ≠ [])
    (he : ∀ w ∈ words, w ≠ []) : parts (['/'].intercalate words) = words ∧
      parts (['/'].intercalate words ++ ['/']) = words := by
  have hsplit : (['/'].intercalate words).splitOn '/' = words := List.splitOn_intercalate _ hs hn
  have hall : words.filter (fun p => !p.isEmpty) = words := by
    rw [List.filter_eq_self]
    intro w hw
    simpa using he w hw
  have hslash : (['/'].intercalate words ++ ['/']).splitOn '/' = words ++ [[]] := by
    rw [List.splitOn_append_cons_self, hsplit]
    rfl
  refine ⟨by rw [parts, hsplit, hall], ?_⟩
  rw [parts, hslash, List.filter_append, hall]
  simp

/-- What the header keeps of a path are its components without the dots. -/
theorem parts_headerName (path : Str) : parts (headerName path) =
    if ((parts path).filter (· != ['.'])).isEmpty then [['.']]
    else (parts path).filter (· != ['.']) := by
  have hcomponents : (path.splitOn '/').filter isComponent = (parts path).filter (· != ['.']) := by
    rw [parts, List.filter_filter]
    congr 1
    funext p
    exact Bool.and_comm _ _
  unfold headerName
  dsimp only
  rw [hcomponents]
  generalize hw : (if ((parts path).filter (· != ['.'])).isEmpty then [['.']]
    else (parts path).filter (· != ['.'])) = words
  have hwords : words ≠ [] ∧ ∀ w ∈ words, '/' ∉ w ∧ w ≠ [] := by
    rw [← hw]
    split
    · simp
    · rename_i hne
      refine ⟨by simpa using hne, ?_⟩
      intro w hm
      have hm := List.mem_filter.mp (List.mem_of_mem_filter hm)
      exact ⟨not_mem_of_mem_splitOn hm.1, by simpa using hm.2⟩
  obtain ⟨h, h'⟩ := parts_intercalate (fun w hm => (hwords.2 w hm).1) hwords.1
    (fun w hm => (hwords.2 w hm).2)
  split
  · exact h'
  · rw [List.append_nil]
    exact h

theorem isRootChartFile_eq (name basename : Str) : isRootChartFile name basename =
    match parts name with
    | [only] => only == basename
    | [dir, file] => file == basename && dir != str "charts"
    | _ => false := rfl

/-- The last component is the file's name, and a file that has it ends in it. -/
theorem getLast?_of_isRootChartFile {name basename : Str}
    (h : isRootChartFile name basename = true) :
    name.getLast? = some '/' ∨ name.getLast? = basename.getLast? := by
  rcases List.eq_nil_or_concat (name.splitOn '/') with hnil | ⟨front, last, hsplit⟩
  · exact absurd hnil (List.splitOn_ne_nil _ _)
  · have hjoin : ['/'].intercalate (front ++ [last]) = name := by
      rw [← List.concat_eq_append, ← hsplit]
      exact List.intercalate_splitOn '/'
    by_cases hlast : last = []
    · subst hlast
      cases front with
      | nil =>
          obtain rfl : name = [] := hjoin.symm
          cases h
      | cons w front =>
          rw [intercalate_append (by simp) (by simp)] at hjoin
          rw [← hjoin]
          simp
    · have hparts : parts name = (front.filter fun p => !p.isEmpty) ++ [last] := by
        rw [parts, hsplit, List.concat_eq_append, List.filter_append]
        simp [hlast]
      have hbase : last = basename := by
        rw [isRootChartFile_eq, hparts] at h
        split at h
        · rename_i only heq
          have := (List.append_eq_singleton_iff.mp heq)
          simp_all
        · rename_i dir file heq
          have hl := congrArg List.getLast? heq
          simp at hl h
          rw [hl, h.1]
        · cases h
      rw [← hjoin, ← hbase]
      cases front with
      | nil => exact Or.inr (congrArg List.getLast? (List.intercalate_singleton ..))
      | cons w front =>
          have hjoin := @intercalate_append Char ['/'] (w :: front) [last] (by simp) (by simp)
          apply Or.inr
          rw [hjoin, List.intercalate_singleton, List.getLast?_append,
            List.getLast?_eq_some_getLast hlast]
          rfl

/-- The writer leaves a chart's file at the root of the chart. -/
theorem isRootChartFile_storedName {fits : Str → Bool} {name basename : Str}
    (hb : basename.getLast? ≠ some nul) (hd : basename ≠ ['.'])
    (h : isRootChartFile name basename = true) :
    isRootChartFile (storedName fits name) basename = true := by
  unfold storedName
  split
  · rw [isRootChartFile_eq] at h ⊢
    rw [parts_headerName]
    split at h
    · rename_i only hparts
      have ho : only ≠ ['.'] := by
        rw [beq_iff_eq.mp h]
        exact hd
      simpa [hparts, ho] using h
    · rename_i dir file hparts
      obtain ⟨hfile, hdir⟩ := Bool.and_eq_true_iff.mp h
      have hf : file ≠ ['.'] := by
        rw [beq_iff_eq.mp hfile]
        exact hd
      by_cases hdot : dir = ['.']
      · simpa [hparts, hf, hdot] using hfile
      · simpa [hparts, hf, hdot] using h
    · cases h
  · have hkept : name.rdropWhile (· == nul) = name := by
      rw [List.rdropWhile_eq_self_iff]
      intro hne
      have hl := getLast?_of_isRootChartFile h
      rw [List.getLast?_eq_some_getLast hne] at hl
      rcases hl with hl | hl
      · rw [Option.some.inj hl]
        decide
      · intro hz
        rw [beq_iff_eq.mp hz] at hl
        exact hb hl.symm
    rw [hkept]
    exact h

end Names

section Chart
variable {crates : ChartCrates} {ctx : RewriteContext} {limits : ArchiveLimits}

/-- A rewritten repository is not rewritten again. -/
theorem rewriteDependencyUrl_rewritten {repo next : Str}
    (h : rewriteDependencyUrl crates.url repo ctx = some next) :
    rewriteDependencyUrl crates.url next ctx = none := by
  obtain ⟨u, host, -, -, -, -, -, rfl⟩ := rewriteDependencyUrl_eq_some h
  unfold rewriteDependencyUrl
  rw [if_pos (by simp [List.isPrefixOf_iff_prefix])]

theorem asMapping_withMapping {value : Yaml} {map entries : List (Yaml × Yaml)}
    (h : value.asMapping = some map) : (value.withMapping entries).asMapping = some entries := by
  match value, h with
  | .mapping _, _ => rfl
  | .tagged _ value, h => exact @asMapping_withMapping value _ _ h

theorem lookup_replace {key : Str} {value value' : Yaml} {map : List (Yaml × Yaml)}
    (h : Yaml.lookup key map = some value) :
    Yaml.lookup key (Yaml.replace key value' map) = some value' := by
  induction map with
  | nil => cases h
  | cons p map ih =>
      unfold Yaml.replace
      cases hp : p.1.isKey key with
      | true => simp [Yaml.lookup, hp]
      | false =>
          have hl : Yaml.lookup key map = some value := by simpa [Yaml.lookup, hp] using h
          have hr := ih hl
          rw [if_neg Bool.false_ne_true]
          simpa [Yaml.lookup, hp] using hr

theorem not_rewritableDep (dep : Yaml) :
    ¬ RewritableDep crates.url ctx (rewriteDep crates ctx dep).1 := by
  by_cases hd : RewritableDep crates.url ctx dep
  · obtain ⟨map, repo, next, hm, hl, hr⟩ := hd
    have hnext : (rewriteDep crates ctx dep).1 =
        dep.withMapping (Yaml.replace (str "repository") (.string next) map) := by
      unfold rewriteDep
      simp only [hm, hl, hr, ne_of_rewriteDependencyUrl hr, if_false]
    rw [hnext]
    intro ⟨map', repo', next', hm', hl', hr'⟩
    rw [asMapping_withMapping hm, Option.some.injEq] at hm'
    rw [← hm', lookup_replace hl, Option.some.injEq, Yaml.string.injEq] at hl'
    rw [← hl', rewriteDependencyUrl_rewritten hr] at hr'
    cases hr'
  · have hsame : (rewriteDep crates ctx dep).1 = dep := by
      unfold rewriteDep
      cases hm : dep.asMapping with
      | none => rfl
      | some map =>
          dsimp only
          split
          · rename_i repo hl
            cases hr : rewriteDependencyUrl crates.url repo ctx with
            | none => rfl
            | some next => exact (hd ⟨map, repo, next, hm, hl, hr⟩).elim
          · rfl
    rw [hsame]
    exact hd

/-- Rewriting is idempotent on documents. -/
theorem not_rewritable_rewriteDependencies {value : Yaml}
    (hv : Rewritable crates.url ctx value) :
    ¬ Rewritable crates.url ctx (rewriteDependencies crates ctx value).1 := by
  obtain ⟨map, seq, hm, hl, -⟩ := hv
  have hnext : (rewriteDependencies crates ctx value).1 = value.withMapping
      (Yaml.replace (str "dependencies")
        (.sequence ((seq.map (rewriteDep crates ctx)).map Prod.fst)) map) := by
    unfold rewriteDependencies
    simp only [hm, hl, rewriteDepsList]
  rw [hnext]
  rintro ⟨map', seq', hm', hl', dep, hdep, hr⟩
  rw [asMapping_withMapping hm, Option.some.injEq] at hm'
  rw [← hm', lookup_replace hl, Option.some.injEq, Yaml.sequence.injEq] at hl'
  subst hl'
  obtain ⟨p, hp, rfl⟩ := List.mem_map.mp hdep
  obtain ⟨d, -, rfl⟩ := List.mem_map.mp hp
  exact not_rewritableDep d hr

theorem chartConfigFromTgz_eq_ok {tgz config : Bytes}
    (h : chartConfigFromTgz crates limits tgz = .ok config) : ∃ files i f value,
      (unpackTgzWithLimits crates.platform limits crates.reader tgz).1 = .ok files ∧
      IsFirst "Chart.yaml" files i ∧ files[i]? = some f ∧
      crates.yaml (fromUtf8Lossy f.data) = .ok value ∧ crates.yamlJson value = .ok config := by
  obtain ⟨files, hfiles, h⟩ := bind_eq_ok h
  cases hfind : files.find? fun f => isRootChartFile f.name (str "Chart.yaml") with
  | none =>
      rw [hfind] at h
      cases h
  | some f =>
      rw [hfind] at h
      obtain ⟨hroot, i, hi, hf, hfirst⟩ := List.find?_eq_some_iff_getElem.mp hfind
      have hindex : IsFirst "Chart.yaml" files i := by
        rw [IsFirst, List.findIdx?_eq_some_iff_getElem]
        refine ⟨hi, by rw [hf]; exact hroot, ?_⟩
        intro j hj hjr
        have := hfirst j hj
        simp_all
      cases hv : crates.yaml (fromUtf8Lossy f.data) with
      | error e =>
          simp only [hv] at h
          cases h
      | ok value =>
          simp only [hv] at h
          split at h
          · cases h
          · split at h
            · cases h
            · rename_i json hj
              refine ⟨files, i, f, value, hfiles, hindex, ?_, hv, ?_⟩
              · rw [← hf]
                exact List.getElem?_eq_getElem hi
              · rw [hj, ← Except.ok.inj h]

/-- A chart without such a dependency is left alone. -/
theorem rewriteChartDependencies_kept {tgz : Bytes} {files : List TgzFile}
    (hu : (unpackTgzWithLimits crates.platform limits crates.reader tgz).1 = .ok files)
    (hn : ¬ NeedsRewrite crates ctx files) :
    rewriteChartDependencies crates ctx limits tgz = .ok ⟨tgz, false, []⟩ := by
  unfold rewriteChartDependencies
  dsimp only
  split
  · rfl
  · rename_i hhost
    have hne : ctx.proxyHost ≠ [] := by simpa using hhost
    rw [hu]
    dsimp only [bind, Except.bind]
    split
    · rfl
    · rename_i i hi
      obtain ⟨f, hf, -⟩ := IsFirst.exists_file hi
      simp only [hf, Option.map_some, Option.getD_some]
      split
      · rfl
      · rename_i value hv
        have hnil : (rewriteDependencies crates ctx value).2 = [] := by
          by_contra hr
          exact hn ⟨hne, i, f, value, hi, hf, hv, (rewriteDependencies_snd_iff value).mp hr⟩
        cases hd : rewriteDependencies crates ctx value with
        | mk value' rewrites =>
            rw [hd] at hnil
            obtain rfl : rewrites = [] := hnil
            rfl

variable (crates ctx limits) in
/-- The config is the JSON of the member whose dependencies were looked at, as it is
found in the layer, and none of them is left to rewrite. -/
def FullyRewritten (tgz : Bytes) (built : BuiltChart) : Prop :=
  ∃ files files' i chart value,
    (unpackTgzWithLimits crates.platform limits crates.reader tgz).1 = .ok files ∧
    IsFirst "Chart.yaml" files i ∧
    (unpackTgzWithLimits crates.platform limits crates.reader built.layerBytes).1 = .ok files' ∧
    IsFirst "Chart.yaml" files' i ∧ files'[i]? = some chart ∧
    crates.yaml (fromUtf8Lossy chart.data) = .ok value ∧
    crates.yamlJson value = .ok built.configBytes ∧ ¬ Rewritable crates.url ctx value ∧
    ∃ r, rewriteChartDependencies crates ctx limits built.layerBytes = .ok r ∧ r.modified = false

/-- The lock file is another file than the chart's. -/
theorem data_of_edit (hy : YamlLaw crates) {files : List TgzFile} {i : ℕ} {f g : TgzFile}
    {data : Bytes} (hi : IsFirst "Chart.yaml" files i) (hf : files[i]? = some f)
    (hg : (rewriteLock crates ctx (setData files i data))[i]? = some g) : g.data = data := by
  have hset : (setData files i data)[i]? = some {f with data := data} := by
    simp [setData, hf]
  have hlock := @rewriteLock_differs crates ctx hy (setData files i data)
  obtain ⟨-, -, -, hdata⟩ := hlock.2 i _ g hset hg
  rcases hdata with hdata | ⟨hfirst, -⟩
  · exact hdata
  · obtain ⟨g', hg', hroot'⟩ := hfirst.exists_file
    obtain rfl := Option.some.inj (hset.symm.trans hg')
    obtain ⟨f', hf', hroot⟩ := hi.exists_file
    obtain rfl := Option.some.inj (hf.symm.trans hf')
    exact absurd (isRootChartFile_unique hroot hroot') (by decide)

/-- A file in front of the chart's file is not a chart's file by its stored name. -/
def NothingPromoted (fits : Str → Bool) (files : List TgzFile) : Prop :=
  ∀ i, IsFirst "Chart.yaml" files i → ∀ k f, k < i → files[k]? = some f →
    isRootChartFile (storedName fits f.name) (str "Chart.yaml") = false

theorem nothingPromoted_congr {fits : Str → Bool} {files files' : List TgzFile}
    (hnames : files.map TgzFile.name = files'.map TgzFile.name)
    (h : NothingPromoted fits files) : NothingPromoted fits files' := by
  intro i hi k g hk hg
  have hlen : k < files.length := by
    have hlengths := congrArg List.length hnames
    have := (List.getElem?_eq_some_iff.mp hg).choose
    simp only [List.length_map] at hlengths
    omega
  have hname : files[k].name = g.name := by
    have := congrArg (·[k]?) hnames
    simpa [List.getElem?_eq_getElem hlen, hg] using this
  rw [← hname]
  exact h i ((isFirst_congr _ hnames i).mpr hi) k _ hk (List.getElem?_eq_getElem hlen)

/-- The place of the chart's file after packing is the same when nothing is promoted. -/
theorem isFirst_stored_iff {fits : Str → Bool} {files : List TgzFile} {i : ℕ}
    (hi : IsFirst "Chart.yaml" files i) :
    IsFirst "Chart.yaml" (files.map (storedFile fits)) i ↔ NothingPromoted fits files := by
  obtain ⟨hlt, hroot, -⟩ := List.findIdx?_eq_some_iff_getElem.mp hi
  have hget : ∀ k (hk : k < (files.map (storedFile fits)).length) (hk' : k < files.length),
      (files.map (storedFile fits))[k].name = storedName fits files[k].name := by
    intro k hk hk'
    simp [storedFile]
  constructor
  · intro hstored j hj k f hk hf
    obtain rfl : i = j := Option.some.inj (hi.symm.trans hj)
    obtain ⟨hlen, -, hfirst⟩ := List.findIdx?_eq_some_iff_getElem.mp hstored
    have hno := hfirst k hk
    obtain ⟨hkl, rfl⟩ := List.getElem?_eq_some_iff.mp hf
    rw [hget k _ hkl] at hno
    simpa using hno
  · intro hno
    rw [IsFirst, List.findIdx?_eq_some_iff_getElem]
    refine ⟨by simpa using hlt, ?_, ?_⟩
    · rw [hget i _ hlt]
      exact isRootChartFile_storedName (by decide) (by decide) hroot
    · intro k hk
      have hkl : k < files.length := by omega
      rw [hget k _ hkl, hno i hi k _ hk (List.getElem?_eq_getElem hkl)]
      exact Bool.false_ne_true

/-- A chart is built from the member that was rewritten exactly when the packing
promotes no other file. -/
theorem fullyRewritten_iff (hy : YamlLaw crates) (format : TarFormat crates.writer crates.reader)
    (hhost : ctx.proxyHost ≠ []) {tgz : Bytes} {built : BuiltChart}
    (h : buildHelmOciChart crates ctx limits tgz = .ok built) :
    FullyRewritten crates ctx limits tgz built ↔
      ∀ files, (unpackTgzWithLimits crates.platform limits crates.reader tgz).1 = .ok files →
        NeedsRewrite crates ctx files → NothingPromoted format.fits files := by
  obtain ⟨rewritten, hrewritten, h⟩ := bind_eq_ok h
  obtain ⟨config, hconfig, h⟩ := bind_eq_ok h
  cases h
  obtain ⟨files', j, chart, value', hfiles', hj, hchart, hvalue', hjson⟩ :=
    chartConfigFromTgz_eq_ok hconfig
  rcases rewriteChartDependencies_eq_ok hrewritten with ⟨rfl, hn⟩ |
    ⟨files, i, f, value, text, packed, hfiles, -, hi, hf, hv, hr, ht, hp, rfl⟩
  · -- the layer is the input, whose chart has nothing to rewrite
    obtain ⟨files, hfiles, hneeds⟩ := hn hhost
    have hfiles' : (unpackTgzWithLimits crates.platform limits crates.reader tgz).1 =
        .ok files' := hfiles'
    obtain rfl : files = files' := Except.ok.inj (hfiles.symm.trans hfiles')
    constructor
    · intro _ files₁ hfiles₁ hneeds₁
      obtain rfl : files = files₁ := Except.ok.inj (hfiles.symm.trans hfiles₁)
      exact (hneeds hneeds₁).elim
    · intro _
      refine ⟨files, files, j, chart, value', hfiles, hj, hfiles, hj, hchart, hvalue', hjson, ?_,
        _, rewriteChartDependencies_kept hfiles hneeds, rfl⟩
      intro hr
      exact hneeds ⟨hhost, j, chart, value', hj, hchart, hvalue', hr⟩
  · have hfiles' : (unpackTgzWithLimits crates.platform limits crates.reader packed).1 =
        .ok files' := hfiles'
    have hedit := onlyRepositories_edit hy hi hf hv hr ht
    have hdata : ∀ g, (rewriteLock crates ctx (setData files i (asBytes text)))[i]? = some g →
        g.data = asBytes text := fun g => data_of_edit hy hi hf
    generalize rewriteLock crates ctx (setData files i (asBytes text)) = edited
      at hp hedit hdata
    have hstored := eq_stored_of_unpack format hp hfiles'
    have hei : IsFirst "Chart.yaml" edited i := (isFirst_congr _ hedit.map_name i).mpr hi
    have hpromoted : NothingPromoted format.fits edited ↔ NothingPromoted format.fits files :=
      ⟨nothingPromoted_congr hedit.map_name, nothingPromoted_congr hedit.map_name.symm⟩
    constructor
    · intro ⟨files₁, files₂, l, _, _, hfiles₁, hl, hfiles₂, hl', _⟩ files₃ hfiles₃ _
      obtain rfl : files = files₁ := Except.ok.inj (hfiles.symm.trans hfiles₁)
      obtain rfl : files = files₃ := Except.ok.inj (hfiles.symm.trans hfiles₃)
      obtain rfl : files' = files₂ := Except.ok.inj (hfiles'.symm.trans hfiles₂)
      obtain rfl : i = l := Option.some.inj (hi.symm.trans hl)
      rw [hstored, isFirst_stored_iff hei] at hl'
      exact hpromoted.mp hl'
    · intro hno
      have hno := hno files hfiles ⟨hhost, i, f, value, hi, hf, hv, hr⟩
      have hfirst : IsFirst "Chart.yaml" files' i := by
        rw [hstored, isFirst_stored_iff hei]
        exact hpromoted.mpr hno
      obtain rfl : j = i := Option.some.inj (hj.symm.trans hfirst)
      -- the member at this place holds the text that was written
      have hdata : chart.data = asBytes text := by
        rw [hstored, List.getElem?_map, Option.map_eq_some_iff] at hchart
        obtain ⟨g, hg, rfl⟩ := hchart
        exact hdata g hg
      have hvalue : value' = (rewriteDependencies crates ctx value).1 := by
        rw [hdata, fromUtf8Lossy_asBytes, hy _ _ ht] at hvalue'
        exact (Except.ok.inj hvalue').symm
      have hdone : ¬ Rewritable crates.url ctx value' := by
        rw [hvalue]
        exact not_rewritable_rewriteDependencies hr
      refine ⟨files, files', j, chart, value', hfiles, hi, hfiles', hj, hchart, hvalue', hjson,
        hdone, _, rewriteChartDependencies_kept hfiles' ?_, rfl⟩
      intro ⟨_, l, g, value₁, hl, hg, hv₁, hr₁⟩
      obtain rfl : j = l := Option.some.inj (hj.symm.trans hl)
      obtain rfl : chart = g := Option.some.inj (hchart.symm.trans hg)
      obtain rfl : value' = value₁ := Except.ok.inj (hvalue'.symm.trans hv₁)
      exact hdone hr₁

end Chart

section Instances

def frame (bs : Bytes) : Bytes := UInt8.ofNat bs.length :: bs

def unframe : Bytes → Option (Bytes × Bytes)
  | [] => none
  | n :: rest => if n.toNat ≤ rest.length then some (rest.take n.toNat, rest.drop n.toNat) else none

/-- Names and data, each behind its length. -/
def framedFiles (files : List (Bytes × Bytes)) : Bytes :=
  files.flatMap fun p => frame p.1 ++ frame p.2

def readFramed : ℕ → Bytes → Option (List (Bytes × Bytes))
  | 0, _ => some []
  | _ + 1, [] => some []
  | fuel + 1, b :: bs => do
    let (name, rest) ← unframe (b :: bs)
    let (data, rest) ← unframe rest
    return (name, data) :: (← readFramed fuel rest)

def framedEntry (p : Bytes × Bytes) : RawEntry :=
  member ⟨p.2.length, 0o644, 0⟩ (.ok (fromUtf8Lossy p.1)) p.2

def framedReader : TarReader := fun tgz =>
  match readFramed tgz.length tgz with
  | some files => .ok ((files.map framedEntry).map .ok)
  | none => .error (str "not supported")

def framedWriter : TarWriter where
  appendData tar header path data :=
    if header = ⟨data.length, 0o644, 0⟩ ∧ data.length < 256 ∧
        (asBytes (headerName path)).length < 256 ∧ tar.length < 4096 then
      .ok (tar ++ (frame (asBytes (headerName path)) ++ frame data))
    else .error (str "not supported")
  finish := .ok
  gzip := .ok

theorem unframe_frame {bs : Bytes} (h : bs.length < 256) (rest : Bytes) :
    unframe (frame bs ++ rest) = some (bs, rest) := by
  have hn : (UInt8.ofNat bs.length).toNat = bs.length := toNat_ofNat_of_lt h
  simp [frame, unframe, hn]

theorem readFramed_framedFiles {files : List (Bytes × Bytes)} {fuel : ℕ}
    (hs : ∀ p ∈ files, p.1.length < 256 ∧ p.2.length < 256)
    (hf : (framedFiles files).length ≤ fuel) : readFramed fuel (framedFiles files) = some files := by
  induction files generalizing fuel with
  | nil => cases fuel <;> rfl
  | cons p files ih =>
      have hcons : framedFiles (p :: files) = frame p.1 ++ (frame p.2 ++ framedFiles files) := by
        simp [framedFiles]
      obtain ⟨hname, hdata⟩ := hs p List.mem_cons_self
      rw [hcons] at hf ⊢
      simp only [List.length_append, frame, List.length_cons] at hf
      obtain ⟨fuel, rfl⟩ : ∃ n, fuel = n + 1 := ⟨fuel - 1, by omega⟩
      have hrest := ih (fun q hq => hs q (List.mem_cons_of_mem p hq)) (by omega : _ ≤ fuel)
      have hhead : frame p.1 ++ (frame p.2 ++ framedFiles files) =
          UInt8.ofNat p.1.length :: (p.1 ++ (frame p.2 ++ framedFiles files)) := rfl
      rw [hhead, readFramed, ← hhead, unframe_frame hname]
      simp only [Option.bind_eq_bind, Option.bind_some, unframe_frame hdata, hrest]
      rfl

def framedFormat : TarFormat framedWriter framedReader where
  fits _ := true
  Holds tar entries := ∃ files : List (Bytes × Bytes), tar = framedFiles files ∧
    entries = files.map framedEntry ∧ (∀ p ∈ files, p.1.length < 256 ∧ p.2.length < 256) ∧
    tar.length < 8192
  holds_nil := ⟨[], rfl, rfl, by simp, by simp⟩
  append := by
    intro tar tar' entries header path data ⟨files, htar, hentries, hs, _⟩ _ h
    simp only [framedWriter] at h
    split at h
    · rename_i hc
      obtain ⟨rfl, hdata, hname, hlen⟩ := hc
      obtain rfl := Except.ok.inj h
      refine ⟨_, .named rfl, files ++ [(asBytes (headerName path), data)], ?_, ?_, ?_, ?_⟩
      · simp [htar, framedFiles]
      · simp [hentries, framedEntry]
      · intro p hp
        rcases List.mem_append.mp hp with hp | hp
        · exact hs p hp
        · rw [List.mem_singleton.mp hp]
          exact ⟨hname, hdata⟩
      · simp only [List.length_append, frame, List.length_cons]
        omega
    · cases h
  read := by
    intro tar tar' tgz entries ⟨files, htar, hentries, hs, _⟩ hfinish hgzip
    obtain rfl : tar = tar' := Except.ok.inj hfinish
    obtain rfl : tar = tgz := Except.ok.inj hgzip
    rw [framedReader, htar, readFramed_framedFiles hs (Nat.le_refl _), hentries]
  fits_memory := by
    intro tar entries ⟨files, htar, hentries, hs, hlen⟩
    have hsize : streamSize (files.map framedEntry) ≤ 767 * (framedFiles files).length := by
      clear htar hentries hlen
      induction files with
      | nil => simp [streamSize]
      | cons p files ih =>
          have hp := (hs p List.mem_cons_self).2
          have ih := ih fun q hq => hs q (List.mem_cons_of_mem p hq)
          simp only [streamSize, blockSize, framedEntry, member, List.map_cons, List.sum_cons,
            framedFiles, List.flatMap_cons, List.length_append, frame, List.length_cons] at ih ⊢
          omega
    rw [hentries]
    rw [htar] at hlen
    simp only [u64Max]
    omega

/-- The documents of `oneFileCrates`, whose JSON is their text. -/
def framedCrates : ChartCrates :=
  {oneFileCrates [] with
    reader := framedReader
    writer := framedWriter
    yamlJson := fun value => (printOneDependency value).map asBytes}

/-- Two charts' files, of which only the second is at the root of the chart. -/
def promotedChart : Bytes := framedFiles
  [(bytes "./demo/Chart.yaml", asBytes (oneDependencyText (str "https://c.io/d"))),
    (bytes "demo/Chart.yaml", asBytes (oneDependencyText (str "https://a.io/b")))]

def promotedLayer : Bytes := framedFiles
  [(bytes "demo/Chart.yaml", asBytes (oneDependencyText (str "https://c.io/d"))),
    (bytes "demo/Chart.yaml", asBytes (oneDependencyText (str "oci://proxy.test/a.io/b")))]

def promotedFiles : List TgzFile :=
  [⟨str "./demo/Chart.yaml", asBytes (oneDependencyText (str "https://c.io/d")), 0o644, 0⟩,
    ⟨str "demo/Chart.yaml", asBytes (oneDependencyText (str "https://a.io/b")), 0o644, 0⟩]

def promotedStored : List TgzFile :=
  [⟨str "demo/Chart.yaml", asBytes (oneDependencyText (str "https://c.io/d")), 0o644, 0⟩,
    ⟨str "demo/Chart.yaml", asBytes (oneDependencyText (str "oci://proxy.test/a.io/b")), 0o644, 0⟩]

def promotedBuilt : BuiltChart :=
  assemble framedCrates (asBytes (oneDependencyText (str "https://c.io/d"))) promotedLayer
    [⟨[], str "https://a.io/b", str "oci://proxy.test/a.io/b"⟩]

def soleChart : Bytes := framedFiles
  [(bytes "demo/Chart.yaml", asBytes (oneDependencyText (str "https://a.io/b")))]

def soleBuilt : BuiltChart :=
  assemble framedCrates (asBytes (oneDependencyText (str "oci://proxy.test/a.io/b")))
    (framedFiles
      [(bytes "demo/Chart.yaml", asBytes (oneDependencyText (str "oci://proxy.test/a.io/b")))])
    [⟨[], str "https://a.io/b", str "oci://proxy.test/a.io/b"⟩]

theorem build_of_parts {crates : ChartCrates} {ctx : RewriteContext} {limits : ArchiveLimits}
    {tgz layer config : Bytes} {rewrites : List Rewrite}
    (h : rewriteChartDependencies crates ctx limits tgz = .ok ⟨layer, true, rewrites⟩)
    (h' : chartConfigFromTgz crates limits layer = .ok config) :
    buildHelmOciChart crates ctx limits tgz = .ok (assemble crates config layer rewrites) := by
  unfold buildHelmOciChart
  rw [h]
  change (chartConfigFromTgz crates limits layer).bind _ = _
  rw [h']
  rfl

set_option maxRecDepth 4000 in
theorem soleChart_is_described :
    FullyRewritten framedCrates proxyTest chartLimits soleChart soleBuilt ↔
      ∀ files, (unpackTgzWithLimits platform64 chartLimits framedReader soleChart).1 = .ok files →
        NeedsRewrite framedCrates proxyTest files → NothingPromoted (fun _ => true) files :=
  @fullyRewritten_iff framedCrates proxyTest chartLimits (oneFileCrates_yamlLaw []) framedFormat
    (by decide) _ _ (build_of_parts (by decide) (by decide))

set_option maxRecDepth 4000 in
/-- The file in front is renamed to a chart's file, and the config is made of it. -/
theorem promotedChart_describes_another :
    buildHelmOciChart framedCrates proxyTest chartLimits promotedChart = .ok promotedBuilt ∧
      ¬ FullyRewritten framedCrates proxyTest chartLimits promotedChart promotedBuilt := by
  refine ⟨build_of_parts (by decide) (by decide), ?_⟩
  intro ⟨files, files', i, _, _, hfiles, hi, hfiles', hi', _⟩
  have hin : (unpackTgzWithLimits platform64 chartLimits framedReader promotedChart).1 =
      .ok promotedFiles := by decide
  have hout : (unpackTgzWithLimits platform64 chartLimits framedReader promotedLayer).1 =
      .ok promotedStored := by decide
  obtain rfl := Except.ok.inj (hfiles.symm.trans hin)
  obtain rfl := Except.ok.inj (hfiles'.symm.trans hout)
  have hsecond : IsFirst "Chart.yaml" promotedFiles 1 := by
    unfold IsFirst
    decide
  have hfirst : IsFirst "Chart.yaml" promotedStored 0 := by
    unfold IsFirst
    decide
  have h₁ : i = 1 := Option.some.inj (hi.symm.trans hsecond)
  have h₀ : i = 0 := Option.some.inj (hi'.symm.trans hfirst)
  omega

end Instances

end Helmoci.RewrittenCharts
