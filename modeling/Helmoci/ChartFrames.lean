import Helmoci.PlainCrates

/-!
# What the rewriting of a chart leaves alone

An archive is unpacked, at most two of its files are edited and all of them are
packed again by another writer. The edit changes repositories of dependencies and
nothing else of a document, and no other file. The writer drops components of a
name and digits of a mode, so the members come back as they were exactly when they
have none of these, or when there was nothing to rewrite.
-/
namespace Helmoci.ChartFrames
open RustText Utf8 UrlInterface NameResolver ServerErrors DependencyRewriting TarUnpacking TarPacking
  ChartBuild PlainCrates

section Documents

/-- Mappings under the same tags. -/
inductive UnderTags (R : List (Yaml × Yaml) → List (Yaml × Yaml) → Prop) : Yaml → Yaml → Prop
  | mapping {entries entries' : List (Yaml × Yaml)} : R entries entries' →
      UnderTags R (.mapping entries) (.mapping entries')
  | tagged {tag : Str} {value value' : Yaml} : UnderTags R value value' →
      UnderTags R (.tagged tag value) (.tagged tag value')

/-- The same entries but for the value of the first such key. -/
inductive AtKey (key : Str) (R : Yaml → Yaml → Prop) :
    List (Yaml × Yaml) → List (Yaml × Yaml) → Prop
  | here {k value value' : Yaml} (rest : List (Yaml × Yaml)) : k.isKey key = true →
      R value value' → AtKey key R ((k, value) :: rest) ((k, value') :: rest)
  | there {p : Yaml × Yaml} {rest rest' : List (Yaml × Yaml)} : p.1.isKey key = false →
      AtKey key R rest rest' → AtKey key R (p :: rest) (p :: rest')

theorem UnderTags.of_asMapping {R : List (Yaml × Yaml) → List (Yaml × Yaml) → Prop}
    {value : Yaml} {entries entries' : List (Yaml × Yaml)} (h : value.asMapping = some entries)
    (hr : R entries entries') : UnderTags R value (value.withMapping entries') := by
  match value, h with
  | .mapping _, rfl => exact .mapping hr
  | .tagged tag value, h => exact .tagged (of_asMapping h hr)

theorem AtKey.of_lookup {key : Str} {R : Yaml → Yaml → Prop} {entries : List (Yaml × Yaml)}
    {value value' : Yaml} (h : Yaml.lookup key entries = some value) (hr : R value value') :
    AtKey key R entries (Yaml.replace key value' entries) := by
  induction entries with
  | nil => contradiction
  | cons p rest ih =>
      unfold Yaml.lookup at h
      unfold Yaml.replace
      cases hk : p.1.isKey key with
      | true =>
          rw [if_pos rfl]
          obtain rfl : p.2 = value := by simpa [hk] using h
          exact .here rest hk hr
      | false =>
          rw [if_neg Bool.false_ne_true]
          apply AtKey.there hk
          apply ih
          simpa [Yaml.lookup, hk] using h

variable (url : UrlCrate) (ctx : RewriteContext)

def RepositoryRewritten (dep dep' : Yaml) : Prop :=
  dep' = dep ∨ UnderTags (AtKey (str "repository") fun value value' =>
    ∃ repo next, value = .string repo ∧ value' = .string next ∧
      rewriteDependencyUrl url repo ctx = some next) dep dep'

/-- The documents differ in repositories of dependencies that can be rewritten. -/
def DependenciesRewritten (value value' : Yaml) : Prop :=
  UnderTags (AtKey (str "dependencies") fun deps deps' =>
    ∃ seq seq', deps = .sequence seq ∧ deps' = .sequence seq' ∧
      List.Forall₂ (RepositoryRewritten url ctx) seq seq') value value'

/-- The dependency has a repository that can be rewritten. -/
def RewritableDep (dep : Yaml) : Prop :=
  ∃ map repo next, dep.asMapping = some map ∧
    Yaml.lookup (str "repository") map = some (.string repo) ∧
    rewriteDependencyUrl url repo ctx = some next

def Rewritable (value : Yaml) : Prop :=
  ∃ map seq, value.asMapping = some map ∧
    Yaml.lookup (str "dependencies") map = some (.sequence seq) ∧
    ∃ dep ∈ seq, RewritableDep url ctx dep

variable {crates : ChartCrates} {ctx : RewriteContext}

theorem ne_of_rewriteDependencyUrl {repo next : Str}
    (h : rewriteDependencyUrl crates.url repo ctx = some next) : next ≠ repo := by
  rintro rfl
  obtain ⟨u, host, -, -, -, -, -, rfl⟩ := rewriteDependencyUrl_eq_some h
  unfold rewriteDependencyUrl at h
  rw [if_pos (by simp [List.isPrefixOf_iff_prefix])] at h
  contradiction

/-- A dependency is rewritten where it has such a repository and is kept elsewhere. -/
theorem rewriteDep_spec (dep : Yaml) :
    RepositoryRewritten crates.url ctx dep (rewriteDep crates ctx dep).1 ∧
      ((rewriteDep crates ctx dep).2 ≠ [] ↔ RewritableDep crates.url ctx dep) := by
  unfold rewriteDep
  cases hm : dep.asMapping with
  | none => exact ⟨Or.inl rfl, by simp [RewritableDep, hm]⟩
  | some map =>
      dsimp only
      split
      · rename_i repo hl
        cases hr : rewriteDependencyUrl crates.url repo ctx with
        | none => exact ⟨Or.inl rfl, by simp [RewritableDep, hm, hl, hr]⟩
        | some next =>
            dsimp only
            rw [if_neg (ne_of_rewriteDependencyUrl hr)]
            refine ⟨Or.inr ?_, by simp [RewritableDep, hm, hl, hr]⟩
            exact .of_asMapping hm (.of_lookup hl ⟨repo, next, rfl, rfl, hr⟩)
      · rename_i hl
        refine ⟨Or.inl rfl, ?_⟩
        have hn : ¬ RewritableDep crates.url ctx dep := by
          intro ⟨map', repo, next, hm', hl', _⟩
          rw [hm, Option.some.injEq] at hm'
          rw [← hm'] at hl'
          exact hl repo hl'
        simp [hn]

theorem rewriteDependencies_snd_iff (value : Yaml) :
    (rewriteDependencies crates ctx value).2 ≠ [] ↔ Rewritable crates.url ctx value := by
  unfold rewriteDependencies
  cases hm : value.asMapping with
  | none => simp [Rewritable, hm]
  | some map =>
      dsimp only
      cases hl : Yaml.lookup (str "dependencies") map with
      | none => simp [Rewritable, hm, hl, rewriteDepsList]
      | some deps =>
          cases deps with
          | sequence seq =>
              have hd : ∀ dep, (rewriteDep crates ctx dep).2 ≠ [] ↔
                  RewritableDep crates.url ctx dep := fun dep => (rewriteDep_spec dep).2
              simp [Rewritable, hm, hl, rewriteDepsList, ← hd]
          | scalar _ => simp [Rewritable, hm, hl, rewriteDepsList]
          | string _ => simp [Rewritable, hm, hl, rewriteDepsList]
          | mapping _ => simp [Rewritable, hm, hl, rewriteDepsList]
          | tagged _ _ => simp [Rewritable, hm, hl, rewriteDepsList]

theorem rewriteDependencies_fst {value : Yaml} (h : Rewritable crates.url ctx value) :
    DependenciesRewritten crates.url ctx value (rewriteDependencies crates ctx value).1 := by
  obtain ⟨map, seq, hm, hl, -⟩ := h
  have hf : List.Forall₂ (RepositoryRewritten crates.url ctx) seq
      (seq.map fun dep => (rewriteDep crates ctx dep).1) := by
    rw [List.forall₂_map_right_iff]
    exact List.forall₂_same.mpr fun dep _ => (rewriteDep_spec dep).1
  unfold rewriteDependencies
  simp only [hm, hl, rewriteDepsList, List.map_map]
  exact .of_asMapping hm (.of_lookup hl ⟨seq, _, rfl, rfl, hf⟩)

end Documents

section Files

/-- The files differ in the data of some, which is related there. -/
def FilesDiffer (P : ℕ → Bytes → Bytes → Prop) (files files' : List TgzFile) : Prop :=
  files'.length = files.length ∧ ∀ (i : ℕ) (f f' : TgzFile), files[i]? = some f →
    files'[i]? = some f' → f'.name = f.name ∧ f'.mode = f.mode ∧ f'.mtime = f.mtime ∧
      (f'.data = f.data ∨ P i f.data f'.data)

variable {P Q R : ℕ → Bytes → Bytes → Prop} {files files' files'' : List TgzFile}

theorem FilesDiffer.refl (P : ℕ → Bytes → Bytes → Prop) (files : List TgzFile) :
    FilesDiffer P files files := by
  refine ⟨rfl, ?_⟩
  intro i f f' hf hf'
  obtain rfl : f = f' := Option.some.inj (hf.symm.trans hf')
  exact ⟨rfl, rfl, rfl, Or.inl rfl⟩

theorem FilesDiffer.map_name (h : FilesDiffer P files files') :
    files'.map TgzFile.name = files.map TgzFile.name := by
  apply List.ext_getElem?
  intro i
  simp only [List.getElem?_map]
  cases hf : files[i]? with
  | none =>
      have hf' : files'[i]? = none := by
        rw [List.getElem?_eq_none_iff] at hf ⊢
        rw [h.1]
        exact hf
      rw [hf']
  | some f =>
      have hi : i < files'.length := h.1 ▸ (List.getElem?_eq_some_iff.mp hf).choose
      have hf' := List.getElem?_eq_getElem hi
      rw [hf', Option.map_some, Option.map_some, (h.2 i f _ hf hf').1]

/-- Two edits of different files. -/
theorem FilesDiffer.trans (h : FilesDiffer P files files') (h' : FilesDiffer Q files' files'')
    (hp : ∀ i data data', P i data data' → R i data data')
    (hq : ∀ i data data', Q i data data' → R i data data')
    (hd : ∀ i data data' next next', P i data data' → ¬ Q i next next') :
    FilesDiffer R files files'' := by
  refine ⟨h'.1.trans h.1, ?_⟩
  intro i f f'' hf hf''
  have hi : i < files'.length := h.1 ▸ (List.getElem?_eq_some_iff.mp hf).choose
  have hf' := List.getElem?_eq_getElem hi
  obtain ⟨hname, hmode, hmtime, hdata⟩ := h.2 i f _ hf hf'
  obtain ⟨hname', hmode', hmtime', hdata'⟩ := h'.2 i _ f'' hf' hf''
  refine ⟨hname'.trans hname, hmode'.trans hmode, hmtime'.trans hmtime, ?_⟩
  rcases hdata with hdata | hdata <;> rcases hdata' with hdata' | hdata'
  · exact Or.inl (hdata'.trans hdata)
  · exact Or.inr (hq i _ _ (hdata ▸ hdata'))
  · exact Or.inr (hp i _ _ (hdata' ▸ hdata))
  · exact (hd i _ _ _ _ hdata hdata').elim

theorem filesDiffer_setData {i : ℕ} {f : TgzFile} {data : Bytes} (hf : files[i]? = some f)
    (hp : P i f.data data) : FilesDiffer P files (setData files i data) := by
  refine ⟨List.length_modify .., ?_⟩
  intro j g g' hg hg'
  rw [setData, List.getElem?_modify, hg] at hg'
  by_cases hij : i = j
  · subst hij
    obtain rfl : f = g := Option.some.inj (hf.symm.trans hg)
    simp only [if_true, Option.map_eq_map, Option.map_some, Option.some.injEq] at hg'
    rw [← hg']
    exact ⟨rfl, rfl, rfl, Or.inr hp⟩
  · simp only [if_neg hij, Option.map_eq_map, Option.map_some, Option.some.injEq] at hg'
    rw [← hg']
    exact ⟨rfl, rfl, rfl, Or.inl rfl⟩

/-- The place of the first file of that name at the root of the chart. -/
def IsFirst (basename : String) (files : List TgzFile) (i : ℕ) : Prop :=
  files.findIdx? (fun f => isRootChartFile f.name (str basename)) = some i

theorem isFirst_congr (basename : String) (h : files'.map TgzFile.name = files.map TgzFile.name)
    (i : ℕ) : IsFirst basename files' i ↔ IsFirst basename files i := by
  have hf : ∀ fs : List TgzFile, fs.findIdx? (fun f => isRootChartFile f.name (str basename)) =
      (fs.map TgzFile.name).findIdx? fun name => isRootChartFile name (str basename) := by
    intro fs
    rw [List.findIdx?_map]
    rfl
  rw [IsFirst, IsFirst, hf, hf, h]

theorem IsFirst.exists_file {basename : String} {i : ℕ} (h : IsFirst basename files i) :
    ∃ f, files[i]? = some f ∧ isRootChartFile f.name (str basename) = true := by
  obtain ⟨hi, hf, -⟩ := List.findIdx?_eq_some_iff_getElem.mp h
  exact ⟨_, List.getElem?_eq_getElem hi, hf⟩

theorem isRootChartFile_unique {name basename basename' : Str}
    (h : isRootChartFile name basename = true) (h' : isRootChartFile name basename' = true) :
    basename = basename' := by
  unfold isRootChartFile at h h'
  split at h
  · simp_all
  · simp_all
  · contradiction

end Files

section Chart
variable (crates : ChartCrates) (ctx : RewriteContext) (limits : ArchiveLimits)

/-- The texts parse, and the documents differ in repositories of dependencies only. -/
def DataRewritten (data data' : Bytes) : Prop :=
  ∃ value value', crates.yaml (fromUtf8Lossy data) = .ok value ∧
    crates.yaml (fromUtf8Lossy data') = .ok value' ∧
    DependenciesRewritten crates.url ctx value value'

/-- Of the first `Chart.yaml` and the first `Chart.lock` the repositories may differ. -/
def OnlyRepositories (files files' : List TgzFile) : Prop :=
  FilesDiffer (fun i data data' => (IsFirst "Chart.yaml" files i ∨ IsFirst "Chart.lock" files i) ∧
    DataRewritten crates ctx data data') files files'

/-- The result is the input, or the same members with other repositories. -/
def OnlyRepositoriesTouched (tgz : Bytes) (r : RewriteResult) : Prop :=
  (r.modified = false → r.tgz = tgz ∧ r.rewrites = []) ∧
    (r.modified = true → r.rewrites ≠ [] ∧ ∃ files files',
      (unpackTgzWithLimits crates.platform limits crates.reader tgz).1 = .ok files ∧
        Unpacks crates.reader r.tgz files' ∧ OnlyRepositories crates ctx files files')

/-- The first `Chart.yaml` of the files has a dependency that can be rewritten. -/
def NeedsRewrite (files : List TgzFile) : Prop :=
  ctx.proxyHost ≠ [] ∧ ∃ i f value, IsFirst "Chart.yaml" files i ∧ files[i]? = some f ∧
    crates.yaml (fromUtf8Lossy f.data) = .ok value ∧ Rewritable crates.url ctx value

/-- Parsing undoes printing. -/
def YamlLaw : Prop := ∀ value text, crates.yamlText value = .ok text → crates.yaml text = .ok value

variable {crates ctx limits}

theorem rewriteChartDependencies_eq_ok {tgz : Bytes} {r : RewriteResult}
    (h : rewriteChartDependencies crates ctx limits tgz = .ok r) :
    (r = ⟨tgz, false, []⟩ ∧ (ctx.proxyHost ≠ [] → ∃ files,
      (unpackTgzWithLimits crates.platform limits crates.reader tgz).1 = .ok files ∧
        ¬ NeedsRewrite crates ctx files)) ∨
    ∃ files i f value text packed,
      (unpackTgzWithLimits crates.platform limits crates.reader tgz).1 = .ok files ∧
      ctx.proxyHost ≠ [] ∧ IsFirst "Chart.yaml" files i ∧ files[i]? = some f ∧
      crates.yaml (fromUtf8Lossy f.data) = .ok value ∧ Rewritable crates.url ctx value ∧
      crates.yamlText (rewriteDependencies crates ctx value).1 = .ok text ∧
      packTgz crates.writer (rewriteLock crates ctx (setData files i (asBytes text))) =
        .ok packed ∧ r = ⟨packed, true, (rewriteDependencies crates ctx value).2⟩ := by
  unfold rewriteChartDependencies at h
  split at h
  · rename_i hhost
    exact Or.inl ⟨(Except.ok.inj h).symm, fun hne => (hne (List.isEmpty_iff.mp hhost)).elim⟩
  · rename_i hhost
    obtain ⟨files, hfiles, h⟩ := bind_eq_ok h
    -- the chart stays as it is where it has no such file, document or dependency
    have kept : ¬ NeedsRewrite crates ctx files → (.ok ⟨tgz, false, []⟩ : Except HelmError _) =
        .ok r → r = ⟨tgz, false, []⟩ ∧ (ctx.proxyHost ≠ [] → ∃ files,
          (unpackTgzWithLimits crates.platform limits crates.reader tgz).1 = .ok files ∧
            ¬ NeedsRewrite crates ctx files) := fun hn hr =>
      ⟨(Except.ok.inj hr).symm, fun _ => ⟨files, hfiles, hn⟩⟩
    have unique : ∀ {i f value}, IsFirst "Chart.yaml" files i → files[i]? = some f →
        crates.yaml (fromUtf8Lossy f.data) = .ok value → ¬ Rewritable crates.url ctx value →
          ¬ NeedsRewrite crates ctx files := by
      intro i f value hi hf hv hn ⟨_, j, g, next, hj, hg, hw, hr⟩
      obtain rfl : i = j := Option.some.inj (hi.symm.trans hj)
      obtain rfl : f = g := Option.some.inj (hf.symm.trans hg)
      obtain rfl : value = next := Except.ok.inj (hv.symm.trans hw)
      exact hn hr
    cases hi : files.findIdx? fun f => isRootChartFile f.name (str "Chart.yaml") with
    | none =>
        rw [hi] at h
        refine Or.inl (kept ?_ h)
        intro ⟨_, i, _, _, hj, _⟩
        rw [IsFirst, hi] at hj
        contradiction
    | some i =>
        obtain ⟨f, hf, -⟩ := IsFirst.exists_file hi
        simp only [hi, hf, Option.map_some, Option.getD_some] at h
        cases hv : crates.yaml (fromUtf8Lossy f.data) with
        | error e =>
            rw [hv] at h
            refine Or.inl (kept ?_ h)
            intro ⟨_, j, g, value, hj, hg, hw, _⟩
            obtain rfl : i = j := Option.some.inj (hi.symm.trans hj)
            obtain rfl : f = g := Option.some.inj (hf.symm.trans hg)
            rw [hv] at hw
            contradiction
        | ok value =>
            simp only [hv] at h
            have hiff := @rewriteDependencies_snd_iff crates ctx value
            cases hd : rewriteDependencies crates ctx value with
            | mk value' rewrites =>
                rw [hd] at h hiff
                cases rewrites with
                | nil => exact Or.inl (kept (unique hi hf hv fun hr => (hiff.mpr hr) rfl) h)
                | cons rewrite rewrites =>
                    dsimp only at h
                    cases ht : crates.yamlText value' with
                    | error e =>
                        rw [ht] at h
                        contradiction
                    | ok text =>
                        rw [ht] at h
                        obtain ⟨packed, hp, h⟩ := bind_eq_ok h
                        have hne : ctx.proxyHost ≠ [] := by simpa using hhost
                        refine Or.inr ⟨files, i, f, value, text, packed, hfiles, hne, hi, hf, hv,
                          hiff.mp (by simp), ?_, hp, ?_⟩
                        · rw [hd]
                          exact ht
                        · rw [hd]
                          exact (Except.ok.inj h).symm

theorem rewriteLock_differs (hy : YamlLaw crates) (files : List TgzFile) :
    FilesDiffer (fun i data data' => IsFirst "Chart.lock" files i ∧
      DataRewritten crates ctx data data') files (rewriteLock crates ctx files) := by
  unfold rewriteLock
  split
  · exact .refl _ files
  · rename_i i hi
    obtain ⟨f, hf, -⟩ := IsFirst.exists_file hi
    simp only [hf, Option.map_some, Option.getD_some]
    split
    · exact .refl _ files
    · rename_i value hv
      have hiff := @rewriteDependencies_snd_iff crates ctx value
      split
      · exact .refl _ files
      · rename_i value' rewrite rewrites hd
        split
        · exact .refl _ files
        · rename_i text ht
          have hr : Rewritable crates.url ctx value := hiff.mp (by simp [hd])
          have hfst := rewriteDependencies_fst hr
          rw [hd] at hfst
          refine filesDiffer_setData hf ⟨hi, value, value', hv, ?_, hfst⟩
          rw [fromUtf8Lossy_asBytes]
          exact hy value' text ht

/-- The edit changes repositories of the first `Chart.yaml` and `Chart.lock` only. -/
theorem onlyRepositories_edit (hy : YamlLaw crates) {files : List TgzFile} {i : ℕ} {f : TgzFile}
    {value : Yaml} {text : Str} (hi : IsFirst "Chart.yaml" files i) (hf : files[i]? = some f)
    (hv : crates.yaml (fromUtf8Lossy f.data) = .ok value) (hr : Rewritable crates.url ctx value)
    (ht : crates.yamlText (rewriteDependencies crates ctx value).1 = .ok text) :
    OnlyRepositories crates ctx files
      (rewriteLock crates ctx (setData files i (asBytes text))) := by
  have hchart : FilesDiffer (fun i data data' => IsFirst "Chart.yaml" files i ∧
      DataRewritten crates ctx data data') files (setData files i (asBytes text)) := by
    refine filesDiffer_setData hf ⟨hi, value, _, hv, ?_, rewriteDependencies_fst hr⟩
    rw [fromUtf8Lossy_asBytes]
    exact hy _ text ht
  have hlock := isFirst_congr "Chart.lock" hchart.map_name
  refine hchart.trans (rewriteLock_differs hy _) ?_ ?_ ?_
  · intro j data data' hj
    exact ⟨Or.inl hj.1, hj.2⟩
  · intro j data data' hj
    exact ⟨Or.inr ((hlock j).mp hj.1), hj.2⟩
  · intro j data data' next next' hj hj'
    obtain ⟨g, hg, hroot⟩ := hj.1.exists_file
    obtain ⟨g', hg', hroot'⟩ := ((hlock j).mp hj'.1).exists_file
    obtain rfl : g = g' := Option.some.inj (hg.symm.trans hg')
    exact absurd (isRootChartFile_unique hroot hroot') (by decide)

/-- Nothing but repositories is touched exactly when nothing is rewritten or the writer
keeps the name and the mode of every member. -/
theorem onlyRepositoriesTouched_iff (hy : YamlLaw crates)
    (format : TarFormat crates.writer crates.reader) {tgz : Bytes} {r : RewriteResult}
    (h : rewriteChartDependencies crates ctx limits tgz = .ok r) :
    OnlyRepositoriesTouched crates ctx limits tgz r ↔
      ∀ files, (unpackTgzWithLimits crates.platform limits crates.reader tgz).1 = .ok files →
        NeedsRewrite crates ctx files →
          ∀ f ∈ files, keepsName format.fits f.name = true ∧ f.mode < 8 ^ 7 := by
  rcases rewriteChartDependencies_eq_ok h with ⟨rfl, hn⟩ |
    ⟨files, i, f, value, text, packed, hfiles, hhost, hi, hf, hv, hr, ht, hp, rfl⟩
  · constructor
    · intro _ files hfiles hneeds
      obtain ⟨files', hfiles', hnot⟩ := hn hneeds.1
      obtain rfl : files = files' := Except.ok.inj (hfiles.symm.trans hfiles')
      exact (hnot hneeds).elim
    · intro _
      exact ⟨fun _ => ⟨rfl, rfl⟩, fun hm => absurd hm Bool.false_ne_true⟩
  · have hedit := onlyRepositories_edit hy hi hf hv hr ht
    have hunpack := unpacks_packTgz format hp
    generalize rewriteLock crates ctx (setData files i (asBytes text)) = edited at hedit hunpack
    constructor
    · intro htouched files' hfiles' _ g hg
      obtain ⟨-, files₁, files₂, hfiles₁, hfiles₂, hframe⟩ := htouched.2 rfl
      obtain rfl : files = files' := Except.ok.inj (hfiles.symm.trans hfiles')
      obtain rfl : files = files₁ := Except.ok.inj (hfiles.symm.trans hfiles₁)
      obtain rfl := hunpack.unique hfiles₂
      -- the member's name and mode went through the edit and the writer
      obtain ⟨j, hj⟩ := List.mem_iff_getElem?.mp hg
      have hlen : j < edited.length := by
        rw [hedit.1]
        exact (List.getElem?_eq_some_iff.mp hj).choose
      have he := List.getElem?_eq_getElem hlen
      obtain ⟨hname, hmode, -, -⟩ := hedit.2 j g _ hj he
      obtain ⟨hname', hmode', -, -⟩ := hframe.2 j g (storedFile format.fits edited[j]) hj
        (by rw [List.getElem?_map, he]; rfl)
      have hkept : storedFile format.fits edited[j] = edited[j] := by
        simp only [storedFile] at hname' hmode' ⊢
        rw [hname', hmode', ← hname, ← hmode]
      rw [← hname, ← hmode]
      exact (storedFile_eq_self_iff _ _).mp hkept
    · intro hkeeps
      have hneeds : NeedsRewrite crates ctx files := ⟨hhost, i, f, value, hi, hf, hv, hr⟩
      have hsame : edited.map (storedFile format.fits) = edited := by
        refine (List.map_congr_left ?_).trans (List.map_id edited)
        intro g hg
        obtain ⟨j, hj⟩ := List.mem_iff_getElem?.mp hg
        have hlen : j < files.length := by
          rw [← hedit.1]
          exact (List.getElem?_eq_some_iff.mp hj).choose
        obtain ⟨hname, hmode, -, -⟩ := hedit.2 j _ g (List.getElem?_eq_getElem hlen) hj
        rw [id_eq, storedFile_eq_self_iff, hname, hmode]
        exact hkeeps files hfiles hneeds _ (List.getElem_mem hlen)
      rw [hsame] at hunpack
      refine ⟨fun hm => absurd hm.symm Bool.false_ne_true, fun _ => ⟨?_, files, edited, hfiles,
        hunpack, hedit⟩⟩
      exact (rewriteDependencies_snd_iff value).mpr hr

end Chart

section Instances

/-- Documents with one dependency. -/
def oneDependency (repo : Str) : Yaml :=
  .mapping [(.string (str "dependencies"), .sequence [.mapping [(.string (str "repository"),
    .string repo)]])]

def oneDependencyText (repo : Str) : Str := str "dependencies:\n- repository: " ++ repo

def readOneDependency (text : Str) : Except Str Yaml :=
  match text.dropPrefix? (str "dependencies:\n- repository: ") with
  | some repo => .ok (oneDependency repo)
  | none => .error (str "not supported")

def printOneDependency : Yaml → Except Str Str
  | .mapping [(.string deps, .sequence [.mapping [(.string key, .string repo)]])] =>
    if deps = str "dependencies" ∧ key = str "repository" then .ok (oneDependencyText repo)
    else .error (str "not supported")
  | _ => .error (str "not supported")

/-- Archives of one file: the first byte tells the name as it came from the name as the
writer puts it down. -/
def oneFileReader (name : Str) : TarReader
  | 0 :: data => .ok [.ok (member ⟨data.length, 0o644, 0⟩ (.ok name) data)]
  | data => .ok [.ok (member ⟨data.length - 1, 0o644, 0⟩ (.ok (headerName name)) data.tail)]

def oneFileWriter (name : Str) : TarWriter where
  appendData tar header path data :=
    if tar = [] ∧ path = name ∧ header = ⟨data.length, 0o644, 0⟩ ∧ data.length < 1024 then
      .ok (1 :: data)
    else .error (str "not supported")
  finish := .ok
  gzip tar := if tar = [] then .error (str "not supported") else .ok tar

def oneFileCrates (name : Str) : ChartCrates where
  url := PlainUrls.plainUrls
  sha256 := plainCrates.sha256
  platform := platform64
  reader := oneFileReader name
  writer := oneFileWriter name
  yaml := readOneDependency
  yamlText := printOneDependency
  yamlJson _ := .error (str "not supported")

theorem oneFileCrates_yamlLaw (name : Str) : YamlLaw (oneFileCrates name) := by
  intro value text h
  change printOneDependency value = .ok text at h
  unfold printOneDependency at h
  split at h
  · rename_i deps key repo
    split at h
    · rename_i hk
      obtain ⟨rfl, rfl⟩ := hk
      obtain rfl := Except.ok.inj h
      change readOneDependency _ = _
      unfold readOneDependency oneDependencyText
      rw [JsonDocuments.dropPrefix?_append]
      rfl
    · contradiction
  · contradiction

theorem streamSize_oneFile {path : Except Str Str} {data : Bytes} (h : data.length < 1024) :
    streamSize [member ⟨data.length, 0o644, 0⟩ path data] ≤ u64Max := by
  simp only [streamSize, blockSize, member, List.map_cons, List.map_nil, List.sum_cons,
    List.sum_nil, u64Max]
  omega

def oneFileFormat (name : Str) : TarFormat (oneFileWriter name) (oneFileReader name) where
  fits _ := true
  Holds tar entries := tar = [] ∧ entries = [] ∨ ∃ data, data.length < 1024 ∧ tar = 1 :: data ∧
    entries = [member ⟨data.length, 0o644, 0⟩ (.ok (headerName name)) data]
  holds_nil := Or.inl ⟨rfl, rfl⟩
  append := by
    intro tar tar' entries header path data hh _ h
    simp only [oneFileWriter] at h
    split at h
    · rename_i hc
      obtain ⟨rfl, rfl, rfl, hlen⟩ := hc
      obtain rfl := Except.ok.inj h
      rcases hh with ⟨-, rfl⟩ | ⟨_, _, ht, _⟩
      · exact ⟨_, .named rfl, Or.inr ⟨data, hlen, rfl, rfl⟩⟩
      · contradiction
    · contradiction
  read := by
    intro tar tar' tgz entries hh hf hg
    obtain rfl : tar = tar' := Except.ok.inj hf
    simp only [oneFileWriter] at hg
    split at hg
    · contradiction
    · rename_i hne
      obtain rfl : tar = tgz := Except.ok.inj hg
      rcases hh with ⟨rfl, -⟩ | ⟨data, -, rfl, rfl⟩
      · exact (hne rfl).elim
      · rfl
  fits_memory := by
    intro tar entries hh
    rcases hh with ⟨-, rfl⟩ | ⟨data, hlen, -, rfl⟩
    · exact Nat.zero_le _
    · exact streamSize_oneFile hlen

def proxyTest : RewriteContext := ⟨str "proxy.test", ∅⟩

def chartLimits : ArchiveLimits := ⟨1024, 1024, 8⟩

/-- The archive of one chart file that depends on `https://a.io/b`. -/
def dependentChart : Bytes := 0 :: asBytes (oneDependencyText (str "https://a.io/b"))

def rewrittenChart : RewriteResult :=
  ⟨1 :: asBytes (oneDependencyText (str "oci://proxy.test/a.io/b")), true,
    [⟨[], str "https://a.io/b", str "oci://proxy.test/a.io/b"⟩]⟩

theorem plainName_is_kept :
    OnlyRepositoriesTouched (oneFileCrates (str "demo/Chart.yaml")) proxyTest chartLimits
        dependentChart rewrittenChart ↔
      ∀ files, (unpackTgzWithLimits platform64 chartLimits (oneFileReader (str "demo/Chart.yaml"))
          dependentChart).1 = .ok files →
        NeedsRewrite (oneFileCrates (str "demo/Chart.yaml")) proxyTest files →
          ∀ f ∈ files, keepsName (fun _ => true) f.name = true ∧ f.mode < 8 ^ 7 :=
  onlyRepositoriesTouched_iff (oneFileCrates_yamlLaw _) (oneFileFormat _) (by decide)

/-- A `./` in front of the chart's file is dropped by the writer. -/
theorem dotted_chart_is_renamed :
    rewriteChartDependencies (oneFileCrates (str "./Chart.yaml")) proxyTest chartLimits
        dependentChart = .ok rewrittenChart ∧
      ¬ OnlyRepositoriesTouched (oneFileCrates (str "./Chart.yaml")) proxyTest chartLimits
        dependentChart rewrittenChart := by
  refine ⟨by decide, ?_⟩
  intro h
  obtain ⟨-, files, files', hfiles, hfiles', hframe⟩ := h.2 rfl
  have hin : (unpackTgzWithLimits platform64 chartLimits (oneFileReader (str "./Chart.yaml"))
      dependentChart).1 = .ok [⟨str "./Chart.yaml", dependentChart.tail, 0o644, 0⟩] := by decide
  have hout : (unpackTgzWithLimits roomyPlatform largestLimits
      (oneFileReader (str "./Chart.yaml")) rewrittenChart.tgz).1 =
        .ok [⟨str "Chart.yaml", rewrittenChart.tgz.tail, 0o644, 0⟩] := by decide
  obtain rfl := Except.ok.inj (hfiles.symm.trans hin)
  obtain rfl := Except.ok.inj (hfiles'.largest.symm.trans hout)
  have hname := (hframe.2 0 _ _ rfl rfl).1
  exact absurd hname (by decide)

end Instances

end Helmoci.ChartFrames
