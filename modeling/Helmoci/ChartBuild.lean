import Helmoci.DependencyRewriting
import Helmoci.JsonDocuments
import Helmoci.TarPacking

/-!
# Building the OCI artifact of a chart

The dependencies of a chart are rewritten to the proxy, its `Chart.yaml` becomes the
config and a manifest names both. The YAML library, the tar and gzip libraries and
the hash function are parameters. Of a YAML value only what the code looks at is
told apart; tags are looked through where the library does so.
-/
namespace Helmoci.ChartBuild
open RustText Utf8 UrlInterface NameResolver OciDigest JsonDocuments ServerErrors
  DependencyRewriting TarUnpacking TarPacking

inductive Yaml where
  | scalar (text : Str)
  | string (s : Str)
  | sequence (items : List Yaml)
  | mapping (entries : List (Yaml × Yaml))
  | tagged (tag : Str) (value : Yaml)

namespace Yaml

def isKey (key : Str) : Yaml → Bool
  | .string s => s == key
  | _ => false

def lookup (key : Str) (entries : List (Yaml × Yaml)) : Option Yaml :=
  (entries.find? fun p => p.1.isKey key).map Prod.snd

/-- The value of the first such key is replaced. -/
def replace (key : Str) (value : Yaml) : List (Yaml × Yaml) → List (Yaml × Yaml)
  | [] => []
  | p :: entries => if p.1.isKey key then (p.1, value) :: entries else p :: replace key value entries

def asMapping : Yaml → Option (List (Yaml × Yaml))
  | .mapping entries => some entries
  | .tagged _ value => value.asMapping
  | _ => none

/-- Other entries under the same tags. -/
def withMapping (entries : List (Yaml × Yaml)) : Yaml → Yaml
  | .tagged tag value => .tagged tag (value.withMapping entries)
  | _ => .mapping entries

def asStr : Yaml → Option Str
  | .string s => some s
  | .tagged _ value => value.asStr
  | _ => none

end Yaml

/-- The libraries that a chart passes through. -/
structure ChartCrates where
  url : UrlCrate
  sha256 : Bytes → Digest
  platform : Platform
  reader : TarReader
  writer : TarWriter
  yaml : Str → Except Str Yaml
  yamlText : Yaml → Except Str Str
  yamlJson : Yaml → Except Str Bytes

structure Rewrite where
  name : Str
  source : Str
  target : Str
deriving DecidableEq, Repr

structure RewriteResult where
  tgz : Bytes
  modified : Bool
  rewrites : List Rewrite
deriving DecidableEq, Repr

def isRootChartFile (name basename : Str) : Bool :=
  match (name.splitOn '/').filter fun p => !p.isEmpty with
  | [only] => only == basename
  | [dir, file] => file == basename && dir != str "charts"
  | _ => false

section Build
variable (crates : ChartCrates) (ctx : RewriteContext) (limits : ArchiveLimits)

def rewriteDep (dep : Yaml) : Yaml × List Rewrite :=
  match dep.asMapping with
  | none => (dep, [])
  | some map =>
    match Yaml.lookup (str "repository") map with
    | some (.string repo) =>
      match rewriteDependencyUrl crates.url repo ctx with
      | none => (dep, [])
      | some next =>
        if next = repo then (dep, [])
        else
          let name := ((Yaml.lookup (str "name") map).bind Yaml.asStr).getD []
          (dep.withMapping (Yaml.replace (str "repository") (.string next) map),
            [⟨name, repo, next⟩])
    | _ => (dep, [])

/-- The rewritten list. It was modified where there are rewrites. -/
def rewriteDepsList : Option Yaml → Option Yaml × List Rewrite
  | some (.sequence seq) =>
    let deps := seq.map (rewriteDep crates ctx)
    (some (.sequence (deps.map Prod.fst)), (deps.map Prod.snd).flatten)
  | deps => (deps, [])

/-- The document with its dependencies rewritten. -/
def rewriteDependencies (value : Yaml) : Yaml × List Rewrite :=
  match value.asMapping with
  | none => (value, [])
  | some map =>
    match rewriteDepsList crates ctx (Yaml.lookup (str "dependencies") map) with
    | (some deps, rewrites) => (value.withMapping (Yaml.replace (str "dependencies") deps map), rewrites)
    | (none, rewrites) => (value, rewrites)

def setData (files : List TgzFile) (i : ℕ) (data : Bytes) : List TgzFile :=
  files.modify i fun f => {f with data := data}

/-- The files with a rewritten `Chart.lock`, where there is one that can be rewritten. -/
def rewriteLock (files : List TgzFile) : List TgzFile :=
  match files.findIdx? fun f => isRootChartFile f.name (str "Chart.lock") with
  | none => files
  | some i =>
    let text := fromUtf8Lossy ((files[i]?.map TgzFile.data).getD [])
    match crates.yaml text with
    | .error _ => files
    | .ok value =>
      match rewriteDependencies crates ctx value with
      | (_, []) => files
      | (value, _ :: _) =>
        match crates.yamlText value with
        | .error _ => files
        | .ok text => setData files i (asBytes text)

def rewriteChartDependencies (tgz : Bytes) : Except HelmError RewriteResult :=
  let unmodified : RewriteResult := ⟨tgz, false, []⟩
  if ctx.proxyHost.isEmpty then .ok unmodified
  else do
    let files ← (unpackTgzWithLimits crates.platform limits crates.reader tgz).1
    match files.findIdx? fun f => isRootChartFile f.name (str "Chart.yaml") with
    | none => return unmodified
    | some i =>
      match crates.yaml (fromUtf8Lossy ((files[i]?.map TgzFile.data).getD [])) with
      | .error _ => return unmodified
      | .ok value =>
        match rewriteDependencies crates ctx value with
        | (_, []) => return unmodified
        | (value, rewrites) =>
          match crates.yamlText value with
          | .error e => throw (.invalidChart (str "failed to re-encode Chart.yaml: " ++ e))
          | .ok text =>
            let files := rewriteLock crates ctx (setData files i (asBytes text))
            return ⟨← packTgz crates.writer files, true, rewrites⟩

def chartConfigFromTgz (tgz : Bytes) : Except HelmError Bytes := do
  let files ← (unpackTgzWithLimits crates.platform limits crates.reader tgz).1
  match files.find? fun f => isRootChartFile f.name (str "Chart.yaml") with
  | none => throw (.invalidChart (str "Chart.yaml not found in chart archive"))
  | some chart =>
    match crates.yaml (fromUtf8Lossy chart.data) with
    | .error e => throw (.invalidChart (str "Chart.yaml is not valid YAML: " ++ e))
    | .ok value =>
      if value.asMapping.isNone then
        throw (.invalidChart (str "Chart.yaml did not parse to an object"))
      else
        match crates.yamlJson value with
        | .error e => throw (.invalidChart (str "Chart.yaml could not be encoded as JSON: " ++ e))
        | .ok json => return json

structure BuiltChart where
  manifestBytes : Bytes
  manifestDigest : Digest
  configBytes : Bytes
  configDigest : Digest
  layerBytes : Bytes
  layerDigest : Digest
  pointer : TagPointer
  rewrites : List Rewrite
deriving DecidableEq

/-- The artifact around a config and a layer. -/
def assemble (configBytes layerBytes : Bytes) (rewrites : List Rewrite) : BuiltChart :=
  let configDigest := crates.sha256 configBytes
  let layerDigest := crates.sha256 layerBytes
  let manifestBytes := encodeManifest
    (helmManifest configDigest layerDigest configBytes.length layerBytes.length)
  let manifestDigest := crates.sha256 manifestBytes
  ⟨manifestBytes, manifestDigest, configBytes, configDigest, layerBytes, layerDigest,
    ⟨manifestDigest, mediaTypeManifest, manifestBytes.length⟩, rewrites⟩

def buildHelmOciChart (chartTgz : Bytes) : Except HelmError BuiltChart := do
  let rewritten ← rewriteChartDependencies crates ctx limits chartTgz
  let layerBytes := if rewritten.modified then rewritten.tgz else chartTgz
  let configBytes ← chartConfigFromTgz crates limits layerBytes
  return assemble crates configBytes layerBytes rewritten.rewrites

variable {crates ctx limits}

theorem assemble_of_build {chartTgz : Bytes} {built : BuiltChart}
    (h : buildHelmOciChart crates ctx limits chartTgz = .ok built) :
    ∃ config layer rewrites, built = assemble crates config layer rewrites := by
  obtain ⟨rewritten, -, h⟩ := bind_eq_ok h
  obtain ⟨config, -, h⟩ := bind_eq_ok h
  cases h
  exact ⟨config, _, rewritten.rewrites, rfl⟩

end Build

end Helmoci.ChartBuild
