import Helmoci.ClassicUpstream
import Helmoci.RegistryResponses
import Helmoci.ServerState

/-!
# Manifests and blobs of classic charts

A manifest asked for by tag comes from the cache of the chart's backend or is built
from the repository's chart: the three blobs are written in any order, and the tag
pointer behind them. A digest is looked up in the persistent storage and then in the
ephemeral cache. The build runs on another thread, which is taken to return.
-/
namespace Helmoci.ClassicHandler
open RustText NameResolver OciDigest JsonDocuments ServerErrors ChartIndex EffectPrograms
  Helmoci.Configuration ServerOperations UpstreamRequests ClassicUpstream BlobStorage
  RegistryResponses
  DependencyRewriting TarUnpacking ChartBuild ServerState

section Handlers
variable (state : AppState)

def backend (ephemeral : Bool) : Storage := if ephemeral then state.ephemeral else state.storage

def findBlob (digest : Digest) : Server (Option Blob) := do
  match ← state.storage.getBlob digest with
  | some blob => return some blob
  | none => state.ephemeral.getBlob digest

def validHelmManifest (data : Bytes) : Bool :=
  match state.crates.json.manifest data with
  | none => false
  | some manifest => manifest.schemaVersion == 2 && manifest.mediaType == mediaTypeManifest &&
      manifest.config.mediaType == mediaTypeHelmConfig && !manifest.layers.isEmpty &&
      manifest.layers.all fun layer => layer.mediaType == mediaTypeHelmChart

/-- The manifest in a blob, if its size, its length, its hash and its form are right. -/
def digestManifestResponse (digest : Digest) (blob : Blob) (headOnly : Bool) (maxBytes : ℕ) :
    Except AppError Response :=
  let unknown := AppError.manifestUnknown (str "manifest unknown: " ++ digest.asStr)
  if maxBytes < blob.blobMeta.size then .error unknown
  else
    match readBounded maxBytes id (some blob.blobMeta.size) blob.data with
    | .error (.internal m) => .error (.internal m)
    | .error _ => .error unknown
    | .ok data =>
      if data.length ≠ blob.blobMeta.size ∨ state.crates.sha256 data ≠ digest ∨
          validHelmManifest state data = false then .error unknown
      else .ok (bytesResponse mediaTypeManifest digest data headOnly)

def cachedTagManifest (store : Storage) (scope : TagScope) (reference : Str) (headOnly : Bool)
    (maxBytes : ℕ) : Server (Option Response) := do
  match ← store.getTagPointer scope reference with
  | none => return none
  | some pointer =>
    if pointer.mediaType ≠ mediaTypeManifest ∨ maxBytes < pointer.size then return none
    else
      match ← store.getBlob pointer.digest with
      | none => return none
      | some blob =>
        if blob.blobMeta.size ≠ pointer.size then return none
        else
          match digestManifestResponse state pointer.digest blob headOnly maxBytes with
          | .ok response => return some response
          | .error (.manifestUnknown _) => return none
          | .error e => throw e

/-- `try_join!`: both in turns, and the first failure gives up the other one. -/
def tryJoinServer {A B : Type} (p : Server A) (q : Server B) : Server (A × B) :=
  ExceptT.mk (tryJoin Op.turn id p.run q.run)

def putArtifact (store : Storage) (built : BuiltChart) : Server Unit := do
  let _ ← tryJoinServer (store.putBlob built.configDigest mediaTypeHelmConfig built.configBytes)
    (tryJoinServer (store.putBlob built.layerDigest mediaTypeHelmChart built.layerBytes)
      (store.putBlob built.manifestDigest mediaTypeManifest built.manifestBytes))
  return ()

def rewriteContext (proxyHost : Str) : RewriteContext := ⟨proxyHost, state.cfg.classicAliasByRepo⟩

def archiveLimits : ArchiveLimits :=
  .forChartBytesWithExpansion state.cfg.settings.maxChartBytes
    state.cfg.settings.maxExpandedChartBytes

/-- The artifact of a downloaded archive. -/
def buildChart (proxyHost : Str) (tgz : Bytes) : Except AppError BuiltChart :=
  (buildHelmOciChart state.crates.toChartCrates (rewriteContext state proxyHost)
    (archiveLimits state) tgz).mapError AppError.fromHelmForManifest

def fetchChart (chart : ClassicChart) (reference : Str) : Server Bytes := do
  let index ← fetchIndexText state.crates.url state.crates.sha256 state.cfg.settings chart.repoUrl
    chart.source
  let chartUrl ← liftResult ((resolveChartUrl state.crates.url state.crates.indexYaml index
    (indexRepo chart.repoUrl chart.source) chart.chartName reference).mapError
      AppError.fromHelmForManifest)
  downloadChart state.crates.url state.cfg.settings chartUrl chart.repoUrl chart.source

/-- The way past the cache. -/
def buildManifest (proxyHost : Str) (chart : ClassicChart) (reference : Str) (headOnly : Bool) :
    Server Response := do
  let tgz ← fetchChart state chart reference
  let built ← liftResult (buildChart state proxyHost tgz)
  putArtifact (backend state chart.ephemeral) built
  (backend state chart.ephemeral).putTagPointer ⟨proxyHost, chart.fullName⟩ reference built.pointer
  return bytesResponse mediaTypeManifest built.manifestDigest built.manifestBytes headOnly

def manifest (proxyHost : Str) (chart : ClassicChart) (reference : Str) (headOnly : Bool) :
    Server Response := do
  match Digest.parse reference with
  | some digest =>
    match ← findBlob state digest with
    | some blob =>
      liftResult (digestManifestResponse state digest blob headOnly state.cfg.settings.maxChartBytes)
    | none => throw (.manifestUnknown (str "manifest unknown: " ++ digest.asStr))
  | none =>
    match ← cachedTagManifest state (backend state chart.ephemeral) ⟨proxyHost, chart.fullName⟩
        reference headOnly state.cfg.settings.maxChartBytes with
    | some response => return response
    | none => buildManifest state proxyHost chart reference headOnly

def blob (digestStr : Str) (headOnly : Bool) : Server Response := do
  match Digest.parse digestStr with
  | none => throw (.blobUnknown (str "invalid digest: " ++ digestStr))
  | some digest =>
    match ← findBlob state digest with
    | none => throw (.blobUnknown (str "blob unknown: " ++ digest.asStr))
    | some blob =>
      let contentType := blob.blobMeta.contentType.getD (str "application/octet-stream")
      return blobResponse contentType digest blob headOnly

end Handlers

end Helmoci.ClassicHandler
