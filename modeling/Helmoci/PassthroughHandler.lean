import Helmoci.ManifestMediaTypes
import Helmoci.RegistryResponses
import Helmoci.ServerState

/-!
# Manifests and blobs of OCI registries

What an alias stores is answered from the storage, checked against its digest first:
a manifest or a small blob before the answer, a larger blob while it is sent. All else
is asked for upstream, and written through where the alias stores. The answer to a
`HEAD` request repeats what the upstream said of the content.
-/
namespace Helmoci.PassthroughHandler
open RustText NameResolver OciDigest JsonDocuments ServerErrors EffectPrograms ServerOperations
  UpstreamRequests RegistryTokens BlobStorage RegistryResponses ServerState ManifestMediaTypes

def defaultManifestAccept : Str := (str ", ").intercalate manifestMediaTypes

def maxManifestBytes : ℕ := 4 * 1024 * 1024

def maxBufferedCachedBlobBytes : ℕ := 1024 * 1024

def headerStr (response : HttpResponse) (name : Str) : Option Str :=
  (HeaderMap.get response.headers name).bind HeaderValue.toStr

/-- A response with these headers, unless one is no header value. -/
def buildResponse (headers : List (Str × Str)) (body : List (Except AppError Bytes)) :
    Except AppError Response :=
  match headers.mapM fun p => (HeaderValue.fromStr p.2).map fun value => (p.1, value) with
  | none => .error (.upstream (str "upstream metadata was not a valid response header"))
  | some headers => .ok ⟨200, headers, body⟩

inductive UpstreamBlob where
  | buffered (data : Bytes)
  /-- What was read up to the limit, and the rest of the body. -/
  | oversized (readSoFar : Bytes) (rest : List (Except Str Bytes))

/-- Chunks up to the limit, and the rest of the body beyond it. -/
def readUpstreamChunks (maxBytes : ℕ) (data : Bytes) :
    List (Except Str Bytes) → Except AppError UpstreamBlob
  | [] => .ok (.buffered data)
  | .error e :: _ => .error (.upstream (str "reading upstream blob failed: " ++ e))
  | .ok chunk :: chunks =>
    let room := maxBytes - data.length
    if room < chunk.length then
      .ok (.oversized (data ++ chunk.take room) (.ok (chunk.drop room) :: chunks))
    else readUpstreamChunks maxBytes (data ++ chunk) chunks

def upstreamChunks (chunks : List (Except Str Bytes)) : List (Except AppError Bytes) :=
  chunks.map fun chunk => chunk.mapError AppError.upstream

section Handlers
variable (state : AppState)

def readCachedBlob (blob : Blob) (maxBytes : ℕ) : Except AppError Bytes :=
  readBounded maxBytes id (some blob.blobMeta.size) blob.data

/-- The chunks one behind, so that a blob with another hash ends short. -/
def verifyChunks (digest : Digest) (seen : Bytes) (held : Option Bytes) :
    List (Except AppError Bytes) → List (Except AppError Bytes)
  | [] =>
    if state.crates.sha256 seen ≠ digest then [.error (storageError .blobRead)]
    else held.toList.map .ok
  | .error e :: _ => [.error e]
  | .ok chunk :: chunks =>
    held.toList.map .ok ++ verifyChunks digest (seen ++ chunk) (some chunk) chunks

def verifiedCachedBlob (digest : Digest) (blob : Blob) : Blob :=
  {blob with data := verifyChunks state digest [] none blob.data}

def cachedBlobResponse (digest : Digest) (blob : Blob) (headOnly : Bool) : Option Response :=
  let contentType := blob.blobMeta.contentType.getD octetStreamMediaType
  if maxBufferedCachedBlobBytes < blob.blobMeta.size then
    some (blobResponse contentType digest (verifiedCachedBlob state digest blob) headOnly)
  else
    match readCachedBlob blob maxBufferedCachedBlobBytes with
    | .error _ => none
    | .ok data =>
      if state.crates.sha256 data = digest then
        some (blobBytesResponse contentType digest data headOnly)
      else none

/-- The stored media type goes before the declared one. -/
def cachedManifestResponse (digest : Digest) (blob : Blob) (headOnly : Bool)
    (declared : Option Str) : Except AppError Response :=
  let unknown := AppError.manifestUnknown (str "manifest unknown: " ++ digest.asStr)
  match readCachedBlob blob maxManifestBytes with
  | .error e => .error e
  | .ok data =>
    if state.crates.sha256 data ≠ digest then .error unknown
    else
      let declared := blob.blobMeta.contentType.orElse fun _ => declared
      match (manifestMediaType state.crates.json data declared).orElse fun _ =>
          inferredCachedManifestMediaType state.crates.json data with
      | none => .error unknown
      | some mediaType => .ok (bytesResponse mediaType digest data headOnly)

def sendToUpstream (target : OciTarget) (headOnly : Bool) (suffix : Str) (accept : Option Str) :
    Server HttpResponse :=
  sendUpstream state.crates.url state.crates.tokenJson state.gcp target
    (if headOnly then .head else .get) suffix accept

/-- The answer from the storage, if there is one. -/
def cachedManifest (scope : TagScope) (reference : Str) (headOnly : Bool) (accept : Option Str) :
    Server (Option Response) := do
  match Digest.parse reference with
  | some digest =>
    match ← state.storage.getBlob digest with
    | none => return none
    | some blob =>
      let response ← liftResult (cachedManifestResponse state digest blob headOnly none)
      return some response
  | none =>
    match ← state.storage.getTagPointer scope reference with
    | none => return none
    | some pointer =>
      match normalizedManifestMediaType pointer.mediaType with
      | none => return none
      | some mediaType =>
        if !acceptsMediaType accept mediaType then return none
        else
          match ← state.storage.getBlob pointer.digest with
          | none => return none
          | some blob =>
            let response ← liftResult
              (cachedManifestResponse state pointer.digest blob headOnly (some mediaType))
            return some response

/-- The answer to a `HEAD` request, from the upstream's headers alone. -/
def headManifestResponse (response : HttpResponse) (reference : Str) (declared : Option Str) :
    Except AppError Response :=
  match declared with
  | none => .error (.upstream (str "upstream response was not a supported OCI manifest media type"))
  | some mediaType =>
    let length := response.contentLength.toList.map fun n => (str "content-length", decimal n)
    let etag := (headerStr response (str "etag")).toList.map fun etag => (str "etag", etag)
    let version := (str "docker-distribution-api-version", str "registry/2.0")
    match (headerStr response (str "docker-content-digest")).bind Digest.parse with
    | none => buildResponse ((str "content-type", mediaType) :: version :: (length ++ etag)) []
    | some digest =>
      if (Digest.parse reference).any (· ≠ digest) then
        .error (.upstream (str "upstream reported digest " ++
          (digest.asStr ++ str " for a different requested digest")))
      else buildResponse ((str "content-type", mediaType) :: version ::
        (length ++ (str "docker-content-digest", digest.asStr) :: etag)) []

/-- A manifest from the upstream, with its digest and media type. -/
def checkManifest (response : HttpResponse) (reference : Str) (declared : Option Str) :
    Except AppError (Bytes × Digest × Str) := do
  let data ← readResponse response maxManifestBytes (str "manifest")
  let digest := state.crates.sha256 data
  match (Digest.parse reference).filter (· ≠ digest) with
  | some requested => throw (.upstream (str "upstream manifest bytes did not match requested digest " ++
      requested.asStr))
  | none =>
    match manifestMediaType state.crates.json data declared with
    | none => throw (.upstream (str "upstream response was not a supported OCI manifest"))
    | some mediaType => return (data, digest, mediaType)

/-- The manifest and, for a tag, the pointer to it. -/
def storeManifest (scope : TagScope) (reference : Str) (data : Bytes) (digest : Digest)
    (mediaType : Str) : Server Unit := do
  state.storage.putBlob digest mediaType data
  if (Digest.parse reference).isNone then
    state.storage.putTagPointer scope reference ⟨digest, mediaType, data.length⟩

def upstreamManifest (proxyHost : Str) (target : OciTarget) (reference : Str) (headOnly : Bool)
    (accept : Option Str) : Server Response := do
  let response ← sendToUpstream state target headOnly (str "manifests/" ++ reference)
    (some (accept.getD defaultManifestAccept))
  if response.status = 404 then
    throw (.manifestUnknown (str "upstream manifest unknown: " ++
      (target.fullName ++ ':' :: reference)))
  else if !response.isSuccess then
    throw (.upstream (str "upstream registry returned HTTP " ++ (decimal response.status ++
      (str " for manifests/" ++ reference))))
  else
    let contentType := (headerStr response (str "content-type")).getD mediaTypeManifest
    let declared := normalizedManifestMediaType contentType
    if headOnly then liftResult (headManifestResponse response reference declared)
    else
      let (data, digest, mediaType) ← liftResult (checkManifest state response reference declared)
      if target.store then
        storeManifest state ⟨proxyHost, target.fullName⟩ reference data digest mediaType
      return bytesResponse mediaType digest data false

def manifest (proxyHost : Str) (target : OciTarget) (reference : Str) (headOnly : Bool)
    (accept : Option Str) : Server Response := do
  if target.store then
    match ← cachedManifest state ⟨proxyHost, target.fullName⟩ reference headOnly accept with
    | some response => return response
    | none => upstreamManifest state proxyHost target reference headOnly accept
  else upstreamManifest state proxyHost target reference headOnly accept

/-- A blob that is sent on as the upstream sends it. -/
def streamedBlob (response : HttpResponse) (digest : Digest) (contentType : Str)
    (body : List (Except AppError Bytes)) : Except AppError Response :=
  let length := response.contentLength.toList.map fun n => (str "content-length", decimal n)
  let etag := (headerStr response (str "etag")).toList.map fun etag => (str "etag", etag)
  buildResponse ((str "content-type", contentType) :: (str "docker-content-digest", digest.asStr) ::
    (str "docker-distribution-api-version", str "registry/2.0") :: (length ++ etag)) body

/-- The write through the storage, where the blob is within the limit. -/
def storedBlob (response : HttpResponse) (digest : Digest) (contentType : Str) :
    Server Response := do
  match ← liftResult (readUpstreamChunks state.cfg.settings.maxChartBytes [] response.chunks) with
  | .buffered data =>
    if state.crates.sha256 data ≠ digest then
      throw (.upstream (str "upstream blob bytes did not match requested digest " ++ digest.asStr))
    else
      state.storage.putBlob digest contentType data
      return blobBytesResponse contentType digest data false
  | .oversized readSoFar rest =>
    liftResult (streamedBlob response digest contentType (.ok readSoFar :: upstreamChunks rest))

def upstreamBlob (target : OciTarget) (digest : Digest) (headOnly : Bool) : Server Response := do
  let response ← sendToUpstream state target headOnly (str "blobs/" ++ digest.asStr) none
  if response.status = 404 then
    throw (.blobUnknown (str "blob unknown: " ++ digest.asStr))
  else if !response.isSuccess then
    throw (.upstream (str "upstream registry returned HTTP " ++ (decimal response.status ++
      (str " for blobs/" ++ digest.asStr))))
  else
    let contentType := (headerStr response (str "content-type")).getD octetStreamMediaType
    if headOnly then liftResult (streamedBlob response digest contentType [])
    else if target.store &&
        !response.contentLength.any (state.cfg.settings.maxChartBytes < ·) then
      storedBlob state response digest contentType
    else
      liftResult (streamedBlob response digest contentType (upstreamChunks response.chunks))

def cachedBlob (target : OciTarget) (digest : Digest) (headOnly : Bool) :
    Server (Option Response) := do
  if target.store then
    let blob ← state.storage.getBlob digest
    return blob.bind fun blob => cachedBlobResponse state digest blob headOnly
  else return none

def blob (target : OciTarget) (digestStr : Str) (headOnly : Bool) : Server Response := do
  match Digest.parse digestStr with
  | none => throw (.blobUnknown (str "invalid digest: " ++ digestStr))
  | some digest =>
    match ← cachedBlob state target digest headOnly with
    | some response => return response
    | none => upstreamBlob state target digest headOnly

end Handlers

end Helmoci.PassthroughHandler
