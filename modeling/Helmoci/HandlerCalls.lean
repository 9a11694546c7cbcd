import Helmoci.StoredEntries
import Helmoci.TagPages

/-!
# The calls of the handlers

Each handler is cut where its upstream has answered. In front of that it only reads, and
behind it it keeps what the answer's checks let through.
-/
namespace Helmoci.HandlerCalls
open RustText NameResolver OciDigest JsonDocuments ServerErrors EffectPrograms ServerOperations
  UpstreamRequests ClassicUpstream RegistryTokens BlobStorage RegistryResponses ChartIndex
  ChartBuild ServerState ClassicHandler PassthroughHandler ManifestMediaTypes StoredEntries

section Parts
variable (state : AppState)

/-- The artifact of a downloaded chart, its pointer and the answer. -/
def publish (proxyHost : Str) (chart : ClassicChart) (reference : Str) (headOnly : Bool)
    (tgz : Bytes) : Server Response := do
  let built ← liftResult (buildChart state proxyHost tgz)
  putArtifact (backend state chart.ephemeral) built
  (backend state chart.ephemeral).putTagPointer ⟨proxyHost, chart.fullName⟩ reference built.pointer
  return bytesResponse mediaTypeManifest built.manifestDigest built.manifestBytes headOnly

/-- What becomes of the upstream's answer to a request for a manifest. -/
def relayManifest (proxyHost : Str) (target : OciTarget) (reference : Str) (headOnly : Bool)
    (response : HttpResponse) : Server Response := do
  if response.status = 404 then
    throw (.manifestUnknown (str "upstream manifest unknown: " ++
      (target.fullName ++ ':' :: reference)))
  else if !response.isSuccess then
    throw (.upstream (str "upstream registry returned HTTP " ++ (decimal response.status ++
      (str " for manifests/" ++ reference))))
  else
    let contentType := (headerStr response (str "content-type")).getD mediaTypeManifest
    let declared := normalizedManifestMediaType contentType
    if headOnly then liftResult (headManifestResponse response reference declared)
    else
      let (data, digest, mediaType) ← liftResult (checkManifest state response reference declared)
      if target.store then
        storeManifest state ⟨proxyHost, target.fullName⟩ reference data digest mediaType
      return bytesResponse mediaType digest data false

/-- What becomes of the upstream's answer to a request for a blob. -/
def relayBlob (target : OciTarget) (digest : Digest) (headOnly : Bool) (response : HttpResponse) :
    Server Response := do
  if response.status = 404 then
    throw (.blobUnknown (str "blob unknown: " ++ digest.asStr))
  else if !response.isSuccess then
    throw (.upstream (str "upstream registry returned HTTP " ++ (decimal response.status ++
      (str " for blobs/" ++ digest.asStr))))
  else
    let contentType := (headerStr response (str "content-type")).getD octetStreamMediaType
    if headOnly then liftResult (streamedBlob response digest contentType [])
    else if target.store &&
        !response.contentLength.any (state.cfg.settings.maxChartBytes < ·) then
      storedBlob state response digest contentType
    else
      liftResult (streamedBlob response digest contentType (upstreamChunks response.chunks))

theorem buildManifest_eq (proxyHost : Str) (chart : ClassicChart) (reference : Str)
    (headOnly : Bool) : buildManifest state proxyHost chart reference headOnly =
      fetchChart state chart reference >>= publish state proxyHost chart reference headOnly := rfl

theorem upstreamManifest_eq (proxyHost : Str) (target : OciTarget) (reference : Str)
    (headOnly : Bool) (accept : Option Str) :
    upstreamManifest state proxyHost target reference headOnly accept =
      sendToUpstream state target headOnly (str "manifests/" ++ reference)
        (some (accept.getD defaultManifestAccept)) >>=
        relayManifest state proxyHost target reference headOnly := rfl

theorem upstreamBlob_eq (target : OciTarget) (digest : Digest) (headOnly : Bool) :
    upstreamBlob state target digest headOnly =
      sendToUpstream state target headOnly (str "blobs/" ++ digest.asStr) none >>=
        relayBlob state target digest headOnly := rfl

end Parts

section Classic
variable {R : (op : Op) → Ans op → Prop} {permit : Permit} {state : AppState}

theorem backend_within (ephemeral : Bool) : Within R permit (backend state ephemeral) := by
  unfold backend
  split
  · exact ephemeral_within _
  · exact objectStore_within _

theorem findBlob_allowed (digest : Digest) :
    Ensures R permit.allows (OnOk fun _ => True) (findBlob state digest) := by
  refine ensures_bind ((objectStore_within _).getBlob digest) ?_
  intro blob _
  cases blob with
  | some blob => trivial
  | none => exact (ephemeral_within _).getBlob digest

theorem cachedTagManifest_allowed {st : Storage} (hst : Within R permit st) {scope : TagScope}
    {reference : Str} (htag : permit.tag = some (scope, reference)) (headOnly : Bool)
    (maxBytes : ℕ) : Ensures R permit.allows (OnOk fun _ => True)
      (cachedTagManifest state st scope reference headOnly maxBytes) := by
  refine ensures_bind (hst.getTagPointer htag) ?_
  intro pointer _
  cases pointer with
  | none => trivial
  | some pointer =>
      dsimp only
      split
      · trivial
      · refine ensures_bind (hst.getBlob pointer.digest) ?_
        intro blob _
        cases blob with
        | none => trivial
        | some blob =>
            dsimp only
            split
            · trivial
            · split <;> trivial

/-- The three blobs of an artifact. -/
structure KeepsArtifact (permit : Permit) (built : BuiltChart) : Prop where
  config : permit.blob built.configDigest built.configBytes
  layer : permit.blob built.layerDigest built.layerBytes
  manifest : permit.blob built.manifestDigest built.manifestBytes

theorem tryJoinServer_allowed {A B : Type} {p : Server A} {q : Server B}
    (hp : Ensures R permit.allows (OnOk fun _ => True) p)
    (hq : Ensures R permit.allows (OnOk fun _ => True) q) :
    Ensures R permit.allows (OnOk fun _ => True) (tryJoinServer p q) := by
  have hjoin : Ensures R permit.allows (fun _ => True) (tryJoin Op.turn id p.run q.run) :=
    Ensures.tryJoin trivial (hp.conseq (fun _ h => h) fun _ _ => trivial)
      (hq.conseq (fun _ h => h) fun _ _ => trivial)
  apply Ensures.conseq hjoin (fun _ h => h)
  intro r _
  cases r <;> trivial

theorem putArtifact_allowed {st : Storage} (hst : Within R permit st) {built : BuiltChart}
    (h : KeepsArtifact permit built) :
    Ensures R permit.allows (OnOk fun _ => True) (putArtifact st built) := by
  refine ensures_bind (Q := fun _ => True) ?_ fun _ _ => trivial
  exact tryJoinServer_allowed (hst.putBlob h.config _)
    (tryJoinServer_allowed (hst.putBlob h.layer _) (hst.putBlob h.manifest _))

theorem publish_allowed {proxyHost : Str} {chart : ClassicChart} {reference : Str} {tgz : Bytes}
    (htag : permit.tag = some (⟨proxyHost, chart.fullName⟩, reference))
    (hbuilt : ∀ built, buildChart state proxyHost tgz = .ok built →
      KeepsArtifact permit built ∧ permit.pointer built.pointer) (headOnly : Bool) :
    Ensures R permit.allows (OnOk fun _ => True)
      (publish state proxyHost chart reference headOnly tgz) := by
  refine ensures_bind (ensures_liftResult hbuilt) ?_
  intro built ⟨hartifact, hpointer⟩
  refine ensures_bind (putArtifact_allowed (backend_within _) hartifact) ?_
  intro _ _
  refine ensures_bind ((backend_within _).putTagPointer htag hpointer) ?_
  intro _ _
  trivial

variable {chart : ClassicChart}

theorem allows_of_sourced (hremote : ∀ op,
      Sourced state.crates.url state.crates.sha256 R chart.repoUrl chart.source op →
        permit.remote op) {op : Op}
    (h : Sourced state.crates.url state.crates.sha256 R chart.repoUrl chart.source op) :
    permit.allows op := by
  cases op with
  | http _ | indexGet _ | indexInsert _ _ => exact hremote _ h
  | _ => exact h.elim

/-- A chart is the bytes of an answer. -/
theorem fetchChart_allowed (hremote : ∀ op,
      Sourced state.crates.url state.crates.sha256 R chart.repoUrl chart.source op →
        permit.remote op) (reference : Str) :
    Ensures R permit.allows
      (OnOk fun tgz => ∃ response, AnswersHttp R response ∧ tgz = responseBytes response)
      (fetchChart state chart reference) := by
  unfold fetchChart
  refine ensures_bind ((fetchIndexText_sourced ..).conseq
    (fun _ => allows_of_sourced hremote) fun _ h => h) ?_
  intro index _
  refine ensures_bind (Q := fun _ => True) (ensures_liftResult fun _ _ => trivial) ?_
  intro chartUrl _
  exact (downloadChart_sourced ..).conseq (fun _ => allows_of_sourced hremote) fun _ h => h

theorem manifest_allowed {proxyHost reference : Str} (hremote : ∀ op,
      Sourced state.crates.url state.crates.sha256 R chart.repoUrl chart.source op →
        permit.remote op)
    (htag : Digest.parse reference = none →
      permit.tag = some (⟨proxyHost, chart.fullName⟩, reference))
    (hbuilt : ∀ response built, AnswersHttp R response →
      buildChart state proxyHost (responseBytes response) = .ok built →
        KeepsArtifact permit built ∧ permit.pointer built.pointer) (headOnly : Bool) :
    Ensures R permit.allows (OnOk fun _ => True)
      (ClassicHandler.manifest state proxyHost chart reference headOnly) := by
  unfold ClassicHandler.manifest
  cases hd : Digest.parse reference with
  | some digest =>
      refine ensures_bind (findBlob_allowed digest) ?_
      intro blob _
      cases blob with
      | some blob => exact ensures_liftResult fun _ _ => trivial
      | none => trivial
  | none =>
      refine ensures_bind (cachedTagManifest_allowed (backend_within _) (htag hd) _ _) ?_
      intro cached _
      cases cached with
      | some response => trivial
      | none =>
          dsimp only
          rw [buildManifest_eq]
          refine ensures_bind (fetchChart_allowed hremote reference) ?_
          intro tgz ⟨response, hresponse, htgz⟩
          apply publish_allowed (htag hd)
          intro built hb
          rw [htgz] at hb
          exact hbuilt response built hresponse hb

theorem blob_allowed (digestStr : Str) (headOnly : Bool) :
    Ensures R permit.allows (OnOk fun _ => True)
      (ClassicHandler.blob state digestStr headOnly) := by
  unfold ClassicHandler.blob
  split
  · trivial
  · refine ensures_bind (findBlob_allowed _) ?_
    intro blob _
    cases blob <;> trivial

theorem tags_allowed (hremote : ∀ op,
      Sourced state.crates.url state.crates.sha256 R chart.repoUrl chart.source op →
        permit.remote op) (query : Option Str) (headOnly : Bool) :
    Ensures R permit.allows (OnOk fun _ => True) (TagPages.tags state chart query headOnly) := by
  unfold TagPages.tags
  refine ensures_bind ((fetchIndexText_sourced ..).conseq
    (fun _ => allows_of_sourced hremote) fun _ h => h) ?_
  intro index _
  exact ensures_bind (Q := fun _ => True) (ensures_liftResult fun _ _ => trivial)
    fun _ _ => trivial

end Classic

section Passthrough
variable {R : (op : Op) → Ans op → Prop} {permit : Permit} {state : AppState} {target : OciTarget}

theorem sendToUpstream_allowed (hremote : ∀ op, RegistryOp op → permit.remote op)
    (headOnly : Bool) (suffix : Str) (accept : Option Str) :
    Ensures R permit.allows (OnOk (AnswersHttp R))
      (sendToUpstream state target headOnly suffix accept) := by
  apply (sendUpstream_registryOp ..).conseq
  · intro op hop
    cases op with
    | http _ | liveToken _ | insertToken _ _ | gcpAccessToken => exact hremote _ hop
    | _ => exact hop.elim
  · exact fun _ h => h

theorem cachedManifest_allowed {scope : TagScope} {reference : Str}
    (htag : Digest.parse reference = none → permit.tag = some (scope, reference))
    (headOnly : Bool) (accept : Option Str) :
    Ensures R permit.allows (OnOk fun _ => True)
      (cachedManifest state scope reference headOnly accept) := by
  unfold cachedManifest
  cases hd : Digest.parse reference with
  | some digest =>
      refine ensures_bind ((objectStore_within _).getBlob digest) ?_
      intro blob _
      cases blob with
      | none => trivial
      | some blob =>
          exact ensures_bind (Q := fun _ => True) (ensures_liftResult fun _ _ => trivial)
            fun _ _ => trivial
  | none =>
      refine ensures_bind ((objectStore_within _).getTagPointer (htag hd)) ?_
      intro pointer _
      cases pointer with
      | none => trivial
      | some pointer =>
          dsimp only
          split
          · trivial
          · split
            · trivial
            · refine ensures_bind ((objectStore_within _).getBlob pointer.digest) ?_
              intro blob _
              cases blob with
              | none => trivial
              | some blob =>
                  exact ensures_bind (Q := fun _ => True) (ensures_liftResult fun _ _ => trivial)
                    fun _ _ => trivial

theorem storeManifest_allowed {scope : TagScope} {reference : Str} {data : Bytes}
    {digest : Digest} {mediaType : Str} (hblob : permit.blob digest data)
    (htag : Digest.parse reference = none → permit.tag = some (scope, reference))
    (hpointer : permit.pointer ⟨digest, mediaType, data.length⟩) :
    Ensures R permit.allows (OnOk fun _ => True)
      (storeManifest state scope reference data digest mediaType) := by
  unfold storeManifest
  refine ensures_bind ((objectStore_within _).putBlob hblob mediaType) ?_
  intro _ _
  split
  · rename_i hd
    exact (objectStore_within _).putTagPointer (htag (by simpa using hd)) hpointer
  · trivial

theorem relayManifest_allowed {proxyHost reference : Str} {response : HttpResponse}
    (htag : Digest.parse reference = none →
      permit.tag = some (⟨proxyHost, target.fullName⟩, reference))
    (hchecked : ∀ declared data digest mediaType, response.isSuccess = true →
      checkManifest state response reference declared = .ok (data, digest, mediaType) →
        permit.blob digest data ∧ permit.pointer ⟨digest, mediaType, data.length⟩)
    (headOnly : Bool) : Ensures R permit.allows (OnOk fun _ => True)
      (relayManifest state proxyHost target reference headOnly response) := by
  unfold relayManifest
  split
  · trivial
  · split
    · trivial
    · rename_i hsuccess
      dsimp only
      split
      · exact ensures_liftResult fun _ _ => trivial
      · refine ensures_bind (ensures_liftResult fun checked h =>
          hchecked _ _ _ _ (by simpa using hsuccess) h) ?_
        intro ⟨data, digest, mediaType⟩ ⟨hblob, hpointer⟩
        dsimp only
        split
        · refine ensures_bind (storeManifest_allowed hblob htag hpointer) ?_
          intro _ _
          trivial
        · trivial

theorem passthroughManifest_allowed {proxyHost reference : Str}
    (hremote : ∀ op, RegistryOp op → permit.remote op)
    (htag : Digest.parse reference = none →
      permit.tag = some (⟨proxyHost, target.fullName⟩, reference))
    (hchecked : ∀ response declared data digest mediaType, AnswersHttp R response →
      checkManifest state response reference declared = .ok (data, digest, mediaType) →
        permit.blob digest data ∧ permit.pointer ⟨digest, mediaType, data.length⟩)
    (headOnly : Bool) (accept : Option Str) : Ensures R permit.allows (OnOk fun _ => True)
      (PassthroughHandler.manifest state proxyHost target reference headOnly accept) := by
  have upstream : Ensures R permit.allows (OnOk fun _ => True)
      (upstreamManifest state proxyHost target reference headOnly accept) := by
    rw [upstreamManifest_eq]
    refine ensures_bind (sendToUpstream_allowed hremote ..) ?_
    intro response hresponse
    exact relayManifest_allowed htag (fun _ _ _ _ _ h => hchecked _ _ _ _ _ hresponse h) headOnly
  unfold PassthroughHandler.manifest
  split
  · refine ensures_bind (cachedManifest_allowed htag headOnly accept) ?_
    intro cached _
    cases cached with
    | some response => trivial
    | none => exact upstream
  · exact upstream

theorem relayBlob_allowed {digest : Digest} {response : HttpResponse}
    (hread : ∀ data, response.isSuccess = true →
      readUpstreamChunks state.cfg.settings.maxChartBytes [] response.chunks =
        .ok (.buffered data) → state.crates.sha256 data = digest → permit.blob digest data)
    (headOnly : Bool) : Ensures R permit.allows (OnOk fun _ => True)
      (relayBlob state target digest headOnly response) := by
  unfold relayBlob
  split
  · trivial
  · split
    · trivial
    · rename_i hsuccess
      dsimp only
      split
      · exact ensures_liftResult fun _ _ => trivial
      · split
        · refine ensures_bind (ensures_liftResult fun _ h => h) ?_
          intro read hr
          cases read with
          | oversized readSoFar rest => exact ensures_liftResult fun _ _ => trivial
          | buffered data =>
              dsimp only
              split
              · trivial
              · rename_i hhash
                have hblob := hread data (by simpa using hsuccess) hr (not_not.mp hhash)
                refine ensures_bind ((objectStore_within _).putBlob hblob _) ?_
                intro _ _
                trivial
        · exact ensures_liftResult fun _ _ => trivial

theorem cachedBlob_allowed (digest : Digest) (headOnly : Bool) :
    Ensures R permit.allows (OnOk fun _ => True) (cachedBlob state target digest headOnly) := by
  unfold cachedBlob
  split
  · refine ensures_bind ((objectStore_within _).getBlob digest) ?_
    intro _ _
    trivial
  · trivial

theorem passthroughBlob_allowed {digestStr : Str}
    (hremote : ∀ op, RegistryOp op → permit.remote op)
    (hread : ∀ response digest data, Digest.parse digestStr = some digest →
      AnswersHttp R response →
      readUpstreamChunks state.cfg.settings.maxChartBytes [] response.chunks =
        .ok (.buffered data) → state.crates.sha256 data = digest → permit.blob digest data)
    (headOnly : Bool) : Ensures R permit.allows (OnOk fun _ => True)
      (PassthroughHandler.blob state target digestStr headOnly) := by
  unfold PassthroughHandler.blob
  cases hd : Digest.parse digestStr with
  | none => trivial
  | some digest =>
      refine ensures_bind (cachedBlob_allowed digest headOnly) ?_
      intro cached _
      cases cached with
      | some response => trivial
      | none =>
          dsimp only
          rw [upstreamBlob_eq]
          refine ensures_bind (sendToUpstream_allowed hremote ..) ?_
          intro response hresponse
          exact relayBlob_allowed (fun data _ => hread response digest data hd hresponse) headOnly

end Passthrough

end Helmoci.HandlerCalls
