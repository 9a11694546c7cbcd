import Helmoci.RepeatedManifests

/-!
# Charts that are read back

A chart that is built for a persistent alias is written as three blobs and a pointer. Reading
them back applies tests that building them does not: a manifest beyond the limit on charts is
none. So what has been answered for a tag can be asked for again, by its digest, by the tag
and blob by blob, just where the manifest is within that limit.
-/
namespace Helmoci.ReadBack
open RustText OciDigest NameResolver JsonDocuments ServerErrors EffectPrograms
  InterleavedPrograms ServerOperations BlobStorage RegistryResponses ChartBuild ServerState
  ClassicHandler ManifestMediaTypes StoredEntries HandlerCalls ProxiedBlobs ManifestCourses
  StoreWorlds ContentAddresses StoredPointers ReliableReads RepeatedManifests PlainUrls PlainCrates
  Helmoci.Configuration

section Definitions
variable (app : AppState) (S : Set Bytes) (caps : Capabilities)

/-- From the state the program answers so without asking an upstream or writing anything. -/
def AnswersFrom (s : State) (p : Server Response) (Q : Response → Prop) : Prop :=
  Meets (reliable app S caps .classic) Reads (fun r t => t = s ∧ ∃ a, r = .ok a ∧ Q a) p s

/-- The answer is these bytes. -/
def Delivers (content : Bytes) (response : Response) : Prop :=
  response.status = 200 ∧ response.bytes = some content

/-- As long as what is stored stays there, the manifest is answered again under its digest and
its tag, and each blob that it names with the size and the hash that it states. -/
def ReadsBack (proxyHost : Str) (chart : ClassicChart) (reference : Str) (manifest : OciManifest)
    (digest : Digest) (response : Response) (s : State) : Prop :=
  ∀ t, Later ⟨proxyHost, chart.fullName⟩ reference s t →
    AnswersFrom app S caps t (ClassicHandler.manifest app proxyHost chart digest.asStr false)
      (· = response) ∧
    AnswersFrom app S caps t (ClassicHandler.manifest app proxyHost chart reference false)
      (· = response) ∧
    ∀ d ∈ manifest.config :: manifest.layers, ∃ content, content.length = d.size ∧
      app.crates.sha256 content = d.digest ∧
      AnswersFrom app S caps t (ClassicHandler.blob app d.digest.asStr false) (Delivers content)

end Definitions

section Reading
variable {app : AppState} {S : Set Bytes} {caps : Capabilities} {s t : State} {digest : Digest}
  {data : Bytes} {contentType : Option Str}

theorem bytes_of_collected {body : List (Except AppError Bytes)}
    (h : collected body = (data, none)) :
    (body.mapM Except.toOption).map List.flatten = some data := by
  induction body generalizing data with
  | nil =>
      cases h
      rfl
  | cons chunk body ih =>
      cases chunk with
      | error e => cases h
      | ok chunk =>
          obtain ⟨hdata, hend⟩ := Prod.mk.injEq .. ▸ h
          subst hdata
          have hrest := ih (Prod.ext rfl hend)
          obtain ⟨pieces, hpieces, hflat⟩ := Option.map_eq_some_iff.mp hrest
          simp [List.mapM_cons, Except.toOption, hpieces, ← hflat]

/-- The content types that the classic handler stores blobs with, and the default one. -/
def servedTypes : List Str :=
  [mediaTypeHelmConfig, mediaTypeHelmChart, mediaTypeManifest, octetStreamMediaType]

theorem delivers_blobResponse {blob : Blob} {contentType : Str} (h : contentType ∈ servedTypes)
    (hsize : Option Str) (hblob : IsBlob blob data hsize) :
    Delivers data (blobResponse contentType digest blob false) := by
  have hall : ∀ m ∈ servedTypes, HeaderValue.fromStr m = some (.text m) := by decide +kernel
  unfold blobResponse contentResponse base
  rw [hall contentType h]
  exact ⟨rfl, bytes_of_collected hblob.body⟩

/-- A stored blob is answered with its bytes. -/
theorem blob_answers (h : blobIn false s digest = some (data, contentType))
    (htype : ∀ c ∈ contentType, c ∈ servedTypes) :
    AnswersFrom app S caps s (ClassicHandler.blob app digest.asStr false) (Delivers data) := by
  unfold AnswersFrom ClassicHandler.blob
  rw [Digest.parse_asStr]
  refine meets_bind (findBlob_reads h) ?_ ?_
  · intro found t ⟨⟨blob, hfound, hisBlob⟩, ht⟩
    cases hfound
    refine ⟨ht, _, rfl, delivers_blobResponse ?_ contentType hisBlob⟩
    rw [hisBlob.contentType]
    cases contentType with
    | none => decide
    | some c => exact htype c rfl
  · intro e t ⟨⟨_, hfound, _⟩, _⟩
    cases hfound

/-- A manifest is answered under its digest within the limit. -/
theorem digest_reads (proxyHost : Str) (chart : ClassicChart)
    (h : blobIn false s digest = some (data, contentType))
    (hhash : app.crates.sha256 data = digest) (hform : validHelmManifest app data = true) :
    Meets (reliable app S caps .classic) Reads
      (fun r t => t = s ∧ r = if data.length ≤ app.cfg.settings.maxChartBytes then
        .ok (bytesResponse mediaTypeManifest digest data false)
        else .error (unknownManifest digest))
      (ClassicHandler.manifest app proxyHost chart digest.asStr false) s := by
  unfold ClassicHandler.manifest
  rw [Digest.parse_asStr]
  refine meets_bind (findBlob_reads h) ?_ ?_
  · intro found t ⟨⟨blob, hfound, hisBlob⟩, ht⟩
    cases hfound
    refine ⟨ht, ?_⟩
    split
    · rename_i hlen
      have husable : Usable app digest app.cfg.settings.maxChartBytes blob :=
        hisBlob.usable.mpr ⟨hlen, hhash, hform⟩
      rw [digestManifestResponse_usable husable, hisBlob.body]
    · rename_i hlen
      exact digestManifestResponse_unusable
        (Or.inl (by rw [hisBlob.size]; exact Nat.not_le.mp hlen))
  · intro e t ⟨⟨_, hfound, _⟩, _⟩
    cases hfound

end Reading

section Building
variable {app : AppState} {S : Set Bytes} {caps : Capabilities} {s t : State}
  {proxyHost reference : Str} {chart : ClassicChart} {cs : List (Call Op Ans)}
  {response : Response}

/-- The object store keeps the bytes, with a content type that can be served. -/
def KeepsBlob (s : State) (digest : Digest) (data : Bytes) : Prop :=
  ∃ contentType, blobIn false s digest = some (data, contentType) ∧
    ∀ c ∈ contentType, c ∈ servedTypes

theorem KeepsBlob.mono {digest : Digest} {data : Bytes} (h : KeepsBlob s digest data)
    (hkept : ∀ found, blobIn false s digest = some found → blobIn false t digest = some found) :
    KeepsBlob t digest data := by
  obtain ⟨contentType, hblob, htype⟩ := h
  exact ⟨contentType, hkept _ hblob, htype⟩

theorem putArtifact_types (built : BuiltChart) :
    Ensures Anything (PutsType (· ∈ servedTypes)) (fun _ => True)
      (putArtifact (backend app false) built) := by
  have hjoin : Ensures Anything (PutsType (· ∈ servedTypes)) (fun _ => True)
      (tryJoinServer ((backend app false).putBlob built.configDigest mediaTypeHelmConfig
          built.configBytes)
        (tryJoinServer ((backend app false).putBlob built.layerDigest mediaTypeHelmChart
            built.layerBytes)
          ((backend app false).putBlob built.manifestDigest mediaTypeManifest
            built.manifestBytes))) :=
    Ensures.tryJoin trivial (putBlob_putsType (by decide))
      (Ensures.tryJoin trivial (putBlob_putsType (by decide)) (putBlob_putsType (by decide)))
  refine Ensures.bind hjoin ?_
  intro r _
  cases r <;> trivial

/-- The three blobs of an artifact that has been written to an empty store. -/
theorem keeps_of_putArtifact (hS : S.InjOn app.crates.sha256)
    (hempty : ∀ path, s.objects path = none) {config layer : Bytes} {rewrites : List Rewrite}
    {built : BuiltChart}
    (hbuilt : built = assemble app.crates.toChartCrates config layer rewrites)
    (hall : ∀ b ∈ [built.configBytes, built.layerBytes, built.manifestBytes], b ∈ S)
    (hr : Runs (reliable app S caps .classic) (putArtifact (backend app false) built) s cs (.ok ())
      t) :
    KeepsBlob t built.configDigest built.configBytes ∧
      KeepsBlob t built.layerDigest built.layerBytes ∧
      KeepsBlob t built.manifestDigest built.manifestBytes := by
  have hfaulty := hr.mono fun _ _ _ _ => faulty_of_reliable
  have hguards : Guards (faulty app S .classic) Grows (inOrder app S .classic)
      (fun r t => r = .ok () → false = false → Present t built.configDigest ∧
        Present t built.layerDigest ∧ Present t built.manifestDigest)
      (putArtifact (backend app false) built) s := putArtifact_guards hbuilt hall false
  obtain ⟨hconfig, hlayer, hmanifest⟩ := hguards.runs Grows.refl hfaulty rfl rfl
  have hnothing : Sound app S s := by
    constructor
    · intro digest o ho
      rw [hempty] at ho
      cases ho
    · intro path _ o ho
      rw [hempty] at ho
      cases ho
  have hsound : Sound app S t := hguards.preserves Grows.refl
    (fun _ _ _ _ h hi => inOrder_sound h hi) hfaulty hnothing
  have htypes := typed_of_runs hr ((putArtifact_types built).follows hr.follows).1
  have keeps : ∀ digest data, data ∈ S → digest = app.crates.sha256 data → Present t digest →
      KeepsBlob t digest data := by
    intro digest data hdata hdigest hpresent
    obtain ⟨o, ho⟩ := Option.isSome_iff_exists.mp hpresent
    obtain ⟨hin, hhash⟩ := hsound.blobs digest o ho
    obtain rfl := hS hin hdata (hhash.trans hdigest)
    refine ⟨o.contentType, by dsimp only [blobIn]; rw [ho]; rfl, ?_⟩
    exact (htypes _ o ho).resolve_left (by rw [hempty]; exact nofun)
  subst hbuilt
  exact ⟨keeps _ _ (hall _ (by simp)) rfl hconfig, keeps _ _ (hall _ (by simp)) rfl hlayer,
    keeps _ _ (hall _ (by simp)) rfl hmanifest⟩

/-- The artifact has been answered, and its blobs and its pointer are stored. -/
structure Published (S : Set Bytes) (scope : TagScope) (reference : Str) (built : BuiltChart)
    (response : Response) (t : State) : Prop where
  inside : built.configBytes ∈ S ∧ built.layerBytes ∈ S
  response : response = bytesResponse mediaTypeManifest built.manifestDigest built.manifestBytes
    false
  pointer : pointerIn false t scope reference = some (encodePointer built.pointer)
  config : KeepsBlob t built.configDigest built.configBytes
  layer : KeepsBlob t built.layerDigest built.layerBytes
  manifest : KeepsBlob t built.manifestDigest built.manifestBytes

/-- What has been answered for a tag, out of a store that was empty, is built of the archive
that was fetched for it. -/
theorem published_of_runs (hS : S.InjOn app.crates.sha256)
    (hempty : ∀ path, s.objects path = none) (hstore : chart.ephemeral = false)
    (htag : Digest.parse reference = none)
    (hr : Runs (reliable app S caps .classic)
      (ClassicHandler.manifest app proxyHost chart reference false) s cs (.ok response) t) :
    ∃ fetched tgz built, fetched <:+: cs ∧
      Runs (reliable app S caps .classic) (fetchChart app chart reference) s fetched (.ok tgz) s ∧
      buildChart app proxyHost tgz = .ok built ∧
      Published S ⟨proxyHost, chart.fullName⟩ reference built response t := by
  unfold ClassicHandler.manifest at hr
  rw [htag, hstore] at hr
  rcases runs_server_bind_iff.mp hr with ⟨_, he, _⟩ | ⟨cs₁, found, m, cs₂, hread, hrest, rfl⟩
  · cases he
  · have hcalls : Ensures (AnswerWithin app S)
        (reading (some (⟨proxyHost, chart.fullName⟩, reference))).allows (OnOk fun _ => True)
        (cachedTagManifest app (backend app false) ⟨proxyHost, chart.fullName⟩ reference false
          app.cfg.settings.maxChartBytes) :=
      cachedTagManifest_allowed (backend_within _) rfl _ _
    obtain rfl := (reading_runs _ hcalls hread).2
    cases found with
    | some answered =>
        -- there is no pointer in an empty store
        rcases cachedTagManifest_cases (backend_promises false) hread with
          ⟨_, he, _⟩ | ⟨_, _, hcourse⟩ | ⟨he, _⟩
        · cases he
        · cases hcourse with
          | rebuilt _ hbuild => cases hbuild
          | served hfollows _ _ =>
              cases hfollows with
              | intro hpointer _ _ =>
                  obtain ⟨-, _, hin, -⟩ := pointerIn_of_runs false hpointer
                  obtain ⟨path, -, hin⟩ := Option.bind_eq_some_iff.mp hin
                  rw [hempty] at hin
                  cases hin
        · cases he
    | none =>
        dsimp only at hrest
        unfold buildManifest at hrest
        rw [hstore] at hrest
        obtain ⟨ending, hcourse⟩ := buildCourse_iff.mp hrest
        cases hcourse with
        | @built _ m m' _ ds ds' ds'' tgz built hfetch hbuild hput _ hpointer =>
            obtain ⟨⟨upstream, ⟨_, hupstream⟩, rfl⟩, rfl⟩ := reading_runs none
              (fetchChart_allowed (fun _ _ => trivial) reference) hfetch
            have hall : ∀ b ∈ [built.configBytes, built.layerBytes, built.manifestBytes], b ∈ S :=
              fun b hb => hupstream (Or.inr ⟨proxyHost, built, hbuild, hb⟩)
            obtain ⟨config, layer, rewrites, hbuilt⟩ := assemble_of_buildChart hbuild
            obtain ⟨hconfig, hlayer, hmanifest⟩ := keeps_of_putArtifact hS hempty hbuilt hall hput
            obtain ⟨hin, hsame⟩ := pointerIn_of_putTagPointer false hpointer
            have hkept : ∀ digest found, blobIn false m' digest = some found →
                blobIn false t digest = some found :=
              fun digest _ => (hsame false digest).trans
            refine ⟨ds, _, built, ⟨cs₁, ds' ++ ds'', List.append_assoc ..⟩, hfetch, hbuild, ?_⟩
            exact {
              inside := ⟨hall _ List.mem_cons_self,
                hall _ (List.mem_cons_of_mem _ List.mem_cons_self)⟩
              response := rfl
              pointer := hin
              config := hconfig.mono (hkept _)
              layer := hlayer.mono (hkept _)
              manifest := hmanifest.mono (hkept _)}

/-- What is stored of an artifact is read back just where its manifest is within the limit. -/
theorem readsBack_of_published (hjson : JsonLaws app.crates.json)
    (hlen : ∀ b ∈ S, b.length < 2 ^ 64) (hmax : app.cfg.settings.maxChartBytes < 2 ^ 64)
    (hstore : chart.ephemeral = false) (htag : Digest.parse reference = none) {tgz : Bytes}
    {built : BuiltChart} (hbuild : buildChart app proxyHost tgz = .ok built)
    (h : Published S ⟨proxyHost, chart.fullName⟩ reference built response t) :
    ReadsBack app S caps proxyHost chart reference (helmManifest built.configDigest
        built.layerDigest built.configBytes.length built.layerBytes.length) built.manifestDigest
      response t ↔ built.manifestBytes.length ≤ app.cfg.settings.maxChartBytes := by
  obtain ⟨config, layer, rewrites, rfl⟩ := assemble_of_buildChart hbuild
  obtain ⟨⟨hconfigIn, hlayerIn⟩, hresponse, hpointer, hconfig, hlayer, contentType, hblob, -⟩ := h
  have hform := validHelmManifest_helmManifest hjson (app.crates.sha256 config)
    (app.crates.sha256 layer) (hlen config hconfigIn) (hlen layer hlayerIn)
  dsimp only [assemble] at hresponse hpointer hconfig hlayer hblob ⊢
  generalize encodeManifest (helmManifest (app.crates.sha256 config) (app.crates.sha256 layer)
    config.length layer.length) = data at hresponse hpointer hblob hform ⊢
  constructor
  · intro h
    by_contra hlong
    obtain ⟨hdigest, -⟩ := h t (Later.refl _ _ t)
    obtain ⟨cs', r, u, hrun⟩ := hdigest.exists_runs
    obtain ⟨⟨-, _, hr', -⟩, -⟩ := hdigest.runs hrun
    obtain ⟨⟨-, hanswer⟩, -⟩ := (digest_reads proxyHost chart hblob rfl hform).runs hrun
    rw [if_neg hlong, hr'] at hanswer
    cases hanswer
  · intro hshort u hlater
    have hthere := blobIn_of_later hlater hblob
    refine ⟨?_, ?_, ?_⟩
    · apply (digest_reads proxyHost chart hthere rfl hform).conseq (fun _ hop => hop)
      intro r v ⟨hv, hanswer⟩
      rw [if_pos hshort] at hanswer
      exact ⟨hv, _, hanswer, hresponse.symm⟩
    · have hencoded : (encodePointer ⟨app.crates.sha256 data, mediaTypeManifest,
          data.length⟩).length ≤ ObjectStore.maxTagPointerBytes :=
        Nat.le_trans (length_encodePointer List.mem_cons_self (Nat.lt_of_le_of_lt hshort hmax))
          (by decide)
      unfold AnswersFrom ClassicHandler.manifest
      rw [htag, hstore]
      refine meets_bind (cachedTagManifest_reads false (hlater.pointer.trans hpointer)
        (fun _ => hencoded)
        (hjson.pointer _ List.mem_cons_self (Nat.lt_of_le_of_lt hshort hmax)) ⟨rfl, hshort⟩ hthere
        rfl rfl hform) ?_ (fun _ _ h => nomatch h.1)
      intro found v ⟨hfound, hv⟩
      cases hfound
      exact ⟨hv, _, rfl, hresponse.symm⟩
    · intro d hd
      simp only [helmManifest, List.mem_cons, List.not_mem_nil, or_false] at hd
      rcases hd with rfl | rfl
      · obtain ⟨contentType, hblob, htype⟩ := hconfig.mono fun _ => blobIn_of_later hlater
        exact ⟨config, rfl, rfl, blob_answers hblob htype⟩
      · obtain ⟨contentType, hblob, htype⟩ := hlayer.mono fun _ => blobIn_of_later hlater
        exact ⟨layer, rfl, rfl, blob_answers hblob htype⟩

/-- A chart that has been answered by its tag is read back just where the manifest that the
server makes of the archive is within the limit on charts. -/
theorem readsBack_iff (hjson : JsonLaws app.crates.json) (hS : S.InjOn app.crates.sha256)
    (hlen : ∀ b ∈ S, b.length < 2 ^ 64)
    (hmax : app.cfg.settings.maxChartBytes < 2 ^ 64) (hempty : ∀ path, s.objects path = none)
    (hstore : chart.ephemeral = false) (htag : Digest.parse reference = none)
    (hr : Runs (reliable app S caps .classic)
      (ClassicHandler.manifest app proxyHost chart reference false) s cs (.ok response) t) :
    ∃ fetched tgz built, fetched <:+: cs ∧
      Runs (reliable app S caps .classic) (fetchChart app chart reference) s fetched (.ok tgz) s ∧
      buildChart app proxyHost tgz = .ok built ∧
      response = bytesResponse mediaTypeManifest built.manifestDigest built.manifestBytes false ∧
      let size := manifestLength built.configBytes.length built.layerBytes.length
      (405 ≤ size ∧ size ≤ 443) ∧
      (ReadsBack app S caps proxyHost chart reference (helmManifest built.configDigest
          built.layerDigest built.configBytes.length built.layerBytes.length) built.manifestDigest
        response t ↔ size ≤ app.cfg.settings.maxChartBytes) := by
  obtain ⟨fetched, tgz, built, hfetched, hfetch, hbuild, hpublished⟩ :=
    published_of_runs hS hempty hstore htag hr
  obtain ⟨hconfig, hlayer⟩ := hpublished.inside
  have hsize : built.manifestBytes.length =
      manifestLength built.configBytes.length built.layerBytes.length := by
    obtain ⟨config, layer, rewrites, rfl⟩ := assemble_of_buildChart hbuild
    exact length_encodeManifest ..
  refine ⟨fetched, tgz, built, hfetched, hfetch, hbuild, hpublished.response,
    manifestLength_bounds (hlen _ hconfig) (hlen _ hlayer), ?_⟩
  rw [← hsize]
  exact readsBack_of_published hjson hlen hmax hstore htag hbuild hpublished

end Building

section Witness

def keptPull (maxChartBytes : ℕ) : Program Op Ans (Except AppError Response) :=
  (ClassicHandler.manifest (demoState maxChartBytes) (str "proxy.test") (aliasChart true)
    (str "1.0.0") false).run

/-- The demo's chart is answered with a manifest of 408 bytes. -/
theorem keptPull_runs {maxChartBytes : ℕ} (hmax : maxChartBytes ≤ 500 * 1024 * 1024)
    (hok : ((keptPull maxChartBytes).exec (reliableAnswer demoUpstream .classic)
      State.empty).1.toOption.map (fun response => (response.status, response.bytes)) =
        some (200, some demoBuilt.manifestBytes)) :
    ∃ cs response t, Runs (reliable (demoState maxChartBytes) {b | b ∈ demoContent}
        fullCapabilities .classic) (keptPull maxChartBytes) State.empty cs (.ok response) t ∧
      response.status = 200 ∧ ∀ digest data,
        response = bytesResponse mediaTypeManifest digest data false → data.length = 408 := by
  have hbuilt : demoBuilt.manifestBytes.length = 408 := by decide +kernel
  have hrun := runs_trace (reliableAnswer_reliable (demoUpstream_within hmax) .classic)
    (keptPull maxChartBytes) State.empty
  generalize (keptPull maxChartBytes).exec (reliableAnswer demoUpstream .classic)
    State.empty = final at hrun hok
  obtain ⟨r, t⟩ := final
  cases r with
  | error e => cases hok
  | ok response =>
      obtain ⟨hstatus, hbytes⟩ : response.status = 200 ∧
          response.bytes = some demoBuilt.manifestBytes := by
        simpa [Except.toOption] using hok
      refine ⟨_, response, t, hrun, hstatus, ?_⟩
      rintro digest data rfl
      rw [bytesResponse_eq List.mem_cons_self] at hbytes
      obtain rfl : data = demoBuilt.manifestBytes := by
        simpa [Response.bytes, Except.toOption] using hbytes
      exact hbuilt

theorem demo_readBack : ∃ cs response t manifest digest,
    Runs (reliable (demoState (50 * 1024 * 1024)) {b | b ∈ demoContent} fullCapabilities .classic)
      (keptPull (50 * 1024 * 1024)) State.empty cs (.ok response) t ∧ response.status = 200 ∧
    ReadsBack (demoState (50 * 1024 * 1024)) {b | b ∈ demoContent} fullCapabilities
      (str "proxy.test") (aliasChart true) (str "1.0.0") manifest digest response t := by
  obtain ⟨cs, response, t, hrun, hstatus, -⟩ := @keptPull_runs (50 * 1024 * 1024) (by decide)
    (by decide +kernel)
  have htag : Digest.parse (str "1.0.0") = none := by decide +kernel
  obtain ⟨_, _, _, -, -, -, -, ⟨-, hsize⟩, hiff⟩ := readsBack_iff (compactJson_laws _)
    demoContent_injOn length_demoContent (by decide) (fun _ => rfl) rfl htag hrun
  exact ⟨cs, response, t, _, _, hrun, hstatus, hiff.mpr (hsize.trans (by decide))⟩

/-- A server that accepts charts of 300 bytes starts, and answers with a manifest that it does
not find again. -/
theorem small_limit_loses_manifest :
    validate plainUrls Char.isAlphanum id (demoSettings 300) [] = .ok (demoState 300).cfg ∧
    resolveName plainUrls (str "kept/demo") (demoState 300).cfg.aliases =
      some (.classic (aliasChart true)) ∧
    ∃ cs response t manifest digest,
      Runs (reliable (demoState 300) {b | b ∈ demoContent} fullCapabilities .classic)
        (keptPull 300) State.empty cs (.ok response) t ∧ response.status = 200 ∧
      response = bytesResponse mediaTypeManifest digest (encodeManifest manifest) false ∧
      ¬ ReadsBack (demoState 300) {b | b ∈ demoContent} fullCapabilities (str "proxy.test")
        (aliasChart true) (str "1.0.0") manifest digest response t := by
  refine ⟨demoState_validated (by decide), resolveName_aliasChart true 300, ?_⟩
  obtain ⟨cs, response, t, hrun, hstatus, hlong⟩ := @keptPull_runs 300 (by decide)
    (by decide +kernel)
  have htag : Digest.parse (str "1.0.0") = none := by decide +kernel
  obtain ⟨_, tgz, built, -, -, hbuild, hpublished⟩ := published_of_runs demoContent_injOn
    (fun _ => rfl) rfl htag hrun
  have hdata : built.manifestBytes = encodeManifest (helmManifest built.configDigest
      built.layerDigest built.configBytes.length built.layerBytes.length) := by
    obtain ⟨config, layer, rewrites, rfl⟩ := assemble_of_buildChart hbuild
    rfl
  refine ⟨cs, response, t, helmManifest built.configDigest built.layerDigest
    built.configBytes.length built.layerBytes.length, built.manifestDigest, hrun, hstatus,
    hdata ▸ hpublished.response, ?_⟩
  intro hreads
  have hshort := (readsBack_of_published (compactJson_laws _) length_demoContent (by decide) rfl
    htag hbuild hpublished).mp hreads
  rw [hlong _ _ hpublished.response] at hshort
  exact absurd hshort (by decide)

end Witness

end Helmoci.ReadBack
