import Helmoci.ReliableReads

/-!
# Manifests that are asked for again

A registry's manifest is kept with its media type twice: with the blob, which many tags
share, and in the tag's own pointer. When the tag is asked for again the blob's type goes
first, and the first writer of the blob has chosen it. So the answer is the same as before
just where the body names its type itself or the blob was not kept with another type.
-/
namespace Helmoci.RepeatedManifests
open RustText NameResolver OciDigest JsonDocuments ServerErrors EffectPrograms InterleavedPrograms
  ServerOperations UpstreamRequests BlobStorage RegistryResponses ServerState PassthroughHandler
  ManifestMediaTypes StoredEntries HandlerCalls ProxiedBlobs ManifestCourses StoreWorlds
  ContentAddresses StoredPointers ReliableReads PlainCrates

section Definitions
variable (app : AppState) (S : Set Bytes) (caps : Capabilities)

def Returns (response : Response) (body : Bytes) (mediaType : Str) : Prop :=
  response.status = 200 ∧ response.bytes = some body ∧ response.contentType = some mediaType

/-- What is stored under digests stays as it is, and nobody has written the tag. -/
structure Later (scope : TagScope) (tag : Str) (s t : State) : Prop where
  blobs : ∀ digest o, s.objects (blobKey digest) = some o → t.objects (blobKey digest) = some o
  pointer : pointerIn false t scope tag = pointerIn false s scope tag

/-- Whenever the tag is asked for again by a client that accepts the media type, the answer has
the same body and the same type, and the upstream is not asked. -/
def Repeats (proxyHost : Str) (target : OciTarget) (reference : Str) (body : Bytes)
    (mediaType : Str) (s : State) : Prop :=
  ∀ t, Later ⟨proxyHost, target.fullName⟩ reference s t →
    ∀ again : OciTarget, again.store = true → again.fullName = target.fullName →
      ∀ accept, acceptsMediaType accept mediaType = true →
        Meets (reliable app S caps .passthrough) Reads
          (fun r u => u = t ∧ ∃ response, r = .ok response ∧ Returns response body mediaType)
          (PassthroughHandler.manifest app proxyHost again reference false accept) t

def NamesType (json : JsonCrate) (body : Bytes) : Prop :=
  ∃ value, json.value body = some value ∧ (value.get (str "mediaType")).isSome = true

/-- A manifest without a type of its own that is kept with this content type is taken for one
of the media type. -/
def TakenFor (json : JsonCrate) (body : Bytes) (mediaType contentType : Str) : Prop :=
  normalizedManifestMediaType contentType = some mediaType ∨
    (normalizedManifestMediaType contentType = none ∧
      inferredCachedManifestMediaType json body = some mediaType)

/-- The body names its type, or is not stored with a content type that stands for another one. -/
def TypeAgrees (s : State) (body : Bytes) (mediaType : Str) : Prop :=
  NamesType app.crates.json body ∨
    ∀ o, s.objects (blobKey (app.crates.sha256 body)) = some o →
      ∀ contentType ∈ o.contentType, TakenFor app.crates.json body mediaType contentType

end Definitions

section MediaTypes
variable {json : JsonCrate} {body : Bytes} {mediaType : Str}

/-- The type of a manifest that is read from the storage. -/
def cachedMediaType (json : JsonCrate) (body : Bytes) (declared : Option Str) : Option Str :=
  (manifestMediaType json body declared).orElse fun _ => inferredCachedManifestMediaType json body

theorem manifestMediaType_of_names (h : NamesType json body) (declared declared' : Option Str) :
    manifestMediaType json body declared = manifestMediaType json body declared' := by
  obtain ⟨value, hvalue, hnames⟩ := h
  obtain ⟨own, hown⟩ := Option.isSome_iff_exists.mp hnames
  unfold manifestMediaType
  rw [hvalue, Option.bind_eq_bind, Option.bind_some, Option.bind_eq_bind, Option.bind_some, hown]

/-- A manifest that was accepted and names no type has the declared one. -/
theorem manifestMediaType_of_not_names {declared : Option Str}
    (h : manifestMediaType json body declared = some mediaType) (hn : ¬ NamesType json body)
    (declared' : Option Str) :
    manifestMediaType json body declared' = declared' >>= normalizedManifestMediaType := by
  obtain ⟨value, hvalue, h⟩ := Option.bind_eq_some_iff.mp h
  have hnone : value.get (str "mediaType") = none := by
    rw [← Option.not_isSome_iff_eq_none]
    exact fun hsome => hn ⟨value, hvalue, hsome⟩
  split at h
  · contradiction
  · rename_i hversion
    unfold manifestMediaType
    rw [hvalue, Option.bind_eq_bind, Option.bind_some, if_neg hversion, hnone]

/-- The blob's own content type decides in front of the pointer's. -/
theorem cachedMediaType_iff {declared : Option Str}
    (h : manifestMediaType json body declared = some mediaType) (contentType : Option Str) :
    cachedMediaType json body (contentType.orElse fun _ => some mediaType) = some mediaType ↔
      NamesType json body ∨ ∀ c ∈ contentType, TakenFor json body mediaType c := by
  have hnorm := normalized_of_mem (manifestMediaType_mem h)
  by_cases hn : NamesType json body
  · unfold cachedMediaType
    rw [manifestMediaType_of_names hn _ declared, h]
    exact ⟨fun _ => Or.inl hn, fun _ => rfl⟩
  · unfold cachedMediaType
    rw [manifestMediaType_of_not_names h hn]
    cases contentType with
    | none =>
        rw [Option.orElse_none, Option.bind_eq_bind, Option.bind_some, hnorm]
        exact ⟨fun _ => Or.inr nofun, fun _ => rfl⟩
    | some c =>
        rw [Option.orElse_some, Option.bind_eq_bind, Option.bind_some]
        cases hc : normalizedManifestMediaType c with
        | none =>
            constructor
            · intro h
              refine Or.inr fun c' hc' => ?_
              cases hc'
              exact Or.inr ⟨hc, h⟩
            · intro h
              rcases (h.resolve_left hn) c rfl with h | ⟨-, h⟩
              · rw [hc] at h
                contradiction
              · exact h
        | some m =>
            constructor
            · intro h
              refine Or.inr fun c' hc' => ?_
              cases hc'
              exact Or.inl (hc.trans h)
            · intro h
              rcases (h.resolve_left hn) c rfl with h | ⟨h, -⟩
              · rw [hc] at h
                exact h
              · rw [hc] at h
                contradiction

theorem inferred_mem (h : inferredCachedManifestMediaType json body = some mediaType) :
    mediaType ∈ manifestMediaTypes := by
  unfold inferredCachedManifestMediaType at h
  obtain ⟨value, -, h⟩ := Option.bind_eq_some_iff.mp h
  split at h
  · contradiction
  · split at h
    · cases h
      exact List.mem_cons_self
    · contradiction

theorem cachedMediaType_mem {declared : Option Str}
    (h : cachedMediaType json body declared = some mediaType) : mediaType ∈ manifestMediaTypes := by
  unfold cachedMediaType at h
  cases hown : manifestMediaType json body declared with
  | some own =>
      rw [hown] at h
      cases h
      exact manifestMediaType_mem hown
  | none =>
      rw [hown] at h
      exact inferred_mem h

end MediaTypes

section Answers
variable {app : AppState} {body : Bytes} {mediaType : Str} {digest : Digest}

theorem returns_bytesResponse (h : mediaType ∈ manifestMediaTypes) :
    Returns (bytesResponse mediaType digest body false) body mediaType := by
  rw [bytesResponse_eq h]
  refine ⟨rfl, ?_, rfl⟩
  simp [Response.bytes, Except.toOption]

theorem Returns.unique {response : Response} {body' : Bytes} {mediaType' : Str}
    (h : Returns response body mediaType) (h' : Returns response body' mediaType') :
    body' = body ∧ mediaType' = mediaType :=
  ⟨Option.some.inj (h'.2.1.symm.trans h.2.1), Option.some.inj (h'.2.2.symm.trans h.2.2)⟩

/-- A manifest that is read from the storage. -/
theorem cachedManifestResponse_isBlob {blob : Blob} {contentType : Option Str}
    (h : IsBlob blob body contentType) (hlen : body.length ≤ maxManifestBytes)
    (hhash : app.crates.sha256 body = digest) (declared : Option Str) (headOnly : Bool) :
    cachedManifestResponse app digest blob headOnly declared =
      match cachedMediaType app.crates.json body (contentType.orElse fun _ => declared) with
      | none => .error (unknownManifest digest)
      | some mediaType => .ok (bytesResponse mediaType digest body headOnly) := by
  have hread : readCachedBlob blob maxManifestBytes = .ok body := by
    have hspec := readBounded_spec maxManifestBytes (id : AppError → AppError)
      (some blob.blobMeta.size) blob.data
    have hwhole := hspec.whole
    rw [h.body, h.size] at hwhole
    unfold readCachedBlob
    rw [h.size]
    exact hwhole rfl (fun n hn => (Option.some.inj hn).symm) hlen
  unfold cachedManifestResponse
  rw [hread, h.contentType]
  dsimp only
  rw [if_neg (not_not.mpr hhash)]
  rfl

end Answers

section Runs
variable {app : AppState} {S : Set Bytes} {caps : Capabilities} {proxyHost reference : Str}
  {target : OciTarget} {accept : Option Str} {response : Response} {s t : State}
  {cs : List (Call Op Ans)}

/-- A look into the storage sends no request. -/
theorem requests_of_cachedManifest {r : Except AppError (Option Response)}
    (h : Runs (reliable app S caps .passthrough)
      (cachedManifest app ⟨proxyHost, target.fullName⟩ reference false accept) s cs r t) :
    requests cs = [] := by
  let permit : Permit :=
    {reading (some (⟨proxyHost, target.fullName⟩, reference)) with remote := fun _ => False}
  have hallowed : Ensures Anything permit.allows (OnOk fun _ => True)
      (cachedManifest app ⟨proxyHost, target.fullName⟩ reference false accept) :=
    cachedManifest_allowed (fun _ => rfl) false accept
  have hcalls := (hallowed.follows h.follows).1
  by_contra hne
  obtain ⟨request, hrequest⟩ := List.exists_mem_of_ne_nil _ hne
  obtain ⟨c, hc, hop⟩ := mem_requests hrequest
  have hallows := hcalls c hc
  rw [hop] at hallows
  exact hallows

/-- A manifest that the upstream has answered with comes through the relay. -/
theorem relayed_of_runs (hstore : target.store = true) (hup : requests cs ≠ [])
    (hr : Runs (reliable app S caps .passthrough)
      (PassthroughHandler.manifest app proxyHost target reference false accept) s cs (.ok response)
      t) :
    ∃ upstream cs', responseBytes upstream ∈ S ∧ Runs (reliable app S caps .passthrough)
      (relayManifest app proxyHost target reference false upstream) s cs' (.ok response) t := by
  unfold PassthroughHandler.manifest at hr
  rw [if_pos hstore] at hr
  rcases runs_server_bind_iff.mp hr with ⟨_, he, _⟩ | ⟨cs₁, cached, m, cs₂, hcached, hrest, rfl⟩
  · cases he
  · have hnone := requests_of_cachedManifest hcached
    have hcalls : Ensures (AnswerWithin app S)
        (reading (some (⟨proxyHost, target.fullName⟩, reference))).allows (OnOk fun _ => True)
        (cachedManifest app ⟨proxyHost, target.fullName⟩ reference false accept) :=
      cachedManifest_allowed (fun _ => rfl) false accept
    obtain rfl := (reading_runs _ hcalls hcached).2
    cases cached with
    | some answered =>
        obtain ⟨rfl, -, -⟩ := runs_pure_iff.mp hrest
        rw [List.append_nil] at hup
        exact absurd hnone hup
    | none =>
        dsimp only at hrest
        rw [upstreamManifest_eq] at hrest
        rcases runs_server_bind_iff.mp hrest with
          ⟨_, he, _⟩ | ⟨ds, upstream, m, ds', hsend, hrelay, -⟩
        · cases he
        · obtain ⟨⟨_, hupstream⟩, rfl⟩ := reading_runs none
            (sendToUpstream_allowed (fun _ _ => trivial) ..) hsend
          exact ⟨upstream, ds', hupstream (Or.inl rfl), hrelay⟩

/-- The body and the type that are answered, and where they are kept. -/
structure Kept (app : AppState) (S : Set Bytes) (scope : TagScope) (tag : Str) (s t : State)
    (body : Bytes) (mediaType : Str) : Prop where
  handled : body ∈ S
  bounded : body.length ≤ maxManifestBytes
  accepted : ∃ declared, manifestMediaType app.crates.json body declared = some mediaType
  pointer : pointerIn false t scope tag =
    some (encodePointer ⟨app.crates.sha256 body, mediaType, body.length⟩)
  /-- The blob that was there, or the new one with this type or none. -/
  blob : (∃ o, s.objects (blobKey (app.crates.sha256 body)) = some o ∧
      blobIn false t (app.crates.sha256 body) = some (o.data, o.contentType)) ∨
    (s.objects (blobKey (app.crates.sha256 body)) = none ∧ ∃ kept,
      (∀ c ∈ kept, c = mediaType) ∧ blobIn false t (app.crates.sha256 body) = some (body, kept))

theorem kept_of_relayed {upstream : HttpResponse} (hstore : target.store = true)
    (htag : Digest.parse reference = none) (hupstream : responseBytes upstream ∈ S)
    (hr : Runs (reliable app S caps .passthrough)
      (relayManifest app proxyHost target reference false upstream) s cs (.ok response) t) :
    ∃ body mediaType, Returns response body mediaType ∧
      Kept app S ⟨proxyHost, target.fullName⟩ reference s t body mediaType := by
  unfold relayManifest at hr
  by_cases h404 : upstream.status = 404
  · rw [if_pos h404] at hr
    obtain ⟨-, he, -⟩ := runs_pure_iff.mp hr
    cases he
  · rw [if_neg h404] at hr
    by_cases hsuccess : (!upstream.isSuccess) = true
    · rw [if_pos hsuccess] at hr
      obtain ⟨-, he, -⟩ := runs_pure_iff.mp hr
      cases he
    · rw [if_neg hsuccess] at hr
      dsimp only at hr
      rw [if_neg (by decide)] at hr
      generalize normalizedManifestMediaType ((headerStr upstream (str "content-type")).getD
        mediaTypeManifest) = declared at hr
      cases hcheck : checkManifest app upstream reference declared with
      | error e =>
          rw [hcheck] at hr
          obtain ⟨-, he, -⟩ := runs_liftResult hr
          cases he
      | ok checked =>
          obtain ⟨body, digest, mediaType⟩ := checked
          obtain ⟨hbody, rfl, hmem⟩ := checked_of_checkManifest hcheck
          have haccepted : manifestMediaType app.crates.json body declared = some mediaType ∧
              body.length ≤ maxManifestBytes := by
            unfold checkManifest at hcheck
            obtain ⟨data, hread, hcheck⟩ := bind_eq_ok hcheck
            have hlen := readBounded_length _ _ hread
            dsimp only at hcheck
            rw [htag, Option.filter_none] at hcheck
            dsimp only at hcheck
            cases hmedia : manifestMediaType app.crates.json data declared with
            | none =>
                rw [hmedia] at hcheck
                cases hcheck
            | some found =>
                rw [hmedia] at hcheck
                cases hcheck
                exact ⟨hmedia, hlen⟩
          rw [hcheck, liftResult_ok_bind] at hr
          dsimp only at hr
          rw [if_pos hstore] at hr
          rcases runs_server_bind_iff.mp hr with ⟨_, he, _⟩ | ⟨cs₁, _, m, cs₂, hkeep, hrest, -⟩
          · cases he
          · obtain ⟨-, hresponse, rfl⟩ := runs_pure_iff.mp hrest
            cases hresponse
            refine ⟨body, mediaType, returns_bytesResponse hmem, ?_⟩
            unfold storeManifest at hkeep
            rcases runs_server_bind_iff.mp hkeep with ⟨_, he, _⟩ | ⟨ds, _, m, ds', hput, hpoint, -⟩
            · cases he
            · rw [htag, Option.isNone_none, if_pos rfl] at hpoint
              obtain ⟨hpointer, hsame⟩ := pointerIn_of_putTagPointer false hpoint
              refine ⟨hbody ▸ hupstream, haccepted.2, ⟨declared, haccepted.1⟩, hpointer, ?_⟩
              rw [hsame false]
              rcases putBlob_runs hput with ⟨hthere, rfl⟩ | ⟨habsent, kept, hkept, rfl⟩
              · obtain ⟨o, ho⟩ := Option.isSome_iff_exists.mp hthere
                refine Or.inl ⟨o, ho, ?_⟩
                dsimp only [blobIn]
                rw [ho]
                rfl
              · refine Or.inr ⟨habsent, kept, hkept, ?_⟩
                dsimp only [blobIn]
                rw [State.store_objects, if_pos rfl]
                rfl

/-- A manifest that is kept is answered from the storage, with the type that it is taken for. -/
theorem manifest_reads (hjson : JsonLaws app.crates.json) {body : Bytes} {mediaType : Str}
    {contentType : Option Str} (again : OciTarget) (hstore : again.store = true)
    (hname : again.fullName = target.fullName) (htag : Digest.parse reference = none)
    (accept : Option Str) (haccept : acceptsMediaType accept mediaType = true)
    (hmem : mediaType ∈ manifestMediaTypes)
    (hlen : body.length ≤ maxManifestBytes)
    (hpointer : pointerIn false t ⟨proxyHost, target.fullName⟩ reference =
      some (encodePointer ⟨app.crates.sha256 body, mediaType, body.length⟩))
    (hblob : blobIn false t (app.crates.sha256 body) = some (body, contentType)) :
    Meets (reliable app S caps .passthrough) Reads
      (fun r u => u = t ∧ r = match cachedMediaType app.crates.json body
          (contentType.orElse fun _ => some mediaType) with
        | none => .error (unknownManifest (app.crates.sha256 body))
        | some m => .ok (bytesResponse m (app.crates.sha256 body) body false))
      (PassthroughHandler.manifest app proxyHost again reference false accept) t := by
  have hsize : body.length < 2 ^ 64 := Nat.lt_of_le_of_lt hlen (by decide)
  have hshort : (encodePointer ⟨app.crates.sha256 body, mediaType, body.length⟩).length ≤
      BlobStorage.ObjectStore.maxTagPointerBytes :=
    Nat.le_trans (length_encodePointer hmem hsize) (by decide)
  have hcached : Meets (reliable app S caps .passthrough) Reads
      (fun r u => u = t ∧ r = match cachedMediaType app.crates.json body
          (contentType.orElse fun _ => some mediaType) with
        | none => .error (unknownManifest (app.crates.sha256 body))
        | some m => .ok (some (bytesResponse m (app.crates.sha256 body) body false)))
      (cachedManifest app ⟨proxyHost, again.fullName⟩ reference false accept) t := by
    unfold cachedManifest
    rw [htag, hname]
    refine meets_bind (getTagPointer_reads false hpointer (fun _ => hshort)
      (hjson.pointer _ hmem hsize)) ?_ (fun _ _ h => nomatch h.1)
    intro found u ⟨hfound, hu⟩
    cases hfound
    subst hu
    dsimp only
    rw [normalized_of_mem hmem]
    dsimp only
    rw [haccept, Bool.not_true, if_neg Bool.false_ne_true]
    refine meets_bind (getBlob_reads false (app.crates.sha256 body)) ?_ ?_
    · intro found v ⟨hfound, hv⟩
      rw [hblob] at hfound
      obtain ⟨blob, hfound, hisBlob⟩ := hfound
      cases hfound
      dsimp only
      rw [cachedManifestResponse_isBlob hisBlob hlen rfl]
      cases cachedMediaType app.crates.json body (contentType.orElse fun _ => some mediaType) with
      | none => exact ⟨hv, rfl⟩
      | some m => exact ⟨hv, rfl⟩
    · intro e v ⟨hfound, _⟩
      rw [hblob] at hfound
      obtain ⟨_, hfound, -⟩ := hfound
      cases hfound
  unfold PassthroughHandler.manifest
  rw [if_pos hstore]
  cases htype : cachedMediaType app.crates.json body
    (contentType.orElse fun _ => some mediaType) with
  | none =>
      rw [htype] at hcached
      refine meets_bind hcached (fun _ _ h => nomatch h.2) ?_
      intro e u ⟨hu, he⟩
      cases he
      exact ⟨hu, rfl⟩
  | some m =>
      rw [htype] at hcached
      refine meets_bind hcached ?_ (fun _ _ h => nomatch h.2)
      intro found u ⟨hu, hfound⟩
      cases hfound
      exact ⟨hu, rfl⟩

theorem Later.refl (scope : TagScope) (tag : Str) (s : State) : Later scope tag s s :=
  ⟨fun _ _ h => h, rfl⟩

theorem blobIn_of_later {scope : TagScope} {tag : Str} (h : Later scope tag s t) {digest : Digest}
    {found : Bytes × Option Str} (hs : blobIn false s digest = some found) :
    blobIn false t digest = some found := by
  obtain ⟨o, ho, rfl⟩ := Option.map_eq_some_iff.mp hs
  dsimp only [blobIn]
  rw [h.blobs digest o ho]
  rfl

/-- With the manifest kept so, the tag repeats just where the type it is taken for is the one
it was answered with. -/
theorem repeats_iff (hjson : JsonLaws app.crates.json) {body : Bytes} {mediaType : Str}
    {contentType : Option Str} (hstore : target.store = true) (htag : Digest.parse reference = none)
    (hmem : mediaType ∈ manifestMediaTypes) (hlen : body.length ≤ maxManifestBytes)
    (hpointer : pointerIn false t ⟨proxyHost, target.fullName⟩ reference =
      some (encodePointer ⟨app.crates.sha256 body, mediaType, body.length⟩))
    (hblob : blobIn false t (app.crates.sha256 body) = some (body, contentType)) :
    Repeats app S caps proxyHost target reference body mediaType t ↔
      cachedMediaType app.crates.json body (contentType.orElse fun _ => some mediaType) =
        some mediaType := by
  constructor
  · intro h
    have hall := h t (Later.refl _ _ _) target hstore rfl none rfl
    have hreads := fun caps => @manifest_reads app S caps _ _ target t hjson _ _ _ target hstore
      rfl htag none rfl hmem hlen hpointer hblob
    obtain ⟨cs, r, u, hr⟩ := hall.exists_runs
    obtain ⟨⟨-, response, rfl, hreturns⟩, -⟩ := hall.runs hr
    obtain ⟨⟨-, hanswer⟩, -⟩ := (hreads caps).runs hr
    cases htype : cachedMediaType app.crates.json body
      (contentType.orElse fun _ => some mediaType) with
    | none =>
        rw [htype] at hanswer
        cases hanswer
    | some m =>
        rw [htype] at hanswer
        cases hanswer
        have hm : Returns (bytesResponse m (app.crates.sha256 body) body false) body m :=
          returns_bytesResponse (cachedMediaType_mem htype)
        exact congrArg some (hm.unique hreturns).2.symm
  · intro h u hlater again hagain hname accept haccept
    have hreads := @manifest_reads app S caps _ _ target u hjson _ _ _ again hagain hname htag
      accept haccept hmem hlen (hlater.pointer.trans hpointer) (blobIn_of_later hlater hblob)
    rw [h] at hreads
    exact hreads.conseq (fun _ hop => hop)
      fun r v hv => ⟨hv.1, _, hv.2, returns_bytesResponse hmem⟩

/-- Behind any requests, a manifest that the upstream has answered with is answered again in
the same way just where its type agrees with what the blob was stored with before. -/
theorem manifest_repeats_iff (hjson : JsonLaws app.crates.json) (hS : S.InjOn app.crates.sha256)
    (hlen : ∀ b ∈ S, b.length < 2 ^ 64)
    {x : System Op Ans (Except AppError Response) State Request}
    (hx : Reachable (fun request => faulty app S (writer request))
      (fun (request : Request) p => p = (request.serve app).run) State.empty x)
    (hstore : target.store = true) (htag : Digest.parse reference = none)
    (hr : Runs (reliable app S caps .passthrough)
      (PassthroughHandler.manifest app proxyHost target reference false accept) x.1 cs
      (.ok response) t) (hup : requests cs ≠ []) {body : Bytes} {mediaType : Str}
    (hreturns : Returns response body mediaType) :
    Repeats app S caps proxyHost target reference body mediaType t ↔
      TypeAgrees app x.1 body mediaType := by
  have hempty : Sound app S State.empty := ⟨nofun, nofun⟩
  obtain ⟨hsound, -⟩ := hx.safe (requests_inOrder hjson hlen) hempty
  obtain ⟨upstream, cs', hupstream, hrelay⟩ := relayed_of_runs hstore hup hr
  obtain ⟨body', mediaType', hreturned, hkept⟩ := kept_of_relayed hstore htag hupstream hrelay
  obtain ⟨rfl, rfl⟩ := hreturns.unique hreturned
  obtain ⟨declared, haccepted⟩ := hkept.accepted
  have hmem := manifestMediaType_mem haccepted
  unfold TypeAgrees
  rcases hkept.blob with ⟨o, ho, hblob⟩ | ⟨habsent, kept, hown, hblob⟩
  · -- the blob was there with the same bytes, and keeps its content type
    obtain ⟨hin, hhash⟩ := hsound.blobs _ o ho
    obtain rfl : o.data = body' := hS hin hkept.handled hhash
    rw [repeats_iff hjson hstore htag hmem hkept.bounded hkept.pointer hblob,
      cachedMediaType_iff haccepted]
    apply or_congr_right
    constructor
    · intro h o' ho' c hc
      rw [ho] at ho'
      cases ho'
      exact h c hc
    · intro h c hc
      exact h o ho c hc
  · rw [repeats_iff hjson hstore htag hmem hkept.bounded hkept.pointer hblob,
      cachedMediaType_iff haccepted]
    apply or_congr_right
    constructor
    · intro _ o' ho'
      rw [habsent] at ho'
      cases ho'
    · intro _ c hc
      rw [hown c hc]
      exact Or.inl (normalized_of_mem hmem)

end Runs

section Witness

def bareProgram : Program Op Ans (Except AppError Response) :=
  (PassthroughHandler.manifest plainState (str "proxy.test") storedTarget (str "1.0") false
    none).run

/-- Nothing was stored before. -/
theorem bareManifest_repeated : ∃ cs response t,
    Runs (reliable plainState {bareManifest} fullCapabilities .passthrough) bareProgram
      State.empty cs (.ok response) t ∧ Returns response bareManifest mediaTypeManifest ∧
    Repeats plainState {bareManifest} fullCapabilities (str "proxy.test") storedTarget (str "1.0")
      bareManifest mediaTypeManifest t := by
  have hrun := runs_trace (reliableAnswer_reliable bareUpstream_within .passthrough)
    bareProgram State.empty
  have hok : ((bareProgram.exec (reliableAnswer bareUpstream .passthrough)
      State.empty).1.toOption.map fun response => (response.status, response.bytes,
        response.contentType)) = some (200, some bareManifest, some mediaTypeManifest) := by
    decide +kernel
  have hup : requests (bareProgram.trace (reliableAnswer bareUpstream .passthrough)
      State.empty) ≠ [] := by
    decide +kernel
  generalize bareProgram.exec (reliableAnswer bareUpstream .passthrough)
    State.empty = final at hrun hok
  obtain ⟨r, t⟩ := final
  cases r with
  | error e => cases hok
  | ok response =>
      have hreturns : Returns response bareManifest mediaTypeManifest := by
        simpa [Returns, Except.toOption] using hok
      refine ⟨_, response, t, hrun, hreturns, (manifest_repeats_iff (compactJson_laws _)
        (Set.injOn_singleton _ _) length_bareManifest .start rfl (by decide +kernel) hrun hup
        hreturns).mpr (Or.inr ?_)⟩
      intro o ho
      cases ho

def bareBlob : Program Op Ans (Except AppError Response) :=
  (PassthroughHandler.blob plainState storedTarget bareDigest.asStr false).run

/-- The store in which the same bytes have been kept as a blob. -/
def behindBlob : State :=
  (bareBlob.exec (reliableAnswer bareUpstream .passthrough) State.empty).2

/-- The manifest is kept, but its blob has another type. -/
theorem bareManifest_retyped : ∃ r,
    Reachable (fun request => faulty plainState {bareManifest} (writer request))
      (fun (request : Request) p => p = (request.serve plainState).run) State.empty
      (behindBlob, [(.blob storedTarget bareDigest.asStr false, .pure r)]) ∧
    ∃ cs response t, Runs (reliable plainState {bareManifest} fullCapabilities .passthrough)
        bareProgram behindBlob cs (.ok response) t ∧ requests cs ≠ [] ∧
      Returns response bareManifest mediaTypeManifest ∧
      ¬ Repeats plainState {bareManifest} fullCapabilities (str "proxy.test") storedTarget
        (str "1.0") bareManifest mediaTypeManifest t := by
  have hblobRun := runs_trace (reliableAnswer_reliable bareUpstream_within .passthrough)
    bareBlob State.empty
  have hstart : Reachable (fun request => faulty plainState {bareManifest} (writer request))
      (fun (request : Request) p => p = (request.serve plainState).run) State.empty
      (State.empty, [(.blob storedTarget bareDigest.asStr false, bareBlob)]) :=
    .step .start (.start rfl)
  have hfaulty : Runs (faulty plainState {bareManifest} .passthrough) bareBlob State.empty _
      _ behindBlob := hblobRun.mono fun _ _ _ _ => faulty_of_reliable
  refine ⟨_, hstart.runs [] hfaulty, ?_⟩
  have hrun := runs_trace (reliableAnswer_reliable bareUpstream_within .passthrough)
    bareProgram behindBlob
  have hok : ((bareProgram.exec (reliableAnswer bareUpstream .passthrough)
      behindBlob).1.toOption.map fun response => (response.status, response.bytes,
        response.contentType)) = some (200, some bareManifest, some mediaTypeManifest) := by
    decide +kernel
  have hup : requests (bareProgram.trace (reliableAnswer bareUpstream .passthrough)
      behindBlob) ≠ [] := by
    decide +kernel
  have hkept : pointerIn false (bareProgram.exec
        (reliableAnswer bareUpstream .passthrough) behindBlob).2
        ⟨str "proxy.test", storedTarget.fullName⟩ (str "1.0") = some (encodePointer
          ⟨plainState.crates.sha256 bareManifest, mediaTypeManifest, bareManifest.length⟩) ∧
      blobIn false (bareProgram.exec (reliableAnswer bareUpstream .passthrough)
        behindBlob).2 (plainState.crates.sha256 bareManifest) =
        some (bareManifest, some octetStreamMediaType) := by
    decide +kernel
  generalize bareProgram.exec (reliableAnswer bareUpstream .passthrough)
    behindBlob = final at hrun hok hkept
  obtain ⟨r, t⟩ := final
  cases r with
  | error e => cases hok
  | ok response =>
      refine ⟨_, response, t, hrun, hup, by simpa [Returns, Except.toOption] using hok, ?_⟩
      have hshort : bareManifest.length ≤ maxManifestBytes := by decide +kernel
      have htag : Digest.parse (str "1.0") = none := by decide +kernel
      intro hrepeats
      have htype : cachedMediaType plainState.crates.json bareManifest
          (some octetStreamMediaType) = some mediaTypeManifest :=
        (repeats_iff (compactJson_laws _) rfl htag List.mem_cons_self hshort hkept.1 hkept.2).mp
          hrepeats
      exact absurd htype (by decide +kernel)

end Witness

end Helmoci.RepeatedManifests
