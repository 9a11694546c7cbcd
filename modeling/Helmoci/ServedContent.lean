import Helmoci.ContentAddresses
import Helmoci.ProxiedBlobs
import Helmoci.Router
import Helmoci.VerifiedStreams

/-!
# The content that clients receive

A client takes an answer for the content of a digest if the answer names the digest and
as many bytes arrive as it promises. Over stores whose entries have the right hashes these
bytes have that hash, and the digest is the one that the client has asked for. The one
exception is a blob that is sent on while it is read from its upstream, where the alias
stores nothing or the blob is over the limit: its hash is left to the client.
-/
namespace Helmoci.ServedContent
open RustText NameResolver OciDigest OciPaths JsonDocuments JsonValues ServerErrors EffectPrograms
  InterleavedPrograms ServerOperations UpstreamRequests ClassicUpstream RegistryTokens BlobStorage
  RegistryResponses ChartBuild ServerState ClassicHandler PassthroughHandler StoredEntries
  HandlerCalls ContentAddresses ProxiedBlobs VerifiedStreams TagPages PullAuth Routes Router
  PlainCrates

section Definitions

/-- A response to a `GET` whose bytes have all arrived. -/
structure Received (r : Response) (digest : Digest) (data : Bytes) : Prop where
  status : r.status = 200
  named : (str "docker-content-digest", .text digest.asStr) ∈ r.headers
  length : ∀ v, (str "content-length", v) ∈ r.headers → v = .text (decimal data.length)
  bytes : r.bytes = some data

/-- What is received has its hash and is what was asked for by a digest. -/
def Faithful (state : AppState) (asked : Option Digest) (exempt : Bytes → Prop) (r : Response) :
    Prop :=
  ∀ digest data, Received r digest data →
    (∀ a ∈ asked, a = digest) ∧ (state.crates.sha256 data = digest ∨ exempt data)

variable (state : AppState) (decode : PathDecoder) (req : ClientRequest)

/-- The digest of a manifest or a blob that is asked for by it. -/
def askedDigest : Option Digest :=
  match parseOciPath decode req.path with
  | .manifest _ reference => Digest.parse reference
  | .blob _ digest => Digest.parse digest
  | _ => none

/-- Bytes that the alias does not keep: it stores nothing, or not so much. -/
def Unkept (target : OciTarget) (data : Bytes) : Prop :=
  target.store = true → state.cfg.settings.maxChartBytes < data.length

/-- The bytes of a blob that is sent on while it is read from its upstream. -/
def SentOn (data : Bytes) : Prop :=
  ∃ name digest target, parseOciPath decode req.path = .blob name digest ∧
    resolveName state.crates.url name state.cfg.aliases = some (.oci target) ∧
    Unkept state target data

end Definitions

section Responses
variable {state : AppState} {asked : Option Digest} {exempt : Bytes → Prop} {digest : Digest}

theorem asStr_inj {d d' : Digest} : d.asStr = d'.asStr ↔ d = d' := by
  constructor
  · intro h
    have hparse := congrArg Digest.parse h
    simpa using hparse
  · exact congrArg _

theorem decimal_inj {m n : ℕ} : decimal m = decimal n ↔ m = n := by
  constructor
  · intro h
    rw [← JsonNumbers.ofDigitChars_decimal m, h, JsonNumbers.ofDigitChars_decimal]
  · exact congrArg _

/-- A body that is read to its end. -/
theorem flatten_mapM_eq_some_iff {E : Type} {chunks : List (Except E Bytes)} {data : Bytes} :
    (chunks.mapM Except.toOption).map List.flatten = some data ↔ collected chunks = (data, none) := by
  induction chunks generalizing data with
  | nil => simp [collected]
  | cons chunk chunks ih =>
      cases chunk with
      | error e => simp [collected, Except.toOption]
      | ok chunk =>
          simp only [List.mapM_cons, Except.toOption, Option.bind_eq_bind, Option.bind_some,
            Option.pure_def, collected, Prod.mk.injEq]
          constructor
          · intro h
            obtain ⟨pieces, hpieces, rfl⟩ := Option.map_eq_some_iff.mp h
            obtain ⟨rest, hrest, hcons⟩ := Option.bind_eq_some_iff.mp hpieces
            cases hcons
            have hcollected : collected chunks = (rest.flatten, none) :=
              ih.mp (Option.map_eq_some_iff.mpr ⟨rest, hrest, rfl⟩)
            rw [hcollected]
            exact ⟨rfl, rfl⟩
          · rintro ⟨rfl, hnone⟩
            obtain ⟨rest, hrest, hflat⟩ := Option.map_eq_some_iff.mp (ih.mpr (Prod.ext rfl hnone))
            rw [hrest]
            change some (chunk ++ rest.flatten) = _
            rw [hflat]

theorem bytes_eq_some_iff {r : Response} {data : Bytes} :
    r.bytes = some data ↔ collected r.body = (data, none) := flatten_mapM_eq_some_iff

/-- An answer without a digest is not content. -/
theorem faithful_of_unnamed {r : Response}
    (h : str "docker-content-digest" ∉ r.headers.map Prod.fst) :
    Faithful state asked exempt r := by
  intro digest data hr
  exact absurd (List.mem_map_of_mem hr.named) h

theorem faithful_intoResponse (e : AppError) : Faithful state asked exempt (intoResponse e) := by
  apply faithful_of_unnamed
  change _ ∉ [_, _, _]
  decide

theorem faithful_tagsResponse (fullName : Str) (page : Page) :
    Faithful state asked exempt (tagsResponse fullName page false) := by
  apply faithful_of_unnamed
  cases hlink : page.link with
  | none =>
      rw [tagsResponse, hlink]
      change _ ∉ [str "content-type", str "content-length", str "docker-distribution-api-version"]
      decide
  | some link =>
      rw [tagsResponse, hlink]
      change _ ∉ [str "content-type", str "content-length", str "docker-distribution-api-version",
        str "link"]
      decide

theorem faithful_tagListResponse (values : ValueCrate) (document : Value) (link : Option Str) :
    Faithful state asked exempt (tagListResponse state values document link false) := by
  apply faithful_of_unnamed
  cases hlink : link.bind HeaderValue.fromStr with
  | none =>
      rw [tagListResponse, hlink]
      change _ ∉ [str "content-type", str "content-length", str "etag",
        str "docker-distribution-api-version"]
      decide
  | some link =>
      rw [tagListResponse, hlink]
      change _ ∉ [str "content-type", str "content-length", str "etag",
        str "docker-distribution-api-version", str "link"]
      decide

theorem mem_base {contentType : Str} {size : ℕ} {headers : HeaderMap}
    (h : base contentType digest size = .ok headers) {v : HeaderValue}
    (hv : (str "docker-content-digest", v) ∈ headers) : v = .text digest.asStr := by
  have hother : ∀ name ∈ [str "content-type", str "content-length", str "etag",
      str "docker-distribution-api-version"], str "docker-content-digest" ≠ name := by decide
  unfold base at h
  split at h
  · contradiction
  · cases h
    simp only [List.mem_cons, Prod.mk.injEq, apiVersion, List.not_mem_nil, or_false] at hv
    rcases hv with ⟨h, -⟩ | ⟨h, -⟩ | ⟨-, hv⟩ | ⟨h, -⟩ | ⟨h, -⟩
    · exact absurd h (hother _ (by simp))
    · exact absurd h (hother _ (by simp))
    · exact hv
    · exact absurd h (hother _ (by simp))
    · exact absurd h (hother _ (by simp))

/-- Content is received as it is, unless it breaks off. -/
theorem faithful_contentResponse {contentType : Str} {size : ℕ}
    {body : List (Except AppError Bytes)} (hasked : ∀ a ∈ asked, a = digest)
    (h : ∀ data, collected body = (data, none) → state.crates.sha256 data = digest) :
    Faithful state asked exempt (contentResponse contentType digest size body false) := by
  unfold contentResponse
  split
  · exact faithful_intoResponse _
  · rename_i headers hbase
    intro d data hr
    have hd := mem_base hbase hr.named
    obtain rfl : d = digest := asStr_inj.mp (HeaderValue.text.inj hd)
    exact ⟨hasked, Or.inl (h data (bytes_eq_some_iff.mp hr.bytes))⟩

theorem faithful_bytes {contentType : Str} {data : Bytes} (hasked : ∀ a ∈ asked, a = digest)
    (h : state.crates.sha256 data = digest) :
    Faithful state asked exempt (bytesResponse contentType digest data false) := by
  apply faithful_contentResponse hasked
  intro data' hdata
  simp only [collected, List.append_nil, Prod.mk.injEq, and_true] at hdata
  rw [← hdata]
  exact h

/-- The headers are those given, where all are header values. -/
theorem mem_buildResponse {headers : List (Str × Str)} {body : List (Except AppError Bytes)}
    {r : Response} (h : buildResponse headers body = .ok r) : r.body = body ∧
      ∀ name v, (name, v) ∈ r.headers ↔
        ∃ s, (name, s) ∈ headers ∧ HeaderValue.fromStr s = some v := by
  unfold buildResponse at h
  split at h
  · contradiction
  · rename_i values hvalues
    cases h
    refine ⟨rfl, ?_⟩
    intro name v
    dsimp only
    induction headers generalizing values with
    | nil =>
        cases hvalues
        simp
    | cons q headers ih =>
        simp only [List.mapM_cons, Option.bind_eq_bind, Option.pure_def,
          Option.bind_eq_some_iff, Option.map_eq_some_iff] at hvalues
        obtain ⟨_, ⟨value, hvalue, rfl⟩, rest, hrest, hvalues⟩ := hvalues
        cases hvalues
        obtain ⟨name', text⟩ := q
        simp only [List.mem_cons, Prod.mk.injEq, ih rest hrest]
        constructor
        · rintro (⟨rfl, rfl⟩ | ⟨s, hs, hv⟩)
          · exact ⟨text, Or.inl ⟨rfl, rfl⟩, hvalue⟩
          · exact ⟨s, Or.inr hs, hv⟩
        · rintro ⟨s, ⟨rfl, rfl⟩ | hs, hv⟩
          · exact Or.inl ⟨rfl, Option.some.inj (hv.symm.trans hvalue)⟩
          · exact Or.inr ⟨s, hs, hv⟩

/-- What is streamed on is as long as the upstream says. -/
theorem streamedBlob_received {response : HttpResponse} {contentType : Str}
    {body : List (Except AppError Bytes)} {r : Response}
    (h : streamedBlob response digest contentType body = .ok r) {d : Digest} {data : Bytes}
    (hr : Received r d data) : d = digest ∧ collected body = (data, none) ∧
      ∀ n ∈ response.contentLength, n = data.length := by
  have hother : ∀ name ∈ [str "content-type", str "docker-distribution-api-version",
      str "content-length", str "etag"], str "docker-content-digest" ≠ name := by decide
  unfold streamedBlob at h
  obtain ⟨rfl, hheaders⟩ := mem_buildResponse h
  refine ⟨?_, bytes_eq_some_iff.mp hr.bytes, ?_⟩
  · obtain ⟨s, hs, hvalue⟩ := (hheaders _ _).mp hr.named
    simp only [List.mem_cons, List.mem_append, Prod.mk.injEq, List.mem_map] at hs
    rcases hs with ⟨h, -⟩ | ⟨-, rfl⟩ | ⟨h, -⟩ | ⟨n, -, h, -⟩ | ⟨etag, -, h, -⟩
    · exact absurd h (hother _ (by simp))
    · rw [fromStr_digest, Option.some.injEq, HeaderValue.text.injEq] at hvalue
      exact (asStr_inj.mp hvalue).symm
    · exact absurd h (hother _ (by simp))
    · exact absurd h.symm (hother _ (by simp))
    · exact absurd h.symm (hother _ (by simp))
  · intro n hn
    have hgiven : (str "content-length", .text (decimal n)) ∈ r.headers := by
      refine (hheaders _ _).mpr ⟨decimal n, ?_, fromStr_decimal n⟩
      simp only [List.mem_cons, List.mem_append, List.mem_map]
      exact Or.inr (Or.inr (Or.inr (Or.inl ⟨n, Option.mem_toList.mpr hn, rfl⟩)))
    exact decimal_inj.mp (HeaderValue.text.inj (hr.length _ hgiven))

end Responses

section Handlers
variable {state : AppState} {asked : Option Digest} {exempt : Bytes → Prop}
  {R : (op : Op) → Ans op → Prop}

/-- Nothing is needed of this part of a request. -/
theorem unobserved {A : Type} {p : Server A} :
    Ensures R (fun _ => True) (OnOk fun _ => True) p :=
  ensures_of_forall (fun _ => trivial) onOk_true

theorem faithful_digestManifest {digest : Digest} {blob : Blob} {maxBytes : ℕ} {r : Response}
    (h : digestManifestResponse state digest blob false maxBytes = .ok r)
    (hasked : ∀ a ∈ asked, a = digest) : Faithful state asked exempt r := by
  unfold digestManifestResponse at h
  dsimp only at h
  split at h
  · contradiction
  · split at h
    · contradiction
    · contradiction
    · split at h
      · contradiction
      · rename_i hchecked
        cases h
        exact faithful_bytes hasked (by tauto)

theorem cachedTagManifest_faithful {store : Storage} {scope : TagScope} {reference : Str}
    {maxBytes : ℕ} (hasked : asked = none) : Ensures R (fun _ => True)
      (OnOk fun found => ∀ r ∈ found, Faithful state asked exempt r)
      (cachedTagManifest state store scope reference false maxBytes) := by
  unfold cachedTagManifest
  refine ensures_bind unobserved ?_
  intro pointer _
  cases pointer with
  | none => exact nofun
  | some pointer =>
      dsimp only
      split
      · exact nofun
      · refine ensures_bind unobserved ?_
        intro blob _
        cases blob with
        | none => exact nofun
        | some blob =>
            dsimp only
            split
            · exact nofun
            · split
              · rename_i response hresponse
                rintro _ ⟨⟩
                exact faithful_digestManifest hresponse (by simp [hasked])
              · exact nofun
              · trivial

theorem classicManifest_faithful (proxyHost : Str) (chart : ClassicChart) (reference : Str) :
    Ensures R (fun _ => True) (OnOk (Faithful state (Digest.parse reference) exempt))
      (ClassicHandler.manifest state proxyHost chart reference false) := by
  unfold ClassicHandler.manifest
  cases hd : Digest.parse reference with
  | some digest =>
      refine ensures_bind unobserved ?_
      intro blob _
      cases blob with
      | none => trivial
      | some blob =>
          exact ensures_liftResult fun r hr => faithful_digestManifest hr (by simp)
  | none =>
      refine ensures_bind (Q := fun found => ∀ r ∈ found, Faithful state none exempt r)
        (cachedTagManifest_faithful rfl) ?_
      intro found hfound
      cases found with
      | some r => exact hfound r rfl
      | none =>
          dsimp only
          rw [buildManifest_eq]
          refine ensures_bind unobserved ?_
          intro tgz _
          unfold publish
          refine ensures_bind (ensures_liftResult fun built hbuilt => hbuilt) ?_
          intro built hbuilt
          have hkeeps := @keepsArtifact_of_build state none proxyHost tgz built hbuilt
          refine ensures_bind unobserved fun _ _ => ensures_bind unobserved fun _ _ => ?_
          exact faithful_bytes (by simp) hkeeps.manifest

theorem faithful_cachedManifest {digest : Digest} {blob : Blob} {declared : Option Str}
    {r : Response} (h : cachedManifestResponse state digest blob false declared = .ok r)
    (hasked : ∀ a ∈ asked, a = digest) : Faithful state asked exempt r := by
  unfold cachedManifestResponse at h
  dsimp only at h
  split at h
  · contradiction
  · split at h
    · contradiction
    · rename_i hhash
      split at h
      · contradiction
      · cases h
        exact faithful_bytes hasked (not_not.mp hhash)

theorem cachedManifest_faithful (scope : TagScope) (reference : Str) (accept : Option Str) :
    Ensures R (fun _ => True)
      (OnOk fun found => ∀ r ∈ found, Faithful state (Digest.parse reference) exempt r)
      (cachedManifest state scope reference false accept) := by
  have content : ∀ {digest : Digest} {asked : Option Digest} {blob : Blob} {declared : Option Str},
      (∀ a ∈ asked, a = digest) → Ensures R (fun _ => True)
        (OnOk fun found => ∀ r ∈ found, Faithful state asked exempt r) (do
          let response ← liftResult (cachedManifestResponse state digest blob false declared)
          return some response : Server (Option Response)) := by
    intro digest asked blob declared hasked
    refine ensures_bind (ensures_liftResult fun r hr => hr) ?_
    rintro r hr _ ⟨⟩
    exact faithful_cachedManifest hr hasked
  unfold cachedManifest
  cases hd : Digest.parse reference with
  | some digest =>
      refine ensures_bind unobserved ?_
      intro blob _
      cases blob with
      | none => exact nofun
      | some blob => exact content (by simp)
  | none =>
      refine ensures_bind unobserved ?_
      intro pointer _
      cases pointer with
      | none => exact nofun
      | some pointer =>
          dsimp only
          split
          · exact nofun
          · split
            · exact nofun
            · refine ensures_bind unobserved ?_
              intro blob _
              cases blob with
              | none => exact nofun
              | some blob => exact content (by simp)

theorem asked_of_checkManifest {response : HttpResponse} {reference : Str} {declared : Option Str}
    {data : Bytes} {digest : Digest} {mediaType : Str}
    (h : checkManifest state response reference declared = .ok (data, digest, mediaType)) :
    ∀ a ∈ Digest.parse reference, a = digest := by
  unfold checkManifest at h
  obtain ⟨data', -, h⟩ := bind_eq_ok h
  dsimp only at h
  split at h
  · contradiction
  · rename_i hrequested
    split at h
    · contradiction
    · cases h
      intro a ha
      rw [Option.mem_def.mp ha, Option.filter_some] at hrequested
      by_contra hne
      simp [hne] at hrequested

theorem passthroughManifest_faithful (proxyHost : Str) (target : OciTarget) (reference : Str)
    (accept : Option Str) : Ensures R (fun _ => True)
      (OnOk (Faithful state (Digest.parse reference) exempt))
      (PassthroughHandler.manifest state proxyHost target reference false accept) := by
  have upstream : Ensures R (fun _ => True) (OnOk (Faithful state (Digest.parse reference) exempt))
      (upstreamManifest state proxyHost target reference false accept) := by
    rw [upstreamManifest_eq]
    refine ensures_bind unobserved ?_
    intro response _
    unfold relayManifest
    split
    · trivial
    · split
      · trivial
      · refine ensures_bind (ensures_liftResult fun checked h => h) ?_
        intro ⟨data, digest, mediaType⟩ hchecked
        have hfaithful := @faithful_bytes state (Digest.parse reference) exempt digest mediaType data
          (asked_of_checkManifest hchecked) (digest_of_checkManifest hchecked)
        dsimp only
        split
        · exact ensures_bind unobserved fun _ _ => hfaithful
        · exact hfaithful
  unfold PassthroughHandler.manifest
  split
  · refine ensures_bind
      (Q := fun found => ∀ r ∈ found, Faithful state (Digest.parse reference) exempt r)
      (cachedManifest_faithful _ reference accept) ?_
    intro found hfound
    cases found with
    | some r => exact hfound r rfl
    | none => exact upstream
  · exact upstream

theorem oversized_of_readUpstreamChunks {limit : ℕ} {chunks rest : List (Except Str Bytes)}
    {readSoFar : Bytes} (h : readUpstreamChunks limit [] chunks = .ok (.oversized readSoFar rest)) :
    readSoFar ++ (collected rest).1 = (collected chunks).1 ∧
      limit < (collected chunks).1.length := by
  have hspec := readUpstreamChunks_spec limit chunks
  rw [h] at hspec
  by_cases hlimit : limit < (collected chunks).1.length
  · obtain ⟨_, _, heq, -, hall⟩ := hspec.oversized hlimit
    cases heq
    exact ⟨congrArg Prod.fst hall, hlimit⟩
  · exfalso
    cases hend : (collected chunks).2 with
    | none => cases hspec.buffered hend (by omega)
    | some e => cases hspec.failed e hend (by omega)

/-- What is over the limit is not kept, and nothing is where the alias stores nothing. -/
theorem relayBlob_faithful (target : OciTarget) (digest : Digest) (response : HttpResponse) :
    Ensures R (fun _ => True) (OnOk (Faithful state (some digest) (Unkept state target)))
      (relayBlob state target digest false response) := by
  unfold relayBlob
  split
  · trivial
  · split
    · trivial
    · dsimp only
      rw [if_neg Bool.false_ne_true]
      split
      · unfold storedBlob
        refine ensures_bind (ensures_liftResult fun read h => h) ?_
        intro read hread
        cases read with
        | buffered data =>
            dsimp only
            split
            · trivial
            · rename_i hhash
              refine ensures_bind unobserved fun _ _ => ?_
              exact faithful_bytes (by simp) (not_not.mp hhash)
        | oversized readSoFar rest =>
            refine ensures_liftResult ?_
            intro r hr d data hreceived
            obtain ⟨rfl, hdata, -⟩ := streamedBlob_received hr hreceived
            refine ⟨by simp, Or.inr fun _ => ?_⟩
            obtain ⟨hall, hlimit⟩ := oversized_of_readUpstreamChunks hread
            rw [collected, upstreamChunks, collected_mapError] at hdata
            have hbytes : readSoFar ++ (collected rest).1 = data := congrArg Prod.fst hdata
            change _ < data.length
            rw [← hbytes, hall]
            exact hlimit
      · rename_i hstream
        refine ensures_liftResult ?_
        intro r hr d data hreceived
        obtain ⟨rfl, -, hlength⟩ := streamedBlob_received hr hreceived
        refine ⟨by simp, Or.inr ?_⟩
        intro hstore
        cases hadvertised : response.contentLength with
        | none => simp [hstore, hadvertised] at hstream
        | some n =>
            rw [← hlength n hadvertised]
            simpa [hstore, hadvertised] using hstream

/-- A stored blob is hashed while it is sent, or in front. -/
theorem faithful_cachedBlob {digest : Digest} {blob : Blob} {r : Response}
    (h : cachedBlobResponse state digest blob false = some r) :
    Faithful state (some digest) exempt r := by
  unfold cachedBlobResponse at h
  dsimp only at h
  split at h
  · cases h
    refine faithful_contentResponse (by simp) ?_
    intro data hdata
    simp only [verifiedCachedBlob, verifyChunks_eq, Option.toList_none, List.nil_append] at hdata
    split at hdata
    · rw [brokenOff, collected_broken] at hdata
      cases hdata
    · split at hdata
      · rename_i hhash
        rw [collected_pieces] at hdata
        cases hdata
        exact hhash
      · rw [brokenOff, collected_broken] at hdata
        cases hdata
  · split at h
    · contradiction
    · split at h
      · rename_i hhash
        cases h
        exact faithful_bytes (by simp) hhash
      · contradiction

theorem passthroughBlob_faithful (target : OciTarget) (digestStr : Str) :
    Ensures R (fun _ => True)
      (OnOk (Faithful state (Digest.parse digestStr) (Unkept state target)))
      (PassthroughHandler.blob state target digestStr false) := by
  unfold PassthroughHandler.blob
  cases hd : Digest.parse digestStr with
  | none => trivial
  | some digest =>
      have hcached : Ensures R (fun _ => True)
          (OnOk fun found => ∀ r ∈ found, Faithful state (some digest) (Unkept state target) r)
          (cachedBlob state target digest false) := by
        unfold cachedBlob
        split
        · refine ensures_bind unobserved ?_
          intro blob _ r hr
          obtain ⟨blob, -, hr⟩ := Option.bind_eq_some_iff.mp hr
          exact faithful_cachedBlob hr
        · exact nofun
      refine ensures_bind hcached ?_
      intro found hfound
      cases found with
      | some r => exact hfound r rfl
      | none =>
          dsimp only
          rw [upstreamBlob_eq]
          exact ensures_bind unobserved fun response _ => relayBlob_faithful target digest response

/-- Answers of stores whose entries have the right hashes. -/
def AddressedAnswer (sha256 : Bytes → Digest) (op : Op) (r : Ans op) : Prop :=
  ∀ e, found ⟨op, r⟩ = some e → Addressed sha256 e

theorem findBlob_addressed (digest : Digest) :
    Ensures (AddressedAnswer state.crates.sha256) (fun _ => True)
      (OnOk fun found => ∀ blob ∈ found, ∀ data, collected blob.data = (data, none) →
        state.crates.sha256 data = digest) (findBlob state digest) := by
  have hobject : Ensures (AddressedAnswer state.crates.sha256) (fun _ => True)
      (OnOk fun found => ∀ blob ∈ found, ∀ data, collected blob.data = (data, none) →
        state.crates.sha256 data = digest) (ObjectStore.getBlob digest) := by
    unfold ObjectStore.getBlob
    rw [storagePath_blobKey, liftResult_ok_bind]
    refine ensures_bind_call trivial ?_
    intro r hr
    cases r with
    | error e => cases e <;> first | trivial | exact nofun
    | ok result =>
        rintro _ ⟨⟩ data hdata
        rw [collected_mapError] at hdata
        have hbytes : (collected result.chunks).1 = data := congrArg Prod.fst hdata
        have hend : (collected result.chunks).2 = none :=
          Option.map_eq_none_iff.mp (congrArg Prod.snd hdata)
        obtain ⟨pieces, hpieces, rfl⟩ := Option.map_eq_some_iff.mp
          (flatten_mapM_eq_some_iff.mpr (Prod.ext hbytes hend))
        exact hr _ (Option.map_eq_some_iff.mpr ⟨pieces, hpieces, rfl⟩) digest rfl
  unfold findBlob
  refine ensures_bind hobject ?_
  intro found hfound
  cases found with
  | some blob => exact hfound
  | none =>
      refine ensures_bind_call trivial ?_
      intro entry hentry
      cases entry with
      | none => exact nofun
      | some entry =>
          rintro _ ⟨⟩ data hdata
          rw [collected, collected, List.append_nil] at hdata
          cases hdata
          exact hentry _ rfl digest rfl

theorem classicBlob_faithful (digestStr : Str) :
    Ensures (AddressedAnswer state.crates.sha256) (fun _ => True)
      (OnOk (Faithful state (Digest.parse digestStr) exempt))
      (ClassicHandler.blob state digestStr false) := by
  unfold ClassicHandler.blob
  cases hd : Digest.parse digestStr with
  | none => trivial
  | some digest =>
      refine ensures_bind (findBlob_addressed digest) ?_
      intro found hfound
      cases found with
      | none => trivial
      | some blob => exact faithful_contentResponse (by simp) (hfound blob rfl)

end Handlers

section Serving
variable {state : AppState} {decode : PathDecoder} {debug : Str → Str} {values : ValueCrate}
  {pages : Pages} {decodeBase64 : Str → Option Bytes}

theorem Faithful.mono {asked : Option Digest} {exempt exempt' : Bytes → Prop} {r : Response}
    (h : Faithful state asked exempt r) (hexempt : ∀ data, exempt data → exempt' data) :
    Faithful state asked exempt' r := by
  intro digest data hr
  obtain ⟨hasked, hhash⟩ := h digest data hr
  exact ⟨hasked, hhash.imp_right (hexempt data)⟩

/-- The answer of the dispatcher, where it is one already. -/
def FaithfulAnswer (state : AppState) (decode : PathDecoder) (req : ClientRequest) : Answer → Prop
  | .response r => Faithful state (askedDigest decode req) (SentOn state decode req) r
  | .tagList _ _ => True

theorem ociDispatch_faithful {req : ClientRequest} (hmethod : req.method = some .get) :
    Ensures (AddressedAnswer state.crates.sha256) (fun _ => True)
      (OnOk (FaithfulAnswer state decode req)) (ociDispatch state decode debug req) := by
  have answered : ∀ {asked : Option Digest} {p : Server Response}, askedDigest decode req = asked →
      Ensures (AddressedAnswer state.crates.sha256) (fun _ => True)
        (OnOk (Faithful state asked (SentOn state decode req))) p →
      Ensures (AddressedAnswer state.crates.sha256) (fun _ => True)
        (OnOk (FaithfulAnswer state decode req)) (do return .response (← p) : Server Answer) := by
    rintro _ p rfl hp
    exact ensures_bind hp fun _ hr => hr
  unfold ociDispatch
  split
  · exact faithful_of_unnamed (by decide)
  · rw [hmethod]
    dsimp only
    split
    · trivial
    · cases hpath : parseOciPath decode req.path with
      | api => exact faithful_of_unnamed (by decide)
      | manifest name reference =>
          have hasked : askedDigest decode req = Digest.parse reference := by
            simp only [askedDigest, hpath]
          dsimp only
          unfold manifestEntry
          split
          · exact answered hasked (classicManifest_faithful _ _ reference)
          · exact answered hasked (passthroughManifest_faithful _ _ reference _)
          · trivial
      | blob name digest =>
          have hasked : askedDigest decode req = Digest.parse digest := by
            simp only [askedDigest, hpath]
          dsimp only
          unfold blobEntry
          split
          · exact answered hasked (classicBlob_faithful digest)
          · rename_i target hname
            refine answered hasked ((passthroughBlob_faithful target digest).conseq
              (fun _ h => h) ?_)
            intro r hr
            cases r with
            | error e => trivial
            | ok r => exact hr.mono fun data hdata => ⟨name, digest, target, hpath, hname, hdata⟩
          · trivial
      | tags name =>
          dsimp only
          unfold tagsEntry
          split
          · refine answered rfl ?_
            unfold tags
            refine ensures_bind unobserved fun index _ => ensures_bind unobserved fun page _ => ?_
            exact faithful_tagsResponse _ page
          · exact ensures_bind unobserved fun _ _ => trivial
          · trivial
      | notFound => trivial

/-- Whatever is answered, a request stores bytes under their own digests. -/
theorem ociDispatch_addressed (req : ClientRequest) :
    Ensures Anything (fun op => ∀ e, stored op = some e → Addressed state.crates.sha256 e)
      (OnOk fun _ => True) (ociDispatch state decode debug req) := by
  unfold ociDispatch
  split
  · trivial
  · split
    · trivial
    · split
      · trivial
      · dsimp only
        split
        · trivial
        · unfold manifestEntry
          split
          · exact ensures_map (serve_addressed (.classicManifest _ _ _ _)) _
          · exact ensures_map (serve_addressed (.manifest _ _ _ _ _)) _
          · trivial
        · unfold blobEntry
          split
          · exact ensures_map (serve_addressed (.classicBlob _ _)) _
          · exact ensures_map (serve_addressed (.blob _ _ _)) _
          · trivial
        · have allowed : ∀ {A : Type} {p : Server A},
              Ensures Anything (addressPermit state none).allows (OnOk fun _ => True) p →
              Ensures Anything (fun op => ∀ e, stored op = some e →
                Addressed state.crates.sha256 e) (OnOk fun _ => True) p :=
            fun h => h.conseq (fun _ hop _ hs => addressed_of_allowed hop hs) fun _ h => h
          unfold tagsEntry
          split
          · exact ensures_map (allowed (tags_allowed (fun _ _ => trivial) _ _)) _
          · exact ensures_map (allowed (upstreamTags_allowed (fun _ _ => trivial) _)) _
          · trivial
        · trivial

theorem serve_faithful {req : ServerRequest} (hmethod : req.method = some .get) :
    Ensures (AddressedAnswer state.crates.sha256) (fun _ => True)
      (Faithful state (askedDigest decode req.toClientRequest)
        (SentOn state decode req.toClientRequest))
      (serve state decode debug values pages decodeBase64 req) := by
  refine serve_ensures ?_ (faithful_of_unnamed (by decide))
  intro _
  refine route_ensures (fun _ => ociDispatch_faithful hmethod) ?_
    (fun _ _ _ => faithful_of_unnamed (by change _ ∉ [str "content-type"]; decide))
    faithful_intoResponse
  intro result hresult
  cases result with
  | error e => exact faithful_intoResponse e
  | ok answer =>
      cases answer with
      | response r => exact hresult
      | tagList target response =>
          rw [hmethod]
          change Faithful state _ _ (toResponse (relayTags state values target false response))
          cases hrelay : relayTags state values target false response with
          | error e => exact faithful_intoResponse e
          | ok r =>
              obtain ⟨members, -, -, rfl⟩ := relayTags_eq_ok_iff.mp hrelay
              exact faithful_tagListResponse _ _ _

theorem serve_keeps_addressed (req : ServerRequest) :
    Ensures Anything (fun op => ∀ e, stored op = some e → Addressed state.crates.sha256 e)
      (fun _ => True) (serve state decode debug values pages decodeBase64 req) := by
  refine serve_ensures (fun _ => ?_) trivial
  exact route_ensures (fun _ => ociDispatch_addressed _) (fun _ _ => trivial) (fun _ _ _ => trivial)
    fun _ => trivial

variable {S : Type} {W : World Op Ans S} {holds : S → Entry → Prop}

/-- What a client receives for a digest has that hash and is what it has asked for, whoever is
served at the same time, unless it is a blob that is sent on and not kept. -/
theorem received_content_is_addressed (hW : Honest W holds) {s₀ : S}
    (h₀ : ∀ e, holds s₀ e → Addressed state.crates.sha256 e)
    {x : System Op Ans Response S ServerRequest}
    (h : Reachable (fun _ => W) (fun (req : ServerRequest) p =>
      p = serve state decode debug values pages decodeBase64 req) s₀ x)
    {req : ServerRequest} {r : Response} (hanswered : (req, .pure r) ∈ x.2)
    (hmethod : req.method = some .get) {digest : Digest} {data : Bytes}
    (hreceived : Received r digest data) :
    (∀ a ∈ askedDigest decode req.toClientRequest, a = digest) ∧
      (state.crates.sha256 data = digest ∨ SentOn state decode req.toClientRequest data) := by
  have hensured := h.ensures (N := AddressedAnswer state.crates.sha256)
    (P := fun _ op => True ∧ ∀ e, stored op = some e → Addressed state.crates.sha256 e)
    (Q := fun req r => req.method = some .get →
      Faithful state (askedDigest decode req.toClientRequest)
        (SentOn state decode req.toClientRequest) r)
    (I := fun s => ∀ e, holds s e → Addressed state.crates.sha256 e) ?_ ?_ h₀
  · exact hensured.2 _ hanswered hmethod digest data hreceived
  · rintro _ op s r t hs ⟨-, hop⟩ hw
    refine ⟨fun e he => hs e (hW.found hw he), fun e he => ?_⟩
    rcases hW.kept hw he with he | he
    · exact hs e he
    · exact hop e he
  · rintro req p rfl
    have hkeeps : Ensures (AddressedAnswer state.crates.sha256)
        (fun op => ∀ e, stored op = some e → Addressed state.crates.sha256 e) (fun _ => True)
        (serve state decode debug values pages decodeBase64 req) :=
      (serve_keeps_addressed req).assuming fun _ _ _ => rfl
    by_cases hget : req.method = some .get
    · exact ((serve_faithful hget).and hkeeps).conseq (fun _ h => h) fun _ hr _ => hr.1
    · exact hkeeps.conseq (fun _ h => ⟨trivial, h⟩) fun _ _ h => absurd h hget

end Serving

section Instances

def storingState : AppState :=
  ⟨demoCrates, {plainConfig with aliases := collect [(str "team",
    ⟨.oci (str "registry.example.com") (str "acme"), true, .none, false⟩)]}, false⟩

def blobRequest : ServerRequest :=
  ⟨⟨some .get, str "/v2/team/demo/blobs/" ++ threeDigest.asStr, none,
    [(str "host", .text (str "proxy.test"))], none⟩, []⟩

def blobProgram : Program Op Ans Response :=
  serve storingState asciiDecoder id plainValues ⟨[], []⟩ (fun _ => none) blobRequest

theorem blob_received : Received (blobProgram.exec threeBytes []).1 threeDigest [1, 2, 3] := by
  have hlength : ∀ p ∈ (blobProgram.exec threeBytes []).1.headers, p.1 = str "content-length" →
      p.2 = .text (decimal 3) := by decide +kernel
  exact ⟨by decide +kernel, by decide +kernel, fun v hv => hlength _ hv rfl, by decide +kernel⟩

theorem threeBytes_honest (op : Op) (s : List Entry) :
    entryStore op s (threeBytes op s).1 (threeBytes op s).2 := by
  cases op with
  | put path data attributes mode => exact ⟨fun e he => by contradiction, Or.inr ⟨_, rfl, rfl⟩⟩
  | _ => exact ⟨fun e he => by contradiction, Or.inl rfl⟩

/-- Three bytes that an upstream has sent have the hash that was asked for. -/
theorem blob_is_addressed : ∃ (x : System Op Ans Response (List Entry) ServerRequest) (r : Response),
    Reachable (fun _ => entryStore) (fun (req : ServerRequest) p =>
      p = serve storingState asciiDecoder id plainValues ⟨[], []⟩ (fun _ => none) req) [] x ∧
    (blobRequest, .pure r) ∈ x.2 ∧ Received r threeDigest [1, 2, 3] ∧
    storingState.crates.sha256 [1, 2, 3] = threeDigest := by
  obtain ⟨p, hp⟩ : ∃ p, p = blobProgram := ⟨_, rfl⟩
  have hreceived := blob_received
  rw [← hp] at hreceived
  have hstart : Reachable (fun _ => entryStore) (fun (req : ServerRequest) p =>
      p = serve storingState asciiDecoder id plainValues ⟨[], []⟩ (fun _ => none) req) []
      ([], [(blobRequest, p)]) := .step .start (.start hp)
  have hend := hstart.runs [] (runs_trace threeBytes_honest p [])
  have hanswered : (blobRequest, .pure (p.exec threeBytes []).1) ∈
      [(blobRequest, (.pure (p.exec threeBytes []).1 : Program Op Ans Response))] :=
    List.mem_singleton_self _
  refine ⟨_, _, hend, hanswered, hreceived, ?_⟩
  obtain ⟨-, hhash | ⟨name, digest, target, hpath, hname, hunkept⟩⟩ :=
    received_content_is_addressed entryStore_honest (by simp) hend hanswered rfl hreceived
  · exact hhash
  · -- the alias stores, and three bytes are within its limit
    have hblob : parseOciPath asciiDecoder blobRequest.path =
        .blob (str "team/demo") threeDigest.asStr := by decide +kernel
    obtain ⟨rfl, rfl⟩ := OciRoute.blob.inj (hblob.symm.trans hpath)
    have htarget : resolveName storingState.crates.url (str "team/demo")
        storingState.cfg.aliases = some (.oci ⟨str "registry.example.com", str "acme/demo",
          str "team/demo", true, .none, false⟩) := by decide +kernel
    obtain rfl := Resolved.oci.inj (Option.some.inj (htarget.symm.trans hname))
    exact absurd (hunkept rfl) (by decide)

end Instances

end Helmoci.ServedContent
