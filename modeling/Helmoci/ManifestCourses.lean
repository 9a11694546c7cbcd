import Helmoci.ProxiedBlobs

/-!
# How requests for classic manifests end

A manifest is read from one storage or two by its digest, or by its tag, which is built
and written where it is not there. The ways in which such a request can end are listed
with the results of the storages that lead to them, for any two storages.
-/
namespace Helmoci.ManifestCourses
open RustText OciDigest NameResolver JsonDocuments ServerErrors EffectPrograms ServerOperations
  UpstreamRequests ClassicUpstream BlobStorage RegistryResponses ChartBuild ServerState
  ClassicHandler StoredEntries HandlerCalls ProxiedBlobs

section Handlers
variable (state : AppState) (persistent ephemeral : Storage)

def findBlobIn (digest : Digest) : Server (Option Blob) := do
  match ← persistent.getBlob digest with
  | some blob => return some blob
  | none => ephemeral.getBlob digest

def buildManifestIn (store : Storage) (proxyHost : Str) (chart : ClassicChart) (reference : Str)
    (headOnly : Bool) : Server Response := do
  let tgz ← fetchChart state chart reference
  let built ← liftResult (buildChart state proxyHost tgz)
  putArtifact store built
  store.putTagPointer ⟨proxyHost, chart.fullName⟩ reference built.pointer
  return bytesResponse mediaTypeManifest built.manifestDigest built.manifestBytes headOnly

/-- The handler of manifests over any two storages. -/
def manifestIn (proxyHost : Str) (chart : ClassicChart) (reference : Str) (headOnly : Bool) :
    Server Response := do
  let store := if chart.ephemeral then ephemeral else persistent
  match Digest.parse reference with
  | some digest =>
    match ← findBlobIn persistent ephemeral digest with
    | some blob =>
      liftResult (digestManifestResponse state digest blob headOnly state.cfg.settings.maxChartBytes)
    | none => throw (.manifestUnknown (str "manifest unknown: " ++ digest.asStr))
  | none =>
    match ← cachedTagManifest state store ⟨proxyHost, chart.fullName⟩ reference headOnly
        state.cfg.settings.maxChartBytes with
    | some response => return response
    | none => buildManifestIn state store proxyHost chart reference headOnly

theorem manifest_eq (proxyHost : Str) (chart : ClassicChart) (reference : Str) (headOnly : Bool) :
    ClassicHandler.manifest state proxyHost chart reference headOnly =
      manifestIn state state.storage state.ephemeral proxyHost chart reference headOnly := rfl

end Handlers

section Promises

/-- The error that is answered with the status 500. -/
def Internal (e : AppError) : Prop := ∃ m, e = .internal m

def InternalOnly {A : Type} (r : Except AppError A) : Prop := ∀ e, r = .error e → Internal e

def Reads : Op → Prop
  | .head _ | .get _ | .cacheGet _ => True
  | _ => False

/-- What is written is a blob, if anything is. -/
def NoPointer : Op → Prop
  | .put path _ _ _ => ∃ digest, path = blobKey digest
  | .cacheInsert .. => False
  | _ => True

/-- A storage fails with storage errors alone, reads without writing, and writes a blob
without writing a pointer. -/
structure Promises (st : Storage) : Prop where
  getBlob : ∀ digest, Ensures Anything Reads (fun r => InternalOnly r ∧
    ∀ blob, r = .ok (some blob) → ∀ e, .error e ∈ blob.data → Internal e) (st.getBlob digest)
  putBlob : ∀ digest contentType data,
    Ensures Anything NoPointer InternalOnly (st.putBlob digest contentType data)
  getTagPointer : ∀ scope tag, Ensures Anything Reads InternalOnly (st.getTagPointer scope tag)
  putTagPointer : ∀ scope tag pointer,
    Ensures Anything (fun _ => True) InternalOnly (st.putTagPointer scope tag pointer)

theorem internal_storageError (op : StorageOp) : Internal (storageError op) := ⟨_, rfl⟩

theorem internalOnly_ok {A : Type} (a : A) : InternalOnly (.ok a) := nofun

theorem internalOnly_storageError {A : Type} (op : StorageOp) :
    InternalOnly (.error (storageError op) : Except AppError A) := by
  intro e he
  cases he
  exact internal_storageError op

theorem readPointerChunks_internal (data : Bytes) (chunks : List (Except ObjectError Bytes)) :
    InternalOnly (ObjectStore.readPointerChunks data chunks) := by
  induction chunks generalizing data with
  | nil => exact internalOnly_ok _
  | cons chunk chunks ih =>
      cases chunk with
      | error e => exact internalOnly_storageError _
      | ok chunk =>
          unfold ObjectStore.readPointerChunks
          split
          · exact internalOnly_ok _
          · exact ih _

theorem objectStore_promises (json : JsonCrate) : Promises (objectStoreStorage json) where
  getBlob := by
    intro digest
    change Ensures Anything Reads _ (ObjectStore.getBlob digest)
    unfold ObjectStore.getBlob
    rw [storagePath_blobKey, liftResult_ok_bind]
    refine ensures_bind_call trivial ?_
    intro r _
    cases r with
    | ok result =>
        refine ⟨internalOnly_ok _, ?_⟩
        intro blob hblob e he
        cases hblob
        obtain ⟨chunk, -, hchunk⟩ := List.mem_map.mp he
        cases chunk with
        | ok _ => cases hchunk
        | error _ =>
            cases hchunk
            exact internal_storageError _
    | error e =>
        cases e with
        | notFound => exact ⟨internalOnly_ok _, nofun⟩
        | _ => exact ⟨internalOnly_storageError _, nofun⟩
  putBlob := by
    intro digest contentType data
    apply (putBlob_ensures (P := NoPointer) trivial fun _ _ _ => ⟨digest, rfl⟩).conseq
    · exact fun _ hop => hop
    · intro r hr e he
      rw [hr e he]
      exact internal_storageError _
  getTagPointer := by
    intro scope tag
    change Ensures Anything Reads _ (ObjectStore.getTagPointer json scope tag)
    unfold ObjectStore.getTagPointer storagePath
    cases parsePath (tagKey scope tag) with
    | none => exact internalOnly_storageError _
    | some path =>
        dsimp only
        rw [liftResult_ok_bind]
        refine ensures_bind_call trivial ?_
        intro r _
        cases r with
        | ok result =>
            dsimp only
            split
            · exact internalOnly_ok _
            · have hread := readPointerChunks_internal [] result.chunks
              cases hdata : ObjectStore.readPointerChunks [] result.chunks with
              | ok data => exact internalOnly_ok _
              | error e =>
                  rw [hdata] at hread
                  intro e' he
                  cases he
                  exact hread e rfl
        | error e =>
            cases e with
            | notFound => exact internalOnly_ok _
            | _ => exact internalOnly_storageError _
  putTagPointer := by
    intro scope tag pointer
    change Ensures Anything _ _ (ObjectStore.putTagPointer scope tag pointer)
    unfold ObjectStore.putTagPointer storagePath
    cases parsePath (tagKey scope tag) with
    | none => exact internalOnly_storageError _
    | some path =>
        dsimp only
        rw [liftResult_ok_bind]
        refine ensures_bind_call trivial ?_
        intro r _
        cases r with
        | ok _ => exact internalOnly_ok _
        | error _ => exact internalOnly_storageError _

theorem ephemeral_promises (json : JsonCrate) : Promises (ephemeralStorage json) where
  getBlob := by
    intro digest
    refine ensures_bind_call trivial ?_
    intro r _
    cases r with
    | none => exact ⟨internalOnly_ok _, nofun⟩
    | some entry =>
        refine ⟨internalOnly_ok _, ?_⟩
        intro blob hblob e he
        cases hblob
        cases List.mem_singleton.mp he
  putBlob := fun _ _ _ => ⟨trivial, fun _ _ => internalOnly_ok _⟩
  getTagPointer := fun _ _ => ensures_bind_call trivial fun _ _ => internalOnly_ok _
  putTagPointer := fun _ _ _ => ⟨trivial, fun _ _ => internalOnly_ok _⟩

end Promises

section Blobs
variable (state : AppState) (digest : Digest) (maxBytes : ℕ) (blob : Blob)

/-- The error is met before the bound is. -/
def StreamFails (e : AppError) : Prop :=
  blob.blobMeta.size ≤ maxBytes ∧ (collected blob.data).1.length ≤ maxBytes ∧
    (collected blob.data).2 = some e

/-- The bytes have the size, the hash and the form of the manifest. -/
def Intact : Prop :=
  (collected blob.data).1.length = blob.blobMeta.size ∧
    state.crates.sha256 (collected blob.data).1 = digest ∧
    validHelmManifest state (collected blob.data).1 = true

/-- A blob that is too large, or whose bytes are not the manifest's. -/
def Unusable : Prop :=
  maxBytes < blob.blobMeta.size ∨ maxBytes < (collected blob.data).1.length ∨
    ((collected blob.data).2 = none ∧ ¬ Intact state digest blob)

def Usable : Prop :=
  blob.blobMeta.size ≤ maxBytes ∧ (collected blob.data).2 = none ∧ Intact state digest blob

theorem blob_cases : (∃ e, StreamFails maxBytes blob e) ∨ Unusable state digest maxBytes blob ∨
    Usable state digest maxBytes blob := by
  by_cases hsize : maxBytes < blob.blobMeta.size
  · exact Or.inr (Or.inl (Or.inl hsize))
  · by_cases hlen : maxBytes < (collected blob.data).1.length
    · exact Or.inr (Or.inl (Or.inr (Or.inl hlen)))
    · cases he : (collected blob.data).2 with
      | some e => exact Or.inl ⟨e, Nat.not_lt.mp hsize, Nat.not_lt.mp hlen, he⟩
      | none =>
          by_cases hintact : Intact state digest blob
          · exact Or.inr (Or.inr ⟨Nat.not_lt.mp hsize, he, hintact⟩)
          · exact Or.inr (Or.inl (Or.inr (Or.inr ⟨he, hintact⟩)))

def unknownManifest (digest : Digest) : AppError :=
  .manifestUnknown (str "manifest unknown: " ++ digest.asStr)

variable {state digest maxBytes blob} {headOnly : Bool}

theorem digestManifestResponse_fails {e : AppError} (h : StreamFails maxBytes blob e)
    (he : Internal e) :
    digestManifestResponse state digest blob headOnly maxBytes = .error e := by
  obtain ⟨hsize, hlen, herror⟩ := h
  obtain ⟨m, rfl⟩ := he
  have hadvertised : ¬ (some blob.blobMeta.size).any (maxBytes < ·) = true := by simpa using hsize
  have hread := @readChunks_fits _ maxBytes (id : AppError → AppError) [] blob.data
    (by simpa using hlen)
  unfold digestManifestResponse readBounded
  dsimp only
  rw [if_neg (Nat.not_lt.mpr hsize), if_neg hadvertised, hread, herror]
  rfl

theorem digestManifestResponse_unusable (h : Unusable state digest maxBytes blob) :
    digestManifestResponse state digest blob headOnly maxBytes =
      .error (unknownManifest digest) := by
  unfold digestManifestResponse
  dsimp only
  by_cases hsize : maxBytes < blob.blobMeta.size
  · exact if_pos hsize
  · have hadvertised : ¬ (some blob.blobMeta.size).any (maxBytes < ·) = true := by simpa using hsize
    rw [if_neg hsize, readBounded, if_neg hadvertised]
    by_cases hlen : maxBytes < (collected blob.data).1.length
    · obtain ⟨text, htext⟩ := @readChunks_over _ maxBytes (id : AppError → AppError) []
        blob.data (Nat.zero_le _) (by simpa using hlen)
      rw [htext]
      rfl
    · rcases h with h | h | ⟨hend, hbad⟩
      · exact (hsize h).elim
      · exact (hlen h).elim
      · have hread := @readChunks_fits _ maxBytes (id : AppError → AppError) []
          blob.data (by simpa using hlen)
        rw [hread, hend]
        apply if_pos
        by_contra hgood
        simp only [List.nil_append, not_or, not_not, Bool.not_eq_false] at hgood
        exact hbad hgood

theorem digestManifestResponse_usable (h : Usable state digest maxBytes blob) :
    digestManifestResponse state digest blob headOnly maxBytes =
      .ok (bytesResponse mediaTypeManifest digest (collected blob.data).1 headOnly) := by
  obtain ⟨hsize, hend, hlen, hhash, hform⟩ := h
  have hadvertised : ¬ (some blob.blobMeta.size).any (maxBytes < ·) = true := by simpa using hsize
  have hread := @readChunks_fits _ maxBytes (id : AppError → AppError) [] blob.data
    (by rw [List.length_nil]; omega)
  unfold digestManifestResponse readBounded
  dsimp only
  rw [if_neg (Nat.not_lt.mpr hsize), if_neg hadvertised, hread, hend]
  apply if_neg
  simp [hlen, hhash, hform]

end Blobs

section Courses

inductive Ending where
  | readFailure
  | blobWriteFailure
  | pointerWriteFailure
  /-- The digest's manifest is missing or unusable. -/
  | unknown
  | served
  /-- The upstream has no chart that can be built. -/
  | notBuilt
  | built
deriving DecidableEq, Repr

/-- A storage has failed. -/
def Ending.failed : Ending → Bool
  | .readFailure | .blobWriteFailure | .pointerWriteFailure => true
  | _ => false

variable {S : Type} (W : World Op Ans S) (state : AppState) (persistent ephemeral store : Storage)
  (proxyHost : Str) (chart : ClassicChart) (reference : Str) (headOnly : Bool)

inductive FindsBlob (digest : Digest) : S → List (Call Op Ans) → Blob → S → Prop
  | persistent {s t : S} {cs : List (Call Op Ans)} {blob : Blob} :
      Runs W (persistent.getBlob digest) s cs (.ok (some blob)) t → FindsBlob digest s cs blob t
  | ephemeral {s m t : S} {cs₁ cs₂ : List (Call Op Ans)} {blob : Blob} :
      Runs W (persistent.getBlob digest) s cs₁ (.ok none) m →
      Runs W (ephemeral.getBlob digest) m cs₂ (.ok (some blob)) t →
      FindsBlob digest s (cs₁ ++ cs₂) blob t

/-- How a request for a digest ends. -/
inductive DigestCourse (digest : Digest) :
    Ending → S → List (Call Op Ans) → Except AppError Response → S → Prop
  | persistentFails {s t : S} {cs : List (Call Op Ans)} {e : AppError} :
      Runs W (persistent.getBlob digest) s cs (.error e) t →
      DigestCourse digest .readFailure s cs (.error e) t
  | ephemeralFails {s m t : S} {cs₁ cs₂ : List (Call Op Ans)} {e : AppError} :
      Runs W (persistent.getBlob digest) s cs₁ (.ok none) m →
      Runs W (ephemeral.getBlob digest) m cs₂ (.error e) t →
      DigestCourse digest .readFailure s (cs₁ ++ cs₂) (.error e) t
  | streamFails {s t : S} {cs : List (Call Op Ans)} {blob : Blob} {e : AppError} :
      FindsBlob W persistent ephemeral digest s cs blob t →
      StreamFails state.cfg.settings.maxChartBytes blob e →
      DigestCourse digest .readFailure s cs (.error e) t
  | absent {s m t : S} {cs₁ cs₂ : List (Call Op Ans)} :
      Runs W (persistent.getBlob digest) s cs₁ (.ok none) m →
      Runs W (ephemeral.getBlob digest) m cs₂ (.ok none) t →
      DigestCourse digest .unknown s (cs₁ ++ cs₂) (.error (unknownManifest digest)) t
  | unusable {s t : S} {cs : List (Call Op Ans)} {blob : Blob} :
      FindsBlob W persistent ephemeral digest s cs blob t →
      Unusable state digest state.cfg.settings.maxChartBytes blob →
      DigestCourse digest .unknown s cs (.error (unknownManifest digest)) t
  | served {s t : S} {cs : List (Call Op Ans)} {blob : Blob} :
      FindsBlob W persistent ephemeral digest s cs blob t →
      Usable state digest state.cfg.settings.maxChartBytes blob →
      DigestCourse digest .served s cs
        (.ok (bytesResponse mediaTypeManifest digest (collected blob.data).1 headOnly)) t

/-- The pointer is of a manifest within the bound. -/
def Points (pointer : TagPointer) : Prop :=
  pointer.mediaType = mediaTypeManifest ∧ pointer.size ≤ state.cfg.settings.maxChartBytes

/-- The tag's pointer and the blob under its digest have been read. -/
inductive FollowsPointer : S → List (Call Op Ans) → TagPointer → Except AppError (Option Blob) →
    S → Prop
  | intro {s m t : S} {cs₁ cs₂ : List (Call Op Ans)} {pointer : TagPointer}
      {found : Except AppError (Option Blob)} :
      Runs W (store.getTagPointer ⟨proxyHost, chart.fullName⟩ reference) s cs₁
        (.ok (some pointer)) m →
      Points state pointer → Runs W (store.getBlob pointer.digest) m cs₂ found t →
      FollowsPointer s (cs₁ ++ cs₂) pointer found t

/-- The tag is not there: absent, mistyped, oversized or backed by other bytes. -/
inductive Missing : S → List (Call Op Ans) → S → Prop
  | absent {s t : S} {cs : List (Call Op Ans)} :
      Runs W (store.getTagPointer ⟨proxyHost, chart.fullName⟩ reference) s cs (.ok none) t →
      Missing s cs t
  | badPointer {s t : S} {cs : List (Call Op Ans)} {pointer : TagPointer} :
      Runs W (store.getTagPointer ⟨proxyHost, chart.fullName⟩ reference) s cs
        (.ok (some pointer)) t →
      ¬ Points state pointer → Missing s cs t
  | noBlob {s t : S} {cs : List (Call Op Ans)} {pointer : TagPointer} :
      FollowsPointer W state store proxyHost chart reference s cs pointer (.ok none) t →
      Missing s cs t
  | badBlob {s t : S} {cs : List (Call Op Ans)} {pointer : TagPointer} {blob : Blob} :
      FollowsPointer W state store proxyHost chart reference s cs pointer (.ok (some blob)) t →
      (blob.blobMeta.size ≠ pointer.size ∨
        Unusable state pointer.digest state.cfg.settings.maxChartBytes blob) →
      Missing s cs t

def blobWrites (built : BuiltChart) : List (Server Unit) :=
  [store.putBlob built.configDigest mediaTypeHelmConfig built.configBytes,
    store.putBlob built.layerDigest mediaTypeHelmChart built.layerBytes,
    store.putBlob built.manifestDigest mediaTypeManifest built.manifestBytes]

/-- Among the calls are those of a write that has ended so. -/
def Ends (write : Server Unit) (cs : List (Call Op Ans)) (r : Except AppError Unit) : Prop :=
  ∃ cs', cs'.Sublist cs ∧ Follows (write : Program Op Ans (Except AppError Unit)) cs' (.pure r)

/-- How the way past the cache ends. -/
inductive BuildCourse : Ending → S → List (Call Op Ans) → Except AppError Response → S → Prop
  | notFetched {s t : S} {cs : List (Call Op Ans)} {e : AppError} :
      Runs W (fetchChart state chart reference) s cs (.error e) t →
      BuildCourse .notBuilt s cs (.error e) t
  | notBuilt {s t : S} {cs : List (Call Op Ans)} {tgz : Bytes} {e : AppError} :
      Runs W (fetchChart state chart reference) s cs (.ok tgz) t →
      buildChart state proxyHost tgz = .error e → BuildCourse .notBuilt s cs (.error e) t
  | blobWriteFails {s m t : S} {cs₁ cs₂ : List (Call Op Ans)} {tgz : Bytes} {built : BuiltChart}
      {e : AppError} : Runs W (fetchChart state chart reference) s cs₁ (.ok tgz) m →
      buildChart state proxyHost tgz = .ok built →
      Runs W (putArtifact store built) m cs₂ (.error e) t →
      (∃ write ∈ blobWrites store built, Ends write cs₂ (.error e)) →
      BuildCourse .blobWriteFailure s (cs₁ ++ cs₂) (.error e) t
  | pointerWriteFails {s m m' t : S} {cs₁ cs₂ cs₃ : List (Call Op Ans)} {tgz : Bytes}
      {built : BuiltChart} {e : AppError} :
      Runs W (fetchChart state chart reference) s cs₁ (.ok tgz) m →
      buildChart state proxyHost tgz = .ok built →
      Runs W (putArtifact store built) m cs₂ (.ok ()) m' →
      (∀ write ∈ blobWrites store built, Ends write cs₂ (.ok ())) →
      Runs W (store.putTagPointer ⟨proxyHost, chart.fullName⟩ reference built.pointer) m' cs₃
        (.error e) t →
      BuildCourse .pointerWriteFailure s (cs₁ ++ (cs₂ ++ cs₃)) (.error e) t
  | built {s m m' t : S} {cs₁ cs₂ cs₃ : List (Call Op Ans)} {tgz : Bytes} {built : BuiltChart} :
      Runs W (fetchChart state chart reference) s cs₁ (.ok tgz) m →
      buildChart state proxyHost tgz = .ok built →
      Runs W (putArtifact store built) m cs₂ (.ok ()) m' →
      (∀ write ∈ blobWrites store built, Ends write cs₂ (.ok ())) →
      Runs W (store.putTagPointer ⟨proxyHost, chart.fullName⟩ reference built.pointer) m' cs₃
        (.ok ()) t →
      BuildCourse .built s (cs₁ ++ (cs₂ ++ cs₃))
        (.ok (bytesResponse mediaTypeManifest built.manifestDigest built.manifestBytes headOnly)) t

/-- How a request for a tag ends. -/
inductive TagCourse : Ending → S → List (Call Op Ans) → Except AppError Response → S → Prop
  | pointerFails {s t : S} {cs : List (Call Op Ans)} {e : AppError} :
      Runs W (store.getTagPointer ⟨proxyHost, chart.fullName⟩ reference) s cs (.error e) t →
      TagCourse .readFailure s cs (.error e) t
  | lookupFails {s t : S} {cs : List (Call Op Ans)} {pointer : TagPointer} {e : AppError} :
      FollowsPointer W state store proxyHost chart reference s cs pointer (.error e) t →
      TagCourse .readFailure s cs (.error e) t
  | streamFails {s t : S} {cs : List (Call Op Ans)} {pointer : TagPointer} {blob : Blob}
      {e : AppError} :
      FollowsPointer W state store proxyHost chart reference s cs pointer (.ok (some blob)) t →
      blob.blobMeta.size = pointer.size →
      StreamFails state.cfg.settings.maxChartBytes blob e → TagCourse .readFailure s cs (.error e) t
  | served {s t : S} {cs : List (Call Op Ans)} {pointer : TagPointer} {blob : Blob} :
      FollowsPointer W state store proxyHost chart reference s cs pointer (.ok (some blob)) t →
      blob.blobMeta.size = pointer.size →
      Usable state pointer.digest state.cfg.settings.maxChartBytes blob →
      TagCourse .served s cs
        (.ok (bytesResponse mediaTypeManifest pointer.digest (collected blob.data).1 headOnly)) t
  | rebuilt {ending : Ending} {s m t : S} {cs₁ cs₂ : List (Call Op Ans)}
      {r : Except AppError Response} :
      Missing W state store proxyHost chart reference s cs₁ m →
      BuildCourse W state store proxyHost chart reference headOnly ending m cs₂ r t →
      TagCourse ending s (cs₁ ++ cs₂) r t

/-- How a request ends, with what the storages have answered on the way. -/
def Course (ending : Ending) (s : S) (cs : List (Call Op Ans)) (r : Except AppError Response)
    (t : S) : Prop :=
  match Digest.parse reference with
  | some digest => DigestCourse W state persistent ephemeral headOnly digest ending s cs r t
  | none => TagCourse W state (if chart.ephemeral then ephemeral else persistent) proxyHost chart
      reference headOnly ending s cs r t

end Courses

section Reading
variable {S : Type} {W : World Op Ans S} {state : AppState} {persistent ephemeral store : Storage}
  {proxyHost : Str} {chart : ClassicChart} {reference : Str} {headOnly : Bool} {digest : Digest}
  {s t : S} {cs : List (Call Op Ans)}

theorem mem_of_collected {data : List (Except AppError Bytes)} {e : AppError}
    (h : (collected data).2 = some e) : .error e ∈ data := by
  induction data with
  | nil => cases h
  | cons chunk data ih =>
      cases chunk with
      | error e' =>
          cases h
          exact List.mem_cons_self
      | ok chunk => exact List.mem_cons_of_mem _ (ih h)

/-- A run of a blob read reads, and what fails in it is internal. -/
theorem Promises.getBlob_runs (h : Promises store) {r : Except AppError (Option Blob)}
    (hr : Runs W (store.getBlob digest) s cs r t) : (∀ c ∈ cs, Reads c.op) ∧ InternalOnly r ∧
      ∀ blob, r = .ok (some blob) → ∀ e, (collected blob.data).2 = some e → Internal e := by
  obtain ⟨hcalls, honly, hdata⟩ := (h.getBlob digest).follows hr.follows
  exact ⟨hcalls, honly, fun blob hb e he => hdata blob hb e (mem_of_collected he)⟩

theorem Promises.getTagPointer_runs (h : Promises store) {scope : TagScope} {tag : Str}
    {r : Except AppError (Option TagPointer)} (hr : Runs W (store.getTagPointer scope tag) s cs r t) :
    (∀ c ∈ cs, Reads c.op) ∧ InternalOnly r := (h.getTagPointer scope tag).follows hr.follows

theorem FindsBlob.reads (hp : Promises persistent) (he : Promises ephemeral) {blob : Blob}
    (h : FindsBlob W persistent ephemeral digest s cs blob t) :
    (∀ c ∈ cs, Reads c.op) ∧ ∀ e, (collected blob.data).2 = some e → Internal e := by
  cases h with
  | persistent hget =>
      obtain ⟨hcalls, -, hdata⟩ := hp.getBlob_runs hget
      exact ⟨hcalls, hdata blob rfl⟩
  | ephemeral hmiss hget =>
      obtain ⟨hcalls, -, hdata⟩ := he.getBlob_runs hget
      exact ⟨List.forall_mem_append.mpr ⟨(hp.getBlob_runs hmiss).1, hcalls⟩, hdata blob rfl⟩

theorem FollowsPointer.reads (h : Promises store) {pointer : TagPointer}
    {found : Except AppError (Option Blob)}
    (hf : FollowsPointer W state store proxyHost chart reference s cs pointer found t) :
    (∀ c ∈ cs, Reads c.op) ∧ InternalOnly found ∧
      ∀ blob, found = .ok (some blob) → ∀ e, (collected blob.data).2 = some e → Internal e := by
  cases hf with
  | intro hpointer _ hget =>
      obtain ⟨hcalls, hrest⟩ := h.getBlob_runs hget
      exact ⟨List.forall_mem_append.mpr ⟨(h.getTagPointer_runs hpointer).1, hcalls⟩, hrest⟩

theorem runs_findBlobIn_iff {x : Except AppError (Option Blob)} :
    Runs W (findBlobIn persistent ephemeral digest) s cs x t ↔
      (∃ e, x = .error e ∧ Runs W (persistent.getBlob digest) s cs (.error e) t) ∨
      (∃ blob, x = .ok (some blob) ∧
        Runs W (persistent.getBlob digest) s cs (.ok (some blob)) t) ∨
      ∃ cs₁ m cs₂, Runs W (persistent.getBlob digest) s cs₁ (.ok none) m ∧
        Runs W (ephemeral.getBlob digest) m cs₂ x t ∧ cs = cs₁ ++ cs₂ := by
  unfold findBlobIn
  rw [runs_server_bind_iff]
  apply or_congr_right
  constructor
  · intro ⟨cs₁, found, m, cs₂, hget, hrest, hcs⟩
    cases found with
    | none => exact Or.inr ⟨cs₁, m, cs₂, hget, hrest, hcs⟩
    | some blob =>
        obtain ⟨rfl, rfl, rfl⟩ := runs_pure_iff.mp hrest
        rw [hcs, List.append_nil]
        exact Or.inl ⟨blob, rfl, hget⟩
  · intro h
    rcases h with ⟨blob, rfl, hget⟩ | ⟨cs₁, m, cs₂, hget, hrest, hcs⟩
    · exact ⟨cs, some blob, t, [], hget, .pure _ _, (List.append_nil cs).symm⟩
    · exact ⟨cs₁, none, m, cs₂, hget, hrest, hcs⟩

/-- A request for a digest ends in one of the listed ways. -/
theorem digestCourse_iff (hp : Promises persistent) (he : Promises ephemeral)
    (hd : Digest.parse reference = some digest) {r : Except AppError Response} :
    Runs W (manifestIn state persistent ephemeral proxyHost chart reference headOnly) s cs r t ↔
      ∃ ending, DigestCourse W state persistent ephemeral headOnly digest ending s cs r t := by
  have hanswer : ∀ (blob : Blob) (r : Except AppError Response) (m : S) (cs' : List (Call Op Ans)),
      Runs W (liftResult (digestManifestResponse state digest blob headOnly
        state.cfg.settings.maxChartBytes)) m cs' r t ↔ cs' = [] ∧
        r = digestManifestResponse state digest blob headOnly state.cfg.settings.maxChartBytes ∧
        t = m := fun _ _ _ _ => runs_pure_iff
  unfold manifestIn
  rw [hd]
  dsimp only
  rw [runs_server_bind_iff]
  constructor
  · intro h
    rcases h with ⟨e, rfl, hfind⟩ | ⟨cs₁, found, m, cs₂, hfind, hrest, rfl⟩
    · rcases runs_findBlobIn_iff.mp hfind with ⟨_, he, hget⟩ | ⟨_, hb, _⟩ | ⟨ds, m, ds', h₁, h₂, rfl⟩
      · cases he
        exact ⟨_, .persistentFails hget⟩
      · cases hb
      · exact ⟨_, .ephemeralFails h₁ h₂⟩
    · cases found with
      | none =>
          obtain ⟨rfl, rfl, rfl⟩ := runs_pure_iff.mp hrest
          rw [List.append_nil]
          rcases runs_findBlobIn_iff.mp hfind with ⟨_, he, _⟩ | ⟨_, hb, _⟩ | ⟨ds, m, ds', h₁, h₂, rfl⟩
          · cases he
          · cases hb
          · exact ⟨_, .absent h₁ h₂⟩
      | some blob =>
          obtain ⟨rfl, rfl, rfl⟩ := (hanswer blob r m cs₂).mp hrest
          rw [List.append_nil]
          have hfound : FindsBlob W persistent ephemeral digest s cs₁ blob t := by
            rcases runs_findBlobIn_iff.mp hfind with ⟨_, he, _⟩ | ⟨_, hb, h⟩ | ⟨ds, m, ds', h₁, h₂, rfl⟩
            · cases he
            · cases hb
              exact .persistent h
            · exact .ephemeral h₁ h₂
          rcases blob_cases state digest state.cfg.settings.maxChartBytes blob with
            ⟨e, hfails⟩ | hbad | hgood
          · rw [digestManifestResponse_fails hfails ((hfound.reads hp he).2 e hfails.2.2)]
            exact ⟨_, .streamFails hfound hfails⟩
          · rw [digestManifestResponse_unusable hbad]
            exact ⟨_, .unusable hfound hbad⟩
          · rw [digestManifestResponse_usable hgood]
            exact ⟨_, .served hfound hgood⟩
  · intro ⟨ending, h⟩
    have hfinds : ∀ {cs blob t}, FindsBlob W persistent ephemeral digest s cs blob t →
        Runs W (findBlobIn persistent ephemeral digest) s cs (.ok (some blob)) t := by
      intro cs blob t hf
      apply runs_findBlobIn_iff.mpr
      cases hf with
      | persistent hget => exact Or.inr (Or.inl ⟨blob, rfl, hget⟩)
      | ephemeral h₁ h₂ => exact Or.inr (Or.inr ⟨_, _, _, h₁, h₂, rfl⟩)
    cases h with
    | persistentFails hget =>
        exact Or.inl ⟨_, rfl, runs_findBlobIn_iff.mpr (Or.inl ⟨_, rfl, hget⟩)⟩
    | ephemeralFails h₁ h₂ =>
        exact Or.inl ⟨_, rfl, runs_findBlobIn_iff.mpr (Or.inr (Or.inr ⟨_, _, _, h₁, h₂, rfl⟩))⟩
    | absent h₁ h₂ =>
        refine Or.inr ⟨_, none, t, [], runs_findBlobIn_iff.mpr
          (Or.inr (Or.inr ⟨_, _, _, h₁, h₂, rfl⟩)), .pure _ _, (List.append_nil _).symm⟩
    | @streamFails _ _ _ blob e hfound hfails =>
        refine Or.inr ⟨_, some blob, t, [], hfinds hfound, (hanswer blob _ t []).mpr ⟨rfl, ?_, rfl⟩,
          (List.append_nil _).symm⟩
        exact (digestManifestResponse_fails hfails ((hfound.reads hp he).2 e hfails.2.2)).symm
    | @unusable _ _ _ blob hfound hbad =>
        refine Or.inr ⟨_, some blob, t, [], hfinds hfound, (hanswer blob _ t []).mpr ⟨rfl, ?_, rfl⟩,
          (List.append_nil _).symm⟩
        exact (digestManifestResponse_unusable hbad).symm
    | @served _ _ _ blob hfound hgood =>
        refine Or.inr ⟨_, some blob, t, [], hfinds hfound, (hanswer blob _ t []).mpr ⟨rfl, ?_, rfl⟩,
          (List.append_nil _).symm⟩
        exact (digestManifestResponse_usable hgood).symm

/-- What is made of the blob that a pointer leads to. -/
def pointedAnswer (state : AppState) (pointer : TagPointer) (headOnly : Bool) :
    Option Blob → Except AppError (Option Response)
  | none => .ok none
  | some blob =>
    if blob.blobMeta.size ≠ pointer.size then .ok none
    else
      match digestManifestResponse state pointer.digest blob headOnly
          state.cfg.settings.maxChartBytes with
      | .ok response => .ok (some response)
      | .error (.manifestUnknown _) => .ok none
      | .error e => .error e

/-- Behind the two reads everything is computed. -/
theorem cachedTagManifest_eq (scope : TagScope) :
    cachedTagManifest state store scope reference headOnly state.cfg.settings.maxChartBytes =
      store.getTagPointer scope reference >>= fun pointer =>
        match pointer with
        | none => pure none
        | some pointer =>
          if pointer.mediaType ≠ mediaTypeManifest ∨
              state.cfg.settings.maxChartBytes < pointer.size then pure none
          else store.getBlob pointer.digest >>= fun found =>
            liftResult (pointedAnswer state pointer headOnly found) := by
  unfold cachedTagManifest
  congr 1
  funext pointer
  cases pointer with
  | none => rfl
  | some pointer =>
      dsimp only
      split
      · rfl
      · congr 1
        funext found
        cases found with
        | none => rfl
        | some blob =>
            dsimp only [pointedAnswer]
            split
            · rfl
            · cases digestManifestResponse state pointer.digest blob headOnly
                state.cfg.settings.maxChartBytes with
              | ok response => rfl
              | error e => cases e <;> rfl

theorem runs_cachedTagManifest_iff {x : Except AppError (Option Response)} :
    Runs W (cachedTagManifest state store ⟨proxyHost, chart.fullName⟩ reference headOnly
      state.cfg.settings.maxChartBytes) s cs x t ↔
      (∃ e, x = .error e ∧
        Runs W (store.getTagPointer ⟨proxyHost, chart.fullName⟩ reference) s cs (.error e) t) ∨
      (x = .ok none ∧
        (Runs W (store.getTagPointer ⟨proxyHost, chart.fullName⟩ reference) s cs (.ok none) t ∨
          ∃ pointer, ¬ Points state pointer ∧ Runs W
            (store.getTagPointer ⟨proxyHost, chart.fullName⟩ reference) s cs
            (.ok (some pointer)) t)) ∨
      ∃ pointer found, FollowsPointer W state store proxyHost chart reference s cs pointer found t ∧
        x = found.bind (pointedAnswer state pointer headOnly) := by
  have hpoints : ∀ pointer : TagPointer, Points state pointer ↔
      ¬ (pointer.mediaType ≠ mediaTypeManifest ∨
        state.cfg.settings.maxChartBytes < pointer.size) := by
    intro pointer
    simp only [Points, ne_eq, not_or, not_not, Nat.not_lt]
  have hlast : ∀ (pointer : TagPointer) (m : S) (cs' : List (Call Op Ans)),
      Runs W (store.getBlob pointer.digest >>= fun found =>
        liftResult (pointedAnswer state pointer headOnly found) : Server (Option Response)) m cs' x t ↔
      ∃ found, Runs W (store.getBlob pointer.digest) m cs' found t ∧
        x = found.bind (pointedAnswer state pointer headOnly) := by
    intro pointer m cs'
    rw [runs_server_bind_iff]
    constructor
    · intro h
      rcases h with ⟨e, rfl, hget⟩ | ⟨ds, found, m', ds', hget, hrest, rfl⟩
      · exact ⟨.error e, hget, rfl⟩
      · obtain ⟨rfl, rfl, rfl⟩ := runs_liftResult hrest
        rw [List.append_nil]
        exact ⟨.ok found, hget, rfl⟩
    · intro ⟨found, hget, hx⟩
      cases found with
      | error e => exact Or.inl ⟨e, hx, hget⟩
      | ok found =>
          exact Or.inr ⟨cs', found, t, [], hget, runs_pure_iff.mpr ⟨rfl, hx, rfl⟩,
            (List.append_nil cs').symm⟩
  rw [cachedTagManifest_eq, runs_server_bind_iff]
  apply or_congr_right
  constructor
  · intro ⟨cs₁, found, m, cs₂, hpointer, hrest, hcs⟩
    cases found with
    | none =>
        obtain ⟨rfl, rfl, rfl⟩ := runs_pure_iff.mp hrest
        rw [hcs, List.append_nil]
        exact Or.inl ⟨rfl, Or.inl hpointer⟩
    | some pointer =>
        dsimp only at hrest
        split at hrest
        · rename_i hbad
          obtain ⟨rfl, rfl, rfl⟩ := runs_pure_iff.mp hrest
          rw [hcs, List.append_nil]
          exact Or.inl ⟨rfl, Or.inr ⟨pointer, fun h => (hpoints pointer).mp h hbad, hpointer⟩⟩
        · rename_i hgood
          obtain ⟨found, hget, hx⟩ := (hlast pointer m cs₂).mp hrest
          rw [hcs]
          exact Or.inr ⟨pointer, found, .intro hpointer ((hpoints pointer).mpr hgood) hget, hx⟩
  · intro h
    rcases h with ⟨rfl, hpointer | ⟨pointer, hbad, hpointer⟩⟩ | ⟨pointer, found, hfollows, hx⟩
    · exact ⟨cs, none, t, [], hpointer, .pure _ _, (List.append_nil cs).symm⟩
    · refine ⟨cs, some pointer, t, [], hpointer, ?_, (List.append_nil cs).symm⟩
      dsimp only
      rw [if_pos (not_not.mp fun h => hbad ((hpoints pointer).mpr h))]
      exact .pure _ _
    · cases hfollows with
      | intro hpointer hgood hget =>
          refine ⟨_, some pointer, _, _, hpointer, ?_, rfl⟩
          dsimp only
          rw [if_neg ((hpoints pointer).mp hgood)]
          exact (hlast pointer _ _).mpr ⟨found, hget, hx⟩

section Answers
variable {pointer : TagPointer} {blob : Blob}

theorem pointedAnswer_fails (hs : blob.blobMeta.size = pointer.size) {e : AppError}
    (h : StreamFails state.cfg.settings.maxChartBytes blob e) (he : Internal e) :
    pointedAnswer state pointer headOnly (some blob) = .error e := by
  unfold pointedAnswer
  dsimp only
  rw [if_neg (not_not.mpr hs), digestManifestResponse_fails h he]
  obtain ⟨m, rfl⟩ := he
  rfl

theorem pointedAnswer_unusable (h : blob.blobMeta.size ≠ pointer.size ∨
      Unusable state pointer.digest state.cfg.settings.maxChartBytes blob) :
    pointedAnswer state pointer headOnly (some blob) = .ok none := by
  unfold pointedAnswer
  dsimp only
  split
  · rfl
  · rename_i hs
    rw [digestManifestResponse_unusable (h.resolve_left hs)]
    rfl

theorem pointedAnswer_usable (hs : blob.blobMeta.size = pointer.size)
    (h : Usable state pointer.digest state.cfg.settings.maxChartBytes blob) :
    pointedAnswer state pointer headOnly (some blob) = .ok (some (bytesResponse mediaTypeManifest
      pointer.digest (collected blob.data).1 headOnly)) := by
  unfold pointedAnswer
  dsimp only
  rw [if_neg (not_not.mpr hs), digestManifestResponse_usable h]

end Answers

/-- What is read for a tag is a failure, an answer or nothing. -/
theorem cachedTagManifest_cases (h : Promises store) {x : Except AppError (Option Response)}
    (hr : Runs W (cachedTagManifest state store ⟨proxyHost, chart.fullName⟩ reference headOnly
      state.cfg.settings.maxChartBytes) s cs x t) :
    (∃ e, x = .error e ∧ TagCourse W state store proxyHost chart reference headOnly .readFailure
      s cs (.error e) t) ∨
    (∃ response, x = .ok (some response) ∧ TagCourse W state store proxyHost chart reference
      headOnly .served s cs (.ok response) t) ∨
    (x = .ok none ∧ Missing W state store proxyHost chart reference s cs t) := by
  rcases runs_cachedTagManifest_iff.mp hr with
    ⟨e, rfl, hpointer⟩ | ⟨rfl, hpointer | ⟨pointer, hbad, hpointer⟩⟩ | ⟨pointer, found, hfollows, rfl⟩
  · exact Or.inl ⟨e, rfl, .pointerFails hpointer⟩
  · exact Or.inr (Or.inr ⟨rfl, .absent hpointer⟩)
  · exact Or.inr (Or.inr ⟨rfl, .badPointer hpointer hbad⟩)
  · cases found with
    | error e => exact Or.inl ⟨e, rfl, .lookupFails hfollows⟩
    | ok found =>
        cases found with
        | none => exact Or.inr (Or.inr ⟨rfl, .noBlob hfollows⟩)
        | some blob =>
            change (∃ e, pointedAnswer state pointer headOnly (some blob) = _ ∧ _) ∨
              (∃ response, pointedAnswer state pointer headOnly (some blob) = _ ∧ _) ∨
              (pointedAnswer state pointer headOnly (some blob) = _ ∧ _)
            by_cases hs : blob.blobMeta.size = pointer.size
            · rcases blob_cases state pointer.digest state.cfg.settings.maxChartBytes blob with
                ⟨e, hfails⟩ | hbad | hgood
              · have he := (hfollows.reads h).2.2 blob rfl e hfails.2.2
                exact Or.inl ⟨e, pointedAnswer_fails hs hfails he, .streamFails hfollows hs hfails⟩
              · exact Or.inr (Or.inr ⟨pointedAnswer_unusable (Or.inr hbad),
                  .badBlob hfollows (Or.inr hbad)⟩)
              · exact Or.inr (Or.inl ⟨_, pointedAnswer_usable hs hgood, .served hfollows hs hgood⟩)
            · exact Or.inr (Or.inr ⟨pointedAnswer_unusable (Or.inl hs),
                .badBlob hfollows (Or.inl hs)⟩)

theorem runs_of_missing (h : Missing W state store proxyHost chart reference s cs t) :
    Runs W (cachedTagManifest state store ⟨proxyHost, chart.fullName⟩ reference headOnly
      state.cfg.settings.maxChartBytes) s cs (.ok none) t := by
  apply runs_cachedTagManifest_iff.mpr
  cases h with
  | absent hpointer => exact Or.inr (Or.inl ⟨rfl, Or.inl hpointer⟩)
  | badPointer hpointer hbad => exact Or.inr (Or.inl ⟨rfl, Or.inr ⟨_, hbad, hpointer⟩⟩)
  | noBlob hfollows => exact Or.inr (Or.inr ⟨_, _, hfollows, rfl⟩)
  | badBlob hfollows hbad =>
      exact Or.inr (Or.inr ⟨_, _, hfollows, (pointedAnswer_unusable hbad).symm⟩)

theorem Missing.reads (h : Promises store)
    (hm : Missing W state store proxyHost chart reference s cs t) : ∀ c ∈ cs, Reads c.op := by
  cases hm with
  | absent hpointer => exact (h.getTagPointer_runs hpointer).1
  | badPointer hpointer _ => exact (h.getTagPointer_runs hpointer).1
  | noBlob hfollows => exact (hfollows.reads h).1
  | badBlob hfollows _ => exact (hfollows.reads h).1

end Reading

section Writing
variable {S : Type} {W : World Op Ans S} {state : AppState} {store : Storage} {proxyHost : Str}
  {chart : ClassicChart} {reference : Str} {headOnly : Bool} {s t : S} {cs : List (Call Op Ans)}

/-- The three writes end well together or one of them has failed. -/
theorem putArtifact_ends {built : BuiltChart} {r : Except AppError Unit}
    (h : Runs W (putArtifact store built) s cs r t) :
    (r = .ok () ∧ ∀ write ∈ blobWrites store built, Ends write cs (.ok ())) ∨
      ∃ e, r = .error e ∧ ∃ write ∈ blobWrites store built, Ends write cs (.error e) := by
  obtain ⟨cs₁, x, cs₂, hjoin, hrest, rfl⟩ := Follows.of_bind_pure h.follows
  have hend : cs₂ = [] ∧ r = x.map fun _ => () := by
    cases x with
    | error e =>
        obtain ⟨hcs, hr⟩ := follows_pure_iff.mp hrest
        cases hr
        exact ⟨hcs, rfl⟩
    | ok _ =>
        obtain ⟨hcs, hr⟩ := follows_pure_iff.mp hrest
        cases hr
        exact ⟨hcs, rfl⟩
  obtain ⟨rfl, rfl⟩ := hend
  rw [List.append_nil]
  obtain ⟨as, bs, p, q, has, hbs, hp, hq, hended⟩ := Follows.of_tryJoin hjoin
  cases hended with
  | left e => exact Or.inr ⟨e, rfl, _, List.mem_cons_self, as, has, hp⟩
  | right e =>
      obtain ⟨ds, es, p', q', hds, hes, hp', hq', hended⟩ := Follows.of_tryJoin hq
      cases hended with
      | left =>
          exact Or.inr ⟨e, rfl, _, List.mem_cons_of_mem _ List.mem_cons_self, ds, hds.trans hbs, hp'⟩
      | right =>
          exact Or.inr ⟨e, rfl, _, List.mem_cons_of_mem _ (List.mem_cons_of_mem _
            List.mem_cons_self), es, hes.trans hbs, hq'⟩
  | both a b =>
      obtain ⟨ds, es, p', q', hds, hes, hp', hq', hended⟩ := Follows.of_tryJoin hq
      cases hended with
      | both b c =>
          refine Or.inl ⟨rfl, ?_⟩
          intro write hwrite
          simp only [blobWrites, List.mem_cons, List.not_mem_nil, or_false] at hwrite
          rcases hwrite with rfl | rfl | rfl
          · exact ⟨as, has, hp⟩
          · exact ⟨ds, hds.trans hbs, hp'⟩
          · exact ⟨es, hes.trans hbs, hq'⟩

/-- The way past the cache ends in one of the listed ways. -/
theorem buildCourse_iff {r : Except AppError Response} :
    Runs W (buildManifestIn state store proxyHost chart reference headOnly) s cs r t ↔
      ∃ ending, BuildCourse W state store proxyHost chart reference headOnly ending s cs r t := by
  unfold buildManifestIn
  rw [runs_server_bind_iff]
  constructor
  · intro h
    rcases h with ⟨e, rfl, hfetch⟩ | ⟨cs₁, tgz, m, cs', hfetch, hrest, rfl⟩
    · exact ⟨_, .notFetched hfetch⟩
    · cases hbuild : buildChart state proxyHost tgz with
      | error e =>
          rw [hbuild, liftResult_error_bind] at hrest
          obtain ⟨rfl, rfl, rfl⟩ := runs_liftResult hrest
          rw [List.append_nil]
          exact ⟨_, .notBuilt hfetch hbuild⟩
      | ok built =>
          rw [hbuild, liftResult_ok_bind, runs_server_bind_iff] at hrest
          rcases hrest with ⟨e, rfl, hput⟩ | ⟨cs₂, ⟨⟩, m', cs'', hput, hrest, rfl⟩
          · rcases putArtifact_ends hput with ⟨h, _⟩ | ⟨e', he, hfails⟩
            · cases h
            · cases he
              exact ⟨_, .blobWriteFails hfetch hbuild hput hfails⟩
          · have hwritten := (putArtifact_ends hput).resolve_right fun ⟨_, he, _⟩ => nomatch he
            rcases runs_server_bind_iff.mp hrest with
              ⟨e, rfl, hpointer⟩ | ⟨cs₃, ⟨⟩, m'', cs₄, hpointer, hret, rfl⟩
            · exact ⟨_, .pointerWriteFails hfetch hbuild hput hwritten.2 hpointer⟩
            · obtain ⟨rfl, rfl, rfl⟩ := runs_pure_iff.mp hret
              rw [List.append_nil]
              exact ⟨_, .built hfetch hbuild hput hwritten.2 hpointer⟩
  · intro ⟨ending, h⟩
    cases h with
    | notFetched hfetch => exact Or.inl ⟨_, rfl, hfetch⟩
    | notBuilt hfetch hbuild =>
        refine Or.inr ⟨_, _, _, [], hfetch, ?_, (List.append_nil _).symm⟩
        rw [hbuild, liftResult_error_bind]
        exact .pure _ _
    | blobWriteFails hfetch hbuild hput _ =>
        refine Or.inr ⟨_, _, _, _, hfetch, ?_, rfl⟩
        rw [hbuild, liftResult_ok_bind]
        exact runs_server_bind_iff.mpr (Or.inl ⟨_, rfl, hput⟩)
    | pointerWriteFails hfetch hbuild hput _ hpointer =>
        refine Or.inr ⟨_, _, _, _, hfetch, ?_, rfl⟩
        rw [hbuild, liftResult_ok_bind]
        exact runs_server_bind_iff.mpr (Or.inr ⟨_, _, _, _, hput,
          runs_server_bind_iff.mpr (Or.inl ⟨_, rfl, hpointer⟩), rfl⟩)
    | built hfetch hbuild hput _ hpointer =>
        refine Or.inr ⟨_, _, _, _, hfetch, ?_, rfl⟩
        rw [hbuild, liftResult_ok_bind]
        exact runs_server_bind_iff.mpr (Or.inr ⟨_, _, _, _, hput, runs_server_bind_iff.mpr
          (Or.inr ⟨_, _, _, [], hpointer, .pure _ _, (List.append_nil _).symm⟩), rfl⟩)

/-- A request for a tag ends in one of the listed ways. -/
theorem tagCourse_iff {persistent ephemeral : Storage} (hp : Promises persistent)
    (he : Promises ephemeral) (hd : Digest.parse reference = none)
    {r : Except AppError Response} :
    Runs W (manifestIn state persistent ephemeral proxyHost chart reference headOnly) s cs r t ↔
      ∃ ending, TagCourse W state (if chart.ephemeral then ephemeral else persistent) proxyHost
        chart reference headOnly ending s cs r t := by
  unfold manifestIn
  rw [hd]
  dsimp only
  generalize hstore : (if chart.ephemeral then ephemeral else persistent) = store
  have h : Promises store := by
    rw [← hstore]
    split
    · exact he
    · exact hp
  rw [runs_server_bind_iff]
  constructor
  · intro hr
    rcases hr with ⟨e, rfl, hread⟩ | ⟨cs₁, found, m, cs₂, hread, hrest, rfl⟩
    · rcases cachedTagManifest_cases h hread with ⟨_, he, hcourse⟩ | ⟨_, hb, _⟩ | ⟨hb, _⟩
      · cases he
        exact ⟨_, hcourse⟩
      · cases hb
      · cases hb
    · cases found with
      | some response =>
          obtain ⟨rfl, rfl, rfl⟩ := runs_pure_iff.mp hrest
          rw [List.append_nil]
          rcases cachedTagManifest_cases h hread with ⟨_, he, _⟩ | ⟨_, hb, hcourse⟩ | ⟨hb, _⟩
          · cases he
          · cases hb
            exact ⟨_, hcourse⟩
          · cases hb
      | none =>
          rcases cachedTagManifest_cases h hread with ⟨_, he, _⟩ | ⟨_, hb, _⟩ | ⟨-, hmissing⟩
          · cases he
          · cases hb
          · obtain ⟨ending, hbuild⟩ := buildCourse_iff.mp hrest
            exact ⟨ending, .rebuilt hmissing hbuild⟩
  · intro ⟨ending, hcourse⟩
    cases hcourse with
    | pointerFails hpointer =>
        exact Or.inl ⟨_, rfl, runs_cachedTagManifest_iff.mpr (Or.inl ⟨_, rfl, hpointer⟩)⟩
    | lookupFails hfollows =>
        exact Or.inl ⟨_, rfl, runs_cachedTagManifest_iff.mpr (Or.inr (Or.inr ⟨_, _, hfollows, rfl⟩))⟩
    | @streamFails _ _ _ pointer blob e hfollows hs hfails =>
        refine Or.inl ⟨_, rfl, runs_cachedTagManifest_iff.mpr
          (Or.inr (Or.inr ⟨_, _, hfollows, ?_⟩))⟩
        exact (pointedAnswer_fails hs hfails ((hfollows.reads h).2.2 blob rfl e hfails.2.2)).symm
    | served hfollows hs hgood =>
        refine Or.inr ⟨_, some _, _, [], runs_cachedTagManifest_iff.mpr
          (Or.inr (Or.inr ⟨_, _, hfollows, ?_⟩)), .pure _ _, (List.append_nil _).symm⟩
        exact (pointedAnswer_usable hs hgood).symm
    | rebuilt hmissing hbuild =>
        exact Or.inr ⟨_, none, _, _, runs_of_missing hmissing, buildCourse_iff.mpr ⟨_, hbuild⟩, rfl⟩

end Writing

end Helmoci.ManifestCourses
