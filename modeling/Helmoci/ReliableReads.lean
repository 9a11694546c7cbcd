import Helmoci.ManifestCourses
import Helmoci.StorageHistories
import Helmoci.StoredPointers

/-!
# Reading what is stored

In a world whose storage does not fail a read answers with what is there, in any chunks, and
leaves the stores alone. A pointer that is written is there behind the write, and a request
keeps the stores sound.
-/
namespace Helmoci.ReliableReads
open RustText OciDigest JsonDocuments ServerErrors EffectPrograms InterleavedPrograms
  ServerOperations UpstreamRequests BlobStorage RegistryResponses ChartBuild ServerState
  ClassicHandler StoredEntries HandlerCalls ProxiedBlobs ManifestCourses StoreWorlds
  StorageHistories ContentAddresses StoredPointers PlainCrates

section Stores

/-- The bytes and the content type under a digest, in the cache or in the object store. -/
def blobIn : Bool → State → Digest → Option (Bytes × Option Str)
  | true, s, digest =>
    (s.cache (blobKey digest)).map fun entry => (entry.data, some entry.contentType)
  | false, s, digest => (s.objects (blobKey digest)).map fun o => (o.data, o.contentType)

/-- The bytes under a tag. -/
def pointerIn : Bool → State → TagScope → Str → Option Bytes
  | true, s, scope, tag => (s.cache (tagKey scope tag)).map CacheEntry.data
  | false, s, scope, tag =>
    (parsePath (tagKey scope tag)).bind fun path => (s.objects path).map Object.data

/-- A blob of these bytes, in any chunks. -/
structure IsBlob (blob : Blob) (data : Bytes) (contentType : Option Str) : Prop where
  size : blob.blobMeta.size = data.length
  contentType : blob.blobMeta.contentType = contentType
  body : collected blob.data = (data, none)

theorem IsBlob.usable {state : AppState} {digest : Digest} {maxBytes : ℕ} {blob : Blob}
    {data : Bytes} {contentType : Option Str} (h : IsBlob blob data contentType) :
    Usable state digest maxBytes blob ↔ data.length ≤ maxBytes ∧ state.crates.sha256 data = digest ∧
      validHelmManifest state data = true := by
  unfold Usable Intact
  rw [h.size, h.body]
  constructor
  · intro ⟨hsize, _, _, hhash, hform⟩
    exact ⟨hsize, hhash, hform⟩
  · intro ⟨hsize, hhash, hform⟩
    exact ⟨hsize, rfl, rfl, hhash, hform⟩

end Stores

section Reads
variable {app : AppState} {S : Set Bytes} {caps : Capabilities} {w : Writer} {s t : State}
  {digest : Digest} {scope : TagScope} {tag : Str} {cs : List (Call Op Ans)}

theorem backend_promises (ephemeral : Bool) : Promises (backend app ephemeral) := by
  cases ephemeral with
  | true => exact ephemeral_promises _
  | false => exact objectStore_promises _

/-- What a read of a blob comes to. -/
def ReadsBlob (found : Option (Bytes × Option Str)) (r : Except AppError (Option Blob)) : Prop :=
  match found with
  | none => r = .ok none
  | some (data, contentType) => ∃ blob, r = .ok (some blob) ∧ IsBlob blob data contentType

theorem getBlob_reads (ephemeral : Bool) (digest : Digest) :
    Meets (reliable app S caps w) Reads
      (fun r t => ReadsBlob (blobIn ephemeral s digest) r ∧ t = s)
      ((backend app ephemeral).getBlob digest) s := by
  apply Meets.calls (P := fun _ => True) _ ((backend_promises ephemeral).getBlob digest)
  cases ephemeral with
  | true =>
      refine ⟨trivial, ⟨_, s, rfl, rfl⟩, ?_⟩
      rintro r t ⟨ht, hr⟩
      rw [ht, hr]
      dsimp only [blobIn]
      cases s.cache (blobKey digest) with
      | none => exact ⟨rfl, rfl⟩
      | some entry => exact ⟨⟨_, rfl, rfl, rfl, by simp [collected]⟩, rfl⟩
  | false =>
      apply (getBlob_reliable digest).conseq (fun _ h => h)
      rintro r t ⟨ht, hr⟩
      refine ⟨?_, ht⟩
      dsimp only [blobIn]
      cases ho : s.objects (blobKey digest) with
      | none =>
          rw [ho] at hr
          exact hr
      | some o =>
          rw [ho] at hr
          obtain ⟨chunks, hchunks, hr⟩ := hr
          exact ⟨_, hr, rfl, rfl, hchunks ▸ collected_pieces chunks⟩

/-- A tag's bytes that are a pointer are read, from the object store within the bound. -/
theorem getTagPointer_reads (ephemeral : Bool) {data : Bytes} {pointer : TagPointer}
    (hin : pointerIn ephemeral s scope tag = some data)
    (hlen : ephemeral = false → data.length ≤ BlobStorage.ObjectStore.maxTagPointerBytes)
    (hread : app.crates.json.pointer data = some pointer) :
    Meets (reliable app S caps w) Reads (fun r t => r = .ok (some pointer) ∧ t = s)
      ((backend app ephemeral).getTagPointer scope tag) s := by
  apply Meets.calls (P := fun _ => True) _ ((backend_promises ephemeral).getTagPointer scope tag)
  cases ephemeral with
  | true =>
      obtain ⟨entry, hentry, rfl⟩ := Option.map_eq_some_iff.mp hin
      refine ⟨trivial, ⟨_, s, rfl, rfl⟩, ?_⟩
      rintro r t ⟨ht, hr⟩
      rw [ht, hr, hentry]
      exact ⟨congrArg Except.ok hread, rfl⟩
  | false =>
      have hlen := hlen rfl
      obtain ⟨path, hpath, hin⟩ := Option.bind_eq_some_iff.mp hin
      obtain ⟨o, ho, rfl⟩ := Option.map_eq_some_iff.mp hin
      obtain ⟨found, hfound⟩ := reliableGet_exists path s
      change Meets _ _ _ (BlobStorage.ObjectStore.getTagPointer app.crates.json scope tag) s
      unfold BlobStorage.ObjectStore.getTagPointer
      rw [storagePath, hpath, liftResult_ok_bind]
      refine ⟨trivial, ⟨found, s, rfl, hfound⟩, ?_⟩
      rintro r t ⟨ht, hr⟩
      rw [ht]
      unfold reliableGet at hr
      rw [ho] at hr
      obtain ⟨chunks, hchunks, rfl⟩ := hr
      have hchunk := @readPointerChunks_ok [] chunks (by rw [hchunks]; simpa using hlen)
      change Meets _ _ _ (if BlobStorage.ObjectStore.maxTagPointerBytes < o.data.length then
        pure none
        else do
          let data ← liftResult
            (BlobStorage.ObjectStore.readPointerChunks [] (chunks.map .ok))
          return data.bind app.crates.json.pointer : Server (Option TagPointer)) s
      rw [if_neg (Nat.not_lt.mpr hlen), hchunk, liftResult_ok_bind, List.nil_append, hchunks]
      exact ⟨congrArg Except.ok hread, rfl⟩

/-- A pointer that is read is there. -/
theorem pointerIn_of_runs (ephemeral : Bool) {pointer : TagPointer}
    (h : Runs (reliable app S caps w) ((backend app ephemeral).getTagPointer scope tag) s cs
      (.ok (some pointer)) t) :
    t = s ∧ ∃ data, pointerIn ephemeral s scope tag = some data ∧
      app.crates.json.pointer data = some pointer := by
  cases ephemeral with
  | true =>
      obtain ⟨r, m, ds, ⟨hm, hr⟩, hrest, -⟩ := runs_call_iff.mp h
      obtain ⟨-, hpointer, ht⟩ := runs_pure_iff.mp hrest
      obtain ⟨entry, hentry, hread⟩ := Option.bind_eq_some_iff.mp (Except.ok.inj hpointer).symm
      refine ⟨ht.trans hm, entry.data, ?_, hread⟩
      dsimp only [pointerIn]
      rw [← hr, hentry]
      rfl
  | false =>
      change Runs _ (BlobStorage.ObjectStore.getTagPointer app.crates.json scope tag) s cs _ t at h
      unfold BlobStorage.ObjectStore.getTagPointer storagePath at h
      cases hpath : parsePath (tagKey scope tag) with
      | none =>
          rw [hpath] at h
          obtain ⟨-, hr, -⟩ := runs_liftResult h
          cases hr
      | some path =>
          rw [hpath] at h
          obtain ⟨r, m, ds, ⟨hm, hr⟩, hrest, -⟩ := runs_call_iff.mp h
          unfold reliableGet at hr
          cases ho : s.objects path with
          | none =>
              rw [ho] at hr
              subst hr
              obtain ⟨-, hpointer, -⟩ := runs_pure_iff.mp hrest
              cases hpointer
          | some o =>
              rw [ho] at hr
              obtain ⟨chunks, hchunks, rfl⟩ := hr
              change Runs _ (if BlobStorage.ObjectStore.maxTagPointerBytes < o.data.length then
                pure none
                else do
                  let data ← liftResult
                    (BlobStorage.ObjectStore.readPointerChunks [] (chunks.map .ok))
                  return data.bind app.crates.json.pointer : Server (Option TagPointer)) m ds _ t
                at hrest
              by_cases hlen : BlobStorage.ObjectStore.maxTagPointerBytes < o.data.length
              · rw [if_pos hlen] at hrest
                obtain ⟨-, hpointer, -⟩ := runs_pure_iff.mp hrest
                cases hpointer
              · have hchunk := @readPointerChunks_ok [] chunks
                  (by rw [hchunks]; simpa using hlen)
                rw [if_neg hlen, hchunk, liftResult_ok_bind] at hrest
                obtain ⟨-, hpointer, ht⟩ := runs_pure_iff.mp hrest
                have hread := (Except.ok.inj hpointer).symm
                rw [List.nil_append, hchunks] at hread
                refine ⟨ht.trans hm, o.data, ?_, hread⟩
                dsimp only [pointerIn]
                rw [hpath, Option.bind_some, ho]
                rfl

theorem validHelmManifest_helmManifest (hjson : JsonLaws app.crates.json) (config layer : Digest)
    {configSize layerSize : ℕ} (hconfig : configSize < 2 ^ 64) (hlayer : layerSize < 2 ^ 64) :
    validHelmManifest app (encodeManifest (helmManifest config layer configSize layerSize)) =
      true := by
  unfold validHelmManifest
  rw [hjson.manifest config layer _ _ hconfig hlayer]
  simp [helmManifest]

/-- A tag whose pointer leads to a manifest within the limit is answered from the store. -/
theorem cachedTagManifest_reads {ephemeral : Bool} {pointerData data : Bytes}
    {pointer : TagPointer} {contentType : Option Str} (headOnly : Bool)
    (hin : pointerIn ephemeral s scope tag = some pointerData)
    (hlen : ephemeral = false →
      pointerData.length ≤ BlobStorage.ObjectStore.maxTagPointerBytes)
    (hread : app.crates.json.pointer pointerData = some pointer) (hpoints : Points app pointer)
    (hblob : blobIn ephemeral s pointer.digest = some (data, contentType))
    (hsize : data.length = pointer.size) (hhash : app.crates.sha256 data = pointer.digest)
    (hform : validHelmManifest app data = true) :
    Meets (reliable app S caps w) Reads
      (fun r t => r = .ok (some (bytesResponse mediaTypeManifest pointer.digest data headOnly)) ∧
        t = s)
      (cachedTagManifest app (backend app ephemeral) scope tag headOnly
        app.cfg.settings.maxChartBytes) s := by
  rw [cachedTagManifest_eq]
  refine meets_bind (getTagPointer_reads ephemeral hin hlen hread) ?_ (fun _ _ h => nomatch h.1)
  intro found t ⟨hfound, ht⟩
  cases hfound
  subst ht
  have hgood : ¬ (pointer.mediaType ≠ mediaTypeManifest ∨
      app.cfg.settings.maxChartBytes < pointer.size) := by
    rw [not_or, not_not, Nat.not_lt]
    exact hpoints
  dsimp only
  rw [if_neg hgood]
  refine meets_bind (getBlob_reads ephemeral pointer.digest) ?_ ?_
  · intro found t ⟨hfound, ht⟩
    rw [hblob] at hfound
    obtain ⟨blob, hfound, hisBlob⟩ := hfound
    cases hfound
    have husable : Usable app pointer.digest app.cfg.settings.maxChartBytes blob :=
      hisBlob.usable.mpr ⟨hsize ▸ hpoints.2, hhash, hform⟩
    rw [pointedAnswer_usable (hisBlob.size.trans hsize) husable, hisBlob.body]
    exact ⟨rfl, ht⟩
  · intro e t ⟨hfound, _⟩
    rw [hblob] at hfound
    obtain ⟨_, hfound, -⟩ := hfound
    cases hfound

/-- A blob in the object store is found there. -/
theorem findBlob_reads {data : Bytes} {contentType : Option Str}
    (h : blobIn false s digest = some (data, contentType)) :
    Meets (reliable app S caps w) Reads
      (fun r t => (∃ blob, r = .ok (some blob) ∧ IsBlob blob data contentType) ∧ t = s)
      (findBlob app digest) s := by
  refine meets_bind (getBlob_reads false digest) ?_ ?_
  · intro found t ⟨hfound, ht⟩
    rw [h] at hfound
    obtain ⟨blob, hfound, hisBlob⟩ := hfound
    cases hfound
    exact ⟨⟨blob, rfl, hisBlob⟩, ht⟩
  · intro e t ⟨hfound, _⟩
    rw [h] at hfound
    obtain ⟨_, hfound, -⟩ := hfound
    cases hfound

end Reads

section Writes
variable {app : AppState} {S : Set Bytes} {caps : Capabilities} {s t : State}
  {cs : List (Call Op Ans)}

/-- Calls that write nothing leave the stores alone. -/
theorem reliable_reads {w : Writer} {op : Op} {r : Ans op} (hop : writes op = false)
    (h : reliable app S caps w op s r t) : AnswerWithin app S op r ∧ t = s := by
  cases op with
  | put _ _ _ _ | cacheOrInsert _ _ | cacheInsert _ _ => contradiction
  | http request => exact ⟨h.2, h.1⟩
  | head path => exact ⟨trivial, h.1⟩
  | get path => exact ⟨trivial, h.1⟩
  | cacheGet key => exact ⟨trivial, h.1⟩
  | indexGet _ | indexInsert _ _ | liveToken _ | insertToken _ _ | gcpAccessToken | turn =>
      exact ⟨trivial, h⟩

theorem reading_runs {w : Writer} {A : Type} (tag : Option (TagScope × Str)) {Q : A → Prop}
    {p : Server A} {r : Except AppError A}
    (h : Ensures (AnswerWithin app S) (reading tag).allows (OnOk Q) p)
    (hr : Runs (reliable app S caps w) p s cs r t) : OnOk Q r ∧ t = s := by
  have hguards : Guards (reliable app S caps w) (· = ·) (fun _ s _ t => t = s)
      (fun r _ => OnOk Q r) p s :=
    Guards.of_ensures h fun _ _ _ _ hop hw => reliable_reads (not_writes_of_reading hop) hw
  have hend := hguards.runs (fun _ => rfl) hr
  refine ⟨hend, ?_⟩
  exact hguards.preserves (I := fun u => u = s) (fun _ => rfl)
    (fun _ _ _ _ h hi => h.trans hi) hr rfl

/-- What is put has one of these content types, or none. -/
def PutsType (T : Str → Prop) : Op → Prop
  | .put _ _ attributes _ => ∀ c ∈ attributes.contentType, T c
  | _ => True

/-- An object that was not there before has one of the content types. -/
theorem typed_of_runs {w : Writer} {A : Type} {p : Program Op Ans A} {a : A} {T : Str → Prop}
    (hr : Runs (reliable app S caps w) p s cs a t) (hcs : ∀ c ∈ cs, PutsType T c.op) :
    ∀ path o, t.objects path = some o → s.objects path = some o ∨ ∀ c ∈ o.contentType, T c := by
  induction hr with
  | pure a s => exact fun _ _ ho => Or.inl ho
  | @call op next s m t r cs a hw _ ih =>
      obtain ⟨hop, hcs⟩ := List.forall_mem_cons.mp hcs
      intro path o ho
      rcases ih hcs path o ho with ho | ho
      · by_cases hwrites : ∃ p data attributes mode, op = .put p data attributes mode
        · obtain ⟨p, data, attributes, mode, rfl⟩ := hwrites
          have hput : m = s ∨ m = s.store p ⟨data, attributes.contentType, w⟩ := by
            rcases faulty_of_reliable hw with ⟨-, hm⟩ | ⟨_, -, -, hm⟩
            · exact Or.inr hm
            · exact hm
          rcases hput with rfl | rfl
          · exact Or.inl ho
          · rw [State.store_objects] at ho
            split at ho
            · cases ho
              exact Or.inr hop
            · exact Or.inl ho
        · have hsame : m.objects = s.objects := by
            have hfaulty := faulty_of_reliable hw
            cases op with
            | put p data attributes mode => exact absurd ⟨p, data, attributes, mode, rfl⟩ hwrites
            | head _ | http _ => exact congrArg State.objects hfaulty.1
            | _ => exact hfaulty
          exact Or.inl (hsame ▸ ho)
      · exact Or.inr ho

theorem putBlob_putsType {digest : Digest} {contentType : Str} {data : Bytes} {T : Str → Prop}
    (hT : T contentType) : Ensures Anything (PutsType T) (fun _ => True)
      (BlobStorage.ObjectStore.putBlob digest contentType data) := by
  apply (putBlob_ensures (P := PutsType T) trivial _).conseq (fun _ hop => hop)
    fun _ _ => trivial
  intro attributes mode hattributes c hc
  exact hattributes c hc ▸ hT

/-- A blob that is there stays, and another one is stored with its content type or none. -/
theorem putBlob_runs {w : Writer} {digest : Digest} {contentType : Str} {data : Bytes}
    {r : Except AppError Unit}
    (h : Runs (reliable app S caps w) (BlobStorage.ObjectStore.putBlob digest contentType data) s cs
      r t) :
    ((s.objects (blobKey digest)).isSome = true ∧ t = s) ∨
      (s.objects (blobKey digest) = none ∧ ∃ kept, (∀ c ∈ kept, c = contentType) ∧
        t = s.store (blobKey digest) ⟨data, kept, w⟩) := by
  cases ho : s.objects (blobKey digest) with
  | none =>
      refine Or.inr ⟨rfl, ?_⟩
      obtain ⟨⟨-, kept, rfl⟩, -⟩ := (putBlob_reliable ho contentType data).runs h
      have hcalls := ((putBlob_putsType (T := (· = contentType)) rfl).follows h.follows).1
      have hkept := typed_of_runs h hcalls (blobKey digest) _ (if_pos rfl)
      rw [ho] at hkept
      exact ⟨kept, hkept.resolve_left nofun, rfl⟩
  | some o =>
      refine Or.inl ⟨rfl, ?_⟩
      have hsame : Meets (reliable app S caps w) (fun _ => True) (fun _ t => t = s)
          (BlobStorage.ObjectStore.putBlob digest contentType data) s := by
        unfold BlobStorage.ObjectStore.putBlob
        rw [storagePath_blobKey, liftResult_ok_bind]
        refine meets_bind (alreadyStored_reliable _) ?_ (fun _ _ h => h.2)
        intro found t ⟨hfound, ht⟩
        rw [ho] at hfound
        cases hfound
        exact ht
      exact (hsame.runs h).1

/-- A pointer that is written is there, and the blobs stay as they are. -/
theorem pointerIn_of_putTagPointer {w : Writer} (ephemeral : Bool) {scope : TagScope} {tag : Str}
    {pointer : TagPointer}
    (h : Runs (reliable app S caps w) ((backend app ephemeral).putTagPointer scope tag pointer) s cs
      (.ok ()) t) :
    pointerIn ephemeral t scope tag = some (encodePointer pointer) ∧
      ∀ inCache digest, blobIn inCache t digest = blobIn inCache s digest := by
  cases ephemeral with
  | true =>
      obtain ⟨r, m, ds, hw, hrest, -⟩ := runs_call_iff.mp h
      obtain ⟨-, -, rfl⟩ := runs_pure_iff.mp hrest
      change t = s.cacheInsert (tagKey scope tag) _ at hw
      subst hw
      constructor
      · dsimp only [pointerIn]
        rw [State.cacheInsert_cache, if_pos rfl]
        rfl
      · intro inCache digest
        cases inCache with
        | true =>
            dsimp only [blobIn]
            rw [State.cacheInsert_cache, if_neg (StorageKeys.tagKey_ne_blobKey digest).symm]
        | false => rfl
  | false =>
      change Runs _ (BlobStorage.ObjectStore.putTagPointer scope tag pointer) s cs _ t at h
      unfold BlobStorage.ObjectStore.putTagPointer storagePath at h
      cases hpath : parsePath (tagKey scope tag) with
      | none =>
          rw [hpath] at h
          obtain ⟨-, hr, -⟩ := runs_liftResult h
          cases hr
      | some path =>
          rw [hpath] at h
          obtain ⟨r, m, ds, hw, hrest, -⟩ := runs_call_iff.mp h
          change reliablePut caps w path (encodePointer pointer) {} .overwrite s r m at hw
          have haccepts : caps.accepts {} = true := rfl
          simp only [reliablePut, haccepts, Bool.true_eq_false, if_false, reduceCtorEq,
            false_and] at hw
          obtain ⟨rfl, rfl⟩ := hw
          obtain ⟨-, -, rfl⟩ := runs_pure_iff.mp hrest
          constructor
          · dsimp only [pointerIn]
            rw [hpath, Option.bind_some, State.store_objects, if_pos rfl]
            rfl
          · intro inCache digest
            cases inCache with
            | true => rfl
            | false =>
                dsimp only [blobIn]
                rw [State.store_objects, if_neg (blobKey_ne_of_tagKey hpath).symm]

end Writes

section Computed

/-- Every capability. -/
def fullCapabilities : Capabilities := ⟨true, true, true⟩

/-- The reliable world that sends each body whole, with these upstreams. -/
def reliableAnswer (upstream : HttpRequest → Except Str HttpResponse) (w : Writer) :
    (op : Op) → State → Ans op × State
  | .head path, s => ((s.objects path).elim (.error .notFound) fun o => .ok o.data.length, s)
  | .get path, s => ((s.objects path).elim (.error .notFound) fun o =>
      .ok ⟨o.data.length, o.contentType, [.ok o.data]⟩, s)
  | .put path data attributes mode, s =>
    if mode = .create ∧ (s.objects path).isSome = true then (.error .alreadyExists, s)
    else (.ok (), s.store path ⟨data, attributes.contentType, w⟩)
  | .cacheGet key, s => (s.cache key, s)
  | .cacheOrInsert key entry, s => ((), s.cacheOrInsert key entry)
  | .cacheInsert key entry, s => ((), s.cacheInsert key entry)
  | .http request, s => (upstream request, s)
  | op, s => (someAnswer op, s)

theorem reliableAnswer_reliable {app : AppState} {S : Set Bytes}
    {upstream : HttpRequest → Except Str HttpResponse}
    (h : ∀ request, AnswerWithin app S (.http request) (upstream request)) (w : Writer) (op : Op)
    (s : State) : reliable app S fullCapabilities w op s (reliableAnswer upstream w op s).1
      (reliableAnswer upstream w op s).2 := by
  cases op with
  | get path =>
      refine ⟨rfl, ?_⟩
      dsimp only [reliableAnswer, reliableGet]
      cases s.objects path with
      | none => exact rfl
      | some o => exact ⟨[o.data], by simp, rfl⟩
  | put path data attributes mode =>
      have haccepts : fullCapabilities.accepts attributes = true := by
        simp [Capabilities.accepts, fullCapabilities]
      have hcreates : ¬ (mode = .create ∧ fullCapabilities.conditionalCreate = false) :=
        fun hno => nomatch hno.2
      change reliablePut fullCapabilities w path data attributes mode s _ _
      unfold reliablePut
      rw [if_neg (by rw [haccepts]; exact Bool.noConfusion), if_neg hcreates]
      dsimp only [reliableAnswer]
      split
      · exact ⟨rfl, rfl⟩
      · exact ⟨rfl, rfl⟩
  | http request => exact ⟨rfl, h request⟩
  | head path => exact ⟨rfl, rfl⟩
  | cacheGet key => exact ⟨rfl, rfl⟩
  | cacheOrInsert key entry => exact rfl
  | cacheInsert key entry => exact rfl
  | _ => exact rfl

/-- All that the server makes of the demo's repository. -/
def demoContent : List Bytes :=
  [Utf8.asBytes demoIndexText, demoTgz, demoConfig, demoBuilt.manifestBytes]

theorem demoContent_injOn : Set.InjOn demoCrates.sha256 {b | b ∈ demoContent} := by
  have hinj : ∀ a ∈ demoContent, ∀ b ∈ demoContent,
      demoCrates.sha256 a = demoCrates.sha256 b → a = b := by decide +kernel
  exact fun a ha b hb => hinj a ha b hb

theorem length_demoContent : ∀ b ∈ {b | b ∈ demoContent}, b.length < 2 ^ 64 := by
  have hlen : ∀ b ∈ demoContent, b.length < 2 ^ 64 := by decide +kernel
  exact hlen

/-- What is no archive is made into no chart. -/
theorem buildChart_of_reader {app : AppState} {proxyHost : Str} {tgz : Bytes} {e : Str}
    (h : app.crates.reader tgz = .error e) (built : BuiltChart) :
    buildChart app proxyHost tgz ≠ .ok built := by
  have hunpack : ∀ limits, (TarUnpacking.unpackTgzWithLimits app.crates.platform limits
      app.crates.reader tgz).1 = .error (TarUnpacking.invalid e) := by
    intro limits
    unfold TarUnpacking.unpackTgzWithLimits
    rw [h]
  have hconfig : ∀ limits, chartConfigFromTgz app.crates.toChartCrates limits tgz =
      .error (TarUnpacking.invalid e) := by
    intro limits
    unfold chartConfigFromTgz
    rw [hunpack]
    rfl
  have hbuild : ∀ ctx limits, ∃ e', buildHelmOciChart app.crates.toChartCrates ctx limits tgz =
      .error e' := by
    intro ctx limits
    refine ⟨TarUnpacking.invalid e, ?_⟩
    unfold buildHelmOciChart rewriteChartDependencies
    dsimp only
    split
    · change (chartConfigFromTgz app.crates.toChartCrates limits tgz >>= fun config =>
        (pure (assemble app.crates.toChartCrates config tgz []) :
          Except HelmError BuiltChart)) = _
      rw [hconfig]
      rfl
    · rw [hunpack]
      rfl
  obtain ⟨e', he⟩ := hbuild (rewriteContext app proxyHost) (archiveLimits app)
  unfold buildChart
  rw [he]
  exact nofun

theorem demoUpstream_within {maxChartBytes : ℕ} (h : maxChartBytes ≤ 500 * 1024 * 1024)
    (request : HttpRequest) :
    AnswerWithin (demoState maxChartBytes) {b | b ∈ demoContent} (.http request)
      (demoUpstream request) := by
  have hlimits : archiveLimits (demoState maxChartBytes) =
      .forExpandedBytes (500 * 1024 * 1024) := by
    change TarUnpacking.ArchiveLimits.forExpandedBytes
      (if 500 * 1024 * 1024 < maxChartBytes then maxChartBytes else 500 * 1024 * 1024) = _
    rw [if_neg (Nat.not_lt.mpr h)]
  have hindex : handled (demoState maxChartBytes) (Utf8.asBytes demoIndexText) ⊆
      {b | b ∈ demoContent} := by
    rintro b (rfl | ⟨proxyHost, built, hbuilt, -⟩)
    · exact List.mem_cons_self
    · have hreader : demoCrates.reader (Utf8.asBytes demoIndexText) =
          .error (str "not a gzip file") := by
        have hne : Utf8.asBytes demoIndexText ≠ demoTgz := by decide
        simp only [demoCrates, hne, if_false]
      exact (buildChart_of_reader hreader built hbuilt).elim
  have hchart : handled (demoState maxChartBytes) demoTgz ⊆ {b | b ∈ demoContent} := by
    rintro b (rfl | ⟨proxyHost, built, hbuilt, hb⟩)
    · simp [demoContent]
    · have hdemo : buildChart (demoState maxChartBytes) proxyHost demoTgz = .ok demoBuilt := by
        unfold buildChart
        rw [hlimits]
        exact congrArg _ (buildHelmOciChart_demo _)
      rw [hdemo] at hbuilt
      cases hbuilt
      simp only [List.mem_cons, List.not_mem_nil, or_false] at hb
      rcases hb with rfl | rfl | rfl <;> simp [demoContent, demoBuilt, assemble]
  unfold demoUpstream
  split
  · exact hindex
  · split
    · exact hchart
    · trivial

end Computed

end Helmoci.ReliableReads
