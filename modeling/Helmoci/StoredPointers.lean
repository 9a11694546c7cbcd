import Helmoci.ContentAddresses
import Helmoci.StoreWorlds

/-!
# Tag pointers and what they name

Requests for content run among each other over a store in which any call may fail and
nothing is deleted. A pointer is written behind the blobs that it names, and what is stored
under a digest keeps its hash, so every pointer leads to a blob of its size.
-/
namespace Helmoci.StoredPointers
open RustText NameResolver OciDigest JsonDocuments ServerErrors EffectPrograms InterleavedPrograms
  ServerOperations UpstreamRequests BlobStorage RegistryResponses ChartBuild ServerState
  ClassicHandler PassthroughHandler ManifestMediaTypes StoredEntries HandlerCalls StoreWorlds
  ContentAddresses PlainCrates

section Worlds

/-- A write that succeeds, or fails with the object written or not. That an object is there
already is only said of one that is. -/
def faultyPut (w : Writer) (path : Str) (data : Bytes) (attributes : Attributes) (s : State)
    (r : Except ObjectError Unit) (t : State) : Prop :=
  (r = .ok () ∧ t = s.store path ⟨data, attributes.contentType, w⟩) ∨
    ∃ e, r = .error e ∧ (e = .alreadyExists → (s.objects path).isSome = true) ∧
      (t = s ∨ t = s.store path ⟨data, attributes.contentType, w⟩)

/-- The answers of a storage any of whose calls may fail. What is read may be anything. -/
def faulty (app : AppState) (S : Set Bytes) (w : Writer) : World Op Ans State
  | .head path, s, r, t => t = s ∧ ∀ size, r = .ok size → (s.objects path).isSome = true
  | .put path data attributes _, s, r, t => faultyPut w path data attributes s r t
  | .http request, s, r, t => t = s ∧ AnswerWithin app S (.http request) r
  | _, s, _, t => t.objects = s.objects

/-- A storage that does not fail is one that may. -/
theorem faulty_of_reliable {app : AppState} {S : Set Bytes} {caps : Capabilities} {w : Writer}
    {op : Op} {s t : State} {r : Ans op} (h : reliable app S caps w op s r t) :
    faulty app S w op s r t := by
  cases op with
  | head path =>
      obtain ⟨ht, hr⟩ := h
      refine ⟨ht, ?_⟩
      intro size hsize
      cases ho : s.objects path with
      | none =>
          rw [ho] at hr
          rw [hr] at hsize
          cases hsize
      | some o => rfl
  | put path data attributes mode =>
      change reliablePut caps w path data attributes mode s r t at h
      unfold reliablePut at h
      split at h
      · obtain ⟨hr, ht⟩ := h
        rcases hr with rfl | rfl <;> exact Or.inr ⟨_, rfl, nofun, Or.inl ht⟩
      · split at h
        · obtain ⟨hr, ht⟩ := h
          rcases hr with rfl | rfl | rfl <;> exact Or.inr ⟨_, rfl, nofun, Or.inl ht⟩
        · split at h
          · rename_i hthere
            obtain ⟨rfl, ht⟩ := h
            exact Or.inr ⟨_, rfl, fun _ => hthere.2, Or.inl ht⟩
          · exact Or.inl h
  | http request => exact h
  | get path => exact congrArg State.objects h.1
  | cacheGet key => exact congrArg State.objects h.1
  | cacheOrInsert key entry =>
      change t = s.cacheOrInsert key entry at h
      exact h ▸ State.cacheOrInsert_objects s key entry
  | cacheInsert key entry =>
      change t = s.cacheInsert key entry at h
      exact h ▸ State.cacheInsert_objects s key entry
  | indexGet _ | indexInsert _ _ | liveToken _ | insertToken _ _ | gcpAccessToken | turn =>
      exact congrArg State.objects h

end Worlds

section Definitions
variable (app : AppState) (S : Set Bytes)

/-- The handler that a request runs. -/
def writer : Request → Writer
  | .classicManifest .. | .classicBlob .. => .classic
  | .manifest .. | .blob .. => .passthrough

def IsTagPath (path : Str) : Prop := ∃ scope tag, parsePath (tagKey scope tag) = some path

/-- Something is stored under the digest. -/
def Present (s : State) (digest : Digest) : Prop := (s.objects (blobKey digest)).isSome = true

/-- The blob is stored. -/
def HasBlob (s : State) (digest : Digest) (data : Bytes) : Prop :=
  ∃ o, s.objects (blobKey digest) = some o ∧ o.data = data

/-- The object is a pointer to a stored blob of its size and, from the classic handler, to a
manifest whose config and layers are stored. -/
def Refers (json : JsonCrate) (s : State) (o : Object) : Prop :=
  ∃ pointer data, json.pointer o.data = some pointer ∧ HasBlob s pointer.digest data ∧
    data.length = pointer.size ∧
    (o.writer = .classic → ∃ manifest, json.manifest data = some manifest ∧
      ∀ d ∈ manifest.config :: manifest.layers, ∃ content, HasBlob s d.digest content ∧
        content.length = d.size)

/-- The object is a pointer to bytes that the server has handled, and something is stored
under each digest that it leads to. -/
def Leads (s : State) (o : Object) : Prop :=
  ∃ pointer data, app.crates.json.pointer o.data = some pointer ∧ data ∈ S ∧
    pointer.digest = app.crates.sha256 data ∧ pointer.size = data.length ∧
    Present s pointer.digest ∧
    (o.writer = .classic → ∃ manifest, app.crates.json.manifest data = some manifest ∧
      ∀ d ∈ manifest.config :: manifest.layers, ∃ content ∈ S,
        d.digest = app.crates.sha256 content ∧ d.size = content.length ∧ Present s d.digest)

structure Sound (s : State) : Prop where
  blobs : ∀ digest o, s.objects (blobKey digest) = some o →
    o.data ∈ S ∧ app.crates.sha256 o.data = digest
  pointers : ∀ path, IsTagPath path → ∀ o, s.objects path = some o → Leads app S s o

/-- What is stored stays stored. -/
def Grows (s t : State) : Prop := ∀ digest, Present s digest → Present t digest

/-- A call stores nothing, a blob under its digest or a pointer behind its blobs. -/
def inOrder (w : Writer) : Guarantee Op Ans State := fun _ s _ t =>
  t.objects = s.objects ∨
    (∃ data contentType, data ∈ S ∧
      t = s.store (blobKey (app.crates.sha256 data)) ⟨data, contentType, w⟩) ∨
    ∃ path o, IsTagPath path ∧ Leads app S s o ∧ t = s.store path o

end Definitions

section Steps
variable {app : AppState} {S : Set Bytes} {w : Writer} {s t : State}

theorem Grows.refl (s : State) : Grows s s := fun _ h => h

theorem Grows.trans {u : State} (h : Grows s t) (h' : Grows t u) : Grows s u :=
  fun digest hs => h' digest (h digest hs)

theorem grows_of_objects (h : t.objects = s.objects) : Grows s t := by
  intro digest hs
  unfold Present at hs ⊢
  rwa [h]

theorem grows_store (s : State) (path : Str) (o : Object) : Grows s (s.store path o) := by
  intro digest hs
  unfold Present at hs ⊢
  rw [State.store_objects]
  split
  · rfl
  · exact hs

theorem present_store (s : State) (digest : Digest) (o : Object) :
    Present (s.store (blobKey digest) o) digest := by
  unfold Present
  rw [State.store_objects, if_pos rfl]
  rfl

theorem Leads.grows {o : Object} (h : Leads app S s o) (hg : Grows s t) : Leads app S t o := by
  obtain ⟨pointer, data, hread, hdata, hdigest, hsize, hthere, hclassic⟩ := h
  refine ⟨pointer, data, hread, hdata, hdigest, hsize, hg _ hthere, ?_⟩
  intro hw
  obtain ⟨manifest, hmanifest, hall⟩ := hclassic hw
  refine ⟨manifest, hmanifest, ?_⟩
  intro d hd
  obtain ⟨content, hcontent, hcd, hcs, hpresent⟩ := hall d hd
  exact ⟨content, hcontent, hcd, hcs, hg _ hpresent⟩

theorem inOrder_grows {op : Op} {r : Ans op} (h : inOrder app S w op s r t) : Grows s t := by
  rcases h with h | ⟨data, contentType, -, rfl⟩ | ⟨path, o, -, -, rfl⟩
  · exact grows_of_objects h
  · exact grows_store s _ _
  · exact grows_store s _ _

/-- One call keeps the stores sound. -/
theorem inOrder_sound {op : Op} {r : Ans op} (h : inOrder app S w op s r t)
    (hs : Sound app S s) : Sound app S t := by
  have hgrows := inOrder_grows h
  rcases h with h | ⟨data, contentType, hdata, rfl⟩ | ⟨path, o, htag, hleads, rfl⟩
  · constructor
    · intro digest o ho
      rw [h] at ho
      exact hs.blobs digest o ho
    · intro path htag o ho
      rw [h] at ho
      exact (hs.pointers path htag o ho).grows hgrows
  · constructor
    · intro digest o ho
      rw [State.store_objects] at ho
      split at ho
      · rename_i hkey
        cases ho
        exact ⟨hdata, (blobKey_inj.mp hkey).symm⟩
      · exact hs.blobs digest o ho
    · intro path htag o ho
      obtain ⟨scope, tag, hpath⟩ := htag
      rw [State.store_objects, if_neg (blobKey_ne_of_tagKey hpath)] at ho
      exact (hs.pointers path ⟨scope, tag, hpath⟩ o ho).grows hgrows
  · obtain ⟨scope, tag, hpath⟩ := htag
    constructor
    · intro digest o' ho
      rw [State.store_objects, if_neg (Ne.symm (blobKey_ne_of_tagKey hpath))] at ho
      exact hs.blobs digest o' ho
    · intro path' htag' o' ho
      rw [State.store_objects] at ho
      split at ho
      · cases ho
        exact hleads.grows hgrows
      · exact (hs.pointers path' htag' o' ho).grows hgrows

/-- Where the hash tells the handled bytes apart, a pointer leads to the blob it was written for. -/
theorem Leads.refers (hS : S.InjOn app.crates.sha256) (hs : Sound app S s) {o : Object}
    (h : Leads app S s o) : Refers app.crates.json s o := by
  have found : ∀ digest data, data ∈ S → digest = app.crates.sha256 data → Present s digest →
      HasBlob s digest data := by
    intro digest data hdata hdigest hpresent
    obtain ⟨o, ho⟩ := Option.isSome_iff_exists.mp hpresent
    obtain ⟨hin, hhash⟩ := hs.blobs digest o ho
    exact ⟨o, ho, hS hin hdata (hhash.trans hdigest)⟩
  obtain ⟨pointer, data, hread, hdata, hdigest, hsize, hthere, hclassic⟩ := h
  refine ⟨pointer, data, hread, found _ _ hdata hdigest hthere, hsize.symm, ?_⟩
  intro hw
  obtain ⟨manifest, hmanifest, hall⟩ := hclassic hw
  refine ⟨manifest, hmanifest, ?_⟩
  intro d hd
  obtain ⟨content, hcontent, hcd, hcs, hpresent⟩ := hall d hd
  exact ⟨content, found _ _ hcontent hcd hpresent, hcs.symm⟩

end Steps

section Writes
variable {app : AppState} {S : Set Bytes} {w : Writer} {s : State} {data : Bytes}

/-- Calls that only read leave the objects alone, and the answers stay within the set. -/
theorem faulty_reads {op : Op} {t : State} {r : Ans op} (hw : writes op = false)
    (h : faulty app S w op s r t) : AnswerWithin app S op r ∧ inOrder app S w op s r t := by
  cases op with
  | put _ _ _ _ | cacheOrInsert _ _ | cacheInsert _ _ => contradiction
  | http request => exact ⟨h.2, Or.inl (congrArg State.objects h.1)⟩
  | head path => exact ⟨trivial, Or.inl (congrArg State.objects h.1)⟩
  | _ => exact ⟨trivial, Or.inl h⟩

theorem reading_guards {A : Type} (tag : Option (TagScope × Str)) {Q : A → Prop} {p : Server A}
    (h : Ensures (AnswerWithin app S) (reading tag).allows (OnOk Q) p) :
    Guards (faulty app S w) Grows (inOrder app S w) (fun r _ => OnOk Q r) p s :=
  Guards.of_ensures h fun _ _ _ _ hop hw => faulty_reads (not_writes_of_reading hop) hw

/-- One program behind another, whatever the end. -/
theorem guards_seq {A B : Type} {Q : Except AppError A → State → Prop} {p : Server A}
    {f : A → Server B} (h : Guards (faulty app S w) Grows (inOrder app S w) Q p s)
    (hf : ∀ a t, Q (.ok a) t →
      Guards (faulty app S w) Grows (inOrder app S w) (fun _ _ => True) (f a) t) :
    Guards (faulty app S w) Grows (inOrder app S w) (fun _ _ => True) (p >>= f : Server B) s :=
  Guards.tryBind Grows.refl h (fun _ _ _ _ _ => trivial) hf

theorem alreadyStored_guards {digest : Digest} :
    Guards (faulty app S w) Grows (inOrder app S w)
      (fun r s => ∃ found, r = .ok found ∧ (found = true → Present s digest))
      (ObjectStore.alreadyStored (blobKey digest)) s := by
  intro m _ r t ⟨ht, hfound⟩
  subst ht
  refine ⟨Or.inl rfl, ?_⟩
  cases r with
  | error e =>
      intro u _
      exact ⟨false, rfl, nofun⟩
  | ok size =>
      intro u hu
      exact ⟨true, rfl, fun _ => hu digest (hfound size rfl)⟩

/-- A put that is taken for a success has left something under the digest. -/
theorem putOnce_guards (hdata : data ∈ S) {attributes : Attributes} {mode : PutMode} :
    Guards (faulty app S w) Grows (inOrder app S w)
      (fun r s => ∃ written, r = .ok written ∧
        (written = .ok () → Present s (app.crates.sha256 data)))
      (ObjectStore.putOnce (blobKey (app.crates.sha256 data)) data attributes mode) s := by
  intro m _ r t hw
  have hstored : t = m.store (blobKey (app.crates.sha256 data)) ⟨data, attributes.contentType, w⟩ →
      inOrder app S w (.put (blobKey (app.crates.sha256 data)) data attributes mode) m r t :=
    fun ht => Or.inr (Or.inl ⟨data, attributes.contentType, hdata, ht⟩)
  rcases hw with ⟨rfl, ht⟩ | ⟨e, rfl, hthere, ht⟩
  · refine ⟨hstored ht, ?_⟩
    intro u hu
    exact ⟨_, rfl, fun _ => hu _ (ht ▸ present_store m _ _)⟩
  · have hgrows : Grows m t := by
      rcases ht with rfl | rfl
      · exact Grows.refl _
      · exact grows_store m _ _
    constructor
    · rcases ht with rfl | ht
      · exact Or.inl rfl
      · exact hstored ht
    · cases e with
      | alreadyExists =>
          intro u hu
          exact ⟨_, rfl, fun _ => hu _ (hgrows _ (hthere rfl))⟩
      | _ =>
          intro u _
          exact ⟨_, rfl, nofun⟩

theorem putRungs_guards (hdata : data ∈ S) (mode : PutMode) (rungs : List Attributes)
    (last : Attributes) :
    Guards (faulty app S w) Grows (inOrder app S w)
      (fun r s => ∃ written, r = .ok written ∧
        (written = .ok () → Present s (app.crates.sha256 data)))
      (ObjectStore.putRungs (blobKey (app.crates.sha256 data)) data mode rungs last) s := by
  induction rungs generalizing s with
  | nil => exact putOnce_guards hdata
  | cons attributes rungs ih =>
      apply Guards.tryBind Grows.refl (putOnce_guards hdata)
      · intro e t u ⟨_, hr, _⟩ _
        contradiction
      · intro written t ⟨_, hr, hpresent⟩
        cases hr
        cases written with
        | ok _ =>
            intro u hu
            exact ⟨_, rfl, fun _ => hu _ (hpresent rfl)⟩
        | error e =>
            dsimp only
            split
            · exact ih
            · intro u _
              exact ⟨_, rfl, nofun⟩

/-- Where `put_blob` succeeds, something is stored under the digest. -/
theorem putBlob_guards (hdata : data ∈ S) (contentType : Str) :
    Guards (faulty app S w) Grows (inOrder app S w)
      (fun r s => r = .ok () → Present s (app.crates.sha256 data))
      (ObjectStore.putBlob (app.crates.sha256 data) contentType data) s := by
  -- the ladder, and what becomes of its last answer
  have ended : ∀ {s : State} {found : Bool}, (found = true → Present s (app.crates.sha256 data)) →
      found = true → ∀ t, Grows s t →
        (Except.ok () : Except AppError Unit) = .ok () → Present t (app.crates.sha256 data) :=
    fun h hf t ht _ => ht _ (h hf)
  unfold ObjectStore.putBlob
  rw [storagePath_blobKey, liftResult_ok_bind]
  apply Guards.tryBind Grows.refl alreadyStored_guards (fun _ _ _ _ _ => nofun)
  intro found t ⟨_, hr, hfound⟩
  cases hr
  split
  · rename_i hf
    exact ended hfound hf
  · apply Guards.tryBind Grows.refl (putRungs_guards hdata ..) (fun _ _ _ _ _ => nofun)
    intro written t ⟨_, hr, hpresent⟩
    cases hr
    cases written with
    | ok _ =>
        intro u hu _
        exact hu _ (hpresent rfl)
    | error e =>
        dsimp only
        split
        · apply Guards.tryBind Grows.refl alreadyStored_guards (fun _ _ _ _ _ => nofun)
          intro found t ⟨_, hr, hfound⟩
          cases hr
          split
          · rename_i hf
            exact ended hfound hf
          · apply Guards.tryBind Grows.refl (putRungs_guards hdata ..) (fun _ _ _ _ _ => nofun)
            intro written t ⟨_, hr, hpresent⟩
            cases hr
            cases written with
            | ok _ =>
                intro u hu _
                exact hu _ (hpresent rfl)
            | error _ => exact fun _ _ => nofun
        · exact fun _ _ => nofun

theorem putTagPointer_guards {scope : TagScope} {tag : Str} {pointer : TagPointer}
    (hleads : Leads app S s ⟨encodePointer pointer, none, w⟩) :
    Guards (faulty app S w) Grows (inOrder app S w) (fun _ _ => True)
      (ObjectStore.putTagPointer scope tag pointer) s := by
  unfold ObjectStore.putTagPointer
  cases hpath : storagePath .tagWrite (tagKey scope tag) with
  | error e => exact fun _ _ => trivial
  | ok path =>
      rw [liftResult_ok_bind]
      intro m hm r t hw
      have hstored : t = m.store path ⟨encodePointer pointer, none, w⟩ →
          inOrder app S w (.put path (encodePointer pointer) {} .overwrite) m r t :=
        fun ht => Or.inr (Or.inr ⟨path, _, ⟨scope, tag, storagePath_tagKey hpath⟩,
          hleads.grows hm, ht⟩)
      rcases hw with ⟨rfl, ht⟩ | ⟨e, rfl, -, rfl | ht⟩
      · exact ⟨hstored ht, fun _ _ => trivial⟩
      · exact ⟨Or.inl rfl, fun _ _ => trivial⟩
      · exact ⟨hstored ht, fun _ _ => trivial⟩

end Writes

section Requests
variable {app : AppState} {S : Set Bytes} {w : Writer} {s : State}

/-- The cache of an ephemeral alias is not the store. -/
theorem backend_putBlob_guards {data : Bytes} (hdata : data ∈ S) (ephemeral : Bool)
    (contentType : Str) :
    Guards (faulty app S w) Grows (inOrder app S w)
      (fun r s => r = .ok () → ephemeral = false → Present s (app.crates.sha256 data))
      ((backend app ephemeral).putBlob (app.crates.sha256 data) contentType data) s := by
  cases ephemeral with
  | true =>
      intro m _ r t hw
      exact ⟨Or.inl hw, fun _ _ _ => nofun⟩
  | false => exact (putBlob_guards hdata contentType).conseq fun _ _ h hr _ => h hr

theorem backend_putTagPointer_guards {ephemeral : Bool} {scope : TagScope} {tag : Str}
    {pointer : TagPointer}
    (hleads : ephemeral = false → Leads app S s ⟨encodePointer pointer, none, w⟩) :
    Guards (faulty app S w) Grows (inOrder app S w) (fun _ _ => True)
      ((backend app ephemeral).putTagPointer scope tag pointer) s := by
  cases ephemeral with
  | true =>
      intro m _ r t hw
      exact ⟨Or.inl hw, fun _ _ => trivial⟩
  | false => exact putTagPointer_guards (hleads rfl)

/-- The three writes in any order leave three blobs. -/
theorem putArtifact_guards {config layer : Bytes} {rewrites : List Rewrite} {built : BuiltChart}
    (hbuilt : built = assemble app.crates.toChartCrates config layer rewrites)
    (hall : ∀ b ∈ [built.configBytes, built.layerBytes, built.manifestBytes], b ∈ S)
    (ephemeral : Bool) :
    Guards (faulty app S w) Grows (inOrder app S w)
      (fun r s => r = .ok () → ephemeral = false → Present s built.configDigest ∧
        Present s built.layerDigest ∧ Present s built.manifestDigest)
      (putArtifact (backend app ephemeral) built) s := by
  subst hbuilt
  simp only [List.forall_mem_cons] at hall
  obtain ⟨hconfig, hlayer, hmanifest, -⟩ := hall
  -- two writers take turns
  have join : ∀ {A B : Type} {p : Server A} {q : Server B} {Q₁ : Except AppError A → State → Prop}
      {Q₂ : Except AppError B → State → Prop},
      Guards (faulty app S w) Grows (inOrder app S w) Q₁ p s →
      Guards (faulty app S w) Grows (inOrder app S w) Q₂ q s →
      Guards (faulty app S w) Grows (inOrder app S w) (Joined Q₁ Q₂) (tryJoinServer p q) s :=
    fun hp hq => Guards.tryJoin (R := Grows) (G := inOrder app S w) Grows.trans inOrder_grows
      (fun hw => Or.inl hw) hp hq
  have hjoin := join (backend_putBlob_guards hconfig ephemeral mediaTypeHelmConfig)
    (join (backend_putBlob_guards hlayer ephemeral mediaTypeHelmChart)
      (backend_putBlob_guards hmanifest ephemeral mediaTypeManifest))
  unfold putArtifact
  apply Guards.tryBind Grows.refl hjoin (fun _ _ _ _ _ => nofun)
  intro ⟨a, b, c⟩ t ⟨hconfig, hlayer, hmanifest⟩ u hu _ heph
  exact ⟨hu _ (hconfig rfl heph), hu _ (hlayer rfl heph), hu _ (hmanifest rfl heph)⟩

/-- What is kept of an answer is its body, under its hash and with a manifest's media type. -/
theorem checked_of_checkManifest {response : HttpResponse} {reference : Str}
    {declared : Option Str} {data : Bytes} {digest : Digest} {mediaType : Str}
    (h : checkManifest app response reference declared = .ok (data, digest, mediaType)) :
    data = responseBytes response ∧ digest = app.crates.sha256 data ∧
      mediaType ∈ manifestMediaTypes := by
  unfold checkManifest at h
  obtain ⟨data', hread, h⟩ := bind_eq_ok h
  dsimp only at h
  split at h
  · contradiction
  · split at h
    · contradiction
    · rename_i hmedia
      cases h
      exact ⟨readResponse_eq_ok hread, rfl, manifestMediaType_mem hmedia⟩

/-- A body that was read to its end within the limit. -/
theorem bytes_of_buffered {limit : ℕ} {response : HttpResponse} {data : Bytes}
    (h : readUpstreamChunks limit [] response.chunks = .ok (.buffered data)) :
    data = responseBytes response := by
  have read : ∀ (chunks : List (Except Str Bytes)) (seen : Bytes),
      readUpstreamChunks limit seen chunks = .ok (.buffered data) →
        data = seen ++ (chunks.filterMap Except.toOption).flatten := by
    intro chunks
    induction chunks with
    | nil =>
        intro seen h
        cases h
        simp
    | cons chunk chunks ih =>
        intro seen h
        cases chunk with
        | error e => contradiction
        | ok chunk =>
            simp only [readUpstreamChunks] at h
            split at h
            · cases h
            · rw [ih _ h]
              simp [Except.toOption]
  exact read _ [] h

theorem relayBlob_guards {target : OciTarget} {digest : Digest} {response : HttpResponse}
    (hresponse : responseBytes response ∈ S) (headOnly : Bool) :
    Guards (faulty app S w) Grows (inOrder app S w) (fun _ _ => True)
      (relayBlob app target digest headOnly response) s := by
  unfold relayBlob
  split
  · exact fun _ _ => trivial
  · split
    · exact fun _ _ => trivial
    · dsimp only
      split
      · exact fun _ _ => trivial
      · split
        · unfold storedBlob
          cases hr : readUpstreamChunks app.cfg.settings.maxChartBytes [] response.chunks with
          | error e => exact fun _ _ => trivial
          | ok read =>
              rw [liftResult_ok_bind]
              cases read with
              | oversized _ _ => exact fun _ _ => trivial
              | buffered data =>
                  dsimp only
                  split
                  · exact fun _ _ => trivial
                  · rename_i hhash
                    obtain rfl : app.crates.sha256 data = digest := by simpa using hhash
                    have hdata : data ∈ S := bytes_of_buffered hr ▸ hresponse
                    apply guards_seq (putBlob_guards hdata _)
                    intro _ _ _
                    exact fun _ _ => trivial
        · exact fun _ _ => trivial

theorem assemble_of_buildChart {proxyHost : Str} {tgz : Bytes} {built : BuiltChart}
    (h : buildChart app proxyHost tgz = .ok built) :
    ∃ config layer rewrites, built = assemble app.crates.toChartCrates config layer rewrites := by
  unfold buildChart at h
  cases hb : buildHelmOciChart app.crates.toChartCrates (rewriteContext app proxyHost)
      (archiveLimits app) tgz with
  | error e =>
      rw [hb] at h
      contradiction
  | ok built' =>
      rw [hb] at h
      cases h
      exact assemble_of_build hb

/-- The pointer to a manifest whose three blobs are stored. -/
theorem leads_assemble (hjson : JsonLaws app.crates.json) (hlen : ∀ b ∈ S, b.length < 2 ^ 64)
    {config layer : Bytes} {rewrites : List Rewrite} {built : BuiltChart}
    (hbuilt : built = assemble app.crates.toChartCrates config layer rewrites)
    (hall : ∀ b ∈ [built.configBytes, built.layerBytes, built.manifestBytes], b ∈ S)
    (hconfig : Present s built.configDigest) (hlayer : Present s built.layerDigest)
    (hmanifest : Present s built.manifestDigest) :
    Leads app S s ⟨encodePointer built.pointer, none, w⟩ := by
  subst hbuilt
  simp only [List.forall_mem_cons] at hall
  obtain ⟨hc, hl, hm, -⟩ := hall
  refine ⟨_, _, hjson.pointer _ (by simp [assemble, manifestMediaTypes]) (hlen _ hm), hm, rfl, rfl,
    hmanifest, ?_⟩
  intro _
  refine ⟨_, hjson.manifest _ _ _ _ (hlen _ hc) (hlen _ hl), ?_⟩
  intro d hd
  simp only [helmManifest, List.mem_cons, List.not_mem_nil, or_false] at hd
  rcases hd with rfl | rfl
  · exact ⟨config, hc, rfl, rfl, hconfig⟩
  · exact ⟨layer, hl, rfl, rfl, hlayer⟩

theorem publish_guards (hjson : JsonLaws app.crates.json) (hlen : ∀ b ∈ S, b.length < 2 ^ 64)
    {proxyHost : Str} {chart : ClassicChart} {reference : Str} {tgz : Bytes}
    (htgz : handled app tgz ⊆ S) (headOnly : Bool) :
    Guards (faulty app S w) Grows (inOrder app S w) (fun _ _ => True)
      (publish app proxyHost chart reference headOnly tgz) s := by
  unfold publish
  cases hb : buildChart app proxyHost tgz with
  | error e => exact fun _ _ => trivial
  | ok built =>
      obtain ⟨config, layer, rewrites, hbuilt⟩ := assemble_of_buildChart hb
      have hall : ∀ b ∈ [built.configBytes, built.layerBytes, built.manifestBytes], b ∈ S :=
        fun b hm => htgz (Or.inr ⟨proxyHost, built, hb, hm⟩)
      rw [liftResult_ok_bind]
      apply guards_seq (putArtifact_guards hbuilt hall chart.ephemeral)
      intro _ t hstored
      have hleads : chart.ephemeral = false →
          Leads app S t ⟨encodePointer built.pointer, none, w⟩ := by
        intro heph
        obtain ⟨hconfig, hlayer, hmanifest⟩ := hstored rfl heph
        exact leads_assemble hjson hlen hbuilt hall hconfig hlayer hmanifest
      apply guards_seq (backend_putTagPointer_guards hleads)
      intro _ _ _
      exact fun _ _ => trivial

/-- A manifest that an upstream has sent is stored in front of its pointer. -/
theorem relayManifest_guards (hjson : JsonLaws app.crates.json)
    (hlen : ∀ b ∈ S, b.length < 2 ^ 64) {proxyHost : Str} {target : OciTarget} {reference : Str}
    {response : HttpResponse}
    (hresponse : responseBytes response ∈ S) (headOnly : Bool) :
    Guards (faulty app S .passthrough) Grows (inOrder app S .passthrough) (fun _ _ => True)
      (relayManifest app proxyHost target reference headOnly response) s := by
  unfold relayManifest
  split
  · exact fun _ _ => trivial
  · split
    · exact fun _ _ => trivial
    · dsimp only
      split
      · exact fun _ _ => trivial
      · cases hc : checkManifest app response reference (normalizedManifestMediaType
            ((headerStr response (str "content-type")).getD mediaTypeManifest)) with
        | error e => exact fun _ _ => trivial
        | ok checked =>
            obtain ⟨data, digest, mediaType⟩ := checked
            obtain ⟨hdata, hdigest, hmedia⟩ := checked_of_checkManifest hc
            subst hdata hdigest
            rw [liftResult_ok_bind]
            dsimp only
            split
            · have hstore : Guards (faulty app S .passthrough) Grows (inOrder app S .passthrough)
                  (fun _ _ => True) (storeManifest app ⟨proxyHost, target.fullName⟩ reference
                    (responseBytes response) (app.crates.sha256 (responseBytes response))
                    mediaType) s := by
                unfold storeManifest
                apply guards_seq (putBlob_guards hresponse mediaType)
                intro _ t hpresent
                split
                · apply putTagPointer_guards
                  exact ⟨_, _, hjson.pointer _ hmedia (hlen _ hresponse), hresponse, rfl, rfl,
                    hpresent rfl, nofun⟩
                · exact fun _ _ => trivial
              apply guards_seq hstore
              intro _ _ _
              exact fun _ _ => trivial
            · exact fun _ _ => trivial

/-- Every request keeps to the order in which blobs and pointers are written. -/
theorem request_guards (hjson : JsonLaws app.crates.json) (hlen : ∀ b ∈ S, b.length < 2 ^ 64)
    (request : Request) :
    Guards (faulty app S (writer request)) Grows (inOrder app S (writer request))
      (fun _ _ => True) (request.serve app).run s := by
  have answered : ∀ {response : HttpResponse}, AnswersHttp (AnswerWithin app S) response →
      handled app (responseBytes response) ⊆ S := fun ⟨_, h⟩ => h
  cases request with
  | classicManifest proxyHost chart reference headOnly =>
      change Guards _ _ _ _ (ClassicHandler.manifest app proxyHost chart reference headOnly).run s
      unfold ClassicHandler.manifest
      cases Digest.parse reference with
      | some digest =>
          apply guards_seq (reading_guards none (findBlob_allowed digest))
          intro blob _ _
          cases blob <;> exact fun _ _ => trivial
      | none =>
          have htag : (reading (some (⟨proxyHost, chart.fullName⟩, reference))).tag =
              some (⟨proxyHost, chart.fullName⟩, reference) := rfl
          apply guards_seq (reading_guards _
            (cachedTagManifest_allowed (backend_within _) htag headOnly _))
          intro cached _ _
          cases cached with
          | some response => exact fun _ _ => trivial
          | none =>
              dsimp only
              rw [buildManifest_eq]
              apply guards_seq (reading_guards none
                (fetchChart_allowed (fun _ _ => trivial) reference))
              intro tgz _ ⟨response, hresponse, htgz⟩
              apply publish_guards hjson hlen
              rw [htgz]
              exact answered hresponse
  | classicBlob digestStr headOnly =>
      exact (reading_guards none (blob_allowed digestStr headOnly)).conseq
        fun _ _ _ => trivial
  | manifest proxyHost target reference headOnly accept =>
      have upstream : ∀ t, Guards (faulty app S .passthrough) Grows (inOrder app S .passthrough)
          (fun _ _ => True)
          (upstreamManifest app proxyHost target reference headOnly accept).run t := by
        intro t
        rw [upstreamManifest_eq]
        apply guards_seq (reading_guards none (sendToUpstream_allowed (fun _ _ => trivial) ..))
        intro response _ hresponse
        exact relayManifest_guards hjson hlen (answered hresponse (Or.inl rfl)) headOnly
      change Guards _ _ _ _
        (PassthroughHandler.manifest app proxyHost target reference headOnly accept).run s
      unfold PassthroughHandler.manifest
      split
      · have htag : Digest.parse reference = none →
            (reading (some (⟨proxyHost, target.fullName⟩, reference))).tag =
              some (⟨proxyHost, target.fullName⟩, reference) := fun _ => rfl
        apply guards_seq (reading_guards _ (cachedManifest_allowed htag headOnly accept))
        intro cached t _
        cases cached with
        | some response => exact fun _ _ => trivial
        | none => exact upstream t
      · exact upstream s
  | blob target digestStr headOnly =>
      change Guards _ _ _ _ (PassthroughHandler.blob app target digestStr headOnly).run s
      unfold PassthroughHandler.blob
      cases Digest.parse digestStr with
      | none => exact fun _ _ => trivial
      | some digest =>
          apply guards_seq (reading_guards none (cachedBlob_allowed digest headOnly))
          intro cached _ _
          cases cached with
          | some response => exact fun _ _ => trivial
          | none =>
              dsimp only
              rw [upstreamBlob_eq]
              apply guards_seq (reading_guards none
                (sendToUpstream_allowed (fun _ _ => trivial) ..))
              intro response _ hresponse
              exact relayBlob_guards (answered hresponse (Or.inl rfl)) headOnly

end Requests

section Systems
variable {app : AppState} {S : Set Bytes}

theorem requests_inOrder (hjson : JsonLaws app.crates.json)
    (hlen : ∀ b ∈ S, b.length < 2 ^ 64) :
    Compatible (fun request => faulty app S (writer request))
      (fun (request : Request) p => p = (request.serve app).run) Grows
      (fun request => inOrder app S (writer request)) (fun _ _ _ => True) (Sound app S) where
  refl := Grows.refl
  trans _ _ _ := Grows.trans
  guarantee _ _ _ _ _ h hs := ⟨inOrder_sound h hs, inOrder_grows h⟩
  guards := by
    intro request p s hp _
    rw [hp]
    exact request_guards hjson hlen request

/-- However the requests take turns, fail or are given up, a pointer that is stored leads to a
stored blob of its size, and a pointer to a chart's manifest to the config and the layers too.
The byte strings of `S` are in memory, so their lengths are `u64` values. -/
theorem no_dangling_pointer (hjson : JsonLaws app.crates.json) (hS : S.InjOn app.crates.sha256)
    (hlen : ∀ b ∈ S, b.length < 2 ^ 64)
    {x : System Op Ans (Except AppError Response) State Request}
    (hx : Reachable (fun request => faulty app S (writer request))
      (fun (request : Request) p => p = (request.serve app).run) State.empty x) :
    ∀ path, IsTagPath path → ∀ o, x.1.objects path = some o → Refers app.crates.json x.1 o := by
  have hempty : Sound app S State.empty := ⟨nofun, nofun⟩
  obtain ⟨hsound, -⟩ := hx.safe (requests_inOrder hjson hlen) hempty
  intro path hpath o ho
  exact (hsound.pointers path hpath o ho).refers hS hsound

end Systems

section Witness

/-- A registry that sends a bare manifest whatever it is asked for. -/
def bareUpstream (_ : HttpRequest) : Except Str HttpResponse :=
  .ok ⟨200, [], none, [.ok bareManifest]⟩

/-- The registry, and an empty store that takes everything. -/
def bareAnswer : (op : Op) → State → Ans op × State
  | .http request, s => (bareUpstream request, s)
  | .put path data attributes _, s =>
    (.ok (), s.store path ⟨data, attributes.contentType, .passthrough⟩)
  | op, s => (someAnswer op, s)

theorem bareUpstream_within (request : HttpRequest) :
    AnswerWithin plainState {bareManifest} (.http request) (bareUpstream request) := by
  intro b hb
  rcases hb with rfl | ⟨proxyHost, built, hbuilt, -⟩
  · rfl
  · -- the body is no archive
    cases proxyHost <;> cases hbuilt

theorem bareAnswer_faulty (op : Op) (s : State) :
    faulty plainState {bareManifest} .passthrough op s (bareAnswer op s).1 (bareAnswer op s).2 := by
  cases op with
  | http request => exact ⟨rfl, bareUpstream_within request⟩
  | put path data attributes mode => exact Or.inl ⟨rfl, rfl⟩
  | head path => exact ⟨rfl, nofun⟩
  | _ => rfl

theorem length_bareManifest : ∀ b ∈ ({bareManifest} : Set Bytes), b.length < 2 ^ 64 := by
  rintro b rfl
  decide

def taggedRequest : Request :=
  .manifest (str "proxy.test") storedTarget (str "1.0") false none

theorem stored_tag_refers : ∃ x, Reachable
    (fun request => faulty plainState {bareManifest} (writer request))
    (fun (request : Request) p => p = (request.serve plainState).run) State.empty x ∧
      ∃ o, x.1.objects (str "tags/proxy.test/team/app/1.0") = some o ∧
        Refers plainState.crates.json x.1 o := by
  obtain ⟨cs, hrun⟩ := runs_exec bareAnswer_faulty (taggedRequest.serve plainState).run
    State.empty
  have hstart : Reachable (fun request => faulty plainState {bareManifest} (writer request))
      (fun (request : Request) p => p = (request.serve plainState).run) State.empty
      (State.empty, [(taggedRequest, (taggedRequest.serve plainState).run)]) :=
    .step .start (.start rfl)
  have hend := hstart.runs [] hrun
  have hstored : (((taggedRequest.serve plainState).run.exec bareAnswer
      State.empty).2.objects (str "tags/proxy.test/team/app/1.0")).isSome = true := by
    decide +kernel
  generalize (taggedRequest.serve plainState).run.exec bareAnswer State.empty = final
    at hend hstored
  obtain ⟨o, ho⟩ := Option.isSome_iff_exists.mp hstored
  refine ⟨_, hend, o, ho, ?_⟩
  exact no_dangling_pointer (compactJson_laws _) (Set.injOn_singleton _ _) length_bareManifest hend
    _ ⟨⟨str "proxy.test", str "team/app"⟩, str "1.0", by decide +kernel⟩ o ho

end Witness

end Helmoci.StoredPointers
