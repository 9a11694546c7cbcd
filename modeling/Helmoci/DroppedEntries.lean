import Helmoci.ReliableReads

/-!
# Entries that the cache has dropped

Requests for the manifests of charts come one after the other, and between two of them the
in-memory cache may drop what it likes. The blobs of a chart and its tag's pointer are entries
of their own, and a tag is answered from the cache as soon as its pointer and the manifest are
there. So such an answer names what is stored just where the cache has not kept the manifest
longer than its config or a layer.
-/
namespace Helmoci.DroppedEntries
open RustText NameResolver OciDigest JsonDocuments ServerErrors EffectPrograms InterleavedPrograms
  ServerOperations UpstreamRequests BlobStorage RegistryResponses ChartBuild ServerState
  ClassicHandler StoredEntries HandlerCalls ProxiedBlobs ManifestCourses StoreWorlds
  ContentAddresses StoredPointers ReliableReads PlainUrls PlainCrates

section Definitions
variable (app : AppState) (S : Set Bytes) (caps : Capabilities)

/-- The cache without the entry. -/
def dropEntry (s : State) (key : Str) : State :=
  {s with cache := fun k => if k = key then none else s.cache k}

/-- The states between requests for manifests: no storage call fails, and entries are dropped. -/
inductive Pulled : State → Prop
  | start : Pulled State.empty
  | pull {s t : State} {proxyHost reference : Str} {chart : ClassicChart} {headOnly : Bool}
      {cs : List (Call Op Ans)} {r : Except AppError Response} : Pulled s →
      Runs (reliable app S caps .classic)
        (ClassicHandler.manifest app proxyHost chart reference headOnly) s cs r t → Pulled t
  | drop {s : State} (key : Str) : Pulled s → Pulled (dropEntry s key)

/-- `find_blob` finds something under the digest. -/
def Finds (s : State) (digest : Digest) : Prop :=
  Meets (reliable app S caps .classic) Reads
    (fun r t => t = s ∧ ∃ blob, r = .ok (some blob)) (findBlob app digest) s

/-- The answer is a manifest, and what it names is found. -/
def Complete (headOnly : Bool) (response : Response) (s : State) : Prop :=
  ∃ data ∈ S, ∃ manifest, app.crates.json.manifest data = some manifest ∧
    response = bytesResponse mediaTypeManifest (app.crates.sha256 data) data headOnly ∧
    ∀ d ∈ manifest.config :: manifest.layers, Finds app S caps s d.digest

/-- The cache has the tag's pointer, to a manifest within the limit, and that manifest. -/
def LeadsTo (s : State) (scope : TagScope) (tag : Str) (manifest : OciManifest) : Prop :=
  ∃ pointerData pointer data contentType, pointerIn true s scope tag = some pointerData ∧
    app.crates.json.pointer pointerData = some pointer ∧
    pointer.size ≤ app.cfg.settings.maxChartBytes ∧
    blobIn true s pointer.digest = some (data, contentType) ∧
    app.crates.json.manifest data = some manifest

/-- An entry or an object is there under the digest. -/
def Holds (s : State) (digest : Digest) : Prop :=
  ∃ inCache, (blobIn inCache s digest).isSome = true

/-- Of a manifest to which the tag still leads no other entry has been dropped. -/
def Kept (s : State) (scope : TagScope) (tag : Str) : Prop :=
  ∀ manifest, LeadsTo app s scope tag manifest →
    ∀ d ∈ manifest.config :: manifest.layers, Holds s d.digest

end Definitions

section Caches
variable {app : AppState} {S : Set Bytes} {caps : Capabilities} {s t : State}

/-- The pointer to the manifest of a chart whose bytes the server has handled. -/
def BuiltPointer (app : AppState) (S : Set Bytes) (pointer : TagPointer) : Prop :=
  ∃ config ∈ S, ∃ layer ∈ S,
    let data := encodeManifest (helmManifest (app.crates.sha256 config) (app.crates.sha256 layer)
      config.length layer.length)
    data ∈ S ∧ pointer = ⟨app.crates.sha256 data, mediaTypeManifest, data.length⟩

/-- The cache holds bytes under their hashes, and pointers to the manifests of charts. -/
structure CacheSound (app : AppState) (S : Set Bytes) (s : State) : Prop where
  blobs : ∀ digest entry, s.cache (blobKey digest) = some entry →
    entry.data ∈ S ∧ app.crates.sha256 entry.data = digest
  pointers : ∀ scope tag entry, s.cache (tagKey scope tag) = some entry →
    ∃ pointer, BuiltPointer app S pointer ∧ entry.data = encodePointer pointer

/-- What a request for a manifest may write. -/
def building (app : AppState) (S : Set Bytes) (tag : Option (TagScope × Str)) : Permit where
  blob digest data := data ∈ S ∧ app.crates.sha256 data = digest
  tag := tag
  pointer := BuiltPointer app S
  remote _ := True

theorem cacheSound_of_cache (h : t.cache = s.cache) (hs : CacheSound app S s) :
    CacheSound app S t := by
  constructor
  · rw [h]
    exact hs.blobs
  · rw [h]
    exact hs.pointers

theorem CacheSound.drop (hs : CacheSound app S s) (key : Str) :
    CacheSound app S (dropEntry s key) := by
  have there : ∀ {k entry}, (dropEntry s key).cache k = some entry → s.cache k = some entry := by
    intro k entry h
    dsimp only [dropEntry] at h
    split at h
    · cases h
    · exact h
  exact ⟨fun digest entry h => hs.blobs digest entry (there h),
    fun scope tag entry h => hs.pointers scope tag entry (there h)⟩

/-- One call that is allowed keeps the cache sound. -/
theorem cacheSound_step {w : Writer} {tag : Option (TagScope × Str)} {op : Op} {r : Ans op}
    (hop : (building app S tag).allows op) (h : reliable app S caps w op s r t)
    (hs : CacheSound app S s) : CacheSound app S t := by
  cases op with
  | put path data attributes mode =>
      apply cacheSound_of_cache _ hs
      rcases faulty_of_reliable h with ⟨-, rfl⟩ | ⟨_, -, -, rfl | rfl⟩ <;> rfl
  | cacheOrInsert key entry =>
      change t = s.cacheOrInsert key entry at h
      subst h
      obtain ⟨digest, rfl, hdata, hhash⟩ := hop
      constructor
      · intro digest' entry' h'
        rw [State.cacheOrInsert_cache] at h'
        split at h'
        · rename_i hkey
          obtain rfl := blobKey_inj.mp hkey
          cases hold : s.cache (blobKey digest') with
          | none =>
              rw [hold] at h'
              cases h'
              exact ⟨hdata, hhash⟩
          | some old =>
              rw [hold] at h'
              cases h'
              exact hs.blobs digest' old hold
        · exact hs.blobs digest' entry' h'
      · intro scope name entry' h'
        rw [State.cacheOrInsert_cache, if_neg (StorageKeys.tagKey_ne_blobKey digest)] at h'
        exact hs.pointers scope name entry' h'
  | cacheInsert key entry =>
      change t = s.cacheInsert key entry at h
      subst h
      obtain ⟨⟨scope, name, -, rfl⟩, pointer, hpointer, hdata⟩ := hop
      constructor
      · intro digest entry' h'
        rw [State.cacheInsert_cache, if_neg (StorageKeys.tagKey_ne_blobKey digest).symm] at h'
        exact hs.blobs digest entry' h'
      · intro scope' name' entry' h'
        rw [State.cacheInsert_cache] at h'
        split at h'
        · cases h'
          exact ⟨pointer, hpointer, hdata⟩
        · exact hs.pointers scope' name' entry' h'
  | _ => exact (reliable_reads rfl h).2 ▸ hs

/-- A chart that was built from handled bytes. -/
theorem building_of_build {tag : Option (TagScope × Str)} {proxyHost : Str} {tgz : Bytes}
    {built : BuiltChart} (htgz : handled app tgz ⊆ S)
    (h : buildChart app proxyHost tgz = .ok built) :
    KeepsArtifact (building app S tag) built ∧ BuiltPointer app S built.pointer := by
  have hall : ∀ b ∈ [built.configBytes, built.layerBytes, built.manifestBytes], b ∈ S :=
    fun b hb => htgz (Or.inr ⟨proxyHost, built, h, hb⟩)
  obtain ⟨config, layer, rewrites, rfl⟩ := assemble_of_buildChart h
  simp only [List.forall_mem_cons] at hall
  obtain ⟨hconfig, hlayer, hmanifest, -⟩ := hall
  exact ⟨⟨⟨hconfig, rfl⟩, ⟨hlayer, rfl⟩, ⟨hmanifest, rfl⟩⟩, _, hconfig, _, hlayer, hmanifest, rfl⟩

theorem cacheSound_of_runs {proxyHost reference : Str} {chart : ClassicChart} {headOnly : Bool}
    {cs : List (Call Op Ans)} {r : Except AppError Response} (hs : CacheSound app S s)
    (hr : Runs (reliable app S caps .classic)
      (ClassicHandler.manifest app proxyHost chart reference headOnly) s cs r t) :
    CacheSound app S t := by
  let permit := building app S (some (⟨proxyHost, chart.fullName⟩, reference))
  have hallowed : Ensures (AnswerWithin app S) permit.allows (OnOk fun _ => True)
      (ClassicHandler.manifest app proxyHost chart reference headOnly) := by
    refine manifest_allowed (fun _ _ => trivial) (fun _ => rfl) ?_ headOnly
    intro response built ⟨_, hresponse⟩ hbuild
    exact building_of_build hresponse hbuild
  have hguards : Guards (reliable app S caps .classic) (fun _ _ => True)
      (fun _ s _ t => CacheSound app S s → CacheSound app S t) (fun _ _ => True)
      (ClassicHandler.manifest app proxyHost chart reference headOnly).run s := by
    refine (Guards.of_ensures hallowed ?_).conseq fun _ _ _ => trivial
    intro op m r' t' hop hw
    have hanswer : AnswerWithin app S op r' := by
      cases op with
      | http request => exact hw.2
      | _ => trivial
    exact ⟨hanswer, cacheSound_step hop hw⟩
  exact hguards.preserves (fun _ => trivial) (fun _ _ _ _ h hi => h hi) hr hs

theorem Pulled.sound (h : Pulled app S caps s) : CacheSound app S s := by
  induction h with
  | start => exact ⟨nofun, nofun⟩
  | pull _ hr ih => exact cacheSound_of_runs ih hr
  | drop key _ ih => exact ih.drop key

end Caches

section Finding
variable {app : AppState} {S : Set Bytes} {caps : Capabilities} {s t : State}

/-- The object store comes first and the cache behind it. -/
theorem findBlob_meets (digest : Digest) :
    Meets (reliable app S caps .classic) Reads
      (fun r t => t = s ∧ ∃ found, r = .ok found ∧ (found.isSome = true ↔ Holds s digest))
      (findBlob app digest) s := by
  refine meets_bind (getBlob_reads false digest) ?_ ?_
  · intro found t ⟨hfound, ht⟩
    subst ht
    cases hstored : blobIn false t digest with
    | some stored =>
        rw [hstored] at hfound
        obtain ⟨blob, hfound, -⟩ := hfound
        cases hfound
        exact ⟨rfl, some blob, rfl, fun _ => ⟨false, by rw [hstored]; rfl⟩, fun _ => rfl⟩
    | none =>
        rw [hstored] at hfound
        cases hfound
        apply (getBlob_reads true digest).conseq (fun _ hop => hop)
        intro r u ⟨hr, hu⟩
        refine ⟨hu, ?_⟩
        cases hcached : blobIn true t digest with
        | some entry =>
            rw [hcached] at hr
            obtain ⟨blob, rfl, -⟩ := hr
            exact ⟨some blob, rfl, fun _ => ⟨true, by rw [hcached]; rfl⟩, fun _ => rfl⟩
        | none =>
            rw [hcached] at hr
            cases hr
            refine ⟨none, rfl, nofun, ?_⟩
            intro ⟨inCache, hthere⟩
            cases inCache with
            | true =>
                rw [hcached] at hthere
                cases hthere
            | false =>
                rw [hstored] at hthere
                cases hthere
  · intro e t ⟨hfound, _⟩
    cases hstored : blobIn false s digest with
    | some stored =>
        rw [hstored] at hfound
        obtain ⟨_, hfound, -⟩ := hfound
        cases hfound
    | none =>
        rw [hstored] at hfound
        cases hfound

theorem finds_iff {digest : Digest} : Finds app S caps s digest ↔ Holds s digest := by
  constructor
  · intro h
    obtain ⟨cs, r, u, hr⟩ := h.exists_runs
    obtain ⟨⟨-, blob, rfl⟩, -⟩ := h.runs hr
    obtain ⟨⟨-, found, hfound, hholds⟩, -⟩ := (findBlob_meets digest).runs hr
    cases hfound
    exact hholds.mp rfl
  · intro h
    apply (findBlob_meets digest).conseq (fun _ hop => hop)
    intro r u ⟨hu, found, hr, hholds⟩
    obtain ⟨blob, rfl⟩ := Option.isSome_iff_exists.mp (hholds.mpr h)
    exact ⟨hu, blob, hr⟩

end Finding

section Writes
variable {app : AppState} {S : Set Bytes} {caps : Capabilities} {s t : State}

def CacheGrows (s t : State) : Prop :=
  ∀ key, (s.cache key).isSome = true → (t.cache key).isSome = true

theorem CacheGrows.refl (s : State) : CacheGrows s s := fun _ h => h

theorem CacheGrows.trans {u : State} (h : CacheGrows s t) (h' : CacheGrows t u) :
    CacheGrows s u := fun key hs => h' key (h key hs)

/-- While a request is answered nothing is dropped. -/
theorem reliable_cacheGrows {w : Writer} {op : Op} {r : Ans op}
    (h : reliable app S caps w op s r t) : CacheGrows s t := by
  intro key hkey
  cases op with
  | put path data attributes mode =>
      rcases faulty_of_reliable h with ⟨-, rfl⟩ | ⟨_, -, -, rfl | rfl⟩ <;> exact hkey
  | cacheOrInsert key' entry =>
      change t = s.cacheOrInsert key' entry at h
      rw [h, State.cacheOrInsert_cache]
      split
      · rfl
      · exact hkey
  | cacheInsert key' entry =>
      change t = s.cacheInsert key' entry at h
      rw [h, State.cacheInsert_cache]
      split
      · rfl
      · exact hkey
  | _ => exact (reliable_reads rfl h).2 ▸ hkey

theorem cacheGrows_of_runs {w : Writer} {A : Type} {p : Program Op Ans A} {a : A}
    {cs : List (Call Op Ans)} (h : Runs (reliable app S caps w) p s cs a t) : CacheGrows s t := by
  induction h with
  | pure a s => exact .refl s
  | call hw _ ih => exact (reliable_cacheGrows hw).trans ih

theorem putBlob_cached (digest : Digest) (contentType : Str) (data : Bytes) :
    Guards (reliable app S caps .classic) CacheGrows (fun _ s _ t => CacheGrows s t)
      (fun _ s => (s.cache (blobKey digest)).isSome = true)
      ((backend app true).putBlob digest contentType data) s := by
  intro m _ r t hw
  refine ⟨reliable_cacheGrows hw, ?_⟩
  intro u hu
  apply hu
  change t = m.cacheOrInsert (blobKey digest) _ at hw
  rw [hw, State.cacheOrInsert_cache, if_pos rfl]
  rfl

/-- The three blobs of an artifact are in the cache behind its writes. -/
theorem putArtifact_cached {built : BuiltChart} {cs : List (Call Op Ans)}
    (h : Runs (reliable app S caps .classic) (putArtifact (backend app true) built) s cs (.ok ())
      t) :
    (t.cache (blobKey built.configDigest)).isSome = true ∧
      (t.cache (blobKey built.layerDigest)).isSome = true := by
  -- two writers take turns
  have join : ∀ {A B : Type} {p : Server A} {q : Server B} {Q₁ : Except AppError A → State → Prop}
      {Q₂ : Except AppError B → State → Prop},
      Guards (reliable app S caps .classic) CacheGrows (fun _ s _ t => CacheGrows s t) Q₁ p s →
      Guards (reliable app S caps .classic) CacheGrows (fun _ s _ t => CacheGrows s t) Q₂ q s →
      Guards (reliable app S caps .classic) CacheGrows (fun _ s _ t => CacheGrows s t)
        (Joined Q₁ Q₂) (tryJoinServer p q) s :=
    fun hp hq => Guards.tryJoin (R := CacheGrows) (G := fun _ s _ t => CacheGrows s t)
      CacheGrows.trans (fun hg => hg) (fun hw => reliable_cacheGrows hw) hp hq
  have hjoin := join (putBlob_cached built.configDigest mediaTypeHelmConfig built.configBytes)
    (join (putBlob_cached built.layerDigest mediaTypeHelmChart built.layerBytes)
      (putBlob_cached built.manifestDigest mediaTypeManifest built.manifestBytes))
  unfold putArtifact at h
  rcases runs_server_bind_iff.mp h with ⟨_, he, _⟩ | ⟨cs₁, ⟨a, b, c⟩, m, cs₂, hjoined, hrest, -⟩
  · cases he
  · obtain ⟨-, -, rfl⟩ := runs_pure_iff.mp hrest
    obtain ⟨hconfig, hlayer, -⟩ := hjoin.runs CacheGrows.refl hjoined
    exact ⟨hconfig, hlayer⟩

end Writes

section Answers
variable {app : AppState} {S : Set Bytes} {caps : Capabilities} {s t : State}
  {proxyHost reference : Str} {chart : ClassicChart} {headOnly : Bool}
  {cs : List (Call Op Ans)} {response : Response} {scope : TagScope} {tag : Str}

theorem LeadsTo.unique {manifest manifest' : OciManifest} (h : LeadsTo app s scope tag manifest)
    (h' : LeadsTo app s scope tag manifest') : manifest' = manifest := by
  obtain ⟨_, pointer, data, _, hin, hread, -, hblob, hmanifest⟩ := h
  obtain ⟨_, pointer', data', _, hin', hread', -, hblob', hmanifest'⟩ := h'
  rw [hin] at hin'
  cases hin'
  rw [hread] at hread'
  cases hread'
  rw [hblob] at hblob'
  cases hblob'
  rw [hmanifest] at hmanifest'
  exact (Option.some.inj hmanifest').symm

/-- With the pointer and the manifest in the cache the tag is answered from there. -/
theorem served_of_leadsTo (hjson : JsonLaws app.crates.json) (hS : S.InjOn app.crates.sha256)
    (hlen : ∀ b ∈ S, b.length < 2 ^ 64) (hs : CacheSound app S s) {manifest : OciManifest}
    (h : LeadsTo app s scope tag manifest)
    (headOnly : Bool) : ∃ data ∈ S, app.crates.json.manifest data = some manifest ∧
      Meets (reliable app S caps .classic) Reads
        (fun r t => r = .ok (some (bytesResponse mediaTypeManifest (app.crates.sha256 data) data
          headOnly)) ∧ t = s)
        (cachedTagManifest app (backend app true) scope tag headOnly
          app.cfg.settings.maxChartBytes) s := by
  obtain ⟨pointerData, pointer, data, contentType, hin, hread, hsize, hblob, hmanifest⟩ := h
  obtain ⟨entry, hentry, rfl⟩ := Option.map_eq_some_iff.mp hin
  obtain ⟨pointer', ⟨config, hconfig, layer, hlayer, hbuilt, hpointer⟩, hencoded⟩ :=
    hs.pointers scope tag entry hentry
  have hread' : app.crates.json.pointer (encodePointer pointer') = some pointer' := by
    rw [hpointer]
    exact hjson.pointer _ List.mem_cons_self (hlen _ hbuilt)
  rw [hencoded, hread'] at hread
  cases hread
  subst hpointer
  obtain ⟨stored, hstored, hdata⟩ := Option.map_eq_some_iff.mp hblob
  obtain ⟨hin', hhash⟩ := hs.blobs _ _ hstored
  cases hdata
  have hsame := hS hin' hbuilt hhash
  refine ⟨stored.data, hin', hmanifest, ?_⟩
  rw [hsame] at hblob ⊢
  exact cachedTagManifest_reads headOnly hin nofun (by rw [hencoded]; exact hread') ⟨rfl, hsize⟩
    hblob rfl rfl (validHelmManifest_helmManifest hjson _ _ (hlen _ hconfig) (hlen _ hlayer))

/-- A chart that has just been built is all in the cache. -/
theorem complete_of_built (hjson : JsonLaws app.crates.json) (hlen : ∀ b ∈ S, b.length < 2 ^ 64)
    (hr : Runs (reliable app S caps .classic)
      (buildManifestIn app (backend app true) proxyHost chart reference headOnly) s cs
      (.ok response) t) : Complete app S caps headOnly response t := by
  obtain ⟨ending, hcourse⟩ := buildCourse_iff.mp hr
  cases hcourse with
  | @built _ m m' _ cs₁ cs₂ cs₃ tgz built hfetch hbuild hput _ hpointer =>
      obtain ⟨⟨upstream, ⟨_, hupstream⟩, rfl⟩, -⟩ := reading_runs none
        (fetchChart_allowed (fun _ _ => trivial) reference) hfetch
      have hall : ∀ b ∈ [built.configBytes, built.layerBytes, built.manifestBytes], b ∈ S :=
        fun b hb => hupstream (Or.inr ⟨proxyHost, built, hbuild, hb⟩)
      obtain ⟨hconfigIn, hlayerIn, hmanifest, -⟩ : built.configBytes ∈ S ∧ built.layerBytes ∈ S ∧
          built.manifestBytes ∈ S ∧ True := by simpa using hall
      obtain ⟨hconfig, hlayer⟩ := putArtifact_cached hput
      have hgrows := cacheGrows_of_runs hpointer
      have hholds : ∀ digest, (m'.cache (blobKey digest)).isSome = true → Holds t digest := by
        intro digest hthere
        exact ⟨true, by simpa [blobIn] using hgrows _ hthere⟩
      obtain ⟨config, layer, rewrites, rfl⟩ := assemble_of_buildChart hbuild
      refine ⟨_, hmanifest, _, hjson.manifest _ _ _ _ (hlen _ hconfigIn) (hlen _ hlayerIn), rfl, ?_⟩
      intro d hd
      simp only [helmManifest, List.mem_cons, List.not_mem_nil, or_false] at hd
      apply finds_iff.mpr
      rcases hd with rfl | rfl
      · exact hholds _ hconfig
      · exact hholds _ hlayer

theorem leadsTo_of_runs
    (hr : Runs (reliable app S caps .classic)
      (cachedTagManifest app (backend app true) ⟨proxyHost, chart.fullName⟩ reference headOnly
        app.cfg.settings.maxChartBytes) s cs (.ok (some response)) t) :
    ∃ manifest, LeadsTo app s ⟨proxyHost, chart.fullName⟩ reference manifest := by
  rcases cachedTagManifest_cases (backend_promises true) hr with
    ⟨_, he, _⟩ | ⟨_, _, hcourse⟩ | ⟨he, _⟩
  · cases he
  · cases hcourse with
    | rebuilt _ hbuild => cases hbuild
    | @served _ _ _ pointer blob hfollows hsize hgood =>
        cases hfollows with
        | intro hpointer hpoints hget =>
            obtain ⟨rfl, pointerData, hin, hread⟩ := pointerIn_of_runs true hpointer
            obtain ⟨⟨hreads, -⟩, -⟩ := (getBlob_reads true pointer.digest).runs hget
            obtain ⟨-, -, -, -, hform⟩ := hgood
            unfold validHelmManifest at hform
            cases hblob : blobIn true _ pointer.digest with
            | none =>
                rw [hblob] at hreads
                cases hreads
            | some found =>
                rw [hblob] at hreads
                obtain ⟨blob', hblob', hisBlob⟩ := hreads
                cases hblob'
                rw [hisBlob.body] at hform
                cases hmanifest : app.crates.json.manifest found.1 with
                | none =>
                    rw [hmanifest] at hform
                    cases hform
                | some manifest =>
                    exact ⟨manifest, pointerData, pointer, found.1, found.2, hin, hread,
                      hpoints.2, hblob, hmanifest⟩
  · cases he

theorem bytesResponse_digest {digest digest' : Digest} {data data' : Bytes}
    (h : bytesResponse mediaTypeManifest digest data headOnly =
      bytesResponse mediaTypeManifest digest' data' headOnly) : digest = digest' := by
  rw [bytesResponse_eq List.mem_cons_self, bytesResponse_eq List.mem_cons_self] at h
  have htext := (congrArg (fun response : Response => response.headers) h)
  simp only [List.cons.injEq, Prod.mk.injEq, HeaderValue.text.injEq, true_and] at htext
  cases digest
  cases digest'
  congr
  exact htext.2.1

end Answers

section Witness

def demoPull : Program Op Ans (Except AppError Response) :=
  (ClassicHandler.manifest (demoState (50 * 1024 * 1024)) (str "proxy.test") (aliasChart false)
    (str "1.0.0") false).run

/-- The store of a server that has been asked for the chart once. -/
def behindPull : State := (demoPull.exec (reliableAnswer demoUpstream .classic) State.empty).2

theorem demoPull_runs (s : State) : Runs
    (reliable (demoState (50 * 1024 * 1024)) {b | b ∈ demoContent} fullCapabilities .classic)
    demoPull s (demoPull.trace (reliableAnswer demoUpstream .classic) s)
    (demoPull.exec (reliableAnswer demoUpstream .classic) s).1
    (demoPull.exec (reliableAnswer demoUpstream .classic) s).2 :=
  runs_trace (reliableAnswer_reliable (demoUpstream_within (by decide)) .classic) demoPull s

/-- The store behind that pull when the config's entry has run out. -/
def withoutConfig : State := dropEntry behindPull (blobKey demoBuilt.configDigest)

end Witness

end Helmoci.DroppedEntries
