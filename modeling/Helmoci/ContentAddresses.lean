import Helmoci.HandlerCalls
import Helmoci.InterleavedPrograms
import Helmoci.PlainCrates

/-!
# Blobs under their digests

Requests for manifests and blobs run among each other, with any upstreams. What any of
them keeps under a digest has that hash, so the stores hold nothing else there. And what a
request keeps comes from an answer that it has received and that passed its checks: a
rejected answer leaves both stores as they are.
-/
namespace Helmoci.ContentAddresses
open RustText NameResolver OciDigest JsonDocuments ServerErrors EffectPrograms InterleavedPrograms
  ServerOperations UpstreamRequests BlobStorage RegistryResponses ChartBuild ServerState
  ClassicHandler PassthroughHandler StoredEntries HandlerCalls PlainCrates

/-- Requests for content, with any arguments. -/
inductive Request where
  | classicManifest (proxyHost : Str) (chart : ClassicChart) (reference : Str) (headOnly : Bool)
  | classicBlob (digest : Str) (headOnly : Bool)
  | manifest (proxyHost : Str) (target : OciTarget) (reference : Str) (headOnly : Bool)
      (accept : Option Str)
  | blob (target : OciTarget) (digest : Str) (headOnly : Bool)

section Definitions
variable (state : AppState)

def Request.serve : Request → Server Response
  | classicManifest proxyHost chart reference headOnly =>
    ClassicHandler.manifest state proxyHost chart reference headOnly
  | classicBlob digest headOnly => ClassicHandler.blob state digest headOnly
  | manifest proxyHost target reference headOnly accept =>
    PassthroughHandler.manifest state proxyHost target reference headOnly accept
  | blob target digest headOnly => PassthroughHandler.blob state target digest headOnly

/-- The writes into the object store and the cache. -/
def writes : Op → Bool
  | .put .. | .cacheOrInsert .. | .cacheInsert .. => true
  | _ => false

/-- What the bytes of a chart let through. -/
def chartPermit (proxyHost : Str) (chart : ClassicChart) (reference : Str) (tgz : Bytes) :
    Permit where
  blob digest data := ∃ built, buildChart state proxyHost tgz = .ok built ∧
    (digest, data) ∈ [(built.configDigest, built.configBytes),
      (built.layerDigest, built.layerBytes), (built.manifestDigest, built.manifestBytes)]
  tag := some (⟨proxyHost, chart.fullName⟩, reference)
  pointer p := ∃ built, buildChart state proxyHost tgz = .ok built ∧ p = built.pointer
  remote _ := False

/-- What a registry's answer to a request for a manifest lets through. -/
def manifestPermit (proxyHost : Str) (target : OciTarget) (reference : Str)
    (response : HttpResponse) : Permit where
  blob digest data := response.isSuccess = true ∧ ∃ declared mediaType,
    checkManifest state response reference declared = .ok (data, digest, mediaType)
  tag := some (⟨proxyHost, target.fullName⟩, reference)
  pointer p := response.isSuccess = true ∧ ∃ declared data, p.size = data.length ∧
    checkManifest state response reference declared = .ok (data, p.digest, p.mediaType)
  remote _ := False

/-- What a registry's answer to a request for a blob lets through. -/
def blobPermit (digestStr : Str) (response : HttpResponse) : Permit where
  blob digest data := Digest.parse digestStr = some digest ∧ response.isSuccess = true ∧
    readUpstreamChunks state.cfg.settings.maxChartBytes [] response.chunks =
      .ok (.buffered data) ∧ state.crates.sha256 data = digest
  tag := none
  pointer _ := False
  remote _ := False

/-- The call comes behind the program's end, with its result. -/
def Behind {B : Type} (p : Server B) (b : B) (cs : List (Call Op Ans)) (c : Call Op Ans) : Prop :=
  ∃ front fetched behind, cs = front ++ (fetched ++ behind) ∧ c ∈ behind ∧
    Follows p.run fetched (.pure (.ok b))

/-- The call keeps what the checks of a received answer let through. -/
def Accepted (cs : List (Call Op Ans)) (c : Call Op Ans) : Request → Prop
  | .classicManifest proxyHost chart reference _ => ∃ tgz,
      Behind (fetchChart state chart reference) tgz cs c ∧
        (chartPermit state proxyHost chart reference tgz).allows c.op
  | .classicBlob .. => False
  | .manifest proxyHost target reference headOnly accept => ∃ response,
      Behind (sendToUpstream state target headOnly (str "manifests/" ++ reference)
        (some (accept.getD defaultManifestAccept))) response cs c ∧
        (manifestPermit state proxyHost target reference response).allows c.op
  | .blob target digestStr headOnly => ∃ digest response, Digest.parse digestStr = some digest ∧
      Behind (sendToUpstream state target headOnly (str "blobs/" ++ digest.asStr) none)
        response cs c ∧ (blobPermit state digestStr response).allows c.op

end Definitions

section Runs
variable {state : AppState}

/-- Nothing may be kept. -/
def reading (tag : Option (TagScope × Str)) : Permit where
  blob _ _ := False
  tag := tag
  pointer _ := False
  remote _ := True

theorem not_writes_of_reading {tag : Option (TagScope × Str)} {op : Op}
    (h : (reading tag).allows op) : writes op = false := by
  cases op with
  | put _ _ _ _ =>
      rcases h with ⟨_, -, h⟩ | ⟨-, _, h, -⟩
      · exact h.elim
      · exact h.elim
  | cacheOrInsert _ _ =>
      obtain ⟨_, -, h⟩ := h
      exact h.elim
  | cacheInsert _ _ =>
      obtain ⟨-, _, h, -⟩ := h
      exact h.elim
  | _ => rfl

theorem not_writes_of_follows {A : Type} (tag : Option (TagScope × Str)) {Q : A → Prop}
    {p q : Program Op Ans A} {cs : List (Call Op Ans)}
    (h : Ensures Anything (reading tag).allows Q p) (hf : Follows p cs q) :
    ∀ c ∈ cs, writes c.op = false :=
  fun c hc => not_writes_of_reading ((h.follows hf).1 c hc)

/-- A program that only reads, and what is done with its result. -/
theorem follows_split {A B : Type} (tag : Option (TagScope × Str)) {p : Server B}
    {f : B → Server A} {cs : List (Call Op Ans)} {q : Program Op Ans (Except AppError A)}
    (hp : Ensures Anything (reading tag).allows (OnOk fun _ => True) p)
    (h : Follows (p >>= f : Server A).run cs q) {c : Call Op Ans} (hc : c ∈ cs)
    (hw : writes c.op = true) : ∃ front b behind, cs = front ++ behind ∧ c ∈ behind ∧
      Follows p.run front (.pure (.ok b)) ∧ Follows (f b).run behind q := by
  rcases Follows.of_tryBind h with ⟨p', h⟩ | ⟨front, b, behind, h₁, h₂, rfl⟩
  · rw [not_writes_of_follows tag hp h c hc] at hw
    contradiction
  · rcases List.mem_append.mp hc with hc | hc
    · rw [not_writes_of_follows tag hp h₁ c hc] at hw
      contradiction
    · exact ⟨front, b, behind, rfl, hc, h₁, h₂⟩

/-- Every write of a request keeps what its checks have let through. -/
theorem accepted_of_write {request : Request} {cs : List (Call Op Ans)}
    {q : Program Op Ans (Except AppError Response)}
    (h : Follows (request.serve state).run cs q) {c : Call Op Ans} (hc : c ∈ cs)
    (hw : writes c.op = true) : Accepted state cs c request := by
  cases request with
  | classicManifest proxyHost chart reference headOnly =>
      change Follows (ClassicHandler.manifest state proxyHost chart reference headOnly).run cs q at h
      unfold ClassicHandler.manifest at h
      cases hd : Digest.parse reference with
      | some digest =>
          rw [hd] at h
          obtain ⟨_, blob, _, -, hc, -, h⟩ :=
            follows_split none (findBlob_allowed digest) h hc hw
          cases blob <;> rw [(follows_pure_iff.mp h).1] at hc <;> contradiction
      | none =>
          rw [hd] at h
          have htag : (reading (some (⟨proxyHost, chart.fullName⟩, reference))).tag =
              some (⟨proxyHost, chart.fullName⟩, reference) := rfl
          obtain ⟨front, cached, behind, rfl, hc, -, h⟩ := follows_split _
            (cachedTagManifest_allowed (backend_within _) htag _ _) h hc hw
          cases cached with
          | some response =>
              rw [(follows_pure_iff.mp h).1] at hc
              contradiction
          | none =>
              dsimp only at h
              rw [buildManifest_eq] at h
              obtain ⟨fetched, tgz, behind, rfl, hc, hfetch, h⟩ := follows_split none
                ((fetchChart_allowed (fun _ _ => trivial) reference).conseq (fun _ h => h)
                  fun r _ => by cases r <;> trivial) h hc hw
              refine ⟨tgz, ⟨front, fetched, behind, rfl, hc, hfetch⟩, ?_⟩
              have hpublish := @publish_allowed Anything
                (chartPermit state proxyHost chart reference tgz) state proxyHost chart reference
                tgz rfl (fun built hb => ⟨⟨⟨built, hb, by simp⟩, ⟨built, hb, by simp⟩,
                  ⟨built, hb, by simp⟩⟩, built, hb, rfl⟩) headOnly
              exact (hpublish.follows h).1 c hc
  | classicBlob digestStr headOnly =>
      change Follows (ClassicHandler.blob state digestStr headOnly).run cs q at h
      have hread := not_writes_of_follows none (blob_allowed digestStr headOnly) h c hc
      rw [hread] at hw
      contradiction
  | manifest proxyHost target reference headOnly accept =>
      change Follows (PassthroughHandler.manifest state proxyHost target reference headOnly
        accept).run cs q at h
      -- behind the look into the storage, if there is one
      have upstream : ∀ front cs, c ∈ cs →
          Follows (upstreamManifest state proxyHost target reference headOnly accept).run cs q →
          Accepted state (front ++ cs) c (.manifest proxyHost target reference headOnly accept) := by
        intro front cs hc h
        rw [upstreamManifest_eq] at h
        obtain ⟨fetched, response, behind, rfl, hc, hsend, h⟩ := follows_split none
          ((sendToUpstream_allowed (fun _ _ => trivial) ..).conseq (fun _ h => h)
            fun r _ => by cases r <;> trivial) h hc hw
        refine ⟨response, ⟨front, fetched, behind, rfl, hc, hsend⟩, ?_⟩
        have hrelay := @relayManifest_allowed Anything
          (manifestPermit state proxyHost target reference response) state target proxyHost
          reference response (fun _ => rfl) (fun declared data digest mediaType hs hcheck =>
            ⟨⟨hs, declared, mediaType, hcheck⟩, hs, declared, data, rfl, hcheck⟩) headOnly
        exact (hrelay.follows h).1 c hc
      unfold PassthroughHandler.manifest at h
      split at h
      · have htag : Digest.parse reference = none →
            (reading (some (⟨proxyHost, target.fullName⟩, reference))).tag =
              some (⟨proxyHost, target.fullName⟩, reference) := fun _ => rfl
        obtain ⟨front, cached, behind, rfl, hc, -, h⟩ := follows_split _
          (cachedManifest_allowed htag headOnly accept) h hc hw
        cases cached with
        | some response =>
            rw [(follows_pure_iff.mp h).1] at hc
            contradiction
        | none => exact upstream front behind hc h
      · exact upstream [] cs hc h
  | blob target digestStr headOnly =>
      change Follows (PassthroughHandler.blob state target digestStr headOnly).run cs q at h
      unfold PassthroughHandler.blob at h
      cases hd : Digest.parse digestStr with
      | none =>
          rw [hd] at h
          rw [(follows_pure_iff.mp h).1] at hc
          contradiction
      | some digest =>
          rw [hd] at h
          obtain ⟨front, cached, behind, rfl, hc, -, h⟩ := follows_split none
            (cachedBlob_allowed digest headOnly) h hc hw
          cases cached with
          | some response =>
              rw [(follows_pure_iff.mp h).1] at hc
              contradiction
          | none =>
              dsimp only at h
              rw [upstreamBlob_eq] at h
              obtain ⟨fetched, response, behind, rfl, hc, hsend, h⟩ := follows_split none
                ((sendToUpstream_allowed (fun _ _ => trivial) ..).conseq (fun _ h => h)
                  fun r _ => by cases r <;> trivial) h hc hw
              refine ⟨digest, response, hd, ⟨front, fetched, behind, rfl, hc, hsend⟩, ?_⟩
              have hrelay := @relayBlob_allowed Anything (blobPermit state digestStr response) state
                target digest response (fun data hs hr hh => ⟨hd, hs, hr, hh⟩) headOnly
              exact (hrelay.follows h).1 c hc

end Runs

section Systems
variable {state : AppState}

/-- The bytes under a digest have it as their hash. -/
def Addressed (sha256 : Bytes → Digest) : Entry → Prop
  | .object path data => ∀ digest, path = blobKey digest → sha256 data = digest
  | .cached key data => ∀ digest, key = blobKey digest → sha256 data = digest
  | .index _ _ => True

def addressPermit (state : AppState) (tag : Option (TagScope × Str)) : Permit where
  blob digest data := state.crates.sha256 data = digest
  tag := tag
  pointer _ := True
  remote _ := True

/-- Pointers are kept elsewhere. -/
theorem addressed_of_allowed {tag : Option (TagScope × Str)} {op : Op}
    (h : (addressPermit state tag).allows op) {e : Entry} (hs : stored op = some e) :
    Addressed state.crates.sha256 e := by
  cases op with
  | put path data attributes mode =>
      cases hs
      intro digest hpath
      rcases h with ⟨digest', hd, hhash⟩ | ⟨⟨scope, tag, -, hp⟩, -⟩
      · rw [hd] at hpath
        rw [← blobKey_inj.mp hpath]
        exact hhash
      · exact absurd hpath (blobKey_ne_of_tagKey hp)
  | cacheOrInsert key entry =>
      cases hs
      obtain ⟨digest', hd, hhash⟩ := h
      intro digest hkey
      rw [hd] at hkey
      rw [← blobKey_inj.mp hkey]
      exact hhash
  | cacheInsert key entry =>
      cases hs
      obtain ⟨⟨scope, tag, -, hk⟩, -⟩ := h
      intro digest hkey
      rw [hk] at hkey
      exact absurd hkey (StorageKeys.tagKey_ne_blobKey digest)
  | indexInsert key text =>
      cases hs
      trivial
  | _ => contradiction

theorem keepsArtifact_of_build {tag : Option (TagScope × Str)} {proxyHost : Str} {tgz : Bytes}
    {built : BuiltChart} (h : buildChart state proxyHost tgz = .ok built) :
    KeepsArtifact (addressPermit state tag) built := by
  unfold buildChart at h
  cases hb : buildHelmOciChart state.crates.toChartCrates (rewriteContext state proxyHost)
      (archiveLimits state) tgz with
  | error e =>
      rw [hb] at h
      contradiction
  | ok built' =>
      rw [hb] at h
      cases h
      obtain ⟨config, layer, rewrites, rfl⟩ := assemble_of_build hb
      exact ⟨rfl, rfl, rfl⟩

theorem digest_of_checkManifest {response : HttpResponse} {reference : Str}
    {declared : Option Str} {data : Bytes} {digest : Digest} {mediaType : Str}
    (h : checkManifest state response reference declared = .ok (data, digest, mediaType)) :
    state.crates.sha256 data = digest := by
  unfold checkManifest at h
  obtain ⟨data', -, h⟩ := bind_eq_ok h
  dsimp only at h
  split at h
  · contradiction
  · split at h
    · contradiction
    · cases h
      rfl

/-- Whatever the answers are, a request keeps addressed entries only. -/
theorem serve_addressed (request : Request) :
    Ensures Anything (fun op => ∀ e, stored op = some e → Addressed state.crates.sha256 e)
      (OnOk fun _ => True) (request.serve state).run := by
  have allowed : ∀ tag, Ensures Anything (addressPermit state tag).allows (OnOk fun _ => True)
      (request.serve state).run →
      Ensures Anything (fun op => ∀ e, stored op = some e → Addressed state.crates.sha256 e)
        (OnOk fun _ => True) (request.serve state).run :=
    fun _ h => h.conseq (fun _ hop _ hs => addressed_of_allowed hop hs) fun _ h => h
  cases request with
  | classicManifest proxyHost chart reference headOnly =>
      apply allowed (some (⟨proxyHost, chart.fullName⟩, reference))
      exact manifest_allowed (fun _ _ => trivial) (fun _ => rfl)
        (fun _ _ _ hb => ⟨keepsArtifact_of_build hb, trivial⟩) headOnly
  | classicBlob digestStr headOnly =>
      exact allowed none (blob_allowed digestStr headOnly)
  | manifest proxyHost target reference headOnly accept =>
      apply allowed (some (⟨proxyHost, target.fullName⟩, reference))
      exact passthroughManifest_allowed (fun _ _ => trivial) (fun _ => rfl)
        (fun _ _ _ _ _ _ hc => ⟨digest_of_checkManifest hc, trivial⟩) headOnly accept
  | blob target digestStr headOnly =>
      apply allowed none
      exact passthroughBlob_allowed (fun _ _ => trivial) (fun _ _ _ _ _ _ hh => hh) headOnly

variable {S : Type} {W : World Op Ans S} {holds : S → Entry → Prop}

theorem requests_compatible (hW : Keeps W holds) :
    Compatible (fun _ => W) (fun (request : Request) p => p = (request.serve state).run)
      (fun _ _ => True)
      (fun _ _ s _ t => ∀ e, holds t e → holds s e ∨ Addressed state.crates.sha256 e)
      (fun _ r _ => OnOk (fun _ => True) r)
      (fun s => ∀ e, holds s e → Addressed state.crates.sha256 e) where
  refl _ := trivial
  trans _ _ _ _ _ := trivial
  guarantee := by
    intro _ op s r t h hs
    refine ⟨?_, trivial⟩
    intro e he
    rcases h e he with he | he
    · exact hs e he
    · exact he
  guards := by
    intro request p s hp _
    rw [hp]
    apply Guards.of_ensures (serve_addressed request)
    intro op s r t hop hw
    refine ⟨rfl, ?_⟩
    intro e he
    rcases hW.kept hw he with he | he
    · exact Or.inl he
    · exact Or.inr (hop e he)

/-- Stores that were empty hold only bytes with the right hash under a digest, whatever the
upstreams answer and however the requests take turns, and only bytes of an accepted answer
are written at all. -/
theorem content_is_addressed (state : AppState) (hW : Keeps W holds) {s₀ : S}
    (hempty : ∀ e, ¬ holds s₀ e) :
    (∀ x, Reachable (fun _ => W) (fun (request : Request) p => p = (request.serve state).run)
        s₀ x → ∀ digest data, holds x.1 (.object (blobKey digest) data) ∨
          holds x.1 (.cached (blobKey digest) data) → state.crates.sha256 data = digest) ∧
      ∀ request cs q, Follows (Request.serve state request).run cs q →
        ∀ c ∈ cs, writes c.op = true → Accepted state cs c request := by
  refine ⟨?_, fun _ _ _ h _ hc hw => accepted_of_write h hc hw⟩
  intro x hx digest data h
  obtain ⟨hall, -⟩ := hx.safe (requests_compatible hW) fun e he => absurd he (hempty e)
  rcases h with h | h
  · exact hall _ h digest rfl
  · exact hall _ h digest rfl

end Systems

section Storing

def storedTarget : OciTarget :=
  ⟨str "registry.example.com", str "team/app", str "team/app", true, .none, false⟩

/-- A registry that sends three bytes whatever it is asked for. -/
def threeBytes : (op : Op) → List Entry → Ans op × List Entry
  | .http _, s => (.ok ⟨200, [], none, [.ok [1, 2, 3]]⟩, s)
  | .put path data _ _, s => (.ok (), .object path data :: s)
  | op, s => (someAnswer op, s)

def threeBytesRequest : Request := .blob storedTarget threeDigest.asStr false

theorem threeBytes_are_addressed : ∃ x, Reachable (fun _ => entryStore)
    (fun (request : Request) p => p = (request.serve plainState).run) [] x ∧
      x.1 = [.object (blobKey threeDigest) [1, 2, 3]] ∧
      plainState.crates.sha256 [1, 2, 3] = threeDigest := by
  have hw : ∀ op s, entryStore op s (threeBytes op s).1 (threeBytes op s).2 := by
    intro op s
    cases op with
    | put path data attributes mode => exact ⟨fun e he => by contradiction, Or.inr ⟨_, rfl, rfl⟩⟩
    | _ => exact ⟨fun e he => by contradiction, Or.inl rfl⟩
  obtain ⟨cs, hrun⟩ := runs_exec hw (threeBytesRequest.serve plainState).run []
  have hreach : Reachable (fun _ => entryStore)
      (fun (request : Request) p => p = (request.serve plainState).run) []
      ([], [(threeBytesRequest, (threeBytesRequest.serve plainState).run)]) :=
    .step .start (.start rfl)
  have hend := hreach.runs [] hrun
  have hstored : ((threeBytesRequest.serve plainState).run.exec threeBytes []).2 =
      [.object (blobKey threeDigest) [1, 2, 3]] := by decide +kernel
  refine ⟨_, hend, hstored, ?_⟩
  apply (content_is_addressed plainState entryStore_honest.toKeeps (by simp)).1 _ hend
  apply Or.inl
  change _ ∈ ((threeBytesRequest.serve plainState).run.exec threeBytes []).2
  rw [hstored]
  exact List.mem_singleton_self _

end Storing

end Helmoci.ContentAddresses
