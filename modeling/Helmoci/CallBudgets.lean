import Helmoci.HandlerFetches
import Helmoci.WriteOnce

/-!
# What a request may cost

Every call of the server is made for one request, and whatever the upstreams and the stores
answer there are not many. A fetch is at most six requests, a registry may draw three
fetches, and writing a blob takes at most eight calls of the object store. What a request
may cost follows from its path, the name in it and whether anything is stored for that name.
-/
namespace Helmoci.CallBudgets
open RustText UrlInterface NameResolver OciDigest OciPaths ServerErrors EffectPrograms CallRecords
  JsonDocuments JsonValues ServerOperations UpstreamRequests ClassicUpstream RegistryTokens
  BlobStorage RegistryResponses ChartBuild ServerState ClassicHandler PassthroughHandler TagPages
  UpstreamPaths HandlerCalls HandlerFetches PullAuth Routes Router PlainCrates

section Definitions

def callsStorage : Op → Bool
  | .head _ | .get _ | .put .. => true
  | _ => false

/-- So much for each request to an upstream, and for each call of the object store. -/
def price (request storage : ℕ) : Op → ℕ
  | .http _ => request
  | .head _ | .get _ | .put .. => storage
  | _ => 0

structure Allowance where
  requests : ℕ
  storage : ℕ
deriving DecidableEq, Repr

def Allowance.total (x : Allowance) (request storage : ℕ) : ℕ :=
  x.requests * request + x.storage * storage

/-- What may be called for a name. Only a tag of a chart is built, and a digest is looked up. -/
def allowance (state : AppState) (decode : PathDecoder) (req : ClientRequest) : Allowance :=
  match req.resolved state decode, parseOciPath decode req.path with
  | some (.classic chart), .manifest _ reference =>
    if (Digest.parse reference).isSome then ⟨0, 1⟩ else ⟨12, if chart.ephemeral then 0 else 27⟩
  | some (.classic _), .blob _ _ => ⟨0, 1⟩
  | some (.classic _), .tags _ => ⟨6, 0⟩
  | some (.oci target), .manifest _ _ => ⟨18, if target.store then 11 else 0⟩
  | some (.oci target), .blob _ _ => ⟨18, if target.store then 9 else 0⟩
  | some (.oci _), .tags _ => ⟨18, 0⟩
  | _, _ => ⟨0, 0⟩

end Definitions

section Fetches
variable {a b n : ℕ} {lib : UrlCrate}

theorem length_requests (cs : List (Call Op Ans)) :
    (requests cs).length = (cs.map fun c => price 1 0 c.op).sum := by
  induction cs with
  | nil => rfl
  | cons c cs ih =>
      obtain ⟨op, r⟩ := c
      rw [List.map_cons, List.sum_cons, ← ih]
      cases op with
      | http request => rw [requests_http, List.length_cons, Nat.add_comm]; rfl
      | _ => exact (Nat.zero_add _).symm

theorem length_callsStorage (cs : List (Call Op Ans)) :
    (cs.filter fun c => callsStorage c.op).length = (cs.map fun c => price 0 1 c.op).sum := by
  induction cs with
  | nil => rfl
  | cons c cs ih =>
      obtain ⟨op, r⟩ := c
      rw [List.map_cons, List.sum_cons, ← ih]
      cases op with
      | head | get | put => rw [List.filter_cons_of_pos rfl, List.length_cons, Nat.add_comm]; rfl
      | _ => exact (Nat.zero_add _).symm

theorem spends_perform {op : Op} (h : price a b op ≤ n) : Spends (price a b) (perform op) n :=
  ⟨h, fun _ => trivial⟩

theorem spends_liftResult {A : Type} (r : Except AppError A) :
    Spends (price a b) (liftResult r) n := trivial

/-- What does not call costs nothing. -/
theorem spends_lift {A B : Type} {r : Except AppError A} {f : A → Server B}
    (hf : ∀ x, Spends (price a b) (f x) n) :
    Spends (price a b) (liftResult r >>= f : Server B) n :=
  (spends_liftResult (n := 0) r).tryBind (Nat.zero_le n) hf

/-- Only requests and calls of the object store have a price. -/
theorem spends_free {B : Type} {op : Op} {f : Ans op → Server B} (h : price a b op = 0)
    (hf : ∀ x, Spends (price a b) (f x) n) :
    Spends (price a b) (perform op >>= f : Server B) n :=
  (spends_perform h.le).tryBind (Nat.zero_le n) hf

/-- One request, and one for each redirect. -/
theorem sendLoop_spends (method : Method) (follow : Bool) (url : Url) (headers : HeaderMap)
    (client : InitialClient) :
    Spends (price a b) (sendLoop lib method follow n url headers client) ((n + 1) * a) := by
  induction n generalizing url headers client with
  | zero =>
      obtain ⟨next, hloop, hnext⟩ := sendLoop_cases lib method follow 0 url headers client
      rw [hloop]
      refine ⟨by simp [price], ?_⟩
      intro r
      rcases hnext r with ⟨result, hresult, -⟩ | ⟨m, _, _, _, hm, -⟩
      · rw [hresult]
        trivial
      · contradiction
  | succ n ih =>
      obtain ⟨next, hloop, hnext⟩ := sendLoop_cases lib method follow (n + 1) url headers client
      rw [hloop, Nat.succ_mul]
      refine ⟨Nat.le_add_left a _, ?_⟩
      intro r
      rcases hnext r with ⟨result, hresult, -⟩ | ⟨m, client', url', headers', hm, -, hgoes⟩
      · rw [hresult]
        trivial
      · cases hm
        rw [hgoes]
        exact (ih url' headers' client').mono (by simp [price])

theorem send_spends (method : Method) (url : Url) (headers : HeaderMap) (client : InitialClient)
    (follow : Bool) : Spends (price a b) (send lib method url headers client follow) (6 * a) := by
  have hloop := @sendLoop_spends a b maxRedirects lib method follow url headers client
  unfold send
  split
  · exact spends_lift fun _ => hloop
  · exact hloop

theorem fetchToken_spends (tokenJson : Bytes → Option TokenResponse) (gcp : Bool)
    (target : OciTarget) (challenge : BearerChallenge) :
    Spends (price a b) (fetchToken lib tokenJson gcp target challenge) (6 * a) := by
  have hbuild : Spends (price a b) (buildTokenRequest lib gcp target challenge) 0 := by
    unfold buildTokenRequest
    refine spends_lift fun targetUrl => ?_
    refine spends_lift fun realmUrl => ?_
    refine spends_lift fun client => ?_
    dsimp only
    split
    · split
      · trivial
      · refine spends_free rfl fun token => ?_
        cases token <;> trivial
    · trivial
  unfold fetchToken
  refine hbuild.tryBind (Nat.zero_le _) fun ⟨url, headers, client⟩ => ?_
  refine (send_spends .get url headers client true).tryBind le_rfl fun response => ?_
  exact spends_liftResult _

/-- The request, the token and the request again. -/
theorem sendUpstream_spends (tokenJson : Bytes → Option TokenResponse) (gcp : Bool)
    (target : OciTarget) (method : Method) (suffix : Str) (accept : Option Str) :
    Spends (price a b) (sendUpstream lib tokenJson gcp target method suffix accept) (18 * a) := by
  unfold sendUpstream
  split
  · trivial
  · refine spends_lift fun url => ?_
    refine spends_free rfl fun cached => ?_
    refine spends_lift fun headers => ?_
    refine (send_spends ..).tryBind (by omega) fun response => ?_
    dsimp only
    split
    · trivial
    · split
      · trivial
      · refine (fetchToken_spends ..).tryBind (by omega) fun token => ?_
        refine spends_free rfl fun _ => ?_
        refine spends_lift fun headers => ?_
        exact (send_spends ..).mono (by omega)

end Fetches

section Stores
variable {a b c : ℕ} {state : AppState}

/-- Each call of the storage costs so much, and a write of a blob is eight at most. -/
structure StorageSpends (a b c : ℕ) (st : Storage) : Prop where
  getBlob : ∀ digest, Spends (price a b) (st.getBlob digest) c
  putBlob : ∀ digest contentType data,
    Spends (price a b) (st.putBlob digest contentType data) (8 * c)
  getTagPointer : ∀ scope tag, Spends (price a b) (st.getTagPointer scope tag) c
  putTagPointer : ∀ scope tag pointer, Spends (price a b) (st.putTagPointer scope tag pointer) c

theorem objectStore_spends (json : JsonCrate) :
    StorageSpends a b b (objectStoreStorage json) where
  getBlob := by
    intro digest
    change Spends (price a b) (ObjectStore.getBlob digest) b
    unfold ObjectStore.getBlob
    refine spends_lift fun path => ?_
    refine (spends_perform (n := b) le_rfl).tryBind le_rfl fun r => ?_
    cases r with
    | ok result => trivial
    | error e => cases e <;> trivial
  putBlob := by
    intro digest contentType data
    exact (WriteOnce.putBlob_within digest contentType data).spends
      (StoredEntries.putBlob_ensures le_rfl fun _ _ _ => le_rfl)
  getTagPointer := by
    intro scope tag
    change Spends (price a b) (ObjectStore.getTagPointer json scope tag) b
    unfold ObjectStore.getTagPointer
    refine spends_lift fun path => ?_
    refine (spends_perform (n := b) le_rfl).tryBind le_rfl fun r => ?_
    cases r with
    | ok result =>
        dsimp only
        split
        · trivial
        · exact spends_lift fun data => trivial
    | error e => cases e <;> trivial
  putTagPointer := by
    intro scope tag pointer
    change Spends (price a b) (ObjectStore.putTagPointer scope tag pointer) b
    unfold ObjectStore.putTagPointer
    refine spends_lift fun path => ?_
    refine (spends_perform (n := b) le_rfl).tryBind le_rfl fun r => ?_
    cases r <;> trivial

theorem ephemeral_spends (json : JsonCrate) :
    StorageSpends a b 0 (ephemeralStorage json) where
  getBlob digest :=
    spends_free rfl fun entry => by cases entry <;> trivial
  putBlob digest contentType data := spends_perform (n := 0) le_rfl
  getTagPointer scope tag := spends_free rfl fun _ => trivial
  putTagPointer scope tag pointer := spends_perform (n := 0) le_rfl

theorem backend_spends (ephemeral : Bool) :
    StorageSpends a b (if ephemeral then 0 else b) (backend state ephemeral) := by
  unfold backend
  split
  · exact ephemeral_spends _
  · exact objectStore_spends _

theorem findBlob_spends (digest : Digest) :
    Spends (price a b) (findBlob state digest) b := by
  unfold findBlob
  refine ((objectStore_spends _).getBlob digest).tryBind le_rfl fun found => ?_
  cases found with
  | some blob => trivial
  | none => exact ((ephemeral_spends _).getBlob digest).mono (Nat.zero_le _)

theorem putArtifact_spends {st : Storage} (h : StorageSpends a b c st) (built : BuiltChart) :
    Spends (price a b) (putArtifact st built) (24 * c) := by
  have hturn : price a b .turn = 0 := rfl
  have hjoin : Spends (price a b) (tryJoinServer
      (st.putBlob built.configDigest mediaTypeHelmConfig built.configBytes)
      (tryJoinServer (st.putBlob built.layerDigest mediaTypeHelmChart built.layerBytes)
        (st.putBlob built.manifestDigest mediaTypeManifest built.manifestBytes)))
      (8 * c + (8 * c + 8 * c)) :=
    Spends.tryJoin hturn (h.putBlob ..) (Spends.tryJoin hturn (h.putBlob ..) (h.putBlob ..))
  unfold putArtifact
  refine hjoin.tryBind (by omega) fun _ => ?_
  trivial

theorem cachedTagManifest_spends {st : Storage} (h : StorageSpends a b c st) (scope : TagScope)
    (tag : Str) (headOnly : Bool) (maxBytes : ℕ) :
    Spends (price a b) (cachedTagManifest state st scope tag headOnly maxBytes) (2 * c) := by
  unfold cachedTagManifest
  refine (h.getTagPointer scope tag).tryBind (by omega) fun pointer => ?_
  cases pointer with
  | none => trivial
  | some pointer =>
      dsimp only
      split
      · trivial
      · refine (h.getBlob pointer.digest).tryBind (by omega) fun blob => ?_
        cases blob with
        | none => trivial
        | some blob =>
            dsimp only
            split
            · trivial
            · split <;> trivial

end Stores

section Handlers
variable {a b : ℕ} {state : AppState}

theorem fetchIndexText_spends (repoUrl : Str) (source : ClassicSource) :
    Spends (price a b) (fetchIndexText state.crates.url state.crates.sha256 state.cfg.settings
      repoUrl source) (6 * a) := by
  unfold fetchIndexText
  refine spends_lift fun url => ?_
  refine spends_free rfl fun cached => ?_
  cases cached with
  | some text => trivial
  | none =>
      refine (send_spends ..).tryBind (by omega) fun response => ?_
      dsimp only
      split
      · trivial
      · refine spends_lift fun text => ?_
        exact spends_free rfl fun _ => trivial

/-- The index and the archive. -/
theorem fetchChart_spends (chart : ClassicChart) (reference : Str) :
    Spends (price a b) (fetchChart state chart reference) (12 * a) := by
  have hdownload : ∀ chartUrl, Spends (price a b) (downloadChart state.crates.url
      state.cfg.settings chartUrl chart.repoUrl chart.source) (6 * a) := by
    intro chartUrl
    unfold downloadChart
    refine spends_lift fun url => ?_
    refine spends_lift fun ⟨client, redirects⟩ => ?_
    refine (send_spends ..).tryBind (by omega) fun response => ?_
    dsimp only
    split <;> trivial
  unfold fetchChart
  refine (fetchIndexText_spends ..).tryBind (by omega) fun index => ?_
  refine spends_lift fun chartUrl => ?_
  exact (hdownload chartUrl).mono (by omega)

theorem classicManifest_spends (proxyHost : Str) (chart : ClassicChart) (reference : Str)
    (headOnly : Bool) :
    Spends (price a b) (ClassicHandler.manifest state proxyHost chart reference headOnly)
      (if (Digest.parse reference).isSome then b
        else 12 * a + if chart.ephemeral then 0 else 27 * b) := by
  unfold ClassicHandler.manifest
  cases hd : Digest.parse reference with
  | some digest =>
      refine (findBlob_spends digest).tryBind le_rfl fun found => ?_
      cases found <;> trivial
  | none =>
      have hstore := @backend_spends a b state chart.ephemeral
      rw [show (12 * a + if chart.ephemeral then 0 else 27 * b) =
        12 * a + 27 * if chart.ephemeral then 0 else b by cases chart.ephemeral <;> rfl]
      generalize (if chart.ephemeral = true then 0 else b) = c at hstore ⊢
      change Spends _ _ (12 * a + 27 * c)
      refine (cachedTagManifest_spends hstore ..).tryBind (by omega) fun found => ?_
      cases found with
      | some r => trivial
      | none =>
          dsimp only
          rw [buildManifest_eq]
          refine (fetchChart_spends chart reference).tryBind (by omega) fun tgz => ?_
          unfold publish
          refine spends_lift fun built => ?_
          refine (putArtifact_spends hstore built).tryBind (by omega) fun _ => ?_
          exact (hstore.putTagPointer ..).tryBind (by omega) fun _ => trivial

theorem classicBlob_spends (digestStr : Str) (headOnly : Bool) :
    Spends (price a b) (ClassicHandler.blob state digestStr headOnly) b := by
  unfold ClassicHandler.blob
  cases Digest.parse digestStr with
  | none => trivial
  | some digest =>
      refine (findBlob_spends digest).tryBind le_rfl fun found => ?_
      cases found <;> trivial

theorem classicTags_spends (chart : ClassicChart) (query : Option Str) (headOnly : Bool) :
    Spends (price a b) (tags state chart query headOnly) (6 * a) := by
  unfold tags
  refine (fetchIndexText_spends ..).tryBind le_rfl fun index => ?_
  exact spends_lift fun page => trivial

theorem upstreamTags_spends (target : OciTarget) (query : Option Str) :
    Spends (price a b) (upstreamTags state target query) (18 * a) := by
  unfold upstreamTags
  refine (sendUpstream_spends ..).tryBind le_rfl fun response => ?_
  split
  · trivial
  · split <;> trivial

theorem passthroughManifest_spends (proxyHost : Str) (target : OciTarget) (reference : Str)
    (headOnly : Bool) (accept : Option Str) :
    Spends (price a b)
      (PassthroughHandler.manifest state proxyHost target reference headOnly accept)
      (18 * a + if target.store then 11 * b else 0) := by
  have hstore := @objectStore_spends a b state.crates.json
  have hcached : ∀ scope, Spends (price a b)
      (cachedManifest state scope reference headOnly accept) (2 * b) := by
    intro scope
    have content : ∀ {n : ℕ} (r : Except AppError Response), Spends (price a b) (do
        let response ← liftResult r
        return some response : Server (Option Response)) n := by
      intro n r
      exact spends_lift fun _ => trivial
    unfold cachedManifest
    split
    · refine (hstore.getBlob _).tryBind (by omega) fun blob => ?_
      cases blob with
      | none => trivial
      | some blob => exact content _
    · refine (hstore.getTagPointer ..).tryBind (by omega) fun pointer => ?_
      cases pointer with
      | none => trivial
      | some pointer =>
          dsimp only
          split
          · trivial
          · split
            · trivial
            · refine (hstore.getBlob _).tryBind (by omega) fun blob => ?_
              cases blob with
              | none => trivial
              | some blob => exact content _
  have hupstream : Spends (price a b)
      (upstreamManifest state proxyHost target reference headOnly accept)
      (18 * a + if target.store then 9 * b else 0) := by
    rw [upstreamManifest_eq]
    refine (sendUpstream_spends ..).tryBind (by omega) fun response => ?_
    unfold relayManifest
    split
    · trivial
    · split
      · trivial
      · dsimp only
        split
        · trivial
        · refine spends_lift fun checked => ?_
          split
          · have hwrite : Spends (price a b) (storeManifest state ⟨proxyHost, target.fullName⟩
                reference checked.1 checked.2.1 checked.2.2) (9 * b) := by
              unfold storeManifest
              refine (hstore.putBlob ..).tryBind (by omega) fun _ => ?_
              split
              · exact (hstore.putTagPointer ..).mono (by omega)
              · trivial
            exact hwrite.tryBind (by omega) fun _ => trivial
          · trivial
  unfold PassthroughHandler.manifest
  split
  · rename_i hkept
    rw [if_pos hkept] at hupstream
    refine (hcached _).tryBind (by omega) fun found => ?_
    cases found with
    | some r => trivial
    | none => exact hupstream.mono (by omega)
  · rename_i hkept
    rw [if_neg hkept] at hupstream
    exact hupstream

theorem passthroughBlob_spends (target : OciTarget) (digestStr : Str) (headOnly : Bool) :
    Spends (price a b) (PassthroughHandler.blob state target digestStr headOnly)
      (18 * a + if target.store then 9 * b else 0) := by
  have hstore := @objectStore_spends a b state.crates.json
  unfold PassthroughHandler.blob
  cases Digest.parse digestStr with
  | none => trivial
  | some digest =>
      have hcached : Spends (price a b) (cachedBlob state target digest headOnly)
          (if target.store then b else 0) := by
        unfold cachedBlob
        split
        · exact (hstore.getBlob digest).tryBind le_rfl fun _ => trivial
        · trivial
      refine hcached.tryBind (by split <;> omega) fun found => ?_
      cases found with
      | some r => trivial
      | none =>
          dsimp only
          rw [upstreamBlob_eq]
          refine (sendUpstream_spends ..).tryBind (by split <;> omega) fun response => ?_
          unfold relayBlob
          split
          · trivial
          · split
            · trivial
            · dsimp only
              split
              · trivial
              · split
                · rename_i hkept
                  rw [Bool.and_eq_true] at hkept
                  rw [if_pos hkept.1, if_pos hkept.1]
                  unfold storedBlob
                  refine spends_lift fun read => ?_
                  cases read with
                  | buffered data =>
                      dsimp only
                      split
                      · trivial
                      · exact (hstore.putBlob ..).tryBind (by omega) fun _ => trivial
                  | oversized readSoFar rest => trivial
                · trivial

end Handlers

section Serving
variable {a b : ℕ} {state : AppState} {decode : PathDecoder} {debug : Str → Str}
  {values : ValueCrate} {pages : Pages} {decodeBase64 : Str → Option Bytes}

theorem ociDispatch_spends (req : ClientRequest) :
    Spends (price a b) (ociDispatch state decode debug req)
      ((allowance state decode req).total a b) := by
  have answered : ∀ {p : Server Response} {n : ℕ}, Spends (price a b) p n →
      Spends (price a b) (do return .response (← p) : Server Answer) n :=
    fun hp => hp.tryBind le_rfl fun _ => trivial
  unfold ociDispatch
  split
  · trivial
  · split
    · trivial
    · split
      · trivial
      · dsimp only
        split
        · trivial
        · rename_i name reference hpath
          unfold manifestEntry
          split
          · rename_i chart hname
            refine (answered (classicManifest_spends ..)).mono ?_
            simp only [allowance, ClientRequest.resolved, hpath, routeName, Option.bind_some, hname]
            split <;> simp [Allowance.total, ite_mul]
          · rename_i target hname
            refine (answered (passthroughManifest_spends ..)).mono ?_
            simp only [allowance, ClientRequest.resolved, hpath, routeName, Option.bind_some, hname]
            simp [Allowance.total, ite_mul]
          · trivial
        · rename_i name digest hpath
          unfold blobEntry
          split
          · rename_i chart hname
            refine (answered (classicBlob_spends ..)).mono ?_
            simp only [allowance, ClientRequest.resolved, hpath, routeName, Option.bind_some, hname]
            simp [Allowance.total]
          · rename_i target hname
            refine (answered (passthroughBlob_spends ..)).mono ?_
            simp only [allowance, ClientRequest.resolved, hpath, routeName, Option.bind_some, hname]
            simp [Allowance.total, ite_mul]
          · trivial
        · rename_i name hpath
          unfold tagsEntry
          split
          · rename_i chart hname
            refine (answered (classicTags_spends ..)).mono ?_
            simp only [allowance, ClientRequest.resolved, hpath, routeName, Option.bind_some, hname]
            simp [Allowance.total]
          · rename_i target hname
            have hlisted : Spends (price a b) (do
                return .tagList target (← upstreamTags state target req.query) : Server Answer)
                (18 * a) := (upstreamTags_spends ..).tryBind le_rfl fun _ => trivial
            refine hlisted.mono ?_
            simp only [allowance, ClientRequest.resolved, hpath, routeName, Option.bind_some, hname]
            simp [Allowance.total]
          · trivial
        · trivial

theorem serve_spends (req : ServerRequest) :
    Spends (price a b) (serve state decode debug values pages decodeBase64 req)
      ((allowance state decode req.toClientRequest).total a b) := by
  unfold serve
  split
  · trivial
  · unfold route
    split
    · split <;> trivial
    · exact (ociDispatch_spends req.toClientRequest).bind le_rfl fun _ => trivial

/-- Whatever is answered, a request keeps to what is allowed for its path and name. -/
theorem calls_within_allowance {req : ServerRequest} {cs : List (Call Op Ans)}
    {q : Program Op Ans Response}
    (h : Follows (serve state decode debug values pages decodeBase64 req) cs q) :
    (requests cs).length ≤ (allowance state decode req.toClientRequest).requests ∧
      (cs.filter fun c => callsStorage c.op).length ≤
        (allowance state decode req.toClientRequest).storage := by
  rw [length_requests, length_callsStorage]
  constructor
  · exact ((serve_spends req).follows h).trans (by simp [Allowance.total])
  · exact ((serve_spends req).follows h).trans (by simp [Allowance.total])

end Serving

section Instances

def costlyState : AppState :=
  {plainState with
    crates := tokenCrates
    cfg := {plainConfig with aliases := collect [(str "team",
      ⟨.oci (str "registry.example.com") (str "acme"), false, .none, false⟩)]}}

/-- A registry that redirects every request as often as it may, and asks for a token. -/
def costlyAnswer : (op : Op) → ℕ → Ans op × ℕ
  | .http _, n =>
    if n = 5 then (.ok ⟨401, [(str "www-authenticate",
      .text (str "Bearer realm=\"https://registry.example.com/token\""))], none, []⟩, n + 1)
    else if n = 11 then (.ok ⟨200, [], none, [.ok tokenBody]⟩, n + 1)
    else if n = 17 then (.ok ⟨200, [], none, []⟩, n + 1)
    else (.ok ⟨307, [(str "location", .text (str "/again"))], none, []⟩, n + 1)
  | op, n => (someAnswer op, n)

def costlyRequest : ServerRequest :=
  ⟨⟨some .get, str "/v2/team/demo/tags/list", none, [(str "host", .text (str "proxy.test"))],
    none⟩, []⟩

def costlyProgram : Program Op Ans Response :=
  serve costlyState asciiDecoder id plainValues ⟨[], []⟩ (fun _ => none) costlyRequest

theorem costly_requests : (requests (costlyProgram.trace costlyAnswer 0)).length = 18 := by
  decide +kernel

/-- The allowance of a tag list is spent in full. -/
theorem allowance_spent : ∃ cs q, Follows (serve costlyState asciiDecoder id plainValues ⟨[], []⟩
      (fun _ => none) costlyRequest) cs q ∧ (requests cs).length = 18 ∧
    18 ≤ (allowance costlyState asciiDecoder costlyRequest.toClientRequest).requests ∧
    (cs.filter fun c => callsStorage c.op).length ≤
      (allowance costlyState asciiDecoder costlyRequest.toClientRequest).storage := by
  have hruns : Runs (fun op n r m => (r, m) = costlyAnswer op n) costlyProgram 0
      (costlyProgram.trace costlyAnswer 0) (costlyProgram.exec costlyAnswer 0).1
      (costlyProgram.exec costlyAnswer 0).2 := runs_trace (fun _ _ => rfl) costlyProgram 0
  obtain ⟨hrequests, hstorage⟩ := calls_within_allowance hruns.follows
  rw [costly_requests] at hrequests
  exact ⟨_, _, hruns.follows, costly_requests, hrequests, hstorage⟩

end Instances

end Helmoci.CallBudgets
