import Helmoci.Router

/-!
# What a request fetches

Apart from the stores and caches, a request reaches out only by asking the upstream that its
name resolves to: a classic repository without credentials, or a registry with its token.
What holds of these fetches holds of all calls of the request.
-/
namespace Helmoci.HandlerFetches
open RustText NameResolver OciDigest OciPaths JsonValues ServerErrors EffectPrograms ServerOperations
  UpstreamRequests ClassicUpstream RegistryTokens BlobStorage RegistryResponses ChartBuild
  ServerState ClassicHandler PassthroughHandler StorageKeys UpstreamPaths StoredEntries
  HandlerCalls PullAuth Routes Router

/-- The calls that reach an upstream, its tokens or the cloud. -/
def reachesOut : Op → Bool
  | .http _ | .liveToken _ | .insertToken .. | .gcpAccessToken => true
  | _ => false

/-- The headers of requests to a classic repository. -/
def classicHeaders : List HeaderMap :=
  [[], [(str "accept", .text (str "application/yaml, text/yaml, text/plain, */*"))]]

/-- The stores alone. -/
def quiet (tag : Option (TagScope × Str)) : Permit where
  blob _ _ := True
  tag := tag
  pointer _ := True
  remote _ := False

section Fetches
variable {R : (op : Op) → Ans op → Prop} {P : Op → Prop} {state : AppState}

/-- What is fetched on behalf of a name is a `P`. -/
def Fetches (R : (op : Op) → Ans op → Prop) (P : Op → Prop) (state : AppState) :
    Resolved → Prop
  | .classic _ => ∀ url client follow, ∀ headers ∈ classicHeaders, Ensures R P
      (OnOk fun _ => True) (send state.crates.url .get url headers client follow)
  | .oci target => ∀ headOnly suffix accept, Ensures R P (OnOk fun _ => True)
      (sendToUpstream state target headOnly suffix accept)

variable (hlocal : ∀ op, reachesOut op = false → P op)
include hlocal

theorem ensures_of_quiet {A : Type} {tag : Option (TagScope × Str)} {Q : A → Prop}
    {p : Program Op Ans A} (h : Ensures R (quiet tag).allows Q p) : Ensures R P Q p := by
  refine h.conseq ?_ fun _ hq => hq
  intro op hop
  apply hlocal
  cases op with
  | http _ | liveToken _ | insertToken _ _ | gcpAccessToken => exact False.elim hop
  | _ => rfl

section Classic
variable {chart : ClassicChart} (hfetch : Fetches R P state (.classic chart))
include hfetch

theorem fetchIndexText_fetches (repoUrl : Str) (source : ClassicSource) :
    Ensures R P (OnOk fun _ => True) (fetchIndexText state.crates.url state.crates.sha256
      state.cfg.settings repoUrl source) := by
  unfold fetchIndexText
  refine ensures_bind (Q := fun _ => True) (ensures_liftResult fun _ _ => trivial) ?_
  intro url _
  refine ensures_bind_call (hlocal _ rfl) ?_
  intro cached _
  cases cached with
  | some text => trivial
  | none =>
      refine ensures_bind (hfetch _ _ _ _ (by simp [classicHeaders])) ?_
      intro response _
      dsimp only
      split
      · trivial
      · refine ensures_bind (Q := fun _ => True) (ensures_liftResult fun _ _ => trivial) ?_
        intro text _
        exact ensures_bind_call (hlocal _ rfl) fun _ _ => trivial

theorem fetchChart_fetches (reference : Str) :
    Ensures R P (OnOk fun _ => True) (fetchChart state chart reference) := by
  unfold fetchChart
  refine ensures_bind (fetchIndexText_fetches hlocal hfetch _ _) ?_
  intro index _
  refine ensures_bind (Q := fun _ => True) (ensures_liftResult fun _ _ => trivial) ?_
  intro chartUrl _
  unfold downloadChart
  refine ensures_bind (Q := fun _ => True) (ensures_liftResult fun _ _ => trivial) ?_
  intro url _
  refine ensures_bind (Q := fun _ => True) (ensures_liftResult fun _ _ => trivial) ?_
  intro ⟨client, redirects⟩ _
  refine ensures_bind (hfetch _ _ _ _ (by simp [classicHeaders])) ?_
  intro response _
  dsimp only
  split
  · trivial
  · exact ensures_liftResult fun _ _ => trivial

theorem classicManifest_fetches (proxyHost reference : Str) (headOnly : Bool) :
    Ensures R P (OnOk fun _ => True)
      (ClassicHandler.manifest state proxyHost chart reference headOnly) := by
  unfold ClassicHandler.manifest
  cases hd : Digest.parse reference with
  | some digest =>
      refine ensures_bind
        (ensures_of_quiet hlocal (@findBlob_allowed R (quiet none) state digest)) ?_
      intro blob _
      cases blob with
      | some blob => exact ensures_liftResult fun _ _ => trivial
      | none => trivial
  | none =>
      have htag : (quiet (some (⟨proxyHost, chart.fullName⟩, reference))).tag =
          some (⟨proxyHost, chart.fullName⟩, reference) := rfl
      refine ensures_bind (ensures_of_quiet hlocal
        (cachedTagManifest_allowed (backend_within _) htag _ _)) ?_
      intro cached _
      cases cached with
      | some response => trivial
      | none =>
          dsimp only
          rw [buildManifest_eq]
          refine ensures_bind (fetchChart_fetches hlocal hfetch reference) ?_
          intro tgz _
          exact ensures_of_quiet hlocal (publish_allowed htag
            (fun _ _ => ⟨⟨trivial, trivial, trivial⟩, trivial⟩) headOnly)

theorem classicTags_fetches (query : Option Str) (headOnly : Bool) :
    Ensures R P (OnOk fun _ => True) (TagPages.tags state chart query headOnly) := by
  unfold TagPages.tags
  refine ensures_bind (fetchIndexText_fetches hlocal hfetch _ _) ?_
  intro index _
  exact ensures_bind (Q := fun _ => True) (ensures_liftResult fun _ _ => trivial)
    fun _ _ => trivial

end Classic

section Passthrough
variable {target : OciTarget} (hfetch : Fetches R P state (.oci target))
include hfetch

theorem passthroughManifest_fetches (proxyHost reference : Str) (headOnly : Bool)
    (accept : Option Str) : Ensures R P (OnOk fun _ => True)
      (PassthroughHandler.manifest state proxyHost target reference headOnly accept) := by
  have htag : (quiet (some (⟨proxyHost, target.fullName⟩, reference))).tag =
      some (⟨proxyHost, target.fullName⟩, reference) := rfl
  have upstream : Ensures R P (OnOk fun _ => True)
      (upstreamManifest state proxyHost target reference headOnly accept) := by
    rw [upstreamManifest_eq]
    refine ensures_bind (hfetch _ _ _) ?_
    intro response _
    exact ensures_of_quiet hlocal (relayManifest_allowed (fun _ => htag)
      (fun _ _ _ _ _ _ => ⟨trivial, trivial⟩) headOnly)
  unfold PassthroughHandler.manifest
  split
  · refine ensures_bind (ensures_of_quiet hlocal
      (cachedManifest_allowed (fun _ => htag) headOnly accept)) ?_
    intro cached _
    cases cached with
    | some response => trivial
    | none => exact upstream
  · exact upstream

theorem passthroughBlob_fetches (digestStr : Str) (headOnly : Bool) :
    Ensures R P (OnOk fun _ => True)
      (PassthroughHandler.blob state target digestStr headOnly) := by
  unfold PassthroughHandler.blob
  cases hd : Digest.parse digestStr with
  | none => trivial
  | some digest =>
      have hcached : Ensures R (quiet none).allows (OnOk fun _ => True)
          (cachedBlob state target digest headOnly) := cachedBlob_allowed digest headOnly
      refine ensures_bind (ensures_of_quiet hlocal hcached) ?_
      intro cached _
      cases cached with
      | some response => trivial
      | none =>
          dsimp only
          rw [upstreamBlob_eq]
          refine ensures_bind (hfetch _ _ _) ?_
          intro response _
          have hrelay : Ensures R (quiet none).allows (OnOk fun _ => True)
              (relayBlob state target digest headOnly response) :=
            relayBlob_allowed (fun _ _ _ _ => trivial) headOnly
          exact ensures_of_quiet hlocal hrelay

omit hlocal in
theorem upstreamTags_fetches (query : Option Str) :
    Ensures R P (OnOk fun _ => True) (upstreamTags state target query) := by
  refine ensures_bind (hfetch _ _ _) ?_
  intro response _
  split
  · trivial
  · split <;> trivial

end Passthrough

/-- The calls of a request are its fetches, and calls of the stores and caches. -/
theorem ociDispatch_fetches {decode : PathDecoder} {debug : Str → Str} {req : ClientRequest}
    (hfetch : ∀ resolved, req.resolved state decode = some resolved → Fetches R P state resolved) :
    Ensures R P (OnOk fun _ => True) (ociDispatch state decode debug req) := by
  have resolved : ∀ name, routeName (parseOciPath decode req.path) = some name →
      req.resolved state decode = resolveName state.crates.url name state.cfg.aliases := by
    intro name hname
    rw [ClientRequest.resolved, hname, Option.bind_some]
  unfold ociDispatch
  split
  · trivial
  · split
    · trivial
    · split
      · trivial
      · dsimp only
        split
        · trivial
        · rename_i name reference hpath
          have hname := resolved name (by rw [hpath]; rfl)
          unfold manifestEntry
          split
          · rename_i chart hr
            exact ensures_map (classicManifest_fetches hlocal (hfetch _ (hname.trans hr)) ..) _
          · rename_i target hr
            exact ensures_map (passthroughManifest_fetches hlocal (hfetch _ (hname.trans hr)) ..) _
          · trivial
        · rename_i name digest hpath
          have hname := resolved name (by rw [hpath]; rfl)
          unfold blobEntry
          split
          · exact ensures_map (ensures_of_quiet hlocal
              (@HandlerCalls.blob_allowed R (quiet none) state digest _)) _
          · rename_i target hr
            exact ensures_map (passthroughBlob_fetches hlocal (hfetch _ (hname.trans hr)) ..) _
          · trivial
        · rename_i name hpath
          have hname := resolved name (by rw [hpath]; rfl)
          unfold tagsEntry
          split
          · rename_i chart hr
            exact ensures_map (classicTags_fetches hlocal (hfetch _ (hname.trans hr)) ..) _
          · rename_i target hr
            exact ensures_map (upstreamTags_fetches (hfetch _ (hname.trans hr)) _) _
          · trivial
        · trivial

/-- As `ociDispatch_fetches`, for the whole server. -/
theorem serve_fetches {decode : PathDecoder} {debug : Str → Str} {values : ValueCrate}
    {pages : Pages} {decodeBase64 : Str → Option Bytes} {req : ServerRequest}
    (hfetch : requirePullAuth decodeBase64 state.cfg.settings req.pull = .run →
      pages.route req.path = none → ∀ resolved,
        req.toClientRequest.resolved state decode = some resolved → Fetches R P state resolved) :
    Ensures R P (fun _ => True) (serve state decode debug values pages decodeBase64 req) := by
  refine serve_ensures ?_ trivial
  intro hrun
  refine route_ensures (Q := OnOk fun _ => True) ?_ (fun _ _ => trivial)
    (fun _ _ _ => trivial) fun _ => trivial
  intro hroute
  exact ociDispatch_fetches hlocal (hfetch hrun hroute)

end Fetches

end Helmoci.HandlerFetches
