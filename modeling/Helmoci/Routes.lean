import Helmoci.HandlerCalls
import Helmoci.UpstreamPaths

/-!
# Dispatching requests

A request under `/v2` is answered for the host that the client has used and the name in
its path: by the classic handlers where the name resolves to a chart, and by the registry
handlers otherwise. A tag is stored under that host and that name.
-/
namespace Helmoci.Routes
open RustText OciDigest OciPaths NameResolver ProxyHosts ServerErrors EffectPrograms
  ServerOperations UpstreamRequests ClassicUpstream RegistryTokens BlobStorage RegistryResponses
  ChartBuild JsonDocuments ServerState ClassicHandler PassthroughHandler StorageKeys UpstreamPaths
  StoredEntries HandlerCalls

/-- What is read of a request. -/
structure ClientRequest where
  /-- `none` is any method but `GET` and `HEAD`. -/
  method : Option Method
  path : Str
  query : Option Str
  headers : HeaderMap
  /-- The authority of the URI: HTTP/2 carries the host there. -/
  uriHost : Option (Str × Option ℕ)
deriving DecidableEq, Repr

inductive Answer where
  | response (r : Response)
  /-- The tag list of a registry, before its name and links are rewritten. -/
  | tagList (target : OciTarget) (r : HttpResponse)

section Dispatch

def headerHost (headers : HeaderMap) : Option Str :=
  (((HeaderMap.get headers (str "host")).bind HeaderValue.toStr).map trim).filter fun host =>
    !host.isEmpty

def uriHost (uri : Option (Str × Option ℕ)) : Option Str :=
  uri.map fun (host, port) => host ++ port.elim [] fun port => ':' :: decimal port

/-- Host clients should use for rewritten oci:// dependency URLs and cache keys. -/
def proxyHostFrom (req : ClientRequest) : Option Str :=
  ((headerHost req.headers).orElse fun _ => uriHost req.uriHost).bind normalizeProxyHost

def notFound : Response :=
  ⟨404, [(str "content-type", .text (str "text/plain; charset=utf-8"))],
    [.ok (Utf8.asBytes (str "Not Found"))]⟩

def apiResponse : Response := ⟨200, [apiVersion], []⟩

def invalidHost : AppError :=
  .nameInvalid (str ("Invalid Host header. helmoci uses it as the proxy host in rewritten oci:// " ++
    "dependency URLs and as a cache key segment, so it must be a host[:port] value such as " ++
    "charts.example.com, charts.example.com:8443, 127.0.0.1:8080, or [::1]:8080."))

variable (state : AppState) (decode : PathDecoder) (debug : Str → Str)

def invalidPathMessage (name : Str) : Str :=
  str "Invalid OCI path " ++ (debug name ++ str (". Use a configured alias or a public host and " ++
    "chart name: oci://<proxy>/<host>/<repo-path>/<chart> (e.g. argoproj.github.io/argo-helm/" ++
    "argo-cd). Localhost and raw IP addresses are not allowed."))

def manifestEntry (proxyHost name reference : Str) (headOnly : Bool) (accept : Option Str) :
    Server Answer := do
  match resolveName state.crates.url name state.cfg.aliases with
  | some (.classic chart) =>
    return .response (← ClassicHandler.manifest state proxyHost chart reference headOnly)
  | some (.oci target) =>
    return .response (← PassthroughHandler.manifest state proxyHost target reference headOnly accept)
  | none => throw (.nameUnknown (invalidPathMessage debug name))

def blobEntry (name digest : Str) (headOnly : Bool) : Server Answer := do
  match resolveName state.crates.url name state.cfg.aliases with
  | some (.classic _) => return .response (← ClassicHandler.blob state digest headOnly)
  | some (.oci target) => return .response (← PassthroughHandler.blob state target digest headOnly)
  | none => throw (.nameUnknown (invalidPathMessage debug name))

def tagsEntry (name : Str) (query : Option Str) (headOnly : Bool) : Server Answer := do
  match resolveName state.crates.url name state.cfg.aliases with
  | some (.classic chart) => return .response (← TagPages.tags state chart query headOnly)
  | some (.oci target) => return .tagList target (← upstreamTags state target query)
  | none => throw (.nameUnknown (invalidPathMessage debug name))

def ociDispatch (req : ClientRequest) : Server Answer := do
  if req.path ≠ str "/v2" ∧ (str "/v2/").isPrefixOf req.path = false then
    return .response notFound
  else
    match req.method with
    | none => throw (.unsupported (str "only GET/HEAD are supported"))
    | some method =>
      match proxyHostFrom req with
      | none => throw invalidHost
      | some proxyHost =>
        let headOnly := method == .head
        let accept := (HeaderMap.get req.headers (str "accept")).bind HeaderValue.toStr
        match parseOciPath decode req.path with
        | .api => return .response apiResponse
        | .manifest name reference =>
          manifestEntry state debug proxyHost name reference headOnly accept
        | .blob name digest => blobEntry state debug name digest headOnly
        | .tags name => tagsEntry state debug name req.query headOnly
        | .notFound => throw (.nameUnknown (str "unknown registry path"))

end Dispatch

section Scopes
variable (state : AppState) (decode : PathDecoder)

/-- The host, the name and the tag of a request for a tag. -/
def ClientRequest.tag (req : ClientRequest) : Option (TagScope × Str) :=
  match proxyHostFrom req, parseOciPath decode req.path with
  | some proxyHost, .manifest name reference =>
    if (Digest.parse reference).isNone then some (⟨proxyHost, name⟩, reference) else none
  | _, _ => none

/-- What the name of a request resolves to. -/
def ClientRequest.resolved (req : ClientRequest) : Option Resolved :=
  (routeName (parseOciPath decode req.path)).bind fun name =>
    resolveName state.crates.url name state.cfg.aliases

/-- What a request may call and keep, with such answers. -/
def requestPermit (R : (op : Op) → Ans op → Prop) (req : ClientRequest) : Permit where
  blob _ _ := True
  tag := req.tag decode
  pointer p := ∀ chart, req.resolved state decode = some (.classic chart) →
    ∃ proxyHost response built, proxyHostFrom req = some proxyHost ∧ AnswersHttp R response ∧
      buildChart state proxyHost (responseBytes response) = .ok built ∧ p = built.pointer
  remote op :=
    match req.resolved state decode with
    | some (.classic chart) =>
      Sourced state.crates.url state.crates.sha256 R chart.repoUrl chart.source op
    | some (.oci _) => RegistryOp op
    | none => False

end Scopes

section Calls
variable {R : (op : Op) → Ans op → Prop} {state : AppState} {decode : PathDecoder}
  {debug : Str → Str} {req : ClientRequest}

theorem ensures_map {A B : Type} {P : Op → Prop} {p : Server A}
    (h : Ensures R P (OnOk fun _ => True) p) (f : A → B) :
    Ensures R P (OnOk fun _ => True) (do return f (← p) : Server B) :=
  ensures_bind h fun _ _ => trivial

theorem tag_eq {proxyHost name reference : Str} (hhost : proxyHostFrom req = some proxyHost)
    (hpath : parseOciPath decode req.path = .manifest name reference)
    (hd : Digest.parse reference = none) : req.tag decode = some (⟨proxyHost, name⟩, reference) := by
  simp [ClientRequest.tag, hhost, hpath, hd]

theorem manifestEntry_allowed {proxyHost name reference : Str}
    (hhost : proxyHostFrom req = some proxyHost)
    (hpath : parseOciPath decode req.path = .manifest name reference) (headOnly : Bool)
    (accept : Option Str) :
    Ensures R (requestPermit state decode R req).allows (OnOk fun _ => True)
      (manifestEntry state debug proxyHost name reference headOnly accept) := by
  have hresolved : req.resolved state decode =
      resolveName state.crates.url name state.cfg.aliases := by
    simp [ClientRequest.resolved, hpath, routeName]
  unfold manifestEntry
  split
  · rename_i chart hr
    have hname : chart.fullName = name := fullName_of_resolveName hr
    rw [hr] at hresolved
    apply ensures_map
    apply manifest_allowed
    · intro op hop
      simpa only [requestPermit, hresolved] using hop
    · intro hd
      rw [hname]
      exact tag_eq hhost hpath hd
    · intro response built hresponse hbuilt
      refine ⟨⟨trivial, trivial, trivial⟩, ?_⟩
      intro _ _
      exact ⟨proxyHost, response, built, hhost, hresponse, hbuilt, rfl⟩
  · rename_i target hr
    have hname : target.fullName = name := fullName_of_resolveName hr
    rw [hr] at hresolved
    apply ensures_map
    apply passthroughManifest_allowed
    · intro op hop
      simpa only [requestPermit, hresolved] using hop
    · intro hd
      rw [hname]
      exact tag_eq hhost hpath hd
    · intro response declared data digest mediaType _ _
      refine ⟨trivial, ?_⟩
      intro chart hchart
      rw [hresolved] at hchart
      cases hchart
  · trivial

theorem blobEntry_allowed {name digest : Str}
    (hpath : parseOciPath decode req.path = .blob name digest) (headOnly : Bool) :
    Ensures R (requestPermit state decode R req).allows (OnOk fun _ => True)
      (blobEntry state debug name digest headOnly) := by
  have hresolved : req.resolved state decode =
      resolveName state.crates.url name state.cfg.aliases := by
    simp [ClientRequest.resolved, hpath, routeName]
  unfold blobEntry
  split
  · exact ensures_map (blob_allowed digest headOnly) _
  · rename_i target hr
    rw [hr] at hresolved
    apply ensures_map
    apply passthroughBlob_allowed
    · intro op hop
      simpa only [requestPermit, hresolved] using hop
    · intro _ _ _ _ _ _ _
      trivial
  · trivial

theorem upstreamTags_allowed {permit : Permit} {target : OciTarget}
    (hremote : ∀ op, RegistryOp op → permit.remote op) (query : Option Str) :
    Ensures R permit.allows (OnOk fun _ => True) (upstreamTags state target query) := by
  refine ensures_bind (sendToUpstream_allowed hremote ..) ?_
  intro response _
  split
  · trivial
  · split <;> trivial

theorem tagsEntry_allowed {name : Str} (hpath : parseOciPath decode req.path = .tags name)
    (query : Option Str) (headOnly : Bool) :
    Ensures R (requestPermit state decode R req).allows (OnOk fun _ => True)
      (tagsEntry state debug name query headOnly) := by
  have hresolved : req.resolved state decode =
      resolveName state.crates.url name state.cfg.aliases := by
    simp [ClientRequest.resolved, hpath, routeName]
  unfold tagsEntry
  split
  · rename_i chart hr
    rw [hr] at hresolved
    apply ensures_map
    apply tags_allowed
    intro op hop
    simpa only [requestPermit, hresolved] using hop
  · rename_i target hr
    rw [hr] at hresolved
    apply ensures_map
    apply upstreamTags_allowed
    intro op hop
    simpa only [requestPermit, hresolved] using hop
  · trivial

/-- Every call of a request is within its permit. -/
theorem ociDispatch_allowed (R : (op : Op) → Ans op → Prop) (req : ClientRequest) :
    Ensures R (requestPermit state decode R req).allows (OnOk fun _ => True)
      (ociDispatch state decode debug req) := by
  unfold ociDispatch
  split
  · trivial
  · split
    · trivial
    · split
      · trivial
      · rename_i proxyHost hhost
        dsimp only
        split
        · trivial
        · rename_i name reference hpath
          exact manifestEntry_allowed hhost hpath _ _
        · rename_i name digest hpath
          exact blobEntry_allowed hpath _
        · rename_i name hpath
          exact tagsEntry_allowed hpath _ _
        · trivial

end Calls

end Helmoci.Routes
