import Helmoci.UpstreamRequests
import Helmoci.Utf8

/-!
# Fetching from a classic repository

The index and the charts of a repository are requested with the client that the
chart's source allows: the trusted one on the origin that an operator configured,
and otherwise the public one. What a client reads about an upstream depends on the
source as well. The counters and log lines are left out.
-/
namespace Helmoci.ClassicUpstream
open RustText UrlInterface NameResolver ServerErrors ChartIndex OciDigest Utf8 EffectPrograms
  Helmoci.Configuration ServerOperations UpstreamRequests

def indexRepo (repoUrl : Str) : ClassicSource → IndexRepo
  | .hostPath => ⟨repoUrl, .clientSupplied⟩
  | .configuredAlias => ⟨repoUrl, .hidden⟩

def clientVisibleUpstream (safeUrl : Str) : ClassicSource → Str
  | .hostPath => safeUrl
  | .configuredAlias => str "the configured upstream for this alias"

def upstreamHint : ClassicSource → Str
  | .hostPath => str "Check the host/path in your oci:// URL."
  | .configuredAlias => str "Ask the registry operator to check the alias upstream."

def classicClient : ClassicSource → InitialClient × Bool
  | .configuredAlias => (.trusted, true)
  | .hostPath => (.publicOnly, true)

section Requests
variable (lib : UrlCrate) (sha256 : Bytes → Digest) (settings : Config)

/-- Scheme, authority and path only. -/
def sanitizedUrl (url : Url) : Str :=
  let safe := {url with query := none, fragment := none}
  lib.serialize (if url.cannotHaveUserinfo then safe
    else {safe with username := [], password := none})

def parseHttpUrl (value resource : Str) : Except AppError Url :=
  let invalid := .error (.upstream (str "invalid upstream " ++ (resource ++ str " URL")))
  match lib.parse value with
  | none => invalid
  | some url => if !url.isHttp || url.host.isNone then invalid else .ok url

def indexUrl (repoUrl : Str) : Except AppError Url := do
  let url ← parseHttpUrl lib repoUrl (str "repository")
  return url.setPath lib (url.path.rdropWhile (· == '/') ++ str "/index.yaml")

def sendClassic (url : Url) (source : ClassicSource) (headers : HeaderMap) :
    Server HttpResponse :=
  let (client, redirects) := classicClient source
  send lib .get url headers client redirects

def indexCacheKey (url : Url) (source : ClassicSource) : Str :=
  let cachePrefix := match source with
    | .configuredAlias => str "configured"
    | .hostPath => str "host-path"
  cachePrefix ++ ':' :: (sha256 (asBytes (lib.serialize url))).asStr

/-- An index beyond its bound makes the repository unusable, not the artifact too large. -/
def readIndex (safeUrl : Str) (source : ClassicSource) (response : HttpResponse) :
    Except AppError Str :=
  match readResponse response settings.maxIndexBytes (str "Helm index") with
  | .error (.tooLarge message) => .error (.upstream (str "No usable Helm repository at " ++
      (clientVisibleUpstream safeUrl source ++ (str " (" ++ (message ++ str ").")))))
  | .error e => .error e
  | .ok data =>
    match fromUtf8 data with
    | none => .error (.upstream (str "upstream Helm index was not valid UTF-8"))
    | some text => .ok text

def fetchIndexText (repoUrl : Str) (source : ClassicSource) : Server Str := do
  let url ← liftResult (indexUrl lib repoUrl)
  let cacheKey := indexCacheKey lib sha256 url source
  match ← perform (.indexGet cacheKey) with
  | some text => return text
  | none =>
    let resp ← sendClassic lib url source
      [(str "accept", .text (str "application/yaml, text/yaml, text/plain, */*"))]
    if !resp.isSuccess then
      throw (.upstream (str "No Helm repository at " ++
        (clientVisibleUpstream (sanitizedUrl lib url) source ++
          (str " (index.yaml returned HTTP " ++ (decimal resp.status ++
            (str "). " ++ upstreamHint source))))))
    let text ← liftResult (readIndex settings (sanitizedUrl lib url) source resp)
    let _ ← perform (.indexInsert cacheKey text)
    return text

/-- The client that may be sent to a chart's URL. -/
def chartClient (chartUrl : Url) (repoUrl : Str) :
    ClassicSource → Except AppError (InitialClient × Bool)
  | .hostPath => .ok (classicClient .hostPath)
  | .configuredAlias => do
    let repoUrl ← parseHttpUrl lib repoUrl (str "repository")
    if repoUrl.sameOrigin lib chartUrl then return (.trusted, true)
    else
      validatePublicHttps lib chartUrl
      return (.publicOnly, true)

def downloadChart (chartUrl repoUrl : Str) (source : ClassicSource) : Server Bytes := do
  let chartUrl ← liftResult (parseHttpUrl lib chartUrl (str "chart"))
  let (client, redirects) ← liftResult (chartClient lib chartUrl repoUrl source)
  let resp ← send lib .get chartUrl [] client redirects
  if !resp.isSuccess then
    throw (.upstream (str "Could not download the chart from " ++
      (clientVisibleUpstream (sanitizedUrl lib chartUrl) source ++
        (str " (HTTP " ++ (decimal resp.status ++ (str "). " ++ upstreamHint source))))))
  liftResult (readResponse resp settings.maxChartBytes (str "chart"))

end Requests

section Confinement
variable {lib : UrlCrate}

/-- Where a chart's source lets requests go. -/
def Allowed (lib : UrlCrate) (repoUrl : Str) (source : ClassicSource) (r : HttpRequest) : Prop :=
  isPublicHttps lib r.url = true ∨ source = .configuredAlias ∧
    ∃ repo, lib.parse repoUrl = some repo ∧ repo.sameOrigin lib r.url = true

theorem parseHttpUrl_eq_ok {value resource : Str} {url : Url}
    (h : parseHttpUrl lib value resource = .ok url) :
    lib.parse value = some url ∧ url.isHttp = true := by
  unfold parseHttpUrl at h
  split at h
  · contradiction
  · rename_i parsed hp
    split at h
    · contradiction
    · rename_i hc
      cases h
      simp only [Bool.or_eq_true, Bool.not_eq_true', not_or, Bool.not_eq_false] at hc
      exact ⟨hp, hc.1⟩

theorem sameOrigin_setPath {url : Url} (h : url.isHttp = true) (path : Str) :
    url.sameOrigin lib (url.setPath lib path) = true := by
  have h' : (url.setPath lib path).isHttp = true := h
  exact (Url.sameOrigin_iff lib h h').mpr ⟨rfl, rfl, rfl⟩

theorem indexUrl_eq_ok {repoUrl : Str} {url : Url} (h : indexUrl lib repoUrl = .ok url) :
    ∃ repo, lib.parse repoUrl = some repo ∧ repo.sameOrigin lib url = true := by
  unfold indexUrl at h
  obtain ⟨repo, hp, h⟩ := bind_eq_ok h
  cases h
  obtain ⟨hparse, hhttp⟩ := parseHttpUrl_eq_ok hp
  exact ⟨repo, hparse, sameOrigin_setPath hhttp _⟩

/-- A client begins where it may: the trusted one on the repository's origin. -/
def Begins (lib : UrlCrate) (repoUrl : Str) (source : ClassicSource) (url : Url)
    (client : InitialClient) : Prop :=
  client ≠ .publicOnly → source = .configuredAlias ∧
    ∃ repo, lib.parse repoUrl = some repo ∧ repo.sameOrigin lib url = true

variable {R : (op : Op) → Ans op → Prop}

/-- What is asked for on behalf of a source: requests where it lets them go, with the public
client for a host and path, and indexes under the source's keys as an upstream delivered
them. -/
def Sourced (lib : UrlCrate) (sha256 : Bytes → Digest) (R : (op : Op) → Ans op → Prop)
    (repoUrl : Str) (source : ClassicSource) : Op → Prop
  | .http r => Allowed lib repoUrl source r ∧ (source = .hostPath → r.client = .publicOnly)
  | .indexGet key => ∃ url, key = indexCacheKey lib sha256 url source
  | .indexInsert key text => (∃ url, key = indexCacheKey lib sha256 url source) ∧
      ∃ response, AnswersHttp R response ∧ fromUtf8 (responseBytes response) = some text
  | _ => False

variable {sha256 : Bytes → Digest}

theorem Begins.sourced {repoUrl : Str} {source : ClassicSource} {url : Url}
    {client : InitialClient} (h : Begins lib repoUrl source url client) (method : Method)
    (headers : HeaderMap) (follow : Bool) :
    Ensures R (Sourced lib sha256 R repoUrl source) (OnOk (AnswersHttp R))
      (send lib method url headers client follow) := by
  refine (send_ensures method url headers client follow).conseq ?_ fun _ h => h
  intro op hop
  cases op with
  | http r =>
      change Confined lib client url r at hop
      unfold Confined at hop
      split at hop
      · rename_i hc
        exact ⟨Or.inl hop, fun _ => hc⟩
      · rename_i hc
        obtain ⟨rfl, hop⟩ := hop
        obtain ⟨hs, repo, hparse, ho⟩ := h hc
        refine ⟨Or.inr ⟨hs, repo, hparse, ?_⟩, ?_⟩
        · rcases hop with heq | hop
          · rwa [heq]
          · exact Url.sameOrigin_trans ho hop
        · intro hp
          rw [hs] at hp
          contradiction
  | _ => exact hop.elim

theorem readIndex_eq_ok {settings : Config} {safeUrl : Str} {source : ClassicSource}
    {response : HttpResponse} {text : Str}
    (h : readIndex settings safeUrl source response = .ok text) :
    fromUtf8 (responseBytes response) = some text := by
  unfold readIndex at h
  split at h
  · contradiction
  · contradiction
  · rename_i data hdata
    split at h
    · contradiction
    · rename_i text' htext
      cases h
      rw [← readResponse_eq_ok hdata]
      exact htext

theorem fetchIndexText_sourced (sha256 : Bytes → Digest) (settings : Config) (repoUrl : Str)
    (source : ClassicSource) : Ensures R (Sourced lib sha256 R repoUrl source) (OnOk fun _ => True)
      (fetchIndexText lib sha256 settings repoUrl source) := by
  unfold fetchIndexText
  refine ensures_bind (ensures_liftResult fun _ hu => indexUrl_eq_ok hu) ?_
  intro url ⟨repo, hparse, ho⟩
  have hb : Begins lib repoUrl source url (classicClient source).1 := by
    intro hc
    cases source with
    | hostPath => exact absurd rfl hc
    | configuredAlias => exact ⟨rfl, repo, hparse, ho⟩
  refine ensures_bind (ensures_perform ⟨url, rfl⟩) ?_
  intro cached _
  cases cached with
  | some text => trivial
  | none =>
      refine ensures_bind (hb.sourced .get _ _) ?_
      intro resp hresp
      dsimp only
      split
      · trivial
      · refine ensures_bind (ensures_liftResult fun _ ht => readIndex_eq_ok ht) ?_
        intro text htext
        refine ensures_bind (ensures_perform ⟨⟨url, rfl⟩, resp, hresp, htext⟩) ?_
        intro _ _
        trivial

/-- What is downloaded is what an answer delivered. -/
theorem downloadChart_sourced (sha256 : Bytes → Digest) (settings : Config)
    (chartUrl repoUrl : Str) (source : ClassicSource) :
    Ensures R (Sourced lib sha256 R repoUrl source)
      (OnOk fun data => ∃ response, AnswersHttp R response ∧ data = responseBytes response)
      (downloadChart lib settings chartUrl repoUrl source) := by
  unfold downloadChart
  refine ensures_bind (Q := fun _ => True) (ensures_liftResult fun _ _ => trivial) ?_
  intro url _
  have hclient : ∀ c, chartClient lib url repoUrl source = .ok c →
      Begins lib repoUrl source url c.1 := by
    intro c hc hp
    cases source with
    | hostPath =>
        cases hc
        exact absurd rfl hp
    | configuredAlias =>
        unfold chartClient at hc
        obtain ⟨repo, hr, hc⟩ := bind_eq_ok hc
        split at hc
        · rename_i ho
          exact ⟨rfl, repo, (parseHttpUrl_eq_ok hr).1, ho⟩
        · obtain ⟨_, -, hc⟩ := bind_eq_ok hc
          cases hc
          exact absurd rfl hp
  refine ensures_bind (ensures_liftResult hclient) ?_
  intro ⟨client, redirects⟩ hb
  refine ensures_bind (hb.sourced .get _ _) ?_
  intro resp hresp
  dsimp only
  split
  · trivial
  · apply ensures_liftResult
    intro data hdata
    exact ⟨resp, hresp, readResponse_eq_ok hdata⟩

theorem Sourced.allowed {repoUrl : Str} {source : ClassicSource} {op : Op}
    (h : Sourced lib sha256 R repoUrl source op) : OnHttp (Allowed lib repoUrl source) op := by
  cases op with
  | http r => exact h.1
  | indexGet _ | indexInsert _ _ => trivial
  | _ => exact h.elim

/-- Redirects and requests to classic repositories, whatever the upstreams answer. -/
theorem upstream_requests_confined (lib : UrlCrate) (sha256 : Bytes → Digest) (settings : Config) :
    (∀ method url headers client follow cs q,
      Follows (send lib method url headers client follow) cs q →
        RedirectPolicy lib url (requests cs)) ∧
    (∀ repoUrl source cs q, Follows (fetchIndexText lib sha256 settings repoUrl source) cs q →
      ∀ r ∈ requests cs, Allowed lib repoUrl source r) ∧
    ∀ chartUrl repoUrl source cs q,
      Follows (downloadChart lib settings chartUrl repoUrl source) cs q →
        ∀ r ∈ requests cs, Allowed lib repoUrl source r := by
  refine ⟨fun _ _ _ _ _ _ _ => send_policy, ?_, ?_⟩
  · intro repoUrl source cs q h
    exact ensures_requests ((fetchIndexText_sourced sha256 settings repoUrl source).conseq
      (fun _ => Sourced.allowed) fun _ h => h) h
  · intro chartUrl repoUrl source cs q h
    exact ensures_requests ((downloadChart_sourced sha256 settings chartUrl repoUrl source).conseq
      (fun _ => Sourced.allowed) fun _ h => h) h

end Confinement

end Helmoci.ClassicUpstream
