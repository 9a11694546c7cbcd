import Helmoci.CallRecords
import Helmoci.HandlerFetches

/-!
# The requests of an alias

While a request to a registry is served, the record of its calls says how each upstream
request comes about: it asks for what the client's path names, it follows the redirect that
was answered just before, or it asks for the token that a refusal has called for. So the
retry behind a token goes where the first request went.
-/
namespace Helmoci.AliasRequests
open RustText UrlInterface NameGrammar OciDigest OciPaths NameResolver PlainUrls ServerErrors
  EffectPrograms InterleavedPrograms CallRecords ServerOperations UpstreamRequests RegistryTokens
  BlobStorage RegistryResponses ServerState PassthroughHandler StorageKeys UpstreamPaths HandlerCalls
  HandlerFetches Routes PlainCrates

section Origins
variable (lib : UrlCrate) (target : OciTarget) (own : HttpRequest → Prop)

/-- How a request comes about behind these calls. -/
inductive ComesOf (before : List (Call Op Ans)) (r : HttpRequest) : Prop
  | own : own r → ComesOf before r
  | redirect {front : List (Call Op Ans)} {a : HttpRequest} {answer : Except Str HttpResponse} :
      before = front ++ [⟨.http a, answer⟩] → RedirectsTo lib a answer r → ComesOf before r
  | token {a : HttpRequest} {response : HttpResponse} {challenge : BearerChallenge} {realm : Url} :
      (⟨.http a, .ok response⟩ : Call Op Ans) ∈ before → response.status = 401 →
      ((response.headers.getAll (str "www-authenticate")).filterMap HeaderValue.toStr).findSome?
        parseBearerChallenge = some challenge →
      parseRealm lib challenge = .ok realm →
      r.url = {realm with
        query := some (lib.appendPairs realm.query (tokenQuery target challenge))} →
      r.client ≠ .trusted → ComesOf before r

/-- Every request comes about so. -/
def Accounted : Guarantee Op Ans (List (Call Op Ans)) := fun op before _ _ =>
  ∀ r, op = .http r → ComesOf lib target own before r

end Origins

section Rules
variable {lib : UrlCrate} {target : OciTarget} {own : HttpRequest → Prop} {A B : Type}
  {cs : List (Call Op Ans)}

/-- A program that reaches no upstream. -/
theorem silent {Q : A → Prop} {p : Program Op Ans A}
    (h : Ensures Anything (fun op => reachesOut op = false) Q p) :
    Guards traced Eq (Accounted lib target own) (fun a _ => Q a) p cs := by
  refine Guards.of_ensures h ?_
  intro op s r t hop _
  refine ⟨rfl, ?_⟩
  rintro request rfl
  contradiction

theorem guards_liftResult_bind {Q : Except AppError B → List (Call Op Ans) → Prop}
    {r : Except AppError A} {f : A → Server B} (herr : ∀ e t, Q (.error e) t)
    (h : ∀ a, r = .ok a → Guards traced Eq (Accounted lib target own) Q (f a).run cs) :
    Guards traced Eq (Accounted lib target own) Q (liftResult r >>= f : Server B).run cs := by
  cases r with
  | error e => exact fun t _ => herr e t
  | ok a => exact h a rfl

theorem guards_perform_bind {Q : Except AppError B → List (Call Op Ans) → Prop} {op : Op}
    {f : Ans op → Server B} (hop : ∀ request, op ≠ .http request)
    (h : ∀ r, Guards traced Eq (Accounted lib target own) Q (f r).run (cs ++ [⟨op, r⟩])) :
    Guards traced Eq (Accounted lib target own) Q (perform op >>= f : Server B).run cs := by
  rintro m rfl r t rfl
  exact ⟨fun request heq => absurd heq (hop request), h r⟩

/-- One program behind another, where any end will do. -/
theorem guards_seq {Q : A → List (Call Op Ans) → Prop} {p : Server A} {f : A → Server B}
    (h : Guards traced Eq (Accounted lib target own) (fun r t => ∀ a, r = .ok a → Q a t) p.run cs)
    (hf : ∀ a t, Q a t → Guards traced Eq (Accounted lib target own) (fun _ _ => True) (f a).run t) :
    Guards traced Eq (Accounted lib target own) (fun _ _ => True) (p >>= f : Server B).run cs :=
  Guards.tryBind Eq.refl h (fun _ _ _ _ _ => trivial) fun a t ha => hf a t (ha a rfl)

/-- As `guards_seq`, where nothing need be known of the first one's end. -/
theorem guards_then {Q : Except AppError A → List (Call Op Ans) → Prop} {p : Server A}
    {f : A → Server B} (h : Guards traced Eq (Accounted lib target own) Q p.run cs)
    (hf : ∀ a t, Guards traced Eq (Accounted lib target own) (fun _ _ => True) (f a).run t) :
    Guards traced Eq (Accounted lib target own) (fun _ _ => True) (p >>= f : Server B).run cs :=
  Guards.tryBind Eq.refl h (fun _ _ _ _ _ => trivial) fun a t _ => hf a t

end Rules

section Sending
variable {lib : UrlCrate} {target : OciTarget} {own : HttpRequest → Prop}
  {cs : List (Call Op Ans)} {method : Method} {url : Url} {headers : HeaderMap}
  {client : InitialClient}

/-- The response is the answer to a request in the record. -/
def Answered (response : HttpResponse) (cs : List (Call Op Ans)) : Prop :=
  ∃ a : HttpRequest, (⟨.http a, .ok response⟩ : Call Op Ans) ∈ cs

theorem sendLoop_accounted {follow : Bool} {n : ℕ}
    (h : ComesOf lib target own cs ⟨client, method, url, headers⟩) :
    Guards traced Eq (Accounted lib target own)
      (fun r t => ∀ response, r = .ok response → Answered response t)
      (sendLoop lib method follow n url headers client) cs := by
  -- one request, and what is left of the loop behind a redirect
  have round : ∀ {n : ℕ} {url : Url} {headers : HeaderMap} {client : InitialClient}
      {cs : List (Call Op Ans)}, ComesOf lib target own cs ⟨client, method, url, headers⟩ →
      (∀ m url headers client cs, n = m + 1 →
        ComesOf lib target own cs ⟨client, method, url, headers⟩ →
        Guards traced Eq (Accounted lib target own)
          (fun r t => ∀ response, r = .ok response → Answered response t)
          (sendLoop lib method follow m url headers client) cs) →
      Guards traced Eq (Accounted lib target own)
        (fun r t => ∀ response, r = .ok response → Answered response t)
        (sendLoop lib method follow n url headers client) cs := by
    intro n url headers client cs h hrest
    obtain ⟨next, hl, hn⟩ := sendLoop_cases lib method follow n url headers client
    rw [hl]
    rintro m rfl r t rfl
    refine ⟨?_, ?_⟩
    · intro request heq
      cases heq
      exact h
    · rcases hn r with ⟨result, hnext, hresult⟩ |
        ⟨k, client', url', headers', hk, hredirect, hnext⟩
      · rw [hnext]
        rintro t rfl response hok
        exact ⟨⟨client, method, url, headers⟩, by rw [hresult response hok]; simp⟩
      · rw [hnext]
        exact hrest k url' headers' client' _ hk (.redirect rfl hredirect)
  induction n generalizing url headers client cs with
  | zero => exact round h fun m _ _ _ _ hm => by contradiction
  | succ n ih =>
      refine round h ?_
      intro m url headers client cs hm hfrom
      obtain rfl := Nat.succ.inj hm
      exact ih hfrom

theorem send_accounted {follow : Bool}
    (h : ComesOf lib target own cs ⟨client, method, url, headers⟩) :
    Guards traced Eq (Accounted lib target own)
      (fun r t => ∀ response, r = .ok response → Answered response t)
      (send lib method url headers client follow).run cs := by
  unfold send
  split
  · refine guards_liftResult_bind (fun e t response hr => by contradiction) ?_
    intro _ _
    exact sendLoop_accounted h
  · exact sendLoop_accounted h

theorem tokenClient_ne_trusted {targetUrl realmUrl : Url}
    (h : tokenClient lib target targetUrl realmUrl = .ok client) : client ≠ .trusted := by
  unfold tokenClient at h
  split at h
  · split at h
    · contradiction
    · split at h
      · contradiction
      · split at h
        · contradiction
        · split at h
          · contradiction
          · cases h
            decide
  · split at h
    · cases h
      decide
    · obtain ⟨_, -, h⟩ := bind_eq_ok h
      cases h
      decide

/-- A refusal that names where a token is to be had. -/
def Posed (challenge : BearerChallenge) (cs : List (Call Op Ans)) : Prop :=
  ∃ response, Answered response cs ∧ response.status = 401 ∧
    ((response.headers.getAll (str "www-authenticate")).filterMap HeaderValue.toStr).findSome?
      parseBearerChallenge = some challenge

theorem Posed.concat {challenge : BearerChallenge} (h : Posed challenge cs) (c : Call Op Ans) :
    Posed challenge (cs ++ [c]) := by
  obtain ⟨response, ⟨a, ha⟩, h⟩ := h
  exact ⟨response, ⟨a, List.mem_append_left _ ha⟩, h⟩

/-- The request for a token goes to the realm of a challenge, but not as a trusted one. -/
def ForToken (lib : UrlCrate) (target : OciTarget) (challenge : BearerChallenge)
    (request : Url × HeaderMap × InitialClient) : Prop :=
  ∃ realm, parseRealm lib challenge = .ok realm ∧
    request.1 = {realm with
      query := some (lib.appendPairs realm.query (tokenQuery target challenge))} ∧
    request.2.2 ≠ .trusted

theorem buildTokenRequest_accounted (gcp : Bool) {challenge : BearerChallenge}
    (h : Posed challenge cs) :
    Guards traced Eq (Accounted lib target own)
      (fun r t => ∀ request, r = .ok request →
        Posed challenge t ∧ ForToken lib target challenge request)
      (buildTokenRequest lib gcp target challenge).run cs := by
  unfold buildTokenRequest
  refine guards_liftResult_bind (fun _ _ _ hr => by contradiction) ?_
  intro registry _
  refine guards_liftResult_bind (fun _ _ _ hr => by contradiction) ?_
  intro realm hrealm
  refine guards_liftResult_bind (fun _ _ _ hr => by contradiction) ?_
  intro client hclient
  have hne := tokenClient_ne_trusted hclient
  dsimp only
  split
  · split
    · exact fun _ _ _ hr => by contradiction
    · refine guards_perform_bind (fun _ heq => by cases heq) ?_
      rintro (e | token)
      · exact fun _ _ _ hr => by contradiction
      · rintro t rfl request hr
        cases hr
        exact ⟨h.concat _, realm, hrealm, rfl, hne⟩
  · rintro t rfl request hr
    cases hr
    exact ⟨h, realm, hrealm, rfl, hne⟩

theorem fetchToken_accounted (tokenJson : Bytes → Option TokenResponse) (gcp : Bool)
    {challenge : BearerChallenge} (h : Posed challenge cs) :
    Guards traced Eq (Accounted lib target own) (fun _ _ => True)
      (fetchToken lib tokenJson gcp target challenge).run cs := by
  unfold fetchToken
  refine guards_seq (buildTokenRequest_accounted gcp h) ?_
  rintro ⟨url, headers, client⟩ t
    ⟨⟨response, ⟨a, ha⟩, hstatus, hchallenge⟩, realm, hrealm, hurl, hclient⟩
  refine guards_then (send_accounted (.token ha hstatus hchallenge hrealm hurl hclient)) ?_
  exact fun _ _ _ _ => trivial

/-- Both requests to the target are its own, and those in between are for the token. -/
theorem sendUpstream_accounted (tokenJson : Bytes → Option TokenResponse) (gcp : Bool)
    {suffix : Str} (accept : Option Str)
    (hown : ∀ r : HttpRequest, r.client = .trusted → upstreamUrl lib target suffix = .ok r.url →
      own r) :
    Guards traced Eq (Accounted lib target own) (fun _ _ => True)
      (sendUpstream lib tokenJson gcp target method suffix accept).run cs := by
  unfold sendUpstream
  split
  · exact fun _ _ => trivial
  · refine guards_liftResult_bind (fun _ _ => trivial) ?_
    intro url hurl
    refine guards_perform_bind (fun _ heq => by cases heq) ?_
    intro cached
    refine guards_liftResult_bind (fun _ _ => trivial) ?_
    intro headers _
    refine guards_seq (send_accounted (.own (hown ⟨.trusted, method, url, headers⟩ rfl hurl))) ?_
    intro response t hresponse
    dsimp only
    split
    · exact fun _ _ => trivial
    · rename_i hstatus
      split
      · exact fun _ _ => trivial
      · rename_i challenge hchallenge
        have hposed : Posed challenge t := ⟨response, hresponse, not_not.mp hstatus, hchallenge⟩
        refine guards_then (fetchToken_accounted tokenJson gcp hposed) ?_
        intro token t
        refine guards_perform_bind (fun _ heq => by cases heq) ?_
        intro _
        refine guards_liftResult_bind (fun _ _ => trivial) ?_
        intro headers _
        exact (send_accounted (.own (hown ⟨.trusted, method, url, headers⟩ rfl hurl))).conseq fun _ _ _ => trivial

end Sending

section Serving
variable {state : AppState} {target : OciTarget} {own : HttpRequest → Prop}
  {cs : List (Call Op Ans)}

theorem sendToUpstream_accounted (headOnly : Bool) {suffix : Str} (accept : Option Str)
    (hown : ∀ r : HttpRequest, r.client = .trusted →
      upstreamUrl state.crates.url target suffix = .ok r.url → own r) :
    Guards traced Eq (Accounted state.crates.url target own) (fun _ _ => True)
      (sendToUpstream state target headOnly suffix accept).run cs := by
  unfold sendToUpstream
  exact sendUpstream_accounted _ _ accept hown

/-- The stores alone, and then whatever is asked of the upstream. -/
theorem guards_behind_quiet {A B : Type} {tag : Option (TagScope × Str)} {Q : A → Prop}
    {p : Server A} {f : A → Server B} (h : Ensures Anything (quiet tag).allows (OnOk Q) p)
    (hf : ∀ a t, Guards traced Eq (Accounted state.crates.url target own) (fun _ _ => True)
      (f a).run t) :
    Guards traced Eq (Accounted state.crates.url target own) (fun _ _ => True)
      (p >>= f : Server B).run cs := by
  have hquiet : Ensures Anything (fun op => reachesOut op = false) (OnOk Q) p :=
    ensures_of_quiet (fun _ h => h) h
  exact guards_then (silent hquiet) hf

theorem manifest_accounted (proxyHost reference : Str) (headOnly : Bool) (accept : Option Str)
    (hown : ∀ r : HttpRequest, r.client = .trusted →
      upstreamUrl state.crates.url target (str "manifests/" ++ reference) = .ok r.url → own r) :
    Guards traced Eq (Accounted state.crates.url target own) (fun _ _ => True)
      (PassthroughHandler.manifest state proxyHost target reference headOnly accept).run cs := by
  have htag : (quiet (some (⟨proxyHost, target.fullName⟩, reference))).tag =
      some (⟨proxyHost, target.fullName⟩, reference) := rfl
  have upstream : ∀ cs, Guards traced Eq (Accounted state.crates.url target own) (fun _ _ => True)
      (upstreamManifest state proxyHost target reference headOnly accept).run cs := by
    intro cs
    rw [upstreamManifest_eq]
    refine guards_then (sendToUpstream_accounted headOnly _ hown) ?_
    intro response t
    have hrelay : Ensures Anything (fun op => reachesOut op = false) (OnOk fun _ => True)
        (relayManifest state proxyHost target reference headOnly response) :=
      ensures_of_quiet (fun _ h => h) (relayManifest_allowed (fun _ => htag)
        (fun _ _ _ _ _ _ => ⟨trivial, trivial⟩) headOnly)
    exact (silent hrelay).conseq fun _ _ _ => trivial
  unfold PassthroughHandler.manifest
  split
  · refine guards_behind_quiet (cachedManifest_allowed (fun _ => htag) headOnly accept) ?_
    intro cached t
    cases cached with
    | some response => exact fun _ _ => trivial
    | none => exact upstream t
  · exact upstream cs

theorem blob_accounted (digestStr : Str) (headOnly : Bool)
    (hown : ∀ r : HttpRequest, (Digest.parse digestStr).isSome = true → r.client = .trusted →
      upstreamUrl state.crates.url target (str "blobs/" ++ digestStr) = .ok r.url → own r) :
    Guards traced Eq (Accounted state.crates.url target own) (fun _ _ => True)
      (PassthroughHandler.blob state target digestStr headOnly).run cs := by
  unfold PassthroughHandler.blob
  cases hd : Digest.parse digestStr with
  | none => exact fun _ _ => trivial
  | some digest =>
      have hcached : Ensures Anything (quiet none).allows (OnOk fun _ => True)
          (cachedBlob state target digest headOnly) := cachedBlob_allowed digest headOnly
      refine guards_behind_quiet hcached ?_
      intro cached t
      cases cached with
      | some response => exact fun _ _ => trivial
      | none =>
          dsimp only
          rw [upstreamBlob_eq]
          refine guards_then (sendToUpstream_accounted headOnly none ?_) ?_
          · intro r hclient hurl
            rw [Digest.parse_eq_some hd] at hown
            exact hown r (by simp) hclient hurl
          · intro response t
            have hrelay : Ensures Anything (quiet none).allows (OnOk fun _ => True)
                (relayBlob state target digest headOnly response) :=
              relayBlob_allowed (fun _ _ _ _ => trivial) headOnly
            exact (silent (ensures_of_quiet (fun _ h => h) hrelay)).conseq fun _ _ _ => trivial

theorem upstreamTags_accounted (query : Option Str)
    (hown : ∀ r : HttpRequest, r.client = .trusted →
      upstreamUrl state.crates.url target (tagsSuffix query) = .ok r.url → own r) :
    Guards traced Eq (Accounted state.crates.url target own) (fun _ _ => True)
      (upstreamTags state target query).run cs := by
  unfold upstreamTags
  refine guards_then (sendToUpstream_accounted false none hown) ?_
  intro response t
  split
  · exact fun _ _ => trivial
  · split <;> exact fun _ _ => trivial

/-- Whatever a request for a registry's content calls, its upstream requests come about as a
request for what the path names. -/
theorem ociDispatch_accounted {decode : PathDecoder} {debug : Str → Str} {req : ClientRequest}
    {name : Str} (hname : routeName (parseOciPath decode req.path) = some name)
    (hres : resolveName state.crates.url name state.cfg.aliases = some (.oci target))
    (hown : ∀ (r : HttpRequest) suffix,
      RouteSuffix req.query (parseOciPath decode req.path) suffix → r.client = .trusted →
      upstreamUrl state.crates.url target suffix = .ok r.url → own r) :
    Guards traced Eq (Accounted state.crates.url target own) (fun _ _ => True)
      (ociDispatch state decode debug req).run cs := by
  have wrapped : ∀ {A : Type} {p : Server A} (f : A → Answer),
      Guards traced Eq (Accounted state.crates.url target own) (fun _ _ => True) p.run cs →
      Guards traced Eq (Accounted state.crates.url target own) (fun _ _ => True)
        (do return f (← p) : Server Answer).run cs := by
    intro A p f h
    exact guards_then h fun _ _ _ _ => trivial
  unfold ociDispatch
  split
  · exact fun _ _ => trivial
  · split
    · exact fun _ _ => trivial
    · split
      · exact fun _ _ => trivial
      · dsimp only
        split
        · exact fun _ _ => trivial
        · rename_i name' reference hpath
          rw [hpath] at hname hown
          obtain rfl : name' = name := Option.some.inj hname
          unfold manifestEntry
          rw [hres]
          exact wrapped _ (manifest_accounted _ _ _ _ fun r => hown r _ rfl)
        · rename_i name' digest hpath
          rw [hpath] at hname hown
          obtain rfl : name' = name := Option.some.inj hname
          unfold blobEntry
          rw [hres]
          exact wrapped _ (blob_accounted _ _ fun r hd => hown r _ ⟨rfl, hd⟩)
        · rename_i name' hpath
          rw [hpath] at hname hown
          obtain rfl : name' = name := Option.some.inj hname
          unfold tagsEntry
          rw [hres]
          exact wrapped _ (upstreamTags_accounted _ fun r => hown r _ rfl)
        · exact fun _ _ => trivial

/-- What is asked of a registry stays below the alias's repository, also behind a token. -/
theorem requests_stay_in_repository {state : AppState} (laws : RegistryLaws state.crates.url)
    {decode : PathDecoder} {debug : Str → Str} {req : ClientRequest} {first name repo host : Str}
    {h : Host} {port : Option Str} {entry : Alias} {target : OciTarget}
    (hl : state.cfg.aliases.lookup first = some entry)
    (hu : entry.upstream = .oci (authority host port) repo)
    (hhost : state.crates.url.hostParse host = some h)
    (hport : ∀ p ∈ port, p ≠ [] ∧ p.all Char.isDigit = true)
    (hrepo : ∀ s ∈ repo.splitOn '/', isValidChartName s = true)
    (hname : routeName (parseOciPath decode req.path) = some name)
    (hf : (nonemptySegments name).head? = some first)
    (hres : resolveName state.crates.url name state.cfg.aliases = some (.oci target))
    {cs : List (Call Op Ans)} {q : Program Op Ans (Except AppError Answer)}
    (hrun : Follows (ociDispatch state decode debug req).run cs q) :
    ∀ before r answer behind, cs = before ++ ⟨.http r, answer⟩ :: behind →
      ComesOf state.crates.url target (fun r => r.client = .trusted ∧
        RouteUrl state.crates.url entry h port repo name (parseOciPath decode req.path) req.query
          r.url) before r := by
  intro before r answer behind hcs
  have hguards := @ociDispatch_accounted state target (fun r => r.client = .trusted ∧
    RouteUrl state.crates.url entry h port repo name (parseOciPath decode req.path) req.query
      r.url) [] decode debug req name hname hres ?_
  · exact (guards_follows hguards hrun).2 before _ behind hcs r rfl
  · intro r suffix hsuffix hclient hurl
    exact ⟨hclient, routeUrl_of_upstreamUrl laws hl hu hhost hport hrepo hf hres hsuffix hurl⟩

end Serving

section Retry
open Utf8

def teamList : ClientRequest :=
  ⟨some .get, str "/v2/team/demo/tags/list", some (str "n=2"),
    [(str "host", .text (str "proxy.test"))], none⟩

def tokenState : AppState := {teamState with crates := {tokenCrates with url := registryUrls}}

def teamAlias : Alias :=
  ⟨.oci (str "registry.example.com:5000") (str "acme/charts"), false, .none, false⟩

def teamUrl (path query : Str) : Url :=
  ⟨str "https", [], none, some (.domain (str "registry.example.com")), some 5000, path,
    some query, none⟩

def teamRequest (headers : HeaderMap) : HttpRequest :=
  ⟨.trusted, .get, teamUrl (str "/v2/acme/charts/demo/tags/list") (str "n=2"), headers⟩

def teamRetry : HttpRequest :=
  teamRequest [(str "authorization", .text (str "Bearer abc"))]

/-- The registry refuses the first request and gives a token for the second. -/
def teamCalls : List (Call Op Ans) :=
  [⟨.liveToken (str "https|none|registry.example.com:5000|acme/charts/demo"), none⟩,
    ⟨.http (teamRequest []), .ok ⟨401, [(str "www-authenticate",
      .text (str "Bearer realm=\"https://registry.example.com:5000/token\""))], none, []⟩⟩,
    ⟨.http ⟨.tokenTrusted, .get,
      teamUrl (str "/token") (str "scope=repository:acme/charts/demo:pull"), []⟩,
      .ok ⟨200, [], none, [.ok tokenBody]⟩⟩,
    ⟨.insertToken (str "https|none|registry.example.com:5000|acme/charts/demo")
      ⟨str "abc", none⟩, ()⟩]

/-- The retry asks for the list of the alias's repository. -/
theorem team_retry_stays :
    RouteUrl registryUrls teamAlias (.domain (str "registry.example.com")) (some (str "5000"))
      (str "acme/charts") (str "team/demo") (parseOciPath asciiDecoder teamList.path)
      teamList.query teamRetry.url := by
  have hr : (Program.replay (ociDispatch tokenState asciiDecoder id teamList).run
      (teamCalls ++ [⟨.http teamRetry, .error []⟩])).isSome = true := by decide +kernel
  obtain ⟨q, hq⟩ := follows_of_replay hr
  have hfrom := @requests_stay_in_repository tokenState registryUrls_laws asciiDecoder id teamList
    (str "team") (str "team/demo") (str "acme/charts") (str "registry.example.com")
    (.domain (str "registry.example.com")) (some (str "5000")) teamAlias
    ⟨str "registry.example.com:5000", str "acme/charts/demo", str "team/demo", false, .none, false⟩
    (by decide) (by decide) (by decide) (by decide) (by decide) (by decide) (by decide)
    (by decide) _ q hq teamCalls teamRetry (.error []) [] rfl
  cases hfrom with
  | own h => exact h.2
  | redirect hfront _ =>
      -- the call before is that of the token's cache
      have hlast := congrArg List.getLast? hfront
      rw [List.getLast?_concat] at hlast
      cases hlast
  | token _ _ _ _ _ hclient => exact absurd rfl hclient

end Retry

end Helmoci.AliasRequests
