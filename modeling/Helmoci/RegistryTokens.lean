import Helmoci.PlainUrls
import Helmoci.UpstreamRequests
import Helmoci.Utf8

/-!
# Tokens of OCI registries

A registry that answers 401 names a token endpoint in its challenge. The endpoint is
asked for a token, for a GCP registry with the access token of the cloud, and the
request is repeated with the token. Reading the JSON of the endpoint's answer, the
advertised lifetime included, is a parameter, and so is whether GCP credentials were
initialized.
-/
namespace Helmoci.RegistryTokens
open RustText UrlInterface NameGrammar NameResolver ServerErrors Utf8 EffectPrograms
  ServerOperations UpstreamRequests

structure BearerChallenge where
  realm : Str
  service : Option Str
  scope : Option Str
deriving DecidableEq, Repr

/-- The parts between the commas outside quotes, behind `current`. -/
def splitParams (current : Str) (inQuotes : Bool) : Str → List Str
  | [] => if (trim current).isEmpty then [] else [trim current]
  | c :: s =>
    if c = '"' then splitParams (current ++ [c]) (!inQuotes) s
    else if c = ',' ∧ inQuotes = false then trim current :: splitParams [] inQuotes s
    else splitParams (current ++ [c]) inQuotes s

def splitChallengeParams (value : Str) : List Str := splitParams [] false value

/-- The prefix is ASCII, so its bytes are characters. -/
def stripPrefixAsciiCase (value pre : Str) : Option Str :=
  if eqIgnoreAsciiCase (value.take pre.length) pre then some (value.drop pre.length) else none

/-- The realm, the service and the scope, each as last given. -/
def challengeFields (fields : Option Str × Option Str × Option Str) (part : Str) :
    Option Str × Option Str × Option Str :=
  match splitOnce '=' part with
  | none => fields
  | some (key, value) =>
    let value := trimMatches '"' (trim value)
    let key := trim key
    if eqIgnoreAsciiCase key (str "realm") then (some value, fields.2)
    else if eqIgnoreAsciiCase key (str "service") then (fields.1, some value, fields.2.2)
    else if eqIgnoreAsciiCase key (str "scope") then (fields.1, fields.2.1, some value)
    else fields

def parseBearerChallenge (header : Str) : Option BearerChallenge := do
  let isBearer := fun part => (stripPrefixAsciiCase part (str "Bearer ")).isSome
  match (splitChallengeParams (trim header)).dropWhile fun part => !isBearer part with
  | [] => none
  | first :: rest =>
    let first ← stripPrefixAsciiCase first (str "Bearer ")
    let (realm, service, scope) := (first :: rest).foldl challengeFields (none, none, none)
    return ⟨← realm, service, scope⟩

example : parseBearerChallenge (str "Basic x=1, bearer realm=\"https://a.b/t?x,y\",scope=\"s\"") =
    some ⟨str "https://a.b/t?x,y", none, some (str "s")⟩ := by decide

/-- The token endpoint's answer, with its lifetime as far as it can be read. -/
structure TokenResponse where
  token : Option Str
  accessToken : Option Str
  advertisedLifetime : Option ℕ

def base64Digit (n : ℕ) : Char :=
  Char.ofNat (if n < 26 then 65 + n else if n < 52 then 71 + n else if n < 62 then n - 4
    else if n = 62 then 43 else 47)

def base64 : Bytes → Str
  | [] => []
  | [a] => [base64Digit (a.toNat / 4), base64Digit (a.toNat % 4 * 16), '=', '=']
  | [a, b] => [base64Digit (a.toNat / 4), base64Digit (a.toNat % 4 * 16 + b.toNat / 16),
      base64Digit (b.toNat % 16 * 4), '=']
  | a :: b :: c :: rest => base64Digit (a.toNat / 4) ::
      base64Digit (a.toNat % 4 * 16 + b.toNat / 16) ::
      base64Digit (b.toNat % 16 * 4 + c.toNat / 64) :: base64Digit (c.toNat % 64) :: base64 rest

/-- The header of `RequestBuilder::basic_auth`. -/
def basicAuth (username password : Str) : HeaderValue :=
  .text (str "Basic " ++ base64 (asBytes (username ++ ':' :: password)))

example : basicAuth (str "a") (str "bc") = .text (str "Basic YTpiYw==") := by decide

section Requests
variable (lib : UrlCrate) (tokenJson : Bytes → Option TokenResponse) (gcp : Bool)
  (target : OciTarget)

def OciTarget.scheme (target : OciTarget) : Str :=
  if target.plainHttp then str "http" else str "https"

def registryUrl : Except AppError Url :=
  match lib.parse (OciTarget.scheme target ++ (str "://" ++ target.registry)) with
  | none => .error (.upstream (str "invalid OCI registry authority"))
  | some url => .ok url

def hasPublicDomain (url : Url) : Bool :=
  match url.host with
  | some (.domain host) => isPublicHostname lib host
  | _ => false

/-- The client for the token endpoint, once the realm passed the checks of the auth mode. -/
def tokenClient (targetUrl realmUrl : Url) : Except AppError InitialClient :=
  match target.auth with
  | .gcp =>
    if target.plainHttp then
      .error (.upstream (str "gcp registry authentication requires an HTTPS target"))
    else if realmUrl.scheme ≠ str "https" then
      .error (.upstream (str "gcp registry token realm must use HTTPS"))
    else if !targetUrl.sameOrigin lib realmUrl then
      .error (.upstream (str "gcp registry token realm must match the registry origin"))
    else if !hasPublicDomain lib targetUrl || !hasPublicDomain lib realmUrl then
      .error (.upstream (str "gcp registry token realm must use a public hostname"))
    else .ok .publicOnly
  | .none =>
    if targetUrl.sameOrigin lib realmUrl then .ok .tokenTrusted
    else do
      validatePublicHttps lib realmUrl
      return .publicOnly

def parseRealm (challenge : BearerChallenge) : Except AppError Url :=
  match lib.parse challenge.realm with
  | none => .error (.upstream (str "invalid registry token realm"))
  | some realmUrl =>
    if !realmUrl.isHttp || realmUrl.hasUserinfo then
      .error (.upstream (str "registry token realm must use http or https without userinfo"))
    else .ok realmUrl

def tokenQuery (challenge : BearerChallenge) : List (Str × Str) :=
  (challenge.service.toList.map fun service => (str "service", service)) ++
    [(str "scope", challenge.scope.getD (str "repository:" ++ (target.repo ++ str ":pull")))]

/-- The URL and headers of the token request, and the client that sends it. -/
def buildTokenRequest (challenge : BearerChallenge) : Server (Url × HeaderMap × InitialClient) := do
  let targetUrl ← liftResult (registryUrl lib target)
  let realmUrl ← liftResult (parseRealm lib challenge)
  let client ← liftResult (tokenClient lib target targetUrl realmUrl)
  let url := {realmUrl with
    query := some (lib.appendPairs realmUrl.query (tokenQuery target challenge))}
  if target.auth = .gcp then
    if !gcp then throw (.internal
      (str "alias requires gcp auth but GCP credentials were not initialized"))
    match ← perform .gcpAccessToken with
    | .error e => throw (.upstream (str "failed to obtain GCP token: " ++ e))
    | .ok token =>
      return (url, [(str "authorization", basicAuth (str "oauth2accesstoken") token)], client)
  else return (url, [], client)

def readToken (response : HttpResponse) : Except AppError CachedToken := do
  if !response.isSuccess then
    throw (.upstream (str "token endpoint returned HTTP " ++ decimal response.status))
  let data ← readResponse response (1024 * 1024) (str "token response")
  match tokenJson data with
  | none => throw (.upstream (str "invalid token response"))
  | some body =>
    match body.token.orElse fun _ => body.accessToken with
    | none => throw (.upstream (str "token response had no token"))
    | some token => return ⟨token, body.advertisedLifetime⟩

def fetchToken (challenge : BearerChallenge) : Server CachedToken := do
  let (url, headers, client) ← buildTokenRequest lib gcp target challenge
  let response ← send lib .get url headers client true
  liftResult (readToken tokenJson response)

/-- A parsed registry URL has segments, so only parsing can fail. -/
def upstreamUrl (suffix : Str) : Except AppError Url :=
  match lib.parse (OciTarget.scheme target ++ (str "://" ++ (target.registry ++ str "/"))) with
  | none => .error (.upstream (str "invalid OCI upstream target"))
  | some url =>
    let (path, query) := (splitOnce '?' suffix).getD (suffix, [])
    let segments := str "v2" :: (target.repo.splitOn '/' ++ path.splitOn '/')
    let url := {url with path := lib.pushSegments url segments}
    .ok (if query.isEmpty then url else url.setQuery lib query)

def upstreamTokenCacheKey : Str :=
  let auth := match target.auth with
    | .none => str "none"
    | .gcp => str "gcp"
  OciTarget.scheme target ++ '|' :: (auth ++ '|' :: (target.registry ++ '|' :: target.repo))

def acceptHeaders (accept : Option Str) : Except AppError HeaderMap :=
  match accept with
  | none => .ok []
  | some accept =>
    match HeaderValue.fromStr accept with
    | none => .error (.upstream (str "invalid upstream Accept header"))
    | some value => .ok (HeaderMap.insert [] (str "accept") value)

def buildHeaders (accept token : Option Str) : Except AppError HeaderMap := do
  let headers ← acceptHeaders accept
  match token with
  | none => return headers
  | some token =>
    match HeaderValue.fromStr (str "Bearer " ++ token) with
    | none => throw (.upstream (str "invalid upstream bearer token"))
    | some value => return HeaderMap.insert headers (str "authorization") value

def sendUpstream (method : Method) (suffix : Str) (accept : Option Str) :
    Server HttpResponse := do
  if target.auth = .gcp ∧ target.plainHttp = true then
    throw (.upstream (str "gcp registry authentication requires an HTTPS target"))
  let url ← liftResult (upstreamUrl lib target suffix)
  let cacheKey := upstreamTokenCacheKey target
  let cached ← perform (.liveToken cacheKey)
  let headers ← liftResult (buildHeaders accept cached)
  let response ← send lib method url headers .trusted true
  if response.status ≠ 401 then return response
  let values := (response.headers.getAll (str "www-authenticate")).filterMap HeaderValue.toStr
  match values.findSome? parseBearerChallenge with
  | none => throw (.upstream (str "upstream returned 401 without a usable bearer challenge"))
  | some challenge =>
    let token ← fetchToken lib tokenJson gcp target challenge
    let _ ← perform (.insertToken cacheKey token)
    let headers ← liftResult (buildHeaders accept (some token.token))
    send lib method url headers .trusted true

end Requests

/-- `host[:port]`: nothing that ends an authority or sets off userinfo. -/
def PlainAuthority (authority : Str) : Prop :=
  ∀ c ∈ authority, ' ' < c ∧ c ∉ ['/', '\\', '?', '#', '@']

instance (authority : Str) : Decidable (PlainAuthority authority) :=
  List.decidableBAll (fun c => ' ' < c ∧ c ∉ ['/', '\\', '?', '#', '@']) authority

/-- What the URL standard says of an `http` or `https` URL without a path: the path is a
slash and the userinfo is empty. -/
structure AuthorityLaws (lib : UrlCrate) : Prop where
  slash : ∀ scheme authority, scheme ∈ [str "http", str "https"] → PlainAuthority authority →
    lib.parse (scheme ++ (str "://" ++ (authority ++ str "/"))) =
      lib.parse (scheme ++ (str "://" ++ authority))
  parts : ∀ scheme authority url, scheme ∈ [str "http", str "https"] → PlainAuthority authority →
    lib.parse (scheme ++ (str "://" ++ authority)) = some url →
      url.scheme = scheme ∧ url.hasUserinfo = false

section Confinement
variable {lib : UrlCrate} {R : (op : Op) → Ans op → Prop}

/-- Where the cloud's access token may go. -/
structure GcpAllowed (lib : UrlCrate) (registry url : Url) : Prop where
  https : url.scheme = str "https"
  origin : registry.sameOrigin lib url = true
  publicDomain : hasPublicDomain lib url = true

def carriesGcpToken (r : HttpRequest) : Prop :=
  ∃ token, (str "authorization", basicAuth (str "oauth2accesstoken") token) ∈ r.headers

/-- What a request for a target may carry, and for which challenges the access token is
asked for. -/
def Permitted (lib : UrlCrate) (target : OciTarget) (posed : BearerChallenge → Prop) : Op → Prop
  | .http r => carriesAuthorization r = true → ∃ registry, registryUrl lib target = .ok registry ∧
      registry.sameOrigin lib r.url = true ∧
      (target.auth = .gcp → carriesGcpToken r → GcpAllowed lib registry r.url)
  | .gcpAccessToken => target.auth = .gcp ∧ ∃ challenge registry realm, posed challenge ∧
      registryUrl lib target = .ok registry ∧ lib.parse challenge.realm = some realm ∧
      GcpAllowed lib registry realm
  | .liveToken _ | .insertToken .. => True
  | _ => False

/-- Behind a redirect a request still has the headers and the origin that it began with,
or it is stripped. -/
def Kept (lib : UrlCrate) (url : Url) (headers : HeaderMap) (r : HttpRequest) : Prop :=
  r.url.isHttp = true ∧ r.url.hasUserinfo = false ∧
    (r.headers = headers ∧ url.sameOrigin lib r.url = true ∨ Stripped r)

theorem Kept.hop {url : Url} {headers : HeaderMap} {a b : HttpRequest}
    (ha : Kept lib url headers a) (h : Hop lib a b) : Kept lib url headers b := by
  refine ⟨h.isHttp, h.userinfo, ?_⟩
  cases hs : a.url.sameOrigin lib b.url with
  | false => exact Or.inr (h.left hs).2
  | true =>
      rcases ha.2.2 with ⟨hh, ho⟩ | ha
      · exact Or.inl ⟨(h.kept hs).2.trans hh, Url.sameOrigin_trans ho hs⟩
      · exact Or.inr (h.stripped ha)

theorem send_kept {method : Method} {url : Url} {headers : HeaderMap} {client : InitialClient}
    {follow : Bool} (hhttp : url.isHttp = true) (hu : url.hasUserinfo = false) :
    Ensures R (OnlyHttp (Kept lib url headers)) (OnOk (AnswersHttp R))
      (send lib method url headers client follow) := by
  have loop : Ensures R (OnlyHttp (Kept lib url headers)) (OnOk (AnswersHttp R))
      (sendLoop lib method follow maxRedirects url headers client) :=
    sendLoop_ensures (fun a b h ha => ha.hop h) ⟨hhttp, hu, Or.inl ⟨rfl, Url.sameOrigin_refl hhttp⟩⟩
  unfold send
  split
  · exact ensures_bind (Q := fun _ => True) (ensures_liftResult fun _ _ => trivial) fun _ _ => loop
  · exact loop

theorem Kept.not_carries {url : Url} {headers : HeaderMap} {r : HttpRequest}
    (h : Kept lib url headers r) (hc : carriesAuthorization r = true) :
    r.headers = headers ∧ url.sameOrigin lib r.url = true := by
  rcases h.2.2 with hk | hs
  · exact hk
  · have hn := hs.headers (str "authorization") (by decide)
    simp [carriesAuthorization, hn, h.2.1] at hc

theorem mem_scheme (target : OciTarget) :
    OciTarget.scheme target ∈ [str "http", str "https"] := by
  unfold OciTarget.scheme
  split <;> simp

theorem isHttp_of_scheme {url : Url} (h : url.scheme ∈ [str "http", str "https"]) :
    url.isHttp = true := by
  simp only [List.mem_cons, List.not_mem_nil, or_false] at h
  rcases h with h | h <;> simp [Url.isHttp, h]

/-- The URL of a request is on the registry, with another path and query. -/
theorem upstreamUrl_eq_ok (laws : AuthorityLaws lib) {target : OciTarget}
    (hp : PlainAuthority target.registry) {suffix : Str} {url : Url}
    (h : upstreamUrl lib target suffix = .ok url) : ∃ registry,
      registryUrl lib target = .ok registry ∧ registry.sameOrigin lib url = true ∧
        url.isHttp = true ∧ url.hasUserinfo = false := by
  unfold upstreamUrl at h
  rw [laws.slash _ _ (mem_scheme target) hp] at h
  split at h
  · contradiction
  · rename_i registry hr
    obtain ⟨hs, hu⟩ := laws.parts _ _ _ (mem_scheme target) hp hr
    have hhttp : registry.isHttp = true := isHttp_of_scheme (by rw [hs]; exact mem_scheme target)
    refine ⟨registry, by rw [registryUrl, hr], ?_⟩
    have parts : ∀ path query, url = {registry with path := path, query := query} →
        registry.sameOrigin lib url = true ∧ url.isHttp = true ∧ url.hasUserinfo = false := by
      rintro path query rfl
      have hhttp' : Url.isHttp {registry with path := path, query := query} = true := hhttp
      exact ⟨(Url.sameOrigin_iff lib hhttp hhttp').mpr ⟨rfl, rfl, rfl⟩, hhttp', hu⟩
    simp only [Except.ok.injEq] at h
    split at h
    · exact parts _ registry.query h.symm
    · exact parts _ _ h.symm

theorem parseRealm_eq_ok {challenge : BearerChallenge} {realm : Url}
    (h : parseRealm lib challenge = .ok realm) :
    lib.parse challenge.realm = some realm ∧ realm.isHttp = true ∧ realm.hasUserinfo = false := by
  unfold parseRealm at h
  split at h
  · contradiction
  · rename_i url hp
    split at h
    · contradiction
    · rename_i hc
      cases h
      simp only [Bool.or_eq_true, Bool.not_eq_true', not_or, Bool.not_eq_false,
        Bool.not_eq_true] at hc
      exact ⟨hp, hc⟩

/-- With GCP authentication the client is only built for an allowed realm. -/
theorem gcpAllowed_of_tokenClient {target : OciTarget} {registry realm : Url}
    {client : InitialClient} (hauth : target.auth = .gcp)
    (h : tokenClient lib target registry realm = .ok client) : GcpAllowed lib registry realm := by
  unfold tokenClient at h
  rw [hauth] at h
  dsimp only at h
  split at h
  · contradiction
  · split at h
    · contradiction
    · rename_i hs
      split at h
      · contradiction
      · rename_i ho
        split at h
        · contradiction
        · rename_i hd
          simp only [Bool.or_eq_true, Bool.not_eq_true', not_or, Bool.not_eq_false] at hd
          exact ⟨not_not.mp hs, by simpa using ho, hd.2⟩

/-- What the token request begins with: no credentials, or those of GCP for an allowed URL. -/
structure TokenRequest (lib : UrlCrate) (target : OciTarget) (url : Url) (headers : HeaderMap) :
    Prop where
  isHttp : url.isHttp = true
  userinfo : url.hasUserinfo = false
  headers : headers = [] ∨ target.auth = .gcp ∧ ∃ registry,
    registryUrl lib target = .ok registry ∧ GcpAllowed lib registry url

theorem buildTokenRequest_ensures (gcp : Bool) (target : OciTarget) (challenge : BearerChallenge) :
    Ensures R (Permitted lib target (· = challenge))
      (OnOk fun request => TokenRequest lib target request.1 request.2.1)
      (buildTokenRequest lib gcp target challenge) := by
  unfold buildTokenRequest
  refine ensures_bind (ensures_liftResult fun _ hr => hr) ?_
  intro registry hr
  refine ensures_bind (ensures_liftResult fun _ hp => parseRealm_eq_ok hp) ?_
  rintro realm ⟨hparse, hhttp, hu⟩
  refine ensures_bind (ensures_liftResult fun _ hc => hc) ?_
  intro client hc
  dsimp only
  split
  · rename_i hauth
    have hg := gcpAllowed_of_tokenClient hauth hc
    split
    · trivial
    · refine ensures_bind (ensures_perform ?_) ?_
      · exact ⟨hauth, challenge, registry, realm, rfl, hr, hparse, hg⟩
      · rintro (e | token) -
        · trivial
        · -- the query is all that changes
          have hhttp' : Url.isHttp {realm with
              query := some (lib.appendPairs realm.query (tokenQuery target challenge))} = true := hhttp
          have hsame := (Url.sameOrigin_iff lib hhttp hhttp').mpr ⟨rfl, rfl, rfl⟩
          refine ⟨hhttp', hu, Or.inr ⟨hauth, registry, hr, hg.https, ?_, hg.publicDomain⟩⟩
          exact Url.sameOrigin_trans hg.origin hsame
  · exact ⟨hhttp, hu, Or.inl rfl⟩

theorem GcpAllowed.of_sameOrigin {registry url url' : Url} (h : GcpAllowed lib registry url)
    (hhttp : url'.isHttp = true) (ho : url.sameOrigin lib url' = true) :
    GcpAllowed lib registry url' := by
  have hurl : url.isHttp = true := by simp [Url.isHttp, h.https]
  obtain ⟨hs, hh, -⟩ := (Url.sameOrigin_iff lib hurl hhttp).mp ho
  refine ⟨hs ▸ h.https, Url.sameOrigin_trans h.origin ho, ?_⟩
  have hd := h.publicDomain
  unfold hasPublicDomain at hd ⊢
  rwa [← hh]

theorem fetchToken_ensures (tokenJson : Bytes → Option TokenResponse) (gcp : Bool)
    (target : OciTarget) (challenge : BearerChallenge) :
    Ensures R (Permitted lib target (· = challenge)) (OnOk fun _ => True)
      (fetchToken lib tokenJson gcp target challenge) := by
  unfold fetchToken
  refine ensures_bind (buildTokenRequest_ensures gcp target challenge) ?_
  rintro ⟨url, headers, client⟩ ⟨hhttp, hu, hh⟩
  refine ensures_bind (Q := AnswersHttp R) ?_ fun _ _ => ensures_liftResult fun _ _ => trivial
  refine (send_kept hhttp hu).conseq ?_ fun _ h => h
  intro op hop
  cases op with
  | http r =>
      intro hc
      obtain ⟨hheaders, ho⟩ := Kept.not_carries hop hc
      rcases hh with rfl | ⟨-, registry, hr, hg⟩
      · have hn : r.url.hasUserinfo = false := hop.2.1
        simp [carriesAuthorization, hheaders, HeaderMap.contains, hn] at hc
      · refine ⟨registry, hr, Url.sameOrigin_trans hg.origin ho, ?_⟩
        intro _ _
        exact hg.of_sameOrigin hop.1 ho
  | _ => exact hop.elim

/-- The bearer token goes into a header that is not the one of the access token. -/
theorem buildHeaders_not_gcp {accept token : Option Str} {headers : HeaderMap}
    (h : buildHeaders accept token = .ok headers) (password : Str) :
    (str "authorization", basicAuth (str "oauth2accesstoken") password) ∉ headers := by
  intro hm
  unfold buildHeaders at h
  obtain ⟨base, hb, h⟩ := bind_eq_ok h
  have hbase : ∀ p ∈ base, p.1 = str "accept" := by
    unfold acceptHeaders at hb
    cases accept with
    | none =>
        cases hb
        simp
    | some accept =>
        dsimp only at hb
        split at hb
        · contradiction
        · cases hb
          intro p hp
          rcases HeaderMap.mem_insert hp with hp | rfl
          · contradiction
          · rfl
  have hne : (str "authorization", basicAuth (str "oauth2accesstoken") password) ∉ base := by
    intro hp
    exact absurd (hbase _ hp) (show str "authorization" ≠ str "accept" by decide)
  cases token with
  | none =>
      cases h
      exact hne hm
  | some token =>
      dsimp only at h
      split at h
      · contradiction
      · rename_i value hv
        cases h
        rcases HeaderMap.mem_insert hm with hm | hm
        · exact hne hm
        · obtain rfl : basicAuth (str "oauth2accesstoken") password = value := (Prod.ext_iff.mp hm).2
          rcases HeaderValue.fromStr_eq_some hv with h | h
          · have htext := HeaderValue.text.inj h
            exact absurd (congrArg (fun s : Str => s[1]?) htext) (by simp [str])
          · exact HeaderValue.noConfusion h

theorem sendUpstream_ensures (laws : AuthorityLaws lib) (tokenJson : Bytes → Option TokenResponse)
    (gcp : Bool) {target : OciTarget} (hp : PlainAuthority target.registry) (method : Method)
    (suffix : Str) (accept : Option Str) :
    Ensures R (Permitted lib target fun c => ∃ header, parseBearerChallenge header = some c)
      (OnOk (AnswersHttp R)) (sendUpstream lib tokenJson gcp target method suffix accept) := by
  -- both requests to the registry itself
  have request : ∀ {url token headers}, upstreamUrl lib target suffix = .ok url →
      buildHeaders accept token = .ok headers →
      Ensures R (Permitted lib target fun c => ∃ header, parseBearerChallenge header = some c)
        (OnOk (AnswersHttp R)) (send lib method url headers .trusted true) := by
    intro url token headers hurl hheaders
    obtain ⟨registry, hr, ho, hhttp, hu⟩ := upstreamUrl_eq_ok laws hp hurl
    refine (send_kept hhttp hu).conseq ?_ fun _ h => h
    intro op hop
    cases op with
    | http r =>
        intro hc
        obtain ⟨hh, ho'⟩ := Kept.not_carries hop hc
        refine ⟨registry, hr, Url.sameOrigin_trans ho ho', ?_⟩
        rintro - ⟨password, hm⟩
        rw [hh] at hm
        exact absurd hm (buildHeaders_not_gcp hheaders password)
    | _ => exact hop.elim
  unfold sendUpstream
  split
  · trivial
  · refine ensures_bind (ensures_liftResult fun _ hu => hu) ?_
    intro url hurl
    refine ensures_bind (ensures_perform trivial) ?_
    intro cached _
    refine ensures_bind (ensures_liftResult fun _ hh => hh) ?_
    intro headers hheaders
    refine ensures_bind (request hurl hheaders) ?_
    intro response hresponse
    dsimp only
    split
    · exact hresponse
    · split
      · trivial
      · rename_i challenge hchallenge
        refine ensures_bind (Q := fun _ => True) ?_ ?_
        · refine (fetchToken_ensures tokenJson gcp target challenge).conseq ?_ fun _ h => h
          intro op hop
          cases op with
          | gcpAccessToken =>
              obtain ⟨hauth, c, registry, realm, rfl, h⟩ := hop
              obtain ⟨header, -, hparse⟩ := List.exists_of_findSome?_eq_some hchallenge
              exact ⟨hauth, c, registry, realm, ⟨header, hparse⟩, h⟩
          | _ => exact hop
        · intro token _
          refine ensures_bind (ensures_perform trivial) ?_
          intro _ _
          refine ensures_bind (ensures_liftResult fun _ hh => hh) ?_
          intro headers hheaders
          exact request hurl hheaders

/-- Without anything known of the target, only the registry is asked. -/
theorem fetchToken_registryOp (tokenJson : Bytes → Option TokenResponse) (gcp : Bool)
    (target : OciTarget) (challenge : BearerChallenge) :
    Ensures R RegistryOp (OnOk fun _ => True) (fetchToken lib tokenJson gcp target challenge) := by
  have request : Ensures R RegistryOp (OnOk fun _ => True)
      (buildTokenRequest lib gcp target challenge) := by
    apply (buildTokenRequest_ensures gcp target challenge).conseq
    · intro op hop
      cases op with
      | http _ | gcpAccessToken | liveToken _ | insertToken _ _ => trivial
      | _ => exact hop.elim
    · intro r _
      cases r <;> trivial
  unfold fetchToken
  refine ensures_bind request ?_
  intro ⟨url, headers, client⟩ _
  refine ensures_bind (send_registryOp ..) ?_
  intro response _
  exact ensures_liftResult fun _ _ => trivial

theorem sendUpstream_registryOp (tokenJson : Bytes → Option TokenResponse) (gcp : Bool)
    (target : OciTarget) (method : Method) (suffix : Str) (accept : Option Str) :
    Ensures R RegistryOp (OnOk (AnswersHttp R))
      (sendUpstream lib tokenJson gcp target method suffix accept) := by
  unfold sendUpstream
  split
  · trivial
  · refine ensures_bind (Q := fun _ => True) (ensures_liftResult fun _ _ => trivial) ?_
    intro url _
    refine ensures_bind (ensures_perform trivial) ?_
    intro cached _
    refine ensures_bind (Q := fun _ => True) (ensures_liftResult fun _ _ => trivial) ?_
    intro headers _
    refine ensures_bind (send_registryOp ..) ?_
    intro response hresponse
    dsimp only
    split
    · exact hresponse
    · split
      · trivial
      · refine ensures_bind (fetchToken_registryOp ..) ?_
        intro token _
        refine ensures_bind (ensures_perform trivial) ?_
        intro _ _
        refine ensures_bind (Q := fun _ => True) (ensures_liftResult fun _ _ => trivial) ?_
        intro headers _
        exact send_registryOp ..

/-- Credentials stay on the registry's origin, whatever the upstreams answer. -/
theorem credentials_confined (laws : AuthorityLaws lib) (tokenJson : Bytes → Option TokenResponse)
    (gcp : Bool) (target : OciTarget) (hp : PlainAuthority target.registry) :
    (∀ method suffix accept cs q,
      Follows (sendUpstream lib tokenJson gcp target method suffix accept) cs q →
      ∀ c ∈ cs, Permitted lib target (fun c => ∃ header, parseBearerChallenge header = some c) c.op) ∧
    ∀ challenge cs q, Follows (fetchToken lib tokenJson gcp target challenge) cs q →
      ∀ c ∈ cs, Permitted lib target (· = challenge) c.op := by
  constructor
  · intro method suffix accept cs q h
    exact ((sendUpstream_ensures laws tokenJson gcp hp method suffix accept).follows h).1
  · intro challenge cs q h
    exact ((fetchToken_ensures tokenJson gcp target challenge).follows h).1

end Confinement

section PlainUrls
open PlainUrls

theorem plainUrls_authorityLaws : AuthorityLaws plainUrls := by
  constructor
  · intro scheme authority hs hp
    change PlainUrls.parse _ = PlainUrls.parse _
    rw [parse_scheme hs, parse_scheme hs]
    have ha : ∀ c ∈ authority, (c != '/' && c != '?') = true := by
      intro c hc
      have hne := (hp c hc).2
      simp only [List.mem_cons, not_or] at hne
      simp [hne.1, hne.2.2.1]
    have hdrop : authority.dropWhile (fun c => c != '/' && c != '?') = [] :=
      List.dropWhile_eq_nil_iff.mpr ha
    have hslash : (str "/").takeWhile (fun c => c != '/' && c != '?') = [] ∧
        (str "/").dropWhile (fun c => c != '/' && c != '?') = str "/" := by decide
    have htail : parseTail (str "/") = parseTail [] := by decide
    simp only [parseBehind, List.takeWhile_append_of_pos ha, List.dropWhile_append_of_pos ha,
      hslash.1, hslash.2, List.append_nil, List.takeWhile_eq_self_iff.mpr ha, hdrop, htail]
  · intro scheme authority url hs hp h
    refine ⟨?_, (parse_eq_some h).2.1⟩
    change PlainUrls.parse _ = _ at h
    rw [parse_scheme hs] at h
    simp only [parseBehind] at h
    split at h
    · contradiction
    · obtain ⟨port, -, h⟩ := Option.bind_eq_some_iff.mp h
      obtain ⟨tail, -, h⟩ := Option.bind_eq_some_iff.mp h
      cases h
      rfl

def gcpTarget : OciTarget :=
  ⟨str "eu.gcr.io", str "p/c", str "eu/p/c", true, .gcp, false⟩

def gcpChallenge : BearerChallenge := ⟨str "https://eu.gcr.io/token", none, none⟩

/-- The access token is asked for and sent to the registry, which does not answer. -/
def gcpCalls : List (Call Op Ans) :=
  [⟨.gcpAccessToken, .ok (str "ya29")⟩,
    ⟨.http ⟨.publicOnly, .get, ⟨str "https", [], none, some (.domain (str "eu.gcr.io")), none,
      str "/token", some (str "scope=repository:p/c:pull"), none⟩,
      [(str "authorization", basicAuth (str "oauth2accesstoken") (str "ya29"))]⟩, .error []⟩]

theorem credentials_confined_gcp :
    gcpCalls.Forall fun c => Permitted plainUrls gcpTarget (· = gcpChallenge) c.op := by
  rw [List.forall_iff_forall_mem]
  have hp : PlainAuthority gcpTarget.registry := by decide
  have hr : (Program.replay (fetchToken plainUrls (fun _ => none) true gcpTarget gcpChallenge)
      gcpCalls).isSome = true := by decide +kernel
  obtain ⟨q, hq⟩ := follows_of_replay hr
  exact (credentials_confined plainUrls_authorityLaws (fun _ => none) true gcpTarget hp).2 _ _ q hq

end PlainUrls

end Helmoci.RegistryTokens
