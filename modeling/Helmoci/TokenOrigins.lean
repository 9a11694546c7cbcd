import Helmoci.CallRecords
import Helmoci.ConfigExpansion
import Helmoci.HandlerFetches
import Helmoci.HostPaths
import Helmoci.PlainCrates

/-!
# Where tokens come from

A token is kept under what it was asked for: the transport, the authentication, the registry
and the repository. Requests take turns with one cache of tokens between them, and still
every token that is sent was issued for a target with the same key. The access token of the
cloud serves the registries that ask for it alone, and where the configuration was accepted
as it stands, only clients with a token of the server lead there.
-/
namespace Helmoci.TokenOrigins
open RustText UrlInterface NameResolver OciPaths ServerErrors EffectPrograms InterleavedPrograms
  CallRecords JsonValues ServerOperations UpstreamRequests RegistryTokens RegistryResponses
  ServerState PassthroughHandler Helmoci.Configuration ConfigExpansion PullAuth Routes Router
  HandlerFetches

section Uses
variable {lib : UrlCrate} {state : AppState} {N : (op : Op) → Ans op → Prop} {target : OciTarget}

/-- A token that some answer has brought. -/
def Issued (state : AppState) (N : (op : Op) → Ans op → Prop) (t : Str) : Prop :=
  ∃ response token, AnswersHttp N response ∧
    readToken state.crates.tokenJson response = .ok token ∧ token.token = t

/-- The credentials of a header: those of the cloud, or a cached or a new token. -/
def Credential (state : AppState) (N : (op : Op) → Ans op → Prop) (target : OciTarget)
    (v : HeaderValue) : Prop :=
  (target.auth = .gcp ∧ ∃ password, v = basicAuth (str "oauth2accesstoken") password) ∨
    ∃ t, HeaderValue.fromStr (str "Bearer " ++ t) = some v ∧
      (N (.liveToken (upstreamTokenCacheKey target)) (some t : Option Str) ∨ Issued state N t)

/-- What a request for a target does with tokens. -/
def Uses (state : AppState) (N : (op : Op) → Ans op → Prop) (target : OciTarget) : Op → Prop
  | .http r => ∀ v, (str "authorization", v) ∈ r.headers → Credential state N target v
  | .liveToken key => key = upstreamTokenCacheKey target
  | .insertToken key token => key = upstreamTokenCacheKey target ∧ Issued state N token.token
  | .gcpAccessToken => target.auth = .gcp
  | _ => True

/-- No tokens at all. -/
def Plain : Op → Prop
  | .http r => ∀ v, (str "authorization", v) ∉ r.headers
  | .liveToken _ | .insertToken .. | .gcpAccessToken => False
  | _ => True

/-- What holds of the credentials that a request begins with holds behind each redirect. -/
theorem authorization_hop {V : HeaderValue → Prop} {a b : HttpRequest} (h : Hop lib a b)
    (ha : ∀ v, (str "authorization", v) ∈ a.headers → V v) :
    ∀ v, (str "authorization", v) ∈ b.headers → V v := by
  intro v hv
  cases hs : a.url.sameOrigin lib b.url with
  | true =>
      rw [(h.kept hs).2] at hv
      exact ha v hv
  | false =>
      have hnone := (h.left hs).2.headers (str "authorization") (by decide)
      have hcontains : b.headers.contains (str "authorization") = true :=
        List.any_eq_true.mpr ⟨_, hv, decide_eq_true rfl⟩
      rw [hnone] at hcontains
      contradiction

theorem send_authorization {V : HeaderValue → Prop} {method : Method} {url : Url}
    {headers : HeaderMap} {client : InitialClient} {follow : Bool}
    (h : ∀ v, (str "authorization", v) ∈ headers → V v) :
    Ensures N (OnlyHttp fun r => ∀ v, (str "authorization", v) ∈ r.headers → V v)
      (OnOk (AnswersHttp N)) (send lib method url headers client follow) := by
  have hloop : Ensures N (OnlyHttp fun r => ∀ v, (str "authorization", v) ∈ r.headers → V v)
      (OnOk (AnswersHttp N)) (sendLoop lib method follow maxRedirects url headers client) :=
    sendLoop_ensures (fun a b => authorization_hop) h
  unfold send
  split
  · exact ensures_bind (Q := fun _ => True) (ensures_liftResult fun _ _ => trivial) fun _ _ => hloop
  · exact hloop

theorem buildHeaders_authorization {accept token : Option Str} {headers : HeaderMap}
    (h : buildHeaders accept token = .ok headers) {v : HeaderValue}
    (hv : (str "authorization", v) ∈ headers) :
    ∃ t, token = some t ∧ HeaderValue.fromStr (str "Bearer " ++ t) = some v := by
  have hne : str "authorization" ≠ str "accept" := by decide
  unfold buildHeaders at h
  obtain ⟨base, hbase, h⟩ := bind_eq_ok h
  have hplain : (str "authorization", v) ∉ base := by
    unfold acceptHeaders at hbase
    intro hm
    split at hbase
    · cases hbase
      cases hm
    · split at hbase
      · contradiction
      · cases hbase
        rcases HeaderMap.mem_insert hm with hm | hm
        · cases hm
        · exact hne (Prod.ext_iff.mp hm).1
  cases token with
  | none =>
      cases h
      exact absurd hv hplain
  | some t =>
      dsimp only at h
      split at h
      · contradiction
      · rename_i value hvalue
        cases h
        rcases HeaderMap.mem_insert hv with hv | hv
        · exact absurd hv hplain
        · obtain rfl : v = value := (Prod.ext_iff.mp hv).2
          exact ⟨t, rfl, hvalue⟩

/-- A bearer token is no access token. -/
theorem basicAuth_ne_bearer {t username password : Str} :
    HeaderValue.fromStr (str "Bearer " ++ t) ≠ some (basicAuth username password) := by
  intro h
  rcases HeaderValue.fromStr_eq_some h with h | h
  · have htext := HeaderValue.text.inj h
    exact absurd (congrArg (fun s : Str => s[1]?) htext) (by simp [str])
  · exact HeaderValue.noConfusion h

theorem fetchToken_uses (gcp : Bool) (challenge : BearerChallenge) :
    Ensures N (Uses state N target) (OnOk fun token => Issued state N token.token)
      (fetchToken lib state.crates.tokenJson gcp target challenge) := by
  have hrequest : Ensures N (Uses state N target)
      (OnOk fun request => ∀ v, (str "authorization", v) ∈ request.2.1 →
        target.auth = .gcp ∧ ∃ password, v = basicAuth (str "oauth2accesstoken") password)
      (buildTokenRequest lib gcp target challenge) := by
    unfold buildTokenRequest
    refine ensures_bind (Q := fun _ => True) (ensures_liftResult fun _ _ => trivial) ?_
    intro registry _
    refine ensures_bind (Q := fun _ => True) (ensures_liftResult fun _ _ => trivial) ?_
    intro realm _
    refine ensures_bind (Q := fun _ => True) (ensures_liftResult fun _ _ => trivial) ?_
    intro client _
    dsimp only
    split
    · rename_i hauth
      split
      · trivial
      · refine ensures_bind_call hauth ?_
        rintro (e | token) -
        · trivial
        · intro v hv
          exact ⟨hauth, token, (Prod.ext_iff.mp (List.mem_singleton.mp hv)).2⟩
    · intro v hv
      cases hv
  unfold fetchToken
  refine ensures_bind hrequest ?_
  rintro ⟨url, headers, client⟩ hheaders
  refine ensures_bind (Q := AnswersHttp N) ?_ ?_
  · refine (send_authorization (V := Credential state N target)
      fun v hv => Or.inl (hheaders v hv)).conseq ?_ fun _ h => h
    intro op hop
    cases op with
    | http r => exact hop
    | _ => exact hop.elim
  · intro response hresponse
    exact ensures_liftResult fun token htoken => ⟨response, token, hresponse, htoken, rfl⟩

theorem sendUpstream_uses (gcp : Bool) (method : Method) (suffix : Str) (accept : Option Str) :
    Ensures N (Uses state N target) (OnOk fun _ => True)
      (sendUpstream lib state.crates.tokenJson gcp target method suffix accept) := by
  -- a request with a token of which it is known where it comes from
  have request : ∀ {url token headers}, buildHeaders accept token = .ok headers →
      (∀ t, token = some t → N (.liveToken (upstreamTokenCacheKey target)) (some t : Option Str) ∨
        Issued state N t) →
      Ensures N (Uses state N target) (OnOk fun _ => True)
        (send lib method url headers .trusted true) := by
    intro url token headers hheaders htoken
    refine (send_authorization (V := Credential state N target) ?_).conseq ?_ ?_
    · intro v hv
      obtain ⟨t, ht, hbearer⟩ := buildHeaders_authorization hheaders hv
      exact Or.inr ⟨t, hbearer, htoken t ht⟩
    · intro op hop
      cases op with
      | http r => exact hop
      | _ => exact hop.elim
    · intro r _
      exact onOk_true r
  unfold sendUpstream
  split
  · trivial
  · refine ensures_bind (Q := fun _ => True) (ensures_liftResult fun _ _ => trivial) ?_
    intro url _
    refine ensures_bind_call rfl ?_
    intro cached hcached
    refine ensures_bind (ensures_liftResult fun _ hh => hh) ?_
    intro headers hheaders
    refine ensures_bind (request hheaders ?_) ?_
    · rintro t rfl
      exact Or.inl hcached
    · intro response _
      dsimp only
      split
      · trivial
      · split
        · trivial
        · rename_i challenge _
          refine ensures_bind (fetchToken_uses gcp challenge) ?_
          intro token htoken
          refine ensures_bind_call ⟨rfl, htoken⟩ ?_
          intro _ _
          refine ensures_bind (ensures_liftResult fun _ hh => hh) ?_
          intro headers hheaders
          refine request hheaders ?_
          rintro t ht
          cases ht
          exact Or.inr htoken

end Uses

section Requests
variable {state : AppState} {decode : PathDecoder} {debug : Str → Str} {values : ValueCrate}
  {pages : Pages} {decodeBase64 : Str → Option Bytes}

/-- What a request does with tokens: only a target of a registry has any. -/
def RequestUses (state : AppState) (decode : PathDecoder) (req : ServerRequest)
    (N : (op : Op) → Ans op → Prop) (op : Op) : Prop :=
  match req.toClientRequest.resolved state decode with
  | some (.oci target) => Uses state N target op
  | _ => Plain op

theorem requestUses_of_local {req : ServerRequest} {N : (op : Op) → Ans op → Prop} {op : Op}
    (h : reachesOut op = false) : RequestUses state decode req N op := by
  unfold RequestUses
  split <;> cases op <;> first | contradiction | trivial

theorem not_mem_classicHeaders {headers : HeaderMap} (h : headers ∈ classicHeaders)
    (v : HeaderValue) : (str "authorization", v) ∉ headers := by
  have hne : str "authorization" ≠ str "accept" := by decide
  simp only [classicHeaders, List.mem_cons, List.not_mem_nil, or_false] at h
  rcases h with rfl | rfl
  · simp
  · intro hm
    exact hne (Prod.ext_iff.mp (List.mem_singleton.mp hm)).1

theorem serve_uses (req : ServerRequest) (N : (op : Op) → Ans op → Prop) :
    Ensures N (RequestUses state decode req N) (fun _ => True)
      (serve state decode debug values pages decodeBase64 req) := by
  apply serve_fetches fun _ => requestUses_of_local
  intro _ _ resolved hresolved
  cases resolved with
  | classic chart =>
      intro url client follow headers hheaders
      refine (send_authorization (V := fun _ => False)
        fun v hv => not_mem_classicHeaders hheaders v hv).conseq ?_ fun r _ => onOk_true r
      intro op hop
      rw [RequestUses, hresolved]
      cases op with
      | http r => exact hop
      | _ => exact hop.elim
  | oci target =>
      intro headOnly suffix accept
      refine (sendUpstream_uses _ _ suffix accept).conseq ?_ fun _ h => h
      intro op hop
      rw [RequestUses, hresolved]
      exact hop

/-- The calls that take or carry the access token of the cloud. -/
def CloudCredential (op : Op) : Prop :=
  op = .gcpAccessToken ∨ ∃ r, op = .http r ∧ carriesGcpToken r

theorem gcp_of_cloudCredential {req : ServerRequest} {N : (op : Op) → Ans op → Prop} {op : Op}
    (h : RequestUses state decode req N op) (hop : CloudCredential op) : ∃ target,
      req.toClientRequest.resolved state decode = some (.oci target) ∧ target.auth = .gcp := by
  unfold RequestUses at h
  split at h
  · rename_i target hresolved
    refine ⟨target, hresolved, ?_⟩
    rcases hop with rfl | ⟨r, rfl, password, hr⟩
    · exact h
    · rcases h _ hr with ⟨hauth, -⟩ | ⟨t, ht, -⟩
      · exact hauth
      · exact absurd ht basicAuth_ne_bearer
  · rcases hop with rfl | ⟨r, rfl, password, hr⟩
    · exact h.elim
    · exact absurd hr (h _)

/-- Without the check of the clients' tokens and without the opt-in, no alias of an accepted
configuration authenticates. -/
theorem none_of_validate {lib : UrlCrate} {isAlphanumeric : Char → Bool} {settings : Config}
    {missingVars : List Str} {cfg : RuntimeConfig}
    (h : validate lib isAlphanumeric debug settings missingVars = .ok cfg)
    (hauth : settings.auth.enabled = false)
    (hpublic : settings.allowPublicPrivateUpstreams = false) :
    ∀ name entry, cfg.aliases.lookup name = some entry → entry.auth = .none := by
  unfold validate at h
  obtain ⟨_, -, h⟩ := bind_eq_ok h
  obtain ⟨_, -, h⟩ := bind_eq_ok h
  obtain ⟨aliases, -, h⟩ := bind_eq_ok h
  obtain ⟨_, hcheck, h⟩ := bind_eq_ok h
  cases h
  have hempty : ((aliases.filter fun p => p.2.auth != .none).map Prod.fst).isEmpty = true := by
    unfold checkCredentialed at hcheck
    rw [hauth, hpublic] at hcheck
    simp only [Bool.not_false, Bool.and_self, if_true] at hcheck
    split at hcheck
    · rename_i hsorted
      simpa [List.isEmpty_iff, ← List.length_eq_zero_iff] using hsorted
    · contradiction
  intro name entry hl
  have hm := mem_of_lookup_collect hl
  by_contra hne
  have hfound : (name, entry) ∈ aliases.filter fun p => p.2.auth != .none :=
    List.mem_filter.mpr ⟨hm, by simpa using hne⟩
  rw [List.isEmpty_iff, List.map_eq_nil_iff] at hempty
  rw [hempty] at hfound
  cases hfound

/-- A target of a registry is that of an alias. -/
theorem alias_of_resolved {req : ClientRequest} {target : OciTarget}
    (h : req.resolved state decode = some (.oci target)) : ∃ name entry,
      state.cfg.aliases.lookup name = some entry ∧ target.auth = entry.auth := by
  obtain ⟨name, -, hname⟩ := Option.bind_eq_some_iff.mp h
  unfold resolveName at hname
  split at hname
  · contradiction
  · rename_i first rest _
    split at hname
    · rename_i entry hl
      split at hname
      · split at hname
        · split at hname <;> cases hname
        · cases hname
      · split at hname
        · contradiction
        · cases hname
          exact ⟨first, entry, hl, rfl⟩
    · obtain ⟨_, _, _, -, -, -, hres⟩ := HostPaths.resolveHostPath_eq_some_iff.mp hname
      cases hres

theorem not_public_of_route {path : Str} (h : pages.route path = none) :
    publicPaths.contains path = false := by
  unfold Pages.route at h
  split_ifs at h with h₁ h₂ h₃
  simp [publicPaths, h₁, h₂, h₃]

/-- A client gets behind the check with one of the tokens. -/
theorem presents_of_run {settings : Config} {req : PullRequest} (hd : DecodesBase64 decodeBase64)
    (hauth : settings.auth.enabled = true) (hpath : publicPaths.contains req.path = false)
    (h : requirePullAuth decodeBase64 settings req = .run) :
    ∃ field, req.authorization = [field] ∧ ∃ token ∈ settings.auth.tokens, token ≠ [] ∧
      Presents (fun t => ∀ c ∈ t, isGraphic c = true) token field := by
  unfold requirePullAuth at h
  rw [hauth, hpath] at h
  simp only [Bool.not_true, Bool.or_self, Bool.false_eq_true, if_false] at h
  split at h
  · rename_i hany
    obtain ⟨token, hpresented, hexpected⟩ := (Option.any_eq_true _ _).mp hany
    obtain ⟨field, hfield, hne, hpresents⟩ := (presented_eq_some_iff hd).mp hpresented
    obtain ⟨expected, hm, heq⟩ := List.any_eq_true.mp hexpected
    obtain rfl := Utf8.asBytes_inj.mp (eq_of_beq heq)
    exact ⟨field, hfield, expected, (List.mem_filter.mp hm).1, hne, hpresents⟩
  · contradiction

/-- The credentials of the cloud are used for clients with a token of the server only, unless
the operator has opted out of that. -/
theorem cloud_credentials_guarded {lib : UrlCrate} {isAlphanumeric : Char → Bool}
    {env : Str → Option Str} {readYaml : Str → Except Str Config} {raw : Str}
    (hconfig : parseConfig lib isAlphanumeric debug env readYaml raw = .ok state.cfg)
    (hpublic : state.cfg.settings.allowPublicPrivateUpstreams = false)
    (hd : DecodesBase64 decodeBase64) {req : ServerRequest} {cs : List (Call Op Ans)}
    {q : Program Op Ans Response}
    (h : Follows (serve state decode debug values pages decodeBase64 req) cs q)
    {c : Call Op Ans} (hc : c ∈ cs) (hcred : CloudCredential c.op) :
    state.cfg.settings.auth.enabled = true ∧ ∃ field, req.authorization = [field] ∧
      ∃ token ∈ state.cfg.settings.auth.tokens, token ≠ [] ∧
        Presents (fun t => ∀ c ∈ t, isGraphic c = true) token field := by
  obtain ⟨target, hresolved, htarget⟩ :=
    gcp_of_cloudCredential (((serve_uses req Anything).follows h).1 c hc) hcred
  have hauth : state.cfg.settings.auth.enabled = true := by
    by_contra hdisabled
    obtain ⟨settings, -, hvalid⟩ := bind_eq_ok hconfig
    obtain rfl := settings_of_validate hvalid
    obtain ⟨name, entry, hl, hentry⟩ := alias_of_resolved hresolved
    have hnone := none_of_validate hvalid (by simpa using hdisabled) hpublic name entry hl
    rw [← hentry, htarget] at hnone
    contradiction
  -- somebody has got behind the check, and not to a public page
  have hreached : Ensures Anything (fun op => reachesOut op = true →
      requirePullAuth decodeBase64 state.cfg.settings req.pull = .run ∧
        pages.route req.path = none) (fun _ => True)
      (serve state decode debug values pages decodeBase64 req) := by
    apply serve_fetches
    · intro op hlocal hout
      rw [hlocal] at hout
      contradiction
    · intro hrun hroute resolved _
      cases resolved with
      | classic chart =>
          intro url client follow headers _
          exact ensures_of_forall (fun _ _ => ⟨hrun, hroute⟩) onOk_true
      | oci target =>
          intro headOnly suffix accept
          exact ensures_of_forall (fun _ _ => ⟨hrun, hroute⟩) onOk_true
  have hout : reachesOut c.op = true := by
    rcases hcred with hop | ⟨r, hop, -⟩ <;> rw [hop] <;> rfl
  obtain ⟨hrun, hroute⟩ := (hreached.follows h).1 c hc hout
  exact ⟨hauth, presents_of_run hd hauth (not_public_of_route hroute) hrun⟩

end Requests

section Keys

theorem separated_inj {c : Char} {a b s t : Str} (ha : c ∉ a) (hb : c ∉ b)
    (h : a ++ c :: s = b ++ c :: t) : a = b ∧ s = t := by
  have hcut := splitOnce_append ha s
  rw [h, splitOnce_append hb] at hcut
  obtain ⟨rfl, rfl⟩ := Prod.mk.inj (Option.some.inj hcut)
  exact ⟨rfl, rfl⟩

/-- Neither the transport nor the authentication has the separator in it. -/
theorem target_of_key {a b : OciTarget} (h : upstreamTokenCacheKey a = upstreamTokenCacheKey b) :
    a.plainHttp = b.plainHttp ∧ a.auth = b.auth ∧
      ('|' ∉ a.registry → '|' ∉ b.registry → a.registry = b.registry ∧ a.repo = b.repo) := by
  have hscheme : ∀ t : OciTarget, '|' ∉ OciTarget.scheme t := by
    have hall : ∀ s ∈ [str "http", str "https"], '|' ∉ s := by decide
    exact fun t => hall _ (mem_scheme t)
  unfold upstreamTokenCacheKey at h
  obtain ⟨hs, h⟩ := separated_inj (hscheme a) (hscheme b) h
  obtain ⟨ht, h⟩ := separated_inj (by cases a.auth <;> decide)
    (by cases b.auth <;> decide) h
  refine ⟨?_, ?_, fun ha hb => separated_inj ha hb h⟩
  · unfold OciTarget.scheme at hs
    cases hp : a.plainHttp <;> cases hp' : b.plainHttp <;> simp [hp, hp', str] at hs ⊢
  · cases hk : a.auth <;> cases hk' : b.auth <;> simp [hk, hk', str] at ht ⊢

end Keys

section Origins
variable {S : Type} {W : World Op Ans S} {held : S → Str → Str → Prop} {state : AppState}
  {decode : PathDecoder} {debug : Str → Str} {values : ValueCrate} {pages : Pages}
  {decodeBase64 : Str → Option Bytes}

/-- A cache of tokens: it answers with what it holds, and holds what was put in. -/
structure TokenCache (W : World Op Ans S) (held : S → Str → Str → Prop) : Prop where
  read : ∀ key s t (token : Str), W (.liveToken key) s (some token : Option Str) t →
    held s key token
  kept : ∀ op s (r : Ans op) t key token, W op s r t → held t key token →
    held s key token ∨ ∃ cached, op = .insertToken key cached ∧ cached.token = token

/-- Every call of the server's requests so far. -/
abbrev Log := List (ServerRequest × Call Op Ans)

/-- A request for a target with this key was answered with the token, and had the access token
of the cloud only where the target asks for it. -/
def Fetched (state : AppState) (decode : PathDecoder) (log : Log) (key t : Str) : Prop :=
  ∃ req target request response token,
    req.toClientRequest.resolved state decode = some (.oci target) ∧
    upstreamTokenCacheKey target = key ∧
    (req, (⟨.http request, .ok response⟩ : Call Op Ans)) ∈ log ∧
    readToken state.crates.tokenJson response = .ok token ∧ token.token = t ∧
    (carriesGcpToken request → target.auth = .gcp)

/-- The credentials of a call, and where those in front of it come from. -/
def CredentialOrigin (state : AppState) (decode : PathDecoder) (before : Log)
    (req : ServerRequest) (c : Call Op Ans) : Prop :=
  ∀ request v, c.op = .http request → (str "authorization", v) ∈ request.headers → ∃ target,
    req.toClientRequest.resolved state decode = some (.oci target) ∧
    ((target.auth = .gcp ∧ ∃ password, v = basicAuth (str "oauth2accesstoken") password) ∨
      ∃ t, HeaderValue.fromStr (str "Bearer " ++ t) = some v ∧
        Fetched state decode before (upstreamTokenCacheKey target) t)

/-- What is held and what was read has an origin, and so has every credential. -/
structure Traced (state : AppState) (decode : PathDecoder) (held : S → Str → Str → Prop)
    (x : S × Log) : Prop where
  held : ∀ key t, held x.1 key t → Fetched state decode x.2 key t
  read : ∀ req key t, answered x.2 req (.liveToken key) (some t : Option Str) →
    Fetched state decode x.2 key t
  credentials : EachCall (CredentialOrigin state decode) x.2

theorem Fetched.mono {log log' : Log} {key t : Str} (h : Fetched state decode log key t)
    (hsub : log ⊆ log') : Fetched state decode log' key t := by
  obtain ⟨req, target, request, response, token, hr, hk, hm, hrest⟩ := h
  exact ⟨req, target, request, response, token, hr, hk, hsub hm, hrest⟩

/-- What was issued to a request in the record was fetched for its target. -/
theorem fetched_of_issued {x : S × Log} (hx : Traced state decode held x) {req : ServerRequest}
    {target : OciTarget} (hr : req.toClientRequest.resolved state decode = some (.oci target))
    {t : Str} (h : Issued state (answered x.2 req) t) :
    Fetched state decode x.2 (upstreamTokenCacheKey target) t := by
  obtain ⟨response, token, ⟨request, hm⟩, htoken, ht⟩ := h
  refine ⟨req, target, request, response, token, hr, rfl, hm, htoken, ht, ?_⟩
  rintro ⟨password, hv⟩
  obtain ⟨before, behind, hlog⟩ := List.append_of_mem hm
  obtain ⟨target', hr', hcred⟩ := hx.credentials before req _ behind hlog request _ rfl hv
  obtain rfl : target = target' := by
    rw [hr] at hr'
    cases hr'
    rfl
  rcases hcred with ⟨hauth, -⟩ | ⟨t, ht, -⟩
  · exact hauth
  · exact absurd ht basicAuth_ne_bearer

/-- Each call of a request keeps the origins. -/
theorem Traced.step (hW : TokenCache W held) {req : ServerRequest} {op : Op} {x y : S × Log}
    {r : Ans op} (hx : Traced state decode held x)
    (hop : RequestUses state decode req (answered x.2 req) op) (hw : labelled W req op x r y) :
    Traced state decode held y := by
  obtain ⟨s, log⟩ := x
  obtain ⟨t, log'⟩ := y
  obtain ⟨hw, hlog⟩ := hw
  dsimp only at hw hlog
  subst hlog
  have hsub : log ⊆ log ++ [(req, ⟨op, r⟩)] := List.subset_append_left _ _
  refine ⟨?_, ?_, ?_⟩
  · intro key token hheld
    rcases hW.kept op s r t key token hw hheld with hheld | ⟨cached, rfl, rfl⟩
    · exact (hx.held key token hheld).mono hsub
    · unfold RequestUses at hop
      split at hop
      · rename_i target hr
        obtain ⟨rfl, hissued⟩ := hop
        exact (fetched_of_issued hx hr hissued).mono hsub
      · exact hop.elim
  · intro req' key token hread
    rcases List.mem_append.mp hread with hread | hread
    · exact (hx.read req' key token hread).mono hsub
    · cases List.mem_singleton.mp hread
      exact (hx.held key token (hW.read key s t token hw)).mono hsub
  · apply hx.credentials.concat
    rintro request v rfl hv
    unfold RequestUses at hop
    split at hop
    · rename_i target hr
      refine ⟨target, hr, ?_⟩
      rcases hop v hv with hcloud | ⟨token, htoken, hread | hissued⟩
      · exact Or.inl hcloud
      · exact Or.inr ⟨token, htoken, hx.read req _ token hread⟩
      · exact Or.inr ⟨token, htoken, fetched_of_issued hx hr hissued⟩
    · exact absurd hv (hop v)

theorem requests_traced (hW : TokenCache W held) :
    Compatible (labelled W) (fun (req : ServerRequest) p =>
        p = serve state decode debug values pages decodeBase64 req) Grows
      (fun req op x r y => RequestUses state decode req (answered x.2 req) op ∧
        labelled W req op x r y)
      (fun _ _ _ => True) (Traced state decode held) where
  refl _ := List.Subset.refl _
  trans _ _ _ h₁ h₂ := List.Subset.trans h₁ h₂
  guarantee := by
    rintro req op x r y ⟨hop, hw⟩ hx
    refine ⟨hx.step hW hop hw, ?_⟩
    rw [Grows, hw.2]
    exact List.subset_append_left _ _
  guards := by
    rintro req p x rfl -
    exact guards_of_answered (P := RequestUses state decode req) (serve_uses req)

end Origins

section Instances
open PlainUrls PlainCrates

def readGuarded (_ : Str) : Except Str Config :=
  .ok {
    storage := .memory
    auth := {enabled := true, tokens := [str "sekrit"]}
    aliases := collect [(str "eu", {upstream := str "oci://eu.gcr.io/p", auth := .gcp})]}

def guardedConfig : RuntimeConfig :=
  (parseConfig plainUrls Char.isAlphanum id (fun _ => none) readGuarded []).toOption.getD plainConfig

def guardedState : AppState := {plainState with cfg := guardedConfig, gcp := true}

theorem guardedConfig_parsed :
    parseConfig plainUrls Char.isAlphanum id (fun _ => none) readGuarded [] =
      .ok guardedState.cfg := by
  have hok : (parseConfig plainUrls Char.isAlphanum id (fun _ => none) readGuarded []).isOk =
      true := by decide +kernel
  change _ = Except.ok guardedConfig
  unfold guardedConfig
  cases h : parseConfig plainUrls Char.isAlphanum id (fun _ => none) readGuarded [] with
  | error e =>
      rw [h] at hok
      contradiction
  | ok cfg => rfl

def guardedRequest : ServerRequest where
  method := some .get
  path := str "/v2/eu/c/tags/list"
  query := none
  headers := [(str "host", .text (str "proxy.test"))]
  uriHost := none
  authorization := [Utf8.asBytes (str "Bearer sekrit")]

/-- The registry asks for a token, and the access token of the cloud is taken. -/
def guardedCalls : List (Call Op Ans) :=
  [⟨.liveToken (str "https|gcp|eu.gcr.io|p/c"), none⟩,
    ⟨.http ⟨.trusted, .get, ⟨str "https", [], none, some (.domain (str "eu.gcr.io")), none,
      str "/v2/p/c/tags/list", none, none⟩, []⟩,
      .ok ⟨401, [(str "www-authenticate",
        .text (str "Bearer realm=\"https://eu.gcr.io/token\""))], none, []⟩⟩,
    ⟨.gcpAccessToken, .ok (str "ya29")⟩]

/-- The client has presented the token of the server. -/
theorem guarded_calls_presented : ∃ field, guardedRequest.authorization = [field] ∧
    ∃ token ∈ guardedState.cfg.settings.auth.tokens, token ≠ [] ∧
      Presents (fun t => ∀ c ∈ t, isGraphic c = true) token field := by
  have hr : (Program.replay (serve guardedState asciiDecoder id plainValues ⟨[], []⟩
      base64Decode guardedRequest) guardedCalls).isSome = true := by decide +kernel
  obtain ⟨q, hq⟩ := follows_of_replay hr
  have hpublic : guardedState.cfg.settings.allowPublicPrivateUpstreams = false := by
    decide +kernel
  exact (cloud_credentials_guarded guardedConfig_parsed hpublic base64Decode_decodes hq
    (c := ⟨.gcpAccessToken, .ok (str "ya29")⟩) (by simp [guardedCalls]) (Or.inl rfl)).2

/-- A registry with a token endpoint next to it, and a cache that keeps all tokens. -/
def registryAnswer : (op : Op) → List (Str × Str) → Ans op × List (Str × Str)
  | .liveToken key, s => (s.lookup key, s)
  | .insertToken key token, s => ((), (key, token.token) :: s)
  | .http request, s =>
    if request.url.path = str "/token" then (.ok ⟨200, [], none, [.ok tokenBody]⟩, s)
    else if request.headers.contains (str "authorization") then (.ok ⟨200, [], none, []⟩, s)
    else (.ok ⟨401, [(str "www-authenticate",
      .text (str "Bearer realm=\"https://registry.example.com/token\""))], none, []⟩, s)
  | op, s => (someAnswer op, s)

def registryWorld : World Op Ans (List (Str × Str)) := fun op s r t => (r, t) = registryAnswer op s

theorem registryWorld_cache : TokenCache registryWorld fun s key t => (key, t) ∈ s where
  read := by
    intro key s t token h
    obtain ⟨hr, rfl⟩ := Prod.mk.inj h
    obtain ⟨l₁, l₂, hs, -⟩ := List.lookup_eq_some_iff.mp hr.symm
    rw [hs]
    simp
  kept := by
    intro op s r t key token h hheld
    have hsame : ∀ u : Ans op × List (Str × Str), u.2 = s → (r, t) = u → (key, token) ∈ s := by
      rintro u hu rfl
      rwa [← hu]
    cases op with
    | insertToken key' cached =>
        cases h
        rcases List.mem_cons.mp hheld with heq | hheld
        · cases heq
          exact Or.inr ⟨cached, rfl, rfl⟩
        · exact Or.inl hheld
    | http request =>
        left
        refine hsame _ ?_ h
        unfold registryAnswer
        dsimp only
        split_ifs <;> rfl
    | _ => exact Or.inl (hsame _ rfl h)

def tokenState : AppState :=
  {plainState with
    crates := tokenCrates
    cfg := {plainConfig with aliases := collect [(str "team",
      ⟨.oci (str "registry.example.com") (str "acme"), false, .none, false⟩)]}}

def tokenRequest : ServerRequest :=
  {guardedRequest with path := str "/v2/team/demo/tags/list", authorization := []}

def tokenProgram : Program Op Ans Response :=
  serve tokenState asciiDecoder id plainValues ⟨[], []⟩ base64Decode tokenRequest

def recordedAnswer (op : Op) (x : List (Str × Str) × Log) : Ans op × List (Str × Str) × Log :=
  ((registryAnswer op x.1).1, (registryAnswer op x.1).2,
    x.2 ++ [(tokenRequest, ⟨op, (registryAnswer op x.1).1⟩)])

theorem sent_token : (tokenProgram.exec recordedAnswer ([], [])).2.2.any (fun e =>
    e.1 == tokenRequest && match e.2.op with
      | .http request => request.headers.contains (str "authorization")
      | _ => false) = true := by decide +kernel

theorem recorded_reachable {p : Program Op Ans Response} (hp : p = tokenProgram) :
    Reachable (labelled registryWorld) (fun (req : ServerRequest) p =>
      p = serve tokenState asciiDecoder id plainValues ⟨[], []⟩ base64Decode req) ([], [])
      ((p.exec recordedAnswer ([], [])).2,
        [(tokenRequest, .pure (p.exec recordedAnswer ([], [])).1)]) := by
  have hstart : Reachable (labelled registryWorld) (fun (req : ServerRequest) p =>
      p = serve tokenState asciiDecoder id plainValues ⟨[], []⟩ base64Decode req) ([], [])
      (([], []), [(tokenRequest, p)]) := .step .start (.start hp)
  have hruns := @runs_trace Op Ans _ _ (labelled registryWorld tokenRequest) recordedAnswer
    (fun _ _ => ⟨rfl, rfl⟩) p ([], [])
  exact hstart.runs [] hruns

end Instances

end Helmoci.TokenOrigins
