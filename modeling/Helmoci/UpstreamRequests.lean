import Helmoci.NameGrammar
import Helmoci.ServerOperations

/-!
# Requests to upstreams and their redirects

The HTTP clients follow no redirect themselves. `send` follows up to five, checks
each target against the URL that sent it there, and drops the credentials and the
trusted client as soon as a target has another origin. A hop says what one redirect
may do; the requests of a run form a chain of hops, and the policy is read off the
chain.
-/
namespace Helmoci.UpstreamRequests
open RustText UrlInterface NameGrammar ServerErrors EffectPrograms ServerOperations

def maxRedirects : ℕ := 5

section Redirects
variable (lib : UrlCrate)

def isPublicHttps (url : Url) : Bool :=
  url.scheme == str "https" && !url.hasUserinfo &&
    match url.host with
    | some (.domain host) => isPublicHostname lib host
    | _ => false

def validatePublicHttps (url : Url) : Except AppError Unit :=
  if isPublicHttps lib url then .ok ()
  else .error (.upstream (str "cross-origin upstream must be public HTTPS without userinfo"))

def redirectStatus (status : ℕ) : Bool := [301, 302, 303, 307, 308].contains status

/-- The headers that do not leave an origin. -/
def credentialHeaders : List Str :=
  [str "authorization", str "proxy-authorization", str "cookie"]

def stripCredentials (headers : HeaderMap) : HeaderMap :=
  credentialHeaders.foldl HeaderMap.remove headers

def redirectTarget (current : Url) (responseHeaders requestHeaders : HeaderMap)
    (client : InitialClient) : Except AppError (Url × HeaderMap × InitialClient) :=
  match responseHeaders.getAll (str "location") with
  | [] => .error (.upstream (str "upstream redirect had no Location header"))
  | _ :: _ :: _ => .error (.upstream (str "upstream redirect had repeated Location headers"))
  | [location] =>
    match location.toStr.bind (lib.join current) with
    | none => .error (.upstream (str "upstream redirect Location was malformed"))
    | some target =>
      if !target.isHttp then
        .error (.upstream (str "upstream redirect used an unsupported scheme"))
      else if target.hasUserinfo then
        .error (.upstream (str "upstream redirect contained userinfo"))
      else if current.scheme == str "https" && target.scheme != str "https" then
        .error (.upstream (str "upstream redirect attempted an HTTPS downgrade"))
      else if !current.sameOrigin lib target then do
        validatePublicHttps lib target
        return (target, stripCredentials requestHeaders, .publicOnly)
      else .ok (target, requestHeaders, client)

/-- One round of the loop, with the redirects that may still be followed. -/
def sendLoop (method : Method) (followRedirects : Bool) :
    ℕ → Url → HeaderMap → InitialClient → Server HttpResponse
  | remaining, url, headers, client => do
    match ← perform (.http ⟨client, method, url, headers⟩) with
    | .error e => throw (.upstream (str "upstream request failed: " ++ e))
    | .ok response =>
      if !followRedirects || !redirectStatus response.status then return response
      else
        match remaining with
        | 0 => throw (.upstream (str "upstream redirect limit exceeded"))
        | remaining + 1 =>
          match redirectTarget lib url response.headers headers client with
          | .error e => throw e
          | .ok (url, headers, client) =>
            sendLoop method followRedirects remaining url headers client

def send (method : Method) (url : Url) (headers : HeaderMap) (client : InitialClient)
    (followRedirects : Bool) : Server HttpResponse := do
  if client = .publicOnly then liftResult (validatePublicHttps lib url)
  sendLoop lib method followRedirects maxRedirects url headers client

end Redirects

section Bodies
variable {E : Type} (maxBytes : ℕ) (mapError : E → AppError)

/-- The bytes of the chunks so far, and the chunks to come. -/
def readChunks : Bytes → List (Except E Bytes) → Except AppError Bytes
  | bytes, [] => .ok bytes
  | _, .error e :: _ => .error (mapError e)
  | bytes, .ok chunk :: chunks =>
    if maxBytes < bytes.length + chunk.length then
      .error (.tooLarge (str "response exceeds size limit (" ++ (decimal maxBytes ++ str " bytes)")))
    else readChunks (bytes ++ chunk) chunks

def readBounded (advertisedSize : Option ℕ) (data : List (Except E Bytes)) :
    Except AppError Bytes :=
  if advertisedSize.any (maxBytes < ·) then
    .error (.tooLarge (str "upstream response exceeds size limit (" ++
      (decimal maxBytes ++ str " bytes)")))
  else readChunks maxBytes mapError [] data

theorem readChunks_length {bytes b : Bytes} {data : List (Except E Bytes)}
    (hb : bytes.length ≤ maxBytes) (h : readChunks maxBytes mapError bytes data = .ok b) :
    b.length ≤ maxBytes := by
  induction data generalizing bytes with
  | nil =>
      cases h
      exact hb
  | cons chunk data ih =>
      cases chunk with
      | error e => contradiction
      | ok chunk =>
          unfold readChunks at h
          split at h
          · contradiction
          · rename_i hl
            exact ih (by simpa using Nat.not_lt.mp hl) h

theorem readBounded_length {size : Option ℕ} {data : List (Except E Bytes)} {b : Bytes}
    (h : readBounded maxBytes mapError size data = .ok b) : b.length ≤ maxBytes := by
  unfold readBounded at h
  split at h
  · contradiction
  · exact readChunks_length maxBytes mapError (Nat.zero_le _) h

end Bodies

def readResponse (response : HttpResponse) (maxBytes : ℕ) (resource : Str) :
    Except AppError Bytes :=
  readBounded maxBytes
    (fun e : Str => .upstream (str "reading upstream " ++ (resource ++ (str " failed: " ++ e))))
    response.contentLength response.chunks

/-- The bytes that a response delivers. -/
def responseBytes (response : HttpResponse) : Bytes :=
  (response.chunks.filterMap Except.toOption).flatten

theorem readChunks_eq_ok {E : Type} {maxBytes : ℕ} {mapError : E → AppError} {bytes b : Bytes}
    {data : List (Except E Bytes)} (h : readChunks maxBytes mapError bytes data = .ok b) :
    b = bytes ++ (data.filterMap Except.toOption).flatten := by
  induction data generalizing bytes with
  | nil =>
      cases h
      simp
  | cons chunk data ih =>
      cases chunk with
      | error e => contradiction
      | ok chunk =>
          unfold readChunks at h
          split at h
          · contradiction
          · rw [ih h]
            simp [Except.toOption]

theorem readResponse_eq_ok {response : HttpResponse} {maxBytes : ℕ} {resource : Str} {b : Bytes}
    (h : readResponse response maxBytes resource = .ok b) : b = responseBytes response := by
  unfold readResponse readBounded at h
  split at h
  · contradiction
  · exact readChunks_eq_ok h

/-- The requests among the calls, in order. -/
def requests (cs : List (Call Op Ans)) : List HttpRequest :=
  cs.filterMap fun c => match c.op with
    | .http request => some request
    | _ => none

@[simp] theorem requests_http (request : HttpRequest) (r : Except Str HttpResponse)
    (cs : List (Call Op Ans)) : requests (⟨.http request, r⟩ :: cs) = request :: requests cs := rfl

theorem mem_requests {cs : List (Call Op Ans)} {request : HttpRequest} (h : request ∈ requests cs) :
    ∃ c ∈ cs, c.op = .http request := by
  obtain ⟨c, hc, hr⟩ := List.mem_filterMap.mp h
  refine ⟨c, hc, ?_⟩
  split at hr <;> simp_all

theorem ensures_requests {A : Type} {I : HttpRequest → Prop} {Q : A → Prop}
    {p q : Program Op Ans A} {cs : List (Call Op Ans)} (h : Ensures Anything (OnHttp I) Q p)
    (hf : Follows p cs q) : ∀ r ∈ requests cs, I r := by
  intro r hr
  obtain ⟨c, hc, hop⟩ := mem_requests hr
  have hi := (h.follows hf).1 c hc
  rwa [hop] at hi

/-- The client adds the header for a URL with userinfo as well. -/
def carriesAuthorization (request : HttpRequest) : Bool :=
  request.headers.contains (str "authorization") || request.url.hasUserinfo

/-- No credentials, no userinfo and no trusted client. -/
structure Stripped (request : HttpRequest) : Prop where
  client : request.client = .publicOnly
  headers : ∀ name ∈ credentialHeaders, request.headers.contains name = false
  userinfo : request.url.hasUserinfo = false

theorem stripCredentials_contains {headers : HeaderMap} {name : Str} (h : name ∈ credentialHeaders) :
    (stripCredentials headers).contains name = false := by
  simp only [stripCredentials, credentialHeaders, List.foldl_cons, List.foldl_nil,
    HeaderMap.contains_remove]
  rcases List.mem_cons.mp h with rfl | h
  · simp
  · rcases List.mem_cons.mp h with rfl | h
    · simp
    · simp [List.mem_singleton.mp h]

section Policy
variable (lib : UrlCrate)

/-- What one redirect may do to a request. -/
structure Hop (a b : HttpRequest) : Prop where
  isHttp : b.url.isHttp = true
  userinfo : b.url.hasUserinfo = false
  noDowngrade : a.url.scheme = str "https" → b.url.scheme = str "https"
  kept : a.url.sameOrigin lib b.url = true → b.client = a.client ∧ b.headers = a.headers
  left : a.url.sameOrigin lib b.url = false → isPublicHttps lib b.url = true ∧ Stripped b

variable {lib}

/-- The answer to `a` redirects, and `b` is the request that follows it. -/
def RedirectsTo (lib : UrlCrate) (a : HttpRequest) (r : Except Str HttpResponse)
    (b : HttpRequest) : Prop :=
  ∃ response, r = .ok response ∧ redirectStatus response.status = true ∧ b.method = a.method ∧
    redirectTarget lib a.url response.headers a.headers a.client = .ok (b.url, b.headers, b.client)

theorem hop_of_redirectTarget {method : Method} {url url' : Url} {headers headers' : HeaderMap}
    {client client' : InitialClient} {response : HeaderMap}
    (h : redirectTarget lib url response headers client = .ok (url', headers', client')) :
    Hop lib ⟨client, method, url, headers⟩ ⟨client', method, url', headers'⟩ := by
  unfold redirectTarget at h
  split at h
  · contradiction
  · contradiction
  · split at h
    · contradiction
    · split at h
      · contradiction
      · rename_i hhttp
        split at h
        · contradiction
        · rename_i huser
          split at h
          · contradiction
          · rename_i hdown
            simp only [Bool.not_eq_true, Bool.not_eq_false'] at hhttp huser
            simp only [Bool.and_eq_true, beq_iff_eq, bne_iff_ne, not_and, not_not] at hdown
            split at h
            · rename_i ho
              simp only [Bool.not_eq_true'] at ho
              unfold validatePublicHttps at h
              split at h
              · rename_i hp
                cases h
                have hs : Stripped ⟨.publicOnly, method, url', stripCredentials headers⟩ :=
                  ⟨rfl, fun _ => stripCredentials_contains, huser⟩
                exact ⟨by simpa using hhttp, huser, hdown, fun hsame => by simp [ho] at hsame,
                  fun _ => ⟨hp, hs⟩⟩
              · contradiction
            · rename_i ho
              cases h
              simp only [Bool.not_eq_true', Bool.not_eq_false] at ho
              exact ⟨by simpa using hhttp, huser, hdown, fun _ => ⟨rfl, rfl⟩,
                fun hleft => by simp [ho] at hleft⟩

theorem RedirectsTo.hop {a b : HttpRequest} {r : Except Str HttpResponse}
    (h : RedirectsTo lib a r b) : Hop lib a b := by
  obtain ⟨client, method, url, headers⟩ := a
  obtain ⟨client', method', url', headers'⟩ := b
  obtain ⟨response, -, -, rfl, htarget⟩ := h
  exact hop_of_redirectTarget htarget

section Loop
variable {method : Method} {follow : Bool} {n : ℕ} {url : Url} {headers : HeaderMap}
  {client : InitialClient}

/-- A round makes one request and ends, with its answer if at all, or follows a redirect. -/
theorem sendLoop_cases (lib : UrlCrate) (method : Method) (follow : Bool) (n : ℕ) (url : Url)
    (headers : HeaderMap) (client : InitialClient) : ∃ next,
      sendLoop lib method follow n url headers client =
        (Program.call (.http ⟨client, method, url, headers⟩) next :
          Program Op Ans (Except AppError HttpResponse)) ∧
      ∀ r, (∃ result, next r = .pure result ∧ ∀ response, result = .ok response → r = .ok response) ∨
        ∃ m client' url' headers', n = m + 1 ∧
          RedirectsTo lib ⟨client, method, url, headers⟩ r ⟨client', method, url', headers'⟩ ∧
          next r = sendLoop lib method follow m url' headers' client' := by
  have failed : ∀ e : AppError, ∀ r : Except Str HttpResponse, ∀ response,
      (Except.error e : Except AppError HttpResponse) = .ok response → r = .ok response := by
    intro e r response h
    contradiction
  have ended : ∀ last response : HttpResponse, (Except.ok last : Except AppError HttpResponse) =
      .ok response → (Except.ok last : Except Str HttpResponse) = .ok response := by
    intro last response h
    rw [Except.ok.inj h]
  cases n with
  | zero =>
      refine ⟨_, by unfold sendLoop; exact perform_bind _ _, ?_⟩
      intro r
      cases r with
      | error e => exact Or.inl ⟨_, rfl, failed _ _⟩
      | ok response =>
          cases hs : !follow || !redirectStatus response.status with
          | true => exact Or.inl ⟨.ok response, by simp [hs]; rfl, ended response⟩
          | false => exact Or.inl ⟨_, by simp [hs]; rfl, failed _ _⟩
  | succ m =>
      refine ⟨_, by unfold sendLoop; exact perform_bind _ _, ?_⟩
      intro r
      cases r with
      | error e => exact Or.inl ⟨_, rfl, failed _ _⟩
      | ok response =>
          cases hs : !follow || !redirectStatus response.status with
          | true => exact Or.inl ⟨.ok response, by simp [hs]; rfl, ended response⟩
          | false =>
              cases ht : redirectTarget lib url response.headers headers client with
              | error e => exact Or.inl ⟨.error e, by simp [hs, ht]; rfl, failed _ _⟩
              | ok target =>
                  obtain ⟨url', headers', client'⟩ := target
                  have hstatus : redirectStatus response.status = true := by
                    simpa using (Bool.or_eq_false_iff.mp hs).2
                  refine Or.inr ⟨m, client', url', headers', rfl, ⟨response, rfl, hstatus, rfl, ht⟩, ?_⟩
                  simp [hs, ht]

/-- An answer to some request. -/
def AnswersHttp (R : (op : Op) → Ans op → Prop) (response : HttpResponse) : Prop :=
  ∃ request : HttpRequest, R (.http request) (Except.ok response : Except Str HttpResponse)

theorem ensures_ended {R : (op : Op) → Ans op → Prop} {P : Op → Prop} {request : HttpRequest}
    {r : Except Str HttpResponse} {result : Except AppError HttpResponse}
    (hr : R (.http request) r) (h : ∀ response, result = .ok response → r = .ok response) :
    Ensures R P (OnOk (AnswersHttp R))
      (.pure result : Program Op Ans (Except AppError HttpResponse)) := by
  cases result with
  | error e => trivial
  | ok response =>
      rw [h response rfl] at hr
      exact ⟨request, hr⟩

/-- A property of requests that every hop keeps holds of all requests of the loop, and what
it returns is an answer. -/
theorem sendLoop_ensures {R : (op : Op) → Ans op → Prop} {I : HttpRequest → Prop}
    (hop : ∀ a b, Hop lib a b → I a → I b) (h : I ⟨client, method, url, headers⟩) :
    Ensures R (OnlyHttp I) (OnOk (AnswersHttp R))
      (sendLoop lib method follow n url headers client) := by
  induction n generalizing url headers client with
  | zero =>
      obtain ⟨next, hl, hn⟩ := sendLoop_cases lib method follow 0 url headers client
      rw [hl]
      refine ⟨h, ?_⟩
      intro r hr
      rcases hn r with ⟨result, hnext, hresult⟩ | ⟨m, client', url', headers', hm, hh, hnext⟩
      · rw [hnext]
        exact ensures_ended hr hresult
      · contradiction
  | succ n ih =>
      obtain ⟨next, hl, hn⟩ := sendLoop_cases lib method follow (n + 1) url headers client
      rw [hl]
      refine ⟨h, ?_⟩
      intro r hr
      rcases hn r with ⟨result, hnext, hresult⟩ | ⟨m, client', url', headers', hm, hh, hnext⟩
      · rw [hnext]
        exact ensures_ended hr hresult
      · cases hm
        rw [hnext]
        exact ih (hop _ _ hh.hop h)

/-- The requests of the loop are a chain of hops from the first one. -/
theorem sendLoop_requests {cs : List (Call Op Ans)}
    {q : Program Op Ans (Except AppError HttpResponse)}
    (h : Follows (sendLoop lib method follow n url headers client) cs q) :
    ∃ rest, (⟨client, method, url, headers⟩ :: rest).IsChain (Hop lib) ∧ rest.length ≤ n ∧
      requests cs <+: ⟨client, method, url, headers⟩ :: rest := by
  induction cs generalizing n url headers client with
  | nil => exact ⟨[], .singleton _, Nat.zero_le _, List.nil_prefix⟩
  | cons c cs ih =>
      obtain ⟨next, hl, hn⟩ := sendLoop_cases lib method follow n url headers client
      rw [hl] at h
      cases h with
      | call h =>
          rename_i r
          rcases hn r with ⟨result, hr, -⟩ | ⟨m, client', url', headers', rfl, hh, hr⟩
          · rw [hr] at h
            obtain ⟨rfl, -⟩ := follows_pure_iff.mp h
            exact ⟨[], .singleton _, Nat.zero_le _, List.prefix_rfl⟩
          · rw [hr] at h
            obtain ⟨rest, hc, hlen, hp⟩ := ih h
            refine ⟨_ :: rest, .cons_cons hh.hop hc, Nat.succ_le_succ hlen, ?_⟩
            exact (List.prefix_cons_inj _).mpr hp

end Loop

/-- A request goes to a public host or, with the client that the first one had, stays on
the origin of the first one. -/
def Confined (lib : UrlCrate) (client : InitialClient) (url : Url) (r : HttpRequest) : Prop :=
  if r.client = .publicOnly then isPublicHttps lib r.url = true
  else r.client = client ∧ (r.url = url ∨ url.sameOrigin lib r.url = true)

theorem isPublicHttps_congr {a b : Url} (ha : isPublicHttps lib a = true)
    (hb : b.isHttp = true) (hu : b.hasUserinfo = false) (h : a.sameOrigin lib b = true) :
    isPublicHttps lib b = true := by
  have hhttp : a.isHttp = true := by
    simp only [isPublicHttps, Bool.and_eq_true] at ha
    simp [Url.isHttp, ha.1.1]
  obtain ⟨hs, hh, -⟩ := (Url.sameOrigin_iff lib hhttp hb).mp h
  simp only [isPublicHttps, Bool.and_eq_true] at ha ⊢
  rw [← hs, ← hh, hu]
  exact ⟨⟨ha.1.1, rfl⟩, ha.2⟩

theorem Hop.confined {client : InitialClient} {url : Url} {a b : HttpRequest} (h : Hop lib a b)
    (ha : Confined lib client url a) : Confined lib client url b := by
  unfold Confined at ha ⊢
  cases hs : a.url.sameOrigin lib b.url with
  | false =>
      obtain ⟨hp, hstripped⟩ := h.left hs
      rw [if_pos hstripped.client]
      exact hp
  | true =>
      have hk := (h.kept hs).1
      rw [hk]
      split
      · rename_i hc
        rw [if_pos hc] at ha
        exact isPublicHttps_congr ha h.isHttp h.userinfo hs
      · rename_i hc
        rw [if_neg hc] at ha
        obtain ⟨hc, ha⟩ := ha
        refine ⟨hc, Or.inr ?_⟩
        rcases ha with rfl | ha
        · exact hs
        · exact Url.sameOrigin_trans ha hs

theorem Hop.stripped {a b : HttpRequest} (h : Hop lib a b) (ha : Stripped a) : Stripped b := by
  cases hs : a.url.sameOrigin lib b.url with
  | false => exact (h.left hs).2
  | true =>
      obtain ⟨hc, hh⟩ := h.kept hs
      exact ⟨hc.trans ha.client, by rw [hh]; exact ha.headers, h.userinfo⟩

/-- A property that every hop keeps is kept from each request to every later one. -/
theorem pairwise_of_chain {I : HttpRequest → Prop} (hop : ∀ a b, Hop lib a b → I a → I b)
    {reqs : List HttpRequest} (h : reqs.IsChain (Hop lib)) : reqs.Pairwise fun a b => I a → I b := by
  have htrans : Trans (fun a b => I a → I b) (fun a b => I a → I b) (fun a b => I a → I b) :=
    ⟨fun hab hbc ha => hbc (hab ha)⟩
  exact (h.imp hop).pairwise

/-- The policy on redirects, over the requests of one `send`. -/
structure RedirectPolicy (lib : UrlCrate) (url : Url) (reqs : List HttpRequest) : Prop where
  atMostSix : reqs.length ≤ 6
  publicOnly : ∀ r ∈ reqs, r.client = .publicOnly → validatePublicHttps lib r.url = .ok ()
  trusted : ∀ r ∈ reqs, r.client ≠ .publicOnly → r.url = url ∨ url.sameOrigin lib r.url = true
  noDowngrade : reqs.Pairwise fun a b => a.url.scheme = str "https" → b.url.scheme = str "https"
  stripped : ∀ pre a b post, reqs = pre ++ a :: b :: post → a.url.sameOrigin lib b.url = false →
    ∀ r ∈ b :: post, Stripped r

theorem validatePublicHttps_iff {url : Url} :
    validatePublicHttps lib url = .ok () ↔ isPublicHttps lib url = true := by
  unfold validatePublicHttps
  split <;> simp_all

theorem RedirectPolicy.nil (lib : UrlCrate) (url : Url) : RedirectPolicy lib url [] :=
  ⟨by simp, by simp, by simp, by simp, by simp⟩

theorem RedirectPolicy.of_chain {client : InitialClient} {url : Url} {first : HttpRequest}
    {rest : List HttpRequest} (hc : (first :: rest).IsChain (Hop lib))
    (hl : rest.length ≤ maxRedirects) (hf : Confined lib client url first) :
    RedirectPolicy lib url (first :: rest) := by
  have hall : ∀ r ∈ first :: rest, Confined lib client url r := by
    have hp := pairwise_of_chain (I := Confined lib client url) (fun a b h => h.confined) hc
    intro r hr
    rcases List.mem_cons.mp hr with rfl | hr
    · exact hf
    · exact (List.pairwise_cons.mp hp).1 r hr hf
  refine ⟨Nat.succ_le_succ hl, ?_, ?_, ?_, ?_⟩
  · intro r hr hclient
    have hconf := hall r hr
    rw [Confined, if_pos hclient] at hconf
    exact validatePublicHttps_iff.mpr hconf
  · intro r hr hclient
    have hconf := hall r hr
    rw [Confined, if_neg hclient] at hconf
    exact hconf.2
  · exact pairwise_of_chain (I := fun r => r.url.scheme = str "https") (fun a b h => h.noDowngrade) hc
  · intro pre a b post hreqs ho
    rw [hreqs] at hc
    have hab := (List.isChain_append.mp hc).2.1
    have hb : Stripped b := ((List.isChain_cons_cons.mp hab).1.left ho).2
    have hp := pairwise_of_chain (I := Stripped) (fun a b h => h.stripped)
      (List.isChain_cons_cons.mp hab).2
    intro r hr
    rcases List.mem_cons.mp hr with rfl | hr
    · exact hb
    · exact (List.pairwise_cons.mp hp).1 r hr hb

/-- Fewer requests keep the policy. -/
theorem RedirectPolicy.of_fewer {url : Url} {reqs some : List HttpRequest}
    (h : RedirectPolicy lib url reqs) (hp : some <+: reqs) : RedirectPolicy lib url some := by
  refine ⟨hp.length_le.trans h.atMostSix, ?_, ?_, h.noDowngrade.sublist hp.sublist, ?_⟩
  · intro r hr
    exact h.publicOnly r (hp.mem hr)
  · intro r hr
    exact h.trusted r (hp.mem hr)
  · obtain ⟨rest, rfl⟩ := hp
    intro pre a b post heq ho r hr
    refine h.stripped pre a b (post ++ rest) (by simp [heq]) ho r ?_
    exact List.mem_append_left rest hr

/-- Every request of `send`, for callers that look at one request at a time. -/
theorem send_ensures {R : (op : Op) → Ans op → Prop} (method : Method) (url : Url)
    (headers : HeaderMap) (client : InitialClient) (follow : Bool) :
    Ensures R (OnlyHttp (Confined lib client url)) (OnOk (AnswersHttp R))
      (send lib method url headers client follow) := by
  have loop : Confined lib client url ⟨client, method, url, headers⟩ →
      Ensures R (OnlyHttp (Confined lib client url)) (OnOk (AnswersHttp R))
        (sendLoop lib method follow maxRedirects url headers client) :=
    sendLoop_ensures fun a b h => h.confined
  unfold send
  by_cases hclient : client = .publicOnly
  · rw [if_pos hclient]
    refine ensures_bind (ensures_liftResult (Q := fun _ => isPublicHttps lib url = true) ?_) ?_
    · intro _ hv
      exact validatePublicHttps_iff.mp hv
    · intro _ hv
      exact loop (by rwa [Confined, if_pos hclient])
  · rw [if_neg hclient]
    exact loop (by simp [Confined, hclient])

/-- Requests and tokens, and nothing that is kept in a store or among the indexes. -/
def RegistryOp : Op → Prop
  | .http _ | .liveToken _ | .insertToken .. | .gcpAccessToken => True
  | _ => False

theorem send_registryOp {R : (op : Op) → Ans op → Prop} (method : Method) (url : Url)
    (headers : HeaderMap) (client : InitialClient) (follow : Bool) :
    Ensures R RegistryOp (OnOk (AnswersHttp R)) (send lib method url headers client follow) := by
  apply (send_ensures method url headers client follow).conseq
  · intro op hop
    cases op with
    | http r => trivial
    | _ => exact hop.elim
  · exact fun _ h => h

/-- Every run of `send`, ended or not, keeps the policy. -/
theorem send_policy {method : Method} {url : Url} {headers : HeaderMap} {client : InitialClient}
    {follow : Bool} {cs : List (Call Op Ans)} {q : Program Op Ans (Except AppError HttpResponse)}
    (h : Follows (send lib method url headers client follow) cs q) :
    RedirectPolicy lib url (requests cs) := by
  have loop : Confined lib client url ⟨client, method, url, headers⟩ →
      Follows (sendLoop lib method follow maxRedirects url headers client) cs q →
      RedirectPolicy lib url (requests cs) := by
    intro hf hloop
    obtain ⟨rest, hc, hl, hp⟩ := sendLoop_requests hloop
    exact (RedirectPolicy.of_chain hc hl hf).of_fewer hp
  by_cases hclient : client = .publicOnly
  · subst hclient
    by_cases hv : isPublicHttps lib url = true
    · refine loop (by simpa [Confined] using hv) ?_
      simpa [send, validatePublicHttps, hv] using h
    · have hq : Follows (liftResult (.error (.upstream
          (str "cross-origin upstream must be public HTTPS without userinfo")))) cs q := by
        simpa [send, validatePublicHttps, hv] using h
      obtain ⟨rfl, -⟩ := follows_pure_iff.mp hq
      exact .nil lib url
  · refine loop (by simp [Confined, hclient]) ?_
    simpa [send, hclient] using h

end Policy

end Helmoci.UpstreamRequests
