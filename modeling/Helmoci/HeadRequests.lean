import Helmoci.HandlerFetches

/-!
# Requests for headers alone

A `HEAD` request is answered as a `GET` request of the same path, with the same calls and
without the content: the two programs go side by side. They part only where a manifest or
a blob is asked for from another registry, which is sent a `HEAD` request itself.
-/
namespace Helmoci.HeadRequests
open RustText UrlInterface NameResolver OciDigest OciPaths JsonDocuments JsonValues ServerErrors
  EffectPrograms ServerOperations UpstreamRequests ClassicUpstream RegistryTokens BlobStorage
  RegistryResponses ChartBuild ServerState ClassicHandler PassthroughHandler TagPages UpstreamPaths
  HandlerCalls HandlerFetches PullAuth Routes Router PlainCrates

section Responses
variable {state : AppState} {headOnly headOnly' : Bool}

/-- The same status and headers, and no content for a `HEAD` request. -/
structure SameHead (headOnly : Bool) (r r' : Response) : Prop where
  status : r'.status = r.status
  headers : r'.headers = r.headers
  empty : headOnly = true → r.status = 200 → r.body = []

theorem results_cases {A B : Type} {ρ : A → B → Prop} {x : Except AppError A}
    {y : Except AppError B} (h : Results ρ x y) :
    (∃ e, x = .error e ∧ y = .error e) ∨ ∃ a b, x = .ok a ∧ y = .ok b ∧ ρ a b := by
  cases x with
  | error e =>
      cases y with
      | error e' => exact Or.inl ⟨e, rfl, congrArg _ (Eq.symm h)⟩
      | ok b => exact h.elim
  | ok a =>
      cases y with
      | error e => exact h.elim
      | ok b => exact Or.inr ⟨a, b, rfl, rfl, h⟩

theorem sameHead_intoResponse (e : AppError) :
    SameHead headOnly (intoResponse e) (intoResponse e) := by
  refine ⟨rfl, rfl, ?_⟩
  intro _ hstatus
  cases e <;> simp [intoResponse, AppError.parts] at hstatus

theorem sameHead_contentResponse (contentType : Str) (digest : Digest) (size : ℕ)
    (body : List (Except AppError Bytes)) :
    SameHead headOnly (contentResponse contentType digest size body headOnly)
      (contentResponse contentType digest size body headOnly') := by
  unfold contentResponse
  cases base contentType digest size with
  | error e => exact sameHead_intoResponse e
  | ok headers =>
      refine ⟨rfl, rfl, ?_⟩
      rintro rfl _
      rfl

theorem digestManifest_alike (digest : Digest) (blob : Blob) (maxBytes : ℕ) :
    Results (SameHead headOnly) (digestManifestResponse state digest blob headOnly maxBytes)
      (digestManifestResponse state digest blob headOnly' maxBytes) := by
  unfold digestManifestResponse
  dsimp only
  split
  · rfl
  · split
    · rfl
    · rfl
    · split
      · rfl
      · exact sameHead_contentResponse ..

theorem cachedManifestResponse_alike (digest : Digest) (blob : Blob) (declared : Option Str) :
    Results (SameHead headOnly) (cachedManifestResponse state digest blob headOnly declared)
      (cachedManifestResponse state digest blob headOnly' declared) := by
  unfold cachedManifestResponse
  dsimp only
  split
  · rfl
  · split
    · rfl
    · split
      · rfl
      · exact sameHead_contentResponse ..

theorem cachedBlobResponse_alike (digest : Digest) (blob : Blob) :
    Option.Rel (SameHead headOnly) (cachedBlobResponse state digest blob headOnly)
      (cachedBlobResponse state digest blob headOnly') := by
  unfold cachedBlobResponse
  dsimp only
  split
  · exact .some (sameHead_contentResponse ..)
  · split
    · exact .none
    · split
      · exact .some (sameHead_contentResponse ..)
      · exact .none

theorem relayTags_alike (values : ValueCrate) (target : OciTarget) (response : HttpResponse) :
    Results (SameHead headOnly) (relayTags state values target headOnly response)
      (relayTags state values target headOnly' response) := by
  unfold relayTags
  cases readResponse response maxTagListBytes (str "tag list") with
  | error e => rfl
  | ok data =>
      dsimp only [bind, Except.bind]
      split
      · rfl
      · refine ⟨rfl, rfl, ?_⟩
        rintro rfl _
        rfl
      · rfl

end Responses

section Handlers
variable {stop : Op → Prop} {state : AppState} {headOnly headOnly' : Bool}

/-- What does not look at the method. -/
theorem alike_same {A : Type} (p : Server A) : Alike stop (Results Eq) p.run p.run :=
  .refl (Results.refl fun _ => rfl) _

theorem classicManifest_alike (proxyHost : Str) (chart : ClassicChart) (reference : Str) :
    Alike stop (Results (SameHead headOnly))
      (ClassicHandler.manifest state proxyHost chart reference headOnly).run
      (ClassicHandler.manifest state proxyHost chart reference headOnly').run := by
  have cached : ∀ (store : Storage) (scope : TagScope) (maxBytes : ℕ),
      Alike stop (Results (Option.Rel (SameHead headOnly)))
        (cachedTagManifest state store scope reference headOnly maxBytes).run
        (cachedTagManifest state store scope reference headOnly' maxBytes).run := by
    intro store scope maxBytes
    unfold cachedTagManifest
    refine Alike.tryBind (alike_same _) ?_
    rintro pointer _ rfl
    cases pointer with
    | none => exact .none
    | some pointer =>
        dsimp only
        split
        · exact Option.Rel.none
        · refine Alike.tryBind (alike_same _) ?_
          rintro blob _ rfl
          cases blob with
          | none => exact .none
          | some blob =>
              dsimp only
              split
              · exact Option.Rel.none
              · have hread := @digestManifest_alike state headOnly headOnly' pointer.digest blob
                  maxBytes
                rcases results_cases hread with ⟨e, hr, hr'⟩ | ⟨r, r', hr, hr', hsame⟩
                · rw [hr, hr']
                  -- a manifest that is not valid is built again, whatever the method
                  cases e with
                  | manifestUnknown message => exact Option.Rel.none
                  | _ => rfl
                · rw [hr, hr']
                  exact Option.Rel.some hsame
  unfold ClassicHandler.manifest
  split
  · refine Alike.tryBind (alike_same _) ?_
    rintro blob _ rfl
    cases blob with
    | none => rfl
    | some blob => exact digestManifest_alike ..
  · refine Alike.tryBind (cached _ _ _) ?_
    rintro found found' (hfound | _)
    · exact hfound
    · dsimp only
      unfold buildManifest
      refine Alike.tryBind (alike_same _) ?_
      rintro tgz _ rfl
      refine Alike.tryBind (alike_same _) ?_
      rintro built _ rfl
      refine Alike.tryBind (alike_same _) ?_
      rintro _ _ rfl
      refine Alike.tryBind (alike_same _) ?_
      rintro _ _ rfl
      exact sameHead_contentResponse ..

theorem classicBlob_alike (digestStr : Str) :
    Alike stop (Results (SameHead headOnly))
      (ClassicHandler.blob state digestStr headOnly).run
      (ClassicHandler.blob state digestStr headOnly').run := by
  unfold ClassicHandler.blob
  split
  · rfl
  · refine Alike.tryBind (alike_same _) ?_
    rintro blob _ rfl
    cases blob with
    | none => rfl
    | some blob => exact sameHead_contentResponse ..

theorem classicTags_alike (chart : ClassicChart) (query : Option Str) :
    Alike stop (Results (SameHead headOnly)) (tags state chart query headOnly).run
      (tags state chart query headOnly').run := by
  unfold tags
  refine Alike.tryBind (alike_same _) ?_
  rintro index _ rfl
  refine Alike.tryBind (alike_same _) ?_
  rintro page _ rfl
  refine ⟨rfl, rfl, ?_⟩
  rintro rfl _
  rfl

variable (hstop : ∀ key, stop (.liveToken key))
include hstop

/-- A registry is asked with the client's method, behind the same checks. -/
theorem sendToUpstream_alike {ρ : HttpResponse → HttpResponse → Prop} (target : OciTarget)
    (suffix : Str) (accept : Option Str) :
    Alike stop (Results ρ) (sendToUpstream state target headOnly suffix accept).run
      (sendToUpstream state target headOnly' suffix accept).run := by
  unfold sendToUpstream
  generalize (if headOnly then Method.head else .get) = method
  generalize (if headOnly' then Method.head else .get) = method'
  unfold sendUpstream
  split
  · rfl
  · refine Alike.tryBind (alike_same _) ?_
    rintro url _ rfl
    exact Or.inl (hstop _)

theorem passthroughManifest_alike (proxyHost : Str) (target : OciTarget) (reference : Str)
    (accept : Option Str) :
    Alike stop (Results (SameHead headOnly))
      (PassthroughHandler.manifest state proxyHost target reference headOnly accept).run
      (PassthroughHandler.manifest state proxyHost target reference headOnly' accept).run := by
  have content : ∀ digest blob declared, Alike stop (Results (Option.Rel (SameHead headOnly)))
      (do
        let r ← liftResult (cachedManifestResponse state digest blob headOnly declared)
        return some r : Server (Option Response)).run
      (do
        let r ← liftResult (cachedManifestResponse state digest blob headOnly' declared)
        return some r : Server (Option Response)).run := by
    intro digest blob declared
    refine Alike.tryBind (cachedManifestResponse_alike digest blob declared) ?_
    exact fun r r' hr => Option.Rel.some hr
  have cached : ∀ scope, Alike stop (Results (Option.Rel (SameHead headOnly)))
      (cachedManifest state scope reference headOnly accept).run
      (cachedManifest state scope reference headOnly' accept).run := by
    intro scope
    unfold cachedManifest
    split
    · refine Alike.tryBind (alike_same _) ?_
      rintro blob _ rfl
      cases blob with
      | none => exact .none
      | some blob => exact content ..
    · refine Alike.tryBind (alike_same _) ?_
      rintro pointer _ rfl
      cases pointer with
      | none => exact .none
      | some pointer =>
          dsimp only
          split
          · exact Option.Rel.none
          · split
            · exact Option.Rel.none
            · refine Alike.tryBind (alike_same _) ?_
              rintro blob _ rfl
              cases blob with
              | none => exact .none
              | some blob => exact content ..
  have upstream : Alike stop (Results (SameHead headOnly))
      (upstreamManifest state proxyHost target reference headOnly accept).run
      (upstreamManifest state proxyHost target reference headOnly' accept).run := by
    rw [upstreamManifest_eq, upstreamManifest_eq]
    exact Alike.tryBind (ρ := fun _ _ => False) (sendToUpstream_alike hstop ..)
      fun _ _ h => h.elim
  unfold PassthroughHandler.manifest
  split
  · refine Alike.tryBind (cached _) ?_
    rintro found found' (hfound | _)
    · exact hfound
    · exact upstream
  · exact upstream

theorem passthroughBlob_alike (target : OciTarget) (digestStr : Str) :
    Alike stop (Results (SameHead headOnly))
      (PassthroughHandler.blob state target digestStr headOnly).run
      (PassthroughHandler.blob state target digestStr headOnly').run := by
  unfold PassthroughHandler.blob
  split
  · rfl
  · rename_i digest _
    have cached : Alike stop (Results (Option.Rel (SameHead headOnly)))
        (cachedBlob state target digest headOnly).run
        (cachedBlob state target digest headOnly').run := by
      unfold cachedBlob
      split
      · refine Alike.tryBind (alike_same _) ?_
        rintro blob _ rfl
        cases blob with
        | none => exact .none
        | some blob => exact cachedBlobResponse_alike ..
      · exact Option.Rel.none
    refine Alike.tryBind cached ?_
    rintro found found' (hfound | _)
    · exact hfound
    · dsimp only
      rw [upstreamBlob_eq, upstreamBlob_eq]
      exact Alike.tryBind (ρ := fun _ _ => False) (sendToUpstream_alike hstop ..)
        fun _ _ h => h.elim

end Handlers

section Serving
variable {state : AppState} {decode : PathDecoder} {debug : Str → Str} {values : ValueCrate}
  {pages : Pages} {decodeBase64 : Str → Option Bytes}

/-- A manifest or a blob of another registry. -/
def relayed (state : AppState) (decode : PathDecoder) (req : ClientRequest) : Bool :=
  match req.resolved state decode, parseOciPath decode req.path with
  | some (.oci _), .manifest _ _ | some (.oci _), .blob _ _ => true
  | _, _ => false

/-- Such a request has got as far as the registry. -/
def Relays (state : AppState) (decode : PathDecoder) (req : ClientRequest) (op : Op) : Prop :=
  relayed state decode req = true ∧ reachesOut op = true

def SameAnswer (headOnly : Bool) : Answer → Answer → Prop
  | .response r, .response r' => SameHead headOnly r r'
  | .tagList target r, .tagList target' r' => target' = target ∧ r' = r
  | _, _ => False

theorem ociDispatch_alike (req : ClientRequest) (method method' : Method) :
    Alike (Relays state decode req) (Results (SameAnswer (method == .head)))
      (ociDispatch state decode debug {req with method := some method}).run
      (ociDispatch state decode debug {req with method := some method'}).run := by
  have answered : ∀ {p q : Server Response}, Alike (Relays state decode req)
      (Results (SameHead (method == .head))) p.run q.run →
      Alike (Relays state decode req) (Results (SameAnswer (method == .head)))
        (do return .response (← p) : Server Answer).run
        (do return .response (← q) : Server Answer).run :=
    fun h => Alike.tryBind h fun _ _ hr => hr
  unfold ociDispatch
  dsimp only
  split
  · refine ⟨rfl, rfl, ?_⟩
    intro _ hstatus
    contradiction
  · have hhost : ∀ m, proxyHostFrom {req with method := m} = proxyHostFrom req := fun _ => rfl
    rw [hhost (some method), hhost (some method')]
    cases proxyHostFrom req with
    | none => rfl
    | some proxyHost =>
        dsimp only
        cases hpath : parseOciPath decode req.path with
        | api => exact ⟨rfl, rfl, fun _ _ => rfl⟩
        | notFound => rfl
        | manifest name reference =>
            dsimp only
            unfold manifestEntry
            split
            · exact answered (classicManifest_alike ..)
            · rename_i target hname
              refine answered (passthroughManifest_alike ?_ ..)
              intro key
              refine ⟨?_, rfl⟩
              simp only [relayed, ClientRequest.resolved, hpath, routeName, Option.bind_some, hname]
            · rfl
        | blob name digest =>
            dsimp only
            unfold blobEntry
            split
            · exact answered (classicBlob_alike ..)
            · rename_i target hname
              refine answered (passthroughBlob_alike ?_ ..)
              intro key
              refine ⟨?_, rfl⟩
              simp only [relayed, ClientRequest.resolved, hpath, routeName, Option.bind_some, hname]
            · rfl
        | tags name =>
            dsimp only
            unfold tagsEntry
            split
            · exact answered (classicTags_alike ..)
            · refine Alike.tryBind (alike_same _) ?_
              rintro response _ rfl
              exact ⟨rfl, rfl⟩
            · rfl

theorem finish_alike {headOnly headOnly' : Bool} {x y : Except AppError Answer}
    (h : Results (SameAnswer headOnly) x y) :
    SameHead headOnly (toResponse (x.bind (Answer.finish state values headOnly)))
      (toResponse (y.bind (Answer.finish state values headOnly'))) := by
  rcases results_cases h with ⟨e, rfl, rfl⟩ | ⟨answer, answer', rfl, rfl, hanswer⟩
  · exact sameHead_intoResponse e
  cases answer with
  | response r =>
      cases answer' with
      | response r' => exact hanswer
      | tagList target r' => exact hanswer.elim
  | tagList target response =>
      cases answer' with
      | response r' => exact hanswer.elim
      | tagList target' response' =>
          obtain ⟨rfl, rfl⟩ := hanswer
          have hrelay := @relayTags_alike state headOnly headOnly' values target' response'
          change SameHead headOnly
            (toResponse (relayTags state values target' headOnly response'))
            (toResponse (relayTags state values target' headOnly' response'))
          rcases results_cases hrelay with ⟨e, hr, hr'⟩ | ⟨r, r', hr, hr', hsame⟩
          · rw [hr, hr']
            exact sameHead_intoResponse e
          · rw [hr, hr']
            exact hsame

theorem serve_alike (req : ServerRequest) (method method' : Method) :
    Alike (Relays state decode req.toClientRequest) (SameHead (method == .head))
      (serve state decode debug values pages decodeBase64 {req with method := some method})
      (serve state decode debug values pages decodeBase64 {req with method := some method'}) := by
  unfold serve
  have hsame : ∀ m, ServerRequest.pull {req with method := m} = req.pull := fun _ => rfl
  rw [hsame (some method), hsame (some method')]
  cases hpull : requirePullAuth decodeBase64 state.cfg.settings req.pull with
  | respond response =>
      obtain rfl := response_of_requirePullAuth hpull
      refine ⟨rfl, rfl, ?_⟩
      intro _ hstatus
      contradiction
  | run =>
      dsimp only
      unfold route
      dsimp only
      cases pages.route req.path with
      | some found =>
          refine ⟨rfl, rfl, ?_⟩
          intro hhead _
          rw [page, if_pos hhead]
      | none =>
          have hdispatch := @ociDispatch_alike state decode debug req.toClientRequest method method'
          exact hdispatch.bind fun x y h => finish_alike h

/-- Unless a registry is asked for its manifest or blob, a `HEAD` request is answered as a `GET`
request is, by the same calls, and a `GET` request as a `HEAD` request is but for its content. -/
theorem head_answers_as_get {req : ServerRequest} {method : Method}
    {cs : List (Call Op Ans)} {r : Response}
    (h : Follows (serve state decode debug values pages decodeBase64
      {req with method := some method}) cs (.pure r))
    (hstored : relayed state decode req.toClientRequest = true →
      ∀ c ∈ cs, reachesOut c.op = false) (method' : Method) :
    (method = .head → r.status = 200 → r.body = []) ∧ ∃ r',
      Follows (serve state decode debug values pages decodeBase64
        {req with method := some method'}) cs (.pure r') ∧
      r'.status = r.status ∧ r'.headers = r.headers := by
  have hlocal : ∀ c ∈ cs, ¬ Relays state decode req.toClientRequest c.op := by
    rintro c hc ⟨hrelayed, hreaches⟩
    rw [hstored hrelayed c hc] at hreaches
    contradiction
  obtain ⟨r', hr', hsame⟩ := (serve_alike req method method').follows h hlocal
  refine ⟨?_, r', hr', hsame.status, hsame.headers⟩
  rintro rfl hstatus
  exact hsame.empty rfl hstatus

end Serving

section Instances

def listRequest : ServerRequest :=
  ⟨⟨none, str "/v2/charts.example.com/demo/tags/list", none,
    [(str "host", .text (str "proxy.test"))], none⟩, []⟩

def demoAnswer : (op : Op) → Unit → Ans op × Unit
  | .http request, s => (demoUpstream request, s)
  | op, s => (someAnswer op, s)

def headProgram : Program Op Ans Response :=
  serve (demoState 1000) asciiDecoder id plainValues ⟨[], []⟩ (fun _ => none)
    {listRequest with method := some .head}

theorem head_status : (headProgram.exec demoAnswer ()).1.status = 200 := by decide +kernel

/-- The tags of a chart, without and with the list. -/
theorem demo_head : ∃ cs r r',
    Follows (serve (demoState 1000) asciiDecoder id plainValues ⟨[], []⟩ (fun _ => none)
      {listRequest with method := some .head}) cs (.pure r) ∧
    Follows (serve (demoState 1000) asciiDecoder id plainValues ⟨[], []⟩ (fun _ => none)
      {listRequest with method := some .get}) cs (.pure r') ∧
    r.body = [] ∧ r'.status = 200 ∧ r'.headers = r.headers := by
  have hruns : Runs (fun op s r t => (r, t) = demoAnswer op s) headProgram ()
      (headProgram.trace demoAnswer ()) (headProgram.exec demoAnswer ()).1
      (headProgram.exec demoAnswer ()).2 := runs_trace (fun _ _ => rfl) headProgram ()
  have hchart : relayed (demoState 1000) asciiDecoder listRequest.toClientRequest = false := by
    decide +kernel
  obtain ⟨hempty, r', hget, hstatus, hheaders⟩ := head_answers_as_get hruns.follows
    (fun h => absurd h (by rw [hchart]; decide)) .get
  exact ⟨_, _, r', hruns.follows, hget, hempty rfl head_status, hstatus.trans head_status, hheaders⟩

end Instances

end Helmoci.HeadRequests
