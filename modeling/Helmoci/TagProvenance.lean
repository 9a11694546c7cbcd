import Helmoci.CallRecords
import Helmoci.PlainCrates
import Helmoci.Routes

/-!
# Where tag pointers come from

The calls of all requests are recorded. Host, name and tag are read off the key of a
pointer, so a pointer that a request finds was kept by a request for the same three. The
indexes are kept apart by the trust in their upstream. So what a client's own host and
path is answered from was fetched for such a host and path, with the public client.
-/
namespace Helmoci.TagProvenance
open RustText OciDigest OciPaths NameResolver ProxyHosts ServerErrors EffectPrograms
  InterleavedPrograms CallRecords ServerOperations UpstreamRequests ClassicUpstream RegistryTokens
  BlobStorage ChartBuild JsonDocuments ServerState ClassicHandler StorageKeys UpstreamPaths
  StoredEntries HandlerCalls Routes PlainCrates

abbrev Log := List (ClientRequest × Call Op Ans)

/-- A tag pointer: what the two stores hold that is no blob. -/
def IsPointer : Entry → Prop
  | .object key _ | .cached key _ => ∀ digest, key ≠ blobKey digest
  | .index _ _ => False

section Definitions
variable (state : AppState) (decode : PathDecoder)

/-- An answer to a request, from the client that may be sent to any public host. -/
def FetchedPublicly (log : Log) (req : ClientRequest) (response : HttpResponse) : Prop :=
  ∃ request, (req, ⟨.http request, .ok response⟩) ∈ log ∧ request.client = .publicOnly

/-- A request for a chart on a host and path that the client names. -/
def HostPath (req : ClientRequest) : Prop :=
  ∃ chart, req.resolved state decode = some (.classic chart) ∧ chart.source = .hostPath

/-- The pointer was kept by a request for the same host, name and tag. For a chart it is
the pointer of an artifact that was built for this host from an answer to that request. -/
def SameTag (before : Log) (req : ClientRequest) (e : Entry) : Prop :=
  ∃ scope tag writer c, req.tag decode = some (scope, tag) ∧ e.key = tagKey scope tag ∧
    (writer, c) ∈ before ∧ stored c.op = some e ∧ writer.tag decode = some (scope, tag) ∧
    ∀ chart, req.resolved state decode = some (.classic chart) →
      writer.resolved state decode = some (.classic chart) ∧
      ∃ response built, AnswersHttp (answered before writer) response ∧
        buildChart state scope.proxyHost (responseBytes response) = .ok built ∧
        e.data = encodePointer built.pointer

/-- What is asked for, and found in place of it, on behalf of a client's own host and path. -/
structure PublicSources (before : Log) (c : Call Op Ans) : Prop where
  requests : ∀ request, c.op = .http request → request.client = .publicOnly
  index : ∀ key text, found c = some (.index key text) → ∃ writer response,
    HostPath state decode writer ∧ FetchedPublicly before writer response ∧
      Utf8.fromUtf8 (responseBytes response) = some text
  pointer : ∀ e, found c = some e → IsPointer e → ∃ writer response proxyHost built,
    HostPath state decode writer ∧ FetchedPublicly before writer response ∧
      buildChart state proxyHost (responseBytes response) = .ok built ∧
      e.data = encodePointer built.pointer

end Definitions

section Keys
variable {decode : PathDecoder} {req : ClientRequest} {scope : TagScope} {tag : Str}

theorem tag_eq_some (h : req.tag decode = some (scope, tag)) :
    proxyHostFrom req = some scope.proxyHost ∧
      parseOciPath decode req.path = .manifest scope.fullName tag := by
  unfold ClientRequest.tag at h
  split at h
  · rename_i proxyHost name reference hhost hpath
    split at h
    · cases h
      exact ⟨hhost, hpath⟩
    · contradiction
  · contradiction

theorem tag_segments (h : req.tag decode = some (scope, tag)) :
    '/' ∉ scope.proxyHost ∧ '/' ∉ tag ∧ tag ≠ [] := by
  obtain ⟨hhost, hpath⟩ := tag_eq_some h
  obtain ⟨candidate, -, hn⟩ := Option.bind_eq_some_iff.mp hhost
  have hvalid := isValid_of_parseOciPath hpath
  refine ⟨(validPathSegment_of_normalizeProxyHost hn).2,
    slash_not_mem_of_isValidManifestReference hvalid, ?_⟩
  rintro rfl
  exact absurd hvalid (by decide)

/-- Host, name and tag of requests that are let through are read off the key. -/
theorem tag_of_tagKey {req' : ClientRequest} {scope' : TagScope} {tag' : Str}
    (h : req.tag decode = some (scope, tag)) (h' : req'.tag decode = some (scope', tag'))
    (hk : tagKey scope tag = tagKey scope' tag') : scope = scope' ∧ tag = tag' :=
  tagKey_inj (tag_segments h).1 (tag_segments h').1 (tag_segments h).2.1 (tag_segments h').2.1 hk

variable {state : AppState} {R : (op : Op) → Ans op → Prop} {path : Str}

theorem tagKey_of_tagPath (h : (requestPermit state decode R req).tagPath path) :
    ∃ scope tag, req.tag decode = some (scope, tag) ∧ path = tagKey scope tag := by
  obtain ⟨scope, tag, htag, hp⟩ := h
  obtain ⟨-, hslash, hne⟩ := tag_segments htag
  rw [parsePath_tagKey_eq hne hslash] at hp
  split at hp
  · exact ⟨scope, tag, htag, (Option.some.inj hp).symm⟩
  · contradiction

/-- A pointer that a request finds is under the key of its own tag. -/
theorem key_of_found {c : Call Op Ans} {e : Entry}
    (h : (requestPermit state decode R req).allows c.op) (hf : found c = some e)
    (he : IsPointer e) : ∃ scope tag, req.tag decode = some (scope, tag) ∧ e.key = tagKey scope tag := by
  obtain ⟨op, r⟩ := c
  cases op with
  | get path =>
      cases r with
      | error _ => contradiction
      | ok result =>
          obtain ⟨chunks, -, rfl⟩ := Option.map_eq_some_iff.mp hf
          rcases h with ⟨digest, hd⟩ | h
          · exact absurd hd (he digest)
          · exact tagKey_of_tagPath h
  | cacheGet key =>
      cases r with
      | none => contradiction
      | some entry =>
          cases hf
          rcases h with ⟨digest, hd⟩ | h
          · exact absurd hd (he digest)
          · exact h
  | indexGet key =>
      cases r with
      | none => contradiction
      | some text =>
          cases hf
          exact he.elim
  | _ => contradiction

/-- A pointer that a request keeps is under the key of its own tag. -/
theorem pointer_of_stored {op : Op} {e : Entry} (h : (requestPermit state decode R req).allows op)
    (hs : stored op = some e) (he : IsPointer e) :
    (∃ scope tag, req.tag decode = some (scope, tag) ∧ e.key = tagKey scope tag) ∧
      (requestPermit state decode R req).pointerData e.data := by
  cases op with
  | put path data attributes mode =>
      cases hs
      rcases h with ⟨digest, hd, -⟩ | ⟨h, hpointer⟩
      · exact absurd hd (he digest)
      · exact ⟨tagKey_of_tagPath h, hpointer⟩
  | cacheOrInsert key entry =>
      cases hs
      obtain ⟨digest, hd, -⟩ := h
      exact absurd hd (he digest)
  | cacheInsert key entry =>
      cases hs
      exact h
  | indexInsert key text =>
      cases hs
      exact he.elim
  | _ => contradiction

theorem source_of_indexCacheKey {lib : UrlInterface.UrlCrate} {sha256 : Bytes → Digest}
    {url url' : UrlInterface.Url} {source source' : ClassicSource}
    (h : indexCacheKey lib sha256 url source = indexCacheKey lib sha256 url' source') :
    source = source' := by
  have hhead := congrArg List.head? h
  cases source <;> cases source' <;> simp_all [indexCacheKey, str]

end Keys

section Runs
variable {S : Type} {W : World Op Ans S} {holds : S → Entry → Prop} {state : AppState}
  {decode : PathDecoder} {debug : Str → Str}

/-- A call is permitted, and what it finds was kept before. -/
def Permitted (state : AppState) (decode : PathDecoder) (before : Log) (req : ClientRequest)
    (c : Call Op Ans) : Prop :=
  (requestPermit state decode (answered before req) req).allows c.op ∧
    ∀ e, found c = some e → ∃ writer ∈ before, stored writer.2.op = some e

/-- What is held was kept by a recorded call, and every recorded call was permitted. -/
def Recorded (holds : S → Entry → Prop) (state : AppState) (decode : PathDecoder)
    (s : S × Log) : Prop :=
  (∀ e, holds s.1 e → ∃ writer ∈ s.2, stored writer.2.op = some e) ∧
    EachCall (Permitted state decode) s.2

theorem dispatch_compatible (hW : Honest W holds) :
    Compatible (labelled W) (fun req p => p = (ociDispatch state decode debug req).run) Grows
      (fun req op s r t => (requestPermit state decode (answered s.2 req) req).allows op ∧
        labelled W req op s r t)
      (fun _ r _ => OnOk (fun _ => True) r) (Recorded holds state decode) where
  refl _ := List.Subset.refl _
  trans _ _ _ h h' := List.Subset.trans h h'
  guarantee := by
    intro req op s r t ⟨hop, hw, ht⟩ ⟨hheld, hcalls⟩
    refine ⟨⟨?_, ?_⟩, ?_⟩
    · intro e he
      rw [ht]
      rcases hW.kept hw he with he | he
      · obtain ⟨writer, hm, hs⟩ := hheld e he
        exact ⟨writer, List.mem_append_left _ hm, hs⟩
      · exact ⟨(req, ⟨op, r⟩), by simp, he⟩
    · rw [ht]
      apply hcalls.concat
      exact ⟨hop, fun e he => hheld e (hW.found hw he)⟩
    · unfold Grows
      rw [ht]
      exact List.subset_append_left _ _
  guards := by
    intro req p s hp _
    rw [hp]
    exact guards_of_answered (P := fun N => (requestPermit state decode N req).allows)
      fun N => ociDispatch_allowed N req

/-- What was recorded in front of a call. -/
theorem permitted_of_mem {log : Log} (h : EachCall (Permitted state decode) log)
    {req : ClientRequest} {c : Call Op Ans} (hm : (req, c) ∈ log) :
    ∃ before, before ⊆ log ∧ Permitted state decode before req c := by
  obtain ⟨before, behind, rfl⟩ := List.append_of_mem hm
  exact ⟨before, List.subset_append_left _ _, h before req c behind rfl⟩

theorem answersHttp_mono {log log' : Log} (h : log ⊆ log') {req : ClientRequest}
    {response : HttpResponse} (hr : AnswersHttp (answered log req) response) :
    AnswersHttp (answered log' req) response := by
  obtain ⟨request, hm⟩ := hr
  exact ⟨request, h hm⟩

/-- On behalf of a host and path only the public client is used. -/
theorem fetchedPublicly_of_answers {log : Log} (h : EachCall (Permitted state decode) log)
    {req : ClientRequest} (hreq : HostPath state decode req) {response : HttpResponse}
    (hr : AnswersHttp (answered log req) response) : FetchedPublicly log req response := by
  obtain ⟨request, hm⟩ := hr
  obtain ⟨chart, hchart, hsource⟩ := hreq
  obtain ⟨before, -, hallows, -⟩ := permitted_of_mem h hm
  refine ⟨request, hm, ?_⟩
  simp only [Permit.allows, requestPermit, hchart] at hallows
  exact hallows.2 hsource

/-- A pointer that is found was kept for the same host, name and tag. -/
theorem sameTag_of_found {before : Log} (h : EachCall (Permitted state decode) before)
    {req : ClientRequest} {c : Call Op Ans} (hc : Permitted state decode before req c) {e : Entry}
    (hf : found c = some e) (he : IsPointer e) : SameTag state decode before req e := by
  obtain ⟨scope, tag, htag, hkey⟩ := key_of_found hc.1 hf he
  obtain ⟨⟨writer, cw⟩, hm, hs⟩ := hc.2 e hf
  obtain ⟨earlier, hsub, hallows, -⟩ := permitted_of_mem h hm
  obtain ⟨⟨scope', tag', htag', hkey'⟩, pointer, hpointer, hdata⟩ := pointer_of_stored hallows hs he
  rw [hkey] at hkey'
  obtain ⟨rfl, rfl⟩ := tag_of_tagKey htag htag' hkey'
  refine ⟨scope, tag, writer, cw, htag, hkey, hm, hs, htag', ?_⟩
  intro chart hchart
  -- both resolve the same name
  have hwriter : writer.resolved state decode = some (.classic chart) := by
    rw [← hchart]
    simp [ClientRequest.resolved, (tag_eq_some htag).2, (tag_eq_some htag').2]
  refine ⟨hwriter, ?_⟩
  obtain ⟨proxyHost, response, built, hhost, hanswers, hbuilt, rfl⟩ := hpointer chart hwriter
  rw [(tag_eq_some htag').1] at hhost
  cases hhost
  exact ⟨response, built, answersHttp_mono hsub hanswers, hbuilt, hdata⟩

theorem publicSources_of_hostPath {before : Log} (h : EachCall (Permitted state decode) before)
    {req : ClientRequest} (hreq : HostPath state decode req) {c : Call Op Ans}
    (hc : Permitted state decode before req c) : PublicSources state decode before c := by
  obtain ⟨chart, hchart, hsource⟩ := hreq
  have hremote : ∀ op, (requestPermit state decode (answered before req) req).remote op →
      Sourced state.crates.url state.crates.sha256 (answered before req) chart.repoUrl
        chart.source op := by
    intro op hop
    simpa only [requestPermit, hchart] using hop
  constructor
  · intro request hop
    have hallows := hc.1
    rw [hop] at hallows
    exact (hremote _ hallows).2 hsource
  · intro key text hf
    obtain ⟨⟨writer, cw⟩, hm, hs⟩ := hc.2 _ hf
    obtain ⟨earlier, hsub, hallows, -⟩ := permitted_of_mem h hm
    -- the key that the request looks under is one of its source
    obtain ⟨url, hurl⟩ : ∃ url,
        key = indexCacheKey state.crates.url state.crates.sha256 url .hostPath := by
      obtain ⟨op, r⟩ := c
      cases op with
      | indexGet key' =>
          cases r with
          | none => contradiction
          | some text' =>
              cases hf
              rw [← hsource]
              exact hremote _ hc.1
      | get path =>
          cases r with
          | error _ => contradiction
          | ok result =>
              obtain ⟨_, -, hf⟩ := Option.map_eq_some_iff.mp hf
              contradiction
      | cacheGet key' =>
          cases r with
          | none => contradiction
          | some entry => cases hf
      | _ => contradiction
    have hinsert : cw.op = .indexInsert key text := by
      obtain ⟨op, r⟩ := cw
      dsimp only at hs ⊢
      cases op <;> simp_all [stored]
    rw [hinsert] at hallows
    simp only [Permit.allows, requestPermit] at hallows
    split at hallows
    · rename_i chart' hchart'
      obtain ⟨⟨url', hkey⟩, response, hanswers, htext⟩ := hallows
      rw [hurl] at hkey
      have hwriter : HostPath state decode writer :=
        ⟨chart', hchart', (source_of_indexCacheKey hkey).symm⟩
      exact ⟨writer, response, hwriter,
        fetchedPublicly_of_answers h hwriter (answersHttp_mono hsub hanswers), htext⟩
    · exact hallows.elim
    · exact hallows.elim
  · intro e hf he
    obtain ⟨scope, tag, writer, cw, -, -, -, -, -, hclassic⟩ := sameTag_of_found h hc hf he
    obtain ⟨hwriter, response, built, hanswers, hbuilt, hdata⟩ := hclassic chart hchart
    have hhost : HostPath state decode writer := ⟨chart, hwriter, hsource⟩
    exact ⟨writer, response, scope.proxyHost, built, hhost,
      fetchedPublicly_of_answers h hhost hanswers, hbuilt, hdata⟩

/-- In stores that were empty a pointer is found only where it was kept for the same host,
name and tag, and a client's own host and path is answered from public sources only. -/
theorem tags_stay_apart (state : AppState) (decode : PathDecoder) (debug : Str → Str)
    (hW : Honest W holds) {s₀ : S} (hempty : ∀ e, ¬ holds s₀ e)
    {x : System Op Ans (Except AppError Answer) (S × Log) ClientRequest}
    (hx : Reachable (labelled W) (fun req p => p = (ociDispatch state decode debug req).run)
      (s₀, []) x) :
    (∀ (req req' : ClientRequest) scope scope' tag tag', req.tag decode = some (scope, tag) →
      req'.tag decode = some (scope', tag') →
        (tagKey scope tag = tagKey scope' tag' → scope = scope' ∧ tag = tag') ∧
          ∀ digest, tagKey scope tag ≠ blobKey digest) ∧
      EachCall (fun before req c =>
        (∀ e, found c = some e → IsPointer e → SameTag state decode before req e) ∧
          (HostPath state decode req → PublicSources state decode before c)) x.1.2 := by
  refine ⟨fun _ _ _ _ _ _ h h' => ⟨tag_of_tagKey h h', fun digest => tagKey_ne_blobKey digest⟩, ?_⟩
  have hstart : Recorded holds state decode (s₀, []) := by
    refine ⟨fun e he => absurd he (hempty e), ?_⟩
    intro before req c behind heq
    simp at heq
  obtain ⟨⟨-, hcalls⟩, -⟩ := hx.safe (dispatch_compatible hW) hstart
  intro before req c behind heq
  have hc := hcalls before req c behind heq
  have hbefore : EachCall (Permitted state decode) before := by
    intro front k d rest hfront
    apply hcalls front k d (rest ++ (req, c) :: behind)
    rw [heq, hfront]
    simp
  exact ⟨fun e hf he => sameTag_of_found hbefore hc hf he,
    fun hreq => publicSources_of_hostPath hbefore hreq hc⟩

end Runs

section Pulls

/-- A chart on a public host, pulled by its tag. -/
def pullRequest : ClientRequest :=
  ⟨some .get, str "/v2/charts.example.com/demo/manifests/1.0.0", none,
    [(str "host", .text (str "proxy.test"))], none⟩

/-- The tag list of the chart. -/
def listRequest : ClientRequest :=
  {pullRequest with path := str "/v2/charts.example.com/demo/tags/list"}

def objectAt (path : Str) : Entry → Option Bytes
  | .object p data => if p = path then some data else none
  | _ => none

def indexAt (key : Str) : Entry → Option Str
  | .index k text => if k = key then some text else none
  | _ => none

/-- The demo's repository, and stores that keep everything. -/
def keepingAnswer : (op : Op) → List Entry → Ans op × List Entry
  | .http request, s => (demoUpstream request, s)
  | .get path, s => ((s.findSome? (objectAt path)).elim (.error .notFound) fun data =>
      .ok ⟨data.length, none, [.ok data]⟩, s)
  | .put path data _ _, s => (.ok (), .object path data :: s)
  | .indexGet key, s => (s.findSome? (indexAt key), s)
  | .indexInsert key text, s => ((), .index key text :: s)
  | op, s => (someAnswer op, s)

theorem eq_object_of_objectAt {path : Str} {e : Entry} {data : Bytes}
    (h : objectAt path e = some data) : e = .object path data := by
  cases e with
  | object p held =>
      dsimp only [objectAt] at h
      split at h
      · rename_i hpath
        rw [hpath, Option.some.inj h]
      · contradiction
  | cached key held => contradiction
  | index key text => contradiction

theorem eq_index_of_indexAt {key : Str} {e : Entry} {text : Str}
    (h : indexAt key e = some text) : e = .index key text := by
  cases e with
  | index k held =>
      dsimp only [indexAt] at h
      split at h
      · rename_i hkey
        rw [hkey, Option.some.inj h]
      · contradiction
  | object path data => contradiction
  | cached k data => contradiction

theorem keepingAnswer_entryStore (op : Op) (s : List Entry) :
    entryStore op s (keepingAnswer op s).1 (keepingAnswer op s).2 := by
  cases op with
  | get path =>
      refine ⟨?_, Or.inl rfl⟩
      intro e he
      dsimp only [keepingAnswer] at he
      cases hr : s.findSome? (objectAt path) with
      | none =>
          rw [hr] at he
          cases he
      | some data =>
          rw [hr] at he
          obtain ⟨e', hm, hat⟩ := List.exists_of_findSome?_eq_some hr
          have he : some (Entry.object path [data].flatten) = some e := he
          rw [List.flatten_singleton, ← eq_object_of_objectAt hat] at he
          exact Option.some.inj he ▸ hm
  | indexGet key =>
      refine ⟨?_, Or.inl rfl⟩
      intro e he
      dsimp only [keepingAnswer] at he
      cases hr : s.findSome? (indexAt key) with
      | none =>
          rw [hr] at he
          cases he
      | some text =>
          rw [hr] at he
          obtain ⟨e', hm, hat⟩ := List.exists_of_findSome?_eq_some hr
          have he : some (Entry.index key text) = some e := he
          rw [← eq_index_of_indexAt hat] at he
          exact Option.some.inj he ▸ hm
  | put path data attributes mode => exact ⟨fun e he => by contradiction, Or.inr ⟨_, rfl, rfl⟩⟩
  | indexInsert key text => exact ⟨fun e he => by contradiction, Or.inr ⟨_, rfl, rfl⟩⟩
  | _ => exact ⟨fun e he => by contradiction, Or.inl rfl⟩

/-- The answers, with what every call was answered. -/
def recordedAnswer (req : ClientRequest) (op : Op) (s : List Entry × Log) :
    Ans op × List Entry × Log :=
  ((keepingAnswer op s.1).1, (keepingAnswer op s.1).2,
    s.2 ++ [(req, ⟨op, (keepingAnswer op s.1).1⟩)])

def defaultState : AppState := demoState (50 * 1024 * 1024)

def dispatched (req : ClientRequest) : Program Op Ans (Except AppError Answer) :=
  (ociDispatch defaultState asciiDecoder id req).run

def behind (req : ClientRequest) (s : List Entry × Log) : List Entry × Log :=
  ((dispatched req).exec (recordedAnswer req) s).2

/-- Two pulls and a list. -/
def afterAll : List Entry × Log :=
  behind listRequest (behind pullRequest (behind pullRequest ([], [])))

theorem afterAll_reachable : ∃ ts, Reachable (labelled entryStore)
    (fun req p => p = (ociDispatch defaultState asciiDecoder id req).run) ([], [])
    (afterAll, ts) := by
  have hw : ∀ req op s, labelled entryStore req op s (recordedAnswer req op s).1
      (recordedAnswer req op s).2 := fun req op s => ⟨keepingAnswer_entryStore op s.1, rfl⟩
  have hstart : Reachable (labelled entryStore)
      (fun req p => p = (ociDispatch defaultState asciiDecoder id req).run) ([], [])
      (([], []), [(pullRequest, dispatched pullRequest), (pullRequest, dispatched pullRequest),
        (listRequest, dispatched listRequest)]) :=
    .step (.step (.step .start (.start rfl)) (.start rfl)) (.start rfl)
  obtain ⟨_, hfirst⟩ := runs_exec (hw pullRequest) (dispatched pullRequest) ([], [])
  obtain ⟨_, hsecond⟩ := runs_exec (hw pullRequest) (dispatched pullRequest)
    (behind pullRequest ([], []))
  obtain ⟨_, hthird⟩ := runs_exec (hw listRequest) (dispatched listRequest)
    (behind pullRequest (behind pullRequest ([], [])))
  exact ⟨_, ((hstart.runs [] hfirst).runs [_] hsecond).runs [_, _] hthird⟩

theorem demo_hostPath {req : ClientRequest}
    (h : req.resolved defaultState asciiDecoder = some (.classic demoChart)) :
    HostPath defaultState asciiDecoder req := ⟨demoChart, h, rfl⟩

/-- The scope of the chart's tag pointers. -/
def demoScope : TagScope := ⟨str "proxy.test", str "charts.example.com/demo"⟩

/-- The key of the index of a client's own host. -/
def demoIndexKey : Str :=
  str "host-path:sha256:12459d32a6fefde3ee1c7436146bb522f64714a5a580ab5cb2d59b27f7102b58"

theorem call_of_any {req : ClientRequest} {α : Type} {at? : Entry → Option α}
    (h : (afterAll.2.any fun call =>
      decide (call.1 = req) && ((found call.2).bind at?).isSome) = true) :
    ∃ before c behind e a, afterAll.2 = before ++ (req, c) :: behind ∧ found c = some e ∧
      at? e = some a := by
  obtain ⟨⟨req', c⟩, hm, hc⟩ := List.any_eq_true.mp h
  rw [Bool.and_eq_true, decide_eq_true_eq] at hc
  obtain ⟨rfl, hfinds⟩ := hc
  obtain ⟨a, ha⟩ := Option.isSome_iff_exists.mp hfinds
  obtain ⟨e, hfound, hat⟩ := Option.bind_eq_some_iff.mp ha
  obtain ⟨before, behind, hlog⟩ := List.append_of_mem hm
  exact ⟨before, c, behind, e, a, hlog, hfound, hat⟩

/-- The second pull finds the pointer of the first one, and the list finds its index. -/
theorem second_pull_is_public :
    (∃ before c behind e, afterAll.2 = before ++ (pullRequest, c) :: behind ∧
      found c = some e ∧ IsPointer e ∧ SameTag defaultState asciiDecoder before pullRequest e ∧
        ∃ writer response proxyHost built, HostPath defaultState asciiDecoder writer ∧
          FetchedPublicly before writer response ∧
          buildChart defaultState proxyHost (responseBytes response) = .ok built ∧
          e.data = encodePointer built.pointer) ∧
      ∃ before c behind key text, afterAll.2 = before ++ (listRequest, c) :: behind ∧
        found c = some (.index key text) ∧
          ∃ writer response, HostPath defaultState asciiDecoder writer ∧
            FetchedPublicly before writer response ∧
            Utf8.fromUtf8 (responseBytes response) = some text := by
  have hpulls : (afterAll.2.any fun call => decide (call.1 = pullRequest) &&
      ((found call.2).bind (objectAt (tagKey demoScope (str "1.0.0")))).isSome) = true := by
    decide +kernel
  have hlists : (afterAll.2.any fun call => decide (call.1 = listRequest) &&
      ((found call.2).bind (indexAt demoIndexKey)).isSome) = true := by decide +kernel
  obtain ⟨ts, hreach⟩ := afterAll_reachable
  have hempty : ∀ e : Entry, ¬ e ∈ ([] : List Entry) := fun e => List.not_mem_nil
  have hall := (tags_stay_apart defaultState asciiDecoder id entryStore_honest hempty hreach).2
  constructor
  · obtain ⟨before, c, behind, e, data, hlog, hfound, hat⟩ := call_of_any hpulls
    obtain ⟨hsame, hpublic⟩ := hall before pullRequest c behind hlog
    have hpointer : IsPointer e := by
      rw [eq_object_of_objectAt hat]
      exact fun digest => tagKey_ne_blobKey digest
    have hpath : HostPath defaultState asciiDecoder pullRequest :=
      demo_hostPath (by decide +kernel)
    exact ⟨before, c, behind, e, hlog, hfound, hpointer, hsame e hfound hpointer,
      (hpublic hpath).pointer e hfound hpointer⟩
  · obtain ⟨before, c, behind, e, text, hlog, hfound, hat⟩ := call_of_any hlists
    rw [eq_index_of_indexAt hat] at hfound
    have hpath : HostPath defaultState asciiDecoder listRequest :=
      demo_hostPath (by decide +kernel)
    exact ⟨before, c, behind, demoIndexKey, text, hlog, hfound,
      ((hall before listRequest c behind hlog).2 hpath).index demoIndexKey text hfound⟩

end Pulls

end Helmoci.TagProvenance
