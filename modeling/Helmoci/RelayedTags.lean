import Helmoci.NextPages
import Helmoci.Router

/-!
# Tag lists of other registries

A relayed tag list is read by the same readers as the upstream's: only the name differs. A
client that follows the links of the answers gets the pages that the upstream's own links
lead through, one for one, whatever else the server does in between.
-/
namespace Helmoci.RelayedTags
open RustText UrlInterface SegmentedText NameGrammar OciDigest OciPaths NameResolver JsonDocuments
  ServerErrors EffectPrograms ServerOperations UpstreamRequests RegistryTokens RegistryResponses
  ServerState PassthroughHandler ManifestMediaTypes LinkFields UpstreamPaths StorageKeys NextPages
  JsonValues SortedMembers Routes Router

section Documents
variable {state : AppState} {values : ValueCrate} {target : OciTarget} {headOnly : Bool}
  {response : HttpResponse} {r : Response}

/-- The upstream's document under another name. -/
def Renamed (name : Str) (upstream relayed : Value) : Prop :=
  relayed.get (str "name") = some (.string name) ∧
    ∀ key, key ≠ str "name" → relayed.get key = upstream.get key

theorem renamed_insertMember (name : Str) (members : List (Str × Value)) :
    Renamed name (.object members)
      (.object (insertMember (str "name") (.string name) members)) := by
  constructor
  · rw [Value.get, lookup_insertMember, if_pos rfl]
  · intro key hkey
    rw [Value.get, lookup_insertMember, if_neg hkey]
    rfl

/-- The answer is the upstream's document but for its name, with its own length and tag, and
a `HEAD` request is answered with the same headers. It is read back as far as floats are. -/
theorem relayed_list_reads (laws : ValueLaws values)
    (h : relayTags state values target headOnly response = .ok r) : ∃ upstream relayed body,
      (responseBytes response).length ≤ maxTagListBytes ∧
      values.fromSlice (responseBytes response) = some upstream ∧
      body = values.toVec relayed ∧ Renamed target.fullName upstream relayed ∧
      ((∀ text ∈ upstream.floats, Reprinted values text) →
        values.fromSlice body = some relayed) ∧
      r.status = 200 ∧ r.body = (if headOnly then [] else [.ok body]) ∧
      HeaderMap.getAll r.headers (str "content-length") = [.text (decimal body.length)] ∧
      HeaderMap.getAll r.headers (str "etag") =
        [.text ('"' :: ((state.crates.sha256 body).asStr ++ ['"']))] ∧
      relayTags state values target (!headOnly) response =
        .ok {r with body := if headOnly then [.ok body] else []} := by
  obtain ⟨members, hdata, hmembers, rfl⟩ := relayTags_eq_ok_iff.mp h
  have hlink : ∀ name, str "link" ≠ name → ∀ link : Option HeaderValue,
      ((link.toList.map fun link => (str "link", link)).filter fun p => p.1 = name) = [] := by
    intro name hne link
    cases link <;> simp [hne]
  have hlength := hlink (str "content-length") (by decide)
  have hetag := hlink (str "etag") (by decide)
  refine ⟨_, _, _, ?_, hmembers, rfl, renamed_insertMember _ _, ?_, rfl, rfl, ?_, ?_, ?_⟩
  · exact readBounded_length _ _ hdata
  · intro hfloats
    exact fromSlice_insertMember laws hmembers hfloats (str "name") target.fullName
  · rw [tagListResponse, HeaderMap.getAll, List.filter_append, hlength]
    rfl
  · rw [tagListResponse, HeaderMap.getAll, List.filter_append, hetag]
    rfl
  · refine relayTags_eq_ok_iff.mpr ⟨members, hdata, hmembers, ?_⟩
    cases headOnly <;> rfl

end Documents

section Routing

theorem interior_tagsList (s : Str) :
    SegmentedText.interior '/' (s ++ str "/tags/list") = (s.splitOn '/').tail ++ [str "tags"] := by
  obtain ⟨first, rest, hs⟩ := List.exists_cons_of_ne_nil (List.splitOn_ne_nil '/' s)
  have hprinted : s ++ str "/tags/list" = s ++ marker '/' (str "tags") ++ str "list" := by
    rw [List.append_assoc]
    rfl
  rw [SegmentedText.interior, hprinted, splitOn_marker (by decide), hs,
    List.splitOn_eq_singleton (by decide)]
  simp [List.dropLast_append_of_ne_nil]

/-- A path of a tag list has no other marker word behind the first segment of its name. -/
theorem parseRest_eq_tags {rest name : Str} (h : parseRest rest = .tags name) : ∃ pre,
    rest = pre ++ str "/tags/list" ∧ name = pre.rdropWhile (· == '/') ∧ name ≠ [] ∧
      str "manifests" ∉ (pre.splitOn '/').tail ∧ str "blobs" ∉ (pre.splitOn '/').tail := by
  have missing : ∀ w, '/' ∉ w → splitLast? (marker '/' w) rest = none →
      ∀ pre, rest = pre ++ str "/tags/list" → w ∉ (pre.splitOn '/').tail := by
    rintro w hw hnone pre rfl hmem
    obtain ⟨a, b, hsome⟩ := splitLast?_marker_ne_none hw (s := pre ++ str "/tags/list") (by
      rw [interior_tagsList]
      exact List.mem_append_left _ hmem)
    rw [hnone] at hsome
    contradiction
  have hmarkers : str "/manifests/" = marker '/' (str "manifests") ∧
      str "/blobs/" = marker '/' (str "blobs") := by decide
  unfold parseRest at h
  split at h
  · split at h <;> contradiction
  · rename_i hmanifests
    split at h
    · split at h <;> contradiction
    · rename_i hblobs
      split at h
      · rename_i pre hsuffix
        dsimp only at h
        split at h
        · contradiction
        · rename_i hne
          cases h
          obtain ⟨suffix, hrest, hbeq⟩ := List.dropSuffix?_eq_some_iff.mp hsuffix
          rw [eq_of_beq hbeq] at hrest
          rw [hmarkers.1] at hmanifests
          rw [hmarkers.2] at hblobs
          exact ⟨pre, hrest, rfl, by simpa using hne, missing _ (by decide) hmanifests pre hrest,
            missing _ (by decide) hblobs pre hrest⟩
      · contradiction

/-- The list of a name that some path asks for is asked for at the name's own path too. -/
theorem parseOciPath_own {decode : PathDecoder} (hd : DecodesEscapes decode) {path name : Str}
    (h : parseOciPath decode path = .tags name) (hpercent : '%' ∉ name)
    (hsegments : nonemptySegments name ≠ []) :
    parseOciPath decode (tagsPath name) = .tags name := by
  unfold parseOciPath at h
  split at h
  · contradiction
  · split at h
    · contradiction
    · rename_i rest _
      split at h
      · contradiction
      · dsimp only at h
        split at h
        · contradiction
        · obtain ⟨pre, hpre, rfl, hne, hmanifests, hblobs⟩ := parseRest_eq_tags h
          rw [nonemptySegments_rdropWhile] at hsegments
          -- neither the path nor the name begins with a slash
          obtain ⟨behind, hbehind⟩ := List.rdropWhile_prefix (· == '/') pre
          obtain ⟨c, t, hname⟩ := List.exists_cons_of_ne_nil hne
          have hc : (c == '/') = false := by
            have hhead := List.head?_dropWhile_not (· == '/') rest
            rw [hpre, ← hbehind, hname] at hhead
            simpa using hhead
          have hdropped : pre.dropWhile (· == '/') = pre := by
            rw [← hbehind, hname]
            simp [hc]
          obtain ⟨first, others, hsplit, hfirst⟩ := splitOn_eq_cons hsegments
          rw [hdropped] at hsplit
          have htail : ∀ w, w ∈ (nonemptySegments (pre.rdropWhile (· == '/'))).tail →
              w ∈ (pre.splitOn '/').tail := by
            intro w hw
            rw [nonemptySegments_rdropWhile, nonemptySegments, hsplit] at hw
            rw [List.filter_cons_of_pos (by simpa using hfirst), List.tail_cons] at hw
            rw [hsplit]
            exact (List.mem_filter.mp hw).1
          have hsegments' := hsegments
          rw [← nonemptySegments_rdropWhile] at hsegments'
          have hown := parseOciPath_tagsPath hd hsegments' hpercent (fun hm => hmanifests (htail _ hm))
            fun hb => hblobs (htail _ hb)
          have htrimmed : trimMatches '/' (pre.rdropWhile (· == '/')) =
              pre.rdropWhile (· == '/') := by
            rw [trimMatches, hname, List.dropWhile_cons_of_neg (by simp [hc]), ← hname,
              List.rdropWhile_idempotent]
          rwa [htrimmed] at hown

end Routing
section Pages
variable {lib : UrlCrate} {target : OciTarget}

/-- A page of an upstream's tag list: its document and the links that come with it. -/
structure UpstreamPage where
  document : Bytes
  links : List HeaderValue

/-- Where the page's next link leads, if it stays at the tag list. -/
def NextUrl (lib : UrlCrate) (target : OciTarget) (page : UpstreamPage) (next : Url) : Prop :=
  ∃ fields links link, page.links.mapM HeaderValue.toStr = some fields ∧
    fields.mapM parseLinkField = some links ∧
    (links.flatten.filter fun link => isNextLink link.params) = [link] ∧
    resolvedTagLinkUrl lib target link.uri = some next

/-- The pages of an upstream, each where the next link of the one before leads. -/
inductive Listing (lib : UrlCrate) (target : OciTarget) (source : Url → UpstreamPage) :
    Url → List UpstreamPage → Prop
  | last {url : Url} : (∀ next, ¬ NextUrl lib target (source url) next) →
      Listing lib target source url [source url]
  | page {url next : Url} {pages : List UpstreamPage} : NextUrl lib target (source url) next →
      Listing lib target source next pages →
      Listing lib target source url (source url :: pages)

/-- An upstream sees the origin, the path and the query of a URL. -/
def SeesRequest (lib : UrlCrate) (source : Url → UpstreamPage) : Prop :=
  ∀ u v, u.sameOrigin lib v = true → u.path = v.path → u.query.getD [] = v.query.getD [] →
    source u = source v

/-- What the upstream answers at its tag list: the page of the URL, an error or a challenge. -/
def FromSource (lib : UrlCrate) (tagsUrl : Url) (source : Url → UpstreamPage) (op : Op)
    (answer : Ans op) : Prop :=
  ∀ request response, (⟨op, answer⟩ : Call Op Ans) = ⟨.http request, .ok response⟩ →
    request.url.sameOrigin lib tagsUrl = true → request.url.path = tagsUrl.path →
    redirectStatus response.status = false ∧ (response.isSuccess = true →
      responseBytes response = (source request.url).document ∧
        HeaderMap.getAll response.headers (str "link") = (source request.url).links)

theorem Listing.congr {source : Url → UpstreamPage} {u v : Url} {pages : List UpstreamPage}
    (h : Listing lib target source u pages) (huv : source u = source v) :
    Listing lib target source v pages := by
  cases h with
  | last hlast =>
      rw [huv] at hlast ⊢
      exact .last hlast
  | page hnext hrest =>
      rw [huv] at hnext ⊢
      exact .page hnext hrest

/-- The link of an answer, if the upstream's page has one that stays at its tag list. -/
theorem rewriteTagLinks_eq_some_iff {fields : List Str} {out : Str} :
    rewriteTagLinks lib target fields = some out ↔ ∃ links link next,
      fields.mapM parseLinkField = some links ∧
      (links.flatten.filter fun link => isNextLink link.params) = [link] ∧
      resolvedTagLinkUrl lib target link.uri = some next ∧
      out = '<' :: (tagLinkTarget target next.query ++ '>' :: link.params) := by
  constructor
  · intro h
    exact rewriteTagLinks_eq_some h
  · rintro ⟨links, link, next, hlinks, hnext, hresolved, rfl⟩
    have hfields : fields.isEmpty = false := by
      cases fields with
      | nil =>
          cases hlinks
          cases hnext
      | cons _ _ => rfl
    simp [rewriteTagLinks, hfields, hlinks, selectNextLink_eq_some_iff.mpr hnext, rewriteLinkValue,
      hresolved]

end Pages

section Sending
variable {lib : UrlCrate} {target : OciTarget} {R : (op : Op) → Ans op → Prop} {url : Url}

/-- Where nothing is redirected, the only request is the first one. -/
theorem send_stays (method : Method) (headers : HeaderMap)
    (hstay : ∀ (request : HttpRequest) (response : HttpResponse), request.url = url →
      R (.http request) (Except.ok response : Except Str HttpResponse) →
      redirectStatus response.status = false) :
    Ensures R (fun _ => True) (OnOk fun response => ∃ request : HttpRequest, request.url = url ∧
      R (.http request) (Except.ok response : Except Str HttpResponse))
      (send lib method url headers .trusted true) := by
  have hsend : send lib method url headers .trusted true =
      sendLoop lib method true maxRedirects url headers .trusted := rfl
  rw [hsend, maxRedirects, sendLoop]
  refine ensures_bind_call trivial ?_
  intro r hr
  cases r with
  | error e => trivial
  | ok response =>
      have hstatus := hstay ⟨.trusted, method, url, headers⟩ response rfl hr
      simp only [hstatus]
      exact ⟨_, rfl, hr⟩

/-- The answer is the first request's or, behind a challenge, that of the same request with
a token. -/
theorem sendUpstream_stays (tokenJson : Bytes → Option TokenResponse) (gcp : Bool)
    {suffix : Str} (hurl : upstreamUrl lib target suffix = .ok url) (method : Method)
    (accept : Option Str)
    (hstay : ∀ (request : HttpRequest) (response : HttpResponse), request.url = url →
      R (.http request) (Except.ok response : Except Str HttpResponse) →
      redirectStatus response.status = false) :
    Ensures R (fun _ => True) (OnOk fun response => ∃ request : HttpRequest, request.url = url ∧
      R (.http request) (Except.ok response : Except Str HttpResponse))
      (sendUpstream lib tokenJson gcp target method suffix accept) := by
  unfold sendUpstream
  split
  · trivial
  · rw [hurl, liftResult_ok_bind]
    refine ensures_bind (ensures_perform trivial) ?_
    intro cached _
    refine ensures_bind (Q := fun _ => True) (ensures_liftResult fun _ _ => trivial) ?_
    intro headers _
    refine ensures_bind (send_stays method headers hstay) ?_
    intro response hresponse
    dsimp only
    split
    · exact hresponse
    · split
      · trivial
      · rename_i challenge _
        refine ensures_bind (Q := fun _ => True) ?_ ?_
        · exact (fetchToken_registryOp tokenJson gcp target challenge).conseq
            (fun _ _ => trivial) fun _ h => h
        · intro token _
          refine ensures_bind (ensures_perform trivial) ?_
          intro _ _
          refine ensures_bind (Q := fun _ => True) (ensures_liftResult fun _ _ => trivial) ?_
          intro headers _
          exact send_stays method headers hstay

end Sending

section Following
variable {state : AppState} {decode : PathDecoder} {debug : Str → Str} {values : ValueCrate}
  {target : OciTarget} {tagsUrl : Url} {source : Url → UpstreamPage}

theorem status_intoResponse (e : AppError) : (intoResponse e).status ≠ 200 := by
  have h := e.parts_status
  change e.parts.1 ≠ 200
  omega

/-- What the upstream is asked for stands at its tag list. -/
theorem upstreamUrl_tags (laws : LinkLaws state.crates.url)
    (htags : upstreamUrl state.crates.url target (str "tags/list") = .ok tagsUrl)
    (query : Option Str) : ∃ url,
      upstreamUrl state.crates.url target (tagsSuffix query) = .ok url ∧
        url.sameOrigin state.crates.url tagsUrl = true ∧ url.path = tagsUrl.path := by
  obtain ⟨-, hhttp, -⟩ := tagsUrl_of_upstreamUrl laws htags
  refine ⟨_, upstreamUrl_tagsSuffix htags query, ?_⟩
  split
  · exact ⟨Url.sameOrigin_refl hhttp, rfl⟩
  · have hhttp' : (tagsUrl.setQuery state.crates.url (query.getD [])).isHttp = true := hhttp
    exact ⟨(Url.sameOrigin_iff state.crates.url hhttp' hhttp).mpr ⟨rfl, rfl, rfl⟩, rfl⟩

/-- The answer is made from the page of the upstream at this URL. -/
def RelaysPage (state : AppState) (values : ValueCrate) (target : OciTarget)
    (page : UpstreamPage) (r : Response) : Prop :=
  ∃ response, relayTags state values target false response = .ok r ∧
    responseBytes response = page.document ∧
    HeaderMap.getAll response.headers (str "link") = page.links

/-- A request for a tag list is answered with a page, if at all. -/
theorem answerOci_relays {req : ClientRequest} {name : Str} (hmethod : req.method = some .get)
    (hpath : parseOciPath decode req.path = .tags name)
    (hname : resolveName state.crates.url name state.cfg.aliases = some (.oci target)) {url : Url}
    (hurl : upstreamUrl state.crates.url target (tagsSuffix req.query) = .ok url)
    (horigin : url.sameOrigin state.crates.url tagsUrl = true) (hsame : url.path = tagsUrl.path) :
    Ensures (FromSource state.crates.url tagsUrl source) (fun _ => True)
      (fun r => r.status = 200 → RelaysPage state values target (source url) r)
      (answerOci state decode debug values req) := by
  have htags : Ensures (FromSource state.crates.url tagsUrl source) (fun _ => True)
      (OnOk fun response => responseBytes response = (source url).document ∧
        HeaderMap.getAll response.headers (str "link") = (source url).links)
      (upstreamTags state target req.query) := by
    have hstay : ∀ (request : HttpRequest) (response : HttpResponse), request.url = url →
        FromSource state.crates.url tagsUrl source (.http request)
          (Except.ok response : Except Str HttpResponse) →
        redirectStatus response.status = false := by
      rintro request response rfl h
      exact (h request response rfl horigin hsame).1
    refine ensures_bind (sendUpstream_stays _ _ hurl _ _ hstay) ?_
    rintro response ⟨request, rfl, hresponse⟩
    split
    · trivial
    · split
      · trivial
      · rename_i hsuccess
        exact (hresponse request response rfl horigin hsame).2 (by simpa using hsuccess)
  have hdispatch : Ensures (FromSource state.crates.url tagsUrl source) (fun _ => True)
      (OnOk fun answer => (∃ r, answer = .response r ∧ r.status ≠ 200) ∨
        ∃ response, answer = .tagList target response ∧
          responseBytes response = (source url).document ∧
          HeaderMap.getAll response.headers (str "link") = (source url).links)
      (ociDispatch state decode debug req) := by
    unfold ociDispatch
    split
    · exact Or.inl ⟨_, rfl, by decide⟩
    · rw [hmethod]
      dsimp only
      split
      · trivial
      · rw [hpath]
        dsimp only
        unfold tagsEntry
        rw [hname]
        refine ensures_bind htags ?_
        intro response hresponse
        exact Or.inr ⟨response, rfl, hresponse⟩
  refine hdispatch.bind ?_
  intro result hresult hstatus
  cases result with
  | error e => exact absurd hstatus (status_intoResponse e)
  | ok answer =>
      rcases hresult with ⟨r, rfl, hr⟩ | ⟨response, rfl, hdocument, hlinks⟩
      · exact absurd hstatus hr
      · rw [hmethod] at hstatus ⊢
        change (toResponse (relayTags state values target false response)).status = 200 at hstatus
        change RelaysPage state values target (source url)
          (toResponse (relayTags state values target false response))
        cases hrelay : relayTags state values target false response with
        | error e =>
            rw [hrelay] at hstatus
            exact absurd hstatus (status_intoResponse e)
        | ok r => exact ⟨response, hrelay, hdocument, hlinks⟩

/-- Where the client is sent for the next page. -/
def nextOf (r : Response) : Option Str := do
  let fields ← (HeaderMap.getAll r.headers (str "link")).mapM HeaderValue.toStr
  let links ← fields.mapM parseLinkField
  (selectNextLink links.flatten).map LinkValue.uri

/-- The link of an answer is read as one link to the tag list. -/
theorem parseLinkField_rewritten (laws : LinkLaws state.crates.url)
    {aliases : AliasTable state.crates.url} {name : Str}
    (hname : resolveName state.crates.url name aliases.map = some (.oci target))
    {fields : List Str} {links : List (List LinkValue)} {link : LinkValue} {next : Url}
    (hlinks : fields.mapM parseLinkField = some links)
    (hnext : (links.flatten.filter fun link => isNextLink link.params) = [link])
    (hresolved : resolvedTagLinkUrl state.crates.url target link.uri = some next) :
    isNextLink link.params = true ∧
      parseLinkField ('<' :: (tagLinkTarget target next.query ++ '>' :: link.params)) =
        some [⟨tagLinkTarget target next.query, link.params⟩] := by
  obtain ⟨tagsUrl, -, -, -, -, hplain⟩ := resolvedTagLinkUrl_eq_some laws hresolved
  have hmem : link ∈ links.flatten ∧ isNextLink link.params = true := by
    have : link ∈ links.flatten.filter fun link => isNextLink link.params := by
      rw [hnext]
      exact List.mem_singleton_self _
    simpa using List.mem_filter.mp this
  obtain ⟨found, hfound, hin⟩ := List.mem_flatten.mp hmem.1
  obtain ⟨field, hfield⟩ := mem_of_mapM hlinks hfound
  obtain ⟨hall, hscanned⟩ := parseLinkField_eq_some_iff.mp hfield
  obtain ⟨hprinted, hsub⟩ := printedParams_of_links hscanned link hin
  have hfull : target.fullName = name := fullName_of_resolveName hname
  have huri : ∀ c ∈ tagLinkTarget target next.query, isFieldChar c = true ∧ c ≠ '>' := by
    refine tagLinkTarget_chars ?_ hplain
    rw [hfull]
    intro c hc
    have h := fieldChar_of_name (nameChar_of_resolveName hname c hc)
    exact ⟨h.1, h.2.1⟩
  exact ⟨hmem.2, parseLinkField_print huri hprinted fun c hc =>
    List.all_eq_true.mp hall c (hsub c hc)⟩

theorem fromStr_of_fieldChars {s : Str} (h : s.all isFieldChar = true) :
    HeaderValue.fromStr s = some (.text s) := by
  have hchar : ∀ c, isFieldChar c = true →
      ((32 ≤ c.toNat && c.toNat != 127) || c == '\t') = true ∧ c.toNat < 128 := by
    intro c hc
    simp only [isFieldChar, Bool.or_eq_true, Bool.and_eq_true, decide_eq_true_eq, beq_iff_eq] at hc
    rcases hc with hc | rfl
    · have hne : c.toNat ≠ 127 := by omega
      simp only [Bool.or_eq_true, Bool.and_eq_true, decide_eq_true_eq, bne_iff_ne]
      exact ⟨Or.inl ⟨hc.1, hne⟩, by omega⟩
    · decide
  have hall := List.all_eq_true.mp h
  rw [HeaderValue.fromStr, if_pos, if_pos]
  · exact List.all_eq_true.mpr fun c hc => decide_eq_true (hchar c (hall c hc)).2
  · exact List.all_eq_true.mpr fun c hc => (hchar c (hall c hc)).1

theorem getAll_link_tagListResponse (document : Value) (link : Option Str) (headOnly : Bool) :
    HeaderMap.getAll (tagListResponse state values document link headOnly).headers (str "link") =
      (link.bind HeaderValue.fromStr).toList := by
  rw [tagListResponse, HeaderMap.getAll, List.filter_append]
  cases link.bind HeaderValue.fromStr with
  | none => rfl
  | some v => rfl

/-- The client is sent on exactly where the upstream's page has a next link, to the query of
that link. -/
theorem nextOf_relayed (laws : LinkLaws state.crates.url)
    {aliases : AliasTable state.crates.url} {name : Str}
    (hname : resolveName state.crates.url name aliases.map = some (.oci target))
    {page : UpstreamPage} {r : Response} (h : RelaysPage state values target page r) :
    (nextOf r = none → ∀ next, ¬ NextUrl state.crates.url target page next) ∧
      ∀ uri, nextOf r = some uri → ∃ next, NextUrl state.crates.url target page next ∧
        uri = tagLinkTarget target next.query := by
  obtain ⟨response, hrelay, -, hpage⟩ := h
  obtain ⟨members, -, -, rfl⟩ := relayTags_eq_ok_iff.mp hrelay
  -- where the page leads on, the answer has one link, which leads to the tag list
  have hleads : ∀ fields links link next, page.links.mapM HeaderValue.toStr = some fields →
      fields.mapM parseLinkField = some links →
      (links.flatten.filter fun link => isNextLink link.params) = [link] →
      resolvedTagLinkUrl state.crates.url target link.uri = some next →
      nextOf (tagListResponse state values
        (.object (insertMember (str "name") (.string target.fullName) members))
        (rewriteUpstreamTagLink state response target) false) =
        some (tagLinkTarget target next.query) := by
    intro fields links link next hfields hlinks hnext hresolved
    obtain ⟨hisNext, hparse⟩ := parseLinkField_rewritten laws hname hlinks hnext hresolved
    have hout := rewriteTagLinks_eq_some_iff.mpr ⟨links, link, next, hlinks, hnext, hresolved, rfl⟩
    have hlink : rewriteUpstreamTagLink state response target =
        some ('<' :: (tagLinkTarget target next.query ++ '>' :: link.params)) := by
      rw [rewriteUpstreamTagLink, hpage, hfields]
      exact hout
    have htext := fromStr_of_fieldChars (parseLinkField_eq_some_iff.mp hparse).1
    rw [nextOf, getAll_link_tagListResponse, hlink, Option.bind_some, htext]
    simp [HeaderValue.toStr, hparse, selectNextLink, hisNext]
  constructor
  · rintro hnone next ⟨fields, links, link, hfields, hlinks, hnext, hresolved⟩
    rw [hleads fields links link next hfields hlinks hnext hresolved] at hnone
    contradiction
  · intro uri huri
    cases hlink : rewriteUpstreamTagLink state response target with
    | none =>
        rw [nextOf, getAll_link_tagListResponse, hlink] at huri
        simp [selectNextLink] at huri
    | some out =>
        have hrewritten := hlink
        unfold rewriteUpstreamTagLink at hrewritten
        rw [hpage] at hrewritten
        split at hrewritten
        · contradiction
        · rename_i fields hfields
          obtain ⟨links, link, next, hlinks, hnext, hresolved, -⟩ :=
            rewriteTagLinks_eq_some_iff.mp hrewritten
          rw [hleads fields links link next hfields hlinks hnext hresolved] at huri
          exact ⟨next, ⟨fields, links, link, hfields, hlinks, hnext, hresolved⟩,
            (Option.some.inj huri).symm⟩

variable (state decode debug values tagsUrl source)

/-- The request for a path and query. -/
def requestAt (client : ClientRequest) (uri : Str) : ClientRequest :=
  {client with method := some .get, path := (requestParts uri).1, query := (requestParts uri).2}

/-- A success of the server, whose calls may be answered between those of any other client. -/
def Answered (client : ClientRequest) (uri : Str) (r : Response) : Prop :=
  ∃ cs, Follows (answerOci state decode debug values (requestAt client uri)) cs (.pure r) ∧
    (∀ c ∈ cs, FromSource state.crates.url tagsUrl source c.op c.answer) ∧ r.status = 200

/-- What a client gets that follows the links of the answers to their end. -/
inductive Followed (client : ClientRequest) : Str → List Response → Prop
  | last {uri : Str} {r : Response} :
      Answered state decode debug values tagsUrl source client uri r → nextOf r = none →
      Followed client uri [r]
  | page {uri next : Str} {r : Response} {rs : List Response} :
      Answered state decode debug values tagsUrl source client uri r → nextOf r = some next →
      Followed client next rs → Followed client uri (r :: rs)

variable {state decode debug values tagsUrl source}

/-- One answer shows one page, and its link leads to the tag list of the same name. -/
theorem answered_page (laws : LinkLaws state.crates.url) {aliases : AliasTable state.crates.url}
    (haliases : state.cfg.aliases = aliases.map) {name : Str}
    (hname : resolveName state.crates.url name aliases.map = some (.oci target))
    (htags : upstreamUrl state.crates.url target (str "tags/list") = .ok tagsUrl)
    {client : ClientRequest} {uri : Str} {r : Response}
    (hpath : parseOciPath decode (requestParts uri).1 = .tags name)
    (h : Answered state decode debug values tagsUrl source client uri r) : ∃ url,
      upstreamUrl state.crates.url target (tagsSuffix (requestParts uri).2) = .ok url ∧
        RelaysPage state values target (source url) r := by
  obtain ⟨cs, hrun, hanswers, hstatus⟩ := h
  obtain ⟨url, hurl, horigin, hsame⟩ := upstreamUrl_tags laws htags (requestParts uri).2
  have hensures : Ensures (FromSource state.crates.url tagsUrl source) (fun _ => True)
      (fun r => r.status = 200 → RelaysPage state values target (source url) r)
      (answerOci state decode debug values (requestAt client uri)) :=
    answerOci_relays rfl hpath (by rw [haliases]; exact hname) hurl horigin hsame
  exact ⟨url, hurl, (hensures.answered hrun hanswers).2 hstatus⟩

/-- The answer is the upstream's document under this name, and is read as it. -/
def ShowsPage (values : ValueCrate) (name : Str) (page : UpstreamPage) (r : Response) : Prop :=
  ∃ upstream relayed, values.fromSlice page.document = some upstream ∧
    r.body = [.ok (values.toVec relayed)] ∧ Renamed name upstream relayed ∧
    ((∀ text ∈ upstream.floats, Reprinted values text) →
      values.fromSlice (values.toVec relayed) = some relayed)

theorem showsPage_of_relaysPage (read : ValueLaws values) {page : UpstreamPage} {r : Response}
    (h : RelaysPage state values target page r) : ShowsPage values target.fullName page r := by
  obtain ⟨response, hrelay, hdocument, -⟩ := h
  obtain ⟨members, -, hmembers, rfl⟩ := relayTags_eq_ok_iff.mp hrelay
  rw [hdocument] at hmembers
  refine ⟨_, _, hmembers, rfl, renamed_insertMember _ _, ?_⟩
  intro hfloats
  exact fromSlice_insertMember read hmembers hfloats (str "name") target.fullName

end Following

section Instances
open PlainUrls PlainCrates Utf8

/-- Two pages of one tag each. -/
def demoSource (url : Url) : UpstreamPage :=
  if url.query.getD [] = str "n=1&last=a" then
    ⟨asBytes (str "\x7b\"name\":\"acme/demo\",\"tags\":[\"b\"]\x7d"), []⟩
  else
    ⟨asBytes (str "\x7b\"tags\": [\"a\"], \"name\": \"acme/demo\"\x7d"),
      [.text (str "</v2/acme/demo/tags/list?n=1&last=a>; rel=next")]⟩

def sourceAnswer (source : Url → UpstreamPage) : (op : Op) → Unit → Ans op × Unit
  | .http request, s =>
    let page := source request.url
    (.ok ⟨200, page.links.map fun link => (str "link", link), none, [.ok page.document]⟩, s)
  | op, s => (someAnswer op, s)

def demoState : AppState := {plainState with cfg := {plainConfig with aliases := registryAliases.map}}

def demoTagsUrl : Url :=
  ⟨str "https", [], none, some (.domain (str "registry.example.com")), none,
    str "/v2/acme/demo/tags/list", none, none⟩

def demoClient : ClientRequest :=
  ⟨none, [], none, [(str "host", .text (str "proxy.test"))], none⟩

def demoAnswer (uri : Str) : Response :=
  ((answerOci demoState asciiDecoder id plainValues (requestAt demoClient uri)).exec
    (sourceAnswer demoSource) ()).1

theorem demo_answered (uri : Str) {next : Option Str}
    (h : ((demoAnswer uri).status, nextOf (demoAnswer uri)) = (200, next)) : ∃ r,
      Answered demoState asciiDecoder id plainValues demoTagsUrl demoSource demoClient uri r ∧
        nextOf r = next := by
  have hruns := runs_trace (W := fun op s r t => (r, t) = sourceAnswer demoSource op s)
    (fun _ _ => rfl) (answerOci demoState asciiDecoder id plainValues (requestAt demoClient uri)) ()
  obtain ⟨hstatus, hnext⟩ := Prod.mk.inj h
  refine ⟨demoAnswer uri, ⟨_, hruns.follows, ?_, hstatus⟩, hnext⟩
  intro c hc
  obtain ⟨s, hs⟩ := mem_trace hc
  rintro request response heq - -
  obtain ⟨op, answer⟩ := c
  cases heq
  cases hs
  refine ⟨rfl, fun _ => ⟨by simp [responseBytes, Except.toOption], ?_⟩⟩
  simp [HeaderMap.getAll, List.filter_map, Function.comp_def]

theorem demo_followed : ∃ rs, rs.length = 2 ∧
    Followed demoState asciiDecoder id plainValues demoTagsUrl demoSource demoClient
      (str "/v2/team/demo/tags/list?n=1") rs := by
  obtain ⟨first, hfirst, hnext⟩ := demo_answered (str "/v2/team/demo/tags/list?n=1")
    (by decide +kernel :
      _ = (200, some (str "/v2/team/demo/tags/list?n=1&last=a")))
  obtain ⟨second, hsecond, hlast⟩ := demo_answered (str "/v2/team/demo/tags/list?n=1&last=a")
    (by decide +kernel : _ = (200, none))
  exact ⟨[first, second], rfl, .page hfirst hnext (.last hsecond hlast)⟩

def demoResponse : HttpResponse :=
  ⟨200, [], some 33, [.ok (demoSource demoTagsUrl).document]⟩

theorem demo_list_reads : ∃ r upstream relayed body,
    plainValues.fromSlice (responseBytes demoResponse) = some upstream ∧
    plainValues.fromSlice body = some relayed ∧ Renamed (str "team/demo") upstream relayed ∧
    r.body = [.ok body] ∧ relayTags demoState plainValues demoTarget false demoResponse = .ok r := by
  have hok : (relayTags demoState plainValues demoTarget false demoResponse).isOk = true := by
    decide +kernel
  cases h : relayTags demoState plainValues demoTarget false demoResponse with
  | error e =>
      rw [h] at hok
      contradiction
  | ok r =>
      obtain ⟨upstream, relayed, body, -, hread, -, hrenamed, hback, -, hr, -⟩ :=
        relayed_list_reads plainValues_laws h
      have hfloats : (plainValues.fromSlice (responseBytes demoResponse)).all
          (fun v => v.floats.isEmpty) = true := by decide +kernel
      rw [hread, Option.all_some, List.isEmpty_iff] at hfloats
      have hbody := hback (by simp [hfloats])
      exact ⟨r, upstream, relayed, body, hread, hbody, hrenamed, hr, rfl⟩

end Instances

end Helmoci.RelayedTags
