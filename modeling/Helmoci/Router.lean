import Helmoci.JsonValues
import Helmoci.LinkFields
import Helmoci.PullAuth
import Helmoci.Routes

/-!
# The server as one program

A request passes the check of its token and is answered by a public page or by the
registry. The tag list of another registry is answered under the name that the client
has used: the document is read, its name is replaced and it is printed again, and the
link to the next page is rewritten. An error is answered as a response.
-/
namespace Helmoci.Router
open RustText NameResolver OciDigest OciPaths JsonDocuments ServerErrors EffectPrograms
  ServerOperations UpstreamRequests RegistryResponses ServerState LinkFields PullAuth Routes
  JsonValues SortedMembers

def maxTagListBytes : ℕ := 4 * 1024 * 1024

section TagLists
variable (state : AppState) (values : ValueCrate)

def rewriteUpstreamTagLink (response : HttpResponse) (target : OciTarget) : Option Str :=
  match (HeaderMap.getAll response.headers (str "link")).mapM HeaderValue.toStr with
  | none => none
  | some fields => rewriteTagLinks state.crates.url target fields

/-- The answer with this document. -/
def tagListResponse (document : Value) (link : Option Str) (headOnly : Bool) : Response :=
  let body := values.toVec document
  let etag := state.crates.sha256 body
  ⟨200, [(str "content-type", .text (str "application/json")),
      (str "content-length", .text (decimal body.length)),
      (str "etag", .text ('"' :: (etag.asStr ++ ['"']))), apiVersion] ++
      (link.bind HeaderValue.fromStr).toList.map fun link => (str "link", link),
    if headOnly then [] else [.ok body]⟩

/-- What becomes of the upstream's answer to a request for a tag list. -/
def relayTags (target : OciTarget) (headOnly : Bool) (response : HttpResponse) :
    Except AppError Response := do
  let link := rewriteUpstreamTagLink state response target
  let data ← readResponse response maxTagListBytes (str "tag list")
  match values.fromSlice data with
  | none => .error (.upstream (str "upstream tag list was not valid JSON"))
  | some (.object members) =>
    let document := Value.object (insertMember (str "name") (.string target.fullName) members)
    return tagListResponse state values document link headOnly
  | some _ => .error (.upstream (str "upstream tag list was not a JSON object"))

variable {state values} {target : OciTarget} {headOnly : Bool} {response : HttpResponse} {r : Response}

/-- A tag list is answered only for a document that has been read to its end. -/
theorem relayTags_eq_ok_iff : relayTags state values target headOnly response = .ok r ↔
    ∃ members,
      readResponse response maxTagListBytes (str "tag list") = .ok (responseBytes response) ∧
      values.fromSlice (responseBytes response) = some (.object members) ∧
      r = tagListResponse state values
        (.object (insertMember (str "name") (.string target.fullName) members))
        (rewriteUpstreamTagLink state response target) headOnly := by
  unfold relayTags
  constructor
  · intro h
    obtain ⟨data, hdata, h⟩ := bind_eq_ok h
    obtain rfl := readResponse_eq_ok hdata
    split at h
    · contradiction
    · rename_i members hmembers
      cases h
      exact ⟨members, hdata, hmembers, rfl⟩
    · contradiction
  · rintro ⟨members, hdata, hmembers, rfl⟩
    simp only [hdata, bind, Except.bind, hmembers]
    rfl

end TagLists

section Dispatch
variable (state : AppState) (decode : PathDecoder) (debug : Str → Str) (values : ValueCrate)

def Answer.finish (headOnly : Bool) : Answer → Except AppError Response
  | .response r => .ok r
  | .tagList target r => relayTags state values target headOnly r

/-- `unwrap_or_else(IntoResponse::into_response)`. -/
def toResponse : Except AppError Response → Response
  | .ok response => response
  | .error e => intoResponse e

/-- A request to the registry, answered. -/
def answerOci (req : ClientRequest) : Program Op Ans Response :=
  (ociDispatch state decode debug req).run.bind fun result =>
    .pure (toResponse (result.bind (Answer.finish state values (req.method == some .head))))

end Dispatch

section Serving

/-- The texts of the home page and of the metrics. -/
structure Pages where
  home : Str
  metrics : Str

/-- A page without its length, which the framework adds. -/
def page (contentType text : Str) (headOnly : Bool) : Response :=
  ⟨200, [(str "content-type", .text contentType)],
    if headOnly then [] else [.ok (Utf8.asBytes text)]⟩

/-- The pages that no token is needed for. -/
def Pages.route (pages : Pages) (path : Str) : Option (Str × Str) :=
  if path = str "/" then some (str "text/html; charset=utf-8", pages.home)
  else if path = str "/healthz" then some (str "text/plain; charset=utf-8", str "ok")
  else if path = str "/metrics" then some (str "text/plain; charset=utf-8", pages.metrics)
  else none

/-- A request with the bytes of its `Authorization` fields. -/
structure ServerRequest extends ClientRequest where
  authorization : List Bytes
deriving DecidableEq, Repr

def ServerRequest.pull (req : ServerRequest) : PullRequest := ⟨req.path, req.authorization⟩

variable (state : AppState) (decode : PathDecoder) (debug : Str → Str) (values : ValueCrate)
  (pages : Pages)

def route (req : ClientRequest) : Program Op Ans Response :=
  match pages.route req.path with
  | some (contentType, text) =>
    match req.method with
    | some method => .pure (page contentType text (method == .head))
    | none => .pure (intoResponse (.unsupported (str "only GET/HEAD are supported")))
  | none => answerOci state decode debug values req

variable (decodeBase64 : Str → Option Bytes)

/-- The router behind the check of the token. -/
def serve (req : ServerRequest) : Program Op Ans Response :=
  match requirePullAuth decodeBase64 state.cfg.settings req.pull with
  | .respond response => .pure response
  | .run => route state decode debug values pages req.toClientRequest

end Serving

section Calls
variable {state : AppState} {decode : PathDecoder} {debug : Str → Str} {values : ValueCrate}
  {pages : Pages} {decodeBase64 : Str → Option Bytes}

/-- What a path of the registry is asked for is up to the dispatcher. -/
theorem route_ensures {R : (op : Op) → Ans op → Prop} {P : Op → Prop}
    {Q : Except AppError Answer → Prop} {Q' : Response → Prop} {req : ClientRequest}
    (h : pages.route req.path = none → Ensures R P Q (ociDispatch state decode debug req))
    (hanswer : ∀ result, Q result →
      Q' (toResponse (result.bind (Answer.finish state values (req.method == some .head)))))
    (hpage : ∀ contentType text headOnly, Q' (page contentType text headOnly))
    (herror : ∀ e, Q' (intoResponse e)) :
    Ensures R P Q' (route state decode debug values pages req) := by
  unfold route
  split
  · split
    · exact hpage _ _ _
    · exact herror _
  · rename_i hroute
    exact (h hroute).bind hanswer

theorem response_of_requirePullAuth {settings : Configuration.Config} {req : PullRequest}
    {response : Response} (h : requirePullAuth decodeBase64 settings req = .respond response) :
    response = unauthorized := by
  unfold requirePullAuth at h
  dsimp only at h
  split at h
  · contradiction
  · split at h
    · contradiction
    · cases h
      rfl

/-- Nobody without a token gets behind the check, but for the public pages. -/
theorem serve_ensures {R : (op : Op) → Ans op → Prop} {P : Op → Prop} {Q : Response → Prop}
    {req : ServerRequest}
    (hrun : requirePullAuth decodeBase64 state.cfg.settings req.pull = .run →
      Ensures R P Q (route state decode debug values pages req.toClientRequest))
    (hrespond : Q unauthorized) :
    Ensures R P Q (serve state decode debug values pages decodeBase64 req) := by
  unfold serve
  split
  · rename_i h
    rw [response_of_requirePullAuth h]
    exact hrespond
  · rename_i h
    exact hrun h

end Calls

end Helmoci.Router
