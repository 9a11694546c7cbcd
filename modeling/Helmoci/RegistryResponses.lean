import Helmoci.BlobStorage

/-!
# Responses of the registry

A response with content carries the digest, the size and the registry's version. A
media type that is no header value turns the answer into an error response. The body
is the chunks that are sent, where reading a stored blob may still fail.
-/
namespace Helmoci.RegistryResponses
open RustText Utf8 OciDigest JsonDocuments ServerErrors ServerOperations BlobStorage

structure Response where
  status : ℕ
  headers : HeaderMap
  body : List (Except AppError Bytes)

def apiVersion : Str × HeaderValue :=
  (str "docker-distribution-api-version", .text (str "registry/2.0"))

/-- An error as it is answered. -/
def intoResponse (e : AppError) : Response :=
  let (status, code, message) := e.parts
  ⟨status, [(str "content-type", .text (str "application/json")), apiVersion,
      (str "cache-control", .text (str "no-store"))],
    [.ok (asBytes (str "\x7b\"errors\":[\x7b\"code\":" ++ (jsonString code ++
      (str ",\"message\":" ++ (jsonString message ++ str "\x7d]\x7d")))))]⟩

def invalidContentType : AppError :=
  .upstream (str "response media type was not a valid header value")

def base (contentType : Str) (digest : Digest) (size : ℕ) : Except AppError HeaderMap :=
  match HeaderValue.fromStr contentType with
  | none => .error invalidContentType
  | some contentType => .ok [(str "content-type", contentType),
      (str "content-length", .text (decimal size)),
      (str "docker-content-digest", .text digest.asStr),
      (str "etag", .text ('"' :: (digest.asStr ++ ['"']))), apiVersion]

/-- The answer with these chunks as its body, which a `HEAD` request leaves out. -/
def contentResponse (contentType : Str) (digest : Digest) (size : ℕ)
    (body : List (Except AppError Bytes)) (headOnly : Bool) : Response :=
  match base contentType digest size with
  | .error e => intoResponse e
  | .ok headers => ⟨200, headers, if headOnly then [] else body⟩

def blobResponse (contentType : Str) (digest : Digest) (blob : Blob) (headOnly : Bool) : Response :=
  contentResponse contentType digest blob.blobMeta.size blob.data headOnly

def blobBytesResponse (contentType : Str) (digest : Digest) (data : Bytes) (headOnly : Bool) :
    Response := contentResponse contentType digest data.length [.ok data] headOnly

def bytesResponse (contentType : Str) (digest : Digest) (data : Bytes) (headOnly : Bool) :
    Response := contentResponse contentType digest data.length [.ok data] headOnly

/-- The media type of a manifest is a header value. -/
theorem bytesResponse_eq {mediaType : Str} (h : mediaType ∈ manifestMediaTypes) (digest : Digest)
    (data : Bytes) (headOnly : Bool) : bytesResponse mediaType digest data headOnly =
      ⟨200, [(str "content-type", .text mediaType),
        (str "content-length", .text (decimal data.length)),
        (str "docker-content-digest", .text digest.asStr),
        (str "etag", .text ('"' :: (digest.asStr ++ ['"']))), apiVersion],
        if headOnly then [] else [.ok data]⟩ := by
  have hall : ∀ m ∈ manifestMediaTypes, HeaderValue.fromStr m = some (.text m) := by
    decide +kernel
  unfold bytesResponse contentResponse base
  rw [hall mediaType h]

/-- The bytes of a body that is sent to its end. -/
def Response.bytes (r : Response) : Option Bytes :=
  (r.body.mapM Except.toOption).map List.flatten

def Response.contentType (r : Response) : Option Str :=
  (HeaderMap.get r.headers (str "content-type")).bind HeaderValue.toStr

end Helmoci.RegistryResponses
