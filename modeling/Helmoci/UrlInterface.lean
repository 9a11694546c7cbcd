import Helmoci.RustText

/-!
# The interface of the URL library

A parsed URL is the record of its components, with `port` empty for the scheme's
default, as `Url::port` answers. Parsing, joining and the encoders behind the
setters belong to the library and stay parameters; a setter replaces one component
and leaves the others alone. Origins follow the library's documentation: a tuple
for the schemes with a known port, and the library's own answer for the rest.
-/
namespace Helmoci.UrlInterface
open RustText

inductive Host where
  | domain (name : Str)
  | ipv4 (text : Str)
  | ipv6 (text : Str)
deriving DecidableEq, Repr

/-- The serialized host, with the brackets of an IPv6 literal. -/
def Host.text : Host → Str
  | .domain name => name
  | .ipv4 text => text
  | .ipv6 text => '[' :: text ++ [']']

structure Url where
  scheme : Str
  username : Str
  password : Option Str
  host : Option Host
  port : Option ℕ
  path : Str
  query : Option Str
  fragment : Option Str
deriving DecidableEq, Repr

/-- An origin that is not a tuple equals no origin, itself included. -/
inductive Origin where
  | tuple (scheme : Str) (host : Option Host) (port : Option ℕ)
  | distinct
deriving DecidableEq, Repr

/-- `Origin`'s `==`. -/
def Origin.same : Origin → Origin → Bool
  | .tuple s h p, .tuple s' h' p' => s == s' && h == h' && p == p'
  | _, _ => false

theorem Origin.eq_of_same {o o' : Origin} (h : o.same o' = true) : o = o' := by
  cases o <;> cases o' <;> simp_all [Origin.same]

/-- The ports of the schemes whose URLs have tuple origins. -/
def knownPort (scheme : Str) : Option ℕ :=
  if scheme = str "http" ∨ scheme = str "ws" then some 80
  else if scheme = str "https" ∨ scheme = str "wss" then some 443
  else if scheme = str "ftp" then some 21
  else none

/-- What the development uses of the `url` crate. -/
structure UrlCrate where
  parse : Str → Option Url
  /-- The error's text where `parse` fails. -/
  parseError : Str → Str
  join : Url → Str → Option Url
  serialize : Url → Str
  /-- `url::Host::parse` -/
  hostParse : Str → Option Host
  /-- The path that `set_path` stores. -/
  encodePath : Url → Str → Str
  /-- The path after `pop_if_empty` and the pushes of `path_segments_mut`. -/
  pushSegments : Url → List Str → Str
  /-- The query that `set_query` stores. -/
  encodeQuery : Url → Str → Str
  /-- The query after the pairs that `query_pairs_mut` appends. -/
  appendPairs : Option Str → List (Str × Str) → Str
  /-- `origin` of a URL whose scheme has no known port. -/
  otherOrigin : Url → Origin

namespace Url

def hostStr (u : Url) : Option Str := u.host.map Host.text

def portOrKnownDefault (u : Url) : Option ℕ := u.port.orElse fun _ => knownPort u.scheme

def isHttp (u : Url) : Bool := u.scheme == str "http" || u.scheme == str "https"

def origin (lib : UrlCrate) (u : Url) : Origin :=
  if (knownPort u.scheme).isSome then .tuple u.scheme u.host u.portOrKnownDefault
  else lib.otherOrigin u

/-- `a.origin() == b.origin()`. -/
def sameOrigin (lib : UrlCrate) (a b : Url) : Bool := (a.origin lib).same (b.origin lib)

def setPath (lib : UrlCrate) (u : Url) (path : Str) : Url := {u with path := lib.encodePath u path}

def setQuery (lib : UrlCrate) (u : Url) (query : Str) : Url :=
  {u with query := some (lib.encodeQuery u query)}

/-- `set_username` and `set_password` fail on such a URL. -/
def cannotHaveUserinfo (u : Url) : Bool :=
  u.host.isNone || u.host == some (.domain []) || u.scheme == str "file"

/-- A request to such a URL makes the HTTP client add an `Authorization` header. -/
def hasUserinfo (u : Url) : Bool := !u.username.isEmpty || u.password.isSome

theorem origin_of_isHttp (lib : UrlCrate) {u : Url} (h : u.isHttp = true) :
    u.origin lib = .tuple u.scheme u.host u.portOrKnownDefault := by
  have hk : (knownPort u.scheme).isSome = true := by
    simp only [isHttp, Bool.or_eq_true, beq_iff_eq] at h
    rcases h with h | h <;> rw [h] <;> decide
  simp [origin, hk]

theorem origin_eq_of_sameOrigin {lib : UrlCrate} {a b : Url} (h : a.sameOrigin lib b = true) :
    a.origin lib = b.origin lib := Origin.eq_of_same h

theorem sameOrigin_refl {lib : UrlCrate} {a : Url} (h : a.isHttp = true) :
    a.sameOrigin lib a = true := by
  simp [sameOrigin, origin_of_isHttp lib h, Origin.same]

theorem sameOrigin_symm {lib : UrlCrate} {a b : Url} (h : a.sameOrigin lib b = true) :
    b.sameOrigin lib a = true := by
  have heq := origin_eq_of_sameOrigin h
  unfold sameOrigin at h ⊢
  rwa [heq] at h ⊢

theorem sameOrigin_trans {lib : UrlCrate} {a b c : Url} (h : a.sameOrigin lib b = true)
    (h' : b.sameOrigin lib c = true) : a.sameOrigin lib c = true := by
  have heq := origin_eq_of_sameOrigin h
  unfold sameOrigin at h' ⊢
  rwa [heq]

theorem sameOrigin_iff (lib : UrlCrate) {a b : Url} (ha : a.isHttp = true) (hb : b.isHttp = true) :
    a.sameOrigin lib b = true ↔
      a.scheme = b.scheme ∧ a.host = b.host ∧ a.portOrKnownDefault = b.portOrKnownDefault := by
  simp [sameOrigin, origin_of_isHttp lib ha, origin_of_isHttp lib hb, Origin.same, and_assoc]

end Url
end Helmoci.UrlInterface
