import Helmoci.LinkFields
import Helmoci.PlainUrls

/-!
# Redirects to relative references

A redirect may name its target relative to the current URL, and the target then has the
current URL's scheme and authority. Userinfo of a configured repository is part of that
authority, and the redirect is refused as if the upstream had sent the userinfo.
-/
namespace Helmoci.RelativeRedirects
open RustText UrlInterface ServerErrors ServerOperations UpstreamRequests LinkFields PlainUrls

/-- A path or a query, without a scheme or an authority in front. -/
def isRelativeReference (reference : Str) : Bool :=
  reference.all uriChar && !(str "//").isPrefixOf reference &&
    !(reference.takeWhile inFirstSegment).contains ':' &&
    match reference with
    | [] => false
    | c :: _ => c != '#'

/-- A URL that only differs behind the authority. -/
structure SameAuthority (base u : Url) : Prop where
  scheme : u.scheme = base.scheme
  username : u.username = base.username
  password : u.password = base.password
  host : u.host = base.host
  port : u.port = base.port

/-- A reference without an authority is resolved with the authority of the base. -/
structure JoinLaw (lib : UrlCrate) : Prop where
  relative : ∀ base reference, base.isHttp = true → isRelativeReference reference = true →
    ∃ u, lib.join base reference = some u ∧ SameAuthority base u

section Redirect
variable {lib : UrlCrate} {current target : Url}

theorem SameAuthority.isHttp (h : SameAuthority current target) :
    target.isHttp = current.isHttp := by
  rw [Url.isHttp, Url.isHttp, h.scheme]

theorem SameAuthority.hasUserinfo (h : SameAuthority current target) :
    target.hasUserinfo = current.hasUserinfo := by
  rw [Url.hasUserinfo, Url.hasUserinfo, h.username, h.password]

theorem SameAuthority.sameOrigin (h : SameAuthority current target)
    (hcurrent : current.isHttp = true) : current.sameOrigin lib target = true := by
  rw [Url.sameOrigin_iff lib hcurrent (by rw [h.isHttp, hcurrent]), Url.portOrKnownDefault,
    Url.portOrKnownDefault, h.scheme, h.host, h.port]
  exact ⟨rfl, rfl, rfl⟩

/-- Of the checks on a target with the same authority, only the one on userinfo can fail. -/
theorem redirectTarget_sameAuthority (hcurrent : current.isHttp = true) {response : HeaderMap}
    {reference : Str} (hlocation : response.getAll (str "location") = [.text reference])
    (hjoin : lib.join current reference = some target) (h : SameAuthority current target)
    (request : HeaderMap) (client : InitialClient) :
    redirectTarget lib current response request client =
      if current.hasUserinfo then .error (.upstream (str "upstream redirect contained userinfo"))
      else .ok (target, request, client) := by
  unfold redirectTarget
  rw [hlocation]
  simp only [HeaderValue.toStr, Option.bind_some, hjoin, h.isHttp, hcurrent, h.hasUserinfo,
    h.scheme, h.sameOrigin hcurrent, Bool.not_true, Bool.false_eq_true, if_false]
  split
  · rfl
  · rw [if_neg]
    simp

/-- A redirect to a relative reference is followed, with the same headers and client, where
the current URL has no userinfo, and only there. -/
theorem relative_redirect_iff (law : JoinLaw lib) (hcurrent : current.isHttp = true)
    {response : HeaderMap} {reference : Str}
    (hlocation : response.getAll (str "location") = [.text reference])
    (hreference : isRelativeReference reference = true) (request : HeaderMap)
    (client : InitialClient) :
    (∃ target, redirectTarget lib current response request client = .ok (target, request, client) ∧
      target.scheme = current.scheme ∧ target.host = current.host ∧ target.port = current.port) ↔
      current.hasUserinfo = false := by
  obtain ⟨target, hjoin, hsame⟩ := law.relative current reference hcurrent hreference
  rw [redirectTarget_sameAuthority hcurrent hlocation hjoin hsame]
  constructor
  · intro ⟨_, h, _⟩
    by_contra huser
    rw [if_pos (by simpa using huser)] at h
    cases h
  · intro huser
    rw [if_neg (by simp [huser])]
    exact ⟨target, rfl, hsame.scheme, hsame.host, hsame.port⟩

end Redirect

section Instances

/-- The text in front of a character, and the text behind it if it is there. -/
def cutAt (c : Char) (s : Str) : Str × Option Str :=
  match splitOnce c s with
  | some (front, behind) => (front, some behind)
  | none => (s, none)

/-- Resolution of a relative reference whose path has no dot segments. -/
def resolveRelative (base : Url) (reference : Str) : Url :=
  let (reference, fragment) := cutAt '#' reference
  let (path, query) := cutAt '?' reference
  if path.isEmpty then {base with query := query.orElse fun _ => base.query, fragment := fragment}
  else
    let path := if ['/'].isPrefixOf path then path
      else base.path.rdropWhile (· != '/') ++ path
    {base with path := path, query := query, fragment := fragment}

def joiningUrls : UrlCrate :=
  {plainUrls with
    join := fun base reference =>
      if isRelativeReference reference then some (resolveRelative base reference)
      else plainUrls.join base reference}

theorem joiningUrls_law : JoinLaw joiningUrls where
  relative := by
    intro base reference _ hreference
    have hjoin : joiningUrls.join base reference = some (resolveRelative base reference) :=
      if_pos hreference
    refine ⟨_, hjoin, ?_⟩
    unfold resolveRelative
    dsimp only
    split <;> exact ⟨rfl, rfl, rfl, rfl, rfl⟩

/-- The index of a repository that is configured with a user name or without one. -/
def repoIndex (username : Str) : Url :=
  ⟨str "https", username, none, some (.domain (str "charts.example.com")), none,
    str "/repo/index.yaml", none, none⟩

def moved (reference : String) : HeaderMap := [(str "location", .text (str reference))]

theorem moved_index_is_followed :
    ∃ target,
      redirectTarget joiningUrls (repoIndex []) (moved "index-2.yaml?v=2") [] .trusted =
        .ok (target, [], .trusted) ∧
      target.scheme = str "https" ∧ target.host = some (.domain (str "charts.example.com")) ∧
      target.port = none :=
  (relative_redirect_iff joiningUrls_law (by decide) rfl (by decide) [] .trusted).mpr (by decide)

/-- The same redirect is refused where the repository's URL has a user name. -/
theorem configured_user_blames_redirect :
    isRelativeReference (str "/moved/index.yaml") = true ∧
      redirectTarget joiningUrls (repoIndex (str "ann")) (moved "/moved/index.yaml") [] .trusted =
        .error (.upstream (str "upstream redirect contained userinfo")) := by
  decide

end Instances

end Helmoci.RelativeRedirects
