import Helmoci.NameGrammar

/-!
# A URL library for plain URLs

URLs `http[s]://<host>[:<port>][/<path>][?<query>]` whose host is a lower-case name
and whose path and query need no escapes are parsed the way the URL standard says;
every other text is refused. It is an instance of the library's interface on which
concrete inputs can be evaluated, and on which the laws that results rely on hold.
-/
namespace Helmoci.PlainUrls
open RustText UrlInterface NameGrammar

def hostChar (c : Char) : Bool := c.isLower || c.isDigit || c == '-' || c == '.'

def pathChar (c : Char) : Bool := chartNameChar c || c == '/' || c == '~'

def queryChar (c : Char) : Bool := pathChar c || c == '=' || c == '&' || c == ':'

/-- The digits behind the colon, empty without a port. -/
def parsePort (scheme : Str) : Str → Option (Option ℕ)
  | [] => some none
  | ':' :: digits =>
    if !digits.isEmpty && digits.all Char.isDigit then
      let n := digits.foldl (fun n c => 10 * n + (c.toNat - 48)) 0
      if 65535 < n then none else some (if knownPort scheme = some n then none else some n)
    else none
  | _ => none

/-- The path and query behind the authority. -/
def parseTail (tail : Str) : Option (Str × Option Str) :=
  let path := tail.takeWhile (· != '?')
  let query := (tail.dropWhile (· != '?')).tail?
  if path.all pathChar && (query.getD []).all queryChar then
    some (if path.isEmpty then str "/" else path, query)
  else none

def parseBehind (scheme rest : Str) : Option Url := do
  let inAuthority := fun c : Char => c != '/' && c != '?'
  let authority := rest.takeWhile inAuthority
  let host := authority.takeWhile (· != ':')
  if host.isEmpty || !host.all hostChar then none
  else
    let port ← parsePort scheme (authority.dropWhile (· != ':'))
    let (path, query) ← parseTail (rest.dropWhile inAuthority)
    some ⟨scheme, [], none, some (.domain host), port, path, query, none⟩

def parse (s : Str) : Option Url :=
  match s.dropPrefix? (str "https://") with
  | some rest => parseBehind (str "https") rest
  | none =>
    match s.dropPrefix? (str "http://") with
    | some rest => parseBehind (str "http") rest
    | none => none

def serialize (u : Url) : Str :=
  u.scheme ++ str "://" ++ u.hostStr.getD [] ++ (u.port.elim [] fun n => ':' :: decimal n) ++
    u.path ++ u.query.elim [] fun q => '?' :: q

/-- An absolute reference, or one that begins with a slash. -/
def join (base : Url) (reference : Str) : Option Url :=
  match parse reference with
  | some u => some u
  | none =>
    if ['/'].isPrefixOf reference && !(str "//").isPrefixOf reference then
      (parseTail reference).map fun (path, query) => {base with path := path, query := query}
    else none

def hostParse (host : Str) : Option Host :=
  if host.isEmpty then none
  else if host.all fun c => c.isDigit || c == '.' then some (.ipv4 host)
  else some (.domain host)

def plainUrls : UrlCrate where
  parse := parse
  parseError _ := str "invalid URL"
  join := join
  serialize := serialize
  hostParse := hostParse
  encodePath _ path := if ['/'].isPrefixOf path then path else '/' :: path
  pushSegments u segments := u.path.rdropWhile (· == '/') ++ (segments.map ('/' :: ·)).flatten
  encodeQuery _ query := query
  appendPairs query pairs :=
    (query.elim [] fun q => q ++ ['&']) ++ ['&'].intercalate (pairs.map fun p => p.1 ++ '=' :: p.2)
  otherOrigin _ := .distinct

/-- A parsed URL has a host of host characters and no userinfo. -/
theorem parse_eq_some {s : Str} {u : Url} (h : parse s = some u) :
    u.isHttp = true ∧ u.hasUserinfo = false ∧
      ∃ host, u.host = some (.domain host) ∧ host ≠ [] ∧ ∀ c ∈ host, hostChar c = true := by
  have behind : ∀ {scheme rest}, parseBehind scheme rest = some u →
      u.scheme = scheme ∧ u.hasUserinfo = false ∧
        ∃ host, u.host = some (.domain host) ∧ host ≠ [] ∧ ∀ c ∈ host, hostChar c = true := by
    intro scheme rest h
    simp only [parseBehind, bind] at h
    split at h
    · contradiction
    · rename_i hh
      obtain ⟨port, -, h⟩ := Option.bind_eq_some_iff.mp h
      obtain ⟨⟨path, query⟩, -, h⟩ := Option.bind_eq_some_iff.mp h
      simp only [Option.some.injEq] at h
      subst h
      simp only [Bool.or_eq_true, List.isEmpty_iff, Bool.not_eq_true', not_or,
        Bool.not_eq_false, List.all_eq_true] at hh
      exact ⟨rfl, rfl, _, rfl, hh.1, hh.2⟩
  unfold parse at h
  split at h
  · obtain ⟨hs, h⟩ := behind h
    exact ⟨by rw [Url.isHttp, hs]; decide, h⟩
  · split at h
    · obtain ⟨hs, h⟩ := behind h
      exact ⟨by rw [Url.isHttp, hs]; decide, h⟩
    · contradiction

theorem parse_scheme {scheme rest : Str} (hs : scheme ∈ [str "http", str "https"]) :
    parse (scheme ++ (str "://" ++ rest)) = parseBehind scheme rest := by
  have dropHttp : (str "http" ++ (str "://" ++ rest)).dropPrefix? (str "https://") = none := by
    simp [str, List.dropPrefix?]
  have dropHttp' : (str "http" ++ (str "://" ++ rest)).dropPrefix? (str "http://") = some rest := by
    simp [str, List.dropPrefix?]
  have dropHttps : (str "https" ++ (str "://" ++ rest)).dropPrefix? (str "https://") =
      some rest := by
    simp [str, List.dropPrefix?]
  simp only [List.mem_cons, List.not_mem_nil, or_false] at hs
  rcases hs with rfl | rfl
  · simp only [parse, dropHttp, dropHttp']
  · simp only [parse, dropHttps]

/-- The URL of a host and a path behind it. -/
theorem parse_https {host : Str} (path : Str) (hn : host ≠ []) (hh : ∀ c ∈ host, hostChar c = true)
    (hp : ∀ c ∈ path, pathChar c = true) (hs : path = [] ∨ ['/'] <+: path) :
    parse (str "https://" ++ (host ++ path)) = some ⟨str "https", [], none,
      some (.domain host), none, if path.isEmpty then str "/" else path, none, none⟩ := by
  have hd : (str "https://" ++ (host ++ path)).dropPrefix? (str "https://") =
      some (host ++ path) := List.dropPrefix?_append_of_beq _ (beq_self_eq_true _)
  have hq : ∀ c ∈ path, (c != '?') = true := by
    intro c hc
    rw [bne_iff_ne]
    rintro rfl
    exact absurd (hp _ hc) (by decide)
  have ha : ∀ c ∈ host, (c != '/' && c != '?') = true := by
    intro c hc
    have := hh c hc
    by_contra hb
    simp only [Bool.and_eq_true, bne_iff_ne, not_and_or, not_not] at hb
    rcases hb with rfl | rfl <;> exact absurd this (by decide)
  have hc : ∀ c ∈ host, (c != ':') = true := by
    intro c hc
    rw [bne_iff_ne]
    rintro rfl
    exact absurd (hh _ hc) (by decide)
  have hstop : path.takeWhile (fun c => c != '/' && c != '?') = [] ∧
      path.dropWhile (fun c => c != '/' && c != '?') = path := by
    rcases hs with rfl | ⟨t, rfl⟩ <;> simp
  have ht : parseTail path = some (if path.isEmpty then str "/" else path, none) := by
    have hall : path.all pathChar = true := List.all_eq_true.mpr hp
    simp [parseTail, List.takeWhile_eq_self_iff.mpr hq, List.dropWhile_eq_nil_iff.mpr hq, hall]
  have hall : host.all hostChar = true := List.all_eq_true.mpr hh
  simp only [parse, hd, parseBehind, List.takeWhile_append_of_pos ha,
    List.dropWhile_append_of_pos ha, hstop.1, hstop.2, List.append_nil,
    List.takeWhile_eq_self_iff.mpr hc, List.dropWhile_eq_nil_iff.mpr hc, parsePort, ht]
  simp [hn, hall]

end Helmoci.PlainUrls
