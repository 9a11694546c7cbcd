import Helmoci.NameResolver

/-!
# The configuration and its validation

`validate` turns the settings as they were read into the ones the server runs with,
or refuses them with a text for the operator. Reading the YAML and expanding the
environment come before it; it gets the names of the variables that were not set.
The Unicode test of `char::is_alphanumeric` and the debug form of a text are
parameters. The checks come in the order of the source, so the first one that fails
is the one reported.
-/
namespace Helmoci.Configuration
open RustText SegmentedText UrlInterface NameGrammar NameResolver

def maxCacheTtlSecs : ℕ := 1000 * 365 * 24 * 60 * 60

structure S3Config where
  endpoint : Option Str := none
  bucket : Str
  region : Option Str := none
  accessKeyId : Str
  secretAccessKey : Str

structure GcsConfig where
  bucket : Str
  serviceAccountKey : Option Str := none

inductive Backend where
  | s3 (settings : S3Config)
  | gcs (settings : GcsConfig)
  | localFs (path : Str)
  | memory

structure EphemeralCacheConfig where
  maxBytes : ℕ := 256 * 1024 * 1024
  ttlSecs : ℕ := 1800

structure AuthConfig where
  enabled : Bool := false
  tokens : List Str := []

structure AliasConfig where
  upstream : Str
  store : Bool := false
  auth : UpstreamAuthKind := .none
  plainHttp : Bool := false

structure Config where
  maxChartBytes : ℕ := 50 * 1024 * 1024
  maxExpandedChartBytes : ℕ := 500 * 1024 * 1024
  maxIndexBytes : ℕ := 64 * 1024 * 1024
  indexCacheTtlSecs : ℕ := 600
  ephemeralCache : EphemeralCacheConfig := {}
  storage : Backend
  auth : AuthConfig := {}
  allowPublicPrivateUpstreams : Bool := false
  aliases : HashMap AliasConfig := ∅

structure RuntimeConfig where
  settings : Config
  aliases : HashMap Alias
  classicAliasByRepo : HashMap Str

/-- What is left behind each occurrence of a nonempty pattern, found from the left. -/
def afterMatches (pat : Str) : Str → ℕ → List Str
  | [], _ => []
  | _ :: s, skip + 1 => afterMatches pat s skip
  | c :: s, 0 =>
    if pat.isPrefixOf (c :: s) then (c :: s).drop pat.length :: afterMatches pat s (pat.length - 1)
    else afterMatches pat s 0

section Validate
variable (lib : UrlCrate) (isAlphanumeric : Char → Bool) (debug : Str → Str)

def referencesMissingVar (value var : Str) : Bool :=
  (splitLast? (str "$\x7b" ++ var ++ str "\x7d") value).isSome ||
    (afterMatches ('$' :: var) value 0).any fun rest =>
      match rest with
      | [] => true
      | next :: _ => !(isAlphanumeric next || next == '_')

def rejectUnexpandedSecret (field value : Str) (missingVars : List Str) : Except Str Unit :=
  match missingVars.find? (referencesMissingVar isAlphanumeric value) with
  | none => .ok ()
  | some var => .error (field ++ str " still references environment variable " ++ var ++
      str (", which is not set: helmoci refuses to use the literal reference as a credential. " ++
        "Set ") ++ var ++ str " before starting helmoci.")

/-- The checks on the numbers and switches. -/
def checkSettings (settings : Config) : Except Str Unit := do
  if settings.indexCacheTtlSecs > maxCacheTtlSecs then
    throw (str "index_cache_ttl_secs must not exceed " ++ decimal maxCacheTtlSecs ++
      str " seconds (1000 years)")
  if settings.ephemeralCache.ttlSecs > maxCacheTtlSecs then
    throw (str "ephemeral_cache.ttl_secs must not exceed " ++ decimal maxCacheTtlSecs ++
      str " seconds (1000 years)")
  if settings.maxExpandedChartBytes = 0 then
    throw (str "max_expanded_chart_bytes must be greater than zero")
  if settings.maxExpandedChartBytes < settings.maxChartBytes then
    throw (str "max_expanded_chart_bytes (" ++ decimal settings.maxExpandedChartBytes ++
      str ") must be at least max_chart_bytes (" ++ decimal settings.maxChartBytes ++
      str "): charts expand to more bytes than they download as")
  if settings.maxIndexBytes = 0 then throw (str "max_index_bytes must be greater than zero")
  if settings.ephemeralCache.maxBytes < settings.maxChartBytes then
    throw (str "ephemeral_cache.max_bytes (" ++ decimal settings.ephemeralCache.maxBytes ++
      str ") must hold at least one max_chart_bytes (" ++ decimal settings.maxChartBytes ++
      str (") artifact, otherwise nothing is ever retained and every pull rebuilds the chart"))
  if settings.auth.enabled && !settings.auth.tokens.any (fun token => !token.isEmpty) then
    throw (str "auth.enabled is true but auth.tokens has no non-empty token")
  match settings.storage with
  | .s3 s3 =>
    if s3.endpoint.isNone && s3.region.isNone then
      throw (str ("storage.settings needs either region (AWS S3, whose endpoint is derived from " ++
        "it) or endpoint (an S3-compatible service such as Cloudflare R2 or MinIO)"))
  | _ => pure ()

/-- The values that are credentials, with the field that each is read from. -/
def secrets (settings : Config) : List (Str × Str) :=
  settings.auth.tokens.zipIdx.map (fun (token, index) =>
    (str "auth.tokens[" ++ decimal index ++ str "]", token)) ++
  match settings.storage with
  | .s3 s3 => [(str "storage.settings.access_key_id", s3.accessKeyId),
      (str "storage.settings.secret_access_key", s3.secretAccessKey)]
  | .gcs gcs => gcs.serviceAccountKey.toList.map fun key =>
      (str "storage.settings.service_account_key", key)
  | .localFs _ | .memory => []

def checkSecrets (settings : Config) (missingVars : List Str) : Except Str Unit :=
  (secrets settings).forM fun (field, value) =>
    rejectUnexpandedSecret isAlphanumeric field value missingVars

def validateAlias (name : Str) (aliasCfg : AliasConfig) : Except Str Alias :=
  if !isValidAliasName name then
    .error (str "invalid alias name " ++ debug name ++
      str ": alphanumeric, '-', '_' only (no dots)")
  else
    match parseAliasUpstream lib aliasCfg.upstream with
    | .error e => .error (str "alias " ++ name ++ str ": " ++ e)
    | .ok upstream =>
      match upstream, aliasCfg.auth with
      | .classic _, .gcp => .error (str "alias " ++ name ++
          str ": auth: gcp is only supported for oci:// upstreams")
      | _, _ => .ok ⟨upstream, aliasCfg.store, aliasCfg.auth, aliasCfg.plainHttp⟩

def validateAliases (aliases : List (Str × AliasConfig)) : Except Str (List (Str × Alias)) :=
  aliases.mapM fun (name, aliasCfg) => do
    let entry ← validateAlias lib debug name aliasCfg
    return (name, entry)

def checkCredentialed (settings : Config) (aliases : List (Str × Alias)) : Except Str Unit :=
  if !settings.auth.enabled && !settings.allowPublicPrivateUpstreams then
    let credentialed := ((aliases.filter fun p => p.2.auth != .none).map Prod.fst).mergeSort
      fun a b => decide (a ≤ b)
    if credentialed.isEmpty then .ok ()
    else .error (str "aliases [" ++ (str ", ").intercalate credentialed ++
      str ("] authenticate to their upstream while auth.enabled is false: helmoci holds those " ++
        "upstream credentials, so it would republish private upstream content to anonymous " ++
        "clients. Enable auth.enabled with at least one auth.tokens entry, or set " ++
        "allow_public_private_upstreams: true to accept that (unsafe: only for mirroring " ++
        "private charts onto a trusted network)."))
  else .ok ()

def validate (settings : Config) (missingVars : List Str) : Except Str RuntimeConfig := do
  checkSettings settings
  checkSecrets isAlphanumeric settings missingVars
  let aliases ← validateAliases lib debug (settings.aliases.entries.map fun e => (e.1, e.2))
  checkCredentialed settings aliases
  return ⟨settings, collect aliases, classicAliasRewriteMap lib (collect aliases)⟩

end Validate

end Helmoci.Configuration
