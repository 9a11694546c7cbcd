import Helmoci.JsonText
import Helmoci.ServerState

/-!
# Libraries for plain inputs

Instances of the libraries on which concrete requests can be evaluated: plain URLs, the
server's own JSON texts, the hashes of the byte strings that occur, and for everything
else an answer that refuses. A test replaces what it is about. The demo is one chart with
its repository, its archive and all that the server makes of it.
-/
namespace Helmoci.PlainCrates
open RustText UrlInterface NameResolver OciDigest PlainUrls JsonDocuments JsonValues ServerErrors
  DependencyRewriting TarUnpacking TarPacking ChartBuild Helmoci.Configuration ServerOperations
  ServerState Utf8

theorem isCanonical_hex {hex : Str} (hall : hex.all isLowerHex = true) (hlen : hex.length = 64) :
    isCanonical (str "sha256:" ++ hex) = true := by
  have hbytes : byteLen hex = 64 := by
    rw [byteLen_eq_length]
    · exact hlen
    · intro c hc
      exact toNat_lt_of_isLowerHex (List.all_eq_true.mp hall c hc)
  rw [isCanonical, dropPrefix?_append]
  simp [hbytes, hall]

/-- The digest that repeats one digit. -/
def digestOf (c : Char) (h : isLowerHex c = true) : Digest :=
  ⟨str "sha256:" ++ List.replicate 64 c, isCanonical_hex (by simp [h]) List.length_replicate⟩

/-- A digest that is written out. -/
def hexDigest (hex : Str) (h : (hex.all isLowerHex && hex.length == 64) = true) : Digest :=
  ⟨str "sha256:" ++ hex, isCanonical_hex (Bool.and_eq_true_iff.mp h).1
    (eq_of_beq (Bool.and_eq_true_iff.mp h).2)⟩

/-- A platform of 64 bits whose allocations succeed. -/
def platform64 : Platform := ⟨u64Max, fun _ => true, fun _ => true⟩

/-- The manifest of a registry that says no more than the schema's version. -/
def bareManifest : Bytes := bytes "\x7b\"schemaVersion\":2\x7d"

def bareDigest : Digest :=
  hexDigest (str "bafebd36189ad3688b7b3915ea55d461e0bfcfbdde11e54b0a123999fb6be50f") (by decide)

/-- The digest of the bytes 1, 2 and 3. -/
def threeDigest : Digest :=
  hexDigest (str "039058c6f2c0cb492c533b0a4d14ef77cc0f78abccced5287d84a1a2011cfb81") (by decide)

/-- The digest of an empty JSON object. -/
def emptyDigest : Digest :=
  hexDigest (str "44136fa355b3678a1146ad16f7e8649e94fb4fc21fe77e8310c060f61caaff8a") (by decide)

def demoIndexText : Str := str "entries: \x7bdemo: [\x7bversion: 1.0.0, urls: [/demo.tgz]\x7d]\x7d\n"

def demoChartText : Str := str "name: demo\nversion: 1.0.0\n"

/-- The gzipped tar of `demo/Chart.yaml` with the text of the chart. -/
def demoTgz : Bytes :=
  [31, 139, 8, 0, 0, 0, 0, 0, 2, 3, 75, 73, 205, 205, 215, 119, 206, 72, 44, 42, 209, 171, 76, 204,
    205, 97, 160, 5, 48, 0, 2, 51, 19, 19, 48, 13, 4, 232, 180, 129, 129, 177, 17, 130, 13, 18, 55,
    52, 48, 51, 52, 100, 80, 48, 96, 160, 3, 40, 45, 46, 73, 44, 2, 90, 207, 48, 50, 65, 94, 98,
    110, 170, 149, 66, 10, 48, 21, 112, 149, 165, 22, 21, 103, 230, 231, 89, 41, 24, 234, 25, 232,
    25, 112, 49, 140, 130, 81, 48, 10, 70, 193, 40, 24, 198, 0, 0, 146, 80, 105, 14, 0, 8, 0, 0]

def demoConfig : Bytes := bytes "\x7b\"name\":\"demo\",\"version\":\"1.0.0\"\x7d"

def demoConfigDigest : Digest :=
  hexDigest (str "68fa83dd5799ee4c5690bbef16b4204c16944a04a99d3f926f891fcfe08835af") (by decide)

def demoLayerDigest : Digest :=
  hexDigest (str "85c15d9d42965131df94c6395673d26a126dff060835965d05a955d247038f66") (by decide)

def demoManifestDigest : Digest :=
  hexDigest (str "7defd54fb8c2a12b72733d8cd8aa57044352f9dc231ebe0a8852a4c23f539873") (by decide)

def demoOciManifest : OciManifest := helmManifest demoConfigDigest demoLayerDigest 33 114

/-- The SHA-256 of the byte strings that are hashed. -/
def knownDigests : List (Bytes × Digest) :=
  [([1, 2, 3], threeDigest), (bytes "\x7b\x7d", emptyDigest), (bareManifest, bareDigest),
    (bytes "https://charts.example.com/index.yaml",
      hexDigest (str "12459d32a6fefde3ee1c7436146bb522f64714a5a580ab5cb2d59b27f7102b58")
        (by decide)),
    (asBytes demoIndexText,
      hexDigest (str "cfbc3eaa99364f329c77a81a704bd6159799cbcea66f81aef0bc9182c763582a")
        (by decide)),
    (demoTgz, demoLayerDigest), (demoConfig, demoConfigDigest),
    (encodeManifest demoOciManifest, demoManifestDigest),
    (bytes "\x7b\"name\":\"team/demo\",\"tags\":[\"a\"]\x7d",
      hexDigest (str "f73a17d7f3d2c88de216d6869152e6227afa4aafcee48613c89ac5e3dd176c69")
        (by decide)),
    (bytes "\x7b\"name\":\"team/demo\",\"tags\":[\"b\"]\x7d",
      hexDigest (str "8a3e0692257196e4f651346b404325bc317e5a5f0649c8ee8e8ca0982e6c9405")
        (by decide))]

def plainCrates : Crates where
  url := plainUrls
  sha256 data := (knownDigests.lookup data).getD (digestOf '0' (by decide))
  platform := platform64
  reader _ := .error (str "not a gzip file")
  writer := ⟨fun _ _ _ _ => .error (str "not supported"), .ok, .ok⟩
  yaml _ := .error (str "not supported")
  yamlText _ := .error (str "not supported")
  yamlJson _ := .error (str "not supported")
  indexYaml _ := none
  json := compactJson fun data =>
    if data = bareManifest then some (.object [(str "schemaVersion", .number (some 2))]) else none
  tokenJson _ := none

/-- JSON text without floats. -/
def plainValues : ValueCrate := JsonText.jsonText fun _ => none

theorem plainValues_laws : ValueLaws plainValues := by
  apply JsonText.jsonText_laws
  intro s text h
  contradiction

/-- The answer of a token endpoint. -/
def tokenBody : Bytes := bytes "\x7b\"token\":\"abc\"\x7d"

def tokenCrates : Crates :=
  {plainCrates with tokenJson := fun data =>
    if data = tokenBody then some ⟨some (str "abc"), none, none⟩ else none}

def plainConfig : RuntimeConfig where
  settings := {storage := .memory}
  aliases := ∅
  classicAliasByRepo := ∅

def plainState : AppState := ⟨plainCrates, plainConfig, false⟩

def demoChartYaml : Yaml :=
  .mapping [(.string (str "name"), .string (str "demo")),
    (.string (str "version"), .string (str "1.0.0"))]

/-- The libraries know the demo's repository and chart. -/
def demoCrates : Crates :=
  {plainCrates with
    reader := fun data =>
      if data = demoTgz then
        .ok [.ok (member ⟨26, 0o644, 0⟩ (.ok (str "demo/Chart.yaml")) (asBytes demoChartText))]
      else .error (str "not a gzip file")
    yaml := fun text =>
      if text = demoChartText then .ok demoChartYaml else .error (str "not supported")
    yamlJson := fun value =>
      match value with
      | .mapping [(.string _, .string name), (.string _, .string version)] =>
        if name = str "demo" ∧ version = str "1.0.0" then .ok demoConfig
        else .error (str "not supported")
      | _ => .error (str "not supported")
    indexYaml := fun text =>
      if text = demoIndexText then
        some ⟨some (collect [(str "demo", [⟨some (str "1.0.0"), some [str "/demo.tgz"]⟩])])⟩
      else none}

def demoUrl : Str := str "https://charts.example.com"

/-- Two aliases of the demo's repository, of which one keeps what it reads. -/
def demoSettings (maxChartBytes : ℕ) : Config where
  maxChartBytes := maxChartBytes
  storage := .memory
  aliases := collect [(str "kept", {upstream := demoUrl, store := true}),
    (str "cached", {upstream := demoUrl})]

def demoAliases : List (Str × Alias) :=
  [(str "cached", ⟨.classic demoUrl, false, .none, false⟩),
    (str "kept", ⟨.classic demoUrl, true, .none, false⟩)]

def demoState (maxChartBytes : ℕ) : AppState :=
  ⟨demoCrates, ⟨demoSettings maxChartBytes, collect demoAliases,
    classicAliasRewriteMap plainUrls (collect demoAliases)⟩, false⟩

/-- The server starts with these settings. -/
theorem demoState_validated {maxChartBytes : ℕ} (h : maxChartBytes ≤ 256 * 1024 * 1024) :
    validate plainUrls Char.isAlphanum id (demoSettings maxChartBytes) [] =
      .ok (demoState maxChartBytes).cfg := by
  have hchecked : checkSettings (demoSettings maxChartBytes) = .ok () := by
    have hexpanded : ¬ 500 * 1024 * 1024 < maxChartBytes := by omega
    have hcache : ¬ 256 * 1024 * 1024 < maxChartBytes := by omega
    unfold checkSettings
    simp only [demoSettings, gt_iff_lt, hexpanded, hcache]
    rfl
  have haliases : validateAliases plainUrls id
      ((demoSettings maxChartBytes).aliases.entries.map fun e => (e.1, e.2)) =
        .ok demoAliases := by
    change validateAliases plainUrls id [(str "cached", {upstream := demoUrl}),
      (str "kept", {upstream := demoUrl, store := true})] = _
    decide +kernel
  have hcredentialed : checkCredentialed (demoSettings maxChartBytes) demoAliases = .ok () := by
    simp [checkCredentialed, demoAliases, demoSettings]
  unfold validate
  rw [hchecked, haliases]
  change (checkCredentialed (demoSettings maxChartBytes) demoAliases >>= fun _ => _) = _
  rw [hcredentialed]
  rfl

/-- The chart by the host of its repository. -/
def demoChart : ClassicChart :=
  ⟨demoUrl, str "demo", str "charts.example.com/demo", false, .hostPath⟩

/-- The chart by one of the aliases. -/
def aliasChart (store : Bool) : ClassicChart :=
  ⟨demoUrl, str "demo", if store then str "kept/demo" else str "cached/demo", !store,
    .configuredAlias⟩

theorem resolveName_aliasChart (store : Bool) (maxChartBytes : ℕ) :
    resolveName plainUrls (aliasChart store).fullName (demoState maxChartBytes).cfg.aliases =
      some (.classic (aliasChart store)) := by
  change resolveName plainUrls (aliasChart store).fullName (collect demoAliases) = _
  cases store <;> decide +kernel

/-- The repository of the demo. -/
def demoUpstream (request : HttpRequest) : Except Str HttpResponse :=
  if request.url.path = str "/index.yaml" then .ok ⟨200, [], none, [.ok (asBytes demoIndexText)]⟩
  else if request.url.path = str "/demo.tgz" then .ok ⟨200, [], none, [.ok demoTgz]⟩
  else .error (str "connection refused")

def demoBuilt : BuiltChart := assemble demoCrates.toChartCrates demoConfig demoTgz []

/-- The chart has no dependencies, so its archive is the layer for every proxy. -/
theorem buildHelmOciChart_demo (ctx : RewriteContext) :
    buildHelmOciChart demoCrates.toChartCrates ctx (.forExpandedBytes (500 * 1024 * 1024))
      demoTgz = .ok demoBuilt := by
  have hrewrite : rewriteChartDependencies demoCrates.toChartCrates ctx
      (.forExpandedBytes (500 * 1024 * 1024)) demoTgz = .ok ⟨demoTgz, false, []⟩ := by
    obtain ⟨proxyHost, repos⟩ := ctx
    cases proxyHost <;> rfl
  have hconfig : chartConfigFromTgz demoCrates.toChartCrates
      (.forExpandedBytes (500 * 1024 * 1024)) demoTgz = .ok demoConfig := rfl
  unfold buildHelmOciChart
  rw [hrewrite]
  change (chartConfigFromTgz demoCrates.toChartCrates (.forExpandedBytes (500 * 1024 * 1024))
    demoTgz >>= fun config =>
      (pure (assemble demoCrates.toChartCrates config demoTgz []) : Except HelmError _)) = _
  rw [hconfig]
  rfl

end Helmoci.PlainCrates
