import Helmoci.BlobStorage
import Helmoci.ChartBuild
import Helmoci.RegistryTokens

/-!
# The state that the handlers share

The configuration, the libraries and whether GCP credentials are there. The caches and
the object store are not part of it: they are behind the operations, and what they
hold is up to the world in which a handler runs.
-/
namespace Helmoci.ServerState
open RustText ChartIndex Helmoci.Configuration JsonDocuments BlobStorage ChartBuild RegistryTokens

/-- The libraries behind the server. -/
structure Crates extends ChartCrates where
  indexYaml : IndexParser
  json : JsonCrate
  tokenJson : Bytes → Option TokenResponse

structure AppState where
  crates : Crates
  cfg : RuntimeConfig
  gcp : Bool

def AppState.storage (state : AppState) : Storage := objectStoreStorage state.crates.json

def AppState.ephemeral (state : AppState) : Storage := ephemeralStorage state.crates.json

end Helmoci.ServerState
