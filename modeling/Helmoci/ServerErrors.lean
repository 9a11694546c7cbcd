import Helmoci.RustText

/-!
# Errors of the chart code and of the server

A chart error carries its whole message. The server keeps the message and chooses
the status: 404 where something was not found, 413 for an oversized artifact and
502 for an upstream that cannot be used.
-/
namespace Helmoci.ServerErrors
open RustText

/-- What `?` leaves of a success. -/
theorem bind_eq_ok {E A B : Type} {r : Except E A} {f : A → Except E B} {b : B}
    (h : (r >>= f) = .ok b) : ∃ a, r = .ok a ∧ f a = .ok b := by
  cases r with
  | error e => contradiction
  | ok a => exact ⟨a, rfl, h⟩

inductive HelmError where
  | notFound (message : Str)
  | invalidIndex (message : Str)
  | invalidChart (message : Str)
  /-- A bound on the archive was broken: the expansion budget, a file or the entry count. -/
  | chartTooLarge (message : Str)
deriving DecidableEq, Repr

inductive AppError where
  | nameInvalid (message : Str)
  | nameUnknown (message : Str)
  | manifestUnknown (message : Str)
  | blobUnknown (message : Str)
  | upstream (message : Str)
  | tooLarge (message : Str)
  | unauthorized
  | unsupported (message : Str)
  | internal (message : Str)
deriving DecidableEq, Repr

namespace AppError

/-- Status, error code and message of the response. -/
def parts : AppError → ℕ × Str × Str
  | nameInvalid m => (400, str "NAME_INVALID", m)
  | nameUnknown m => (404, str "NAME_UNKNOWN", m)
  | manifestUnknown m => (404, str "MANIFEST_UNKNOWN", m)
  | blobUnknown m => (404, str "BLOB_UNKNOWN", m)
  | upstream m => (502, str "DENIED", m)
  | tooLarge m => (413, str "DENIED", m)
  | unauthorized => (401, str "UNAUTHORIZED", str "authentication required")
  | unsupported m => (405, str "UNSUPPORTED", m)
  | internal m => (500, str "DENIED", m)

/-- What the two conversions share: only a missing thing is named differently. -/
def fromHelm (missing : Str → AppError) : HelmError → AppError
  | .notFound m => missing m
  | .invalidIndex m => upstream m
  | .invalidChart m => upstream m
  | .chartTooLarge m => tooLarge m

def fromHelmForManifest : HelmError → AppError := fromHelm manifestUnknown

def fromHelmForTags : HelmError → AppError := fromHelm nameUnknown

/-- No error is answered with success. -/
theorem parts_status (e : AppError) : 400 ≤ e.parts.1 := by
  cases e <;> simp [parts]

end AppError
end Helmoci.ServerErrors
