import Helmoci.JsonDocuments
import Helmoci.ServerOperations

/-!
# Blobs and tag pointers in storage

One interface over the object store, which keeps what is stored, and over the
in-memory cache, which drops entries when it likes. A blob is stored under its
digest and never replaced on purpose; a tag pointer is replaced by every write.
Whatever fails in storage becomes an internal error that names the operation only.
-/
namespace Helmoci.BlobStorage
open RustText OciDigest JsonDocuments ServerErrors EffectPrograms ServerOperations

inductive StorageOp where
  | blobRead | blobStat | blobWrite | tagRead | tagWrite
deriving DecidableEq, Repr

def StorageOp.text : StorageOp → Str
  | .blobRead => str "blob read"
  | .blobStat => str "blob stat"
  | .blobWrite => str "blob write"
  | .tagRead => str "tag pointer read"
  | .tagWrite => str "tag pointer write"

/-- The error as a handler reports it. -/
def storageError (op : StorageOp) : AppError :=
  .internal (str "storage backend error (" ++ (op.text ++ str ")"))

structure BlobMeta where
  size : ℕ
  contentType : Option Str

structure Blob where
  blobMeta : BlobMeta
  data : List (Except AppError Bytes)

structure TagScope where
  proxyHost : Str
  fullName : Str
deriving DecidableEq, Repr

def blobKey (digest : Digest) : Str := str "blobs/" ++ digest.asStr

def tagKey (scope : TagScope) (tag : Str) : Str :=
  str "tags/" ++ (scope.proxyHost ++ '/' :: (scope.fullName ++ '/' :: tag))

def isAsciiControl (c : Char) : Bool := c.toNat < 32 || c.toNat == 127

def validPathSegment (segment : Str) : Bool :=
  !segment.isEmpty && segment != str "." && segment != str ".." && !segment.any isAsciiControl

/-- `Path::parse` of the object store: one slash at either end is dropped. -/
def parsePath (key : Str) : Option Str :=
  let stripped := (key.dropPrefix? ['/']).getD key
  if stripped.isEmpty then some []
  else
    let stripped := (stripped.dropSuffix? ['/']).getD stripped
    if (stripped.splitOn '/').all validPathSegment then some stripped else none

def storagePath (op : StorageOp) (key : Str) : Except AppError Str :=
  match parsePath key with
  | none => .error (storageError op)
  | some path => .ok path

/-- The storage that handlers use. -/
structure Storage where
  getBlob : Digest → Server (Option Blob)
  putBlob : Digest → Str → Bytes → Server Unit
  getTagPointer : TagScope → Str → Server (Option TagPointer)
  putTagPointer : TagScope → Str → TagPointer → Server Unit

namespace ObjectStore

def maxTagPointerBytes : ℕ := 8 * 1024

/-- A failed probe counts as absent. -/
def alreadyStored (path : Str) : Server Bool := do
  match ← perform (.head path) with
  | .ok _ => return true
  | .error _ => return false

def putOnce (path : Str) (data : Bytes) (attributes : Attributes) (mode : PutMode) :
    Server (Except ObjectError Unit) := do
  match ← perform (.put path data attributes mode) with
  | .error .alreadyExists => return .ok ()
  | result => return result

def unsupportedCapability : ObjectError → Bool
  | .notSupported | .notImplemented => true
  | _ => false

def conditionalCreateUnsupported (e : ObjectError) : Bool :=
  unsupportedCapability e || e == .generic

/-- The rungs that may be given up, and the last one. -/
def putRungs (path : Str) (data : Bytes) (mode : PutMode) :
    List Attributes → Attributes → Server (Except ObjectError Unit)
  | [], last => putOnce path data last mode
  | attributes :: degradable, last => do
    match ← putOnce path data attributes mode with
    | .ok () => return .ok ()
    | .error e =>
      if unsupportedCapability e then putRungs path data mode degradable last
      else return .error e

def blobAttributeRungs (digest : Digest) (contentType : Str) : List Attributes :=
  [⟨some contentType, some digest.asStr⟩, ⟨some contentType, none⟩]

def putBlobRungs (path : Str) (digest : Digest) (contentType : Str) (data : Bytes)
    (mode : PutMode) : Server (Except ObjectError Unit) :=
  putRungs path data mode (blobAttributeRungs digest contentType) {}

def getBlob (digest : Digest) : Server (Option Blob) := do
  let path ← liftResult (storagePath .blobRead (blobKey digest))
  match ← perform (.get path) with
  | .ok result =>
    let data := result.chunks.map fun chunk => chunk.mapError fun _ => storageError .blobRead
    return some ⟨⟨result.size, result.contentType⟩, data⟩
  | .error .notFound => return none
  | .error _ => throw (storageError .blobRead)

def putBlob (digest : Digest) (contentType : Str) (data : Bytes) : Server Unit := do
  let path ← liftResult (storagePath .blobWrite (blobKey digest))
  if ← alreadyStored path then return ()
  else
    match ← putBlobRungs path digest contentType data .create with
    | .ok () => return ()
    | .error e =>
      if conditionalCreateUnsupported e then
        if ← alreadyStored path then return ()
        else
          match ← putBlobRungs path digest contentType data .overwrite with
          | .ok () => return ()
          | .error _ => throw (storageError .blobWrite)
      else throw (storageError .blobWrite)

/-- Chunks up to the bound, none beyond it, and the first error. -/
def readPointerChunks (data : Bytes) :
    List (Except ObjectError Bytes) → Except AppError (Option Bytes)
  | [] => .ok (some data)
  | .error _ :: _ => .error (storageError .tagRead)
  | .ok chunk :: chunks =>
    if maxTagPointerBytes < data.length + chunk.length then .ok none
    else readPointerChunks (data ++ chunk) chunks

def getTagPointer (json : JsonCrate) (scope : TagScope) (tag : Str) :
    Server (Option TagPointer) := do
  let path ← liftResult (storagePath .tagRead (tagKey scope tag))
  match ← perform (.get path) with
  | .ok result =>
    if maxTagPointerBytes < result.size then return none
    else
      let data ← liftResult (readPointerChunks [] result.chunks)
      return data.bind json.pointer
  | .error .notFound => return none
  | .error _ => throw (storageError .tagRead)

def putTagPointer (scope : TagScope) (tag : Str) (pointer : TagPointer) : Server Unit := do
  let path ← liftResult (storagePath .tagWrite (tagKey scope tag))
  match ← perform (.put path (encodePointer pointer) {} .overwrite) with
  | .ok () => return ()
  | .error _ => throw (storageError .tagWrite)

end ObjectStore

def objectStoreStorage (json : JsonCrate) : Storage where
  getBlob := ObjectStore.getBlob
  putBlob := ObjectStore.putBlob
  getTagPointer := ObjectStore.getTagPointer json
  putTagPointer := ObjectStore.putTagPointer

namespace Ephemeral

def getBlob (digest : Digest) : Server (Option Blob) := do
  match ← perform (.cacheGet (blobKey digest)) with
  | none => return none
  | some entry => return some ⟨⟨entry.data.length, some entry.contentType⟩, [.ok entry.data]⟩

def putBlob (digest : Digest) (contentType : Str) (data : Bytes) : Server Unit :=
  perform (.cacheOrInsert (blobKey digest) ⟨contentType, data⟩)

def getTagPointer (json : JsonCrate) (scope : TagScope) (tag : Str) :
    Server (Option TagPointer) := do
  let entry ← perform (.cacheGet (tagKey scope tag))
  return entry.bind fun entry => json.pointer entry.data

def putTagPointer (scope : TagScope) (tag : Str) (pointer : TagPointer) : Server Unit :=
  perform (.cacheInsert (tagKey scope tag) ⟨str "application/json", encodePointer pointer⟩)

end Ephemeral

def ephemeralStorage (json : JsonCrate) : Storage where
  getBlob := Ephemeral.getBlob
  putBlob := Ephemeral.putBlob
  getTagPointer := Ephemeral.getTagPointer json
  putTagPointer := Ephemeral.putTagPointer

theorem validPathSegment_digest (d : Digest) : validPathSegment d.asStr = true := by
  have hplain := plain_digest d
  have hlen := length_digest d
  have hc : d.asStr.any isAsciiControl = false := by
    rw [List.any_eq_false]
    intro c hc
    have hp : plainChar c = true := hplain c hc
    obtain ⟨hexPart, hx, -, hd⟩ := d.asStr_eq
    have hhex : ∀ c, isLowerHex c = true → isAsciiControl c = false := by
      intro c hc
      exact ascii_forall (P := fun c => isLowerHex c = true → isAsciiControl c = false) (by decide)
        (toNat_lt_of_isLowerHex hc) hc
    rw [hd] at hc
    rcases List.mem_append.mp hc with hc | hc
    · have hall : ∀ c ∈ str "sha256:", isAsciiControl c = false :=
        forall_of_all (by decide)
      simp [hall c hc]
    · simp [hhex c (List.all_eq_true.mp hx c hc)]
  have h₁ : d.asStr ≠ str "." := by
    intro h
    rw [h] at hlen
    contradiction
  have h₂ : d.asStr ≠ str ".." := by
    intro h
    rw [h] at hlen
    contradiction
  simp [validPathSegment, hc, h₁, h₂, d.asStr_ne_nil]

/-- A blob's key is a path as it is. -/
theorem parsePath_blobKey (d : Digest) : parsePath (blobKey d) = some (blobKey d) := by
  have hpre : (blobKey d).dropPrefix? ['/'] = none := rfl
  have hne : (blobKey d).isEmpty = false := rfl
  have hsuf : (blobKey d).dropSuffix? ['/'] = none := by
    cases h : (blobKey d).dropSuffix? ['/'] with
    | none => rfl
    | some p =>
        obtain ⟨t, hp, ht⟩ := List.dropSuffix?_eq_some_iff.mp h
        obtain rfl : t = ['/'] := eq_of_beq ht
        have hlast : d.asStr.getLast? = some '/' := by
          have hk : (blobKey d).getLast? = d.asStr.getLast? := by
            unfold blobKey
            rw [List.getLast?_append_of_ne_nil _ d.asStr_ne_nil]
          rw [← hk, hp]
          simp
        exact absurd (List.mem_of_getLast? hlast) d.slash_not_mem
  have hsplit : (blobKey d).splitOn '/' = [str "blobs", d.asStr] := by
    have hkey : blobKey d = str "blobs" ++ '/' :: d.asStr := rfl
    rw [hkey, List.splitOn_append_cons_self_of_not_mem (by decide),
      List.splitOn_eq_singleton d.slash_not_mem]
  have hb : validPathSegment (str "blobs") = true := by decide
  unfold parsePath
  simp [hpre, hne, hsuf, hsplit, validPathSegment_digest, hb]

@[simp] theorem storagePath_blobKey (op : StorageOp) (d : Digest) :
    storagePath op (blobKey d) = .ok (blobKey d) := by
  simp [storagePath, parsePath_blobKey]

theorem blobKey_inj {d d' : Digest} : blobKey d = blobKey d' ↔ d = d' := by
  constructor
  · intro h
    have hs := List.append_cancel_left h
    cases d
    cases d'
    congr
  · rintro rfl
    rfl

/-- A tag's key is the path itself or has a slash behind it. -/
theorem parsePath_tagKey {scope : TagScope} {tag path : Str}
    (h : parsePath (tagKey scope tag) = some path) :
    tagKey scope tag = path ∨ tagKey scope tag = path ++ ['/'] := by
  have hpre : (tagKey scope tag).dropPrefix? ['/'] = none := rfl
  have hne : (tagKey scope tag).isEmpty = false := rfl
  unfold parsePath at h
  simp only [hpre, Option.getD_none, hne, Bool.false_eq_true, if_false] at h
  split at h
  · obtain rfl := Option.some.inj h
    cases hs : (tagKey scope tag).dropSuffix? ['/'] with
    | none => exact Or.inl rfl
    | some p =>
        obtain ⟨t, hp, ht⟩ := List.dropSuffix?_eq_some_iff.mp hs
        obtain rfl : t = ['/'] := eq_of_beq ht
        exact Or.inr hp
  · contradiction

/-- A path of a tag's key is no blob's key. -/
theorem blobKey_ne_of_tagKey {scope : TagScope} {tag path : Str} {d : Digest}
    (h : parsePath (tagKey scope tag) = some path) : path ≠ blobKey d := by
  rintro rfl
  have htag : (tagKey scope tag).head? = some 't' := rfl
  rcases parsePath_tagKey h with h | h
  · have hb : (tagKey scope tag).head? = some 'b' := by
      rw [h]
      rfl
    rw [htag] at hb
    exact absurd hb (by decide)
  · have hb : (tagKey scope tag).head? = some 'b' := by
      rw [h]
      rfl
    rw [htag] at hb
    exact absurd hb (by decide)

end Helmoci.BlobStorage
