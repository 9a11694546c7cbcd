import Helmoci.ServerErrors
import Helmoci.Utf8

/-!
# Unpacking a chart archive

The loop over the raw entries of a decompressed tar stream, with the metadata that
one entry leaves for the next, the limits and the error texts. The tar and gzip
readers are outside: an entry's reader delivers a payload of at most the size in the
entry's own header, and moving on skips what was not read. The meter records what
the loop makes the decompressor deliver: the payload bytes taken and the length of
each buffer that is filled. It has no counterpart in the code and decides nothing.
-/
namespace Helmoci.TarUnpacking
open RustText Utf8 ServerErrors

structure ArchiveLimits where
  maxExpandedBytes : ℕ
  maxFileBytes : ℕ
  maxFiles : ℕ
deriving DecidableEq, Repr

def u64Max : ℕ := 2 ^ 64 - 1
def defaultExpansionMultiplier : ℕ := 10
def defaultMaxFiles : ℕ := 10000

namespace ArchiveLimits

def forExpandedBytes (maxExpandedBytes : ℕ) : ArchiveLimits :=
  ⟨maxExpandedBytes, maxExpandedBytes, defaultMaxFiles⟩

def forChartBytes (maxChartBytes : ℕ) : ArchiveLimits :=
  forExpandedBytes (min (maxChartBytes * defaultExpansionMultiplier) u64Max)

/-- The expansion budget never falls below the download cap. -/
def forChartBytesWithExpansion (maxChartBytes maxExpandedBytes : ℕ) : ArchiveLimits :=
  forExpandedBytes (if maxExpandedBytes < maxChartBytes then maxChartBytes else maxExpandedBytes)

end ArchiveLimits

inductive EntryType where
  | regular | link | symlink | char | block | directory | fifo | continuous
  | gnuLongName | gnuLongLink | gnuSparse | xGlobalHeader | xHeader
  | other (flag : UInt8)
deriving DecidableEq, Repr

/-- An entry of the raw iterator: header fields, and what its reader delivers. -/
structure RawEntry where
  entryType : EntryType
  /-- The size in the entry's own header. -/
  size : ℕ
  path : Except Str Str
  mode : Option ℕ
  mtime : Option ℕ
  payload : Bytes
  /-- Set where the stream breaks behind the payload. -/
  readError : Option Str
  payload_le : payload.length ≤ size

abbrev Item := Except Str RawEntry

/-- `usize` and the allocator. -/
structure Platform where
  usizeMax : ℕ
  reserves : ℕ → Bool
  growsTo : ℕ → Bool

structure TgzFile where
  name : Str
  data : Bytes
  mode : ℕ
  mtime : ℕ
deriving DecidableEq, Repr

def invalid (e : Str) : HelmError := .invalidChart (str "invalid chart archive: " ++ e)

def tooLarge (e : Str) : HelmError := .chartTooLarge (str "invalid chart archive: " ++ e)

structure PendingMetadata where
  longName : Option Bytes := none
  paxSeen : Bool := false
  paxPath : Option Bytes := none
  paxSize : Option ℕ := none
deriving DecidableEq, Repr

def PendingMetadata.isEmpty (p : PendingMetadata) : Bool := p.longName.isNone && !p.paxSeen

def PendingMetadata.pathOverride (p : PendingMetadata) : Option Bytes :=
  p.paxPath.orElse fun _ => p.longName

def isMetadataEntry : EntryType → Bool
  | .gnuLongName | .gnuLongLink | .xHeader | .xGlobalHeader => true
  | _ => false

def trimTrailingNuls (bytes : Bytes) : Bytes := bytes.rdropWhile (· == 0)

structure Meter where
  taken : ℕ := 0
  buffers : List ℕ := []
deriving DecidableEq, Repr

def Meter.skip (m : Meter) (n : ℕ) : Meter := {m with taken := m.taken + n}

def Meter.fill (m : Meter) (n : ℕ) : Meter := ⟨m.taken + n, n :: m.buffers⟩

/-- The buffer's allocation comes before the first byte is read. -/
def opens (platform : Platform) (declared : ℕ) : Bool :=
  declared ≤ platform.usizeMax && platform.reserves declared

def readEntryPayload (platform : Platform) (entry : RawEntry) (declared : ℕ) (what : Str)
    (m : Meter) : Except HelmError Bytes × Meter :=
  if platform.usizeMax < declared then
    (.error (invalid (what ++ str " size cannot be represented on this platform")), m)
  else if !platform.reserves declared then
    (.error (invalid (what ++ str " could not be allocated within limits")), m)
  else
    let m := m.fill entry.payload.length
    match entry.readError with
    | some e => (.error (invalid e), m)
    | none =>
      let actual := entry.payload.length
      if actual ≠ declared then
        (.error (invalid (what ++ str " size differs from header (" ++ decimal actual ++
          str " != " ++ decimal declared ++ str " bytes)")), m)
      else (.ok entry.payload, m)

/-- The value of digits in front of which a plus sign may stand, as `parse` reads it. -/
def parseUnsigned (max : ℕ) (text : Bytes) : Option ℕ :=
  let digits := if text.head? = some 43 then text.tail else text
  if !digits.isEmpty && digits.all fun b => 48 ≤ b && b ≤ 57 then
    let n := digits.foldl (fun n b => 10 * n + (b.toNat - 48)) 0
    if n ≤ max then some n else none
  else none

/-- The text on either side of the first such byte. -/
def splitAtByte (b : UInt8) : Bytes → Option (Bytes × Bytes)
  | [] => none
  | c :: rest => if c = b then some ([], rest) else (splitAtByte b rest).map fun p => (c :: p.1, p.2)

/-- One record off the front of the payload: key, value and what is left. -/
def paxRecord (platform : Platform) (rest : Bytes) :
    Except HelmError (Bytes × Bytes × Bytes) :=
  match splitAtByte 32 rest with
  | none => .error (invalid (str "malformed PAX record: no length separator"))
  | some (digits, _) =>
    let space := digits.length
    match (parseUnsigned platform.usizeMax digits).filter
        fun length => space + 1 < length && length ≤ rest.length with
    | none => .error (invalid (str "malformed PAX record: invalid length"))
    | some length =>
      match ((rest.take length).drop (space + 1)).dropSuffix? [10] with
      | none => .error (invalid (str "malformed PAX record: no terminator"))
      | some record =>
        match splitAtByte 61 record with
        | none => .error (invalid (str "malformed PAX record: no key separator"))
        | some (key, value) => .ok (key, value, rest.drop length)

def applyPaxRecord (key value : Bytes) (pending : PendingMetadata) :
    Except HelmError PendingMetadata :=
  if (bytes "GNU.sparse.").isPrefixOf key then
    .error (invalid (str "unsupported tar extension entry: PAX sparse"))
  else if key = bytes "path" ∧ value ≠ [] then .ok {pending with paxPath := some value}
  else if key = bytes "size" then
    match parseUnsigned u64Max value with
    | none => .error (invalid (str "malformed PAX record: invalid size"))
    | some size => .ok {pending with paxSize := some size}
  else .ok pending

/-- Padding with zero bytes ends the records. -/
def applyPaxLoop (platform : Platform) : ℕ → Bytes → PendingMetadata →
    Except HelmError PendingMetadata
  | 0, _, pending => .ok pending
  | fuel + 1, rest, pending =>
    if rest.all (· == 0) then .ok pending
    else
      match paxRecord platform rest with
      | .error e => .error e
      | .ok (key, value, rest) =>
        match applyPaxRecord key value pending with
        | .error e => .error e
        | .ok pending => applyPaxLoop platform fuel rest pending

def applyPaxRecords (platform : Platform) (payload : Bytes) (pending : PendingMetadata) :
    Except HelmError PendingMetadata := applyPaxLoop platform payload.length payload pending

theorem paxRecord_length {platform : Platform} {rest key value rest' : Bytes}
    (h : paxRecord platform rest = .ok (key, value, rest')) : rest'.length < rest.length := by
  unfold paxRecord at h
  split at h
  · contradiction
  · dsimp only at h
    split at h
    · contradiction
    · rename_i length hl
      have hb := (Option.filter_eq_some_iff.mp hl).2
      simp only [Bool.and_eq_true, decide_eq_true_eq] at hb
      split at h
      · contradiction
      · split at h
        · contradiction
        · simp only [Except.ok.injEq, Prod.mk.injEq] at h
          rw [← h.2.2, List.length_drop]
          omega

theorem applyPaxLoop_fuel {platform : Platform} {fuel fuel' : ℕ} {rest : Bytes}
    {pending : PendingMetadata} (h : rest.length ≤ fuel) (h' : rest.length ≤ fuel') :
    applyPaxLoop platform fuel rest pending = applyPaxLoop platform fuel' rest pending := by
  induction fuel generalizing fuel' rest pending with
  | zero =>
      obtain rfl : rest = [] := List.eq_nil_of_length_eq_zero (Nat.le_zero.mp h)
      cases fuel' <;> rfl
  | succ fuel ih =>
      cases fuel' with
      | zero =>
          obtain rfl : rest = [] := List.eq_nil_of_length_eq_zero (Nat.le_zero.mp h')
          rfl
      | succ fuel' =>
          simp only [applyPaxLoop]
          split
          · rfl
          · split
            · rfl
            · rename_i key value rest' hr
              have hl := paxRecord_length hr
              split
              · rfl
              · exact ih (by omega) (by omega)

/-- The loop of the source: the fuel never runs out. -/
theorem applyPaxRecords_eq (platform : Platform) (payload : Bytes) (pending : PendingMetadata) :
    applyPaxRecords platform payload pending =
      if payload.all (· == 0) then .ok pending
      else
        match paxRecord platform payload with
        | .error e => .error e
        | .ok (key, value, rest) =>
          match applyPaxRecord key value pending with
          | .error e => .error e
          | .ok pending => applyPaxRecords platform rest pending := by
  unfold applyPaxRecords
  cases payload with
  | nil => rfl
  | cons b payload =>
      rw [List.length_cons, applyPaxLoop]
      split
      · rfl
      · split
        · rfl
        · rename_i key value rest hr
          have hl := paxRecord_length hr
          simp only [List.length_cons] at hl
          split
          · rfl
          · exact applyPaxLoop_fuel (by omega) (Nat.le_refl _)

structure LoopState where
  files : List TgzFile := []
  expandedBytes : ℕ := 0
  entryCount : ℕ := 0
  pending : PendingMetadata := {}
deriving DecidableEq, Repr

/-- A size record counts for the member that it describes, not for metadata. -/
def entrySize (pending : PendingMetadata) (entry : RawEntry) : ℕ :=
  if isMetadataEntry entry.entryType then entry.size else pending.paxSize.getD entry.size

section Loop
variable (platform : Platform) (limits : ArchiveLimits)

def exceeds (what : String) (actual limit : ℕ) (unit : String) : HelmError :=
  tooLarge (str what ++ str " (" ++ decimal actual ++ str " > " ++ decimal limit ++ str unit ++
    str ")")

/-- The checks on an entry before anything of it is read, and the size it is charged. -/
def charge (st : LoopState) (entry : RawEntry) : Except HelmError (ℕ × LoopState) :=
  let count := st.entryCount + 1
  if platform.usizeMax < count then .error (invalid (str "archive entry count overflow"))
  else if limits.maxFiles < count then
    .error (exceeds "archive entry count exceeds limit" count limits.maxFiles "")
  else
    let size := entrySize st.pending entry
    if limits.maxFileBytes < size then
      if entry.entryType ≠ .regular then
        .error (exceeds "archive entry exceeds per-entry limit" size limits.maxFileBytes " bytes")
      else
        .error (exceeds "regular file exceeds per-file limit" size limits.maxFileBytes " bytes")
    else
      let expanded := st.expandedBytes + size
      if u64Max < expanded then
        .error (invalid (str "expanded archive entry byte count overflow"))
      else if limits.maxExpandedBytes < expanded then
        .error (exceeds "expanded archive entries exceed limit" expanded limits.maxExpandedBytes
          " bytes")
      else if entry.entryType = .gnuSparse then
        .error (invalid (str "unsupported tar extension entry: GNU sparse"))
      else .ok (size, {st with entryCount := count, expandedBytes := expanded})

/-- What the payload of a metadata entry leaves for the next member. -/
def absorb (entryType : EntryType) (payload : Bytes) (pending : PendingMetadata) :
    Except HelmError PendingMetadata :=
  match entryType with
  | .gnuLongName =>
    if pending.longName.isSome then .error (invalid (str "duplicate GNU long-name entry"))
    else .ok {pending with longName := some payload}
  | .xHeader =>
    if pending.paxSeen then .error (invalid (str "duplicate local PAX entry"))
    else applyPaxRecords platform payload {pending with paxSeen := true}
  | _ => .ok pending

def memberName (metadata : PendingMetadata) (entry : RawEntry) : Except HelmError Str :=
  match metadata.pathOverride with
  | some path => .ok (fromUtf8Lossy (trimTrailingNuls path))
  | none =>
    match entry.path with
    | .error e => .error (invalid e)
    | .ok path => .ok path

def unpackMember (metadata : PendingMetadata) (st : LoopState) (size : ℕ) (entry : RawEntry)
    (m : Meter) : Except HelmError LoopState × Meter :=
  if entry.entryType ≠ .regular then (.ok st, m.skip entry.payload.length)
  else if !platform.growsTo (st.files.length + 1) then
    (.error (invalid (str "regular file list could not be allocated within limits")), m)
  else
    match memberName metadata entry with
    | .error e => (.error e, m)
    | .ok name =>
      match readEntryPayload platform entry size (str "regular file") m with
      | (.error e, m) => (.error e, m)
      | (.ok data, m) =>
        (.ok {st with files :=
          st.files ++ [⟨name, data, entry.mode.getD 0o644, entry.mtime.getD 0⟩]}, m)

/-- One turn of the loop. A dropped entry is skipped when the iterator moves on. -/
def unpackEntry (st : LoopState) (entry : RawEntry) (m : Meter) :
    Except HelmError LoopState × Meter :=
  match charge platform limits st entry with
  | .error e => (.error e, m)
  | .ok (size, st) =>
    if isMetadataEntry entry.entryType then
      match readEntryPayload platform entry size (str "tar extension entry") m with
      | (.error e, m) => (.error e, m)
      | (.ok payload, m) =>
        ((absorb platform entry.entryType payload st.pending).map
          fun pending => {st with pending := pending}, m)
    else unpackMember platform st.pending {st with pending := {}} size entry m

def unpackEntries : List Item → LoopState → Meter → Except HelmError (List TgzFile) × Meter
  | [], st, m =>
    if st.pending.isEmpty then (.ok st.files, m)
    else (.error (invalid (str "tar extension entry has no member to describe")), m)
  | .error e :: _, _, m => (.error (invalid e), m)
  | .ok entry :: items, st, m =>
    match unpackEntry platform limits st entry m with
    | (.error e, m) => (.error e, m)
    | (.ok st, m) => unpackEntries items st m

/-- The entries of a gzipped tar, or why there are none. -/
abbrev TarReader := Bytes → Except Str (List Item)

def unpackTgzWithLimits (reader : TarReader) (tgz : Bytes) :
    Except HelmError (List TgzFile) × Meter :=
  match reader tgz with
  | .error e => (.error (invalid e), {})
  | .ok items => unpackEntries platform limits items {} {}

end Loop

end Helmoci.TarUnpacking
