import Helmoci.TarPacking

/-!
# Packed files come back

A header has two fields for a name, one for its last part and one for what stands in front of a
slash. A name that fits neither the one field nor both becomes an entry in front of its file.
Whichever way the names of a list of files are stored, and in whatever order the three ways
follow each other, unpacking the archive gives the list.
-/
namespace Helmoci.PackedNames
open RustText Utf8 ServerErrors TarUnpacking TarPacking

section Names

/-- The fields of a header that hold a name, without the slash between them. -/
structure NameFields where
  parent : Bytes
  name : Bytes
deriving DecidableEq, Repr

namespace NameFields

/-- The name that a reader puts together. -/
def path (fields : NameFields) : Bytes :=
  if fields.parent = [] then fields.name else fields.parent ++ 47 :: fields.name

structure Fits (fields : NameFields) : Prop where
  parent : fields.parent.length ≤ 155
  name : fields.name.length ≤ 100

end NameFields

/-- The name has a place in a header. -/
def Fitting (path : Bytes) : Prop := ∃ fields : NameFields, fields.Fits ∧ fields.path = path

/-- The name can be cut at this place. -/
def cuttable (path : Bytes) (i : ℕ) : Bool :=
  path[i]? == some 47 && 0 < i && i ≤ 155 && path.length ≤ i + 101

/-- The fields for a name, of one field if it is short. -/
def fieldsOf (path : Bytes) : Option NameFields :=
  if path.length ≤ 100 then some ⟨[], path⟩
  else ((List.range path.length).find? (cuttable path)).map fun i =>
    ⟨path.take i, path.drop (i + 1)⟩

theorem fieldsOf_fits {path : Bytes} {fields : NameFields} (h : fieldsOf path = some fields) :
    fields.Fits ∧ fields.path = path := by
  unfold fieldsOf at h
  split at h
  · rename_i hshort
    cases h
    exact ⟨⟨Nat.zero_le _, hshort⟩, rfl⟩
  · obtain ⟨i, hi, rfl⟩ := Option.map_eq_some_iff.mp h
    have hcut := List.find?_some hi
    simp only [cuttable, Bool.and_eq_true, beq_iff_eq, decide_eq_true_eq] at hcut
    obtain ⟨⟨⟨hslash, hpos⟩, hparent⟩, hname⟩ := hcut
    obtain ⟨hlt, hget⟩ := List.getElem?_eq_some_iff.mp hslash
    constructor
    · constructor
      · simp only [List.length_take]
        omega
      · simp only [List.length_drop]
        omega
    · have hne : path.take i ≠ [] := by
        intro he
        have hlen := congrArg List.length he
        simp only [List.length_take, List.length_nil] at hlen
        omega
      rw [NameFields.path, if_neg hne]
      conv_rhs => rw [← List.take_append_drop i path, List.drop_eq_getElem_cons hlt, hget]

theorem fieldsOf_isSome_iff (path : Bytes) : (fieldsOf path).isSome = true ↔ Fitting path := by
  constructor
  · intro h
    obtain ⟨fields, hfields⟩ := Option.isSome_iff_exists.mp h
    exact ⟨fields, fieldsOf_fits hfields⟩
  · intro ⟨fields, hfits, hpath⟩
    unfold fieldsOf
    split
    · rfl
    · rename_i hlong
      rw [Option.isSome_map, List.find?_isSome]
      have hparent := hfits.parent
      have hname := hfits.name
      unfold NameFields.path at hpath
      split at hpath
      · rw [← hpath] at hlong
        omega
      · rename_i hne
        have hpos := List.length_pos_of_ne_nil hne
        have hlen := congrArg List.length hpath
        simp only [List.length_append, List.length_cons] at hlen
        have hslash : path[fields.parent.length]? = some 47 := by
          rw [← hpath]
          simp
        refine ⟨fields.parent.length, List.mem_range.mpr (by omega), ?_⟩
        simp only [cuttable, hslash, beq_self_eq_true, Bool.true_and, Bool.and_eq_true,
          decide_eq_true_eq]
        omega

instance : DecidablePred Fitting := fun path =>
  decidable_of_iff ((fieldsOf path).isSome = true) (fieldsOf_isSome_iff path)

/-- A relative path of normal components. -/
structure IsRelative (path : Str) : Prop where
  nul : nul ∉ path
  normal : ∀ part ∈ path.splitOn '/', part ≠ [] ∧ part ≠ ['.'] ∧ part ≠ str ".."

/-- The entries that a file with such a path becomes. -/
inductive Stored (header : TarHeader) (path : Str) (data : Bytes) : List RawEntry → Prop
  | inFields (fields : NameFields) : fields.Fits → fields.path = asBytes path →
      Stored header path data [member header (.ok (fromUtf8Lossy fields.path)) data]
  | longNamed (cut : Except Str Str) : ¬ Fitting (asBytes path) →
      Stored header path data [longNameEntry path, member header cut data]

/-- The tar writer takes relative paths and the reader finds the entries again behind the gzip
writer. -/
structure TarCrate (writer : TarWriter) (reader : TarReader) where
  Holds : Bytes → List RawEntry → Prop
  holds_nil : Holds [] []
  append : ∀ {tar entries header path data}, Holds tar entries → header.size = data.length →
    IsRelative path → ∃ tar' written, writer.appendData tar header path data = .ok tar' ∧
      Stored header path data written ∧ Holds tar' (entries ++ written)
  close : ∀ {tar entries}, Holds tar entries → ∃ tar' tgz, writer.finish tar = .ok tar' ∧
    writer.gzip tar' = .ok tgz ∧ reader tgz = .ok (entries.map .ok)

end Names

section Limits

/-- The bytes of the entry that holds a long name. -/
def longNameBytes (path : Str) : ℕ :=
  if Fitting (asBytes path) then 0 else (asBytes path).length + 1

def entryCount (f : TgzFile) : ℕ := if Fitting (asBytes f.name) then 1 else 2

def entryBytes (f : TgzFile) : ℕ := longNameBytes f.name + f.data.length

/-- The header has seven octal digits for the mode and sixty-four bits for the time. -/
structure Packable (f : TgzFile) : Prop where
  name : IsRelative f.name
  mode : f.mode < 8 ^ 7
  mtime : f.mtime ≤ u64Max

/-- Limits that the data, the long names and the entries stay within. -/
structure LargeEnough (limits : ArchiveLimits) (files : List TgzFile) : Prop where
  count : (files.map entryCount).sum ≤ limits.maxFiles
  data : ∀ f ∈ files, f.data.length ≤ limits.maxFileBytes
  names : ∀ f ∈ files, longNameBytes f.name ≤ limits.maxFileBytes
  total : (files.map entryBytes).sum ≤ limits.maxExpandedBytes

/-- The limits are numbers of their types, and there is memory for the files. -/
structure Provides (platform : Platform) (limits : ArchiveLimits) (files : List TgzFile) :
    Prop where
  count : limits.maxFiles ≤ platform.usizeMax
  expanded : limits.maxExpandedBytes ≤ u64Max
  data : ∀ f ∈ files, opens platform f.data.length = true
  names : ∀ f ∈ files, opens platform (longNameBytes f.name) = true
  grows : ∀ n ≤ files.length, platform.growsTo n = true

end Limits

section Run
variable {platform : Platform} {limits : ArchiveLimits}

/-- What is left of the limits and of the memory is enough for these files. -/
structure Room (platform : Platform) (limits : ArchiveLimits) (st : LoopState)
    (files : List TgzFile) : Prop where
  usize : limits.maxFiles ≤ platform.usizeMax
  expanded : limits.maxExpandedBytes ≤ u64Max
  count : st.entryCount + (files.map entryCount).sum ≤ limits.maxFiles
  total : st.expandedBytes + (files.map entryBytes).sum ≤ limits.maxExpandedBytes
  data : ∀ f ∈ files, f.data.length ≤ limits.maxFileBytes ∧ opens platform f.data.length = true
  names : ∀ f ∈ files, longNameBytes f.name ≤ limits.maxFileBytes ∧
    opens platform (longNameBytes f.name) = true
  grows : ∀ n ≤ st.files.length + files.length, platform.growsTo n = true

theorem room_of_largeEnough {files : List TgzFile} (hlimits : LargeEnough limits files)
    (hplatform : Provides platform limits files) : Room platform limits {} files where
  usize := hplatform.count
  expanded := hplatform.expanded
  count := by simpa using hlimits.count
  total := by simpa using hlimits.total
  data f hf := ⟨hlimits.data f hf, hplatform.data f hf⟩
  names f hf := ⟨hlimits.names f hf, hplatform.names f hf⟩
  grows n hn := hplatform.grows n (by simpa using hn)

/-- One file more leaves room for the rest. -/
theorem Room.next {st st' : LoopState} {f : TgzFile} {files : List TgzFile}
    (h : Room platform limits st (f :: files)) (hfiles : st'.files = st.files ++ [f])
    (hcount : st'.entryCount = st.entryCount + entryCount f)
    (hbytes : st'.expandedBytes = st.expandedBytes + entryBytes f) :
    Room platform limits st' files where
  usize := h.usize
  expanded := h.expanded
  count := by
    have hall := h.count
    rw [List.map_cons, List.sum_cons] at hall
    omega
  total := by
    have hall := h.total
    rw [List.map_cons, List.sum_cons] at hall
    omega
  data g hg := h.data g (List.mem_cons_of_mem f hg)
  names g hg := h.names g (List.mem_cons_of_mem f hg)
  grows n hn := by
    apply h.grows
    rw [hfiles, List.length_append, List.length_singleton] at hn
    rw [List.length_cons]
    omega

theorem rdropWhile_nul {path : Str} (h : nul ∉ path) : path.rdropWhile (· == nul) = path := by
  rw [List.rdropWhile_eq_self_iff]
  intro hne hlast
  have hmem := List.getLast_mem hne
  rw [beq_iff_eq.mp hlast] at hmem
  exact h hmem

theorem mode_time_kept {f : TgzFile} (h : Packable f) :
    (⟨f.name, f.data, f.mode % 8 ^ 7, f.mtime⟩ : TgzFile) = f := by
  rw [Nat.mod_eq_of_lt h.mode]

/-- The member of a file is unpacked to the file if its name is found. -/
theorem unpackEntry_file {st : LoopState} {f : TgzFile} {path : Except Str Str}
    (hf : Packable f) (m : Meter) (hsize : st.pending.paxSize = none)
    (hname : memberName st.pending (member ⟨f.data.length, f.mode, f.mtime⟩ path f.data) =
      .ok f.name)
    (husize : limits.maxFiles ≤ platform.usizeMax) (hcount : st.entryCount + 1 ≤ limits.maxFiles)
    (hexpanded : limits.maxExpandedBytes ≤ u64Max)
    (htotal : st.expandedBytes + f.data.length ≤ limits.maxExpandedBytes)
    (hdata : f.data.length ≤ limits.maxFileBytes ∧ opens platform f.data.length = true)
    (hgrows : platform.growsTo (st.files.length + 1) = true) :
    unpackEntry platform limits st (member ⟨f.data.length, f.mode, f.mtime⟩ path f.data) m =
      (.ok ⟨st.files ++ [f], st.expandedBytes + f.data.length, st.entryCount + 1, {}⟩,
        m.fill f.data.length) := by
  have hcharge := @charge_within platform limits st
    (member ⟨f.data.length, f.mode, f.mtime⟩ path f.data) (by simp [member]) hsize
    (Nat.le_trans hcount husize) hcount hdata.1 (Nat.le_trans htotal hexpanded) htotal
  rw [unpackEntry_member m hcharge hdata.2 hgrows hname, mode_time_kept hf]

/-- However the name is stored, the entries of a file are unpacked to the file. -/
theorem unpackEntries_stored {st : LoopState} {f : TgzFile} {files : List TgzFile}
    {written : List RawEntry} (hf : Packable f)
    (hw : Stored ⟨f.data.length, f.mode, f.mtime⟩ f.name f.data written)
    (hroom : Room platform limits st (f :: files)) (hp : st.pending = {})
    (items : List Item) (m : Meter) : ∃ st' m',
      unpackEntries platform limits (written.map .ok ++ items) st m =
        unpackEntries platform limits items st' m' ∧
      st'.files = st.files ++ [f] ∧ st'.pending = {} ∧ Room platform limits st' files := by
  have hcount := hroom.count
  have htotal := hroom.total
  rw [List.map_cons, List.sum_cons] at hcount htotal
  have hdata := hroom.data f List.mem_cons_self
  have hnames := hroom.names f List.mem_cons_self
  have hgrows := hroom.grows (st.files.length + 1) (by rw [List.length_cons]; omega)
  cases hw with
  | inFields fields hfits hpath =>
      have hfitting : Fitting (asBytes f.name) := ⟨fields, hfits, hpath⟩
      have hone : entryCount f = 1 := if_pos hfitting
      have hbytes : entryBytes f = f.data.length := by
        rw [entryBytes, longNameBytes, if_pos hfitting, Nat.zero_add]
      have hname : memberName st.pending (member ⟨f.data.length, f.mode, f.mtime⟩
          (.ok (fromUtf8Lossy fields.path)) f.data) = .ok f.name := by
        rw [hp, hpath, fromUtf8Lossy_asBytes]
        rfl
      have hstep := unpackEntry_file hf m (by rw [hp]) hname hroom.usize (by omega)
        hroom.expanded (by omega) hdata hgrows
      refine ⟨⟨st.files ++ [f], st.expandedBytes + f.data.length, st.entryCount + 1, {}⟩,
        m.fill f.data.length, ?_, ?_, ?_, hroom.next ?_ ?_ ?_⟩
      · rw [List.map_cons, List.map_nil, List.cons_append, List.nil_append, unpackEntries, hstep]
      · rfl
      · rfl
      · rfl
      · rw [hone]
      · rw [hbytes]
  | longNamed cut hfitting =>
      have htwo : entryCount f = 2 := if_neg hfitting
      have hlongBytes : longNameBytes f.name = (longNameEntry f.name).size := if_neg hfitting
      have hbytes : entryBytes f = (longNameEntry f.name).size + f.data.length := by
        rw [entryBytes, hlongBytes]
      rw [hlongBytes] at hnames
      have hexpanded := hroom.expanded
      have husize := hroom.usize
      have hcharge := @charge_within platform limits st (longNameEntry f.name)
        (by simp [longNameEntry]) (by rw [hp]) (by omega) (by omega) hnames.1 (by omega) (by omega)
      have hlong := unpackEntry_longName m hp hcharge hnames.2
      -- the member that follows takes the name that was left for it
      obtain ⟨st₁, hst₁⟩ : ∃ st₁ : LoopState, st₁ = ⟨st.files,
        st.expandedBytes + (longNameEntry f.name).size, st.entryCount + 1,
        {longName := some (asBytes f.name ++ [0])}⟩ := ⟨_, rfl⟩
      have hname : memberName st₁.pending (member ⟨f.data.length, f.mode, f.mtime⟩ cut f.data) =
          .ok f.name := by
        rw [hst₁]
        simp only [memberName, PendingMetadata.pathOverride, Option.orElse_none, longName_read,
          rdropWhile_nul hf.name.nul]
      have hfiles₁ : st₁.files = st.files := by rw [hst₁]
      have hcount₁ : st₁.entryCount = st.entryCount + 1 := by rw [hst₁]
      have hbytes₁ : st₁.expandedBytes = st.expandedBytes + (longNameEntry f.name).size := by
        rw [hst₁]
      have hstep := @unpackEntry_file platform limits st₁ f cut hf
        (m.fill (longNameEntry f.name).size) (by rw [hst₁]) hname husize (by omega) hexpanded
        (by omega) hdata (by rw [hfiles₁]; exact hgrows)
      rw [← hst₁] at hlong
      refine ⟨⟨st₁.files ++ [f], st₁.expandedBytes + f.data.length, st₁.entryCount + 1, {}⟩,
        (m.fill (longNameEntry f.name).size).fill f.data.length, ?_, ?_, ?_,
        hroom.next ?_ ?_ ?_⟩
      · rw [List.map_cons, List.map_cons, List.map_nil, List.cons_append, List.cons_append,
          List.nil_append, unpackEntries, hlong]
        simp only
        rw [unpackEntries, hstep]
      · exact congrArg (· ++ [f]) hfiles₁
      · rfl
      · exact congrArg (· ++ [f]) hfiles₁
      · simp only
        omega
      · simp only
        omega

/-- The entries that a list of files becomes, one list for each file. -/
def StoredFiles : List TgzFile → List (List RawEntry) → Prop :=
  List.Forall₂ fun f written => Stored ⟨f.data.length, f.mode, f.mtime⟩ f.name f.data written

theorem unpackEntries_storedFiles {files : List TgzFile} {written : List (List RawEntry)}
    (hfiles : ∀ f ∈ files, Packable f) (hw : StoredFiles files written) {st : LoopState}
    (hroom : Room platform limits st files) (hp : st.pending = {}) (m : Meter) :
    (unpackEntries platform limits (written.flatten.map .ok) st m).1 =
      .ok (st.files ++ files) := by
  induction hw generalizing st m with
  | nil => simp [unpackEntries, hp, PendingMetadata.isEmpty]
  | @cons f written₁ files written hf _ ih =>
      rw [List.flatten_cons, List.map_append]
      obtain ⟨st', m', he, hfiles', hp', hroom'⟩ := unpackEntries_stored
        (hfiles f List.mem_cons_self) hf hroom hp (List.map .ok written.flatten) m
      rw [he, ih (fun g hg => hfiles g (List.mem_cons_of_mem f hg)) hroom' hp' m', hfiles']
      simp

end Run

section Results
variable {writer : TarWriter} {reader : TarReader}

/-- Every append of the loop succeeds. -/
theorem appendFiles_storedFiles (crate : TarCrate writer reader) {files : List TgzFile}
    (hfiles : ∀ f ∈ files, Packable f) {tar : Bytes} {entries : List RawEntry}
    (hh : crate.Holds tar entries) : ∃ tar' written,
      files.foldlM (appendFile writer) tar = .ok tar' ∧ StoredFiles files written ∧
        crate.Holds tar' (entries ++ written.flatten) := by
  induction files generalizing tar entries with
  | nil => exact ⟨tar, [], rfl, .nil, by simpa using hh⟩
  | cons f files ih =>
      obtain ⟨next, written, happend, hstored, hnext⟩ := crate.append hh
        (rfl : (⟨f.data.length, f.mode, f.mtime⟩ : TarHeader).size = f.data.length)
        (hfiles f List.mem_cons_self).name
      obtain ⟨tar', rest, hrest, hall, hh'⟩ :=
        ih (fun g hg => hfiles g (List.mem_cons_of_mem f hg)) hnext
      refine ⟨tar', written :: rest, ?_, .cons hstored hall, by simpa using hh'⟩
      rw [List.foldlM_cons, appendFile, happend]
      exact hrest

/-- Files are packed, and the archive unpacks to the same list. -/
theorem packTgz_unpacked (crate : TarCrate writer reader) {platform : Platform}
    {limits : ArchiveLimits} {files : List TgzFile} (hfiles : ∀ f ∈ files, Packable f)
    (hlimits : LargeEnough limits files) (hplatform : Provides platform limits files) :
    ∃ tgz, packTgz writer files = .ok tgz ∧
      (unpackTgzWithLimits platform limits reader tgz).1 = .ok files := by
  obtain ⟨tar, written, hpack, hstored, hh⟩ :=
    appendFiles_storedFiles crate hfiles crate.holds_nil
  obtain ⟨tar', tgz, hfinish, hgzip, hread⟩ := crate.close hh
  refine ⟨tgz, ?_, ?_⟩
  · rw [packTgz, hpack]
    simp only [bind, Except.bind, hfinish, hgzip, Except.mapError]
  · rw [unpackTgzWithLimits, hread]
    exact unpackEntries_storedFiles hfiles hstored (room_of_largeEnough hlimits hplatform) rfl {}

end Results

section Instances

/-- A number as so many ones in front of a zero. -/
def number (n : ℕ) : Bytes := List.replicate n 1 ++ [0]

def readNumber : Bytes → Option (ℕ × Bytes)
  | [] => none
  | b :: rest => if b = 0 then some (0, rest) else (readNumber rest).map fun p => (p.1 + 1, p.2)

/-- Bytes behind their length. -/
def chunk (bs : Bytes) : Bytes := number bs.length ++ bs

def readChunk (bs : Bytes) : Option (Bytes × Bytes) := do
  let (n, rest) ← readNumber bs
  if n ≤ rest.length then some (rest.take n, rest.drop n) else none

/-- A header with its data. -/
structure Block where
  isLongName : Bool
  mode : ℕ
  mtime : ℕ
  fields : NameFields
  data : Bytes

def writeBlock (b : Block) : Bytes :=
  number b.isLongName.toNat ++ (number b.mode ++ (number b.mtime ++
    (chunk b.fields.parent ++ (chunk b.fields.name ++ chunk b.data))))

def readBlock (bs : Bytes) : Option (Block × Bytes) := do
  let (flag, rest) ← readNumber bs
  let (mode, rest) ← readNumber rest
  let (mtime, rest) ← readNumber rest
  let (parent, rest) ← readChunk rest
  let (name, rest) ← readChunk rest
  let (data, rest) ← readChunk rest
  return (⟨flag != 0, mode, mtime, ⟨parent, name⟩, data⟩, rest)

def readBlocks : ℕ → Bytes → Option (List Block)
  | _, [] => some []
  | 0, _ :: _ => none
  | fuel + 1, b :: bs => do
    let (block, rest) ← readBlock (b :: bs)
    return block :: (← readBlocks fuel rest)

def entryOf (b : Block) : RawEntry :=
  if b.isLongName then longNameEntry (fromUtf8Lossy b.data)
  else member ⟨b.data.length, b.mode, b.mtime⟩ (.ok (fromUtf8Lossy b.fields.path)) b.data

def blockReader : TarReader := fun tgz =>
  match readBlocks tgz.length tgz with
  | some blocks => .ok ((blocks.map entryOf).map .ok)
  | none => .error (str "not supported")

/-- The blocks of a file, with a long name in front where the name does not fit. -/
def blocksOf (header : TarHeader) (path : Str) (data : Bytes) : List Block :=
  match fieldsOf (asBytes path) with
  | some fields => [⟨false, header.mode, header.mtime, fields, data⟩]
  | none =>
    let cut : NameFields := ⟨[], (asBytes path).take 100⟩
    [⟨true, 0o644, 0, ⟨[], bytes "././@LongLink"⟩, asBytes path⟩,
      ⟨false, header.mode, header.mtime, cut, data⟩]

def blockWriter : TarWriter where
  appendData tar header path data := .ok (tar ++ (blocksOf header path data).flatMap writeBlock)
  finish := .ok
  gzip := .ok

theorem readNumber_number (n : ℕ) (rest : Bytes) :
    readNumber (number n ++ rest) = some (n, rest) := by
  induction n with
  | zero => rfl
  | succ n ih =>
      have hcons : number (n + 1) ++ rest = 1 :: (number n ++ rest) := by
        simp [number, List.replicate_succ]
      rw [hcons, readNumber, if_neg (by decide), ih]
      rfl

theorem readChunk_chunk (bs rest : Bytes) : readChunk (chunk bs ++ rest) = some (bs, rest) := by
  have happ : chunk bs ++ rest = number bs.length ++ (bs ++ rest) := by simp [chunk]
  rw [happ, readChunk, readNumber_number]
  simp

theorem readBlock_writeBlock (b : Block) (rest : Bytes) :
    readBlock (writeBlock b ++ rest) = some (b, rest) := by
  have hflag : (b.isLongName.toNat != 0) = b.isLongName := by
    cases b.isLongName <;> rfl
  simp only [readBlock, writeBlock, List.append_assoc, readNumber_number, readChunk_chunk,
    Option.bind_eq_bind, Option.bind_some, Option.pure_def, hflag]

theorem readBlocks_writeBlocks {blocks : List Block} {fuel : ℕ}
    (h : (blocks.flatMap writeBlock).length ≤ fuel) :
    readBlocks fuel (blocks.flatMap writeBlock) = some blocks := by
  induction blocks generalizing fuel with
  | nil => cases fuel <;> rfl
  | cons b blocks ih =>
      rw [List.flatMap_cons] at h ⊢
      obtain ⟨c, cs, hcs⟩ : ∃ c cs, writeBlock b ++ blocks.flatMap writeBlock = c :: cs := by
        apply List.exists_cons_of_ne_nil
        simp [writeBlock, number]
      have hpos : 0 < (writeBlock b).length := by
        simp only [writeBlock, number, List.length_append, List.length_singleton]
        omega
      rw [List.length_append] at h
      obtain ⟨fuel, rfl⟩ : ∃ n, fuel = n + 1 := ⟨fuel - 1, by omega⟩
      rw [hcs, readBlocks, ← hcs, readBlock_writeBlock]
      simp only [Option.bind_eq_bind, Option.bind_some, ih (by omega : _ ≤ fuel), Option.pure_def]

theorem stored_blocksOf {header : TarHeader} {path : Str} {data : Bytes}
    (h : header.size = data.length) :
    Stored header path data ((blocksOf header path data).map entryOf) := by
  obtain ⟨size, mode, mtime⟩ := header
  obtain rfl : size = data.length := h
  unfold blocksOf
  cases hfields : fieldsOf (asBytes path) with
  | some fields =>
      obtain ⟨hfits, hpath⟩ := fieldsOf_fits hfields
      exact .inFields fields hfits hpath
  | none =>
      have hfitting : ¬ Fitting (asBytes path) := by
        rw [← fieldsOf_isSome_iff, hfields]
        exact Bool.false_ne_true
      simp only [List.map_cons, List.map_nil, entryOf, if_true, Bool.false_eq_true, if_false,
        fromUtf8Lossy_asBytes]
      exact .longNamed _ hfitting

def blockCrate : TarCrate blockWriter blockReader where
  Holds tar entries :=
    ∃ blocks : List Block, tar = blocks.flatMap writeBlock ∧ entries = blocks.map entryOf
  holds_nil := ⟨[], rfl, rfl⟩
  append := by
    intro tar entries header path data ⟨blocks, htar, hentries⟩ hsize _
    refine ⟨_, _, rfl, stored_blocksOf hsize, blocks ++ blocksOf header path data, ?_, ?_⟩
    · rw [htar, List.flatMap_append]
    · rw [hentries, List.map_append]
  close := by
    intro tar entries ⟨blocks, htar, hentries⟩
    refine ⟨tar, tar, rfl, rfl, ?_⟩
    rw [blockReader, htar, readBlocks_writeBlocks (Nat.le_refl _), hentries]

/-- A short name, one that is cut at its slash and one of a single long component. -/
def mixedFiles : List TgzFile :=
  [⟨str "demo/Chart.yaml", bytes "name: demo", 0o644, 0⟩,
    ⟨List.replicate 90 'd' ++ '/' :: List.replicate 90 'n', [0], 0o7777777, u64Max⟩,
    ⟨List.replicate 120 'n', [], 0o600, 1⟩,
    ⟨str "demo/values.yaml", bytes "a: 1", 0o644, 0⟩]

theorem mixedFiles_unpacked : ∃ tgz, packTgz blockWriter mixedFiles = .ok tgz ∧
    (unpackTgzWithLimits roomyPlatform ⟨4096, 128, 5⟩ blockReader tgz).1 = .ok mixedFiles := by
  apply packTgz_unpacked blockCrate
  · intro f hf
    have hall : mixedFiles.all (fun f => !f.name.contains nul && ((f.name.splitOn '/').all
        fun part => part != [] && part != ['.'] && part != str "..") && f.mode < 8 ^ 7 &&
        f.mtime ≤ u64Max) = true := by decide +kernel
    have h := List.all_eq_true.mp hall f hf
    simp only [Bool.and_eq_true, Bool.not_eq_true', List.contains_eq_mem, decide_eq_false_iff_not,
      List.all_eq_true, bne_iff_ne, decide_eq_true_eq, and_assoc] at h
    exact ⟨⟨h.1, h.2.1⟩, h.2.2.1, h.2.2.2⟩
  · constructor
    · decide +kernel
    · decide +kernel
    · decide +kernel
    · decide +kernel
  · constructor
    · decide
    · decide
    · decide +kernel
    · decide +kernel
    · intro n hn
      rfl

end Instances

end Helmoci.PackedNames
