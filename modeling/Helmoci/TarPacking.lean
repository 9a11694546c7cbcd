import Helmoci.SegmentedText
import Helmoci.TarUnpacking

/-!
# Packing a chart archive

The loop that appends the files to a tar stream, and the files that unpacking the
result gives. The tar and gzip writers are outside: a format says which entries an
appended file becomes and that the reader finds them again. The writer puts a
path's components into the header, and one that does not fit into an entry of its
own in front of the file.
-/
namespace Helmoci.TarPacking
open RustText Utf8 SegmentedText ServerErrors TarUnpacking

/-- What is set of a new `ustar` header. -/
structure TarHeader where
  size : ℕ
  mode : ℕ
  mtime : ℕ
deriving DecidableEq, Repr

structure TarWriter where
  /-- The stream with a header, a path and data behind it, or why it failed. -/
  appendData : Bytes → TarHeader → Str → Bytes → Except Str Bytes
  finish : Bytes → Except Str Bytes
  gzip : Bytes → Except Str Bytes

section Pack
variable (writer : TarWriter)

def appendFile (tar : Bytes) (f : TgzFile) : Except HelmError Bytes :=
  (writer.appendData tar ⟨f.data.length, f.mode, f.mtime⟩ f.name f.data).mapError invalid

def packTgz (files : List TgzFile) : Except HelmError Bytes := do
  let tar ← files.foldlM (appendFile writer) []
  let tar ← (writer.finish tar).mapError invalid
  (writer.gzip tar).mapError invalid

end Pack

/-- A component that a path is written with. -/
def isComponent (part : Str) : Bool := !part.isEmpty && part != ['.']

/-- The path as the header takes it: empty and `.` components are dropped, the slash
at the end is not. -/
def headerName (path : Str) : Str :=
  let parts := (path.splitOn '/').filter isComponent
  ['/'].intercalate (if parts.isEmpty then [['.']] else parts) ++
    if ['/'].isSuffixOf path then ['/'] else []

def member (header : TarHeader) (path : Except Str Str) (data : Bytes) : RawEntry :=
  ⟨.regular, data.length, path, some (header.mode % 8 ^ 7), some header.mtime, data, none,
    Nat.le_refl _⟩

def longNameEntry (path : Str) : RawEntry :=
  ⟨.gnuLongName, (asBytes path).length + 1, .ok (str "././@LongLink"), some 0o644, some 0,
    asBytes path ++ [0], none, by simp⟩

/-- The entries that an appended file becomes. Behind a long name the header's own path
does not matter. -/
inductive Written (fits : Str → Bool) (header : TarHeader) (path : Str) (data : Bytes) :
    List RawEntry → Prop
  | named : fits path = true → Written fits header path data
      [member header (.ok (headerName path)) data]
  | longNamed (cut : Except Str Str) : fits path = false → Written fits header path data
      [longNameEntry path, member header cut data]

def blockSize : ℕ := 512

/-- What the entries take up in the stream, padding aside. -/
def streamSize (entries : List RawEntry) : ℕ := (entries.map fun e => blockSize + e.size).sum

/-- The writer and the reader agree on the entries of a stream, and a stream is held in
memory. Paths that are absolute or go up are refused, so nothing is said of them. -/
structure TarFormat (writer : TarWriter) (reader : TarReader) where
  fits : Str → Bool
  Holds : Bytes → List RawEntry → Prop
  holds_nil : Holds [] []
  append : ∀ {tar tar' entries header path data}, Holds tar entries →
    header.size = data.length → writer.appendData tar header path data = .ok tar' →
    ∃ written, Written fits header path data written ∧ Holds tar' (entries ++ written)
  read : ∀ {tar tar' tgz entries}, Holds tar entries → writer.finish tar = .ok tar' →
    writer.gzip tar' = .ok tgz → reader tgz = .ok (entries.map .ok)
  fits_memory : ∀ {tar entries}, Holds tar entries → streamSize entries ≤ u64Max

/-- The allocations succeed. -/
structure Roomy (platform : Platform) : Prop where
  counts : u64Max ≤ platform.usizeMax
  reserves : ∀ n, platform.reserves n = true
  grows : ∀ n, platform.growsTo n = true

def Above (bound : ℕ) (limits : ArchiveLimits) : Prop :=
  bound ≤ limits.maxExpandedBytes ∧ bound ≤ limits.maxFileBytes ∧ bound ≤ limits.maxFiles

/-- With limits large enough the archive unpacks to these files. -/
def Unpacks (reader : TarReader) (tgz : Bytes) (files : List TgzFile) : Prop :=
  ∃ bound ≤ u64Max, ∀ platform limits, Roomy platform → Above bound limits →
    (unpackTgzWithLimits platform limits reader tgz).1 = .ok files

def roomyPlatform : Platform := ⟨u64Max, fun _ => true, fun _ => true⟩

theorem roomyPlatform_roomy : Roomy roomyPlatform :=
  ⟨Nat.le_refl _, fun _ => rfl, fun _ => rfl⟩

def largestLimits : ArchiveLimits := ⟨u64Max, u64Max, u64Max⟩

theorem Unpacks.largest {reader : TarReader} {tgz : Bytes} {files : List TgzFile}
    (h : Unpacks reader tgz files) :
    (unpackTgzWithLimits roomyPlatform largestLimits reader tgz).1 = .ok files := by
  obtain ⟨bound, hb, h⟩ := h
  exact h _ _ roomyPlatform_roomy ⟨hb, hb, hb⟩

theorem Unpacks.unique {reader : TarReader} {tgz : Bytes} {files files' : List TgzFile}
    (h : Unpacks reader tgz files) (h' : Unpacks reader tgz files') : files = files' :=
  Except.ok.inj (h.largest.symm.trans h'.largest)

/-- A slash at the end aside, the path is `.` or consists of components. -/
def isPlain (path : Str) : Bool :=
  let stem := (path.dropSuffix? ['/']).getD path
  stem == ['.'] || (stem.splitOn '/').all isComponent

theorem intercalate_components_iff (stem : Str) :
    ['/'].intercalate (if ((stem.splitOn '/').filter isComponent).isEmpty then [['.']]
        else (stem.splitOn '/').filter isComponent) = stem ↔
      stem = ['.'] ∨ ∀ part ∈ stem.splitOn '/', isComponent part = true := by
  constructor
  · intro h
    split at h
    · exact Or.inl h.symm
    · rename_i hne
      apply Or.inr
      have hsplit : stem.splitOn '/' = (stem.splitOn '/').filter isComponent := by
        conv_lhs => rw [← h]
        apply List.splitOn_intercalate
        · intro part hp
          exact not_mem_of_mem_splitOn (List.mem_of_mem_filter hp)
        · simpa using hne
      exact List.filter_eq_self.mp hsplit.symm
  · rintro (rfl | h)
    · decide
    · rw [List.filter_eq_self.mpr h, if_neg (by simp [List.splitOn_ne_nil])]
      exact List.intercalate_splitOn '/'

/-- The header changes no path but those with components that it drops. -/
theorem headerName_eq_self_iff (path : Str) : headerName path = path ↔ isPlain path = true := by
  unfold headerName isPlain
  cases hs : path.dropSuffix? ['/'] with
  | none =>
      have hn : ['/'].isSuffixOf path = false := by
        rw [Bool.eq_false_iff, ne_eq, List.isSuffixOf_iff_suffix]
        rintro ⟨stem, rfl⟩
        have hd : (stem ++ ['/']).dropSuffix? ['/'] = some stem :=
          List.dropSuffix?_eq_some_iff.mpr ⟨_, rfl, beq_self_eq_true _⟩
        rw [hd] at hs
        contradiction
      simp [hn, ← intercalate_components_iff]
  | some stem =>
      obtain ⟨t, rfl, ht⟩ := List.dropSuffix?_eq_some_iff.mp hs
      obtain rfl : t = ['/'] := by simpa using ht
      have hn : ['/'].isSuffixOf (stem ++ ['/']) = true := by simp
      have hsplit : (stem ++ ['/']).splitOn '/' = stem.splitOn '/' ++ [[]] :=
        List.splitOn_append_cons_self stem []
      have hf : ([] :: ([] : List Str)).filter isComponent = [] := rfl
      simp [hn, hsplit, hf, ← intercalate_components_iff]

example : headerName (str "./demo//Chart.yaml") = str "demo/Chart.yaml" := by decide

def nul : Char := Char.ofNat 0

/-- The name that comes back. A long name is read up to the zero bytes at its end. -/
def storedName (fits : Str → Bool) (path : Str) : Str :=
  if fits path then headerName path else path.rdropWhile (· == nul)

def storedFile (fits : Str → Bool) (f : TgzFile) : TgzFile :=
  ⟨storedName fits f.name, f.data, f.mode % 8 ^ 7, f.mtime⟩

def keepsName (fits : Str → Bool) (path : Str) : Bool :=
  if fits path then isPlain path else path.getLast? != some nul

theorem storedName_eq_self_iff (fits : Str → Bool) (path : Str) :
    storedName fits path = path ↔ keepsName fits path = true := by
  unfold storedName keepsName
  split
  · exact headerName_eq_self_iff path
  · rw [List.rdropWhile_eq_self_iff]
    cases path using List.reverseRecOn with
    | nil => simp
    | append_singleton s c => simp

/-- The files that the writer keeps as they are. -/
theorem storedFile_eq_self_iff (fits : Str → Bool) (f : TgzFile) :
    storedFile fits f = f ↔ keepsName fits f.name = true ∧ f.mode < 8 ^ 7 := by
  rw [← storedName_eq_self_iff, ← Nat.mod_eq_iff_lt (by decide)]
  cases f
  simp [storedFile]

theorem exists_last_byte {c : Char} (h : c ≠ nul) :
    ∃ front last, String.utf8EncodeChar c = front ++ [last] ∧ last ≠ 0 := by
  obtain ⟨v, hv⟩ : ∃ v, v = c.toNat := ⟨_, rfl⟩
  have hc : Char.ofNat v = c := by rw [hv, Char.ofNat_toNat]
  have hvalid : v < 0xD800 ∨ 0xDFFF < v ∧ v < 0x110000 := hv ▸ c.valid
  have hne : v ≠ 0 := by
    rintro rfl
    exact h hc.symm
  have last : ∀ n, 0 < n → n < 256 → UInt8.ofNat n ≠ 0 := by
    intro n hpos hlt he
    have := congrArg UInt8.toNat he
    rw [toNat_ofNat_of_lt hlt] at this
    simp at this
    omega
  rw [← hc, utf8EncodeChar_ofNat hvalid]
  split
  · exact ⟨[], _, rfl, last v (by omega) (by omega)⟩
  · have ht := last (v % 64 + 128) (by omega) (by omega)
    split
    · exact ⟨[_], _, rfl, ht⟩
    · split
      · exact ⟨[_, _], _, rfl, ht⟩
      · exact ⟨[_, _, _], _, rfl, ht⟩

theorem trimTrailingNuls_asBytes (s : Str) :
    trimTrailingNuls (asBytes s) = asBytes (s.rdropWhile (· == nul)) := by
  induction s using List.reverseRecOn with
  | nil => rfl
  | append_singleton s c ih =>
      have happ : asBytes (s ++ [c]) = asBytes s ++ String.utf8EncodeChar c := by simp [asBytes]
      rw [happ]
      by_cases hc : c = nul
      · subst hc
        have hz : String.utf8EncodeChar nul = [0] := by decide
        rw [hz, trimTrailingNuls, List.rdropWhile_concat_pos _ _ _ (by decide),
          List.rdropWhile_concat_pos _ _ _ (by simp)]
        exact ih
      · obtain ⟨front, last, he, hl⟩ := exists_last_byte hc
        rw [he, trimTrailingNuls, ← List.append_assoc, List.rdropWhile_concat_neg _ _ _ (by simpa using hl),
          List.rdropWhile_concat_neg _ _ _ (by simpa using hc), happ, he, List.append_assoc]
  
theorem longName_read (name : Str) :
    fromUtf8Lossy (trimTrailingNuls (asBytes name ++ [0])) = name.rdropWhile (· == nul) := by
  have hz : trimTrailingNuls (asBytes name ++ [0]) = trimTrailingNuls (asBytes name) :=
    List.rdropWhile_concat_pos _ _ _ (by decide)
  rw [hz, trimTrailingNuls_asBytes, fromUtf8Lossy_asBytes]
section Run
variable {platform : Platform} {limits : ArchiveLimits} {bound : ℕ}

/-- The checks on an entry that is within every limit. -/
theorem charge_within {st : LoopState} {entry : RawEntry} (ht : entry.entryType ≠ .gnuSparse)
    (hp : st.pending.paxSize = none) (husize : st.entryCount + 1 ≤ platform.usizeMax)
    (hcount : st.entryCount + 1 ≤ limits.maxFiles) (hsize : entry.size ≤ limits.maxFileBytes)
    (hsum : st.expandedBytes + entry.size ≤ u64Max)
    (htotal : st.expandedBytes + entry.size ≤ limits.maxExpandedBytes) :
    charge platform limits st entry = .ok (entry.size, {st with
      entryCount := st.entryCount + 1, expandedBytes := st.expandedBytes + entry.size}) := by
  have hcharged : entrySize st.pending entry = entry.size := by
    unfold entrySize
    rw [hp]
    exact ite_self _
  unfold charge
  rw [hcharged]
  simp only [ht, if_false]
  rw [if_neg (by omega), if_neg (by omega), if_neg (by omega), if_neg (by omega),
    if_neg (by omega)]

theorem charge_admitted (hr : Roomy platform) (ha : Above bound limits) (hb : bound ≤ u64Max)
    (st : LoopState) (entry : RawEntry) (ht : entry.entryType ≠ .gnuSparse)
    (hp : st.pending.paxSize = none)
    (hu : st.entryCount + st.expandedBytes + (1 + entry.size) ≤ bound) :
    charge platform limits st entry = .ok (entry.size, {st with
      entryCount := st.entryCount + 1, expandedBytes := st.expandedBytes + entry.size}) := by
  obtain ⟨he, hf, hn⟩ := ha
  have hc := hr.counts
  exact charge_within ht hp (by omega) (by omega) (by omega) (by omega) (by omega)

/-- An entry whose buffer is there is read to its end. -/
theorem readEntryPayload_opened {entry : RawEntry} (what : Str) (m : Meter)
    (ho : opens platform entry.size = true) (he : entry.readError = none)
    (hl : entry.payload.length = entry.size) :
    readEntryPayload platform entry entry.size what m =
      (.ok entry.payload, m.fill entry.payload.length) := by
  simp only [opens, Bool.and_eq_true, decide_eq_true_eq] at ho
  unfold readEntryPayload
  rw [if_neg (Nat.not_lt.mpr ho.1), ho.2, he]
  simp [hl]

theorem opens_of_roomy (hr : Roomy platform) {n : ℕ} (h : n ≤ u64Max) :
    opens platform n = true := by
  have hc := hr.counts
  simp only [opens, hr.reserves, Bool.and_true, decide_eq_true_eq]
  omega

/-- A member is unpacked under the name that its metadata gives it. -/
theorem unpackEntry_member {st : LoopState} {header : TarHeader} {path : Except Str Str}
    {data : Bytes} {name : Str} (m : Meter)
    (hcharge : charge platform limits st (member header path data) = .ok (data.length, {st with
      entryCount := st.entryCount + 1, expandedBytes := st.expandedBytes + data.length}))
    (ho : opens platform data.length = true)
    (hgrows : platform.growsTo (st.files.length + 1) = true)
    (hname : memberName st.pending (member header path data) = .ok name) :
    unpackEntry platform limits st (member header path data) m =
      (.ok ⟨st.files ++ [⟨name, data, header.mode % 8 ^ 7, header.mtime⟩],
        st.expandedBytes + data.length, st.entryCount + 1, {}⟩, m.fill data.length) := by
  have hread := @readEntryPayload_opened platform (member header path data) (str "regular file") m
    ho rfl rfl
  unfold unpackEntry
  rw [hcharge]
  simp only [member, isMetadataEntry] at hread hname ⊢
  simp only [unpackMember, hgrows, hname, hread]
  rfl

/-- A long name is left for the next member. -/
theorem unpackEntry_longName {st : LoopState} {path : Str} (m : Meter) (hp : st.pending = {})
    (hcharge : charge platform limits st (longNameEntry path) =
      .ok ((longNameEntry path).size, {st with
        entryCount := st.entryCount + 1
        expandedBytes := st.expandedBytes + (longNameEntry path).size}))
    (ho : opens platform (longNameEntry path).size = true) :
    unpackEntry platform limits st (longNameEntry path) m =
      (.ok ⟨st.files, st.expandedBytes + (longNameEntry path).size, st.entryCount + 1,
        {longName := some (asBytes path ++ [0])}⟩, m.fill (longNameEntry path).size) := by
  have hread := readEntryPayload_opened (str "tar extension entry") m ho rfl
    (by simp [longNameEntry])
  unfold unpackEntry
  rw [hcharge]
  simp only [hread]
  simp [longNameEntry, isMetadataEntry, absorb, hp, Except.map]

/-- The entries of one file are unpacked to the file as it is stored. -/
theorem unpackEntries_written (hr : Roomy platform) (ha : Above bound limits)
    (hb : bound ≤ u64Max) {fits : Str → Bool} {f : TgzFile} {written : List RawEntry}
    (hw : Written fits ⟨f.data.length, f.mode, f.mtime⟩ f.name f.data written)
    {st : LoopState} (items : List Item) (m : Meter) (hp : st.pending = {})
    (hu : st.entryCount + st.expandedBytes + streamSize written ≤ bound) :
    ∃ st' m', unpackEntries platform limits (written.map .ok ++ items) st m =
        unpackEntries platform limits items st' m' ∧
      st'.files = st.files ++ [storedFile fits f] ∧ st'.pending = {} ∧
      st'.entryCount + st'.expandedBytes ≤
        st.entryCount + st.expandedBytes + streamSize written := by
  cases hw with
  | named hfits =>
      simp only [streamSize, blockSize, member, List.map_cons, List.map_nil, List.sum_cons,
        List.sum_nil] at hu ⊢
      have hname : memberName st.pending (member ⟨f.data.length, f.mode, f.mtime⟩
          (.ok (headerName f.name)) f.data) = .ok (headerName f.name) := by
        rw [hp]
        rfl
      have hcharge := charge_admitted hr ha hb st (member ⟨f.data.length, f.mode, f.mtime⟩
        (.ok (headerName f.name)) f.data) (by simp [member]) (by rw [hp])
        (by simp only [member]; omega)
      have hstep := unpackEntry_member m hcharge (opens_of_roomy hr (by omega)) (hr.grows _) hname
      refine ⟨⟨st.files ++ [storedFile fits f], st.expandedBytes + f.data.length,
        st.entryCount + 1, {}⟩, m.fill f.data.length, ?_, rfl, rfl, by simp only; omega⟩
      simp only [List.cons_append, List.nil_append, unpackEntries]
      simp only [member] at hstep
      rw [hstep]
      simp [storedFile, storedName, hfits]
  | longNamed cut hfits =>
      simp only [streamSize, blockSize, member, List.map_cons, List.map_nil, List.sum_cons,
        List.sum_nil] at hu ⊢
      have hlong := unpackEntry_longName m hp (charge_admitted hr ha hb st (longNameEntry f.name)
        (by simp [longNameEntry]) (by rw [hp]) (by omega)) (opens_of_roomy hr (by omega))
      have hname : memberName {longName := some (asBytes f.name ++ [0])}
          (member ⟨f.data.length, f.mode, f.mtime⟩ cut f.data) =
            .ok (storedName fits f.name) := by
        simp [memberName, PendingMetadata.pathOverride, storedName, hfits, longName_read]
      have hcharge := charge_admitted hr ha hb
        ⟨st.files, st.expandedBytes + (longNameEntry f.name).size, st.entryCount + 1,
          {longName := some (asBytes f.name ++ [0])}⟩
        (member ⟨f.data.length, f.mode, f.mtime⟩ cut f.data) (by simp [member]) rfl
        (by simp only [member]; omega)
      have hstep := unpackEntry_member (m.fill (longNameEntry f.name).size) hcharge
        (opens_of_roomy hr (by omega)) (hr.grows _) hname
      refine ⟨⟨st.files ++ [storedFile fits f],
        st.expandedBytes + (longNameEntry f.name).size + f.data.length, st.entryCount + 1 + 1, {}⟩,
        (m.fill (longNameEntry f.name).size).fill f.data.length, ?_, rfl, rfl,
        by simp only; omega⟩
      simp only [List.cons_append, List.nil_append, unpackEntries, hlong]
      simp only [member] at hstep
      rw [hstep]
      rfl

/-- The entries that the files are written as, one list for each file. -/
def WrittenFiles (fits : Str → Bool) : List TgzFile → List (List RawEntry) → Prop :=
  List.Forall₂ fun f written =>
    Written fits ⟨f.data.length, f.mode, f.mtime⟩ f.name f.data written

theorem streamSize_append (entries entries' : List RawEntry) :
    streamSize (entries ++ entries') = streamSize entries + streamSize entries' := by
  simp [streamSize]

theorem unpackEntries_files (hr : Roomy platform) (ha : Above bound limits)
    (hb : bound ≤ u64Max) {fits : Str → Bool} {files : List TgzFile}
    {written : List (List RawEntry)} (hw : WrittenFiles fits files written)
    {st : LoopState} (m : Meter) (hp : st.pending = {})
    (hu : st.entryCount + st.expandedBytes + streamSize written.flatten ≤ bound) :
    (unpackEntries platform limits (written.flatten.map .ok) st m).1 =
      .ok (st.files ++ files.map (storedFile fits)) := by
  induction hw generalizing st m with
  | nil => simp [unpackEntries, hp, PendingMetadata.isEmpty]
  | cons hf _ ih =>
      rw [List.flatten_cons, streamSize_append] at hu
      rw [List.flatten_cons, List.map_append]
      obtain ⟨st', m', he, hfiles, hp', hu'⟩ :=
        unpackEntries_written hr ha hb hf (List.map .ok _) m hp (by omega)
      rw [he, ih m' hp' (by omega), hfiles]
      simp

end Run

section Format
variable {writer : TarWriter} {reader : TarReader}

theorem mapError_eq_ok {E F A : Type} {f : E → F} {r : Except E A} {a : A}
    (h : r.mapError f = .ok a) : r = .ok a := by
  cases r with
  | error e => contradiction
  | ok b => exact congrArg Except.ok (Except.ok.inj h)

/-- What the loop of appends leaves in the stream. -/
theorem appendFiles_holds (format : TarFormat writer reader) {files : List TgzFile}
    {tar tar' : Bytes} {entries : List RawEntry} (hh : format.Holds tar entries)
    (h : files.foldlM (appendFile writer) tar = .ok tar') :
    ∃ written, WrittenFiles format.fits files written ∧
      format.Holds tar' (entries ++ written.flatten) := by
  induction files generalizing tar entries with
  | nil =>
      obtain rfl : tar = tar' := Except.ok.inj h
      exact ⟨[], .nil, by simpa using hh⟩
  | cons f files ih =>
      rw [List.foldlM_cons] at h
      obtain ⟨next, hf, h⟩ := bind_eq_ok h
      obtain ⟨written, hw, hn⟩ := format.append hh rfl (mapError_eq_ok hf)
      obtain ⟨rest, hr, ht⟩ := ih hn h
      exact ⟨written :: rest, .cons hw hr, by simpa using ht⟩

/-- The reader finds in a packed archive the entries that were written. -/
theorem read_packTgz (format : TarFormat writer reader) {files : List TgzFile} {tgz : Bytes}
    (h : packTgz writer files = .ok tgz) : ∃ written, WrittenFiles format.fits files written ∧
      reader tgz = .ok (written.flatten.map .ok) ∧ streamSize written.flatten ≤ u64Max := by
  obtain ⟨tar, htar, h⟩ := bind_eq_ok h
  obtain ⟨tar', hfinish, h⟩ := bind_eq_ok h
  obtain ⟨written, hw, hh⟩ := appendFiles_holds format format.holds_nil htar
  have hread := format.read hh (mapError_eq_ok hfinish) (mapError_eq_ok h)
  have hmem := format.fits_memory hh
  rw [List.nil_append] at hread hmem
  exact ⟨written, hw, hread, hmem⟩

/-- A packed archive unpacks to the files as they are stored. -/
theorem unpacks_packTgz (format : TarFormat writer reader) {files : List TgzFile} {tgz : Bytes}
    (h : packTgz writer files = .ok tgz) :
    Unpacks reader tgz (files.map (storedFile format.fits)) := by
  obtain ⟨written, hw, hread, hmem⟩ := read_packTgz format h
  refine ⟨streamSize written.flatten, hmem, ?_⟩
  intro platform limits hr ha
  unfold unpackTgzWithLimits
  rw [hread]
  exact unpackEntries_files hr ha hmem hw {} rfl (by simp)

end Format

end Helmoci.TarPacking
