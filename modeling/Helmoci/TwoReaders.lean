import Helmoci.AcceptedArchives

/-!
# Two readers of one archive

What another reader makes of an accepted archive. It takes the sizes from the records
of every member, and it has its own rule for the name of a member that is described
twice.
-/
namespace Helmoci.TwoReaders
open RustText Utf8 ServerErrors TarUnpacking PaxRecords TarPacking ArchiveMeaning AcceptedArchives

/-- Moving on past a payload that ends early is an error. -/
def Advances (items : List Item) : Prop :=
  ∀ before e after, items = before ++ .ok e :: after → e.payload.length < e.size →
    ∃ err rest, after = .error err :: rest

def readEntries (items : List Item) : List RawEntry := items.filterMap Except.toOption

section Accepted
variable {platform : Platform} {limits : ArchiveLimits} {reader : TarReader} {tgz : Bytes}
  {items : List Item} {fs : List TgzFile}

theorem items_of_unpackEntries {st : LoopState} {m : Meter}
    (h : (unpackEntries platform limits items st m).1 = .ok fs) :
    items = (readEntries items).map .ok := by
  induction items generalizing st m with
  | nil => rfl
  | cons item items ih =>
      cases item with
      | error err => cases h
      | ok e =>
          rw [unpackEntries] at h
          split at h
          · cases h
          · exact congrArg (.ok e :: ·) (ih h)

theorem items_of_unpackTgz (hread : reader tgz = .ok items)
    (h : (unpackTgzWithLimits platform limits reader tgz).1 = .ok fs) :
    items = (readEntries items).map .ok := by
  unfold unpackTgzWithLimits at h
  rw [hread] at h
  exact items_of_unpackEntries h

/-- No payload of an accepted archive ends early. -/
theorem payload_of_advances {entries : List RawEntry} (ha : Advances (entries.map .ok)) :
    ∀ e ∈ entries, e.payload.length = e.size := by
  intro e he
  obtain ⟨before, after, rfl⟩ := List.append_of_mem he
  by_contra hne
  have hlt : e.payload.length < e.size := Nat.lt_of_le_of_ne e.payload_le hne
  obtain ⟨err, rest, hrest⟩ := ha (before.map .ok) e (after.map .ok) (by simp) hlt
  cases after with
  | nil => cases hrest
  | cons d after => cases hrest

theorem accepted_of_advances (hread : reader tgz = .ok items) (ha : Advances items)
    (h : (unpackTgzWithLimits platform limits reader tgz).1 = .ok fs) :
    (∀ e ∈ readEntries items, e.payload.length = e.size) ∧
      Accepted platform limits (grouping (readEntries items)) ∧
      fs = files platform (grouping (readEntries items)) := by
  have hitems := items_of_unpackTgz hread h
  rw [hitems] at hread ha
  have hl := payload_of_advances ha
  exact ⟨hl, accepted_of_unpackTgz hread hl h⟩

end Accepted

section Sizes

def blockBytes (size : ℕ) : ℕ := (size + 511) / 512 * 512

/-- Where the headers stand for a reader that goes by these sizes. -/
def headerOffsets (offset : ℕ) : List ℕ → List ℕ
  | [] => []
  | size :: sizes => offset :: headerOffsets (offset + 512 + blockBytes size) sizes

/-- A reader that goes by the records finds what the raw reader finds. -/
structure SameLayout (platform : Platform) (g : Grouping) : Prop where
  sizes : ∀ group ∈ g.groups, ∀ size ∈ sizeRecord (groupRecords platform group),
    size = group.member.size
  offsets : headerOffsets 0 (charges platform g) = headerOffsets 0 (g.entries.map RawEntry.size)

variable {platform : Platform} {limits : ArchiveLimits}

theorem charges_eq_sizes {g : Grouping} (h : ∀ group ∈ g.groups,
    ∀ size ∈ sizeRecord (groupRecords platform group), size = group.member.size) :
    charges platform g = g.entries.map RawEntry.size := by
  have hgroup : ∀ group ∈ g.groups,
      groupCharges platform group = group.entries.map RawEntry.size := by
    intro group hg
    have hm : memberSize platform group = group.member.size := by
      unfold memberSize
      cases hs : sizeRecord (groupRecords platform group) with
      | none => rfl
      | some size => exact h group hg size hs
    simp [groupCharges, Group.entries, hm]
  rw [charges, Grouping.entries, List.map_append, List.map_flatMap, List.flatMap_congr hgroup]

/-- Only the size of a member that is dropped goes unchecked. -/
theorem sameLayout_iff {reader : TarReader} {tgz : Bytes} {items : List Item}
    {fs : List TgzFile} (hread : reader tgz = .ok items) (ha : Advances items)
    (h : (unpackTgzWithLimits platform limits reader tgz).1 = .ok fs) :
    SameLayout platform (grouping (readEntries items)) ↔
      ∀ group ∈ (grouping (readEntries items)).groups, group.member.entryType ≠ .regular →
        ∀ size ∈ sizeRecord (groupRecords platform group), size = group.member.size := by
  obtain ⟨hl, hacc, -⟩ := accepted_of_advances hread ha h
  constructor
  · intro hsame group hg _
    exact hsame.sizes group hg
  · intro hdropped
    have hsizes : ∀ group ∈ (grouping (readEntries items)).groups,
        ∀ size ∈ sizeRecord (groupRecords platform group), size = group.member.size := by
      intro group hg
      by_cases hr : group.member.entryType = .regular
      · have hm := mem_entries_of_mem_groups hg
        rw [entries_grouping] at hm
        intro size hs
        rw [(hacc.groups group hg).payload hr size hs]
        exact hl _ hm
      · exact hdropped group hg hr
    exact ⟨hsizes, by rw [charges_eq_sizes hsizes]⟩

/-- A directory whose record has a size that its header does not have. -/
def oversizedDirectory : List RawEntry :=
  [plainEntry .xHeader (str "x") (bytes "13 size=1000\n"), plainEntry .directory (str "demo") [],
    plainEntry .regular (str "demo/a") (bytes "hi")]

theorem advances_of_complete {entries : List RawEntry} (h : ∀ e ∈ entries, Complete e) :
    Advances (entries.map .ok) := by
  intro before e after hsplit hlt
  have hm : (.ok e : Item) ∈ entries.map Except.ok := by simp [hsplit]
  obtain ⟨d, hd, rfl⟩ : ∃ d ∈ entries, d = e := by simpa using hm
  rw [(h d hd).payload] at hlt
  omega

theorem described_layout :
    SameLayout roomyPlatform (grouping (readEntries (describedEntries.map .ok))) ↔
      ∀ group ∈ (grouping (readEntries (describedEntries.map .ok))).groups,
        group.member.entryType ≠ .regular →
          ∀ size ∈ sizeRecord (groupRecords roomyPlatform group), size = group.member.size :=
  @sameLayout_iff roomyPlatform ⟨100, 50, 6⟩ (fun _ => .ok (describedEntries.map .ok)) [] _
    [⟨str "b", bytes "hi", 0o644, 0⟩] rfl (advances_of_complete complete_describedEntries)
    (by decide)

/-- The directory is dropped, and nobody compares its two sizes. -/
theorem oversizedDirectory_is_accepted :
    Advances (oversizedDirectory.map .ok) ∧
      (unpackTgzWithLimits roomyPlatform ⟨2000, 2000, 3⟩
        (fun _ => .ok (oversizedDirectory.map .ok)) []).1 =
          .ok [⟨str "demo/a", bytes "hi", 0o644, 0⟩] ∧
      ¬ SameLayout roomyPlatform (grouping (readEntries (oversizedDirectory.map .ok))) := by
  refine ⟨advances_of_complete ?_, by decide, ?_⟩
  · intro e he
    simp only [oversizedDirectory, List.mem_cons, List.not_mem_nil, or_false] at he
    rcases he with rfl | rfl | rfl <;> exact complete_plainEntry _ _ _
  · intro hsame
    exact absurd hsame.offsets (by decide)

end Sizes

section Names
variable (platform : Platform)

def cString (payload : Bytes) : Bytes := payload.takeWhile (· != 0)

/-- The value that the map of records holds for the path. -/
def lastPath (records : List (Bytes × Bytes)) : Option Bytes :=
  ((records.filter fun p => p.1 == bytes "path").getLast?).map Prod.snd

/-- The long name, where it names something. -/
def longNamed (metadata : List RawEntry) : Option Bytes :=
  ((longNameOf metadata).map cString).filter (· != [])

/-- The name that the other reader chooses: the path if it is not empty, and in its
place the long name if that is not empty. -/
def goName (header : Bytes) (g : Group) : Bytes :=
  let path := ((lastPath (groupRecords platform g)).filter (· != [])).getD header
  (longNamed g.metadata).getD path

/-- The bytes of the name that is read off these. -/
def textOf (raw : Bytes) : Bytes := asBytes (fromUtf8Lossy (trimTrailingNuls raw))

def IsUtf8 (raw : Bytes) : Prop := ∃ s, raw = asBytes s

/-- Both readers choose the same source for the name and it is clean text, or the two
sources read the same. -/
def NamedAlike (header : Bytes) (g : Group) : Prop :=
  let records := groupRecords platform g
  match longNamed g.metadata, pathRecord records with
  | some name, some path => textOf path = name
  | some name, none => IsUtf8 name ∧ (longNameOf g.metadata).map trimTrailingNuls = some name
  | none, some path =>
    if lastPath records = some path then IsUtf8 path ∧ path.getLast? ≠ some 0
    else textOf path = header
  | none, none =>
    match longNameOf g.metadata with
    | some long => textOf long = header
    | none => IsUtf8 header

theorem isUtf8_iff {raw : Bytes} : IsUtf8 raw ↔ asBytes (fromUtf8Lossy raw) = raw := by
  constructor
  · intro ⟨s, hs⟩
    rw [hs, fromUtf8Lossy_asBytes]
  · intro h
    exact ⟨_, h.symm⟩

theorem trimTrailingNuls_eq_self_iff {raw : Bytes} :
    trimTrailingNuls raw = raw ↔ raw.getLast? ≠ some 0 := by
  rw [trimTrailingNuls, List.rdropWhile_eq_self_iff]
  cases raw using List.reverseRecOn with
  | nil => simp
  | append_singleton front b => simp

theorem textOf_eq_self_iff {raw : Bytes} :
    textOf raw = raw ↔ IsUtf8 raw ∧ raw.getLast? ≠ some 0 := by
  rw [← trimTrailingNuls_eq_self_iff]
  constructor
  · intro h
    obtain ⟨s, hs⟩ : IsUtf8 raw := ⟨_, h.symm⟩
    refine ⟨⟨s, hs⟩, ?_⟩
    -- the text without its trailing zeros is the text itself
    rw [textOf, hs, trimTrailingNuls_asBytes, fromUtf8Lossy_asBytes, asBytes_inj] at h
    rw [hs, trimTrailingNuls_asBytes, h]
  · intro ⟨hu, ht⟩
    rw [textOf, ht]
    exact isUtf8_iff.mp hu

theorem cString_prefix (raw : Bytes) : ∃ rest, trimTrailingNuls raw = cString raw ++ rest := by
  have hsplit : raw = cString raw ++ raw.dropWhile (· != 0) := List.takeWhile_append_dropWhile.symm
  have hclean : (cString raw).reverse.dropWhile (· == 0) = (cString raw).reverse := by
    rw [List.dropWhile_eq_self_iff]
    intro hl
    have hm : (cString raw).reverse[0] ∈ cString raw := List.mem_reverse.mp (List.getElem_mem hl)
    have hz := List.mem_takeWhile_imp hm
    simpa using hz
  have htrim : trimTrailingNuls raw =
      ((cString raw ++ raw.dropWhile (· != 0)).reverse.dropWhile (· == 0)).reverse := by
    rw [← hsplit]
    rfl
  rw [htrim, List.reverse_append, List.dropWhile_append]
  split
  · rw [hclean, List.reverse_reverse]
    exact ⟨[], (List.append_nil _).symm⟩
  · rw [List.reverse_append, List.reverse_reverse]
    exact ⟨_, rfl⟩

/-- A long name reads as its part in front of the first zero when nothing but zeros is
behind that. -/
theorem textOf_eq_cString_iff {raw : Bytes} : textOf raw = cString raw ↔
    IsUtf8 (cString raw) ∧ trimTrailingNuls raw = cString raw := by
  constructor
  · intro h
    obtain ⟨rest, hrest⟩ := cString_prefix raw
    have hc : cString raw = asBytes (fromUtf8Lossy (trimTrailingNuls raw)) := h.symm
    refine ⟨⟨_, hc⟩, ?_⟩
    have happ : fromUtf8Lossy (trimTrailingNuls raw) =
        fromUtf8Lossy (trimTrailingNuls raw) ++ fromUtf8Lossy rest := by
      conv_lhs => rw [hrest, hc, fromUtf8Lossy_append]
    have hnil : fromUtf8Lossy rest = [] := List.self_eq_append_right.mp happ
    cases rest with
    | nil => rw [hrest, List.append_nil]
    | cons b rest =>
        rw [fromUtf8Lossy_cons] at hnil
        cases hnil
  · intro ⟨hu, ht⟩
    rw [textOf, ht]
    exact isUtf8_iff.mp hu

/-- The path of the map is the last one that is not empty, unless it is empty itself. -/
theorem lastPath_eq {records : List (Bytes × Bytes)} {path : Bytes}
    (h : (lastPath records).filter (· != []) = some path) : pathRecord records = some path := by
  unfold lastPath at h
  unfold pathRecord
  induction records using List.reverseRecOn with
  | nil => cases h
  | append_singleton records p ih =>
      by_cases hp : p.1 = bytes "path"
      · have hf : (p.1 == bytes "path") = true := beq_iff_eq.mpr hp
        simp only [List.filter_append, List.filter_cons, hf, if_true, List.filter_nil,
          List.getLast?_append, List.getLast?_singleton, Option.some_or, Option.map_some,
          Option.filter_eq_some_iff, Option.some.injEq] at h
        obtain ⟨rfl, hne⟩ := h
        have hne : p.2 ≠ [] := by simpa using hne
        simp [pathOf, hp, hne]
      · have hf : (p.1 == bytes "path") = false := beq_eq_false_iff_ne.mpr hp
        simp only [List.filter_append, List.filter_cons, hf, Bool.false_eq_true, if_false,
          List.filter_nil, List.append_nil] at h
        simp [pathOf, hp, ih h]

theorem filter_lastPath {records : List (Bytes × Bytes)} {path : Bytes}
    (h : pathRecord records = some path) :
    (lastPath records).filter (· != []) =
      if lastPath records = some path then some path else none := by
  have hne : path ≠ [] := by
    obtain ⟨p, hp⟩ := List.getLast?_eq_some_iff.mp h
    have hm : path ∈ records.filterMap pathOf := by simp [hp]
    obtain ⟨record, -, hr⟩ := List.mem_filterMap.mp hm
    unfold pathOf at hr
    split at hr
    · rename_i hrec
      rw [← Option.some.inj hr]
      exact hrec.2
    · cases hr
  cases hl : lastPath records with
  | none => simp
  | some last =>
      by_cases hlast : last = []
      · rw [hlast]
        simp [Ne.symm hne]
      · have hf : (some last).filter (· != []) = some last := by simp [hlast]
        have hsame : pathRecord records = some last := lastPath_eq (by rw [hl]; exact hf)
        rw [h, Option.some.injEq] at hsame
        rw [hf, if_pos (by rw [hsame]), hsame]

variable {platform}

/-- A member is given the name that the other reader gives it exactly when it is named
alike. -/
theorem groupName_iff {header : Bytes} {g : Group}
    (hh : g.member.path = .ok (fromUtf8Lossy header)) :
    asBytes (groupName platform g) = goName platform header g ↔ NamedAlike platform header g := by
  have hname : asBytes (groupName platform g) =
      ((groupPath platform g).map textOf).getD (asBytes (fromUtf8Lossy header)) := by
    unfold groupName
    rw [hh]
    cases groupPath platform g <;> rfl
  rw [hname]
  unfold groupPath goName NamedAlike
  dsimp only
  cases hl : longNamed g.metadata with
  | some name =>
      obtain ⟨hl, -⟩ := Option.filter_eq_some_iff.mp hl
      obtain ⟨long, hlong, rfl⟩ := Option.map_eq_some_iff.mp hl
      cases hp : pathRecord (groupRecords platform g) with
      | some path => rfl
      | none =>
          simp only [hlong, Option.none_or, Option.map_some, Option.getD_some, Option.some.injEq]
          exact textOf_eq_cString_iff
  | none =>
      cases hp : pathRecord (groupRecords platform g) with
      | some path =>
          simp only [Option.some_or, Option.map_some, Option.getD_some, Option.getD_none]
          rw [filter_lastPath hp]
          split
          · exact textOf_eq_self_iff
          · rfl
      | none =>
          have hlast : (lastPath (groupRecords platform g)).filter (· != []) = none := by
            rw [Option.eq_none_iff_forall_ne_some]
            intro path h
            rw [lastPath_eq h] at hp
            cases hp
          simp only [hlast, Option.none_or, Option.getD_none]
          cases longNameOf g.metadata with
          | some long => rfl
          | none => exact isUtf8_iff.symm

def isRegular (g : Group) : Bool := g.member.entryType == .regular

theorem names_of_files (g : Grouping) : (files platform g).map (fun f => asBytes f.name) =
    (g.groups.filter isRegular).map fun group => asBytes (groupName platform group) := by
  unfold files
  induction g.groups with
  | nil => rfl
  | cons group groups ih =>
      rw [List.flatMap_cons, List.map_append, ih, List.filter_cons]
      by_cases hr : group.member.entryType = .regular
      · simp [groupFiles, isRegular, hr]
      · have hb : isRegular group = false := beq_eq_false_iff_ne.mpr hr
        simp [groupFiles, hr, hb]

/-- The names that the other reader gives the regular members. -/
def goNames (platform : Platform) (header : RawEntry → Bytes) (items : List Item) : List Bytes :=
  ((grouping (readEntries items)).groups.filter isRegular).map
    fun group => goName platform (header group.member) group

/-- The names agree exactly when every file is named alike. -/
theorem names_agree_iff {limits : ArchiveLimits} {reader : TarReader} {tgz : Bytes}
    {items : List Item} {fs : List TgzFile} {header : RawEntry → Bytes}
    (hread : reader tgz = .ok items) (ha : Advances items)
    (hh : ∀ e ∈ readEntries items, e.path = .ok (fromUtf8Lossy (header e)))
    (h : (unpackTgzWithLimits platform limits reader tgz).1 = .ok fs) :
    fs.map (fun f => asBytes f.name) = goNames platform header items ↔
      ∀ group ∈ (grouping (readEntries items)).groups, group.member.entryType = .regular →
        NamedAlike platform (header group.member) group := by
  obtain ⟨-, -, rfl⟩ := accepted_of_advances hread ha h
  rw [names_of_files, goNames, List.map_inj_left]
  have hmember : ∀ group ∈ (grouping (readEntries items)).groups,
      group.member.path = .ok (fromUtf8Lossy (header group.member)) := by
    intro group hg
    have hm := mem_entries_of_mem_groups hg
    rw [entries_grouping] at hm
    exact hh _ hm
  constructor
  · intro hnames group hg hr
    have hf : group ∈ (grouping (readEntries items)).groups.filter isRegular :=
      List.mem_filter.mpr ⟨hg, beq_iff_eq.mpr hr⟩
    exact (groupName_iff (hmember group hg)).mp (hnames group hf)
  · intro halike group hf
    obtain ⟨hg, hr⟩ := List.mem_filter.mp hf
    exact (groupName_iff (hmember group hg)).mpr (halike group hg (beq_iff_eq.mp hr))

def pathBytes (e : RawEntry) : Bytes := (e.path.toOption.map asBytes).getD []

theorem pathBytes_plainEntry (t : EntryType) (path : Str) (payload : Bytes) :
    (plainEntry t path payload).path =
      .ok (fromUtf8Lossy (pathBytes (plainEntry t path payload))) := by
  simp [plainEntry, pathBytes, Except.toOption]

/-- A file with a path and with a long name. -/
def namedTwice : List RawEntry :=
  [plainEntry .xHeader (str "x") (bytes "10 path=b\n"),
    plainEntry .gnuLongName (str "l") (bytes "long\x00"),
    plainEntry .regular (str "a") (bytes "hi")]

def namedOnce : List RawEntry :=
  [plainEntry .xHeader (str "x") (bytes "10 path=b\n"),
    plainEntry .regular (str "a") (bytes "hi")]

theorem namedOnce_names :
    [bytes "b"] = goNames roomyPlatform pathBytes (namedOnce.map .ok) ↔
      ∀ group ∈ (grouping (readEntries (namedOnce.map .ok))).groups,
        group.member.entryType = .regular →
          NamedAlike roomyPlatform (pathBytes group.member) group := by
  have hc : ∀ e ∈ namedOnce, Complete e ∧ e.path = .ok (fromUtf8Lossy (pathBytes e)) := by
    intro e he
    simp only [namedOnce, List.mem_cons, List.not_mem_nil, or_false] at he
    rcases he with rfl | rfl <;> exact ⟨complete_plainEntry _ _ _, pathBytes_plainEntry _ _ _⟩
  exact @names_agree_iff roomyPlatform ⟨100, 50, 6⟩ (fun _ => .ok (namedOnce.map .ok)) [] _
    [⟨str "b", bytes "hi", 0o644, 0⟩] pathBytes rfl
    (advances_of_complete fun e he => (hc e he).1) (fun e he => (hc e (by
      simpa [readEntries, Except.toOption] using he)).2) (by decide)

/-- The path wins here, the long name there. -/
theorem namedTwice_differs :
    Advances (namedTwice.map .ok) ∧
      (unpackTgzWithLimits roomyPlatform ⟨100, 50, 6⟩ (fun _ => .ok (namedTwice.map .ok)) []).1 =
        .ok [⟨str "b", bytes "hi", 0o644, 0⟩] ∧
      goNames roomyPlatform pathBytes (namedTwice.map .ok) = [bytes "long"] ∧
      [asBytes (str "b")] ≠ goNames roomyPlatform pathBytes (namedTwice.map .ok) := by
  refine ⟨advances_of_complete ?_, by decide, by decide, by decide⟩
  intro e he
  simp only [namedTwice, List.mem_cons, List.not_mem_nil, or_false] at he
  rcases he with rfl | rfl | rfl <;> exact complete_plainEntry _ _ _

end Names

end Helmoci.TwoReaders
