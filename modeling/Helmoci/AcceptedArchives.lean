import Helmoci.ArchiveMeaning

/-!
# The archives that are accepted

A group charges the sizes of its metadata and, for its member, the size that its own
records give, else the one in the header. The loop accepts the groups that keep the
limits, one group at a time, and its files are the regular members.
-/
namespace Helmoci.AcceptedArchives
open RustText Utf8 ServerErrors TarUnpacking PaxRecords TarPacking ArchiveMeaning

section Meaning
variable (platform : Platform)

def groupRecords (g : Group) : List (Bytes × Bytes) := recordsOf platform g.metadata

/-- The size that the member is charged. -/
def memberSize (g : Group) : ℕ := (sizeRecord (groupRecords platform g)).getD g.member.size

def groupCharges (g : Group) : List ℕ := g.metadata.map RawEntry.size ++ [memberSize platform g]

def groupPath (g : Group) : Option Bytes :=
  (pathRecord (groupRecords platform g)).or (longNameOf g.metadata)

/-- The name from the metadata, else the one in the header. -/
def groupName (g : Group) : Str :=
  match groupPath platform g with
  | some path => fromUtf8Lossy (trimTrailingNuls path)
  | none => g.member.path.toOption.getD []

def groupFiles (g : Group) : List TgzFile :=
  if g.member.entryType = .regular then
    [⟨groupName platform g, g.member.payload, g.member.mode.getD 0o644, g.member.mtime.getD 0⟩]
  else []

def charges (g : Grouping) : List ℕ :=
  g.groups.flatMap (groupCharges platform) ++ g.trailing.map RawEntry.size

/-- The regular members in order. -/
def files (g : Grouping) : List TgzFile := g.groups.flatMap (groupFiles platform)

structure GroupAccepted (g : Group) : Prop where
  notSparse : g.member.entryType ≠ .gnuSparse
  described : WellDescribed platform g.metadata
  payload : g.member.entryType = .regular → ∀ size ∈ sizeRecord (groupRecords platform g),
    size = g.member.payload.length

/-- A member has to follow a PAX header and a long name. -/
def NothingLeft (trailing : List RawEntry) : Prop :=
  ∀ e ∈ trailing, e.entryType ≠ .xHeader ∧ e.entryType ≠ .gnuLongName

structure Accepted (limits : ArchiveLimits) (g : Grouping) : Prop where
  count : g.entries.length ≤ limits.maxFiles
  sizes : ∀ size ∈ charges platform g, size ≤ limits.maxFileBytes
  total : (charges platform g).sum ≤ limits.maxExpandedBytes
  groups : ∀ group ∈ g.groups, GroupAccepted platform group
  nothingLeft : NothingLeft g.trailing

end Meaning

section Runs
variable {platform : Platform} {limits : ArchiveLimits}

/-- These charges keep the limits from this state on. -/
structure Fits (limits : ArchiveLimits) (st : LoopState) (charged : List ℕ) : Prop where
  count : st.entryCount + charged.length ≤ limits.maxFiles
  sizes : ∀ size ∈ charged, size ≤ limits.maxFileBytes
  total : st.expandedBytes + charged.sum ≤ limits.maxExpandedBytes

def spendAll (st : LoopState) (charged : List ℕ) (pending : PendingMetadata)
    (files : List TgzFile) : LoopState :=
  ⟨st.files ++ files, st.expandedBytes + charged.sum, st.entryCount + charged.length, pending⟩

theorem spendAll_spendAll (st : LoopState) (as bs : List ℕ) (p p' : PendingMetadata)
    (fs fs' : List TgzFile) : spendAll (spendAll st as p fs) bs p' fs' =
      spendAll st (as ++ bs) p' (fs ++ fs') := by
  simp [spendAll, Nat.add_assoc]

theorem spend_eq_spendAll (st : LoopState) (size : ℕ) (p : PendingMetadata)
    (fs : List TgzFile) : spend st size p fs = spendAll st [size] p fs := by
  simp [spend, spendAll]

theorem fits_append_iff {st : LoopState} {as bs : List ℕ} (p : PendingMetadata)
    (fs : List TgzFile) :
    Fits limits st (as ++ bs) ↔ Fits limits st as ∧ Fits limits (spendAll st as p fs) bs := by
  constructor
  · intro ⟨count, sizes, total⟩
    rw [List.length_append] at count
    rw [List.sum_append] at total
    refine ⟨⟨by omega, fun n hn => sizes n (List.mem_append_left _ hn), by omega⟩,
      ⟨?_, fun n hn => sizes n (List.mem_append_right _ hn), ?_⟩⟩
    · simp only [spendAll]
      omega
    · simp only [spendAll]
      omega
  · intro ⟨⟨_, sizes, _⟩, ⟨count', sizes', total'⟩⟩
    simp only [spendAll] at count' total'
    refine ⟨?_, ?_, ?_⟩
    · rw [List.length_append]
      omega
    · intro n hn
      rcases List.mem_append.mp hn with hn | hn
      · exact sizes n hn
      · exact sizes' n hn
    · rw [List.sum_append]
      omega

theorem turns_append_iff {st st' : LoopState} {es es' : List RawEntry} :
    Turns platform limits st (es ++ es') st' ↔
      ∃ m, Turns platform limits st es m ∧ Turns platform limits m es' st' := by
  induction es generalizing st with
  | nil =>
      constructor
      · intro h
        exact ⟨st, .nil st, h⟩
      · intro ⟨m, hn, h⟩
        cases hn
        exact h
  | cons e es ih =>
      constructor
      · intro h
        cases h with
        | cons hturn h =>
            obtain ⟨m, hes, h⟩ := ih.mp h
            exact ⟨m, .cons hturn hes, h⟩
      · intro ⟨m, hes, h⟩
        cases hes with
        | cons hturn hes => exact .cons hturn (ih.mpr ⟨m, hes, h⟩)

theorem turns_singleton_iff {st st' : LoopState} {e : RawEntry} :
    Turns platform limits st [e] st' ↔ Turn platform limits st e st' := by
  constructor
  · intro h
    cases h with
    | cons hturn h =>
        cases h
        exact hturn
  · intro h
    exact .cons h (.nil st')

theorem turn_metadata_iff {st st' : LoopState} {e : RawEntry}
    (he : isMetadataEntry e.entryType = true) : Turn platform limits st e st' ↔
      Fits limits st [e.size] ∧ ∃ pending,
        absorb platform e.entryType e.payload st.pending = .ok pending ∧
          st' = spend st e.size pending [] := by
  have hsize : entrySize st.pending e = e.size := if_pos he
  have hsparse : e.entryType ≠ .gnuSparse := by
    intro h
    rw [h] at he
    cases he
  constructor
  · intro ⟨count, size, total, _, metadata, _⟩
    rw [hsize] at size total metadata
    exact ⟨⟨count, by simpa using size, by simpa using total⟩, metadata he⟩
  · intro ⟨⟨count, sizes, total⟩, h⟩
    refine ⟨count, by rw [hsize]; exact sizes _ List.mem_cons_self,
      by rw [hsize]; simpa using total, hsparse, fun _ => by rw [hsize]; exact h, ?_⟩
    intro hm
    rw [hm] at he
    cases he

/-- A run over metadata absorbs it and charges it. -/
theorem turns_metadata_iff {st st' : LoopState} {metadata : List RawEntry}
    (hm : ∀ e ∈ metadata, isMetadataEntry e.entryType = true) (hf : Fits limits st []) :
    Turns platform limits st metadata st' ↔ Fits limits st (metadata.map RawEntry.size) ∧
      ∃ pending, absorbAll platform metadata st.pending = .ok pending ∧
        st' = spendAll st (metadata.map RawEntry.size) pending [] := by
  induction metadata generalizing st with
  | nil =>
      constructor
      · intro h
        obtain rfl : st' = st := by cases h; rfl
        exact ⟨hf, st'.pending, rfl, by simp [spendAll]⟩
      · intro ⟨_, pending, hp, hst⟩
        cases hp
        have hst : st' = st := by simpa [spendAll] using hst
        rw [hst]
        exact .nil st
  | cons e es ih =>
      have he := hm e List.mem_cons_self
      have hes : ∀ e ∈ es, isMetadataEntry e.entryType = true :=
        fun d hd => hm d (List.mem_cons_of_mem e hd)
      have hcons : absorbAll platform (e :: es) st.pending =
          (absorb platform e.entryType e.payload st.pending).bind (absorbAll platform es) := rfl
      have hmap : (e :: es).map RawEntry.size = [e.size] ++ es.map RawEntry.size := rfl
      constructor
      · intro h
        cases h with
        | cons hturn h =>
            obtain ⟨hfit, pending, ha, rfl⟩ := (turn_metadata_iff he).mp hturn
            rw [spend_eq_spendAll] at h
            have hnext : Fits limits (spendAll st [e.size] pending []) [] := by
              have := (@fits_append_iff limits st [e.size] [] pending []).mp hfit
              exact this.2
            obtain ⟨hfits, pending', hall, hst⟩ := (ih hes hnext).mp h
            refine ⟨?_, pending', ?_, ?_⟩
            · rw [hmap, fits_append_iff pending []]
              exact ⟨hfit, hfits⟩
            · rw [hcons, ha]
              exact hall
            · rw [hst, spendAll_spendAll]
              rfl
      · intro ⟨hfits, pending', hall, hst⟩
        rw [hcons] at hall
        obtain ⟨pending, ha, hall⟩ := bind_eq_ok hall
        rw [hmap, fits_append_iff pending []] at hfits
        have hnext : Fits limits (spendAll st [e.size] pending []) [] :=
          ((@fits_append_iff limits st [e.size] [] pending []).mp hfits.1).2
        refine .cons ((turn_metadata_iff he).mpr ⟨hfits.1, pending, ha, rfl⟩) ?_
        rw [spend_eq_spendAll]
        refine (ih hes hnext).mpr ⟨hfits.2, pending', hall, ?_⟩
        rw [hst, spendAll_spendAll]
        rfl

theorem absorbAll_empty_iff {metadata : List RawEntry} {pending : PendingMetadata} :
    absorbAll platform metadata {} = .ok pending ↔
      WellDescribed platform metadata ∧ pending = pendingOf platform metadata {} := by
  rw [absorbAll_eq_ok_iff]
  simp

theorem entrySize_pendingOf (g : Group) :
    entrySize (pendingOf platform g.metadata {}) g.member = memberSize platform g := by
  unfold entrySize
  rw [g.isMember, if_neg Bool.false_ne_true]
  simp [pendingOf, describe, memberSize, groupRecords]

theorem pathOverride_pendingOf (g : Group) :
    (pendingOf platform g.metadata {}).pathOverride = groupPath platform g := by
  simp only [PendingMetadata.pathOverride, pendingOf, describe, groupPath, groupRecords,
    Option.or_none, Option.none_or]
  cases pathRecord (recordsOf platform g.metadata) <;> rfl

theorem fileOf_pendingOf (g : Group) :
    fileOf (pendingOf platform g.metadata {}) g.member = groupFiles platform g := by
  have hname : ((memberName (pendingOf platform g.metadata {}) g.member).toOption).getD [] =
      groupName platform g := by
    unfold memberName groupName
    rw [pathOverride_pendingOf]
    cases groupPath platform g with
    | some path => rfl
    | none => cases g.member.path <;> rfl
  unfold fileOf groupFiles
  rw [hname]

theorem turn_member_iff {st st' : LoopState} {g : Group}
    (hp : st.pending = pendingOf platform g.metadata {})
    (hl : g.member.payload.length = g.member.size) : Turn platform limits st g.member st' ↔
      Fits limits st [memberSize platform g] ∧ g.member.entryType ≠ .gnuSparse ∧
        (g.member.entryType = .regular → ∀ size ∈ sizeRecord (groupRecords platform g),
          size = g.member.payload.length) ∧
        st' = spend st (memberSize platform g) {} (groupFiles platform g) := by
  have hsize : entrySize st.pending g.member = memberSize platform g := by
    rw [hp, entrySize_pendingOf]
  have hfile : fileOf st.pending g.member = groupFiles platform g := by
    rw [hp, fileOf_pendingOf]
  have hpayload : memberSize platform g = g.member.payload.length ↔
      ∀ size ∈ sizeRecord (groupRecords platform g), size = g.member.payload.length := by
    unfold memberSize
    cases sizeRecord (groupRecords platform g) with
    | none => simp [hl]
    | some n => simp
  constructor
  · intro ⟨count, size, total, notSparse, _, member⟩
    obtain ⟨hpay, hst⟩ := member g.isMember
    rw [hsize] at size total hpay hst
    rw [hfile] at hst
    exact ⟨⟨count, by simpa using size, by simpa using total⟩, notSparse,
      fun hr => hpayload.mp (hpay hr), hst⟩
  · intro ⟨⟨count, sizes, total⟩, notSparse, hpay, hst⟩
    refine ⟨count, ?_, ?_, notSparse, ?_, ?_⟩
    · rw [hsize]
      exact sizes _ List.mem_cons_self
    · rw [hsize]
      simpa using total
    · intro hm
      rw [g.isMember] at hm
      cases hm
    · intro _
      rw [hsize, hfile]
      exact ⟨fun hr => hpayload.mpr (hpay hr), hst⟩

/-- A run over a group charges it and adds its file. -/
theorem turns_group_iff {st st' : LoopState} {g : Group} (hp : st.pending = {})
    (hf : Fits limits st []) (hl : g.member.payload.length = g.member.size) :
    Turns platform limits st g.entries st' ↔ Fits limits st (groupCharges platform g) ∧
      GroupAccepted platform g ∧
      st' = spendAll st (groupCharges platform g) {} (groupFiles platform g) := by
  unfold Group.entries groupCharges
  rw [turns_append_iff, fits_append_iff (pendingOf platform g.metadata {}) []]
  constructor
  · intro ⟨m, hmeta, hmember⟩
    obtain ⟨hfits, pending, hall, rfl⟩ := (turns_metadata_iff g.describes hf).mp hmeta
    rw [hp, absorbAll_empty_iff] at hall
    obtain ⟨hw, rfl⟩ := hall
    obtain ⟨hfit, hsparse, hpay, rfl⟩ :=
      (turn_member_iff rfl hl).mp (turns_singleton_iff.mp hmember)
    refine ⟨⟨hfits, hfit⟩, ⟨hsparse, hw, hpay⟩, ?_⟩
    rw [spend_eq_spendAll, spendAll_spendAll]
    rfl
  · intro ⟨⟨hfits, hfit⟩, ⟨hsparse, hw, hpay⟩, hst⟩
    have hall : absorbAll platform g.metadata st.pending =
        .ok (pendingOf platform g.metadata {}) := by
      rw [hp, absorbAll_empty_iff]
      exact ⟨hw, rfl⟩
    refine ⟨spendAll st (g.metadata.map RawEntry.size) (pendingOf platform g.metadata {}) [],
      (turns_metadata_iff g.describes hf).mpr ⟨hfits, _, hall, rfl⟩, turns_singleton_iff.mpr ?_⟩
    refine (turn_member_iff rfl hl).mpr ⟨hfit, hsparse, hpay, ?_⟩
    rw [hst, spend_eq_spendAll, spendAll_spendAll]
    rfl

theorem turns_groups_iff {st st' : LoopState} {groups : List Group} (hp : st.pending = {})
    (hf : Fits limits st [])
    (hl : ∀ g ∈ groups, g.member.payload.length = g.member.size) :
    Turns platform limits st (groups.flatMap Group.entries) st' ↔
      Fits limits st (groups.flatMap (groupCharges platform)) ∧
      (∀ g ∈ groups, GroupAccepted platform g) ∧
      st' = spendAll st (groups.flatMap (groupCharges platform)) {}
        (groups.flatMap (groupFiles platform)) := by
  induction groups generalizing st with
  | nil =>
      have hst : spendAll st [] {} [] = st := by
        cases st
        simp_all [spendAll]
      simp only [List.flatMap_nil, hst, hf, List.not_mem_nil, false_implies, implies_true,
        true_and]
      constructor
      · intro h
        cases h
        rfl
      · intro h
        rw [h]
        exact .nil st
  | cons g groups ih =>
      have hg := hl g List.mem_cons_self
      have hgs : ∀ g ∈ groups, g.member.payload.length = g.member.size :=
        fun d hd => hl d (List.mem_cons_of_mem g hd)
      simp only [List.flatMap_cons]
      rw [turns_append_iff, fits_append_iff {} (groupFiles platform g), List.forall_mem_cons]
      have next : Fits limits st (groupCharges platform g) →
          Fits limits (spendAll st (groupCharges platform g) {} (groupFiles platform g)) [] := by
        intro h
        rw [← List.append_nil (groupCharges platform g),
          fits_append_iff {} (groupFiles platform g)] at h
        exact h.2
      constructor
      · intro ⟨m, hgroup, hrest⟩
        obtain ⟨hfit, hacc, rfl⟩ := (turns_group_iff hp hf hg).mp hgroup
        obtain ⟨hfits, haccs, hst⟩ := (ih rfl (next hfit) hgs).mp hrest
        exact ⟨⟨hfit, hfits⟩, ⟨hacc, haccs⟩, by rw [hst, spendAll_spendAll]⟩
      · intro ⟨⟨hfit, hfits⟩, ⟨hacc, haccs⟩, hst⟩
        refine ⟨_, (turns_group_iff hp hf hg).mpr ⟨hfit, hacc, rfl⟩,
          (ih rfl (next hfit) hgs).mpr ⟨hfits, haccs, ?_⟩⟩
        rw [hst, spendAll_spendAll]

/-- The entries behind the last member leave nothing behind. -/
theorem nothingLeft_iff {trailing : List RawEntry} : NothingLeft trailing ↔
    WellDescribed platform trailing ∧
      (pendingOf platform trailing {}).isEmpty = true := by
  have hempty : (pendingOf platform trailing {}).isEmpty = true ↔
      longNameOf trailing = none ∧ trailing.any (isHeaderOf .xHeader) = false := by
    simp [PendingMetadata.isEmpty, pendingOf, describe]
  rw [hempty]
  unfold longNameOf NothingLeft
  rw [Option.map_eq_none_iff, List.find?_eq_none, List.any_eq_false]
  simp only [isHeaderOf, beq_iff_eq]
  constructor
  · intro h
    have zero : ∀ t, (∀ e ∈ trailing, ¬ e.entryType = t) →
        trailing.countP (isHeaderOf t) ≤ 1 := by
      intro t ht
      rw [List.countP_eq_zero.mpr (by simpa [isHeaderOf] using ht)]
      exact Nat.zero_le 1
    refine ⟨⟨zero _ fun e he => (h e he).2, zero _ fun e he => (h e he).1, ?_⟩,
      fun e he => (h e he).2, fun e he => (h e he).1⟩
    intro e he hx
    exact ((h e he).1 hx).elim
  · rintro ⟨_, hl, hx⟩ e he
    exact ⟨hx e he, hl e he⟩

theorem length_charges (g : Grouping) : (charges platform g).length = g.entries.length := by
  have hgroup : ∀ group : Group, (groupCharges platform group).length = group.entries.length := by
    intro group
    simp [groupCharges, Group.entries]
  simp [charges, Grouping.entries, List.length_flatMap, hgroup]

theorem mem_entries_of_mem_groups {g : Grouping} {group : Group} (h : group ∈ g.groups) :
    group.member ∈ g.entries := by
  apply List.mem_append_left
  rw [List.mem_flatMap]
  exact ⟨group, h, by simp [Group.entries]⟩

/-- The runs from the start that leave nothing pending are those over accepted groups. -/
theorem turns_entries_iff {g : Grouping} {fs : List TgzFile}
    (hl : ∀ e ∈ g.entries, e.payload.length = e.size) :
    (∃ st, Turns platform limits {} g.entries st ∧ st.pending.isEmpty = true ∧ st.files = fs) ↔
      Accepted platform limits g ∧ fs = files platform g := by
  have hf : Fits limits {} [] := ⟨by simp, by simp, by simp⟩
  have hmembers : ∀ group ∈ g.groups, group.member.payload.length = group.member.size :=
    fun group hg => hl _ (mem_entries_of_mem_groups hg)
  have hfits : Fits limits {} (charges platform g) ↔
      g.entries.length ≤ limits.maxFiles ∧
        (∀ size ∈ charges platform g, size ≤ limits.maxFileBytes) ∧
        (charges platform g).sum ≤ limits.maxExpandedBytes := by
    constructor
    · intro ⟨count, sizes, total⟩
      rw [length_charges] at count
      exact ⟨by simpa using count, sizes, by simpa using total⟩
    · intro ⟨count, sizes, total⟩
      refine ⟨?_, sizes, by simpa using total⟩
      rw [length_charges]
      simpa using count
  have hsplit := @fits_append_iff limits {} (g.groups.flatMap (groupCharges platform))
    (g.trailing.map RawEntry.size) {} (files platform g)
  have hnext : Fits limits {} (g.groups.flatMap (groupCharges platform)) →
      Fits limits (spendAll {} (g.groups.flatMap (groupCharges platform)) {}
        (files platform g)) [] := by
    intro h
    rw [← List.append_nil (g.groups.flatMap (groupCharges platform)),
      fits_append_iff {} (files platform g)] at h
    exact h.2
  constructor
  · intro ⟨st, hturns, hempty, hfiles⟩
    obtain ⟨m, hgroups, htrailing⟩ := turns_append_iff.mp hturns
    obtain ⟨hfit, hacc, rfl⟩ := (turns_groups_iff rfl hf hmembers).mp hgroups
    obtain ⟨hfit', pending, hall, rfl⟩ :=
      (turns_metadata_iff g.describes (hnext hfit)).mp htrailing
    obtain ⟨hw, rfl⟩ := absorbAll_empty_iff.mp hall
    obtain ⟨count, sizes, total⟩ := hfits.mp (hsplit.mpr ⟨hfit, hfit'⟩)
    refine ⟨⟨count, sizes, total, hacc, nothingLeft_iff.mpr ⟨hw, hempty⟩⟩, ?_⟩
    rw [← hfiles]
    simp [spendAll, files]
  · intro ⟨⟨count, sizes, total, hacc, hleft⟩, hfiles⟩
    obtain ⟨hfit, hfit'⟩ := hsplit.mp (hfits.mpr ⟨count, sizes, total⟩)
    obtain ⟨hw, hempty⟩ := (@nothingLeft_iff platform g.trailing).mp hleft
    refine ⟨_, turns_append_iff.mpr ⟨_, (turns_groups_iff rfl hf hmembers).mpr ⟨hfit, hacc, rfl⟩,
      (turns_metadata_iff g.describes (hnext hfit)).mpr
        ⟨hfit', _, absorbAll_empty_iff.mpr ⟨hw, rfl⟩, rfl⟩⟩, hempty, ?_⟩
    rw [hfiles]
    simp [spendAll, files]

/-- What is unpacked is the files of accepted groups, on any platform. -/
theorem accepted_of_unpackTgz {reader : TarReader} {tgz : Bytes} {entries : List RawEntry}
    {fs : List TgzFile} (hread : reader tgz = .ok (entries.map .ok))
    (hl : ∀ e ∈ entries, e.payload.length = e.size)
    (h : (unpackTgzWithLimits platform limits reader tgz).1 = .ok fs) :
    Accepted platform limits (grouping entries) ∧ fs = files platform (grouping entries) := by
  unfold unpackTgzWithLimits at h
  rw [hread] at h
  rw [← turns_entries_iff (by rwa [entries_grouping]), entries_grouping]
  exact turns_of_unpackEntries h

/-- The metadata that can change what the member is. -/
def describesMember (e : RawEntry) : Bool := isHeaderOf .xHeader e || isHeaderOf .gnuLongName e

theorem find?_filter_describesMember {metadata : List RawEntry} {t : EntryType}
    (ht : t = .xHeader ∨ t = .gnuLongName) :
    (metadata.filter describesMember).find? (isHeaderOf t) = metadata.find? (isHeaderOf t) := by
  have hsub : ∀ e, isHeaderOf t e = true → describesMember e = true := by
    intro e he
    rcases ht with rfl | rfl <;> simp [describesMember, he]
  rw [List.find?_filter]
  congr 1
  funext e
  cases he : isHeaderOf t e with
  | true => simp [hsub e he]
  | false => simp

/-- Long link targets and global records change nothing. -/
theorem groupFiles_congr {g h : Group} (hm : g.member = h.member)
    (hd : g.metadata.filter describesMember = h.metadata.filter describesMember) :
    groupFiles platform g = groupFiles platform h ∧
      memberSize platform g = memberSize platform h := by
  have hfind : ∀ t, t = EntryType.xHeader ∨ t = .gnuLongName →
      g.metadata.find? (isHeaderOf t) = h.metadata.find? (isHeaderOf t) := by
    intro t ht
    rw [← find?_filter_describesMember ht, hd, find?_filter_describesMember ht]
  have hrecords : groupRecords platform g = groupRecords platform h := by
    unfold groupRecords recordsOf
    rw [hfind _ (Or.inl rfl)]
  have hlong : longNameOf g.metadata = longNameOf h.metadata := by
    unfold longNameOf
    rw [hfind _ (Or.inr rfl)]
  unfold groupFiles memberSize groupName groupPath
  rw [hrecords, hlong, hm]
  exact ⟨rfl, rfl⟩

/-- Unpacking computes the meaning of the archive, and the metadata of a group reaches
no other group. -/
theorem unpackTgz_eq_ok_iff (hr : Roomy platform) (hs : Sized platform limits)
    {reader : TarReader} {tgz : Bytes} {entries : List RawEntry}
    (hread : reader tgz = .ok (entries.map .ok)) (hc : ∀ e ∈ entries, Complete e)
    (fs : List TgzFile) :
    ((unpackTgzWithLimits platform limits reader tgz).1 = .ok fs ↔
      Accepted platform limits (grouping entries) ∧
        fs = (grouping entries).groups.flatMap (groupFiles platform)) ∧
    ∀ g h : Group, g.member = h.member →
      g.metadata.filter describesMember = h.metadata.filter describesMember →
        groupFiles platform g = groupFiles platform h ∧
          memberSize platform g = memberSize platform h := by
  have hl : ∀ e ∈ entries, e.payload.length = e.size := fun e he => (hc e he).payload
  refine ⟨⟨accepted_of_unpackTgz hread hl, ?_⟩, fun g h => groupFiles_congr⟩
  intro h
  have hruns := (turns_entries_iff (by rwa [entries_grouping])).mpr h
  rw [entries_grouping] at hruns
  obtain ⟨st, hturns, hempty, hfiles⟩ := hruns
  unfold unpackTgzWithLimits
  rw [hread, ← hfiles]
  exact unpackEntries_of_turns hr hs hturns hc hempty

end Runs

def plainEntry (t : EntryType) (path : Str) (payload : Bytes) : RawEntry :=
  ⟨t, payload.length, .ok path, none, none, payload, none, le_rfl⟩

/-- All four kinds of metadata in front of a file, and a link behind it. -/
def describedEntries : List RawEntry :=
  [plainEntry .xGlobalHeader (str "g") (bytes "9 path=g\n"),
    plainEntry .gnuLongName (str "l") (bytes "long"),
    plainEntry .xHeader (str "x") (bytes "10 path=b\n9 size=2\n"),
    plainEntry .gnuLongLink (str "k") (bytes "link"),
    plainEntry .regular (str "a") (bytes "hi"), plainEntry .symlink (str "s") []]

theorem complete_plainEntry (t : EntryType) (path : Str) (payload : Bytes) :
    Complete (plainEntry t path payload) := ⟨⟨path, rfl⟩, rfl, rfl⟩

theorem complete_describedEntries : ∀ e ∈ describedEntries, Complete e := by
  intro e he
  simp only [describedEntries, List.mem_cons, List.not_mem_nil, or_false] at he
  rcases he with rfl | rfl | rfl | rfl | rfl | rfl <;> exact complete_plainEntry _ _ _

theorem describedEntries_unpack :
    Accepted roomyPlatform ⟨100, 50, 6⟩ (grouping describedEntries) ∧
      [⟨str "b", bytes "hi", 0o644, 0⟩] =
        (grouping describedEntries).groups.flatMap (groupFiles roomyPlatform) :=
  (@unpackTgz_eq_ok_iff roomyPlatform ⟨100, 50, 6⟩ roomyPlatform_roomy
    ⟨by decide, by decide⟩ (fun _ => .ok (describedEntries.map .ok)) [] describedEntries rfl
    complete_describedEntries _).1.mp (by decide)

end Helmoci.AcceptedArchives
