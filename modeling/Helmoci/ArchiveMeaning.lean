import Helmoci.ExpansionBudget
import Helmoci.PaxRecords
import Helmoci.TarPacking

/-!
# What an archive means

A sequence of entries is read as groups, a member behind the metadata that describes
it. An archive is accepted if the groups keep the limits and are well described, and
its files are the regular members under the names of their own groups. The loop with
its pending metadata accepts the same archives and gives the same files.
-/
namespace Helmoci.ArchiveMeaning
open RustText Utf8 ServerErrors TarUnpacking ExpansionBudget PaxRecords TarPacking

/-- The header can be read and the payload is all there. -/
structure Complete (e : RawEntry) : Prop where
  path : ∃ path, e.path = .ok path
  payload : e.payload.length = e.size
  readError : e.readError = none

section Turns
variable (platform : Platform) (limits : ArchiveLimits)

/-- The state after an entry that is charged this size. -/
def spend (st : LoopState) (size : ℕ) (pending : PendingMetadata) (files : List TgzFile) :
    LoopState := ⟨st.files ++ files, st.expandedBytes + size, st.entryCount + 1, pending⟩

/-- The file of a member behind its metadata. -/
def fileOf (metadata : PendingMetadata) (e : RawEntry) : List TgzFile :=
  if e.entryType = .regular then
    [⟨((memberName metadata e).toOption).getD [], e.payload, e.mode.getD 0o644, e.mtime.getD 0⟩]
  else []

/-- What one turn of the loop can do with a complete entry. -/
structure Turn (st : LoopState) (e : RawEntry) (st' : LoopState) : Prop where
  count : st.entryCount + 1 ≤ limits.maxFiles
  size : entrySize st.pending e ≤ limits.maxFileBytes
  total : st.expandedBytes + entrySize st.pending e ≤ limits.maxExpandedBytes
  notSparse : e.entryType ≠ .gnuSparse
  metadata : isMetadataEntry e.entryType = true → ∃ pending,
    absorb platform e.entryType e.payload st.pending = .ok pending ∧
      st' = spend st (entrySize st.pending e) pending []
  member : isMetadataEntry e.entryType = false →
    (e.entryType = .regular → entrySize st.pending e = e.payload.length) ∧
      st' = spend st (entrySize st.pending e) {} (fileOf st.pending e)

inductive Turns : LoopState → List RawEntry → LoopState → Prop
  | nil (st : LoopState) : Turns st [] st
  | cons {st m st' : LoopState} {e : RawEntry} {es : List RawEntry} :
      Turn platform limits st e m → Turns m es st' → Turns st (e :: es) st'

variable {platform limits}

theorem readEntryPayload_eq_ok {e : RawEntry} {size : ℕ} {what : Str} {m : Meter} {data : Bytes}
    (h : (readEntryPayload platform e size what m).1 = .ok data) :
    data = e.payload ∧ size = e.payload.length := by
  unfold readEntryPayload at h
  split at h
  · cases h
  · split at h
    · cases h
    · cases hr : e.readError with
      | some err =>
          simp only [hr] at h
          cases h
      | none =>
          simp only [hr] at h
          split at h
          · cases h
          · rename_i hl
            exact ⟨(Except.ok.inj h).symm, (not_not.mp hl).symm⟩

theorem charge_eq_ok {st st' : LoopState} {e : RawEntry} {size : ℕ}
    (h : charge platform limits st e = .ok (size, st')) :
    size = entrySize st.pending e ∧ st.entryCount + 1 ≤ limits.maxFiles ∧
      size ≤ limits.maxFileBytes ∧ st.expandedBytes + size ≤ limits.maxExpandedBytes ∧
      e.entryType ≠ .gnuSparse ∧ st' = spend st size st.pending [] := by
  unfold charge at h
  dsimp only at h
  split at h
  · cases h
  · split at h
    · cases h
    · split at h
      · split at h <;> cases h
      · split at h
        · cases h
        · split at h
          · cases h
          · split at h
            · cases h
            · rename_i hsparse
              cases h
              exact ⟨rfl, by omega, by omega, by omega, hsparse, by simp [spend]⟩

theorem turn_of_nextState {st st' : LoopState} {e : RawEntry}
    (h : nextState platform limits st e = .ok st') : Turn platform limits st e st' := by
  unfold nextState unpackEntry at h
  split at h
  · cases h
  · rename_i size st₁ hcharge
    obtain ⟨rfl, hcount, hsize, htotal, hsparse, rfl⟩ := charge_eq_ok hcharge
    refine ⟨hcount, hsize, htotal, hsparse, ?_, ?_⟩
    · intro hmeta
      rw [if_pos hmeta] at h
      cases hread : readEntryPayload platform e (entrySize st.pending e)
          (str "tar extension entry") {} with
      | mk r m =>
          have hr : (readEntryPayload platform e (entrySize st.pending e)
              (str "tar extension entry") {}).1 = r := by rw [hread]
          rw [hread] at h
          cases r with
          | error err => cases h
          | ok payload =>
              obtain ⟨rfl, -⟩ := readEntryPayload_eq_ok hr
              cases ha : absorb platform e.entryType e.payload st.pending with
              | error err => simp [spend, ha, Except.map] at h
              | ok pending =>
                  simp only [spend, ha, Except.map, Except.ok.injEq] at h
                  exact ⟨pending, rfl, h.symm⟩
    · intro hmember
      rw [if_neg (by simp [hmember])] at h
      unfold unpackMember at h
      by_cases hreg : e.entryType = .regular
      · rw [if_neg (by simp [hreg])] at h
        split at h
        · cases h
        · split at h
          · cases h
          · rename_i name hname
            cases hread : readEntryPayload platform e (entrySize st.pending e)
                (str "regular file") {} with
            | mk r m =>
                have hr : (readEntryPayload platform e (entrySize st.pending e)
                    (str "regular file") {}).1 = r := by rw [hread]
                rw [hread] at h
                cases r with
                | error err => cases h
                | ok data =>
                    obtain ⟨rfl, hlen⟩ := readEntryPayload_eq_ok hr
                    refine ⟨fun _ => hlen, ?_⟩
                    rw [← Except.ok.inj h]
                    change memberName st.pending e = .ok name at hname
                    simp [spend, fileOf, hreg, hname, Except.toOption]
      · rw [if_pos hreg] at h
        refine ⟨fun hr => (hreg hr).elim, ?_⟩
        rw [← Except.ok.inj h]
        simp [spend, fileOf, hreg]

/-- The widths of the limits' fields. -/
structure Sized (platform : Platform) (limits : ArchiveLimits) : Prop where
  bytes : limits.maxExpandedBytes ≤ u64Max
  files : limits.maxFiles ≤ platform.usizeMax

theorem nextState_of_turn (hr : Roomy platform) (hs : Sized platform limits) {st st' : LoopState}
    {e : RawEntry} (hc : Complete e) (h : Turn platform limits st e st') :
    nextState platform limits st e = .ok st' := by
  have hcounts := hr.counts
  have hbytes := hs.bytes
  have hfiles := hs.files
  have htotal := h.total
  have hcount := h.count
  have hcharge : charge platform limits st e = .ok (entrySize st.pending e,
      spend st (entrySize st.pending e) st.pending []) := by
    have hsize := h.size
    unfold charge
    simp only [h.notSparse, if_false]
    rw [if_neg (by omega), if_neg (by omega), if_neg (by omega), if_neg (by omega),
      if_neg (by omega)]
    simp [spend]
  unfold nextState unpackEntry
  rw [hcharge]
  cases hmeta : isMetadataEntry e.entryType with
  | true =>
      obtain ⟨pending, ha, rfl⟩ := h.metadata hmeta
      have hsize : entrySize st.pending e = e.size := if_pos hmeta
      have hread := readEntryPayload_opened (str "tar extension entry") {}
        (opens_of_roomy hr (by omega)) hc.readError hc.payload
      rw [hsize] at htotal ⊢
      simp only [if_true, hread, spend]
      rw [ha]
      rfl
  | false =>
      obtain ⟨hpayload, rfl⟩ := h.member hmeta
      simp only [Bool.false_eq_true, if_false]
      unfold unpackMember
      by_cases hreg : e.entryType = .regular
      · obtain ⟨path, hpath⟩ := hc.path
        have hname : ∃ name, memberName st.pending e = .ok name := by
          unfold memberName
          rw [hpath]
          split <;> exact ⟨_, rfl⟩
        obtain ⟨name, hname⟩ := hname
        have hlen := hpayload hreg
        have hread : readEntryPayload platform e (entrySize st.pending e) (str "regular file") {} =
            (.ok e.payload, Meter.fill {} e.payload.length) := by
          unfold readEntryPayload
          rw [if_neg (by omega), hr.reserves, hc.readError]
          simp [hlen]
        rw [if_neg (by simp [hreg]), hr.grows]
        simp only [spend, hname, hread]
        simp [fileOf, hreg, hname, Except.toOption]
      · rw [if_pos hreg]
        simp [spend, fileOf, hreg]

/-- An accepted sequence is a run of turns after which no metadata is left. -/
theorem turns_of_unpackEntries {entries : List RawEntry} {st : LoopState} {m : Meter}
    {files : List TgzFile}
    (h : (unpackEntries platform limits (entries.map .ok) st m).1 = .ok files) :
    ∃ st', Turns platform limits st entries st' ∧ st'.pending.isEmpty = true ∧
      st'.files = files := by
  induction entries generalizing st m with
  | nil =>
      rw [List.map_nil, unpackEntries] at h
      split at h
      · rename_i hp
        exact ⟨st, .nil st, hp, Except.ok.inj h⟩
      · cases h
  | cons e es ih =>
      rw [List.map_cons, unpackEntries] at h
      have hfst := @unpackEntry_fst platform limits st e m {}
      split at h
      · cases h
      · rename_i next m' hnext
        rw [hnext] at hfst
        obtain ⟨st', hturns, hp, hfiles⟩ := ih h
        exact ⟨st', .cons (turn_of_nextState hfst.symm) hturns, hp, hfiles⟩

theorem unpackEntries_of_turns (hr : Roomy platform) (hs : Sized platform limits)
    {entries : List RawEntry} {st st' : LoopState} {m : Meter}
    (h : Turns platform limits st entries st') (hc : ∀ e ∈ entries, Complete e)
    (hp : st'.pending.isEmpty = true) :
    (unpackEntries platform limits (entries.map .ok) st m).1 = .ok st'.files := by
  induction h generalizing m with
  | nil st => simp [unpackEntries, hp]
  | @cons st next st' e es hturn _ ih =>
      have hnext := nextState_of_turn hr hs (hc e List.mem_cons_self) hturn
      have hfst := @unpackEntry_fst platform limits st e m {}
      rw [List.map_cons, unpackEntries]
      cases he : unpackEntry platform limits st e m with
      | mk r m' =>
          rw [he] at hfst
          obtain rfl : r = .ok next := hfst.trans hnext
          exact ih (fun e he => hc e (List.mem_cons_of_mem _ he)) hp

end Turns

section Groups

/-- A member behind its metadata. -/
structure Group where
  metadata : List RawEntry
  member : RawEntry
  describes : ∀ e ∈ metadata, isMetadataEntry e.entryType = true
  isMember : isMetadataEntry member.entryType = false

def Group.entries (g : Group) : List RawEntry := g.metadata ++ [g.member]

/-- The groups of a sequence, and the metadata behind the last member. -/
structure Grouping where
  groups : List Group
  trailing : List RawEntry
  describes : ∀ e ∈ trailing, isMetadataEntry e.entryType = true

def Grouping.entries (g : Grouping) : List RawEntry := g.groups.flatMap Group.entries ++ g.trailing

def Grouping.describe (e : RawEntry) (h : isMetadataEntry e.entryType = true) :
    Grouping → Grouping
  | ⟨[], trailing, ht⟩ => ⟨[], e :: trailing, List.forall_mem_cons.mpr ⟨h, ht⟩⟩
  | ⟨g :: groups, trailing, ht⟩ =>
    ⟨⟨e :: g.metadata, g.member, List.forall_mem_cons.mpr ⟨h, g.describes⟩, g.isMember⟩ :: groups,
      trailing, ht⟩

def grouping : List RawEntry → Grouping
  | [] => ⟨[], [], by simp⟩
  | e :: es =>
    if h : isMetadataEntry e.entryType = true then (grouping es).describe e h
    else ⟨⟨[], e, by simp, by simpa using h⟩ :: (grouping es).groups, (grouping es).trailing,
      (grouping es).describes⟩

theorem entries_grouping (entries : List RawEntry) : (grouping entries).entries = entries := by
  have describe : ∀ (e : RawEntry) (h : isMetadataEntry e.entryType = true) (g : Grouping),
      (g.describe e h).entries = e :: g.entries := by
    intro e h g
    obtain ⟨groups, trailing, ht⟩ := g
    cases groups with
    | nil => rfl
    | cons g groups => simp [Grouping.describe, Grouping.entries, Group.entries]
  induction entries with
  | nil => rfl
  | cons e es ih =>
      unfold grouping
      split
      · rw [describe, ih]
      · simp only [Grouping.entries, List.flatMap_cons, Group.entries, List.nil_append,
          List.cons_append]
        exact congrArg (e :: ·) ih

variable (platform : Platform)

def isHeaderOf (t : EntryType) (e : RawEntry) : Bool := e.entryType == t

/-- The payload of the long-name entry, if there is one. -/
def longNameOf (metadata : List RawEntry) : Option Bytes :=
  (metadata.find? (isHeaderOf .gnuLongName)).map RawEntry.payload

/-- The records of the PAX header, if there is one. -/
def recordsOf (metadata : List RawEntry) : List (Bytes × Bytes) :=
  ((metadata.find? (isHeaderOf .xHeader)).bind fun e => paxRecords platform e.payload).getD []

/-- No metadata is given twice, and every PAX header holds records that are admissible. -/
structure WellDescribed (metadata : List RawEntry) : Prop where
  longNames : metadata.countP (isHeaderOf .gnuLongName) ≤ 1
  headers : metadata.countP (isHeaderOf .xHeader) ≤ 1
  records : ∀ e ∈ metadata, e.entryType = .xHeader → ∃ records,
    Records platform.usizeMax e.payload records ∧ Admissible records

def absorbAll (metadata : List RawEntry) (pending : PendingMetadata) :
    Except HelmError PendingMetadata :=
  metadata.foldlM (fun pending e => absorb platform e.entryType e.payload pending) pending

/-- What is left pending behind these entries. -/
def pendingOf (metadata : List RawEntry) (pending : PendingMetadata) : PendingMetadata :=
  describe (recordsOf platform metadata) {pending with
    longName := pending.longName.or (longNameOf metadata)
    paxSeen := pending.paxSeen || metadata.any (isHeaderOf .xHeader)}

variable {platform} {metadata : List RawEntry} {e : RawEntry}

theorem countP_cons_isHeaderOf (t : EntryType) :
    (e :: metadata).countP (isHeaderOf t) =
      metadata.countP (isHeaderOf t) + if e.entryType = t then 1 else 0 := by
  simp [List.countP_cons, isHeaderOf]

theorem find?_isHeaderOf_of_countP {t : EntryType} (h : metadata.countP (isHeaderOf t) = 0) :
    metadata.find? (isHeaderOf t) = none := by
  rw [List.find?_eq_none]
  exact List.countP_eq_zero.mp h

theorem wellDescribed_cons_iff : WellDescribed platform (e :: metadata) ↔
    WellDescribed platform metadata ∧
    (e.entryType = .gnuLongName → metadata.countP (isHeaderOf .gnuLongName) = 0) ∧
    (e.entryType = .xHeader → metadata.countP (isHeaderOf .xHeader) = 0 ∧
      ∃ records, Records platform.usizeMax e.payload records ∧ Admissible records) := by
  have hl := @countP_cons_isHeaderOf metadata e .gnuLongName
  have hx := @countP_cons_isHeaderOf metadata e .xHeader
  constructor
  · intro ⟨longNames, headers, records⟩
    refine ⟨⟨by omega, by omega, fun d hd => records d (List.mem_cons_of_mem e hd)⟩, ?_, ?_⟩
    · intro he
      rw [if_pos he] at hl
      omega
    · intro he
      rw [if_pos he] at hx
      exact ⟨by omega, records e List.mem_cons_self he⟩
  · intro ⟨⟨longNames, headers, records⟩, hlong, hheader⟩
    refine ⟨?_, ?_, ?_⟩
    · split at hl
      · rename_i he
        have := hlong he
        omega
      · omega
    · split at hx
      · rename_i he
        have := (hheader he).1
        omega
      · omega
    · intro d hd he
      rcases List.mem_cons.mp hd with rfl | hd
      · exact (hheader he).2
      · exact records d hd he

theorem longNameOf_cons : longNameOf (e :: metadata) =
    if e.entryType = .gnuLongName then some e.payload else longNameOf metadata := by
  by_cases he : e.entryType = .gnuLongName <;> simp [longNameOf, isHeaderOf, he]

theorem recordsOf_cons : recordsOf platform (e :: metadata) =
    if e.entryType = .xHeader then (paxRecords platform e.payload).getD []
    else recordsOf platform metadata := by
  by_cases he : e.entryType = .xHeader <;> simp [recordsOf, isHeaderOf, he]

theorem recordsOf_of_countP (h : metadata.countP (isHeaderOf .xHeader) = 0) :
    recordsOf platform metadata = [] := by
  rw [recordsOf, find?_isHeaderOf_of_countP h]
  rfl

/-- An entry that is neither a long name nor a PAX header leaves nothing. -/
theorem absorb_other {t : EntryType} {payload : Bytes} {pending : PendingMetadata}
    (hl : t ≠ .gnuLongName) (hx : t ≠ .xHeader) : absorb platform t payload pending = .ok pending := by
  unfold absorb
  split
  · exact (hl rfl).elim
  · exact (hx rfl).elim
  · rfl

theorem absorbAll_eq_ok_iff {pending pending' : PendingMetadata} :
    absorbAll platform metadata pending = .ok pending' ↔
      WellDescribed platform metadata ∧
      (pending.longName.isSome = true → metadata.countP (isHeaderOf .gnuLongName) = 0) ∧
      (pending.paxSeen = true → metadata.countP (isHeaderOf .xHeader) = 0) ∧
      pending' = pendingOf platform metadata pending := by
  induction metadata generalizing pending with
  | nil =>
      have hw : WellDescribed platform [] := ⟨by simp, by simp, by simp⟩
      have hp : pendingOf platform [] pending = pending := by
        simp [pendingOf, describe, recordsOf, longNameOf, pathRecord, sizeRecord]
      simp only [absorbAll, List.foldlM_nil, hw, hp, List.countP_nil, implies_true, true_and]
      constructor
      · exact fun h => (Except.ok.inj h).symm
      · exact fun h => congrArg Except.ok h.symm
  | cons e metadata ih =>
      have hcons : absorbAll platform (e :: metadata) pending =
          (absorb platform e.entryType e.payload pending).bind (absorbAll platform metadata) := rfl
      rw [hcons, wellDescribed_cons_iff, countP_cons_isHeaderOf, countP_cons_isHeaderOf]
      by_cases hl : e.entryType = .gnuLongName
      · simp only [hl, absorb, reduceCtorEq, if_true, if_false, false_implies, true_implies]
        cases hp : pending.longName with
        | some name => simp [Except.bind]
        | none =>
            simp only [Option.isSome_none, Bool.false_eq_true, if_false, Except.bind, ih,
              Option.isSome_some, true_implies, false_implies]
            have hd : metadata.countP (isHeaderOf .gnuLongName) = 0 →
                pendingOf platform metadata {pending with longName := some e.payload} =
                  pendingOf platform (e :: metadata) pending := by
              intro _
              have ht : (EntryType.gnuLongName == EntryType.xHeader) = false := by decide
              simp [pendingOf, longNameOf_cons, recordsOf_cons, hl, hp, ht, describe, isHeaderOf]
            constructor
            · rintro ⟨hw, hlong, hx, hpend⟩
              exact ⟨⟨hw, hlong, trivial⟩, trivial, hx, by rw [hpend, hd hlong]⟩
            · rintro ⟨⟨hw, hlong, _⟩, _, hx, hpend⟩
              exact ⟨hw, hlong, hx, by rw [hpend, hd hlong]⟩
      · by_cases hx : e.entryType = .xHeader
        · simp only [hx, absorb, reduceCtorEq, if_true, if_false, false_implies, true_implies,
            Nat.add_zero, true_and]
          have hd : ∀ records, paxRecords platform e.payload = some records →
              metadata.countP (isHeaderOf .xHeader) = 0 →
              pendingOf platform metadata (describe records {pending with paxSeen := true}) =
                pendingOf platform (e :: metadata) pending := by
            intro records hr hz
            simp [pendingOf, longNameOf_cons, recordsOf_cons, hx, hr, describe, isHeaderOf,
              recordsOf_of_countP hz, pathRecord, sizeRecord]
          cases hp : pending.paxSeen with
          | true => simp [Except.bind]
          | false =>
              simp only [Bool.false_eq_true, if_false, false_implies, true_and]
              constructor
              · intro h
                obtain ⟨next, happ, h⟩ := bind_eq_ok h
                obtain ⟨records, hr, hadm, rfl⟩ := applyPaxRecords_eq_ok_iff.mp happ
                obtain ⟨hw, hlong, hzero, hpend⟩ := ih.mp h
                have hz := hzero rfl
                exact ⟨⟨hw, hz, records, paxRecords_eq_some_iff.mp hr, hadm⟩, hlong,
                  by rw [hpend, hd records hr hz]⟩
              · rintro ⟨⟨hw, hz, records, hr, hadm⟩, hlong, hpend⟩
                have hr := paxRecords_eq_some_iff.mpr hr
                have happ := applyPaxRecords_eq_ok_iff.mpr
                  ⟨records, hr, hadm, @rfl _ (describe records {pending with paxSeen := true})⟩
                rw [happ]
                exact ih.mpr ⟨hw, hlong, fun _ => hz, by rw [hpend, hd records hr hz]⟩
        · rw [absorb_other hl hx]
          simp only [Except.bind, ih, hl, hx, if_false, false_implies, Nat.add_zero, and_true]
          have hd : pendingOf platform metadata pending =
              pendingOf platform (e :: metadata) pending := by
            have ht : (e.entryType == EntryType.xHeader) = false := beq_eq_false_iff_ne.mpr hx
            simp [pendingOf, longNameOf_cons, recordsOf_cons, hl, hx, ht, describe, isHeaderOf]
          rw [hd]

end Groups

end Helmoci.ArchiveMeaning
