import Helmoci.AcceptedArchives

/-!
# Members that are charged what they deliver

The budget is counted in charges and the decompressor delivers payloads. Metadata is
charged the size in its own header, which bounds its payload; a member is charged the
size in the record in front of it, which bounds nothing. Where the record gives no
member that the loop gets to less than the member delivers, the budget is kept on
every path, also on those that end in an error.
-/
namespace Helmoci.ChargedMembers
open RustText Utf8 ServerErrors TarUnpacking ExpansionBudget PaxRecords TarPacking ArchiveMeaning
open AcceptedArchives

section
variable (platform : Platform) (limits : ArchiveLimits)

/-- An entry of this declared size is read to its end. -/
structure ReadWhole (size : ℕ) (e : RawEntry) : Prop where
  opens : opens platform size = true
  readError : e.readError = none
  payload : e.payload.length = size

/-- Metadata that the loop takes in. -/
structure TakenIn (metadata : List RawEntry) : Prop where
  described : WellDescribed platform metadata
  read : ∀ e ∈ metadata, ReadWhole platform e.size e

/-- A group that the loop gets past. -/
structure Passed (g : Group) : Prop where
  metadata : TakenIn platform g.metadata
  notSparse : g.member.entryType ≠ .gnuSparse
  named : g.member.entryType = .regular →
    (groupPath platform g).isSome = true ∨ ∃ path, g.member.path = .ok path
  read : g.member.entryType = .regular → ReadWhole platform (memberSize platform g) g.member

/-- The loop gets to the member of `g`: it gets past the groups in front of it, and what
they and the group itself are charged keeps the limits. -/
structure Reached (earlier : List Group) (g : Group) : Prop where
  passed : ∀ group ∈ earlier, Passed platform group
  grown : ∀ n < (earlier.flatMap (groupFiles platform)).length, platform.growsTo (n + 1) = true
  metadata : TakenIn platform g.metadata
  notSparse : g.member.entryType ≠ .gnuSparse
  charges : Fits limits {} ((earlier ++ [g]).flatMap (groupCharges platform))

/-- No member that the loop gets to is charged less than its own header delivers. -/
def FullyCharged (items : List Item) : Prop :=
  ∀ (earlier : List Group) (g : Group) (behind : List Item),
    items = (earlier.flatMap Group.entries ++ g.entries).map .ok ++ behind →
      Reached platform limits earlier g → g.member.payload.length ≤ memberSize platform g

/-- Where the loop stands behind these groups and this metadata. -/
structure Behind (earlier : List Group) (metadata : List RawEntry) (st : LoopState) : Prop where
  passed : ∀ group ∈ earlier, Passed platform group
  grown : ∀ n < (earlier.flatMap (groupFiles platform)).length, platform.growsTo (n + 1) = true
  describes : ∀ e ∈ metadata, isMetadataEntry e.entryType = true
  read : ∀ e ∈ metadata, ReadWhole platform e.size e
  absorbed : absorbAll platform metadata {} = .ok st.pending
  charges : Fits limits {} (earlier.flatMap (groupCharges platform) ++ metadata.map RawEntry.size)
  state : st = spendAll {} (earlier.flatMap (groupCharges platform) ++ metadata.map RawEntry.size)
    st.pending (earlier.flatMap (groupFiles platform))

variable {platform limits}

theorem readWhole_of_read {e : RawEntry} {size : ℕ} {what : Str} {m : Meter} {data : Bytes}
    (h : (readEntryPayload platform e size what m).1 = .ok data) : ReadWhole platform size e := by
  unfold readEntryPayload at h
  split at h
  · cases h
  · rename_i husize
    split at h
    · cases h
    · rename_i hreserves
      cases hr : e.readError with
      | some err =>
          simp only [hr] at h
          cases h
      | none =>
          simp only [hr] at h
          split at h
          · cases h
          · rename_i hl
            refine ⟨?_, hr, not_not.mp hl⟩
            simp only [Bool.not_eq_true', Bool.not_eq_false] at hreserves
            simp only [opens, hreserves, Bool.and_true, decide_eq_true_eq]
            omega

/-- What the loop has read of an entry that it gets past. -/
theorem read_of_nextState {st st' : LoopState} {e : RawEntry}
    (h : nextState platform limits st e = .ok st') :
    (isMetadataEntry e.entryType = true → ReadWhole platform e.size e) ∧
    (isMetadataEntry e.entryType = false → e.entryType = .regular →
      platform.growsTo (st.files.length + 1) = true ∧
      (∃ name, memberName st.pending e = .ok name) ∧
      ReadWhole platform (entrySize st.pending e) e) := by
  unfold nextState unpackEntry at h
  split at h
  · cases h
  · rename_i size st₁ hcharge
    obtain ⟨rfl, -, -, -, -, rfl⟩ := charge_eq_ok hcharge
    refine ⟨?_, ?_⟩
    · intro hmeta
      rw [if_pos hmeta] at h
      have hsize : entrySize st.pending e = e.size := if_pos hmeta
      rw [hsize] at h
      cases hread : readEntryPayload platform e e.size (str "tar extension entry") {} with
      | mk r m =>
          rw [hread] at h
          cases r with
          | error err => cases h
          | ok payload => exact readWhole_of_read (congrArg Prod.fst hread)
    · intro hmember hreg
      rw [if_neg (by simp [hmember])] at h
      unfold unpackMember at h
      rw [if_neg (by simp [hreg])] at h
      split at h
      · cases h
      · rename_i hgrows
        split at h
        · cases h
        · rename_i name hname
          cases hread : readEntryPayload platform e (entrySize st.pending e)
              (str "regular file") {} with
          | mk r m =>
              rw [hread] at h
              cases r with
              | error err => cases h
              | ok data =>
                  refine ⟨by simpa [spend] using hgrows, ⟨name, hname⟩,
                    readWhole_of_read (congrArg Prod.fst hread)⟩

theorem absorbAll_concat (metadata : List RawEntry) (e : RawEntry) (pending : PendingMetadata) :
    absorbAll platform (metadata ++ [e]) pending =
      (absorbAll platform metadata pending).bind (absorb platform e.entryType e.payload) := by
  have hone : ∀ pending, absorbAll platform [e] pending =
      absorb platform e.entryType e.payload pending := by
    intro pending
    unfold absorbAll
    rw [List.foldlM_cons]
    cases absorb platform e.entryType e.payload pending <;> rfl
  have happend : absorbAll platform (metadata ++ [e]) pending =
      (absorbAll platform metadata pending).bind (absorbAll platform [e]) :=
    List.foldlM_append
  rw [happend]
  congr 1
  funext pending
  exact hone pending

/-- Metadata takes the loop on inside the group. -/
theorem Behind.metadata {earlier : List Group} {metadata : List RawEntry} {st st' : LoopState}
    {e : RawEntry} (hb : Behind platform limits earlier metadata st)
    (hm : isMetadataEntry e.entryType = true) (h : nextState platform limits st e = .ok st') :
    Behind platform limits earlier (metadata ++ [e]) st' := by
  obtain ⟨hfit, pending, habsorb, rfl⟩ := (turn_metadata_iff hm).mp (turn_of_nextState h)
  have hmap : (metadata ++ [e]).map RawEntry.size = metadata.map RawEntry.size ++ [e.size] := by
    simp
  refine ⟨hb.passed, hb.grown, ?_, ?_, ?_, ?_, ?_⟩
  · exact List.forall_mem_append.mpr ⟨hb.describes, List.forall_mem_singleton.mpr hm⟩
  · exact List.forall_mem_append.mpr
      ⟨hb.read, List.forall_mem_singleton.mpr ((read_of_nextState h).1 hm)⟩
  · rw [absorbAll_concat, hb.absorbed]
    exact habsorb
  · rw [hmap, ← List.append_assoc]
    rw [hb.state] at hfit
    exact (fits_append_iff st.pending (earlier.flatMap (groupFiles platform))).mpr
      ⟨hb.charges, hfit⟩
  · rw [hmap, ← List.append_assoc, spend_eq_spendAll]
    conv_lhs => rw [hb.state]
    rw [spendAll_spendAll, List.append_nil]
    rfl

section Member
variable {earlier : List Group} {st st' : LoopState} {g : Group}

theorem Behind.pending (hb : Behind platform limits earlier g.metadata st) :
    WellDescribed platform g.metadata ∧ st.pending = pendingOf platform g.metadata {} :=
  absorbAll_empty_iff.mp hb.absorbed

theorem Behind.entrySize_eq (hb : Behind platform limits earlier g.metadata st) :
    entrySize st.pending g.member = memberSize platform g := by
  rw [hb.pending.2, entrySize_pendingOf]

theorem flatMap_concat_groupCharges (earlier : List Group) (g : Group) :
    (earlier ++ [g]).flatMap (groupCharges platform) =
      earlier.flatMap (groupCharges platform) ++ g.metadata.map RawEntry.size ++
        [memberSize platform g] := by
  simp [groupCharges]

/-- The loop has got to a member that passes the checks. -/
theorem Behind.reached {size : ℕ} (hb : Behind platform limits earlier g.metadata st)
    (h : charge platform limits st g.member = .ok (size, st')) :
    Reached platform limits earlier g := by
  obtain ⟨rfl, hcount, hsize, htotal, hsparse, -⟩ := charge_eq_ok h
  rw [hb.entrySize_eq] at hsize htotal
  refine ⟨hb.passed, hb.grown, ⟨hb.pending.1, hb.read⟩, hsparse, ?_⟩
  rw [flatMap_concat_groupCharges]
  refine (fits_append_iff st.pending (earlier.flatMap (groupFiles platform))).mpr ⟨hb.charges, ?_⟩
  rw [← hb.state]
  exact ⟨hcount, List.forall_mem_singleton.mpr hsize, by simpa using htotal⟩

/-- A member takes the loop on to the next group. -/
theorem Behind.member (hb : Behind platform limits earlier g.metadata st)
    (h : nextState platform limits st g.member = .ok st') :
    Behind platform limits (earlier ++ [g]) [] st' := by
  have hturn := turn_of_nextState h
  obtain ⟨-, hst'⟩ := hturn.member g.isMember
  have hread := (read_of_nextState h).2 g.isMember
  rw [hb.entrySize_eq] at hst' hread
  rw [hb.pending.2, fileOf_pendingOf] at hst'
  have hfiles : st.files = earlier.flatMap (groupFiles platform) := by rw [hb.state]; rfl
  have hfiles' : (earlier ++ [g]).flatMap (groupFiles platform) =
      earlier.flatMap (groupFiles platform) ++ groupFiles platform g := by simp
  refine ⟨?_, ?_, by simp, by simp, ?_, ?_, ?_⟩
  · refine List.forall_mem_append.mpr ⟨hb.passed, List.forall_mem_singleton.mpr
      ⟨⟨hb.pending.1, hb.read⟩, hturn.notSparse, ?_, fun hreg => (hread hreg).2.2⟩⟩
    intro hreg
    obtain ⟨name, hname⟩ := (hread hreg).2.1
    rw [hb.pending.2] at hname
    unfold memberName at hname
    rw [pathOverride_pendingOf] at hname
    cases hp : groupPath platform g with
    | some path => exact Or.inl rfl
    | none =>
        rw [hp] at hname
        cases hpath : g.member.path with
        | ok path => exact Or.inr ⟨path, rfl⟩
        | error e =>
            simp only [hpath] at hname
            cases hname
  · intro n hn
    rw [hfiles', List.length_append] at hn
    by_cases hlt : n < (earlier.flatMap (groupFiles platform)).length
    · exact hb.grown n hlt
    · by_cases hreg : g.member.entryType = .regular
      · have hone : (groupFiles platform g).length = 1 := by simp [groupFiles, hreg]
        have hgrows := (hread hreg).1
        rw [hfiles] at hgrows
        obtain rfl : n = (earlier.flatMap (groupFiles platform)).length := by omega
        exact hgrows
      · have hzero : (groupFiles platform g).length = 0 := by simp [groupFiles, hreg]
        omega
  · rw [hst']
    rfl
  · have hcount := hturn.count
    have hsize := hturn.size
    have htotal := hturn.total
    rw [hb.entrySize_eq] at hsize htotal
    rw [flatMap_concat_groupCharges, List.map_nil, List.append_nil]
    refine (fits_append_iff st.pending (earlier.flatMap (groupFiles platform))).mpr
      ⟨hb.charges, ?_⟩
    rw [← hb.state]
    exact ⟨hcount, List.forall_mem_singleton.mpr hsize, by simpa using htotal⟩
  · rw [flatMap_concat_groupCharges, List.map_nil, List.append_nil, hfiles', hst',
      spend_eq_spendAll]
    conv_lhs => rw [hb.state]
    rw [spendAll_spendAll]
    rfl

end Member

/-- An entry that is charged at least its payload keeps the budget. -/
theorem within_record {st st' : LoopState} {e : RawEntry} {size : ℕ} {m : Meter} {use : Use}
    (hm : Within limits m) (hle : m.taken ≤ st.expandedBytes)
    (h : charge platform limits st e = .ok (size, st')) (hp : e.payload.length ≤ size) :
    Within limits (use.record e.payload.length m) ∧
      (use.record e.payload.length m).taken ≤ st.expandedBytes + size := by
  obtain ⟨-, hsize, hexp, hmax, -, -⟩ := charge_spec h
  have hamount := use.amount_le e.payload.length
  rw [Use.within_record_iff, Use.record_taken]
  exact ⟨⟨fun _ => by omega, hm.1, by omega⟩, by omega⟩

theorem expandedBytes_of_nextState {st st' : LoopState} {e : RawEntry}
    (h : nextState platform limits st e = .ok st') :
    st'.expandedBytes = st.expandedBytes + entrySize st.pending e := by
  have hturn := turn_of_nextState h
  cases hmeta : isMetadataEntry e.entryType with
  | true =>
      obtain ⟨pending, -, rfl⟩ := hturn.metadata hmeta
      rfl
  | false =>
      rw [(hturn.member hmeta).2]
      rfl

/-- From where the loop stands, the charges bound what it takes. -/
theorem within_of_behind {items behind : List Item} {earlier : List Group}
    {metadata : List RawEntry} {st : LoopState} {m : Meter}
    (hcharged : FullyCharged platform limits items)
    (hitems : items = (earlier.flatMap Group.entries ++ metadata).map .ok ++ behind)
    (hb : Behind platform limits earlier metadata st) (hm : Within limits m)
    (hle : m.taken ≤ st.expandedBytes) :
    Within limits (unpackEntries platform limits behind st m).2 := by
  induction behind generalizing earlier metadata st m with
  | nil =>
      unfold unpackEntries
      split <;> exact hm
  | cons item behind ih =>
      cases item with
      | error e => exact hm
      | ok e =>
          rw [unpackEntries_cons]
          cases hc : charge platform limits st e with
          | error err => exact hm
          | ok p =>
              obtain ⟨size, st₁⟩ := p
              have hsize := (charge_spec hc).1
              cases hmeta : isMetadataEntry e.entryType with
              | true =>
                  have hp : e.payload.length ≤ size := by
                    rw [hsize, entrySize, if_pos hmeta]
                    exact e.payload_le
                  obtain ⟨hw, ht⟩ :=
                    @within_record _ _ _ _ _ _ _ (useOf platform st size e) hm hle hc hp
                  dsimp only
                  cases hn : nextState platform limits st e with
                  | error err => exact hw
                  | ok st' =>
                      refine ih ?_ (hb.metadata hmeta hn) hw ?_
                      · rw [hitems]
                        simp
                      · rw [expandedBytes_of_nextState hn, ← hsize]
                        exact ht
              | false =>
                  obtain ⟨g, rfl, rfl⟩ : ∃ g : Group, g.metadata = metadata ∧ g.member = e :=
                    ⟨⟨metadata, e, hb.describes, hmeta⟩, rfl, rfl⟩
                  have hitems' : items =
                      (earlier.flatMap Group.entries ++ g.entries).map .ok ++ behind := by
                    rw [hitems]
                    simp [Group.entries]
                  have hp : g.member.payload.length ≤ size := by
                    rw [hsize, hb.entrySize_eq]
                    exact hcharged earlier g behind hitems' (hb.reached hc)
                  obtain ⟨hw, ht⟩ :=
                    @within_record _ _ _ _ _ _ _ (useOf platform st size g.member) hm hle hc hp
                  dsimp only
                  cases hn : nextState platform limits st g.member with
                  | error err => exact hw
                  | ok st' =>
                      refine ih ?_ (hb.member hn) hw ?_
                      · rw [hitems']
                        simp
                      · rw [expandedBytes_of_nextState hn, ← hsize]
                        exact ht

theorem behind_start : Behind platform limits [] [] {} :=
  ⟨by simp, by simp, by simp, by simp, rfl, ⟨by simp, by simp, by simp⟩, rfl⟩

theorem grouping_group (g : Group) (rest : List RawEntry) :
    (grouping (g.entries ++ rest)).groups = g :: (grouping rest).groups := by
  obtain ⟨metadata, member, describes, isMember⟩ := g
  unfold Group.entries
  induction metadata with
  | nil =>
      change (grouping (member :: rest)).groups = _
      rw [grouping, dif_neg (by simp [isMember])]
  | cons e metadata ih =>
      have he := describes e List.mem_cons_self
      have ih := ih fun d hd => describes d (List.mem_cons_of_mem e hd)
      change (grouping (e :: (metadata ++ [member] ++ rest))).groups = _
      rw [grouping, dif_pos he]
      cases h : grouping (metadata ++ [member] ++ rest) with
      | mk groups trailing ht =>
          rw [h] at ih
          change groups = _ at ih
          subst ih
          rfl

theorem grouping_groups (groups : List Group) (rest : List RawEntry) :
    (grouping (groups.flatMap Group.entries ++ rest)).groups = groups ++ (grouping rest).groups := by
  induction groups with
  | nil => rfl
  | cons g groups ih =>
      rw [List.flatMap_cons, List.append_assoc, grouping_group, ih]
      rfl

/-- It is enough that no member of the archive is charged less. -/
theorem fullyCharged_of_groups {entries : List RawEntry}
    (h : ∀ g ∈ (grouping entries).groups, g.member.payload.length ≤ memberSize platform g) :
    FullyCharged platform limits (entries.map .ok) := by
  intro earlier g behind hitems _
  obtain ⟨front, rest, rfl, hfront, -⟩ := List.map_eq_append_iff.mp hitems
  have hinj : Function.Injective (Except.ok : RawEntry → Item) := fun _ _ => Except.ok.inj
  obtain rfl := List.map_injective_iff.mpr hinj hfront
  apply h
  rw [List.append_assoc, grouping_groups, grouping_group]
  exact List.mem_append_right _ List.mem_cons_self

/-- The expansion budget of the whole run, on every path through it. -/
theorem unpackTgz_within {reader : TarReader} {tgz : Bytes}
    (h : ∀ items, reader tgz = .ok items → FullyCharged platform limits items) :
    Within limits (unpackTgzWithLimits platform limits reader tgz).2 := by
  have h₀ : Within limits {} := ⟨by simp, Nat.zero_le _⟩
  unfold unpackTgzWithLimits
  cases hr : reader tgz with
  | error e => exact h₀
  | ok items => exact within_of_behind (h items hr) rfl behind_start h₀ le_rfl

end

/-- The charges use up these limits to the last byte. -/
theorem describedEntries_within :
    (∀ items, (Except.ok (describedEntries.map .ok) : Except Str (List Item)) = .ok items →
      FullyCharged roomyPlatform ⟨38, 19, 6⟩ items) ∧
    Within ⟨38, 19, 6⟩ (unpackTgzWithLimits roomyPlatform ⟨38, 19, 6⟩
      (fun _ => .ok (describedEntries.map .ok)) []).2 := by
  have hcharged : ∀ items, (Except.ok (describedEntries.map .ok) : Except Str (List Item)) =
      .ok items → FullyCharged roomyPlatform ⟨38, 19, 6⟩ items := by
    intro items h
    cases h
    exact fullyCharged_of_groups (by decide)
  exact ⟨hcharged, @unpackTgz_within roomyPlatform ⟨38, 19, 6⟩
    (fun _ => .ok (describedEntries.map .ok)) [] hcharged⟩

/-- A size record of zero in front of a file of twenty bytes. -/
def understated : List Item :=
  [.ok ⟨.xHeader, 9, .ok (str "PaxHeaders.0/demo"), some 0o644, some 0, bytes "9 size=0\n", none,
      by decide⟩,
    .ok ⟨.regular, 20, .ok (str "demo/values.yaml"), some 0o644, some 0, List.replicate 20 97, none,
      by decide⟩]

/-- The file is read whole before its length is compared with the record. -/
theorem understated_breaks_budget :
    unpackTgzWithLimits ⟨u64Max, fun _ => true, fun _ => true⟩ ⟨9, 9, 8⟩ (fun _ => .ok understated)
        [] = (.error (invalid (str "regular file size differs from header (20 != 0 bytes)")),
          ⟨29, [20, 9]⟩) ∧
      ¬ Within ⟨9, 9, 8⟩ (unpackTgzWithLimits ⟨u64Max, fun _ => true, fun _ => true⟩ ⟨9, 9, 8⟩
        (fun _ => .ok understated) []).2 := by
  have h : unpackTgzWithLimits ⟨u64Max, fun _ => true, fun _ => true⟩ ⟨9, 9, 8⟩
      (fun _ => .ok understated) [] =
        (.error (invalid (str "regular file size differs from header (20 != 0 bytes)")),
          ⟨29, [20, 9]⟩) := by decide
  refine ⟨h, ?_⟩
  rw [h]
  intro hw
  exact absurd hw.2 (by decide)

end Helmoci.ChargedMembers
