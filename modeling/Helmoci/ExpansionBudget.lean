import Helmoci.TarUnpacking

/-!
# What the archive loop takes

The loop checks an entry against the size that it charges for it, and the
decompressor delivers the payload. What one turn adds to the meter is the payload of
the entry, as far as the loop uses it at all.
-/
namespace Helmoci.ExpansionBudget
open RustText ServerErrors TarUnpacking

/-- What the claim of a budget is about: every filled buffer and the total taken. -/
def Within (limits : ArchiveLimits) (m : Meter) : Prop :=
  (∀ n ∈ m.buffers, n ≤ limits.maxFileBytes) ∧ m.taken ≤ limits.maxExpandedBytes

/-- How an admitted entry's payload is used. -/
inductive Use where
  | untouched
  | skipped
  | filled
deriving DecidableEq, Repr

def Use.record (use : Use) (n : ℕ) (m : Meter) : Meter :=
  match use with
  | .untouched => m
  | .skipped => m.skip n
  | .filled => m.fill n

def Use.amount (use : Use) (n : ℕ) : ℕ := if use = .untouched then 0 else n

theorem Use.record_taken (use : Use) (n : ℕ) (m : Meter) :
    (use.record n m).taken = m.taken + use.amount n := by
  cases use <;> rfl

theorem Use.amount_le (use : Use) (n : ℕ) : use.amount n ≤ n := by
  unfold Use.amount
  split <;> omega

/-- Recording a payload keeps the budget exactly when the payload fits it. -/
theorem Use.within_record_iff {limits : ArchiveLimits} (use : Use) (n : ℕ) (m : Meter) :
    Within limits (use.record n m) ↔
      (use = .filled → n ≤ limits.maxFileBytes) ∧
        (∀ n ∈ m.buffers, n ≤ limits.maxFileBytes) ∧
        m.taken + use.amount n ≤ limits.maxExpandedBytes := by
  cases use <;> simp [Use.record, Use.amount, Within, Meter.skip, Meter.fill, and_assoc]

section
variable (platform : Platform) (limits : ArchiveLimits)

def useOf (st : LoopState) (size : ℕ) (entry : RawEntry) : Use :=
  if isMetadataEntry entry.entryType then if opens platform size then .filled else .untouched
  else if entry.entryType ≠ .regular then .skipped
  else if platform.growsTo (st.files.length + 1) && (memberName st.pending entry).isOk &&
      opens platform size then .filled
  else .untouched

variable {platform limits}

theorem charge_spec {st st' : LoopState} {entry : RawEntry} {size : ℕ}
    (h : charge platform limits st entry = .ok (size, st')) :
    size = entrySize st.pending entry ∧ size ≤ limits.maxFileBytes ∧
      st'.expandedBytes = st.expandedBytes + size ∧
      st'.expandedBytes ≤ limits.maxExpandedBytes ∧
      st'.files = st.files ∧ st'.pending = st.pending := by
  unfold charge at h
  dsimp only at h
  split at h
  · contradiction
  · split at h
    · contradiction
    · split at h
      · split at h <;> contradiction
      · rename_i hsize
        split at h
        · contradiction
        · split at h
          · contradiction
          · rename_i hexp
            split at h
            · contradiction
            · simp only [Except.ok.injEq, Prod.mk.injEq] at h
              obtain ⟨rfl, rfl⟩ := h
              exact ⟨rfl, by omega, rfl, by simpa using hexp, rfl, rfl⟩

theorem readEntryPayload_meter (entry : RawEntry) (size : ℕ) (what : Str) (m : Meter) :
    (readEntryPayload platform entry size what m).2 =
      (if opens platform size then Use.filled else .untouched).record entry.payload.length m := by
  unfold readEntryPayload opens
  split
  · rename_i h
    rw [if_neg (by simp; omega)]
    rfl
  · rename_i h
    split
    · rename_i hr
      rw [if_neg (by simp at hr; simp [hr])]
      rfl
    · rename_i hr
      rw [if_pos (by simp at hr; simp [hr]; omega)]
      split
      · rfl
      · dsimp only
        split <;> rfl

/-- An entry that passes the checks is recorded as its use says. -/
theorem unpackEntry_meter {st st' : LoopState} {entry : RawEntry} {size : ℕ} {m : Meter}
    (h : charge platform limits st entry = .ok (size, st')) :
    (unpackEntry platform limits st entry m).2 =
      (useOf platform st size entry).record entry.payload.length m := by
  obtain ⟨-, -, -, -, hf, hp⟩ := charge_spec h
  unfold unpackEntry useOf
  simp only [h]
  by_cases hmeta : isMetadataEntry entry.entryType = true
  · have hread := @readEntryPayload_meter platform entry size
      (str "tar extension entry") m
    simp only [hmeta, if_true]
    rw [← hread]
    split <;> rename_i he <;> rw [he]
  · simp only [hmeta, Bool.false_eq_true, if_false]
    unfold unpackMember
    rw [hp, hf]
    by_cases hreg : entry.entryType = .regular
    · simp only [hreg, ne_eq, not_true_eq_false, if_false]
      cases hg : platform.growsTo (st.files.length + 1) with
      | false => rfl
      | true =>
          cases hn : memberName st.pending entry with
          | error e => rfl
          | ok name =>
              have hread := @readEntryPayload_meter platform entry size
                (str "regular file") m
              simp only [Bool.not_true, Bool.false_eq_true, if_false, Except.isOk, Except.toBool,
                Bool.and_true, Bool.true_and]
              rw [← hread]
              split <;> rename_i he <;> rw [he]
    · simp only [ne_eq, hreg, not_false_eq_true, if_true]
      rfl

theorem readEntryPayload_fst (entry : RawEntry) (size : ℕ) (what : Str) (m m' : Meter) :
    (readEntryPayload platform entry size what m).1 =
      (readEntryPayload platform entry size what m').1 := by
  unfold readEntryPayload
  split
  · rfl
  · split
    · rfl
    · cases entry.readError with
      | some e => rfl
      | none =>
          dsimp only
          split <;> rfl

/-- The meter decides nothing. -/
theorem unpackEntry_fst (st : LoopState) (entry : RawEntry) (m m' : Meter) :
    (unpackEntry platform limits st entry m).1 = (unpackEntry platform limits st entry m').1 := by
  have read : ∀ size what, ∃ r k k', readEntryPayload platform entry size what m = (r, k) ∧
      readEntryPayload platform entry size what m' = (r, k') := by
    intro size what
    have hf := @readEntryPayload_fst platform entry size what m m'
    cases h : readEntryPayload platform entry size what m with
    | mk r k =>
        cases h' : readEntryPayload platform entry size what m' with
        | mk r' k' =>
            rw [h, h'] at hf
            obtain rfl : r = r' := hf
            exact ⟨r, k, k', rfl, rfl⟩
  unfold unpackEntry
  split
  · rfl
  · rename_i size st' _
    split
    · obtain ⟨r, k, k', hr, hr'⟩ := read size (str "tar extension entry")
      rw [hr, hr']
      cases r <;> rfl
    · unfold unpackMember
      split
      · rfl
      · split
        · rfl
        · split
          · rfl
          · obtain ⟨r, k, k', hr, hr'⟩ := read size (str "regular file")
            rw [hr, hr']
            cases r <;> rfl

variable (platform limits)

def nextState (st : LoopState) (entry : RawEntry) : Except HelmError LoopState :=
  (unpackEntry platform limits st entry {}).1

variable {platform limits}

/-- The loop up to an entry's admission. -/
theorem unpackEntries_cons (st : LoopState) (entry : RawEntry) (items : List Item) (m : Meter) :
    (unpackEntries platform limits (.ok entry :: items) st m).2 =
      match charge platform limits st entry with
      | .error _ => m
      | .ok (size, _) =>
        let m := (useOf platform st size entry).record entry.payload.length m
        match nextState platform limits st entry with
        | .error _ => m
        | .ok st => (unpackEntries platform limits items st m).2 := by
  rw [unpackEntries]
  cases hc : charge platform limits st entry with
  | error e => simp [unpackEntry, hc]
  | ok p =>
      obtain ⟨size, st'⟩ := p
      have hm := unpackEntry_meter (m := m) hc
      have hf : (unpackEntry platform limits st entry m).1 = nextState platform limits st entry :=
        unpackEntry_fst st entry m {}
      dsimp only
      rw [← hm, ← hf]
      split <;> rename_i he <;> simp [he]

end

end Helmoci.ExpansionBudget
