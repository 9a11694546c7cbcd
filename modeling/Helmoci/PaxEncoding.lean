import Helmoci.PaxRecords
import Helmoci.Slices
import Helmoci.TagPages

/-!
# Reading PAX records by position and writing them

The source cuts a payload at positions that the payload itself names. Every cut is in range
and the loop ends, whatever the bytes are. A record counts its own length, the digits of the
length included, and the reader takes the writer's records apart again.
-/
namespace Helmoci.PaxEncoding
open RustText Utf8 ServerErrors JsonDocuments TagPages TarUnpacking PaxRecords Slices

section Positions
variable (platform : Platform)

/-- One record by position, none where a slice would be out of range. -/
def nextRecord (rest : Bytes) : Option (Except HelmError (Bytes × Bytes × Bytes)) :=
  match rest.findIdx? (· == 32) with
  | none => some (.error (invalid (str "malformed PAX record: no length separator")))
  | some space => do
    let digits ← slice rest 0 space
    match (parseUnsigned platform.usizeMax digits).filter
        fun length => space + 1 < length && length ≤ rest.length with
    | none => return .error (invalid (str "malformed PAX record: invalid length"))
    | some length =>
      let record ← slice rest (space + 1) length
      match record.dropSuffix? [10] with
      | none => return .error (invalid (str "malformed PAX record: no terminator"))
      | some record =>
        match record.findIdx? (· == 61) with
        | none => return .error (invalid (str "malformed PAX record: no key separator"))
        | some equals =>
          let key ← slice record 0 equals
          let value ← slice record (equals + 1) record.length
          let rest ← slice rest length rest.length
          return .ok (key, value, rest)

/-- None is a slice out of range or a loop that goes on. -/
def walkRecords : ℕ → Bytes → PendingMetadata → Option (Except HelmError PendingMetadata)
  | 0, _, _ => none
  | fuel + 1, rest, pending =>
    if rest.isEmpty || rest.all (· == 0) then some (.ok pending)
    else do
      let found ← nextRecord platform rest
      match found with
      | .error e => return .error e
      | .ok (key, value, rest) =>
        match applyPaxRecord key value pending with
        | .error e => return .error e
        | .ok pending => walkRecords fuel rest pending

theorem findIdx?_byte (b : UInt8) (bs : Bytes) :
    bs.findIdx? (· == b) = (splitAtByte b bs).map fun p => p.1.length := by
  induction bs with
  | nil => rfl
  | cons c bs ih =>
      rw [List.findIdx?_cons, splitAtByte]
      by_cases hc : c = b
      · simp [hc]
      · rw [if_neg (by simpa using hc), if_neg hc, ih]
        cases splitAtByte b bs <;> rfl

theorem slices_of_splitAtByte {b : UInt8} {bs x y : Bytes} (h : splitAtByte b bs = some (x, y)) :
    slice bs 0 x.length = some x ∧ slice bs (x.length + 1) bs.length = some y := by
  obtain ⟨rfl, -⟩ := splitAtByte_eq_some_iff.mp h
  constructor
  · rw [slice_zero (by simp), List.take_left]
  · have hcons : x ++ b :: y = (x ++ [b]) ++ y := by simp
    rw [slice_length (by simp), hcons, List.drop_left' (by simp)]

/-- The guard on the length keeps every slice in range. -/
theorem nextRecord_eq (rest : Bytes) : nextRecord platform rest = some (paxRecord platform rest) := by
  unfold nextRecord paxRecord
  rw [findIdx?_byte]
  cases hspace : splitAtByte 32 rest with
  | none => rfl
  | some parts =>
      obtain ⟨digits, behind⟩ := parts
      simp only [Option.map_some, (slices_of_splitAtByte hspace).1, Option.bind_eq_bind,
        Option.bind_some]
      cases hlength : (parseUnsigned platform.usizeMax digits).filter
          (fun length => digits.length + 1 < length && length ≤ rest.length) with
      | none => rfl
      | some length =>
          have hbounds := (Option.filter_eq_some_iff.mp hlength).2
          simp only [Bool.and_eq_true, decide_eq_true_eq] at hbounds
          simp only [slice_eq_take_drop (Nat.le_of_lt hbounds.1) hbounds.2, Option.bind_some]
          cases hrecord : ((rest.take length).drop (digits.length + 1)).dropSuffix? [10] with
          | none => rfl
          | some record =>
              simp only [findIdx?_byte]
              cases hequals : splitAtByte 61 record with
              | none => rfl
              | some parts =>
                  obtain ⟨key, value⟩ := parts
                  simp only [Option.map_some, (slices_of_splitAtByte hequals).1,
                    (slices_of_splitAtByte hequals).2, slice_length hbounds.2, Option.bind_some]
                  rfl

theorem walkRecords_eq {fuel : ℕ} {rest : Bytes} (h : rest.length < fuel)
    (pending : PendingMetadata) :
    walkRecords platform fuel rest pending = some (applyPaxRecords platform rest pending) := by
  induction fuel generalizing rest pending with
  | zero => omega
  | succ fuel ih =>
      have hempty : (rest.isEmpty || rest.all (· == 0)) = rest.all (· == 0) := by
        cases rest <;> rfl
      rw [applyPaxRecords_eq, walkRecords, hempty, nextRecord_eq]
      split
      · rfl
      · cases hrecord : paxRecord platform rest with
        | error e => rfl
        | ok record =>
            obtain ⟨key, value, rest'⟩ := record
            have hlt := paxRecord_length hrecord
            simp only [Option.bind_eq_bind, Option.bind_some]
            cases applyPaxRecord key value pending with
            | error e => rfl
            | ok pending => exact ih (by omega) pending

end Positions

section Encoding

/-- The length of a record with this body, which counts its own digits. -/
def recordLength (body : ℕ) : ℕ → ℕ → Option ℕ
  | 0, _ => none
  | fuel + 1, digits =>
    let length := digits + 1 + body
    let nextDigits := (decimal length).length
    if digits = nextDigits then some length else recordLength body fuel nextDigits

/-- The record of a key and a value, none if the search for its length goes on. -/
def encodeRecord (fuel : ℕ) (key value : Bytes) : Option Bytes :=
  let body := key ++ 61 :: (value ++ [10])
  (recordLength body.length fuel 1).map fun length => asBytes (decimal length) ++ 32 :: body

theorem length_decimal_mono {n k : ℕ} (h : n ≤ k) : (decimal n).length ≤ (decimal k).length := by
  rw [length_decimal_le_iff (length_decimal_pos k)]
  exact Nat.lt_of_le_of_lt h ((length_decimal_le_iff (length_decimal_pos k)).mp (Nat.le_refl _))

/-- So many digits are enough for the length of the record. -/
theorem length_decimal_bound (body : ℕ) :
    (decimal (body + 2 + 1 + body)).length ≤ body + 2 := by
  rw [length_decimal_le_iff (by omega)]
  have hpow : body < 10 ^ body := Nat.lt_pow_self (by decide)
  rw [Nat.pow_add]
  omega

/-- The number of digits only grows, up to where the length has that many. -/
theorem recordLength_isSome {body fuel digits : ℕ}
    (hgrow : digits ≤ (decimal (digits + 1 + body)).length) (hbound : digits ≤ body + 2)
    (hfuel : body + 2 < digits + fuel) : ∃ length, recordLength body fuel digits = some length ∧
      length = (decimal length).length + 1 + body := by
  induction fuel generalizing digits with
  | zero => omega
  | succ fuel ih =>
      unfold recordLength
      dsimp only
      split
      · rename_i heq
        exact ⟨_, rfl, by rw [← heq]⟩
      · rename_i hne
        have hnext := Nat.lt_of_le_of_ne hgrow hne
        have hle := length_decimal_mono (Nat.add_le_add_right (Nat.add_le_add_right hbound 1) body)
        have hmono := length_decimal_mono (Nat.add_le_add_right (Nat.add_le_add_right hgrow 1) body)
        have hmax := length_decimal_bound body
        exact ih hmono (by omega) (by omega)

theorem length_asBytes_decimal (n : ℕ) : (asBytes (decimal n)).length = (decimal n).length := by
  rw [asBytes_of_isAscii (isAscii_decimal n), List.length_map]

/-- The writer finds the length of every record. -/
theorem encodeRecord_eq_some {fuel : ℕ} {key value : Bytes}
    (h : key.length + value.length + 4 ≤ fuel) : ∃ n : ℕ,
      encodeRecord fuel key value = some (recordBytes (asBytes (decimal n)) key value) ∧
        (recordBytes (asBytes (decimal n)) key value).length = n := by
  have hbody : (key ++ 61 :: (value ++ [10])).length = key.length + value.length + 2 := by
    simp
    omega
  obtain ⟨n, hn, hlen⟩ := @recordLength_isSome (key.length + value.length + 2) fuel 1
    (length_decimal_pos _) (by omega) (by omega)
  refine ⟨n, ?_, ?_⟩
  · rw [encodeRecord, hbody, hn]
    rfl
  · rw [recordBytes, List.length_append, List.length_cons, hbody, length_asBytes_decimal]
    omega

/-- The number that decimal digits stand for. -/
def digitsValue (digits : Bytes) : ℕ := digits.foldl (fun n b => 10 * n + (b.toNat - 48)) 0

/-- A size that fits sixty-four bits, written in decimal digits. -/
def IsSize (value : Bytes) : Prop :=
  value ≠ [] ∧ value.all (fun b => 48 ≤ b && b ≤ 57) = true ∧ digitsValue value ≤ u64Max

/-- The records that a writer may hand over. -/
structure Writable (record : Bytes × Bytes) : Prop where
  key : 61 ∉ record.1
  notSparse : (bytes "GNU.sparse.").isPrefixOf record.1 = false
  path : record.1 = bytes "path" → record.2 ≠ []
  size : record.1 = bytes "size" → IsSize record.2

/-- The value of the last record with this key. -/
def lastValue (key : Bytes) (records : List (Bytes × Bytes)) : Option Bytes :=
  ((records.filter fun p => p.1 = key).getLast?).map (·.2)

theorem parseUnsigned_of_isSize {value : Bytes} (h : IsSize value) :
    parseUnsigned u64Max value = some (digitsValue value) := by
  obtain ⟨hne, hdigits, hmax⟩ := h
  have hplus : value.head? ≠ some 43 := by
    intro hhead
    have hmem := List.mem_of_head? hhead
    have hdigit := List.all_eq_true.mp hdigits 43 hmem
    cases hdigit
  unfold parseUnsigned
  simp only [if_neg hplus]
  rw [if_pos (by simp [hne, hdigits])]
  exact if_pos hmax

theorem lastValue_cons (key : Bytes) (record : Bytes × Bytes) (records : List (Bytes × Bytes)) :
    lastValue key (record :: records) =
      (lastValue key records).or (if record.1 = key then some record.2 else none) := by
  unfold lastValue
  by_cases h : record.1 = key
  · rw [List.filter_cons_of_pos (by simpa using h), List.getLast?_cons, if_pos h]
    cases (records.filter fun p => p.1 = key).getLast? <;> rfl
  · rw [List.filter_cons_of_neg (by simpa using h), if_neg h, Option.or_none]

theorem pathRecord_eq {records : List (Bytes × Bytes)} (h : ∀ p ∈ records, Writable p) :
    pathRecord records = lastValue (bytes "path") records := by
  induction records with
  | nil => rfl
  | cons p records ih =>
      have htail := ih fun q hq => h q (List.mem_cons_of_mem _ hq)
      have hpath := (h p List.mem_cons_self).path
      rw [lastValue_cons, ← htail, pathRecord, getLast?_filterMap_cons, ← pathRecord, pathOf]
      by_cases hkey : p.1 = bytes "path"
      · rw [if_pos ⟨hkey, hpath hkey⟩, if_pos hkey]
      · rw [if_neg (fun hp => hkey hp.1), if_neg hkey]

theorem sizeRecord_eq {records : List (Bytes × Bytes)} (h : ∀ p ∈ records, Writable p) :
    sizeRecord records = (lastValue (bytes "size") records).map digitsValue := by
  induction records with
  | nil => rfl
  | cons p records ih =>
      have htail := ih fun q hq => h q (List.mem_cons_of_mem _ hq)
      have hsize := (h p List.mem_cons_self).size
      rw [lastValue_cons, Option.map_or, ← htail, sizeRecord, getLast?_filterMap_cons,
        ← sizeRecord, PaxRecords.sizeOf]
      by_cases hkey : p.1 = bytes "size"
      · rw [if_pos hkey, if_pos hkey, parseUnsigned_of_isSize (hsize hkey)]
        rfl
      · rw [if_neg hkey, if_neg hkey]
        rfl

theorem admissible_of_writable {records : List (Bytes × Bytes)} (h : ∀ p ∈ records, Writable p) :
    Admissible records := by
  intro p hp
  constructor
  · exact (h p hp).notSparse
  · intro hkey
    rw [parseUnsigned_of_isSize ((h p hp).size hkey)]
    rfl

/-- Written records with zeros behind them are read as these records. -/
theorem records_of_encodings {max fuel k : ℕ} {records : List (Bytes × Bytes)}
    {encodings : List Bytes} (hkeys : ∀ p ∈ records, 61 ∉ p.1)
    (hfuel : ∀ p ∈ records, p.1.length + p.2.length + 4 ≤ fuel)
    (h : records.mapM (fun p => encodeRecord fuel p.1 p.2) = some encodings)
    (hmax : (encodings.flatten ++ List.replicate k 0).length ≤ max) :
    Records max (encodings.flatten ++ List.replicate k 0) records := by
  induction records generalizing encodings with
  | nil =>
      obtain rfl : encodings = [] := by simpa using h.symm
      apply Records.padding
      simp
  | cons p records ih =>
      obtain ⟨n, hp, hn⟩ := encodeRecord_eq_some (hfuel p List.mem_cons_self)
      rw [List.mapM_cons, hp] at h
      simp only [Option.bind_eq_bind, Option.bind_some, Option.bind_eq_some_iff,
        Option.pure_def, Option.some.injEq] at h
      obtain ⟨rest, hrest, rfl⟩ := h
      rw [List.flatten_cons, List.append_assoc] at hmax ⊢
      rw [List.length_append] at hmax
      apply Records.record (hkeys p List.mem_cons_self)
      · rw [parseUnsigned_decimal, if_pos (by omega), hn]
      · apply ih (fun q hq => hkeys q (List.mem_cons_of_mem _ hq))
          (fun q hq => hfuel q (List.mem_cons_of_mem _ hq)) hrest
        omega

theorem encodings_exist {fuel : ℕ} {records : List (Bytes × Bytes)}
    (hfuel : ∀ p ∈ records, p.1.length + p.2.length + 4 ≤ fuel) :
    ∃ encodings, records.mapM (fun p => encodeRecord fuel p.1 p.2) = some encodings := by
  induction records with
  | nil => exact ⟨[], rfl⟩
  | cons p records ih =>
      obtain ⟨n, hp, -⟩ := encodeRecord_eq_some (hfuel p List.mem_cons_self)
      obtain ⟨encodings, hrest⟩ := ih fun q hq => hfuel q (List.mem_cons_of_mem _ hq)
      exact ⟨_ :: encodings, by rw [List.mapM_cons, hp, hrest]; rfl⟩

end Encoding

section Results

/-- Reading payloads ends without a slice out of range, and it takes apart what the writer puts
together. A payload is in memory, so that its length is a `usize`. -/
theorem pax_records_read_back (platform : Platform) :
    (∀ (payload : Bytes) (pending : PendingMetadata) (fuel : ℕ), payload.length < fuel →
      walkRecords platform fuel payload pending =
        some (applyPaxRecords platform payload pending)) ∧
      ∀ (records : List (Bytes × Bytes)) (fuel : ℕ), (∀ p ∈ records, Writable p) →
        (∀ p ∈ records, p.1.length + p.2.length + 4 ≤ fuel) →
        ∃ encodings, records.mapM (fun p => encodeRecord fuel p.1 p.2) = some encodings ∧
          ∀ (k : ℕ) (pending : PendingMetadata),
            (encodings.flatten ++ List.replicate k 0).length ≤ platform.usizeMax →
            applyPaxRecords platform (encodings.flatten ++ List.replicate k 0) pending =
              .ok {pending with
                paxPath := (lastValue (bytes "path") records).or pending.paxPath
                paxSize := ((lastValue (bytes "size") records).map digitsValue).or
                  pending.paxSize} := by
  constructor
  · intro payload pending fuel h
    exact walkRecords_eq platform h pending
  · intro records fuel hwritable hfuel
    obtain ⟨encodings, hencodings⟩ := encodings_exist hfuel
    refine ⟨encodings, hencodings, ?_⟩
    intro k pending hmax
    have hrecords := records_of_encodings (fun p hp => (hwritable p hp).key) hfuel hencodings hmax
    rw [applyPaxRecords_eq_ok_iff]
    refine ⟨records, paxRecords_eq_some_iff.mpr hrecords, admissible_of_writable hwritable, ?_⟩
    rw [describe, pathRecord_eq hwritable, sizeRecord_eq hwritable]

/-- A chart under a long path, with a newline and an equals sign in a comment. -/
theorem pax_records_read_back_chart :
    let records := [(bytes "path", bytes "app/Chart.yaml"), (bytes "comment", [10, 61, 32, 0]),
      (bytes "size", bytes "12")]
    let platform : Platform := ⟨u64Max, fun _ => true, fun _ => true⟩
    ∃ encodings, records.mapM (fun p => encodeRecord 22 p.1 p.2) = some encodings ∧
      ∀ (k : ℕ) (pending : PendingMetadata),
        (encodings.flatten ++ List.replicate k 0).length ≤ u64Max →
        applyPaxRecords platform (encodings.flatten ++ List.replicate k 0) pending =
          .ok {pending with paxPath := some (bytes "app/Chart.yaml"), paxSize := some 12} := by
  intro records platform
  have hwritable : ∀ p ∈ records, Writable p := by
    intro p hp
    simp only [records, List.mem_cons, List.not_mem_nil, or_false] at hp
    rcases hp with rfl | rfl | rfl
    · exact ⟨by decide, by decide, by decide, fun h => absurd h (by decide)⟩
    · exact ⟨by decide, by decide, by decide, fun h => absurd h (by decide)⟩
    · exact ⟨by decide, by decide, by decide, fun _ => by unfold IsSize; decide⟩
  exact (pax_records_read_back platform).2 records 22 hwritable (by decide)

end Results

end Helmoci.PaxEncoding
