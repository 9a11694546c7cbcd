import Helmoci.TarUnpacking

/-!
# PAX records

The payload of a PAX header is a list of records with zero bytes behind them. The loop
over the payload is described by that list: sparse members and sizes that are not
numbers are refused, and of the paths and of the sizes the last one counts.
-/
namespace Helmoci.PaxRecords
open RustText ServerErrors TarUnpacking

/-- The bytes of a record, whose length stands in front of it. -/
def recordBytes (digits key value : Bytes) : Bytes := digits ++ 32 :: (key ++ 61 :: (value ++ [10]))

/-- The payload consists of these records. A length is a number as the standard library
reads it and counts the whole record. -/
inductive Records (max : ℕ) : Bytes → List (Bytes × Bytes) → Prop
  | padding {rest : Bytes} : rest.all (· == 0) = true → Records max rest []
  | record {digits key value rest : Bytes} {records : List (Bytes × Bytes)} : 61 ∉ key →
      parseUnsigned max digits = some (recordBytes digits key value).length →
      Records max rest records →
      Records max (recordBytes digits key value ++ rest) ((key, value) :: records)

theorem splitAtByte_eq_some_iff {b : UInt8} {bs x y : Bytes} :
    splitAtByte b bs = some (x, y) ↔ bs = x ++ b :: y ∧ b ∉ x := by
  induction bs generalizing x y with
  | nil => simp [splitAtByte]
  | cons c bs ih =>
      unfold splitAtByte
      by_cases hc : c = b
      · rw [if_pos hc]
        constructor
        · intro h
          cases h
          exact ⟨by rw [hc]; rfl, by simp⟩
        · intro ⟨h, hb⟩
          cases x with
          | nil => simp_all
          | cons d x => simp_all
      · rw [if_neg hc]
        cases x with
        | nil => simp [hc]
        | cons d x =>
            simp only [Option.map_eq_some_iff, Prod.mk.injEq, Prod.exists, List.cons.injEq,
              List.cons_append, List.mem_cons, not_or]
            constructor
            · intro ⟨x', y', h, ⟨hd, hx⟩, hy⟩
              obtain ⟨hbs, hb⟩ := ih.mp h
              subst hd hx hy
              exact ⟨⟨rfl, hbs⟩, Ne.symm hc, hb⟩
            · intro ⟨⟨hd, hbs⟩, _, hb⟩
              exact ⟨x, y, ih.mpr ⟨hbs, hb⟩, ⟨hd, rfl⟩, rfl⟩

/-- A number has no space in it. -/
theorem space_not_mem_of_parseUnsigned {max n : ℕ} {digits : Bytes}
    (h : parseUnsigned max digits = some n) : 32 ∉ digits := by
  intro hm
  have digit : ∀ ds : Bytes, 32 ∈ ds →
      (!ds.isEmpty && ds.all fun b => 48 ≤ b && b ≤ 57) = false := by
    intro ds hd
    rw [Bool.and_eq_false_iff, List.all_eq_false]
    exact Or.inr ⟨32, hd, by decide⟩
  unfold parseUnsigned at h
  by_cases hplus : digits.head? = some 43
  · obtain ⟨ds, rfl⟩ : ∃ ds, digits = 43 :: ds := List.head?_eq_some_iff.mp hplus
    have hd : 32 ∈ ds := by simpa using hm
    simp [hplus, digit ds hd] at h
  · simp [if_neg hplus, digit digits hm] at h

theorem paxRecord_eq_ok_iff {platform : Platform} {rest key value rest' : Bytes} :
    paxRecord platform rest = .ok (key, value, rest') ↔
      ∃ digits, 61 ∉ key ∧
        parseUnsigned platform.usizeMax digits = some (recordBytes digits key value).length ∧
        rest = recordBytes digits key value ++ rest' := by
  constructor
  · intro h
    unfold paxRecord at h
    split at h
    · cases h
    · rename_i digits behind hsplit
      obtain ⟨rfl, -⟩ := splitAtByte_eq_some_iff.mp hsplit
      dsimp only at h
      split at h
      · cases h
      · rename_i length hlength
        obtain ⟨hparse, hbounds⟩ := Option.filter_eq_some_iff.mp hlength
        simp only [Bool.and_eq_true, decide_eq_true_eq] at hbounds
        split at h
        · cases h
        · rename_i record hrecord
          split at h
          · cases h
          · rename_i key' value' hkey
            cases h
            obtain ⟨hrec, hne⟩ := splitAtByte_eq_some_iff.mp hkey
            obtain ⟨t, ht, hnl⟩ := List.dropSuffix?_eq_some_iff.mp hrecord
            obtain rfl : t = [10] := by simpa using hnl
            -- the length cuts the text right behind the record
            have htake : (digits ++ 32 :: behind).take length =
                recordBytes digits key value := by
              have hd : (digits ++ 32 :: behind).take (digits.length + 1) = digits ++ [32] := by
                simp [List.take_append]
              have hcut := List.take_append_drop (digits.length + 1)
                ((digits ++ 32 :: behind).take length)
              rw [List.take_take, Nat.min_eq_left (by omega), hd, ht, hrec] at hcut
              rw [← hcut]
              simp [recordBytes]
            have hlen := congrArg List.length htake
            rw [List.length_take, Nat.min_eq_left hbounds.2] at hlen
            refine ⟨digits, hne, by rw [← hlen]; exact hparse, ?_⟩
            rw [← htake]
            exact (List.take_append_drop length _).symm
  · intro ⟨digits, hkey, hparse, hrest⟩
    have hsplit : splitAtByte 32 rest = some (digits, key ++ 61 :: (value ++ 10 :: rest')) := by
      rw [splitAtByte_eq_some_iff, hrest]
      exact ⟨by simp [recordBytes], space_not_mem_of_parseUnsigned hparse⟩
    have htake : rest.take (recordBytes digits key value).length =
        recordBytes digits key value := by
      rw [hrest]
      exact List.take_left
    have hdrop : (recordBytes digits key value).drop (digits.length + 1) =
        key ++ 61 :: (value ++ [10]) := by
      have hd : recordBytes digits key value = (digits ++ [32]) ++ (key ++ 61 :: (value ++ [10])) := by
        simp [recordBytes]
      rw [hd, List.drop_left' (by simp)]
    have hsuffix : (key ++ 61 :: (value ++ [10])).dropSuffix? [10] = some (key ++ 61 :: value) :=
      List.dropSuffix?_eq_some_iff.mpr ⟨[10], by simp, by simp⟩
    have hfilter : (parseUnsigned platform.usizeMax digits).filter
        (fun length => digits.length + 1 < length && length ≤ rest.length) =
          some (recordBytes digits key value).length := by
      rw [Option.filter_eq_some_iff]
      refine ⟨hparse, ?_⟩
      rw [hrest]
      simp [recordBytes]
    have hbehind : rest.drop (recordBytes digits key value).length = rest' := by
      rw [hrest]
      exact List.drop_left
    unfold paxRecord
    simp only [hsplit, hfilter, htake, hdrop, hsuffix, hbehind,
      splitAtByte_eq_some_iff.mpr ⟨rfl, hkey⟩]

section Reading
variable (platform : Platform)

/-- One unit of fuel for each byte is enough, a record is not empty. -/
def readRecords : ℕ → Bytes → Option (List (Bytes × Bytes))
  | 0, _ => some []
  | fuel + 1, rest =>
    if rest.all (· == 0) then some []
    else
      match paxRecord platform rest with
      | .error _ => none
      | .ok (key, value, rest) => (readRecords fuel rest).map ((key, value) :: ·)

def paxRecords (payload : Bytes) : Option (List (Bytes × Bytes)) :=
  readRecords platform payload.length payload

variable {platform}

/-- A record is not made of zero bytes alone. -/
theorem not_all_zero {digits key value rest : Bytes} :
    (recordBytes digits key value ++ rest).all (· == 0) = false := by
  rw [List.all_eq_false]
  exact ⟨10, by simp [recordBytes], by decide⟩

theorem records_cons_iff {max : ℕ} {payload key value : Bytes} {records : List (Bytes × Bytes)} :
    Records max payload ((key, value) :: records) ↔ ∃ digits rest, 61 ∉ key ∧
      parseUnsigned max digits = some (recordBytes digits key value).length ∧
      payload = recordBytes digits key value ++ rest ∧ Records max rest records := by
  constructor
  · intro h
    cases h with
    | record hkey hparse hrest => exact ⟨_, _, hkey, hparse, rfl, hrest⟩
  · intro ⟨digits, rest, hkey, hparse, hp, hrest⟩
    rw [hp]
    exact .record hkey hparse hrest

theorem records_nil_iff {max : ℕ} {payload : Bytes} :
    Records max payload [] ↔ payload.all (· == 0) = true := by
  constructor
  · intro h
    cases h with
    | padding hz => exact hz
  · exact .padding

theorem readRecords_eq_some_iff {fuel : ℕ} {payload : Bytes} {records : List (Bytes × Bytes)}
    (hf : payload.length ≤ fuel) :
    readRecords platform fuel payload = some records ↔
      Records platform.usizeMax payload records := by
  induction fuel generalizing payload records with
  | zero =>
      obtain rfl : payload = [] := List.eq_nil_of_length_eq_zero (Nat.le_zero.mp hf)
      cases records with
      | nil => simp [readRecords, records_nil_iff]
      | cons p records =>
          obtain ⟨key, value⟩ := p
          simp [readRecords, records_cons_iff, recordBytes]
  | succ fuel ih =>
      unfold readRecords
      split
      · rename_i hz
        cases records with
        | nil => simp [records_nil_iff, hz]
        | cons p records =>
            have hn : ¬ Records platform.usizeMax payload (p :: records) := by
              intro h
              obtain ⟨digits, rest, -, -, rfl, -⟩ := records_cons_iff.mp h
              rw [not_all_zero] at hz
              cases hz
            simp [hn]
      · rename_i hz
        cases records with
        | nil =>
            have hn : ¬ Records platform.usizeMax payload [] := fun h => hz (records_nil_iff.mp h)
            simp only [hn, iff_false]
            cases paxRecord platform payload with
            | error e => simp
            | ok p => simp
        | cons p records =>
            obtain ⟨key, value⟩ := p
            cases hp : paxRecord platform payload with
            | error e =>
                simp only [reduceCtorEq, false_iff]
                intro h
                obtain ⟨digits, rest, hkey, hparse, hpay, -⟩ := records_cons_iff.mp h
                rw [paxRecord_eq_ok_iff.mpr ⟨digits, hkey, hparse, hpay⟩] at hp
                cases hp
            | ok q =>
                obtain ⟨key', value', rest'⟩ := q
                have hlen := paxRecord_length hp
                have ih' := @ih rest' records (by omega)
                simp only [Option.map_eq_some_iff, List.cons.injEq, Prod.mk.injEq]
                constructor
                · intro ⟨records', hr, ⟨hk, hv⟩, hrs⟩
                  subst hk hv hrs
                  obtain ⟨digits, hkey, hparse, hpay⟩ := paxRecord_eq_ok_iff.mp hp
                  exact records_cons_iff.mpr ⟨digits, rest', hkey, hparse, hpay, ih'.mp hr⟩
                · intro h
                  obtain ⟨digits, rest, hkey, hparse, hpay, hr⟩ := records_cons_iff.mp h
                  rw [paxRecord_eq_ok_iff.mpr ⟨digits, hkey, hparse, hpay⟩] at hp
                  cases hp
                  exact ⟨records, ih'.mpr hr, ⟨rfl, rfl⟩, rfl⟩

/-- The reader finds exactly the lists of records that the payload consists of. -/
theorem paxRecords_eq_some_iff {payload : Bytes} {records : List (Bytes × Bytes)} :
    paxRecords platform payload = some records ↔ Records platform.usizeMax payload records :=
  readRecords_eq_some_iff (Nat.le_refl _)

end Reading

section Meaning

def pathOf (record : Bytes × Bytes) : Option Bytes :=
  if record.1 = bytes "path" ∧ record.2 ≠ [] then some record.2 else none

def sizeOf (record : Bytes × Bytes) : Option ℕ :=
  if record.1 = bytes "size" then parseUnsigned u64Max record.2 else none

/-- The last path that is not empty. -/
def pathRecord (records : List (Bytes × Bytes)) : Option Bytes := (records.filterMap pathOf).getLast?

/-- The last size. -/
def sizeRecord (records : List (Bytes × Bytes)) : Option ℕ := (records.filterMap sizeOf).getLast?

/-- The record is not for a sparse member, and a size is a number. -/
def AdmissibleRecord (record : Bytes × Bytes) : Prop :=
  (bytes "GNU.sparse.").isPrefixOf record.1 = false ∧
    (record.1 = bytes "size" → (parseUnsigned u64Max record.2).isSome = true)

def Admissible (records : List (Bytes × Bytes)) : Prop := ∀ p ∈ records, AdmissibleRecord p

def describe (records : List (Bytes × Bytes)) (pending : PendingMetadata) : PendingMetadata :=
  {pending with
    paxPath := (pathRecord records).or pending.paxPath
    paxSize := (sizeRecord records).or pending.paxSize}

theorem getLast?_filterMap_cons {A B : Type} (f : A → Option B) (a : A) (as : List A) :
    ((a :: as).filterMap f).getLast? = ((as.filterMap f).getLast?).or (f a) := by
  cases h : f a with
  | none => rw [List.filterMap_cons_none h, Option.or_none]
  | some b =>
      rw [List.filterMap_cons_some h, List.getLast?_cons]
      cases (as.filterMap f).getLast? <;> rfl

theorem describe_cons (p : Bytes × Bytes) (records : List (Bytes × Bytes))
    (pending : PendingMetadata) :
    describe (p :: records) pending = describe records (describe [p] pending) := by
  simp only [describe, pathRecord, sizeRecord, getLast?_filterMap_cons, List.filterMap_nil,
    List.getLast?_nil, Option.none_or, Option.or_assoc]

theorem applyPaxRecord_eq_ok_iff {key value : Bytes} {pending pending' : PendingMetadata} :
    applyPaxRecord key value pending = .ok pending' ↔
      AdmissibleRecord (key, value) ∧ pending' = describe [(key, value)] pending := by
  have hd : describe [(key, value)] pending = {pending with
      paxPath := (pathOf (key, value)).or pending.paxPath
      paxSize := (sizeOf (key, value)).or pending.paxSize} := by
    simp [describe, pathRecord, sizeRecord]
  rw [hd]
  unfold applyPaxRecord AdmissibleRecord pathOf sizeOf
  dsimp only
  cases hsparse : (bytes "GNU.sparse.").isPrefixOf key with
  | true => simp
  | false =>
      rw [if_neg Bool.false_ne_true]
      by_cases hpath : key = bytes "path" ∧ value ≠ []
      · have hsize : key ≠ bytes "size" := by
          rw [hpath.1]
          decide
        rw [if_pos hpath, if_pos hpath, if_neg hsize]
        simp only [hsize, false_implies, and_true, true_and, Except.ok.injEq, Option.some_or,
          Option.none_or]
        exact eq_comm
      · rw [if_neg hpath, if_neg hpath]
        by_cases hsize : key = bytes "size"
        · rw [if_pos hsize, if_pos hsize]
          cases parseUnsigned u64Max value with
          | none => simp [hsize]
          | some n =>
              simp only [Except.ok.injEq, Option.isSome_some, implies_true, and_true, true_and,
                Option.none_or, Option.some_or]
              exact eq_comm
        · rw [if_neg hsize, if_neg hsize]
          simp only [hsize, false_implies, and_true, true_and, Except.ok.injEq, Option.none_or]
          exact eq_comm

/-- What the loop does with a payload is what its records say. -/
theorem applyPaxLoop_eq_ok_iff {platform : Platform} {fuel : ℕ} {rest : Bytes}
    {pending pending' : PendingMetadata} :
    applyPaxLoop platform fuel rest pending = .ok pending' ↔
      ∃ records, readRecords platform fuel rest = some records ∧ Admissible records ∧
        pending' = describe records pending := by
  induction fuel generalizing rest pending with
  | zero => simp [applyPaxLoop, readRecords, Admissible, describe, pathRecord, sizeRecord, eq_comm]
  | succ fuel ih =>
      unfold applyPaxLoop readRecords
      split
      · simp [Admissible, describe, pathRecord, sizeRecord, eq_comm]
      · cases hp : paxRecord platform rest with
        | error e => simp
        | ok p =>
            obtain ⟨key, value, rest'⟩ := p
            simp only [Option.map_eq_some_iff]
            cases ha : applyPaxRecord key value pending with
            | error e =>
                simp only [reduceCtorEq, false_iff]
                rintro ⟨records, ⟨records', _, hr⟩, hadm, _⟩
                subst hr
                have hrec := hadm _ List.mem_cons_self
                rw [applyPaxRecord_eq_ok_iff.mpr ⟨hrec, rfl⟩] at ha
                cases ha
            | ok next =>
                obtain ⟨hrec, rfl⟩ := applyPaxRecord_eq_ok_iff.mp ha
                simp only [ih]
                constructor
                · rintro ⟨records, hr, hadm, hd⟩
                  refine ⟨(key, value) :: records, ⟨records, hr, rfl⟩, ?_, ?_⟩
                  · intro p hm
                    rcases List.mem_cons.mp hm with rfl | hm
                    · exact hrec
                    · exact hadm p hm
                  · rw [hd, ← describe_cons]
                · rintro ⟨records, ⟨records', hr, hcons⟩, hadm, hd⟩
                  subst hcons
                  refine ⟨records', hr, fun p hm => hadm p (List.mem_cons_of_mem _ hm), ?_⟩
                  rw [hd, describe_cons]

theorem applyPaxRecords_eq_ok_iff {platform : Platform} {payload : Bytes}
    {pending pending' : PendingMetadata} :
    applyPaxRecords platform payload pending = .ok pending' ↔
      ∃ records, paxRecords platform payload = some records ∧ Admissible records ∧
        pending' = describe records pending := applyPaxLoop_eq_ok_iff

end Meaning

end Helmoci.PaxRecords
