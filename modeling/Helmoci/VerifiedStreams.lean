import Helmoci.PassthroughHandler
import Helmoci.PlainCrates

/-!
# Stored blobs that are checked while they are sent

A large stored blob is hashed as it streams, one chunk behind, and a wrong hash or a
failing read drops the chunk that is held back. The body then ends short of the size it
has promised if that chunk has any bytes. A stream may well end with an empty chunk, and
then all of a corrupt blob has been sent before its error.
-/
namespace Helmoci.VerifiedStreams
open RustText OciDigest ServerErrors BlobStorage ServerState PassthroughHandler PlainCrates

/-- The chunks in front of the first error, and that error. -/
def delivered : List (Except AppError Bytes) → List Bytes × Option AppError
  | [] => ([], none)
  | .error e :: _ => ([], some e)
  | .ok chunk :: chunks => (chunk :: (delivered chunks).1, (delivered chunks).2)

/-- A body that sends these chunks and breaks off with the error. -/
def brokenOff (chunks : List Bytes) (e : AppError) : List (Except AppError Bytes) :=
  chunks.map .ok ++ [.error e]

variable {state : AppState} {digest : Digest} {blob : Blob}

/-- What is sent of a stream: all of it if the hash is right, and otherwise all but the
last chunk and an error. -/
theorem verifyChunks_eq (seen : Bytes) (held : Option Bytes) (data : List (Except AppError Bytes)) :
    verifyChunks state digest seen held data =
      match (delivered data).2 with
      | some e => brokenOff (held.toList ++ (delivered data).1).dropLast e
      | none =>
        if state.crates.sha256 (seen ++ (delivered data).1.flatten) = digest then
          (held.toList ++ (delivered data).1).map .ok
        else brokenOff (held.toList ++ (delivered data).1).dropLast (storageError .blobRead) := by
  induction data generalizing seen held with
  | nil =>
      simp only [verifyChunks, delivered, List.flatten_nil, List.append_nil, ite_not]
      congr 1
      cases held <;> rfl
  | cons chunk data ih =>
      cases chunk with
      | error e => cases held <;> rfl
      | ok chunk =>
          have hlast : (held.toList ++ chunk :: (delivered data).1).dropLast =
              held.toList ++ (chunk :: (delivered data).1).dropLast :=
            List.dropLast_append_of_ne_nil (by simp)
          rw [verifyChunks, ih, delivered]
          cases hfailed : (delivered data).2 with
          | some e => simp [brokenOff, hlast]
          | none =>
              simp only [Option.toList_some, List.singleton_append, List.flatten_cons,
                List.append_assoc, hlast]
              split
              · simp
              · simp [brokenOff]

/-- The stream delivers what the blob's size promises, unless it fails on the way. -/
def Fits (blob : Blob) : Prop :=
  (delivered blob.data).1.flatten.length ≤ blob.blobMeta.size ∧
    ((delivered blob.data).2 = none →
      (delivered blob.data).1.flatten.length = blob.blobMeta.size)

/-- The whole blob if its hash is right, and otherwise a body that breaks off before it
has sent as many bytes as it has promised, with the stream's error if there is one. -/
def EndsShort (state : AppState) (digest : Digest) (blob : Blob) : Prop :=
  let sent := (verifiedCachedBlob state digest blob).data
  match delivered blob.data with
  | (_, some e) => ∃ chunks, sent = brokenOff chunks e ∧ chunks.flatten.length < blob.blobMeta.size
  | (chunks, none) =>
    if state.crates.sha256 chunks.flatten = digest then
      ∃ chunks' : List Bytes, sent = chunks'.map .ok ∧ chunks'.flatten = chunks.flatten
    else ∃ chunks e, sent = brokenOff chunks e ∧ chunks.flatten.length < blob.blobMeta.size

theorem brokenOff_inj {chunks chunks' : List Bytes} {e e' : AppError}
    (h : brokenOff chunks e = brokenOff chunks' e') : chunks = chunks' := by
  have hi := List.append_inj_left' h rfl
  exact List.map_injective_iff.mpr (fun _ _ => Except.ok.inj) hi

/-- The held chunk is missing from a body that breaks off. -/
theorem length_dropLast_lt_iff {chunks : List Bytes} {size : ℕ}
    (h : chunks.flatten.length ≤ size) (hs : 0 < size) :
    chunks.dropLast.flatten.length < size ↔
      chunks.flatten.length < size ∨ chunks.getLast? ≠ some [] := by
  rcases List.eq_nil_or_concat' chunks with rfl | ⟨front, last, rfl⟩
  · simp [hs]
  · simp only [List.dropLast_concat, List.flatten_append, List.flatten_cons, List.flatten_nil,
      List.append_nil, List.length_append, List.getLast?_concat, ne_eq, Option.some.injEq] at h ⊢
    cases last with
    | nil => simp
    | cons b last => simp at h ⊢; omega

/-- A large stored blob ends short exactly when its hash is right, or the stream stops
before the promised size, or the last chunk that it delivers is not empty. -/
theorem endsShort_iff (hfits : Fits blob) (hsize : maxBufferedCachedBlobBytes < blob.blobMeta.size) :
    EndsShort state digest blob ↔
      ((delivered blob.data).2 = none ∧
        state.crates.sha256 (delivered blob.data).1.flatten = digest) ∨
      (delivered blob.data).1.flatten.length < blob.blobMeta.size ∨
      (delivered blob.data).1.getLast? ≠ some [] := by
  have hpos : 0 < blob.blobMeta.size := Nat.zero_lt_of_lt hsize
  have hsent : (verifiedCachedBlob state digest blob).data =
      verifyChunks state digest [] none blob.data := rfl
  have hlt := length_dropLast_lt_iff hfits.1 hpos
  rw [verifyChunks_eq] at hsent
  unfold EndsShort
  rw [hsent]
  cases hd : delivered blob.data with
  | mk chunks failed =>
      rw [hd] at hlt
      cases failed with
      | some e =>
          simp only [Option.toList_none, List.nil_append, reduceCtorEq, false_and, false_or]
          constructor
          · rintro ⟨chunks', hc, hl⟩
            rw [← brokenOff_inj hc] at hl
            exact hlt.mp hl
          · intro h
            exact ⟨_, rfl, hlt.mpr h⟩
      | none =>
          simp only [Option.toList_none, List.nil_append, true_and]
          by_cases hhash : state.crates.sha256 chunks.flatten = digest
          · simp only [hhash, if_true, true_or, iff_true]
            exact ⟨chunks, rfl, rfl⟩
          · simp only [hhash, if_false, false_or]
            constructor
            · rintro ⟨chunks', e, hc, hl⟩
              rw [← brokenOff_inj hc] at hl
              exact hlt.mp hl
            · intro h
              exact ⟨_, _, rfl, hlt.mpr h⟩

/-- A blob one byte above the bound, in two chunks of which one is empty. -/
def twoChunks (front back : Bytes) : Blob :=
  ⟨⟨maxBufferedCachedBlobBytes + 1, none⟩, [.ok front, .ok back]⟩

-- more than a megabyte, so nothing may compute with it
@[irreducible] def zeros : Bytes := List.replicate (maxBufferedCachedBlobBytes + 1) 0

theorem twoChunks_fits {front back : Bytes}
    (h : front.length + back.length = maxBufferedCachedBlobBytes + 1) :
    Fits (twoChunks front back) := by
  simp [Fits, twoChunks, delivered, h]

theorem twoChunks_large (front back : Bytes) :
    maxBufferedCachedBlobBytes < (twoChunks front back).blobMeta.size := Nat.lt_succ_self _

theorem length_zeros : zeros.length = maxBufferedCachedBlobBytes + 1 := by
  unfold zeros
  exact List.length_replicate

/-- The digest of that many zeros. -/
def zerosDigest : Digest :=
  hexDigest (str "2cb74edba754a81d121c9db6833704a8e7d417e5b13d1a19f4a52f007d644264") (by decide)

def zerosState : AppState :=
  {plainState with crates := {plainCrates with
    sha256 := fun data => if data = zeros then zerosDigest else plainCrates.sha256 data}}

theorem sha256_zeros : zerosState.crates.sha256 zeros = zerosDigest := if_pos rfl

theorem empty_chunk_in_front_endsShort :
    EndsShort zerosState (digestOf '1' (by decide)) (twoChunks [] zeros) := by
  have hfits : Fits (twoChunks [] zeros) :=
    twoChunks_fits (by rw [length_zeros, List.length_nil, Nat.zero_add])
  refine (endsShort_iff hfits (twoChunks_large _ _)).mpr (Or.inr (Or.inr ?_))
  have hne : zeros ≠ [] := List.ne_nil_of_length_pos (by rw [length_zeros]; exact Nat.succ_pos _)
  simp [twoChunks, delivered, hne]

/-- Behind an empty last chunk the error comes too late. -/
theorem empty_last_chunk_is_too_late : ¬ ∀ (state : AppState) (digest : Digest) (blob : Blob),
    Fits blob → maxBufferedCachedBlobBytes < blob.blobMeta.size → EndsShort state digest blob := by
  intro h
  have hfits : Fits (twoChunks zeros []) :=
    twoChunks_fits (by rw [length_zeros, List.length_nil, Nat.add_zero])
  have hends := h zerosState (digestOf '1' (by decide)) _ hfits (twoChunks_large _ _)
  have hall : (delivered (twoChunks zeros []).data).1.flatten = zeros := by
    simp [twoChunks, delivered]
  rcases (endsShort_iff hfits (twoChunks_large _ _)).mp hends with ⟨-, hhash⟩ | hlen | hlast
  · rw [hall, sha256_zeros] at hhash
    have hne : zerosDigest ≠ digestOf '1' (by decide) := by decide
    exact hne hhash
  · rw [hall, length_zeros] at hlen
    exact Nat.lt_irrefl _ hlen
  · simp [twoChunks, delivered] at hlast

end Helmoci.VerifiedStreams
