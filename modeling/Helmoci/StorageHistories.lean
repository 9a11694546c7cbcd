import Helmoci.PlainCrates
import Helmoci.StorageKeys
import Helmoci.StoreWorlds

/-!
# Two storages, one history

What a storage answers is determined by the calls that were made of it before: a blob is what was
first put under its digest, a pointer what was last put under its key. The object store gets
there with probes, attributes that it may have to give up and conditional writes, and it reads
pointers in chunks up to a bound. The cache inserts.
-/
namespace Helmoci.StorageHistories
open RustText OciDigest JsonDocuments ServerErrors EffectPrograms ServerOperations BlobStorage
  StorageKeys ServerState PlainCrates StoreWorlds

section Calls

/-- A storage with the size of a blob. -/
structure StatStorage extends Storage where
  headBlob : Digest → Server (Option BlobMeta)

namespace ObjectStore

def headBlob (digest : Digest) : Server (Option BlobMeta) := do
  let path ← liftResult (storagePath .blobStat (blobKey digest))
  match ← perform (.head path) with
  | .ok size => return some ⟨size, none⟩
  | .error .notFound => return none
  | .error _ => throw (storageError .blobStat)

end ObjectStore

namespace Ephemeral

def headBlob (digest : Digest) : Server (Option BlobMeta) := do
  let entry ← perform (.cacheGet (blobKey digest))
  return entry.map fun entry => ⟨entry.data.length, some entry.contentType⟩

end Ephemeral

def objectStoreStats (json : JsonCrate) : StatStorage where
  toStorage := objectStoreStorage json
  headBlob := ObjectStore.headBlob

def ephemeralStats (json : JsonCrate) : StatStorage where
  toStorage := ephemeralStorage json
  headBlob := Ephemeral.headBlob

inductive StorageCall where
  | getBlob (digest : Digest)
  | headBlob (digest : Digest)
  | putBlob (digest : Digest) (contentType : Str) (data : Bytes)
  | getTagPointer (scope : TagScope) (tag : Str)
  | putTagPointer (scope : TagScope) (tag : Str) (pointer : TagPointer)

/-- What a caller sees, the content type of a blob aside. -/
inductive Observation where
  | blob (found : Option (ℕ × Bytes))
  | size (found : Option ℕ)
  | pointer (found : Option TagPointer)
  | written

/-- The chunks of a body, or the first error. -/
def collectBody : List (Except AppError Bytes) → Except AppError Bytes
  | [] => .ok []
  | .error e :: _ => .error e
  | .ok chunk :: chunks => (collectBody chunks).map (chunk ++ ·)

def observe (storage : StatStorage) : StorageCall → Server Observation
  | .getBlob digest => do
    match ← storage.getBlob digest with
    | none => return .blob none
    | some blob =>
      let data ← liftResult (collectBody blob.data)
      return .blob (some (blob.blobMeta.size, data))
  | .headBlob digest => do
    let found ← storage.headBlob digest
    return .size (found.map BlobMeta.size)
  | .putBlob digest contentType data => do
    storage.putBlob digest contentType data
    return .written
  | .getTagPointer scope tag => do
    let found ← storage.getTagPointer scope tag
    return .pointer found
  | .putTagPointer scope tag pointer => do
    storage.putTagPointer scope tag pointer
    return .written

/-- One call after the other. A call that fails does not end the sequence. -/
def observeAll (storage : StatStorage) :
    List StorageCall → Program Op Ans (List (Except AppError Observation))
  | [] => .pure []
  | c :: calls =>
    Program.bind (observe storage c) fun r =>
      Program.bind (observeAll storage calls) fun rs => .pure (r :: rs)

end Calls

section Histories

def blobPut (digest : Digest) : StorageCall → Option Bytes
  | .putBlob digest' _ data => if digest' = digest then some data else none
  | _ => none

def pointerPut (key : Str) : StorageCall → Option TagPointer
  | .putTagPointer scope tag pointer => if tagKey scope tag = key then some pointer else none
  | _ => none

def firstBlob (digest : Digest) (earlier : List StorageCall) : Option Bytes :=
  (earlier.filterMap (blobPut digest)).head?

def lastPointer (key : Str) (earlier : List StorageCall) : Option TagPointer :=
  (earlier.filterMap (pointerPut key)).getLast?

/-- What a call answers behind these. -/
def answer (earlier : List StorageCall) : StorageCall → Observation
  | .getBlob digest => .blob ((firstBlob digest earlier).map fun data => (data.length, data))
  | .headBlob digest => .size ((firstBlob digest earlier).map List.length)
  | .getTagPointer scope tag => .pointer (lastPointer (tagKey scope tag) earlier)
  | .putBlob .. | .putTagPointer .. => .written

def answers : List StorageCall → List StorageCall → List Observation
  | _, [] => []
  | earlier, c :: calls => answer earlier c :: answers (earlier ++ [c]) calls

/-- A tag's key is a path as it is. A pointer is within the bound, and it is read back. -/
def Admissible (json : JsonCrate) : StorageCall → Prop
  | .getTagPointer scope tag => parsePath (tagKey scope tag) = some (tagKey scope tag)
  | .putTagPointer scope tag pointer =>
    parsePath (tagKey scope tag) = some (tagKey scope tag) ∧
      (encodePointer pointer).length ≤ BlobStorage.ObjectStore.maxTagPointerBytes ∧
      json.pointer (encodePointer pointer) = some pointer
  | _ => True

theorem firstBlob_append (digest : Digest) (earlier : List StorageCall) (c : StorageCall) :
    firstBlob digest (earlier ++ [c]) = (firstBlob digest earlier).or (blobPut digest c) := by
  unfold firstBlob
  rw [List.filterMap_append, List.head?_append]
  cases h : blobPut digest c with
  | none => rw [List.filterMap_cons_none h, List.filterMap_nil, List.head?_nil]
  | some data => rw [List.filterMap_cons_some h, List.filterMap_nil, List.head?_cons]

theorem lastPointer_append (key : Str) (earlier : List StorageCall) (c : StorageCall) :
    lastPointer key (earlier ++ [c]) = (pointerPut key c).or (lastPointer key earlier) := by
  unfold lastPointer
  rw [List.filterMap_append, List.getLast?_append]
  cases h : pointerPut key c with
  | none => rw [List.filterMap_cons_none h, List.filterMap_nil, List.getLast?_nil]
  | some pointer => rw [List.filterMap_cons_some h, List.filterMap_nil, List.getLast?_singleton]

/-- A pointer that is found was put under the key. -/
theorem mem_of_lastPointer {key : Str} {earlier : List StorageCall} {pointer : TagPointer}
    (h : lastPointer key earlier = some pointer) :
    ∃ scope tag, tagKey scope tag = key ∧ .putTagPointer scope tag pointer ∈ earlier := by
  obtain ⟨c, hc, hput⟩ := List.mem_filterMap.mp (List.mem_of_getLast? h)
  cases c with
  | putTagPointer scope tag pointer' =>
      simp only [pointerPut, Option.ite_none_right_eq_some, Option.some.injEq] at hput
      obtain ⟨hkey, rfl⟩ := hput
      exact ⟨scope, tag, hkey, hc⟩
  | _ => cases hput

/-- What is kept under the keys is what the history says. -/
structure Mirrors (contents : Str → Option Bytes) (earlier : List StorageCall) : Prop where
  blobs : ∀ digest, contents (blobKey digest) = firstBlob digest earlier
  pointers : ∀ scope tag, contents (tagKey scope tag) =
    (lastPointer (tagKey scope tag) earlier).map encodePointer

variable {contents contents' : Str → Option Bytes} {earlier : List StorageCall}

theorem mirrors_empty : Mirrors (fun _ => none) [] := ⟨fun _ => rfl, fun _ _ => rfl⟩

/-- A call that writes nothing. -/
theorem Mirrors.read (h : Mirrors contents earlier) {c : StorageCall}
    (hblob : ∀ digest, blobPut digest c = none) (hpointer : ∀ key, pointerPut key c = none) :
    Mirrors contents (earlier ++ [c]) where
  blobs digest := by rw [firstBlob_append, hblob, Option.or_none, h.blobs]
  pointers scope tag := by rw [lastPointer_append, hpointer, Option.none_or, h.pointers]

/-- A blob that is there stays. -/
theorem Mirrors.putBlob (h : Mirrors contents earlier) {digest : Digest} (contentType : Str)
    (data : Bytes) (hcontents : ∀ key, contents' key =
      if key = blobKey digest then some ((contents key).getD data) else contents key) :
    Mirrors contents' (earlier ++ [.putBlob digest contentType data]) where
  blobs digest' := by
    rw [firstBlob_append, hcontents, h.blobs, blobPut]
    by_cases hd : digest' = digest
    · rw [hd, if_pos rfl, if_pos rfl]
      cases firstBlob digest earlier <;> rfl
    · rw [if_neg (fun hkey => hd (blobKey_inj.mp hkey)), if_neg (fun heq => hd heq.symm),
        Option.or_none]
  pointers scope tag := by
    rw [lastPointer_append, hcontents, if_neg (tagKey_ne_blobKey digest), h.pointers]
    rfl

/-- A pointer takes the place of the one that is there. -/
theorem Mirrors.putTagPointer (h : Mirrors contents earlier) {scope : TagScope} {tag : Str}
    (pointer : TagPointer) (hcontents : ∀ key, contents' key =
      if key = tagKey scope tag then some (encodePointer pointer) else contents key) :
    Mirrors contents' (earlier ++ [.putTagPointer scope tag pointer]) where
  blobs digest := by
    rw [firstBlob_append, hcontents, if_neg (fun heq => tagKey_ne_blobKey digest heq.symm), h.blobs]
    exact (Option.or_none).symm
  pointers scope' tag' := by
    rw [lastPointer_append, hcontents, h.pointers, pointerPut]
    by_cases hkey : tagKey scope' tag' = tagKey scope tag
    · rw [if_pos hkey, if_pos hkey.symm]
      rfl
    · rw [if_neg hkey, if_neg (fun heq => hkey heq.symm)]
      rfl

end Histories

section Steps
variable {app : AppState} {S : Set Bytes} {caps : Capabilities} {w : Writer} {json : JsonCrate}
  {s : State} {earlier : List StorageCall}

def objectData (s : State) (key : Str) : Option Bytes := (s.objects key).map Object.data

def cacheData (s : State) (key : Str) : Option Bytes := (s.cache key).map CacheEntry.data

/-- A call is answered as the history says, and the history goes on with it. -/
def Answered (contents : State → Str → Option Bytes) (earlier : List StorageCall)
    (c : StorageCall) (r : Except AppError Observation) (t : State) : Prop :=
  r = .ok (answer earlier c) ∧ Mirrors (contents t) (earlier ++ [c])

theorem collectBody_ok (chunks : List Bytes) :
    collectBody (chunks.map .ok) = .ok chunks.flatten := by
  induction chunks with
  | nil => rfl
  | cons chunk chunks ih =>
      rw [List.map_cons, collectBody, ih]
      rfl

/-- Chunks of a pointer within the bound are all taken. -/
theorem readPointerChunks_ok {data : Bytes} {chunks : List Bytes}
    (h : data.length + chunks.flatten.length ≤ BlobStorage.ObjectStore.maxTagPointerBytes) :
    BlobStorage.ObjectStore.readPointerChunks data (chunks.map .ok) =
      .ok (some (data ++ chunks.flatten)) := by
  induction chunks generalizing data with
  | nil => simp [BlobStorage.ObjectStore.readPointerChunks]
  | cons chunk chunks ih =>
      rw [List.flatten_cons, List.length_append] at h
      rw [List.map_cons, BlobStorage.ObjectStore.readPointerChunks, if_neg (by omega),
        ih (by rw [List.length_append]; omega)]
      simp

theorem reliableGet_exists (path : Str) (s : State) : ∃ r, reliableGet path s r := by
  unfold reliableGet
  cases s.objects path with
  | none => exact ⟨_, rfl⟩
  | some o => exact ⟨_, [o.data], by simp, rfl⟩

/-- The object under the digest, in chunks. -/
theorem getBlob_reliable (digest : Digest) :
    Meets (reliable app S caps w) (fun _ => True)
      (fun r t => t = s ∧ match s.objects (blobKey digest) with
        | none => r = .ok none
        | some o => ∃ chunks : List Bytes, chunks.flatten = o.data ∧
          r = .ok (some ⟨⟨o.data.length, o.contentType⟩, chunks.map .ok⟩))
      (BlobStorage.ObjectStore.getBlob digest) s := by
  obtain ⟨found, hfound⟩ := reliableGet_exists (blobKey digest) s
  unfold BlobStorage.ObjectStore.getBlob
  rw [storagePath_blobKey, liftResult_ok_bind]
  refine ⟨trivial, ⟨found, s, rfl, hfound⟩, ?_⟩
  intro r t ⟨ht, hr⟩
  rw [ht]
  unfold reliableGet at hr
  cases hobject : s.objects (blobKey digest) with
  | none =>
      rw [hobject] at hr
      rw [hr]
      exact ⟨rfl, rfl⟩
  | some o =>
      rw [hobject] at hr
      obtain ⟨chunks, hchunks, hr⟩ := hr
      rw [hr]
      refine ⟨rfl, chunks, hchunks, ?_⟩
      simp only [List.map_map]
      rfl

theorem getBlob_observed (hm : Mirrors (objectData s) earlier) (digest : Digest) :
    Meets (reliable app S caps w) (fun _ => True)
      (Answered objectData earlier (.getBlob digest))
      (observe (objectStoreStats json) (.getBlob digest)) s := by
  have hread := hm.read (c := .getBlob digest) (fun _ => rfl) fun _ => rfl
  have hblob := hm.blobs digest
  rw [objectData] at hblob
  refine meets_bind (getBlob_reliable digest) ?_ ?_
  · intro found t ⟨ht, hfound⟩
    rw [ht]
    cases hobject : s.objects (blobKey digest) with
    | none =>
        rw [hobject] at hfound hblob
        cases hfound
        refine ⟨?_, hread⟩
        rw [answer, ← hblob]
        rfl
    | some o =>
        rw [hobject] at hfound hblob
        obtain ⟨chunks, hchunks, hfound⟩ := hfound
        cases hfound
        simp only [collectBody_ok, liftResult_ok_bind]
        refine ⟨?_, hread⟩
        rw [answer, ← hblob, hchunks]
        rfl
  · intro e t ⟨_, herror⟩
    cases hobject : s.objects (blobKey digest) with
    | none =>
        rw [hobject] at herror
        cases herror
    | some o =>
        rw [hobject] at herror
        obtain ⟨chunks, -, herror⟩ := herror
        cases herror

theorem headBlob_observed (hm : Mirrors (objectData s) earlier) (digest : Digest) :
    Meets (reliable app S caps w) (fun _ => True)
      (Answered objectData earlier (.headBlob digest))
      (observe (objectStoreStats json) (.headBlob digest)) s := by
  have hread := hm.read (c := .headBlob digest) (fun _ => rfl) fun _ => rfl
  have hblob := hm.blobs digest
  rw [objectData] at hblob
  have hhead : Meets (reliable app S caps w) (fun _ => True)
      (fun r t => t = s ∧ r = .ok ((s.objects (blobKey digest)).map fun o => ⟨o.data.length, none⟩))
      (ObjectStore.headBlob digest) s := by
    unfold ObjectStore.headBlob
    rw [storagePath_blobKey, liftResult_ok_bind]
    refine ⟨trivial, ⟨_, s, rfl, rfl⟩, ?_⟩
    intro r t ⟨ht, hr⟩
    rw [ht, hr]
    cases s.objects (blobKey digest) with
    | none => exact ⟨rfl, rfl⟩
    | some o => exact ⟨rfl, rfl⟩
  refine meets_bind hhead ?_ ?_
  · intro found t ⟨ht, hfound⟩
    obtain rfl := Except.ok.inj hfound
    rw [ht]
    refine ⟨?_, hread⟩
    rw [answer, ← hblob, Option.map_map, Option.map_map]
    rfl
  · intro e t ⟨_, herror⟩
    cases herror

theorem putBlob_observed (hm : Mirrors (objectData s) earlier) (digest : Digest)
    (contentType : Str) (data : Bytes) :
    Meets (reliable app S caps w) (fun _ => True)
      (Answered objectData earlier (.putBlob digest contentType data))
      (observe (objectStoreStats json) (.putBlob digest contentType data)) s := by
  have hput : Meets (reliable app S caps w) (fun _ => True)
      (fun r t => r = .ok () ∧ ∀ key, objectData t key =
        if key = blobKey digest then some ((objectData s key).getD data) else objectData s key)
      (BlobStorage.ObjectStore.putBlob digest contentType data) s := by
    cases hobject : s.objects (blobKey digest) with
    | none =>
        apply (putBlob_reliable hobject contentType data).conseq
        · exact fun _ h => h
        · intro r t ⟨hr, kept, ht⟩
          refine ⟨hr, ?_⟩
          intro key
          rw [ht, objectData, State.store_objects]
          by_cases hkey : key = blobKey digest
          · rw [if_pos hkey, if_pos hkey, hkey, objectData, hobject]
            rfl
          · rw [if_neg hkey, if_neg hkey]
            rfl
    | some o =>
        unfold BlobStorage.ObjectStore.putBlob
        rw [storagePath_blobKey, liftResult_ok_bind]
        refine meets_bind (alreadyStored_reliable _) ?_ ?_
        · intro found t ⟨hfound, ht⟩
          rw [hobject] at hfound
          obtain rfl : found = true := Except.ok.inj hfound
          refine ⟨rfl, ?_⟩
          intro key
          rw [ht]
          split
          · rename_i hkey
            rw [hkey, objectData, hobject]
            rfl
          · rfl
        · intro e t ⟨herror, _⟩
          cases herror
  refine meets_bind hput ?_ ?_
  · intro _ t ⟨_, ht⟩
    exact ⟨rfl, hm.putBlob contentType data ht⟩
  · intro e t ⟨herror, _⟩
    cases herror

/-- A pointer of the history is within the bound and is read back. -/
theorem pointer_admissible (hall : ∀ c ∈ earlier, Admissible json c) {key : Str}
    {pointer : TagPointer} (h : lastPointer key earlier = some pointer) :
    (encodePointer pointer).length ≤ BlobStorage.ObjectStore.maxTagPointerBytes ∧
      json.pointer (encodePointer pointer) = some pointer := by
  obtain ⟨scope, tag, -, hmem⟩ := mem_of_lastPointer h
  exact (hall _ hmem).2

theorem getTagPointer_observed (hm : Mirrors (objectData s) earlier)
    (hall : ∀ c ∈ earlier, Admissible json c) {scope : TagScope} {tag : Str}
    (hpath : parsePath (tagKey scope tag) = some (tagKey scope tag)) :
    Meets (reliable app S caps w) (fun _ => True)
      (Answered objectData earlier (.getTagPointer scope tag))
      (observe (objectStoreStats json) (.getTagPointer scope tag)) s := by
  have hread := hm.read (c := .getTagPointer scope tag) (fun _ => rfl) fun _ => rfl
  have hpointer := hm.pointers scope tag
  rw [objectData] at hpointer
  have hget : Meets (reliable app S caps w) (fun _ => True)
      (fun r t => t = s ∧ r = .ok (lastPointer (tagKey scope tag) earlier))
      (BlobStorage.ObjectStore.getTagPointer json scope tag) s := by
    obtain ⟨found, hfound⟩ := reliableGet_exists (tagKey scope tag) s
    unfold BlobStorage.ObjectStore.getTagPointer
    rw [storagePath, hpath, liftResult_ok_bind]
    refine ⟨trivial, ⟨found, s, rfl, hfound⟩, ?_⟩
    rintro r t ⟨ht, hr⟩
    rw [ht]
    unfold reliableGet at hr
    cases hlast : lastPointer (tagKey scope tag) earlier with
    | none =>
        rw [hlast, Option.map_none, Option.map_eq_none_iff] at hpointer
        rw [hpointer] at hr
        rw [hr]
        exact ⟨rfl, rfl⟩
    | some pointer =>
        obtain ⟨hbound, hback⟩ := pointer_admissible hall hlast
        rw [hlast, Option.map_some, Option.map_eq_some_iff] at hpointer
        obtain ⟨o, hobject, hdata⟩ := hpointer
        rw [hobject] at hr
        obtain ⟨chunks, hchunks, hr⟩ := hr
        rw [hr]
        rw [hdata] at hchunks
        have hsize : ¬ BlobStorage.ObjectStore.maxTagPointerBytes < o.data.length := by
          rw [hdata]
          exact Nat.not_lt.mpr hbound
        have hchunk := @readPointerChunks_ok [] chunks (by rw [hchunks]; simpa using hbound)
        change Meets _ _ _ (if BlobStorage.ObjectStore.maxTagPointerBytes < o.data.length then
          pure none
          else do
            let data ← liftResult
              (BlobStorage.ObjectStore.readPointerChunks [] (chunks.map .ok))
            return data.bind json.pointer : Server (Option TagPointer)) s
        rw [if_neg hsize, hchunk, liftResult_ok_bind, List.nil_append, hchunks]
        exact ⟨rfl, congrArg Except.ok hback⟩
  refine meets_bind hget ?_ ?_
  · rintro found t ⟨ht, hfound⟩
    obtain rfl := Except.ok.inj hfound
    rw [ht]
    exact ⟨rfl, hread⟩
  · rintro e t ⟨_, herror⟩
    cases herror

theorem putTagPointer_observed (hm : Mirrors (objectData s) earlier) {scope : TagScope}
    {tag : Str} (pointer : TagPointer)
    (hpath : parsePath (tagKey scope tag) = some (tagKey scope tag)) :
    Meets (reliable app S caps w) (fun _ => True)
      (Answered objectData earlier (.putTagPointer scope tag pointer))
      (observe (objectStoreStats json) (.putTagPointer scope tag pointer)) s := by
  have hput : Meets (reliable app S caps w) (fun _ => True)
      (fun r t => r = .ok () ∧ t = s.store (tagKey scope tag) ⟨encodePointer pointer, none, w⟩)
      (BlobStorage.ObjectStore.putTagPointer scope tag pointer) s := by
    unfold BlobStorage.ObjectStore.putTagPointer
    rw [storagePath, hpath, liftResult_ok_bind]
    refine ⟨trivial, reliablePut_exists caps w _ _ _ _ s, ?_⟩
    intro r t h
    change reliablePut caps w (tagKey scope tag) (encodePointer pointer) {} .overwrite s r t at h
    have haccepts : caps.accepts {} = true := rfl
    simp only [reliablePut, haccepts, Bool.true_eq_false, if_false, reduceCtorEq, false_and] at h
    rw [h.1, h.2]
    exact ⟨rfl, rfl⟩
  refine meets_bind hput ?_ ?_
  · rintro _ t ⟨_, ht⟩
    refine ⟨rfl, hm.putTagPointer pointer ?_⟩
    intro key
    rw [ht, objectData, State.store_objects]
    split <;> rfl
  · rintro e t ⟨herror, _⟩
    cases herror

/-- Every call of the object store is answered as the history says. -/
theorem objectStore_observed (hm : Mirrors (objectData s) earlier)
    (hall : ∀ c ∈ earlier, Admissible json c) {c : StorageCall} (hc : Admissible json c) :
    Meets (reliable app S caps w) (fun _ => True) (Answered objectData earlier c)
      (observe (objectStoreStats json) c) s := by
  cases c with
  | getBlob digest => exact getBlob_observed hm digest
  | headBlob digest => exact headBlob_observed hm digest
  | putBlob digest contentType data => exact putBlob_observed hm digest contentType data
  | getTagPointer scope tag => exact getTagPointer_observed hm hall hc
  | putTagPointer scope tag pointer => exact putTagPointer_observed hm pointer hc.1

/-- Every call of the cache is answered as the history says. -/
theorem ephemeral_observed (hm : Mirrors (cacheData s) earlier)
    (hall : ∀ c ∈ earlier, Admissible json c) {c : StorageCall} :
    Meets (reliable app S caps w) (fun _ => True) (Answered cacheData earlier c)
      (observe (ephemeralStats json) c) s := by
  cases c with
  | getBlob digest =>
      have hread := hm.read (c := .getBlob digest) (fun _ => rfl) fun _ => rfl
      have hblob := hm.blobs digest
      rw [cacheData] at hblob
      refine ⟨trivial, ⟨_, s, rfl, rfl⟩, ?_⟩
      intro r t ⟨ht, hr⟩
      rw [ht, hr]
      cases hentry : s.cache (blobKey digest) with
      | none =>
          rw [hentry] at hblob
          refine ⟨?_, hread⟩
          rw [answer, ← hblob]
          rfl
      | some entry =>
          rw [hentry] at hblob
          refine ⟨?_, hread⟩
          rw [answer, ← hblob]
          simp
  | headBlob digest =>
      have hread := hm.read (c := .headBlob digest) (fun _ => rfl) fun _ => rfl
      have hblob := hm.blobs digest
      rw [cacheData] at hblob
      refine ⟨trivial, ⟨_, s, rfl, rfl⟩, ?_⟩
      intro r t ⟨ht, hr⟩
      rw [ht, hr]
      refine ⟨?_, hread⟩
      rw [answer, ← hblob, Option.map_map, Option.map_map]
      rfl
  | putBlob digest contentType data =>
      refine ⟨trivial, ⟨(), _, rfl⟩, ?_⟩
      intro r t ht
      change t = s.cacheOrInsert (blobKey digest) ⟨contentType, data⟩ at ht
      refine ⟨rfl, hm.putBlob contentType data ?_⟩
      intro key
      rw [ht, cacheData, State.cacheOrInsert_cache]
      by_cases hkey : key = blobKey digest
      · rw [if_pos hkey, if_pos hkey, hkey, cacheData]
        cases s.cache (blobKey digest) <;> rfl
      · rw [if_neg hkey, if_neg hkey]
        rfl
  | getTagPointer scope tag =>
      have hread := hm.read (c := .getTagPointer scope tag) (fun _ => rfl) fun _ => rfl
      have hpointer := hm.pointers scope tag
      rw [cacheData] at hpointer
      refine ⟨trivial, ⟨_, s, rfl, rfl⟩, ?_⟩
      intro r t ⟨ht, hr⟩
      rw [ht, hr]
      refine ⟨?_, hread⟩
      rw [answer]
      cases hlast : lastPointer (tagKey scope tag) earlier with
      | none =>
          rw [hlast, Option.map_none, Option.map_eq_none_iff] at hpointer
          rw [hpointer]
          rfl
      | some pointer =>
          rw [hlast, Option.map_some, Option.map_eq_some_iff] at hpointer
          obtain ⟨entry, hentry, hdata⟩ := hpointer
          rw [hentry, ← (pointer_admissible hall hlast).2, ← hdata]
          rfl
  | putTagPointer scope tag pointer =>
      refine ⟨trivial, ⟨(), _, rfl⟩, ?_⟩
      intro r t ht
      change t = s.cacheInsert (tagKey scope tag)
        ⟨str "application/json", encodePointer pointer⟩ at ht
      refine ⟨rfl, hm.putTagPointer pointer ?_⟩
      intro key
      rw [ht, cacheData, State.cacheInsert_cache]
      split <;> rfl

end Steps

section Runs
variable {app : AppState} {S : Set Bytes} {caps : Capabilities} {w : Writer} {json : JsonCrate}

/-- A storage each of whose calls is answered as the history says answers a whole sequence so. -/
theorem observeAll_answers {storage : StatStorage} {contents : State → Str → Option Bytes}
    (hstep : ∀ s earlier c, Mirrors (contents s) earlier → (∀ c ∈ earlier, Admissible json c) →
      Admissible json c → Meets (reliable app S caps w) (fun _ => True)
        (Answered contents earlier c) (observe storage c) s)
    {calls earlier : List StorageCall} {s : State} (hm : Mirrors (contents s) earlier)
    (hearlier : ∀ c ∈ earlier, Admissible json c) (hcalls : ∀ c ∈ calls, Admissible json c) :
    Meets (reliable app S caps w) (fun _ => True)
      (fun rs _ => rs = (answers earlier calls).map .ok) (observeAll storage calls) s := by
  induction calls generalizing earlier s with
  | nil => rfl
  | cons c calls ih =>
      have hc := hcalls c List.mem_cons_self
      apply Meets.bind (hstep s earlier c hm hearlier hc)
      intro r t ⟨hr, hmt⟩
      have hearlier' : ∀ c' ∈ earlier ++ [c], Admissible json c' := by
        intro c' hc'
        rcases List.mem_append.mp hc' with hc' | hc'
        · exact hearlier c' hc'
        · rw [List.mem_singleton.mp hc']
          exact hc
      have hrest := ih hmt hearlier' fun c' hc' => hcalls c' (List.mem_cons_of_mem c hc')
      apply hrest.bind
      intro rs _ hrs
      change r :: rs = _
      rw [hr, hrs]
      rfl

theorem observeAll_objectStore {calls : List StorageCall}
    (hcalls : ∀ c ∈ calls, Admissible json c) :
    Meets (reliable app S caps w) (fun _ => True) (fun rs _ => rs = (answers [] calls).map .ok)
      (observeAll (objectStoreStats json) calls) State.empty :=
  @observeAll_answers app S caps w json _ objectData
    (fun _ _ _ hm hall hc => objectStore_observed hm hall hc) calls [] State.empty mirrors_empty
    (fun _ hc => absurd hc List.not_mem_nil) hcalls

theorem observeAll_ephemeral {calls : List StorageCall}
    (hcalls : ∀ c ∈ calls, Admissible json c) :
    Meets (reliable app S caps w) (fun _ => True) (fun rs _ => rs = (answers [] calls).map .ok)
      (observeAll (ephemeralStats json) calls) State.empty :=
  @observeAll_answers app S caps w json _ cacheData
    (fun _ _ _ hm hall _ => ephemeral_observed hm hall) calls [] State.empty mirrors_empty
    (fun _ hc => absurd hc List.not_mem_nil) hcalls

/-- The pointer that was last put for this scope and tag. -/
def scopePut (scope : TagScope) (tag : Str) : StorageCall → Option TagPointer
  | .putTagPointer scope' tag' pointer =>
    if scope' = scope ∧ tag' = tag then some pointer else none
  | _ => none

def lastPointerOf (scope : TagScope) (tag : Str) (earlier : List StorageCall) :
    Option TagPointer := (earlier.filterMap (scopePut scope tag)).getLast?

/-- The hosts and tags of a call are single segments. -/
def SingleSegments : StorageCall → Prop
  | .getTagPointer scope tag | .putTagPointer scope tag _ => '/' ∉ scope.proxyHost ∧ '/' ∉ tag
  | _ => True

/-- Keys of single segments belong to one scope and tag. -/
theorem lastPointer_eq_lastPointerOf {scope : TagScope} {tag : Str} {earlier : List StorageCall}
    (hhost : '/' ∉ scope.proxyHost) (htag : '/' ∉ tag) (h : ∀ c ∈ earlier, SingleSegments c) :
    lastPointer (tagKey scope tag) earlier = lastPointerOf scope tag earlier := by
  have hput : ∀ c ∈ earlier, pointerPut (tagKey scope tag) c = scopePut scope tag c := by
    intro c hc
    cases c with
    | putTagPointer scope' tag' pointer =>
        obtain ⟨hhost', htag'⟩ := h _ hc
        have hkey : tagKey scope' tag' = tagKey scope tag ↔ scope' = scope ∧ tag' = tag := by
          constructor
          · exact tagKey_inj hhost' hhost htag' htag
          · intro ⟨hscope, htag⟩
            rw [hscope, htag]
        simp only [pointerPut, scopePut, hkey]
    | _ => rfl
  rw [lastPointer, lastPointerOf, List.filterMap_congr hput]

end Runs

section Results

/-- Over every sequence of calls both storages answer what the history says: the first blob of a
digest, and the last pointer of a key. That is the last pointer of the host, name and tag where
hosts and tags have no slash in them. -/
theorem storages_agree (app : AppState) (S : Set Bytes) (caps : Capabilities) (w : Writer)
    (json : JsonCrate) {calls : List StorageCall} (hcalls : ∀ c ∈ calls, Admissible json c) :
    Meets (reliable app S caps w) (fun _ => True) (fun rs _ => rs = (answers [] calls).map .ok)
        (observeAll (objectStoreStats json) calls) State.empty ∧
      Meets (reliable app S caps w) (fun _ => True) (fun rs _ => rs = (answers [] calls).map .ok)
        (observeAll (ephemeralStats json) calls) State.empty ∧
      ∀ scope tag, '/' ∉ scope.proxyHost → '/' ∉ tag → (∀ c ∈ calls, SingleSegments c) →
        ∀ earlier, earlier <+: calls →
          lastPointer (tagKey scope tag) earlier = lastPointerOf scope tag earlier := by
  refine ⟨?_, ?_, ?_⟩
  · exact observeAll_objectStore hcalls
  · exact observeAll_ephemeral hcalls
  · intro scope tag hhost htag hsingle earlier hinit
    exact lastPointer_eq_lastPointerOf hhost htag fun c hc => hsingle c (hinit.subset hc)

def demoPointer (size : ℕ) : TagPointer := ⟨digestOf '0' (Eq.refl true), mediaTypeManifest, size⟩

def demoScope : TagScope := ⟨str "proxy.test", str "a.io/b"⟩

theorem admissible_demoPointer {scope : TagScope} {tag : Str}
    (hpath : parsePath (tagKey scope tag) = some (tagKey scope tag)) {size : ℕ}
    (hsize : size < 2 ^ 64) (hbound : (encodePointer (demoPointer size)).length ≤
      BlobStorage.ObjectStore.maxTagPointerBytes) :
    Admissible plainCrates.json (.putTagPointer scope tag (demoPointer size)) :=
  ⟨hpath, hbound, (compactJson_laws _).pointer _ List.mem_cons_self hsize⟩

/-- Two blobs for one digest and two pointers for one tag. -/
def repeatedCalls : List StorageCall :=
  [.putBlob (digestOf '0' (Eq.refl true)) (str "text/plain") [1],
    .putBlob (digestOf '0' (Eq.refl true)) (str "text/html") [2, 3],
    .putTagPointer demoScope (str "c") (demoPointer 1),
    .putTagPointer demoScope (str "c") (demoPointer 2),
    .getBlob (digestOf '0' (Eq.refl true)), .headBlob (digestOf '0' (Eq.refl true)),
    .getTagPointer demoScope (str "c")]

/-- A pointer for a tag with a slash goes where another name's pointer is. -/
def collidingCalls : List StorageCall :=
  [.putTagPointer demoScope (str "c") (demoPointer 1),
    .putTagPointer ⟨str "proxy.test", str "a.io"⟩ (str "b/c") (demoPointer 2),
    .getTagPointer demoScope (str "c")]

theorem admissible_collidingCalls : ∀ c ∈ collidingCalls, Admissible plainCrates.json c := by
  intro c hc
  simp only [collidingCalls, List.mem_cons, List.not_mem_nil, or_false] at hc
  rcases hc with rfl | rfl | rfl
  · exact admissible_demoPointer (by decide) (by decide) (by decide +kernel)
  · exact admissible_demoPointer (by decide) (by decide) (by decide +kernel)
  · show parsePath _ = _
    decide

/-- A backend without attributes and without conditional creation. -/
def poorest : Capabilities := ⟨false, false, false⟩

/-- Both storages answer with the pointer of the other name. -/
theorem collidingCalls_answered :
    (∀ c ∈ collidingCalls, Admissible plainCrates.json c) ∧
      lastPointerOf demoScope (str "c") collidingCalls = some (demoPointer 1) ∧
      demoPointer 1 ≠ demoPointer 2 ∧
      ∀ storage ∈ [objectStoreStats plainCrates.json, ephemeralStats plainCrates.json],
        Meets (reliable plainState ∅ poorest .classic) (fun _ => True)
          (fun rs _ => rs.getLast? = some (.ok (.pointer (some (demoPointer 2)))))
          (observeAll storage collidingCalls) State.empty := by
  refine ⟨admissible_collidingCalls, rfl, by decide, ?_⟩
  have hlast : ((answers [] collidingCalls).map Except.ok).getLast? =
      some (Except.ok (Observation.pointer (some (demoPointer 2))) :
        Except AppError Observation) := rfl
  intro storage hstorage
  simp only [List.mem_cons, List.not_mem_nil, or_false] at hstorage
  rcases hstorage with rfl | rfl
  · apply (observeAll_objectStore admissible_collidingCalls).conseq (fun _ h => h)
    intro rs _ hrs
    rw [hrs]
    exact hlast
  · apply (observeAll_ephemeral admissible_collidingCalls).conseq (fun _ h => h)
    intro rs _ hrs
    rw [hrs]
    exact hlast

/-- What the repeated calls are answered. -/
def repeatedAnswers : List (Except AppError Observation) :=
  [.ok .written, .ok .written, .ok .written, .ok .written, .ok (.blob (some (1, [1]))),
    .ok (.size (some 1)), .ok (.pointer (some (demoPointer 2)))]

theorem storages_agree_repeated :
    Meets (reliable plainState ∅ poorest .classic) (fun _ => True)
        (fun rs _ => rs = repeatedAnswers)
        (observeAll (objectStoreStats plainCrates.json) repeatedCalls) State.empty ∧
      Meets (reliable plainState ∅ poorest .classic) (fun _ => True)
        (fun rs _ => rs = repeatedAnswers)
        (observeAll (ephemeralStats plainCrates.json) repeatedCalls) State.empty := by
  have hall : ∀ c ∈ repeatedCalls, Admissible plainCrates.json c := by
    intro c hc
    simp only [repeatedCalls, List.mem_cons, List.not_mem_nil, or_false] at hc
    rcases hc with rfl | rfl | rfl | rfl | rfl | rfl | rfl
    · trivial
    · trivial
    · exact admissible_demoPointer (by decide) (by decide) (by decide +kernel)
    · exact admissible_demoPointer (by decide) (by decide) (by decide +kernel)
    · trivial
    · trivial
    · show parsePath _ = _
      decide
  obtain ⟨hobjects, hcache, -⟩ :=
    storages_agree plainState ∅ poorest .classic plainCrates.json hall
  exact ⟨hobjects, hcache⟩

end Results

end Helmoci.StorageHistories
