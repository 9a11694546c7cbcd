import Helmoci.ClassicHandler
import Helmoci.PassthroughHandler
import Helmoci.StorageKeys

/-!
# What the handlers keep in the stores

Entries are kept in the object store, in the in-memory cache and among the cached indexes.
A permit says what may be kept: which bytes under a digest, which pointers under the one
tag of a request, and what else may be called. Every call of a handler is within a permit
that allows what the handler's own checks establish.
-/
namespace Helmoci.StoredEntries
open RustText NameResolver OciDigest JsonDocuments ServerErrors EffectPrograms Helmoci.Configuration
  ServerOperations UpstreamRequests ClassicUpstream RegistryTokens BlobStorage RegistryResponses
  ChartIndex ChartBuild ServerState ClassicHandler

inductive Entry where
  | object (path : Str) (data : Bytes)
  | cached (key : Str) (data : Bytes)
  | index (key text : Str)
deriving DecidableEq

def Entry.key : Entry → Str
  | object path _ => path
  | cached key _ => key
  | index key _ => key

def Entry.data : Entry → Bytes
  | object _ data => data
  | cached _ data => data
  | index _ text => Utf8.asBytes text

/-- What a call leaves in a store, if it leaves anything. -/
def stored : Op → Option Entry
  | .put path data _ _ => some (.object path data)
  | .cacheOrInsert key entry | .cacheInsert key entry => some (.cached key entry.data)
  | .indexInsert key text => some (.index key text)
  | _ => none

/-- What a call has read to its end. -/
def found : Call Op Ans → Option Entry
  | ⟨.get path, .ok result⟩ =>
    (result.chunks.mapM Except.toOption).map fun chunks => .object path chunks.flatten
  | ⟨.cacheGet key, some entry⟩ => some (.cached key entry.data)
  | ⟨.indexGet key, some text⟩ => some (.index key text)
  | _ => none

/-- Stores that hold only what was stored in them. They may refuse and forget as they like. -/
structure Keeps {S : Type} (W : World Op Ans S) (holds : S → Entry → Prop) : Prop where
  kept : ∀ {op s r t e}, W op s r t → holds t e → holds s e ∨ stored op = some e

/-- Stores that also find only what they hold, if anything. -/
structure Honest {S : Type} (W : World Op Ans S) (holds : S → Entry → Prop) : Prop
    extends Keeps W holds where
  found : ∀ {op s r t e}, W op s r t → found ⟨op, r⟩ = some e → holds s e

/-- Stores as entries that are never forgotten. -/
def entryStore : World Op Ans (List Entry) := fun op s r t =>
  (∀ e, found ⟨op, r⟩ = some e → e ∈ s) ∧ (t = s ∨ ∃ e, stored op = some e ∧ t = e :: s)

theorem entryStore_honest : Honest entryStore fun s e => e ∈ s where
  kept := by
    intro op s r t e ⟨_, ht⟩ he
    rcases ht with rfl | ⟨e', hs, rfl⟩
    · exact Or.inl he
    · rcases List.mem_cons.mp he with rfl | he
      · exact Or.inr hs
      · exact Or.inl he
  found := by
    intro op s r t e ⟨hf, _⟩ he
    exact hf e he

structure Permit where
  blob : Digest → Bytes → Prop
  /-- The tag whose pointer may be used. -/
  tag : Option (TagScope × Str)
  pointer : TagPointer → Prop
  /-- The calls that reach neither the object store nor the cache. -/
  remote : Op → Prop

namespace Permit

def tagPath (permit : Permit) (path : Str) : Prop :=
  ∃ scope tag, permit.tag = some (scope, tag) ∧ parsePath (tagKey scope tag) = some path

def tagCacheKey (permit : Permit) (key : Str) : Prop :=
  ∃ scope tag, permit.tag = some (scope, tag) ∧ key = tagKey scope tag

def pointerData (permit : Permit) (data : Bytes) : Prop :=
  ∃ pointer, permit.pointer pointer ∧ data = encodePointer pointer

def allows (permit : Permit) : Op → Prop
  | .head path => ∃ digest, path = blobKey digest
  | .get path => (∃ digest, path = blobKey digest) ∨ permit.tagPath path
  | .put path data _ _ => (∃ digest, path = blobKey digest ∧ permit.blob digest data) ∨
      permit.tagPath path ∧ permit.pointerData data
  | .cacheGet key => (∃ digest, key = blobKey digest) ∨ permit.tagCacheKey key
  | .cacheOrInsert key entry => ∃ digest, key = blobKey digest ∧ permit.blob digest entry.data
  | .cacheInsert key entry => permit.tagCacheKey key ∧ permit.pointerData entry.data
  | .turn => True
  | op => permit.remote op

end Permit

section Storage
variable {R : (op : Op) → Ans op → Prop} {permit : Permit} {digest : Digest} {contentType : Str}
  {data : Bytes} {scope : TagScope} {tag : Str} {pointer : TagPointer} {json : JsonCrate}

/-- What a storage does is allowed. -/
structure Within (R : (op : Op) → Ans op → Prop) (permit : Permit) (st : Storage) : Prop where
  getBlob : ∀ digest, Ensures R permit.allows (OnOk fun _ => True) (st.getBlob digest)
  putBlob : ∀ {digest data}, permit.blob digest data → ∀ contentType,
    Ensures R permit.allows (OnOk fun _ => True) (st.putBlob digest contentType data)
  getTagPointer : ∀ {scope tag}, permit.tag = some (scope, tag) →
    Ensures R permit.allows (OnOk fun _ => True) (st.getTagPointer scope tag)
  putTagPointer : ∀ {scope tag pointer}, permit.tag = some (scope, tag) → permit.pointer pointer →
    Ensures R permit.allows (OnOk fun _ => True) (st.putTagPointer scope tag pointer)

section Writes
variable {P : Op → Prop}

theorem alreadyStored_ensures (hhead : P (.head (blobKey digest))) :
    Ensures R P (fun r => ∃ found, r = .ok found)
      (ObjectStore.alreadyStored (blobKey digest)) := by
  refine ensures_bind_call hhead ?_
  intro r _
  cases r with
  | ok _ => exact ⟨true, rfl⟩
  | error _ => exact ⟨false, rfl⟩

theorem putOnce_ensures {attributes : Attributes} {mode : PutMode}
    (hput : P (.put (blobKey digest) data attributes mode)) :
    Ensures R P (fun r => ∃ written, r = .ok written)
      (ObjectStore.putOnce (blobKey digest) data attributes mode) := by
  refine ensures_bind_call hput ?_
  intro r _
  cases r with
  | ok _ => exact ⟨_, rfl⟩
  | error e => cases e <;> exact ⟨_, rfl⟩

theorem putRungs_ensures {mode : PutMode} {rungs : List Attributes} {last : Attributes}
    (hput : ∀ attributes ∈ last :: rungs, P (.put (blobKey digest) data attributes mode)) :
    Ensures R P (fun r => ∃ written, r = .ok written)
      (ObjectStore.putRungs (blobKey digest) data mode rungs last) := by
  induction rungs with
  | nil => exact putOnce_ensures (hput last List.mem_cons_self)
  | cons attributes rungs ih =>
      have hrest : ∀ a ∈ last :: rungs, P (.put (blobKey digest) data a mode) := by
        intro a ha
        apply hput
        rcases List.mem_cons.mp ha with rfl | ha
        · exact List.mem_cons_self
        · exact List.mem_cons_of_mem _ (List.mem_cons_of_mem _ ha)
      refine ensures_server_bind (putOnce_ensures (hput attributes (by simp))) ?_ ?_
      · intro written _
        cases written with
        | ok _ => exact ⟨_, rfl⟩
        | error e =>
            dsimp only
            split
            · exact ih hrest
            · exact ⟨_, rfl⟩
      · intro e ⟨_, he⟩
        cases he

/-- A blob is written by probes and puts at its own key, with its own content type or none, and
fails with its own error. -/
theorem putBlob_ensures (hhead : P (.head (blobKey digest)))
    (hput : ∀ attributes mode, (∀ c ∈ attributes.contentType, c = contentType) →
      P (.put (blobKey digest) data attributes mode)) : Ensures R P (fun r => ∀ e, r = .error e → e = storageError .blobWrite)
      (ObjectStore.putBlob digest contentType data) := by
  have hnofail : ∀ {A : Type} (e : AppError), (∃ a : A, (.error e : Except AppError A) = .ok a) →
      ∀ e' : AppError, (.error e : Except AppError Unit) = .error e' →
        e' = storageError .blobWrite := by
    intro A e ⟨_, he⟩
    cases he
  have hrungs : ∀ mode, ∀ attributes ∈ ({} : Attributes) ::
      ObjectStore.blobAttributeRungs digest contentType,
      P (.put (blobKey digest) data attributes mode) := by
    intro mode attributes ha
    apply hput
    simp only [ObjectStore.blobAttributeRungs, List.mem_cons, List.not_mem_nil, or_false] at ha
    rcases ha with rfl | rfl | rfl <;> simp
  unfold ObjectStore.putBlob
  rw [storagePath_blobKey, liftResult_ok_bind]
  refine ensures_server_bind (alreadyStored_ensures hhead) ?_ hnofail
  intro found _
  split
  · exact nofun
  · refine ensures_server_bind (putRungs_ensures (hrungs _)) ?_ hnofail
    intro written _
    cases written with
    | ok _ => exact nofun
    | error e =>
        dsimp only
        split
        · refine ensures_server_bind (alreadyStored_ensures hhead) ?_ hnofail
          intro found _
          split
          · exact nofun
          · refine ensures_server_bind (putRungs_ensures (hrungs _)) ?_ hnofail
            intro written _
            cases written with
            | ok _ => exact nofun
            | error _ => exact fun e he => (Except.error.inj he).symm
        · exact fun e he => (Except.error.inj he).symm

end Writes

theorem putBlob_allowed (h : permit.blob digest data) (contentType : Str) :
    Ensures R permit.allows (OnOk fun _ => True)
      (ObjectStore.putBlob digest contentType data) :=
  (putBlob_ensures ⟨digest, rfl⟩ fun _ _ _ => Or.inl ⟨digest, rfl, h⟩).conseq
    (fun _ hop => hop) fun r _ => onOk_true r

theorem storagePath_tagKey {op : StorageOp} {path : Str}
    (h : storagePath op (tagKey scope tag) = .ok path) :
    parsePath (tagKey scope tag) = some path := by
  unfold storagePath at h
  split at h
  · contradiction
  · rename_i hp
    cases h
    exact hp

theorem objectStore_within (json : JsonCrate) : Within R permit (objectStoreStorage json) where
  getBlob := by
    intro digest
    change Ensures R permit.allows (OnOk fun _ => True) (ObjectStore.getBlob digest)
    unfold ObjectStore.getBlob
    rw [storagePath_blobKey, liftResult_ok_bind]
    refine ensures_bind (ensures_perform (Or.inl ⟨digest, rfl⟩)) ?_
    intro r _
    cases r with
    | ok result => trivial
    | error e => cases e <;> trivial
  putBlob := putBlob_allowed
  getTagPointer := by
    intro scope tag htag
    change Ensures R permit.allows (OnOk fun _ => True) (ObjectStore.getTagPointer json scope tag)
    refine ensures_bind (ensures_liftResult fun _ hp => storagePath_tagKey hp) ?_
    intro path hpath
    refine ensures_bind (ensures_perform (Or.inr ⟨scope, tag, htag, hpath⟩)) ?_
    intro r _
    cases r with
    | ok result =>
        dsimp only
        split
        · trivial
        · exact ensures_bind (Q := fun _ => True) (ensures_liftResult fun _ _ => trivial)
            fun _ _ => trivial
    | error e => cases e <;> trivial
  putTagPointer := by
    intro scope tag pointer htag hpointer
    refine ensures_bind (ensures_liftResult fun _ hp => storagePath_tagKey hp) ?_
    intro path hpath
    refine ensures_bind (ensures_perform
      (Or.inr ⟨⟨scope, tag, htag, hpath⟩, pointer, hpointer, rfl⟩)) ?_
    intro r _
    cases r <;> trivial

theorem ephemeral_within (json : JsonCrate) : Within R permit (ephemeralStorage json) where
  getBlob := by
    intro digest
    refine ensures_bind (ensures_perform (Or.inl ⟨digest, rfl⟩)) ?_
    intro r _
    cases r <;> trivial
  putBlob := by
    intro digest data h contentType
    exact ⟨⟨digest, rfl, h⟩, fun _ _ => trivial⟩
  getTagPointer := by
    intro scope tag htag
    refine ensures_bind (ensures_perform (Or.inr ⟨scope, tag, htag, rfl⟩)) ?_
    intro r _
    trivial
  putTagPointer := by
    intro scope tag pointer htag hpointer
    exact ⟨⟨⟨scope, tag, htag, rfl⟩, pointer, hpointer, rfl⟩, fun _ _ => trivial⟩

end Storage

end Helmoci.StoredEntries
