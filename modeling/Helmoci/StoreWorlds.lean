import Helmoci.ClassicHandler
import Helmoci.PassthroughHandler

/-!
# Worlds that hold the storage

The state is what the object store and the in-memory cache hold. In a reliable world
no call of the storage fails, though a backend may refuse attributes or conditional
creation, and a stored body arrives in any chunks. In a faulty world each call may fail
as well, with a write done or not. Upstreams answer anything, as long as the bytes that
the server makes of it stay within a given set, on which the hash is taken to be
injective.
-/
namespace Helmoci.StoreWorlds
open RustText OciDigest JsonDocuments ServerErrors EffectPrograms ServerOperations UpstreamRequests
  BlobStorage ChartBuild ServerState ClassicHandler

inductive Writer where
  | classic
  | passthrough
deriving DecidableEq, Repr

/-- A stored object, with the handler that stored it. -/
structure Object where
  data : Bytes
  contentType : Option Str
  writer : Writer
deriving DecidableEq, Repr

structure State where
  objects : Str → Option Object
  cache : Str → Option CacheEntry

namespace State

def empty : State := ⟨fun _ => none, fun _ => none⟩

def store (s : State) (path : Str) (o : Object) : State :=
  {s with objects := fun p => if p = path then some o else s.objects p}

def cacheInsert (s : State) (key : Str) (entry : CacheEntry) : State :=
  {s with cache := fun k => if k = key then some entry else s.cache k}

/-- An entry that is there stays as it is. -/
def cacheOrInsert (s : State) (key : Str) (entry : CacheEntry) : State :=
  if (s.cache key).isSome then s else s.cacheInsert key entry

@[simp] theorem store_objects (s : State) (path : Str) (o : Object) (p : Str) :
    (s.store path o).objects p = if p = path then some o else s.objects p := rfl

@[simp] theorem store_cache (s : State) (path : Str) (o : Object) :
    (s.store path o).cache = s.cache := rfl

@[simp] theorem cacheInsert_objects (s : State) (key : Str) (entry : CacheEntry) :
    (s.cacheInsert key entry).objects = s.objects := rfl

@[simp] theorem cacheInsert_cache (s : State) (key : Str) (entry : CacheEntry) (k : Str) :
    (s.cacheInsert key entry).cache k = if k = key then some entry else s.cache k := rfl

@[simp] theorem cacheOrInsert_objects (s : State) (key : Str) (entry : CacheEntry) :
    (s.cacheOrInsert key entry).objects = s.objects := by
  unfold cacheOrInsert
  split <;> rfl

theorem cacheOrInsert_cache (s : State) (key : Str) (entry : CacheEntry) (k : Str) :
    (s.cacheOrInsert key entry).cache k = if k = key then some ((s.cache key).getD entry) else s.cache k := by
  unfold cacheOrInsert
  split
  · rename_i h
    obtain ⟨e, he⟩ := Option.isSome_iff_exists.mp h
    split
    · rename_i hk
      rw [hk, he]
      rfl
    · rfl
  · rename_i h
    have hn : s.cache key = none := by simpa using h
    rw [cacheInsert_cache, hn]
    rfl

end State

/-- What the server makes of the bytes that an upstream delivers. -/
def handled (app : AppState) (body : Bytes) : Set Bytes :=
  {b | b = body ∨ ∃ proxyHost built, buildChart app proxyHost body = .ok built ∧
    b ∈ [built.configBytes, built.layerBytes, built.manifestBytes]}

/-- An upstream's answer all of whose bytes are in the set. -/
def AnswerWithin (app : AppState) (S : Set Bytes) (op : Op) (r : Ans op) : Prop :=
  match op, r with
  | .http _, .ok response => handled app (responseBytes response) ⊆ S
  | _, _ => True

/-- What a backend can keep, and whether it can create without overwriting. -/
structure Capabilities where
  metadata : Bool
  contentType : Bool
  conditionalCreate : Bool

def Capabilities.accepts (caps : Capabilities) (attributes : Attributes) : Bool :=
  (attributes.dockerContentDigest.isNone || caps.metadata) &&
    (attributes.contentType.isNone || caps.contentType)

/-- A write that fails only for what the backend cannot do. -/
def reliablePut (caps : Capabilities) (w : Writer) (path : Str) (data : Bytes)
    (attributes : Attributes) (mode : PutMode) (s : State) (r : Except ObjectError Unit)
    (t : State) : Prop :=
  if caps.accepts attributes = false then
    (r = .error .notSupported ∨ r = .error .notImplemented) ∧ t = s
  else if mode = .create ∧ caps.conditionalCreate = false then
    (r = .error .notSupported ∨ r = .error .notImplemented ∨ r = .error .generic) ∧ t = s
  else if mode = .create ∧ (s.objects path).isSome = true then r = .error .alreadyExists ∧ t = s
  else r = .ok () ∧ t = s.store path ⟨data, attributes.contentType, w⟩

/-- The object that is read, in chunks. -/
def reliableGet (path : Str) (s : State) (r : Except ObjectError GetResult) : Prop :=
  match s.objects path with
  | none => r = .error .notFound
  | some o => ∃ chunks : List Bytes, chunks.flatten = o.data ∧
      r = .ok ⟨o.data.length, o.contentType, chunks.map .ok⟩

/-- The answers of a world whose storage does not fail. -/
def reliable (app : AppState) (S : Set Bytes) (caps : Capabilities) (w : Writer) :
    World Op Ans State
  | .head path, s, r, t =>
    t = s ∧ r = (s.objects path).elim (.error .notFound) fun o => .ok o.data.length
  | .get path, s, r, t => t = s ∧ reliableGet path s r
  | .put path data attributes mode, s, r, t => reliablePut caps w path data attributes mode s r t
  | .cacheGet key, s, r, t => t = s ∧ r = s.cache key
  | .cacheOrInsert key entry, s, _, t => t = s.cacheOrInsert key entry
  | .cacheInsert key entry, s, _, t => t = s.cacheInsert key entry
  | .http request, s, r, t => t = s ∧ AnswerWithin app S (.http request) r
  | _, s, _, t => t = s

section Reliable
variable {app : AppState} {S : Set Bytes} {caps : Capabilities} {w : Writer} {s : State}

/-- A new object, or no change and an error that may come. -/
inductive PutOutcome (s : State) (path : Str) (data : Bytes) (w : Writer)
    (mayFail : ObjectError → Prop) : Except AppError (Except ObjectError Unit) → State → Prop
  | stored (contentType : Option Str) :
      PutOutcome s path data w mayFail (.ok (.ok ())) (s.store path ⟨data, contentType, w⟩)
  | refused {e : ObjectError} (h : mayFail e) : PutOutcome s path data w mayFail (.ok (.error e)) s

theorem alreadyStored_reliable (path : Str) :
    Meets (reliable app S caps w) (fun _ => True)
      (fun r t => r = .ok (s.objects path).isSome ∧ t = s) (ObjectStore.alreadyStored path) s := by
  refine ⟨trivial, ⟨_, s, rfl, rfl⟩, ?_⟩
  intro r t ⟨ht, hr⟩
  rw [ht, hr]
  cases s.objects path with
  | none => exact ⟨rfl, rfl⟩
  | some o => exact ⟨rfl, rfl⟩

theorem reliablePut_exists (caps : Capabilities) (w : Writer) (path : Str) (data : Bytes)
    (attributes : Attributes) (mode : PutMode) (s : State) :
    ∃ r t, reliablePut caps w path data attributes mode s r t := by
  unfold reliablePut
  split
  · exact ⟨_, s, Or.inl rfl, rfl⟩
  · split
    · exact ⟨_, s, Or.inl rfl, rfl⟩
    · split
      · exact ⟨_, s, rfl, rfl⟩
      · exact ⟨_, _, rfl, rfl⟩

theorem putOnce_reliable {path : Str} (habsent : s.objects path = none) (data : Bytes)
    (attributes : Attributes) (mode : PutMode) :
    Meets (reliable app S caps w) (fun _ => True)
      (PutOutcome s path data w fun e =>
        (caps.accepts attributes = false ∧ ObjectStore.unsupportedCapability e = true) ∨
        (mode = .create ∧ ObjectStore.conditionalCreateUnsupported e = true))
      (ObjectStore.putOnce path data attributes mode) s := by
  refine ⟨trivial, reliablePut_exists caps w path data attributes mode s, ?_⟩
  intro r t h
  change reliablePut caps w path data attributes mode s r t at h
  unfold reliablePut at h
  split at h
  · rename_i haccepts
    obtain ⟨rfl | rfl, rfl⟩ := h
    · exact .refused (Or.inl ⟨haccepts, rfl⟩)
    · exact .refused (Or.inl ⟨haccepts, rfl⟩)
  · split at h
    · rename_i hcreate
      obtain ⟨rfl | rfl | rfl, rfl⟩ := h
      · exact .refused (Or.inr ⟨hcreate.1, rfl⟩)
      · exact .refused (Or.inr ⟨hcreate.1, rfl⟩)
      · exact .refused (Or.inr ⟨hcreate.1, rfl⟩)
    · split at h
      · rename_i hpresent
        rw [habsent] at hpresent
        cases hpresent.2
      · obtain ⟨rfl, rfl⟩ := h
        exact .stored _

/-- The last rung asks for nothing that a backend may lack but conditional creation. -/
theorem putRungs_reliable {path : Str} (habsent : s.objects path = none) (data : Bytes)
    (mode : PutMode) (rungs : List Attributes) :
    Meets (reliable app S caps w) (fun _ => True)
      (PutOutcome s path data w fun e =>
        mode = .create ∧ ObjectStore.conditionalCreateUnsupported e = true)
      (ObjectStore.putRungs path data mode rungs {}) s := by
  induction rungs with
  | nil =>
      apply (putOnce_reliable habsent data {} mode).conseq
      · exact fun _ h => h
      · intro r t h
        cases h with
        | stored contentType => exact .stored contentType
        | refused he =>
            rcases he with ⟨haccepts, -⟩ | he
            · cases haccepts
            · exact .refused he
  | cons attributes rungs ih =>
      refine meets_bind (putOnce_reliable habsent data attributes mode) ?_ ?_
      · intro r t h
        cases h with
        | stored contentType => exact .stored contentType
        | @refused e he =>
            dsimp only
            split
            · exact ih
            · rename_i hunsupported
              rcases he with ⟨-, he⟩ | he
              · exact absurd he hunsupported
              · exact .refused he
      · intro e t h
        cases h

/-- A blob that is not there is stored under its key, and nothing else changes. -/
theorem putBlob_reliable {digest : Digest} (habsent : s.objects (blobKey digest) = none)
    (contentType : Str) (data : Bytes) :
    Meets (reliable app S caps w) (fun _ => True)
      (fun r t => r = .ok () ∧ ∃ kept, t = s.store (blobKey digest) ⟨data, kept, w⟩)
      (ObjectStore.putBlob digest contentType data) s := by
  unfold ObjectStore.putBlob
  rw [storagePath_blobKey, liftResult_ok_bind]
  refine meets_bind (alreadyStored_reliable _) ?_ ?_
  · intro found t ⟨hfound, ht⟩
    subst ht
    rw [habsent] at hfound
    obtain rfl : found = false := Except.ok.inj hfound
    refine meets_bind (putRungs_reliable habsent data .create _) ?_ ?_
    · intro r t h
      cases h with
      | stored kept => exact ⟨rfl, kept, rfl⟩
      | @refused e he =>
          dsimp only
          rw [if_pos he.2]
          refine meets_bind (alreadyStored_reliable _) ?_ ?_
          · intro found t ⟨hfound, ht⟩
            subst ht
            rw [habsent] at hfound
            obtain rfl : found = false := Except.ok.inj hfound
            refine meets_bind (putRungs_reliable habsent data .overwrite _) ?_ ?_
            · intro r t h
              cases h with
              | stored kept => exact ⟨rfl, kept, rfl⟩
              | refused he => cases he.1
            · intro e t h
              cases h
          · intro e t h
            cases h.1
    · intro e t h
      cases h
  · intro e t h
    cases h.1

end Reliable

end Helmoci.StoreWorlds
