import Helmoci.BlobStorage
import Helmoci.CallRecords
import Helmoci.PlainCrates

/-!
# Blobs are written once

Any number of writers of one digest probe and create in turns. In a store that creates
atomically the first successful create stays, and the others find it. An unconditional
write needs an answer that such a store never gives: that it cannot create at all. In any
store an error that says something else ends the call.
-/
namespace Helmoci.WriteOnce
open RustText OciDigest ServerErrors EffectPrograms InterleavedPrograms CallRecords ServerOperations
  BlobStorage ObjectStore PlainCrates

structure Payload where
  data : Bytes
  attributes : Attributes
deriving DecidableEq

/-- A store that creates atomically and refuses attributes only as unsupported. A probe may
fail as it likes. -/
structure CreatesAtomically {S : Type} (W : World Op Ans S) (objects : S → Str → Option Payload) :
    Prop where
  head : ∀ {path s r t}, W (.head path) s r t →
    objects t = objects s ∧ ∀ size, r = .ok size → (objects s path).isSome = true
  create : ∀ {path data attributes s r t}, W (.put path data attributes .create) s r t →
    (attributes ≠ {} ∧ (r = .error .notSupported ∨ r = .error .notImplemented) ∧
      objects t = objects s) ∨
    ((objects s path).isSome = true ∧ r = .error .alreadyExists ∧ objects t = objects s) ∨
    (objects s path = none ∧ r = .ok () ∧
      objects t = Function.update (objects s) path (some ⟨data, attributes⟩))

/-- Calls of `put_blob` for one digest, with any payloads. -/
def PutsBlob (digest : Digest) (_ : Unit) (p : Program Op Ans (Except AppError Unit)) : Prop :=
  ∃ contentType data, p = putBlob digest contentType data

def overwrites : Op → Bool
  | .put _ _ _ .overwrite => true
  | _ => false

/-- What was stored under a path, in order. -/
def written (path : Str) (cs : List (Call Op Ans)) : List Payload :=
  cs.filterMap fun c =>
    match c with
    | ⟨.put p data attributes _, .ok ()⟩ => if p = path then some ⟨data, attributes⟩ else none
    | _ => none

theorem written_concat (path : Str) (cs : List (Call Op Ans)) (c : Call Op Ans) :
    written path (cs ++ [c]) = written path cs ++ written path [c] := List.filterMap_append

section Atomic
variable {S : Type} {W : World Op Ans S} {objects : S → Str → Option Payload} {path : Str}

/-- Probes and creations under the path. -/
def Creating (path : Str) : Op → Prop
  | .head p => p = path
  | .put p _ _ .create => p = path
  | _ => False

def Kept (objects : S → Str → Option Payload) (path : Str) (s t : S × List (Call Op Ans)) : Prop :=
  ∀ o, objects s.1 path = some o → objects t.1 path = some o

def Present (objects : S → Str → Option Payload) (path : Str) (s : S × List (Call Op Ans)) : Prop :=
  (objects s.1 path).isSome = true

/-- What is there now was there in the beginning or has been written since, and only
probes and creations were made. -/
def Accounted (objects : S → Str → Option Payload) (path : Str) (s₀ : S)
    (s : S × List (Call Op Ans)) : Prop :=
  (objects s.1 path).toList = (objects s₀ path).toList ++ written path s.2 ∧
    ∀ c ∈ s.2, overwrites c.op = false

def createOnly (W : World Op Ans S) (path : Str) : Guarantee Op Ans (S × List (Call Op Ans)) :=
  fun op s r t => Creating path op ∧ recorded W op s r t

theorem Kept.present {s t : S × List (Call Op Ans)} (h : Kept objects path s t)
    (hs : Present objects path s) : Present objects path t := by
  obtain ⟨o, ho⟩ := Option.isSome_iff_exists.mp hs
  exact Option.isSome_iff_exists.mpr ⟨o, h o ho⟩

/-- One call keeps what is there and accounts for what it stores. -/
theorem createOnly_kept (hW : CreatesAtomically W objects) {s₀ : S} {op : Op}
    {s t : S × List (Call Op Ans)} {r : Ans op} (h : createOnly W path op s r t)
    (hs : Accounted objects path s₀ s) : Accounted objects path s₀ t ∧ Kept objects path s t := by
  obtain ⟨s, cs⟩ := s
  obtain ⟨t, ds⟩ := t
  obtain ⟨hop, hw, hds⟩ := h
  obtain ⟨hacc, hno⟩ := hs
  dsimp only at hds hw hacc
  subst hds
  have hlog : ∀ c : Call Op Ans, overwrites c.op = false →
      ∀ d ∈ cs ++ [c], overwrites d.op = false := by
    intro c hc d hd
    rcases List.mem_append.mp hd with hd | hd
    · exact hno d hd
    · rw [List.mem_singleton.mp hd]
      exact hc
  -- a call that stores nothing
  have same : ∀ c : Call Op Ans, overwrites c.op = false → written path [c] = [] →
      objects t = objects s → Accounted objects path s₀ (t, cs ++ [c]) ∧
        Kept objects path (s, cs) (t, cs ++ [c]) := by
    intro c hc hwritten ht
    refine ⟨⟨?_, hlog c hc⟩, ?_⟩
    · rw [written_concat, hwritten, List.append_nil, ht]
      exact hacc
    · intro o ho
      rw [ht]
      exact ho
  cases op with
  | head p => exact same _ rfl rfl (hW.head hw).1
  | put p data attributes mode =>
      cases mode with
      | overwrite => exact hop.elim
      | create =>
          obtain rfl : p = path := hop
          rcases hW.create hw with ⟨-, hr, ht⟩ | ⟨-, rfl, ht⟩ | ⟨habsent, rfl, ht⟩
          · apply same _ rfl _ ht
            rcases hr with rfl | rfl <;> rfl
          · exact same _ rfl rfl ht
          · rw [habsent] at hacc
            refine ⟨⟨?_, hlog _ rfl⟩, ?_⟩
            · rw [written_concat, ← List.append_assoc, ← hacc, ht, Function.update_self]
              simp [written]
            · intro o ho
              dsimp only at ho
              rw [habsent] at ho
              contradiction
  | _ => exact hop.elim

theorem Kept.trans {s t u : S × List (Call Op Ans)} (h : Kept objects path s t)
    (h' : Kept objects path t u) : Kept objects path s u := fun o ho => h' o (h o ho)

/-- A probe that succeeds has found the object. -/
theorem alreadyStored_guards (hW : CreatesAtomically W objects) {s : S × List (Call Op Ans)} :
    Guards (recorded W) (Kept objects path) (createOnly W path)
      (fun r s => ∃ found, r = .ok found ∧ (found = true → Present objects path s))
      (alreadyStored path) s := by
  intro m _ r t hw
  refine ⟨⟨rfl, hw⟩, ?_⟩
  obtain ⟨ht, hfound⟩ := hW.head hw.1
  cases r with
  | error e =>
      intro u _
      exact ⟨false, rfl, fun h => absurd h (by decide)⟩
  | ok size =>
      intro u hu
      have hm : Present objects path m := hfound size rfl
      have hmt : Present objects path t := by
        unfold Present
        rw [ht]
        exact hm
      exact ⟨true, rfl, fun _ => hu.present hmt⟩

/-- A creation leaves the object there or refuses the attributes. -/
theorem putOnce_guards (hW : CreatesAtomically W objects) {data : Bytes} {attributes : Attributes}
    {s : S × List (Call Op Ans)} :
    Guards (recorded W) (Kept objects path) (createOnly W path)
      (fun r s => (r = .ok (.ok ()) ∧ Present objects path s) ∨
        attributes ≠ {} ∧ ∃ e, r = .ok (.error e) ∧ unsupportedCapability e = true)
      (putOnce path data attributes .create) s := by
  intro m _ r t hw
  refine ⟨⟨rfl, hw⟩, ?_⟩
  rcases hW.create hw.1 with ⟨hne, hr, -⟩ | ⟨hm, rfl, ht⟩ | ⟨-, rfl, ht⟩
  · rcases hr with rfl | rfl
    · intro u _
      exact Or.inr ⟨hne, _, rfl, rfl⟩
    · intro u _
      exact Or.inr ⟨hne, _, rfl, rfl⟩
  · intro u hu
    apply Or.inl
    refine ⟨rfl, hu.present ?_⟩
    unfold Present
    rw [ht]
    exact hm
  · intro u hu
    apply Or.inl
    refine ⟨rfl, hu.present ?_⟩
    unfold Present
    rw [ht, Function.update_self]
    rfl

theorem Kept.refl (s : S × List (Call Op Ans)) : Kept objects path s s := fun _ ho => ho

/-- The last rung has nothing that could be refused. -/
theorem putRungs_guards (hW : CreatesAtomically W objects) {data : Bytes} (rungs : List Attributes)
    {s : S × List (Call Op Ans)} :
    Guards (recorded W) (Kept objects path) (createOnly W path)
      (fun r s => r = .ok (.ok ()) ∧ Present objects path s)
      (putRungs path data .create rungs {}) s := by
  induction rungs generalizing s with
  | nil =>
      apply (putOnce_guards hW).conseq
      intro r t hr
      rcases hr with hr | ⟨hne, -⟩
      · exact hr
      · exact absurd rfl hne
  | cons attributes rungs ih =>
      apply Guards.tryBind Kept.refl (putOnce_guards hW)
      · intro e t u hr _
        rcases hr with ⟨hr, -⟩ | ⟨-, _, hr, -⟩ <;> contradiction
      · intro a t hr
        rcases hr with ⟨hr, ht⟩ | ⟨-, e, hr, he⟩
        · cases hr
          intro u hu
          exact ⟨rfl, hu.present ht⟩
        · cases hr
          dsimp only
          rw [he]
          exact ih

/-- The whole call ends well, with the object there. -/
theorem putBlob_guards (hW : CreatesAtomically W objects) {digest : Digest} {contentType : Str}
    {data : Bytes} {s : S × List (Call Op Ans)} :
    Guards (recorded W) (Kept objects (blobKey digest)) (createOnly W (blobKey digest))
      (fun r s => r = .ok () ∧ Present objects (blobKey digest) s)
      (putBlob digest contentType data) s := by
  unfold putBlob
  rw [storagePath_blobKey, liftResult_ok_bind]
  apply Guards.tryBind Kept.refl (alreadyStored_guards hW)
  · intro e t u ⟨_, hr, _⟩ _
    contradiction
  · intro found t ⟨found', hr, hfound⟩
    cases hr
    cases found with
    | true =>
        intro u hu
        exact ⟨rfl, hu.present (hfound rfl)⟩
    | false =>
        apply Guards.tryBind Kept.refl (putRungs_guards hW _)
        · intro e t u ⟨hr, _⟩ _
          contradiction
        · intro r t ⟨hr, ht⟩
          cases hr
          intro u hu
          exact ⟨rfl, hu.present ht⟩

/-- Writers among each other. -/
theorem putsBlob_compatible (hW : CreatesAtomically W objects) (digest : Digest) (s₀ : S) :
    Compatible (fun _ => recorded W) (PutsBlob digest) (Kept objects (blobKey digest))
      (fun _ => createOnly W (blobKey digest))
      (fun _ r s => r = .ok () ∧ Present objects (blobKey digest) s)
      (Accounted objects (blobKey digest) s₀) where
  refl := Kept.refl
  trans _ _ _ := Kept.trans
  guarantee _ _ _ _ _ h hs := createOnly_kept hW h hs
  guards := by
    intro _ p s ⟨contentType, data, hp⟩ _
    rw [hp]
    exact putBlob_guards hW

end Atomic

section AnyStore

/-- The result of the call that the answer to a creation decides at once. -/
def decided : Call Op Ans → Option (Except AppError Unit)
  | ⟨.put _ _ _ .create, .error e⟩ =>
    if conditionalCreateUnsupported e then none
    else if e = .alreadyExists then some (.ok ()) else some (.error (storageError .blobWrite))
  | _ => none

def Undecided (cs : List (Call Op Ans)) : Prop := ∀ c ∈ cs, decided c = none

def NoOverwrite (cs : List (Call Op Ans)) : Prop := ∀ c ∈ cs, overwrites c.op = false

def DecidedAs (r : Except AppError Unit) (cs : List (Call Op Ans)) : Prop :=
  ∀ c ∈ cs, ∀ r', decided c = some r' → r' = r

def creates : Op → Bool
  | .put _ _ _ .create => true
  | _ => false

/-- A call is made only while nothing is decided, and a creation before any overwriting. -/
def inOrder : Guarantee Op Ans (List (Call Op Ans)) :=
  fun op cs _ _ => Undecided cs ∧ (creates op = true → NoOverwrite cs)

section Records
variable {cs : List (Call Op Ans)} {c : Call Op Ans} {r : Except AppError Unit}

theorem Undecided.concat (h : Undecided cs) (hc : decided c = none) : Undecided (cs ++ [c]) := by
  intro d hd
  rcases List.mem_append.mp hd with hd | hd
  · exact h d hd
  · rw [List.mem_singleton.mp hd]
    exact hc

theorem NoOverwrite.concat (h : NoOverwrite cs) (hc : overwrites c.op = false) :
    NoOverwrite (cs ++ [c]) := by
  intro d hd
  rcases List.mem_append.mp hd with hd | hd
  · exact h d hd
  · rw [List.mem_singleton.mp hd]
    exact hc

theorem Undecided.decidedAs (h : Undecided cs) (r : Except AppError Unit) : DecidedAs r cs := by
  intro c hc r' hr
  rw [h c hc] at hr
  contradiction

theorem Undecided.concat_decidedAs (h : Undecided cs) (hc : decided c = some r) :
    DecidedAs r (cs ++ [c]) := by
  intro d hd r' hr
  rcases List.mem_append.mp hd with hd | hd
  · exact h.decidedAs r d hd r' hr
  · rw [List.mem_singleton.mp hd, hc] at hr
    exact (Option.some.inj hr).symm

end Records

section Traces
variable {path : Str} {data : Bytes} {cs : List (Call Op Ans)}

theorem alreadyStored_inOrder (h : Undecided cs) :
    Guards traced Eq inOrder (fun r ds => (∃ found, r = .ok found) ∧ Undecided ds ∧
      (NoOverwrite cs → NoOverwrite ds)) (alreadyStored path) cs := by
  rintro _ rfl r _ rfl
  refine ⟨⟨h, fun hc => absurd hc Bool.false_ne_true⟩, ?_⟩
  cases r with
  | error e =>
      rintro _ rfl
      exact ⟨⟨false, rfl⟩, h.concat rfl, fun hno => hno.concat rfl⟩
  | ok size =>
      rintro _ rfl
      exact ⟨⟨true, rfl⟩, h.concat rfl, fun hno => hno.concat rfl⟩

/-- Creating ends with what its last answer decides, or with an error that decides nothing. -/
def Created (r : Except AppError (Except ObjectError Unit)) (cs : List (Call Op Ans)) : Prop :=
  (r = .ok (.ok ()) ∧ DecidedAs (.ok ()) cs) ∨ ∃ e, r = .ok (.error e) ∧
    (conditionalCreateUnsupported e = true ∧ Undecided cs ∧ NoOverwrite cs ∨
      conditionalCreateUnsupported e = false ∧ DecidedAs (.error (storageError .blobWrite)) cs)

theorem putOnce_create_inOrder {attributes : Attributes} (h : Undecided cs)
    (hno : NoOverwrite cs) :
    Guards traced Eq inOrder Created (putOnce path data attributes .create) cs := by
  rintro _ rfl r _ rfl
  refine ⟨⟨h, fun _ => hno⟩, ?_⟩
  cases r with
  | ok _ =>
      rintro _ rfl
      exact Or.inl ⟨rfl, (h.concat rfl).decidedAs _⟩
  | error e =>
      have hkept := hno.concat (c := ⟨.put path data attributes .create, .error e⟩) rfl
      cases e with
      | alreadyExists =>
          rintro _ rfl
          exact Or.inl ⟨rfl, h.concat_decidedAs rfl⟩
      | notSupported | notImplemented | generic =>
          rintro _ rfl
          exact Or.inr ⟨_, rfl, Or.inl ⟨rfl, h.concat rfl, hkept⟩⟩
      | notFound | other =>
          rintro _ rfl
          exact Or.inr ⟨_, rfl, Or.inr ⟨rfl, h.concat_decidedAs rfl⟩⟩

theorem putRungs_create_inOrder (rungs : List Attributes) (last : Attributes) (h : Undecided cs)
    (hno : NoOverwrite cs) :
    Guards traced Eq inOrder Created (putRungs path data .create rungs last) cs := by
  induction rungs generalizing cs with
  | nil => exact putOnce_create_inOrder h hno
  | cons attributes rungs ih =>
      apply Guards.tryBind (fun _ => rfl) (putOnce_create_inOrder h hno)
      · intro e t u hr _
        rcases hr with ⟨hr, -⟩ | ⟨_, hr, -⟩ <;> contradiction
      · intro a t hr
        rcases hr with ⟨hr, ht⟩ | ⟨e, hr, ht⟩
        · cases hr
          rintro _ rfl
          exact Or.inl ⟨rfl, ht⟩
        · cases hr
          dsimp only
          split
          · rename_i he
            rcases ht with ⟨-, hund, hno⟩ | ⟨hc, -⟩
            · exact ih hund hno
            · simp [conditionalCreateUnsupported, he] at hc
          · rintro _ rfl
            exact Or.inr ⟨e, rfl, ht⟩

theorem putOnce_overwrite_inOrder {attributes : Attributes} (h : Undecided cs) :
    Guards traced Eq inOrder (fun r ds => (∃ result, r = .ok result) ∧ Undecided ds)
      (putOnce path data attributes .overwrite) cs := by
  rintro _ rfl r _ rfl
  refine ⟨⟨h, fun hc => absurd hc Bool.false_ne_true⟩, ?_⟩
  cases r with
  | ok _ =>
      rintro _ rfl
      exact ⟨⟨_, rfl⟩, h.concat rfl⟩
  | error e =>
      cases e <;> rintro _ rfl <;> exact ⟨⟨_, rfl⟩, h.concat rfl⟩

theorem putRungs_overwrite_inOrder (rungs : List Attributes) (last : Attributes)
    (h : Undecided cs) :
    Guards traced Eq inOrder (fun r ds => (∃ result, r = .ok result) ∧ Undecided ds)
      (putRungs path data .overwrite rungs last) cs := by
  induction rungs generalizing cs with
  | nil => exact putOnce_overwrite_inOrder h
  | cons attributes rungs ih =>
      apply Guards.tryBind (fun _ => rfl) (putOnce_overwrite_inOrder h)
      · intro e t u ⟨⟨_, hr⟩, _⟩ _
        contradiction
      · intro a t ⟨_, ht⟩
        cases a with
        | ok _ =>
            rintro _ rfl
            exact ⟨⟨_, rfl⟩, ht⟩
        | error e =>
            dsimp only
            split
            · exact ih ht
            · rintro _ rfl
              exact ⟨⟨_, rfl⟩, ht⟩

/-- The call ends as the answers to its creations decide. -/
theorem putBlob_inOrder (digest : Digest) (contentType : Str) (data : Bytes) :
    Guards traced Eq inOrder DecidedAs (putBlob digest contentType data) [] := by
  have hstart : Undecided [] := by simp [Undecided]
  unfold putBlob
  rw [storagePath_blobKey, liftResult_ok_bind]
  apply Guards.tryBind (fun _ => rfl) (alreadyStored_inOrder hstart)
  · intro e t u ⟨⟨_, hr⟩, _⟩ _
    contradiction
  · intro found t ⟨_, hund, hno⟩
    cases found with
    | true =>
        rintro _ rfl
        exact hund.decidedAs _
    | false =>
        apply Guards.tryBind (fun _ => rfl)
          (putRungs_create_inOrder _ _ hund (hno (by simp [NoOverwrite])))
        · intro e t u hr _
          rcases hr with ⟨hr, -⟩ | ⟨_, hr, -⟩ <;> contradiction
        · intro a t hr
          rcases hr with ⟨hr, ht⟩ | ⟨e, hr, ht⟩
          · cases hr
            rintro _ rfl
            exact ht
          · cases hr
            rcases ht with ⟨hc, hund, -⟩ | ⟨hc, ht⟩
            · dsimp only
              rw [if_pos hc]
              apply Guards.tryBind (fun _ => rfl) (alreadyStored_inOrder hund)
              · intro e t u ⟨⟨_, hr⟩, _⟩ _
                contradiction
              · intro found t ⟨_, hund, _⟩
                cases found with
                | true =>
                    rintro _ rfl
                    exact hund.decidedAs _
                | false =>
                    apply Guards.tryBind (fun _ => rfl) (putRungs_overwrite_inOrder _ _ hund)
                    · intro e t u ⟨⟨_, hr⟩, _⟩ _
                      contradiction
                    · intro a t ⟨_, hund⟩
                      cases a <;> rintro _ rfl <;> exact hund.decidedAs _
            · dsimp only
              rw [hc]
              rintro _ rfl
              exact ht

end Traces

section Bound
variable {path : Str} {data : Bytes} {mode : PutMode}

theorem alreadyStored_within : Within 1 (alreadyStored path) := by
  intro r
  cases r <;> trivial

theorem putOnce_within {attributes : Attributes} :
    Within 1 (putOnce path data attributes mode) := by
  intro r
  cases r with
  | ok _ => trivial
  | error e => cases e <;> trivial

theorem putRungs_within (rungs : List Attributes) (last : Attributes) :
    Within (rungs.length + 1) (putRungs path data mode rungs last) := by
  induction rungs with
  | nil => exact putOnce_within
  | cons attributes rungs ih =>
      rw [List.length_cons, Nat.add_comm]
      apply Within.tryBind putOnce_within
      intro a
      cases a with
      | ok _ => trivial
      | error e =>
          dsimp only
          split
          · exact ih
          · trivial

/-- Two probes and three rungs behind each. -/
theorem putBlob_within (digest : Digest) (contentType : Str) (data : Bytes) :
    Within 8 (putBlob digest contentType data) := by
  have hrungs : ∀ mode, Within 3 (putBlobRungs (blobKey digest) digest contentType data mode) :=
    fun mode => putRungs_within (blobAttributeRungs digest contentType) {}
  unfold putBlob
  rw [storagePath_blobKey, liftResult_ok_bind]
  apply Within.tryBind (m := 7) alreadyStored_within
  intro found
  cases found with
  | true => trivial
  | false =>
      apply Within.tryBind (m := 4) (hrungs .create)
      intro a
      cases a with
      | ok _ => trivial
      | error e =>
          dsimp only
          split
          · apply Within.tryBind (m := 3) alreadyStored_within
            intro found
            cases found with
            | true => trivial
            | false =>
                apply Within.tryBind (m := 0) (hrungs .overwrite)
                intro a
                cases a <;> trivial
          · trivial

end Bound

/-- The first answer to a creation that is no refused capability is the last one. -/
theorem putBlob_decided {digest : Digest} {contentType path : Str} {data payload : Bytes}
    {attributes : Attributes} {e : ObjectError} {before behind : List (Call Op Ans)}
    {q : Program Op Ans (Except AppError Unit)}
    (h : Follows (putBlob digest contentType data)
      (before ++ ⟨.put path payload attributes .create, .error e⟩ :: behind) q)
    (he : conditionalCreateUnsupported e = false) :
    behind = [] ∧ NoOverwrite before ∧
      q = .pure (if e = .alreadyExists then .ok () else .error (storageError .blobWrite)) := by
  obtain ⟨hq, hall⟩ := guards_follows (putBlob_inOrder digest contentType data) h
  have hdecided : decided ⟨.put path payload attributes .create, .error e⟩ =
      some (if e = .alreadyExists then .ok () else .error (storageError .blobWrite)) := by
    simp only [decided, he, Bool.false_eq_true, if_false]
    split <;> rfl
  have hbefore := (hall before _ behind rfl).2 rfl
  rw [List.nil_append] at hbefore
  cases behind with
  | cons d behind =>
      have hopen := (hall (before ++ [⟨.put path payload attributes .create, .error e⟩]) d behind
        (by simp)).1
      have hn := hopen ⟨.put path payload attributes .create, .error e⟩ (by simp)
      rw [hdecided] at hn
      contradiction
  | nil =>
      refine ⟨rfl, hbefore, ?_⟩
      cases q with
      | pure r =>
          have hr := hq _ rfl ⟨.put path payload attributes .create, .error e⟩ (by simp) _ hdecided
          rw [hr]
      | call op next =>
          have hopen := (hq _ rfl (someAnswer op) _ rfl).1.1
          have hn := hopen ⟨.put path payload attributes .create, .error e⟩ (by simp)
          rw [hdecided] at hn
          contradiction

end AnyStore

/-- In a store that creates atomically every ended call has succeeded, what is there is the
one payload that was there first or was written first, it stays, and nothing is ever
overwritten. In any store a creation that fails for another reason than a missing
capability ends the call. -/
theorem putBlob_writes_once (digest : Digest) :
    (∀ {S : Type} (W : World Op Ans S) (objects : S → Str → Option Payload),
      CreatesAtomically W objects → ∀ s₀ x,
      Reachable (fun _ => recorded W) (PutsBlob digest) (s₀, []) x →
        (∀ k r, (k, .pure r) ∈ x.2 → r = .ok () ∧
          ∃ o, (objects s₀ (blobKey digest)).toList ++ written (blobKey digest) x.1.2 = [o]) ∧
        (objects x.1.1 (blobKey digest)).toList =
          (objects s₀ (blobKey digest)).toList ++ written (blobKey digest) x.1.2 ∧
        NoOverwrite x.1.2 ∧
        ∀ y, Relation.ReflTransGen (Step (fun _ => recorded W) (PutsBlob digest)) x y →
          ∀ o, objects x.1.1 (blobKey digest) = some o →
            objects y.1.1 (blobKey digest) = some o) ∧
    (∀ contentType data, Within 8 (putBlob digest contentType data)) ∧
    ∀ contentType data path payload attributes e before behind q,
      Follows (putBlob digest contentType data)
        (before ++ ⟨.put path payload attributes .create, .error e⟩ :: behind) q →
      conditionalCreateUnsupported e = false →
        behind = [] ∧ NoOverwrite before ∧
          q = .pure (if e = .alreadyExists then .ok () else .error (storageError .blobWrite)) := by
  refine ⟨?_, putBlob_within digest, fun _ _ _ _ _ _ _ _ _ h he => putBlob_decided h he⟩
  intro S W objects hW s₀ x hx
  have hstart : Accounted objects (blobKey digest) s₀ (s₀, []) := by simp [Accounted, written]
  have hcompatible := putsBlob_compatible hW digest s₀
  obtain ⟨⟨hacc, hno⟩, hguards⟩ := hx.safe hcompatible hstart
  refine ⟨?_, hacc, hno, ?_⟩
  · intro k r hr
    obtain ⟨hok, hpresent⟩ := hguards (k, .pure r) hr x.1 (Kept.refl x.1)
    obtain ⟨o, ho⟩ := Option.isSome_iff_exists.mp hpresent
    refine ⟨hok, o, ?_⟩
    rw [← hacc, ho]
    rfl
  · intro y hy
    suffices h : Kept objects (blobKey digest) x.1 y.1 ∧
        Safe (fun _ => recorded W) (Kept objects (blobKey digest))
          (fun _ => createOnly W (blobKey digest))
          (fun _ r s => r = .ok () ∧ Present objects (blobKey digest) s)
          (Accounted objects (blobKey digest) s₀) y from h.1
    induction hy with
    | refl => exact ⟨Kept.refl x.1, hx.safe hcompatible hstart⟩
    | tail _ hstep ih =>
        obtain ⟨hkept, hsafe⟩ := ih
        exact ⟨hkept.trans (hstep.kept hcompatible hsafe), hstep.safe hcompatible hsafe⟩

section Memory

/-- A store in memory that takes a content type and no other metadata. -/
def memoryAnswer : (op : Op) → (Str → Option Payload) → Ans op × (Str → Option Payload)
  | .head path, s => ((s path).elim (.error .notFound) fun o => .ok o.data.length, s)
  | .put path data attributes mode, s =>
    if attributes.dockerContentDigest.isSome then (.error .notSupported, s)
    else if mode = .create ∧ (s path).isSome then (.error .alreadyExists, s)
    else (.ok (), Function.update s path (some ⟨data, attributes⟩))
  | op, s => (someAnswer op, s)

def memoryStore : World Op Ans (Str → Option Payload) :=
  fun op s r t => memoryAnswer op s = (r, t)

def recordedAnswer (op : Op) (s : (Str → Option Payload) × List (Call Op Ans)) :
    Ans op × (Str → Option Payload) × List (Call Op Ans) :=
  ((memoryAnswer op s.1).1, (memoryAnswer op s.1).2, s.2 ++ [⟨op, (memoryAnswer op s.1).1⟩])

theorem memoryStore_createsAtomically : CreatesAtomically memoryStore id where
  head := by
    intro path s r t h
    obtain ⟨rfl, rfl⟩ := Prod.mk.inj h
    refine ⟨rfl, ?_⟩
    intro size hr
    cases hs : s path with
    | none =>
        rw [hs] at hr
        contradiction
    | some o => simp [hs]
  create := by
    intro path data attributes s r t h
    simp only [memoryStore, memoryAnswer] at h
    split at h
    · rename_i hmeta
      obtain ⟨rfl, rfl⟩ := Prod.mk.inj h
      refine Or.inl ⟨?_, Or.inl rfl, rfl⟩
      rintro rfl
      contradiction
    · split at h
      · rename_i hpresent
        obtain ⟨rfl, rfl⟩ := Prod.mk.inj h
        exact Or.inr (Or.inl ⟨hpresent.2, rfl, rfl⟩)
      · rename_i habsent
        obtain ⟨rfl, rfl⟩ := Prod.mk.inj h
        exact Or.inr (Or.inr ⟨by simpa using habsent, rfl, rfl⟩)

/-- Any program runs in the store to its end. -/
theorem exists_runs_memory (p : Program Op Ans (Except AppError Unit))
    (s : (Str → Option Payload) × List (Call Op Ans)) :
    ∃ cs a t, Runs (recorded memoryStore) p s cs a t := by
  have hw : ∀ op s, recorded memoryStore op s (recordedAnswer op s).1 (recordedAnswer op s).2 :=
    fun _ _ => ⟨rfl, rfl⟩
  obtain ⟨cs, h⟩ := runs_exec hw p s
  exact ⟨cs, _, _, h⟩

def someDigest : Digest := digestOf '0' (Eq.refl true)

/-- Two writers that begin with different payloads. -/
theorem two_writers_store_one : ∃ x,
    Reachable (fun _ => recorded memoryStore) (PutsBlob someDigest) (fun _ => none, []) x ∧
      x.2 = [((), .pure (.ok ())), ((), .pure (.ok ()))] ∧
      ∃ o, written (blobKey someDigest) x.1.2 = [o] := by
  obtain ⟨cs₁, a₁, t₁, h₁⟩ := exists_runs_memory
    (putBlob someDigest (str "text/plain") [1]) (fun _ => none, [])
  obtain ⟨cs₂, a₂, t₂, h₂⟩ := exists_runs_memory
    (putBlob someDigest (str "text/html") [2]) t₁
  have hbegun : Reachable (fun _ => recorded memoryStore) (PutsBlob someDigest)
      (fun _ => none, []) ((fun _ => none, []), [((), putBlob someDigest (str "text/plain") [1]),
        ((), putBlob someDigest (str "text/html") [2])]) :=
    .step (.step .start (.start ⟨_, _, rfl⟩)) (.start ⟨_, _, rfl⟩)
  have hfirst : Reachable (fun _ => recorded memoryStore) (PutsBlob someDigest)
      (fun _ => none, []) (t₁, [((), .pure a₁), ((), putBlob someDigest (str "text/html") [2])]) :=
    hbegun.runs [] h₁
  have hboth : Reachable (fun _ => recorded memoryStore) (PutsBlob someDigest)
      (fun _ => none, []) (t₂, [((), .pure a₁), ((), .pure a₂)]) :=
    hfirst.runs [((), .pure a₁)] h₂
  obtain ⟨hended, -, -, -⟩ := (putBlob_writes_once someDigest).1 memoryStore id
    memoryStore_createsAtomically _ _ hboth
  obtain ⟨rfl, o, ho⟩ := hended () a₁ (by simp)
  obtain ⟨rfl, -⟩ := hended () a₂ (by simp)
  exact ⟨_, hboth, rfl, o, ho⟩

end Memory

end Helmoci.WriteOnce
