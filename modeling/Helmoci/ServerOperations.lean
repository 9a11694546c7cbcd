import Helmoci.Configuration
import Helmoci.EffectPrograms
import Helmoci.ChartIndex
import Helmoci.OciDigest

/-!
# The operations of the server

What the handlers ask of the world around them: the object store behind the
persistent storage, the in-memory caches, the HTTP clients and the credentials of
the cloud. A handler is a program over these calls that may end in an error; only
the answers are left open. Headers are listed in order under lower-case names.
-/
namespace Helmoci.ServerOperations
open RustText UrlInterface NameResolver ServerErrors ChartIndex OciDigest EffectPrograms
  Helmoci.Configuration

/-- A header value as `to_str` reads it. -/
inductive HeaderValue where
  | text (s : Str)
  | undecodable
deriving DecidableEq, Repr

namespace HeaderValue

def toStr : HeaderValue → Option Str
  | text s => some s
  | undecodable => none

/-- `HeaderValue::from_str`: control characters are refused, and what is not ASCII is
carried along but not read back as text. -/
def fromStr (s : Str) : Option HeaderValue :=
  if s.all fun c => (32 ≤ c.toNat && c.toNat != 127) || c == '\t' then
    if s.all fun c => c.toNat < 128 then some (text s) else some undecodable
  else none

theorem fromStr_eq_some {s : Str} {v : HeaderValue} (h : fromStr s = some v) :
    v = text s ∨ v = undecodable := by
  unfold fromStr at h
  split at h
  · split at h
    · exact Or.inl (Option.some.inj h).symm
    · exact Or.inr (Option.some.inj h).symm
  · contradiction

end HeaderValue

abbrev HeaderMap := List (Str × HeaderValue)

namespace HeaderMap

def getAll (m : HeaderMap) (name : Str) : List HeaderValue :=
  (m.filter fun p => p.1 = name).map Prod.snd

def get (m : HeaderMap) (name : Str) : Option HeaderValue := (m.getAll name).head?

def remove (m : HeaderMap) (name : Str) : HeaderMap := m.filter fun p => p.1 ≠ name

def insert (m : HeaderMap) (name : Str) (value : HeaderValue) : HeaderMap :=
  m.remove name ++ [(name, value)]

def contains (m : HeaderMap) (name : Str) : Bool := m.any fun p => p.1 = name

theorem contains_remove (m : HeaderMap) (name other : Str) :
    (m.remove name).contains other = (m.contains other && decide (other ≠ name)) := by
  rw [Bool.eq_iff_iff]
  simp only [contains, remove, List.any_eq_true, List.mem_filter, decide_eq_true_eq,
    Bool.and_eq_true]
  constructor
  · rintro ⟨p, ⟨hp, hn⟩, rfl⟩
    exact ⟨⟨p, hp, rfl⟩, hn⟩
  · rintro ⟨⟨p, hp, rfl⟩, hn⟩
    exact ⟨p, ⟨hp, hn⟩, rfl⟩

theorem mem_insert {m : HeaderMap} {name : Str} {value : HeaderValue} {p : Str × HeaderValue}
    (h : p ∈ m.insert name value) : p ∈ m ∨ p = (name, value) := by
  rcases List.mem_append.mp h with h | h
  · exact Or.inl (List.mem_filter.mp h).1
  · exact Or.inr (List.mem_singleton.mp h)

end HeaderMap

inductive Method where
  | get
  | head
deriving DecidableEq, Repr

inductive InitialClient where
  | trusted
  | tokenTrusted
  | publicOnly
deriving DecidableEq, Repr

structure HttpRequest where
  client : InitialClient
  method : Method
  url : Url
  headers : HeaderMap
deriving DecidableEq, Repr

/-- The body arrives in chunks and may break off with an error's text. -/
structure HttpResponse where
  status : ℕ
  headers : HeaderMap
  contentLength : Option ℕ
  chunks : List (Except Str Bytes)

def HttpResponse.isSuccess (r : HttpResponse) : Bool := 200 ≤ r.status && r.status < 300

/-- The errors of the object store, told apart as far as the code tells them apart. -/
inductive ObjectError where
  | notFound
  | alreadyExists
  | notSupported
  | notImplemented
  | generic
  | other
deriving DecidableEq, Repr

inductive PutMode where
  | create
  | overwrite
deriving DecidableEq, Repr

structure Attributes where
  contentType : Option Str := none
  dockerContentDigest : Option Str := none
deriving DecidableEq, Repr

structure GetResult where
  size : ℕ
  contentType : Option Str
  chunks : List (Except ObjectError Bytes)

structure CacheEntry where
  contentType : Str
  data : Bytes
deriving DecidableEq, Repr

/-- A token and the lifetime that its endpoint advertised. -/
structure CachedToken where
  token : Str
  advertised : Option ℕ
deriving DecidableEq, Repr

inductive Op where
  | head (path : Str)
  | get (path : Str)
  | put (path : Str) (data : Bytes) (attributes : Attributes) (mode : PutMode)
  | cacheGet (key : Str)
  | cacheOrInsert (key : Str) (entry : CacheEntry)
  | cacheInsert (key : Str) (entry : CacheEntry)
  | indexGet (key : Str)
  | indexInsert (key text : Str)
  /-- The cached token of the key, if its deadline has not passed. -/
  | liveToken (key : Str)
  | insertToken (key : Str) (token : CachedToken)
  | gcpAccessToken
  | http (request : HttpRequest)
  /-- Which of two joined programs goes on. -/
  | turn
deriving DecidableEq, Repr

abbrev Ans : Op → Type
  | .head _ => Except ObjectError ℕ
  | .get _ => Except ObjectError GetResult
  | .put .. => Except ObjectError Unit
  | .cacheGet _ => Option CacheEntry
  | .cacheOrInsert .. => Unit
  | .cacheInsert .. => Unit
  | .indexGet _ => Option Str
  | .indexInsert .. => Unit
  | .liveToken _ => Option Str
  | .insertToken .. => Unit
  | .gcpAccessToken => Except Str Str
  | .http _ => Except Str HttpResponse
  | .turn => Bool

/-- An answer to any call. -/
def someAnswer : (op : Op) → Ans op
  | .head _ => .error .notFound
  | .get _ => .error .notFound
  | .put .. => .error .notSupported
  | .cacheGet _ => none
  | .cacheOrInsert .. => ()
  | .cacheInsert .. => ()
  | .indexGet _ => none
  | .indexInsert .. => ()
  | .liveToken _ => none
  | .insertToken .. => ()
  | .gcpAccessToken => .error []
  | .http _ => .error []
  | .turn => true

/-- A program that may end in an error of the server. -/
abbrev Server (A : Type) := ExceptT AppError (Program Op Ans) A

def perform (op : Op) : Server (Ans op) := ExceptT.lift (Program.request op)

/-- `?` on a result that was computed. -/
def liftResult {A : Type} (r : Except AppError A) : Server A := ExceptT.mk (.pure r)

section Programs
variable {A B : Type} {P : Op → Prop} {Q : A → Prop}

/-- The condition on the results of a program that may fail. -/
def OnOk (Q : A → Prop) : Except AppError A → Prop
  | .ok a => Q a
  | .error _ => True

/-- No storage, and the condition on the requests. -/
def OnHttp (I : HttpRequest → Prop) : Op → Prop
  | .http request => I request
  | .head _ | .get _ | .put .. | .cacheGet _ | .cacheOrInsert .. | .cacheInsert .. => False
  | _ => True

@[simp] theorem liftResult_ok_bind (a : A) (f : A → Server B) :
    (liftResult (.ok a) >>= f : Server B) = f a := rfl

@[simp] theorem liftResult_error_bind (e : AppError) (f : A → Server B) :
    (liftResult (.error e) >>= f : Server B) = liftResult (.error e) := rfl

theorem perform_bind (op : Op) (f : Ans op → Server A) :
    (perform op >>= f : Server A) = (Program.call op f : Program Op Ans (Except AppError A)) := rfl

theorem ensures_perform {R : (op : Op) → Ans op → Prop} {op : Op} (h : P op) :
    Ensures R P (OnOk (R op)) (perform op) := ⟨h, fun _ hr => hr⟩

/-- Nothing but requests, and the condition on them. -/
def OnlyHttp (I : HttpRequest → Prop) : Op → Prop
  | .http request => I request
  | _ => False

theorem ensures_liftResult {R : (op : Op) → Ans op → Prop} {r : Except AppError A}
    (h : ∀ a, r = .ok a → Q a) : Ensures R P (OnOk Q) (liftResult r) := by
  cases r with
  | error e => trivial
  | ok a => exact h a rfl

theorem ensures_bind {R : (op : Op) → Ans op → Prop} {p : Server A} {f : A → Server B}
    {Q' : B → Prop} (h : Ensures R P (OnOk Q) p) (hf : ∀ a, Q a → Ensures R P (OnOk Q') (f a)) :
    Ensures R P (OnOk Q') (p >>= f : Server B) := by
  refine Ensures.bind h ?_
  intro r hr
  cases r with
  | error e => trivial
  | ok a => exact hf a hr

theorem onOk_true (r : Except AppError A) : OnOk (fun _ => True) r := by
  cases r <;> trivial

/-- As `ensures_bind`, with a condition on the errors too. -/
theorem ensures_server_bind {R : (op : Op) → Ans op → Prop} {p : Server A} {f : A → Server B}
    {Q : Except AppError A → Prop} {Q' : Except AppError B → Prop} (h : Ensures R P Q p)
    (hok : ∀ a, Q (.ok a) → Ensures R P Q' (f a)) (herror : ∀ e, Q (.error e) → Q' (.error e)) :
    Ensures R P Q' (p >>= f : Server B) := by
  refine Ensures.bind h ?_
  intro r hq
  cases r with
  | error e => exact herror e hq
  | ok a => exact hok a hq

theorem ensures_bind_call {R : (op : Op) → Ans op → Prop} {op : Op} {f : Ans op → Server B}
    {Q : Except AppError B → Prop} (h : P op) (hf : ∀ r, R op r → Ensures R P Q (f r)) :
    Ensures R P Q (perform op >>= f : Server B) := ⟨h, hf⟩

theorem meets_bind {S : Type} {W : World Op Ans S} {s : S} {p : Server A} {f : A → Server B}
    {Q : Except AppError A → S → Prop} {Q' : Except AppError B → S → Prop} (h : Meets W P Q p s)
    (hok : ∀ a t, Q (.ok a) t → Meets W P Q' (f a) t)
    (herror : ∀ e t, Q (.error e) t → Q' (.error e) t) : Meets W P Q' (p >>= f : Server B) s := by
  refine Meets.bind h ?_
  intro r t hq
  cases r with
  | error e => exact herror e t hq
  | ok a => exact hok a t hq

/-- A run stops at the first program's error or goes on with its result. -/
theorem runs_server_bind_iff {S : Type} {W : World Op Ans S} {s t : S} {cs : List (Call Op Ans)}
    {p : Server A} {f : A → Server B} {r : Except AppError B} :
    Runs W (p >>= f : Server B) s cs r t ↔
      (∃ e, r = .error e ∧ Runs W p s cs (.error e) t) ∨
      ∃ cs₁ a m cs₂, Runs W p s cs₁ (.ok a) m ∧ Runs W (f a) m cs₂ r t ∧ cs = cs₁ ++ cs₂ := by
  constructor
  · intro h
    obtain ⟨cs₁, x, m, cs₂, h₁, h₂, rfl⟩ := runs_bind_iff.mp h
    cases x with
    | error e =>
        obtain ⟨rfl, rfl, rfl⟩ := runs_pure_iff.mp h₂
        rw [List.append_nil]
        exact Or.inl ⟨e, rfl, h₁⟩
    | ok a => exact Or.inr ⟨cs₁, a, m, cs₂, h₁, h₂, rfl⟩
  · intro h
    apply runs_bind_iff.mpr
    rcases h with ⟨e, rfl, h⟩ | ⟨cs₁, a, m, cs₂, h₁, h₂, rfl⟩
    · exact ⟨cs, .error e, t, [], h, .pure _ _, (List.append_nil cs).symm⟩
    · exact ⟨cs₁, .ok a, m, cs₂, h₁, h₂, rfl⟩

/-- A run through a program that always gives this result. -/
theorem runs_bind_of_ok {S : Type} {W : World Op Ans S} {s m t : S} {cs : List (Call Op Ans)}
    {p : Server A} {f : A → Server B} {a : A} {r : Except AppError B}
    (hp : ∀ cs r t, Runs W p s cs r t → r = .ok a ∧ t = m)
    (h : Runs W (p >>= f : Server B) s cs r t) : ∃ cs₁ cs₂, Runs W p s cs₁ (.ok a) m ∧
      Runs W (f a) m cs₂ r t ∧ cs = cs₁ ++ cs₂ := by
  obtain ⟨cs₁, x, m', cs₂, h₁, h₂, rfl⟩ := runs_bind_iff.mp h
  obtain ⟨rfl, rfl⟩ := hp _ _ _ h₁
  exact ⟨cs₁, cs₂, h₁, h₂, rfl⟩

theorem runs_liftResult {S : Type} {W : World Op Ans S} {s t : S} {cs : List (Call Op Ans)}
    {r r' : Except AppError A} (h : Runs W (liftResult r) s cs r' t) : cs = [] ∧ r' = r ∧ t = s :=
  runs_pure_iff.mp h

end Programs
end Helmoci.ServerOperations
