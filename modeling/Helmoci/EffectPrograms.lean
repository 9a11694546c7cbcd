import Mathlib

/-!
# Programs with effects

A program is a finite tree of calls, each with a continuation for every answer. It
says nothing about how a call is answered: a world relates a call and the state to
the answers that it may give and the states that it may leave. A run is one path
through the tree with the calls that it made. A joined pair of programs takes turns
as a scheduling call says and stops at the first failure.
-/
namespace Helmoci.EffectPrograms

inductive Program (Op : Type) (Ans : Op → Type) (A : Type) where
  | pure (a : A)
  | call (op : Op) (next : Ans op → Program Op Ans A)

variable {Op : Type} {Ans : Op → Type} {A B C E S : Type}

namespace Program

def bind : Program Op Ans A → (A → Program Op Ans B) → Program Op Ans B
  | pure a, f => f a
  | call op next, f => call op fun r => (next r).bind f

instance : Monad (Program Op Ans) where
  pure := pure
  bind := bind

/-- The call alone. -/
def request (op : Op) : Program Op Ans (Ans op) := call op pure

end Program

open Program

/-- What a call may answer and do, from each state. -/
abbrev World (Op : Type) (Ans : Op → Type) (S : Type) := (op : Op) → S → Ans op → S → Prop

structure Call (Op : Type) (Ans : Op → Type) where
  op : Op
  answer : Ans op

/-- `Runs W p s cs a t`: from `s` the program makes the calls `cs` and ends with `a` in `t`. -/
inductive Runs (W : World Op Ans S) :
    Program Op Ans A → S → List (Call Op Ans) → A → S → Prop
  | pure (a : A) (s : S) : Runs W (.pure a) s [] a s
  | call {op : Op} {next : Ans op → Program Op Ans A} {s m t : S} {r : Ans op}
      {cs : List (Call Op Ans)} {a : A} : W op s r m → Runs W (next r) m cs a t →
      Runs W (.call op next) s (⟨op, r⟩ :: cs) a t

section Runs
variable {W : World Op Ans S} {s t : S} {cs : List (Call Op Ans)}

theorem runs_pure_iff {a b : A} :
    Runs W (.pure a) s cs b t ↔ cs = [] ∧ b = a ∧ t = s := by
  constructor
  · rintro ⟨⟩
    exact ⟨rfl, rfl, rfl⟩
  · rintro ⟨rfl, rfl, rfl⟩
    exact .pure _ _

theorem runs_call_iff {op : Op} {next : Ans op → Program Op Ans A} {a : A} :
    Runs W (.call op next) s cs a t ↔
      ∃ r m ds, W op s r m ∧ Runs W (next r) m ds a t ∧ cs = ⟨op, r⟩ :: ds := by
  constructor
  · rintro ⟨⟩
    rename_i hw hr
    exact ⟨_, _, _, hw, hr, rfl⟩
  · rintro ⟨r, m, ds, hw, hr, rfl⟩
    exact .call hw hr

theorem runs_bind_iff {p : Program Op Ans A} {f : A → Program Op Ans B} {b : B} :
    Runs W (p.bind f) s cs b t ↔ ∃ cs₁ a m cs₂,
      Runs W p s cs₁ a m ∧ Runs W (f a) m cs₂ b t ∧ cs = cs₁ ++ cs₂ := by
  induction p generalizing s cs with
  | pure a =>
      constructor
      · intro h
        exact ⟨[], a, s, cs, .pure a s, h, rfl⟩
      · rintro ⟨cs₁, a', m, cs₂, h₁, h₂, rfl⟩
        obtain ⟨rfl, rfl, rfl⟩ := runs_pure_iff.mp h₁
        exact h₂
  | call op next ih =>
      constructor
      · intro h
        obtain ⟨r, m, ds, hw, hr, rfl⟩ := runs_call_iff.mp h
        obtain ⟨cs₁, a, m', cs₂, h₁, h₂, rfl⟩ := (ih r).mp hr
        exact ⟨⟨op, r⟩ :: cs₁, a, m', cs₂, .call hw h₁, h₂, rfl⟩
      · rintro ⟨cs₁, a, m, cs₂, h₁, h₂, rfl⟩
        obtain ⟨r, m', ds, hw, hr, rfl⟩ := runs_call_iff.mp h₁
        exact .call hw ((ih r).mpr ⟨ds, a, m, cs₂, hr, h₂, rfl⟩)

/-- A world that allows more has these runs too. -/
theorem Runs.mono {W' : World Op Ans S} {p : Program Op Ans A} {a : A} (h : Runs W p s cs a t)
    (hw : ∀ op s r t, W op s r t → W' op s r t) : Runs W' p s cs a t := by
  induction h with
  | pure a s => exact .pure a s
  | call hcall _ ih => exact .call (hw _ _ _ _ hcall) ih

end Runs

/-- A world that answers by computing. -/
def Program.exec (answer : (op : Op) → S → Ans op × S) : Program Op Ans A → S → A × S
  | .pure a, s => (a, s)
  | .call op next, s => exec answer (next (answer op s).1) (answer op s).2

/-- The calls that it answers. -/
def Program.trace (answer : (op : Op) → S → Ans op × S) : Program Op Ans A → S → List (Call Op Ans)
  | .pure _, _ => []
  | .call op next, s =>
    ⟨op, (answer op s).1⟩ :: trace answer (next (answer op s).1) (answer op s).2

theorem runs_trace {W : World Op Ans S} {answer : (op : Op) → S → Ans op × S}
    (hw : ∀ op s, W op s (answer op s).1 (answer op s).2) (p : Program Op Ans A) (s : S) :
    Runs W p s (p.trace answer s) (p.exec answer s).1 (p.exec answer s).2 := by
  induction p generalizing s with
  | pure a => exact .pure a s
  | call op next ih => exact .call (hw op s) (ih (answer op s).1 (answer op s).2)

theorem runs_exec {W : World Op Ans S} {answer : (op : Op) → S → Ans op × S}
    (hw : ∀ op s, W op s (answer op s).1 (answer op s).2) (p : Program Op Ans A) (s : S) :
    ∃ cs, Runs W p s cs (p.exec answer s).1 (p.exec answer s).2 := ⟨_, runs_trace hw p s⟩

theorem mem_trace {answer : (op : Op) → S → Ans op × S} {p : Program Op Ans A} {s : S}
    {c : Call Op Ans} (h : c ∈ p.trace answer s) : ∃ t, c.answer = (answer c.op t).1 := by
  induction p generalizing s with
  | pure a => contradiction
  | call op next ih =>
      rcases List.mem_cons.mp h with rfl | h
      · exact ⟨s, rfl⟩
      · exact ih _ h

/-- In such a world a program has one run. -/
theorem exec_of_runs {W : World Op Ans S} {answer : (op : Op) → S → Ans op × S}
    (hw : ∀ op s r t, W op s r t → (r, t) = answer op s) {p : Program Op Ans A} {s t : S}
    {cs : List (Call Op Ans)} {a : A} (h : Runs W p s cs a t) : (a, t) = p.exec answer s := by
  induction h with
  | pure a s => rfl
  | call hcall _ ih =>
      rw [ih, Program.exec, ← hw _ _ _ _ hcall]

/-- Calls of a run that has not ended, or has: whatever follows is left open. -/
inductive Follows : Program Op Ans A → List (Call Op Ans) → Program Op Ans A → Prop
  | refl (p : Program Op Ans A) : Follows p [] p
  | call {op : Op} {next : Ans op → Program Op Ans A} {r : Ans op} {cs : List (Call Op Ans)}
      {q : Program Op Ans A} : Follows (next r) cs q → Follows (.call op next) (⟨op, r⟩ :: cs) q

section Follows
variable {p q : Program Op Ans A} {cs : List (Call Op Ans)}

theorem follows_pure_iff {a : A} : Follows (.pure a) cs q ↔ cs = [] ∧ q = .pure a := by
  constructor
  · rintro ⟨⟩
    exact ⟨rfl, rfl⟩
  · rintro ⟨rfl, rfl⟩
    exact .refl _

/-- A run of the composition stops in the first program or goes on with its result. -/
theorem Follows.of_bind {p : Program Op Ans B} {f : B → Program Op Ans A}
    (h : Follows (p.bind f) cs q) : (∃ p', Follows p cs p') ∨
      ∃ cs₁ b cs₂, Follows p cs₁ (.pure b) ∧ Follows (f b) cs₂ q ∧ cs = cs₁ ++ cs₂ := by
  induction p generalizing cs with
  | pure b => exact Or.inr ⟨[], b, cs, .refl _, h, rfl⟩
  | call op next ih =>
      rcases h with _ | h
      · exact Or.inl ⟨_, .refl _⟩
      · rcases ih _ h with ⟨p', hp⟩ | ⟨cs₁, b, cs₂, h₁, h₂, rfl⟩
        · exact Or.inl ⟨p', .call hp⟩
        · exact Or.inr ⟨_ :: cs₁, b, cs₂, .call h₁, h₂, rfl⟩

/-- A run that ends has gone through the first program. -/
theorem Follows.of_bind_pure {p : Program Op Ans B} {f : B → Program Op Ans A} {a : A}
    (h : Follows (p.bind f) cs (.pure a)) :
    ∃ cs₁ b cs₂, Follows p cs₁ (.pure b) ∧ Follows (f b) cs₂ (.pure a) ∧ cs = cs₁ ++ cs₂ := by
  induction p generalizing cs with
  | pure b => exact ⟨[], b, cs, .refl _, h, rfl⟩
  | call op next ih =>
      rcases h with _ | h
      obtain ⟨cs₁, b, cs₂, h₁, h₂, rfl⟩ := ih _ h
      exact ⟨_ :: cs₁, b, cs₂, .call h₁, h₂, rfl⟩

theorem Runs.follows {W : World Op Ans S} {s t : S} {a : A} (h : Runs W p s cs a t) :
    Follows p cs (.pure a) := by
  induction h with
  | pure a s => exact .refl _
  | call _ _ ih => exact .call ih

/-- What is left of a program behind the given calls, if it makes them. -/
def Program.replay [DecidableEq Op] :
    Program Op Ans A → List (Call Op Ans) → Option (Program Op Ans A)
  | p, [] => some p
  | .pure _, _ :: _ => none
  | .call op next, ⟨op', r⟩ :: cs => if h : op' = op then replay (next (h ▸ r)) cs else none

theorem follows_of_replay [DecidableEq Op] (h : (p.replay cs).isSome = true) :
    ∃ q, Follows p cs q := by
  induction cs generalizing p with
  | nil => exact ⟨p, .refl p⟩
  | cons c cs ih =>
      obtain ⟨op', r⟩ := c
      cases p with
      | pure a => contradiction
      | call op next =>
          by_cases hop : op' = op
          · subst hop
            simp only [Program.replay, ↓reduceDIte] at h
            obtain ⟨q, hq⟩ := ih h
            exact ⟨q, .call hq⟩
          · simp [Program.replay, hop] at h

end Follows

/-- With answers that satisfy `R`, each call is a `P` and a result is a `Q`. -/
def Ensures (R : (op : Op) → Ans op → Prop) (P : Op → Prop) (Q : A → Prop) :
    Program Op Ans A → Prop
  | .pure a => Q a
  | .call op next => P op ∧ ∀ r, R op r → Ensures R P Q (next r)

/-- Answers of which nothing is assumed. -/
def Anything (op : Op) (_ : Ans op) : Prop := op = op

section Ensures
variable {R : (op : Op) → Ans op → Prop} {P : Op → Prop} {Q : A → Prop} {p : Program Op Ans A}

theorem Ensures.conseq {P' : Op → Prop} {Q' : A → Prop} (h : Ensures R P Q p)
    (hp : ∀ op, P op → P' op) (hq : ∀ a, Q a → Q' a) : Ensures R P' Q' p := by
  induction p with
  | pure a => exact hq a h
  | call op next ih =>
      obtain ⟨hop, hnext⟩ := h
      exact ⟨hp op hop, fun r hr => ih r (hnext r hr)⟩

theorem ensures_of_forall (hp : ∀ op, P op) (hq : ∀ a, Q a) : Ensures R P Q p := by
  induction p with
  | pure a => exact hq a
  | call op next ih => exact ⟨hp op, fun r _ => ih r⟩

/-- More may be assumed of the answers. -/
theorem Ensures.assuming {R' : (op : Op) → Ans op → Prop} (h : Ensures R P Q p)
    (hr : ∀ op r, R' op r → R op r) : Ensures R' P Q p := by
  induction p with
  | pure a => exact h
  | call op next ih =>
      obtain ⟨hop, hnext⟩ := h
      exact ⟨hop, fun r hr' => ih r (hnext r (hr op r hr'))⟩

/-- What is shown of a program in two traversals. -/
theorem Ensures.and {P' : Op → Prop} {Q' : A → Prop} (h : Ensures R P Q p)
    (h' : Ensures R P' Q' p) : Ensures R (fun op => P op ∧ P' op) (fun a => Q a ∧ Q' a) p := by
  induction p with
  | pure a => exact ⟨h, h'⟩
  | call op next ih =>
      obtain ⟨hop, hnext⟩ := h
      obtain ⟨hop', hnext'⟩ := h'
      exact ⟨⟨hop, hop'⟩, fun r hr => ih r (hnext r hr) (hnext' r hr)⟩

theorem Ensures.bind {Q' : B → Prop} {f : A → Program Op Ans B} (h : Ensures R P Q p)
    (hf : ∀ a, Q a → Ensures R P Q' (f a)) : Ensures R P Q' (p.bind f) := by
  induction p with
  | pure a => exact hf a h
  | call op next ih =>
      obtain ⟨hop, hnext⟩ := h
      exact ⟨hop, fun r hr => ih r (hnext r hr)⟩

/-- The calls made so far, and what is left. -/
theorem Ensures.follows {q : Program Op Ans A} {cs : List (Call Op Ans)}
    (h : Ensures Anything P Q p) (hf : Follows p cs q) :
    (∀ c ∈ cs, P c.op) ∧ Ensures Anything P Q q := by
  induction hf with
  | refl p => exact ⟨by simp, h⟩
  | call _ ih =>
      obtain ⟨hop, hnext⟩ := h
      obtain ⟨hcs, hq⟩ := ih (hnext _ rfl)
      exact ⟨List.forall_mem_cons.mpr ⟨hop, hcs⟩, hq⟩

/-- As `Ensures.follows`, where the answers are as assumed. -/
theorem Ensures.answered {q : Program Op Ans A} {cs : List (Call Op Ans)} (h : Ensures R P Q p)
    (hf : Follows p cs q) (hr : ∀ c ∈ cs, R c.op c.answer) :
    (∀ c ∈ cs, P c.op) ∧ Ensures R P Q q := by
  induction hf with
  | refl p => exact ⟨by simp, h⟩
  | call _ ih =>
      obtain ⟨hop, hnext⟩ := h
      obtain ⟨hfirst, hrest⟩ := List.forall_mem_cons.mp hr
      obtain ⟨hcs, hq⟩ := ih (hnext _ hfirst) hrest
      exact ⟨List.forall_mem_cons.mpr ⟨hop, hcs⟩, hq⟩

end Ensures

/-- From `s` every run makes only calls that are a `P` and ends in `Q`, and there is one. -/
def Meets (W : World Op Ans S) (P : Op → Prop) (Q : A → S → Prop) : Program Op Ans A → S → Prop
  | .pure a, s => Q a s
  | .call op next, s => P op ∧ (∃ r t, W op s r t) ∧ ∀ r t, W op s r t → Meets W P Q (next r) t

section Meets
variable {W : World Op Ans S} {P : Op → Prop} {Q : A → S → Prop} {p : Program Op Ans A} {s t : S}

theorem Meets.conseq {P' : Op → Prop} {Q' : A → S → Prop} (h : Meets W P Q p s)
    (hp : ∀ op, P op → P' op) (hq : ∀ a t, Q a t → Q' a t) : Meets W P' Q' p s := by
  induction p generalizing s with
  | pure a => exact hq a s h
  | call op next ih =>
      obtain ⟨hop, hans, hnext⟩ := h
      exact ⟨hp op hop, hans, fun r t hw => ih r (hnext r t hw)⟩

theorem Meets.bind {Q' : B → S → Prop} {f : A → Program Op Ans B} (h : Meets W P Q p s)
    (hf : ∀ a t, Q a t → Meets W P Q' (f a) t) : Meets W P Q' (p.bind f) s := by
  induction p generalizing s with
  | pure a => exact hf a s h
  | call op next ih =>
      obtain ⟨hop, hans, hnext⟩ := h
      exact ⟨hop, hans, fun r t hw => ih r (hnext r t hw)⟩

theorem Meets.runs {a : A} {cs : List (Call Op Ans)} (h : Meets W P Q p s)
    (hr : Runs W p s cs a t) : Q a t ∧ ∀ c ∈ cs, P c.op := by
  induction hr with
  | pure a s => exact ⟨h, by simp⟩
  | call hw _ ih =>
      obtain ⟨hop, -, hnext⟩ := h
      obtain ⟨hq, hcs⟩ := ih (hnext _ _ hw)
      exact ⟨hq, List.forall_mem_cons.mpr ⟨hop, hcs⟩⟩

theorem Meets.exists_runs (h : Meets W P Q p s) : ∃ cs a t, Runs W p s cs a t := by
  induction p generalizing s with
  | pure a => exact ⟨[], a, s, .pure a s⟩
  | call op next ih =>
      obtain ⟨-, ⟨r, t, hw⟩, hnext⟩ := h
      obtain ⟨cs, a, u, hr⟩ := ih r (hnext r t hw)
      exact ⟨_, a, u, .call hw hr⟩

/-- What is known of the calls in any world. -/
theorem Meets.calls {P' : Op → Prop} {Q' : A → Prop} (h : Meets W P Q p s)
    (he : Ensures Anything P' Q' p) : Meets W P' Q p s := by
  induction p generalizing s with
  | pure a => exact h
  | call op next ih =>
      obtain ⟨-, hans, hnext⟩ := h
      obtain ⟨hop, hcalls⟩ := he
      exact ⟨hop, hans, fun r t hw => ih r (hnext r t hw) (hcalls r rfl)⟩

/-- Calls that leave the state alone. -/
theorem Ensures.meets {R : (op : Op) → Ans op → Prop} {Q : A → Prop} (h : Ensures R P Q p)
    (hw : ∀ op, P op → (∃ r, W op s r s) ∧ ∀ r t, W op s r t → R op r ∧ t = s) :
    Meets W P (fun a t => Q a ∧ t = s) p s := by
  induction p with
  | pure a => exact ⟨h, rfl⟩
  | call op next ih =>
      obtain ⟨hop, hnext⟩ := h
      obtain ⟨⟨r, hr⟩, hall⟩ := hw op hop
      refine ⟨hop, ⟨r, s, hr⟩, ?_⟩
      intro r t hwr
      obtain ⟨hrr, rfl⟩ := hall r t hwr
      exact ih r (hnext r hrr)

end Meets

section Lockstep
variable {D : Type}

/-- Two programs with the same calls whose ends are related, at least until the first one
comes to a call that stops the comparison. -/
def Alike (stop : Op → Prop) (ρ : A → B → Prop) : Program Op Ans A → Program Op Ans B → Prop
  | .pure a, .pure b => ρ a b
  | .pure _, .call _ _ => False
  | .call op next, q =>
    stop op ∨ ∃ next', q = .call op next' ∧ ∀ r, Alike stop ρ (next r) (next' r)

variable {stop : Op → Prop} {ρ : A → B → Prop} {p : Program Op Ans A} {q : Program Op Ans B}

theorem Alike.refl {ρ : A → A → Prop} (hρ : ∀ a, ρ a a) (p : Program Op Ans A) :
    Alike stop ρ p p := by
  induction p with
  | pure a => exact hρ a
  | call op next ih => exact Or.inr ⟨next, rfl, ih⟩

theorem Alike.bind {ρ' : C → D → Prop} {f : A → Program Op Ans C} {g : B → Program Op Ans D}
    (h : Alike stop ρ p q) (hf : ∀ a b, ρ a b → Alike stop ρ' (f a) (g b)) :
    Alike stop ρ' (p.bind f) (q.bind g) := by
  induction p generalizing q with
  | pure a =>
      cases q with
      | pure b => exact hf a b h
      | call op next => exact h.elim
  | call op next ih =>
      rcases h with hstop | ⟨next', rfl, hnext⟩
      · exact Or.inl hstop
      · exact Or.inr ⟨_, rfl, fun r => ih r (hnext r)⟩

/-- Both succeed with related results, or both fail with one error. -/
def Results (ρ : A → B → Prop) : Except E A → Except E B → Prop
  | .ok a, .ok b => ρ a b
  | .error e, .error e' => e = e'
  | _, _ => False

theorem Results.refl {ρ : A → A → Prop} (hρ : ∀ a, ρ a a) (r : Except E A) : Results ρ r r := by
  cases r with
  | ok a => exact hρ a
  | error e => rfl

theorem Alike.tryBind {ρ' : C → D → Prop} {p : ExceptT E (Program Op Ans) A}
    {q : ExceptT E (Program Op Ans) B} {f : A → ExceptT E (Program Op Ans) C}
    {g : B → ExceptT E (Program Op Ans) D}
    (h : Alike stop (Results ρ) (p : Program Op Ans (Except E A)) q)
    (hf : ∀ a b, ρ a b → Alike stop (Results ρ') (f a : Program Op Ans (Except E C)) (g b)) :
    Alike stop (Results ρ') (p >>= f : ExceptT E (Program Op Ans) C)
      (q >>= g : ExceptT E (Program Op Ans) D) := by
  refine Alike.bind h ?_
  intro r r' hr
  cases r with
  | ok a =>
      cases r' with
      | ok b => exact hf a b hr
      | error e => exact hr.elim
  | error e =>
      cases r' with
      | ok b => exact hr.elim
      | error e' => exact hr

/-- A run of the first program that never stops is one of the second program too. -/
theorem Alike.follows {a : A} {cs : List (Call Op Ans)} (h : Alike stop ρ p q)
    (hf : Follows p cs (.pure a)) (hcs : ∀ c ∈ cs, ¬ stop c.op) :
    ∃ b, Follows q cs (.pure b) ∧ ρ a b := by
  induction cs generalizing p q with
  | nil =>
      cases hf
      cases q with
      | pure b => exact ⟨b, .refl _, h⟩
      | call op next => exact h.elim
  | cons c cs ih =>
      rcases hf with _ | hf
      obtain ⟨hc, hrest⟩ := List.forall_mem_cons.mp hcs
      rcases h with hstop | ⟨next', rfl, hnext⟩
      · exact absurd hstop hc
      · obtain ⟨b, hb, hρ⟩ := ih (hnext _) hf hrest
        exact ⟨b, .call hb, hρ⟩

end Lockstep

section Join
variable (turn : Op) (left : Ans turn → Bool)

/-- The second program while the first one waits at a call. -/
def joinAt (op : Op) (next : Ans op → Program Op Ans (Except E A))
    (rest : Ans op → Program Op Ans (Except E B) → Program Op Ans (Except E (A × B))) :
    Program Op Ans (Except E B) → Program Op Ans (Except E (A × B))
  | .pure (.error e) => .pure (.error e)
  | .pure (.ok b) => (Program.call op next).bind fun a => .pure (a.map fun a => (a, b))
  | .call op' next' => .call turn fun c =>
      if left c then .call op fun r => rest r (.call op' next')
      else .call op' fun r => joinAt op next rest (next' r)

/-- Both programs in turns, until both have ended or one has failed. -/
def tryJoin : Program Op Ans (Except E A) → Program Op Ans (Except E B) →
    Program Op Ans (Except E (A × B))
  | .pure (.error e), _ => .pure (.error e)
  | .pure (.ok a), q => q.bind fun b => .pure (b.map fun b => (a, b))
  | .call op next, q => joinAt turn left op next (fun r => tryJoin (next r)) q

variable {turn left} {R : (op : Op) → Ans op → Prop} {P : Op → Prop}

/-- Each call of two joined programs is one of theirs or decides whose turn it is. -/
theorem Ensures.tryJoin {p : Program Op Ans (Except E A)} {q : Program Op Ans (Except E B)}
    (hturn : P turn) (hp : Ensures R P (fun _ => True) p) (hq : Ensures R P (fun _ => True) q) :
    Ensures R P (fun _ => True) (tryJoin turn left p q) := by
  induction p generalizing q with
  | pure r =>
      cases r with
      | error e => trivial
      | ok a => exact hq.bind fun _ _ => trivial
  | call op next ih =>
      induction q with
      | pure r =>
          cases r with
          | error e => trivial
          | ok b => exact hp.bind fun _ _ => trivial
      | call op' next' ih' =>
          refine ⟨hturn, ?_⟩
          intro c _
          dsimp only
          split
          · exact ⟨hp.1, fun r hr => ih r (hp.2 r hr) hq⟩
          · exact ⟨hq.1, fun r hr => ih' r (hq.2 r hr)⟩

/-- How two joined programs stand when the pair has ended. -/
inductive Ended : Except E (A × B) → Program Op Ans (Except E A) →
    Program Op Ans (Except E B) → Prop
  | both (a : A) (b : B) : Ended (.ok (a, b)) (.pure (.ok a)) (.pure (.ok b))
  | left (e : E) (q : Program Op Ans (Except E B)) : Ended (.error e) (.pure (.error e)) q
  | right (e : E) (p : Program Op Ans (Except E A)) : Ended (.error e) p (.pure (.error e))

/-- A run of the pair is made of the programs' own calls, and fails when one of them does. -/
theorem Follows.of_tryJoin {p : Program Op Ans (Except E A)} {q : Program Op Ans (Except E B)}
    {cs : List (Call Op Ans)} {r : Except E (A × B)}
    (h : Follows (tryJoin turn left p q) cs (.pure r)) :
    ∃ cs₁ cs₂ p' q', cs₁.Sublist cs ∧ cs₂.Sublist cs ∧ Follows p cs₁ p' ∧ Follows q cs₂ q' ∧
      Ended r p' q' := by
  induction p generalizing q cs with
  | pure x =>
      cases x with
      | error e =>
          obtain ⟨rfl, hr⟩ := follows_pure_iff.mp h
          cases hr
          exact ⟨[], [], _, q, .slnil, .slnil, .refl _, .refl q, .left e q⟩
      | ok a =>
          obtain ⟨cs₁, y, cs₂, hq, hr, rfl⟩ := Follows.of_bind_pure h
          obtain ⟨rfl, hr⟩ := follows_pure_iff.mp hr
          cases hr
          rw [List.append_nil]
          refine ⟨[], cs₁, _, _, List.nil_sublist _, .refl _, .refl _, hq, ?_⟩
          cases y with
          | error e => exact .right e _
          | ok b => exact .both a b
  | call op next ih =>
      induction q generalizing cs with
      | pure y =>
          cases y with
          | error e =>
              obtain ⟨rfl, hr⟩ := follows_pure_iff.mp h
              cases hr
              exact ⟨[], [], _, _, .slnil, .slnil, .refl _, .refl _, .right e _⟩
          | ok b =>
              obtain ⟨cs₁, x, cs₂, hp, hr, rfl⟩ := Follows.of_bind_pure h
              obtain ⟨rfl, hr⟩ := follows_pure_iff.mp hr
              cases hr
              rw [List.append_nil]
              refine ⟨cs₁, [], _, _, .refl _, List.nil_sublist _, hp, .refl _, ?_⟩
              cases x with
              | error e => exact .left e _
              | ok a => exact .both a b
      | call op' next' ih' =>
          change Follows (.call turn fun c =>
            if left c then .call op fun r => tryJoin turn left (next r) (.call op' next')
            else .call op' fun r => tryJoin turn left (.call op next) (next' r)) cs _ at h
          rcases h with _ | @⟨_, _, c, cs', _, h⟩
          dsimp only at h
          split at h
          · rcases h with _ | @⟨_, _, r', cs'', _, h⟩
            obtain ⟨cs₁, cs₂, p', q', h₁, h₂, hp, hq, hend⟩ := ih r' h
            exact ⟨_ :: cs₁, cs₂, p', q', (h₁.cons_cons _).cons _, (h₂.cons _).cons _, .call hp, hq,
              hend⟩
          · rcases h with _ | @⟨_, _, r', cs'', _, h⟩
            obtain ⟨cs₁, cs₂, p', q', h₁, h₂, hp, hq, hend⟩ := ih' r' h
            exact ⟨cs₁, _ :: cs₂, p', q', (h₁.cons _).cons _, (h₂.cons_cons _).cons _, hp, .call hq,
              hend⟩
end Join

/-- A run of a program that may fail stops in the first part or goes on with its result. -/
theorem Follows.of_tryBind {p : ExceptT E (Program Op Ans) B} {f : B → ExceptT E (Program Op Ans) A}
    {cs : List (Call Op Ans)} {q : Program Op Ans (Except E A)}
    (h : Follows (p >>= f : ExceptT E (Program Op Ans) A) cs q) :
    (∃ p', Follows (p : Program Op Ans (Except E B)) cs p') ∨
      ∃ cs₁ b cs₂, Follows (p : Program Op Ans (Except E B)) cs₁ (.pure (.ok b)) ∧
        Follows (f b : Program Op Ans (Except E A)) cs₂ q ∧ cs = cs₁ ++ cs₂ := by
  rcases Follows.of_bind h with ⟨p', h⟩ | ⟨cs₁, r, cs₂, h₁, h₂, rfl⟩
  · exact Or.inl ⟨p', h⟩
  · cases r with
    | error e =>
        obtain ⟨rfl, -⟩ := follows_pure_iff.mp h₂
        rw [List.append_nil]
        exact Or.inl ⟨_, h₁⟩
    | ok b => exact Or.inr ⟨cs₁, b, cs₂, h₁, h₂, rfl⟩

end Helmoci.EffectPrograms
