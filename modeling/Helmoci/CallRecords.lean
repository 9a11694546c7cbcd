import Helmoci.InterleavedPrograms

/-!
# Records of calls

A recorded world keeps the calls that were made in it, in order. A program that is guarded
in the world of records alone is described along every run with any answers: before each
of its calls the record is as the guarantee says, and at its end as the postcondition says.
-/
namespace Helmoci.CallRecords
open EffectPrograms InterleavedPrograms

variable {Op : Type} {Ans : Op → Type} {A B E S : Type}

def recorded (W : World Op Ans S) : World Op Ans (S × List (Call Op Ans)) :=
  fun op s r t => W op s.1 r t.1 ∧ t.2 = s.2 ++ [⟨op, r⟩]

/-- Any answers, with a record. -/
def traced : World Op Ans (List (Call Op Ans)) := fun op cs r ds => ds = cs ++ [⟨op, r⟩]

/-- Whatever is answered, the program ends after so many calls. -/
def Within : ℕ → Program Op Ans A → Prop
  | _, .pure _ => True
  | 0, .call _ _ => False
  | n + 1, .call _ next => ∀ r, Within n (next r)

section Within
variable {p : Program Op Ans A} {n : ℕ}

theorem Within.mono {m : ℕ} (h : Within n p) (hm : n ≤ m) : Within m p := by
  induction p generalizing n m with
  | pure a => cases m <;> trivial
  | call op next ih =>
      cases n with
      | zero => exact h.elim
      | succ n =>
          cases m with
          | zero => omega
          | succ m =>
              intro r
              exact ih r (h r) (by omega)

theorem Within.bind {m : ℕ} {f : A → Program Op Ans B} (h : Within n p) (hf : ∀ a, Within m (f a)) :
    Within (n + m) (p.bind f) := by
  induction p generalizing n with
  | pure a => exact (hf a).mono (by omega)
  | call op next ih =>
      cases n with
      | zero => exact h.elim
      | succ n =>
          rw [Nat.succ_add]
          intro r
          exact ih r (h r)

/-- A failure of the first program ends both. -/
theorem Within.tryBind {m : ℕ} {p : ExceptT E (Program Op Ans) A}
    {f : A → ExceptT E (Program Op Ans) B} (h : Within n p) (hf : ∀ a, Within m (f a)) :
    Within (n + m) (p >>= f : ExceptT E (Program Op Ans) B) := by
  apply Within.bind h
  intro r
  cases r with
  | error e => cases m <;> trivial
  | ok a => exact hf a

theorem Within.length_le {q : Program Op Ans A} {cs : List (Call Op Ans)} (h : Within n p)
    (hf : Follows p cs q) : cs.length ≤ n := by
  induction hf generalizing n with
  | refl p => exact Nat.zero_le n
  | call _ ih =>
      cases n with
      | zero => exact h.elim
      | succ n =>
          have hlen := ih (h _)
          rw [List.length_cons]
          omega

end Within

/-- Whatever is answered, the calls of the program cost so much together. -/
def Spends (cost : Op → ℕ) : Program Op Ans A → ℕ → Prop
  | .pure _, _ => True
  | .call op next, n => cost op ≤ n ∧ ∀ r, Spends cost (next r) (n - cost op)

section Spends
variable {cost : Op → ℕ} {p : Program Op Ans A} {n m : ℕ}

theorem Spends.mono (h : Spends cost p n) (hm : n ≤ m) : Spends cost p m := by
  induction p generalizing n m with
  | pure a => trivial
  | call op next ih =>
      obtain ⟨hop, hnext⟩ := h
      exact ⟨by omega, fun r => ih r (hnext r) (by omega)⟩

/-- What is left may be spent by the second program. -/
theorem Spends.bind {f : A → Program Op Ans B} (h : Spends cost p n) (hm : n ≤ m)
    (hf : ∀ a, Spends cost (f a) (m - n)) : Spends cost (p.bind f) m := by
  induction p generalizing n m with
  | pure a => exact (hf a).mono (by omega)
  | call op next ih =>
      obtain ⟨hop, hnext⟩ := h
      refine ⟨by omega, fun r => ih r (hnext r) (by omega) fun a => (hf a).mono (by omega)⟩

theorem Spends.tryBind {p : ExceptT E (Program Op Ans) A} {f : A → ExceptT E (Program Op Ans) B}
    (h : Spends cost p n) (hm : n ≤ m) (hf : ∀ a, Spends cost (f a) (m - n)) :
    Spends cost (p >>= f : ExceptT E (Program Op Ans) B) m := by
  apply Spends.bind h hm
  intro r
  cases r with
  | error e => trivial
  | ok a => exact hf a

/-- Whose turn it is costs nothing. -/
theorem Spends.tryJoin {turn : Op} {left : Ans turn → Bool} (hturn : cost turn = 0)
    {p : Program Op Ans (Except E A)} {q : Program Op Ans (Except E B)} (hp : Spends cost p n)
    (hq : Spends cost q m) : Spends cost (tryJoin turn left p q) (n + m) := by
  induction p generalizing q n m with
  | pure r =>
      cases r with
      | error e => trivial
      | ok a => exact hq.bind (by omega) fun _ => trivial
  | call op next ih =>
      induction q generalizing m with
      | pure r =>
          cases r with
          | error e => trivial
          | ok b => exact Spends.bind hp (by omega) fun _ => trivial
      | call op' next' ih' =>
          refine ⟨by omega, ?_⟩
          intro c
          dsimp only
          split
          · refine ⟨hp.1.trans (by omega), fun r => (ih r (hp.2 r) hq).mono ?_⟩
            have hop := hp.1
            omega
          · refine ⟨hq.1.trans (by omega), fun r => (ih' r (hq.2 r)).mono ?_⟩
            have hop := hq.1
            omega

/-- So many calls, none of which costs more. -/
theorem Within.spends {c : ℕ} {Q : A → Prop} (h : Within n p)
    (hcost : Ensures Anything (fun op => cost op ≤ c) Q p) : Spends cost p (n * c) := by
  induction p generalizing n with
  | pure a => trivial
  | call op next ih =>
      obtain ⟨hop, hnext⟩ := hcost
      cases n with
      | zero => exact h.elim
      | succ n =>
          rw [Nat.succ_mul]
          exact ⟨by omega, fun r => (ih r (h r) (hnext r rfl)).mono (by omega)⟩

theorem Spends.follows {q : Program Op Ans A} {cs : List (Call Op Ans)} (h : Spends cost p n)
    (hf : Follows p cs q) : (cs.map fun c => cost c.op).sum ≤ n := by
  induction hf generalizing n with
  | refl p => exact Nat.zero_le n
  | call _ ih =>
      obtain ⟨hop, hnext⟩ := h
      have hrest := ih (hnext _)
      rw [List.map_cons, List.sum_cons]
      dsimp only
      omega

end Spends

/-- The assertions of a guarded program hold along each of its runs. -/
theorem guards_follows {G : Guarantee Op Ans (List (Call Op Ans))}
    {Q : A → List (Call Op Ans) → Prop} {p q : Program Op Ans A} {ds cs : List (Call Op Ans)}
    (h : Guards traced Eq G Q p ds) (hf : Follows p cs q) :
    Guards traced Eq G Q q (ds ++ cs) ∧
      ∀ before c behind, cs = before ++ c :: behind →
        G c.op (ds ++ before) c.answer (ds ++ before ++ [c]) := by
  induction hf generalizing ds with
  | refl p => simpa using h
  | call hf ih =>
      rename_i op next r cs q
      obtain ⟨hg, hn⟩ := h ds rfl r _ rfl
      obtain ⟨hq, hrest⟩ := ih hn
      refine ⟨by simpa using hq, ?_⟩
      intro before c behind heq
      cases before with
      | nil =>
          cases heq
          simpa using hg
      | cons d before =>
          cases heq
          simpa using hrest before c behind rfl

section Labelled
variable {K : Type} {W : World Op Ans S}

/-- A record of all programs' calls, each with the kind of its program. -/
def labelled (W : World Op Ans S) (k : K) : World Op Ans (S × List (K × Call Op Ans)) :=
  fun op s r t => W op s.1 r t.1 ∧ t.2 = s.2 ++ [(k, ⟨op, r⟩)]

/-- The record grows. -/
def Grows (s t : S × List (K × Call Op Ans)) : Prop := s.2 ⊆ t.2

/-- The answers that programs of a kind have had. -/
def answered (log : List (K × Call Op Ans)) (k : K) (op : Op) (r : Ans op) : Prop :=
  (k, ⟨op, r⟩) ∈ log

/-- What is ensured for any answers is ensured for those in the record. -/
theorem guards_of_answered {P : ((op : Op) → Ans op → Prop) → Op → Prop} {Q : A → Prop} {k : K}
    {p : Program Op Ans A} {s : S × List (K × Call Op Ans)} (h : ∀ N, Ensures N (P N) Q p) :
    Guards (labelled W k) Grows (fun op s r t => P (answered s.2 k) op ∧ labelled W k op s r t)
      (fun a _ => Q a) p s := by
  -- enough for all answers that are at least those of the record so far
  suffices hsome : ∀ {p : Program Op Ans A} {s : S × List (K × Call Op Ans)},
      (∀ N : (op : Op) → Ans op → Prop, (∀ op r, answered s.2 k op r → N op r) →
        Ensures N (P N) Q p) →
      Guards (labelled W k) Grows (fun op s r t => P (answered s.2 k) op ∧ labelled W k op s r t)
        (fun a _ => Q a) p s from hsome fun N _ => h N
  intro p
  induction p with
  | pure a =>
      intro s h _ _
      exact h (answered s.2 k) fun _ _ hr => hr
  | call op next ih =>
      intro s h m hm r t hw
      obtain ⟨hop, -⟩ := h (answered m.2 k) fun _ _ hr => hm hr
      refine ⟨⟨hop, hw⟩, ?_⟩
      apply ih r
      intro N hN
      have hsub : ∀ op r, answered s.2 k op r → N op r := by
        intro op' r' hr
        apply hN
        unfold answered
        rw [hw.2]
        exact List.mem_append_left _ (hm hr)
      have hlast : N op r := by
        apply hN
        unfold answered
        rw [hw.2]
        simp
      exact (h N hsub).2 r hlast

/-- A fact of each call and what was recorded in front of it. -/
def EachCall (F : List (K × Call Op Ans) → K → Call Op Ans → Prop)
    (log : List (K × Call Op Ans)) : Prop :=
  ∀ before k c behind, log = before ++ (k, c) :: behind → F before k c

theorem EachCall.concat {F : List (K × Call Op Ans) → K → Call Op Ans → Prop}
    {log : List (K × Call Op Ans)} {k : K} {c : Call Op Ans} (h : EachCall F log)
    (hc : F log k c) : EachCall F (log ++ [(k, c)]) := by
  intro before k' c' behind heq
  rcases List.eq_nil_or_concat' behind with rfl | ⟨front, last, rfl⟩
  · obtain ⟨rfl, hlast⟩ := List.append_inj' heq rfl
    cases hlast
    exact hc
  · have hcut : log = before ++ (k', c') :: front := by
      have happ : log ++ [(k, c)] = (before ++ (k', c') :: front) ++ [last] := by
        rw [heq]
        simp
      exact (List.append_inj' happ rfl).1
    exact h before k' c' front hcut

end Labelled

end Helmoci.CallRecords
