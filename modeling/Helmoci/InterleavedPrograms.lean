import Helmoci.EffectPrograms

/-!
# Programs among others

`Guards` is a rely-guarantee triple. Between two calls the others may move the state
as the rely relation allows, each call of the program stays within its guarantee,
and where the program ends its postcondition holds and keeps holding. A system runs
any number of programs one call at a time, and any of them may be given up between
two calls. Where every guarantee is within the rely of the others, an invariant that
guarantees preserve holds in every reachable state.
-/
namespace Helmoci.InterleavedPrograms
open EffectPrograms

variable {Op : Type} {Ans : Op → Type} {A B E S : Type}

/-- What a call of the program may do, given its answer. -/
abbrev Guarantee (Op : Type) (Ans : Op → Type) (S : Type) := (op : Op) → S → Ans op → S → Prop

def Guards (W : World Op Ans S) (R : S → S → Prop) (G : Guarantee Op Ans S) (Q : A → S → Prop) :
    Program Op Ans A → S → Prop
  | .pure a, s => ∀ t, R s t → Q a t
  | .call op next, s => ∀ m, R s m → ∀ r t, W op m r t → G op m r t ∧ Guards W R G Q (next r) t

section Rules
variable {W : World Op Ans S} {R : S → S → Prop} {G : Guarantee Op Ans S}

theorem Guards.conseq {Q Q' : A → S → Prop} {p : Program Op Ans A} {s : S}
    (h : Guards W R G Q p s) (hq : ∀ a t, Q a t → Q' a t) : Guards W R G Q' p s := by
  induction p generalizing s with
  | pure a =>
      intro t ht
      exact hq a t (h t ht)
  | call op next ih =>
      intro m hm r t hw
      obtain ⟨hg, hn⟩ := h m hm r t hw
      exact ⟨hg, ih r hn⟩

theorem Guards.stable {Q : A → S → Prop} {p : Program Op Ans A} {s t : S}
    (trans : ∀ {a b c}, R a b → R b c → R a c) (h : Guards W R G Q p s) (hst : R s t) :
    Guards W R G Q p t := by
  cases p with
  | pure a =>
      intro u hu
      exact h u (trans hst hu)
  | call op next =>
      intro m hm
      exact h m (trans hst hm)

theorem Guards.bind {Q : A → S → Prop} {Q' : B → S → Prop} {p : Program Op Ans A}
    {f : A → Program Op Ans B} {s : S} (refl : ∀ a, R a a) (h : Guards W R G Q p s)
    (hf : ∀ a t, Q a t → Guards W R G Q' (f a) t) : Guards W R G Q' (p.bind f) s := by
  induction p generalizing s with
  | pure a => exact hf a s (h s (refl s))
  | call op next ih =>
      intro m hm r t hw
      obtain ⟨hg, hn⟩ := h m hm r t hw
      exact ⟨hg, ih r hn⟩

/-- Two programs of which the second one runs only if the first one does not fail. -/
theorem Guards.tryBind {Q : Except E A → S → Prop} {Q' : Except E B → S → Prop}
    {p : ExceptT E (Program Op Ans) A} {f : A → ExceptT E (Program Op Ans) B} {s : S}
    (refl : ∀ a, R a a) (h : Guards W R G Q p s)
    (herr : ∀ e t u, Q (.error e) t → R t u → Q' (.error e) u)
    (hok : ∀ a t, Q (.ok a) t → Guards W R G Q' (f a) t) :
    Guards W R G Q' (p >>= f : ExceptT E (Program Op Ans) B) s := by
  apply Guards.bind refl h
  intro r t hr
  cases r with
  | error e =>
      intro u hu
      exact herr e t u hr hu
  | ok a => exact hok a t hr

/-- Assertions that hold of single calls are a guarantee. -/
theorem Guards.of_ensures {N : (op : Op) → Ans op → Prop} {P : Op → Prop} {Q : A → Prop}
    {p : Program Op Ans A} {s : S} (h : Ensures N P Q p)
    (hw : ∀ op s r t, P op → W op s r t → N op r ∧ G op s r t) :
    Guards W R G (fun a _ => Q a) p s := by
  induction p generalizing s with
  | pure a =>
      intro _ _
      exact h
  | call op next ih =>
      obtain ⟨hop, hnext⟩ := h
      intro m _ r t hwr
      obtain ⟨hn, hg⟩ := hw op m r t hop hwr
      exact ⟨hg, ih r (hnext r hn)⟩

/-- A program that runs alone ends in its postcondition. -/
theorem Guards.runs {Q : A → S → Prop} {p : Program Op Ans A} {s t : S} {a : A}
    {cs : List (Call Op Ans)} (refl : ∀ a, R a a) (h : Guards W R G Q p s)
    (hr : Runs W p s cs a t) : Q a t := by
  induction hr with
  | pure a s => exact h s (refl s)
  | call hw _ ih => exact ih (h _ (refl _) _ _ hw).2

/-- What each call preserves, a program that runs alone preserves. -/
theorem Guards.preserves {Q : A → S → Prop} {p : Program Op Ans A} {s t : S} {a : A}
    {cs : List (Call Op Ans)} {I : S → Prop} (refl : ∀ a, R a a) (h : Guards W R G Q p s)
    (hI : ∀ op s r t, G op s r t → I s → I t) (hr : Runs W p s cs a t) (hs : I s) : I t := by
  induction hr with
  | pure a s => exact hs
  | call hw _ ih =>
      obtain ⟨hg, hn⟩ := h _ (refl _) _ _ hw
      exact ih hn (hI _ _ _ _ hg hs)

section Join
variable {turn : Op} {left : Ans turn → Bool}

/-- The ends of two joined programs: both results, or the failure of one. -/
def Joined (Q₁ : Except E A → S → Prop) (Q₂ : Except E B → S → Prop) :
    Except E (A × B) → S → Prop
  | .ok (a, b), s => Q₁ (.ok a) s ∧ Q₂ (.ok b) s
  | .error e, s => Q₁ (.error e) s ∨ Q₂ (.error e) s

variable {Q₁ : Except E A → S → Prop} {Q₂ : Except E B → S → Prop}

/-- Two programs whose guarantees are within each other's rely can take turns. -/
theorem Guards.tryJoin (trans : ∀ {a b c}, R a b → R b c → R a c)
    (hG : ∀ {op s r t}, G op s r t → R s t) (hturn : ∀ {s c t}, W turn s c t → G turn s c t)
    {p : Program Op Ans (Except E A)} {q : Program Op Ans (Except E B)} {s : S}
    (hp : Guards W R G Q₁ p s) (hq : Guards W R G Q₂ q s) :
    Guards W R G (Joined Q₁ Q₂) (tryJoin turn left p q) s := by
  induction p generalizing q s with
  | pure r =>
      cases r with
      | error e =>
          intro t ht
          exact Or.inl (hp t ht)
      | ok a =>
          -- the first result is kept while the second program goes on
          have keep : ∀ {q : Program Op Ans (Except E B)} {s : S}, (∀ t, R s t → Q₁ (.ok a) t) →
              Guards W R G Q₂ q s →
              Guards W R G (Joined Q₁ Q₂) (q.bind fun b => .pure (b.map fun b => (a, b))) s := by
            intro q
            induction q with
            | pure r =>
                intro s hp hq t ht
                cases r with
                | error e => exact Or.inr (hq t ht)
                | ok b => exact ⟨hp t ht, hq t ht⟩
            | call op next ih =>
                intro s hp hq m hm r t hw
                obtain ⟨hg, hn⟩ := hq m hm r t hw
                refine ⟨hg, ih r ?_ hn⟩
                intro u hu
                exact hp u (trans hm (trans (hG hg) hu))
          exact keep hp hq
  | call op next ih =>
      induction q generalizing s with
      | pure r =>
          cases r with
          | error e =>
              intro t ht
              exact Or.inr (hq t ht)
          | ok b =>
              have keep : ∀ {p : Program Op Ans (Except E A)} {s : S},
                  (∀ t, R s t → Q₂ (.ok b) t) → Guards W R G Q₁ p s →
                  Guards W R G (Joined Q₁ Q₂) (p.bind fun a => .pure (a.map fun a => (a, b))) s := by
                intro p
                induction p with
                | pure r =>
                    intro s hq hp t ht
                    cases r with
                    | error e => exact Or.inl (hp t ht)
                    | ok a => exact ⟨hp t ht, hq t ht⟩
                | call op next ih =>
                    intro s hq hp m hm r t hw
                    obtain ⟨hg, hn⟩ := hp m hm r t hw
                    refine ⟨hg, ih r ?_ hn⟩
                    intro u hu
                    exact hq u (trans hm (trans (hG hg) hu))
              exact keep hq hp
      | call op' next' ih' =>
          intro m hm c t hw
          have hg := hturn hw
          refine ⟨hg, ?_⟩
          have hst := trans hm (hG hg)
          dsimp only
          split
          · intro m' hm' r t' hw'
            obtain ⟨hg', hn⟩ := hp m' (trans hst hm') r t' hw'
            exact ⟨hg', ih r hn (hq.stable trans (trans hst (trans hm' (hG hg'))))⟩
          · intro m' hm' r t' hw'
            obtain ⟨hg', hn⟩ := hq m' (trans hst hm') r t' hw'
            exact ⟨hg', ih' r (hp.stable trans (trans hst (trans hm' (hG hg')))) hn⟩

end Join
end Rules

section System
variable {K : Type} (W : K → World Op Ans S) (Admitted : K → Program Op Ans A → Prop)

/-- The state and the programs that have not ended, each with its kind. -/
abbrev System (Op : Type) (Ans : Op → Type) (A S K : Type) := S × List (K × Program Op Ans A)

inductive Step : System Op Ans A S K → System Op Ans A S K → Prop
  | start {s : S} {ts : List (K × Program Op Ans A)} {k : K} {p : Program Op Ans A} :
      Admitted k p → Step (s, ts) (s, (k, p) :: ts)
  | step {s t : S} {ts us : List (K × Program Op Ans A)} {k : K} {op : Op}
      {next : Ans op → Program Op Ans A} {r : Ans op} : W k op s r t →
      Step (s, ts ++ (k, .call op next) :: us) (t, ts ++ (k, next r) :: us)
  | leave {s : S} {ts us : List (K × Program Op Ans A)} {k : K} {p : Program Op Ans A} :
      Step (s, ts ++ (k, p) :: us) (s, ts ++ us)

inductive Reachable (s₀ : S) : System Op Ans A S K → Prop
  | start : Reachable s₀ (s₀, [])
  | step {x y : System Op Ans A S K} : Reachable s₀ x → Step W Admitted x y → Reachable s₀ y

variable {W Admitted}

/-- A program of a reachable system may run to its end before the others go on. -/
theorem Reachable.runs {s₀ s t : S} (ts : List (K × Program Op Ans A))
    {us : List (K × Program Op Ans A)} {k : K} {p : Program Op Ans A} {cs : List (Call Op Ans)} {a : A}
    (h : Reachable W Admitted s₀ (s, ts ++ (k, p) :: us)) (hr : Runs (W k) p s cs a t) :
    Reachable W Admitted s₀ (t, ts ++ (k, .pure a) :: us) := by
  induction hr with
  | pure a s => exact h
  | call hw _ ih => exact ih (h.step (.step hw))

/-- Each kind of program keeps to what the others rely on and preserves the invariant. -/
structure Compatible (W : K → World Op Ans S) (Admitted : K → Program Op Ans A → Prop)
    (R : S → S → Prop) (G : K → Guarantee Op Ans S) (Q : K → A → S → Prop) (I : S → Prop) :
    Prop where
  refl : ∀ s, R s s
  trans : ∀ s t u, R s t → R t u → R s u
  guarantee : ∀ k op s r t, G k op s r t → I s → I t ∧ R s t
  guards : ∀ k p s, Admitted k p → I s → Guards (W k) R (G k) (Q k) p s

variable {R : S → S → Prop} {G : K → Guarantee Op Ans S} {Q : K → A → S → Prop} {I : S → Prop}

/-- The invariant holds and every program is still guarded. -/
def Safe (W : K → World Op Ans S) (R : S → S → Prop) (G : K → Guarantee Op Ans S)
    (Q : K → A → S → Prop) (I : S → Prop) (x : System Op Ans A S K) : Prop :=
  I x.1 ∧ ∀ p ∈ x.2, Guards (W p.1) R (G p.1) (Q p.1) p.2 x.1

/-- One step keeps the system safe. -/
theorem Step.safe (hc : Compatible W Admitted R G Q I) {x y : System Op Ans A S K}
    (h : Step W Admitted x y) (hx : Safe W R G Q I x) : Safe W R G Q I y := by
  obtain ⟨hi, hts⟩ := hx
  cases h with
  | start ha =>
      refine ⟨hi, ?_⟩
      intro p hp
      rcases List.mem_cons.mp hp with rfl | hp
      · exact hc.guards _ _ _ ha hi
      · exact hts p hp
  | step hw =>
      rename_i s t ts us k op next r
      have hthis := hts (k, .call op next) (by simp)
      obtain ⟨hg, hn⟩ := hthis s (hc.refl s) r t hw
      obtain ⟨hi', hr⟩ := hc.guarantee _ _ _ _ _ hg hi
      have htrans : ∀ {a b c}, R a b → R b c → R a c := fun h₁ h₂ => hc.trans _ _ _ h₁ h₂
      refine ⟨hi', ?_⟩
      intro p hp
      rcases List.mem_append.mp hp with hp | hp
      · exact (hts p (List.mem_append_left _ hp)).stable htrans hr
      · rcases List.mem_cons.mp hp with rfl | hp
        · exact hn
        · exact (hts p (by simp [hp])).stable htrans hr
  | leave =>
      rename_i s ts us k p
      refine ⟨hi, ?_⟩
      intro q hq
      refine hts q ?_
      rcases List.mem_append.mp hq with hq | hq <;> simp [hq]

/-- One step is within what the others rely on. -/
theorem Step.kept (hc : Compatible W Admitted R G Q I) {x y : System Op Ans A S K}
    (h : Step W Admitted x y) (hx : Safe W R G Q I x) : R x.1 y.1 := by
  obtain ⟨hi, hts⟩ := hx
  cases h with
  | start _ => exact hc.refl _
  | step hw =>
      rename_i s t ts us k op next r
      have hthis := hts (k, .call op next) (by simp)
      exact (hc.guarantee _ _ _ _ _ (hthis s (hc.refl s) r t hw).1 hi).2
  | leave => exact hc.refl _

/-- An invariant that every guarantee preserves holds in every reachable state. -/
theorem Reachable.safe (hc : Compatible W Admitted R G Q I) {s₀ : S} (h₀ : I s₀)
    {x : System Op Ans A S K} (h : Reachable W Admitted s₀ x) : Safe W R G Q I x := by
  induction h with
  | start => exact ⟨h₀, by simp⟩
  | step _ hs ih => exact hs.safe hc ih

section Assumptions
variable {N : (op : Op) → Ans op → Prop} {P : K → Op → Prop} {Q : K → A → Prop}
  (hworld : ∀ k op s r t, I s → P k op → W k op s r t → N op r ∧ I t)
include hworld

/-- One step keeps the invariant, and what is ensured of the programs that have not ended. -/
theorem Step.ensures (hadmitted : ∀ k p, Admitted k p → Ensures N (P k) (Q k) p)
    {x y : System Op Ans A S K} (h : Step W Admitted x y) (hi : I x.1)
    (hts : ∀ p ∈ x.2, Ensures N (P p.1) (Q p.1) p.2) :
    I y.1 ∧ ∀ p ∈ y.2, Ensures N (P p.1) (Q p.1) p.2 := by
  cases h with
  | start ha => exact ⟨hi, List.forall_mem_cons.mpr ⟨hadmitted _ _ ha, hts⟩⟩
  | step hw =>
      rename_i s t ts us k op next r
      obtain ⟨hop, hnext⟩ := hts (k, .call op next) (by simp)
      obtain ⟨hr, hi'⟩ := hworld _ _ _ _ _ hi hop hw
      refine ⟨hi', ?_⟩
      intro p hp
      rcases List.mem_append.mp hp with hp | hp
      · exact hts p (List.mem_append_left _ hp)
      · rcases List.mem_cons.mp hp with rfl | hp
        · exact hnext r hr
        · exact hts p (by simp [hp])
  | leave =>
      rename_i s ts us k p
      refine ⟨hi, ?_⟩
      intro q hq
      refine hts q ?_
      rcases List.mem_append.mp hq with hq | hq <;> simp [hq]

/-- Where the answers in the states of an invariant are as the programs assume, and their calls
preserve it, what is ensured of each program holds of what is left of it. -/
theorem Reachable.ensures (hadmitted : ∀ k p, Admitted k p → Ensures N (P k) (Q k) p) {s₀ : S}
    (h₀ : I s₀) {x : System Op Ans A S K} (h : Reachable W Admitted s₀ x) :
    I x.1 ∧ ∀ p ∈ x.2, Ensures N (P p.1) (Q p.1) p.2 := by
  induction h with
  | start => exact ⟨h₀, by simp⟩
  | step _ hs ih => exact hs.ensures hworld hadmitted ih.1 ih.2

end Assumptions

end System
end Helmoci.InterleavedPrograms
