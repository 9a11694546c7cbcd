import Helmoci.RustText

/-!
# Expansion of shell references

The text is cut into pieces from the left: references `$NAME`, `${NAME}` and
`${NAME:-default}`, and single characters of everything else. A reference to a variable
that is set is replaced by its value, one with a default by the default as it stands, and
any other one is kept. What was inserted is not read again, so a reference of the expanded
text need not be one that was looked up.
-/
namespace Helmoci.ShellExpansion
open RustText

inductive Piece where
  | plain (c : Char)
  /-- A dollar sign in front of nothing that is a reference, or two of them. -/
  | dollar
  /-- An opened reference that is not closed. -/
  | opened
  | bare (name : Str)
  /-- What stands between the braces, cut at the default. -/
  | braced (inner name : Str) (default : Option Str)
deriving DecidableEq

/-- The text in front of the first `:-` and the one behind it. -/
def splitDefault : Str → Option (Str × Str)
  | ':' :: '-' :: s => some ([], s)
  | c :: s => (splitDefault s).map fun p => (c :: p.1, p.2)
  | [] => none

/-- A default needs a name in front of it. -/
def bracedPiece (inner : Str) : Piece :=
  match splitDefault inner with
  | some (c :: name, default) => .braced inner (c :: name) (some default)
  | _ => .braced inner inner none

section Scanning
variable (nameChar : Char → Bool)

def scanLoop : ℕ → Str → List Piece
  | fuel + 1, '$' :: '{' :: s =>
    match splitOnce '}' s with
    | some (inner, rest) => bracedPiece inner :: scanLoop fuel rest
    | none => .opened :: scanLoop fuel s
  | fuel + 1, '$' :: '$' :: s => .dollar :: scanLoop fuel s
  | fuel + 1, '$' :: s =>
    let name := s.takeWhile nameChar
    if name.isEmpty then .dollar :: scanLoop fuel s
    else .bare name :: scanLoop fuel (s.dropWhile nameChar)
  | fuel + 1, c :: s => .plain c :: scanLoop fuel s
  | _, _ => []

/-- Every piece takes a character at least. -/
def scan (text : Str) : List Piece := scanLoop nameChar text.length text

variable (env : Str → Option Str)

def Piece.expand : Piece → Str
  | .plain c => [c]
  | .dollar => ['$']
  | .opened => str "$\x7b"
  | .bare name => (env name).getD ('$' :: name)
  | .braced inner name default =>
    (env name).getD (default.getD (str "$\x7b" ++ (inner ++ str "\x7d")))

def Piece.name? : Piece → Option Str
  | .bare name | .braced _ name _ => some name
  | .plain _ | .dollar | .opened => none

def expandPieces (pieces : List Piece) : Str := pieces.flatMap (Piece.expand env)

/-- `shellexpand::env_with_context` with a lookup that never fails. -/
def expandText (text : Str) : Str := expandPieces env (scan nameChar text)

/-- The names that are looked up, in order. -/
def lookups (text : Str) : List Str := (scan nameChar text).filterMap Piece.name?

/-- The name of a reference behind its dollar sign, as a reader of the text sees it. -/
def referenceAt : Str → Option Str
  | '{' :: s => (splitOnce '}' s).map Prod.fst
  | s =>
    let name := s.takeWhile nameChar
    if name.isEmpty then none else some name

/-- The names of all references in a text: `${NAME}`, and `$NAME` with the name as long as
it can be. -/
def references : Str → List Str
  | [] => []
  | c :: s => if c = '$' then (referenceAt nameChar s).toList ++ references s else references s

end Scanning

example : expandText Char.isAlphanum (fun name => if name = str "B" then some (str "X") else none)
      (str "$A $B $\x7bA\x7d $\x7bA:-d$\x7d $\x7b:-d\x7d $- $\x7bB") =
    str "$A X $\x7bA\x7d d$ $\x7b:-d\x7d $- $\x7bB" ∧
    references Char.isAlphanum (str "$AX-$\x7bB\x7d$") = [str "AX", str "B"] := by decide

/-- What the scanner makes of a text. -/
def Piece.WellFormed (nameChar : Char → Bool) : Piece → Prop
  | .plain c => c ≠ '$'
  | .dollar | .opened => True
  | .bare name => name ≠ [] ∧ ∀ c ∈ name, nameChar c = true
  | .braced inner name default => '}' ∉ inner ∧ (default = none → name = inner)

/-- No reference begins in what the piece leaves in the text but the one that was looked
up. -/
def Piece.Clean (nameChar : Char → Bool) (env : Str → Option Str) (behind : Str) : Piece → Prop
  | .plain _ => True
  | .dollar => ∀ c ∈ behind.head?, nameChar c = false ∧ c ≠ '{'
  | .opened => '}' ∉ behind
  | .bare name => env name = none → ∀ c ∈ behind.head?, nameChar c = false
  | .braced inner name default => env name = none → '$' ∉ default.getD inner

def CleanPieces (nameChar : Char → Bool) (env : Str → Option Str) : List Piece → Prop
  | [] => True
  | p :: ps => p.Clean nameChar env (expandPieces env ps) ∧ CleanPieces nameChar env ps

instance (nameChar : Char → Bool) (env : Str → Option Str) (behind : Str) (p : Piece) :
    Decidable (p.Clean nameChar env behind) :=
  match p with
  | .plain _ => inferInstanceAs (Decidable True)
  | .dollar => inferInstanceAs (Decidable (∀ c ∈ behind.head?, nameChar c = false ∧ c ≠ '{'))
  | .opened => inferInstanceAs (Decidable ('}' ∉ behind))
  | .bare name =>
    inferInstanceAs (Decidable (env name = none → ∀ c ∈ behind.head?, nameChar c = false))
  | .braced inner name default =>
    inferInstanceAs (Decidable (env name = none → '$' ∉ default.getD inner))

instance decidableCleanPieces (nameChar : Char → Bool) (env : Str → Option Str) :
    (pieces : List Piece) → Decidable (CleanPieces nameChar env pieces)
  | [] => inferInstanceAs (Decidable True)
  | p :: ps =>
    have := decidableCleanPieces nameChar env ps
    inferInstanceAs (Decidable (p.Clean nameChar env (expandPieces env ps) ∧
      CleanPieces nameChar env ps))

theorem cleanPieces_plain (nameChar : Char → Bool) (env : Str → Option Str) (s : Str)
    (pieces : List Piece) : CleanPieces nameChar env (s.map Piece.plain ++ pieces) ↔
      CleanPieces nameChar env pieces := by
  induction s with
  | nil => rfl
  | cons c s ih => exact (and_iff_right trivial).trans ih

/-- What is inserted makes no reference, neither alone nor with what stands around it. -/
def Clean (nameChar : Char → Bool) (env : Str → Option Str) (text : Str) : Prop :=
  CleanPieces nameChar env (scan nameChar text)

instance (nameChar : Char → Bool) (env : Str → Option Str) (text : Str) :
    Decidable (Clean nameChar env text) :=
  inferInstanceAs (Decidable (CleanPieces nameChar env (scan nameChar text)))

section References
variable {nameChar : Char → Bool} {env : Str → Option Str}

theorem mem_references_iff {name s : Str} : name ∈ references nameChar s ↔
    ∃ a b, s = a ++ '$' :: b ∧ referenceAt nameChar b = some name := by
  induction s with
  | nil => simp [references]
  | cons c s ih =>
      by_cases hc : c = '$'
      · subst hc
        rw [references, if_pos rfl, List.mem_append, Option.mem_toList, ih]
        constructor
        · rintro (h | ⟨a, b, rfl, h⟩)
          · exact ⟨[], s, rfl, h⟩
          · exact ⟨'$' :: a, b, rfl, h⟩
        · intro ⟨a, b, hs, h⟩
          cases a with
          | nil =>
              cases hs
              exact Or.inl h
          | cons d a =>
              cases hs
              exact Or.inr ⟨a, b, rfl, h⟩
      · rw [references, if_neg hc, ih]
        constructor
        · intro ⟨a, b, hs, h⟩
          exact ⟨c :: a, b, by rw [hs]; rfl, h⟩
        · intro ⟨a, b, hs, h⟩
          cases a with
          | nil =>
              cases hs
              exact absurd rfl hc
          | cons d a =>
              cases hs
              exact ⟨a, b, rfl, h⟩

/-- A reference begins in the first text or in the second one. -/
theorem mem_references_append {name out behind : Str}
    (h : name ∈ references nameChar (out ++ behind)) :
    (∃ a b, out = a ++ '$' :: b ∧ referenceAt nameChar (b ++ behind) = some name) ∨
      name ∈ references nameChar behind := by
  induction out with
  | nil => exact Or.inr h
  | cons c out ih =>
      rw [List.cons_append, references] at h
      have later : name ∈ references nameChar (out ++ behind) →
          (∃ a b, c :: out = a ++ '$' :: b ∧ referenceAt nameChar (b ++ behind) = some name) ∨
            name ∈ references nameChar behind := by
        intro hlater
        rcases ih hlater with ⟨a, b, hout, hat⟩ | hbehind
        · exact Or.inl ⟨c :: a, b, by rw [hout]; rfl, hat⟩
        · exact Or.inr hbehind
      split at h
      · rename_i hc
        rcases List.mem_append.mp h with h | h
        · exact Or.inl ⟨[], out, by rw [hc]; rfl, Option.mem_toList.mp h⟩
        · exact later h
      · exact later h

theorem referenceAt_cons {c : Char} (hc : c ≠ '{') (s : Str) : referenceAt nameChar (c :: s) =
    if ((c :: s).takeWhile nameChar).isEmpty then none
    else some ((c :: s).takeWhile nameChar) := by
  rw [referenceAt.eq_def]
  split
  · rename_i heq
    cases heq
    exact absurd rfl hc
  · rfl

theorem referenceAt_name {name behind : Str} (hbrace : nameChar '{' = false) (hne : name ≠ [])
    (hname : ∀ c ∈ name, nameChar c = true) (hend : ∀ c ∈ behind.head?, nameChar c = false) :
    referenceAt nameChar (name ++ behind) = some name := by
  obtain ⟨c, s, rfl⟩ := List.exists_cons_of_ne_nil hne
  have hc : c ≠ '{' := by
    rintro rfl
    rw [hname '{' (by simp)] at hbrace
    contradiction
  have htake : (c :: s ++ behind).takeWhile nameChar = c :: s := by
    rw [List.takeWhile_append_of_pos hname]
    cases behind with
    | nil => simp
    | cons d behind => simp [hend d rfl]
  rw [List.cons_append, referenceAt_cons hc, ← List.cons_append, htake]
  rfl

theorem referenceAt_braced {inner : Str} (h : '}' ∉ inner) (behind : Str) :
    referenceAt nameChar ('{' :: (inner ++ '}' :: behind)) = some inner := by
  rw [referenceAt, splitOnce_append h]
  rfl

/-- What a kept piece leaves refers to the name that was looked up. -/
theorem reference_of_piece (hdollar : nameChar '$' = false) (hbrace : nameChar '{' = false)
    (henv : ∀ name value, env name = some value → '$' ∉ value) {p : Piece} {behind name : Str}
    (hwf : p.WellFormed nameChar) (hclean : p.Clean nameChar env behind) {a b : Str}
    (hout : p.expand env = a ++ '$' :: b) (hat : referenceAt nameChar (b ++ behind) = some name) :
    p.name? = some name ∧ env name = none := by
  have inserted : ∀ {name' value : Str}, env name' = some value → value = a ++ '$' :: b → False := by
    intro name' value hv he
    apply henv name' value hv
    rw [he]
    simp
  cases p with
  | plain c =>
      -- no other character than the one that is there
      have hmem : '$' ∈ [c] := by
        change [c] = _ at hout
        rw [hout]
        simp
      exact absurd (List.mem_singleton.mp hmem).symm hwf
  | dollar =>
      obtain ⟨rfl, rfl⟩ : a = [] ∧ b = [] := by
        cases a with
        | nil => exact ⟨rfl, by simpa [Piece.expand] using hout.symm⟩
        | cons c a => simp [Piece.expand] at hout
      cases behind with
      | nil => simp [referenceAt] at hat
      | cons c behind =>
          obtain ⟨hc, hne⟩ := hclean c rfl
          rw [List.nil_append, referenceAt.eq_def] at hat
          split at hat
          · rename_i heq
            cases heq
            exact absurd rfl hne
          · simp [hc] at hat
  | opened =>
      obtain ⟨rfl, rfl⟩ : a = [] ∧ b = ['{'] := by
        change ['$', '{'] = _ at hout
        cases a with
        | nil =>
            cases hout
            exact ⟨rfl, rfl⟩
        | cons c a =>
            cases a with
            | nil => simp at hout
            | cons d a => simp at hout
      obtain ⟨⟨inner, rest⟩, hsplit, -⟩ := Option.map_eq_some_iff.mp hat
      apply absurd _ hclean
      have hcut : behind = inner ++ '}' :: rest := splitOnce_eq_some hsplit
      rw [hcut]
      simp
  | bare name' =>
      cases hv : env name' with
      | some value =>
          have hval : value = a ++ '$' :: b := by simpa [Piece.expand, hv] using hout
          exact (inserted hv hval).elim
      | none =>
          have hkept : '$' :: name' = a ++ '$' :: b := by simpa [Piece.expand, hv] using hout
          have hno : '$' ∉ name' := by
            intro hm
            rw [hwf.2 _ hm] at hdollar
            contradiction
          obtain ⟨rfl, rfl⟩ : a = [] ∧ b = name' := by
            cases a with
            | nil =>
                cases hkept
                exact ⟨rfl, rfl⟩
            | cons c a =>
                cases hkept
                exact absurd (by simp) hno
          rw [referenceAt_name hbrace hwf.1 hwf.2 (hclean hv)] at hat
          cases hat
          exact ⟨rfl, hv⟩
  | braced inner name' default =>
      cases hv : env name' with
      | some value =>
          have hval : value = a ++ '$' :: b := by simpa [Piece.expand, hv] using hout
          exact (inserted hv hval).elim
      | none =>
          have hno := hclean hv
          cases default with
          | some d =>
              have hd : d = a ++ '$' :: b := by simpa [Piece.expand, hv] using hout
              apply absurd _ hno
              change '$' ∈ d
              rw [hd]
              simp
          | none =>
              obtain rfl := hwf.2 rfl
              have hkept : '$' :: '{' :: (name' ++ ['}']) = a ++ '$' :: b := by
                simpa [Piece.expand, hv, str] using hout
              have hrest : '$' ∉ '{' :: (name' ++ ['}']) := by
                simp only [List.mem_cons, List.mem_append, List.not_mem_nil, or_false, not_or]
                exact ⟨by decide, hno, by decide⟩
              obtain ⟨rfl, rfl⟩ : a = [] ∧ b = '{' :: (name' ++ ['}']) := by
                cases a with
                | nil =>
                    cases hkept
                    exact ⟨rfl, rfl⟩
                | cons c a =>
                    obtain ⟨rfl, htail⟩ := List.cons.inj hkept
                    apply absurd _ hrest
                    rw [htail]
                    simp
              have hbraced := @referenceAt_braced nameChar name' hwf.1 behind
              have htext : '{' :: (name' ++ ['}']) ++ behind = '{' :: (name' ++ '}' :: behind) := by
                simp
              rw [htext, hbraced] at hat
              cases hat
              exact ⟨rfl, hv⟩

/-- In clean pieces only unset variables that were looked up are referred to. -/
theorem reference_of_pieces (hdollar : nameChar '$' = false) (hbrace : nameChar '{' = false)
    (henv : ∀ name value, env name = some value → '$' ∉ value) {pieces : List Piece} {name : Str}
    (hwf : ∀ p ∈ pieces, p.WellFormed nameChar) (hclean : CleanPieces nameChar env pieces)
    (h : name ∈ references nameChar (expandPieces env pieces)) :
    name ∈ pieces.filterMap Piece.name? ∧ env name = none := by
  induction pieces with
  | nil => simp [expandPieces, references] at h
  | cons p pieces ih =>
      rcases mem_references_append h with ⟨a, b, hout, hat⟩ | hbehind
      · obtain ⟨hname, hunset⟩ := reference_of_piece hdollar hbrace henv (hwf p (by simp)) hclean.1
          hout hat
        exact ⟨List.mem_filterMap.mpr ⟨p, by simp, hname⟩, hunset⟩
      · obtain ⟨hmem, hunset⟩ := ih (fun p hp => hwf p (List.mem_cons_of_mem _ hp)) hclean.2 hbehind
        obtain ⟨q, hq, hn⟩ := List.mem_filterMap.mp hmem
        exact ⟨List.mem_filterMap.mpr ⟨q, List.mem_cons_of_mem _ hq, hn⟩, hunset⟩

theorem bracedPiece_wellFormed {inner : Str} (h : '}' ∉ inner) :
    (bracedPiece inner).WellFormed nameChar := by
  unfold bracedPiece
  split
  · refine ⟨h, ?_⟩
    intro hd
    contradiction
  · exact ⟨h, fun _ => rfl⟩

theorem scanLoop_wellFormed (fuel : ℕ) (s : Str) :
    ∀ p ∈ scanLoop nameChar fuel s, p.WellFormed nameChar := by
  induction fuel generalizing s with
  | zero => simp [scanLoop]
  | succ fuel ih =>
      intro p hp
      unfold scanLoop at hp
      split at hp
      · rename_i fuel' s heq
        cases heq
        split at hp
        · rename_i inner rest hsplit
          rcases List.mem_cons.mp hp with rfl | hp
          · exact bracedPiece_wellFormed (not_mem_of_splitOnce hsplit)
          · exact ih _ p hp
        · rcases List.mem_cons.mp hp with rfl | hp
          · trivial
          · exact ih _ p hp
      · rename_i fuel' s heq
        cases heq
        rcases List.mem_cons.mp hp with rfl | hp
        · trivial
        · exact ih _ p hp
      · rename_i fuel' s _ _ heq
        cases heq
        dsimp only at hp
        split at hp
        · rcases List.mem_cons.mp hp with rfl | hp
          · trivial
          · exact ih _ p hp
        · rename_i hne
          rcases List.mem_cons.mp hp with rfl | hp
          · exact ⟨by simpa using hne, fun c hc => List.mem_takeWhile_imp hc⟩
          · exact ih _ p hp
      · rename_i fuel' c s _ _ hc heq
        cases heq
        rcases List.mem_cons.mp hp with rfl | hp
        · exact hc
        · exact ih _ p hp
      · simp at hp

/-- A clean text is expanded to one whose references were all looked up. -/
theorem reference_of_clean (hdollar : nameChar '$' = false) (hbrace : nameChar '{' = false)
    (henv : ∀ name value, env name = some value → '$' ∉ value) {text name : Str}
    (hclean : Clean nameChar env text) (h : name ∈ references nameChar (expandText nameChar env text)) :
    name ∈ lookups nameChar text ∧ env name = none :=
  reference_of_pieces hdollar hbrace henv (scanLoop_wellFormed _ _) hclean h

/-- A piece of a text that does not end within a name refers to what the text refers to. -/
theorem mem_references_of_piece (before : Str) {value behind name : Str}
    (hend : ∀ c ∈ behind.head?, nameChar c = false) (h : name ∈ references nameChar value) :
    name ∈ references nameChar (before ++ (value ++ behind)) := by
  obtain ⟨a, b, rfl, hat⟩ := mem_references_iff.mp h
  refine mem_references_iff.mpr ⟨before ++ a, b ++ behind, by simp, ?_⟩
  have hstop : behind.takeWhile nameChar = [] := by
    cases behind with
    | nil => rfl
    | cons c behind => simp [hend c rfl]
  cases b with
  | nil => simp [referenceAt] at hat
  | cons c b =>
      by_cases hc : c = '{'
      · subst hc
        obtain ⟨⟨inner, rest⟩, hsplit, hname⟩ := Option.map_eq_some_iff.mp hat
        have hcut : b ++ behind = inner ++ '}' :: (rest ++ behind) := by
          rw [splitOnce_eq_some hsplit]
          simp
        cases hname
        rw [List.cons_append, hcut]
        exact referenceAt_braced (not_mem_of_splitOnce hsplit) _
      · have htake : (c :: b ++ behind).takeWhile nameChar = (c :: b).takeWhile nameChar := by
          rw [List.takeWhile_append, hstop, List.append_nil]
          split
          · rename_i hlen
            exact ((List.takeWhile_prefix nameChar).eq_of_length hlen).symm
          · rfl
        rw [referenceAt_cons hc] at hat
        rw [List.cons_append, referenceAt_cons hc, ← List.cons_append, htake]
        exact hat

end References

end Helmoci.ShellExpansion
