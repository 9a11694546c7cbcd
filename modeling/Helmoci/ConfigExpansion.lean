import Helmoci.Configuration
import Helmoci.PlainUrls
import Helmoci.ServerErrors
import Helmoci.ShellExpansion

/-!
# Reading the configuration

The text is expanded from the environment, read as YAML and validated with the names that
the expansion has looked up in vain. A secret is refused if it still refers to one of
these. What it misses are references that the expansion has made and never looked up: the
text of a default, a name within another reference, or inserted text that continues what
stands in front of it. Where the expansion makes none of these, no secret of an accepted
configuration keeps a reference to an unset variable.
-/
namespace Helmoci.ConfigExpansion
open RustText SegmentedText UrlInterface NameResolver Helmoci.Configuration PlainUrls ShellExpansion

section Parsing
variable (lib : UrlCrate) (isAlphanumeric : Char → Bool) (debug : Str → Str)
  (env : Str → Option Str) (readYaml : Str → Except Str Config)

def nameChar (c : Char) : Bool := isAlphanumeric c || c == '_'

/-- The names that were looked up and are not set, in order. -/
def missingVars (raw : Str) : List Str :=
  (((lookups (nameChar isAlphanumeric) raw).filter fun name => (env name).isNone).eraseDups).mergeSort
    fun a b => decide (a ≤ b)

def parseConfig (raw : Str) : Except Str RuntimeConfig := do
  let settings ← readYaml (expandText (nameChar isAlphanumeric) env raw)
  validate lib isAlphanumeric debug settings (missingVars isAlphanumeric env raw)

/-- No secret of an accepted configuration refers to a variable that is not set. -/
def NoUnexpandedSecret (raw : Str) : Prop :=
  ∀ cfg, parseConfig lib isAlphanumeric debug env readYaml raw = .ok cfg →
    ∀ secret ∈ secrets cfg.settings, ∀ name ∈ references (nameChar isAlphanumeric) secret.2,
      env name ≠ none

/-- A scalar without escapes is a part of the text that does not end within a name. -/
def Verbatim (text value : Str) : Prop :=
  ∃ before behind, text = before ++ (value ++ behind) ∧
    ∀ c ∈ behind.head?, nameChar isAlphanumeric c = false

end Parsing

theorem mem_missingVars_iff {isAlphanumeric : Char → Bool} {env : Str → Option Str} {raw name : Str} :
    name ∈ missingVars isAlphanumeric env raw ↔
      name ∈ lookups (nameChar isAlphanumeric) raw ∧ env name = none := by
  simp [missingVars]

section Guard
variable {isAlphanumeric : Char → Bool}

/-- Every occurrence of a pattern with a dollar sign in front only is found. -/
theorem mem_afterMatches {w : Str} (hw : '$' ∉ w) {s a b : Str} {skip : ℕ}
    (hskip : '$' ∉ s.take skip) (hs : s = a ++ '$' :: (w ++ b)) :
    b ∈ afterMatches ('$' :: w) s skip := by
  induction s generalizing a skip with
  | nil => simp at hs
  | cons c s ih =>
      cases skip with
      | succ skip =>
          rw [List.take_succ_cons, List.mem_cons, not_or] at hskip
          cases a with
          | nil =>
              cases hs
              exact absurd rfl hskip.1
          | cons d a =>
              cases hs
              exact ih hskip.2 rfl
      | zero =>
          cases a with
          | nil =>
              cases hs
              have hp : ('$' :: w).isPrefixOf ('$' :: (w ++ b)) = true :=
                List.isPrefixOf_iff_prefix.mpr ⟨b, rfl⟩
              rw [afterMatches, if_pos hp]
              simp
          | cons d a =>
              cases hs
              rw [afterMatches]
              split
              · rename_i hp
                apply List.mem_cons_of_mem
                apply ih _ rfl
                -- what the match covers is the rest of the pattern
                obtain ⟨t, ht⟩ := List.isPrefixOf_iff_prefix.mp hp
                obtain ⟨-, ht⟩ := List.cons.inj ht
                have hlen : ('$' :: w).length - 1 = w.length := rfl
                rw [hlen, ← ht]
                simpa using hw
              · exact ih (by simp) rfl

/-- The guard sees every reference to a name. -/
theorem referencesMissingVar_of_mem (hdollar : nameChar isAlphanumeric '$' = false)
    {value name : Str} (h : name ∈ references (nameChar isAlphanumeric) value) :
    referencesMissingVar isAlphanumeric value name = true := by
  obtain ⟨a, b, rfl, hat⟩ := mem_references_iff.mp h
  unfold referencesMissingVar
  rw [Bool.or_eq_true]
  rw [referenceAt.eq_def] at hat
  split at hat
  · rename_i s
    apply Or.inl
    obtain ⟨⟨inner, rest⟩, hsplit, hname⟩ := Option.map_eq_some_iff.mp hat
    cases hname
    cases hf : splitLast? (str "$\x7b" ++ inner ++ str "\x7d") (a ++ '$' :: '{' :: s) with
    | some p => rfl
    | none =>
        have hn := (splitLast?_eq_none_iff (by simp [str]) _).mp hf
        apply absurd _ hn
        refine ⟨a, rest, ?_⟩
        rw [splitOnce_eq_some hsplit]
        simp [str]
  · apply Or.inr
    dsimp only at hat
    split at hat
    · contradiction
    · cases hat
      rw [List.any_eq_true]
      refine ⟨b.dropWhile (nameChar isAlphanumeric), ?_, ?_⟩
      · apply mem_afterMatches _ (by simp) (a := a)
        · rw [List.takeWhile_append_dropWhile]
        · intro hm
          rw [List.mem_takeWhile_imp hm] at hdollar
          contradiction
      · cases hd : b.dropWhile (nameChar isAlphanumeric) with
        | nil => rfl
        | cons c t =>
            have hc := List.head?_dropWhile_not (nameChar isAlphanumeric) b
            rw [hd] at hc
            simpa [nameChar] using hc

end Guard

section Validation
variable {lib : UrlCrate} {isAlphanumeric : Char → Bool} {debug : Str → Str}

theorem checkSecrets_eq_ok_iff {settings : Config} {missing : List Str} :
    checkSecrets isAlphanumeric settings missing = .ok () ↔ ∀ secret ∈ secrets settings,
      ∀ name ∈ missing, referencesMissingVar isAlphanumeric secret.2 name = false := by
  unfold checkSecrets
  induction secrets settings with
  | nil => simp [pure, Except.pure]
  | cons secret rest ih =>
      obtain ⟨field, value⟩ := secret
      rw [List.forM_eq_forM] at ih ⊢
      have hreject : rejectUnexpandedSecret isAlphanumeric field value missing = .ok () ↔
          ∀ name ∈ missing, referencesMissingVar isAlphanumeric value name = false := by
        unfold rejectUnexpandedSecret
        split
        · rename_i hf
          simpa using hf
        · rename_i var hf
          constructor
          · intro h
            contradiction
          · intro h
            have hvar := List.find?_some hf
            rw [h var (List.mem_of_find?_eq_some hf)] at hvar
            contradiction
      rw [List.forM_cons]
      dsimp only
      cases hr : rejectUnexpandedSecret isAlphanumeric field value missing with
      | error e =>
          constructor
          · intro h
            contradiction
          · intro h
            have hok := hreject.mpr (h (field, value) (by simp))
            rw [hr] at hok
            contradiction
      | ok _ =>
          have hthis := hreject.mp hr
          apply Iff.trans ih
          constructor
          · intro h secret hs
            rcases List.mem_cons.mp hs with rfl | hs
            · exact hthis
            · exact h secret hs
          · intro h secret hs
            exact h secret (List.mem_cons_of_mem _ hs)

/-- The names matter for the secrets alone. -/
theorem validate_eq_ok_iff {settings : Config} {missing : List Str} {cfg : RuntimeConfig} :
    validate lib isAlphanumeric debug settings missing = .ok cfg ↔
      checkSecrets isAlphanumeric settings missing = .ok () ∧
        validate lib isAlphanumeric debug settings [] = .ok cfg := by
  have hnone : checkSecrets isAlphanumeric settings [] = .ok () :=
    checkSecrets_eq_ok_iff.mpr (by simp)
  unfold validate
  rw [hnone]
  cases checkSettings settings with
  | error e =>
      constructor
      · intro h
        contradiction
      · intro ⟨_, h⟩
        contradiction
  | ok _ =>
      cases checkSecrets isAlphanumeric settings missing with
      | error e =>
          constructor
          · intro h
            contradiction
          · intro ⟨h, _⟩
            contradiction
      | ok _ =>
          constructor
          · intro h
            exact ⟨rfl, h⟩
          · intro ⟨_, h⟩
            exact h

theorem settings_of_validate {settings : Config} {missing : List Str} {cfg : RuntimeConfig}
    (h : validate lib isAlphanumeric debug settings missing = .ok cfg) :
    cfg.settings = settings := by
  unfold validate at h
  obtain ⟨_, -, h⟩ := ServerErrors.bind_eq_ok h
  obtain ⟨_, -, h⟩ := ServerErrors.bind_eq_ok h
  obtain ⟨_, -, h⟩ := ServerErrors.bind_eq_ok h
  obtain ⟨_, -, h⟩ := ServerErrors.bind_eq_ok h
  cases h
  rfl

variable {env : Str → Option Str} {readYaml : Str → Except Str Config} {raw : Str}

theorem parseConfig_eq_ok_iff {cfg : RuntimeConfig} :
    parseConfig lib isAlphanumeric debug env readYaml raw = .ok cfg ↔
      readYaml (expandText (nameChar isAlphanumeric) env raw) = .ok cfg.settings ∧
      validate lib isAlphanumeric debug cfg.settings [] = .ok cfg ∧
      ∀ secret ∈ secrets cfg.settings, ∀ name ∈ lookups (nameChar isAlphanumeric) raw,
        env name = none → referencesMissingVar isAlphanumeric secret.2 name = false := by
  have hmissing : ∀ settings, checkSecrets isAlphanumeric settings
      (missingVars isAlphanumeric env raw) = .ok () ↔
      ∀ secret ∈ secrets settings, ∀ name ∈ lookups (nameChar isAlphanumeric) raw,
        env name = none → referencesMissingVar isAlphanumeric secret.2 name = false := by
    intro settings
    rw [checkSecrets_eq_ok_iff]
    constructor
    · intro h secret hs name hn hunset
      exact h secret hs name (mem_missingVars_iff.mpr ⟨hn, hunset⟩)
    · intro h secret hs name hn
      obtain ⟨hl, hunset⟩ := mem_missingVars_iff.mp hn
      exact h secret hs name hl hunset
  constructor
  · intro h
    obtain ⟨settings, hread, hvalid⟩ := ServerErrors.bind_eq_ok h
    obtain rfl := settings_of_validate hvalid
    obtain ⟨hsecrets, hrest⟩ := validate_eq_ok_iff.mp hvalid
    exact ⟨hread, hrest, (hmissing _).mp hsecrets⟩
  · intro ⟨hread, hrest, hsecrets⟩
    unfold parseConfig
    rw [hread]
    exact validate_eq_ok_iff.mpr ⟨(hmissing _).mpr hsecrets, hrest⟩

end Validation

/-- A YAML reader that knows one document with a token. -/
def readToken (document token text : Str) : Except Str Config :=
  if text = document then
    .ok { storage := .memory, auth := { enabled := true, tokens := [token] } }
  else .error (str "unexpected text")

/-- A document with this token. -/
def tokenDocument (token : String) : Str :=
  str "storage: \x7btype: memory\x7d\nauth: \x7benabled: true, tokens: [\"" ++ str token ++
    str "\"]\x7d"

/-- A variable that is set to a password without a dollar sign. -/
def onlyToken (name : Str) : Option Str :=
  if name = str "TOKEN" then some (str "s3cret") else none

/-- The token comes from a variable, and a comment refers to one that is not set. -/
def commentedDocument : Str := tokenDocument "$\x7bTOKEN\x7d" ++ str " #$X"

def defaultedToken : Str := tokenDocument "$\x7bA:-$B\x7d"

end Helmoci.ConfigExpansion
