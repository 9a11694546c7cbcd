import Helmoci.RustText

/-!
# Texts with quoted strings

A text is cut at a separator where no quoted string is open. Inside of one a backslash
takes the character behind it along.
-/
namespace Helmoci.QuotedText
open RustText

/-- Cuts at the separators that are not in a quoted string. -/
def splitUnquoted (sep : Char) : Str → Bool → Str → List Str
  | current, _, [] => [current]
  | current, true, '\\' :: c :: s => splitUnquoted sep (current ++ ['\\', c]) true s
  | current, quoted, c :: s =>
    if c = '"' then splitUnquoted sep (current ++ [c]) (!quoted) s
    else if c = sep ∧ quoted = false then current :: splitUnquoted sep [] false s
    else splitUnquoted sep (current ++ [c]) quoted s

section Steps
variable (sep : Char) (current s : Str) (quoted : Bool)

theorem splitUnquoted_nil : splitUnquoted sep current quoted [] = [current] := by
  simp [splitUnquoted]

theorem splitUnquoted_quote :
    splitUnquoted sep current quoted ('"' :: s) =
      splitUnquoted sep (current ++ ['"']) (!quoted) s := by
  simp [splitUnquoted]

theorem splitUnquoted_escape (c : Char) :
    splitUnquoted sep current true ('\\' :: c :: s) =
      splitUnquoted sep (current ++ ['\\', c]) true s := by
  simp [splitUnquoted]

theorem splitUnquoted_escape_end : splitUnquoted sep current true ['\\'] = [current ++ ['\\']] := by
  simp [splitUnquoted]

variable {sep quoted}

theorem splitUnquoted_sep (h : sep ≠ '"') :
    splitUnquoted sep current false (sep :: s) = current :: splitUnquoted sep [] false s := by
  simp [splitUnquoted, h]

theorem splitUnquoted_cons {c : Char} (hquote : c ≠ '"') (hslash : ¬(c = '\\' ∧ quoted = true))
    (hsep : ¬(c = sep ∧ quoted = false)) :
    splitUnquoted sep current quoted (c :: s) = splitUnquoted sep (current ++ [c]) quoted s := by
  rw [splitUnquoted, if_neg hquote, if_neg hsep]
  intro d t hq hc
  exact absurd ⟨hc, hq⟩ hslash

end Steps

end Helmoci.QuotedText
