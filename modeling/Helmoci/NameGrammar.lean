import Helmoci.UrlInterface
import Helmoci.SegmentedText

/-!
# The grammars of chart names, alias names and public host names

The three predicates of the name resolver on single segments. They are ASCII
grammars, so a test on the bytes of a `&str` is a test on its characters: a
character outside ASCII fails both. Whether a host reads as an IP address is the
URL library's answer.
-/
namespace Helmoci.NameGrammar
open RustText UrlInterface SegmentedText

def chartNameChar (c : Char) : Bool := c.isAlphanum || c == '.' || c == '_' || c == '-'

def isValidChartName : Str → Bool
  | [] => false
  | c :: s => c.isAlphanum && s.all chartNameChar

def isValidOciRepoSegment (s : Str) : Bool := isValidChartName s

/-- Alias names must not look like hostnames: no dots allowed. -/
def isValidAliasName : Str → Bool
  | [] => false
  | c :: s => c.isAlphanum && s.all fun c => c.isAlphanum || c == '_' || c == '-'

/-- Decimal, octal, or `0x…` hex: the label forms of an IPv4 address. -/
def isNumericLabel (label : Str) : Bool :=
  match label.dropPrefix? (str "0x") with
  | some hex => !hex.isEmpty && hex.all isAsciiHexdigit
  | none => !label.isEmpty && label.all Char.isDigit

def isHostLabel (label : Str) : Bool :=
  !label.isEmpty && label.all (fun c => c.isAlphanum || c == '-') &&
    !(['-'].isPrefixOf label) && !(['-'].isSuffixOf label)

def isPublicHostname (lib : UrlCrate) (host : Str) : Bool :=
  let h := toAsciiLowercase host
  if h.isEmpty || 253 < byteLen h then false
  else if h == str "localhost" || (str ".localhost").isSuffixOf h ||
      (str ".local").isSuffixOf h then false
  else if h.contains ':' || h.contains ' ' then false
  else
    match lib.hostParse h with
    | some (.ipv4 _) | some (.ipv6 _) => false
    | _ =>
      let labels := h.splitOn '.'
      if labels.all isNumericLabel then false
      else if labels.length < 2 then false
      else labels.all isHostLabel

theorem chartNameChar_of_isAlphanum {c : Char} (h : c.isAlphanum = true) :
    chartNameChar c = true := by simp [chartNameChar, h]

theorem toNat_lt_of_chartNameChar {c : Char} (h : chartNameChar c = true) : c.toNat < 128 := by
  simp only [chartNameChar, Bool.or_eq_true, beq_iff_eq] at h
  rcases h with ((h | rfl) | rfl) | rfl
  · exact toNat_lt_of_isAlphanum h
  · decide
  · decide
  · decide

theorem isValidChartName_all {s : Str} (h : isValidChartName s = true) :
    ∀ c ∈ s, chartNameChar c = true := by
  cases s with
  | nil => simp
  | cons c s =>
      simp only [isValidChartName, Bool.and_eq_true, List.all_eq_true] at h
      intro d hd
      rcases List.mem_cons.mp hd with rfl | hd
      · exact chartNameChar_of_isAlphanum h.1
      · exact h.2 d hd

theorem isValidChartName_ne_nil {s : Str} (h : isValidChartName s = true) : s ≠ [] := by
  rintro rfl
  contradiction

/-- A character that no chart name contains is in no chart name. -/
theorem not_mem_of_isValidChartName {s : Str} {c : Char} (h : isValidChartName s = true)
    (hc : chartNameChar c = false) : c ∉ s := by
  intro hm
  rw [isValidChartName_all h c hm] at hc
  contradiction

theorem isValidChartName_of_isValidAliasName {s : Str} (h : isValidAliasName s = true) :
    isValidChartName s = true := by
  cases s with
  | nil => contradiction
  | cons c s =>
      simp only [isValidAliasName, isValidChartName, Bool.and_eq_true, List.all_eq_true] at h ⊢
      refine ⟨h.1, ?_⟩
      intro d hd
      have := h.2 d hd
      simp only [Bool.or_eq_true] at this
      simp only [chartNameChar, Bool.or_eq_true]
      tauto

theorem not_dot_mem_of_isValidAliasName {s : Str} (h : isValidAliasName s = true) : '.' ∉ s := by
  cases s with
  | nil => simp
  | cons c s =>
      simp only [isValidAliasName, Bool.and_eq_true, List.all_eq_true] at h
      simp only [List.mem_cons, not_or]
      constructor
      · rintro rfl
        exact absurd h.1 (by decide)
      · intro hm
        exact absurd (h.2 _ hm) (by decide)

@[simp] theorem isPublicHostname_toAsciiLowercase (lib : UrlCrate) (host : Str) :
    isPublicHostname lib (toAsciiLowercase host) = isPublicHostname lib host := by
  simp only [isPublicHostname, toAsciiLowercase_idem]

/-- What the last test leaves: at least two labels of letters, digits and hyphens. -/
theorem labels_of_isPublicHostname {lib : UrlCrate} {host : Str}
    (h : isPublicHostname lib host = true) :
    2 ≤ ((toAsciiLowercase host).splitOn '.').length ∧
      ∀ label ∈ (toAsciiLowercase host).splitOn '.', isHostLabel label = true := by
  simp only [isPublicHostname] at h
  split at h
  · contradiction
  · split at h
    · contradiction
    · split at h
      · contradiction
      · split at h
        · contradiction
        · contradiction
        · split at h
          · contradiction
          · split at h
            · contradiction
            · rename_i hl
              exact ⟨by omega, List.all_eq_true.mp h⟩

theorem dot_mem_of_isPublicHostname {lib : UrlCrate} {host : Str}
    (h : isPublicHostname lib host = true) : host ≠ [] ∧ '.' ∈ toAsciiLowercase host := by
  obtain ⟨hl, -⟩ := labels_of_isPublicHostname h
  have hdot : '.' ∈ toAsciiLowercase host := by
    by_contra hn
    rw [List.splitOn_eq_singleton hn] at hl
    simp at hl
  refine ⟨?_, hdot⟩
  rintro rfl
  simp [toAsciiLowercase] at hdot

/-- A host name is read without its letter case, so its characters are those of a name. -/
theorem chartNameChar_of_isPublicHostname {lib : UrlCrate} {host : Str}
    (h : isPublicHostname lib host = true) : ∀ c ∈ host, chartNameChar c = true := by
  intro c hc
  have hl : c.toLower ∈ toAsciiLowercase host := List.mem_map_of_mem hc
  have hlow : c.toLower.isAlphanum = true ∨ c.toLower = '-' ∨ c.toLower = '.' := by
    rcases mem_splitOn (x := '.') hl with hl | ⟨label, hw, hl⟩
    · exact Or.inr (Or.inr hl)
    · have hlabel := (labels_of_isPublicHostname h).2 label hw
      simp only [isHostLabel, Bool.and_eq_true, List.all_eq_true, Bool.or_eq_true,
        beq_iff_eq] at hlabel
      rcases hlabel.1.1.2 _ hl with hl | hl
      · exact Or.inl hl
      · exact Or.inr (Or.inl hl)
  by_cases hlt : c.toNat < 128
  · exact ascii_forall (P := fun c => c.toLower.isAlphanum = true ∨ c.toLower = '-' ∨
      c.toLower = '.' → chartNameChar c = true) (by decide) hlt hlow
  · -- only ASCII letters have another case
    rw [toLower_eq_self (Nat.not_lt.mp hlt)] at hlow
    rcases hlow with hlow | rfl | rfl
    · exact chartNameChar_of_isAlphanum hlow
    · decide
    · decide

section Names
variable {segments : List Str}

/-- A repository name as clients write it. -/
def repositoryName (segments : List Str) : Str := ['/'].intercalate segments

theorem splitOn_repositoryName (hne : segments ≠ [])
    (hv : ∀ s ∈ segments, isValidChartName s = true) :
    (repositoryName segments).splitOn '/' = segments :=
  List.splitOn_intercalate '/'
    (fun s hs => not_mem_of_isValidChartName (hv s hs) (by decide)) hne

theorem mem_repositoryName {c : Char} (h : c ∈ repositoryName segments) :
    c = '/' ∨ ∃ s ∈ segments, c ∈ s := mem_intercalate h

theorem percent_not_mem_repositoryName (hv : ∀ s ∈ segments, isValidChartName s = true) :
    '%' ∉ repositoryName segments := by
  intro h
  rcases mem_repositoryName h with h | ⟨s, hs, hc⟩
  · exact absurd h (by decide)
  · exact not_mem_of_isValidChartName (hv s hs) (by decide) hc

/-- Names neither begin nor end with a slash. -/
theorem repositoryName_ends (hne : segments ≠ [])
    (hv : ∀ s ∈ segments, isValidChartName s = true) :
    (∃ c t, repositoryName segments = c :: t ∧ c ≠ '/') ∧
      ∃ c t, repositoryName segments = t ++ [c] ∧ c ≠ '/' := by
  have hs : ∀ s ∈ segments, '/' ∉ s := fun s hs =>
    not_mem_of_isValidChartName (hv s hs) (by decide)
  constructor
  · obtain ⟨s, t, rfl⟩ := List.exists_cons_of_ne_nil hne
    obtain ⟨c, s', rfl⟩ := List.exists_cons_of_ne_nil
      (isValidChartName_ne_nil (hv s (by simp)))
    have hc : c ≠ '/' := by
      rintro rfl
      exact hs ('/' :: s') (by simp) (by simp)
    cases t with
    | nil => exact ⟨c, s', by simp [repositoryName], hc⟩
    | cons s₂ t =>
        refine ⟨c, s' ++ '/' :: ['/'].intercalate (s₂ :: t), ?_, hc⟩
        simp [repositoryName, List.intercalate_cons_cons]
  · obtain ⟨t, s, rfl⟩ := List.eq_nil_or_concat' segments |>.resolve_left hne
    have hn := isValidChartName_ne_nil (hv s (by simp))
    have hc : s.getLast hn ≠ '/' := by
      intro h
      exact hs s (by simp) (h ▸ List.getLast_mem hn)
    have hl := List.dropLast_append_getLast hn
    cases t with
    | nil => exact ⟨s.getLast hn, s.dropLast, by simp [repositoryName, hl], hc⟩
    | cons s₂ t =>
        refine ⟨s.getLast hn, ['/'].intercalate (s₂ :: t) ++ ['/'] ++ s.dropLast, ?_, hc⟩
        rw [repositoryName, intercalate_append (by simp) (by simp)]
        simp [hl]

theorem dropWhile_repositoryName (hne : segments ≠ [])
    (hv : ∀ s ∈ segments, isValidChartName s = true) (rest : Str) :
    (repositoryName segments ++ rest).dropWhile (· == '/') = repositoryName segments ++ rest := by
  obtain ⟨⟨c, t, hn, hc⟩, -⟩ := repositoryName_ends hne hv
  simp [hn, hc]

theorem rdropWhile_repositoryName (hne : segments ≠ [])
    (hv : ∀ s ∈ segments, isValidChartName s = true) :
    (repositoryName segments).rdropWhile (· == '/') = repositoryName segments := by
  obtain ⟨-, c, t, hn, hc⟩ := repositoryName_ends hne hv
  simp [hn, hc]

theorem repositoryName_ne_nil (hne : segments ≠ [])
    (hv : ∀ s ∈ segments, isValidChartName s = true) : repositoryName segments ≠ [] := by
  obtain ⟨⟨c, t, hn, -⟩, -⟩ := repositoryName_ends hne hv
  simp [hn]

theorem trimMatches_repositoryName (hv : ∀ s ∈ segments, isValidChartName s = true) :
    trimMatches '/' ('/' :: repositoryName segments) = repositoryName segments := by
  cases segments with
  | nil => rfl
  | cons s t =>
      have hd := dropWhile_repositoryName (by simp) hv []
      rw [List.append_nil] at hd
      rw [trimMatches, List.dropWhile_cons_of_pos (by decide), hd,
        rdropWhile_repositoryName (by simp) hv]

end Names

end Helmoci.NameGrammar
