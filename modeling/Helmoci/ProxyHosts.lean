import Helmoci.BlobStorage

/-!
# Hosts of the proxy

The host that a client has used, in lower case, once it reads as `host[:port]`: a DNS
name, an IPv4 address or a bracketed IPv6 address. The address parsers are those of the
standard library. An accepted host is one segment of a storage key.
-/
namespace Helmoci.ProxyHosts
open RustText BlobStorage

/-- A 253-byte hostname plus `:65535`. -/
def maxProxyHostLen : ℕ := 259

section Addresses

/-- At most three decimal digits without a leading zero, up to 255. -/
def readOctet (s : Str) : Option Str :=
  let digits := s.takeWhile Char.isDigit
  if digits.isEmpty || 3 < digits.length || (1 < digits.length && ['0'].isPrefixOf digits) ||
      255 < Nat.ofDigitChars 10 digits 0 then none
  else some (s.dropWhile Char.isDigit)

def readChar (c : Char) : Str → Option Str
  | [] => none
  | d :: s => if d = c then some s else none

/-- What is left behind the address. -/
def readIpv4 (s : Str) : Option Str := do
  let s ← readOctet s
  let s ← readChar '.' s >>= readOctet
  let s ← readChar '.' s >>= readOctet
  readChar '.' s >>= readOctet

def isIpv4 (s : Str) : Bool := readIpv4 s == some []

/-- At most four hexadecimal digits. -/
def readGroup (s : Str) : Option Str :=
  let digits := s.takeWhile isAsciiHexdigit
  if digits.isEmpty || 4 < digits.length then none else some (s.dropWhile isAsciiHexdigit)

/-- A colon stands in front of every group but the first. -/
def readSeparator (i : ℕ) (s : Str) : Option Str := if i = 0 then some s else readChar ':' s

/-- Up to so many groups behind the first `i`. An embedded IPv4 address counts for two and
ends them. -/
def readGroups : ℕ → ℕ → Str → ℕ × Bool × Str
  | 0, i, s => (i, false, s)
  | n + 1, i, s =>
    match if n = 0 then none else readSeparator i s >>= readIpv4 with
    | some rest => (i + 2, true, rest)
    | none =>
      match readSeparator i s >>= readGroup with
      | some rest => readGroups n (i + 1) rest
      | none => (i, false, s)

def isIpv6 (s : Str) : Bool :=
  let (headSize, headIpv4, rest) := readGroups 8 0 s
  if headSize = 8 then rest.isEmpty
  else if headIpv4 then false
  else
    match readChar ':' rest >>= readChar ':' with
    | none => false
    | some rest => (readGroups (8 - (headSize + 1)) 0 rest).2.2.isEmpty

example : ["::", "::1", "1:2:3:4:5:6:7:8", "fe80::1:2", "::ffff:10.0.0.1", "1::8"].map
      (fun s => isIpv6 (str s)) = [true, true, true, true, true, true] ∧
    ["", ":", ":::", "1:2:3", "12345::", "1:2:3:4:5:6:7:8:9", "::1.2.3", "::1%eth0"].map
      (fun s => isIpv6 (str s)) = [false, false, false, false, false, false, false, false] := by
  decide +kernel

end Addresses

def isDnsLabel (label : Str) : Bool :=
  !label.isEmpty && label.length ≤ 63 && label.all (fun c => c.isAlphanum || c == '-') &&
    !(['-'].isPrefixOf label) && !(['-'].isSuffixOf label)

def isDnsName (host : Str) : Bool :=
  !host.isEmpty && byteLen host ≤ 253 && (host.splitOn '.').all isDnsLabel

def isValidPort (port : Str) : Bool :=
  port.length ≤ 5 && port.all Char.isDigit && !port.isEmpty &&
    0 < Nat.ofDigitChars 10 port 0 && Nat.ofDigitChars 10 port 0 < 2 ^ 16

/-- Host and port, and whether the host is bracketed. -/
def splitHostPort (value : Str) : Option (Str × Option Str × Bool) :=
  match value with
  | '[' :: rest => do
    let (host, behind) ← splitOnce ']' rest
    match behind with
    | [] => some (host, none, true)
    | _ => (readChar ':' behind).map fun port => (host, some port, true)
  | _ =>
    match splitOnce ':' value with
    | some (host, port) => some (host, some port, false)
    | none => some (value, none, false)

/-- Canonical `host[:port]` that is safe to use as a storage key segment. -/
def normalizeProxyHost (value : Str) : Option Str :=
  if value.isEmpty || maxProxyHostLen < byteLen value then none
  else do
    let lowercased := toAsciiLowercase value
    let (host, port, bracketed) ← splitHostPort lowercased
    let hostOk := if bracketed then isIpv6 host else isIpv4 host || isDnsName host
    if !hostOk || port.any fun port => !isValidPort port then none else some lowercased

example : normalizeProxyHost (str "PROXY.Test:8443") = some (str "proxy.test:8443") ∧
    normalizeProxyHost (str "[::1]:8080") = some (str "[::1]:8080") ∧
    normalizeProxyHost (str "proxy.test:0") = none ∧ normalizeProxyHost (str "..") = none := by
  decide +kernel

section Segments

/-- The characters of an accepted host. -/
def hostChar (c : Char) : Bool := c.isAlphanum || (str ":.-[]").contains c

/-- The second text is left behind host characters of the first. -/
def Leaves (s rest : Str) : Prop := ∃ a, s = a ++ rest ∧ ∀ c ∈ a, hostChar c = true

theorem Leaves.refl (s : Str) : Leaves s s := ⟨[], rfl, by simp⟩

theorem Leaves.trans {s t u : Str} (h : Leaves s t) (h' : Leaves t u) : Leaves s u := by
  obtain ⟨a, rfl, ha⟩ := h
  obtain ⟨b, rfl, hb⟩ := h'
  refine ⟨a ++ b, by simp, ?_⟩
  intro c hc
  rcases List.mem_append.mp hc with hc | hc
  · exact ha c hc
  · exact hb c hc

theorem Leaves.all {s : Str} (h : Leaves s []) : ∀ c ∈ s, hostChar c = true := by
  obtain ⟨a, rfl, ha⟩ := h
  simpa using ha

theorem leaves_dropWhile {p : Char → Bool} (hp : ∀ c, p c = true → hostChar c = true) (s : Str) :
    Leaves s (s.dropWhile p) := by
  refine ⟨s.takeWhile p, List.takeWhile_append_dropWhile.symm, ?_⟩
  intro c hc
  exact hp c (List.mem_takeWhile_imp hc)

theorem hostChar_of_isDigit (c : Char) (h : c.isDigit = true) : hostChar c = true := by
  simp [hostChar, Char.isAlphanum, h]

theorem hostChar_of_isAsciiHexdigit (c : Char) (h : isAsciiHexdigit c = true) :
    hostChar c = true := by
  simp only [isAsciiHexdigit, Bool.or_eq_true, Bool.and_eq_true, decide_eq_true_eq] at h
  rcases h with (h | h) | h
  · exact hostChar_of_isDigit c h
  · have hl : c.isLower = true := by
      simp only [Char.isLower, Bool.and_eq_true, decide_eq_true_eq, ge_iff_le]
      exact ⟨h.1, Nat.le_trans h.2 (by decide)⟩
    simp [hostChar, Char.isAlphanum, Char.isAlpha, hl]
  · have hu : c.isUpper = true := by
      simp only [Char.isUpper, decide_eq_true_eq, ge_iff_le]
      exact ⟨h.1, Nat.le_trans h.2 (by decide)⟩
    simp [hostChar, Char.isAlphanum, Char.isAlpha, hu]

theorem readChar_leaves {c : Char} (hc : hostChar c = true) {s rest : Str}
    (h : readChar c s = some rest) : Leaves s rest := by
  cases s with
  | nil => contradiction
  | cons d s =>
      simp only [readChar] at h
      split at h
      · rename_i hd
        cases h
        exact ⟨[d], rfl, by simp [hd, hc]⟩
      · contradiction

theorem readOctet_leaves {s rest : Str} (h : readOctet s = some rest) : Leaves s rest := by
  unfold readOctet at h
  dsimp only at h
  split at h
  · contradiction
  · cases h
    exact leaves_dropWhile hostChar_of_isDigit s

theorem readIpv4_leaves {s rest : Str} (h : readIpv4 s = some rest) : Leaves s rest := by
  have next : ∀ {s rest : Str}, (readChar '.' s >>= readOctet) = some rest → Leaves s rest := by
    intro s rest h
    obtain ⟨t, ht, h⟩ := Option.bind_eq_some_iff.mp h
    exact (readChar_leaves (by decide) ht).trans (readOctet_leaves h)
  unfold readIpv4 at h
  obtain ⟨a, ha, h⟩ := Option.bind_eq_some_iff.mp h
  obtain ⟨b, hb, h⟩ := Option.bind_eq_some_iff.mp h
  obtain ⟨c, hc, h⟩ := Option.bind_eq_some_iff.mp h
  exact (readOctet_leaves ha).trans ((next hb).trans ((next hc).trans (next h)))

theorem readSeparator_leaves {i : ℕ} {read : Str → Option Str} {s rest : Str}
    (hread : ∀ {s rest}, read s = some rest → Leaves s rest)
    (h : (readSeparator i s >>= read) = some rest) : Leaves s rest := by
  obtain ⟨t, ht, h⟩ := Option.bind_eq_some_iff.mp h
  unfold readSeparator at ht
  split at ht
  · cases ht
    exact hread h
  · exact (readChar_leaves (by decide) ht).trans (hread h)

theorem readGroup_leaves {s rest : Str} (h : readGroup s = some rest) : Leaves s rest := by
  unfold readGroup at h
  dsimp only at h
  split at h
  · contradiction
  · cases h
    exact leaves_dropWhile hostChar_of_isAsciiHexdigit s

theorem readGroups_leaves (n i : ℕ) (s : Str) : Leaves s (readGroups n i s).2.2 := by
  induction n generalizing i s with
  | zero => exact .refl s
  | succ n ih =>
      unfold readGroups
      split
      · rename_i rest h
        split at h
        · contradiction
        · exact readSeparator_leaves readIpv4_leaves h
      · split
        · rename_i rest h
          exact (readSeparator_leaves readGroup_leaves h).trans (ih _ _)
        · exact .refl s

theorem hostChar_of_isIpv6 {s : Str} (h : isIpv6 s = true) : ∀ c ∈ s, hostChar c = true := by
  have hhead := readGroups_leaves 8 0 s
  unfold isIpv6 at h
  generalize readGroups 8 0 s = head at h hhead
  obtain ⟨size, ipv4, rest⟩ := head
  dsimp only at h hhead
  split at h
  · rw [List.isEmpty_iff.mp h] at hhead
    exact hhead.all
  · split at h
    · contradiction
    · split at h
      · contradiction
      · rename_i rest' hr
        obtain ⟨t, ht, hr⟩ := Option.bind_eq_some_iff.mp hr
        have htail := readGroups_leaves (8 - (size + 1)) 0 rest'
        rw [List.isEmpty_iff.mp h] at htail
        exact (hhead.trans ((readChar_leaves (by decide) ht).trans
          ((readChar_leaves (by decide) hr).trans htail))).all

theorem hostChar_of_isIpv4 {s : Str} (h : isIpv4 s = true) : ∀ c ∈ s, hostChar c = true :=
  (readIpv4_leaves (eq_of_beq h)).all

theorem hostChar_of_isDnsName {s : Str} (h : isDnsName s = true) :
    ∀ c ∈ s, hostChar c = true := by
  intro c hc
  simp only [isDnsName, Bool.and_eq_true, List.all_eq_true] at h
  rcases SegmentedText.mem_splitOn (x := '.') hc with rfl | ⟨label, hl, hc⟩
  · decide
  · have := h.2 label hl
    simp only [isDnsLabel, Bool.and_eq_true, List.all_eq_true, Bool.or_eq_true, beq_iff_eq] at this
    rcases this.1.1.2 c hc with h | rfl
    · simp [hostChar, h]
    · decide

/-- The parts of a host and what stands between them. -/
theorem splitHostPort_eq_some {s host : Str} {port : Option Str} {bracketed : Bool}
    (h : splitHostPort s = some (host, port, bracketed)) :
    ∀ c ∈ s, hostChar c = true ∨ c ∈ host ∨ ∃ p, port = some p ∧ c ∈ p := by
  unfold splitHostPort at h
  split at h
  · obtain ⟨⟨inner, behind⟩, hs, h⟩ := Option.bind_eq_some_iff.mp h
    rw [splitOnce_eq_some hs]
    dsimp only at h
    split at h
    · cases h
      intro c hc
      simp only [List.mem_cons, List.mem_append, List.not_mem_nil, or_false] at hc
      rcases hc with rfl | hc | rfl
      · exact Or.inl (by decide)
      · exact Or.inr (Or.inl hc)
      · exact Or.inl (by decide)
    · obtain ⟨p, hp, h⟩ := Option.map_eq_some_iff.mp h
      cases h
      intro c hc
      obtain ⟨d, hd⟩ : ∃ d, behind = d :: p ∧ d = ':' := by
        cases behind with
        | nil => contradiction
        | cons d t =>
            simp only [readChar] at hp
            split at hp
            · rename_i hd
              cases hp
              exact ⟨d, rfl, hd⟩
            · contradiction
      rw [hd.1, hd.2] at hc
      simp only [List.mem_cons, List.mem_append] at hc
      rcases hc with rfl | hc | rfl | rfl | hc
      · exact Or.inl (by decide)
      · exact Or.inr (Or.inl hc)
      · exact Or.inl (by decide)
      · exact Or.inl (by decide)
      · exact Or.inr (Or.inr ⟨p, rfl, hc⟩)
  · split at h
    · rename_i a b hs
      cases h
      rw [splitOnce_eq_some hs]
      intro c hc
      simp only [List.mem_append, List.mem_cons] at hc
      rcases hc with hc | rfl | hc
      · exact Or.inr (Or.inl hc)
      · exact Or.inl (by decide)
      · exact Or.inr (Or.inr ⟨b, rfl, hc⟩)
    · cases h
      intro c hc
      exact Or.inr (Or.inl hc)

theorem hostChar_of_normalizeProxyHost {value host : Str} (h : normalizeProxyHost value = some host) :
    host ≠ [] ∧ host ≠ str "." ∧ host ≠ str ".." ∧ ∀ c ∈ host, hostChar c = true := by
  unfold normalizeProxyHost at h
  split at h
  · contradiction
  · rename_i hv
    obtain ⟨⟨name, port, bracketed⟩, hs, h⟩ := Option.bind_eq_some_iff.mp h
    dsimp only at h
    by_cases hok : ((!if bracketed then isIpv6 name else isIpv4 name || isDnsName name) ||
        port.any fun port => !isValidPort port) = true
    · rw [if_pos hok] at h
      contradiction
    · rw [if_neg hok] at h
      simp only [Bool.or_eq_true, Bool.not_eq_true', not_or, Bool.not_eq_false,
        Option.any_eq_true, not_exists, not_and, Bool.not_eq_true] at hok hv
      have hlower := Option.some.inj h
      rw [hlower] at hs
      have hname : ∀ c ∈ name, hostChar c = true := by
        have hn := hok.1
        split at hn
        · exact hostChar_of_isIpv6 hn
        · rcases Bool.or_eq_true _ _ |>.mp hn with hn | hn
          · exact hostChar_of_isIpv4 hn
          · exact hostChar_of_isDnsName hn
      -- a text of dots alone is its own name, and no address
      have hdots : ∀ dots ∈ [str ".", str ".."], host ≠ dots := by
        intro dots hd hh
        subst hh
        have hclosed : ∀ dots ∈ [str ".", str ".."], splitHostPort dots = some (dots, none, false) ∧
            (isIpv4 dots || isDnsName dots) = false := by decide +kernel
        obtain ⟨hsplit, hno⟩ := hclosed _ hd
        rw [hsplit] at hs
        cases hs
        have hn := hok.1
        rw [if_neg (by decide), hno] at hn
        contradiction
      refine ⟨?_, hdots _ (by simp), hdots _ (by simp), ?_⟩
      · rintro rfl
        have hne := hv.1
        simp [toAsciiLowercase] at hlower
        simp [hlower] at hne
      · intro c hc
        rcases splitHostPort_eq_some hs c hc with hc | hc | ⟨p, hp, hc⟩
        · exact hc
        · exact hname c hc
        · have hport : isValidPort p = true := by
            cases hvp : isValidPort p with
            | true => rfl
            | false => exact absurd (hok.2 p hp) (by simp [hvp])
          simp only [isValidPort, Bool.and_eq_true, List.all_eq_true] at hport
          exact hostChar_of_isDigit c (hport.1.1.1.2 c hc)

/-- A host is a segment of a key. -/
theorem validPathSegment_of_normalizeProxyHost {value host : Str}
    (h : normalizeProxyHost value = some host) : validPathSegment host = true ∧ '/' ∉ host := by
  obtain ⟨hne, h₁, h₂, hall⟩ := hostChar_of_normalizeProxyHost h
  have hchar : ∀ c, hostChar c = true → isAsciiControl c = false ∧ c ≠ '/' := by
    intro c hc
    by_cases hlt : c.toNat < 128
    · exact ascii_forall (P := fun c => hostChar c = true → isAsciiControl c = false ∧ c ≠ '/')
        (by decide) hlt hc
    · refine ⟨?_, ?_⟩
      · simp only [isAsciiControl, Bool.or_eq_false_iff, decide_eq_false_iff_not, beq_eq_false_iff_ne]
        omega
      · rintro rfl
        exact hlt (by decide)
  have hcontrol : host.any isAsciiControl = false := by
    rw [List.any_eq_false]
    intro c hc
    simp [(hchar c (hall c hc)).1]
  constructor
  · simp [validPathSegment, hne, h₁, h₂, hcontrol]
  · intro hm
    exact (hchar _ (hall _ hm)).2 rfl

end Segments

end Helmoci.ProxyHosts
