import Helmoci.ProxyHosts
import Helmoci.UpstreamPaths

/-!
# The grammar of proxy hosts

A DNS name, an IPv4 address or an IPv6 address in brackets, with a port or without one. The
code splits the text at brackets and colons and checks the parts. It accepts the grammar in
either letter case, and what it returns is in lower case and stays as it is.
-/
namespace Helmoci.ProxyHostGrammar
open RustText SegmentedText BlobStorage ProxyHosts

section Grammar

def labelChar (c : Char) : Bool := c.isAlphanum || c == '-'

/-- Letters, digits and hyphens, the hyphens not at the ends. -/
structure IsLabel (label : Str) : Prop where
  length : 1 ≤ label.length ∧ label.length ≤ 63
  chars : ∀ c ∈ label, labelChar c = true
  inner : label.head? ≠ some '-' ∧ label.getLast? ≠ some '-'

def IsDnsName (host : Str) : Prop :=
  host.length ≤ 253 ∧ ∃ labels : List Str, labels ≠ [] ∧ host = ['.'].intercalate labels ∧
    ∀ label ∈ labels, IsLabel label

structure IsPort (port : Str) : Prop where
  length : 1 ≤ port.length ∧ port.length ≤ 5
  digits : ∀ c ∈ port, c.isDigit = true
  value : 1 ≤ Nat.ofDigitChars 10 port 0 ∧ Nat.ofDigitChars 10 port 0 ≤ 65535

/-- A host in the form in which a port can follow. -/
def IsHost (host : Str) : Prop :=
  IsDnsName host ∨ isIpv4 host = true ∨ ∃ address, host = '[' :: (address ++ [']']) ∧
    isIpv6 address = true

def IsHostPort (value : Str) : Prop :=
  ∃ host, IsHost host ∧ (value = host ∨ ∃ port, value = host ++ ':' :: port ∧ IsPort port)

end Grammar

section Parts

theorem isPrefixOf_singleton (c : Char) (s : Str) :
    [c].isPrefixOf s = false ↔ s.head? ≠ some c := by
  cases s with
  | nil => simp
  | cons d s =>
      by_cases hd : d = c
      · simp [hd]
      · simp [List.isPrefixOf, hd, Ne.symm hd]

theorem isDnsLabel_iff (label : Str) : isDnsLabel label = true ↔ IsLabel label := by
  unfold isDnsLabel
  simp only [Bool.and_eq_true, Bool.not_eq_true', List.isEmpty_eq_false_iff, decide_eq_true_eq,
    List.all_eq_true]
  have hlast : ['-'].isSuffixOf label = false ↔ label.getLast? ≠ some '-' := by
    rw [← List.head?_reverse, ← isPrefixOf_singleton]
    rfl
  rw [isPrefixOf_singleton, hlast]
  constructor
  · intro ⟨⟨⟨⟨hne, hlen⟩, hchars⟩, hh⟩, hl⟩
    exact ⟨⟨List.length_pos_iff.mpr hne, hlen⟩, hchars, hh, hl⟩
  · intro h
    exact ⟨⟨⟨⟨List.length_pos_iff.mp h.length.1, h.length.2⟩, h.chars⟩, h.inner.1⟩, h.inner.2⟩

theorem toNat_lt_of_hostChar {c : Char} (h : hostChar c = true) : c.toNat < 128 := by
  unfold hostChar at h
  rcases Bool.or_eq_true_iff.mp h with h | h
  · exact toNat_lt_of_isAlphanum h
  · have hall : (str ":.-[]").all (fun c => decide (c.toNat < 128)) = true := by decide
    simpa using List.all_eq_true.mp hall c (by simpa using h)

theorem byteLen_of_hostChar {s : Str} (h : ∀ c ∈ s, hostChar c = true) : byteLen s = s.length :=
  byteLen_eq_length fun c hc => toNat_lt_of_hostChar (h c hc)

theorem hostChar_of_labelChar {c : Char} (h : labelChar c = true) : hostChar c = true := by
  rcases Bool.or_eq_true_iff.mp h with h | h
  · simp [hostChar, h]
  · rw [beq_iff_eq.mp h]
    decide

theorem IsDnsName.chars {host : Str} (h : IsDnsName host) :
    ∀ c ∈ host, labelChar c = true ∨ c = '.' := by
  obtain ⟨-, labels, -, rfl, hlabels⟩ := h
  intro c hc
  rcases mem_intercalate hc with rfl | ⟨label, hl, hc⟩
  · exact Or.inr rfl
  · exact Or.inl ((hlabels label hl).chars c hc)

theorem isDnsName_iff (host : Str) : isDnsName host = true ↔ IsDnsName host := by
  constructor
  · intro h
    have hbytes := byteLen_of_hostChar (hostChar_of_isDnsName h)
    simp only [isDnsName, Bool.and_eq_true, List.all_eq_true, decide_eq_true_eq, hbytes] at h
    refine ⟨h.1.2, host.splitOn '.', List.splitOn_ne_nil _ _, (List.intercalate_splitOn '.').symm, ?_⟩
    intro label hl
    exact (isDnsLabel_iff label).mp (h.2 label hl)
  · intro h
    have hchars : ∀ c ∈ host, hostChar c = true := by
      intro c hc
      rcases h.chars c hc with h | rfl
      · exact hostChar_of_labelChar h
      · decide
    obtain ⟨hlen, labels, hne, hhost, hlabels⟩ := h
    have hdot : ∀ label ∈ labels, '.' ∉ label := by
      intro label hl hm
      exact absurd ((hlabels label hl).chars '.' hm) (by decide)
    have hsplit : host.splitOn '.' = labels := by
      rw [hhost]
      exact List.splitOn_intercalate '.' hdot hne
    have hnonempty : host ≠ [] := by
      rintro rfl
      rw [List.splitOn_nil] at hsplit
      have := (hlabels [] (by simp [← hsplit])).length.1
      simp at this
    simp only [isDnsName, Bool.and_eq_true, List.all_eq_true, decide_eq_true_eq,
      byteLen_of_hostChar hchars, hsplit]
    refine ⟨⟨by simpa using hnonempty, hlen⟩, ?_⟩
    intro label hl
    exact (isDnsLabel_iff label).mpr (hlabels label hl)

theorem isValidPort_iff (port : Str) : isValidPort port = true ↔ IsPort port := by
  simp only [isValidPort, Bool.and_eq_true, decide_eq_true_eq, List.all_eq_true,
    Bool.not_eq_true', List.isEmpty_eq_false_iff]
  constructor
  · rintro ⟨⟨⟨⟨hlen, hdigits⟩, hne⟩, hpos⟩, hlt⟩
    exact ⟨⟨List.length_pos_iff.mpr hne, hlen⟩, hdigits, hpos, by omega⟩
  · intro h
    have := h.value.2
    exact ⟨⟨⟨⟨h.length.2, h.digits⟩, List.length_pos_iff.mp h.length.1⟩, h.value.1⟩, by omega⟩

end Parts

section Literals

def addressChar (c : Char) : Bool := isAsciiHexdigit c || c == ':' || c == '.'

/-- At most so many characters of an address are read from the front. -/
def Takes (n : ℕ) (s rest : Str) : Prop :=
  ∃ a, s = a ++ rest ∧ a.length ≤ n ∧ ∀ c ∈ a, addressChar c = true

theorem Takes.trans {n k : ℕ} {s t u : Str} (h : Takes n s t) (h' : Takes k t u) :
    Takes (n + k) s u := by
  obtain ⟨a, rfl, hn, ha⟩ := h
  obtain ⟨b, rfl, hk, hb⟩ := h'
  refine ⟨a ++ b, by simp, by rw [List.length_append]; omega, ?_⟩
  intro c hc
  rcases List.mem_append.mp hc with hc | hc
  · exact ha c hc
  · exact hb c hc

theorem Takes.mono {n k : ℕ} {s t : Str} (h : Takes n s t) (hle : n ≤ k) : Takes k s t := by
  obtain ⟨a, hs, hn, ha⟩ := h
  exact ⟨a, hs, Nat.le_trans hn hle, ha⟩

theorem Takes.refl (n : ℕ) (s : Str) : Takes n s s := ⟨[], rfl, Nat.zero_le n, by simp⟩

theorem readChar_eq_some {c : Char} {s rest : Str} (h : readChar c s = some rest) :
    s = c :: rest := by
  cases s with
  | nil => cases h
  | cons d s =>
      simp only [readChar, Option.ite_none_right_eq_some, Option.some.injEq] at h
      rw [h.1, h.2]

/-- The digits of an octet. -/
theorem readOctet_eq_some {s rest : Str} (h : readOctet s = some rest) :
    ∃ digits : Str, s = digits ++ rest ∧ 1 ≤ digits.length ∧ digits.length ≤ 3 ∧
      ∀ c ∈ digits, c.isDigit = true := by
  unfold readOctet at h
  dsimp only at h
  split at h
  · cases h
  · rename_i hok
    cases h
    simp only [Bool.or_eq_true, List.isEmpty_iff, decide_eq_true_eq, not_or] at hok
    refine ⟨s.takeWhile Char.isDigit, List.takeWhile_append_dropWhile.symm,
      List.length_pos_iff.mpr hok.1.1.1, by omega, ?_⟩
    intro c hc
    exact List.mem_takeWhile_imp hc

theorem readIpv4_eq_some {s rest : Str} (h : readIpv4 s = some rest) :
    ∃ octets : List Str, octets.length = 4 ∧ s = ['.'].intercalate octets ++ rest ∧
      ∀ octet ∈ octets, 1 ≤ octet.length ∧ octet.length ≤ 3 ∧ ∀ c ∈ octet, c.isDigit = true := by
  unfold readIpv4 at h
  obtain ⟨s₁, h₁, h⟩ := Option.bind_eq_some_iff.mp h
  obtain ⟨s₂, h₂, h⟩ := Option.bind_eq_some_iff.mp h
  obtain ⟨s₃, h₃, h₄⟩ := Option.bind_eq_some_iff.mp h
  obtain ⟨t₂, hd₂, h₂⟩ := Option.bind_eq_some_iff.mp h₂
  obtain ⟨t₃, hd₃, h₃⟩ := Option.bind_eq_some_iff.mp h₃
  obtain ⟨t₄, hd₄, h₄⟩ := Option.bind_eq_some_iff.mp h₄
  obtain ⟨a, rfl, ha⟩ := readOctet_eq_some h₁
  obtain ⟨b, rfl, hb⟩ := readOctet_eq_some h₂
  obtain ⟨c, rfl, hc⟩ := readOctet_eq_some h₃
  obtain ⟨d, rfl, hd⟩ := readOctet_eq_some h₄
  refine ⟨[a, b, c, d], rfl, ?_, ?_⟩
  · rw [readChar_eq_some hd₂, readChar_eq_some hd₃, readChar_eq_some hd₄]
    simp
  · intro octet ho
    simp only [List.mem_cons, List.not_mem_nil, or_false] at ho
    rcases ho with rfl | rfl | rfl | rfl <;> assumption

theorem readChar_takes {c : Char} (hc : addressChar c = true) {s rest : Str}
    (h : readChar c s = some rest) : Takes 1 s rest :=
  ⟨[c], readChar_eq_some h, Nat.le_refl 1, by simpa using hc⟩

theorem addressChar_of_isDigit {c : Char} (h : c.isDigit = true) : addressChar c = true := by
  simp [addressChar, isAsciiHexdigit, h]

theorem readIpv4_takes {s rest : Str} (h : readIpv4 s = some rest) : Takes 15 s rest := by
  obtain ⟨octets, hlen, rfl, hoctets⟩ := readIpv4_eq_some h
  refine ⟨_, rfl, ?_, ?_⟩
  · match octets, hlen with
    | [a, b, c, d], _ =>
        have ha := (hoctets a (by simp)).2.1
        have hb := (hoctets b (by simp)).2.1
        have hc := (hoctets c (by simp)).2.1
        have hd := (hoctets d (by simp)).2.1
        simp
        omega
  · intro c hc
    rcases mem_intercalate hc with rfl | ⟨octet, ho, hc⟩
    · decide
    · exact addressChar_of_isDigit ((hoctets octet ho).2.2 c hc)

/-- An IPv4 address has the form of a DNS name. -/
theorem isDnsName_of_isIpv4 {s : Str} (h : isIpv4 s = true) : IsDnsName s := by
  have hread : readIpv4 s = some [] := by simpa [isIpv4] using h
  obtain ⟨a, ha, hlen, -⟩ := readIpv4_takes hread
  obtain ⟨octets, hfour, hs, hoctets⟩ := readIpv4_eq_some hread
  rw [List.append_nil] at ha hs
  refine ⟨by rw [ha]; omega, octets, ?_, hs, ?_⟩
  · rintro rfl
    simp at hfour
  · intro octet ho
    obtain ⟨hpos, hle, hdigits⟩ := hoctets octet ho
    have hne : ∀ c ∈ octet, c ≠ '-' := by
      rintro c hc rfl
      exact absurd (hdigits _ hc) (by decide)
    refine ⟨⟨hpos, by omega⟩, ?_, ?_, ?_⟩
    · intro c hc
      simp [labelChar, Char.isAlphanum, hdigits c hc]
    · intro hhead
      exact hne _ (List.mem_of_mem_head? hhead) rfl
    · intro hlast
      exact hne _ (List.mem_of_getLast? hlast) rfl

theorem readGroup_takes {s rest : Str} (h : readGroup s = some rest) : Takes 4 s rest := by
  unfold readGroup at h
  dsimp only at h
  split at h
  · cases h
  · rename_i hok
    cases h
    simp only [Bool.or_eq_true, decide_eq_true_eq, not_or] at hok
    refine ⟨s.takeWhile isAsciiHexdigit, List.takeWhile_append_dropWhile.symm, by omega, ?_⟩
    intro c hc
    simp [addressChar, List.mem_takeWhile_imp hc]

theorem readSeparator_takes {i n : ℕ} {read : Str → Option Str} {s rest : Str}
    (hread : ∀ {s rest}, read s = some rest → Takes n s rest)
    (h : (readSeparator i s >>= read) = some rest) : Takes (1 + n) s rest := by
  obtain ⟨t, ht, h⟩ := Option.bind_eq_some_iff.mp h
  unfold readSeparator at ht
  split at ht
  · cases ht
    exact (Takes.refl 1 s).trans (hread h)
  · exact (readChar_takes (by decide) ht).trans (hread h)

theorem readGroups_takes (n i : ℕ) (s : Str) : Takes (16 * n) s (readGroups n i s).2.2 := by
  induction n generalizing i s with
  | zero => exact .refl _ s
  | succ n ih =>
      unfold readGroups
      split
      · rename_i rest h
        split at h
        · cases h
        · exact (readSeparator_takes readIpv4_takes h).mono (by omega)
      · split
        · rename_i rest h
          have hgroup := readSeparator_takes readGroup_takes h
          exact (hgroup.trans (ih (i + 1) rest)).mono (by omega)
        · exact .refl _ s

theorem isIpv6_takes {s : Str} (h : isIpv6 s = true) : Takes 242 s [] := by
  have hhead := readGroups_takes 8 0 s
  unfold isIpv6 at h
  generalize readGroups 8 0 s = head at h hhead
  obtain ⟨size, ipv4, rest⟩ := head
  dsimp only at h hhead
  split at h
  · rw [List.isEmpty_iff.mp h] at hhead
    exact hhead.mono (by omega)
  · split at h
    · cases h
    · split at h
      · cases h
      · rename_i rest' hr
        obtain ⟨t, ht, hr⟩ := Option.bind_eq_some_iff.mp hr
        have htail := readGroups_takes (8 - (size + 1)) 0 rest'
        rw [List.isEmpty_iff.mp h] at htail
        have hcolons := (readChar_takes (by decide) ht).trans (readChar_takes (by decide) hr)
        exact (hhead.trans (hcolons.trans htail)).mono (by omega)

theorem bounds_of_isIpv6 {s : Str} (h : isIpv6 s = true) :
    s.length ≤ 242 ∧ ∀ c ∈ s, addressChar c = true := by
  obtain ⟨a, ha, hlen, hall⟩ := isIpv6_takes h
  rw [List.append_nil] at ha
  rw [ha]
  exact ⟨hlen, hall⟩

end Literals

section Splitting

/-- What the code checks of a text in lower case. -/
def isHostPort (value : Str) : Bool :=
  match splitHostPort value with
  | none => false
  | some (host, port, bracketed) =>
    (if bracketed then isIpv6 host else isIpv4 host || isDnsName host) && port.all isValidPort

theorem normalizeProxyHost_eq (value : Str) :
    normalizeProxyHost value =
      if value.isEmpty || maxProxyHostLen < byteLen value then none
      else if isHostPort (toAsciiLowercase value) then some (toAsciiLowercase value) else none := by
  unfold normalizeProxyHost isHostPort
  split
  · rfl
  · cases hs : splitHostPort (toAsciiLowercase value) with
    | none => simp [hs]
    | some parts =>
        obtain ⟨host, port, bracketed⟩ := parts
        have hports : (port.any fun port => !isValidPort port) = !port.all isValidPort := by
          cases port <;> simp
        simp only [hs, Option.bind_eq_bind, Option.bind_some, hports, ← Bool.not_and]
        have hite : ∀ ok : Bool, (if (!ok) = true then none else some (toAsciiLowercase value)) =
            if ok = true then some (toAsciiLowercase value) else none := by
          intro ok
          cases ok <;> rfl
        exact hite _

theorem splitHostPort_plain {value : Str} (h : value.head? ≠ some '[') :
    splitHostPort value =
      match splitOnce ':' value with
      | some (host, port) => some (host, some port, false)
      | none => some (value, none, false) := by
  unfold splitHostPort
  split
  · simp at h
  · rfl

theorem IsDnsName.plain {host : Str} (h : IsDnsName host) :
    host ≠ [] ∧ ':' ∉ host ∧ ∀ s, (host ++ s).head? ≠ some '[' := by
  have hne : host ≠ [] := by
    rintro rfl
    have := (isDnsName_iff []).mpr h
    simp [isDnsName] at this
  have hcolon : ':' ∉ host := by
    intro hm
    rcases h.chars _ hm with hc | hc <;> exact absurd hc (by decide)
  refine ⟨hne, hcolon, ?_⟩
  intro s
  obtain ⟨c, t, rfl⟩ := List.exists_cons_of_ne_nil hne
  intro hc
  obtain rfl : c = '[' := by simpa using hc
  rcases h.chars _ List.mem_cons_self with hc | hc <;> exact absurd hc (by decide)

theorem isHostPort_iff (value : Str) : isHostPort value = true ↔ IsHostPort value := by
  constructor
  · intro h
    unfold isHostPort at h
    cases hs : splitHostPort value with
    | none => simp [hs] at h
    | some parts =>
        obtain ⟨host, port, bracketed⟩ := parts
        simp only [hs, Bool.and_eq_true] at h
        obtain ⟨hhost, hport⟩ := h
        unfold splitHostPort at hs
        split at hs
        · obtain ⟨⟨address, behind⟩, hsplit, hs⟩ := Option.bind_eq_some_iff.mp hs
          have hvalue := splitOnce_eq_some hsplit
          dsimp only at hs
          split at hs
          · cases hs
            rw [hvalue]
            exact ⟨_, Or.inr (Or.inr ⟨_, rfl, hhost⟩), Or.inl (by simp)⟩
          · obtain ⟨port', hcolon, hs⟩ := Option.map_eq_some_iff.mp hs
            cases hs
            rw [hvalue, readChar_eq_some hcolon]
            exact ⟨_, Or.inr (Or.inr ⟨_, rfl, hhost⟩),
              Or.inr ⟨port', by simp, (isValidPort_iff port').mp hport⟩⟩
        · have hplain : ∀ host : Str, (isIpv4 host || isDnsName host) = true → IsHost host := by
            intro host h
            rcases Bool.or_eq_true_iff.mp h with h | h
            · exact Or.inr (Or.inl h)
            · exact Or.inl ((isDnsName_iff host).mp h)
          split at hs
          · rename_i hsplit
            cases hs
            exact ⟨_, hplain _ hhost, Or.inr ⟨_, splitOnce_eq_some hsplit,
              (isValidPort_iff _).mp hport⟩⟩
          · cases hs
            exact ⟨value, hplain value hhost, Or.inl rfl⟩
  · intro ⟨host, hhost, hvalue⟩
    have hname : ∀ {host : Str}, IsDnsName host →
        (value = host ∨ ∃ port, value = host ++ ':' :: port ∧ IsPort port) →
          isHostPort value = true := by
      intro host h hvalue
      obtain ⟨-, hcolon, hplain⟩ := h.plain
      have hdns := (isDnsName_iff host).mpr h
      rcases hvalue with rfl | ⟨port, rfl, hport⟩
      · have hnone := UpstreamPaths.splitOnce_eq_none hcolon
        have hhead := hplain []
        rw [List.append_nil] at hhead
        simp [isHostPort, splitHostPort_plain hhead, hnone, hdns]
      · simp [isHostPort, splitHostPort_plain (hplain _), splitOnce_append hcolon, hdns,
          (isValidPort_iff port).mpr hport]
    rcases hhost with h | h | ⟨address, rfl, h⟩
    · exact hname h hvalue
    · exact hname (isDnsName_of_isIpv4 h) hvalue
    · have hbracket : ']' ∉ address := by
        intro hm
        exact absurd ((bounds_of_isIpv6 h).2 _ hm) (by decide)
      rcases hvalue with rfl | ⟨port, rfl, hport⟩
      · simp [isHostPort, splitHostPort, splitOnce_append hbracket, h]
      · simp [isHostPort, splitHostPort, splitOnce_append hbracket, h, readChar,
          (isValidPort_iff port).mpr hport]

/-- A text of the grammar fits the length limit. -/
theorem IsHostPort.bounds {value : Str} (h : IsHostPort value) :
    value ≠ [] ∧ byteLen value ≤ maxProxyHostLen := by
  obtain ⟨host, hhost, hvalue⟩ := h
  have hbounds : host ≠ [] ∧ host.length ≤ 253 ∧ ∀ c ∈ host, hostChar c = true := by
    have hname : ∀ {host : Str}, IsDnsName host →
        host ≠ [] ∧ host.length ≤ 253 ∧ ∀ c ∈ host, hostChar c = true := by
      intro host h
      exact ⟨h.plain.1, h.1, hostChar_of_isDnsName ((isDnsName_iff host).mpr h)⟩
    rcases hhost with h | h | ⟨address, rfl, h⟩
    · exact hname h
    · exact hname (isDnsName_of_isIpv4 h)
    · have hlen := (bounds_of_isIpv6 h).1
      refine ⟨by simp, by simp; omega, ?_⟩
      intro c hc
      simp only [List.mem_cons, List.mem_append, List.not_mem_nil, or_false] at hc
      rcases hc with rfl | hc | rfl
      · decide
      · exact hostChar_of_isIpv6 h c hc
      · decide
  obtain ⟨hne, hlen, hchars⟩ := hbounds
  rcases hvalue with rfl | ⟨port, rfl, hport⟩
  · rw [byteLen_of_hostChar hchars]
    exact ⟨hne, Nat.le_trans hlen (by decide)⟩
  · have hall : ∀ c ∈ host ++ ':' :: port, hostChar c = true := by
      intro c hc
      rcases List.mem_append.mp hc with hc | hc
      · exact hchars c hc
      · rcases List.mem_cons.mp hc with rfl | hc
        · decide
        · exact hostChar_of_isDigit c (hport.digits c hc)
    have hfive := hport.length.2
    rw [byteLen_of_hostChar hall, List.length_append, List.length_cons, maxProxyHostLen]
    exact ⟨by simp, by omega⟩

end Splitting

section LetterCase

/-- A test of a character that lower case does not change. -/
theorem toLower_invariant {P : Char → Bool}
    (h : ∀ n < 128, P (Char.ofNat n).toLower = P (Char.ofNat n)) (c : Char) :
    P c.toLower = P c := by
  by_cases hc : c.toNat < 128
  · exact ascii_forall (P := fun c => P c.toLower = P c) h hc
  · rw [toLower_eq_self (by omega)]

theorem isDigit_toLower (c : Char) : c.toLower.isDigit = c.isDigit :=
  toLower_invariant (by decide) c

theorem isAsciiHexdigit_toLower (c : Char) : isAsciiHexdigit c.toLower = isAsciiHexdigit c :=
  toLower_invariant (by decide) c

theorem takeWhile_lower {p : Char → Bool} (hp : ∀ c, p c.toLower = p c) (s : Str) :
    (toAsciiLowercase s).takeWhile p = toAsciiLowercase (s.takeWhile p) := by
  have hcomp : p ∘ Char.toLower = p := funext hp
  rw [toAsciiLowercase, List.takeWhile_map, hcomp]
  rfl

theorem dropWhile_lower {p : Char → Bool} (hp : ∀ c, p c.toLower = p c) (s : Str) :
    (toAsciiLowercase s).dropWhile p = toAsciiLowercase (s.dropWhile p) := by
  have hcomp : p ∘ Char.toLower = p := funext hp
  rw [toAsciiLowercase, List.dropWhile_map, hcomp]
  rfl

theorem readChar_lower {c : Char} (hc : ∀ d : Char, (d.toLower == c) = (d == c)) (s : Str) :
    readChar c (toAsciiLowercase s) = (readChar c s).map toAsciiLowercase := by
  cases s with
  | nil => rfl
  | cons d s =>
      have hd := hc d
      by_cases heq : d = c
      · simp_all [readChar, toAsciiLowercase]
      · simp_all [readChar, toAsciiLowercase]

theorem lower_digits {s : Str} (h : ∀ c ∈ s, c.isDigit = true) : toAsciiLowercase s = s := by
  have hkeep : ∀ c ∈ s, c.toLower = id c := by
    intro c hc
    have hlt := toNat_lt_of_isAlphanum (c := c) (by simp [Char.isAlphanum, h c hc])
    exact ascii_forall (P := fun c => c.isDigit → c.toLower = c) (by decide) hlt (h c hc)
  rw [toAsciiLowercase, List.map_congr_left hkeep, List.map_id]

theorem lower_isEmpty (s : Str) : (toAsciiLowercase s).isEmpty = s.isEmpty := by
  cases s <;> rfl

theorem readOctet_lower (s : Str) :
    readOctet (toAsciiLowercase s) = (readOctet s).map toAsciiLowercase := by
  have hdigits : (toAsciiLowercase s).takeWhile Char.isDigit = s.takeWhile Char.isDigit := by
    rw [takeWhile_lower isDigit_toLower]
    exact lower_digits fun c hc => List.mem_takeWhile_imp hc
  unfold readOctet
  rw [hdigits, dropWhile_lower isDigit_toLower]
  dsimp only
  split <;> rfl

theorem bind_lower {f g : Str → Option Str}
    (hf : ∀ s, f (toAsciiLowercase s) = (f s).map toAsciiLowercase)
    (hg : ∀ s, g (toAsciiLowercase s) = (g s).map toAsciiLowercase) (s : Str) :
    (f (toAsciiLowercase s) >>= g) = (f s >>= g).map toAsciiLowercase := by
  rw [hf]
  cases f s with
  | none => rfl
  | some t => exact hg t

theorem readIpv4_lower (s : Str) :
    readIpv4 (toAsciiLowercase s) = (readIpv4 s).map toAsciiLowercase := by
  let next := fun s : Str => readChar '.' s >>= readOctet
  have hnext : ∀ s : Str, next (toAsciiLowercase s) = (next s).map toAsciiLowercase :=
    bind_lower (readChar_lower (toLower_invariant (P := fun d => d == '.') (by decide)))
      readOctet_lower
  have htwo : ∀ s : Str, (next (toAsciiLowercase s) >>= next) =
      (next s >>= next).map toAsciiLowercase := bind_lower hnext hnext
  have hthree : ∀ s : Str, (next (toAsciiLowercase s) >>= fun s => next s >>= next) =
      (next s >>= fun s => next s >>= next).map toAsciiLowercase := bind_lower hnext htwo
  exact bind_lower (g := fun s => next s >>= fun s => next s >>= next) readOctet_lower hthree s

theorem readGroup_lower (s : Str) :
    readGroup (toAsciiLowercase s) = (readGroup s).map toAsciiLowercase := by
  unfold readGroup
  rw [takeWhile_lower isAsciiHexdigit_toLower, dropWhile_lower isAsciiHexdigit_toLower]
  dsimp only
  rw [lower_isEmpty, toAsciiLowercase, List.length_map]
  split <;> rfl

theorem readSeparator_lower (i : ℕ) (s : Str) :
    readSeparator i (toAsciiLowercase s) = (readSeparator i s).map toAsciiLowercase := by
  unfold readSeparator
  split
  · rfl
  · exact readChar_lower (toLower_invariant (P := fun d => d == ':') (by decide)) s

theorem readGroups_lower (n i : ℕ) (s : Str) : readGroups n i (toAsciiLowercase s) =
    ((readGroups n i s).1, (readGroups n i s).2.1, toAsciiLowercase (readGroups n i s).2.2) := by
  induction n generalizing i s with
  | zero => rfl
  | succ n ih =>
      have hipv4 : (if n = 0 then none else readSeparator i (toAsciiLowercase s) >>= readIpv4) =
          (if n = 0 then none else readSeparator i s >>= readIpv4).map toAsciiLowercase := by
        split
        · rfl
        · exact bind_lower (readSeparator_lower i) readIpv4_lower s
      unfold readGroups
      rw [hipv4, bind_lower (readSeparator_lower i) readGroup_lower s]
      cases (if n = 0 then none else readSeparator i s >>= readIpv4) with
      | some rest => rfl
      | none =>
          cases readSeparator i s >>= readGroup with
          | some rest => exact ih (i + 1) rest
          | none => rfl

theorem isIpv6_lower (s : Str) : isIpv6 (toAsciiLowercase s) = isIpv6 s := by
  have hcolon := readChar_lower (toLower_invariant (P := fun d => d == ':') (by decide))
  unfold isIpv6
  rw [readGroups_lower]
  generalize readGroups 8 0 s = head
  obtain ⟨size, ipv4, rest⟩ := head
  dsimp only
  rw [lower_isEmpty, bind_lower hcolon hcolon]
  cases readChar ':' rest >>= readChar ':' with
  | none => rfl
  | some rest' => simp only [Option.map_some, readGroups_lower, lower_isEmpty]

theorem isIpv4_lower (s : Str) : isIpv4 (toAsciiLowercase s) = isIpv4 s := by
  unfold isIpv4
  rw [readIpv4_lower]
  cases readIpv4 s with
  | none => rfl
  | some rest => cases rest <;> rfl

theorem splitOn_lower {sep : Char} (hsep : ∀ c : Char, (c.toLower == sep) = (c == sep)) (s : Str) :
    (toAsciiLowercase s).splitOn sep = (s.splitOn sep).map toAsciiLowercase := by
  induction s with
  | nil => rfl
  | cons c s ih =>
      have hcons : toAsciiLowercase (c :: s) = c.toLower :: toAsciiLowercase s := rfl
      rw [hcons, List.splitOn_cons_eq_if_modifyHead, List.splitOn_cons_eq_if_modifyHead, hsep, ih]
      split
      · rfl
      · cases s.splitOn sep <;> rfl

theorem isDnsLabel_lower (label : Str) : isDnsLabel (toAsciiLowercase label) = isDnsLabel label := by
  have hhyphen : ∀ s : Str, ['-'].isPrefixOf (toAsciiLowercase s) = ['-'].isPrefixOf s := by
    intro s
    cases s with
    | nil => rfl
    | cons c s =>
        have hc : ('-' == c.toLower) = ('-' == c) :=
          toLower_invariant (P := fun c => '-' == c) (by decide) c
        simp [toAsciiLowercase, List.isPrefixOf, hc]
  have hlast : ['-'].isSuffixOf (toAsciiLowercase label) = ['-'].isSuffixOf label := by
    have hrev := hhyphen label.reverse
    rw [toAsciiLowercase, List.map_reverse] at hrev
    exact hrev
  have hchars : (toAsciiLowercase label).all (fun c => c.isAlphanum || c == '-') =
      label.all fun c => c.isAlphanum || c == '-' := by
    rw [toAsciiLowercase, List.all_map]
    congr 1
    funext c
    exact toLower_invariant (P := fun c => c.isAlphanum || c == '-') (by decide) c
  unfold isDnsLabel
  rw [hhyphen, hlast, hchars, lower_isEmpty, toAsciiLowercase, List.length_map]

theorem byteLen_lower (s : Str) : byteLen (toAsciiLowercase s) = byteLen s := by
  have hsize : ∀ c : Char, c.toLower.utf8Size = c.utf8Size := by
    intro c
    by_cases hc : c.toNat < 128
    · exact ascii_forall (P := fun c => c.toLower.utf8Size = c.utf8Size) (by decide) hc
    · rw [toLower_eq_self (by omega)]
  unfold byteLen toAsciiLowercase
  rw [List.map_map]
  congr 2
  funext c
  exact hsize c

theorem isDnsName_lower (host : Str) : isDnsName (toAsciiLowercase host) = isDnsName host := by
  have hsplit := splitOn_lower (toLower_invariant (P := fun d => d == '.') (by decide)) host
  have hlabels : ∀ labels : List Str, (labels.map toAsciiLowercase).all isDnsLabel =
      labels.all isDnsLabel := by
    intro labels
    rw [List.all_map]
    congr 1
    funext label
    exact isDnsLabel_lower label
  unfold isDnsName
  rw [hsplit, hlabels, lower_isEmpty, byteLen_lower]

theorem isValidPort_lower (port : Str) : isValidPort (toAsciiLowercase port) = isValidPort port := by
  by_cases h : port.all Char.isDigit = true
  · rw [lower_digits (List.all_eq_true.mp h)]
  · have h' : (toAsciiLowercase port).all Char.isDigit = false := by
      rw [toAsciiLowercase, List.all_map, ← Bool.not_eq_true]
      intro hall
      apply h
      rw [← hall]
      congr 1
      funext c
      exact (isDigit_toLower c).symm
    simp [isValidPort, h, h']

theorem splitOnce_lower {sep : Char} (hsep : ∀ c : Char, (c.toLower == sep) = (c == sep))
    (s : Str) : splitOnce sep (toAsciiLowercase s) =
      (splitOnce sep s).map fun p => (toAsciiLowercase p.1, toAsciiLowercase p.2) := by
  induction s with
  | nil => rfl
  | cons c s ih =>
      have hcons : toAsciiLowercase (c :: s) = c.toLower :: toAsciiLowercase s := rfl
      have hc := hsep c
      rw [hcons, splitOnce, splitOnce, ih]
      by_cases heq : c = sep
      · simp_all [toAsciiLowercase]
      · have hne : c.toLower ≠ sep := by simp_all
        rw [if_neg heq, if_neg hne, Option.map_map, Option.map_map]
        rfl

theorem isHostPort_lower (value : Str) : isHostPort (toAsciiLowercase value) = isHostPort value := by
  have hsplit : splitHostPort (toAsciiLowercase value) = (splitHostPort value).map
      fun parts => (toAsciiLowercase parts.1, parts.2.1.map toAsciiLowercase, parts.2.2) := by
    have hcolon : ∀ c : Char, (c.toLower == ':') = (c == ':') :=
      toLower_invariant (P := fun d => d == ':') (by decide)
    by_cases hbracket : value.head? = some '['
    · obtain ⟨rest, rfl⟩ : ∃ rest, value = '[' :: rest := by
        cases value with
        | nil => cases hbracket
        | cons c rest =>
            obtain rfl : c = '[' := by simpa using hbracket
            exact ⟨rest, rfl⟩
      have hcons : toAsciiLowercase ('[' :: rest) = '[' :: toAsciiLowercase rest := rfl
      rw [hcons, splitHostPort, splitHostPort,
        splitOnce_lower (toLower_invariant (P := fun d => d == ']') (by decide))]
      cases splitOnce ']' rest with
      | none => rfl
      | some parts =>
          obtain ⟨address, behind⟩ := parts
          cases behind with
          | nil => rfl
          | cons c behind =>
              have hread := readChar_lower hcolon (c :: behind)
              simp only [Option.map_some, Option.bind_eq_bind, Option.bind_some]
              change (readChar ':' (toAsciiLowercase (c :: behind))).map _ = _
              rw [hread, Option.map_map, Option.map_map]
              rfl
    · have hlower : (toAsciiLowercase value).head? ≠ some '[' := by
        cases value with
        | nil => simp [toAsciiLowercase]
        | cons c rest =>
            have hc := toLower_invariant (P := fun d => d == '[') (by decide) c
            simp_all [toAsciiLowercase]
      rw [splitHostPort_plain hlower, splitHostPort_plain hbracket, splitOnce_lower hcolon]
      cases splitOnce ':' value <;> rfl
  have hports : ∀ port : Option Str, (port.map toAsciiLowercase).all isValidPort =
      port.all isValidPort := by
    intro port
    cases port with
    | none => rfl
    | some port => exact isValidPort_lower port
  unfold isHostPort
  rw [hsplit]
  cases splitHostPort value with
  | none => rfl
  | some parts =>
      obtain ⟨host, port, bracketed⟩ := parts
      simp only [Option.map_some, hports, isIpv6_lower, isIpv4_lower, isDnsName_lower]

end LetterCase

theorem normalizeProxyHost_eq_some_iff (value s : Str) :
    normalizeProxyHost value = some s ↔ IsHostPort value ∧ s = toAsciiLowercase value := by
  rw [normalizeProxyHost_eq, isHostPort_lower]
  constructor
  · intro h
    split at h
    · cases h
    · rw [Option.ite_none_right_eq_some, Option.some.injEq] at h
      exact ⟨(isHostPort_iff value).mp h.1, h.2.symm⟩
  · intro ⟨h, hs⟩
    obtain ⟨hne, hlen⟩ := h.bounds
    rw [if_neg, if_pos ((isHostPort_iff value).mpr h), hs]
    simp only [Bool.or_eq_true, List.isEmpty_iff, decide_eq_true_eq, not_or]
    exact ⟨hne, by omega⟩

/-- What a segment of a storage key consists of. -/
theorem segment_of_hostChar {c : Char} (h : hostChar c = true) :
    c ≠ '/' ∧ c ≠ '@' ∧ c ≠ ' ' ∧ isAsciiControl c = false :=
  ascii_forall (P := fun c => hostChar c = true → c ≠ '/' ∧ c ≠ '@' ∧ c ≠ ' ' ∧
    isAsciiControl c = false) (by decide) (toNat_lt_of_hostChar h) h

/-- Exactly the texts of the grammar are accepted. The result is their lower case, which is
accepted as it is, is the same for every spelling and is one segment of a storage key. -/
theorem normalizeProxyHost_canonical (value : Str) :
    ((normalizeProxyHost value).isSome = true ↔ IsHostPort value) ∧
    ∀ s, normalizeProxyHost value = some s →
      s = toAsciiLowercase value ∧ normalizeProxyHost s = some s ∧
      (∀ other, eqIgnoreAsciiCase other value = true → normalizeProxyHost other = some s) ∧
      s ≠ [] ∧ s ≠ str "." ∧ s ≠ str ".." ∧
      ∀ c ∈ s, c ≠ '/' ∧ c ≠ '@' ∧ c ≠ ' ' ∧ isAsciiControl c = false := by
  constructor
  · rw [Option.isSome_iff_exists]
    constructor
    · intro ⟨s, hs⟩
      exact ((normalizeProxyHost_eq_some_iff value s).mp hs).1
    · intro h
      exact ⟨_, (normalizeProxyHost_eq_some_iff value _).mpr ⟨h, rfl⟩⟩
  · intro s h
    obtain ⟨hvalue, hs⟩ := (normalizeProxyHost_eq_some_iff value s).mp h
    have hother : ∀ other, eqIgnoreAsciiCase other value = true →
        normalizeProxyHost other = some s := by
      intro other heq
      have hlower : toAsciiLowercase other = toAsciiLowercase value := by
        simpa [eqIgnoreAsciiCase] using heq
      rw [normalizeProxyHost_eq_some_iff, hlower, ← isHostPort_iff, ← isHostPort_lower, hlower,
        isHostPort_lower, isHostPort_iff]
      exact ⟨hvalue, hs⟩
    obtain ⟨hne, hdot, hdots, hchars⟩ := hostChar_of_normalizeProxyHost h
    refine ⟨hs, hother s ?_, hother, hne, hdot, hdots, ?_⟩
    · simp [eqIgnoreAsciiCase, hs]
    · intro c hc
      exact segment_of_hostChar (hchars c hc)

end Helmoci.ProxyHostGrammar
