import Helmoci.JsonNumbers
import Helmoci.SortedMembers

/-!
# JSON as text

Values, how they are printed, and a reader for any text. An object is kept as a sorted
map, so that a later member replaces an earlier one of the same name. What is printed is
read back, and what is read is printed as itself. The reader has as much fuel as any text
needs.
-/
namespace Helmoci.JsonText
open RustText Utf8 JsonDocuments JsonValues JsonNumbers SortedMembers

section Printing

mutual

def printValue : Value → Str
  | .null => str "null"
  | .bool true => str "true"
  | .bool false => str "false"
  | .number n => numberText n
  | .string s => jsonString s
  | .array items => '[' :: ((printItems items).tail ++ [']'])
  | .object members => '\x7b' :: ((printMembers members).tail ++ ['\x7d'])

/-- A comma stands in front of each item. -/
def printItems : List Value → Str
  | [] => []
  | v :: items => ',' :: (printValue v ++ printItems items)

def printMembers : List (Str × Value) → Str
  | [] => []
  | (key, v) :: members => ',' :: (jsonString key ++ ':' :: (printValue v ++ printMembers members))

end

end Printing

section Strings

def hexValue (c : Char) : Option ℕ :=
  if c.isDigit then some (c.toNat - 48)
  else if 'a' ≤ c ∧ c ≤ 'f' then some (c.toNat - 87)
  else if 'A' ≤ c ∧ c ≤ 'F' then some (c.toNat - 55)
  else none

def readHex (a b c d : Char) : Option ℕ := do
  let a ← hexValue a
  let b ← hexValue b
  let c ← hexValue c
  let d ← hexValue d
  return ((a * 16 + b) * 16 + c) * 16 + d

/-- The character behind a backslash, where it stands for a single one. -/
def unescape (c : Char) : Option Char :=
  if c = '"' ∨ c = '\\' ∨ c = '/' then some c
  else if c = 'b' then some (Char.ofNat 8)
  else if c = 'f' then some (Char.ofNat 12)
  else if c = 'n' then some '\n'
  else if c = 'r' then some '\r'
  else if c = 't' then some '\t'
  else none

def behind (c : Char) : Option (Str × Str) → Option (Str × Str) :=
  Option.map fun p => (c :: p.1, p.2)

/-- The characters up to the closing quote. The first half of a surrogate pair is kept
until the second one has been read, which has to follow. -/
def readChars : Option ℕ → Str → Option (Str × Str)
  | high, '\\' :: 'u' :: a :: b :: c :: d :: s =>
    match high, readHex a b c d with
    | some high, some low =>
      if 0xDC00 ≤ low ∧ low ≤ 0xDFFF then
        behind (Char.ofNat (0x10000 + (high - 0xD800) * 0x400 + (low - 0xDC00))) (readChars none s)
      else none
    | none, some n =>
      if 0xD800 ≤ n ∧ n ≤ 0xDBFF then readChars (some n) s
      else if 0xDC00 ≤ n ∧ n ≤ 0xDFFF then none
      else behind (Char.ofNat n) (readChars none s)
    | _, none => none
  | none, '\\' :: c :: s =>
    match unescape c with
    | some c => behind c (readChars none s)
    | none => none
  | none, c :: s =>
    if c = '"' then some ([], s)
    else if c.toNat < 32 ∨ c = '\\' then none
    else behind c (readChars none s)
  | _, _ => none

theorem readChars_unescape {c d : Char} (h : unescape c = some d) (s : Str) :
    readChars none ('\\' :: c :: s) = behind d (readChars none s) := by
  have hu : c ≠ 'u' := by
    rintro rfl
    contradiction
  rw [readChars]
  · rw [h]
  · intro _ _ _ _ _ heq
    exact absurd heq hu

/-- A character as it is printed. -/
theorem readChars_escapeJson (c : Char) (s : Str) :
    readChars none (escapeJson c ++ s) = behind c (readChars none s) := by
  have code : ∀ {n : ℕ}, c.toNat = n → c = Char.ofNat n := by
    intro n hn
    rw [← hn, Char.ofNat_toNat]
  unfold escapeJson
  split_ifs with h₁ h₂ h₃ h₄ h₅ h₆ h₇ h₈
  · exact h₁ ▸ readChars_unescape rfl s
  · exact h₂ ▸ readChars_unescape rfl s
  · exact code h₃ ▸ readChars_unescape rfl s
  · exact code h₄ ▸ readChars_unescape rfl s
  · exact code h₅ ▸ readChars_unescape rfl s
  · exact code h₆ ▸ readChars_unescape rfl s
  · exact code h₇ ▸ readChars_unescape rfl s
  · have hhex : ∀ n < 32, readHex '0' '0' (hexDigit (n / 16)) (hexDigit (n % 16)) = some n := by
      decide
    change readChars none ('\\' :: 'u' :: '0' :: '0' :: hexDigit (c.toNat / 16) ::
      hexDigit (c.toNat % 16) :: s) = _
    conv_lhs => unfold readChars
    simp only [hhex _ h₈]
    rw [if_neg (by omega), if_neg (by omega), Char.ofNat_toNat]
  · change readChars none (c :: s) = _
    rw [readChars]
    · rw [if_neg h₁, if_neg (by simp [h₂, h₈])]
    · intro _ _ _ _ _ heq
      exact absurd heq h₂
    · intro _ _ heq
      exact absurd heq h₂

theorem readChars_jsonString (s rest : Str) :
    readChars none (s.flatMap escapeJson ++ '"' :: rest) = some (s, rest) := by
  induction s with
  | nil => simp [readChars]
  | cons c s ih =>
      rw [List.flatMap_cons, List.append_assoc, readChars_escapeJson, ih]
      rfl

end Strings

example : readChars none (str "a\\u0041\\ud83d\\ude00\\n\" b") = some (str "aA😀\n", str " b") := by
  decide

section Values

def isJsonBlank (c : Char) : Bool := c == ' ' || c == '\n' || c == '\t' || c == '\r'

def skipBlanks (s : Str) : Str := s.dropWhile isJsonBlank

/-- What stands behind a character. -/
def behindChar (c : Char) : Str → Option Str
  | [] => none
  | d :: s => if d = c then some s else none

variable (float : Str → Option Str)

mutual

/-- A value in front of a text. An array or an object takes one of the levels that are
left, and the last one is not given out. -/
def readValue : ℕ → ℕ → Str → Option (Value × Str)
  | 0, _, _ => none
  | fuel + 1, depth, s =>
    match skipBlanks s with
    | [] => none
    | c :: s =>
      if c = 'n' then (s.dropPrefix? (str "ull")).map fun s => (.null, s)
      else if c = 't' then (s.dropPrefix? (str "rue")).map fun s => (.bool true, s)
      else if c = 'f' then (s.dropPrefix? (str "alse")).map fun s => (.bool false, s)
      else if c = '"' then (readChars none s).map fun (text, s) => (.string text, s)
      else if c = '[' then
        if depth ≤ 1 then none
        else
          match behindChar ']' (skipBlanks s) with
          | some s => some (.array [], s)
          | none => (readItems fuel (depth - 1) s).map fun (items, s) => (.array items, s)
      else if c = '\x7b' then
        if depth ≤ 1 then none
        else
          match behindChar '\x7d' (skipBlanks s) with
          | some s => some (.object [], s)
          | none => (readMembers fuel (depth - 1) s).map fun (members, s) =>
              (.object (toMap members), s)
      else (readNumber float (c :: s)).map fun (n, s) => (.number n, s)

def readItems : ℕ → ℕ → Str → Option (List Value × Str)
  | 0, _, _ => none
  | fuel + 1, depth, s => do
    let (v, s) ← readValue fuel depth s
    match behindChar ',' (skipBlanks s) with
    | some s => (readItems fuel depth s).map fun (items, s) => (v :: items, s)
    | none => (behindChar ']' (skipBlanks s)).map fun s => ([v], s)

def readMembers : ℕ → ℕ → Str → Option (List (Str × Value) × Str)
  | 0, _, _ => none
  | fuel + 1, depth, s => do
    let s ← behindChar '"' (skipBlanks s)
    let (key, s) ← readChars none s
    let s ← behindChar ':' (skipBlanks s)
    let (v, s) ← readValue fuel depth s
    match behindChar ',' (skipBlanks s) with
    | some s => (readMembers fuel depth s).map fun (members, s) => ((key, v) :: members, s)
    | none => (behindChar '\x7d' (skipBlanks s)).map fun s => ([(key, v)], s)

end

/-- The value of a whole text. -/
def parse (s : Str) : Option Value :=
  match readValue float (2 * s.length + 1) 128 s with
  | none => none
  | some (v, rest) => if (skipBlanks rest).isEmpty then some v else none

/-- `serde_json::from_slice` at a value. -/
def fromSlice (data : Bytes) : Option Value := (fromUtf8 data).bind (parse float)

/-- `serde_json::to_vec` at a value. -/
def toVec (v : Value) : Bytes := asBytes (printValue v)

end Values

example : (parse (fun _ => none) (str " \x7b\"b\": [1, -2 ,true],\n\"a\":\"x\", \"b\":null\x7d ")).map
    printValue = some (str "\x7b\"a\":\"x\",\"b\":null\x7d") := by
  decide +kernel

section RoundTrip
variable (float : Str → Option Str)

mutual

/-- The value with its objects as maps. -/
def normalValue : Value → Value
  | .array items => .array (normalItems items)
  | .object members => .object (toMap (normalMembers members))
  | v => v

def normalItems : List Value → List Value
  | [] => []
  | v :: items => normalValue v :: normalItems items

def normalMembers : List (Str × Value) → List (Str × Value)
  | [] => []
  | (key, v) :: members => (key, normalValue v) :: normalMembers members

end

/-- The values that are read with so many levels left. -/
inductive Readable : ℕ → Value → Prop
  | null {depth : ℕ} : Readable depth .null
  | bool {depth : ℕ} (b : Bool) : Readable depth (.bool b)
  | number {depth : ℕ} {n : Number} : Printable float n → Readable depth (.number n)
  | string {depth : ℕ} (s : Str) : Readable depth (.string s)
  | array {depth : ℕ} {items : List Value} : 0 < depth → (∀ v ∈ items, Readable depth v) →
      Readable (depth + 1) (.array items)
  | object {depth : ℕ} {members : List (Str × Value)} : 0 < depth →
      (∀ p ∈ members, Readable depth p.2) → Readable (depth + 1) (.object members)

variable {float}

theorem skipBlanks_cons {c : Char} (h : isJsonBlank c = false) (s : Str) :
    skipBlanks (c :: s) = c :: s := by
  simp [skipBlanks, h]

theorem readValue_number {n : Number} {rest : Str} (hn : Printable float n)
    (h : EndsNumber rest) (fuel depth : ℕ) :
    readValue float (fuel + 1) depth (numberText n ++ rest) = some (.number n, rest) := by
  have hread := readNumber_text hn h
  obtain ⟨c, t, ht, hc⟩ := head_of_readNumber hread
  have hother : ∀ d ∈ ['n', 't', 'f', '"', '[', '\x7b', ' ', '\n', '\t', '\r'], c ≠ d := by
    have hall : ∀ d ∈ ['n', 't', 'f', '"', '[', '\x7b', ' ', '\n', '\t', '\r'],
        d ≠ '-' ∧ d.isDigit = false := forall_of_all (by decide)
    intro d hd heq
    rcases hc with hc | hc
    · exact (hall d hd).1 (heq ▸ hc)
    · rw [heq, (hall d hd).2] at hc
      cases hc
  have hblank : isJsonBlank c = false := by
    simp [isJsonBlank, hother ' ' (by decide), hother '\n' (by decide), hother '\t' (by decide),
      hother '\r' (by decide)]
  rw [readValue, ht, skipBlanks_cons hblank]
  dsimp only
  rw [if_neg (hother 'n' (by decide)), if_neg (hother 't' (by decide)),
    if_neg (hother 'f' (by decide)), if_neg (hother '"' (by decide)),
    if_neg (hother '[' (by decide)), if_neg (hother '\x7b' (by decide)), ← ht, hread]
  rfl

@[simp] theorem behindChar_cons (c : Char) (s : Str) : behindChar c (c :: s) = some s := by
  simp [behindChar]

theorem behindChar_of_ne {c d : Char} (h : d ≠ c) (s : Str) : behindChar c (d :: s) = none := by
  simp [behindChar, h]

/-- What stands behind a value inside of another one. -/
theorem endsNumber_cons {c : Char} (hc : c = ',' ∨ c = ']' ∨ c = '\x7d') (s : Str) :
    EndsNumber (c :: s) := by
  intro d hd
  cases hd
  rcases hc with rfl | rfl | rfl <;> decide

/-- No value is printed with a blank in front, or as the end of an array. -/
theorem head_print {depth : ℕ} {v : Value} (h : Readable float depth v) :
    ∃ c t, printValue v = c :: t ∧ isJsonBlank c = false ∧ c ≠ ']' := by
  cases h with
  | null => exact ⟨'n', _, rfl, by decide, by decide⟩
  | bool b => cases b <;> exact ⟨_, _, rfl, by decide, by decide⟩
  | number hn =>
      rename_i n
      have hread : readNumber float (numberText n ++ []) = some (n, []) :=
        readNumber_text hn (by intro c hc; cases hc)
      rw [List.append_nil] at hread
      obtain ⟨c, t, ht, hc⟩ := head_of_readNumber hread
      refine ⟨c, t, ht, ?_⟩
      have hall : ∀ d ∈ [']', ' ', '\n', '\t', '\r'], d ≠ '-' ∧ d.isDigit = false :=
        forall_of_all (by decide)
      have hne : ∀ d ∈ [']', ' ', '\n', '\t', '\r'], c ≠ d := by
        intro d hd heq
        rcases hc with hc | hc
        · exact (hall d hd).1 (heq ▸ hc)
        · rw [heq, (hall d hd).2] at hc
          cases hc
      simp [isJsonBlank, hne ' ' (by simp), hne '\n' (by simp), hne '\t' (by simp),
        hne '\r' (by simp), hne ']' (by simp)]
  | string s => exact ⟨'"', _, rfl, by decide, by decide⟩
  | array _ _ => exact ⟨'[', _, rfl, by decide, by decide⟩
  | object _ _ => exact ⟨'\x7b', _, rfl, by decide, by decide⟩

/-- Reading a printed value, whatever stands behind it. -/
def Reads (float : Str → Option Str) (v : Value) : Prop :=
  ∀ depth, Readable float depth v → ∀ fuel rest, 2 * (printValue v).length ≤ fuel → EndsNumber rest →
    readValue float fuel depth (printValue v ++ rest) = some (normalValue v, rest)

theorem readItems_print {depth : ℕ} {items : List Value}
    (ih : ∀ v ∈ items, Reads float v) (h : ∀ v ∈ items, Readable float depth v)
    (hne : items ≠ []) {fuel : ℕ} (hfuel : 2 * (printItems items).length ≤ fuel + 1) (rest : Str) :
    readItems float fuel depth ((printItems items).tail ++ ']' :: rest) =
      some (normalItems items, rest) := by
  induction items generalizing fuel with
  | nil => contradiction
  | cons v items ihs =>
      simp only [printItems, List.length_cons, List.length_append] at hfuel
      obtain ⟨fuel, rfl⟩ : ∃ n, fuel = n + 1 := ⟨fuel - 1, by omega⟩
      have hv := ih v (by simp) depth (h v (by simp)) fuel
      simp only [printItems, List.tail_cons, List.append_assoc, normalItems]
      rw [readItems]
      cases items with
      | nil =>
          rw [printItems, List.nil_append,
            hv (']' :: rest) (by omega) (endsNumber_cons (by simp) rest)]
          simp [skipBlanks, isJsonBlank, behindChar_of_ne, normalItems]
      | cons w items =>
          have hrest := ihs (fun u hu => ih u (by simp [hu])) (fun u hu => h u (by simp [hu]))
            (by simp) (by omega : _ ≤ fuel + 1)
          rw [printItems, List.cons_append,
            hv (',' :: _) (by omega) (endsNumber_cons (by simp) _)]
          simp only [printItems, List.tail_cons, List.append_assoc] at hrest
          simp [skipBlanks, isJsonBlank, hrest, normalItems]

theorem readMembers_print {depth : ℕ} {members : List (Str × Value)}
    (ih : ∀ p ∈ members, Reads float p.2) (h : ∀ p ∈ members, Readable float depth p.2)
    (hne : members ≠ []) {fuel : ℕ} (hfuel : 2 * (printMembers members).length ≤ fuel + 1)
    (rest : Str) :
    readMembers float fuel depth ((printMembers members).tail ++ '\x7d' :: rest) =
      some (normalMembers members, rest) := by
  induction members generalizing fuel with
  | nil => contradiction
  | cons p members ihs =>
      obtain ⟨key, v⟩ := p
      simp only [printMembers, List.length_cons, List.length_append] at hfuel
      obtain ⟨fuel, rfl⟩ : ∃ n, fuel = n + 1 := ⟨fuel - 1, by omega⟩
      have hv := ih (key, v) (by simp) depth (h (key, v) (by simp)) fuel
      dsimp only at hv
      have hkey := readChars_jsonString key
      simp only [printMembers, List.tail_cons, List.append_assoc, List.cons_append, normalMembers,
        jsonString]
      rw [readMembers]
      cases members with
      | nil =>
          simp only [printMembers, List.nil_append]
          simp [skipBlanks, isJsonBlank, hkey, hv ('\x7d' :: rest) (by omega)
            (endsNumber_cons (by simp) rest), behindChar_of_ne, normalMembers]
      | cons q members =>
          obtain ⟨key', w⟩ := q
          have hrest := ihs (fun u hu => ih u (by simp [hu])) (fun u hu => h u (by simp [hu]))
            (by simp) (by omega : _ ≤ fuel + 1)
          simp only [printMembers, List.tail_cons, List.append_assoc, List.cons_append,
            List.nil_append, jsonString, normalMembers] at hrest ⊢
          simp [skipBlanks, isJsonBlank, hkey, hv (',' :: _) (by omega)
            (endsNumber_cons (by simp) _), hrest]

theorem exists_succ_of_print {depth fuel : ℕ} {v : Value} (h : Readable float depth v)
    (hfuel : 2 * (printValue v).length ≤ fuel) : ∃ n, fuel = n + 1 := by
  obtain ⟨c, t, hprint, -, -⟩ := head_print h
  rw [hprint, List.length_cons] at hfuel
  exact ⟨fuel - 1, by omega⟩

/-- A printed value is read as the value with its objects as maps. -/
theorem reads (v : Value) : Reads float v := by
  induction v using Value.induct with
  | null =>
      intro depth h fuel rest hfuel _
      obtain ⟨fuel, rfl⟩ := exists_succ_of_print h hfuel
      change readValue float (fuel + 1) depth ('n' :: (str "ull" ++ rest)) = _
      rw [readValue, skipBlanks_cons (by decide)]
      simp [dropPrefix?_append, normalValue]
  | bool b =>
      intro depth h fuel rest hfuel _
      obtain ⟨fuel, rfl⟩ := exists_succ_of_print h hfuel
      cases b with
      | true =>
          change readValue float (fuel + 1) depth ('t' :: (str "rue" ++ rest)) = _
          rw [readValue, skipBlanks_cons (by decide)]
          simp [dropPrefix?_append, normalValue]
      | false =>
          change readValue float (fuel + 1) depth ('f' :: (str "alse" ++ rest)) = _
          rw [readValue, skipBlanks_cons (by decide)]
          simp [dropPrefix?_append, normalValue]
  | number n =>
      intro depth h fuel rest hfuel hrest
      obtain ⟨fuel, rfl⟩ := exists_succ_of_print h hfuel
      cases h with
      | number hn => exact readValue_number hn hrest fuel depth
  | string s =>
      intro depth h fuel rest hfuel _
      obtain ⟨fuel, rfl⟩ := exists_succ_of_print h hfuel
      change readValue float (fuel + 1) depth ('"' :: (s.flatMap escapeJson ++ ['"'] ++ rest)) = _
      rw [readValue, skipBlanks_cons (by decide)]
      simp [readChars_jsonString, normalValue]
  | array items ih =>
      intro depth h fuel rest hfuel _
      obtain ⟨fuel, rfl⟩ := exists_succ_of_print h hfuel
      cases h with
      | array hpos hall =>
          rename_i depth
          have htext : printValue (.array items) ++ rest =
              '[' :: ((printItems items).tail ++ ']' :: rest) := by simp [printValue]
          rw [htext, readValue, skipBlanks_cons (by decide)]
          cases items with
          | nil => simp [printItems, skipBlanks, isJsonBlank, normalValue, normalItems, hpos.ne']
          | cons v items =>
              obtain ⟨c, t, hprint, hblank, hc⟩ := head_print (hall v (by simp))
              have hhead : (printItems (v :: items)).tail ++ ']' :: rest =
                  c :: (t ++ (printItems items ++ ']' :: rest)) := by simp [printItems, hprint]
              have hitems := readItems_print ih hall (by simp) (by
                simp only [printValue, List.length_cons, List.length_append, List.length_tail]
                  at hfuel
                omega : _ ≤ fuel + 1) rest
              have hskip : behindChar ']' (skipBlanks ((printItems (v :: items)).tail ++
                  ']' :: rest)) = none := by
                rw [hhead, skipBlanks_cons hblank, behindChar_of_ne hc]
              simp [hskip, hitems, normalValue, hpos.ne']
  | object members ih =>
      intro depth h fuel rest hfuel _
      obtain ⟨fuel, rfl⟩ := exists_succ_of_print h hfuel
      cases h with
      | object hpos hall =>
          rename_i depth
          have htext : printValue (.object members) ++ rest =
              '\x7b' :: ((printMembers members).tail ++ '\x7d' :: rest) := by simp [printValue]
          rw [htext, readValue, skipBlanks_cons (by decide)]
          cases members with
          | nil =>
              simp [printMembers, skipBlanks, isJsonBlank, normalValue, normalMembers, toMap,
                hpos.ne']
          | cons p members =>
              obtain ⟨key, v⟩ := p
              have hmembers := readMembers_print ih hall (by simp) (by
                simp only [printValue, List.length_cons, List.length_append, List.length_tail]
                  at hfuel
                omega : _ ≤ fuel + 1) rest
              have hskip : behindChar '\x7d' (skipBlanks ((printMembers ((key, v) :: members)).tail ++
                  '\x7d' :: rest)) = none := by
                simp [printMembers, jsonString, skipBlanks, isJsonBlank, behindChar]
              simp [hskip, hmembers, normalValue, hpos.ne']

/-- What is printed is read back. -/
theorem parse_print {v : Value} (h : Readable float 128 v) :
    parse float (printValue v) = some (normalValue v) := by
  have hread := reads v 128 h (2 * (printValue v).length + 1) [] (by omega) (by intro c hc; cases hc)
  rw [List.append_nil] at hread
  rw [parse, hread]
  rfl

theorem fromSlice_toVec {v : Value} (h : Readable float 128 v) :
    fromSlice float (toVec v) = some (normalValue v) := by
  rw [fromSlice, toVec, fromUtf8_asBytes, Option.bind_some, parse_print h]

theorem normalItems_of_forall {items : List Value} (h : ∀ v ∈ items, normalValue v = v) :
    normalItems items = items := by
  induction items with
  | nil => rfl
  | cons v items ih =>
      rw [normalItems, h v (by simp), ih fun w hw => h w (by simp [hw])]

theorem normalMembers_of_forall {members : List (Str × Value)}
    (h : ∀ p ∈ members, normalValue p.2 = p.2) :
    normalMembers members = members := by
  induction members with
  | nil => rfl
  | cons p members ih =>
      obtain ⟨key, v⟩ := p
      rw [normalMembers, h (key, v) (by simp), ih fun w hw => h w (by simp [hw])]

/-- A value is read as it is printed, if its floats are. -/
theorem readable_of_formed {depth : ℕ} {v : Value} (h : Formed depth v)
    (hfloats : ∀ text ∈ v.floats, Restored float text) :
    Readable float depth v ∧ normalValue v = v := by
  induction h with
  | null => exact ⟨.null, rfl⟩
  | bool b => exact ⟨.bool b, rfl⟩
  | @number depth n hn =>
      refine ⟨.number ?_, rfl⟩
      cases n with
      | unsigned n => exact hn
      | negative n => exact hn
      | float text => exact hfloats text (by simp [Value.floats])
  | string s => exact ⟨.string s, rfl⟩
  | @array depth items hpos _ ih =>
      have hitems : ∀ v ∈ items, Readable float depth v ∧ normalValue v = v := by
        intro v hv
        refine ih v hv fun text htext => hfloats text ?_
        rw [Value.floats]
        exact mem_itemFloats.mpr ⟨v, hv, htext⟩
      refine ⟨.array hpos fun v hv => (hitems v hv).1, ?_⟩
      rw [normalValue, normalItems_of_forall fun v hv => (hitems v hv).2]
  | @object depth members hpos _ hsorted ih =>
      have hmembers : ∀ p ∈ members, Readable float depth p.2 ∧ normalValue p.2 = p.2 := by
        intro p hp
        refine ih p hp fun text htext => hfloats text ?_
        rw [Value.floats]
        exact mem_memberFloats.mpr ⟨p, hp, htext⟩
      refine ⟨.object hpos fun p hp => (hmembers p hp).1, ?_⟩
      rw [normalValue, normalMembers_of_forall fun p hp => (hmembers p hp).2,
        toMap_of_sorted hsorted]

/-- What is read is in range, in order and no deeper than the levels that are left. -/
theorem formed_of_read (fuel : ℕ) :
    (∀ depth s v rest, readValue float fuel depth s = some (v, rest) → Formed depth v) ∧
    (∀ depth s items rest, readItems float fuel depth s = some (items, rest) →
      ∀ v ∈ items, Formed depth v) ∧
    ∀ depth s members rest, readMembers float fuel depth s = some (members, rest) →
      ∀ p ∈ members, Formed depth p.2 := by
  induction fuel with
  | zero =>
      refine ⟨?_, ?_, ?_⟩ <;> intro depth s _ _ h
      · rw [readValue] at h; cases h
      · rw [readItems] at h; cases h
      · rw [readMembers] at h; cases h
  | succ fuel ih =>
      obtain ⟨ihv, ihi, ihm⟩ := ih
      refine ⟨?_, ?_, ?_⟩
      · intro depth s v rest h
        rw [readValue] at h
        cases hs : skipBlanks s with
        | nil =>
            rw [hs] at h
            cases h
        | cons c s =>
            rw [hs] at h
            dsimp only at h
            split_ifs at h
            · obtain ⟨_, -, heq⟩ := Option.map_eq_some_iff.mp h
              cases heq
              exact .null
            · obtain ⟨_, -, heq⟩ := Option.map_eq_some_iff.mp h
              cases heq
              exact .bool true
            · obtain ⟨_, -, heq⟩ := Option.map_eq_some_iff.mp h
              cases heq
              exact .bool false
            · obtain ⟨⟨text, _⟩, -, heq⟩ := Option.map_eq_some_iff.mp h
              cases heq
              exact .string text
            · rename_i hdepth
              obtain ⟨depth, rfl⟩ : ∃ n, depth = n + 1 := ⟨depth - 1, by omega⟩
              have hpos : 0 < depth := by omega
              split at h
              · cases h
                exact .array hpos (by simp)
              · obtain ⟨⟨items, _⟩, hi, heq⟩ := Option.map_eq_some_iff.mp h
                cases heq
                exact .array hpos (ihi depth _ _ _ hi)
            · rename_i hdepth
              obtain ⟨depth, rfl⟩ : ∃ n, depth = n + 1 := ⟨depth - 1, by omega⟩
              have hpos : 0 < depth := by omega
              split at h
              · cases h
                exact .object hpos (by simp) List.Pairwise.nil
              · obtain ⟨⟨members, _⟩, hm, heq⟩ := Option.map_eq_some_iff.mp h
                cases heq
                exact .object hpos (fun p hp => ihm depth _ _ _ hm p (mem_toMap hp))
                  (sorted_toMap members)
            · obtain ⟨⟨n, _⟩, hn, heq⟩ := Option.map_eq_some_iff.mp h
              cases heq
              obtain ⟨l, -, hnum⟩ := readNumber_eq_some hn
              exact .number (inRange_of_numberOf hnum)
      · intro depth s items rest h
        rw [readItems] at h
        obtain ⟨⟨v, s₁⟩, hv, h⟩ := Option.bind_eq_some_iff.mp h
        have hformed := ihv depth s v s₁ hv
        dsimp only at h
        split at h
        · obtain ⟨⟨items', _⟩, hi, heq⟩ := Option.map_eq_some_iff.mp h
          cases heq
          exact List.forall_mem_cons.mpr ⟨hformed, ihi depth _ _ _ hi⟩
        · obtain ⟨_, -, heq⟩ := Option.map_eq_some_iff.mp h
          cases heq
          exact List.forall_mem_singleton.mpr hformed
      · intro depth s members rest h
        rw [readMembers] at h
        obtain ⟨s₁, -, h⟩ := Option.bind_eq_some_iff.mp h
        obtain ⟨⟨key, s₂⟩, -, h⟩ := Option.bind_eq_some_iff.mp h
        obtain ⟨s₃, -, h⟩ := Option.bind_eq_some_iff.mp h
        obtain ⟨⟨v, s₄⟩, hv, h⟩ := Option.bind_eq_some_iff.mp h
        have hformed := ihv depth s₃ v s₄ hv
        dsimp only at h
        split at h
        · obtain ⟨⟨members', _⟩, hm, heq⟩ := Option.map_eq_some_iff.mp h
          cases heq
          exact List.forall_mem_cons.mpr ⟨hformed, ihm depth _ _ _ hm⟩
        · obtain ⟨_, -, heq⟩ := Option.map_eq_some_iff.mp h
          cases heq
          exact List.forall_mem_singleton.mpr hformed

theorem read_of_parse {s : Str} {v : Value} (h : parse float s = some v) :
    ∃ rest, readValue float (2 * s.length + 1) 128 s = some (v, rest) ∧ skipBlanks rest = [] := by
  unfold parse at h
  split at h
  · cases h
  · rename_i v' rest hread
    split at h
    · rename_i hrest
      cases h
      exact ⟨rest, hread, List.isEmpty_iff.mp hrest⟩
    · cases h

theorem readNumber_of_readValue {fuel depth : ℕ} {s rest : Str} {n : Number}
    (h : readValue float (fuel + 1) depth s = some (.number n, rest)) :
    readNumber float (skipBlanks s) = some (n, rest) := by
  rw [readValue] at h
  cases hs : skipBlanks s with
  | nil =>
      rw [hs] at h
      cases h
  | cons c s =>
      rw [hs] at h
      dsimp only at h
      split_ifs at h
      · obtain ⟨_, -, heq⟩ := Option.map_eq_some_iff.mp h
        cases heq
      · obtain ⟨_, -, heq⟩ := Option.map_eq_some_iff.mp h
        cases heq
      · obtain ⟨_, -, heq⟩ := Option.map_eq_some_iff.mp h
        cases heq
      · obtain ⟨_, -, heq⟩ := Option.map_eq_some_iff.mp h
        cases heq
      · split at h
        · cases h
        · obtain ⟨_, -, heq⟩ := Option.map_eq_some_iff.mp h
          cases heq
      · split at h
        · cases h
        · obtain ⟨_, -, heq⟩ := Option.map_eq_some_iff.mp h
          cases heq
      · obtain ⟨⟨n', rest'⟩, hn, heq⟩ := Option.map_eq_some_iff.mp h
        cases heq
        exact hn

end RoundTrip

section Crate
variable {float : Str → Option Str}

/-- This reader and printer as those of a library. -/
def jsonText (float : Str → Option Str) : ValueCrate := ⟨fromSlice float, toVec⟩

theorem restored_of_reprinted (texts : FloatTexts float) {text : Str}
    (h : Reprinted (jsonText float) text) : Restored float text := by
  change fromSlice float (asBytes text) = _ at h
  rw [fromSlice, fromUtf8_asBytes, Option.bind_some] at h
  obtain ⟨rest, hread, -⟩ := read_of_parse h
  obtain ⟨l, hl, hnum⟩ := readNumber_eq_some (readNumber_of_readValue hread)
  have hfloat := numberOf_eq_float hnum
  obtain ⟨l', hl', hbehind⟩ := texts _ _ hfloat
  -- the text of a float has no blanks in front
  obtain ⟨c, t, rfl, hc⟩ := head_of_readLiteral hl'
  have hblank : isJsonBlank c = false := by
    rcases hc with rfl | hc
    · decide
    · by_contra hb
      simp only [isJsonBlank, Bool.not_eq_false, Bool.or_eq_true, beq_iff_eq] at hb
      rcases hb with ((rfl | rfl) | rfl) | rfl <;> exact absurd hc (by decide)
  rw [skipBlanks_cons hblank, hl'] at hl
  cases hl
  exact ⟨l, hl', hbehind, hfloat⟩

theorem jsonText_laws (texts : FloatTexts float) : ValueLaws (jsonText float) where
  formed data v h := by
    obtain ⟨s, -, hs⟩ := Option.bind_eq_some_iff.mp h
    obtain ⟨rest, hread, -⟩ := read_of_parse hs
    exact (formed_of_read _).1 _ _ _ _ hread
  readsBack v hv hfloats := by
    obtain ⟨hread, hnormal⟩ := readable_of_formed hv fun text htext =>
      restored_of_reprinted texts (hfloats text htext)
    have hback := fromSlice_toVec hread
    rwa [hnormal] at hback

end Crate

end Helmoci.JsonText
