import Helmoci.LinkFields
import Helmoci.Slices
import Helmoci.UpstreamPaths

/-!
# The Link scanner by position

The source walks over a field with positions and cuts the field between two of them. A
cut out of range would panic, and a backslash in a quoted string takes two steps at once.
Every cut is in range, the walk ends, and it finds what `LinkFields` reads off the text.
-/
namespace Helmoci.LinkPositions
open RustText Slices QuotedText NameResolver ManifestMediaTypes LinkFields

/-- The first position from which the bytes are not skipped. -/
def skipWhile (p : Char → Bool) (bytes : Str) (position : ℕ) : ℕ :=
  if h : position < bytes.length then
    if p bytes[position] then skipWhile p bytes (position + 1) else position
  else position
termination_by bytes.length - position

def splitFrom (params : Str) (start position : ℕ) (inQuotes : Bool) : Option (List Str) :=
  if h : position < params.length then
    if params[position] = '"' then splitFrom params start (position + 1) !inQuotes
    else if params[position] = '\\' ∧ inQuotes then splitFrom params start (position + 2) inQuotes
    else if params[position] = ';' ∧ !inQuotes then do
      let part ← slice params start position
      let parts ← splitFrom params (position + 1) (position + 1) inQuotes
      return part :: parts
    else splitFrom params start (position + 1) inQuotes
  else (slice params start params.length).map ([·])
termination_by params.length - position

def splitLinkParams (params : Str) : Option (List Str) := splitFrom params 0 0 false

def validLinkParams (params : Str) : Option Bool :=
  match trimBlanks params with
  | [] => some true
  | ';' :: params => (splitLinkParams params).map (·.all validLinkParam)
  | _ => some false

/-- Whether a quoted string is open where the parameters end, and that position. -/
def scanParams (bytes : Str) (inQuotes : Bool) (position : ℕ) : Bool × ℕ :=
  if h : position < bytes.length then
    if bytes[position] = '"' then scanParams bytes (!inQuotes) (position + 1)
    else if bytes[position] = '\\' ∧ inQuotes then scanParams bytes inQuotes (position + 2)
    else if bytes[position] = ',' ∧ !inQuotes then (inQuotes, position)
    else scanParams bytes inQuotes (position + 1)
  else (inQuotes, position)
termination_by bytes.length - position

/-- One link behind the opening bracket, and the position behind it. -/
def scanLink (field : Str) (uriStart : ℕ) : Option (Option (LinkValue × ℕ)) :=
  let position := skipWhile (· != '>') field uriStart
  if field[position]? ≠ some '>' then some none
  else
    let paramsStart := position + 1
    let (inQuotes, stop) := scanParams field false paramsStart
    if inQuotes = true ∨ field.length < stop then some none
    else do
      let uri ← slice field uriStart position
      let params ← slice field paramsStart stop
      let params := params.rdropWhile isBlank
      let valid ← validLinkParams params
      return if valid then some (⟨uri, params⟩, stop) else none

def scanLinks (field : Str) : ℕ → ℕ → Option (Option (List LinkValue))
  | 0, _ => none
  | fuel + 1, position =>
    let position := skipWhile isListBlank field position
    if position = field.length then some (some [])
    else if field[position]? ≠ some '<' then some none
    else do
      let found ← scanLink field (position + 1)
      match found with
      | none => return none
      | some (link, position) =>
        let links ← scanLinks field fuel position
        return links.map (link :: ·)

/-- None is a panic or a loop that goes on; a rejected field is `some none`. -/
def parseLinkField (fuel : ℕ) (field : Str) : Option (Option (List LinkValue)) :=
  if field.all isFieldChar then scanLinks field fuel 0 else some none

section Positions

theorem skipWhile_eq (p : Char → Bool) (bytes : Str) (position : ℕ) :
    skipWhile p bytes position = position + ((bytes.drop position).takeWhile p).length := by
  fun_induction skipWhile p bytes position with
  | case1 position h hp ih =>
      rw [List.drop_eq_getElem_cons h, List.takeWhile_cons_of_pos hp, ih]
      simp only [List.length_cons]
      omega
  | case2 position h hp =>
      rw [List.drop_eq_getElem_cons h, List.takeWhile_cons_of_neg hp]
      rfl
  | case3 position h =>
      rw [List.drop_eq_nil_of_le (by omega)]
      rfl

theorem drop_skipWhile (p : Char → Bool) (bytes : Str) (position : ℕ) :
    bytes.drop (skipWhile p bytes position) = (bytes.drop position).dropWhile p := by
  rw [skipWhile_eq, ← List.drop_drop]
  have h := List.takeWhile_append_dropWhile (p := p) (l := bytes.drop position)
  nth_rewrite 2 [← h]
  exact List.drop_left

theorem skipWhile_le {p : Char → Bool} {bytes : Str} {position : ℕ} (h : position ≤ bytes.length) :
    skipWhile p bytes position ≤ bytes.length := by
  have hle := (List.takeWhile_prefix (l := bytes.drop position) p).length_le
  rw [List.length_drop] at hle
  rw [skipWhile_eq]
  omega

theorem slice_skipWhile {p : Char → Bool} {bytes : Str} {position : ℕ}
    (h : position ≤ bytes.length) :
    slice bytes position (skipWhile p bytes position) = some ((bytes.drop position).takeWhile p) := by
  have hle := skipWhile_le (p := p) h
  rw [skipWhile_eq] at hle ⊢
  rw [slice_add hle, ← List.prefix_iff_eq_take.mp (List.takeWhile_prefix p)]

theorem getElem?_eq_head? (bytes : Str) (position : ℕ) :
    bytes[position]? = (bytes.drop position).head? := by
  rw [List.head?_drop]

/-- The bytes between two positions of a scanner and the next byte. -/
theorem take_succ_eq {text : Str} {start position : ℕ} (hs : start ≤ position)
    (h : position < text.length) :
    (text.drop start).take (position + 1 - start) =
      (text.drop start).take (position - start) ++ [text[position]] := by
  have hn : position + 1 - start = position - start + 1 := by omega
  have hlt : position - start < (text.drop start).length := by
    rw [List.length_drop]
    omega
  rw [hn, List.take_succ_eq_append_getElem hlt, List.getElem_drop]
  simp [Nat.add_sub_cancel' hs]

end Positions

section Scanners

/-- The part that is open is the text between the start and the position. -/
theorem splitFrom_eq {params : Str} {start position : ℕ} {inQuotes : Bool}
    (hs : start ≤ position) (hl : start ≤ params.length) :
    splitFrom params start position inQuotes =
      some (splitUnquoted ';' ((params.drop start).take (position - start)) inQuotes
        (params.drop position)) := by
  fun_induction splitFrom params start position inQuotes with
  | case1 start position inQuotes h hc ih =>
      rw [ih (by omega) hl, take_succ_eq hs h, List.drop_eq_getElem_cons h, hc,
        splitUnquoted_quote]
  | case2 start position inQuotes h _ hslash ih =>
      have htake := take_succ_eq hs h
      rw [ih (by omega) hl, List.drop_eq_getElem_cons h, hslash.2]
      rw [hslash.1] at htake ⊢
      by_cases hnext : position + 1 < params.length
      · rw [List.drop_eq_getElem_cons hnext, splitUnquoted_escape,
          take_succ_eq (Nat.le_succ_of_le hs) hnext, htake, List.append_assoc]
        rfl
      · -- nothing is escaped by the last byte, and both steps leave the text
        have hend : params.drop (position + 1) = [] := List.drop_eq_nil_of_le (by omega)
        have hbehind : params.drop (position + 2) = [] := List.drop_eq_nil_of_le (by omega)
        rw [hend, hbehind, splitUnquoted_nil, splitUnquoted_escape_end, ← htake,
          List.take_of_length_le, List.take_of_length_le]
        all_goals rw [List.length_drop]
        all_goals omega
  | case3 start position inQuotes h _ _ hsep ih =>
      have hq : inQuotes = false := by simpa using hsep.2
      rw [slice_eq hs (by omega), ih (Nat.le_refl _) h, List.drop_eq_getElem_cons h, hsep.1, hq,
        splitUnquoted_sep _ _ (by decide), Nat.sub_self]
      rfl
  | case4 start position inQuotes h hquote hslash hsep ih =>
      rw [ih (by omega) hl, take_succ_eq hs h, List.drop_eq_getElem_cons h,
        splitUnquoted_cons _ _ hquote hslash (by simpa using hsep)]
  | case5 start position inQuotes h =>
      have hend : params.drop position = [] := List.drop_eq_nil_of_le (by omega)
      rw [slice_length hl, hend, splitUnquoted_nil, List.take_of_length_le]
      · rfl
      all_goals rw [List.length_drop]
      all_goals omega

theorem splitLinkParams_eq (params : Str) :
    splitLinkParams params = some (LinkFields.splitLinkParams params) := by
  rw [splitLinkParams, splitFrom_eq (Nat.le_refl 0) (Nat.zero_le _)]
  rfl

theorem validLinkParams_eq (params : Str) :
    validLinkParams params = some (LinkFields.validLinkParams params) := by
  unfold validLinkParams LinkFields.validLinkParams
  cases trimBlanks params with
  | nil => rfl
  | cons c rest =>
      by_cases hc : c = ';'
      · subst hc
        simp only [splitLinkParams_eq, Option.map_some]
      · simp [hc]

theorem le_scanParams (bytes : Str) (inQuotes : Bool) (position : ℕ) :
    position ≤ (scanParams bytes inQuotes position).2 := by
  fun_induction scanParams bytes inQuotes position <;> omega

/-- The text in front of the stop and behind it, where the source goes on. -/
def scanned (bytes : Str) (position : ℕ) (stop : Bool × ℕ) : Option (Str × Str) :=
  if stop.1 = true ∨ bytes.length < stop.2 then none
  else some ((bytes.drop position).take (stop.2 - position), bytes.drop stop.2)

theorem scanned_succ {bytes : Str} {position : ℕ} (h : position < bytes.length) {stop : Bool × ℕ}
    (hle : position + 1 ≤ stop.2) :
    ((scanned bytes (position + 1) stop).map fun (params, rest) =>
      (bytes[position] :: params, rest)) = scanned bytes position stop := by
  unfold scanned
  split
  · rfl
  · have hn : stop.2 - position = stop.2 - (position + 1) + 1 := by omega
    rw [hn, List.drop_eq_getElem_cons h, List.take_succ_cons]
    rfl

/-- The scanner stops behind the parameters that are read off the text, or rejects it. -/
theorem scanParams_eq {bytes : Str} {inQuotes : Bool} {position : ℕ}
    (hin : bytes.length < position → inQuotes = true) :
    LinkFields.scanParams inQuotes (bytes.drop position) =
      scanned bytes position (scanParams bytes inQuotes position) := by
  fun_induction scanParams bytes inQuotes position with
  | case1 inQuotes position h hc ih =>
      rw [← scanned_succ h (le_scanParams _ _ _), ← ih (by omega), List.drop_eq_getElem_cons h, hc,
        scanParams_cons (by simp) (by simp), if_pos rfl]
  | case2 inQuotes position h _ hslash ih =>
      rw [hslash.2] at ih ⊢
      by_cases hnext : position + 1 < bytes.length
      · have hle := le_scanParams bytes true (position + 2)
        rw [← scanned_succ h (by omega), ← scanned_succ hnext hle, ← ih (fun _ => rfl),
          List.drop_eq_getElem_cons h, List.drop_eq_getElem_cons hnext, hslash.1,
          LinkFields.scanParams, Option.map_map]
        rfl
      · have hend : bytes.drop (position + 1) = [] := List.drop_eq_nil_of_le (by omega)
        have hstop : scanParams bytes true (position + 2) = (true, position + 2) := by
          rw [scanParams, dif_neg (by omega)]
        rw [hstop, List.drop_eq_getElem_cons h, hend, hslash.1, scanned]
        simp [LinkFields.scanParams]
  | case3 inQuotes position h _ _ hcomma =>
      have hq : inQuotes = false := by simpa using hcomma.2
      rw [List.drop_eq_getElem_cons h, hcomma.1, hq, scanParams_comma, scanned, if_neg (by simp; omega),
        Nat.sub_self, List.drop_eq_getElem_cons h, hcomma.1]
      rfl
  | case4 inQuotes position h hquote hslash hcomma ih =>
      rw [← scanned_succ h (le_scanParams _ _ _), ← ih (by omega), List.drop_eq_getElem_cons h,
        scanParams_cons (by simpa using hslash) (by simpa using hcomma), if_neg hquote]
  | case5 inQuotes position h =>
      have hend : bytes.drop position = [] := List.drop_eq_nil_of_le (by omega)
      rw [hend, scanned]
      cases inQuotes with
      | true => simp [LinkFields.scanParams]
      | false =>
          have hle : position ≤ bytes.length := by
            by_contra hlt
            exact absurd (hin (by omega)) (by simp)
          simp [LinkFields.scanParams, hend, hle]

theorem splitOnce_eq (c : Char) (s : Str) :
    splitOnce c s =
      match s.dropWhile (· != c) with
      | [] => none
      | _ :: behind => some (s.takeWhile (· != c), behind) := by
  induction s with
  | nil => rfl
  | cons d s ih =>
      by_cases hd : d = c
      · simp [splitOnce, hd]
      · rw [splitOnce, if_neg hd, ih, List.dropWhile_cons_of_pos (by simpa using hd),
          List.takeWhile_cons_of_pos (by simpa using hd)]
        cases s.dropWhile (· != c) <;> rfl

/-- The link that the text behind the bracket starts with. -/
def readLink (body : Str) : Option (LinkValue × Str) :=
  match splitOnce '>' body with
  | none => none
  | some (uri, behind) =>
    match LinkFields.scanParams false behind with
    | none => none
    | some (params, rest) =>
      let params := params.rdropWhile isBlank
      if LinkFields.validLinkParams params then some (⟨uri, params⟩, rest) else none

/-- What one pass finds, at the position where the next pass begins. -/
theorem scanLink_eq {field : Str} {uriStart : ℕ} (h : uriStart ≤ field.length) :
    ∃ found : Option (LinkValue × ℕ), scanLink field uriStart = some found ∧
      readLink (field.drop uriStart) =
        found.map (fun (link, stop) => (link, field.drop stop)) ∧
      ∀ link stop, found = some (link, stop) → uriStart < stop ∧ stop ≤ field.length := by
  have hslice := slice_skipWhile (p := (· != '>')) h
  have hdrop := drop_skipWhile (· != '>') field uriStart
  have hge : uriStart ≤ skipWhile (· != '>') field uriStart := by
    rw [skipWhile_eq]
    omega
  unfold scanLink readLink
  rw [splitOnce_eq, ← hdrop]
  generalize skipWhile (· != '>') field uriStart = position at *
  by_cases hend : field[position]? = some '>'
  · obtain ⟨hlt, hbracket⟩ := List.getElem?_eq_some_iff.mp hend
    have hscan : LinkFields.scanParams false (field.drop (position + 1)) = _ :=
      scanParams_eq (by omega)
    have hstop := le_scanParams field false (position + 1)
    simp only [List.drop_eq_getElem_cons hlt, hend, ne_eq, not_true_eq_false, if_false, hscan]
    generalize scanParams field false (position + 1) = stop at *
    unfold scanned
    split
    · exact ⟨none, rfl, rfl, by simp⟩
    · rename_i hgood
      simp only [not_or, Nat.not_lt] at hgood
      simp only [hslice, slice_eq hstop hgood.2, validLinkParams_eq, Option.bind_eq_bind,
        Option.bind_some, Option.pure_def]
      refine ⟨_, rfl, ?_, ?_⟩
      · split <;> rfl
      · intro link stop' hfound
        simp only [Option.ite_none_right_eq_some, Option.some.injEq, Prod.mk.injEq] at hfound
        omega
  · have hnone : field.drop position = [] := by
      by_contra hne
      obtain ⟨c, rest, hcons⟩ := List.exists_cons_of_ne_nil hne
      have hc : c = '>' := by
        have hhead := List.head?_dropWhile_not (· != '>') (field.drop uriStart)
        rw [← hdrop, hcons] at hhead
        simpa using hhead
      apply hend
      rw [getElem?_eq_head?, hcons, hc]
      rfl
    rw [hnone, if_pos hend]
    exact ⟨none, rfl, rfl, by simp⟩

theorem nextLinkValue_eq {s body : Str} (h : s.dropWhile isListBlank = '<' :: body) :
    nextLinkValue s = (readLink body).map some := by
  rw [nextLinkValue, h, readLink]
  cases hsplit : splitOnce '>' body with
  | none => simp [hsplit]
  | some target =>
      obtain ⟨uri, behind⟩ := target
      cases hscan : LinkFields.scanParams false behind with
      | none => simp [hsplit, hscan]
      | some found =>
          simp only [hsplit, hscan]
          split <;> rfl

theorem scanLinks_eq {field : Str} {fuel position : ℕ} (hle : position ≤ field.length)
    (hfuel : field.length - position < fuel) :
    scanLinks field fuel position = some (parseLinks fuel (field.drop position)) := by
  induction fuel generalizing position with
  | zero => omega
  | succ fuel ih =>
      have hstart := skipWhile_le (p := isListBlank) hle
      have hdrop := drop_skipWhile isListBlank field position
      have hge : position ≤ skipWhile isListBlank field position := by
        rw [skipWhile_eq]
        omega
      unfold scanLinks parseLinks
      generalize skipWhile isListBlank field position = start at *
      by_cases hdone : start = field.length
      · have hnext : nextLinkValue (field.drop position) = some none := by
          rw [nextLinkValue_eq_none_iff, ← hdrop, hdone, List.drop_length]
        rw [hnext, if_pos hdone]
      · have hlt : start < field.length := by omega
        rw [List.drop_eq_getElem_cons hlt] at hdrop
        simp only [if_neg hdone, List.getElem?_eq_getElem hlt, ne_eq, Option.some.injEq]
        by_cases hopen : field[start] = '<'
        · obtain ⟨found, hscan, hread, hbounds⟩ := scanLink_eq
            (Nat.succ_le_of_lt hlt)
          rw [hopen] at hdrop
          rw [if_neg (by simp [hopen]), nextLinkValue_eq hdrop.symm, hread, hscan]
          cases found with
          | none => rfl
          | some found =>
              obtain ⟨link, stop⟩ := found
              obtain ⟨hlow, hhigh⟩ := hbounds link stop rfl
              simp only [Option.bind_eq_bind, Option.bind_some, Option.map_some, Option.pure_def,
                ih hhigh (by omega)]
        · have hnext : nextLinkValue (field.drop position) = none := by
            rw [nextLinkValue, ← hdrop]
            split
            · contradiction
            · rename_i heq
              simp only [List.cons.injEq] at heq
              exact absurd heq.1 hopen
            · rfl
          rw [if_pos hopen, hnext]

theorem parseLinkField_eq {field : Str} {fuel : ℕ} (h : field.length < fuel) :
    parseLinkField fuel field = some (LinkFields.parseLinkField field) := by
  unfold parseLinkField LinkFields.parseLinkField
  split
  · rw [scanLinks_eq (Nat.zero_le _) h, List.drop_zero, parseLinks_eq h]
  · rfl

end Scanners

theorem isJoiner_comma_blank : IsJoiner (str ", ") := ⟨[' '], rfl, by simp [isBlank]⟩

/-- Fields joined with commas parse to their links in order, so neither the order of the
fields nor joining them changes the rewritten link. The walk by position ends after at most
one pass for each byte, and every cut it makes is in range. -/
theorem link_fields_combine :
    (∀ (a b : Str) (la lb : List LinkValue), LinkFields.parseLinkField a = some la →
      LinkFields.parseLinkField b = some lb →
      LinkFields.parseLinkField (a ++ str ", " ++ b) = some (la ++ lb)) ∧
    (∀ (lib : UrlInterface.UrlCrate) (target : OciTarget) (fields : List Str),
      (∀ field ∈ fields, (LinkFields.parseLinkField field).isSome = true) →
      (∀ fields' : List Str, fields.Perm fields' →
        rewriteTagLinks lib target fields' = rewriteTagLinks lib target fields) ∧
      ∀ sep : Str, IsJoiner sep →
        rewriteTagLinks lib target [sep.intercalate fields] = rewriteTagLinks lib target fields) ∧
    (∀ (field : Str) (fuel : ℕ), field.length < fuel →
      parseLinkField fuel field = some (LinkFields.parseLinkField field)) ∧
    ∀ params : Str, splitLinkParams params = some (LinkFields.splitLinkParams params) := by
  refine ⟨?_, ?_, ?_, splitLinkParams_eq⟩
  · intro a b la lb ha hb
    exact parseLinkField_append isJoiner_comma_blank ha hb
  · intro lib target fields h
    constructor
    · intro fields' hp
      exact (rewriteTagLinks_perm lib target hp h).symm
    · intro sep hsep
      exact rewriteTagLinks_join lib target hsep h
  · intro field fuel h
    exact parseLinkField_eq h

/-- Two fields, the first with a comma in a quoted string. -/
theorem quoted_comma_combines :
    LinkFields.parseLinkField (str "</v2/x>; title=\"a, \\\"b\"" ++ str ", " ++ str "<y>;rel=next") =
      some ([⟨str "/v2/x", str "; title=\"a, \\\"b\""⟩] ++ [⟨str "y", str ";rel=next"⟩]) :=
  link_fields_combine.1 _ _ _ _ (by decide) (by decide)

end Helmoci.LinkPositions
