import Helmoci.ManifestMediaTypes
import Helmoci.QuotedText
import Helmoci.RegistryTokens

/-!
# Link fields of an upstream's tag list

A field lists link-values: a target between angle brackets and parameters, among which
quoted strings may hold anything. One link with the relation `next` is rewritten for the
client. The source scans by position; the scanner that reads off the text is proved to
take the same steps.
-/
namespace Helmoci.LinkFields
open RustText UrlInterface QuotedText NameResolver RegistryTokens ManifestMediaTypes

/-- The target inside the angle brackets and the text behind them. -/
structure LinkValue where
  uri : Str
  params : Str
deriving DecidableEq, Repr

section Params

/-- The text behind the leading semicolon, cut where no quoted string is open. -/
def splitLinkParams (params : Str) : List Str := splitUnquoted ';' [] false params

def validLinkParam (parameter : Str) : Bool :=
  let parameter := trimBlanks parameter
  let (name, value) := match splitOnce '=' parameter with
    | some (name, value) => (name.rdropWhile isBlank, some (trimBlanks value))
    | none => (parameter, none)
  if name.isEmpty || !name.all isTokenChar then false
  else value.all fun value => isQuotedString value || (!value.isEmpty && value.all isTokenChar)

def validLinkParams (params : Str) : Bool :=
  match trimBlanks params with
  | [] => true
  | ';' :: params => (splitLinkParams params).all validLinkParam
  | _ => false

/-- The text without the backslashes that escape. -/
def unescapeLinkValue : Bool → Str → Str
  | _, [] => []
  | false, '\\' :: s => unescapeLinkValue true s
  | _, c :: s => c :: unescapeLinkValue false s

def unquoteLinkValue (value : Str) : Str :=
  match (value.dropPrefix? ['"']).bind (·.dropSuffix? ['"']) with
  | none => value
  | some inner => unescapeLinkValue false inner

def isAsciiWhitespace (c : Char) : Bool :=
  c == ' ' || c == '\t' || c == '\n' || c == '\r' || c == Char.ofNat 12

/-- The value of a `rel` parameter. -/
def relation (parameter : Str) : Option Str :=
  match splitOnce '=' (trimBlanks parameter) with
  | none => none
  | some (name, value) =>
    if eqIgnoreAsciiCase (name.rdropWhile isBlank) (str "rel") then
      some (unquoteLinkValue (trimBlanks value))
    else none

/-- The first relation parameter names the next page. -/
def isNextLink (params : Str) : Bool :=
  match trimBlanks params with
  | ';' :: params =>
    ((splitLinkParams params).findSome? relation).any fun rel =>
      (rel.splitOnP isAsciiWhitespace).any fun word => eqIgnoreAsciiCase word (str "next")
  | _ => false

end Params

section Fields

/-- What a field may carry. -/
def isFieldChar (c : Char) : Bool := (32 ≤ c.toNat && c.toNat ≤ 126) || c == '\t'

/-- What may stand in front of a link. -/
def isListBlank (c : Char) : Bool := isBlank c || c == ','

/-- The parameters up to a comma or the end, where no quoted string may be open. -/
def scanParams : Bool → Str → Option (Str × Str)
  | true, [] => none
  | false, [] => some ([], [])
  | true, '\\' :: c :: s =>
    (scanParams true s).map fun (params, rest) => ('\\' :: c :: params, rest)
  | quoted, c :: s =>
    if c = ',' ∧ quoted = false then some ([], c :: s)
    else (scanParams (if c = '"' then !quoted else quoted) s).map fun (params, rest) =>
      (c :: params, rest)

/-- The next link and what is behind it, if there is one. -/
def nextLinkValue (s : Str) : Option (Option (LinkValue × Str)) :=
  match s.dropWhile isListBlank with
  | [] => some none
  | '<' :: body =>
    match splitOnce '>' body with
    | none => none
    | some (uri, behind) =>
      match scanParams false behind with
      | none => none
      | some (params, rest) =>
        let params := params.rdropWhile isBlank
        if validLinkParams params then some (some (⟨uri, params⟩, rest)) else none
  | _ => none

def parseLinks : ℕ → Str → Option (List LinkValue)
  | 0, _ => none
  | fuel + 1, s =>
    match nextLinkValue s with
    | none => none
    | some none => some []
    | some (some (link, rest)) => (parseLinks fuel rest).map (link :: ·)

def parseLinkField (field : Str) : Option (List LinkValue) :=
  if field.all isFieldChar then parseLinks (field.length + 1) field else none

theorem scanParams_comma (s : Str) : scanParams false (',' :: s) = some ([], ',' :: s) := by
  simp [scanParams]

theorem scanParams_cons {quoted : Bool} {c : Char} (hq : c = '\\' → quoted = false)
    (hc : c = ',' → quoted = true) (s : Str) :
    scanParams quoted (c :: s) =
      (scanParams (if c = '"' then !quoted else quoted) s).map fun (params, rest) =>
        (c :: params, rest) := by
  rw [scanParams, if_neg (fun h => by simp_all)]
  intro c' s' hquoted hslash
  simp [hq hslash] at hquoted

theorem scanParams_eq_append {quoted : Bool} {s params rest : Str}
    (h : scanParams quoted s = some (params, rest)) : s = params ++ rest := by
  fun_induction scanParams quoted s generalizing params with
  | case1 => contradiction
  | case2 =>
      cases h
      rfl
  | case3 c s ih =>
      obtain ⟨⟨params', rest'⟩, hs, hp⟩ := Option.map_eq_some_iff.mp h
      cases hp
      rw [ih hs]
      rfl
  | case4 c s _ hc =>
      cases h
      rfl
  | case5 quoted c s _ hc ih =>
      obtain ⟨⟨params', rest'⟩, hs, hp⟩ := Option.map_eq_some_iff.mp h
      cases hp
      rw [ih hs]
      rfl

/-- A comma ends the parameters as the end of the text does. -/
theorem scanParams_append {quoted : Bool} {s params rest : Str}
    (h : scanParams quoted s = some (params, rest)) (b : Str) :
    scanParams quoted (s ++ ',' :: b) = some (params, rest ++ ',' :: b) := by
  fun_induction scanParams quoted s generalizing params with
  | case1 => contradiction
  | case2 =>
      cases h
      apply scanParams_comma
  | case3 c s ih =>
      obtain ⟨⟨params', rest'⟩, hs, hp⟩ := Option.map_eq_some_iff.mp h
      cases hp
      simp [scanParams, ih hs]
  | case4 quoted c s _ hc =>
      cases h
      obtain ⟨rfl, rfl⟩ := hc
      apply scanParams_comma
  | case5 quoted c s hslash hc ih =>
      obtain ⟨⟨params', rest'⟩, hs, hp⟩ := Option.map_eq_some_iff.mp h
      cases hp
      rw [List.cons_append, scanParams_cons _ (fun h' => by simp_all), ih hs]
      · rfl
      · intro h'
        by_contra hq
        have hquoted : quoted = true := by simpa using hq
        -- an escape at the very end leaves the quoted string open
        cases s with
        | nil => simp [h', hquoted, scanParams] at hs
        | cons d s => exact hslash d s hquoted h' rfl

theorem nextLinkValue_eq_none_iff {s : Str} :
    nextLinkValue s = some none ↔ s.dropWhile isListBlank = [] := by
  constructor
  · intro h
    unfold nextLinkValue at h
    split at h
    · assumption
    · repeat' split at h
      all_goals simp at h
    · cases h
  · intro h
    rw [nextLinkValue, h]

theorem nextLinkValue_eq_some_iff {s rest : Str} {link : LinkValue} :
    nextLinkValue s = some (some (link, rest)) ↔
      ∃ uri behind params : Str, s.dropWhile isListBlank = '<' :: (uri ++ '>' :: behind) ∧
        '>' ∉ uri ∧ scanParams false behind = some (params, rest) ∧
        validLinkParams (params.rdropWhile isBlank) = true ∧
        link = ⟨uri, params.rdropWhile isBlank⟩ := by
  constructor
  · intro h
    unfold nextLinkValue at h
    split at h
    · cases h
    · rename_i body hbody
      split at h
      · cases h
      · rename_i uri behind hsplit
        split at h
        · cases h
        · rename_i params rest' hscan
          simp only [Option.ite_none_right_eq_some, Option.some.injEq, Prod.mk.injEq] at h
          obtain ⟨hvalid, rfl, rfl⟩ := h
          rw [splitOnce_eq_some hsplit] at hbody
          exact ⟨uri, behind, params, hbody, not_mem_of_splitOnce hsplit, hscan, hvalid, rfl⟩
    · cases h
  · intro ⟨uri, behind, params, hs, huri, hscan, hvalid, hlink⟩
    rw [nextLinkValue, hs]
    simp [splitOnce_append huri, hscan, hvalid, hlink]

/-- The links that the scanner finds one after another. -/
inductive Links : Str → List LinkValue → Prop
  | done {s : Str} : nextLinkValue s = some none → Links s []
  | link {s rest : Str} {link : LinkValue} {links : List LinkValue} :
      nextLinkValue s = some (some (link, rest)) → Links rest links → Links s (link :: links)

theorem dropWhile_blank_append {s : Str} (h : s.dropWhile isListBlank ≠ []) (t : Str) :
    (s ++ t).dropWhile isListBlank = s.dropWhile isListBlank ++ t := by
  rw [List.dropWhile_append]
  simp [h]

/-- What a comma adds to a field is scanned after the field's own links. -/
theorem Links.append {a b : Str} {la lb : List LinkValue} (ha : Links a la) (hb : Links b lb) :
    Links (a ++ ',' :: b) (la ++ lb) := by
  induction ha with
  | @done s hs =>
      have hcomma : isListBlank ',' = true := by decide
      have hskip : (s ++ ',' :: b).dropWhile isListBlank = b.dropWhile isListBlank := by
        rw [List.dropWhile_append, nextLinkValue_eq_none_iff.mp hs]
        simp [hcomma]
      have hnext : nextLinkValue (s ++ ',' :: b) = nextLinkValue b := by
        rw [nextLinkValue, nextLinkValue, hskip]
      cases hb with
      | done hb => exact .done (hnext.trans hb)
      | link hb hrest => exact .link (hnext.trans hb) hrest
  | @link s rest link links hs _ ih =>
      apply Links.link _ ih
      rw [nextLinkValue_eq_some_iff] at hs ⊢
      obtain ⟨uri, behind, params, hskip, huri, hscan, hvalid, hlink⟩ := hs
      refine ⟨uri, behind ++ ',' :: b, params, ?_, huri, scanParams_append hscan b, hvalid, hlink⟩
      rw [dropWhile_blank_append (by simp [hskip]), hskip]
      simp

theorem length_lt_of_nextLinkValue {s rest : Str} {link : LinkValue}
    (h : nextLinkValue s = some (some (link, rest))) : rest.length < s.length := by
  obtain ⟨uri, behind, params, hskip, -, hscan, -⟩ := nextLinkValue_eq_some_iff.mp h
  have hle := (List.dropWhile_suffix (l := s) isListBlank).length_le
  rw [hskip, scanParams_eq_append hscan] at hle
  simp only [List.length_cons, List.length_append] at hle
  omega

theorem links_of_parseLinks {fuel : ℕ} {s : Str} {links : List LinkValue}
    (h : parseLinks fuel s = some links) : Links s links := by
  induction fuel generalizing s links with
  | zero => contradiction
  | succ fuel ih =>
      unfold parseLinks at h
      split at h
      · cases h
      · rename_i hs
        cases h
        exact .done hs
      · rename_i link rest hs
        obtain ⟨links', hrest, rfl⟩ := Option.map_eq_some_iff.mp h
        exact .link hs (ih hrest)

theorem Links.parseLinks {fuel : ℕ} {s : Str} {links : List LinkValue} (h : Links s links)
    (hfuel : s.length < fuel) : parseLinks fuel s = some links := by
  induction h generalizing fuel with
  | done hs =>
      obtain ⟨fuel, rfl⟩ := Nat.exists_eq_succ_of_ne_zero (Nat.ne_of_gt (Nat.zero_lt_of_lt hfuel))
      rw [LinkFields.parseLinks, hs]
  | link hs _ ih =>
      obtain ⟨fuel, rfl⟩ := Nat.exists_eq_succ_of_ne_zero (Nat.ne_of_gt (Nat.zero_lt_of_lt hfuel))
      have hlt := length_lt_of_nextLinkValue hs
      rw [LinkFields.parseLinks, hs]
      simp only [ih (by omega : _ < fuel), Option.map_some]

/-- A scan longer than the field changes nothing. -/
theorem parseLinks_eq {fuel : ℕ} {s : Str} (hfuel : s.length < fuel) :
    parseLinks fuel s = parseLinks (s.length + 1) s := by
  apply Option.ext
  intro links
  exact ⟨fun h => (links_of_parseLinks h).parseLinks (Nat.lt_succ_self _),
    fun h => (links_of_parseLinks h).parseLinks hfuel⟩

theorem parseLinkField_eq_some_iff {field : Str} {links : List LinkValue} :
    parseLinkField field = some links ↔ field.all isFieldChar = true ∧ Links field links := by
  unfold parseLinkField
  rw [Option.ite_none_right_eq_some]
  exact and_congr_right fun _ =>
    ⟨links_of_parseLinks, fun h => h.parseLinks (Nat.lt_succ_self _)⟩

/-- A comma and blanks. -/
def IsJoiner (sep : Str) : Prop :=
  ∃ blanks : Str, sep = ',' :: blanks ∧ ∀ c ∈ blanks, isBlank c = true

theorem Links.of_blanks {blanks s : Str} {links : List LinkValue}
    (hb : ∀ c ∈ blanks, isBlank c = true) (h : Links s links) : Links (blanks ++ s) links := by
  have hskip : (blanks ++ s).dropWhile isListBlank = s.dropWhile isListBlank := by
    apply List.dropWhile_append_of_pos
    intro c hc
    simp [isListBlank, hb c hc]
  have hnext : nextLinkValue (blanks ++ s) = nextLinkValue s := by
    rw [nextLinkValue, nextLinkValue, hskip]
  cases h with
  | done hs => exact .done (hnext.trans hs)
  | link hs hrest => exact .link (hnext.trans hs) hrest

theorem isFieldChar_of_isBlank {c : Char} (h : isBlank c = true) : isFieldChar c = true := by
  simp only [isBlank, Bool.or_eq_true, beq_iff_eq] at h
  rcases h with rfl | rfl <;> decide

theorem parseLinkField_append {a b sep : Str} {la lb : List LinkValue} (hsep : IsJoiner sep)
    (ha : parseLinkField a = some la) (hb : parseLinkField b = some lb) :
    parseLinkField (a ++ sep ++ b) = some (la ++ lb) := by
  rw [parseLinkField_eq_some_iff] at ha hb ⊢
  obtain ⟨blanks, rfl, hblanks⟩ := hsep
  constructor
  · have hall : blanks.all isFieldChar = true := by
      rw [List.all_eq_true]
      exact fun c hc => isFieldChar_of_isBlank (hblanks c hc)
    simp [-List.all_eq_true, ha.1, hb.1, hall, show isFieldChar ',' = true by decide]
  · simpa using ha.2.append (hb.2.of_blanks hblanks)

end Fields

section Rewriting
variable (lib : UrlCrate) (target : OciTarget)

def uriChar (c : Char) : Bool := c.isAlphanum || (str "-._~:/?#[]@!$&'()*+,;=%").contains c

def isSafeUriReference : Str → Bool
  | [] => true
  | '%' :: a :: b :: s => isAsciiHexdigit a && isAsciiHexdigit b && isSafeUriReference s
  | c :: s => c != '%' && uriChar c && isSafeUriReference s

def isRfcScheme : Str → Bool
  | [] => false
  | c :: s => c.isAlpha && s.all fun c => c.isAlphanum || c == '+' || c == '-' || c == '.'

def inFirstSegment (c : Char) : Bool := c != '/' && c != '?' && c != '#'

/-- A relative reference, or the target's scheme with an authority behind it. -/
def isStrictTagLinkReference (reference : Str) : Bool :=
  match splitOnce ':' (reference.takeWhile inFirstSegment) with
  | none => !(str "//").isPrefixOf reference
  | some (scheme, _) =>
    let remainder := reference.drop (scheme.length + 1)
    isRfcScheme scheme && eqIgnoreAsciiCase scheme (OciTarget.scheme target) &&
      (str "//").isPrefixOf remainder && (remainder[2]?).any inFirstSegment

def resolvedTagLinkUrl (reference : Str) : Option Url := do
  if !isSafeUriReference reference || !isStrictTagLinkReference target reference then none
  else
    let targetUrl ← (upstreamUrl lib target (str "tags/list")).toOption
    let resolved ← (lib.parse reference).orElse fun _ => lib.join targetUrl reference
    if resolved.sameOrigin lib targetUrl && resolved.path == targetUrl.path &&
        resolved.fragment.isNone then some resolved
    else none

/-- The target of a link to the tag list with this query. -/
def tagLinkTarget (query : Option Str) : Str :=
  let query := query.getD []
  str "/v2/" ++ (target.fullName ++ (str "/tags/list" ++
    if query.isEmpty then [] else '?' :: query))

def rewriteLinkValue (link : LinkValue) : Option Str := do
  let resolved ← resolvedTagLinkUrl lib target link.uri
  return '<' :: (tagLinkTarget target resolved.query ++ '>' :: link.params)

/-- The only next link. -/
def selectNextLink (links : List LinkValue) : Option LinkValue :=
  match links.filter fun link => isNextLink link.params with
  | [next] => some next
  | _ => none

def rewriteTagLinks (fields : List Str) : Option Str :=
  if fields.isEmpty then none
  else
    match fields.mapM parseLinkField with
    | none => none
    | some links => (selectNextLink links.flatten).bind (rewriteLinkValue lib target)

theorem eq_singleton_of_perm {α : Type} {l l' : List α} {a : α} (h : l.Perm l') (hl : l = [a]) :
    l' = [a] := by
  rw [hl] at h
  exact List.singleton_perm.mp h |>.symm

theorem selectNextLink_eq_some_iff {links : List LinkValue} {next : LinkValue} :
    selectNextLink links = some next ↔ (links.filter fun link => isNextLink link.params) = [next] := by
  unfold selectNextLink
  split
  · rename_i next' h
    rw [h]
    simp
  · rename_i h
    simpa using h next

theorem selectNextLink_perm {l l' : List LinkValue} (h : l.Perm l') :
    selectNextLink l = selectNextLink l' := by
  have hp := h.filter fun link => isNextLink link.params
  apply Option.ext
  intro next
  rw [selectNextLink_eq_some_iff, selectNextLink_eq_some_iff]
  exact ⟨eq_singleton_of_perm hp, eq_singleton_of_perm hp.symm⟩

/-- The links of the fields, each of which parses. -/
def linksOf (fields : List Str) : List LinkValue :=
  (fields.map fun field => (parseLinkField field).getD []).flatten

theorem mapM_parseLinkField {fields : List Str}
    (h : ∀ field ∈ fields, (parseLinkField field).isSome = true) :
    fields.mapM parseLinkField = some (fields.map fun field => (parseLinkField field).getD []) := by
  induction fields with
  | nil => rfl
  | cons field fields ih =>
      obtain ⟨links, hlinks⟩ := Option.isSome_iff_exists.mp (h field (by simp))
      have hrest := ih fun f hf => h f (List.mem_cons_of_mem _ hf)
      simp [hlinks, hrest]

theorem rewriteTagLinks_eq {fields : List Str}
    (h : ∀ field ∈ fields, (parseLinkField field).isSome = true) :
    rewriteTagLinks lib target fields =
      (selectNextLink (linksOf fields)).bind (rewriteLinkValue lib target) := by
  cases fields with
  | nil => rfl
  | cons field fields =>
      rw [rewriteTagLinks, mapM_parseLinkField h]
      rfl

theorem rewriteTagLinks_perm {fields fields' : List Str} (hp : fields.Perm fields')
    (h : ∀ field ∈ fields, (parseLinkField field).isSome = true) :
    rewriteTagLinks lib target fields = rewriteTagLinks lib target fields' := by
  rw [rewriteTagLinks_eq lib target h,
    rewriteTagLinks_eq lib target fun field hf => h field (hp.mem_iff.mpr hf),
    linksOf, linksOf, selectNextLink_perm (hp.map _).flatten]

theorem parseLinkField_intercalate {sep : Str} (hsep : IsJoiner sep) {fields : List Str}
    (h : ∀ field ∈ fields, (parseLinkField field).isSome = true) :
    parseLinkField (sep.intercalate fields) = some (linksOf fields) := by
  induction fields with
  | nil => rfl
  | cons field fields ih =>
      obtain ⟨links, hlinks⟩ := Option.isSome_iff_exists.mp (h field (by simp))
      have hrest := ih fun f hf => h f (List.mem_cons_of_mem _ hf)
      cases fields with
      | nil => simp [linksOf, hlinks]
      | cons next fields =>
          rw [List.intercalate_cons_cons]
          simpa [linksOf, hlinks] using parseLinkField_append hsep hlinks hrest

theorem rewriteTagLinks_join {sep : Str} (hsep : IsJoiner sep) {fields : List Str}
    (h : ∀ field ∈ fields, (parseLinkField field).isSome = true) :
    rewriteTagLinks lib target [sep.intercalate fields] = rewriteTagLinks lib target fields := by
  have hjoin := parseLinkField_intercalate hsep h
  rw [rewriteTagLinks_eq lib target h, rewriteTagLinks_eq lib target (by simp [hjoin])]
  simp [linksOf, hjoin]

end Rewriting

end Helmoci.LinkFields
