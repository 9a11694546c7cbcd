import Helmoci.ManifestMediaTypes
import Helmoci.SegmentedText

/-!
# The grammar of media types

A media type is followed by parameters, each behind a semicolon: a name and a token or a
quoted string. The source cuts at every semicolon, also at one in a quoted string. Such
a media type is refused, all others of the grammar are accepted, and nothing else is.
-/
namespace Helmoci.MediaTypeGrammar
open RustText SegmentedText JsonDocuments ManifestMediaTypes

section Grammar

/-- Optional white space. -/
abbrev Blanks := {b : Str // ∀ c ∈ b, isBlank c = true}

def noBlanks : Blanks := ⟨[], by simp⟩

abbrev Token := {s : Str // s ≠ [] ∧ ∀ c ∈ s, isTokenChar c = true}

/-- A character between the quotes, as it is or behind a backslash. -/
inductive QuotedItem where
  | plain (c : Char) (ok : isQuotable c = true ∧ c ≠ '"' ∧ c ≠ '\\')
  | escaped (c : Char) (ok : isQuotable c = true)

def QuotedItem.text : QuotedItem → Str
  | plain c _ => [c]
  | escaped c _ => ['\\', c]

inductive Value where
  | token (t : Token)
  | quoted (items : List QuotedItem) (ok : items ≠ [])

def Value.text : Value → Str
  | token t => t.1
  | quoted items _ => '"' :: (items.flatMap QuotedItem.text ++ ['"'])

/-- A parameter with the blanks around its semicolon and its equals sign. -/
structure Parameter where
  before : Blanks
  behind : Blanks
  name : Token
  left : Blanks
  right : Blanks
  value : Value

/-- What stands behind the semicolon. -/
def Parameter.item (p : Parameter) : Str :=
  p.behind.1 ++ (p.name.1 ++ p.left.1 ++ '=' :: (p.right.1 ++ p.value.text))

def render : List Parameter → Str
  | [] => []
  | p :: ps => p.before.1 ++ ';' :: (p.item ++ render ps)

end Grammar

section Blank

theorem isBlank_cases {c : Char} (h : isBlank c = true) : c = ' ' ∨ c = '\t' := by
  simpa [isBlank] using h

theorem plain_of_isTokenChar {c : Char} (h : isTokenChar c = true) :
    c ≠ ';' ∧ c ≠ '=' ∧ c ≠ '"' ∧ isBlank c = false := by
  have hne : ∀ d : Char, isTokenChar d = false → c ≠ d := by
    intro d hd hcd
    rw [hcd, hd] at h
    cases h
  refine ⟨hne _ (by decide), hne _ (by decide), hne _ (by decide), ?_⟩
  by_contra hb
  rcases isBlank_cases (Bool.eq_true_of_not_eq_false hb) with hc | hc
  · exact hne ' ' (by decide) hc
  · exact hne '\t' (by decide) hc

theorem Blanks.not_mem (b : Blanks) {c : Char} (h : isBlank c = false) : c ∉ b.1 := by
  intro hc
  rw [b.2 c hc] at h
  cases h

theorem Token.not_mem (t : Token) {c : Char} (h : isTokenChar c = false) : c ∉ t.1 := by
  intro hc
  rw [t.2.2 c hc] at h
  cases h

/-- The text has no blank at either end. -/
def Firm (w : Str) : Prop :=
  (∃ c s, w = c :: s ∧ isBlank c = false) ∧ ∃ s c, w = s ++ [c] ∧ isBlank c = false

theorem firm_of_forall {w : Str} (hne : w ≠ []) (h : ∀ c ∈ w, isBlank c = false) : Firm w := by
  constructor
  · obtain ⟨c, s, rfl⟩ := List.exists_cons_of_ne_nil hne
    exact ⟨c, s, rfl, h c List.mem_cons_self⟩
  · rcases List.eq_nil_or_concat w with hnil | ⟨s, c, rfl⟩
    · exact absurd hnil hne
    · exact ⟨s, c, List.concat_eq_append, h c (by simp)⟩

theorem dropWhile_blanks (b : Blanks) {c : Char} (hc : isBlank c = false) (s : Str) :
    (b.1 ++ c :: s).dropWhile isBlank = c :: s := by
  rw [List.dropWhile_append_of_pos b.2, List.dropWhile_cons_of_neg (by simp [hc])]

theorem rdropWhile_blanks (b : Blanks) {c : Char} (hc : isBlank c = false) (s : Str) :
    (s ++ [c] ++ b.1).rdropWhile isBlank = s ++ [c] := by
  have hb : ∀ d ∈ b.1.reverse, isBlank d = true := by
    intro d hd
    exact b.2 d (List.mem_reverse.mp hd)
  rw [List.rdropWhile, List.reverse_append, List.dropWhile_append_of_pos hb,
    List.reverse_append, List.reverse_singleton, List.singleton_append,
    List.dropWhile_cons_of_neg (by simp [hc])]
  simp

theorem trimBlanks_pad {w : Str} (hw : Firm w) (b b' : Blanks) :
    trimBlanks (b.1 ++ (w ++ b'.1)) = w := by
  obtain ⟨⟨c, s, hc, hcb⟩, s', c', hc', hcb'⟩ := hw
  have hfront : (b.1 ++ (w ++ b'.1)).dropWhile isBlank = w ++ b'.1 := by
    rw [hc, List.cons_append, dropWhile_blanks b hcb]
  rw [trimBlanks, hfront, hc', rdropWhile_blanks b' hcb']

theorem exists_trimBlanks (s : Str) : ∃ b b' : Blanks, s = b.1 ++ (trimBlanks s ++ b'.1) := by
  refine ⟨⟨s.takeWhile isBlank, fun c hc => List.mem_takeWhile_imp hc⟩,
    ⟨(s.dropWhile isBlank).rtakeWhile isBlank, fun c hc => List.mem_rtakeWhile_imp hc⟩, ?_⟩
  rw [trimBlanks, List.rdropWhile_append_rtakeWhile, List.takeWhile_append_dropWhile]

end Blank

section Quoted

theorem quotedBody_plain {c : Char} (hc : c ≠ '\\') (s : Str) :
    quotedBody (c :: s) = (c != '"' && isQuotable c && quotedBody s) := by
  cases s <;> simp [quotedBody, hc]

theorem quotedBody_text (items : List QuotedItem) :
    quotedBody (items.flatMap QuotedItem.text) = true := by
  induction items with
  | nil => rfl
  | cons item items ih =>
      rw [List.flatMap_cons]
      cases item with
      | plain c ok =>
          rw [QuotedItem.text, List.singleton_append, quotedBody_plain ok.2.2, ih]
          simp [ok]
      | escaped c ok =>
          rw [QuotedItem.text, List.cons_append, List.singleton_append, quotedBody, ok, ih]
          rfl

theorem items_of_quotedBody {s : Str} (h : quotedBody s = true) :
    ∃ items : List QuotedItem, s = items.flatMap QuotedItem.text := by
  fun_induction quotedBody s with
  | case1 => exact ⟨[], rfl⟩
  | case2 c s ih =>
      simp only [Bool.and_eq_true] at h
      obtain ⟨items, rfl⟩ := ih h.2
      exact ⟨.escaped c h.1 :: items, rfl⟩
  | case3 => cases h
  | case4 c s hpair hlast ih =>
      simp only [Bool.and_eq_true, bne_iff_ne] at h
      obtain ⟨items, rfl⟩ := ih h.2
      have hc : c ≠ '\\' := by
        intro hc
        cases hs : items.flatMap QuotedItem.text with
        | nil => exact hlast hc hs
        | cons d t => exact hpair d t hc hs
      exact ⟨.plain c ⟨h.1.2, h.1.1, hc⟩ :: items, rfl⟩

/-- A quote inside a body is behind a backslash, so the body is not over before it. -/
theorem quotedBody_quote {u y : Str} (h : quotedBody (u ++ '"' :: y) = true) :
    quotedBody u = false := by
  fun_induction quotedBody u with
  | case1 =>
      rw [List.nil_append, quotedBody_plain (by decide)] at h
      simp at h
  | case2 c s ih =>
      rw [List.cons_append, List.cons_append, quotedBody, Bool.and_eq_true] at h
      rw [ih h.2, Bool.and_false]
  | case3 => rfl
  | case4 c s hpair hlast ih =>
      have hc : c ≠ '\\' := by
        intro hc
        cases s with
        | nil => exact hlast hc rfl
        | cons d t => exact hpair d t hc rfl
      rw [List.cons_append, quotedBody_plain hc, Bool.and_eq_true] at h
      rw [ih h.2, Bool.and_false]

theorem value_iff (v : Str) :
    (isQuotedString v || (!v.isEmpty && v.all isTokenChar)) = true ↔
      ∃ value : Value, v = value.text := by
  constructor
  · intro h
    rcases Bool.or_eq_true_iff.mp h with h | h
    · unfold isQuotedString at h
      split at h
      · rename_i s
        simp only [Bool.and_eq_true, decide_eq_true_eq, beq_iff_eq] at h
        obtain ⟨⟨hlen, hlast⟩, hbody⟩ := h
        obtain ⟨items, hitems⟩ := items_of_quotedBody hbody
        have hs := List.dropLast_append_getLast? '"' (by rw [hlast]; rfl)
        rw [hitems] at hs
        refine ⟨.quoted items ?_, by rw [Value.text, hs]⟩
        rintro rfl
        rw [← hs] at hlen
        simp at hlen
      · cases h
    · simp only [Bool.and_eq_true, Bool.not_eq_true', List.isEmpty_eq_false_iff,
        List.all_eq_true] at h
      exact ⟨.token ⟨v, h⟩, rfl⟩
  · intro ⟨value, hv⟩
    rw [hv, Bool.or_eq_true_iff]
    cases value with
    | token t =>
        right
        simpa [Value.text] using t.2
    | quoted items ok =>
        left
        have hlen : 1 ≤ (items.flatMap QuotedItem.text).length := by
          obtain ⟨item, rest, rfl⟩ := List.exists_cons_of_ne_nil ok
          have hitem : 1 ≤ item.text.length := by
            cases item <;> simp [QuotedItem.text]
          rw [List.flatMap_cons, List.length_append]
          omega
        simpa [Value.text, isQuotedString, quotedBody_text] using hlen

theorem Value.firm (v : Value) : Firm v.text := by
  cases v with
  | token t => exact firm_of_forall t.2.1 fun c hc => (plain_of_isTokenChar (t.2.2 c hc)).2.2.2
  | quoted items ok =>
      exact ⟨⟨'"', _, rfl, by decide⟩, '"' :: items.flatMap QuotedItem.text, '"', rfl, by decide⟩

end Quoted

section Pieces

theorem equals_not_mem (p : Parameter) : '=' ∉ p.behind.1 ++ (p.name.1 ++ p.left.1) := by
  simp only [List.mem_append, not_or]
  exact ⟨p.behind.not_mem (by decide), p.name.not_mem (by decide), p.left.not_mem (by decide)⟩

/-- A piece between two semicolons is valid if it reads as a parameter. -/
theorem validMediaTypeParameter_iff (q : Str) : validMediaTypeParameter q = true ↔
    ∃ (p : Parameter) (trail : Blanks), q = p.item ++ trail.1 := by
  constructor
  · intro h
    unfold validMediaTypeParameter at h
    split at h
    · cases h
    · rename_i name value hsplit
      simp only [Bool.and_eq_true, Bool.not_eq_true', List.isEmpty_eq_false_iff,
        List.all_eq_true] at h
      obtain ⟨hname, hvalue⟩ := h
      obtain ⟨v, hv⟩ := (value_iff _).mp hvalue
      obtain ⟨b, b', hq⟩ := exists_trimBlanks q
      have hw := splitOnce_eq_some hsplit
      let left : Blanks := ⟨name.rtakeWhile isBlank, fun c hc => List.mem_rtakeWhile_imp hc⟩
      let right : Blanks := ⟨value.takeWhile isBlank, fun c hc => List.mem_takeWhile_imp hc⟩
      refine ⟨⟨noBlanks, b, ⟨_, hname⟩, left, right, v⟩, b', ?_⟩
      have hn : name.rdropWhile isBlank ++ left.1 = name := List.rdropWhile_append_rtakeWhile
      have hr : right.1 ++ v.text = value := by
        rw [← hv]
        exact List.takeWhile_append_dropWhile
      rw [hq, hw, Parameter.item, hn, hr]
      simp
  · intro ⟨p, trail, hq⟩
    let w := p.name.1 ++ p.left.1 ++ '=' :: (p.right.1 ++ p.value.text)
    have hfirm : Firm w := by
      obtain ⟨c, s, hc⟩ := List.exists_cons_of_ne_nil p.name.2.1
      obtain ⟨-, s', c', hc', hb'⟩ := p.value.firm
      have hb := (plain_of_isTokenChar (p.name.2.2 c (by simp [hc]))).2.2.2
      refine ⟨⟨c, s ++ p.left.1 ++ '=' :: (p.right.1 ++ p.value.text), by simp [w, hc], hb⟩,
        p.name.1 ++ p.left.1 ++ '=' :: (p.right.1 ++ s'), c', by simp [w, hc'], hb'⟩
    have hpad : q = p.behind.1 ++ (w ++ trail.1) := by
      rw [hq, Parameter.item]
      simp [w]
    have heq : '=' ∉ p.name.1 ++ p.left.1 := by
      intro hm
      exact equals_not_mem p (List.mem_append_right _ hm)
    have hname : (p.name.1 ++ p.left.1).rdropWhile isBlank = p.name.1 := by
      obtain ⟨-, s, c, hc, hb⟩ := firm_of_forall p.name.2.1 fun c hc =>
        (plain_of_isTokenChar (p.name.2.2 c hc)).2.2.2
      rw [hc, rdropWhile_blanks p.left hb]
    have hvalue : (p.right.1 ++ p.value.text).dropWhile isBlank = p.value.text := by
      obtain ⟨⟨c, s, hc, hb⟩, -⟩ := p.value.firm
      rw [hc, dropWhile_blanks p.right hb]
    rw [validMediaTypeParameter, hpad, trimBlanks_pad hfirm, splitOnce_append heq]
    simp only [hname, hvalue, (value_iff _).mpr ⟨p.value, rfl⟩, Bool.and_true]
    simpa using p.name.2

theorem not_mem_of_splitOnce_eq_none {c : Char} {s : Str} (h : splitOnce c s = none) : c ∉ s := by
  intro hm
  obtain ⟨a, b, rfl, ha⟩ := List.eq_append_cons_of_mem hm
  rw [splitOnce_append ha] at h
  cases h

theorem normalizedManifestMediaType_eq {s head : Str} {pieces : List Str}
    (h : s.splitOn ';' = head :: pieces) :
    normalizedManifestMediaType s =
      if pieces.all validMediaTypeParameter then
        manifestMediaTypes.find? fun known => eqIgnoreAsciiCase (trimBlanks head) known
      else none := by
  unfold normalizedManifestMediaType splitEssence
  cases hs : splitOnce ';' s with
  | none =>
      rw [List.splitOn_eq_singleton (not_mem_of_splitOnce_eq_none hs)] at h
      cases h
      rfl
  | some parts =>
      obtain ⟨a, b⟩ := parts
      rw [splitOnce_eq_some hs, List.splitOn_append_cons_self,
        List.splitOn_eq_singleton (not_mem_of_splitOnce hs), List.singleton_append] at h
      cases h
      simp only [Option.any_some, validMediaTypeParameters]
      cases (b.splitOn ';').all validMediaTypeParameter <;> rfl

/-- A text whose values have no semicolon is cut into its parameters. -/
theorem splitOn_render {ps : List Parameter} (hps : ∀ p ∈ ps, ';' ∉ p.value.text) {a : Str}
    (ha : ';' ∉ a) : ∃ (b : Blanks) (pieces : List Str),
      (a ++ render ps).splitOn ';' = (a ++ b.1) :: pieces ∧
        pieces.all validMediaTypeParameter = true := by
  induction ps generalizing a with
  | nil =>
      refine ⟨noBlanks, [], ?_, rfl⟩
      simp [render, noBlanks, List.splitOn_eq_singleton ha]
  | cons p ps ih =>
      have hitem : ';' ∉ p.item := by
        simp only [Parameter.item, List.mem_append, List.mem_cons, not_or]
        exact ⟨p.behind.not_mem (by decide),
          ⟨p.name.not_mem (by decide), p.left.not_mem (by decide)⟩, by decide,
          p.right.not_mem (by decide), hps p List.mem_cons_self⟩
      obtain ⟨b, pieces, hsplit, hall⟩ := ih (fun q hq => hps q (List.mem_cons_of_mem p hq)) hitem
      have hfront : ';' ∉ a ++ p.before.1 := by
        simp only [List.mem_append, not_or]
        exact ⟨ha, p.before.not_mem (by decide)⟩
      refine ⟨p.before, (p.item ++ b.1) :: pieces, ?_, ?_⟩
      · rw [render, ← List.append_assoc, List.splitOn_append_cons_self, hsplit,
          List.splitOn_eq_singleton hfront]
        rfl
      · rw [List.all_cons, (validMediaTypeParameter_iff _).mpr ⟨p, b, rfl⟩, hall]
        rfl

/-- A piece that ends inside a quoted string is not a parameter. -/
theorem cut_is_invalid (p : Parameter) {items : List QuotedItem} {x y : Str}
    (hbody : items.flatMap QuotedItem.text = x ++ ';' :: y) :
    validMediaTypeParameter
      (p.behind.1 ++ (p.name.1 ++ p.left.1) ++ '=' :: (p.right.1 ++ '"' :: x)) = false := by
  rw [← Bool.not_eq_true, validMediaTypeParameter_iff]
  intro ⟨p', trail, heq⟩
  have hitem : p'.item ++ trail.1 = p'.behind.1 ++ (p'.name.1 ++ p'.left.1) ++
      '=' :: (p'.right.1 ++ (p'.value.text ++ trail.1)) := by
    simp [Parameter.item]
  have hsides := congrArg (splitOnce '=') (heq.trans hitem)
  rw [splitOnce_append (equals_not_mem p), splitOnce_append (equals_not_mem p')] at hsides
  simp only [Option.some.injEq, Prod.mk.injEq] at hsides
  have hvalue := congrArg (List.dropWhile isBlank) hsides.2
  obtain ⟨⟨c, s, hc, hb⟩, -⟩ := p'.value.firm
  rw [dropWhile_blanks p.right (by decide), hc, List.cons_append, dropWhile_blanks p'.right hb,
    ← List.cons_append, ← hc] at hvalue
  cases hv : p'.value with
  | token t =>
      obtain ⟨d, s', hd⟩ := List.exists_cons_of_ne_nil t.2.1
      rw [hv, Value.text, hd, List.cons_append] at hvalue
      have hquote := (plain_of_isTokenChar (t.2.2 d (by simp [hd]))).2.2.1
      exact hquote (List.cons.inj hvalue).1.symm
  | quoted items' ok' =>
      rw [hv, Value.text, List.cons_append, List.append_assoc] at hvalue
      have hx := (List.cons.inj hvalue).2
      have hgood := quotedBody_text items
      rw [hbody, hx, List.append_assoc, List.singleton_append, List.cons_append] at hgood
      have hbad := quotedBody_quote hgood
      rw [quotedBody_text] at hbad
      cases hbad

end Pieces

section Types
variable {M m : Str}

theorem find?_manifestMediaType (hM : M ∈ manifestMediaTypes) (h : eqIgnoreAsciiCase m M = true) :
    (manifestMediaTypes.find? fun known => eqIgnoreAsciiCase m known) = some M := by
  have hall : ∀ M ∈ manifestMediaTypes,
      (manifestMediaTypes.find? fun known => toAsciiLowercase M == toAsciiLowercase known) =
        some M := by
    decide +kernel
  rw [← hall M hM]
  simp only [eqIgnoreAsciiCase, beq_iff_eq] at h ⊢
  rw [h]

/-- A spelling of a manifest type has no blank and no semicolon. -/
theorem mem_manifestMediaType (hM : M ∈ manifestMediaTypes) (h : eqIgnoreAsciiCase m M = true) :
    m ≠ [] ∧ ∀ c ∈ m, isBlank c = false ∧ c ≠ ';' := by
  have hall : ∀ M ∈ manifestMediaTypes, (toAsciiLowercase M ≠ [] ∧
      (toAsciiLowercase M).all (fun c => !isBlank c && c != ';') = true) := by
    decide +kernel
  have hlow : toAsciiLowercase m = toAsciiLowercase M := by simpa [eqIgnoreAsciiCase] using h
  obtain ⟨hne, hchars⟩ := hall M hM
  rw [← hlow] at hne hchars
  refine ⟨?_, ?_⟩
  · rintro rfl
    exact hne rfl
  · intro c hc
    have hl := List.all_eq_true.mp hchars c.toLower (List.mem_map_of_mem hc)
    simp only [Bool.and_eq_true, Bool.not_eq_true', bne_iff_ne] at hl
    constructor
    · by_contra hb
      rcases isBlank_cases (Bool.eq_true_of_not_eq_false hb) with rfl | rfl
      · exact absurd hl.1 (by decide)
      · exact absurd hl.1 (by decide)
    · rintro rfl
      exact hl.2 (by decide)

theorem render_append (ps qs : List Parameter) : render (ps ++ qs) = render ps ++ render qs := by
  induction ps with
  | nil => rfl
  | cons p ps ih => simp [render, ih]

/-- A semicolon in a quoted string makes a piece that is refused. -/
theorem normalized_eq_none {ps : List Parameter} {p : Parameter} (hp : p ∈ ps)
    (h : ';' ∈ p.value.text) (m : Str) : normalizedManifestMediaType (m ++ render ps) = none := by
  cases hv : p.value with
  | token t =>
      rw [hv, Value.text] at h
      exact absurd h (t.not_mem (by decide))
  | quoted items ok =>
      have hm : ';' ∈ items.flatMap QuotedItem.text := by
        rw [hv, Value.text] at h
        simpa using h
      obtain ⟨x, y, hbody, hx⟩ := List.eq_append_cons_of_mem hm
      obtain ⟨front, behind, rfl⟩ := List.append_of_mem hp
      let w := p.behind.1 ++ (p.name.1 ++ p.left.1) ++ '=' :: (p.right.1 ++ '"' :: x)
      have hw : ';' ∉ w := by
        simp only [w, List.mem_append, List.mem_cons, not_or]
        exact ⟨⟨p.behind.not_mem (by decide), p.name.not_mem (by decide),
          p.left.not_mem (by decide)⟩, by decide, p.right.not_mem (by decide), by decide, hx⟩
      have htext : m ++ render (front ++ p :: behind) =
          (m ++ render front ++ p.before.1) ++ ';' :: (w ++ ';' :: (y ++ '"' :: render behind)) := by
        rw [render_append, render, Parameter.item, hv, Value.text, hbody]
        simp [w]
      have hsplit : (m ++ render (front ++ p :: behind)).splitOn ';' =
          (m ++ render front ++ p.before.1).splitOn ';' ++
            (w :: (y ++ '"' :: render behind).splitOn ';') := by
        rw [htext, List.splitOn_append_cons_self, List.splitOn_append_cons_self,
          List.splitOn_eq_singleton hw]
        rfl
      obtain ⟨head, tail, hcons⟩ := List.exists_cons_of_ne_nil
        (List.splitOn_ne_nil ';' (m ++ render front ++ p.before.1))
      rw [hcons, List.cons_append] at hsplit
      rw [normalizedManifestMediaType_eq hsplit, if_neg]
      rw [List.all_append, List.all_cons, cut_is_invalid p hbody]
      simp

/-- Pieces that are parameters are the text of parameters. -/
theorem exists_render {pieces : List Str} (h : pieces.all validMediaTypeParameter = true)
    (b : Blanks) : ∃ (ps : List Parameter) (trail : Blanks),
      b.1 ++ pieces.flatMap (';' :: ·) = render ps ++ trail.1 := by
  induction pieces generalizing b with
  | nil => exact ⟨[], b, by simp [render]⟩
  | cons q pieces ih =>
      rw [List.all_cons, Bool.and_eq_true] at h
      obtain ⟨p, between, rfl⟩ := (validMediaTypeParameter_iff q).mp h.1
      obtain ⟨ps, trail, hps⟩ := ih h.2 between
      refine ⟨{p with before := b} :: ps, trail, ?_⟩
      calc b.1 ++ ((p.item ++ between.1) :: pieces).flatMap (';' :: ·)
          = b.1 ++ ';' :: (p.item ++ (between.1 ++ pieces.flatMap (';' :: ·))) := by simp
        _ = b.1 ++ ';' :: (p.item ++ (render ps ++ trail.1)) := by rw [hps]
        _ = render ({p with before := b} :: ps) ++ trail.1 := by simp [render, Parameter.item]

theorem intercalate_cons_eq (sep head : Str) (pieces : List Str) :
    sep.intercalate (head :: pieces) = head ++ pieces.flatMap (sep ++ ·) := by
  induction pieces generalizing head with
  | nil => simp
  | cons q pieces ih => rw [List.intercalate_cons_cons, ih, List.flatMap_cons, List.append_assoc, List.append_assoc]

/-- A manifest type with parameters of the grammar is accepted where no quoted string has
a semicolon, and only there. What is accepted is a manifest type with such parameters. -/
theorem normalizedManifestMediaType_grammar (hM : M ∈ manifestMediaTypes) :
    (∀ (m : Str) (ps : List Parameter), eqIgnoreAsciiCase m M = true →
      (normalizedManifestMediaType (m ++ render ps) = some M ↔
        ∀ p ∈ ps, ';' ∉ p.value.text)) ∧
    ∀ s : Str, normalizedManifestMediaType s = some M →
      ∃ (lead trail : Blanks) (m : Str) (ps : List Parameter),
        s = lead.1 ++ (m ++ (render ps ++ trail.1)) ∧ eqIgnoreAsciiCase m M = true := by
  constructor
  · intro m ps hm
    obtain ⟨hne, hchars⟩ := mem_manifestMediaType hM hm
    constructor
    · intro h p hp hsemi
      rw [normalized_eq_none hp hsemi] at h
      cases h
    · intro h
      obtain ⟨b, pieces, hsplit, hall⟩ := splitOn_render h
        (fun hc => (hchars ';' hc).2 rfl : ';' ∉ m)
      have htrim := trimBlanks_pad (firm_of_forall hne fun c hc => (hchars c hc).1) noBlanks b
      rw [normalizedManifestMediaType_eq hsplit, if_pos hall]
      rw [show m ++ b.1 = noBlanks.1 ++ (m ++ b.1) from rfl, htrim]
      exact find?_manifestMediaType hM hm
  · intro s h
    obtain ⟨head, pieces, hsplit⟩ := List.exists_cons_of_ne_nil (List.splitOn_ne_nil ';' s)
    rw [normalizedManifestMediaType_eq hsplit, Option.ite_none_right_eq_some] at h
    obtain ⟨hall, hfind⟩ := h
    obtain ⟨lead, b, hhead⟩ := exists_trimBlanks head
    obtain ⟨ps, trail, hps⟩ := exists_render hall b
    have hs : s = [';'].intercalate (head :: pieces) := by
      rw [← hsplit, List.intercalate_splitOn]
    refine ⟨lead, trail, trimBlanks head, ps, ?_, ?_⟩
    · rw [hs, intercalate_cons_eq, ← hps]
      nth_rewrite 1 [hhead]
      simp
    · simpa using List.find?_some hfind

end Types

section Instances

def oneBlank : Blanks := ⟨[' '], by simp [isBlank]⟩

/-- The parameter ` ; v="1<sep>2"` with a separator between the digits. -/
def versions (sep : Char) (ok : isQuotable sep = true ∧ sep ≠ '"' ∧ sep ≠ '\\') : Parameter :=
  ⟨oneBlank, oneBlank, ⟨['v'], by simp, by simp [show isTokenChar 'v' = true by decide]⟩,
    noBlanks, noBlanks,
    .quoted [.plain '1' (by decide), .plain sep ok, .plain '2' (by decide)] (by simp)⟩

theorem comma_is_accepted :
    normalizedManifestMediaType (mediaTypeManifest.map Char.toUpper ++
      render [versions ',' (by decide)]) = some mediaTypeManifest :=
  ((normalizedManifestMediaType_grammar (by decide)).1 (mediaTypeManifest.map Char.toUpper)
    [versions ',' (by decide)] (by decide)).mpr (by
      intro p hp
      rw [List.mem_singleton.mp hp]
      decide)

/-- The semicolon in the quoted string is taken for the end of the parameter. -/
theorem quoted_semicolon_is_refused :
    mediaTypeManifest ++ render [versions ';' (by decide)] =
        str "application/vnd.oci.image.manifest.v1+json ; v=\"1;2\"" ∧
      normalizedManifestMediaType (mediaTypeManifest ++ render [versions ';' (by decide)]) ≠
        some mediaTypeManifest := by
  decide

end Instances

end Helmoci.MediaTypeGrammar
