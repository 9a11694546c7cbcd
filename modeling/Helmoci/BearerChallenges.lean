import Helmoci.ManifestMediaTypes
import Helmoci.RegistryTokens
import Helmoci.SegmentedText

/-!
# Lists of authentication challenges

A registry may pose several challenges in one header. Challenges and their parameters
are separated alike, so the reader knows a new challenge only by its scheme in front of
its first parameter. It takes the parameters behind the first Bearer scheme, and every
parameter of a later challenge but the first is read as if it were Bearer's own.
-/
namespace Helmoci.BearerChallenges
open RustText SegmentedText ManifestMediaTypes RegistryTokens

section Lists

def isToken (s : Str) : Bool := !s.isEmpty && s.all isTokenChar

inductive ParamText where
  | token (text : Str) (h : isToken text = true)
  | quoted (text : Str) (h : '"' ∉ text ∧ '\\' ∉ text)

def ParamText.text : ParamText → Str
  | .token text _ => text
  | .quoted text _ => text

def ParamText.print : ParamText → Str
  | .token text _ => text
  | .quoted text _ => '"' :: (text ++ ['"'])

structure AuthParam where
  name : Str
  value : ParamText
  isName : isToken name = true

def AuthParam.print (p : AuthParam) : Str := p.name ++ '=' :: p.value.print

def AuthParam.isNamed (name : Str) (p : AuthParam) : Bool := eqIgnoreAsciiCase p.name name

/-- A challenge has a parameter, and none of them twice. -/
structure Challenge where
  scheme : Str
  first : AuthParam
  rest : List AuthParam
  isScheme : isToken scheme = true
  distinct : (first :: rest).Pairwise fun p q => eqIgnoreAsciiCase p.name q.name = false

def Challenge.params (c : Challenge) : List AuthParam := c.first :: c.rest

/-- What stands between the commas. -/
def Challenge.parts (c : Challenge) : List Str :=
  (c.scheme ++ ' ' :: c.first.print) :: c.rest.map AuthParam.print

def Challenge.print (c : Challenge) : Str := [',', ' '].intercalate c.parts

def header (challenges : List Challenge) : Str :=
  [',', ' '].intercalate (challenges.map Challenge.print)

def Challenge.isBearer (c : Challenge) : Bool := eqIgnoreAsciiCase c.scheme (str "Bearer")

def Challenge.value (c : Challenge) (name : Str) : Option Str :=
  (c.params.find? (AuthParam.isNamed name)).map fun p => p.value.text

/-- The first Bearer challenge alone. -/
def bearerChallenge (challenges : List Challenge) : Option BearerChallenge := do
  let c ← challenges.find? Challenge.isBearer
  let realm ← c.value (str "realm")
  return ⟨realm, c.value (str "service"), c.value (str "scope")⟩

/-- The parameters behind the first Bearer challenge that have no scheme in front. -/
def strays (challenges : List Challenge) : List AuthParam :=
  ((challenges.dropWhile fun c => !c.isBearer).tail).flatMap Challenge.rest

def lastValue (name : Str) (params : List AuthParam) : Option Str :=
  (params.filterMap fun p => if p.isNamed name then some p.value.text else none).getLast?

/-- A stray parameter names no realm where Bearer has none, and where it has one the last
stray realm, service and scope are Bearer's own. -/
def NotOverridden (challenges : List Challenge) : Prop :=
  ∀ c, challenges.find? Challenge.isBearer = some c →
    match c.value (str "realm") with
    | none => lastValue (str "realm") (strays challenges) = none
    | some _ => ∀ name ∈ [str "realm", str "service", str "scope"], ∀ value,
        lastValue name (strays challenges) = some value → c.value name = some value

end Lists

section Splitting

/-- No comma outside quotes. -/
def Quiet (p : Str) : Prop :=
  ∀ current rest, splitParams current false (p ++ rest) = splitParams (current ++ p) false rest

/-- No white space at either end. -/
structure Solid (p : Str) : Prop where
  head : ∃ c s, p = c :: s ∧ isWhitespace c = false
  last : ∃ s c, p = s ++ [c] ∧ isWhitespace c = false

theorem Quiet.append {p q : Str} (hp : Quiet p) (hq : Quiet q) : Quiet (p ++ q) := by
  intro current rest
  rw [List.append_assoc, hp, hq, List.append_assoc]

theorem quiet_of_plain {p : Str} (h : ∀ c ∈ p, c ≠ '"' ∧ c ≠ ',') : Quiet p := by
  induction p with
  | nil =>
      intro current rest
      rw [List.nil_append, List.append_nil]
  | cons c p ih =>
      intro current rest
      obtain ⟨hq, hc⟩ := h c List.mem_cons_self
      have ih := ih fun d hd => h d (List.mem_cons_of_mem c hd)
      rw [List.cons_append, splitParams, if_neg hq, if_neg (fun hand => hc hand.1), ih]
      simp

/-- In quotes a comma does not separate. -/
theorem splitParams_inQuotes {text : Str} (h : '"' ∉ text) (current rest : Str) :
    splitParams current true (text ++ '"' :: rest) =
      splitParams (current ++ text ++ ['"']) false rest := by
  induction text generalizing current with
  | nil => simp [splitParams]
  | cons c text ih =>
      simp only [List.mem_cons, not_or] at h
      rw [List.cons_append, splitParams, if_neg (Ne.symm h.1), if_neg (by simp), ih h.2]
      simp

theorem quiet_quoted {text : Str} (h : '"' ∉ text) : Quiet ('"' :: (text ++ ['"'])) := by
  intro current rest
  have hsplit : '"' :: (text ++ ['"']) ++ rest = '"' :: (text ++ '"' :: rest) := by simp
  rw [hsplit, splitParams, if_pos rfl, Bool.not_false, splitParams_inQuotes h]
  simp

theorem trim_solid {w p : Str} (hw : ∀ c ∈ w, isWhitespace c = true) (hp : Solid p) :
    trim (w ++ p) = p := by
  obtain ⟨c, s, hc, hcw⟩ := hp.head
  obtain ⟨t, d, hd, hdw⟩ := hp.last
  have hfront : (w ++ p).dropWhile isWhitespace = p := by
    rw [List.dropWhile_append_of_pos hw, hc, List.dropWhile_cons_of_neg (by simp [hcw])]
  rw [trim, hfront, hd, List.rdropWhile_concat_neg _ _ _ (by simp [hdw])]

theorem Solid.ne_nil {p : Str} (hp : Solid p) : p ≠ [] := by
  obtain ⟨c, s, hc, -⟩ := hp.head
  rw [hc]
  exact List.cons_ne_nil c s

theorem Solid.append {p q r : Str} (hp : Solid p) (hr : Solid r) : Solid (p ++ q ++ r) := by
  obtain ⟨c, s, hc, hcw⟩ := hp.head
  obtain ⟨t, d, hd, hdw⟩ := hr.last
  exact ⟨⟨c, s ++ q ++ r, by simp [hc], hcw⟩, ⟨p ++ q ++ t, d, by simp [hd], hdw⟩⟩

theorem solid_intercalate {parts : List Str} (h : ∀ p ∈ parts, Solid p) (hn : parts ≠ []) :
    Solid ([',', ' '].intercalate parts) := by
  induction parts with
  | nil => exact (hn rfl).elim
  | cons p parts ih =>
      cases parts with
      | nil =>
          rw [List.intercalate_singleton]
          exact h p List.mem_cons_self
      | cons q parts =>
          rw [List.intercalate_cons_cons]
          exact (h p List.mem_cons_self).append
            (ih (fun r hr => h r (List.mem_cons_of_mem p hr)) (by simp))

/-- The commas between the parts separate them. -/
theorem splitParams_intercalate {parts : List Str} (h : ∀ p ∈ parts, Quiet p ∧ Solid p)
    {w : Str} (hw : ∀ c ∈ w, isWhitespace c = true) :
    splitParams w false ([',', ' '].intercalate parts) = parts := by
  induction parts generalizing w with
  | nil =>
      have htrim : trim w = [] := by
        have hdrop : w.dropWhile isWhitespace = [] := List.dropWhile_eq_nil_iff.mpr hw
        rw [trim, hdrop]
        rfl
      simp [splitParams, htrim]
  | cons p parts ih =>
      obtain ⟨hquiet, hsolid⟩ := h p List.mem_cons_self
      have hparts : ∀ q ∈ parts, Quiet q ∧ Solid q := fun q hq => h q (List.mem_cons_of_mem p hq)
      cases parts with
      | nil =>
          have hq := hquiet w []
          rw [List.append_nil] at hq
          rw [List.intercalate_singleton, hq, splitParams, trim_solid hw hsolid]
          simp [hsolid.ne_nil]
      | cons q parts =>
          have hspace : ∀ c ∈ [' '], isWhitespace c = true := forall_of_all (by decide)
          rw [List.intercalate_cons_cons, List.append_assoc, hquiet]
          simp only [List.cons_append, List.nil_append]
          rw [splitParams, if_neg (by decide), if_pos ⟨rfl, rfl⟩, splitParams,
            if_neg (by decide), if_neg (by decide), trim_solid hw hsolid]
          exact congrArg (p :: ·) (ih hparts hspace)

end Splitting

section Reading

theorem tokenChar_plain {c : Char} (h : isTokenChar c = true) :
    isWhitespace c = false ∧ c ≠ '"' ∧ c ≠ ',' ∧ c ≠ '=' ∧ c ≠ ' ' := by
  have hlt : c.toNat < 128 := by
    rcases Bool.or_eq_true_iff.mp h with h | h
    · exact toNat_lt_of_isAlphanum h
    · have hall : ∀ d ∈ str "!#$%&'*+-.^_`|~", d.toNat < 128 := forall_of_all (by decide)
      exact hall c (List.contains_iff_mem.mp h)
  exact ascii_forall (P := fun c => isTokenChar c = true → isWhitespace c = false ∧ c ≠ '"' ∧
    c ≠ ',' ∧ c ≠ '=' ∧ c ≠ ' ') (by decide) hlt h

theorem mem_token {s : Str} (h : isToken s = true) {c : Char} (hc : c ∈ s) :
    isTokenChar c = true :=
  List.all_eq_true.mp (Bool.and_eq_true_iff.mp h).2 c hc

theorem solid_token {s : Str} (h : isToken s = true) : Solid s := by
  have hn : s ≠ [] := by
    have hne := (Bool.and_eq_true_iff.mp h).1
    simpa using hne
  constructor
  · obtain ⟨c, t, rfl⟩ := List.exists_cons_of_ne_nil hn
    exact ⟨c, t, rfl, (tokenChar_plain (mem_token h List.mem_cons_self)).1⟩
  · rcases List.eq_nil_or_concat s with rfl | ⟨t, c, rfl⟩
    · exact (hn rfl).elim
    · exact ⟨t, c, List.concat_eq_append, (tokenChar_plain (mem_token h (by simp))).1⟩

theorem quiet_token {s : Str} (h : isToken s = true) : Quiet s := by
  apply quiet_of_plain
  intro c hc
  have hplain := tokenChar_plain (mem_token h hc)
  exact ⟨hplain.2.1, hplain.2.2.1⟩

theorem ParamText.quiet (v : ParamText) : Quiet v.print := by
  cases v with
  | token text h => exact quiet_token h
  | quoted text h => exact quiet_quoted h.1

theorem ParamText.solid (v : ParamText) : Solid v.print := by
  cases v with
  | token text h => exact solid_token h
  | quoted text h =>
      exact ⟨⟨'"', text ++ ['"'], rfl, by decide⟩, ⟨'"' :: text, '"', rfl, by decide⟩⟩

theorem AuthParam.print_spec (p : AuthParam) : Quiet p.print ∧ Solid p.print := by
  have heq : Quiet ['='] := quiet_of_plain (by simp)
  have hsplit : p.print = p.name ++ ['='] ++ p.value.print := by simp [AuthParam.print]
  rw [hsplit]
  exact ⟨((quiet_token p.isName).append heq).append p.value.quiet,
    (solid_token p.isName).append p.value.solid⟩

theorem Challenge.parts_spec (c : Challenge) : ∀ p ∈ c.parts, Quiet p ∧ Solid p := by
  have hspace : Quiet [' '] := quiet_of_plain (by simp)
  intro p hp
  rcases List.mem_cons.mp hp with rfl | hp
  · have hsplit : c.scheme ++ ' ' :: c.first.print = c.scheme ++ [' '] ++ c.first.print := by simp
    rw [hsplit]
    exact ⟨((quiet_token c.isScheme).append hspace).append c.first.print_spec.1,
      (solid_token c.isScheme).append c.first.print_spec.2⟩
  · obtain ⟨q, -, rfl⟩ := List.mem_map.mp hp
    exact q.print_spec

theorem intercalate_intercalate {A : Type} {sep : List A} {ls : List (List (List A))}
    (h : ∀ l ∈ ls, l ≠ []) : sep.intercalate (ls.map sep.intercalate) = sep.intercalate ls.flatten := by
  induction ls with
  | nil => rfl
  | cons l ls ih =>
      have hls : ∀ m ∈ ls, m ≠ [] := fun m hm => h m (List.mem_cons_of_mem l hm)
      cases ls with
      | nil => simp
      | cons m ls =>
          have hne : (m :: ls).flatten ≠ [] := by
            simp [hls m List.mem_cons_self]
          have hl := h l List.mem_cons_self
          rw [List.flatten_cons, intercalate_append hl hne, ← ih hls, List.map_cons, List.map_cons,
            List.intercalate_cons_cons]

/-- The parts between the commas of the header. -/
theorem split_header (challenges : List Challenge) :
    splitChallengeParams (trim (header challenges)) = challenges.flatMap Challenge.parts := by
  have hne : ∀ l ∈ challenges.map Challenge.parts, l ≠ [] := by
    intro l hl
    obtain ⟨c, -, rfl⟩ := List.mem_map.mp hl
    exact List.cons_ne_nil _ _
  have hheader : header challenges = [',', ' '].intercalate (challenges.flatMap Challenge.parts) := by
    have hjoin := @intercalate_intercalate Char [',', ' '] _ hne
    rw [List.map_map] at hjoin
    exact hjoin
  have hparts : ∀ p ∈ challenges.flatMap Challenge.parts, Quiet p ∧ Solid p := by
    intro p hp
    obtain ⟨c, -, hp⟩ := List.mem_flatMap.mp hp
    exact c.parts_spec p hp
  have htrim : trim (header challenges) = header challenges := by
    rw [hheader]
    by_cases hnil : challenges.flatMap Challenge.parts = []
    · rw [hnil]
      rfl
    · exact trim_solid (w := []) (by simp) (solid_intercalate (fun p hp => (hparts p hp).2) hnil)
  rw [htrim, hheader]
  exact splitParams_intercalate hparts (by simp)

theorem toLower_eq_space {c : Char} (h : c.toLower = ' ') : c = ' ' := by
  by_cases hc : c.toNat < 128
  · exact ascii_forall (P := fun c => c.toLower = ' ' → c = ' ') (by decide) hc h
  · rwa [toLower_eq_self (by omega)] at h

/-- The scheme and the space behind it. -/
theorem stripPrefix_eq_some_iff {s r : Str} : stripPrefixAsciiCase s (str "Bearer ") = some r ↔
    ∃ w, eqIgnoreAsciiCase w (str "Bearer") = true ∧ s = w ++ ' ' :: r := by
  have hlower : toAsciiLowercase (str "Bearer ") = str "bearer" ++ [' '] := by decide
  have hbearer : toAsciiLowercase (str "Bearer") = str "bearer" := by decide
  unfold stripPrefixAsciiCase eqIgnoreAsciiCase
  rw [hlower, hbearer]
  constructor
  · intro h
    split at h
    · rename_i heq
      obtain rfl := Option.some.inj h
      obtain ⟨w, x, htake, hw, hx⟩ := List.map_eq_append_iff.mp (beq_iff_eq.mp heq)
      obtain ⟨c, rfl, hc⟩ := List.map_eq_singleton_iff.mp hx
      refine ⟨w, beq_iff_eq.mpr hw, ?_⟩
      conv_lhs => rw [← List.take_append_drop (str "Bearer ").length s, htake]
      rw [toLower_eq_space hc]
      simp
    · cases h
  · intro ⟨w, hw, hs⟩
    have hw := beq_iff_eq.mp hw
    have hlen : w.length = 6 := by
      have hl := congrArg List.length hw
      simpa [toAsciiLowercase, str] using hl
    have htake : s.take (str "Bearer ").length = w ++ [' '] := by
      have hl : (str "Bearer ").length = w.length + 1 := by
        rw [hlen]
        decide
      rw [hs, hl, List.take_append]
      simp
    have hdrop : s.drop (str "Bearer ").length = r := by
      have hl : (str "Bearer ").length = w.length + 1 := by
        rw [hlen]
        decide
      rw [hs, hl, List.drop_append]
      simp
    rw [htake, hdrop, if_pos]
    rw [beq_iff_eq]
    have happ : toAsciiLowercase (w ++ [' ']) = toAsciiLowercase w ++ [' '] := by
      simp [toAsciiLowercase]
    rw [happ, hw]

theorem space_not_mem_token {s : Str} (h : isToken s = true) : ' ' ∉ s :=
  fun hm => (tokenChar_plain (mem_token h hm)).2.2.2.2 rfl

theorem equals_not_mem_token {s : Str} (h : isToken s = true) : '=' ∉ s :=
  fun hm => (tokenChar_plain (mem_token h hm)).2.2.2.1 rfl

theorem not_mem_of_eqIgnoreAsciiCase {w : Str} {c : Char} {t : Str} (hc : c.toLower ∉ toAsciiLowercase t)
    (h : eqIgnoreAsciiCase w t = true) : c ∉ w := by
  intro hm
  apply hc
  rw [← beq_iff_eq.mp h]
  exact List.mem_map_of_mem hm

/-- The text in front of a character that it does not have is determined. -/
theorem append_cons_inj {c : Char} {a a' b b' : Str} (ha : c ∉ a) (ha' : c ∉ a')
    (h : a ++ c :: b = a' ++ c :: b') : a = a' ∧ b = b' := by
  have hs := splitOnce_append ha b
  rw [h, splitOnce_append ha', Option.some.injEq, Prod.mk.injEq] at hs
  exact ⟨hs.1.symm, hs.2.symm⟩

/-- The first part of a challenge shows its scheme. -/
theorem stripPrefix_first (c : Challenge) :
    stripPrefixAsciiCase (c.scheme ++ ' ' :: c.first.print) (str "Bearer ") =
      if c.isBearer then some c.first.print else none := by
  have hspace : ∀ w, eqIgnoreAsciiCase w (str "Bearer") = true → ' ' ∉ w :=
    fun w => not_mem_of_eqIgnoreAsciiCase (by decide)
  cases hb : c.isBearer with
  | true => exact stripPrefix_eq_some_iff.mpr ⟨c.scheme, hb, rfl⟩
  | false =>
      rw [if_neg Bool.false_ne_true, Option.eq_none_iff_forall_ne_some]
      intro r hr
      obtain ⟨w, hw, hs⟩ := stripPrefix_eq_some_iff.mp hr
      obtain ⟨rfl, -⟩ := append_cons_inj (space_not_mem_token c.isScheme) (hspace w hw) hs
      rw [Challenge.isBearer, hw] at hb
      cases hb

/-- Another parameter shows none. -/
theorem stripPrefix_print (p : AuthParam) : stripPrefixAsciiCase p.print (str "Bearer ") = none := by
  rw [Option.eq_none_iff_forall_ne_some]
  intro r hr
  obtain ⟨w, hw, hs⟩ := stripPrefix_eq_some_iff.mp hr
  have hequals : '=' ∉ w := not_mem_of_eqIgnoreAsciiCase (by decide) hw
  rcases List.append_eq_append_iff.mp hs with ⟨t, hwt, ht⟩ | ⟨t, hname, ht⟩
  · cases t with
    | nil => cases ht
    | cons d t =>
        obtain ⟨rfl, -⟩ := List.cons.inj ht
        exact hequals (by simp [hwt])
  · cases t with
    | nil => cases ht
    | cons d t =>
        obtain ⟨rfl, -⟩ := List.cons.inj ht
        exact space_not_mem_token p.isName (by simp [hname])

/-- The fields after a parameter. -/
def setField (fields : Option Str × Option Str × Option Str) (p : AuthParam) :
    Option Str × Option Str × Option Str :=
  if p.isNamed (str "realm") then (some p.value.text, fields.2)
  else if p.isNamed (str "service") then (fields.1, some p.value.text, fields.2.2)
  else if p.isNamed (str "scope") then (fields.1, fields.2.1, some p.value.text)
  else fields

theorem ParamText.read (v : ParamText) : trimMatches '"' (trim v.print) = v.text := by
  have htrim : trim v.print = v.print := trim_solid (w := []) (by simp) v.solid
  have hclean : ∀ text : Str, '"' ∉ text → text.dropWhile (· == '"') = text ∧
      text.rdropWhile (· == '"') = text := by
    intro text h
    have hne : ∀ c ∈ text, c ≠ '"' := fun c hc he => h (he ▸ hc)
    constructor
    · rw [List.dropWhile_eq_self_iff]
      intro hl
      simpa using hne _ (List.getElem_mem hl)
    · rw [List.rdropWhile_eq_self_iff]
      intro hl
      simpa using hne _ (List.getLast_mem hl)
  rw [htrim]
  cases v with
  | token text h =>
      have hq : '"' ∉ text := fun hm => (tokenChar_plain (mem_token h hm)).2.1 rfl
      rw [ParamText.print, ParamText.text, trimMatches, (hclean text hq).1, (hclean text hq).2]
  | quoted text h =>
      rw [ParamText.print, ParamText.text, trimMatches, List.dropWhile_cons_of_pos (by simp)]
      by_cases hnil : text = []
      · subst hnil
        rfl
      · have hfront : (text ++ ['"']).dropWhile (· == '"') = text ++ ['"'] := by
          obtain ⟨c, t, rfl⟩ := List.exists_cons_of_ne_nil hnil
          have hc : c ≠ '"' := fun he => h.1 (by simp [he])
          rw [List.cons_append, List.dropWhile_cons_of_neg (by simpa using hc)]
        rw [hfront, List.rdropWhile_concat_pos _ _ _ (by simp), (hclean text h.1).2]

theorem challengeFields_print (fields : Option Str × Option Str × Option Str) (p : AuthParam) :
    challengeFields fields p.print = setField fields p := by
  have hname : trim p.name = p.name := trim_solid (w := []) (by simp) (solid_token p.isName)
  unfold challengeFields AuthParam.print
  rw [splitOnce_append (equals_not_mem_token p.isName)]
  simp only [hname, p.value.read]
  rfl

/-- Behind a scheme nothing is read. -/
theorem challengeFields_first (fields : Option Str × Option Str × Option Str) (c : Challenge) :
    challengeFields fields (c.scheme ++ ' ' :: c.first.print) = fields := by
  have hsplit : c.scheme ++ ' ' :: c.first.print =
      (c.scheme ++ [' '] ++ c.first.name) ++ '=' :: c.first.value.print := by
    simp [AuthParam.print]
  have hequals : '=' ∉ c.scheme ++ [' '] ++ c.first.name := by
    have hs := equals_not_mem_token c.isScheme
    have hn := equals_not_mem_token c.first.isName
    simp [hs, hn]
  have hkey : trim (c.scheme ++ [' '] ++ c.first.name) = c.scheme ++ [' '] ++ c.first.name :=
    trim_solid (w := []) (by simp) ((solid_token c.isScheme).append (solid_token c.first.isName))
  have hother : ∀ t : Str, ' ' ∉ toAsciiLowercase t →
      eqIgnoreAsciiCase (c.scheme ++ [' '] ++ c.first.name) t = false := by
    intro t ht
    rw [Bool.eq_false_iff]
    intro he
    exact @not_mem_of_eqIgnoreAsciiCase _ ' ' t ht he (by simp)
  unfold challengeFields
  rw [hsplit, splitOnce_append hequals]
  simp only [hkey]
  rw [hother _ (by decide), hother _ (by decide), hother _ (by decide)]
  rfl

theorem lastValue_append (name : Str) (ps qs : List AuthParam) :
    lastValue name (ps ++ qs) = (lastValue name qs).or (lastValue name ps) := by
  simp [lastValue, List.getLast?_append]

theorem lastValue_cons (name : Str) (p : AuthParam) (ps : List AuthParam) :
    lastValue name (p :: ps) =
      (lastValue name ps).or (if p.isNamed name then some p.value.text else none) := by
  have hsingle : lastValue name [p] = if p.isNamed name then some p.value.text else none := by
    cases hp : p.isNamed name <;> simp [lastValue, hp]
  rw [← hsingle, ← lastValue_append]
  rfl

/-- Of every field the last value counts. -/
theorem foldl_setField (fields : Option Str × Option Str × Option Str) (ps : List AuthParam) :
    ps.foldl setField fields = ((lastValue (str "realm") ps).or fields.1,
      (lastValue (str "service") ps).or fields.2.1, (lastValue (str "scope") ps).or fields.2.2) := by
  have apart : ∀ (p : AuthParam) (s t : Str), toAsciiLowercase s ≠ toAsciiLowercase t →
      p.isNamed s = true → p.isNamed t = false := by
    intro p s t hst hs
    rw [Bool.eq_false_iff]
    intro ht
    exact hst ((beq_iff_eq.mp hs).symm.trans (beq_iff_eq.mp ht))
  induction ps generalizing fields with
  | nil => rfl
  | cons p ps ih =>
      rw [List.foldl_cons, ih, lastValue_cons, lastValue_cons, lastValue_cons, setField]
      cases hr : p.isNamed (str "realm") with
      | true =>
          have hs := apart p _ (str "service") (by decide) hr
          have hc := apart p _ (str "scope") (by decide) hr
          simp [hs, hc]
      | false =>
          cases hs : p.isNamed (str "service") with
          | true =>
              have hc := apart p _ (str "scope") (by decide) hs
              simp [hc]
          | false => cases hc : p.isNamed (str "scope") <;> simp

theorem foldl_parts (fields : Option Str × Option Str × Option Str) (cs : List Challenge) :
    (cs.flatMap Challenge.parts).foldl challengeFields fields =
      (cs.flatMap Challenge.rest).foldl setField fields := by
  have hrest : ∀ (ps : List AuthParam) fields,
      (ps.map AuthParam.print).foldl challengeFields fields = ps.foldl setField fields := by
    intro ps fields
    rw [List.foldl_map]
    simp only [challengeFields_print]
  induction cs generalizing fields with
  | nil => rfl
  | cons c cs ih =>
      rw [List.flatMap_cons, List.flatMap_cons, List.foldl_append, List.foldl_append, ih,
        Challenge.parts, List.foldl_cons, challengeFields_first, hrest]

/-- What the reader returns of the parameters it takes. -/
def challengeOf (params : List AuthParam) : Option BearerChallenge :=
  (lastValue (str "realm") params).map fun realm =>
    ⟨realm, lastValue (str "service") params, lastValue (str "scope") params⟩

theorem dropWhile_parts (cs : List Challenge) :
    (cs.flatMap Challenge.parts).dropWhile
        (fun part => !(stripPrefixAsciiCase part (str "Bearer ")).isSome) =
      (cs.dropWhile fun c => !c.isBearer).flatMap Challenge.parts := by
  induction cs with
  | nil => rfl
  | cons c cs ih =>
      rw [List.flatMap_cons]
      cases hb : c.isBearer with
      | true =>
          rw [List.dropWhile_cons_of_neg (by simp [hb]), List.flatMap_cons, Challenge.parts,
            List.cons_append, List.dropWhile_cons_of_neg]
          rw [stripPrefix_first, hb]
          simp
      | false =>
          have hparts : ∀ part ∈ c.parts,
              (!(stripPrefixAsciiCase part (str "Bearer ")).isSome) = true := by
            intro part hp
            rcases List.mem_cons.mp hp with rfl | hp
            · rw [stripPrefix_first, hb]
              rfl
            · obtain ⟨p, -, rfl⟩ := List.mem_map.mp hp
              rw [stripPrefix_print]
              rfl
          rw [List.dropWhile_append_of_pos hparts, List.dropWhile_cons_of_pos (by simp [hb]), ih]

/-- The reader takes Bearer's parameters and the stray ones behind them. -/
theorem parseBearerChallenge_header (cs : List Challenge) :
    parseBearerChallenge (header cs) =
      (cs.find? Challenge.isBearer).bind fun c => challengeOf (c.params ++ strays cs) := by
  have hhead := cs.find?_eq_head?_dropWhile_not Challenge.isBearer
  unfold parseBearerChallenge strays
  dsimp only
  rw [split_header, dropWhile_parts, hhead]
  cases hd : cs.dropWhile fun c => !c.isBearer with
  | nil => rfl
  | cons c after =>
      have hb : c.isBearer = true := by
        apply List.find?_some (a := c) (l := cs)
        rw [hhead, hd]
        rfl
      have hrest : ∀ (ps : List AuthParam) fields,
          (ps.map AuthParam.print).foldl challengeFields fields = ps.foldl setField fields := by
        intro ps fields
        rw [List.foldl_map]
        simp only [challengeFields_print]
      simp only [List.flatMap_cons, Challenge.parts, List.cons_append, stripPrefix_first, hb, if_true,
        List.head?_cons, Option.bind_some, List.tail_cons, Option.bind_eq_bind]
      have hfold : (c.first.print :: (c.rest.map AuthParam.print ++
          after.flatMap Challenge.parts)).foldl challengeFields (none, none, none) =
            (c.params ++ after.flatMap Challenge.rest).foldl setField (none, none, none) := by
        rw [List.foldl_cons, List.foldl_append, challengeFields_print, foldl_parts, hrest,
          Challenge.params, List.cons_append, List.foldl_cons, List.foldl_append]
      rw [hfold, foldl_setField]
      simp only [Option.or_none, challengeOf]
      cases lastValue (str "realm") (c.params ++ after.flatMap Challenge.rest) <;> rfl

/-- Where no name comes twice the first value is the last one. -/
theorem value_eq_lastValue (c : Challenge) (name : Str) :
    c.value name = lastValue name c.params := by
  have key : ∀ ps : List AuthParam,
      ps.Pairwise (fun p q => eqIgnoreAsciiCase p.name q.name = false) →
        (ps.find? (AuthParam.isNamed name)).map (fun p => p.value.text) = lastValue name ps := by
    intro ps hps
    induction ps with
    | nil => rfl
    | cons p ps ih =>
        obtain ⟨hp, hps⟩ := List.pairwise_cons.mp hps
        rw [lastValue_cons]
        cases hn : p.isNamed name with
        | true =>
            have hnone : lastValue name ps = none := by
              rw [← ih hps, Option.map_eq_none_iff, List.find?_eq_none]
              intro q hq hqn
              have hpq := hp q hq
              rw [eqIgnoreAsciiCase, beq_iff_eq.mp hn, beq_iff_eq.mp hqn] at hpq
              simp at hpq
            simp [hn, hnone]
        | false => simp [hn, ih hps]
  exact key c.params c.distinct

/-- The reader gives the first Bearer challenge alone exactly when nothing behind it
overrides it. -/
theorem parseBearerChallenge_iff (cs : List Challenge) :
    parseBearerChallenge (header cs) = bearerChallenge cs ↔ NotOverridden cs := by
  have hor : ∀ x y : Option Str, x.or y = y ↔ ∀ v, x = some v → y = some v := by
    intro x y
    cases x with
    | none => simp
    | some v =>
        simp only [Option.some_or, Option.some.injEq, forall_eq']
        exact eq_comm
  rw [parseBearerChallenge_header]
  unfold bearerChallenge NotOverridden
  cases cs.find? Challenge.isBearer with
  | none => simp
  | some c =>
      simp only [Option.bind_eq_bind, Option.bind_some, Option.some.injEq, forall_eq', challengeOf,
        lastValue_append, ← value_eq_lastValue]
      cases hr : c.value (str "realm") with
      | none =>
          simp only [Option.or_none, Option.bind_none, Option.map_eq_none_iff]
      | some realm =>
          simp only [Option.bind_some, List.mem_cons, List.not_mem_nil, or_false,
            forall_eq_or_imp, forall_eq, ← hor, hr]
          cases hl : lastValue (str "realm") (strays cs) with
          | none => simp
          | some other => simp

def quotedParam (name text : Str) (hn : isToken name = true) (hq : '"' ∉ text ∧ '\\' ∉ text) :
    AuthParam := ⟨name, .quoted text hq, hn⟩

/-- A Bearer challenge and a challenge with two parameters behind it. -/
def bearerThenDigest : List Challenge :=
  [⟨str "Bearer", quotedParam (str "realm") (str "https://a.io/t") (by decide) (by decide), [],
      by decide, by simp⟩,
    ⟨str "Digest", quotedParam (str "nonce") (str "x") (by decide) (by decide),
      [quotedParam (str "realm") (str "b") (by decide) (by decide)], by decide, by decide⟩]

/-- The realm of the later challenge is taken for Bearer's. -/
theorem digest_realm_overrides :
    header bearerThenDigest =
        str "Bearer realm=\"https://a.io/t\", Digest nonce=\"x\", realm=\"b\"" ∧
      parseBearerChallenge (header bearerThenDigest) = some ⟨str "b", none, none⟩ ∧
      bearerChallenge bearerThenDigest = some ⟨str "https://a.io/t", none, none⟩ ∧
      parseBearerChallenge (header bearerThenDigest) ≠ bearerChallenge bearerThenDigest :=
  ⟨by decide, by decide, by decide, by decide⟩

end Reading

end Helmoci.BearerChallenges
