import Helmoci.ClassicUpstream
import Helmoci.FormEncoding
import Helmoci.OciPaths
import Helmoci.PlainCrates
import Helmoci.RegistryResponses
import Helmoci.ServerState
import Helmoci.StorageKeys

/-!
# Pages of tag lists

The tag list of a classic chart is the list of its versions, cut by the client's `n` and
`last`. A page that leaves versions out carries a link whose cursor is its last tag. No
version is listed twice, so the cursor has one place in the list, and a client that
follows the links gets every version once.
-/
namespace Helmoci.TagPages
open RustText UrlInterface SegmentedText NameGrammar OciPaths NameResolver ChartIndex Utf8
  FormEncoding JsonDocuments ServerErrors EffectPrograms ServerOperations ClassicUpstream
  RegistryResponses ServerState TarUnpacking StorageKeys PlainUrls
  PlainCrates

section Definitions

/-- `n` and `last`, each as last given. The value of `n` is dropped where it is no number. -/
def tagQuery (usizeMax : ℕ) (query : Option Str) : Option ℕ × Option Str :=
  (query.elim [] fun query => parse (asBytes query)).foldl (fun (n, last) (key, value) =>
    if key = str "n" then (parseUnsigned usizeMax (asBytes value), last)
    else if key = str "last" then (n, some value)
    else (n, last)) (none, none)

/-- The tags behind the cursor, and all of them behind one that is not listed. -/
def tagsBehind (tags : List Str) (last : Option Str) : List Str :=
  match last.bind fun last => tags.findIdx? (· == last) with
  | some index => tags.drop (index + 1)
  | none => tags

def nextLink (fullName : Str) (n : ℕ) (last : Str) : Str :=
  str "</v2/" ++ (fullName ++ (str "/tags/list?n=" ++ (decimal n ++
    (str "&last=" ++ (byteSerialize (asBytes last) ++ str ">; rel=\"next\"")))))

structure Page where
  tags : List Str
  link : Option Str
deriving DecidableEq

/-- The first page of the tags, and the link to the next one. -/
def cutPage (fullName : Str) (tags : List Str) (n : Option ℕ) : Page :=
  match n with
  | none => ⟨tags, none⟩
  | some n =>
    if n < tags.length then
      let nextLast := if n = 0 then none else tags[n - 1]?
      ⟨tags.take n, nextLast.map (nextLink fullName n)⟩
    else ⟨tags, none⟩

def tagPage (usizeMax : ℕ) (fullName : Str) (versions : List Str) (query : Option Str) : Page :=
  let (n, last) := tagQuery usizeMax query
  cutPage fullName (tagsBehind versions last) n

/-- The names of the chart and its tags, as JSON. -/
def tagsText (fullName : Str) (tags : List Str) : Str :=
  str "\x7b\"name\":" ++ (jsonString fullName ++ (str ",\"tags\":[" ++
    ((str ",").intercalate (tags.map jsonString) ++ str "]\x7d")))

/-- A link to a name that resolves is a header value. -/
def tagsResponse (fullName : Str) (page : Page) (headOnly : Bool) : Response :=
  let body := asBytes (tagsText fullName page.tags)
  ⟨200, [(str "content-type", .text (str "application/json")),
      (str "content-length", .text (decimal body.length)), apiVersion] ++
      page.link.toList.map fun link => (str "link", .text link),
    if headOnly then [] else [.ok body]⟩

/-- The page of an index. -/
def indexPage (state : AppState) (index : Str) (chart : ClassicChart) (query : Option Str) :
    Except AppError Page := do
  let versions ← (listVersions state.crates.url state.crates.indexYaml index
    (indexRepo chart.repoUrl chart.source) chart.chartName).mapError AppError.fromHelmForTags
  return tagPage state.crates.platform.usizeMax chart.fullName versions query

def tags (state : AppState) (chart : ClassicChart) (query : Option Str) (headOnly : Bool) :
    Server Response := do
  let index ← fetchIndexText state.crates.url state.crates.sha256 state.cfg.settings chart.repoUrl
    chart.source
  let page ← liftResult (indexPage state index chart query)
  return tagsResponse chart.fullName page headOnly

end Definitions

section Following
variable (state : AppState) (decode : PathDecoder) (index : Str)

/-- The page of a request's path and query, where the name is that of a classic chart. -/
def serveTags (pathname : Str) (query : Option Str) : Option (Except AppError Page) :=
  match parseOciPath decode pathname with
  | .tags name =>
    match resolveName state.crates.url name state.cfg.aliases with
    | some (.classic chart) => some (indexPage state index chart query)
    | _ => none
  | _ => none

/-- The path and query of a link to the next page. -/
def linkTarget (link : Str) : Option (Str × Option Str) := do
  let rest ← link.dropPrefix? ['<']
  let (target, params) ← splitOnce '>' rest
  if params = str "; rel=\"next\"" then
    match splitOnce '?' target with
    | some (path, query) => some (path, some query)
    | none => some (target, none)
  else none

/-- The pages that a client gets that follows the links to a page without one. -/
inductive Pages : Str → Option Str → List (List Str) → Prop
  | last {pathname : Str} {query : Option Str} {page : Page} :
      serveTags state decode index pathname query = some (.ok page) → page.link = none →
      Pages pathname query [page.tags]
  | next {pathname pathname' link : Str} {query query' : Option Str} {page : Page}
      {pages : List (List Str)} :
      serveTags state decode index pathname query = some (.ok page) → page.link = some link →
      linkTarget link = some (pathname', query') → Pages pathname' query' pages →
      Pages pathname query (page.tags :: pages)

end Following

section Queries

theorem parseUnsigned_decimal (max n : ℕ) :
    parseUnsigned max (asBytes (decimal n)) = if n ≤ max then some n else none := by
  have hbytes : asBytes (decimal n) = (decimal n).map fun c => UInt8.ofNat c.toNat :=
    asBytes_of_isAscii (isAscii_decimal n)
  have hdigit : ∀ c : Char, c.isDigit = true →
      (UInt8.ofNat c.toNat).toNat = c.toNat ∧ 48 ≤ UInt8.ofNat c.toNat ∧
        UInt8.ofNat c.toNat ≤ 57 := by
    intro c hc
    have hr : 48 ≤ c.toNat ∧ c.toNat ≤ 57 := by
      simpa [Char.isDigit, UInt32.le_iff_toNat_le] using hc
    have hn : (UInt8.ofNat c.toNat).toNat = c.toNat := toNat_ofNat_of_lt (by omega)
    exact ⟨hn, by rw [UInt8.le_iff_toNat_le, hn]; exact hr.1,
      by rw [UInt8.le_iff_toNat_le, hn]; exact hr.2⟩
  have hne : decimal n ≠ [] := by
    rw [decimal, Nat.toList_repr]
    exact Nat.toDigits_ne_nil
  obtain ⟨c, s, hcons⟩ := List.exists_cons_of_ne_nil hne
  have hall := isDigit_decimal n
  have hvalue : (asBytes (decimal n)).foldl (fun n b => 10 * n + (b.toNat - 48)) 0 = n := by
    have hfold : ∀ (s : Str) (k : ℕ), (∀ c ∈ s, c.isDigit = true) →
        (s.map fun c => UInt8.ofNat c.toNat).foldl (fun n b => 10 * n + (b.toNat - 48)) k =
          Nat.ofDigitChars 10 s k := by
      intro s
      induction s with
      | nil =>
          intro k _
          rfl
      | cons d s ih =>
          intro k h
          rw [List.map_cons, List.foldl_cons, (hdigit d (h d (by simp))).1,
            ih _ fun e he => h e (List.mem_cons_of_mem _ he)]
          rfl
    rw [hbytes, hfold _ _ hall, decimal, Nat.toList_repr]
    simp
  have hplus : (asBytes (decimal n)).head? ≠ some 43 := by
    rw [hbytes, hcons]
    intro h
    have hd := (hdigit c (hall c (by simp [hcons]))).2.1
    rw [List.map_cons, List.head?_cons, Option.some.injEq] at h
    rw [h] at hd
    exact absurd hd (by decide)
  have hdigits : (!(asBytes (decimal n)).isEmpty &&
      (asBytes (decimal n)).all fun b => 48 ≤ b && b ≤ 57) = true := by
    rw [hbytes, Bool.and_eq_true]
    refine ⟨by simp [hne], ?_⟩
    rw [List.all_map, List.all_eq_true]
    intro d hd
    simp [(hdigit d (hall d hd)).2]
  unfold parseUnsigned
  rw [if_neg hplus]
  dsimp only
  rw [if_pos hdigits, hvalue]

theorem digit_plain {n : ℕ} : ∀ c ∈ decimal n, c.toNat < 128 ∧ c ≠ '%' ∧ c ≠ '+' ∧ c ≠ '&' := by
  intro c hc
  have hd := isDigit_decimal n c hc
  have hlt : c.toNat < 128 := by
    have hr : 48 ≤ c.toNat ∧ c.toNat ≤ 57 := by
      simpa [Char.isDigit, UInt32.le_iff_toNat_le] using hd
    omega
  refine ⟨hlt, ?_, ?_, ?_⟩
  all_goals
    rintro rfl
    exact absurd hd (by decide)

theorem parse_n (n : ℕ) : parse (asBytes (str "n=" ++ decimal n)) = [(str "n", decimal n)] := by
  have hpair := @parse_pair (str "n") (decimal n) (forall_of_all (by decide))
    fun c hc => ⟨(digit_plain c hc).1, (digit_plain c hc).2.2.2⟩
  have hname : decode (asBytes (str "n")) = str "n" := decode_of_plain (forall_of_all (by decide))
  rw [hname, decode_of_plain fun c hc =>
    ⟨(digit_plain c hc).1, (digit_plain c hc).2.1, (digit_plain c hc).2.2.1⟩] at hpair
  exact hpair

theorem parse_n_last (n : ℕ) (last : Str) :
    parse (asBytes (str "n=" ++ (decimal n ++ (str "&last=" ++ byteSerialize (asBytes last))))) =
      [(str "n", decimal n), (str "last", last)] := by
  have hcut : asBytes (str "n=" ++ (decimal n ++ (str "&last=" ++ byteSerialize (asBytes last)))) =
      asBytes (str "n=" ++ decimal n) ++ 38 ::
        asBytes (str "last" ++ '=' :: byteSerialize (asBytes last)) := by
    have hamp : asBytes (str "&last=" ++ byteSerialize (asBytes last)) =
        38 :: asBytes (str "last" ++ '=' :: byteSerialize (asBytes last)) :=
      asBytes_cons_ascii (by decide) _
    rw [← List.append_assoc, asBytes_append, hamp]
  have hamp : (38 : UInt8) ∉ asBytes (str "n=" ++ decimal n) := by
    apply not_mem_asBytes (c := '&') (by decide)
    · intro d hd
      rcases List.mem_append.mp hd with hd | hd
      · have hall : ∀ c ∈ str "n=", c.toNat < 128 := forall_of_all (by decide)
        exact hall d hd
      · exact (digit_plain d hd).1
    · intro hm
      rcases List.mem_append.mp hm with hm | hm
      · exact absurd hm (by decide)
      · exact (digit_plain _ hm).2.2.2 rfl
  have hvalue : ∀ c ∈ byteSerialize (asBytes last), c.toNat < 128 ∧ c ≠ '&' := by
    intro c hc
    have hs := serializedChar_of_mem hc
    refine ⟨serializedChar_ascii hs, ?_⟩
    rintro rfl
    exact absurd hs (by decide)
  have hname : decode (asBytes (str "last")) = str "last" := decode_of_plain (forall_of_all (by decide))
  rw [hcut, parse_append hamp, parse_n, parse_pair (forall_of_all (by decide)) hvalue, hname,
    decode_byteSerialize]
  rfl

theorem tagQuery_n {usizeMax n : ℕ} (h : n ≤ usizeMax) :
    tagQuery usizeMax (some (str "n=" ++ decimal n)) = (some n, none) := by
  have hkey : str "last" ≠ str "n" := by decide
  simp [tagQuery, parse_n, parseUnsigned_decimal, h]

theorem tagQuery_n_last {usizeMax n : ℕ} (h : n ≤ usizeMax) (last : Str) :
    tagQuery usizeMax (some (str "n=" ++ (decimal n ++ (str "&last=" ++
      byteSerialize (asBytes last))))) = (some n, some last) := by
  have hkey : str "last" ≠ str "n" := by decide
  simp [tagQuery, parse_n_last, parseUnsigned_decimal, h, hkey]

/-- A number beyond `usize` is no page size. -/
theorem tagQuery_beyond {usizeMax n : ℕ} (h : usizeMax < n) :
    tagQuery usizeMax (some (str "n=" ++ decimal n)) = (none, none) := by
  have hn : ¬ n ≤ usizeMax := by omega
  simp [tagQuery, parse_n, parseUnsigned_decimal, hn]

end Queries

section Cursors

/-- A tag that is listed once is found where it stands. -/
theorem tagsBehind_of_nodup {pre rest : List Str} {v : Str} (h : (pre ++ v :: rest).Nodup) :
    tagsBehind (pre ++ v :: rest) (some v) = rest := by
  have hpre : v ∉ pre := by
    intro hm
    have hdis := (List.nodup_append.mp h).2.2 v hm v (by simp)
    exact hdis rfl
  have hindex : (pre ++ v :: rest).findIdx? (· == v) = some pre.length := by
    rw [List.findIdx?_append]
    have hnone : pre.findIdx? (· == v) = none := by
      rw [List.findIdx?_eq_none_iff]
      intro w hw
      rw [beq_eq_false_iff_ne]
      rintro rfl
      exact hpre hw
    simp [hnone, List.findIdx?_cons]
  unfold tagsBehind
  rw [Option.bind_some, hindex]
  simp

/-- The last tag of a page that leaves some out. -/
theorem cutPage_cases (fullName : Str) (tags : List Str) {n : ℕ} (hn : 1 ≤ n) :
    (tags.length ≤ n ∧ cutPage fullName tags (some n) = ⟨tags, none⟩) ∨
      ∃ front v rest, tags = front ++ v :: rest ∧ (front ++ [v]).length = n ∧
        cutPage fullName tags (some n) = ⟨front ++ [v], some (nextLink fullName n v)⟩ := by
  by_cases hlt : n < tags.length
  · refine Or.inr ⟨tags.take (n - 1), tags[n - 1], tags.drop n, ?_, ?_, ?_⟩
    · have hsucc : n - 1 + 1 = n := by omega
      have hdrop : tags.drop (n - 1) = tags[n - 1] :: tags.drop n := by
        rw [List.drop_eq_getElem_cons (by omega), hsucc]
      rw [← hdrop, List.take_append_drop]
    · simp
      omega
    · have htake : tags.take n = tags.take (n - 1) ++ [tags[n - 1]] := by
        have hsucc : n - 1 + 1 = n := by omega
        rw [← List.take_succ_eq_append_getElem (by omega), hsucc]
      have hne : n ≠ 0 := by omega
      have hget : tags[n - 1]? = some tags[n - 1] := List.getElem?_eq_getElem (by omega)
      simp [cutPage, hlt, hne, hget, htake]
  · exact Or.inl ⟨by omega, by simp [cutPage, hlt]⟩

end Cursors

section Lossless
variable {state : AppState} {decode : PathDecoder} {index name : Str} {chart : ClassicChart}

/-- A link is read as the path and query that are in it. -/
theorem linkTarget_nextLink {fullName : Str} (h : ∀ c ∈ fullName, chartNameChar c = true ∨ c = '/')
    (n : ℕ) (last : Str) : linkTarget (nextLink fullName n last) = some (tagsPath fullName,
      some (str "n=" ++ (decimal n ++ (str "&last=" ++ byteSerialize (asBytes last))))) := by
  have hname : ∀ d ∈ ['?', '>'], d ∉ fullName := by
    intro d hd hm
    have hall : ∀ d ∈ ['?', '>'], ¬(chartNameChar d = true ∨ d = '/') :=
      forall_of_all (by decide)
    exact hall d hd (h d hm)
  have hserialized : '>' ∉ byteSerialize (asBytes last) := by
    intro hm
    exact absurd (serializedChar_of_mem hm) (by decide)
  have hdigits : '>' ∉ decimal n := by
    intro hm
    exact absurd (isDigit_decimal n _ hm) (by decide)
  have hpath : '?' ∉ tagsPath fullName := by
    rw [tagsPath, List.mem_append, List.mem_append, not_or, not_or]
    exact ⟨by decide, hname '?' (by simp), by decide⟩
  have htext : nextLink fullName n last = '<' :: ((tagsPath fullName ++ '?' :: (str "n=" ++
      (decimal n ++ (str "&last=" ++ byteSerialize (asBytes last))))) ++ '>' ::
        str "; rel=\"next\"") := by
    simp [nextLink, tagsPath, str]
  have hend : '>' ∉ tagsPath fullName ++ '?' :: (str "n=" ++ (decimal n ++ (str "&last=" ++
      byteSerialize (asBytes last)))) := by
    simp only [tagsPath, List.mem_append, List.mem_cons, not_or]
    exact ⟨⟨by decide, hname '>' (by simp), by decide⟩, by decide, by decide, hdigits, by decide,
      hserialized⟩
  have hlt : ∀ s : Str, ('<' :: s).dropPrefix? ['<'] = some s := by
    intro s
    simp [List.dropPrefix?]
  rw [htext, linkTarget, hlt, Option.bind_eq_bind, Option.bind_some, splitOnce_append hend,
    Option.bind_eq_bind, Option.bind_some]
  dsimp only
  rw [if_pos rfl, splitOnce_append hpath]

/-- The pages behind a cursor hold what is left of the list. -/
theorem pages_behind {versions : List Str} {usizeMax n : ℕ} (hn : 1 ≤ n) (hmax : n ≤ usizeMax)
    (hnodup : versions.Nodup) (hname : ∀ c ∈ name, chartNameChar c = true ∨ c = '/')
    (hserve : ∀ query, serveTags state decode index (tagsPath name) query =
      some (.ok (tagPage usizeMax name versions query))) {pre rest : List Str} {query : Option Str}
    {last : Option Str} (hsplit : versions = pre ++ rest)
    (hquery : tagQuery usizeMax query = (some n, last)) (hrest : tagsBehind versions last = rest) :
    ∃ pages, Pages state decode index (tagsPath name) query pages ∧ (∀ p ∈ pages, p.length ≤ n) ∧
      pages.flatten = rest := by
  -- induction on what is left, which every page makes shorter
  generalize hk : rest.length = k
  induction k using Nat.strong_induction_on generalizing pre rest query last with
  | _ k ih =>
      have hpage : tagPage usizeMax name versions query = cutPage name rest (some n) := by
        rw [tagPage, hquery]
        dsimp only
        rw [hrest]
      rcases cutPage_cases name rest hn with ⟨hle, hcut⟩ | ⟨front, v, rest', hr, hl, hcut⟩
      · refine ⟨[rest], ?_, by simpa using hle, by simp⟩
        have hp := hserve query
        rw [hpage, hcut] at hp
        exact .last hp rfl
      · have hversions : versions = (pre ++ front) ++ v :: rest' := by rw [hsplit, hr]; simp
        have hbehind : tagsBehind versions (some v) = rest' := by
          rw [hversions]
          exact tagsBehind_of_nodup (hversions ▸ hnodup)
        have hshorter : rest'.length < k := by
          rw [← hk, hr]
          simp
          omega
        have hsplit' : versions = (pre ++ front ++ [v]) ++ rest' := by rw [hversions]; simp
        obtain ⟨pages, hpages, hbound, hflat⟩ :=
          ih rest'.length hshorter hsplit' (tagQuery_n_last hmax v) hbehind rfl
        refine ⟨(front ++ [v]) :: pages, ?_, ?_, ?_⟩
        · have hp := hserve query
          rw [hpage, hcut] at hp
          exact .next hp rfl (linkTarget_nextLink hname n v) hpages
        · intro p hp
          rcases List.mem_cons.mp hp with rfl | hp
          · exact Nat.le_of_eq hl
          · exact hbound p hp
        · rw [List.flatten_cons, hflat, hr]
          simp

end Lossless

/-- The index of a chart with three versions, one of which needs an escape. -/
def threeVersionsText : Str :=
  str "entries: \x7bdemo: [\x7bversion: 2.0.0+b\x7d, \x7bversion: 1.1.0\x7d, " ++
    str "\x7bversion: 2.0.0+b\x7d, \x7bversion: 1.0.0\x7d]\x7d\n"

def threeVersions : AppState :=
  {plainState with crates := {plainCrates with
    indexYaml := fun text =>
      if text = threeVersionsText then
        some ⟨some (collect [(str "demo", [⟨some (str "2.0.0+b"), none⟩,
          ⟨some (str "1.1.0"), none⟩, ⟨some (str "2.0.0+b"), none⟩, ⟨some (str "1.0.0"), none⟩])])⟩
      else none}}

end Helmoci.TagPages
