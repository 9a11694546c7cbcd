import Helmoci.QuotedText
import Helmoci.Routes

/-!
# Cached manifests and the ranges a client accepts

All `Accept` lines of a request are one list of media ranges, of which the most specific
that match a type decide about it. The server looks at the first line alone and at any
range that matches. That comes to the same where no refusal is more specific than all
offers and what is offered is offered by the first line.
-/
namespace Helmoci.AcceptedRanges
open RustText SegmentedText QuotedText OciDigest OciPaths NameResolver ProxyHosts ServerErrors
  EffectPrograms ServerOperations RegistryTokens BlobStorage RegistryResponses JsonDocuments
  ServerState PassthroughHandler ManifestMediaTypes StoredEntries HandlerCalls Routes UpstreamPaths
  PlainCrates Helmoci.Configuration

section Ranges

structure MediaRange where
  kind : Str
  parameters : List Str
deriving DecidableEq, Repr

def mediaRange (text : Str) : MediaRange :=
  match splitUnquoted ';' [] false text with
  | [] => ⟨[], []⟩
  | kind :: parameters => ⟨toAsciiLowercase (trim kind), parameters⟩

/-- The ranges of the lines, which are joined with commas. -/
def mediaRanges (lines : List Str) : List MediaRange :=
  (splitUnquoted ',' [] false ([','].intercalate lines)).map mediaRange

namespace MediaRange

/-- How closely the range matches the type: exactly, by its first half or as any type. -/
def specificity (m : Str) (r : MediaRange) : Option ℕ :=
  if r.kind = m then some 2
  else if r.kind = m.takeWhile (· != '/') ++ str "/*" then some 1
  else if r.kind = str "*/*" then some 0
  else none

/-- No quality is zero. -/
def offered (r : MediaRange) : Bool := r.parameters.all acceptableParameter

end MediaRange

/-- Some of the ranges that match most closely is offered. -/
def Acceptable (lines : List Str) (m : Str) : Prop :=
  lines = [] ∨ ∃ r ∈ mediaRanges lines, ∃ n, r.specificity m = some n ∧ r.offered = true ∧
    ∀ r' ∈ mediaRanges lines, ∀ n', r'.specificity m = some n' → n' ≤ n

/-- A line as a header value. -/
def lineValue (line : Str) : HeaderValue := (HeaderValue.fromStr line).getD .undecodable

/-- The first line is text, and no comma or semicolon stands in a quoted string. -/
structure Unquoted (lines : List Str) : Prop where
  text : ∀ first ∈ lines.head?, (lineValue first).toStr = some first
  commas : ∀ text ∈ [','].intercalate lines :: lines,
    splitUnquoted ',' [] false text = text.splitOn ','
  semicolons : ∀ range ∈ ([','].intercalate lines).splitOn ',',
    splitUnquoted ';' [] false range = range.splitOn ';'

/-- Some range offers the type. -/
def Offers (ranges : List MediaRange) (m : Str) : Prop :=
  ∃ r ∈ ranges, r.offered = true ∧ ∃ n, r.specificity m = some n

/-- No range that refuses the type is more specific than all that offer it. -/
def Ranked (ranges : List MediaRange) (m : Str) : Prop :=
  Offers ranges m → ∀ r ∈ ranges, ∀ n, r.specificity m = some n → r.offered = false →
    ∃ q ∈ ranges, ∃ k, q.specificity m = some k ∧ q.offered = true ∧ n ≤ k

/-- What some line offers is offered by the first. -/
def FirstOffers (lines : List Str) (m : Str) : Prop :=
  Offers (mediaRanges lines) m → ∀ first ∈ lines.head?, Offers (mediaRanges [first]) m

/-- The lines leave nothing to the ranks of the ranges and to the order of the lines. -/
structure Undisputed (lines : List Str) (m : Str) : Prop where
  unquoted : Unquoted lines
  ranked : Ranked (mediaRanges lines) m
  first : FirstOffers lines m

/-- Of the ranges that are offered and match, one matches most closely. -/
theorem exists_closest {ranges : List MediaRange} {m : Str} {r : MediaRange} {n : ℕ}
    (hr : r ∈ ranges) (hn : r.specificity m = some n) (ho : r.offered = true) :
    ∃ r ∈ ranges, ∃ k, n ≤ k ∧ r.specificity m = some k ∧ r.offered = true ∧
      ∀ r' ∈ ranges, ∀ k', r'.specificity m = some k' → r'.offered = true → k' ≤ k := by
  have hbound : ∀ (r : MediaRange) k, r.specificity m = some k → k ≤ 2 := by
    intro r k hk
    unfold MediaRange.specificity at hk
    split at hk
    · exact Nat.le_of_eq (Option.some.inj hk).symm
    · split at hk
      · rw [← Option.some.inj hk]
        decide
      · split at hk
        · rw [← Option.some.inj hk]
          exact Nat.zero_le 2
        · cases hk
  -- by what is left up to an exact match
  obtain ⟨d, hd⟩ : ∃ d, d = 2 - n := ⟨_, rfl⟩
  induction d using Nat.strong_induction_on generalizing r n with
  | _ d ih =>
      by_cases hmore : ∃ r' ∈ ranges, ∃ k', r'.specificity m = some k' ∧ r'.offered = true ∧ n < k'
      · obtain ⟨r', hr', k', hk', ho', hlt⟩ := hmore
        have hle := hbound r' k' hk'
        obtain ⟨q, hq, k, hk, hrest⟩ := ih (2 - k') (by omega) hr' hk' ho' rfl
        exact ⟨q, hq, k, by omega, hrest⟩
      · refine ⟨r, hr, n, Nat.le_refl n, hn, ho, ?_⟩
        intro r' hr' k' hk' ho'
        by_contra hlt
        exact hmore ⟨r', hr', k', hk', ho', by omega⟩

/-- A type is acceptable if it is offered and the ranges are ranked. -/
theorem acceptable_iff {lines : List Str} {m : Str} (hl : lines ≠ []) :
    Acceptable lines m ↔ Offers (mediaRanges lines) m ∧ Ranked (mediaRanges lines) m := by
  constructor
  · intro h
    rcases h with h | ⟨r, hr, n, hn, ho, hmax⟩
    · exact (hl h).elim
    · exact ⟨⟨r, hr, ho, n, hn⟩, fun _ r' hr' n' hn' _ => ⟨r, hr, n, hn, ho, hmax r' hr' n' hn'⟩⟩
  · intro ⟨hoffers, hranked⟩
    obtain ⟨r, hr, ho, n, hn⟩ := id hoffers
    obtain ⟨q, hq, k, -, hk, hoq, hmax⟩ := exists_closest hr hn ho
    refine Or.inr ⟨q, hq, k, hk, hoq, ?_⟩
    intro r' hr' k' hk'
    cases ho' : r'.offered with
    | true => exact hmax r' hr' k' hk' ho'
    | false =>
        obtain ⟨p, hp, j, hj, hop, hle⟩ := hranked hoffers r' hr' k' hk' ho'
        exact hle.trans (hmax p hp j hj hop)

/-- A type with one slash begins with the first half and no other. -/
theorem isPrefixOf_iff {kind t u : Str} (ht : '/' ∉ t) (hu : '/' ∉ u) :
    (kind ++ ['/']).isPrefixOf (t ++ '/' :: u) = true ↔ kind = t := by
  rw [List.isPrefixOf_iff_prefix]
  constructor
  · intro ⟨rest, hrest⟩
    rw [List.append_assoc, List.singleton_append] at hrest
    rcases List.append_eq_append_iff.mp hrest with ⟨a, rfl, ha⟩ | ⟨a, rfl, ha⟩
    · cases a with
      | nil => simp
      | cons d a =>
          obtain ⟨rfl, -⟩ := List.cons.inj ha
          exact (ht (by simp)).elim
    · cases a with
      | nil => simp
      | cons d a =>
          obtain ⟨rfl, rfl⟩ := List.cons.inj ha
          exact (hu (by simp)).elim
  · intro h
    rw [h]
    exact ⟨u, by simp⟩

theorem manifestMediaType_split {m : Str} (hm : m ∈ manifestMediaTypes) :
    ∃ u, '/' ∉ u ∧ m = str "application" ++ '/' :: u := by
  have hall : ∀ m ∈ manifestMediaTypes, (str "application/").isPrefixOf m = true ∧
      '/' ∉ m.drop (str "application/").length := by decide +kernel
  obtain ⟨hpre, hu⟩ := hall m hm
  obtain ⟨u, rfl⟩ := List.isPrefixOf_iff_prefix.mp hpre
  refine ⟨u, ?_, rfl⟩
  rwa [List.drop_left] at hu

theorem matches_iff (m : Str) (r : MediaRange) : (∃ n, r.specificity m = some n) ↔
    (r.kind = str "*/*" ∨ r.kind = m) ∨ r.kind = m.takeWhile (· != '/') ++ str "/*" := by
  unfold MediaRange.specificity
  constructor
  · intro ⟨n, hn⟩
    split at hn
    · exact Or.inl (Or.inr ‹_›)
    · split at hn
      · exact Or.inr ‹_›
      · split at hn
        · exact Or.inl (Or.inl ‹_›)
        · cases hn
  · intro h
    split
    · exact ⟨2, rfl⟩
    · split
      · exact ⟨1, rfl⟩
      · rcases h with (h | h) | h
        · exact ⟨0, if_pos h⟩
        · exact absurd h ‹_›
        · exact absurd h ‹_›

/-- A range for the first half of a type is that half with a star. -/
theorem suffix_iff {k t u : Str} (ht : '/' ∉ t) (hu : '/' ∉ u) :
    (match k.dropSuffix? (str "/*") with
      | some kind => (kind ++ ['/']).isPrefixOf (t ++ '/' :: u)
      | none => false) = true ↔ k = t ++ str "/*" := by
  cases hd : k.dropSuffix? (str "/*") with
  | none =>
      simp only [Bool.false_eq_true, false_iff]
      intro hk
      have hsome : k.dropSuffix? (str "/*") = some t :=
        List.dropSuffix?_eq_some_iff.mpr ⟨str "/*", hk, beq_self_eq_true _⟩
      rw [hd] at hsome
      cases hsome
  | some kind =>
      obtain ⟨s, rfl, hstar⟩ := List.dropSuffix?_eq_some_iff.mp hd
      obtain rfl : s = str "/*" := eq_of_beq hstar
      rw [isPrefixOf_iff ht hu]
      exact ⟨congrArg (· ++ str "/*"), List.append_cancel_right⟩

/-- The server reads a range as the list does if no semicolon of it is quoted. -/
theorem acceptsRange_iff {m range : Str} (hm : m ∈ manifestMediaTypes)
    (hq : splitUnquoted ';' [] false range = range.splitOn ';') :
    acceptsRange m range = true ↔
      (mediaRange range).offered = true ∧ ∃ n, (mediaRange range).specificity m = some n := by
  rw [matches_iff]
  unfold acceptsRange mediaRange
  rw [hq]
  cases hs : range.splitOn ';' with
  | nil => exact absurd hs (List.splitOn_ne_nil _ _)
  | cons kind parameters =>
      obtain ⟨u, hu, rfl⟩ := manifestMediaType_split hm
      have ht : '/' ∉ str "application" := by decide
      have hhalf : (str "application" ++ '/' :: u).takeWhile (· != '/') = str "application" := by
        rw [List.takeWhile_append_of_pos (by
          intro c hc
          simpa using fun h : c = '/' => ht (h ▸ hc))]
        simp
      rw [hhalf]
      dsimp only
      rw [Bool.and_eq_true]
      apply and_congr_right
      intro _
      rw [Bool.or_eq_true, Bool.or_eq_true, beq_iff_eq, beq_iff_eq]
      exact or_congr_right (suffix_iff ht hu)

/-- The pieces of the first line are pieces of the joined lines. -/
theorem mem_splitOn_intercalate {first range : Str} {more : List Str}
    (h : range ∈ first.splitOn ',') : range ∈ ([','].intercalate (first :: more)).splitOn ',' := by
  cases more with
  | nil => rwa [List.intercalate_singleton]
  | cons line more =>
      rw [List.intercalate_cons_cons, List.append_assoc, List.singleton_append,
        List.splitOn_append_cons_self]
      exact List.mem_append_left _ h

section Lines
variable {m first : Str} {more : List Str}

theorem mediaRanges_of_unquoted (hu : Unquoted (first :: more)) :
    mediaRanges (first :: more) =
      (([','].intercalate (first :: more)).splitOn ',').map mediaRange := by
  unfold mediaRanges
  rw [hu.commas _ List.mem_cons_self]

theorem mediaRanges_first (hu : Unquoted (first :: more)) :
    mediaRanges [first] = (first.splitOn ',').map mediaRange := by
  unfold mediaRanges
  rw [List.intercalate_singleton,
    hu.commas first (List.mem_cons_of_mem _ List.mem_cons_self)]

/-- What the first line offers is offered. -/
theorem offers_of_first (hu : Unquoted (first :: more)) (h : Offers (mediaRanges [first]) m) :
    Offers (mediaRanges (first :: more)) m := by
  obtain ⟨r, hr, hoffer⟩ := h
  rw [mediaRanges_first hu] at hr
  obtain ⟨range, hrange, rfl⟩ := List.mem_map.mp hr
  refine ⟨mediaRange range, ?_, hoffer⟩
  rw [mediaRanges_of_unquoted hu]
  exact List.mem_map_of_mem (mem_splitOn_intercalate hrange)

/-- The server takes the type exactly when the first line offers it. -/
theorem acceptsMediaType_iff (hm : m ∈ manifestMediaTypes) (hu : Unquoted (first :: more)) :
    acceptsMediaType (((first :: more).map lineValue).head?.bind HeaderValue.toStr) m = true ↔
      Offers (mediaRanges [first]) m := by
  have hv : (lineValue first).toStr = some first := hu.text first rfl
  have hrange : ∀ range ∈ first.splitOn ',', acceptsRange m range = true ↔
      (mediaRange range).offered = true ∧ ∃ n, (mediaRange range).specificity m = some n :=
    fun range h => acceptsRange_iff hm (hu.semicolons range (mem_splitOn_intercalate h))
  rw [List.map_cons, List.head?_cons, Option.bind_some, hv, acceptsMediaType, Option.all_some,
    List.any_eq_true, mediaRanges_first hu]
  constructor
  · intro ⟨range, hmem, h⟩
    exact ⟨_, List.mem_map_of_mem hmem, (hrange range hmem).mp h⟩
  · intro ⟨r, hr, h⟩
    obtain ⟨range, hmem, rfl⟩ := List.mem_map.mp hr
    exact ⟨range, hmem, (hrange range hmem).mpr h⟩

end Lines

/-- The server follows the list if the ranges are ranked and the first line offers what the
others do, and also if neither is so. -/
theorem follows_iff {lines : List Str} {m : Str} (hm : m ∈ manifestMediaTypes)
    (hu : Unquoted lines) :
    (acceptsMediaType ((lines.map lineValue).head?.bind HeaderValue.toStr) m = true ↔
      Acceptable lines m) ↔ (Ranked (mediaRanges lines) m ↔ FirstOffers lines m) := by
  cases lines with
  | nil =>
      have hranked : Ranked (mediaRanges []) m := by
        intro _ r hr n _ hrefused
        obtain rfl : r = ⟨[], []⟩ := List.mem_singleton.mp hr
        cases hrefused
      simp [acceptsMediaType, Acceptable, FirstOffers, hranked]
  | cons first more =>
      have hfirst : FirstOffers (first :: more) m ↔
          (Offers (mediaRanges (first :: more)) m → Offers (mediaRanges [first]) m) := by
        simp [FirstOffers]
      rw [acceptsMediaType_iff hm hu, acceptable_iff (List.cons_ne_nil first more), hfirst]
      by_cases hoffers : Offers (mediaRanges (first :: more)) m
      · rw [and_iff_right hoffers, imp_iff_right hoffers]
        exact iff_comm
      · have hnot : ¬ Offers (mediaRanges [first]) m := fun h => hoffers (offers_of_first hu h)
        have hranked : Ranked (mediaRanges (first :: more)) m := fun h => (hoffers h).elim
        simp [hoffers, hnot, hranked]

end Ranges

section Runs

/-- A tag whose pointer and blob are stored. -/
structure CachedTag where
  proxyHost : Str
  name : Str
  reference : Str
  target : OciTarget
  pointer : TagPointer
  mediaType : Str
  blob : Blob

variable {S : Type} (state : AppState) (decode : PathDecoder) (debug : Str → Str)
  (W : World Op Ans S) (s : S) (req : ClientRequest) (c : CachedTag)

/-- The request asks for this tag, and the storage has what it points to. -/
structure Stored : Prop where
  method : req.method = some .get
  routed : (str "/v2/").isPrefixOf req.path = true
  host : proxyHostFrom req = some c.proxyHost
  path : parseOciPath decode req.path = .manifest c.name c.reference
  tag : Digest.parse c.reference = none
  target : resolveName state.crates.url c.name state.cfg.aliases = some (.oci c.target)
  store : c.target.store = true
  pointer : ∀ cs r t,
    Runs W (state.storage.getTagPointer ⟨c.proxyHost, c.target.fullName⟩ c.reference) s cs r t →
      r = .ok (some c.pointer) ∧ t = s
  mediaType : normalizedManifestMediaType c.pointer.mediaType = some c.mediaType
  blob : ∀ cs r t, Runs W (state.storage.getBlob c.pointer.digest) s cs r t →
    r = .ok (some c.blob) ∧ t = s

/-- The blob is read and the answer is made of it. -/
def UsesCached (cs : List (Call Op Ans)) (a : Except AppError Answer) : Prop :=
  (∃ call ∈ cs, call.op = .get (blobKey c.pointer.digest)) ∧
    a = (cachedManifestResponse state c.pointer.digest c.blob false (some c.mediaType)).map .response

/-- No object is read. -/
def NotGet : Op → Prop
  | .get _ => False
  | _ => True

variable {state decode debug W s req c}

theorem upstreamManifest_notGet {R : (op : Op) → Ans op → Prop} (proxyHost : Str)
    (target : OciTarget) (reference : Str) (headOnly : Bool) (accept : Option Str) :
    Ensures R NotGet (OnOk fun _ => True)
      (upstreamManifest state proxyHost target reference headOnly accept) := by
  have send : Ensures R NotGet (OnOk fun _ => True)
      (sendToUpstream state target headOnly (str "manifests/" ++ reference)
        (some (accept.getD defaultManifestAccept))) := by
    apply (sendUpstream_registryOp ..).conseq
    · intro op hop
      cases op with
      | get _ => exact hop.elim
      | _ => trivial
    · intro r _
      cases r <;> trivial
  have keep : ∀ data digest mediaType, Ensures R NotGet (OnOk fun _ => True)
      (storeManifest state ⟨proxyHost, target.fullName⟩ reference data digest mediaType) := by
    intro data digest mediaType
    unfold storeManifest
    refine ensures_bind (Q := fun _ => True)
      ((putBlob_ensures trivial fun _ _ _ => trivial).conseq (fun _ hop => hop)
        fun r _ => onOk_true r) ?_
    intro _ _
    split
    · refine ensures_bind (Q := fun _ => True) (ensures_liftResult fun _ _ => trivial) ?_
      intro path _
      refine ensures_bind (ensures_perform trivial) ?_
      intro r _
      cases r <;> trivial
    · trivial
  rw [upstreamManifest_eq]
  refine ensures_bind send ?_
  intro response _
  unfold relayManifest
  split
  · trivial
  · split
    · trivial
    · dsimp only
      split
      · exact ensures_liftResult fun _ _ => trivial
      · refine ensures_bind (Q := fun _ => True) (ensures_liftResult fun _ _ => trivial) ?_
        intro ⟨data, digest, mediaType⟩ _
        dsimp only
        split
        · refine ensures_bind (keep ..) ?_
          intro _ _
          trivial
        · trivial

theorem getTagPointer_reads {R : (op : Op) → Ans op → Prop} (json : JsonCrate) (scope : TagScope)
    (tag : Str) (digest : Digest) : Ensures R (fun op => op ≠ .get (blobKey digest))
      (OnOk fun _ => True) (ObjectStore.getTagPointer json scope tag) := by
  refine ensures_bind (ensures_liftResult fun _ hp => storagePath_tagKey hp) ?_
  intro path hpath
  have hne : (Op.get path) ≠ .get (blobKey digest) :=
    fun h => blobKey_ne_of_tagKey hpath (Op.get.inj h)
  refine ensures_bind (ensures_perform hne) ?_
  intro r _
  cases r with
  | ok result =>
      dsimp only
      split
      · trivial
      · exact ensures_bind (Q := fun _ => True) (ensures_liftResult fun _ _ => trivial)
          fun _ _ => trivial
  | error e => cases e <;> trivial

/-- A blob that is found has been read. -/
theorem getBlob_reads {digest : Digest} {cs : List (Call Op Ans)} {r : Except AppError (Option Blob)}
    {t : S} (h : Runs W (ObjectStore.getBlob digest) s cs r t) :
    ∃ call ∈ cs, call.op = .get (blobKey digest) := by
  unfold ObjectStore.getBlob at h
  rw [storagePath_blobKey, liftResult_ok_bind, perform_bind] at h
  obtain ⟨r, m, ds, _, _, rfl⟩ := runs_call_iff.mp h
  exact ⟨_, List.mem_cons_self, rfl⟩

/-- A run of the handler reads the pointer and then takes the blob or asks upstream. -/
theorem manifest_runs (h : Stored state decode W s req c) {accept : Option Str}
    {cs : List (Call Op Ans)} {r : Except AppError Response} {t : S}
    (hr : Runs W (PassthroughHandler.manifest state c.proxyHost c.target c.reference false accept)
      s cs r t) : ∃ cs₁ cs₂,
    Runs W (state.storage.getTagPointer ⟨c.proxyHost, c.target.fullName⟩ c.reference) s cs₁
      (.ok (some c.pointer)) s ∧ cs = cs₁ ++ cs₂ ∧
    (acceptsMediaType accept c.mediaType = true →
      Runs W (state.storage.getBlob c.pointer.digest) s cs₂ (.ok (some c.blob)) s ∧
        r = cachedManifestResponse state c.pointer.digest c.blob false (some c.mediaType)) ∧
    (acceptsMediaType accept c.mediaType = false →
      Runs W (upstreamManifest state c.proxyHost c.target c.reference false accept) s cs₂ r t) := by
  unfold PassthroughHandler.manifest at hr
  rw [if_pos h.store] at hr
  obtain ⟨ds, y, m, ds', hcached, hrest, rfl⟩ := runs_bind_iff.mp hr
  unfold cachedManifest at hcached
  rw [h.tag] at hcached
  obtain ⟨cs₁, cs₂, hpointer, hchosen, rfl⟩ := runs_bind_of_ok h.pointer hcached
  simp only [h.mediaType] at hchosen
  cases haccept : acceptsMediaType accept c.mediaType with
  | false =>
      rw [haccept] at hchosen
      obtain ⟨rfl, rfl, rfl⟩ := runs_pure_iff.mp hchosen
      refine ⟨cs₁, ds', hpointer, by simp, fun hf => absurd hf Bool.false_ne_true, fun _ => hrest⟩
  | true =>
      rw [haccept] at hchosen
      obtain ⟨fs₁, fs₂, hblob, hanswer, rfl⟩ := runs_bind_of_ok h.blob hchosen
      obtain ⟨gs, x, m', gs', hlift, hret, rfl⟩ := runs_bind_iff.mp hanswer
      obtain ⟨rfl, rfl, rfl⟩ := runs_liftResult hlift
      have hend : gs' = [] ∧ ds' = [] ∧
          r = cachedManifestResponse state c.pointer.digest c.blob false (some c.mediaType) := by
        cases hx : cachedManifestResponse state c.pointer.digest c.blob false
            (some c.mediaType) with
        | error e =>
            rw [hx] at hret
            obtain ⟨rfl, rfl, rfl⟩ := runs_pure_iff.mp hret
            obtain ⟨rfl, rfl, -⟩ := runs_pure_iff.mp hrest
            exact ⟨rfl, rfl, rfl⟩
        | ok response =>
            rw [hx] at hret
            obtain ⟨rfl, rfl, rfl⟩ := runs_pure_iff.mp hret
            obtain ⟨rfl, rfl, -⟩ := runs_pure_iff.mp hrest
            exact ⟨rfl, rfl, rfl⟩
      obtain ⟨rfl, rfl, hres⟩ := hend
      refine ⟨cs₁, fs₁, hpointer, by simp, fun _ => ⟨hblob, hres⟩,
        fun hf => absurd hf.symm Bool.false_ne_true⟩

/-- The cached manifest is used exactly when the header's first line accepts its type. -/
theorem usesCached_iff (h : Stored state decode W s req c) {cs : List (Call Op Ans)}
    {a : Except AppError Answer} {t : S}
    (hr : Runs W (ociDispatch state decode debug req) s cs a t) :
    UsesCached state c cs a ↔
      acceptsMediaType ((HeaderMap.get req.headers (str "accept")).bind HeaderValue.toStr)
        c.mediaType = true := by
  generalize haccept : (HeaderMap.get req.headers (str "accept")).bind HeaderValue.toStr = accept
  have hdispatch : ociDispatch state decode debug req =
      (do return .response (← PassthroughHandler.manifest state c.proxyHost c.target c.reference
        false accept) : Server Answer) := by
    have hroute : ¬ (req.path ≠ str "/v2" ∧ (str "/v2/").isPrefixOf req.path = false) := by
      simp [h.routed]
    unfold ociDispatch
    rw [if_neg hroute, h.method]
    dsimp only
    rw [h.host]
    dsimp only
    rw [h.path, haccept]
    dsimp only
    unfold manifestEntry
    rw [h.target]
    rfl
  rw [hdispatch] at hr
  obtain ⟨ds, x, m, ds', hmanifest, hrest, rfl⟩ := runs_bind_iff.mp hr
  have hret : ds' = [] ∧ a = x.map .response := by
    cases x with
    | error e =>
        obtain ⟨hds, ha, -⟩ := runs_pure_iff.mp hrest
        exact ⟨hds, ha⟩
    | ok response =>
        obtain ⟨hds, ha, -⟩ := runs_pure_iff.mp hrest
        exact ⟨hds, ha⟩
  obtain ⟨rfl, rfl⟩ := hret
  obtain ⟨cs₁, cs₂, hpointer, rfl, haccepted, hrefused⟩ := manifest_runs h hmanifest
  rw [List.append_nil]
  cases hb : acceptsMediaType accept c.mediaType with
  | true =>
      obtain ⟨hblob, rfl⟩ := haccepted hb
      obtain ⟨call, hcall, hop⟩ := getBlob_reads hblob
      simp only [iff_true]
      exact ⟨⟨call, List.mem_append_right _ hcall, hop⟩, rfl⟩
  | false =>
      have hupstream := hrefused hb
      have hnot₁ := ((getTagPointer_reads state.crates.json ⟨c.proxyHost, c.target.fullName⟩
        c.reference c.pointer.digest).follows hpointer.follows).1
      have hnot₂ := ((upstreamManifest_notGet c.proxyHost c.target c.reference false accept).follows
        hupstream.follows).1
      simp only [Bool.false_eq_true, iff_false]
      intro ⟨⟨call, hcall, hop⟩, _⟩
      rcases List.mem_append.mp hcall with hcall | hcall
      · exact hnot₁ call hcall hop
      · have hng := hnot₂ call hcall
        rw [hop] at hng
        exact hng

/-- The use of the cache follows the client's list where nothing is disputed. Without
quoted separators it also does so where both of the other conditions fail, but never where
one of them fails alone. -/
theorem usesCached_acceptable (h : Stored state decode W s req c) {lines : List Str}
    (hl : HeaderMap.getAll req.headers (str "accept") = lines.map lineValue)
    {cs : List (Call Op Ans)} {a : Except AppError Answer} {t : S}
    (hr : Runs W (ociDispatch state decode debug req) s cs a t) :
    (Undisputed lines c.mediaType → (UsesCached state c cs a ↔ Acceptable lines c.mediaType)) ∧
    (Unquoted lines → ((UsesCached state c cs a ↔ Acceptable lines c.mediaType) ↔
      (Ranked (mediaRanges lines) c.mediaType ↔ FirstOffers lines c.mediaType))) := by
  have hm : c.mediaType ∈ manifestMediaTypes := normalized_mem h.mediaType
  rw [usesCached_iff h hr, HeaderMap.get, hl]
  exact ⟨fun hd => (follows_iff hm hd.unquoted).mpr (iff_of_true hd.ranked hd.first),
    follows_iff hm⟩

end Runs

section Instances

/-- The alias of the team, which keeps what it has read. -/
def cachingState : AppState :=
  {teamState with
    cfg := {plainConfig with aliases := collect [(str "team",
      ⟨.oci (str "registry.example.com:5000") (str "acme/charts"), true, .none, false⟩)]}}

def demoTag : CachedTag where
  proxyHost := str "proxy.test"
  name := str "team/demo"
  reference := str "1.0"
  target := ⟨str "registry.example.com:5000", str "acme/charts/demo", str "team/demo", true,
    .none, false⟩
  pointer := ⟨emptyDigest, mediaTypeManifest, 2⟩
  mediaType := mediaTypeManifest
  blob := ⟨⟨2, none⟩, [.ok (Utf8.asBytes (str "\x7b\x7d"))]⟩

/-- A storage that holds the pointer and the blob and takes nothing in. -/
def demoAnswer : (op : Op) → Unit → Ans op × Unit
  | .get path, _ =>
    (if path = blobKey demoTag.pointer.digest then
      .ok ⟨2, none, [.ok (Utf8.asBytes (str "\x7b\x7d"))]⟩
    else if path = str "tags/proxy.test/team/demo/1.0" then
      .ok ⟨(encodePointer demoTag.pointer).length, none, [.ok (encodePointer demoTag.pointer)]⟩
    else .error .notFound, ())
  | op, _ => (someAnswer op, ())

def demoWorld : World Op Ans Unit := fun op s r t => (r, t) = demoAnswer op s

def demoRequest (lines : List Str) : ClientRequest :=
  ⟨some .get, str "/v2/team/demo/manifests/1.0", none,
    (str "host", .text (str "proxy.test")) :: lines.map fun line => (str "accept", lineValue line),
    none⟩

theorem demo_stored (lines : List Str) :
    Stored cachingState asciiDecoder demoWorld () (demoRequest lines) demoTag where
  method := rfl
  routed := rfl
  host := by
    have hhost : normalizeProxyHost (str "proxy.test") = some (str "proxy.test") := by decide
    exact hhost
  path := by
    have hpath : parseOciPath asciiDecoder (str "/v2/team/demo/manifests/1.0") =
        .manifest (str "team/demo") (str "1.0") := by decide +kernel
    exact hpath
  tag := by decide
  target := by decide +kernel
  store := rfl
  pointer := by
    intro cs r t h
    have hpath : storagePath .tagRead (tagKey ⟨demoTag.proxyHost, demoTag.target.fullName⟩
        demoTag.reference) = .ok (str "tags/proxy.test/team/demo/1.0") := by decide +kernel
    have hkey : str "tags/proxy.test/team/demo/1.0" ≠ blobKey demoTag.pointer.digest := by decide
    have hsize : ¬ ObjectStore.maxTagPointerBytes < (encodePointer demoTag.pointer).length := by
      decide +kernel
    have hjson : cachingState.crates.json.pointer (encodePointer demoTag.pointer) =
        some demoTag.pointer := (compactJson_laws _).pointer _ (by decide) (by decide)
    change Runs _ (ObjectStore.getTagPointer cachingState.crates.json _ _) _ _ _ _ at h
    unfold ObjectStore.getTagPointer at h
    rw [hpath, liftResult_ok_bind, perform_bind] at h
    obtain ⟨x, m, ds, hget, h, rfl⟩ := runs_call_iff.mp h
    obtain ⟨rfl, rfl⟩ := Prod.mk.inj (hget.trans (by rw [demoAnswer, if_neg hkey, if_pos rfl]))
    dsimp only at h
    rw [if_neg hsize] at h
    rw [ObjectStore.readPointerChunks, if_neg (by simpa using hsize)] at h
    rw [ObjectStore.readPointerChunks, liftResult_ok_bind] at h
    obtain ⟨-, rfl, rfl⟩ := runs_pure_iff.mp h
    exact ⟨congrArg Except.ok hjson, rfl⟩
  mediaType := by decide
  blob := by
    intro cs r t h
    change Runs _ (ObjectStore.getBlob _) _ _ _ _ at h
    unfold ObjectStore.getBlob at h
    rw [storagePath_blobKey, liftResult_ok_bind, perform_bind] at h
    obtain ⟨x, m, ds, hget, h, rfl⟩ := runs_call_iff.mp h
    obtain ⟨rfl, rfl⟩ := Prod.mk.inj (hget.trans (by rw [demoAnswer, if_pos rfl]))
    obtain ⟨-, rfl, rfl⟩ := runs_pure_iff.mp h
    exact ⟨rfl, rfl⟩

theorem demo_runs {A : Type} (p : Program Op Ans A) : ∃ cs a, Runs demoWorld p () cs a () := by
  obtain ⟨cs, hr⟩ := @runs_exec Op Ans A Unit demoWorld demoAnswer (fun _ _ => rfl) p ()
  exact ⟨cs, _, hr⟩

/-- Two lines, of which the second refuses all but what the first offers. -/
def politeLines : List Str := [str "text/plain, application/*;q=0.5", str "*/*;q=0"]

theorem politeLines_undisputed : Undisputed politeLines mediaTypeManifest where
  unquoted := by
    constructor
    · decide
    · decide +kernel
    · decide +kernel
  ranked := by
    have hranges : mediaRanges politeLines = [⟨str "text/plain", []⟩,
        ⟨str "application/*", [str "q=0.5"]⟩, ⟨str "*/*", [str "q=0"]⟩] := by decide +kernel
    have hrefused : ∀ r ∈ mediaRanges politeLines, r.offered = false →
        ∀ n ∈ r.specificity mediaTypeManifest, n ≤ 1 := by
      rw [hranges]
      decide +kernel
    intro _ r hr n hn ho
    refine ⟨⟨str "application/*", [str "q=0.5"]⟩, ?_, 1, ?_, ?_, hrefused r hr ho n hn⟩
    · rw [hranges]
      exact List.mem_cons_of_mem _ List.mem_cons_self
    · decide +kernel
    · decide +kernel
  first := by
    intro _ first hf
    obtain rfl : str "text/plain, application/*;q=0.5" = first := Option.some.inj hf
    exact ⟨⟨str "application/*", [str "q=0.5"]⟩, by decide +kernel, by decide +kernel, 1,
      by decide +kernel⟩

theorem politeLines_follow : ∃ cs a, Runs demoWorld
      (ociDispatch cachingState asciiDecoder id (demoRequest politeLines)) () cs a () ∧
    (UsesCached cachingState demoTag cs a ↔ Acceptable politeLines mediaTypeManifest) ∧
    (Ranked (mediaRanges politeLines) mediaTypeManifest ↔
      FirstOffers politeLines mediaTypeManifest) := by
  obtain ⟨cs, a, hr⟩ := demo_runs (ociDispatch cachingState asciiDecoder id
    (demoRequest politeLines))
  have haccept : HeaderMap.getAll (demoRequest politeLines).headers (str "accept") =
      politeLines.map lineValue := rfl
  obtain ⟨hfollows, hexact⟩ := usesCached_acceptable (demo_stored _) haccept hr
  have hused := hfollows politeLines_undisputed
  exact ⟨cs, a, hr, hused, (hexact politeLines_undisputed.unquoted).mp hused⟩

/-- The type of the cached manifest is refused and any other is taken, and it is sent. -/
theorem refused_type_is_sent : ∃ cs a, Runs demoWorld
      (ociDispatch cachingState asciiDecoder id
        (demoRequest [mediaTypeManifest ++ str ";q=0, */*"])) () cs a () ∧
    UsesCached cachingState demoTag cs a ∧
    ¬ Acceptable [mediaTypeManifest ++ str ";q=0, */*"] mediaTypeManifest := by
  have hranges : mediaRanges [mediaTypeManifest ++ str ";q=0, */*"] =
      [⟨mediaTypeManifest, [str "q=0"]⟩, ⟨str "*/*", []⟩] := by decide +kernel
  have hlevels : (MediaRange.specificity mediaTypeManifest ⟨mediaTypeManifest, [str "q=0"]⟩ =
      some 2 ∧ MediaRange.offered ⟨mediaTypeManifest, [str "q=0"]⟩ = false) ∧
      MediaRange.specificity mediaTypeManifest ⟨str "*/*", []⟩ = some 0 := by decide +kernel
  obtain ⟨cs, a, hr⟩ := demo_runs (ociDispatch cachingState asciiDecoder id
    (demoRequest [mediaTypeManifest ++ str ";q=0, */*"]))
  refine ⟨cs, a, hr, (usesCached_iff (demo_stored _) hr).mpr (by decide +kernel), ?_⟩
  intro h
  rcases h with h | ⟨r, hr, n, hn, ho, hall⟩
  · cases h
  · rw [hranges] at hr hall
    have htwo := hall _ List.mem_cons_self 2 hlevels.1.1
    rcases List.mem_pair.mp hr with rfl | rfl
    · rw [hlevels.1.2] at ho
      cases ho
    · rw [hlevels.2] at hn
      cases hn
      omega

end Instances

end Helmoci.AcceptedRanges
