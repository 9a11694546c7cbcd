import Helmoci.HandlerCalls
import Helmoci.StoreWorlds
import Helmoci.UpstreamPaths

/-!
# Blobs that are passed on

What the readers make of a body depends on the bytes in front of its end or of the error
with which it breaks off, and not on the chunks in which they come. A blob within the
limit is held, hashed and stored, a larger one is sent on, and both are sent as they came.
-/
namespace Helmoci.ProxiedBlobs
open RustText UrlInterface OciDigest NameResolver JsonDocuments ServerErrors EffectPrograms
  ServerOperations UpstreamRequests RegistryTokens BlobStorage RegistryResponses ServerState
  ManifestMediaTypes PassthroughHandler StoredEntries HandlerCalls StoreWorlds UpstreamPaths
  PlainCrates

section Bodies
variable {E F : Type}

/-- The bytes of a body, and the error with which it breaks off. -/
def collected : List (Except E Bytes) → Bytes × Option E
  | [] => ([], none)
  | .error e :: _ => ([], some e)
  | .ok chunk :: chunks => (chunk ++ (collected chunks).1, (collected chunks).2)

theorem collected_pieces (pieces : List Bytes) :
    collected (pieces.map (.ok : Bytes → Except E Bytes)) = (pieces.flatten, none) := by
  induction pieces with
  | nil => rfl
  | cons piece pieces ih => rw [List.map_cons, collected, ih, List.flatten_cons]

theorem collected_broken (pieces : List Bytes) (e : E) (more : List (Except E Bytes)) :
    collected (pieces.map .ok ++ .error e :: more) = (pieces.flatten, some e) := by
  induction pieces with
  | nil => rfl
  | cons piece pieces ih =>
      rw [List.map_cons, List.cons_append, collected, ih, List.flatten_cons]

theorem collected_mapError (f : E → F) (chunks : List (Except E Bytes)) :
    collected (chunks.map fun chunk => chunk.mapError f) =
      ((collected chunks).1, (collected chunks).2.map f) := by
  induction chunks with
  | nil => rfl
  | cons chunk chunks ih =>
      cases chunk with
      | error e => rfl
      | ok chunk =>
          change (_, _) = (_, _)
          rw [ih]
          rfl

/-- What a reader with this limit makes of an upstream's blob. -/
structure UpstreamRead (limit : ℕ) (chunks : List (Except Str Bytes))
    (r : Except AppError UpstreamBlob) : Prop where
  buffered : (collected chunks).2 = none → (collected chunks).1.length ≤ limit →
    r = .ok (.buffered (collected chunks).1)
  oversized : limit < (collected chunks).1.length → ∃ readSoFar rest,
    r = .ok (.oversized readSoFar rest) ∧ readSoFar.length = limit ∧
      (readSoFar ++ (collected rest).1, (collected rest).2) = collected chunks
  failed : ∀ e, (collected chunks).2 = some e → (collected chunks).1.length ≤ limit →
    r = .error (.upstream (str "reading upstream blob failed: " ++ e))

theorem readUpstreamChunks_fits {limit : ℕ} (data : Bytes) (chunks : List (Except Str Bytes))
    (h : data.length + (collected chunks).1.length ≤ limit) :
    readUpstreamChunks limit data chunks = match (collected chunks).2 with
      | none => .ok (.buffered (data ++ (collected chunks).1))
      | some e => .error (.upstream (str "reading upstream blob failed: " ++ e)) := by
  induction chunks generalizing data with
  | nil => simp [readUpstreamChunks, collected]
  | cons chunk chunks ih =>
      cases chunk with
      | error e => rfl
      | ok chunk =>
          simp only [collected, List.length_append] at h
          have hroom : ¬ limit - data.length < chunk.length := by omega
          rw [readUpstreamChunks, if_neg hroom, ih _ (by simp only [List.length_append]; omega)]
          simp only [collected, List.append_assoc]

theorem readUpstreamChunks_over {limit : ℕ} (data : Bytes) (chunks : List (Except Str Bytes))
    (hd : data.length ≤ limit) (h : limit < data.length + (collected chunks).1.length) :
    ∃ readSoFar rest, readUpstreamChunks limit data chunks = .ok (.oversized readSoFar rest) ∧
      readSoFar.length = limit ∧ readSoFar ++ (collected rest).1 = data ++ (collected chunks).1 ∧
      (collected rest).2 = (collected chunks).2 := by
  induction chunks generalizing data with
  | nil =>
      simp only [collected, List.length_nil] at h
      omega
  | cons chunk chunks ih =>
      cases chunk with
      | error e =>
          simp only [collected, List.length_nil] at h
          omega
      | ok chunk =>
          simp only [collected, List.length_append] at h
          by_cases hroom : limit - data.length < chunk.length
          · refine ⟨_, _, if_pos hroom, ?_, ?_, rfl⟩
            · simp only [List.length_append, List.length_take]
              omega
            · simp only [collected, List.append_assoc]
              rw [← List.append_assoc (chunk.take _), List.take_append_drop]
          · rw [readUpstreamChunks, if_neg hroom]
            have hlen : (data ++ chunk).length = data.length + chunk.length := List.length_append
            obtain ⟨readSoFar, rest, hr, hlimit, hbytes, herror⟩ :=
              ih (data ++ chunk) (by omega) (by omega)
            refine ⟨readSoFar, rest, hr, hlimit, ?_, herror⟩
            rw [hbytes, collected, List.append_assoc]

/-- The reader depends on the bytes and the error alone. -/
theorem readUpstreamChunks_spec (limit : ℕ) (chunks : List (Except Str Bytes)) :
    UpstreamRead limit chunks (readUpstreamChunks limit [] chunks) := by
  have hfits := @readUpstreamChunks_fits limit [] chunks
  simp only [List.length_nil, Nat.zero_add, List.nil_append] at hfits
  constructor
  · intro he hlen
    rw [hfits hlen, he]
  · intro hlen
    obtain ⟨readSoFar, rest, hr, hlimit, hbytes, herror⟩ :=
      readUpstreamChunks_over [] chunks (Nat.zero_le limit) (by simpa using hlen)
    exact ⟨readSoFar, rest, hr, hlimit, Prod.ext hbytes herror⟩
  · intro e he hlen
    rw [hfits hlen, he]

/-- The contents of the reader's buffer, one after another. -/
def readBuffers (maxBytes : ℕ) : Bytes → List (Except E Bytes) → List Bytes
  | bytes, .ok chunk :: chunks =>
    bytes :: if maxBytes < bytes.length + chunk.length then []
      else readBuffers maxBytes (bytes ++ chunk) chunks
  | bytes, _ => [bytes]

/-- A length that is advertised is the body's. -/
def Advertises (advertised : Option ℕ) (body : Bytes) : Prop := ∀ n ∈ advertised, n = body.length

/-- What a bounded reader makes of a body of this advertised length. -/
structure BoundedRead (maxBytes : ℕ) (mapError : E → AppError) (advertised : Option ℕ)
    (data : List (Except E Bytes)) (r : Except AppError Bytes) : Prop where
  whole : (collected data).2 = none → Advertises advertised (collected data).1 →
    (collected data).1.length ≤ maxBytes → r = .ok (collected data).1
  tooLarge : (collected data).2 = none → Advertises advertised (collected data).1 →
    maxBytes < (collected data).1.length → ∃ text, r = .error (.tooLarge text)
  failed : ∀ e, (collected data).2 = some e →
    r = .error (mapError e) ∨ ∃ text, r = .error (.tooLarge text)
  bounded : ∀ bytes ∈ readBuffers maxBytes [] data, bytes.length ≤ maxBytes
  last : ∀ bytes, r = .ok bytes → (readBuffers maxBytes [] data).getLast? = some bytes

theorem readChunks_fits {maxBytes : ℕ} (mapError : E → AppError) (bytes : Bytes)
    (data : List (Except E Bytes)) (h : bytes.length + (collected data).1.length ≤ maxBytes) :
    readChunks maxBytes mapError bytes data = match (collected data).2 with
      | none => .ok (bytes ++ (collected data).1)
      | some e => .error (mapError e) := by
  induction data generalizing bytes with
  | nil => simp [readChunks, collected]
  | cons chunk data ih =>
      cases chunk with
      | error e => rfl
      | ok chunk =>
          simp only [collected, List.length_append] at h
          have hroom : ¬ maxBytes < bytes.length + chunk.length := by omega
          rw [readChunks, if_neg hroom, ih _ (by simp only [List.length_append]; omega)]
          simp only [collected, List.append_assoc]

theorem readChunks_over {maxBytes : ℕ} (mapError : E → AppError) (bytes : Bytes)
    (data : List (Except E Bytes)) (hb : bytes.length ≤ maxBytes)
    (h : maxBytes < bytes.length + (collected data).1.length) :
    ∃ text, readChunks maxBytes mapError bytes data = .error (.tooLarge text) := by
  induction data generalizing bytes with
  | nil =>
      simp only [collected, List.length_nil] at h
      omega
  | cons chunk data ih =>
      cases chunk with
      | error e =>
          simp only [collected, List.length_nil] at h
          omega
      | ok chunk =>
          simp only [collected, List.length_append] at h
          by_cases hroom : maxBytes < bytes.length + chunk.length
          · exact ⟨_, if_pos hroom⟩
          · rw [readChunks, if_neg hroom]
            have hlen : (bytes ++ chunk).length = bytes.length + chunk.length := List.length_append
            exact ih (bytes ++ chunk) (by omega) (by omega)

theorem readBuffers_bounded {maxBytes : ℕ} (bytes : Bytes) (data : List (Except E Bytes))
    (hb : bytes.length ≤ maxBytes) :
    ∀ b ∈ readBuffers maxBytes bytes data, b.length ≤ maxBytes := by
  induction data generalizing bytes with
  | nil => simpa [readBuffers] using hb
  | cons chunk data ih =>
      cases chunk with
      | error e => simpa [readBuffers] using hb
      | ok chunk =>
          intro b hmem
          rcases List.mem_cons.mp hmem with rfl | hmem
          · exact hb
          · split at hmem
            · cases hmem
            · rename_i hroom
              exact ih (bytes ++ chunk) (by rw [List.length_append]; omega) b hmem

theorem readBuffers_last {maxBytes : ℕ} (mapError : E → AppError) (bytes : Bytes)
    (data : List (Except E Bytes)) {b : Bytes}
    (h : readChunks maxBytes mapError bytes data = .ok b) :
    (readBuffers maxBytes bytes data).getLast? = some b := by
  induction data generalizing bytes with
  | nil =>
      cases h
      rfl
  | cons chunk data ih =>
      cases chunk with
      | error e => cases h
      | ok chunk =>
          rw [readChunks] at h
          rw [readBuffers]
          split at h
          · cases h
          · rename_i hroom
            rw [if_neg hroom, List.getLast?_cons, ih _ h]
            rfl

theorem readBounded_spec (maxBytes : ℕ) (mapError : E → AppError) (advertised : Option ℕ)
    (data : List (Except E Bytes)) :
    BoundedRead maxBytes mapError advertised data
      (readBounded maxBytes mapError advertised data) := by
  have hfits := @readChunks_fits _ maxBytes mapError [] data
  have hover := @readChunks_over _ maxBytes mapError [] data (Nat.zero_le _)
  simp only [List.length_nil, Nat.zero_add, List.nil_append] at hfits hover
  constructor
  · intro he ha hlen
    have hadvertised : ¬ advertised.any (maxBytes < ·) = true := by
      cases advertised with
      | none => simp
      | some n =>
          have hn := ha n rfl
          simp
          omega
    rw [readBounded, if_neg hadvertised, hfits hlen, he]
  · intro he ha hlen
    unfold readBounded
    split
    · exact ⟨_, rfl⟩
    · exact hover hlen
  · intro e he
    unfold readBounded
    split
    · exact Or.inr ⟨_, rfl⟩
    · by_cases hlen : (collected data).1.length ≤ maxBytes
      · rw [hfits hlen, he]
        exact Or.inl rfl
      · exact Or.inr (hover (by omega))
  · exact readBuffers_bounded [] data (Nat.zero_le _)
  · intro bytes hr
    unfold readBounded at hr
    split at hr
    · cases hr
    · exact readBuffers_last mapError [] data hr

end Bodies

section Headers

/-- What is read as text is a header value. -/
def Readable (headers : HeaderMap) : Prop :=
  ∀ p ∈ headers, ∀ s, p.2.toStr = some s → HeaderValue.fromStr s = some (.text s)

theorem headerStr_text {response : HttpResponse} (h : Readable response.headers) {name s : Str}
    (hs : headerStr response name = some s) : HeaderValue.fromStr s = some (.text s) := by
  obtain ⟨v, hv, hs⟩ := Option.bind_eq_some_iff.mp hs
  obtain ⟨p, hp, rfl⟩ := List.mem_map.mp (List.mem_of_mem_head? hv)
  exact h p (List.mem_filter.mp hp).1 s hs

theorem fromStr_of_forall {s : Str} (h : ∀ c ∈ s, 32 ≤ c.toNat ∧ c.toNat < 127) :
    HeaderValue.fromStr s = some (.text s) := by
  unfold HeaderValue.fromStr
  rw [if_pos, if_pos]
  · rw [List.all_eq_true]
    intro c hc
    have hrange := h c hc
    simp
    omega
  · rw [List.all_eq_true]
    intro c hc
    have hrange := h c hc
    simp
    omega

theorem fromStr_decimal (n : ℕ) : HeaderValue.fromStr (decimal n) = some (.text (decimal n)) := by
  apply fromStr_of_forall
  intro c hc
  have hdigit := isDigit_decimal n c hc
  simp [Char.isDigit, UInt32.le_iff_toNat_le] at hdigit
  omega

theorem fromStr_digest (d : Digest) : HeaderValue.fromStr d.asStr = some (.text d.asStr) := by
  obtain ⟨hexPart, hx, -, hd⟩ := d.asStr_eq
  have hhex : ∀ c, isLowerHex c = true → 32 ≤ c.toNat ∧ c.toNat < 127 := by
    intro c hc
    exact ascii_forall (P := fun c => isLowerHex c = true → 32 ≤ c.toNat ∧ c.toNat < 127)
      (by decide) (toNat_lt_of_isLowerHex hc) hc
  have hprefix : (str "sha256:").all (fun c => 32 ≤ c.toNat && c.toNat < 127) = true := by decide
  apply fromStr_of_forall
  intro c hc
  rw [hd] at hc
  rcases List.mem_append.mp hc with hc | hc
  · simpa using List.all_eq_true.mp hprefix c hc
  · exact hhex c (List.all_eq_true.mp hx c hc)

theorem buildResponse_text {headers : List (Str × Str)}
    (h : ∀ p ∈ headers, HeaderValue.fromStr p.2 = some (.text p.2))
    (body : List (Except AppError Bytes)) :
    ∃ values, buildResponse headers body = .ok ⟨200, values, body⟩ := by
  have hvalues : ∃ values, (headers.mapM fun p =>
      (HeaderValue.fromStr p.2).map fun value => (p.1, value)) = some values := by
    induction headers with
    | nil => exact ⟨[], rfl⟩
    | cons p headers ih =>
        obtain ⟨values, hv⟩ := ih fun q hq => h q (List.mem_cons_of_mem p hq)
        refine ⟨(p.1, .text p.2) :: values, ?_⟩
        rw [List.mapM_cons, h p List.mem_cons_self, hv]
        rfl
  obtain ⟨values, hv⟩ := hvalues
  refine ⟨values, ?_⟩
  rw [buildResponse, hv]

/-- The media type of an upstream's answer. -/
def upstreamContentType (response : HttpResponse) : Str :=
  (headerStr response (str "content-type")).getD octetStreamMediaType

theorem upstreamContentType_text {response : HttpResponse} (h : Readable response.headers) :
    HeaderValue.fromStr (upstreamContentType response) =
      some (.text (upstreamContentType response)) := by
  unfold upstreamContentType
  cases hs : headerStr response (str "content-type") with
  | none => decide
  | some s => exact headerStr_text h hs

theorem streamedBlob_ok {response : HttpResponse} (h : Readable response.headers)
    (digest : Digest) (body : List (Except AppError Bytes)) :
    ∃ values, streamedBlob response digest (upstreamContentType response) body =
      .ok ⟨200, values, body⟩ := by
  apply buildResponse_text
  intro p hp
  simp only [List.mem_cons, List.mem_append, List.mem_map, Option.mem_toList] at hp
  rcases hp with rfl | rfl | rfl | ⟨n, -, rfl⟩ | ⟨etag, hetag, rfl⟩
  · exact upstreamContentType_text h
  · exact fromStr_digest digest
  · decide
  · exact fromStr_decimal n
  · exact headerStr_text h hetag

theorem blobBytesResponse_ok {contentType : Str}
    (h : HeaderValue.fromStr contentType = some (.text contentType)) (digest : Digest)
    (data : Bytes) : ∃ values, blobBytesResponse contentType digest data false =
      ⟨200, values, [.ok data]⟩ := by
  unfold blobBytesResponse contentResponse base
  rw [h]
  exact ⟨_, rfl⟩

end Headers

section Answers
variable {S : Type} {W : World Op Ans S} {state : AppState} {s t : S} {digest : Digest}

/-- A whole body within the limit whose hash is right. -/
def Keepable (state : AppState) (digest : Digest) (body : Bytes) (broken : Option Str) : Prop :=
  broken = none ∧ body.length ≤ state.cfg.settings.maxChartBytes ∧
    state.crates.sha256 body = digest

/-- The answer sends these bytes and ends. -/
def Sends (body : Bytes) (r : Except AppError Response) : Prop :=
  ∃ answer, r = .ok answer ∧ answer.status = 200 ∧ collected answer.body = (body, none)

/-- The answer to a request for an upstream body of these bytes, behind the upstream's answer. -/
structure PassedOn (W : World Op Ans S) (state : AppState) (digest : Digest) (body : Bytes)
    (broken : Option Str) (s : S) (cs : List (Call Op Ans)) (r : Except AppError Response)
    (t : S) : Prop where
  oversized : broken = none → state.cfg.settings.maxChartBytes < body.length → Sends body r
  refused : broken = none → body.length ≤ state.cfg.settings.maxChartBytes →
    state.crates.sha256 body ≠ digest → ∃ e, r = .error e
  kept : Keepable state digest body broken → ∃ contentType written,
    Runs W (state.storage.putBlob digest contentType body) s cs written t ∧
      (written = .ok () → Sends body r) ∧ ∀ e, written = .error e → r = .error e
  untouched : ¬ Keepable state digest body broken → cs = [] ∧ t = s
  failed : ∀ e, broken = some e → (∃ e, r = .error e) ∨
    ∃ answer e, r = .ok answer ∧ collected answer.body = (body, some e)

/-- The whole body is sent on, as it comes. -/
theorem passedOn_streamed {response : HttpResponse} (hreadable : Readable response.headers)
    {sent : List (Except AppError Bytes)} {e : Option AppError} {body : Bytes} {broken : Option Str}
    (hsent : collected sent = (body, e)) (he : e = none ↔ broken = none)
    (hlimit : broken = none → state.cfg.settings.maxChartBytes < body.length) :
    PassedOn W state digest body broken s []
      (streamedBlob response digest (upstreamContentType response) sent) s := by
  obtain ⟨values, hv⟩ := streamedBlob_ok hreadable digest sent
  rw [hv]
  constructor
  · intro hb _
    exact ⟨_, rfl, rfl, by rw [hsent, he.mpr hb]⟩
  · intro hb hlen
    have hover := hlimit hb
    omega
  · intro ⟨hb, hlen, _⟩
    have hover := hlimit hb
    omega
  · intro _
    exact ⟨rfl, rfl⟩
  · intro e' hb
    cases e with
    | none =>
        rw [he.mp rfl] at hb
        cases hb
    | some e => exact Or.inr ⟨_, e, rfl, hsent⟩

/-- A body that is not kept ends in an error if it is whole and within the limit. -/
theorem passedOn_error {body : Bytes} {broken : Option Str} (e : AppError)
    (hlen : body.length ≤ state.cfg.settings.maxChartBytes)
    (hkeep : ¬ Keepable state digest body broken) :
    PassedOn W state digest body broken s [] (.error e) s := by
  constructor
  · intro _ hover
    omega
  · intro _ _ _
    exact ⟨e, rfl⟩
  · intro h
    exact (hkeep h).elim
  · intro _
    exact ⟨rfl, rfl⟩
  · intro _ _
    exact Or.inl ⟨e, rfl⟩

theorem storedBlob_passesOn {response : HttpResponse} (hreadable : Readable response.headers)
    {body : Bytes} {broken : Option Str} (hbody : collected response.chunks = (body, broken))
    {cs : List (Call Op Ans)} {r : Except AppError Response}
    (hr : Runs W (storedBlob state response digest (upstreamContentType response)) s cs r t) :
    PassedOn W state digest body broken s cs r t := by
  have hread := readUpstreamChunks_spec state.cfg.settings.maxChartBytes response.chunks
  unfold storedBlob at hr
  by_cases hover : state.cfg.settings.maxChartBytes < body.length
  · obtain ⟨readSoFar, rest, hread, -, hrest⟩ := hread.oversized (by rwa [hbody])
    rw [hread, liftResult_ok_bind] at hr
    obtain ⟨rfl, rfl, rfl⟩ := runs_liftResult hr
    have hsent : collected (.ok readSoFar :: upstreamChunks rest) =
        (body, broken.map AppError.upstream) := by
      rw [hbody] at hrest
      obtain ⟨rfl, rfl⟩ := Prod.mk.inj hrest
      rw [collected, upstreamChunks, collected_mapError]
    exact passedOn_streamed hreadable hsent (by simp) fun _ => hover
  · have hlen := Nat.not_lt.mp hover
    cases broken with
    | some e =>
        have hfailed := hread.failed e (by rw [hbody]) (by rw [hbody]; exact hlen)
        rw [hfailed, liftResult_error_bind] at hr
        obtain ⟨rfl, rfl, rfl⟩ := runs_liftResult hr
        exact passedOn_error _ hlen fun h => nomatch h.1
    | none =>
        have hbuffered := hread.buffered (by rw [hbody]) (by rw [hbody]; exact hlen)
        rw [hbuffered, liftResult_ok_bind, hbody] at hr
        dsimp only at hr
        split at hr
        · rename_i hhash
          obtain ⟨rfl, rfl, rfl⟩ := runs_pure_iff.mp hr
          exact passedOn_error _ hlen fun h => hhash h.2.2
        · rename_i hhash
          have hkeep : Keepable state digest body none := ⟨rfl, hlen, not_not.mp hhash⟩
          obtain ⟨cs₁, written, m, cs₂, hput, hrest, rfl⟩ := runs_bind_iff.mp hr
          have hend : cs₂ = [] ∧ t = m ∧ (written = .ok () → Sends body r) ∧
              ∀ e, written = .error e → r = .error e := by
            cases written with
            | error e =>
                obtain ⟨rfl, rfl, rfl⟩ := runs_pure_iff.mp hrest
                exact ⟨rfl, rfl, nofun, fun e he => by cases he; rfl⟩
            | ok _ =>
                obtain ⟨rfl, rfl, rfl⟩ := runs_pure_iff.mp hrest
                obtain ⟨values, hv⟩ := blobBytesResponse_ok (upstreamContentType_text hreadable)
                  digest body
                exact ⟨rfl, rfl, fun _ => ⟨_, congrArg Except.ok hv, rfl, by simp [collected]⟩,
                  nofun⟩
          obtain ⟨rfl, rfl, hsends, herror⟩ := hend
          rw [List.append_nil]
          constructor
          · intro _ h
            exact (hover h).elim
          · intro _ _ h
            exact (h hkeep.2.2).elim
          · intro _
            exact ⟨_, written, hput, hsends, herror⟩
          · intro h
            exact (h hkeep).elim
          · nofun

/-- What the handler does with the upstream's answer, whatever chunks its body has. -/
theorem relayBlob_passesOn {target : OciTarget} (hstore : target.store = true)
    {response : HttpResponse} (hsuccess : response.isSuccess = true)
    (hreadable : Readable response.headers) {body : Bytes} {broken : Option Str}
    (hbody : collected response.chunks = (body, broken))
    (hadvertised : broken = none → Advertises response.contentLength body)
    {cs : List (Call Op Ans)} {r : Except AppError Response}
    (hr : Runs W (relayBlob state target digest false response) s cs r t) :
    PassedOn W state digest body broken s cs r t := by
  have hfound : response.status ≠ 404 := by
    intro h
    simp [HttpResponse.isSuccess, h] at hsuccess
  unfold relayBlob at hr
  rw [if_neg hfound, if_neg (by simp [hsuccess])] at hr
  dsimp only at hr
  rw [if_neg Bool.false_ne_true, hstore, Bool.true_and] at hr
  by_cases hover : response.contentLength.any (state.cfg.settings.maxChartBytes < ·) = true
  · rw [if_neg (by simp [hover])] at hr
    obtain ⟨rfl, rfl, rfl⟩ := runs_liftResult hr
    have hsent : collected (upstreamChunks response.chunks) =
        (body, broken.map AppError.upstream) := by
      rw [upstreamChunks, collected_mapError, hbody]
    refine passedOn_streamed hreadable hsent (by simp) ?_
    intro hb
    obtain ⟨n, hn, hlimit⟩ := (Option.any_eq_true _ _).mp hover
    rw [← hadvertised hb n hn]
    exact of_decide_eq_true hlimit
  · rw [if_pos (by simpa using hover)] at hr
    exact storedBlob_passesOn hreadable hbody hr

/-- A run asks the storage, and where nothing is stored the upstream, whose answer it passes on. -/
def Proxied (W : World Op Ans S) (state : AppState) (target : OciTarget) (digest : Digest) (s : S)
    (cs : List (Call Op Ans)) (r : Except AppError Response) (t : S) : Prop :=
  ∃ cs₀ cached m, Runs W (state.storage.getBlob digest) s cs₀ cached m ∧
    (cached = .ok none → ∃ cs₁ x m' cs₂, cs = cs₀ ++ (cs₁ ++ cs₂) ∧
      Runs W (sendToUpstream state target false (str "blobs/" ++ digest.asStr) none) m cs₁ x m' ∧
      (∀ e, x = .error e → cs₂ = [] ∧ r = .error e ∧ t = m') ∧
      ∀ response body broken, x = .ok response → response.isSuccess = true →
        Readable response.headers → collected response.chunks = (body, broken) →
        (broken = none → Advertises response.contentLength body) →
        PassedOn W state digest body broken m' cs₂ r t)

end Answers

section Instances

def storingTarget : OciTarget :=
  ⟨str "registry.example.com:5000", str "acme/charts/demo", str "team/demo", true, .none, false⟩

/-- Two bytes in three chunks of which one is empty. -/
def threeChunks : HttpResponse := ⟨200, [], none, [.ok [123], .ok [], .ok [125]]⟩

/-- An empty storage that takes what it is given, and an upstream that sends the chunks. -/
def emptyAnswer : (op : Op) → State → Ans op × State
  | .put path data attributes _, s =>
    (.ok (), s.store path ⟨data, attributes.contentType, .passthrough⟩)
  | .http _, s => (.ok threeChunks, s)
  | op, s => (someAnswer op, s)

def emptyWorld : World Op Ans State := fun op s r t => (r, t) = emptyAnswer op s

theorem emptyAnswer_getBlob (d : Digest) :
    (ObjectStore.getBlob d).exec emptyAnswer State.empty = (.ok none, State.empty) := by
  unfold ObjectStore.getBlob
  rw [storagePath_blobKey]
  rfl

theorem emptyAnswer_putBlob (d : Digest) (contentType : Str) (data : Bytes) :
    (ObjectStore.putBlob d contentType data).exec emptyAnswer State.empty =
      (.ok (), State.empty.store (blobKey d) ⟨data, some contentType, .passthrough⟩) := by
  unfold ObjectStore.putBlob
  rw [storagePath_blobKey]
  rfl

/-- The upstream answers with the chunks. -/
theorem emptyWorld_send {cs : List (Call Op Ans)} {x : Except AppError HttpResponse} {m : State}
    (h : Runs emptyWorld (sendToUpstream teamState storingTarget false
      (str "blobs/" ++ emptyDigest.asStr) none) State.empty cs x m) :
    x = .ok threeChunks ∧ m = State.empty := by
  have hanswered : Ensures (fun op r => ∀ s, (r, s) = emptyAnswer op s) RegistryOp
      (OnOk (AnswersHttp fun op r => ∀ s, (r, s) = emptyAnswer op s))
      (sendToUpstream teamState storingTarget false
        (str "blobs/" ++ emptyDigest.asStr) none) :=
    sendUpstream_registryOp ..
  have hworld : ∀ op, RegistryOp op → (∃ r, emptyWorld op State.empty r State.empty) ∧
      ∀ r t, emptyWorld op State.empty r t →
        (∀ s, (r, s) = emptyAnswer op s) ∧ t = State.empty := by
    intro op hop
    cases op with
    | http request =>
        refine ⟨⟨_, rfl⟩, ?_⟩
        intro r t hr
        obtain ⟨rfl, rfl⟩ := Prod.mk.inj hr
        exact ⟨fun _ => rfl, rfl⟩
    | liveToken _ | insertToken _ _ | gcpAccessToken =>
        refine ⟨⟨_, rfl⟩, ?_⟩
        intro r t hr
        obtain ⟨rfl, rfl⟩ := Prod.mk.inj hr
        exact ⟨fun _ => rfl, rfl⟩
    | _ => exact hop.elim
  obtain ⟨⟨hok, rfl⟩, -⟩ := (hanswered.meets hworld).runs h
  have hexec := exec_of_runs (fun _ _ _ _ h => h) h
  have hsome : (Program.exec emptyAnswer (sendToUpstream teamState storingTarget false
      (str "blobs/" ++ emptyDigest.asStr) none) State.empty).1.toOption.isSome =
        true := by decide +kernel
  rw [← hexec] at hsome
  cases x with
  | error e => cases hsome
  | ok response =>
      obtain ⟨request, hr⟩ := hok
      exact ⟨congrArg Except.ok (Except.ok.inj (Prod.mk.inj (hr State.empty)).1), rfl⟩

end Instances

end Helmoci.ProxiedBlobs
