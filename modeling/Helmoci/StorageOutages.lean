import Helmoci.ManifestCourses

/-!
# Outages of a storage

A request that meets a failure of a storage ends with it as an internal error: a failing
read before anything is asked upstream or written, and a failing blob before the pointer.
Missing and unusable entries are no failures.
-/
namespace Helmoci.StorageOutages
open RustText OciDigest NameResolver JsonDocuments ServerErrors EffectPrograms ServerOperations
  UpstreamRequests ClassicUpstream BlobStorage RegistryResponses ChartBuild ServerState
  ClassicHandler StoredEntries HandlerCalls ProxiedBlobs PlainCrates ManifestCourses

section Outages
variable {S : Type} {W : World Op Ans S} {state : AppState} {persistent ephemeral store : Storage}
  {proxyHost : Str} {chart : ClassicChart} {reference : Str} {headOnly : Bool} {digest : Digest}
  {ending : Ending} {s t : S} {cs : List (Call Op Ans)} {r : Except AppError Response}

theorem noPointer_of_reads {op : Op} (h : Reads op) : NoPointer op := by
  cases op with
  | head _ | get _ | cacheGet _ => trivial
  | _ => exact h.elim

theorem fetchChart_noPointer : Ensures Anything NoPointer (OnOk fun _ => True)
    (fetchChart state chart reference) := by
  have hop : ∀ op, Sourced state.crates.url state.crates.sha256 Anything chart.repoUrl chart.source
      op → NoPointer op := by
    intro op hop
    cases op with
    | http _ | indexGet _ | indexInsert _ _ => trivial
    | _ => exact hop.elim
  unfold fetchChart
  refine ensures_bind ((fetchIndexText_sourced ..).conseq hop fun _ h => h) ?_
  intro index _
  refine ensures_bind (Q := fun _ => True) (ensures_liftResult fun _ _ => trivial) ?_
  intro chartUrl _
  exact (downloadChart_sourced ..).conseq hop fun r _ => onOk_true r

theorem putArtifact_noPointer (h : Promises store) (built : BuiltChart) :
    Ensures Anything NoPointer (OnOk fun _ => True) (putArtifact store built) := by
  have hwrite : ∀ digest contentType data, Ensures Anything NoPointer (fun _ => True)
      (store.putBlob digest contentType data) :=
    fun _ _ _ => (h.putBlob ..).conseq (fun _ hop => hop) fun _ _ => trivial
  have hjoin : ∀ {A B : Type} {p : Server A} {q : Server B},
      Ensures Anything NoPointer (fun _ => True) p → Ensures Anything NoPointer (fun _ => True) q →
      Ensures Anything NoPointer (fun _ => True) (tryJoinServer p q) := by
    intro A B p q hp hq
    exact Ensures.tryJoin trivial hp hq
  have hall := hjoin (hwrite built.configDigest mediaTypeHelmConfig built.configBytes)
    (hjoin (hwrite built.layerDigest mediaTypeHelmChart built.layerBytes)
      (hwrite built.manifestDigest mediaTypeManifest built.manifestBytes))
  refine ensures_bind (Q := fun _ => True) (hall.conseq (fun _ hop => hop) ?_) ?_
  · intro r _
    exact onOk_true r
  · intro _ _
    trivial

theorem digestCourse_surfaces (hp : Promises persistent) (he : Promises ephemeral)
    (h : DigestCourse W state persistent ephemeral headOnly digest ending s cs r t) :
    (∀ c ∈ cs, Reads c.op) ∧ (ending.failed = true → ∃ e, r = .error e ∧ Internal e) := by
  cases h with
  | persistentFails hget =>
      obtain ⟨hcalls, honly, -⟩ := hp.getBlob_runs hget
      exact ⟨hcalls, fun _ => ⟨_, rfl, honly _ rfl⟩⟩
  | ephemeralFails h₁ h₂ =>
      obtain ⟨hcalls, honly, -⟩ := he.getBlob_runs h₂
      exact ⟨List.forall_mem_append.mpr ⟨(hp.getBlob_runs h₁).1, hcalls⟩,
        fun _ => ⟨_, rfl, honly _ rfl⟩⟩
  | streamFails hfound hfails =>
      obtain ⟨hcalls, hinternal⟩ := hfound.reads hp he
      exact ⟨hcalls, fun _ => ⟨_, rfl, hinternal _ hfails.2.2⟩⟩
  | absent h₁ h₂ =>
      exact ⟨List.forall_mem_append.mpr ⟨(hp.getBlob_runs h₁).1, (he.getBlob_runs h₂).1⟩, nofun⟩
  | unusable hfound _ => exact ⟨(hfound.reads hp he).1, nofun⟩
  | served hfound _ => exact ⟨(hfound.reads hp he).1, nofun⟩

theorem buildCourse_surfaces (hst : Promises store)
    (h : BuildCourse W state store proxyHost chart reference headOnly ending s cs r t) :
    ending ≠ .readFailure ∧ (ending.failed = true → ∃ e, r = .error e ∧ Internal e) ∧
      (ending = .blobWriteFailure → ∀ c ∈ cs, NoPointer c.op) := by
  cases h with
  | notFetched _ => simp [Ending.failed]
  | notBuilt _ _ => simp [Ending.failed]
  | @blobWriteFails _ _ _ _ _ _ built e hfetch _ hput hfails =>
      refine ⟨by decide, ?_, ?_⟩
      · intro _
        obtain ⟨write, hwrite, cs', -, hends⟩ := hfails
        have honly : Ensures Anything NoPointer InternalOnly write := by
          simp only [blobWrites, List.mem_cons, List.not_mem_nil, or_false] at hwrite
          rcases hwrite with rfl | rfl | rfl
          · exact hst.putBlob ..
          · exact hst.putBlob ..
          · exact hst.putBlob ..
        exact ⟨e, rfl, (honly.follows hends).2 e rfl⟩
      · intro _
        exact List.forall_mem_append.mpr ⟨(fetchChart_noPointer.follows hfetch.follows).1,
          ((putArtifact_noPointer hst built).follows hput.follows).1⟩
  | pointerWriteFails _ _ _ _ hpointer =>
      refine ⟨by decide, ?_, by simp⟩
      intro _
      exact ⟨_, rfl, ((hst.putTagPointer ..).follows hpointer.follows).2 _ rfl⟩
  | built _ _ _ _ _ => simp [Ending.failed]

theorem tagCourse_surfaces (hst : Promises store)
    (h : TagCourse W state store proxyHost chart reference headOnly ending s cs r t) :
    (ending = .readFailure → ∀ c ∈ cs, Reads c.op) ∧
      (ending.failed = true → ∃ e, r = .error e ∧ Internal e) ∧
      (ending = .blobWriteFailure → ∀ c ∈ cs, NoPointer c.op) := by
  cases h with
  | pointerFails hpointer =>
      obtain ⟨hcalls, honly⟩ := hst.getTagPointer_runs hpointer
      exact ⟨fun _ => hcalls, fun _ => ⟨_, rfl, honly _ rfl⟩, nofun⟩
  | lookupFails hfollows =>
      obtain ⟨hcalls, honly, -⟩ := hfollows.reads hst
      exact ⟨fun _ => hcalls, fun _ => ⟨_, rfl, honly _ rfl⟩, nofun⟩
  | streamFails hfollows _ hfails =>
      obtain ⟨hcalls, -, hinternal⟩ := hfollows.reads hst
      exact ⟨fun _ => hcalls, fun _ => ⟨_, rfl, hinternal _ rfl _ hfails.2.2⟩, nofun⟩
  | served _ _ _ => exact ⟨nofun, nofun, nofun⟩
  | rebuilt hmissing hbuild =>
      obtain ⟨hread, hfailed, hblobs⟩ := buildCourse_surfaces hst hbuild
      refine ⟨fun h => (hread h).elim, hfailed, ?_⟩
      intro h
      exact List.forall_mem_append.mpr
        ⟨fun c hc => noPointer_of_reads (hmissing.reads hst c hc), hblobs h⟩

/-- What holds of a request that ends so. -/
structure Surfaces (reference : Str) (ending : Ending) (cs : List (Call Op Ans))
    (r : Except AppError Response) : Prop where
  internal : ending.failed = true →
    ∃ e, r = .error e ∧ Internal e ∧ (intoResponse e).status = 500
  reads : ending = .readFailure → ∀ c ∈ cs, Reads c.op
  blobs : ending = .blobWriteFailure → ∀ c ∈ cs, NoPointer c.op
  unknown : ending = .unknown → ∀ digest, Digest.parse reference = some digest →
    r = .error (unknownManifest digest)

/-- Every request ends in one of the listed ways, and where a storage has failed on the way
the failure is what is answered. -/
theorem outages_surface (hp : Promises persistent) (he : Promises ephemeral) :
    (∀ s cs r t,
      Runs W (manifestIn state persistent ephemeral proxyHost chart reference headOnly) s cs r t ↔
        ∃ ending, Course W state persistent ephemeral proxyHost chart reference headOnly ending
          s cs r t) ∧
    (∀ ending s cs r t,
      Course W state persistent ephemeral proxyHost chart reference headOnly ending s cs r t →
      Surfaces reference ending cs r) ∧
    ClassicHandler.manifest state proxyHost chart reference headOnly =
      manifestIn state state.storage state.ephemeral proxyHost chart reference headOnly := by
  have hstatus : ∀ {e : AppError}, Internal e → (intoResponse e).status = 500 := by
    intro e ⟨m, he⟩
    rw [he]
    rfl
  refine ⟨?_, ?_, manifest_eq ..⟩
  · intro s cs r t
    unfold Course
    cases hd : Digest.parse reference with
    | some digest => exact digestCourse_iff hp he hd
    | none => exact tagCourse_iff hp he hd
  · intro ending s cs r t h
    unfold Course at h
    cases hd : Digest.parse reference with
    | some digest =>
        rw [hd] at h
        obtain ⟨hreads, hfailed⟩ := digestCourse_surfaces hp he h
        constructor
        · intro hf
          obtain ⟨e, hr, hinternal⟩ := hfailed hf
          exact ⟨e, hr, hinternal, hstatus hinternal⟩
        · exact fun _ => hreads
        · exact fun _ c hc => noPointer_of_reads (hreads c hc)
        · intro hu digest' hd'
          obtain rfl : digest = digest' := Option.some.inj (hd.symm.trans hd')
          cases h with
          | absent _ _ => rfl
          | unusable _ _ => rfl
          | _ => cases hu
    | none =>
        rw [hd] at h
        have hst : Promises (if chart.ephemeral then ephemeral else persistent) := by
          split
          · exact he
          · exact hp
        obtain ⟨hreads, hfailed, hblobs⟩ := tagCourse_surfaces hst h
        constructor
        · intro hf
          obtain ⟨e, hr, hinternal⟩ := hfailed hf
          exact ⟨e, hr, hinternal, hstatus hinternal⟩
        · exact hreads
        · exact hblobs
        · intro _ digest hd'
          rw [hd] at hd'
          cases hd'

end Outages

section Instances

/-- The object store answers nothing but errors. -/
def outageAnswer : (op : Op) → Unit → Ans op × Unit
  | .get _, _ => (.error .other, ())
  | op, _ => (someAnswer op, ())

def outageWorld : World Op Ans Unit := fun op s r t => (r, t) = outageAnswer op s

/-- The tag's pointer cannot be read. -/
theorem outage_surfaces : ∃ cs r, Runs outageWorld (ClassicHandler.manifest plainState
      (str "proxy.test") demoChart (str "1.0.0") false) () cs r () ∧
    (∃ e, r = .error e ∧ Internal e ∧ (intoResponse e).status = 500) ∧
    ∀ c ∈ cs, Reads c.op := by
  have hclaim := @outages_surface Unit outageWorld plainState _ _ (str "proxy.test") demoChart
    (str "1.0.0") false (objectStore_promises plainState.crates.json)
    (ephemeral_promises plainState.crates.json)
  obtain ⟨hcourse, hsurfaces, heq⟩ := hclaim
  have hfails : Runs outageWorld (plainState.storage.getTagPointer
      ⟨str "proxy.test", demoChart.fullName⟩ (str "1.0.0")) ()
      [⟨.get (str "tags/proxy.test/charts.example.com/demo/1.0.0"), .error .other⟩]
      (.error (storageError .tagRead)) () := by
    have hpath : storagePath .tagRead (tagKey ⟨str "proxy.test", demoChart.fullName⟩
        (str "1.0.0")) = .ok (str "tags/proxy.test/charts.example.com/demo/1.0.0") := by
      decide +kernel
    change Runs _ (ObjectStore.getTagPointer plainState.crates.json _ _) _ _ _ _
    unfold ObjectStore.getTagPointer
    rw [hpath, liftResult_ok_bind, perform_bind]
    exact .call rfl (.pure _ _)
  have hd : Digest.parse (str "1.0.0") = none := by decide
  have hends : Course outageWorld plainState plainState.storage plainState.ephemeral
      (str "proxy.test") demoChart (str "1.0.0") false .readFailure ()
      [⟨.get (str "tags/proxy.test/charts.example.com/demo/1.0.0"), .error .other⟩]
      (.error (storageError .tagRead)) () := by
    unfold Course
    rw [hd]
    exact .pointerFails hfails
  have hall := hsurfaces _ _ _ _ _ hends
  refine ⟨_, _, ?_, hall.internal rfl, hall.reads rfl⟩
  rw [heq]
  exact (hcourse _ _ _ _).mpr ⟨_, hends⟩

end Instances

end Helmoci.StorageOutages
