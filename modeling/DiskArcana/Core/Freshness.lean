import DiskArcana.Core.Embeddings
import DiskArcana.Lib.Text
import DiskArcana.Lib.Trace

/-!
# Fresh sidecars

A run of a share without sidecars: files are written and removed, and `write_sidecar` is called, to its
end or up to the vector. A manifest and the vector beside it belong to one call, unless a call was cut
off between the two; then they still differ in length, or the condition on the step that was cut off
(`Kept`) says that they may as well belong together (`Inv`). So what is fresh is what the latest call for
the source stored (`freshnessLaw`).
-/

namespace DiskArcana.Core.Embeddings

open DiskArcana.Lib DiskArcana.Lib.LexicalPath

/-- What happens to a share. -/
inductive Event where
  | edit (path : Path) (content : Bytes)
  | delete (path : Path)
  | write (request : Request)
  | cutOff (request : Request)

/-- A share with nothing in it. -/
def start : Share := (∅ : Share).insert [] .dir

/-- What a call stored a vector for. -/
structure Call where
  source : Path
  vector : Bytes
  modelId : String
  dimensions : UInt32
  content : Bytes
  deriving DecidableEq

section

variable (codecs : Codecs) (root : List String)

def step (share : Share) : Event → Share
  | .edit path content => (share.put path content).1
  | .delete path => share.remove path
  | .write request => (writeSidecar codecs root share request).1
  | .cutOff request => (writeVectorBlob codecs root share request).1

/-- A call that gets to the end of the vector, with the content that the source has then. -/
def callBy (share : Share) (request : Request) : Option Call :=
  match (writeVectorBlob codecs root share request).2 with
  | .error _ => none
  | .ok (sourcePath, _) =>
    (share.file (locate (components sourcePath))).map fun content =>
      ⟨locate (components sourcePath), request.vectorBytes, request.modelId, request.dimensions,
        content⟩

def callOf (share : Share) : Event → Option Call
  | .write request => callBy codecs root share request
  | .cutOff request => callBy codecs root share request
  | _ => none

/-- The latest call for a source. -/
def latestCall (hist : List (Share × Event)) (source : Path) : Option Call :=
  ((hist.filterMap fun x => callOf codecs root x.1 x.2).filter fun call =>
    call.source = source).getLast?

/-! ## The law -/

/-- What is fresh is the vector of the latest call, for this model, these dimensions and this content. -/
def FreshSound (hist : List (Share × Event)) (share : Share) : Prop :=
  ∀ source modelId dimensions content, IsSource source → share.file source = some content →
    evaluateStaleness codecs share source (codecs.hashHex content) modelId dimensions = .fresh →
      ∃ call, latestCall codecs root hist source = some call ∧
        share.file (locate (vectorBlobRelPath source)) = some call.vector ∧
        call.modelId = modelId ∧ call.dimensions = dimensions ∧ call.content = content

/-- The staleness of a source with the content that it has. -/
def freshness (share : Share) (source : Path) (modelId : String) (dimensions : UInt32) :
    Option Staleness :=
  (share.file source).map fun content =>
    evaluateStaleness codecs share source (codecs.hashHex content) modelId dimensions

/-- No file of `.disk-embeddings` is edited, and a call is cut off after the vector only if the manifest
that is there, if any, has other dimensions, or the model of the call and the hash of the source. -/
def Kept (share : Share) : Event → Prop
  | .edit path _ => path.head? ≠ some coStorageRoot
  | .cutOff request => ∀ call manifest, callBy codecs root share request = some call →
      readFromShare codecs share call.source = .ok (some manifest) →
        manifest.dimensions = call.dimensions →
          manifest.modelId = call.modelId ∧ manifest.sourceContentHash = codecs.hashHex call.content
  | _ => True

/-- The manifest of a call is read back as it was written. -/
def RoundTrips (share : Share) : Event → Prop
  | .write request => ∀ sourcePath hashHex,
      checkSource codecs root share request = .ok (sourcePath, hashHex) →
        codecs.fromStr (codecs.toStringPretty (manifestOf request sourcePath hashHex)) =
          some (manifestOf request sourcePath hashHex)
  | _ => True

/-- What the files hold in the course of a run. -/
def held (es : List Event) : Set Bytes :=
  {content | ∃ pre post path, es = pre ++ post ∧
    (Trace.run (step codecs root) start pre).file path = some content}

end

/-! ## What is read -/

section

variable {codecs : Codecs} {root : List String} {share share' : Share} {request : Request} {e : Event}
  {hist : List (Share × Event)} {call : Call} {source : Path} {manifest : SidecarManifest}

theorem locate_manifestRelPath (hs : IsSource source) :
    locate (manifestRelPath source) = sidecarAt manifestSuffix source := by
  rw [manifestRelPath, (sidecarRelPath_of_isSource _ hs).1]
  exact locate_sidecarAt (by decide) hs

theorem locate_vectorBlobRelPath (hs : IsSource source) :
    locate (vectorBlobRelPath source) = sidecarAt vectorSuffix source := by
  rw [vectorBlobRelPath, (sidecarRelPath_of_isSource _ hs).1]
  exact locate_sidecarAt (by decide) hs

theorem readFromShare_eq_iff (hs : IsSource source) :
    readFromShare codecs share source = .ok (some manifest) ↔
      ∃ raw, share.file (sidecarAt manifestSuffix source) = some raw ∧
        codecs.fromStr raw = some manifest := by
  rw [readFromShare, locate_manifestRelPath hs]
  rcases share.file (sidecarAt manifestSuffix source) with _ | raw
  · simp
  · rcases hparsed : codecs.fromStr raw with _ | parsed <;> simp [hparsed]

/-- What makes a sidecar fresh. -/
theorem evaluateStaleness_eq_fresh_iff (hs : IsSource source) {hashHex modelId : String}
    {dimensions : UInt32} :
    evaluateStaleness codecs share source hashHex modelId dimensions = .fresh ↔
      ∃ manifest vector, readFromShare codecs share source = .ok (some manifest) ∧
        share.file (sidecarAt vectorSuffix source) = some vector ∧
        manifest.sourceContentHash = hashHex ∧ manifest.modelId = modelId ∧
        manifest.dimensions = dimensions ∧ vector.length = manifest.vectorBytes.toNat := by
  rw [evaluateStaleness, locate_vectorBlobRelPath hs]
  rcases hread : readFromShare codecs share source with e | _ | manifest
  · simp
  · simp
  · rcases share.file (sidecarAt vectorSuffix source) with _ | vector
    · simp
    · dsimp only
      split_ifs <;> simp_all

/-- The result for a source depends on its two files. -/
theorem evaluateStaleness_congr (hs : IsSource source)
    (hmanifest : share'.file (sidecarAt manifestSuffix source) =
      share.file (sidecarAt manifestSuffix source))
    (hvector : share'.file (sidecarAt vectorSuffix source) =
      share.file (sidecarAt vectorSuffix source)) (hashHex modelId : String) (dimensions : UInt32) :
    evaluateStaleness codecs share' source hashHex modelId dimensions =
      evaluateStaleness codecs share source hashHex modelId dimensions := by
  rw [evaluateStaleness, evaluateStaleness, readFromShare, readFromShare, locate_manifestRelPath hs,
    locate_vectorBlobRelPath hs, hmanifest, hvector]

/-! ## What is written -/

/-- What a call up to the vector does. -/
structure WritesVector (share : Share) (request : Request) (share' : Share)
    (sourcePath : String) (call : Call) : Prop where
  normalized : normalizeSourceRel request.sourceRel = .ok sourcePath
  source_eq : call.source = locate (components sourcePath)
  source : IsSource call.source
  content : share.file call.source = some call.content
  modelId : call.modelId = request.modelId
  dimensions : call.dimensions = request.dimensions
  length : call.vector.length = expectedBytes call.dimensions
  file : ∀ q, share'.file q =
    if q = sidecarAt vectorSuffix call.source then some call.vector else share.file q

theorem of_checkSource {sourcePath hashHex : String}
    (h : checkSource codecs root share request = .ok (sourcePath, hashHex)) :
    normalizeSourceRel request.sourceRel = .ok sourcePath ∧
      request.vectorBytes.length = expectedBytes request.dimensions ∧
      ∃ content, share.file (locate (components sourcePath)) = some content ∧
        hashHex = codecs.hashHex content := by
  unfold checkSource at h
  rcases hsource : normalizeSourceRel request.sourceRel with e | path
  · simp [hsource] at h
  · simp only [hsource] at h
    split_ifs at h with hco hlength
    rcases hguard : validate root (components path) with e | abs
    · simp [hguard] at h
    · have habs : abs = locate (components path) := by
        unfold validate at hguard
        split_ifs at hguard
        exact (Except.ok.inj hguard).symm
      subst habs
      simp only [hguard] at h
      rcases hfile : share.file (locate (components path)) with _ | content
      · simp [hfile] at h
      · simp only [hfile, Except.ok.injEq, Prod.mk.injEq] at h
        obtain ⟨rfl, rfl⟩ := h
        exact ⟨rfl, not_not.mp hlength, content, hfile, rfl⟩

variable (codecs root) in
/-- **A call up to the vector** is refused and leaves the files, or writes the vector. -/
theorem writeVectorBlob_cases (hroot : share.file [] = none) (request : Request) :
    (callBy codecs root share request = none ∧
      (∃ error, (writeVectorBlob codecs root share request).2 = .error error) ∧
      ∀ q, (writeVectorBlob codecs root share request).1.file q = share.file q) ∨
    ∃ sourcePath call, callBy codecs root share request = some call ∧
      checkSource codecs root share request = .ok (sourcePath, codecs.hashHex call.content) ∧
      (share.put (sidecarAt vectorSuffix call.source) call.vector).2 = true ∧
      writeVectorBlob codecs root share request =
        ((share.put (sidecarAt vectorSuffix call.source) call.vector).1,
          .ok (sourcePath, codecs.hashHex call.content)) ∧
      WritesVector share request (writeVectorBlob codecs root share request).1 sourcePath
        call := by
  rcases hcheck : checkSource codecs root share request with error | ⟨sourcePath, hashHex⟩
  · left
    simp [callBy, writeVectorBlob, hcheck]
  · obtain ⟨hnormalized, hlength, content, hcontent, rfl⟩ := of_checkSource hcheck
    have hne : locate (components sourcePath) ≠ [] := by
      intro h
      rw [h, hroot] at hcontent
      cases hcontent
    obtain ⟨hs, -⟩ := components_of_normalized hnormalized hne
    have hat : locate (vectorBlobRelPath (components sourcePath)) =
        sidecarAt vectorSuffix (locate (components sourcePath)) := by
      rw [vectorBlobRelPath, sidecarRelPath_components _ hnormalized hne]
      exact locate_sidecarAt (by decide) hs
    have hfile := FileTable.file_put share
      (sidecarAt vectorSuffix (locate (components sourcePath))) request.vectorBytes
    rcases hput : (share.put (sidecarAt vectorSuffix (locate (components sourcePath)))
      request.vectorBytes).2 with _ | _
    · left
      simp [callBy, writeVectorBlob, hcheck, hat, hput, hfile]
    · right
      refine ⟨sourcePath, ⟨locate (components sourcePath), request.vectorBytes, request.modelId,
        request.dimensions, content⟩, ?_, rfl, hput, ?_, ?_⟩
      · simp [callBy, writeVectorBlob, hcheck, hat, hput, hcontent]
      · simp [writeVectorBlob, hcheck, hat, hput]
      · refine ⟨hnormalized, rfl, hs, hcontent, rfl, rfl, hlength, fun q => ?_⟩
        simp [writeVectorBlob, hcheck, hat, hput, hfile]

/-- What a call leaves in a share: its vector, and at the place of its manifest `raw`. -/
structure Leaves (share share' : Share) (call : Call) (raw : Option Bytes) :
    Prop where
  source : IsSource call.source
  content : share.file call.source = some call.content
  length : call.vector.length = expectedBytes call.dimensions
  file : ∀ q, share'.file q =
    if q = sidecarAt vectorSuffix call.source then some call.vector
    else if q = sidecarAt manifestSuffix call.source then raw else share.file q

/-- The manifest stays as it is if it is not written. -/
theorem WritesVector.leaves {sourcePath : String}
    (h : WritesVector share request share' sourcePath call) :
    Leaves share share' call (share.file (sidecarAt manifestSuffix call.source)) := by
  refine ⟨h.source, h.content, h.length, fun q => ?_⟩
  rw [h.file]
  split_ifs with hvector hmanifest
  · rfl
  · rw [hmanifest]
  · rfl

theorem writeSidecar_of_call {sourcePath : String}
    (hnormalized : normalizeSourceRel request.sourceRel = .ok sourcePath)
    (hs : IsSource (locate (components sourcePath))) {hashHex : String}
    (hwrite : writeVectorBlob codecs root share request = (share', .ok (sourcePath, hashHex))) :
    (writeSidecar codecs root share request).1 =
      (share'.put (sidecarAt manifestSuffix (locate (components sourcePath)))
        (codecs.toStringPretty (manifestOf request sourcePath hashHex))).1 := by
  have hat : locate (manifestRelPath (components sourcePath)) =
      sidecarAt manifestSuffix (locate (components sourcePath)) := by
    rw [manifestRelPath, sidecarRelPath_components _ hnormalized hs.ne_nil]
    exact locate_sidecarAt (by decide) hs
  simp only [writeSidecar, hwrite, SidecarManifest.writeToShare, hat]

/-- A manifest that is written behind the vector is there, or there is none. -/
theorem Leaves.put_manifest
    (h : Leaves share (share.put (sidecarAt vectorSuffix call.source) call.vector).1 call
      (share.file (sidecarAt manifestSuffix call.source)))
    (hput : (share.put (sidecarAt vectorSuffix call.source) call.vector).2 = true) (text : Bytes) :
    ∃ raw, Leaves share ((share.put (sidecarAt vectorSuffix call.source) call.vector).1.put
        (sidecarAt manifestSuffix call.source) text).1 call raw ∧
      (raw = share.file (sidecarAt manifestSuffix call.source) ∧ raw = none ∨ raw = some text) := by
  have hfile := FileTable.file_put (share.put (sidecarAt vectorSuffix call.source) call.vector).1
    (sidecarAt manifestSuffix call.source) text
  rcases hwritten : ((share.put (sidecarAt vectorSuffix call.source) call.vector).1.put
    (sidecarAt manifestSuffix call.source) text).2 with _ | _
  · -- a directory is at the place of the manifest
    have hnone := FileTable.file_eq_none_of_put_put hput
      ((dropLast_sidecarAt _ _).trans (dropLast_sidecarAt _ _).symm) hwritten
    rw [h.file, if_neg (manifest_ne_vector _ _), if_pos rfl] at hnone
    refine ⟨_, ⟨h.source, h.content, h.length, fun q => ?_⟩, .inl ⟨rfl, hnone⟩⟩
    rw [hfile, hwritten, if_neg (by simp), h.file]
  · refine ⟨_, ⟨h.source, h.content, h.length, fun q => ?_⟩, .inr rfl⟩
    rw [hfile, hwritten, h.file]
    by_cases hq : q = sidecarAt manifestSuffix call.source
    · rw [if_pos ⟨rfl, hq⟩, if_neg (hq ▸ manifest_ne_vector _ _), if_pos hq]
    · simp [hq]

/-- **A call** leaves its vector with the manifest that was there, if it is cut off or there is none, or
with its own. -/
theorem call_cases (hroot : share.file [] = none) (hcall : callOf codecs root share e = some call) :
    ∃ raw, Leaves share (step codecs root share e) call raw ∧
      (raw = share.file (sidecarAt manifestSuffix call.source) ∧
          (raw = none ∨ ∃ request, e = .cutOff request) ∨
        ∃ request sourcePath, e = .write request ∧
          checkSource codecs root share request = .ok (sourcePath, codecs.hashHex call.content) ∧
          raw = some (codecs.toStringPretty
            (manifestOf request sourcePath (codecs.hashHex call.content))) ∧
          call.modelId = request.modelId ∧ call.dimensions = request.dimensions) := by
  have hwrites : ∀ request, callBy codecs root share request = some call → ∃ sourcePath,
      checkSource codecs root share request = .ok (sourcePath, codecs.hashHex call.content) ∧
      (share.put (sidecarAt vectorSuffix call.source) call.vector).2 = true ∧
      writeVectorBlob codecs root share request =
        ((share.put (sidecarAt vectorSuffix call.source) call.vector).1,
          .ok (sourcePath, codecs.hashHex call.content)) ∧
      WritesVector share request (writeVectorBlob codecs root share request).1 sourcePath call := by
    intro request hcall
    obtain ⟨hnone, -⟩ | ⟨sourcePath, call', hcall', h⟩ :=
      writeVectorBlob_cases codecs root hroot request
    · rw [hnone] at hcall
      cases hcall
    · obtain rfl : call' = call := Option.some.inj (hcall'.symm.trans hcall)
      exact ⟨sourcePath, h⟩
  rcases e with ⟨path, content⟩ | path | request | request
  · cases hcall
  · cases hcall
  · obtain ⟨sourcePath, hcheck, hput, hwrite, hvector⟩ := hwrites request hcall
    have hleaves := hvector.leaves
    rw [hwrite] at hleaves
    have hshare := writeSidecar_of_call hvector.normalized (hvector.source_eq ▸ hvector.source) hwrite
    rw [← hvector.source_eq] at hshare
    obtain ⟨raw, hafter, hraw⟩ := hleaves.put_manifest hput
      (codecs.toStringPretty (manifestOf request sourcePath (codecs.hashHex call.content)))
    rw [← hshare] at hafter
    refine ⟨raw, hafter, ?_⟩
    rcases hraw with ⟨hstays, hnone⟩ | hown
    · exact .inl ⟨hstays, .inl hnone⟩
    · exact .inr ⟨request, sourcePath, rfl, hcheck, hown, hvector.modelId, hvector.dimensions⟩
  · obtain ⟨sourcePath, -, -, -, hvector⟩ := hwrites request hcall
    exact ⟨_, hvector.leaves, .inl ⟨rfl, .inr ⟨request, rfl⟩⟩⟩

/-- The root of a share is no file. -/
theorem noRoot_step (hroot : share.file [] = none) (e : Event) :
    (step codecs root share e).file [] = none := by
  have hput : ∀ (share : Share) (path : Path) (content : Bytes), share.file [] = none →
      (share.put path content).1.file [] = none := by
    intro share path content hroot
    rw [FileTable.file_put, if_neg]
    · exact hroot
    · rintro ⟨hwritten, rfl⟩
      rw [FileTable.put_nil] at hwritten
      cases hwritten
  have hvector : ∀ request, (writeVectorBlob codecs root share request).1.file [] = none := by
    intro request
    unfold writeVectorBlob
    split
    · exact hroot
    · exact hput _ _ _ hroot
  rcases e with ⟨path, content⟩ | path | request | request
  · exact hput _ _ _ hroot
  · rw [step, FileTable.file_remove, hroot, ite_self]
  · have hfile := hvector request
    rw [step, writeSidecar]
    rcases hwrite : writeVectorBlob codecs root share request with ⟨share', error | ⟨path, hashHex⟩⟩
    · rwa [hwrite] at hfile
    · rw [hwrite] at hfile
      exact hput _ _ _ hfile
  · exact hvector request

/-- **What is no call** leaves the sidecars or removes them, if no edit is of one. -/
theorem step_of_no_call (hroot : share.file [] = none) (hcall : callOf codecs root share e = none)
    (hkept : Kept codecs root share e) (suffix : String) (source : Path) :
    (step codecs root share e).file (sidecarAt suffix source) =
        share.file (sidecarAt suffix source) ∨
      (step codecs root share e).file (sidecarAt suffix source) = none := by
  rcases e with ⟨path, content⟩ | path | request | request
  · left
    rw [step, FileTable.file_put, if_neg]
    rintro ⟨-, rfl⟩
    exact hkept rfl
  · rw [step, FileTable.file_remove]
    split_ifs
    · exact .inr rfl
    · exact .inl rfl
  · change callBy codecs root share request = none at hcall
    obtain ⟨-, ⟨error, herror⟩, hfile⟩ | ⟨_, call, hcall', -⟩ :=
      writeVectorBlob_cases codecs root hroot request
    · left
      rw [← hfile, step, writeSidecar]
      rcases hwrite : writeVectorBlob codecs root share request with ⟨share', result⟩
      rw [hwrite] at herror
      obtain rfl : result = .error error := herror
      rfl
    · rw [hcall] at hcall'
      cases hcall'
  · change callBy codecs root share request = none at hcall
    obtain ⟨-, -, hfile⟩ | ⟨_, call, hcall', -⟩ :=
      writeVectorBlob_cases codecs root hroot request
    · exact .inl (hfile _)
    · rw [hcall] at hcall'
      cases hcall'

/-! ## The latest calls -/

theorem latestCall_snoc (source : Path) :
    latestCall codecs root (hist ++ [(share, e)]) source =
      match callOf codecs root share e with
      | some call => if call.source = source then some call else latestCall codecs root hist source
      | none => latestCall codecs root hist source := by
  unfold latestCall
  rw [List.filterMap_append, List.filter_append]
  rcases hcall : callOf codecs root share e with _ | call
  · simp [hcall]
  · by_cases hsource : call.source = source <;> simp [hcall, hsource]

theorem latestCall_snoc_of_no_call (hcall : callOf codecs root share e = none) (source : Path) :
    latestCall codecs root (hist ++ [(share, e)]) source = latestCall codecs root hist source := by
  rw [latestCall_snoc, hcall]

theorem latestCall_snoc_of_call (hcall : callOf codecs root share e = some call) (source : Path) :
    latestCall codecs root (hist ++ [(share, e)]) source =
      if call.source = source then some call else latestCall codecs root hist source := by
  rw [latestCall_snoc, hcall]

theorem callBy_content {call : Call} (h : callBy codecs root share request = some call) :
    share.file call.source = some call.content := by
  unfold callBy at h
  split at h
  · cases h
  · obtain ⟨content, hcontent, rfl⟩ := Option.map_eq_some_iff.mp h
    exact hcontent

/-- The source of a call was there with its content. -/
theorem exists_of_latestCall (h : latestCall codecs root hist source = some call) :
    call.source = source ∧ ∃ x ∈ hist, x.1.file source = some call.content := by
  obtain ⟨hmem, hsource⟩ := List.mem_filter.mp (List.mem_of_getLast? h)
  have hsource := of_decide_eq_true hsource
  obtain ⟨x, hx, hcall⟩ := List.mem_filterMap.mp hmem
  refine ⟨hsource, x, hx, ?_⟩
  rw [← hsource]
  rcases x with ⟨share, ⟨_, _⟩ | _ | request | request⟩
  · cases hcall
  · cases hcall
  · exact callBy_content hcall
  · exact callBy_content hcall

/-! ## The invariant -/

/-- A manifest has the size of its dimensions, and if it has the dimensions of the latest call, whose
vector is beside it, it has the model of the call and the hash of its content. -/
structure Inv (codecs : Codecs) (root : List String) (hist : List (Share × Event)) (share : Share) :
    Prop where
  noRoot : share.file [] = none
  size : ∀ source manifest, IsSource source →
    readFromShare codecs share source = .ok (some manifest) →
      manifest.vectorBytes.toNat = expectedBytes manifest.dimensions
  latest : ∀ source manifest vector, IsSource source →
    readFromShare codecs share source = .ok (some manifest) →
      share.file (sidecarAt vectorSuffix source) = some vector →
        ∃ call, latestCall codecs root hist source = some call ∧ call.vector = vector ∧
          vector.length = expectedBytes call.dimensions ∧
          (manifest.dimensions = call.dimensions → manifest.modelId = call.modelId ∧
            manifest.sourceContentHash = codecs.hashHex call.content)

theorem inv_start : Inv codecs root [] start := by
  have hfile : ∀ path, start.file path = none := by
    intro path
    unfold start FileTable.file
    rw [Table.lookup_insert_eq_ite]
    split_ifs <;> rfl
  have hread : ∀ source manifest, IsSource source →
      readFromShare codecs start source ≠ .ok (some manifest) := by
    intro source manifest hs hread
    obtain ⟨raw, hraw, -⟩ := (readFromShare_eq_iff hs).mp hread
    rw [hfile] at hraw
    cases hraw
  exact ⟨hfile [], fun source manifest hs h => absurd h (hread source manifest hs),
    fun source manifest _ hs h => absurd h (hread source manifest hs)⟩

theorem readFromShare_of_files (hs : IsSource source)
    (hfile : share'.file (sidecarAt manifestSuffix source) =
        share.file (sidecarAt manifestSuffix source) ∨
      share'.file (sidecarAt manifestSuffix source) = none)
    (hread : readFromShare codecs share' source = .ok (some manifest)) :
    readFromShare codecs share source = .ok (some manifest) := by
  rw [readFromShare_eq_iff hs] at hread ⊢
  obtain ⟨raw, hraw, hparse⟩ := hread
  rcases hfile with hfile | hfile
  · exact ⟨raw, hfile ▸ hraw, hparse⟩
  · rw [hfile] at hraw
    cases hraw

/-- Nothing is lost where no call is made. -/
theorem Inv.step_of_no_call (h : Inv codecs root hist share)
    (hcall : callOf codecs root share e = none) (hkept : Kept codecs root share e) :
    Inv codecs root (hist ++ [(share, e)]) (step codecs root share e) := by
  have hfiles := Embeddings.step_of_no_call h.noRoot hcall hkept
  refine ⟨noRoot_step h.noRoot e, fun source manifest hs hread => ?_,
    fun source manifest vector hs hread hvector => ?_⟩
  · exact h.size source manifest hs (readFromShare_of_files hs (hfiles _ _) hread)
  · rw [latestCall_snoc_of_no_call hcall]
    apply h.latest source manifest vector hs (readFromShare_of_files hs (hfiles _ _) hread)
    rcases hfiles vectorSuffix source with hsame | hnone
    · exact hsame ▸ hvector
    · rw [hnone] at hvector
      cases hvector

section Leaves

variable {raw : Option Bytes}

theorem Leaves.file_vector (h : Leaves share share' call raw) :
    share'.file (sidecarAt vectorSuffix call.source) = some call.vector := by
  rw [h.file, if_pos rfl]

theorem Leaves.file_manifest (h : Leaves share share' call raw) :
    share'.file (sidecarAt manifestSuffix call.source) = raw := by
  rw [h.file, if_neg (manifest_ne_vector _ _), if_pos rfl]

/-- The sidecars of other sources stay. -/
theorem Leaves.file_other (h : Leaves share share' call raw) (hs : IsSource source)
    (hne : source ≠ call.source) :
    share'.file (sidecarAt manifestSuffix source) = share.file (sidecarAt manifestSuffix source) ∧
      share'.file (sidecarAt vectorSuffix source) = share.file (sidecarAt vectorSuffix source) := by
  have hsame : ∀ suffix, sidecarAt suffix source ≠ sidecarAt suffix call.source :=
    fun suffix heq => hne ((sidecarAt_inj hs h.source).mp heq)
  constructor
  · rw [h.file, if_neg (manifest_ne_vector _ _), if_neg (hsame _)]
  · rw [h.file, if_neg (hsame _), if_neg (manifest_ne_vector _ _).symm]

end Leaves

theorem vectorBytes_manifestOf (request : Request) (sourcePath hashHex : String) :
    (manifestOf request sourcePath hashHex).vectorBytes.toNat =
      expectedBytes (manifestOf request sourcePath hashHex).dimensions := by
  have hlt := request.dimensions.toNat_lt
  simp only [manifestOf, expectedBytes, UInt64.toNat_ofNat']
  exact Nat.mod_eq_of_lt (by omega)

/-- The manifest that is there after a call. -/
theorem manifest_of_call (h : Inv codecs root hist share)
    (hcall : callOf codecs root share e = some call) (hkept : Kept codecs root share e)
    (hjson : RoundTrips codecs root share e)
    (hread : readFromShare codecs (step codecs root share e) call.source = .ok (some manifest)) :
    manifest.vectorBytes.toNat = expectedBytes manifest.dimensions ∧
      (manifest.dimensions = call.dimensions → manifest.modelId = call.modelId ∧
        manifest.sourceContentHash = codecs.hashHex call.content) := by
  obtain ⟨raw, hleaves, hraw⟩ := call_cases h.noRoot hcall
  obtain ⟨hstays, hnone | ⟨request, rfl⟩⟩ | ⟨request, sourcePath, rfl, hcheck, hwritten, hmodel, -⟩ :=
    hraw
  · obtain ⟨text, htext, -⟩ := (readFromShare_eq_iff hleaves.source).mp hread
    rw [hleaves.file_manifest, hnone] at htext
    cases htext
  · have hbefore := readFromShare_of_files hleaves.source
      (.inl (hleaves.file_manifest.trans hstays)) hread
    exact ⟨h.size _ _ hleaves.source hbefore, hkept call manifest hcall hbefore⟩
  · obtain ⟨text, htext, hparse⟩ := (readFromShare_eq_iff hleaves.source).mp hread
    rw [hleaves.file_manifest, hwritten] at htext
    cases htext
    rw [hjson _ _ hcheck] at hparse
    cases hparse
    exact ⟨vectorBytes_manifestOf _ _ _, fun _ => ⟨hmodel.symm, rfl⟩⟩

/-- A call leaves its vector with a manifest that does not belong to another one. -/
theorem Inv.step_of_call (h : Inv codecs root hist share)
    (hcall : callOf codecs root share e = some call) (hkept : Kept codecs root share e)
    (hjson : RoundTrips codecs root share e) :
    Inv codecs root (hist ++ [(share, e)]) (step codecs root share e) := by
  obtain ⟨raw, hleaves, -⟩ := call_cases h.noRoot hcall
  have hother : ∀ source manifest, IsSource source → source ≠ call.source →
      readFromShare codecs (step codecs root share e) source = .ok (some manifest) →
        readFromShare codecs share source = .ok (some manifest) := fun source manifest hs hne hread =>
    readFromShare_of_files hs (.inl (hleaves.file_other hs hne).1) hread
  refine ⟨noRoot_step h.noRoot e, fun source manifest hs hread => ?_,
    fun source manifest vector hs hread hvector => ?_⟩
  · by_cases hsource : source = call.source
    · subst hsource
      exact (manifest_of_call h hcall hkept hjson hread).1
    · exact h.size source manifest hs (hother source manifest hs hsource hread)
  · rw [latestCall_snoc_of_call hcall]
    by_cases hsource : source = call.source
    · subst hsource
      rw [hleaves.file_vector] at hvector
      obtain rfl := Option.some.inj hvector
      exact ⟨call, if_pos rfl, rfl, hleaves.length, (manifest_of_call h hcall hkept hjson hread).2⟩
    · rw [if_neg (Ne.symm hsource)]
      rw [(hleaves.file_other hs hsource).2] at hvector
      exact h.latest source manifest vector hs (hother source manifest hs hsource hread) hvector

/-- **One step** keeps the invariant. -/
theorem Inv.step (h : Inv codecs root hist share) (hkept : Kept codecs root share e)
    (hjson : RoundTrips codecs root share e) :
    Inv codecs root (hist ++ [(share, e)]) (Embeddings.step codecs root share e) := by
  rcases hcall : callOf codecs root share e with _ | call
  · exact h.step_of_no_call hcall hkept
  · exact h.step_of_call hcall hkept hjson

/-- What the invariant says of a sidecar that is fresh. -/
theorem Inv.freshSound (h : Inv codecs root hist share)
    (hhash : ∀ source content call, share.file source = some content →
      latestCall codecs root hist source = some call →
        codecs.hashHex call.content = codecs.hashHex content → call.content = content) :
    FreshSound codecs root hist share := by
  intro source modelId dimensions content hs hcontent hfresh
  obtain ⟨manifest, vector, hread, hvector, hhashHex, hmodel, hdims, hlength⟩ :=
    (evaluateStaleness_eq_fresh_iff hs).mp hfresh
  obtain ⟨call, hcall, rfl, hsize, hmatch⟩ := h.latest source manifest vector hs hread hvector
  -- the vector has the size of the manifest, so the dimensions are the same
  have hexpected : expectedBytes manifest.dimensions = expectedBytes call.dimensions := by
    rw [← h.size source manifest hs hread, ← hlength, hsize]
  have hsame : manifest.dimensions = call.dimensions :=
    UInt32.toNat_inj.mp (Nat.eq_of_mul_eq_mul_right (by decide) hexpected)
  obtain ⟨hmodel', hhash'⟩ := hmatch hsame
  refine ⟨call, hcall, ?_, hmodel'.symm.trans hmodel, hsame.symm.trans hdims, ?_⟩
  · rw [locate_vectorBlobRelPath hs]
    exact hvector
  · exact hhash source content call hcontent hcall (hhash'.symm.trans hhashHex)

/-- A call for one source leaves the result for another, unless this is a sidecar of the first. -/
theorem freshness_step (hroot : share.file [] = none) (hcall : callOf codecs root share e = some call)
    (hs : IsSource source) (hne : source ≠ call.source)
    (hmanifest : source ≠ manifestRelPath call.source)
    (hvector : source ≠ vectorBlobRelPath call.source) (modelId : String) (dimensions : UInt32) :
    freshness codecs (Embeddings.step codecs root share e) source modelId dimensions =
      freshness codecs share source modelId dimensions := by
  obtain ⟨raw, hleaves, -⟩ := call_cases hroot hcall
  rw [manifestRelPath, (sidecarRelPath_of_isSource _ hleaves.source).1] at hmanifest
  rw [vectorBlobRelPath, (sidecarRelPath_of_isSource _ hleaves.source).1] at hvector
  obtain ⟨hsameManifest, hsameVector⟩ := hleaves.file_other hs hne
  have hcontent : (Embeddings.step codecs root share e).file source = share.file source := by
    rw [hleaves.file, if_neg hvector, if_neg hmanifest]
  rw [freshness, freshness, hcontent]
  apply congrArg fun f => Option.map f (share.file source)
  funext content
  exact evaluateStaleness_congr hs hsameManifest hsameVector _ _ _

/-- The sidecars of two sources are different files. -/
theorem sidecars_apart {raw raw' sourcePath sourcePath' : String}
    (h : normalizeSourceRel raw = .ok sourcePath) (h' : normalizeSourceRel raw' = .ok sourcePath')
    (hroot : locate (components sourcePath) ≠ []) (hroot' : locate (components sourcePath') ≠ [])
    (hne : locate (components sourcePath) ≠ locate (components sourcePath')) :
    manifestRelPath (components sourcePath) ≠ manifestRelPath (components sourcePath') ∧
      vectorBlobRelPath (components sourcePath) ≠ vectorBlobRelPath (components sourcePath') ∧
      manifestRelPath (components sourcePath) ≠ vectorBlobRelPath (components sourcePath') := by
  have hs := (components_of_normalized h hroot).1
  have hs' := (components_of_normalized h' hroot').1
  simp only [manifestRelPath, vectorBlobRelPath, sidecarRelPath_components _ h hroot,
    sidecarRelPath_components _ h' hroot']
  exact ⟨fun heq => hne ((sidecarAt_inj hs hs').mp heq), fun heq => hne ((sidecarAt_inj hs hs').mp heq),
    manifest_ne_vector _ _⟩

end

/-! ## Runs -/

section

variable (codecs : Codecs) (root : List String)

/-- **Freshness is sound** in every run in which no file of `.disk-embeddings` is edited and no call is
cut off beside a manifest that its vector could be taken to belong to. The sidecars of two sources are
different files, and a call for one leaves the result for the other, unless this is one of the sidecars
that the call writes. -/
theorem freshnessLaw (es : List Event)
    (hjson : Trace.Always (step codecs root) (fun _ share e => RoundTrips codecs root share e) start es)
    (hhash : Set.InjOn codecs.hashHex (held codecs root es))
    (hkept : Trace.Always (step codecs root) (fun _ share e => Kept codecs root share e) start es) :
    (∀ pre post, es = pre ++ post →
      FreshSound codecs root (Trace.history (step codecs root) start pre)
        (Trace.run (step codecs root) start pre)) ∧
    (∀ raw raw' sourcePath sourcePath', normalizeSourceRel raw = .ok sourcePath →
      normalizeSourceRel raw' = .ok sourcePath' → locate (components sourcePath) ≠ [] →
      locate (components sourcePath') ≠ [] →
      locate (components sourcePath) ≠ locate (components sourcePath') →
        manifestRelPath (components sourcePath) ≠ manifestRelPath (components sourcePath') ∧
        vectorBlobRelPath (components sourcePath) ≠ vectorBlobRelPath (components sourcePath') ∧
        manifestRelPath (components sourcePath) ≠ vectorBlobRelPath (components sourcePath')) ∧
    ∀ pre e post call, es = pre ++ e :: post →
      callOf codecs root (Trace.run (step codecs root) start pre) e = some call →
      ∀ source modelId dimensions, IsSource source → source ≠ call.source →
        source ≠ manifestRelPath call.source → source ≠ vectorBlobRelPath call.source →
          freshness codecs (Trace.run (step codecs root) start (pre ++ [e])) source modelId dimensions =
            freshness codecs (Trace.run (step codecs root) start pre) source modelId dimensions := by
  have hinv : ∀ pre post, es = pre ++ post → Inv codecs root
      (Trace.history (step codecs root) start pre) (Trace.run (step codecs root) start pre) := by
    rintro pre post rfl
    exact (Trace.Always.of_invariant (φ := fun _ _ _ => True)
      (I := fun hist share => Inv codecs root hist share) inv_start (fun _ _ _ _ => trivial)
      (fun _ _ h hstep => h.step hstep.2 hstep.1) (Trace.always_and.mpr ⟨hjson, hkept⟩).of_append).2
  refine ⟨?_, fun _ _ _ _ => sidecars_apart, ?_⟩
  · intro pre post hes
    apply (hinv pre post hes).freshSound
    intro source content call hcontent hcall hsame
    obtain ⟨-, x, hx, hcalled⟩ := exists_of_latestCall hcall
    obtain ⟨before, after, hhist⟩ := List.append_of_mem hx
    obtain ⟨es₁, es₂, hpre, -, hrun⟩ := Trace.exists_of_history_eq hhist
    refine hhash ⟨es₁, x.2 :: es₂ ++ post, source, ?_, ?_⟩ ⟨pre, post, source, hes, hcontent⟩ hsame
    · rw [hes, hpre, List.append_assoc]
    · rw [hrun]
      exact hcalled
  · intro pre e post call hes hcall source modelId dimensions hs hne hmanifest hvector
    rw [Trace.run_snoc]
    exact freshness_step (hinv pre _ hes).noRoot hcall hs hne hmanifest hvector modelId dimensions

/-! ### A source that is changed and changed back -/

/-- The hashes of `A` and of `B`, and another text for any other content. -/
def sampleHashHex (content : Bytes) : String :=
  if content = [65] then "32684bfa28c0c84d6f210511aace0efc5171c7889148ba89208d5aa29705fa98"
  else if content = [66] then "9f9524ca18c0cc03aef1a0b84faed9375e5d19575e9328e65fea72991f0f58cf"
  else String.ofList ('x' :: Text.hex content)

def sampleManifest : SidecarManifest where
  schemaVersion := 1
  sourcePath := "a.md"
  sourceContentHash := "32684bfa28c0c84d6f210511aace0efc5171c7889148ba89208d5aa29705fa98"
  modelId := "bge-m3"
  dimensions := 1
  vectorBytes := 4
  createdAtUnix := some 5

def sampleJson : String :=
  "\x7b\n  \"schema_version\": 1,\n  \"source_path\": \"a.md\",\n  \"source_content_hash\": " ++
  "\"32684bfa28c0c84d6f210511aace0efc5171c7889148ba89208d5aa29705fa98\",\n" ++
  "  \"model_id\": \"bge-m3\",\n  \"dimensions\": 1,\n  \"vector_bytes\": 4,\n" ++
  "  \"created_at_unix\": 5\n\x7d"

def sampleCodecs : Codecs where
  hashHex := sampleHashHex
  toStringPretty manifest :=
    if manifest = sampleManifest then sampleJson.toUTF8.data.toList else []
  fromStr raw := if raw = sampleJson.toUTF8.data.toList then some sampleManifest else none

def sampleRequest (vector : Bytes) : Request := ⟨"a.md", vector, "bge-m3", 1, 5⟩

/-- The source is `A` when its vector is written, `B` when a call for it is cut off, and `A` again. -/
def revertedRun : List Event :=
  [.edit ["a.md"] [65], .write (sampleRequest [1, 0, 0, 0]), .edit ["a.md"] [66],
    .cutOff (sampleRequest [2, 0, 0, 0]), .edit ["a.md"] [65]]

theorem isSource_sample : IsSource ["a.md"] := ⟨by simp, by decide⟩

/-- The manifest of `A` makes the vector of `B` fresh. -/
theorem not_freshSound_reverted :
    ¬ FreshSound sampleCodecs ["srv"] (Trace.history (step sampleCodecs ["srv"]) start revertedRun)
      (Trace.run (step sampleCodecs ["srv"]) start revertedRun) := by
  intro h
  obtain ⟨call, hcall, -, -, -, hcontent⟩ :=
    h ["a.md"] "bge-m3" 1 [65] isSource_sample (by decide +kernel) (by decide +kernel)
  have hlatest : latestCall sampleCodecs ["srv"]
      (Trace.history (step sampleCodecs ["srv"]) start revertedRun) ["a.md"] =
        some ⟨["a.md"], [2, 0, 0, 0], "bge-m3", 1, [66]⟩ := by decide +kernel
  rw [hlatest] at hcall
  cases hcall
  cases hcontent

theorem sampleHashHex_injective : Function.Injective sampleHashHex := by
  intro content content' h
  have hother : ∀ (name : String) (t : List Char), name.toList.head? ≠ some 'x' →
      name ≠ String.ofList ('x' :: t) := by
    rintro name t hname rfl
    rw [String.toList_ofList] at hname
    exact hname rfl
  unfold sampleHashHex at h
  split_ifs at h with hA hA' hB' hB hA' hB' hA' hB'
  · rw [hA, hA']
  · exact absurd h (by decide)
  · exact absurd h (hother _ _ (by decide))
  · exact absurd h (by decide)
  · rw [hB, hB']
  · exact absurd h (hother _ _ (by decide))
  · exact absurd h.symm (hother _ _ (by decide))
  · exact absurd h.symm (hother _ _ (by decide))
  · exact Text.hex_injective (List.cons_inj_right _ |>.mp (String.ofList_injective h))

/-- A run in which the call that is cut off is for the content and the model of the manifest. -/
def repeatedRun : List Event :=
  [.edit ["a.md"] [65], .write (sampleRequest [1, 0, 0, 0]), .cutOff (sampleRequest [2, 0, 0, 0])]

theorem roundTrips_repeated :
    Trace.Always (step sampleCodecs ["srv"])
      (fun _ share e => RoundTrips sampleCodecs ["srv"] share e) start repeatedRun := by
  have hwrite : RoundTrips sampleCodecs ["srv"]
      (Trace.run (step sampleCodecs ["srv"]) start [.edit ["a.md"] [65]])
      (.write (sampleRequest [1, 0, 0, 0])) := by
    intro sourcePath hashHex hcheck
    have hsource : checkSource sampleCodecs ["srv"]
        (Trace.run (step sampleCodecs ["srv"]) start [.edit ["a.md"] [65]])
        (sampleRequest [1, 0, 0, 0]) = .ok ("a.md", sampleHashHex [65]) := by decide +kernel
    rw [hsource] at hcheck
    cases hcheck
    decide +kernel
  show Trace.Always _ _ _ ([] ++ [_] ++ [_] ++ [_])
  exact Trace.always_snoc.mpr
    ⟨Trace.always_snoc.mpr ⟨Trace.always_snoc.mpr ⟨Trace.always_nil, trivial⟩, hwrite⟩, trivial⟩

theorem kept_repeated :
    Trace.Always (step sampleCodecs ["srv"])
      (fun _ share e => Kept sampleCodecs ["srv"] share e) start repeatedRun := by
  have hedit : Kept sampleCodecs ["srv"] start (.edit ["a.md"] [65]) := by
    show (["a.md"] : Path).head? ≠ some coStorageRoot
    decide
  have hcut : Kept sampleCodecs ["srv"]
      (Trace.run (step sampleCodecs ["srv"]) start
        [.edit ["a.md"] [65], .write (sampleRequest [1, 0, 0, 0])])
      (.cutOff (sampleRequest [2, 0, 0, 0])) := by
    intro call manifest hcall hread
    have hcalled : callBy sampleCodecs ["srv"]
        (Trace.run (step sampleCodecs ["srv"]) start
          [.edit ["a.md"] [65], .write (sampleRequest [1, 0, 0, 0])])
        (sampleRequest [2, 0, 0, 0]) = some ⟨["a.md"], [2, 0, 0, 0], "bge-m3", 1, [65]⟩ := by
      decide +kernel
    rw [hcalled] at hcall
    cases hcall
    have hthere : readFromShare sampleCodecs
        (Trace.run (step sampleCodecs ["srv"]) start
          [.edit ["a.md"] [65], .write (sampleRequest [1, 0, 0, 0])]) ["a.md"] =
        .ok (some sampleManifest) := by decide +kernel
    rw [hthere] at hread
    cases hread
    exact fun _ => ⟨rfl, rfl⟩
  show Trace.Always _ _ _ ([] ++ [_] ++ [_] ++ [_])
  exact Trace.always_snoc.mpr
    ⟨Trace.always_snoc.mpr ⟨Trace.always_snoc.mpr ⟨Trace.always_nil, hedit⟩, trivial⟩, hcut⟩

/-- The vector of the latest call is fresh. -/
theorem freshnessLaw_repeated :
    FreshSound sampleCodecs ["srv"] (Trace.history (step sampleCodecs ["srv"]) start repeatedRun)
      (Trace.run (step sampleCodecs ["srv"]) start repeatedRun) :=
  (freshnessLaw sampleCodecs ["srv"] repeatedRun roundTrips_repeated
    sampleHashHex_injective.injOn kept_repeated).1 repeatedRun [] (List.append_nil _).symm

end

end DiskArcana.Core.Embeddings
