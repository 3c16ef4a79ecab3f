import DiskArcana.Client.Files

/-!
# Sending a file

`Connection::delta_upload` of `connection.rs` cuts a file into blocks (`delta/chunker.rs`) and sends
one message for each. The stream carries the file (`uploadBytes_uploadStream`) and passes the
server's integrity checks, so an upload is decided by access, includes, path and quota alone
(`deltaUpload_uploadStream`).
-/

namespace DiskArcana.Client

open DiskArcana.Core DiskArcana.Lib DiskArcana.Server

/-! ## Blocks -/

/-- Source: `delta/chunker.rs`, `BLOCK_SIZE` -/
def blockSize : ℕ := 4096

/-- Cut bytes into blocks; each turn takes at least one byte, so as many turns as bytes are enough.
Source: `delta/chunker.rs`, `chunks` -/
def blocks : ℕ → Bytes → List Bytes
  | 0, _ => []
  | _ + 1, [] => []
  | turns + 1, bytes => bytes.take blockSize :: blocks turns (bytes.drop blockSize)

theorem blocks_cons (turns : ℕ) {bytes : Bytes} (h : bytes ≠ []) :
    blocks (turns + 1) bytes = bytes.take blockSize :: blocks turns (bytes.drop blockSize) := by
  cases bytes with
  | nil => exact absurd rfl h
  | cons b bytes => rfl

/-- The blocks of a file, put together, are the file. -/
theorem flatten_blocks {turns : ℕ} {bytes : Bytes} (h : bytes.length ≤ turns) :
    (blocks turns bytes).flatten = bytes := by
  induction turns generalizing bytes with
  | zero =>
      have hnil : bytes = [] := List.length_eq_zero_iff.mp (by omega)
      rw [hnil]
      rfl
  | succ turns ih =>
      by_cases hne : bytes = []
      · rw [hne]
        rfl
      · have hpos : 0 < bytes.length := List.length_pos_iff.mpr hne
        have hrest : (bytes.drop blockSize).length ≤ turns := by
          rw [List.length_drop]
          unfold blockSize
          omega
        rw [blocks_cons turns hne, List.flatten_cons, ih hrest, List.take_append_drop]

section

variable (blake3 : Bytes → Digest)

/-- A block on the wire. -/
def deltaChunk (data : Bytes) : DeltaChunk := ⟨data, (blake3 data).toList⟩

theorem chunkOk_deltaChunk (data : Bytes) : chunkOk blake3 (deltaChunk blake3 data) = true := by
  unfold chunkOk deltaChunk
  rw [Bool.or_eq_true]
  exact Or.inr (decide_eq_true rfl)

/-! ## The stream -/

/-- The messages of an upload: the first carries the path and the hash.
Source: `connection.rs`, `delta_upload` -/
def uploadStream (path : Path) (bytes : Bytes) : List DeltaUploadRequest :=
  match blocks bytes.length bytes with
  | [] => [⟨path, (blake3 bytes).toList, []⟩]
  | first :: rest =>
    ⟨path, (blake3 bytes).toList, [deltaChunk blake3 first]⟩ ::
      rest.map fun block => ⟨[], [], [deltaChunk blake3 block]⟩

/-- The first message announces the file. -/
theorem uploadStream_eq_cons (path : Path) (bytes : Bytes) :
    ∃ first rest, uploadStream blake3 path bytes = first :: rest ∧ first.path = path ∧
      first.contentHash = (blake3 bytes).toList := by
  unfold uploadStream
  rcases blocks bytes.length bytes with _ | ⟨first, rest⟩
  · exact ⟨_, _, rfl, rfl, rfl⟩
  · exact ⟨_, _, rfl, rfl, rfl⟩

/-- The chunks of a stream are the blocks of the file. -/
theorem chunks_uploadStream (path : Path) (bytes : Bytes) :
    (uploadStream blake3 path bytes).flatMap DeltaUploadRequest.chunks =
      (blocks bytes.length bytes).map (deltaChunk blake3) := by
  unfold uploadStream
  rcases blocks bytes.length bytes with _ | ⟨first, rest⟩
  · rfl
  · have hrest : (rest.map fun block =>
        (⟨[], [], [deltaChunk blake3 block]⟩ : DeltaUploadRequest)).flatMap
          DeltaUploadRequest.chunks = rest.map (deltaChunk blake3) := by
      induction rest with
      | nil => rfl
      | cons block rest ih =>
          rw [List.map_cons, List.flatMap_cons, ih]
          rfl
    rw [List.flatMap_cons, hrest]
    rfl

/-- **The stream carries the file.** -/
theorem uploadBytes_uploadStream {call : UploadCall} {path : Path} {bytes : Bytes}
    (h : call.stream = uploadStream blake3 path bytes) : uploadBytes call = bytes := by
  unfold uploadBytes
  rw [h, chunks_uploadStream, List.flatMap_map]
  calc (blocks bytes.length bytes).flatMap (fun block => (deltaChunk blake3 block).data)
      = (blocks bytes.length bytes).flatMap id := rfl
    _ = (blocks bytes.length bytes).flatten := List.flatMap_id
    _ = bytes := flatten_blocks le_rfl

theorem checkContentHash_self (hash : Digest) : checkContentHash hash.toList hash = .ok () := by
  have hlen : hash.toList.length = 32 := hash.toList_length
  have hne : hash.toList.isEmpty = false := by
    rw [List.isEmpty_eq_false_iff, ← List.length_pos_iff]
    omega
  unfold checkContentHash
  rw [if_neg (by simp [hne]), if_neg (not_not.mpr hlen), if_pos rfl]

/-- **An upload is decided by access, includes, path and quota**: a stream of the client passes the
integrity checks. -/
theorem deltaUpload_uploadStream {call : UploadCall} {path : Path} {bytes : Bytes}
    (h : call.stream = uploadStream blake3 path bytes) (s : SyncServer) :
    deltaUpload blake3 s call =
      if checkAcl call.role writeRoles = false then .error "ACL role mismatch"
      else if pathMatchesIncludes (pathString path) call.includes = false then
        .error "path outside selective sync includes"
      else (validatePath path).bind fun target =>
        if call.quotaOk = false then .error "storage quota exceeded"
        else .ok (commitUpload blake3 s target bytes call) := by
  obtain ⟨first, rest, hs, hpath, hhash⟩ := uploadStream_eq_cons blake3 path bytes
  have hstream : call.stream = first :: rest := h.trans hs
  have hbytes : ((first :: rest).flatMap DeltaUploadRequest.chunks).flatMap DeltaChunk.data =
      bytes := by
    rw [← hstream]
    exact uploadBytes_uploadStream blake3 h
  have hchunks : ((first :: rest).flatMap DeltaUploadRequest.chunks).all (chunkOk blake3) =
      true := by
    rw [← hs, chunks_uploadStream, List.all_map, List.all_eq_true]
    intro block _
    exact chunkOk_deltaChunk blake3 block
  have hcheck : checkContentHash first.contentHash (blake3 bytes) = .ok () := by
    rw [hhash]
    exact checkContentHash_self _
  unfold deltaUpload
  simp only [hstream, hpath, hchunks, hbytes, hcheck]
  rcases checkAcl call.role writeRoles with _ | _
  · rfl
  rcases pathMatchesIncludes (pathString path) call.includes with _ | _
  · rfl
  rcases validatePath path with e | target
  · rfl
  rcases call.quotaOk with _ | _
  · rfl
  · rfl

/-- What is served is the file at the target of the path. -/
theorem of_deltaDownload {s : SyncServer} {role : Option EnforcedRole} {includes : List String}
    {path : Path} {data : Bytes} (h : deltaDownload s role includes path = .ok data) :
    ∃ target, validatePath path = .ok target ∧ s.shareTree.lookup target = some data := by
  unfold deltaDownload at h
  rcases hacl : checkAcl role readRoles with _ | _
  · simp only [hacl, Bool.not_false, if_true] at h
    cases h
  rcases hinc : pathMatchesIncludes (pathString path) includes with _ | _
  · simp only [hacl, hinc, Bool.not_true, Bool.not_false, if_true] at h
    cases h
  rcases hv : validatePath path with e | target
  · simp only [hacl, hinc, hv, Bool.not_true] at h
    cases h
  simp only [hacl, hinc, hv, Bool.not_true] at h
  rcases hlookup : s.shareTree.lookup target with _ | bytes
  · simp only [bind, Except.bind, hlookup] at h
    cases h
  · simp only [bind, Except.bind, hlookup] at h
    cases h
    exact ⟨target, rfl, hlookup⟩

end

end DiskArcana.Client
