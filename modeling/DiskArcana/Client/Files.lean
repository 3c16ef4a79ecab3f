import DiskArcana.Server.Transfer

/-!
# The client's file operations

What one step of the client's sync cycle does to its vault directory: scanning it into a snapshot
(`scanner/walk.rs`, `scanner/hash.rs`) and materialising downloaded bytes (`e2ee/download.rs`).

A vault directory is a table of regular files. `decrypt nonce wire` is the authenticated decryption
with the client's vault key; a client without a key decrypts nothing.
-/

namespace DiskArcana.Client

open DiskArcana.Core DiskArcana.Lib DiskArcana.Server

section

variable (blake3 : Bytes → Digest)

/-! ## Scanning -/

/-- The cached hash of a file whose size and modification time have not changed.
Source: `scanner/hash.rs`, `fast_path_hash` -/
def fastPathHash (prior : Option FileMeta) (size : ℕ) (mtimeNs : ℤ) : Option Digest :=
  (prior.filter fun p => decide (p.size = size) && decide (p.mtimeNs = mtimeNs)).map
    FileMeta.contentHash

/-- The walk yields paths below the root, as normal components. -/
def isWalkPath (rel : Path) : Bool := !rel.isEmpty && rel.all isNormal

/-- The snapshot entry of one file.
Source: `scanner/walk.rs`, `FileScanner::scan` -/
def scanMeta (nodeId : NodeId) (lastKnown : PathMap FileMeta) (stat : Path → FileStat) (rel : Path)
    (bytes : Bytes) : FileMeta where
  path := rel
  contentHash :=
    (fastPathHash (lastKnown.lookup rel) bytes.length (stat rel).mtimeNs).getD (blake3 bytes)
  size := bytes.length
  mtimeNs := (stat rel).mtimeNs
  inode := (stat rel).inode
  vectorClock := ((lastKnown.lookup rel).map FileMeta.vectorClock).getD .new
  deleted := false
  deletedAt := none
  nodeId := nodeId
  encryptionNonce := none
  versionId := none
  parentVersionId := none

/-- Walk a vault directory and emit one entry for each file the filter lets through, sorted by
path.
Source: `scanner/walk.rs`, `FileScanner::scan` -/
def scan (filter : Filter) (nodeId : NodeId) (lastKnown : PathMap FileMeta) (stat : Path → FileStat)
    (disk : PathMap Bytes) : List FileMeta :=
  (((disk.entries.map fun e => scanMeta blake3 nodeId lastKnown stat e.1 e.2).filter
    fun m => isWalkPath m.path && !filter.isExcluded m.path).insertionSort
      fun a b => a.path ≤ b.path)

/-- The files of a scan, in its order. -/
def walked (filter : Filter) (disk : PathMap Bytes) : List (Sigma fun _ : Path => Bytes) :=
  (disk.entries.filter fun e => isWalkPath e.1 && !filter.isExcluded e.1).insertionSort
    fun a b => a.1 ≤ b.1

/-- Which files a scan emits, and in which order, does not depend on what it knows of them. -/
theorem scan_eq_map (filter : Filter) (nodeId : NodeId) (lastKnown : PathMap FileMeta)
    (stat : Path → FileStat) (disk : PathMap Bytes) :
    scan blake3 filter nodeId lastKnown stat disk =
      (walked filter disk).map fun e => scanMeta blake3 nodeId lastKnown stat e.1 e.2 := by
  unfold scan walked
  rw [List.filter_map]
  exact (List.map_insertionSort _ (fun a b : FileMeta => a.path ≤ b.path) _ _
    fun _ _ _ _ => Iff.rfl).symm

theorem mem_walked {filter : Filter} {disk : PathMap Bytes} {path : Path} {bytes : Bytes} :
    (⟨path, bytes⟩ : Sigma fun _ : Path => Bytes) ∈ walked filter disk ↔
      disk.lookup path = some bytes ∧ isWalkPath path = true ∧ filter.isExcluded path = false := by
  unfold walked
  rw [List.mem_insertionSort, List.mem_filter, Table.mem_entries_iff]
  simp

/-- A scan lists the files that the walk reaches and the filter lets through. -/
theorem lists_scan (filter : Filter) (nodeId : NodeId) (lastKnown : PathMap FileMeta)
    (stat : Path → FileStat) (disk : PathMap Bytes) :
    Table.Lists FileMeta.path
      (fun rel => if isWalkPath rel && !filter.isExcluded rel then
        (disk.lookup rel).map (scanMeta blake3 nodeId lastKnown stat rel) else none)
      (scan blake3 filter nodeId lastKnown stat disk) :=
  ((Table.Lists.entries disk (scanMeta blake3 nodeId lastKnown stat) fun _ _ => rfl).filter
    fun rel => isWalkPath rel && !filter.isExcluded rel).perm (List.perm_insertionSort _ _)

/-- The snapshot a client sends: its scan, on the wire. -/
def snapshot (filter : Filter) (nodeId : NodeId) (lastKnown : PathMap FileMeta)
    (stat : Path → FileStat) (disk : PathMap Bytes) : List FileMetadata :=
  (scan blake3 filter nodeId lastKnown stat disk).map fileMetaToProto

/-- **What the server reads off a snapshot at a path**: the entry of the file there, through the
wire, if the walk reaches it and the filter lets it through. -/
theorem clientAt_snapshot (filter : Filter) (nodeId : NodeId) (lastKnown : PathMap FileMeta)
    (stat : Path → FileStat) (disk : PathMap Bytes) (path : Path) :
    clientAt (snapshot blake3 filter nodeId lastKnown stat disk) path =
      if isWalkPath path && !filter.isExcluded path then
        (disk.lookup path).map fun bytes =>
          protoToFileMeta (fileMetaToProto (scanMeta blake3 nodeId lastKnown stat path bytes))
      else none := by
  have hwire := (((lists_scan blake3 filter nodeId lastKnown stat disk).map
    FileMetadata.path fileMetaToProto fun _ => rfl).map FileMeta.path protoToFileMeta
    fun _ => rfl).filter
    fun path => !isSyncEphemeralMarker path
  have hlook := hwire.lookup_collect path
  unfold clientAt indexByPath clientFiles snapshot
  rw [hlook]
  rcases he : isSyncEphemeralMarker path with _ | _
  · rw [Bool.not_false, if_pos rfl]
    split_ifs
    · rw [Option.map_map, Option.map_map]
      rfl
    · rfl
  · rw [filter.isExcluded_of_ephemeral he]
    simp

/-- A snapshot reports a path live or says nothing about it: live when the walk reaches a file that
the filter lets through. -/
theorem side_clientAt_snapshot (filter : Filter) (nodeId : NodeId) (lastKnown : PathMap FileMeta)
    (stat : Path → FileStat) (disk : PathMap Bytes) (path : Path) :
    (side (clientAt (snapshot blake3 filter nodeId lastKnown stat disk) path) = .live ∧
      isWalkPath path = true ∧ filter.isExcluded path = false ∧ disk.lookup path ≠ none) ∨
    (clientAt (snapshot blake3 filter nodeId lastKnown stat disk) path = none ∧
      ¬ (isWalkPath path = true ∧ filter.isExcluded path = false ∧ disk.lookup path ≠ none)) := by
  rw [clientAt_snapshot]
  rcases hw : isWalkPath path with _ | _
  · exact Or.inr ⟨rfl, by simp⟩
  rcases hf : filter.isExcluded path with _ | _
  · rcases disk.lookup path with _ | bytes
    · exact Or.inr ⟨rfl, by simp⟩
    · exact Or.inl ⟨rfl, rfl, rfl, by simp⟩
  · exact Or.inr ⟨rfl, by simp⟩

/-- Nothing is reported live under an excluded path. -/
theorem clientAt_snapshot_of_excluded {filter : Filter} {path : Path}
    (h : filter.isExcluded path = true) (nodeId : NodeId) (lastKnown : PathMap FileMeta)
    (stat : Path → FileStat) (disk : PathMap Bytes) :
    clientAt (snapshot blake3 filter nodeId lastKnown stat disk) path = none := by
  rw [clientAt_snapshot]
  simp [h]

/-- The guard leaves a path of the walk as it is. -/
theorem eq_of_validatePath {path target : Path} (hw : isWalkPath path = true)
    (h : validatePath path = .ok target) : target = path := by
  unfold validatePath at h
  split_ifs at h
  cases h
  refine List.filter_eq_self.mpr fun segment hs => ?_
  unfold isWalkPath at hw
  have hnormal := List.all_eq_true.mp (Bool.and_eq_true_iff.mp hw).2 segment hs
  unfold isNormal at hnormal
  simp only [Bool.and_eq_true] at hnormal
  exact hnormal.1.2

/-! ## Materialising a download -/

/-- Check the wire hash, then decrypt when the entry carries a nonce. An expected hash that is not 32
bytes long, or all zero, is a placeholder and checks nothing.
Source: `e2ee/download.rs`, `DownloadPayload::from_wire_bytes` -/
def fromWireBytes (decrypt : Bytes → Bytes → Option Bytes) (wire nonce expected : Bytes) :
    Option Bytes :=
  let placeholder := expected.length != 32 || expected.all (· == 0)
  if !placeholder && decide ((blake3 wire).toList ≠ expected) then none
  else if nonce.isEmpty then some wire
  else decrypt nonce wire

/-- Source: `sync_loop/wire.rs`, `materialize_downloaded_bytes` -/
def materializeDownloadedBytes (decrypt : Bytes → Bytes → Option Bytes) (wire : Bytes)
    (entry : FileMetadata) : Option Bytes :=
  fromWireBytes blake3 decrypt wire entry.encryptionNonce (digestOfBytes entry.contentHash).toList

/-- Only the all-zero digest is a placeholder. -/
theorem placeholder_eq_false {d : Digest} (hd : d ≠ zeroDigest) :
    (d.toList.length != 32 || d.toList.all (· == 0)) = false := by
  rw [Bool.or_eq_false_iff]
  refine ⟨by simp, ?_⟩
  by_contra hall
  rw [Bool.not_eq_false, List.all_eq_true] at hall
  refine hd (List.Vector.toList_injective ?_)
  show d.toList = List.replicate 32 0
  exact List.eq_replicate_iff.mpr ⟨d.toList_length, fun b hb => by simpa using hall b hb⟩

/-- Bytes with another hash than a proper one are refused. -/
theorem fromWireBytes_of_ne {decrypt : Bytes → Bytes → Option Bytes} {wire nonce : Bytes} {d : Digest}
    (hd : d ≠ zeroDigest) (hne : blake3 wire ≠ d) :
    fromWireBytes blake3 decrypt wire nonce d.toList = none := by
  have hlist : (blake3 wire).toList ≠ d.toList := fun h => hne (List.Vector.toList_injective h)
  unfold fromWireBytes
  simp only [placeholder_eq_false hd, Bool.not_false, Bool.true_and, decide_eq_true_eq, if_pos hlist]

/-- Plaintext that passes the check of a proper hash has that hash. -/
theorem of_fromWireBytes {decrypt : Bytes → Bytes → Option Bytes} {wire bytes : Bytes} {d : Digest}
    (hd : d ≠ zeroDigest) (h : fromWireBytes blake3 decrypt wire [] d.toList = some bytes) :
    blake3 bytes = d := by
  by_contra hne
  unfold fromWireBytes at h
  simp only [placeholder_eq_false hd, Bool.not_false, Bool.true_and, decide_eq_true_eq,
    List.isEmpty_nil, if_true] at h
  split_ifs at h with hlist
  cases h
  exact hne (List.Vector.toList_injective (not_not.mp hlist))

/-- Without a nonce, what arrives is what came over the wire. -/
theorem eq_of_fromWireBytes_nil {decrypt : Bytes → Bytes → Option Bytes} {wire expected bytes : Bytes}
    (h : fromWireBytes blake3 decrypt wire [] expected = some bytes) : bytes = wire := by
  unfold fromWireBytes at h
  simp only [List.isEmpty_nil, if_true] at h
  split_ifs at h
  cases h
  rfl

/-- The same for the entry of a download. -/
theorem of_materialize {decrypt : Bytes → Bytes → Option Bytes} {wire bytes : Bytes}
    {entry : FileMetadata} (hn : entry.encryptionNonce = []) {d : Digest} (hd : d ≠ zeroDigest)
    (he : entry.contentHash = d.toList)
    (h : materializeDownloadedBytes blake3 decrypt wire entry = some bytes) : blake3 bytes = d := by
  unfold materializeDownloadedBytes at h
  rw [he, hn, digestOfBytes_toList] at h
  exact of_fromWireBytes blake3 hd h

end

end DiskArcana.Client
