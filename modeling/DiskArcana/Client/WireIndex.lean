import DiskArcana.Client.Encrypted
import DiskArcana.Server.MetaDb

/-!
# What a client remembers of its ciphertexts

The rows of `files` in the client's own store, which all its shares use, and `persist_e2ee_wire_meta`,
which writes the ciphertext of a file that was uploaded or downloaded: into the cache of the
`RemoteSync`, and into the row of the file under the vault that has the share's name. `list_all_files`
reads the rows of the vault `default`.
-/

namespace DiskArcana.Client

open DiskArcana.Core DiskArcana.Lib DiskArcana.Server

/-- The rows of `files` of a client, under vault and path; their tenant is `NULL`. -/
abbrev ClientRows := Table (String × Path) FileRow

/-- Source: `meta_db/files.rs`, `VAULT_DEFAULT` -/
def vaultDefault : String := "default"

namespace ClientRows

variable (rows : ClientRows)

/-- Source: `meta_db/files.rs`, `upsert_file_scoped` -/
def upsertFileScoped (vaultId : String) (m : FileMeta) : ClientRows :=
  rows.insert (vaultId, m.path) (MetaDb.upsertRow (rows.lookup (vaultId, m.path)) m)

/-- Source: `meta_db/files.rs`, `list_files_scoped` -/
def listFilesScoped (vaultId : String) : List FileMeta :=
  sortByPath ((rows.entries.filter fun e => decide (e.1.1 = vaultId)).map fun e =>
    rowToMeta e.1.2 e.2)

/-- Source: `meta_db/files.rs`, `list_all_files` -/
def listAllFiles : List FileMeta := rows.listFilesScoped vaultDefault

theorem lookup_upsertFileScoped (vaultId : String) (m : FileMeta) (key : String × Path) :
    (rows.upsertFileScoped vaultId m).lookup key =
      if key = (vaultId, m.path) then some (MetaDb.upsertRow (rows.lookup (vaultId, m.path)) m)
      else rows.lookup key :=
  Table.lookup_insert_eq_ite _ _ _ _

/-- The rows of a vault, each under its path. -/
theorem lists_listFilesScoped (vaultId : String) :
    Table.Lists FileMeta.path (fun path => (rows.lookup (vaultId, path)).map (rowToMeta path))
      (rows.listFilesScoped vaultId) :=
  (Table.Lists.entriesAt rows vaultId rowToMeta fun _ _ => rfl).perm (List.perm_insertionSort _ _)

/-! ### Other contents -/

/-- The row with another hash, and with another nonce if it has one. -/
def relabelRow (x : Digest × Nonce) (row : FileRow) : FileRow :=
  { row with
    contentHash := x.1
    encryptionNonce := row.encryptionNonce.map fun nonce => if nonce.isEmpty then nonce else x.2.toList }

/-- The same for what is read of a row. -/
def relabelMeta (x : Digest × Nonce) (m : FileMeta) : FileMeta :=
  { m with
    contentHash := x.1
    encryptionNonce := m.encryptionNonce.map fun nonce => if nonce.isEmpty then nonce else x.2.toList }

/-- The rows, with other contents for those of which `p` holds. -/
def relabel (p : String × Path → FileRow → Bool) (g : String × Path → Digest × Nonce) : ClientRows :=
  Table.mapValues (fun key row => if p key row then relabelRow (g key) row else row) rows

theorem listFilesScoped_relabel_of_false {p : String × Path → FileRow → Bool} {vaultId : String}
    (hp : ∀ path row, p (vaultId, path) row = false) (g : String × Path → Digest × Nonce) :
    (rows.relabel p g).listFilesScoped vaultId = rows.listFilesScoped vaultId := by
  unfold listFilesScoped relabel Table.mapValues
  rw [List.filter_map, List.map_map]
  congr 1
  refine List.map_congr_left fun e he => ?_
  obtain ⟨-, hvault⟩ := List.mem_filter.mp he
  obtain ⟨⟨vault, path⟩, row⟩ := e
  have hvault : vault = vaultId := by simpa using hvault
  subst hvault
  simp [hp]

theorem listFilesScoped_relabel_of_true {p : String × Path → FileRow → Bool} {vaultId : String}
    (hp : ∀ path row, p (vaultId, path) row = true) (g : String × Path → Digest × Nonce) :
    (rows.relabel p g).listFilesScoped vaultId =
      (rows.listFilesScoped vaultId).map fun m => relabelMeta (g (vaultId, m.path)) m := by
  unfold listFilesScoped relabel Table.mapValues sortByPath
  rw [List.filter_map, List.map_map]
  refine Eq.trans ?_ (List.map_insertionSort _
    (fun a b : FileMeta => (pathString a.path).toList ≤ (pathString b.path).toList) _ _
    fun _ _ _ _ => Iff.rfl).symm
  rw [List.map_map]
  congr 1
  refine List.map_congr_left fun e he => ?_
  obtain ⟨-, hvault⟩ := List.mem_filter.mp he
  obtain ⟨⟨vault, path⟩, row⟩ := e
  have hvault : vault = vaultId := by simpa using hvault
  subst hvault
  simp [hp]
  rfl

/-- Other contents are those of another ciphertext. -/
theorem fromFileMeta_relabelMeta (x : Digest × Nonce) (m : FileMeta) :
    E2eeCachedWire.fromFileMeta (relabelMeta x m) =
      (E2eeCachedWire.fromFileMeta m).map fun c =>
        { c with contentHash := x.1, encryptionNonce := x.2.toList } := by
  unfold E2eeCachedWire.fromFileMeta relabelMeta
  rcases m.encryptionNonce with _ | nonce
  · rfl
  · by_cases hempty : nonce = []
    · rw [hempty]
      rfl
    · simp [hempty, Option.filter_some]

theorem lookup_relabel (p : String × Path → FileRow → Bool) (g : String × Path → Digest × Nonce)
    (key : String × Path) :
    (rows.relabel p g).lookup key =
      (rows.lookup key).map fun row => if p key row then relabelRow (g key) row else row :=
  Table.lookup_mapValues _ _ _

end ClientRows

/-- What a client knows of its ciphertexts: the cache of a `RemoteSync`, and the rows. -/
structure WireIndex where
  /-- Source: `sync_loop/wire.rs`, `e2ee_wire_cache` -/
  wireCache : Table String E2eeCachedWire
  rows : ClientRows

/-- The row that is written for a ciphertext. -/
def wireMeta (nodeId : NodeId) (relPath : Path) (contentHash : Digest) (encryptionNonce : Bytes)
    (mtimeNs : ℤ) (plaintextSize : ℕ) : FileMeta where
  path := relPath
  contentHash := contentHash
  size := plaintextSize
  mtimeNs := mtimeNs
  inode := none
  vectorClock := .new
  deleted := false
  deletedAt := none
  nodeId := nodeId
  encryptionNonce := some encryptionNonce
  versionId := none
  parentVersionId := none

/-- `hasDb` when the client has a store; `dbOk` is `false` when it refuses the write.
Source: `sync_loop/wire.rs`, `persist_e2ee_wire_meta` -/
def WireIndex.persistE2eeWireMeta (index : WireIndex) (nodeId : NodeId) (share : String)
    (hasDb dbOk : Bool) (relPath : Path) (contentHash : Digest) (encryptionNonce : Bytes)
    (mtimeNs : ℤ) (plaintextSize : ℕ) : WireIndex where
  wireCache :=
    index.wireCache.insert (pathString relPath) ⟨contentHash, encryptionNonce, mtimeNs, plaintextSize⟩
  rows :=
    if hasDb && dbOk then
      index.rows.upsertFileScoped share
        (wireMeta nodeId relPath contentHash encryptionNonce mtimeNs plaintextSize)
    else index.rows

end DiskArcana.Client
