import DiskArcana.Hosting.Blobs

/-!
# Rows and the bytes that are served

A live row should describe the file that a download of its path returns. An upload writes both in one
place, below the root of its share; a restore writes the row of its vault and the file below
`sync_root`, whatever the share's root. The rows agree with the bytes along every run of successful
operations whose restores are of vaults served from `sync_root`, whose uploads have no backslash in
their paths and do not lose their row, and none of which writes into the content store or over the
file of another scope's row (`rows_agree_with_bytes`).

Sizes are recorded beside hashes, and a restore takes the two from different places, so the contents
that are uploaded must not collide under the hash.
-/

namespace DiskArcana.Hosting

open DiskArcana.Core DiskArcana.Lib DiskArcana.Lib.LexicalPath DiskArcana.Server DiskArcana.System

section

variable (blake3 : Bytes → Digest) (cfg : HostConfig) (contents : Set Bytes)

/-! ## Agreement -/

/-- A hash and a size of one of the contents. -/
def Known (hash : Digest) (size : ℕ) : Prop :=
  ∃ content ∈ contents, hash = blake3 content ∧ size = content.length

/-- The row of a path and the file that the path is served from: it is no place of the content store,
has the row's hash if it is there, and is there if the row is live. -/
structure ServedAt (h : Host) (scope : Scope) (path : String) (row : FileRow) (rel : List String) :
    Prop where
  string : path = pathString rel
  guard : pathGuard (cfg.rootFor scope.2) path = .ok (cfg.rootFor scope.2 ++ rel)
  offStore : ∀ hash, cfg.rootFor scope.2 ++ rel ≠ blobLoc cfg hash
  agrees : ∀ bytes, h.files.lookup (cfg.rootFor scope.2 ++ rel) = some bytes →
    blake3 bytes = row.contentHash
  live : row.deleted = false → h.files.lookup (cfg.rootFor scope.2 ++ rel) ≠ none

/-- What holds along the runs. -/
structure Agrees (h : Host) : Prop where
  files : ∀ loc bytes, h.files.lookup loc = some bytes → bytes ∈ contents
  blobs : BlobsSound blake3 cfg h
  rows : ∀ scope key row, (h.db scope).files.lookup key = some row →
    Known blake3 contents row.contentHash row.size
  served : ∀ scope path row, (h.db scope).files.lookup (dbKey path) = some row →
    ∃ rel, ServedAt blake3 cfg h scope path row rel
  versions : ∀ scope, ∀ v ∈ (h.db scope).fileVersions, Known blake3 contents v.contentHash v.size
  snapshots : ∀ id scope files, h.snapshots.lookup id = some (scope, files) → ∀ entry ∈ files,
    Known blake3 contents entry.contentHash entry.size ∧ '\\' ∉ (pathString entry.path).toList

/-! ## What a step must not do -/

/-- Bytes may be put at a location for a row of the scope: it is no place of the content store, and
no row of another scope with another hash is served from it. -/
structure Placeable (h : Host) (scope : Scope) (target : List String) (bytes : Bytes) : Prop where
  offStore : ∀ hash, target ≠ blobLoc cfg hash
  unshared : ∀ other path row, other ≠ scope → (h.db other).files.lookup (dbKey path) = some row →
    pathGuard (cfg.rootFor other.2) path = .ok target → row.contentHash = blake3 bytes

/-- The files of a snapshot, each in the state that the loop finds; no write breaks off, and a file that
is written gets its row. -/
def SnapshotAgrees (h : Host) (r : RestoreRequest) : ℕ → List SnapshotFile → Prop
  | _, [] => True
  | i, entry :: rest =>
    FallbackSound cfg h r.scope entry.path entry.contentHash
        (if entry.versionId = 0 then none else some entry.versionId) ∧
      (∀ rev target, planSnapshotFile blake3 cfg h r entry = some rev →
        pathGuard cfg.syncRoot rev.path = .ok target →
          Placeable blake3 cfg h r.scope target rev.bytes ∧
          (∀ n, (r.env i).write ≠ .cut n) ∧
          ((r.env i).write.isDone = true → (r.env i).upsertOk = true ∧
            (h.db r.scope).upsertFileScopedVersioned (restoredRow cfg (r.env i) rev target)
              ⟨r.user, r.retention⟩ (r.env i).now ≠ none)) ∧
      SnapshotAgrees (restoreSnapshotFile blake3 cfg h r (r.env i) entry) r (i + 1) rest

/-- The request succeeds and keeps rows and bytes together. -/
def StepAgrees (h : Host) : Request → Prop
  | .upload r => (∃ d, (deltaUpload blake3 cfg h r).1 = .ok d) ∧
      ∀ a spool target, Commits blake3 cfg r a spool target →
        spool.getD [] ∈ contents ∧ '\\' ∉ a.path.toList ∧
        Placeable blake3 cfg h r.scope target (spool.getD []) ∧ r.upsertOk = true ∧
        (h.db r.scope).upsertFileScopedVersioned (rowMeta blake3 cfg r target (spool.getD []))
          ⟨cfg.serverNodeId, r.retention⟩ r.now ≠ none
  | .restoreVersion r path versionId =>
      (restoreVersion cfg h r path versionId).1 = .ok () ∧ cfg.rootFor r.vault = cfg.syncRoot ∧
      ∀ rev target, planVersion cfg h r path versionId = .ok rev →
        pathGuard cfg.syncRoot rev.path = .ok target →
          Placeable blake3 cfg h r.scope target rev.bytes
  | .restoreTrash r path =>
      (restoreTrash blake3 cfg h r path).1 = .ok () ∧ cfg.rootFor r.vault = cfg.syncRoot ∧
      ∀ rev, planTrash blake3 cfg h r path = .ok rev →
        (∀ m, (h.db r.scope).getFileScoped (dbKey rev.path) = some m →
          FallbackSound cfg h r.scope (dbKey rev.path) m.contentHash m.versionId) ∧
        ∀ target, pathGuard cfg.syncRoot rev.path = .ok target →
          Placeable blake3 cfg h r.scope target rev.bytes
  | .restoreSnapshot r id =>
      (restoreSnapshot blake3 cfg h r id).1 = .ok () ∧ cfg.rootFor r.vault = cfg.syncRoot ∧
      ∀ files, h.snapshots.lookup id = some (r.scope, files) → SnapshotAgrees blake3 cfg h r 0 files
  | _ => True

variable {blake3 cfg contents}

/-! ## Writes -/

/-- What is served depends on the file at its place only. -/
theorem ServedAt.of_lookup_eq {h h' : Host} {scope : Scope} {path : String} {row : FileRow}
    {rel : List String} (hs : ServedAt blake3 cfg h scope path row rel)
    (hkeep : h'.files.lookup (cfg.rootFor scope.2 ++ rel) =
      h.files.lookup (cfg.rootFor scope.2 ++ rel)) :
    ServedAt blake3 cfg h' scope path row rel := by
  refine ⟨hs.string, hs.guard, hs.offStore, ?_, ?_⟩
  · rw [hkeep]
    exact hs.agrees
  · rw [hkeep]
    exact hs.live

/-- A write elsewhere, or of bytes with the row's hash, does not part a row from its file. -/
theorem ServedAt.write {h : Host} {scope : Scope} {path : String} {row : FileRow}
    {rel : List String} (hs : ServedAt blake3 cfg h scope path row rel) {loc : List String}
    {bytes : Bytes} (hbytes : cfg.rootFor scope.2 ++ rel = loc → blake3 bytes = row.contentHash) :
    ServedAt blake3 cfg (h.write loc bytes) scope path row rel := by
  by_cases heq : cfg.rootFor scope.2 ++ rel = loc
  · have hnew : (h.write loc bytes).files.lookup (cfg.rootFor scope.2 ++ rel) = some bytes := by
      rw [Host.write_files, Table.lookup_insert_eq_ite, if_pos heq]
    refine ⟨hs.string, hs.guard, hs.offStore, ?_, ?_⟩
    · intro b hb
      rw [hnew] at hb
      cases hb
      exact hbytes heq
    · intro _
      rw [hnew]
      exact Option.some_ne_none _
  · apply hs.of_lookup_eq
    rw [Host.write_files, Table.lookup_insert_eq_ite, if_neg heq]

/-- A write of one of the contents leaves files with such contents. -/
theorem Agrees.mem_of_lookup_write {h : Host} (hA : Agrees blake3 cfg contents h) {bytes : Bytes}
    (hbytes : bytes ∈ contents) {target loc : List String} {b : Bytes}
    (hb : (h.write target bytes).files.lookup loc = some b) : b ∈ contents := by
  rw [Host.write_files, Table.lookup_insert_eq_ite] at hb
  split_ifs at hb
  · cases hb
    exact hbytes
  · exact hA.files loc b hb

/-- Agreement is about the files, the tables and the snapshots. -/
theorem Agrees.of_eq {h h' : Host} (hA : Agrees blake3 cfg contents h) (hfiles : h'.files = h.files)
    (hdb : h'.db = h.db) (hsnap : h'.snapshots = h.snapshots) : Agrees blake3 cfg contents h' := by
  refine ⟨?_, ?_, ?_, ?_, ?_, ?_⟩
  · rw [hfiles]
    exact hA.files
  · intro hash bytes hget
    unfold getBlob at hget
    rw [hfiles] at hget
    exact hA.blobs hash bytes hget
  · rw [hdb]
    exact hA.rows
  · intro scope path row hrow
    rw [hdb] at hrow
    obtain ⟨rel, hs⟩ := hA.served scope path row hrow
    refine ⟨rel, hs.of_lookup_eq ?_⟩
    rw [hfiles]
  · rw [hdb]
    exact hA.versions
  · rw [hsnap]
    exact hA.snapshots

/-- A blob of its hash may be stored. -/
theorem Agrees.write_blob {h : Host} (hA : Agrees blake3 cfg contents h) {bytes : Bytes}
    (hbytes : bytes ∈ contents) {hash : Digest} (hhash : blake3 bytes = hash) :
    Agrees blake3 cfg contents (h.write (blobLoc cfg hash) bytes) := by
  refine ⟨?_, ?_, hA.rows, ?_, hA.versions, hA.snapshots⟩
  · exact fun loc b hb => hA.mem_of_lookup_write hbytes hb
  · refine hA.blobs.of_changesBy (W := fun l b => l = blobLoc cfg hash ∧ b = bytes)
      ((Table.ChangesBy.refl _ _).insert ⟨rfl, rfl⟩) ?_
    rintro l b ⟨rfl, rfl⟩
    exact offStore_blobLoc hhash
  · intro scope path row hrow
    obtain ⟨rel, hs⟩ := hA.served scope path row hrow
    exact ⟨rel, hs.write fun heq => absurd heq (hs.offStore hash)⟩

theorem Agrees.putBlob {h : Host} (hA : Agrees blake3 cfg contents h) {bytes : Bytes}
    (hbytes : bytes ∈ contents) {hash : Digest} (hhash : blake3 bytes = hash) (ok : Bool) :
    Agrees blake3 cfg contents (putBlob cfg h hash bytes ok) := by
  rcases putBlob_cases h hash bytes ok with ⟨heq, -⟩ | ⟨heq, -⟩
  · rw [heq]
    exact hA
  · rw [heq]
    exact hA.write_blob hbytes hhash

/-- **Archiving** stores what the row remembers: the file that the path is served from. -/
theorem Agrees.archive {h : Host} (hA : Agrees blake3 cfg contents h) {scope : Scope}
    {path : String} {target : List String}
    (hguard : pathGuard (cfg.rootFor scope.2) path = .ok target) (ok : Bool) :
    Agrees blake3 cfg contents (archive cfg h scope (dbKey path) target ok) := by
  rcases archive_cases h scope (dbKey path) target ok with ⟨heq, -⟩ | ⟨hash, old, harch, heq⟩
  · rw [heq]
    exact hA
  · rw [heq]
    obtain ⟨hold, ⟨m, hm, rfl⟩, -⟩ := harch
    obtain ⟨row, hrow, rfl⟩ := Option.map_eq_some_iff.mp hm
    obtain ⟨rel, hs⟩ := hA.served scope path row hrow
    have htarget := hguard.symm.trans hs.guard
    cases htarget
    exact hA.write_blob (hA.files _ _ hold) (hs.agrees old hold)

/-- The rows stay served from their files when bytes are put into place with the row of that place. -/
theorem Agrees.served_place {h : Host} (hA : Agrees blake3 cfg contents h) {scope : Scope}
    {rel : List String} {bytes : Bytes} {m : FileMeta} {row : FileRow} {db : MetaDb}
    (hstring : pathGuard (cfg.rootFor scope.2) (pathString rel) = .ok (cfg.rootFor scope.2 ++ rel))
    (hplace : Placeable blake3 cfg h scope (cfg.rootFor scope.2 ++ rel) bytes)
    (hpath : m.path = dbKey (pathString rel)) (hhash : row.contentHash = blake3 bytes)
    (hfiles : db.files = (h.db scope).files.insert m.path row) {other : Scope} {path : String}
    {row' : FileRow} (hrow : ((h.setDb scope db).db other).files.lookup (dbKey path) = some row') :
    ∃ rel', ServedAt blake3 cfg (h.write (cfg.rootFor scope.2 ++ rel) bytes) other path row' rel' := by
  by_cases hother : other = scope
  · rw [hother] at hrow ⊢
    rw [Host.setDb_db_self, hfiles, Table.lookup_insert_eq_ite] at hrow
    split_ifs at hrow with hkey
    · -- the row that was written
      cases hrow
      have hsame : path = pathString rel := dbKey_injective (hkey.trans hpath)
      have hnew : (h.write (cfg.rootFor scope.2 ++ rel) bytes).files.lookup
          (cfg.rootFor scope.2 ++ rel) = some bytes := by
        rw [Host.write_files, AList.lookup_insert]
      rw [hsame]
      refine ⟨rel, rfl, hstring, hplace.offStore, ?_, ?_⟩
      · intro b hb
        rw [hnew] at hb
        cases hb
        exact hhash.symm
      · intro _
        rw [hnew]
        exact Option.some_ne_none _
    · -- another row of the scope is served from another place
      obtain ⟨rel', hs⟩ := hA.served scope path row' hrow
      refine ⟨rel', hs.write fun heq => absurd ?_ hkey⟩
      rw [hpath, hs.string, List.append_cancel_left heq]
  · -- a row of another scope is served from another place, or has the same content
    rw [Host.setDb_db_of_ne _ hother] at hrow
    obtain ⟨rel', hs⟩ := hA.served other path row' hrow
    refine ⟨rel', hs.write fun heq => (hplace.unshared other path row' hother hrow ?_).symm⟩
    rw [← heq]
    exact hs.guard

/-- **A file and its row.** Bytes put into place below the root of the scope, with the row of that
place. -/
theorem Agrees.place {h : Host} (hA : Agrees blake3 cfg contents h) {scope : Scope} {path : String}
    {target : List String} {bytes : Bytes} {m : FileMeta} {ctx : MetaDb.FileVersionUpsert} {now : ℤ}
    {db : MetaDb} (hguard : pathGuard (cfg.rootFor scope.2) path = .ok target)
    (hslash : '\\' ∉ path.toList) (hplace : Placeable blake3 cfg h scope target bytes)
    (hbytes : bytes ∈ contents)
    (hpath : m.path = pathAsStr (target.drop (cfg.rootFor scope.2).length))
    (hhash : m.contentHash = blake3 bytes) (hsize : m.size = bytes.length)
    (hup : (h.db scope).upsertFileScopedVersioned m ctx now = some db) :
    Agrees blake3 cfg contents ((h.write target bytes).setDb scope db) := by
  obtain ⟨rel, rfl, hchars, hstring⟩ := exists_names_of_pathGuard hguard
  rw [List.drop_left, pathAsStr_eq fun n hn hc => hslash (hchars n hn _ hc)] at hpath
  obtain ⟨⟨versionId, parent, hfiles⟩, -⟩ := MetaDb.of_upsertFileScopedVersioned hup
  refine ⟨?_, ?_, ?_, ?_, ?_, hA.snapshots⟩
  · exact fun loc b hb => hA.mem_of_lookup_write hbytes hb
  · refine hA.blobs.of_changesBy (W := fun l b => l = cfg.rootFor scope.2 ++ rel ∧ b = bytes)
      ((Table.ChangesBy.refl _ _).insert ⟨rfl, rfl⟩) ?_
    rintro l b ⟨rfl, rfl⟩ hash hloc
    exact absurd hloc (hplace.offStore hash)
  · intro other key row hrow
    by_cases hother : other = scope
    · rw [hother, Host.setDb_db_self, hfiles, Table.lookup_insert_eq_ite] at hrow
      split_ifs at hrow
      · cases hrow
        exact ⟨bytes, hbytes, hhash, hsize⟩
      · exact hA.rows scope key row hrow
    · rw [Host.setDb_db_of_ne _ hother] at hrow
      exact hA.rows other key row hrow
  · intro other path' row hrow
    obtain ⟨rel', hs⟩ := hA.served_place hstring hplace hpath hhash hfiles hrow
    exact ⟨rel', hs.of_lookup_eq rfl⟩
  · intro other v hv
    by_cases hother : other = scope
    · rw [hother, Host.setDb_db_self] at hv
      rcases MetaDb.of_mem_upsert_fileVersions hup hv with hold | ⟨row, hrow, hhash', hsize'⟩
      · exact hA.versions scope v hold
      · rw [hhash', hsize']
        exact hA.rows scope m.path row hrow
    · rw [Host.setDb_db_of_ne _ hother] at hv
      exact hA.versions other v hv

/-! ## Steps -/

/-- **An exchange** tombstones rows and leaves the rest. -/
theorem Agrees.exchange {h : Host} (hA : Agrees blake3 cfg contents h) (r : ExchangeRequest) :
    Agrees blake3 cfg contents (exchange h r).2 := by
  unfold Hosting.exchange
  rcases r.admitted with e | _
  · exact hA
  dsimp only
  rw [exchangeState_eq]
  dsimp only
  have hrows : ∀ scope key row,
      ((h.setDb (r.tenant, r.share) (exchangeDb r.share (h.db (r.tenant, r.share)) r.call)).db
        scope).files.lookup key = some row →
      ∃ old, (h.db scope).files.lookup key = some old ∧ row.contentHash = old.contentHash ∧
        row.size = old.size ∧ (row.deleted = false → old.deleted = false) := by
    intro scope key row hrow
    by_cases hscope : scope = (r.tenant, r.share)
    · rw [hscope, Host.setDb_db_self, lookup_exchangeDb_files] at hrow
      rw [hscope]
      split_ifs at hrow
      · obtain ⟨old, hold, rfl⟩ := Option.map_eq_some_iff.mp hrow
        exact ⟨old, hold, rfl, rfl, fun hlive => absurd hlive (by simp)⟩
      · exact ⟨row, hrow, rfl, rfl, id⟩
    · rw [Host.setDb_db_of_ne _ hscope] at hrow
      exact ⟨row, hrow, rfl, rfl, id⟩
  refine ⟨hA.files, hA.blobs, ?_, ?_, ?_, hA.snapshots⟩
  · intro scope key row hrow
    obtain ⟨old, hold, hhash, hsize, -⟩ := hrows scope key row hrow
    rw [hhash, hsize]
    exact hA.rows scope key old hold
  · intro scope path row hrow
    obtain ⟨old, hold, hhash, -, hlive⟩ := hrows scope (dbKey path) row hrow
    obtain ⟨rel, hs⟩ := hA.served scope path old hold
    refine ⟨rel, hs.string, hs.guard, hs.offStore, ?_, fun hd => hs.live (hlive hd)⟩
    rw [hhash]
    exact hs.agrees
  · intro scope v hv
    by_cases hscope : scope = (r.tenant, r.share)
    · rw [hscope, Host.setDb_db_self, exchangeDb_fileVersions] at hv
      exact hA.versions _ v hv
    · rw [Host.setDb_db_of_ne _ hscope] at hv
      exact hA.versions scope v hv

/-- **A snapshot** lists rows. -/
theorem Agrees.createSnapshot {h : Host} (hA : Agrees blake3 cfg contents h) (scope : Scope)
    (admitted : Except String Unit) (kept : ℕ → Bool) :
    Agrees blake3 cfg contents (createSnapshot h scope admitted kept).2 := by
  unfold Hosting.createSnapshot
  rcases admitted with e | _
  · exact hA
  refine ⟨hA.files, hA.blobs, hA.rows, ?_, hA.versions, ?_⟩
  · intro other path row hrow
    obtain ⟨rel, hs⟩ := hA.served other path row hrow
    exact ⟨rel, hs.of_lookup_eq rfl⟩
  · intro id other files hlookup entry hentry
    dsimp only at hlookup
    rw [Table.lookup_eraseWhere, Option.filter_eq_some_iff, Table.lookup_insert_eq_ite] at hlookup
    obtain ⟨hfound, -⟩ := hlookup
    split_ifs at hfound
    · cases hfound
      obtain ⟨m, hm, rfl⟩ := List.mem_map.mp hentry
      have hlists := ((h.db scope).lists_listFilesScoped.mem_iff m).mp hm
      obtain ⟨row, hrow, hmeta⟩ := Option.map_eq_some_iff.mp hlists
      have hknown := hA.rows scope m.path row hrow
      have hhash : m.contentHash = row.contentHash := by
        rw [← hmeta]
        rfl
      have hsize : m.size = row.size := by
        rw [← hmeta]
        rfl
      have hpath : pathString (snapshotFile m).path = replaceBackslash (pathString m.path) :=
        pathString_dbKey _
      rw [← hhash, ← hsize] at hknown
      rw [hpath]
      exact ⟨hknown, backslash_notMem_replaceBackslash _⟩
    · exact hA.snapshots id other files hfound entry hentry

/-- **An upload** that succeeds. -/
theorem Agrees.upload {h : Host} (hA : Agrees blake3 cfg contents h) {r : UploadRequest}
    (hr : StepAgrees blake3 cfg contents h (.upload r)) :
    Agrees blake3 cfg contents (deltaUpload blake3 cfg h r).2 := by
  obtain ⟨⟨d, hok⟩, hcommit⟩ := hr
  obtain ⟨o, hreached, hends⟩ := exists_outcome blake3 cfg r
  have hend := hends h
  have hmay := hend.ok d hok
  cases o with
  | nothing => exact hA.of_eq hend.files hend.db hend.snapshots
  | quarantined a spool => cases hmay
  | archived a spool target => cases hmay
  | unrecorded a spool target => cases hmay
  | recorded a spool target =>
      have hc : Commits blake3 cfg r a spool target := hreached
      obtain ⟨hbytes, hslash, hplace, hupsert, hsome⟩ := hcommit a spool target hc
      obtain ⟨db, hup⟩ := Option.ne_none_iff_exists'.mp hsome
      have harchived : Agrees blake3 cfg contents
          (Hosting.archive cfg h r.scope (dbKey a.path) target r.archiveOk) :=
        hA.archive hc.guard r.archiveOk
      have hplace' : Placeable blake3 cfg
          (Hosting.archive cfg h r.scope (dbKey a.path) target r.archiveOk) r.scope target
          (spool.getD []) := by
        refine ⟨hplace.offStore, ?_⟩
        rw [archive_db]
        exact hplace.unshared
      have hpath : (rowMeta blake3 cfg r target (spool.getD [])).path =
          pathAsStr (target.drop (cfg.rootFor r.scope.2).length) := by
        rw [r.scope_snd, rowMeta_path]
      have hhash : (rowMeta blake3 cfg r target (spool.getD [])).contentHash =
          blake3 (spool.getD []) := rfl
      have hsize : (rowMeta blake3 cfg r target (spool.getD [])).size = (spool.getD []).length := rfl
      rw [← archive_db h r.scope (dbKey a.path) target r.archiveOk] at hup
      have hplaced : Agrees blake3 cfg contents
          (((Hosting.archive cfg h r.scope (dbKey a.path) target r.archiveOk).write target
            (spool.getD [])).setDb r.scope db) :=
        harchived.place hc.guard hslash hplace' hbytes hpath hhash hsize hup
      rw [archive_db] at hup
      refine hplaced.of_eq hend.files ?_ ?_
      · rw [hend.db]
        show (recordRow blake3 cfg h r target (spool.getD [])).db = _
        unfold recordRow
        rw [if_pos hupsert, hup]
        show Function.update h.db r.scope db =
          Function.update (Hosting.archive cfg h r.scope (dbKey a.path) target r.archiveOk).db _ _
        rw [archive_db]
      · rw [hend.snapshots]
        exact (archive_snapshots h _ _ _ _).symm

/-- What is to be restored is one of the contents, with its hash and size. -/
structure RevisionSound (blake3 : Bytes → Digest) (contents : Set Bytes) (rev : Revision) : Prop where
  slash : '\\' ∉ rev.path.toList
  bytes : rev.bytes ∈ contents
  hash : blake3 rev.bytes = rev.contentHash
  size : rev.size = rev.bytes.length

/-- Contents that do not collide have the size that is recorded beside their hash. -/
theorem Known.size_eq (hinj : Set.InjOn blake3 contents) {hash : Digest} {size : ℕ}
    (hknown : Known blake3 contents hash size) {bytes : Bytes} (hbytes : bytes ∈ contents)
    (hhash : blake3 bytes = hash) : size = bytes.length := by
  obtain ⟨content, hcontent, hhash', rfl⟩ := hknown
  rw [hinj hbytes hcontent (hhash.trans hhash')]

/-- **The restore of one file**, for a vault served from `sync_root`, that does not write without
recording. -/
theorem Agrees.restoreFile {h : Host} (hA : Agrees blake3 cfg contents h) {r : RestoreRequest}
    (hroot : cfg.rootFor r.vault = cfg.syncRoot) {env : RestoreEnv} {archives : Bool}
    {rev : Revision} (hrev : RevisionSound blake3 contents rev)
    (hplace : ∀ target, pathGuard cfg.syncRoot rev.path = .ok target →
      Placeable blake3 cfg h r.scope target rev.bytes)
    (hdone : (restoreFile cfg h r env archives rev).1 = .ok () ∨
      ∀ target, pathGuard cfg.syncRoot rev.path = .ok target → (∀ n, env.write ≠ .cut n) ∧
        (env.write.isDone = true → env.upsertOk = true ∧ (h.db r.scope).upsertFileScopedVersioned
          (restoredRow cfg env rev target) ⟨r.user, r.retention⟩ env.now ≠ none)) :
    Agrees blake3 cfg contents (restoreFile cfg h r env archives rev).2 := by
  rcases restoreFile_cases cfg h r env archives rev with ⟨e, heq⟩ | ⟨target, hguard, hcase⟩
  · rw [heq]
    exact hA
  have hguard' : pathGuard (cfg.rootFor r.scope.2) rev.path = .ok target := by
    rw [r.scope_snd, hroot]
    exact hguard
  have hpreserved : Agrees blake3 cfg contents (preserved cfg h r env archives rev target) := by
    unfold preserved
    split_ifs
    · exact hA.archive hguard' env.archiveOk
    · exact hA
  rcases hcase with ⟨e, heq⟩ | ⟨content, hleft, hfail, e, heq⟩ | ⟨db, -, hup, heq⟩
  · rw [heq]
    exact hpreserved
  · exfalso
    rcases hdone with hok | hrecorded
    · rw [heq] at hok
      cases hok
    · obtain ⟨hwhole, hrow⟩ := hrecorded target hguard
      have hwrite : env.write.isDone = true := by
        rcases hwrite : env.write with _ | n | _
        · rw [hwrite] at hleft
          cases hleft
        · exact absurd hwrite (hwhole n)
        · rfl
      obtain ⟨hupsert, hsome⟩ := hrow hwrite
      rcases hfail hwrite with hnone | hno
      · exact hsome hnone
      · rw [hno] at hupsert
        cases hupsert
  · rw [heq]
    have hplace' : Placeable blake3 cfg (preserved cfg h r env archives rev target) r.scope target
        rev.bytes := by
      refine ⟨(hplace target hguard).offStore, ?_⟩
      rw [preserved_db]
      exact (hplace target hguard).unshared
    have hpath : (restoredRow cfg env rev target).path =
        pathAsStr (target.drop (cfg.rootFor r.scope.2).length) := by
      rw [r.scope_snd, hroot, restoredRow, restoredMeta]
    have hhash : (restoredRow cfg env rev target).contentHash = blake3 rev.bytes := hrev.hash.symm
    have hsize : (restoredRow cfg env rev target).size = rev.bytes.length := hrev.size
    rw [← preserved_db cfg h r env archives rev target] at hup
    exact (hpreserved.place hguard' hrev.slash hplace' hrev.bytes hpath hhash hsize hup).putBlob
      hrev.bytes hrev.hash env.blobOk

/-- A recorded revision that is found. -/
theorem Agrees.planVersion {h : Host} (hA : Agrees blake3 cfg contents h)
    (hinj : Set.InjOn blake3 contents) {r : RestoreRequest} {path : String} {versionId : ℕ}
    {rev : Revision} (hplan : planVersion cfg h r path versionId = .ok rev) :
    RevisionSound blake3 contents rev := by
  obtain ⟨v, hrel, hversion, hblob, hhash, hsize⟩ := of_planVersion cfg hplan
  have hbytes : rev.bytes ∈ contents := hA.files _ _ hblob
  have hsound : blake3 rev.bytes = rev.contentHash := hash_of_planVersion hA.blobs hplan
  refine ⟨backslash_notMem_of_normalizeRelPath hrel, hbytes, hsound, ?_⟩
  rw [hsize]
  have hknown := hA.versions r.scope v (List.mem_of_find?_eq_some hversion)
  exact hknown.size_eq hinj hbytes (hsound.trans hhash)

/-- What is found for a recorded revision is the content of some file. -/
theorem Agrees.mem_of_resolveBlob {h : Host} (hA : Agrees blake3 cfg contents h) {scope : Scope}
    {key : Path} {hash : Digest} {versionId : Option ℕ} {bytes : Bytes}
    (hfound : resolveBlob blake3 cfg h scope key hash versionId = some bytes) : bytes ∈ contents := by
  unfold resolveBlob at hfound
  rw [Option.or_eq_some_iff, Option.or_eq_some_iff] at hfound
  rcases hfound with hown | ⟨-, hversion | ⟨-, hfile⟩⟩
  · exact hA.files _ _ hown
  · obtain ⟨v, -, hblob⟩ := Option.bind_eq_some_iff.mp hversion
    exact hA.files _ _ hblob
  · exact hA.files _ _ (Option.filter_eq_some_iff.mp hfile).1

/-- **The loop over a snapshot.** -/
theorem Agrees.restoreSnapshotFiles {h : Host} (hA : Agrees blake3 cfg contents h)
    (hinj : Set.InjOn blake3 contents) {r : RestoreRequest}
    (hroot : cfg.rootFor r.vault = cfg.syncRoot) {i : ℕ} {files : List SnapshotFile}
    (hfiles : ∀ entry ∈ files, Known blake3 contents entry.contentHash entry.size ∧
      '\\' ∉ (pathString entry.path).toList)
    (hs : SnapshotAgrees blake3 cfg h r i files) :
    Agrees blake3 cfg contents (restoreSnapshotFiles blake3 cfg h r i files) := by
  induction files generalizing h i with
  | nil => exact hA
  | cons entry rest ih =>
      obtain ⟨hfall, hplace, hrest⟩ := hs
      obtain ⟨hknown, hslash⟩ := hfiles entry List.mem_cons_self
      have hfirst : Agrees blake3 cfg contents
          (restoreSnapshotFile blake3 cfg h r (r.env i) entry) := by
        unfold restoreSnapshotFile
        rcases hplan : planSnapshotFile blake3 cfg h r entry with _ | rev
        · exact hA
        · obtain ⟨hfound, hpath, hhash, hsize⟩ := of_planSnapshotFile blake3 cfg hplan
          have hbytes : rev.bytes ∈ contents := hA.mem_of_resolveBlob hfound
          have hsound : blake3 rev.bytes = entry.contentHash :=
            hash_of_resolveBlob hA.blobs hfall hfound
          have hrev : RevisionSound blake3 contents rev := by
            refine ⟨?_, hbytes, hsound.trans hhash.symm, ?_⟩
            · rw [hpath]
              exact hslash
            · rw [hsize]
              exact hknown.size_eq hinj hbytes hsound
          refine hA.restoreFile hroot hrev ?_ (Or.inr ?_)
          · intro target hguard
            exact (hplace rev target hplan hguard).1
          · intro target hguard
            exact (hplace rev target hplan hguard).2
      exact ih hfirst (fun e he => hfiles e (List.mem_cons_of_mem _ he)) hrest

/-- **One request** that succeeds and keeps rows and bytes together. -/
theorem Agrees.serve {h : Host} (hA : Agrees blake3 cfg contents h)
    (hinj : Set.InjOn blake3 contents) {req : Request}
    (hreq : StepAgrees blake3 cfg contents h req) :
    Agrees blake3 cfg contents (serve blake3 cfg h req) := by
  cases req with
  | upload r => exact hA.upload hreq
  | download r => exact hA
  | exchange r => exact hA.exchange r
  | restoreVersion r path versionId =>
      obtain ⟨hok, hroot, hplace⟩ := hreq
      show Agrees blake3 cfg contents (restoreVersion cfg h r path versionId).2
      unfold restoreVersion at hok ⊢
      rcases hplan : Hosting.planVersion cfg h r path versionId with e | rev
      · exact hA
      · rw [hplan] at hok
        exact hA.restoreFile hroot (hA.planVersion hinj hplan)
          (fun target hguard => hplace rev target hplan hguard) (Or.inl hok)
  | restoreTrash r path =>
      obtain ⟨hok, hroot, hplace⟩ := hreq
      show Agrees blake3 cfg contents (restoreTrash blake3 cfg h r path).2
      unfold restoreTrash at hok ⊢
      rcases hplan : planTrash blake3 cfg h r path with e | rev
      · exact hA
      · rw [hplan] at hok
        obtain ⟨m, hrel, hm, hfound, hhash, hsize⟩ := of_planTrash blake3 cfg hplan
        obtain ⟨hfall, hplaceable⟩ := hplace rev hplan
        have hbytes : rev.bytes ∈ contents := hA.mem_of_resolveBlob hfound
        have hsound : blake3 rev.bytes = m.contentHash :=
          hash_of_resolveBlob hA.blobs (hfall m hm) hfound
        obtain ⟨row, hrow, rfl⟩ := Option.map_eq_some_iff.mp hm
        have hrev : RevisionSound blake3 contents rev := by
          refine ⟨backslash_notMem_of_normalizeRelPath hrel, hbytes, hsound.trans hhash.symm, ?_⟩
          rw [hsize]
          exact (hA.rows r.scope _ row hrow).size_eq hinj hbytes hsound
        exact hA.restoreFile hroot hrev hplaceable (Or.inl hok)
  | createSnapshot scope admitted kept => exact hA.createSnapshot scope admitted kept
  | restoreSnapshot r id =>
      obtain ⟨-, hroot, hfiles⟩ := hreq
      show Agrees blake3 cfg contents (restoreSnapshot blake3 cfg h r id).2
      unfold restoreSnapshot
      rcases r.admitted with e | _
      · exact hA
      · rcases hsnap : h.snapshots.lookup id with _ | ⟨scope, files⟩
        · exact hA
        · dsimp only
          split_ifs with hscope
          · subst hscope
            exact hA.restoreSnapshotFiles hinj hroot (hA.snapshots id _ files hsnap)
              (hfiles files hsnap)
          · exact hA

theorem agrees_empty (blake3 : Bytes → Digest) (cfg : HostConfig) (contents : Set Bytes) :
    Agrees blake3 cfg contents Host.empty := by
  refine ⟨?_, ?_, ?_, ?_, ?_, ?_⟩
  · intro loc bytes hb
    cases hb
  · intro hash bytes hb
    cases hb
  · intro scope key row hrow
    cases hrow
  · intro scope path row hrow
    cases hrow
  · intro scope v hv
    exact absurd hv List.not_mem_nil
  · intro id scope files hfiles
    cases hfiles

/-- Where no other scope has rows, bytes may be put at any place outside the content store. -/
theorem placeable_of_empty {h : Host} {scope : Scope} {target : List String} (bytes : Bytes)
    (hlen : target.length ≠ cfg.syncRoot.length + 3)
    (hdb : ∀ other, other ≠ scope → h.db other = Host.empty.db other) :
    Placeable blake3 cfg h scope target bytes := by
  refine ⟨?_, ?_⟩
  · rintro hash rfl
    apply hlen
    simp [blobLoc]
  · intro other path row hother hrow
    rw [hdb other hother] at hrow
    cases hrow

/-- An upload whose stream and target are known. -/
theorem stepAgrees_upload_of_eq {h : Host} {r : UploadRequest} {a : Announced}
    {spool : Option Bytes} {target : List String} {d : Digest}
    (hok : (deltaUpload blake3 cfg h r).1 = .ok d)
    (hstream : receiveStream blake3 cfg r none none r.stream = .ok (some a, spool))
    (hguard : pathGuard (cfg.rootFor r.share) a.path = .ok target)
    (hbytes : spool.getD [] ∈ contents) (hslash : '\\' ∉ a.path.toList)
    (hplace : Placeable blake3 cfg h r.scope target (spool.getD [])) (hupsert : r.upsertOk = true)
    (hsome : ((h.db r.scope).upsertFileScopedVersioned (rowMeta blake3 cfg r target (spool.getD []))
      ⟨cfg.serverNodeId, r.retention⟩ r.now).isSome = true) :
    StepAgrees blake3 cfg contents h (.upload r) := by
  refine ⟨⟨d, hok⟩, ?_⟩
  intro a' spool' target' hc
  have hsame := hstream.symm.trans hc.stream
  cases hsame
  have htarget := hguard.symm.trans hc.guard
  cases htarget
  exact ⟨hbytes, hslash, hplace, hupsert, Option.isSome_iff_ne_none.mp hsome⟩

end

/-- A file is uploaded, replaced, and restored. -/
def sampleRestores (share : String) : List Request :=
  [.upload (sampleUpload none share "f" [97]), .upload (sampleUpload none share "f" [98]),
    .restoreVersion (sampleRestore none share) "f" 1]

/-- The contents of the run. -/
def sampleContents : Set Bytes := {[97], [98]}

theorem injOn_sampleContents : Set.InjOn sampleBlake3 sampleContents := by
  intro a ha b hb heq
  rcases ha with rfl | rfl
  · rcases hb with rfl | rfl
    · rfl
    · exact absurd heq (by decide +kernel)
  · rcases hb with rfl | rfl
    · exact absurd heq (by decide +kernel)
    · rfl

/-- The steps of the run in a share served from `sync_root`. -/
theorem stepAgrees_sampleRestores :
    Trace.Always (serve sampleBlake3 smallConfig)
      (fun _ h req => StepAgrees sampleBlake3 smallConfig sampleContents h req) Host.empty
      (sampleRestores "docs") := by
  have hfirst : ∀ other : Scope, other ≠ (none, "docs") →
      (serve sampleBlake3 smallConfig Host.empty
        (.upload (sampleUpload none "docs" "f" [97]))).db other = Host.empty.db other :=
    fun other hne => deltaUpload_db_of_ne sampleBlake3 smallConfig _ _ hne
  have hsecond : ∀ other : Scope, other ≠ (none, "docs") →
      (serve sampleBlake3 smallConfig (serve sampleBlake3 smallConfig Host.empty
        (.upload (sampleUpload none "docs" "f" [97])))
        (.upload (sampleUpload none "docs" "f" [98]))).db other = Host.empty.db other :=
    fun other hne => (deltaUpload_db_of_ne sampleBlake3 smallConfig _ _ hne).trans (hfirst other hne)
  apply Trace.always_of_forall_mem
  intro x hx
  rcases List.mem_cons.mp hx with rfl | hx
  · exact @stepAgrees_upload_of_eq _ _ _ _ _ ⟨"f", []⟩ (some [97]) ["srv", "sync", "f"]
      (sampleBlake3 [97]) (by decide +kernel) (by decide +kernel) (by decide +kernel) (Or.inl rfl)
      (by decide +kernel) (placeable_of_empty _ (by decide) fun _ _ => rfl) rfl (by decide +kernel)
  rcases List.mem_cons.mp hx with rfl | hx
  · exact @stepAgrees_upload_of_eq _ _ _ _ _ ⟨"f", []⟩ (some [98]) ["srv", "sync", "f"]
      (sampleBlake3 [98]) (by decide +kernel) (by decide +kernel) (by decide +kernel) (Or.inr rfl)
      (by decide +kernel) (placeable_of_empty _ (by decide) hfirst) rfl (by decide +kernel)
  · rw [List.mem_singleton.mp hx]
    refine ⟨by decide +kernel, by decide, ?_⟩
    intro rev target hplan hguard
    obtain ⟨-, hrel, -⟩ := of_planVersion smallConfig hplan
    have hname : normalizeRelPath "f" = .ok "f" := by decide +kernel
    have hplace : pathGuard smallConfig.syncRoot "f" = .ok ["srv", "sync", "f"] := by
      decide +kernel
    rw [hname] at hrel
    rw [← Except.ok.inj hrel, hplace] at hguard
    rw [← Except.ok.inj hguard]
    exact placeable_of_empty _ (by decide) hsecond

end DiskArcana.Hosting
