import DiskArcana.System.Rescan

/-!
# When a scan is steady

A report takes a hash out of the store where a row of the vault `default` has the size and the time of a
file (`RemoteSync.stored`). A row that was written for a transfer stands under the share's name
(`Saved`), so it is found in the share `default` only; and a row that is found may be that of any share
with a file of that path.

So a scan is steady if its kept files are those of the share `default`, with their rows written, and
nothing is found for the files of other shares and no ciphertext for those in plaintext (`Calm`).
-/

namespace DiskArcana.System

open DiskArcana.Core DiskArcana.Lib DiskArcana.Server DiskArcana.Client

/-! ## The report, file by file -/

/-- The scan comes to the file. -/
structure Comes (sync : RemoteSync) (env : ReportEnv) (disk : PathMap Bytes) (path : Path)
    (bytes : Bytes) : Prop where
  root : sync.scanRoot.isEmpty = false
  scanOk : env.scanOk = true
  walk : isWalkPath path = true
  included : Filter.default.isExcluded path = false
  file : disk.lookup path = some bytes

namespace RemoteSync

/-- What a scan takes over from the store for a file: a hash, and with a key the nonce. -/
def stored (sync : RemoteSync) (rows : ClientRows) (env : ReportEnv) (path : Path) (size : ℕ) :
    Option (Digest × Option Bytes) :=
  match sync.e2eeKey with
  | some _ => ((storedWire (dbIndex (sync.knownRows rows env.overlayOk)) path).filter fun c =>
      decide (c.mtimeNs = (env.stat path).mtimeNs) && decide (c.size = size)).map fun c =>
        (c.contentHash, some c.encryptionNonce)
  | none => (fastPathHash ((indexByPath (sync.knownRows rows env.lastKnownOk)).lookup path) size
      (env.stat path).mtimeNs).map fun hash => (hash, none)

/-- The entry that the scan has for a file. -/
def entryOf (blake3 : Bytes → Digest) (sync : RemoteSync) (rows : ClientRows) (env : ReportEnv)
    (path : Path) (bytes : Bytes) : FileMeta :=
  scanMeta blake3 sync.nodeId (indexByPath (sync.knownRows rows env.lastKnownOk)) env.stat path bytes

section

variable {blake3 : Bytes → Digest} {aead : Aead} {sync : RemoteSync} {rows : ClientRows}
  {env : ReportEnv} {disk : PathMap Bytes}

theorem mem_scanned {m : FileMeta} :
    m ∈ sync.scanned blake3 rows env disk ↔
      ∃ bytes, isWalkPath m.path = true ∧ Filter.default.isExcluded m.path = false ∧
        disk.lookup m.path = some bytes ∧ m = sync.entryOf blake3 rows env m.path bytes := by
  unfold scanned
  rw [scan_eq_map, List.mem_map]
  constructor
  · rintro ⟨⟨path, bytes⟩, hmem, rfl⟩
    obtain ⟨hfile, hwalk, hincluded⟩ := mem_walked.mp hmem
    exact ⟨bytes, hwalk, hincluded, hfile, rfl⟩
  · rintro ⟨bytes, hwalk, hincluded, hfile, hm⟩
    exact ⟨⟨m.path, bytes⟩, mem_walked.mpr ⟨hfile, hwalk, hincluded⟩, hm.symm⟩

/-- An overlaid entry is one of the scan, or what the overlay makes of one. -/
theorem of_mem_overlaid {m : FileMeta} (h : m ∈ sync.overlaid blake3 aead rows env disk) :
    ∃ scanned ∈ sync.scanned blake3 rows env disk, m.path = scanned.path ∧ m.deleted = false ∧
      match sync.e2eeKey with
      | some key => ∃ cache fresh, overlayEntry blake3 aead key
          (dbIndex (sync.knownRows rows env.overlayOk)) env.read env.nonce cache scanned =
            some (m, fresh)
      | none => m = scanned := by
  have hlive : ∀ x ∈ sync.scanned blake3 rows env disk, x.deleted = false := by
    intro x hx
    obtain ⟨bytes, -, -, -, hx⟩ := mem_scanned.mp hx
    rw [hx]
    rfl
  unfold overlaid at h
  cases hkey : sync.e2eeKey with
  | none =>
      rw [hkey] at h
      exact ⟨m, h, rfl, hlive m h, rfl⟩
  | some key =>
      rw [hkey] at h
      obtain ⟨scanned, hscanned, cache, fresh, hover⟩ := exists_overlayEntry_of_mem h
      obtain ⟨hpath, hdeleted⟩ := of_overlayEntry hover
      exact ⟨scanned, hscanned, hpath, hdeleted.trans (hlive scanned hscanned), cache, fresh, hover⟩

/-- Copying version ids over changes nothing else. -/
theorem wireIndexOf_localFiles :
    (sync.localFiles blake3 aead rows env disk).map wireIndexOf =
      if sync.scanRoot.isEmpty || !env.scanOk then []
      else (sync.overlaid blake3 aead rows env disk).map fun m => wireIndexOf (fileMetaToProto m) := by
  unfold localFiles
  split_ifs
  · rfl
  · unfold overlayVersionIdsFromDb
    rw [List.map_map, List.map_map]
    refine List.map_congr_left fun m _ => ?_
    simp only [Function.comp_apply]
    split <;> rfl

/-- An entry of the report is that of a file which the scan comes to. -/
theorem of_mem_localFiles {f : FileMetadata} (h : f ∈ sync.localFiles blake3 aead rows env disk) :
    f.deleted = false ∧ (∃ bytes, Comes sync env disk f.path bytes) ∧
      ∃ m ∈ sync.overlaid blake3 aead rows env disk, wireIndexOf f = wireIndexOf (fileMetaToProto m) := by
  unfold localFiles at h
  split_ifs at h with hscan
  · cases h
  · rw [Bool.or_eq_true, not_or, Bool.not_eq_true, Bool.not_eq_true, Bool.not_eq_false'] at hscan
    obtain ⟨m, hm, rfl⟩ := List.mem_map.mp h
    obtain ⟨m₀, hm₀, rfl⟩ := List.mem_map.mp hm
    obtain ⟨x, hx, hpath, hlive, -⟩ := of_mem_overlaid hm₀
    obtain ⟨bytes, hwalk, hincluded, hfile, -⟩ := mem_scanned.mp hx
    have hcomes : Comes sync env disk m₀.path bytes := by
      rw [hpath]
      exact ⟨hscan.1, hscan.2, hwalk, hincluded, hfile⟩
    split
    · exact ⟨hlive, ⟨bytes, hcomes⟩, m₀, hm₀, rfl⟩
    · exact ⟨hlive, ⟨bytes, hcomes⟩, m₀, hm₀, rfl⟩

theorem exists_mem_localFiles {path : Path} {bytes : Bytes} (h : Comes sync env disk path bytes)
    {m : FileMeta} (hm : m ∈ sync.overlaid blake3 aead rows env disk) :
    ∃ f ∈ sync.localFiles blake3 aead rows env disk, wireIndexOf f = wireIndexOf (fileMetaToProto m) := by
  have hmem : wireIndexOf (fileMetaToProto m) ∈
      (sync.localFiles blake3 aead rows env disk).map wireIndexOf := by
    rw [wireIndexOf_localFiles, h.root, h.scanOk]
    exact List.mem_map_of_mem hm
  exact List.mem_map.mp hmem

/-! ## What the store decides -/

theorem entryOf_mem_scanned {path : Path} {bytes : Bytes} (h : Comes sync env disk path bytes) :
    sync.entryOf blake3 rows env path bytes ∈ sync.scanned blake3 rows env disk :=
  mem_scanned.mpr ⟨bytes, h.walk, h.included, h.file, rfl⟩

/-- It is the only one at its path. -/
theorem eq_entryOf_of_mem_scanned {path : Path} {bytes : Bytes} (h : Comes sync env disk path bytes)
    {m : FileMeta} (hm : m ∈ sync.scanned blake3 rows env disk) (hpath : m.path = path) :
    m = sync.entryOf blake3 rows env path bytes := by
  obtain ⟨bytes', -, -, hfile, heq⟩ := mem_scanned.mp hm
  rw [hpath] at hfile heq
  cases hfile.symm.trans h.file
  exact heq

variable (blake3 aead) in
/-- **A file for which the store has something is reported so.** -/
theorem contents_of_stored {path : Path} {bytes : Bytes} (h : Comes sync env disk path bytes)
    {hash : Digest} {nonce : Option Bytes}
    (hstored : sync.stored rows env path bytes.length = some (hash, nonce)) :
    (∃ m ∈ sync.overlaid blake3 aead rows env disk, contents m = (path, hash, nonce)) ∧
      ∀ m ∈ sync.overlaid blake3 aead rows env disk, m.path = path → contents m = (path, hash, nonce) := by
  unfold stored at hstored
  have hmem : sync.entryOf blake3 rows env path bytes ∈ sync.scanned blake3 rows env disk :=
    entryOf_mem_scanned h
  cases hkey : sync.e2eeKey with
  | none =>
      rw [hkey] at hstored
      obtain ⟨hash', hfast, heq⟩ := Option.map_eq_some_iff.mp hstored
      cases heq
      have hcontents : contents (sync.entryOf blake3 rows env path bytes) = (path, hash, none) := by
        unfold contents entryOf scanMeta
        rw [hfast]
        rfl
      refine ⟨⟨_, ?_, hcontents⟩, fun m hm hpath => ?_⟩
      · unfold overlaid
        rw [hkey]
        exact hmem
      · unfold overlaid at hm
        rw [hkey] at hm
        rw [eq_entryOf_of_mem_scanned h hm hpath]
        exact hcontents
  | some key =>
      rw [hkey] at hstored
      obtain ⟨c, hc, heq⟩ := Option.map_eq_some_iff.mp hstored
      cases heq
      obtain ⟨hwire, hmatch⟩ := Option.filter_eq_some_iff.mp hc
      have hover : ∀ cache, overlayEntry blake3 aead key (dbIndex (sync.knownRows rows env.overlayOk))
          env.read env.nonce cache (sync.entryOf blake3 rows env path bytes) =
            some (withWire (sync.entryOf blake3 rows env path bytes) c.contentHash c.encryptionNonce,
              none) := overlayEntry_of_stored hwire hmatch
      refine ⟨⟨withWire (sync.entryOf blake3 rows env path bytes) c.contentHash c.encryptionNonce, ?_,
        rfl⟩, fun m hm hpath => ?_⟩
      · unfold overlaid
        rw [hkey]
        exact mem_overlayE2eeExchangeFiles hmem hover ∅
      · obtain ⟨x, hx, hsame, -, hm⟩ := of_mem_overlaid hm
        rw [hkey] at hm
        obtain ⟨cache, fresh, hm⟩ := hm
        rw [eq_entryOf_of_mem_scanned h hx (hsame.symm.trans hpath), hover] at hm
        cases hm
        rfl

variable (blake3 aead) in
/-- So is every entry of the report at its path, and there is one. -/
theorem report_of_stored {path : Path} {bytes : Bytes} (h : Comes sync env disk path bytes)
    {hash : Digest} {nonce : Option Bytes}
    (hstored : sync.stored rows env path bytes.length = some (hash, nonce)) :
    (∃ f ∈ sync.localFiles blake3 aead rows env disk, f.path = path) ∧
      ∀ f ∈ sync.localFiles blake3 aead rows env disk, f.path = path →
        f.contentHash = hash.toList ∧ f.encryptionNonce = nonce.getD [] := by
  obtain ⟨⟨m, hm, hcontents⟩, hall⟩ := contents_of_stored blake3 aead h hstored
  obtain ⟨f, hf, hwire⟩ := exists_mem_localFiles h hm
  refine ⟨⟨f, hf, ?_⟩, fun f' hf' hpath => ?_⟩
  · have hpath : m.path = path := congrArg Prod.fst hcontents
    exact (congrArg Prod.fst hwire).trans hpath
  · obtain ⟨-, -, m', hm', hwire'⟩ := of_mem_localFiles hf'
    have hpath' : m'.path = path := (congrArg Prod.fst hwire').symm.trans hpath
    have hcontents' := hall m' hm' hpath'
    have hhash : m'.contentHash = hash := congrArg (fun x => x.2.1) hcontents'
    have hnonce : m'.encryptionNonce = nonce := congrArg (fun x => x.2.2) hcontents'
    refine ⟨(congrArg (fun x => x.2.1) hwire').trans ?_, (congrArg (fun x => x.2.2) hwire').trans ?_⟩
    · exact congrArg List.Vector.toList hhash
    · exact congrArg (fun o => Option.getD o []) hnonce

variable (blake3 aead) in
/-- The server reads it there. -/
theorem liveHash_clientAt_of_stored {path : Path} {bytes : Bytes} (h : Comes sync env disk path bytes)
    {hash : Digest} {nonce : Option Bytes}
    (hstored : sync.stored rows env path bytes.length = some (hash, nonce)) :
    liveHash (clientAt (sync.localFiles blake3 aead rows env disk) path) = some hash := by
  obtain ⟨⟨f, hf, hpath⟩, hall⟩ := report_of_stored blake3 aead h hstored
  have hmarker : isSyncEphemeralMarker path = false := by
    by_contra hmarker
    have hexcluded := Filter.default.isExcluded_of_ephemeral (Bool.not_eq_false _ |>.mp hmarker)
    rw [h.included] at hexcluded
    cases hexcluded
  cases hc : clientAt (sync.localFiles blake3 aead rows env disk) path with
  | none =>
      have hmem : protoToFileMeta f ∈ clientFiles (sync.localFiles blake3 aead rows env disk) := by
        refine List.mem_filter.mpr ⟨List.mem_map_of_mem hf, ?_⟩
        show (!isSyncEphemeralMarker f.path) = true
        rw [hpath, hmarker]
        rfl
      exact absurd hpath (Table.lookup_collect_eq_none.mp hc _ hmem)
  | some m =>
      obtain ⟨hm, -, f', hf', rfl⟩ := of_clientAt hc
      obtain ⟨hlive, -⟩ := of_mem_localFiles hf'
      refine liveHash_eq_some_iff.mpr ⟨_, rfl, hlive, ?_⟩
      show digestOfBytes f'.contentHash = hash
      rw [(hall f' hf' hm).1, digestOfBytes_toList]

end

end RemoteSync

/-! ## The condition -/

section

variable (s : Shares) (sync : RemoteSync) (env : ReportEnv)

/-- The scan finds the row of a kept file: the share is `default`, its row was written, the store
answers, and with a key no other row of the vault has the same key. -/
structure Finds (path : Path) (t : Transfer) : Prop where
  comes : Comes sync env (s.disk sync.share) path t.bytes
  share : sync.share = vaultDefault
  saved : t.saved = true
  store : sync.hasMetaDb = true
  answered : match sync.e2eeKey with
    | some _ => env.overlayOk = true ∧ ∀ path', s.rows.lookup (vaultDefault, path') ≠ none →
        vaultRelativePathKey path' = vaultRelativePathKey path → path' = path
    | none => env.lastKnownOk = true

/-- The condition on a scan. -/
structure Calm : Prop where
  kept : ∀ path t, s.Kept sync.share env path t → t.nonce ≠ [] → Finds s sync env path t
  own : sync.share = vaultDefault ∨ ∀ path bytes, Comes sync env (s.disk sync.share) path bytes →
    sync.stored s.rows env path bytes.length = none
  plain : ∀ path bytes, Comes sync env (s.disk sync.share) path bytes →
    s.InPlaintext sync env path → sync.e2eeKey = none ∧
      ∀ m, (indexByPath (sync.knownRows s.rows env.lastKnownOk)).lookup path = some m →
        m.size = bytes.length → m.mtimeNs = (env.stat path).mtimeNs → m.encryptionNonce.getD [] = []

/-- The server's rows of kept files have the nonces that the scan reports. -/
def NoncesHeld : Prop :=
  ∀ path t, s.Kept sync.share env path t → t.nonce ≠ [] →
    t.held.encryptionNonce = sync.e2eeKey.map fun _ => t.nonce

end

/-! ## Rows that are written -/

/-- A ciphertext that was written down has its row, under the share's name. -/
def Saved (rows : ClientRows) (moved : Table (String × Path) Transfer) : Prop :=
  ∀ key t, moved.lookup key = some t → t.nonce ≠ [] → t.saved = true →
    ∃ row, rows.lookup key = some row ∧ row.contentHash = t.held.contentHash ∧
      row.encryptionNonce = some t.nonce ∧ row.size = t.bytes.length ∧ row.mtimeNs = t.mtimeNs

/-- Writing down a transfer. -/
theorem Saved.remember {rows : ClientRows} {moved : Table (String × Path) Transfer}
    (h : Saved rows moved) (sync : RemoteSync) (path : Path) (dbOk : Bool) {t : Transfer} {hash : Digest}
    (hhash : t.nonce ≠ [] → t.held.contentHash = hash)
    (hsaved : t.saved = (sync.hasMetaDb && dbOk)) :
    Saved (sync.remember rows path hash t.nonce dbOk t.mtimeNs t.bytes.length)
      (moved.insert (sync.share, path) t) := by
  intro key t' ht' hnonce hok
  rw [Table.lookup_insert_eq_ite] at ht'
  unfold RemoteSync.remember WireIndex.persistE2eeWireMeta
  split_ifs at ht' with hkey
  · cases ht'
    rw [hsaved] at hok
    rw [if_neg (by simpa using hnonce)]
    simp only [hok, if_true]
    exact ⟨_, (ClientRows.lookup_upsertFileScoped _ _ _ _).trans (if_pos hkey), (hhash hnonce).symm, rfl,
      rfl, rfl⟩
  · obtain ⟨row, hrow, hrest⟩ := h key t' ht' hnonce hok
    refine ⟨row, ?_, hrest⟩
    split_ifs
    · exact hrow
    · exact ((ClientRows.lookup_upsertFileScoped _ _ _ _).trans (if_neg hkey)).trans hrow
    · exact hrow

/-- A transfer that is not written down. -/
theorem Saved.insert {rows : ClientRows} {moved : Table (String × Path) Transfer}
    (h : Saved rows moved) (key : String × Path) {t : Transfer} (ht : t.saved = false) :
    Saved rows (moved.insert key t) := by
  intro key' t' ht' hnonce hok
  rw [Table.lookup_insert_eq_ite] at ht'
  split_ifs at ht'
  · cases ht'
    rw [ht] at hok
    cases hok
  · exact h key' t' ht' hnonce hok

section

variable (blake3 : Bytes → Digest) (aead : Aead)

/-- The rows after an entry of `to_download`. -/
theorem rows_downloads {sync : RemoteSync} (hroot : sync.scanRoot.isEmpty = false) (disk : PathMap Bytes)
    (rows : ClientRows) (entry : FileMetadata) (env : DownloadEnv) :
    (sync.downloads blake3 aead (.start none disk ∅ ⟨∅, rows⟩) [(entry, env)]).index.rows =
      match sync.landing blake3 aead (entry, env) with
      | .written plaintext => sync.remember rows entry.path
          (RemoteSync.cacheKey blake3 entry plaintext) entry.encryptionNonce env.dbOk env.mtimeNs
          plaintext.length
      | _ => rows := by
  unfold RemoteSync.downloads
  rw [hroot, if_neg Bool.false_ne_true, List.foldl_cons, List.foldl_nil, RemoteSync.download_eq]
  cases sync.landing blake3 aead (entry, env) with
  | failed error => rfl
  | refused => rfl
  | unwritten plaintext => rfl
  | written plaintext =>
      show (if entry.encryptionNonce.isEmpty then (⟨∅, rows⟩ : WireIndex) else _).rows = _
      unfold RemoteSync.remember
      split_ifs <;> rfl

/-- A ciphertext is written down under the hash that the server announced. -/
theorem cacheKey_of_ciphertext {entry : FileMetadata} (h : entry.encryptionNonce ≠ [])
    (plaintext : Bytes) : RemoteSync.cacheKey blake3 entry plaintext = digestOfBytes entry.contentHash := by
  unfold RemoteSync.cacheKey
  rw [if_neg (by simpa using h)]
  by_cases hlength : entry.contentHash.length = 32
  · have hexpected : expectedHash entry = some ⟨entry.contentHash, hlength⟩ := dif_pos hlength
    have hdigest : digestOfBytes entry.contentHash = ⟨entry.contentHash, hlength⟩ := dif_pos hlength
    rw [hexpected, hdigest]
    rfl
  · have hexpected : expectedHash entry = none := dif_neg hlength
    have hdigest : digestOfBytes entry.contentHash = zeroDigest := dif_neg hlength
    rw [hexpected, hdigest]
    rfl

/-- What is sent is announced under its own hash. -/
theorem of_sent {sync : RemoteSync} {disk : PathMap Bytes} {entry : FileMetadata} {env : UploadEnv}
    {bytes : Bytes} {payload : UploadPayload}
    (h : sync.sent blake3 aead disk entry env = some (bytes, payload)) :
    blake3 payload.wireBytes = payload.contentHash := by
  unfold RemoteSync.sent at h
  split_ifs at h
  obtain ⟨bytes', -, hpayload⟩ := Option.bind_eq_some_iff.mp h
  obtain ⟨payload', hmade, heq⟩ := Option.map_eq_some_iff.mp hpayload
  cases heq
  unfold RemoteSync.uploadPayload at hmade
  cases hkey : sync.e2eeKey with
  | none =>
      rw [hkey] at hmade
      cases hmade
      rfl
  | some key =>
      rw [hkey] at hmade
      obtain ⟨ciphertext, -, rfl⟩ := Option.map_eq_some_iff.mp hmade
      rfl

/-- Every step keeps the rows of what was written down. -/
theorem Saved.step {s : Shares} (h : Saved s.rows s.moved) (e : ShareEvent) :
    Saved (s.step blake3 aead e).rows (s.step blake3 aead e).moved := by
  cases e with
  | scan sync env => exact h
  | change share path contents => exact h
  | upload sync entry env =>
      show Saved (s.upload blake3 aead sync entry env).rows (s.upload blake3 aead sync entry env).moved
      unfold Shares.upload
      cases hsent : sync.sent blake3 aead (s.disk sync.share) entry env with
      | none => exact h
      | some x =>
          obtain ⟨bytes, payload⟩ := x
          exact h.remember sync entry.path env.dbOk (t := ⟨bytes, env.mtimeNs, payload.encryptionNonce,
            sync.hasMetaDb && env.dbOk, _⟩) (fun _ => of_sent blake3 aead hsent) rfl
  | download sync entry env =>
      show Saved (s.download blake3 aead sync entry env).rows
        (s.download blake3 aead sync entry env).moved
      unfold Shares.download
      dsimp only
      rcases hroot : sync.scanRoot.isEmpty with _ | _
      · rw [rows_downloads blake3 aead hroot, if_neg Bool.false_ne_true]
        cases sync.landing blake3 aead (entry, env) with
        | failed error => exact h
        | refused => exact h
        | unwritten plaintext => exact h
        | written plaintext =>
            exact h.remember sync entry.path env.dbOk (t := Shares.fetched entry plaintext env.mtimeNs
              (sync.hasMetaDb && env.dbOk))
              (fun hnonce => (cacheKey_of_ciphertext blake3 hnonce plaintext).symm) rfl
      · rw [if_pos rfl]
        unfold RemoteSync.downloads
        rw [hroot, if_pos rfl]
        exact h
  | serverWins sync remote env =>
      show Saved (s.serverWins blake3 aead sync remote env).rows
        (s.serverWins blake3 aead sync remote env).moved
      unfold Shares.serverWins
      cases sync.remotePlain blake3 aead remote env with
      | none => exact h
      | some plaintext =>
          dsimp only
          split_ifs
          · exact h.insert _ rfl
          · exact h

/-! ## Scans under the condition -/

variable {blake3 aead} {s : Shares} {sync : RemoteSync} {env : ReportEnv}

/-- The only row of the vault under the key of a path is found under it. -/
theorem lookup_dbIndex {rows : ClientRows} {path : Path} {row : FileRow}
    (hrow : rows.lookup (vaultDefault, path) = some row)
    (halone : ∀ path', rows.lookup (vaultDefault, path') ≠ none →
      vaultRelativePathKey path' = vaultRelativePathKey path → path' = path) :
    (dbIndex rows.listAllFiles).lookup (vaultRelativePathKey path) = some (rowToMeta path row) := by
  have hlists := rows.lists_listFilesScoped vaultDefault
  have hat : ∀ m ∈ rows.listAllFiles, (rows.lookup (vaultDefault, m.path)).map (rowToMeta m.path) =
      some m := fun m hm => (hlists.mem_iff m).mp hm
  unfold dbIndex
  cases hfound : (Table.collect (fun m => vaultRelativePathKey m.path) rows.listAllFiles).lookup
      (vaultRelativePathKey path) with
  | none =>
      have hmem : rowToMeta path row ∈ rows.listAllFiles := by
        refine (hlists.mem_iff _).mpr ?_
        show (rows.lookup (vaultDefault, path)).map (rowToMeta path) = _
        rw [hrow]
        rfl
      have hpath : (rowToMeta path row).path = path := rfl
      exact absurd (congrArg vaultRelativePathKey hpath)
        (Table.lookup_collect_eq_none.mp hfound _ hmem)
  | some m =>
      obtain ⟨hm, hkey⟩ := Table.of_lookup_collect hfound
      obtain ⟨row', hrow', hm'⟩ := Option.map_eq_some_iff.mp (hat m hm)
      have hpath : m.path = path := halone m.path (by rw [hrow']; exact Option.some_ne_none _) hkey
      rw [hpath, hrow] at hrow'
      cases hrow'
      rw [← hm', hpath]

/-- **A kept file whose row can be found is reported under it.** -/
theorem Finds.stored (hsaved : Saved s.rows s.moved) {path : Path} {t : Transfer}
    (hkept : s.Kept sync.share env path t) (hnonce : t.nonce ≠ []) (h : Finds s sync env path t) :
    sync.stored s.rows env path t.bytes.length =
      some (t.held.contentHash, sync.e2eeKey.map fun _ => t.nonce) := by
  obtain ⟨hmoved, -, htime⟩ := hkept
  obtain ⟨row, hrow, hhash, hrowNonce, hsize, hmtime⟩ := hsaved _ t hmoved hnonce h.saved
  rw [h.share] at hrow
  have hanswered := h.answered
  unfold RemoteSync.stored RemoteSync.knownRows
  cases hkey : sync.e2eeKey with
  | none =>
      rw [hkey] at hanswered
      have hlookup : (indexByPath s.rows.listAllFiles).lookup path = some (rowToMeta path row) := by
        refine ((s.rows.lists_listFilesScoped vaultDefault).lookup_collect path).trans ?_
        rw [hrow]
        rfl
      simp only [h.store, hanswered, Bool.and_self, if_true, hlookup]
      unfold fastPathHash
      rw [Option.filter_some, if_pos]
      · rw [← hhash]
        rfl
      · simp [rowToMeta, hsize, hmtime, htime]
  | some key =>
      rw [hkey] at hanswered
      obtain ⟨hok, halone⟩ := hanswered
      simp only [h.store, hok, Bool.and_self, if_true]
      have hwire : storedWire (dbIndex s.rows.listAllFiles) path =
          some ⟨t.held.contentHash, t.nonce, t.mtimeNs, t.bytes.length⟩ := by
        unfold storedWire
        rw [lookup_dbIndex hrow halone, Option.bind_some]
        unfold E2eeCachedWire.fromFileMeta
        simp [rowToMeta, hhash, hrowNonce, hsize, hmtime, hnonce]
      rw [hwire, Option.filter_some, if_pos (by simp [htime])]
      rfl

/-! ## What other rows contribute -/

/-- What the store says of a path. -/
theorem lookup_knownRows (sync : RemoteSync) (rows : ClientRows) (ok : Bool) (path : Path) :
    (indexByPath (sync.knownRows rows ok)).lookup path =
      if sync.hasMetaDb && ok then (rows.lookup (vaultDefault, path)).map (rowToMeta path) else none := by
  unfold RemoteSync.knownRows
  split_ifs
  · exact (rows.lists_listFilesScoped vaultDefault).lookup_collect path
  · rfl

/-- In the share `default` the rows of other shares are not read. -/
theorem localFiles_relabel_of_default (hshare : sync.share = vaultDefault) (rows : ClientRows)
    (g : String × Path → Digest × Nonce) (disk : PathMap Bytes) :
    sync.localFiles blake3 aead (rows.relabel (isForeign sync.share) g) env disk =
      sync.localFiles blake3 aead rows env disk := by
  have hlist : (rows.relabel (isForeign sync.share) g).listAllFiles = rows.listAllFiles :=
    rows.listFilesScoped_relabel_of_false (fun path row => by simp [isForeign, hshare]) g
  unfold RemoteSync.localFiles RemoteSync.overlaid RemoteSync.scanned RemoteSync.knownRows
  simp only [hlist]

/-- The rows of the vault `default`, as another share finds them with other contents. -/
theorem knownRows_relabel (hshare : sync.share ≠ vaultDefault) (rows : ClientRows)
    (g : String × Path → Digest × Nonce) (ok : Bool) :
    sync.knownRows (rows.relabel (isForeign sync.share) g) ok =
      (sync.knownRows rows ok).map fun m => ClientRows.relabelMeta (g (vaultDefault, m.path)) m := by
  unfold RemoteSync.knownRows
  split_ifs
  · exact rows.listFilesScoped_relabel_of_true
      (fun path row => by simp [isForeign, Ne.symm hshare]) g
  · rfl

/-- Other contents make another ciphertext of each, and of nothing else. -/
theorem storedWire_relabel (rows : List FileMeta) (g : String × Path → Digest × Nonce) (path : Path) :
    (storedWire (dbIndex (rows.map fun m => ClientRows.relabelMeta (g (vaultDefault, m.path)) m))
        path).map (fun c => (c.mtimeNs, c.size)) =
      (storedWire (dbIndex rows) path).map fun c => (c.mtimeNs, c.size) := by
  have hlookup := Table.lookup_collect_map (fun m : FileMeta => vaultRelativePathKey m.path)
    (fun m : FileMeta => vaultRelativePathKey m.path)
    (fun m => ClientRows.relabelMeta (g (vaultDefault, m.path)) m) (fun _ => rfl) rows
    (vaultRelativePathKey path)
  unfold storedWire dbIndex
  rw [hlookup]
  cases (Table.collect (fun m => vaultRelativePathKey m.path) rows).lookup
      (vaultRelativePathKey path) with
  | none => rfl
  | some m =>
      rw [Option.map_some, Option.bind_some, Option.bind_some, ClientRows.fromFileMeta_relabelMeta,
        Option.map_map]
      rfl

/-- Other contents have the size and the time of the old ones. -/
theorem fastPathHash_relabel {m : Option FileMeta} {size : ℕ} {mtimeNs : ℤ}
    (h : fastPathHash m size mtimeNs = none) (x : FileMeta → Digest × Nonce) :
    fastPathHash (m.map fun m => ClientRows.relabelMeta (x m) m) size mtimeNs = none := by
  unfold fastPathHash at h ⊢
  cases m with
  | none => rfl
  | some m =>
      rw [Option.map_eq_none_iff, Option.filter_some] at h
      rw [Option.map_some, Option.map_eq_none_iff, Option.filter_some]
      split_ifs at h with hsame
      exact if_neg hsame

/-- A share for whose files nothing is found reports the same whatever the other rows say. -/
theorem wireIndexOf_localFiles_relabel {rows : ClientRows} {disk : PathMap Bytes}
    (hshare : sync.share ≠ vaultDefault)
    (hnone : ∀ path bytes, Comes sync env disk path bytes →
      sync.stored rows env path bytes.length = none) (g : String × Path → Digest × Nonce) :
    (sync.localFiles blake3 aead (rows.relabel (isForeign sync.share) g) env disk).map wireIndexOf =
      (sync.localFiles blake3 aead rows env disk).map wireIndexOf := by
  have hwire : (fun m => wireIndexOf (fileMetaToProto m)) =
      (fun c : Path × Digest × Option Bytes => (c.1, c.2.1.toList, c.2.2.getD [])) ∘ contents := rfl
  rw [RemoteSync.wireIndexOf_localFiles, RemoteSync.wireIndexOf_localFiles]
  split_ifs with hscan
  · rfl
  rw [Bool.or_eq_true, not_or, Bool.not_eq_true, Bool.not_eq_true, Bool.not_eq_false'] at hscan
  have hcomes : ∀ e ∈ walked .default disk, sync.stored rows env e.1 e.2.length = none := by
    rintro ⟨path, bytes⟩ he
    obtain ⟨hfile, hwalk, hincluded⟩ := mem_walked.mp he
    exact hnone path bytes ⟨hscan.1, hscan.2, hwalk, hincluded, hfile⟩
  suffices hcontents : (sync.overlaid blake3 aead (rows.relabel (isForeign sync.share) g) env disk).map
      contents = (sync.overlaid blake3 aead rows env disk).map contents by
    rw [hwire, ← List.map_map, ← List.map_map, hcontents]
  unfold RemoteSync.stored at hcomes
  unfold RemoteSync.overlaid RemoteSync.scanned
  cases hkey : sync.e2eeKey with
  | none =>
      rw [hkey] at hcomes
      simp only [scan_eq_map, List.map_map]
      refine List.map_congr_left fun e he => ?_
      have hfast := Option.map_eq_none_iff.mp (hcomes e he)
      have hlookup := Table.lookup_collect_map FileMeta.path FileMeta.path
        (fun m => ClientRows.relabelMeta (g (vaultDefault, m.path)) m) (fun _ => rfl)
        (sync.knownRows rows env.lastKnownOk) e.1
      show contents (scanMeta _ _ _ _ _ _) = contents (scanMeta _ _ _ _ _ _)
      unfold contents scanMeta
      rw [knownRows_relabel hshare]
      unfold indexByPath at hfast ⊢
      rw [hlookup, hfast, fastPathHash_relabel hfast]
  | some key =>
      rw [hkey] at hcomes
      refine overlayE2eeExchangeFiles_congr ?_ key env.read env.nonce ∅
      rw [scan_eq_map, scan_eq_map, List.forall₂_map_left_iff, List.forall₂_map_right_iff,
        List.forall₂_same]
      intro e he
      have hunknown := Option.map_eq_none_iff.mp (hcomes e he)
      have hrelabel := storedWire_relabel (sync.knownRows rows env.overlayOk) g e.1
      rw [← knownRows_relabel hshare] at hrelabel
      have hunfit : ∀ c, storedWire (dbIndex (sync.knownRows rows env.overlayOk)) e.1 = some c →
          ¬ (c.mtimeNs = (env.stat e.1).mtimeNs ∧ c.size = e.2.length) := by
        intro c hc
        rw [hc, Option.filter_eq_none_iff] at hunknown
        simpa using hunknown c rfl
      refine ⟨rfl, rfl, rfl, ?_, ?_, ?_⟩
      · have hsome := congrArg Option.isSome hrelabel
        rw [Option.isSome_map, Option.isSome_map] at hsome
        exact hsome
      · intro c hc
        have hc : storedWire (dbIndex (sync.knownRows (rows.relabel (isForeign sync.share) g)
          env.overlayOk)) e.1 = some c := hc
        rw [hc, Option.map_some] at hrelabel
        obtain ⟨c₀, hc₀, heq⟩ := Option.map_eq_some_iff.mp hrelabel.symm
        obtain ⟨hmtime, hsize⟩ := Prod.mk.inj heq
        have hnot := hunfit c₀ hc₀
        rw [hmtime, hsize] at hnot
        show (decide (c.mtimeNs = (env.stat e.1).mtimeNs) && decide (c.size = e.2.length)) = false
        simpa using hnot
      · intro c hc
        show (decide (c.mtimeNs = (env.stat e.1).mtimeNs) && decide (c.size = e.2.length)) = false
        simpa using hunfit c hc

/-- Where no ciphertext fits, other ciphertexts do not either. -/
theorem fastPathHash_relabel_isCiphertext {rows : ClientRows} {ok : Bool} {path : Path} {size : ℕ}
    {mtimeNs : ℤ}
    (h : ∀ m, (indexByPath (sync.knownRows rows ok)).lookup path = some m → m.size = size →
      m.mtimeNs = mtimeNs → m.encryptionNonce.getD [] = []) (g : String × Path → Digest × Nonce) :
    fastPathHash ((indexByPath (sync.knownRows (rows.relabel isCiphertext g) ok)).lookup path) size
        mtimeNs =
      fastPathHash ((indexByPath (sync.knownRows rows ok)).lookup path) size mtimeNs := by
  simp only [lookup_knownRows] at h ⊢
  split_ifs at h ⊢ with hok
  · rw [ClientRows.lookup_relabel]
    cases hrow : rows.lookup (vaultDefault, path) with
    | none => rfl
    | some row =>
        rw [hrow] at h
        by_cases hcipher : isCiphertext (vaultDefault, path) row = true
        · have hunfit : ¬ (row.size = size ∧ row.mtimeNs = mtimeNs) := by
            rintro ⟨hsize, hmtime⟩
            have hempty : row.encryptionNonce.getD [] = [] := h _ rfl hsize hmtime
            unfold isCiphertext at hcipher
            rcases hnonce : row.encryptionNonce with _ | nonce
            · rw [hnonce] at hcipher
              cases hcipher
            · rw [hnonce] at hcipher hempty
              rw [Option.getD_some] at hempty
              rw [hempty] at hcipher
              cases hcipher
          have hnone : ∀ m : FileMeta, m.size = row.size → m.mtimeNs = row.mtimeNs →
              fastPathHash (some m) size mtimeNs = none := by
            intro m hsize hmtime
            unfold fastPathHash
            rw [hsize.symm, hmtime.symm] at hunfit
            rw [Option.filter_some, if_neg (by simpa using hunfit)]
            rfl
          simp only [Option.map_some, if_pos hcipher]
          rw [hnone _ rfl rfl, hnone _ rfl rfl]
        · simp only [Option.map_some, if_neg hcipher]
  · rfl

/-- A file that is synced in plaintext, without a key and without a ciphertext that fits. -/
theorem plain_of_calm {s : Shares} (h : Calm s sync env) {path : Path}
    (hplain : s.InPlaintext sync env path) {f : FileMetadata}
    (hf : f ∈ sync.localFiles blake3 aead s.rows env (s.disk sync.share)) (hpath : f.path = path) :
    f.encryptionNonce = [] ∧
      ∀ g, ∃ f' ∈ sync.localFiles blake3 aead (s.rows.relabel isCiphertext g) env (s.disk sync.share),
        f'.path = path ∧ f'.contentHash = f.contentHash := by
  obtain ⟨-, ⟨bytes, hcomes⟩, m, hm, hwire⟩ := RemoteSync.of_mem_localFiles hf
  rw [hpath] at hcomes
  obtain ⟨hkey, hknown⟩ := h.plain path bytes hcomes hplain
  have hoverlaid : ∀ rows, sync.overlaid blake3 aead rows env (s.disk sync.share) =
      sync.scanned blake3 rows env (s.disk sync.share) := by
    intro rows
    unfold RemoteSync.overlaid
    rw [hkey]
  rw [hoverlaid] at hm
  have hentry := RemoteSync.eq_entryOf_of_mem_scanned hcomes hm
    ((congrArg Prod.fst hwire).symm.trans hpath)
  refine ⟨?_, fun g => ?_⟩
  · rw [hentry] at hwire
    exact congrArg (fun x => x.2.2) hwire
  · have hmem : sync.entryOf blake3 (s.rows.relabel isCiphertext g) env path bytes ∈
        sync.overlaid blake3 aead (s.rows.relabel isCiphertext g) env (s.disk sync.share) := by
      rw [hoverlaid]
      exact RemoteSync.entryOf_mem_scanned hcomes
    obtain ⟨f', hf', hwire'⟩ := RemoteSync.exists_mem_localFiles hcomes hmem
    refine ⟨f', hf', congrArg Prod.fst hwire', ?_⟩
    have hhash : (sync.entryOf blake3 (s.rows.relabel isCiphertext g) env path bytes).contentHash =
        (sync.entryOf blake3 s.rows env path bytes).contentHash :=
      congrArg (fun o => Option.getD o (blake3 bytes)) (fastPathHash_relabel_isCiphertext hknown g)
    refine (congrArg (fun x => x.2.1) hwire').trans ?_
    refine Eq.trans ?_ (congrArg (fun x => x.2.1) hwire).symm
    rw [hentry]
    exact congrArg List.Vector.toList hhash

/-! ## The law -/

/-- **A calm scan is steady.** -/
theorem Calm.steady {s : Shares} (hsaved : Saved s.rows s.moved) (h : Calm s sync env) :
    Steady blake3 aead s sync env where
  hash path t hkept hnonce := by
    have hfinds := h.kept path t hkept hnonce
    obtain ⟨⟨f, hf, hpath⟩, hall⟩ := RemoteSync.report_of_stored blake3 aead hfinds.comes
      (hfinds.stored hsaved hkept hnonce)
    exact ⟨f, hf, hpath, (hall f hf hpath).1⟩
  quiet path t hkept hnonce vaultId db call hfiles hserver := by
    have hfinds := h.kept path t hkept hnonce
    have hclient := RemoteSync.liveHash_clientAt_of_stored blake3 aead hfinds.comes
      (hfinds.stored hsaved hkept hnonce)
    rw [← hfiles] at hclient
    apply unlisted_of_skip
    exact verdict_skip_of_same (side_eq_live_iff_liveHash.mpr ⟨_, hserver⟩)
      (hserver.trans hclient.symm) _
  own g := by
    rcases h.own with hshare | hnone
    · rw [localFiles_relabel_of_default hshare]
    · by_cases hshare : sync.share = vaultDefault
      · rw [localFiles_relabel_of_default hshare]
      · exact wireIndexOf_localFiles_relabel hshare hnone g
  plain path hplain f hf hpath := plain_of_calm h hplain hf hpath

/-- With the server's nonces it is steady in full. -/
theorem Calm.rescans {s : Shares} (hsaved : Saved s.rows s.moved) (h : Calm s sync env)
    (hheld : NoncesHeld s sync env) : Rescans blake3 aead s sync env where
  toSteady := h.steady hsaved
  nonce path t hkept hnonce := by
    have hfinds := h.kept path t hkept hnonce
    obtain ⟨⟨f, hf, hpath⟩, hall⟩ := RemoteSync.report_of_stored blake3 aead hfinds.comes
      (hfinds.stored hsaved hkept hnonce)
    obtain ⟨hhash, hnonce'⟩ := hall f hf hpath
    exact ⟨f, hf, hpath, hhash, hnonce'.trans (congrArg (fun o => Option.getD o [])
      (hheld path t hkept hnonce).symm)⟩

/-- What is said of the scans of a run. -/
def AtScans (law : Shares → RemoteSync → ReportEnv → Prop) (s : Shares) : ShareEvent → Prop
  | .scan sync env => law s sync env
  | _ => True

variable (blake3 aead) in
/-- **In every run of the shares of a daemon, a calm scan is steady**, and steady in full where the
server's rows have the nonces. -/
theorem steady_of_calm (rows : ClientRows) (disk : String → PathMap Bytes) (es : List ShareEvent) :
    Trace.Always (Shares.step blake3 aead)
      (fun _ s e => AtScans (fun s sync env =>
        (Calm s sync env → Steady blake3 aead s sync env) ∧
          (Calm s sync env → NoncesHeld s sync env → Rescans blake3 aead s sync env)) s e)
      (.start rows disk) es := by
  have hinv : ∀ es, Saved (Trace.run (Shares.step blake3 aead) (.start rows disk) es).rows
      (Trace.run (Shares.step blake3 aead) (.start rows disk) es).moved := by
    intro es
    refine Trace.invariant_history (I := fun _ (s : Shares) => Saved s.rows s.moved) ?_
      (fun _ s e h => h.step blake3 aead e) es
    intro key t ht
    cases ht
  rintro pre e post -
  cases e with
  | scan sync env => exact ⟨fun h => h.steady (hinv pre), fun h hheld => h.rescans (hinv pre) hheld⟩
  | upload sync entry env => trivial
  | download sync entry env => trivial
  | serverWins sync remote env => trivial
  | change share path contents => trivial

end

/-! ## A file of one byte -/

/-- A client of the share of the given name, with the sample key. -/
def sealedShare (share : String) : RemoteSync where
  share := share
  scanRoot := ["srv"]
  nodeId := "n"
  hasBlobCache := false
  hasMetaDb := true
  e2eeKey := some sampleKey
  lanFetch := none

def laterNonce : Nonce :=
  ⟨[1, 2, 3, 4, 5, 6, 7, 8, 9, 10, 11, 12, 13, 14, 15, 16, 17, 18, 19, 20, 21, 22, 23, 24], rfl⟩

/-- `a`, encrypted under the sample key and the later nonce by XChaCha20-Poly1305. -/
def resealedFile : Bytes :=
  [221, 234, 130, 123, 202, 248, 85, 84, 209, 131, 243, 201, 104, 44, 12, 240, 24]

/-- The cipher at the sample key, both nonces and `a`; elsewhere, the sample cipher stands for it. -/
def laterAead : Aead where
  encrypt key nonce plaintext :=
    if key = sampleKey ∧ nonce = laterNonce ∧ plaintext = [97] then some resealedFile
    else sampleAead.encrypt key nonce plaintext
  decrypt key nonce ciphertext :=
    if key = sampleKey ∧ nonce = laterNonce ∧ ciphertext = resealedFile then some [97]
    else sampleAead.decrypt key nonce ciphertext
  decrypt_encrypt := by
    intro key nonce plaintext ciphertext h
    split_ifs at h with hlater
    · cases h
      rw [if_pos ⟨hlater.1, hlater.2.1, rfl⟩, hlater.2.2]
    · rw [if_neg]
      · exact sampleAead.decrypt_encrypt h
      · rintro ⟨-, rfl, rfl⟩
        have hother : laterNonce ≠ sampleNonce := by decide
        have hseal : plaintext ++ List.replicate 16 0 = resealedFile := by
          unfold sampleAead at h
          simpa [hother] using h
        have hlast := congrArg List.getLast? hseal
        simp [resealedFile] at hlast
  length_encrypt := by
    intro key nonce plaintext ciphertext h
    split_ifs at h with hlater
    · cases h
      rw [hlater.2.2]
      rfl
    · exact sampleAead.length_encrypt h

/-- The digest of the file that is encrypted again, and those of the first. -/
def laterBlake3 (bytes : Bytes) : Digest :=
  if bytes = resealedFile then
    ⟨[202, 15, 80, 13, 127, 208, 107, 129, 210, 248, 188, 167, 104, 171, 163, 249, 1, 230, 61, 94, 232,
      228, 144, 185, 217, 222, 34, 78, 162, 175, 61, 189], rfl⟩
  else vaultBlake3 bytes

/-- A scan in which nothing fails. -/
def laterScan : ReportEnv where
  stat := fun _ => ⟨none, 1⟩
  read := fun _ => some [97]
  nonce := fun _ => laterNonce
  scanOk := true
  lastKnownOk := true
  overlayOk := true
  versionsOk := true

/-- The file is uploaded. -/
def sampleUploaded : UploadEnv where
  readOk := true
  nonce := sampleNonce
  accepted := true
  serverNodeId := "server"
  receivedAt := 1
  dbOk := true
  mtimeNs := 1

/-- The file is downloaded. -/
def sampleDownloaded : DownloadEnv where
  registry := ⟨false, ∅⟩
  now := 0
  clientBuilt := true
  reply := fun _ => .transport ""
  server := .ok sealedFile
  write := .done
  cacheOk := true
  dbOk := true
  mtimeNs := 1

/-- The server's entry of the file. -/
def sealedEntry : FileMetadata :=
  { path := ["f"]
    contentHash := (vaultBlake3 sealedFile).toList
    size := 17
    encryptionNonce := sampleNonce.toList }

/-- The file, in every share. -/
def oneByteEach : String → PathMap Bytes := fun _ => (∅ : PathMap Bytes).insert ["f"] [97]

/-- The share `default` after the download. -/
def afterDownload : Shares :=
  (Shares.start ∅ fun _ => ∅).step laterBlake3 laterAead
    (.download (sealedShare vaultDefault) sealedEntry sampleDownloaded)

/-- The transfer that it records. -/
def sampleFetched : Transfer := Shares.fetched sealedEntry [97] 1 true

theorem kept_afterDownload {path : Path} {t : Transfer}
    (h : afterDownload.Kept vaultDefault laterScan path t) : path = ["f"] ∧ t = sampleFetched := by
  have hmoved : (afterDownload.moved.lookup (vaultDefault, path)) =
      if (vaultDefault, path) = (vaultDefault, ["f"]) then some sampleFetched else none :=
    (Table.lookup_insert_eq_ite _ _ _ _).trans rfl
  have hkept := hmoved.symm.trans h.1
  split_ifs at hkept with hpath
  exact ⟨(Prod.mk.inj hpath).2, (Option.some.inj hkept).symm⟩

theorem calm_afterDownload : Calm afterDownload (sealedShare vaultDefault) laterScan where
  kept path t hkept _ := by
    obtain ⟨rfl, rfl⟩ := kept_afterDownload hkept
    refine ⟨⟨rfl, rfl, by decide, by decide, hkept.2.1⟩, rfl, rfl, rfl, rfl, fun path' hrow _ => ?_⟩
    by_contra hne
    refine hrow ((AList.lookup_insert_ne fun heq => hne ?_).trans rfl)
    exact (Prod.mk.inj heq).2
  own := Or.inl rfl
  plain path bytes hcomes hplain := by
    have hfile : path = ["f"] := by
      by_contra hne
      have hnone : (afterDownload.disk vaultDefault).lookup path = none :=
        (AList.lookup_insert_ne hne).trans rfl
      cases hnone.symm.trans hcomes.file
    subst hfile
    have hkept : afterDownload.Kept vaultDefault laterScan ["f"] sampleFetched :=
      ⟨AList.lookup_insert _, AList.lookup_insert _, rfl⟩
    rcases hplain with ⟨t, ht, hempty⟩ | ⟨hnone, -⟩
    · obtain ⟨-, rfl⟩ := kept_afterDownload ht
      exact absurd hempty (by decide)
    · exact absurd hkept (hnone _)

/-- The theorem at work: what was downloaded is reported under the server's hash and nonce. -/
theorem rescans_afterDownload :
    Rescans laterBlake3 laterAead afterDownload (sealedShare vaultDefault) laterScan := by
  have hlaw := (Trace.always_pair.mp (steady_of_calm laterBlake3 laterAead ∅ (fun _ => ∅)
    [.download (sealedShare vaultDefault) sealedEntry sampleDownloaded,
      .scan (sealedShare vaultDefault) laterScan])).2
  apply hlaw.2 calm_afterDownload
  intro path t hkept _
  obtain ⟨-, rfl⟩ := kept_afterDownload hkept
  rfl

/-- **The file of a share that is not called `default` is encrypted again in the next cycle.** -/
theorem not_rescans_of_named_share :
    ¬ Trace.Always (Shares.step laterBlake3 laterAead)
      (fun _ s e => AtScans (Rescans laterBlake3 laterAead) s e) (.start ∅ oneByteEach)
      [.upload (sealedShare "notes") { path := ["f"] } sampleUploaded,
        .scan (sealedShare "notes") laterScan] := by
  intro h
  obtain ⟨-, hscan⟩ := Trace.always_pair.mp h
  have hlaw : Rescans laterBlake3 laterAead _ (sealedShare "notes") laterScan := hscan
  obtain ⟨f, hf, -, hhash⟩ := hlaw.hash ["f"] _ ⟨AList.lookup_insert _, rfl, rfl⟩ (by decide)
  have hother : ∀ f ∈ (sealedShare "notes").localFiles laterBlake3 laterAead
      (((Shares.start ∅ oneByteEach).step laterBlake3 laterAead
        (.upload (sealedShare "notes") { path := ["f"] } sampleUploaded)).rows) laterScan
      (oneByteEach "notes"), f.contentHash ≠ (laterBlake3 sealedFile).toList := by
    decide +kernel
  exact hother f hf hhash

end DiskArcana.System
