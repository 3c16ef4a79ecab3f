import DiskArcana.Client.Encrypted
import DiskArcana.System.Cycle

/-!
# A file of an encrypted vault, from one client to another

One client encrypts a file and uploads it; the other, with the same key, is told to download it. Five
pieces have to agree on the nonce: the payload, the messages of the upload, the row that the server
writes, the entry that the server hands out, and the decryption.

The messages have no place for the nonce and the row is written without one. So the second client finds
no nonce in the server's entry and writes the ciphertext; and where the server hands it back its own
entry instead, the hash in it is not that of the upload and nothing is written
(`Handover.written_ne_plaintext`).
-/

namespace DiskArcana.System

open DiskArcana.Core DiskArcana.Lib DiskArcana.Server DiskArcana.Client

/-- A client of an encrypted vault. -/
structure VaultClient where
  cfg : ShareConfig
  key : VaultKey
  disk : PathMap Bytes
  /-- The rows that `list_all_files` of the client's own store gives. -/
  rows : List FileMeta
  wireCache : Table String E2eeCachedWire

/-- What a scan meets: times, what the overlay reads of each file, and the nonces it draws. -/
structure ScanEnv where
  stat : Path → FileStat
  read : Path → Option Bytes
  nonce : Path → Nonce

section

variable (blake3 : Bytes → Digest) (aead : Aead)

/-- The snapshot that a client with a vault key sends.
Source: `sync_loop/wire.rs`, `execute` (scan phase) -/
def VaultClient.report (c : VaultClient) (env : ScanEnv) : List FileMetadata :=
  let dbIndex := Table.collect (fun m => vaultRelativePathKey m.path) c.rows
  let scanned := scan blake3 .default c.cfg.nodeId (indexByPath c.rows) env.stat c.disk
  let overlaid :=
    (overlayE2eeExchangeFiles blake3 aead c.key dbIndex env.read env.nonce c.wireCache scanned).1
  (overlayVersionIdsFromDb overlaid dbIndex).map fileMetaToProto

/-- The answer of the server to the snapshot. -/
def VaultClient.answer (c : VaultClient) (env : ScanEnv) (server : SyncServer) (now : ℤ) :
    SyncStateResponse :=
  exchangeResponse server.vaultId server.db (exchangeCall c.cfg (c.report blake3 aead env) now)

/-- The bytes that a client with a vault key writes for a download.
Source: `sync_loop/wire.rs`, `execute` (download phase) -/
def VaultClient.fetch (c : VaultClient) (server : SyncServer) (o : Outcome) (entry : FileMetadata) :
    Option Bytes :=
  ((tryLanFetch blake3 c.cfg o entry).or (downloadFile c.cfg server o entry.path)).bind fun wire =>
    materializeDownloadedBytes blake3 (decryptWire aead (some c.key)) wire entry

/-- A file on its way from one client to another, with the moments of the server in between: it is asked
for in the cycle of the sender, sealed and committed; it is listed in a later cycle of the receiver,
when its row is still that of the upload, and fetched while its bytes are still those of the upload. -/
structure Handover where
  sender : VaultClient
  receiver : VaultClient
  same_key : receiver.key = sender.key
  path : Path
  plaintext : Bytes
  nonce : Nonce
  payload : UploadPayload
  /-- The exchange of the sender. -/
  asked : SyncServer
  askedEnv : ScanEnv
  askedAt : ℤ
  asked_for : Listed (sender.answer blake3 aead askedEnv asked askedAt).toUpload path
  /-- The upload. -/
  before : SyncServer
  after : SyncServer
  sending : Outcome
  sealed : fromPlaintextEncrypted blake3 aead plaintext sender.key nonce = some payload
  committed : deltaUpload blake3 before (uploadCall blake3 sender.cfg path payload.wireBytes sending)
    = .ok after
  recorded : (before.db.upsertFileScopedVersioned
    (uploadedMeta before.serverNodeId path (blake3 payload.wireBytes) payload.wireBytes.length
      sending.mtimeNs) ⟨before.serverNodeId, sending.retention⟩ sending.now).isSome
  /-- The exchange of the receiver. -/
  offered : SyncServer
  offeredEnv : ScanEnv
  offeredAt : ℤ
  row_kept : offered.db.files.lookup path = after.db.files.lookup path
  entry : FileMetadata
  listed : entry ∈ (receiver.answer blake3 aead offeredEnv offered offeredAt).toDownload
  entry_path : entry.path = path
  /-- The download. -/
  served : SyncServer
  fetching : Outcome
  bytes_kept : served.shareTree.lookup path = after.shareTree.lookup path
  no_peer : tryLanFetch blake3 receiver.cfg fetching entry = none

variable {blake3 aead}

/-- The bytes that the receiver writes. -/
def Handover.written (t : Handover blake3 aead) : Option Bytes :=
  t.receiver.fetch blake3 aead t.served t.fetching t.entry

/-! ## The pieces -/

/-- A reported entry is live, at a path of the walk. -/
theorem VaultClient.of_mem_report {c : VaultClient} {env : ScanEnv} {f : FileMetadata}
    (hf : f ∈ c.report blake3 aead env) : isWalkPath f.path = true ∧ f.deleted = false := by
  obtain ⟨m, hm, rfl⟩ := List.mem_map.mp hf
  obtain ⟨m₁, hm₁, hpath₁, hlive₁⟩ := of_mem_overlayVersionIdsFromDb hm
  obtain ⟨m₂, hm₂, hpath₂, hlive₂⟩ := of_mem_overlayE2eeExchangeFiles hm₁
  obtain ⟨hscan, hkept⟩ := List.mem_filter.mp ((List.mem_insertionSort _).mp hm₂)
  obtain ⟨e, -, rfl⟩ := List.mem_map.mp hscan
  rw [Bool.and_eq_true] at hkept
  refine ⟨?_, ?_⟩
  · rw [fileMetaToProto_path, hpath₁, hpath₂]
    exact hkept.1
  · show m.deleted = false
    rw [hlive₁, hlive₂]
    rfl

/-- A path that the server asks the client for is one of the walk. -/
theorem VaultClient.isWalkPath_of_asked {c : VaultClient} {env : ScanEnv} {server : SyncServer}
    {now : ℤ} {path : Path} (h : Listed (c.answer blake3 aead env server now).toUpload path) :
    isWalkPath path = true := by
  obtain ⟨m, hm, rfl⟩ := h
  obtain ⟨-, -, f, hf, rfl⟩ := mem_toUpload.mp hm
  unfold uploadEntry at hf
  split_ifs at hf
  obtain ⟨hpath, -, f', hf', rfl⟩ := of_clientAt hf
  exact (VaultClient.of_mem_report hf').1

namespace Handover

variable (t : Handover blake3 aead)

/-- What the commit of the upload leaves: the ciphertext, and a live row without a nonce. -/
theorem of_committed :
    validatePath t.path = .ok t.path ∧
      t.after.shareTree.lookup t.path = some t.payload.wireBytes ∧
      ∃ row, t.after.db.files.lookup t.path = some row ∧ row.deleted = false ∧
        row.contentHash = blake3 t.payload.wireBytes ∧ row.encryptionNonce = none := by
  have hwalk := VaultClient.isWalkPath_of_asked t.asked_for
  obtain ⟨first, rest, hstream, hpath, -⟩ :=
    uploadStream_eq_cons blake3 t.path t.payload.wireBytes
  have hbytes : uploadBytes (uploadCall blake3 t.sender.cfg t.path t.payload.wireBytes t.sending) =
      t.payload.wireBytes := uploadBytes_uploadStream blake3 rfl
  rcases of_deltaUpload blake3 t.committed with ⟨hempty, -⟩ | ⟨f, r, target, hs, -, -, hguard, hafter⟩
  · exact absurd (hstream.symm.trans hempty) (List.cons_ne_nil _ _)
  · cases hstream.symm.trans hs
    rw [hpath] at hguard
    cases eq_of_validatePath hwalk hguard
    rw [hafter, hbytes]
    refine ⟨hguard, AList.lookup_insert _, ?_⟩
    obtain ⟨db, hdb⟩ := Option.isSome_iff_exists.mp t.recorded
    obtain ⟨⟨versionId, parentVersionId, hfiles⟩, -⟩ := MetaDb.of_upsertFileScopedVersioned hdb
    have hcommit : (commitUpload blake3 t.before t.path t.payload.wireBytes
        (uploadCall blake3 t.sender.cfg t.path t.payload.wireBytes t.sending)).db = db := by
      show (t.before.db.upsertFileScopedVersioned _ _ _).getD t.before.db = db
      exact congrArg (fun o => Option.getD o t.before.db) hdb
    rw [hcommit, hfiles]
    exact ⟨_, AList.lookup_insert _, rfl, rfl, rfl⟩

/-- The entry that the receiver is handed: the server's, without a nonce, or the receiver's own, with
another hash. -/
theorem entry_cases :
    t.entry.encryptionNonce = [] ∨
      ∃ f ∈ t.receiver.report blake3 aead t.offeredEnv, f.path = t.path ∧
        t.entry.contentHash = (digestOfBytes f.contentHash).toList ∧
        digestOfBytes f.contentHash ≠ blake3 t.payload.wireBytes := by
  obtain ⟨-, -, row, hrow, hlive, hhash, hnonce⟩ := t.of_committed
  obtain ⟨-, m, hm, hentry⟩ := mem_toDownload.mp t.listed
  rw [t.entry_path] at hm
  rw [← t.row_kept] at hrow
  have hserver : ∀ m', serverAt t.offered.db t.path = some m' →
      m'.encryptionNonce = none ∧ m'.deleted = false ∧ m'.contentHash = blake3 t.payload.wireBytes := by
    intro m' hm'
    unfold serverAt visible at hm'
    split_ifs at hm'
    obtain ⟨row', hrow', rfl⟩ := Option.map_eq_some_iff.mp hm'
    cases hrow.symm.trans hrow'
    exact ⟨hnonce, hlive, hhash⟩
  have hrowEntry : serverAt t.offered.db t.path = some m → t.entry.encryptionNonce = [] := by
    intro hm'
    rw [hentry]
    show m.encryptionNonce.getD [] = []
    rw [(hserver m hm').1]
    rfl
  unfold downloadEntry at hm
  split at hm
  · rename_i hverdict
    cases hclient : clientAt (exchangeCall t.receiver.cfg
        (t.receiver.report blake3 aead t.offeredEnv) t.offeredAt).files t.path with
    | none =>
        rw [hclient] at hm
        exact Or.inl (hrowEntry hm)
    | some own =>
        rw [hclient] at hm
        cases hm
        obtain ⟨hpath, -, f, hf, rfl⟩ := of_clientAt hclient
        refine Or.inr ⟨f, hf, hpath, by rw [hentry]; rfl, ?_⟩
        obtain ⟨m', hm', hlive'⟩ := side_eq_live_iff.mp (of_verdict_upload hverdict)
        have hother : (protoToFileMeta f).contentHash ≠ m'.contentHash := by
          unfold exchangeVerdict at hverdict
          rw [hm', hclient] at hverdict
          exact contentHash_ne_of_verdict_upload hlive' (VaultClient.of_mem_report hf).2 hverdict
        rw [(hserver m' hm').2.2] at hother
        exact hother
  · split_ifs at hm
    exact Or.inl (hrowEntry hm)
  · split_ifs at hm
    exact Or.inl (hrowEntry hm)
  · cases hm

/-- The bytes that come over the wire are the ciphertext. -/
theorem eq_wireBytes_of_downloadFile {wire : Bytes}
    (h : downloadFile t.receiver.cfg t.served t.fetching t.entry.path = some wire) :
    wire = t.payload.wireBytes := by
  obtain ⟨hguard, htree, -⟩ := t.of_committed
  rw [← t.bytes_kept] at htree
  rw [t.entry_path] at h
  unfold downloadFile at h
  split_ifs at h
  cases hserved : deltaDownload t.served t.receiver.cfg.role t.receiver.cfg.includes t.path with
  | error e =>
      rw [hserved] at h
      cases h
  | ok data =>
      rw [hserved] at h
      cases h
      obtain ⟨target, htarget, hdata⟩ := of_deltaDownload hserved
      cases hguard.symm.trans htarget
      exact Option.some.inj (hdata.symm.trans htree)

/-- **The file does not arrive.** Whatever the receiver writes for it is not what the sender had: the
ciphertext, or nothing. -/
theorem written_ne_plaintext
    (hdigest : ∀ f ∈ t.receiver.report blake3 aead t.offeredEnv, f.path = t.path →
      digestOfBytes f.contentHash ≠ zeroDigest) :
    t.written ≠ some t.plaintext := by
  intro hwritten
  obtain ⟨wire, hwire, hplain⟩ := Option.bind_eq_some_iff.mp hwritten
  rw [t.no_peer, Option.none_or] at hwire
  rw [t.eq_wireBytes_of_downloadFile hwire] at hplain
  unfold materializeDownloadedBytes at hplain
  rcases t.entry_cases with hnonce | ⟨f, hf, hpath, hhash, hother⟩
  · rw [hnonce] at hplain
    exact wireBytes_ne_plaintext t.sealed (eq_of_fromWireBytes_nil blake3 hplain).symm
  · rw [hhash, digestOfBytes_toList,
      fromWireBytes_of_ne blake3 (hdigest f hf hpath) (Ne.symm hother)] at hplain
    cases hplain

end Handover

end

/-! ## A one-byte file -/

def sampleKey : VaultKey :=
  ⟨[0, 1, 2, 3, 4, 5, 6, 7, 8, 9, 10, 11, 12, 13, 14, 15, 16, 17, 18, 19, 20, 21, 22, 23, 24, 25, 26,
    27, 28, 29, 30, 31], rfl⟩

def sampleNonce : Nonce :=
  ⟨[0, 1, 2, 3, 4, 5, 6, 7, 8, 9, 10, 11, 12, 13, 14, 15, 16, 17, 18, 19, 20, 21, 22, 23], rfl⟩

/-- `a`, encrypted under the sample key and nonce by XChaCha20-Poly1305. -/
def sealedFile : Bytes :=
  [255, 115, 255, 42, 255, 194, 23, 151, 39, 179, 174, 136, 133, 187, 245, 166, 228]

/-- The cipher at the sample input; elsewhere, a tag of zeros stands for it. -/
def sampleAead : Aead where
  encrypt key nonce plaintext :=
    if key = sampleKey ∧ nonce = sampleNonce ∧ plaintext = [97] then some sealedFile
    else some (plaintext ++ List.replicate 16 0)
  decrypt key nonce ciphertext :=
    if key = sampleKey ∧ nonce = sampleNonce ∧ ciphertext = sealedFile then some [97]
    else if ciphertext.drop (ciphertext.length - 16) = List.replicate 16 0 then
      some (ciphertext.take (ciphertext.length - 16))
    else none
  decrypt_encrypt := by
    intro key nonce plaintext ciphertext h
    split_ifs at h with hsample
    · cases h
      rw [if_pos ⟨hsample.1, hsample.2.1, rfl⟩, hsample.2.2]
    · cases h
      have htag : plaintext ++ List.replicate 16 0 ≠ sealedFile := by
        intro heq
        have hlast := congrArg List.getLast? heq
        simp [sealedFile] at hlast
      rw [if_neg fun hboth => htag hboth.2.2]
      simp
  length_encrypt := by
    intro key nonce plaintext ciphertext h
    split_ifs at h with hsample
    · cases h
      rw [hsample.2.2]
      rfl
    · cases h
      simp

/-- The digest of the encrypted file, and those of the small mesh. -/
def vaultBlake3 (bytes : Bytes) : Digest :=
  if bytes = sealedFile then
    ⟨[136, 226, 109, 22, 50, 238, 255, 237, 73, 31, 168, 60, 248, 192, 243, 61, 22, 119, 154, 252, 65,
      93, 219, 193, 234, 123, 58, 55, 57, 29, 197, 96], rfl⟩
  else sampleBlake3 bytes

/-- A client of the vault with the given files. -/
def vaultClient (nodeId : NodeId) (disk : PathMap Bytes) : VaultClient where
  cfg := { sampleShare with nodeId := nodeId }
  key := sampleKey
  disk := disk
  rows := []
  wireCache := ∅

/-- A scan that reads the file. -/
def sampleScan : ScanEnv := ⟨fun _ => ⟨none, 1⟩, fun _ => some [97], fun _ => sampleNonce⟩

/-- The server after the upload of the encrypted file. -/
def afterUpload : SyncServer :=
  commitUpload vaultBlake3 emptyWorld.server ["f"] sealedFile
    (uploadCall vaultBlake3 { sampleShare with nodeId := "a1" } ["f"] sealedFile allOk)

/-- The file goes from `a1` to `b2`, which has none of its own. -/
def sampleHandover : Handover vaultBlake3 sampleAead where
  sender := vaultClient "a1" ((∅ : PathMap Bytes).insert ["f"] [97])
  receiver := vaultClient "b2" ∅
  same_key := rfl
  path := ["f"]
  plaintext := [97]
  nonce := sampleNonce
  payload := ⟨sealedFile, vaultBlake3 sealedFile, sampleNonce.toList⟩
  asked := emptyWorld.server
  askedEnv := sampleScan
  askedAt := 100
  asked_for := by decide +kernel
  before := emptyWorld.server
  after := afterUpload
  sending := allOk
  sealed := by rfl
  committed := by
    have hstream : (uploadCall vaultBlake3 { sampleShare with nodeId := "a1" } ["f"] sealedFile
        allOk).stream = uploadStream vaultBlake3 ["f"] sealedFile := rfl
    exact (deltaUpload_uploadStream vaultBlake3 hstream _).trans rfl
  recorded := by decide +kernel
  offered := afterUpload
  offeredEnv := sampleScan
  offeredAt := 200
  row_kept := rfl
  entry := fileMetaToProto
    { uploadedMeta "server" ["f"] (vaultBlake3 sealedFile) 17 1 with
      nodeId := "", versionId := some 1, parentVersionId := some 0 }
  listed := by decide +kernel
  entry_path := rfl
  served := afterUpload
  fetching := allOk
  bytes_kept := rfl
  no_peer := by rfl

/-- The theorem at work. -/
theorem written_ne_plaintext_sampleHandover : sampleHandover.written ≠ some [97] := by
  apply sampleHandover.written_ne_plaintext
  intro f hf
  have hempty : sampleHandover.receiver.report vaultBlake3 sampleAead sampleHandover.offeredEnv = [] := by
    decide +kernel
  rw [hempty] at hf
  exact absurd hf List.not_mem_nil

/-- **The ciphertext arrives.** The second client writes the 17 encrypted bytes as the file. -/
theorem ciphertext_arrives :
    sampleHandover.written = some sealedFile ∧
      ¬ ∀ t : Handover vaultBlake3 sampleAead, t.written = some t.plaintext := by
  have hwritten : sampleHandover.written = some sealedFile := by decide +kernel
  refine ⟨hwritten, ?_⟩
  intro h
  have harrives := h sampleHandover
  rw [hwritten] at harrives
  exact absurd harrives (by decide)

end DiskArcana.System
