import DiskArcana.Client.LanFetch
import DiskArcana.Client.SyncLoop
import DiskArcana.Client.WireIndex
import DiskArcana.System.EncryptedTransfer

/-!
# The downloads of a cycle

The download phase and the verdict of `RemoteSync::execute`. An entry leaves the phase at one of six
places: no peer has it and the server refuses it, its bytes have the wrong hash, they cannot be
decrypted, they cannot be written, or they are written. Two counters go up at some of these places, and
the cycle fails when they are equal and not zero.

An entry whose bytes arrive and are then thrown away counts neither as failed nor as attempted. So a
cycle that wrote nothing is reported only if one of its entries did not arrive
(`RemoteSync.reports_iff`).

Uploads, conflicts and deletions touch neither the counters nor the session token.
-/

namespace DiskArcana.System

open DiskArcana.Core DiskArcana.Lib DiskArcana.Server DiskArcana.Client

/-! ## The client's side -/

/-- The gRPC status codes.
Source: `tonic` crate, `Code` -/
inductive Code where
  | ok | cancelled | unknown | invalidArgument | deadlineExceeded | notFound | alreadyExists
  | permissionDenied | resourceExhausted | failedPrecondition | aborted | outOfRange | unimplemented
  | internal | unavailable | dataLoss | unauthenticated
  deriving DecidableEq

/-- Source: `connection.rs`, `ClientError` -/
inductive ClientError where
  | transport (message : String)
  | status (code : Code) (message : String)
  | notAuthenticated
  | metadataError (message : String)
  deriving DecidableEq

/-- Source: `connection.rs`, `is_session_rejected` -/
def isSessionRejected : ClientError → Bool
  | .status code _ => decide (code = .unauthenticated)
  | _ => false

/-- A client of one share.
Source: `sync_loop/wire.rs`, `RemoteSync` -/
structure RemoteSync where
  share : String
  /-- Empty in the mode that only probes the access list. -/
  scanRoot : Path
  nodeId : NodeId
  hasBlobCache : Bool
  hasMetaDb : Bool
  e2eeKey : Option VaultKey
  /-- The context of the local network, without the registry, which others change. -/
  lanFetch : Option (Option String × NodeId)

/-- What an entry meets: the peers and their answers, the answer of the server, and whether the file
system, the blob cache and the client's store let a write through. -/
structure DownloadEnv where
  registry : LanPeerRegistry
  now : ℤ
  clientBuilt : Bool
  reply : LanRequest → LanReply
  /-- What `download_file` gives. -/
  server : Except ClientError Bytes
  write : WriteAnswer
  cacheOk : Bool
  dbOk : Bool
  mtimeNs : ℤ

/-- The phase: its counters, the session token, and what it has written. -/
structure DownloadState where
  downloadsAttempted : ℕ
  downloadsFailed : ℕ
  sessionRejected : Bool
  sessionToken : Option String
  lanRequests : List LanRequest
  disk : PathMap Bytes
  blobCache : Table Digest Bytes
  index : WireIndex
  downloadedBaselines : List FileMeta

/-- The state in which a cycle comes to its downloads. -/
def DownloadState.start (token : Option String) (disk : PathMap Bytes) (blobCache : Table Digest Bytes)
    (index : WireIndex) : DownloadState where
  downloadsAttempted := 0
  downloadsFailed := 0
  sessionRejected := false
  sessionToken := token
  lanRequests := []
  disk := disk
  blobCache := blobCache
  index := index
  downloadedBaselines := []

/-- The hash of an entry, if it is one: 32 bytes. -/
def expectedHash (entry : FileMetadata) : Option Digest :=
  if h : entry.contentHash.length = 32 then some ⟨entry.contentHash, h⟩ else none

namespace RemoteSync

section

variable (blake3 : Bytes → Digest) (aead : Aead) (sync : RemoteSync)

/-- What the peers serve, and the requests they get. -/
def lanBytes (entry : FileMetadata) (env : DownloadEnv) : Option Bytes × List LanRequest :=
  match sync.lanFetch with
  | some (tenantId, nodeId) =>
    LanFetchContext.tryLanFetch blake3 ⟨env.registry, tenantId, nodeId⟩ env.now env.clientBuilt
      env.reply sync.share entry.path (expectedHash entry)
  | none => (none, [])

/-- The bytes of an entry: a peer's, else the server's. -/
def fetch (entry : FileMetadata) (env : DownloadEnv) : Except ClientError Bytes :=
  match (sync.lanBytes blake3 entry env).1 with
  | some bytes => .ok bytes
  | none => env.server

/-- The plaintext of bytes that have arrived. -/
def materialize (entry : FileMetadata) (wire : Bytes) : Option Bytes :=
  materializeDownloadedBytes blake3 (decryptWire aead sync.e2eeKey) wire entry

/-- The key of a plaintext in the blob cache, and the hash of its baseline. -/
def cacheKey (entry : FileMetadata) (plaintext : Bytes) : Digest :=
  if entry.encryptionNonce.isEmpty then blake3 plaintext
  else (expectedHash entry).getD zeroDigest

/-- The baseline of an entry that has been written. -/
def baseline (entry : FileMetadata) (plaintext : Bytes) : FileMeta :=
  let m := { protoToFileMeta entry with
    contentHash := cacheKey blake3 entry plaintext
    size := plaintext.length }
  if entry.encryptionNonce.isEmpty then m else { m with encryptionNonce := some entry.encryptionNonce }

/-- The effects of an entry that is written. -/
def written (st : DownloadState) (entry : FileMetadata) (env : DownloadEnv) (plaintext : Bytes) :
    DownloadState :=
  let key := cacheKey blake3 entry plaintext
  { st with
    downloadsAttempted := st.downloadsAttempted + 1
    disk := st.disk.insert entry.path plaintext
    blobCache :=
      if sync.hasBlobCache && env.cacheOk then putBlob st.blobCache key plaintext else st.blobCache
    index :=
      if entry.encryptionNonce.isEmpty then st.index
      else st.index.persistE2eeWireMeta sync.nodeId sync.share sync.hasMetaDb env.dbOk entry.path key
        entry.encryptionNonce env.mtimeNs plaintext.length
    downloadedBaselines := st.downloadedBaselines ++ [baseline blake3 entry plaintext] }

/-- One entry of `to_download`.
Source: `sync_loop/wire.rs`, `execute` (download phase) -/
def download (st : DownloadState) (x : FileMetadata × DownloadEnv) : DownloadState :=
  let (entry, env) := x
  let st := { st with lanRequests := st.lanRequests ++ (sync.lanBytes blake3 entry env).2 }
  match sync.fetch blake3 entry env with
  | .error e =>
    { st with
      downloadsAttempted := st.downloadsAttempted + 1
      downloadsFailed := st.downloadsFailed + 1
      sessionRejected := st.sessionRejected || isSessionRejected e }
  | .ok wire =>
    match sync.materialize blake3 aead entry wire with
    | none => st
    | some plaintext =>
      if env.write.isDone then sync.written blake3 st entry env plaintext
      else { st with disk := env.write.writeTo st.disk entry.path plaintext }

/-- The entries one after the other; without a root none is looked at. -/
def downloads (st : DownloadState) (entries : List (FileMetadata × DownloadEnv)) : DownloadState :=
  if sync.scanRoot.isEmpty then st else entries.foldl (sync.download blake3 aead) st

/-- Source: `sync_loop/wire.rs`, `execute` (verdict) -/
def verdict (st : DownloadState) : DownloadState × Except LoopError Unit :=
  let st := if st.sessionRejected then { st with sessionToken := none } else st
  if 0 < st.downloadsFailed ∧ st.downloadsFailed = st.downloadsAttempted then
    (st, .error (.allTransfersFailed st.downloadsAttempted st.downloadsFailed))
  else (st, .ok ())

/-- From the answer of the exchange to the end of the cycle.
Source: `sync_loop/wire.rs`, `execute` -/
def execute (st : DownloadState) (entries : List (FileMetadata × DownloadEnv)) :
    DownloadState × Except LoopError Unit :=
  verdict (sync.downloads blake3 aead st entries)

/-! ## Where an entry leaves the phase -/

/-- How an entry ends. -/
inductive Landing where
  | failed (error : ClientError)
  | refused
  | unwritten (plaintext : Bytes)
  | written (plaintext : Bytes)

def Landing.isFailed : Landing → Bool
  | .failed _ => true
  | _ => false

def Landing.isRejected : Landing → Bool
  | .failed error => isSessionRejected error
  | _ => false

def Landing.isWritten : Landing → Bool
  | .written _ => true
  | _ => false

/-- How an entry ends when it is looked at: its bytes do not arrive, they are not those announced or
cannot be decrypted, they cannot be written, or they are written. -/
def landing (x : FileMetadata × DownloadEnv) : Landing :=
  match sync.fetch blake3 x.1 x.2 with
  | .error e => .failed e
  | .ok wire =>
    match sync.materialize blake3 aead x.1 wire with
    | none => .refused
    | some plaintext => if x.2.write.isDone then .written plaintext else .unwritten plaintext

/-- What an entry leaves at its path, if its bytes are accepted and the file can be opened. -/
def leaves (x : FileMetadata × DownloadEnv) : Option Bytes :=
  match sync.landing blake3 aead x with
  | .unwritten plaintext | .written plaintext => x.2.write.left plaintext
  | _ => none

variable {blake3 aead sync}

/-- The entry is written to disk. -/
def Written (blake3 : Bytes → Digest) (aead : Aead) (sync : RemoteSync)
    (x : FileMetadata × DownloadEnv) : Prop :=
  sync.scanRoot.isEmpty = false ∧ (sync.landing blake3 aead x).isWritten = true

/-- The entry fails because the server rejects the session. -/
def Rejected (blake3 : Bytes → Digest) (aead : Aead) (sync : RemoteSync)
    (x : FileMetadata × DownloadEnv) : Prop :=
  sync.scanRoot.isEmpty = false ∧ (sync.landing blake3 aead x).isRejected = true

/-- What an entry does to the phase. -/
theorem download_eq (st : DownloadState) (x : FileMetadata × DownloadEnv) :
    sync.download blake3 aead st x =
      let st := { st with lanRequests := st.lanRequests ++ (sync.lanBytes blake3 x.1 x.2).2 }
      match sync.landing blake3 aead x with
      | .failed e =>
        { st with
          downloadsAttempted := st.downloadsAttempted + 1
          downloadsFailed := st.downloadsFailed + 1
          sessionRejected := st.sessionRejected || isSessionRejected e }
      | .refused => st
      | .unwritten plaintext => { st with disk := x.2.write.writeTo st.disk x.1.path plaintext }
      | .written plaintext => sync.written blake3 st x.1 x.2 plaintext := by
  unfold download landing
  rcases hfetch : sync.fetch blake3 x.1 x.2 with e | wire
  · simp only [hfetch]
  · rcases hplain : sync.materialize blake3 aead x.1 wire with _ | plaintext
    · simp only [hfetch, hplain]
    · by_cases hok : x.2.write.isDone = true
      · simp only [hfetch, hplain, if_pos hok]
      · simp only [hfetch, hplain, if_neg hok]

variable (blake3 aead sync) in
theorem download_counters (st : DownloadState) (x : FileMetadata × DownloadEnv) :
    (sync.download blake3 aead st x).downloadsFailed =
        st.downloadsFailed + (sync.landing blake3 aead x).isFailed.toNat ∧
      (sync.download blake3 aead st x).downloadsAttempted =
        st.downloadsAttempted + (sync.landing blake3 aead x).isFailed.toNat +
          (sync.landing blake3 aead x).isWritten.toNat ∧
      (sync.download blake3 aead st x).sessionRejected =
        (st.sessionRejected || (sync.landing blake3 aead x).isRejected) := by
  rw [download_eq]
  cases sync.landing blake3 aead x <;>
    simp [written, Landing.isFailed, Landing.isWritten, Landing.isRejected]

/-- An entry that is written leaves its plaintext. -/
theorem leaves_of_written {x : FileMetadata × DownloadEnv} {plaintext : Bytes}
    (h : sync.landing blake3 aead x = .written plaintext) :
    sync.leaves blake3 aead x = some plaintext := by
  have hdone : x.2.write.isDone = true := by
    unfold landing at h
    split at h
    · cases h
    · split at h
      · cases h
      · split_ifs at h with hdone
        exact hdone
  unfold leaves
  rw [h]
  rcases hwrite : x.2.write with _ | n | _
  · rw [hwrite] at hdone
    cases hdone
  · rw [hwrite] at hdone
    cases hdone
  · rfl

/-- The file at a path after an entry: what the entry leaves, if it is of this path. -/
theorem download_disk (st : DownloadState) (x : FileMetadata × DownloadEnv) (path : Path) :
    (sync.download blake3 aead st x).disk.lookup path =
      (if x.1.path = path then sync.leaves blake3 aead x else none).or (st.disk.lookup path) := by
  rw [download_eq]
  rcases hlanding : sync.landing blake3 aead x with error | _ | plaintext | plaintext
  · simp [leaves, hlanding]
  · simp [leaves, hlanding]
  · simpa only [leaves, hlanding] using x.2.write.lookup_writeTo st.disk x.1.path path plaintext
  · show (st.disk.insert x.1.path plaintext).lookup path = _
    rw [Table.lookup_insert_eq_ite, leaves_of_written hlanding]
    by_cases h : x.1.path = path
    · simp [h]
    · simp [h, Ne.symm h]

/-- The file at a path after the entries: what the last entry of this path leaves that leaves
anything. -/
theorem foldl_download_disk (st : DownloadState) (entries : List (FileMetadata × DownloadEnv))
    (path : Path) :
    (entries.foldl (sync.download blake3 aead) st).disk.lookup path =
      (entries.reverse.findSome? fun x =>
        if x.1.path = path then sync.leaves blake3 aead x else none).or (st.disk.lookup path) := by
  induction entries generalizing st with
  | nil => rfl
  | cons x entries ih =>
      rw [List.foldl_cons, ih, download_disk, List.reverse_cons, List.findSome?_append,
        List.findSome?_singleton, Option.or_assoc]

variable (blake3 aead sync) in
/-- The counters after the entries. -/
theorem foldl_download_counters (st : DownloadState) (entries : List (FileMetadata × DownloadEnv)) :
    (entries.foldl (sync.download blake3 aead) st).downloadsFailed =
        st.downloadsFailed + entries.countP (fun x => (sync.landing blake3 aead x).isFailed) ∧
      (entries.foldl (sync.download blake3 aead) st).downloadsAttempted =
        st.downloadsAttempted + entries.countP (fun x => (sync.landing blake3 aead x).isFailed) +
          entries.countP (fun x => (sync.landing blake3 aead x).isWritten) ∧
      (entries.foldl (sync.download blake3 aead) st).sessionRejected =
        (st.sessionRejected || entries.any fun x => (sync.landing blake3 aead x).isRejected) := by
  induction entries generalizing st with
  | nil => simp
  | cons x entries ih =>
      obtain ⟨hfailed, hattempted, hrejected⟩ := download_counters blake3 aead sync st x
      obtain ⟨ihfailed, ihattempted, ihrejected⟩ := ih (sync.download blake3 aead st x)
      rw [List.foldl_cons, ihfailed, ihattempted, ihrejected, hfailed, hattempted, hrejected]
      simp only [List.countP_cons, List.any_cons, Bool.or_assoc, and_true]
      rcases (sync.landing blake3 aead x).isFailed with _ | _
      · rcases (sync.landing blake3 aead x).isWritten with _ | _
        · simp
        · simp
          omega
      · rcases (sync.landing blake3 aead x).isWritten with _ | _
        · simp
          omega
        · simp
          omega

/-! ## The verdict -/

/-- The cycle is reported as it went: it fails if no entry was written, succeeds if one was, and forgets
the token if the server rejected the session. -/
structure Reports (blake3 : Bytes → Digest) (aead : Aead) (sync : RemoteSync)
    (entries : List (FileMetadata × DownloadEnv))
    (result : DownloadState × Except LoopError Unit) : Prop where
  fails : (∀ x ∈ entries, ¬ Written blake3 aead sync x) → ∃ e, result.2 = .error e
  succeeds : (∃ x ∈ entries, Written blake3 aead sync x) → result.2 = .ok ()
  forgets : (∃ x ∈ entries, Rejected blake3 aead sync x) → result.1.sessionToken = none

/-- The verdict is about the counters. -/
theorem verdict_eq (st : DownloadState) :
    (verdict st).2 = (if 0 < st.downloadsFailed ∧ st.downloadsFailed = st.downloadsAttempted then
        .error (.allTransfersFailed st.downloadsAttempted st.downloadsFailed) else .ok ()) ∧
      (st.sessionRejected = true → (verdict st).1.sessionToken = none) := by
  unfold verdict
  by_cases hrejected : st.sessionRejected = true
  · simp only [if_pos hrejected]
    split_ifs
    · exact ⟨rfl, fun _ => rfl⟩
    · exact ⟨rfl, fun _ => rfl⟩
  · simp only [if_neg hrejected]
    split_ifs
    · exact ⟨rfl, fun h => absurd h hrejected⟩
    · exact ⟨rfl, fun h => absurd h hrejected⟩

/-- The verdict changes nothing but the token. -/
theorem verdict_fst (st : DownloadState) :
    (verdict st).1 = if st.sessionRejected then { st with sessionToken := none } else st := by
  unfold verdict
  by_cases hrejected : st.sessionRejected = true
  · simp only [if_pos hrejected]
    split_ifs <;> rfl
  · simp only [if_neg hrejected]
    split_ifs <;> rfl

theorem verdict_disk (st : DownloadState) : (verdict st).1.disk = st.disk := by
  rw [verdict_fst]
  split_ifs <;> rfl

theorem verdict_lanRequests (st : DownloadState) :
    (verdict st).1.lanRequests = st.lanRequests := by
  rw [verdict_fst]
  split_ifs <;> rfl

section

variable {token : Option String} {disk : PathMap Bytes} {blobCache : Table Digest Bytes}
  {index : WireIndex} {entries : List (FileMetadata × DownloadEnv)}

variable (blake3 aead token disk blobCache index entries) in
/-- With a root, the cycle fails when some entry did not arrive and none was written. -/
theorem execute_eq (hroot : sync.scanRoot.isEmpty = false) :
    let failed := entries.countP fun x => (sync.landing blake3 aead x).isFailed
    let written := entries.countP fun x => (sync.landing blake3 aead x).isWritten
    (sync.execute blake3 aead (.start token disk blobCache index) entries).2 =
        (if 0 < failed ∧ written = 0 then .error (.allTransfersFailed failed failed) else .ok ()) ∧
      ((∃ x ∈ entries, (sync.landing blake3 aead x).isRejected = true) →
        (sync.execute blake3 aead (.start token disk blobCache index) entries).1.sessionToken = none) := by
  intro failed written
  obtain ⟨hfailed, hattempted, hrejected⟩ := foldl_download_counters blake3 aead sync
    (.start token disk blobCache index) entries
  obtain ⟨hverdict, htoken⟩ := verdict_eq
    (sync.downloads blake3 aead (.start token disk blobCache index) entries)
  unfold downloads at hverdict htoken
  rw [hroot, if_neg Bool.false_ne_true] at hverdict htoken
  unfold execute downloads
  rw [hroot, if_neg Bool.false_ne_true]
  constructor
  · rw [hverdict, hfailed, hattempted]
    have hstart : (DownloadState.start token disk blobCache index).downloadsFailed = 0 ∧
      (DownloadState.start token disk blobCache index).downloadsAttempted = 0 := ⟨rfl, rfl⟩
    rw [hstart.1, hstart.2, Nat.zero_add]
    show (if 0 < failed ∧ failed = failed + written then
      Except.error (LoopError.allTransfersFailed (failed + written) failed) else .ok ()) = _
    by_cases hwritten : written = 0
    · rw [hwritten, Nat.add_zero]
      simp only [and_true]
    · rw [if_neg fun h => hwritten (by omega), if_neg fun h => hwritten h.2]
  · rintro ⟨x, hx, hreject⟩
    apply htoken
    rw [hrejected, List.any_eq_true.mpr ⟨x, hx, hreject⟩, Bool.or_true]

variable (blake3 aead sync token disk blobCache index entries) in
/-- **When a cycle is reported as it went**: when it has a root, and some entry was written or some
entry's bytes did not arrive. -/
theorem reports_iff :
    Reports blake3 aead sync entries
        (sync.execute blake3 aead (.start token disk blobCache index) entries) ↔
      sync.scanRoot.isEmpty = false ∧ ∃ x ∈ entries,
        (sync.landing blake3 aead x).isFailed = true ∨
          (sync.landing blake3 aead x).isWritten = true := by
  rcases hroot : sync.scanRoot.isEmpty with _ | _
  · obtain ⟨hresult, htoken⟩ := execute_eq blake3 aead token disk blobCache index entries hroot
    have hwritten : (∃ x ∈ entries, Written blake3 aead sync x) ↔
        0 < entries.countP fun x => (sync.landing blake3 aead x).isWritten := by
      rw [List.countP_pos_iff]
      simp only [Written, hroot, true_and]
    constructor
    · intro h
      refine ⟨rfl, ?_⟩
      by_contra hnone
      simp only [not_exists, not_and, not_or] at hnone
      obtain ⟨e, he⟩ := h.fails fun x hx hx' => (hnone x hx).2 hx'.2
      rw [he, if_neg] at hresult
      · cases hresult
      · rintro ⟨hfailed, -⟩
        obtain ⟨x, hx, hx'⟩ := List.countP_pos_iff.mp hfailed
        exact (hnone x hx).1 hx'
    · rintro ⟨-, x, hx, hx'⟩
      refine ⟨fun hnone => ?_, fun hsome => ?_, fun ⟨y, hy, hreject⟩ => htoken ⟨y, hy, hreject.2⟩⟩
      · have hzero : (entries.countP fun x => (sync.landing blake3 aead x).isWritten) = 0 := by
          by_contra hpos
          obtain ⟨y, hy, hy'⟩ := hwritten.mpr (Nat.pos_of_ne_zero hpos)
          exact hnone y hy hy'
        have hfailed : 0 < entries.countP fun x => (sync.landing blake3 aead x).isFailed := by
          rw [List.countP_pos_iff]
          refine ⟨x, hx, hx'.resolve_right fun h => ?_⟩
          exact hnone x hx ⟨hroot, h⟩
        rw [hresult, if_pos ⟨hfailed, hzero⟩]
        exact ⟨_, rfl⟩
      · rw [hresult, if_neg fun h => ?_]
        have hpos := hwritten.mp hsome
        omega
  · constructor
    · intro h
      obtain ⟨e, he⟩ := h.fails fun x _ hx => Bool.noConfusion (hroot.symm.trans hx.1)
      unfold execute downloads at he
      rw [hroot, if_pos rfl] at he
      cases he
    · rintro ⟨h, -⟩
      cases h

end

end

/-! ## A run -/

/-- A client of one share, without a vault key and without peers. -/
def sampleSync : RemoteSync where
  share := "vault"
  scanRoot := ["srv"]
  nodeId := "n"
  hasBlobCache := false
  hasMetaDb := false
  e2eeKey := none
  lanFetch := none

/-- An entry that the server announces as `a` and serves as `b`. -/
def sampleWrongHash : FileMetadata × DownloadEnv :=
  ({ path := ["f"], contentHash := (sampleBlake3 [97]).toList, size := 1 },
    { registry := ⟨false, ∅⟩
      now := 0
      clientBuilt := true
      reply := fun _ => .transport ""
      server := .ok [98]
      write := .done
      cacheOk := true
      dbOk := true
      mtimeNs := 1 })

/-- The cycle writes nothing and succeeds. -/
theorem not_reports_of_wrong_hash :
    ¬ Reports sampleBlake3 sampleAead sampleSync [sampleWrongHash]
      (sampleSync.execute sampleBlake3 sampleAead (.start (some "t") ∅ ∅ ⟨∅, ∅⟩)
        [sampleWrongHash]) := by
  intro h
  obtain ⟨e, he⟩ := h.fails fun x hx hwritten => by
    cases List.mem_singleton.mp hx
    exact absurd hwritten.2 (by decide)
  exact nomatch he

end RemoteSync

end DiskArcana.System
