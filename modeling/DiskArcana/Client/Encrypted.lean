import DiskArcana.Client.Upload

/-!
# Client-side encryption

The payloads of `disk-core/src/e2ee` and the overlay of `sync_loop/wire.rs`: an upload is encrypted
under a fresh nonce and announced with the hash of its ciphertext; the snapshot of a client with a
vault key reports, in place of the scanned hash, the hash and the nonce of the ciphertext that the
client knows for the file, or those of a fresh encryption; a download is decrypted when its entry
carries a nonce.

`Aead` is XChaCha20-Poly1305 of the `chacha20poly1305` crate.
-/

namespace DiskArcana.Client

open DiskArcana.Core DiskArcana.Lib DiskArcana.Server

/-- Source: `e2ee/mod.rs`, `VaultKey` -/
abbrev VaultKey := List.Vector UInt8 32

/-- Source: `e2ee/mod.rs`, `NONCE_LEN` -/
abbrev Nonce := List.Vector UInt8 24

/-- The authenticated cipher: encryption may fail, decryption inverts it under the same key and nonce,
and the ciphertext carries a tag of 16 bytes.
Source: `e2ee/mod.rs`, `encrypt` and `decrypt` -/
structure Aead where
  encrypt : VaultKey → Nonce → Bytes → Option Bytes
  decrypt : VaultKey → Nonce → Bytes → Option Bytes
  decrypt_encrypt : ∀ {key nonce plaintext ciphertext},
    encrypt key nonce plaintext = some ciphertext → decrypt key nonce ciphertext = some plaintext
  length_encrypt : ∀ {key nonce plaintext ciphertext},
    encrypt key nonce plaintext = some ciphertext → ciphertext.length = plaintext.length + 16

section

variable (blake3 : Bytes → Digest) (aead : Aead)

/-! ## Payloads -/

/-- Source: `e2ee/upload.rs`, `UploadPayload` -/
structure UploadPayload where
  wireBytes : Bytes
  contentHash : Digest
  encryptionNonce : Bytes

/-- Source: `e2ee/upload.rs`, `from_plaintext_encrypted` -/
def fromPlaintextEncrypted (plaintext : Bytes) (key : VaultKey) (nonce : Nonce) :
    Option UploadPayload :=
  (aead.encrypt key nonce plaintext).map fun ciphertext =>
    ⟨ciphertext, blake3 ciphertext, nonce.toList⟩

/-- The decryption of a download: without a key, or with a nonce of another length, there is none.
Source: `e2ee/download.rs`, `DownloadPayload::from_wire_bytes` -/
def decryptWire (key : Option VaultKey) (nonce wire : Bytes) : Option Bytes :=
  key.bind fun key => if h : nonce.length = 24 then aead.decrypt key ⟨nonce, h⟩ wire else none

/-! ## The overlay of a snapshot -/

/-- The ciphertext that a client knows for a file.
Source: `e2ee/exchange_overlay.rs`, `E2eeCachedWire` -/
structure E2eeCachedWire where
  contentHash : Digest
  encryptionNonce : Bytes
  mtimeNs : ℤ
  size : ℕ

/-- Source: `e2ee/exchange_overlay.rs`, `from_file_meta` -/
def E2eeCachedWire.fromFileMeta (m : FileMeta) : Option E2eeCachedWire :=
  (m.encryptionNonce.filter fun nonce => !nonce.isEmpty).map fun nonce =>
    ⟨m.contentHash, nonce, m.mtimeNs, m.size⟩

/-- Source: `e2ee/exchange_overlay.rs`, `matches_scan` -/
def E2eeCachedWire.matchesScan (c : E2eeCachedWire) (scanned : FileMeta) : Bool :=
  decide (c.mtimeNs = scanned.mtimeNs) && decide (c.size = scanned.size)

/-- The entry with the hash and the nonce of a ciphertext. -/
def withWire (scanned : FileMeta) (hash : Digest) (nonce : Bytes) : FileMeta :=
  { scanned with contentHash := hash, encryptionNonce := some nonce }

/-- Source: `e2ee/exchange_overlay.rs`, `overlay_scanned_meta` -/
def overlayScannedMeta (scanned : FileMeta) (key : VaultKey) (cached : Option E2eeCachedWire)
    (plaintext : Bytes) (nonce : Nonce) : Option (FileMeta × Option E2eeCachedWire) :=
  match cached.filter fun c => c.matchesScan scanned with
  | some c => some (withWire scanned c.contentHash c.encryptionNonce, none)
  | none =>
    (fromPlaintextEncrypted blake3 aead plaintext key nonce).map fun payload =>
      (withWire scanned payload.contentHash payload.encryptionNonce,
        some ⟨payload.contentHash, payload.encryptionNonce, scanned.mtimeNs, scanned.size⟩)

/-- Source: `sync_loop/wire.rs`, `vault_relative_path_key` -/
def vaultRelativePathKey (path : Path) : String :=
  String.ofList ((pathString path).toList.map fun c => if c = '\\' then '/' else c)

/-- Rewrite one scanned entry: the ciphertext that the client knows if the file has not changed, else
a fresh one of the file as it is read now. -/
def overlayEntry (key : VaultKey) (dbIndex : Table String FileMeta) (read : Path → Option Bytes)
    (nonce : Path → Nonce) (wireCache : Table String E2eeCachedWire) (scanned : FileMeta) :
    Option (FileMeta × Option E2eeCachedWire) :=
  let pathKey := vaultRelativePathKey scanned.path
  let cached := ((dbIndex.lookup pathKey).bind E2eeCachedWire.fromFileMeta).or
    (wireCache.lookup pathKey)
  if cached.any fun c => c.matchesScan scanned then
    overlayScannedMeta blake3 aead scanned key cached [] (nonce scanned.path)
  else (read scanned.path).bind fun plaintext =>
    overlayScannedMeta blake3 aead scanned key cached plaintext (nonce scanned.path)

/-- Rewrite the scanned entries one after the other; an entry that cannot be read or encrypted is
dropped.
Source: `sync_loop/wire.rs`, `overlay_e2ee_exchange_files` -/
def overlayE2eeExchangeFiles (key : VaultKey) (dbIndex : Table String FileMeta)
    (read : Path → Option Bytes) (nonce : Path → Nonce) :
    Table String E2eeCachedWire → List FileMeta → List FileMeta × Table String E2eeCachedWire
  | wireCache, [] => ([], wireCache)
  | wireCache, scanned :: metas =>
    match overlayEntry blake3 aead key dbIndex read nonce wireCache scanned with
    | some (m, none) =>
      let rest := overlayE2eeExchangeFiles key dbIndex read nonce wireCache metas
      (m :: rest.1, rest.2)
    | some (m, some fresh) =>
      let rest := overlayE2eeExchangeFiles key dbIndex read nonce
        (wireCache.insert (vaultRelativePathKey scanned.path) fresh) metas
      (m :: rest.1, rest.2)
    | none => overlayE2eeExchangeFiles key dbIndex read nonce wireCache metas

/-- Source: `sync_loop/wire.rs`, `overlay_version_ids_from_db` -/
def overlayVersionIdsFromDb (metas : List FileMeta) (dbIndex : Table String FileMeta) :
    List FileMeta :=
  metas.map fun m =>
    match dbIndex.lookup (vaultRelativePathKey m.path) with
    | some row => { m with versionId := row.versionId, parentVersionId := row.parentVersionId }
    | none => m

/-! ## What the pieces say of each other -/

variable {blake3 aead}

/-- A ciphertext is not its plaintext. -/
theorem wireBytes_ne_plaintext {plaintext : Bytes} {key : VaultKey} {nonce : Nonce}
    {payload : UploadPayload}
    (h : fromPlaintextEncrypted blake3 aead plaintext key nonce = some payload) :
    payload.wireBytes ≠ plaintext := by
  obtain ⟨ciphertext, hseal, rfl⟩ := Option.map_eq_some_iff.mp h
  intro heq
  have hlength := aead.length_encrypt hseal
  have hsame : ciphertext.length = plaintext.length := congrArg List.length heq
  omega

/-- The overlay changes the hash and the nonce of an entry only. -/
theorem of_overlayScannedMeta {scanned m : FileMeta} {key : VaultKey}
    {cached fresh : Option E2eeCachedWire} {plaintext : Bytes} {nonce : Nonce}
    (h : overlayScannedMeta blake3 aead scanned key cached plaintext nonce = some (m, fresh)) :
    m.path = scanned.path ∧ m.deleted = scanned.deleted := by
  unfold overlayScannedMeta at h
  split at h
  · cases h
    exact ⟨rfl, rfl⟩
  · obtain ⟨payload, -, hm⟩ := Option.map_eq_some_iff.mp h
    cases hm
    exact ⟨rfl, rfl⟩

theorem of_overlayEntry {key : VaultKey} {dbIndex : Table String FileMeta}
    {read : Path → Option Bytes} {nonce : Path → Nonce} {wireCache : Table String E2eeCachedWire}
    {scanned m : FileMeta} {fresh : Option E2eeCachedWire}
    (h : overlayEntry blake3 aead key dbIndex read nonce wireCache scanned = some (m, fresh)) :
    m.path = scanned.path ∧ m.deleted = scanned.deleted := by
  unfold overlayEntry at h
  dsimp only at h
  split_ifs at h
  · exact of_overlayScannedMeta h
  · obtain ⟨plaintext, -, hplain⟩ := Option.bind_eq_some_iff.mp h
    exact of_overlayScannedMeta hplain

/-- An entry of the overlaid snapshot is what the overlay makes of a scanned one. -/
theorem exists_overlayEntry_of_mem {key : VaultKey} {dbIndex : Table String FileMeta}
    {read : Path → Option Bytes} {nonce : Path → Nonce} {wireCache : Table String E2eeCachedWire}
    {metas : List FileMeta} {m : FileMeta}
    (h : m ∈ (overlayE2eeExchangeFiles blake3 aead key dbIndex read nonce wireCache metas).1) :
    ∃ scanned ∈ metas, ∃ cache fresh,
      overlayEntry blake3 aead key dbIndex read nonce cache scanned = some (m, fresh) := by
  induction metas generalizing wireCache with
  | nil => exact absurd h List.not_mem_nil
  | cons scanned metas ih =>
      have htail : ∀ {cache}, m ∈ (overlayE2eeExchangeFiles blake3 aead key dbIndex read nonce cache
          metas).1 → ∃ s ∈ scanned :: metas, ∃ cache' fresh,
            overlayEntry blake3 aead key dbIndex read nonce cache' s = some (m, fresh) := by
        intro cache hm
        obtain ⟨s, hs, hover⟩ := ih hm
        exact ⟨s, List.mem_cons_of_mem _ hs, hover⟩
      unfold overlayE2eeExchangeFiles at h
      split at h
      · rename_i m' hover
        rcases List.mem_cons.mp h with rfl | hrest
        · exact ⟨scanned, List.mem_cons_self, _, _, hover⟩
        · exact htail hrest
      · rename_i m' fresh hover
        rcases List.mem_cons.mp h with rfl | hrest
        · exact ⟨scanned, List.mem_cons_self, _, _, hover⟩
        · exact htail hrest
      · exact htail h

/-- An entry of the overlaid snapshot stands for a scanned one. -/
theorem of_mem_overlayE2eeExchangeFiles {key : VaultKey} {dbIndex : Table String FileMeta}
    {read : Path → Option Bytes} {nonce : Path → Nonce} {wireCache : Table String E2eeCachedWire}
    {metas : List FileMeta} {m : FileMeta}
    (h : m ∈ (overlayE2eeExchangeFiles blake3 aead key dbIndex read nonce wireCache metas).1) :
    ∃ scanned ∈ metas, m.path = scanned.path ∧ m.deleted = scanned.deleted := by
  obtain ⟨scanned, hmem, cache, fresh, hover⟩ := exists_overlayEntry_of_mem h
  exact ⟨scanned, hmem, of_overlayEntry hover⟩

/-- What the overlay makes of an entry whatever its cache holds is in the overlaid snapshot. -/
theorem mem_overlayE2eeExchangeFiles {key : VaultKey} {dbIndex : Table String FileMeta}
    {read : Path → Option Bytes} {nonce : Path → Nonce} {metas : List FileMeta}
    {scanned m : FileMeta} (hscanned : scanned ∈ metas)
    (h : ∀ cache, overlayEntry blake3 aead key dbIndex read nonce cache scanned = some (m, none))
    (wireCache : Table String E2eeCachedWire) :
    m ∈ (overlayE2eeExchangeFiles blake3 aead key dbIndex read nonce wireCache metas).1 := by
  induction metas generalizing wireCache with
  | nil => exact absurd hscanned List.not_mem_nil
  | cons first metas ih =>
      unfold overlayE2eeExchangeFiles
      rcases List.mem_cons.mp hscanned with rfl | hrest
      · rw [h]
        exact List.mem_cons_self
      · split
        · exact List.mem_cons_of_mem _ (ih hrest _)
        · exact List.mem_cons_of_mem _ (ih hrest _)
        · exact ih hrest _

/-- The ciphertext that the store knows for an entry. -/
def storedWire (dbIndex : Table String FileMeta) (path : Path) : Option E2eeCachedWire :=
  (dbIndex.lookup (vaultRelativePathKey path)).bind E2eeCachedWire.fromFileMeta

/-- With a known ciphertext that fits, nothing is encrypted. -/
theorem overlayScannedMeta_of_match {scanned : FileMeta} {c : E2eeCachedWire}
    (h : c.matchesScan scanned = true) (key : VaultKey) (plaintext : Bytes) (nonce : Nonce) :
    overlayScannedMeta blake3 aead scanned key (some c) plaintext nonce =
      some (withWire scanned c.contentHash c.encryptionNonce, none) := by
  unfold overlayScannedMeta
  rw [Option.filter_some, if_pos h]

/-- The overlay of an entry under what is known of it. -/
theorem overlayEntry_eq {key : VaultKey} {dbIndex : Table String FileMeta}
    {read : Path → Option Bytes} {nonce : Path → Nonce} {wireCache : Table String E2eeCachedWire}
    {scanned : FileMeta} {cached : Option E2eeCachedWire}
    (h : (storedWire dbIndex scanned.path).or (wireCache.lookup (vaultRelativePathKey scanned.path)) =
      cached) :
    overlayEntry blake3 aead key dbIndex read nonce wireCache scanned =
      match cached.filter fun c => c.matchesScan scanned with
      | some c => some (withWire scanned c.contentHash c.encryptionNonce, none)
      | none => (read scanned.path).bind fun plaintext =>
          overlayScannedMeta blake3 aead scanned key none plaintext (nonce scanned.path) := by
  unfold storedWire at h
  unfold overlayEntry
  simp only [h]
  rcases cached with _ | c
  · rfl
  rcases hc : c.matchesScan scanned with _ | _
  · rw [Option.any_some, hc, if_neg Bool.false_ne_true, Option.filter_some, hc,
      if_neg Bool.false_ne_true]
    refine Option.bind_congr fun plaintext _ => ?_
    unfold overlayScannedMeta
    rw [Option.filter_some, hc, if_neg Bool.false_ne_true, Option.filter_none]
  · rw [Option.any_some, if_pos hc, overlayScannedMeta_of_match hc, Option.filter_some, if_pos hc]

/-- With a ciphertext in the store that fits, the entry gets its hash and its nonce. -/
theorem overlayEntry_of_stored {key : VaultKey} {dbIndex : Table String FileMeta}
    {read : Path → Option Bytes} {nonce : Path → Nonce} {scanned : FileMeta} {c : E2eeCachedWire}
    (hc : storedWire dbIndex scanned.path = some c) (hmatch : c.matchesScan scanned = true)
    (wireCache : Table String E2eeCachedWire) :
    overlayEntry blake3 aead key dbIndex read nonce wireCache scanned =
      some (withWire scanned c.contentHash c.encryptionNonce, none) := by
  rw [overlayEntry_eq (by rw [hc, Option.some_or]), Option.filter_some, if_pos hmatch]

/-- What an entry says of the contents of its file. -/
def contents (m : FileMeta) : Path × Digest × Option Bytes :=
  (m.path, m.contentHash, m.encryptionNonce)

/-- The two entries are of one file, and neither store has a ciphertext that fits. -/
structure Unstored (dbIndex dbIndex' : Table String FileMeta) (m m' : FileMeta) : Prop where
  path : m'.path = m.path
  size : m'.size = m.size
  mtimeNs : m'.mtimeNs = m.mtimeNs
  stored : (storedWire dbIndex m.path).isSome = (storedWire dbIndex' m.path).isSome
  left : ∀ c, storedWire dbIndex m.path = some c → c.matchesScan m = false
  right : ∀ c, storedWire dbIndex' m.path = some c → c.matchesScan m = false

variable (blake3 aead) in
/-- Such entries are overlaid alike. -/
theorem Unstored.overlayEntry_eq {dbIndex dbIndex' : Table String FileMeta} {m m' : FileMeta}
    (h : Unstored dbIndex dbIndex' m m') (key : VaultKey) (read : Path → Option Bytes)
    (nonce : Path → Nonce) (wireCache : Table String E2eeCachedWire) :
    (overlayEntry blake3 aead key dbIndex read nonce wireCache m).map
        (fun x => (contents x.1, x.2)) =
      (overlayEntry blake3 aead key dbIndex' read nonce wireCache m').map
        fun x => (contents x.1, x.2) := by
  obtain ⟨hpath, hsize, hmtime, hstored, hleft, hright⟩ := h
  have hmatches : ∀ c : E2eeCachedWire, c.matchesScan m' = c.matchesScan m := by
    intro c
    unfold E2eeCachedWire.matchesScan
    rw [hsize, hmtime]
  -- only a ciphertext of the cache can fit, and both entries find the same there
  have hknown : ((storedWire dbIndex m.path).or
        (wireCache.lookup (vaultRelativePathKey m.path))).filter (fun c => c.matchesScan m) =
      ((storedWire dbIndex' m.path).or
        (wireCache.lookup (vaultRelativePathKey m.path))).filter fun c => c.matchesScan m := by
    rcases hd : storedWire dbIndex m.path with _ | c <;>
      rcases hd' : storedWire dbIndex' m.path with _ | c' <;> rw [hd, hd'] at hstored
    · cases hstored
    · cases hstored
    · rw [Option.some_or, Option.some_or, Option.filter_some, Option.filter_some, hleft c hd,
        hright c' hd', if_neg Bool.false_ne_true, if_neg Bool.false_ne_true]
  rw [Client.overlayEntry_eq rfl, Client.overlayEntry_eq rfl, hpath]
  simp only [hmatches]
  rw [hknown]
  split
  · simp only [Option.map_some, contents, withWire, hpath]
  · rw [Option.map_bind, Option.map_bind]
    refine Option.bind_congr fun plaintext _ => ?_
    unfold overlayScannedMeta
    simp only [Function.comp_apply, Option.filter_none, Option.map_map, Function.comp_def, contents,
      withWire, hpath, hsize, hmtime]

/-- Lists of such entries are overlaid alike. -/
theorem overlayE2eeExchangeFiles_congr {dbIndex dbIndex' : Table String FileMeta}
    {metas metas' : List FileMeta} (h : List.Forall₂ (Unstored dbIndex dbIndex') metas metas')
    (key : VaultKey) (read : Path → Option Bytes) (nonce : Path → Nonce)
    (wireCache : Table String E2eeCachedWire) :
    (overlayE2eeExchangeFiles blake3 aead key dbIndex read nonce wireCache metas).1.map contents =
      (overlayE2eeExchangeFiles blake3 aead key dbIndex' read nonce wireCache metas').1.map
        contents := by
  induction h generalizing wireCache with
  | nil => rfl
  | @cons m m' metas metas' hm _ ih =>
      have heq := hm.overlayEntry_eq blake3 aead key read nonce wireCache
      unfold overlayE2eeExchangeFiles
      rcases ho : overlayEntry blake3 aead key dbIndex read nonce wireCache m with _ | ⟨x, fresh⟩ <;>
        rcases ho' : overlayEntry blake3 aead key dbIndex' read nonce wireCache m' with
          _ | ⟨x', fresh'⟩ <;> rw [ho, ho'] at heq
      · exact ih wireCache
      · cases heq
      · cases heq
      · obtain ⟨hx, rfl⟩ := Prod.mk.inj (Option.some.inj heq)
        rcases fresh with _ | fresh
        · simp only [List.map_cons, hx, ih]
        · simp only [List.map_cons, hx, hm.path, ih]

theorem of_mem_overlayVersionIdsFromDb {metas : List FileMeta} {dbIndex : Table String FileMeta}
    {m : FileMeta} (h : m ∈ overlayVersionIdsFromDb metas dbIndex) :
    ∃ m₀ ∈ metas, m.path = m₀.path ∧ m.deleted = m₀.deleted := by
  obtain ⟨m₀, hm₀, rfl⟩ := List.mem_map.mp h
  refine ⟨m₀, hm₀, ?_⟩
  split
  · exact ⟨rfl, rfl⟩
  · exact ⟨rfl, rfl⟩

end

end DiskArcana.Client
