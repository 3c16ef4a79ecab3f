import DiskArcana.Lib.Trace
import DiskArcana.Hosting.Effects

/-!
# The content store over whole runs

A blob should have the hash that it is stored under. The store does not hash what it is given, so
every caller has to: an archive hands it the bytes on disk with the hash that the row remembers, and
a restore the bytes it found with the hash it was looking for. The store stays sound along every run
whose steps do not archive under a stale row, do not fall back to another revision's blob, and do not
write other bytes into the store's directory (`blobs_have_their_hash`).
-/

namespace DiskArcana.Hosting

open DiskArcana.Core DiskArcana.Lib DiskArcana.Server DiskArcana.System

section

variable (blake3 : Bytes → Digest) (cfg : HostConfig)

/-- Every blob has the hash that it is stored under. -/
def BlobsSound (h : Host) : Prop :=
  ∀ hash bytes, getBlob cfg h hash = some bytes → blake3 bytes = hash

/-! ## What a step must not do -/

/-- A write to the location leaves the content store alone: it is no place of the store, or the place
of just these bytes. -/
def OffStore (loc : List String) (bytes : Bytes) : Prop :=
  ∀ hash, loc = blobLoc cfg hash → blake3 bytes = hash

/-- The file about to be replaced is the one its row remembers, if it is going to be archived. -/
def RowCurrent (h : Host) (scope : Scope) (key : Path) (target : List String) (ok : Bool) : Prop :=
  ∀ hash old, Archives cfg h scope key target ok hash old → blake3 old = hash

/-- An upload replaces a file its row remembers, and neither its target nor its quarantine lies in
the content store. -/
def UploadSound (h : Host) (r : UploadRequest) : Prop :=
  (∀ a spool target, Commits blake3 cfg r a spool target →
    RowCurrent blake3 cfg h r.scope (dbKey a.path) target r.archiveOk ∧
      OffStore blake3 cfg target (spool.getD [])) ∧
  ∀ a spool, Quarantines blake3 cfg r a spool →
    OffStore blake3 cfg (quarantineLoc cfg r a.path) (spool.getD [])

/-- A restore replaces a file its row remembers, and what it writes to its target leaves the content
store alone. -/
def RestoreSound (h : Host) (r : RestoreRequest) (env : RestoreEnv) (archives : Bool)
    (rev : Revision) : Prop :=
  ∀ target, pathGuard cfg.syncRoot rev.path = .ok target →
    (archives = true → RowCurrent blake3 cfg h r.scope (dbKey rev.path) target env.archiveOk) ∧
      ∀ content, env.write.left rev.bytes = some content → OffStore blake3 cfg target content

/-- Where a hash has no blob, the version row with the recorded number is of that hash, or has no
blob either. -/
def FallbackSound (h : Host) (scope : Scope) (key : Path) (hash : Digest) (versionId : Option ℕ) :
    Prop :=
  getBlob cfg h hash = none → ∀ v, versionId.bind ((h.db scope).getFileVersion key) = some v →
    getBlob cfg h v.contentHash ≠ none → v.contentHash = hash

/-- The same for each file of a snapshot, in the state that the loop finds. -/
def SnapshotSound (h : Host) (r : RestoreRequest) : ℕ → List SnapshotFile → Prop
  | _, [] => True
  | i, entry :: rest =>
    FallbackSound cfg h r.scope entry.path entry.contentHash
        (if entry.versionId = 0 then none else some entry.versionId) ∧
      (∀ rev, planSnapshotFile blake3 cfg h r entry = some rev →
        RestoreSound blake3 cfg h r (r.env i) true rev) ∧
      SnapshotSound (restoreSnapshotFile blake3 cfg h r (r.env i) entry) r (i + 1) rest

/-- The step does not mislead the content store. -/
def StoreSound (h : Host) : HostEvent → Prop
  | .request (.upload r) => UploadSound blake3 cfg h r
  | .request (.restoreVersion r path versionId) =>
    ∀ rev, planVersion cfg h r path versionId = .ok rev →
      RestoreSound blake3 cfg h r (r.env 0) true rev
  | .request (.restoreTrash r path) =>
    ∀ rev, planTrash blake3 cfg h r path = .ok rev →
      RestoreSound blake3 cfg h r (r.env 0) false rev ∧
        ∀ m, (h.db r.scope).getFileScoped (dbKey rev.path) = some m →
          FallbackSound cfg h r.scope (dbKey rev.path) m.contentHash m.versionId
  | .request (.restoreSnapshot r id) =>
    ∀ files, h.snapshots.lookup id = some (r.scope, files) → SnapshotSound blake3 cfg h r 0 files
  | .outside loc (some bytes) => OffStore blake3 cfg loc bytes
  | _ => True

variable {blake3 cfg}

/-! ## One step -/

/-- Writes that leave the store alone keep it sound. -/
theorem BlobsSound.of_changesBy {h h' : Host} {W : List String → Bytes → Prop}
    (hsound : BlobsSound blake3 cfg h) (hchange : Table.ChangesBy W h.files h'.files)
    (hW : ∀ loc bytes, W loc bytes → OffStore blake3 cfg loc bytes) :
    BlobsSound blake3 cfg h' := by
  intro hash bytes hget
  rcases hchange.of_lookup hget with hold | hw
  · exact hsound hash bytes hold
  · exact hW _ bytes hw hash rfl

/-- A place of the store may get the bytes of its hash. -/
theorem offStore_blobLoc {hash : Digest} {bytes : Bytes} (hbytes : blake3 bytes = hash) :
    OffStore blake3 cfg (blobLoc cfg hash) bytes := by
  intro hash' hloc
  rw [hbytes]
  exact blobLoc_injective cfg hloc

/-- Archiving a file its row remembers leaves the store sound. -/
theorem offStore_of_archiveWrites {h : Host} {scope : Scope} {key : Path} {target : List String}
    {ok : Bool} (hrow : RowCurrent blake3 cfg h scope key target ok) {loc : List String}
    {bytes : Bytes} (hw : ArchiveWrites cfg h scope key target ok loc bytes) :
    OffStore blake3 cfg loc bytes := by
  obtain ⟨hash, harch, rfl⟩ := hw
  exact offStore_blobLoc (hrow hash bytes harch)

/-- **An upload** that replaces a file its row remembers. -/
theorem UploadSound.offStore {h : Host} {r : UploadRequest} (hs : UploadSound blake3 cfg h r)
    {loc : List String} {bytes : Bytes} (hw : UploadWrites blake3 cfg h r loc bytes) :
    OffStore blake3 cfg loc bytes := by
  rcases hw with ⟨a, spool, hq, rfl, rfl⟩ | ⟨a, spool, target, hc, harch | ⟨rfl, rfl⟩⟩
  · exact hs.2 a spool hq
  · exact offStore_of_archiveWrites (hs.1 a spool target hc).1 harch
  · exact (hs.1 a spool loc hc).2

/-- **The restore of one file** with the bytes of its hash. -/
theorem RestoreSound.offStore {h : Host} {r : RestoreRequest} {env : RestoreEnv} {archives : Bool}
    {rev : Revision} (hs : RestoreSound blake3 cfg h r env archives rev)
    (hbytes : blake3 rev.bytes = rev.contentHash) {loc : List String} {bytes : Bytes}
    (hw : RestoreWrites cfg h r env archives rev loc bytes) : OffStore blake3 cfg loc bytes := by
  obtain ⟨target, hguard, ⟨harchives, harch⟩ | ⟨rfl, hleft⟩ | ⟨-, rfl, rfl⟩⟩ := hw
  · exact offStore_of_archiveWrites ((hs target hguard).1 harchives) harch
  · exact (hs loc hguard).2 bytes hleft
  · exact offStore_blobLoc hbytes

/-- What is found for a hash in a sound store has the hash. -/
theorem hash_of_resolveBlob {h : Host} (hsound : BlobsSound blake3 cfg h) {scope : Scope}
    {key : Path} {hash : Digest} {versionId : Option ℕ} {bytes : Bytes}
    (hfall : FallbackSound cfg h scope key hash versionId)
    (hfound : resolveBlob blake3 cfg h scope key hash versionId = some bytes) :
    blake3 bytes = hash := by
  unfold resolveBlob at hfound
  rcases hown : getBlob cfg h hash with _ | own
  · rw [hown, Option.none_or, Option.or_eq_some_iff] at hfound
    rcases hfound with hversion | ⟨-, hfile⟩
    · obtain ⟨v, hv, hblob⟩ := Option.bind_eq_some_iff.mp hversion
      have hsame : v.contentHash = hash := hfall hown v hv (by rw [hblob]; exact Option.some_ne_none _)
      rw [← hsame]
      exact hsound _ _ hblob
    · obtain ⟨-, hcheck⟩ := Option.filter_eq_some_iff.mp hfile
      simpa using hcheck
  · rw [hown, Option.some_or] at hfound
    cases hfound
    exact hsound _ _ hown

/-- What is found for a recorded revision in a sound store has the recorded hash. -/
theorem hash_of_planVersion {h : Host} (hsound : BlobsSound blake3 cfg h) {r : RestoreRequest}
    {path : String} {versionId : ℕ} {rev : Revision}
    (hplan : planVersion cfg h r path versionId = .ok rev) : blake3 rev.bytes = rev.contentHash := by
  obtain ⟨v, -, -, hblob, hhash, -⟩ := of_planVersion cfg hplan
  rw [hhash]
  exact hsound _ _ hblob

/-- **The loop over a snapshot** keeps the store sound. -/
theorem SnapshotSound.blobsSound {h : Host} {r : RestoreRequest} {i : ℕ}
    {files : List SnapshotFile} (hs : SnapshotSound blake3 cfg h r i files)
    (hsound : BlobsSound blake3 cfg h) :
    BlobsSound blake3 cfg (restoreSnapshotFiles blake3 cfg h r i files) := by
  induction files generalizing h i with
  | nil => exact hsound
  | cons entry rest ih =>
      obtain ⟨hfall, hrestore, hrest⟩ := hs
      have hfirst : BlobsSound blake3 cfg (restoreSnapshotFile blake3 cfg h r (r.env i) entry) := by
        unfold restoreSnapshotFile
        rcases hplan : planSnapshotFile blake3 cfg h r entry with _ | rev
        · exact hsound
        · obtain ⟨hfound, -, hhash, -⟩ := of_planSnapshotFile blake3 cfg hplan
          have hbytes : blake3 rev.bytes = rev.contentHash := by
            rw [hhash]
            exact hash_of_resolveBlob hsound hfall hfound
          refine hsound.of_changesBy (changesBy_restoreFile h r (r.env i) true rev) ?_
          intro loc bytes hw
          exact (hrestore rev hplan).offStore hbytes hw
      exact ih hrest hfirst

/-- **A request** that does not mislead the store keeps it sound. -/
theorem BlobsSound.serve {h : Host} {req : Request} (hsound : BlobsSound blake3 cfg h)
    (he : StoreSound blake3 cfg h (.request req)) : BlobsSound blake3 cfg (serve blake3 cfg h req) := by
  cases req with
  | upload r =>
      refine hsound.of_changesBy (changesBy_serve h (.upload r)) ?_
      intro loc bytes hw
      exact UploadSound.offStore he hw
  | restoreVersion r path versionId =>
      refine hsound.of_changesBy (changesBy_serve h (.restoreVersion r path versionId)) ?_
      rintro loc bytes ⟨rev, hplan, hw⟩
      exact (he rev hplan).offStore (hash_of_planVersion hsound hplan) hw
  | restoreTrash r path =>
      refine hsound.of_changesBy (changesBy_serve h (.restoreTrash r path)) ?_
      rintro loc bytes ⟨rev, hplan, hw⟩
      obtain ⟨m, -, hrow, hfound, hhash, -⟩ := of_planTrash blake3 cfg hplan
      obtain ⟨hrestore, hfall⟩ := he rev hplan
      refine hrestore.offStore ?_ hw
      rw [hhash]
      exact hash_of_resolveBlob hsound (hfall m hrow) hfound
  | restoreSnapshot r id =>
      show BlobsSound blake3 cfg (restoreSnapshot blake3 cfg h r id).2
      unfold restoreSnapshot
      rcases r.admitted with e | u
      · exact hsound
      · rcases hsnap : h.snapshots.lookup id with _ | ⟨scope, files⟩
        · exact hsound
        · dsimp only
          split_ifs with hscope
          · subst hscope
            exact (he files hsnap).blobsSound hsound
          · exact hsound
  | download r => exact hsound
  | exchange r => exact hsound.of_changesBy (changesBy_serve h (.exchange r)) fun _ _ hw => hw.elim
  | createSnapshot scope admitted kept =>
      exact hsound.of_changesBy (changesBy_serve h (.createSnapshot scope admitted kept))
        fun _ _ hw => hw.elim

/-- **One step** that does not mislead the store keeps it sound. -/
theorem BlobsSound.step {h : Host} {e : HostEvent} (hsound : BlobsSound blake3 cfg h)
    (he : StoreSound blake3 cfg h e) : BlobsSound blake3 cfg (hostStep blake3 cfg h e) := by
  cases e with
  | request req => exact hsound.serve he
  | index vault rel stat =>
      refine hsound.of_changesBy (W := fun _ _ => False) ?_ fun _ _ hw => hw.elim
      show Table.ChangesBy _ _ (indexUpsert blake3 cfg h vault rel stat).files
      unfold indexUpsert
      split_ifs
      · exact .refl _ _
      · split
        · exact .refl _ _
        · exact .refl _ _
  | outside loc content =>
      rcases content with _ | bytes
      · intro hash bytes hget
        apply hsound hash bytes
        change (h.files.erase loc).lookup (blobLoc cfg hash) = some bytes at hget
        by_cases hloc : blobLoc cfg hash = loc
        · rw [hloc, AList.lookup_erase] at hget
          cases hget
        · rw [AList.lookup_erase_ne hloc] at hget
          exact hget
      · refine hsound.of_changesBy (W := fun l b => l = loc ∧ b = bytes)
          ((Table.ChangesBy.refl _ _).insert ⟨rfl, rfl⟩) ?_
        rintro l b ⟨rfl, rfl⟩
        exact he

/-- A restore of a recorded revision puts the bytes that it found into place. -/
theorem of_restoreVersion_ok {h h' : Host} {r : RestoreRequest} {path : String} {versionId : ℕ}
    (hok : restoreVersion cfg h r path versionId = (.ok (), h')) :
    ∃ rev target, planVersion cfg h r path versionId = .ok rev ∧
      pathGuard cfg.syncRoot rev.path = .ok target ∧ h'.files.lookup target = some rev.bytes := by
  unfold restoreVersion at hok
  rcases hplan : planVersion cfg h r path versionId with e | rev
  · rw [hplan] at hok
    cases hok
  rw [hplan] at hok
  change restoreFile cfg h r (r.env 0) true rev = (.ok (), h') at hok
  rcases restoreFile_cases cfg h r (r.env 0) true rev with
    ⟨e, heq⟩ | ⟨target, hguard, ⟨e, heq⟩ | ⟨content, -, -, e, heq⟩ | ⟨db, -, -, heq⟩⟩
  · rw [heq] at hok
    cases hok
  · rw [heq] at hok
    cases hok
  · rw [heq] at hok
    cases hok
  · rw [heq] at hok
    cases hok
    refine ⟨rev, target, rfl, hguard, ?_⟩
    have hthere : (((preserved cfg h r (r.env 0) true rev target).write target rev.bytes).setDb
        r.scope db).files.lookup target = some rev.bytes := AList.lookup_insert _
    rcases putBlob_cases (((preserved cfg h r (r.env 0) true rev target).write target
        rev.bytes).setDb r.scope db) rev.contentHash rev.bytes (r.env 0).blobOk with
      ⟨hput, -⟩ | ⟨hput, -⟩
    · rw [hput]
      exact hthere
    · rw [hput, Host.write_files, Table.lookup_insert_eq_ite]
      split_ifs
      · rfl
      · exact hthere

/-- **The content store is content addressed over whole runs.** Along every run from an empty server
(requests, index passes and outside writes in any order) whose steps do not mislead the store, every
blob has the hash that it is stored under; and a restore of a recorded revision puts bytes into place
whose hash is the one that the version row records.
Source: `content_store.rs`, `put`; `services/sync.rs`, `delta_upload`; `versions/routes.rs`,
`restore_version_inner` -/
theorem blobs_have_their_hash (blake3 : Bytes → Digest) (cfg : HostConfig) (es : List HostEvent)
    (hrun : Trace.Always (hostStep blake3 cfg) (fun _ h e => StoreSound blake3 cfg h e) Host.empty
      es) :
    BlobsSound blake3 cfg (Trace.run (hostStep blake3 cfg) Host.empty es) ∧
    ∀ r path versionId h',
      restoreVersion cfg (Trace.run (hostStep blake3 cfg) Host.empty es) r path versionId =
          (.ok (), h') →
        ∃ rel target v bytes, normalizeRelPath path = .ok rel ∧
          pathGuard cfg.syncRoot rel = .ok target ∧
          ((Trace.run (hostStep blake3 cfg) Host.empty es).db r.scope).getFileVersion (dbKey rel)
            versionId = some v ∧
          h'.files.lookup target = some bytes ∧ blake3 bytes = v.contentHash := by
  have hsound : BlobsSound blake3 cfg (Trace.run (hostStep blake3 cfg) Host.empty es) := by
    refine (Trace.Always.of_invariant (φ := fun _ _ _ => True)
      (I := fun _ h => BlobsSound blake3 cfg h) ?_ (fun _ _ _ _ => trivial)
      (fun _ _ hI he => hI.step he) hrun).2
    intro hash bytes hget
    cases hget
  refine ⟨hsound, ?_⟩
  intro r path versionId h' hok
  obtain ⟨rev, target, hplan, hguard, hfile⟩ := of_restoreVersion_ok hok
  obtain ⟨v, hrel, hversion, -, hhash, -⟩ := of_planVersion cfg hplan
  refine ⟨rev.path, target, v, rev.bytes, hrel, hguard, hversion, hfile, ?_⟩
  rw [← hhash]
  exact hash_of_planVersion hsound hplan

/-- A location at another depth is no place of the store. -/
theorem offStore_of_length {loc : List String} (hlen : loc.length ≠ cfg.syncRoot.length + 3)
    (bytes : Bytes) : OffStore blake3 cfg loc bytes := by
  rintro hash rfl
  exfalso
  apply hlen
  simp [blobLoc]

/-- An upload whose stream, target and archived file are known. -/
theorem uploadSound_of_eq {h : Host} {r : UploadRequest} {a : Announced} {spool : Option Bytes}
    {target : List String} {u : Unit}
    (hstream : receiveStream blake3 cfg r none none r.stream = .ok (some a, spool))
    (hguard : pathGuard (cfg.rootFor r.share) a.path = .ok target) (hpub : r.publisher = .ok u)
    (hrow : ∀ old ∈ h.files.lookup target, ∀ m ∈ (h.db r.scope).getFileScoped (dbKey a.path),
      blake3 old = m.contentHash)
    (hlen : target.length ≠ cfg.syncRoot.length + 3) : UploadSound blake3 cfg h r := by
  refine ⟨?_, ?_⟩
  · intro a' spool' target' hc
    have hsame := hstream.symm.trans hc.stream
    cases hsame
    have htarget := hguard.symm.trans hc.guard
    cases htarget
    refine ⟨?_, offStore_of_length hlen _⟩
    rintro hash old ⟨hold, ⟨m, hm, rfl⟩, -⟩
    exact hrow old hold m hm
  · intro a' spool' hq
    obtain ⟨e, he⟩ := hq.publisher
    rw [hpub] at he
    cases he

end

/-- A file is uploaded and replaced. -/
def sampleReplace : List HostEvent :=
  [.request (.upload (sampleUpload none "docs" "f" [97])),
    .request (.upload (sampleUpload none "docs" "f" [98]))]

/-- The theorem at work: the replaced bytes are stored under their own hash. -/
theorem blobs_have_their_hash_sampleReplace :
    getBlob smallConfig (Trace.run (hostStep sampleBlake3 smallConfig) Host.empty sampleReplace)
      (sampleBlake3 [97]) = some [97] ∧
    BlobsSound sampleBlake3 smallConfig
      (Trace.run (hostStep sampleBlake3 smallConfig) Host.empty sampleReplace) := by
  refine ⟨by decide +kernel, (blobs_have_their_hash sampleBlake3 smallConfig sampleReplace ?_).1⟩
  apply Trace.always_of_forall_mem
  intro x hx
  rcases List.mem_pair.mp hx with rfl | rfl
  · exact @uploadSound_of_eq _ _ _ _ ⟨"f", []⟩ (some [97]) ["srv", "sync", "f"] ()
      (by decide +kernel) (by decide +kernel) rfl (by decide +kernel) (by decide)
  · exact @uploadSound_of_eq _ _ _ _ ⟨"f", []⟩ (some [98]) ["srv", "sync", "f"] ()
      (by decide +kernel) (by decide +kernel) rfl (by decide +kernel) (by decide)

/-- A file is uploaded, changed behind the server's back, and replaced. -/
def sampleStaleRow : List HostEvent :=
  [.request (.upload (sampleUpload none "docs" "f" [97])),
    .outside ["srv", "sync", "f"] (some [98]),
    .request (.upload (sampleUpload none "docs" "f" [99]))]

/-- A restore request with everything working. -/
def sampleRestore (tenant : Option String) (vault : String) : RestoreRequest where
  tenant := tenant
  vault := vault
  admitted := .ok ()
  user := "user"
  retention := ⟨10, 1000⟩
  env := fun _ => ⟨true, true, .done, true, true, 1, 100⟩

/-- **A stale row poisons its hash.** The bytes that the outside change left are archived under the
hash of the bytes that the row remembers, and the restore of that revision brings back the wrong
ones. -/
theorem stale_row_poisons_store :
    getBlob smallConfig (Trace.run (hostStep sampleBlake3 smallConfig) Host.empty sampleStaleRow)
      (sampleBlake3 [97]) = some [98] ∧
    ¬ BlobsSound sampleBlake3 smallConfig
      (Trace.run (hostStep sampleBlake3 smallConfig) Host.empty sampleStaleRow) ∧
    (((Trace.run (hostStep sampleBlake3 smallConfig) Host.empty sampleStaleRow).db
        (none, "docs")).getFileVersion ["f"] 1).map FileVersionRow.contentHash =
      some (sampleBlake3 [97]) ∧
    (restoreVersion smallConfig
        (Trace.run (hostStep sampleBlake3 smallConfig) Host.empty sampleStaleRow)
        (sampleRestore none "docs") "f" 1).2.files.lookup ["srv", "sync", "f"] = some [98] := by
  have hblob : getBlob smallConfig
      (Trace.run (hostStep sampleBlake3 smallConfig) Host.empty sampleStaleRow)
      (sampleBlake3 [97]) = some [98] := by decide +kernel
  refine ⟨hblob, ?_, by decide +kernel, by decide +kernel⟩
  intro hsound
  have hne : sampleBlake3 [98] ≠ sampleBlake3 [97] := by decide +kernel
  exact hne (hsound _ _ hblob)

end DiskArcana.Hosting
