import DiskArcana.Hosting.UploadErrors

/-!
# What a request can do to the files and the tables

Inversion of the handlers that write, once: how far an upload gets and what it has done by then
(`UploadOutcome`), what the restores look up (`of_planVersion`, `of_planTrash`,
`of_planSnapshotFile`) and what the restore of one file does with it (`restoreFile_cases`). From
these, the set of writes of each request (`changesBy_serve`). The results about runs of a host use
these.
-/

namespace DiskArcana.Hosting

open DiskArcana.Core DiskArcana.Lib DiskArcana.Lib.LexicalPath DiskArcana.Server

section

variable (blake3 : Bytes → Digest) (cfg : HostConfig)

/-! ## Uploads -/

/-- The stream is read to its end, announces a path, and has the announced hash. -/
structure Received (r : UploadRequest) (a : Announced) (spool : Option Bytes) : Prop where
  admitted : ∃ u, r.admitted = .ok u
  stream : receiveStream blake3 cfg r none none r.stream = .ok (some a, spool)
  synced : spool = none ∨ r.fsyncOk = true
  hash : a.contentHash = [] ∨ a.contentHash = (blake3 (spool.getD [])).toList

/-- The upload gets as far as the commit. -/
structure Commits (r : UploadRequest) (a : Announced) (spool : Option Bytes) (target : List String) :
    Prop extends Received blake3 cfg r a spool where
  publisher : ∃ u, r.publisher = .ok u
  quota : ∃ u, r.quota = .ok u
  guard : pathGuard (cfg.rootFor r.share) a.path = .ok target

/-- The publisher is rejected, and the bytes are copied into the quarantine. -/
structure Quarantines (r : UploadRequest) (a : Announced) (spool : Option Bytes) : Prop extends
    Received blake3 cfg r a spool where
  publisher : ∃ e, r.publisher = .error e
  written : r.quarantineOk = true

/-- The state after the commit has archived the old bytes and put the new ones into place. -/
def placed (h : Host) (r : UploadRequest) (a : Announced) (spool : Option Bytes)
    (target : List String) : Host :=
  (archive cfg h r.scope (dbKey a.path) target r.archiveOk).write target (spool.getD [])

/-- How far an upload gets. The request alone decides that. -/
inductive UploadOutcome where
  | nothing
  | quarantined (a : Announced) (spool : Option Bytes)
  | archived (a : Announced) (spool : Option Bytes) (target : List String)
  | unrecorded (a : Announced) (spool : Option Bytes) (target : List String)
  | recorded (a : Announced) (spool : Option Bytes) (target : List String)

namespace UploadOutcome

/-- The stages that the upload has passed. -/
def Reached (r : UploadRequest) : UploadOutcome → Prop
  | .nothing => True
  | .quarantined a spool => Quarantines blake3 cfg r a spool
  | .archived a spool target => Commits blake3 cfg r a spool target
  | .unrecorded a spool target => Commits blake3 cfg r a spool target
  | .recorded a spool target => Commits blake3 cfg r a spool target

/-- The files after it. -/
def files (h : Host) (r : UploadRequest) : UploadOutcome → Table (List String) Bytes
  | .nothing => h.files
  | .quarantined a spool => h.files.insert (quarantineLoc cfg r a.path) (spool.getD [])
  | .archived a _ target => (archive cfg h r.scope (dbKey a.path) target r.archiveOk).files
  | .unrecorded a spool target => (placed cfg h r a spool target).files
  | .recorded a spool target => (placed cfg h r a spool target).files

/-- The tables after it. -/
def db (h : Host) (r : UploadRequest) : UploadOutcome → Scope → MetaDb
  | .recorded _ spool target => (recordRow blake3 cfg h r target (spool.getD [])).db
  | _ => h.db

/-- The answer may be a success. -/
def mayBeOk : UploadOutcome → Bool
  | .nothing => true
  | .recorded _ _ _ => true
  | _ => false

end UploadOutcome

/-- A handler that started in `h` ends with this outcome. -/
structure EndsWith {α : Type} (h : Host) (r : UploadRequest) (o : UploadOutcome)
    (out : Except String α × Host) : Prop where
  files : out.2.files = o.files cfg h r
  db : out.2.db = o.db blake3 cfg h r
  snapshots : out.2.snapshots = h.snapshots
  nextSnapshot : out.2.nextSnapshot = h.nextSnapshot
  ok : ∀ a, out.1 = .ok a → o.mayBeOk = true

/-- The rows that an upload writes do not depend on the files. -/
theorem recordRow_db {h h₁ : Host} (hdb : h₁.db = h.db) (r : UploadRequest) (target : List String)
    (bytes : Bytes) :
    (recordRow blake3 cfg h₁ r target bytes).db = (recordRow blake3 cfg h r target bytes).db := by
  unfold recordRow Host.setDb
  split_ifs
  · simp only [hdb]
  · exact hdb

theorem recordRow_files (h : Host) (r : UploadRequest) (target : List String) (bytes : Bytes) :
    (recordRow blake3 cfg h r target bytes).files = h.files := by
  unfold recordRow
  split_ifs <;> rfl

/-- Nothing but temporary files has changed. -/
theorem endsWith_nothing {α : Type} {h h₁ : Host} (r : UploadRequest) (res : Except String α)
    (hfiles : h₁.files = h.files) (hdb : h₁.db = h.db) (hsnap : h₁.snapshots = h.snapshots)
    (hnext : h₁.nextSnapshot = h.nextSnapshot) :
    EndsWith blake3 cfg h r .nothing (res, h₁) :=
  ⟨hfiles, hdb, hsnap, hnext, fun _ _ => rfl⟩

theorem archive_nextSnapshot (h : Host) (scope : Scope) (key : Path) (target : List String)
    (ok : Bool) : (archive cfg h scope key target ok).nextSnapshot = h.nextSnapshot := by
  rcases archive_cases h scope key target ok with ⟨heq, -⟩ | ⟨hash, old, -, heq⟩
  · rw [heq]
  · rw [heq]
    rfl

/-- An exit of the commit after the old bytes are archived. -/
theorem endsWith_archived {h : Host} {r : UploadRequest} {a : Announced} (spool : Option Bytes)
    {target : List String} (e : String) (temps : List (List String × Bytes)) :
    EndsWith blake3 cfg h r (.archived a spool target) ((.error e : Except String Unit),
      { archive cfg h r.scope (dbKey a.path) target r.archiveOk with temps := temps }) :=
  ⟨rfl, archive_db h _ _ _ _, archive_snapshots h _ _ _ _, archive_nextSnapshot cfg h _ _ _ _,
    fun _ hok => by cases hok⟩

/-- The exits of the commit after the new bytes are in place. -/
theorem endsWith_placed {h : Host} {r : UploadRequest} {a : Announced} (spool : Option Bytes)
    {target : List String} (temps : List (List String × Bytes)) :
    EndsWith blake3 cfg h r
      (if r.dbOk then .recorded a spool target else .unrecorded a spool target)
      (if r.dbOk then ((.ok () : Except String Unit), recordRow blake3 cfg
          ({ archive cfg h r.scope (dbKey a.path) target r.archiveOk with
            temps := temps }.write target (spool.getD [])) r target (spool.getD []))
        else (.error "tenant meta db",
          { archive cfg h r.scope (dbKey a.path) target r.archiveOk with
            temps := temps }.write target (spool.getD []))) := by
  have hrow : ∀ h₁ : Host, (recordRow blake3 cfg h₁ r target (spool.getD [])).snapshots =
      h₁.snapshots ∧ (recordRow blake3 cfg h₁ r target (spool.getD [])).nextSnapshot =
        h₁.nextSnapshot := by
    intro h₁
    unfold recordRow
    split_ifs <;> exact ⟨rfl, rfl⟩
  rcases r.dbOk with _ | _
  · exact ⟨rfl, archive_db h _ _ _ _, archive_snapshots h _ _ _ _,
      archive_nextSnapshot cfg h _ _ _ _, fun _ hok => by cases hok⟩
  · refine ⟨recordRow_files blake3 cfg _ r target _, ?_, ?_, ?_, fun _ _ => rfl⟩
    · apply recordRow_db
      exact archive_db h _ _ _ _
    · exact (hrow _).1.trans (archive_snapshots h _ _ _ _)
    · exact (hrow _).2.trans (archive_nextSnapshot cfg h _ _ _ _)

/-- **How far the commit gets.** -/
theorem exists_outcome_commit {r : UploadRequest} {a : Announced} {spool : Option Bytes}
    {target : List String} (hc : Commits blake3 cfg r a spool target) :
    ∃ o : UploadOutcome, o.Reached blake3 cfg r ∧ ∀ h, EndsWith blake3 cfg h r o
      (commit blake3 cfg (staged cfg h r spool) r (some a) spool) := by
  unfold commit
  simp only [hc.guard, archive_staged]
  rcases hdir : r.dirOk with _ | _
  · refine ⟨.archived a spool target, hc, fun h => ?_⟩
    simp only [Bool.not_false, if_true]
    exact endsWith_archived blake3 cfg spool _ _
  have hplaced : (if r.dbOk then UploadOutcome.recorded a spool target
      else .unrecorded a spool target).Reached blake3 cfg r := by
    split_ifs
    · exact hc
    · exact hc
  rcases spool with _ | bytes
  · rcases hstage : r.stageOk with _ | _
    · refine ⟨.archived a none target, hc, fun h => ?_⟩
      simp only [stageEmpty, hstage, Bool.not_true, Bool.not_false, Bool.false_eq_true, if_false,
        if_true]
      exact endsWith_archived blake3 cfg none _ _
    · rcases hsync : r.stageSyncOk with _ | _
      · refine ⟨.archived a none target, hc, fun h => ?_⟩
        simp only [stageEmpty, hstage, hsync, Bool.not_true, Bool.false_eq_true, if_false]
        exact endsWith_archived blake3 cfg none _ _
      · rcases hrename : r.renameOk with _ | _
        · refine ⟨.archived a none target, hc, fun h => ?_⟩
          simp only [stageEmpty, hstage, hsync, Bool.not_true, Bool.not_false, Bool.false_eq_true,
            if_false, if_true]
          exact endsWith_archived blake3 cfg none _ _
        · refine ⟨_, hplaced, fun h => ?_⟩
          simp only [stageEmpty, hstage, hsync, Bool.not_true, Bool.false_eq_true, if_false, if_true]
          exact endsWith_placed blake3 cfg none _
  · rcases hrename : r.renameOk with _ | _
    · refine ⟨.archived a (some bytes) target, hc, fun h => ?_⟩
      simp only [stageEmpty, Bool.not_true, Bool.not_false, Bool.false_eq_true, if_false, if_true]
      exact endsWith_archived blake3 cfg (some bytes) _ _
    · refine ⟨_, hplaced, fun h => ?_⟩
      simp only [stageEmpty, Bool.not_true, Bool.false_eq_true, if_false]
      exact endsWith_placed blake3 cfg (some bytes) _

/-- An unfinished spool is a temporary file. -/
theorem endsWith_dropSpool (h : Host) (r : UploadRequest) (spool : Option Bytes) (e : String) :
    EndsWith blake3 cfg h r .nothing ((.error e : Except String Digest), dropSpool cfg h r spool) := by
  unfold dropSpool
  rcases spool with _ | bytes
  · exact endsWith_nothing blake3 cfg r _ rfl rfl rfl rfl
  · dsimp only
    split_ifs
    · exact endsWith_nothing blake3 cfg r _ rfl rfl rfl rfl
    · exact endsWith_nothing blake3 cfg r _ rfl rfl rfl rfl

/-- **How far an upload gets**, and what it has done by then. -/
theorem exists_outcome (r : UploadRequest) :
    ∃ o : UploadOutcome, o.Reached blake3 cfg r ∧
      ∀ h, EndsWith blake3 cfg h r o (deltaUpload blake3 cfg h r) := by
  unfold deltaUpload
  rcases hadm : r.admitted with e | u
  · refine ⟨.nothing, trivial, fun h => ?_⟩
    unfold receive
    rw [hadm]
    exact endsWith_nothing blake3 cfg r _ rfl rfl rfl rfl
  simp only [receive_eq blake3 cfg hadm]
  rcases hstream : receiveStream blake3 cfg r none none r.stream with ⟨e, spool⟩ |
    ⟨announced, spool⟩
  · exact ⟨.nothing, trivial, fun h => endsWith_dropSpool blake3 cfg h r spool e⟩
  dsimp only
  by_cases hsync : spool ≠ none ∧ r.fsyncOk = false
  · simp only [if_pos hsync]
    exact ⟨.nothing, trivial, fun h => endsWith_dropSpool blake3 cfg h r spool _⟩
  simp only [if_neg hsync]
  rcases announced with _ | a
  · refine ⟨.nothing, trivial, fun h => ?_⟩
    have hopen : verify blake3 cfg (staged cfg h r spool) r none spool =
        (.ok (), staged cfg h r spool) := by
      simp [verify]
    rw [hopen]
    dsimp only [commit]
    rcases r.usage with e | _
    · exact endsWith_nothing blake3 cfg r _ rfl rfl rfl rfl
    · exact endsWith_nothing blake3 cfg r _ rfl rfl rfl rfl
  obtain ⟨target, hguard⟩ := pathGuard_of_receiveStream blake3 cfg (by intro b hb; cases hb) hstream
  have hsynced : spool = none ∨ r.fsyncOk = true := by
    rcases spool with _ | bytes
    · exact Or.inl rfl
    · right
      simpa using hsync
  unfold verify
  simp only [Option.map_some, Option.getD_some, Bool.and_eq_true, Bool.not_eq_true',
    List.isEmpty_eq_false_iff, bne_iff_ne]
  by_cases hlen : a.contentHash ≠ [] ∧ a.contentHash.length ≠ 32
  · simp only [if_pos hlen]
    exact ⟨.nothing, trivial, fun h => endsWith_nothing blake3 cfg r _ rfl rfl rfl rfl⟩
  simp only [if_neg hlen]
  by_cases hmis : a.contentHash ≠ [] ∧ a.contentHash ≠ (blake3 (spool.getD [])).toList
  · simp only [if_pos hmis]
    refine ⟨.nothing, trivial, fun h => ?_⟩
    split_ifs
    · exact endsWith_nothing blake3 cfg r _ rfl rfl rfl rfl
    · exact endsWith_nothing blake3 cfg r _ rfl rfl rfl rfl
  simp only [if_neg hmis]
  have hreceived : Received blake3 cfg r a spool := by
    refine ⟨⟨u, hadm⟩, hstream, hsynced, ?_⟩
    by_contra hno
    exact hmis (not_or.mp hno)
  rcases hpub : r.publisher with e | u
  · dsimp only
    rcases hq : r.quarantineOk with _ | _
    · exact ⟨.nothing, trivial, fun h => endsWith_nothing blake3 cfg r _ rfl rfl rfl rfl⟩
    · refine ⟨.quarantined a spool, ⟨hreceived, ⟨e, hpub⟩, hq⟩, fun h => ?_⟩
      exact ⟨rfl, rfl, rfl, rfl, fun _ hok => by cases hok⟩
  rcases hquota : r.quota with e | v
  · exact ⟨.nothing, trivial, fun h => endsWith_nothing blake3 cfg r _ rfl rfl rfl rfl⟩
  obtain ⟨o, hreached, hends⟩ := exists_outcome_commit blake3 cfg
    (⟨hreceived, ⟨u, hpub⟩, ⟨v, hquota⟩, hguard⟩ : Commits blake3 cfg r a spool target)
  refine ⟨o, hreached, fun h => ?_⟩
  have hend := hends h
  dsimp only
  rcases hcommit : commit blake3 cfg (staged cfg h r spool) r (some a) spool with ⟨e | _, h₁⟩
  · rw [hcommit] at hend
    exact ⟨hend.files, hend.db, hend.snapshots, hend.nextSnapshot, fun _ hok => by cases hok⟩
  · rw [hcommit] at hend
    rcases r.usage with e | _
    · exact ⟨hend.files, hend.db, hend.snapshots, hend.nextSnapshot, fun _ hok => by cases hok⟩
    · exact ⟨hend.files, hend.db, hend.snapshots, hend.nextSnapshot, fun _ _ => hend.ok () rfl⟩

/-- An upload touches the rows of its own scope only. -/
theorem deltaUpload_db_of_ne (h : Host) (r : UploadRequest) {scope : Scope} (hne : scope ≠ r.scope) :
    (deltaUpload blake3 cfg h r).2.db scope = h.db scope := by
  obtain ⟨o, -, hends⟩ := exists_outcome blake3 cfg r
  rw [(hends h).db]
  cases o with
  | recorded a spool target =>
      show (recordRow blake3 cfg h r target (spool.getD [])).db scope = _
      unfold recordRow
      split_ifs
      · exact Host.setDb_db_of_ne _ hne _
      · rfl
  | _ => rfl

/-! ## Restores -/

/-- The state in which a restore writes: the handlers of versions and snapshots have archived the old
bytes by then. -/
def preserved (h : Host) (r : RestoreRequest) (env : RestoreEnv) (archives : Bool) (rev : Revision)
    (target : List String) : Host :=
  if archives then archive cfg h r.scope (dbKey rev.path) target env.archiveOk else h

/-- The row entry of a restored file. -/
def restoredRow (env : RestoreEnv) (rev : Revision) (target : List String) : FileMeta :=
  restoredMeta rev.facility (pathAsStr (target.drop cfg.syncRoot.length)) rev.contentHash rev.size
    rev.nonce env.mtimeNs

theorem preserved_db (h : Host) (r : RestoreRequest) (env : RestoreEnv) (archives : Bool)
    (rev : Revision) (target : List String) :
    (preserved cfg h r env archives rev target).db = h.db := by
  unfold preserved
  split_ifs
  · exact archive_db h _ _ _ _
  · rfl

/-- The restore of one file, once its directory is there. -/
theorem restoreFile_eq (h : Host) (r : RestoreRequest) {env : RestoreEnv} (archives : Bool)
    {rev : Revision} {target : List String} (hguard : pathGuard cfg.syncRoot rev.path = .ok target)
    (hdir : env.dirOk = true) :
    restoreFile cfg h r env archives rev =
      let written := (preserved cfg h r env archives rev target).writeAs target rev.bytes env.write
      if !env.write.isDone then (.error "write failed", written)
      else
        match (h.db r.scope).upsertFileScopedVersioned (restoredRow cfg env rev target)
            ⟨r.user, r.retention⟩ env.now, env.upsertOk with
        | some db, true => (.ok (), putBlob cfg (written.setDb r.scope db) rev.contentHash rev.bytes
            env.blobOk)
        | _, _ => (.error "database error", written) := by
  rw [← preserved_db cfg h r env archives rev target]
  unfold restoreFile
  rw [hguard]
  dsimp only
  rw [hdir]
  rfl

/-- **What the restore of one file can do**: nothing; archive the old bytes; put the restored ones
into place, or a part of them where the write breaks off; and then write the row and store the bytes as
a blob. -/
theorem restoreFile_cases (h : Host) (r : RestoreRequest) (env : RestoreEnv) (archives : Bool)
    (rev : Revision) :
    (∃ e, restoreFile cfg h r env archives rev = (.error e, h)) ∨
    ∃ target, pathGuard cfg.syncRoot rev.path = .ok target ∧
      ((∃ e, restoreFile cfg h r env archives rev =
          (.error e, preserved cfg h r env archives rev target)) ∨
        (∃ content, env.write.left rev.bytes = some content ∧
          (env.write.isDone = true → (h.db r.scope).upsertFileScopedVersioned
            (restoredRow cfg env rev target) ⟨r.user, r.retention⟩ env.now = none ∨
              env.upsertOk = false) ∧
          ∃ e, restoreFile cfg h r env archives rev =
            (.error e, (preserved cfg h r env archives rev target).write target content)) ∨
        ∃ db, env.write.left rev.bytes = some rev.bytes ∧
          (h.db r.scope).upsertFileScopedVersioned (restoredRow cfg env rev target)
            ⟨r.user, r.retention⟩ env.now = some db ∧
          restoreFile cfg h r env archives rev = (.ok (), putBlob cfg
            (((preserved cfg h r env archives rev target).write target rev.bytes).setDb r.scope db)
            rev.contentHash rev.bytes env.blobOk)) := by
  rcases hguard : pathGuard cfg.syncRoot rev.path with e | target
  · left
    refine ⟨"invalid path", ?_⟩
    unfold restoreFile
    rw [hguard]
  rcases hdir : env.dirOk with _ | _
  · left
    refine ⟨"write failed", ?_⟩
    unfold restoreFile
    rw [hguard]
    simp [hdir]
  right
  refine ⟨target, rfl, ?_⟩
  rw [restoreFile_eq cfg h r archives hguard hdir]
  rcases env.write with _ | n | _
  · exact Or.inl ⟨_, rfl⟩
  · exact Or.inr (Or.inl ⟨_, rfl, nofun, _, rfl⟩)
  right
  rcases (h.db r.scope).upsertFileScopedVersioned (restoredRow cfg env rev target)
    ⟨r.user, r.retention⟩ env.now with _ | db
  · exact Or.inl ⟨_, rfl, fun _ => Or.inl rfl, _, rfl⟩
  · rcases env.upsertOk with _ | _
    · exact Or.inl ⟨_, rfl, fun _ => Or.inr rfl, _, rfl⟩
    · exact Or.inr ⟨db, rfl, rfl, rfl⟩

/-- What the restore of a recorded revision has found. -/
theorem of_planVersion {h : Host} {r : RestoreRequest} {rawPath : String} {versionId : ℕ}
    {rev : Revision} (hplan : planVersion cfg h r rawPath versionId = .ok rev) :
    ∃ v, normalizeRelPath rawPath = .ok rev.path ∧
      (h.db r.scope).getFileVersion (dbKey rev.path) versionId = some v ∧
      getBlob cfg h v.contentHash = some rev.bytes ∧ rev.contentHash = v.contentHash ∧
      rev.size = v.size := by
  unfold planVersion at hplan
  rcases hpath : normalizeRelPath rawPath with e | path
  · rw [hpath] at hplan
    cases hplan
  rw [hpath] at hplan
  simp only [bind, Except.bind, pure, Except.pure, throw, throwThe, MonadExceptOf.throw] at hplan
  rcases hadm : r.admitted with e | u
  · rw [hadm] at hplan
    split_ifs at hplan
  rw [hadm] at hplan
  split_ifs at hplan
  rcases hversion : (h.db r.scope).getFileVersion (dbKey path) versionId with _ | v
  · rw [hversion] at hplan
    cases hplan
  rw [hversion] at hplan
  dsimp only at hplan
  rcases hblob : getBlob cfg h v.contentHash with _ | bytes
  · rw [hblob] at hplan
    cases hplan
  rw [hblob] at hplan
  dsimp only at hplan
  split_ifs at hplan
  cases hplan
  exact ⟨v, rfl, hversion, hblob, rfl, rfl⟩

/-- What the restore of a trashed file has found. -/
theorem of_planTrash {h : Host} {r : RestoreRequest} {rawPath : String} {rev : Revision}
    (hplan : planTrash blake3 cfg h r rawPath = .ok rev) :
    ∃ m, normalizeRelPath rawPath = .ok rev.path ∧
      (h.db r.scope).getFileScoped (dbKey rev.path) = some m ∧
      resolveBlob blake3 cfg h r.scope (dbKey rev.path) m.contentHash m.versionId =
        some rev.bytes ∧ rev.contentHash = m.contentHash ∧ rev.size = m.size := by
  unfold planTrash at hplan
  rcases hpath : normalizeRelPath rawPath with e | path
  · rw [hpath] at hplan
    cases hplan
  rw [hpath] at hplan
  simp only [bind, Except.bind, pure, Except.pure, throw, throwThe, MonadExceptOf.throw] at hplan
  rcases hadm : r.admitted with e | u
  · rw [hadm] at hplan
    cases hplan
  rw [hadm] at hplan
  dsimp only at hplan
  rcases hrow : (h.db r.scope).getFileScoped (dbKey path) with _ | m
  · rw [hrow] at hplan
    cases hplan
  rw [hrow] at hplan
  dsimp only at hplan
  split_ifs at hplan
  rcases hblob : resolveBlob blake3 cfg h r.scope (dbKey path) m.contentHash m.versionId with _ |
    bytes
  · rw [hblob] at hplan
    cases hplan
  rw [hblob] at hplan
  cases hplan
  exact ⟨m, rfl, hrow, hblob, rfl, rfl⟩

/-- What the restore of a snapshot has found for a file. -/
theorem of_planSnapshotFile {h : Host} {r : RestoreRequest} {entry : SnapshotFile} {rev : Revision}
    (hplan : planSnapshotFile blake3 cfg h r entry = some rev) :
    resolveBlob blake3 cfg h r.scope entry.path entry.contentHash
        (if entry.versionId = 0 then none else some entry.versionId) = some rev.bytes ∧
      rev.path = pathString entry.path ∧ rev.contentHash = entry.contentHash ∧
      rev.size = entry.size := by
  unfold planSnapshotFile at hplan
  obtain ⟨-, hfound⟩ := Option.ite_none_left_eq_some.mp hplan
  obtain ⟨bytes, hblob, rfl⟩ := Option.map_eq_some_iff.mp hfound
  exact ⟨hblob, rfl, rfl, rfl⟩

/-! ## Where a request writes

The writes of a request to the files, as a set of locations and bytes that depends on the state
before it. Temporary files are not among them. -/

/-- The writes of archiving: the old bytes of the target, under the hash that the row remembers. -/
def ArchiveWrites (h : Host) (scope : Scope) (key : Path) (target : List String) (ok : Bool)
    (loc : List String) (bytes : Bytes) : Prop :=
  ∃ hash, Archives cfg h scope key target ok hash bytes ∧ loc = blobLoc cfg hash

/-- The writes of an upload. -/
def UploadWrites (h : Host) (r : UploadRequest) (loc : List String) (bytes : Bytes) : Prop :=
  (∃ a spool, Quarantines blake3 cfg r a spool ∧ loc = quarantineLoc cfg r a.path ∧
    bytes = spool.getD []) ∨
  ∃ a spool target, Commits blake3 cfg r a spool target ∧
    (ArchiveWrites cfg h r.scope (dbKey a.path) target r.archiveOk loc bytes ∨
      loc = target ∧ bytes = spool.getD [])

/-- The writes of the restore of one file. -/
def RestoreWrites (h : Host) (r : RestoreRequest) (env : RestoreEnv) (archives : Bool)
    (rev : Revision) (loc : List String) (bytes : Bytes) : Prop :=
  ∃ target, pathGuard cfg.syncRoot rev.path = .ok target ∧
    (archives = true ∧ ArchiveWrites cfg h r.scope (dbKey rev.path) target env.archiveOk loc bytes ∨
      loc = target ∧ env.write.left rev.bytes = some bytes ∨
      getBlob cfg h rev.contentHash = none ∧ loc = blobLoc cfg rev.contentHash ∧ bytes = rev.bytes)

/-- The writes of a restore that looks up one file. -/
def PlannedWrites (h : Host) (r : RestoreRequest) (archives : Bool) (plan : Except String Revision)
    (loc : List String) (bytes : Bytes) : Prop :=
  ∃ rev, plan = .ok rev ∧ RestoreWrites cfg h r (r.env 0) archives rev loc bytes

/-- The writes of the loop over the files of a snapshot, each in the state that it finds. -/
def SnapshotWrites (h : Host) (r : RestoreRequest) :
    ℕ → List SnapshotFile → List String → Bytes → Prop
  | _, [], _, _ => False
  | i, entry :: rest, loc, bytes =>
    (∃ rev, planSnapshotFile blake3 cfg h r entry = some rev ∧
      RestoreWrites cfg h r (r.env i) true rev loc bytes) ∨
    SnapshotWrites (restoreSnapshotFile blake3 cfg h r (r.env i) entry) r (i + 1) rest loc bytes

/-- The writes of a request. -/
def RequestWrites (h : Host) (req : Request) (loc : List String) (bytes : Bytes) : Prop :=
  match req with
  | .upload r => UploadWrites blake3 cfg h r loc bytes
  | .restoreVersion r path versionId =>
    PlannedWrites cfg h r true (planVersion cfg h r path versionId) loc bytes
  | .restoreTrash r path => PlannedWrites cfg h r false (planTrash blake3 cfg h r path) loc bytes
  | .restoreSnapshot r id => ∃ files, h.snapshots.lookup id = some (r.scope, files) ∧
      (∃ u, r.admitted = .ok u) ∧ SnapshotWrites blake3 cfg h r 0 files loc bytes
  | _ => False

variable {blake3 cfg}

theorem changesBy_archive (h : Host) (scope : Scope) (key : Path) (target : List String)
    (ok : Bool) :
    Table.ChangesBy (ArchiveWrites cfg h scope key target ok) h.files
      (archive cfg h scope key target ok).files := by
  rcases archive_cases h scope key target ok with ⟨heq, -⟩ | ⟨hash, old, harch, heq⟩
  · rw [heq]
    exact .refl _ _
  · rw [heq]
    exact (Table.ChangesBy.refl _ _).insert ⟨hash, harch, rfl⟩

/-- **An upload changes files only by its writes.** -/
theorem changesBy_deltaUpload (h : Host) (r : UploadRequest) :
    Table.ChangesBy (UploadWrites blake3 cfg h r) h.files (deltaUpload blake3 cfg h r).2.files := by
  have harchive : ∀ {a spool target}, Commits blake3 cfg r a spool target →
      Table.ChangesBy (UploadWrites blake3 cfg h r) h.files
        (archive cfg h r.scope (dbKey a.path) target r.archiveOk).files := by
    intro a spool target hc
    refine (changesBy_archive h r.scope (dbKey a.path) target r.archiveOk).mono ?_
    intro loc bytes hw
    exact Or.inr ⟨a, spool, target, hc, Or.inl hw⟩
  have hplaced : ∀ {a spool target}, Commits blake3 cfg r a spool target →
      Table.ChangesBy (UploadWrites blake3 cfg h r) h.files (placed cfg h r a spool target).files := by
    intro a spool target hc
    exact (harchive hc).insert (Or.inr ⟨a, spool, target, hc, Or.inr ⟨rfl, rfl⟩⟩)
  obtain ⟨o, hreached, hends⟩ := exists_outcome blake3 cfg r
  rw [(hends h).files]
  cases o with
  | nothing => exact .refl _ _
  | quarantined a spool =>
      exact (Table.ChangesBy.refl _ _).insert (Or.inl ⟨a, spool, hreached, rfl, rfl⟩)
  | archived a spool target => exact harchive hreached
  | unrecorded a spool target => exact hplaced hreached
  | recorded a spool target => exact hplaced hreached

/-- Files are never removed by archiving and writing. -/
theorem lookup_write_eq_none {h : Host} {loc loc' : List String} {bytes : Bytes}
    (hnone : (h.write loc bytes).files.lookup loc' = none) : h.files.lookup loc' = none := by
  rw [Host.write_files, Table.lookup_insert_eq_ite] at hnone
  split_ifs at hnone
  exact hnone

theorem lookup_archive_eq_none {h : Host} {scope : Scope} {key : Path} {target loc : List String}
    {ok : Bool} (hnone : (archive cfg h scope key target ok).files.lookup loc = none) :
    h.files.lookup loc = none := by
  rcases archive_cases h scope key target ok with ⟨heq, -⟩ | ⟨hash, old, -, heq⟩
  · rwa [heq] at hnone
  · rw [heq] at hnone
    exact lookup_write_eq_none hnone

/-- **The restore of one file changes files only by its writes.** -/
theorem changesBy_restoreFile (h : Host) (r : RestoreRequest) (env : RestoreEnv) (archives : Bool)
    (rev : Revision) :
    Table.ChangesBy (RestoreWrites cfg h r env archives rev) h.files
      (restoreFile cfg h r env archives rev).2.files := by
  rcases restoreFile_cases cfg h r env archives rev with ⟨e, heq⟩ | ⟨target, hguard, hcase⟩
  · rw [heq]
    exact .refl _ _
  have hpreserved : Table.ChangesBy (RestoreWrites cfg h r env archives rev) h.files
      (preserved cfg h r env archives rev target).files := by
    unfold preserved
    split_ifs with harch
    · refine (changesBy_archive h r.scope (dbKey rev.path) target env.archiveOk).mono ?_
      intro loc bytes hw
      exact ⟨target, hguard, Or.inl ⟨harch, hw⟩⟩
    · exact .refl _ _
  have hwritten : ∀ content, env.write.left rev.bytes = some content →
      Table.ChangesBy (RestoreWrites cfg h r env archives rev) h.files
        ((preserved cfg h r env archives rev target).write target content).files := fun content hleft =>
    hpreserved.insert ⟨target, hguard, Or.inr (Or.inl ⟨rfl, hleft⟩)⟩
  have hbefore : ∀ loc,
      ((preserved cfg h r env archives rev target).write target rev.bytes).files.lookup loc = none →
        h.files.lookup loc = none := by
    intro loc hnone
    have hnone' := lookup_write_eq_none hnone
    unfold preserved at hnone'
    split_ifs at hnone'
    · exact lookup_archive_eq_none hnone'
    · exact hnone'
  rcases hcase with ⟨e, heq⟩ | ⟨content, hleft, -, e, heq⟩ | ⟨db, hleft, -, heq⟩
  · rw [heq]
    exact hpreserved
  · rw [heq]
    exact hwritten content hleft
  · rw [heq]
    rcases putBlob_cases (((preserved cfg h r env archives rev target).write target
      rev.bytes).setDb r.scope db) rev.contentHash rev.bytes env.blobOk with
      ⟨hput, -⟩ | ⟨hput, hnone, -⟩
    · rw [hput]
      exact hwritten _ hleft
    · rw [hput]
      exact (hwritten _ hleft).insert
        ⟨target, hguard, Or.inr (Or.inr ⟨hbefore _ hnone, rfl, rfl⟩)⟩

/-- A planned restore changes files only by its writes. -/
theorem changesBy_restorePlanned (h : Host) (r : RestoreRequest) (archives : Bool)
    (plan : Except String Revision) :
    Table.ChangesBy (PlannedWrites cfg h r archives plan) h.files
      (restorePlanned cfg h r archives plan).2.files := by
  rcases plan with e | rev
  · exact .refl _ _
  · refine (changesBy_restoreFile h r (r.env 0) archives rev).mono ?_
    intro loc bytes hw
    exact ⟨rev, rfl, hw⟩

/-- The loop over a snapshot changes files only by its writes. -/
theorem changesBy_restoreSnapshotFiles (h : Host) (r : RestoreRequest) (i : ℕ)
    (files : List SnapshotFile) :
    Table.ChangesBy (SnapshotWrites blake3 cfg h r i files) h.files
      (restoreSnapshotFiles blake3 cfg h r i files).files := by
  induction files generalizing h i with
  | nil => exact .refl _ _
  | cons entry rest ih =>
      have hfirst : Table.ChangesBy (SnapshotWrites blake3 cfg h r i (entry :: rest)) h.files
          (restoreSnapshotFile blake3 cfg h r (r.env i) entry).files := by
        unfold restoreSnapshotFile
        rcases hplan : planSnapshotFile blake3 cfg h r entry with _ | rev
        · exact .refl _ _
        · refine (changesBy_restoreFile h r (r.env i) true rev).mono ?_
          intro loc bytes hw
          exact Or.inl ⟨rev, hplan, hw⟩
      refine hfirst.trans ((ih _ (i + 1)).mono ?_)
      intro loc bytes hw
      exact Or.inr hw

/-- **A request changes files only by its writes.** -/
theorem changesBy_serve (h : Host) (req : Request) :
    Table.ChangesBy (RequestWrites blake3 cfg h req) h.files (serve blake3 cfg h req).files := by
  cases req with
  | upload r => exact changesBy_deltaUpload h r
  | download r => exact .refl _ _
  | exchange r =>
      have hsame : (exchange h r).2.files = h.files := by
        unfold exchange
        rcases r.admitted with e | _
        · rfl
        · rcases exchangeState r.share (h.db (r.tenant, r.share)) r.call with e | ⟨response, db⟩
          · rfl
          · rfl
      show Table.ChangesBy _ _ (exchange h r).2.files
      rw [hsame]
      exact .refl _ _
  | restoreVersion r path versionId => exact changesBy_restorePlanned h r true _
  | restoreTrash r path => exact changesBy_restorePlanned h r false _
  | createSnapshot scope admitted kept =>
      show Table.ChangesBy _ _ (createSnapshot h scope admitted kept).2.files
      unfold createSnapshot
      rcases admitted with e | _
      · exact .refl _ _
      · exact .refl _ _
  | restoreSnapshot r id =>
      show Table.ChangesBy _ _ (restoreSnapshot blake3 cfg h r id).2.files
      unfold restoreSnapshot
      rcases hadm : r.admitted with e | u
      · exact .refl _ _
      · rcases hsnap : h.snapshots.lookup id with _ | ⟨scope, files⟩
        · exact .refl _ _
        · dsimp only
          split_ifs with hscope
          · subst hscope
            refine (changesBy_restoreSnapshotFiles h r 0 files).mono ?_
            intro loc bytes hw
            exact ⟨files, hsnap, ⟨u, hadm⟩, hw⟩
          · exact .refl _ _

end

end DiskArcana.Hosting
