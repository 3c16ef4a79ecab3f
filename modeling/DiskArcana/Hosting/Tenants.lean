import DiskArcana.Lib.Trace
import DiskArcana.Hosting.Effects

/-!
# What one tenant can see of another

Rows are scoped by tenant, files are not: a share's root depends on its name only, and the content
store is one for all. So the downloads and exchanges of one tenant depend on another's requests
exactly through the files. If no request of another tenant writes where a later request of ours
reads, and the ids of snapshots are not shifted under ours, deleting the other's requests changes none
of our answers (`tenant_noninterference`).
-/

namespace DiskArcana.Hosting

open DiskArcana.Core DiskArcana.Lib DiskArcana.Lib.LexicalPath DiskArcana.Server DiskArcana.System

/-! ## Requests and answers -/

/-- The tenant that a request comes from. -/
def Request.tenant : Request → Option String
  | .upload r => r.tenant
  | .download r => r.tenant
  | .exchange r => r.tenant
  | .restoreVersion r _ _ => r.tenant
  | .restoreTrash r _ => r.tenant
  | .createSnapshot scope _ _ => scope.1
  | .restoreSnapshot r _ => r.tenant

/-- The request takes a snapshot id. -/
def Request.CreatesSnapshot : Request → Prop
  | .createSnapshot _ _ _ => True
  | _ => False

/-- The request names a snapshot id. -/
def Request.RestoresSnapshot : Request → Prop
  | .restoreSnapshot _ _ => True
  | _ => False

/-- What `delta_download` and `exchange_state` return. -/
inductive Response where
  | download (answer : Except String Bytes)
  | exchange (answer : Except String SyncStateResponse)
  deriving DecidableEq

section

variable (blake3 : Bytes → Digest) (cfg : HostConfig)

/-- The answer to a download or an exchange. -/
def respond (h : Host) : Request → Option Response
  | .download r => some (.download (deltaDownload cfg h r))
  | .exchange r => some (.exchange (exchange h r).1)
  | _ => none

/-- The answers that a tenant gets in a run, in order. -/
def responses (tenant : Option String) (h : Host) (reqs : List Request) : List Response :=
  (Trace.history (serve blake3 cfg) h reqs).filterMap fun x =>
    if x.2.tenant = tenant then respond cfg x.1 x.2 else none

/-! ## Where a request reads -/

/-- Archiving reads the target and the place of the hash that the row remembers. -/
def ArchiveReads (h : Host) (scope : Scope) (key : Path) (target loc : List String) : Prop :=
  ∃ m, (h.db scope).getFileScoped key = some m ∧ (loc = target ∨ loc = blobLoc cfg m.contentHash)

/-- The lookup of a recorded revision may read its blob, that of the version row with its number, and
the file below `sync_root`. -/
def ResolveReads (h : Host) (scope : Scope) (key : Path) (hash : Digest) (versionId : Option ℕ)
    (loc : List String) : Prop :=
  loc = blobLoc cfg hash ∨
    (∃ v, versionId.bind ((h.db scope).getFileVersion key) = some v ∧
      loc = blobLoc cfg v.contentHash) ∨
    loc = resolve cfg.syncRoot (components (pathString key))

/-- The restore of one file reads what it archives and the place of the restored hash. -/
def RestoreReads (h : Host) (r : RestoreRequest) (archives : Bool) (rev : Revision)
    (loc : List String) : Prop :=
  (archives = true ∧ ∃ target, pathGuard cfg.syncRoot rev.path = .ok target ∧
    ArchiveReads cfg h r.scope (dbKey rev.path) target loc) ∨
  loc = blobLoc cfg rev.contentHash

/-- The loop over the files of a snapshot, each in the state that it finds. -/
def SnapshotReads (h : Host) (r : RestoreRequest) : ℕ → List SnapshotFile → List String → Prop
  | _, [], _ => False
  | i, entry :: rest, loc =>
    ResolveReads cfg h r.scope entry.path entry.contentHash
        (if entry.versionId = 0 then none else some entry.versionId) loc ∨
      (∃ rev, planSnapshotFile blake3 cfg h r entry = some rev ∧
        RestoreReads cfg h r true rev loc) ∨
      SnapshotReads (restoreSnapshotFile blake3 cfg h r (r.env i) entry) r (i + 1) rest loc

/-- The files that a request reads. -/
def RequestReads (h : Host) : Request → List String → Prop
  | .upload r, loc => ∃ a spool target, Commits blake3 cfg r a spool target ∧
      ArchiveReads cfg h r.scope (dbKey a.path) target loc
  | .download r, loc => pathGuard (cfg.rootFor r.share) r.path = .ok loc
  | .exchange _, _ => False
  | .restoreVersion r path versionId, loc =>
    (∃ rel v, normalizeRelPath path = .ok rel ∧
      (h.db r.scope).getFileVersion (dbKey rel) versionId = some v ∧
        loc = blobLoc cfg v.contentHash) ∨
    ∃ rev, planVersion cfg h r path versionId = .ok rev ∧ RestoreReads cfg h r true rev loc
  | .restoreTrash r path, loc =>
    (∃ rel m, normalizeRelPath path = .ok rel ∧ (h.db r.scope).getFileScoped (dbKey rel) = some m ∧
      ResolveReads cfg h r.scope (dbKey rel) m.contentHash m.versionId loc) ∨
    ∃ rev, planTrash blake3 cfg h r path = .ok rev ∧ RestoreReads cfg h r false rev loc
  | .createSnapshot _ _ _, _ => False
  | .restoreSnapshot r id, loc => ∃ files, h.snapshots.lookup id = some (r.scope, files) ∧
      SnapshotReads blake3 cfg h r 0 files loc

/-! ## Isolated runs -/

/-- A step may show in a later one: it writes a file that the later one reads, or takes a snapshot id
before the later one names one. -/
def Shows (x y : Host × Request) : Prop :=
  (∃ loc bytes, RequestWrites blake3 cfg x.1 x.2 loc bytes ∧ RequestReads blake3 cfg y.1 y.2 loc) ∨
    x.2.CreatesSnapshot ∧ y.2.RestoresSnapshot

/-- No step of a tenant outside `K` may show in a later step of one in `K`. -/
def Isolated (K : Option String → Prop) (h : Host) (reqs : List Request) : Prop :=
  (Trace.history (serve blake3 cfg) h reqs).Pairwise fun x y =>
    ¬ K x.2.tenant → K y.2.tenant → ¬ Shows blake3 cfg x y

/-- Two states look alike to the tenants of `K`: on the files in `R`, in their rows and, if `S`, in
the snapshots. -/
structure SameView (K : Option String → Prop) (R : List String → Prop) (S : Prop) (h h' : Host) :
    Prop where
  files : ∀ loc, R loc → h'.files.lookup loc = h.files.lookup loc
  db : ∀ scope : Scope, K scope.1 → h'.db scope = h.db scope
  snapshots : S → h'.snapshots = h.snapshots ∧ h'.nextSnapshot = h.nextSnapshot

variable {blake3 cfg}

/-! ## Steps of ours -/

namespace SameView

variable {K : Option String → Prop} {R R' : List String → Prop} {S S' : Prop} {h h' : Host}

theorem refl (K : Option String → Prop) (R : List String → Prop) (S : Prop) (h : Host) :
    SameView K R S h h :=
  ⟨fun _ _ => rfl, fun _ _ => rfl, fun _ => ⟨rfl, rfl⟩⟩

theorem mono (hV : SameView K R S h h') (hR : ∀ loc, R' loc → R loc) (hS : S' → S) :
    SameView K R' S' h h' :=
  ⟨fun loc hloc => hV.files loc (hR loc hloc), hV.db, fun hs => hV.snapshots (hS hs)⟩

theorem write (hV : SameView K R S h h') (loc : List String) (bytes : Bytes) :
    SameView K R S (h.write loc bytes) (h'.write loc bytes) := by
  refine ⟨?_, hV.db, hV.snapshots⟩
  intro l hl
  rw [Host.write_files, Host.write_files, Table.lookup_insert_eq_ite, Table.lookup_insert_eq_ite]
  split_ifs
  · rfl
  · exact hV.files l hl

theorem setDb (hV : SameView K R S h h') (scope : Scope) (db : MetaDb) :
    SameView K R S (h.setDb scope db) (h'.setDb scope db) := by
  refine ⟨hV.files, ?_, hV.snapshots⟩
  intro other hK
  by_cases heq : other = scope
  · rw [heq, Host.setDb_db_self, Host.setDb_db_self]
  · rw [Host.setDb_db_of_ne _ heq, Host.setDb_db_of_ne _ heq]
    exact hV.db other hK

theorem putBlob (hV : SameView K R S h h') {hash : Digest} (hR : R (blobLoc cfg hash))
    (bytes : Bytes) (ok : Bool) :
    SameView K R S (putBlob cfg h hash bytes ok) (putBlob cfg h' hash bytes ok) := by
  have hget : getBlob cfg h' hash = getBlob cfg h hash := hV.files _ hR
  unfold Hosting.putBlob
  rw [hget]
  split_ifs
  · exact hV
  · exact hV.write _ _

theorem archive (hV : SameView K R S h h') {scope : Scope} (hK : K scope.1) {key : Path}
    {target : List String} (hR : ∀ loc, ArchiveReads cfg h scope key target loc → R loc)
    (ok : Bool) :
    SameView K R S (archive cfg h scope key target ok) (archive cfg h' scope key target ok) := by
  unfold Hosting.archive
  rw [hV.db scope hK]
  rcases hrow : (h.db scope).getFileScoped key with _ | m
  · rcases h.files.lookup target with _ | old
    · rcases h'.files.lookup target with _ | old'
      · exact hV
      · exact hV
    · rcases h'.files.lookup target with _ | old'
      · exact hV
      · exact hV
  · rw [hV.files target (hR target ⟨m, hrow, Or.inl rfl⟩)]
    rcases h.files.lookup target with _ | old
    · exact hV
    · exact hV.putBlob (hR _ ⟨m, hrow, Or.inr rfl⟩) old ok

/-- **An upload of ours.** -/
theorem deltaUpload (hV : SameView K R S h h') {r : UploadRequest} (hK : K r.tenant)
    (hR : ∀ loc, RequestReads blake3 cfg h (.upload r) loc → R loc) :
    SameView K R S (deltaUpload blake3 cfg h r).2 (deltaUpload blake3 cfg h' r).2 := by
  obtain ⟨o, hreached, hends⟩ := exists_outcome blake3 cfg r
  have harchive : ∀ {a spool target}, Commits blake3 cfg r a spool target →
      SameView K R S (Hosting.archive cfg h r.scope (dbKey a.path) target r.archiveOk)
        (Hosting.archive cfg h' r.scope (dbKey a.path) target r.archiveOk) := by
    intro a spool target hc
    exact hV.archive hK (fun loc hloc => hR loc ⟨a, spool, target, hc, hloc⟩) _
  refine ⟨?_, ?_, ?_⟩
  · rw [(hends h).files, (hends h').files]
    cases o with
    | nothing => exact hV.files
    | quarantined a spool => exact (hV.write _ _).files
    | archived a spool target => exact (harchive hreached).files
    | unrecorded a spool target => exact ((harchive hreached).write _ _).files
    | recorded a spool target => exact ((harchive hreached).write _ _).files
  · rw [(hends h).db, (hends h').db]
    cases o with
    | nothing => exact hV.db
    | quarantined a spool => exact hV.db
    | archived a spool target => exact hV.db
    | unrecorded a spool target => exact hV.db
    | recorded a spool target =>
        show ∀ scope : Scope, K scope.1 → (recordRow blake3 cfg h' r target (spool.getD [])).db scope =
          (recordRow blake3 cfg h r target (spool.getD [])).db scope
        unfold recordRow
        rw [hV.db r.scope hK]
        split_ifs
        · exact (hV.setDb _ _).db
        · exact hV.db
  · intro hs
    rw [(hends h).snapshots, (hends h').snapshots, (hends h).nextSnapshot, (hends h').nextSnapshot]
    exact hV.snapshots hs

/-- **A restored file of ours.** -/
theorem restoreFile (hV : SameView K R S h h') {r : RestoreRequest} (hK : K r.tenant)
    {archives : Bool} {rev : Revision} (hR : ∀ loc, RestoreReads cfg h r archives rev loc → R loc)
    (env : RestoreEnv) :
    SameView K R S (restoreFile cfg h r env archives rev).2
      (restoreFile cfg h' r env archives rev).2 := by
  rcases hguard : pathGuard cfg.syncRoot rev.path with e | target
  · unfold Hosting.restoreFile
    rw [hguard]
    exact hV
  rcases hdir : env.dirOk with _ | _
  · unfold Hosting.restoreFile
    rw [hguard]
    simp only [hdir, Bool.not_false, if_true]
    exact hV
  have hpreserved : SameView K R S (preserved cfg h r env archives rev target)
      (preserved cfg h' r env archives rev target) := by
    unfold preserved
    split_ifs with harch
    · exact hV.archive hK (fun loc hloc => hR loc (Or.inl ⟨harch, target, hguard, hloc⟩)) _
    · exact hV
  rw [restoreFile_eq cfg h r archives hguard hdir, restoreFile_eq cfg h' r archives hguard hdir,
    hV.db r.scope hK]
  rcases env.write with _ | n | _
  · exact hpreserved
  · exact hpreserved.write _ _
  rcases (h.db r.scope).upsertFileScopedVersioned (restoredRow cfg env rev target)
    ⟨r.user, r.retention⟩ env.now with _ | db
  · exact hpreserved.write _ _
  · rcases env.upsertOk with _ | _
    · exact hpreserved.write _ _
    · exact ((hpreserved.write _ _).setDb _ _).putBlob (hR _ (Or.inr rfl)) _ _

theorem restorePlanned (hV : SameView K R S h h') {r : RestoreRequest} (hK : K r.tenant)
    {archives : Bool} {plan : Except String Revision}
    (hR : ∀ rev, plan = .ok rev → ∀ loc, RestoreReads cfg h r archives rev loc → R loc) :
    SameView K R S (restorePlanned cfg h r archives plan).2
      (restorePlanned cfg h' r archives plan).2 := by
  rcases plan with e | rev
  · exact hV
  · exact hV.restoreFile hK (hR rev rfl) _

/-- States that look alike have the same bytes behind a recorded revision. -/
theorem resolveBlob_eq (hV : SameView K R S h h') {scope : Scope} (hK : K scope.1) {key : Path}
    {hash : Digest} {versionId : Option ℕ}
    (hR : ∀ loc, ResolveReads cfg h scope key hash versionId loc → R loc) :
    resolveBlob blake3 cfg h' scope key hash versionId =
      resolveBlob blake3 cfg h scope key hash versionId := by
  have hown : getBlob cfg h' hash = getBlob cfg h hash := hV.files _ (hR _ (Or.inl rfl))
  have hfile := hV.files _ (hR _ (Or.inr (Or.inr rfl)))
  unfold resolveBlob
  rw [hV.db scope hK, hown, hfile]
  rcases hversion : versionId.bind ((h.db scope).getFileVersion key) with _ | v
  · rfl
  · have hblob : getBlob cfg h' v.contentHash = getBlob cfg h v.contentHash :=
      hV.files _ (hR _ (Or.inr (Or.inl ⟨v, hversion, rfl⟩)))
    rw [Option.bind_some, Option.bind_some, hblob]

theorem planVersion_eq (hV : SameView K R S h h') {r : RestoreRequest} (hK : K r.tenant)
    {path : String} {versionId : ℕ}
    (hR : ∀ rel v, normalizeRelPath path = .ok rel →
      (h.db r.scope).getFileVersion (dbKey rel) versionId = some v → R (blobLoc cfg v.contentHash)) :
    planVersion cfg h' r path versionId = planVersion cfg h r path versionId := by
  unfold planVersion
  rw [hV.db r.scope hK]
  rcases hrel : normalizeRelPath path with e | rel
  · rfl
  · rcases hversion : (h.db r.scope).getFileVersion (dbKey rel) versionId with _ | v
    · simp only [bind, Except.bind, hversion]
    · have hblob : getBlob cfg h' v.contentHash = getBlob cfg h v.contentHash :=
        hV.files _ (hR rel v hrel hversion)
      simp only [bind, Except.bind, hversion, hblob]

theorem planTrash_eq (hV : SameView K R S h h') {r : RestoreRequest} (hK : K r.tenant)
    {path : String}
    (hR : ∀ rel m, normalizeRelPath path = .ok rel →
      (h.db r.scope).getFileScoped (dbKey rel) = some m → ∀ loc,
        ResolveReads cfg h r.scope (dbKey rel) m.contentHash m.versionId loc → R loc) :
    planTrash blake3 cfg h' r path = planTrash blake3 cfg h r path := by
  unfold planTrash
  rw [hV.db r.scope hK]
  rcases hrel : normalizeRelPath path with e | rel
  · rfl
  · rcases hrow : (h.db r.scope).getFileScoped (dbKey rel) with _ | m
    · simp only [bind, Except.bind, hrow]
    · have hfound : resolveBlob blake3 cfg h' r.scope (dbKey rel) m.contentHash m.versionId =
          resolveBlob blake3 cfg h r.scope (dbKey rel) m.contentHash m.versionId :=
        hV.resolveBlob_eq hK (hR rel m hrel hrow)
      simp only [bind, Except.bind, hrow, hfound]

/-- **The loop over a snapshot of ours.** -/
theorem restoreSnapshotFiles (hV : SameView K R S h h') {r : RestoreRequest} (hK : K r.tenant)
    {i : ℕ} {files : List SnapshotFile}
    (hR : ∀ loc, SnapshotReads blake3 cfg h r i files loc → R loc) :
    SameView K R S (restoreSnapshotFiles blake3 cfg h r i files)
      (restoreSnapshotFiles blake3 cfg h' r i files) := by
  induction files generalizing h h' i with
  | nil => exact hV
  | cons entry rest ih =>
      have hplan : planSnapshotFile blake3 cfg h' r entry = planSnapshotFile blake3 cfg h r entry := by
        have hfound : resolveBlob blake3 cfg h' r.scope entry.path entry.contentHash
              (if entry.versionId = 0 then none else some entry.versionId) =
            resolveBlob blake3 cfg h r.scope entry.path entry.contentHash
              (if entry.versionId = 0 then none else some entry.versionId) :=
          hV.resolveBlob_eq hK fun loc hloc => hR loc (Or.inl hloc)
        unfold planSnapshotFile
        rw [hfound]
      have hfirst : SameView K R S (restoreSnapshotFile blake3 cfg h r (r.env i) entry)
          (restoreSnapshotFile blake3 cfg h' r (r.env i) entry) := by
        unfold restoreSnapshotFile
        rw [hplan]
        rcases hrev : planSnapshotFile blake3 cfg h r entry with _ | rev
        · exact hV
        · exact hV.restoreFile hK
            (fun loc hloc => hR loc (Or.inr (Or.inl ⟨rev, hrev, hloc⟩))) _
      exact ih hfirst fun loc hloc => hR loc (Or.inr (Or.inr hloc))

/-- **A request of ours**: the same answer, and states that look alike again. -/
theorem serve (hV : SameView K R S h h') {req : Request} (hK : K req.tenant)
    (hR : ∀ loc, RequestReads blake3 cfg h req loc → R loc) (hS : req.RestoresSnapshot → S) :
    respond cfg h req = respond cfg h' req ∧
      SameView K R S (serve blake3 cfg h req) (serve blake3 cfg h' req) := by
  cases req with
  | upload r => exact ⟨rfl, hV.deltaUpload hK hR⟩
  | download r =>
      refine ⟨?_, hV⟩
      have hsame : deltaDownload cfg h r = deltaDownload cfg h' r := by
        unfold deltaDownload
        rcases hguard : pathGuard (cfg.rootFor r.share) r.path with e | loc
        · rfl
        · dsimp only
          rw [hV.files loc (hR loc hguard)]
      exact congrArg (fun answer => some (Response.download answer)) hsame
  | exchange r =>
      have hdb : h'.db (r.tenant, r.share) = h.db (r.tenant, r.share) := hV.db _ hK
      have hboth : (exchange h r).1 = (exchange h' r).1 ∧
          SameView K R S (exchange h r).2 (exchange h' r).2 := by
        unfold exchange
        rw [hdb]
        rcases r.admitted with e | _
        · exact ⟨rfl, hV⟩
        · rcases exchangeState r.share (h.db (r.tenant, r.share)) r.call with e | ⟨response, db⟩
          · exact ⟨rfl, hV⟩
          · exact ⟨rfl, hV.setDb _ _⟩
      exact ⟨congrArg (fun answer => some (Response.exchange answer)) hboth.1, hboth.2⟩
  | restoreVersion r path versionId =>
      have hplan : planVersion cfg h' r path versionId = planVersion cfg h r path versionId :=
        hV.planVersion_eq hK fun rel v hrel hv => hR _ (Or.inl ⟨rel, v, hrel, hv, rfl⟩)
      refine ⟨rfl, ?_⟩
      show SameView K R S (restoreVersion cfg h r path versionId).2
        (restoreVersion cfg h' r path versionId).2
      unfold restoreVersion
      rw [hplan]
      exact hV.restorePlanned hK fun rev hrev loc hloc => hR loc (Or.inr ⟨rev, hrev, hloc⟩)
  | restoreTrash r path =>
      have hplan : planTrash blake3 cfg h' r path = planTrash blake3 cfg h r path :=
        hV.planTrash_eq hK fun rel m hrel hm loc hloc => hR loc (Or.inl ⟨rel, m, hrel, hm, hloc⟩)
      refine ⟨rfl, ?_⟩
      show SameView K R S (restoreTrash blake3 cfg h r path).2 (restoreTrash blake3 cfg h' r path).2
      unfold restoreTrash
      rw [hplan]
      exact hV.restorePlanned hK fun rev hrev loc hloc => hR loc (Or.inr ⟨rev, hrev, hloc⟩)
  | createSnapshot scope admitted kept =>
      refine ⟨rfl, ?_⟩
      show SameView K R S (createSnapshot h scope admitted kept).2
        (createSnapshot h' scope admitted kept).2
      unfold createSnapshot
      rcases admitted with e | _
      · exact hV
      · refine ⟨hV.files, hV.db, ?_⟩
        intro hs
        obtain ⟨hsnap, hnext⟩ := hV.snapshots hs
        simp only [hsnap, hnext, hV.db scope hK, and_self]
  | restoreSnapshot r id =>
      obtain ⟨hsnap, -⟩ := hV.snapshots (hS trivial)
      refine ⟨rfl, ?_⟩
      show SameView K R S (restoreSnapshot blake3 cfg h r id).2
        (restoreSnapshot blake3 cfg h' r id).2
      unfold restoreSnapshot
      rw [hsnap]
      rcases r.admitted with e | _
      · exact hV
      · rcases hlookup : h.snapshots.lookup id with _ | ⟨scope, files⟩
        · exact hV
        · dsimp only
          split_ifs with hscope
          · subst hscope
            exact hV.restoreSnapshotFiles hK fun loc hloc => hR loc ⟨files, hlookup, hloc⟩
          · exact hV

end SameView

/-! ## Steps of others -/

/-- The rows of other tenants, and the snapshots, are as they were. -/
structure Frame (tenant : Option String) (h h' : Host) : Prop where
  db : ∀ scope : Scope, scope.1 ≠ tenant → h'.db scope = h.db scope
  snapshots : h'.snapshots = h.snapshots
  nextSnapshot : h'.nextSnapshot = h.nextSnapshot

namespace Frame

variable {tenant : Option String} {h h₁ h₂ : Host}

theorem refl (tenant : Option String) (h : Host) : Frame tenant h h := ⟨fun _ _ => rfl, rfl, rfl⟩

theorem trans (hf : Frame tenant h h₁) (hf' : Frame tenant h₁ h₂) : Frame tenant h h₂ :=
  ⟨fun scope hne => (hf'.db scope hne).trans (hf.db scope hne), hf'.snapshots.trans hf.snapshots,
    hf'.nextSnapshot.trans hf.nextSnapshot⟩

theorem setDb (hf : Frame tenant h h₁) (vault : String) (db : MetaDb) :
    Frame tenant h (h₁.setDb (tenant, vault) db) := by
  refine ⟨?_, hf.snapshots, hf.nextSnapshot⟩
  intro scope hne
  rw [Host.setDb_db_of_ne _ fun heq => hne (congrArg Prod.fst heq)]
  exact hf.db scope hne

theorem putBlob (hf : Frame tenant h h₁) (hash : Digest) (bytes : Bytes) (ok : Bool) :
    Frame tenant h (putBlob cfg h₁ hash bytes ok) := by
  unfold Hosting.putBlob
  split_ifs
  · exact hf
  · exact ⟨hf.db, hf.snapshots, hf.nextSnapshot⟩

theorem archive (tenant : Option String) (h : Host) (scope : Scope) (key : Path)
    (target : List String) (ok : Bool) :
    Frame tenant h (archive cfg h scope key target ok) :=
  ⟨fun _ _ => congrFun (archive_db h scope key target ok) _, archive_snapshots h _ _ _ _,
    archive_nextSnapshot cfg h _ _ _ _⟩

theorem restoreFile (h : Host) (r : RestoreRequest) (env : RestoreEnv) (archives : Bool)
    (rev : Revision) : Frame r.tenant h (restoreFile cfg h r env archives rev).2 := by
  have hpreserved : ∀ target, Frame r.tenant h (preserved cfg h r env archives rev target) := by
    intro target
    unfold preserved
    split_ifs
    · exact Frame.archive _ h _ _ _ _
    · exact .refl _ h
  have hwritten : ∀ target content, Frame r.tenant h
      ((preserved cfg h r env archives rev target).write target content) := by
    intro target content
    exact ⟨(hpreserved target).db, (hpreserved target).snapshots, (hpreserved target).nextSnapshot⟩
  rcases restoreFile_cases cfg h r env archives rev with
    ⟨e, heq⟩ | ⟨target, -, ⟨e, heq⟩ | ⟨content, -, -, e, heq⟩ | ⟨db, -, -, heq⟩⟩
  · rw [heq]
    exact .refl _ h
  · rw [heq]
    exact hpreserved target
  · rw [heq]
    exact hwritten target content
  · rw [heq]
    exact ((hwritten target rev.bytes).setDb r.vault db).putBlob _ _ _

theorem restorePlanned (h : Host) (r : RestoreRequest) (archives : Bool)
    (plan : Except String Revision) :
    Frame r.tenant h (restorePlanned cfg h r archives plan).2 := by
  rcases plan with e | rev
  · exact .refl _ h
  · exact .restoreFile h r _ archives rev

theorem restoreSnapshotFiles (h : Host) (r : RestoreRequest) (i : ℕ) (files : List SnapshotFile) :
    Frame r.tenant h (restoreSnapshotFiles blake3 cfg h r i files) := by
  induction files generalizing h i with
  | nil => exact .refl _ h
  | cons entry rest ih =>
      have hfirst : Frame r.tenant h (restoreSnapshotFile blake3 cfg h r (r.env i) entry) := by
        unfold restoreSnapshotFile
        rcases planSnapshotFile blake3 cfg h r entry with _ | rev
        · exact .refl _ h
        · exact .restoreFile h r _ true rev
      exact hfirst.trans (ih _ (i + 1))

/-- **A request touches its own tenant's rows only**, and only a snapshot request the snapshots. -/
theorem serve (h : Host) {req : Request} (hreq : ¬ req.CreatesSnapshot) :
    Frame req.tenant h (serve blake3 cfg h req) := by
  cases req with
  | upload r =>
      obtain ⟨o, -, hends⟩ := exists_outcome blake3 cfg r
      refine ⟨?_, (hends h).snapshots, (hends h).nextSnapshot⟩
      intro scope hne
      exact deltaUpload_db_of_ne blake3 cfg h r fun heq => hne (congrArg Prod.fst heq)
  | download r => exact .refl _ h
  | exchange r =>
      show Frame r.tenant h (exchange h r).2
      unfold exchange
      rcases r.admitted with e | _
      · exact .refl _ h
      · rcases exchangeState r.share (h.db (r.tenant, r.share)) r.call with e | ⟨response, db⟩
        · exact .refl _ h
        · exact (Frame.refl r.tenant h).setDb r.share db
  | restoreVersion r path versionId => exact .restorePlanned h r true _
  | restoreTrash r path => exact .restorePlanned h r false _
  | createSnapshot scope admitted kept => exact absurd trivial hreq
  | restoreSnapshot r id =>
      show Frame r.tenant h (restoreSnapshot blake3 cfg h r id).2
      unfold restoreSnapshot
      rcases r.admitted with e | _
      · exact .refl _ h
      · rcases h.snapshots.lookup id with _ | ⟨scope, files⟩
        · exact .refl _ h
        · dsimp only
          split_ifs
          · exact .restoreSnapshotFiles h r 0 files
          · exact .refl _ h

end Frame

/-- **A request of another tenant** that writes nothing we read. -/
theorem SameView.of_other {K : Option String → Prop} {R : List String → Prop} {S : Prop}
    {h h' : Host} (hV : SameView K R S h h') {req : Request} (hK : ¬ K req.tenant)
    (hR : ∀ loc bytes, RequestWrites blake3 cfg h req loc bytes → ¬ R loc)
    (hS : req.CreatesSnapshot → ¬ S) : SameView K R S (Hosting.serve blake3 cfg h req) h' := by
  have hfiles : ∀ loc, R loc → h'.files.lookup loc =
      (Hosting.serve blake3 cfg h req).files.lookup loc := by
    intro loc hloc
    rw [(changesBy_serve h req).lookup_eq fun bytes hw => hR loc bytes hw hloc]
    exact hV.files loc hloc
  have hne : ∀ scope : Scope, K scope.1 → scope.1 ≠ req.tenant := by
    intro scope hscope heq
    rw [heq] at hscope
    exact hK hscope
  by_cases hcreate : req.CreatesSnapshot
  · refine ⟨hfiles, ?_, fun hs => absurd hs (hS hcreate)⟩
    intro scope hscope
    cases req with
    | createSnapshot target admitted kept =>
        rw [hV.db scope hscope]
        show h.db scope = (createSnapshot h target admitted kept).2.db scope
        unfold createSnapshot
        rcases admitted with e | _
        · rfl
        · rfl
    | _ => exact absurd hcreate id
  · have hframe : Frame req.tenant h (Hosting.serve blake3 cfg h req) := .serve h hcreate
    refine ⟨hfiles, ?_, ?_⟩
    · intro scope hscope
      rw [hframe.db scope (hne scope hscope)]
      exact hV.db scope hscope
    · intro hs
      rw [hframe.snapshots, hframe.nextSnapshot]
      exact hV.snapshots hs

/-! ## Runs -/

/-- **Unwinding.** What the tenants of `K` are answered does not depend on the others' requests. -/
theorem responses_eq_filter (K : Option String → Prop) [DecidablePred K] {tenant : Option String}
    (htenant : K tenant) {h : Host} {reqs : List Request} (hrun : Isolated blake3 cfg K h reqs) :
    responses blake3 cfg tenant h reqs =
      responses blake3 cfg tenant h (reqs.filter fun req => decide (K req.tenant)) := by
  unfold responses
  refine Trace.filterMap_history_filter (fun req => decide (K req.tenant))
    (fun h req => if req.tenant = tenant then respond cfg h req else none)
    (V := fun future h h' => SameView K
      (fun loc => ∃ y ∈ future, K y.2.tenant ∧ RequestReads blake3 cfg y.1 y.2 loc)
      (∃ y ∈ future, K y.2.tenant ∧ y.2.RestoresSnapshot) h h')
    ?_ ?_ hrun (SameView.refl _ _ _ h)
  · intro h h' req future hkept hV
    have hK : K req.tenant := of_decide_eq_true hkept
    have hboth := @SameView.serve blake3 cfg _ _ _ _ _ hV req hK
      (fun loc hloc => ⟨(h, req), List.mem_cons_self, hK, hloc⟩)
      (fun hs => ⟨(h, req), List.mem_cons_self, hK, hs⟩)
    refine ⟨?_, hboth.2.mono ?_ ?_⟩
    · rw [hboth.1]
    · rintro loc ⟨y, hy, hread⟩
      exact ⟨y, List.mem_cons_of_mem _ hy, hread⟩
    · rintro ⟨y, hy, hs⟩
      exact ⟨y, List.mem_cons_of_mem _ hy, hs⟩
  · intro h h' req future hdropped hapart hV
    have hK : ¬ K req.tenant := of_decide_eq_false hdropped
    refine ⟨?_, ?_⟩
    · rw [if_neg]
      intro heq
      rw [heq] at hK
      exact hK htenant
    · refine SameView.of_other (hV.mono ?_ ?_) hK ?_ ?_
      · rintro loc ⟨y, hy, hread⟩
        exact ⟨y, List.mem_cons_of_mem _ hy, hread⟩
      · rintro ⟨y, hy, hs⟩
        exact ⟨y, List.mem_cons_of_mem _ hy, hs⟩
      · rintro loc bytes hw ⟨y, hy, hKy, hread⟩
        exact hapart y hy hK hKy (Or.inl ⟨loc, bytes, hw, hread⟩)
      · rintro hcreate ⟨y, hy, hKy, hs⟩
        exact hapart y hy hK hKy (Or.inr ⟨hcreate, hs⟩)

end

/-- An upload to a free place, whose stream and target are known, writes there only. -/
theorem loc_of_uploadWrites {blake3 : Bytes → Digest} {cfg : HostConfig} {h : Host}
    {r : UploadRequest} {a : Announced} {spool : Option Bytes} {target : List String} {u : Unit}
    (hstream : receiveStream blake3 cfg r none none r.stream = .ok (some a, spool))
    (hguard : pathGuard (cfg.rootFor r.share) a.path = .ok target) (hpub : r.publisher = .ok u)
    (hfree : h.files.lookup target = none) {loc : List String} {bytes : Bytes}
    (hw : UploadWrites blake3 cfg h r loc bytes) : loc = target := by
  rcases hw with ⟨a', spool', hq, -⟩ | ⟨a', spool', target', hc, hw⟩
  · obtain ⟨e, he⟩ := hq.publisher
    rw [hpub] at he
    cases he
  · have hsame := hstream.symm.trans hc.stream
    cases hsame
    have htarget := hguard.symm.trans hc.guard
    cases htarget
    rcases hw with ⟨hash, ⟨hold, -⟩, -⟩ | ⟨hloc, -⟩
    · rw [hfree] at hold
      cases hold
    · exact hloc

/-- A download with everything working. -/
def sampleDownload (tenant : Option String) (share path : String) : DownloadRequest where
  tenant := tenant
  share := share
  admitted := .ok ()
  includes := []
  path := path

/-- Two tenants use the share `notes`, one the file `f` and the other the file `other`. -/
def sampleTenants (other : String) : List Request :=
  [.upload (sampleUpload (some "acme") "notes" "f" [97]),
    .upload (sampleUpload (some "beta") "notes" other [98]),
    .download (sampleDownload (some "acme") "notes" "f")]

end DiskArcana.Hosting
