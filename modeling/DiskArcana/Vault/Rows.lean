import DiskArcana.Vault.Model

/-!
# What the handlers do to the rows

Restoring a file writes one row or none: the row of what the guard makes of the path, with the content
and the nonce that were looked up, if every step goes through (`restoreFile_cases`). A snapshot's
files do so one by one (`restoreTurn_cases`).
-/

namespace DiskArcana.Vault

open DiskArcana.Core DiskArcana.Lib DiskArcana.Server
open DiskArcana.Lib.UnixFs DiskArcana.Lib.UnixFs.FileSystem
open DiskArcana.Hosting (Revision dbKey)

/-- A live row with the columns of a restored revision. -/
structure IsRestored (rev : Revision) (row : FileRow) : Prop where
  live : row.deleted = false
  contentHash : row.contentHash = rev.contentHash
  size : row.size = rev.size
  nonce : row.encryptionNonce = rev.nonce

section

variable (blake3 : Bytes → Digest) (cfg : VaultConfig)

/-- The guard leads to the target, its directory can be created, the bytes can be written, and the
row can be stored. -/
structure Admits (s : VaultState) (r : RestoreRequest) (env : FileAnswers) (rev : Revision)
    (target : Location) : Prop where
  guarded : validate cfg s.fs rev.path = .ok target
  parents : (makeParents s.fs target env.dirOk).2 = true
  written : (writeTarget (makeParents s.fs target env.dirOk).1 target rev.bytes env.write).2 = true
  stored : env.upsertOk = true
  row : (s.db.upsertFileScopedVersioned
    (restoredMeta rev.facility (rowKey cfg target) rev.contentHash rev.size rev.nonce env.mtimeNs)
    ⟨r.user, r.retention⟩ env.now).isSome = true

variable {cfg} in
theorem Admits.target_eq {s : VaultState} {r : RestoreRequest} {env : FileAnswers} {rev : Revision}
    {target target' : Location} (h : Admits cfg s r env rev target)
    (h' : Admits cfg s r env rev target') : target = target' := by
  have hok := h.guarded
  rw [h'.guarded] at hok
  exact (Except.ok.inj hok).symm

/-- **A restored file**: its row, or an error and the rows as they were. -/
theorem restoreFile_cases (s : VaultState) (r : RestoreRequest) (env : FileAnswers)
    (archives : Bool) (rev : Revision) :
    (∃ target row, Admits cfg s r env rev target ∧
      (restoreFile cfg s r env archives rev).1 = .ok () ∧
      (restoreFile cfg s r env archives rev).2.db.files =
        s.db.files.insert (rowKey cfg target) row ∧ IsRestored rev row) ∨
      (∀ target, ¬ Admits cfg s r env rev target) ∧
        ∃ e, (restoreFile cfg s r env archives rev).1 = .error e ∧
          (restoreFile cfg s r env archives rev).2.db = s.db := by
  unfold restoreFile
  rcases hguard : validate cfg s.fs rev.path with e | target
  · refine Or.inr ⟨fun target h => ?_, _, rfl, rfl⟩
    have hok := h.guarded
    rw [hguard] at hok
    cases hok
  have honly : ∀ {target'}, Admits cfg s r env rev target' → target' = target := by
    intro target' h
    have hok := h.guarded
    rw [hguard] at hok
    exact (Except.ok.inj hok).symm
  dsimp only
  rcases hdirs : (makeParents s.fs target env.dirOk).2 with _ | _
  · refine Or.inr ⟨fun target' h => ?_, _, rfl, rfl⟩
    obtain rfl := honly h
    exact Bool.false_ne_true (hdirs.symm.trans h.parents)
  simp only [Bool.not_true, Bool.false_eq_true, if_false]
  rcases hwritten : (writeTarget (makeParents s.fs target env.dirOk).1 target rev.bytes env.write).2
    with _ | _
  · refine Or.inr ⟨fun target' h => ?_, _, rfl, rfl⟩
    obtain rfl := honly h
    exact Bool.false_ne_true (hwritten.symm.trans h.written)
  simp only [Bool.not_true, Bool.false_eq_true, if_false]
  split
  · rename_i db hdb hok
    obtain ⟨⟨versionId, parentVersionId, hfiles⟩, -⟩ := MetaDb.of_upsertFileScopedVersioned hdb
    rw [restoredMeta_path] at hfiles
    refine Or.inl ⟨target, _, ⟨hguard, hdirs, hwritten, hok, ?_⟩, rfl, hfiles, ⟨rfl, rfl, rfl, rfl⟩⟩
    rw [hdb]
    rfl
  · rename_i hfails
    refine Or.inr ⟨fun target' h => ?_, _, rfl, rfl⟩
    obtain rfl := honly h
    obtain ⟨db, hdb⟩ := Option.isSome_iff_exists.mp h.row
    exact hfails db hdb h.stored

/-- A restored file leaves the snapshots alone. -/
theorem restoreFile_snapshots (s : VaultState) (r : RestoreRequest) (env : FileAnswers)
    (archives : Bool) (rev : Revision) :
    (restoreFile cfg s r env archives rev).2.snapshots = s.snapshots ∧
      (restoreFile cfg s r env archives rev).2.nextSnapshot = s.nextSnapshot := by
  unfold restoreFile
  rcases validate cfg s.fs rev.path with e | target
  · exact ⟨rfl, rfl⟩
  dsimp only
  rcases (makeParents s.fs target env.dirOk).2 with _ | _
  · exact ⟨rfl, rfl⟩
  simp only [Bool.not_true, Bool.false_eq_true, if_false]
  rcases (writeTarget (makeParents s.fs target env.dirOk).1 target rev.bytes env.write).2 with _ | _
  · exact ⟨rfl, rfl⟩
  simp only [Bool.not_true, Bool.false_eq_true, if_false]
  split <;> exact ⟨rfl, rfl⟩

/-- What the restore of a recorded revision has found: no nonce, as the history keeps none. -/
theorem of_planVersion {s : VaultState} {r : RestoreRequest} {rawPath : String} {versionId : ℕ}
    {rev : Revision} (h : planVersion s r rawPath versionId = .ok rev) :
    ∃ v, s.db.getFileVersion (dbKey rev.path) versionId = some v ∧
      rev.contentHash = v.contentHash ∧ rev.size = v.size ∧ rev.nonce = none := by
  unfold planVersion at h
  rcases hpath : Hosting.normalizeRelPath rawPath with e | path
  · rw [hpath] at h
    cases h
  rw [hpath] at h
  simp only [bind, Except.bind, pure, Except.pure, throw, throwThe, MonadExceptOf.throw] at h
  rcases hadmitted : r.admitted with e | u
  · rw [hadmitted] at h
    split_ifs at h
  rw [hadmitted] at h
  split_ifs at h
  rcases hversion : s.db.getFileVersion (dbKey path) versionId with _ | v
  · rw [hversion] at h
    cases h
  rw [hversion] at h
  dsimp only at h
  rcases hblob : s.versionBlobs.lookup v.contentHash with _ | bytes
  · rw [hblob] at h
    cases h
  rw [hblob] at h
  dsimp only at h
  split_ifs at h
  cases h
  exact ⟨v, hversion, rfl, rfl, rfl⟩

/-! ## Snapshots -/

/-- The row to which the guard leads a live file of a snapshot. -/
def ledTo (s : VaultState) (entry : SnapshotFile) : Option Path :=
  if entry.deleted then none
  else match validate cfg s.fs (pathString entry.path) with
    | .ok target => some (rowKey cfg target)
    | .error _ => none

/-- What the restore of a snapshot's file has found is of the file. -/
theorem of_planSnapshotFile {s : VaultState} {entry : SnapshotFile} {rev : Revision}
    (h : planSnapshotFile blake3 cfg s entry = some rev) :
    rev.path = pathString entry.path ∧ rev.contentHash = entry.contentHash ∧
      rev.size = entry.size ∧ rev.nonce = none := by
  unfold planSnapshotFile at h
  dsimp only at h
  by_cases hpath : (pathString entry.path).isEmpty || hasDotDot (pathString entry.path)
  · rw [if_pos hpath] at h
    cases h
  · rw [if_neg hpath] at h
    obtain ⟨bytes, -, rfl⟩ := Option.map_eq_some_iff.mp h
    exact ⟨rfl, rfl, rfl, rfl⟩

/-- The file of a turn is live, its bytes are there, and they can be written to the target. -/
structure TurnAdmits (r : RestoreRequest) (l : SnapshotLoop) (entry : SnapshotFile) (rev : Revision)
    (target : Location) : Prop where
  live : entry.deleted = false
  planned : planSnapshotFile blake3 cfg l.vault entry = some rev
  admits : Admits cfg l.vault r (r.env l.position) rev target

variable {blake3 cfg} in
theorem TurnAdmits.target_eq {r : RestoreRequest} {l : SnapshotLoop} {entry : SnapshotFile}
    {rev rev' : Revision} {target target' : Location}
    (h : TurnAdmits blake3 cfg r l entry rev target)
    (h' : TurnAdmits blake3 cfg r l entry rev' target') : target = target' := by
  have hplanned := h.planned
  rw [h'.planned] at hplanned
  obtain rfl := Option.some.inj hplanned
  exact h.admits.target_eq h'.admits

/-- A turn that is not counted as failed: the row that the guard leads to, live, with the content of
the file and no nonce. -/
structure TurnRestores (l l' : SnapshotLoop) (entry : SnapshotFile) (key : Path) : Prop where
  led : ledTo cfg l.vault entry = some key
  failed : l'.failed = l.failed
  row : ∃ row, l'.vault.db.files = l.vault.db.files.insert key row ∧ row.deleted = false ∧
    row.contentHash = entry.contentHash ∧ row.size = entry.size ∧ row.encryptionNonce = none

/-- **One turn**: a restored row, or the rows as they were and a file that is skipped or has failed. -/
theorem restoreTurn_cases (r : RestoreRequest) (l : SnapshotLoop) (entry : SnapshotFile) :
    (∃ rev target, TurnAdmits blake3 cfg r l entry rev target ∧
      TurnRestores cfg l (restoreTurn blake3 cfg r l entry) entry (rowKey cfg target)) ∨
      (∀ rev target, ¬ TurnAdmits blake3 cfg r l entry rev target) ∧
        (restoreTurn blake3 cfg r l entry).vault.db = l.vault.db ∧
        (entry.deleted = true ∧ (restoreTurn blake3 cfg r l entry).failed = l.failed ∨
          (restoreTurn blake3 cfg r l entry).failed = l.failed + 1) := by
  unfold restoreTurn
  rcases hdeleted : entry.deleted with _ | _
  · simp only [Bool.false_eq_true, if_false]
    rcases hplan : planSnapshotFile blake3 cfg l.vault entry with _ | rev
    · refine Or.inr ⟨fun rev target h => ?_, rfl, Or.inr rfl⟩
      have hrev := h.planned
      rw [hplan] at hrev
      cases hrev
    obtain ⟨hpath, hhash, hsize, hnonce⟩ := of_planSnapshotFile blake3 cfg hplan
    dsimp only
    rcases restoreFile_cases cfg l.vault r (r.env l.position) true rev with
      ⟨target, row, hadmits, hok, hfiles, hrow⟩ | ⟨hnone, e, herror, hdb⟩
    · refine Or.inl ⟨rev, target, ⟨hdeleted, hplan, hadmits⟩, ?_⟩
      rcases hres : restoreFile cfg l.vault r (r.env l.position) true rev with ⟨u, s'⟩
      rw [hres] at hok hfiles
      dsimp only at hok hfiles
      subst hok
      refine ⟨?_, rfl, row, hfiles, hrow.live, hrow.contentHash.trans hhash,
        hrow.size.trans hsize, hrow.nonce.trans hnonce⟩
      have hguard := hadmits.guarded
      rw [hpath] at hguard
      unfold ledTo
      simp only [hdeleted, Bool.false_eq_true, if_false, hguard]
    · rcases hres : restoreFile cfg l.vault r (r.env l.position) true rev with ⟨u, s'⟩
      rw [hres] at herror hdb
      dsimp only at herror hdb
      subst herror
      refine Or.inr ⟨fun rev' target h => ?_, hdb, Or.inr rfl⟩
      have hrev := h.planned
      rw [hplan] at hrev
      obtain rfl := Option.some.inj hrev
      exact hnone target h.admits
  · refine Or.inr ⟨fun rev target h => ?_, rfl, Or.inl ⟨rfl, rfl⟩⟩
    have hlive := h.live
    rw [hdeleted] at hlive
    cases hlive

/-- The turns of a restored snapshot: the loop before each of them, and the file. -/
def turnsOf (s : VaultState) (r : RestoreRequest) (id : ℕ) : List (SnapshotLoop × SnapshotFile) :=
  match r.admitted, s.snapshots.lookup id with
  | .ok _, some files =>
      Trace.history (restoreTurn blake3 cfg r) (loopStart s) (sortSnapshotFiles files)
  | _, _ => []

/-- A restored snapshot is its turns, or nothing. -/
theorem restoreSnapshot_cases (s : VaultState) (r : RestoreRequest) (id : ℕ) :
    (turnsOf blake3 cfg s r id = [] ∧ (restoreSnapshot blake3 cfg s r id).2 = s ∧
      ∃ e, (restoreSnapshot blake3 cfg s r id).1 = .error e) ∨
      ∃ files, s.snapshots.lookup id = some files ∧
        turnsOf blake3 cfg s r id =
          Trace.history (restoreTurn blake3 cfg r) (loopStart s) (sortSnapshotFiles files) ∧
        ∃ l, l = Trace.run (restoreTurn blake3 cfg r) (loopStart s) (sortSnapshotFiles files) ∧
          restoreSnapshot blake3 cfg s r id =
            (.ok ⟨id, l.restored, l.skipped, l.failed⟩, l.vault) := by
  unfold restoreSnapshot turnsOf
  rcases r.admitted with e | u
  · exact Or.inl ⟨rfl, rfl, _, rfl⟩
  · rcases s.snapshots.lookup id with _ | files
    · exact Or.inl ⟨rfl, rfl, _, rfl⟩
    · exact Or.inr ⟨files, rfl, rfl, _, rfl, rfl⟩

end

end DiskArcana.Vault
